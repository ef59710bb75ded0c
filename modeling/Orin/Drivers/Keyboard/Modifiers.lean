import Orin.Drivers.Keyboard.Decode

namespace Orin.Drivers.Keyboard

open Theory

-- A key going down or up, also one that the driver's tables do not have.
inductive Stroke where
  | base (code : Fin 0x60) (pressed : Bool)
  | foreign (byte : UInt8) (out : 0x60 ≤ (byte &&& 0x7F).toNat) (he0 : byte ≠ 0xE0) (he1 : byte ≠ 0xE1)
  | extended (code : Fin 0x60) (pressed : Bool)
  | extended_foreign (byte : UInt8) (out : 0x60 ≤ (byte &&& 0x7F).toNat) (he0 : byte ≠ 0xE0)
      (he1 : byte ≠ 0xE1)
  | print_screen (pressed : Bool)
  | pause

namespace Stroke

def bytes : Stroke → List UInt8
  | .base code pressed => [scancode code pressed]
  | .foreign byte _ _ _ => [byte]
  | .extended code pressed => [0xE0, scancode code pressed]
  | .extended_foreign byte _ _ _ => [0xE0, byte]
  | .print_screen pressed => (Action.print_screen pressed).bytes
  | .pause => PAUSE

def key : Stroke → KeyCode
  | .base code _ => SCANCODE_BASE.get code
  | .foreign _ _ _ _ => .None
  | .extended code _ => lookup_e0 (UInt8.ofNat code)
  | .extended_foreign _ _ _ _ => .None
  | .print_screen _ => .PrintScreen
  | .pause => .Pause

def pressed : Stroke → Bool
  | .base _ pressed => pressed
  | .foreign byte _ _ _ => byte &&& 0x80 == 0
  | .extended _ pressed => pressed
  | .extended_foreign byte _ _ _ => byte &&& 0x80 == 0
  | .print_screen pressed => pressed
  | .pause => true

end Stroke

-- The key was pressed and has not been released since.
def down (key : KeyCode) : List Stroke → Bool := latest (fun s => s.key = key) Stroke.pressed false

def shift_down (strokes : List Stroke) : Bool := down .ShiftLeft strokes || down .ShiftRight strokes

def ctrl_down (strokes : List Stroke) : Bool := down .ControlLeft strokes || down .ControlRight strokes

def alt_down (strokes : List Stroke) : Bool := down .AltLeft strokes || down .AltRight strokes

-- The other key of a flag.
def partner : KeyCode → Option KeyCode
  | .ShiftLeft => some .ShiftRight
  | .ShiftRight => some .ShiftLeft
  | .ControlLeft => some .ControlRight
  | .ControlRight => some .ControlLeft
  | .AltLeft => some .AltRight
  | .AltRight => some .AltLeft
  | _ => none

-- The stroke is no release of a modifier whose partner is down, and it leaves no prefix
-- behind.
def Apart (past : List Stroke) (s : Stroke) : Prop :=
  (s.pressed = false → ∀ other, partner s.key = some other → down other past = false) ∧
    ∀ byte out he0 he1, s ≠ .extended_foreign byte out he0 he1

-- What a stroke leaves: its flag set, no prefix, and characters by the new Shift.
structure Struck (st : State) (key : KeyCode) (released : Bool) (r : State × List KeyEvent) : Prop where
  clear : r.1.Clear
  shift : r.1.shift = (st.modify_flags key released).shift
  ctrl : r.1.ctrl = (st.modify_flags key released).ctrl
  alt : r.1.alt = (st.modify_flags key released).alt
  ch : ∀ e ∈ r.2, e.ch = char_for e.code r.1.shift

section Struck

variable {st : State} {key : KeyCode} {released : Bool} {r r' : State × List KeyEvent}

theorem struck_none (hclear : st.Clear) : Struck st .None released (st, []) :=
  ⟨hclear, rfl, rfl, rfl, fun _ he => absurd he List.not_mem_nil⟩

theorem struck_key (hclear : st.Clear) {tick : Nat} : Struck st key released
    ((st.translate_key key released tick).state, (st.translate_key key released tick).event.toList) := by
  unfold State.translate_key
  split
  · exact ⟨State.modify_flags_clear hclear, rfl, rfl, rfl, fun _ he => absurd he List.not_mem_nil⟩
  · refine ⟨State.modify_flags_clear hclear, rfl, rfl, rfl, fun e he => ?_⟩
    rw [List.mem_singleton.mp he]
    rfl

theorem struck_extended (hclear : st.Clear) {idx : UInt8} {tick : Nat} : Struck st (lookup_e0 idx) released
    ((st.translate_extended idx released tick).state,
      (st.translate_extended idx released tick).event.toList) := by
  by_cases hshift : idx = 0x2A ∨ idx = 0xAA
  · have hnone : lookup_e0 idx = .None := by
      rcases hshift with rfl | rfl <;> rfl
    rw [hnone, State.translate_extended, State.not_extended hclear, if_pos hshift]
    exact struck_none hclear
  · rw [State.translate_extended, State.not_extended hclear, if_neg hshift]
    dsimp only
    split
    · rename_i hnone
      rw [hnone]
      refine ⟨hclear, rfl, rfl, rfl, fun e he => ?_⟩
      rw [List.mem_singleton.mp he]
      rfl
    · exact struck_key hclear

-- Strokes of keys that are no modifiers add up to one.
theorem Struck.append (h : Struck st .None false r) (h' : Struck r.1 .None false r') :
    Struck st .None false (r'.1, r.2 ++ r'.2) := by
  have hshift : r'.1.shift = r.1.shift := h'.shift
  refine ⟨h'.clear, h'.shift.trans h.shift, h'.ctrl.trans h.ctrl, h'.alt.trans h.alt, fun e he => ?_⟩
  rcases List.mem_append.mp he with hold | hnew
  · rw [h.ch e hold, hshift]
  · exact h'.ch e hnew

theorem struck_e1 (hclear : st.Clear) {b : UInt8} (he0 : b ≠ 0xE0) (he1 : b ≠ 0xE1)
    {arrivals : List Arrival} (hbytes : arrivals.map Prod.snd = [0xE1, b]) :
    Struck st .None false (feed State.decode st arrivals) := by
  obtain ⟨tick, hfeed⟩ := feed_e1 hclear he0 he1 hbytes
  rw [hfeed]
  refine ⟨hclear, rfl, rfl, rfl, fun e he => ?_⟩
  rw [List.mem_singleton.mp he]
  rfl

theorem struck_num_lock (hclear : st.Clear) {pressed : Bool} {arrivals : List Arrival}
    (hbytes : arrivals.map Prod.snd = (Action.base 0x45 (by decide) pressed).bytes) :
    Struck st .None false (feed State.decode st arrivals) := by
  obtain ⟨tick, hfeed⟩ := feed_action hclear _ hbytes
  rw [hfeed]
  obtain ⟨hclear', hshift, hctrl, halt, hch⟩ := @struck_key st .NumLock (!pressed) hclear tick
  exact ⟨hclear', hshift, hctrl, halt, hch⟩

end Struck

theorem feed_stroke {st : State} (hclear : st.Clear) {s : Stroke}
    (hlisted : ∀ byte out he0 he1, s ≠ .extended_foreign byte out he0 he1) {arrivals : List Arrival}
    (hbytes : arrivals.map Prod.snd = s.bytes) :
    Struck st s.key (!s.pressed) (feed State.decode st arrivals) := by
  cases s with
  | base code pressed =>
      obtain ⟨tick, rest, rfl, hrest⟩ := exists_arrival hbytes
      obtain rfl := List.map_eq_nil_iff.mp hrest
      rw [feed_singleton, State.decode, State.translate_base hclear]
      exact struck_key hclear
  | foreign byte out he0 he1 =>
      obtain ⟨tick, rest, rfl, hrest⟩ := exists_arrival hbytes
      obtain rfl := List.map_eq_nil_iff.mp hrest
      rw [feed_singleton, State.decode, State.translate, if_neg he0, if_neg he1, hclear.2]
      simp only [Bool.false_eq_true, ↓reduceIte, dif_neg (Nat.not_lt.mpr out)]
      exact ⟨⟨hclear.1, rfl⟩, rfl, rfl, rfl, fun _ he => absurd he List.not_mem_nil⟩
  | extended code pressed =>
      obtain ⟨tick, hfeed⟩ := feed_e0 hclear hbytes
      rw [hfeed]
      exact struck_extended hclear
  | extended_foreign byte out he0 he1 => exact absurd rfl (hlisted byte out he0 he1)
  | print_screen pressed =>
      obtain ⟨tick, hfeed⟩ := feed_action hclear (.print_screen pressed) hbytes
      rw [hfeed]
      exact struck_key hclear
  | pause =>
      obtain ⟨first, down, again, up, rfl, hfirst, hdown, hagain, hup⟩ := exists_pause_parts hbytes
      have h₁ := struck_e1 hclear (by decide) (by decide) hfirst
      have h₂ := struck_num_lock h₁.clear hdown
      have h₃ := struck_e1 h₂.clear (by decide) (by decide) hagain
      have h₄ := struck_num_lock h₃.clear hup
      rw [feed_append, feed_append, feed_append]
      obtain ⟨hclear', hshift, hctrl, halt, hch⟩ := h₁.append (h₂.append (h₃.append h₄))
      exact ⟨hclear', hshift, hctrl, halt, hch⟩

-- The flags are those of the keys that are down.
structure Tracks (st : State) (strokes : List Stroke) : Prop where
  clear : st.Clear
  shift : st.shift = shift_down strokes
  ctrl : st.ctrl = ctrl_down strokes
  alt : st.alt = alt_down strokes

theorem down_snoc {key : KeyCode} {past : List Stroke} {s : Stroke} :
    down key (past ++ [s]) = if s.key = key then s.pressed else down key past := by
  rw [down, latest_snoc]
  simp only [decide_eq_true_eq]

-- A flag that two keys share: it is right after a stroke of one of them if the other is up
-- whenever that one is released.
theorem flag_snoc {left right : KeyCode} {flag : Bool} {past : List Stroke} {s : Stroke}
    (hne : left ≠ right) (hflag : flag = (down left past || down right past))
    (hleft : s.key = left → s.pressed = false → down right past = false)
    (hright : s.key = right → s.pressed = false → down left past = false) :
    (if s.key = left ∨ s.key = right then s.pressed else flag) =
      (down left (past ++ [s]) || down right (past ++ [s])) := by
  rw [down_snoc, down_snoc]
  by_cases hl : s.key = left
  · have hr : ¬ s.key = right := fun hr => hne (hl ▸ hr)
    cases hp : s.pressed with
    | true => simp [hl]
    | false => simp [hl, hne, hleft hl hp]
  · by_cases hr : s.key = right
    · cases hp : s.pressed with
      | true => simp [hr]
      | false => simp [hr, Ne.symm hne, hright hr hp]
    · simp [hl, hr, hflag]

theorem Tracks.snoc {st : State} {past : List Stroke} {s : Stroke} (h : Tracks st past)
    (hapart : Apart past s) {r : State × List KeyEvent} (hstruck : Struck st s.key (!s.pressed) r) :
    Tracks r.1 (past ++ [s]) := by
  obtain ⟨hpartner, -⟩ := hapart
  refine ⟨hstruck.clear, ?_, ?_, ?_⟩
  · rw [hstruck.shift, State.modify_flags_shift, Bool.not_not, shift_down,
      ← flag_snoc (by decide) h.shift]
    · simp only [is_shift, decide_eq_true_eq]
    · exact fun hkey hup => hpartner hup .ShiftRight (by rw [hkey]; rfl)
    · exact fun hkey hup => hpartner hup .ShiftLeft (by rw [hkey]; rfl)
  · rw [hstruck.ctrl, State.modify_flags_ctrl, Bool.not_not, ctrl_down,
      ← flag_snoc (by decide) h.ctrl]
    · simp only [is_ctrl, decide_eq_true_eq]
    · exact fun hkey hup => hpartner hup .ControlRight (by rw [hkey]; rfl)
    · exact fun hkey hup => hpartner hup .ControlLeft (by rw [hkey]; rfl)
  · rw [hstruck.alt, State.modify_flags_alt, Bool.not_not, alt_down,
      ← flag_snoc (by decide) h.alt]
    · simp only [is_alt, decide_eq_true_eq]
    · exact fun hkey hup => hpartner hup .AltRight (by rw [hkey]; rfl)
    · exact fun hkey hup => hpartner hup .AltLeft (by rw [hkey]; rfl)

theorem tracks_of_strokes {st : State} (hst : Tracks st []) (strokes : List Stroke)
    (arrivals : List Arrival) (hbytes : arrivals.map Prod.snd = strokes.flatMap Stroke.bytes)
    (hapart : ∀ past s later, strokes = past ++ s :: later → Apart past s) :
    Tracks (feed State.decode st arrivals).1 strokes := by
  induction strokes using List.reverseRecOn generalizing arrivals with
  | nil =>
      obtain rfl := List.map_eq_nil_iff.mp hbytes
      exact hst
  | append_singleton past s ih =>
      rw [List.flatMap_append, List.flatMap_singleton] at hbytes
      obtain ⟨before, now, rfl, hbefore, hnow⟩ := List.map_eq_append_iff.mp hbytes
      have htracks := ih before hbefore fun past' s' later hpast =>
        hapart past' s' (later ++ [s]) (by rw [hpast, List.append_assoc]; rfl)
      have hlast := hapart past s [] rfl
      have hnext := htracks.snoc hlast (feed_stroke htracks.clear hlast.2 hnow)
      rw [feed_append]
      exact hnext

-- In a run in which no modifier is released while its partner is down, and no extended key
-- lies outside the table, the flags are those of the keys held after every key, and each
-- character is the shifted one exactly when a Shift key is down.
theorem flags_track (st : State) (hclear : st.Clear) (hshift : st.shift = false)
    (hctrl : st.ctrl = false) (halt : st.alt = false) (past : List Stroke) (s : Stroke)
    (before now : List Arrival) (hbefore : before.map Prod.snd = past.flatMap Stroke.bytes)
    (hnow : now.map Prod.snd = s.bytes)
    (hapart : ∀ past' s' later, past ++ [s] = past' ++ s' :: later → Apart past' s') :
    let r := feed State.decode (feed State.decode st before).1 now
    r.1.shift = shift_down (past ++ [s]) ∧ r.1.ctrl = ctrl_down (past ++ [s]) ∧
      r.1.alt = alt_down (past ++ [s]) ∧
      ∀ e ∈ r.2, e.ch = char_for e.code (shift_down (past ++ [s])) := by
  have hpast := tracks_of_strokes ⟨hclear, hshift, hctrl, halt⟩ past before hbefore
    fun past' s' later h => hapart past' s' (later ++ [s]) (by rw [h, List.append_assoc]; rfl)
  have hlast := hapart past s [] rfl
  have hstruck := feed_stroke hpast.clear hlast.2 hnow
  have hnext := hpast.snoc hlast hstruck
  refine ⟨hnext.shift, hnext.ctrl, hnext.alt, fun e he => ?_⟩
  rw [hstruck.ch e he, hnext.shift]

theorem flags_track_shifted :
    ((feed State.decode (feed State.decode State.new [(0, 0x2A)]).1 [(1, 0x1E)]).2.map KeyEvent.ch) =
        [some 'A'] ∧
      (feed State.decode (feed State.decode State.new [(0, 0x2A)]).1 [(1, 0x1E)]).1.shift =
        shift_down [.base 0x2A true, .base 0x1E true] := by
  refine ⟨by decide, (flags_track State.new ⟨rfl, rfl⟩ rfl rfl rfl [.base 0x2A true] (.base 0x1E true)
    [(0, 0x2A)] [(1, 0x1E)] rfl rfl fun past s later h => ?_).1⟩
  have hmem : s ∈ [Stroke.base 0x2A true, .base 0x1E true] :=
    (show [Stroke.base 0x2A true, .base 0x1E true] = past ++ s :: later from h) ▸ by simp
  obtain rfl | rfl : s = .base 0x2A true ∨ s = .base 0x1E true := by simpa using hmem
  · exact ⟨(fun hup => nomatch hup), fun _ _ _ _ heq => nomatch heq⟩
  · exact ⟨(fun hup => nomatch hup), fun _ _ _ _ heq => nomatch heq⟩

-- Both Shift keys go down, and the left one comes up again.
def overlap : List Stroke := [.base 0x2A true, .base 0x36 true, .base 0x2A false]

theorem right_shift_forgotten : overlap.flatMap Stroke.bytes = [0x2A, 0x36, 0xAA] ∧
    shift_down overlap = true ∧
    (feed State.decode State.new [(0, 0x2A), (1, 0x36), (2, 0xAA)]).1.shift = false ∧
    (feed State.decode (feed State.decode State.new [(0, 0x2A), (1, 0x36), (2, 0xAA)]).1
      [(3, 0x1E)]).2.map KeyEvent.ch = [some 'a'] := by
  decide

end Orin.Drivers.Keyboard
