import Mathlib.Data.List.Induction
import Orin.Drivers.Keyboard
import Orin.Theory.Transducer

namespace Orin.Drivers.Keyboard

open Theory

-- A byte with the tick at which it is decoded.
abbrev Arrival := Nat × UInt8

namespace State

def decode (st : State) (arrival : Arrival) : State × List KeyEvent :=
  let translated := st.translate arrival.1 arrival.2
  (translated.state, translated.event.toList)

-- No prefix is pending.
def Clear (st : State) : Prop := st.extended = false ∧ st.pause_prefix = false

end State

-- The byte of a 7-bit code: the high bit marks a release.
def scancode (code : Fin 0x60) (pressed : Bool) : UInt8 :=
  if pressed then UInt8.ofNat code else UInt8.ofNat code ||| 0x80

theorem scancode_spec : ∀ (code : Fin 0x60) (pressed : Bool),
    scancode code pressed ≠ 0xE0 ∧ scancode code pressed ≠ 0xE1 ∧
      (scancode code pressed &&& 0x7F) = UInt8.ofNat code ∧
      (scancode code pressed &&& 0x80 != 0) = !pressed := by
  decide

theorem toNat_code (code : Fin 0x60) : (UInt8.ofNat code).toNat = code :=
  UInt8.toNat_ofNat_of_lt' (by simp only [UInt8.size]; omega)

namespace State

variable {st : State} {tick : Nat}

theorem translate_base (hclear : st.Clear) (code : Fin 0x60) (pressed : Bool) :
    st.translate tick (scancode code pressed) =
      st.translate_key (SCANCODE_BASE.get code) (!pressed) tick := by
  obtain ⟨he0, he1, hidx, hreleased⟩ := scancode_spec code pressed
  have hcode := toNat_code code
  rw [translate, if_neg he0, if_neg he1, hclear.2]
  simp only [Bool.false_eq_true, ↓reduceIte, hidx, hcode, hreleased, hclear.1, code.isLt, ↓reduceDIte]

theorem translate_after_e0 (hclear : st.Clear) (code : Fin 0x60) (pressed : Bool) :
    { st with extended := true }.translate tick (scancode code pressed) =
      st.translate_extended (UInt8.ofNat code) (!pressed) tick := by
  obtain ⟨he0, he1, hidx, hreleased⟩ := scancode_spec code pressed
  have hcode := toNat_code code
  obtain ⟨presence, shift, ctrl, alt, extended, pause_prefix, events, unknown⟩ := st
  obtain ⟨rfl, rfl⟩ := hclear
  rw [translate, if_neg he0, if_neg he1]
  simp only [Bool.false_eq_true, ↓reduceIte, hidx, hcode, hreleased, code.isLt, ↓reduceDIte]
  rfl

theorem not_extended (hclear : st.Clear) : { st with extended := false } = st := by
  obtain ⟨presence, shift, ctrl, alt, extended, pause_prefix, events, unknown⟩ := st
  obtain ⟨rfl, -⟩ := hclear
  rfl

-- A key of the extended table, and the synthetic Shift.
theorem translate_e0_key (hclear : st.Clear) {entry : UInt8 × KeyCode}
    (hentry : entry ∈ SCANCODE_E0_MAP) (released : Bool) :
    st.translate_extended entry.1 released tick = st.translate_key entry.2 released tick := by
  have htable : ∀ entry ∈ SCANCODE_E0_MAP, ¬ (entry.1 = 0x2A ∨ entry.1 = 0xAA) ∧
      lookup_e0 entry.1 = entry.2 ∧ entry.2 ≠ .None := by decide
  obtain ⟨hshift, hkey, hnone⟩ := htable entry hentry
  rw [translate_extended, not_extended hclear]
  simp only [hshift, hkey, hnone, ↓reduceIte]

theorem translate_synthetic (hclear : st.Clear) (released : Bool) :
    st.translate_extended 0x2A released tick = ⟨st, none, none⟩ := by
  rw [translate_extended, not_extended hclear]
  rfl

-- What a known key does, wherever its code came from.
theorem translate_key_known {key : KeyCode} {pressed : Bool} (hkey : key ≠ .None) :
    st.translate_key key (!pressed) tick =
      let st' := { st.modify_flags key (!pressed) with events := st.events + 1 }
      ⟨st', some ⟨key, pressed, st'.shift, st'.ctrl, st'.alt, tick, char_for key st'.shift⟩, none⟩ := by
  have hevents : (st.modify_flags key (!pressed)).events = st.events := by
    unfold modify_flags
    split <;> rfl
  rw [translate_key, if_neg hkey]
  simp only [event, hevents, Bool.not_not]

theorem modify_flags_clear {key : KeyCode} {released : Bool} (hclear : st.Clear) :
    (st.modify_flags key released).Clear := by
  unfold modify_flags
  split <;> exact hclear

theorem translate_key_clear {key : KeyCode} {released : Bool} (hclear : st.Clear) :
    (st.translate_key key released tick).state.Clear := by
  unfold translate_key
  split <;> exact modify_flags_clear hclear

end State

-- The keys that share a flag.
def is_shift (key : KeyCode) : Bool := key = .ShiftLeft ∨ key = .ShiftRight

def is_ctrl (key : KeyCode) : Bool := key = .ControlLeft ∨ key = .ControlRight

def is_alt (key : KeyCode) : Bool := key = .AltLeft ∨ key = .AltRight

namespace State

variable {st : State} {key : KeyCode} {released : Bool}

theorem modify_flags_shift :
    (st.modify_flags key released).shift = if is_shift key then !released else st.shift := by
  cases key <;> rfl

theorem modify_flags_ctrl :
    (st.modify_flags key released).ctrl = if is_ctrl key then !released else st.ctrl := by
  cases key <;> rfl

theorem modify_flags_alt :
    (st.modify_flags key released).alt = if is_alt key then !released else st.alt := by
  cases key <;> rfl

end State

-- A key going down or up, as far as the driver knows the key.
inductive Action where
  | base (code : Fin 0x60) (known : SCANCODE_BASE.get code ≠ .None) (pressed : Bool)
  | extended (code : Fin 0x60) (key : KeyCode) (known : (UInt8.ofNat code, key) ∈ SCANCODE_E0_MAP)
      (pressed : Bool)
  | print_screen (pressed : Bool)

namespace Action

def key : Action → KeyCode
  | .base code _ _ => SCANCODE_BASE.get code
  | .extended _ key _ _ => key
  | .print_screen _ => .PrintScreen

def pressed : Action → Bool
  | .base _ _ pressed => pressed
  | .extended _ _ _ pressed => pressed
  | .print_screen pressed => pressed

-- What the keyboard sends.
def bytes : Action → List UInt8
  | .base code _ pressed => [scancode code pressed]
  | .extended code _ _ pressed => [0xE0, scancode code pressed]
  | .print_screen true => [0xE0, 0x2A, 0xE0, 0x37]
  | .print_screen false => [0xE0, 0xB7, 0xE0, 0xAA]

theorem key_ne_none (a : Action) : a.key ≠ .None := by
  cases a with
  | base code known pressed => exact known
  | extended code key known pressed =>
      have htable : ∀ entry ∈ SCANCODE_E0_MAP, entry.2 ≠ .None := by decide
      exact htable _ known
  | print_screen pressed => exact KeyCode.noConfusion

end Action

theorem exists_arrival {arrivals : List Arrival} {b : UInt8} {bs : List UInt8}
    (h : arrivals.map Prod.snd = b :: bs) :
    ∃ tick rest, arrivals = (tick, b) :: rest ∧ rest.map Prod.snd = bs := by
  obtain ⟨⟨tick, byte⟩, rest, rfl, rfl, hrest⟩ := List.map_eq_cons_iff.mp h
  exact ⟨tick, rest, rfl, hrest⟩

theorem feed_e0 {st : State} (hclear : st.Clear) {code : Fin 0x60} {pressed : Bool}
    {arrivals : List Arrival} (hbytes : arrivals.map Prod.snd = [0xE0, scancode code pressed]) :
    ∃ tick, feed State.decode st arrivals =
      ((st.translate_extended (UInt8.ofNat code) (!pressed) tick).state,
        (st.translate_extended (UInt8.ofNat code) (!pressed) tick).event.toList) := by
  obtain ⟨first, rest, rfl, hrest⟩ := exists_arrival hbytes
  obtain ⟨tick, rest, rfl, hnil⟩ := exists_arrival hrest
  obtain rfl := List.map_eq_nil_iff.mp hnil
  have hpre : st.decode (first, 0xE0) = ({ st with extended := true }, []) := rfl
  refine ⟨tick, ?_⟩
  rw [feed_cons, hpre, feed_singleton, State.decode, State.translate_after_e0 hclear]
  rfl

-- The bytes of an action come to the key itself, and no prefix stays behind.
theorem feed_action {st : State} (hclear : st.Clear) (a : Action) {arrivals : List Arrival}
    (hbytes : arrivals.map Prod.snd = a.bytes) : ∃ tick,
      feed State.decode st arrivals =
        ((st.translate_key a.key (!a.pressed) tick).state,
          (st.translate_key a.key (!a.pressed) tick).event.toList) := by
  have hscreen : (UInt8.ofNat (0x37 : Fin 0x60), KeyCode.PrintScreen) ∈ SCANCODE_E0_MAP := by decide
  have hshift : UInt8.ofNat (0x2A : Fin 0x60) = 0x2A := rfl
  cases a with
  | base code known pressed =>
      obtain ⟨tick, rest, rfl, hrest⟩ := exists_arrival hbytes
      obtain rfl := List.map_eq_nil_iff.mp hrest
      refine ⟨tick, ?_⟩
      rw [feed_singleton, State.decode, State.translate_base hclear]
      rfl
  | extended code key known pressed =>
      obtain ⟨tick, hfeed⟩ := feed_e0 hclear hbytes
      refine ⟨tick, ?_⟩
      rw [hfeed, State.translate_e0_key hclear known]
      rfl
  | print_screen pressed =>
      cases pressed with
      | true =>
          obtain ⟨shift, screen, rfl, hfirst, hsecond⟩ := List.map_eq_append_iff.mp
            (show _ = [0xE0, scancode 0x2A true] ++ [0xE0, scancode 0x37 true] from hbytes)
          obtain ⟨_, hsynthetic⟩ := feed_e0 hclear hfirst
          obtain ⟨tick, hkey⟩ := feed_e0 hclear hsecond
          rw [hshift, State.translate_synthetic hclear] at hsynthetic
          rw [State.translate_e0_key hclear hscreen] at hkey
          exact ⟨tick, by rw [feed_append, hsynthetic, hkey]; rfl⟩
      | false =>
          obtain ⟨screen, shift, rfl, hfirst, hsecond⟩ := List.map_eq_append_iff.mp
            (show _ = [0xE0, scancode 0x37 false] ++ [0xE0, scancode 0x2A false] from hbytes)
          obtain ⟨tick, hkey⟩ := feed_e0 hclear hfirst
          rw [State.translate_e0_key hclear hscreen] at hkey
          have hnext := @State.translate_key_clear st tick .PrintScreen (!false) hclear
          obtain ⟨_, hsynthetic⟩ := feed_e0 hnext hsecond
          rw [hshift, State.translate_synthetic hnext] at hsynthetic
          refine ⟨tick, ?_⟩
          rw [feed_append, hkey]
          dsimp only
          rw [hsynthetic]
          exact congrArg _ (List.append_nil _)

-- The value the most recent of the actions on these keys has set.
def set_by (keys : KeyCode → Bool) : Bool → List Action → Bool :=
  latest (fun a => keys a.key) Action.pressed

-- The event of the last of these actions.
structure Reports (st : State) (actions : List Action) (a : Action) (e : KeyEvent) : Prop where
  code : e.code = a.key
  pressed : e.pressed = a.pressed
  shift : e.shift = set_by is_shift st.shift actions
  ctrl : e.ctrl = set_by is_ctrl st.ctrl actions
  alt : e.alt = set_by is_alt st.alt actions
  ch : e.ch = char_for a.key e.shift

-- Where the decoder stands between two actions.
structure Settled (st : State) (actions : List Action) (st' : State) : Prop where
  clear : st'.Clear
  shift : st'.shift = set_by is_shift st.shift actions
  ctrl : st'.ctrl = set_by is_ctrl st.ctrl actions
  alt : st'.alt = set_by is_alt st.alt actions

theorem settled_nil {st : State} (hclear : st.Clear) : Settled st [] st := ⟨hclear, rfl, rfl, rfl⟩

-- One more action is one more event.
theorem Settled.snoc {st st' : State} {actions : List Action} (h : Settled st actions st')
    (a : Action) {arrivals : List Arrival} (hbytes : arrivals.map Prod.snd = a.bytes) :
    ∃ e, (feed State.decode st' arrivals).2 = [e] ∧ Reports st (actions ++ [a]) a e ∧
      Settled st (actions ++ [a]) (feed State.decode st' arrivals).1 := by
  obtain ⟨tick, hfeed⟩ := feed_action h.clear a hbytes
  rw [State.translate_key_known a.key_ne_none] at hfeed
  rw [hfeed]
  have hshift : (st'.modify_flags a.key (!a.pressed)).shift =
      set_by is_shift st.shift (actions ++ [a]) := by
    rw [State.modify_flags_shift, set_by, latest_snoc, h.shift, Bool.not_not, set_by]
  have hctrl : (st'.modify_flags a.key (!a.pressed)).ctrl =
      set_by is_ctrl st.ctrl (actions ++ [a]) := by
    rw [State.modify_flags_ctrl, set_by, latest_snoc, h.ctrl, Bool.not_not, set_by]
  have halt : (st'.modify_flags a.key (!a.pressed)).alt =
      set_by is_alt st.alt (actions ++ [a]) := by
    rw [State.modify_flags_alt, set_by, latest_snoc, h.alt, Bool.not_not, set_by]
  exact ⟨_, rfl, ⟨rfl, rfl, hshift, hctrl, halt, rfl⟩,
    ⟨State.modify_flags_clear h.clear, hshift, hctrl, halt⟩⟩

theorem settled_of_actions {st : State} (hclear : st.Clear) (actions : List Action)
    (arrivals : List Arrival) (hbytes : arrivals.map Prod.snd = actions.flatMap Action.bytes) :
    Settled st actions (feed State.decode st arrivals).1 ∧
      (feed State.decode st arrivals).2.length = actions.length ∧
      ∀ i a e, actions[i]? = some a → (feed State.decode st arrivals).2[i]? = some e →
        Reports st (actions.take (i + 1)) a e := by
  induction actions using List.reverseRecOn generalizing arrivals with
  | nil =>
      obtain rfl := List.map_eq_nil_iff.mp hbytes
      exact ⟨settled_nil hclear, rfl, fun i a e ha => by simp at ha⟩
  | append_singleton actions a ih =>
      rw [List.flatMap_append, List.flatMap_singleton] at hbytes
      obtain ⟨before, now, rfl, hbefore, hnow⟩ := List.map_eq_append_iff.mp hbytes
      obtain ⟨hsettled, hlength, hreports⟩ := ih before hbefore
      obtain ⟨e, hone, hreport, hnext⟩ := hsettled.snoc a hnow
      rw [feed_append, hone]
      refine ⟨hnext, by simp [hlength], fun i b f hb hf => ?_⟩
      rcases Nat.lt_trichotomy i actions.length with hlt | rfl | hgt
      · rw [List.getElem?_append_left hlt] at hb
        rw [List.getElem?_append_left (hlength ▸ hlt)] at hf
        rw [List.take_append_of_le_length hlt]
        exact hreports i b f hb hf
      · rw [List.getElem?_concat_length] at hb
        rw [← hlength, List.getElem?_concat_length] at hf
        cases hb
        cases hf
        rw [List.take_of_length_le (by simp)]
        exact hreport
      · rw [List.getElem?_eq_none (by simp; omega)] at hb
        cases hb

-- Decoding is compositional: one event for each action, in order, and no prefix left.
theorem decode_actions (st : State) (hclear : st.Clear) (actions : List Action)
    (arrivals : List Arrival) (hbytes : arrivals.map Prod.snd = actions.flatMap Action.bytes) :
    (feed State.decode st arrivals).1.Clear ∧
      (feed State.decode st arrivals).2.length = actions.length ∧
      ∀ i a e, actions[i]? = some a → (feed State.decode st arrivals).2[i]? = some e →
        Reports st (actions.take (i + 1)) a e := by
  obtain ⟨hsettled, hlength, hreports⟩ := settled_of_actions hclear actions arrivals hbytes
  exact ⟨hsettled.clear, hlength, hreports⟩

-- Shift, PrintScreen and a letter: PrintScreen leaves the Shift alone.
theorem decode_actions_shifted :
    ((feed State.decode State.new ([0x2A, 0xE0, 0x2A, 0xE0, 0x37, 0x1E].map (Prod.mk 5))).2.map
      fun e => (e.code, e.ch)) = [(.ShiftLeft, none), (.PrintScreen, none), (.A, some 'A')] ∧
    (feed State.decode State.new ([0x2A, 0xE0, 0x2A, 0xE0, 0x37, 0x1E].map (Prod.mk 5))).1.Clear :=
  ⟨by decide, (decode_actions State.new ⟨rfl, rfl⟩
    [.base 0x2A (by decide) true, .print_screen true, .base 0x1E (by decide) true] _ rfl).1⟩

section Pause

def PAUSE : List UInt8 := [0xE1, 0x1D, 0x45, 0xE1, 0x9D, 0xC5]

-- The key as it is meant: one press, and no trace of it in what follows.
def OnePause (st : State) (six rest : List Arrival) : Prop :=
  ∃ e, (feed State.decode st six).2 = [e] ∧ e.code = .Pause ∧ e.pressed = true ∧
    (feed State.decode st six).1.shift = st.shift ∧ (feed State.decode st six).1.ctrl = st.ctrl ∧
    (feed State.decode st six).1.alt = st.alt ∧
    (feed State.decode (feed State.decode st six).1 rest).2 = (feed State.decode st rest).2

def keys (events : List KeyEvent) : List (KeyCode × Bool) := events.map fun e => (e.code, e.pressed)

theorem keys_append (events later : List KeyEvent) : keys (events ++ later) = keys events ++ keys later :=
  List.map_append

-- The prefix eats one byte, whichever it is.
theorem feed_e1 {st : State} (hclear : st.Clear) {b : UInt8} (he0 : b ≠ 0xE0) (he1 : b ≠ 0xE1)
    {arrivals : List Arrival} (hbytes : arrivals.map Prod.snd = [0xE1, b]) :
    ∃ tick, feed State.decode st arrivals = (st, [st.event .Pause true tick none]) := by
  obtain ⟨first, rest, rfl, hrest⟩ := exists_arrival hbytes
  obtain ⟨tick, rest, rfl, hnil⟩ := exists_arrival hrest
  obtain rfl := List.map_eq_nil_iff.mp hnil
  obtain ⟨presence, shift, ctrl, alt, extended, pause_prefix, events, unknown⟩ := st
  obtain ⟨rfl, rfl⟩ := hclear
  have hpre :
      State.decode ⟨presence, shift, ctrl, alt, false, false, events, unknown⟩ (first, 0xE1) =
        (⟨presence, shift, ctrl, alt, false, true, events, unknown⟩, []) := rfl
  refine ⟨tick, ?_⟩
  rw [feed_cons, hpre, feed_singleton, State.decode, State.translate, if_neg he0, if_neg he1]
  rfl

-- A known key by itself.
theorem feed_action_keys {st : State} (hclear : st.Clear) (a : Action) {arrivals : List Arrival}
    (hbytes : arrivals.map Prod.snd = a.bytes) :
    (feed State.decode st arrivals).1.Clear ∧
      keys (feed State.decode st arrivals).2 = [(a.key, a.pressed)] := by
  obtain ⟨e, hone, hreport, hsettled⟩ := (settled_nil hclear).snoc a hbytes
  refine ⟨hsettled.clear, ?_⟩
  rw [hone, ← hreport.code, ← hreport.pressed]
  rfl

-- The four parts of the sequence.
theorem exists_pause_parts {six : List Arrival} (hsix : six.map Prod.snd = PAUSE) :
    ∃ first down again up, six = first ++ (down ++ (again ++ up)) ∧
      first.map Prod.snd = [0xE1, 0x1D] ∧
      down.map Prod.snd = (Action.base 0x45 (by decide) true).bytes ∧
      again.map Prod.snd = [0xE1, 0x9D] ∧
      up.map Prod.snd = (Action.base 0x45 (by decide) false).bytes := by
  obtain ⟨first, later, rfl, hfirst, hlater⟩ := List.map_eq_append_iff.mp
    (show six.map Prod.snd = [0xE1, 0x1D] ++ [0x45, 0xE1, 0x9D, 0xC5] from hsix)
  obtain ⟨down, later, rfl, hdown, hlater⟩ := List.map_eq_append_iff.mp
    (show later.map Prod.snd = (Action.base 0x45 (by decide) true).bytes ++ [0xE1, 0x9D, 0xC5] from
      hlater)
  obtain ⟨again, up, rfl, hagain, hup⟩ := List.map_eq_append_iff.mp
    (show later.map Prod.snd = [0xE1, 0x9D] ++ (Action.base 0x45 (by decide) false).bytes from hlater)
  exact ⟨first, down, again, up, rfl, hfirst, hdown, hagain, hup⟩

-- The bytes behind the two that are eaten are read as NumLock.
theorem feed_pause {st : State} (hclear : st.Clear) {six : List Arrival}
    (hsix : six.map Prod.snd = PAUSE) : keys (feed State.decode st six).2 =
      [(.Pause, true), (.NumLock, true), (.Pause, true), (.NumLock, false)] := by
  obtain ⟨first, down, again, up, rfl, hfirst, hdown, hagain, hup⟩ := exists_pause_parts hsix
  obtain ⟨_, hpause⟩ := feed_e1 hclear (by decide) (by decide) hfirst
  obtain ⟨hclear₁, hkeys₁⟩ := feed_action_keys hclear _ hdown
  obtain ⟨_, hpause₂⟩ := feed_e1 hclear₁ (by decide) (by decide) hagain
  obtain ⟨-, hkeys₃⟩ := feed_action_keys hclear₁ _ hup
  rw [feed_append, hpause, feed_append, feed_append, hpause₂, keys_append, keys_append, keys_append,
    hkeys₁, hkeys₃]
  rfl

-- Wherever it comes between complete actions, the sequence is never one key.
theorem pause_never_one (st : State) (hclear : st.Clear) (actions : List Action)
    (arrivals six rest : List Arrival)
    (hbytes : arrivals.map Prod.snd = actions.flatMap Action.bytes)
    (hsix : six.map Prod.snd = PAUSE) :
    ¬ OnePause (feed State.decode st arrivals).1 six rest := by
  rintro ⟨e, hone, -⟩
  obtain ⟨hsettled, -⟩ := settled_of_actions hclear actions arrivals hbytes
  have hfour := feed_pause hsettled.clear hsix
  rw [hone] at hfour
  simp [keys] at hfour

theorem pause_never_one_first : ¬ OnePause State.new (PAUSE.map (Prod.mk 0)) [] :=
  pause_never_one State.new ⟨rfl, rfl⟩ [] [] _ [] rfl rfl

theorem pause_twice : keys (feed State.decode State.new (PAUSE.map (Prod.mk 0))).2 =
      [(.Pause, true), (.NumLock, true), (.Pause, true), (.NumLock, false)] ∧
    ¬ OnePause State.new (PAUSE.map (Prod.mk 0)) [] := by
  have hfour : keys (feed State.decode State.new (PAUSE.map (Prod.mk 0))).2 =
      [(.Pause, true), (.NumLock, true), (.Pause, true), (.NumLock, false)] := by decide
  refine ⟨hfour, fun ⟨e, hone, _⟩ => ?_⟩
  rw [hone] at hfour
  simp [keys] at hfour

end Pause

section Resync

namespace State

def SamePrefix (st st' : State) : Prop :=
  st.extended = st'.extended ∧ st.pause_prefix = st'.pause_prefix

variable {st st' : State} {tick tick' : Nat} {key : KeyCode} {released : Bool}

theorem modify_flags_samePrefix : (st.modify_flags key released).SamePrefix st := by
  unfold modify_flags
  split <;> exact ⟨rfl, rfl⟩

theorem translate_key_samePrefix : (st.translate_key key released tick).state.SamePrefix st := by
  unfold translate_key
  split <;> exact modify_flags_samePrefix

theorem translate_key_keys : keys (st.translate_key key released tick).event.toList =
    if key = .None then [] else [(key, !released)] := by
  unfold translate_key
  split <;> rfl

theorem translate_extended_prefixes {idx : UInt8} :
    (st.translate_extended idx released tick).state.extended = false ∧
      State.pause_prefix (st.translate_extended idx released tick).state = st.pause_prefix := by
  unfold translate_extended
  dsimp only
  split
  · exact ⟨rfl, rfl⟩
  split
  · exact ⟨rfl, rfl⟩
  · exact translate_key_samePrefix

theorem translate_extended_keys {idx : UInt8} :
    keys (st.translate_extended idx released tick).event.toList =
      if idx = 0x2A ∨ idx = 0xAA then []
      else if lookup_e0 idx = .None then [(.Unknown (idx ||| 0x80), !released)]
      else [(lookup_e0 idx, !released)] := by
  unfold translate_extended
  dsimp only
  split
  · rfl
  split
  · rfl
  · rename_i hkey
    rw [translate_key_keys, if_neg hkey]

-- Which key a byte comes to depends on the two prefixes alone.
theorem decode_samePrefix (arrival : Arrival) (h : st.SamePrefix st') :
    (st.decode arrival).1.SamePrefix (st'.decode arrival).1 ∧
      keys (st.decode arrival).2 = keys (st'.decode arrival).2 := by
  obtain ⟨tick, byte⟩ := arrival
  obtain ⟨hextended, hpause⟩ := h
  simp only [decode, translate, ← hextended, ← hpause]
  split
  · exact ⟨⟨rfl, rfl⟩, rfl⟩
  split
  · exact ⟨⟨rfl, rfl⟩, rfl⟩
  split
  · exact ⟨⟨rfl, rfl⟩, rfl⟩
  split
  · split
    · refine ⟨⟨?_, ?_⟩, by rw [translate_extended_keys, translate_extended_keys]⟩
      · rw [translate_extended_prefixes.1, translate_extended_prefixes.1]
      · rw [translate_extended_prefixes.2, translate_extended_prefixes.2, hpause]
    · refine ⟨⟨?_, ?_⟩, by rw [translate_key_keys, translate_key_keys]⟩
      · rw [translate_key_samePrefix.1, translate_key_samePrefix.1, hextended]
      · rw [translate_key_samePrefix.2, translate_key_samePrefix.2, hpause]
  · exact ⟨⟨rfl, rfl⟩, rfl⟩

-- What a byte that is no prefix leaves of them: an extended code survives behind a byte
-- that is eaten, and behind one that is out of the tables.
theorem decode_prefixes (arrival : Arrival) (he0 : arrival.2 ≠ 0xE0) (he1 : arrival.2 ≠ 0xE1) :
    State.pause_prefix (st.decode arrival).1 = false ∧
      ((st.decode arrival).1.extended = true ↔
        st.extended = true ∧ (st.pause_prefix = true ∨ 0x60 ≤ (arrival.2 &&& 0x7F).toNat)) := by
  simp only [decode, translate, if_neg he0, if_neg he1]
  split
  · rename_i hpause
    exact ⟨rfl, by simp [hpause]⟩
  rename_i hpause
  rw [Bool.not_eq_true] at hpause
  split
  · rename_i hidx
    split
    · rename_i hextended
      rw [translate_extended_prefixes.1, translate_extended_prefixes.2]
      refine ⟨hpause, iff_of_false Bool.false_ne_true ?_⟩
      rintro ⟨-, heaten | hout⟩
      · exact absurd heaten (by rw [hpause]; decide)
      · omega
    · rename_i hextended
      rw [translate_key_samePrefix.1, translate_key_samePrefix.2]
      exact ⟨hpause, by simp [hextended]⟩
  · rename_i hidx
    exact ⟨hpause, fun h => ⟨h, .inr (Nat.le_of_not_lt hidx)⟩, And.left⟩

end State

-- The decoder is in step again after a byte that is no prefix exactly when no extended
-- prefix was pending, or that byte was one that takes it.
theorem resync_iff (st : State) (u : List Arrival) (arrival : Arrival) (he0 : arrival.2 ≠ 0xE0)
    (he1 : arrival.2 ≠ 0xE1) :
    (∀ v clear, clear.Clear →
      keys (feed State.decode (feed State.decode st (u ++ [arrival])).1 v).2 =
        keys (feed State.decode clear v).2) ↔
      ¬ ((feed State.decode st u).1.extended = true ∧
        ( State.pause_prefix (feed State.decode st u).1 = true ∨
          0x60 ≤ (arrival.2 &&& 0x7F).toNat)) := by
  obtain ⟨hpause, hextended⟩ :=
    @State.decode_prefixes (feed State.decode st u).1 arrival he0 he1
  rw [feed_append, feed_singleton, ← hextended]
  generalize ((feed State.decode st u).1.decode arrival).1 = last at hpause hextended ⊢
  constructor
  · intro hsame hpending
    -- Enter, or the keypad's Enter.
    have hleft : last.SamePrefix { State.new with extended := true } := ⟨hpending, hpause⟩
    have hkeypad : keys (feed State.decode last [(0, 0x1C)]).2 =
        keys (feed State.decode { State.new with extended := true } [(0, 0x1C)]).2 :=
      feed_outputs_eq _ (fun _ _ arrival h => State.decode_samePrefix arrival h) hleft
    rw [hsame [(0, 0x1C)] State.new ⟨rfl, rfl⟩] at hkeypad
    exact absurd hkeypad (by decide)
  · intro hnone v clear hclear
    have hpre : last.SamePrefix clear :=
      ⟨by rw [Bool.not_eq_true] at hnone; rw [hnone, hclear.1], by rw [hpause, hclear.2]⟩
    exact feed_outputs_eq _ (fun _ _ arrival h => State.decode_samePrefix arrival h) hpre

-- The release of an arrow key.
theorem resync_iff_release :
    (feed State.decode State.new [(0, 0xE0)]).1.extended = true ∧
    ∀ v clear, clear.Clear →
      keys (feed State.decode (feed State.decode State.new ([(0, 0xE0)] ++ [(1, 0xC8)])).1 v).2 =
        keys (feed State.decode clear v).2 :=
  ⟨rfl, (resync_iff State.new [(0, 0xE0)] (1, 0xC8) (by decide) (by decide)).mpr (by decide)⟩

-- The device's acknowledge behind a prefix turns the next Enter into the keypad's.
theorem ack_leaks_prefix :
    keys (feed State.decode (feed State.decode State.new [(0, 0xE0), (1, 0xFA)]).1 [(2, 0x1C)]).2 =
        [(.KeypadEnter, true)] ∧
      keys (feed State.decode State.new [(2, 0x1C)]).2 = [(.Enter, true)] ∧
      ¬ ∀ v clear, clear.Clear →
        keys (feed State.decode (feed State.decode State.new [(0, 0xE0), (1, 0xFA)]).1 v).2 =
          keys (feed State.decode clear v).2 :=
  ⟨by decide, by decide, fun h => absurd (h [(2, 0x1C)] State.new ⟨rfl, rfl⟩) (by decide)⟩

end Resync

end Orin.Drivers.Keyboard
