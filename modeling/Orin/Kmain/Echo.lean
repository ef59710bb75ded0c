import Orin.Drivers.Keyboard.Drain
import Orin.Kmain.Idle
import Orin.Theory.Rely

namespace Orin.Kmain

open Console Drivers Interrupts Theory Theory.Prog

-- The plain text among a console's output.
def texts (out : List Output) : List String :=
  out.filterMap fun
    | .text s => some s
    | .record _ _ _ _ => none

-- The character a key event enters: a release enters none, and Ctrl+C is a command.
def typed (ev : Keyboard.KeyEvent) : Option Char :=
  if ev.pressed && !(ev.ctrl && ev.code = .C) then ev.ch else none

-- What each console is to show for a character.
def serial_echo (ch : Char) : List String :=
  if ch = '\n' then ["\r\n"]
  else if ch = '\x08' then ["\x08 \x08"]
  else if ch = '\x1b' then []
  else ["ORIN|K|ECHO|" ++ ch.toString ++ "\r\n"]

def vga_echo (ch : Char) : List String :=
  if ch = '\n' then ["orin m1> "]
  else if ch = '\x08' then ["\x08"]
  else if ch = '\x1b' then []
  else [ch.toString]

-- The characters a stream of scancodes enters. The clock stamps events and nothing else, so
-- any tick will do.
def typed_by (st : Keyboard.State) (bytes : List UInt8) : List Char :=
  (st.events_of 0 bytes).filterMap typed

def decoded_by (st : Keyboard.State) (bytes : List UInt8) : Keyboard.State :=
  (feed Keyboard.State.decode st (Keyboard.arrivals 0 bytes)).1

-- The byte an interrupt leaves in the ring.
def accepted (r : Keyboard.Ring) : Irq → Option UInt8
  | .timer => none
  | .keyboard status data =>
      if Keyboard.irq1_level status = none ∧ Keyboard.Ring.next r.head ≠ r.tail then some data
      else none

section Decoding

open Keyboard

variable {st : Keyboard.State} {taken : List UInt8} {byte : UInt8} {tick : Nat}

theorem texts_append_text (out : List Output) (s : String) :
    texts (out ++ [.text s]) = texts out ++ [s] := by
  simp [texts]

theorem texts_append_record (out : List Output) (level : Orin.Log.Level) (ts : Nat)
    (subsys message : String) :
    texts (out ++ [.record level ts subsys message]) = texts out := by
  simp [texts]

theorem typed_by_snoc : typed_by st (taken ++ [byte]) =
    typed_by st taken ++
      ((decoded_by st taken).translate 0 byte).event.toList.filterMap typed := by
  simp only [typed_by, State.events_of, arrivals, List.map_append, feed_append, List.filterMap_append,
    List.map_cons, List.map_nil, feed_singleton]
  rfl

theorem decoded_by_snoc : decoded_by st (taken ++ [byte]) =
    ((decoded_by st taken).translate 0 byte).state := by
  simp only [decoded_by, arrivals, List.map_append, feed_append, List.map_cons, List.map_nil,
    feed_singleton]
  rfl

theorem translate_key_typed (code : KeyCode) (released : Bool) :
    (st.translate_key code released tick).event.bind typed =
      (st.translate_key code released 0).event.bind typed := by
  unfold State.translate_key
  dsimp only
  split
  · rfl
  · rfl

theorem translate_typed (st : Keyboard.State) (tick : Nat) (byte : UInt8) :
    (st.translate tick byte).event.bind typed = (st.translate 0 byte).event.bind typed := by
  unfold State.translate State.translate_extended
  dsimp only
  split_ifs
  · rfl
  · rfl
  · rfl
  · rfl
  · rfl
  · exact translate_key_typed _ _
  · exact translate_key_typed _ _
  · rfl

end Decoding

-- What the input path and the two consoles show of the kernel.
structure Shown where
  ring : Keyboard.Ring
  keyboard : Keyboard.State
  serial : List String
  vga : List String

def shown (s : Kernel) : Shown := ⟨s.ring, s.keyboard, texts s.serial, texts s.vga⟩

-- Of the bytes that had arrived by `w`, the ones in `taken` are decoded and those in `hand`
-- are out of the ring; `serial` and `vga` are still to be shown for the decoded ones.
structure Echoed (start : Shown) (taken hand : List UInt8) (serial vga : List String)
    (w : List UInt8 × Shown) : Prop where
  bytes : taken ++ hand ++ w.2.ring.bytes = w.1
  keyboard : w.2.keyboard = decoded_by start.keyboard taken
  serial : w.2.serial ++ serial =
    start.serial ++ (typed_by start.keyboard taken).flatMap serial_echo
  vga : w.2.vga ++ vga = start.vga ++ (typed_by start.keyboard taken).flatMap vga_echo

def Owes (start : Shown) (hand : List UInt8) (serial vga : List String)
    (w : List UInt8 × Shown) : Prop :=
  ∃ taken, Echoed start taken hand serial vga w

def received (v : Shown) : Irq → Shown
  | .timer => v
  | .keyboard status data =>
      if Keyboard.irq1_level status = none then { v with ring := v.ring.push data } else v

-- The idle loop among its interrupts. The record is every byte that has entered the ring.
def echoing (start : Shown) : Setting (List UInt8) Kernel where
  rely w w' := ∃ irq, w'.1 = w.1 ++ (accepted w.2.ring irq).toList ∧
    shown w'.2 = received (shown w.2) irq
  always w := ∃ hand serial vga, Owes start hand serial vga (w.1, shown w.2)
  resting w := Owes start [] [] [] (w.1, shown w.2)

section Stability

variable {start : Shown} {hand : List UInt8} {serial vga : List String}

-- A condition survives every interrupt if it survives a byte that enters the ring and a byte
-- that finds it full.
theorem stable_of_push {P : List UInt8 × Shown → Prop}
    (hroom : ∀ g v b, Keyboard.Ring.next v.ring.head ≠ v.ring.tail → P (g, v) →
      P (g ++ [b], { v with ring := v.ring.push b }))
    (hfull : ∀ g v, P (g, v) →
      P (g, { v with ring := { v.ring with dropped := v.ring.dropped + 1 } }))
    (hP : ∀ w, P w → ∃ hand serial vga, Owes start hand serial vga w) :
    (echoing start).Stable fun w => P (w.1, shown w.2) := by
  refine ⟨?_, fun w => hP (w.1, shown w.2)⟩
  rintro ⟨g, s⟩ ⟨g', s'⟩ hw ⟨irq, rfl, hs'⟩
  show P (g ++ _, shown s')
  rw [hs']
  cases irq with
  | timer => simpa [accepted, received] using hw
  | keyboard status data =>
      by_cases hlevel : Keyboard.irq1_level status = none
      · by_cases hring : Keyboard.Ring.next s.ring.head = s.ring.tail
        · have hpush : (shown s).ring.push data =
              { (shown s).ring with dropped := (shown s).ring.dropped + 1 } :=
            Keyboard.Ring.push_full _ hring
          simpa [accepted, received, hlevel, hring, hpush] using hfull g (shown s) hw
        · simpa [accepted, received, hlevel, hring] using hroom g (shown s) data hring hw
      · simpa [accepted, received, hlevel] using hw

theorem Echoed.push {taken : List UInt8} {g : List UInt8} {v : Shown} {b : UInt8}
    (h : Echoed start taken hand serial vga (g, v))
    (hroom : Keyboard.Ring.next v.ring.head ≠ v.ring.tail) :
    Echoed start taken hand serial vga (g ++ [b], { v with ring := v.ring.push b }) where
  bytes := by
    rw [Keyboard.Ring.bytes_push _ hroom, ← List.append_assoc, h.bytes]
  keyboard := h.keyboard
  serial := h.serial
  vga := h.vga

theorem owes_stable :
    (echoing start).Stable fun w => Owes start hand serial vga (w.1, shown w.2) :=
  stable_of_push (fun _ _ _ hroom ⟨taken, h⟩ => ⟨taken, h.push hroom⟩)
    (fun _ _ ⟨taken, h⟩ => ⟨taken, { h with }⟩) fun _ h => ⟨hand, serial, vga, h⟩

theorem echoing_fair : (echoing start).Fair where
  always := by
    refine stable_of_push (P := fun w => ∃ hand serial vga, Owes start hand serial vga w) ?_ ?_
      fun _ h => h
    · rintro g v b hroom ⟨hand, serial, vga, taken, h⟩
      exact ⟨hand, serial, vga, taken, h.push hroom⟩
    · rintro g v ⟨hand, serial, vga, taken, h⟩
      exact ⟨hand, serial, vga, taken, { h with }⟩
  resting := owes_stable

end Stability

section Silence

variable {γ : Type} {E : Setting γ Kernel}

theorem micros_silent : Silent E shown Pit.micros_since_boot := by
  apply Silent.bind (Silent.locked (Silent.get _))
  intro enabled
  cases enabled with
  | true => exact Silent.bind (Silent.get _) fun _ => Silent.pure _
  | false => exact Silent.pure 0

-- Logging shows on neither console as plain text.
theorem log_silent (level : Orin.Log.Level) (subsys message : String) :
    Silent E shown (Log.log level subsys message) := by
  apply Silent.bind (Silent.locked ?_)
  · intro accepted
    cases accepted with
    | none => exact Silent.pure ()
    | some target =>
        apply Silent.bind micros_silent
        intro ts
        apply Silent.bind (Silent.onlyIf (Silent.locked (Silent.modify fun s => ?_)) _)
        · intro _
          refine Silent.onlyIf (Silent.locked (Silent.modify fun s => ?_)) _
          simp only [shown, texts_append_record]
        · simp only [shown, texts_append_record]
  · apply Silent.bind (Silent.get _)
    intro c
    refine Silent.bind (Silent.modify ?_) fun _ => Silent.pure _
    exact fun s => rfl

theorem ktrace_silent (trace : Option String) : Silent E shown (Keyboard.ktrace trace) := by
  cases trace with
  | none => exact Silent.pure ()
  | some message => exact log_silent _ _ _

theorem seconds_silent : Silent E shown Pit.seconds_since_boot :=
  micros_silent.bind fun _ => Silent.pure _

theorem event_count_silent : Silent E shown Keyboard.event_count := Silent.locked (Silent.get _)

theorem report_counters_silent : Silent E shown report_counters := by
  apply Silent.bind (Silent.get _)
  intro c
  apply Silent.bind (log_silent _ _ _)
  intro _
  apply event_count_silent.bind
  intro events
  apply Silent.bind (Silent.get _)
  intro pending
  apply Silent.bind (Silent.get _)
  intro dropped
  exact log_silent _ _ _

theorem report_dropped_silent : Silent E shown report_dropped := by
  apply Silent.bind (Silent.get _)
  intro dropped
  exact (Silent.bind (Silent.get _) fun _ => log_silent _ _ _).onlyIf _

theorem report_liveness_silent : Silent E shown report_liveness := by
  apply seconds_silent.bind
  intro seconds
  apply event_count_silent.bind
  intro events
  apply Silent.bind (Silent.get _)
  intro pending
  apply Silent.bind (Silent.get _)
  intro dropped
  exact log_silent _ _ _

theorem bump_silent (f : Counters → Counters) : Silent E shown (bump f) := Silent.modify fun _ => rfl

theorem tick_silent : Silent E shown Pit.tick := by
  apply Silent.bind (Silent.locked (Silent.get _))
  intro enabled
  refine Silent.onlyIf (Silent.modify ?_) enabled
  exact fun s => rfl

theorem heartbeat_silent : Silent E shown heartbeat :=
  seconds_silent.bind fun _ => Silent.bind (Silent.get _) fun _ => log_silent _ _ _

theorem end_of_interrupt_silent (vec : UInt8) : Silent E shown (Pic.end_of_interrupt vec) := by
  have hwrite : ∀ port b, Silent E shown (Pic.write port b) := fun port b =>
    Silent.bind (Silent.modify fun _ => rfl) fun _ => Silent.modify fun _ => rfl
  unfold Pic.end_of_interrupt
  split
  · exact Silent.pure ()
  · exact ((hwrite _ _).onlyIf _).bind fun _ => hwrite _ _

theorem on_irq_timer_silent : Silent E shown on_irq_timer := by
  apply (bump_silent _).bind
  intro _
  apply tick_silent.bind
  intro _
  apply Silent.bind (Silent.get _)
  intro _
  exact (heartbeat_silent.onlyIf _).bind fun _ => end_of_interrupt_silent _

-- The keyboard handler logs, or puts the byte into the ring.
theorem interrupt_handler_silent {status : UInt8} (data : UInt8)
    (h : Keyboard.irq1_level status ≠ none) :
    Silent E shown (Keyboard.interrupt_handler status data) := by
  unfold Keyboard.irq1_level at h
  unfold Keyboard.interrupt_handler
  split_ifs at h ⊢
  · exact log_silent _ _ _
  · exact log_silent _ _ _
  · exact log_silent _ _ _
  · exact log_silent _ _ _
  · exact absurd rfl h

theorem interrupt_handler_pushes {status : UInt8} (data : UInt8)
    (h : Keyboard.irq1_level status = none) :
    Keyboard.interrupt_handler status data =
      Prog.modify fun s : Kernel => { s with ring := s.ring.push data } := by
  unfold Keyboard.irq1_level at h
  unfold Keyboard.interrupt_handler
  split_ifs at h ⊢
  rfl

end Silence

-- What a handler does to the view, over whatever it interrupts.
theorem on_irq_received {irq : Irq} {held held' : Finset Lock} {s s' : Kernel}
    (h : (on_irq irq).code.run held s = .finished s' held') :
    shown s' = received (shown s) irq := by
  cases irq with
  | timer => exact on_irq_timer_silent.run h
  | keyboard status data =>
      by_cases hlevel : Keyboard.irq1_level status = none
      · rw [on_irq, on_irq_keyboard, interrupt_handler_pushes data hlevel] at h
        cases h
        rw [received, if_pos hlevel]
        rfl
      · rw [received, if_neg hlevel]
        exact ((bump_silent _).bind fun _ => (interrupt_handler_silent data hlevel).bind fun _ =>
          end_of_interrupt_silent _).run h

-- What a list of key events makes the consoles show.
def serial_said (events : List Keyboard.KeyEvent) : List String :=
  (events.filterMap typed).flatMap serial_echo

def vga_said (events : List Keyboard.KeyEvent) : List String :=
  (events.filterMap typed).flatMap vga_echo

theorem serial_said_append (past future : List Keyboard.KeyEvent) :
    serial_said (past ++ future) = serial_said past ++ serial_said future := by
  simp [serial_said]

theorem vga_said_append (past future : List Keyboard.KeyEvent) :
    vga_said (past ++ future) = vga_said past ++ vga_said future := by
  simp [vga_said]

section Loop

variable {start : Shown} {serial vga : List String}

theorem silent_owes {α : Type} {hand : List UInt8} {c : KProg α}
    (h : Silent (echoing start) shown c) :
    Triple (echoing start) (fun w => Owes start hand serial vga (w.1, shown w.2)) c
      fun _ w => Owes start hand serial vga (w.1, shown w.2) :=
  h (Owes start hand serial vga) owes_stable

-- What the consumer has loaded stays true while it waits for its next turn.
theorem owes_fresh_stable (pc : Keyboard.Access) :
    (echoing start).Stable fun w => Owes start [] serial vga (w.1, shown w.2) ∧
      Keyboard.Consumer.Fresh ⟨w.2.ring, pc⟩ := by
  refine stable_of_push (P := fun w => Owes start [] serial vga w ∧
    Keyboard.Consumer.Fresh ⟨w.2.ring, pc⟩) ?_ ?_ fun w h => ⟨[], serial, vga, h.1⟩
  · rintro g v b hroom ⟨⟨taken, h⟩, hfresh⟩
    exact ⟨⟨taken, h.push hroom⟩, Keyboard.Consumer.push_fresh (c := ⟨v.ring, pc⟩) hfresh⟩
  · rintro g v ⟨⟨taken, h⟩, hfresh⟩
    exact ⟨⟨taken, { h with }⟩, hfresh⟩

theorem ring_pop_owes :
    Triple (echoing start) (fun w => Owes start [] serial vga (w.1, shown w.2)) Keyboard.ring_pop
      fun popped w => Owes start popped.toList serial vga (w.1, shown w.2) := by
  refine Triple.bind (Triple.get owes_stable (R := fun tail w =>
    Owes start [] serial vga (w.1, shown w.2) ∧
      Keyboard.Consumer.Fresh ⟨w.2.ring, .load_head tail⟩) fun w h => ⟨h, rfl⟩) fun tail => ?_
  refine Triple.bind (Triple.get (owes_fresh_stable _) (R := fun head w =>
    Owes start [] serial vga (w.1, shown w.2) ∧
      (tail ≠ head → Keyboard.Consumer.Fresh ⟨w.2.ring, .load_cell tail⟩)) ?_) fun head => ?_
  · rintro w ⟨h, hfresh⟩
    obtain rfl : tail = w.2.ring.tail := hfresh
    exact ⟨h, fun hne => ⟨rfl, Ne.symm hne⟩⟩
  by_cases hempty : tail = head
  · rw [if_pos hempty]
    exact Triple.pure fun w h => h.1
  rw [if_neg hempty]
  refine Triple.conseq (P := fun w => Owes start [] serial vga (w.1, shown w.2) ∧
    Keyboard.Consumer.Fresh ⟨w.2.ring, .load_cell tail⟩) (Triple.bind
      (Triple.get (owes_fresh_stable _) (R := fun b w => Owes start [] serial vga (w.1, shown w.2) ∧
        Keyboard.Consumer.Fresh ⟨w.2.ring, .store_tail tail b⟩) ?_) fun b => ?_)
    (fun w h => ⟨h.1, h.2 hempty⟩) fun _ _ h => h
  · rintro w ⟨h, hfresh⟩
    obtain ⟨rfl, hne⟩ : tail = w.2.ring.tail ∧ w.2.ring.head ≠ w.2.ring.tail := hfresh
    exact ⟨h, rfl, hne, rfl⟩
  refine Triple.bind (Triple.modify (owes_fresh_stable _)
    (R := fun _ w => Owes start [b] serial vga (w.1, shown w.2)) ?_) fun _ => Triple.pure fun w h => h
  rintro w ⟨⟨taken, h⟩, hfresh⟩
  obtain ⟨rfl, hne, rfl⟩ : tail = w.2.ring.tail ∧ w.2.ring.head ≠ w.2.ring.tail ∧
    b = w.2.ring.cells.get w.2.ring.tail := hfresh
  refine ⟨taken, { h with bytes := ?_ }⟩
  have hbytes : taken ++ [] ++ w.2.ring.bytes = w.1 := h.bytes
  rw [List.append_nil, Keyboard.Ring.bytes_pop _ hne, List.append_cons] at hbytes
  exact hbytes

theorem event_said (event : Option Keyboard.KeyEvent) :
    event.toList.filterMap typed = (event.bind typed).toList := by
  cases event with
  | none => rfl
  | some ev => cases h : typed ev <;> simp [h]

-- Decoding the byte in hand: what its event is to show is owed from then on.
theorem Echoed.decode {taken : List UInt8} {byte : UInt8} {g : List UInt8} {v : Shown} (tick : Nat)
    (h : Echoed start taken [byte] serial vga (g, v)) :
    Echoed start (taken ++ [byte]) []
      (serial ++ serial_said (v.keyboard.translate tick byte).event.toList)
      (vga ++ vga_said (v.keyboard.translate tick byte).event.toList)
      (g, { v with keyboard := (v.keyboard.translate tick byte).state }) := by
  obtain ⟨hbytes, hkeyboard, hserial, hvga⟩ := h
  dsimp only at hbytes hkeyboard hserial hvga
  have hstate := (@Keyboard.State.translate_tick v.keyboard 0 byte tick).1
  have htyped := translate_typed v.keyboard tick byte
  refine ⟨?_, ?_, ?_, ?_⟩
  · rwa [List.append_nil]
  · rw [decoded_by_snoc, ← hkeyboard]
    exact hstate
  · rw [← List.append_assoc, hserial, serial_said, event_said, htyped, typed_by_snoc,
      List.flatMap_append, event_said, hkeyboard, List.append_assoc]
  · rw [← List.append_assoc, hvga, vga_said, event_said, htyped, typed_by_snoc,
      List.flatMap_append, event_said, hkeyboard, List.append_assoc]

theorem translate_owes (byte : UInt8) :
    Triple (echoing start) (fun w => Owes start [byte] serial vga (w.1, shown w.2))
      (Keyboard.translate byte) fun event w => Owes start [] (serial ++ serial_said event.toList)
        (vga ++ vga_said event.toList) (w.1, shown w.2) := by
  refine Triple.locked owes_stable (fun _ => owes_stable) ?_
  refine Triple.bind (silent_owes (Silent.get _)) fun tick => ?_
  have hstable (translated : Keyboard.State.Translated) : (echoing start).Stable fun w =>
      Owes start [byte] serial vga (w.1, shown w.2) ∧
        translated = (shown w.2).keyboard.translate tick byte := by
    refine stable_of_push (P := fun w => Owes start [byte] serial vga w ∧
      translated = w.2.keyboard.translate tick byte) ?_ ?_ fun w h => ⟨[byte], serial, vga, h.1⟩
    · rintro g v b hroom ⟨⟨taken, h⟩, heq⟩
      exact ⟨⟨taken, h.push hroom⟩, heq⟩
    · rintro g v ⟨⟨taken, h⟩, heq⟩
      exact ⟨⟨taken, { h with }⟩, heq⟩
  refine Triple.bind (Triple.get owes_stable (R := fun translated w =>
    Owes start [byte] serial vga (w.1, shown w.2) ∧
      translated = (shown w.2).keyboard.translate tick byte) fun w h => ⟨h, rfl⟩) fun translated => ?_
  refine Triple.bind (Triple.modify (hstable translated) (R := fun _ w =>
    Owes start [] (serial ++ serial_said translated.event.toList)
      (vga ++ vga_said translated.event.toList) (w.1, shown w.2)) ?_) fun _ => ?_
  · rintro w ⟨⟨taken, h⟩, rfl⟩
    exact ⟨taken ++ [byte], h.decode tick⟩
  exact Triple.bind (silent_owes (ktrace_silent _)) fun _ => Triple.pure fun w h => h

theorem poll_owes :
    Triple (echoing start) (fun w => Owes start [] serial vga (w.1, shown w.2)) Keyboard.poll
      fun event w => Owes start [] (serial ++ serial_said event.toList)
        (vga ++ vga_said event.toList) (w.1, shown w.2) := by
  apply ring_pop_owes.bind
  intro popped
  cases popped with
  | none =>
      refine Triple.pure fun w h => ?_
      simpa [serial_said, vga_said] using h
  | some byte => exact translate_owes byte

theorem drain_owes (room : Nat) (out : List Keyboard.KeyEvent) :
    Triple (echoing start)
      (fun w => Owes start [] (serial_said out) (vga_said out) (w.1, shown w.2))
      (Keyboard.drain room out)
      fun events w => Owes start [] (serial_said events) (vga_said events) (w.1, shown w.2) := by
  induction room generalizing out with
  | zero => exact Triple.pure fun w h => h
  | succ room ih =>
      apply poll_owes.bind
      intro event
      cases event with
      | none =>
          refine Triple.pure fun w h => ?_
          simpa [serial_said, vga_said] using h
      | some ev =>
          refine (ih (out ++ [ev])).conseq (fun w h => ?_) fun _ _ h => h
          rw [serial_said_append, vga_said_append]
          exact h

theorem serial_print_owes (t : String) :
    Triple (echoing start) (fun w => Owes start [] (t :: serial) vga (w.1, shown w.2))
      (serial_print t) fun _ w => Owes start [] serial vga (w.1, shown w.2) := by
  refine Triple.locked owes_stable (fun _ => owes_stable) (Triple.modify owes_stable ?_)
  rintro w ⟨taken, h⟩
  refine ⟨taken, { h with serial := ?_ }⟩
  show texts (w.2.serial ++ [.text t]) ++ serial = _
  rw [texts_append_text, ← List.append_cons]
  exact h.serial

theorem vga_print_owes (t : String) :
    Triple (echoing start) (fun w => Owes start [] serial (t :: vga) (w.1, shown w.2))
      (vga_print t) fun _ w => Owes start [] serial vga (w.1, shown w.2) := by
  refine Triple.locked owes_stable (fun _ => owes_stable) (Triple.modify owes_stable ?_)
  rintro w ⟨taken, h⟩
  refine ⟨taken, { h with vga := ?_ }⟩
  show texts (w.2.vga ++ [.text t]) ++ vga = _
  rw [texts_append_text, ← List.append_cons]
  exact h.vga

theorem echo_owes (ch : Char) :
    Triple (echoing start)
      (fun w => Owes start [] (serial_echo ch ++ serial) (vga_echo ch ++ vga) (w.1, shown w.2))
      (echo ch) fun _ w => Owes start [] serial vga (w.1, shown w.2) := by
  unfold echo serial_echo vga_echo
  split_ifs
  · exact (serial_print_owes _).bind fun _ => vga_print_owes _
  · exact (serial_print_owes _).bind fun _ => vga_print_owes _
  · exact silent_owes (log_silent _ _ _)
  · exact (serial_print_owes _).bind fun _ => vga_print_owes _

theorem handle_key_owes (ev : Keyboard.KeyEvent) :
    Triple (echoing start)
      (fun w => Owes start [] (serial_said [ev] ++ serial) (vga_said [ev] ++ vga) (w.1, shown w.2))
      (handle_key ev) fun _ w => Owes start [] serial vga (w.1, shown w.2) := by
  have hquiet (h : typed ev = none) : serial_said [ev] = [] ∧ vga_said [ev] = [] := by
    simp [serial_said, vga_said, h]
  unfold handle_key
  split_ifs with hreleased hcommand
  · obtain ⟨hs, hv⟩ := hquiet (by simp_all [typed])
    rw [hs, hv]
    exact Triple.pure fun w h => h
  · obtain ⟨hs, hv⟩ := hquiet (by simp_all [typed])
    rw [hs, hv]
    exact silent_owes report_counters_silent
  · have htyped : typed ev = ev.ch := by simp_all [typed]
    cases hch : ev.ch with
    | none =>
        obtain ⟨hs, hv⟩ := hquiet (htyped.trans hch)
        rw [hs, hv]
        exact silent_owes (log_silent _ _ _)
    | some ch =>
        have hs : serial_said [ev] = serial_echo ch := by simp [serial_said, htyped, hch]
        have hv : vga_said [ev] = vga_echo ch := by simp [vga_said, htyped, hch]
        rw [hs, hv]
        exact (echo_owes ch).bind fun _ => silent_owes report_dropped_silent

theorem handle_keys_owes (events : List Keyboard.KeyEvent) :
    Triple (echoing start)
      (fun w => Owes start [] (serial_said events) (vga_said events) (w.1, shown w.2))
      (handle_keys events) fun _ w => Owes start [] [] [] (w.1, shown w.2) := by
  induction events with
  | nil => exact Triple.pure fun w h => h
  | cons ev events ih =>
      have hs := serial_said_append [ev] events
      have hv := vga_said_append [ev] events
      rw [List.singleton_append] at hs hv
      rw [hs, hv]
      exact (handle_key_owes ev).bind fun _ => ih

theorem idle_turn_owes :
    Triple (echoing start) (echoing start).resting idle_turn fun _ => (echoing start).resting := by
  apply (drain_owes 16 []).bind
  intro events
  apply (handle_keys_owes events).bind
  intro _
  apply Triple.bind (R := fun _ => (echoing start).resting)
  · exact Triple.onlyIf (fun _ => Triple.await owes_stable (fun _ h => h) fun _ h => h)
      fun _ _ h => h
  intro _
  apply Triple.bind (silent_owes (Silent.get _))
  intro t
  exact silent_owes (report_liveness_silent.onlyIf _)

end Loop

-- What the loop has printed by the time it enables interrupts.
theorem shown_idle (s : Kernel) : shown (idle s).state =
    ⟨s.ring, s.keyboard, texts s.serial ++ ["ORIN|K|ECHO|ARMED\r\n"], texts s.vga ++ ["orin m1> "]⟩ := by
  let E : Setting Unit Kernel := .alone fun w => shown w.2 =
    ⟨s.ring, s.keyboard, texts s.serial ++ ["ORIN|K|ECHO|ARMED\r\n"], texts s.vga ++ ["orin m1> "]⟩
  have hinfo := log_silent (E := E) .Info SUBSYS "idle: entering the M1 input echo loop"
    (fun w => w.2 = shown s) Setting.alone_stable
  have hserial : Triple E (fun w => shown w.2 = shown s) (serial_print "ORIN|K|ECHO|ARMED\r\n")
      fun _ w => shown w.2 =
        { shown s with serial := texts s.serial ++ ["ORIN|K|ECHO|ARMED\r\n"] } := by
    refine Triple.locked Setting.alone_stable (fun _ => Setting.alone_stable)
      (Triple.modify Setting.alone_stable fun w hw => ?_)
    simp only [shown, Shown.mk.injEq, texts_append_text] at hw ⊢
    simp [hw]
  have hvga : Triple E (fun w => shown w.2 =
      { shown s with serial := texts s.serial ++ ["ORIN|K|ECHO|ARMED\r\n"] }) vga_print_prompt
      fun _ => E.resting := by
    refine Triple.locked Setting.alone_stable (fun _ => Setting.alone_stable)
      (Triple.modify Setting.alone_stable fun w hw => ?_)
    show shown _ = _
    simp only [shown, Shown.mk.injEq, texts_append_text] at hw ⊢
    simp [hw]
  have hkeeps := (hinfo.bind fun _ => hserial.bind fun _ => hvga).code (w := ((), s)) rfl
  exact hkeeps.final

-- Every byte that was in the ring when the loop started or has entered it since.
def entered (s : Kernel) (turns : List (Turn Irq)) : List UInt8 :=
  record idle_turn.code (fun irq => (on_irq irq).code)
    (fun g s irq => g ++ (accepted s.ring irq).toList) s.ring.bytes (idle s) turns

theorem typed_by_append (st : Keyboard.State) (past future : List UInt8) :
    typed_by st (past ++ future) = typed_by st past ++ typed_by (decoded_by st past) future := by
  simp only [typed_by, Keyboard.State.events_of, Keyboard.arrivals, List.map_append, feed_append,
    List.filterMap_append]
  rfl

-- The echo of the bytes `taken`, on each console of a loop that was entered from `s`.
def serial_after (s : Kernel) (taken : List UInt8) : List String :=
  texts s.serial ++ ["ORIN|K|ECHO|ARMED\r\n"] ++ (typed_by s.keyboard taken).flatMap serial_echo

def vga_after (s : Kernel) (taken : List UInt8) : List String :=
  texts s.vga ++ ["orin m1> "] ++ (typed_by s.keyboard taken).flatMap vga_echo

theorem idle_keeps (s : Kernel) (turns : List (Turn Irq)) (c : Core Lock Kernel)
    (h : replay idle_step (idle s) turns = .ok c) :
    c.code.Keeps (echoing (shown (idle s).state)) (entered s turns, c.state) := by
  have hring : (idle s).state.ring = s.ring := congrArg Shown.ring (shown_idle s)
  have hstart : Owes (shown (idle s).state) [] [] [] (s.ring.bytes, shown (idle s).state) :=
    ⟨[], by rw [← hring]; rfl, rfl, rfl, rfl⟩
  exact replay_keeps echoing_fair (fun w hw => idle_turn_owes.code hw)
    (fun irq g s' held s'' held' hrun => ⟨irq, rfl, on_irq_received hrun⟩)
    (idle_turn_owes.code hstart) h

-- Whatever the interleaving of the loop with its interrupts: the bytes taken from the ring and
-- the ones still in it are the bytes that entered, in order; what the consoles show is the
-- echo of the bytes taken, or a beginning of it; and nothing is missing when the loop idles.
theorem echo_follows_input (s : Kernel) (turns : List (Turn Irq)) (c : Core Lock Kernel)
    (h : replay idle_step (idle s) turns = .ok c) :
    ∃ taken, taken ++ c.state.ring.bytes = entered s turns ∧
      texts c.state.serial <+: serial_after s taken ∧ texts c.state.vga <+: vga_after s taken ∧
      (c.code.Idle →
        texts c.state.serial = serial_after s taken ∧ texts c.state.vga = vga_after s taken) := by
  have hkeeps := idle_keeps s turns c h
  have hstart := shown_idle s
  by_cases hidle : c.code.Idle
  · obtain ⟨taken, hbytes, -, hserial, hvga⟩ := hkeeps.resting hidle
    rw [hstart] at hserial hvga
    rw [List.append_nil] at hbytes hserial hvga
    have hserial : texts c.state.serial = serial_after s taken := hserial
    have hvga : texts c.state.vga = vga_after s taken := hvga
    refine ⟨taken, hbytes, ?_, ?_, fun _ => ⟨hserial, hvga⟩⟩
    · exact hserial ▸ List.prefix_rfl
    · exact hvga ▸ List.prefix_rfl
  · obtain ⟨hand, serial, vga, taken, hbytes, -, hserial, hvga⟩ := hkeeps.always echoing_fair
    rw [hstart] at hserial hvga
    have hmore := typed_by_append s.keyboard taken hand
    refine ⟨taken ++ hand, hbytes, ?_, ?_, fun hc => absurd hc hidle⟩
    · rw [serial_after, hmore, List.flatMap_append, ← List.append_assoc]
      exact (List.prefix_append _ serial).trans (hserial ▸ List.prefix_append _ _)
    · rw [vga_after, hmore, List.flatMap_append, ← List.append_assoc]
      exact (List.prefix_append _ vga).trans (hvga ▸ List.prefix_append _ _)

-- The letter a goes down: one byte enters, and the loop runs until it halts for more.
def letter_turns : List (Turn Irq) :=
  .interrupt (.keyboard 0x21 0x1E) :: List.replicate 22 .main

theorem letter_is_echoed : ∃ c taken, replay idle_step (idle Kernel.booted) letter_turns = .ok c ∧
    taken ++ c.state.ring.bytes = entered Kernel.booted letter_turns ∧
    texts c.state.serial = serial_after Kernel.booted taken ∧
    texts c.state.vga = vga_after Kernel.booted taken := by
  obtain ⟨taken, hbytes, -, -, hall⟩ := echo_follows_input Kernel.booted letter_turns _ rfl
  exact ⟨_, taken, rfl, hbytes, hall trivial⟩

-- One pass of the loop with nothing in between its steps.
def idle_pass (s : Kernel) : Kernel := idle_turn.code.final s

section Passes

variable {s : Kernel}

theorem echo_keeps_ring {E : Setting Unit Kernel} (ch : Char) :
    Silent E Kernel.ring (echo ch) := by
  have hserial (t : String) : Silent E Kernel.ring (serial_print t) :=
    Silent.locked (Silent.modify fun _ => rfl)
  have hvga (t : String) : Silent E Kernel.ring (vga_print t) :=
    Silent.locked (Silent.modify fun _ => rfl)
  unfold echo
  split_ifs
  · exact (hserial _).bind fun _ => hvga _
  · exact (hserial _).bind fun _ => hvga _
  · exact (log_silent _ _ _).coarser Shown.ring
  · exact (hserial _).bind fun _ => hvga _

theorem handle_keys_keep_ring {E : Setting Unit Kernel} (events : List Keyboard.KeyEvent) :
    Silent E Kernel.ring (handle_keys events) := by
  induction events with
  | nil => exact Silent.pure ()
  | cons ev events ih =>
      refine Silent.bind ?_ fun _ => ih
      unfold handle_key
      split_ifs
      · exact Silent.pure ()
      · exact report_counters_silent.coarser Shown.ring
      · cases ev.ch with
        | none => exact (log_silent _ _ _).coarser Shown.ring
        | some ch =>
            exact (echo_keeps_ring ch).bind fun _ => report_dropped_silent.coarser Shown.ring

theorem idle_pass_bytes (s : Kernel) : (idle_pass s).ring.bytes =
    (Keyboard.State.drained s.ticks 16 s.keyboard s.ring.bytes).2 := by
  obtain ⟨locks, s₁, hdrain, hleft⟩ := Keyboard.drain_does 16 [] s
  let E : Setting Unit Kernel := .alone fun w => w.2.ring = s₁.ring
  -- only `drain` takes bytes out
  have hrest (events : List Keyboard.KeyEvent) : Triple E (fun w => w.2.ring = s₁.ring) (do
      handle_keys events
      onlyIf events.isEmpty await
      let t ← Pit.ticks_since_boot
      onlyIf (0 < t && t % 5000 = 0) report_liveness) fun _ => E.resting := by
    apply Triple.bind (handle_keys_keep_ring events (fun w => w.2 = s₁.ring) Setting.alone_stable)
    intro _
    apply Triple.bind (R := fun _ w => w.2.ring = s₁.ring)
    · exact Triple.onlyIf (fun _ => Triple.await Setting.alone_stable (fun _ h => h) fun _ h => h)
        fun _ _ h => h
    intro _
    have htail : Silent E Kernel.ring (do
        let t ← Pit.ticks_since_boot
        onlyIf (0 < t && t % 5000 = 0) report_liveness) :=
      (Silent.get _).bind fun t => (report_liveness_silent.coarser Shown.ring).onlyIf _
    exact htail (fun w => w.2 = s₁.ring) Setting.alone_stable
  have hfinal : idle_pass s = _ := hdrain.final_eq _
  have hring : (idle_pass s).ring = s₁.ring := by
    rw [hfinal]
    exact ((hrest _).code (w := ((), s₁)) rfl).final
  rw [hring, hleft]

theorem length_drained_le {tick room : Nat} {st : Keyboard.State} {waiting : List UInt8} :
    (Keyboard.State.drained tick room st waiting).2.length ≤ waiting.length := by
  induction room generalizing st waiting with
  | zero => exact Nat.le_refl _
  | succ room ih =>
      cases waiting with
      | nil => exact Nat.le_refl 0
      | cons byte waiting =>
          cases hevent : (st.translate tick byte).event with
          | none =>
              rw [Keyboard.State.drained_silent hevent]
              exact Nat.le_succ _
          | some ev =>
              rw [Keyboard.State.drained_event hevent]
              exact Nat.le_succ_of_le ih

-- A pass takes at least one byte if there is one: the loop cannot stall on a byte that
-- decodes to nothing.
theorem length_drained_lt {tick room : Nat} {st : Keyboard.State} {waiting : List UInt8}
    (h : waiting ≠ []) :
    (Keyboard.State.drained tick (room + 1) st waiting).2.length < waiting.length := by
  cases waiting with
  | nil => exact absurd rfl h
  | cons byte waiting =>
      cases hevent : (st.translate tick byte).event with
      | none =>
          rw [Keyboard.State.drained_silent hevent]
          exact Nat.lt_succ_self _
      | some ev =>
          rw [Keyboard.State.drained_event hevent]
          exact Nat.lt_succ_of_le length_drained_le

theorem idle_passes_bytes (n : Nat) (s : Kernel) :
    (idle_pass^[n] s).ring.pending ≤ s.ring.pending - n := by
  induction n generalizing s with
  | zero => exact Nat.le_refl _
  | succ n ih =>
      have hpass : (idle_pass s).ring.pending ≤ s.ring.pending - 1 := by
        rw [← Keyboard.Ring.bytes_length, ← Keyboard.Ring.bytes_length, idle_pass_bytes]
        by_cases hnone : s.ring.bytes = []
        · simp [hnone, Keyboard.State.drained]
        · exact Nat.le_sub_one_of_lt (length_drained_lt hnone)
      have hrest := ih (idle_pass s)
      rw [Function.iterate_succ_apply]
      omega

theorem idle_passes_owe (n : Nat) (s : Kernel) :
    Owes (shown s) [] [] [] (s.ring.bytes, shown (idle_pass^[n] s)) := by
  induction n with
  | zero => exact ⟨[], rfl, rfl, rfl, rfl⟩
  | succ n ih =>
      rw [Function.iterate_succ_apply']
      exact (idle_turn_owes.code (E := echoing (shown s)) (w := (s.ring.bytes, idle_pass^[n] s)) ih).final

-- When nothing more is typed, as many passes as bytes are waiting bring everything that was
-- typed onto both consoles.
theorem echo_catches_up (s : Kernel) (n : Nat) (hn : s.ring.pending ≤ n) :
    (idle_pass^[n] s).ring.bytes = [] ∧
      texts (idle_pass^[n] s).serial =
        texts s.serial ++ (typed_by s.keyboard s.ring.bytes).flatMap serial_echo ∧
      texts (idle_pass^[n] s).vga =
        texts s.vga ++ (typed_by s.keyboard s.ring.bytes).flatMap vga_echo := by
  have hempty : (idle_pass^[n] s).ring.bytes = [] := by
    have hle := idle_passes_bytes n s
    rw [← List.length_eq_zero_iff, Keyboard.Ring.bytes_length]
    omega
  obtain ⟨taken, hbytes, -, hserial, hvga⟩ := idle_passes_owe n s
  have htaken : taken = s.ring.bytes := by
    have hbytes : taken ++ [] ++ (idle_pass^[n] s).ring.bytes = s.ring.bytes := hbytes
    simpa [hempty] using hbytes
  rw [htaken, List.append_nil] at hserial hvga
  exact ⟨hempty, hserial, hvga⟩

-- The letter a, pressed and released before the loop looks.
def letter_waiting : Kernel := { Kernel.booted with ring := (Keyboard.Ring.new.push 0x1E).push 0x9E }

theorem letter_catches_up : letter_waiting.ring.pending ≤ 2 ∧
    (idle_pass^[2] letter_waiting).ring.bytes = [] ∧
    texts (idle_pass^[2] letter_waiting).serial = ["ORIN|K|ECHO|a\r\n"] := by
  obtain ⟨hempty, hserial, -⟩ := echo_catches_up letter_waiting 2 (by decide)
  exact ⟨by decide, hempty, hserial⟩

end Passes

end Orin.Kmain
