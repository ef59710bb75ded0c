import Orin.Drivers.Keyboard.Decode
import Orin.Drivers.Keyboard.Driver
import Orin.Drivers.Keyboard.Ring

namespace Orin.Drivers.Keyboard

open Console Theory Theory.Prog

-- The bytes that wait in the ring, all decoded at the present tick.
def arrivals (tick : Nat) (waiting : List UInt8) : List Arrival := waiting.map (Prod.mk tick)

-- The events the waiting bytes stand for.
def State.events_of (st : State) (tick : Nat) (waiting : List UInt8) : List KeyEvent :=
  (feed State.decode st (arrivals tick waiting)).2

-- What `drain` takes from the waiting bytes: the events, and the bytes it leaves.
def State.drained (tick : Nat) : Nat → State → List UInt8 → List KeyEvent × List UInt8
  | 0, _, waiting => ([], waiting)
  | _ + 1, _, [] => ([], [])
  | room + 1, st, byte :: waiting =>
      let translated := st.translate tick byte
      match translated.event with
      | none => ([], waiting)
      | some ev =>
          let later := drained tick room translated.state waiting
          (ev :: later.1, later.2)

namespace State

variable {st : State} {tick room : Nat} {byte : UInt8} {waiting : List UInt8} {ev : KeyEvent}

theorem events_of_nil : st.events_of tick [] = [] := rfl

theorem events_of_cons : st.events_of tick (byte :: waiting) =
    (st.translate tick byte).event.toList ++
      (st.translate tick byte).state.events_of tick waiting := rfl

theorem events_of_silent (h : (st.translate tick byte).event = none) :
    st.events_of tick (byte :: waiting) =
      (st.translate tick byte).state.events_of tick waiting := by
  rw [events_of_cons, h]
  rfl

theorem events_of_event (h : (st.translate tick byte).event = some ev) :
    st.events_of tick (byte :: waiting) =
      ev :: (st.translate tick byte).state.events_of tick waiting := by
  rw [events_of_cons, h]
  rfl

theorem length_events_of_le : (st.events_of tick waiting).length ≤ waiting.length := by
  induction waiting generalizing st with
  | nil => exact Nat.le_refl 0
  | cons byte waiting ih =>
      have hlater := @ih (st.translate tick byte).state
      cases hevent : (st.translate tick byte).event with
      | none =>
          rw [events_of_silent hevent, List.length_cons]
          omega
      | some ev =>
          rw [events_of_event hevent, List.length_cons, List.length_cons]
          omega

theorem drained_silent (h : (st.translate tick byte).event = none) :
    drained tick (room + 1) st (byte :: waiting) = ([], waiting) := by
  simp only [drained, h]

theorem drained_event (h : (st.translate tick byte).event = some ev) :
    drained tick (room + 1) st (byte :: waiting) =
      (ev :: (drained tick room (st.translate tick byte).state waiting).1,
        (drained tick room (st.translate tick byte).state waiting).2) := by
  simp only [drained, h]

-- The events written are the first ones in order: an early stop loses none of them.
theorem drained_eq_take : (drained tick room st waiting).1 =
    (st.events_of tick waiting).take (drained tick room st waiting).1.length := by
  induction room generalizing st waiting with
  | zero => rfl
  | succ room ih =>
      cases waiting with
      | nil => rfl
      | cons byte waiting =>
          cases hevent : (st.translate tick byte).event with
          | none => rw [drained_silent hevent, List.length_nil, List.take_zero]
          | some ev =>
              rw [drained_event hevent, events_of_event hevent, List.length_cons,
                List.take_succ_cons, ← ih]

-- The bytes that have to give an event each for the loop to go on: all that fit but the
-- last, behind which the ring is empty anyway.
def needed (room : Nat) (waiting : List UInt8) : Nat := min room (waiting.length - 1)

theorem needed_cons (h : waiting ≠ []) :
    needed (room + 1) (byte :: waiting) = needed room waiting + 1 := by
  have hpos := List.length_pos_iff.mpr h
  simp only [needed, List.length_cons]
  omega

def Steady (tick : Nat) (st : State) (room : Nat) (waiting : List UInt8) : Prop :=
  (st.events_of tick (waiting.take (needed room waiting))).length = needed room waiting

instance : Decidable (Steady tick st room waiting) := inferInstanceAs (Decidable (_ = _))

theorem steady_of_needed (h : needed room waiting = 0) : Steady tick st room waiting := by
  rw [Steady, h, List.take_zero, events_of_nil, List.length_nil]

theorem steady_nil : Steady tick st room [] := steady_of_needed (Nat.min_zero room)

theorem steady_singleton : Steady tick st room [byte] := steady_of_needed (Nat.min_zero room)

theorem not_steady_silent (hsilent : (st.translate tick byte).event = none)
    (hmore : waiting ≠ []) : ¬Steady tick st (room + 1) (byte :: waiting) := by
  intro hsteady
  rw [Steady, needed_cons hmore, List.take_succ_cons, events_of_silent hsilent] at hsteady
  have htake := List.length_take_le (needed room waiting) waiting
  have hle := hsteady.symm.trans_le length_events_of_le
  omega

theorem steady_event_iff (hevent : (st.translate tick byte).event = some ev)
    (hmore : waiting ≠ []) : Steady tick st (room + 1) (byte :: waiting) ↔
      Steady tick (st.translate tick byte).state room waiting := by
  rw [Steady, Steady, needed_cons hmore, List.take_succ_cons, events_of_event hevent,
    List.length_cons, Nat.add_right_cancel_iff]

-- The loop fills the slice or empties the ring exactly if no byte before the last one it
-- could take decodes to nothing.
theorem drained_full_iff :
    (drained tick room st waiting).1.length = room ∨ (drained tick room st waiting).2 = [] ↔
      Steady tick st room waiting := by
  induction room generalizing st waiting with
  | zero => exact iff_of_true (.inl rfl) (steady_of_needed (Nat.zero_min _))
  | succ room ih =>
      cases waiting with
      | nil => exact iff_of_true (.inr rfl) steady_nil
      | cons byte waiting =>
          cases hevent : (st.translate tick byte).event with
          | none =>
              rw [drained_silent hevent]
              by_cases hmore : waiting = []
              · rw [hmore]
                exact iff_of_true (.inr rfl) steady_singleton
              · refine iff_of_false ?_ (not_steady_silent hevent hmore)
                exact fun h => h.elim (Nat.succ_ne_zero room ∘ Eq.symm) hmore
          | some ev =>
              rw [drained_event hevent, List.length_cons, Nat.add_right_cancel_iff, ih]
              by_cases hmore : waiting = []
              · rw [hmore]
                exact iff_of_true steady_nil steady_singleton
              · exact (steady_event_iff hevent hmore).symm

theorem translate_key_tick (code : KeyCode) (released : Bool) (t : Nat) :
    (st.translate_key code released t).state = (st.translate_key code released tick).state ∧
      (st.translate_key code released t).event.isSome =
        (st.translate_key code released tick).event.isSome := by
  unfold translate_key
  dsimp only
  split
  · exact ⟨rfl, rfl⟩
  · exact ⟨rfl, rfl⟩

theorem translate_extended_tick (idx : UInt8) (released : Bool) (t : Nat) :
    (st.translate_extended idx released t).state = (st.translate_extended idx released tick).state ∧
      (st.translate_extended idx released t).event.isSome =
        (st.translate_extended idx released tick).event.isSome := by
  unfold translate_extended
  dsimp only
  split_ifs
  · exact ⟨rfl, rfl⟩
  · exact ⟨rfl, rfl⟩
  · exact translate_key_tick _ _ _

-- The clock stamps an event and decides nothing else.
theorem translate_tick (byte : UInt8) (t : Nat) :
    (st.translate t byte).state = (st.translate tick byte).state ∧
      (st.translate t byte).event.isSome = (st.translate tick byte).event.isSome := by
  unfold translate
  dsimp only
  split_ifs
  · exact ⟨rfl, rfl⟩
  · exact ⟨rfl, rfl⟩
  · exact ⟨rfl, rfl⟩
  · exact translate_extended_tick _ _ _
  · exact translate_key_tick _ _ _
  · exact ⟨rfl, rfl⟩

end State

section Uninterrupted

variable {s : Kernel} {byte : UInt8} {waiting : List UInt8}

theorem ring_pop_does_empty (h : s.ring.bytes = []) : Does ring_pop s ∅ none s := by
  have hsame : s.ring.tail = s.ring.head := by
    by_contra hne
    rw [Ring.bytes_pop _ (Ne.symm hne)] at h
    exact List.cons_ne_nil _ _ h
  apply (Does.get _ s).free_bind
  apply (Does.get _ s).free_bind
  rw [if_pos hsame]
  exact Does.pure none s

theorem ring_pop_does_cons (h : s.ring.bytes = byte :: waiting) :
    ∃ r, Does ring_pop s ∅ (some byte) { s with ring := r } ∧ r.bytes = waiting := by
  have hne : s.ring.head ≠ s.ring.tail := by
    intro hsame
    have hlength := s.ring.bytes_length
    rw [h, Ring.pending, hsame] at hlength
    simp at hlength
  have hpop := (Ring.bytes_pop _ hne).symm.trans h
  obtain ⟨hbyte, hwaiting⟩ := List.cons.inj hpop
  refine ⟨_, ?_, hwaiting⟩
  apply (Does.get _ s).free_bind
  apply (Does.get _ s).free_bind
  rw [if_neg (Ne.symm hne)]
  apply (Does.get _ s).free_bind
  rw [← hbyte]
  exact (Does.modify _ s).free_bind (Does.pure _ _)

theorem ktrace_does (trace : Option String) (s : Kernel) :
    ∃ locks s', Does (ktrace trace) s locks () s' ∧ Log.OnlyLogged s s' := by
  cases trace with
  | none => exact ⟨_, s, Does.pure () s, ⟨rfl, rfl, rfl, rfl, rfl, rfl, rfl⟩⟩
  | some message =>
      obtain ⟨s', hlog, honly⟩ := Log.log_does .Trace SUBSYS message s
      exact ⟨_, s', hlog, honly⟩

theorem translate_does (byte : UInt8) (s : Kernel) :
    ∃ locks s', Does (translate byte) s locks (s.keyboard.translate s.ticks byte).event s' ∧
      s'.keyboard = (s.keyboard.translate s.ticks byte).state ∧ s'.ring = s.ring ∧
      s'.ticks = s.ticks := by
  obtain ⟨locks, s', htrace, honly⟩ := ktrace_does (s.keyboard.translate s.ticks byte).trace
    { s with keyboard := (s.keyboard.translate s.ticks byte).state }
  refine ⟨insert .STATE locks, s', Does.locked ?_ rfl, honly.keyboard, honly.ring, honly.ticks⟩
  apply (Does.get Kernel.ticks s).free_bind
  apply (Does.get _ s).free_bind
  apply (Does.modify _ s).free_bind
  exact htrace.bind (Does.pure _ s') (Finset.union_empty locks)

theorem poll_does_empty (h : s.ring.bytes = []) : Does poll s ∅ none s :=
  (ring_pop_does_empty h).free_bind (Does.pure none s)

theorem poll_does_cons (h : s.ring.bytes = byte :: waiting) :
    ∃ locks s', Does poll s locks (s.keyboard.translate s.ticks byte).event s' ∧
      s'.keyboard = (s.keyboard.translate s.ticks byte).state ∧ s'.ring.bytes = waiting ∧
      s'.ticks = s.ticks := by
  obtain ⟨r, hpop, hwaiting⟩ := ring_pop_does_cons h
  obtain ⟨locks, s', htranslate, hkeyboard, hring, hticks⟩ :=
    translate_does byte { s with ring := r }
  refine ⟨locks, s', hpop.free_bind htranslate, hkeyboard, ?_, hticks⟩
  rw [hring]
  exact hwaiting

-- The loop with nothing in between its steps is the description above.
theorem drain_does (room : Nat) (out : List KeyEvent) (s : Kernel) :
    ∃ locks s', Does (drain room out) s locks
        (out ++ (State.drained s.ticks room s.keyboard s.ring.bytes).1) s' ∧
      s'.ring.bytes = (State.drained s.ticks room s.keyboard s.ring.bytes).2 := by
  induction room generalizing out s with
  | zero =>
      refine ⟨∅, s, ?_, rfl⟩
      rw [State.drained, List.append_nil]
      exact Does.pure out s
  | succ room ih =>
      cases hbytes : s.ring.bytes with
      | nil =>
          refine ⟨∅, s, (poll_does_empty hbytes).free_bind ?_, hbytes⟩
          rw [State.drained, List.append_nil]
          exact Does.pure out s
      | cons byte waiting =>
          obtain ⟨locks, s₁, hpoll, hkeyboard, hring, hticks⟩ := poll_does_cons hbytes
          cases hevent : (s.keyboard.translate s.ticks byte).event with
          | none =>
              rw [hevent] at hpoll
              rw [State.drained_silent hevent, List.append_nil]
              exact ⟨_, s₁, hpoll.bind (Does.pure out s₁) rfl, hring⟩
          | some ev =>
              rw [hevent] at hpoll
              obtain ⟨locks', s', hlater, hleft⟩ := ih (out ++ [ev]) s₁
              rw [hkeyboard, hring, hticks] at hlater hleft
              rw [State.drained_event hevent, List.append_cons]
              exact ⟨_, s', hpoll.bind hlater rfl, hleft⟩

end Uninterrupted

-- From `s`, with nothing pushed meanwhile, `drain` into a slice of `room` events fills the
-- slice or empties the ring, and writes the first events of the bytes that waited.
def Drains (s : Kernel) (room : Nat) : Prop :=
  ∃ locks out s', Does (drain room []) s locks out s' ∧
    (out.length = room ∨ s'.ring.bytes = []) ∧
    out = (feed State.decode s.keyboard (arrivals s.ticks s.ring.bytes)).2.take out.length

theorem Drains.steady {s : Kernel} {room : Nat} (h : Drains s room) :
    State.Steady s.ticks s.keyboard room s.ring.bytes := by
  obtain ⟨locks, out, s₁, hdoes, hfull, -⟩ := h
  obtain ⟨locks', s₂, hdrained, hleft⟩ := drain_does room [] s
  obtain ⟨rfl, rfl⟩ := hdoes.unique hdrained
  rw [hleft] at hfull
  exact State.drained_full_iff.mp hfull

-- One byte that decodes to no event stops the loop, so `drain` does its work exactly if
-- none comes before the last byte it could take.
theorem drain_empties_iff (s : Kernel) (room : Nat) :
    Drains s room ↔ State.Steady s.ticks s.keyboard room s.ring.bytes := by
  refine ⟨Drains.steady, fun hsteady => ?_⟩
  obtain ⟨locks, s', hdoes, hleft⟩ := drain_does room [] s
  rw [List.nil_append] at hdoes
  have hfull := State.drained_full_iff.mpr hsteady
  rw [← hleft] at hfull
  exact ⟨locks, _, s', hdoes, hfull, State.drained_eq_take⟩

-- The up arrow, pressed since the last poll: two bytes for one event.
def arrow_waiting : Kernel := { Kernel.booted with ring := (Ring.new.push 0xE0).push 0x48 }

theorem arrow_waiting_bytes : arrow_waiting.ring.bytes = [0xE0, 0x48] := by
  have hfirst : (Ring.new.push 0xE0).bytes = [0xE0] := Ring.bytes_push _ (by decide)
  have hsecond := Ring.bytes_push (Ring.new.push 0xE0) (b := 0x48) (by decide)
  rw [hfirst] at hsecond
  exact hsecond

-- The prefix byte gives no event, so the press stays in the ring and the slice empty.
theorem arrow_not_drained : ¬Drains arrow_waiting 8 ∧
    ∃ locks s', Does (drain 8 []) arrow_waiting locks [] s' ∧ s'.ring.bytes = [0x48] := by
  constructor
  · intro h
    have hsteady := h.steady
    rw [arrow_waiting_bytes] at hsteady
    exact absurd hsteady (by decide)
  · obtain ⟨locks, s', hdoes, hleft⟩ := drain_does 8 [] arrow_waiting
    rw [arrow_waiting_bytes] at hdoes hleft
    exact ⟨locks, s', hdoes, hleft⟩

end Orin.Drivers.Keyboard
