import Orin.Drivers.Keyboard.Driver
import Orin.Theory.Circular
import Orin.Theory.Preempt

namespace Orin.Drivers.Keyboard

open Theory Theory.Prog
open Theory.Circular

-- The atomic accesses of `ring_pop`, with what was loaded before each.
inductive Access where
  | load_tail
  | load_head (tail : Fin RING_CAP)
  | load_cell (tail : Fin RING_CAP)
  | store_tail (tail : Fin RING_CAP) (b : UInt8)

-- One access: the ring it leaves, and the next access or the value `ring_pop` returns.
def Ring.access (r : Ring) : Access → Ring × (Access ⊕ Option UInt8)
  | .load_tail => (r, .inl (.load_head r.tail))
  | .load_head tail => (r, if tail = r.head then .inr none else .inl (.load_cell tail))
  | .load_cell tail => (r, .inl (.store_tail tail (r.cells.get tail)))
  | .store_tail tail b => ({ r with tail := Ring.next tail }, .inr (some b))

section Code

-- What is left of `ring_pop` before an access.
def Access.rest : Access → KProg (Option UInt8)
  | .load_tail => ring_pop
  | .load_head tail => do
      let head ← get fun s => s.ring.head
      if tail = head then return none
      else do
        let b ← get fun s => s.ring.cells.get tail
        modify fun s => { s with ring := { s.ring with tail := Ring.next tail } }
        return some b
  | .load_cell tail => do
      let b ← get fun s => s.ring.cells.get tail
      modify fun s => { s with ring := { s.ring with tail := Ring.next tail } }
      return some b
  | .store_tail tail b => do
      modify fun s => { s with ring := { s.ring with tail := Ring.next tail } }
      return some b

-- The program takes these accesses one at a time, whatever follows it.
theorem advance_access (body : Code Lock Kernel) (next : Option UInt8 → Code Lock Kernel)
    (a : Access) (held : Finset Lock) (s : Kernel) :
    advance body ⟨a.rest next, held, s⟩ =
      .ok ⟨match (s.ring.access a).2 with
        | .inl a' => a'.rest next
        | .inr popped => next popped, held, { s with ring := (s.ring.access a).1 }⟩ := by
  cases a with
  | load_tail => rfl
  | load_cell tail => rfl
  | store_tail tail b => rfl
  | load_head tail =>
      by_cases htail : tail = s.ring.head
      · simp only [Access.rest, Ring.access, htail, ↓reduceIte]
        show Except.ok _ = _
        simp only [↓reduceIte]
        rfl
      · simp only [Access.rest, Ring.access, htail, ↓reduceIte]
        show Except.ok _ = _
        simp only [htail, ↓reduceIte]

end Code

-- The consumer between two accesses.
structure Consumer where
  ring : Ring
  pc : Access

inductive Noted where
  | accepted (b : UInt8)
  | rejected (b : UInt8)
  | popped (b : UInt8)
  | nothing

-- The handler pushes to completion; the consumer takes one access, and starts over when
-- `ring_pop` has returned.
def Consumer.step (c : Consumer) : Turn UInt8 → Except Empty (Noted × Consumer)
  | .interrupt b =>
      .ok (if Ring.next c.ring.head = c.ring.tail then .rejected b else .accepted b,
        { c with ring := c.ring.push b })
  | .main =>
      match c.ring.access c.pc with
      | (ring, .inl pc) => .ok (.nothing, ⟨ring, pc⟩)
      | (ring, .inr none) => .ok (.nothing, ⟨ring, .load_tail⟩)
      | (ring, .inr (some b)) => .ok (.popped b, ⟨ring, .load_tail⟩)

abbrev History := List (Event Consumer (Turn UInt8) Noted)

def accepted (history : History) : List UInt8 :=
  history.filterMap fun e => match e.answer with
    | .accepted b => some b
    | _ => none

def popped (history : History) : List UInt8 :=
  history.filterMap fun e => match e.answer with
    | .popped b => some b
    | _ => none

def rejected (history : History) : List UInt8 :=
  history.filterMap fun e => match e.answer with
    | .rejected b => some b
    | _ => none

namespace Ring

variable (r : Ring)

def cell (i : Nat) : UInt8 := (r.cells[i]?).getD 0

-- The bytes that are waiting, oldest first.
def bytes : List UInt8 := window r.cell RING_CAP r.tail r.pending

theorem pending_eq : r.pending = span RING_CAP r.head r.tail := rfl

theorem bytes_length : r.bytes.length = r.pending := window_length

theorem pending_lt : r.pending < RING_CAP := span_lt r.head.isLt r.tail.isLt

theorem next_val (i : Fin RING_CAP) : (next i : Nat) = (i + 1) % RING_CAP := rfl

theorem next_eq_iff {i j : Fin RING_CAP} : next i = j ↔ ((i : Nat) + 1) % RING_CAP = j := by
  rw [Fin.ext_iff, next_val]

theorem full_iff_pending : next r.head = r.tail ↔ r.pending = 255 := by
  rw [next_eq_iff, full_iff r.head.isLt r.tail.isLt, pending_eq]
  show _ = 255 + 1 ↔ _
  omega

theorem cell_get (i : Fin RING_CAP) : r.cell i = r.cells.get i := by
  simp [cell, Vector.get]

theorem push_full {b : UInt8} (h : next r.head = r.tail) :
    r.push b = { r with dropped := r.dropped + 1 } := if_pos h

theorem push_room {b : UInt8} (h : next r.head ≠ r.tail) :
    r.push b = { r with cells := r.cells.set r.head b r.head.isLt, head := next r.head } := if_neg h

theorem bytes_push {b : UInt8} (h : next r.head ≠ r.tail) : (r.push b).bytes = r.bytes ++ [b] := by
  have hroom : ((r.head : Nat) + 1) % RING_CAP ≠ r.tail := fun heq => h (next_eq_iff.mpr heq)
  have hspan := span_succ_head r.head.isLt r.tail.isLt hroom
  rw [push_room r h, bytes, pending_eq]
  show window _ RING_CAP r.tail (span RING_CAP (next r.head) r.tail) = _
  rw [next_val, hspan, bytes, pending_eq]
  have hat := add_span_mod r.head.isLt r.tail.isLt
  refine window_write (span_lt r.head.isLt r.tail.isLt) ?_ fun i hi => ?_
  · rw [hat]
    simp [cell]
  · rw [hat] at hi
    simp [cell, Ne.symm hi]

theorem bytes_pop (h : r.head ≠ r.tail) :
    r.bytes = r.cells.get r.tail :: { r with tail := next r.tail : Ring }.bytes := by
  have hne : (r.head : Nat) ≠ r.tail := fun heq => h (Fin.ext heq)
  have hspan := span_succ_tail r.head.isLt r.tail.isLt hne
  rw [bytes, pending_eq, hspan, window_succ r.tail.isLt, cell_get]
  rfl

end Ring

-- What the consumer has loaded is still true of the ring.
def Consumer.Fresh (c : Consumer) : Prop :=
  match c.pc with
  | .load_tail => True
  | .load_head tail => tail = c.ring.tail
  | .load_cell tail => tail = c.ring.tail ∧ c.ring.head ≠ c.ring.tail
  | .store_tail tail b =>
      tail = c.ring.tail ∧ c.ring.head ≠ c.ring.tail ∧ b = c.ring.cells.get c.ring.tail

namespace Consumer

variable {c c' : Consumer}

theorem push_fresh {b : UInt8} (hc : c.Fresh) : { c with ring := c.ring.push b : Consumer }.Fresh := by
  by_cases hfull : Ring.next c.ring.head = c.ring.tail
  · rw [Ring.push_full _ hfull]
    exact hc
  · rw [Ring.push_room _ hfull]
    obtain ⟨r, pc⟩ := c
    cases pc with
    | load_tail => trivial
    | load_head tail => exact hc
    | load_cell tail => exact ⟨hc.1, hfull⟩
    | store_tail tail b' =>
        obtain ⟨rfl, hne, rfl⟩ : tail = r.tail ∧ r.head ≠ r.tail ∧ b' = r.cells.get r.tail := hc
        -- The cell written is the one at the head, not the one that was read.
        refine ⟨rfl, hfull, ?_⟩
        have hother : (r.head : Nat) ≠ r.tail := fun heq => hne (Fin.ext heq)
        exact (Vector.getElem_set_ne r.head.isLt r.tail.isLt hother).symm

-- What a turn can do.
theorem step_cases {turn : Turn UInt8} {noted : Noted} (hc : c.Fresh)
    (h : c.step turn = .ok (noted, c')) :
    (∃ b, noted = .rejected b ∧ c.ring.pending = 255 ∧
      c' = { c with ring := { c.ring with dropped := c.ring.dropped + 1 } }) ∨
    (∃ b, noted = .accepted b ∧ c'.Fresh ∧ c'.ring.dropped = c.ring.dropped ∧
      c'.ring.bytes = c.ring.bytes ++ [b]) ∨
    (∃ b, noted = .popped b ∧ c'.Fresh ∧ c'.ring.dropped = c.ring.dropped ∧
      c.ring.bytes = b :: c'.ring.bytes) ∨
    (noted = .nothing ∧ c'.Fresh ∧ c'.ring = c.ring) := by
  cases turn with
  | interrupt b =>
      have hfresh := push_fresh (b := b) hc
      cases h
      by_cases hfull : Ring.next c.ring.head = c.ring.tail
      · have hpending := c.ring.full_iff_pending.mp hfull
        exact .inl ⟨b, if_pos hfull, hpending, by rw [Ring.push_full _ hfull]⟩
      · have hdropped : (c.ring.push b).dropped = c.ring.dropped := by rw [Ring.push_room _ hfull]
        exact .inr (.inl ⟨b, if_neg hfull, hfresh, hdropped, Ring.bytes_push _ hfull⟩)
  | main =>
      obtain ⟨r, pc⟩ := c
      cases pc with
      | load_tail =>
          cases h
          exact .inr (.inr (.inr ⟨rfl, rfl, rfl⟩))
      | load_head tail =>
          obtain rfl : tail = r.tail := hc
          by_cases hempty : r.tail = r.head
          · simp only [step, Ring.access, hempty, ↓reduceIte] at h
            cases h
            exact .inr (.inr (.inr ⟨rfl, trivial, rfl⟩))
          · simp only [step, Ring.access, hempty, ↓reduceIte] at h
            cases h
            exact .inr (.inr (.inr ⟨rfl, ⟨rfl, Ne.symm hempty⟩, rfl⟩))
      | load_cell tail =>
          obtain ⟨rfl, hne⟩ : tail = r.tail ∧ r.head ≠ r.tail := hc
          cases h
          exact .inr (.inr (.inr ⟨rfl, ⟨rfl, hne, rfl⟩, rfl⟩))
      | store_tail tail b =>
          obtain ⟨rfl, hne, rfl⟩ : tail = r.tail ∧ r.head ≠ r.tail ∧ b = r.cells.get r.tail := hc
          cases h
          exact .inr (.inr (.inl ⟨_, rfl, trivial, rfl, r.bytes_pop hne⟩))

end Consumer

section Histories

variable (past future : History)

theorem accepted_append : accepted (past ++ future) = accepted past ++ accepted future :=
  List.filterMap_append

theorem popped_append : popped (past ++ future) = popped past ++ popped future :=
  List.filterMap_append

theorem rejected_append : rejected (past ++ future) = rejected past ++ rejected future :=
  List.filterMap_append

end Histories

-- The interleavings of the two sides, from the empty ring.
abbrev Interleaving : History → Consumer → Prop :=
  Run (fun _ _ => True) Consumer.step ⟨Ring.new, .load_tail⟩

theorem take_turn {history : History} {c c' : Consumer} {noted : Noted} (h : Interleaving history c)
    (turn : Turn UInt8) (hstep : c.step turn = .ok (noted, c')) :
    Interleaving (history ++ [⟨c, turn, noted⟩]) c' := h.snoc trivial hstep

structure Fifo (history : History) (c : Consumer) : Prop where
  fresh : c.Fresh
  bytes : popped history ++ c.ring.bytes = accepted history
  dropped : c.ring.dropped = (rejected history).length
  full : ∀ e ∈ history, ∀ b, e.answer = .rejected b → e.before.ring.pending = 255

theorem full_snoc {history : History} {e : Event Consumer (Turn UInt8) Noted}
    (hpast : ∀ e ∈ history, ∀ b, e.answer = .rejected b → e.before.ring.pending = 255)
    (hlast : ∀ b, e.answer = .rejected b → e.before.ring.pending = 255) :
    ∀ e' ∈ history ++ [e], ∀ b, e'.answer = .rejected b → e'.before.ring.pending = 255 := by
  intro e' he'
  rcases List.mem_append.mp he' with hmem | hmem
  · exact hpast e' hmem
  · rw [List.mem_singleton.mp hmem]
    exact hlast

theorem fifo_of_run {history : History} {c : Consumer} (h : Interleaving history c) :
    Fifo history c := by
  induction h with
  | nil => exact ⟨trivial, rfl, rfl, by simp⟩
  | @snoc history c c' turn noted _ _ hstep ih =>
      obtain ⟨b, rfl, hpending, rfl⟩ | ⟨b, rfl, hfresh, hdropped, hbytes⟩ |
        ⟨b, rfl, hfresh, hdropped, hbytes⟩ | ⟨rfl, hfresh, hring⟩ := Consumer.step_cases ih.fresh hstep
      · refine ⟨ih.fresh, ?_, ?_, full_snoc ih.full fun _ _ => hpending⟩
        · rw [popped_append, accepted_append, ← ih.bytes]
          simp [popped, accepted]
          rfl
        · rw [rejected_append, List.length_append, ← ih.dropped]
          rfl
      · refine ⟨hfresh, ?_, ?_, full_snoc ih.full fun _ h => nomatch h⟩
        · rw [popped_append, accepted_append, ← ih.bytes, hbytes]
          simp [popped, accepted]
        · rw [rejected_append, List.length_append, ← ih.dropped, hdropped]
          rfl
      · refine ⟨hfresh, ?_, ?_, full_snoc ih.full fun _ h => nomatch h⟩
        · rw [popped_append, accepted_append, ← ih.bytes, hbytes]
          simp [popped, accepted]
        · rw [rejected_append, List.length_append, ← ih.dropped, hdropped]
          rfl
      · refine ⟨hfresh, ?_, ?_, full_snoc ih.full fun _ h => nomatch h⟩
        · rw [popped_append, accepted_append, ← ih.bytes, hring]
          simp [popped, accepted]
        · rw [rejected_append, List.length_append, ← ih.dropped, hring]
          rfl

-- In every interleaving the popped bytes and the waiting ones are the accepted ones, in
-- order, and only a full ring loses a byte, which it counts.
theorem ring_fifo (history : History) (c : Consumer) (h : Interleaving history c) :
    popped history ++ c.ring.bytes = accepted history ∧
      (∀ e ∈ history, ∀ b, e.answer = .rejected b → e.before.ring.pending = 255) ∧
      c.ring.dropped = (rejected history).length ∧
      (popped history).length + c.ring.pending = (accepted history).length ∧
      c.ring.pending ≤ 255 := by
  have hfifo := fifo_of_run h
  have hlength : (popped history).length + c.ring.pending = (accepted history).length := by
    rw [← hfifo.bytes, List.length_append, Ring.bytes_length]
  have hbound : c.ring.pending ≤ 255 := Nat.le_of_lt_succ c.ring.pending_lt
  exact ⟨hfifo.bytes, hfifo.full, hfifo.dropped, hlength, hbound⟩

-- A release arrives between the consumer's load of the tail and its load of the head.
theorem ring_fifo_late_push : ∃ history c, Interleaving history c ∧ popped history = [0x1E] ∧
    accepted history = [0x1E, 0x9E] ∧ c.ring.bytes = [0x9E] := by
  have hpush := take_turn .nil (.interrupt 0x1E) rfl
  have hload := take_turn hpush .main rfl
  have hlate := take_turn hload (.interrupt 0x9E) rfl
  have hpop := take_turn (take_turn (take_turn hlate .main rfl) .main rfl) .main rfl
  refine ⟨_, _, hpop, rfl, rfl, ?_⟩
  exact List.append_cancel_left (ring_fifo _ _ hpop).1

end Orin.Drivers.Keyboard
