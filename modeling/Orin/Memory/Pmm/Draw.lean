import Orin.Memory.Pmm.Canary
import Orin.Memory.Pmm.Fit

namespace Orin.Memory.Pmm

open Rust Bitmap Theory

-- What `n` calls of `allocate_frame` answer, up to the first that finds nothing.
def draw : Nat → State → Except Panic (List PhysFrame × State)
  | 0, p => .ok ([], p)
  | n + 1, p => do
      match ← p.allocate_frame with
      | (none, p) => return ([], p)
      | (some frame, p) =>
          let (rest, p) ← draw n p
          return (frame :: rest, p)

variable {p : State} {owned : Multiset Nat} {L : Ledger Nat}

-- A single frame is refused only when there is none.
theorem Books.allocate_frame_cases (h : Books ⟨p, owned⟩ L) :
    (L.free = ∅ ∧ p.allocate_frame = .ok (none, p)) ∨
    ∃ f p', ∃ hf : {f} ⊆ L.free, p.allocate_frame = .ok (some (.ofIndex f), p') ∧
      Books ⟨p', owned + {f}⟩ (L.handOut {f} hf) ∧ p'.memory = p.memory := by
  obtain ⟨answer, p', hr, hanswer⟩ : ∃ answer p', p.allocate_contiguous 1 1 = .ok (answer, p') ∧
      Answered p 1 1 (answer.map PhysFrame.index) p' :=
    contiguous_answers ⟨h.counted, h.initialised⟩ (by decide) (by decide)
  cases answer with
  | none =>
      refine .inl ⟨h.free ▸ hanswer.eq_empty_of_none, ?_⟩
      obtain ⟨rfl, -⟩ := hanswer
      exact hr
  | some frame =>
      have hone : handed .allocate_frame (some frame) = {frame.index} := by
        simp [handed, Op.count]
      obtain ⟨L', hmoved, hb⟩ := h.answered .allocate_frame trivial hanswer
      cases hmoved with
      | granted =>
          rename_i hsub
          simp only [hone] at hsub hb
          refine .inr ⟨frame.index, p', hsub, ?_, hb, hanswer.memory_eq⟩
          rw [PhysFrame.ofIndex_index]
          exact hr

-- As many frames as there are, each once. The books move the drawn ones to their new owner.
theorem Books.draw (h : Books ⟨p, owned⟩ L) (n : Nat) :
    ∃ (taken : List Nat) (p' : State), ∃ hsub : taken.toFinset ⊆ L.free,
      Pmm.draw n p = .ok (taken.map .ofIndex, p') ∧ taken.length = min n L.free.card ∧
      taken.Nodup ∧ Books ⟨p', owned + taken⟩ (L.handOut taken.toFinset hsub) ∧
      p'.memory = p.memory := by
  induction n generalizing p owned L with
  | zero =>
      refine ⟨[], p, by simp, rfl, by simp, List.nodup_nil, ?_, rfl⟩
      simpa [Ledger.handOut] using h
  | succ n ih =>
      rcases h.allocate_frame_cases with ⟨hnone, hr⟩ | ⟨f, p₁, hf, hr, hb, hmemory⟩
      · refine ⟨[], p, by simp, ?_, by simp [hnone], List.nodup_nil, ?_, rfl⟩
        · rw [Pmm.draw, hr]
          rfl
        · simpa [Ledger.handOut] using h
      · obtain ⟨taken, p', hsub, hdraw, hlength, hnodup, hb', hmemory'⟩ := ih hb
        have hmem : f ∈ L.free := Finset.singleton_subset_iff.mp hf
        have hnew : f ∉ taken := fun hin => by
          simpa [Ledger.handOut] using hsub (List.mem_toFinset.mpr hin)
        refine ⟨f :: taken, p', ?_, ?_, ?_, List.nodup_cons.mpr ⟨hnew, hnodup⟩, ?_,
          hmemory'.trans hmemory⟩
        · rw [List.toFinset_cons, Finset.insert_subset_iff]
          exact ⟨hmem, hsub.trans Finset.sdiff_subset⟩
        · rw [Pmm.draw, hr, ok_bind]
          dsimp only
          rw [hdraw]
          rfl
        · have hcard : (L.handOut {f} hf).free.card = L.free.card - 1 := by
            change (L.free \ {f}).card = _
            rw [Finset.sdiff_singleton_eq_erase, Finset.card_erase_of_mem hmem]
          have hpos := Finset.card_pos.mpr ⟨f, hmem⟩
          rw [List.length_cons, hlength, hcard]
          omega
        · have hall : owned + ({f} : Multiset Nat) + taken = owned + ((f :: taken : List Nat) : Multiset Nat) := by
            rw [add_assoc, Multiset.singleton_add, Multiset.cons_coe]
          rw [← hall]
          convert hb' using 1
          rw [Ledger.handOut_handOut]
          congr 1
          rw [List.toFinset_cons, Finset.insert_eq]

theorem Books.draw_append (h : Books ⟨p, owned⟩ L) (k n : Nat) :
    Pmm.draw (k + n) p = (do
      let (first, p) ← Pmm.draw k p
      let (rest, p) ← Pmm.draw n p
      return (first ++ rest, p)) := by
  induction k generalizing p owned L with
  | zero =>
      rw [Nat.zero_add, Pmm.draw, ok_bind]
      dsimp only
      cases Pmm.draw n p <;> rfl
  | succ k ih =>
      rw [Nat.add_right_comm, Pmm.draw, Pmm.draw]
      rcases h.allocate_frame_cases with ⟨-, hr⟩ | ⟨f, p₁, hf, hr, hb, -⟩
      · rw [hr]
        simp only [ok_bind, pure, Except.pure]
        cases n with
        | zero => rfl
        | succ n =>
            rw [Pmm.draw, hr]
            rfl
      · rw [hr]
        simp only [ok_bind]
        rw [ih hb]
        cases Pmm.draw k p₁ with
        | error e => rfl
        | ok x =>
            simp only [ok_bind, pure, Except.pure]
            cases Pmm.draw n x.2 <;> rfl

-- What the frames contain has no part in the choice.
theorem draw_memory (w : Nat → Word) (n : Nat) (p : State) :
    draw n { p with memory := w } =
      (draw n p).map fun r => (r.1, { r.2 with memory := w }) := by
  induction n generalizing p with
  | zero => rfl
  | succ n ih =>
      rw [draw, draw, State.allocate_frame, State.allocate_frame, allocate_contiguous_memory]
      cases p.allocate_contiguous 1 1 with
      | error e => rfl
      | ok r =>
          obtain ⟨answer, p'⟩ := r
          cases answer with
          | none => rfl
          | some frame =>
              simp only [Except.map, ok_bind, ih]
              cases draw n p' <;> rfl

end Orin.Memory.Pmm
