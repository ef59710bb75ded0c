import Mathlib.Order.Basic

namespace Orin.Theory

variable {σ ι ο κ : Type} {step : σ → ι → σ × List ο} {s s' : σ} {u v : List ι}

-- A machine that answers each input with some outputs, over a whole input.
def feed (step : σ → ι → σ × List ο) : σ → List ι → σ × List ο
  | s, [] => (s, [])
  | s, i :: rest =>
      let later := feed step (step s i).1 rest
      (later.1, (step s i).2 ++ later.2)

theorem feed_singleton (i : ι) : feed step s [i] = step s i := by
  show ((step s i).1, (step s i).2 ++ []) = _
  rw [List.append_nil]

theorem feed_cons (i : ι) : feed step s (i :: v) =
    ((feed step (step s i).1 v).1, (step s i).2 ++ (feed step (step s i).1 v).2) := rfl

theorem feed_append : feed step s (u ++ v) =
    ((feed step (feed step s u).1 v).1, (feed step s u).2 ++ (feed step (feed step s u).1 v).2) := by
  induction u generalizing s with
  | nil => rfl
  | cons i u ih => rw [List.cons_append, feed_cons, ih, feed_cons, List.append_assoc]

-- Related states give outputs that look the same, if every input keeps them related.
theorem feed_outputs_eq {R : σ → σ → Prop} (look : ο → κ)
    (hstep : ∀ s s' i, R s s' →
      R (step s i).1 (step s' i).1 ∧ (step s i).2.map look = (step s' i).2.map look)
    (h : R s s') : (feed step s v).2.map look = (feed step s' v).2.map look := by
  induction v generalizing s s' with
  | nil => rfl
  | cons i v ih =>
      obtain ⟨hnext, hhere⟩ := hstep s s' i h
      rw [feed_cons, feed_cons, List.map_append, List.map_append, hhere, ih hnext]

section Along

variable {next : σ → ι → σ} {P Q : σ → ι → Prop}

-- Every step of a run, seen from the state it starts in.
def Along (next : σ → ι → σ) (P : σ → ι → Prop) : σ → List ι → Prop
  | _, [] => True
  | s, i :: rest => P s i ∧ Along next P (next s i) rest

theorem along_snoc (i : ι) : Along next P s (u ++ [i]) ↔ Along next P s u ∧ P (u.foldl next s) i := by
  induction u generalizing s with
  | nil => exact and_comm
  | cons j u ih => exact (and_congr_right fun _ => ih).trans and_assoc.symm

-- A condition that says the same as another one wherever an invariant holds.
theorem along_congr {I : σ → Prop} (hnext : ∀ s i, I s → I (next s i))
    (hPQ : ∀ s i, I s → i ∈ u → (P s i ↔ Q s i)) (hs : I s) : Along next P s u ↔ Along next Q s u := by
  induction u generalizing s with
  | nil => exact Iff.rfl
  | cons j u ih =>
      have hrest := ih (fun s i hi hmem => hPQ s i hi (List.mem_cons_of_mem j hmem)) (hnext s j hs)
      exact and_congr (hPQ s j hs List.mem_cons_self) hrest

end Along

-- The value the most recent of the inputs that count has set.
def latest (counts value : ι → Bool) (initial : Bool) (past : List ι) : Bool :=
  ((past.filter counts).getLast?.map value).getD initial

theorem latest_snoc {counts value : ι → Bool} {initial : Bool} {past : List ι} {i : ι} :
    latest counts value initial (past ++ [i]) =
      if counts i then value i else latest counts value initial past := by
  cases hi : counts i with
  | true => simp [latest, hi]
  | false => simp [latest, hi]

end Orin.Theory
