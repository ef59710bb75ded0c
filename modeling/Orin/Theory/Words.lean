import Mathlib.Algebra.Order.BigOperators.Group.List
import Mathlib.Algebra.Order.Ring.Nat
import Mathlib.Data.List.DropRight

namespace Orin.Theory

variable {α : Type} (p : α → Bool)

-- The maximal runs without a separator.
def words (xs : List α) : List (List α) := (xs.splitOnP p).filter (· ≠ [])

-- No word reaches over the end of `lead`.
def ClosedEnd (lead : List α) : Prop := lead = [] ∨ ∃ init c, lead = init ++ [c] ∧ p c = true

def ClosedStart (tail : List α) : Prop := tail = [] ∨ ∃ c rest, tail = c :: rest ∧ p c = true

def Solid (w : List α) : Prop := ∀ c ∈ w, p c = false

variable {p} {xs ys lead tail w : List α}

theorem words_nil : words p ([] : List α) = [] := by
  simp [words]

theorem words_append_sep {c : α} (hc : p c = true) :
    words p (xs ++ c :: ys) = words p xs ++ words p ys := by
  rw [words, List.splitOnP_append_cons xs ys hc, List.filter_append]
  rfl

theorem words_cons_sep {c : α} (hc : p c = true) : words p (c :: ys) = words p ys := by
  have h := @words_append_sep α p [] ys c hc
  rwa [List.nil_append, words_nil, List.nil_append] at h

theorem words_append_of_closedEnd (h : ClosedEnd p lead) :
    words p (lead ++ ys) = words p lead ++ words p ys := by
  obtain rfl | ⟨init, c, rfl, hc⟩ := h
  · rw [words_nil]
    rfl
  · rw [List.append_assoc, List.singleton_append, words_append_sep hc, words_append_sep hc, words_nil,
      List.append_nil]

theorem words_append_of_closedStart (h : ClosedStart p tail) :
    words p (xs ++ tail) = words p xs ++ words p tail := by
  obtain rfl | ⟨c, rest, rfl, hc⟩ := h
  · rw [words_nil, List.append_nil, List.append_nil]
  · rw [words_append_sep hc, words_cons_sep hc]

theorem words_solid (h : Solid p w) (hne : w ≠ []) : words p w = [w] := by
  rw [words, List.splitOnP_eq_singleton h]
  simp [hne]

theorem solid_of_mem_splitOnP (h : w ∈ xs.splitOnP p) : Solid p w := by
  induction xs generalizing w with
  | nil =>
      rw [List.splitOnP_nil, List.mem_singleton] at h
      subst h
      exact fun c hc => absurd hc List.not_mem_nil
  | cons x xs ih =>
      rw [List.splitOnP_cons_eq_if_modifyHead] at h
      split at h
      · rcases List.mem_cons.mp h with rfl | h
        · exact fun c hc => absurd hc List.not_mem_nil
        · exact ih h
      · rename_i hx
        obtain ⟨v, vs, hsplit⟩ := List.exists_cons_of_ne_nil (List.splitOnP_ne_nil p xs)
        rw [hsplit, List.modifyHead_cons] at h
        rw [hsplit] at ih
        rcases List.mem_cons.mp h with rfl | h
        · intro c hc
          rcases List.mem_cons.mp hc with rfl | hc
          · simpa using hx
          · exact ih List.mem_cons_self c hc
        · exact ih (List.mem_cons_of_mem _ h)

theorem solid_of_mem_words (h : w ∈ words p xs) : Solid p w ∧ w ≠ [] := by
  obtain ⟨hmem, hne⟩ := List.mem_filter.mp h
  exact ⟨solid_of_mem_splitOnP hmem, by simpa using hne⟩

-- A word between two closed ends is one of the words.
theorem words_between (hlead : ClosedEnd p lead) (hsolid : Solid p w) (hne : w ≠ [])
    (htail : ClosedStart p tail) :
    words p (lead ++ w ++ tail) = words p lead ++ w :: words p tail := by
  rw [words_append_of_closedStart htail, words_append_of_closedEnd hlead, words_solid hsolid hne,
    List.append_assoc, List.singleton_append]

-- Every list is closed up to its last unfinished word.
theorem exists_lead (p : α → Bool) (xs : List α) :
    ∃ lead w, xs = lead ++ w ∧ ClosedEnd p lead ∧ Solid p w := by
  refine ⟨xs.rdropWhile (!p ·), xs.rtakeWhile (!p ·), List.rdropWhile_append_rtakeWhile.symm, ?_, ?_⟩
  · by_cases hnil : xs.rdropWhile (!p ·) = []
    · exact .inl hnil
    · have hlast := List.rdropWhile_last_not (!p ·) xs hnil
      refine .inr ⟨_, _, (List.dropLast_append_getLast hnil).symm, ?_⟩
      simpa using hlast
  · intro c hc
    simpa using List.mem_rtakeWhile_imp hc

theorem exists_tail (p : α → Bool) (xs : List α) :
    ∃ w tail, xs = w ++ tail ∧ Solid p w ∧ ClosedStart p tail := by
  refine ⟨xs.takeWhile (!p ·), xs.dropWhile (!p ·), List.takeWhile_append_dropWhile.symm, ?_, ?_⟩
  · intro c hc
    simpa using List.mem_takeWhile_imp hc
  · cases hdrop : xs.dropWhile (!p ·) with
    | nil => exact .inl rfl
    | cons c rest =>
        have hhead := List.head_dropWhile_not (!p ·) (l := xs) (by simp [hdrop])
        refine .inr ⟨c, rest, rfl, ?_⟩
        simpa [hdrop] using hhead

section Join

theorem intercalate_cons_of_ne_nil {sep : List α} {ws : List (List α)} (h : ws ≠ []) :
    sep.intercalate (w :: ws) = w ++ (sep ++ sep.intercalate ws) := by
  obtain ⟨v, ws, rfl⟩ := List.exists_cons_of_ne_nil h
  rw [List.intercalate_cons_cons, List.append_assoc]

-- Words that are joined by a separator can be split again.
theorem words_intercalate {c : α} (hc : p c = true) {ws : List (List α)}
    (h : ∀ w ∈ ws, Solid p w ∧ w ≠ []) : words p ([c].intercalate ws) = ws := by
  induction ws with
  | nil => exact words_nil
  | cons w ws ih =>
      obtain ⟨hsolid, hne⟩ := h w List.mem_cons_self
      by_cases hws : ws = []
      · subst hws
        rw [List.intercalate_singleton, words_solid hsolid hne]
      · rw [intercalate_cons_of_ne_nil hws, List.singleton_append, words_append_sep hc,
          words_solid hsolid hne, ih fun v hv => h v (List.mem_cons_of_mem _ hv), List.singleton_append]

variable (g : α → Nat)

-- Each word counted with one separator.
def bulk (ws : List (List α)) : Nat := (ws.map fun w => (w.map g).sum + 1).sum

variable {g}

theorem bulk_splitOnP (hsep : ∀ c, p c = true → 1 ≤ g c) (xs : List α) :
    bulk g (xs.splitOnP p) ≤ (xs.map g).sum + 1 := by
  induction xs with
  | nil => simp [bulk]
  | cons c xs ih =>
      rw [List.splitOnP_cons_eq_if_modifyHead, List.map_cons, List.sum_cons]
      split
      · rename_i hc
        have hone := hsep c hc
        have hhead : bulk g ([] :: xs.splitOnP p) = 1 + bulk g (xs.splitOnP p) := by simp [bulk]
        omega
      · obtain ⟨w, ws, hsplit⟩ := List.exists_cons_of_ne_nil (List.splitOnP_ne_nil p xs)
        rw [hsplit] at ih ⊢
        simp only [bulk, List.modifyHead_cons, List.map_cons, List.sum_cons] at ih ⊢
        omega

theorem bulk_sublist {us vs : List (List α)} (h : us.Sublist vs) : bulk g us ≤ bulk g vs :=
  (h.map _).sum_le_sum fun _ _ => Nat.zero_le _

theorem bulk_intercalate {c : α} (hc : g c = 1) (ws : List (List α)) :
    (([c].intercalate ws).map g).sum ≤ bulk g ws - 1 := by
  induction ws with
  | nil => exact Nat.zero_le _
  | cons w ws ih =>
      by_cases hws : ws = []
      · subst hws
        simp [bulk]
      · have hpos : 1 ≤ bulk g ws := by
          obtain ⟨v, ws, rfl⟩ := List.exists_cons_of_ne_nil hws
          simp only [bulk, List.map_cons, List.sum_cons]
          omega
        have hcons : bulk g (w :: ws) = (w.map g).sum + 1 + bulk g ws := by simp [bulk]
        rw [intercalate_cons_of_ne_nil hws, List.map_append, List.sum_append, List.map_append,
          List.sum_append, List.map_singleton, List.sum_singleton, hc]
        omega

-- Some of the words, joined again, are not longer than the text they come from.
theorem intercalate_words_le (hsep : ∀ c, p c = true → 1 ≤ g c) {c : α} (hc : g c = 1)
    {us : List (List α)} (h : us.Sublist (words p xs)) :
    (([c].intercalate us).map g).sum ≤ (xs.map g).sum := by
  have h1 := bulk_intercalate hc us
  have h2 := bulk_sublist (g := g) (h.trans List.filter_sublist)
  have h3 := bulk_splitOnP hsep xs
  omega

end Join

end Orin.Theory
