import Mathlib.Data.Finset.Sort

namespace Orin.Theory

variable {S : Finset ℕ} {c f : ℕ}

-- The first member at or above `c`, or the first of all when there is none.
def NextIn (S : Finset ℕ) (c f : ℕ) : Prop :=
  IsLeast {g | g ∈ S ∧ c ≤ g} f ∨ (∀ g ∈ S, g < c) ∧ IsLeast {g | g ∈ S} f

theorem NextIn.mem (h : NextIn S c f) : f ∈ S := by
  rcases h with h | ⟨-, h⟩
  · exact h.1.1
  · exact h.1

-- The members in the order a search finds them that goes up from `c` and comes round.
def around (S : Finset ℕ) (c : ℕ) : List ℕ :=
  (S.filter (c ≤ ·)).sort (· ≤ ·) ++ (S.filter (· < c)).sort (· ≤ ·)

theorem mem_around {g : ℕ} : g ∈ around S c ↔ g ∈ S := by
  simp only [around, List.mem_append, Finset.mem_sort, Finset.mem_filter]
  constructor
  · rintro (⟨h, -⟩ | ⟨h, -⟩) <;> exact h
  · intro h
    obtain hle | hlt := le_or_gt c g
    · exact .inl ⟨h, hle⟩
    · exact .inr ⟨h, hlt⟩

theorem nodup_around (S : Finset ℕ) (c : ℕ) : (around S c).Nodup := by
  refine (Finset.sort_nodup _ _).append (Finset.sort_nodup _ _) ?_
  intro g hg hg'
  have h1 := (Finset.mem_filter.mp ((Finset.mem_sort _).mp hg)).2
  have h2 := (Finset.mem_filter.mp ((Finset.mem_sort _).mp hg')).2
  omega

theorem length_around (S : Finset ℕ) (c : ℕ) : (around S c).length = S.card := by
  have hset : (around S c).toFinset = S := by
    ext g
    rw [List.mem_toFinset, mem_around]
  have hcard := List.toFinset_card_of_nodup (nodup_around S c)
  rw [hset] at hcard
  exact hcard.symm

-- A member above all the others comes last.
theorem sort_insert_last {T : Finset ℕ} (habove : ∀ g ∈ T, g ≤ f) (hf : f ∉ T) :
    (insert f T).sort (· ≤ ·) = T.sort (· ≤ ·) ++ [f] := by
  have hnodup : (T.sort (· ≤ ·) ++ [f]).Nodup := by
    refine (Finset.sort_nodup T _).append (List.nodup_singleton f) ?_
    intro g hg hg'
    rw [List.mem_singleton.mp hg', Finset.mem_sort] at hg
    exact hf hg
  have hset : (T.sort (· ≤ ·) ++ [f]).toFinset = insert f T := by
    ext g
    simp
  have hsorted : (T.sort (· ≤ ·) ++ [f]).Pairwise (· ≤ ·) := by
    refine List.pairwise_append.mpr ⟨Finset.pairwise_sort T _, List.pairwise_singleton _ f, ?_⟩
    intro g hg g' hg'
    rw [List.mem_singleton.mp hg']
    exact habove g ((Finset.mem_sort _).mp hg)
  rw [← hset]
  exact (List.toFinset_sort (· ≤ ·) hnodup).mpr hsorted

theorem exists_nextIn (h : S.Nonempty) (c : ℕ) : ∃ f, NextIn S c f := by
  by_cases hahead : (S.filter (c ≤ ·)).Nonempty
  · refine ⟨(S.filter (c ≤ ·)).min' hahead, .inl ⟨?_, fun g hg => ?_⟩⟩
    · exact Finset.mem_filter.mp (Finset.min'_mem _ hahead)
    · exact Finset.min'_le _ g (Finset.mem_filter.mpr hg)
  · refine ⟨S.min' h, .inr ⟨fun g hg => ?_, Finset.min'_mem S h, fun g hg => Finset.min'_le S g hg⟩⟩
    by_contra hge
    exact hahead ⟨g, Finset.mem_filter.mpr ⟨hg, Nat.not_lt.mp hge⟩⟩

-- Taking the next member and going on behind it turns the order by one.
theorem around_next (h : NextIn S c f) :
    ∃ rest, around S c = f :: rest ∧ around S (f + 1) = rest ++ [f] := by
  have hahead : f ∉ S.filter (f + 1 ≤ ·) := by simp
  have hcons : (insert f (S.filter (f + 1 ≤ ·))).sort (· ≤ ·) =
      f :: (S.filter (f + 1 ≤ ·)).sort (· ≤ ·) := by
    refine Finset.sort_insert _ (fun g hg => ?_) hahead
    exact Nat.le_of_succ_le (Finset.mem_filter.mp hg).2
  obtain ⟨⟨hf, hle⟩, hleast⟩ | ⟨hbelow, hf, hleast⟩ := h
  · have hhere : S.filter (c ≤ ·) = insert f (S.filter (f + 1 ≤ ·)) := by
      ext g
      simp only [Finset.mem_filter, Finset.mem_insert]
      constructor
      · rintro ⟨hg, hcg⟩
        have := hleast ⟨hg, hcg⟩
        by_cases heq : g = f
        · exact .inl heq
        · exact .inr ⟨hg, by omega⟩
      · rintro (rfl | ⟨hg, hlt⟩)
        · exact ⟨hf, hle⟩
        · exact ⟨hg, by omega⟩
    have hbehind : S.filter (· < f + 1) = insert f (S.filter (· < c)) := by
      ext g
      simp only [Finset.mem_filter, Finset.mem_insert]
      constructor
      · rintro ⟨hg, hlt⟩
        by_cases hcg : c ≤ g
        · have := hleast ⟨hg, hcg⟩
          exact .inl (by omega)
        · exact .inr ⟨hg, by omega⟩
      · rintro (rfl | ⟨hg, hlt⟩)
        · exact ⟨hf, by omega⟩
        · exact ⟨hg, by omega⟩
    have hlast : (insert f (S.filter (· < c))).sort (· ≤ ·) = (S.filter (· < c)).sort (· ≤ ·) ++ [f] :=
      sort_insert_last (fun g hg => by have := (Finset.mem_filter.mp hg).2; omega)
        (fun hmem => by have := (Finset.mem_filter.mp hmem).2; omega)
    refine ⟨(S.filter (f + 1 ≤ ·)).sort (· ≤ ·) ++ (S.filter (· < c)).sort (· ≤ ·), ?_, ?_⟩
    · rw [around, hhere, hcons, List.cons_append]
    · rw [around, hbehind, hlast, List.append_assoc]
  · -- nothing is left above: the search starts over
    have habove : S.filter (c ≤ ·) = ∅ := by
      refine Finset.filter_eq_empty_iff.mpr fun g hg => ?_
      exact Nat.not_le.mpr (hbelow g hg)
    have hall : S.filter (· < c) = insert f (S.filter (f + 1 ≤ ·)) := by
      ext g
      simp only [Finset.mem_filter, Finset.mem_insert]
      constructor
      · rintro ⟨hg, -⟩
        have := hleast hg
        by_cases heq : g = f
        · exact .inl heq
        · exact .inr ⟨hg, by omega⟩
      · rintro (rfl | ⟨hg, -⟩)
        · exact ⟨hf, hbelow _ hf⟩
        · exact ⟨hg, hbelow g hg⟩
    have hfirst : S.filter (· < f + 1) = {f} := by
      ext g
      simp only [Finset.mem_filter, Finset.mem_singleton]
      constructor
      · rintro ⟨hg, hlt⟩
        have := hleast hg
        omega
      · rintro rfl
        exact ⟨hf, by omega⟩
    refine ⟨(S.filter (f + 1 ≤ ·)).sort (· ≤ ·), ?_, ?_⟩
    · rw [around, habove, hall, hcons, Finset.sort_empty, List.nil_append]
    · rw [around, hfirst, Finset.sort_singleton]

end Orin.Theory
