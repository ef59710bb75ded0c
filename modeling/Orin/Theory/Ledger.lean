import Mathlib.Data.Finset.Card
import Mathlib.Data.Finset.Disjoint

namespace Orin.Theory

variable {α : Type} [DecidableEq α]

-- Who has each unit of a resource: it is free, handed out to an owner, or withheld
-- for good. No unit is in two of the three places.
structure Ledger (α : Type) [DecidableEq α] where
  free : Finset α
  owned : Finset α
  withheld : Finset α
  free_owned : Disjoint free owned
  free_withheld : Disjoint free withheld
  owned_withheld : Disjoint owned withheld

namespace Ledger

def all (L : Ledger α) : Finset α := L.free ∪ L.owned ∪ L.withheld

-- Everything starts free.
def ofFree (free : Finset α) : Ledger α where
  free := free
  owned := ∅
  withheld := ∅
  free_owned := Finset.disjoint_empty_right _
  free_withheld := Finset.disjoint_empty_right _
  owned_withheld := Finset.disjoint_empty_right _

-- Of the units asked for, those that are free are withheld; the others stay.
def withdraw (L : Ledger α) (units : Finset α) : Ledger α where
  free := L.free \ units
  owned := L.owned
  withheld := L.withheld ∪ L.free ∩ units
  free_owned := L.free_owned.mono_left Finset.sdiff_subset
  free_withheld := by
    rw [Finset.disjoint_union_right]
    refine ⟨L.free_withheld.mono_left Finset.sdiff_subset, ?_⟩
    exact Finset.sdiff_disjoint.mono_right Finset.inter_subset_right
  owned_withheld := by
    rw [Finset.disjoint_union_right]
    exact ⟨L.owned_withheld, L.free_owned.symm.mono_right Finset.inter_subset_left⟩

def handOut (L : Ledger α) (units : Finset α) (h : units ⊆ L.free) : Ledger α where
  free := L.free \ units
  owned := L.owned ∪ units
  withheld := L.withheld
  free_owned := by
    rw [Finset.disjoint_union_right]
    exact ⟨L.free_owned.mono_left Finset.sdiff_subset, Finset.sdiff_disjoint⟩
  free_withheld := L.free_withheld.mono_left Finset.sdiff_subset
  owned_withheld := by
    rw [Finset.disjoint_union_left]
    exact ⟨L.owned_withheld, L.free_withheld.mono_left h⟩

theorem handOut_handOut (L : Ledger α) {a b : Finset α} (ha : a ⊆ L.free)
    (hb : b ⊆ (L.handOut a ha).free) : (L.handOut a ha).handOut b hb =
      L.handOut (a ∪ b) (Finset.union_subset ha (hb.trans Finset.sdiff_subset)) := by
  simp only [handOut, mk.injEq, and_true]
  exact ⟨sdiff_sdiff_left, Finset.union_assoc _ _ _⟩

def giveBack (L : Ledger α) (unit : α) (h : unit ∈ L.owned) : Ledger α where
  free := insert unit L.free
  owned := L.owned.erase unit
  withheld := L.withheld
  free_owned := by
    rw [Finset.disjoint_insert_left]
    exact ⟨Finset.notMem_erase _ _, L.free_owned.mono_right (Finset.erase_subset _ _)⟩
  free_withheld := by
    rw [Finset.disjoint_insert_left]
    exact ⟨Finset.disjoint_left.mp L.owned_withheld h, L.free_withheld⟩
  owned_withheld := L.owned_withheld.mono_left (Finset.erase_subset _ _)

theorem card_all (L : Ledger α) : L.all.card = L.free.card + L.owned.card + L.withheld.card := by
  have hdisj : Disjoint (L.free ∪ L.owned) L.withheld := by
    rw [Finset.disjoint_union_left]
    exact ⟨L.free_withheld, L.owned_withheld⟩
  rw [all, Finset.card_union_of_disjoint hdisj, Finset.card_union_of_disjoint L.free_owned]

-- The moves of the ledger. Nothing leaves `withheld`, and nothing is created or lost.
inductive Move : Ledger α → Ledger α → Prop
  | stay (L : Ledger α) : Move L L
  | withdraw (L : Ledger α) (units : Finset α) : Move L (L.withdraw units)
  | handOut (L : Ledger α) (units : Finset α) (h : units ⊆ L.free) : Move L (L.handOut units h)
  | giveBack (L : Ledger α) (unit : α) (h : unit ∈ L.owned) : Move L (L.giveBack unit h)

theorem Move.all_eq {L L' : Ledger α} (h : Move L L') : L'.all = L.all := by
  cases h with
  | stay => rfl
  | withdraw units =>
      ext a
      simp only [Ledger.all, Ledger.withdraw, Finset.mem_union, Finset.mem_sdiff, Finset.mem_inter]
      tauto
  | handOut units h =>
      ext a
      have := @h a
      simp only [Ledger.all, Ledger.handOut, Finset.mem_union, Finset.mem_sdiff]
      tauto
  | giveBack unit h =>
      ext a
      simp only [Ledger.all, Ledger.giveBack, Finset.mem_union, Finset.mem_insert, Finset.mem_erase]
      by_cases ha : a = unit
      · subst ha
        simp [h]
      · simp [ha]

theorem Move.withheld_subset {L L' : Ledger α} (h : Move L L') : L.withheld ⊆ L'.withheld := by
  cases h with
  | stay => exact Finset.Subset.refl _
  | withdraw units => exact Finset.subset_union_left
  | handOut units h => exact Finset.Subset.refl _
  | giveBack unit h => exact Finset.Subset.refl _

-- What is out of circulation stays out of it.
theorem Move.circulating_subset {L L' : Ledger α} (h : Move L L') :
    L'.free ∪ L'.owned ⊆ L.free ∪ L.owned := by
  cases h with
  | stay => exact Finset.Subset.refl _
  | withdraw units => exact Finset.union_subset_union Finset.sdiff_subset (Finset.Subset.refl _)
  | handOut units h =>
      intro a
      have := @h a
      simp only [Ledger.handOut, Finset.mem_union, Finset.mem_sdiff]
      tauto
  | giveBack unit h =>
      intro a
      simp only [Ledger.giveBack, Finset.mem_union, Finset.mem_insert, Finset.mem_erase]
      rintro ((rfl | ha) | ha)
      · exact .inr h
      · exact .inl ha
      · exact .inr ha.2

end Ledger

end Orin.Theory
