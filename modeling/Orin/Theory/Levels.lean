import Orin.Theory.Radix
import Mathlib.Algebra.Order.BigOperators.Group.Finset

namespace Orin.Theory.Levels

open Radix (Slot Mem)

-- Tables in which every level reads its entries in its own way: the list gives the reading of
-- each level, from the root down.
section Lookup

variable {A I E : Type} (mem : Mem A I E)

-- The entries a lookup passes, the last of them the page.
def trail : List (E → Slot A) → List I → A → Option (List E)
  | slot :: levels, i :: path, a =>
      match slot (mem a i) with
      | .empty => none
      | .leaf => some [mem a i]
      | .table b => (trail levels path b).map (mem a i :: ·)
  | _, _, _ => none

-- The entry a lookup ends at, with the part of the path below it.
def find : List (E → Slot A) → List I → A → Option (E × List I)
  | slot :: levels, i :: path, a =>
      match slot (mem a i) with
      | .empty => none
      | .leaf => some (mem a i, path)
      | .table b => find levels path b
  | _, _, _ => none

variable {mem} {slot : E → Slot A} {levels : List (E → Slot A)} {path : List I} {a b : A} {i : I}

theorem find_empty (h : slot (mem a i) = .empty) :
    find mem (slot :: levels) (i :: path) a = none := by
  rw [find, h]

theorem find_leaf (h : slot (mem a i) = .leaf) :
    find mem (slot :: levels) (i :: path) a = some (mem a i, path) := by
  rw [find, h]

theorem find_table (h : slot (mem a i) = .table b) :
    find mem (slot :: levels) (i :: path) a = find mem levels path b := by
  rw [find, h]

theorem find_mem_trail {es : List E} (h : trail mem levels path a = some es) :
    ∃ e ∈ es, ∃ rest, find mem levels path a = some (e, rest) := by
  induction levels generalizing path a es with
  | nil => cases h
  | cons slot levels ih =>
      cases path with
      | nil => cases h
      | cons i path =>
          rw [trail] at h
          cases hslot : slot (mem a i) with
          | empty =>
              rw [hslot] at h
              cases h
          | leaf =>
              rw [hslot] at h
              cases h
              exact ⟨mem a i, List.mem_singleton_self _, path, find_leaf hslot⟩
          | table b =>
              rw [hslot] at h
              obtain ⟨passed, hpassed, rfl⟩ := Option.map_eq_some_iff.mp h
              obtain ⟨e, he, rest, hfind⟩ := ih hpassed
              exact ⟨e, List.mem_cons_of_mem _ he, rest, (find_table hslot).trans hfind⟩

end Lookup

section Tables

variable {A E : Type} (mem : Mem A Nat E) (n : Nat)

-- Every table below `a`, `a` included, has the property.
def All (P : A → Prop) : List (E → Slot A) → A → Prop
  | [], _ => True
  | slot :: levels, a => P a ∧ ∀ i < n, ∀ b, slot (mem a i) = .table b → All P levels b

variable (bad : E → Bool)

def weight (below : A → Nat) (e : E) : Slot A → Nat
  | .empty => 0
  | .leaf => (bad e).toNat
  | .table b => below b

-- The number of bad pages, each counted as often as the tables lead to it.
def count : List (E → Slot A) → A → Nat
  | [], _ => 0
  | slot :: levels, a =>
      ∑ i ∈ Finset.range n, weight bad (count levels) (mem a i) (slot (mem a i))

variable {mem n bad}

theorem count_le (hn : 0 < n) (levels : List (E → Slot A)) (a : A) :
    count mem n bad levels a ≤ n ^ levels.length := by
  induction levels generalizing a with
  | nil => exact Nat.zero_le _
  | cons slot levels ih =>
      have hone : 1 ≤ n ^ levels.length := Nat.one_le_pow _ _ hn
      have hweight : ∀ i ∈ Finset.range n,
          weight bad (count mem n bad levels) (mem a i) (slot (mem a i)) ≤ n ^ levels.length := by
        intro i _
        cases slot (mem a i) with
        | empty => exact Nat.zero_le _
        | leaf => exact (Bool.toNat_le _).trans hone
        | table b => exact ih b
      calc count mem n bad (slot :: levels) a
          ≤ (Finset.range n).card • n ^ levels.length := Finset.sum_le_card_nsmul _ _ _ hweight
        _ = n ^ (slot :: levels).length := by
            rw [Finset.card_range, Nat.nsmul_eq_mul, List.length_cons, Nat.pow_succ, Nat.mul_comm]

-- The count is zero exactly when no full path ends at a bad page.
theorem count_eq_zero_iff (hn : 0 < n) (levels : List (E → Slot A)) (a : A) :
    count mem n bad levels a = 0 ↔
      ∀ path, path.length = levels.length → (∀ i ∈ path, i < n) →
        ∀ e rest, find mem levels path a = some (e, rest) → bad e = false := by
  induction levels generalizing a with
  | nil =>
      refine ⟨fun _ path _ _ e rest hfind => ?_, fun _ => rfl⟩
      cases hfind
  | cons slot levels ih =>
      rw [count, Finset.sum_eq_zero_iff]
      constructor
      · intro hzero path hlen hpath e rest hfind
        obtain ⟨i, path, rfl⟩ : ∃ i rest, path = i :: rest := List.exists_cons_of_length_eq_add_one hlen
        have hi := hzero i (Finset.mem_range.mpr (hpath i List.mem_cons_self))
        cases hslot : slot (mem a i) with
        | empty =>
            rw [find_empty hslot] at hfind
            cases hfind
        | leaf =>
            rw [hslot, weight, Bool.toNat_eq_zero] at hi
            rw [find_leaf hslot] at hfind
            cases hfind
            exact hi
        | table b =>
            rw [hslot, weight] at hi
            rw [find_table hslot] at hfind
            exact (ih b).mp hi path (Nat.succ.inj hlen) (fun j hj => hpath j (List.mem_cons_of_mem _ hj))
              e rest hfind
      · intro hgood i hi
        have hi := Finset.mem_range.mp hi
        cases hslot : slot (mem a i) with
        | empty => rfl
        | leaf =>
            -- any path that starts with the index ends here
            have he := hgood (i :: List.replicate levels.length 0) (by simp)
              (by rintro j (_ | ⟨_, hj⟩)
                  · exact hi
                  · rw [List.eq_of_mem_replicate hj]
                    exact hn)
              _ _ (find_leaf hslot)
            rw [weight, he]
            rfl
        | table b =>
            refine (ih b).mpr fun path hlen hpath e rest hfind => ?_
            refine hgood (i :: path) (by rw [List.length_cons, hlen, List.length_cons]) ?_ e rest
              ((find_table hslot).trans hfind)
            rintro j (_ | ⟨_, hj⟩)
            · exact hi
            · exact hpath j hj

end Tables

end Orin.Theory.Levels
