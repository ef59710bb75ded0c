import Mathlib.Data.Finset.Card
import Mathlib.Data.Finset.Range
import Mathlib.Order.Bounds.Basic

namespace Orin.Bitmap

section Search

variable {P Q : Nat → Prop} {lo mid hi : Nat}

-- What a bounded linear search promises: the least index in range that has the
-- property, or the assurance that none has.
def Least (P : Nat → Prop) (lo hi : Nat) : Option Nat → Prop
  | some i => lo ≤ i ∧ i < hi ∧ P i ∧ ∀ j, lo ≤ j → j < i → ¬ P j
  | none => ∀ j, lo ≤ j → j < hi → ¬ P j

theorem Least.skip {r : Option Nat} (hlo : lo ≤ mid) (hnone : ∀ j, lo ≤ j → j < mid → ¬ P j)
    (h : Least P mid hi r) : Least P lo hi r := by
  cases r with
  | none =>
      intro j h1 h2
      by_cases hj : j < mid
      · exact hnone j h1 hj
      · exact h j (by omega) h2
  | some i =>
      obtain ⟨h1, h2, hi, hmin⟩ := h
      refine ⟨by omega, h2, hi, fun j h3 h4 => ?_⟩
      by_cases hj : j < mid
      · exact hnone j h3 hj
      · exact hmin j (by omega) h4

theorem Least.extend {i : Nat} (hhi : mid ≤ hi) (h : Least P lo mid (some i)) :
    Least P lo hi (some i) :=
  ⟨h.1, Nat.lt_of_lt_of_le h.2.1 hhi, h.2.2⟩

-- Lowering the bound loses nothing when the part cut off holds no hit.
theorem Least.shrink {r : Option Nat} (hmid : mid ≤ hi) (hnone : ∀ j, mid ≤ j → j < hi → ¬ P j)
    (h : Least P lo hi r) : Least P lo mid r := by
  cases r with
  | none => exact fun j h1 h2 => h j h1 (by omega)
  | some i =>
      obtain ⟨h1, h2, hi, hmin⟩ := h
      have hlt : i < mid := by
        by_contra hge
        exact hnone i (by omega) h2 hi
      exact ⟨h1, hlt, hi, hmin⟩

theorem Least.congr {r : Option Nat} (hPQ : ∀ j, lo ≤ j → j < hi → (P j ↔ Q j))
    (h : Least P lo hi r) : Least Q lo hi r := by
  cases r with
  | none => exact fun j h1 h2 => mt (hPQ j h1 h2).mpr (h j h1 h2)
  | some i =>
      obtain ⟨h1, h2, hi, hmin⟩ := h
      exact ⟨h1, h2, (hPQ i h1 h2).mp hi, fun j h3 h4 =>
        mt (hPQ j h3 (by omega)).mpr (hmin j h3 h4)⟩

-- The same promise for each answer.
theorem least_iff_isLeast {r : Option Nat} : Least P lo hi r ↔
    (∀ i, r = some i ↔ IsLeast {j | lo ≤ j ∧ j < hi ∧ P j} i) ∧
      (r = none ↔ {j | lo ≤ j ∧ j < hi ∧ P j} = ∅) := by
  cases r with
  | none =>
      constructor
      · intro hnone
        have hempty : {j | lo ≤ j ∧ j < hi ∧ P j} = ∅ :=
          Set.eq_empty_of_forall_notMem fun j hj => hnone j hj.1 hj.2.1 hj.2.2
        refine ⟨fun i => ⟨nofun, fun h => ?_⟩, fun _ => hempty, fun _ => rfl⟩
        exact absurd h.1 (hempty ▸ Set.notMem_empty i)
      · rintro ⟨-, hempty⟩ j h1 h2 hj
        have hmem : j ∈ {j | lo ≤ j ∧ j < hi ∧ P j} := ⟨h1, h2, hj⟩
        rw [hempty.mp rfl] at hmem
        exact hmem
  | some i =>
      constructor
      · rintro ⟨h1, h2, hP, hmin⟩
        have hleast : IsLeast {j | lo ≤ j ∧ j < hi ∧ P j} i := by
          refine ⟨⟨h1, h2, hP⟩, fun j hj => ?_⟩
          by_contra hlt
          exact hmin j hj.1 (by omega) hj.2.2
        refine ⟨fun k => ⟨?_, fun hk => congrArg some (hleast.unique hk)⟩, nofun, fun hempty => ?_⟩
        · rintro ⟨⟩
          exact hleast
        · exact absurd hleast.1 (hempty ▸ Set.notMem_empty i)
      · rintro ⟨hsome, -⟩
        obtain ⟨⟨h1, h2, hP⟩, hmin⟩ := (hsome i).mp rfl
        refine ⟨h1, h2, hP, fun j h3 h4 hj => ?_⟩
        have hle := hmin ⟨h3, by omega, hj⟩
        omega

end Search

abbrev Word := BitVec 64

variable {n : Nat}

-- Bit `i` of the map, least significant bit of the first word first.
def bit (map : Vector Word n) (i : Nat) : Bool :=
  if h : i / 64 < n then map[i / 64].getLsbD (i % 64) else false

def members (map : Vector Word n) : Finset Nat :=
  (Finset.range (64 * n)).filter fun i => bit map i = true

theorem lt_of_bit {map : Vector Word n} {i : Nat} (h : bit map i = true) : i < 64 * n := by
  unfold bit at h
  split at h
  · omega
  · cases h

@[simp] theorem mem_members {map : Vector Word n} {i : Nat} :
    i ∈ members map ↔ bit map i = true := by
  simp only [members, Finset.mem_filter, Finset.mem_range]
  exact ⟨And.right, fun h => ⟨lt_of_bit h, h⟩⟩

theorem bit_replicate_zero (i : Nat) : bit (Vector.replicate n (0 : Word)) i = false := by
  unfold bit
  split <;> simp

theorem getLsbD_one_shl (k j : Nat) (hk : k < 64) : (1#64 <<< k).getLsbD j = decide (k = j) := by
  rw [← BitVec.twoPow_eq, BitVec.getLsbD_twoPow]
  simp [hk]

-- A write of the word holding bit `i` that changes only that bit of the word
-- changes only that bit of the map.
theorem bit_set_word (map : Vector Word n) (i j : Nat) (hi : i / 64 < n) (w : Word) (b : Bool)
    (hw : ∀ k, k < 64 → w.getLsbD k = if i % 64 = k then b else map[i / 64].getLsbD k) :
    bit (map.set (i / 64) w) j = if i = j then b else bit map j := by
  unfold bit
  by_cases hj : j / 64 < n
  · simp only [hj, dite_true]
    by_cases he : i / 64 = j / 64
    · have hk := hw (j % 64) (Nat.mod_lt _ (by omega))
      have hmod : i % 64 = j % 64 ↔ i = j := by omega
      simp only [he, Vector.getElem_set_self, hmod] at hk ⊢
      exact hk
    · have hne : i ≠ j := fun h => he (by rw [h])
      simp [Vector.getElem_set_ne _ _ he, hne]
  · have hne : i ≠ j := fun h => hj (h ▸ hi)
    simp [hj, hne]

theorem bit_set_or (map : Vector Word n) (i j : Nat) (hi : i / 64 < n) :
    bit (map.set (i / 64) (map[i / 64] ||| 1#64 <<< (i % 64))) j =
      if i = j then true else bit map j := by
  apply bit_set_word map i j hi
  intro k _
  rw [BitVec.getLsbD_or, getLsbD_one_shl _ _ (Nat.mod_lt _ (by omega))]
  by_cases he : i % 64 = k <;> simp [he]

theorem bit_set_and_not (map : Vector Word n) (i j : Nat) (hi : i / 64 < n) :
    bit (map.set (i / 64) (map[i / 64] &&& ~~~(1#64 <<< (i % 64)))) j =
      if i = j then false else bit map j := by
  apply bit_set_word map i j hi
  intro k hk
  rw [BitVec.getLsbD_and, BitVec.getLsbD_not, getLsbD_one_shl _ _ (Nat.mod_lt _ (by omega))]
  by_cases he : i % 64 = k <;> simp [he, hk]

theorem zero_getLsbD (k : Nat) : (0 : Word).getLsbD k = false := by
  rw [show (0 : Word) = 0#64 from rfl, BitVec.getLsbD_zero]

theorem and_one_shl_ne_zero_iff (w : Word) (k : Nat) (hk : k < 64) :
    w &&& (1#64 <<< k) ≠ 0 ↔ w.getLsbD k = true := by
  constructor
  · intro h
    by_contra hb
    apply h
    apply BitVec.eq_of_getLsbD_eq
    intro i _
    rw [BitVec.getLsbD_and, getLsbD_one_shl _ _ hk]
    by_cases he : k = i
    · subst he
      rw [Bool.eq_false_iff.mpr hb, Bool.false_and]
      exact (zero_getLsbD k).symm
    · simp [he]
  · intro h hz
    have hbit := congrArg (fun x => x.getLsbD k) hz
    simp only [BitVec.getLsbD_and, getLsbD_one_shl _ _ hk, h] at hbit
    simp at hbit

theorem bit_eq_getLsbD {map : Vector Word n} {k : Nat} (hk : k < n) (j : Nat) (hj : j < 64) :
    bit map (k * 64 + j) = map[k].getLsbD j := by
  have hdiv : (k * 64 + j) / 64 = k := by omega
  have hmod : (k * 64 + j) % 64 = j := by omega
  simp only [bit, hdiv, hmod, hk, dite_true]

theorem members_inj {map map' : Vector Word n} (h : members map = members map') : map = map' := by
  apply Vector.ext
  intro k hk
  apply BitVec.eq_of_getLsbD_eq
  intro j hj
  rw [← bit_eq_getLsbD hk j hj, ← bit_eq_getLsbD hk j hj, Bool.eq_iff_iff, ← mem_members, h,
    mem_members]

theorem eq_zero_iff_getLsbD (w : Word) : w = 0 ↔ ∀ j, j < 64 → w.getLsbD j = false := by
  constructor
  · rintro rfl j -
    exact zero_getLsbD j
  · intro h
    apply BitVec.eq_of_getLsbD_eq
    intro j hj
    rw [h j hj]
    exact (zero_getLsbD j).symm

-- The search of one word from its bit `b` upward, by shifting and counting.
theorem least_in_word (map : Vector Word n) {k : Nat} (b : Nat) (hk : k < n) (hb : b < 64) :
    Least (fun i => bit map i = true) (k * 64 + b) (k * 64 + 64)
      (if map[k] >>> b ≠ 0 then some (k * 64 + b + (map[k] >>> b).ctz.toNat) else none) := by
  have hbit : ∀ j, b + j < 64 → bit map (k * 64 + b + j) = (map[k] >>> b).getLsbD j := by
    intro j hj
    rw [BitVec.getLsbD_ushiftRight, ← bit_eq_getLsbD hk _ hj, Nat.add_assoc]
  split
  · rename_i hw
    have htrue := BitVec.getLsbD_true_ctz_of_ne_zero hw
    have hlt : b + (map[k] >>> b).ctz.toNat < 64 := by
      rw [BitVec.getLsbD_ushiftRight] at htrue
      exact BitVec.lt_of_getLsbD htrue
    refine ⟨by omega, by omega, (hbit _ hlt).trans htrue, fun j h1 h2 => ?_⟩
    obtain ⟨t, rfl⟩ := Nat.exists_eq_add_of_le h1
    have hfalse : (map[k] >>> b).getLsbD t = false :=
      BitVec.getLsbD_false_of_lt_ctz (by omega)
    simp only [hbit t (by omega), hfalse]
    exact Bool.false_ne_true
  · rename_i hw
    intro j h1 h2
    obtain ⟨t, rfl⟩ := Nat.exists_eq_add_of_le h1
    simp only [hbit t (by omega), (eq_zero_iff_getLsbD _).mp (not_not.mp hw) t (by omega)]
    exact Bool.false_ne_true

end Orin.Bitmap
