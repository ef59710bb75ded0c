import Orin.Memory.Vmm
import Mathlib.Data.Nat.Bitwise

namespace Orin.Memory.Vmm

open Rust Arch
open Theory.Radix (Slot)

theorem BOOT_MAPPED_lt_PHYS : BOOT_MAPPED_BYTES < 0x10000000000000 := by decide

section Bits

-- The address field: bits 12 to 51.
theorem mask_testBit (i : Nat) :
    (0x000FFFFFFFFFF000 : Nat).testBit i = (decide (12 ≤ i) && decide (i < 52)) := by
  rw [show (0x000FFFFFFFFFF000 : Nat) = (2 ^ 40 - 1) <<< 12 by rfl, Nat.testBit_shiftLeft,
    Nat.testBit_two_pow_sub_one]
  by_cases h : 12 ≤ i
  · simp [h]
    omega
  · simp [h]

theorem page_testBit {p i : Nat} (hp : p % 4096 = 0) (hi : i < 12) : p.testBit i = false := by
  have h := Nat.testBit_mod_two_pow p 12 i
  rw [show (2 : Nat) ^ 12 = 4096 by rfl, hp] at h
  simpa [hi] using h.symm

theorem entry_addr_or (a b : Nat) : entry_addr (a ||| b) = entry_addr a ||| entry_addr b :=
  Nat.and_or_distrib_right a b _

theorem entry_addr_of_page {p : Nat} (hp : p % 4096 = 0) (hlt : p < 0x10000000000000) :
    entry_addr p = p := by
  apply Nat.eq_of_testBit_eq
  intro i
  rw [entry_addr, Nat.testBit_and, mask_testBit]
  by_cases h12 : 12 ≤ i
  · by_cases h52 : i < 52
    · simp [h12, h52]
    · have hhigh : p.testBit i = false := by
        apply Nat.testBit_lt_two_pow
        calc p < 2 ^ 52 := hlt
          _ ≤ 2 ^ i := Nat.pow_le_pow_right (by decide) (by omega)
      simp [hhigh]
  · simp [page_testBit hp (Nat.lt_of_not_le h12)]

theorem entry_addr_mod (e : Nat) : entry_addr e % 4096 = 0 := by
  rw [show (4096 : Nat) = 2 ^ 12 by rfl]
  apply Nat.eq_of_testBit_eq
  intro i
  rw [Nat.testBit_mod_two_pow, entry_addr, Nat.testBit_and, mask_testBit]
  by_cases h12 : 12 ≤ i
  · simp [Nat.not_lt.mpr h12]
  · simp [h12]

theorem entry_addr_lt (e : Nat) : entry_addr e < 0x10000000000000 :=
  Nat.lt_of_le_of_lt Nat.and_le_right (by decide)

-- A flag below the address field is not touched by the address.
theorem page_and_two_pow {p k : Nat} (hp : p % 4096 = 0) (hk : k < 12) : p &&& 2 ^ k = 0 := by
  rw [Nat.and_two_pow, page_testBit hp hk]
  simp

theorem page_or_and {p k : Nat} (f : Nat) (hp : p % 4096 = 0) (hk : k < 12) :
    (p ||| f) &&& 2 ^ k = f &&& 2 ^ k := by
  rw [Nat.and_or_distrib_right, page_and_two_pow hp hk, Nat.zero_or]

theorem is_present_or {p : Nat} (f : Nat) (hp : p % 4096 = 0) :
    is_present (p ||| f) = is_present f := by
  unfold is_present
  rw [show flags.PRESENT = 2 ^ 0 by rfl, page_or_and f hp (by decide)]

theorem is_huge_or {p : Nat} (f : Nat) (hp : p % 4096 = 0) : is_huge (p ||| f) = is_huge f := by
  unfold is_huge
  rw [show flags.HUGE_PAGE = 2 ^ 7 by rfl, page_or_and f hp (by decide)]

theorem and_two_pow_ne (e k : Nat) : (e &&& 2 ^ k != 0) = e.testBit k := by
  rw [Nat.and_two_pow]
  cases e.testBit k <;> simp

theorem is_present_eq (e : Nat) : is_present e = e.testBit 0 := and_two_pow_ne e 0

theorem is_huge_eq (e : Nat) : is_huge e = e.testBit 7 := and_two_pow_ne e 7

-- `x & !(2^k - 1)`.
theorem and_mask {x : Nat} (k : Nat) (hx : x < WORD) :
    x &&& ((WORD - 1) ^^^ (2 ^ k - 1)) = x / 2 ^ k * 2 ^ k := by
  rw [WORD_eq] at hx ⊢
  rw [show (18446744073709551616 : Nat) - 1 = 2 ^ 64 - 1 by rfl, ← Nat.shiftRight_eq_div_pow,
    ← Nat.shiftLeft_eq]
  apply Nat.eq_of_testBit_eq
  intro i
  rw [Nat.testBit_and, Nat.testBit_xor, Nat.testBit_two_pow_sub_one, Nat.testBit_two_pow_sub_one,
    Nat.testBit_shiftLeft, Nat.testBit_shiftRight]
  have hhigh : i < 64 ∨ x.testBit i = false := by
    by_cases h64 : i < 64
    · exact .inl h64
    · refine .inr (Nat.testBit_lt_two_pow ?_)
      calc x < 2 ^ 64 := hx
        _ ≤ 2 ^ i := Nat.pow_le_pow_right (by decide) (by omega)
  by_cases hk : k ≤ i
  · rcases hhigh with h64 | hzero
    · simp [hk, h64, Nat.not_lt.mpr hk, Nat.add_sub_of_le hk]
    · simp [hzero, Nat.add_sub_of_le hk]
  · rcases hhigh with h64 | hzero
    · simp [hk, h64, Nat.lt_of_not_le hk]
    · simp [hk, hzero]

end Bits

section Slot

-- What an entry above the last level means to a walk.
def slot (e : Nat) : Slot Nat :=
  if is_present e then if is_huge e then .leaf else .table (entry_addr e) else .empty

theorem slot_zero : slot 0 = .empty := by decide

-- What an entry can be, told from its two bits.
theorem slot_cases (e : Nat) :
    (is_present e = false ∧ slot e = .empty) ∨
    (is_present e = true ∧ is_huge e = true ∧ slot e = .leaf) ∨
    (is_present e = true ∧ is_huge e = false ∧ slot e = .table (entry_addr e)) := by
  cases hp : is_present e with
  | false => exact .inl ⟨rfl, by simp [slot, hp]⟩
  | true =>
      cases hh : is_huge e with
      | true => exact .inr (.inl ⟨rfl, rfl, by simp [slot, hp, hh]⟩)
      | false => exact .inr (.inr ⟨rfl, rfl, by simp [slot, hp, hh]⟩)

theorem slot_empty_iff {e : Nat} : slot e = .empty ↔ is_present e = false := by
  obtain ⟨hp, hslot⟩ | ⟨hp, -, hslot⟩ | ⟨hp, -, hslot⟩ := slot_cases e
  · simp [hp, hslot]
  · simp [hp, hslot]
  · simp [hp, hslot]

theorem slot_table_iff {e a : Nat} :
    slot e = .table a ↔ is_present e = true ∧ is_huge e = false ∧ entry_addr e = a := by
  obtain ⟨hp, hslot⟩ | ⟨hp, hh, hslot⟩ | ⟨hp, hh, hslot⟩ := slot_cases e
  · simp [hp, hslot]
  · simp [hh, hslot]
  · simp [hp, hh, hslot]

theorem slot_leaf_iff {e : Nat} : slot e = .leaf ↔ is_present e = true ∧ is_huge e = true := by
  obtain ⟨hp, hslot⟩ | ⟨hp, hh, hslot⟩ | ⟨hp, hh, hslot⟩ := slot_cases e
  · simp [hp, hslot]
  · simp [hp, hh, hslot]
  · simp [hh, hslot]

-- The flags of an intermediate entry leave the address of the table readable.
theorem slot_pointer {a : Nat} (ha : a % 4096 = 0) (hlt : a < 0x10000000000000) :
    slot (a ||| (flags.PRESENT ||| flags.WRITABLE)) = .table a := by
  rw [slot_table_iff, is_present_or _ ha, is_huge_or _ ha, entry_addr_or, entry_addr_of_page ha hlt,
    show entry_addr (flags.PRESENT ||| flags.WRITABLE) = 0 by rfl, Nat.or_zero]
  exact ⟨rfl, rfl, rfl⟩

end Slot

section Effective

theorem effective_addr (s : State) (perm : Perm) : entry_addr (effective s perm) = 0 := by
  unfold effective
  rw [WORD_eq]
  cases s.nx_available <;> cases perm <;> rfl

theorem effective_present (s : State) (perm : Perm) : is_present (effective s perm) = true := by
  unfold effective
  rw [WORD_eq]
  cases s.nx_available <;> cases perm <;> rfl

theorem effective_huge (s : State) (perm : Perm) : is_huge (effective s perm) = false := by
  unfold effective
  rw [WORD_eq]
  cases s.nx_available <;> cases perm <;> rfl

end Effective

section Indices

theorem index_eq (v k : Nat) : (v >>> k) &&& 0x1FF = v / 2 ^ k % 512 := by
  rw [Nat.shiftRight_eq_div_pow, show (0x1FF : Nat) = 2 ^ 9 - 1 by rfl,
    Nat.and_two_pow_sub_one_eq_mod]

theorem offset_eq (v : Nat) : v &&& 0xFFF = v % 4096 := by
  rw [show (0xFFF : Nat) = 2 ^ 12 - 1 by rfl, Nat.and_two_pow_sub_one_eq_mod]

-- The four indices of an address, from the root down.
def path (va : VirtAddr) : List Nat :=
  [(indices va).pml4, (indices va).pdpt, (indices va).pd, (indices va).pt]

theorem path_eq (va : VirtAddr) : path va =
    [va.as_u64 / 2 ^ 39 % 512, va.as_u64 / 2 ^ 30 % 512, va.as_u64 / 2 ^ 21 % 512,
      va.as_u64 / 2 ^ 12 % 512] := by
  simp only [path, indices, index_eq]

@[simp] theorem path_length (va : VirtAddr) : (path va).length = 4 := rfl

-- A canonical address is its four indices and its offset.
theorem page_eq_of_path {va vb : VirtAddr} (h : path va = path vb) :
    va.as_u64 / 4096 = vb.as_u64 / 4096 := by
  rw [path_eq, path_eq] at h
  simp only [List.cons.injEq, and_true] at h
  obtain ⟨h4, h3, h2, h1⟩ := h
  have ha := va.canonical
  have hb := vb.canonical
  unfold Canonical at ha hb
  omega

theorem path_of_page_eq {va vb : VirtAddr} (h : va.as_u64 / 4096 = vb.as_u64 / 4096) :
    path va = path vb := by
  rw [path_eq, path_eq]
  simp only [List.cons.injEq, and_true]
  omega

end Indices

end Orin.Memory.Vmm
