import Orin.Multiboot.Fields
import Mathlib.Data.List.Basic

namespace Orin.Multiboot

open Rust Arch

-- The first word of the structure, before anything is known about it.
def total_size (memory : Nat → UInt8) (phys : Nat) : Nat :=
  from_le_bytes ((List.range 4).map fun i => memory (phys + i))

-- The length of the slice that is made of it.
def span (memory : Nat → UInt8) (phys : Nat) : Nat :=
  min (saturating_add (total_size memory phys) PAGE_SIZE) (64 * 1024)

-- The bytes of physical memory that `read_from` looks at: the probe of the size and, if the
-- size is not refused, every byte of the slice.
def footprint (memory : Nat → UInt8) (phys : Nat) : List Nat :=
  if phys = 0 ∨ BOOT_MAPPED_BYTES ≤ phys then []
  else (List.range 4).map (phys + ·) ++
    if total_size memory phys < tag.HEADER_LEN then []
    else (List.range (span memory phys)).map (phys + ·)

theorem read_from_eq (memory : Nat → UInt8) (phys : Nat) :
    read_from memory phys =
      if phys = 0 ∨ BOOT_MAPPED_BYTES ≤ phys then .error (.returned .TooShort)
      else if total_size memory phys < tag.HEADER_LEN then .error (.returned .TooShort)
      else (do
        let info ← parse ((List.range (span memory phys)).map fun i => memory (phys + i))
        panicking (locate phys info)) :=
  rfl

section Stable

variable {memory memory' : Nat → UInt8} {phys : Nat}

theorem bytes_congr {n : Nat} (h : ∀ a ∈ (List.range n).map (phys + ·), memory a = memory' a) :
    ((List.range n).map fun i => memory (phys + i)) =
      (List.range n).map fun i => memory' (phys + i) :=
  List.map_congr_left fun i hi => h (phys + i) (List.mem_map.mpr ⟨i, hi, rfl⟩)

end Stable

-- Nothing else is read: memory that agrees on the footprint gives the same answer.
theorem read_from_footprint (memory memory' : Nat → UInt8) (phys : Nat)
    (h : ∀ a ∈ footprint memory phys, memory a = memory' a) :
    read_from memory phys = read_from memory' phys := by
  rw [read_from_eq, read_from_eq]
  by_cases hreject : phys = 0 ∨ BOOT_MAPPED_BYTES ≤ phys
  · rw [if_pos hreject, if_pos hreject]
  rw [footprint, if_neg hreject] at h
  have htotal : total_size memory phys = total_size memory' phys := by
    rw [total_size, bytes_congr fun a ha => h a (List.mem_append_left _ ha)]
    rfl
  have hspan : span memory phys = span memory' phys := by rw [span, span, htotal]
  rw [if_neg hreject, if_neg hreject, ← htotal, ← hspan]
  by_cases hshort : total_size memory phys < tag.HEADER_LEN
  · rw [if_pos hshort, if_pos hshort]
  · rw [if_neg hshort] at h
    rw [if_neg hshort, if_neg hshort, bytes_congr fun a ha => h a (List.mem_append_right _ ha)]

section Bound

variable {memory : Nat → UInt8} {phys : Nat}

theorem total_size_lt (memory : Nat → UInt8) (phys : Nat) : total_size memory phys < 2 ^ 32 := by
  have h := from_le_bytes_lt ((List.range 4).map fun i => memory (phys + i))
  rw [List.length_map, List.length_range] at h
  exact h

theorem span_eq (memory : Nat → UInt8) (phys : Nat) :
    span memory phys = min (total_size memory phys + 4096) 65536 := by
  have h := total_size_lt memory phys
  rw [span, saturating_add, WORD_eq, PAGE_SIZE]
  omega

theorem range_below_iff {n bound : Nat} (hn : 0 < n) :
    (∀ a ∈ (List.range n).map (phys + ·), a < bound) ↔ phys + n ≤ bound := by
  simp only [List.mem_map, List.mem_range, forall_exists_index, and_imp, forall_apply_eq_imp_iff₂]
  constructor
  · intro h
    have := h (n - 1) (by omega)
    omega
  · intro h i hi
    omega

-- The size that the structure declares is not compared with the end of the mapping: the reads
-- stay inside exactly when the probe fits and, with its page of slack, the slice does.
theorem reads_mapped (h0 : 0 < phys)
    (hphys : phys < BOOT_MAPPED_BYTES) :
    (∀ a ∈ footprint memory phys, a < BOOT_MAPPED_BYTES) ↔
      phys + 4 ≤ BOOT_MAPPED_BYTES ∧
        (total_size memory phys < 8 ∨
          phys + min (total_size memory phys + 4096) 65536 ≤ BOOT_MAPPED_BYTES) := by
  rw [footprint, if_neg (by omega), List.forall_mem_append, range_below_iff (by decide),
    show tag.HEADER_LEN = 8 from rfl]
  refine and_congr_right fun _ => ?_
  by_cases hshort : total_size memory phys < 8
  · rw [if_pos hshort]
    exact iff_of_true (fun a ha => absurd ha List.not_mem_nil) (.inl hshort)
  · have hpos : 0 < span memory phys := by
      rw [span_eq]
      omega
    rw [if_neg hshort, range_below_iff hpos, span_eq]
    exact (or_iff_right hshort).symm

-- A size that the cap applies to.
theorem total_size_ones (phys : Nat) : total_size (fun _ => 255) phys = 2 ^ 32 - 1 := by
  simp [total_size, from_le_bytes, List.range_succ]

end Bound

-- Over all contents of memory the structure has to start 64 KiB before the end.
theorem reads_mapped_iff (phys : Nat) (h0 : 0 < phys) (hphys : phys < BOOT_MAPPED_BYTES) :
    (∀ memory, (∀ a ∈ footprint memory phys, a < BOOT_MAPPED_BYTES) ↔
      phys + 4 ≤ BOOT_MAPPED_BYTES ∧
        (total_size memory phys < 8 ∨
          phys + min (total_size memory phys + 4096) 65536 ≤ BOOT_MAPPED_BYTES)) ∧
    ((∀ memory, ∀ a ∈ footprint memory phys, a < BOOT_MAPPED_BYTES) ↔
      phys + 65536 ≤ BOOT_MAPPED_BYTES) := by
  refine ⟨fun memory => reads_mapped h0 hphys, fun h => ?_, fun h memory => ?_⟩
  · have hfull := (reads_mapped h0 hphys).mp (h fun _ => 255)
    rw [total_size_ones] at hfull
    omega
  · rw [reads_mapped h0 hphys]
    omega

-- A structure of 64 bytes in the last page below 2 GiB.
def last_page : Nat → UInt8 := fun a => if a = 0x7FFFF000 then 64 else 0

theorem last_page_size : total_size last_page 0x7FFFF000 = 64 := by decide

theorem reads_mapped_iff_low : 0x100000 < BOOT_MAPPED_BYTES ∧
    ∀ memory, ∀ a ∈ footprint memory 0x100000, a < BOOT_MAPPED_BYTES :=
  ⟨by decide, (reads_mapped_iff 0x100000 (by decide) (by decide)).2.mpr (by decide)⟩

-- What lies behind the slack makes no difference to it.
theorem read_from_footprint_slack :
    read_from last_page 0x7FFFF000 =
      read_from (fun a => if a < 0x7FFFF000 + 4160 then last_page a else 0xFF) 0x7FFFF000 := by
  refine read_from_footprint last_page _ 0x7FFFF000 fun a ha => (if_pos ?_).symm
  rw [footprint, if_neg (by decide), if_neg (by decide), span_eq, last_page_size] at ha
  simp only [List.mem_append, List.mem_map, List.mem_range] at ha
  omega

-- It lies inside the mapping, and the page of slack does not.
theorem slack_leaves_mapping :
    0x7FFFF000 + total_size last_page 0x7FFFF000 ≤ BOOT_MAPPED_BYTES ∧
      BOOT_MAPPED_BYTES ∈ footprint last_page 0x7FFFF000 := by
  refine ⟨by decide, ?_⟩
  rw [footprint, if_neg (by decide), if_neg (by decide), span_eq, last_page_size]
  exact List.mem_append_right _ (List.mem_map.mpr ⟨4096, List.mem_range.mpr (by decide), rfl⟩)

end Orin.Multiboot
