import Orin.Boot.Link
import Orin.Theory.Radix

namespace Orin.Boot

open Theory.Radix (Mem write fill)

-- The first four pages of `.boot_bss`.
def boot_pml4 (bss : Nat) : Nat := bss
def boot_pdpt (bss : Nat) : Nat := bss + 4096
def boot_pd0 (bss : Nat) : Nat := bss + 2 * 4096
def boot_pd1 (bss : Nat) : Nat := bss + 3 * 4096

-- Step 6 of the stub: `rep stosd` over the section.
def zero_bss (mem : Mem Nat Nat Nat) (bss : Nat) : Nat → Mem Nat Nat Nat
  | 0 => mem
  | n + 1 => fill (zero_bss mem bss n) (bss + n * 4096) 0

-- `_fill_pd0` and `_fill_pd1`: 2 MiB pages from `eax` on. The register never wraps, and
-- the upper half of each entry stays as the clearing left it.
def fill_pd (mem : Mem Nat Nat Nat) (pd eax : Nat) : Nat → Mem Nat Nat Nat
  | 0 => mem
  | ecx + 1 => write (fill_pd mem pd eax ecx) pd ecx (eax + ecx * 0x200000)

-- Step 7: the tables the kernel is entered on. PML4 slots 0 and 511 share the PDPT, and
-- the PDPT reaches each page directory twice.
def build_tables (mem : Mem Nat Nat Nat) (bss : Nat) : Mem Nat Nat Nat :=
  let mem := write mem (boot_pml4 bss) 0 (boot_pdpt bss ||| 0x3)
  let mem := write mem (boot_pml4 bss) 511 (boot_pdpt bss ||| 0x3)
  let mem := write mem (boot_pdpt bss) 0 (boot_pd0 bss ||| 0x3)
  let mem := write mem (boot_pdpt bss) 510 (boot_pd0 bss ||| 0x3)
  let mem := write mem (boot_pdpt bss) 1 (boot_pd1 bss ||| 0x3)
  let mem := write mem (boot_pdpt bss) 511 (boot_pd1 bss ||| 0x3)
  let mem := fill_pd mem (boot_pd0 bss) 0x83 512
  fill_pd mem (boot_pd1 bss) 0x40000083 512

-- Memory as the stub leaves it, from whatever it held before.
def boot_memory (mem : Mem Nat Nat Nat) (bss : Nat) : Mem Nat Nat Nat :=
  build_tables (zero_bss mem bss (EXPECTED_BOOT_BSS_SIZE / 4096)) bss

section Lemmas

variable {mem : Mem Nat Nat Nat} {bss b j : Nat}

theorem zero_bss_page {n k : Nat} (hk : k < n) : zero_bss mem bss n (bss + k * 4096) j = 0 := by
  induction n with
  | zero => omega
  | succ n ih =>
      rw [zero_bss, fill]
      split
      · rfl
      · rename_i hne
        exact ih (by
          by_contra hge
          exact hne (by rw [show k = n by omega]))

theorem fill_pd_eq (mem : Mem Nat Nat Nat) (pd eax n b j : Nat) :
    fill_pd mem pd eax n b j = if b = pd ∧ j < n then eax + j * 0x200000 else mem b j := by
  induction n with
  | zero => simp [fill_pd]
  | succ n ih =>
      rw [fill_pd, write]
      split
      · rename_i hat
        obtain ⟨rfl, rfl⟩ := hat
        simp
      · rename_i hat
        rw [ih]
        by_cases hj : b = pd ∧ j < n
        · rw [if_pos hj, if_pos ⟨hj.1, by omega⟩]
        · rw [if_neg hj, if_neg (fun hlt => hj ⟨hlt.1, by
            have : j ≠ n := fun hjn => hat ⟨hlt.1, hjn⟩
            omega⟩)]

-- The tables, entry by entry.
theorem boot_memory_pml4 : boot_memory mem bss (boot_pml4 bss) j =
    if j = 0 ∨ j = 511 then boot_pdpt bss ||| 0x3 else 0 := by
  have hzero : zero_bss mem bss (EXPECTED_BOOT_BSS_SIZE / 4096) (bss + 0 * 4096) j = 0 :=
    zero_bss_page (by decide)
  rw [Nat.zero_mul, Nat.add_zero] at hzero
  simp only [boot_memory, build_tables, fill_pd_eq, write, boot_pml4, boot_pdpt, boot_pd0, boot_pd1]
  by_cases h0 : j = 0
  · simp [h0]
  · by_cases h511 : j = 511
    · simp [h511]
    · simp [h0, h511, hzero]

theorem boot_memory_pdpt : boot_memory mem bss (boot_pdpt bss) j =
    if j = 0 ∨ j = 510 then boot_pd0 bss ||| 0x3
    else if j = 1 ∨ j = 511 then boot_pd1 bss ||| 0x3 else 0 := by
  have hzero : zero_bss mem bss (EXPECTED_BOOT_BSS_SIZE / 4096) (bss + 1 * 4096) j = 0 :=
    zero_bss_page (by decide)
  rw [Nat.one_mul] at hzero
  simp only [boot_memory, build_tables, fill_pd_eq, write, boot_pml4, boot_pdpt, boot_pd0, boot_pd1]
  by_cases h0 : j = 0
  · simp [h0]
  · by_cases h1 : j = 1
    · simp [h1]
    · by_cases h510 : j = 510
      · simp [h510]
      · by_cases h511 : j = 511
        · simp [h511]
        · simp [h0, h1, h510, h511, hzero]

theorem boot_memory_pd0 : boot_memory mem bss (boot_pd0 bss) j =
    if j < 512 then 0x83 + j * 0x200000 else 0 := by
  have hzero : zero_bss mem bss (EXPECTED_BOOT_BSS_SIZE / 4096) (bss + 2 * 4096) j = 0 :=
    zero_bss_page (by decide)
  simp only [boot_memory, build_tables, fill_pd_eq, write, boot_pml4, boot_pdpt, boot_pd0, boot_pd1]
  by_cases hj : j < 512
  · simp [hj]
  · simp [hj, hzero]

theorem boot_memory_pd1 : boot_memory mem bss (boot_pd1 bss) j =
    if j < 512 then 0x40000083 + j * 0x200000 else 0 := by
  have hzero : zero_bss mem bss (EXPECTED_BOOT_BSS_SIZE / 4096) (bss + 3 * 4096) j = 0 :=
    zero_bss_page (by decide)
  simp only [boot_memory, build_tables, fill_pd_eq, write, boot_pml4, boot_pdpt, boot_pd0, boot_pd1]
  by_cases hj : j < 512
  · simp [hj]
  · simp [hj, hzero]

theorem zero_bss_elsewhere {n a : Nat} (h : ∀ k, k < n → a ≠ bss + k * 4096) :
    zero_bss mem bss n a j = mem a j := by
  induction n with
  | zero => rfl
  | succ n ih =>
      rw [zero_bss, Theory.Radix.fill_elsewhere _ 0 j (h n (by omega))]
      exact ih fun k hk => h k (by omega)

theorem boot_memory_elsewhere {a : Nat} (h : a < bss ∨ bss + EXPECTED_BOOT_BSS_SIZE ≤ a) :
    boot_memory mem bss a j = mem a j := by
  rw [EXPECTED_BOOT_BSS_SIZE] at h
  have hne : ∀ k, k < 36 → a ≠ bss + k * 4096 := by
    intro k hk
    omega
  have h0 := hne 0 (by decide)
  have h1 := hne 1 (by decide)
  have h2 := hne 2 (by decide)
  have h3 := hne 3 (by decide)
  have hzero : zero_bss mem bss (EXPECTED_BOOT_BSS_SIZE / 4096) a j = mem a j :=
    zero_bss_elsewhere hne
  rw [Nat.zero_mul, Nat.add_zero] at h0
  rw [Nat.one_mul] at h1
  simp [boot_memory, build_tables, fill_pd_eq, write, boot_pml4, boot_pdpt, boot_pd0, boot_pd1, h0, h1,
    h2, h3, hzero]

end Lemmas

end Orin.Boot
