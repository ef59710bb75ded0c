import Orin.Arch.Addr

namespace Orin.Boot

open Arch

-- `ALIGN(x, n)` of the linker script.
def ALIGN (x n : Nat) : Nat := (x + n - 1) / n * n

theorem le_ALIGN (x : Nat) {n : Nat} (hn : 0 < n) : x ≤ ALIGN x n := by
  have h := Nat.lt_div_mul_add hn (a := x + n - 1)
  unfold ALIGN
  omega

theorem ALIGN_le {x y n : Nat} (hn : 0 < n) (hy : n ∣ y) (h : x ≤ y) : ALIGN x n ≤ y := by
  obtain ⟨k, rfl⟩ := hy
  have hlt : (x + n - 1) / n < k + 1 := by
    rw [Nat.div_lt_iff_lt_mul hn, Nat.add_mul, Nat.one_mul, Nat.mul_comm k n]
    omega
  calc (x + n - 1) / n * n ≤ k * n := Nat.mul_le_mul_right n (Nat.le_of_lt_succ hlt)
    _ = n * k := Nat.mul_comm k n

theorem dvd_ALIGN (x n : Nat) : n ∣ ALIGN x n := Nat.dvd_mul_left n _

-- A kernel section: where it is loaded and how long it is. Its virtual address is the
-- boot alias of the load address, which the script asserts section by section.
structure Section where
  lma : Nat
  size : Nat
  deriving DecidableEq, Repr

def Section.lmaEnd (sec : Section) : Nat := sec.lma + sec.size

def Section.vma (sec : Section) : Nat := sec.lma + KERNEL_VMA

def Section.vmaEnd (sec : Section) : Nat := sec.vma + sec.size

def image_phys_start : Nat := 1024 * 1024

def EXPECTED_BOOT_BSS_SIZE : Nat := 144 * 1024

-- An image that `orin.ld` links: what the script places, under its assertions.
structure Layout where
  boot_bss_phys_start : Nat
  text : Section
  rodata : Section
  data : Section
  eh_frame : Section
  got : Section
  boot_params : Section
  bss : Section
  heap_phys_start : Nat
  boot_bss_aligned : boot_bss_phys_start % LARGE_PAGE_SIZE = 0
  boot_bss_after_start : image_phys_start ≤ boot_bss_phys_start
  text_after_boot : boot_bss_phys_start + EXPECTED_BOOT_BSS_SIZE ≤ text.lma
  text_above : LARGE_PAGE_SIZE ≤ text.lma
  text_aligned : text.lma % LARGE_PAGE_SIZE = 0
  rodata_aligned : rodata.lma % LARGE_PAGE_SIZE = 0
  data_aligned : data.lma % LARGE_PAGE_SIZE = 0
  bss_aligned : bss.lma % LARGE_PAGE_SIZE = 0
  text_fits : text.size ≤ LARGE_PAGE_SIZE
  rodata_fits : rodata.size ≤ LARGE_PAGE_SIZE
  data_fits : data.size ≤ LARGE_PAGE_SIZE
  rodata_after_text : text.lmaEnd ≤ rodata.lma
  data_after_rodata : rodata.lmaEnd ≤ data.lma
  eh_frame_after_data : data.lmaEnd ≤ eh_frame.lma
  got_after_eh_frame : eh_frame.lmaEnd ≤ got.lma
  boot_params_after_got : got.lmaEnd ≤ boot_params.lma
  boot_params_size : boot_params.size = 48
  bss_after_boot_params : boot_params.lmaEnd ≤ bss.lma
  heap_after_bss : bss.lmaEnd ≤ heap_phys_start
  heap_aligned : heap_phys_start % LARGE_PAGE_SIZE = 0
  heap_mapped : heap_phys_start + HEAP_SIZE ≤ BOOT_MAPPED_BYTES

namespace Layout

variable (L : Layout)

def heap_phys_end : Nat := L.heap_phys_start + HEAP_SIZE

def kernel_phys_end : Nat := L.heap_phys_end

def kernel_virt_end : Nat := max (ALIGN L.bss.vmaEnd 4096) (ALIGN L.got.vmaEnd 4096)

-- Where the last region of the image ends: `_kernel_virt_end`, up to the next 2 MiB.
def image_end : Nat := ALIGN L.kernel_virt_end LARGE_PAGE_SIZE

-- The sections follow each other, each from its own 2 MiB boundary on, and the heap
-- follows the image.
structure Order (L : Layout) : Prop where
  text : LARGE_PAGE_SIZE ≤ L.text.lma
  rodata : L.text.lma + L.text.size ≤ L.rodata.lma
  data : L.rodata.lma + L.rodata.size ≤ L.data.lma
  bss : L.data.lma < L.bss.lma
  image : L.bss.lma + L.bss.size + KERNEL_VMA ≤ L.image_end
  heap : L.image_end ≤ L.heap_phys_start + KERNEL_VMA
  last : L.heap_phys_start + HEAP_SIZE ≤ BOOT_MAPPED_BYTES
  image_aligned : L.image_end % LARGE_PAGE_SIZE = 0

theorem heap_alias_aligned : LARGE_PAGE_SIZE ∣ L.heap_phys_start + KERNEL_VMA :=
  Nat.dvd_add (Nat.dvd_of_mod_eq_zero L.heap_aligned) (by rw [KERNEL_VMA_eq]; decide)

theorem bss_end_le : L.bss.vmaEnd ≤ L.heap_phys_start + KERNEL_VMA := by
  have h := L.heap_after_bss
  simp only [Section.lmaEnd, Section.vmaEnd, Section.vma] at *
  omega

theorem got_end_le : L.got.vmaEnd ≤ L.bss.vmaEnd := by
  have h1 := L.boot_params_after_got
  have h2 := L.bss_after_boot_params
  simp only [Section.lmaEnd, Section.vmaEnd, Section.vma] at *
  omega

theorem kernel_virt_end_le : L.kernel_virt_end ≤ L.heap_phys_start + KERNEL_VMA := by
  have hdvd : 4096 ∣ L.heap_phys_start + KERNEL_VMA :=
    Nat.dvd_trans (by decide) L.heap_alias_aligned
  refine Nat.max_le.mpr ⟨ALIGN_le (by decide) hdvd L.bss_end_le, ALIGN_le (by decide) hdvd ?_⟩
  exact Nat.le_trans L.got_end_le L.bss_end_le

theorem order : Order L := by
  have h1 := L.rodata_after_text
  have h2 := L.data_after_rodata
  have h3 := L.eh_frame_after_data
  have h4 := L.got_after_eh_frame
  have h5 := L.boot_params_after_got
  have h6 := L.bss_after_boot_params
  have h7 := L.boot_params_size
  simp only [Section.lmaEnd] at h1 h2 h3 h4 h5 h6
  refine ⟨L.text_above, h1, h2, by omega, ?_, ?_, L.heap_mapped, ?_⟩
  · calc L.bss.lma + L.bss.size + KERNEL_VMA = L.bss.vmaEnd := by
          simp only [Section.vmaEnd, Section.vma]
          omega
      _ ≤ ALIGN L.bss.vmaEnd 4096 := le_ALIGN _ (by decide)
      _ ≤ L.kernel_virt_end := Nat.le_max_left _ _
      _ ≤ L.image_end := le_ALIGN _ (by decide)
  · exact ALIGN_le (by decide) L.heap_alias_aligned L.kernel_virt_end_le
  · exact Nat.mod_eq_zero_of_dvd (dvd_ALIGN _ _)

end Layout

-- The symbols of the image that the kernel reads.
structure Symbols where
  kernel_text_start : Nat
  kernel_text_end : Nat
  kernel_rodata_start : Nat
  kernel_rodata_end : Nat
  kernel_data_start : Nat
  kernel_data_end : Nat
  kernel_bss_start : Nat
  kernel_bss_end : Nat
  kernel_virt_end : Nat
  heap_phys_start : Nat
  heap_phys_end : Nat

def Layout.symbols (L : Layout) : Symbols where
  kernel_text_start := L.text.vma
  kernel_text_end := L.text.vmaEnd
  kernel_rodata_start := L.rodata.vma
  kernel_rodata_end := L.rodata.vmaEnd
  kernel_data_start := L.data.vma
  kernel_data_end := L.data.vmaEnd
  kernel_bss_start := L.bss.vma
  kernel_bss_end := L.bss.vmaEnd
  kernel_virt_end := L.kernel_virt_end
  heap_phys_start := L.heap_phys_start
  heap_phys_end := L.heap_phys_end

namespace Layout

variable (L : Layout)

-- `.boot_bss` as `boot.asm` reserves it: four tables, then the two stacks.
def boot_stack_bottom : Nat := L.boot_bss_phys_start + 4 * 4096

def boot_stack_top : Nat := L.boot_stack_bottom + 65536

def kernel_stack_bottom : Nat := ALIGN L.boot_stack_top 16

def kernel_stack_top : Nat := L.kernel_stack_bottom + 65536

def boot_stack_top_hi : Nat := L.boot_stack_top + KERNEL_VMA

def kernel_stack_top_hi : Nat := L.kernel_stack_top + KERNEL_VMA

theorem kernel_stack_bottom_eq : L.kernel_stack_bottom = L.boot_stack_top := by
  have haligned := L.boot_bss_aligned
  simp only [kernel_stack_bottom, ALIGN, boot_stack_top, boot_stack_bottom]
  simp only [LARGE_PAGE_SIZE] at haligned
  omega

-- The CPU runs on the stacks at their low addresses, far below the kernel half.
theorem kernel_stack_top_lt : L.kernel_stack_top < BOOT_MAPPED_BYTES := by
  have htext := L.text_after_boot
  have o := L.order
  have h1 := o.rodata
  have h2 := o.data
  have h3 := o.bss
  have h4 := o.image
  have h5 := o.heap
  have h6 := o.last
  simp only [kernel_stack_top, kernel_stack_bottom_eq, boot_stack_top, boot_stack_bottom,
    EXPECTED_BOOT_BSS_SIZE, HEAP_SIZE] at *
  omega

end Layout

end Orin.Boot
