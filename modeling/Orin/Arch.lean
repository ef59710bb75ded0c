import Orin.Rust.Checked

namespace Orin.Arch

def PAGE_SIZE : Nat := 4096

def LARGE_PAGE_SIZE : Nat := 2 * 1024 * 1024

-- Base of the kernel half. Irreducible for the same reason as `WORD`.
@[irreducible] def KERNEL_VMA : Nat := 0xFFFFFFFF80000000

theorem KERNEL_VMA_eq : KERNEL_VMA = 18446744071562067968 := by
  unfold KERNEL_VMA
  rfl

-- Any virtual address at or above this is the kernel's.
def KERNEL_SPACE_START : Nat := KERNEL_VMA

@[irreducible] def HEAP_VIRT_START : Nat := 0xFFFFFFFF00000000

theorem HEAP_VIRT_START_eq : HEAP_VIRT_START = 18446744069414584320 := by
  unfold HEAP_VIRT_START
  rfl

def HEAP_SIZE : Nat := 16 * 1024 * 1024

-- Extent of physical memory covered by the boot page tables: 2 GiB.
def BOOT_MAPPED_BYTES : Nat := 2 * 1024 * 1024 * 1024

theorem BOOT_MAPPED_BYTES_eq : BOOT_MAPPED_BYTES = 2147483648 := rfl

-- The block `orin.ld` fills with physical addresses. The kernel has no other
-- source for them.
structure BootParams where
  kernel_phys_start : UInt64
  kernel_phys_end : UInt64
  boot_bss_phys_start : UInt64
  boot_bss_phys_end : UInt64
  heap_phys_start : UInt64
  heap_phys_end : UInt64
  deriving DecidableEq, Repr

def boot_bss_phys_range (params : BootParams) : UInt64 × UInt64 :=
  (params.boot_bss_phys_start, params.boot_bss_phys_end)

def phys_is_boot_mapped (pa : Nat) : Bool := pa < BOOT_MAPPED_BYTES

end Orin.Arch
