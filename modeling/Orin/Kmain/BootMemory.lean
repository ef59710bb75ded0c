import Orin.Memory.Pmm
import Orin.Multiboot.Params

namespace Orin.Kmain

open Rust Multiboot Memory Memory.Pmm

def mem_limit_from (boot : BootInfo) : Option UInt64 :=
  (parse_params ((boot.cmdline.map Heapless.Str.as_str).getD "")).mem_limit_mib

-- The parts of `reserve_boot_memory`, in its order. Log lines count where their
-- arguments compute: the arguments are evaluated whatever the log level.
section Reserve

def outside_image (ks ke bs be : Nat) : String :=
  "boot .bss [" ++ hex bs ++ ".." ++ hex be ++ ") is not inside the kernel image [" ++ hex ks ++
    ".." ++ hex ke ++ "); the linker script moved it and pmm::reserve_boot_memory must be updated"

def reserve_image (params : Arch.BootParams) (p : State) : Except Panic State := do
  let ks := params.kernel_phys_start.toNat
  let ke := params.kernel_phys_end.toNat
  let p ← p.reserve_range ks ke
  let _size ← sub ke ks
  let bs := (Arch.boot_bss_phys_range params).1.toNat
  let be := (Arch.boot_bss_phys_range params).2.toNat
  assert (ks ≤ bs ∧ be ≤ ke) (outside_image ks ke bs be)
  return p

def reserve_info (boot : BootInfo) (p : State) : Except Panic State :=
  if boot.phys_addr ≠ 0 then do
    let stop ← add boot.phys_addr.toNat boot.total_size.toNat
    p.reserve_range boot.phys_addr.toNat stop
  else .ok p

def reserve_framebuffer (boot : BootInfo) (p : State) : Except Panic State :=
  match boot.framebuffer with
  | none => .ok p
  | some fb =>
      if fb.fb_type ≠ fbtype.EGA_TEXT ∧ 0 < fb.size then do
        let stop ← add fb.address.toNat fb.size.toNat
        p.reserve_range fb.address.toNat stop
      else .ok p

def reserve_rsdp (boot : BootInfo) (p : State) : Except Panic State :=
  match boot.acpi_rsdp with
  | none => .ok p
  | some rsdp => do
      let page := (rsdp &&& ~~~0xFFF).toNat
      let stop ← add page 4096
      p.reserve_range page stop

def reserve_above_limit (boot : BootInfo) (p : State) : Except Panic State :=
  match mem_limit_from boot with
  | none => .ok p
  | some limit_mib => do
      let kib ← mul limit_mib.toNat 1024
      let limit ← mul kib 1024
      p.reserve_range limit Arch.BOOT_MAPPED_BYTES

def reserve_boot_memory (params : Arch.BootParams) (boot : BootInfo) (p : State) :
    Except Panic State := do
  -- Interrupt vectors and BIOS data; EBDA; VGA window; option ROMs.
  let p ← p.reserve_range 0x0 0x1000
  let p ← p.reserve_range 0x9FC00 0xA0000
  let p ← p.reserve_range 0xA0000 0xC0000
  let p ← p.reserve_range 0xC0000 0x100000
  let p ← reserve_image params p
  let p ← reserve_info boot p
  let p ← reserve_framebuffer boot p
  let p ← reserve_rsdp boot p
  reserve_above_limit boot p

end Reserve

-- The numbers `report_memory` prints.
structure MemoryReport where
  usable_mib : Nat
  reported_mib : Nat
  reserved_kib : Nat
  bad_kib : Nat
  deriving DecidableEq, Repr

-- `iter().map(|e| e.length).sum()`, overflow-checked like any other addition.
def sum_lengths (entries : List MmapEntry) : Except Panic Nat :=
  entries.foldlM (fun total e => add total e.length.toNat) 0

def report_memory (boot : BootInfo) (p : State) : Except Panic MemoryReport := do
  let usable ← mul p.inner.free_frames 4096
  let total_ram ← sum_lengths boot.mmap.as_slice
  let reserved_kib ← mul p.inner.reserved_frames 4
  let bad_kib ← mul p.inner.bad_frames 4
  return ⟨usable / (1024 * 1024), total_ram / (1024 * 1024), reserved_kib, bad_kib⟩

structure FramebufferReport where
  kind : String
  text_mode_live : Bool
  outside_mapping : Bool
  deriving DecidableEq, Repr

def framebuffer_kind (fb_type : UInt8) : String :=
  if fb_type = fbtype.INDEXED then "indexed colour"
  else if fb_type = fbtype.RGB then "RGB direct colour"
  else if fb_type = fbtype.EGA_TEXT then "EGA text"
  else "unknown"

def report_framebuffer (boot : BootInfo) : Except Panic (Option FramebufferReport) :=
  match boot.framebuffer with
  | none => .ok none
  | some fb => do
      let stop ← add fb.address.toNat fb.size.toNat
      return some ⟨framebuffer_kind fb.fb_type, fb.fb_type == fbtype.EGA_TEXT,
        Arch.BOOT_MAPPED_BYTES < stop⟩

-- The steps of `kernel_main` that compute with what firmware and boot loader said.
def boot_memory (params : Arch.BootParams) (boot : BootInfo) (p : State) : Except Panic State := do
  let p ← p.init boot
  let p ← reserve_boot_memory params boot p
  let _report ← report_memory boot p
  let _report ← report_framebuffer boot
  return p

end Orin.Kmain
