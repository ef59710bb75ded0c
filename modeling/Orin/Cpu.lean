import Orin.Rust.Checked

namespace Orin.Cpu

open Rust

structure CpuidResult where
  eax : UInt32
  ebx : UInt32
  ecx : UInt32
  edx : UInt32
  deriving DecidableEq

def CpuidResult.default : CpuidResult := ⟨0, 0, 0, 0⟩

-- The instruction: leaf and subleaf to the four registers.
abbrev Cpuid := UInt32 → UInt32 → CpuidResult

structure CpuFeatures where
  vendor : List UInt8
  family : UInt32
  model : UInt32
  stepping : UInt32
  brand : List UInt8
  max_leaf : UInt32
  max_ext_leaf : UInt32
  nx : Bool
  pdpe1gb : Bool
  la57 : Bool
  smep : Bool
  smap : Bool
  invpcid : Bool
  rdseed : Bool
  rdrand : Bool
  rdrand_present_but_unverified : Bool
  x2apic : Bool
  apic : Bool
  tsc : Bool
  tsc_invariant : Bool
  tsc_khz : Option Nat
  hypervisor_present : Bool
  hypervisor_vendor : List UInt8
  sse2 : Bool
  syscall : Bool
  fsgsbase : Bool
  avx : Bool
  avx2 : Bool
  deriving DecidableEq

def to_le_bytes (x : UInt32) : List UInt8 :=
  [x.toUInt8, (x >>> 8).toUInt8, (x >>> 16).toUInt8, (x >>> 24).toUInt8]

def bit (x : UInt32) (k : UInt32) : Bool := x &&& (1 <<< k) != 0

-- A leaf the processor does not have reads as zeros.
def leaf_if (present : Bool) (r : CpuidResult) : CpuidResult := if present then r else .default

-- Twelve bytes of text and the final NUL.
def vendor_text (a b c : UInt32) : List UInt8 := to_le_bytes a ++ to_le_bytes b ++ to_le_bytes c ++ [0]

def brand_text (cpuid : Cpuid) (max_ext_leaf : UInt32) : List UInt8 :=
  if 0x80000004 ≤ max_ext_leaf then
    ([0x80000002, 0x80000003, 0x80000004].flatMap fun leaf =>
      let r := cpuid leaf 0
      to_le_bytes r.eax ++ to_le_bytes r.ebx ++ to_le_bytes r.ecx ++ to_le_bytes r.edx) ++ [0]
  else List.replicate 49 0

def display_family (eax : UInt32) : UInt32 :=
  let base_family := (eax >>> 8) &&& 0xF
  if base_family = 0xF then base_family + ((eax >>> 20) &&& 0xFF) else base_family

def display_model (eax : UInt32) : UInt32 :=
  let base_family := (eax >>> 8) &&& 0xF
  let base_model := (eax >>> 4) &&& 0xF
  if base_family = 0x6 ∨ base_family = 0xF then (((eax >>> 16) &&& 0xF) <<< 4) + base_model
  else base_model

-- Leaf 0x15: denominator, numerator and crystal clock. Two 32-bit factors cannot overflow.
def tsc_khz (r : CpuidResult) : Option Nat :=
  if r.ebx ≠ 0 ∧ r.eax ≠ 0 ∧ r.ecx ≠ 0 then
    some (r.ecx.toNat * r.ebx.toNat / r.eax.toNat / 1000)
  else none

def detect (cpuid : Cpuid) : CpuFeatures :=
  let leaf0 := cpuid 0 0
  let max_leaf := leaf0.eax
  let leaf1 := leaf_if (1 ≤ max_leaf) (cpuid 1 0)
  let leaf7 := leaf_if (7 ≤ max_leaf) (cpuid 7 0)
  let leaf15 := leaf_if (0x15 ≤ max_leaf) (cpuid 0x15 0)
  let max_ext_leaf := (cpuid 0x80000000 0).eax
  let ext1 := leaf_if (0x80000001 ≤ max_ext_leaf) (cpuid 0x80000001 0)
  let ext7 := leaf_if (0x80000007 ≤ max_ext_leaf) (cpuid 0x80000007 0)
  let hypervisor_present := bit leaf1.ecx 31
  let rdrand := bit leaf1.ecx 30
  { vendor := vendor_text leaf0.ebx leaf0.edx leaf0.ecx
    family := display_family leaf1.eax
    model := display_model leaf1.eax
    stepping := leaf1.eax &&& 0xF
    brand := brand_text cpuid max_ext_leaf
    max_leaf := max_leaf
    max_ext_leaf := max_ext_leaf
    nx := bit ext1.edx 20
    pdpe1gb := bit ext1.edx 26
    la57 := bit leaf7.ecx 16
    smep := bit leaf7.ebx 7
    smap := bit leaf7.ebx 20
    invpcid := bit leaf7.ebx 10
    rdseed := bit leaf7.ebx 18
    rdrand := rdrand
    rdrand_present_but_unverified := rdrand
    x2apic := bit leaf1.ecx 21
    apic := bit leaf1.edx 9
    tsc := bit leaf1.edx 4
    tsc_invariant := bit ext7.edx 8
    tsc_khz := tsc_khz leaf15
    hypervisor_present := hypervisor_present
    hypervisor_vendor :=
      if hypervisor_present then
        let hv := cpuid 0x40000000 0
        vendor_text hv.ebx hv.ecx hv.edx
      else List.replicate 13 0
    sse2 := bit leaf1.edx 26
    syscall := bit ext1.edx 11
    fsgsbase := bit leaf7.ebx 0
    avx := bit leaf1.ecx 28
    avx2 := bit leaf7.ebx 5 }

-- The hard requirements of `cpuid::report`.
def report (f : CpuFeatures) : Except Panic Unit := do
  assert f.sse2 "cpuid: SSE2 is mandatory on x86_64 but CPUID says otherwise"
  assert f.nx "cpuid: NX support is required for Orin's W^X memory policy"
  assert f.syscall "cpuid: SYSCALL/SYSRET is required for the M5 syscall ABI"

structure Registers where
  cr0 : Nat
  cr3 : Nat
  cr4 : Nat
  efer : Nat
  deriving DecidableEq

namespace cr0

def PROTECTED_MODE_ENABLE : Nat := 1 <<< 0
def WRITE_PROTECT : Nat := 1 <<< 16
def PAGING : Nat := 1 <<< 31

end cr0

namespace cr4

def PHYSICAL_ADDRESS_EXTENSION : Nat := 1 <<< 5
def SUPERVISOR_MODE_EXECUTION_PROTECTION : Nat := 1 <<< 20
def SUPERVISOR_MODE_ACCESS_PREVENTION : Nat := 1 <<< 21

end cr4

namespace efer

def LME : Nat := 1 <<< 8
def LMA : Nat := 1 <<< 10
def NXE : Nat := 1 <<< 11

end efer

-- `contains`, `read_raw` and `update` are the `x86_64` crate's, as it documents them.
def contains (register flag : Nat) : Bool := register &&& flag == flag

-- `Cr3::read_raw().0.start_address()`: the frame, without the low bits.
def table_frame (cr3 : Nat) : Nat := cr3 &&& 0x000FFFFFFFFFF000

-- `Efer::update`: what is not named by a flag is kept.
def enable_nx (f : CpuFeatures) (r : Registers) : Bool × Registers :=
  if !f.nx then (false, r)
  else
    let r := { r with efer := r.efer ||| efer.NXE }
    (contains r.efer efer.NXE, r)

-- What `verify_long_mode` finds wrong, line by line as it logs it.
def long_mode_errors (r : Registers) : List String :=
  let cr3 := table_frame r.cr3
  let check (ok : Bool) (what : String) : List String :=
    if ok then [] else ["long mode: " ++ what ++ " is NOT set"]
  check (contains r.cr0 cr0.PAGING) "CR0.PG (paging)" ++
    check (contains r.cr0 cr0.WRITE_PROTECT) "CR0.WP (write protect)" ++
    check (contains r.cr0 cr0.PROTECTED_MODE_ENABLE) "CR0.PE (protected mode)" ++
    check (contains r.cr4 cr4.PHYSICAL_ADDRESS_EXTENSION) "CR4.PAE" ++
    check (contains r.efer efer.LME) "EFER.LME" ++
    check (contains r.efer efer.LMA) "EFER.LMA" ++
    (if cr3 = 0 then ["long mode: CR3 is 0 — no page tables are loaded"] else []) ++
    (if cr3 % 4096 ≠ 0 then ["long mode: CR3 " ++ hex cr3 ++ " is not 4 KiB aligned"] else [])

def verify_long_mode (f : CpuFeatures) (r : Registers) : Except Panic Registers := do
  let bad := long_mode_errors r ≠ []
  let r := if f.smep then { r with cr4 := r.cr4 ||| cr4.SUPERVISOR_MODE_EXECUTION_PROTECTION } else r
  let r := if f.smap then { r with cr4 := r.cr4 ||| cr4.SUPERVISOR_MODE_ACCESS_PREVENTION } else r
  if bad then throw (.explicit "CPU is not in the state boot.asm promised; see the errors above")
  else return r

-- Steps 3 to 5 of `kernel_main`: whether NX is on, and the registers.
def cpu_steps (f : CpuFeatures) (r : Registers) : Except Panic (Bool × Registers) := do
  report f
  let (nxe, r) := enable_nx f r
  let r ← verify_long_mode f r
  return (nxe, r)

-- The complaints in order; a seventh would be dropped.
def complaints (f : CpuFeatures) (r : Registers) : List String :=
  [(r.cr0 &&& (1 <<< 16) == 0, "CR0.WP is CLEAR: the kernel can write to read-only pages, so " ++
      "W^X and .rodata protection do not hold"),
    (r.cr0 &&& (1 <<< 31) == 0, "CR0.PG is CLEAR: paging is off, so there is no memory " ++
      "protection at all"),
    (r.efer &&& (1 <<< 11) == 0, "EFER.NXE is CLEAR: NX bits in page tables are ignored, so no " ++
      "page can be made non-executable"),
    (r.efer &&& (1 <<< 10) == 0, "EFER.LMA is CLEAR: the CPU is not in long mode"),
    (f.smep && r.cr4 &&& (1 <<< 20) == 0, "CR4.SMEP is CLEAR despite CPUID.SMEP: the kernel can " ++
      "execute user-space code, removing a major ret2usr mitigation"),
    (f.smap && r.cr4 &&& (1 <<< 21) == 0, "CR4.SMAP is CLEAR despite CPUID.SMAP: the kernel can " ++
      "read user memory without an explicit copy_*_user, so a stray pointer is not caught")].filterMap
    fun c => if c.1 then some c.2 else none

def control_register_problems (f : CpuFeatures) (r : Registers) : List String :=
  (complaints f r ++ List.replicate 6 "").take 6

end Orin.Cpu
