import Orin.Boot.Tables
import Orin.Cpu

namespace Orin.Boot

open Cpu

-- The reasons to stop before Rust runs.
inductive Failure where
  | mb
  | bi
  | cx
  | lm
  | a20
  deriving DecidableEq, Repr

-- What is on the screen then: `_die` shows the first four characters, white on red.
def Failure.message : Failure → String
  | .mb => "MB: not booted by a Multiboot2 loader"
  | .bi => "BI: bad Multiboot2 info pointer"
  | .cx => "CX: CPUID unavailable"
  | .lm => "LM: long mode unsupported"
  | .a20 => "A2: A20 gate disabled"

-- The machine as the loader leaves it at `_boot_start`. `writable` are the EFLAGS bits that
-- `popfd` can change, `words` the 16-bit words of memory.
structure Machine where
  eax : UInt32
  ebx : UInt32
  eflags : UInt32
  writable : UInt32
  cpuid : Cpuid
  a20 : Bool
  words : UInt32 → UInt16
  regs : Registers

-- The state in which `orin_kernel_main` is entered.
structure Handoff where
  rdi : Nat
  rsi : Nat
  rsp : Nat
  regs : Registers

def popfd (writable old value : UInt32) : UInt32 := value &&& writable ||| old &&& ~~~writable

def ID_FLAG : UInt32 := (1 : UInt32) <<< 21

-- Step 3: does bit 21 of EFLAGS toggle?
def id_toggles (m : Machine) : Bool :=
  let ecx := m.eflags
  let flags := popfd m.writable m.eflags (ecx ^^^ ID_FLAG)
  (flags ^^^ ecx) != 0

-- Step 4. The subleaf is whatever the register holds.
def long_mode_leaf (m : Machine) : Bool :=
  let r := m.cpuid 0x80000000 m.eflags
  if r.eax < 0x80000001 then false
  else bit (m.cpuid 0x80000001 r.ecx).edx 29

-- With the gate closed, address line 20 reads as zero.
def bus (a20 : Bool) (address : UInt32) : UInt32 :=
  if a20 then address else address &&& ~~~((1 : UInt32) <<< 20)

-- Step 5: two words 1 MiB apart must not be the same word.
def a20_open (m : Machine) : Bool :=
  let words := Function.update m.words (bus m.a20 0x500) 0x0000
  let words := Function.update words (bus m.a20 0x100500) 0x00FF
  words (bus m.a20 0x500) == 0x0000 && words (bus m.a20 0x100500) == 0x00FF

-- A write to CR0: with EFER.LME set, paging goes with long mode.
def write_cr0 (r : Registers) (value : Nat) : Registers :=
  { r with
    cr0 := value
    efer := if contains value cr0.PAGING && contains r.efer efer.LME then r.efer ||| efer.LMA
      else r.efer }

-- Step 8. The code is 32-bit: CR0 and CR4 are written through `eax`, and of EFER only the
-- lower half changes.
def enter_long_mode (L : Layout) (r : Registers) : Registers :=
  let r := { r with cr4 := r.cr4 % 2 ^ 32 ||| cr4.PHYSICAL_ADDRESS_EXTENSION }
  let r := { r with cr3 := boot_pml4 L.boot_bss_phys_start }
  let r := { r with efer := r.efer ||| efer.LME }
  write_cr0 r (r.cr0 % 2 ^ 32 ||| (cr0.PAGING ||| cr0.WRITE_PROTECT))

-- `_boot_start` and `_long_mode_start`, up to the first instruction of Rust. The call has
-- pushed its return address.
def boot_start (L : Layout) (m : Machine) : Except Failure Handoff :=
  if m.eax ≠ 0x36D76289 then .error .mb
  else if m.ebx = 0 then .error .bi
  else if 0x80000000 ≤ m.ebx then .error .bi
  else if !id_toggles m then .error .cx
  else if !long_mode_leaf m then .error .lm
  else if !a20_open m then .error .a20
  else .ok
    { rdi := m.ebx.toNat
      rsi := L.boot_params.lma
      rsp := L.kernel_stack_top / 16 * 16 - 8
      regs := enter_long_mode L m.regs }

section Blocks

variable {m : Machine}

-- The flag toggles if it can be written; the other flags come back as they were.
theorem popfd_xor (writable old b : UInt32) :
    popfd writable old (old ^^^ b) ^^^ old = b &&& writable := by
  apply UInt32.toBitVec_inj.mp
  ext i
  simp only [popfd, UInt32.toBitVec_xor, UInt32.toBitVec_or, UInt32.toBitVec_and,
    UInt32.toBitVec_not, BitVec.getElem_xor, BitVec.getElem_or, BitVec.getElem_and,
    BitVec.getElem_not]
  grind

theorem id_toggles_eq : id_toggles m = (ID_FLAG &&& m.writable != 0) := by
  rw [id_toggles, popfd_xor]

-- The probe finds out whether the gate is open.
theorem a20_open_eq : a20_open m = m.a20 := by
  cases hgate : m.a20 with
  | true =>
      have hne : bus true 0x500 ≠ bus true 0x100500 := by decide
      simp [a20_open, hgate, Function.update_of_ne hne]
  | false =>
      have heq : bus false 0x500 = bus false 0x100500 := by decide
      simp [a20_open, hgate, heq]

end Blocks

end Orin.Boot
