import Orin.Arch

namespace Orin.Arch

open Rust

-- The address types are the `x86_64` crate's, with the checks it documents.
-- Bits 47 to 63 are copies of each other: the only virtual addresses there are.
def Canonical (v : Nat) : Prop :=
  v < 0x800000000000 ∨ 0xFFFF800000000000 ≤ v ∧ v < 0x10000000000000000

instance (v : Nat) : Decidable (Canonical v) :=
  inferInstanceAs (Decidable (_ ∨ _))

@[ext] structure VirtAddr where
  as_u64 : Nat
  canonical : Canonical as_u64
  deriving DecidableEq

-- Physical addresses have 52 bits.
@[ext] structure PhysAddr where
  as_u64 : Nat
  small : as_u64 < 0x10000000000000
  deriving DecidableEq

def VirtAddr.new (v : Nat) : Except Panic VirtAddr :=
  if h : Canonical v then .ok ⟨v, h⟩
  else .error (.explicit "virtual address must be sign extended in bits 48 to 64")

def PhysAddr.new (p : Nat) : Except Panic PhysAddr :=
  if h : p < 0x10000000000000 then .ok ⟨p, h⟩
  else .error (.explicit "physical addresses must not have any bits in the range 52 to 64 set")

theorem VirtAddr.new_of_canonical {v : Nat} (h : Canonical v) : VirtAddr.new v = .ok ⟨v, h⟩ := by
  simp [VirtAddr.new, h]

theorem VirtAddr.exists_new {v : Nat} (h : Canonical v) :
    ∃ va : VirtAddr, VirtAddr.new v = .ok va ∧ va.as_u64 = v :=
  ⟨⟨v, h⟩, VirtAddr.new_of_canonical h, rfl⟩

theorem PhysAddr.new_of_lt {p : Nat} (h : p < 0x10000000000000) : PhysAddr.new p = .ok ⟨p, h⟩ := by
  simp [PhysAddr.new, h]

theorem PhysAddr.exists_new {p : Nat} (h : p < 0x10000000000000) :
    ∃ pa : PhysAddr, PhysAddr.new p = .ok pa ∧ pa.as_u64 = p :=
  ⟨⟨p, h⟩, PhysAddr.new_of_lt h, rfl⟩

theorem ends_VirtAddr_new {P : VirtAddr → Prop} {S : Panic → Prop} {v : Nat}
    (hP : ∀ va : VirtAddr, va.as_u64 = v → P va) (hS : ¬Canonical v → ∀ e, S e) :
    Ends P S (VirtAddr.new v) := by
  unfold VirtAddr.new
  split
  · exact hP _ rfl
  · exact hS ‹_› _

-- The physical address a kernel-space address names; low addresses are refused.
def virt_to_phys (va : VirtAddr) : Except Panic (Option PhysAddr) :=
  if va.as_u64 < KERNEL_SPACE_START then .ok none
  else do
    let pa ← PhysAddr.new ((va.as_u64 + WORD - KERNEL_VMA) % WORD)
    return some pa

def phys_to_virt (pa : PhysAddr) : Except Panic VirtAddr :=
  VirtAddr.new ((pa.as_u64 + KERNEL_VMA) % WORD)

end Orin.Arch
