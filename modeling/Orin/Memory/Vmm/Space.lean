import Orin.Memory.Vmm.Map
import Orin.Memory.Vmm.Translate

namespace Orin.Memory.Vmm

open Rust Arch
open Theory.Radix

-- What an address space is for: a physical address and flags for some addresses.
abbrev Space := VirtAddr → Option (Nat × Nat)

-- The space with a range of pages mapped to consecutive frames.
def Space.lay (m : Space) (va pa len f : Nat) : Space := fun v =>
  if va ≤ v.as_u64 ∧ v.as_u64 < va + len then
    some (pa + (v.as_u64 - va), page_entry va pa f v.as_u64)
  else m v

section Lay

variable {m : Space} {va pa len f : Nat} {v : VirtAddr}

theorem Space.lay_inside (h1 : va ≤ v.as_u64) (h2 : v.as_u64 < va + len) :
    m.lay va pa len f v = some (pa + (v.as_u64 - va), page_entry va pa f v.as_u64) :=
  if_pos ⟨h1, h2⟩

theorem Space.lay_outside (h : ¬(va ≤ v.as_u64 ∧ v.as_u64 < va + len)) :
    m.lay va pa len f v = m v :=
  if_neg h

theorem Space.lay_zero : m.lay va pa 0 f = m := by
  funext v
  exact Space.lay_outside (by omega)

end Lay

theorem page_entry_addr {s : State} {perm : Perm} {va pa v : Nat} (hpa : pa % 4096 = 0)
    (hva : va % 4096 = 0) (hlt : pa + (v - va) < 0x10000000000000) :
    entry_addr (page_entry va pa (effective s perm) v) = pa + (v / 4096 * 4096 - va) := by
  rw [page_entry, entry_addr_or, effective_addr, Nat.or_zero]
  exact entry_addr_of_page (by omega) (by omega)

-- The tables refine the space: mapping pages is laying the range over what was mapped.
theorem Laid.mapping_eq {s s' : State} {perm : Perm} {va pa len : Nat}
    (h : Laid s s' va pa len (effective s perm)) (hva : va % 4096 = 0) (hpa : pa % 4096 = 0)
    (hfits : pa + len ≤ 0x10000000000000) :
    mapping s' = Space.lay (mapping s) va pa len (effective s perm) := by
  funext v
  by_cases hin : va ≤ v.as_u64 ∧ v.as_u64 < va + len
  · have haddr : entry_addr (page_entry va pa (effective s perm) v.as_u64) =
        pa + (v.as_u64 / 4096 * 4096 - va) := page_entry_addr hpa hva (by omega)
    rw [Space.lay_inside hin.1 hin.2, mapping, h.inside v hin.1 hin.2, Option.map_some, resolve, haddr]
    congr 2
    omega
  · rw [Space.lay_outside hin, mapping, mapping, h.outside v hin]

end Orin.Memory.Vmm
