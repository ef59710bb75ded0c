import Orin.Memory.Vmm.Theorems

namespace Orin.Interrupts.Gdt

open Rust Arch Boot Memory.Vmm
open Theory.Radix (Mem)

namespace ist

def COUNT : Nat := 5

end ist

def IST_STACK_SIZE : Nat := 16 * 1024

-- One slot: the guard page, then the usable stack.
def SLOT_BYTES : Nat := PAGE_SIZE + IST_STACK_SIZE

-- `IST_STACKS` at `base`, somewhere in `.bss`.
structure Placed (L : Layout) (base : Nat) : Prop where
  aligned : base % 4096 = 0
  after_start : L.bss.vma ≤ base
  before_end : base + ist.COUNT * SLOT_BYTES ≤ L.bss.vmaEnd

-- Address arithmetic on the array only; the subtraction is checked, the pointer is not.
def slot_base (base slot : Nat) : Except Panic Nat := do
  let i ← sub slot 1
  return base + i * SLOT_BYTES

def ist_stack_top (base slot : Nat) : Except Panic VirtAddr := do
  assert (1 ≤ slot && slot ≤ ist.COUNT) ("ist: bad slot " ++ toString slot)
  let slot_base ← slot_base base slot
  VirtAddr.new (← add slot_base SLOT_BYTES)

def ist_guard_addr (base slot : Nat) : Except Panic VirtAddr := do
  let slot_base ← slot_base base slot
  VirtAddr.new slot_base

-- `TaskStateSegment::new().interrupt_stack_table`.
def empty_table : List VirtAddr := List.replicate 7 ⟨0, .inl (by decide)⟩

-- What `init` leaves in the TSS. It logs the guard pages and changes no mapping.
def init (base : Nat) : Except Panic (List VirtAddr) :=
  forRange 1 (ist.COUNT + 1) empty_table fun slot table => do
    let top ← ist_stack_top base slot
    return table.set (slot - 1) top

section Slots

variable {L : Layout} {base slot : Nat}

theorem Placed.high (h : Placed L base) {v : VirtAddr} (hv : base ≤ v.as_u64) :
    256 ≤ (indices v).pml4 :=
  (image_window (Nat.le_trans (sections L).bss.low (Nat.le_trans h.after_start hv))).1

theorem Placed.canonical (h : Placed L base) {a : Nat} (h1 : base ≤ a)
    (h2 : a ≤ base + ist.COUNT * SLOT_BYTES) : Canonical a := by
  have hlow : KERNEL_VMA ≤ base := Nat.le_trans (sections L).bss.low h.after_start
  have hend : base + ist.COUNT * SLOT_BYTES < 0x10000000000000000 :=
    Nat.lt_of_le_of_lt (Nat.le_trans h.before_end (sections L).bss_le) (sections L).image.high
  rw [KERNEL_VMA_eq] at hlow
  exact .inr (by omega)

theorem slot_base_eq (hslot : 1 ≤ slot) :
    slot_base base slot = .ok (base + (slot - 1) * SLOT_BYTES) := by
  rw [slot_base, sub_of_le hslot]
  rfl

-- A slot ends where the next one begins, and the last one inside the object.
theorem slot_end (base : Nat) (h1 : 1 ≤ slot) (h2 : slot ≤ ist.COUNT) :
    base + (slot - 1) * SLOT_BYTES + SLOT_BYTES ≤ base + ist.COUNT * SLOT_BYTES := by
  have hle : (slot - 1 + 1) * SLOT_BYTES ≤ ist.COUNT * SLOT_BYTES :=
    Nat.mul_le_mul_right _ (by omega)
  rw [Nat.add_mul, Nat.one_mul] at hle
  omega

theorem Placed.ist_guard_addr (h : Placed L base) (h1 : 1 ≤ slot) (h2 : slot ≤ ist.COUNT) :
    ∃ guard : VirtAddr, ist_guard_addr base slot = .ok guard ∧
      guard.as_u64 = base + (slot - 1) * SLOT_BYTES := by
  have hend := slot_end base h1 h2
  obtain ⟨guard, hnew, hguard⟩ := VirtAddr.exists_new
    (h.canonical (a := base + (slot - 1) * SLOT_BYTES) (by omega) (by omega))
  refine ⟨guard, ?_, hguard⟩
  rw [Gdt.ist_guard_addr, slot_base_eq h1, ok_bind, hnew]

theorem Placed.ist_stack_top (h : Placed L base) (h1 : 1 ≤ slot) (h2 : slot ≤ ist.COUNT) :
    ∃ top : VirtAddr, ist_stack_top base slot = .ok top ∧
      top.as_u64 = base + (slot - 1) * SLOT_BYTES + SLOT_BYTES := by
  have hend := slot_end base h1 h2
  have hcanonical := h.canonical (a := base + (slot - 1) * SLOT_BYTES + SLOT_BYTES) (by omega) hend
  obtain ⟨top, hnew, htop⟩ := VirtAddr.exists_new hcanonical
  have hcond : (decide (1 ≤ slot) && decide (slot ≤ ist.COUNT)) = true := by simp [h1, h2]
  refine ⟨top, ?_, htop⟩
  rw [Gdt.ist_stack_top, assert, if_pos hcond, ok_bind, slot_base_eq h1, ok_bind,
    add_of_lt (Canonical.lt_WORD hcanonical), ok_bind, hnew]

-- `init` returns, and each slot of the table holds the top of its stack.
theorem Placed.init (h : Placed L base) : ∃ table, Gdt.init base = .ok table ∧
    ∀ slot, 1 ≤ slot → slot ≤ ist.COUNT →
      ∃ top, Gdt.ist_stack_top base slot = .ok top ∧ table[slot - 1]? = some top := by
  have hspec : Ends (fun table : List VirtAddr => table.length = 7 ∧
      ∀ slot, 1 ≤ slot → slot ≤ ist.COUNT →
        ∃ top, Gdt.ist_stack_top base slot = .ok top ∧ table[slot - 1]? = some top)
      (fun _ => False) (Gdt.init base) := by
    refine (ends_forRange (fun next (table : List VirtAddr) => table.length = 7 ∧
      ∀ slot, 1 ≤ slot → slot < next →
        ∃ top, Gdt.ist_stack_top base slot = .ok top ∧ table[slot - 1]? = some top)
      ⟨rfl, fun slot h1 h2 => by omega⟩ ?_).mono (fun table htable => ⟨htable.1, fun slot h1 h2 =>
        htable.2 slot h1 (by have hmax : max 1 (ist.COUNT + 1) = ist.COUNT + 1 := rfl; omega)⟩)
      fun _ hno => hno
    rintro next table h1 h2 ⟨hlen, hset⟩
    obtain ⟨top, htop, -⟩ := h.ist_stack_top h1 (by omega)
    have hin : next - 1 < table.length := by
      have hcount : ist.COUNT = 5 := rfl
      omega
    rw [htop, ok_bind]
    refine ⟨by rw [List.length_set, hlen], fun slot hs1 hs2 => ?_⟩
    by_cases heq : slot = next
    · subst heq
      exact ⟨top, htop, List.getElem?_set_self hin⟩
    · obtain ⟨old, hold, hat⟩ := hset slot hs1 (by omega)
      exact ⟨old, hold, by rw [List.getElem?_set_ne (by omega), hat]⟩
  cases hinit : Gdt.init base with
  | ok table => exact ⟨table, rfl, (hspec.of_eq_ok hinit).2⟩
  | error e => exact (hspec.of_eq_error hinit).elim

-- The pointers behind the slots stay as they were.
theorem init_rest {tss : List VirtAddr} (h : Gdt.init base = .ok tss) {i : Nat}
    (hi : Gdt.ist.COUNT ≤ i) : tss[i]? = Gdt.empty_table[i]? := by
  have hspec : Ends (fun tss : List VirtAddr => tss[i]? = Gdt.empty_table[i]?) (fun _ => True)
      (Gdt.init base) := by
    refine (ends_forRange (fun _ (tss : List VirtAddr) => tss[i]? = Gdt.empty_table[i]?) rfl ?_)
    intro slot tss h1 h2 htss
    cases htop : Gdt.ist_stack_top base slot with
    | error e => trivial
    | ok top =>
        show (tss.set (slot - 1) top)[i]? = _
        rw [List.getElem?_set_ne (by omega), htss]
  exact hspec.of_eq_ok h

-- Every byte of the object is mapped as data, the guard pages with the rest.
theorem Placed.mapped (h : Placed L base) {mem : Mem Nat Nat Nat} {supply : List Nat} {nx : Bool}
    {info : VmmInfo} {s : State} (hfresh : Fresh L supply)
    (hinit : Memory.Vmm.init (booted L mem supply nx) L.symbols = .ok (info, s)) {v : VirtAddr}
    (h1 : base ≤ v.as_u64) (h2 : v.as_u64 < base + ist.COUNT * SLOT_BYTES) :
    translate s v = .ok (some (v.as_u64 - KERNEL_VMA,
      (v.as_u64 - KERNEL_VMA) / 4096 * 4096 ||| effective s .DataRwNx)) := by
  have hdata : L.symbols.kernel_data_start ≤ v.as_u64 :=
    Nat.le_trans (Nat.le_of_lt (sections L).data_lt) (Nat.le_trans h.after_start h1)
  have hend : v.as_u64 < L.image_end :=
    Nat.lt_of_lt_of_le h2 (Nat.le_trans h.before_end (sections L).bss_le)
  rw [translate_eq (init_low hfresh hinit).1, init_kernel_half hfresh hinit (h.high h1),
    documented_data (sections L) hdata hend]

end Slots

-- What the guard page is for: no address of it is mapped, and the stack above it is data.
def RealGuard (s : State) (base slot : Nat) : Prop :=
  ∃ guard top : VirtAddr, ist_guard_addr base slot = .ok guard ∧ ist_stack_top base slot = .ok top ∧
    (∀ v : VirtAddr, guard.as_u64 ≤ v.as_u64 → v.as_u64 < guard.as_u64 + PAGE_SIZE →
      translate s v = .ok none) ∧
    ∀ v : VirtAddr, guard.as_u64 + PAGE_SIZE ≤ v.as_u64 → v.as_u64 < top.as_u64 →
      ∃ pa page, translate s v = .ok (some (pa, page ||| effective s .DataRwNx))

-- The stacks lie in `.bss`, and `.bss` is mapped without a hole: no slot has a guard.
-- The usable stacks are mapped as they should be, and so is each guard page.
theorem no_slot_guarded (L : Layout) (mem : Mem Nat Nat Nat) (supply : List Nat) (nx : Bool)
    (hfresh : Fresh L supply) (info : VmmInfo) (s : State)
    (hinit : Memory.Vmm.init (booted L mem supply nx) L.symbols = .ok (info, s)) (base : Nat)
    (hplaced : Placed L base) (slot : Nat) (h1 : 1 ≤ slot) (h2 : slot ≤ ist.COUNT) :
    ¬RealGuard s base slot ∧
    ∃ table, init base = .ok table ∧
    ∃ guard top : VirtAddr, ist_guard_addr base slot = .ok guard ∧
      ist_stack_top base slot = .ok top ∧ table[slot - 1]? = some top ∧
      ∀ v : VirtAddr, guard.as_u64 ≤ v.as_u64 → v.as_u64 < top.as_u64 →
        translate s v = .ok (some (v.as_u64 - KERNEL_VMA,
          (v.as_u64 - KERNEL_VMA) / 4096 * 4096 ||| effective s .DataRwNx)) := by
  obtain ⟨guard, hguard, hbase⟩ := hplaced.ist_guard_addr h1 h2
  obtain ⟨top, htop, hlast⟩ := hplaced.ist_stack_top h1 h2
  obtain ⟨table, htable, htops⟩ := hplaced.init
  obtain ⟨top', htop', hat⟩ := htops slot h1 h2
  obtain rfl : top = top' := Except.ok.inj (htop.symm.trans htop')
  have hend := slot_end base h1 h2
  have hmapped : ∀ v : VirtAddr, guard.as_u64 ≤ v.as_u64 → v.as_u64 < top.as_u64 →
      translate s v = .ok (some (v.as_u64 - KERNEL_VMA,
        (v.as_u64 - KERNEL_VMA) / 4096 * 4096 ||| effective s .DataRwNx)) := fun v hv1 hv2 =>
    hplaced.mapped hfresh hinit (by omega) (by omega)
  have hslot : PAGE_SIZE ≤ SLOT_BYTES := by decide
  have hpage : 0 < PAGE_SIZE := by decide
  refine ⟨?_, table, htable, guard, top, hguard, htop, hat, hmapped⟩
  rintro ⟨guard', -, hguard', -, hnone, -⟩
  obtain rfl : guard = guard' := Except.ok.inj (hguard.symm.trans hguard')
  have h := hnone guard (Nat.le_refl _) (by omega)
  rw [hmapped guard (Nat.le_refl _) (by omega)] at h
  cases h

-- The first page of the small image's `.bss`.
def small_stacks : Nat := small_layout.bss.vma

theorem small_stacks_placed : Placed small_layout small_stacks where
  aligned := by
    show small_layout.symbols.kernel_bss_start % 4096 = 0
    exact (sections small_layout).bss.page
  after_start := Nat.le_refl _
  before_end := Nat.add_le_add_left (by decide) _

theorem no_slot_guarded_small :
    ∃ info s, Memory.Vmm.init small_boot small_layout.symbols = .ok (info, s) ∧
      ∀ slot, 1 ≤ slot → slot ≤ ist.COUNT → ¬RealGuard s small_stacks slot := by
  obtain ⟨info, s, hinit⟩ := small_returns
  exact ⟨info, s, hinit, fun slot h1 h2 =>
    (no_slot_guarded _ _ _ _ small_fresh info s hinit _ small_stacks_placed slot h1 h2).1⟩

-- The guard page of the double-fault stack is memory like any other.
theorem double_fault_guard_mapped :
    ∃ info s, ∃ guard : VirtAddr,
      Memory.Vmm.init small_boot small_layout.symbols = .ok (info, s) ∧
      ist_guard_addr small_stacks 1 = .ok guard ∧ ∃ pa e, translate s guard = .ok (some (pa, e)) := by
  obtain ⟨info, s, hinit⟩ := small_returns
  obtain ⟨guard, hguard, hbase⟩ :=
    small_stacks_placed.ist_guard_addr (Nat.le_refl 1) (by decide)
  rw [Nat.sub_self, Nat.zero_mul, Nat.add_zero] at hbase
  have hsize : 0 < ist.COUNT * SLOT_BYTES := by decide
  exact ⟨info, s, guard, hinit, hguard, _, _,
    small_stacks_placed.mapped small_fresh hinit (by omega) (by omega)⟩

end Orin.Interrupts.Gdt
