import Orin.Memory.Vmm.Tree
import Orin.Theory.Levels

namespace Orin.Memory.Vmm

open Rust Arch
open Theory
open Theory.Radix

-- The address and the entry that a mapping gives an address: the last level maps 4 KiB,
-- the level above it 2 MiB.
def resolve (va : VirtAddr) : Nat × List Nat → Nat × Nat
  | (e, []) => (entry_addr e + va.as_u64 % 4096, e)
  | (e, _ :: _) => (entry_addr e / 2 ^ 21 * 2 ^ 21 + va.as_u64 % 2 ^ 21, e)

-- The address space the tables describe.
def mapping (s : State) (va : VirtAddr) : Option (Nat × Nat) :=
  (s.find (path va)).map (resolve va)

theorem mapping_of_find {s : State} {va : VirtAddr} {e : Nat} {r : List Nat}
    (h : s.find (path va) = some (e, r)) : mapping s va = some ((resolve va (e, r)).1, e) := by
  rw [mapping, h]
  cases r <;> rfl

theorem find_of_mapping {s : State} {va : VirtAddr} {q e : Nat} (h : mapping s va = some (q, e)) :
    ∃ r, s.find (path va) = some (e, r) ∧ q = (resolve va (e, r)).1 := by
  cases hfind : s.find (path va) with
  | none =>
      rw [mapping, hfind] at h
      cases h
  | some x =>
      obtain ⟨e', r⟩ := x
      rw [mapping_of_find hfind] at h
      cases h
      exact ⟨r, rfl, rfl⟩

-- Where the lookup of a mapped address ends: at a page directory, or one table further.
theorem Tree.find_cases {s : State} (h : Tree s) {va : VirtAddr} {e : Nat} {r : List Nat}
    (hfind : s.find (path va) = some (e, r)) :
    ∃ pd, s.walk [(indices va).pml4, (indices va).pdpt] = some pd ∧
      (slot (s.mem pd (indices va).pd) = .leaf ∧ e = s.mem pd (indices va).pd ∧
          r = [(indices va).pt] ∨
        ∃ pt, slot (s.mem pd (indices va).pd) = .table pt ∧ e = s.mem pt (indices va).pt ∧ r = []) := by
  rw [State.find, path] at hfind
  cases h4 : slot (s.mem s.kernel_pml4 (indices va).pml4) with
  | empty =>
      rw [find_cons_empty h4] at hfind
      cases hfind
  | leaf => exact absurd h4 (h.upper [] _ _ (by simp) rfl)
  | table pdpt =>
      have hpdpt : s.walk [(indices va).pml4] = some pdpt := walk_cons.mpr ⟨pdpt, h4, rfl⟩
      rw [find_cons_table h4 (by simp)] at hfind
      cases h3 : slot (s.mem pdpt (indices va).pdpt) with
      | empty =>
          rw [find_cons_empty h3] at hfind
          cases hfind
      | leaf => exact absurd h3 (h.upper _ _ _ (by simp) hpdpt)
      | table pd =>
          rw [find_cons_table h3 (by simp)] at hfind
          refine ⟨pd, walk_snoc.mpr ⟨pdpt, hpdpt, h3⟩, ?_⟩
          cases h2 : slot (s.mem pd (indices va).pd) with
          | empty =>
              rw [find_cons_empty h2] at hfind
              cases hfind
          | leaf =>
              rw [find_cons_leaf h2] at hfind
              cases hfind
              exact .inl ⟨rfl, rfl, rfl⟩
          | table pt =>
              rw [find_cons_table h2 (by simp)] at hfind
              by_cases h1 : slot (s.mem pt (indices va).pt) = .empty
              · rw [find_cons_empty h1] at hfind
                cases hfind
              · rw [find_last h1] at hfind
                cases hfind
                exact .inr ⟨pt, rfl, rfl, rfl⟩

theorem large_base {e : Nat} :
    entry_addr e &&& ((WORD - 1) ^^^ (LARGE_PAGE_SIZE - 1)) = entry_addr e / 2 ^ 21 * 2 ^ 21 := by
  have hlt := entry_addr_lt e
  exact and_mask 21 (by rw [WORD_eq]; omega)

theorem large_offset (v : Nat) : v &&& (LARGE_PAGE_SIZE - 1) = v % 2 ^ 21 :=
  Nat.and_two_pow_sub_one_eq_mod v 21

theorem large_lt (e v : Nat) : entry_addr e / 2 ^ 21 * 2 ^ 21 + v % 2 ^ 21 < 0x10000000000000 := by
  have hlt := entry_addr_lt e
  omega

theorem small_lt (e v : Nat) : entry_addr e + v % 4096 < 0x10000000000000 := by
  have hlt := entry_addr_lt e
  have hpage := entry_addr_mod e
  omega

theorem gib_base {e : Nat} :
    entry_addr e &&& ((WORD - 1) ^^^ (1024 * 1024 * 1024 - 1)) = entry_addr e / 2 ^ 30 * 2 ^ 30 := by
  have hlt := entry_addr_lt e
  exact and_mask 30 (by rw [WORD_eq]; omega)

theorem gib_offset (v : Nat) : v &&& (1024 * 1024 * 1024 - 1) = v % 2 ^ 30 :=
  Nat.and_two_pow_sub_one_eq_mod v 30

theorem gib_lt (e v : Nat) : entry_addr e / 2 ^ 30 * 2 ^ 30 + v % 2 ^ 30 < 0x10000000000000 := by
  have hlt := entry_addr_lt e
  omega

theorem phys_new {a b : Nat} (h : a + b < 0x10000000000000) (e : Nat) :
    (do let pa ← PhysAddr.new (← add a b)
        return some (pa.as_u64, e) : Except Panic (Option (Nat × Nat))) = .ok (some (a + b, e)) := by
  rw [add_of_lt (by rw [WORD_eq]; exact Nat.lt_trans h (by decide)), ok_bind, PhysAddr.new_of_lt h]
  rfl

-- How the four levels read an entry: the root has pointers only, the last level pages only,
-- and between them the size bit tells the two apart.
def pointer_slot (e : Nat) : Slot Nat :=
  if is_present e then .table (entry_addr e) else .empty

def page_slot (e : Nat) : Slot Nat :=
  if is_present e then .leaf else .empty

theorem pointer_slot_empty_iff {e : Nat} : pointer_slot e = .empty ↔ is_present e = false := by
  simp [pointer_slot]

theorem pointer_slot_table_iff {e a : Nat} :
    pointer_slot e = .table a ↔ is_present e = true ∧ entry_addr e = a := by
  cases hp : is_present e <;> simp [pointer_slot, hp]

theorem pointer_slot_ne_leaf (e : Nat) : pointer_slot e ≠ .leaf := by
  cases hp : is_present e <;> simp [pointer_slot, hp]

theorem page_slot_empty_iff {e : Nat} : page_slot e = .empty ↔ is_present e = false := by
  simp [page_slot]

theorem page_slot_leaf_iff {e : Nat} : page_slot e = .leaf ↔ is_present e = true := by
  simp [page_slot]

theorem page_slot_ne_table (e a : Nat) : page_slot e ≠ .table a := by
  cases hp : is_present e <;> simp [page_slot, hp]

def PT_LEVELS : List (Nat → Slot Nat) := [page_slot]
def PD_LEVELS : List (Nat → Slot Nat) := slot :: PT_LEVELS
def PDPT_LEVELS : List (Nat → Slot Nat) := slot :: PD_LEVELS
def PML4_LEVELS : List (Nat → Slot Nat) := pointer_slot :: PDPT_LEVELS

abbrev Readable (a : Nat) : Prop := a < BOOT_MAPPED_BYTES ∧ a % 4096 = 0

-- Tables of any shape, as long as each of them can be read where the kernel reads it. Nothing
-- is said of the flags, of the pages, or of how often a table is used.
structure WellFormed (s : State) : Prop where
  root_ne : s.kernel_pml4 ≠ 0
  tables : Levels.All s.mem 512 Readable PML4_LEVELS s.kernel_pml4

-- The entry that maps an address, with the indices that are left below it.
def found (s : State) (va : VirtAddr) : Option (Nat × List Nat) :=
  Levels.find s.mem PML4_LEVELS (path va) s.kernel_pml4

-- The address in a page of 4 KiB, 2 MiB or 1 GiB.
def place (va : VirtAddr) : Nat × List Nat → Nat × Nat
  | (e, []) => (entry_addr e + va.as_u64 % 4096, e)
  | (e, [_]) => (entry_addr e / 2 ^ 21 * 2 ^ 21 + va.as_u64 % 2 ^ 21, e)
  | (e, _ :: _ :: _) => (entry_addr e / 2 ^ 30 * 2 ^ 30 + va.as_u64 % 2 ^ 30, e)

theorem index_lt (v k : Nat) : (v >>> k) &&& 0x1FF < 512 := by
  rw [index_eq]
  exact Nat.mod_lt _ (by decide)

-- The walk of `translate` is the lookup, whatever the tables hold.
theorem translate_found {s : State} (h : WellFormed s) (va : VirtAddr) :
    translate s va = .ok ((found s va).map (place va)) := by
  obtain ⟨hroot, hbelow4⟩ := h.tables
  have hoff : (indices va).offset = va.as_u64 % 4096 := offset_eq _
  rw [translate, if_neg h.root_ne, found, path, PML4_LEVELS]
  simp only [table_at_eq hroot, ok_bind]
  cases h4 : pointer_slot (s.mem s.kernel_pml4 (indices va).pml4) with
  | empty =>
      rw [Levels.find_empty h4]
      simp only [pointer_slot_empty_iff.mp h4]
      rfl
  | leaf => exact absurd h4 (pointer_slot_ne_leaf _)
  | table pdpt =>
      obtain ⟨hp4, ha4⟩ := pointer_slot_table_iff.mp h4
      obtain ⟨hpdpt, hbelow3⟩ := hbelow4 _ (index_lt _ _) pdpt h4
      rw [Levels.find_table h4, PDPT_LEVELS]
      simp only [hp4, ha4, table_at_eq hpdpt, ok_bind, Bool.not_true, Bool.false_eq_true, ↓reduceIte]
      cases h3 : slot (s.mem pdpt (indices va).pdpt) with
      | empty =>
          rw [Levels.find_empty h3]
          simp only [slot_empty_iff.mp h3]
          rfl
      | leaf =>
          obtain ⟨hp3, hh3⟩ := slot_leaf_iff.mp h3
          rw [Levels.find_leaf h3]
          simp only [hp3, hh3, gib_base, gib_offset, Bool.not_true, Bool.false_eq_true, ↓reduceIte]
          exact phys_new (gib_lt _ _) _
      | table pd =>
          obtain ⟨hp3, hh3, ha3⟩ := slot_table_iff.mp h3
          obtain ⟨hpd, hbelow2⟩ := hbelow3 _ (index_lt _ _) pd h3
          rw [Levels.find_table h3, PD_LEVELS]
          simp only [hp3, hh3, ha3, table_at_eq hpd, ok_bind, Bool.not_true, Bool.false_eq_true,
            ↓reduceIte]
          cases h2 : slot (s.mem pd (indices va).pd) with
          | empty =>
              rw [Levels.find_empty h2]
              simp only [slot_empty_iff.mp h2]
              rfl
          | leaf =>
              obtain ⟨hp2, hh2⟩ := slot_leaf_iff.mp h2
              rw [Levels.find_leaf h2]
              simp only [hp2, hh2, large_base, large_offset, Bool.not_true, Bool.false_eq_true,
                ↓reduceIte]
              exact phys_new (large_lt _ _) _
          | table pt =>
              obtain ⟨hp2, hh2, ha2⟩ := slot_table_iff.mp h2
              obtain ⟨hpt, -⟩ := hbelow2 _ (index_lt _ _) pt h2
              rw [Levels.find_table h2, PT_LEVELS]
              simp only [hp2, hh2, ha2, table_at_eq hpt, ok_bind, Bool.not_true, Bool.false_eq_true,
                ↓reduceIte]
              cases h1 : page_slot (s.mem pt (indices va).pt) with
              | empty =>
                  rw [Levels.find_empty h1]
                  simp only [page_slot_empty_iff.mp h1]
                  rfl
              | leaf =>
                  rw [Levels.find_leaf h1]
                  simp only [page_slot_leaf_iff.mp h1, hoff, Bool.not_true, Bool.false_eq_true,
                    ↓reduceIte]
                  exact phys_new (small_lt _ _) _
              | table a => exact absurd h1 (page_slot_ne_table _ _)

section Tree

variable {s : State}

-- Above the page directories of a tree there are only pointers, as the root reads them.
theorem Tree.root_slot (h : Tree s) (i : Nat) :
    pointer_slot (s.mem s.kernel_pml4 i) = slot (s.mem s.kernel_pml4 i) := by
  cases h4 : slot (s.mem s.kernel_pml4 i) with
  | empty => exact pointer_slot_empty_iff.mpr (slot_empty_iff.mp h4)
  | leaf => exact absurd h4 (h.upper [] _ _ (by simp) rfl)
  | table pdpt =>
      obtain ⟨hp, -, ha⟩ := slot_table_iff.mp h4
      exact pointer_slot_table_iff.mpr ⟨hp, ha⟩

theorem Tree.wellFormed (h : Tree s) : WellFormed s := by
  refine ⟨h.root_ne, h.readable _ ⟨[], by decide, rfl⟩, fun i4 _ pdpt h4 => ?_⟩
  rw [h.root_slot] at h4
  have hpdpt : s.walk [i4] = some pdpt := walk_cons.mpr ⟨pdpt, h4, rfl⟩
  refine ⟨h.readable _ ⟨_, by simp, hpdpt⟩, fun i3 _ pd h3 => ?_⟩
  have hpd : s.walk [i4, i3] = some pd := walk_snoc.mpr ⟨pdpt, hpdpt, h3⟩
  refine ⟨h.readable _ ⟨_, by simp, hpd⟩, fun i2 _ pt h2 => ?_⟩
  have hpt : s.walk [i4, i3, i2] = some pt := walk_snoc.mpr ⟨pd, hpd, h2⟩
  exact ⟨h.readable _ ⟨_, by simp, hpt⟩, fun i1 _ a h1 => absurd h1 (page_slot_ne_table _ _)⟩

-- In a tree the level of an entry is known from its size bit alone.
theorem Tree.found_eq (h : Tree s) (va : VirtAddr) : found s va = s.find (path va) := by
  rw [found, State.find, path, PML4_LEVELS]
  have hroot := h.root_slot (indices va).pml4
  cases h4 : slot (s.mem s.kernel_pml4 (indices va).pml4) with
  | empty => rw [find_cons_empty h4, Levels.find_empty (hroot.trans h4)]
  | leaf => exact absurd h4 (h.upper [] _ _ (by simp) rfl)
  | table pdpt =>
      have hpdpt : s.walk [(indices va).pml4] = some pdpt := walk_cons.mpr ⟨pdpt, h4, rfl⟩
      rw [find_cons_table h4 (by simp), Levels.find_table (hroot.trans h4), PDPT_LEVELS]
      cases h3 : slot (s.mem pdpt (indices va).pdpt) with
      | empty => rw [find_cons_empty h3, Levels.find_empty h3]
      | leaf => exact absurd h3 (h.upper _ _ _ (by simp) hpdpt)
      | table pd =>
          rw [find_cons_table h3 (by simp), Levels.find_table h3, PD_LEVELS]
          cases h2 : slot (s.mem pd (indices va).pd) with
          | empty => rw [find_cons_empty h2, Levels.find_empty h2]
          | leaf => rw [find_cons_leaf h2, Levels.find_leaf h2]
          | table pt =>
              rw [find_cons_table h2 (by simp), Levels.find_table h2, PT_LEVELS]
              by_cases h1 : slot (s.mem pt (indices va).pt) = .empty
              · rw [find_cons_empty h1,
                  Levels.find_empty (page_slot_empty_iff.mpr (slot_empty_iff.mp h1))]
              · have hp1 : is_present (s.mem pt (indices va).pt) = true := by
                  simpa [slot_empty_iff] using h1
                rw [find_last h1, Levels.find_leaf (page_slot_leaf_iff.mpr hp1)]

theorem translate_eq (h : Tree s) (va : VirtAddr) : translate s va = .ok (mapping s va) := by
  rw [translate_found h.wellFormed, h.found_eq, mapping]
  congr 1
  cases hfind : s.find (path va) with
  | none => rfl
  | some x =>
      obtain ⟨e, r⟩ := x
      -- a tree has no page of 1 GiB
      obtain ⟨pd, -, ⟨-, -, rfl⟩ | ⟨pt, -, -, rfl⟩⟩ := h.find_cases hfind
      · rfl
      · rfl

end Tree

end Orin.Memory.Vmm
