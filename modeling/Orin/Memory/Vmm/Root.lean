import Orin.Boot.Tables
import Orin.Memory.Vmm.Translate
import Mathlib.Data.Finset.Card

namespace Orin.Memory.Vmm

open Rust Arch Boot
open Theory.Radix

-- Frames as the frame allocator hands them out: pages below 2 GiB, each once, none of
-- the image. What they hold does not matter.
structure Fresh (L : Layout) (supply : List Nat) : Prop where
  nodup : supply.Nodup
  readable : ∀ a ∈ supply, a < BOOT_MAPPED_BYTES ∧ a % PAGE_SIZE = 0
  outside : ∀ a ∈ supply, ¬(image_phys_start ≤ a ∧ a < L.kernel_phys_end)

-- There are 2^19 pages below 2 GiB.
theorem Fresh.length_le {L : Layout} {supply : List Nat} (h : Fresh L supply) :
    supply.length ≤ 524288 := by
  have hsub : supply.toFinset ⊆ (Finset.range 524288).image (fun k => k * 4096) := by
    intro a ha
    obtain ⟨hlt, hpage⟩ := h.readable a (List.mem_toFinset.mp ha)
    rw [BOOT_MAPPED_BYTES_eq] at hlt
    rw [PAGE_SIZE] at hpage
    exact Finset.mem_image.mpr ⟨a / 4096, Finset.mem_range.mpr (by omega), by omega⟩
  calc supply.length = supply.toFinset.card := (List.toFinset_card_of_nodup h.nodup).symm
    _ ≤ ((Finset.range 524288).image (fun k => k * 4096)).card := Finset.card_le_card hsub
    _ ≤ (Finset.range 524288).card := Finset.card_image_le
    _ = 524288 := Finset.card_range _

-- The frames above an image are fresh.
theorem fresh_above (L : Layout) {first n : Nat} (hfirst : L.kernel_phys_end ≤ first)
    (hpage : first % 4096 = 0) (hlast : first + n * 4096 ≤ BOOT_MAPPED_BYTES) :
    Fresh L ((List.range n).map fun i => first + i * 4096) where
  nodup := List.nodup_range.map fun i j (hij : first + i * 4096 = first + j * 4096) => by omega
  readable a ha := by
    obtain ⟨i, hi, rfl⟩ := List.mem_map.mp ha
    rw [List.mem_range] at hi
    rw [PAGE_SIZE]
    omega
  outside a ha := by
    obtain ⟨i, -, rfl⟩ := List.mem_map.mp ha
    omega

-- The machine as the boot stub hands it over.
def booted (L : Layout) (mem : Mem Nat Nat Nat) (supply : List Nat) (nx : Bool) : State :=
  State.new (boot_memory mem L.boot_bss_phys_start) supply (boot_pml4 L.boot_bss_phys_start) nx

theorem boot_tables_inside (L : Layout) {k : Nat} (hk : k < 4) :
    image_phys_start ≤ L.boot_bss_phys_start + k * 4096 ∧
      L.boot_bss_phys_start + k * 4096 < L.kernel_phys_end := by
  have h1 := L.boot_bss_after_start
  have h2 := L.text_after_boot
  have h3 := L.rodata_after_text
  have h4 := L.data_after_rodata
  have h5 := L.eh_frame_after_data
  have h6 := L.got_after_eh_frame
  have h7 := L.boot_params_after_got
  have h8 := L.bss_after_boot_params
  have h9 := L.heap_after_bss
  simp only [Section.lmaEnd, EXPECTED_BOOT_BSS_SIZE, image_phys_start, Layout.kernel_phys_end,
    Layout.heap_phys_end, HEAP_SIZE] at *
  omega

theorem boot_tables_readable (L : Layout) {k : Nat} (hk : k < 4) :
    L.boot_bss_phys_start + k * 4096 < BOOT_MAPPED_BYTES ∧
      (L.boot_bss_phys_start + k * 4096) % 4096 = 0 := by
  have h1 := (boot_tables_inside L hk).2
  have h2 := L.heap_mapped
  have h3 := L.boot_bss_aligned
  simp only [Layout.kernel_phys_end, Layout.heap_phys_end, LARGE_PAGE_SIZE] at *
  omega

theorem Fresh.ne_boot {L : Layout} {supply : List Nat} (h : Fresh L supply) {c : Nat}
    (hc : c ∈ supply) {k : Nat} (hk : k < 4) : L.boot_bss_phys_start + k * 4096 ≠ c := by
  rintro rfl
  exact h.outside _ hc (boot_tables_inside L hk)

-- A 2 MiB page as the stub writes it.
theorem boot_entry (n : Nat) : 0x83 + n * 0x200000 = n * 0x200000 ||| 0x83 := by
  rw [show n * 0x200000 = n <<< 21 by rw [Nat.shiftLeft_eq], Nat.add_comm]
  exact Nat.shiftLeft_add_eq_or_of_lt (by decide) n

theorem slot_boot_entry (n : Nat) : slot (0x83 + n * 0x200000) = .leaf := by
  rw [boot_entry, slot_leaf_iff, is_present_or _ (by omega), is_huge_or _ (by omega)]
  exact ⟨rfl, rfl⟩

-- The state in which the new root has just taken over slot 0.
def rooted (L : Layout) (mem : Mem Nat Nat Nat) (c : Nat) (rest : List Nat) (nx : Bool) : State where
  mem := write (fill (boot_memory mem L.boot_bss_phys_start) c 0) c 0
    (boot_pdpt L.boot_bss_phys_start ||| 0x3)
  supply := rest
  allocated := 1
  frames := (List.replicate 64 0).set 0 c
  kernel_pml4 := c
  cr3 := boot_pml4 L.boot_bss_phys_start
  nx_available := nx

section Rooted

variable {L : Layout} {mem : Mem Nat Nat Nat} {c : Nat} {rest : List Nat} {nx : Bool}

theorem new_root_eq (hfresh : Fresh L (c :: rest)) :
    new_root (booted L mem (c :: rest) nx) = .ok (rooted L mem c rest nx) := by
  have hboot := boot_tables_readable L (show 0 < 4 by decide)
  have hc := hfresh.readable c List.mem_cons_self
  have hne := hfresh.ne_boot (List.mem_cons_self) (show 0 < 4 by decide)
  rw [Nat.zero_mul, Nat.add_zero] at hboot hne
  have hcr3 : (booted L mem (c :: rest) nx).cr3 = L.boot_bss_phys_start := rfl
  have hentry : fill (boot_memory mem L.boot_bss_phys_start) c 0 L.boot_bss_phys_start 0 =
      boot_pdpt L.boot_bss_phys_start ||| 0x3 := by
    rw [fill_elsewhere _ 0 0 hne]
    exact boot_memory_pml4
  rw [new_root]
  simp only [hcr3, hboot.1, decide_true, assert, ↓reduceIte, ok_bind]
  rw [alloc]
  simp only [booted, State.new, add_of_lt (show 0 + 1 < WORD by rw [WORD_eq]; decide), ok_bind,
    pure, Except.pure, table_at_eq hboot, table_at_eq hc, State.set, hentry]
  rfl

theorem rooted_root (j : Nat) :
    (rooted L mem c rest nx).mem (rooted L mem c rest nx).kernel_pml4 j =
      if j = 0 then boot_pdpt L.boot_bss_phys_start ||| 0x3 else 0 := by
  by_cases hj : j = 0
  · simp [rooted, hj]
  · simp [rooted, write, hj]

end Rooted

theorem slot_boot_pointer (L : Layout) {k : Nat} (hk : k < 4) :
    slot ((L.boot_bss_phys_start + k * 4096) ||| 0x3) = .table (L.boot_bss_phys_start + k * 4096) := by
  obtain ⟨hlt, hpage⟩ := boot_tables_readable L hk
  exact slot_pointer hpage (Nat.lt_trans hlt BOOT_MAPPED_lt_PHYS)

-- The boot map below slot 0 of the root: 1024 pages of 2 MiB, `entry n` for the page `n`.
structure Low (bss : Nat) (entry : Nat → Nat) (s : State) : Prop where
  root : slot (s.mem s.kernel_pml4 0) = .table (boot_pdpt bss)
  pdpt : ∀ j, slot (s.mem (boot_pdpt bss) j) =
    if j = 0 ∨ j = 510 then .table (boot_pd0 bss)
    else if j = 1 ∨ j = 511 then .table (boot_pd1 bss) else .empty
  pd0 : ∀ j, s.mem (boot_pd0 bss) j = if j < 512 then entry j else 0
  pd1 : ∀ j, s.mem (boot_pd1 bss) j = if j < 512 then entry (512 + j) else 0
  leaf : ∀ n, slot (entry n) = .leaf

namespace Low

variable {bss : Nat} {entry : Nat → Nat} {s : State} (h : Low bss entry s)

include h

theorem slot_pd0 (j : Nat) :
    slot (s.mem (boot_pd0 bss) j) = if j < 512 then .leaf else .empty := by
  rw [h.pd0]
  split
  · exact h.leaf j
  · exact slot_zero

theorem slot_pd1 (j : Nat) :
    slot (s.mem (boot_pd1 bss) j) = if j < 512 then .leaf else .empty := by
  rw [h.pd1]
  split
  · exact h.leaf (512 + j)
  · exact slot_zero

theorem walk_pdpt : s.walk [0] = some (boot_pdpt bss) := walk_cons.mpr ⟨_, h.root, rfl⟩

theorem walk_pd {j a : Nat} : s.walk [0, j] = some a ↔
    (j = 0 ∨ j = 510) ∧ a = boot_pd0 bss ∨ (j = 1 ∨ j = 511) ∧ a = boot_pd1 bss := by
  have hentry : s.walk [0, j] = some a ↔ slot (s.mem (boot_pdpt bss) j) = .table a := by
    rw [show [0, j] = [0] ++ [j] from rfl, walk_snoc]
    simp [h.walk_pdpt]
  rw [hentry, h.pdpt]
  constructor
  · intro hslot
    split_ifs at hslot with h0 h1
    · cases hslot
      exact .inl ⟨h0, rfl⟩
    · cases hslot
      exact .inr ⟨h1, rfl⟩
  · rintro (⟨hj, rfl⟩ | ⟨hj, rfl⟩)
    · rw [if_pos hj]
    · rw [if_neg (by omega), if_pos hj]

-- What happens elsewhere in the tree does not show here.
theorem of_sameUnder {s' : State} (same : SameUnder 0 s s') : Low bss entry s' where
  root := by
    rw [same.root, same.slot]
    exact h.root
  pdpt j := by
    rw [same.rows [] _ (by decide) h.walk_pdpt j]
    exact h.pdpt j
  pd0 j := by
    rw [same.rows [0] _ (by decide) (h.walk_pd.mpr (.inl ⟨.inl rfl, rfl⟩)) j]
    exact h.pd0 j
  pd1 j := by
    rw [same.rows [1] _ (by decide) (h.walk_pd.mpr (.inr ⟨.inl rfl, rfl⟩)) j]
    exact h.pd1 j
  leaf := h.leaf

-- The entry under which the boot map has an address.
theorem find_path {va : VirtAddr} (h4 : (indices va).pml4 = 0) : s.find (path va) =
    if (indices va).pdpt = 0 ∨ (indices va).pdpt = 510 then
      some (entry (indices va).pd, [(indices va).pt])
    else if (indices va).pdpt = 1 ∨ (indices va).pdpt = 511 then
      some (entry (512 + (indices va).pd), [(indices va).pt])
    else none := by
  have hpd : (indices va).pd < 512 := by
    simp only [indices, index_eq]
    exact Nat.mod_lt _ (by decide)
  have hpdpt := h.pdpt (indices va).pdpt
  rw [State.find, path, h4, find_cons_table h.root (by simp)]
  by_cases h0 : (indices va).pdpt = 0 ∨ (indices va).pdpt = 510
  · rw [if_pos h0] at hpdpt
    rw [if_pos h0, find_cons_table hpdpt (by simp),
      find_cons_leaf (by rw [h.slot_pd0, if_pos hpd]), h.pd0, if_pos hpd]
  · rw [if_neg h0] at hpdpt
    rw [if_neg h0]
    by_cases h1 : (indices va).pdpt = 1 ∨ (indices va).pdpt = 511
    · rw [if_pos h1] at hpdpt
      rw [if_pos h1, find_cons_table hpdpt (by simp),
        find_cons_leaf (by rw [h.slot_pd1, if_pos hpd]), h.pd1, if_pos hpd]
    · rw [if_neg h1] at hpdpt
      rw [if_neg h1, find_cons_empty hpdpt]

end Low

-- A root that leads to the boot map and nowhere else.
structure Inherits (bss : Nat) (s : State) : Prop extends
    Low bss (fun n => 0x83 + n * 0x200000) s where
  rest : ∀ j, j ≠ 0 → slot (s.mem s.kernel_pml4 j) = .empty

theorem rooted_inherits {L : Layout} {c : Nat} {rest : List Nat} (mem : Mem Nat Nat Nat) (nx : Bool)
    (hfresh : Fresh L (c :: rest)) : Inherits L.boot_bss_phys_start (rooted L mem c rest nx) := by
  have hboot : ∀ k, k < 4 → ∀ j, (rooted L mem c rest nx).mem (L.boot_bss_phys_start + k * 4096) j =
      boot_memory mem L.boot_bss_phys_start (L.boot_bss_phys_start + k * 4096) j := by
    intro k hk j
    have hne := hfresh.ne_boot List.mem_cons_self hk
    exact (write_table _ j _ hne).trans (fill_elsewhere _ 0 j hne)
  have hpdpt : boot_pdpt L.boot_bss_phys_start = L.boot_bss_phys_start + 1 * 4096 := by
    rw [boot_pdpt, Nat.one_mul]
  refine ⟨⟨?_, fun j => ?_, fun j => ?_, fun j => ?_, slot_boot_entry⟩, fun j hj => ?_⟩
  · rw [rooted_root, if_pos rfl, hpdpt]
    exact slot_boot_pointer L (by decide)
  · rw [hpdpt, hboot 1 (by decide), ← hpdpt, boot_memory_pdpt]
    split
    · exact slot_boot_pointer L (show 2 < 4 by decide)
    · split
      · exact slot_boot_pointer L (show 3 < 4 by decide)
      · exact slot_zero
  · exact (hboot 2 (by decide) j).trans boot_memory_pd0
  · rw [show 0x83 + (512 + j) * 0x200000 = 0x40000083 + j * 0x200000 by omega]
    exact (hboot 3 (by decide) j).trans boot_memory_pd1
  · rw [rooted_root, if_neg hj]
    exact slot_zero

namespace Inherits

variable {bss : Nat} {s : State} (h : Inherits bss s)

include h

theorem walk_one {i a : Nat} : s.walk [i] = some a ↔ i = 0 ∧ a = boot_pdpt bss := by
  by_cases hi : i = 0
  · subst hi
    rw [h.walk_pdpt]
    simp [eq_comm]
  · rw [walk_cons]
    simp [hi, h.rest i hi]

theorem walk_two {i j a : Nat} : s.walk [i, j] = some a ↔
    i = 0 ∧ ((j = 0 ∨ j = 510) ∧ a = boot_pd0 bss ∨ (j = 1 ∨ j = 511) ∧ a = boot_pd1 bss) := by
  by_cases hi : i = 0
  · subst hi
    rw [h.walk_pd]
    simp
  · rw [walk_cons]
    simp [hi, h.rest i hi]

theorem walk_three {i j k : Nat} : s.walk [i, j, k] = none := by
  rw [Option.eq_none_iff_forall_ne_some]
  intro a ha
  obtain ⟨b, hb, hentry⟩ := walk_snoc.mp (show s.walk ([i, j] ++ [k]) = some a from ha)
  obtain ⟨-, ⟨-, rfl⟩ | ⟨-, rfl⟩⟩ := h.walk_two.mp hb
  · rw [h.slot_pd0] at hentry
    split at hentry <;> cases hentry
  · rw [h.slot_pd1] at hentry
    split at hentry <;> cases hentry

theorem find_rest {va : VirtAddr} (h4 : (indices va).pml4 ≠ 0) : s.find (path va) = none := by
  rw [State.find, path, find_cons_empty (h.rest _ h4)]

-- The name of the paths that lead to a table.
def label (bss : Nat) (s : State) (a : Nat) : List Nat :=
  if a = s.kernel_pml4 then [] else if a = boot_pdpt bss then [0]
  else if a = boot_pd0 bss then [0, 0] else [0, 1]

theorem home_eq_label (hroot : ∀ k, k < 4 → bss + k * 4096 ≠ s.kernel_pml4) {p : List Nat} {a : Nat}
    (hp : p.length < 4) (ha : s.walk p = some a) : home p = label bss s a := by
  have h1 := hroot 1 (by decide)
  have h2 := hroot 2 (by decide)
  have h3 := hroot 3 (by decide)
  match p, hp with
  | [], _ =>
      cases ha
      simp [home, label]
  | [i], _ =>
      obtain ⟨rfl, rfl⟩ := h.walk_one.mp ha
      rw [label, if_neg (by rw [boot_pdpt]; omega), if_pos rfl]
      rfl
  | [i, j], _ =>
      obtain ⟨rfl, ⟨hj, rfl⟩ | ⟨hj, rfl⟩⟩ := h.walk_two.mp ha
      · rw [label, if_neg (show boot_pd0 bss ≠ _ from h2), if_neg (by rw [boot_pd0, boot_pdpt]; omega), if_pos rfl]
        rcases hj with rfl | rfl <;> rfl
      · rw [label, if_neg (show boot_pd1 bss ≠ _ from h3),
          if_neg (by rw [boot_pd1, boot_pdpt]; omega), if_neg (by rw [boot_pd1, boot_pd0]; omega)]
        rcases hj with rfl | rfl <;> rfl
  | [i, j, k], _ => cases h.walk_three.symm.trans ha

theorem isTable_cases {a : Nat} (ha : s.IsTable a) :
    a = s.kernel_pml4 ∨ ∃ k, k < 4 ∧ a = bss + k * 4096 := by
  obtain ⟨p, hp, ha⟩ := ha
  match p, hp with
  | [], _ =>
      cases ha
      exact .inl rfl
  | [i], _ => exact .inr ⟨1, by decide, by rw [(h.walk_one.mp ha).2, boot_pdpt, Nat.one_mul]⟩
  | [i, j], _ =>
      obtain ⟨-, ⟨-, rfl⟩ | ⟨-, rfl⟩⟩ := h.walk_two.mp ha
      · exact .inr ⟨2, by decide, rfl⟩
      · exact .inr ⟨3, by decide, rfl⟩
  | [i, j, k], _ => cases h.walk_three.symm.trans ha

end Inherits

theorem rooted_tree {L : Layout} {c : Nat} {rest : List Nat} (mem : Mem Nat Nat Nat) (nx : Bool)
    (hfresh : Fresh L (c :: rest)) (hc : c ≠ 0) : Tree (rooted L mem c rest nx) := by
  have h := rooted_inherits mem nx hfresh
  have hroot : ∀ k, k < 4 → L.boot_bss_phys_start + k * 4096 ≠ (rooted L mem c rest nx).kernel_pml4 :=
    fun k hk => hfresh.ne_boot List.mem_cons_self hk
  have hnodup := List.nodup_cons.mp hfresh.nodup
  exact
    { root_ne := hc
      separate := fun p q a hp hq ha hb =>
        (h.home_eq_label hroot hp ha).trans (h.home_eq_label hroot hq hb).symm
      readable := by
        intro a ha
        rcases h.isTable_cases ha with rfl | ⟨k, hk, rfl⟩
        · exact hfresh.readable _ List.mem_cons_self
        · exact boot_tables_readable L hk
      upper := by
        intro p a j hp ha
        match p, hp with
        | [], _ =>
            cases ha
            by_cases hj : j = 0
            · rw [hj, h.root]
              simp
            · rw [h.rest j hj]
              simp
        | [i], _ =>
            obtain ⟨-, rfl⟩ := h.walk_one.mp ha
            rw [h.pdpt]
            split_ifs <;> simp
      boot_present := by
        intro i3 hi3
        simp only [BOOT_SLOTS, List.mem_cons, List.not_mem_nil, or_false] at hi3
        by_cases h0 : i3 = 0 ∨ i3 = 510
        · exact ⟨_, h.walk_two.mpr ⟨rfl, .inl ⟨h0, rfl⟩⟩⟩
        · exact ⟨_, h.walk_two.mpr ⟨rfl, .inr ⟨by omega, rfl⟩⟩⟩
      boot_leaf := by
        intro i3 _ a j hj ha
        obtain ⟨-, ⟨-, rfl⟩ | ⟨-, rfl⟩⟩ := h.walk_two.mp ha
        · rw [h.slot_pd0, if_pos hj]
        · rw [h.slot_pd1, if_pos hj]
      supply_nodup := hnodup.2
      supply_readable := fun a ha => hfresh.readable a (List.mem_cons_of_mem c ha)
      supply_fresh := by
        intro a ha hin
        rcases h.isTable_cases hin with rfl | ⟨k, hk, rfl⟩
        · exact hnodup.1 ha
        · exact hfresh.ne_boot (List.mem_cons_of_mem c ha) hk rfl }

end Orin.Memory.Vmm
