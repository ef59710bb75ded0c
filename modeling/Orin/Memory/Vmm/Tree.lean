import Orin.Memory.Vmm.Entry

namespace Orin.Memory.Vmm

open Rust Arch
open Theory.Radix

-- The boot PDPT reaches its page directories from slots 510 and 511 as well. These are
-- the only tables with two paths.
def boot_slot (i j : Nat) : Nat :=
  if i = 0 ∧ j = 510 then 0 else if i = 0 ∧ j = 511 then 1 else j

def home : List Nat → List Nat
  | i :: j :: rest => i :: boot_slot i j :: rest
  | p => p

theorem home_naming : Naming home where
  length p := by
    unfold home
    split <;> simp
  snoc p q i hpq := by
    match p, q with
    | [], [] => rfl
    | [], [b] => simp [home] at hpq
    | [], b :: c :: q => simp [home] at hpq
    | [a], [] => simp [home] at hpq
    | [a], [b] =>
        simp only [home, List.cons.injEq, and_true] at hpq
        rw [hpq]
    | [a], b :: c :: q => simp [home] at hpq
    | a :: b :: p, [] => simp [home] at hpq
    | a :: b :: p, [c] => simp [home] at hpq
    | a :: b :: p, c :: d :: q =>
        simp only [home, List.cons.injEq] at hpq
        obtain ⟨rfl, hbd, rfl⟩ := hpq
        simp only [List.cons_append, home, hbd]

def BOOT_SLOTS : List Nat := [0, 1, 510, 511]

theorem boot_slot_inj {i a b : Nat} (h : ¬(i = 0 ∧ b ∈ BOOT_SLOTS))
    (hab : boot_slot i a = boot_slot i b) : a = b := by
  simp only [BOOT_SLOTS, List.mem_cons, List.not_mem_nil, or_false] at h
  unfold boot_slot at hab
  split_ifs at hab <;> omega

abbrev State.walk (s : State) (p : List Nat) : Option Nat :=
  Theory.Radix.walk slot s.mem s.kernel_pml4 p

abbrev State.find (s : State) (p : List Nat) : Option (Nat × List Nat) :=
  Theory.Radix.find slot s.mem s.kernel_pml4 p

abbrev State.IsTable (s : State) (a : Nat) : Prop :=
  Reached slot 4 s.mem s.kernel_pml4 a

-- The kernel's page tables: a tree of pages below 2 GiB, which shares the boot page
-- directories and nothing else, with frames for more tables that are not in it yet.
structure Tree (s : State) : Prop where
  root_ne : s.kernel_pml4 ≠ 0
  separate : Separate slot home 4 s.mem s.kernel_pml4
  readable : ∀ a, s.IsTable a → a < BOOT_MAPPED_BYTES ∧ a % 4096 = 0
  -- large pages stand in page directories only
  upper : ∀ p a i, p.length < 2 → s.walk p = some a → slot (s.mem a i) ≠ .leaf
  boot_present : ∀ i3 ∈ BOOT_SLOTS, ∃ a, s.walk [0, i3] = some a
  boot_leaf : ∀ i3 ∈ BOOT_SLOTS, ∀ a i, i < 512 → s.walk [0, i3] = some a → slot (s.mem a i) = .leaf
  supply_nodup : s.supply.Nodup
  supply_readable : ∀ a ∈ s.supply, a < BOOT_MAPPED_BYTES ∧ a % 4096 = 0
  supply_fresh : ∀ a ∈ s.supply, ¬s.IsTable a

theorem table_at_eq {a : Nat} (h : a < BOOT_MAPPED_BYTES ∧ a % 4096 = 0) : table_at a = .ok a := by
  unfold table_at
  exact if_pos h

namespace Tree

variable {s : State} (h : Tree s) {p q : List Nat} {a b : Nat}

include h

theorem table_at (hp : p.length < 4) (ha : s.walk p = some a) : Vmm.table_at a = .ok a :=
  table_at_eq (h.readable a ⟨p, hp, ha⟩)

theorem table_at_root : Vmm.table_at s.kernel_pml4 = .ok s.kernel_pml4 :=
  h.table_at (p := []) (by decide) rfl

theorem ne_of_length (hp : p.length < 4) (hq : q.length < 4) (ha : s.walk p = some a)
    (hb : s.walk q = some b) (hlen : p.length ≠ q.length) : a ≠ b := by
  rintro rfl
  exact hlen (home_naming.length_eq (h.separate p q a hp hq ha hb))

-- A table below the boot directories does not exist.
theorem not_boot {i4 i3 i2 : Nat} (hi : i2 < 512) (ha : s.walk [i4, i3, i2] = some a) :
    ¬(i4 = 0 ∧ i3 ∈ BOOT_SLOTS) := by
  rintro ⟨rfl, hi3⟩
  obtain ⟨b, hb, hentry⟩ := walk_snoc.mp (show s.walk ([0, i3] ++ [i2]) = some a from ha)
  rw [h.boot_leaf i3 hi3 b i2 hi hb] at hentry
  cases hentry

-- So a page table has one path.
theorem path_unique {i4 i3 i2 : Nat} (hi : i2 < 512) (ha : s.walk [i4, i3, i2] = some a)
    (hp : p.length < 4) (hname : home p = home [i4, i3, i2]) : p = [i4, i3, i2] := by
  have hboot := h.not_boot hi ha
  have hlen := home_naming.length_eq hname
  match p, hlen with
  | [j4, j3, j2], _ =>
      simp only [home, List.cons.injEq, and_true] at hname
      obtain ⟨rfl, h3, rfl⟩ := hname
      rw [boot_slot_inj hboot h3]

end Tree

-- Nothing of the tree changes while the entries of its tables say the same to a walk.
theorem Tree.of_slots {s s' : State} (h : Tree s) (hroot : s'.kernel_pml4 = s.kernel_pml4)
    (hsupply : s'.supply = s.supply)
    (hslot : ∀ a j, s.IsTable a → slot (s'.mem a j) = slot (s.mem a j)) : Tree s' := by
  have hwalk : ∀ p : List Nat, p.length < 4 → s'.walk p = s.walk p := by
    intro p hp
    rw [State.walk, State.walk, hroot]
    refine walk_congr_slot fun q i r hsplit b hb => hslot b i ⟨q, ?_, hb⟩
    rw [hsplit, List.length_append] at hp
    omega
  have htable : ∀ a, s'.IsTable a → s.IsTable a := by
    rintro a ⟨p, hp, ha⟩
    exact ⟨p, hp, (hwalk p hp).symm.trans ha⟩
  exact
    { root_ne := by
        rw [hroot]
        exact h.root_ne
      separate := fun p q a hp hq ha hb =>
        h.separate p q a hp hq ((hwalk p hp).symm.trans ha) ((hwalk q hq).symm.trans hb)
      readable := fun a ha => h.readable a (htable a ha)
      upper := by
        intro p a i hp ha
        rw [hslot a i (htable a ⟨p, by omega, ha⟩)]
        exact h.upper p a i hp ((hwalk p (by omega)).symm.trans ha)
      boot_present := by
        intro i3 hi3
        rw [hwalk _ (by simp)]
        exact h.boot_present i3 hi3
      boot_leaf := by
        intro i3 hi3 a i hi ha
        rw [hslot a i (htable a ⟨_, by simp, ha⟩)]
        exact h.boot_leaf i3 hi3 a i hi ((hwalk _ (by simp)).symm.trans ha)
      supply_nodup := by
        rw [hsupply]
        exact h.supply_nodup
      supply_readable := fun a ha => h.supply_readable a (hsupply ▸ ha)
      supply_fresh := fun a ha hin => h.supply_fresh a (hsupply ▸ ha) (htable a hin) }

-- What any operation may touch: the tables, and the frames of the pool that become
-- tables.
structure Within (s s' : State) : Prop where
  root : s'.kernel_pml4 = s.kernel_pml4
  nx : s'.nx_available = s.nx_available
  cr3 : s'.cr3 = s.cr3
  tables : ∀ a, s'.IsTable a → s.IsTable a ∨ a ∈ s.supply ∧ a ∉ s'.supply
  supply : s'.supply <:+ s.supply
  count : s'.allocated + s'.supply.length = s.allocated + s.supply.length
  kept : ∀ a, ¬s.IsTable a → (a ∈ s.supply → a ∈ s'.supply) → ∀ i, s'.mem a i = s.mem a i

theorem Within.refl (s : State) : Within s s where
  root := rfl
  nx := rfl
  cr3 := rfl
  tables _ h := .inl h
  supply := List.suffix_refl _
  count := rfl
  kept _ _ _ _ := rfl

theorem Within.trans {s s' s'' : State} (h : Within s s') (h' : Within s' s'') :
    Within s s'' where
  root := h'.root.trans h.root
  nx := h'.nx.trans h.nx
  cr3 := h'.cr3.trans h.cr3
  tables a ha := by
    rcases h'.tables a ha with hold | ⟨hin, hout⟩
    · exact (h.tables a hold).imp id fun hnew => ⟨hnew.1, fun hin => hnew.2 (h'.supply.subset hin)⟩
    · exact .inr ⟨h.supply.subset hin, hout⟩
  supply := h'.supply.trans h.supply
  count := h'.count.trans h.count
  kept a ha hs i := by
    have hs' : a ∈ s.supply → a ∈ s'.supply := fun hin => h'.supply.subset (hs hin)
    have ha' : ¬s'.IsTable a := by
      intro hin
      rcases h.tables a hin with hold | hnew
      · exact ha hold
      · exact hnew.2 (hs' hnew.1)
    rw [h'.kept a ha' (fun hin => hs (h.supply.subset hin)) i, h.kept a ha hs' i]

-- What taking tables from the pool does: everything that was mapped stays mapped as it
-- was, and every table stays where it was.
structure Grown (s s' : State) : Prop extends Within s s' where
  find : ∀ p, p.length = 4 → s'.find p = s.find p
  walk : ∀ p a, p.length < 4 → s.walk p = some a → s'.walk p = some a

theorem Grown.refl (s : State) : Grown s s where
  toWithin := .refl s
  find _ _ := rfl
  walk _ _ _ h := h

theorem Grown.trans {s s' s'' : State} (h : Grown s s') (h' : Grown s' s'') : Grown s s'' where
  toWithin := h.toWithin.trans h'.toWithin
  find p hp := (h'.find p hp).trans (h.find p hp)
  walk p a hp ha := h'.walk p a hp (h.walk p a hp ha)

-- The part of the tree below slot `i` of the root is word for word the same.
structure SameUnder (i : Nat) (s s' : State) : Prop where
  root : s'.kernel_pml4 = s.kernel_pml4
  slot : s'.mem s.kernel_pml4 i = s.mem s.kernel_pml4 i
  rows : ∀ p a, p.length < 3 → s.walk (i :: p) = some a → ∀ j, s'.mem a j = s.mem a j

theorem SameUnder.refl (i : Nat) (s : State) : SameUnder i s s :=
  ⟨rfl, rfl, fun _ _ _ _ _ => rfl⟩

theorem SameUnder.walk {i : Nat} {s s' : State} (h : SameUnder i s s') {p : List Nat}
    (hp : p.length < 4) : s'.walk (i :: p) = s.walk (i :: p) := by
  rw [State.walk, State.walk, h.root]
  refine walk_congr fun q j r hsplit b hb => ?_
  cases q with
  | nil =>
      cases hb
      obtain ⟨rfl, -⟩ := List.cons.inj hsplit
      exact h.slot
  | cons k q =>
      rw [List.cons_append] at hsplit
      obtain ⟨rfl, hrest⟩ := List.cons.inj hsplit
      refine h.rows q b ?_ hb j
      rw [hrest, List.length_append, List.length_cons] at hp
      omega

theorem SameUnder.trans {i : Nat} {s s' s'' : State} (h : SameUnder i s s')
    (h' : SameUnder i s' s'') : SameUnder i s s'' where
  root := h'.root.trans h.root
  slot := by
    have hslot := h'.slot
    rw [h.root] at hslot
    exact hslot.trans h.slot
  rows p a hp ha j := by
    rw [h'.rows p a hp ((h.walk (by omega)).trans ha) j, h.rows p a hp ha j]

-- A write to a table on another side of the root.
theorem Tree.sameUnder_write {s s' : State} (h : Tree s) (hroot : s'.kernel_pml4 = s.kernel_pml4)
    {i b j : Nat} {q : List Nat} (hq : q.length < 4) (hb : s.walk q = some b)
    (hside : (q ++ [j]).head? ≠ some i)
    (hmem : ∀ a k, s.IsTable a → ¬(a = b ∧ k = j) → s'.mem a k = s.mem a k) :
    SameUnder i s s' := by
  have hne : ∀ p a, p.length < 3 → s.walk (i :: p) = some a → a ≠ b := by
    rintro p a hp ha rfl
    have hname := h.separate (i :: p) q a (by simp; omega) hq ha hb
    cases q with
    | nil => exact absurd (home_naming.length_eq hname) (by simp)
    | cons k q =>
        refine hside ?_
        rw [List.cons_append, List.head?_cons]
        cases p with
        | nil =>
            cases q with
            | nil => simpa [home] using hname.symm
            | cons l q => simp [home] at hname
        | cons m p =>
            cases q with
            | nil => simp [home] at hname
            | cons l q =>
                simp only [home, List.cons.injEq] at hname
                rw [hname.1]
  refine ⟨hroot, ?_, fun p a hp ha k => ?_⟩
  · refine hmem _ _ ⟨[], by simp, rfl⟩ ?_
    rintro ⟨hroot_eq, rfl⟩
    cases q with
    | nil => exact hside rfl
    | cons k q =>
        refine h.ne_of_length (by simp) hq (show s.walk [] = some s.kernel_pml4 from rfl) hb ?_ hroot_eq
        simp
  · exact hmem a k ⟨i :: p, by simp; omega, ha⟩ fun hat => hne p a hp ha hat.1

-- The state after a table was taken from the pool and installed.
def State.linked (s : State) (b i c : Nat) (rest : List Nat) : State :=
  { s with
    mem := link s.mem b i c 0 (c ||| (flags.PRESENT ||| flags.WRITABLE))
    supply := rest
    allocated := s.allocated + 1
    frames := if s.allocated < s.frames.length then s.frames.set s.allocated c else s.frames }

section Linked

variable {s : State} {q : List Nat} {b i c : Nat} {rest : List Nat}

theorem Tree.linking (h : Tree s) (hq : q.length < 3) (hb : s.walk q = some b)
    (hempty : slot (s.mem b i) = .empty) (hs : s.supply = c :: rest) :
    Linking slot 4 s.mem s.kernel_pml4 q b i c 0 (c ||| (flags.PRESENT ||| flags.WRITABLE)) where
  short := by omega
  parent := hb
  vacant := hempty
  fresh := h.supply_fresh c (by simp [hs])
  cleared := slot_zero
  pointer := by
    obtain ⟨hlt, hpage⟩ := h.supply_readable c (by simp [hs])
    exact slot_pointer hpage (Nat.lt_trans hlt BOOT_MAPPED_lt_PHYS)

theorem Tree.grown_linked (h : Tree s) (hq : q.length < 3) (hb : s.walk q = some b)
    (hempty : slot (s.mem b i) = .empty) (hs : s.supply = c :: rest) :
    Grown s (s.linked b i c rest) := by
  have hlink := h.linking hq hb hempty hs
  exact
    { root := rfl
      nx := rfl
      cr3 := rfl
      find := fun p hp => hlink.find_eq h.separate home_naming hp
      walk := fun p a hp ha => hlink.walk_of_some (Nat.le_of_lt hp) ha
      tables := by
        rintro a ⟨p, hp, ha⟩
        rcases hlink.walk_cases h.separate home_naming hp ha with hold | ⟨rfl, -⟩
        · exact .inl ⟨p, hp, hold⟩
        · have hnodup := h.supply_nodup
          rw [hs, List.nodup_cons] at hnodup
          exact .inr ⟨by simp [hs], hnodup.1⟩
      supply := by
        rw [hs]
        exact List.suffix_cons c rest
      count := by
        simp only [State.linked, hs, List.length_cons]
        omega
      kept := by
        intro a ha hsupply j
        refine link_elsewhere (fun hac => ?_) ?_
        · have hnodup := h.supply_nodup
          rw [hs, List.nodup_cons] at hnodup
          exact hnodup.1 (hac ▸ hsupply (by simp [hs, hac]))
        rintro ⟨rfl, -⟩
        exact ha ⟨q, by omega, hb⟩ }

theorem Tree.linked (h : Tree s) (hq : q.length < 3) (hb : s.walk q = some b)
    (hempty : slot (s.mem b i) = .empty) (hs : s.supply = c :: rest) :
    Tree (s.linked b i c rest) := by
  have hlink := h.linking hq hb hempty hs
  have hgrown := h.grown_linked hq hb hempty hs
  have hc : ¬s.IsTable c := hlink.fresh
  have hnodup : (c :: rest).Nodup := hs ▸ h.supply_nodup
  -- every old entry other than the vacant one is still there
  have hold : ∀ p a j, p.length < 4 → s.walk p = some a → slot (s.mem a j) ≠ .empty →
      (s.linked b i c rest).mem a j = s.mem a j := by
    intro p a j hp ha hne
    refine link_elsewhere (fun hac : a = c => hc (hac ▸ ⟨p, hp, ha⟩)) ?_
    rintro ⟨rfl, rfl⟩
    exact hne hempty
  exact
    { root_ne := h.root_ne
      separate := hlink.separate h.separate home_naming
      readable := by
        intro a ha
        rcases hgrown.tables a ha with hin | hin
        · exact h.readable a hin
        · exact h.supply_readable a hin.1
      upper := by
        intro p a j hp ha hleaf
        rcases hlink.walk_cases h.separate home_naming (by omega) ha with hpa | ⟨rfl, -⟩
        · by_cases hempty' : slot (s.mem a j) = .empty
          · by_cases hat : a = b ∧ j = i
            · obtain ⟨rfl, rfl⟩ := hat
              rw [show (s.linked a j c rest).mem a j = _ from write_here _ _ _ _,
                hlink.pointer] at hleaf
              cases hleaf
            · have hac : a ≠ c := fun hac => hc (hac ▸ ⟨p, by omega, hpa⟩)
              rw [show (s.linked b i c rest).mem a j = s.mem a j from link_elsewhere hac hat,
                hempty'] at hleaf
              cases hleaf
          · rw [hold p a j (by omega) hpa hempty'] at hleaf
            exact h.upper p a j hp hpa hleaf
        · rw [show slot ((s.linked b i a rest).mem a j) = _ from hlink.child_empty j] at hleaf
          cases hleaf
      boot_present := by
        intro i3 hi3
        obtain ⟨a, ha⟩ := h.boot_present i3 hi3
        exact ⟨a, hgrown.walk _ a (by simp) ha⟩
      boot_leaf := by
        intro i3 hi3 a j hj ha
        obtain ⟨d, hd⟩ := h.boot_present i3 hi3
        obtain rfl : d = a := Option.some.inj ((hgrown.walk _ d (by simp) hd).symm.trans ha)
        have hleaf := h.boot_leaf i3 hi3 d j hj hd
        rw [hold [0, i3] d j (by simp) hd (by simp [hleaf])]
        exact hleaf
      supply_nodup := (List.nodup_cons.mp hnodup).2
      supply_readable := fun a ha => h.supply_readable a (by rw [hs]; exact List.mem_cons_of_mem c ha)
      supply_fresh := by
        rintro a ha ⟨p, hp, hpa⟩
        rcases hlink.walk_cases h.separate home_naming hp hpa with hpa | ⟨rfl, -⟩
        · exact h.supply_fresh a (by rw [hs]; exact List.mem_cons_of_mem c ha) ⟨p, hp, hpa⟩
        · exact (List.nodup_cons.mp hnodup).1 ha }

end Linked

end Orin.Memory.Vmm
