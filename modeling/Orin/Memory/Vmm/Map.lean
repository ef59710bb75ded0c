import Orin.Memory.Vmm.Tree
import Mathlib.Data.Finset.Card
import Mathlib.Data.Finset.Prod

namespace Orin.Memory.Vmm

open Rust Arch
open Theory.Radix

section Enough

-- The tables among `S` that are still to be made.
def missing (S : Finset (List Nat)) (s : State) : Finset (List Nat) :=
  S.filter fun p => p.length < 4 ∧ s.walk p = none

-- The pool can make every table of `S`.
def Enough (S : Finset (List Nat)) (s : State) : Prop :=
  (missing S s).card ≤ s.supply.length ∧ s.allocated + s.supply.length < WORD

variable {S : Finset (List Nat)} {s s' : State}

theorem enough_of_card (hcard : S.card ≤ s.supply.length)
    (hcount : s.allocated + s.supply.length < WORD) : Enough S s :=
  ⟨(Finset.card_filter_le _ _).trans hcard, hcount⟩

theorem missing_subset
    (hwalk : ∀ p a, p ∈ S → p.length < 4 → s.walk p = some a → s'.walk p = some a) :
    missing S s' ⊆ missing S s := by
  intro p hp
  simp only [missing, Finset.mem_filter] at hp ⊢
  refine ⟨hp.1, hp.2.1, ?_⟩
  cases hw : s.walk p with
  | none => rfl
  | some a =>
      rw [hwalk p a hp.1 hp.2.1 hw] at hp
      cases hp.2.2

theorem Enough.of_walk
    (hwalk : ∀ p a, p ∈ S → p.length < 4 → s.walk p = some a → s'.walk p = some a)
    (hsupply : s'.supply = s.supply) (hcount : s'.allocated = s.allocated) (h : Enough S s) :
    Enough S s' := by
  refine ⟨?_, by rw [hsupply, hcount]; exact h.2⟩
  rw [hsupply]
  exact Nat.le_trans (Finset.card_le_card (missing_subset hwalk)) h.1

-- Making one of the missing tables costs one frame and leaves one table less to make.
theorem Enough.of_new {p : List Nat} {a : Nat} (hS : p ∈ S) (hp : p.length < 4)
    (hnone : s.walk p = none) (hsome : s'.walk p = some a)
    (hwalk : ∀ p a, p.length < 4 → s.walk p = some a → s'.walk p = some a)
    (hsupply : s.supply.length = s'.supply.length + 1)
    (hcount : s'.allocated = s.allocated + 1) (h : Enough S s) : Enough S s' := by
  have hsub : missing S s' ⊂ missing S s := by
    refine Finset.ssubset_iff_subset_ne.mpr ⟨missing_subset fun p a _ => hwalk p a, fun heq => ?_⟩
    have hin : p ∈ missing S s' := by
      rw [heq]
      simp [missing, hS, hp, hnone]
    simp [missing, hsome] at hin
  have hlt := Finset.card_lt_card hsub
  have h1 := h.1
  have h2 := h.2
  exact ⟨by omega, by omega⟩

theorem Enough.supply_ne {p : List Nat} (h : Enough S s) (hS : p ∈ S) (hp : p.length < 4)
    (hnone : s.walk p = none) : s.supply ≠ [] := by
  intro hnil
  have hin : p ∈ missing S s := by simp [missing, hS, hp, hnone]
  have hpos := Finset.card_pos.mpr ⟨p, hin⟩
  have hle := h.1
  rw [hnil, List.length_nil] at hle
  omega

end Enough

section Descend

variable {s : State} {q : List Nat} {b i : Nat}

theorem descend_cons {c : Nat} {rest : List Nat} (hs : s.supply = c :: rest)
    (hcount : s.allocated + 1 < WORD) :
    descend s b i = if is_present (s.mem b i) then .ok (some (entry_addr (s.mem b i), s))
      else .ok (some (c, s.linked b i c rest)) := by
  unfold descend alloc
  rw [hs, add_of_lt hcount]
  rfl

theorem descend_eq_table {c : Nat} (h : slot (s.mem b i) = .table c) :
    descend s b i = .ok (some (c, s)) := by
  obtain ⟨hp, -, rfl⟩ := slot_table_iff.mp h
  simp [descend, hp]

theorem walk_snoc_none (hb : s.walk q = some b) (h : slot (s.mem b i) = .empty) :
    s.walk (q ++ [i]) = none := by
  rw [Option.eq_none_iff_forall_ne_some]
  intro c hc
  obtain ⟨d, hd, hentry⟩ := walk_snoc.mp hc
  obtain rfl : b = d := Option.some.inj (hb.symm.trans hd)
  rw [h] at hentry
  cases hentry

-- How far a walk for the tables of `S` has come: the state it made of `s`, and the
-- table it stands at.
structure Arrived (S : Finset (List Nat)) (s : State) (q : List Nat) (b : Nat) (s' : State) :
    Prop where
  tree : Tree s'
  grown : Grown s s'
  here : s'.walk q = some b
  aside : ∀ i, q.head? ≠ some i → SameUnder i s s'
  enough : Enough S s → Enough S s'

theorem Arrived.start {S : Finset (List Nat)} (h : Tree s) : Arrived S s [] s.kernel_pml4 s :=
  ⟨h, .refl s, rfl, fun i _ => .refl i s, id⟩

-- What is aside of a longer path is aside of the path.
theorem head?_ne_of_snoc {i k : Nat} (h : (q ++ [i]).head? ≠ some k) : q.head? ≠ some k := by
  cases q with
  | nil => simp
  | cons j q => exact h

theorem Arrived.table_at {S : Finset (List Nat)} {s' : State} (h : Arrived S s q b s')
    (hq : q.length < 4) : Vmm.table_at b = .ok b :=
  h.tree.table_at hq h.here

-- One level down, where no large page is in the way: the next table is there, made if it
-- was not, and the walk stops only for want of a frame.
theorem Arrived.descend {S : Finset (List Nat)} {s' : State} (h : Arrived S s q b s')
    (message : String) (hq : q.length < 3) (hleaf : slot (s'.mem b i) ≠ .leaf)
    (hS : q ++ [i] ∈ S) :
    Ends (fun r => Arrived S s (q ++ [i]) r.1 r.2) (fun _ => ¬Enough S s)
      (descend_or_panic s' b i message) := by
  cases hslot : slot (s'.mem b i) with
  | leaf => exact absurd hslot hleaf
  | table c =>
      rw [descend_or_panic, descend_eq_table hslot]
      exact ⟨h.tree, h.grown, walk_snoc.mpr ⟨b, h.here, hslot⟩,
        fun k hk => h.aside k (head?_ne_of_snoc hk), h.enough⟩
  | empty =>
      have hnone := walk_snoc_none h.here hslot
      have hlen : (q ++ [i]).length < 4 := by simp; omega
      cases hs : s'.supply with
      | nil =>
          rw [descend_or_panic, Vmm.descend, alloc, hs]
          simp only [slot_empty_iff.mp hslot]
          exact fun henough => (h.enough henough).supply_ne hS hlen hnone hs
      | cons c rest =>
          by_cases hcount : s'.allocated + 1 < WORD
          · rw [descend_or_panic, descend_cons hs hcount, slot_empty_iff.mp hslot]
            have hgrown := h.tree.grown_linked hq h.here hslot hs
            have hnew := (h.tree.linking hq h.here hslot hs).walk_new
            refine ⟨h.tree.linked hq h.here hslot hs, h.grown.trans hgrown, hnew, fun k hk => ?_,
              fun henough => ?_⟩
            · refine (h.aside k (head?_ne_of_snoc hk)).trans ?_
              have hroot : (s'.linked b i c rest).kernel_pml4 = s'.kernel_pml4 := rfl
              refine h.tree.sameUnder_write hroot (by omega) h.here hk fun a j ha hat => ?_
              refine link_elsewhere (fun hac : a = c => ?_) hat
              exact h.tree.supply_fresh c (by simp [hs]) (hac ▸ ha)
            · exact (h.enough henough).of_new hS hlen hnone hnew hgrown.walk
                (by simp [hs, State.linked]) rfl
          · rw [descend_or_panic, Vmm.descend, alloc, hs, add_of_ge (Nat.le_of_not_lt hcount)]
            simp only [slot_empty_iff.mp hslot]
            intro henough
            have := (h.enough henough).2
            rw [hs, List.length_cons] at this
            omega

end Descend

section Page

variable {s : State} {q : List Nat} {b i e : Nat}

theorem walk_set_last (h : Tree s) (hq : q.length = 3) (hb : s.walk q = some b)
    {p : List Nat} (hp : p.length < 4) : (s.set b i e).walk p = s.walk p :=
  h.separate.walk_write_last home_naming (by omega) hb hp

theorem isTable_set_last (h : Tree s) (hq : q.length = 3) (hb : s.walk q = some b) {a : Nat} :
    (s.set b i e).IsTable a ↔ s.IsTable a := by
  constructor
  · rintro ⟨p, hp, ha⟩
    exact ⟨p, hp, (walk_set_last h hq hb hp).symm.trans ha⟩
  · rintro ⟨p, hp, ha⟩
    exact ⟨p, hp, (walk_set_last h hq hb hp).trans ha⟩

-- Entries of the last level are free: no part of the tree hangs on them.
theorem Tree.set_last (h : Tree s) (hq : q.length = 3) (hb : s.walk q = some b) :
    Tree (s.set b i e) := by
  have hentry : ∀ p a j, p.length < 3 → s.walk p = some a → (s.set b i e).mem a j = s.mem a j := by
    intro p a j hp ha
    exact write_table s.mem j e (h.ne_of_length (by omega) (by omega) ha hb (by omega))
  exact
    { root_ne := h.root_ne
      separate := h.separate.write_last home_naming (by omega) hb
      readable := fun a ha => h.readable a ((isTable_set_last h hq hb).mp ha)
      upper := by
        intro p a j hp ha
        rw [walk_set_last h hq hb (by omega)] at ha
        rw [hentry p a j (by omega) ha]
        exact h.upper p a j hp ha
      boot_present := by
        intro i3 hi3
        rw [walk_set_last h hq hb (by simp)]
        exact h.boot_present i3 hi3
      boot_leaf := by
        intro i3 hi3 a j hj ha
        rw [walk_set_last h hq hb (by simp)] at ha
        rw [hentry [0, i3] a j (by simp) ha]
        exact h.boot_leaf i3 hi3 a j hj ha
      supply_nodup := h.supply_nodup
      supply_readable := h.supply_readable
      supply_fresh := fun a ha hin => h.supply_fresh a ha ((isTable_set_last h hq hb).mp hin) }

theorem within_set (hq : q.length < 4) (hb : s.walk q = some b)
    (htables : ∀ a, (s.set b i e).IsTable a → s.IsTable a) : Within s (s.set b i e) where
  root := rfl
  nx := rfl
  cr3 := rfl
  tables a ha := .inl (htables a ha)
  supply := List.suffix_refl _
  count := rfl
  kept _ ha _ j := write_table s.mem j e fun hab => ha (hab ▸ ⟨q, hq, hb⟩)

-- No page of 2 MiB stands where the walk for `v` goes.
def NotLarge (s : State) (v : VirtAddr) : Prop :=
  ∀ e r, s.find (path v) = some (e, r) → r = []

-- One page of `v` is mapped by the entry `e`, and nothing else changed.
structure Placed (s s' : State) (v : VirtAddr) (e : Nat) : Prop extends Within s s' where
  here : s'.find (path v) = some (e, [])
  elsewhere : ∀ p, p.length = 4 → p ≠ path v → s'.find p = s.find p
  walk : ∀ p a, p.length < 4 → s.walk p = some a → s'.walk p = some a
  aside : ∀ i, (indices v).pml4 ≠ i → SameUnder i s s'

-- The tables a page of `v` is mapped through.
def tables_of (v : VirtAddr) : List (List Nat) :=
  [[(indices v).pml4], [(indices v).pml4, (indices v).pdpt],
    [(indices v).pml4, (indices v).pdpt, (indices v).pd]]

theorem Arrived.not_leaf {S : Finset (List Nat)} {s' : State} {v : VirtAddr}
    (hv : NotLarge s v) (h : Arrived S s [(indices v).pml4, (indices v).pdpt] b s') :
    slot (s'.mem b (indices v).pd) ≠ .leaf := by
  intro hleaf
  have hfind : s'.find (path v) = some (s'.mem b (indices v).pd, [(indices v).pt]) := by
    rw [show path v = [(indices v).pml4, (indices v).pdpt] ++ [(indices v).pd, (indices v).pt] from
      rfl, State.find, find_append h.here (by simp), find_cons_leaf hleaf]
  rw [h.grown.find _ rfl] at hfind
  simpa using hv _ _ hfind

theorem pd_lt (v : VirtAddr) : (indices v).pd < 512 := by
  simp only [indices, index_eq]
  exact Nat.mod_lt _ (by decide)

-- Writing the last entry of a walk that has arrived.
theorem Arrived.placed {S : Finset (List Nat)} {s' : State} {v : VirtAddr} {pt : Nat}
    (h : Arrived S s [(indices v).pml4, (indices v).pdpt, (indices v).pd] pt s')
    (he : slot e ≠ .empty) : Placed s (s'.set pt (indices v).pt e) v e where
  toWithin := h.grown.toWithin.trans
    (within_set (by simp) h.here fun a ha => (isTable_set_last h.tree rfl h.here).mp ha)
  here := h.tree.separate.find_write_last home_naming rfl h.here he
  elsewhere := by
    intro p hp hne
    rw [← h.grown.find p hp]
    refine h.tree.separate.find_write_other (by simp) h.here (by omega) fun q r hsplit hname => ?_
    have hlen : q.length = 3 := home_naming.length_eq hname
    have hq := h.tree.path_unique (pd_lt v) h.here (by omega) hname
    have hr : r = [] := by
      rw [hsplit, List.length_append, List.length_cons] at hp
      exact List.eq_nil_of_length_eq_zero (by omega)
    apply hne
    rw [hsplit, hq, hr]
    rfl
  walk p a hp ha := (walk_set_last h.tree rfl h.here hp).trans (h.grown.walk p a hp ha)
  aside i hi := by
    refine (h.aside i (by simpa using hi)).trans ?_
    have hroot : (s'.set pt (indices v).pt e).kernel_pml4 = s'.kernel_pml4 := rfl
    refine h.tree.sameUnder_write (j := (indices v).pt) hroot (by simp) h.here (by simpa using hi)
      fun a j _ hat => ?_
    exact write_elsewhere _ _ hat

-- The old entry that the walk finds is the one that maps `v`, if any does.
theorem Arrived.old_present {S : Finset (List Nat)} {s' : State} {v : VirtAddr} {pt : Nat}
    (h : Arrived S s [(indices v).pml4, (indices v).pdpt, (indices v).pd] pt s') :
    s.find (path v) =
      if is_present (s'.mem pt (indices v).pt) then some (s'.mem pt (indices v).pt, []) else none := by
  rw [← h.grown.find (path v) rfl, show path v =
    [(indices v).pml4, (indices v).pdpt, (indices v).pd] ++ [(indices v).pt] from rfl,
    State.find, find_append h.here (by simp)]
  split
  · rename_i hp
    exact find_last fun hempty => by rw [slot_empty_iff.mp hempty] at hp; cases hp
  · rename_i hp
    exact find_cons_empty (slot_empty_iff.mpr (by simpa using hp))

theorem ends_map_4k_page (h : Tree s) {S : Finset (List Nat)} {v : VirtAddr} {p f : Nat}
    (hS : ∀ q ∈ tables_of v, q ∈ S) (hv : NotLarge s v) (he : slot (p ||| f) ≠ .empty) :
    Ends (fun s' => Tree s' ∧ Placed s s' v (p ||| f) ∧
        (∀ old, s.find (path v) = some (old, []) → entry_addr old = p) ∧
        (Enough S s → Enough S s'))
      (fun _ => Enough S s → ∃ old, s.find (path v) = some (old, []) ∧ entry_addr old ≠ p)
      (map_4k_page s s.kernel_pml4 f v p) := by
  have hstart : Arrived S s [] s.kernel_pml4 s := .start h
  rw [map_4k_page, h.table_at_root, ok_bind]
  refine Ends.bind ((hstart.descend _ (by simp) (h.upper [] _ _ (by simp) rfl)
    (hS _ (by simp [tables_of]))).mono (fun _ hr => hr) fun _ hs henough => absurd henough hs) ?_
  rintro ⟨pdpt, s1⟩ h1
  simp only [h1.table_at (by simp), ok_bind]
  refine Ends.bind ((h1.descend _ (by simp) (h1.tree.upper _ _ _ (by simp) h1.here)
    (hS _ (by simp [tables_of]))).mono (fun _ hr => hr) fun _ hs henough => absurd henough hs) ?_
  rintro ⟨pd, s2⟩ h2
  simp only [h2.table_at (by simp), ok_bind]
  refine Ends.bind ((h2.descend _ (by simp) (Arrived.not_leaf hv h2)
    (hS _ (by simp [tables_of]))).mono (fun _ hr => hr) fun _ hs henough => absurd henough hs) ?_
  rintro ⟨pt, s3⟩ h3
  simp only [h3.table_at (by simp), ok_bind]
  have hold := Arrived.old_present h3
  split
  · rename_i hclash
    intro _
    simp only [Bool.and_eq_true, bne_iff_ne] at hclash
    exact ⟨_, by rw [hold, if_pos hclash.1], hclash.2⟩
  · rename_i hclash
    refine ⟨h3.tree.set_last rfl h3.here, Arrived.placed h3 he, fun old hfind => ?_, fun henough => ?_⟩
    · by_cases hp : is_present (s3.mem pt (indices v).pt) = true
      · rw [hold, if_pos hp] at hfind
        cases hfind
        simpa [hp] using hclash
      · rw [hold, if_neg hp] at hfind
        cases hfind
    · have hwalk : ∀ q a, q ∈ S → q.length < 4 → s3.walk q = some a →
          (s3.set pt (indices v).pt (p ||| f)).walk q = some a :=
        fun q a _ hq ha => (walk_set_last h3.tree rfl h3.here hq).trans ha
      exact Enough.of_walk hwalk rfl rfl (h3.enough henough)

end Page

section Loop

-- The entry that `map_4k` writes for the page of the address `v`.
def page_entry (va pa f v : Nat) : Nat := (pa + (v / 4096 * 4096 - va)) ||| f

-- A range is mapped page by page, and nothing else changed.
structure Laid (s s' : State) (va pa len f : Nat) : Prop extends Within s s' where
  inside : ∀ v : VirtAddr, va ≤ v.as_u64 → v.as_u64 < va + len →
    s'.find (path v) = some (page_entry va pa f v.as_u64, [])
  outside : ∀ v : VirtAddr, ¬(va ≤ v.as_u64 ∧ v.as_u64 < va + len) →
    s'.find (path v) = s.find (path v)
  walk : ∀ p a, p.length < 4 → s.walk p = some a → s'.walk p = some a
  aside : ∀ i, (∀ v : VirtAddr, va ≤ v.as_u64 → v.as_u64 < va + len → (indices v).pml4 ≠ i) →
    SameUnder i s s'

variable {s t t' : State} {va pa len f : Nat}

theorem Laid.nil (s : State) (va pa f : Nat) : Laid s s va pa 0 f where
  toWithin := .refl s
  inside v h1 h2 := by omega
  outside _ _ := rfl
  walk _ _ _ h := h
  aside i _ := .refl i s

theorem Laid.snoc {v : VirtAddr} (h : Laid s t va pa len f) (hva : va % 4096 = 0)
    (hlen : len % 4096 = 0) (hv : v.as_u64 = va + len)
    (hplaced : Placed t t' v ((pa + len) ||| f)) : Laid s t' va pa (len + 4096) f where
  toWithin := h.toWithin.trans hplaced.toWithin
  inside w h1 h2 := by
    by_cases hw : w.as_u64 < va + len
    · have hne : path w ≠ path v := fun heq => by
        have := page_eq_of_path heq
        omega
      rw [hplaced.elsewhere _ rfl hne]
      exact h.inside w h1 hw
    · have hpage : w.as_u64 / 4096 * 4096 - va = len := by omega
      rw [path_of_page_eq (show w.as_u64 / 4096 = v.as_u64 / 4096 by omega), hplaced.here,
        page_entry, hpage]
  outside w hw := by
    have hne : path w ≠ path v := fun heq => by
      have := page_eq_of_path heq
      omega
    rw [hplaced.elsewhere _ rfl hne]
    exact h.outside w (by omega)
  walk p a hp ha := hplaced.walk p a hp (h.walk p a hp ha)
  aside i hi := (h.aside i fun w h1 h2 => hi w h1 (by omega)).trans
    (hplaced.aside i (hi v (by omega) (by omega)))

-- A call that has nothing to refuse: it is aligned, its range is made of addresses, it
-- maps nothing that is mapped, and the pool has the tables.
structure Asked (S : Finset (List Nat)) (s : State) (va : VirtAddr) (pa : PhysAddr) (size : Nat) :
    Prop where
  va_aligned : va.as_u64 % 4096 = 0
  pa_aligned : pa.as_u64 % 4096 = 0
  size_aligned : size % 4096 = 0
  canonical : ∀ v, va.as_u64 ≤ v → v < va.as_u64 + size → Canonical v
  pa_fits : pa.as_u64 + size ≤ WORD
  unmapped : ∀ v : VirtAddr, va.as_u64 ≤ v.as_u64 → v.as_u64 < va.as_u64 + size →
    s.find (path v) = none
  enough : Enough S s

-- What a returning call has checked besides mapping its range.
def Agrees (s : State) (va pa len : Nat) : Prop :=
  ∀ v : VirtAddr, va ≤ v.as_u64 → v.as_u64 < va + len → ∀ old,
    s.find (path v) = some (old, []) → entry_addr old = pa + (v.as_u64 / 4096 * 4096 - va)

theorem Canonical.lt_WORD {v : Nat} (h : Canonical v) : v < WORD := by
  rw [WORD_eq]
  unfold Canonical at h
  omega

theorem slot_page_ne_empty {p : Nat} (s : State) (perm : Perm) (hp : p % 4096 = 0) :
    slot (p ||| effective s perm) ≠ .empty := by
  intro h
  rw [slot_empty_iff, is_present_or _ hp, effective_present] at h
  cases h

-- The state before the page at offset `k * 4096` is mapped.
structure Mapping (S : Finset (List Nat)) (s : State) (va pa f k : Nat) (t : State) : Prop where
  tree : Tree t
  laid : Laid s t va pa (k * 4096) f
  agrees : Agrees s va pa (k * 4096)
  enough : Enough S s → Enough S t

theorem Mapping.step {S : Finset (List Nat)} {k : Nat} {v : VirtAddr}
    (h : Mapping S s va pa f k t) (hva : va % 4096 = 0) (hv : v.as_u64 = va + k * 4096)
    (htree : Tree t') (hplaced : Placed t t' v ((pa + k * 4096) ||| f))
    (hold : ∀ old, t.find (path v) = some (old, []) → entry_addr old = pa + k * 4096)
    (henough : Enough S t → Enough S t') : Mapping S s va pa f (k + 1) t' where
  tree := htree
  laid := by
    rw [show (k + 1) * 4096 = k * 4096 + 4096 by omega]
    exact h.laid.snoc hva (by omega) hv hplaced
  agrees := by
    intro w h1 h2 old hfind
    by_cases hw : w.as_u64 < va + k * 4096
    · exact h.agrees w h1 hw old hfind
    · have hpage : w.as_u64 / 4096 * 4096 - va = k * 4096 := by omega
      rw [path_of_page_eq (show w.as_u64 / 4096 = v.as_u64 / 4096 by omega),
        ← h.laid.outside v (by omega)] at hfind
      rw [hpage]
      exact hold old hfind
  enough hs := henough (h.enough hs)

theorem ends_aligned {n m : Nat} {message : String} {S : Panic → Prop}
    (h : n % m ≠ 0 → ∀ e, S e) : Ends (fun _ => n % m = 0) S (assert (n % m == 0) message) :=
  ends_assert (fun hc => by simpa using hc) fun hc => h (by simpa using hc) _

-- One iteration, with the arithmetic of its two addresses.
theorem ends_map_4k_body {S : Finset (List Nat)} {va : VirtAddr} {pa : PhysAddr} {size k : Nat}
    {perm : Perm} (hva : va.as_u64 % 4096 = 0) (hpa : pa.as_u64 % 4096 = 0)
    (hk : k * 4096 + 4096 ≤ size)
    (hS : ∀ v : VirtAddr, va.as_u64 ≤ v.as_u64 → v.as_u64 < va.as_u64 + size →
      ∀ q ∈ tables_of v, q ∈ S)
    (hv : ∀ v : VirtAddr, va.as_u64 ≤ v.as_u64 → v.as_u64 < va.as_u64 + size → NotLarge s v)
    (h : Mapping S s va.as_u64 pa.as_u64 (effective s perm) k t) :
    Ends (Mapping S s va.as_u64 pa.as_u64 (effective s perm) (k + 1))
      (fun _ => ¬Asked S s va pa size) (do
        let v ← VirtAddr.new (← add va.as_u64 (← mul k PAGE_SIZE))
        let p ← add pa.as_u64 (← mul k PAGE_SIZE)
        map_4k_page t s.kernel_pml4 (effective s perm) v p) := by
  have hmul : Ends (fun n => n = k * 4096) (fun _ => ¬Asked S s va pa size) (mul k PAGE_SIZE) := by
    refine ends_mul (fun _ => rfl) fun hover hasked => ?_
    have hfits := hasked.pa_fits
    have hpos : k * PAGE_SIZE = k * 4096 := rfl
    omega
  refine hmul.bind fun _ hn => ?_
  subst hn
  refine Ends.bind (ends_add (P := fun n => n = va.as_u64 + k * 4096) (fun _ => rfl)
    fun hover hasked => ?_) fun _ hn => ?_
  · have := Canonical.lt_WORD (hasked.canonical (va.as_u64 + k * 4096) (by omega) (by omega))
    omega
  subst hn
  refine Ends.bind (ends_VirtAddr_new (P := fun v => v.as_u64 = va.as_u64 + k * 4096)
    (fun _ hw => hw) fun hno _ hasked => ?_) fun v hvk => ?_
  · exact hno (hasked.canonical (va.as_u64 + k * 4096) (by omega) (by omega))
  refine hmul.bind fun _ hn => ?_
  subst hn
  refine Ends.bind (ends_add (P := fun n => n = pa.as_u64 + k * 4096) (fun _ => rfl)
    fun hover hasked => ?_) fun _ hn => ?_
  · have := hasked.pa_fits
    omega
  subst hn
  have hsame : t.find (path v) = s.find (path v) := h.laid.outside v (by omega)
  have hlarge : NotLarge t v := by
    intro e r hfind
    exact hv v (by omega) (by omega) e r (hsame ▸ hfind)
  rw [← h.laid.root]
  refine (ends_map_4k_page h.tree (hS v (by omega) (by omega)) hlarge
    (slot_page_ne_empty s perm (by omega))).mono ?_ ?_
  · rintro t' ⟨htree, hplaced, hold, henough⟩
    exact h.step hva hvk htree hplaced hold henough
  · intro e hstop hasked
    obtain ⟨old, hfind, -⟩ := hstop (h.enough hasked.enough)
    rw [hsame, hasked.unmapped v (by omega) (by omega)] at hfind
    cases hfind

theorem ends_map_4k (h : Tree s) {S : Finset (List Nat)} {va : VirtAddr} {pa : PhysAddr}
    {size : Nat} {perm : Perm}
    (hS : ∀ v : VirtAddr, va.as_u64 ≤ v.as_u64 → v.as_u64 < va.as_u64 + size →
      ∀ q ∈ tables_of v, q ∈ S)
    (hv : ∀ v : VirtAddr, va.as_u64 ≤ v.as_u64 → v.as_u64 < va.as_u64 + size → NotLarge s v) :
    Ends (fun s' => Tree s' ∧ Laid s s' va.as_u64 pa.as_u64 size (effective s perm) ∧
        Agrees s va.as_u64 pa.as_u64 size ∧ (Enough S s → Enough S s'))
      (fun _ => ¬Asked S s va pa size) (map_4k s va pa size perm) := by
  unfold map_4k
  refine (ends_aligned fun hno _ hasked => hno hasked.va_aligned).bind fun _ hva => ?_
  refine (ends_aligned fun hno _ hasked => hno hasked.pa_aligned).bind fun _ hpa => ?_
  refine (ends_aligned fun hno _ hasked => hno hasked.size_aligned).bind fun _ hsize => ?_
  refine Ends.bind (ends_assert (P := fun _ => True) (fun _ => trivial)
    fun hc _ => by simp [h.root_ne] at hc) fun _ _ => ?_
  have hpages : size / PAGE_SIZE * 4096 = size := Nat.div_mul_cancel (Nat.dvd_of_mod_eq_zero hsize)
  refine (ends_forRange (Mapping S s va.as_u64 pa.as_u64 (effective s perm)) ?_ ?_).mono
    (fun s' hs' => ?_) fun _ hstop => hstop
  · exact ⟨h, by simpa using Laid.nil s va.as_u64 pa.as_u64 _, fun v h1 h2 => by omega, id⟩
  · intro k t _ hk ht
    exact ends_map_4k_body hva hpa (by omega) hS hv ht
  · rw [Nat.max_eq_right (Nat.zero_le _)] at hs'
    have hlaid := hs'.laid
    have hagrees := hs'.agrees
    rw [hpages] at hlaid hagrees
    exact ⟨hs'.tree, hlaid, hagrees, hs'.enough⟩

-- The tables there can be, for tables of `n` entries.
def tables_below (n : Nat) : Finset (List Nat) :=
  (Finset.range n).image (fun i => [i]) ∪
    (Finset.range n ×ˢ Finset.range n).image (fun p => [p.1, p.2]) ∪
    (Finset.range n ×ˢ Finset.range n ×ˢ Finset.range n).image fun p => [p.1, p.2.1, p.2.2]

theorem mem_tables_below {n : Nat} {v : VirtAddr}
    (h : (indices v).pml4 < n ∧ (indices v).pdpt < n ∧ (indices v).pd < n) :
    ∀ q ∈ tables_of v, q ∈ tables_below n := by
  obtain ⟨h4, h3, h2⟩ := h
  intro q hq
  simp only [tables_of, List.mem_cons, List.not_mem_nil, or_false] at hq
  simp only [tables_below, Finset.mem_union, Finset.mem_image, Finset.mem_product, Finset.mem_range,
    Prod.exists]
  rcases hq with rfl | rfl | rfl
  · exact .inl (.inl ⟨_, h4, rfl⟩)
  · exact .inl (.inr ⟨_, _, ⟨h4, h3⟩, rfl⟩)
  · exact .inr ⟨_, _, _, ⟨h4, h3, h2⟩, rfl⟩

-- The bound is hidden here: spelled out, the set would be computed.
theorem exists_tables : ∃ S : Finset (List Nat), ∀ v : VirtAddr, ∀ q ∈ tables_of v, q ∈ S := by
  have hbound : ∃ n, ∀ v : VirtAddr,
      (indices v).pml4 < n ∧ (indices v).pdpt < n ∧ (indices v).pd < n := by
    refine ⟨512, fun v => ?_⟩
    simp only [indices, index_eq]
    exact ⟨Nat.mod_lt _ (by decide), Nat.mod_lt _ (by decide), Nat.mod_lt _ (by decide)⟩
  obtain ⟨n, hn⟩ := hbound
  exact ⟨tables_below n, fun v => mem_tables_below (hn v)⟩

theorem map_4k_aligned {s' : State} {va : VirtAddr} {pa : PhysAddr} {size : Nat} {perm : Perm}
    (h : map_4k s va pa size perm = .ok s') :
    va.as_u64 % 4096 = 0 ∧ pa.as_u64 % 4096 = 0 := by
  obtain ⟨_, hva, h⟩ := bind_eq_ok.mp h
  obtain ⟨_, hpa, -⟩ := bind_eq_ok.mp h
  exact ⟨beq_iff_eq.mp (assert_eq_ok hva), beq_iff_eq.mp (assert_eq_ok hpa)⟩

-- What a call that returns has done.
theorem map_4k_ok {s' : State} (h : Tree s) {va : VirtAddr} {pa : PhysAddr} {size : Nat} {perm : Perm}
    (hv : ∀ v : VirtAddr, va.as_u64 ≤ v.as_u64 → v.as_u64 < va.as_u64 + size → NotLarge s v)
    (hok : map_4k s va pa size perm = .ok s') :
    Tree s' ∧ Laid s s' va.as_u64 pa.as_u64 size (effective s perm) ∧
      Agrees s va.as_u64 pa.as_u64 size := by
  obtain ⟨S, hS⟩ := exists_tables
  obtain ⟨htree, hlaid, hagrees, -⟩ := (ends_map_4k h (fun v _ _ => hS v) hv).of_eq_ok hok
  exact ⟨htree, hlaid, hagrees⟩

end Loop

end Orin.Memory.Vmm
