import Orin.Memory.Vmm.Wx

namespace Orin.Memory.Vmm

open Rust Arch Boot
open Theory.Radix
open Theory (Run)

section Bits

-- What an entry says besides the address and the size of its page.
def permissions (e : Nat) : Nat :=
  e &&& ((WORD - 1) ^^^ (0x000FFFFFFFFFF000 ||| flags.HUGE_PAGE))

theorem permissions_or (a b : Nat) : permissions (a ||| b) = permissions a ||| permissions b :=
  Nat.and_or_distrib_right a b _

theorem permissions_of_page {p : Nat} (hp : p % 4096 = 0) (hlt : p < 0x10000000000000) :
    permissions p = 0 := by
  rw [permissions, ← entry_addr_of_page hp hlt, entry_addr, Nat.and_assoc, WORD_eq]
  exact Nat.and_zero p

theorem permissions_effective (s : State) (perm : Perm) :
    permissions (effective s perm) = effective s perm := by
  unfold permissions effective
  rw [WORD_eq]
  cases s.nx_available <;> cases perm <;> rfl

theorem permissions_small {s : State} {perm : Perm} {p : Nat} (hp : p % 4096 = 0)
    (hlt : p < 0x10000000000000) : permissions (p ||| effective s perm) = effective s perm := by
  rw [permissions_or, permissions_of_page hp hlt, permissions_effective, Nat.zero_or]

theorem permissions_large {s : State} {perm : Perm} {p : Nat} (hp : p % 4096 = 0)
    (hlt : p < 0x10000000000000) :
    permissions (p ||| (effective s perm ||| flags.HUGE_PAGE)) = effective s perm := by
  have hhuge : permissions flags.HUGE_PAGE = 0 := by
    unfold permissions
    rw [WORD_eq]
    rfl
  rw [← Nat.or_assoc, permissions_or, permissions_small hp hlt, hhuge, Nat.or_zero]

end Bits

-- The states of the later kernel: the kernel half has small pages only.
structure Paged (s : State) : Prop where
  tree : Tree s
  high : ∀ v : VirtAddr, 256 ≤ (indices v).pml4 → NotLarge s v
  count : s.allocated + s.supply.length < WORD

section Large

variable {s s' t t' : State} {va v w : VirtAddr} {pa : PhysAddr} {size : Nat} {perm : Perm} {e : Nat}

-- In the kernel half a page directory has one path, so an entry of it covers its 2 MiB only.
theorem Covered.dir_iff (h : Covered t t' v e) (htree : Tree t') (hv : 256 ≤ (indices v).pml4) :
    t'.dir w = t'.dir v ↔ w.as_u64 / 2 ^ 21 = v.as_u64 / 2 ^ 21 := by
  constructor
  · intro hdir
    obtain ⟨hname, h2⟩ := h.home_eq htree hdir
    simp only [home, List.cons.injEq, and_true] at hname
    obtain ⟨h4, h3⟩ := hname
    rw [h4] at h3
    exact same_page h4 (boot_slot_inj (fun hboot => by omega) h3) h2
  · intro hpage
    have hdiv : ∀ k, 21 ≤ k → w.as_u64 / 2 ^ k = v.as_u64 / 2 ^ k := by
      intro k hk
      obtain ⟨j, rfl⟩ := Nat.exists_eq_add_of_le hk
      rw [Nat.pow_add, ← Nat.div_div_eq_div_mul, ← Nat.div_div_eq_div_mul, hpage]
    simp only [State.dir, indices, index_eq, hdiv 39 (by decide), hdiv 30 (by decide), hpage]

-- The first `len` bytes of a range are mapped by large pages, and nothing else changed.
structure LaidLarge (s t : State) (va pa len f : Nat) : Prop where
  inside : ∀ v : VirtAddr, va ≤ v.as_u64 → v.as_u64 < va + len →
    t.find (path v) = some ((pa + (v.as_u64 / 2 ^ 21 * 2 ^ 21 - va)) ||| f, [(indices v).pt])
  outside : ∀ v : VirtAddr, ¬(va ≤ v.as_u64 ∧ v.as_u64 < va + len) →
    t.find (path v) = s.find (path v)

theorem same_block_iff {v w : Nat} (hv : v % 2 ^ 21 = 0) :
    w / 2 ^ 21 = v / 2 ^ 21 ↔ v ≤ w ∧ w < v + 2 ^ 21 := by
  omega

theorem LaidLarge.snoc {va pa k f : Nat} (h : LaidLarge s t va pa (k * 2 ^ 21) f)
    (hva : va % 2 ^ 21 = 0) (hv : v.as_u64 = va + k * 2 ^ 21) (hhigh : 256 ≤ (indices v).pml4)
    (htree : Tree t') (hcovered : Covered t t' v ((pa + k * 2 ^ 21) ||| f)) :
    LaidLarge s t' va pa (k * 2 ^ 21 + 2 ^ 21) f := by
  have hblock : v.as_u64 % 2 ^ 21 = 0 := by omega
  have hdir : ∀ w : VirtAddr,
      t'.dir w = t'.dir v ↔ v.as_u64 ≤ w.as_u64 ∧ w.as_u64 < v.as_u64 + 2 ^ 21 := fun w =>
    (hcovered.dir_iff htree hhigh).trans (same_block_iff hblock)
  constructor
  · intro w h1 h2
    rw [← Nat.add_assoc] at h2
    by_cases hpage : v.as_u64 ≤ w.as_u64
    · have hhere : v.as_u64 ≤ w.as_u64 ∧ w.as_u64 < v.as_u64 + 2 ^ 21 := ⟨hpage, by omega⟩
      have hbase : w.as_u64 / 2 ^ 21 * 2 ^ 21 = v.as_u64 := by
        rw [(same_block_iff hblock).mpr hhere, Nat.div_mul_cancel (Nat.dvd_of_mod_eq_zero hblock)]
      rw [hcovered.covered w ((hdir w).mpr hhere), hbase, hv, Nat.add_sub_cancel_left]
    · rw [hcovered.elsewhere w fun hw => hpage ((hdir w).mp hw).1]
      exact h.inside w h1 (by omega)
  · intro w hw
    rw [← Nat.add_assoc] at hw
    rw [hcovered.elsewhere w fun hin => by
      have := (hdir w).mp hin
      omega]
    exact h.outside w (by omega)

theorem map_2m_laid (h : Tree s) (hva : 256 ≤ (indices va).pml4) (hsize : size % 2 ^ 21 = 0)
    (hok : map_2m s va pa size perm = .ok s') :
    Tree s' ∧ LaidLarge s s' va.as_u64 pa.as_u64 size (effective s perm ||| flags.HUGE_PAGE) := by
  have hnil : LaidLarge s s va.as_u64 pa.as_u64 (0 * 2 ^ 21) (effective s perm ||| flags.HUGE_PAGE) :=
    ⟨fun v h1 h2 => by omega, fun _ _ => rfl⟩
  obtain ⟨htree, hlaid⟩ := map_2m_ok h
    (fun k t => LaidLarge s t va.as_u64 pa.as_u64 (k * 2 ^ 21) (effective s perm ||| flags.HUGE_PAGE))
    hnil (fun k t t' v hva' _ _ hv _ htree' hlaid hcovered => by
      rw [Nat.succ_mul]
      exact hlaid.snoc hva' hv (high_of_le hva (by omega)) htree' hcovered) hok
  rw [Nat.div_mul_cancel (Nat.dvd_of_mod_eq_zero hsize)] at hlaid
  exact ⟨htree, hlaid⟩

end Large

section Frames

-- The tables that a range of large pages lies under.
def range_tables (va size : Nat) : Finset (List Nat) :=
  (Finset.range (size / 2 ^ 21)).biUnion fun k =>
    {[(va + k * 2 ^ 21) / 2 ^ 39 % 512],
      [(va + k * 2 ^ 21) / 2 ^ 39 % 512, (va + k * 2 ^ 21) / 2 ^ 30 % 512],
      [(va + k * 2 ^ 21) / 2 ^ 39 % 512, (va + k * 2 ^ 21) / 2 ^ 30 % 512,
        (va + k * 2 ^ 21) / 2 ^ 21 % 512]}

theorem range_tables_card (va size : Nat) : (range_tables va size).card ≤ 3 * (size / 2 ^ 21) := by
  rw [Nat.mul_comm]
  refine (Finset.card_biUnion_le_card_mul _ _ 3 fun k _ => Finset.card_le_three).trans_eq ?_
  rw [Finset.card_range]

theorem mem_range_tables {va v : VirtAddr} {size : Nat} (hva : va.as_u64 % 2 ^ 21 = 0)
    (h1 : va.as_u64 ≤ v.as_u64) (h2 : v.as_u64 < va.as_u64 + size) (hsize : size % 2 ^ 21 = 0) :
    ∀ q ∈ tables_of v, q ∈ range_tables va.as_u64 size := by
  intro q hq
  refine Finset.mem_biUnion.mpr ⟨(v.as_u64 - va.as_u64) / 2 ^ 21, Finset.mem_range.mpr (by omega), ?_⟩
  have hbase : va.as_u64 + (v.as_u64 - va.as_u64) / 2 ^ 21 * 2 ^ 21 = v.as_u64 / 2 ^ 21 * 2 ^ 21 := by
    omega
  have h39 : v.as_u64 / 2 ^ 21 * 2 ^ 21 / 2 ^ 39 = v.as_u64 / 2 ^ 39 := by omega
  have h30 : v.as_u64 / 2 ^ 21 * 2 ^ 21 / 2 ^ 30 = v.as_u64 / 2 ^ 30 := by omega
  have h21 : v.as_u64 / 2 ^ 21 * 2 ^ 21 / 2 ^ 21 = v.as_u64 / 2 ^ 21 := by omega
  rw [hbase, h39, h30, h21]
  simpa only [tables_of, indices, index_eq, List.mem_cons, List.not_mem_nil, or_false,
    Finset.mem_insert, Finset.mem_singleton] using hq

end Frames

section Calls

variable {s s' : State} {va : VirtAddr} {pa : PhysAddr} {size : Nat} {perm : Perm}

theorem Paged.map_4k (h : Paged s) (hva : 256 ≤ (indices va).pml4)
    (hok : Vmm.map_4k s va pa size perm = .ok s') : Paged s' := by
  obtain ⟨htree, hlaid, -⟩ := map_4k_ok h.tree (fun v h1 _ => h.high v (high_of_le hva h1)) hok
  refine ⟨htree, fun v hv => hlaid.notLarge (h.high v hv), ?_⟩
  rw [hlaid.count]
  exact h.count

theorem init_paged {L : Layout} {mem : Mem Nat Nat Nat} {supply : List Nat} {nx : Bool}
    {info : VmmInfo} (hfresh : Fresh L supply)
    (hinit : init (booted L mem supply nx) L.symbols = .ok (info, s)) : Paged s := by
  obtain ⟨c, rest, rfl, -, hbuilt⟩ := init_built hfresh hinit
  refine ⟨hbuilt.tree, hbuilt.small, ?_⟩
  rw [hbuilt.count]
  exact (rooted_enough (S := ∅) hfresh (Nat.zero_le _)).2

-- A range of the kernel half, as both mappers are asked for it.
structure Block (va : VirtAddr) (pa : PhysAddr) (size : Nat) : Prop where
  high : 256 ≤ (indices va).pml4
  va_aligned : va.as_u64 % 2 ^ 21 = 0
  pa_aligned : pa.as_u64 % 2 ^ 21 = 0
  size_aligned : size % 2 ^ 21 = 0
  frames : pa.as_u64 + size ≤ 2 ^ 52
  no_wrap : va.as_u64 + size ≤ 2 ^ 64

theorem Block.canonical (b : Block va pa size) {v : Nat} (h1 : va.as_u64 ≤ v)
    (h2 : v < va.as_u64 + size) : Canonical v := by
  have hva := va.canonical
  have hhigh := b.high
  have hwrap := b.no_wrap
  unfold Canonical at hva ⊢
  simp only [indices, index_eq] at hhigh
  omega

-- With a frame for every table the range may need, both calls return.
theorem Block.returns (b : Block va pa size) (h : Paged s)
    (hfree : ∀ v : VirtAddr, va.as_u64 ≤ v.as_u64 → v.as_u64 < va.as_u64 + size →
      s.find (path v) = none) (hsupply : 3 * (size / 2 ^ 21) ≤ s.supply.length) :
    (∃ s₂, map_2m s va pa size perm = .ok s₂) ∧ ∃ s₄, Vmm.map_4k s va pa size perm = .ok s₄ := by
  have hcard := (range_tables_card va.as_u64 size).trans hsupply
  have hva := b.va_aligned
  have hpa := b.pa_aligned
  have hsize := b.size_aligned
  have hfits : pa.as_u64 + size ≤ WORD := by
    have := b.frames
    rw [WORD_eq]
    omega
  have hmem : ∀ v : VirtAddr, va.as_u64 ≤ v.as_u64 → v.as_u64 < va.as_u64 + size →
      ∀ q ∈ tables_of v, q ∈ range_tables va.as_u64 size :=
    fun v h1 h2 => mem_range_tables hva h1 h2 hsize
  constructor
  · cases hcall : map_2m s va pa size perm with
    | ok s₂ => exact ⟨s₂, rfl⟩
    | error e =>
        have hspec : Ends _ _ (map_2m s va pa size perm) := ends_map_2m
          (S := (range_tables va.as_u64 size).filter (·.length ≤ 2)) h.tree (fun q hq => (Finset.mem_filter.mp hq).2)
          (fun v h1 h2 q hq hlen => Finset.mem_filter.mpr ⟨hmem v h1 h2 q hq, hlen⟩)
          (fun _ _ => True) trivial fun _ _ _ _ _ _ _ _ _ _ _ _ => trivial
        exact absurd ⟨hva, hpa, hsize, fun v h1 h2 => b.canonical h1 h2, hfits,
          enough_of_card ((Finset.card_filter_le _ _).trans hcard) h.count⟩
          (hspec.of_eq_error hcall)
  · cases hcall : Vmm.map_4k s va pa size perm with
    | ok s₄ => exact ⟨s₄, rfl⟩
    | error e =>
        have hspec : Ends _ _ (Vmm.map_4k s va pa size perm) := ends_map_4k h.tree hmem fun v h1 _ => h.high v (high_of_le b.high h1)
        exact absurd ⟨by omega, by omega, by omega, fun v h1 h2 => b.canonical h1 h2, hfits, hfree,
          enough_of_card hcard h.count⟩ (hspec.of_eq_error hcall)

theorem LaidLarge.mapping_inside (h : LaidLarge s s' va.as_u64 pa.as_u64 size
      (effective s perm ||| flags.HUGE_PAGE)) (b : Block va pa size) {v : VirtAddr}
    (h1 : va.as_u64 ≤ v.as_u64) (h2 : v.as_u64 < va.as_u64 + size) :
    ∃ e, mapping s' v = some (pa.as_u64 + (v.as_u64 - va.as_u64), e) ∧
      permissions e = effective s perm := by
  have hva := b.va_aligned
  have hpa := b.pa_aligned
  have hframes := b.frames
  have hbase : (pa.as_u64 + (v.as_u64 / 2 ^ 21 * 2 ^ 21 - va.as_u64)) % 2 ^ 21 = 0 := by omega
  have hlt : pa.as_u64 + (v.as_u64 / 2 ^ 21 * 2 ^ 21 - va.as_u64) < 0x10000000000000 := by omega
  refine ⟨_, ?_, permissions_large (by omega) hlt⟩
  rw [mapping_of_find (h.inside v h1 h2), large_addr hbase hlt (by simp)]
  congr 2
  omega

theorem Laid.mapping_inside (h : Laid s s' va.as_u64 pa.as_u64 size (effective s perm))
    (b : Block va pa size) {v : VirtAddr} (h1 : va.as_u64 ≤ v.as_u64)
    (h2 : v.as_u64 < va.as_u64 + size) :
    ∃ e, mapping s' v = some (pa.as_u64 + (v.as_u64 - va.as_u64), e) ∧
      permissions e = effective s perm := by
  have hva := b.va_aligned
  have hpa := b.pa_aligned
  have hframes := b.frames
  refine ⟨_, ?_, permissions_small (p := pa.as_u64 + (v.as_u64 / 4096 * 4096 - va.as_u64)) (by omega)
    (by omega)⟩
  rw [h.mapping_eq (by omega) (by omega) (by omega), Space.lay_inside h1 h2, page_entry]

end Calls

-- Large pages and small pages describe the same address space: where the range was free, the
-- two mappers differ in the size of the pages only.
theorem page_sizes_agree (L : Layout) (mem : Mem Nat Nat Nat) (supply : List Nat) (nx : Bool)
    (hfresh : Fresh L supply) (info : VmmInfo) (s₀ : State)
    (hinit : init (booted L mem supply nx) L.symbols = .ok (info, s₀))
    (history : List (Theory.Event State Call Unit)) (s : State)
    (hrun : Run KernelPages Call.run s₀ history s) (va : VirtAddr) (pa : PhysAddr) (size : Nat)
    (perm : Perm) (hblock : Block va pa size)
    (hfree : ∀ v : VirtAddr, va.as_u64 ≤ v.as_u64 → v.as_u64 < va.as_u64 + size →
      translate s v = .ok none) :
    (3 * (size / 2 ^ 21) ≤ s.supply.length →
      (∃ s₂, map_2m s va pa size perm = .ok s₂) ∧ ∃ s₄, map_4k s va pa size perm = .ok s₄) ∧
    ∀ s₂ s₄, map_2m s va pa size perm = .ok s₂ → map_4k s va pa size perm = .ok s₄ →
      (∀ v : VirtAddr, va.as_u64 ≤ v.as_u64 → v.as_u64 < va.as_u64 + size →
        ∃ q e₂ e₄, translate s₂ v = .ok (some (q, e₂)) ∧ translate s₄ v = .ok (some (q, e₄)) ∧
          permissions e₂ = permissions e₄ ∧ permissions e₄ = effective s perm) ∧
      ∀ v : VirtAddr, ¬(va.as_u64 ≤ v.as_u64 ∧ v.as_u64 < va.as_u64 + size) →
        translate s₂ v = translate s₄ v := by
  have hpaged : Paged s := by
    refine hrun.invariant Paged (init_paged hfresh hinit) ?_
    intro t call u t' ht hlegal hok
    cases call with
    | map_4k va pa size perm => exact ht.map_4k hlegal (run_map_4k.mp hok)
    | map_2m va pa size perm => exact hlegal.elim
  refine ⟨hblock.returns hpaged fun v h1 h2 => ?_, fun s₂ s₄ h₂ h₄ => ?_⟩
  · have hnone := hfree v h1 h2
    rw [translate_eq hpaged.tree] at hnone
    exact find_eq_none_of_mapping (Except.ok.inj hnone)
  obtain ⟨htree₂, hlaid₂⟩ := map_2m_laid hpaged.tree hblock.high hblock.size_aligned h₂
  obtain ⟨htree₄, hlaid₄, -⟩ :=
    map_4k_ok hpaged.tree (fun v h1 _ => hpaged.high v (high_of_le hblock.high h1)) h₄
  constructor
  · intro v h1 h2
    obtain ⟨e₂, hmap₂, hperm₂⟩ := hlaid₂.mapping_inside hblock h1 h2
    obtain ⟨e₄, hmap₄, hperm₄⟩ := hlaid₄.mapping_inside hblock h1 h2
    exact ⟨_, e₂, e₄, by rw [translate_eq htree₂, hmap₂], by rw [translate_eq htree₄, hmap₄],
      hperm₂.trans hperm₄.symm, hperm₄⟩
  · intro v hout
    rw [translate_eq htree₂, translate_eq htree₄, mapping, mapping, hlaid₂.outside v hout,
      hlaid₄.outside v hout]

-- Three frames more than `init` can need.
def roomy_supply : List Nat := (List.range 1040).map fun i => 0x2000000 + i * 4096

theorem roomy_fresh : Fresh small_layout roomy_supply :=
  fresh_above small_layout (by decide) (by decide) (by decide)

theorem roomy_supply_eq : roomy_supply =
    0x2000000 :: (List.range 1039).map fun i => 0x2000000 + (i + 1) * 4096 := by
  rw [roomy_supply, List.range_succ_eq_map, List.map_cons, List.map_map]
  rfl

-- Three tables that cannot be made: they would stand below the pages of the boot map.
theorem roomy_left {info : VmmInfo} {s : State}
    (hinit : init (booted small_layout (fun _ _ => 0) roomy_supply true) small_layout.symbols =
      .ok (info, s)) : 3 ≤ s.supply.length := by
  obtain ⟨c, rest, hsupply, -, hbuilt⟩ := init_built roomy_fresh hinit
  have hlen : 1039 ≤ rest.length := by
    have := congrArg List.length hsupply
    rw [roomy_supply, List.length_map, List.length_range, List.length_cons] at this
    omega
  have hspare : ({[0, 0, 0], [0, 0, 1], [0, 0, 2]} : Finset (List Nat)).card = 3 := by decide
  have hroom := hbuilt.enough (kernel_tables ∪ {[0, 0, 0], [0, 0, 1], [0, 0, 2]})
    Finset.subset_union_left (rooted_enough (hsupply ▸ roomy_fresh) <| by
      have := Finset.card_union_le kernel_tables {[0, 0, 0], [0, 0, 1], [0, 0, 2]}
      have := kernel_tables_card
      omega)
  refine hspare.ge.trans ((Finset.card_le_card fun p hp => ?_).trans hroom.1)
  obtain ⟨i, hi, rfl⟩ : ∃ i, i < 512 ∧ p = [0, 0, i] := by
    simp only [Finset.mem_insert, Finset.mem_singleton] at hp
    rcases hp with rfl | rfl | rfl
    · exact ⟨0, by decide, rfl⟩
    · exact ⟨1, by decide, rfl⟩
    · exact ⟨2, by decide, rfl⟩
  refine Finset.mem_filter.mpr ⟨Finset.mem_union_right _ hp, by simp, ?_⟩
  rw [Option.eq_none_iff_forall_ne_some]
  exact fun a ha => hbuilt.tree.not_boot hi ha ⟨rfl, by decide⟩

-- One large page between the heap and the image.
def gap_page : VirtAddr := ⟨0xFFFFFFFF40000000, .inr (by decide)⟩

theorem page_sizes_agree_gap : ∃ info s s₂ s₄ q e₂ e₄, ∃ pa : PhysAddr,
    init (booted small_layout (fun _ _ => 0) roomy_supply true) small_layout.symbols = .ok (info, s) ∧
      map_2m s gap_page pa (2 ^ 21) .RoData = .ok s₂ ∧ map_4k s gap_page pa (2 ^ 21) .RoData = .ok s₄ ∧
      translate s₂ gap_page = .ok (some (q, e₂)) ∧ translate s₄ gap_page = .ok (some (q, e₄)) ∧
      permissions e₂ = permissions e₄ := by
  obtain ⟨info, s, hinit⟩ : ∃ info s, init (booted small_layout (fun _ _ => 0) roomy_supply true)
      small_layout.symbols = .ok (info, s) := by
    rw [roomy_supply_eq]
    exact init_returns (roomy_supply_eq ▸ roomy_fresh) (by decide) (by decide) (by decide) (by simp)
  obtain ⟨pa, -, hpa⟩ := PhysAddr.exists_new (show 0x4000000 < 0x10000000000000 by decide)
  have hblock : Block gap_page pa (2 ^ 21) :=
    ⟨by decide, by decide, by rw [hpa]; decide, by decide, by rw [hpa]; decide, by decide⟩
  have hfree : ∀ v : VirtAddr, gap_page.as_u64 ≤ v.as_u64 → v.as_u64 < gap_page.as_u64 + 2 ^ 21 →
      translate s v = .ok none := by
    intro v h1 h2
    rw [translate_eq (init_low roomy_fresh hinit).1,
      init_kernel_half roomy_fresh hinit (high_of_le hblock.high h1),
      documented_below_image (sections small_layout)]
    · rw [KERNEL_VMA_eq]
      exact Nat.lt_of_lt_of_le h2 (by decide)
    · rw [HEAP_VIRT_START_eq]
      exact fun hheap => absurd (Nat.lt_of_le_of_lt h1 hheap.2) (by decide)
  obtain ⟨hreturns, hagree⟩ := page_sizes_agree _ _ _ _ roomy_fresh info s hinit [] s .nil gap_page pa
    (2 ^ 21) .RoData hblock hfree
  obtain ⟨⟨s₂, h₂⟩, ⟨s₄, h₄⟩⟩ := hreturns (roomy_left hinit)
  obtain ⟨q, e₂, e₄, ht₂, ht₄, hperm, -⟩ :=
    (hagree s₂ s₄ h₂ h₄).1 gap_page (Nat.le_refl _) (by decide)
  exact ⟨info, s, s₂, s₄, q, e₂, e₄, pa, hinit, h₂, h₄, ht₂, ht₄, hperm⟩

end Orin.Memory.Vmm
