import Orin.Memory.Vmm.Root
import Orin.Memory.Vmm.Space
import Mathlib.Data.Finset.Prod

namespace Orin.Memory.Vmm

open Rust Arch Boot
open Theory.Radix

section Tables

-- Every table that `init` can need besides the root: one PDPT, the page directories of
-- the heap and of the two top gigabytes, and the page tables below them.
def kernel_tables : Finset (List Nat) :=
  {[511]} ∪ ({508, 510, 511} : Finset Nat).image (fun j => [511, j]) ∪
    (({508} : Finset Nat) ×ˢ Finset.range 8 ∪ {510, 511} ×ˢ Finset.range 512).image
      fun p => [511, p.1, p.2]

theorem kernel_tables_card : kernel_tables.card ≤ 1036 := by
  refine Nat.le_trans (Finset.card_union_le _ _) ?_
  have h1 : (({[511]} : Finset (List Nat)) ∪
      ({508, 510, 511} : Finset Nat).image (fun j => [511, j])).card ≤ 4 := by decide
  have h2 : ((({508} : Finset Nat) ×ˢ Finset.range 8 ∪ {510, 511} ×ˢ Finset.range 512).image
      fun p => [511, p.1, p.2]).card ≤ 1032 := by
    refine Nat.le_trans Finset.card_image_le (Nat.le_trans (Finset.card_union_le _ _) ?_)
    simp
  omega

theorem mem_kernel_tables {v : VirtAddr} (h4 : (indices v).pml4 = 511)
    (h : (indices v).pdpt = 508 ∧ (indices v).pd < 8 ∨
      ((indices v).pdpt = 510 ∨ (indices v).pdpt = 511) ∧ (indices v).pd < 512) :
    ∀ q ∈ tables_of v, q ∈ kernel_tables := by
  intro q hq
  simp only [tables_of, List.mem_cons, List.not_mem_nil, or_false, h4] at hq
  simp only [kernel_tables, Finset.mem_union, Finset.mem_singleton, Finset.mem_image,
    Finset.mem_product, Finset.mem_insert, Finset.mem_range, Prod.exists]
  rcases hq with rfl | rfl | rfl
  · exact .inl (.inl rfl)
  · refine .inl (.inr ⟨(indices v).pdpt, ?_, rfl⟩)
    omega
  · refine .inr ⟨(indices v).pdpt, (indices v).pd, ?_, rfl⟩
    omega

-- The two windows of the kernel half that `init` maps into.
theorem image_window {v : VirtAddr} (h : KERNEL_VMA ≤ v.as_u64) :
    256 ≤ (indices v).pml4 ∧ ∀ q ∈ tables_of v, q ∈ kernel_tables := by
  have hv : v.as_u64 < 0x10000000000000000 := by
    have := v.canonical
    unfold Canonical at this
    omega
  have hlow : 0xFFFFFFFF80000000 ≤ v.as_u64 := KERNEL_VMA_eq ▸ h
  have h4 : (indices v).pml4 = 511 := by
    simp only [indices, index_eq]
    omega
  have h3 : (indices v).pdpt = 510 ∨ (indices v).pdpt = 511 := by
    simp only [indices, index_eq]
    omega
  exact ⟨by omega, mem_kernel_tables h4 (.inr ⟨h3, pd_lt v⟩)⟩

theorem heap_window {v : VirtAddr} (h1 : HEAP_VIRT_START ≤ v.as_u64)
    (h2 : v.as_u64 < HEAP_VIRT_START + HEAP_SIZE) :
    256 ≤ (indices v).pml4 ∧ ∀ q ∈ tables_of v, q ∈ kernel_tables := by
  rw [HEAP_VIRT_START_eq] at h1 h2
  rw [HEAP_SIZE] at h2
  have h4 : (indices v).pml4 = 511 := by
    simp only [indices, index_eq]
    omega
  have h3 : (indices v).pdpt = 508 := by
    simp only [indices, index_eq]
    omega
  have h2 : (indices v).pd < 8 := by
    simp only [indices, index_eq]
    omega
  exact ⟨by omega, mem_kernel_tables h4 (.inl ⟨h3, h2⟩)⟩

end Tables

section Stage

theorem effective_congr {s s' : State} (h : s'.nx_available = s.nx_available) (perm : Perm) :
    effective s' perm = effective s perm := by
  simp only [effective, h]

-- A point of `init` after the root `r` was made: the tables are a tree, the kernel half
-- has small pages only, and the address space is `m`.
structure Stage (r s : State) (m : Space) : Prop where
  tree : Tree s
  small : ∀ v : VirtAddr, 256 ≤ (indices v).pml4 → NotLarge s v
  space : mapping s = m
  within : Within r s
  low : SameUnder 0 r s
  enough : ∀ S, kernel_tables ⊆ S → Enough S r → Enough S s

theorem find_eq_none_of_mapping {s : State} {v : VirtAddr} (h : mapping s v = none) :
    s.find (path v) = none := by
  simpa [mapping] using h

theorem Laid.notLarge {s s' : State} {va pa len f : Nat} (h : Laid s s' va pa len f) {v : VirtAddr}
    (hv : NotLarge s v) : NotLarge s' v := by
  intro e r hfind
  by_cases hin : va ≤ v.as_u64 ∧ v.as_u64 < va + len
  · rw [h.inside v hin.1 hin.2] at hfind
    cases hfind
    rfl
  · rw [h.outside v hin] at hfind
    exact hv e r hfind

-- Mapping an unmapped part of the two windows. Nothing stops it but the pool.
theorem Stage.ends_map_4k {r s : State} {m : Space} (h : Stage r s m) {va : VirtAddr}
    {pa : PhysAddr} {size : Nat} (perm : Perm) (hva : va.as_u64 % 4096 = 0)
    (hpa : pa.as_u64 % 4096 = 0) (hsize : size % 4096 = 0)
    (hwindow : ∀ v : VirtAddr, va.as_u64 ≤ v.as_u64 → v.as_u64 < va.as_u64 + size →
      256 ≤ (indices v).pml4 ∧ ∀ q ∈ tables_of v, q ∈ kernel_tables)
    (hlow : 0xFFFF800000000000 ≤ va.as_u64) (hhigh : va.as_u64 + size ≤ 0x10000000000000000)
    (hfits : pa.as_u64 + size ≤ 0x10000000000000)
    (hfree : ∀ v : VirtAddr, va.as_u64 ≤ v.as_u64 → v.as_u64 < va.as_u64 + size → m v = none) :
    Ends (fun s' => Stage r s' (m.lay va.as_u64 pa.as_u64 size (effective r perm)))
      (fun _ => ¬Enough kernel_tables r) (map_4k s va pa size perm) := by
  have hcall : ∀ S, kernel_tables ⊆ S → Ends (fun s' => Tree s' ∧
      Laid s s' va.as_u64 pa.as_u64 size (effective s perm) ∧ Agrees s va.as_u64 pa.as_u64 size ∧
      (Enough S s → Enough S s')) (fun _ => ¬Asked S s va pa size) (map_4k s va pa size perm) :=
    fun S hS => Vmm.ends_map_4k h.tree (fun v h1 h2 q hq => hS ((hwindow v h1 h2).2 q hq))
      fun v h1 h2 => h.small v (hwindow v h1 h2).1
  cases hresult : map_4k s va pa size perm with
  | ok s' =>
      obtain ⟨htree, hlaid, -⟩ := (hcall _ subset_rfl).of_eq_ok hresult
      have hspace := hlaid.mapping_eq hva hpa hfits
      rw [h.space, effective_congr h.within.nx] at hspace
      have hlow0 : SameUnder 0 s s' := hlaid.aside 0 fun v h1 h2 => by
        have := (hwindow v h1 h2).1
        omega
      exact ⟨htree, fun v hv => hlaid.notLarge (h.small v hv), hspace,
        h.within.trans hlaid.toWithin, h.low.trans hlow0,
        fun S hS hr => ((hcall S hS).of_eq_ok hresult).2.2.2 (h.enough S hS hr)⟩
  | error e =>
      intro henough
      refine (hcall _ subset_rfl).of_eq_error hresult ⟨hva, hpa, hsize, fun v h1 h2 => .inr (by omega), ?_,
        fun v h1 h2 => ?_, h.enough _ subset_rfl henough⟩
      · rw [WORD_eq]
        omega
      · apply find_eq_none_of_mapping
        rw [h.space]
        exact hfree v h1 h2

theorem phys_of_eq {start : Nat} (h1 : KERNEL_VMA ≤ start) (h2 : start < 0x10000000000000000) :
    ∃ pa : PhysAddr, phys_of start = .ok pa ∧ pa.as_u64 = start - KERNEL_VMA := by
  have hcanonical : Canonical start := .inr (by rw [KERNEL_VMA_eq] at h1; omega)
  have hsmall : start - KERNEL_VMA < 0x10000000000000 := by rw [KERNEL_VMA_eq]; omega
  have hwrap : (start + WORD - KERNEL_VMA) % WORD = start - KERNEL_VMA := by
    rw [show start + WORD - KERNEL_VMA = start - KERNEL_VMA + WORD by omega, Nat.add_mod_right]
    exact Nat.mod_eq_of_lt (by rw [WORD_eq]; omega)
  refine ⟨⟨start - KERNEL_VMA, hsmall⟩, ?_, rfl⟩
  rw [phys_of, VirtAddr.new_of_canonical hcanonical, ok_bind, virt_to_phys,
    if_neg (show ¬start < KERNEL_SPACE_START from Nat.not_lt.mpr h1)]
  simp only [hwrap, PhysAddr.new_of_lt hsmall]
  rfl

def Mapped.total (m : Mapped) : Nat := m.text_len + m.rodata_len + m.data_len + m.bss_len

theorem ends_count {m : Mapped} {len : Nat} (data_start start : Nat) (perm : Perm)
    (h : m.total + len < WORD) {S : Panic → Prop} :
    Ends (fun m' => m'.s = m.s ∧ m'.total ≤ m.total + len) S (m.count data_start start len perm) := by
  unfold Mapped.total at h
  cases perm with
  | TextRoX =>
      rw [Mapped.count, add_of_lt (by omega)]
      exact ⟨rfl, by simp only [Mapped.total]; omega⟩
  | RoData =>
      rw [Mapped.count, add_of_lt (by omega)]
      exact ⟨rfl, by simp only [Mapped.total]; omega⟩
  | DataRwNx =>
      rw [Mapped.count]
      split
      · rw [add_of_lt (by omega)]
        exact ⟨rfl, by simp only [Mapped.total]; omega⟩
      · rw [add_of_lt (by omega)]
        exact ⟨rfl, by simp only [Mapped.total]; omega⟩
  | Device => exact ⟨rfl, Nat.le_add_right _ _⟩
  | BootIdentity => exact ⟨rfl, Nat.le_add_right _ _⟩

-- One region of the image.
theorem Stage.ends_map_region {r : State} {m : Mapped} {sp : Space} (h : Stage r m.s sp)
    {data_start start len : Nat} (perm : Perm) (hstart : KERNEL_VMA ≤ start)
    (haligned : start % 4096 = 0) (hlen : len % 4096 = 0)
    (hhigh : start + len ≤ 0x10000000000000000) (htotal : m.total + len < WORD)
    (hfree : ∀ v : VirtAddr, start ≤ v.as_u64 → v.as_u64 < start + len → sp v = none) :
    Ends (fun m' => Stage r m'.s (sp.lay start (start - KERNEL_VMA) len (effective r perm)) ∧
        m'.total ≤ m.total + len)
      (fun _ => ¬Enough kernel_tables r) (map_region data_start m (start, len, perm)) := by
  rw [map_region]
  by_cases hzero : len = 0
  · rw [if_pos hzero, hzero, Space.lay_zero]
    exact ⟨h, Nat.le_add_right _ _⟩
  · rw [if_neg hzero]
    have hcanonical : Canonical start := .inr (by rw [KERNEL_VMA_eq] at hstart; omega)
    obtain ⟨pa, hpa, hpa_eq⟩ := phys_of_eq hstart (by omega)
    have hpage : KERNEL_VMA % 4096 = 0 := by rw [KERNEL_VMA_eq]
    rw [VirtAddr.new_of_canonical hcanonical, hpa, ok_bind, ok_bind, ← hpa_eq]
    refine (h.ends_map_4k perm haligned (by omega) hlen (fun v h1 _ => ?_) ?_ hhigh ?_ hfree).bind ?_
    · exact image_window (Nat.le_trans hstart h1)
    · rw [KERNEL_VMA_eq] at hstart
      show 0xFFFF800000000000 ≤ start
      omega
    · rw [KERNEL_VMA_eq] at hstart hpa_eq
      omega
    · intro s' hs'
      have hcount : ({ m with s := s' } : Mapped).total + len < WORD := htotal
      refine (ends_count data_start start perm hcount).mono ?_ fun _ hf => hf
      rintro m' ⟨hms, htot⟩
      rw [hms]
      exact ⟨hs', htot⟩

end Stage

section Image

theorem align_down_eq {v : Nat} (hv : v < WORD) : align_down v = v / 2 ^ 21 * 2 ^ 21 :=
  and_mask 21 hv

theorem align_down_of_aligned {v : Nat} (hv : v < WORD) (h : v % LARGE_PAGE_SIZE = 0) :
    align_down v = v := by
  rw [align_down_eq hv]
  exact Nat.div_mul_cancel (Nat.dvd_of_mod_eq_zero h)

theorem align_up_eq {v : Nat} (hv : v + LARGE_PAGE_SIZE < WORD) :
    align_up v = .ok (ALIGN v LARGE_PAGE_SIZE) := by
  rw [align_up, add_of_lt hv, ok_bind, align_down_eq (by omega)]
  rfl

-- A 2 MiB boundary of the image, as its virtual address.
structure Boundary (x : Nat) : Prop where
  low : KERNEL_VMA ≤ x
  high : x < 0x10000000000000000
  aligned : x % LARGE_PAGE_SIZE = 0

theorem Boundary.align_down {x : Nat} (h : Boundary x) : Vmm.align_down x = x :=
  align_down_of_aligned (by rw [WORD_eq]; exact h.high) h.aligned

theorem Boundary.page {x : Nat} (h : Boundary x) : x % 4096 = 0 := by
  have := h.aligned
  rw [LARGE_PAGE_SIZE] at this
  omega

theorem boundary_of_lma {x : Nat} (hx : x < BOOT_MAPPED_BYTES) (h : x % LARGE_PAGE_SIZE = 0) :
    Boundary (x + KERNEL_VMA) where
  low := Nat.le_add_left _ _
  high := by
    rw [BOOT_MAPPED_BYTES_eq] at hx
    rw [KERNEL_VMA_eq]
    omega
  aligned := by
    have hbase : KERNEL_VMA % LARGE_PAGE_SIZE = 0 := by rw [KERNEL_VMA_eq]; rfl
    rw [Nat.add_mod, h, hbase]
    rfl

theorem vmaEnd_eq (sec : Section) : sec.vmaEnd = sec.lma + sec.size + KERNEL_VMA :=
  Nat.add_right_comm sec.lma KERNEL_VMA sec.size

theorem vmaEnd_le {a b : Section} (h : a.lma + a.size ≤ b.lma) : a.vmaEnd ≤ b.vma := by
  rw [vmaEnd_eq]
  exact Nat.add_le_add_right h _

-- What `init` relies on of the symbols it reads: the regions are made of whole 2 MiB
-- pieces of the top 2 GiB, in order, above the first piece, and the heap is backed.
structure Sections (sym : Symbols) (image_end : Nat) : Prop where
  text : Boundary sym.kernel_text_start
  rodata : Boundary sym.kernel_rodata_start
  data : Boundary sym.kernel_data_start
  bss : Boundary sym.kernel_bss_start
  image : Boundary image_end
  text_end : sym.kernel_text_start ≤ sym.kernel_text_end
  rodata_end : sym.kernel_rodata_start ≤ sym.kernel_rodata_end
  data_end : sym.kernel_data_start ≤ sym.kernel_data_end
  bss_end : sym.kernel_bss_start ≤ sym.kernel_bss_end
  text_le : sym.kernel_text_end ≤ sym.kernel_rodata_start
  rodata_le : sym.kernel_rodata_end ≤ sym.kernel_data_start
  data_lt : sym.kernel_data_start < sym.kernel_bss_start
  bss_le : sym.kernel_bss_end ≤ image_end
  virt_end : align_up sym.kernel_virt_end = .ok image_end
  first : KERNEL_VMA + LARGE_PAGE_SIZE ≤ sym.kernel_text_start
  heap_size : sym.heap_phys_end = sym.heap_phys_start + HEAP_SIZE
  heap_mapped : sym.heap_phys_end ≤ BOOT_MAPPED_BYTES
  heap_aligned : sym.heap_phys_start % 4096 = 0

theorem align_up_virt_end (L : Layout) : align_up L.kernel_virt_end = .ok L.image_end := by
  refine align_up_eq ?_
  have hle := L.kernel_virt_end_le
  have hlast := L.heap_mapped
  rw [BOOT_MAPPED_BYTES_eq, HEAP_SIZE] at hlast
  rw [KERNEL_VMA_eq] at hle
  rw [LARGE_PAGE_SIZE, WORD_eq]
  omega

theorem sections (L : Layout) : Sections L.symbols L.image_end := by
  have o := L.order
  have h0 := o.text
  have h1 := o.rodata
  have h2 := o.data
  have h3 := o.bss
  have h4 := o.image
  have h5 := o.heap
  have h6 := o.last
  have hheap : 0 < HEAP_SIZE := by decide
  have himage : L.image_end < 0x10000000000000000 := by
    rw [BOOT_MAPPED_BYTES_eq] at h6
    rw [KERNEL_VMA_eq] at h5
    omega
  have haligned : L.heap_phys_start % 4096 = 0 := by
    have := L.heap_aligned
    rw [LARGE_PAGE_SIZE] at this
    omega
  exact
    { text := boundary_of_lma (by omega) L.text_aligned
      rodata := boundary_of_lma (by omega) L.rodata_aligned
      data := boundary_of_lma (by omega) L.data_aligned
      bss := boundary_of_lma (by omega) L.bss_aligned
      image := ⟨by omega, himage, o.image_aligned⟩
      text_end := Nat.le_add_right _ _
      rodata_end := Nat.le_add_right _ _
      data_end := Nat.le_add_right _ _
      bss_end := Nat.le_add_right _ _
      text_le := vmaEnd_le h1
      rodata_le := vmaEnd_le h2
      data_lt := Nat.add_lt_add_right h3 _
      bss_le := by
        rw [show L.symbols.kernel_bss_end = L.bss.lma + L.bss.size + KERNEL_VMA from vmaEnd_eq L.bss]
        exact h4
      virt_end := align_up_virt_end L
      first := by
        rw [Nat.add_comm]
        exact Nat.add_le_add_right h0 _
      heap_size := rfl
      heap_mapped := h6
      heap_aligned := haligned }

-- `.text` and `.rodata` must not be empty: an empty section would share the region of
-- the next.
theorem ends_check_sections {sym : Symbols} (ht : align_down sym.kernel_text_start = sym.kernel_text_start)
    (hr : align_down sym.kernel_rodata_start = sym.kernel_rodata_start)
    (hd : align_down sym.kernel_data_start = sym.kernel_data_start)
    (hb : align_down sym.kernel_bss_start = sym.kernel_bss_start)
    (htr : sym.kernel_text_end ≤ sym.kernel_rodata_start)
    (hrd : sym.kernel_rodata_start ≤ sym.kernel_data_start)
    (hdb : sym.kernel_data_start < sym.kernel_bss_start) :
    Ends (fun _ => True)
      (fun _ => ¬(sym.kernel_text_start < sym.kernel_rodata_start ∧
        sym.kernel_rodata_start < sym.kernel_data_start))
      (check_sections sym) := by
  unfold check_sections
  rw [ht, hr, hd, hb]
  refine Ends.bind (ends_assert (fun _ => trivial) fun hc => by simp at hc) fun _ (_ : True) => ?_
  refine Ends.bind (ends_assert (fun _ => trivial) fun hc => ?_) fun _ (_ : True) => ?_
  · simp [htr, hrd, Nat.le_of_lt hdb] at hc
  · refine ends_assert (fun _ => trivial) fun hc hsome => ?_
    simp [Nat.ne_of_gt hsome.1, Nat.ne_of_gt hsome.2, Nat.ne_of_gt hdb] at hc

theorem regions_eq {sym : Symbols} {image_end : Nat}
    (hr : align_down sym.kernel_rodata_start = sym.kernel_rodata_start)
    (hd : align_down sym.kernel_data_start = sym.kernel_data_start)
    (hb : align_down sym.kernel_bss_start = sym.kernel_bss_start)
    (he : align_up sym.kernel_virt_end = .ok image_end)
    (htr : sym.kernel_text_start ≤ sym.kernel_rodata_start)
    (hrd : sym.kernel_rodata_start ≤ sym.kernel_data_start)
    (hdb : sym.kernel_data_start ≤ sym.kernel_bss_start) (hbe : sym.kernel_bss_start ≤ image_end) :
    regions sym = .ok
      [(sym.kernel_text_start, sym.kernel_rodata_start - sym.kernel_text_start, .TextRoX),
        (sym.kernel_rodata_start, sym.kernel_data_start - sym.kernel_rodata_start, .RoData),
        (sym.kernel_data_start, sym.kernel_bss_start - sym.kernel_data_start, .DataRwNx),
        (sym.kernel_bss_start, image_end - sym.kernel_bss_start, .DataRwNx)] := by
  unfold regions
  rw [hr, hd, hb, he, sub_of_le htr, ok_bind, sub_of_le hrd, ok_bind, sub_of_le hdb, ok_bind,
    ok_bind, sub_of_le hbe]
  rfl

-- The image laid over a space.
def image_space (sym : Symbols) (image_end : Nat) (r : State) (m : Space) : Space :=
  (((m.lay sym.kernel_text_start (sym.kernel_text_start - KERNEL_VMA)
      (sym.kernel_rodata_start - sym.kernel_text_start) (effective r .TextRoX)).lay
    sym.kernel_rodata_start (sym.kernel_rodata_start - KERNEL_VMA)
      (sym.kernel_data_start - sym.kernel_rodata_start) (effective r .RoData)).lay
    sym.kernel_data_start (sym.kernel_data_start - KERNEL_VMA)
      (sym.kernel_bss_start - sym.kernel_data_start) (effective r .DataRwNx)).lay
    sym.kernel_bss_start (sym.kernel_bss_start - KERNEL_VMA)
      (image_end - sym.kernel_bss_start) (effective r .DataRwNx)

variable {sym : Symbols} {image_end : Nat} {r s : State} {m : Space}

-- Each region is laid where the ones before it end.
theorem Stage.ends_map_regions (b : Sections sym image_end) (h : Stage r s m)
    (hfree : ∀ v : VirtAddr, sym.kernel_text_start ≤ v.as_u64 → m v = none) :
    Ends (fun m' => Stage r m'.s (image_space sym image_end r m)) (fun _ => ¬Enough kernel_tables r)
      (List.foldlM (map_region sym.kernel_data_start) ⟨s, 0, 0, 0, 0⟩
        [(sym.kernel_text_start, sym.kernel_rodata_start - sym.kernel_text_start, .TextRoX),
          (sym.kernel_rodata_start, sym.kernel_data_start - sym.kernel_rodata_start, .RoData),
          (sym.kernel_data_start, sym.kernel_bss_start - sym.kernel_data_start, .DataRwNx),
          (sym.kernel_bss_start, image_end - sym.kernel_bss_start, .DataRwNx)]) := by
  have h1 := Nat.le_trans b.text_end b.text_le
  have h2 := Nat.le_trans b.rodata_end b.rodata_le
  have h3 := b.data_lt
  have h4 := Nat.le_trans b.bss_end b.bss_le
  have hlast := b.image.high
  have p0 := b.text.page
  have p1 := b.rodata.page
  have p2 := b.data.page
  have p3 := b.bss.page
  have p4 := b.image.page
  have hword : WORD = 0x10000000000000000 := WORD_eq
  have hlow : 0 < sym.kernel_text_start := by
    have := b.text.low
    rw [KERNEL_VMA_eq] at this
    omega
  have hstart : Stage r (Mapped.mk s 0 0 0 0).s m := h
  have t0 : (Mapped.mk s 0 0 0 0).total = 0 := rfl
  rw [List.foldlM_cons]
  refine Ends.bind (hstart.ends_map_region .TextRoX b.text.low p0 (by omega) (by omega) (by omega)
    fun v hv _ => hfree v hv) ?_
  rintro m1 ⟨s1, t1⟩
  rw [List.foldlM_cons]
  refine Ends.bind (s1.ends_map_region .RoData b.rodata.low p1 (by omega) (by omega) (by omega)
    fun v hv _ => ?_) ?_
  · rw [Space.lay_outside (by omega)]
    exact hfree v (by omega)
  rintro m2 ⟨s2, t2⟩
  rw [List.foldlM_cons]
  refine Ends.bind (s2.ends_map_region .DataRwNx b.data.low p2 (by omega) (by omega) (by omega)
    fun v hv _ => ?_) ?_
  · rw [Space.lay_outside (by omega), Space.lay_outside (by omega)]
    exact hfree v (by omega)
  rintro m3 ⟨s3, t3⟩
  rw [List.foldlM_cons]
  refine Ends.bind (s3.ends_map_region .DataRwNx b.bss.low p3 (by omega) (by omega) (by omega)
    fun v hv _ => ?_) ?_
  · rw [Space.lay_outside (by omega), Space.lay_outside (by omega), Space.lay_outside (by omega)]
    exact hfree v (by omega)
  rintro m4 ⟨s4, -⟩
  rw [List.foldlM_nil]
  exact s4

theorem Stage.ends_map_image (b : Sections sym image_end) (h : Stage r s m)
    (hfree : ∀ v : VirtAddr, sym.kernel_text_start ≤ v.as_u64 → m v = none) :
    Ends (fun m' => Stage r m'.s (image_space sym image_end r m))
      (fun _ => ¬(sym.kernel_text_start < sym.kernel_rodata_start ∧
        sym.kernel_rodata_start < sym.kernel_data_start ∧ Enough kernel_tables r))
      (map_image s sym) := by
  unfold map_image
  refine ((ends_check_sections b.text.align_down b.rodata.align_down b.data.align_down
    b.bss.align_down b.text_le (Nat.le_trans b.rodata_end b.rodata_le) b.data_lt).mono
    (fun _ h => h) fun _ hno hall => hno ⟨hall.1, hall.2.1⟩).bind fun _ _ => ?_
  rw [regions_eq b.rodata.align_down b.data.align_down b.bss.align_down b.virt_end
    (Nat.le_trans b.text_end b.text_le) (Nat.le_trans b.rodata_end b.rodata_le)
    (Nat.le_of_lt b.data_lt) (Nat.le_trans b.bss_end b.bss_le), ok_bind]
  exact (h.ends_map_regions b hfree).mono (fun _ h => h) fun _ hno hall => hno hall.2.2

theorem Stage.ends_map_heap (b : Sections sym image_end) (h : Stage r s m)
    (hfree : ∀ v : VirtAddr, HEAP_VIRT_START ≤ v.as_u64 → v.as_u64 < HEAP_VIRT_START + HEAP_SIZE →
      m v = none) :
    Ends (fun s' => Stage r s'
        (m.lay HEAP_VIRT_START sym.heap_phys_start HEAP_SIZE (effective r .DataRwNx)))
      (fun _ => ¬Enough kernel_tables r) (map_heap s sym) := by
  have hsize := b.heap_size
  have hmapped := b.heap_mapped
  obtain ⟨va, hva, hva_eq⟩ := VirtAddr.exists_new (show Canonical HEAP_VIRT_START by
    rw [HEAP_VIRT_START_eq]; decide)
  obtain ⟨pa, hpa, hpa_eq⟩ := PhysAddr.exists_new (show sym.heap_phys_start < 0x10000000000000 by
    rw [BOOT_MAPPED_BYTES_eq] at hmapped; omega)
  have hstart : va.as_u64 = 0xFFFFFFFF00000000 := hva_eq.trans HEAP_VIRT_START_eq
  have hlen : HEAP_SIZE = 0x1000000 := rfl
  unfold map_heap
  rw [sub_of_le (by omega), ok_bind]
  refine Ends.bind (ends_assert (P := fun _ => True) (fun _ => trivial) fun hc => ?_) fun _ _ => ?_
  · simp [hmapped] at hc
  rw [hva, hpa, ok_bind, ok_bind, show sym.heap_phys_end - sym.heap_phys_start = HEAP_SIZE by omega,
    ← hva_eq, ← hpa_eq]
  rw [BOOT_MAPPED_BYTES_eq] at hmapped
  refine h.ends_map_4k .DataRwNx (by omega) (by rw [hpa_eq]; exact b.heap_aligned) rfl
    (fun v h1 h2 => ?_) (by omega) (by omega) (by omega) fun v h1 h2 => ?_
  · exact heap_window (hva_eq ▸ h1) (hva_eq ▸ h2)
  · exact hfree v (hva_eq ▸ h1) (hva_eq ▸ h2)

theorem Stage.ends_map_vga (h : Stage r s m)
    (hfree : ∀ v : VirtAddr, KERNEL_VMA ≤ v.as_u64 → v.as_u64 < KERNEL_VMA + LARGE_PAGE_SIZE →
      m v = none) :
    Ends (fun s' => Stage r s'
        (m.lay (KERNEL_VMA + VGA_PHYS) VGA_PHYS PAGE_SIZE (effective r .Device)))
      (fun _ => ¬Enough kernel_tables r) (map_vga s) := by
  have hvga : KERNEL_VMA + VGA_PHYS = 0xFFFFFFFF800B8000 := by rw [KERNEL_VMA_eq]; rfl
  have hwrap : (VGA_PHYS + KERNEL_VMA) % WORD = KERNEL_VMA + VGA_PHYS := by
    rw [Nat.add_comm, hvga, WORD_eq]
  obtain ⟨va, hva, hva_eq⟩ := VirtAddr.exists_new (show Canonical (KERNEL_VMA + VGA_PHYS) by
    rw [hvga]; decide)
  obtain ⟨pa, hpa, hpa_eq⟩ := PhysAddr.exists_new (show VGA_PHYS < 0x10000000000000 by decide)
  have hstart : va.as_u64 = 0xFFFFFFFF800B8000 := hva_eq.trans hvga
  have hframe : pa.as_u64 = 0xB8000 := hpa_eq
  have hlen : PAGE_SIZE = 4096 := rfl
  have hlow : LARGE_PAGE_SIZE = 0x200000 := rfl
  unfold map_vga
  rw [hpa, ok_bind, phys_to_virt, hpa_eq, hwrap, hva, ok_bind, ← hva_eq, ← hpa_eq]
  refine h.ends_map_4k .Device (by omega) (by omega) rfl (fun v h1 _ => ?_) (by omega) (by omega)
    (by omega) fun v h1 h2 => ?_
  · exact image_window (by rw [KERNEL_VMA_eq]; omega)
  · exact hfree v (by rw [KERNEL_VMA_eq]; omega) (by rw [KERNEL_VMA_eq]; omega)

-- The address space that `init` builds over the one it inherits.
def kernel_space (sym : Symbols) (image_end : Nat) (r : State) (m : Space) : Space :=
  ((image_space sym image_end r m).lay HEAP_VIRT_START sym.heap_phys_start HEAP_SIZE
    (effective r .DataRwNx)).lay (KERNEL_VMA + VGA_PHYS) VGA_PHYS PAGE_SIZE (effective r .Device)

-- The state `init` leaves: the kernel runs on the tables it built.
structure Built (r s : State) (m : Space) : Prop where
  tree : Tree s
  small : ∀ v : VirtAddr, 256 ≤ (indices v).pml4 → NotLarge s v
  space : mapping s = m
  root : s.kernel_pml4 = r.kernel_pml4
  nx : s.nx_available = r.nx_available
  cr3 : s.cr3 = s.kernel_pml4
  low : SameUnder 0 r s
  tables : ∀ a, s.IsTable a → r.IsTable a ∨ a ∈ r.supply
  supply : s.supply <:+ r.supply
  count : s.allocated + s.supply.length = r.allocated + r.supply.length
  enough : ∀ S, kernel_tables ⊆ S → Enough S r → Enough S s
  kept : ∀ a, ¬r.IsTable a → a ∉ r.supply → ∀ i, s.mem a i = r.mem a i

theorem Tree.of_cr3 {s : State} (h : Tree s) (x : Nat) : Tree { s with cr3 := x } where
  root_ne := h.root_ne
  separate := h.separate
  readable := h.readable
  upper := h.upper
  boot_present := h.boot_present
  boot_leaf := h.boot_leaf
  supply_nodup := h.supply_nodup
  supply_readable := h.supply_readable
  supply_fresh := h.supply_fresh

theorem Stage.built (h : Stage r s m) : Built r { s with cr3 := s.kernel_pml4 } m where
  tree := h.tree.of_cr3 _
  small := h.small
  space := h.space
  root := h.within.root
  nx := h.within.nx
  cr3 := rfl
  low := ⟨h.low.root, h.low.slot, h.low.rows⟩
  tables a ha := (h.within.tables a ha).imp id And.left
  supply := h.within.supply
  count := h.within.count
  enough := h.enough
  kept a ha hs := h.within.kept a ha fun hin => absurd hin hs

theorem ends_init (b : Sections sym image_end) {s₀ : State} (hroot : new_root s₀ = .ok r)
    (h : Stage r r m) (hfree : ∀ v : VirtAddr, 256 ≤ (indices v).pml4 → m v = none) :
    Ends (fun x => Built r x.2 (kernel_space sym image_end r m))
      (fun _ => ¬(sym.kernel_text_start < sym.kernel_rodata_start ∧
        sym.kernel_rodata_start < sym.kernel_data_start ∧ Enough kernel_tables r))
      (init s₀ sym) := by
  have h1 := b.text.low
  have h2 := Nat.le_trans b.text_end b.text_le
  have h3 := Nat.le_trans b.rodata_end b.rodata_le
  have h4 := b.data_lt
  have hfirst := b.first
  rw [init, hroot, ok_bind]
  refine (h.ends_map_image b fun v hv => ?_).bind fun m1 s1 => ?_
  · exact hfree v (image_window (Nat.le_trans h1 hv)).1
  refine ((s1.ends_map_heap b fun v hv1 hv2 => ?_).mono (fun _ h => h)
    fun _ hno hall => hno hall.2.2).bind fun s2 h2' => ?_
  · have hbelow : v.as_u64 < KERNEL_VMA := by
      rw [HEAP_VIRT_START_eq, HEAP_SIZE] at hv2
      rw [KERNEL_VMA_eq]
      omega
    rw [image_space, Space.lay_outside (by omega), Space.lay_outside (by omega),
      Space.lay_outside (by omega), Space.lay_outside (by omega)]
    exact hfree v (heap_window hv1 hv2).1
  refine ((h2'.ends_map_vga fun v hv1 hv2 => ?_).mono (fun _ h => h)
    fun _ hno hall => hno hall.2.2).bind fun s3 h3' => ?_
  · have habove : HEAP_VIRT_START + HEAP_SIZE ≤ v.as_u64 := by
      rw [KERNEL_VMA_eq] at hv1
      rw [HEAP_VIRT_START_eq, HEAP_SIZE]
      omega
    rw [Space.lay_outside (by omega), image_space, Space.lay_outside (by omega),
      Space.lay_outside (by omega), Space.lay_outside (by omega), Space.lay_outside (by omega)]
    exact hfree v (image_window hv1).1
  rw [sub_of_le b.text_end, ok_bind, sub_of_le b.rodata_end, ok_bind, sub_of_le b.data_end, ok_bind,
    sub_of_le b.bss_end, ok_bind, sub_of_le (by rw [b.heap_size]; exact Nat.le_add_right _ _), ok_bind]
  exact h3'.built

end Image

end Orin.Memory.Vmm
