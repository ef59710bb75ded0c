import Orin.Memory.Vmm.Harden
import Orin.Memory.Vmm.Init

namespace Orin.Memory.Vmm

open Rust Arch Boot
open Theory.Radix

-- The kernel half as documented: the image at its link addresses, the heap in its
-- window, the VGA page, and nothing else.
def documented (sym : Symbols) (s : State) (va : Nat) : Option (Nat × Nat) :=
  let image (perm : Perm) : Option (Nat × Nat) :=
    some (va - KERNEL_VMA, (va - KERNEL_VMA) / 4096 * 4096 ||| effective s perm)
  if sym.kernel_text_start ≤ va ∧ va < sym.kernel_rodata_start then image .TextRoX
  else if sym.kernel_rodata_start ≤ va ∧ va < sym.kernel_data_start then image .RoData
  else if sym.kernel_data_start ≤ va ∧ va < ALIGN sym.kernel_virt_end LARGE_PAGE_SIZE then
    image .DataRwNx
  else if HEAP_VIRT_START ≤ va ∧ va < HEAP_VIRT_START + HEAP_SIZE then
    some (sym.heap_phys_start + (va - HEAP_VIRT_START),
      (sym.heap_phys_start + (va - HEAP_VIRT_START)) / 4096 * 4096 ||| effective s .DataRwNx)
  else if KERNEL_VMA + VGA_PHYS ≤ va ∧ va < KERNEL_VMA + VGA_PHYS + PAGE_SIZE then
    some (VGA_PHYS + (va - (KERNEL_VMA + VGA_PHYS)), VGA_PHYS ||| effective s .Device)
  else none

theorem page_entry_eq {va pa f v : Nat} (hva : va % 4096 = 0) (hpa : pa % 4096 = 0) (hv : va ≤ v) :
    page_entry va pa f v = (pa + (v - va)) / 4096 * 4096 ||| f := by
  rw [page_entry]
  congr 1
  omega

section Space

variable {L : Layout} {r : State} {m : Space} {v : VirtAddr} {start len : Nat} {f : Nat}

-- A part of the image maps its addresses to their boot alias.
theorem lay_image (hstart : Boundary start) (h1 : start ≤ v.as_u64) (h2 : v.as_u64 < start + len) :
    m.lay start (start - KERNEL_VMA) len f v =
      some (v.as_u64 - KERNEL_VMA, (v.as_u64 - KERNEL_VMA) / 4096 * 4096 ||| f) := by
  have hlow := hstart.low
  have hpage := hstart.page
  have hbase : KERNEL_VMA % 4096 = 0 := by rw [KERNEL_VMA_eq]
  rw [Space.lay_inside h1 h2, page_entry_eq hpage (by omega) h1,
    show start - KERNEL_VMA + (v.as_u64 - start) = v.as_u64 - KERNEL_VMA by omega]

theorem image_space_eq {sym : Symbols} {image_end : Nat} (b : Sections sym image_end)
    (hfree : m v = none) : image_space sym image_end r m v =
      if sym.kernel_text_start ≤ v.as_u64 ∧ v.as_u64 < sym.kernel_rodata_start then
        some (v.as_u64 - KERNEL_VMA, (v.as_u64 - KERNEL_VMA) / 4096 * 4096 ||| effective r .TextRoX)
      else if sym.kernel_rodata_start ≤ v.as_u64 ∧ v.as_u64 < sym.kernel_data_start then
        some (v.as_u64 - KERNEL_VMA, (v.as_u64 - KERNEL_VMA) / 4096 * 4096 ||| effective r .RoData)
      else if sym.kernel_data_start ≤ v.as_u64 ∧ v.as_u64 < image_end then
        some (v.as_u64 - KERNEL_VMA, (v.as_u64 - KERNEL_VMA) / 4096 * 4096 ||| effective r .DataRwNx)
      else none := by
  have h1 := Nat.le_trans b.text_end b.text_le
  have h2 := Nat.le_trans b.rodata_end b.rodata_le
  have h3 := b.data_lt
  have h4 := Nat.le_trans b.bss_end b.bss_le
  rw [image_space]
  by_cases hbss : sym.kernel_bss_start ≤ v.as_u64 ∧ v.as_u64 < image_end
  · rw [lay_image b.bss hbss.1 (by omega), if_neg (by omega), if_neg (by omega), if_pos (by omega)]
  rw [Space.lay_outside (by omega)]
  by_cases hdata : sym.kernel_data_start ≤ v.as_u64 ∧ v.as_u64 < sym.kernel_bss_start
  · rw [lay_image b.data hdata.1 (by omega), if_neg (by omega), if_neg (by omega), if_pos (by omega)]
  rw [Space.lay_outside (by omega)]
  by_cases hrodata : sym.kernel_rodata_start ≤ v.as_u64 ∧ v.as_u64 < sym.kernel_data_start
  · rw [lay_image b.rodata hrodata.1 (by omega), if_neg (by omega), if_pos hrodata]
  rw [Space.lay_outside (by omega)]
  by_cases htext : sym.kernel_text_start ≤ v.as_u64 ∧ v.as_u64 < sym.kernel_rodata_start
  · rw [lay_image b.text htext.1 (by omega), if_pos htext]
  rw [Space.lay_outside (by omega), if_neg htext, if_neg hrodata, if_neg (by omega), hfree]

theorem kernel_space_eq {sym : Symbols} {s : State}
    (b : Sections sym (ALIGN sym.kernel_virt_end LARGE_PAGE_SIZE))
    (hs : s.nx_available = r.nx_available) (hfree : m v = none) :
    kernel_space sym (ALIGN sym.kernel_virt_end LARGE_PAGE_SIZE) r m v =
      documented sym s v.as_u64 := by
  have hfirst := b.first
  have h1 := Nat.le_trans b.text_end b.text_le
  have h2 := Nat.le_trans b.rodata_end b.rodata_le
  have h3 := b.data_lt
  have hvga : VGA_PHYS + PAGE_SIZE ≤ LARGE_PAGE_SIZE := by decide
  have hheap : HEAP_VIRT_START + HEAP_SIZE ≤ KERNEL_VMA := by
    rw [HEAP_VIRT_START_eq, KERNEL_VMA_eq]
    decide
  have heap_page : HEAP_VIRT_START % 4096 = 0 := by rw [HEAP_VIRT_START_eq]
  have vga_page : (KERNEL_VMA + VGA_PHYS) % 4096 = 0 := by
    rw [KERNEL_VMA_eq]
    rfl
  simp only [documented, effective_congr hs]
  rw [kernel_space]
  by_cases hdev : KERNEL_VMA + VGA_PHYS ≤ v.as_u64 ∧ v.as_u64 < KERNEL_VMA + VGA_PHYS + PAGE_SIZE
  · have hpage : VGA_PHYS + (v.as_u64 / 4096 * 4096 - (KERNEL_VMA + VGA_PHYS)) = VGA_PHYS := by
      have hsize : PAGE_SIZE = 4096 := rfl
      omega
    rw [Space.lay_inside hdev.1 hdev.2, page_entry, hpage, if_neg (by omega), if_neg (by omega),
      if_neg (by omega), if_neg (by omega), if_pos hdev]
  rw [Space.lay_outside hdev]
  by_cases hwin : HEAP_VIRT_START ≤ v.as_u64 ∧ v.as_u64 < HEAP_VIRT_START + HEAP_SIZE
  · rw [Space.lay_inside hwin.1 hwin.2, page_entry_eq heap_page b.heap_aligned hwin.1,
      if_neg (by omega), if_neg (by omega), if_neg (by omega), if_pos hwin]
  rw [Space.lay_outside hwin, image_space_eq b hfree, if_neg hwin, if_neg hdev]

theorem documented_heap {sym : Symbols} {s : State} {image_end : Nat} (b : Sections sym image_end)
    {v : Nat} (h1 : HEAP_VIRT_START ≤ v) (h2 : v < HEAP_VIRT_START + HEAP_SIZE) :
    documented sym s v = some (sym.heap_phys_start + (v - HEAP_VIRT_START),
      (sym.heap_phys_start + (v - HEAP_VIRT_START)) / 4096 * 4096 ||| effective s .DataRwNx) := by
  have hfirst := b.first
  have htext := Nat.le_trans b.text_end b.text_le
  have hrodata := Nat.le_trans b.rodata_end b.rodata_le
  have hheap : HEAP_VIRT_START + HEAP_SIZE ≤ KERNEL_VMA := by
    rw [HEAP_VIRT_START_eq, KERNEL_VMA_eq]
    decide
  rw [documented, if_neg (by omega), if_neg (by omega), if_neg (by omega), if_pos ⟨h1, h2⟩]

theorem documented_data {sym : Symbols} {s : State}
    (b : Sections sym (ALIGN sym.kernel_virt_end LARGE_PAGE_SIZE)) {v : Nat}
    (h1 : sym.kernel_data_start ≤ v) (h2 : v < ALIGN sym.kernel_virt_end LARGE_PAGE_SIZE) :
    documented sym s v = some (v - KERNEL_VMA,
      (v - KERNEL_VMA) / 4096 * 4096 ||| effective s .DataRwNx) := by
  have hrodata := Nat.le_trans b.rodata_end b.rodata_le
  rw [documented, if_neg (by omega), if_neg (by omega), if_pos ⟨h1, h2⟩]

-- The address is on one of the two pages beside the heap window.
def BesideHeap (v : Nat) : Prop :=
  HEAP_VIRT_START ≤ v + PAGE_SIZE ∧ v < HEAP_VIRT_START ∨
    HEAP_VIRT_START + HEAP_SIZE ≤ v ∧ v < HEAP_VIRT_START + HEAP_SIZE + PAGE_SIZE

theorem beside_heap_high (h : BesideHeap v.as_u64) : 256 ≤ (indices v).pml4 := by
  simp only [BesideHeap, HEAP_VIRT_START_eq, HEAP_SIZE, PAGE_SIZE] at h
  simp only [indices, index_eq]
  omega

-- Below the image there is the heap and nothing else.
theorem documented_below_image {sym : Symbols} {s : State} {image_end : Nat}
    (b : Sections sym image_end) {v : Nat} (hv : v < KERNEL_VMA)
    (hout : ¬(HEAP_VIRT_START ≤ v ∧ v < HEAP_VIRT_START + HEAP_SIZE)) : documented sym s v = none := by
  have hfirst := b.first
  have h1 := Nat.le_trans b.text_end b.text_le
  have h2 := Nat.le_trans b.rodata_end b.rodata_le
  rw [documented, if_neg (by omega), if_neg (by omega), if_neg (by omega), if_neg hout,
    if_neg (by omega)]

theorem documented_beside_heap {sym : Symbols} {s : State} {image_end : Nat}
    (b : Sections sym image_end) {v : Nat} (h : BesideHeap v) : documented sym s v = none := by
  have hgap : HEAP_VIRT_START + HEAP_SIZE + PAGE_SIZE ≤ KERNEL_VMA := by
    rw [HEAP_VIRT_START_eq, KERNEL_VMA_eq]
    decide
  unfold BesideHeap at h
  exact documented_below_image b (by omega) (by omega)

end Space

section Boot

variable {L : Layout} {mem : Mem Nat Nat Nat} {supply rest : List Nat} {c : Nat} {nx : Bool}

theorem rooted_kernel_half (hfresh : Fresh L (c :: rest)) {v : VirtAddr}
    (hv : 256 ≤ (indices v).pml4) : (rooted L mem c rest nx).find (path v) = none :=
  (rooted_inherits mem nx hfresh).find_rest (by omega)

theorem rooted_stage (hfresh : Fresh L (c :: rest)) (hc : c ≠ 0) :
    Stage (rooted L mem c rest nx) (rooted L mem c rest nx) (mapping (rooted L mem c rest nx)) where
  tree := rooted_tree mem nx hfresh hc
  small := by
    intro v hv e r hfind
    rw [rooted_kernel_half hfresh hv] at hfind
    cases hfind
  space := rfl
  within := .refl _
  low := .refl 0 _
  enough _ _ h := h

-- A root at address 0 counts as no root: the first mapping refuses to run.
theorem map_4k_no_root {s : State} (h : s.kernel_pml4 = 0) (va : VirtAddr) (pa : PhysAddr)
    (size : Nat) (perm : Perm) :
    Ends (fun _ => False) (fun _ => True) (map_4k s va pa size perm) := by
  unfold map_4k
  refine (ends_aligned fun _ _ => trivial).bind fun _ _ => ?_
  refine (ends_aligned fun _ _ => trivial).bind fun _ _ => ?_
  refine (ends_aligned fun _ _ => trivial).bind fun _ _ => ?_
  refine Ends.bind (ends_assert (P := fun _ => False) (fun hc => ?_) fun _ => trivial)
    fun _ hno => hno.elim
  simp [h] at hc

theorem map_region_no_root {data_start : Nat} {m : Mapped} (h : m.s.kernel_pml4 = 0)
    (region : Nat × Nat × Perm) :
    Ends (fun m' => m'.s.kernel_pml4 = 0) (fun _ => True) (map_region data_start m region) := by
  obtain ⟨start, len, perm⟩ := region
  rw [map_region]
  split
  · exact h
  · refine Ends.bind (P := fun _ => True) ?_ fun va _ => ?_
    · exact ends_VirtAddr_new (fun _ _ => trivial) fun _ _ => trivial
    refine Ends.bind (P := fun _ => True) ?_ fun pa _ => ?_
    · cases phys_of start <;> trivial
    exact (map_4k_no_root h va pa len perm).bind fun _ hno => hno.elim

theorem init_no_root {s₀ r : State} {sym : Symbols} (hroot : new_root s₀ = .ok r)
    (h : r.kernel_pml4 = 0) : Ends (fun _ => False) (fun _ => True) (init s₀ sym) := by
  rw [init, hroot, ok_bind]
  refine Ends.bind (P := fun m : Mapped => m.s.kernel_pml4 = 0) ?_ fun m hm => ?_
  · unfold map_image
    refine Ends.bind (P := fun _ => True) ?_ fun _ _ => ?_
    · cases check_sections sym <;> trivial
    refine Ends.bind (P := fun _ => True) ?_ fun list _ => ?_
    · cases regions sym <;> trivial
    exact ends_foldlM (fun _ (m : Mapped) => m.s.kernel_pml4 = 0) list _ h
      fun _ region m _ hm => map_region_no_root hm region
  · refine Ends.bind (P := fun _ => False) ?_ fun _ hno => hno.elim
    unfold map_heap
    refine Ends.bind (P := fun _ => True) ?_ fun _ _ => ?_
    · exact ends_sub (fun _ => trivial) fun _ => trivial
    refine Ends.bind (P := fun _ => True) ?_ fun _ _ => ?_
    · exact ends_assert (fun _ => trivial) fun _ => trivial
    refine Ends.bind (P := fun _ => True) ?_ fun va _ => ?_
    · exact ends_VirtAddr_new (fun _ _ => trivial) fun _ _ => trivial
    refine Ends.bind (P := fun _ => True) ?_ fun pa _ => ?_
    · cases PhysAddr.new sym.heap_phys_start <;> trivial
    exact map_4k_no_root hm va pa _ _

-- Where `init` returns, it had a frame for the root, and the tables are those of the
-- documented space over the inherited one.
theorem init_built {info : VmmInfo} {s : State} (hfresh : Fresh L supply)
    (h : init (booted L mem supply nx) L.symbols = .ok (info, s)) :
    ∃ c rest, supply = c :: rest ∧ c ≠ 0 ∧
      Built (rooted L mem c rest nx) s (kernel_space L.symbols L.image_end (rooted L mem c rest nx)
        (mapping (rooted L mem c rest nx))) := by
  cases supply with
  | nil =>
      have hno : Ends (fun _ => False) (fun _ => True) (init (booted L mem [] nx) L.symbols) := by
        rw [init]
        refine Ends.bind (P := fun _ => False) ?_ fun _ hno => hno.elim
        unfold new_root
        refine Ends.bind (P := fun _ => True) ?_ fun _ _ => ?_
        · exact ends_assert (fun _ => trivial) fun _ => trivial
        trivial
      exact (hno.of_eq_ok h).elim
  | cons c rest =>
      have hroot : new_root (booted L mem (c :: rest) nx) = .ok (rooted L mem c rest nx) :=
        new_root_eq hfresh
      by_cases hc : c = 0
      · exact ((init_no_root hroot hc).of_eq_ok h).elim
      · refine ⟨c, rest, rfl, hc, ?_⟩
        refine (ends_init (sections L) hroot (rooted_stage hfresh hc) fun v hv => ?_).of_eq_ok h
        rw [mapping, rooted_kernel_half hfresh hv]
        rfl

theorem init_kernel_half {info : VmmInfo} {s : State} (hfresh : Fresh L supply)
    (h : init (booted L mem supply nx) L.symbols = .ok (info, s)) {va : VirtAddr}
    (hva : 256 ≤ (indices va).pml4) : mapping s va = documented L.symbols s va.as_u64 := by
  obtain ⟨c, rest, rfl, hc, hbuilt⟩ := init_built hfresh h
  rw [hbuilt.space]
  refine kernel_space_eq (sections L) hbuilt.nx ?_
  rw [mapping, rooted_kernel_half hfresh hva]
  rfl

theorem translate_kernel_half {info : VmmInfo} {s : State} (hfresh : Fresh L supply)
    (h : init (booted L mem supply nx) L.symbols = .ok (info, s)) {va : VirtAddr}
    (hva : 256 ≤ (indices va).pml4) : translate s va = .ok (documented L.symbols s va.as_u64) := by
  obtain ⟨_, _, -, -, hbuilt⟩ := init_built hfresh h
  rw [translate_eq hbuilt.tree, init_kernel_half hfresh h hva]

theorem rooted_enough (hfresh : Fresh L (c :: rest)) {S : Finset (List Nat)}
    (hlen : S.card ≤ rest.length) : Enough S (rooted L mem c rest nx) := by
  have hle := hfresh.length_le
  rw [List.length_cons] at hle
  refine enough_of_card hlen ?_
  rw [WORD_eq]
  show 1 + rest.length < _
  omega

-- `init` returns on every image whose `.text` and `.rodata` are not empty, from a pool of
-- 1037 frames on.
theorem init_returns (hfresh : Fresh L (c :: rest)) (hc : c ≠ 0) (htext : 0 < L.text.size)
    (hrodata : 0 < L.rodata.size) (hlen : 1036 ≤ rest.length) :
    ∃ info s, init (booted L mem (c :: rest) nx) L.symbols = .ok (info, s) := by
  have hroot : new_root (booted L mem (c :: rest) nx) = .ok (rooted L mem c rest nx) :=
    new_root_eq hfresh
  have hspec := ends_init (sections L) hroot (rooted_stage hfresh hc) fun v hv => by
    rw [mapping, rooted_kernel_half hfresh hv]
    rfl
  cases hinit : init (booted L mem (c :: rest) nx) L.symbols with
  | ok r => exact ⟨r.1, r.2, rfl⟩
  | error e =>
      refine absurd ⟨?_, ?_, rooted_enough hfresh (kernel_tables_card.trans hlen)⟩
        (hspec.of_eq_error hinit)
      · exact Nat.lt_of_lt_of_le (Nat.lt_add_of_pos_right htext) (sections L).text_le
      · exact Nat.lt_of_lt_of_le (Nat.lt_add_of_pos_right hrodata) (sections L).rodata_le

end Boot

-- A small image: each section in its own 2 MiB, the heap from 14 MiB on.
def small_layout : Layout where
  boot_bss_phys_start := 0x200000
  text := ⟨0x400000, 0x1000⟩
  rodata := ⟨0x600000, 0x1000⟩
  data := ⟨0x800000, 0x1000⟩
  eh_frame := ⟨0x802000, 0x1000⟩
  got := ⟨0x803000, 0x1000⟩
  boot_params := ⟨0x804000, 48⟩
  bss := ⟨0xA00000, 0x40000⟩
  heap_phys_start := 0xC00000
  boot_bss_aligned := by decide
  boot_bss_after_start := by decide
  text_after_boot := by decide
  text_above := by decide
  text_aligned := by decide
  rodata_aligned := by decide
  data_aligned := by decide
  bss_aligned := by decide
  text_fits := by decide
  rodata_fits := by decide
  data_fits := by decide
  rodata_after_text := by decide
  data_after_rodata := by decide
  eh_frame_after_data := by decide
  got_after_eh_frame := by decide
  boot_params_after_got := by decide
  boot_params_size := by decide
  bss_after_boot_params := by decide
  heap_after_bss := by decide
  heap_aligned := by decide
  heap_mapped := by decide

-- The first 1037 frames above it.
def small_supply : List Nat := (List.range 1037).map fun i => 0x2000000 + i * 4096

theorem small_fresh : Fresh small_layout small_supply :=
  fresh_above small_layout (by decide) (by decide) (by decide)

theorem small_supply_eq : small_supply =
    0x2000000 :: (List.range 1036).map fun i => 0x2000000 + (i + 1) * 4096 := by
  rw [small_supply, List.range_succ_eq_map, List.map_cons, List.map_map]
  rfl

-- The state it boots into, on a CPU with NX.
def small_boot : State := booted small_layout (fun _ _ => 0) small_supply true

theorem small_returns : ∃ info s, init small_boot small_layout.symbols = .ok (info, s) := by
  rw [small_boot, small_supply_eq]
  exact init_returns (small_supply_eq ▸ small_fresh) (by decide) (by decide) (by decide) (by simp)

-- The kernel half after `init` is the documented one, address by address, and the pages
-- on both sides of the heap are unmapped.
theorem kernel_half_exact (L : Layout) (mem : Mem Nat Nat Nat) (supply : List Nat) (nx : Bool)
    (hfresh : Fresh L supply) :
    (∀ info s, init (booted L mem supply nx) L.symbols = .ok (info, s) →
      (∀ va : VirtAddr, 256 ≤ (indices va).pml4 →
        translate s va = .ok (documented L.symbols s va.as_u64)) ∧
      ∀ va : VirtAddr, BesideHeap va.as_u64 → translate s va = .ok none) ∧
    (0 < L.text.size → 0 < L.rodata.size → 1037 ≤ supply.length → supply.head? ≠ some 0 →
      ∃ info s, init (booted L mem supply nx) L.symbols = .ok (info, s)) := by
  refine ⟨fun info s hinit => ?_, fun htext hrodata hlen hhead => ?_⟩
  · refine ⟨fun va hva => translate_kernel_half hfresh hinit hva, fun va hguard => ?_⟩
    rw [translate_kernel_half hfresh hinit (beside_heap_high hguard),
      documented_beside_heap (sections L) hguard]
  · cases supply with
    | nil => simp at hlen
    | cons c rest =>
        rw [List.length_cons] at hlen
        exact init_returns hfresh (fun hc => hhead (by simp [hc])) htext hrodata (by omega)

theorem kernel_half_exact_small :
    ∃ info s, init small_boot small_layout.symbols = .ok (info, s) ∧
      (∀ va : VirtAddr, 256 ≤ (indices va).pml4 →
        translate s va = .ok (documented small_layout.symbols s va.as_u64)) ∧
      ∀ va : VirtAddr, BesideHeap va.as_u64 → translate s va = .ok none := by
  obtain ⟨hexact, hreturns⟩ :=
    kernel_half_exact small_layout (fun _ _ => 0) small_supply true small_fresh
  obtain ⟨info, s, hinit⟩ := hreturns (by decide) (by decide) (by simp [small_supply])
    (by simp [small_supply_eq])
  exact ⟨info, s, hinit, hexact info s hinit⟩

section Low

variable {L : Layout} {mem : Mem Nat Nat Nat} {supply : List Nat} {nx : Bool} {info : VmmInfo}
variable {s : State} {bss : Nat} {entry : Nat → Nat}

-- What the boot map makes of the first 512 GiB: its two page directories are reached
-- from the two top slots of the PDPT as well.
theorem Low.mapping_eq (low : Low bss entry s) (haddr : ∀ n, n < 1024 → entry_addr (entry n) = n * 2 ^ 21)
    {va : VirtAddr} (h4 : (indices va).pml4 = 0) : mapping s va =
      if va.as_u64 < 2 * 2 ^ 30 then some (va.as_u64, entry (va.as_u64 / 2 ^ 21))
      else if 510 * 2 ^ 30 ≤ va.as_u64 ∧ va.as_u64 < 512 * 2 ^ 30 then
        some (va.as_u64 - 510 * 2 ^ 30, entry ((va.as_u64 - 510 * 2 ^ 30) / 2 ^ 21))
      else none := by
  have hva : va.as_u64 < 512 * 2 ^ 30 := by
    have hcan := va.canonical
    unfold Canonical at hcan
    simp only [indices, index_eq] at h4
    omega
  -- the page `n` of the boot map
  have hpage : ∀ n, n < 1024 →
      resolve va (entry n, [(indices va).pt]) = (n * 2 ^ 21 + va.as_u64 % 2 ^ 21, entry n) := by
    intro n hn
    rw [resolve, haddr n hn, Nat.mul_div_cancel n (by decide)]
  have hpd : (indices va).pd = va.as_u64 / 2 ^ 21 % 512 := index_eq _ _
  have hpdpt : (indices va).pdpt = va.as_u64 / 2 ^ 30 := by
    rw [show (indices va).pdpt = va.as_u64 / 2 ^ 30 % 512 from index_eq _ _]
    omega
  have hlow : va.as_u64 / 2 ^ 21 * 2 ^ 21 + va.as_u64 % 2 ^ 21 = va.as_u64 := by omega
  have halias : 510 * 2 ^ 30 ≤ va.as_u64 →
      (va.as_u64 - 510 * 2 ^ 30) / 2 ^ 21 * 2 ^ 21 + va.as_u64 % 2 ^ 21 =
        va.as_u64 - 510 * 2 ^ 30 := by omega
  rw [mapping, low.find_path h4, hpdpt, hpd]
  by_cases h0 : va.as_u64 / 2 ^ 30 = 0 ∨ va.as_u64 / 2 ^ 30 = 510
  · rw [if_pos h0, Option.map_some, hpage _ (by omega)]
    rcases h0 with h0 | h0
    · rw [if_pos (by omega), show va.as_u64 / 2 ^ 21 % 512 = va.as_u64 / 2 ^ 21 by omega, hlow]
    · rw [if_neg (by omega), if_pos (by omega),
        show va.as_u64 / 2 ^ 21 % 512 = (va.as_u64 - 510 * 2 ^ 30) / 2 ^ 21 by omega, halias (by omega)]
  rw [if_neg h0]
  by_cases h1 : va.as_u64 / 2 ^ 30 = 1 ∨ va.as_u64 / 2 ^ 30 = 511
  · rw [if_pos h1, Option.map_some, hpage _ (by omega)]
    rcases h1 with h1 | h1
    · rw [if_pos (by omega), show 512 + va.as_u64 / 2 ^ 21 % 512 = va.as_u64 / 2 ^ 21 by omega, hlow]
    · rw [if_neg (by omega), if_pos (by omega),
        show 512 + va.as_u64 / 2 ^ 21 % 512 = (va.as_u64 - 510 * 2 ^ 30) / 2 ^ 21 by omega, halias (by omega)]
  · rw [if_neg h1, if_neg (by omega), if_neg (by omega)]
    rfl

theorem boot_entry_addr {n : Nat} (hn : n < 1024) : entry_addr (0x83 + n * 0x200000) = n * 2 ^ 21 := by
  rw [boot_entry, entry_addr_or, entry_addr_of_page (by omega) (by omega),
    show entry_addr 0x83 = 0 by rfl, Nat.or_zero, show (2 : Nat) ^ 21 = 0x200000 by rfl]

-- Nothing that `init` maps lies below the heap window.
theorem kernel_space_low {r : State} {m : Space} {sym : Symbols} {image_end : Nat}
    (b : Sections sym image_end) {v : VirtAddr} (hv : v.as_u64 < HEAP_VIRT_START) :
    kernel_space sym image_end r m v = m v := by
  have hfirst := b.first
  have h1 := Nat.le_trans b.text_end b.text_le
  have h2 := Nat.le_trans b.rodata_end b.rodata_le
  have h3 := b.data_lt
  have hheap : HEAP_VIRT_START ≤ KERNEL_VMA := by
    rw [HEAP_VIRT_START_eq, KERNEL_VMA_eq]
    decide
  rw [kernel_space, Space.lay_outside (by omega), Space.lay_outside (by omega), image_space,
    Space.lay_outside (by omega), Space.lay_outside (by omega), Space.lay_outside (by omega),
    Space.lay_outside (by omega)]

theorem low_lt_heap {va : VirtAddr} (hva : (indices va).pml4 < 256) :
    va.as_u64 < HEAP_VIRT_START := by
  have hcan := va.canonical
  unfold Canonical at hcan
  simp only [indices, index_eq] at hva
  rw [HEAP_VIRT_START_eq]
  omega

theorem init_low (hfresh : Fresh L supply)
    (h : init (booted L mem supply nx) L.symbols = .ok (info, s)) :
    Tree s ∧ s.cr3 = s.kernel_pml4 ∧
      Low L.boot_bss_phys_start (fun n => 0x83 + n * 0x200000) s ∧
      ∀ va : VirtAddr, (indices va).pml4 < 256 → (indices va).pml4 ≠ 0 → s.find (path va) = none := by
  obtain ⟨c, rest, rfl, -, hbuilt⟩ := init_built hfresh h
  have hin := rooted_inherits mem nx hfresh
  refine ⟨hbuilt.tree, hbuilt.cr3, hin.toLow.of_sameUnder hbuilt.low, fun va hlow h4 => ?_⟩
  apply find_eq_none_of_mapping
  rw [hbuilt.space, kernel_space_low (sections L) (low_lt_heap hlow), mapping, hin.find_rest h4]
  rfl

-- The first 2 GiB at their own addresses.
def IdentityAt (s : State) (va : VirtAddr) : Prop :=
  if va.as_u64 < BOOT_MAPPED_BYTES then ∃ e, translate s va = .ok (some (va.as_u64, e))
  else translate s va = .ok none

theorem identityAt_iff (h : Tree s) (low : Low bss entry s)
    (haddr : ∀ n, n < 1024 → entry_addr (entry n) = n * 2 ^ 21)
    (hrest : ∀ va : VirtAddr, (indices va).pml4 < 256 → (indices va).pml4 ≠ 0 →
      s.find (path va) = none) {va : VirtAddr} (hlow : (indices va).pml4 < 256) :
    IdentityAt s va ↔ ¬(510 * 2 ^ 30 ≤ va.as_u64 ∧ va.as_u64 < 512 * 2 ^ 30) := by
  have hsize : BOOT_MAPPED_BYTES = 2 * 2 ^ 30 := BOOT_MAPPED_BYTES_eq
  rw [IdentityAt, translate_eq h, hsize]
  by_cases h4 : (indices va).pml4 = 0
  · rw [low.mapping_eq haddr h4]
    by_cases h2 : va.as_u64 < 2 * 2 ^ 30
    · rw [if_pos h2, if_pos h2]
      exact iff_of_true ⟨_, rfl⟩ (by omega)
    · rw [if_neg h2, if_neg h2]
      split_ifs with halias
      · exact iff_of_false (fun h => nomatch h) (fun h => h halias)
      · exact iff_of_true rfl halias
  · have hfar : ¬va.as_u64 < 512 * 2 ^ 30 := by
      simp only [indices, index_eq] at h4
      omega
    rw [mapping, hrest va hlow h4, if_neg (by omega)]
    exact iff_of_true rfl (fun halias => hfar halias.2)

-- The low half is the identity map of the first 2 GiB, except in the last two GiB of
-- the first PML4 slot, where the boot map shows once more.
theorem identity_map_iff (L : Layout) (mem : Mem Nat Nat Nat) (supply : List Nat) (nx : Bool)
    (hfresh : Fresh L supply) (info : VmmInfo) (s : State)
    (hinit : init (booted L mem supply nx) L.symbols = .ok (info, s)) :
    ∃ n s', harden_boot_map s = .ok (n, s') ∧
      ∀ va : VirtAddr, (indices va).pml4 < 256 →
        (IdentityAt s va ↔ ¬(510 * 2 ^ 30 ≤ va.as_u64 ∧ va.as_u64 < 512 * 2 ^ 30)) ∧
        (IdentityAt s' va ↔ ¬(510 * 2 ^ 30 ≤ va.as_u64 ∧ va.as_u64 < 512 * 2 ^ 30)) := by
  obtain ⟨htree, hcr3, hlow, hrest⟩ := init_low hfresh hinit
  have hf := effective_present s .BootIdentity
  have hf0 := effective_addr s .BootIdentity
  refine ⟨_, _, harden_boot_map_eq htree hlow hcr3, fun va hva => ⟨?_, ?_⟩⟩
  · exact identityAt_iff htree hlow (fun n hn => boot_entry_addr hn) hrest hva
  · refine identityAt_iff (hardening_tree htree hlow hf) (hardening_low hlow hf) (fun n hn => ?_)
      (fun v h1 h2 => ?_) hva
    · rw [hardened_addr hf0, boot_entry_addr hn]
    · rw [hardening_find htree hlow h2, hrest v h1 h2]

theorem identity_map_iff_small :
    ∃ info s n s', init small_boot small_layout.symbols = .ok (info, s) ∧
      harden_boot_map s = .ok (n, s') ∧
      ∀ va : VirtAddr, (indices va).pml4 < 256 →
        (IdentityAt s va ↔ ¬(510 * 2 ^ 30 ≤ va.as_u64 ∧ va.as_u64 < 512 * 2 ^ 30)) ∧
        (IdentityAt s' va ↔ ¬(510 * 2 ^ 30 ≤ va.as_u64 ∧ va.as_u64 < 512 * 2 ^ 30)) := by
  obtain ⟨info, s, hinit⟩ := small_returns
  obtain ⟨n, s', hharden, hiff⟩ := identity_map_iff _ _ _ _ small_fresh info s hinit
  exact ⟨info, s, n, s', hinit, hharden, hiff⟩

-- The address 510 GiB reads the first page of memory.
theorem low_half_alias :
    ∃ info s, init small_boot small_layout.symbols = .ok (info, s) ∧
      ∃ va : VirtAddr, (indices va).pml4 < 256 ∧ BOOT_MAPPED_BYTES ≤ va.as_u64 ∧
        translate s va = .ok (some (0, 0x83)) := by
  obtain ⟨info, s, hinit⟩ := small_returns
  obtain ⟨htree, -, hlow, -⟩ := init_low small_fresh hinit
  refine ⟨info, s, hinit, ⟨0x7F80000000, .inl (by decide)⟩, by decide, by decide, ?_⟩
  rw [translate_eq htree, hlow.mapping_eq (fun n hn => boot_entry_addr hn) (by decide)]
  rfl

theorem boot_identity_flags {e : Nat} (hnx : s.nx_available = true) :
    hardened (effective s .BootIdentity) e &&& flags.WRITABLE ≠ 0 ∧
      hardened (effective s .BootIdentity) e &&& flags.NO_EXECUTE ≠ 0 ∧
      hardened (effective s .BootIdentity) e &&& flags.NO_CACHE ≠ 0 ∧
      hardened (effective s .BootIdentity) e &&& flags.USER = 0 := by
  have hbit : ∀ k, k < 12 ∨ 52 ≤ k → (hardened (effective s .BootIdentity) e &&& 2 ^ k != 0) =
      (Perm.BootIdentity.bits.testBit k || decide (k = 7)) := by
    intro k hk
    rw [and_two_pow_ne, hardened_testBit hk, effective, if_pos hnx]
  exact ⟨bne_iff_ne.mp (hbit 1 (by decide)), bne_iff_ne.mp (hbit 63 (by decide)),
    bne_iff_ne.mp (hbit 4 (by decide)), bne_eq_false_iff_eq.mp (hbit 2 (by decide))⟩

-- Hardening changes permissions only, those of the boot map, and all of them at once: pages
-- stay where they are, the kernel half keeps its entries, and a second run finds nothing to do.
theorem hardening_frame (L : Layout) (mem : Mem Nat Nat Nat) (supply : List Nat)
    (hfresh : Fresh L supply) (info : VmmInfo) (s : State)
    (hinit : init (booted L mem supply true) L.symbols = .ok (info, s)) :
    ∃ n s', harden_boot_map s = .ok (n, s') ∧
      (∀ va, ∃ r r', translate s va = .ok r ∧ translate s' va = .ok r' ∧
        r'.map Prod.fst = r.map Prod.fst) ∧
      (∀ va q e, (indices va).pml4 < 256 → translate s' va = .ok (some (q, e)) →
        e &&& flags.WRITABLE ≠ 0 ∧ e &&& flags.NO_EXECUTE ≠ 0 ∧ e &&& flags.NO_CACHE ≠ 0 ∧
          e &&& flags.USER = 0) ∧
      (∀ va, 256 ≤ (indices va).pml4 → translate s' va = translate s va) ∧
      harden_boot_map s' = .ok (n, s') := by
  obtain ⟨htree, hcr3, hlow, hrest⟩ := init_low hfresh hinit
  have hf := effective_present s .BootIdentity
  have hf0 := effective_addr s .BootIdentity
  have hnx : s.nx_available = true := by
    obtain ⟨c, rest, rfl, -, hbuilt⟩ := init_built hfresh hinit
    exact hbuilt.nx
  have htree' := hardening_tree htree hlow hf
  refine ⟨_, _, harden_boot_map_eq htree hlow hcr3, fun va => ?_, fun va q e hva htranslate => ?_,
    fun va hva => ?_, ?_⟩
  · exact ⟨_, _, translate_eq htree va, translate_eq htree' va, hardening_phys htree hlow hf hf0 va⟩
  · rw [translate_eq htree'] at htranslate
    obtain ⟨r, hfind, -⟩ := find_of_mapping (Except.ok.inj htranslate)
    by_cases h4 : (indices va).pml4 = 0
    · obtain ⟨e', rfl⟩ := hardening_entry hlow hf h4 hfind
      exact boot_identity_flags hnx
    · rw [hardening_find htree hlow h4, hrest va hva h4] at hfind
      cases hfind
  · rw [translate_eq htree', translate_eq htree, mapping, mapping,
      hardening_find htree hlow (by omega)]
  · rw [harden_boot_map_eq htree' (hardening_low hlow hf) hcr3]
    congr 2
    exact hardening_hardening hf0

theorem hardening_frame_small :
    ∃ info s n s', init small_boot small_layout.symbols = .ok (info, s) ∧
      harden_boot_map s = .ok (n, s') ∧ harden_boot_map s' = .ok (n, s') := by
  obtain ⟨info, s, hinit⟩ := small_returns
  obtain ⟨n, s', hharden, -, -, -, hagain⟩ := hardening_frame _ _ _ small_fresh info s hinit
  exact ⟨info, s, n, s', hinit, hharden, hagain⟩

end Low

end Orin.Memory.Vmm
