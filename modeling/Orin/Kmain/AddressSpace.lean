import Orin.Kmain.Overflow
import Orin.Memory.Isolation
import Orin.Selftest.Tables

namespace Orin.Boot

-- `.boot_params` as the linker script fills it.
def Layout.params (L : Layout) : Arch.BootParams where
  kernel_phys_start := .ofNat image_phys_start
  kernel_phys_end := .ofNat L.kernel_phys_end
  boot_bss_phys_start := .ofNat L.boot_bss_phys_start
  boot_bss_phys_end := .ofNat (L.boot_bss_phys_start + EXPECTED_BOOT_BSS_SIZE)
  heap_phys_start := .ofNat L.heap_phys_start
  heap_phys_end := .ofNat L.heap_phys_end

end Orin.Boot

namespace Orin.Kmain

open Rust Arch Multiboot Memory Theory
open Boot (Layout Symbols image_phys_start EXPECTED_BOOT_BSS_SIZE)
open Theory.Radix (Mem)
open Memory.Pmm (FRAME_SIZE MAX_FRAMES PmmInner Books SharesByte sharesByte_iff usable)
open Memory.Vmm (VmmInfo Fresh Low booted rooted mapping translate indices documented)

def params_of (boot : BootInfo) : Multiboot.BootParams :=
  parse_params ((boot.cmdline.map Heapless.Str.as_str).getD "")

-- The machine with the tables of the boot stub and the frames of step 8.
def before_vmm (L : Layout) (mem : Mem Nat Nat Nat) (nx : Bool) (p : Pmm.State) : Machine where
  inner := p.inner
  cursor := p.cursor
  vmm := booted L mem [] nx
  held := 0
  tables := []

-- Steps 8 to 10 of `kernel_main`: the frames, the address space, the boot map.
def memory_ready (L : Layout) (boot : BootInfo) (mem : Mem Nat Nat Nat) (nx : Bool) :
    Except Panic (VmmInfo × Machine) := do
  let p ← boot_memory L.params boot ⟨PmmInner.new, 0, first_words (booted L mem [] nx).mem⟩
  let (info, m) ← (before_vmm L mem nx p).lend (Vmm.init · L.symbols)
  let s ← Selftest.harden_unless_off (params_of boot).nx m.vmm
  return (info, { m with vmm := s })

-- RAM of the memory map that nothing the boot reserves touches.
def Spare (L : Layout) (boot : BootInfo) (f : Nat) : Prop :=
  (∃ e ∈ boot.mmap.as_slice, f ∈ usable e) ∧
    ∀ r ∈ boot_ranges L.params boot, ¬SharesByte f r.1 r.2

variable {L : Layout} {boot : BootInfo} {mem : Mem Nat Nat Nat} {nx : Bool} {p : Pmm.State}
variable {B : Ledger Nat}

section Params

theorem toNat_ofNat_of_mapped {n : Nat} (h : n ≤ BOOT_MAPPED_BYTES) : (UInt64.ofNat n).toNat = n := by
  rw [BOOT_MAPPED_BYTES_eq] at h
  exact UInt64.toNat_ofNat_of_lt' (by rw [UInt64.size]; omega)

theorem kernel_phys_end_le (L : Layout) : L.kernel_phys_end ≤ BOOT_MAPPED_BYTES := L.heap_mapped

theorem boot_bss_end_le (L : Layout) :
    L.boot_bss_phys_start + EXPECTED_BOOT_BSS_SIZE ≤ L.kernel_phys_end := by
  have h1 := L.text_after_boot
  have o := L.order
  have h2 := o.rodata
  have h3 := o.data
  have h4 := o.bss
  have h5 := o.image
  have h6 := o.heap
  simp only [Layout.kernel_phys_end, Layout.heap_phys_end, HEAP_SIZE] at *
  omega

theorem image_start_le (L : Layout) : image_phys_start ≤ L.kernel_phys_end := by
  have h1 := L.boot_bss_after_start
  have h2 := boot_bss_end_le L
  omega

theorem image_range_eq (L : Layout) :
    image_range L.params = (image_phys_start, L.kernel_phys_end) := by
  have hend := kernel_phys_end_le L
  rw [image_range, Layout.params, toNat_ofNat_of_mapped hend,
    toNat_ofNat_of_mapped ((image_start_le L).trans hend)]

theorem params_linked (L : Layout) : Linked L.params := by
  have hend := kernel_phys_end_le L
  have hstart := image_start_le L
  have hbss := boot_bss_end_le L
  have hafter := L.boot_bss_after_start
  refine ⟨?_, ?_, ?_, ?_⟩
  · rw [UInt64.le_iff_toNat_le, Layout.params, toNat_ofNat_of_mapped hend,
      toNat_ofNat_of_mapped (by omega)]
    exact hstart
  · rw [Layout.params, toNat_ofNat_of_mapped hend, WORD_eq, FRAME_SIZE]
    rw [BOOT_MAPPED_BYTES_eq] at hend
    omega
  · rw [UInt64.le_iff_toNat_le, Layout.params, toNat_ofNat_of_mapped (by omega),
      toNat_ofNat_of_mapped (by omega)]
    exact hafter
  · rw [UInt64.le_iff_toNat_le, Layout.params, toNat_ofNat_of_mapped (by omega),
      toNat_ofNat_of_mapped hend]
    exact hbss

end Params

section Frames

theorem boot_memory_carved {params : Arch.BootParams} {memory : Nat → Bitmap.Word}
    (h : boot_memory params boot ⟨PmmInner.new, 0, memory⟩ = .ok p) :
    Carved boot (boot_ranges params boot) p := by
  obtain ⟨p₀, hinit, h⟩ := bind_eq_ok.mp h
  obtain ⟨p₁, hreserve, h⟩ := bind_eq_ok.mp h
  obtain ⟨_, -, h⟩ := bind_eq_ok.mp h
  obtain ⟨_, -, h⟩ := bind_eq_ok.mp h
  cases h
  have hcarved := (carved_init memory boot).of_eq_ok hinit
  exact ((reserve_boot_memory_spec hcarved params).of_eq_ok hreserve).1

-- The image is out of circulation from the start.
theorem Spare.outside {f : Nat} (h : Spare L boot f) :
    ¬(image_phys_start ≤ f * FRAME_SIZE ∧ f * FRAME_SIZE < L.kernel_phys_end) := by
  have hclear := h.2 (image_range L.params) (by simp [boot_ranges])
  rw [image_range_eq, sharesByte_iff] at hclear
  rintro ⟨h1, h2⟩
  refine hclear ⟨by omega, h2, ?_⟩
  rw [FRAME_SIZE] at h1 ⊢
  omega

-- The answers of the allocator are a supply for the page-table code.
theorem fresh_ahead (hb : Books ⟨p, 0⟩ B) (hfree : ∀ f, f ∈ B.free ↔ Spare L boot f)
    {ahead : List Nat} (hnodup : ahead.Nodup) (hall : ∀ f, f ∈ ahead ↔ f ∈ B.free) :
    Fresh L (ahead.map (· * FRAME_SIZE)) where
  nodup := hnodup.map fun f g (hfg : f * FRAME_SIZE = g * FRAME_SIZE) =>
    Nat.eq_of_mul_eq_mul_right (by decide) hfg
  readable a ha := by
    obtain ⟨f, hf, rfl⟩ := List.mem_map.mp ha
    have hlt := hb.managed f (by simp [Ledger.all, (hall f).mp hf])
    rw [Pmm.MAX_FRAMES_val] at hlt
    rw [BOOT_MAPPED_BYTES_eq, FRAME_SIZE, PAGE_SIZE]
    omega
  outside a ha := by
    obtain ⟨f, hf, rfl⟩ := List.mem_map.mp ha
    exact ((hfree f).mp ((hall f).mp hf)).outside

end Frames

-- The machine after step 9: the address space is built, every table accounted for.
structure Ready (L : Layout) (boot : BootInfo) (info : VmmInfo) (B : Ledger Nat) (m : Machine) :
    Prop where
  coherent : Coherent m B
  held : m.held = 0
  count : info.pt_frames = m.tables.length
  few : m.tables.length ≤ 1037
  spare : ∀ f ∈ B.free ∪ B.owned, Spare L boot f
  boot_tables : ∀ a, m.vmm.IsTable a → a / FRAME_SIZE ∈ m.tables ∨
    ∃ k, k < 4 ∧ a = L.boot_bss_phys_start + k * 4096
  cr3 : m.vmm.cr3 = m.vmm.kernel_pml4
  low : Low L.boot_bss_phys_start (fun n => 0x83 + n * 0x200000) m.vmm
  kernel_half : ∀ va : VirtAddr, 256 ≤ (indices va).pml4 →
    mapping m.vmm va = documented L.symbols m.vmm va.as_u64

theorem boot_table_frame (L : Layout) {k : Nat} (hk : k < 4) :
    image_phys_start ≤ (L.boot_bss_phys_start + k * 4096) / FRAME_SIZE * FRAME_SIZE ∧
      (L.boot_bss_phys_start + k * 4096) / FRAME_SIZE * FRAME_SIZE < L.kernel_phys_end := by
  have hin := Vmm.boot_tables_inside L hk
  have hmod := (Vmm.boot_tables_readable L hk).2
  rw [FRAME_SIZE, Nat.div_mul_cancel (Nat.dvd_of_mod_eq_zero hmod)]
  exact hin

theorem init_pt_frames {s s' : Vmm.State} {sym : Symbols} {info : VmmInfo}
    (h : Vmm.init s sym = .ok (info, s')) : info.pt_frames = s'.allocated := by
  obtain ⟨_, -, h⟩ := bind_eq_ok.mp h
  obtain ⟨_, -, h⟩ := bind_eq_ok.mp h
  obtain ⟨_, -, h⟩ := bind_eq_ok.mp h
  obtain ⟨_, -, h⟩ := bind_eq_ok.mp h
  obtain ⟨_, -, h⟩ := bind_eq_ok.mp h
  obtain ⟨_, -, h⟩ := bind_eq_ok.mp h
  obtain ⟨_, -, h⟩ := bind_eq_ok.mp h
  obtain ⟨_, -, h⟩ := bind_eq_ok.mp h
  obtain ⟨_, -, h⟩ := bind_eq_ok.mp h
  cases h
  rfl

theorem init_drawn {ahead : List Nat} {info : VmmInfo} {s : Vmm.State}
    (hfresh : Fresh L (ahead.map (· * FRAME_SIZE)))
    (h : Vmm.init ((before_vmm L mem nx p).lent ahead) L.symbols = .ok (info, s)) :
    Drawn ((before_vmm L mem nx p).lent ahead) s := by
  obtain ⟨c, supply, hsupply, -, hbuilt⟩ := Vmm.init_built hfresh h
  constructor
  · show s.supply <:+ ahead.map (· * FRAME_SIZE)
    rw [hsupply]
    exact hbuilt.supply.trans (List.suffix_cons c supply)
  · show s.allocated + s.supply.length = 0 + (ahead.map (· * FRAME_SIZE)).length
    rw [hsupply, hbuilt.count, List.length_cons]
    show 1 + supply.length = _
    omega

-- However many frames there are, `init` takes 1037 at the most: the room for the tables it
-- has no use for, here in slots of the boot PDPT, is still there at the end.
theorem init_few {supply : List Nat} {info : VmmInfo} {s : Vmm.State} (hfresh : Fresh L supply)
    (hinit : Vmm.init (booted L mem supply nx) L.symbols = .ok (info, s)) : s.allocated ≤ 1037 := by
  obtain ⟨-, -, hlow, -⟩ := Vmm.init_low hfresh hinit
  obtain ⟨c, rest, rfl, -, hbuilt⟩ := Vmm.init_built hfresh hinit
  have hcount : s.allocated + s.supply.length = 1 + rest.length := hbuilt.count
  let unused := (Finset.range (rest.length - 1036)).image fun i => [0, 512 + i]
  have hcard : unused.card = rest.length - 1036 := by
    rw [Finset.card_image_of_injective _ fun i j hij => by simpa using hij, Finset.card_range]
  by_cases hlong : 1036 ≤ rest.length
  · have hroom := hbuilt.enough (Vmm.kernel_tables ∪ unused) Finset.subset_union_left
      (Vmm.rooted_enough hfresh <| by
        have hunion := Finset.card_union_le Vmm.kernel_tables unused
        have htables := Vmm.kernel_tables_card
        omega)
    have hleft : unused.card ≤ s.supply.length := by
      refine (Finset.card_le_card fun q hq => ?_).trans hroom.1
      obtain ⟨i, -, rfl⟩ := Finset.mem_image.mp hq
      refine Finset.mem_filter.mpr ⟨Finset.mem_union_right _ hq, by simp, ?_⟩
      rw [Option.eq_none_iff_forall_ne_some]
      intro a ha
      rcases hlow.walk_pd.mp ha with ⟨hslot, -⟩ | ⟨hslot, -⟩ <;> omega
    omega
  · omega

-- Step 9 on the allocator that step 8 left.
theorem init_ready (hb : Books ⟨p, 0⟩ B) (hfree : ∀ f, f ∈ B.free ↔ Spare L boot f)
    {info : VmmInfo} {m : Machine}
    (hinit : (before_vmm L mem nx p).lend (Vmm.init · L.symbols) = .ok (info, m)) :
    ∃ taken, ∃ hsub : taken.toFinset ⊆ B.free, m.tables = taken ∧
      Ready L boot info (B.handOut taken.toFinset hsub) m := by
  have hbooks : Books (before_vmm L mem nx p).system B := hb.withMemory _
  obtain ⟨ahead, hnodup, hall, herror, hok⟩ := lend_eq hbooks (Vmm.init · L.symbols)
  have hfresh := fresh_ahead hb hfree hnodup hall
  cases hcall : Vmm.init ((before_vmm L mem nx p).lent ahead) L.symbols with
  | error e =>
      rw [herror e hcall] at hinit
      cases hinit
  | ok r =>
      obtain ⟨info', s'⟩ := r
      have hcall' : Vmm.init (booted L mem (ahead.map (· * FRAME_SIZE)) nx) L.symbols =
        .ok (info', s') := hcall
      obtain ⟨c, supply, hsupply, -, hbuilt⟩ := Vmm.init_built hfresh hcall'
      obtain ⟨taken, rest, q, hsub, rfl, hrest, hcount, hlend, hb'⟩ :=
        hok info' s' hcall (init_drawn hfresh hcall)
      obtain ⟨rfl, rfl⟩ := Prod.mk.inj (Except.ok.inj (hlend.symm.trans hinit))
      have htree := hbuilt.tree
      obtain ⟨-, hcr3, hlow, -⟩ := Vmm.init_low hfresh hcall'
      -- a table is the new root, one more frame of the pool, or a table of the stub
      have htables : ∀ a, s'.IsTable a → a / FRAME_SIZE ∈ taken ∨
          ∃ k, k < 4 ∧ a = L.boot_bss_phys_start + k * 4096 := by
        intro a ha
        have hpool : a ∈ (taken ++ rest).map (· * FRAME_SIZE) → a / FRAME_SIZE ∈ taken := by
          intro hin
          obtain ⟨f, hf, rfl⟩ := List.mem_map.mp hin
          rw [Nat.mul_div_cancel f (by decide)]
          refine (List.mem_append.mp hf).resolve_right fun hf => ?_
          refine htree.supply_fresh _ ?_ ha
          rw [hrest]
          exact List.mem_map_of_mem hf
        rw [hsupply] at hpool hfresh
        rcases hbuilt.tables a ha with hroot | hin
        · rcases (Vmm.rooted_inherits mem nx hfresh).isTable_cases hroot with rfl | hboot
          · exact .inl (hpool List.mem_cons_self)
          · exact .inr hboot
        · exact .inl (hpool (List.mem_cons_of_mem c hin))
      have hcirc : ∀ f ∈ (B.handOut taken.toFinset hsub).free ∪
          (B.handOut taken.toFinset hsub).owned, Spare L boot f := by
        intro f hf
        have hempty : B.owned = ∅ := Finset.val_eq_zero.mp hb.owned.symm
        have := (Ledger.Move.handOut B taken.toFinset hsub).circulating_subset hf
        rw [hempty, Finset.union_empty] at this
        exact (hfree f).mp this
      have hpool : s'.allocated = taken.length := hcount.trans (Nat.zero_add _)
      refine ⟨taken, hsub, rfl, ?_, rfl, ?_, hpool ▸ init_few hfresh hcall', hcirc, htables, hcr3, ?_,
        fun va hva => ?_⟩
      · refine ⟨hb', ?_, rfl, fun a ha => ?_, ?_⟩
        · exact Sound.with_supply (Vmm.init_sound hfresh hcall') List.nodup_nil nofun nofun
        · refine (htables a ha).imp id ?_
          rintro ⟨k, hk, rfl⟩ hin
          exact (hcirc _ hin).outside (boot_table_frame L hk)
        · exact hpool
      · exact (init_pt_frames hcall').trans hpool
      · exact ⟨hlow.root, hlow.pdpt, hlow.pd0, hlow.pd1, hlow.leaf⟩
      · exact Vmm.init_kernel_half hfresh hcall' hva

-- Frame 0 holds the interrupt vectors of real mode; `vmm` takes a root there for none.
theorem Spare.ne_zero {f : Nat} (h : Spare L boot f) : f ≠ 0 := by
  rintro rfl
  exact h.2 (0x0, 0x1000) (by simp [boot_ranges, fixed_ranges]) ⟨0, by decide⟩

theorem init_lends (mem : Mem Nat Nat Nat) (nx : Bool) (hb : Books ⟨p, 0⟩ B)
    (hfree : ∀ f, f ∈ B.free ↔ Spare L boot f) (htext : 0 < L.text.size) (hrodata : 0 < L.rodata.size) (hmany : 1037 ≤ B.free.card) :
    ∃ info m, (before_vmm L mem nx p).lend (Vmm.init · L.symbols) = .ok (info, m) := by
  have hbooks : Books (before_vmm L mem nx p).system B := hb.withMemory _
  obtain ⟨ahead, hnodup, hall, -, hok⟩ := lend_eq hbooks (Vmm.init · L.symbols)
  have hfresh := fresh_ahead hb hfree hnodup hall
  have hset : ahead.toFinset = B.free := by
    ext f
    rw [List.mem_toFinset, hall]
  rw [← hset, List.toFinset_card_of_nodup hnodup] at hmany
  cases ahead with
  | nil => cases hmany
  | cons f rest =>
      have hne := ((hfree f).mp ((hall f).mp List.mem_cons_self)).ne_zero
      obtain ⟨info, s, hinit⟩ : ∃ info s,
          Vmm.init ((before_vmm L mem nx p).lent (f :: rest)) L.symbols = .ok (info, s) :=
        Vmm.init_returns hfresh (Nat.mul_ne_zero hne (by decide)) htext hrodata
          (by rw [List.length_map]; exact Nat.le_of_succ_le_succ hmany)
      obtain ⟨taken, _, q, hsub, -, -, -, hlend, -⟩ := hok info s hinit (init_drawn hfresh hinit)
      exact ⟨info, _, hlend⟩

section Harden

variable {info : VmmInfo} {m : Machine} {s : Vmm.State}

-- Step 10 changes permissions of the boot map and nothing else.
structure Hardened (s s' : Vmm.State) : Prop where
  sound : Vmm.Sound s'
  supply : s'.supply = s.supply
  allocated : s'.allocated = s.allocated
  nx : s'.nx_available = s.nx_available
  tables : ∀ a, s'.IsTable a ↔ s.IsTable a
  phys : ∀ va, (mapping s' va).map Prod.fst = (mapping s va).map Prod.fst
  kernel_half : ∀ va : VirtAddr, 256 ≤ (indices va).pml4 → mapping s' va = mapping s va

theorem isTable_hardening {bss f : Nat} {entry : Nat → Nat} (low : Low bss entry s)
    (hf : Vmm.is_present f = true) {a : Nat} :
    (Vmm.hardening s bss f 512).IsTable a ↔ s.IsTable a := by
  have hwalk : ∀ q : List Nat, (Vmm.hardening s bss f 512).walk q = s.walk q := fun q =>
    Radix.walk_congr_slot fun _ i _ _ b _ => Vmm.slot_hardening low hf 512 b i
  exact exists_congr fun q => and_congr_right fun _ => Iff.of_eq (congrArg (· = some a) (hwalk q))

theorem Ready.hardened (h : Ready L boot info B m) (harden : Bool) :
    ∃ s, Selftest.harden_unless_off harden m.vmm = .ok s ∧ Hardened m.vmm s := by
  have hsound := h.coherent.sound
  cases harden with
  | false => exact ⟨m.vmm, rfl, hsound, rfl, rfl, rfl, fun _ => .rfl, fun _ => rfl, fun _ _ => rfl⟩
  | true =>
      have hf := Vmm.effective_present m.vmm .BootIdentity
      have hf0 := Vmm.effective_addr m.vmm .BootIdentity
      refine ⟨Vmm.hardening m.vmm L.boot_bss_phys_start (Vmm.effective m.vmm .BootIdentity) 512,
        ?_, ⟨?_, ?_⟩, rfl, rfl, rfl, fun a => isTable_hardening h.low hf,
        Vmm.hardening_phys hsound.tree h.low hf hf0, fun va hva => ?_⟩
      · rw [Selftest.harden_unless_off, if_pos rfl,
          Vmm.harden_boot_map_eq hsound.tree h.low h.cr3, ok_bind]
        rfl
      · exact Vmm.hardening_tree hsound.tree h.low hf
      · intro v e hfind
        by_cases h4 : (indices v).pml4 = 0
        · rw [(Vmm.hardening_low h.low hf).find_path h4] at hfind
          split_ifs at hfind <;> cases hfind
        · rw [Vmm.hardening_find hsound.tree h.low h4] at hfind
          exact hsound.small v e hfind
      · rw [mapping, mapping, Vmm.hardening_find hsound.tree h.low (by omega)]

theorem Hardened.coherent (h : Hardened m.vmm s) (hm : Coherent m B) :
    Coherent { m with vmm := s } B where
  books := hm.books.withMemory _
  sound := h.sound
  drawn := h.supply.trans hm.drawn
  own a ha := hm.own a ((h.tables a).mp ha)
  count := h.allocated.trans hm.count

end Harden

-- What `memory_ready` leaves.
theorem memory_ready_spec {info : VmmInfo} {m : Machine}
    (h : memory_ready L boot mem nx = .ok (info, m)) :
    ∃ m₁ B, Ready L boot info B m₁ ∧ Hardened m₁.vmm m.vmm ∧ m = { m₁ with vmm := m.vmm } := by
  obtain ⟨p, hp, h⟩ := bind_eq_ok.mp h
  obtain ⟨⟨info', m₁⟩, hinit, h⟩ := bind_eq_ok.mp h
  obtain ⟨s, hharden, h⟩ := bind_eq_ok.mp h
  cases h
  obtain ⟨B, hb, hfree, -⟩ := boot_memory_carved hp
  obtain ⟨taken, hsub, -, hready⟩ := init_ready hb hfree hinit
  obtain ⟨s', hs', hhardened⟩ := hready.hardened (params_of boot).nx
  obtain rfl : s' = s := Except.ok.inj (hs'.symm.trans hharden)
  exact ⟨m₁, _, hready, hhardened, rfl⟩

theorem memory_ready_ok (hloc : Located boot) (hfits : BootFits boot) (mem : Mem Nat Nat Nat)
    (nx : Bool) (htext : 0 < L.text.size) (hrodata : 0 < L.rodata.size) {frames : Finset Nat}
    (hspare : ∀ f ∈ frames, Spare L boot f) (hmany : 1037 ≤ frames.card) :
    ∃ info m₁ B s, (∀ f, f ∈ B.free ↔ Spare L boot f ∧ f ∉ m₁.tables) ∧
      Ready L boot info B m₁ ∧ Hardened m₁.vmm s ∧
      memory_ready L boot mem nx = .ok (info, { m₁ with vmm := s }) := by
  have hfirst := boot_memory_spec (first_words (booted L mem [] nx).mem) hloc (params_linked L)
  cases hp : boot_memory L.params boot ⟨PmmInner.new, 0, first_words (booted L mem [] nx).mem⟩ with
  | error e => exact absurd hfits (hfirst.of_eq_error hp).not_fits
  | ok p =>
      obtain ⟨B, hb, hfree, -⟩ := boot_memory_carved hp
      have hcard := hmany.trans (Finset.card_le_card fun f hf => (hfree f).mpr (hspare f hf))
      obtain ⟨info, m, hinit⟩ := init_lends mem nx hb hfree htext hrodata hcard
      obtain ⟨taken, hsub, rfl, hready⟩ := init_ready hb hfree hinit
      obtain ⟨s, hs, hhardened⟩ := hready.hardened (params_of boot).nx
      refine ⟨info, m, _, s, fun f => ?_, hready, hhardened, ?_⟩
      · rw [Ledger.handOut, Finset.mem_sdiff, List.mem_toFinset]
        exact and_congr_left' (hfree f)
      · rw [memory_ready, hp, ok_bind, hinit, ok_bind]
        dsimp only
        rw [hs]
        rfl

-- With 1037 spare frames the machine comes up: the documented address space, on tables that
-- the allocator gave and counts as given.
theorem memory_comes_up (bytes : Nat → UInt8) (phys : Nat) (boot : BootInfo)
    (hread : read_from bytes phys = .ok boot) (hfits : BootFits boot) (L : Layout)
    (htext : 0 < L.text.size) (hrodata : 0 < L.rodata.size) (mem : Mem Nat Nat Nat) (nx : Bool)
    (frames : Finset Nat) (hspare : ∀ f ∈ frames, Spare L boot f) (hmany : 1037 ≤ frames.card) :
    ∃ info m, memory_ready L boot mem nx = .ok (info, m) ∧
      (∀ va : VirtAddr, 256 ≤ (indices va).pml4 →
        translate m.vmm va = .ok (documented L.symbols m.vmm va.as_u64)) ∧
      info.pt_frames = m.tables.length ∧ m.tables.length ≤ 1037 ∧ m.tables.Nodup ∧
      (∀ a, m.vmm.IsTable a → a / FRAME_SIZE ∈ m.tables ∨
        ∃ k, k < 4 ∧ a = L.boot_bss_phys_start + k * 4096) ∧
      ∀ f, m.callers.free f ↔ Spare L boot f ∧ f ∉ m.tables := by
  obtain ⟨info, m, B, s, hfree, hready, hhardened, hok⟩ :=
    memory_ready_ok (read_from_located hread) hfits mem nx htext hrodata hspare hmany
  refine ⟨info, { m with vmm := s }, hok, fun va hva => ?_, hready.count, hready.few, ?_,
    fun a ha => ?_, fun f => ?_⟩
  · rw [Vmm.translate_eq hhardened.sound.tree, hhardened.kernel_half va hva,
      hready.kernel_half va hva]
    simp only [documented, Vmm.effective, hhardened.nx]
  · have hnodup : (m.held + (m.tables : Multiset Nat)).Nodup :=
      hready.coherent.owned_eq ▸ Finset.nodup _
    exact (Multiset.nodup_add.mp hnodup).2.1
  · exact hready.boot_tables a ((hhardened.tables a).mp ha)
  · exact (hhardened.coherent hready.coherent).books.free_iff.trans (hfree f)

-- A machine with 16 MiB of RAM from 32 MiB on, above the small image.
def roomy : List UInt8 :=
  encode [(tag.MMAP, mmap_body [⟨0x2000000, 0x1000000, Pmm.memtype.AVAILABLE⟩])]

theorem read_roomy : ∃ boot, read_from (loaded roomy 0x10000) 0x10000 = .ok boot ∧
    sizes boot = ([⟨0x2000000, 0x1000000, Pmm.memtype.AVAILABLE⟩], none, none, none) ∧
    boot.phys_addr = 0x10000 ∧ boot.total_size = 56 := by
  have hread : ∃ boot, read_from (loaded roomy 0x10000) 0x10000 = .ok boot ∧
      decide (sizes boot = ([⟨0x2000000, 0x1000000, Pmm.memtype.AVAILABLE⟩], none, none, none) ∧
        boot.phys_addr = 0x10000 ∧ boot.total_size = 56) = true :=
    ok_of_toOption_map (by decide +kernel)
  obtain ⟨boot, hread, hfields⟩ := hread
  exact ⟨boot, hread, of_decide_eq_true hfields⟩

theorem roomy_boot : ∃ boot, read_from (loaded roomy 0x10000) 0x10000 = .ok boot ∧
    BootFits boot ∧ ∀ f ∈ Finset.Ico 8192 9230, Spare Vmm.small_layout boot f := by
  obtain ⟨boot, hread, hsizes, hphys, htotal⟩ := read_roomy
  have hmap : boot.mmap.as_slice = [⟨0x2000000, 0x1000000, Pmm.memtype.AVAILABLE⟩] :=
    congrArg (fun x => x.1) hsizes
  have hfb : boot.framebuffer = none := congrArg (fun x => x.2.1) hsizes
  have hrsdp : boot.acpi_rsdp = none := congrArg (fun x => x.2.2.1) hsizes
  have hlimit : mem_limit_from boot = none := congrArg (fun x => x.2.2.2) hsizes
  refine ⟨boot, hread, ⟨by rw [hmap, WORD_eq]; decide, by simp [hfb], by simp [FramebufferFits, hfb],
    by simp [LimitFits, hlimit]⟩, fun f hf => ?_⟩
  have hrange := Finset.mem_Ico.mp hf
  have hranges : boot_ranges Vmm.small_layout.params boot = fixed_ranges ++
      [(0x100000, 0x1C00000), (0x10000, 0x10038)] := by
    simp only [boot_ranges, info_ranges, framebuffer_ranges, rsdp_ranges, limit_ranges,
      hfb, hrsdp, hlimit, hphys, htotal]
    rfl
  refine ⟨⟨_, hmap ▸ List.mem_singleton_self _, Pmm.mem_usable.mpr ⟨rfl, ?_⟩⟩, ?_⟩
  · have htop : min (saturating_add 0x2000000 0x1000000) Pmm.MAX_PHYS = 0x3000000 := by
      rw [saturating_add, WORD_eq]
      rfl
    show 0x2000000 ≤ f * 4096 ∧ (f + 1) * 4096 ≤ min (saturating_add 0x2000000 0x1000000) Pmm.MAX_PHYS
    rw [htop]
    omega
  · rw [hranges]
    simp only [fixed_ranges, List.cons_append, List.nil_append, List.forall_mem_cons,
      List.not_mem_nil, false_implies, implies_true, and_true, sharesByte_iff, FRAME_SIZE]
    omega

theorem memory_comes_up_roomy : ∃ boot info m,
    read_from (loaded roomy 0x10000) 0x10000 = .ok boot ∧
    memory_ready Vmm.small_layout boot (fun _ _ => 0) true = .ok (info, m) ∧
    info.pt_frames = m.tables.length ∧
    translate m.vmm Vmm.heap_page =
      .ok (documented Vmm.small_layout.symbols m.vmm Vmm.heap_page.as_u64) := by
  obtain ⟨boot, hread, hfits, hspare⟩ := roomy_boot
  obtain ⟨info, m, hok, hhalf, hcount, -⟩ := memory_comes_up _ _ boot hread hfits Vmm.small_layout
    (by decide) (by decide) (fun _ _ => 0) true _ hspare (by rw [Nat.card_Ico]; decide)
  exact ⟨boot, info, m, hread, hok, hcount, hhalf _ (by decide)⟩

-- Once the machine is up, neither manager undoes the other's work: no caller holds a table
-- or any memory of the boot, no frame is lost, what is mapped stays where it is. Only a
-- mapper changes the address space, and it leaves the callers' frames alone.
theorem memory_isolated (debug : Bool) (L : Layout) (boot : BootInfo) (mem : Mem Nat Nat Nat)
    (nx : Bool) (info : VmmInfo) (m₀ m : Machine)
    (hready : memory_ready L boot mem nx = .ok (info, m₀))
    (history : List (Event Machine Act (Option Pmm.PhysFrame)))
    (hrun : Run Machine.Legal (Machine.step debug) m₀ history m) :
    (∀ f ∈ m.held, Spare L boot f ∧ ∀ a, m.vmm.IsTable a → a / FRAME_SIZE ≠ f) ∧
    m.inner.free_frames + m.held.card + m.vmm.allocated + m.inner.reserved_frames =
      m.inner.total_frames ∧
    (∀ va q e, translate m₀.vmm va = .ok (some (q, e)) →
      ∃ e', translate m.vmm va = .ok (some (q, e'))) ∧
    ∀ act answer m', m.Legal act → m.step debug act = .ok (answer, m') →
      ((∀ call, act ≠ .map call) → ∀ va, translate m'.vmm va = translate m.vmm va) ∧
      ∀ call, act = .map call → ∀ f ∈ m.held, ∀ i,
        m'.vmm.mem (f * FRAME_SIZE) i = m.vmm.mem (f * FRAME_SIZE) i := by
  obtain ⟨m₁, B, hready, hhardened, hm₀⟩ := memory_ready_spec hready
  have hcoherent₀ : Coherent m₀ B := hm₀ ▸ hhardened.coherent hready.coherent
  obtain ⟨L', hkeeps⟩ := hcoherent₀.run hrun
  have hcoherent := hkeeps.coherent
  refine ⟨fun f hf => ⟨?_, ?_⟩, hcoherent.accounted, fun va q e hva => ?_,
    fun act answer m' hlegal hs => ⟨fun hact va => ?_, ?_⟩⟩
  · refine hready.spare f (hkeeps.circulating (Finset.mem_union_right _ ?_))
    exact hcoherent.mem_owned_of_held hf
  · rintro a ha rfl
    exact hcoherent.isTable_not_held ha hf
  · rw [Vmm.translate_eq hcoherent₀.sound.tree] at hva
    rw [Vmm.translate_eq hcoherent.sound.tree]
    obtain ⟨e', he'⟩ := hkeeps.mapped va q e (Except.ok.inj hva)
    exact ⟨e', by rw [he']⟩
  · have hsame : SameTables m.vmm m'.vmm := by
      cases act with
      | pmm op => exact (hcoherent.pmm hlegal hs).1
      | store frame index word => exact (hcoherent.store hlegal hs).1
      | map call => exact absurd rfl (hact call)
    rw [Vmm.translate_eq (hsame.sound hcoherent.sound).tree,
      Vmm.translate_eq hcoherent.sound.tree, hsame.mapping]
  · rintro call rfl
    exact (hcoherent.map hlegal hs).2.1

-- A caller takes a frame and writes to it.
theorem memory_isolated_roomy : ∃ boot info m₀ m f history,
    memory_ready Vmm.small_layout boot (fun _ _ => 0) true = .ok (info, m₀) ∧
    Run Machine.Legal (Machine.step true) m₀ history m ∧
    history.map (·.op) = [.pmm .allocate_frame, .store f 0 7] ∧ m.held = {f} ∧
    Spare Vmm.small_layout boot f ∧ ∀ a, m.vmm.IsTable a → a / FRAME_SIZE ≠ f := by
  obtain ⟨boot, hread, hfits, hspare⟩ := roomy_boot
  obtain ⟨info, m₁, B, s, hfree, hready, hhardened, hok⟩ := memory_ready_ok
    (L := Vmm.small_layout) (read_from_located hread) hfits (fun _ _ => 0) true (by decide)
    (by decide) hspare (by rw [Nat.card_Ico]; decide)
  have hcoherent := hhardened.coherent hready.coherent
  have hsome : B.free ≠ ∅ := by
    intro hnone
    have hall : Finset.Ico 8192 9230 ⊆ m₁.tables.toFinset := fun f hf => by
      by_contra hnot
      have hin := (hfree f).mpr ⟨hspare f hf, fun h => hnot (List.mem_toFinset.mpr h)⟩
      rw [hnone] at hin
      exact Finset.notMem_empty f hin
    have hcard := (Finset.card_le_card hall).trans (List.toFinset_card_le _)
    have hfew := hready.few
    rw [Nat.card_Ico] at hcard
    omega
  rcases hcoherent.books.allocate_frame_cases with ⟨hnone, -⟩ | ⟨f, p, hf, hr, -⟩
  · exact absurd hnone hsome
  · have hone : Pmm.handed .allocate_frame (some (.ofIndex f)) = {f} := by
      simp [Pmm.handed, Pmm.Op.count]
    have hcall : ({ m₁ with vmm := s } : Machine).callers.step true .allocate_frame =
        .ok (some (.ofIndex f), ⟨p, {f}⟩) := by
      rw [Pmm.System.step, show ({ m₁ with vmm := s } : Machine).callers.pmm.allocate_frame = _ from hr,
        ok_bind]
      simp only [hone, Machine.callers, hready.held, zero_add]
      rfl
    have hfirst : Machine.step true { m₁ with vmm := s } (.pmm .allocate_frame) =
        .ok (some (.ofIndex f), Machine.put { m₁ with vmm := s } ⟨p, {f}⟩) := by
      rw [Machine.step, hcall, ok_bind]
      rfl
    have hheld : f ∈ (Machine.put { m₁ with vmm := s } ⟨p, {f}⟩).held := Multiset.mem_singleton_self f
    have hlegal : ({ m₁ with vmm := s } : Machine).Legal (.pmm .allocate_frame) := trivial
    have hrun := (Run.nil.snoc hlegal hfirst).snoc
      (show Machine.Legal _ (.store f 0 7) from hheld) rfl
    obtain ⟨hspared, hnot⟩ := (memory_isolated true _ boot _ _ info _ _ hok _ hrun).1 f hheld
    exact ⟨boot, info, _, _, f, _, hok, hrun, rfl, rfl, hspared, hnot⟩

end Orin.Kmain
