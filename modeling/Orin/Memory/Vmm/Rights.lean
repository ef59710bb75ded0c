import Orin.Memory.Vmm.Wx

namespace Orin.Memory.Vmm

open Rust Arch Boot
open Theory.Radix
open Theory (Run)

-- Off slot 0 of the root, below which the boot map hangs.
def Own (p : List Nat) : Prop := p.head? ≠ some 0

-- A pointer that takes neither right away.
def Passes (e : Nat) : Prop := e &&& flags.WRITABLE ≠ 0 ∧ e &&& flags.NO_EXECUTE = 0

abbrev State.Passing (s : State) : Prop := Pointers slot 4 s.mem s.kernel_pml4 Own Passes

-- The kernel half is made of small pages behind pointers that pass every right on.
structure Plain (s : State) : Prop where
  tree : Tree s
  small : ∀ v : VirtAddr, 256 ≤ (indices v).pml4 → NotLarge s v
  passing : s.Passing

section Flags

variable {e f p : Nat}

theorem writable_eq (e : Nat) : (e &&& flags.WRITABLE != 0) = e.testBit 1 := and_two_pow_ne e 1

theorem writable_iff : e &&& flags.WRITABLE ≠ 0 ↔ e.testBit 1 = true := by
  rw [← writable_eq, bne_iff_ne]

theorem executable_iff : e &&& flags.NO_EXECUTE = 0 ↔ e.testBit 63 = false := by
  have hbit : (e &&& flags.NO_EXECUTE != 0) = e.testBit 63 := and_two_pow_ne e 63
  rw [← hbit, bne_eq_false_iff_eq]

-- Frames below 2 GiB have neither of the two bits.
theorem passes_pointer (hp : p % 4096 = 0) (hlt : p < BOOT_MAPPED_BYTES) :
    Passes (p ||| (flags.PRESENT ||| flags.WRITABLE)) := by
  have hsmall : p < 2 ^ 63 := Nat.lt_trans (BOOT_MAPPED_BYTES_eq ▸ hlt) (by decide)
  refine ⟨writable_iff.mpr ?_, executable_iff.mpr ?_⟩
  · rw [Nat.testBit_or, page_testBit hp (by decide)]
    rfl
  · rw [Nat.testBit_or, Nat.testBit_lt_two_pow hsmall]
    rfl

end Flags

section Step

variable {s t : State} {q : List Nat} {b i : Nat} {S : Finset (List Nat)}

theorem Tree.linked_passing {c : Nat} {rest : List Nat} (h : Tree s) (hq : q.length < 3)
    (hb : s.walk q = some b) (hempty : slot (s.mem b i) = .empty) (hs : s.supply = c :: rest)
    (hpass : s.Passing) : (s.linked b i c rest).Passing := by
  obtain ⟨hlt, hpage⟩ := h.supply_readable c (by simp [hs])
  exact (h.linking hq hb hempty hs).pointers h.separate home_naming (passes_pointer hpage hlt) hpass

theorem Arrived.descend_passing (h : Arrived S s q b t) (message : String) (hq : q.length < 3)
    (hleaf : slot (t.mem b i) ≠ .leaf) (hpass : t.Passing) :
    Ends (fun r => r.2.Passing) (fun _ => True) (descend_or_panic t b i message) := by
  cases hslot : slot (t.mem b i) with
  | leaf => exact absurd hslot hleaf
  | table c =>
      rw [descend_or_panic, descend_eq_table hslot]
      exact hpass
  | empty =>
      cases hs : t.supply with
      | nil =>
          rw [descend_or_panic, Vmm.descend, alloc, hs]
          simp only [slot_empty_iff.mp hslot]
          trivial
      | cons c rest =>
          by_cases hcount : t.allocated + 1 < WORD
          · rw [descend_or_panic, descend_cons hs hcount, slot_empty_iff.mp hslot]
            exact h.tree.linked_passing hq h.here hslot hs hpass
          · rw [descend_or_panic, Vmm.descend, alloc, hs, add_of_ge (Nat.le_of_not_lt hcount)]
            simp only [slot_empty_iff.mp hslot]
            trivial

theorem ends_map_4k_page_passing {v : VirtAddr} (h : Tree s) (hv : NotLarge s v)
    (hpass : s.Passing) (f p : Nat) :
    Ends State.Passing (fun _ => True) (map_4k_page s s.kernel_pml4 f v p) := by
  obtain ⟨S, hS⟩ := exists_tables
  have hstart : Arrived S s [] s.kernel_pml4 s := .start h
  -- each level: the walk has arrived there, and the pointers on its way pass
  have hlevel {q : List Nat} {b i : Nat} {t : State} (message : String) (harr : Arrived S s q b t)
      (hq : q.length < 3) (hleaf : slot (t.mem b i) ≠ .leaf) (hin : q ++ [i] ∈ tables_of v)
      (hpass : t.Passing) : Ends (fun r => Arrived S s (q ++ [i]) r.1 r.2 ∧ r.2.Passing)
        (fun _ => True) (descend_or_panic t b i message) :=
    ((harr.descend message hq hleaf (hS v _ hin)).and
      (harr.descend_passing message hq hleaf hpass)).mono (fun _ hr => hr) fun _ _ => trivial
  rw [map_4k_page, h.table_at_root, ok_bind]
  refine (hlevel _ hstart (by simp) (h.upper [] _ _ (by simp) rfl) (by simp [tables_of])
    hpass).bind ?_
  rintro ⟨pdpt, s1⟩ ⟨h1, hpass1⟩
  simp only [h1.table_at (by simp), ok_bind]
  refine (hlevel _ h1 (by simp) (h1.tree.upper _ _ _ (by simp) h1.here) (by simp [tables_of])
    hpass1).bind ?_
  rintro ⟨pd, s2⟩ ⟨h2, hpass2⟩
  simp only [h2.table_at (by simp), ok_bind]
  refine (hlevel _ h2 (by simp) (Arrived.not_leaf hv h2) (by simp [tables_of]) hpass2).bind ?_
  rintro ⟨pt, s3⟩ ⟨h3, hpass3⟩
  simp only [h3.table_at (by simp), ok_bind]
  split
  · trivial
  · exact h3.tree.separate.pointers_write_last home_naming rfl h3.here hpass3

end Step

section Call

variable {s s' : State} {va : VirtAddr} {pa : PhysAddr} {size : Nat} {perm : Perm}

theorem Plain.map_4k (h : Plain s) (hva : 256 ≤ (indices va).pml4)
    (hok : Vmm.map_4k s va pa size perm = .ok s') : Plain s' := by
  have hsmall : ∀ v : VirtAddr, va.as_u64 ≤ v.as_u64 → v.as_u64 < va.as_u64 + size →
      NotLarge s v := fun v h1 _ => h.small v (high_of_le hva h1)
  obtain ⟨htree, hlaid, -⟩ := map_4k_ok h.tree hsmall hok
  refine ⟨htree, fun v hv => hlaid.notLarge (h.small v hv), ?_⟩
  obtain ⟨hva4, hpa4⟩ := map_4k_aligned hok
  obtain ⟨S, hS⟩ := exists_tables
  unfold Vmm.map_4k at hok
  obtain ⟨_, -, hok⟩ := bind_eq_ok.mp hok
  obtain ⟨_, -, hok⟩ := bind_eq_ok.mp hok
  obtain ⟨_, -, hok⟩ := bind_eq_ok.mp hok
  obtain ⟨_, -, hok⟩ := bind_eq_ok.mp hok
  refine ((ends_forRange (S := fun _ => True) (fun k t => Mapping S s va.as_u64 pa.as_u64
    (effective s perm) k t ∧ t.Passing) ⟨⟨h.tree, by simpa using Laid.nil s va.as_u64 pa.as_u64 _,
      fun v h1 h2 => by omega, id⟩, h.passing⟩ ?_).of_eq_ok hok).2
  rintro k t - hk ⟨hmapping, hpass⟩
  have hin : k * 4096 + 4096 ≤ size := by
    rw [PAGE_SIZE] at hk
    omega
  refine ((ends_map_4k_body hva4 hpa4 hin (fun v _ _ => hS v) hsmall hmapping).and
    (?_ : Ends State.Passing (fun _ => True) _)).mono (fun _ hr => hr) fun _ _ => trivial
  refine Ends.bind (ends_mul (P := fun n => n = k * 4096) (fun _ => rfl) fun _ => trivial) ?_
  rintro _ rfl
  refine Ends.bind (ends_add (P := fun n => n = va.as_u64 + k * 4096) (fun _ => rfl)
    fun _ => trivial) ?_
  rintro _ rfl
  refine Ends.bind (ends_VirtAddr_new (P := fun v => v.as_u64 = va.as_u64 + k * 4096)
    (fun _ hw => hw) fun _ _ => trivial) fun v hv => ?_
  refine Ends.bind (ends_mul (P := fun _ => True) (fun _ => trivial) fun _ => trivial) fun n _ => ?_
  refine Ends.bind (ends_add (P := fun _ => True) (fun _ => trivial) fun _ => trivial) fun p _ => ?_
  have hlarge : NotLarge t v := by
    intro e r hfind
    rw [hmapping.laid.outside v (by omega)] at hfind
    exact hsmall v (by omega) (by omega) e r hfind
  rw [← hmapping.laid.root]
  exact ends_map_4k_page_passing hmapping.tree hlarge hpass _ _

theorem count_state {m m' : Mapped} {data_start start len : Nat}
    (h : m.count data_start start len perm = .ok m') : m'.s = m.s := by
  have hfield {x : Except Panic Nat} {put : Nat → Mapped}
      (h : (do let n ← x; return put n : Except Panic Mapped) = .ok m')
      (hput : ∀ n, (put n).s = m.s) : m'.s = m.s := by
    obtain ⟨n, -, hn⟩ := bind_eq_ok.mp h
    cases hn
    exact hput n
  cases perm with
  | TextRoX => exact hfield h fun _ => rfl
  | RoData => exact hfield h fun _ => rfl
  | DataRwNx =>
      rw [Mapped.count] at h
      split at h
      · exact hfield h fun _ => rfl
      · exact hfield h fun _ => rfl
  | Device =>
      cases h
      rfl
  | BootIdentity =>
      cases h
      rfl

theorem virt_new_eq {x : Nat} (h : VirtAddr.new x = .ok va) : va.as_u64 = x :=
  (ends_VirtAddr_new (P := fun va : VirtAddr => va.as_u64 = x) (S := fun _ => True) (fun _ hw => hw)
    fun _ _ => trivial).of_eq_ok h

-- Only addresses of the image have a physical address.
theorem high_of_phys_of {start : Nat} (hnew : VirtAddr.new start = .ok va)
    (hphys : phys_of start = .ok pa) : 256 ≤ (indices va).pml4 := by
  refine (image_window ?_).1
  rw [phys_of, hnew, ok_bind, virt_to_phys] at hphys
  by_contra hlow
  rw [if_pos (show va.as_u64 < KERNEL_SPACE_START from Nat.lt_of_not_le hlow)] at hphys
  cases hphys

theorem Plain.map_region {m m' : Mapped} {data_start : Nat} {region : Nat × Nat × Perm}
    (h : Plain m.s) (hok : Vmm.map_region data_start m region = .ok m') : Plain m'.s := by
  obtain ⟨start, len, perm⟩ := region
  rw [Vmm.map_region] at hok
  split at hok
  · cases hok
    exact h
  · obtain ⟨va, hva, hok⟩ := bind_eq_ok.mp hok
    obtain ⟨pa, hpa, hok⟩ := bind_eq_ok.mp hok
    obtain ⟨s', hmap, hok⟩ := bind_eq_ok.mp hok
    rw [count_state hok]
    exact h.map_4k (high_of_phys_of hva hpa) hmap

end Call

section Boot

variable {L : Layout} {mem : Mem Nat Nat Nat} {supply rest : List Nat} {c : Nat} {nx : Bool}
  {info : VmmInfo} {s : State}

theorem rooted_plain (hfresh : Fresh L (c :: rest)) (hc : c ≠ 0) :
    Plain (rooted L mem c rest nx) := by
  have hstage : Stage (rooted L mem c rest nx) (rooted L mem c rest nx)
      (mapping (rooted L mem c rest nx)) := rooted_stage hfresh hc
  refine ⟨hstage.tree, hstage.small, fun p i a d hown _ ha hentry => ?_⟩
  have hempty : ∀ j, j ≠ 0 → slot ((rooted L mem c rest nx).mem
      (rooted L mem c rest nx).kernel_pml4 j) = .empty := by
    intro j hj
    rw [rooted_root, if_neg hj]
    exact slot_zero
  cases p with
  | nil =>
      cases ha
      rw [hempty i (by simpa [Own] using hown)] at hentry
      cases hentry
  | cons j p =>
      obtain ⟨e, he, -⟩ := walk_cons.mp ha
      rw [hempty j (by simpa [Own] using hown)] at he
      cases he

theorem init_plain (hfresh : Fresh L supply)
    (hinit : init (booted L mem supply nx) L.symbols = .ok (info, s)) : Plain s := by
  obtain ⟨c, rest, rfl, hc, -⟩ := init_built hfresh hinit
  rw [init, new_root_eq hfresh, ok_bind] at hinit
  obtain ⟨m, himage, hinit⟩ := bind_eq_ok.mp hinit
  obtain ⟨s₁, hheap, hinit⟩ := bind_eq_ok.mp hinit
  obtain ⟨s₂, hvga, hinit⟩ := bind_eq_ok.mp hinit
  have hm : Plain m.s := by
    unfold map_image at himage
    obtain ⟨_, -, himage⟩ := bind_eq_ok.mp himage
    obtain ⟨list, -, himage⟩ := bind_eq_ok.mp himage
    refine (ends_foldlM (S := fun _ => True) (fun _ (m : Mapped) => Plain m.s) list _
      (rooted_plain hfresh hc) fun _ region m _ hm => ?_).of_eq_ok himage
    cases hregion : Vmm.map_region L.symbols.kernel_data_start m region with
    | ok m' => exact hm.map_region hregion
    | error e => trivial
  have h₁ : Plain s₁ := by
    unfold map_heap at hheap
    obtain ⟨_, -, hheap⟩ := bind_eq_ok.mp hheap
    obtain ⟨_, -, hheap⟩ := bind_eq_ok.mp hheap
    obtain ⟨va, hva, hheap⟩ := bind_eq_ok.mp hheap
    obtain ⟨pa, -, hheap⟩ := bind_eq_ok.mp hheap
    have hstart := virt_new_eq hva
    exact hm.map_4k (heap_window (by omega) (by rw [HEAP_SIZE]; omega)).1 hheap
  have h₂ : Plain s₂ := by
    unfold map_vga at hvga
    obtain ⟨pa, hpa, hvga⟩ := bind_eq_ok.mp hvga
    obtain ⟨va, hva, hvga⟩ := bind_eq_ok.mp hvga
    have hframe : pa.as_u64 = VGA_PHYS := by
      rw [PhysAddr.new_of_lt (by decide)] at hpa
      cases hpa
      rfl
    have hstart := virt_new_eq hva
    rw [hframe, KERNEL_VMA_eq, WORD_eq] at hstart
    exact h₁.map_4k (image_window (by rw [KERNEL_VMA_eq, hstart]; decide)).1 hvga
  obtain ⟨_, -, hinit⟩ := bind_eq_ok.mp hinit
  obtain ⟨_, -, hinit⟩ := bind_eq_ok.mp hinit
  obtain ⟨_, -, hinit⟩ := bind_eq_ok.mp hinit
  obtain ⟨_, -, hinit⟩ := bind_eq_ok.mp hinit
  obtain ⟨_, -, hinit⟩ := bind_eq_ok.mp hinit
  cases hinit
  exact ⟨h₂.tree.of_cr3 _, h₂.small, h₂.passing⟩

theorem hardening_plain {bss f : Nat} {entry : Nat → Nat} (h : Plain s) (low : Low bss entry s)
    (hf : is_present f = true) : Plain (hardening s bss f 512) := by
  have hwalk : ∀ p, (hardening s bss f 512).walk p = s.walk p := fun p =>
    walk_congr_slot fun _ i _ _ b _ => slot_hardening low hf 512 b i
  refine ⟨hardening_tree h.tree low hf, fun v hv e r hfind => ?_, fun p i a d hown hlen ha hentry => ?_⟩
  · rw [hardening_find h.tree low (by omega)] at hfind
    exact h.small v hv e r hfind
  · replace ha : s.walk p = some a := (hwalk p).symm.trans ha
    rw [slot_hardening low hf] at hentry
    -- the boot directories hang below slot 0 only
    have hne : ∀ j b, s.walk [0, j] = some b → a ≠ b := by
      rintro j b hb rfl
      have hname := h.tree.separate p [0, j] a (by omega) (by simp) ha hb
      match p, home_naming.length_eq hname with
      | [k, l], _ =>
          simp only [home, List.cons.injEq] at hname
          exact hown (by simp [hname.1])
    rw [hardening_elsewhere (hne 0 _ (low.walk_pd.mpr (.inl ⟨.inl rfl, rfl⟩)))
      (hne 1 _ (low.walk_pd.mpr (.inr ⟨.inl rfl, rfl⟩)))]
    exact h.passing p i a d hown hlen ha hentry

end Boot

section Walk

variable {s : State} {v : VirtAddr} {e : Nat} {r : List Nat}

-- What the CPU reads on the way to a page of the kernel half.
theorem Plain.cpu_walk (h : Plain s) (hv : 256 ≤ (indices v).pml4)
    (hfind : s.find (path v) = some (e, r)) :
    ∃ pointers, Vmm.cpu_walk s v = some (pointers ++ [e]) ∧ ∀ x ∈ pointers, Passes x := by
  obtain rfl := h.small v hv e r hfind
  obtain ⟨pd, hpd, hpage⟩ := h.tree.find_cases hfind
  obtain ⟨pdpt, hpdpt, h3⟩ := walk_snoc.mp
    (show s.walk ([(indices v).pml4] ++ [(indices v).pdpt]) = some pd from hpd)
  obtain ⟨_, h4, hnil⟩ := walk_cons.mp hpdpt
  cases hnil
  rcases hpage with ⟨-, -, hrest⟩ | ⟨pt, h2, rfl, -⟩
  · cases hrest
  have hown : ∀ p : List Nat, Own ((indices v).pml4 :: p) := by
    intro p hzero
    simp only [List.head?_cons, Option.some.injEq] at hzero
    omega
  refine ⟨[s.mem s.kernel_pml4 (indices v).pml4, s.mem pdpt (indices v).pdpt,
    s.mem pd (indices v).pd], ?_, ?_⟩
  · have hpresent : page_slot (s.mem pt (indices v).pt) = .leaf := by
      rw [page_slot_leaf_iff]
      rw [show path v = [(indices v).pml4, (indices v).pdpt] ++ [(indices v).pd, (indices v).pt]
        from rfl, State.find, find_append hpd (by simp), find_cons_table h2 (by simp)] at hfind
      by_contra hno
      rw [find_cons_empty (slot_empty_iff.mpr (by simpa using hno))] at hfind
      cases hfind
    obtain ⟨hp4, -, ha4⟩ := slot_table_iff.mp h4
    rw [Vmm.cpu_walk, PML4_LEVELS, PDPT_LEVELS, PD_LEVELS, PT_LEVELS, path]
    simp only [Theory.Levels.trail, pointer_slot_table_iff.mpr ⟨hp4, ha4⟩, h3, h2, hpresent,
      Option.map_some]
    rfl
  · intro x hx
    simp only [List.mem_cons, List.not_mem_nil, or_false] at hx
    rcases hx with rfl | rfl | rfl
    · exact h.passing [] _ _ _ (hown []) (by simp) rfl h4
    · exact h.passing [_] _ _ _ (hown _) (by simp) hpdpt h3
    · exact h.passing [_, _] _ _ _ (hown _) (by simp) hpd h2

theorem find_of_cpu_walk (h : Tree s) {es : List Nat} (hwalk : Vmm.cpu_walk s v = some es) :
    ∃ e r, s.find (path v) = some (e, r) := by
  obtain ⟨e, -, r, hfound⟩ := Theory.Levels.find_mem_trail hwalk
  exact ⟨e, r, (h.found_eq v).symm.trans hfound⟩

-- A right that every pointer passes on is the page's to give.
theorem Plain.right_iff (h : Plain s) (hv : 256 ≤ (indices v).pml4) {R : Nat → Prop}
    (hR : ∀ x, Passes x → R x) :
    (∃ es, Vmm.cpu_walk s v = some es ∧ ∀ x ∈ es, R x) ↔
      ∃ e r, s.find (path v) = some (e, r) ∧ R e := by
  constructor
  · rintro ⟨es, hwalk, hall⟩
    obtain ⟨e, r, hfind⟩ := find_of_cpu_walk h.tree hwalk
    obtain ⟨pointers, hpointers, -⟩ := h.cpu_walk hv hfind
    obtain rfl : es = pointers ++ [e] := Option.some.inj (hwalk.symm.trans hpointers)
    exact ⟨e, r, hfind, hall e (by simp)⟩
  · rintro ⟨e, r, hfind, he⟩
    obtain ⟨pointers, hpointers, hpass⟩ := h.cpu_walk hv hfind
    refine ⟨_, hpointers, fun x hx => ?_⟩
    rcases List.mem_append.mp hx with hin | hin
    · exact hR x (hpass x hin)
    · rw [List.mem_singleton.mp hin]
      exact he

theorem Plain.writable_iff (h : Plain s) (hv : 256 ≤ (indices v).pml4) :
    CpuWritable s v ↔ ∃ e r, s.find (path v) = some (e, r) ∧ e &&& flags.WRITABLE ≠ 0 :=
  h.right_iff hv fun _ hx => hx.1

theorem Plain.executable_iff (h : Plain s) (hv : 256 ≤ (indices v).pml4) :
    CpuExecutable s v ↔ ∃ e r, s.find (path v) = some (e, r) ∧ e &&& flags.NO_EXECUTE = 0 :=
  h.right_iff hv fun _ hx => hx.2

theorem find_iff_translate (h : Tree s) {R : Nat → Prop} :
    (∃ e r, s.find (path v) = some (e, r) ∧ R e) ↔
      ∃ q e, translate s v = .ok (some (q, e)) ∧ R e := by
  rw [translate_eq h]
  constructor
  · rintro ⟨e, r, hfind, he⟩
    exact ⟨_, e, by rw [mapping_of_find hfind], he⟩
  · rintro ⟨q, e, hmap, he⟩
    obtain ⟨r, hfind, -⟩ := find_of_mapping (Except.ok.inj hmap)
    exact ⟨e, r, hfind, he⟩

end Walk

-- The addresses of the kernel half that hold code, and those that hold data.
def CodeAt (sym : Symbols) (v : Nat) : Prop :=
  sym.kernel_text_start ≤ v ∧ v < sym.kernel_rodata_start

def DataAt (sym : Symbols) (v : Nat) : Prop :=
  (sym.kernel_data_start ≤ v ∧ v < ALIGN sym.kernel_virt_end LARGE_PAGE_SIZE) ∨
    (HEAP_VIRT_START ≤ v ∧ v < HEAP_VIRT_START + HEAP_SIZE) ∨
    (KERNEL_VMA + VGA_PHYS ≤ v ∧ v < KERNEL_VMA + VGA_PHYS + PAGE_SIZE)

section Documented

variable {s : State}

-- The two rights as the permissions give them. Without NX everything may be executed.
theorem effective_writable {p : Nat} (hp : p % 4096 = 0) (perm : Perm) :
    (p ||| effective s perm) &&& flags.WRITABLE ≠ 0 ↔ perm.bits.testBit 1 = true := by
  have hkeep : (effective s perm).testBit 1 = perm.bits.testBit 1 := by
    unfold effective
    split
    · rfl
    · rw [WORD_eq]
      cases perm <;> rfl
  rw [writable_iff, Nat.testBit_or, page_testBit hp (by decide), hkeep, Bool.false_or]

theorem effective_executable {p : Nat} (hnx : s.nx_available = true) (hlt : p < BOOT_MAPPED_BYTES)
    (perm : Perm) :
    (p ||| effective s perm) &&& flags.NO_EXECUTE = 0 ↔ perm.bits.testBit 63 = false := by
  have hsmall : p < 2 ^ 63 := Nat.lt_trans (BOOT_MAPPED_BYTES_eq ▸ hlt) (by decide)
  rw [executable_iff, Nat.testBit_or, Nat.testBit_lt_two_pow hsmall, effective, if_pos hnx,
    Bool.false_or]

-- Which part of the documented map an address belongs to, with the entry of its page.
theorem documented_part (L : Layout) (s : State) (v : VirtAddr) :
    (documented L.symbols s v.as_u64 = none ∧ ¬DataAt L.symbols v.as_u64 ∧
        ¬CodeAt L.symbols v.as_u64) ∨
      ∃ q p perm, documented L.symbols s v.as_u64 = some (q, p / 4096 * 4096 ||| effective s perm) ∧
        p < BOOT_MAPPED_BYTES ∧ (perm.bits.testBit 1 = true ↔ DataAt L.symbols v.as_u64) ∧
        (perm.bits.testBit 63 = false ↔ CodeAt L.symbols v.as_u64) := by
  have b := sections L
  have hfirst := b.first
  have htext := Nat.le_trans b.text_end b.text_le
  have hrodata := Nat.le_trans b.rodata_end b.rodata_le
  have hheap : HEAP_VIRT_START + HEAP_SIZE ≤ KERNEL_VMA := by
    rw [HEAP_VIRT_START_eq, KERNEL_VMA_eq]
    decide
  have hvga : VGA_PHYS + PAGE_SIZE ≤ LARGE_PAGE_SIZE := by decide
  have hmapped := b.heap_mapped
  rw [b.heap_size] at hmapped
  have himage : v.as_u64 - KERNEL_VMA < BOOT_MAPPED_BYTES := by
    have hv := v.canonical
    unfold Canonical at hv
    rw [KERNEL_VMA_eq, BOOT_MAPPED_BYTES_eq]
    omega
  unfold DataAt CodeAt
  by_cases h1 : L.symbols.kernel_text_start ≤ v.as_u64 ∧ v.as_u64 < L.symbols.kernel_rodata_start
  · exact .inr ⟨_, v.as_u64 - KERNEL_VMA, .TextRoX, by rw [documented, if_pos h1], himage,
      iff_of_false (by decide) (by omega), iff_of_true (by decide) h1⟩
  by_cases h2 : L.symbols.kernel_rodata_start ≤ v.as_u64 ∧ v.as_u64 < L.symbols.kernel_data_start
  · exact .inr ⟨_, v.as_u64 - KERNEL_VMA, .RoData, by rw [documented, if_neg h1, if_pos h2], himage,
      iff_of_false (by decide) (by omega), iff_of_false (by decide) h1⟩
  by_cases h3 : L.symbols.kernel_data_start ≤ v.as_u64 ∧
      v.as_u64 < ALIGN L.symbols.kernel_virt_end LARGE_PAGE_SIZE
  · exact .inr ⟨_, v.as_u64 - KERNEL_VMA, .DataRwNx, documented_data b h3.1 h3.2, himage,
      iff_of_true (by decide) (.inl h3), iff_of_false (by decide) h1⟩
  by_cases h4 : HEAP_VIRT_START ≤ v.as_u64 ∧ v.as_u64 < HEAP_VIRT_START + HEAP_SIZE
  · exact .inr ⟨_, L.symbols.heap_phys_start + (v.as_u64 - HEAP_VIRT_START), .DataRwNx,
      documented_heap b h4.1 h4.2, by omega, iff_of_true (by decide) (.inr (.inl h4)), iff_of_false (by decide) h1⟩
  by_cases h5 : KERNEL_VMA + VGA_PHYS ≤ v.as_u64 ∧ v.as_u64 < KERNEL_VMA + VGA_PHYS + PAGE_SIZE
  · have hpage : VGA_PHYS ||| effective s .Device = VGA_PHYS / 4096 * 4096 ||| effective s .Device := rfl
    refine .inr ⟨VGA_PHYS + (v.as_u64 - (KERNEL_VMA + VGA_PHYS)), VGA_PHYS, .Device, ?_, by decide,
      iff_of_true (by decide) (.inr (.inr h5)), iff_of_false (by decide) h1⟩
    rw [documented, if_neg h1, if_neg h2, if_neg h3, if_neg h4, if_pos h5, hpage]
  · exact .inl ⟨by rw [documented, if_neg h1, if_neg h2, if_neg h3, if_neg h4, if_neg h5],
      by simp [h3, h4, h5], h1⟩

end Documented

-- The kernel half is the documented one, and the CPU sees it as `translate` does.
structure KernelHalf (L : Layout) (s : State) : Prop where
  plain : Plain s
  space : ∀ v : VirtAddr, 256 ≤ (indices v).pml4 → mapping s v = documented L.symbols s v.as_u64

section KernelHalf

variable {L : Layout} {s : State} {v : VirtAddr}

theorem KernelHalf.find_iff (h : KernelHalf L s) (hv : 256 ≤ (indices v).pml4) {R : Nat → Prop} :
    (∃ e r, s.find (path v) = some (e, r) ∧ R e) ↔
      ∃ q e, documented L.symbols s v.as_u64 = some (q, e) ∧ R e := by
  rw [find_iff_translate h.plain.tree, translate_eq h.plain.tree, h.space v hv]
  simp only [Except.ok.injEq]

theorem KernelHalf.writable_iff (h : KernelHalf L s) (hv : 256 ≤ (indices v).pml4) :
    CpuWritable s v ↔ DataAt L.symbols v.as_u64 := by
  rw [h.plain.writable_iff hv, h.find_iff hv]
  rcases documented_part L s v with ⟨hnone, hdata, -⟩ | ⟨q, p, perm, hsome, -, hdata, -⟩
  · simp [hnone, hdata]
  · rw [← hdata, ← effective_writable (s := s) (Nat.mul_mod_left (p / 4096) 4096), hsome]
    simp

theorem KernelHalf.executable_iff (h : KernelHalf L s) (hnx : s.nx_available = true)
    (hv : 256 ≤ (indices v).pml4) : CpuExecutable s v ↔ CodeAt L.symbols v.as_u64 := by
  rw [h.plain.executable_iff hv, h.find_iff hv]
  rcases documented_part L s v with ⟨hnone, -, hcode⟩ | ⟨q, p, perm, hsome, hlt, -, hcode⟩
  · simp [hnone, hcode]
  · rw [← hcode, ← effective_executable hnx (Nat.lt_of_le_of_lt (Nat.div_mul_le_self p 4096) hlt),
      hsome]
    simp

theorem init_kernelHalf {mem : Mem Nat Nat Nat} {supply : List Nat} {nx : Bool} {info : VmmInfo}
    (hfresh : Fresh L supply) (hinit : init (booted L mem supply nx) L.symbols = .ok (info, s)) :
    KernelHalf L s :=
  ⟨init_plain hfresh hinit, fun _ hv => init_kernel_half hfresh hinit hv⟩

theorem KernelHalf.hardening {bss : Nat} {entry : Nat → Nat} (h : KernelHalf L s)
    (low : Low bss entry s) : KernelHalf L (Vmm.hardening s bss (effective s .BootIdentity) 512) := by
  refine ⟨hardening_plain h.plain low (effective_present s _), fun v hv => ?_⟩
  rw [mapping, hardening_find h.plain.tree low (by omega), ← mapping, h.space v hv]
  rfl

-- The tables of the running kernel: those of `init`, hardened or not.
theorem running_kernelHalf {mem : Mem Nat Nat Nat} {supply : List Nat} {nx : Bool} {info : VmmInfo}
    {s₀ : State} {n : Nat} (hfresh : Fresh L supply)
    (hinit : init (booted L mem supply nx) L.symbols = .ok (info, s₀))
    (h : s = s₀ ∨ harden_boot_map s₀ = .ok (n, s)) : KernelHalf L s := by
  rcases h with rfl | hharden
  · exact init_kernelHalf hfresh hinit
  · obtain ⟨htree, hcr3, hlow, -⟩ := init_low hfresh hinit
    rw [harden_boot_map_eq htree hlow hcr3] at hharden
    cases hharden
    exact (init_kernelHalf hfresh hinit).hardening hlow

end KernelHalf

-- What the CPU lets the kernel do in its half, with NX. On the hardened tables it executes
-- the code and writes the data, the heap and the screen, and nothing else; after any further
-- mappings its rights are those of the entry that `translate` reports, so no table above a
-- page takes one of them away.
theorem cpu_rights (L : Layout) (mem : Mem Nat Nat Nat) (supply : List Nat) (hfresh : Fresh L supply)
    (info : VmmInfo) (s₀ : State)
    (hinit : init (booted L mem supply true) L.symbols = .ok (info, s₀)) :
    ∃ n s₁, harden_boot_map s₀ = .ok (n, s₁) ∧
      (∀ v : VirtAddr, 256 ≤ (indices v).pml4 →
        (CpuWritable s₁ v ↔ DataAt L.symbols v.as_u64) ∧
        (CpuExecutable s₁ v ↔ CodeAt L.symbols v.as_u64)) ∧
      ∀ (history : List (Theory.Event State Call Unit)) (s : State),
        Run KernelPages Call.run s₁ history s → ∀ v : VirtAddr, 256 ≤ (indices v).pml4 →
          (CpuWritable s v ↔
            ∃ q e, translate s v = .ok (some (q, e)) ∧ e &&& flags.WRITABLE ≠ 0) ∧
          (CpuExecutable s v ↔
            ∃ q e, translate s v = .ok (some (q, e)) ∧ e &&& flags.NO_EXECUTE = 0) := by
  obtain ⟨htree, hcr3, hlow, -⟩ := init_low hfresh hinit
  obtain ⟨_, _, -, -, hbuilt⟩ := init_built hfresh hinit
  have hhalf := (init_kernelHalf hfresh hinit).hardening hlow
  refine ⟨_, _, harden_boot_map_eq htree hlow hcr3, fun v hv => ?_, fun history s hrun v hv => ?_⟩
  · exact ⟨hhalf.writable_iff hv, hhalf.executable_iff hbuilt.nx hv⟩
  · have hplain : Plain s := by
      refine hrun.invariant Plain hhalf.plain ?_
      intro t call u t' ht hlegal hok
      cases call with
      | map_4k va pa size perm => exact ht.map_4k hlegal (run_map_4k.mp hok)
      | map_2m va pa size perm => exact hlegal.elim
    rw [hplain.writable_iff hv, hplain.executable_iff hv, find_iff_translate hplain.tree,
      find_iff_translate hplain.tree]
    exact ⟨.rfl, .rfl⟩

-- The first page of the heap on the small image.
theorem cpu_rights_small :
    ∃ info s₀ n s₁, init small_boot small_layout.symbols = .ok (info, s₀) ∧
      harden_boot_map s₀ = .ok (n, s₁) ∧ CpuWritable s₁ heap_page ∧ ¬CpuExecutable s₁ heap_page := by
  obtain ⟨info, s₀, hinit⟩ := small_returns
  obtain ⟨n, s₁, hharden, hrights, -⟩ := cpu_rights _ _ _ small_fresh info s₀ hinit
  obtain ⟨hw, hx⟩ := hrights heap_page (by decide)
  have hstart : heap_page.as_u64 = HEAP_VIRT_START := HEAP_VIRT_START_eq.symm
  have hsize : 0 < HEAP_SIZE := by decide
  refine ⟨info, s₀, n, s₁, hinit, hharden, hw.mpr (.inr (.inl (by omega))), fun hcode => ?_⟩
  have hlow := Nat.le_trans (sections small_layout).text.low (hx.mp hcode).1
  rw [KERNEL_VMA_eq] at hlow
  exact absurd hlow (by decide)

end Orin.Memory.Vmm
