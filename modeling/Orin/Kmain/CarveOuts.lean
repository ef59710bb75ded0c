import Orin.Kmain.BootMemory
import Orin.Memory.Pmm.Theorems
import Orin.Multiboot.Encode
import Orin.Multiboot.Lemmas

namespace Orin.Kmain

open Rust Multiboot Memory Memory.Pmm Theory

variable {p : State} {ranges : List (Nat × Nat)} {boot : BootInfo} {params : Arch.BootParams}

-- Before any allocation: the free frames are the usable ones clear of the ranges.
def Carved (boot : BootInfo) (ranges : List (Nat × Nat)) (p : State) : Prop :=
  ∃ L, Books ⟨p, 0⟩ L ∧
    (∀ f, f ∈ L.free ↔
      (∃ e ∈ boot.mmap.as_slice, f ∈ usable e) ∧ ∀ r ∈ ranges, ¬ SharesByte f r.1 r.2) ∧
    p.inner.bad_frames = (boot.mmap.as_slice.map bad).sum

theorem carved_init (memory : Nat → Bitmap.Word) (boot : BootInfo) :
    Ends (Carved boot [])
      (fun e => e = .addOverflow ∧ WORD ≤ (boot.mmap.as_slice.map unmapped).sum)
      (State.init ⟨PmmInner.new, 0, memory⟩ boot) := by
  have h := boot_spec memory boot
  unfold System.boot at h
  cases hr : State.init ⟨PmmInner.new, 0, memory⟩ boot with
  | error e =>
      rw [hr] at h
      exact h
  | ok p =>
      rw [hr] at h
      refine ⟨_, h.1, fun f => ?_, h.2.1.bad_frames⟩
      simpa [Ledger.ofFree] using h.2.1.bitmap f

theorem Carved.reserve_range (h : Carved boot ranges p) (start stop : Nat) :
    Ends (Carved boot (ranges ++ [(start, stop)]))
      (fun e => e = .addOverflow ∧ start < stop ∧ WORD ≤ stop + FRAME_SIZE)
      (p.reserve_range start stop) := by
  obtain ⟨L, hb, hfree, hbad⟩ := h
  refine (reserve_range_spec start stop hb.counted hb.counters_lt).bind fun inner hr => ?_
  refine ⟨_, hb.reserved hr, fun f => ?_, hr.record.bad_frames.trans hbad⟩
  have hlt : f ∈ L.free → f < MAX_FRAMES := fun hf => hb.managed f (by simp [Ledger.all, hf])
  rw [Ledger.withdraw, Finset.mem_sdiff, mem_touched]
  simp only [List.mem_append, List.mem_singleton, or_imp, forall_and, forall_eq, ← and_assoc,
    ← hfree]
  tauto

-- What each part of `reserve_boot_memory` takes out of circulation.
def image_range (params : Arch.BootParams) : Nat × Nat :=
  (params.kernel_phys_start.toNat, params.kernel_phys_end.toNat)

def info_ranges (boot : BootInfo) : List (Nat × Nat) :=
  if boot.phys_addr ≠ 0 then
    [(boot.phys_addr.toNat, boot.phys_addr.toNat + boot.total_size.toNat)]
  else []

-- A framebuffer that is drawn to rather than written as text.
def Graphic (fb : FramebufferInfo) : Prop := fb.fb_type ≠ fbtype.EGA_TEXT ∧ 0 < fb.size

instance (fb : FramebufferInfo) : Decidable (Graphic fb) := inferInstanceAs (Decidable (_ ∧ _))

def framebuffer_ranges (boot : BootInfo) : List (Nat × Nat) :=
  match boot.framebuffer with
  | none => []
  | some fb =>
      if Graphic fb then [(fb.address.toNat, fb.address.toNat + fb.size.toNat)] else []

def rsdp_ranges (boot : BootInfo) : List (Nat × Nat) :=
  match boot.acpi_rsdp with
  | none => []
  | some rsdp => [((rsdp &&& ~~~0xFFF).toNat, (rsdp &&& ~~~0xFFF).toNat + 4096)]

def limit_ranges (boot : BootInfo) : List (Nat × Nat) :=
  match mem_limit_from boot with
  | none => []
  | some mib => [(mib.toNat * 1024 * 1024, Arch.BOOT_MAPPED_BYTES)]

def ImageStop (params : Arch.BootParams) (e : Panic) : Prop :=
  (e = .addOverflow ∧ WORD ≤ params.kernel_phys_end.toNat + FRAME_SIZE) ∨
  (e = .subOverflow ∧ params.kernel_phys_end < params.kernel_phys_start) ∨
  ¬ (params.kernel_phys_start ≤ params.boot_bss_phys_start ∧
    params.boot_bss_phys_end ≤ params.kernel_phys_end)

theorem Carved.image (h : Carved boot ranges p) (params : Arch.BootParams) :
    Ends (Carved boot (ranges ++ [image_range params])) (ImageStop params)
      (reserve_image params p) := by
  unfold reserve_image
  refine Ends.bind ((h.reserve_range _ _).mono (fun _ => id) fun e he => .inl ⟨he.1, he.2.2⟩)
    fun p' hp' => ?_
  refine Ends.bind (P := fun _ => True) (ends_sub (fun _ => trivial) fun hlt => ?_) fun _ _ => ?_
  · exact .inr (.inl ⟨rfl, hlt⟩)
  refine Ends.bind (P := fun _ => True) ?_ fun _ _ => hp'
  unfold assert
  split
  · trivial
  · rename_i hcond
    refine .inr (.inr fun hin => hcond (decide_eq_true hin))

theorem Carved.info (h : Carved boot ranges p) :
    Ends (Carved boot (ranges ++ info_ranges boot))
      (fun e => e = .addOverflow ∧
        WORD ≤ boot.phys_addr.toNat + boot.total_size.toNat + FRAME_SIZE)
      (reserve_info boot p) := by
  unfold reserve_info info_ranges
  split
  · refine Ends.bind (P := fun stop => stop = boot.phys_addr.toNat + boot.total_size.toNat)
      (ends_add (fun _ => rfl) fun hover => ⟨rfl, Nat.le_trans hover (Nat.le_add_right _ _)⟩) ?_
    rintro stop rfl
    exact (h.reserve_range _ _).mono (fun _ => id) fun e he => ⟨he.1, he.2.2⟩
  · rw [List.append_nil]
    exact h

-- The framebuffer's end, rounded up, fits in an address.
def FramebufferFits (boot : BootInfo) : Prop :=
  ∀ fb, boot.framebuffer = some fb → Graphic fb →
    fb.address.toNat + fb.size.toNat + FRAME_SIZE < WORD

theorem Carved.framebuffer (h : Carved boot ranges p) :
    Ends (fun p' => Carved boot (ranges ++ framebuffer_ranges boot) p' ∧ FramebufferFits boot)
      (fun e => e = .addOverflow ∧ ¬ FramebufferFits boot) (reserve_framebuffer boot p) := by
  unfold reserve_framebuffer framebuffer_ranges FramebufferFits
  cases hfb : boot.framebuffer with
  | none =>
      simp only [List.append_nil]
      exact ⟨h, fun fb hfb => by cases hfb⟩
  | some fb =>
      simp only [Option.some.injEq, forall_eq']
      by_cases hg : Graphic fb
      · have hpos : 0 < fb.size.toNat := hg.2
        simp only [hg, if_true, true_imp_iff]
        rw [if_pos (show fb.fb_type ≠ fbtype.EGA_TEXT ∧ 0 < fb.size from hg)]
        refine Ends.bind (P := fun stop => stop = fb.address.toNat + fb.size.toNat)
          (ends_add (fun _ => rfl) fun hover => ⟨rfl, by omega⟩) ?_
        rintro stop rfl
        have hspec := h.reserve_range fb.address.toNat (fb.address.toNat + fb.size.toNat)
        cases hr : p.reserve_range fb.address.toNat (fb.address.toNat + fb.size.toNat) with
        | error e =>
            have he := hspec.of_eq_error hr
            exact ⟨he.1, Nat.not_lt.mpr he.2.2⟩
        | ok p' =>
            obtain ⟨inner, hinner, -⟩ := bind_eq_ok.mp hr
            exact ⟨hspec.of_eq_ok hr, reserve_range_fits hinner (by omega)⟩
      · simp only [hg, if_false, List.append_nil, false_imp_iff]
        rw [if_neg (show ¬ (fb.fb_type ≠ fbtype.EGA_TEXT ∧ 0 < fb.size) from hg)]
        exact ⟨h, trivial⟩

theorem and_not_page_le (rsdp : UInt64) : (rsdp &&& ~~~0xFFF).toNat ≤ rsdp.toNat := by
  rw [UInt64.toNat_and]
  exact Nat.and_le_left

theorem Carved.rsdp (h : Carved boot ranges p) :
    Ends (Carved boot (ranges ++ rsdp_ranges boot))
      (fun e => e = .addOverflow ∧ ∃ rsdp, boot.acpi_rsdp = some rsdp ∧
        WORD ≤ rsdp.toNat + 4096 + FRAME_SIZE)
      (reserve_rsdp boot p) := by
  unfold reserve_rsdp rsdp_ranges
  cases hrsdp : boot.acpi_rsdp with
  | none =>
      simp only [List.append_nil]
      exact h
  | some rsdp =>
      have hle := and_not_page_le rsdp
      simp only [Option.some.injEq, exists_eq_left']
      refine Ends.bind (P := fun stop => stop = (rsdp &&& ~~~0xFFF).toNat + 4096)
        (ends_add (fun _ => rfl) fun hover => ⟨rfl, by omega⟩) ?_
      rintro stop rfl
      exact (h.reserve_range _ _).mono (fun _ => id) fun e he => ⟨he.1, by omega⟩

-- The limit in bytes fits in an address.
def LimitFits (boot : BootInfo) : Prop :=
  ∀ mib, mem_limit_from boot = some mib → mib.toNat * 1024 * 1024 < WORD

theorem Carved.above_limit (h : Carved boot ranges p) :
    Ends (fun p' => Carved boot (ranges ++ limit_ranges boot) p' ∧ LimitFits boot)
      (fun e => e = .mulOverflow ∧ ¬ LimitFits boot) (reserve_above_limit boot p) := by
  unfold reserve_above_limit limit_ranges LimitFits
  cases hlimit : mem_limit_from boot with
  | none =>
      simp only [List.append_nil]
      exact ⟨h, fun mib hmib => by cases hmib⟩
  | some mib =>
      simp only [Option.some.injEq, forall_eq']
      refine Ends.bind (P := fun kib => kib = mib.toNat * 1024)
        (ends_mul (fun _ => rfl) fun hover => ⟨rfl, by omega⟩) ?_
      rintro kib rfl
      refine Ends.bind (P := fun x => x = mib.toNat * 1024 * 1024 ∧ x < WORD)
        (ends_mul (fun hw => ⟨rfl, hw⟩) fun hover => ⟨rfl, by omega⟩) ?_
      rintro limit ⟨rfl, hfit⟩
      refine (h.reserve_range _ _).mono (fun p' hp' => ⟨hp', hfit⟩) fun e he => ?_
      have hover := he.2.2
      rw [Arch.BOOT_MAPPED_BYTES_eq, WORD_eq] at hover
      simp [FRAME_SIZE] at hover

def fixed_ranges : List (Nat × Nat) :=
  [(0x0, 0x1000), (0x9FC00, 0xA0000), (0xA0000, 0xC0000), (0xC0000, 0x100000)]

def boot_ranges (params : Arch.BootParams) (boot : BootInfo) : List (Nat × Nat) :=
  fixed_ranges ++ [image_range params] ++ info_ranges boot ++ framebuffer_ranges boot ++
    rsdp_ranges boot ++ limit_ranges boot

-- The stops of `reserve_boot_memory`, one line for each part that can stop.
def ReserveStop (params : Arch.BootParams) (boot : BootInfo) (e : Panic) : Prop :=
  ImageStop params e ∨
  (e = .addOverflow ∧ WORD ≤ boot.phys_addr.toNat + boot.total_size.toNat + FRAME_SIZE) ∨
  (e = .addOverflow ∧ ¬ FramebufferFits boot) ∨
  (e = .addOverflow ∧ ∃ rsdp, boot.acpi_rsdp = some rsdp ∧
    WORD ≤ rsdp.toNat + 4096 + FRAME_SIZE) ∨
  (e = .mulOverflow ∧ ¬ LimitFits boot)

theorem Carved.fixed (h : Carved boot ranges p) {S : Panic → Prop} (start stop : Nat)
    (hstop : stop ≤ 0x100000) :
    Ends (Carved boot (ranges ++ [(start, stop)])) S (p.reserve_range start stop) := by
  refine (h.reserve_range start stop).mono (fun _ => id) fun e he => ?_
  have hover := he.2.2
  rw [WORD_eq] at hover
  simp only [FRAME_SIZE] at hover
  omega

theorem reserve_boot_memory_spec (h : Carved boot [] p) (params : Arch.BootParams) :
    Ends (fun p' => Carved boot (boot_ranges params boot) p' ∧ FramebufferFits boot ∧
        LimitFits boot)
      (ReserveStop params boot) (reserve_boot_memory params boot p) := by
  unfold reserve_boot_memory
  refine (h.fixed 0x0 0x1000 (by decide)).bind fun p h => ?_
  refine (h.fixed 0x9FC00 0xA0000 (by decide)).bind fun p h => ?_
  refine (h.fixed 0xA0000 0xC0000 (by decide)).bind fun p h => ?_
  refine (h.fixed 0xC0000 0x100000 (by decide)).bind fun p h => ?_
  refine ((h.image params).mono (fun _ => id) fun _ => .inl).bind fun p h => ?_
  refine (h.info.mono (fun _ => id) fun _ he => .inr (.inl he)).bind fun p h => ?_
  refine (h.framebuffer.mono (fun _ => id) fun _ he => .inr (.inr (.inl he))).bind fun p h => ?_
  obtain ⟨h, hfb⟩ := h
  refine (h.rsdp.mono (fun _ => id) fun _ he => .inr (.inr (.inr (.inl he)))).bind fun p h => ?_
  exact h.above_limit.mono (fun p h => ⟨h.1, hfb, h.2⟩) fun _ he => .inr (.inr (.inr (.inr he)))

-- What the linker script guarantees of the addresses it puts in the parameter block.
structure Linked (params : Arch.BootParams) : Prop where
  image_le : params.kernel_phys_start ≤ params.kernel_phys_end
  image_fits : params.kernel_phys_end.toNat + FRAME_SIZE < WORD
  bss_start : params.kernel_phys_start ≤ params.boot_bss_phys_start
  bss_end : params.boot_bss_phys_end ≤ params.kernel_phys_end

-- With a located structure and a linked image only the framebuffer and the memory
-- limit are left to stop the reservations.
theorem ReserveStop.of_located {e : Panic} (hloc : Located boot) (hlink : Linked params)
    (h : ReserveStop params boot e) :
    (e = .addOverflow ∧ ¬ FramebufferFits boot) ∨ (e = .mulOverflow ∧ ¬ LimitFits boot) := by
  have hphys := hloc.phys_lt
  have htotal := boot.total_size.toNat_lt
  rw [Arch.BOOT_MAPPED_BYTES_eq] at hphys
  rcases h with (⟨-, hover⟩ | ⟨-, hlt⟩ | hout) | ⟨-, hover⟩ | hfb | ⟨-, rsdp, hrsdp, hover⟩ | hlimit
  · exact absurd hlink.image_fits (Nat.not_lt.mpr hover)
  · exact absurd hlink.image_le (UInt64.not_le.mpr hlt)
  · exact absurd ⟨hlink.bss_start, hlink.bss_end⟩ hout
  · rw [WORD_eq] at hover
    simp only [FRAME_SIZE] at hover
    omega
  · exact .inl hfb
  · have hin := (hloc.rsdp rsdp hrsdp).2
    rw [WORD_eq] at hover
    simp only [FRAME_SIZE] at hover
    omega
  · exact .inr hlimit

-- Once boot has carved its ranges out, no later run brings a frame of them back.
theorem Carved.handed {s : System} {history : List Call} {debug : Bool}
    (h : Carved boot ranges p) (hrun : Run System.Legal (System.step debug) ⟨p, 0⟩ history s)
    {e : Call} (he : e ∈ history) {f : Nat} (hf : f ∈ handed e.op e.answer) :
    f < MAX_FRAMES ∧ ∀ r ∈ ranges, ¬ SharesByte f r.1 r.2 := by
  obtain ⟨L, hb, hfree, -⟩ := h
  have hnone : L.owned = ∅ := Finset.val_eq_zero.mp hb.owned.symm
  obtain ⟨past, future, rfl⟩ := List.append_of_mem he
  obtain ⟨after, hpast, hlegal, hs, -⟩ := hrun.at_event
  obtain ⟨L', hb', hsub⟩ : ∃ L', Books e.before L' ∧ L'.free ∪ L'.owned ⊆ L.free := by
    refine hpast.invariant (fun s => ∃ L', Books s L' ∧ L'.free ∪ L'.owned ⊆ L.free)
      ⟨L, hb, by simp [hnone]⟩ ?_
    rintro s op answer s' ⟨L', hb', hsub⟩ hl hs
    obtain ⟨L'', hmoved, hb''⟩ := (hb'.step debug hl).of_eq_ok hs
    exact ⟨L'', hb'', hmoved.move.circulating_subset.trans hsub⟩
  obtain ⟨L'', hmoved, -⟩ := (hb'.step debug hlegal).of_eq_ok hs
  have hfree' : f ∈ L'.free := hmoved.handed_subset hf
  have hmem : f ∈ L.free := hsub (Finset.mem_union_left _ hfree')
  exact ⟨hb.managed f (by simp [Ledger.all, hmem]), ((hfree f).mp hmem).2⟩

theorem not_sharesByte_of_subrange {f start stop start' stop' : Nat}
    (h : ¬ SharesByte f start stop) (hstart : start ≤ start') (hstop : stop' ≤ stop) :
    ¬ SharesByte f start' stop' := by
  rintro ⟨b, h1, h2, h3, h4⟩
  exact h ⟨b, Nat.le_trans hstart h1, Nat.lt_of_lt_of_le h2 hstop, h3, h4⟩

-- The three adjoining low ranges are one.
theorem not_sharesByte_low {f : Nat} (h1 : ¬ SharesByte f 0x9FC00 0xA0000)
    (h2 : ¬ SharesByte f 0xA0000 0xC0000) (h3 : ¬ SharesByte f 0xC0000 0x100000) :
    ¬ SharesByte f 0x9FC00 0x100000 := by
  rintro ⟨b, hb, hb', h⟩
  by_cases ha : b < 0xA0000
  · exact h1 ⟨b, hb, ha, h⟩
  by_cases hc : b < 0xC0000
  · exact h2 ⟨b, Nat.le_of_not_lt ha, hc, h⟩
  · exact h3 ⟨b, Nat.le_of_not_lt hc, hb', h⟩

theorem below_limit {f limit : Nat} (hf : f < MAX_FRAMES)
    (h : ¬ SharesByte f limit Arch.BOOT_MAPPED_BYTES) : (f + 1) * FRAME_SIZE ≤ limit := by
  rw [sharesByte_iff, Arch.BOOT_MAPPED_BYTES_eq] at h
  rw [MAX_FRAMES_val] at hf
  simp only [FRAME_SIZE] at h ⊢
  omega

-- Memory the kernel, the firmware or the boot loader still uses is never handed out.
theorem carve_outs_kept (debug : Bool) (bytes : Nat → UInt8) (phys : Nat)
    (memory : Nat → Bitmap.Word) (params : Arch.BootParams) (boot : BootInfo) (p₀ p : State)
    (history : List Call) (s : System) (hread : read_from bytes phys = .ok boot)
    (hinit : State.init ⟨PmmInner.new, 0, memory⟩ boot = .ok p₀)
    (hreserve : reserve_boot_memory params boot p₀ = .ok p)
    (hrun : Run System.Legal (System.step debug) ⟨p, 0⟩ history s) :
    ∀ e ∈ history, ∀ f ∈ handed e.op e.answer,
      ¬ SharesByte f 0x0 0x1000 ∧ ¬ SharesByte f 0x9FC00 0x100000 ∧
      ¬ SharesByte f params.kernel_phys_start.toNat params.kernel_phys_end.toNat ∧
      ¬ SharesByte f boot.phys_addr.toNat (boot.phys_addr.toNat + boot.total_size.toNat) ∧
      (∀ fb, boot.framebuffer = some fb → fb.fb_type ≠ fbtype.EGA_TEXT → 0 < fb.size →
        ¬ SharesByte f fb.address.toNat (fb.address.toNat + fb.size.toNat)) ∧
      (∀ rsdp, boot.acpi_rsdp = some rsdp →
        boot.phys_addr.toNat ≤ rsdp.toNat ∧
        rsdp.toNat + rsdp_len boot ≤ boot.phys_addr.toNat + boot.total_size.toNat ∧
        ¬ SharesByte f rsdp.toNat (rsdp.toNat + rsdp_len boot)) ∧
      (∀ mib, mem_limit_from boot = some mib →
        (f + 1) * FRAME_SIZE ≤ mib.toNat * 1024 * 1024) := by
  intro e he f hf
  have hloc := read_from_located hread
  have hcarved := (carved_init memory boot).of_eq_ok hinit
  have hboot := ((reserve_boot_memory_spec hcarved params).of_eq_ok hreserve).1
  obtain ⟨hlt, hclear⟩ := hboot.handed hrun he hf
  have hmem : ∀ start stop, (start, stop) ∈ boot_ranges params boot → ¬ SharesByte f start stop :=
    fun start stop hr => hclear (start, stop) hr
  have hinfo : ¬ SharesByte f boot.phys_addr.toNat
      (boot.phys_addr.toNat + boot.total_size.toNat) := by
    have hne : boot.phys_addr ≠ 0 := by
      intro hzero
      have := hloc.phys_pos
      rw [hzero] at this
      exact absurd this (by decide)
    exact hmem _ _ (by simp [boot_ranges, info_ranges, hne])
  refine ⟨hmem _ _ (by simp [boot_ranges, fixed_ranges]), ?_, ?_, hinfo, ?_, ?_, ?_⟩
  · exact not_sharesByte_low (hmem _ _ (by simp [boot_ranges, fixed_ranges]))
      (hmem _ _ (by simp [boot_ranges, fixed_ranges]))
      (hmem _ _ (by simp [boot_ranges, fixed_ranges]))
  · exact hmem _ _ (by simp [boot_ranges, image_range])
  · intro fb hfb htype hsize
    have hg : Graphic fb := ⟨htype, hsize⟩
    exact hmem _ _ (by simp [boot_ranges, framebuffer_ranges, hfb, hg])
  · intro rsdp hrsdp
    obtain ⟨h1, h2⟩ := hloc.rsdp rsdp hrsdp
    exact ⟨h1, h2, not_sharesByte_of_subrange hinfo h1 h2⟩
  · intro mib hmib
    exact below_limit hlt (hmem _ _ (by simp [boot_ranges, limit_ranges, hmib]))

-- An image at 1 MiB, and a structure that describes RAM under the image and one page past it.
def image : Arch.BootParams where
  kernel_phys_start := 0x100000
  kernel_phys_end := 0x180000
  boot_bss_phys_start := 0x110000
  boot_bss_phys_end := 0x120000
  heap_phys_start := 0x140000
  heap_phys_end := 0x180000

theorem image_linked : Linked image :=
  ⟨by decide, by rw [WORD_eq]; decide, by decide, by decide⟩

def plain : List UInt8 :=
  encode [(tag.MMAP, mmap_body [⟨0x100000, 0x81000, memtype.AVAILABLE⟩])]

theorem ok_of_toOption_map {ε α β : Type} {x : Except ε α} {g : α → β} {b : β}
    (h : x.toOption.map g = some b) : ∃ a, x = .ok a ∧ g a = b := by
  cases x with
  | error e => simp [Except.toOption] at h
  | ok a => exact ⟨a, rfl, by simpa [Except.toOption] using h⟩

-- The fields of a parsed structure that the boot arithmetic reads.
def sizes (info : BootInfo) :
    List MmapEntry × Option FramebufferInfo × Option UInt64 × Option UInt64 :=
  (info.mmap.as_slice, info.framebuffer, info.acpi_rsdp, mem_limit_from info)

-- Memory with the structure at an address.
def loaded (bytes : List UInt8) (phys address : Nat) : UInt8 := (bytes[address - phys]?).getD 0

theorem read_plain : ∃ boot, read_from (loaded plain 0x10000) 0x10000 = .ok boot ∧
    sizes boot = ([⟨0x100000, 0x81000, memtype.AVAILABLE⟩], none, none, none) ∧
    boot.phys_addr = 0x10000 ∧ boot.total_size = 56 := by
  have hread : ∃ boot, read_from (loaded plain 0x10000) 0x10000 = .ok boot ∧
      decide (sizes boot = ([⟨0x100000, 0x81000, memtype.AVAILABLE⟩], none, none, none) ∧
        boot.phys_addr = 0x10000 ∧ boot.total_size = 56) = true :=
    ok_of_toOption_map (by decide +kernel)
  obtain ⟨boot, hread, hfields⟩ := hread
  exact ⟨boot, hread, of_decide_eq_true hfields⟩

theorem carve_outs_kept_plain :
    ∃ boot p₀ p e s, read_from (loaded plain 0x10000) 0x10000 = .ok boot ∧
      State.init ⟨PmmInner.new, 0, fun _ => 0⟩ boot = .ok p₀ ∧
      reserve_boot_memory image boot p₀ = .ok p ∧
      (∀ f, System.free ⟨p₀, 0⟩ f ↔ 0x100 ≤ f ∧ f < 0x181) ∧
      Run System.Legal (System.step true) ⟨p, 0⟩ [e] s ∧ e.answer = some (.ofIndex 0x180) ∧
      ∀ f ∈ handed e.op e.answer, ¬ SharesByte f 0x100000 0x180000 := by
  obtain ⟨boot, hread, hsizes, hphys, htotal⟩ := read_plain
  have hmap : boot.mmap.as_slice = [⟨0x100000, 0x81000, memtype.AVAILABLE⟩] :=
    congrArg (fun x => x.1) hsizes
  have hfb : boot.framebuffer = none := congrArg (fun x => x.2.1) hsizes
  have hrsdp : boot.acpi_rsdp = none := congrArg (fun x => x.2.2.1) hsizes
  have hlimit : mem_limit_from boot = none := congrArg (fun x => x.2.2.2) hsizes
  have hinit := carved_init (fun _ => 0) boot
  cases hp₀ : State.init ⟨PmmInner.new, 0, fun _ => 0⟩ boot with
  | error e =>
      have hover := (hinit.of_eq_error hp₀).2
      rw [hmap, WORD_eq] at hover
      exact absurd hover (by decide +kernel)
  | ok p₀ =>
      have hpages : ∀ f, f ∈ usable ⟨0x100000, 0x81000, memtype.AVAILABLE⟩ ↔
          0x100 ≤ f ∧ f < 0x181 :=
        fun f => mem_usable_pages (k := 0x100) (n := 0x81) rfl rfl rfl (by decide)
      obtain ⟨L₀, hb₀, hfree₀, -⟩ := hinit.of_eq_ok hp₀
      have hbefore : ∀ f, System.free ⟨p₀, 0⟩ f ↔ 0x100 ≤ f ∧ f < 0x181 := by
        intro f
        rw [hb₀.free_iff, hfree₀, hmap]
        simp [hpages]
      have hreserve := reserve_boot_memory_spec (hinit.of_eq_ok hp₀) image
      cases hp : reserve_boot_memory image boot p₀ with
      | error e =>
          rcases (hreserve.of_eq_error hp).of_located (read_from_located hread) image_linked with
            ⟨-, h⟩ | ⟨-, h⟩
          · exact absurd (by simp [FramebufferFits, hfb]) h
          · exact absurd (by simp [LimitFits, hlimit]) h
      | ok p =>
          obtain ⟨L, hb, hfree, -⟩ := (hreserve.of_eq_ok hp).1
          have hranges : boot_ranges image boot = fixed_ranges ++ [(0x100000, 0x180000),
              (0x10000, 0x10038)] := by
            simp only [boot_ranges, info_ranges, framebuffer_ranges, rsdp_ranges, limit_ranges,
              hfb, hrsdp, hlimit, hphys, htotal]
            rfl
          have hone : L.free = {0x180} := by
            ext f
            rw [hfree, hmap, hranges, Finset.mem_singleton]
            simp only [exists_eq_left, hpages, fixed_ranges, List.mem_append,
              List.mem_cons, List.not_mem_nil, or_false, or_imp, forall_and, forall_eq,
              sharesByte_iff, FRAME_SIZE]
            omega
          obtain ⟨s, L', hs, -⟩ := hb.allocate_only_frame true hone
          have halloc : System.Legal ⟨p, 0⟩ .allocate_frame := trivial
          have hrun := Run.nil.snoc halloc hs
          refine ⟨boot, p₀, p, _, s, hread, hp₀, hp, hbefore, hrun, rfl, fun f hf => ?_⟩
          exact (carve_outs_kept true _ _ _ image boot p₀ p _ s hread hp₀ hp hrun _
            (List.mem_singleton.mpr rfl) f hf).2.2.1

end Orin.Kmain
