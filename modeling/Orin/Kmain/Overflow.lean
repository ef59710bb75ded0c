import Orin.Kmain.CarveOuts

namespace Orin.Kmain

open Rust Multiboot Memory Memory.Pmm

variable {boot : BootInfo} {params : Arch.BootParams} {p : State}

section Sums

theorem unmapped_le (e : MmapEntry) : unmapped e ≤ e.length.toNat := by
  unfold unmapped saturating_add
  split
  · split <;> omega
  · exact Nat.zero_le _

theorem sum_unmapped_le (entries : List MmapEntry) :
    (entries.map unmapped).sum ≤ (entries.map fun e => e.length.toNat).sum := by
  induction entries with
  | nil => exact Nat.le_refl _
  | cons e rest ih =>
      have := unmapped_le e
      simp only [List.map_cons, List.sum_cons]
      omega

theorem sum_lengths_spec (entries : List MmapEntry) :
    Ends (fun total => total = (entries.map fun e => e.length.toNat).sum ∧ total < WORD)
      (fun e => e = .addOverflow ∧ WORD ≤ (entries.map fun e => e.length.toNat).sum)
      (sum_lengths entries) := by
  refine ends_foldlM
    (fun seen total => total = (seen.map fun e => e.length.toNat).sum ∧ total < WORD) entries 0
    ⟨rfl, by rw [WORD_eq]; decide⟩ fun seen e total hseen htotal => ?_
  obtain ⟨rfl, -⟩ := htotal
  have hsnoc : ((seen ++ [e]).map fun e => e.length.toNat).sum =
      (seen.map fun e => e.length.toNat).sum + e.length.toNat := by simp
  refine ends_add (fun hlt => ⟨hsnoc.symm, hlt⟩) fun hover => ⟨rfl, ?_⟩
  obtain ⟨rest, rfl⟩ := hseen
  rw [List.map_append, List.sum_append, hsnoc]
  omega

end Sums

-- The sizes the boot code can add up and scale.
structure BootFits (boot : BootInfo) : Prop where
  lengths : (boot.mmap.as_slice.map fun e => e.length.toNat).sum < WORD
  framebuffer : ∀ fb, boot.framebuffer = some fb → fb.address.toNat + fb.size.toNat < WORD
  framebuffer_end : FramebufferFits boot
  limit : LimitFits boot

-- Which check fails first when they do not fit.
def BootStop (boot : BootInfo) (e : Panic) : Prop :=
  (e = .mulOverflow ∧ ¬ LimitFits boot) ∨ (e = .addOverflow ∧
    (WORD ≤ (boot.mmap.as_slice.map fun e => e.length.toNat).sum ∨ ¬ FramebufferFits boot ∨
      ∃ fb, boot.framebuffer = some fb ∧ WORD ≤ fb.address.toNat + fb.size.toNat))

theorem BootStop.not_fits {e : Panic} (h : BootStop boot e) : ¬ BootFits boot := by
  intro hfits
  rcases h with ⟨-, h⟩ | ⟨-, h | h | ⟨fb, hfb, h⟩⟩
  · exact h hfits.limit
  · exact absurd hfits.lengths (Nat.not_lt.mpr h)
  · exact h hfits.framebuffer_end
  · exact absurd (hfits.framebuffer fb hfb) (Nat.not_lt.mpr h)

theorem report_memory_spec {ranges : List (Nat × Nat)} (h : Carved boot ranges p) :
    Ends (fun _ => (boot.mmap.as_slice.map fun e => e.length.toNat).sum < WORD)
      (fun e => e = .addOverflow ∧
        WORD ≤ (boot.mmap.as_slice.map fun e => e.length.toNat).sum)
      (report_memory boot p) := by
  obtain ⟨L, hb, -, hbad⟩ := h
  have hcard := L.card_all
  have hle := hb.card_le
  have hfree : p.inner.free_frames = L.free.card := hb.free_frames
  have hreserved : p.inner.reserved_frames = L.withheld.card := hb.reserved_frames
  have hsum := sum_bad_le boot.mmap.as_slice
  have hlen : boot.mmap.as_slice.length ≤ 64 := boot.mmap.len_le
  rw [MAX_FRAMES_val] at hle
  unfold report_memory
  rw [mul_of_lt (by rw [WORD_eq]; omega), ok_bind]
  refine (sum_lengths_spec boot.mmap.as_slice).bind fun total htotal => ?_
  rw [mul_of_lt (by rw [WORD_eq]; omega), ok_bind, mul_of_lt (by rw [WORD_eq]; omega), ok_bind]
  exact htotal.1 ▸ htotal.2

theorem report_framebuffer_spec (boot : BootInfo) :
    Ends (fun _ => ∀ fb, boot.framebuffer = some fb → fb.address.toNat + fb.size.toNat < WORD)
      (fun e => e = .addOverflow ∧
        ∃ fb, boot.framebuffer = some fb ∧ WORD ≤ fb.address.toNat + fb.size.toNat)
      (report_framebuffer boot) := by
  unfold report_framebuffer
  cases hfb : boot.framebuffer with
  | none => exact fun fb h => by cases h
  | some fb =>
      simp only [Option.some.injEq, exists_eq_left', forall_eq']
      exact Ends.bind (P := fun _ => fb.address.toNat + fb.size.toNat < WORD)
        (ends_add id fun hover => ⟨rfl, hover⟩) fun _ => id

theorem boot_memory_spec (memory : Nat → Bitmap.Word) (hloc : Located boot)
    (hlink : Linked params) :
    Ends (fun _ => BootFits boot) (BootStop boot)
      (boot_memory params boot ⟨PmmInner.new, 0, memory⟩) := by
  refine ((carved_init memory boot).mono (fun _ => id) fun e he => ?_).bind fun p hp => ?_
  · exact .inr ⟨he.1, .inl (Nat.le_trans he.2 (sum_unmapped_le _))⟩
  refine ((reserve_boot_memory_spec hp params).mono (fun _ => id) fun e he => ?_).bind fun p hp => ?_
  · rcases he.of_located hloc hlink with ⟨rfl, hfb⟩ | hlimit
    · exact .inr ⟨rfl, .inr (.inl hfb)⟩
    · exact .inl hlimit
  obtain ⟨hcarved, hfb, hlimit⟩ := hp
  refine ((report_memory_spec hcarved).mono (fun _ => id) fun e he => ?_).bind fun _ hsum => ?_
  · exact .inr ⟨he.1, .inl he.2⟩
  refine ((report_framebuffer_spec boot).mono (fun _ => id) fun e he => ?_).bind fun _ hend => ?_
  · exact .inr ⟨he.1, .inr (.inr he.2)⟩
  exact ⟨hsum, hend, hfb, hlimit⟩

theorem locate_ok {bytes : List UInt8} {info : BootInfo} {phys : Nat}
    (hparse : parse bytes = .ok info) (hlt : phys < Arch.BOOT_MAPPED_BYTES) :
    ∃ boot, locate phys info = .ok boot := by
  have hw := parse_walked hparse
  have htotal := info.total_size.toNat_lt
  rw [Arch.BOOT_MAPPED_BYTES_eq] at hlt
  unfold locate
  dsimp only
  cases hrsdp : info.acpi_rsdp with
  | none => exact ⟨_, rfl⟩
  | some off =>
      have hin := hw.rsdp off hrsdp
      dsimp only
      rw [add_of_lt (by rw [WORD_eq]; omega)]
      exact ⟨_, rfl⟩

-- The boot arithmetic completes exactly when the firmware's and the command line's
-- numbers fit: the parser checks none of them.
theorem boot_arithmetic_iff (bytes : List UInt8) (info : BootInfo) (phys : Nat)
    (params : Arch.BootParams) (memory : Nat → Bitmap.Word) (hparse : parse bytes = .ok info)
    (hpos : 0 < phys) (hlt : phys < Arch.BOOT_MAPPED_BYTES) (hlink : Linked params) :
    ∃ boot, locate phys info = .ok boot ∧
      ((∃ p, boot_memory params boot ⟨PmmInner.new, 0, memory⟩ = .ok p) ↔ BootFits boot) := by
  obtain ⟨boot, hboot⟩ := locate_ok hparse hlt
  have hspec := boot_memory_spec memory (locate_located hparse hpos hlt hboot) hlink
  refine ⟨boot, hboot, ?_⟩
  constructor
  · rintro ⟨p, hp⟩
    exact hspec.of_eq_ok hp
  · intro hfits
    cases hr : boot_memory params boot ⟨PmmInner.new, 0, memory⟩ with
    | ok p => exact ⟨p, rfl⟩
    | error e => exact absurd hfits (hspec.of_eq_error hr).not_fits

theorem sizes_locate {info boot : BootInfo} {phys : Nat} (hrsdp : info.acpi_rsdp = none)
    (h : locate phys info = .ok boot) : sizes boot = sizes info := by
  simp only [locate, hrsdp] at h
  cases h
  simp only [sizes, hrsdp, mem_limit_from]

-- The same structure with a command line that asks for a limit of 2^44 MiB.
def huge_limit : List UInt8 :=
  encode [(tag.CMDLINE, text_body "orin.memlimit=17592186044416"),
    (tag.MMAP, mmap_body [⟨0x100000, 0x81000, memtype.AVAILABLE⟩])]

theorem parse_plain : ∃ info, parse plain = .ok info ∧
    sizes info = ([⟨0x100000, 0x81000, memtype.AVAILABLE⟩], none, none, none) :=
  ok_of_toOption_map (by decide +kernel)

theorem parse_huge_limit : ∃ info, parse huge_limit = .ok info ∧
    sizes info = ([⟨0x100000, 0x81000, memtype.AVAILABLE⟩], none, none, some 17592186044416) :=
  ok_of_toOption_map (by decide +kernel)

theorem boot_arithmetic_plain :
    ∃ info boot p, parse plain = .ok info ∧ locate 0x10000 info = .ok boot ∧
      boot_memory image boot ⟨PmmInner.new, 0, fun _ => 0⟩ = .ok p := by
  obtain ⟨info, hparse, hsizes⟩ := parse_plain
  obtain ⟨boot, hboot, hiff⟩ := boot_arithmetic_iff plain info 0x10000 image (fun _ => 0) hparse
    (by decide) (by decide) image_linked
  have hrsdp : info.acpi_rsdp = none := congrArg (fun x => x.2.2.1) hsizes
  have hsame := (sizes_locate hrsdp hboot).trans hsizes
  have hmap : boot.mmap.as_slice = [⟨0x100000, 0x81000, memtype.AVAILABLE⟩] :=
    congrArg (fun x => x.1) hsame
  have hfb : boot.framebuffer = none := congrArg (fun x => x.2.1) hsame
  have hlimit : mem_limit_from boot = none := congrArg (fun x => x.2.2.2) hsame
  obtain ⟨p, hp⟩ := hiff.mpr ⟨by rw [hmap, WORD_eq]; decide, by simp [hfb],
    by simp [FramebufferFits, hfb], by simp [LimitFits, hlimit]⟩
  exact ⟨info, boot, p, hparse, hboot, hp⟩

-- The scaling of the limit to bytes is an unchecked-for overflow: the boot stops.
theorem huge_limit_overflows :
    ∃ info boot, parse huge_limit = .ok info ∧ locate 0x10000 info = .ok boot ∧
      mem_limit_from boot = some 17592186044416 ∧
      boot_memory image boot ⟨PmmInner.new, 0, fun _ => 0⟩ = .error .mulOverflow := by
  obtain ⟨info, hparse, hsizes⟩ := parse_huge_limit
  obtain ⟨boot, hboot⟩ := locate_ok hparse (show 0x10000 < Arch.BOOT_MAPPED_BYTES by decide)
  have hrsdp : info.acpi_rsdp = none := congrArg (fun x => x.2.2.1) hsizes
  have hsame := (sizes_locate hrsdp hboot).trans hsizes
  have hmap : boot.mmap.as_slice = [⟨0x100000, 0x81000, memtype.AVAILABLE⟩] :=
    congrArg (fun x => x.1) hsame
  have hfb : boot.framebuffer = none := congrArg (fun x => x.2.1) hsame
  have hlimit : mem_limit_from boot = some 17592186044416 := congrArg (fun x => x.2.2.2) hsame
  have hspec := boot_memory_spec (fun _ => 0)
    (locate_located hparse (by decide) (by decide) hboot) image_linked
  refine ⟨info, boot, hparse, hboot, hlimit, ?_⟩
  cases hr : boot_memory image boot ⟨PmmInner.new, 0, fun _ => 0⟩ with
  | ok p =>
      have hfits := (hspec.of_eq_ok hr).limit _ hlimit
      rw [WORD_eq] at hfits
      exact absurd hfits (by decide)
  | error e =>
      rcases hspec.of_eq_error hr with ⟨rfl, -⟩ | ⟨-, hsum | hend | ⟨fb, hsome, -⟩⟩
      · rfl
      · rw [hmap, WORD_eq] at hsum
        exact absurd hsum (by decide)
      · exact absurd (by simp [FramebufferFits, hfb]) hend
      · rw [hfb] at hsome
        cases hsome

end Orin.Kmain
