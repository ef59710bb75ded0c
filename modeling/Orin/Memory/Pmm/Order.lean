import Mathlib.Algebra.BigOperators.Group.List.Lemmas
import Orin.Memory.Pmm.Init

namespace Orin.Memory.Pmm

open Rust Bitmap Multiboot

section Init

-- Frame `i` lies wholly inside available RAM of the entry, below the managed limit.
def WholeFrame (e : MmapEntry) (i : Nat) : Prop :=
  e.mem_type = memtype.AVAILABLE ∧ e.base.toNat ≤ FRAME_SIZE * i ∧
    FRAME_SIZE * (i + 1) ≤ min (saturating_add e.base.toNat e.length.toNat) MAX_PHYS

instance (e : MmapEntry) (i : Nat) : Decidable (WholeFrame e i) :=
  inferInstanceAs (Decidable (_ ∧ _ ∧ _))

theorem mem_usable_iff_wholeFrame {e : MmapEntry} {i : Nat} : i ∈ usable e ↔ WholeFrame e i := by
  rw [mem_usable, WholeFrame, Nat.mul_comm FRAME_SIZE, Nat.mul_comm FRAME_SIZE]

-- The free set after `init`, as a set of the entries.
def whole_frames (entries : List MmapEntry) : Finset Nat :=
  (Finset.range MAX_FRAMES).filter fun i => ∃ e ∈ entries, WholeFrame e i

theorem Initialised.members_eq {info : BootInfo} {p : PmmInner} (h : Initialised info p) :
    members p.bitmap = whole_frames info.mmap.as_slice := by
  ext i
  simp only [h.bitmap i, whole_frames, Finset.mem_filter, Finset.mem_range,
    mem_usable_iff_wholeFrame, iff_and_self]
  rintro ⟨e, -, -, -, hstop⟩
  rw [MAX_PHYS_val, FRAME_SIZE] at hstop
  rw [MAX_FRAMES_val]
  omega

theorem whole_frames_congr {entries entries' : List MmapEntry}
    (h : ∀ e, e ∈ entries' ↔ e ∈ entries) : whole_frames entries' = whole_frames entries := by
  simp only [whole_frames, h]

theorem Initialised.same_entries {info info' : BootInfo} {p p' : PmmInner}
    (h : Initialised info p) (h' : Initialised info' p')
    (hsame : ∀ e, e ∈ info'.mmap.as_slice ↔ e ∈ info.mmap.as_slice) :
    p'.bitmap = p.bitmap ∧ p'.total_frames = p.total_frames := by
  have hmembers : members p'.bitmap = members p.bitmap := by
    rw [h'.members_eq, h.members_eq, whole_frames_congr hsame]
  refine ⟨members_inj hmembers, ?_⟩
  rw [h'.total_frames, h.total_frames, h'.counted, h.counted, hmembers]

theorem init_whole_frames (info : BootInfo)
    (hfit : (info.mmap.as_slice.map unmapped).sum < WORD) :
    ∃ p, PmmInner.new.init info = .ok p ∧
      (∀ i, bit p.bitmap i = true ↔ ∃ e ∈ info.mmap.as_slice, WholeFrame e i) ∧
      p.total_frames = p.free_frames ∧
      p.free_frames = (whole_frames info.mmap.as_slice).card ∧
      (∀ info' : BootInfo, info'.mmap.as_slice.Perm info.mmap.as_slice →
        ∃ p', PmmInner.new.init info' = .ok p' ∧ p'.bitmap = p.bitmap ∧
          p'.total_frames = p.total_frames) ∧
      ∀ info' : BootInfo, (∀ e, e ∈ info'.mmap.as_slice ↔ e ∈ info.mmap.as_slice) →
        (info'.mmap.as_slice.map unmapped).sum < WORD →
        ∃ p', PmmInner.new.init info' = .ok p' ∧ p'.bitmap = p.bitmap ∧
          p'.total_frames = p.total_frames := by
  obtain ⟨p, hp⟩ := (init_ok_iff info).mpr hfit
  have hinit := (init_spec info).of_eq_ok hp
  have hsame : ∀ info' : BootInfo, (∀ e, e ∈ info'.mmap.as_slice ↔ e ∈ info.mmap.as_slice) →
      (info'.mmap.as_slice.map unmapped).sum < WORD →
      ∃ p', PmmInner.new.init info' = .ok p' ∧ p'.bitmap = p.bitmap ∧
        p'.total_frames = p.total_frames := by
    intro info' hentries hfit'
    obtain ⟨p', hp'⟩ := (init_ok_iff info').mpr hfit'
    exact ⟨p', hp', hinit.same_entries ((init_spec info').of_eq_ok hp') hentries⟩
  refine ⟨p, hp, fun i => ?_, hinit.total_frames, ?_, fun info' hperm => ?_, hsame⟩
  · rw [← mem_members, hinit.bitmap i]
    simp only [mem_usable_iff_wholeFrame]
  · rw [hinit.counted, hinit.members_eq]
  · refine hsame info' (fun _ => hperm.mem_iff) ?_
    rwa [(hperm.map unmapped).sum_eq]

theorem init_whole_frames_apart :
    ∃ p, PmmInner.new.init apart = .ok p ∧ bit p.bitmap 0 = true ∧ bit p.bitmap 1 ≠ true := by
  have hfit : (apart.mmap.as_slice.map unmapped).sum < WORD := by
    rw [WORD_eq]
    decide +kernel
  obtain ⟨p, hp, hbit, -⟩ := init_whole_frames apart hfit
  refine ⟨p, hp, (hbit 0).mpr ?_, fun h => ?_⟩
  · refine ⟨⟨0, 0x1000, memtype.AVAILABLE⟩, by simp [apart, Heapless.Vec.as_slice], ?_⟩
    rw [WholeFrame, saturating_add, WORD_eq]
    decide +kernel
  · obtain ⟨e, he, hwhole⟩ := (hbit 1).mp h
    rw [WholeFrame, saturating_add, WORD_eq] at hwhole
    simp only [apart, Heapless.Vec.as_slice, List.mem_cons, List.not_mem_nil, or_false] at he
    rcases he with rfl | rfl
    · exact absurd hwhole (by decide +kernel)
    · exact absurd hwhole.1 (by decide)

end Init

section Reserve

variable {p p' p'' : PmmInner}

-- One call of `reserve_range` after the other.
def reserve_ranges (p : PmmInner) (ranges : List (UInt64 × UInt64)) : Except Panic PmmInner :=
  ranges.foldlM (fun p r => p.reserve_range r.1.toNat r.2.toNat) p

-- The managed frames that share a byte with one of the ranges.
def covered (ranges : List (UInt64 × UInt64)) : Finset Nat :=
  (Finset.range MAX_FRAMES).filter fun f => ∃ r ∈ ranges, SharesByte f r.1.toNat r.2.toNat

theorem covered_nil : covered [] = ∅ := by simp [covered]

theorem covered_snoc (ranges : List (UInt64 × UInt64)) (r : UInt64 × UInt64) :
    covered (ranges ++ [r]) = covered ranges ∪ touched r.1.toNat r.2.toNat := by
  ext f
  simp only [covered, Finset.mem_filter, Finset.mem_range, Finset.mem_union, mem_touched,
    List.mem_append, List.mem_singleton, or_and_right, exists_or, exists_eq_left, and_or_left]

theorem covered_congr {ranges ranges' : List (UInt64 × UInt64)}
    (h : ∀ r, r ∈ ranges' ↔ r ∈ ranges) : covered ranges' = covered ranges := by
  simp only [covered, h]

-- The set of frames taken decides the whole structure.
theorem Reserved.unique {frames : Finset Nat} (h : Reserved p frames p')
    (h' : Reserved p frames p'') : p' = p'' := by
  have hmembers : members p'.bitmap = members p''.bitmap := h.bitmap.trans h'.bitmap.symm
  have hfree : p'.free_frames = p''.free_frames := by rw [h.counted, h'.counted, hmembers]
  have hreserved : p'.reserved_frames = p''.reserved_frames := by
    have := h.reserved_frames
    have := h'.reserved_frames
    omega
  have hbitmap := members_inj hmembers
  have hr := h.record
  have hr' := h'.record
  cases p'
  cases p''
  simp only [PmmInner.mk.injEq]
  exact ⟨hbitmap, hr.total_frames.trans hr'.total_frames.symm, hfree, hreserved,
    hr.bad_frames.trans hr'.bad_frames.symm, hr.unmapped_bytes.trans hr'.unmapped_bytes.symm,
    hr.initialised.trans hr'.initialised.symm⟩

theorem reserve_ranges_spec (hp : Counted p) (hsum : p.free_frames + p.reserved_frames < WORD)
    (ranges : List (UInt64 × UInt64))
    (hfit : ∀ r ∈ ranges, r.1.toNat < r.2.toNat → r.2.toNat + FRAME_SIZE < WORD) :
    ∃ p', reserve_ranges p ranges = .ok p' ∧ Reserved p (covered ranges) p' := by
  have hloop : Ends (Reserved p (covered ranges)) (fun _ => False) (reserve_ranges p ranges) := by
    refine ends_foldlM (fun seen p' => Reserved p (covered seen) p') ranges p
      (covered_nil ▸ .none hp) fun seen r p' hpre hI => ?_
    have hmem : r ∈ ranges := hpre.subset (by simp)
    have hsum' := hI.reserved_frames
    refine (reserve_range_spec r.1.toNat r.2.toNat hI.counted (by omega)).mono
      (fun p'' hr => covered_snoc seen r ▸ hI.trans hr) ?_
    rintro e ⟨-, hlt, hover⟩
    exact absurd (hfit r hmem hlt) (Nat.not_lt.mpr hover)
  cases hr : reserve_ranges p ranges with
  | ok p' => exact ⟨p', rfl, hloop.of_eq_ok hr⟩
  | error e => exact (hloop.of_eq_error hr).elim

-- Only the set of ranges matters, not their order or how often each is given.
theorem reservations_commute (p : PmmInner) (ranges : List (UInt64 × UInt64)) (hp : Counted p)
    (hsum : p.free_frames + p.reserved_frames < WORD)
    (hfit : ∀ r ∈ ranges, r.1.toNat < r.2.toNat → r.2.toNat + FRAME_SIZE < WORD) :
    ∃ p', reserve_ranges p ranges = .ok p' ∧
      (∀ f, bit p'.bitmap f = true ↔
        bit p.bitmap f = true ∧ ¬ ∃ r ∈ ranges, SharesByte f r.1.toNat r.2.toNat) ∧
      p'.free_frames + p'.reserved_frames = p.free_frames + p.reserved_frames ∧
      ∀ ranges', (∀ r, r ∈ ranges' ↔ r ∈ ranges) → reserve_ranges p ranges' = .ok p' := by
  obtain ⟨p', hp', hr⟩ := reserve_ranges_spec hp hsum ranges hfit
  refine ⟨p', hp', fun f => ?_, hr.reserved_frames, fun ranges' hsame => ?_⟩
  · rw [← mem_members, hr.bitmap, Finset.mem_sdiff, mem_members]
    refine and_congr_right fun hbit => not_congr ?_
    have hlt : f < MAX_FRAMES := lt_of_bit hbit
    simp [covered, hlt]
  · obtain ⟨p'', hp'', hr'⟩ := reserve_ranges_spec hp hsum ranges'
      fun r hmem => hfit r ((hsame r).mp hmem)
    rw [covered_congr hsame] at hr'
    rw [hp'', hr.unique hr']

-- Sixteen pages are free; the two ranges cut the first two of them.
theorem overlapping_free {p : PmmInner} (hp : PmmInner.new.init overlapping = .ok p) :
    Counted p ∧ p.free_frames + p.reserved_frames < WORD ∧
      ∀ f, bit p.bitmap f = true ↔ f < 16 := by
  have hinit := (init_spec overlapping).of_eq_ok hp
  have hbit : ∀ f, bit p.bitmap f = true ↔ f < 16 := by
    intro f
    have hram : f ∈ usable ⟨0, 0x10000, memtype.AVAILABLE⟩ ↔ 0 ≤ f ∧ f < 0 + 16 :=
      mem_usable_pages rfl rfl rfl (by decide)
    have hother : f ∉ usable ⟨0x1000, 0x1000, memtype.ACPI_RECLAIMABLE⟩ :=
      fun h => absurd (mem_usable.mp h).1 (by decide)
    rw [← mem_members, hinit.bitmap f]
    simp [overlapping, Heapless.Vec.as_slice, hram, hother]
  refine ⟨hinit.counted, ?_, hbit⟩
  have hmembers : members p.bitmap = Finset.range 16 := by
    ext f
    rw [mem_members, hbit, Finset.mem_range]
  rw [hinit.counted, hmembers, hinit.reserved_frames, WORD_eq]
  decide

theorem reservations_commute_twice :
    ∃ p p', PmmInner.new.init overlapping = .ok p ∧ bit p.bitmap 0 = true ∧
      bit p.bitmap 1 = true ∧ (∀ f, bit p'.bitmap f = true ↔ 2 ≤ f ∧ f < 16) ∧
      reserve_ranges p [(0, 0x800), (0x400, 0x1800)] = .ok p' ∧
      reserve_ranges p [(0x400, 0x1800), (0, 0x800), (0x400, 0x1800)] = .ok p' := by
  obtain ⟨p, hp⟩ := (init_ok_iff overlapping).mpr (by rw [WORD_eq]; decide +kernel)
  obtain ⟨hcounted, hsum, hbit⟩ := overlapping_free hp
  have hfit : ∀ r ∈ ([(0, 0x800), (0x400, 0x1800)] : List (UInt64 × UInt64)),
      r.1.toNat < r.2.toNat → r.2.toNat + FRAME_SIZE < WORD := by
    intro r hr
    rw [WORD_eq]
    simp only [List.mem_cons, List.not_mem_nil, or_false] at hr
    rcases hr with rfl | rfl <;> decide
  obtain ⟨p', hp', hbit', -, hsame⟩ := reservations_commute p _ hcounted hsum hfit
  refine ⟨p, p', hp, (hbit 0).mpr (by decide), (hbit 1).mpr (by decide), fun f => ?_, hp',
    hsame _ fun r => ?_⟩
  · rw [hbit', hbit]
    have hcut : (∃ r ∈ ([(0, 0x800), (0x400, 0x1800)] : List (UInt64 × UInt64)),
        SharesByte f r.1.toNat r.2.toNat) ↔ f < 2 := by
      simp only [List.mem_cons, List.not_mem_nil, or_false, exists_eq_or_imp, exists_eq_left,
        sharesByte_iff, FRAME_SIZE, UInt64.toNat_ofNat]
      omega
    rw [hcut]
    omega
  · simp only [List.mem_cons, List.not_mem_nil, or_false]
    constructor
    · rintro (h | h | h)
      · exact .inr h
      · exact .inl h
      · exact .inr h
    · rintro (h | h)
      · exact .inr (.inl h)
      · exact .inl h

-- Rounding the end up adds a whole page first, so the last page boundary is too high.
theorem last_page_boundary_overflows :
    Counted PmmInner.new ∧ (0xFFFFFFFFFFFFF000 : UInt64).toNat = 2 ^ 64 - 4096 ∧
      reserve_ranges PmmInner.new [(0, 0xFFFFFFFFFFFFF000)] = .error .addOverflow := by
  refine ⟨loaded_new.counted, by decide, ?_⟩
  have hover : WORD ≤ (0xFFFFFFFFFFFFF000 : UInt64).toNat + FRAME_SIZE := by
    rw [WORD_eq]
    decide
  rw [reserve_ranges, List.foldlM_cons, PmmInner.reserve_range, if_neg (by decide),
    add_of_ge hover]
  rfl

end Reserve

end Orin.Memory.Pmm
