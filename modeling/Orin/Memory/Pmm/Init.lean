import Mathlib.Algebra.BigOperators.Group.List.Basic
import Mathlib.Algebra.GroupWithZero.Nat
import Orin.Memory.Pmm.Ops

namespace Orin.Memory.Pmm

open Rust Bitmap Multiboot

-- The frames an entry gives the allocator, and the bytes it reports as unusable.
def usable (e : MmapEntry) : Finset Nat :=
  if e.mem_type = memtype.AVAILABLE then
    contained e.base.toNat (min (saturating_add e.base.toNat e.length.toNat) MAX_PHYS)
  else ∅

def unmapped (e : MmapEntry) : Nat :=
  if e.mem_type = memtype.AVAILABLE then
    if MAX_PHYS ≤ e.base.toNat then e.length.toNat
    else saturating_add e.base.toNat e.length.toNat - MAX_PHYS
  else 0

def bad (e : MmapEntry) : Nat :=
  if e.mem_type = memtype.BAD_RAM then e.length.toNat / FRAME_SIZE else 0

theorem mem_usable {e : MmapEntry} {f : Nat} :
    f ∈ usable e ↔ e.mem_type = memtype.AVAILABLE ∧ e.base.toNat ≤ f * FRAME_SIZE ∧
      (f + 1) * FRAME_SIZE ≤ min (saturating_add e.base.toNat e.length.toNat) MAX_PHYS := by
  unfold usable
  split
  · rename_i ha
    simp only [mem_contained, ha, true_and, and_iff_right_iff_imp, MAX_FRAMES_val, MAX_PHYS_val,
      FRAME_SIZE]
    omega
  · rename_i ha
    simp [ha]

-- An available page gives the one frame it is.
theorem mem_usable_pages {e : MmapEntry} {k n f : Nat} (ha : e.mem_type = memtype.AVAILABLE)
    (hbase : e.base.toNat = k * FRAME_SIZE) (hlen : e.length.toNat = n * FRAME_SIZE)
    (hk : k + n ≤ MAX_FRAMES) : f ∈ usable e ↔ k ≤ f ∧ f < k + n := by
  have htop : min (saturating_add (k * FRAME_SIZE) (n * FRAME_SIZE)) MAX_PHYS =
      (k + n) * FRAME_SIZE := by
    rw [saturating_add, WORD_eq, MAX_PHYS_val]
    rw [MAX_FRAMES_val] at hk
    simp only [FRAME_SIZE]
    omega
  rw [mem_usable, hbase, hlen, htop]
  simp only [ha, true_and, FRAME_SIZE]
  omega

theorem mem_usable_page {e : MmapEntry} {k f : Nat} (ha : e.mem_type = memtype.AVAILABLE)
    (hbase : e.base.toNat = k * FRAME_SIZE) (hlen : e.length.toNat = FRAME_SIZE)
    (hk : k < MAX_FRAMES) : f ∈ usable e ↔ f = k := by
  rw [mem_usable_pages ha hbase (hlen.trans (Nat.one_mul _).symm) hk]
  omega

-- What the entries seen so far have done to the locked structure.
structure Loaded (seen : List MmapEntry) (p : PmmInner) : Prop where
  bitmap : ∀ f, f ∈ members p.bitmap ↔ ∃ e ∈ seen, f ∈ usable e
  counted : Counted p
  unmapped_bytes : p.unmapped_bytes = (seen.map unmapped).sum
  unmapped_lt : (seen.map unmapped).sum < WORD
  bad_frames : p.bad_frames = (seen.map bad).sum
  reserved_frames : p.reserved_frames = 0

theorem loaded_new : Loaded [] PmmInner.new := by
  have hempty : ∀ f, f ∉ members PmmInner.new.bitmap := by
    intro f
    rw [mem_members, PmmInner.new, bit_replicate_zero]
    exact Bool.false_ne_true
  refine ⟨fun f => by simp [hempty f], ?_, rfl, by rw [WORD_eq]; decide, rfl, rfl⟩
  unfold Counted
  rw [Finset.eq_empty_of_forall_notMem hempty]
  rfl

theorem bad_le (e : MmapEntry) : bad e ≤ 2 ^ 52 := by
  have := e.length.toNat_lt
  unfold bad FRAME_SIZE
  split <;> omega

theorem sum_bad_le (entries : List MmapEntry) :
    (entries.map bad).sum ≤ entries.length * 2 ^ 52 := by
  induction entries with
  | nil => simp
  | cons e rest ih =>
      have := bad_le e
      simp only [List.map_cons, List.sum_cons, List.length_cons]
      omega

theorem Loaded.snoc {seen : List MmapEntry} {e : MmapEntry} {p p' : PmmInner} (h : Loaded seen p)
    (hmap : members p'.bitmap = members p.bitmap ∪ usable e) (hcounted : Counted p')
    (hunmapped : p'.unmapped_bytes = p.unmapped_bytes + unmapped e)
    (hlt : p.unmapped_bytes + unmapped e < WORD) (hbad : p'.bad_frames = p.bad_frames + bad e)
    (hreserved : p'.reserved_frames = p.reserved_frames) : Loaded (seen ++ [e]) p' := by
  have hsum : ((seen ++ [e]).map unmapped).sum = p.unmapped_bytes + unmapped e := by
    simp [h.unmapped_bytes]
  refine ⟨fun f => ?_, hcounted, hunmapped.trans hsum.symm, hsum ▸ hlt, ?_,
    hreserved.trans h.reserved_frames⟩
  · rw [hmap, Finset.mem_union, h.bitmap]
    simp [or_and_right, exists_or]
  · simp [hbad, h.bad_frames]

theorem init_entry_spec {seen : List MmapEntry} {e : MmapEntry} {p : PmmInner} (h : Loaded seen p)
    (hlen : seen.length < 64) :
    Ends (Loaded (seen ++ [e]))
      (fun stop => stop = .addOverflow ∧ WORD ≤ ((seen ++ [e]).map unmapped).sum)
      (p.init_entry e) := by
  have hsum : ((seen ++ [e]).map unmapped).sum = p.unmapped_bytes + unmapped e := by
    simp [h.unmapped_bytes]
  rw [hsum]
  unfold PmmInner.init_entry
  by_cases ha : e.mem_type = memtype.AVAILABLE
  · have hbad : bad e = 0 := by simp [bad, ha, memtype.AVAILABLE, memtype.BAD_RAM]
    rw [if_pos ha]
    dsimp only
    by_cases hhigh : MAX_PHYS ≤ e.base.toNat
    · have hu : unmapped e = e.length.toNat := by simp [unmapped, ha, hhigh]
      have hnone : usable e = ∅ := by
        rw [usable, if_pos ha]
        exact contained_eq_empty (by omega)
      rw [if_pos hhigh, hu]
      refine Ends.bind (ends_add (P := fun x => x = _ ∧ x < WORD) (fun hw => ⟨rfl, hw⟩)
        fun hw => ⟨rfl, hw⟩) fun x hx => ?_
      obtain ⟨rfl, hlt⟩ := hx
      exact h.snoc (by simp [hnone]) h.counted (by simp [hu]) (hu ▸ hlt) (by simp [hbad]) rfl
    · have hu : unmapped e = saturating_add e.base.toNat e.length.toNat - MAX_PHYS := by
        simp [unmapped, ha, hhigh]
      have hbase : e.base.toNat + FRAME_SIZE < WORD := by
        rw [WORD_eq]
        rw [MAX_PHYS_val] at hhigh
        unfold FRAME_SIZE
        omega
      rw [if_neg hhigh]
      have hx : Ends (fun x => x = p.unmapped_bytes + unmapped e ∧ x < WORD)
          (fun stop => stop = .addOverflow ∧ WORD ≤ p.unmapped_bytes + unmapped e)
          (p.count_unmapped (saturating_add e.base.toNat e.length.toNat)) := by
        unfold PmmInner.count_unmapped
        split
        · rw [sub_of_le (by omega), ok_bind, hu]
          exact ends_add (fun hw => ⟨rfl, hw⟩) fun hw => ⟨rfl, hw⟩
        · have hzero : unmapped e = 0 := by omega
          rw [hzero]
          exact ⟨rfl, h.unmapped_bytes ▸ h.unmapped_lt⟩
      refine hx.bind fun x hx => ?_
      obtain ⟨rfl, hlt⟩ := hx
      refine (free_range_spec (p := { p with unmapped_bytes := p.unmapped_bytes + unmapped e })
        h.counted).mono (fun p' hp' => ?_) (fun stop hstop => absurd hstop.2 (by omega))
      have hrecord := hp'.record
      refine h.snoc ?_ hp'.counted hrecord.unmapped_bytes hlt ?_ hp'.reserved_frames
      · rw [hp'.bitmap, usable, if_pos ha]
      · rw [hrecord.bad_frames, hbad, Nat.add_zero]
  · have hnone : usable e = ∅ := by simp [usable, ha]
    have hu : unmapped e = 0 := by simp [unmapped, ha]
    have hlt : p.unmapped_bytes + unmapped e < WORD := by
      rw [hu, Nat.add_zero, h.unmapped_bytes]
      exact h.unmapped_lt
    rw [if_neg ha]
    split
    · rename_i hb
      have hbad : bad e = e.length.toNat / FRAME_SIZE := by simp [bad, hb]
      have h1 := sum_bad_le seen
      have h2 := bad_le e
      have hfit : p.bad_frames + e.length.toNat / FRAME_SIZE < WORD := by
        rw [h.bad_frames, ← hbad, WORD_eq]
        omega
      rw [add_of_lt hfit, ok_bind]
      exact h.snoc (by simp [hnone]) h.counted (by simp [hu]) hlt (by simp [hbad]) rfl
    · rename_i hb
      have hbad : bad e = 0 := by simp [bad, hb]
      exact h.snoc (by simp [hnone]) h.counted (by simp [hu]) hlt (by simp [hbad]) rfl

structure Initialised (info : BootInfo) (p : PmmInner) : Prop extends
    Loaded info.mmap.as_slice p where
  total_frames : p.total_frames = p.free_frames
  initialised : p.initialised = true

-- The only overflow `init` can meet is in the bytes it cannot map.
theorem init_spec (info : BootInfo) :
    Ends (Initialised info)
      (fun e => e = .addOverflow ∧ WORD ≤ (info.mmap.as_slice.map unmapped).sum)
      (PmmInner.new.init info) := by
  have hloop : Ends (Loaded info.mmap.as_slice)
      (fun e => e = .addOverflow ∧ WORD ≤ (info.mmap.as_slice.map unmapped).sum)
      (info.mmap.as_slice.foldlM PmmInner.init_entry PmmInner.new) := by
    refine ends_foldlM Loaded _ _ loaded_new fun seen e p hpre hp => ?_
    obtain ⟨rest, hrest⟩ := hpre
    have hlen : (seen ++ [e] ++ rest).length ≤ 64 := hrest ▸ info.mmap.len_le
    simp only [List.length_append, List.length_singleton] at hlen
    refine (init_entry_spec hp (by omega)).mono (fun _ => id) (fun stop hstop => ⟨hstop.1, ?_⟩)
    have hmono : ((seen ++ [e]).map unmapped).sum ≤ (info.mmap.as_slice.map unmapped).sum := by
      have hsplit : (info.mmap.as_slice.map unmapped).sum =
          ((seen ++ [e]).map unmapped).sum + (rest.map unmapped).sum := by
        simp [← hrest, Nat.add_assoc]
      omega
    exact Nat.le_trans hstop.2 hmono
  refine hloop.bind fun p hp => ?_
  have hle := hp.counted.free_frames_le
  have hfit : p.free_frames * FRAME_SIZE < WORD := by
    rw [WORD_eq]
    rw [MAX_FRAMES_val] at hle
    unfold FRAME_SIZE
    omega
  rw [mul_of_lt hfit, ok_bind]
  exact ⟨⟨hp.bitmap, hp.counted, hp.unmapped_bytes, hp.unmapped_lt, hp.bad_frames,
    hp.reserved_frames⟩, rfl, rfl⟩

theorem init_ok_iff (info : BootInfo) :
    (∃ p, PmmInner.new.init info = .ok p) ↔ (info.mmap.as_slice.map unmapped).sum < WORD := by
  have h := init_spec info
  constructor
  · rintro ⟨p, hp⟩
    exact (h.of_eq_ok hp).unmapped_lt
  · intro hlt
    cases hp : PmmInner.new.init info with
    | ok p => exact ⟨p, rfl⟩
    | error e => exact absurd (h.of_eq_error hp).2 (Nat.not_le.mpr hlt)

section Firmware

-- The whole frames of an entry below the managed limit, as a byte range.
def whole_start (e : MmapEntry) : Nat :=
  (e.base.toNat + (FRAME_SIZE - 1)) / FRAME_SIZE * FRAME_SIZE

def whole_stop (e : MmapEntry) : Nat :=
  min (saturating_add e.base.toNat e.length.toNat) MAX_PHYS / FRAME_SIZE * FRAME_SIZE

-- Some byte of `e` lies in a whole frame of `m`.
def Overlaps (m e : MmapEntry) : Prop :=
  ∃ b, e.base.toNat ≤ b ∧ b < e.base.toNat + e.length.toNat ∧ whole_start m ≤ b ∧ b < whole_stop m

-- A byte of `[y, z)` in the whole frames of `[x, stop)` is a byte of one of them.
theorem shares_whole_frame_iff (x stop y z : Nat) :
    (∃ b, y ≤ b ∧ b < z ∧ (x + (FRAME_SIZE - 1)) / FRAME_SIZE * FRAME_SIZE ≤ b ∧
      b < stop / FRAME_SIZE * FRAME_SIZE) ↔
    ∃ f, (x ≤ f * FRAME_SIZE ∧ (f + 1) * FRAME_SIZE ≤ stop) ∧ SharesByte f y z := by
  have hstart : ∀ f, x ≤ f * 4096 ↔ (x + (4096 - 1)) / 4096 ≤ f := fun f => by omega
  have hstop : ∀ f, (f + 1) * 4096 ≤ stop ↔ f < stop / 4096 := fun f => by omega
  simp only [SharesByte, FRAME_SIZE, hstart, hstop]
  generalize (x + (4096 - 1)) / 4096 = first
  generalize stop / 4096 = last
  constructor
  · rintro ⟨b, h1, h2, h3, h4⟩
    have hfirst : first ≤ b / 4096 := (Nat.le_div_iff_mul_le (by omega)).mpr h3
    have hlast : b / 4096 < last := (Nat.div_lt_iff_lt_mul (by omega)).mpr h4
    have hnext := Nat.lt_mul_div_succ b (show 0 < 4096 by decide)
    rw [Nat.mul_comm] at hnext
    exact ⟨b / 4096, ⟨hfirst, hlast⟩, b, h1, h2, Nat.div_mul_le_self b 4096, hnext⟩
  · rintro ⟨f, ⟨h1, h2⟩, b, h3, h4, h5, h6⟩
    exact ⟨b, h3, h4, (Nat.mul_le_mul_right 4096 h1).trans h5,
      h6.trans_le (Nat.mul_le_mul_right 4096 h2)⟩

theorem overlaps_iff {m e : MmapEntry} (hm : m.mem_type = memtype.AVAILABLE) :
    Overlaps m e ↔
      ∃ f ∈ usable m, SharesByte f e.base.toNat (e.base.toNat + e.length.toNat) := by
  simp only [Overlaps, whole_start, whole_stop, mem_usable, hm, true_and]
  exact shares_whole_frame_iff _ _ _ _

-- `init` never takes back what an available entry gave, so a firmware region stays
-- out of the free set exactly when no available entry overlaps it.
theorem firmware_reserved_iff (info : BootInfo) (p : PmmInner)
    (h : PmmInner.new.init info = .ok p) :
    (∀ f, bit p.bitmap f = true → ∀ e ∈ info.mmap.as_slice, e.mem_type ≠ memtype.AVAILABLE →
      ¬ SharesByte f e.base.toNat (e.base.toNat + e.length.toNat)) ↔
    ∀ m ∈ info.mmap.as_slice, m.mem_type = memtype.AVAILABLE →
      ∀ e ∈ info.mmap.as_slice, e.mem_type ≠ memtype.AVAILABLE → ¬ Overlaps m e := by
  have hbit : ∀ f, bit p.bitmap f = true ↔ ∃ m ∈ info.mmap.as_slice, f ∈ usable m := by
    intro f
    rw [← mem_members]
    exact ((init_spec info).of_eq_ok h).bitmap f
  constructor
  · intro hclear m hm havail e he htype hover
    obtain ⟨f, hf, hshare⟩ := (overlaps_iff havail).mp hover
    exact hclear f ((hbit f).mpr ⟨m, hm, hf⟩) e he htype hshare
  · intro hdisj f hf e he htype hshare
    obtain ⟨m, hm, hfm⟩ := (hbit f).mp hf
    have havail := (mem_usable.mp hfm).1
    exact hdisj m hm havail e he htype ((overlaps_iff havail).mpr ⟨f, hfm, hshare⟩)

-- Available RAM beside a region of another type, and the same region inside it.
def apart : BootInfo :=
  { empty_info 0 with mmap := ⟨[⟨0, 0x1000, memtype.AVAILABLE⟩,
      ⟨0x1000, 0x1000, memtype.ACPI_RECLAIMABLE⟩], by decide⟩ }

def overlapping : BootInfo :=
  { empty_info 0 with mmap := ⟨[⟨0, 0x10000, memtype.AVAILABLE⟩,
      ⟨0x1000, 0x1000, memtype.ACPI_RECLAIMABLE⟩], by decide⟩ }

theorem firmware_reserved_apart :
    ∃ p, PmmInner.new.init apart = .ok p ∧
      ∀ f, bit p.bitmap f = true → ¬ SharesByte f 0x1000 0x2000 := by
  obtain ⟨p, hp⟩ := (init_ok_iff apart).mpr (by rw [WORD_eq]; decide +kernel)
  refine ⟨p, hp, fun f hf => ?_⟩
  refine (firmware_reserved_iff apart p hp).mpr ?_ f hf ⟨0x1000, 0x1000, memtype.ACPI_RECLAIMABLE⟩
    (by simp [apart, Heapless.Vec.as_slice]) (by decide)
  simp only [apart, Heapless.Vec.as_slice, List.mem_cons, List.not_mem_nil, or_false]
  rintro m (rfl | rfl) havail e (rfl | rfl) htype ⟨b, h1, -, -, h4⟩
  · exact htype rfl
  · have hstop : whole_stop ⟨0, 0x1000, memtype.AVAILABLE⟩ = 0x1000 := by
      rw [whole_stop, saturating_add, WORD_eq]
      rfl
    rw [hstop] at h4
    exact absurd (Nat.lt_of_le_of_lt h1 h4) (by decide)
  · exact absurd havail (by decide)
  · exact absurd havail (by decide)

theorem firmware_region_freed :
    ∃ p, PmmInner.new.init overlapping = .ok p ∧ bit p.bitmap 1 = true ∧
      ⟨0x1000, 0x1000, memtype.ACPI_RECLAIMABLE⟩ ∈ overlapping.mmap.as_slice ∧
      SharesByte 1 0x1000 0x2000 := by
  obtain ⟨p, hp⟩ := (init_ok_iff overlapping).mpr (by rw [WORD_eq]; decide +kernel)
  refine ⟨p, hp, ?_, by simp [overlapping, Heapless.Vec.as_slice], by decide⟩
  rw [← mem_members, ((init_spec overlapping).of_eq_ok hp).bitmap]
  refine ⟨⟨0, 0x10000, memtype.AVAILABLE⟩, by simp [overlapping, Heapless.Vec.as_slice], ?_⟩
  rw [mem_usable, saturating_add, WORD_eq]
  decide +kernel

end Firmware

end Orin.Memory.Pmm
