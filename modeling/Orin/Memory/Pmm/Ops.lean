import Mathlib.Order.Interval.Finset.Nat
import Orin.Memory.Pmm.Scan

namespace Orin.Memory.Pmm

open Rust Bitmap

theorem MAX_FRAMES_eq : MAX_FRAMES = 64 * BITMAP_WORDS := rfl

theorem MAX_FRAMES_val : MAX_FRAMES = 524288 := rfl

theorem MAX_PHYS_val : MAX_PHYS = 2147483648 := rfl

section Frames

-- Frame `f` and the byte range `[start, stop)` have a byte in common.
def SharesByte (f start stop : Nat) : Prop :=
  ∃ b, start ≤ b ∧ b < stop ∧ f * FRAME_SIZE ≤ b ∧ b < (f + 1) * FRAME_SIZE

theorem sharesByte_iff {f start stop : Nat} :
    SharesByte f start stop ↔
      start < stop ∧ f * FRAME_SIZE < stop ∧ start < (f + 1) * FRAME_SIZE := by
  unfold FRAME_SIZE
  constructor
  · rintro ⟨b, h1, h2, h3, h4⟩
    unfold FRAME_SIZE at h3 h4
    omega
  · rintro ⟨h1, h2, h3⟩
    refine ⟨max start (f * 4096), ?_⟩
    unfold FRAME_SIZE
    omega

instance (f start stop : Nat) : Decidable (SharesByte f start stop) :=
  decidable_of_iff _ sharesByte_iff.symm

-- The managed frames a reservation of `[start, stop)` takes.
def touched (start stop : Nat) : Finset Nat :=
  (Finset.range MAX_FRAMES).filter fun f => SharesByte f start stop

@[simp] theorem mem_touched {f start stop : Nat} :
    f ∈ touched start stop ↔ f < MAX_FRAMES ∧ SharesByte f start stop := by
  simp [touched]

theorem touched_eq_empty {start stop : Nat} (h : stop ≤ start) : touched start stop = ∅ := by
  ext f
  simp only [mem_touched, sharesByte_iff, Finset.notMem_empty, iff_false]
  omega

theorem touched_eq_Ico {start stop : Nat} (h : start < stop) :
    touched start stop =
      Finset.Ico (start / FRAME_SIZE) (min ((stop + FRAME_SIZE - 1) / FRAME_SIZE) MAX_FRAMES) := by
  ext f
  simp only [mem_touched, sharesByte_iff, Finset.mem_Ico, FRAME_SIZE]
  omega

-- The managed frames that lie wholly inside `[start, stop)`.
def contained (start stop : Nat) : Finset Nat :=
  (Finset.range MAX_FRAMES).filter fun f => start ≤ f * FRAME_SIZE ∧ (f + 1) * FRAME_SIZE ≤ stop

@[simp] theorem mem_contained {f start stop : Nat} :
    f ∈ contained start stop ↔
      f < MAX_FRAMES ∧ start ≤ f * FRAME_SIZE ∧ (f + 1) * FRAME_SIZE ≤ stop := by
  simp [contained]

theorem contained_eq_empty {start stop : Nat} (h : stop ≤ start) : contained start stop = ∅ := by
  ext f
  simp only [mem_contained, FRAME_SIZE, Finset.notMem_empty, iff_false]
  omega

theorem contained_eq_Ico (start stop : Nat) :
    contained start stop =
      Finset.Ico ((start + FRAME_SIZE - 1) / FRAME_SIZE)
        (min (min stop MAX_PHYS / FRAME_SIZE) MAX_FRAMES) := by
  ext f
  simp only [mem_contained, Finset.mem_Ico, FRAME_SIZE, MAX_PHYS_val, MAX_FRAMES_val]
  omega

end Frames

section Counters

def Counted (p : PmmInner) : Prop := p.free_frames = (members p.bitmap).card

theorem card_members_le {n : Nat} (map : Vector Word n) : (members map).card ≤ 64 * n := by
  have h := Finset.card_filter_le (Finset.range (64 * n)) fun i => bit map i = true
  rwa [Finset.card_range] at h

theorem Counted.free_frames_le {p : PmmInner} (h : Counted p) : p.free_frames ≤ MAX_FRAMES := by
  rw [h, MAX_FRAMES_eq]
  exact card_members_le p.bitmap

-- The fields that neither the free count nor the bitmap is about.
structure SameRecord (p p' : PmmInner) : Prop where
  total_frames : p'.total_frames = p.total_frames
  bad_frames : p'.bad_frames = p.bad_frames
  unmapped_bytes : p'.unmapped_bytes = p.unmapped_bytes
  initialised : p'.initialised = p.initialised

theorem SameRecord.refl (p : PmmInner) : SameRecord p p := ⟨rfl, rfl, rfl, rfl⟩

theorem SameRecord.trans {p q r : PmmInner} (h : SameRecord p q) (h' : SameRecord q r) :
    SameRecord p r :=
  ⟨h'.total_frames.trans h.total_frames, h'.bad_frames.trans h.bad_frames,
    h'.unmapped_bytes.trans h.unmapped_bytes, h'.initialised.trans h.initialised⟩

end Counters

section Ranges

-- What freeing or reserving a set of frames does to the locked structure.
structure Freed (p : PmmInner) (frames : Finset Nat) (p' : PmmInner) : Prop where
  bitmap : members p'.bitmap = members p.bitmap ∪ frames
  counted : Counted p'
  reserved_frames : p'.reserved_frames = p.reserved_frames
  record : SameRecord p p'

structure Reserved (p : PmmInner) (frames : Finset Nat) (p' : PmmInner) : Prop where
  bitmap : members p'.bitmap = members p.bitmap \ frames
  counted : Counted p'
  reserved_frames : p'.free_frames + p'.reserved_frames = p.free_frames + p.reserved_frames
  record : SameRecord p p'

variable {p : PmmInner}

theorem Freed.none (hp : Counted p) : Freed p ∅ p :=
  ⟨by simp, hp, rfl, .refl p⟩

theorem Reserved.none (hp : Counted p) : Reserved p ∅ p :=
  ⟨by simp, hp, rfl, .refl p⟩

theorem free_frame_spec {idx : Nat} (hp : Counted p) (hidx : idx < MAX_FRAMES) :
    Ends (Freed p {idx}) (fun _ => False) (p.free_frame idx) := by
  rw [PmmInner.free_frame, bit_test_ok _ (MAX_FRAMES_eq ▸ hidx), ok_bind]
  split
  · rename_i hb
    have hmem : idx ∈ members p.bitmap := mem_members.mpr hb
    exact ⟨by simp [hmem], hp, rfl, .refl p⟩
  · rename_i hb
    have hmem : idx ∉ members p.bitmap := mt mem_members.mp hb
    have hle := hp.free_frames_le
    obtain ⟨map', hset, hmap'⟩ := bit_set_ok p.bitmap (MAX_FRAMES_eq ▸ hidx)
    rw [hset, ok_bind, add_of_lt (by rw [WORD_eq]; rw [MAX_FRAMES_val] at hle; omega), ok_bind]
    refine ⟨?_, ?_, rfl, ⟨rfl, rfl, rfl, rfl⟩⟩
    · rw [hmap', Finset.insert_eq, Finset.union_comm]
    · unfold Counted at hp ⊢
      rw [hmap', Finset.card_insert_of_notMem hmem, hp]

-- The one check that can fail is the count of reserved frames, and only where the two
-- counters together no longer fit.
theorem reserve_frame_spec {idx : Nat} (hp : Counted p) (hidx : idx < MAX_FRAMES) :
    Ends (Reserved p {idx})
      (fun e => e = .addOverflow ∧ WORD ≤ p.free_frames + p.reserved_frames)
      (p.reserve_frame idx) := by
  rw [PmmInner.reserve_frame, bit_test_ok _ (MAX_FRAMES_eq ▸ hidx), ok_bind]
  split
  · rename_i hb
    have hmem : idx ∈ members p.bitmap := mem_members.mpr hb
    have hpos : 1 ≤ p.free_frames := by
      rw [hp]
      exact Finset.card_pos.mpr ⟨idx, hmem⟩
    obtain ⟨map', hclear, hmap'⟩ := bit_clear_ok p.bitmap (MAX_FRAMES_eq ▸ hidx)
    rw [hclear, ok_bind, sub_of_le hpos, ok_bind]
    by_cases hw : WORD ≤ p.reserved_frames + 1
    · rw [add_of_ge hw]
      exact ⟨rfl, by omega⟩
    rw [add_of_lt (Nat.lt_of_not_le hw), ok_bind]
    refine ⟨?_, ?_, ?_, ⟨rfl, rfl, rfl, rfl⟩⟩
    · rw [hmap', Finset.sdiff_singleton_eq_erase]
    · unfold Counted at hp ⊢
      rw [hmap', Finset.card_erase_of_mem hmem, hp]
    · dsimp only
      omega
  · rename_i hb
    have hmem : idx ∉ members p.bitmap := mt mem_members.mp hb
    refine ⟨?_, hp, rfl, .refl p⟩
    rw [Finset.sdiff_singleton_eq_erase, Finset.erase_eq_of_notMem hmem]

theorem Freed.trans {p' p'' : PmmInner} {A B : Finset Nat} (h : Freed p A p')
    (h' : Freed p' B p'') : Freed p (A ∪ B) p'' := by
  refine ⟨?_, h'.counted, h'.reserved_frames.trans h.reserved_frames, h.record.trans h'.record⟩
  rw [h'.bitmap, h.bitmap, Finset.union_assoc]

theorem Reserved.trans {p' p'' : PmmInner} {A B : Finset Nat} (h : Reserved p A p')
    (h' : Reserved p' B p'') : Reserved p (A ∪ B) p'' := by
  refine ⟨?_, h'.counted, h'.reserved_frames.trans h.reserved_frames, h.record.trans h'.record⟩
  rw [h'.bitmap, h.bitmap, sdiff_sdiff_left, Finset.sup_eq_union]

theorem Ico_union_self {lo j : Nat} (h : lo ≤ j) :
    Finset.Ico lo j ∪ {j} = Finset.Ico lo (j + 1) := by
  ext k
  simp only [Finset.mem_union, Finset.mem_Ico, Finset.mem_singleton]
  omega

theorem Ico_max_right (lo hi : Nat) : Finset.Ico lo (max lo hi) = Finset.Ico lo hi := by
  ext k
  simp only [Finset.mem_Ico]
  omega

theorem free_range_spec {start stop : Nat} (hp : Counted p) :
    Ends (Freed p (contained start stop))
      (fun e => e = .addOverflow ∧ WORD ≤ start + FRAME_SIZE) (p.free_range start stop) := by
  unfold PmmInner.free_range
  by_cases hle : stop ≤ start
  · rw [if_pos hle, contained_eq_empty hle]
    exact .none hp
  rw [if_neg hle]
  by_cases hw : WORD ≤ start + FRAME_SIZE
  · rw [add_of_ge hw]
    exact ⟨rfl, hw⟩
  rw [add_of_lt (Nat.lt_of_not_le hw), ok_bind, sub_of_le (by unfold FRAME_SIZE; omega), ok_bind,
    contained_eq_Ico]
  dsimp only
  have hlast := Nat.min_le_right (min stop MAX_PHYS / FRAME_SIZE) MAX_FRAMES
  generalize (start + FRAME_SIZE - 1) / FRAME_SIZE = first
  generalize min (min stop MAX_PHYS / FRAME_SIZE) MAX_FRAMES = last at hlast
  rw [← Ico_max_right]
  refine ends_forRange (fun j p' => Freed p (Finset.Ico first j) p') ?_ fun j p' h1 h2 hI => ?_
  · rw [Finset.Ico_self]
    exact .none hp
  · refine (free_frame_spec hI.counted (by omega)).mono (fun p'' h => ?_) (fun _ => False.elim)
    rw [← Ico_union_self h1]
    exact hI.trans h

theorem reserve_range_ends (start stop : Nat) (hp : Counted p) :
    Ends (Reserved p (touched start stop))
      (fun e => e = .addOverflow ∧ (start < stop ∧ WORD ≤ stop + FRAME_SIZE ∨
        WORD ≤ p.free_frames + p.reserved_frames))
      (p.reserve_range start stop) := by
  unfold PmmInner.reserve_range
  by_cases hle : stop ≤ start
  · rw [if_pos hle, touched_eq_empty hle]
    exact .none hp
  have hlt : start < stop := Nat.lt_of_not_le hle
  rw [if_neg hle]
  by_cases hw : WORD ≤ stop + FRAME_SIZE
  · rw [add_of_ge hw]
    exact ⟨rfl, .inl ⟨hlt, hw⟩⟩
  rw [add_of_lt (Nat.lt_of_not_le hw), ok_bind, sub_of_le (by unfold FRAME_SIZE; omega), ok_bind,
    touched_eq_Ico hlt]
  dsimp only
  have hlast := Nat.min_le_right ((stop + FRAME_SIZE - 1) / FRAME_SIZE) MAX_FRAMES
  generalize start / FRAME_SIZE = first
  generalize min ((stop + FRAME_SIZE - 1) / FRAME_SIZE) MAX_FRAMES = last at hlast
  rw [← Ico_max_right]
  refine ends_forRange (fun j p' => Reserved p (Finset.Ico first j) p') ?_ fun j p' h1 h2 hI => ?_
  · rw [Finset.Ico_self]
    exact .none hp
  · have hsum := hI.reserved_frames
    refine (reserve_frame_spec hI.counted (by omega)).mono (fun p'' h => ?_)
      (fun e he => ⟨he.1, .inr (by have := he.2; omega)⟩)
    rw [← Ico_union_self h1]
    exact hI.trans h

theorem reserve_range_spec (start stop : Nat) (hp : Counted p)
    (hsum : p.free_frames + p.reserved_frames < WORD) :
    Ends (Reserved p (touched start stop))
      (fun e => e = .addOverflow ∧ start < stop ∧ WORD ≤ stop + FRAME_SIZE)
      (p.reserve_range start stop) := by
  refine (reserve_range_ends start stop hp).mono (fun _ => id) ?_
  rintro e ⟨he, hend | hfull⟩
  · exact ⟨he, hend⟩
  · exact absurd hsum (Nat.not_lt.mpr hfull)

-- A reservation that returns has rounded its end up without overflow.
theorem reserve_range_fits {p' : PmmInner} {start stop : Nat}
    (h : p.reserve_range start stop = .ok p') (hlt : start < stop) : stop + FRAME_SIZE < WORD := by
  rw [PmmInner.reserve_range, if_neg (Nat.not_le.mpr hlt)] at h
  obtain ⟨sum, hsum, -⟩ := bind_eq_ok.mp h
  exact (add_eq_ok.mp hsum).1

end Ranges

section Frames

variable {p : State}

-- `count` frames from `s` on leave the free set and the cursor moves past them.
structure Granted (p : State) (count s : Nat) (p' : State) : Prop where
  stop_le : s + count ≤ MAX_FRAMES
  free : Finset.Ico s (s + count) ⊆ members p.inner.bitmap
  bitmap : members p'.inner.bitmap = members p.inner.bitmap \ Finset.Ico s (s + count)
  counted : Counted p'.inner
  reserved_frames : p'.inner.reserved_frames = p.inner.reserved_frames
  record : SameRecord p.inner p'.inner
  cursor : p'.cursor = s + count
  memory : p'.memory = p.memory

-- A request for no frames is answered with the cursor itself.
def Answered (p : State) (count align : Nat) : Option Nat → State → Prop
  | none, p' => p' = p ∧ 1 ≤ count ∧
      NextFit p.inner.bitmap (min p.cursor MAX_FRAMES) count (run_align count align) none
  | some s, p' => Granted p count s p' ∧ (count = 0 → s = min p.cursor MAX_FRAMES) ∧
      (1 ≤ count →
        NextFit p.inner.bitmap (min p.cursor MAX_FRAMES) count (run_align count align) (some s))

theorem clear_run_spec {n : Nat} (map : Vector Word n) {s count : Nat} (h : s + count ≤ 64 * n)
    (hw : s + count < WORD) :
    Ends (fun map' => members map' = members map \ Finset.Ico s (s + count)) (fun _ => False)
      (forRange 0 count map fun i map => do bit_clear map (← add s i)) := by
  have hloop : Ends (fun map' => members map' = members map \ Finset.Ico s (s + max 0 count))
      (fun _ => False) (forRange 0 count map fun i map => do bit_clear map (← add s i)) := by
    refine ends_forRange (fun j map' => members map' = members map \ Finset.Ico s (s + j))
      (by simp) fun j map' _ h2 hI => ?_
    obtain ⟨map'', hclear, hmap''⟩ := bit_clear_ok map' (show s + j < 64 * n by omega)
    rw [add_of_lt (by omega), ok_bind, hclear]
    change members map'' = _
    rw [hmap'', hI, ← Finset.sdiff_singleton_eq_erase, sdiff_sdiff_left, Finset.sup_eq_union,
      Ico_union_self (by omega), Nat.add_assoc]
  rwa [Nat.max_eq_right (Nat.zero_le count)] at hloop

theorem find_wrapping_zero {n : Nat} (map : Vector Word n) (start align : Nat) :
    find_wrapping map start 0 align = .ok (some start) := rfl

theorem grant_spec {count s : Nat} (hp : Counted p.inner) (hs : s + count ≤ MAX_FRAMES)
    (hfree : Finset.Ico s (s + count) ⊆ members p.inner.bitmap) :
    Ends (fun r => r.1 = some s ∧ Granted p count s r.2) (fun _ => False) (do
      let bitmap ← forRange 0 count p.inner.bitmap fun i map => do bit_clear map (← add s i)
      let free_frames ← sub p.inner.free_frames count
      let cursor ← add s count
      return (some s, { p with inner := { p.inner with bitmap, free_frames }, cursor })) := by
  have hfit : s + count < WORD := by
    rw [WORD_eq]
    rw [MAX_FRAMES_val] at hs
    omega
  have hcard : (Finset.Ico s (s + count)).card = count := by simp
  have hle : count ≤ p.inner.free_frames := by
    rw [hp, ← hcard]
    exact Finset.card_le_card hfree
  refine (clear_run_spec p.inner.bitmap (MAX_FRAMES_eq ▸ hs) hfit).bind fun map' hmap' => ?_
  rw [sub_of_le hle, ok_bind, add_of_lt hfit, ok_bind]
  refine ⟨rfl, hs, hfree, hmap', ?_, rfl, ⟨rfl, rfl, rfl, rfl⟩, rfl, rfl⟩
  unfold Counted at hp ⊢
  rw [hmap', Finset.card_sdiff_of_subset hfree, hcard, hp]

theorem allocate_spec (count align : Nat) (hinit : p.inner.initialised = true)
    (hp : Counted p.inner) :
    Ends (fun r => Answered p count align r.1 r.2)
      (RunOverflow (MAX_FRAMES + max align 1 + count)) (p.allocate count align) := by
  have hcursor : min p.cursor MAX_FRAMES ≤ MAX_FRAMES := Nat.min_le_right _ _
  rw [State.allocate, if_pos hinit]
  rcases Nat.eq_zero_or_pos count with rfl | hc
  · rw [find_wrapping_zero, ok_bind]
    refine (grant_spec hp hcursor (by simp)).mono ?_ (fun _ => False.elim)
    rintro ⟨r, p'⟩ ⟨rfl, h⟩
    exact ⟨h, fun _ => rfl, fun h => absurd h (by omega)⟩
  · refine (find_wrapping_spec p.inner.bitmap MAX_FRAMES_eq hcursor hc).bind fun r hr => ?_
    cases r with
    | none => exact ⟨rfl, hc, hr⟩
    | some s =>
        obtain ⟨-, hle, hrun⟩ := hr.runAt _ hcursor
        have hfree : Finset.Ico s (s + count) ⊆ members p.inner.bitmap := by
          intro f hf
          obtain ⟨h1, h2⟩ := Finset.mem_Ico.mp hf
          obtain ⟨i, rfl⟩ := Nat.exists_eq_add_of_le h1
          exact mem_members.mpr (hrun i (by omega))
        refine (grant_spec hp hle hfree).mono ?_ (fun _ => False.elim)
        rintro ⟨r, p'⟩ ⟨rfl, h⟩
        exact ⟨h, fun h => absurd h (by omega), fun _ => hr⟩

theorem canary_ok_iff {debug : Bool} {memory : Nat → Word} {phys : Nat}
    (h : phys / FRAME_SIZE < MAX_FRAMES) :
    canary_ok debug memory phys = true ↔
      (debug = true → memory (phys / FRAME_SIZE) ≠ FREE_CANARY) := by
  have hmapped : Arch.phys_is_boot_mapped phys = true := by
    have hdef : MAX_PHYS = MAX_FRAMES * FRAME_SIZE := rfl
    have hlt : phys < MAX_PHYS := by
      rw [hdef]
      exact (Nat.div_lt_iff_lt_mul (by decide)).mp h
    exact decide_eq_true hlt
  cases debug with
  | false => simp [canary_ok]
  | true => simp [canary_ok, Nat.not_le.mpr h, hmapped]

-- One frame goes back to the free set, and a debug build marks it.
structure GivenBack (debug : Bool) (p : State) (idx : Nat) (p' : State) : Prop where
  lt : idx < MAX_FRAMES
  used : idx ∉ members p.inner.bitmap
  bitmap : members p'.inner.bitmap = insert idx (members p.inner.bitmap)
  counted : Counted p'.inner
  reserved_frames : p'.inner.reserved_frames = p.inner.reserved_frames
  record : SameRecord p.inner p'.inner
  cursor : p'.cursor = p.cursor
  memory : p'.memory = if debug then Function.update p.memory idx FREE_CANARY else p.memory

-- The three refusals of `deallocate`, each with its message.
def Refused (debug : Bool) (p : State) (phys : Nat) (e : Panic) : Prop :=
  (MAX_FRAMES ≤ phys / FRAME_SIZE ∧ e = .explicit (outside_range phys)) ∨
  (phys / FRAME_SIZE ∈ members p.inner.bitmap ∧
    e = .explicit (double_free (phys / FRAME_SIZE) phys)) ∨
  (debug = true ∧ p.memory (phys / FRAME_SIZE) = FREE_CANARY ∧
    e = .explicit (modified_after_free (phys / FRAME_SIZE) phys))

theorem deallocate_spec (debug : Bool) (phys : Nat) (hp : Counted p.inner) :
    Ends (fun p' => GivenBack debug p (phys / FRAME_SIZE) p' ∧
        (debug = true → p.memory (phys / FRAME_SIZE) ≠ FREE_CANARY))
      (Refused debug p phys) (p.deallocate debug phys) := by
  unfold State.deallocate
  dsimp only
  split
  · exact .inl ⟨‹_›, rfl⟩
  rename_i hlt
  have hlt : phys / FRAME_SIZE < MAX_FRAMES := Nat.lt_of_not_le hlt
  rw [bit_test_ok _ (MAX_FRAMES_eq ▸ hlt), ok_bind]
  split
  · exact .inr (.inl ⟨mem_members.mpr ‹_›, rfl⟩)
  rename_i hused
  split
  · rename_i hbad
    have hbad : ¬ canary_ok debug p.memory phys = true := by simpa using hbad
    rw [canary_ok_iff hlt] at hbad
    simp only [Classical.not_imp, not_not] at hbad
    exact .inr (.inr ⟨hbad.1, hbad.2, rfl⟩)
  rename_i hok
  have hok : canary_ok debug p.memory phys = true := by simpa using hok
  have hmem : phys / FRAME_SIZE ∉ members p.inner.bitmap := mt mem_members.mp hused
  have hle := hp.free_frames_le
  obtain ⟨map', hset, hmap'⟩ := bit_set_ok p.inner.bitmap (MAX_FRAMES_eq ▸ hlt)
  rw [hset, ok_bind, add_of_lt (by rw [WORD_eq]; rw [MAX_FRAMES_val] at hle; omega), ok_bind]
  refine ⟨⟨hlt, hmem, hmap', ?_, rfl, ⟨rfl, rfl, rfl, rfl⟩, rfl, rfl⟩, (canary_ok_iff hlt).mp hok⟩
  unfold Counted at hp ⊢
  rw [hmap', Finset.card_insert_of_notMem hmem, hp]

end Frames

end Orin.Memory.Pmm
