import Orin.Memory.Pmm.Theorems

namespace Orin.Memory.Pmm

open Rust Bitmap Multiboot Theory

variable {debug : Bool} {memory : Nat → Word} {info : BootInfo} {start s s' : System}
  {history : List Call}

section Reachable

-- Callers that may also give back what they do not own.
def System.AnyCall (_ : System) (_ : Op) : Prop := True

-- What every call keeps, whoever makes it.
structure Sound (p : PmmInner) : Prop where
  counted : Counted p
  initialised : p.initialised = true

theorem Sound.step {op : Op} {answer : Option PhysFrame} (h : Sound s.pmm.inner)
    (hs : s.step debug op = .ok (answer, s')) : Sound s'.pmm.inner := by
  have hanswered : ∀ {count align : Nat} {r : Option Nat} {p : State},
      Answered s.pmm count align r p → Sound p.inner := by
    intro count align r p hr
    cases r with
    | none => exact hr.1 ▸ h
    | some f => exact ⟨hr.1.counted, hr.1.record.initialised.trans h.initialised⟩
  cases op with
  | reserve_range a b =>
      obtain ⟨p, hp, hs⟩ := bind_eq_ok.mp hs
      obtain ⟨inner, hinner, hp⟩ := bind_eq_ok.mp hp
      cases hp
      cases hs
      have hr := (reserve_range_ends a.toNat b.toNat h.counted).of_eq_ok hinner
      exact ⟨hr.counted, hr.record.initialised.trans h.initialised⟩
  | allocate_frame =>
      obtain ⟨⟨r, p⟩, hp, hs⟩ := bind_eq_ok.mp hs
      cases hs
      exact hanswered ((allocate_contiguous_spec 1 1 h.initialised h.counted).of_eq_ok hp)
  | allocate_contiguous count align =>
      obtain ⟨⟨r, p⟩, hp, hs⟩ := bind_eq_ok.mp hs
      cases hs
      exact hanswered ((allocate_contiguous_spec count.toNat align.toNat h.initialised
        h.counted).of_eq_ok hp)
  | deallocate_frame frame =>
      obtain ⟨p, hp, hs⟩ := bind_eq_ok.mp hs
      cases hs
      have hg := ((deallocate_spec debug frame.start_address h.counted).of_eq_ok hp).1
      exact ⟨hg.counted, hg.record.initialised.trans h.initialised⟩
  | write frame word =>
      cases hs
      exact h

theorem sound_run {legal : System → Op → Prop} (hboot : System.boot memory info = .ok start)
    (hrun : Run legal (System.step debug) start history s) : Sound s.pmm.inner := by
  have hb := ((boot_spec memory info).of_eq_ok hboot).1
  exact hrun.invariant (fun s => Sound s.pmm.inner) ⟨hb.counted, hb.initialised⟩
    fun _ _ _ _ h _ hs => h.step hs

end Reachable

section Contract

variable {p p' : State} {count align_frames : Nat}

def State.withCursor (p : State) (cursor : Nat) : State := { p with cursor }

-- Sizes and alignments up to the managed range never overflow the search.
theorem contiguous_answers (h : Sound p.inner) (hcount : count ≤ MAX_FRAMES)
    (halign : align_frames ≤ MAX_FRAMES) :
    ∃ answer p', p.allocate_contiguous count align_frames = .ok (answer, p') ∧
      Answered p count align_frames (answer.map PhysFrame.index) p' := by
  have hspec := allocate_contiguous_spec count align_frames h.initialised h.counted
  cases hr : p.allocate_contiguous count align_frames with
  | ok r => exact ⟨r.1, r.2, rfl, hspec.of_eq_ok hr⟩
  | error e =>
      have hover := (hspec.of_eq_error hr).1
      rw [MAX_FRAMES_val] at hcount halign hover
      rw [WORD_eq] at hover
      omega

-- What the caller of `allocate_contiguous` is promised about the run from `s` on.
structure Honoured (p : State) (count align_frames s : Nat) (p' : State) : Prop where
  aligned : align_frames ∣ s
  stop_le : s + count ≤ MAX_FRAMES
  was_free : ∀ f, s ≤ f → f < s + count → bit p.inner.bitmap f = true
  now_used : ∀ f, s ≤ f → f < s + count → bit p'.inner.bitmap f = false
  others : ∀ f, ¬ (s ≤ f ∧ f < s + count) → bit p'.inner.bitmap f = bit p.inner.bitmap f
  free_frames : p'.inner.free_frames + count = p.inner.free_frames

theorem Granted.bit_after {s : Nat} (h : Granted p count s p') (f : Nat) :
    bit p'.inner.bitmap f = true ↔ bit p.inner.bitmap f = true ∧ ¬ (s ≤ f ∧ f < s + count) := by
  rw [← mem_members, h.bitmap, Finset.mem_sdiff, mem_members, Finset.mem_Ico]

-- Everything but the alignment follows from the grant.
theorem Granted.honoured {s : Nat} (h : Granted p count s p') (hp : Counted p.inner)
    (haligned : align_frames ∣ s) : Honoured p count align_frames s p' := by
  refine ⟨haligned, h.stop_le, fun f h1 h2 => ?_, fun f h1 h2 => ?_, fun f hf => ?_, ?_⟩
  · exact mem_members.mp (h.free (Finset.mem_Ico.mpr ⟨h1, h2⟩))
  · rw [Bool.eq_false_iff]
    exact fun hbit => ((h.bit_after f).mp hbit).2 ⟨h1, h2⟩
  · rw [Bool.eq_iff_iff, h.bit_after f]
    exact and_iff_left hf
  · have hcard := Finset.card_sdiff_add_card_eq_card h.free
    rw [← h.bitmap, Nat.card_Ico, Nat.add_sub_cancel_left] at hcard
    rw [h.counted, hp, hcard]

theorem run_align_of_ne (hcount : count ≠ 1) (halign : 1 ≤ align_frames) :
    run_align count align_frames = align_frames := by
  rw [run_align, if_neg hcount]
  omega

-- A single frame is aligned only by luck: the fast path takes the first one it meets.
theorem contract_iff (debug : Bool) (memory : Nat → Word) (info : BootInfo) (start s : System)
    (history : List Call) (hboot : System.boot memory info = .ok start)
    (hrun : Run System.AnyCall (System.step debug) start history s)
    (cursor count align_frames : Nat) (hcount : 1 ≤ count) (hcount_le : count ≤ MAX_FRAMES)
    (halign : 1 ≤ align_frames) (halign_le : align_frames ≤ MAX_FRAMES) :
    (∃ answer p', (s.pmm.withCursor cursor).allocate_contiguous count align_frames =
      .ok (answer, p')) ∧
    ((∀ frame p', (s.pmm.withCursor cursor).allocate_contiguous count align_frames =
        .ok (some frame, p') →
      Honoured (s.pmm.withCursor cursor) count align_frames frame.index p') ↔
    (count = 1 → ∀ f, FirstFree s.pmm.inner.bitmap (min cursor MAX_FRAMES) f →
      align_frames ∣ f)) := by
  have hsound : Sound (s.pmm.withCursor cursor).inner := sound_run hboot hrun
  obtain ⟨answer, p', hr, hanswer⟩ := contiguous_answers hsound hcount_le halign_le
  refine ⟨⟨answer, p', hr⟩, fun hall => ?_, fun hcond frame p'' hr' => ?_⟩
  · rintro rfl f hfirst
    cases answer with
    | none =>
        have hmem : f ∈ members s.pmm.inner.bitmap := mem_members.mpr hfirst.free
        rw [show members s.pmm.inner.bitmap = ∅ from hanswer.eq_empty_of_none] at hmem
        exact absurd hmem (Finset.notMem_empty f)
    | some frame =>
        have hindex : frame.index = f :=
          ((hanswer.2.2 hcount).firstFree _ MAX_FRAMES_eq).unique _ hfirst
        exact hindex ▸ (hall frame p' hr).aligned
  · rw [hr] at hr'
    cases hr'
    have hfit := hanswer.2.2 hcount
    refine hanswer.1.honoured hsound.counted ?_
    by_cases hone : count = 1
    · subst hone
      exact hcond rfl _ (hfit.firstFree _ MAX_FRAMES_eq)
    · rw [run_align_of_ne hone halign] at hfit
      exact (hfit.runAt _ (Nat.min_le_right _ _)).1

-- From frame 2 on the first free frame is an even one, and the request is met.
theorem contract_iff_even_frame :
    ∃ start frame p', System.boot (fun _ => 0) two_frames = .ok start ∧
      (start.pmm.withCursor 2).allocate_contiguous 1 2 = .ok (some frame, p') ∧ frame.index = 2 ∧
      Honoured (start.pmm.withCursor 2) 1 2 frame.index p' := by
  obtain ⟨start, L, hboot, hb, hfree, -⟩ := boot_two_frames fun _ => 0
  have hfirst : FirstFree start.pmm.inner.bitmap (min 2 MAX_FRAMES) 2 := by
    have hbit : ∀ g, bit start.pmm.inner.bitmap g = true ↔ g = 1 ∨ g = 2 := by
      intro g
      rw [← mem_members, hb.free, hfree]
      simp
    exact .inl ⟨⟨(hbit 2).mpr (.inr rfl), by decide⟩, fun g hg => hg.2⟩
  have hcontract := contract_iff true _ _ start start [] hboot .nil 2 1 2 (by decide) (by decide)
    (by decide) (by decide)
  have hmet := hcontract.2.mpr fun _ f hf => by rw [hf.unique _ hfirst]
  obtain ⟨answer, p', hr, hanswer⟩ := contiguous_answers (p := start.pmm.withCursor 2)
    ⟨hb.counted, hb.initialised⟩ (show 1 ≤ MAX_FRAMES by decide) (show 2 ≤ MAX_FRAMES by decide)
  cases answer with
  | none =>
      have hmem := mem_members.mpr hfirst.free
      rw [show members start.pmm.inner.bitmap = ∅ from hanswer.eq_empty_of_none] at hmem
      exact absurd hmem (Finset.notMem_empty 2)
  | some frame =>
      have hindex : frame.index = 2 :=
        ((hanswer.2.2 (Nat.le_refl 1)).firstFree _ MAX_FRAMES_eq).unique _ hfirst
      exact ⟨start, frame, p', hboot, hr, hindex, hmet frame p' hr⟩

-- One frame asked for on an even boundary: frame 1.
theorem single_frame_unaligned :
    ∃ start p', System.boot (fun _ => 0) one_frame = .ok start ∧
      start.pmm.allocate_contiguous 1 2 = .ok (some (.ofIndex 1), p') ∧
      ¬ Honoured start.pmm 1 2 (PhysFrame.ofIndex 1).index p' := by
  obtain ⟨start, L, hboot, hb, hfree, -⟩ := boot_one_frame fun _ => 0
  obtain ⟨s', L', hs, -⟩ := hb.allocate_only_frame true hfree
  obtain ⟨⟨answer, p'⟩, hp, hs⟩ := bind_eq_ok.mp hs
  cases hs
  -- The alignment is not looked at, so this is `allocate_frame`.
  refine ⟨start, p', hboot, hp, fun h => ?_⟩
  rw [PhysFrame.index_ofIndex] at h
  exact absurd h.aligned (by decide)

-- A run across the cursor is looked for on neither side of it.
theorem refusal_iff (debug : Bool) (memory : Nat → Word) (info : BootInfo) (start s : System)
    (history : List Call) (hboot : System.boot memory info = .ok start)
    (hrun : Run System.AnyCall (System.step debug) start history s)
    (cursor count align_frames : Nat) (hcount : 2 ≤ count) (hcount_le : count ≤ MAX_FRAMES)
    (halign : 1 ≤ align_frames) (halign_le : align_frames ≤ MAX_FRAMES) :
    (∃ answer p', (s.pmm.withCursor cursor).allocate_contiguous count align_frames =
      .ok (answer, p')) ∧
    ((∀ p', (s.pmm.withCursor cursor).allocate_contiguous count align_frames = .ok (none, p') →
      (¬ ∃ f, RunAt s.pmm.inner.bitmap MAX_FRAMES count align_frames f) ∧
        p' = s.pmm.withCursor cursor) ↔
    ((∃ f, RunAt s.pmm.inner.bitmap MAX_FRAMES count align_frames f) →
      ∃ f, RunAt s.pmm.inner.bitmap MAX_FRAMES count align_frames f ∧
        (min cursor MAX_FRAMES ≤ f ∨ f + count ≤ min cursor MAX_FRAMES))) := by
  have hsound : Sound (s.pmm.withCursor cursor).inner := sound_run hboot hrun
  have hclamp : min cursor MAX_FRAMES ≤ MAX_FRAMES := Nat.min_le_right _ _
  have hrunAlign : run_align count align_frames = align_frames :=
    run_align_of_ne (by omega) halign
  obtain ⟨answer, p', hr, hanswer⟩ := contiguous_answers hsound hcount_le halign_le
  refine ⟨⟨answer, p', hr⟩, fun hall hexists => ?_, fun hcond p'' hr' => ?_⟩
  · cases answer with
    | none => exact absurd hexists (hall p' hr).1
    | some frame =>
        have hfit := hanswer.2.2 (by omega)
        rw [hrunAlign] at hfit
        exact ⟨frame.index, hfit.runAt _ hclamp, hfit.beside⟩
  · rw [hr] at hr'
    cases hr'
    have hfit := hanswer.2.2
    rw [hrunAlign] at hfit
    have hacross := (nextFit_none_iff _ hclamp (by omega)).mp hfit
    refine ⟨fun hexists => ?_, hanswer.1⟩
    obtain ⟨f, hf, hside⟩ := hcond hexists
    have := hacross f hf
    omega

-- A request for three is refused, and there are no three.
theorem refusal_iff_three_frames :
    ∃ start p', System.boot (fun _ => 0) two_frames = .ok start ∧
      (start.pmm.withCursor 0).allocate_contiguous 3 1 = .ok (none, p') ∧
      (¬ ∃ f, RunAt start.pmm.inner.bitmap MAX_FRAMES 3 1 f) ∧ p' = start.pmm.withCursor 0 := by
  obtain ⟨start, L, hboot, hb, hfree, -⟩ := boot_two_frames fun _ => 0
  have hnone : ¬ ∃ f, RunAt start.pmm.inner.bitmap MAX_FRAMES 3 1 f := by
    rintro ⟨f, -, -, hrun⟩
    have hbit : ∀ i < 3, f + i = 1 ∨ f + i = 2 := by
      intro i hi
      have hmem := mem_members.mpr (hrun i hi)
      rw [hb.free, hfree] at hmem
      simpa using hmem
    have h0 := hbit 0 (by decide)
    have h1 := hbit 1 (by decide)
    have h2 := hbit 2 (by decide)
    omega
  have hrefusal := refusal_iff true _ _ start start [] hboot .nil 0 3 1 (by decide) (by decide)
    (by decide) (by decide)
  have hright := hrefusal.2.mpr fun h => absurd h hnone
  obtain ⟨answer, p', hr, hanswer⟩ := contiguous_answers (p := start.pmm.withCursor 0)
    ⟨hb.counted, hb.initialised⟩ (show 3 ≤ MAX_FRAMES by decide) (show 1 ≤ MAX_FRAMES by decide)
  cases answer with
  | none => exact ⟨start, p', hboot, hr, hright p' hr⟩
  | some frame =>
      have hfit := hanswer.2.2 (by decide)
      exact absurd ⟨_, hfit.runAt _ (Nat.min_le_right _ _)⟩ hnone

theorem deallocate_cursor {frame : PhysFrame} {answer : Option PhysFrame}
    (hp : Counted s.pmm.inner) (hs : s.step debug (.deallocate_frame frame) = .ok (answer, s')) :
    s'.pmm.cursor = s.pmm.cursor := by
  obtain ⟨p, hp', hs⟩ := bind_eq_ok.mp hs
  cases hs
  exact ((deallocate_spec debug frame.start_address hp).of_eq_ok hp').1.cursor

-- Frame 1 is taken and given back. Both frames are free again, the cursor is between
-- them, and a request for two is refused.
theorem run_across_cursor_missed :
    ∃ start history s p', System.boot (fun _ => 0) two_frames = .ok start ∧
      Run System.Legal (System.step true) start history s ∧
      history.map Event.op = [.allocate_frame, .deallocate_frame (.ofIndex 1)] ∧
      s.pmm.cursor = 2 ∧ RunAt s.pmm.inner.bitmap MAX_FRAMES 2 1 1 ∧
      s.pmm.allocate_contiguous 2 1 = .ok (none, p') := by
  obtain ⟨s0, L0, hboot, hb0, hfree0, hmemory0, hcursor0⟩ := boot_two_frames fun _ => 0
  have hbit0 : ∀ g, bit s0.pmm.inner.bitmap g = true ↔ g = 1 ∨ g = 2 := by
    intro g
    rw [← mem_members, hb0.free, hfree0]
    simp
  have hfirst : FirstFree s0.pmm.inner.bitmap (min s0.pmm.cursor MAX_FRAMES) 1 := by
    rw [hcursor0]
    refine .inl ⟨⟨(hbit0 1).mpr (.inl rfl), by omega⟩, fun g hg => ?_⟩
    rcases (hbit0 g).mp hg.1 with rfl | rfl <;> omega
  obtain ⟨s1, L1, h1, hb1, hfree1, howned1, hmemory1, hcursor1⟩ := hb0.allocate_first true hfirst
  have hmem : 1 ∈ L1.owned := by simp [howned1]
  obtain ⟨s2, L2, h2, hb2, hfree2, -, -⟩ := hb1.deallocate_owned true hmem fun _ => by
    rw [hmemory1, hmemory0]
    decide
  have hcursor2 : s2.pmm.cursor = 2 := (deallocate_cursor hb1.counted h2).trans hcursor1
  have hbit2 : ∀ g, bit s2.pmm.inner.bitmap g = true ↔ g = 1 ∨ g = 2 := by
    intro g
    rw [← mem_members, hb2.free, hfree2, hfree1, hfree0]
    simp
  have hlegal : s1.Legal (.deallocate_frame (.ofIndex 1)) := by
    simpa [System.Legal] using hb1.mem_owned.mpr hmem
  have halloc : s0.Legal .allocate_frame := trivial
  have hrun := (Run.nil.snoc halloc h1).snoc hlegal h2
  have hpair : RunAt s2.pmm.inner.bitmap MAX_FRAMES 2 1 1 :=
    ⟨Nat.one_dvd 1, by decide, fun i hi => (hbit2 (1 + i)).mpr (by omega)⟩
  obtain ⟨answer, p', hr, hanswer⟩ := contiguous_answers
    ⟨hb2.counted, hb2.initialised⟩ (show 2 ≤ MAX_FRAMES by decide) (show 1 ≤ MAX_FRAMES by decide)
  cases answer with
  | none => exact ⟨s0, _, s2, p', hboot, hrun, rfl, hcursor2, hpair, hr⟩
  | some frame =>
      have hfit := hanswer.2.2 (by omega)
      rw [hcursor2] at hfit
      have hfree := (hfit.runAt _ (Nat.min_le_right _ _)).2.2
      have hlow := (hbit2 _).mp (hfree 0 (by omega))
      have hhigh := (hbit2 _).mp (hfree 1 (by omega))
      have hside := hfit.beside
      rw [MAX_FRAMES_val] at hside
      omega

-- Single frames are handed out in cyclic order from the cursor.
theorem allocate_frame_next_fit (debug : Bool) (memory : Nat → Word) (info : BootInfo)
    (start s : System) (history : List Call) (hboot : System.boot memory info = .ok start)
    (hrun : Run System.AnyCall (System.step debug) start history s) (cursor : Nat) :
    ∃ answer p', (s.pmm.withCursor cursor).allocate_frame = .ok (answer, p') ∧
      (∀ f, IsLeast {g | s.free g ∧ min cursor MAX_FRAMES ≤ g} f → answer = some (.ofIndex f)) ∧
      ((∀ g, s.free g → g < min cursor MAX_FRAMES) →
        ∀ f, IsLeast {g | s.free g} f → answer = some (.ofIndex f)) ∧
      (answer = none ↔ ∀ g, ¬ s.free g) ∧
      (answer = none → p' = s.pmm.withCursor cursor) ∧
      ∀ frame, answer = some frame → s.free frame.index ∧ p'.cursor = frame.index + 1 := by
  have hsound : Sound (s.pmm.withCursor cursor).inner := sound_run hboot hrun
  obtain ⟨answer, p', hr, hanswer⟩ :=
    contiguous_answers hsound (show 1 ≤ MAX_FRAMES by decide) (show 1 ≤ MAX_FRAMES by decide)
  refine ⟨answer, p', hr, ?_⟩
  cases answer with
  | none =>
      have hempty : members s.pmm.inner.bitmap = ∅ := hanswer.eq_empty_of_none
      have hnone : ∀ g, ¬ s.free g := fun g hg => by
        have := mem_members.mpr hg
        simp [hempty] at this
      exact ⟨fun f hf => absurd hf.1.1 (hnone f), fun _ f hf => absurd hf.1 (hnone f),
        iff_of_true rfl hnone, fun _ => hanswer.1, fun frame h => by cases h⟩
  | some frame =>
      have hfirst := (hanswer.2.2 (Nat.le_refl 1)).firstFree _ MAX_FRAMES_eq
      have hindex : ∀ f, FirstFree s.pmm.inner.bitmap (min cursor MAX_FRAMES) f →
          some frame = some (PhysFrame.ofIndex f) := by
        intro f hf
        rw [← hfirst.unique _ hf, PhysFrame.ofIndex_index]
      refine ⟨fun f hf => hindex f (.inl hf), fun hbelow f hf => hindex f (.inr ⟨hbelow, hf⟩),
        iff_of_false (Option.some_ne_none frame) fun h => h _ hfirst.free,
        fun h => absurd h (Option.some_ne_none frame), fun frame' h => ?_⟩
      cases h
      exact ⟨hfirst.free, hanswer.1.cursor⟩

theorem allocate_frame_next_fit_wraps :
    ∃ start p', System.boot (fun _ => 0) two_frames = .ok start ∧
      (start.pmm.withCursor 7).allocate_frame = .ok (some (.ofIndex 1), p') := by
  obtain ⟨start, L, hboot, hb, hfree, -⟩ := boot_two_frames fun _ => 0
  have hmem : ∀ g, start.free g ↔ g = 1 ∨ g = 2 := by
    intro g
    rw [hb.free_iff, hfree]
    simp
  obtain ⟨answer, p', hr, -, hlow, -⟩ :=
    allocate_frame_next_fit true _ _ start start [] hboot .nil 7
  refine ⟨start, p', hboot, ?_⟩
  rw [hr, hlow (fun g hg => ?_) 1 ⟨(hmem 1).mpr (.inl rfl), fun g hg => ?_⟩]
  · rw [MAX_FRAMES_val]
    have := (hmem g).mp hg
    omega
  · have := (hmem g).mp hg
    omega

end Contract

end Orin.Memory.Pmm
