import Orin.Memory.Pmm.Fit
import Orin.Selftest.Frames

namespace Orin.Selftest

open Rust Bitmap Memory Memory.Pmm Theory

-- The allocator's tests in the order of `run_all`.
def pmm_tests (debug : Bool) (ks ke : Nat) (t : Suite System) : Except Panic (Suite System) := do
  let t ← run "pmm_unique" (test_pmm_unique debug ks ke) t
  let t ← run "pmm_reserve_excluded" (test_pmm_reserve_excluded debug ks ke) t
  let t ← run "pmm_contiguous_aligned" (test_pmm_contiguous debug) t
  let t ← run "pmm_double_free" (test_pmm_double_free debug) t
  run "pmm_no_boot_map_leak" (test_pmm_no_boot_map_leak debug) t

variable {s : System} {L : Ledger Nat} {debug : Bool}

section Taking

theorem allocate_some (h : Books s L) (debug : Bool) (hfree : L.free.Nonempty) :
    ∃ f s' L', f ∈ L.free ∧ s.step debug .allocate_frame = .ok (some (.ofIndex f), s') ∧
      Books s' L' ∧ L'.free = L.free.erase f ∧ L'.owned = insert f L.owned ∧
      s'.pmm.memory = s.pmm.memory := by
  obtain ⟨f, hnext⟩ := exists_nextIn hfree (start s)
  obtain ⟨s', L', hs, hb, hfree', howned', hmemory, -⟩ :=
    h.allocate_first debug (firstFree_of_nextIn h hnext)
  exact ⟨f, s', L', hnext.mem, hs, hb, hfree', howned', hmemory⟩

theorem sound (h : Books s L) : Sound s.pmm.inner := ⟨h.counted, h.initialised⟩

-- With nothing free every request is refused, and a refusal changes nothing.
theorem allocate_contiguous_none (h : Books s L) (hfree : L.free = ∅) {count align_frames : Nat}
    (hpos : 0 < count) (hcount : count ≤ MAX_FRAMES) (halign : align_frames ≤ MAX_FRAMES) :
    s.pmm.allocate_contiguous count align_frames = .ok (none, s.pmm) := by
  obtain ⟨answer, p, hr, hanswer⟩ := contiguous_answers (sound h) hcount halign
  cases answer with
  | none => rw [hr, hanswer.1]
  | some frame =>
      have hin := hanswer.1.free (Finset.mem_Ico.mpr ⟨Nat.le_refl _, Nat.lt_add_of_pos_right hpos⟩)
      rw [h.free, hfree] at hin
      exact absurd hin (Finset.notMem_empty _)

theorem step_none (h : Books s L) (debug : Bool) (hfree : L.free = ∅) :
    s.step debug .allocate_frame = .ok (none, s) ∧
      s.step debug (.allocate_contiguous 16 4) = .ok (none, s) := by
  have hsame : ∀ op, (⟨s.pmm, s.owned + (handed op none).val⟩ : System) = s := fun op => by
    simp [handed]
  constructor
  · simp only [System.step, State.allocate_frame]
    rw [allocate_contiguous_none h hfree (by decide) (by decide) (by decide), ok_bind]
    exact congrArg (fun s => Except.ok (none, s)) (hsame .allocate_frame)
  · simp only [System.step]
    rw [allocate_contiguous_none h hfree (by decide) (by decide) (by decide), ok_bind]
    exact congrArg (fun s => Except.ok (none, s)) (hsame (.allocate_contiguous 16 4))

-- As many frames as there are can be taken, each once.
theorem take_frames_ok (h : Books s L) (debug : Bool) {n : Nat} (hn : n ≤ L.free.card)
    (frames : List PhysFrame) :
    ∃ (taken : List Nat) (s' : System) (L' : Ledger Nat), taken.length = n ∧ taken.Nodup ∧ (∀ f ∈ taken, f ∈ L.free) ∧
      take_frames debug n frames s =
        .ok (some (frames ++ taken.map PhysFrame.ofIndex), s') ∧
      Books s' L' ∧ L'.free = L.free \ taken.toFinset ∧ L'.owned = L.owned ∪ taken.toFinset ∧
      s'.pmm.memory = s.pmm.memory := by
  induction n generalizing s L frames with
  | zero => exact ⟨[], s, L, rfl, List.nodup_nil, nofun, by simp [take_frames], h, by simp⟩
  | succ n ih =>
      have hsome : L.free.Nonempty := Finset.card_pos.mp (Nat.lt_of_lt_of_le n.succ_pos hn)
      obtain ⟨f, s₁, L₁, hf, hs₁, hb₁, hfree₁, howned₁, hmemory₁⟩ := allocate_some h debug hsome
      have hn₁ : n ≤ L₁.free.card := by
        rw [hfree₁, Finset.card_erase_of_mem hf]
        exact Nat.le_sub_one_of_lt hn
      obtain ⟨taken, s', L', hlength, hnodup, hmem, hrun, hb, hfree, howned, hmemory⟩ :=
        ih hb₁ hn₁ (frames ++ [.ofIndex f])
      have hnew : f ∉ taken := by
        intro hin
        have := hmem f hin
        rw [hfree₁] at this
        exact Finset.notMem_erase f _ this
      refine ⟨f :: taken, s', L', by rw [List.length_cons, hlength],
        List.nodup_cons.mpr ⟨hnew, hnodup⟩, ?_, ?_, hb, ?_, ?_, hmemory.trans hmemory₁⟩
      · intro g hg
        rcases List.mem_cons.mp hg with rfl | hg
        · exact hf
        · exact Finset.mem_of_mem_erase (hfree₁ ▸ hmem g hg)
      · rw [take_frames, hs₁, ok_bind]
        dsimp only
        rw [hrun, List.append_assoc]
        rfl
      · rw [hfree, hfree₁, List.toFinset_cons, Finset.sdiff_insert, Finset.erase_sdiff_comm]
      · rw [howned, howned₁, List.toFinset_cons, Finset.insert_union, Finset.union_insert]

-- A request for more takes all there is and comes back empty-handed.
theorem take_frames_short (h : Books s L) (debug : Bool) {n : Nat} (hn : L.free.card < n)
    (frames : List PhysFrame) :
    ∃ s' L', take_frames debug n frames s = .ok (none, s') ∧ Books s' L' ∧ L'.free = ∅ ∧
      L'.owned = L.owned ∪ L.free := by
  induction n generalizing s L frames with
  | zero => exact absurd hn (Nat.not_lt_zero _)
  | succ n ih =>
      rcases L.free.eq_empty_or_nonempty with hnone | hsome
      · refine ⟨s, L, ?_, h, hnone, by rw [hnone, Finset.union_empty]⟩
        rw [take_frames, (step_none h debug hnone).1, ok_bind]
        rfl
      · obtain ⟨f, s₁, L₁, hf, hs₁, hb₁, hfree₁, howned₁, -⟩ := allocate_some h debug hsome
        have hn₁ : L₁.free.card < n := by
          rw [hfree₁, Finset.card_erase_of_mem hf]
          have := Finset.card_pos.mpr hsome
          omega
        obtain ⟨s', L', hrun, hb, hfree, howned⟩ := ih hb₁ hn₁ (frames ++ [.ofIndex f])
        refine ⟨s', L', ?_, hb, hfree, ?_⟩
        · rw [take_frames, hs₁, ok_bind]
          exact hrun
        · rw [howned, howned₁, hfree₁, Finset.insert_union, ← Finset.union_insert,
            Finset.insert_erase hf]

theorem give_back_ok (h : Books s L) (debug : Bool) {taken : List Nat} (hnodup : taken.Nodup)
    (howned : ∀ f ∈ taken, f ∈ L.owned)
    (hmarks : debug = true → ∀ f ∈ taken, s.pmm.memory f ≠ FREE_CANARY) :
    ∃ s' L', give_back debug (taken.map PhysFrame.ofIndex) s = .ok s' ∧ Books s' L' ∧
      L'.free = L.free ∪ taken.toFinset ∧ L'.owned = L.owned \ taken.toFinset := by
  induction taken generalizing s L with
  | nil => exact ⟨s, L, rfl, h, by simp⟩
  | cons f rest ih =>
      obtain ⟨hnew, hnodup⟩ := List.nodup_cons.mp hnodup
      have hne : ∀ g ∈ rest, g ≠ f := fun g hg hgf => hnew (hgf ▸ hg)
      obtain ⟨s₁, L₁, hs₁, hb₁, hfree₁, howned₁, hmemory₁⟩ := h.deallocate_owned debug
        (howned f List.mem_cons_self) fun hd => hmarks hd f List.mem_cons_self
      have hmarks₁ : debug = true → ∀ g ∈ rest, s₁.pmm.memory g ≠ FREE_CANARY := by
        intro hd g hg
        rw [hmemory₁, if_pos hd, Function.update_of_ne (hne g hg)]
        exact hmarks hd g (List.mem_cons_of_mem f hg)
      obtain ⟨s', L', hrun, hb, hfree, howned'⟩ := ih hb₁ hnodup (fun g hg => by
        rw [howned₁]
        exact Finset.mem_erase.mpr ⟨hne g hg, howned g (List.mem_cons_of_mem f hg)⟩) hmarks₁
      refine ⟨s', L', ?_, hb, ?_, ?_⟩
      · rw [List.map_cons, give_back, hs₁, ok_bind]
        exact hrun
      · rw [hfree, hfree₁, List.toFinset_cons, Finset.insert_union, Finset.union_insert]
      · rw [howned', howned₁, List.toFinset_cons, Finset.sdiff_insert, Finset.erase_sdiff_comm]

end Taking

section Verdicts

-- The test passes and leaves the books as they were.
def Passes (test : Test System) (L : Ledger Nat) (s : System) : Prop :=
  ∃ text s' L', test s = .ok (.ok text, s') ∧ Same L s' L'

theorem adjacent_eq_none {l : List Nat} (h : l.Nodup) : adjacent l = none := by
  induction l using adjacent.induct with
  | case1 a rest => simp at h
  | case2 a b rest hne ih =>
      rw [adjacent, if_neg hne]
      exact ih (List.nodup_cons.mp h).2
  | case3 l hl =>
      unfold adjacent
      split
      · exact absurd rfl (hl _ _ _)
      · rfl

-- What was taken goes back where it came from.
theorem same_of_returned {L₁ L₂ : Ledger Nat} {s₂ : System} {taken : Finset Nat}
    (hsub : taken ⊆ L.free) (hfree₁ : L₁.free = L.free \ taken)
    (howned₁ : L₁.owned = L.owned ∪ taken) (h₂ : Books s₂ L₂) (hfree₂ : L₂.free = L₁.free ∪ taken)
    (howned₂ : L₂.owned = L₁.owned \ taken) : Same L s₂ L₂ := by
  refine ⟨h₂, ?_, ?_⟩
  · rw [hfree₂, hfree₁, Finset.sdiff_union_of_subset hsub]
  · have hdisjoint : Disjoint L.owned taken := (L.free_owned.mono_left hsub).symm
    rw [howned₂, howned₁, Finset.union_sdiff_cancel_right hdisjoint]

theorem unique_passes (h : Books s L) {ks ke : Nat}
    (hclear : ∀ f ∈ L.free, ¬ (ks ≤ f * FRAME_SIZE ∧ f * FRAME_SIZE < ke))
    (hfresh : debug = true → ∀ f ∈ L.free, s.pmm.memory f ≠ FREE_CANARY)
    (hn : 512 ≤ L.free.card) : Passes (test_pmm_unique debug ks ke) L s := by
  obtain ⟨taken, s₁, L₁, -, hnodup, hmem, htake, hb₁, hfree₁, howned₁, hmemory₁⟩ :=
    take_frames_ok h debug hn []
  have hmine : ∀ f ∈ taken, f ∈ L₁.owned := fun f hf => by
    rw [howned₁]
    exact Finset.mem_union_right _ (List.mem_toFinset.mpr hf)
  obtain ⟨s₂, L₂, hgive, hb₂, hfree₂, howned₂⟩ := give_back_ok hb₁ debug hnodup hmine
    fun hd f hf => hmemory₁ ▸ hfresh hd f (hmem f hf)
  have hsub : taken.toFinset ⊆ L.free := fun f hf => hmem f (List.mem_toFinset.mp hf)
  have haddresses : (taken.map PhysFrame.ofIndex).map PhysFrame.start_address =
      taken.map (· * FRAME_SIZE) := by
    rw [List.map_map]
    rfl
  have hdistinct : (taken.map (· * FRAME_SIZE)).Nodup :=
    hnodup.map fun a b hab => Nat.eq_of_mul_eq_mul_right (by decide) hab
  have hsorted : adjacent ((taken.map (· * FRAME_SIZE)).mergeSort (· ≤ ·)) = none :=
    adjacent_eq_none ((List.mergeSort_perm _ _).nodup_iff.mpr hdistinct)
  have himage : (taken.map (· * FRAME_SIZE)).find? (fun p => ks ≤ p && p < ke) = none := by
    rw [List.find?_eq_none]
    intro p hp
    obtain ⟨f, hf, rfl⟩ := List.mem_map.mp hp
    simpa using hclear f (hmem f hf)
  refine ⟨all_unique ks ke, s₂, L₂, ?_, same_of_returned hsub hfree₁ howned₁ hb₂ hfree₂ howned₂⟩
  rw [test_pmm_unique, htake, ok_bind]
  dsimp only
  rw [List.nil_append, haddresses, hsorted]
  dsimp only
  rw [himage]
  dsimp only
  rw [hgive, ok_bind]
  rfl

theorem reserve_excluded_passes (h : Books s L) {ks ke : Nat}
    (hfine : Unobjectionable (from_reserved ks ke) L) (hfree : L.free.Nonempty) :
    Passes (test_pmm_reserve_excluded false ks ke) L s := by
  obtain ⟨s', L', hloop, hsame⟩ := probes_release h hfree hfine 2048 0
  refine ⟨toString 2048 ++ " allocations checked against 4 reserved ranges", s', L', ?_, hsame⟩
  rw [test_pmm_reserve_excluded, hloop, ok_bind]
  rfl

theorem no_boot_map_leak_passes (h : Books s L) (hfree : L.free.Nonempty) :
    Passes (test_pmm_no_boot_map_leak false) L s := by
  obtain ⟨s', L', hloop, hsame⟩ := probes_release h hfree (unobjectionable_above_map h) 4096 0
  refine ⟨respected s.pmm.inner.unmapped_bytes, s', L', ?_, hsame⟩
  rw [test_pmm_no_boot_map_leak, hloop, ok_bind]
  rfl

-- What is borrowed comes back.
theorem borrow_ok (h : Books s L) (hfree : L.free.Nonempty) :
    ∃ f s' L', f ∈ L.free ∧ borrow false s = .ok (some (.ofIndex f), s') ∧ Same L s' L' := by
  obtain ⟨f, rest, horder⟩ := around_cons (s := s) hfree
  obtain ⟨s₁, s₂, L₂, hs₁, hs₂, hsame, -, -⟩ := probe_round h false horder nofun
  refine ⟨f, s₂, L₂, mem_of_around horder, ?_, hsame⟩
  rw [borrow, hs₁, ok_bind]
  dsimp only
  rw [hs₂, ok_bind]
  rfl

theorem free_frames_eq (h : Books s L) : s.pmm.inner.free_frames = L.free.card := by
  rw [h.counted, h.free]

theorem double_free_passes (h : Books s L) (hfree : L.free.Nonempty) :
    Passes (test_pmm_double_free false) L s := by
  obtain ⟨f, s₁, L₁, -, hfirst, hsame₁⟩ := borrow_ok h hfree
  obtain ⟨g, s₂, L₂, -, hsecond, hsame₂⟩ := borrow_ok hsame₁.books (hsame₁.free ▸ hfree)
  have hcount : s₂.pmm.inner.free_frames = s₁.pmm.inner.free_frames := by
    rw [free_frames_eq hsame₂.books, free_frames_eq hsame₁.books, hsame₂.free]
  refine ⟨stable s₂.pmm.inner.free_frames, s₂, L₂, ?_, hsame₁.trans hsame₂⟩
  rw [test_pmm_double_free, hfirst, ok_bind]
  dsimp only
  rw [hsecond, ok_bind]
  dsimp only
  rw [if_neg fun hne => hne hcount]
  rfl

end Verdicts

section Contiguous

-- A run of 16 on a 4-frame boundary, all of it free.
def FreeRun (free : Finset Nat) (a : Nat) : Prop := 4 ∣ a ∧ Finset.Ico a (a + 16) ⊆ free

theorem FreeRun.runAt (h : Books s L) {a : Nat} (hrun : FreeRun L.free a) :
    RunAt s.pmm.inner.bitmap MAX_FRAMES 16 4 a := by
  refine ⟨hrun.1, ?_, fun i hi => ?_⟩
  · have hlast : a + 15 ∈ L.free := hrun.2 (Finset.mem_Ico.mpr ⟨by omega, by omega⟩)
    have := h.managed (a + 15) (by simp [Ledger.all, hlast])
    omega
  · have hmem : a + i ∈ L.free := hrun.2 (Finset.mem_Ico.mpr ⟨by omega, by omega⟩)
    exact mem_members.mp (h.free ▸ hmem)

-- A search that starts inside one of two separate runs still meets the other.
theorem allocate_run (h : Books s L) (debug : Bool) {a b : Nat} (ha : FreeRun L.free a)
    (hb : FreeRun L.free b) (hab : a + 16 ≤ b) :
    ∃ frame s' L', s.step debug (.allocate_contiguous 16 4) = .ok (some frame, s') ∧
      FreeRun L.free frame.index ∧ Books s' L' ∧
      L'.free = L.free \ Finset.Ico frame.index (frame.index + 16) ∧
      L'.owned = L.owned ∪ Finset.Ico frame.index (frame.index + 16) := by
  obtain ⟨answer, p, hr, hanswer⟩ := contiguous_answers (sound h)
    (show (16 : UInt64).toNat ≤ MAX_FRAMES by decide) (show (4 : UInt64).toNat ≤ MAX_FRAMES by decide)
  cases answer with
  | none =>
      have hacross := (nextFit_none_iff _ (Nat.min_le_right _ _) (by decide)).mp hanswer.2.2
      have h1 := hacross a (ha.runAt h)
      have h2 := hacross b (hb.runAt h)
      have h16 : (16 : UInt64).toNat = 16 := rfl
      omega
  | some frame =>
      obtain ⟨L', hmoved, hb'⟩ := h.answered (.allocate_contiguous 16 4) trivial hanswer
      have haligned := ((hanswer.2.2 (by decide)).runAt _ (Nat.min_le_right _ _)).1
      refine ⟨frame, _, L', ?_, ⟨haligned, ?_⟩, hb', ?_⟩
      · simp only [System.step, hr, ok_bind]
        rfl
      · exact h.free ▸ hanswer.1.free
      · cases hmoved with
        | granted => exact ⟨rfl, rfl⟩

theorem inside_run_false {base f : Nat} (hbase : base + 16 ≤ MAX_FRAMES)
    (hout : ¬ (base ≤ f ∧ f < base + 16)) :
    inside_run (base * FRAME_SIZE) (PhysFrame.ofIndex f).start_address = .ok false := by
  have hfit : base * FRAME_SIZE + 16 * PAGE_SIZE < WORD := by
    rw [WORD_eq]
    rw [MAX_FRAMES_val] at hbase
    unfold FRAME_SIZE PAGE_SIZE
    omega
  have haddress : (PhysFrame.ofIndex f).start_address = f * FRAME_SIZE := rfl
  unfold inside_run
  split
  · rename_i hle
    rw [add_of_lt hfit, ok_bind]
    have hge : ¬ f * FRAME_SIZE < base * FRAME_SIZE + 16 * PAGE_SIZE := by
      rw [haddress] at hle
      unfold FRAME_SIZE PAGE_SIZE at *
      omega
    rw [haddress, decide_eq_false hge]
    rfl
  · rfl

-- Frames outside the run are probed; with none left, the loop runs idle.
theorem avoid_run_ok (h : Books s L) {base : Nat} (hbase : base + 16 ≤ MAX_FRAMES)
    (hout : ∀ f ∈ L.free, ¬ (base ≤ f ∧ f < base + 16)) (n got : Nat) :
    ∃ got' s' L', avoid_run false (base * FRAME_SIZE) n got s = .ok (.ok got', s') ∧
      Same L s' L' := by
  induction n generalizing s L got with
  | zero => exact ⟨got, s, L, rfl, h, rfl, rfl⟩
  | succ n ih =>
      rcases L.free.eq_empty_or_nonempty with hnone | hsome
      · obtain ⟨got', s', L', hrun, hsame⟩ := ih h hout got
        refine ⟨got', s', L', ?_, hsame⟩
        rw [avoid_run, (step_none h false hnone).1, ok_bind]
        exact hrun
      · obtain ⟨f, rest, horder⟩ := around_cons (s := s) hsome
        obtain ⟨s₁, s₂, L₂, hs₁, hs₂, hsame, -, -⟩ := probe_round h false horder nofun
        have hout₂ : ∀ g ∈ L₂.free, ¬ (base ≤ g ∧ g < base + 16) :=
          fun g hg => hout g (hsame.free ▸ hg)
        obtain ⟨got', s', L', hrun, hsame'⟩ := ih hsame.books hout₂ (got + 1)
        refine ⟨got', s', L', ?_, hsame.trans hsame'⟩
        have hinside : inside_run (base * FRAME_SIZE) (PhysFrame.ofIndex f).start_address =
            .ok false := inside_run_false hbase (hout f (mem_of_around horder))
        rw [avoid_run, hs₁, ok_bind]
        dsimp only
        rw [hinside, ok_bind, if_neg Bool.false_ne_true, hs₂, ok_bind]
        exact hrun

theorem above_eq (frame : PhysFrame) (i : Nat) : above frame i = .ofIndex (frame.index + i) := by
  have hstart : frame.start_address = frame.index * FRAME_SIZE :=
    (Nat.div_mul_cancel (Nat.dvd_of_mod_eq_zero frame.aligned)).symm
  simp only [above, PhysFrame.ofIndex, PhysFrame.mk.injEq]
  rw [hstart, Nat.add_mul]
  rfl

theorem contiguous_passes (h : Books s L) {a b : Nat} (ha : FreeRun L.free a) (hb : FreeRun L.free b)
    (hab : a + 16 ≤ b) : Passes (test_pmm_contiguous false) L s := by
  obtain ⟨frame, s₁, L₁, hs₁, hrun, hb₁, hfree₁, howned₁⟩ := allocate_run h false ha hb hab
  have hstart : frame.start_address = frame.index * FRAME_SIZE :=
    (Nat.div_mul_cancel (Nat.dvd_of_mod_eq_zero frame.aligned)).symm
  have haligned : ¬ frame.start_address % (PAGE_SIZE * 4) ≠ 0 := by
    have := hrun.1
    rw [hstart]
    unfold FRAME_SIZE PAGE_SIZE
    omega
  have hout : ∀ f ∈ L₁.free, ¬ (frame.index ≤ f ∧ f < frame.index + 16) := by
    intro f hf
    rw [hfree₁, Finset.mem_sdiff, Finset.mem_Ico] at hf
    exact hf.2
  obtain ⟨got, s₂, L₂, hprobes, hsame₂⟩ := avoid_run_ok hb₁ (hrun.runAt h).2.1 hout 64 0
  -- The frames of the run, as the test numbers them.
  have hlist : ((List.range 16).map fun i => above frame i) =
      (List.range' frame.index 16).map PhysFrame.ofIndex := by
    simp only [above_eq, List.range'_eq_map_range, List.map_map]
    rfl
  have hset : (List.range' frame.index 16).toFinset =
      Finset.Ico frame.index (frame.index + 16) := by
    ext f
    rw [List.mem_toFinset, List.mem_range'_1, Finset.mem_Ico]
  have hmine : ∀ f ∈ List.range' frame.index 16, f ∈ L₂.owned := by
    intro f hf
    rw [hsame₂.owned, howned₁, ← hset]
    exact Finset.mem_union_right _ (List.mem_toFinset.mpr hf)
  obtain ⟨s₃, L₃, hgive, hb₃, hfree₃, howned₃⟩ :=
    give_back_ok hsame₂.books false List.nodup_range' hmine nofun
  rw [hset, hsame₂.free] at hfree₃
  rw [hset, hsame₂.owned] at howned₃
  refine ⟨avoided frame.start_address got, s₃, L₃, ?_,
    same_of_returned hrun.2 hfree₁ howned₁ hb₃ hfree₃ howned₃⟩
  rw [test_pmm_contiguous, hs₁, ok_bind]
  dsimp only
  rw [if_neg haligned, hstart, hprobes, ok_bind]
  dsimp only
  rw [hlist, hgive, ok_bind]
  rfl

end Contiguous

section Section

-- One more passed test, and the same books.
structure Onward (L : Ledger Nat) (t t' : Suite System) (L' : Ledger Nat) : Prop where
  tally : t'.tally = { t.tally with pass := t.tally.pass + 1 }
  same : Same L t'.system L'

theorem Passes.run {test : Test System} {t : Suite System} (name : String) (h : Passes test L t.system) :
    ∃ t' L', run name test t = .ok t' ∧ Onward L t t' L' := by
  obtain ⟨text, s', L', htest, hsame⟩ := h
  exact ⟨t.passed name text s', L', run_passed htest, rfl, hsame⟩

-- In a release build the allocator's tests pass on a machine with 512 free frames and two
-- separate runs for the contiguous test to find, and nothing is kept.
theorem pmm_tests_pass (memory : Nat → Word) (info : Multiboot.BootInfo) (start : System)
    (history : List Call) (t : Suite System) (hboot : System.boot memory info = .ok start)
    (hrun : Run System.Legal (System.step false) start history t.system) (ks ke : Nat)
    (hclear : OutsideReserved ks ke t.system)
    (hmany : 512 ≤ (members t.system.pmm.inner.bitmap).card) (a b : Nat)
    (ha : FreeRun (members t.system.pmm.inner.bitmap) a)
    (hb : FreeRun (members t.system.pmm.inner.bitmap) b) (hab : a + 16 ≤ b) :
    ∃ t', pmm_tests false ks ke t = .ok t' ∧
      t'.tally = { t.tally with pass := t.tally.pass + 5 } ∧ Kept t.system t'.system := by
  obtain ⟨L, h, -, -⟩ := ((boot_spec memory info).of_eq_ok hboot).1.run (fun _ _ => id) hrun
  rw [h.free] at hmany ha hb
  have hsome : L.free.Nonempty := Finset.card_pos.mp (Nat.lt_of_lt_of_le (by decide) hmany)
  have houtside : ∀ f ∈ L.free, ∀ r ∈ reserved ks ke,
      ¬ (r.1 ≤ f * FRAME_SIZE ∧ f * FRAME_SIZE < r.2.1) :=
    fun f hf => hclear f (h.free_iff.mpr hf)
  have hfine := unobjectionable_reserved houtside
  have himage : ∀ f ∈ L.free, ¬ (ks ≤ f * FRAME_SIZE ∧ f * FRAME_SIZE < ke) :=
    fun f hf => houtside f hf (ks, ke, "kernel image") (by simp [reserved])
  have hunique : Passes (test_pmm_unique false ks ke) L t.system :=
    unique_passes h himage nofun hmany
  obtain ⟨t₁, L₁, h₁, htally₁, hsame₁⟩ := hunique.run "pmm_unique"
  rw [← hsame₁.free] at hsome ha hb
  have hfine₁ : Unobjectionable (from_reserved ks ke) L₁ := fun f hf => hfine f (hsame₁.free ▸ hf)
  obtain ⟨t₂, L₂, h₂, htally₂, hsame₂⟩ :=
    (reserve_excluded_passes hsame₁.books hfine₁ hsome).run "pmm_reserve_excluded"
  rw [← hsame₂.free] at hsome ha hb
  obtain ⟨t₃, L₃, h₃, htally₃, hsame₃⟩ :=
    (contiguous_passes hsame₂.books ha hb hab).run "pmm_contiguous_aligned"
  rw [← hsame₃.free] at hsome
  obtain ⟨t₄, L₄, h₄, htally₄, hsame₄⟩ :=
    (double_free_passes hsame₃.books hsome).run "pmm_double_free"
  rw [← hsame₄.free] at hsome
  obtain ⟨t₅, L₅, h₅, htally₅, hsame₅⟩ :=
    (no_boot_map_leak_passes hsame₄.books hsome).run "pmm_no_boot_map_leak"
  have hsame := (((hsame₁.trans hsame₂).trans hsame₃).trans hsame₄).trans hsame₅
  refine ⟨t₅, ?_, ?_, hsame.kept h⟩
  · rw [pmm_tests, h₁, ok_bind, h₂, ok_bind, h₃, ok_bind, h₄, ok_bind, h₅]
  · rw [htally₅, htally₄, htally₃, htally₂, htally₁]

-- Four megabytes from 2 MiB on, behind a kernel image of one.
def four_megabytes : Multiboot.BootInfo :=
  { Multiboot.empty_info 0 with
    mmap := ⟨[⟨0x200000, 0x400000, memtype.AVAILABLE⟩], by decide⟩ }

theorem boot_four_megabytes (memory : Nat → Word) :
    ∃ start, System.boot memory four_megabytes = .ok start ∧
      members start.pmm.inner.bitmap = Finset.Ico 512 1536 := by
  have hfit : (four_megabytes.mmap.as_slice.map unmapped).sum < WORD := by
    rw [WORD_eq]
    decide +kernel
  obtain ⟨start, hboot, -, hinit, -, -⟩ := boot_ok memory hfit
  refine ⟨start, hboot, ?_⟩
  have htop : min (saturating_add 0x200000 0x400000) MAX_PHYS = 0x600000 := by
    rw [saturating_add, WORD_eq, MAX_PHYS_val]
    decide
  have husable : ∀ f, f ∈ usable ⟨0x200000, 0x400000, memtype.AVAILABLE⟩ ↔
      512 ≤ f ∧ f < 1536 := by
    intro f
    rw [mem_usable]
    change _ ∧ 0x200000 ≤ f * FRAME_SIZE ∧
      (f + 1) * FRAME_SIZE ≤ min (saturating_add 0x200000 0x400000) MAX_PHYS ↔ _
    rw [htop]
    simp only [true_and, FRAME_SIZE]
    omega
  ext f
  rw [hinit.bitmap f, Finset.mem_Ico, ← husable]
  simp [four_megabytes, Multiboot.Heapless.Vec.as_slice]

theorem pmm_tests_pass_four_megabytes :
    ∃ start t', System.boot (fun _ => 0) four_megabytes = .ok start ∧
      pmm_tests false 0x100000 0x200000 ⟨⟨1, 0, 0⟩, [], start⟩ = .ok t' ∧
      t'.tally = ⟨6, 0, 0⟩ ∧ Kept start t'.system := by
  obtain ⟨start, hboot, hfree⟩ := boot_four_megabytes fun _ => 0
  have hclear : OutsideReserved 0x100000 0x200000 start := by
    intro f hf r hr
    have hmem : f ∈ Finset.Ico 512 1536 := hfree ▸ mem_members.mpr hf
    have hge := (Finset.mem_Ico.mp hmem).1
    have hstop : r.2.1 ≤ 0x200000 := by
      revert r
      decide
    simp only [FRAME_SIZE]
    omega
  have hrun : ∀ a, 512 ≤ a → a ≤ 1520 → 4 ∣ a →
      FreeRun (members start.pmm.inner.bitmap) a := by
    intro a h1 h2 h4
    refine ⟨h4, fun f hf => ?_⟩
    rw [Finset.mem_Ico] at hf
    rw [hfree, Finset.mem_Ico]
    omega
  have hmany : 512 ≤ (members start.pmm.inner.bitmap).card := by
    rw [hfree, Nat.card_Ico]
    decide
  obtain ⟨t', htests, htally, hkept⟩ := pmm_tests_pass _ _ start [] ⟨⟨1, 0, 0⟩, [], start⟩ hboot .nil
    0x100000 0x200000 hclear hmany 512 528 (hrun 512 (by decide) (by decide) (by decide))
    (hrun 528 (by decide) (by decide) (by decide)) (by decide)
  exact ⟨start, t', hboot, htests, htally, hkept⟩

def starved_lines (unmapped : Nat) : List (String × Except String String) :=
  [("pmm_unique", .error "PMM ran out of frames during self-test"),
    ("pmm_reserve_excluded", .error "no frames available to check"),
    ("pmm_contiguous_aligned", .error "could not allocate 16 contiguous frames aligned to 4"),
    ("pmm_double_free", .error "no frame"),
    ("pmm_no_boot_map_leak", .ok (respected unmapped))]

-- With fewer than 512 free frames the first test takes them all and keeps them, in either
-- build, and the tests behind it find an empty allocator.
theorem pmm_tests_starved (debug : Bool) (memory : Nat → Word) (info : Multiboot.BootInfo)
    (start : System) (history : List Call) (t : Suite System)
    (hboot : System.boot memory info = .ok start)
    (hrun : Run System.Legal (System.step debug) start history t.system) (ks ke : Nat)
    (hfew : (members t.system.pmm.inner.bitmap).card < 512) :
    ∃ t', pmm_tests debug ks ke t = .ok t' ∧
      t'.tally = ⟨t.tally.pass + 1, t.tally.fail + 4, t.tally.skip⟩ ∧
      stop_on_failure t' = .error (.explicit "boot self-test failed") ∧
      t'.lines = t.lines ++ starved_lines t'.system.pmm.inner.unmapped_bytes ∧
      (∀ f, ¬ t'.system.free f) ∧
      ∀ f, f ∈ t'.system.owned ↔ f ∈ t.system.owned ∨ t.system.free f := by
  obtain ⟨L, h, -, -⟩ := ((boot_spec memory info).of_eq_ok hboot).1.run (fun _ _ => id) hrun
  rw [h.free] at hfew
  obtain ⟨s, L', htake, hb, hfree, howned⟩ := take_frames_short h debug hfew []
  have hnone := step_none hb debug hfree
  have h₁ : test_pmm_unique debug ks ke t.system =
      .ok (.error "PMM ran out of frames during self-test", s) := by
    rw [test_pmm_unique, htake, ok_bind]
    rfl
  have h₂ : test_pmm_reserve_excluded debug ks ke s =
      .ok (.error "no frames available to check", s) := by
    rw [test_pmm_reserve_excluded, probes, hnone.1]
    rfl
  have h₃ : test_pmm_contiguous debug s =
      .ok (.error "could not allocate 16 contiguous frames aligned to 4", s) := by
    rw [test_pmm_contiguous, hnone.2]
    rfl
  have h₄ : test_pmm_double_free debug s = .ok (.error "no frame", s) := by
    rw [test_pmm_double_free, borrow, hnone.1]
    rfl
  have h₅ : test_pmm_no_boot_map_leak debug s =
      .ok (.ok (respected s.pmm.inner.unmapped_bytes), s) := by
    rw [test_pmm_no_boot_map_leak, probes, hnone.1]
    rfl
  refine ⟨⟨⟨t.tally.pass + 1, t.tally.fail + 4, t.tally.skip⟩,
    t.lines ++ starved_lines s.pmm.inner.unmapped_bytes, s⟩, ?_, rfl,
    if_pos (Nat.zero_lt_succ _), rfl, fun f => ?_, fun f => ?_⟩
  · rw [pmm_tests, run_failed h₁, ok_bind, run_failed h₂, ok_bind, run_failed h₃, ok_bind,
      run_failed h₄, ok_bind, run_passed h₅]
    simp only [Suite.passed, Suite.failed, starved_lines, List.append_assoc, List.cons_append,
      List.nil_append]
  · change ¬ s.free f
    rw [hb.free_iff, hfree]
    exact Finset.notMem_empty f
  · change f ∈ s.owned ↔ _
    rw [hb.mem_owned, howned, Finset.mem_union, h.mem_owned, h.free_iff]

theorem pmm_tests_starved_one_frame :
    ∃ start t', System.boot (fun _ => 0) one_frame = .ok start ∧
      pmm_tests true 0x100000 0x200000 ⟨⟨1, 0, 0⟩, [], start⟩ = .ok t' ∧
      t'.tally = ⟨2, 4, 0⟩ ∧ 1 ∈ t'.system.owned := by
  obtain ⟨start, L, hboot, hb, hfree, -, -⟩ := boot_one_frame fun _ => 0
  have hfew : (members start.pmm.inner.bitmap).card < 512 := by
    rw [hb.free, hfree, Finset.card_singleton]
    decide
  obtain ⟨t', htests, htally, -, -, -, howned⟩ := pmm_tests_starved true _ _ start []
    ⟨⟨1, 0, 0⟩, [], start⟩ hboot .nil 0x100000 0x200000 hfew
  have hone : start.free 1 := hb.free_iff.mpr (by simp [hfree])
  exact ⟨start, t', hboot, htests, htally, (howned 1).mpr (.inr hone)⟩

end Section

end Orin.Selftest
