import Orin.Memory.Pmm.Theorems

namespace Orin.Memory.Pmm

open Rust Bitmap Multiboot Theory

variable {s : System} {L : Ledger Nat}

-- The free path of a debug build refuses exactly the frames that still carry the mark
-- of an earlier free.
theorem Books.deallocate_marked (h : Books s L) {f : Nat} (hf : f ∈ L.owned)
    (hword : s.pmm.memory f = FREE_CANARY) :
    s.step true (.deallocate_frame (.ofIndex f)) =
      .error (.explicit (modified_after_free f (f * FRAME_SIZE))) := by
  have hspec := deallocate_spec (p := s.pmm) true (f * FRAME_SIZE) h.counted
  have hindex : f * FRAME_SIZE / FRAME_SIZE = f := PhysFrame.index_ofIndex f
  have hlegal : s.Legal (.deallocate_frame (.ofIndex f)) := by
    simpa [System.Legal] using h.mem_owned.mpr hf
  have hends := h.step true hlegal
  simp only [System.step, State.deallocate_frame, PhysFrame.ofIndex] at hends ⊢
  cases hr : s.pmm.deallocate true (f * FRAME_SIZE) with
  | ok p =>
      have hne := (hspec.of_eq_ok hr).2 rfl
      rw [hindex] at hne
      exact absurd hword hne
  | error e =>
      rw [hr] at hends
      obtain ⟨-, -, rfl⟩ := hends
      simp only [error_bind, PhysFrame.index, hindex]

section FalseAlarm

-- Correct use: requests of a managed size, stores and frees by owners only.
def Correct (s : System) : Op → Prop
  | .reserve_range _ _ => False
  | .allocate_frame => True
  | .allocate_contiguous count align_frames =>
      count.toNat ≤ MAX_FRAMES ∧ align_frames.toNat ≤ MAX_FRAMES
  | .deallocate_frame frame => frame.index ∈ s.owned
  | .write frame _ => frame ∈ s.owned

theorem Correct.legal (s : System) (op : Op) (h : Correct s op) : s.Legal op := by
  cases op with
  | deallocate_frame frame => exact h
  | _ => trivial

-- Under correct use the allocator stops in two cases only: the firmware map reports
-- more unusable bytes than fit, or an owner frees a frame that carries the mark.
theorem correct_use_iff (memory : Nat → Word) (info : BootInfo) :
    ((∃ start, System.boot memory info = .ok start) ↔
      (info.mmap.as_slice.map unmapped).sum < WORD) ∧
    ∀ start history s op, System.boot memory info = .ok start →
      Run Correct (System.step true) start history s → Correct s op →
      ((∃ r, s.step true op = .ok r) ↔
        ∀ frame, op = .deallocate_frame frame → s.pmm.memory frame.index ≠ FREE_CANARY) := by
  have hspec := boot_spec memory info
  constructor
  · constructor
    · rintro ⟨start, hboot⟩
      exact (hspec.of_eq_ok hboot).2.1.unmapped_lt
    · intro hlt
      cases hboot : System.boot memory info with
      | ok start => exact ⟨start, rfl⟩
      | error e => exact absurd (hspec.of_eq_error hboot).2 (Nat.not_le.mpr hlt)
  · intro start history s op hboot hrun hcorrect
    obtain ⟨L, hb, -, -⟩ := (hspec.of_eq_ok hboot).1.run Correct.legal hrun
    have hends := hb.step true (hcorrect.legal s op)
    constructor
    · rintro ⟨r, hr⟩ frame rfl hword
      have hmem := hb.mem_owned.mp hcorrect
      have hstop := hb.deallocate_marked hmem hword
      rw [PhysFrame.ofIndex_index, hr] at hstop
      cases hstop
    · intro hmark
      cases hr : s.step true op with
      | ok r => exact ⟨r, rfl⟩
      | error e =>
          exfalso
          have hstop := hends.of_eq_error hr
          cases op with
          | reserve_range => exact hcorrect
          | allocate_frame => exact hstop
          | allocate_contiguous count align_frames =>
              have hover := hstop.1
              have h1 := hcorrect.1
              have h2 := hcorrect.2
              rw [WORD_eq] at hover
              rw [MAX_FRAMES_val] at hover h1 h2
              omega
          | deallocate_frame frame => exact hmark frame rfl hstop.2.1
          | write => exact hstop

-- Take a frame, give it back, take it again.
theorem recycle_run (memory : Nat → Word) (hmemory : memory 1 ≠ FREE_CANARY) :
    ∃ start history s L, System.boot memory one_frame = .ok start ∧
      Run Correct (System.step true) start history s ∧
      history.map Event.op =
        [.allocate_frame, .deallocate_frame (.ofIndex 1), .allocate_frame] ∧
      Books s L ∧ 1 ∈ L.owned ∧ s.pmm.memory 1 = FREE_CANARY := by
  obtain ⟨s0, L0, hboot, hb0, hfree0, -, hm0⟩ := boot_one_frame memory
  obtain ⟨s1, L1, h1, hb1, hfree1, howned1, hm1⟩ := hb0.allocate_only_frame true hfree0
  have hmem : 1 ∈ L1.owned := by simp [howned1]
  obtain ⟨s2, L2, h2, hb2, hfree2, -, hm2⟩ := hb1.deallocate_owned true hmem (by
    rw [hm1, hm0]
    exact fun _ => hmemory)
  have hone : L2.free = {1} := by simp [hfree2, hfree1]
  obtain ⟨s3, L3, h3, hb3, -, howned3, hm3⟩ := hb2.allocate_only_frame true hone
  have halloc : ∀ s, Correct s .allocate_frame := fun _ => trivial
  have hdealloc : Correct s1 (.deallocate_frame (.ofIndex 1)) := by
    simpa [Correct] using hb1.mem_owned.mpr hmem
  refine ⟨s0, _, s3, L3, hboot,
    ((Run.nil.snoc (halloc s0) h1).snoc hdealloc h2).snoc (halloc s2) h3, rfl, hb3,
    by simp [howned3], ?_⟩
  rw [hm3, hm2]
  simp

-- The second owner stores to the frame, and may then give it back.
theorem correct_use_recycle :
    ∃ start history s, System.boot (fun _ => 0) one_frame = .ok start ∧
      Run Correct (System.step true) start history s ∧
      history.map Event.op = [.allocate_frame, .deallocate_frame (.ofIndex 1), .allocate_frame,
        .write 1 0] ∧
      s.pmm.memory 1 ≠ FREE_CANARY ∧ ∃ r, s.step true (.deallocate_frame (.ofIndex 1)) = .ok r := by
  obtain ⟨start, history, s, L, hboot, hrun, hops, hb, hmem, -⟩ :=
    recycle_run (fun _ => 0) (by decide)
  have hwrite : Correct s (.write 1 0) := hb.mem_owned.mpr hmem
  have hstored : s.step true (.write 1 0) = .ok (none, s.withMemory _) := rfl
  have hrun' := hrun.snoc hwrite hstored
  have hword : (s.withMemory (Function.update s.pmm.memory 1 0)).pmm.memory 1 ≠ FREE_CANARY := by
    simp [System.withMemory, FREE_CANARY]
  refine ⟨start, _, _, hboot, hrun', by simp [hops], hword, ?_⟩
  have howned : Correct (s.withMemory (Function.update s.pmm.memory 1 0))
      (.deallocate_frame (.ofIndex 1)) := by
    simpa [Correct] using (hb.withMemory _).mem_owned.mpr hmem
  refine ((correct_use_iff _ _).2 start _ _ _ hboot hrun' howned).mpr fun frame h => ?_
  cases h
  exact hword

-- The owner never touched the frame, and its second free is taken for corruption.
theorem recycled_frame_alarm :
    ∃ start history s, System.boot (fun _ => 0) one_frame = .ok start ∧
      Run Correct (System.step true) start history s ∧
      history.map Event.op =
        [.allocate_frame, .deallocate_frame (.ofIndex 1), .allocate_frame] ∧
      Correct s (.deallocate_frame (.ofIndex 1)) ∧
      s.step true (.deallocate_frame (.ofIndex 1)) =
        .error (.explicit ("pmm: frame 1 (0x1000) was modified after free " ++
          "(canary overwritten) — use-after-free in kernel code")) := by
  obtain ⟨start, history, s, L, hboot, hrun, hops, hb, hmem, hword⟩ :=
    recycle_run (fun _ => 0) (by decide)
  refine ⟨start, history, s, hboot, hrun, hops, ?_, ?_⟩
  · simpa [Correct] using hb.mem_owned.mpr hmem
  · have hmessage : modified_after_free 1 (1 * FRAME_SIZE) =
        "pmm: frame 1 (0x1000) was modified after free " ++
          "(canary overwritten) — use-after-free in kernel code" := by decide +kernel
    rw [hb.deallocate_marked hmem hword, hmessage]

end FalseAlarm

section UseAfterFree

-- Allocation never looks at the frames themselves.
theorem allocate_memory (p : State) (m : Nat → Word) (count align : Nat) :
    ({ p with memory := m } : State).allocate count align =
      (p.allocate count align).map fun r => (r.1, { r.2 with memory := m }) := by
  unfold State.allocate
  dsimp only
  split
  · cases find_wrapping p.inner.bitmap (min p.cursor MAX_FRAMES) count align with
    | error e => rfl
    | ok r =>
        cases r with
        | none => rfl
        | some start =>
            dsimp only [ok_bind]
            cases forRange 0 count p.inner.bitmap fun i map => do bit_clear map (← add start i) with
            | error e => rfl
            | ok map =>
                cases sub p.inner.free_frames count with
                | error e => rfl
                | ok free_frames =>
                    cases add start count with
                    | error e => rfl
                    | ok cursor => rfl
  · rfl

theorem allocate_contiguous_memory (p : State) (m : Nat → Word) (count align : Nat) :
    ({ p with memory := m } : State).allocate_contiguous count align =
      (p.allocate_contiguous count align).map fun r => (r.1, { r.2 with memory := m }) := by
  unfold State.allocate_contiguous
  rw [allocate_memory]
  cases p.allocate count align with
  | error e => rfl
  | ok r =>
      obtain ⟨found, p'⟩ := r
      cases found with
      | none => rfl
      | some idx =>
          change (do return (some (← frame_from_index idx), _)) = Except.map _ (do
            return (some (← frame_from_index idx), p'))
          cases frame_from_index idx <;> rfl

theorem step_withMemory (debug : Bool) (s : System) (m : Nat → Word) {op : Op}
    (hop : op.Allocates) :
    (s.withMemory m).step debug op = (s.step debug op).map fun r => (r.1, r.2.withMemory m) := by
  cases op with
  | allocate_frame =>
      simp only [System.step, System.withMemory, State.allocate_frame, allocate_contiguous_memory]
      cases s.pmm.allocate_contiguous 1 1 <;> rfl
  | allocate_contiguous count align_frames =>
      simp only [System.step, System.withMemory, allocate_contiguous_memory]
      cases s.pmm.allocate_contiguous count.toNat align_frames.toNat <;> rfl
  | _ => exact absurd hop (by simp [Op.Allocates])

-- The frame was given back, has not been handed out since, and has lost its mark.
def Stale (history : List Call) (s : System) (f : Nat) : Prop :=
  (∃ past e future frame, history = past ++ e :: future ∧ e.op = .deallocate_frame frame ∧
    frame.index = f ∧ ∀ d ∈ future, f ∉ handed d.op d.answer) ∧
  s.pmm.memory f ≠ FREE_CANARY

-- The allocation that would hand the frame out, were its mark intact, hands it out
-- all the same, stale contents included.
theorem stale_frame_handed_out (memory : Nat → Word) (info : BootInfo) (start s : System)
    (history : List Call) (hboot : System.boot memory info = .ok start)
    (hrun : Run System.Legal (System.step true) start history s) (f : Nat)
    (hstale : Stale history s f) (op : Op) (hop : op.Allocates) (answer : Option PhysFrame)
    (s' : System)
    (hwould : (s.withMemory (Function.update s.pmm.memory f FREE_CANARY)).step true op =
      .ok (answer, s'))
    (hf : f ∈ handed op answer) :
    ∃ s'', s.step true op = .ok (answer, s'') ∧ f ∈ s''.owned ∧
      s''.pmm.memory f ≠ FREE_CANARY := by
  rw [step_withMemory true s _ hop] at hwould
  obtain ⟨L, hb, -, -⟩ := ((boot_spec memory info).of_eq_ok hboot).1.run (fun _ _ => id) hrun
  have hself : s.withMemory s.pmm.memory = s := rfl
  have hsame := step_withMemory true s s.pmm.memory hop
  rw [hself] at hsame
  cases hr : s.step true op with
  | error e =>
      rw [hr] at hwould
      cases hwould
  | ok r =>
      obtain ⟨answer', s''⟩ := r
      rw [hr] at hwould hsame
      obtain rfl : answer' = answer := congrArg Prod.fst (Except.ok.inj hwould)
      have hkept : s'' = s''.withMemory s.pmm.memory := congrArg Prod.snd (Except.ok.inj hsame)
      refine ⟨s'', rfl, ?_, ?_⟩
      · have hlegal : s.Legal op := by
          cases op with
          | deallocate_frame => exact hop.elim
          | _ => trivial
        obtain ⟨L', hmoved, hb'⟩ := (hb.step true hlegal).of_eq_ok hr
        rw [hb'.mem_owned]
        cases hmoved with
        | granted => exact Finset.mem_union_right _ hf
        | _ => exact absurd hf (Finset.notMem_empty f)
      · rw [hkept]
        exact hstale.2

-- Take a frame, give it back, and store to it afterwards.
theorem stale_run (memory : Nat → Word) (hmemory : memory 1 ≠ FREE_CANARY) :
    ∃ start history s L, System.boot memory one_frame = .ok start ∧
      Run System.Legal (System.step true) start history s ∧
      history.map Event.op =
        [.allocate_frame, .deallocate_frame (.ofIndex 1), .write 1 0xDEAD] ∧
      Stale history s 1 ∧ Books s L ∧ L.free = {1} := by
  obtain ⟨s0, L0, hboot, hb0, hfree0, -, hm0⟩ := boot_one_frame memory
  obtain ⟨s1, L1, h1, hb1, hfree1, howned1, hm1⟩ := hb0.allocate_only_frame true hfree0
  have hmem : 1 ∈ L1.owned := by simp [howned1]
  obtain ⟨s2, L2, h2, hb2, hfree2, -, hm2⟩ := hb1.deallocate_owned true hmem (by
    rw [hm1, hm0]
    exact fun _ => hmemory)
  have hone : L2.free = {1} := by simp [hfree2, hfree1]
  have halloc : s0.Legal .allocate_frame := trivial
  have hdealloc : s1.Legal (.deallocate_frame (.ofIndex 1)) := by
    simpa [System.Legal] using hb1.mem_owned.mpr hmem
  have hwrite : s2.Legal (.write 1 0xDEAD) := trivial
  have h3 : s2.step true (.write 1 0xDEAD) = .ok (none, _) := rfl
  refine ⟨s0, _, _, L2, hboot, ((Run.nil.snoc halloc h1).snoc hdealloc h2).snoc hwrite h3, rfl,
    ⟨⟨[⟨s0, .allocate_frame, some (.ofIndex 1)⟩], ⟨s1, .deallocate_frame (.ofIndex 1), none⟩,
      [⟨s2, .write 1 0xDEAD, none⟩], .ofIndex 1, rfl, rfl, by simp, by simp [handed]⟩, ?_⟩,
    hb2.withMemory _, hone⟩
  simp [System.withMemory, FREE_CANARY]

theorem stale_frame_handed_out_run :
    ∃ start history s, System.boot (fun _ => 0) one_frame = .ok start ∧
      Run System.Legal (System.step true) start history s ∧ Stale history s 1 ∧
      ∃ s'', s.step true .allocate_frame = .ok (some (.ofIndex 1), s'') ∧ 1 ∈ s''.owned ∧
        s''.pmm.memory 1 ≠ FREE_CANARY := by
  obtain ⟨start, history, s, L, hboot, hrun, -, hstale, hb, hfree⟩ :=
    stale_run (fun _ => 0) (by decide)
  refine ⟨start, history, s, hboot, hrun, hstale, ?_⟩
  obtain ⟨s', L', hs', -⟩ := (hb.withMemory _).allocate_only_frame true hfree
  exact stale_frame_handed_out _ _ start s history hboot hrun 1 hstale .allocate_frame trivial _ s'
    hs' (by simp [handed, Op.count])

-- The store after the free goes unnoticed: the next allocation returns the frame.
theorem stale_store_unnoticed :
    ∃ start history s s', System.boot (fun _ => 0) one_frame = .ok start ∧
      Run System.Legal (System.step true) start history s ∧
      history.map Event.op =
        [.allocate_frame, .deallocate_frame (.ofIndex 1), .write 1 0xDEAD] ∧
      s.step true .allocate_frame = .ok (some (.ofIndex 1), s') := by
  obtain ⟨start, history, s, L, hboot, hrun, hops, -, hb, hfree⟩ :=
    stale_run (fun _ => 0) (by decide)
  obtain ⟨s', -, hs', -⟩ := hb.allocate_only_frame true hfree
  exact ⟨start, history, s, s', hboot, hrun, hops, hs'⟩

end UseAfterFree

end Orin.Memory.Pmm
