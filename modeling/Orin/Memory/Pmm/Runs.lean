import Mathlib.Data.Finset.Union
import Orin.Memory.Pmm.Init
import Orin.Theory.Ledger
import Orin.Theory.Run

namespace Orin.Memory.Pmm

open Rust Bitmap Multiboot Theory

-- The calls the rest of the kernel makes, and the one thing a frame's user does to
-- the allocator behind its back: store to the frame's first word.
inductive Op where
  | reserve_range (start stop : UInt64)
  | allocate_frame
  | allocate_contiguous (count align_frames : UInt64)
  | deallocate_frame (frame : PhysFrame)
  | write (frame : Nat) (word : Word)

def Op.count : Op → Nat
  | .allocate_frame => 1
  | .allocate_contiguous count _ => count.toNat
  | _ => 0

def Op.Allocates : Op → Prop
  | .allocate_frame => True
  | .allocate_contiguous _ _ => True
  | _ => False

-- The frames an answer hands to the caller.
def handed (op : Op) : Option PhysFrame → Finset Nat
  | none => ∅
  | some frame => Finset.Ico frame.index (frame.index + op.count)

-- The allocator with the frames its callers hold, as often as they were handed out.
structure System where
  pmm : State
  owned : Multiset Nat

namespace System

def withMemory (s : System) (m : Nat → Word) : System :=
  { s with pmm := { s.pmm with memory := m } }

def boot (memory : Nat → Word) (info : BootInfo) : Except Panic System := do
  return ⟨← State.init ⟨PmmInner.new, 0, memory⟩ info, 0⟩

def step (debug : Bool) (s : System) (op : Op) : Except Panic (Option PhysFrame × System) :=
  match op with
  | .reserve_range start stop => do
      let pmm ← s.pmm.reserve_range start.toNat stop.toNat
      return (none, { s with pmm })
  | .allocate_frame => do
      let (answer, pmm) ← s.pmm.allocate_frame
      return (answer, ⟨pmm, s.owned + (handed op answer).val⟩)
  | .allocate_contiguous count align_frames => do
      let (answer, pmm) ← s.pmm.allocate_contiguous count.toNat align_frames.toNat
      return (answer, ⟨pmm, s.owned + (handed op answer).val⟩)
  | .deallocate_frame frame => do
      let pmm ← s.pmm.deallocate_frame debug frame
      return (none, ⟨pmm, s.owned.erase frame.index⟩)
  | .write frame word => .ok (none, s.withMemory (Function.update s.pmm.memory frame word))

-- Callers give back only what they own.
def Legal (s : System) : Op → Prop
  | .deallocate_frame frame => frame.index ∈ s.owned
  | _ => True

def free (s : System) (f : Nat) : Prop := bit s.pmm.inner.bitmap f = true

end System

abbrev Call := Event System Op (Option PhysFrame)

-- The allocator's state keeps the books of this ledger.
structure Books (s : System) (L : Ledger Nat) : Prop where
  free : members s.pmm.inner.bitmap = L.free
  owned : s.owned = L.owned.val
  managed : ∀ f ∈ L.all, f < MAX_FRAMES
  counted : Counted s.pmm.inner
  reserved_frames : s.pmm.inner.reserved_frames = L.withheld.card
  total_frames : s.pmm.inner.total_frames = L.all.card
  initialised : s.pmm.inner.initialised = true

-- What each call does to the ledger.
inductive Moved : Op → Option PhysFrame → Ledger Nat → Ledger Nat → Prop
  | reserve_range (start stop : UInt64) (L : Ledger Nat) :
      Moved (.reserve_range start stop) none L (L.withdraw (touched start.toNat stop.toNat))
  | exhausted (op : Op) (hop : op.Allocates) (L : Ledger Nat) : Moved op none L L
  | granted (op : Op) (hop : op.Allocates) (frame : PhysFrame) (L : Ledger Nat)
      (h : handed op (some frame) ⊆ L.free) :
      Moved op (some frame) L (L.handOut (handed op (some frame)) h)
  | deallocate_frame (frame : PhysFrame) (L : Ledger Nat) (h : frame.index ∈ L.owned) :
      Moved (.deallocate_frame frame) none L (L.giveBack frame.index h)
  | write (frame : Nat) (word : Word) (L : Ledger Nat) : Moved (.write frame word) none L L

theorem Moved.move {op : Op} {answer : Option PhysFrame} {L L' : Ledger Nat}
    (h : Moved op answer L L') : L.Move L' := by
  cases h with
  | reserve_range start stop => exact .withdraw L _
  | exhausted => exact .stay L
  | granted =>
      rename_i hsub
      exact .handOut L _ hsub
  | deallocate_frame =>
      rename_i hmem
      exact .giveBack L _ hmem
  | write => exact .stay L

-- The stops a legal call can meet.
def Stopped (debug : Bool) (s : System) : Op → Panic → Prop
  | .reserve_range start stop, e =>
      e = .addOverflow ∧ start.toNat < stop.toNat ∧ WORD ≤ stop.toNat + FRAME_SIZE
  | .allocate_contiguous count align_frames, e =>
      RunOverflow (MAX_FRAMES + max align_frames.toNat 1 + count.toNat) e
  | .deallocate_frame frame, e =>
      debug = true ∧ s.pmm.memory frame.index = FREE_CANARY ∧
        e = .explicit (modified_after_free frame.index frame.start_address)
  | _, _ => False

theorem frame_from_index_ok {idx : Nat} (h : idx ≤ MAX_FRAMES) :
    ∃ frame, frame_from_index idx = .ok frame ∧ frame.index = idx := by
  have hfit : idx * FRAME_SIZE < WORD := by
    rw [WORD_eq]
    rw [MAX_FRAMES_val] at h
    unfold FRAME_SIZE
    omega
  refine ⟨⟨idx * FRAME_SIZE, Nat.mul_mod_left _ _⟩, by simp [frame_from_index, hfit], ?_⟩
  exact Nat.mul_div_cancel idx (by decide)

theorem allocate_contiguous_spec {p : State} (count align : Nat)
    (hinit : p.inner.initialised = true) (hp : Counted p.inner) :
    Ends (fun r => Answered p count align (r.1.map PhysFrame.index) r.2)
      (RunOverflow (MAX_FRAMES + max align 1 + count)) (p.allocate_contiguous count align) := by
  refine (allocate_spec count align hinit hp).bind ?_
  rintro ⟨r, p'⟩ h
  cases r with
  | none => exact h
  | some idx =>
      obtain ⟨frame, hframe, rfl⟩ :=
        frame_from_index_ok (Nat.le_trans (Nat.le_add_right idx count) h.1.stop_le)
      dsimp only
      rw [hframe]
      exact h

namespace Books

variable {s : System} {L : Ledger Nat}

theorem free_iff (h : Books s L) {f : Nat} : s.free f ↔ f ∈ L.free := by
  rw [← h.free, mem_members]
  rfl

theorem mem_owned (h : Books s L) {f : Nat} : f ∈ s.owned ↔ f ∈ L.owned := by
  rw [h.owned]
  rfl

theorem card_le (h : Books s L) : L.all.card ≤ MAX_FRAMES := by
  have hsub : L.all ⊆ Finset.range MAX_FRAMES := fun f hf => Finset.mem_range.mpr (h.managed f hf)
  have := Finset.card_le_card hsub
  rwa [Finset.card_range] at this

theorem free_frames (h : Books s L) : s.pmm.inner.free_frames = L.free.card := by
  rw [h.counted, h.free]

theorem counters_lt (h : Books s L) :
    s.pmm.inner.free_frames + s.pmm.inner.reserved_frames < WORD := by
  have h1 := h.card_le
  have h2 := L.card_all
  rw [h.free_frames, h.reserved_frames, WORD_eq]
  rw [MAX_FRAMES_val] at h1
  omega

-- An allocation: granted frames move from the free set to the owner.
theorem answered (h : Books s L) (op : Op) (hop : op.Allocates) {align : Nat}
    {answer : Option PhysFrame} {p : State}
    (hanswer : Answered s.pmm op.count align (answer.map PhysFrame.index) p) :
    ∃ L', Moved op answer L L' ∧ Books ⟨p, s.owned + (handed op answer).val⟩ L' := by
  cases answer with
  | none =>
      obtain ⟨rfl, -⟩ := hanswer
      refine ⟨L, .exhausted op hop L, ?_⟩
      have : s.owned + (handed op none).val = s.owned := by simp [handed]
      rw [this]
      exact h
  | some frame =>
      obtain ⟨hg, -⟩ := hanswer
      have hsub : handed op (some frame) ⊆ L.free := h.free ▸ hg.free
      have hdisj : Disjoint L.owned (handed op (some frame)) := L.free_owned.symm.mono_right hsub
      have hmove := Ledger.Move.handOut L _ hsub
      refine ⟨_, .granted op hop frame L hsub, ?_⟩
      refine ⟨?_, ?_, fun f hf => h.managed f (hmove.all_eq ▸ hf), hg.counted, ?_, ?_, ?_⟩
      · exact hg.bitmap.trans (by rw [h.free]; rfl)
      · change s.owned + _ = (L.owned ∪ _).val
        rw [h.owned, ← Finset.disjUnion_eq_union _ _ hdisj]
        rfl
      · exact hg.reserved_frames.trans h.reserved_frames
      · rw [hmove.all_eq]
        exact hg.record.total_frames.trans h.total_frames
      · exact hg.record.initialised.trans h.initialised

theorem reserved (h : Books s L) {start stop : Nat} {p : PmmInner}
    (hr : Reserved s.pmm.inner (touched start stop) p) :
    Books { s with pmm := { s.pmm with inner := p } } (L.withdraw (touched start stop)) := by
  have hmove := Ledger.Move.withdraw L (touched start stop)
  refine ⟨?_, h.owned, fun f hf => h.managed f (hmove.all_eq ▸ hf), hr.counted, ?_, ?_, ?_⟩
  · exact hr.bitmap.trans (by rw [h.free]; rfl)
  · -- The frames that left the free set are the ones now withheld.
    have hbooks := h.free_frames
    have hreserved := h.reserved_frames
    have hafter : p.free_frames = (L.free \ touched start stop).card := by
      rw [hr.counted, hr.bitmap, h.free]
    have hsplit := Finset.card_sdiff_add_card_inter L.free (touched start stop)
    have hunion : (L.withheld ∪ L.free ∩ touched start stop).card =
        L.withheld.card + (L.free ∩ touched start stop).card :=
      Finset.card_union_of_disjoint (L.free_withheld.symm.mono_right Finset.inter_subset_left)
    have hsum := hr.reserved_frames
    change p.reserved_frames = (L.withheld ∪ L.free ∩ touched start stop).card
    omega
  · rw [hmove.all_eq]
    exact hr.record.total_frames.trans h.total_frames
  · exact hr.record.initialised.trans h.initialised

theorem givenBack (h : Books s L) {debug : Bool} {frame : PhysFrame} {p : State}
    (hmem : frame.index ∈ L.owned) (hg : GivenBack debug s.pmm frame.index p) :
    Books ⟨p, s.owned.erase frame.index⟩ (L.giveBack frame.index hmem) := by
  have hmove := Ledger.Move.giveBack L frame.index hmem
  refine ⟨?_, ?_, fun f hf => h.managed f (hmove.all_eq ▸ hf), hg.counted, ?_, ?_, ?_⟩
  · exact hg.bitmap.trans (by rw [h.free]; rfl)
  · rw [h.owned]
    rfl
  · exact hg.reserved_frames.trans h.reserved_frames
  · rw [hmove.all_eq]
    exact hg.record.total_frames.trans h.total_frames
  · exact hg.record.initialised.trans h.initialised

-- The books do not depend on what the frames contain.
theorem withMemory (h : Books s L) (m : Nat → Word) : Books (s.withMemory m) L :=
  ⟨h.free, h.owned, h.managed, h.counted, h.reserved_frames, h.total_frames, h.initialised⟩

-- Every call is a ledger move, and stops only where `Stopped` says.
theorem step (h : Books s L) (debug : Bool) {op : Op} (hlegal : s.Legal op) :
    Ends (fun r => ∃ L', Moved op r.1 L L' ∧ Books r.2 L') (Stopped debug s op)
      (s.step debug op) := by
  cases op with
  | reserve_range start stop =>
      have hspec := reserve_range_spec start.toNat stop.toNat h.counted h.counters_lt
      refine Ends.bind (P := fun p => Books { s with pmm := p }
        (L.withdraw (touched start.toNat stop.toNat))) (hspec.bind fun p hp => h.reserved hp) ?_
      exact fun p hp => ⟨_, .reserve_range start stop L, hp⟩
  | allocate_frame =>
      have hspec := allocate_contiguous_spec 1 1 h.initialised h.counted
      refine Ends.bind (hspec.mono (fun _ => id) fun e he => ?_) fun r hr =>
        h.answered .allocate_frame trivial hr
      have := he.1
      rw [WORD_eq, MAX_FRAMES_val] at this
      omega
  | allocate_contiguous count align_frames =>
      exact (allocate_contiguous_spec count.toNat align_frames.toNat h.initialised h.counted).bind
        fun r hr => h.answered (.allocate_contiguous count align_frames) trivial hr
  | deallocate_frame frame =>
      have hmem : frame.index ∈ L.owned := h.mem_owned.mp hlegal
      have hlt : frame.index < MAX_FRAMES := h.managed _ (by simp [Ledger.all, hmem])
      have hused : frame.index ∉ members s.pmm.inner.bitmap := by
        rw [h.free]
        exact Finset.disjoint_right.mp L.free_owned hmem
      refine Ends.bind ((deallocate_spec debug frame.start_address h.counted).mono
        (fun _ => id) fun e he => ?_) fun p hp => ?_
      · rcases he with ⟨hge, -⟩ | ⟨hin, -⟩ | ⟨hdebug, hword, rfl⟩
        · exact absurd hlt (Nat.not_lt.mpr hge)
        · exact absurd hin hused
        · exact ⟨hdebug, hword, rfl⟩
      · exact ⟨_, .deallocate_frame frame L hmem, h.givenBack hmem hp.1⟩
  | write frame word => exact ⟨L, .write frame word L, h.withMemory _⟩

end Books

section Forward

variable {s : System} {L : Ledger Nat}

theorem Answered.memory_eq {p p' : State} {count align : Nat} {r : Option Nat}
    (h : Answered p count align r p') : p'.memory = p.memory := by
  cases r with
  | none => rw [h.1]
  | some idx => exact h.1.memory

-- One frame is refused only when there is none.
theorem Answered.eq_empty_of_none {p p' : State} {align : Nat}
    (h : Answered p 1 align none p') : members p.inner.bitmap = ∅ := by
  have hacross := (nextFit_none_iff _ (Nat.min_le_right _ _) (Nat.le_refl 1)).mp h.2.2
  refine Finset.eq_empty_of_forall_notMem fun f hf => ?_
  have hbit := mem_members.mp hf
  have hlt : f < MAX_FRAMES := lt_of_bit hbit
  have := hacross f ((runAt_single _).mpr ⟨hlt, hbit⟩)
  omega

namespace PhysFrame

def ofIndex (f : Nat) : PhysFrame := ⟨f * FRAME_SIZE, Nat.mul_mod_left f FRAME_SIZE⟩

@[simp] theorem index_ofIndex (f : Nat) : (ofIndex f).index = f :=
  Nat.mul_div_cancel f (by decide)

theorem ofIndex_index (frame : PhysFrame) : ofIndex frame.index = frame := by
  obtain ⟨address, haligned⟩ := frame
  simp only [ofIndex, index, PhysFrame.mk.injEq]
  exact Nat.div_mul_cancel (Nat.dvd_of_mod_eq_zero haligned)

end PhysFrame

theorem Books.allocate_first (h : Books s L) (debug : Bool) {f : Nat}
    (hfirst : FirstFree s.pmm.inner.bitmap (min s.pmm.cursor MAX_FRAMES) f) :
    ∃ s' L', s.step debug .allocate_frame = .ok (some (.ofIndex f), s') ∧ Books s' L' ∧
      L'.free = L.free.erase f ∧ L'.owned = insert f L.owned ∧
      s'.pmm.memory = s.pmm.memory ∧ s'.pmm.cursor = f + 1 := by
  have hspec := allocate_contiguous_spec 1 1 h.initialised h.counted
  simp only [System.step, State.allocate_frame]
  cases hr : s.pmm.allocate_contiguous 1 1 with
  | error e =>
      have hover := (hspec.of_eq_error hr).1
      rw [WORD_eq, MAX_FRAMES_val] at hover
      omega
  | ok r =>
      obtain ⟨answer, p⟩ := r
      have hanswer := hspec.of_eq_ok hr
      cases answer with
      | none =>
          have hmem := mem_members.mpr hfirst.free
          rw [hanswer.eq_empty_of_none] at hmem
          exact absurd hmem (Finset.notMem_empty f)
      | some frame =>
          have hone : handed .allocate_frame (some frame) = {frame.index} := by
            simp [handed, Op.count]
          have hindex : frame.index = f :=
            ((hanswer.2.2 (Nat.le_refl 1)).firstFree _ MAX_FRAMES_eq).unique _ hfirst
          obtain ⟨L', hmoved, hb⟩ := h.answered .allocate_frame trivial hanswer
          rw [← hindex, PhysFrame.ofIndex_index]
          refine ⟨_, L', rfl, hb, ?_⟩
          cases hmoved with
          | granted =>
              refine ⟨?_, ?_, hanswer.memory_eq, hanswer.1.cursor⟩
              · change L.free \ handed .allocate_frame (some frame) = _
                rw [hone, Finset.sdiff_singleton_eq_erase]
              · change L.owned ∪ handed .allocate_frame (some frame) = _
                rw [hone, Finset.union_comm, ← Finset.insert_eq]

-- A system with one frame left hands out that frame.
theorem Books.allocate_only_frame (h : Books s L) (debug : Bool) {f : Nat} (hfree : L.free = {f}) :
    ∃ s' L', s.step debug .allocate_frame = .ok (some (.ofIndex f), s') ∧ Books s' L' ∧
      L'.free = ∅ ∧ L'.owned = insert f L.owned ∧ s'.pmm.memory = s.pmm.memory := by
  have honly : ∀ g, bit s.pmm.inner.bitmap g = true ↔ g = f := by
    intro g
    rw [← mem_members, h.free, hfree, Finset.mem_singleton]
  obtain ⟨s', L', hs, hb, hfree', howned, hmemory, -⟩ :=
    h.allocate_first debug (firstFree_only _ honly)
  exact ⟨s', L', hs, hb, by rw [hfree', hfree, Finset.erase_singleton], howned, hmemory⟩

theorem Books.deallocate_owned (h : Books s L) (debug : Bool) {f : Nat} (hf : f ∈ L.owned)
    (hword : debug = true → s.pmm.memory f ≠ FREE_CANARY) :
    ∃ s' L', s.step debug (.deallocate_frame (.ofIndex f)) = .ok (none, s') ∧ Books s' L' ∧
      L'.free = insert f L.free ∧ L'.owned = L.owned.erase f ∧
      s'.pmm.memory = if debug then Function.update s.pmm.memory f FREE_CANARY
        else s.pmm.memory := by
  have hspec := deallocate_spec (p := s.pmm) debug (PhysFrame.ofIndex f).start_address h.counted
  have hindex : (PhysFrame.ofIndex f).start_address / FRAME_SIZE = f := PhysFrame.index_ofIndex f
  rw [hindex] at hspec
  simp only [System.step, State.deallocate_frame]
  cases hr : s.pmm.deallocate debug (PhysFrame.ofIndex f).start_address with
  | error e =>
      rcases hspec.of_eq_error hr with ⟨hge, -⟩ | ⟨hin, -⟩ | ⟨hd, hw, -⟩
      · have := h.managed f (by simp [Ledger.all, hf])
        omega
      · rw [hindex, h.free] at hin
        exact absurd hf (Finset.disjoint_left.mp L.free_owned hin)
      · rw [hindex] at hw
        exact absurd hw (hword hd)
  | ok p =>
      have hg := (hspec.of_eq_ok hr).1
      rw [← PhysFrame.index_ofIndex f] at hg hf
      refine ⟨_, _, rfl, h.givenBack hf hg, ?_⟩
      simp only [PhysFrame.index_ofIndex] at hg
      refine ⟨?_, ?_, hg.memory⟩
      · simp [Ledger.giveBack]
      · simp [Ledger.giveBack]

theorem Books.deallocate_free (h : Books s L) (debug : Bool) {f : Nat} (hf : f ∈ L.free) :
    s.pmm.deallocate_frame debug (.ofIndex f) =
      .error (.explicit (double_free f (f * FRAME_SIZE))) := by
  have hlt : f < MAX_FRAMES := h.managed f (by simp [Ledger.all, hf])
  have hindex : (PhysFrame.ofIndex f).start_address / FRAME_SIZE = f := PhysFrame.index_ofIndex f
  have hbit : bit s.pmm.inner.bitmap f = true := mem_members.mp (h.free ▸ hf)
  simp only [State.deallocate_frame, State.deallocate, hindex, Nat.not_le.mpr hlt, if_false,
    bit_test_ok _ (MAX_FRAMES_eq ▸ hlt), ok_bind, hbit, if_true]
  rfl

theorem Books.reserve_ok (h : Books s L) (debug : Bool) {a b : UInt64}
    (hfit : b.toNat + FRAME_SIZE < WORD) :
    ∃ s', s.step debug (.reserve_range a b) = .ok (none, s') ∧
      Books s' (L.withdraw (touched a.toNat b.toNat)) ∧ s'.pmm.memory = s.pmm.memory := by
  have hspec := reserve_range_spec a.toNat b.toNat h.counted h.counters_lt
  simp only [System.step, State.reserve_range]
  cases hr : s.pmm.inner.reserve_range a.toNat b.toNat with
  | error e => exact absurd (hspec.of_eq_error hr).2.2 (Nat.not_le.mpr hfit)
  | ok p => exact ⟨_, rfl, h.reserved (hspec.of_eq_ok hr), rfl⟩

end Forward

end Orin.Memory.Pmm
