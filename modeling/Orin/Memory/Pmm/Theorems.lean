import Orin.Memory.Pmm.Runs

namespace Orin.Memory.Pmm

open Rust Bitmap Multiboot Theory

variable {debug : Bool} {memory : Nat → Word} {info : BootInfo} {start s : System}
  {history past future : List Call} {legal : System → Op → Prop} {L : Ledger Nat}

theorem boot_spec (memory : Nat → Word) (info : BootInfo) :
    Ends (fun s => Books s (Ledger.ofFree (members s.pmm.inner.bitmap)) ∧
        Initialised info s.pmm.inner ∧ s.pmm.memory = memory)
      (fun e => e = .addOverflow ∧ WORD ≤ (info.mmap.as_slice.map unmapped).sum)
      (System.boot memory info) := by
  refine Ends.bind (P := fun p : State => Initialised info p.inner ∧ p.memory = memory)
    ((init_spec info).bind fun p hp => ⟨hp, rfl⟩) fun p hp => ⟨?_, hp⟩
  have hcard := hp.1.counted
  refine ⟨rfl, rfl, fun f hf => ?_, hcard, ?_, ?_, hp.1.initialised⟩
  · simp only [Ledger.all, Ledger.ofFree, Finset.union_empty, mem_members] at hf
    exact lt_of_bit hf
  · exact hp.1.reserved_frames
  · simp only [Ledger.all, Ledger.ofFree, Finset.union_empty]
    exact hp.1.total_frames.trans hcard

-- A machine with a single usable frame.
def one_frame : BootInfo :=
  { empty_info 0 with mmap := ⟨[⟨0x1000, 0x1000, memtype.AVAILABLE⟩], by decide⟩ }

theorem boot_ok (memory : Nat → Word) {info : BootInfo}
    (hfit : (info.mmap.as_slice.map unmapped).sum < WORD) :
    ∃ start, System.boot memory info = .ok start ∧
      Books start (Ledger.ofFree (members start.pmm.inner.bitmap)) ∧
      Initialised info start.pmm.inner ∧ start.pmm.memory = memory ∧ start.pmm.cursor = 0 := by
  have hspec := boot_spec memory info
  cases hr : System.boot memory info with
  | error e => exact absurd (hspec.of_eq_error hr).2 (Nat.not_le.mpr hfit)
  | ok start =>
      obtain ⟨hbooks, hinit, hmemory⟩ := hspec.of_eq_ok hr
      obtain ⟨p, hp, hstart⟩ := bind_eq_ok.mp hr
      obtain ⟨inner, -, hinner⟩ := bind_eq_ok.mp hp
      cases hinner
      cases hstart
      exact ⟨_, rfl, hbooks, hinit, hmemory, rfl⟩

theorem boot_one_frame (memory : Nat → Word) :
    ∃ start L, System.boot memory one_frame = .ok start ∧ Books start L ∧ L.free = {1} ∧
      L.owned = ∅ ∧ start.pmm.memory = memory := by
  have hfit : (one_frame.mmap.as_slice.map unmapped).sum < WORD := by
    rw [WORD_eq]
    decide +kernel
  obtain ⟨start, hboot, hbooks, hinit, hmemory, -⟩ := boot_ok memory hfit
  refine ⟨start, _, hboot, hbooks, ?_, rfl, hmemory⟩
  ext f
  have hpage : f ∈ usable ⟨0x1000, 0x1000, memtype.AVAILABLE⟩ ↔ f = 1 :=
    mem_usable_page rfl rfl rfl (by decide)
  rw [Ledger.ofFree, hinit.bitmap f, Finset.mem_singleton, ← hpage]
  simp [one_frame, Heapless.Vec.as_slice]

-- A machine with two usable frames, side by side.
def two_frames : BootInfo :=
  { empty_info 0 with
    mmap := ⟨[⟨0x1000, 0x1000, memtype.AVAILABLE⟩, ⟨0x2000, 0x1000, memtype.AVAILABLE⟩],
      by decide⟩ }

theorem boot_two_frames (memory : Nat → Word) :
    ∃ start L, System.boot memory two_frames = .ok start ∧ Books start L ∧ L.free = {1, 2} ∧
      start.pmm.memory = memory ∧ start.pmm.cursor = 0 := by
  have hfit : (two_frames.mmap.as_slice.map unmapped).sum < WORD := by
    rw [WORD_eq]
    decide +kernel
  obtain ⟨start, hboot, hbooks, hinit, hmemory, hcursor⟩ := boot_ok memory hfit
  refine ⟨start, _, hboot, hbooks, ?_, hmemory, hcursor⟩
  ext f
  have hpage1 : f ∈ usable ⟨0x1000, 0x1000, memtype.AVAILABLE⟩ ↔ f = 1 :=
    mem_usable_page rfl rfl rfl (by decide)
  have hpage2 : f ∈ usable ⟨0x2000, 0x1000, memtype.AVAILABLE⟩ ↔ f = 2 :=
    mem_usable_page rfl rfl rfl (by decide)
  rw [Ledger.ofFree, hinit.bitmap f]
  simp [two_frames, Heapless.Vec.as_slice, hpage1, hpage2]

-- Along a run the ledger keeps its units, and what is withheld stays withheld.
theorem Books.run (h : Books start L) (hlegal : ∀ s op, legal s op → s.Legal op)
    (hrun : Run legal (System.step debug) start history s) :
    ∃ L', Books s L' ∧ L'.all = L.all ∧ L.withheld ⊆ L'.withheld := by
  refine hrun.invariant (fun s => ∃ L', Books s L' ∧ L'.all = L.all ∧ L.withheld ⊆ L'.withheld)
    ⟨L, h, rfl, Finset.Subset.refl _⟩ ?_
  rintro s op answer s' ⟨L', hb, hall, hsub⟩ hl hs
  obtain ⟨L'', hmoved, hb''⟩ := (hb.step debug (hlegal s op hl)).of_eq_ok hs
  exact ⟨L'', hb'', hmoved.move.all_eq.trans hall, hsub.trans hmoved.move.withheld_subset⟩

theorem Moved.handed_subset {op : Op} {answer : Option PhysFrame} {L L' : Ledger Nat}
    (h : Moved op answer L L') : handed op answer ⊆ L.free := by
  cases h with
  | granted => assumption
  | _ => exact Finset.empty_subset _

theorem Moved.of_reserve {answer : Option PhysFrame} {L L' : Ledger Nat} {a b : UInt64}
    (h : Moved (.reserve_range a b) answer L L') : L' = L.withdraw (touched a.toNat b.toNat) := by
  cases h with
  | reserve_range => rfl
  | exhausted => contradiction
  | granted => contradiction

theorem Moved.free_subset {op : Op} {answer : Option PhysFrame} {L L' : Ledger Nat}
    (h : Moved op answer L L') {f : Nat} (hf : f ∈ L'.free) :
    f ∈ L.free ∨ ∃ frame, op = .deallocate_frame frame ∧ frame.index = f := by
  cases h with
  | deallocate_frame frame =>
      rcases Finset.mem_insert.mp hf with rfl | hf
      · exact .inr ⟨frame, rfl, rfl⟩
      · exact .inl hf
  | reserve_range => exact .inl (Finset.mem_sdiff.mp hf).1
  | granted => exact .inl (Finset.mem_sdiff.mp hf).1
  | exhausted => exact .inl hf
  | write => exact .inl hf

-- The state a recorded call found, as a ledger, and what the call did to it.
theorem run_at_event (hboot : System.boot memory info = .ok start) {e : Call}
    (hrun : Run System.Legal (System.step debug) start (past ++ e :: future) s) :
    ∃ L L' after, Books e.before L ∧ L.all = members start.pmm.inner.bitmap ∧
      Moved e.op e.answer L L' ∧ Books after L' ∧
      Run System.Legal (System.step debug) after future s := by
  obtain ⟨after, hpast, hlegal, hs, hfuture⟩ := hrun.at_event
  obtain ⟨L, hb, hall, -⟩ :=
    ((boot_spec memory info).of_eq_ok hboot).1.run (fun _ _ => id) hpast
  obtain ⟨L', hmoved, hb'⟩ := (hb.step debug hlegal).of_eq_ok hs
  refine ⟨L, L', after, hb, hall.trans ?_, hmoved, hb', hfuture⟩
  simp [Ledger.all, Ledger.ofFree]

theorem usable_in_entry {e : MmapEntry} {f : Nat} (h : f ∈ usable e) :
    e.mem_type = memtype.AVAILABLE ∧ e.base.toNat ≤ f * FRAME_SIZE ∧
      (f + 1) * FRAME_SIZE ≤ e.base.toNat + e.length.toNat := by
  obtain ⟨h1, h2, h3⟩ := mem_usable.mp h
  refine ⟨h1, h2, ?_⟩
  unfold saturating_add at h3
  omega

-- Exclusive ownership: a frame is handed out only from the free set, only from RAM
-- the firmware declared available, and never once a reservation has taken it.
theorem allocation_exclusive (debug : Bool) (memory : Nat → Word) (info : BootInfo)
    (start s : System) (history : List Call) (hboot : System.boot memory info = .ok start)
    (hrun : Run System.Legal (System.step debug) start history s) :
    (∀ past e future, history = past ++ e :: future → ∀ f ∈ handed e.op e.answer,
      e.before.free f ∧ f ∉ e.before.owned ∧ f < MAX_FRAMES ∧
      (∃ m ∈ info.mmap.as_slice, m.mem_type = memtype.AVAILABLE ∧
        m.base.toNat ≤ f * FRAME_SIZE ∧
        (f + 1) * FRAME_SIZE ≤ m.base.toNat + m.length.toNat) ∧
      ∀ d ∈ past, ∀ a b, d.op = .reserve_range a b → d.before.free f →
        ¬ SharesByte f a.toNat b.toNat) ∧
    s.owned.Nodup := by
  constructor
  · rintro past e future rfl f hf
    obtain ⟨L, L', after, hb, hall, hmoved, -, -⟩ := run_at_event hboot hrun
    have hfree : f ∈ L.free := hmoved.handed_subset hf
    have hmem : f ∈ L.all := by simp [Ledger.all, hfree]
    have hlt : f < MAX_FRAMES := hb.managed f hmem
    refine ⟨hb.free_iff.mpr hfree, ?_, hlt, ?_, ?_⟩
    · exact fun h => Finset.disjoint_left.mp L.free_owned hfree (hb.mem_owned.mp h)
    · obtain ⟨-, hinit, -⟩ := (boot_spec memory info).of_eq_ok hboot
      obtain ⟨m, hm, hf⟩ := (hinit.bitmap f).mp (hall ▸ hmem)
      exact ⟨m, hm, usable_in_entry hf⟩
    · intro d hd a b hop hdfree hshare
      -- From the reservation on the frame is withheld, so it cannot be free here.
      obtain ⟨before, between, rfl⟩ := List.append_of_mem hd
      rw [List.append_assoc, List.cons_append] at hrun
      obtain ⟨Ld, Ld', afterd, hbd, -, hmovedd, hbd', hrest⟩ := run_at_event hboot hrun
      obtain ⟨-, hbetween, -⟩ := hrest.at_event
      obtain ⟨Le, hbe, -, hsub⟩ := hbd'.run (fun _ _ => id) hbetween
      have hwith : f ∈ Ld'.withheld := by
        rw [hop] at hmovedd
        rw [hmovedd.of_reserve]
        refine Finset.mem_union_right _ (Finset.mem_inter.mpr ⟨hbd.free_iff.mp hdfree, ?_⟩)
        exact mem_touched.mpr ⟨hlt, hshare⟩
      have hfree' : f ∈ Le.free := hbe.free_iff.mp (hb.free_iff.mpr hfree)
      exact Finset.disjoint_left.mp Le.free_withheld hfree' (hsub hwith)
  · obtain ⟨L, hb, -, -⟩ := ((boot_spec memory info).of_eq_ok hboot).1.run (fun _ _ => id) hrun
    rw [hb.owned]
    exact L.owned.nodup

-- One frame taken, reserved while taken, given back, and taken again.
def reissue : List Op :=
  [.allocate_frame, .reserve_range 0x1000 0x2000, .deallocate_frame (.ofIndex 1), .allocate_frame]

theorem reissue_run (memory : Nat → Word) :
    ∃ start history s, System.boot memory one_frame = .ok start ∧
      Run System.Legal (System.step false) start history s ∧
      history.map Event.op = reissue ∧
      history.map Event.answer = [some (.ofIndex 1), none, none, some (.ofIndex 1)] := by
  obtain ⟨s0, L0, hboot, hb0, hfree0, howned0, -⟩ := boot_one_frame memory
  obtain ⟨s1, L1, h1, hb1, hfree1, howned1, -⟩ := hb0.allocate_only_frame false hfree0
  obtain ⟨s2, h2, hb2, -⟩ := hb1.reserve_ok false (a := 0x1000) (b := 0x2000) (by
    rw [WORD_eq]
    decide)
  have hmem : 1 ∈ L1.owned := by simp [howned1]
  obtain ⟨s3, L3, h3, hb3, hfree3, -, -⟩ := hb2.deallocate_owned false hmem (by simp)
  have hone : L3.free = {1} := by
    rw [hfree3]
    simp [Ledger.withdraw, hfree1]
  obtain ⟨s4, L4, h4, -⟩ := hb3.allocate_only_frame false hone
  have hlegal : s2.Legal (.deallocate_frame (.ofIndex 1)) := by
    simpa [System.Legal] using hb2.mem_owned.mpr hmem
  have halloc : ∀ s : System, s.Legal .allocate_frame := fun _ => trivial
  have hreserve : s1.Legal (.reserve_range 0x1000 0x2000) := trivial
  exact ⟨s0, _, s4, hboot,
    (((Run.nil.snoc (halloc s0) h1).snoc hreserve h2).snoc hlegal h3).snoc (halloc s3) h4, rfl, rfl⟩

theorem allocation_exclusive_reissue :
    ∃ start history s, System.boot (fun _ => 0) one_frame = .ok start ∧
      Run System.Legal (System.step false) start history s ∧ history.map Event.op = reissue ∧
      (∀ past e future, history = past ++ e :: future → ∀ f ∈ handed e.op e.answer,
        e.before.free f ∧ f ∉ e.before.owned) ∧ s.owned.Nodup := by
  obtain ⟨start, history, s, hboot, hrun, hops, -⟩ := reissue_run fun _ => 0
  obtain ⟨hexcl, hnodup⟩ := allocation_exclusive false _ _ start s history hboot hrun
  exact ⟨start, history, s, hboot, hrun, hops,
    fun past e future h f hf => ⟨(hexcl past e future h f hf).1, (hexcl past e future h f hf).2.1⟩,
    hnodup⟩

-- The books balance in every state, so no counter is ever taken below zero.
theorem accounting_balanced (debug : Bool) (memory : Nat → Word) (info : BootInfo)
    (start s : System) (history : List Call) (hboot : System.boot memory info = .ok start)
    (hrun : Run System.Legal (System.step debug) start history s) :
    s.pmm.inner.free_frames = (members s.pmm.inner.bitmap).card ∧
    s.pmm.inner.total_frames =
      s.pmm.inner.free_frames + s.pmm.inner.reserved_frames + s.owned.card ∧
    ∀ op, s.Legal op → s.step debug op ≠ .error .subOverflow := by
  obtain ⟨L, hb, -, -⟩ := ((boot_spec memory info).of_eq_ok hboot).1.run (fun _ _ => id) hrun
  refine ⟨hb.counted, ?_, fun op hlegal hstop => ?_⟩
  · have hcard := L.card_all
    rw [hb.total_frames, hb.free_frames, hb.reserved_frames, hb.owned, hcard]
    change _ = _ + _ + L.owned.card
    omega
  · have h := (hb.step debug hlegal).of_eq_error hstop
    cases op with
    | reserve_range => exact absurd h.1 (by simp)
    | allocate_contiguous => exact absurd h.2 (by simp)
    | deallocate_frame => exact absurd h.2.2 (by simp)
    | allocate_frame => exact h
    | write => exact h

theorem accounting_balanced_reissue :
    ∃ start history s, System.boot (fun _ => 0) one_frame = .ok start ∧
      Run System.Legal (System.step false) start history s ∧ history.map Event.op = reissue ∧
      s.pmm.inner.total_frames =
        s.pmm.inner.free_frames + s.pmm.inner.reserved_frames + s.owned.card := by
  obtain ⟨start, history, s, hboot, hrun, hops, -⟩ := reissue_run fun _ => 0
  exact ⟨start, history, s, hboot, hrun, hops,
    (accounting_balanced false _ _ start s history hboot hrun).2.1⟩

section Reservation

-- No free frame shares a byte with the range.
def Clear (a b : UInt64) (s : System) : Prop := ∀ f, s.free f → ¬ SharesByte f a.toNat b.toNat

-- The call does not give back a frame of the range.
def Keeps (a b : UInt64) (op : Op) : Prop :=
  ∀ frame, op = .deallocate_frame frame → ¬ SharesByte frame.index a.toNat b.toNat

theorem clear_after_reserve {a b : UInt64} {s' : System} (h : Books s L)
    (h' : Books s' (L.withdraw (touched a.toNat b.toNat))) : Clear a b s' := by
  intro f hf hshare
  have hmem := Finset.mem_sdiff.mp (h'.free_iff.mp hf)
  have hlt : f < MAX_FRAMES := h.managed f (by simp [Ledger.all, hmem.1])
  exact hmem.2 (mem_touched.mpr ⟨hlt, hshare⟩)

theorem Clear.step {a b : UInt64} {s' : System} {op : Op} {answer : Option PhysFrame}
    (hclear : Clear a b s) (h : Books s L) (hlegal : s.Legal op) (hkeeps : Keeps a b op)
    (hs : s.step debug op = .ok (answer, s')) : Clear a b s' := by
  intro f hf
  obtain ⟨L', hmoved, hb'⟩ := (h.step debug hlegal).of_eq_ok hs
  rcases hmoved.free_subset (hb'.free_iff.mp hf) with hf | ⟨frame, rfl, rfl⟩
  · exact hclear f (h.free_iff.mpr hf)
  · exact hkeeps frame rfl

theorem Clear.run {a b : UInt64} (hclear : Clear a b start) (h : Books start L)
    (hrun : Run System.Legal (System.step debug) start history s)
    (hkeeps : ∀ e ∈ history, Keeps a b e.op) : Clear a b s := by
  have hrestrict := Run.restrict (fun _ op => Keeps a b op) hrun hkeeps
  have hboth : Clear a b s ∧ ∃ L, Books s L := by
    refine hrestrict.invariant (fun s => Clear a b s ∧ ∃ L, Books s L) ⟨hclear, L, h⟩ ?_
    rintro s op answer s' ⟨hc, L, hb⟩ ⟨hlegal, hk⟩ hs
    obtain ⟨L', -, hb'⟩ := (hb.step debug hlegal).of_eq_ok hs
    exact ⟨hc.step hb hlegal hk hs, L', hb'⟩
  exact hboth.1

-- A reservation lasts as long as no frame of its range is given back after it.
theorem reservation_lasts (debug : Bool) (memory : Nat → Word) (info : BootInfo)
    (start s : System) (past future : List Call) (r : Call) (a b : UInt64)
    (hboot : System.boot memory info = .ok start)
    (hrun : Run System.Legal (System.step debug) start (past ++ r :: future) s)
    (hr : r.op = .reserve_range a b) (hkeeps : ∀ e ∈ future, Keeps a b e.op) :
    ∀ e ∈ future, ∀ f ∈ handed e.op e.answer, ¬ SharesByte f a.toNat b.toNat := by
  intro e he f hf
  obtain ⟨L, L', after, hb, -, hmoved, hb', hrest⟩ := run_at_event hboot hrun
  rw [hr] at hmoved
  rw [hmoved.of_reserve] at hb'
  have hclear := clear_after_reserve hb hb'
  obtain ⟨before, behind, rfl⟩ := List.append_of_mem he
  obtain ⟨after', hbefore, hlegal, hs, -⟩ := hrest.at_event
  obtain ⟨Le, hbe, -, -⟩ := hb'.run (fun _ _ => id) hbefore
  obtain ⟨Le', hmovede, -⟩ := (hbe.step debug hlegal).of_eq_ok hs
  have hkeeps' : ∀ d ∈ before, Keeps a b d.op := fun d hd => hkeeps d (by simp [hd])
  exact hclear.run hb' hbefore hkeeps' f (hbe.free_iff.mpr (hmovede.handed_subset hf))

-- Half of frame 1 is reserved while it is free, and the next request gets frame 2.
theorem reservation_lasts_half_frame :
    ∃ start s r e, System.boot (fun _ => 0) two_frames = .ok start ∧
      Run System.Legal (System.step true) start ([] ++ r :: [e]) s ∧
      r.op = .reserve_range 0x1000 0x1800 ∧ r.before.free 1 ∧ SharesByte 1 0x1000 0x1800 ∧
      e.op = .allocate_frame ∧ e.answer = some (.ofIndex 2) ∧
      ∀ f ∈ handed e.op e.answer, ¬ SharesByte f 0x1000 0x1800 := by
  obtain ⟨s0, L0, hboot, hb0, hfree0, -, -⟩ := boot_two_frames fun _ => 0
  obtain ⟨s1, h1, hb1, -⟩ := hb0.reserve_ok true (a := 0x1000) (b := 0x1800) (by
    rw [WORD_eq]
    decide)
  have hleft : (L0.withdraw (touched (0x1000 : UInt64).toNat (0x1800 : UInt64).toNat)).free =
      {2} := by
    ext f
    simp only [Ledger.withdraw, hfree0, Finset.mem_sdiff, mem_touched, Finset.mem_insert,
      Finset.mem_singleton]
    constructor
    · rintro ⟨rfl | rfl, hout⟩
      · exact absurd ⟨by decide, by decide⟩ hout
      · rfl
    · rintro rfl
      exact ⟨.inr rfl, fun h => absurd h.2 (by decide)⟩
  obtain ⟨s2, L2, h2, -⟩ := hb1.allocate_only_frame true hleft
  have hreserve : s0.Legal (.reserve_range 0x1000 0x1800) := trivial
  have halloc : s1.Legal .allocate_frame := trivial
  have hrun := (Run.nil.snoc hreserve h1).snoc halloc h2
  have hfree : s0.free 1 := hb0.free_iff.mpr (by simp [hfree0])
  refine ⟨s0, s2, _, _, hboot, hrun, rfl, hfree, by decide, rfl, rfl, ?_⟩
  exact reservation_lasts true _ _ s0 s2 [] _ _ 0x1000 0x1800 hboot hrun rfl (by simp [Keeps]) _
    (List.mem_singleton.mpr rfl)

-- Freeing a frame that was reserved while it was owned puts it back in circulation.
theorem reserved_frame_reissued :
    ∃ start history s, System.boot (fun _ => 0) one_frame = .ok start ∧
      Run System.Legal (System.step false) start history s ∧
      history.map Event.op = [.allocate_frame, .reserve_range 0x1000 0x2000,
        .deallocate_frame (.ofIndex 1), .allocate_frame] ∧
      history.map Event.answer = [some (.ofIndex 1), none, none, some (.ofIndex 1)] ∧
      SharesByte 1 0x1000 0x2000 := by
  obtain ⟨start, history, s, hboot, hrun, hops, hanswers⟩ := reissue_run fun _ => 0
  exact ⟨start, history, s, hboot, hrun, hops, hanswers, by decide⟩

end Reservation

end Orin.Memory.Pmm
