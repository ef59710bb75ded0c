import Orin.Memory.Machine

namespace Orin.Memory

open Rust Bitmap Arch Theory
open Theory.Radix (Mem write)
open Pmm (FRAME_SIZE FREE_CANARY MAX_FRAMES PhysFrame PmmInner System Books Op handed Moved)

section Allocator

variable {p : Pmm.State} {a b : Multiset Nat} {debug : Bool} {op : Op} {answer : Option PhysFrame}
variable {s s' : System}

-- A call goes the same way whoever else owns frames.
theorem step_add (hlegal : System.Legal ⟨p, a⟩ op)
    (hs : System.step debug ⟨p, a⟩ op = .ok (answer, s')) :
    System.step debug ⟨p, a + b⟩ op = .ok (answer, ⟨s'.pmm, s'.owned + b⟩) := by
  cases op with
  | reserve_range start stop =>
      obtain ⟨q, hq, hs⟩ := bind_eq_ok.mp hs
      cases hs
      simp only [System.step, hq, ok_bind, pure, Except.pure]
  | allocate_frame =>
      obtain ⟨q, hq, hs⟩ := bind_eq_ok.mp hs
      cases hs
      simp only [System.step, hq, ok_bind, pure, Except.pure, add_right_comm]
  | allocate_contiguous count align_frames =>
      obtain ⟨q, hq, hs⟩ := bind_eq_ok.mp hs
      cases hs
      simp only [System.step, hq, ok_bind, pure, Except.pure, add_right_comm]
  | deallocate_frame frame =>
      obtain ⟨q, hq, hs⟩ := bind_eq_ok.mp hs
      cases hs
      simp only [System.step, hq, ok_bind, pure, Except.pure]
      rw [Multiset.erase_add_left_pos b hlegal]
  | write frame word =>
      cases hs
      rfl

-- The allocator marks the frame it takes back, and no other.
theorem step_elsewhere {L : Ledger Nat} (h : Books s L) (hwrite : ∀ f w, op ≠ .write f w)
    (hs : s.step debug op = .ok (answer, s')) {g : Nat}
    (hg : ∀ frame, op = .deallocate_frame frame → g ≠ frame.index) :
    s'.pmm.memory g = s.pmm.memory g := by
  cases op with
  | reserve_range start stop =>
      obtain ⟨q, hq, hs⟩ := bind_eq_ok.mp hs
      obtain ⟨inner, -, hq⟩ := bind_eq_ok.mp hq
      cases hq
      cases hs
      rfl
  | allocate_frame =>
      obtain ⟨q, hq, hs⟩ := bind_eq_ok.mp hs
      have hanswer := (Pmm.allocate_contiguous_spec 1 1 h.initialised h.counted).of_eq_ok hq
      cases hs
      exact congrFun hanswer.memory_eq g
  | allocate_contiguous count align_frames =>
      obtain ⟨q, hq, hs⟩ := bind_eq_ok.mp hs
      have hanswer := (Pmm.allocate_contiguous_spec _ _ h.initialised h.counted).of_eq_ok hq
      cases hs
      exact congrFun hanswer.memory_eq g
  | deallocate_frame frame =>
      obtain ⟨q, hq, hs⟩ := bind_eq_ok.mp hs
      have hback := ((Pmm.deallocate_spec debug _ h.counted).of_eq_ok hq).1
      cases hs
      rw [hback.memory]
      split
      · exact Function.update_of_ne (hg frame rfl) _ _
      · rfl
  | write frame word => exact absurd rfl (hwrite frame word)

end Allocator

-- The books of the allocator and the tables of the kernel fit together: a table is a
-- frame of the pool, or never was in circulation.
structure Coherent (m : Machine) (L : Ledger Nat) : Prop where
  books : Books m.system L
  sound : Vmm.Sound m.vmm
  drawn : m.vmm.supply = []
  own : ∀ a, m.vmm.IsTable a → a / FRAME_SIZE ∈ m.tables ∨ a / FRAME_SIZE ∉ L.free ∪ L.owned
  count : m.vmm.allocated = m.tables.length

namespace Coherent

variable {m m' : Machine} {L L' : Ledger Nat} {debug : Bool} {answer : Option PhysFrame}

theorem owned_eq (h : Coherent m L) : L.owned.val = m.held + m.tables := h.books.owned.symm

theorem mem_owned_of_held (h : Coherent m L) {f : Nat} (hf : f ∈ m.held) : f ∈ L.owned := by
  rw [← Finset.mem_val, h.owned_eq]
  exact Multiset.mem_add.mpr (.inl hf)

theorem mem_owned_of_table (h : Coherent m L) {f : Nat} (hf : f ∈ m.tables) : f ∈ L.owned := by
  rw [← Finset.mem_val, h.owned_eq]
  exact Multiset.mem_add.mpr (.inr hf)

-- Callers and the pool have no frame in common.
theorem not_held_of_table (h : Coherent m L) {f : Nat} (hf : f ∈ m.tables) : f ∉ m.held := by
  have hnodup : (m.held + (m.tables : Multiset Nat)).Nodup := h.owned_eq ▸ L.owned.nodup
  exact fun hheld => Multiset.disjoint_left.mp (Multiset.nodup_add.mp hnodup).2.2 hheld hf

theorem isTable_not_held (h : Coherent m L) {a : Nat} (ha : m.vmm.IsTable a) :
    a / FRAME_SIZE ∉ m.held := by
  rcases h.own a ha with hin | hout
  · exact h.not_held_of_table hin
  · exact fun hheld => hout (Finset.mem_union_right _ (h.mem_owned_of_held hheld))

theorem isTable_not_free (h : Coherent m L) {a : Nat} (ha : m.vmm.IsTable a) :
    a / FRAME_SIZE ∉ L.free := by
  rcases h.own a ha with hin | hout
  · exact Finset.disjoint_right.mp L.free_owned (h.mem_owned_of_table hin)
  · exact fun hfree => hout (Finset.mem_union_left _ hfree)

-- The page-table code may draw on every free frame.
theorem lent (h : Coherent m L) {ahead : List Nat} (hnodup : ahead.Nodup)
    (hall : ∀ f, f ∈ ahead ↔ f ∈ L.free) : Vmm.Sound (m.lent ahead) := by
  refine Sound.with_supply h.sound ?_ ?_ ?_
  · exact hnodup.map fun f g (hfg : f * FRAME_SIZE = g * FRAME_SIZE) =>
      Nat.eq_of_mul_eq_mul_right (by decide) hfg
  · intro a ha
    obtain ⟨f, hf, rfl⟩ := List.mem_map.mp ha
    have hlt := h.books.managed f (by simp [Ledger.all, (hall f).mp hf])
    rw [Pmm.MAX_FRAMES_val] at hlt
    rw [BOOT_MAPPED_BYTES_eq, FRAME_SIZE]
    omega
  · intro a ha htable
    obtain ⟨f, hf, rfl⟩ := List.mem_map.mp ha
    refine h.isTable_not_free htable ?_
    rw [Nat.mul_div_cancel f (by decide)]
    exact (hall f).mp hf

-- A step that leaves the tables alone, and the allocator's books in order.
theorem of_same (h : Coherent m L) (hbooks : Books m'.system L') (hmove : L.Move L')
    (hsame : SameTables m.vmm m'.vmm) (htables : m'.tables = m.tables)
    (hallocated : m'.vmm.allocated = m.vmm.allocated) : Coherent m' L' where
  books := hbooks
  sound := hsame.sound h.sound
  drawn := hsame.supply.trans h.drawn
  own a ha := by
    rw [htables]
    refine (h.own a (hsame.isTable_iff.mp ha)).imp id fun hout hin => ?_
    exact hout (hmove.circulating_subset hin)
  count := by rw [hallocated, h.count, htables]

theorem pmm (h : Coherent m L) {op : Op} (hlegal : m.Legal (.pmm op))
    (hs : m.step debug (.pmm op) = .ok (answer, m')) :
    SameTables m.vmm m'.vmm ∧ ∃ L', L.Move L' ∧ Coherent m' L' := by
  have hwrite : ∀ f w, op ≠ .write f w := by
    rintro f w rfl
    exact hlegal
  have hcallers : m.callers.Legal op := by
    cases op with
    | write f w => exact absurd rfl (hwrite f w)
    | _ => exact hlegal
  obtain ⟨⟨_, s⟩, hstep, hs⟩ := bind_eq_ok.mp hs
  cases hs
  have hfull : m.system.step debug op = .ok (answer, ⟨s.pmm, s.owned + m.tables⟩) :=
    step_add hcallers hstep
  have hlegal' : m.system.Legal op := by
    cases op with
    | deallocate_frame frame => exact Multiset.mem_add.mpr (.inl hcallers)
    | _ => trivial
  obtain ⟨L', hmoved, hb⟩ := (h.books.step debug hlegal').of_eq_ok hfull
  have hsame : SameTables m.vmm (m.put s).vmm := by
    refine ⟨rfl, rfl, fun a ha i => mark_elsewhere ?_⟩
    refine step_elsewhere h.books hwrite hfull fun frame hop => ?_
    rintro hframe
    subst hop
    exact h.isTable_not_held ha (hframe ▸ hcallers)
  refine ⟨hsame, L', hmoved.move, h.of_same ?_ hmoved.move hsame rfl rfl⟩
  have hmemory : (m.put s).system = ⟨s.pmm, s.owned + m.tables⟩ := by
    rw [Machine.system, Machine.pmm, Machine.put, first_words_mark]
  rw [hmemory]
  exact hb

theorem store (h : Coherent m L) {frame index word : Nat} (hlegal : frame ∈ m.held)
    (hs : m.step debug (.store frame index word) = .ok (answer, m')) :
    SameTables m.vmm m'.vmm ∧ Coherent m' L := by
  cases hs
  have hsame : SameTables m.vmm (m.vmm.set (frame * FRAME_SIZE) index word) := by
    refine ⟨rfl, rfl, fun a ha i => Radix.write_table _ _ _ ?_⟩
    rintro rfl
    have hnot := h.isTable_not_held ha
    rw [Nat.mul_div_cancel frame (by decide)] at hnot
    exact hnot hlegal
  exact ⟨hsame, h.of_same (h.books.withMemory _) (.stay L) hsame rfl rfl⟩

-- The mappers take free frames for their tables and write to tables only.
theorem map (h : Coherent m L) {call : Vmm.Call} (hlegal : Vmm.Agreed m.vmm call)
    (hs : m.step debug (.map call) = .ok (answer, m')) :
    (∃ L', L.Move L' ∧ Coherent m' L') ∧
    (∀ f ∈ m.held, ∀ i, m'.vmm.mem (f * FRAME_SIZE) i = m.vmm.mem (f * FRAME_SIZE) i) ∧
    ∀ v q e, Vmm.mapping m.vmm v = some (q, e) → ∃ e', Vmm.mapping m'.vmm v = some (q, e') := by
  obtain ⟨⟨u, m₁⟩, hlend, hs⟩ := bind_eq_ok.mp hs
  cases hs
  obtain ⟨ahead, hnodup, hall, herror, hok⟩ := lend_eq h.books call.run
  have hsound := h.lent hnodup hall
  have hagreed : Vmm.Agreed (m.lent ahead) call := hlegal
  cases hcall : call.run (m.lent ahead) with
  | error e =>
      rw [herror e hcall] at hlend
      cases hlend
  | ok r =>
      obtain ⟨u', s'⟩ := r
      have hwithin := Sound.within hsound hagreed.spared.clear hcall
      obtain ⟨taken, rest, p, hsub, rfl, hsupply, hcount, hlend', hb⟩ :=
        hok u' s' hcall ⟨hwithin.supply, hwithin.count⟩
      obtain rfl : m.took s' p taken = m' :=
        congrArg Prod.snd (Except.ok.inj (hlend'.symm.trans hlend))
      have hmove := Ledger.Move.handOut L taken.toFinset hsub
      refine ⟨⟨_, hmove, hb, ?_, rfl, fun a ha => ?_, ?_⟩, fun f hf i => ?_, fun v q e hmap => ?_⟩
      · exact Sound.with_supply (hsound.call hagreed.spared.clear hcall) List.nodup_nil nofun nofun
      · rcases hwithin.tables a ha with hold | ⟨hin, hout⟩
        · refine (h.own a hold).imp (List.mem_append_left _) fun hnot hcirc => ?_
          exact hnot (hmove.circulating_subset hcirc)
        · obtain ⟨f, hf, rfl⟩ := List.mem_map.mp hin
          refine .inl (List.mem_append_right _ ?_)
          rw [Nat.mul_div_cancel f (by decide)]
          refine (List.mem_append.mp hf).resolve_right fun hrest => hout ?_
          rw [hsupply]
          exact List.mem_map_of_mem hrest
      · show s'.allocated = (m.tables ++ taken).length
        rw [List.length_append, ← h.count, hcount]
      · have howned := h.mem_owned_of_held hf
        refine hwithin.kept _ (fun htable => ?_) (fun hin => ?_) i
        · refine h.isTable_not_held htable ?_
          rwa [Nat.mul_div_cancel f (by decide)]
        · obtain ⟨g, hg, hgf⟩ := List.mem_map.mp hin
          obtain rfl : g = f := Nat.eq_of_mul_eq_mul_right (by decide) hgf
          exact absurd howned (Finset.disjoint_left.mp L.free_owned ((hall g).mp hg))
      · exact hagreed.keeps hsound hcall hmap

-- What every step keeps.
structure Keeps (m m' : Machine) (L L' : Ledger Nat) : Prop where
  coherent : Coherent m' L'
  circulating : L'.free ∪ L'.owned ⊆ L.free ∪ L.owned
  mapped : ∀ v q e, Vmm.mapping m.vmm v = some (q, e) → ∃ e', Vmm.mapping m'.vmm v = some (q, e')

theorem of_sameTables (hsame : SameTables m.vmm m'.vmm) (hmove : L.Move L') (h : Coherent m' L') :
    Keeps m m' L L' :=
  ⟨h, hmove.circulating_subset, fun _ _ e hmap => ⟨e, hsame.mapping ▸ hmap⟩⟩

theorem step (h : Coherent m L) {act : Act} (hlegal : m.Legal act)
    (hs : m.step debug act = .ok (answer, m')) : ∃ L', Keeps m m' L L' := by
  cases act with
  | pmm op =>
      obtain ⟨hsame, L', hmove, hcoherent⟩ := h.pmm hlegal hs
      exact ⟨L', of_sameTables hsame hmove hcoherent⟩
  | store frame index word =>
      obtain ⟨hsame, hcoherent⟩ := h.store hlegal hs
      exact ⟨L, of_sameTables hsame (.stay L) hcoherent⟩
  | map call =>
      obtain ⟨⟨L', hmove, hcoherent⟩, -, hmapped⟩ := h.map hlegal hs
      exact ⟨L', hcoherent, hmove.circulating_subset, hmapped⟩

theorem run (h : Coherent m L) {history : List (Event Machine Act (Option PhysFrame))}
    (hrun : Run Machine.Legal (Machine.step debug) m history m') : ∃ L', Keeps m m' L L' := by
  refine hrun.invariant (fun m' => ∃ L', Keeps m m' L L')
    ⟨L, h, Finset.Subset.refl _, fun v q e hmap => ⟨e, hmap⟩⟩ ?_
  rintro m₁ act answer m₂ ⟨L₁, h₁⟩ hlegal hs
  obtain ⟨L₂, h₂⟩ := h₁.coherent.step hlegal hs
  refine ⟨L₂, h₂.coherent, h₂.circulating.trans h₁.circulating, fun v q e hmap => ?_⟩
  obtain ⟨e₁, hmap₁⟩ := h₁.mapped v q e hmap
  exact h₂.mapped v q e₁ hmap₁

-- Every frame is free, held by a caller, a table, or reserved.
theorem accounted (h : Coherent m L) :
    m.inner.free_frames + m.held.card + m.vmm.allocated + m.inner.reserved_frames =
      m.inner.total_frames := by
  have hfree : m.inner.free_frames = L.free.card := h.books.free_frames
  have hreserved : m.inner.reserved_frames = L.withheld.card := h.books.reserved_frames
  have htotal : m.inner.total_frames = L.all.card := h.books.total_frames
  have howned : L.owned.card = m.held.card + m.tables.length := by
    rw [← Finset.card_val, h.owned_eq, Multiset.card_add, Multiset.coe_card]
  have hall := L.card_all
  have hcount := h.count
  omega

end Coherent

end Orin.Memory
