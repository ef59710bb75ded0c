import Orin.Memory.Pmm.Draw
import Orin.Memory.Vmm.Calls

namespace Orin.Memory

open Rust Bitmap Arch Theory
open Theory.Radix (Mem write fill)
open Pmm (FRAME_SIZE PhysFrame PmmInner System Books handed)

-- The first word of each frame: all that the frame allocator reads and marks.
def first_words (mem : Mem Nat Nat Nat) (f : Nat) : Word := BitVec.ofNat 64 (mem (f * FRAME_SIZE) 0)

-- Memory whose first words have become `words`.
def mark (mem : Mem Nat Nat Nat) (words : Nat → Word) : Mem Nat Nat Nat := fun a i =>
  if i = 0 ∧ a % FRAME_SIZE = 0 ∧ words (a / FRAME_SIZE) ≠ first_words mem (a / FRAME_SIZE) then
    (words (a / FRAME_SIZE)).toNat
  else mem a i

-- One physical memory and the statics of its two managers. The memory is the one of `vmm`;
-- the frame allocator sees the first words of it. `held` are the frames that callers were
-- given, `tables` the ones `PT_POOL` took.
structure Machine where
  inner : PmmInner
  cursor : Nat
  vmm : Vmm.State
  held : Multiset Nat
  tables : List Nat

namespace Machine

def pmm (m : Machine) : Pmm.State := ⟨m.inner, m.cursor, first_words m.vmm.mem⟩

-- The allocator as its callers see it, and with the frames of the pool among the owned.
def callers (m : Machine) : System := ⟨m.pmm, m.held⟩

def system (m : Machine) : System := ⟨m.pmm, m.held + m.tables⟩

def put (m : Machine) (s : System) : Machine :=
  { m with
    inner := s.pmm.inner
    cursor := s.pmm.cursor
    vmm := { m.vmm with mem := mark m.vmm.mem s.pmm.memory }
    held := s.owned }

-- The page-table code with the frames the allocator will answer, in order.
def lent (m : Machine) (ahead : List Nat) : Vmm.State :=
  { m.vmm with supply := ahead.map (· * FRAME_SIZE) }

def took (m : Machine) (s : Vmm.State) (p : Pmm.State) (taken : List Nat) : Machine where
  inner := p.inner
  cursor := p.cursor
  vmm := { s with supply := [] }
  held := m.held
  tables := m.tables ++ taken

-- A call of the page-table code. Which frame `allocate_frame` answers depends on the bitmap
-- and the cursor alone, and in a call only the pool asks: so the answers can be listed
-- ahead, and the calls that were made are repeated on the allocator afterwards.
def lend {α : Type} (m : Machine) (call : Vmm.State → Except Panic (α × Vmm.State)) :
    Except Panic (α × Machine) := do
  let (ahead, _) ← Pmm.draw m.inner.free_frames m.pmm
  let (r, s) ← call (m.lent (ahead.map PhysFrame.index))
  let (taken, p) ← Pmm.draw (s.allocated - m.vmm.allocated) m.pmm
  return (r, m.took s p (taken.map PhysFrame.index))

end Machine

-- `PtPool::alloc` as a call of the page-table code, and with `allocate_frame` asked there
-- and then.
def pool_alloc (s : Vmm.State) : Except Panic (Option Nat × Vmm.State) := do
  match ← Vmm.alloc s with
  | none => return (none, s)
  | some (pa, s) => return (some pa, s)

def Machine.pool_alloc (m : Machine) : Except Panic (Option Nat × Machine) := do
  match ← m.pmm.allocate_frame with
  | (none, _) => return (none, m)
  | (some frame, p) =>
      let pa := frame.start_address
      let allocated ← add m.vmm.allocated 1
      return (some pa,
        { m with
          inner := p.inner
          cursor := p.cursor
          vmm := { m.vmm with
            mem := fill m.vmm.mem pa 0
            allocated := allocated
            frames := if m.vmm.allocated < m.vmm.frames.length then
              m.vmm.frames.set m.vmm.allocated pa else m.vmm.frames }
          tables := m.tables ++ [frame.index] })

-- What happens to the machine once it runs: the allocator is called, a caller stores to a
-- frame, a range is mapped.
inductive Act where
  | pmm (op : Pmm.Op)
  | store (frame index word : Nat)
  | map (call : Vmm.Call)

def Machine.step (debug : Bool) (m : Machine) : Act → Except Panic (Option PhysFrame × Machine)
  | .pmm op => do
      let (answer, s) ← m.callers.step debug op
      return (answer, m.put s)
  | .store frame index word =>
      .ok (none, { m with vmm := m.vmm.set (frame * FRAME_SIZE) index word })
  | .map call => do
      let (_, m) ← m.lend call.run
      return (none, m)

-- Callers give back and write to what they hold, and ask of no mapped address to move.
def Machine.Legal (m : Machine) : Act → Prop
  | .pmm (.write _ _) => False
  | .pmm op => m.callers.Legal op
  | .store frame _ _ => frame ∈ m.held
  | .map call => Vmm.Agreed m.vmm call

section Memory

variable {mem : Mem Nat Nat Nat} {words : Nat → Word}

theorem first_words_mark : first_words (mark mem words) = words := by
  funext f
  have hmod : f * FRAME_SIZE % FRAME_SIZE = 0 := Nat.mul_mod_left _ _
  have hdiv : f * FRAME_SIZE / FRAME_SIZE = f := Nat.mul_div_cancel f (by decide)
  by_cases h : words f = first_words mem f
  · simp [first_words, mark, hdiv, h]
  · rw [first_words, mark, if_pos ⟨rfl, hmod, by rwa [hdiv]⟩, hdiv, BitVec.ofNat_toNat,
      BitVec.setWidth_eq]

theorem mark_elsewhere {a i : Nat} (h : words (a / FRAME_SIZE) = first_words mem (a / FRAME_SIZE)) :
    mark mem words a i = mem a i := by
  rw [mark, if_neg fun hat => hat.2.2 h]

end Memory

section Tables

open Vmm

variable {s s' : Vmm.State}

-- The same words in every table: a write went somewhere else.
structure SameTables (s s' : Vmm.State) : Prop where
  root : s'.kernel_pml4 = s.kernel_pml4
  supply : s'.supply = s.supply
  rows : ∀ a, s.IsTable a → ∀ i, s'.mem a i = s.mem a i

theorem SameTables.row_of_split (h : SameTables s s') {p q r : List Nat} {i b : Nat}
    (hp : p.length ≤ 4) (hsplit : p = q ++ i :: r) (hb : s.walk q = some b) :
    s'.mem b i = s.mem b i := by
  refine h.rows b ⟨q, ?_, hb⟩ i
  rw [hsplit, List.length_append, List.length_cons] at hp
  omega

theorem SameTables.isTable_iff (h : SameTables s s') {a : Nat} : s'.IsTable a ↔ s.IsTable a := by
  have hwalk : ∀ p : List Nat, p.length < 4 → s'.walk p = s.walk p := fun p hp => by
    rw [State.walk, State.walk, h.root]
    exact Radix.walk_congr fun q i r hsplit b hb => h.row_of_split (Nat.le_of_lt hp) hsplit hb
  constructor
  · rintro ⟨p, hp, ha⟩
    exact ⟨p, hp, (hwalk p hp).symm.trans ha⟩
  · rintro ⟨p, hp, ha⟩
    exact ⟨p, hp, (hwalk p hp).trans ha⟩

theorem SameTables.find_path (h : SameTables s s') (v : VirtAddr) :
    s'.find (path v) = s.find (path v) := by
  rw [State.find, State.find, h.root]
  exact Radix.find_congr fun q i r hsplit b hb => h.row_of_split (path_length v).le hsplit hb

theorem SameTables.mapping (h : SameTables s s') : mapping s' = mapping s := by
  funext v
  rw [Vmm.mapping, Vmm.mapping, h.find_path]

theorem SameTables.sound (h : SameTables s s') (hs : Sound s) : Sound s' where
  tree := hs.tree.of_slots h.root h.supply fun a j ha => by rw [h.rows a ha j]
  small v e hfind := hs.small v e (h.find_path v ▸ hfind)

-- Other frames to draw from, as long as they are no tables yet.
theorem Sound.with_supply (h : Sound s) {supply : List Nat} (hnodup : supply.Nodup)
    (hreadable : ∀ a ∈ supply, a < BOOT_MAPPED_BYTES ∧ a % 4096 = 0)
    (hfresh : ∀ a ∈ supply, ¬s.IsTable a) : Sound { s with supply := supply } where
  tree :=
    { root_ne := h.tree.root_ne
      separate := h.tree.separate
      readable := h.tree.readable
      upper := h.tree.upper
      boot_present := h.tree.boot_present
      boot_leaf := h.tree.boot_leaf
      supply_nodup := hnodup
      supply_readable := hreadable
      supply_fresh := hfresh }
  small := h.small

theorem Sound.within (h : Sound s) {call : Call} {u : Unit}
    (hclear : ∀ va pa size perm, call = .map_4k va pa size perm → Clear s va size)
    (hok : call.run s = .ok (u, s')) : Within s s' := by
  cases call with
  | map_4k va pa size perm =>
      have hrange := hclear va pa size perm rfl
      exact (map_4k_ok h.tree (fun v h1 h2 => hrange.notLarge h.tree h1 h2)
        (run_map_4k.mp hok)).2.1.toWithin
  | map_2m va pa size perm =>
      exact (map_2m_ok h.tree (fun _ t => Within s t) (.refl s)
        (fun _ _ _ _ _ _ _ _ _ _ hwithin hcovered => hwithin.trans hcovered.toWithin)
        (run_map_2m.mp hok)).2

end Tables

section Lending

variable {m : Machine} {L : Ledger Nat} {α : Type}

theorem map_index_ofIndex (l : List Nat) : (l.map PhysFrame.ofIndex).map PhysFrame.index = l := by
  rw [List.map_map]
  exact (List.map_congr_left fun f _ => PhysFrame.index_ofIndex f).trans (List.map_id l)

-- The frames a call took are those at the head of the list that are gone from it.
structure Drawn (s s' : Vmm.State) : Prop where
  supply : s'.supply <:+ s.supply
  count : s'.allocated + s'.supply.length = s.allocated + s.supply.length

theorem Drawn.split {s' : Vmm.State} {ahead : List Nat} (h : Drawn (m.lent ahead) s') :
    ∃ taken rest, ahead = taken ++ rest ∧ s'.supply = rest.map (· * FRAME_SIZE) ∧
      s'.allocated = m.vmm.allocated + taken.length := by
  obtain ⟨first, hfirst⟩ := h.supply
  have hcount : s'.allocated + s'.supply.length = m.vmm.allocated + (first ++ s'.supply).length := by
    rw [hfirst]
    exact h.count
  obtain ⟨taken, rest, rfl, rfl, hrest⟩ := List.append_eq_map_iff.mp hfirst
  refine ⟨taken, rest, rfl, hrest.symm, ?_⟩
  rw [List.length_append, List.length_map] at hcount
  omega

-- The list of the answers is the list of the free frames in some order.
theorem exists_ahead (h : Books m.system L) :
    ∃ (ahead : List Nat) (p : Pmm.State),
      Pmm.draw m.inner.free_frames m.pmm = .ok (ahead.map .ofIndex, p) ∧
      ahead.Nodup ∧ ∀ f, f ∈ ahead ↔ f ∈ L.free := by
  obtain ⟨ahead, p, hsub, hdraw, hlength, hnodup, -, -⟩ := h.draw m.inner.free_frames
  refine ⟨ahead, p, hdraw, hnodup, fun f => ?_⟩
  have hall : ahead.toFinset = L.free := by
    refine Finset.eq_of_subset_of_card_le hsub ?_
    rw [List.toFinset_card_of_nodup hnodup, hlength, show m.inner.free_frames = _ from h.free_frames]
    exact (min_self _).ge
  rw [← hall, List.mem_toFinset]

-- The frames drawn first are the same however many are drawn after them, and the others
-- are still to come.
theorem draw_first (h : Books m.system L) {taken rest : List Nat} {p : Pmm.State}
    (hdraw : Pmm.draw m.inner.free_frames m.pmm = .ok ((taken ++ rest).map .ofIndex, p))
    (hnodup : (taken ++ rest).Nodup) (hall : ∀ f, f ∈ taken ++ rest ↔ f ∈ L.free) :
    ∃ p', ∃ hsub : taken.toFinset ⊆ L.free,
      Pmm.draw taken.length m.pmm = .ok (taken.map .ofIndex, p') ∧
      Books ⟨p', m.held + ↑(m.tables ++ taken)⟩ (L.handOut taken.toFinset hsub) ∧
      Pmm.draw p'.inner.free_frames p' = .ok (rest.map .ofIndex, p) := by
  have hset : (taken ++ rest).toFinset = L.free := by
    ext f
    rw [List.mem_toFinset, hall]
  have hlen : m.inner.free_frames = taken.length + rest.length := by
    rw [show m.inner.free_frames = _ from h.free_frames, ← hset,
      List.toFinset_card_of_nodup hnodup, List.length_append]
  obtain ⟨first, p', hsub, hfirst, hlength, -, hb, -⟩ := h.draw taken.length
  have hpair := hdraw
  rw [hlen, h.draw_append, hfirst, ok_bind] at hpair
  obtain ⟨x, hx, hsum⟩ := bind_eq_ok.mp hpair
  obtain ⟨happend, hlast⟩ := Prod.mk.inj (Except.ok.inj hsum)
  have hfull : first.length = taken.length := by
    rw [hlength, ← show m.inner.free_frames = _ from h.free_frames, hlen]
    omega
  rw [List.map_append] at happend
  obtain ⟨htaken, hrest⟩ := List.append_inj happend (by rw [List.length_map, List.length_map, hfull])
  obtain rfl : first = taken := by
    rw [← map_index_ofIndex first, htaken, map_index_ofIndex]
  have hleft : p'.inner.free_frames = rest.length := by
    have hcard : (L.free \ first.toFinset).card = rest.length := by
      rw [← hset, List.toFinset_append, Finset.union_sdiff_cancel_left,
        List.toFinset_card_of_nodup (List.nodup_append.mp hnodup).2.1]
      exact List.disjoint_toFinset_iff_disjoint.mpr (List.disjoint_of_nodup_append hnodup)
    rw [← hcard]
    exact hb.free_frames
  refine ⟨p', hsub, hfirst, ?_, ?_⟩
  · rw [← Multiset.coe_add, ← add_assoc]
    exact hb
  · rw [hleft, hx, ← hrest, ← hlast]

theorem lend_of_ahead {ahead : List Nat} {p : Pmm.State}
    (hdraw : Pmm.draw m.inner.free_frames m.pmm = .ok (ahead.map .ofIndex, p))
    (call : Vmm.State → Except Panic (α × Vmm.State)) : m.lend call = (do
      let (r, s) ← call (m.lent ahead)
      let (taken, p) ← Pmm.draw (s.allocated - m.vmm.allocated) m.pmm
      return (r, m.took s p (taken.map PhysFrame.index))) := by
  rw [Machine.lend, hdraw, ok_bind]
  dsimp only
  rw [map_index_ofIndex]

-- What a call does that takes its frames in order.
theorem lend_eq (h : Books m.system L) (call : Vmm.State → Except Panic (α × Vmm.State)) :
    ∃ ahead : List Nat, ahead.Nodup ∧ (∀ f, f ∈ ahead ↔ f ∈ L.free) ∧
    (∀ e, call (m.lent ahead) = .error e → m.lend call = .error e) ∧
    ∀ r s', call (m.lent ahead) = .ok (r, s') → Drawn (m.lent ahead) s' →
      ∃ taken rest p, ∃ hsub : taken.toFinset ⊆ L.free, ahead = taken ++ rest ∧
        s'.supply = rest.map (· * FRAME_SIZE) ∧ s'.allocated = m.vmm.allocated + taken.length ∧
        m.lend call = .ok (r, m.took s' p taken) ∧
        Books (m.took s' p taken).system (L.handOut taken.toFinset hsub) := by
  obtain ⟨ahead, p, hdraw, hnodup, hall⟩ := exists_ahead h
  refine ⟨ahead, hnodup, hall, fun e he => ?_, fun r s' hcall hdrawn => ?_⟩
  · rw [lend_of_ahead hdraw, he]
    rfl
  · obtain ⟨taken, rest, rfl, hsupply, hcount⟩ := hdrawn.split
    obtain ⟨p', hsub, hfirst, hb, -⟩ := draw_first h hdraw hnodup hall
    refine ⟨taken, rest, p', hsub, rfl, hsupply, hcount, ?_, hb.withMemory _⟩
    rw [lend_of_ahead hdraw, hcall, ok_bind]
    dsimp only
    rw [hcount, Nat.add_sub_cancel_left, hfirst, ok_bind]
    dsimp only
    rw [map_index_ofIndex]
    rfl

end Lending

-- Listing the answers ahead is exact: a call finds the frames its allocations would have
-- been given one by one.
section Exact

variable {m : Machine} {L : Ledger Nat} {α β : Type}

theorem lent_took {s' : Vmm.State} {p : Pmm.State} {taken rest : List Nat}
    (h : s'.supply = rest.map (· * FRAME_SIZE)) : (m.took s' p taken).lent rest = s' := by
  rw [Machine.lent, ← h]
  rfl

theorem lend_bind (h : Books m.system L) (f : Vmm.State → Except Panic (α × Vmm.State))
    (g : α → Vmm.State → Except Panic (β × Vmm.State))
    (hf : ∀ s a s', f s = .ok (a, s') → Drawn s s')
    (hg : ∀ a s b s', g a s = .ok (b, s') → Drawn s s') :
    m.lend (fun s => do
      let (a, s) ← f s
      g a s) = (do
      let (a, m) ← m.lend f
      m.lend (g a)) := by
  obtain ⟨ahead, p, hdraw, hnodup, hall⟩ := exists_ahead h
  rw [lend_of_ahead hdraw, lend_of_ahead hdraw]
  cases hfirst : f (m.lent ahead) with
  | error e => rfl
  | ok r =>
      obtain ⟨a, s₁⟩ := r
      obtain ⟨taken, rest, rfl, hsupply, hcount⟩ := (hf _ _ _ hfirst).split
      obtain ⟨p₁, hsub, hdraw₁, hb₁, hdraw₂⟩ := draw_first h hdraw hnodup hall
      have hmemory : (m.took s₁ p₁ taken).pmm = { p₁ with memory := first_words s₁.mem } := rfl
      have hnext : Pmm.draw (m.took s₁ p₁ taken).inner.free_frames (m.took s₁ p₁ taken).pmm =
          .ok (rest.map .ofIndex, { p with memory := first_words s₁.mem }) := by
        rw [hmemory, Pmm.draw_memory, show (m.took s₁ p₁ taken).inner = p₁.inner from rfl, hdraw₂]
        rfl
      simp only [ok_bind, hcount, Nat.add_sub_cancel_left, hdraw₁, pure, Except.pure,
        map_index_ofIndex]
      rw [lend_of_ahead hnext, lent_took hsupply]
      cases hsecond : g a s₁ with
      | error e => rfl
      | ok r₂ =>
          obtain ⟨b, s₂⟩ := r₂
          have hmore : Drawn ((m.took s₁ p₁ taken).lent rest) s₂ := by
            rw [lent_took hsupply]
            exact hg _ _ _ _ hsecond
          obtain ⟨taken₂, rest₂, -, -, hcount₂⟩ := hmore.split
          have hsum : s₂.allocated - m.vmm.allocated = taken.length + taken₂.length := by
            rw [hcount₂, show (m.took s₁ p₁ taken).vmm.allocated = s₁.allocated from rfl, hcount]
            omega
          simp only [ok_bind]
          rw [hsum, h.draw_append, hdraw₁, ok_bind, hcount₂, Nat.add_sub_cancel_left, hmemory,
            Pmm.draw_memory]
          dsimp only
          cases Pmm.draw taken₂.length p₁ with
          | error e => rfl
          | ok x =>
              simp only [ok_bind, Except.map, pure, Except.pure, List.map_append, map_index_ofIndex,
                Machine.took, List.append_assoc]

theorem lend_pool_alloc (h : Books m.system L) (hsupply : m.vmm.supply = []) :
    m.lend pool_alloc = m.pool_alloc := by
  obtain ⟨ahead, p, hdraw, hnodup, hall⟩ := exists_ahead h
  rw [lend_of_ahead hdraw, Machine.pool_alloc]
  rcases h.allocate_frame_cases with ⟨hnone, hr⟩ | ⟨f, p₁, hf, hr, hb, -⟩
  · obtain rfl : ahead = [] := List.eq_nil_iff_forall_not_mem.mpr fun f hf => by
      have hin := (hall f).mp hf
      rw [hnone] at hin
      exact Finset.notMem_empty f hin
    have halloc : pool_alloc (m.lent []) = .ok (none, m.lent []) := rfl
    have hvmm : ({ m.vmm with supply := [] } : Vmm.State) = m.vmm := by rw [← hsupply]
    have hsame : m.took (m.lent []) m.pmm [] = m := by
      show (⟨m.inner, m.cursor, { m.vmm with supply := [] }, m.held, m.tables ++ []⟩ : Machine) = m
      rw [hvmm, List.append_nil]
    rw [halloc, hr]
    show (Pmm.draw (m.vmm.allocated - m.vmm.allocated) m.pmm >>= _) = _
    rw [Nat.sub_self]
    exact congrArg (fun m => Except.ok (none, m)) hsame
  · cases ahead with
    | nil => exact absurd ((hall f).mpr (Finset.singleton_subset_iff.mp hf)) (List.not_mem_nil)
    | cons f' rest =>
        have hdraw₁ : Pmm.draw 1 m.pmm = .ok ([.ofIndex f], p₁) := by
          rw [Pmm.draw, hr]
          rfl
        have hfirst : Pmm.draw m.inner.free_frames m.pmm = .ok (([f'] ++ rest).map .ofIndex, p) := hdraw
        obtain ⟨p', -, hone, -⟩ := draw_first h hfirst hnodup hall
        obtain ⟨hframe, -⟩ := Prod.mk.inj (Except.ok.inj (hdraw₁.symm.trans hone))
        obtain rfl : f = f' := by
          have := congrArg (List.map PhysFrame.index) hframe
          simpa using this
        rw [hr, pool_alloc, Vmm.alloc]
        simp only [Machine.lent, List.map_cons, ok_bind]
        cases hadd : add m.vmm.allocated 1 with
        | error e => rfl
        | ok n =>
            obtain ⟨-, rfl⟩ := add_eq_ok.mp hadd
            simp only [ok_bind, pure, Except.pure, Nat.add_sub_cancel_left, hdraw₁, Machine.took,
              List.map_cons, List.map_nil, hsupply]
            rfl

end Exact

end Orin.Memory
