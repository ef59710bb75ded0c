import Orin.Memory.Pmm.Canary
import Orin.Selftest
import Orin.Theory.Sweep

namespace Orin.Selftest

open Rust Bitmap Memory Memory.Pmm Theory

def PAGE_SIZE : Nat := 4096

-- The loop of the two tests that take a frame, look at its address and give it back. `verdict`
-- is the complaint about an address, if any.
def probes (debug : Bool) (verdict : Nat → Option String) :
    (n checked : Nat) → System → Except Panic (Except String Nat × System)
  | 0, checked, s => .ok (.ok checked, s)
  | n + 1, checked, s => do
      match ← s.step debug .allocate_frame with
      | (none, s) => return (.ok checked, s)
      | (some f, s) =>
          let (_, s) ← s.step debug (.deallocate_frame f)
          match verdict f.start_address with
          | some message => return (.error message, s)
          | none => probes debug verdict n (checked + 1) s

def reserved (ks ke : Nat) : List (Nat × Nat × String) :=
  [(0x0, 0x1000, "real-mode IVT"), (0xA0000, 0xC0000, "VGA window"), (ks, ke, "kernel image"),
    (0xB8000, 0xB9000, "VGA text buffer")]

def from_reserved (ks ke p : Nat) : Option String :=
  ((reserved ks ke).find? fun r => r.1 ≤ p && p < r.2.1).map fun r =>
    "PMM handed out " ++ hex p ++ " from reserved " ++ r.2.2 ++ " [" ++ hex r.1 ++ ".." ++
      hex r.2.1 ++ ")"

-- `ks` and `ke` are the bounds of the kernel image.
def test_pmm_reserve_excluded (debug : Bool) (ks ke : Nat) : Test System := fun s => do
  match ← probes debug (from_reserved ks ke) 2048 0 s with
  | (.error message, s) => return (.error message, s)
  | (.ok checked, s) =>
      if checked = 0 then return (.error "no frames available to check", s)
      else return (.ok (toString checked ++ " allocations checked against 4 reserved ranges"), s)

def above_map (p : Nat) : Option String :=
  if MAX_PHYS ≤ p then
    some ("PMM handed out " ++ hex p ++ " at or above max_phys " ++ hex MAX_PHYS ++
      "; unreachable in M1")
  else none

def respected (unmapped : Nat) : String :=
  "max_phys " ++ hex MAX_PHYS ++ " respected; " ++ toString (unmapped / (1024 * 1024)) ++
    " MiB present but unmapped and reported, not silently dropped"

def test_pmm_no_boot_map_leak (debug : Bool) : Test System := fun s => do
  let unmapped := s.pmm.inner.unmapped_bytes
  match ← probes debug above_map 4096 0 s with
  | (.error message, s) => return (.error message, s)
  | (.ok _, s) => return (.ok (respected unmapped), s)

-- `none` when the allocator runs out: what was taken so far stays taken.
def take_frames (debug : Bool) :
    Nat → List PhysFrame → System → Except Panic (Option (List PhysFrame) × System)
  | 0, frames, s => .ok (some frames, s)
  | n + 1, frames, s => do
      match ← s.step debug .allocate_frame with
      | (none, s) => return (none, s)
      | (some f, s) => take_frames debug n (frames ++ [f]) s

def give_back (debug : Bool) : List PhysFrame → System → Except Panic System
  | [], s => .ok s
  | f :: rest, s => do
      let (_, s) ← s.step debug (.deallocate_frame f)
      give_back debug rest s

-- `sorted.windows(2)`.
def adjacent : List Nat → Option Nat
  | a :: b :: rest => if a = b then some a else adjacent (b :: rest)
  | _ => none

def all_unique (ks ke : Nat) : String :=
  "512 frames unique, none inside the kernel image [" ++ hex ks ++ ".." ++ hex ke ++ ")"

def test_pmm_unique (debug : Bool) (ks ke : Nat) : Test System := fun s => do
  match ← take_frames debug 512 [] s with
  | (none, s) => return (.error "PMM ran out of frames during self-test", s)
  | (some frames, s) =>
      let addresses := frames.map PhysFrame.start_address
      match adjacent (addresses.mergeSort (· ≤ ·)) with
      | some twice => return (.error ("frame " ++ hex twice ++ " was handed out twice"), s)
      | none =>
          match addresses.find? fun p => ks ≤ p && p < ke with
          | some p =>
              return (.error ("PMM handed out " ++ hex p ++ ", which is inside the kernel image [" ++
                hex ks ++ ".." ++ hex ke ++ ")"), s)
          | none =>
              let s ← give_back debug frames s
              return (.ok (all_unique ks ke), s)

-- The frame `i` pages above `f`.
def above (f : PhysFrame) (i : Nat) : PhysFrame :=
  ⟨f.start_address + i * PAGE_SIZE, by
    rw [show PAGE_SIZE = FRAME_SIZE from rfl, Nat.add_mul_mod_self_right, f.aligned]⟩

def inside_run (base p : Nat) : Except Panic Bool := do
  if base ≤ p then return p < (← add base (16 * PAGE_SIZE)) else return false

-- The probes of the contiguous test. A frame inside the run stays taken.
def avoid_run (debug : Bool) (base : Nat) :
    (n got : Nat) → System → Except Panic (Except String Nat × System)
  | 0, got, s => .ok (.ok got, s)
  | n + 1, got, s => do
      match ← s.step debug .allocate_frame with
      | (none, s) => avoid_run debug base n got s
      | (some x, s) =>
          if ← inside_run base x.start_address then
            return (.error ("frame " ++ hex x.start_address ++ " inside the contiguous run [" ++
              hex base ++ ".." ++ hex (← add base (16 * PAGE_SIZE)) ++ ") was re-allocated"), s)
          else
            let (_, s) ← s.step debug (.deallocate_frame x)
            avoid_run debug base n (got + 1) s

def avoided (base got : Nat) : String :=
  "16 contiguous frames at " ++ hex base ++ ", " ++ toString got ++
    " probe allocations avoided the run"

def test_pmm_contiguous (debug : Bool) : Test System := fun s => do
  match ← s.step debug (.allocate_contiguous 16 4) with
  | (none, s) => return (.error "could not allocate 16 contiguous frames aligned to 4", s)
  | (some f, s) =>
      let base := f.start_address
      if base % (PAGE_SIZE * 4) ≠ 0 then
        return (.error ("base " ++ hex base ++ " is not 4-frame aligned"), s)
      else
        match ← avoid_run debug base 64 0 s with
        | (.error message, s) => return (.error message, s)
        | (.ok got, s) =>
            let s ← give_back debug ((List.range 16).map fun i => above f i) s
            return (.ok (avoided base got), s)

-- Allocate and, if that gave a frame, free it again.
def borrow (debug : Bool) (s : System) : Except Panic (Option PhysFrame × System) := do
  match ← s.step debug .allocate_frame with
  | (none, s) => return (none, s)
  | (some f, s) =>
      let (_, s) ← s.step debug (.deallocate_frame f)
      return (some f, s)

def stable (after : Nat) : String :=
  "free count stable across alloc/free (" ++ toString after ++
    "); double-free panic path covered by host tests"

def test_pmm_double_free (debug : Bool) : Test System := fun s => do
  match ← borrow debug s with
  | (none, s) => return (.error "no frame", s)
  | (some _, s) =>
      let before := s.pmm.inner.free_frames
      let (_, s) ← borrow debug s
      let after := s.pmm.inner.free_frames
      if after ≠ before then
        return (.error ("free frame count changed across alloc+free: " ++ toString before ++
          " -> " ++ toString after), s)
      else
        return (.ok (stable after), s)

section Probing

variable {s : System} {L : Ledger Nat}

-- Where the next search starts.
def start (s : System) : Nat := min s.pmm.cursor MAX_FRAMES

-- The same frames free and the same frames owned.
structure Same (L : Ledger Nat) (s' : System) (L' : Ledger Nat) : Prop where
  books : Books s' L'
  free : L'.free = L.free
  owned : L'.owned = L.owned

theorem firstFree_of_nextIn (h : Books s L) {f : Nat} (hnext : NextIn L.free (start s) f) :
    FirstFree s.pmm.inner.bitmap (min s.pmm.cursor MAX_FRAMES) f := by
  have hmem : ∀ g, g ∈ L.free ↔ bit s.pmm.inner.bitmap g = true := by
    intro g
    rw [← h.free, mem_members]
  unfold NextIn at hnext
  simp only [hmem] at hnext
  exact hnext

theorem step_deallocate_cursor (h : Books s L) {debug : Bool} {frame : PhysFrame}
    {answer : Option PhysFrame} {s' : System}
    (hs : s.step debug (.deallocate_frame frame) = .ok (answer, s')) :
    s'.pmm.cursor = s.pmm.cursor := by
  have hspec := deallocate_spec (p := s.pmm) debug frame.start_address h.counted
  simp only [System.step, State.deallocate_frame] at hs
  cases hr : s.pmm.deallocate debug frame.start_address with
  | error e =>
      rw [hr] at hs
      cases hs
  | ok p =>
      rw [hr] at hs
      cases hs
      exact (hspec.of_eq_ok hr).1.cursor

-- One round of the loop on an unmarked frame: everything is as before, but for the search,
-- which goes on behind the frame, and its mark in a debug build.
theorem probe_round (h : Books s L) (debug : Bool) {f : Nat} {rest : List Nat}
    (horder : around L.free (start s) = f :: rest)
    (hmark : debug = true → s.pmm.memory f ≠ FREE_CANARY) :
    ∃ s₁ s₂ L', s.step debug .allocate_frame = .ok (some (.ofIndex f), s₁) ∧
      s₁.step debug (.deallocate_frame (.ofIndex f)) = .ok (none, s₂) ∧ Same L s₂ L' ∧
      around L'.free (start s₂) = rest ++ [f] ∧
      s₂.pmm.memory = if debug then Function.update s.pmm.memory f FREE_CANARY else s.pmm.memory := by
  have hf : f ∈ L.free := by
    rw [← mem_around (c := start s), horder]
    exact List.mem_cons_self
  obtain ⟨f', hnext⟩ := exists_nextIn ⟨f, hf⟩ (start s)
  obtain ⟨rest', hhere, hturned⟩ := around_next hnext
  obtain ⟨rfl, rfl⟩ := List.cons.inj (hhere.symm.trans horder)
  obtain ⟨s₁, L₁, hs₁, hb₁, hfree₁, howned₁, hmemory₁, hcursor₁⟩ :=
    h.allocate_first debug (firstFree_of_nextIn h hnext)
  have hmine : f' ∈ L₁.owned := howned₁ ▸ Finset.mem_insert_self _ _
  obtain ⟨s₂, L₂, hs₂, hb₂, hfree₂, howned₂, hmemory₂⟩ :=
    hb₁.deallocate_owned debug hmine (hmemory₁ ▸ hmark)
  have hfree : L₂.free = L.free := by
    rw [hfree₂, hfree₁, Finset.insert_erase hf]
  have howned : L₂.owned = L.owned := by
    rw [howned₂, howned₁, Finset.erase_insert (Finset.disjoint_left.mp L.free_owned hf)]
  refine ⟨s₁, s₂, L₂, hs₁, hs₂, ⟨hb₂, hfree, howned⟩, ?_, ?_⟩
  · have hlt : f' < MAX_FRAMES := h.managed f' (by simp [Ledger.all, hf])
    have hstart : start s₂ = f' + 1 := by
      rw [start, step_deallocate_cursor hb₁ hs₂, hcursor₁]
      omega
    rw [hfree, hstart, hturned]
  · rw [hmemory₂, hmemory₁]

theorem Same.trans {L' L'' : Ledger Nat} {s' s'' : System} (h : Same L s' L')
    (h' : Same L' s'' L'') : Same L s'' L'' :=
  ⟨h'.books, h'.free.trans h.free, h'.owned.trans h.owned⟩

variable {verdict : Nat → Option String}

-- No free frame would draw a complaint.
def Unobjectionable (verdict : Nat → Option String) (L : Ledger Nat) : Prop :=
  ∀ f ∈ L.free, verdict (f * FRAME_SIZE) = none

theorem probes_round {debug : Bool} {n checked f : Nat} {s₁ s₂ : System}
    (hs₁ : s.step debug .allocate_frame = .ok (some (.ofIndex f), s₁))
    (hs₂ : s₁.step debug (.deallocate_frame (.ofIndex f)) = .ok (none, s₂))
    (hverdict : verdict (f * FRAME_SIZE) = none) :
    probes debug verdict (n + 1) checked s = probes debug verdict n (checked + 1) s₂ := by
  rw [probes, hs₁, ok_bind]
  dsimp only
  rw [hs₂, ok_bind]
  dsimp only
  rw [show (PhysFrame.ofIndex f).start_address = f * FRAME_SIZE from rfl, hverdict]

theorem around_cons (hfree : L.free.Nonempty) : ∃ f rest, around L.free (start s) = f :: rest := by
  obtain ⟨f, hnext⟩ := exists_nextIn hfree (start s)
  obtain ⟨rest, hhere, -⟩ := around_next hnext
  exact ⟨f, rest, hhere⟩

theorem mem_of_around {f : Nat} {rest : List Nat} (h : around L.free (start s) = f :: rest) :
    f ∈ L.free := by
  rw [← mem_around (c := start s), h]
  exact List.mem_cons_self

-- A release build does not look at the frames: any number of rounds passes.
theorem probes_release (h : Books s L) (hfree : L.free.Nonempty) (hfine : Unobjectionable verdict L)
    (n checked : Nat) :
    ∃ s' L', probes false verdict n checked s = .ok (.ok (checked + n), s') ∧ Same L s' L' := by
  induction n generalizing s L checked with
  | zero => exact ⟨s, L, rfl, h, rfl, rfl⟩
  | succ n ih =>
      obtain ⟨f, rest, horder⟩ := around_cons (s := s) hfree
      obtain ⟨s₁, s₂, L₂, hs₁, hs₂, hsame, -, -⟩ := probe_round h false horder (by simp)
      have hfine' : Unobjectionable verdict L₂ := fun g hg => hfine g (hsame.free ▸ hg)
      obtain ⟨s', L', hrun, hsame'⟩ := ih hsame.books (hsame.free ▸ hfree) hfine' (checked + 1)
      refine ⟨s', L', ?_, hsame.trans hsame'⟩
      rw [probes_round hs₁ hs₂ (hfine f (mem_of_around horder)), hrun, Nat.add_assoc, Nat.add_comm 1]

-- The frames the search will come to first are unmarked, the ones behind them are marked.
structure Swept (s : System) (L : Ledger Nat) (fresh stale : List Nat) : Prop where
  books : Books s L
  order : around L.free (start s) = fresh ++ stale
  fresh : ∀ f ∈ fresh, s.pmm.memory f ≠ FREE_CANARY
  stale : ∀ f ∈ stale, s.pmm.memory f = FREE_CANARY

-- A round in a debug build moves a frame from the unmarked to the marked.
theorem Swept.round {f : Nat} {fresh stale : List Nat} (h : Swept s L (f :: fresh) stale) :
    ∃ s₁ s₂ L', s.step true .allocate_frame = .ok (some (.ofIndex f), s₁) ∧
      s₁.step true (.deallocate_frame (.ofIndex f)) = .ok (none, s₂) ∧ Same L s₂ L' ∧
      Swept s₂ L' fresh (stale ++ [f]) := by
  obtain ⟨s₁, s₂, L', hs₁, hs₂, hsame, horder, hmemory⟩ :=
    probe_round h.books true h.order fun _ => h.fresh f List.mem_cons_self
  have hnodup : (f :: fresh ++ stale).Nodup := h.order ▸ nodup_around _ _
  have hnew : ∀ g ∈ fresh, g ≠ f := by
    rintro g hg rfl
    exact (List.nodup_cons.mp hnodup).1 (List.mem_append_left _ hg)
  refine ⟨s₁, s₂, L', hs₁, hs₂, hsame, hsame.books, ?_, fun g hg => ?_, fun g hg => ?_⟩
  · rw [horder]
    exact List.append_assoc fresh stale [f]
  · rw [hmemory, if_pos rfl, Function.update_of_ne (hnew g hg)]
    exact h.fresh g (List.mem_cons_of_mem f hg)
  · rw [hmemory, if_pos rfl]
    obtain hg | hg := List.mem_append.mp hg
    · by_cases hgf : g = f
      · rw [hgf, Function.update_self]
      · rw [Function.update_of_ne hgf]
        exact h.stale g hg
    · rw [List.mem_singleton.mp hg, Function.update_self]

theorem probes_debug {fresh stale : List Nat} (h : Swept s L fresh stale)
    (hfine : Unobjectionable verdict L) {n : Nat} (hn : n ≤ fresh.length) (checked : Nat) :
    ∃ s' L', probes true verdict n checked s = .ok (.ok (checked + n), s') ∧ Same L s' L' ∧
      Swept s' L' (fresh.drop n) (stale ++ fresh.take n) := by
  induction n generalizing s L checked fresh stale with
  | zero =>
      refine ⟨s, L, rfl, ⟨h.books, rfl, rfl⟩, ?_⟩
      rw [List.take_zero, List.append_nil]
      exact h
  | succ n ih =>
      cases fresh with
      | nil => exact absurd hn (Nat.not_succ_le_zero n)
      | cons f fresh =>
          obtain ⟨s₁, s₂, L₂, hs₁, hs₂, hsame, hswept⟩ := h.round
          have hfine' : Unobjectionable verdict L₂ := fun g hg => hfine g (hsame.free ▸ hg)
          obtain ⟨s', L', hrun, hsame', hswept'⟩ :=
            ih hswept hfine' (Nat.le_of_succ_le_succ hn) (checked + 1)
          refine ⟨s', L', ?_, hsame.trans hsame', ?_⟩
          · rw [probes_round hs₁ hs₂ (hfine f (mem_of_around h.order)), hrun, Nat.add_assoc,
              Nat.add_comm 1]
          · rw [List.append_assoc] at hswept'
            exact hswept'

-- One round too many meets the first frame again, with the mark on it.
theorem probes_caught {fresh stale : List Nat} (h : Swept s L fresh stale)
    (hfine : Unobjectionable verdict L) {n : Nat} (hn : fresh.length < n) (checked : Nat) {f : Nat}
    (hfirst : (stale ++ fresh).head? = some f) :
    probes true verdict n checked s =
      .error (.explicit (modified_after_free f (f * FRAME_SIZE))) := by
  induction fresh generalizing s L checked stale n with
  | nil =>
      obtain ⟨n, rfl⟩ := Nat.exists_eq_succ_of_ne_zero (Nat.ne_zero_of_lt hn)
      rw [List.append_nil] at hfirst
      obtain ⟨rest, rfl⟩ := List.head?_eq_some_iff.mp hfirst
      have horder := h.order
      rw [List.nil_append] at horder
      obtain ⟨f', hnext⟩ := exists_nextIn ⟨f, mem_of_around horder⟩ (start s)
      obtain ⟨rest', hhere, -⟩ := around_next hnext
      obtain ⟨rfl, -⟩ := List.cons.inj (hhere.symm.trans horder)
      obtain ⟨s₁, L₁, hs₁, hb₁, -, howned₁, hmemory₁, -⟩ :=
        h.books.allocate_first true (firstFree_of_nextIn h.books hnext)
      have hcaught := hb₁.deallocate_marked (howned₁ ▸ Finset.mem_insert_self _ _)
        (hmemory₁ ▸ h.stale f' List.mem_cons_self)
      rw [probes, hs₁, ok_bind]
      dsimp only
      rw [hcaught, error_bind]
  | cons g fresh ih =>
      obtain ⟨n, rfl⟩ := Nat.exists_eq_succ_of_ne_zero (Nat.ne_zero_of_lt hn)
      obtain ⟨s₁, s₂, L₂, hs₁, hs₂, hsame, hswept⟩ := h.round
      have hfine' : Unobjectionable verdict L₂ := fun g hg => hfine g (hsame.free ▸ hg)
      rw [probes_round hs₁ hs₂ (hfine g (mem_of_around h.order))]
      refine ih hswept hfine' (Nat.lt_of_succ_lt_succ hn) (checked + 1) ?_
      rw [List.append_assoc]
      exact hfirst

-- The free frames lie outside every range the test looks at.
theorem unobjectionable_reserved {ks ke : Nat}
    (hclear : ∀ f ∈ L.free, ∀ r ∈ reserved ks ke, ¬ (r.1 ≤ f * FRAME_SIZE ∧ f * FRAME_SIZE < r.2.1)) :
    Unobjectionable (from_reserved ks ke) L := by
  intro f hf
  rw [from_reserved, Option.map_eq_none_iff, List.find?_eq_none]
  intro r hr
  simpa using hclear f hf r hr

theorem unobjectionable_above_map (h : Books s L) : Unobjectionable above_map L := by
  intro f hf
  have hlt : f < MAX_FRAMES := h.managed f (by simp [Ledger.all, hf])
  rw [above_map, if_neg]
  rw [MAX_FRAMES_val] at hlt
  unfold FRAME_SIZE MAX_PHYS Arch.BOOT_MAPPED_BYTES
  omega

-- With no frame yet marked, the loop comes round once.
theorem swept_of_unmarked (h : Books s L) (hfresh : ∀ f ∈ L.free, s.pmm.memory f ≠ FREE_CANARY) :
    Swept s L (around L.free (start s)) [] :=
  ⟨h, (List.append_nil _).symm, fun f hf => hfresh f (mem_around.mp hf), nofun⟩

-- The loop gets through: always in a release build, and in a debug build if there are as
-- many frames as probes.
theorem probes_pass (h : Books s L) (debug : Bool) (hfree : L.free.Nonempty)
    (hfine : Unobjectionable verdict L)
    (hfresh : debug = true → ∀ f ∈ L.free, s.pmm.memory f ≠ FREE_CANARY) {n : Nat}
    (hn : debug = true → n ≤ L.free.card) :
    ∃ s' L', probes debug verdict n 0 s = .ok (.ok n, s') ∧ Same L s' L' := by
  cases debug with
  | false =>
      obtain ⟨s', L', hrun, hsame⟩ := probes_release h hfree hfine n 0
      rw [Nat.zero_add] at hrun
      exact ⟨s', L', hrun, hsame⟩
  | true =>
      have hswept := swept_of_unmarked h (hfresh rfl)
      have hlength : n ≤ (around L.free (start s)).length := length_around L.free _ ▸ hn rfl
      obtain ⟨s', L', hrun, hsame, -⟩ := probes_debug hswept hfine hlength 0
      rw [Nat.zero_add] at hrun
      exact ⟨s', L', hrun, hsame⟩

theorem probes_panic (h : Books s L) (hfree : L.free.Nonempty) (hfine : Unobjectionable verdict L)
    (hfresh : ∀ f ∈ L.free, s.pmm.memory f ≠ FREE_CANARY) {n : Nat} (hn : L.free.card < n) :
    ∃ f, FirstFree s.pmm.inner.bitmap (min s.pmm.cursor MAX_FRAMES) f ∧
      probes true verdict n 0 s =
        .error (.explicit (modified_after_free f (f * FRAME_SIZE))) := by
  obtain ⟨f, hnext⟩ := exists_nextIn hfree (start s)
  obtain ⟨rest, hhere, -⟩ := around_next hnext
  have hlength : (around L.free (start s)).length < n := length_around L.free _ ▸ hn
  refine ⟨f, firstFree_of_nextIn h hnext, ?_⟩
  refine probes_caught (swept_of_unmarked h hfresh) hfine hlength 0 ?_
  rw [List.nil_append, hhere]
  rfl

end Probing

section Verdicts

-- The test left the allocator's frames as they were.
structure Kept (s s' : System) : Prop where
  free : ∀ f, s'.free f ↔ s.free f
  owned : s'.owned = s.owned

theorem Same.kept {s s' : System} {L L' : Ledger Nat} (h : Books s L) (hsame : Same L s' L') :
    Kept s s' := by
  refine ⟨fun f => ?_, ?_⟩
  · rw [hsame.books.free_iff, h.free_iff, hsame.free]
  · rw [hsame.books.owned, h.owned, hsame.owned]

-- No free frame starts inside one of the ranges that `test_pmm_reserve_excluded` names.
def OutsideReserved (ks ke : Nat) (s : System) : Prop :=
  ∀ f, s.free f → ∀ r ∈ reserved ks ke, ¬ (r.1 ≤ f * FRAME_SIZE ∧ f * FRAME_SIZE < r.2.1)

-- What becomes of a test that makes `n` probes.
structure Probes (debug : Bool) (n : Nat) (test : Test System) (s : System) : Prop where
  passes : (debug = true → n ≤ (members s.pmm.inner.bitmap).card) →
    ∃ text s', test s = .ok (.ok text, s') ∧ Kept s s'
  panics : debug = true → (members s.pmm.inner.bitmap).card < n →
    ∃ f, FirstFree s.pmm.inner.bitmap (min s.pmm.cursor MAX_FRAMES) f ∧
      test s = .error (.explicit (modified_after_free f (f * FRAME_SIZE)))

theorem Probes.of_loop {s : System} {L : Ledger Nat} {verdict : Nat → Option String}
    {debug : Bool} {n : Nat} {test : Test System} (h : Books s L) (hfree : L.free.Nonempty)
    (hfine : Unobjectionable verdict L)
    (hfresh : debug = true → ∀ f ∈ L.free, s.pmm.memory f ≠ FREE_CANARY)
    (hpass : ∀ s', probes debug verdict n 0 s = .ok (.ok n, s') →
      ∃ text, test s = .ok (.ok text, s'))
    (hstop : ∀ e, probes debug verdict n 0 s = .error e → test s = .error e) :
    Probes debug n test s := by
  refine ⟨fun hn => ?_, fun hdebug hn => ?_⟩
  · obtain ⟨s', L', hloop, hsame⟩ := probes_pass h debug hfree hfine hfresh (h.free ▸ hn)
    obtain ⟨text, htest⟩ := hpass s' hloop
    exact ⟨text, s', htest, hsame.kept h⟩
  · subst hdebug
    obtain ⟨f, hfirst, hloop⟩ := probes_panic h hfree hfine (hfresh rfl) (h.free ▸ hn)
    exact ⟨f, hfirst, hstop _ hloop⟩

-- The two tests that probe one frame at a time never fail for memory that was carved out
-- correctly, but a debug build survives them only with as many free frames as probes: the
-- probe after the last new frame frees one that still carries its mark.
theorem probe_tests_iff (debug : Bool) (memory : Nat → Word) (info : Multiboot.BootInfo)
    (start s : System) (history : List Call) (hboot : System.boot memory info = .ok start)
    (hrun : Run System.Legal (System.step debug) start history s) (ks ke : Nat)
    (hfree : ∃ f, s.free f) (hclear : OutsideReserved ks ke s)
    (hfresh : debug = true → ∀ f, s.free f → s.pmm.memory f ≠ FREE_CANARY) :
    Probes debug 2048 (test_pmm_reserve_excluded debug ks ke) s ∧
      Probes debug 4096 (test_pmm_no_boot_map_leak debug) s := by
  obtain ⟨L, h, -, -⟩ := ((boot_spec memory info).of_eq_ok hboot).1.run (fun _ _ => id) hrun
  have hsome : L.free.Nonempty := hfree.imp fun f hf => h.free_iff.mp hf
  have hmarks : debug = true → ∀ f ∈ L.free, s.pmm.memory f ≠ FREE_CANARY :=
    fun hd f hf => hfresh hd f (h.free_iff.mpr hf)
  have hfine := unobjectionable_reserved fun f hf => hclear f (h.free_iff.mpr hf)
  constructor
  · refine .of_loop h hsome hfine hmarks (fun s' hloop => ?_) fun e hloop => ?_
    · refine ⟨toString 2048 ++ " allocations checked against 4 reserved ranges", ?_⟩
      rw [test_pmm_reserve_excluded, hloop, ok_bind]
      rfl
    · rw [test_pmm_reserve_excluded, hloop, error_bind]
  · refine .of_loop h hsome (unobjectionable_above_map h) hmarks
      (fun s' hloop => ⟨respected s.pmm.inner.unmapped_bytes, ?_⟩) fun e hloop => ?_
    · rw [test_pmm_no_boot_map_leak, hloop, ok_bind]
      rfl
    · rw [test_pmm_no_boot_map_leak, hloop, error_bind]

-- A machine with a single usable frame passes in a release build and panics in a debug build.
theorem probe_tests_one_frame :
    ∃ start, System.boot (fun _ => 0) one_frame = .ok start ∧
      (∃ text s', test_pmm_reserve_excluded false 0x100000 0x200000 start = .ok (.ok text, s') ∧
        Kept start s') ∧
      ∃ message, test_pmm_reserve_excluded true 0x100000 0x200000 start =
        .error (.explicit message) := by
  obtain ⟨start, L, hboot, hb, hfree, -, hmemory⟩ := boot_one_frame fun _ => 0
  have honly : ∀ f, start.free f ↔ f = 1 := by
    intro f
    rw [hb.free_iff, hfree, Finset.mem_singleton]
  have hclear : OutsideReserved 0x100000 0x200000 start := by
    intro f hf
    rw [(honly f).mp hf]
    decide
  have hfresh : true = true → ∀ f, start.free f → start.pmm.memory f ≠ FREE_CANARY := by
    intro _ f _
    rw [hmemory]
    exact show (0 : Word) ≠ FREE_CANARY by decide
  have hcard : (members start.pmm.inner.bitmap).card < 2048 := by
    rw [hb.free, hfree, Finset.card_singleton]
    decide
  have hrelease := (probe_tests_iff false _ _ start start [] hboot .nil 0x100000 0x200000
    ⟨1, (honly 1).mpr rfl⟩ hclear nofun).1
  have hdebug := (probe_tests_iff true _ _ start start [] hboot .nil 0x100000 0x200000
    ⟨1, (honly 1).mpr rfl⟩ hclear hfresh).1
  obtain ⟨f, -, hpanic⟩ := hdebug.panics rfl hcard
  exact ⟨start, hboot, hrelease.passes nofun, _, hpanic⟩

end Verdicts

end Orin.Selftest
