import Mathlib.Data.Finset.Basic
import Mathlib.Data.Finset.Lattice.Lemmas

namespace Orin.Theory

-- What one context does, step by step. Locks do not nest with themselves: asking for
-- a lock that is already held never returns.
inductive Code (L σ : Type) where
  | done
  | halt
  | act (f : σ → σ) (next : Code L σ)
  | look (next : σ → Code L σ)
  | acquire (l : L) (next : Code L σ)
  | release (l : L) (next : Code L σ)
  -- Idle until some interrupt has been served.
  | wait (next : Code L σ)

inductive Outcome (L σ : Type) where
  | finished (s : σ) (held : Finset L)
  | halted (s : σ)
  | waits (l : L) (s : σ)

-- A program fragment hands its value to the code that follows it.
def Prog (L σ α : Type) : Type := (α → Code L σ) → Code L σ

namespace Prog

variable {L σ α β : Type}

instance : Monad (Prog L σ) where
  pure a := fun next => next a
  bind c f := fun next => c fun a => f a next

def get (f : σ → α) : Prog L σ α := fun next => .look fun s => next (f s)

def modify (f : σ → σ) : Prog L σ Unit := fun next => .act f (next ())

-- A critical section: the guard lives as long as the body.
def locked (l : L) (body : Prog L σ α) : Prog L σ α :=
  fun next => .acquire l (body fun a => .release l (next a))

def onlyIf (b : Bool) (c : Prog L σ Unit) : Prog L σ Unit := if b then c else pure ()

def await : Prog L σ Unit := fun next => .wait (next ())

def halt : Prog L σ α := fun _ => .halt

def code (c : Prog L σ α) : Code L σ := c fun _ => .done

end Prog

namespace Code

variable {L σ : Type} [DecidableEq L]

-- One context alone on the core, with the locks in `held` already taken.
def run : Finset L → σ → Code L σ → Outcome L σ
  | held, s, done => .finished s held
  | _, s, halt => .halted s
  | held, s, act f next => run held (f s) next
  | held, s, look next => run held s (next s)
  | held, s, acquire l next => if l ∈ held then .waits l s else run (insert l held) s next
  | held, s, release l next => run (held.erase l) s next
  | held, s, wait next => run held s next

-- The locks asked for on the way, whether or not they are to be had.
def requests : σ → Code L σ → Finset L
  | _, done => ∅
  | _, halt => ∅
  | s, act f next => requests (f s) next
  | s, look next => requests s (next s)
  | s, acquire l next => insert l (requests s next)
  | s, release _ next => requests s next
  | s, wait next => requests s next

-- Where the code ends when every lock it asks for is free.
def final : σ → Code L σ → σ
  | s, done => s
  | s, halt => s
  | s, act f next => final (f s) next
  | s, look next => final s (next s)
  | s, acquire _ next => final s next
  | s, release _ next => final s next
  | s, wait next => final s next

def halts : σ → Code L σ → Bool
  | _, done => false
  | _, halt => true
  | s, act f next => halts (f s) next
  | s, look next => halts s (next s)
  | s, acquire _ next => halts s next
  | s, release _ next => halts s next
  | s, wait next => halts s next

-- Holding `held`, the code never asks for a lock it holds, releases only what it
-- holds and ends holding nothing, whatever state it meets at each step.
def Balanced : Finset L → Code L σ → Prop
  | held, done => held = ∅
  | _, halt => True
  | held, act _ next => Balanced held next
  | held, look next => ∀ s, Balanced held (next s)
  | held, acquire l next => l ∉ held ∧ Balanced (insert l held) next
  | held, release l next => l ∈ held ∧ Balanced (held.erase l) next
  | held, wait next => Balanced held next

def ending (held : Finset L) (s : σ) (c : Code L σ) : Outcome L σ :=
  if halts s c then .halted (final s c) else .finished (final s c) held

private theorem erase_own {outer own : Finset L} {l : L} (hown : Disjoint outer own)
    (hl : l ∈ own) : (outer ∪ own).erase l = outer ∪ own.erase l := by
  have hother : l ∉ outer := fun ho => Finset.disjoint_left.mp hown ho hl
  rw [Finset.erase_union_distrib, Finset.erase_eq_of_notMem hother]

-- Locks held around the code do not matter as long as it asks for none of them.
theorem run_of_disjoint {c : Code L σ} {outer own : Finset L} {s : σ} (hbal : Balanced own c)
    (hown : Disjoint outer own) (hreq : Disjoint outer (requests s c)) :
    run (outer ∪ own) s c = ending outer s c := by
  induction c generalizing own s with
  | done =>
      obtain rfl : own = ∅ := hbal
      simp [run, ending, halts, final]
  | halt => rfl
  | act f next ih => exact ih hbal hown hreq
  | look next ih => exact ih s (hbal s) hown hreq
  | acquire l next ih =>
      obtain ⟨hfree, hnext⟩ := hbal
      rw [requests, Finset.disjoint_insert_right] at hreq
      have hnot : l ∉ outer ∪ own := by simp [hreq.1, hfree]
      rw [run, if_neg hnot, ← Finset.union_insert]
      exact ih hnext (Finset.disjoint_insert_right.mpr ⟨hreq.1, hown⟩) hreq.2
  | release l next ih =>
      obtain ⟨hheld, hnext⟩ := hbal
      rw [run, erase_own hown hheld]
      exact ih hnext (hown.mono_right (Finset.erase_subset l own)) hreq
  | wait next ih => exact ih hbal hown hreq

-- Asking for one of them is the end.
theorem run_of_not_disjoint {c : Code L σ} {outer own : Finset L} {s : σ} (hbal : Balanced own c)
    (hown : Disjoint outer own) (hreq : ¬ Disjoint outer (requests s c)) :
    ∃ l ∈ outer, ∃ s', run (outer ∪ own) s c = .waits l s' := by
  induction c generalizing own s with
  | done => exact absurd (Finset.disjoint_empty_right outer) hreq
  | halt => exact absurd (Finset.disjoint_empty_right outer) hreq
  | act f next ih => exact ih hbal hown hreq
  | look next ih => exact ih s (hbal s) hown hreq
  | acquire l next ih =>
      obtain ⟨hfree, hnext⟩ := hbal
      by_cases ho : l ∈ outer
      · exact ⟨l, ho, s, by rw [run, if_pos (Finset.mem_union_left own ho)]⟩
      · have hnot : l ∉ outer ∪ own := by simp [ho, hfree]
        have hrest : ¬ Disjoint outer (requests s next) := by
          intro hd
          exact hreq (Finset.disjoint_insert_right.mpr ⟨ho, hd⟩)
        obtain ⟨l', hl', s', hrun⟩ :=
          ih hnext (Finset.disjoint_insert_right.mpr ⟨ho, hown⟩) hrest
        exact ⟨l', hl', s', by rw [run, if_neg hnot, ← Finset.union_insert, hrun]⟩
  | release l next ih =>
      obtain ⟨hheld, hnext⟩ := hbal
      obtain ⟨l', hl', s', hrun⟩ :=
        ih hnext (hown.mono_right (Finset.erase_subset l own)) hreq
      exact ⟨l', hl', s', by rw [run, erase_own hown hheld, hrun]⟩
  | wait next ih => exact ih hbal hown hreq

theorem run_held_of_disjoint {c : Code L σ} {held : Finset L} {s : σ} (hbal : Balanced ∅ c)
    (hreq : Disjoint held (requests s c)) : run held s c = ending held s c := by
  have h := run_of_disjoint hbal (Finset.disjoint_empty_right held) hreq
  rwa [Finset.union_empty] at h

theorem run_held_of_not_disjoint {c : Code L σ} {held : Finset L} {s : σ} (hbal : Balanced ∅ c)
    (hreq : ¬ Disjoint held (requests s c)) : ∃ l ∈ held, ∃ s', run held s c = .waits l s' := by
  have h := run_of_not_disjoint hbal (Finset.disjoint_empty_right held) hreq
  rwa [Finset.union_empty] at h

end Code

namespace Prog

variable {L σ α β : Type} [DecidableEq L]

open Code

-- From `s` the fragment asks for `locks`, and goes on with `a` in `s'`.
structure Does (c : Prog L σ α) (s : σ) (locks : Finset L) (a : α) (s' : σ) : Prop where
  requests_eq : ∀ next, requests s (c next) = locks ∪ requests s' (next a)
  final_eq : ∀ next, final s (c next) = final s' (next a)
  halts_eq : ∀ next, halts s (c next) = halts s' (next a)

-- From `s` the fragment asks for `locks` and halts in `s'`.
structure Stops (c : Prog L σ α) (s : σ) (locks : Finset L) (s' : σ) : Prop where
  requests_eq : ∀ next, requests s (c next) = locks
  final_eq : ∀ next, final s (c next) = s'
  halts_eq : ∀ next, halts s (c next) = true

-- The fragment keeps the locks it takes within `locks`, each taken once at a time
-- and given back, whatever happens between its steps.
def Within (locks : Finset L) (c : Prog L σ α) : Prop :=
  ∀ (held : Finset L) (next : α → Code L σ), Disjoint held locks →
    (∀ a, (next a).Balanced held) → (c next).Balanced held

section Does

variable {c : Prog L σ α} {f : α → Prog L σ β} {s s₁ s₂ : σ} {a : α} {b : β} {l : L}
  {locks locks₁ locks₂ : Finset L}

theorem Does.pure (a : α) (s : σ) : Does (Pure.pure a : Prog L σ α) s ∅ a s where
  requests_eq next := (Finset.empty_union (requests s (next a))).symm
  final_eq _ := rfl
  halts_eq _ := rfl

theorem Does.get (g : σ → α) (s : σ) : Does (Prog.get g : Prog L σ α) s ∅ (g s) s where
  requests_eq next := (Finset.empty_union (requests s (next (g s)))).symm
  final_eq _ := rfl
  halts_eq _ := rfl

theorem Does.modify (g : σ → σ) (s : σ) : Does (Prog.modify g : Prog L σ Unit) s ∅ () (g s) where
  requests_eq next := (Finset.empty_union (requests (g s) (next ()))).symm
  final_eq _ := rfl
  halts_eq _ := rfl

theorem Does.bind (hc : Does c s locks₁ a s₁) (hf : Does (f a) s₁ locks₂ b s₂)
    (hlocks : locks₁ ∪ locks₂ = locks) : Does (c >>= f) s locks b s₂ where
  requests_eq next := by
    have h := hc.requests_eq fun a => f a next
    rw [hf.requests_eq next, ← Finset.union_assoc, hlocks] at h
    exact h
  final_eq next := (hc.final_eq fun a => f a next).trans (hf.final_eq next)
  halts_eq next := (hc.halts_eq fun a => f a next).trans (hf.halts_eq next)

theorem Does.locked (hc : Does c s locks₁ a s₁) (hlocks : insert l locks₁ = locks) :
    Does (Prog.locked l c) s locks a s₁ where
  requests_eq next := by
    have h := hc.requests_eq fun a => .release l (next a)
    rw [← hlocks, Finset.insert_union]
    exact congrArg (insert l) h
  final_eq next := hc.final_eq fun a => .release l (next a)
  halts_eq next := hc.halts_eq fun a => .release l (next a)

theorem Does.locked_modify (l : L) (g : σ → σ) (s : σ) :
    Does (Prog.locked l (Prog.modify g)) s {l} () (g s) := (Does.modify g s).locked rfl

theorem Does.onlyIf {c : Prog L σ Unit} {b : Bool} (hc : Does c s locks () s₁) :
    Does (Prog.onlyIf b c) s (if b then locks else ∅) () (if b then s₁ else s) := by
  cases b with
  | true => exact hc
  | false => exact Does.pure () s

theorem Does.stops (hc : Does c s locks₁ a s₁) (hf : Stops (f a) s₁ locks₂ s₂)
    (hlocks : locks₁ ∪ locks₂ = locks) : Stops (c >>= f) s locks s₂ where
  requests_eq next := by
    have h := hc.requests_eq fun a => f a next
    rw [hf.requests_eq next, hlocks] at h
    exact h
  final_eq next := (hc.final_eq fun a => f a next).trans (hf.final_eq next)
  halts_eq next := (hc.halts_eq fun a => f a next).trans (hf.halts_eq next)

-- The same when the first part asks for nothing.
theorem Does.free_bind (hc : Does c s ∅ a s₁) (hf : Does (f a) s₁ locks b s₂) :
    Does (c >>= f) s locks b s₂ := hc.bind hf (Finset.empty_union locks)

theorem Does.free_stops (hc : Does c s ∅ a s₁) (hf : Stops (f a) s₁ locks s₂) :
    Stops (c >>= f) s locks s₂ := hc.stops hf (Finset.empty_union locks)

-- What a fragment goes on with is determined: a continuation that stops at `a` alone
-- tells `a` from any other value.
theorem Does.unique {b : α} (h₁ : Does c s locks₁ a s₁) (h₂ : Does c s locks₂ b s₂) :
    a = b ∧ s₁ = s₂ := by
  classical
  have hstate := (h₁.final_eq fun _ => .done).symm.trans (h₂.final_eq fun _ => .done)
  refine ⟨?_, hstate⟩
  by_contra hne
  have hstop := (h₁.halts_eq fun x => if x = a then .halt else .done).symm.trans
    (h₂.halts_eq fun x => if x = a then .halt else .done)
  rw [if_pos rfl, if_neg (Ne.symm hne)] at hstop
  exact Bool.noConfusion hstop

theorem Does.requests_code (hc : Does c s locks a s₁) : c.code.requests s = locks :=
  (hc.requests_eq _).trans (Finset.union_empty locks)

theorem Does.run_of_disjoint {held : Finset L} (hc : Does c s locks a s₁)
    (hbal : c.code.Balanced ∅) (hfree : Disjoint held locks) :
    c.code.run held s = .finished s₁ held := by
  rw [run_held_of_disjoint hbal (hc.requests_code ▸ hfree), ending]
  have hgoes : c.code.halts s = false := hc.halts_eq _
  have hends : c.code.final s = s₁ := hc.final_eq _
  rw [hgoes, hends]
  rfl

theorem Does.run_of_not_disjoint {held : Finset L} (hc : Does c s locks a s₁)
    (hbal : c.code.Balanced ∅) (htaken : ¬ Disjoint held locks) :
    ∃ l ∈ held, ∃ s', c.code.run held s = .waits l s' :=
  run_held_of_not_disjoint hbal (hc.requests_code ▸ htaken)

theorem Stops.halt (s : σ) : Stops (Prog.halt : Prog L σ α) s ∅ s where
  requests_eq _ := rfl
  final_eq _ := rfl
  halts_eq _ := rfl

theorem Stops.bind (hc : Stops c s locks s₁) : Stops (c >>= f) s locks s₁ where
  requests_eq next := hc.requests_eq fun a => f a next
  final_eq next := hc.final_eq fun a => f a next
  halts_eq next := hc.halts_eq fun a => f a next

theorem Stops.run_of_disjoint {held : Finset L} {next : α → Code L σ} (hc : Stops c s locks s₁)
    (hbal : (c next).Balanced ∅) (hfree : Disjoint held locks) :
    (c next).run held s = .halted s₁ := by
  rw [run_held_of_disjoint hbal (hc.requests_eq next ▸ hfree), ending, hc.halts_eq, hc.final_eq]
  rfl

theorem Stops.run_of_not_disjoint {held : Finset L} {next : α → Code L σ}
    (hc : Stops c s locks s₁) (hbal : (c next).Balanced ∅) (htaken : ¬ Disjoint held locks) :
    ∃ l ∈ held, ∃ s', (c next).run held s = .waits l s' :=
  run_held_of_not_disjoint hbal (hc.requests_eq next ▸ htaken)

end Does

section Within

variable {c : Prog L σ α} {f : α → Prog L σ β} {l : L} {locks locks' : Finset L}

theorem Within.pure (a : α) : Within locks (Pure.pure a : Prog L σ α) :=
  fun _ _ _ hnext => hnext a

theorem Within.get (g : σ → α) : Within locks (Prog.get g : Prog L σ α) :=
  fun _ _ _ hnext s => hnext (g s)

theorem Within.modify (g : σ → σ) : Within locks (Prog.modify g : Prog L σ Unit) :=
  fun _ _ _ hnext => hnext ()

theorem Within.await : Within locks (Prog.await : Prog L σ Unit) :=
  fun _ _ _ hnext => hnext ()

theorem Within.halt : Within locks (Prog.halt : Prog L σ α) := fun _ _ _ _ => trivial

theorem Within.bind (hc : Within locks c) (hf : ∀ a, Within locks (f a)) :
    Within locks (c >>= f) :=
  fun held next hheld hnext => hc held _ hheld fun a => hf a held next hheld hnext

theorem Within.onlyIf {c : Prog L σ Unit} (hc : Within locks c) (b : Bool) :
    Within locks (Prog.onlyIf b c) := by
  cases b with
  | true => exact hc
  | false => exact Within.pure ()

theorem Within.mono (hc : Within locks c) (hsub : locks ⊆ locks') : Within locks' c :=
  fun held next hheld hnext => hc held next (hheld.mono_right hsub) hnext

theorem Within.locked (hc : Within locks c) (hout : l ∉ locks) (hl : l ∈ locks')
    (hsub : locks ⊆ locks') : Within locks' (Prog.locked l c) := by
  intro held next hheld hnext
  have hfree : l ∉ held := fun h => Finset.disjoint_left.mp hheld h hl
  have hbody : Disjoint (insert l held) locks :=
    Finset.disjoint_insert_left.mpr ⟨hout, hheld.mono_right hsub⟩
  refine ⟨hfree, hc _ _ hbody fun a => ⟨Finset.mem_insert_self l held, ?_⟩⟩
  rw [Finset.erase_insert hfree]
  exact hnext a

theorem Within.locked_free (hc : Within ∅ c) (hl : l ∈ locks) : Within locks (Prog.locked l c) :=
  hc.locked (Finset.notMem_empty l) hl (Finset.empty_subset locks)

theorem Within.balanced (hc : Within locks c) : c.code.Balanced ∅ :=
  hc ∅ _ (Finset.disjoint_empty_left locks) fun _ => rfl

end Within

end Prog

end Orin.Theory
