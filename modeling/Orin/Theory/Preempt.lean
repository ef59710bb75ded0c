import Orin.Theory.Run
import Orin.Theory.SpinLock

namespace Orin.Theory

-- One core: what the main context still has to do, the locks it holds, and the
-- memory it shares with the interrupt handlers.
structure Core (L σ : Type) where
  code : Code L σ
  held : Finset L
  state : σ

inductive Turn (ι : Type) where
  | main
  | interrupt (i : ι)

inductive Stuck (L : Type) where
  | waits (l : L)
  | halted

section Preempt

variable {L σ ι : Type} [DecidableEq L]

-- The main context repeats `body` for ever.
def advance (body : Code L σ) : Core L σ → Except (Stuck L) (Core L σ)
  | ⟨.done, held, s⟩ => .ok ⟨body, held, s⟩
  | ⟨.halt, _, _⟩ => .error .halted
  | ⟨.act f next, held, s⟩ => .ok ⟨next, held, f s⟩
  | ⟨.look next, held, s⟩ => .ok ⟨next s, held, s⟩
  | ⟨.acquire l next, held, s⟩ =>
      if l ∈ held then .error (.waits l) else .ok ⟨next, insert l held, s⟩
  | ⟨.release l next, held, s⟩ => .ok ⟨next, held.erase l, s⟩
  | ⟨.wait next, held, s⟩ => .ok ⟨.wait next, held, s⟩

def wake : Code L σ → Code L σ
  | .wait next => next
  | c => c

-- A handler runs to completion over the suspended main context, which keeps its locks.
def serve (handler : Code L σ) (c : Core L σ) : Except (Stuck L) (Core L σ) :=
  match Code.run c.held c.state handler with
  | .finished s _ => .ok ⟨wake c.code, c.held, s⟩
  | .halted _ => .error .halted
  | .waits l _ => .error (.waits l)

def Core.step (body : Code L σ) (handler : ι → Code L σ) (c : Core L σ) :
    Turn ι → Except (Stuck L) (Unit × Core L σ)
  | .main => (advance body c).map ((), ·)
  | .interrupt i => (serve (handler i) c).map ((), ·)

def Core.Sound (c : Core L σ) : Prop := c.code.Balanced c.held

variable {body : Code L σ} {handler : ι → Code L σ} {c c' : Core L σ}

theorem advance_sound (hbody : body.Balanced ∅) (hc : c.Sound) (h : advance body c = .ok c') :
    c'.Sound := by
  obtain ⟨code, held, s⟩ := c
  cases code with
  | done =>
      obtain rfl : held = ∅ := hc
      cases h
      exact hbody
  | halt => cases h
  | act f next =>
      cases h
      exact hc
  | look next =>
      cases h
      exact hc s
  | acquire l next =>
      obtain ⟨hfree, hnext⟩ := hc
      rw [advance, if_neg hfree] at h
      cases h
      exact hnext
  | release l next =>
      cases h
      exact hc.2
  | wait next =>
      cases h
      exact hc

theorem wake_balanced {held : Finset L} {code : Code L σ} (h : code.Balanced held) :
    (wake code).Balanced held := by
  cases code <;> exact h

theorem serve_of_finished {code : Code L σ} {s : σ} {held : Finset L}
    (h : code.run c.held c.state = .finished s held) :
    serve code c = .ok ⟨wake c.code, c.held, s⟩ := by
  rw [serve, h]

theorem serve_of_waits {code : Code L σ} {l : L} {s : σ}
    (h : code.run c.held c.state = .waits l s) : serve code c = .error (.waits l) := by
  rw [serve, h]

theorem serve_sound {code : Code L σ} (hc : c.Sound) (h : serve code c = .ok c') : c'.Sound := by
  unfold serve at h
  split at h
  · cases h
    exact wake_balanced hc
  · cases h
  · cases h

theorem step_sound (hbody : body.Balanced ∅) (hc : c.Sound) {turn : Turn ι} {answer : Unit}
    (h : c.step body handler turn = .ok (answer, c')) : c'.Sound := by
  cases turn with
  | main =>
      simp only [Core.step] at h
      cases hadv : advance body c with
      | error e => simp [hadv, Except.map] at h
      | ok c₁ =>
          obtain rfl : c₁ = c' := by simpa [hadv, Except.map] using h
          exact advance_sound hbody hc hadv
  | interrupt i =>
      simp only [Core.step] at h
      cases hserve : serve (handler i) c with
      | error e => simp [hserve, Except.map] at h
      | ok c₁ =>
          obtain rfl : c₁ = c' := by simpa [hserve, Except.map] using h
          exact serve_sound hc hserve

-- The main context never waits for itself.
theorem advance_not_waiting (hc : c.Sound) (l : L) : advance body c ≠ .error (.waits l) := by
  obtain ⟨code, held, s⟩ := c
  cases code with
  | acquire l' next => simp [advance, hc.1]
  | _ => simp [advance]

theorem main_not_waiting (hc : c.Sound) (l : L) :
    c.step body handler .main ≠ .error (.waits l) := by
  simp only [Core.step]
  cases hadv : advance body c with
  | error e =>
      rintro ⟨⟩
      exact advance_not_waiting hc l hadv
  | ok c' => simp [Except.map]

-- The turns that end in a wait: interrupts whose handler asks for a lock of the context
-- it interrupted.
def Contends (handler : ι → Code L σ) (c : Core L σ) : Turn ι → Prop
  | .main => False
  | .interrupt i => ¬ Disjoint c.held ((handler i).requests c.state)

theorem step_waits_iff (hhandler : ∀ i, (handler i).Balanced ∅) (hc : c.Sound) (turn : Turn ι) :
    (∃ l, c.step body handler turn = .error (.waits l)) ↔ Contends handler c turn := by
  cases turn with
  | main => exact ⟨fun ⟨l, hl⟩ => main_not_waiting hc l hl, False.elim⟩
  | interrupt i =>
      simp only [Contends, Core.step, serve]
      by_cases hd : Disjoint c.held ((handler i).requests c.state)
      · rw [Code.run_held_of_disjoint (hhandler i) hd, Code.ending]
        cases (handler i).halts c.state <;> simp [Except.map, hd]
      · obtain ⟨l, -, s, hrun⟩ := Code.run_held_of_not_disjoint (hhandler i) hd
        simp [hrun, Except.map, hd]

-- An interleaving ends with a context waiting exactly when one of its interrupts
-- arrived while the main context held a lock of that handler.
theorem replay_waits_iff {start : Core L σ} (hbody : body.Balanced ∅)
    (hhandler : ∀ i, (handler i).Balanced ∅) (hstart : start.Sound) (turns : List (Turn ι)) :
    (∃ l, replay (Core.step body handler) start turns = .error (.waits l)) ↔
      ∃ past turn future c, turns = past ++ turn :: future ∧
        replay (Core.step body handler) start past = .ok c ∧ Contends handler c turn :=
  replay_stuck_iff Stuck.waits (fun _ _ _ _ hc hstep => step_sound hbody hc hstep)
    (fun _ turn hc => step_waits_iff hhandler hc turn) hstart turns

end Preempt

end Orin.Theory
