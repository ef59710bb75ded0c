import Mathlib.Logic.Relation
import Orin.Theory.Preempt

namespace Orin.Theory

open Relation (ReflTransGen)

-- A context and its surroundings share a world: a state `σ`, and a record `γ` that only the
-- surroundings write. `rely` is what they may do between two steps of the context, `always`
-- holds at every moment and `resting` whenever the context idles or is through.
structure Setting (γ σ : Type) where
  rely : γ × σ → γ × σ → Prop
  always : γ × σ → Prop
  resting : γ × σ → Prop

section Rely

variable {L γ σ ι α β ν : Type} {E : Setting γ σ} {w w' : γ × σ}

namespace Setting

def Stable (E : Setting γ σ) (P : γ × σ → Prop) : Prop :=
  (∀ w w', P w → E.rely w w' → P w') ∧ ∀ w, P w → E.always w

-- What a step finds: `always` holds now, and `K` after whatever happens before the step.
def Soon (E : Setting γ σ) (w : γ × σ) (K : γ × σ → Prop) : Prop :=
  E.always w ∧ ∀ w', ReflTransGen E.rely w w' → K w'

-- The surroundings keep the two promises of the setting.
structure Fair (E : Setting γ σ) : Prop where
  always : E.Stable E.always
  resting : E.Stable E.resting

theorem Stable.star {P : γ × σ → Prop} (hP : E.Stable P) (hw : P w)
    (h : ReflTransGen E.rely w w') : P w' := by
  induction h with
  | refl => exact hw
  | tail _ hstep ih => exact hP.1 _ _ ih hstep

theorem Stable.soon {P K : γ × σ → Prop} (hP : E.Stable P) (hK : ∀ w, P w → K w) (hw : P w) :
    E.Soon w K :=
  ⟨hP.2 w hw, fun _ h => hK _ (hP.star hw h)⟩

theorem Soon.now {K : γ × σ → Prop} (h : E.Soon w K) : K w := h.2 w .refl

theorem Soon.later {K : γ × σ → Prop} (hE : E.Stable E.always) (h : E.Soon w K)
    (hstep : E.rely w w') : E.Soon w' K :=
  ⟨hE.1 _ _ h.1 hstep, fun _ hrest => h.2 _ (hrest.head hstep)⟩

-- A context that runs alone, up to `Q`.
def alone (Q : γ × σ → Prop) : Setting γ σ := ⟨fun _ _ => False, fun _ => True, Q⟩

theorem alone_stable {P Q : γ × σ → Prop} : (alone Q).Stable P := ⟨fun _ _ _ => False.elim, fun _ _ => trivial⟩

end Setting

-- What is left of the context keeps the promises of the setting from `w` on, whatever the
-- surroundings do, and never halts.
def Code.Keeps (E : Setting γ σ) : Code L σ → γ × σ → Prop
  | .done, w => E.resting w
  | .halt, _ => False
  | .act f next, w => E.Soon w fun w => Keeps E next (w.1, f w.2)
  | .look next, w => E.Soon w fun w => Keeps E (next w.2) w
  | .acquire _ next, w => E.Soon w (Keeps E next)
  | .release _ next, w => E.Soon w (Keeps E next)
  | .wait next, w => E.resting w ∧ E.Soon w (Keeps E next)

namespace Code

variable {code : Code L σ}

theorem Keeps.always (hE : E.Fair) (h : code.Keeps E w) : E.always w := by
  cases code with
  | done => exact hE.resting.2 w h
  | halt => exact h.elim
  | act f next => exact h.1
  | look next => exact h.1
  | acquire l next => exact h.1
  | release l next => exact h.1
  | wait next => exact h.2.1

-- Between two rounds, or halted until the next interrupt.
def Idle : Code L σ → Prop
  | .done => True
  | .wait _ => True
  | _ => False

theorem Keeps.resting (h : code.Keeps E w) (hidle : code.Idle) : E.resting w := by
  cases code with
  | done => exact h
  | wait next => exact h.1
  | _ => exact hidle.elim

-- An interrupt changes the world under the context, and ends its waiting.
theorem Keeps.interfere (hE : E.Fair) (h : code.Keeps E w) (hstep : E.rely w w') :
    (wake code).Keeps E w' := by
  cases code with
  | done => exact hE.resting.1 _ _ h hstep
  | halt => exact h.elim
  | act f next => exact h.later hE.always hstep
  | look next => exact h.later hE.always hstep
  | acquire l next => exact h.later hE.always hstep
  | release l next => exact h.later hE.always hstep
  | wait next => exact h.2.2 _ (.single hstep)

-- Where the context ends when nothing comes between its steps.
theorem Keeps.final {g : γ} {s : σ} (h : code.Keeps E (g, s)) : E.resting (g, code.final s) := by
  induction code generalizing s with
  | done => exact h
  | halt => exact h.elim
  | act f next ih => exact ih h.now
  | look next ih => exact ih s h.now
  | acquire l next ih => exact ih h.now
  | release l next ih => exact ih h.now
  | wait next ih => exact ih h.2.now

variable [DecidableEq L]

-- A handler that runs to its end over the locks of the context it interrupted.
theorem Keeps.run {held held' : Finset L} {g : γ} {s s' : σ} (h : code.Keeps E (g, s))
    (hrun : code.run held s = .finished s' held') : E.resting (g, s') := by
  induction code generalizing held s with
  | done =>
      cases hrun
      exact h
  | halt => cases hrun
  | act f next ih => exact ih h.now hrun
  | look next ih => exact ih s h.now hrun
  | acquire l next ih =>
      rw [Code.run] at hrun
      split at hrun
      · cases hrun
      · exact ih h.now hrun
  | release l next ih => exact ih h.now hrun
  | wait next ih => exact ih h.2.now hrun

theorem Keeps.advance {body : Code L σ} {c c' : Core L σ} {g : γ}
    (hbody : ∀ w, E.resting w → body.Keeps E w) (h : c.code.Keeps E (g, c.state))
    (hstep : advance body c = .ok c') : c'.code.Keeps E (g, c'.state) := by
  obtain ⟨code, held, s⟩ := c
  cases code with
  | done =>
      cases hstep
      exact hbody _ h
  | halt => cases hstep
  | act f next =>
      cases hstep
      exact h.now
  | look next =>
      cases hstep
      exact h.now
  | acquire l next =>
      rw [Theory.advance] at hstep
      split at hstep
      · cases hstep
      · cases hstep
        exact h.now
  | release l next =>
      cases hstep
      exact h.now
  | wait next =>
      cases hstep
      exact h

end Code

section Run

variable [DecidableEq L] {body : Code L σ} {handler : ι → Code L σ}

-- The record over a schedule: `note` enters each interrupt in the state it finds.
def record (body : Code L σ) (handler : ι → Code L σ) (note : γ → σ → ι → γ) :
    γ → Core L σ → List (Turn ι) → γ
  | g, _, [] => g
  | g, c, turn :: turns =>
      match c.step body handler turn with
      | .error _ => g
      | .ok (_, c') =>
          match turn with
          | .main => record body handler note g c' turns
          | .interrupt i => record body handler note (note g c.state i) c' turns

-- The handlers do to the world what the context relies on.
def Guarantees (E : Setting γ σ) (handler : ι → Code L σ) (note : γ → σ → ι → γ) : Prop :=
  ∀ i g s held s' held', (handler i).run held s = .finished s' held' →
    E.rely (g, s) (note g s i, s')

theorem replay_keeps {note : γ → σ → ι → γ} {turns : List (Turn ι)} {c c' : Core L σ} {g : γ}
    (hE : E.Fair) (hbody : ∀ w, E.resting w → body.Keeps E w)
    (hhandler : Guarantees E handler note) (h : c.code.Keeps E (g, c.state))
    (hrun : replay (Core.step body handler) c turns = .ok c') :
    c'.code.Keeps E (record body handler note g c turns, c'.state) := by
  induction turns generalizing c g with
  | nil =>
      cases hrun
      exact h
  | cons turn turns ih =>
      cases turn with
      | main =>
          cases hadv : advance body c with
          | error e => simp [Theory.replay, Core.step, hadv, Except.map] at hrun
          | ok c₁ =>
              have hstep : c.step body handler .main = .ok ((), c₁) := by
                simp [Core.step, hadv, Except.map]
              rw [replay_cons_ok hstep] at hrun
              simp only [record, hstep]
              exact ih (h.advance hbody hadv) hrun
      | interrupt i =>
          cases hserve : serve (handler i) c with
          | error e => simp [Theory.replay, Core.step, hserve, Except.map] at hrun
          | ok c₁ =>
              have hstep : c.step body handler (.interrupt i) = .ok ((), c₁) := by
                simp [Core.step, hserve, Except.map]
              rw [replay_cons_ok hstep] at hrun
              simp only [record, hstep]
              refine ih ?_ hrun
              unfold serve at hserve
              split at hserve
              · rename_i s' held' hfinished
                cases hserve
                exact h.interfere hE (hhandler i g c.state c.held s' held' hfinished)
              · cases hserve
              · cases hserve

end Run

namespace Prog

variable {P P' : γ × σ → Prop} {c : Prog L σ α} {f : α → Prog L σ β} {R R' : α → γ × σ → Prop}
  {l : L}

-- From `P` the fragment keeps the promises of the setting, and what follows it finds `R`.
def Triple (E : Setting γ σ) (P : γ × σ → Prop) (c : Prog L σ α) (R : α → γ × σ → Prop) : Prop :=
  ∀ next : α → Code L σ, (∀ a w, R a w → (next a).Keeps E w) → ∀ w, P w → (c next).Keeps E w

theorem Triple.pure {a : α} (h : ∀ w, P w → R a w) : Triple E P (Pure.pure a : Prog L σ α) R :=
  fun _ hnext w hw => hnext a w (h w hw)

theorem Triple.get {g : σ → α} (hP : E.Stable P) (h : ∀ w, P w → R (g w.2) w) :
    Triple E P (Prog.get g : Prog L σ α) R :=
  fun _ hnext _ hw => hP.soon (fun w hw => hnext _ w (h w hw)) hw

theorem Triple.modify {g : σ → σ} {R : Unit → γ × σ → Prop} (hP : E.Stable P)
    (h : ∀ w, P w → R () (w.1, g w.2)) : Triple E P (Prog.modify g : Prog L σ Unit) R :=
  fun _ hnext _ hw => hP.soon (fun w hw => hnext () (w.1, g w.2) (h w hw)) hw

theorem Triple.await {R : Unit → γ × σ → Prop} (hP : E.Stable P) (hrest : ∀ w, P w → E.resting w)
    (h : ∀ w, P w → R () w) : Triple E P (Prog.await : Prog L σ Unit) R :=
  fun _ hnext w hw => ⟨hrest w hw, hP.soon (fun w hw => hnext () w (h w hw)) hw⟩

theorem Triple.bind {S : β → γ × σ → Prop} (hc : Triple E P c R) (hf : ∀ a, Triple E (R a) (f a) S) :
    Triple E P (c >>= f) S :=
  fun next hnext => hc (fun a => f a next) fun a => hf a next hnext

theorem Triple.locked (hP : E.Stable P) (hR : ∀ a, E.Stable (R a)) (hc : Triple E P c R) :
    Triple E P (Prog.locked l c) R := by
  intro next hnext w hw
  have hbody := hc (fun a => .release l (next a)) fun a _ ha => (hR a).soon (hnext a) ha
  exact hP.soon hbody hw

theorem Triple.conseq (hc : Triple E P c R) (hP : ∀ w, P' w → P w) (hR : ∀ a w, R a w → R' a w) :
    Triple E P' c R' :=
  fun next hnext w hw => hc next (fun a w ha => hnext a w (hR a w ha)) w (hP w hw)

theorem Triple.onlyIf {c : Prog L σ Unit} {R : Unit → γ × σ → Prop} {b : Bool}
    (hc : b = true → Triple E P c R) (hskip : b = false → ∀ w, P w → R () w) :
    Triple E P (Prog.onlyIf b c) R := by
  cases b with
  | true => exact hc rfl
  | false => exact Triple.pure (hskip rfl)

theorem Triple.code (hc : Triple E P c fun _ => E.resting) (hw : P w) : c.code.Keeps E w :=
  hc (fun _ => .done) (fun _ _ h => h) w hw

-- The fragment does nothing that `view` shows: any condition on what it shows stays.
def Silent (E : Setting γ σ) (view : σ → ν) (c : Prog L σ α) : Prop :=
  ∀ P : γ × ν → Prop, E.Stable (fun w => P (w.1, view w.2)) →
    Triple E (fun w => P (w.1, view w.2)) c fun _ w => P (w.1, view w.2)

section Silent

variable {view : σ → ν}

theorem Silent.pure (a : α) : Silent E view (Pure.pure a : Prog L σ α) :=
  fun _ _ => Triple.pure fun _ hw => hw

theorem Silent.get (g : σ → α) : Silent E view (Prog.get g : Prog L σ α) :=
  fun _ hP => Triple.get hP fun _ hw => hw

theorem Silent.modify {g : σ → σ} (h : ∀ s, view (g s) = view s) :
    Silent E view (Prog.modify g : Prog L σ Unit) :=
  fun P hP => Triple.modify hP fun w hw => show P (w.1, view (g w.2)) from h w.2 ▸ hw

theorem Silent.bind (hc : Silent E view c) (hf : ∀ a, Silent E view (f a)) :
    Silent E view (c >>= f) :=
  fun P hP => (hc P hP).bind fun a => hf a P hP

theorem Silent.locked (hc : Silent E view c) : Silent E view (Prog.locked l c) :=
  fun P hP => Triple.locked hP (fun _ => hP) (hc P hP)

theorem Silent.onlyIf {c : Prog L σ Unit} (hc : Silent E view c) (b : Bool) :
    Silent E view (Prog.onlyIf b c) := by
  cases b with
  | true => exact hc
  | false => exact Silent.pure ()

-- What a view shows less of.
theorem Silent.coarser {ν' : Type} (look : ν → ν') (hc : Silent E view c) :
    Silent E (fun s => look (view s)) c :=
  fun P => hc fun w => P (w.1, look w.2)

-- A silent handler leaves the view as it found it.
theorem Silent.run [DecidableEq L] {held held' : Finset L} {s s' : σ}
    (hc : Silent (.alone fun w : Unit × σ => view w.2 = view s) view c)
    (hrun : c.code.run held s = .finished s' held') : view s' = view s := by
  have hkeeps := (hc (fun w => w.2 = view s) Setting.alone_stable).code (w := ((), s)) rfl
  exact hkeeps.run hrun

end Silent

end Prog

end Rely

end Orin.Theory
