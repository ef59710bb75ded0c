import Orin.Theory.Rely

namespace Orin.Theory

section Guard

variable {L γ σ ν ν' α β : Type}

namespace Code

-- The code does nothing that `view` shows, whatever state it meets at each step.
def Spares (view : σ → ν) : Code L σ → Prop
  | .done => True
  | .halt => True
  | .act f next => (∀ s, view (f s) = view s) ∧ Spares view next
  | .look next => ∀ s, Spares view (next s)
  | .acquire _ next => Spares view next
  | .release _ next => Spares view next
  | .wait next => Spares view next

theorem Spares.coarser {view : σ → ν} {code : Code L σ} (look : ν → ν') (h : code.Spares view) :
    code.Spares fun s => look (view s) := by
  induction code with
  | done => trivial
  | halt => trivial
  | act f next ih => exact ⟨fun s => congrArg look (h.1 s), ih h.2⟩
  | look next ih => exact fun s => ih s (h s)
  | acquire l next ih => exact ih h
  | release l next ih => exact ih h
  | wait next ih => exact ih h

theorem Spares.wake {view : σ → ν} {code : Code L σ} (h : code.Spares view) :
    (wake code).Spares view := by
  cases code <;> exact h

variable [DecidableEq L]

theorem Spares.advance {view : σ → ν} {c c' : Core L σ} (h : c.code.Spares view)
    (hstep : Theory.advance .done c = .ok c') :
    c'.code.Spares view ∧ view c'.state = view c.state := by
  obtain ⟨code, held, s⟩ := c
  cases code with
  | done =>
      cases hstep
      exact ⟨trivial, rfl⟩
  | halt => cases hstep
  | act f next =>
      cases hstep
      exact ⟨h.2, h.1 s⟩
  | look next =>
      cases hstep
      exact ⟨h s, rfl⟩
  | acquire l next =>
      rw [Theory.advance] at hstep
      split at hstep
      · cases hstep
      · cases hstep
        exact ⟨h, rfl⟩
  | release l next =>
      cases hstep
      exact ⟨h, rfl⟩
  | wait next =>
      cases hstep
      exact ⟨h, rfl⟩

-- A lock and what it stands for: the surroundings keep to `E true` while the context has the
-- lock and to `E false` while it does not. What is left of the context keeps the promise of the
-- setting it is in at every step, and when it changes hands.
def Guards (lock : L) (E : Bool → Setting γ σ) : Bool → Code L σ → γ × σ → Prop
  | own, .done, w => (E own).always w
  | own, .halt, w => (E own).always w
  | own, .act f next, w => (E own).Soon w fun w => Guards lock E own next (w.1, f w.2)
  | own, .look next, w => (E own).Soon w fun w => Guards lock E own (next w.2) w
  | own, .acquire l next, w => (E own).Soon w (Guards lock E (own || l = lock) next)
  | own, .release l next, w => (E own).Soon w (Guards lock E (own && l ≠ lock) next)
  | own, .wait next, w => (E own).Soon w (Guards lock E own next)

variable {lock : L} {E : Bool → Setting γ σ} {own : Bool} {code : Code L σ} {w w' : γ × σ}

theorem Guards.always (h : code.Guards lock E own w) : (E own).always w := by
  cases code with
  | done => exact h
  | halt => exact h
  | _ => exact h.1

theorem Guards.interfere (hE : (E own).Stable (E own).always) (h : code.Guards lock E own w)
    (hstep : (E own).rely w w') : code.Guards lock E own w' := by
  cases code with
  | done => exact hE.1 _ _ h hstep
  | halt => exact hE.1 _ _ h hstep
  | _ => exact h.later hE hstep

theorem Guards.wake (h : code.Guards lock E own w) : (wake code).Guards lock E own w := by
  cases code with
  | wait next => exact h.now
  | _ => exact h

theorem Guards.advance {c c' : Core L σ} {g : γ}
    (h : c.code.Guards lock E (decide (lock ∈ c.held)) (g, c.state))
    (hstep : Theory.advance .done c = .ok c') :
    c'.code.Guards lock E (decide (lock ∈ c'.held)) (g, c'.state) := by
  obtain ⟨code, held, s⟩ := c
  cases code with
  | done =>
      cases hstep
      exact h
  | halt => cases hstep
  | act f next =>
      cases hstep
      exact h.now
  | look next =>
      cases hstep
      exact h.now
  | acquire l next =>
      rw [Theory.advance] at hstep
      split at hstep
      · cases hstep
      · cases hstep
        have hown : decide (lock ∈ insert l held) = (decide (lock ∈ held) || decide (l = lock)) := by
          simp [Finset.mem_insert, eq_comm, Bool.or_comm]
        rw [hown]
        exact h.now
  | release l next =>
      cases hstep
      have hown : decide (lock ∈ held.erase l) = (decide (lock ∈ held) && decide (l ≠ lock)) := by
        simp [Finset.mem_erase, eq_comm, Bool.and_comm]
      rw [hown]
      exact h.now
  | wait next =>
      cases hstep
      exact h

-- Code that spares what a promise is about keeps the promise, with the lock or without.
theorem Spares.guards {view : σ → ν} {P : ν → Prop} (h : code.Spares view)
    (hP : ∀ own, (E own).Stable fun w => P (view w.2)) (hw : P (view w.2)) :
    code.Guards lock E own w := by
  induction code generalizing own w with
  | done => exact (hP own).2 w hw
  | halt => exact (hP own).2 w hw
  | act f next ih =>
      refine (hP own).soon (fun w hw => ih h.2 ?_) hw
      exact (h.1 w.2).symm ▸ hw
  | look next ih => exact (hP own).soon (fun w hw => ih w.2 (h w.2) hw) hw
  | acquire l next ih => exact (hP own).soon (fun w hw => ih h hw) hw
  | release l next ih => exact (hP own).soon (fun w hw => ih h hw) hw
  | wait next ih => exact (hP own).soon (fun w hw => ih h hw) hw

end Code

namespace Prog

variable {view : σ → ν} {c : Prog L σ α} {f : α → Prog L σ β}

def Spares (view : σ → ν) (c : Prog L σ α) : Prop :=
  ∀ next : α → Code L σ, (∀ a, (next a).Spares view) → (c next).Spares view

theorem Spares.pure (a : α) : Spares view (Pure.pure a : Prog L σ α) := fun _ hnext => hnext a

theorem Spares.get (g : σ → α) : Spares view (Prog.get g : Prog L σ α) :=
  fun _ hnext s => hnext (g s)

theorem Spares.modify {g : σ → σ} (h : ∀ s, view (g s) = view s) :
    Spares view (Prog.modify g : Prog L σ Unit) := fun _ hnext => ⟨h, hnext ()⟩

theorem Spares.bind (hc : Spares view c) (hf : ∀ a, Spares view (f a)) : Spares view (c >>= f) :=
  fun next hnext => hc _ fun a => hf a next hnext

theorem Spares.locked {l : L} (hc : Spares view c) : Spares view (Prog.locked l c) :=
  fun _ hnext => hc _ hnext

theorem Spares.onlyIf {c : Prog L σ Unit} (hc : Spares view c) (b : Bool) :
    Spares view (Prog.onlyIf b c) := by
  cases b with
  | true => exact hc
  | false => exact Spares.pure ()

theorem Spares.code (hc : Spares view c) : c.code.Spares view := hc _ fun _ => trivial

section Secures

variable [DecidableEq L] {lock : L} {E : Bool → Setting γ σ} {own : Bool} {P R : γ × σ → Prop}
  {Q : α → γ × σ → Prop} {w : γ × σ}

-- Between `P` and `Q` the fragment keeps the promise of the setting it starts and ends in.
def Secures (lock : L) (E : Bool → Setting γ σ) (own : Bool) (P : γ × σ → Prop) (c : Prog L σ α)
    (Q : α → γ × σ → Prop) : Prop :=
  ∀ next : α → Code L σ, (∀ a w, Q a w → (next a).Guards lock E own w) →
    ∀ w, P w → (c next).Guards lock E own w

theorem Secures.pure (a : α) : Secures lock E own (Q a) (Pure.pure a : Prog L σ α) Q :=
  fun _ hnext w hw => hnext a w hw

theorem Secures.get (hP : (E own).Stable P) (g : σ → α) :
    Secures lock E own P (Prog.get g : Prog L σ α) fun a w => P w ∧ g w.2 = a :=
  fun _ hnext _ hw => hP.soon (fun w hw => hnext _ w ⟨hw, rfl⟩) hw

theorem Secures.modify {g : σ → σ} {Q : Unit → γ × σ → Prop} (hP : (E own).Stable P)
    (hQ : ∀ w, P w → Q () (w.1, g w.2)) :
    Secures lock E own P (Prog.modify g : Prog L σ Unit) Q :=
  fun _ hnext _ hw => hP.soon (fun w hw => hnext () _ (hQ w hw)) hw

theorem Secures.bind {S : β → γ × σ → Prop} (hc : Secures lock E own P c Q)
    (hf : ∀ a, Secures lock E own (Q a) (f a) S) : Secures lock E own P (c >>= f) S :=
  fun next hnext w hw => hc _ (fun a w hw => hf a next hnext w hw) w hw

theorem Secures.onlyIf {c : Prog L σ Unit} (hc : Secures lock E own P c fun _ => P) (b : Bool) :
    Secures lock E own P (Prog.onlyIf b c) fun _ => P := by
  cases b with
  | true => exact hc
  | false => exact Secures.pure ()

-- A critical section of the lock: `P` is what the lock stands for, and holds at both ends.
theorem Secures.locked (hout : (E false).Stable P)
    (hc : ∀ w, P w → (c fun _ => .release lock .done).Guards lock E true w) (hw : P w) :
    (Prog.locked lock c).code.Guards lock E false w := by
  refine hout.soon (fun w hw => ?_) hw
  simpa using hc w hw

end Secures

end Prog

end Guard

end Orin.Theory
