import Mathlib.Order.Basic

namespace Orin.Theory

-- One completed step: the state it found, what was asked and what was answered.
structure Event (σ ι ο : Type) where
  before : σ
  op : ι
  answer : ο

section Run

variable {σ ι ο ε : Type} {legal : σ → ι → Prop} {step : σ → ι → Except ε (ο × σ)}

-- The histories of a machine whose callers keep to `legal`. A step that stops ends
-- the run, so only completed steps are recorded.
inductive Run (legal : σ → ι → Prop) (step : σ → ι → Except ε (ο × σ)) (start : σ) :
    List (Event σ ι ο) → σ → Prop
  | nil : Run legal step start [] start
  | snoc {history : List (Event σ ι ο)} {s s' : σ} {op : ι} {answer : ο} :
      Run legal step start history s → legal s op → step s op = .ok (answer, s') →
      Run legal step start (history ++ [⟨s, op, answer⟩]) s'

variable {start s : σ} {history past future : List (Event σ ι ο)} {e : Event σ ι ο}

theorem Run.invariant (I : σ → Prop) (hstart : I start)
    (hstep : ∀ s op answer s', I s → legal s op → step s op = .ok (answer, s') → I s')
    (h : Run legal step start history s) : I s := by
  induction h with
  | nil => exact hstart
  | snoc _ hlegal hs ih => exact hstep _ _ _ _ ih hlegal hs

theorem Run.mono {legal' : σ → ι → Prop} (hlegal : ∀ s op, legal s op → legal' s op)
    (h : Run legal step start history s) : Run legal' step start history s := by
  induction h with
  | nil => exact .nil
  | snoc _ hl hs ih => exact ih.snoc (hlegal _ _ hl) hs

-- A condition that every step of the run met can be read as part of its legality.
theorem Run.restrict (cond : σ → ι → Prop) (h : Run legal step start history s)
    (hcond : ∀ e ∈ history, cond e.before e.op) :
    Run (fun s op => legal s op ∧ cond s op) step start history s := by
  induction h with
  | nil => exact .nil
  | @snoc history s s' op answer hrun hl hs ih =>
      have hpast := ih fun e he => hcond e (List.mem_append_left _ he)
      exact hpast.snoc ⟨hl, hcond ⟨s, op, answer⟩ (by simp)⟩ hs

-- A run over a concatenated history passes through the state between the parts.
theorem Run.split (h : Run legal step start (past ++ future) s) :
    ∃ mid, Run legal step start past mid ∧ Run legal step mid future s := by
  generalize hall : past ++ future = all at h
  induction h generalizing future with
  | nil =>
      obtain ⟨rfl, rfl⟩ := List.append_eq_nil_iff.mp hall
      exact ⟨_, .nil, .nil⟩
  | @snoc history s s' op answer hrun hlegal hs ih =>
      rcases List.eq_nil_or_concat future with rfl | ⟨init, last, rfl⟩
      · rw [List.append_nil] at hall
        subst hall
        exact ⟨s', hrun.snoc hlegal hs, .nil⟩
      · rw [List.concat_eq_append, ← List.append_assoc] at hall
        obtain ⟨hinit, hlast⟩ := List.append_inj' hall rfl
        obtain ⟨mid, h1, h2⟩ := ih hinit
        obtain rfl : last = ⟨s, op, answer⟩ := List.singleton_inj.mp hlast
        exact ⟨mid, h1, List.concat_eq_append ▸ h2.snoc hlegal hs⟩

theorem Run.of_singleton (h : Run legal step start [e] s) :
    e.before = start ∧ legal e.before e.op ∧ step e.before e.op = .ok (e.answer, s) := by
  generalize hone : [e] = one at h
  cases h with
  | nil => cases hone
  | @snoc history s' _ op answer hrun hlegal hs =>
      obtain ⟨hnil, he⟩ := List.append_inj' (show [] ++ [e] = history ++ _ from hone) rfl
      obtain rfl := List.singleton_inj.mp he
      subst hnil
      generalize hempty : ([] : List (Event σ ι ο)) = empty at hrun
      cases hrun with
      | nil => exact ⟨rfl, hlegal, hs⟩
      | snoc _ _ _ => simp at hempty

-- What a recorded event says: the run up to it, the step itself, and the rest.
theorem Run.at_event (h : Run legal step start (past ++ e :: future) s) :
    ∃ after, Run legal step start past e.before ∧ legal e.before e.op ∧
      step e.before e.op = .ok (e.answer, after) ∧ Run legal step after future s := by
  obtain ⟨mid, hpast, hrest⟩ := h.split
  have hcons : Run legal step mid ([e] ++ future) s := hrest
  obtain ⟨after, hone, hfuture⟩ := hcons.split
  obtain ⟨rfl, hlegal, hs⟩ := hone.of_singleton
  exact ⟨after, hpast, hlegal, hs, hfuture⟩

-- Executes a list of requests, up to the first that stops.
def replay (step : σ → ι → Except ε (ο × σ)) : σ → List ι → Except ε σ
  | s, [] => .ok s
  | s, op :: ops =>
      match step s op with
      | .ok (_, s') => replay step s' ops
      | .error e => .error e

theorem replay_cons_ok {s' : σ} {op : ι} {answer : ο} {ops : List ι}
    (h : step s op = .ok (answer, s')) : replay step s (op :: ops) = replay step s' ops := by
  rw [replay, h]

theorem replay_cons_error {op : ι} {e : ε} {ops : List ι} (h : step s op = .error e) :
    replay step s (op :: ops) = .error e := by
  rw [replay, h]

-- A schedule stops for one of the reasons `stuck` exactly when one of its requests
-- meets a state in which that request does.
theorem replay_stuck_iff {κ : Type} (stuck : κ → ε) {I : σ → Prop} {bad : σ → ι → Prop}
    (hI : ∀ s op answer s', I s → step s op = .ok (answer, s') → I s')
    (hbad : ∀ s op, I s → ((∃ k, step s op = .error (stuck k)) ↔ bad s op)) (hs : I s)
    (ops : List ι) :
    (∃ k, replay step s ops = .error (stuck k)) ↔
      ∃ past op future s', ops = past ++ op :: future ∧ replay step s past = .ok s' ∧ bad s' op := by
  induction ops generalizing s with
  | nil => simp [replay]
  | cons op ops ih =>
      cases hstep : step s op with
      | error e =>
          have hhere : (∃ k, e = stuck k) ↔ bad s op := by simpa [hstep] using hbad s op hs
          simp only [replay_cons_error hstep, Except.error.injEq, hhere]
          constructor
          · exact fun h => ⟨[], op, ops, s, rfl, rfl, h⟩
          · rintro ⟨past, op', future, s', hops, hpast, hlate⟩
            cases past with
            | nil =>
                obtain ⟨rfl, -⟩ := List.cons.inj hops
                cases hpast
                exact hlate
            | cons first past =>
                obtain ⟨rfl, -⟩ := List.cons.inj hops
                rw [replay_cons_error hstep] at hpast
                cases hpast
      | ok r =>
          obtain ⟨answer, s₁⟩ := r
          rw [replay_cons_ok hstep, ih (hI s op answer s₁ hs hstep)]
          constructor
          · rintro ⟨past, op', future, s', rfl, hpast, hlate⟩
            exact ⟨op :: past, op', future, s', rfl, by rw [replay_cons_ok hstep, hpast], hlate⟩
          · rintro ⟨past, op', future, s', hops, hpast, hlate⟩
            cases past with
            | nil =>
                obtain ⟨rfl, -⟩ := List.cons.inj hops
                cases hpast
                obtain ⟨k, hk⟩ := (hbad s op hs).mpr hlate
                rw [hstep] at hk
                cases hk
            | cons first past =>
                obtain ⟨rfl, hrest⟩ := List.cons.inj hops
                rw [replay_cons_ok hstep] at hpast
                exact ⟨past, op', future, s', hrest, hpast, hlate⟩

end Run

end Orin.Theory
