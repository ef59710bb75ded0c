import Orin.Interrupts.Service

namespace Orin.Interrupts.Service

open Theory Pic

variable {m m' : Machine} {h : Happening} {answer : Option UInt8} {s : Kernel} {history : History}

section Undisturbed

-- The kernel as it stands: no driver opens or closes a line once interrupts are on.
def undisturbed (m : Machine) (h : Happening) : Prop :=
  possible m h ∧ ∀ irq, h ≠ .call (.mask irq) ∧ h ≠ .call (.unmask irq)

structure Untouched (m : Machine) : Prop where
  masks : m.state.pic.masks = BOOT_MASKS
  calm : Calm BOOT_MASKS m.state.pic.pair
  spares : m.code.Spares Kernel.pic

theorem step_untouched (hm : Untouched m) (hlegal : undisturbed m h)
    (hstep : step m h = .ok (answer, m')) : Untouched m' := by
  cases h with
  | raise irq =>
      obtain ⟨-, rfl⟩ := Prod.mk.inj (Except.ok.inj hstep)
      obtain ⟨hmasks, hcalm⟩ := raise_calm hm.calm irq
      exact ⟨hmasks.trans hm.masks, hcalm, hm.spares⟩
  | lower irq =>
      obtain ⟨-, rfl⟩ := Prod.mk.inj (Except.ok.inj hstep)
      obtain ⟨hmasks, hcalm⟩ := lower_calm hm.calm irq
      exact ⟨hmasks.trans hm.masks, hcalm, hm.spares⟩
  | interrupt signal a =>
      obtain ⟨irq, -, hi⟩ := interrupted hm.calm (fun _ => hm.masks.symm) hlegal.1 hstep
      refine ⟨?_, boot_masks_served irq ▸ hi.calm, hi.code ▸ hm.spares.wake⟩
      rw [hi.masks, hm.masks, boot_masks_served]
  | call c =>
      obtain ⟨-, rfl⟩ := Prod.mk.inj (Except.ok.inj hstep)
      cases c with
      | mask irq => exact absurd rfl (hlegal.2 irq).1
      | unmask irq => exact absurd rfl (hlegal.2 irq).2
      | other program => exact ⟨hm.masks, hm.calm, hlegal.1.2.2⟩
  | proceed =>
      obtain ⟨-, hadv⟩ := step_proceed hstep
      obtain ⟨hspares, hpic⟩ := hm.spares.advance hadv
      exact ⟨hpic ▸ hm.masks, hpic ▸ hm.calm, hspares⟩

theorem run_untouched (hrun : Run undisturbed step (boot s) history m) : Untouched m := by
  refine hrun.invariant Untouched ?_ fun _ _ _ _ hm hlegal hstep => step_untouched hm hlegal hstep
  refine ⟨?_, ?_, trivial⟩
  · rw [boot_pic]
  · rw [boot_pic]
    exact ⟨_, _, rfl⟩

-- The vector behind one step of the kernel as it stands.
theorem vector_untouched {vec : UInt8} (hm : Untouched m) (hlegal : undisturbed m h)
    (hstep : step m h = .ok (some vec, m')) :
    vec = vector_for_irq TIMER ∨ vec = vector_for_irq KEYBOARD ∨
      (vec = vector_for_irq 7 ∧ ∃ a, h = .interrupt .stray_master a) := by
  cases h with
  | raise irq => cases hstep
  | lower irq => cases hstep
  | interrupt signal a =>
      obtain ⟨irq, hvec, hi⟩ := interrupted hm.calm (fun _ => hm.masks.symm) hlegal.1 hstep
      obtain rfl := Option.some.inj hvec
      have hbehind := hi.behind
      cases signal with
      | request =>
          have hopened := hbehind.opened
          rw [opens_boot hm.calm] at hopened
          obtain rfl | rfl := of_decide_eq_true hopened
          · exact .inl rfl
          · exact .inr (.inl rfl)
      | stray_master =>
          obtain rfl : irq = 7 := hbehind
          exact .inr (.inr ⟨rfl, a, rfl⟩)
      | stray_slave =>
          -- the cascade is masked, so the processor never looks there
          have hcascade : m.state.pic.pair.master.masked CASCADE.pin = false := hlegal.1
          obtain ⟨irr, irr', hpair⟩ := hm.calm
          have hmasked : m.state.pic.pair.master.masked CASCADE.pin = true := by
            rw [hpair]
            show (0xFC : UInt8).toNat.testBit CASCADE.pin = true
            decide
          rw [hmasked] at hcascade
          exact absurd hcascade (by decide)
  | call c => cases hstep
  | proceed => exact absurd (step_proceed hstep).1 (by simp)

-- Without driver calls after boot the timer and the keyboard stay open for good, and besides
-- their own vectors the processor only ever gets the master's stray one.
theorem only_timer_and_keyboard (hrun : Run undisturbed step (boot s) history m) :
    m.state.pic.pair.opens TIMER = true ∧ m.state.pic.pair.opens KEYBOARD = true ∧
      ∀ e ∈ history, ∀ vec, e.answer = some vec →
        vec = vector_for_irq TIMER ∨ vec = vector_for_irq KEYBOARD ∨
          (vec = vector_for_irq 7 ∧ ∃ a, e.op = .interrupt .stray_master a) := by
  have hm := run_untouched hrun
  refine ⟨?_, ?_, fun e he vec hanswer => ?_⟩
  · rw [opens_boot hm.calm]
    rfl
  · rw [opens_boot hm.calm]
    rfl
  · obtain ⟨past, future, rfl⟩ := List.append_of_mem he
    obtain ⟨after, hpast, hlegal, hstep, -⟩ := hrun.at_event
    rw [hanswer] at hstep
    exact vector_untouched (run_untouched hpast) hlegal hstep

theorem stray_after_boot : ∃ a m, m.state.pic.pair.opens TIMER = true ∧
    Run undisturbed step (boot entered)
      [⟨boot entered, .interrupt .stray_master a, some (vector_for_irq 7)⟩] m := by
  have hcalm : Calm BOOT_MASKS (boot entered).state.pic.pair := by
    rw [boot_pic]
    exact ⟨_, _, rfl⟩
  have hlegal : undisturbed (boot entered) (.interrupt .stray_master ⟨0, false, 0, 0⟩) :=
    ⟨trivial, fun _ => ⟨nofun, nofun⟩⟩
  have hsignal : (boot entered).state.pic.pair.signals .stray_master := trivial
  obtain ⟨irq, ht⟩ := interrupt_taken hcalm hsignal
  obtain rfl : irq = 7 := ht.behind
  obtain ⟨s', hreturns, -⟩ := interrupt_returns ht (a := ⟨0, false, 0, 0⟩)
    (Finset.disjoint_empty_left _)
  have hstep : step (boot entered) (.interrupt .stray_master ⟨0, false, 0, 0⟩) = .ok _ := hreturns
  have hrun := Run.nil.snoc hlegal hstep
  exact ⟨_, _, (only_timer_and_keyboard hrun).1, hrun⟩

end Undisturbed

section Books

variable {irq : Line}

end Books

end Orin.Interrupts.Service
