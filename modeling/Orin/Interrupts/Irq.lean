import Orin.Drivers.Keyboard.Driver
import Orin.Interrupts.Pic

namespace Orin.Interrupts

open Orin.Log Console Drivers Theory Theory.Prog

def bump (f : Counters → Counters) : KProg Unit := modify fun s => { s with counters := f s.counters }

def IDT : String := "orin_kernel::interrupts::idt"

def heartbeat : KProg Unit := do
  let seconds ← Pit.seconds_since_boot
  let ticks ← Pit.ticks_since_boot
  Log.log .Debug IDT ("tick: uptime " ++ toString seconds ++ "s (" ++ toString ticks ++ " ticks)")

def on_irq_timer : KProg Unit := do
  bump fun c => { c with timer_ticks := c.timer_ticks + 1 }
  Pit.tick
  let ticks ← Pit.ticks_since_boot
  onlyIf (ticks % 1000 = 0) heartbeat
  Pic.end_of_interrupt (Pic.vector_for_irq Pic.TIMER)

def on_irq_keyboard (status data : UInt8) : KProg Unit := do
  bump fun c => { c with key_events := c.key_events + 1 }
  Keyboard.interrupt_handler status data
  Pic.end_of_interrupt (Pic.vector_for_irq Pic.KEYBOARD)

inductive Irq where
  | timer
  | keyboard (status data : UInt8)
  deriving DecidableEq, Repr

def on_irq : Irq → KProg Unit
  | .timer => on_irq_timer
  | .keyboard status data => on_irq_keyboard status data

-- The locks an interrupt needs when it arrives in `s`.
def irq_locks (s : Kernel) : Irq → Finset Lock
  | .timer =>
      {.ENABLED} ∪ (if (Pit.ticked s).ticks % 1000 = 0 then Log.log_locks s.config .Debug else ∅)
  | .keyboard status _ => Keyboard.irq1_locks s status

theorem heartbeat_does (s : Kernel) :
    ∃ s', Does heartbeat s ({.ENABLED} ∪ Log.log_locks s.config .Debug) () s' ∧ s'.pic = s.pic := by
  obtain ⟨s', hlog, hlogged⟩ := Log.log_does .Debug IDT
    ("tick: uptime " ++ toString (Pit.micros_of s.enabled s.ticks / 1000000) ++ "s (" ++
      toString s.ticks ++ " ticks)") s
  refine ⟨s', (Pit.seconds_since_boot_does s).bind ?_ rfl, hlogged.pic⟩
  exact (Does.get Kernel.ticks s).free_bind hlog

theorem on_irq_timer_does (s : Kernel) :
    ∃ s', Does on_irq_timer s (irq_locks s .timer) () s' ∧ s'.pic = s.pic.ended Pic.TIMER := by
  set s₁ := Pit.ticked
    { s with counters := { s.counters with timer_ticks := s.counters.timer_ticks + 1 } } with hs₁
  obtain ⟨s₂, hbeat, hpic⟩ := heartbeat_does s₁
  have hrest : Does (do
      onlyIf (s₁.ticks % 1000 = 0) heartbeat
      Pic.end_of_interrupt (Pic.vector_for_irq Pic.TIMER)) s₁ _ () _ :=
    (Does.onlyIf hbeat).bind (Pic.end_of_interrupt_does _ Pic.TIMER) (Finset.union_empty _)
  refine ⟨_, (Does.modify _ s).free_bind ((Pit.tick_does _).bind
    ((Does.get Kernel.ticks _).free_bind hrest) ?_), ?_⟩
  · simp only [irq_locks, hs₁, Pit.ticked_ticks, Pit.ticked_config, decide_eq_true_eq]
    generalize (if s.enabled then s.ticks + 1 else s.ticks) = ticks
    by_cases hround : ticks % 1000 = 0
    · simp [hround]
    · simp [hround]
  · have hkept : ∀ b : Bool, (if b then s₂ else s₁).pic = s.pic := by
      have hticked : s₁.pic = s.pic := Pit.ticked_pic _
      intro b
      cases b with
      | true => exact hpic.trans hticked
      | false => exact hticked
    exact congrArg (Pic.State.ended · Pic.TIMER) (hkept _)

theorem on_irq_keyboard_does (status data : UInt8) (s : Kernel) :
    ∃ s', Does (on_irq_keyboard status data) s (irq_locks s (.keyboard status data)) () s' ∧
      s'.pic = s.pic.ended Pic.KEYBOARD := by
  obtain ⟨s', h, hpic⟩ := Keyboard.interrupt_handler_does status data
    { s with counters := { s.counters with key_events := s.counters.key_events + 1 } }
  refine ⟨_, (Does.modify _ s).free_bind
    (h.bind (Pic.end_of_interrupt_does s' Pic.KEYBOARD) (Finset.union_empty _)), ?_⟩
  exact congrArg (Pic.State.ended · Pic.KEYBOARD) hpic

theorem on_irq_does (irq : Irq) (s : Kernel) :
    ∃ s', Does (on_irq irq) s (irq_locks s irq) () s' := by
  cases irq with
  | timer => exact (on_irq_timer_does s).imp fun _ h => h.1
  | keyboard status data => exact (on_irq_keyboard_does status data s).imp fun _ h => h.1

theorem on_irq_requests (irq : Irq) (s : Kernel) :
    (on_irq irq).code.requests s = irq_locks s irq := by
  obtain ⟨s', h⟩ := on_irq_does irq s
  exact h.requests_code

theorem heartbeat_within : Within Log.LOG_LOCKS heartbeat := by
  apply (Pit.seconds_since_boot_within.mono (by decide)).bind
  intro seconds
  apply (Within.get Kernel.ticks).bind
  intro ticks
  exact Log.log_within _ _ _

theorem on_irq_within (irq : Irq) : Within Log.LOG_LOCKS (on_irq irq) := by
  cases irq with
  | timer =>
      apply (Within.modify _).bind
      intro _
      apply (Pit.tick_within.mono (by decide)).bind
      intro _
      apply (Within.get Kernel.ticks).bind
      intro ticks
      exact (heartbeat_within.onlyIf _).bind fun _ => Pic.end_of_interrupt_within _
  | keyboard status data =>
      apply (Within.modify _).bind
      intro _
      exact (Keyboard.interrupt_handler_within status data).bind fun _ =>
        Pic.end_of_interrupt_within _

section OtherLines

def on_irq_cascade : KProg Unit := do
  Log.log .Trace IDT "pic: cascade IRQ2 delivered (should not normally happen)"
  Pic.end_of_interrupt (Pic.vector_for_irq Pic.CASCADE)

-- The lines without a driver.
def OTHERS : List Pic.Line := [3, 4, 5, 6, 7, 8, 9, 10, 11, 12, 13, 14, 15]

def mask_all : List Pic.Line → KProg Unit
  | [] => return ()
  | irq :: rest => do
      Pic.mask irq
      mask_all rest

def unexpected (rip : Nat) : String :=
  "unexpected device interrupt at rip " ++ Rust.hex rip ++ ". A driver unmasked an IRQ line " ++
    "without installing a handler for it. The line is masked again below so " ++
    "this cannot become an interrupt storm."

-- The handler cannot tell which line it was: it masks them all, and ends the interrupt on both
-- controllers.
def on_irq_unexpected (rip : Nat) : KProg Unit := do
  bump fun c => { c with unassigned := c.unassigned + 1 }
  Log.log .Error IDT (unexpected rip)
  mask_all OTHERS
  Pic.end_of_interrupt (Pic.vector_for_irq 8)

def cascade_locks (s : Kernel) : Finset Lock := Log.log_locks s.config .Trace

def unexpected_locks (s : Kernel) : Finset Lock := Log.log_locks s.config .Error ∪ {.MASKS}

theorem on_irq_cascade_does (s : Kernel) :
    ∃ s', Does on_irq_cascade s (cascade_locks s) () s' ∧ s'.pic = s.pic.ended Pic.CASCADE := by
  obtain ⟨s', hlog, hlogged⟩ := Log.log_does .Trace IDT
    "pic: cascade IRQ2 delivered (should not normally happen)" s
  refine ⟨_, hlog.bind (Pic.end_of_interrupt_does s' Pic.CASCADE) (Finset.union_empty _), ?_⟩
  exact congrArg (Pic.State.ended · Pic.CASCADE) hlogged.pic

theorem mask_all_does (lines : List Pic.Line) (hlines : lines ≠ []) (s : Kernel) :
    Does (mask_all lines) s {.MASKS} () (s.withPic (lines.foldl Pic.State.masked s.pic)) := by
  induction lines generalizing s with
  | nil => exact absurd rfl hlines
  | cons irq rest ih =>
      cases rest with
      | nil => exact (Pic.mask_does s irq).bind (Does.pure () _) (Finset.union_empty _)
      | cons next rest =>
          exact (Pic.mask_does s irq).bind (ih (by simp) _) (Finset.union_self _)

theorem on_irq_unexpected_does (rip : Nat) (s : Kernel) :
    ∃ s', Does (on_irq_unexpected rip) s (unexpected_locks s) () s' ∧
      s'.pic = (OTHERS.foldl Pic.State.masked s.pic).ended 8 := by
  obtain ⟨s', hlog, hlogged⟩ := Log.log_does .Error IDT (unexpected rip)
    { s with counters := { s.counters with unassigned := s.counters.unassigned + 1 } }
  have hmasks := mask_all_does OTHERS (by decide) s'
  have hend := Pic.end_of_interrupt_does (s'.withPic (OTHERS.foldl Pic.State.masked s'.pic)) 8
  refine ⟨_, (Does.modify _ s).free_bind (hlog.bind (hmasks.bind hend (Finset.union_empty _)) rfl),
    ?_⟩
  exact congrArg (fun st => (OTHERS.foldl Pic.State.masked st).ended 8) hlogged.pic

theorem on_irq_cascade_within : Within Log.LOG_LOCKS on_irq_cascade :=
  (Log.log_within _ _ _).bind fun _ => Pic.end_of_interrupt_within _

theorem mask_all_within (lines : List Pic.Line) : Within {Lock.MASKS} (mask_all lines) := by
  induction lines with
  | nil => exact Within.pure ()
  | cons irq rest ih => exact (Pic.mask_within irq).bind fun _ => ih

theorem on_irq_unexpected_within (rip : Nat) : Within Pic.PIC_LOCKS (on_irq_unexpected rip) := by
  apply (Within.modify _).bind
  intro _
  apply ((Log.log_within _ _ _).mono (Finset.subset_insert _ _)).bind
  intro _
  apply ((mask_all_within OTHERS).mono (by decide)).bind
  intro _
  exact Pic.end_of_interrupt_within _

end OtherLines

end Orin.Interrupts
