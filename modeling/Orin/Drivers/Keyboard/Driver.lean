import Orin.Console.Log

namespace Orin.Drivers.Keyboard

open Orin.Log Console Theory Theory.Prog

def SUBSYS : String := "orin_kernel::drivers::keyboard"

def presence : KProg Presence := locked .STATE (get fun s => s.keyboard.presence)

def event_count : KProg Nat := locked .STATE (get fun s => s.keyboard.events)

def pending : KProg Nat := get fun s => s.ring.pending

def dropped_count : KProg Nat := get fun s => s.ring.dropped

-- One atomic access a step: an interrupt can land between any two of them.
def ring_pop : KProg (Option UInt8) := do
  let tail ← get fun s => s.ring.tail
  let head ← get fun s => s.ring.head
  if tail = head then return none
  else do
    let b ← get fun s => s.ring.cells.get tail
    modify fun s => { s with ring := { s.ring with tail := Ring.next tail } }
    return some b

def ktrace : Option String → KProg Unit
  | none => return ()
  | some message => Log.log .Trace SUBSYS message

-- The guard on `STATE` is alive to the end, over the trace record too.
def translate (byte : UInt8) : KProg (Option KeyEvent) :=
  locked .STATE do
    let tick ← get Kernel.ticks
    let translated ← get fun s => s.keyboard.translate tick byte
    modify fun s => { s with keyboard := translated.state }
    ktrace translated.trace
    return translated.event

-- `status` and `data` are what the controller's two ports hold.
def interrupt_handler (status data : UInt8) : KProg Unit :=
  if status &&& ST_TIMEOUT ≠ 0 then
    Log.log .Error SUBSYS "keyboard: controller timeout flag set; flushing"
  else if status &&& ST_PARITY ≠ 0 then
    Log.log .Warn SUBSYS "keyboard: parity error on received byte; discarded"
  else if status &&& ST_OUT_BUFFER_FULL = 0 then
    Log.log .Trace SUBSYS "keyboard: IRQ1 with empty output buffer; spurious"
  else if status &&& ST_FROM_DEVICE = 0 then
    Log.log .Debug SUBSYS
      ("keyboard: async controller response " ++ hex_byte data ++ " discarded")
  else modify fun s => { s with ring := s.ring.push data }

def poll : KProg (Option KeyEvent) := do
  let popped ← ring_pop
  match popped with
  | none => return none
  | some byte => translate byte

-- `room` is what is left of the output slice.
def drain : (room : Nat) → (out : List KeyEvent) → KProg (List KeyEvent)
  | 0, out => return out
  | room + 1, out => do
      let polled ← poll
      match polled with
      | some ev => drain room (out ++ [ev])
      | none => return out

-- The level at which the keyboard handler logs, if it does.
def irq1_level (status : UInt8) : Option Level :=
  if status &&& ST_TIMEOUT ≠ 0 then some .Error
  else if status &&& ST_PARITY ≠ 0 then some .Warn
  else if status &&& ST_OUT_BUFFER_FULL = 0 then some .Trace
  else if status &&& ST_FROM_DEVICE = 0 then some .Debug
  else none

def irq1_locks (s : Kernel) (status : UInt8) : Finset Lock :=
  match irq1_level status with
  | some level => Log.log_locks s.config level
  | none => ∅

-- Every lock the input path can ever take.
def INPUT_LOCKS : Finset Lock := insert .STATE Log.LOG_LOCKS

theorem interrupt_handler_does (status data : UInt8) (s : Kernel) :
    ∃ s', Does (interrupt_handler status data) s (irq1_locks s status) () s' ∧ s'.pic = s.pic := by
  have hlogs : ∀ level message, ∃ s', Does (Log.log level SUBSYS message) s
      (Log.log_locks s.config level) () s' ∧ s'.pic = s.pic := fun level message =>
    (Log.log_does level SUBSYS message s).imp fun _ h => ⟨h.1, h.2.pic⟩
  unfold interrupt_handler
  simp only [irq1_locks, irq1_level]
  split_ifs
  · exact hlogs .Error _
  · exact hlogs .Warn _
  · exact hlogs .Trace _
  · exact hlogs .Debug _
  · exact ⟨_, Does.modify _ s, rfl⟩

theorem interrupt_handler_within (status data : UInt8) :
    Within Log.LOG_LOCKS (interrupt_handler status data) := by
  unfold interrupt_handler
  split_ifs
  · exact Log.log_within _ _ _
  · exact Log.log_within _ _ _
  · exact Log.log_within _ _ _
  · exact Log.log_within _ _ _
  · exact Within.modify _

theorem logging_within {α : Type} {c : KProg α} (h : Within Log.LOG_LOCKS c) :
    Within INPUT_LOCKS c :=
  h.mono (Finset.subset_insert _ _)

theorem event_count_within : Within {Lock.STATE} event_count :=
  (Within.get _).locked_free (Finset.mem_singleton_self _)

theorem ring_pop_within {locks : Finset Lock} : Within locks ring_pop := by
  apply (Within.get _).bind
  intro tail
  apply (Within.get _).bind
  intro head
  split
  · exact Within.pure none
  · apply (Within.get _).bind
    intro b
    apply (Within.modify _).bind
    intro _
    exact Within.pure (some b)

theorem ktrace_within (trace : Option String) : Within Log.LOG_LOCKS (ktrace trace) := by
  cases trace with
  | none => exact Within.pure ()
  | some message => exact Log.log_within _ _ _

theorem translate_within (byte : UInt8) : Within INPUT_LOCKS (translate byte) := by
  refine Within.locked (?_ : Within Log.LOG_LOCKS _) (by decide) (by decide)
    (Finset.subset_insert _ _)
  apply (Within.get _).bind
  intro tick
  apply (Within.get _).bind
  intro translated
  apply (Within.modify _).bind
  intro _
  apply (ktrace_within _).bind
  intro _
  exact Within.pure _

theorem poll_within : Within INPUT_LOCKS poll := by
  apply ring_pop_within.bind
  intro popped
  cases popped with
  | none => exact Within.pure none
  | some byte => exact translate_within byte

theorem drain_within (room : Nat) (out : List KeyEvent) : Within INPUT_LOCKS (drain room out) := by
  induction room generalizing out with
  | zero => exact Within.pure out
  | succ room ih =>
      apply poll_within.bind
      intro polled
      cases polled with
      | none => exact Within.pure out
      | some ev => exact ih (out ++ [ev])

end Orin.Drivers.Keyboard
