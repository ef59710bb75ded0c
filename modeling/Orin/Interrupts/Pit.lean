import Orin.Statics

namespace Orin.Interrupts.Pit

open Rust Theory Theory.Prog

def PIT_INPUT_HZ : Nat := 1193182
def TICK_HZ : Nat := 1000
def DIVISOR : Nat := PIT_INPUT_HZ / TICK_HZ
def ACTUAL_TICK_HZ_NUM : Nat := PIT_INPUT_HZ
def ACTUAL_TICK_HZ_DEN : Nat := DIVISOR

-- The guard on `ENABLED` is a temporary of the condition: it is gone before the
-- branch runs.
def is_enabled : KProg Bool := locked .ENABLED (get Kernel.enabled)

def tick : KProg Unit := do
  let enabled ← is_enabled
  onlyIf enabled (modify fun s => { s with ticks := s.ticks + 1 })

def ticks_since_boot : KProg Nat := get Kernel.ticks

def micros_of (enabled : Bool) (ticks : Nat) : Nat :=
  if enabled then ticks * 1000000 * ACTUAL_TICK_HZ_DEN / ACTUAL_TICK_HZ_NUM % WORD else 0

def micros_since_boot : KProg Nat := do
  let enabled ← is_enabled
  if enabled then
    let ticks ← ticks_since_boot
    return micros_of true ticks
  else return 0

def seconds_since_boot : KProg Nat := do
  let micros ← micros_since_boot
  return micros / 1000000

-- The clock after one tick.
def ticked (s : Kernel) : Kernel := if s.enabled then { s with ticks := s.ticks + 1 } else s

@[simp] theorem ticked_ticks (s : Kernel) :
    (ticked s).ticks = if s.enabled then s.ticks + 1 else s.ticks := by
  unfold ticked
  split <;> rfl

@[simp] theorem ticked_config (s : Kernel) : (ticked s).config = s.config := by
  unfold ticked
  split <;> rfl

@[simp] theorem ticked_pic (s : Kernel) : (ticked s).pic = s.pic := by
  unfold ticked
  split <;> rfl

theorem is_enabled_does (s : Kernel) : Does is_enabled s {.ENABLED} s.enabled s :=
  (Does.get Kernel.enabled s).locked rfl

theorem tick_does (s : Kernel) : Does tick s {.ENABLED} () (ticked s) :=
  (is_enabled_does s).bind (Does.onlyIf (Does.modify _ s)) (by simp)

theorem micros_since_boot_does (s : Kernel) :
    Does micros_since_boot s {.ENABLED} (micros_of s.enabled s.ticks) s := by
  apply (is_enabled_does s).bind _ (Finset.union_empty _)
  cases s.enabled with
  | true => exact (Does.get Kernel.ticks s).free_bind (Does.pure _ s)
  | false => exact Does.pure _ s

theorem seconds_since_boot_does (s : Kernel) :
    Does seconds_since_boot s {.ENABLED} (micros_of s.enabled s.ticks / 1000000) s :=
  (micros_since_boot_does s).bind (Does.pure _ s) (Finset.union_empty _)

theorem is_enabled_within : Within {Lock.ENABLED} is_enabled :=
  (Within.get Kernel.enabled).locked_free (Finset.mem_singleton_self _)

theorem tick_within : Within {Lock.ENABLED} tick :=
  is_enabled_within.bind fun enabled => (Within.modify _).onlyIf enabled

theorem micros_since_boot_within : Within {Lock.ENABLED} micros_since_boot := by
  apply is_enabled_within.bind
  intro enabled
  cases enabled with
  | true => exact (Within.get Kernel.ticks).bind fun _ => Within.pure _
  | false => exact Within.pure 0

theorem seconds_since_boot_within : Within {Lock.ENABLED} seconds_since_boot :=
  micros_since_boot_within.bind fun _ => Within.pure _

end Orin.Interrupts.Pit
