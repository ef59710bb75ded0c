import Orin.Interrupts.Pit

namespace Orin.Console.Log

open Orin.Log Interrupts Theory Theory.Prog

-- Panics pass every filter.
def drops (c : LogConfig) (level : Level) : Bool := level < c.level && level != .Panic

def count (level : Level) (c : LogConfig) : LogConfig :=
  if drops c level then { c with filtered := c.filtered + 1 }
  else { c with emitted := c.emitted + 1 }

-- The counters move under the lock, and the guard is gone before anything is written.
def accept (level : Level) : KProg (Option Target) :=
  locked .CONFIG do
    let c ← get Kernel.config
    modify fun s => { s with config := count level s.config }
    return if drops c level then none else some c.target

def write_serial (record : Output) : KProg Unit :=
  locked .COM1_PORT (modify fun s => { s with serial := s.serial ++ [record] })

def write_vga (record : Output) : KProg Unit :=
  locked .WRITER (modify fun s => { s with vga := s.vga ++ [record] })

def write (level : Level) (subsys message : String) (target : Target) : KProg Unit := do
  let ts ← Pit.micros_since_boot
  onlyIf target.to_serial (write_serial (.record level ts subsys message))
  onlyIf target.to_vga (write_vga (.record level ts subsys message))

def log (level : Level) (subsys message : String) : KProg Unit := do
  let accepted ← accept level
  match accepted with
  | none => return ()
  | some target => write level subsys message target

def stats : KProg (Nat × Nat) :=
  locked .CONFIG (get fun s => (s.config.emitted, s.config.filtered))

-- The locks a record that passes the filter asks for after `CONFIG`.
def write_locks (target : Target) : Finset Lock :=
  {.ENABLED} ∪ ((if target.to_serial then {.COM1_PORT} else ∅) ∪
    (if target.to_vga then {.WRITER} else ∅))

def log_locks (c : LogConfig) (level : Level) : Finset Lock :=
  {.CONFIG} ∪ (if drops c level then ∅ else write_locks c.target)

-- Logging is no part of a panic or of the input path, and leaves the interrupt controllers
-- alone: it touches its own counters and the two consoles.
structure OnlyLogged (s s' : Kernel) : Prop where
  raw : s'.raw = s.raw
  panicking : s'.panicking = s.panicking
  panic_action : s'.panic_action = s.panic_action
  keyboard : s'.keyboard = s.keyboard
  ring : s'.ring = s.ring
  ticks : s'.ticks = s.ticks
  pic : s'.pic = s.pic

theorem write_serial_does (record : Output) (s : Kernel) :
    Does (write_serial record) s {.COM1_PORT} () { s with serial := s.serial ++ [record] } :=
  Does.locked_modify _ _ s

theorem write_vga_does (record : Output) (s : Kernel) :
    Does (write_vga record) s {.WRITER} () { s with vga := s.vga ++ [record] } :=
  Does.locked_modify _ _ s

theorem write_does (level : Level) (subsys message : String) (target : Target) (s : Kernel) :
    ∃ s', Does (write level subsys message target) s (write_locks target) () s' ∧
      OnlyLogged s s' := by
  refine ⟨_, (Pit.micros_since_boot_does s).bind ((Does.onlyIf (write_serial_does _ _)).bind
    (Does.onlyIf (write_vga_does _ _)) rfl) rfl, ?_⟩
  cases target <;> exact ⟨rfl, rfl, rfl, rfl, rfl, rfl, rfl⟩

theorem accept_does (level : Level) (s : Kernel) :
    Does (accept level) s {.CONFIG} (if drops s.config level then none else some s.config.target)
      { s with config := count level s.config } := by
  refine Does.locked (?_ : Does _ s ∅ _ _) rfl
  apply (Does.get Kernel.config s).free_bind
  exact (Does.modify _ s).free_bind (Does.pure _ _)

theorem log_does (level : Level) (subsys message : String) (s : Kernel) :
    ∃ s', Does (log level subsys message) s (log_locks s.config level) () s' ∧
      OnlyLogged s s' := by
  have haccept := accept_does level s
  cases hdrop : drops s.config level with
  | true =>
      refine ⟨{ s with config := count level s.config }, haccept.bind ?_ rfl,
        ⟨rfl, rfl, rfl, rfl, rfl, rfl, rfl⟩⟩
      simp only [hdrop, ite_true]
      exact Does.pure () _
  | false =>
      obtain ⟨s', hwrite, hlogged⟩ := write_does level subsys message s.config.target
        { s with config := count level s.config }
      -- counting the record first changes none of the fields the writes keep
      refine ⟨s', haccept.bind ?_ rfl, { hlogged with }⟩
      simp only [hdrop, Bool.false_eq_true, ite_false]
      exact hwrite

-- Every lock the log path can ever take.
def LOG_LOCKS : Finset Lock := {.CONFIG, .ENABLED, .COM1_PORT, .WRITER}

theorem accept_within (level : Level) : Within {Lock.CONFIG} (accept level) := by
  apply Within.locked_free _ (Finset.mem_singleton_self _)
  apply (Within.get Kernel.config).bind
  intro c
  apply (Within.modify _).bind
  intro _
  exact Within.pure _

theorem write_serial_within (record : Output) : Within LOG_LOCKS (write_serial record) :=
  (Within.modify _).locked_free (by decide)

theorem write_vga_within (record : Output) : Within LOG_LOCKS (write_vga record) :=
  (Within.modify _).locked_free (by decide)

theorem write_within (level : Level) (subsys message : String) (target : Target) :
    Within LOG_LOCKS (write level subsys message target) := by
  apply (Pit.micros_since_boot_within.mono (by decide)).bind
  intro ts
  apply ((write_serial_within _).onlyIf _).bind
  intro _
  exact (write_vga_within _).onlyIf _

theorem log_within (level : Level) (subsys message : String) :
    Within LOG_LOCKS (log level subsys message) := by
  apply ((accept_within level).mono (by decide)).bind
  intro accepted
  cases accepted with
  | none => exact Within.pure ()
  | some target => exact write_within level subsys message target

end Orin.Console.Log
