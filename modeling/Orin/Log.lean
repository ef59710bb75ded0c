import Mathlib.Order.Basic

namespace Orin.Log

inductive Level where
  | Trace
  | Debug
  | Info
  | Warn
  | Error
  | Critical
  | Panic
  deriving DecidableEq, Repr

namespace Level

-- The discriminants, which carry the derived order.
def rank : Level → Nat
  | Trace => 0
  | Debug => 1
  | Info => 2
  | Warn => 3
  | Error => 4
  | Critical => 5
  | Panic => 6

instance : LT Level := ⟨fun a b => a.rank < b.rank⟩

instance (a b : Level) : Decidable (a < b) := inferInstanceAs (Decidable (a.rank < b.rank))

def letter : Level → Char
  | Trace => 'T'
  | Debug => 'D'
  | Info => 'I'
  | Warn => 'W'
  | Error => 'E'
  | Critical => 'C'
  | Panic => 'P'

def parse (s : String) : Option Level :=
  if s = "trace" then some Trace
  else if s = "debug" then some Debug
  else if s = "info" then some Info
  else if s = "warn" then some Warn
  else if s = "error" then some Error
  else if s = "critical" ∨ s = "crit" then some Critical
  else none

end Level

inductive Target where
  | Serial
  | Vga
  | Both
  deriving DecidableEq, Repr

namespace Target

def parse (s : String) : Option Target :=
  if s = "serial" then some Serial
  else if s = "vga" then some Vga
  else if s = "both" then some Both
  else none

-- `matches!(target, Target::Serial | Target::Both)` and its VGA counterpart.
def to_serial : Target → Bool
  | Vga => false
  | _ => true

def to_vga : Target → Bool
  | Serial => false
  | _ => true

end Target

end Orin.Log
