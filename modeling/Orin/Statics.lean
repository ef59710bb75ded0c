import Orin.Drivers.Keyboard
import Orin.Interrupts.Chips
import Orin.Memory.Pmm
import Orin.Multiboot.Params
import Orin.Theory.SpinLock

namespace Orin

-- Every spin lock of the kernel. `ALLOCATOR` is the lock inside the global heap.
inductive Lock where
  | PMM
  | PT_POOL
  | NX_AVAILABLE
  | KERNEL_PML4
  | ALLOCATOR
  | STATE
  | CONFIG
  | COM1_PORT
  | WRITER
  | ENABLED
  | MASKS
  | REMAPPED
  deriving DecidableEq, Repr

structure LogConfig where
  level : Log.Level
  target : Log.Target
  emitted : Nat
  filtered : Nat

structure HeapStats where
  base : Nat
  size : Nat
  initialised : Bool

structure Layout where
  size : Nat
  align : Nat

structure Counters where
  timer_ticks : Nat
  key_events : Nat
  spurious : Nat
  exceptions : Nat
  unassigned : Nat
  syscalls : Nat

-- What reaches a console: a log record or plain text.
inductive Output where
  | record (level : Log.Level) (ts : Nat) (subsys message : String)
  | text (s : String)

-- The statics that the interrupt, logging, input and panic paths share, and the interrupt
-- controllers behind one of them.
structure Kernel where
  pmm : Memory.Pmm.State
  heap : HeapStats
  -- The first request the heap would refuse while one string is formatted.
  refused : Option Layout
  config : LogConfig
  enabled : Bool
  ticks : Nat
  counters : Counters
  keyboard : Drivers.Keyboard.State
  ring : Drivers.Keyboard.Ring
  pic : Interrupts.Pic.State
  serial : List Output
  vga : List Output
  -- The lock-free console of the fatal paths, line by line.
  raw : List String
  panicking : Bool
  panic_count : Nat
  panic_action : Multiboot.PanicAction

def Kernel.withPic (s : Kernel) (pic : Interrupts.Pic.State) : Kernel := { s with pic }

-- Default settings, a running clock and a heap that serves.
def Kernel.booted : Kernel where
  pmm := ⟨Memory.Pmm.PmmInner.new, 0, fun _ => 0⟩
  heap := ⟨0, 0, true⟩
  refused := none
  config := ⟨.Info, .Both, 0, 0⟩
  enabled := true
  ticks := 0
  counters := ⟨0, 0, 0, 0, 0, 0⟩
  keyboard := Drivers.Keyboard.State.new
  ring := Drivers.Keyboard.Ring.new
  pic := Interrupts.Pic.State.booted
  serial := []
  vga := []
  raw := []
  panicking := false
  panic_count := 0
  panic_action := .Halt

abbrev KProg (α : Type) : Type := Theory.Prog Lock Kernel α

end Orin
