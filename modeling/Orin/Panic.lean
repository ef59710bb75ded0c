import Orin.Drivers.Keyboard.Driver

namespace Orin.Panic

open Rust Console Drivers Multiboot Theory Theory.Prog

-- The registers and the stack as the handler renders them, from the CPU alone.
structure Regs where
  rip : Nat
  rsp : Nat
  rflags : Nat
  cs : Nat
  ss : Nat
  general : String
  control : String
  problems : List String
  text_start : Nat
  backtrace : List String

structure Location where
  file : String
  line : Nat
  column : Nat

structure PanicInfo where
  message : String
  location : Option Location
  regs : Regs

-- `format!("{:#018x}", n)`.
def hex18 (n : Nat) : String :=
  let digits := Nat.toDigits 16 n
  "0x" ++ String.ofList (List.replicate (16 - digits.length) '0' ++ digits)

def tagged (text : String) : String := "ORIN|P|PANIC|" ++ text

def raw_lines (lines : List String) : KProg Unit := modify fun s => { s with raw := s.raw ++ lines }

def raw_println (line : String) : KProg Unit := raw_lines [line]

def action_line : PanicAction → String
  | .Halt => tagged "action=halt; system stopped, will not reboot"
  | .Reboot => tagged "action=reboot; pulsing the keyboard-controller reset line"
  | .Triple => tagged "action=triple; deliberately inducing a triple fault"

def action : KProg Empty := do
  let configured ← get Kernel.panic_action
  raw_println (action_line configured)
  halt

def closing : KProg Empty := do
  raw_println "ORIN-PANIC-END"
  action

def location_lines : Option Location → List String
  | none => []
  | some loc =>
      [tagged ("  at " ++ loc.file ++ ":" ++ toString loc.line ++ ":" ++ toString loc.column)]

def heading (info : PanicInfo) : List String :=
  ["\nORIN-PANIC-BEGIN", tagged info.message] ++ location_lines info.location ++
    [tagged ("  rip " ++ hex18 info.regs.rip ++ "  rsp " ++ hex18 info.regs.rsp ++ "  rflags " ++
        hex18 info.regs.rflags ++ "  cs " ++ hex info.regs.cs ++ "  ss " ++ hex info.regs.ss),
      tagged info.regs.general]

def problem_lines (problems : List String) : List String :=
  (problems.filter (· ≠ "")).map fun problem => tagged ("  SECURITY: " ++ problem)

def rip_lines (regs : Regs) : List String :=
  if Arch.KERNEL_VMA ≤ regs.rip then
    [tagged ("  rip offset from .text: " ++ hex ((regs.rip + WORD - regs.text_start) % WORD)),
      tagged ("  resolve: llvm-addr2line -e build/orin_kernel.elf -f -C -i " ++ hex regs.rip)]
  else
    [tagged ("  rip " ++ hex regs.rip ++ " is BELOW the kernel half — execution left kernel " ++
      "space. Corrupted return address or a jump through a bad function pointer, " ++
      "not an ordinary kernel bug.")]

def origin (regs : Regs) (control : String) : List String :=
  tagged control :: problem_lines regs.problems ++ rip_lines regs ++
    tagged "  --- backtrace (frame pointers) ---" :: regs.backtrace ++
    [tagged "  --- subsystem state ---"]

def pmm_is_initialised : KProg Bool := locked .PMM (get fun s => s.pmm.inner.initialised)

def pmm_stats : KProg Memory.Pmm.PmmInner := locked .PMM (get fun s => s.pmm.inner)

def pmm_line (p : Memory.Pmm.PmmInner) : String :=
  tagged ("  pmm: " ++ toString p.free_frames ++ " free / " ++ toString p.total_frames ++
    " total frames, " ++ toString p.reserved_frames ++ " reserved, " ++ toString p.bad_frames ++
    " bad, " ++ toString (p.unmapped_bytes / (1024 * 1024)) ++ " MiB unmapped")

def heap_line (h : HeapStats) : String :=
  tagged ("  heap: " ++ toString h.size ++ " bytes at " ++ hex h.base ++ ", initialised=" ++
    toString h.initialised)

def interrupts_line (c : Counters) : String :=
  tagged ("  interrupts: ticks=" ++ toString c.timer_ticks ++ " keys=" ++ toString c.key_events ++
    " spurious=" ++ toString c.spurious ++ " exceptions=" ++ toString c.exceptions ++
    " unassigned=" ++ toString c.unassigned ++ " syscalls=" ++ toString c.syscalls)

def keyboard_line : KProg String := do
  let presence ← Keyboard.presence
  let events ← Keyboard.event_count
  let pending ← Keyboard.pending
  let dropped ← Keyboard.dropped_count
  return tagged ("  keyboard: presence=" ++ presence.debug ++ " events=" ++ toString events ++
    " pending=" ++ toString pending ++ " dropped=" ++ toString dropped)

def subsystem_state (n : Nat) : KProg Unit := do
  let initialised ← pmm_is_initialised
  raw_println (tagged ("  pmm initialised: " ++ toString initialised))
  let ps ← pmm_stats
  raw_println (pmm_line ps)
  let hs ← get Kernel.heap
  raw_println (heap_line hs)
  let c ← get Kernel.counters
  raw_println (interrupts_line c)
  let keyboard ← keyboard_line
  raw_println keyboard
  let log ← Log.stats
  raw_println (tagged ("  log: " ++ toString log.1 ++ " records emitted, " ++ toString log.2 ++
    " filtered"))
  raw_println (tagged ("  panic #" ++ toString n))

def oom (layout : Layout) : KProg Unit := do
  let s ← get Kernel.heap
  Log.log .Critical "orin_kernel::memory::heap" ("kernel heap exhausted: requested " ++
    toString layout.size ++ " bytes (align " ++ toString layout.align ++ ") with " ++
    toString s.size ++ " byte heap at " ++ hex s.base)

-- Every allocation takes and drops the heap's lock; one stands for those of the string.
-- A refused request ends in `again`, the handler entered a second time.
def format_control (again : KProg Empty) (regs : Regs) : KProg String := do
  let refused ← locked .ALLOCATOR (get Kernel.refused)
  match refused with
  | none => return regs.control
  | some layout => do
      oom layout
      let never ← again
      never.elim

def report (again : KProg Empty) (info : PanicInfo) (n : Nat) : KProg Empty := do
  raw_lines (heading info)
  let control ← format_control again info.regs
  raw_lines (origin info.regs control)
  subsystem_state n
  closing

def recursive : KProg Empty := do
  raw_println "ORIN|P|RECURSIVE|panic handler panicked; halting"
  closing

-- The handler, which runs with interrupts off. `depth` bounds how often it may enter
-- itself; the `PANICKING` flag stops that at the second entry.
def panic : (depth : Nat) → PanicInfo → KProg Empty
  | 0, _ => halt
  | depth + 1, info => do
      modify fun s => { s with panic_count := s.panic_count + 1 }
      let n ← get Kernel.panic_count
      let panicking ← get Kernel.panicking
      modify fun s => { s with panicking := true }
      if panicking then recursive
      else report (panic depth { info with message := "kernel out of memory" }) info n

-- A call into the frame allocator: its panics are raised while the guard is alive.
def pmm_call {α : Type} (describe : Rust.Panic → PanicInfo)
    (op : Memory.Pmm.State → Except Rust.Panic (α × Memory.Pmm.State)) : KProg α :=
  locked .PMM do
    let answer ← get fun s => op s.pmm
    match answer with
    | .ok (a, pmm) => do
        modify fun s => { s with pmm }
        return a
    | .error stop => do
        let never ← panic 2 (describe stop)
        never.elim

end Orin.Panic
