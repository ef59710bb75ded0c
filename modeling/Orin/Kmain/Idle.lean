import Orin.Interrupts.Irq
import Orin.Theory.Preempt

namespace Orin.Kmain

open Console Drivers Interrupts Theory Theory.Prog

def SUBSYS : String := "orin_kernel::kmain"

def serial_print (s : String) : KProg Unit := Log.write_serial (.text s)

def vga_print (s : String) : KProg Unit := Log.write_vga (.text s)

def vga_print_prompt : KProg Unit := vga_print "orin m1> "

def kinfo (message : String) : KProg Unit := Log.log .Info SUBSYS message

def report_counters : KProg Unit := do
  let c ← get Kernel.counters
  kinfo ("counters: ticks=" ++ toString c.timer_ticks ++ " keys=" ++ toString c.key_events ++
    " spurious=" ++ toString c.spurious ++ " exceptions=" ++ toString c.exceptions ++
    " unassigned=" ++ toString c.unassigned ++ " syscalls=" ++ toString c.syscalls)
  let events ← Keyboard.event_count
  let pending ← Keyboard.pending
  let dropped ← Keyboard.dropped_count
  kinfo ("keyboard: " ++ toString events ++ " events, " ++ toString pending ++ " pending, " ++
    toString dropped ++ " dropped (ring capacity " ++ toString Keyboard.RING_CAP ++ ")")

def echo (ch : Char) : KProg Unit :=
  if ch = '\n' then do
    serial_print "\r\n"
    vga_print_prompt
  else if ch = '\x08' then do
    serial_print "\x08 \x08"
    vga_print "\x08"
  else if ch = '\x1b' then
    kinfo "key: Escape — no M1 binding (orinsh arrives in M10)"
  else do
    serial_print ("ORIN|K|ECHO|" ++ ch.toString ++ "\r\n")
    vga_print ch.toString

def report_dropped : KProg Unit := do
  let dropped ← Keyboard.dropped_count
  onlyIf (0 < dropped) do
    let dropped ← Keyboard.dropped_count
    Log.log .Warn SUBSYS ("keyboard: " ++ toString dropped ++
      " scancode(s) dropped — the echo loop is not keeping up with input")

def handle_key (ev : Keyboard.KeyEvent) : KProg Unit :=
  if !ev.pressed then return ()
  else if ev.ctrl && ev.code = .C then report_counters
  else match ev.ch with
    | none => Log.log .Debug SUBSYS ("key: " ++ ev.code.debug ++ " (no character)")
    | some ch => do
        echo ch
        report_dropped

def handle_keys : List Keyboard.KeyEvent → KProg Unit
  | [] => return ()
  | ev :: events => do
      handle_key ev
      handle_keys events

-- The arguments of the record are evaluated before its level is looked at.
def report_liveness : KProg Unit := do
  let seconds ← Pit.seconds_since_boot
  let events ← Keyboard.event_count
  let pending ← Keyboard.pending
  let dropped ← Keyboard.dropped_count
  Log.log .Trace SUBSYS ("idle: uptime " ++ toString seconds ++ "s, " ++ toString events ++
    " key events, " ++ toString pending ++ " scancodes pending, " ++ toString dropped ++ " dropped")

-- One turn of the idle loop.
def idle_turn : KProg Unit := do
  let events ← Keyboard.drain 16 []
  handle_keys events
  onlyIf events.isEmpty await
  let t ← Pit.ticks_since_boot
  onlyIf (0 < t && t % 5000 = 0) report_liveness

-- Up to here interrupts are off.
def idle_enter : KProg Unit := do
  kinfo "idle: entering the M1 input echo loop"
  serial_print "ORIN|K|ECHO|ARMED\r\n"
  vga_print_prompt

-- The core at the moment `idle` enables interrupts, entered from `s`.
def idle (s : Kernel) : Core Lock Kernel := ⟨idle_turn.code, ∅, idle_enter.code.final s⟩

def idle_step : Core Lock Kernel → Turn Irq → Except (Stuck Lock) (Unit × Core Lock Kernel) :=
  Core.step idle_turn.code fun irq => (on_irq irq).code

end Orin.Kmain
