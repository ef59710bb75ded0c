import Orin.Interrupts.Irq

namespace Orin.Interrupts

open Rust Console Drivers Theory Theory.Prog

namespace Gdt.ist

def DOUBLE_FAULT : Nat := 1
def NMI : Nat := 2
def MACHINE_CHECK : Nat := 3
def PAGE_FAULT : Nat := 5

end Gdt.ist

-- The functions behind the vectors.
inductive Handler where
  | on_divide_error
  | on_debug
  | on_nmi
  | on_breakpoint
  | on_overflow
  | on_bound_range
  | on_invalid_opcode
  | on_device_not_available
  | on_double_fault
  | on_invalid_tss
  | on_segment_not_present
  | on_stack_segment
  | on_general_protection
  | on_page_fault
  | on_x87_fault
  | on_alignment_check
  | on_machine_check
  | on_simd_fault
  | on_virtualization
  | on_vmm_comm
  | on_security_exception
  | on_irq_timer
  | on_irq_keyboard
  | on_irq_cascade
  | on_irq_unexpected
  | on_syscall_vector
  | on_spurious
  | on_unassigned_general
  deriving DecidableEq, Repr

-- An entry of the table, by the calls made on it: the handler, and the stack index asked for.
-- What the crate makes of the index is its own affair.
structure Gate where
  handler : Handler
  stack_index : Option Nat
  deriving DecidableEq, Repr

def set_handler_fn (handler : Handler) : Gate := ⟨handler, none⟩

def Gate.set_stack_index (gate : Gate) (index : Nat) : Gate :=
  { gate with stack_index := some index }

def SYSCALL_VECTOR : UInt8 := 0x40
def SPURIOUS_VECTOR : UInt8 := 0xFF

-- The assignments in the order they are made: a later one wins.
def assignments : List (UInt8 × Gate) :=
  [(0x00, set_handler_fn .on_divide_error),
    (0x01, set_handler_fn .on_debug),
    (0x02, (set_handler_fn .on_nmi).set_stack_index Gdt.ist.NMI),
    (0x03, set_handler_fn .on_breakpoint),
    (0x04, set_handler_fn .on_overflow),
    (0x05, set_handler_fn .on_bound_range),
    (0x06, set_handler_fn .on_invalid_opcode),
    (0x07, set_handler_fn .on_device_not_available),
    (0x08, (set_handler_fn .on_double_fault).set_stack_index Gdt.ist.DOUBLE_FAULT),
    (0x0A, set_handler_fn .on_invalid_tss),
    (0x0B, set_handler_fn .on_segment_not_present),
    (0x0C, set_handler_fn .on_stack_segment),
    (0x0D, set_handler_fn .on_general_protection),
    (0x0E, (set_handler_fn .on_page_fault).set_stack_index Gdt.ist.PAGE_FAULT),
    (0x10, set_handler_fn .on_x87_fault),
    (0x11, set_handler_fn .on_alignment_check),
    (0x12, (set_handler_fn .on_machine_check).set_stack_index Gdt.ist.MACHINE_CHECK),
    (0x13, set_handler_fn .on_simd_fault),
    (0x14, set_handler_fn .on_virtualization),
    (0x1D, set_handler_fn .on_vmm_comm),
    (0x1E, set_handler_fn .on_security_exception),
    (Pic.vector_for_irq Pic.TIMER, set_handler_fn .on_irq_timer),
    (Pic.vector_for_irq Pic.KEYBOARD, set_handler_fn .on_irq_keyboard),
    (Pic.vector_for_irq Pic.CASCADE, set_handler_fn .on_irq_cascade)] ++
  OTHERS.map (fun irq => (Pic.vector_for_irq irq, set_handler_fn .on_irq_unexpected)) ++
  [(SYSCALL_VECTOR, set_handler_fn .on_syscall_vector),
    (SPURIOUS_VECTOR, set_handler_fn .on_spurious)]

def purposeful (vec : UInt8) : Option Gate :=
  (assignments.reverse.find? fun entry => entry.1 = vec).map Prod.snd

def install_purposeful_handlers (table : UInt8 → Option Gate) : UInt8 → Option Gate :=
  fun vec => (purposeful vec).orElse fun _ => table vec

theorem purposeful_mem {vec : UInt8} {gate : Gate} (h : purposeful vec = some gate) :
    (vec, gate) ∈ assignments := by
  obtain ⟨entry, hfind, rfl⟩ := Option.map_eq_some_iff.mp h
  have hvec := List.find?_some hfind
  rw [decide_eq_true_eq] at hvec
  rw [← hvec]
  exact List.mem_reverse.mp (List.mem_of_find?_eq_some hfind)

-- The function behind a vector once the catch-all is under all others.
def idt (vec : UInt8) : Handler := ((purposeful vec).map Gate.handler).getD .on_unassigned_general

-- The table `init` loads: the catch-all behind every vector, then the assignments.
def loaded : UInt8 → Option Gate :=
  install_purposeful_handlers fun _ => some (set_handler_fn .on_unassigned_general)

-- What a handler is called with or reads: the interrupted instruction, whether a debugger is
-- attached, and the status and the data register of the keyboard controller.
structure Arrival where
  rip : Nat
  debugger : Bool
  status : UInt8
  data : UInt8
  deriving DecidableEq, Repr

-- With a debugger attached.
def on_debug (rip : Nat) : KProg Unit := do
  bump fun c => { c with exceptions := c.exceptions + 1 }
  Log.log .Debug IDT ("debug exception at rip " ++ hex rip ++ "; returning to the debugger")

def on_breakpoint (rip : Nat) : KProg Unit := do
  bump fun c => { c with exceptions := c.exceptions + 1 }
  Log.log .Debug IDT ("breakpoint (#BP) at rip " ++ hex rip)

def on_syscall_vector (rip : Nat) : KProg Unit := do
  bump fun c => { c with syscalls := c.syscalls + 1 }
  Log.log .Error IDT ("syscall vector " ++ Keyboard.hex_byte SYSCALL_VECTOR ++ " invoked at rip " ++
    hex rip ++ ": the Orin syscall ABI is DESIGNED but not IMPLEMENTED until M5. " ++
    "Returning ENOSYS. See docs/SYSCALL.md.")

def on_spurious : KProg Unit := do
  bump fun c => { c with spurious := c.spurious + 1 }
  Log.log .Trace IDT ("spurious interrupt at vector " ++ Keyboard.hex_byte SPURIOUS_VECTOR ++
    "; EOI deliberately withheld")

-- The message with which an exception stops the kernel.
def fatal_exception (name : String) (vector : UInt8) : Except Panic (KProg Unit) :=
  .error (.explicit ("unhandled " ++ name ++ " (vector " ++ Keyboard.hex_byte vector ++ ")"))

-- A handler gives up, or is a program that returns. What it prints before it gives up is left out.
def Handler.serve : Handler → Arrival → Except Panic (KProg Unit)
  | .on_divide_error, _ => fatal_exception "divide-error (#DE)" 0x00
  | .on_debug, a =>
      if a.debugger then .ok (Interrupts.on_debug a.rip) else fatal_exception "debug (#DB)" 0x01
  | .on_nmi, _ => .error (.explicit "non-maskable interrupt")
  | .on_breakpoint, a => .ok (Interrupts.on_breakpoint a.rip)
  | .on_overflow, _ => fatal_exception "overflow (#OF)" 0x04
  | .on_bound_range, _ => fatal_exception "bound-range-exceeded (#BR)" 0x05
  | .on_invalid_opcode, _ => fatal_exception "invalid-opcode (#UD)" 0x06
  | .on_device_not_available, _ => fatal_exception "device-not-available (#NM)" 0x07
  | .on_double_fault, _ => .error (.explicit "double fault")
  | .on_invalid_tss, _ => fatal_exception "invalid-TSS (#TS)" 0x0A
  | .on_segment_not_present, _ => fatal_exception "segment-not-present (#NP)" 0x0B
  | .on_stack_segment, _ => fatal_exception "stack-segment-fault (#SS)" 0x0C
  | .on_general_protection, _ => fatal_exception "general-protection (#GP)" 0x0D
  | .on_page_fault, _ => fatal_exception "page-fault (#PF)" 0x0E
  | .on_x87_fault, _ => fatal_exception "x87-floating-point (#MF)" 0x10
  | .on_alignment_check, _ => fatal_exception "alignment-check (#AC)" 0x11
  | .on_machine_check, _ => .error (.explicit "machine check")
  | .on_simd_fault, _ => fatal_exception "simd-floating-point (#XF)" 0x13
  | .on_virtualization, _ => fatal_exception "virtualization (#VE)" 0x14
  | .on_vmm_comm, _ => fatal_exception "vmm-communication (#VC)" 0x1D
  | .on_security_exception, _ => fatal_exception "security-exception (#SX)" 0x1E
  | .on_irq_timer, _ => .ok Interrupts.on_irq_timer
  | .on_irq_keyboard, a => .ok (Interrupts.on_irq_keyboard a.status a.data)
  | .on_irq_cascade, _ => .ok Interrupts.on_irq_cascade
  | .on_irq_unexpected, a => .ok (Interrupts.on_irq_unexpected a.rip)
  | .on_syscall_vector, a => .ok (Interrupts.on_syscall_vector a.rip)
  | .on_spurious, _ => .ok Interrupts.on_spurious
  | .on_unassigned_general, _ => .error (.explicit "interrupt on unassigned vector")

end Orin.Interrupts
