import Mathlib.Logic.Function.Basic

namespace Orin.Interrupts.Pic

def MASTER_CMD : UInt16 := 0x20
def MASTER_DATA : UInt16 := 0x21
def SLAVE_CMD : UInt16 := 0xA0
def SLAVE_DATA : UInt16 := 0xA1

def MASTER_OFFSET : UInt8 := 0x20
def SLAVE_OFFSET : UInt8 := 0x28

def ICW1_ICW4 : UInt8 := 0x01
def ICW1_INIT : UInt8 := 0x10
def ICW4_8086 : UInt8 := 0x01

def CMD_END_OF_INTERRUPT : UInt8 := 0x20

-- The sixteen lines, the first eight on the master. No caller passes a number beyond them.
abbrev Line := Fin 16

-- Literals of lines and pins resolve through these two whatever else is imported.
instance line_ne_zero : @NeZero Nat Zero.ofOfNat0 16 := ⟨by decide⟩
instance pin_ne_zero : @NeZero Nat Zero.ofOfNat0 8 := ⟨by decide⟩

def TIMER : Line := 0
def KEYBOARD : Line := 1
def CASCADE : Line := 2

def Line.pin (irq : Line) : Fin 8 := Fin.ofNat 8 irq

def Line.bit (irq : Line) : UInt8 := 1 <<< UInt8.ofNat irq.pin

def Line.data_port (irq : Line) : UInt16 := if irq < 8 then MASTER_DATA else SLAVE_DATA

structure Masks where
  master : UInt8
  slave : UInt8
  deriving DecidableEq, Repr

namespace Masks

variable (masks : Masks)

-- The byte that covers a line.
def byte (irq : Line) : UInt8 := if irq < 8 then masks.master else masks.slave

def closed (irq : Line) : Masks :=
  if irq < 8 then { masks with master := masks.master ||| irq.bit }
  else { masks with slave := masks.slave ||| irq.bit }

def cleared (irq : Line) : Masks :=
  if irq < 8 then { masks with master := masks.master &&& ~~~irq.bit }
  else { masks with slave := masks.slave &&& ~~~irq.bit }

end Masks

-- Where a controller is in its initialisation, and whether a fourth word is coming.
inductive Stage where
  | ready
  | icw2 (fourth : Bool)
  | icw3 (fourth : Bool)
  | icw4
  deriving DecidableEq, Repr

structure Chip where
  offset : UInt8
  imr : UInt8
  isr : Fin 8 → Bool
  irr : Fin 8 → Bool
  stage : Stage

-- The highest priority is the lowest number.
def first (p : Fin 8 → Bool) : Option (Fin 8) := (List.finRange 8).find? p

namespace Chip

variable (c : Chip)

def masked (i : Fin 8) : Bool := c.imr.toNat.testBit i

-- Nothing of the same or a higher priority is being served.
def free (i : Fin 8) : Bool := (List.finRange 8).all fun j => !(j ≤ i && c.isr j)

-- The request the controller passes on.
def winner (irr : Fin 8 → Bool) : Option (Fin 8) := first fun i => irr i && !c.masked i && c.free i

def enter (i : Fin 8) : Chip :=
  { c with isr := Function.update c.isr i true, irr := Function.update c.irr i false }

def eoi : Chip :=
  match first c.isr with
  | some i => { c with isr := Function.update c.isr i false }
  | none => c

def command (b : UInt8) : Chip :=
  if b &&& ICW1_INIT ≠ 0 then
    { c with
      imr := 0
      isr := fun _ => false
      irr := fun _ => false
      stage := .icw2 (b &&& ICW1_ICW4 ≠ 0) }
  else if b = CMD_END_OF_INTERRUPT then c.eoi
  else c

def data (b : UInt8) : Chip :=
  match c.stage with
  | .ready => { c with imr := b }
  | .icw2 fourth => { c with offset := b &&& 0xF8, stage := .icw3 fourth }
  | .icw3 fourth => { c with stage := if fourth then .icw4 else .ready }
  | .icw4 => { c with stage := .ready }

end Chip

structure Pair where
  master : Chip
  slave : Chip

namespace Pair

variable (p : Pair)

def write (port : UInt16) (b : UInt8) (p : Pair) : Pair :=
  if port = MASTER_CMD then { p with master := p.master.command b }
  else if port = MASTER_DATA then { p with master := p.master.data b }
  else if port = SLAVE_CMD then { p with slave := p.slave.command b }
  else if port = SLAVE_DATA then { p with slave := p.slave.data b }
  else p

def read (port : UInt16) : UInt8 :=
  if port = MASTER_DATA then p.master.imr else if port = SLAVE_DATA then p.slave.imr else 0

-- The slave's output is wired to the master's third input.
def requests (i : Fin 8) : Bool :=
  if i = CASCADE.pin then (p.slave.winner p.slave.irr).isSome else p.master.irr i

def vector (c : Chip) (i : Fin 8) : UInt8 := c.offset + UInt8.ofNat i

-- What the processor's acknowledge cycle gets; the seventh input stands for none.
def acknowledge : UInt8 × Pair :=
  match p.master.winner p.requests with
  | none => (vector p.master 7, p)
  | some i =>
      if i = CASCADE.pin then
        match p.slave.winner p.slave.irr with
        | none => (vector p.slave 7, { p with master := p.master.enter i })
        | some j => (vector p.slave j, ⟨p.master.enter i, p.slave.enter j⟩)
      else (vector p.master i, { p with master := p.master.enter i })

def wants (irq : Line) : Bool :=
  if irq < 8 then p.master.irr irq.pin else p.slave.irr irq.pin

-- Whether a request on the line gets through to the processor.
def opens (irq : Line) : Bool :=
  if irq < 8 then !p.master.masked irq.pin
  else !p.slave.masked irq.pin && !p.master.masked CASCADE.pin

def want (irq : Line) (b : Bool) : Pair :=
  if irq < 8 then { p with master.irr := Function.update p.master.irr irq.pin b }
  else { p with slave.irr := Function.update p.slave.irr irq.pin b }

end Pair

def idle : Fin 8 → Bool := fun _ => false

-- Both controllers initialised for the kernel's vectors, with these masks in force.
def standing (masks : Masks) (isr isr' irr irr' : Fin 8 → Bool) : Pair :=
  ⟨⟨MASTER_OFFSET, masks.master, isr, irr, .ready⟩, ⟨SLAVE_OFFSET, masks.slave, isr', irr', .ready⟩⟩

-- `MASKS` and `REMAPPED`, the two controllers, and the level of each line.
structure State where
  masks : Masks
  remapped : Bool
  pair : Pair
  levels : Line → Bool

namespace State

variable (st : State)

-- A controller takes a request when the line rises, and drops it when the line falls before it
-- has been served.
def raise (irq : Line) : State :=
  if st.levels irq then st
  else { st with pair := st.pair.want irq true, levels := Function.update st.levels irq true }

def lower (irq : Line) : State :=
  { st with pair := st.pair.want irq false, levels := Function.update st.levels irq false }

def put (port : UInt16) (b : UInt8) : State := { st with pair := st.pair.write port b }

end State

-- After `interrupts::init`, with no request and every line low.
def State.booted : State where
  masks := ⟨0xFC, 0xFF⟩
  remapped := true
  pair := standing ⟨0xFC, 0xFF⟩ idle idle idle idle
  levels := fun _ => false

end Orin.Interrupts.Pic
