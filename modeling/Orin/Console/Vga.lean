import Orin.Console.Wire

namespace Orin.Console.Vga

open Orin.Log Rust

def WIDTH : Nat := 80

def HEIGHT : Nat := 25

inductive Color where
  | Black
  | Blue
  | Green
  | Cyan
  | Red
  | Magenta
  | Brown
  | LightGray
  | DarkGray
  | LightBlue
  | LightGreen
  | LightCyan
  | LightRed
  | Pink
  | Yellow
  | White
  deriving DecidableEq

-- `color as u8`.
def Color.as_u8 : Color → UInt8
  | .Black => 0
  | .Blue => 1
  | .Green => 2
  | .Cyan => 3
  | .Red => 4
  | .Magenta => 5
  | .Brown => 6
  | .LightGray => 7
  | .DarkGray => 8
  | .LightBlue => 9
  | .LightGreen => 10
  | .LightCyan => 11
  | .LightRed => 12
  | .Pink => 13
  | .Yellow => 14
  | .White => 15

structure ColorCode where
  code : UInt8
  deriving DecidableEq

def ColorCode.new (fg bg : Color) : ColorCode := ⟨bg.as_u8 <<< 4 ||| fg.as_u8⟩

structure Cell where
  ascii : UInt8
  color : ColorCode
  deriving DecidableEq

-- The memory behind `cell_ptr`, by index. It goes on where the text buffer ends.
abbrev Screen := Nat → Cell

-- One run of `scroll_up`: the colour it ran with and the screen on both sides of it.
structure Scroll where
  color : ColorCode
  before : Screen
  after : Screen

-- A character put on the screen, with its line among all lines of the output.
structure Print where
  line : Nat
  column : Nat
  ascii : UInt8
  deriving DecidableEq

-- What happens at the device. The code keeps no record of it.
inductive Event where
  | read (index : Nat)
  | write (index : Nat)
  | print (p : Print)
  | scroll (s : Scroll)

-- The index handed to `cell_ptr`.
def Event.index : Event → Option Nat
  | read index => some index
  | write index => some index
  | _ => none

def Event.scrolled : Event → Option Scroll
  | scroll s => some s
  | _ => none

def Event.printed : Event → Option Print
  | print p => some p
  | _ => none

-- The writer's three fields, with the device behind it and what has happened there.
structure VgaWriter where
  column : Nat
  row : Nat
  color : ColorCode
  screen : Screen
  hw_cursor : Nat
  log : List Event

namespace VgaWriter

-- The static `WRITER` in front of whatever the firmware has left on the device.
def new (screen : Screen) (hw_cursor : Nat) : VgaWriter where
  column := 0
  row := 0
  color := .new .LightGray .Black
  screen := screen
  hw_cursor := hw_cursor
  log := []

-- The same console with nothing on record.
def quiet (w : VgaWriter) : VgaWriter := { w with log := [] }

def accesses (w : VgaWriter) : List Nat := w.log.filterMap Event.index

def scrolls (w : VgaWriter) : List Scroll := w.log.filterMap Event.scrolled

def prints (w : VgaWriter) : List Print := w.log.filterMap Event.printed

-- The cursor's line. A scroll moves the lines, not the cursor.
def line (w : VgaWriter) : Nat := w.scrolls.length + w.row

def note (w : VgaWriter) (e : Event) : VgaWriter := { w with log := w.log ++ [e] }

def write_cell (w : VgaWriter) (index : Nat) (ascii : UInt8) (color : ColorCode) : VgaWriter :=
  { w.note (.write index) with
    screen := fun i => if i = index then ⟨ascii, color⟩ else w.screen i }

def read_cell (w : VgaWriter) (index : Nat) : UInt8 × VgaWriter :=
  ((w.screen index).ascii, w.note (.read index))

def set_color (w : VgaWriter) (fg bg : Color) : VgaWriter := { w with color := .new fg bg }

def update_hw_cursor (w : VgaWriter) : VgaWriter :=
  { w with hw_cursor := (w.row * WIDTH + w.column) % 2 ^ 16 }

-- `for c in 0..len` over the cells from `base` on.
def blank_cells (w : VgaWriter) (base len : Nat) : VgaWriter :=
  (List.range len).foldl (fun w c => w.write_cell (base + c) 32 w.color) w

def clear_screen (w : VgaWriter) : VgaWriter :=
  { w.blank_cells 0 (WIDTH * HEIGHT) with column := 0, row := 0 }

def init (w : VgaWriter) : VgaWriter := w.clear_screen.update_hw_cursor

def clear_line (w : VgaWriter) (row : Nat) : VgaWriter :=
  if row ≥ HEIGHT then w else w.blank_cells (row * WIDTH) WIDTH

def scroll_cell (row : Nat) (w : VgaWriter) (col : Nat) : VgaWriter :=
  let (ch, w) := w.read_cell (row * WIDTH + col)
  w.write_cell ((row - 1) * WIDTH + col) ch w.color

def scroll_row (w : VgaWriter) (row : Nat) : VgaWriter :=
  (List.range WIDTH).foldl (scroll_cell row) w

-- Row by row in place, upwards.
def scroll_up (w : VgaWriter) : VgaWriter :=
  let moved := ((List.range' 1 (HEIGHT - 1)).foldl scroll_row w).clear_line (HEIGHT - 1)
  moved.note (.scroll ⟨w.color, w.screen, moved.screen⟩)

def new_line (w : VgaWriter) : VgaWriter :=
  let w := { w with column := 0 }
  let w := if w.row < HEIGHT - 1 then { w with row := w.row + 1 } else w.scroll_up
  w.update_hw_cursor

-- The wrap is deferred: a full row is left only for the next character.
def put (w : VgaWriter) (ascii : UInt8) : VgaWriter :=
  let w := if w.column ≥ WIDTH then w.new_line else w
  let w := w.note (.print ⟨w.line, w.column, ascii⟩)
  let w := w.write_cell (w.row * WIDTH + w.column) ascii w.color
  { w with column := w.column + 1 }.update_hw_cursor

def erase (w : VgaWriter) : VgaWriter :=
  (w.write_cell (w.row * WIDTH + w.column) 32 w.color).update_hw_cursor

def backspace (w : VgaWriter) : VgaWriter :=
  if w.column > 0 then { w with column := w.column - 1 }.erase
  else if w.row > 0 then { w with row := w.row - 1, column := WIDTH - 1 }.erase
  else w

def write_byte (w : VgaWriter) (byte : UInt8) : VgaWriter :=
  if byte = 10 then w.new_line
  else if byte = 13 then { w with column := 0 }
  else if byte = 0x08 then w.backspace
  -- `(self.column + 8) & !7`
  else if byte = 0x09 then { w with column := min ((w.column + 8) / 8 * 8) (WIDTH - 1) }
  else if byte < 0x20 ∨ byte = 0x7F then (w.put 94).put (byte + 0x40)
  else w.put byte

def write_bytes (w : VgaWriter) (bytes : List UInt8) : VgaWriter := bytes.foldl write_byte w

-- Bytes that are not ASCII become a question mark.
def write_str (w : VgaWriter) (s : List Char) : VgaWriter :=
  w.write_bytes ((utf8 s).map fun byte => if byte < 0x80 then byte else 63)

def put_at (w : VgaWriter) (row col : Nat) (ascii : UInt8) : VgaWriter :=
  if row < HEIGHT ∧ col < WIDTH then w.write_cell (row * WIDTH + col) ascii w.color else w

def read_col (row : Nat) : List UInt8 × VgaWriter → Nat → List UInt8 × VgaWriter
  | (out, w), c =>
    let (ch, w) := w.read_cell (row * WIDTH + c)
    (out.set c ch, w)

def read_row (w : VgaWriter) (row : Nat) : List UInt8 × VgaWriter :=
  let out := List.replicate WIDTH 32
  if row < HEIGHT then (List.range WIDTH).foldl (read_col row) (out, w) else (out, w)

end VgaWriter

-- The calls of the public interface.
inductive Op where
  | init
  | clear_screen
  | clear_line (row : Nat)
  | write_byte (byte : UInt8)
  | write_str (s : List Char)
  | put_at (row col : Nat) (ascii : UInt8)
  | read_row (row : Nat)
  | set_color (fg bg : Color)

def Op.run (w : VgaWriter) : Op → VgaWriter
  | .init => w.init
  | .clear_screen => w.clear_screen
  | .clear_line row => w.clear_line row
  | .write_byte byte => w.write_byte byte
  | .write_str s => w.write_str s
  | .put_at row col ascii => w.put_at row col ascii
  | .read_row row => (w.read_row row).2
  | .set_color fg bg => w.set_color fg bg

-- Any sequence of calls, from the static on.
def session (screen : Screen) (hw_cursor : Nat) (ops : List Op) : VgaWriter :=
  ops.foldl Op.run (.new screen hw_cursor)

end Orin.Console.Vga
