import Mathlib.Data.Nat.Notation

namespace Orin.Drivers.Keyboard

-- Status register bits (port 0x64, read).
def ST_OUT_BUFFER_FULL : UInt8 := (1 : UInt8) <<< 0
def ST_FROM_DEVICE : UInt8 := (1 : UInt8) <<< 5
def ST_TIMEOUT : UInt8 := (1 : UInt8) <<< 6
def ST_PARITY : UInt8 := (1 : UInt8) <<< 7

def RING_CAP : Nat := 256

-- Single producer, the interrupt handler, and single consumer. Both positions are
-- kept reduced modulo the capacity. `dropped` is a `usize` that wraps after 2^64 lost bytes; here
-- it does not.
structure Ring where
  cells : Vector UInt8 RING_CAP
  head : Fin RING_CAP
  tail : Fin RING_CAP
  dropped : Nat
  deriving DecidableEq

namespace Ring

def new : Ring := ⟨Vector.replicate RING_CAP 0, ⟨0, by decide⟩, ⟨0, by decide⟩, 0⟩

def next (i : Fin RING_CAP) : Fin RING_CAP := ⟨(i + 1) % RING_CAP, Nat.mod_lt _ (by decide)⟩

-- A full ring drops the newest byte and counts it.
def push (b : UInt8) (r : Ring) : Ring :=
  if next r.head = r.tail then { r with dropped := r.dropped + 1 }
  else { r with cells := r.cells.set r.head b, head := next r.head }

def pending (r : Ring) : Nat :=
  if r.tail ≤ r.head then r.head - r.tail else RING_CAP - r.tail + r.head

end Ring

inductive KeyCode where
  | None | Escape | F1 | F2 | F3 | F4 | F5 | F6 | F7 | F8 | F9 | F10 | F11 | F12 | Backquote | Num1
  | Num2 | Num3 | Num4 | Num5 | Num6 | Num7 | Num8 | Num9 | Num0 | Minus | Equal | Backspace | Tab
  | Q | W | E | R | T | Y | U | I | O | P | BracketLeft | BracketRight | Backslash | CapsLock | A
  | S | D | F | G | H | J | K | L | Z | X | C | V | B | N | M | Semicolon | Quote | Enter
  | ShiftLeft | ShiftRight | ControlLeft | ControlRight | AltLeft | AltRight | SuperLeft
  | SuperRight | Space | PrintScreen | ScrollLock | Pause | Insert | Home | PageUp | Delete | End
  | PageDown | ArrowUp | ArrowLeft | ArrowDown | ArrowRight | NumLock | KeypadSlash
  | KeypadAsterisk | KeypadMinus | KeypadPlus | KeypadEnter | KeypadDot | Keypad0 | Keypad1
  | Keypad2 | Keypad3 | Keypad4 | Keypad5 | Keypad6 | Keypad7 | Keypad8 | Keypad9 | Comma_
  | Period_ | Slash_
  | Unknown (code : UInt8)
  deriving DecidableEq, Repr

-- The derived `Debug` text.
def KeyCode.debug : KeyCode → String
  | .None => "None" | .Escape => "Escape" | .F1 => "F1" | .F2 => "F2" | .F3 => "F3" | .F4 => "F4"
  | .F5 => "F5" | .F6 => "F6" | .F7 => "F7" | .F8 => "F8" | .F9 => "F9" | .F10 => "F10" | .F11 => "F11"
  | .F12 => "F12" | .Backquote => "Backquote" | .Num1 => "Num1" | .Num2 => "Num2" | .Num3 => "Num3"
  | .Num4 => "Num4" | .Num5 => "Num5" | .Num6 => "Num6" | .Num7 => "Num7" | .Num8 => "Num8"
  | .Num9 => "Num9" | .Num0 => "Num0" | .Minus => "Minus" | .Equal => "Equal"
  | .Backspace => "Backspace" | .Tab => "Tab" | .Q => "Q" | .W => "W" | .E => "E" | .R => "R"
  | .T => "T" | .Y => "Y" | .U => "U" | .I => "I" | .O => "O" | .P => "P"
  | .BracketLeft => "BracketLeft" | .BracketRight => "BracketRight" | .Backslash => "Backslash"
  | .CapsLock => "CapsLock" | .A => "A" | .S => "S" | .D => "D" | .F => "F" | .G => "G" | .H => "H"
  | .J => "J" | .K => "K" | .L => "L" | .Z => "Z" | .X => "X" | .C => "C" | .V => "V" | .B => "B"
  | .N => "N" | .M => "M" | .Semicolon => "Semicolon" | .Quote => "Quote" | .Enter => "Enter"
  | .ShiftLeft => "ShiftLeft" | .ShiftRight => "ShiftRight" | .ControlLeft => "ControlLeft"
  | .ControlRight => "ControlRight" | .AltLeft => "AltLeft" | .AltRight => "AltRight"
  | .SuperLeft => "SuperLeft" | .SuperRight => "SuperRight" | .Space => "Space"
  | .PrintScreen => "PrintScreen" | .ScrollLock => "ScrollLock" | .Pause => "Pause"
  | .Insert => "Insert" | .Home => "Home" | .PageUp => "PageUp" | .Delete => "Delete" | .End => "End"
  | .PageDown => "PageDown" | .ArrowUp => "ArrowUp" | .ArrowLeft => "ArrowLeft"
  | .ArrowDown => "ArrowDown" | .ArrowRight => "ArrowRight" | .NumLock => "NumLock"
  | .KeypadSlash => "KeypadSlash" | .KeypadAsterisk => "KeypadAsterisk" | .KeypadMinus => "KeypadMinus"
  | .KeypadPlus => "KeypadPlus" | .KeypadEnter => "KeypadEnter" | .KeypadDot => "KeypadDot"
  | .Keypad0 => "Keypad0" | .Keypad1 => "Keypad1" | .Keypad2 => "Keypad2" | .Keypad3 => "Keypad3"
  | .Keypad4 => "Keypad4" | .Keypad5 => "Keypad5" | .Keypad6 => "Keypad6" | .Keypad7 => "Keypad7"
  | .Keypad8 => "Keypad8" | .Keypad9 => "Keypad9" | .Comma_ => "Comma_" | .Period_ => "Period_"
  | .Slash_ => "Slash_" | .Unknown code => "Unknown(" ++ toString code.toNat ++ ")"

-- Scancode set 1, indexed by the low 7 bits of the make code.
def SCANCODE_BASE : Vector KeyCode 0x60 := #v[
     .None, .Escape, .Num1, .Num2, .Num3, .Num4, .Num5, .Num6, .Num7, .Num8, .Num9, .Num0, .Minus,
     .Equal, .Backspace, .Tab, .Q, .W, .E, .R, .T, .Y, .U, .I, .O, .P, .BracketLeft, .BracketRight,
     .Enter, .ControlLeft, .A, .S, .D, .F, .G, .H, .J, .K, .L, .Semicolon, .Quote, .Backquote,
     .ShiftLeft, .Backslash, .Z, .X, .C, .V, .B, .N, .M, .Comma_, .Period_, .Slash_, .ShiftRight,
     .KeypadAsterisk, .AltLeft, .Space, .CapsLock, .F1, .F2, .F3, .F4, .F5, .F6, .F7, .F8, .F9,
     .F10, .NumLock, .ScrollLock, .Keypad7, .Keypad8, .Keypad9, .KeypadMinus, .Keypad4, .Keypad5,
     .Keypad6, .KeypadPlus, .Keypad1, .Keypad2, .Keypad3, .Keypad0, .KeypadDot, .None, .None,
     .None, .F11, .F12, .None, .None, .None, .None, .None, .None, .None]

-- The E0-prefixed codes.
def SCANCODE_E0_MAP : List (UInt8 × KeyCode) :=
  [(0x1C, .KeypadEnter), (0x1D, .ControlRight), (0x35, .KeypadSlash), (0x37, .PrintScreen),
   (0x38, .AltRight), (0x47, .Home), (0x48, .ArrowUp), (0x49, .PageUp), (0x4B, .ArrowLeft),
   (0x4D, .ArrowRight), (0x4F, .End), (0x50, .ArrowDown), (0x51, .PageDown), (0x52, .Insert),
   (0x53, .Delete), (0x5B, .SuperLeft), (0x5C, .SuperRight)]

def lookup_e0 (idx : UInt8) : KeyCode :=
  match SCANCODE_E0_MAP.find? fun entry => entry.1 = idx with
  | some entry => entry.2
  | none => .None

-- Unshifted and shifted character of a key on the US layout.
def char_pair : KeyCode → Option (Char × Char)
  | .Backquote => some ('\x60', '~') | .Num1 => some ('1', '!') | .Num2 => some ('2', '@')
  | .Num3 => some ('3', '#') | .Num4 => some ('4', '$') | .Num5 => some ('5', '%')
  | .Num6 => some ('6', '^') | .Num7 => some ('7', '&') | .Num8 => some ('8', '*')
  | .Num9 => some ('9', '(') | .Num0 => some ('0', ')') | .Minus => some ('-', '_')
  | .Equal => some ('=', '+') | .Q => some ('q', 'Q') | .W => some ('w', 'W') | .E => some ('e', 'E')
  | .R => some ('r', 'R') | .T => some ('t', 'T') | .Y => some ('y', 'Y') | .U => some ('u', 'U')
  | .I => some ('i', 'I') | .O => some ('o', 'O') | .P => some ('p', 'P')
  | .BracketLeft => some ('[', '\x7b') | .BracketRight => some (']', '\x7d')
  | .Backslash => some ('\x5c', '|') | .A => some ('a', 'A') | .S => some ('s', 'S')
  | .D => some ('d', 'D') | .F => some ('f', 'F') | .G => some ('g', 'G') | .H => some ('h', 'H')
  | .J => some ('j', 'J') | .K => some ('k', 'K') | .L => some ('l', 'L')
  | .Semicolon => some (';', ':') | .Quote => some ('\x27', '\x22') | .Z => some ('z', 'Z')
  | .X => some ('x', 'X') | .C => some ('c', 'C') | .V => some ('v', 'V') | .B => some ('b', 'B')
  | .N => some ('n', 'N') | .M => some ('m', 'M') | .Comma_ => some (',', '<')
  | .Period_ => some ('.', '>') | .Slash_ => some ('/', '?') | .Space => some (' ', ' ')
  | .Enter => some ('\n', '\n') | .Tab => some ('\t', '\t') | .Backspace => some ('\x08', '\x08')
  | .Escape => some ('\x1b', '\x1b') | .Keypad0 => some ('0', '0') | .Keypad1 => some ('1', '1')
  | .Keypad2 => some ('2', '2') | .Keypad3 => some ('3', '3') | .Keypad4 => some ('4', '4')
  | .Keypad5 => some ('5', '5') | .Keypad6 => some ('6', '6') | .Keypad7 => some ('7', '7')
  | .Keypad8 => some ('8', '8') | .Keypad9 => some ('9', '9') | .KeypadDot => some ('.', '.')
  | .KeypadSlash => some ('/', '/') | .KeypadAsterisk => some ('*', '*')
  | .KeypadMinus => some ('-', '-') | .KeypadPlus => some ('+', '+')
  | .KeypadEnter => some ('\n', '\n') | _ => none

def char_for (code : KeyCode) (shift : Bool) : Option Char :=
  (char_pair code).map fun pair => if shift then pair.2 else pair.1

structure KeyEvent where
  code : KeyCode
  pressed : Bool
  shift : Bool
  ctrl : Bool
  alt : Bool
  tick : Nat
  ch : Option Char
  deriving DecidableEq, Repr

set_option linter.dupNamespace false in
inductive Presence where
  | Unknown
  | Controller
  | Keyboard
  | Absent
  deriving DecidableEq, Repr

def Presence.debug : Presence → String
  | Unknown => "Unknown"
  | Controller => "Controller"
  | Keyboard => "Keyboard"
  | Absent => "Absent"

-- The two counters are `u64` with overflow checks. They move by at most one a byte, so the check
-- needs 2^64 bytes from the keyboard to fail, and they are counted without it.
structure State where
  presence : Presence
  shift : Bool
  ctrl : Bool
  alt : Bool
  extended : Bool
  pause_prefix : Bool
  events : Nat
  unknown_scancodes : Nat
  deriving DecidableEq, Repr

-- `format!("{:02X}", b)` and `format!("{:#04x}", b)`.
def hex_upper (b : UInt8) : String :=
  String.ofList [(Nat.digitChar (b.toNat / 16)).toUpper, (Nat.digitChar (b.toNat % 16)).toUpper]

def hex_byte (b : UInt8) : String :=
  String.ofList ['0', 'x', Nat.digitChar (b.toNat / 16), Nat.digitChar (b.toNat % 16)]

namespace State

def new : State := ⟨.Unknown, false, false, false, false, false, 0, 0⟩

def event (st : State) (code : KeyCode) (pressed : Bool) (tick : Nat) (ch : Option Char) :
    KeyEvent :=
  ⟨code, pressed, st.shift, st.ctrl, st.alt, tick, ch⟩

-- Modifiers follow the make and break codes of their keys.
def modify_flags (st : State) (code : KeyCode) (released : Bool) : State :=
  match code with
  | .ShiftLeft | .ShiftRight => { st with shift := !released }
  | .ControlLeft | .ControlRight => { st with ctrl := !released }
  | .AltLeft | .AltRight => { st with alt := !released }
  | _ => st

-- What decoding one byte leaves: the state, the event if any, and the record the
-- driver logs at trace level before it unlocks the state.
structure Translated where
  state : State
  event : Option KeyEvent
  trace : Option String
  deriving DecidableEq, Repr

-- A known key: the modifiers change before the character is looked up.
def translate_key (st : State) (code : KeyCode) (released : Bool) (tick : Nat) : Translated :=
  let st := st.modify_flags code released
  if code = .None then ⟨st, none, none⟩
  else
    let st := { st with events := st.events + 1 }
    ⟨st, some (st.event code (!released) tick (char_for code st.shift)), none⟩

def translate_extended (st : State) (idx : UInt8) (released : Bool) (tick : Nat) : Translated :=
  let st := { st with extended := false }
  -- The synthetic Shift around PrintScreen.
  if idx = 0x2A ∨ idx = 0xAA then ⟨st, none, none⟩
  else
    let c := lookup_e0 idx
    if c = .None then
      let st := { st with unknown_scancodes := st.unknown_scancodes + 1 }
      ⟨st, some (st.event (.Unknown (idx ||| 0x80)) (!released) tick none),
        some ("keyboard: unknown extended scancode E0 " ++ hex_upper idx)⟩
    else translate_key st c released tick

def translate (st : State) (tick : Nat) (byte : UInt8) : Translated :=
  if byte = 0xE0 then ⟨{ st with extended := true }, none, none⟩
  else if byte = 0xE1 then ⟨{ st with pause_prefix := true }, none, none⟩
  else if st.pause_prefix then
    let st := { st with pause_prefix := false }
    ⟨st, some (st.event .Pause true tick none), none⟩
  else
    let released := byte &&& 0x80 != 0
    let idx := byte &&& 0x7F
    if h : idx.toNat < 0x60 then
      if st.extended then st.translate_extended idx released tick
      else st.translate_key (SCANCODE_BASE.get ⟨idx.toNat, h⟩) released tick
    else ⟨{ st with unknown_scancodes := st.unknown_scancodes + 1 }, none, none⟩

end State

end Orin.Drivers.Keyboard
