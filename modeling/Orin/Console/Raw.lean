import Orin.Console.Wire

namespace Orin.Console.Raw

open Rust

def WIDTH : Nat := 80

def HEIGHT : Nat := 25

-- White on red.
def FATAL_ATTR : UInt8 := 0x4F

structure Cell where
  ascii : UInt8
  attr : UInt8
  deriving DecidableEq

-- The statics of the lock-free path with the two devices behind it.
structure Devices where
  serial_ok : Bool
  row : Nat
  col : Nat
  -- How many bytes the port was offered, and those it took.
  offered : Nat
  wire : List UInt8
  screen : Nat → Nat → Cell

section Devices

-- Whether the holding register empties within the spin bound at the port's n-th byte.
variable (thre : Nat → Bool)

def serial_byte (d : Devices) (b : UInt8) : Devices :=
  if d.serial_ok then
    { d with
      offered := d.offered + 1
      wire := if thre d.offered then d.wire ++ [b] else d.wire }
  else d

def serial_str (d : Devices) (s : List UInt8) : Devices := (Serial.write_str s).foldl (serial_byte thre) d

def vga_cell (d : Devices) (row col : Nat) (ascii attr : UInt8) : Devices :=
  if row ≥ HEIGHT ∨ col ≥ WIDTH then d
  else { d with screen := fun i j => if i = row ∧ j = col then ⟨ascii, attr⟩ else d.screen i j }

def vga_scroll (d : Devices) : Devices :=
  { d with screen := fun i j => if i < HEIGHT - 1 then d.screen (i + 1) j else ⟨32, FATAL_ATTR⟩ }

-- `c.is_ascii_graphic() || c == b' '`, or a question mark.
def shown (c : UInt8) : UInt8 := if 0x20 ≤ c ∧ c ≤ 0x7E then c else 63

-- The end of `vga_byte`: wrap, scroll, store the cursor.
def settle (d : Devices) (row col : Nat) : Devices :=
  let row' := if col ≥ WIDTH then row + 1 else row
  let col' := if col ≥ WIDTH then 0 else col
  if row' ≥ HEIGHT then { vga_scroll d with row := HEIGHT - 1, col := col' }
  else { d with row := row', col := col' }

def vga_byte (d : Devices) (b : UInt8) : Devices :=
  if b = 10 then settle d (d.row + 1) 0
  else if b = 13 then settle d d.row 0
  else if b = 8 then
    if d.col > 0 then settle (vga_cell d d.row (d.col - 1) 32 FATAL_ATTR) d.row (d.col - 1)
    else settle d d.row d.col
  else settle (vga_cell d d.row d.col (shown b) FATAL_ATTR) d.row (d.col + 1)

def print_str (d : Devices) (s : List Char) : Devices :=
  (utf8 s).foldl vga_byte (serial_str thre d (utf8 s))

end Devices

-- The length of `print`'s buffer.
def CAPACITY : Nat := 512

def TRUNCATED : List Char := "...[truncated]".toList

-- What is filled of the buffer.
structure SliceWriter where
  buf : List UInt8
  fits : buf.length ≤ CAPACITY

namespace SliceWriter

def new : SliceWriter := ⟨[], Nat.zero_le CAPACITY⟩

def room (w : SliceWriter) : Nat := CAPACITY - w.buf.length

-- Copies what fits.
def copy (w : SliceWriter) (bytes : List UInt8) : SliceWriter where
  buf := w.buf ++ bytes.take (min bytes.length w.room)
  fits := by
    have hfits := w.fits
    rw [List.length_append, List.length_take, room]
    omega

def write_str (w : SliceWriter) (s : List Char) : SliceWriter :=
  let bytes := utf8 s
  let filled := w.copy bytes
  if min bytes.length w.room < bytes.length then filled.copy (utf8 TRUNCATED) else filled

end SliceWriter

def buffered (fragments : List (List Char)) : List UInt8 :=
  (fragments.foldl SliceWriter.write_str SliceWriter.new).buf

-- The text `print` sends to both consoles.
def sent (fragments : List (List Char)) : List Char :=
  (from_utf8 (buffered fragments)).getD "<utf8 error>".toList

def print (thre : Nat → Bool) (d : Devices) (fragments : List (List Char)) : Devices :=
  print_str thre d (sent fragments)

section Devices

variable {thre : Nat → Bool} {d : Devices}

-- The cursor is on the screen, so no cell of a message is dropped by the bounds check.
def OnScreen (d : Devices) : Prop := d.row < HEIGHT ∧ d.col < WIDTH

theorem settle_onScreen (row col : Nat) : OnScreen (settle d row col) := by
  have hcol : (if col ≥ WIDTH then 0 else col) < WIDTH := by
    split
    · exact Nat.zero_lt_succ 79
    · omega
  by_cases hrow : (if col ≥ WIDTH then row + 1 else row) ≥ HEIGHT
  · rw [settle, if_pos hrow]
    exact ⟨Nat.lt_succ_self 24, hcol⟩
  · rw [settle, if_neg hrow]
    exact ⟨Nat.lt_of_not_ge hrow, hcol⟩

-- Every branch ends in `settle`.
theorem vga_byte_onScreen (b : UInt8) : OnScreen (vga_byte d b) := by
  unfold vga_byte
  split_ifs
  · exact settle_onScreen _ _
  · exact settle_onScreen _ _
  · exact settle_onScreen _ _
  · exact settle_onScreen _ _
  · exact settle_onScreen _ _

theorem serial_byte_cursor (b : UInt8) :
    (serial_byte thre d b).row = d.row ∧ (serial_byte thre d b).col = d.col := by
  unfold serial_byte
  split
  · exact ⟨rfl, rfl⟩
  · exact ⟨rfl, rfl⟩

theorem serial_onScreen (h : OnScreen d) (bytes : List UInt8) :
    OnScreen (bytes.foldl (serial_byte thre) d) := by
  induction bytes generalizing d with
  | nil => exact h
  | cons b bytes ih =>
      obtain ⟨hrow, hcol⟩ := @serial_byte_cursor thre d b
      exact ih ⟨hrow ▸ h.1, hcol ▸ h.2⟩

theorem vga_onScreen (h : OnScreen d) (bytes : List UInt8) : OnScreen (bytes.foldl vga_byte d) := by
  induction bytes generalizing d with
  | nil => exact h
  | cons b bytes ih => exact ih (vga_byte_onScreen b)

-- Whatever is printed, the cursor stays on the screen.
theorem print_onScreen (h : OnScreen d) (fragments : List (List Char)) :
    OnScreen (print thre d fragments) :=
  vga_onScreen (serial_onScreen h _) _

theorem vga_cell_wire (row col : Nat) (ascii attr : UInt8) :
    (vga_cell d row col ascii attr).wire = d.wire := by
  unfold vga_cell
  split
  · rfl
  · rfl

theorem settle_wire (row col : Nat) : (settle d row col).wire = d.wire := by
  unfold settle
  dsimp only
  split_ifs
  · rfl
  · rfl
  · rfl
  · rfl

theorem vga_byte_wire (b : UInt8) : (vga_byte d b).wire = d.wire := by
  unfold vga_byte
  split_ifs
  · exact settle_wire _ _
  · exact settle_wire _ _
  · exact (settle_wire _ _).trans (vga_cell_wire _ _ _ _)
  · exact settle_wire _ _
  · exact (settle_wire _ _).trans (vga_cell_wire _ _ _ _)

theorem vga_wire (bytes : List UInt8) : (bytes.foldl vga_byte d).wire = d.wire := by
  induction bytes generalizing d with
  | nil => rfl
  | cons b bytes ih => exact ih.trans (vga_byte_wire b)

theorem serial_wire (hok : d.serial_ok = true) (hthre : ∀ n, thre n = true) (bytes : List UInt8) :
    (bytes.foldl (serial_byte thre) d).wire = d.wire ++ bytes := by
  induction bytes generalizing d with
  | nil => exact (List.append_nil d.wire).symm
  | cons b bytes ih =>
      have hbyte : serial_byte thre d b =
          { d with offered := d.offered + 1, wire := d.wire ++ [b] } := by
        rw [serial_byte, if_pos hok, hthre]
        rfl
      have hlater : (bytes.foldl (serial_byte thre) (serial_byte thre d b)).wire =
          (serial_byte thre d b).wire ++ bytes := ih (by rw [hbyte]; exact hok)
      rw [List.foldl_cons, hlater, hbyte, List.append_assoc, List.singleton_append]

-- A working port carries the text with its line ends.
theorem print_wire (hok : d.serial_ok = true) (hthre : ∀ n, thre n = true)
    (fragments : List (List Char)) : (print thre d fragments).wire =
      d.wire ++ Serial.write_str (utf8 (sent fragments)) :=
  (vga_wire _).trans (serial_wire hok hthre _)

end Devices

namespace SliceWriter

variable {w : SliceWriter}

theorem copy_buf (bytes : List UInt8) : (w.copy bytes).buf = (w.buf ++ bytes).take CAPACITY := by
  have htake : bytes.take (min bytes.length w.room) = bytes.take w.room := by
    rw [Nat.min_comm, ← List.take_take, List.take_length]
  rw [List.take_append, List.take_of_length_le w.fits]
  exact congrArg (w.buf ++ ·) htake

-- The marker is copied into a full buffer, of which nothing is left.
theorem write_str_buf (s : List Char) : (w.write_str s).buf = (w.buf ++ utf8 s).take CAPACITY := by
  by_cases hcut : min (utf8 s).length w.room < (utf8 s).length
  · have hfull : ((w.buf ++ utf8 s).take CAPACITY).length = CAPACITY := by
      rw [List.length_take, List.length_append]
      simp only [room] at hcut
      omega
    rw [write_str, if_pos hcut, copy_buf, copy_buf, List.take_append, hfull, Nat.sub_self,
      List.take_zero, List.append_nil, List.take_take, Nat.min_self]
  · rw [write_str, if_neg hcut, copy_buf]

theorem take_take_append {n : Nat} (xs ys : List UInt8) :
    (xs.take n ++ ys).take n = (xs ++ ys).take n := by
  rw [List.take_append, List.take_append, List.take_take, Nat.min_self, List.length_take]
  by_cases h : n ≤ xs.length
  · rw [Nat.min_eq_left h, Nat.sub_self, Nat.sub_eq_zero_of_le h]
  · rw [Nat.min_eq_right (by omega)]

-- How the message is cut into fragments makes no difference.
theorem foldl_write_str_buf (fragments : List (List Char)) :
    (fragments.foldl write_str w).buf = (w.buf ++ utf8 fragments.flatten).take CAPACITY := by
  induction fragments generalizing w with
  | nil =>
      show w.buf = (w.buf ++ []).take CAPACITY
      rw [List.append_nil, List.take_of_length_le w.fits]
  | cons s fragments ih =>
      rw [List.foldl_cons, ih, write_str_buf, take_take_append, List.flatten_cons, utf8_append,
        List.append_assoc]

end SliceWriter

variable {fragments : List (List Char)}

theorem buffered_eq : buffered fragments = (utf8 fragments.flatten).take CAPACITY :=
  SliceWriter.foldl_write_str_buf fragments

-- The message comes out whole, or cut at a character with the marker behind it; the
-- placeholder is not sent.
def Delivered (fragments : List (List Char)) : Prop :=
  (from_utf8 (buffered fragments)).isSome ∧
    if (utf8 fragments.flatten).length ≤ CAPACITY then sent fragments = fragments.flatten
    else ∃ kept rest, fragments.flatten = kept ++ rest ∧ kept ≠ [] ∧
      sent fragments = kept ++ TRUNCATED

-- The message has the marker's own text where the buffer ends.
def EndsMarked (m : List Char) : Prop := ((utf8 m).drop 498).take 14 = utf8 TRUNCATED

instance (m : List Char) : Decidable (EndsMarked m) := inferInstanceAs (Decidable (_ = _))

theorem sent_of_utf8 {cs : List Char} (h : buffered fragments = utf8 cs) :
    from_utf8 (buffered fragments) = some cs ∧ sent fragments = cs := by
  have hread := from_utf8_eq_some_iff.mpr h
  exact ⟨hread, by rw [sent, hread, Option.getD_some]⟩

theorem buffered_of_short (h : (utf8 fragments.flatten).length ≤ CAPACITY) :
    buffered fragments = utf8 fragments.flatten := by
  rw [buffered_eq, List.take_of_length_le h]

theorem take_capacity (bytes : List UInt8) :
    bytes.take CAPACITY = bytes.take 498 ++ (bytes.drop 498).take 14 :=
  List.take_add (i := 498) (j := 14)

theorem Delivered.marked (h : Delivered fragments)
    (hlong : CAPACITY < (utf8 fragments.flatten).length) : EndsMarked fragments.flatten := by
  obtain ⟨hread, hsent⟩ := h
  rw [if_neg (Nat.not_le_of_lt hlong)] at hsent
  obtain ⟨kept, rest, -, -, hsent⟩ := hsent
  obtain ⟨cs, hcs⟩ := Option.isSome_iff_exists.mp hread
  have hbytes := from_utf8_eq_some_iff.mp hcs
  rw [sent, hcs, Option.getD_some] at hsent
  rw [hsent, utf8_append, buffered_eq, take_capacity] at hbytes
  have hmarker : (utf8 TRUNCATED).length = ((utf8 fragments.flatten).drop 498 |>.take 14).length := by
    rw [List.length_take, List.length_drop]
    simp only [CAPACITY] at hlong
    rw [Nat.min_eq_left (by omega)]
    rfl
  exact (List.append_inj' hbytes hmarker.symm).2

-- The marker's first byte is a full stop, so the message can be cut in front of it.
theorem EndsMarked.cut {m : List Char} (h : EndsMarked m) :
    ∃ kept rest, m = kept ++ rest ∧ utf8 kept = (utf8 m).take 498 := by
  have hback : (utf8 m).drop 498 = utf8 TRUNCATED ++ (utf8 m).drop 512 := by
    rw [← h, ← List.drop_drop (i := 14) (j := 498), List.take_append_drop]
  have hsplit : utf8 m = (utf8 m).take 498 ++ 46 :: (utf8 TRUNCATED.tail ++ (utf8 m).drop 512) :=
    calc utf8 m
      _ = (utf8 m).take 498 ++ (utf8 m).drop 498 := (List.take_append_drop 498 _).symm
      _ = (utf8 m).take 498 ++ (utf8 TRUNCATED ++ (utf8 m).drop 512) := by rw [hback]
      _ = (utf8 m).take 498 ++ 46 :: (utf8 TRUNCATED.tail ++ (utf8 m).drop 512) := rfl
  exact cut_before_ascii hsplit (by decide)

theorem delivered_of_marked (hlong : CAPACITY < (utf8 fragments.flatten).length)
    (h : EndsMarked fragments.flatten) : Delivered fragments := by
  obtain ⟨kept, rest, hkept, hfront⟩ := h.cut
  have hbuffered : buffered fragments = utf8 (kept ++ TRUNCATED) := by
    rw [buffered_eq, take_capacity, h, ← hfront, utf8_append]
  obtain ⟨hread, hsent⟩ := sent_of_utf8 hbuffered
  refine ⟨by rw [hread]; rfl, ?_⟩
  rw [if_neg (Nat.not_le_of_lt hlong)]
  refine ⟨kept, rest, hkept, ?_, hsent⟩
  rintro rfl
  have hlength := congrArg List.length hfront
  rw [List.length_take, Nat.min_eq_left ((by decide : 498 ≤ CAPACITY).trans hlong.le)] at hlength
  exact absurd hlength (by decide)

-- A message is delivered exactly if it fits, or happens to spell the marker where the
-- buffer ends: the marker itself never has room.
theorem delivered_iff (fragments : List (List Char)) : Delivered fragments ↔
    (utf8 fragments.flatten).length ≤ CAPACITY ∨ EndsMarked fragments.flatten := by
  by_cases hfits : (utf8 fragments.flatten).length ≤ CAPACITY
  · refine iff_of_true ?_ (.inl hfits)
    obtain ⟨hread, hsent⟩ := sent_of_utf8 (buffered_of_short hfits)
    refine ⟨by rw [hread]; rfl, ?_⟩
    rw [if_pos hfits]
    exact hsent
  · have hlong := Nat.lt_of_not_ge hfits
    refine ⟨fun h => .inr (h.marked hlong), fun h => ?_⟩
    exact delivered_of_marked hlong (h.resolve_left hfits)

-- What is sent of a longer message: the first 512 bytes and nothing behind them, or the
-- placeholder if they end inside a character.
theorem sent_long (hlong : CAPACITY < (utf8 fragments.flatten).length) :
    (∃ kept rest, fragments.flatten = kept ++ rest ∧ (utf8 kept).length = CAPACITY ∧
      sent fragments = kept) ∨
    ((∀ kept rest, fragments.flatten = kept ++ rest → (utf8 kept).length ≠ CAPACITY) ∧
      sent fragments = "<utf8 error>".toList) := by
  cases hread : from_utf8 (buffered fragments) with
  | some kept =>
      have hbytes := from_utf8_eq_some_iff.mp hread
      rw [buffered_eq] at hbytes
      have hlength := congrArg List.length hbytes
      rw [List.length_take, Nat.min_eq_left hlong.le] at hlength
      have hsplit : utf8 kept ++ (utf8 fragments.flatten).drop CAPACITY = utf8 fragments.flatten := by
        rw [← hbytes, List.take_append_drop]
      obtain ⟨rest, hrest⟩ := extends_of_utf8 hsplit
      exact .inl ⟨kept, rest, hrest, hlength.symm, by rw [sent, hread, Option.getD_some]⟩
  | none =>
      refine .inr ⟨fun kept rest hcut hlength => ?_, by rw [sent, hread, Option.getD_none]⟩
      have hbuffered : buffered fragments = utf8 kept := by
        rw [buffered_eq, hcut, utf8_append, ← hlength, List.take_left]
      rw [from_utf8_eq_some_iff.mpr hbuffered] at hread
      exact absurd hread (Option.some_ne_none kept)

theorem letter_bytes : String.utf8EncodeChar 'a' = [97] := rfl

def long_line : List Char := List.replicate 600 'a'

def accented_line : List Char := List.replicate 511 'a' ++ ['é']

theorem long_line_bytes : utf8 [long_line].flatten = List.replicate 600 97 := by
  rw [List.flatten_singleton, long_line, utf8_replicate letter_bytes]

theorem accented_line_bytes :
    utf8 [accented_line].flatten = List.replicate 511 97 ++ [0xC3, 0xA9] := by
  rw [List.flatten_singleton, accented_line, utf8_append, utf8_replicate letter_bytes]
  rfl

theorem accented_line_long : CAPACITY < (utf8 [accented_line].flatten).length := by
  rw [accented_line_bytes, List.length_append, List.length_replicate]
  decide

-- The buffer ends between the two bytes of the letter.
theorem accented_line_cut {kept rest : List Char} (h : [accented_line].flatten = kept ++ rest) :
    (utf8 kept).length ≠ CAPACITY := by
  intro hlength
  obtain rfl | ⟨rest, c, rfl⟩ := List.eq_nil_or_concat rest
  · have hlong := accented_line_long
    rw [h, List.append_nil, hlength] at hlong
    exact Nat.lt_irrefl _ hlong
  · rw [List.flatten_singleton, accented_line, List.concat_eq_append, ← List.append_assoc] at h
    have hkept := congrArg (fun cs => (utf8 cs).length) (List.append_inj_left' h rfl)
    simp only [utf8_append, utf8_replicate letter_bytes, List.length_append, List.length_replicate, hlength,
      CAPACITY] at hkept
    omega

-- One message is cut without a word about it, and one is lost for a letter on the edge.
theorem long_lines_not_delivered :
    (¬Delivered [long_line] ∧ sent [long_line] = List.replicate 512 'a') ∧
    ¬Delivered [accented_line] ∧ sent [accented_line] = "<utf8 error>".toList := by
  refine ⟨⟨?_, ?_⟩, ?_, ?_⟩
  · intro h
    have hmarked := h.marked (by rw [long_line_bytes, List.length_replicate]; decide)
    rw [EndsMarked, long_line_bytes, List.drop_replicate, List.take_replicate] at hmarked
    exact absurd hmarked (by decide)
  · refine (sent_of_utf8 ?_).2
    rw [buffered_eq, long_line_bytes, List.take_replicate, utf8_replicate letter_bytes]
    rfl
  · intro h
    have hmarked := h.marked accented_line_long
    rw [EndsMarked, accented_line_bytes, List.drop_append, List.drop_replicate] at hmarked
    exact absurd hmarked (by decide)
  · obtain ⟨kept, rest, hcut, hlength, -⟩ | ⟨-, hsent⟩ := sent_long accented_line_long
    · exact absurd hlength (accented_line_cut hcut)
    · exact hsent

end Orin.Console.Raw
