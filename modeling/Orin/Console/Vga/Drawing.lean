import Orin.Console.Vga

namespace Orin.Console.Vga

theorem cell_lt {row col : Nat} (hrow : row < HEIGHT) (hcol : col < WIDTH) :
    row * WIDTH + col < WIDTH * HEIGHT := by
  simp only [WIDTH, HEIGHT] at *
  omega

theorem cell_inj {row col row' col' : Nat} (hcol : col < WIDTH) (hcol' : col' < WIDTH) :
    row * WIDTH + col = row' * WIDTH + col' ↔ row = row' ∧ col = col' := by
  simp only [WIDTH] at *
  omega

-- The loops over the cells read and write inside the text buffer and do nothing else.
structure Drawn (w t : VgaWriter) : Prop where
  column : t.column = w.column
  row : t.row = w.row
  color : t.color = w.color
  scrolls : t.scrolls = w.scrolls
  prints : t.prints = w.prints
  accesses : ∀ i ∈ t.accesses, i ∈ w.accesses ∨ i < WIDTH * HEIGHT

-- The screen after a scroll: the characters of the row below in the colour of the writer.
def shifted (color : ColorCode) (screen : Screen) : Screen := fun i =>
  if i < (HEIGHT - 1) * WIDTH then ⟨(screen (i + WIDTH)).ascii, color⟩
  else if i < HEIGHT * WIDTH then ⟨32, color⟩
  else screen i

theorem shifted_row {color : ColorCode} {screen : Screen} {row col : Nat} (hlow : 1 ≤ row)
    (hrow : row < HEIGHT) (hcol : col < WIDTH) : shifted color screen ((row - 1) * WIDTH + col) =
      ⟨(screen (row * WIDTH + col)).ascii, color⟩ := by
  have hmoved : (row - 1) * WIDTH + col < (HEIGHT - 1) * WIDTH := by
    simp only [WIDTH, HEIGHT] at *
    omega
  have hsource : (row - 1) * WIDTH + col + WIDTH = row * WIDTH + col := by
    simp only [WIDTH]
    omega
  rw [shifted, if_pos hmoved, hsource]

-- The cells that a byte fills.
def cells (byte : UInt8) : Nat :=
  if byte = 10 ∨ byte = 13 ∨ byte = 0x08 ∨ byte = 0x09 then 0
  else if byte < 0x20 ∨ byte = 0x7F then 2
  else 1

theorem ne_of_cells {byte other : UInt8} (hcells : cells byte ≠ 0) (hother : cells other = 0) :
    byte ≠ other := by
  rintro rfl
  exact hcells hother

namespace VgaWriter

variable (w : VgaWriter)

theorem accesses_note (e : Event) : (w.note e).accesses = w.accesses ++ e.index.toList := by
  rw [accesses, note, List.filterMap_append, accesses, List.filterMap_cons, List.filterMap_nil]
  cases e.index <;> rfl

theorem scrolls_note (e : Event) : (w.note e).scrolls = w.scrolls ++ e.scrolled.toList := by
  rw [scrolls, note, List.filterMap_append, scrolls, List.filterMap_cons, List.filterMap_nil]
  cases e.scrolled <;> rfl

theorem prints_note (e : Event) : (w.note e).prints = w.prints ++ e.printed.toList := by
  rw [prints, note, List.filterMap_append, prints, List.filterMap_cons, List.filterMap_nil]
  cases e.printed <;> rfl

end VgaWriter

namespace Drawn

variable {w t u : VgaWriter} {α : Type}

theorem refl (w : VgaWriter) : Drawn w w := ⟨rfl, rfl, rfl, rfl, rfl, fun _ hi => .inl hi⟩

theorem trans (h₁ : Drawn w t) (h₂ : Drawn t u) : Drawn w u where
  column := h₂.column.trans h₁.column
  row := h₂.row.trans h₁.row
  color := h₂.color.trans h₁.color
  scrolls := h₂.scrolls.trans h₁.scrolls
  prints := h₂.prints.trans h₁.prints
  accesses := fun i hi => (h₂.accesses i hi).elim (h₁.accesses i) .inr

-- One access, with whatever it does to the cell.
theorem access {e : Event} {index : Nat} (he : e.index = some index) (h : index < WIDTH * HEIGHT)
    (screen : Screen) : Drawn w { w.note e with screen := screen } := by
  have hscrolled : e.scrolled = none := by cases e <;> first | rfl | exact nomatch he
  have hprinted : e.printed = none := by cases e <;> first | rfl | exact nomatch he
  refine ⟨rfl, rfl, rfl, ?_, ?_, ?_⟩
  · exact (w.scrolls_note e).trans (by rw [hscrolled, Option.toList_none, List.append_nil])
  · exact (w.prints_note e).trans (by rw [hprinted, Option.toList_none, List.append_nil])
  · intro i hi
    have hi : i ∈ w.accesses ++ e.index.toList := w.accesses_note e ▸ hi
    rw [he, Option.toList_some, List.mem_append, List.mem_singleton] at hi
    rcases hi with hi | rfl
    · exact .inl hi
    · exact .inr h

theorem write_cell {index : Nat} (h : index < WIDTH * HEIGHT) (ascii : UInt8) (color : ColorCode) :
    Drawn w (w.write_cell index ascii color) := access rfl h _

theorem read_cell {index : Nat} (h : index < WIDTH * HEIGHT) : Drawn w (w.read_cell index).2 :=
  access rfl h _

theorem foldl {f : VgaWriter → α → VgaWriter} {l : List α}
    (h : ∀ a ∈ l, ∀ w, Drawn w (f w a)) (w : VgaWriter) : Drawn w (l.foldl f w) := by
  induction l generalizing w with
  | nil => exact refl w
  | cons a l ih =>
      have hfirst : Drawn w (f w a) := h a List.mem_cons_self w
      exact hfirst.trans (ih (fun b hb => h b (List.mem_cons_of_mem a hb)) (f w a))

end Drawn

namespace VgaWriter

variable {w : VgaWriter} {base len row n i : Nat}

theorem blank_cells_drawn (h : base + len ≤ WIDTH * HEIGHT) : Drawn w (w.blank_cells base len) := by
  apply Drawn.foldl
  intro c hc w
  have hc : c < len := List.mem_range.mp hc
  exact .write_cell (by omega) 32 w.color

theorem blank_cells_succ : w.blank_cells base (len + 1) =
    (w.blank_cells base len).write_cell (base + len) 32 (w.blank_cells base len).color := by
  rw [blank_cells, List.range_succ, List.foldl_append]
  rfl

theorem blank_cells_color : (w.blank_cells base len).color = w.color := by
  induction len with
  | zero => rfl
  | succ len ih =>
      rw [blank_cells_succ]
      exact ih

theorem blank_cells_screen : (w.blank_cells base len).screen i =
    if base ≤ i ∧ i < base + len then ⟨32, w.color⟩ else w.screen i := by
  induction len with
  | zero => exact (if_neg (by omega)).symm
  | succ len ih =>
      rw [blank_cells_succ, blank_cells_color]
      by_cases hlast : i = base + len
      · rw [if_pos (by omega)]
        exact if_pos hlast
      · have hcell : (if base ≤ i ∧ i < base + (len + 1) then ⟨32, w.color⟩ else w.screen i) =
            if base ≤ i ∧ i < base + len then ⟨32, w.color⟩ else w.screen i :=
          if_congr (by omega) rfl rfl
        rw [hcell, ← ih]
        exact if_neg hlast

theorem clear_line_drawn (row : Nat) : Drawn w (w.clear_line row) := by
  rw [clear_line]
  split
  · exact .refl w
  · apply blank_cells_drawn
    simp only [WIDTH, HEIGHT] at *
    omega

theorem scroll_cell_drawn {col : Nat} (hrow : row < HEIGHT) (hcol : col < WIDTH) :
    Drawn w (scroll_cell row w col) := by
  have hread : row * WIDTH + col < WIDTH * HEIGHT := cell_lt hrow hcol
  have hwrite : (row - 1) * WIDTH + col < WIDTH * HEIGHT := cell_lt (by omega) hcol
  exact (Drawn.read_cell hread).trans (.write_cell hwrite _ _)

theorem scroll_row_drawn (hrow : row < HEIGHT) : Drawn w (w.scroll_row row) :=
  .foldl (fun _ hcol _ => scroll_cell_drawn hrow (List.mem_range.mp hcol)) w

theorem scroll_rows_drawn : Drawn w ((List.range' 1 (HEIGHT - 1)).foldl scroll_row w) := by
  apply Drawn.foldl
  intro row hrow w
  apply scroll_row_drawn
  have hrow := List.mem_range'_1.mp hrow
  simp only [HEIGHT] at *
  omega

theorem scroll_cells_succ : (List.range (n + 1)).foldl (scroll_cell row) w =
    scroll_cell row ((List.range n).foldl (scroll_cell row) w) n := by
  rw [List.range_succ, List.foldl_append]
  rfl

theorem scroll_cells_color : ((List.range n).foldl (scroll_cell row) w).color = w.color := by
  induction n with
  | zero => rfl
  | succ n ih =>
      rw [scroll_cells_succ]
      exact ih

-- The row above is the only one written, so each cell read is still the old one.
theorem scroll_cells_screen (hrow : 1 ≤ row) (hn : n ≤ WIDTH) :
    ((List.range n).foldl (scroll_cell row) w).screen i =
      if (row - 1) * WIDTH ≤ i ∧ i < (row - 1) * WIDTH + n then
        ⟨(w.screen (i + WIDTH)).ascii, w.color⟩ else w.screen i := by
  induction n generalizing i with
  | zero => exact (if_neg (by omega)).symm
  | succ n ih =>
      have hup : row * WIDTH = (row - 1) * WIDTH + WIDTH := by
        rw [← Nat.succ_mul, Nat.succ_eq_add_one, Nat.sub_add_cancel hrow]
      have ih := fun i => @ih i (by omega)
      rw [scroll_cells_succ]
      by_cases hlast : i = (row - 1) * WIDTH + n
      · have hsource : i + WIDTH = row * WIDTH + n := by omega
        have hread := ih (row * WIDTH + n)
        rw [if_neg (by omega)] at hread
        rw [if_pos (by omega), hsource, ← hread, ← scroll_cells_color]
        exact if_pos hlast
      · have hcell : (if (row - 1) * WIDTH ≤ i ∧ i < (row - 1) * WIDTH + (n + 1) then
            (⟨(w.screen (i + WIDTH)).ascii, w.color⟩ : Cell) else w.screen i) =
            if (row - 1) * WIDTH ≤ i ∧ i < (row - 1) * WIDTH + n then
              ⟨(w.screen (i + WIDTH)).ascii, w.color⟩ else w.screen i :=
          if_congr (by omega) rfl rfl
        rw [hcell, ← ih]
        exact if_neg hlast

theorem scroll_row_color : (w.scroll_row row).color = w.color := scroll_cells_color

theorem scroll_rows_succ : (List.range' 1 (n + 1)).foldl scroll_row w =
    ((List.range' 1 n).foldl scroll_row w).scroll_row (n + 1) := by
  rw [List.range'_1_concat, List.foldl_append, Nat.add_comm 1 n, List.foldl_cons, List.foldl_nil]

theorem scroll_rows_color : ((List.range' 1 n).foldl scroll_row w).color = w.color := by
  induction n with
  | zero => rfl
  | succ n ih => rw [scroll_rows_succ, scroll_row_color, ih]

-- The rows above the one at hand hold their new cells, the others their old ones.
theorem scroll_rows_screen : ((List.range' 1 n).foldl scroll_row w).screen i =
    if i < n * WIDTH then ⟨(w.screen (i + WIDTH)).ascii, w.color⟩ else w.screen i := by
  induction n generalizing i with
  | zero => exact (if_neg (by omega)).symm
  | succ n ih =>
      have hnext : (n + 1) * WIDTH = n * WIDTH + WIDTH := Nat.succ_mul n WIDTH
      rw [scroll_rows_succ, scroll_row, scroll_cells_screen (by omega) (Nat.le_refl WIDTH),
        scroll_rows_color, ih, ih, Nat.add_sub_cancel, hnext]
      by_cases hdone : i < n * WIDTH
      · rw [if_neg (by omega), if_pos hdone, if_pos (by omega)]
      · by_cases hhere : i < n * WIDTH + WIDTH
        · rw [if_pos (by omega), if_neg (by omega), if_pos hhere]
        · rw [if_neg (by omega), if_neg hdone, if_neg hhere]

theorem scroll_up_screen :
    (((List.range' 1 (HEIGHT - 1)).foldl scroll_row w).clear_line (HEIGHT - 1)).screen =
      shifted w.color w.screen := by
  funext i
  have hlast : ¬HEIGHT - 1 ≥ HEIGHT := by simp [HEIGHT]
  have hend : (HEIGHT - 1) * WIDTH + WIDTH = HEIGHT * WIDTH := rfl
  rw [clear_line, if_neg hlast, blank_cells_screen, scroll_rows_color, scroll_rows_screen, shifted,
    hend]
  by_cases hmoved : i < (HEIGHT - 1) * WIDTH
  · rw [if_neg (by omega), if_pos hmoved, if_pos hmoved]
  · by_cases hcleared : i < HEIGHT * WIDTH
    · rw [if_pos (by omega), if_neg hmoved, if_pos hcleared]
    · rw [if_neg (by omega), if_neg hmoved, if_neg hmoved, if_neg hcleared]

theorem scroll_up_drawn : ∃ t, Drawn w t ∧ t.screen = shifted w.color w.screen ∧
    w.scroll_up = t.note (.scroll ⟨w.color, w.screen, shifted w.color w.screen⟩) := by
  refine ⟨_, scroll_rows_drawn.trans (clear_line_drawn (HEIGHT - 1)), scroll_up_screen, ?_⟩
  rw [scroll_up, scroll_up_screen]

theorem read_cols_drawn (hrow : row < HEIGHT) {cols : List Nat} (hcols : ∀ c ∈ cols, c < WIDTH)
    {out : List UInt8} : Drawn w (cols.foldl (read_col row) (out, w)).2 := by
  induction cols generalizing w out with
  | nil => exact .refl w
  | cons c cols ih =>
      have hc : c < WIDTH := hcols c List.mem_cons_self
      exact (Drawn.read_cell (cell_lt hrow hc)).trans (ih fun c hc => hcols c (List.mem_cons_of_mem _ hc))

theorem new_line_of_lt (h : w.row < HEIGHT - 1) :
    w.new_line = { w with column := 0, row := w.row + 1 }.update_hw_cursor := by
  rw [new_line, if_pos h]

theorem new_line_of_not_lt (h : ¬w.row < HEIGHT - 1) : ∃ t, Drawn { w with column := 0 } t ∧
    t.screen = shifted w.color w.screen ∧
    w.new_line = (t.note (.scroll ⟨w.color, w.screen, shifted w.color w.screen⟩)).update_hw_cursor := by
  obtain ⟨t, hdrawn, hscreen, ht⟩ := @scroll_up_drawn { w with column := 0 }
  refine ⟨t, hdrawn, hscreen, ?_⟩
  rw [new_line, if_neg h, ht]

end VgaWriter

-- The cursor moves down, or on the last row the lines move up.
structure Advanced (w t : VgaWriter) : Prop where
  column : t.column = 0
  color : t.color = w.color
  prints : t.prints = w.prints
  row : t.row = if w.row < HEIGHT - 1 then w.row + 1 else w.row
  screen : t.screen = if w.row < HEIGHT - 1 then w.screen else shifted w.color w.screen
  scrolls : t.scrolls = if w.row < HEIGHT - 1 then w.scrolls else
    w.scrolls ++ [⟨w.color, w.screen, shifted w.color w.screen⟩]
  accesses : ∀ i ∈ t.accesses, i ∈ w.accesses ∨ i < WIDTH * HEIGHT

namespace VgaWriter

variable {w : VgaWriter}

theorem new_line_spec (w : VgaWriter) : Advanced w w.new_line := by
  by_cases h : w.row < HEIGHT - 1
  · rw [new_line_of_lt h]
    constructor
    case row | screen | scrolls => exact (if_pos h).symm
    case accesses => exact fun i hi => .inl hi
    all_goals rfl
  · obtain ⟨t, hdrawn, hscreen, ht⟩ := new_line_of_not_lt h
    rw [ht]
    constructor
    case column => exact hdrawn.column
    case color => exact hdrawn.color
    case prints => exact (t.prints_note _).trans ((List.append_nil _).trans hdrawn.prints)
    case row =>
      rw [if_neg h]
      exact hdrawn.row
    case screen =>
      rw [if_neg h]
      exact hscreen
    case scrolls =>
      rw [if_neg h]
      exact (t.scrolls_note _).trans (congrArg (· ++ _) hdrawn.scrolls)
    case accesses =>
      intro i hi
      have hsame : (t.note (.scroll ⟨w.color, w.screen, shifted w.color w.screen⟩)).accesses =
        t.accesses := (t.accesses_note _).trans (List.append_nil _)
      exact hdrawn.accesses i (hsame ▸ hi)

theorem new_line_line (w : VgaWriter) : w.new_line.line = w.line + 1 := by
  rw [line, line, w.new_line_spec.scrolls, w.new_line_spec.row]
  split
  · rfl
  · rw [List.length_append, List.length_singleton]
    omega

-- The wrap that `put` has deferred.
def wrapped (w : VgaWriter) : VgaWriter := if w.column ≥ WIDTH then w.new_line else w

theorem wrapped_column_lt : w.wrapped.column < WIDTH := by
  rw [wrapped]
  split
  · rw [w.new_line_spec.column]
    decide
  · omega

-- The cell at the cursor is written and the cursor moves on.
def printed (w : VgaWriter) (ascii : UInt8) : VgaWriter :=
  { (w.note (.print ⟨w.line, w.column, ascii⟩)).write_cell (w.row * WIDTH + w.column) ascii w.color with
    column := w.column + 1 }.update_hw_cursor

theorem put_eq (w : VgaWriter) (ascii : UInt8) : w.put ascii = w.wrapped.printed ascii := rfl

theorem printed_screen (w : VgaWriter) (ascii : UInt8) (i : Nat) : (w.printed ascii).screen i =
    if i = w.row * WIDTH + w.column then ⟨ascii, w.color⟩ else w.screen i := rfl

theorem put_of_room (hroom : w.column < WIDTH) (ascii : UInt8) : w.put ascii = w.printed ascii := by
  rw [put_eq, wrapped, if_neg (Nat.not_le.mpr hroom)]

theorem put_of_full (hfull : w.column = WIDTH) (ascii : UInt8) :
    w.put ascii = w.new_line.printed ascii := by
  rw [put_eq, wrapped, if_pos (Nat.le_of_eq hfull.symm)]

-- The arms of `write_byte`.
theorem write_byte_cases (w : VgaWriter) (byte : UInt8) :
    byte = 10 ∧ w.write_byte byte = w.new_line ∨
    byte = 13 ∧ w.write_byte byte = { w with column := 0 } ∨
    byte = 0x08 ∧ w.write_byte byte = w.backspace ∨
    byte = 0x09 ∧ w.write_byte byte =
      { w with column := min ((w.column + 8) / 8 * 8) (WIDTH - 1) } ∨
    (cells byte = 2 ∧ w.write_byte byte = (w.put 94).put (byte + 0x40)) ∨
    (cells byte = 1 ∧ w.write_byte byte = w.put byte) := by
  rw [write_byte, cells]
  split
  next h => exact .inl ⟨h, rfl⟩
  next hfeed =>
  split
  next h => exact .inr (.inl ⟨h, rfl⟩)
  next hreturn =>
  split
  next h => exact .inr (.inr (.inl ⟨h, rfl⟩))
  next hback =>
  split
  next h => exact .inr (.inr (.inr (.inl ⟨h, rfl⟩)))
  next htab =>
  have hcell : ¬(byte = 10 ∨ byte = 13 ∨ byte = 0x08 ∨ byte = 0x09) := by
    rintro (h | h | h | h)
    exacts [hfeed h, hreturn h, hback h, htab h]
  rw [if_neg hcell]
  split
  next h => exact .inr (.inr (.inr (.inr (.inl ⟨rfl, rfl⟩))))
  next h => exact .inr (.inr (.inr (.inr (.inr ⟨rfl, rfl⟩))))

theorem printed_log (w : VgaWriter) (ascii : UInt8) : (w.printed ascii).log =
    w.log ++ [.print ⟨w.line, w.column, ascii⟩, .write (w.row * WIDTH + w.column)] :=
  List.append_assoc w.log [.print ⟨w.line, w.column, ascii⟩] [.write (w.row * WIDTH + w.column)]

theorem printed_scrolls (w : VgaWriter) (ascii : UInt8) : (w.printed ascii).scrolls = w.scrolls := by
  rw [scrolls, printed_log, List.filterMap_append]
  exact List.append_nil _

theorem printed_prints (w : VgaWriter) (ascii : UInt8) :
    (w.printed ascii).prints = w.prints ++ [⟨w.line, w.column, ascii⟩] := by
  rw [prints, printed_log, List.filterMap_append]
  rfl

theorem printed_accesses (w : VgaWriter) (ascii : UInt8) :
    (w.printed ascii).accesses = w.accesses ++ [w.row * WIDTH + w.column] := by
  rw [accesses, printed_log, List.filterMap_append]
  rfl

end VgaWriter

-- What the raw accesses rely on.
structure Framed (w : VgaWriter) : Prop where
  row : w.row < HEIGHT
  column : w.column ≤ WIDTH
  accesses : ∀ i ∈ w.accesses, i < WIDTH * HEIGHT

namespace Framed

variable {w t : VgaWriter}

theorem drawn (h : Framed w) (hdrawn : Drawn w t) : Framed t := by
  refine ⟨hdrawn.row ▸ h.row, hdrawn.column ▸ h.column, ?_⟩
  intro i hi
  exact (hdrawn.accesses i hi).elim (h.accesses i) id

theorem moved (h : Framed w) {row column : Nat} (hrow : row < HEIGHT) (hcolumn : column ≤ WIDTH) :
    Framed { w with column := column, row := row } := ⟨hrow, hcolumn, h.accesses⟩

theorem quiet (h : Framed w) : Framed w.quiet := ⟨h.row, h.column, fun _ hi => nomatch hi⟩

theorem update_hw_cursor (h : Framed w) : Framed w.update_hw_cursor :=
  ⟨h.row, h.column, h.accesses⟩

theorem new_line (h : Framed w) : Framed w.new_line := by
  have hspec := w.new_line_spec
  constructor
  case row =>
    have hrow := h.row
    rw [hspec.row]
    split <;> omega
  case column =>
    rw [hspec.column]
    exact Nat.zero_le WIDTH
  case accesses => exact fun i hi => (hspec.accesses i hi).elim (h.accesses i) id

theorem put (h : Framed w) (ascii : UInt8) : Framed (w.put ascii) := by
  have hwrapped : Framed w.wrapped := by
    rw [VgaWriter.wrapped]
    split
    · exact h.new_line
    · exact h
  have hcolumn : w.wrapped.column < WIDTH := VgaWriter.wrapped_column_lt
  rw [VgaWriter.put_eq]
  refine ⟨hwrapped.row, hcolumn, ?_⟩
  intro i hi
  rw [VgaWriter.printed_accesses, List.mem_append, List.mem_singleton] at hi
  rcases hi with hi | rfl
  · exact hwrapped.accesses i hi
  · exact cell_lt hwrapped.row hcolumn

theorem erase (h : Framed w) (hcolumn : w.column < WIDTH) : Framed w.erase :=
  (h.drawn (.write_cell (cell_lt h.row hcolumn) 32 w.color)).update_hw_cursor

-- The cursor comes from the right, or from the row below.
theorem backspace (h : Framed w) : Framed w.backspace := by
  have hrow := h.row
  have hcolumn := h.column
  have hlast : WIDTH - 1 < WIDTH := by decide
  rw [VgaWriter.backspace]
  split
  · have hleft : w.column - 1 < WIDTH := by omega
    exact (h.moved hrow (Nat.le_of_lt hleft)).erase hleft
  · split
    · have hup : w.row - 1 < HEIGHT := by omega
      exact (h.moved hup (Nat.le_of_lt hlast)).erase hlast
    · exact h

theorem write_byte (h : Framed w) (byte : UInt8) : Framed (w.write_byte byte) := by
  have hzero : 0 ≤ WIDTH := Nat.zero_le WIDTH
  have hstop : min ((w.column + 8) / 8 * 8) (WIDTH - 1) ≤ WIDTH :=
    Nat.le_trans (Nat.min_le_right _ _) (Nat.sub_le WIDTH 1)
  rcases w.write_byte_cases byte with ⟨-, hb⟩ | ⟨-, hb⟩ | ⟨-, hb⟩ | ⟨-, hb⟩ | ⟨-, hb⟩ | ⟨-, hb⟩
  all_goals rw [hb]
  · exact h.new_line
  · exact h.moved h.row hzero
  · exact h.backspace
  · exact h.moved h.row hstop
  · exact (h.put 94).put (byte + 0x40)
  · exact h.put byte

theorem write_bytes (h : Framed w) (bytes : List UInt8) : Framed (w.write_bytes bytes) := by
  induction bytes generalizing w with
  | nil => exact h
  | cons byte bytes ih => exact ih (h.write_byte byte)

theorem clear_screen (h : Framed w) : Framed w.clear_screen := by
  have hblank : Framed (w.blank_cells 0 (WIDTH * HEIGHT)) :=
    h.drawn (VgaWriter.blank_cells_drawn (by omega))
  exact hblank.moved (by decide) (Nat.zero_le WIDTH)

theorem put_at (h : Framed w) (row col : Nat) (ascii : UInt8) : Framed (w.put_at row col ascii) := by
  rw [VgaWriter.put_at]
  split
  next hin => exact h.drawn (.write_cell (cell_lt hin.1 hin.2) ascii w.color)
  next hout => exact h

theorem read_row (h : Framed w) (row : Nat) : Framed (w.read_row row).2 := by
  rw [VgaWriter.read_row]
  split
  next hrow => exact h.drawn (VgaWriter.read_cols_drawn hrow fun c hc => List.mem_range.mp hc)
  next hrow => exact h

theorem run (h : Framed w) (op : Op) : Framed (op.run w) := by
  cases op with
  | init => exact h.clear_screen.update_hw_cursor
  | clear_screen => exact h.clear_screen
  | clear_line row => exact h.drawn (VgaWriter.clear_line_drawn row)
  | write_byte byte => exact h.write_byte byte
  | write_str s => exact h.write_bytes _
  | put_at row col ascii => exact h.put_at row col ascii
  | read_row row => exact h.read_row row
  | set_color fg bg => exact ⟨h.row, h.column, h.accesses⟩

end Framed

theorem session_invariant (screen : Screen) (hw_cursor : Nat) (ops : List Op) :
    Framed (session screen hw_cursor ops) := by
  have hnew : Framed (.new screen hw_cursor) :=
    ⟨Nat.zero_lt_succ 24, Nat.zero_le 80, fun _ hi => nomatch hi⟩
  exact List.foldlRecOn ops Op.run hnew fun w hw op _ => hw.run op

-- Every state between two calls, and every index on the way there.
theorem session_framed (screen : Screen) (hw_cursor : Nat) (ops : List Op) :
    (session screen hw_cursor ops).row < 25 ∧ (session screen hw_cursor ops).column ≤ 80 ∧
      ∀ index ∈ (session screen hw_cursor ops).accesses, index < 2000 := by
  have hrun : Framed (session screen hw_cursor ops) := session_invariant screen hw_cursor ops
  exact ⟨hrun.row, hrun.column, hrun.accesses⟩

end Orin.Console.Vga
