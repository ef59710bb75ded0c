import Mathlib.Data.List.Induction
import Orin.Console.Vga.Drawing
import Orin.Theory.Rows

namespace Orin.Console.Vga

open Rust Theory

-- The screen as `read_row` gives it out.
def grid (w : VgaWriter) : List (List UInt8) :=
  (List.range HEIGHT).map fun row => (w.read_row row).1

def reference (text : List UInt8) : List (List UInt8) :=
  page HEIGHT WIDTH 32 (rows WIDTH (· == 10) text)

def Plain (byte : UInt8) : Prop := byte = 10 ∨ 0x20 ≤ byte ∧ byte ≤ 0x7E

-- The cursor stands behind the last of the rows, and the screen ends with that row.
structure Shows (w : VgaWriter) (done : List (List UInt8)) (last : List UInt8) : Prop where
  row : w.row = min done.length (HEIGHT - 1)
  column : w.column = last.length
  cells : ∀ r < HEIGHT, ∀ c < WIDTH, (w.screen (r * WIDTH + c)).ascii =
    glyph 32 (done ++ [last]) (done.length - (HEIGHT - 1) + r) c

namespace VgaWriter

variable {w : VgaWriter} {row n : Nat} {out : List UInt8}

theorem read_cols_succ : (List.range (n + 1)).foldl (read_col row) (out, w) =
    read_col row ((List.range n).foldl (read_col row) (out, w)) n := by
  rw [List.range_succ, List.foldl_append, List.foldl_cons, List.foldl_nil]

theorem read_cols_screen : ((List.range n).foldl (read_col row) (out, w)).2.screen = w.screen := by
  induction n with
  | zero => rfl
  | succ n ih =>
      rw [read_cols_succ]
      exact ih

-- The columns read so far, and what `out` held behind them.
theorem read_cols_fst (hn : n ≤ out.length) : ((List.range n).foldl (read_col row) (out, w)).1 =
    ((List.range n).map fun c => (w.screen (row * WIDTH + c)).ascii) ++ out.drop n := by
  induction n with
  | zero => rfl
  | succ n ih =>
      have hread : (read_col row ((List.range n).foldl (read_col row) (out, w)) n).1 =
          ((List.range n).foldl (read_col row) (out, w)).1.set n
            (((List.range n).foldl (read_col row) (out, w)).2.screen (row * WIDTH + n)).ascii := rfl
      obtain ⟨old, hold⟩ : ∃ old, out.drop n = old :: out.drop (n + 1) :=
        ⟨_, List.drop_eq_getElem_cons (by omega)⟩
      rw [read_cols_succ, hread, read_cols_screen, ih (by omega), List.range_succ, List.map_append,
        List.append_assoc, List.set_append_right _ _ (by simp), hold]
      simp

theorem read_row_fst (hrow : row < HEIGHT) : (w.read_row row).1 =
    (List.range WIDTH).map fun c => (w.screen (row * WIDTH + c)).ascii := by
  rw [read_row, if_pos hrow, read_cols_fst (by simp), List.drop_of_length_le (by simp),
    List.append_nil]

theorem write_bytes_append (bytes more : List UInt8) :
    w.write_bytes (bytes ++ more) = (w.write_bytes bytes).write_bytes more := List.foldl_append

theorem write_byte_plain {byte : UInt8} (h : Plain byte) :
    w.write_byte byte = if byte = 10 then w.new_line else w.put byte := by
  rcases h with rfl | ⟨hlow, hhigh⟩
  · rfl
  · have hne (b : UInt8) (hb : b < 0x20) : byte ≠ b := fun heq => UInt8.not_lt.mpr hlow (heq ▸ hb)
    have hmarker : ¬(byte < 0x20 ∨ byte = 0x7F) := by
      rintro (hctl | rfl)
      · exact UInt8.not_lt.mpr hlow hctl
      · exact absurd hhigh (by decide)
    rw [write_byte, if_neg (hne 10 (by decide)), if_neg (hne 13 (by decide)),
      if_neg (hne 0x08 (by decide)), if_neg (hne 0x09 (by decide)), if_neg hmarker,
      if_neg (hne 10 (by decide))]

-- One call for each fragment, or one for all of them.
theorem write_str_flatten (fragments : List (List Char)) :
    fragments.foldl write_str w = w.write_str fragments.flatten := by
  induction fragments generalizing w with
  | nil => rfl
  | cons s fragments ih =>
      rw [List.foldl_cons, ih, List.flatten_cons, write_str, write_str, write_str, utf8_append,
        List.map_append, write_bytes_append]

theorem write_str_plain {s : List Char} (h : ∀ byte ∈ utf8 s, Plain byte) :
    w.write_str s = w.write_bytes (utf8 s) := by
  have hascii : (utf8 s).map (fun byte => if byte < 0x80 then byte else 63) = utf8 s := by
    refine (List.map_congr_left fun byte hbyte => ?_).trans (List.map_id _)
    apply if_pos
    rcases h byte hbyte with rfl | ⟨-, hhigh⟩
    · decide
    · exact UInt8.lt_of_le_of_lt hhigh (by decide)
  rw [write_str, hascii]

end VgaWriter

namespace Shows

variable {w : VgaWriter} {done : List (List UInt8)} {last : List UInt8}

theorem init (w : VgaWriter) : Shows w.init [] [] := by
  refine ⟨rfl, rfl, ?_⟩
  intro r hr c hc
  have hcell : w.init.screen (r * WIDTH + c) = (w.blank_cells 0 (WIDTH * HEIGHT)).screen (r * WIDTH + c) := by
    rw [VgaWriter.init, VgaWriter.clear_screen, VgaWriter.update_hw_cursor]
  rw [hcell, VgaWriter.blank_cells_screen, if_pos (by simp only [WIDTH, HEIGHT] at *; omega),
    glyph_snoc_nil, glyph_below (Nat.zero_le _)]

theorem new_line (h : Shows w done last) : Shows w.new_line (done ++ [last]) [] := by
  have hrow := h.row
  have hspec := w.new_line_spec
  have hlength : (done ++ [last]).length = done.length + 1 := by
    rw [List.length_append, List.length_singleton]
  refine ⟨?_, hspec.column, ?_⟩
  · rw [hspec.row, hlength]
    split <;> omega
  · intro r hr c hc
    rw [hspec.screen, glyph_snoc_nil, hlength]
    split
    · -- The lines above the cursor's fill less than the screen.
      rw [h.cells r hr c hc]
      congr 1
      omega
    · by_cases hlast : r < HEIGHT - 1
      · have hmoved := @shifted_row w.color w.screen (r + 1) c (Nat.le_add_left 1 r) (by omega) hc
        rw [Nat.add_sub_cancel] at hmoved
        rw [hmoved, h.cells (r + 1) (by omega) c hc]
        congr 1
        omega
      · have hcleared : ¬r * WIDTH + c < (HEIGHT - 1) * WIDTH ∧ r * WIDTH + c < HEIGHT * WIDTH := by
          simp only [WIDTH, HEIGHT] at *
          omega
        rw [shifted, if_neg hcleared.1, if_pos hcleared.2, glyph_below (by omega)]

theorem printed (h : Shows w done last) (hroom : last.length < WIDTH) (x : UInt8) :
    Shows (w.printed x) done (last ++ [x]) := by
  refine ⟨h.row, ?_, ?_⟩
  · rw [List.length_append, ← h.column]
    rfl
  · intro r hr c hc
    have hplace : r * WIDTH + c = w.row * WIDTH + w.column ↔
        done.length - (HEIGHT - 1) + r = done.length ∧ c = last.length := by
      rw [cell_inj hc (h.column ▸ hroom), h.row, h.column]
      omega
    rw [VgaWriter.printed_screen, glyph_snoc]
    by_cases hhere : r * WIDTH + c = w.row * WIDTH + w.column
    · rw [if_pos hhere, if_pos (hplace.mp hhere)]
    · rw [if_neg hhere, if_neg (mt hplace.mpr hhere)]
      exact h.cells r hr c hc

end Shows

-- The rows of the text are what is shown.
def ShowsRows (w : VgaWriter) (rs : List (List UInt8)) : Prop :=
  ∃ done last, rs = done ++ [last] ∧ Shows w done last

theorem ShowsRows.put {w : VgaWriter} {rs rs' : List (List UInt8)} {x : UInt8} (h : ShowsRows w rs)
    (hgrown : Grown WIDTH x rs rs') : ShowsRows (w.put x) rs' := by
  obtain ⟨done, last, rfl, hshows⟩ := h
  obtain ⟨done', last', hsame, hcase⟩ := hgrown
  obtain ⟨rfl, hlast⟩ := List.append_inj' hsame rfl
  obtain rfl := List.singleton_inj.mp hlast
  rw [VgaWriter.put_eq, VgaWriter.wrapped]
  rcases hcase with ⟨hroom, rfl⟩ | ⟨hfull, rfl⟩
  · rw [if_neg (by rw [hshows.column]; omega)]
    exact ⟨done, last ++ [x], rfl, hshows.printed hroom x⟩
  · rw [if_pos (by rw [hshows.column]; omega)]
    exact ⟨done ++ [last], [x], rfl, hshows.new_line.printed (by decide) x⟩

theorem ShowsRows.write_byte {w : VgaWriter} {text : List UInt8} {byte : UInt8}
    (h : ShowsRows w (rows WIDTH (· == 10) text)) (hbyte : Plain byte) :
    ShowsRows (w.write_byte byte) (rows WIDTH (· == 10) (text ++ [byte])) := by
  rw [VgaWriter.write_byte_plain hbyte]
  split
  next hsep =>
    obtain ⟨done, last, hrows, hshows⟩ := h
    rw [rows_snoc_sep (by simpa using hsep), hrows]
    exact ⟨done ++ [last], [], rfl, hshows.new_line⟩
  next hsep => exact h.put (rows_snoc (by decide) (by simpa using hsep))

theorem ShowsRows.write_bytes (w : VgaWriter) {text : List UInt8} (h : ∀ byte ∈ text, Plain byte) :
    ShowsRows (w.init.write_bytes text) (rows WIDTH (· == 10) text) := by
  induction text using List.reverseRecOn with
  | nil => exact ⟨[], [], rows_nil, .init w⟩
  | append_singleton text byte ih =>
      rw [VgaWriter.write_bytes_append]
      exact (ih fun b hb => h b (List.mem_append_left _ hb)).write_byte
        (h byte (List.mem_append_right _ List.mem_cons_self))

theorem ShowsRows.grid {w : VgaWriter} {rs : List (List UInt8)} (h : ShowsRows w rs)
    (hrs : ∀ row ∈ rs, row.length ≤ WIDTH) : grid w = page HEIGHT WIDTH 32 rs := by
  obtain ⟨done, last, rfl, hshows⟩ := h
  have hbase : (done ++ [last]).length - HEIGHT = done.length - (HEIGHT - 1) := by
    rw [List.length_append, List.length_singleton]
    simp only [HEIGHT]
    omega
  rw [page_eq_map hrs, hbase, Vga.grid]
  apply List.map_congr_left
  intro r hr
  have hr : r < HEIGHT := List.mem_range.mp hr
  rw [VgaWriter.read_row_fst hr]
  apply List.map_congr_left
  intro c hc
  exact hshows.cells r hr c (List.mem_range.mp hc)

theorem grid_write_bytes (w : VgaWriter) {text : List UInt8} (h : ∀ byte ∈ text, Plain byte) :
    grid (w.init.write_bytes text) = reference text :=
  (ShowsRows.write_bytes w h).grid fun _ hrow => length_le_of_mem_rows (by decide) hrow

theorem grid_eq_reference (w : VgaWriter) (text : List UInt8) (h : ∀ byte ∈ text, Plain byte) :
    grid (w.init.write_bytes text) = reference text ∧
      ∀ fragments : List (List Char), utf8 fragments.flatten = text →
        grid (fragments.foldl VgaWriter.write_str w.init) = reference text := by
  refine ⟨grid_write_bytes w h, ?_⟩
  rintro fragments rfl
  rw [VgaWriter.write_str_flatten, VgaWriter.write_str_plain h]
  exact grid_write_bytes w h

-- A full row with its newline leaves no blank row behind it.
theorem grid_eq_reference_full_row :
    (∀ byte ∈ List.replicate 80 65 ++ [10, 66], Plain byte) ∧
      grid ((VgaWriter.new (fun _ => ⟨0, ⟨0⟩⟩) 0).init.write_bytes (List.replicate 80 65 ++ [10, 66])) =
        List.replicate 80 65 :: (66 :: List.replicate 79 32) ::
          List.replicate 23 (List.replicate 80 32) := by
  have hplain : ∀ byte ∈ List.replicate 80 65 ++ [10, 66], Plain byte := by
    intro byte hbyte
    rw [List.mem_append, List.mem_replicate] at hbyte
    rcases hbyte with ⟨-, rfl⟩ | hbyte
    · exact .inr (by decide)
    · rcases List.mem_pair.mp hbyte with rfl | rfl
      · exact .inl rfl
      · exact .inr (by decide)
  have hrows : rows WIDTH (· == 10) (List.replicate 80 (65 : UInt8) ++ [10, 66]) =
      [List.replicate 80 65, [66]] := by
    have hlines : (List.replicate 80 (65 : UInt8) ++ [10, 66]).splitOnP (· == 10) =
      [List.replicate 80 65, [66]] := by decide
    rw [rows, hlines, List.flatMap_cons, List.flatMap_singleton, wrap_short (by decide),
      wrap_short (by decide)]
    rfl
  refine ⟨hplain, (grid_eq_reference _ _ hplain).1.trans ?_⟩
  rw [reference, hrows]
  decide +kernel

end Orin.Console.Vga
