import Mathlib.Data.List.Induction
import Orin.Console.Vga.Drawing
import Orin.Theory.Transducer

namespace Orin.Console.Vga

open Orin.Log Rust Theory

-- Each cell of the rows below the first one is one row higher up afterwards.
def Scroll.Keeps (s : Scroll) : Prop :=
  ∀ row col, 1 ≤ row → row < HEIGHT → col < WIDTH →
    s.after ((row - 1) * WIDTH + col) = s.before (row * WIDTH + col)

-- All of those cells have the colour.
def Uniform (color : ColorCode) (screen : Screen) : Prop :=
  ∀ row col, 1 ≤ row → row < HEIGHT → col < WIDTH → (screen (row * WIDTH + col)).color = color

namespace VgaWriter

-- Before the byte: either it does not scroll, or the cells that will move up have the
-- writer's colour. One of a marker's two cells may be filled first.
def Ready (w : VgaWriter) (byte : UInt8) : Prop :=
  w.row = HEIGHT - 1 → (byte = 10 ∨ WIDTH < w.column + cells byte) →
    ∀ row col, 1 ≤ row → row < HEIGHT → col < WIDTH → (byte = 10 ∨ row < w.row ∨ col < w.column) →
      (w.screen (row * WIDTH + col)).color = w.color

def Kept (w : VgaWriter) : Prop := ∀ s ∈ w.scrolls, s.Keeps

variable {w : VgaWriter} {byte : UInt8}

theorem forall_below_congr {P Q : Nat → Nat → Prop}
    (h : ∀ row col, 1 ≤ row → row < HEIGHT → col < WIDTH → (P row col ↔ Q row col)) :
    (∀ row col, 1 ≤ row → row < HEIGHT → col < WIDTH → P row col) ↔
      ∀ row col, 1 ≤ row → row < HEIGHT → col < WIDTH → Q row col := by
  constructor
  · intro hP row col hlow hrow hcol
    exact (h row col hlow hrow hcol).mp (hP row col hlow hrow hcol)
  · intro hQ row col hlow hrow hcol
    exact (h row col hlow hrow hcol).mpr (hQ row col hlow hrow hcol)

theorem shifted_keeps_iff {color : ColorCode} {screen : Screen} :
    Scroll.Keeps ⟨color, screen, shifted color screen⟩ ↔ Uniform color screen := by
  apply forall_below_congr
  intro row col hlow hrow hcol
  show shifted color screen ((row - 1) * WIDTH + col) = screen (row * WIDTH + col) ↔ _
  rw [shifted_row hlow hrow hcol]
  constructor
  · intro h
    exact (congrArg Cell.color h).symm
  · intro h
    rw [← h]

theorem new_line_kept (hrow : w.row < HEIGHT) :
    w.new_line.Kept ↔ w.Kept ∧ (w.row = HEIGHT - 1 → Uniform w.color w.screen) := by
  rw [Kept, w.new_line_spec.scrolls]
  split
  next hroom => exact ⟨fun h => ⟨h, fun hlast => by omega⟩, And.left⟩
  next hroom =>
    have hlast : w.row = HEIGHT - 1 := by omega
    rw [List.forall_mem_append, List.forall_mem_singleton, shifted_keeps_iff]
    exact and_congr_right fun _ => ⟨fun h _ => h, fun h => h hlast⟩

theorem printed_kept : (w.printed byte).Kept ↔ w.Kept := by
  rw [Kept, printed_scrolls, Kept]

theorem put_kept (hw : Framed w) : (w.put byte).Kept ↔
    w.Kept ∧ (w.row = HEIGHT - 1 → w.column = WIDTH → Uniform w.color w.screen) := by
  have hcolumn := hw.column
  rw [put_eq, printed_kept, wrapped]
  split
  next hfull =>
    have hfull : w.column = WIDTH := by omega
    rw [new_line_kept hw.row]
    exact and_congr_right fun _ => imp_congr_right fun _ => ⟨fun h _ => h, fun h => h hfull⟩
  next hroom => exact ⟨fun h => ⟨h, fun _ hfull => by omega⟩, And.left⟩

theorem printed_uniform (hcolumn : w.column < WIDTH) (ascii : UInt8) :
    Uniform (w.printed ascii).color (w.printed ascii).screen ↔
      ∀ row col, 1 ≤ row → row < HEIGHT → col < WIDTH → (row ≠ w.row ∨ col ≠ w.column) →
        (w.screen (row * WIDTH + col)).color = w.color := by
  apply forall_below_congr
  intro row col hlow hr hc
  rw [printed_screen]
  split
  next hhere =>
    have hhere := (cell_inj hc hcolumn).mp hhere
    exact ⟨fun _ hother => by omega, fun _ => rfl⟩
  next hother =>
    have hother : row ≠ w.row ∨ col ≠ w.column := by
      rw [cell_inj hc hcolumn] at hother
      omega
    exact ⟨fun h _ => h, fun h => h hother⟩

-- The second half of a marker wraps where the first one has filled the last cell.
theorem marker_kept (hw : Framed w) (hcells : cells byte = 2) (hfeed : byte ≠ 10) (ascii : UInt8) :
    ((w.put 94).put ascii).Kept ↔ w.Kept ∧ w.Ready byte := by
  have hcolumn := hw.column
  have hrow := hw.row
  rw [put_kept (hw.put 94), put_kept hw, and_assoc]
  apply and_congr_right
  intro hkept
  rw [Ready, hcells]
  by_cases hfull : w.column = WIDTH
  · have hnext : (w.put 94).column ≠ WIDTH := by
      rw [put_of_full hfull]
      show w.new_line.column + 1 ≠ WIDTH
      rw [w.new_line_spec.column]
      decide
    constructor
    · rintro ⟨huniform, -⟩ hlast - row col hlow hr hc -
      exact huniform hlast hfull row col hlow hr hc
    · intro hready
      refine ⟨?_, fun _ hcol => absurd hcol hnext⟩
      intro hlast _ row col hlow hr hc
      exact hready hlast (.inr (by omega)) row col hlow hr hc (.inr (by omega))
  · have hroom : w.column < WIDTH := by omega
    rw [put_of_room hroom, printed_uniform hroom]
    show _ ∧ (w.row = HEIGHT - 1 → w.column + 1 = WIDTH → _) ↔ _
    constructor
    · rintro ⟨-, huniform⟩ hlast hwrap row col hlow hr hc hother
      have hwrap := hwrap.resolve_left hfeed
      have hother := hother.resolve_left hfeed
      exact huniform hlast (by omega) row col hlow hr hc (by omega)
    · intro hready
      refine ⟨fun _ hcol => absurd hcol hfull, ?_⟩
      intro hlast hwrap row col hlow hr hc hother
      exact hready hlast (.inr (by omega)) row col hlow hr hc (.inr (by omega))

theorem glyph_kept (hw : Framed w) (hcells : cells byte = 1) (hfeed : byte ≠ 10) (ascii : UInt8) :
    (w.put ascii).Kept ↔ w.Kept ∧ w.Ready byte := by
  have hcolumn := hw.column
  rw [put_kept hw, Ready, hcells]
  apply and_congr_right
  intro hkept
  constructor
  · intro huniform hlast hwrap row col hlow hr hc _
    have hwrap := hwrap.resolve_left hfeed
    exact huniform hlast (by omega) row col hlow hr hc
  · intro hready hlast hfull row col hlow hr hc
    exact hready hlast (.inr (by omega)) row col hlow hr hc (.inr (by omega))

-- A byte that fills no cell and feeds no line cannot scroll.
theorem ready_of_still (hw : Framed w) (hcells : cells byte = 0) (hfeed : byte ≠ 10) : w.Ready byte := by
  have hcolumn := hw.column
  intro hlast hwrap
  have hwrap := hwrap.resolve_left hfeed
  omega

theorem backspace_scrolls : w.backspace.scrolls = w.scrolls := by
  have herase (w : VgaWriter) : w.erase.scrolls = w.scrolls :=
    (w.scrolls_note (.write (w.row * WIDTH + w.column))).trans (List.append_nil _)
  rw [backspace]
  split
  · exact herase _
  · split
    · exact herase _
    · rfl

theorem feed_kept (hw : Framed w) : w.new_line.Kept ↔ w.Kept ∧ w.Ready 10 := by
  rw [new_line_kept hw.row]
  apply and_congr_right
  intro hkept
  constructor
  · intro huniform hlast _ row col hlow hr hc _
    exact huniform hlast row col hlow hr hc
  · intro hready hlast row col hlow hr hc
    exact hready hlast (.inl rfl) row col hlow hr hc (.inl rfl)

theorem write_byte_kept (hw : Framed w) (byte : UInt8) :
    (w.write_byte byte).Kept ↔ w.Kept ∧ w.Ready byte := by
  have hstill (hcells : cells byte = 0) (hfeed : byte ≠ 10)
      (hscrolls : (w.write_byte byte).scrolls = w.scrolls) :
      (w.write_byte byte).Kept ↔ w.Kept ∧ w.Ready byte := by
    rw [Kept, hscrolls]
    exact (and_iff_left (ready_of_still hw hcells hfeed)).symm
  rcases w.write_byte_cases byte with
    ⟨rfl, hb⟩ | ⟨rfl, hb⟩ | ⟨rfl, hb⟩ | ⟨rfl, hb⟩ | ⟨hcells, hb⟩ | ⟨hcells, hb⟩
  · rw [hb]
    exact feed_kept hw
  · exact hstill rfl (by decide) rfl
  · exact hstill rfl (by decide) (hb ▸ backspace_scrolls)
  · exact hstill rfl (by decide) rfl
  · rw [hb]
    exact marker_kept hw hcells (ne_of_cells (by omega) rfl) (byte + 0x40)
  · rw [hb]
    exact glyph_kept hw hcells (ne_of_cells (by omega) rfl) byte

-- Nothing is on record at the start; each byte adds what it scrolls.
theorem write_bytes_kept (hw : Framed w) (hstart : w.Kept) (bytes : List UInt8) :
    (w.write_bytes bytes).Kept ↔ Along write_byte Ready w bytes := by
  induction bytes using List.reverseRecOn with
  | nil => exact ⟨fun _ => trivial, fun _ => hstart⟩
  | append_singleton bytes byte ih =>
      rw [along_snoc, ← ih]
      rw [write_bytes, List.foldl_append]
      exact write_byte_kept (hw.write_bytes bytes) byte

end VgaWriter

theorem scroll_kept_iff (screen : Screen) (hw_cursor : Nat) (ops : List Op) (bytes : List UInt8) :
    (∀ s ∈ ((session screen hw_cursor ops).quiet.write_bytes bytes).scrolls, s.Keeps) ↔
      Along VgaWriter.write_byte VgaWriter.Ready (session screen hw_cursor ops).quiet bytes :=
  VgaWriter.write_bytes_kept (session_invariant screen hw_cursor ops).quiet
    (fun _ hs => nomatch hs) bytes

-- A line in the colour of a warning, and the newline after the colour has been set back.
theorem scroll_recolours_warning : ¬∀ s ∈ ((session (fun _ => ⟨32, .new .LightGray .Black⟩) 0
    (List.replicate 24 (.write_byte 10) ++
      [.set_color .Yellow .Black, .write_byte 120, .set_color .LightGray .Black])).quiet.write_bytes
    [10]).scrolls, s.Keeps := by
  intro hkept
  have hready := (VgaWriter.write_bytes_kept (session_invariant _ _ _).quiet
    (fun _ hs => nomatch hs) [10]).mp hkept
  have hcolor := hready.1 rfl (.inl rfl) 24 0 (by decide) (by decide) (by decide) (.inl rfl)
  exact absurd hcolor (by decide)

end Orin.Console.Vga
