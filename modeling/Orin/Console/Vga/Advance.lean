import Mathlib.Data.List.Induction
import Orin.Console.Vga.Drawing
import Orin.Theory.Transducer

namespace Orin.Console.Vga

open Theory

namespace Print

-- In reading order.
def Before (p : Print) (line column : Nat) : Prop :=
  p.line < line ∨ p.line = line ∧ p.column < column

variable {p : Print} {line column line' column' : Nat}

theorem Before.mono (h : p.Before line column)
    (hle : line < line' ∨ line = line' ∧ column ≤ column') : p.Before line' column' := by
  rw [Before] at *
  omega

end Print

namespace VgaWriter

-- The byte leaves the cursor's line, or its column grows.
def Forward (w : VgaWriter) (byte : UInt8) : Prop :=
  (w.write_byte byte).line = w.line → w.column ≤ (w.write_byte byte).column

-- The byte is not a tab that finds the row full.
def NotTabAtEnd (w : VgaWriter) (byte : UInt8) : Prop := byte = 0x09 → w.column ≠ WIDTH

-- No two characters have gone to one place, and those on the screen are still there.
structure Legible (w : VgaWriter) : Prop where
  once : w.prints.Pairwise fun p q => p.line ≠ q.line ∨ p.column ≠ q.column
  shown : ∀ p ∈ w.prints, w.scrolls.length ≤ p.line →
    (w.screen ((p.line - w.scrolls.length) * WIDTH + p.column)).ascii = p.ascii

-- What carries it: everything stands before the cursor.
structure Ordered (w : VgaWriter) : Prop extends Legible w where
  behind : ∀ p ∈ w.prints, p.Before w.line w.column
  inside : ∀ p ∈ w.prints, p.column < WIDTH

variable {w : VgaWriter} {byte : UInt8}

theorem printed_line (w : VgaWriter) (ascii : UInt8) : (w.printed ascii).line = w.line := by
  rw [line, printed_scrolls]
  rfl

-- One character: to the right of the cursor's place, or on the next line.
theorem put_cursor (hw : Framed w) (ascii : UInt8) :
    (w.put ascii).line = w.line + 1 ∨
      (w.put ascii).line = w.line ∧ (w.put ascii).column = w.column + 1 := by
  have hcolumn := hw.column
  by_cases hfull : w.column = WIDTH
  · rw [put_of_full hfull, printed_line, new_line_line]
    exact .inl rfl
  · rw [put_of_room (by omega), printed_line]
    exact .inr ⟨rfl, rfl⟩

theorem forward_iff (hw : Framed w) (hreturn : byte ≠ 13) (hback : byte ≠ 0x08) :
    w.Forward byte ↔ w.NotTabAtEnd byte := by
  have hcolumn := hw.column
  have hmoves (h : w.Forward byte) (htab : byte ≠ 0x09) : w.Forward byte ↔ w.NotTabAtEnd byte :=
    ⟨fun _ heq => absurd heq htab, fun _ => h⟩
  rcases w.write_byte_cases byte with
    ⟨rfl, hb⟩ | ⟨hb, -⟩ | ⟨hb, -⟩ | ⟨rfl, hb⟩ | ⟨hcells, hb⟩ | ⟨hcells, hb⟩
  · refine hmoves ?_ (by decide)
    rw [Forward, hb, new_line_line]
    omega
  · exact absurd hb hreturn
  · exact absurd hb hback
  · rw [Forward, NotTabAtEnd, hb]
    have hstop : w.column ≤ min ((w.column + 8) / 8 * 8) (WIDTH - 1) ↔ w.column ≠ WIDTH := by
      simp only [WIDTH] at *
      omega
    exact ⟨fun h _ => hstop.mp (h rfl), fun h _ => hstop.mpr (h rfl)⟩
  · refine hmoves ?_ (ne_of_cells (by omega) rfl)
    have hfirst := put_cursor hw 94
    have hsecond := put_cursor (hw.put 94) (byte + 0x40)
    rw [Forward, hb]
    omega
  · refine hmoves ?_ (ne_of_cells (by omega) rfl)
    have hfirst := put_cursor hw byte
    rw [Forward, hb]
    omega

end VgaWriter

open VgaWriter

namespace VgaWriter.Ordered

variable {w : VgaWriter}

theorem quiet (w : VgaWriter) : Ordered w.quiet where
  once := .nil
  shown := fun _ hp => nomatch hp
  behind := fun _ hp => nomatch hp
  inside := fun _ hp => nomatch hp

theorem moved (h : Ordered w) {column : Nat} (hcolumn : w.column ≤ column) :
    Ordered { w with column := column } where
  once := h.once
  shown := h.shown
  behind := fun p hp => (h.behind p hp).mono (.inr ⟨rfl, hcolumn⟩)
  inside := h.inside

theorem new_line (h : Ordered w) (hw : Framed w) : Ordered w.new_line := by
  have hspec := w.new_line_spec
  have hrow := hw.row
  constructor
  case behind =>
    intro p hp
    rw [hspec.prints] at hp
    rw [new_line_line]
    exact (h.behind p hp).mono (.inl (Nat.lt_succ_self w.line))
  case inside =>
    rw [hspec.prints]
    exact h.inside
  constructor
  case once =>
    rw [hspec.prints]
    exact h.once
  case shown =>
    intro p hp
    rw [hspec.prints] at hp
    have hshown := h.shown p hp
    rw [hspec.scrolls, hspec.screen]
    split
    · exact hshown
    · -- The line is one row higher up after the scroll.
      have hbehind := h.behind p hp
      intro hon
      rw [List.length_append, List.length_singleton] at hon ⊢
      have hbelow : p.line - w.scrolls.length < HEIGHT := by
        rw [Print.Before, line] at hbehind
        omega
      have hcell := @shifted_row w.color w.screen _ _ (by omega) hbelow (h.inside p hp)
      rw [Nat.sub_sub] at hcell
      rw [hcell]
      exact hshown (by omega)

theorem printed (h : Ordered w) (hroom : w.column < WIDTH) (ascii : UInt8) :
    Ordered (w.printed ascii) := by
  have hline := w.printed_line ascii
  have hprints := w.printed_prints ascii
  constructor
  case behind =>
    rw [hprints, hline, List.forall_mem_append, List.forall_mem_singleton]
    have hnext : w.line < w.line ∨ w.line = w.line ∧ w.column ≤ w.column + 1 :=
      .inr ⟨rfl, Nat.le_succ w.column⟩
    exact ⟨fun p hp => (h.behind p hp).mono hnext, .inr ⟨rfl, Nat.lt_succ_self w.column⟩⟩
  case inside =>
    rw [hprints, List.forall_mem_append, List.forall_mem_singleton]
    exact ⟨h.inside, hroom⟩
  constructor
  case once =>
    rw [hprints, List.pairwise_append]
    refine ⟨h.once, List.pairwise_singleton _ _, ?_⟩
    intro p hp q hq
    have hbehind := h.behind p hp
    rw [List.mem_singleton.mp hq]
    rw [Print.Before] at hbehind
    show p.line ≠ w.line ∨ p.column ≠ w.column
    omega
  case shown =>
    rw [hprints, printed_scrolls, List.forall_mem_append, List.forall_mem_singleton]
    constructor
    · intro p hp hon
      have hbehind := h.behind p hp
      have hinside := h.inside p hp
      have hother : ¬(p.line - w.scrolls.length) * WIDTH + p.column = w.row * WIDTH + w.column := by
        rw [Print.Before, line] at hbehind
        rw [cell_inj hinside hroom]
        omega
      rw [printed_screen, if_neg hother]
      exact h.shown p hp hon
    · intro hon
      have hhere : w.line - w.scrolls.length = w.row := Nat.add_sub_cancel_left _ _
      rw [printed_screen, hhere, if_pos rfl]

theorem put (h : Ordered w) (hw : Framed w) (ascii : UInt8) : Ordered (w.put ascii) := by
  have hcolumn := hw.column
  by_cases hfull : w.column = WIDTH
  · rw [put_of_full hfull]
    apply (h.new_line hw).printed
    rw [w.new_line_spec.column]
    decide
  · rw [put_of_room (by omega)]
    exact h.printed (by omega) ascii

theorem write_byte (h : Ordered w) (hw : Framed w) {byte : UInt8} (hreturn : byte ≠ 13)
    (hback : byte ≠ 0x08) (htab : w.NotTabAtEnd byte) : Ordered (w.write_byte byte) := by
  rcases w.write_byte_cases byte with
    ⟨-, hb⟩ | ⟨hb, -⟩ | ⟨hb, -⟩ | ⟨rfl, hb⟩ | ⟨-, hb⟩ | ⟨-, hb⟩
  · rw [hb]
    exact h.new_line hw
  · exact absurd hb hreturn
  · exact absurd hb hback
  · have hforward := (forward_iff hw hreturn hback).mpr htab
    rw [Forward, hb] at hforward
    rw [hb]
    exact h.moved (hforward rfl)
  · rw [hb]
    exact (h.put hw 94).put (hw.put 94) (byte + 0x40)
  · rw [hb]
    exact h.put hw byte

end VgaWriter.Ordered

-- Only characters, newlines and tabs.
theorem write_bytes_ordered {w : VgaWriter} {bytes : List UInt8} (hw : Framed w) (hstart : Ordered w)
    (hbytes : ∀ byte ∈ bytes, byte ≠ 13 ∧ byte ≠ 0x08) (htabs : Along write_byte NotTabAtEnd w bytes) :
    Ordered (w.write_bytes bytes) := by
  induction bytes generalizing w with
  | nil => exact hstart
  | cons byte bytes ih =>
      obtain ⟨hreturn, hback⟩ := hbytes byte List.mem_cons_self
      exact ih (hw.write_byte byte) (hstart.write_byte hw hreturn hback htabs.1)
        (fun b hb => hbytes b (List.mem_cons_of_mem byte hb)) htabs.2

theorem forward_and_legible_iff (screen : Screen) (hw_cursor : Nat) (ops : List Op)
    (bytes : List UInt8) (hbytes : ∀ byte ∈ bytes, byte ≠ 13 ∧ byte ≠ 0x08) :
    Along write_byte Forward (session screen hw_cursor ops).quiet bytes ∧
        Legible ((session screen hw_cursor ops).quiet.write_bytes bytes) ↔
      Along write_byte NotTabAtEnd (session screen hw_cursor ops).quiet bytes := by
  have hw : Framed (session screen hw_cursor ops).quiet :=
    (session_invariant screen hw_cursor ops).quiet
  have hsteps := along_congr (I := Framed) (fun w byte hw => hw.write_byte byte)
    (fun w byte hw hbyte => forward_iff hw (hbytes byte hbyte).1 (hbytes byte hbyte).2) hw
  rw [hsteps]
  constructor
  · exact And.left
  · intro htabs
    exact ⟨htabs, (write_bytes_ordered hw (.quiet _) hbytes htabs).toLegible⟩

theorem forward_and_legible_tab :
    (∀ byte ∈ ([65, 9, 66] : List UInt8), byte ≠ 13 ∧ byte ≠ 0x08) ∧
      Along write_byte Forward (session (fun _ => ⟨32, .new .LightGray .Black⟩) 0 []).quiet [65, 9, 66] ∧
      Legible ((session (fun _ => ⟨32, .new .LightGray .Black⟩) 0 []).quiet.write_bytes [65, 9, 66]) := by
  have hbytes : ∀ byte ∈ ([65, 9, 66] : List UInt8), byte ≠ 13 ∧ byte ≠ 0x08 := by simp
  refine ⟨hbytes, (forward_and_legible_iff _ 0 [] [65, 9, 66] hbytes).mpr ?_⟩
  exact ⟨fun h => absurd h (by decide), fun _ => by decide, fun h => absurd h (by decide), trivial⟩

-- After a full row the tab goes back to its last column.
theorem tab_overwrites_full_row :
    (∀ byte ∈ List.replicate 80 (65 : UInt8) ++ [9, 66], byte ≠ 13 ∧ byte ≠ 0x08) ∧
    ¬(Along write_byte Forward (session (fun _ => ⟨32, .new .LightGray .Black⟩) 0 []).quiet
        (List.replicate 80 65 ++ [9, 66]) ∧
      Legible ((session (fun _ => ⟨32, .new .LightGray .Black⟩) 0 []).quiet.write_bytes
        (List.replicate 80 65 ++ [9, 66]))) := by
  refine ⟨?_, ?_⟩
  · intro byte hbyte
    rw [List.mem_append, List.mem_replicate, List.mem_pair] at hbyte
    rcases hbyte with ⟨-, rfl⟩ | rfl | rfl <;> decide
  rintro ⟨hforward, -⟩
  have hsplit : List.replicate 80 (65 : UInt8) ++ [9, 66] = List.replicate 80 65 ++ [9] ++ [66] := rfl
  rw [hsplit, along_snoc, along_snoc] at hforward
  have hroom := (forward_iff ((session_invariant _ 0 []).quiet.write_bytes _) (by decide)
    (by decide)).mp hforward.1.2 rfl
  exact hroom (by decide +kernel)

end Orin.Console.Vga
