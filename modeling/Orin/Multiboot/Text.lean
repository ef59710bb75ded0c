import Mathlib.Data.List.Induction
import Orin.Multiboot.Info
import Orin.Rust.Utf8

namespace Orin.Multiboot

open Rust Heapless

-- The characters of a text that fit into `room` bytes: all of them up to the first that
-- does not.
def fitting : Nat → List Char → List Char
  | _, [] => []
  | room, c :: cs =>
      if (String.utf8EncodeChar c).length ≤ room then
        c :: fitting (room - (String.utf8EncodeChar c).length) cs
      else []

theorem fitting_length_le (room : Nat) (cs : List Char) : (utf8 (fitting room cs)).length ≤ room := by
  induction cs generalizing room with
  | nil => exact Nat.zero_le _
  | cons c cs ih =>
      rw [fitting]
      split
      · have hrest := ih (room - (String.utf8EncodeChar c).length)
        rw [utf8_cons, List.length_append]
        omega
      · exact Nat.zero_le _

-- The cut falls at the first character for which there is no room.
theorem fitting_spec (room : Nat) (cs : List Char) : ∃ rest, fitting room cs ++ rest = cs ∧
    ∀ c ∈ rest.head?, room < (utf8 (fitting room cs)).length + (String.utf8EncodeChar c).length := by
  induction cs generalizing room with
  | nil => exact ⟨[], rfl, by simp⟩
  | cons c cs ih =>
      rw [fitting]
      split
      · rename_i hfits
        obtain ⟨rest, hrest, hcut⟩ := ih (room - (String.utf8EncodeChar c).length)
        refine ⟨rest, by rw [List.cons_append, hrest], fun d hd => ?_⟩
        have hd' := hcut d hd
        rw [utf8_cons, List.length_append]
        omega
      · rename_i hfits
        refine ⟨c :: cs, rfl, fun d hd => ?_⟩
        obtain rfl : c = d := Option.some.inj hd
        show room < 0 + _
        omega

theorem fitting_isPrefix (room : Nat) (cs : List Char) : fitting room cs <+: cs := by
  obtain ⟨rest, hrest, -⟩ := fitting_spec room cs
  exact ⟨rest, hrest⟩

-- No longer beginning of the text fits.
theorem fitting_longest {room : Nat} {cs longer : List Char} (hlonger : longer <+: cs)
    (hfits : (utf8 longer).length ≤ room) : longer <+: fitting room cs := by
  induction cs generalizing room longer with
  | nil => exact hlonger
  | cons c cs ih =>
      cases longer with
      | nil => exact List.nil_prefix
      | cons d longer =>
          obtain ⟨rfl, hrest⟩ := List.cons_prefix_cons.mp hlonger
          rw [utf8_cons, List.length_append] at hfits
          rw [fitting, if_pos (by omega)]
          exact List.cons_prefix_cons.mpr ⟨rfl, ih hrest (by omega)⟩

namespace Heapless.Str

theorem push_chars_buf (s : Str) (cs : List Char) :
    (s.push_chars cs).buf = s.buf ++ utf8 (fitting (STR_CAP - s.len) cs) := by
  induction cs generalizing s with
  | nil => exact (List.append_nil _).symm
  | cons c cs ih =>
      have hlen : s.len ≤ STR_CAP := s.len_le
      rw [push_chars, fitting]
      by_cases hfits : s.len + (String.utf8EncodeChar c).length > STR_CAP
      · rw [dif_pos hfits, if_neg (by omega)]
        exact (List.append_nil _).symm
      · rw [dif_neg hfits, ih, if_pos (by omega), utf8_cons, ← List.append_assoc]
        have hroom : STR_CAP - (s.buf ++ String.utf8EncodeChar c).length =
            STR_CAP - s.len - (String.utf8EncodeChar c).length := by
          rw [List.length_append, len]
          omega
        rw [len, hroom]

-- Every string built by pushing onto a new one holds whole characters.
theorem pushed_text (texts : List String) :
    ∃ content, (texts.foldl push_str new).buf = utf8 content := by
  induction texts using List.reverseRecOn with
  | nil => exact ⟨[], rfl⟩
  | append_singleton texts text ih =>
      obtain ⟨content, hcontent⟩ := ih
      rw [List.foldl_append, List.foldl_cons, List.foldl_nil, push_str, push_chars_buf, hcontent,
        ← utf8_append]
      exact ⟨_, rfl⟩

theorem as_str_of_buf {s : Str} {content : List Char} (h : s.buf = utf8 content) :
    s.as_str = String.ofList content := by
  rw [as_str, h, fromUTF8_utf8]
  rfl

theorem pushed_as_str (texts : List String) :
    String.fromUTF8? ⟨(texts.foldl push_str new).buf.toArray⟩ =
      some (texts.foldl push_str new).as_str := by
  obtain ⟨content, hcontent⟩ := pushed_text texts
  rw [as_str_of_buf hcontent, hcontent, fromUTF8_utf8]

theorem push_str_appends_longest (texts : List String) (text : String) :
    (texts.foldl push_str new).len ≤ 191 ∧
    String.fromUTF8? ⟨(texts.foldl push_str new).buf.toArray⟩ =
      some (texts.foldl push_str new).as_str ∧
    ∃ kept, kept <+: text.toList ∧
      ((texts.foldl push_str new).push_str text).buf = (texts.foldl push_str new).buf ++ utf8 kept ∧
      (texts.foldl push_str new).len + (utf8 kept).length ≤ 191 ∧
      ∀ longer, longer <+: text.toList →
        (texts.foldl push_str new).len + (utf8 longer).length ≤ 191 → longer <+: kept := by
  have hlen : (texts.foldl push_str new).len ≤ STR_CAP := (texts.foldl push_str new).len_le
  have hroom := fitting_length_le (STR_CAP - (texts.foldl push_str new).len) text.toList
  simp only [STR_CAP] at hlen hroom
  refine ⟨hlen, pushed_as_str texts, _, fitting_isPrefix _ _, push_chars_buf _ _, ?_, ?_⟩
  · simp only [STR_CAP]
    omega
  · intro longer hlonger hfits
    apply fitting_longest hlonger
    simp only [STR_CAP]
    omega

theorem push_str_new (text : String) :
    (new.push_str text).as_str = String.ofList (fitting STR_CAP text.toList) := by
  have hbuf : (new.push_str text).buf = utf8 (fitting STR_CAP text.toList) :=
    push_chars_buf new text.toList
  exact as_str_of_buf hbuf

end Heapless.Str

-- The text of a tag body: up to its first NUL, and a marker for bytes that are no text.
def readable (body : List UInt8) : List Char :=
  ((String.fromUTF8? ⟨body.toArray⟩).getD "<non-utf8>").toList.takeWhile (· ≠ '\x00')

-- What is kept of it: the longest run of whole characters in 191 bytes.
def Shown (body : List UInt8) (s : Str) : Prop :=
  ∃ kept rest, kept ++ rest = readable body ∧ s.as_str = String.ofList kept ∧
    (utf8 kept).length ≤ 191 ∧
    ∀ c ∈ rest.head?, 191 < (utf8 kept).length + (String.utf8EncodeChar c).length

theorem text_of_as_str (body : List UInt8) :
    (text_of body).as_str = String.ofList (fitting STR_CAP (readable body)) := by
  rw [text_of, Str.push_str_new, trim_nul, String.toList_ofList]
  rfl

theorem text_of_shown (body : List UInt8) : Shown body (text_of body) := by
  obtain ⟨rest, hrest, hcut⟩ := fitting_spec STR_CAP (readable body)
  exact ⟨_, rest, hrest, text_of_as_str body, fitting_length_le _ _, hcut⟩

end Orin.Multiboot
