import Mathlib.Algebra.GroupWithZero.Nat

namespace Orin.Rust

-- The bytes of a `str`.
def utf8 (cs : List Char) : List UInt8 := cs.flatMap String.utf8EncodeChar

theorem utf8_cons (c : Char) (cs : List Char) : utf8 (c :: cs) = String.utf8EncodeChar c ++ utf8 cs :=
  List.flatMap_cons

theorem utf8_append (cs ds : List Char) : utf8 (cs ++ ds) = utf8 cs ++ utf8 ds :=
  List.flatMap_append

theorem utf8_length (cs : List Char) :
    (utf8 cs).length = (cs.map fun c => (String.utf8EncodeChar c).length).sum := by
  rw [utf8, List.length_flatMap]

theorem utf8_replicate {c : Char} {b : UInt8} (h : String.utf8EncodeChar c = [b]) (n : Nat) :
    utf8 (List.replicate n c) = List.replicate n b := by
  induction n with
  | zero => rfl
  | succ n ih => rw [List.replicate_succ, utf8_cons, ih, h, List.replicate_succ, List.singleton_append]

theorem utf8_eq_nil_iff {cs : List Char} : utf8 cs = [] ↔ cs = [] := by
  cases cs with
  | nil => exact iff_of_true rfl rfl
  | cons c cs => simp [utf8_cons, String.utf8EncodeChar_ne_nil]

theorem toArray_utf8 (cs : List Char) : (⟨(utf8 cs).toArray⟩ : ByteArray) = cs.utf8Encode := by
  apply ByteArray.ext
  rw [List.utf8Encode, List.data_toByteArray]
  rfl

theorem fromUTF8_utf8 (cs : List Char) :
    String.fromUTF8? ⟨(utf8 cs).toArray⟩ = some (String.ofList cs) := by
  rw [String.fromUTF8?, toArray_utf8, dif_pos ByteArray.isValidUTF8_utf8Encode]
  rfl

-- `core::str::from_utf8`.
def from_utf8 (bytes : List UInt8) : Option (List Char) :=
  (String.fromUTF8? ⟨bytes.toArray⟩).map String.toList

theorem from_utf8_utf8 (cs : List Char) : from_utf8 (utf8 cs) = some cs := by
  rw [from_utf8, fromUTF8_utf8, Option.map_some, String.toList_ofList]

-- Only the encoding of a text is read as that text.
theorem from_utf8_eq_some_iff {bytes : List UInt8} {cs : List Char} :
    from_utf8 bytes = some cs ↔ bytes = utf8 cs := by
  refine ⟨fun h => ?_, fun h => h ▸ from_utf8_utf8 cs⟩
  rw [from_utf8, Option.map_eq_some_iff] at h
  obtain ⟨s, hs, rfl⟩ := h
  rw [String.fromUTF8?] at hs
  split at hs
  · have hencoded : (⟨(utf8 s.toList).toArray⟩ : ByteArray) = ⟨bytes.toArray⟩ := by
      rw [toArray_utf8, String.utf8Encode_toList, ← Option.some.inj hs]
      rfl
    exact (congrArg (fun b : ByteArray => b.data.toList) hencoded).symm
  · exact absurd hs (Option.some_ne_none s).symm

-- Every byte of a longer encoding has its high bit set.
theorem ascii_encoding {c : Char} {b : UInt8} (hmem : b ∈ String.utf8EncodeChar c)
    (hb : b.toNat < 0x80) : String.utf8EncodeChar c = [b] := by
  have hhigh : ∀ v : Nat, 0x80 ≤ v → v < 256 → b ≠ UInt8.ofNat v := by
    intro v hle hlt heq
    rw [heq, UInt8.toNat_ofNat_of_lt' hlt] at hb
    omega
  unfold String.utf8EncodeChar at hmem ⊢
  dsimp only at hmem ⊢
  split at hmem
  · rw [List.mem_singleton] at hmem
    rw [if_pos (by assumption), hmem]
  · exfalso
    split at hmem
    · simp only [List.mem_cons, List.not_mem_nil, or_false] at hmem
      obtain h | h := hmem
      · exact hhigh _ (by omega) (by omega) h
      · exact hhigh _ (by omega) (by omega) h
    · split at hmem
      · simp only [List.mem_cons, List.not_mem_nil, or_false] at hmem
        obtain h | h | h := hmem
        · exact hhigh _ (by omega) (by omega) h
        · exact hhigh _ (by omega) (by omega) h
        · exact hhigh _ (by omega) (by omega) h
      · simp only [List.mem_cons, List.not_mem_nil, or_false] at hmem
        obtain h | h | h | h := hmem
        · exact hhigh _ (by omega) (by omega) h
        · exact hhigh _ (by omega) (by omega) h
        · exact hhigh _ (by omega) (by omega) h
        · exact hhigh _ (by omega) (by omega) h

-- A line feed is no part of any other character's encoding.
theorem ten_not_mem_utf8EncodeChar {c : Char} (h : c ≠ '\n') :
    (10 : UInt8) ∉ String.utf8EncodeChar c := by
  intro hmem
  have hsame : utf8 [c] = utf8 ['\n'] := by
    rw [utf8_cons, ascii_encoding hmem (by decide)]
    rfl
  have hread := from_utf8_utf8 [c]
  rw [hsame, from_utf8_utf8] at hread
  exact h (List.cons.inj (Option.some.inj hread)).1.symm

-- An ASCII byte starts a character, so a text can be cut in front of it.
theorem cut_before_ascii {cs : List Char} {front back : List UInt8} {b : UInt8}
    (h : utf8 cs = front ++ b :: back) (hb : b.toNat < 0x80) :
    ∃ kept rest, cs = kept ++ rest ∧ utf8 kept = front := by
  induction cs generalizing front with
  | nil => exact absurd h.symm (List.append_ne_nil_of_right_ne_nil _ (List.cons_ne_nil b back))
  | cons c cs ih =>
      rw [utf8_cons, List.append_eq_append_iff] at h
      obtain ⟨front', hfront, hcs⟩ | ⟨inside, hc, hback⟩ := h
      · obtain ⟨kept, rest, rfl, hkept⟩ := ih hcs
        exact ⟨c :: kept, rest, rfl, by rw [utf8_cons, hkept, hfront]⟩
      · -- the byte is one of `c`'s own, or comes right behind them
        cases inside with
        | nil =>
            exact ⟨[c], cs, rfl, by rw [utf8_cons, hc, List.append_nil]; exact List.append_nil _⟩
        | cons b' inside =>
            obtain ⟨rfl, -⟩ := List.cons.inj hback
            have hone := ascii_encoding (hc ▸ List.mem_append_right front List.mem_cons_self) hb
            rw [hone] at hc
            cases front with
            | nil => exact ⟨[], c :: cs, rfl, rfl⟩
            | cons b' front => simp at hc

-- No encoding starts another, so the bytes of a text determine its characters from the left.
theorem extends_of_utf8 {cs ds : List Char} {back : List UInt8} (h : utf8 cs ++ back = utf8 ds) :
    ∃ rest, ds = cs ++ rest := by
  induction cs generalizing ds with
  | nil => exact ⟨ds, rfl⟩
  | cons c cs ih =>
      rw [utf8_cons, List.append_assoc] at h
      cases ds with
      | nil => exact absurd h (List.append_ne_nil_of_left_ne_nil String.utf8EncodeChar_ne_nil _)
      | cons d ds =>
          rw [utf8_cons] at h
          have hdecode := congrArg (fun bytes : List UInt8 => bytes.toByteArray.utf8DecodeChar? 0) h
          simp only [List.toByteArray_append, ByteArray.utf8DecodeChar?_utf8EncodeChar_append] at hdecode
          obtain rfl := Option.some.inj hdecode
          obtain ⟨rest, rfl⟩ := ih (List.append_cancel_left h)
          exact ⟨rest, rfl⟩

end Orin.Rust
