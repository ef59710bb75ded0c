import Mathlib.Data.List.Infix
import Orin.Multiboot.Params
import Orin.Multiboot.Text
import Orin.Theory.Words

namespace Orin.Multiboot

open Rust Heapless Theory

section Fitting

variable {room : Nat} {cs ds : List Char}

theorem fitting_append (h : (utf8 cs).length ≤ room) :
    fitting room (cs ++ ds) = cs ++ fitting (room - (utf8 cs).length) ds := by
  induction cs generalizing room with
  | nil => rfl
  | cons c cs ih =>
      rw [utf8_cons, List.length_append] at h ⊢
      rw [List.cons_append, fitting, if_pos (by omega), ih (by omega), Nat.sub_sub]
      rfl

-- A text that does not fit is cut inside.
theorem fitting_overflow (h : room < (utf8 cs).length) :
    ∃ kept more, cs = kept ++ more ∧ more ≠ [] ∧ fitting room (cs ++ ds) = kept := by
  induction cs generalizing room with
  | nil => exact absurd h (Nat.not_lt_zero _)
  | cons c cs ih =>
      rw [utf8_cons, List.length_append] at h
      rw [List.cons_append, fitting]
      split
      · obtain ⟨kept, more, rfl, hmore, hkept⟩ := @ih (room - (String.utf8EncodeChar c).length) (by omega)
        exact ⟨c :: kept, more, rfl, hmore, by rw [hkept]⟩
      · exact ⟨[], c :: cs, rfl, by simp, rfl⟩

end Fitting

-- The command line in a tag with this content: up to its first NUL.
def line (content : List Char) : List Char := content.takeWhile (· ≠ '\x00')

def stored (content : List Char) : Str := text_of (utf8 content)

def interpreted (tok : String) : Bool := (strip_orin tok).isSome

-- The kernel acts on a sequence of whole tokens from the front of the command line.
def Faithful (content : List Char) : Prop :=
  ∃ toks, toks <+: split_ascii_whitespace (String.ofList (line content)) ∧
    parse_params (stored content).as_str = toks.foldl parse_token BootParams.default ∧
    (split_ascii_whitespace (stored content).as_str).filter interpreted = toks.filter interpreted

-- Every `orin.` token either ends within the first 191 bytes or has not got as far as its
-- dot there.
def Uncut (cs : List Char) : Prop :=
  ∀ lead tok tail, cs = lead ++ tok ++ tail → ClosedEnd is_ascii_whitespace lead →
    Solid is_ascii_whitespace tok → ClosedStart is_ascii_whitespace tail →
    "orin.".toList <+: tok → (utf8 (lead ++ tok)).length ≤ 191 ∨ 191 < (utf8 lead).length + 5

section Tokens

theorem split_ofList (cs : List Char) : split_ascii_whitespace (String.ofList cs) =
    (words is_ascii_whitespace cs).map String.ofList := by
  rw [split_ascii_whitespace, String.toList_ofList]
  rfl

theorem stored_as_str (content : List Char) :
    (stored content).as_str = String.ofList (fitting STR_CAP (line content)) := by
  rw [stored, text_of_as_str, readable, fromUTF8_utf8, Option.getD_some, String.toList_ofList]
  rfl

theorem interpreted_ofList (w : List Char) :
    interpreted (String.ofList w) = true ↔ "orin.".toList <+: w := by
  rw [interpreted, strip_orin, String.toList_ofList, ← List.isPrefixOf_iff_prefix]
  split <;> simp_all

theorem parse_token_skip {p : BootParams} {tok : String} (h : interpreted tok = false) :
    parse_token p tok = p := by
  have hnone : strip_orin tok = none := by simpa [interpreted] using h
  rw [parse_token, hnone]

end Tokens

section Cut

variable {content lead frag : List Char}

theorem orin_length : (utf8 "orin.".toList).length = 5 := by decide

theorem utf8_prefix_length {cs ds : List Char} (h : cs <+: ds) :
    (utf8 cs).length ≤ (utf8 ds).length := by
  obtain ⟨more, rfl⟩ := h
  rw [utf8_append, List.length_append]
  exact Nat.le_add_right _ _

-- The cut falls between two tokens.
theorem faithful_of_words (rest : List Char)
    (h : words is_ascii_whitespace (line content) =
      words is_ascii_whitespace (fitting STR_CAP (line content)) ++ words is_ascii_whitespace rest) :
    Faithful content := by
  refine ⟨split_ascii_whitespace (stored content).as_str, ?_, rfl, rfl⟩
  rw [stored_as_str, split_ofList, split_ofList, h, List.map_append]
  exact List.prefix_append _ _

-- The cut falls into a token, of which `frag` is kept.
theorem faithful_of_skipped (hkept : fitting STR_CAP (line content) = lead ++ frag)
    (hlead : ClosedEnd is_ascii_whitespace lead) (hsolid : Solid is_ascii_whitespace frag)
    (hne : frag ≠ []) (hskip : interpreted (String.ofList frag) = false) {others : List (List Char)}
    (hwords : words is_ascii_whitespace (line content) = words is_ascii_whitespace lead ++ others) :
    Faithful content := by
  have htokens : split_ascii_whitespace (stored content).as_str =
      (words is_ascii_whitespace lead).map String.ofList ++ [String.ofList frag] := by
    rw [stored_as_str, split_ofList, hkept, words_append_of_closedEnd hlead, words_solid hsolid hne,
      List.map_append, List.map_singleton]
  refine ⟨(words is_ascii_whitespace lead).map String.ofList, ?_, ?_, ?_⟩
  · rw [split_ofList, hwords, List.map_append]
    exact List.prefix_append _ _
  · rw [parse_params, htokens, List.foldl_append, List.foldl_cons, List.foldl_nil,
      parse_token_skip hskip]
  · rw [htokens, List.filter_append, List.filter_singleton, hskip]
    exact List.append_nil _

theorem faithful_of_uncut (h : Uncut (line content)) : Faithful content := by
  obtain ⟨rest, hrest, hcut⟩ := fitting_spec STR_CAP (line content)
  have hroom := fitting_length_le STR_CAP (line content)
  obtain ⟨lead, frag, hkept, hlead, hfrag⟩ :=
    exists_lead is_ascii_whitespace (fitting STR_CAP (line content))
  obtain ⟨more, tail, rfl, hmore, htail⟩ := exists_tail is_ascii_whitespace rest
  cases hm : more with
  | nil =>
      subst hm
      rw [List.nil_append] at hrest
      refine faithful_of_words tail ?_
      rw [← words_append_of_closedStart htail, hrest]
  | cons c others =>
      by_cases hf : frag = []
      · subst hf
        rw [List.append_nil] at hkept
        refine faithful_of_words (more ++ tail) ?_
        rw [← words_append_of_closedEnd (hkept ▸ hlead), hrest]
      · have hline : line content = lead ++ (frag ++ more) ++ tail := by
          rw [← hrest, hkept]
          simp only [List.append_assoc]
        have hsolid : Solid is_ascii_whitespace (frag ++ more) := fun d hd =>
          (List.mem_append.mp hd).elim (hfrag d) (hmore d)
        have hskip : interpreted (String.ofList frag) = false := by
          by_contra horin
          have hpre := (interpreted_ofList frag).mp (Bool.not_eq_false _ ▸ horin)
          have hover := hcut c (by rw [hm]; rfl)
          have hwhole := h lead (frag ++ more) tail hline hlead hsolid htail
            (hpre.trans (List.prefix_append _ _))
          have hfive := utf8_prefix_length hpre
          rw [orin_length] at hfive
          rw [hkept] at hover hroom
          rw [hm] at hwhole
          simp only [utf8_append, utf8_cons, List.length_append, STR_CAP] at hwhole hover hroom
          omega
        have hwords := words_between hlead hsolid (by simp [hf]) htail
        rw [← hline] at hwords
        exact faithful_of_skipped hkept hlead hfrag hf hskip hwords

theorem uncut_of_faithful (h : Faithful content) : Uncut (line content) := by
  intro lead tok tail hline hlead hsolid htail horin
  by_contra hno
  obtain ⟨hover, hstart⟩ := not_or.mp hno
  obtain ⟨tok', rfl⟩ := horin
  rw [← List.append_assoc, utf8_append, utf8_append, List.length_append, List.length_append,
    orin_length] at hover
  obtain ⟨kept, more, rfl, hmore, hkept⟩ := @fitting_overflow (STR_CAP - (utf8 lead).length - 5) tok' tail
    (by simp only [STR_CAP]; omega)
  have hfitting : fitting STR_CAP (line content) = lead ++ ("orin.".toList ++ kept) := by
    rw [hline, List.append_assoc, List.append_assoc, fitting_append (by simp only [STR_CAP]; omega),
      fitting_append (by rw [orin_length]; simp only [STR_CAP]; omega), orin_length, hkept]
  have hfrag : Solid is_ascii_whitespace ("orin.".toList ++ kept) := fun c hc =>
    hsolid c (by rw [← List.append_assoc]; exact List.mem_append_left _ hc)
  have horin : interpreted (String.ofList ("orin.".toList ++ kept)) = true :=
    (interpreted_ofList _).mpr (List.prefix_append _ _)
  have hwords := words_between hlead hsolid (by simp) htail
  rw [← hline] at hwords
  obtain ⟨toks, hpre, -, hfilter⟩ := h
  rw [stored_as_str, hfitting, split_ofList, words_append_of_closedEnd hlead,
    words_solid hfrag (by simp), List.map_append, List.filter_append, List.map_singleton,
    List.filter_singleton, horin] at hfilter
  rw [split_ofList, hwords, List.map_append, List.map_cons] at hpre
  -- The prefix stops before the cut token, or it has the whole of it.
  rcases List.prefix_or_prefix_of_prefix hpre (List.prefix_append _ _) with hshort | hlong
  · have hle := (hshort.sublist.filter interpreted).length_le
    rw [← hfilter, List.length_append] at hle
    exact Nat.not_succ_le_self _ hle
  · obtain ⟨later, rfl⟩ := hlong
    rw [List.filter_append] at hfilter
    have hlater := List.append_cancel_left hfilter
    cases later with
    | nil => simp at hlater
    | cons tok later =>
        have htok := (List.prefix_append_right_inj _).mp hpre
        obtain ⟨rfl, -⟩ := List.cons_prefix_cons.mp htok
        have hwhole : interpreted (String.ofList ("orin.".toList ++ (kept ++ more))) = true :=
          (interpreted_ofList _).mpr (List.prefix_append _ _)
        rw [List.filter_cons_of_pos hwhole] at hlater
        have heq : "orin.".toList ++ kept = "orin.".toList ++ (kept ++ more) :=
          String.ofList_injective (List.cons.inj hlater).1
        exact hmore (List.self_eq_append_right.mp (List.append_cancel_left heq))

end Cut

-- The kernel acts on whole tokens exactly when no `orin.` token is cut behind its dot.
theorem faithful_iff (content : List Char) : Faithful content ↔ Uncut (line content) :=
  ⟨uncut_of_faithful, faithful_of_uncut⟩

-- The last digit of a memory limit is the 192nd byte.
def long_line : List Char := List.replicate 174 ' ' ++ "orin.memlimit=1024\x00".toList

theorem memlimit_cut : (parse_params (stored long_line).as_str).mem_limit_mib = some 102 ∧
    (∀ toks, toks <+: split_ascii_whitespace (String.ofList (line long_line)) →
      (toks.foldl parse_token BootParams.default).mem_limit_mib ≠ some 102) ∧
    ¬ Faithful long_line := by
  have hstored : (parse_params (stored long_line).as_str).mem_limit_mib = some 102 := by
    rw [stored_as_str, parse_params, split_ofList]
    decide +kernel
  have hwhole : ∀ toks, toks <+: split_ascii_whitespace (String.ofList (line long_line)) →
      (toks.foldl parse_token BootParams.default).mem_limit_mib ≠ some 102 := by
    intro toks htoks
    have hall : ∀ toks ∈ ((words is_ascii_whitespace (line long_line)).map String.ofList).inits,
        (toks.foldl parse_token BootParams.default).mem_limit_mib ≠ some 102 := by
      decide +kernel
    rw [split_ofList] at htoks
    exact hall toks ((List.mem_inits _ _).mpr htoks)
  refine ⟨hstored, hwhole, fun ⟨toks, hpre, hparams, _⟩ => hwhole toks hpre ?_⟩
  rw [← hparams, hstored]

end Orin.Multiboot
