import Orin.Multiboot.Cut

namespace Orin.Multiboot

open Rust Heapless Theory

-- The values that the documentation gives for a key.
def accepts (key val : String) : Bool :=
  key = "log" ∧ (Log.Level.parse val).isSome ∨ key = "console" ∧ (Log.Target.parse val).isSome ∨
    key = "selftest" ∧ (val = "on" ∨ val = "off") ∨ key = "nx" ∧ (val = "on" ∨ val = "off") ∨
    key = "panic" ∧ (val = "halt" ∨ val = "reboot" ∨ val = "triple") ∨
    key = "memlimit" ∧ (parse_u64 val).isSome

-- A setting, spelled as documented.
def recognised (tok : String) : Bool :=
  match strip_orin tok with
  | none => false
  | some rest => rest = "single" ∨ accepts (key_value rest).1 (key_value rest).2

def key_of (tok : String) : Option String := (strip_orin tok).map fun rest => (key_value rest).1

-- The keys whose value is not checked.
def UNCHECKED : List String := ["selftest", "panic", "single", "nx"]

def unchecked (tok : String) : Bool := (key_of tok).any (· ∈ UNCHECKED)

-- The record of an operator's mistakes, as the comment in `apply_params` wants it.
def TyposRecorded (cmdline : String) : Prop :=
  (parse_params cmdline).unknown.as_str =
    " ".intercalate ((split_ascii_whitespace cmdline).filter fun tok =>
      interpreted tok && !recognised tok)

-- What the code records instead.
def noted (tok : String) : Bool := interpreted tok && !recognised tok && !unchecked tok

section Token

variable {p : BootParams} {tok rest : String}

theorem noted_of_unchecked (h : strip_orin tok = some rest) (hkey : (key_value rest).1 ∈ UNCHECKED) :
    noted tok = false := by
  simp [noted, unchecked, key_of, h, hkey]

theorem noted_of_checked (h : strip_orin tok = some rest) (hkey : (key_value rest).1 ∉ UNCHECKED) :
    noted tok = !accepts (key_value rest).1 (key_value rest).2 := by
  have hsingle : rest ≠ "single" := by
    rintro rfl
    exact hkey (by decide)
  simp [noted, interpreted, recognised, unchecked, key_of, h, hkey, hsingle]

theorem accepts_other {key val : String} (hlog : key ≠ "log") (hconsole : key ≠ "console")
    (hself : key ≠ "selftest") (hnx : key ≠ "nx") (hpanic : key ≠ "panic")
    (hmem : key ≠ "memlimit") : accepts key val = false := by
  simp [accepts, hlog, hconsole, hself, hnx, hpanic, hmem]

-- One branch of the source after another: three keys check their value, four do not, and any
-- other key is noted.
theorem apply_param_unknown (h : strip_orin tok = some rest) :
    (apply_param p tok rest).unknown =
      if noted tok then append_unknown p.unknown tok else p.unknown := by
  have hfree := noted_of_unchecked h
  have hchecked := noted_of_checked h
  rw [apply_param]
  generalize (key_value rest).1 = key at *
  generalize (key_value rest).2 = val at *
  by_cases hlog : key = "log"
  · subst hlog
    rw [hchecked (by decide), show accepts "log" val = (Log.Level.parse val).isSome by simp [accepts]]
    cases Log.Level.parse val <;> rfl
  by_cases hconsole : key = "console"
  · subst hconsole
    rw [hchecked (by decide),
      show accepts "console" val = (Log.Target.parse val).isSome by simp [accepts]]
    cases Log.Target.parse val <;> rfl
  by_cases hself : key = "selftest"
  · subst hself
    rw [hfree (by decide)]
    rfl
  by_cases hpanic : key = "panic"
  · subst hpanic
    rw [hfree (by decide)]
    rfl
  by_cases hsingle : key = "single"
  · subst hsingle
    rw [hfree (by decide)]
    rfl
  by_cases hmem : key = "memlimit"
  · subst hmem
    rw [hchecked (by decide), show accepts "memlimit" val = (parse_u64 val).isSome by simp [accepts]]
    cases parse_u64 val <;> rfl
  by_cases hnx : key = "nx"
  · subst hnx
    rw [hfree (by decide)]
    rfl
  · have hout : key ∉ UNCHECKED := by simp [UNCHECKED, hself, hpanic, hsingle, hnx]
    rw [hchecked hout, accepts_other hlog hconsole hself hnx hpanic hmem, if_neg hlog,
      if_neg hconsole, if_neg hself, if_neg hpanic, if_neg hsingle, if_neg hmem, if_neg hnx]
    rfl

theorem parse_token_unknown (p : BootParams) (tok : String) :
    (parse_token p tok).unknown = if noted tok then append_unknown p.unknown tok else p.unknown := by
  rw [parse_token]
  cases hstrip : strip_orin tok with
  | none => simp [noted, interpreted, hstrip]
  | some rest => exact apply_param_unknown hstrip

end Token

section Record

theorem fitting_all {room : Nat} {cs : List Char} (h : (utf8 cs).length ≤ room) :
    fitting room cs = cs := by
  have happend : fitting room (cs ++ []) = cs ++ fitting (room - (utf8 cs).length) [] := fitting_append h
  rwa [fitting, List.append_nil] at happend

theorem push_str_buf {s : Str} {text : String} (h : s.len + (utf8 text.toList).length ≤ STR_CAP) :
    (s.push_str text).buf = s.buf ++ utf8 text.toList := by
  rw [Str.push_str, Str.push_chars_buf, fitting_all (by omega)]

theorem as_str_of_buf {s : Str} {text : String} (h : s.buf = utf8 text.toList) : s.as_str = text := by
  rw [Str.as_str, h, fromUTF8_utf8, Option.getD_some, String.ofList_toList]

theorem is_empty_eq_false {s : Str} (h : s.buf ≠ []) : s.is_empty = false := by
  simpa [Str.is_empty, Str.len] using h

theorem append_unknown_first {s : Str} {tok : String} (hs : s.buf = [])
    (h : (utf8 tok.toList).length ≤ STR_CAP) : (append_unknown s tok).buf = utf8 tok.toList := by
  have hlen : s.len = 0 := by rw [Str.len, hs, List.length_nil]
  rw [append_unknown, if_pos (by rw [Str.is_empty, hlen]; rfl), push_str_buf (by omega), hs,
    List.nil_append]

theorem append_unknown_later {s : Str} {tok : String} (hs : s.buf ≠ [])
    (h : s.len + 1 + (utf8 tok.toList).length ≤ STR_CAP) :
    (append_unknown s tok).buf = s.buf ++ utf8 (" " ++ tok).toList := by
  have hspace : (s.push_str " ").buf = s.buf ++ utf8 " ".toList :=
    push_str_buf (by rw [show (utf8 " ".toList).length = 1 by decide]; omega)
  have hlen : (s.push_str " ").len = s.len + 1 := by
    rw [Str.len, hspace, List.length_append]
    rfl
  rw [append_unknown, is_empty_eq_false hs, if_neg (by decide), push_str_buf (by omega), hspace,
    String.toList_append, utf8_append, List.append_assoc]

theorem intercalate_ne_empty {toks : List String} (hne : toks ≠ []) (h : ∀ tok ∈ toks, tok ≠ "") :
    " ".intercalate toks ≠ "" := by
  obtain ⟨tok, toks, rfl⟩ := List.exists_cons_of_ne_nil hne
  have htok := h tok List.mem_cons_self
  cases toks with
  | nil => rwa [String.intercalate_singleton]
  | cons other toks =>
      rw [String.intercalate_cons_cons, Ne, ← String.toList_eq_nil_iff]
      simp

-- While it fits, the buffer holds the noted tokens with one space between them.
theorem unknown_buf (toks : List String) (hne : ∀ tok ∈ toks, tok ≠ "")
    (hfit : (utf8 (" ".intercalate (toks.filter noted)).toList).length ≤ STR_CAP) :
    (toks.foldl parse_token BootParams.default).unknown.buf =
      utf8 (" ".intercalate (toks.filter noted)).toList := by
  induction toks using List.reverseRecOn with
  | nil => rfl
  | append_singleton toks tok ih =>
      have hne' : ∀ t ∈ toks, t ≠ "" := fun t ht => hne t (List.mem_append_left _ ht)
      rw [List.foldl_append, List.foldl_cons, List.foldl_nil, parse_token_unknown]
      rw [List.filter_append, List.filter_singleton] at hfit ⊢
      cases hn : noted tok with
      | false =>
          rw [hn, cond_false, List.append_nil] at hfit
          rw [cond_false, List.append_nil, if_neg (by decide)]
          exact ih hne' hfit
      | true =>
          rw [hn, cond_true] at hfit
          rw [cond_true, if_pos rfl]
          by_cases hnil : toks.filter noted = []
          · rw [hnil, List.nil_append, String.intercalate_singleton] at hfit ⊢
            have hbuf := ih hne' (by rw [hnil]; decide)
            rw [hnil] at hbuf
            exact append_unknown_first hbuf hfit
          · rw [String.intercalate_append_of_ne_nil hnil (by simp), String.intercalate_singleton,
              String.append_assoc, String.toList_append, utf8_append] at hfit ⊢
            rw [List.length_append, String.toList_append, utf8_append, List.length_append,
              show (utf8 " ".toList).length = 1 by decide] at hfit
            have hbuf := ih hne' (by omega)
            have hsome : (toks.foldl parse_token BootParams.default).unknown.buf ≠ [] := by
              rw [hbuf, Ne, utf8_eq_nil_iff, String.toList_eq_nil_iff]
              exact intercalate_ne_empty hnil fun t ht => hne' t (List.mem_of_mem_filter ht)
            rw [append_unknown_later hsome (by rw [Str.len, hbuf]; omega), hbuf]

end Record

section Line

variable {cmdline : String}

theorem split_toList (cmdline : String) : (split_ascii_whitespace cmdline).map String.toList =
    words is_ascii_whitespace cmdline.toList := by
  rw [split_ascii_whitespace, List.map_map]
  simp [words]

theorem split_solid {tok : String} (h : tok ∈ split_ascii_whitespace cmdline) :
    Solid is_ascii_whitespace tok.toList ∧ tok.toList ≠ [] := by
  have hword : tok.toList ∈ words is_ascii_whitespace cmdline.toList := by
    rw [← split_toList]
    exact List.mem_map_of_mem h
  exact solid_of_mem_words hword

-- A record of tokens can be read back.
theorem split_intercalate {toks : List String} (h : toks ⊆ split_ascii_whitespace cmdline) :
    split_ascii_whitespace (" ".intercalate toks) = toks := by
  apply List.map_injective_iff.mpr fun _ _ heq => String.toList_injective heq
  rw [split_toList, String.toList_intercalate]
  refine words_intercalate (by decide) fun w hw => ?_
  obtain ⟨tok, htok, rfl⟩ := List.mem_map.mp hw
  exact split_solid (h htok)

-- The record of a line is not longer than the line.
theorem record_length_le (cmdline : String) (f : String → Bool) :
    (utf8 (" ".intercalate ((split_ascii_whitespace cmdline).filter f)).toList).length ≤
      (utf8 cmdline.toList).length := by
  rw [utf8_length, utf8_length, String.toList_intercalate]
  refine intercalate_words_le (p := is_ascii_whitespace) (fun c _ => ?_) (by decide) ?_
  · rw [String.length_utf8EncodeChar]
    exact c.utf8Size_pos
  · rw [← split_toList]
    exact List.filter_sublist.map _

theorem unknown_eq (h : (utf8 cmdline.toList).length ≤ 191) :
    (parse_params cmdline).unknown.as_str =
      " ".intercalate ((split_ascii_whitespace cmdline).filter noted) := by
  refine as_str_of_buf (unknown_buf _ (fun tok htok => ?_) ?_)
  · rw [Ne, ← String.toList_eq_nil_iff]
    exact (split_solid htok).2
  · exact (record_length_le cmdline noted).trans h

theorem interpreted_of_unchecked {tok : String} (h : unchecked tok = true) :
    interpreted tok = true := by
  cases hstrip : strip_orin tok with
  | none => simp [unchecked, key_of, hstrip] at h
  | some rest => simp [interpreted, hstrip]

end Line

-- Every mistake is on record exactly when the four keys without a check have no other value
-- than the documented ones.
theorem typos_recorded_iff (cmdline : String) (hlen : (utf8 cmdline.toList).length ≤ 191) :
    TyposRecorded cmdline ↔
      ∀ tok ∈ split_ascii_whitespace cmdline, unchecked tok = true → recognised tok = true := by
  rw [TyposRecorded, unknown_eq hlen]
  constructor
  · intro heq tok htok hun
    by_contra hrec
    have hlists := congrArg split_ascii_whitespace heq
    rw [split_intercalate (List.filter_subset_self _),
      split_intercalate (List.filter_subset_self _)] at hlists
    rw [Bool.not_eq_true] at hrec
    have hin : tok ∈ (split_ascii_whitespace cmdline).filter noted := by
      rw [hlists, List.mem_filter]
      simp [htok, hrec, interpreted_of_unchecked hun]
    have hnoted := (List.mem_filter.mp hin).2
    simp [noted, hun] at hnoted
  · intro hall
    congr 1
    refine List.filter_congr fun tok htok => ?_
    cases hun : unchecked tok with
    | false => simp [noted, hun]
    | true => simp [noted, hall tok htok hun]

theorem typos_recorded_iff_misspelt : (utf8 "orin.lgo=info orin.nx=off".toList).length ≤ 191 ∧
    TyposRecorded "orin.lgo=info orin.nx=off" :=
  ⟨by decide, (typos_recorded_iff _ (by decide)).mpr (by decide +kernel)⟩

-- The case that the comment names: NX stays on, and nothing is said.
theorem nx_offf_silent : (parse_params "orin.nx=offf").nx = true ∧
    (parse_params "orin.nx=offf").unknown.as_str = "" ∧ ¬TyposRecorded "orin.nx=offf" := by
  refine ⟨by decide +kernel, by decide +kernel, fun h => ?_⟩
  revert h
  rw [TyposRecorded]
  decide +kernel

end Orin.Multiboot
