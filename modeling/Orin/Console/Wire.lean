import Mathlib.Data.List.DropRight
import Orin.Console.Log
import Orin.Rust.Utf8

namespace Orin.Console

open Orin.Log Rust

-- A bare line feed goes out as CR LF.
def Serial.write_str (text : List UInt8) : List UInt8 :=
  text.flatMap fun b => if b = 10 then [13, b] else [b]

namespace Log

-- `subsys.split_once("::")`.
def split_once : List Char → Option (List Char × List Char)
  | ':' :: ':' :: rest => some ([], rest)
  | c :: rest => (split_once rest).map fun parts => (c :: parts.1, parts.2)
  | [] => none

def shorten (subsys : List Char) : List Char :=
  match split_once subsys with
  | some (crate_name, rest) => if crate_name = "orin_kernel".toList then rest else subsys
  | none => subsys

-- What one call of `log` is given, with the time at which it is made.
structure Record where
  level : Level
  ts : Nat
  subsys : List Char
  location : List Char
  message : List Char

-- `{:>6}` and `{:06}`, and `{:18}`.
def right_aligned (width : Nat) (fill : Char) (cs : List Char) : List Char :=
  List.replicate (width - cs.length) fill ++ cs

def left_aligned (width : Nat) (cs : List Char) : List Char :=
  cs ++ List.replicate (width - cs.length) ' '

def timestamp (ts : Nat) : List Char :=
  right_aligned 6 ' ' (Nat.toDigits 10 (ts / 1000000)) ++ '.' ::
    right_aligned 6 '0' (Nat.toDigits 10 (ts % 1000000))

def header (r : Record) : List Char :=
  "ORIN|".toList ++ r.level.letter :: '|' :: (timestamp r.ts ++ '|' :: left_aligned 18 (shorten r.subsys))

-- The three `write!` calls.
def write_serial_bytes (show_loc : Bool) (r : Record) : List UInt8 :=
  Serial.write_str (utf8 (header r)) ++
    (if show_loc then Serial.write_str (utf8 ('|' :: r.location)) else []) ++
    Serial.write_str (utf8 ('|' :: (r.message ++ "\r\n".toList)))

-- The configuration and what the port has sent.
structure Port where
  config : LogConfig
  show_location : Bool
  wire : List UInt8

def Port.log (p : Port) (r : Record) : Port :=
  if drops p.config r.level then { p with config := count r.level p.config }
  else
    { p with
      config := count r.level p.config
      wire := if p.config.target.to_serial then
        p.wire ++ write_serial_bytes p.show_location r else p.wire }

-- The reader's side. A line ends with a line feed and the carriage returns before it.
def lines (cs : List Char) : List (List Char) :=
  (cs.splitOnP (· == '\n')).dropLast.map fun l => l.rdropWhile (· == '\r')

def read_text (wire : List UInt8) : List Char := ((String.fromUTF8? ⟨wire.toArray⟩).getD "").toList

-- The next field and what follows its bar.
def cut (cs : List Char) : Option (List Char × List Char) :=
  match cs.dropWhile (· ≠ '|') with
  | [] => none
  | _ :: rest => some (cs.takeWhile (· ≠ '|'), rest)

def read_timestamp (cs : List Char) : Nat :=
  let digits := cs.dropWhile (· == ' ')
  Nat.ofDigitChars 10 (digits.takeWhile (· ≠ '.')) 0 * 1000000 +
    Nat.ofDigitChars 10 ((digits.dropWhile (· ≠ '.')).drop 1) 0

structure Parsed where
  level : Char
  ts : Nat
  subsys : List Char
  location : Option (List Char)
  message : List Char
  deriving DecidableEq

def parse_line (show_loc : Bool) (line : List Char) : Option Parsed := do
  let (name, rest) ← cut line
  if name ≠ "ORIN".toList then none
  else
    let (level, rest) ← cut rest
    let [letter] := level | none
    let (ts, rest) ← cut rest
    let (subsys, rest) ← cut rest
    let subsys := subsys.rdropWhile (· == ' ')
    if show_loc then
      let (location, message) ← cut rest
      return ⟨letter, read_timestamp ts, subsys, some location, message⟩
    else return ⟨letter, read_timestamp ts, subsys, none, rest⟩

def Record.parsed (show_loc : Bool) (r : Record) : Parsed :=
  ⟨r.level.letter, r.ts, shorten r.subsys, if show_loc then some r.location else none, r.message⟩

-- One line for each record, in order, and every field comes back.
def Survives (show_loc : Bool) (wire : List UInt8) (records : List Record) : Prop :=
  (lines (read_text wire)).map (parse_line show_loc) =
    records.map fun r => some (r.parsed show_loc)

section Bytes

-- The expansion as it looks to a reader of text.
def expand (cs : List Char) : List Char := cs.flatMap fun c => if c = '\n' then ['\r', '\n'] else [c]

theorem write_str_append (a b : List UInt8) :
    Serial.write_str (a ++ b) = Serial.write_str a ++ Serial.write_str b := List.flatMap_append

theorem write_str_of_not_mem {bytes : List UInt8} (h : (10 : UInt8) ∉ bytes) :
    Serial.write_str bytes = bytes := by
  induction bytes with
  | nil => rfl
  | cons b bytes ih =>
      have hb : ¬ b = 10 := fun hb => h (hb ▸ List.mem_cons_self)
      have hrest := ih fun hmem => h (List.mem_cons_of_mem _ hmem)
      rw [Serial.write_str] at hrest ⊢
      rw [List.flatMap_cons, if_neg hb, hrest, List.singleton_append]

theorem expand_append (cs ds : List Char) : expand (cs ++ ds) = expand cs ++ expand ds :=
  List.flatMap_append

theorem expand_cons (c : Char) (cs : List Char) :
    expand (c :: cs) = (if c = '\n' then ['\r', '\n'] else [c]) ++ expand cs := List.flatMap_cons

theorem expand_of_not_mem {cs : List Char} (h : '\n' ∉ cs) : expand cs = cs := by
  induction cs with
  | nil => rfl
  | cons c cs ih =>
      have hc : ¬ c = '\n' := fun hc => h (hc ▸ List.mem_cons_self)
      rw [expand_cons, if_neg hc, ih fun hmem => h (List.mem_cons_of_mem _ hmem),
        List.singleton_append]

theorem mem_expand {cs : List Char} (h : '\n' ∈ cs) : '\n' ∈ expand cs :=
  List.mem_flatMap.mpr ⟨'\n', h, by simp⟩

theorem write_str_utf8 (cs : List Char) : Serial.write_str (utf8 cs) = utf8 (expand cs) := by
  induction cs with
  | nil => rfl
  | cons c cs ih =>
      rw [utf8_cons, write_str_append, ih, expand_cons, utf8_append]
      congr 1
      by_cases hc : c = '\n'
      · rw [hc]
        rfl
      · rw [write_str_of_not_mem (ten_not_mem_utf8EncodeChar hc), if_neg hc, utf8,
          List.flatMap_singleton]

theorem read_text_utf8 (cs : List Char) : read_text (utf8 cs) = cs := by
  rw [read_text, fromUTF8_utf8, Option.getD_some, String.toList_ofList]

end Bytes

section Lines

-- Splitting gives the pieces of each line, one for a line without a line feed.
theorem lines_flatMap (ls : List (List Char)) : lines (ls.flatMap fun l => l ++ ['\n']) =
    (ls.flatMap fun l => l.splitOnP (· == '\n')).map fun l => l.rdropWhile (· == '\r') := by
  have hsplit : (ls.flatMap fun l => l ++ ['\n']).splitOnP (· == '\n') =
      (ls.flatMap fun l => l.splitOnP (· == '\n')) ++ [[]] := by
    induction ls with
    | nil => rfl
    | cons l ls ih =>
        rw [List.flatMap_cons, List.append_assoc, List.singleton_append,
          List.splitOnP_append_cons _ _ rfl, ih, List.flatMap_cons, List.append_assoc]
  rw [lines, hsplit, List.dropLast_concat]

theorem length_splitOnP_pos {α : Type} (p : α → Bool) (l : List α) : 1 ≤ (l.splitOnP p).length :=
  List.length_pos_iff.mpr (List.splitOnP_ne_nil p l)

theorem one_lt_length_splitOnP {α : Type} {p : α → Bool} {l : List α} {c : α} (hmem : c ∈ l)
    (hc : p c = true) : 1 < (l.splitOnP p).length := by
  obtain ⟨before, after, rfl⟩ := List.append_of_mem hmem
  have hbefore := length_splitOnP_pos p before
  have hafter := length_splitOnP_pos p after
  rw [List.splitOnP_append_cons _ _ hc, List.length_append]
  omega

theorem length_le_flatMap {α β : Type} {f : α → List β} (hf : ∀ a, 1 ≤ (f a).length) (xs : List α) :
    xs.length ≤ (xs.flatMap f).length := by
  induction xs with
  | nil => exact Nat.zero_le _
  | cons x xs ih =>
      have hx := hf x
      rw [List.flatMap_cons, List.length_append, List.length_cons]
      omega

theorem flatMap_one_each {α β : Type} {f : α → List β} (hf : ∀ a, 1 ≤ (f a).length) {xs : List α}
    (h : (xs.flatMap f).length = xs.length) : ∀ x ∈ xs, (f x).length = 1 := by
  induction xs with
  | nil => exact fun x hx => nomatch hx
  | cons x xs ih =>
      have hx := hf x
      have hrest := length_le_flatMap hf xs
      rw [List.flatMap_cons, List.length_append, List.length_cons] at h
      intro y hy
      rcases List.mem_cons.mp hy with rfl | hlater
      · omega
      · exact ih (by omega) y hlater

end Lines

section Fields

theorem cut_append {a rest : List Char} (h : '|' ∉ a) : cut (a ++ '|' :: rest) = some (a, rest) := by
  have ha : ∀ c ∈ a, decide (c ≠ '|') = true := by
    intro c hc
    rw [decide_eq_true_eq]
    exact fun heq => h (heq ▸ hc)
  rw [cut, List.dropWhile_append_of_pos ha, List.takeWhile_append_of_pos ha]
  simp

-- No field separator and no line end.
def Clean (cs : List Char) : Prop := '|' ∉ cs ∧ '\r' ∉ cs ∧ '\n' ∉ cs

instance : DecidablePred Clean := fun cs =>
  inferInstanceAs (Decidable ('|' ∉ cs ∧ '\r' ∉ cs ∧ '\n' ∉ cs))

theorem Clean.append {cs ds : List Char} (hc : Clean cs) (hd : Clean ds) : Clean (cs ++ ds) := by
  simp only [Clean, List.mem_append, not_or]
  exact ⟨⟨hc.1, hd.1⟩, ⟨hc.2.1, hd.2.1⟩, hc.2.2, hd.2.2⟩

theorem clean_replicate {n : Nat} {c : Char} (hc : Clean [c]) : Clean (List.replicate n c) :=
  ⟨fun h => hc.1 (List.eq_of_mem_replicate h ▸ List.mem_singleton_self _),
    fun h => hc.2.1 (List.eq_of_mem_replicate h ▸ List.mem_singleton_self _),
    fun h => hc.2.2 (List.eq_of_mem_replicate h ▸ List.mem_singleton_self _)⟩

theorem clean_digits (n : Nat) : Clean (Nat.toDigits 10 n) :=
  ⟨fun h => absurd (Nat.isDigit_of_mem_toDigits (by decide) (by decide) h) (by decide),
    fun h => absurd (Nat.isDigit_of_mem_toDigits (by decide) (by decide) h) (by decide),
    fun h => absurd (Nat.isDigit_of_mem_toDigits (by decide) (by decide) h) (by decide)⟩

theorem clean_timestamp (ts : Nat) : Clean (timestamp ts) := by
  have hpoint : Clean ['.'] := by decide
  have hsecs : Clean (right_aligned 6 ' ' (Nat.toDigits 10 (ts / 1000000))) :=
    (clean_replicate (by decide)).append (clean_digits _)
  have hmicros : Clean (right_aligned 6 '0' (Nat.toDigits 10 (ts % 1000000))) :=
    (clean_replicate (by decide)).append (clean_digits _)
  exact hsecs.append (hpoint.append hmicros)

theorem read_timestamp_timestamp (ts : Nat) : read_timestamp (timestamp ts) = ts := by
  have hdigit : ∀ {n : Nat} {c : Char}, c ∈ Nat.toDigits 10 n → c.isDigit = true := fun h =>
    Nat.isDigit_of_mem_toDigits (by decide) (by decide) h
  have hblanks : (timestamp ts).dropWhile (· == ' ') = Nat.toDigits 10 (ts / 1000000) ++ '.' ::
      right_aligned 6 '0' (Nat.toDigits 10 (ts % 1000000)) := by
    rw [timestamp, right_aligned, List.append_assoc, List.dropWhile_append_of_pos]
    · cases hsecs : Nat.toDigits 10 (ts / 1000000) with
      | nil => exact absurd hsecs Nat.toDigits_ne_nil
      | cons c cs =>
          have hc : c.isDigit = true := hdigit (hsecs ▸ List.mem_cons_self)
          have hne : ¬ (c == ' ') = true := fun heq => by
            rw [beq_iff_eq.mp heq] at hc
            exact absurd hc (by decide)
          exact List.dropWhile_cons_of_neg (p := (· == ' ')) hne
    · intro c hc
      rw [List.eq_of_mem_replicate hc]
      rfl
  have hsecs : ∀ c ∈ Nat.toDigits 10 (ts / 1000000), decide (c ≠ '.') = true := by
    intro c hc
    rw [decide_eq_true_eq]
    rintro rfl
    exact absurd (hdigit hc) (by decide)
  rw [read_timestamp, hblanks]
  simp only [List.takeWhile_append_of_pos hsecs, List.dropWhile_append_of_pos hsecs]
  simp only [ne_eq, not_true_eq_false, decide_false, Bool.false_eq_true, not_false_eq_true,
    List.takeWhile_cons_of_neg, List.dropWhile_cons_of_neg, List.append_nil, List.drop_succ_cons,
    List.drop_zero, right_aligned, Nat.ofDigitChars_append, Nat.ofDigitChars_replicate_zero,
    Nat.mul_zero, Nat.ofDigitChars_ten_toDigits]
  omega

theorem split_once_spec {cs crate_name rest : List Char} (h : split_once cs = some (crate_name, rest)) :
    cs = crate_name ++ ':' :: ':' :: rest := by
  induction cs using split_once.induct generalizing crate_name with
  | case1 tail =>
      rw [split_once] at h
      cases h
      rfl
  | case2 c tail hcolons ih =>
      rw [split_once] at h
      · obtain ⟨⟨first, later⟩, hparts, heq⟩ := Option.map_eq_some_iff.mp h
        cases heq
        rw [ih hparts]
        rfl
      · exact hcolons
  | case3 => cases h

theorem shorten_suffix (cs : List Char) : shorten cs <:+ cs := by
  rw [shorten]
  split
  · rename_i crate_name rest hsplit
    split
    · exact ⟨crate_name ++ [':', ':'], by rw [split_once_spec hsplit]; simp⟩
    · exact List.suffix_rfl
  · exact List.suffix_rfl

theorem clean_shorten {cs : List Char} (h : Clean cs) : Clean (shorten cs) :=
  ⟨fun hmem => h.1 ((shorten_suffix cs).mem hmem), fun hmem => h.2.1 ((shorten_suffix cs).mem hmem),
    fun hmem => h.2.2 ((shorten_suffix cs).mem hmem)⟩

theorem trim_left_aligned (width : Nat) (cs : List Char) :
    (left_aligned width cs).rdropWhile (· == ' ') = cs.rdropWhile (· == ' ') := by
  rw [left_aligned]
  induction width - cs.length with
  | zero => rw [List.replicate_zero, List.append_nil]
  | succ n ih =>
      rw [List.replicate_succ', ← List.append_assoc, List.rdropWhile_concat_pos _ _ _ rfl, ih]

end Fields

section Records

variable {show_loc : Bool} {r : Record}

-- Everything before the message and its bar.
def frame (show_loc : Bool) (r : Record) : List Char :=
  header r ++ (if show_loc then '|' :: r.location else [])

structure Record.Clean (r : Record) : Prop where
  subsys : Log.Clean r.subsys
  location : Log.Clean r.location

-- Whatever message follows the frame, the fields come back, without the padding.
theorem header_eq (r : Record) :
    header r = "ORIN".toList ++ '|' :: ([r.level.letter] ++ '|' :: (timestamp r.ts ++ '|' ::
      left_aligned 18 (shorten r.subsys))) := by
  have hname : "ORIN|".toList = "ORIN".toList ++ ['|'] := by decide
  change "ORIN|".toList ++ _ = _
  rw [hname, List.append_assoc, List.singleton_append, List.singleton_append]

theorem parse_line_frame (hclean : r.Clean) (message : List Char) :
    parse_line show_loc (frame show_loc r ++ '|' :: message) =
      some ⟨r.level.letter, r.ts, (shorten r.subsys).rdropWhile (· == ' '),
        if show_loc then some r.location else none, message⟩ := by
  have hname : '|' ∉ "ORIN".toList := by decide
  have hletter : '|' ∉ [r.level.letter] := by cases r.level <;> decide
  have hsubsys : '|' ∉ left_aligned 18 (shorten r.subsys) :=
    ((clean_shorten hclean.subsys).append (clean_replicate (by decide))).1
  have hline : frame show_loc r ++ '|' :: message =
      "ORIN".toList ++ '|' :: ([r.level.letter] ++ '|' :: (timestamp r.ts ++ '|' ::
        (left_aligned 18 (shorten r.subsys) ++ '|' ::
          if show_loc then r.location ++ '|' :: message else message))) := by
    cases show_loc <;> simp [frame, header_eq]
  rw [hline, parse_line, cut_append hname]
  simp only [Option.bind_eq_bind, Option.bind_some, ne_eq, not_true_eq_false, ↓reduceIte,
    cut_append hletter, cut_append (clean_timestamp r.ts).1, cut_append hsubsys, trim_left_aligned,
    read_timestamp_timestamp]
  cases show_loc with
  | true => simp [cut_append hclean.location.1]
  | false => simp

theorem clean_frame_line_feed (hclean : r.Clean) : '\n' ∉ frame show_loc r := by
  have hheader : '\n' ∉ header r := by
    have hname : '\n' ∉ "ORIN".toList := by decide
    have hbar : '\n' ≠ '|' := by decide
    have hletter : '\n' ≠ r.level.letter := by cases r.level <;> decide
    have hsubsys : '\n' ∉ left_aligned 18 (shorten r.subsys) :=
      ((clean_shorten hclean.subsys).append (clean_replicate (by decide))).2.2
    simp only [header_eq, List.mem_append, List.mem_cons, List.not_mem_nil, or_false, not_or]
    exact ⟨hname, hbar, hletter, hbar, (clean_timestamp r.ts).2.2, hbar, hsubsys⟩
  have hlocation := hclean.location.2.2
  cases show_loc with
  | true => simp [frame, hheader, hlocation]
  | false => simp [frame, hheader]

-- The line a record puts on the wire, up to its line feed.
def body (show_loc : Bool) (r : Record) : List Char :=
  expand (frame show_loc r ++ '|' :: r.message) ++ ['\r', '\r']

theorem write_serial_bytes_eq : write_serial_bytes show_loc r = utf8 (body show_loc r ++ ['\n']) := by
  have hend : expand ['\r', '\n'] = ['\r', '\r', '\n'] := by decide
  have htail : expand ('|' :: (r.message ++ "\r\n".toList)) =
      expand ('|' :: r.message) ++ ['\r', '\r', '\n'] := by
    rw [← hend, ← expand_append]
    rfl
  simp only [write_serial_bytes, write_str_utf8, htail, body, frame, expand_append]
  cases show_loc with
  | true =>
      rw [if_pos rfl, if_pos rfl, ← utf8_append, ← utf8_append]
      simp only [List.append_assoc, List.cons_append, List.nil_append]
  | false =>
      rw [if_neg (by decide), if_neg (by decide), List.append_nil, ← utf8_append]
      simp only [expand, List.flatMap_nil, List.append_assoc, List.cons_append, List.nil_append,
        List.append_nil]

-- Stripped of its carriage returns, the line of a one-line message ends like the message.
theorem strip_body (hclean : r.Clean) (hline : '\n' ∉ r.message) :
    (body show_loc r).rdropWhile (· == '\r') =
      frame show_loc r ++ '|' :: r.message.rdropWhile (· == '\r') := by
  have hwhole : '\n' ∉ frame show_loc r ++ '|' :: r.message := by
    simp only [List.mem_append, List.mem_cons, not_or]
    exact ⟨clean_frame_line_feed hclean, by decide, hline⟩
  have hpair : body show_loc r = frame show_loc r ++ '|' :: r.message ++ ['\r'] ++ ['\r'] := by
    rw [body, expand_of_not_mem hwhole, List.append_assoc _ ['\r']]
    rfl
  rw [hpair, List.rdropWhile_concat_pos _ _ _ rfl, List.rdropWhile_concat_pos _ _ _ rfl]
  generalize r.message = message
  induction message using List.reverseRecOn with
  | nil => rw [List.rdropWhile_nil, List.rdropWhile_concat_neg _ _ _ (by decide)]
  | append_singleton message c ih =>
      rw [← List.cons_append, ← List.append_assoc]
      by_cases hc : (c == '\r') = true
      · rw [List.rdropWhile_concat_pos (· == '\r') _ _ hc,
          List.rdropWhile_concat_pos (· == '\r') _ _ hc, ih]
      · rw [List.rdropWhile_concat_neg (· == '\r') _ _ hc,
          List.rdropWhile_concat_neg (· == '\r') _ _ hc, ← List.cons_append, ← List.append_assoc]

end Records

section Survival

variable {show_loc : Bool} {records : List Record}

theorem read_records : read_text (records.flatMap (write_serial_bytes show_loc)) =
    (records.map (body show_loc)).flatMap fun l => l ++ ['\n'] := by
  have hwire : records.flatMap (write_serial_bytes show_loc) =
      utf8 ((records.map (body show_loc)).flatMap fun l => l ++ ['\n']) := by
    induction records with
    | nil => rfl
    | cons r records ih =>
        rw [List.flatMap_cons, ih, write_serial_bytes_eq, List.map_cons, List.flatMap_cons]
        exact (utf8_append _ _).symm
  rw [hwire, read_text_utf8]

-- What comes back of one-line messages: the blanks that end a subsystem and the carriage
-- returns that end a message are taken for padding and line end.
theorem parse_records (hclean : ∀ r ∈ records, r.Clean) (hline : ∀ r ∈ records, '\n' ∉ r.message) :
    (lines (read_text (records.flatMap (write_serial_bytes show_loc)))).map (parse_line show_loc) =
      records.map fun r => some { r.parsed show_loc with
        subsys := (shorten r.subsys).rdropWhile (· == ' ')
        message := r.message.rdropWhile (· == '\r') } := by
  rw [read_records, lines_flatMap, List.map_map]
  induction records with
  | nil => rfl
  | cons r records ih =>
      have hr := hclean r List.mem_cons_self
      have hmessage := hline r List.mem_cons_self
      have hbody : '\n' ∉ body show_loc r := by
        have hwhole : '\n' ∉ frame show_loc r ++ '|' :: r.message := by
          simp only [List.mem_append, List.mem_cons, not_or]
          exact ⟨clean_frame_line_feed hr, by decide, hmessage⟩
        rw [body, expand_of_not_mem hwhole, List.mem_append, not_or]
        exact ⟨hwhole, by decide⟩
      have hone : (body show_loc r).splitOnP (· == '\n') = [body show_loc r] := by
        refine List.splitOnP_eq_singleton fun c hc => ?_
        rw [beq_eq_false_iff_ne]
        exact fun heq => hbody (heq ▸ hc)
      rw [List.map_cons, List.flatMap_cons, hone, List.singleton_append, List.map_cons,
        ih (fun r' hr' => hclean r' (List.mem_cons_of_mem _ hr'))
          (fun r' hr' => hline r' (List.mem_cons_of_mem _ hr')), List.map_cons, Function.comp_apply,
        strip_body hr hmessage, parse_line_frame hr]
      rfl

-- Every line feed of a message makes a line of its own.
theorem line_feed_free (h : Survives show_loc (records.flatMap (write_serial_bytes show_loc)) records) :
    ∀ r ∈ records, '\n' ∉ r.message := by
  intro r hr hmem
  have hlength := congrArg List.length h
  rw [read_records, lines_flatMap, List.length_map, List.length_map, List.length_map] at hlength
  have hcount : ((records.map (body show_loc)).flatMap fun l => l.splitOnP (· == '\n')).length =
      (records.map (body show_loc)).length := by rw [hlength, List.length_map]
  have hone := flatMap_one_each (length_splitOnP_pos _) hcount (body show_loc r)
    (List.mem_map_of_mem hr)
  have hbody : '\n' ∈ body show_loc r :=
    List.mem_append_left _ (mem_expand (List.mem_append_right _ (List.mem_cons_of_mem _ hmem)))
  have htwo := one_lt_length_splitOnP (p := (· == '\n')) hbody rfl
  omega

theorem rdropWhile_beq_eq_self {c : Char} {cs : List Char} :
    cs.rdropWhile (· == c) = cs ↔ cs.getLast? ≠ some c := by
  rw [List.rdropWhile_eq_self_iff]
  cases cs using List.reverseRecOn with
  | nil => simp
  | append_singleton cs d => simp

-- A message on one line that ends in no carriage return, from a subsystem that ends in no
-- blank.
structure Plain (r : Record) : Prop where
  message : '\n' ∉ r.message
  ending : r.message.getLast? ≠ some '\r'
  subsys : (shorten r.subsys).getLast? ≠ some ' '

theorem survives_wire (hclean : ∀ r ∈ records, r.Clean) :
    Survives show_loc (records.flatMap (write_serial_bytes show_loc)) records ↔
      ∀ r ∈ records, Plain r := by
  constructor
  · intro h r hr
    have hline := line_feed_free h
    rw [Survives, parse_records hclean hline] at h
    have hparsed := Option.some.inj (List.map_inj_left.mp h r hr)
    exact ⟨hline r hr, rdropWhile_beq_eq_self.mp (congrArg Parsed.message hparsed),
      rdropWhile_beq_eq_self.mp (congrArg Parsed.subsys hparsed)⟩
  · intro h
    rw [Survives, parse_records hclean fun r hr => (h r hr).message]
    refine List.map_congr_left fun r hr => ?_
    rw [rdropWhile_beq_eq_self.mpr (h r hr).ending, rdropWhile_beq_eq_self.mpr (h r hr).subsys]
    rfl

theorem drops_count (level level' : Level) (c : LogConfig) : drops (count level c) level' = drops c level' := by
  rw [count]
  split <;> rfl

theorem target_count (level : Level) (c : LogConfig) : (count level c).target = c.target := by
  rw [count]
  split <;> rfl

theorem log_wire (p : Port) (hserial : p.config.target.to_serial = true)
    (hpass : ∀ r ∈ records, drops p.config r.level = false) :
    (records.foldl Port.log p).wire = p.wire ++ records.flatMap (write_serial_bytes p.show_location) := by
  induction records generalizing p with
  | nil => exact (List.append_nil _).symm
  | cons r records ih =>
      have hhere : p.log r = { p with
          config := count r.level p.config
          wire := p.wire ++ write_serial_bytes p.show_location r } := by
        rw [Port.log, hpass r List.mem_cons_self, if_neg (by decide), if_pos hserial]
      rw [List.foldl_cons, ih, hhere, List.flatMap_cons, List.append_assoc]
      · rw [hhere]
        dsimp only
        rw [target_count, hserial]
      · intro r' hr'
        rw [hhere]
        dsimp only
        rw [drops_count, hpass r' (List.mem_cons_of_mem _ hr')]

end Survival

-- The records come back from the wire exactly when every one of them is plain.
theorem survives_iff (p : Port) (hwire : p.wire = []) (hserial : p.config.target.to_serial = true)
    (records : List Record) (hpass : ∀ r ∈ records, drops p.config r.level = false)
    (hclean : ∀ r ∈ records, r.Clean) :
    Survives p.show_location (records.foldl Port.log p).wire records ↔ ∀ r ∈ records, Plain r := by
  rw [log_wire p hserial hpass, hwire, List.nil_append]
  exact survives_wire hclean

-- The boot configuration, and a port that has sent nothing.
def quiet_port : Port := ⟨⟨.Info, .Both, 0, 0⟩, false, []⟩

def small_record (message : List Char) : Record :=
  ⟨.Info, 1500000, "orin_kernel::kmain".toList, [], message⟩

theorem survives_iff_small :
    Survives false (quiet_port.log (small_record "ready".toList)).wire [small_record "ready".toList] := by
  refine (survives_iff quiet_port rfl rfl [small_record "ready".toList] (by decide) fun r hr => ?_).mpr
    fun r hr => ?_
  · rw [List.mem_singleton.mp hr]
    exact ⟨by decide, by decide⟩
  · rw [List.mem_singleton.mp hr]
    exact ⟨by decide, by decide, by decide⟩

-- A command line with a line feed in it, reported as it stands, forges a record.
def forged : Record :=
  small_record "multiboot: command line \"a\nORIN|P|     9.000000|x|panic\"".toList

theorem line_feed_forges :
    (lines (read_text (quiet_port.log forged).wire)).map (fun l => (parse_line false l).map Parsed.level) =
        [some 'I', some 'P'] ∧
      ¬ Survives false (quiet_port.log forged).wire [forged] := by
  have hwire : (quiet_port.log forged).wire = [forged].flatMap (write_serial_bytes false) :=
    @log_wire [forged] quiet_port rfl (by decide)
  rw [hwire]
  refine ⟨?_, fun h => absurd (line_feed_free h forged (List.mem_singleton_self _)) (by decide)⟩
  rw [read_records]
  decide +kernel

end Log

end Orin.Console
