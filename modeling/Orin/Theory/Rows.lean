import Mathlib.Order.Basic

namespace Orin.Theory

variable {α : Type}

-- A line cut into rows of `w`. A line that fits is one row, also if it is empty.
def wrap (w : Nat) (line : List α) : List (List α) :=
  if _h : 0 < w ∧ w < line.length then line.take w :: wrap w (line.drop w) else [line]
termination_by line.length
decreasing_by
  rw [List.length_drop]
  omega

-- A text cut at its separators, and each of its lines into rows.
def rows (w : Nat) (p : α → Bool) (text : List α) : List (List α) :=
  (text.splitOnP p).flatMap (wrap w)

-- The last `h` rows on a page of `h` times `w`.
def page (h w : Nat) (blank : α) (rs : List (List α)) : List (List α) :=
  let kept := rs.drop (rs.length - h)
  kept.map (List.rightpad w blank) ++ List.replicate (h - kept.length) (List.replicate w blank)

-- What stands at a place of the rows.
def glyph (blank : α) (rs : List (List α)) (i c : Nat) : α := (rs[i]?.getD [])[c]?.getD blank

-- One more element goes to the end of the last row, or to a row of its own.
def Grown (w : Nat) (x : α) (rs rs' : List (List α)) : Prop :=
  ∃ done last, rs = done ++ [last] ∧
    (last.length < w ∧ rs' = done ++ [last ++ [x]] ∨ last.length = w ∧ rs' = done ++ [last] ++ [[x]])

section Wrap

variable {w : Nat} {x : α} {line : List α}

theorem wrap_short (h : line.length ≤ w) : wrap w line = [line] := by
  rw [wrap, dif_neg (by omega)]

theorem wrap_long (hw : 0 < w) (h : w < line.length) :
    wrap w line = line.take w :: wrap w (line.drop w) := by
  rw [wrap, dif_pos ⟨hw, h⟩]

theorem Grown.cons {rs rs' : List (List α)} (row : List α) (h : Grown w x rs rs') :
    Grown w x (row :: rs) (row :: rs') := by
  obtain ⟨done, last, rfl, ⟨hroom, rfl⟩ | ⟨hfull, rfl⟩⟩ := h
  · exact ⟨row :: done, last, rfl, .inl ⟨hroom, rfl⟩⟩
  · exact ⟨row :: done, last, rfl, .inr ⟨hfull, rfl⟩⟩

theorem Grown.append_left {rs rs' : List (List α)} (above : List (List α)) (h : Grown w x rs rs') :
    Grown w x (above ++ rs) (above ++ rs') := by
  induction above with
  | nil => exact h
  | cons row above ih => exact ih.cons row

theorem wrap_snoc (hw : 0 < w) (x : α) (line : List α) :
    Grown w x (wrap w line) (wrap w (line ++ [x])) := by
  fun_induction wrap w line with
  | case1 line hlong ih =>
      have hlonger : w < (line ++ [x]).length := by
        rw [List.length_append]
        omega
      rw [wrap_long hw hlonger, List.take_append_of_le_length (Nat.le_of_lt hlong.2),
        List.drop_append_of_le_length (Nat.le_of_lt hlong.2)]
      exact ih.cons _
  | case2 line hshort =>
      refine ⟨[], line, rfl, ?_⟩
      by_cases hroom : line.length < w
      · have hfits : (line ++ [x]).length ≤ w := by
          rw [List.length_append]
          exact hroom
        exact .inl ⟨hroom, wrap_short hfits⟩
      · have hfull : line.length = w := by omega
        have hover : w < (line ++ [x]).length := by
          rw [List.length_append, List.length_singleton]
          omega
        rw [wrap_long hw hover, ← hfull, List.take_left, List.drop_left, wrap_short (by simp; omega)]
        exact .inr ⟨rfl, rfl⟩

theorem length_le_of_mem_wrap (hw : 0 < w) {row : List α} (h : row ∈ wrap w line) :
    row.length ≤ w := by
  fun_induction wrap w line with
  | case1 line hlong ih =>
      rcases List.mem_cons.mp h with rfl | h
      · exact List.length_take_le w line
      · exact ih h
  | case2 line hshort =>
      rw [List.mem_singleton.mp h]
      omega

end Wrap

section Rows

variable {w : Nat} {p : α → Bool} {x : α} {text : List α}

theorem rows_nil : rows w p ([] : List α) = [[]] := by
  rw [rows, List.splitOnP_nil, List.flatMap_singleton, wrap_short (Nat.zero_le w)]

theorem rows_snoc_sep (hx : p x = true) : rows w p (text ++ [x]) = rows w p text ++ [[]] := by
  rw [rows, List.splitOnP_append_cons text [] hx, List.flatMap_append]
  exact congrArg (rows w p text ++ ·) rows_nil

theorem splitOnP_snoc (hx : p x = false) (text : List α) : ∃ above line,
    text.splitOnP p = above ++ [line] ∧ (text ++ [x]).splitOnP p = above ++ [line ++ [x]] := by
  induction text with
  | nil => exact ⟨[], [], by simp, by simp [List.splitOnP_cons_eq_if_modifyHead, hx]⟩
  | cons y text ih =>
      obtain ⟨above, line, hbefore, hafter⟩ := ih
      rw [List.cons_append, List.splitOnP_cons_eq_if_modifyHead, List.splitOnP_cons_eq_if_modifyHead,
        hbefore, hafter]
      split
      · exact ⟨[] :: above, line, rfl, rfl⟩
      · cases above with
        | nil => exact ⟨[], y :: line, rfl, rfl⟩
        | cons first above => exact ⟨(y :: first) :: above, line, rfl, rfl⟩

theorem rows_snoc (hw : 0 < w) (hx : p x = false) :
    Grown w x (rows w p text) (rows w p (text ++ [x])) := by
  obtain ⟨above, line, hbefore, hafter⟩ := splitOnP_snoc hx text
  rw [rows, rows, hbefore, hafter, List.flatMap_append, List.flatMap_append,
    List.flatMap_singleton, List.flatMap_singleton]
  exact (wrap_snoc hw x line).append_left _

theorem length_le_of_mem_rows (hw : 0 < w) {row : List α} (h : row ∈ rows w p text) :
    row.length ≤ w := by
  obtain ⟨line, -, hrow⟩ := List.mem_flatMap.mp h
  exact length_le_of_mem_wrap hw hrow

end Rows

section Glyph

variable {h w i c : Nat} {x blank : α} {done : List (List α)} {row last : List α}

theorem glyph_below {rs : List (List α)} (hi : rs.length ≤ i) : glyph blank rs i c = blank := by
  rw [glyph, List.getElem?_eq_none hi]
  rfl

-- A blank row at the end shows nothing.
theorem glyph_snoc_nil {rs : List (List α)} : glyph blank (rs ++ [[]]) i c = glyph blank rs i c := by
  by_cases hi : i < rs.length
  · rw [glyph, glyph, List.getElem?_append_left hi]
  · have hbelow : glyph blank rs i c = blank := glyph_below (Nat.le_of_not_lt hi)
    rw [hbelow, glyph, List.getElem?_append_right (Nat.le_of_not_lt hi)]
    cases i - rs.length with
    | zero => rfl
    | succ k => rfl

theorem glyph_snoc (i c : Nat) : glyph blank (done ++ [last ++ [x]]) i c =
    if i = done.length ∧ c = last.length then x else glyph blank (done ++ [last]) i c := by
  rcases Nat.lt_trichotomy i done.length with hi | rfl | hi
  · rw [if_neg (by omega), glyph, glyph, List.getElem?_append_left hi, List.getElem?_append_left hi]
  · simp only [glyph, List.getElem?_concat_length, Option.getD_some, true_and]
    rcases Nat.lt_trichotomy c last.length with hc | rfl | hc
    · rw [if_neg (by omega), List.getElem?_append_left hc]
    · rw [if_pos rfl, List.getElem?_concat_length, Option.getD_some]
    · rw [if_neg (by omega), List.getElem?_eq_none (by simp; omega),
        List.getElem?_eq_none (by omega)]
  · rw [if_neg (by omega), glyph_below (by simp; omega), glyph_below (by simp; omega)]

theorem rightpad_eq_map (hrow : row.length ≤ w) :
    List.rightpad w blank row = (List.range w).map fun c => row[c]?.getD blank := by
  apply List.ext_getElem?
  intro c
  rw [List.rightpad, List.getElem?_map, List.getElem?_append]
  by_cases hc : c < row.length
  · rw [if_pos hc, List.getElem?_range (by omega)]
    simp [hc]
  · rw [if_neg hc, List.getElem?_replicate]
    by_cases hw : c < w
    · rw [if_pos (by omega), List.getElem?_range hw]
      simp [Nat.le_of_not_lt hc]
    · rw [if_neg (by omega), List.getElem?_eq_none (by simp; omega)]
      rfl

-- The page, place by place: its rows are the rows from `length - h` on.
theorem page_eq_map {rs : List (List α)} (hrs : ∀ row ∈ rs, row.length ≤ w) :
    page h w blank rs = (List.range h).map fun r => (List.range w).map fun c =>
      glyph blank rs (rs.length - h + r) c := by
  apply List.ext_getElem?
  intro r
  rw [page, List.getElem?_map, List.getElem?_append, List.length_map, List.length_drop]
  by_cases hr : r < h
  · rw [List.getElem?_range hr]
    by_cases hkept : r < rs.length - (rs.length - h)
    · have hin : rs.length - h + r < rs.length := by omega
      rw [if_pos hkept, List.getElem?_map, List.getElem?_drop, List.getElem?_eq_getElem hin,
        Option.map_some, rightpad_eq_map (hrs _ (List.getElem_mem hin))]
      simp [glyph, List.getElem?_eq_getElem hin]
    · rw [if_neg hkept, List.getElem?_replicate, if_pos (by omega)]
      have hblank : ∀ c, glyph blank rs (rs.length - h + r) c = blank := fun c =>
        glyph_below (by omega)
      simp [hblank, List.map_const']
  · rw [if_neg (by omega), List.getElem?_replicate, if_neg (by omega),
      List.getElem?_eq_none (by simp; omega)]
    rfl

end Glyph

end Orin.Theory
