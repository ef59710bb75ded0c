import Mathlib.Data.List.Basic
import Mathlib.Data.Nat.ModEq
import Mathlib.Tactic.SplitIfs

namespace Orin.Theory.Circular

variable {α : Type} {n head tail len : Nat} {cell : Nat → α}

-- How far `head` is ahead of `tail` in a buffer of `n` cells.
def span (n head tail : Nat) : Nat := if tail ≤ head then head - tail else n - tail + head

-- The elements from `tail` on.
def window (cell : Nat → α) (n tail len : Nat) : List α :=
  (List.range len).map fun i => cell ((tail + i) % n)

@[simp] theorem window_length : (window cell n tail len).length = len := by simp [window]

section Span

variable (hh : head < n) (ht : tail < n)

include hh ht

theorem span_lt : span n head tail < n := by
  unfold span
  split <;> omega

theorem add_span_mod : (tail + span n head tail) % n = head := by
  unfold span
  split
  · rw [Nat.add_sub_of_le (by assumption), Nat.mod_eq_of_lt hh]
  · rw [show tail + (n - tail + head) = head + n by omega, Nat.add_mod_right, Nat.mod_eq_of_lt hh]

omit ht in
theorem succ_mod_eq : (head + 1) % n = if head + 1 = n then 0 else head + 1 := by
  split
  · rename_i h
    rw [h, Nat.mod_self]
  · exact Nat.mod_eq_of_lt (by omega)

-- One slot stays empty, so that a full buffer differs from an empty one.
theorem full_iff : (head + 1) % n = tail ↔ span n head tail + 1 = n := by
  rw [succ_mod_eq hh]
  unfold span
  split_ifs <;> omega

theorem span_succ_head (hroom : (head + 1) % n ≠ tail) :
    span n ((head + 1) % n) tail = span n head tail + 1 := by
  rw [succ_mod_eq hh] at hroom ⊢
  unfold span
  split_ifs at hroom ⊢ <;> omega

theorem span_succ_tail (hne : head ≠ tail) :
    span n head tail = span n head ((tail + 1) % n) + 1 := by
  rw [succ_mod_eq ht]
  unfold span
  split_ifs <;> omega

end Span

section Window

-- Taking the oldest element.
theorem window_succ (ht : tail < n) :
    window cell n tail (len + 1) = cell tail :: window cell n ((tail + 1) % n) len := by
  rw [window, List.range_succ_eq_map, List.map_cons, List.map_map, Nat.add_zero,
    Nat.mod_eq_of_lt ht, window]
  refine congrArg _ (List.map_congr_left fun i _ => ?_)
  show cell ((tail + (i + 1)) % n) = _
  rw [Nat.mod_add_mod, show tail + (i + 1) = tail + 1 + i by omega]

-- Writing behind the newest element: the others are not touched.
theorem window_write {b : α} {cell' : Nat → α} (hlen : len < n)
    (hhere : cell' ((tail + len) % n) = b)
    (hothers : ∀ i, i ≠ (tail + len) % n → cell' i = cell i) :
    window cell' n tail (len + 1) = window cell n tail len ++ [b] := by
  rw [window, List.range_succ, List.map_append, List.map_singleton, hhere, window]
  refine congrArg (· ++ [b]) (List.map_congr_left fun i hi => hothers _ fun heq => ?_)
  rw [List.mem_range] at hi
  have hlt : len - i < n := by omega
  have hdvd := (Nat.modEq_iff_dvd' (show tail + i ≤ tail + len by omega)).mp heq
  rw [Nat.add_sub_add_left] at hdvd
  have hle := Nat.le_of_dvd (by omega) hdvd
  omega

end Window

end Orin.Theory.Circular
