import Mathlib.Algebra.Group.Nat.Defs
import Mathlib.Data.Nat.Notation
import Mathlib.Order.Basic

namespace Orin.Rust

-- The ways a safe computation stops: overflow checks are on in every profile,
-- indexing is bounds-checked, and `panic!`/`assert!` carry their own message.
inductive Panic where
  | addOverflow
  | subOverflow
  | mulOverflow
  | indexOutOfBounds (len index : Nat)
  | rangeOutOfBounds (first last len : Nat)
  | explicit (message : String)
  deriving DecidableEq, Repr

-- The text the runtime prints for the stop.
def Panic.message : Panic → String
  | .addOverflow => "attempt to add with overflow"
  | .subOverflow => "attempt to subtract with overflow"
  | .mulOverflow => "attempt to multiply with overflow"
  | .indexOutOfBounds len index =>
      "index out of bounds: the len is " ++ toString len ++ " but the index is " ++ toString index
  | .rangeOutOfBounds first last len =>
      "range " ++ toString first ++ ".." ++ toString last ++
        " out of range for slice of length " ++ toString len
  | .explicit message => message

-- `format!("{:#x}", n)`.
def hex (n : Nat) : String := "0x" ++ String.ofList (Nat.toDigits 16 n)

-- Both `u64` and `usize` are 64 bits wide on the target. Irreducible, so that no
-- unification compares a sum with it in unary.
@[irreducible] def WORD : Nat := 2 ^ 64

theorem WORD_eq : WORD = 18446744073709551616 := by
  unfold WORD
  rfl

def add (a b : Nat) : Except Panic Nat :=
  if a + b < WORD then .ok (a + b) else .error .addOverflow

def sub (a b : Nat) : Except Panic Nat :=
  if b ≤ a then .ok (a - b) else .error .subOverflow

def mul (a b : Nat) : Except Panic Nat :=
  if a * b < WORD then .ok (a * b) else .error .mulOverflow

def saturating_add (a b : Nat) : Nat := min (a + b) (WORD - 1)

def saturating_mul (a b : Nat) : Nat := min (a * b) (WORD - 1)

-- `assert!(cond, message)`.
def assert (cond : Bool) (message : String) : Except Panic Unit :=
  if cond then .ok () else .error (.explicit message)

section Except

variable {ε α β : Type}

theorem bind_eq_ok {x : Except ε α} {f : α → Except ε β} {b : β} :
    x >>= f = .ok b ↔ ∃ a, x = .ok a ∧ f a = .ok b := by
  cases x with
  | error e => simp [bind, Except.bind]
  | ok a => simp [bind, Except.bind]

@[simp] theorem ok_bind (a : α) (f : α → Except ε β) : (Except.ok a >>= f) = f a := rfl

@[simp] theorem error_bind (e : ε) (f : α → Except ε β) :
    (Except.error e >>= f) = Except.error e := rfl

end Except

theorem add_eq_ok {a b c : Nat} : add a b = .ok c ↔ a + b < WORD ∧ c = a + b := by
  unfold add
  split
  · simp_all [eq_comm]
  · rename_i h
    simp [h]

theorem mul_eq_ok {a b c : Nat} : mul a b = .ok c ↔ a * b < WORD ∧ c = a * b := by
  unfold mul
  split
  · simp_all [eq_comm]
  · rename_i h
    simp [h]

theorem assert_eq_ok {cond : Bool} {message : String} {u : Unit} (h : assert cond message = .ok u) :
    cond = true := by
  unfold assert at h
  split at h
  · assumption
  · cases h

theorem add_of_lt {a b : Nat} (h : a + b < WORD) : add a b = .ok (a + b) := by
  simp [add, h]

theorem add_of_ge {a b : Nat} (h : WORD ≤ a + b) : add a b = .error .addOverflow := by
  simp [add, Nat.not_lt.mpr h]

theorem sub_of_le {a b : Nat} (h : b ≤ a) : sub a b = .ok (a - b) := by
  simp [sub, h]

theorem mul_of_lt {a b : Nat} (h : a * b < WORD) : mul a b = .ok (a * b) := by
  simp [mul, h]

section Ends

variable {ε α β : Type} {P P' : α → Prop} {Q : β → Prop} {S S' : ε → Prop}

-- How a computation can end: its value satisfies the postcondition, or the stop is
-- one of the admitted ones. With no stop admitted it is total correctness.
def Ends (P : α → Prop) (S : ε → Prop) : Except ε α → Prop
  | .ok a => P a
  | .error e => S e

theorem Ends.bind {x : Except ε α} {f : α → Except ε β} (hx : Ends P S x)
    (hf : ∀ a, P a → Ends Q S (f a)) : Ends Q S (x >>= f) := by
  cases x with
  | error e => exact hx
  | ok a => exact hf a hx

theorem Ends.mono {x : Except ε α} (hx : Ends P S x) (hP : ∀ a, P a → P' a)
    (hS : ∀ e, S e → S' e) : Ends P' S' x := by
  cases x with
  | error e => exact hS e hx
  | ok a => exact hP a hx

theorem Ends.and {x : Except ε α} (hx : Ends P S x) (hx' : Ends P' S' x) :
    Ends (fun a => P a ∧ P' a) (fun e => S e ∧ S' e) x := by
  cases x with
  | error e => exact ⟨hx, hx'⟩
  | ok a => exact ⟨hx, hx'⟩

theorem Ends.of_eq_ok {x : Except ε α} {a : α} (hx : Ends P S x) (h : x = .ok a) : P a := by
  subst h
  exact hx

theorem Ends.of_eq_error {x : Except ε α} {e : ε} (hx : Ends P S x) (h : x = .error e) : S e := by
  subst h
  exact hx

end Ends

section Arithmetic

variable {P : Nat → Prop} {S : Panic → Prop} {a b : Nat}

theorem ends_add (hP : a + b < WORD → P (a + b)) (hS : WORD ≤ a + b → S .addOverflow) :
    Ends P S (add a b) := by
  unfold add
  split
  · exact hP ‹_›
  · exact hS (Nat.le_of_not_lt ‹_›)

theorem ends_sub (hP : b ≤ a → P (a - b)) (hS : a < b → S .subOverflow) :
    Ends P S (sub a b) := by
  unfold sub
  split
  · exact hP ‹_›
  · exact hS (Nat.lt_of_not_le ‹_›)

theorem ends_mul (hP : a * b < WORD → P (a * b)) (hS : WORD ≤ a * b → S .mulOverflow) :
    Ends P S (mul a b) := by
  unfold mul
  split
  · exact hP ‹_›
  · exact hS (Nat.le_of_not_lt ‹_›)

theorem ends_assert {P : Unit → Prop} {cond : Bool} {message : String}
    (hP : cond = true → P ()) (hS : cond = false → S (.explicit message)) :
    Ends P S (assert cond message) := by
  unfold assert
  split
  · exact hP ‹_›
  · exact hS (by simpa using ‹¬cond = true›)

end Arithmetic

section Loop

variable {ε σ α : Type} {S : ε → Prop}

def forCount (body : Nat → σ → Except ε σ) : Nat → Nat → σ → Except ε σ
  | 0, _, s => .ok s
  | n + 1, i, s => body i s >>= forCount body n (i + 1)

-- `for i in lo..hi`, with the mutable locals of the body as the state. An empty or
-- reversed range runs the body no times.
def forRange (lo hi : Nat) (s : σ) (body : Nat → σ → Except ε σ) : Except ε σ :=
  forCount body (hi - lo) lo s

theorem ends_forCount {body : Nat → σ → Except ε σ} (I : Nat → σ → Prop) (n i : Nat) (s : σ)
    (hs : I i s) (hstep : ∀ j t, i ≤ j → j < i + n → I j t → Ends (I (j + 1)) S (body j t)) :
    Ends (I (i + n)) S (forCount body n i s) := by
  induction n generalizing i s with
  | zero => exact hs
  | succ n ih =>
      refine (hstep i s (Nat.le_refl _) (by omega) hs).bind fun t ht => ?_
      rw [show i + (n + 1) = i + 1 + n by omega]
      exact ih (i + 1) t ht fun j u h1 h2 => hstep j u (by omega) (by omega)

-- The loop rule: an invariant kept by every iteration holds where the loop ends.
theorem ends_forRange {lo hi : Nat} {s : σ} {body : Nat → σ → Except ε σ} (I : Nat → σ → Prop)
    (hs : I lo s) (hstep : ∀ j t, lo ≤ j → j < hi → I j t → Ends (I (j + 1)) S (body j t)) :
    Ends (I (max lo hi)) S (forRange lo hi s body) := by
  have hmax : lo + (hi - lo) = max lo hi := by omega
  rw [← hmax]
  exact ends_forCount I (hi - lo) lo s hs fun j t h1 h2 => hstep j t h1 (by omega)

-- A loop whose states are known one by one.
theorem forRange_eq {lo hi : Nat} {s : σ} {body : Nat → σ → Except ε σ} (state : Nat → σ)
    (hle : lo ≤ hi) (hs : state lo = s)
    (hstep : ∀ j, lo ≤ j → j < hi → body j (state j) = .ok (state (j + 1))) :
    forRange lo hi s body = .ok (state hi) := by
  have hends : Ends (fun t => t = state (max lo hi)) (fun _ => False) (forRange lo hi s body) := by
    refine ends_forRange (fun j t => t = state j) hs.symm ?_
    rintro j t h1 h2 rfl
    rw [hstep j h1 h2]
    rfl
  rw [Nat.max_eq_right hle] at hends
  cases hloop : forRange lo hi s body with
  | ok t => rw [hends.of_eq_ok hloop]
  | error e => exact (hends.of_eq_error hloop).elim

-- `for x in xs`: the invariant speaks of the elements already seen.
theorem ends_foldlM {body : σ → α → Except ε σ} (I : List α → σ → Prop) (xs : List α) (s : σ)
    (hs : I [] s)
    (hstep : ∀ seen x t, seen ++ [x] <+: xs → I seen t → Ends (I (seen ++ [x])) S (body t x)) :
    Ends (I xs) S (xs.foldlM body s) := by
  suffices h : ∀ rest seen t, seen ++ rest = xs → I seen t → Ends (I xs) S (rest.foldlM body t) from
    h xs [] s rfl hs
  intro rest
  induction rest with
  | nil =>
      intro seen t hxs hI
      rw [List.append_nil] at hxs
      exact hxs ▸ hI
  | cons x rest ih =>
      intro seen t hxs hI
      have hsplit : seen ++ [x] ++ rest = xs := by rw [List.append_assoc]; exact hxs
      rw [List.foldlM_cons]
      exact (hstep seen x t ⟨rest, hsplit⟩ hI).bind fun u hu => ih (seen ++ [x]) u hsplit hu

end Loop

end Orin.Rust
