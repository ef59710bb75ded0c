import Mathlib.Data.List.Basic

namespace Orin.Theory

-- One access to a byte-wide port, with the byte that went over it.
inductive Access (P : Type) where
  | read (port : P) (b : UInt8)
  | write (port : P) (b : UInt8)
  deriving DecidableEq, Repr

theorem byte_or_and (x y mask : UInt8) : (x ||| y) &&& mask = (x &&& mask) ||| (y &&& mask) := by
  apply UInt8.toBitVec_inj.mp
  ext i
  simp only [UInt8.toBitVec_and, UInt8.toBitVec_or, BitVec.getElem_and, BitVec.getElem_or]
  grind

theorem byte_and_or_self (x mask : UInt8) : (x &&& mask) ||| mask = mask := by
  apply UInt8.toBitVec_inj.mp
  ext i
  simp only [UInt8.toBitVec_and, UInt8.toBitVec_or, BitVec.getElem_and, BitVec.getElem_or]
  grind

-- Flags put beside arbitrary bits are read back through their mask.
theorem flags_beside (x : UInt8) {m mask : UInt8} (h : m &&& mask = 0) (flags : UInt8) :
    ((x &&& m) ||| flags) &&& mask = flags &&& mask := by
  rw [byte_or_and, UInt8.and_assoc, h, UInt8.and_zero, UInt8.zero_or]

def Access.port {P : Type} : Access P → P
  | .read port _ => port
  | .write port _ => port

-- A device that answers according to its state.
structure Device (P δ : Type) where
  read : P → δ → UInt8 × δ
  write : P → UInt8 → δ → δ

def Device.after {P δ : Type} (d : Device P δ) (s : δ) : Access P → δ
  | .read port _ => (d.read port s).2
  | .write port b => d.write port b s

-- The driver's side of a conversation with its devices: what it does next, for every answer.
inductive Talk (P α : Type) where
  | done (a : α)
  | read (port : P) (next : UInt8 → Talk P α)
  | write (port : P) (b : UInt8) (next : Talk P α)

namespace Talk

variable {P α β δ : Type}

protected def bind : Talk P α → (α → Talk P β) → Talk P β
  | .done a, f => f a
  | .read port next, f => .read port fun b => (next b).bind f
  | .write port b next, f => .write port b (next.bind f)

instance : Monad (Talk P) where
  pure := .done
  bind := Talk.bind

def input (port : P) : Talk P UInt8 := .read port .done

def output (port : P) (b : UInt8) : Talk P Unit := .write port b (.done ())

-- Reads `port` at most `n` times, until an answer is `ready`.
def poll (port : P) (ready : UInt8 → Bool) : Nat → Talk P Bool
  | 0 => return false
  | n + 1 => do
      let b ← input port
      if ready b then return true
      else poll port ready n

-- The courses a conversation can take when the devices may answer anything.
inductive Course : Talk P α → List (Access P) → α → Prop
  | done (a : α) : Course (.done a) [] a
  | read {port : P} {next : UInt8 → Talk P α} {trace : List (Access P)} {a : α} (b : UInt8) :
      Course (next b) trace a → Course (.read port next) (.read port b :: trace) a
  | write {port : P} {b : UInt8} {next : Talk P α} {trace : List (Access P)} {a : α} :
      Course next trace a → Course (.write port b next) (.write port b :: trace) a

section Courses

variable {t : Talk P α} {f : α → Talk P β} {trace : List (Access P)} {port : P}

theorem Course.of_pure {a b : α} (h : Course (pure a : Talk P α) trace b) : trace = [] ∧ b = a := by
  cases h
  exact ⟨rfl, rfl⟩

theorem Course.of_input {b : UInt8} (h : Course (input port) trace b) : trace = [.read port b] := by
  obtain _ | ⟨b', h⟩ := h
  cases h
  rfl

theorem Course.of_output {b : UInt8} {u : Unit} (h : Course (output port b) trace u) :
    trace = [.write port b] := by
  obtain _ | _ | h := h
  cases h
  rfl

theorem Course.of_bind {b : β} (h : Course (t >>= f) trace b) :
    ∃ a early late, Course t early a ∧ Course (f a) late b ∧ trace = early ++ late := by
  induction t generalizing trace with
  | done a => exact ⟨a, [], trace, .done a, h, rfl⟩
  | read port next ih =>
      obtain _ | ⟨answer, h⟩ := h
      obtain ⟨a, early, late, hearly, hlate, rfl⟩ := ih answer h
      exact ⟨a, _, late, .read answer hearly, hlate, rfl⟩
  | write port byte next ih =>
      obtain _ | _ | h := h
      obtain ⟨a, early, late, hearly, hlate, rfl⟩ := ih h
      exact ⟨a, _, late, .write hearly, hlate, rfl⟩

-- Polling ends with the first answer that is ready, or after `n` that are not.
theorem Course.of_poll {ready : UInt8 → Bool} {n : Nat} {answer : Bool}
    (h : Course (poll port ready n) trace answer) :
    ∃ early : List UInt8, (∀ b ∈ early, ready b = false) ∧
      ((answer = false ∧ early.length = n ∧ trace = early.map (.read port)) ∨
        ∃ b, answer = true ∧ ready b = true ∧ early.length < n ∧
          trace = early.map (.read port) ++ [.read port b]) := by
  induction n generalizing trace with
  | zero =>
      obtain ⟨rfl, rfl⟩ := Course.of_pure h
      exact ⟨[], by simp, .inl ⟨rfl, rfl, rfl⟩⟩
  | succ n ih =>
      obtain ⟨b, first, rest, hfirst, hrest, rfl⟩ := Course.of_bind h
      obtain rfl := hfirst.of_input
      by_cases hready : ready b = true
      · rw [if_pos hready] at hrest
        obtain ⟨rfl, rfl⟩ := Course.of_pure hrest
        exact ⟨[], by simp, .inr ⟨b, rfl, hready, Nat.succ_pos n, rfl⟩⟩
      · rw [if_neg hready] at hrest
        have hnot : ready b = false := by simpa using hready
        obtain ⟨early, hall, hcase⟩ := ih hrest
        refine ⟨b :: early, by simpa [hnot] using hall, ?_⟩
        obtain ⟨rfl, hlength, rfl⟩ | ⟨b', rfl, hready', hlt, rfl⟩ := hcase
        · exact .inl ⟨rfl, congrArg Nat.succ hlength, rfl⟩
        · exact .inr ⟨b', rfl, hready', Nat.succ_lt_succ hlt, rfl⟩

-- Going on only when the poll saw a ready answer.
theorem Course.of_poll_then {ready : UInt8 → Bool} {n : Nat} {go stop : Talk P β} {b : β}
    (h : Course (poll port ready n >>= fun answer => if answer then go else stop) trace b) :
    ∃ (early : List UInt8) (late : List (Access P)), (∀ b ∈ early, ready b = false) ∧
      ((Course stop late b ∧ early.length = n ∧ trace = early.map (.read port) ++ late) ∨
        ∃ byte, ready byte = true ∧ Course go late b ∧ early.length < n ∧
          trace = early.map (.read port) ++ .read port byte :: late) := by
  obtain ⟨answer, polled, late, hpoll, hlate, rfl⟩ := h.of_bind
  obtain ⟨early, hall, ⟨rfl, hlength, rfl⟩ | ⟨byte, rfl, hready, hlt, rfl⟩⟩ := hpoll.of_poll
  · exact ⟨early, late, hall, .inl ⟨hlate, hlength, rfl⟩⟩
  · exact ⟨early, late, hall, .inr ⟨byte, hready, hlate, hlt, by simp⟩⟩

end Courses

section Bounds

variable {t : Talk P α} {f : α → Talk P β} {n m : Nat}

-- However the devices answer, there are at most `n` accesses.
def AtMost (n : Nat) (t : Talk P α) : Prop := ∀ trace a, Course t trace a → trace.length ≤ n

theorem AtMost.pure (a : α) : AtMost 0 (pure a : Talk P α) := by
  intro trace b h
  obtain ⟨rfl, -⟩ := h.of_pure
  exact Nat.le_refl 0

theorem AtMost.input (port : P) : AtMost 1 (input port) := by
  intro trace b h
  rw [h.of_input]
  exact Nat.le_refl 1

theorem AtMost.output (port : P) (b : UInt8) : AtMost 1 (output port b) := by
  intro trace u h
  rw [h.of_output]
  exact Nat.le_refl 1

theorem AtMost.bind (ht : AtMost n t) (hf : ∀ a, AtMost m (f a)) : AtMost (n + m) (t >>= f) := by
  intro trace b h
  obtain ⟨a, early, late, hearly, hlate, rfl⟩ := h.of_bind
  rw [List.length_append]
  exact Nat.add_le_add (ht early a hearly) (hf a late b hlate)

theorem AtMost.mono (ht : AtMost n t) (h : n ≤ m) : AtMost m t :=
  fun trace a hc => Nat.le_trans (ht trace a hc) h

theorem AtMost.poll (port : P) (ready : UInt8 → Bool) (n : Nat) : AtMost n (poll port ready n) := by
  intro trace answer h
  obtain ⟨early, -, ⟨-, hlength, rfl⟩ | ⟨b, -, -, hlt, rfl⟩⟩ := h.of_poll
  · simpa using Nat.le_of_eq hlength
  · simpa using Nat.succ_le_of_lt hlt

end Bounds

section Manners

variable {ok : Option (Access P) → Access P → Prop}

-- Every access is in order after the one just before it.
def Minds (ok : Option (Access P) → Access P → Prop) (trace : List (Access P)) : Prop :=
  ∀ early x late, trace = early ++ x :: late → ok early.getLast? x

-- What may come first may come after anything.
def Lenient (ok : Option (Access P) → Access P → Prop) : Prop := ∀ last x, ok none x → ok last x

theorem Minds.nil : Minds ok [] := by
  intro early x late h
  simp at h

-- Accesses that are in order wherever they come.
theorem Minds.free {trace : List (Access P)} (h : ∀ x ∈ trace, ∀ last, ok last x) :
    Minds ok trace := by
  rintro early x late rfl
  exact h x (by simp) _

theorem Minds.pair {x y : Access P} (hx : ok none x) (hy : ok (some x) y) : Minds ok [x, y] := by
  intro early z late h
  match early, h with
  | [], h =>
      obtain ⟨rfl, -⟩ := List.cons.inj h
      exact hx
  | [w], h =>
      obtain ⟨rfl, rfl, -⟩ : x = w ∧ y = z ∧ [] = late := by simpa using h
      exact hy
  | _ :: _ :: early, h => simp at h

theorem Minds.append {past future : List (Access P)} (hok : Lenient ok) (hpast : Minds ok past)
    (hfuture : Minds ok future) : Minds ok (past ++ future) := by
  intro early x late h
  obtain ⟨more, rfl, hx⟩ | ⟨more, rfl, hx⟩ := List.append_eq_append_iff.mp h
  · -- the access is one of the future
    have hlast := hfuture more x late hx
    cases hmore : more.getLast? with
    | none =>
        rw [hmore] at hlast
        exact hok _ x hlast
    | some y =>
        rw [hmore] at hlast
        rwa [List.getLast?_append, hmore, Option.some_or]
  · cases more with
    | nil =>
        have hlast := hfuture [] x late hx.symm
        exact hok _ x hlast
    | cons y more =>
        obtain ⟨rfl, hx⟩ := List.cons.inj hx
        exact hpast early x more rfl

end Manners

section Written

variable [DecidableEq P]

-- The bytes that went out over `port`.
def written (port : P) (trace : List (Access P)) : List UInt8 :=
  trace.filterMap fun
    | .read _ _ => none
    | .write port' b => if port' = port then some b else none

theorem written_append (port : P) (past future : List (Access P)) :
    written port (past ++ future) = written port past ++ written port future :=
  List.filterMap_append

theorem written_reads (port port' : P) (answers : List UInt8) :
    written port (answers.map (.read port')) = [] := by
  simp [written, List.filterMap_map]

end Written

-- Only ports of `mine` are used.
def Touches (mine : P → Prop) (t : Talk P α) : Prop :=
  ∀ trace a, Course t trace a → ∀ x ∈ trace, mine x.port

section Touching

variable {mine : P → Prop} {t : Talk P α} {f : α → Talk P β} {port : P}

theorem Touches.pure (a : α) : Touches mine (pure a : Talk P α) := by
  intro trace b h
  obtain ⟨rfl, -⟩ := h.of_pure
  simp

theorem Touches.input (h : mine port) : Touches mine (input port) := by
  intro trace b hc
  simpa [hc.of_input, Access.port] using h

theorem Touches.output (h : mine port) (b : UInt8) : Touches mine (output port b) := by
  intro trace u hc
  simpa [hc.of_output, Access.port] using h

theorem Touches.bind (ht : Touches mine t) (hf : ∀ a, Touches mine (f a)) :
    Touches mine (t >>= f) := by
  intro trace b h
  obtain ⟨a, early, late, hearly, hlate, rfl⟩ := h.of_bind
  intro x hx
  obtain hx | hx := List.mem_append.mp hx
  · exact ht early a hearly x hx
  · exact hf a late b hlate x hx

theorem Touches.poll (h : mine port) (ready : UInt8 → Bool) (n : Nat) :
    Touches mine (poll port ready n) := by
  induction n with
  | zero => exact Touches.pure false
  | succ n ih =>
      refine (Touches.input h).bind fun b => ?_
      split
      · exact Touches.pure true
      · exact ih

end Touching

section Running

variable {d : Device P δ} {t : Talk P α} {f : α → Talk P β}

def run (d : Device P δ) : Talk P α → δ → α × δ
  | .done a, s => (a, s)
  | .read port next, s => run d (next (d.read port s).1) (d.read port s).2
  | .write port b next, s => run d next (d.write port b s)

@[simp] theorem run_pure (a : α) (s : δ) : run d (pure a : Talk P α) s = (a, s) := rfl

@[simp] theorem run_input (port : P) (s : δ) : run d (input port) s = d.read port s := rfl

@[simp] theorem run_output (port : P) (b : UInt8) (s : δ) :
    run d (output port b) s = ((), d.write port b s) := rfl

@[simp] theorem run_bind (s : δ) :
    run d (t >>= f) s = run d (f (run d t s).1) (run d t s).2 := by
  induction t generalizing s with
  | done a => rfl
  | read port next ih => exact ih (d.read port s).1 (d.read port s).2
  | write port b next ih => exact ih (d.write port b s)

-- What goes over the ports when the talk is played against `d`.
def transcript (d : Device P δ) : Talk P α → δ → List (Access P)
  | .done _, _ => []
  | .read port next, s =>
      .read port (d.read port s).1 :: transcript d (next (d.read port s).1) (d.read port s).2
  | .write port b next, s => .write port b :: transcript d next (d.write port b s)

-- Playing against a device is one of the courses.
theorem run_course (d : Device P δ) (t : Talk P α) (s : δ) :
    Course t (transcript d t s) (run d t s).1 := by
  induction t generalizing s with
  | done a => exact .done a
  | read port next ih => exact .read _ (ih (d.read port s).1 (d.read port s).2)
  | write port b next ih => exact .write (ih (d.write port b s))

theorem run_state (d : Device P δ) (t : Talk P α) (s : δ) :
    (run d t s).2 = (transcript d t s).foldl d.after s := by
  induction t generalizing s with
  | done a => rfl
  | read port next ih => exact ih (d.read port s).1 (d.read port s).2
  | write port b next ih => exact ih (d.write port b s)

-- A talk that only uses ports of `mine` keeps whatever accesses to them keep.
theorem Touches.keeps {mine : P → Prop} {inv : δ → Prop} {s : δ} (ht : Touches mine t)
    (hread : ∀ port s, mine port → inv s → inv (d.read port s).2)
    (hwrite : ∀ port b s, mine port → inv s → inv (d.write port b s)) (hs : inv s) :
    inv (run d t s).2 := by
  have hmine := ht _ _ (run_course d t s)
  rw [run_state]
  refine List.foldlRecOn (transcript d t s) d.after hs fun s hs x hx => ?_
  cases x with
  | read port b => exact hread port s (hmine _ hx) hs
  | write port b => exact hwrite port b s (hmine _ hx) hs

-- Polling a device that needs `k` reads to come round.
theorem run_poll_ready {port : P} {ready : UInt8 → Bool} {n k : Nat} (answers : Nat → UInt8)
    (states : Nat → δ) (hk : k < n)
    (hread : ∀ i, d.read port (states i) = (answers i, states (i + 1)))
    (hearly : ∀ i < k, ready (answers i) = false) (hready : ready (answers k) = true) :
    run d (poll port ready n) (states 0) = (true, states (k + 1)) := by
  induction k generalizing answers states n with
  | zero =>
      obtain ⟨n, rfl⟩ := Nat.exists_eq_succ_of_ne_zero (Nat.ne_of_gt hk)
      rw [poll, run_bind, run_input, hread 0, if_pos hready]
      rfl
  | succ k ih =>
      obtain ⟨n, rfl⟩ := Nat.exists_eq_succ_of_ne_zero (Nat.ne_zero_of_lt hk)
      have hfirst := hearly 0 (Nat.succ_pos k)
      rw [poll, run_bind, run_input, hread 0, if_neg (by simp [hfirst])]
      exact ih (fun i => answers (i + 1)) (fun i => states (i + 1)) (Nat.lt_of_succ_lt_succ hk)
        (fun i => hread (i + 1)) (fun i hi => hearly (i + 1) (Nat.succ_lt_succ hi)) hready

theorem run_poll_never {port : P} {ready : UInt8 → Bool} {n : Nat} (answers : Nat → UInt8)
    (states : Nat → δ) (hread : ∀ i, d.read port (states i) = (answers i, states (i + 1)))
    (hearly : ∀ i, ready (answers i) = false) :
    run d (poll port ready n) (states 0) = (false, states n) := by
  induction n generalizing answers states with
  | zero => rfl
  | succ n ih =>
      rw [poll, run_bind, run_input, hread 0, if_neg (by simp [hearly 0])]
      exact ih (fun i => answers (i + 1)) (fun i => states (i + 1)) (fun i => hread (i + 1))
        (fun i => hearly (i + 1))

end Running

section Yielding

variable {d : Device P δ} {t : Talk P α} {f : α → Talk P β} {s : δ} {a : α} {b : β}
  {post : δ → Prop}

-- Played against `d` from `s`, the talk returns `a` and leaves the device in a state with `post`.
def Yields (d : Device P δ) (t : Talk P α) (s : δ) (a : α) (post : δ → Prop) : Prop :=
  (run d t s).1 = a ∧ post (run d t s).2

theorem Yields.pure (h : post s) : Yields d (pure a) s a post := ⟨rfl, h⟩

theorem Yields.mono {post' : δ → Prop} (ht : Yields d t s a post) (h : ∀ s', post s' → post' s') :
    Yields d t s a post' := ⟨ht.1, h _ ht.2⟩

theorem Yields.bind {final : δ → Prop} (ht : Yields d t s a post)
    (hf : ∀ s', post s' → Yields d (f a) s' b final) : Yields d (t >>= f) s b final := by
  obtain ⟨rfl, hpost⟩ := ht
  unfold Yields
  rw [run_bind]
  exact hf _ hpost

theorem Yields.output_bind {port : P} {byte : UInt8} {f : Unit → Talk P β} {final : δ → Prop}
    (h : Yields d (f ()) (d.write port byte s) b final) :
    Yields d (output port byte >>= f) s b final := h

end Yielding

end Talk

end Orin.Theory
