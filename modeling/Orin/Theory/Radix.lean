import Mathlib.Data.List.Induction

namespace Orin.Theory.Radix

-- What an entry of a table says: nothing below it, the next table, or a page.
inductive Slot (A : Type) where
  | empty
  | table (a : A)
  | leaf
  deriving DecidableEq, Repr

abbrev Mem (A I E : Type) := A → I → E

section Mem

variable {A I E : Type} [DecidableEq A]

def fill (mem : Mem A I E) (a : A) (e : E) : Mem A I E :=
  fun b j => if b = a then e else mem b j

@[simp] theorem fill_here (mem : Mem A I E) (a : A) (e : E) (i : I) : fill mem a e a i = e := by
  simp [fill]

theorem fill_elsewhere (mem : Mem A I E) {a b : A} (e : E) (i : I) (h : b ≠ a) :
    fill mem a e b i = mem b i := by
  simp [fill, h]

variable [DecidableEq I]

def write (mem : Mem A I E) (a : A) (i : I) (e : E) : Mem A I E :=
  fun b j => if b = a ∧ j = i then e else mem b j

@[simp] theorem write_here (mem : Mem A I E) (a : A) (i : I) (e : E) : write mem a i e a i = e := by
  simp [write]

theorem write_elsewhere (mem : Mem A I E) {a b : A} {i j : I} (e : E) (h : ¬(b = a ∧ j = i)) :
    write mem a i e b j = mem b j := by
  simp [write, h]

theorem write_table (mem : Mem A I E) {a b : A} {i : I} (j : I) (e : E) (h : b ≠ a) :
    write mem a i e b j = mem b j := by
  simp [write, h]

end Mem

section Walk

variable {A I E : Type} (slot : E → Slot A) (mem : Mem A I E)

-- The table a path leads to.
def walk (a : A) : List I → Option A
  | [] => some a
  | i :: path =>
      match slot (mem a i) with
      | .table b => walk b path
      | _ => none

-- The entry that maps a full path, with the part of the path below it. At the last
-- index a pointer to a table and a page are the same thing.
def find (a : A) : List I → Option (E × List I)
  | [] => none
  | [i] =>
      match slot (mem a i) with
      | .empty => none
      | _ => some (mem a i, [])
  | i :: j :: path =>
      match slot (mem a i) with
      | .empty => none
      | .table b => find b (j :: path)
      | .leaf => some (mem a i, j :: path)

variable {slot mem} {a b c : A} {i j : I} {p q r : List I} {e : E}

@[simp] theorem walk_nil : walk slot mem a [] = some a := rfl

theorem walk_cons : walk slot mem a (i :: p) = some c ↔
    ∃ b, slot (mem a i) = .table b ∧ walk slot mem b p = some c := by
  rw [walk]
  split
  · rename_i b hb
    simp [hb]
  · rename_i hb
    simp only [reduceCtorEq, false_iff, not_exists, not_and]
    exact fun b h => absurd h (hb b)

theorem walk_append : walk slot mem a (p ++ q) = some c ↔
    ∃ b, walk slot mem a p = some b ∧ walk slot mem b q = some c := by
  induction p generalizing a with
  | nil => simp
  | cons i p ih =>
      simp only [List.cons_append, walk_cons, ih]
      constructor
      · rintro ⟨b, hb, d, hd, hc⟩
        exact ⟨d, ⟨b, hb, hd⟩, hc⟩
      · rintro ⟨d, ⟨b, hb, hd⟩, hc⟩
        exact ⟨b, hb, d, hd, hc⟩

theorem walk_snoc : walk slot mem a (p ++ [i]) = some c ↔
    ∃ b, walk slot mem a p = some b ∧ slot (mem b i) = .table c := by
  simp [walk_append, walk_cons]

theorem find_cons_table (h : slot (mem a i) = .table b) (hp : p ≠ []) :
    find slot mem a (i :: p) = find slot mem b p := by
  cases p with
  | nil => exact absurd rfl hp
  | cons j p => simp [find, h]

theorem find_cons_empty (h : slot (mem a i) = .empty) : find slot mem a (i :: p) = none := by
  cases p with
  | nil => simp [find, h]
  | cons j p => simp [find, h]

theorem find_cons_leaf (h : slot (mem a i) = .leaf) :
    find slot mem a (i :: p) = some (mem a i, p) := by
  cases p with
  | nil => simp [find, h]
  | cons j p => simp [find, h]

theorem find_last (h : slot (mem a i) ≠ .empty) : find slot mem a [i] = some (mem a i, []) := by
  cases hs : slot (mem a i) with
  | empty => exact absurd hs h
  | table b => simp [find, hs]
  | leaf => simp [find, hs]

theorem find_append (h : walk slot mem a p = some b) (hq : q ≠ []) :
    find slot mem a (p ++ q) = find slot mem b q := by
  induction p generalizing a with
  | nil =>
      cases h
      rfl
  | cons i p ih =>
      obtain ⟨c, hc, hb⟩ := walk_cons.mp h
      rw [List.cons_append, find_cons_table hc (by simp [hq])]
      exact ih hb

-- Only a page above the last level leaves a part of the path unread.
theorem slot_of_find (h : find slot mem a p = some (e, r)) (hr : r ≠ []) : slot e = .leaf := by
  induction p generalizing a with
  | nil => cases h
  | cons i p ih =>
      cases hs : slot (mem a i) with
      | empty =>
          rw [find_cons_empty hs] at h
          cases h
      | leaf =>
          rw [find_cons_leaf hs] at h
          cases h
          exact hs
      | table b =>
          cases p with
          | nil =>
              rw [find_last (by simp [hs])] at h
              cases h
              exact absurd rfl hr
          | cons j p =>
              rw [find_cons_table hs (by simp)] at h
              exact ih h

end Walk

section Congr

variable {A I E : Type} {slot : E → Slot A} {mem mem' : Mem A I E} {a : A} {p : List I}

-- Two memories whose entries a walk reads alike agree on the walk.
theorem walk_congr_slot (h : ∀ q i r, p = q ++ i :: r → ∀ b, walk slot mem a q = some b →
      slot (mem' b i) = slot (mem b i)) :
    walk slot mem' a p = walk slot mem a p := by
  induction p generalizing a with
  | nil => rfl
  | cons i p ih =>
      rw [walk, walk, h [] i p rfl a rfl]
      split
      · rename_i c hc
        refine ih fun q k r hp b hq => h (i :: q) k r (by simp [hp]) b ?_
        exact walk_cons.mpr ⟨c, hc, hq⟩
      · rfl

theorem walk_congr
    (h : ∀ q i r, p = q ++ i :: r → ∀ b, walk slot mem a q = some b → mem' b i = mem b i) :
    walk slot mem' a p = walk slot mem a p :=
  walk_congr_slot fun q i r hp b hb => congrArg slot (h q i r hp b hb)

theorem find_congr
    (h : ∀ q i r, p = q ++ i :: r → ∀ b, walk slot mem a q = some b → mem' b i = mem b i) :
    find slot mem' a p = find slot mem a p := by
  induction p generalizing a with
  | nil => rfl
  | cons i p ih =>
      have hentry := h [] i p rfl a rfl
      cases p with
      | nil => simp [find, hentry]
      | cons k p =>
          simp only [find, hentry]
          split
          · rfl
          · rename_i c hc
            refine ih fun q j r hp b hq => h (i :: q) j r (by simp [hp]) b ?_
            exact walk_cons.mpr ⟨c, hc, hq⟩
          · rfl

end Congr

section Write

variable {A I E : Type} [DecidableEq A] [DecidableEq I]
variable {slot : E → Slot A} {mem : Mem A I E} {a b c : A} {j : I} {p : List I} {e : E}

theorem walk_write (h : ∀ q r, p = q ++ j :: r → walk slot mem a q ≠ some b) :
    walk slot (write mem b j e) a p = walk slot mem a p := by
  refine walk_congr fun q i r hp d hd => write_elsewhere mem e ?_
  rintro ⟨rfl, rfl⟩
  exact h q r hp hd

theorem find_write (h : ∀ q r, p = q ++ j :: r → walk slot mem a q ≠ some b) :
    find slot (write mem b j e) a p = find slot mem a p := by
  refine find_congr fun q i r hp d hd => write_elsewhere mem e ?_
  rintro ⟨rfl, rfl⟩
  exact h q r hp hd

-- An entry that is no pointer cuts paths off and opens none.
theorem walk_write_leaf (he : ∀ d, slot e ≠ .table d)
    (h : walk slot (write mem b j e) a p = some c) : walk slot mem a p = some c := by
  induction p generalizing a with
  | nil => exact h
  | cons i p ih =>
      obtain ⟨d, hd, hp⟩ := walk_cons.mp h
      by_cases hat : a = b ∧ i = j
      · obtain ⟨rfl, rfl⟩ := hat
        rw [write_here] at hd
        exact absurd hd (he d)
      · rw [write_elsewhere mem e hat] at hd
        exact walk_cons.mpr ⟨d, hd, ih hp⟩

end Write

-- A name for each path, by which the paths that share a table are recognised.
structure Naming {I : Type} (home : List I → List I) : Prop where
  length : ∀ p, (home p).length = p.length
  snoc : ∀ p q i, home p = home q → home (p ++ [i]) = home (q ++ [i])

theorem Naming.length_eq {I : Type} {home : List I → List I} (h : Naming home) {p q : List I}
    (hpq : home p = home q) : p.length = q.length := by
  rw [← h.length p, hpq, h.length q]

section Separate

variable {A I E : Type} (slot : E → Slot A) (home : List I → List I) (depth : Nat)

def Reached (mem : Mem A I E) (root a : A) : Prop :=
  ∃ p : List I, p.length < depth ∧ walk slot mem root p = some a

-- Two paths lead to one table only when they have one name.
def Separate (mem : Mem A I E) (root : A) : Prop :=
  ∀ p q a, p.length < depth → q.length < depth →
    walk slot mem root p = some a → walk slot mem root q = some a → home p = home q

end Separate

section Update

variable {A I E : Type} [DecidableEq A] [DecidableEq I]
variable {slot : E → Slot A} {home : List I → List I} {depth : Nat}
variable {mem : Mem A I E} {root a b c : A} {j : I} {p q r : List I} {e zero : E}

omit [DecidableEq A] [DecidableEq I] in
theorem Separate.not_revisited (hsep : Separate slot home depth mem root) (hname : Naming home)
    (hq : q.length < depth) (hb : walk slot mem root q = some b) :
    ∀ q' r, q = q' ++ j :: r → walk slot mem root q' ≠ some b := by
  intro q' r hsplit hb'
  have hlen : q'.length < q.length := by simp [hsplit]
  have := hname.length_eq (hsep q' q b (by omega) hq hb' hb)
  omega

-- Installs a cleared table under an entry.
def link (mem : Mem A I E) (b : A) (j : I) (c : A) (zero e : E) : Mem A I E :=
  write (fill mem c zero) b j e

theorem link_elsewhere (hc : a ≠ c) {i : I} (hb : ¬(a = b ∧ i = j)) :
    link mem b j c zero e a i = mem a i := by
  rw [link, write_elsewhere _ e hb, fill_elsewhere mem zero i hc]

-- A table is linked where nothing was, it is cleared, and nothing led to it before.
structure Linking (slot : E → Slot A) (depth : Nat) (mem : Mem A I E) (root : A)
    (q : List I) (b : A) (j : I) (c : A) (zero e : E) : Prop where
  short : q.length + 1 < depth
  parent : walk slot mem root q = some b
  vacant : slot (mem b j) = .empty
  fresh : ¬Reached slot depth mem root c
  cleared : slot zero = .empty
  pointer : slot e = .table c

namespace Linking

variable (h : Linking slot depth mem root q b j c zero e)

include h

omit [DecidableEq A] [DecidableEq I] in
theorem parent_ne : b ≠ c := by
  rintro rfl
  exact h.fresh ⟨q, by have := h.short; omega, h.parent⟩

theorem child_empty (i : I) : slot (link mem b j c zero e c i) = .empty := by
  rw [link, write_table _ i e h.parent_ne.symm, fill_here]
  exact h.cleared

theorem walk_of_some (hp : p.length ≤ depth) (ha : walk slot mem root p = some a) :
    walk slot (link mem b j c zero e) root p = some a := by
  rw [← ha]
  refine walk_congr fun q i r hsplit d hd => link_elsewhere ?_ ?_
  · rintro rfl
    exact h.fresh ⟨q, by simp [hsplit] at hp; omega, hd⟩
  · rintro ⟨rfl, rfl⟩
    rw [hsplit] at ha
    obtain ⟨d', hd', hrest⟩ := walk_append.mp ha
    obtain rfl : d = d' := Option.some.inj (hd.symm.trans hd')
    obtain ⟨next, hnext, -⟩ := walk_cons.mp hrest
    rw [h.vacant] at hnext
    cases hnext

theorem walk_new : walk slot (link mem b j c zero e) root (q ++ [j]) = some c := by
  have hshort := h.short
  have hparent := h.walk_of_some (by omega) h.parent
  exact walk_snoc.mpr ⟨b, hparent, by rw [link, write_here]; exact h.pointer⟩

-- The walks of the new memory are the old ones and those to the new table.
theorem walk_cases (hsep : Separate slot home depth mem root) (hname : Naming home)
    (hp : p.length < depth) (ha : walk slot (link mem b j c zero e) root p = some a) :
    walk slot mem root p = some a ∨ (a = c ∧ home p = home (q ++ [j])) := by
  induction p using List.reverseRecOn generalizing a with
  | nil => exact .inl ha
  | append_singleton p i ih =>
      have hlen : p.length < depth := by simp at hp; omega
      obtain ⟨d, hd, hentry⟩ := walk_snoc.mp ha
      rcases ih hlen hd with hold | ⟨rfl, -⟩
      · have hdc : d ≠ c := fun hdc => h.fresh ⟨p, hlen, hdc ▸ hold⟩
        by_cases hat : d = b ∧ i = j
        · obtain ⟨rfl, rfl⟩ := hat
          rw [link, write_here, h.pointer] at hentry
          cases hentry
          have hpq := hsep p q d hlen (by have := h.short; omega) hold h.parent
          exact .inr ⟨rfl, hname.snoc p q i hpq⟩
        · rw [link_elsewhere hdc hat] at hentry
          exact .inl (walk_snoc.mpr ⟨d, hold, hentry⟩)
      · rw [h.child_empty i] at hentry
        cases hentry

theorem separate (hsep : Separate slot home depth mem root) (hname : Naming home) :
    Separate slot home depth (link mem b j c zero e) root := by
  intro p p' a hp hp' ha ha'
  rcases h.walk_cases hsep hname hp ha with hold | ⟨rfl, hnew⟩
  · rcases h.walk_cases hsep hname hp' ha' with hold' | ⟨rfl, -⟩
    · exact hsep p p' a hp hp' hold hold'
    · exact absurd ⟨p, hp, hold⟩ h.fresh
  · rcases h.walk_cases hsep hname hp' ha' with hold' | ⟨-, hnew'⟩
    · exact absurd ⟨p', hp', hold'⟩ h.fresh
    · exact hnew.trans hnew'.symm

-- Linking maps nothing and unmaps nothing.
theorem find_eq (hsep : Separate slot home depth mem root) (hname : Naming home)
    (hp : p.length = depth) :
    find slot (link mem b j c zero e) root p = find slot mem root p := by
  by_cases hhit : ∃ q' r, p = q' ++ j :: r ∧ walk slot mem root q' = some b
  · obtain ⟨q', r, rfl, hq'⟩ := hhit
    have hshort := h.short
    have hlen : q'.length < depth := by simp at hp; omega
    have hsame := hname.length_eq (hsep q' q b hlen (by omega) hq' h.parent)
    have hr : r ≠ [] := by
      rintro rfl
      simp at hp
      omega
    obtain ⟨k, r', rfl⟩ := List.exists_cons_of_ne_nil hr
    rw [find_append hq' (by simp), find_cons_empty h.vacant,
      find_append (h.walk_of_some (by omega) hq') (by simp),
      find_cons_table (by rw [link, write_here]; exact h.pointer) (by simp),
      find_cons_empty (h.child_empty k)]
  · refine find_congr fun q' i r hsplit d hd => link_elsewhere ?_ ?_
    · rintro rfl
      exact h.fresh ⟨q', by simp [hsplit] at hp; omega, hd⟩
    · rintro ⟨rfl, rfl⟩
      exact hhit ⟨q', r, hsplit, hd⟩

end Linking

theorem Separate.write_leaf (hsep : Separate slot home depth mem root)
    (he : ∀ d, slot e ≠ .table d) : Separate slot home depth (write mem b j e) root :=
  fun p p' a hp hp' ha ha' =>
    hsep p p' a hp hp' (walk_write_leaf he ha) (walk_write_leaf he ha')

-- A page written above the last level maps everything below its entry.
theorem Separate.find_write_leaf (hsep : Separate slot home depth mem root) (hname : Naming home)
    (hq : q.length < depth) (hb : walk slot mem root q = some b) (he : slot e = .leaf) :
    find slot (write mem b j e) root (q ++ j :: r) = some (e, r) := by
  have hwalk : walk slot (write mem b j e) root q = some b := by
    rw [walk_write (hsep.not_revisited hname hq hb)]
    exact hb
  rw [find_append hwalk (by simp), find_cons_leaf (by rw [write_here]; exact he), write_here]

-- The entries of the last level lead nowhere.
theorem Separate.walk_write_last (hsep : Separate slot home depth mem root) (hname : Naming home)
    (hq : q.length + 1 = depth) (hb : walk slot mem root q = some b) (hp : p.length < depth) :
    walk slot (write mem b j e) root p = walk slot mem root p := by
  refine walk_write fun q' r hsplit hq' => ?_
  have hlen : q'.length + 1 ≤ p.length := by simp [hsplit]
  have := hname.length_eq (hsep q' q b (by omega) (by omega) hq' hb)
  omega

theorem Separate.find_write_last (hsep : Separate slot home depth mem root) (hname : Naming home)
    (hq : q.length + 1 = depth) (hb : walk slot mem root q = some b) (he : slot e ≠ .empty) :
    find slot (write mem b j e) root (q ++ [j]) = some (e, []) := by
  have hwalk : walk slot (write mem b j e) root q = some b := by
    rw [hsep.walk_write_last hname hq hb (by omega)]
    exact hb
  rw [find_append hwalk (by simp), find_last (by rw [write_here]; exact he), write_here]

theorem Separate.write_last (hsep : Separate slot home depth mem root) (hname : Naming home)
    (hq : q.length + 1 = depth) (hb : walk slot mem root q = some b) :
    Separate slot home depth (write mem b j e) root := by
  intro p p' a hp hp' ha ha'
  rw [hsep.walk_write_last hname hq hb hp] at ha
  rw [hsep.walk_write_last hname hq hb hp'] at ha'
  exact hsep p p' a hp hp' ha ha'

-- Writing an entry leaves every path alone that is not named by it.
theorem Separate.find_write_other (hsep : Separate slot home depth mem root)
    (hq : q.length < depth) (hb : walk slot mem root q = some b) (hp : p.length ≤ depth)
    (hother : ∀ q' r, p = q' ++ j :: r → home q' ≠ home q) :
    find slot (write mem b j e) root p = find slot mem root p := by
  refine find_write fun q' r hsplit hq' => ?_
  exact hother q' r hsplit (hsep q' q b (by simp [hsplit] at hp; omega) hq hq' hb)

-- The pointers of a part of the tree all have a property.
def Pointers (slot : E → Slot A) (depth : Nat) (mem : Mem A I E) (root : A) (part : List I → Prop)
    (Q : E → Prop) : Prop :=
  ∀ p i a d, part (p ++ [i]) → p.length + 1 < depth → walk slot mem root p = some a →
    slot (mem a i) = .table d → Q (mem a i)

variable {part : List I → Prop} {Q : E → Prop}

theorem Linking.pointers (h : Linking slot depth mem root q b j c zero e)
    (hsep : Separate slot home depth mem root) (hname : Naming home) (he : Q e)
    (hall : Pointers slot depth mem root part Q) :
    Pointers slot depth (link mem b j c zero e) root part Q := by
  intro p i a d hpart hlen ha hentry
  rcases h.walk_cases hsep hname (by omega) ha with hold | ⟨rfl, -⟩
  · by_cases hat : a = b ∧ i = j
    · obtain ⟨rfl, rfl⟩ := hat
      rw [link, write_here]
      exact he
    · have hac : a ≠ c := fun hac => h.fresh ⟨p, by omega, hac ▸ hold⟩
      rw [link_elsewhere hac hat] at hentry ⊢
      exact hall p i a d hpart hlen hold hentry
  · rw [h.child_empty i] at hentry
    cases hentry

-- The entries of the last level are no pointers.
theorem Separate.pointers_write_last (hsep : Separate slot home depth mem root)
    (hname : Naming home) (hq : q.length + 1 = depth) (hb : walk slot mem root q = some b)
    (hall : Pointers slot depth mem root part Q) :
    Pointers slot depth (write mem b j e) root part Q := by
  intro p i a d hpart hlen ha hentry
  rw [hsep.walk_write_last hname hq hb (by omega)] at ha
  have hab : a ≠ b := by
    rintro rfl
    have := hname.length_eq (hsep p q a (by omega) (by omega) ha hb)
    omega
  rw [write_table mem i e hab] at hentry ⊢
  exact hall p i a d hpart hlen ha hentry

end Update

end Orin.Theory.Radix
