import Orin.Memory.Vmm.Root

namespace Orin.Memory.Vmm

open Rust Arch Boot
open Theory.Radix

-- An entry of the boot map with its permission bits replaced.
def hardened (f e : Nat) : Nat := entry_addr e ||| f ||| flags.HUGE_PAGE

-- The first `n` entries of a page directory rewritten.
def State.harden (s : State) (f pd n : Nat) : State :=
  { s with mem := fun a j => if a = pd ∧ j < n then hardened f (s.mem a j) else s.mem a j }

section Entry

variable {f e : Nat}

theorem hardened_addr (hf : entry_addr f = 0) : entry_addr (hardened f e) = entry_addr e := by
  rw [hardened, entry_addr_or, entry_addr_or, hf,
    entry_addr_of_page (entry_addr_mod e) (entry_addr_lt e),
    show entry_addr flags.HUGE_PAGE = 0 by rfl, Nat.or_zero, Nat.or_zero]

theorem hardened_hardened (hf : entry_addr f = 0) : hardened f (hardened f e) = hardened f e := by
  rw [hardened, hardened_addr hf]
  rfl

theorem slot_hardened (hf : is_present f = true) : slot (hardened f e) = .leaf := by
  have hmod := entry_addr_mod e
  rw [slot_leaf_iff, hardened, Nat.or_assoc, is_present_or _ hmod, is_huge_or _ hmod,
    is_present_eq, is_huge_eq, Nat.testBit_or, Nat.testBit_or, ← is_present_eq f, hf]
  exact ⟨rfl, Bool.or_true _⟩

-- Below and above the address field the bits are those of the permissions.
theorem hardened_testBit {k : Nat} (hk : k < 12 ∨ 52 ≤ k) :
    (hardened f e).testBit k = (f.testBit k || decide (k = 7)) := by
  have haddr : (entry_addr e).testBit k = false := by
    rw [entry_addr, Nat.testBit_and, mask_testBit]
    rcases hk with h | h
    · simp [Nat.not_le.mpr h]
    · simp [Nat.not_lt.mpr h]
  have hhuge : flags.HUGE_PAGE.testBit k = decide (k = 7) := by
    rw [show flags.HUGE_PAGE = 2 ^ 7 by rfl, Nat.testBit_two_pow]
    exact decide_eq_decide.mpr eq_comm
  rw [hardened, Nat.testBit_or, Nat.testBit_or, haddr, hhuge, Bool.false_or]

end Entry

section Harden

variable {s : State} {f pd : Nat}

theorem harden_zero : s.harden f pd 0 = s := by
  simp [State.harden]

theorem harden_pd_eq (entries : Nat) (hpresent : ∀ j, j < 512 → is_present (s.mem pd j) = true)
    (hcount : entries + 512 < WORD) :
    harden_pd f pd s entries = .ok (s.harden f pd 512, entries + 512) := by
  refine forRange_eq (fun n => (s.harden f pd n, entries + n)) (by decide) ?_ fun j _ hj => ?_
  · rw [harden_zero]
    rfl
  · have hrow : (s.harden f pd j).mem pd j = s.mem pd j := by simp [State.harden]
    have hset : (s.harden f pd j).set pd j (hardened f (s.mem pd j)) = s.harden f pd (j + 1) := by
      simp only [State.set, State.harden, State.mk.injEq, and_true]
      funext a k
      by_cases hat : a = pd ∧ k = j
      · obtain ⟨rfl, rfl⟩ := hat
        simp
      · rw [write_elsewhere _ _ hat]
        by_cases ha : a = pd
        · have hk : k < j ↔ k < j + 1 := by omega
          simp only [hk]
        · simp [ha]
    simp only [hrow, hpresent j hj, Bool.not_true, Bool.false_eq_true, ↓reduceIte]
    rw [add_of_lt (by omega), ok_bind]
    show Except.ok ((s.harden f pd j).set pd j (hardened f (s.mem pd j)), entries + j + 1) = _
    rw [hset, Nat.add_assoc]

theorem harden_here {j : Nat} (hj : j < 512) : (s.harden f pd 512).mem pd j = hardened f (s.mem pd j) := by
  simp [State.harden, hj]

theorem harden_elsewhere {a j : Nat} (h : ¬(a = pd ∧ j < 512)) :
    (s.harden f pd 512).mem a j = s.mem a j := by
  simp [State.harden, h]

theorem harden_harden (hf : entry_addr f = 0) :
    (s.harden f pd 512).harden f pd 512 = s.harden f pd 512 := by
  simp only [State.harden, State.mk.injEq, and_true]
  funext a j
  by_cases hat : a = pd ∧ j < 512
  · simp [hat, hardened_hardened hf]
  · simp [hat]

theorem harden_comm (other : Nat) : (s.harden f pd 512).harden f other 512 =
    (s.harden f other 512).harden f pd 512 := by
  simp only [State.harden, State.mk.injEq, and_true]
  funext a j
  split_ifs <;> rfl

-- No table appears and none is lost.
theorem slot_harden (hrow : ∀ j, j < 512 → slot (s.mem pd j) = .leaf) (hf : is_present f = true)
    (a j : Nat) : slot ((s.harden f pd 512).mem a j) = slot (s.mem a j) := by
  by_cases hat : a = pd ∧ j < 512
  · obtain ⟨rfl, hj⟩ := hat
    rw [harden_here hj, slot_hardened hf, hrow j hj]
  · rw [harden_elsewhere hat]

end Harden

section Boot

variable {s : State} {bss f : Nat} {entry : Nat → Nat}

-- The state after the slots below `k` of the boot PDPT: the first two slots rewrite the
-- two directories, and slots 510 and 511 find them rewritten.
def hardening (s : State) (bss f k : Nat) : State :=
  if k = 0 then s else if k = 1 then s.harden f (boot_pd0 bss) 512
  else (s.harden f (boot_pd0 bss) 512).harden f (boot_pd1 bss) 512

def hardening_count (k : Nat) : Nat :=
  if k = 0 then 0 else if k = 1 then 512 else if k ≤ 510 then 1024 else if k = 511 then 1536 else 2048

theorem slot_hardening (low : Low bss entry s) (hf : is_present f = true) (k a j : Nat) :
    slot ((hardening s bss f k).mem a j) = slot (s.mem a j) := by
  have h0 := slot_harden (s := s) (f := f) (fun j hj => by rw [low.slot_pd0, if_pos hj]) hf
  unfold hardening
  split_ifs
  · rfl
  · exact h0 a j
  · rw [slot_harden (fun j hj => by rw [h0, low.slot_pd1, if_pos hj]) hf, h0]

theorem hardening_pd0 {k : Nat} (hf : entry_addr f = 0) (hk : k = 0 ∨ k = 510) :
    (hardening s bss f k).harden f (boot_pd0 bss) 512 = hardening s bss f (k + 1) := by
  rcases hk with rfl | rfl
  · rfl
  · show ((s.harden f (boot_pd0 bss) 512).harden f (boot_pd1 bss) 512).harden f (boot_pd0 bss) 512 =
      (s.harden f (boot_pd0 bss) 512).harden f (boot_pd1 bss) 512
    rw [harden_comm, harden_harden hf]

theorem hardening_pd1 {k : Nat} (hf : entry_addr f = 0) (hk : k = 1 ∨ k = 511) :
    (hardening s bss f k).harden f (boot_pd1 bss) 512 = hardening s bss f (k + 1) := by
  rcases hk with rfl | rfl
  · rfl
  · show ((s.harden f (boot_pd0 bss) 512).harden f (boot_pd1 bss) 512).harden f (boot_pd1 bss) 512 =
      (s.harden f (boot_pd0 bss) 512).harden f (boot_pd1 bss) 512
    rw [harden_harden hf]

theorem harden_slot_table {pdpt k pd entries : Nat} (hk : slot (s.mem pdpt k) = .table pd)
    (htable : table_at pd = .ok pd) (hrow : ∀ j, j < 512 → slot (s.mem pd j) = .leaf)
    (hcount : entries + 512 < WORD) :
    harden_slot f pdpt k s entries = .ok (s.harden f pd 512, entries + 512) := by
  obtain ⟨hp3, hh3, ha3⟩ := slot_table_iff.mp hk
  simp only [harden_slot, hp3, hh3, ha3, htable, assert, Bool.not_true, Bool.not_false,
    Bool.false_eq_true, ↓reduceIte, ok_bind]
  exact harden_pd_eq entries (fun j hj => (slot_leaf_iff.mp (hrow j hj)).1) hcount

theorem harden_slot_empty {pdpt k entries : Nat} (hk : slot (s.mem pdpt k) = .empty) :
    harden_slot f pdpt k s entries = .ok (s, entries) := by
  simp only [harden_slot, slot_empty_iff.mp hk]
  rfl

theorem harden_slot_eq (h : Tree s) (low : Low bss entry s) (hf : is_present f = true)
    (hf0 : entry_addr f = 0) {k : Nat} (hk : k < 512) :
    harden_slot f (boot_pdpt bss) k (hardening s bss f k) (hardening_count k) =
      .ok (hardening s bss f (k + 1), hardening_count (k + 1)) := by
  have hslot := slot_hardening low hf k
  have hpdpt := low.pdpt k
  rw [← hslot] at hpdpt
  have hcount : hardening_count k + 512 < WORD := by
    rw [WORD_eq]
    unfold hardening_count
    split_ifs <;> decide
  have htable : ∀ pd, s.walk [0, k] = some pd → table_at pd = .ok pd :=
    fun pd hpd => h.table_at (by simp) hpd
  by_cases h0 : k = 0 ∨ k = 510
  · rw [if_pos h0] at hpdpt
    rw [harden_slot_table hpdpt (htable _ (low.walk_pd.mpr (.inl ⟨h0, rfl⟩)))
      (fun j hj => by rw [hslot, low.slot_pd0, if_pos hj]) hcount, hardening_pd0 hf0 h0]
    rcases h0 with rfl | rfl <;> rfl
  rw [if_neg h0] at hpdpt
  by_cases h1 : k = 1 ∨ k = 511
  · rw [if_pos h1] at hpdpt
    rw [harden_slot_table hpdpt (htable _ (low.walk_pd.mpr (.inr ⟨h1, rfl⟩)))
      (fun j hj => by rw [hslot, low.slot_pd1, if_pos hj]) hcount, hardening_pd1 hf0 h1]
    rcases h1 with rfl | rfl <;> rfl
  · rw [if_neg h1] at hpdpt
    rw [harden_slot_empty hpdpt]
    congr 2
    · rw [hardening, hardening, if_neg (by omega), if_neg (by omega), if_neg (by omega),
        if_neg (by omega)]
    · rw [hardening_count, hardening_count, if_neg (by omega), if_neg (by omega), if_pos (by omega),
        if_neg (by omega), if_neg (by omega), if_pos (by omega)]

-- The boot map is rewritten in place: 1024 entries, each reached from two slots.
theorem harden_boot_map_eq (h : Tree s) (low : Low bss entry s) (hcr3 : s.cr3 = s.kernel_pml4) :
    harden_boot_map s = .ok (2048, hardening s bss (effective s .BootIdentity) 512) := by
  obtain ⟨hp4, -, ha4⟩ := slot_table_iff.mp low.root
  rw [harden_boot_map, hcr3, h.table_at_root]
  simp only [ok_bind, hp4, ha4, Bool.not_true, Bool.false_eq_true, ↓reduceIte,
    h.table_at (by simp) low.walk_pdpt]
  have hloop : (forRange 0 512 (s, 0) fun k (x : State × Nat) =>
      harden_slot (effective s .BootIdentity) (boot_pdpt bss) k x.1 x.2) =
        .ok (hardening s bss (effective s .BootIdentity) 512, hardening_count 512) :=
    forRange_eq (fun k => (hardening s bss (effective s .BootIdentity) k, hardening_count k))
      (by decide) rfl
      fun k _ hk => harden_slot_eq h low (effective_present s _) (effective_addr s _) hk
  rw [hloop]
  rfl

theorem hardening_tree (h : Tree s) (low : Low bss entry s) (hf : is_present f = true) :
    Tree (hardening s bss f 512) :=
  h.of_slots rfl rfl fun a j _ => slot_hardening low hf 512 a j

theorem hardening_elsewhere {a j : Nat} (h0 : a ≠ boot_pd0 bss) (h1 : a ≠ boot_pd1 bss) :
    (hardening s bss f 512).mem a j = s.mem a j := by
  show ((s.harden f (boot_pd0 bss) 512).harden f (boot_pd1 bss) 512).mem a j = s.mem a j
  rw [harden_elsewhere (fun h => h1 h.1), harden_elsewhere (fun h => h0 h.1)]

theorem hardening_low (low : Low bss entry s) (hf : is_present f = true) :
    Low bss (fun n => hardened f (entry n)) (hardening s bss f 512) where
  root := by
    rw [slot_hardening low hf]
    exact low.root
  pdpt j := by
    rw [slot_hardening low hf]
    exact low.pdpt j
  pd0 j := by
    show ((s.harden f (boot_pd0 bss) 512).harden f (boot_pd1 bss) 512).mem (boot_pd0 bss) j = _
    rw [harden_elsewhere (by simp [boot_pd0, boot_pd1])]
    by_cases hj : j < 512
    · rw [harden_here hj, low.pd0, if_pos hj, if_pos hj]
    · rw [harden_elsewhere (fun h => hj h.2), low.pd0, if_neg hj, if_neg hj]
  pd1 j := by
    show ((s.harden f (boot_pd0 bss) 512).harden f (boot_pd1 bss) 512).mem (boot_pd1 bss) j = _
    by_cases hj : j < 512
    · rw [harden_here hj, harden_elsewhere (by simp [boot_pd0, boot_pd1]), low.pd1, if_pos hj,
        if_pos hj]
    · rw [harden_elsewhere (fun h => hj h.2), harden_elsewhere (fun h => hj h.2), low.pd1, if_neg hj,
        if_neg hj]
  leaf n := slot_hardened hf

theorem hardening_hardening (hf : entry_addr f = 0) :
    hardening (hardening s bss f 512) bss f 512 = hardening s bss f 512 := by
  show (((s.harden f (boot_pd0 bss) 512).harden f (boot_pd1 bss) 512).harden f (boot_pd0 bss)
    512).harden f (boot_pd1 bss) 512 = (s.harden f (boot_pd0 bss) 512).harden f (boot_pd1 bss) 512
  rw [@harden_comm _ _ (boot_pd1 bss), harden_harden hf, harden_harden hf]

-- The rest of the tree does not pass through the boot map.
theorem hardening_find (h : Tree s) (low : Low bss entry s) {va : VirtAddr}
    (h4 : (indices va).pml4 ≠ 0) : (hardening s bss f 512).find (path va) = s.find (path va) := by
  have hpd0 : s.walk [0, 0] = some (boot_pd0 bss) := low.walk_pd.mpr (.inl ⟨.inl rfl, rfl⟩)
  have hpd1 : s.walk [0, 1] = some (boot_pd1 bss) := low.walk_pd.mpr (.inr ⟨.inl rfl, rfl⟩)
  refine find_congr fun q i r hsplit b hb => ?_
  have hlen : q.length < 4 := by
    have := congrArg List.length hsplit
    rw [path_length, List.length_append, List.length_cons] at this
    omega
  have hside : ∀ j, home q ≠ home [0, j] := by
    intro j hname
    match q, home_naming.length_eq hname with
    | [x, y], _ =>
        obtain ⟨rfl, -⟩ := List.cons.inj hname
        exact h4 (List.cons.inj hsplit).1
  refine hardening_elsewhere ?_ ?_
  · rintro rfl
    exact hside 0 (h.separate q [0, 0] _ hlen (by simp) hb hpd0)
  · rintro rfl
    exact hside 1 (h.separate q [0, 1] _ hlen (by simp) hb hpd1)

-- Pages keep their place.
theorem hardening_phys (h : Tree s) (low : Low bss entry s) (hf : is_present f = true)
    (hf0 : entry_addr f = 0) (va : VirtAddr) :
    (mapping (hardening s bss f 512) va).map Prod.fst = (mapping s va).map Prod.fst := by
  by_cases h4 : (indices va).pml4 = 0
  · rw [mapping, mapping, (hardening_low low hf).find_path h4, low.find_path h4]
    split_ifs
    · simp only [Option.map_some, resolve, hardened_addr hf0]
    · simp only [Option.map_some, resolve, hardened_addr hf0]
    · rfl
  · rw [mapping, mapping, hardening_find h low h4]

-- The pages of the boot map have the new permissions and no others.
theorem hardening_entry (low : Low bss entry s) (hf : is_present f = true) {va : VirtAddr}
    (h4 : (indices va).pml4 = 0) {e : Nat} {r : List Nat}
    (hfind : (hardening s bss f 512).find (path va) = some (e, r)) : ∃ e', e = hardened f e' := by
  rw [(hardening_low low hf).find_path h4] at hfind
  split_ifs at hfind
  · cases hfind
    exact ⟨_, rfl⟩
  · cases hfind
    exact ⟨_, rfl⟩

end Boot

end Orin.Memory.Vmm
