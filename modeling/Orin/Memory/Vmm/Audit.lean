import Orin.Memory.Vmm.Translate

namespace Orin.Memory.Vmm

open Rust Arch
open Theory
open Finset (range)

section Flags

variable {s : State} {e : Nat}

theorem is_wx_eq (s : State) (e : Nat) :
    is_wx s e = (e.testBit 1 && (s.nx_available && !e.testBit 63)) := by
  have hw : (e &&& flags.WRITABLE != 0) = e.testBit 1 := and_two_pow_ne e 1
  have hx : (e &&& flags.NO_EXECUTE == 0) = !e.testBit 63 := by
    rw [← and_two_pow_ne e 63, bne, Bool.not_not]
    rfl
  rw [is_wx, hw, hx]
  cases s.nx_available <;> rfl

theorem not_wx_iff (hnx : s.nx_available = true) :
    is_wx s e = false ↔ ¬(e &&& flags.WRITABLE ≠ 0 ∧ e &&& flags.NO_EXECUTE = 0) := by
  simp [is_wx, hnx]

end Flags

-- The entries the CPU passes on its way to the page of an address.
def cpu_walk (s : State) (va : VirtAddr) : Option (List Nat) :=
  Levels.trail s.mem PML4_LEVELS (path va) s.kernel_pml4

-- The rights of an access are those every level gives.
def CpuWritable (s : State) (va : VirtAddr) : Prop :=
  ∃ es, cpu_walk s va = some es ∧ ∀ e ∈ es, e &&& flags.WRITABLE ≠ 0

def CpuExecutable (s : State) (va : VirtAddr) : Prop :=
  ∃ es, cpu_walk s va = some es ∧ ∀ e ∈ es, e &&& flags.NO_EXECUTE = 0

theorem exists_path {i4 i3 i2 i1 : Nat} (h4 : i4 < 512) (h3 : i3 < 512) (h2 : i2 < 512)
    (h1 : i1 < 512) : ∃ va : VirtAddr, path va = [i4, i3, i2, i1] := by
  have hcan : Canonical ((if i4 < 256 then 0 else 0xFFFF000000000000) + i4 * 2 ^ 39 + i3 * 2 ^ 30 +
      i2 * 2 ^ 21 + i1 * 2 ^ 12) := by
    unfold Canonical
    split_ifs <;> omega
  refine ⟨⟨_, hcan⟩, ?_⟩
  rw [path_eq]
  simp only [List.cons.injEq, and_true]
  split_ifs <;> omega

theorem path_lt (va : VirtAddr) : ∀ i ∈ path va, i < 512 := by
  intro i hi
  simp only [path, List.mem_cons, List.not_mem_nil, or_false] at hi
  rcases hi with rfl | rfl | rfl | rfl <;> exact index_lt _ _

section Count

variable {s : State}

theorem forRange_sum {n v : Nat} {w : Nat → Nat} {body : Nat → Nat → Except Panic Nat}
    (hbody : ∀ i v, i < n → v + w i < WORD → body i v = .ok (v + w i))
    (hfit : v + ∑ i ∈ range n, w i < WORD) :
    forRange 0 n v body = .ok (v + ∑ i ∈ range n, w i) := by
  refine forRange_eq (fun j => v + ∑ i ∈ range j, w i) (Nat.zero_le n) rfl fun j _ hj => ?_
  have hle : ∑ i ∈ range (j + 1), w i ≤ ∑ i ∈ range n, w i :=
    Finset.sum_le_sum_of_subset (Finset.range_mono hj)
  rw [Finset.sum_range_succ] at hle ⊢
  rw [hbody j _ hj (by omega), Nat.add_assoc]

abbrev State.violations (s : State) (levels : List (Nat → Radix.Slot Nat)) (a : Nat) : Nat :=
  Levels.count s.mem 512 (is_wx s) levels a

theorem tally (b : Bool) {v : Nat} (hfit : v + b.toNat < WORD) :
    (if b then add v 1 else .ok v) = .ok (v + b.toNat) := by
  cases b with
  | false => rfl
  | true => exact add_of_lt hfit

-- One entry of a PDPT or a page directory, with the loop over the table below it.
theorem count_entry {levels : List (Nat → Radix.Slot Nat)} {below : Nat → Nat → Except Panic Nat}
    {e v : Nat}
    (hbelow : ∀ b, slot e = .table b → Readable b ∧
      (v + s.violations levels b < WORD → below b v = .ok (v + s.violations levels b)))
    (hfit : v + Levels.weight (is_wx s) (s.violations levels) e (slot e) < WORD) :
    (if !is_present e then .ok v
      else if is_huge e then if is_wx s e then add v 1 else .ok v
      else do
        let t ← table_at (entry_addr e)
        below t v) =
      .ok (v + Levels.weight (is_wx s) (s.violations levels) e (slot e)) := by
  cases hslot : slot e with
  | empty => simp only [slot_empty_iff.mp hslot, Bool.not_false, ↓reduceIte, Levels.weight, Nat.add_zero]
  | leaf =>
      obtain ⟨hp, hh⟩ := slot_leaf_iff.mp hslot
      rw [hslot] at hfit
      simp only [hp, hh, Bool.not_true, Bool.false_eq_true, ↓reduceIte]
      exact tally _ hfit
  | table b =>
      obtain ⟨hp, hh, ha⟩ := slot_table_iff.mp hslot
      obtain ⟨hb, hrun⟩ := hbelow b hslot
      rw [hslot] at hfit
      simp only [hp, hh, ha, table_at_eq hb, Bool.not_true, Bool.false_eq_true, ↓reduceIte]
      rw [ok_bind]
      exact hrun hfit

theorem count_wx_pt_eq {pt v : Nat} (hfit : v + s.violations PT_LEVELS pt < WORD) :
    count_wx_pt s pt v = .ok (v + s.violations PT_LEVELS pt) := by
  refine forRange_sum (fun i v _ hfit => ?_) hfit
  by_cases hp : is_present (s.mem pt i) = true
  · rw [page_slot_leaf_iff.mpr hp, Levels.weight] at hfit ⊢
    simp only [hp, Bool.true_and]
    exact tally _ hfit
  · have hnot : is_present (s.mem pt i) = false := by simpa using hp
    rw [page_slot_empty_iff.mpr hnot, Levels.weight]
    simp only [hnot, Bool.false_and, Bool.false_eq_true, ↓reduceIte, Nat.add_zero]

theorem count_wx_pd_eq {pd v : Nat} (h : Levels.All s.mem 512 Readable PD_LEVELS pd)
    (hfit : v + s.violations PD_LEVELS pd < WORD) :
    count_wx_pd s pd v = .ok (v + s.violations PD_LEVELS pd) := by
  refine forRange_sum (fun i v hi hfit => ?_) hfit
  exact count_entry (fun pt hpt => ⟨(h.2 i hi pt hpt).1, count_wx_pt_eq⟩) hfit

theorem count_wx_pdpt_eq {pdpt v : Nat} (h : Levels.All s.mem 512 Readable PDPT_LEVELS pdpt)
    (hfit : v + s.violations PDPT_LEVELS pdpt < WORD) :
    count_wx_pdpt s pdpt v = .ok (v + s.violations PDPT_LEVELS pdpt) := by
  refine forRange_sum (fun i v hi hfit => ?_) hfit
  exact count_entry (fun pd hpd => ⟨(h.2 i hi pd hpd).1, count_wx_pd_eq (h.2 i hi pd hpd)⟩) hfit

-- The four nested loops count the pages of the tree. There are at most 512^4 of them, so the
-- counter does not overflow.
theorem count_wx_violations_eq (h : WellFormed s) :
    count_wx_violations s = .ok (s.violations PML4_LEVELS s.kernel_pml4) := by
  have hfit : 0 + s.violations PML4_LEVELS s.kernel_pml4 < WORD := by
    have hle : s.violations PML4_LEVELS s.kernel_pml4 ≤ 512 ^ 4 :=
      Levels.count_le (by decide) PML4_LEVELS s.kernel_pml4
    rw [Nat.zero_add, WORD_eq]
    exact Nat.lt_of_le_of_lt hle (by decide)
  obtain ⟨hroot, hbelow⟩ := h.tables
  rw [count_wx_violations, if_neg h.root_ne, table_at_eq hroot, ok_bind,
    ← Nat.zero_add (s.violations PML4_LEVELS _)]
  refine forRange_sum (fun i v hi hfit => ?_) hfit
  by_cases hp : is_present (s.mem s.kernel_pml4 i) = true
  · have hslot := pointer_slot_table_iff.mpr ⟨hp, rfl⟩
    have hall := hbelow i hi _ hslot
    rw [hslot, Levels.weight] at hfit ⊢
    simp only [hp, table_at_eq hall.1, Bool.not_true, Bool.false_eq_true, ↓reduceIte]
    rw [ok_bind]
    exact count_wx_pdpt_eq hall hfit
  · have hnot : is_present (s.mem s.kernel_pml4 i) = false := by simpa using hp
    rw [pointer_slot_empty_iff.mpr hnot, Levels.weight]
    simp only [hnot, Bool.not_false, ↓reduceIte, Nat.add_zero]

-- Every path of four indices is the path of a canonical address.
theorem violations_eq_zero_iff (s : State) :
    s.violations PML4_LEVELS s.kernel_pml4 = 0 ↔
      ∀ va e rest, found s va = some (e, rest) → is_wx s e = false := by
  rw [Levels.count_eq_zero_iff (by decide)]
  constructor
  · intro hpath va
    exact hpath (path va) rfl (path_lt va)
  · intro hva p hlen hlt
    match p, hlen with
    | [i4, i3, i2, i1], _ =>
        obtain ⟨va, hpath⟩ := exists_path (hlt i4 (by simp)) (hlt i3 (by simp)) (hlt i2 (by simp))
          (hlt i1 (by simp))
        rw [← hpath]
        exact hva va

theorem place_entry (va : VirtAddr) (e : Nat) (rest : List Nat) :
    place va (e, rest) = ((place va (e, rest)).1, e) := by
  match rest with
  | [] => rfl
  | [_] => rfl
  | _ :: _ :: _ => rfl

theorem translate_some_iff (h : WellFormed s) {va : VirtAddr} {e : Nat} :
    (∃ q, translate s va = .ok (some (q, e))) ↔ ∃ rest, found s va = some (e, rest) := by
  rw [translate_found h]
  constructor
  · rintro ⟨q, hq⟩
    obtain ⟨⟨e', rest⟩, hfound, hplace⟩ := Option.map_eq_some_iff.mp (Except.ok.inj hq)
    rw [place_entry] at hplace
    cases hplace
    exact ⟨rest, hfound⟩
  · rintro ⟨rest, hfound⟩
    exact ⟨(place va (e, rest)).1, by rw [hfound, Option.map_some, ← place_entry]⟩

end Count

section Sound

variable {s : State} (h : WellFormed s) (hnx : s.nx_available = true)

include h hnx

theorem no_violation_iff :
    s.violations PML4_LEVELS s.kernel_pml4 = 0 ↔
      ¬∃ va q e, translate s va = .ok (some (q, e)) ∧
        e &&& flags.WRITABLE ≠ 0 ∧ e &&& flags.NO_EXECUTE = 0 := by
  rw [violations_eq_zero_iff]
  constructor
  · rintro hnone ⟨va, q, e, htranslate, hwx⟩
    obtain ⟨rest, hfound⟩ := (translate_some_iff h).mp ⟨q, htranslate⟩
    exact (not_wx_iff hnx).mp (hnone va e rest hfound) hwx
  · intro hnone va e rest hfound
    obtain ⟨q, htranslate⟩ := (translate_some_iff h).mpr ⟨rest, hfound⟩
    exact (not_wx_iff hnx).mpr fun hwx => hnone ⟨va, q, e, htranslate, hwx⟩

omit h in
-- The last entry of a walk alone decides: if it withholds one of the two rights, the CPU does.
theorem cpu_guarded (hzero : s.violations PML4_LEVELS s.kernel_pml4 = 0) (va : VirtAddr) :
    ¬(CpuWritable s va ∧ CpuExecutable s va) := by
  rintro ⟨⟨es, hes, hw⟩, ⟨es', hes', hx⟩⟩
  rw [hes] at hes'
  cases hes'
  obtain ⟨e, hmem, rest, hfound⟩ := Levels.find_mem_trail hes
  exact (not_wx_iff hnx).mp ((violations_eq_zero_iff s).mp hzero va e rest hfound)
    ⟨hw e hmem, hx e hmem⟩

end Sound

-- The audit against the hardware: a count of zero means that no address is writable and
-- executable, and it is zero exactly when no address translates to such an entry.
theorem audit_sound (s : State) (h : WellFormed s) (hnx : s.nx_available = true) :
    ∃ n, count_wx_violations s = .ok n ∧
      (n = 0 → ∀ va, ¬(CpuWritable s va ∧ CpuExecutable s va)) ∧
      (n = 0 ↔ ¬∃ va q e, translate s va = .ok (some (q, e)) ∧
        e &&& flags.WRITABLE ≠ 0 ∧ e &&& flags.NO_EXECUTE = 0) :=
  ⟨_, count_wx_violations_eq h, fun hzero va => cpu_guarded hnx hzero va, no_violation_iff h hnx⟩

-- A root with one PDPT, which maps the first GiB writable and executable.
def gib_state : State :=
  { State.new (fun a i => if a = 4096 ∧ i = 0 then 8192 ||| 3 else if a = 8192 ∧ i = 0 then 0x83 else 0)
      [] 4096 true with kernel_pml4 := 4096 }

theorem gib_state_wellFormed : WellFormed gib_state := by
  refine ⟨by decide, by decide, fun i4 _ pdpt h4 => ?_⟩
  have hpdpt : pdpt = 8192 := by
    by_cases hi : i4 = 0
    · subst hi
      exact (Radix.Slot.table.inj h4).symm
    · have hzero : gib_state.mem gib_state.kernel_pml4 i4 = 0 := by
        simp [gib_state, State.new, hi]
      rw [hzero] at h4
      cases h4
  subst hpdpt
  refine ⟨by decide, fun i3 _ pd h3 => ?_⟩
  by_cases hi : i3 = 0
  · subst hi
    cases h3
  · have hzero : gib_state.mem 8192 i3 = 0 := by simp [gib_state, State.new, hi]
    rw [hzero] at h3
    cases h3

theorem audit_sound_gib : WellFormed gib_state ∧ gib_state.nx_available = true ∧
    ∃ n, count_wx_violations gib_state = .ok n ∧ n ≠ 0 := by
  obtain ⟨n, hn, -, hiff⟩ := audit_sound gib_state gib_state_wellFormed rfl
  refine ⟨gib_state_wellFormed, rfl, n, hn, fun hzero => hiff.mp hzero ?_⟩
  refine ⟨⟨0, by decide⟩, 0, 0x83, ?_, by decide, by decide⟩
  rw [translate_found gib_state_wellFormed]
  rfl

end Orin.Memory.Vmm
