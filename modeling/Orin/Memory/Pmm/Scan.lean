import Mathlib.Order.Bounds.Basic
import Orin.Memory.Pmm

namespace Orin.Memory.Pmm

open Rust Bitmap

variable {n : Nat} (map : Vector Word n)

theorem bit_test_ok {idx : Nat} (h : idx < 64 * n) : bit_test map idx = .ok (bit map idx) := by
  have hw : idx / 64 < n := by omega
  have hb := and_one_shl_ne_zero_iff map[idx / 64] (idx % 64) (Nat.mod_lt _ (by omega))
  simp only [bit_test, word_at, hw, dite_true, ok_bind, bit, hb]
  simp [pure, Except.pure]

theorem bit_set_ok {idx : Nat} (h : idx < 64 * n) :
    ∃ map', bit_set map idx = .ok map' ∧ members map' = insert idx (members map) := by
  have hw : idx / 64 < n := by omega
  refine ⟨_, by simp only [bit_set, hw, dite_true]; rfl, ?_⟩
  ext j
  simp only [mem_members, Finset.mem_insert, bit_set_or]
  rcases eq_or_ne idx j with rfl | he
  · simp
  · simp [he, he.symm]

theorem bit_clear_ok {idx : Nat} (h : idx < 64 * n) :
    ∃ map', bit_clear map idx = .ok map' ∧ members map' = (members map).erase idx := by
  have hw : idx / 64 < n := by omega
  refine ⟨_, by simp only [bit_clear, hw, dite_true]; rfl, ?_⟩
  ext j
  simp only [mem_members, Finset.mem_erase, bit_set_and_not]
  rcases eq_or_ne idx j with rfl | he
  · simp
  · simp [he, he.symm]

-- Both scans look at whole words, so they see up to the end of the word that holds
-- the last index below the limit.
def word_end (limit : Nat) : Nat := (limit + 63) / 64 * 64

theorem scan_words_spec (limit idx : Nat) (hl : limit ≤ 64 * n) (halign : idx % 64 = 0) :
    ∃ r, scan_words map limit idx = .ok r ∧
      Least (fun i => bit map i = true) idx (word_end limit) r := by
  fun_induction scan_words map limit idx with
  | case1 idx h ih =>
      have hw : idx / 64 < n := by omega
      have hword := least_in_word map 0 hw (by omega)
      have hidx : idx / 64 * 64 = idx := by omega
      simp only [BitVec.ushiftRight_zero, Nat.add_zero, hidx] at hword
      simp only [word_at, hw, dite_true, ok_bind, hidx, trailing_zeros]
      split
      · rename_i hne
        rw [if_pos hne] at hword
        exact ⟨_, rfl, hword.extend (by unfold word_end; omega)⟩
      · rename_i hzero
        rw [if_neg hzero] at hword
        obtain ⟨r, hr, hleast⟩ := ih (by omega)
        exact ⟨r, hr, hleast.skip (by omega) hword⟩
  | case2 idx h =>
      exact ⟨none, rfl, fun j h1 h2 => by unfold word_end at h2; omega⟩

theorem next_free_spec {start limit : Nat} (hl : limit ≤ 64 * n) (hs : start < limit) :
    ∃ r, next_free map start limit = .ok r ∧
      Least (fun i => bit map i = true) start (word_end limit) r := by
  have hw : start / 64 < n := by omega
  have hword := least_in_word map (start % 64) hw (by omega)
  have hidx : start / 64 * 64 + start % 64 = start := by omega
  simp only [hidx] at hword
  simp only [next_free, Nat.not_le.mpr hs, if_false, word_at, hw, dite_true, ok_bind, hidx,
    trailing_zeros]
  split
  · rename_i hne
    rw [if_pos hne] at hword
    exact ⟨_, rfl, hword.extend (by unfold word_end; omega)⟩
  · rename_i hzero
    rw [if_neg hzero] at hword
    obtain ⟨r, hr, hleast⟩ := scan_words_spec map limit ((start / 64 + 1) * 64) hl (by omega)
    refine ⟨r, hr, hleast.skip (by omega) fun j h1 h2 => hword j h1 (by omega)⟩

-- What the callers of both searches rely on: they return, and the answer is the least
-- member, or that there is none.
def Finds (S : Set Nat) (found : Except Panic (Option Nat)) : Prop :=
  ∃ r, found = .ok r ∧ (∀ i, r = some i ↔ IsLeast S i) ∧ (r = none ↔ S = ∅)

theorem finds_of_least {P : Nat → Prop} {lo hi : Nat} {r : Option Nat} (h : Least P lo hi r) :
    Finds {i | lo ≤ i ∧ i < hi ∧ P i} (.ok r) := ⟨r, rfl, least_iff_isLeast.mp h⟩

-- The last word may answer with an index that is not below the limit.
theorem next_free_finds_iff {start limit : Nat} (hl : limit ≤ 64 * n) :
    Finds {i | start ≤ i ∧ i < limit ∧ bit map i = true} (next_free map start limit) ↔
      (start < limit → (∃ i, start ≤ i ∧ i < limit ∧ bit map i = true) ∨
        ∀ i, limit ≤ i → i < word_end limit → bit map i = false) := by
  by_cases hs : start < limit
  · obtain ⟨r, hr, hleast⟩ := next_free_spec map hl hs
    have hend : limit ≤ word_end limit := by unfold word_end; omega
    rw [hr]
    constructor
    · rintro ⟨r', hr', hfinds⟩ -
      obtain rfl : r = r' := Except.ok.inj hr'
      by_cases hfree : ∃ i, start ≤ i ∧ i < limit ∧ bit map i = true
      · exact .inl hfree
      · have hempty : {i | start ≤ i ∧ i < limit ∧ bit map i = true} = ∅ :=
          Set.eq_empty_of_forall_notMem fun i hi => hfree ⟨i, hi⟩
        obtain rfl : r = none := hfinds.2.mpr hempty
        exact .inr fun i h1 h2 => Bool.eq_false_iff.mpr (hleast i (by omega) h2)
    · intro hcond
      apply finds_of_least
      rcases hcond hs with ⟨i, h1, h2, hbit⟩ | hclean
      · cases r with
        | none => exact absurd hbit (hleast i h1 (by omega))
        | some k =>
            obtain ⟨hk1, -, hkbit, hmin⟩ := hleast
            have hki : k ≤ i := by
              by_contra hlt
              exact hmin i h1 (by omega) hbit
            exact ⟨hk1, by omega, hkbit, hmin⟩
      · exact hleast.shrink hend fun i h1 h2 => Bool.eq_false_iff.mp (hclean i h1 h2)
  · have hnone : next_free map start limit = .ok none := by rw [next_free, if_pos (by omega)]
    rw [hnone]
    refine ⟨fun _ h => absurd h hs, fun _ => finds_of_least ?_⟩
    intro j h1 h2
    omega

theorem next_free_finds_below_limit :
    3 ≤ 64 * 1 ∧ Finds {i | 0 ≤ i ∧ i < 3 ∧ bit #v[36#64] i = true} (next_free #v[36#64] 0 3) :=
  ⟨by decide, (next_free_finds_iff #v[36#64] (by decide)).mpr
    fun _ => .inl ⟨2, by decide, by decide, by decide⟩⟩

-- Frame 5 is the only free one, and the limit is 3.
theorem next_free_past_limit :
    3 ≤ 64 * 1 ∧ ¬Finds {i | 0 ≤ i ∧ i < 3 ∧ bit #v[32#64] i = true} (next_free #v[32#64] 0 3) := by
  refine ⟨by decide, ?_⟩
  rintro ⟨r, hr, hsome, -⟩
  obtain ⟨r', hr', hleast⟩ := next_free_spec #v[32#64] (by decide : 3 ≤ 64 * 1) (by decide : 0 < 3)
  obtain rfl : r = r' := Except.ok.inj (hr.symm.trans hr')
  cases r with
  | none => exact hleast 5 (by decide) (by decide) (by decide)
  | some k =>
      have hbelow : ∀ k < 3, bit #v[32#64] k = false := by decide
      obtain ⟨-, hk, hbit⟩ := ((hsome k).mp rfl).1
      exact absurd hbit (Bool.eq_false_iff.mp (hbelow k hk))

-- Frames `s .. s + count` are below the limit, free, and start on the alignment.
def RunAt (map : Vector Word n) (limit count align s : Nat) : Prop :=
  align ∣ s ∧ s + count ≤ limit ∧ ∀ i, i < count → bit map (s + i) = true

instance (limit count align s : Nat) : Decidable (RunAt map limit count align s) :=
  inferInstanceAs (Decidable (_ ∧ _ ∧ _))

theorem all_set_spec (start k i : Nat) (hn : start + i + k ≤ 64 * n) (hw : start + i + k ≤ WORD) :
    all_set map start k i = .ok (decide (∀ j, i ≤ j → j < i + k → bit map (start + j) = true)) := by
  induction k generalizing i with
  | zero =>
      simp only [all_set]
      congr 1
      symm
      simp only [decide_eq_true_eq]
      intro j h1 h2
      omega
  | succ k ih =>
      have hrest : (∀ j, i ≤ j → j < i + (k + 1) → bit map (start + j) = true) ↔
          bit map (start + i) = true ∧
            ∀ j, i + 1 ≤ j → j < i + 1 + k → bit map (start + j) = true := by
        constructor
        · exact fun h => ⟨h i (by omega) (by omega), fun j h1 h2 => h j (by omega) (by omega)⟩
        · rintro ⟨h0, h⟩ j h1 h2
          by_cases hj : j = i
          · exact hj ▸ h0
          · exact h j (by omega) (by omega)
      simp only [all_set, add_of_lt (show start + i < WORD by omega), ok_bind,
        bit_test_ok map (show start + i < 64 * n by omega), hrest]
      cases hb : bit map (start + i) with
      | false => simp [pure, Except.pure]
      | true => simp [ih (i + 1) (by omega) (by omega)]

theorem runAt_iff_all_set {limit count align s : Nat} (hc : 1 ≤ count) (ha : align ∣ s)
    (hl : s + count ≤ limit) :
    RunAt map limit count align s ↔ bit map s = true ∧
      ∀ j, 1 ≤ j → j < 1 + (count - 1) → bit map (s + j) = true := by
  constructor
  · rintro ⟨-, -, h⟩
    exact ⟨h 0 (by omega), fun j _ h2 => h j (by omega)⟩
  · rintro ⟨h0, h⟩
    refine ⟨ha, hl, fun i hi => ?_⟩
    by_cases hz : i = 0
    · exact hz ▸ h0
    · exact h i (by omega) (by omega)

theorem next_aligned_cases {start align : Nat} (ha : 0 < align) (hs : align ∣ start) :
    next_aligned start align = .ok (start + align) ∨
      (WORD ≤ start + align ∧
        (next_aligned start align = .error .addOverflow ∨
          next_aligned start align = .error .mulOverflow)) := by
  obtain ⟨q, rfl⟩ := hs
  have hmul : (q + 1) * align = align * q + align := by rw [Nat.add_mul, Nat.one_mul, Nat.mul_comm]
  simp only [next_aligned, Nat.mul_div_cancel_left q ha, add]
  split
  · simp only [ok_bind, mul, hmul]
    split
    · exact .inl rfl
    · exact .inr ⟨by omega, .inr rfl⟩
  · have hq : q ≤ align * q := Nat.le_mul_of_pos_left q ha
    exact .inr ⟨by omega, .inl rfl⟩

theorem no_run_before_next {limit count align start : Nat} (hs : align ∣ start)
    (hmiss : ¬ RunAt map limit count align start) :
    ∀ j, start ≤ j → j < start + align → ¬ RunAt map limit count align j := by
  rintro j h1 h2 ⟨hj, h⟩
  have hsub : align ∣ j - start := Nat.dvd_sub hj hs
  have hzero : j - start = 0 := Nat.eq_zero_of_dvd_of_lt hsub (by omega)
  obtain rfl : j = start := by omega
  exact hmiss ⟨hj, h⟩

-- An overflow check of the scan fires only when the sums it forms do not fit: the
-- starting point, or one step past the limit, plus the length of the run.
def RunOverflow (bound : Nat) (e : Panic) : Prop :=
  WORD ≤ bound ∧ (e = .addOverflow ∨ e = .mulOverflow)

-- One round of the scan with its index checks discharged.
theorem scan_runs_eq {limit count align start : Nat} (ha : 0 < align) (hl : limit ≤ 64 * n)
    (hc : 1 ≤ count) (hs : align ∣ start) :
    scan_runs map limit count align ha start =
      if WORD ≤ start + count then .error .addOverflow
      else if limit < start + count then .ok none
      else if RunAt map limit count align start then .ok (some start)
      else next_aligned start align >>= scan_runs map limit count align ha := by
  rw [scan_runs]
  split
  · rename_i p hsum
    simp only [add] at hsum
    split at hsum
    · cases hsum
    · cases hsum
      rw [if_pos (by omega)]
  · rename_i stop hsum
    obtain ⟨hw, rfl⟩ := add_eq_ok.mp hsum
    rw [if_neg (by omega)]
    by_cases hle : start + count ≤ limit
    · have hiff := runAt_iff_all_set map hc hs hle
      rw [dif_pos hle, if_neg (by omega), bit_test_ok map (by omega),
        all_set_spec map start (count - 1) 1 (by omega) (by omega)]
      cases hb : bit map start with
      | false =>
          rw [if_neg (by simp [hiff, hb])]
          cases next_aligned start align <;> rfl
      | true =>
          by_cases hall : ∀ j, 1 ≤ j → j < 1 + (count - 1) → bit map (start + j) = true
          · rw [if_pos (hiff.mpr ⟨hb, hall⟩)]
            simp only [decide_eq_true hall]
          · rw [if_neg fun h => hall (hiff.mp h).2]
            simp only [decide_eq_false hall]
            cases next_aligned start align <;> rfl
    · rw [dif_neg hle, if_pos (by omega)]

theorem scan_runs_spec {limit count align start : Nat} (ha : 0 < align) (hl : limit ≤ 64 * n)
    (hc : 1 ≤ count) (hs : align ∣ start) :
    Ends (Least (RunAt map limit count align) start limit)
      (RunOverflow (max start (limit + align) + count))
      (scan_runs map limit count align ha start) := by
  rw [scan_runs_eq map ha hl hc hs]
  split
  · exact ⟨by omega, .inl rfl⟩
  split
  · exact fun j h1 h2 hrun => absurd hrun.2.1 (by omega)
  split
  · rename_i hrun
    exact ⟨Nat.le_refl _, by omega, hrun, fun j h1 h2 => absurd h1 (by omega)⟩
  rename_i hmiss
  rcases next_aligned_cases ha hs with h | ⟨hover, h | h⟩
  · have hnext : align ∣ start + align := Nat.dvd_add hs (Nat.dvd_refl align)
    rw [h, ok_bind]
    refine (scan_runs_spec ha hl hc hnext).mono (fun r hr => ?_) (fun e he => ?_)
    · exact hr.skip (by omega) (no_run_before_next map hs hmiss)
    · exact ⟨by have := he.1; omega, he.2⟩
  · rw [h]
    exact ⟨by omega, .inl rfl⟩
  · rw [h]
    exact ⟨by omega, .inr rfl⟩
termination_by limit + 1 - start

-- The first multiple of the alignment at or after `start`.
def first_aligned (start align : Nat) : Nat :=
  (start + max align 1 - 1) / max align 1 * max align 1

theorem first_aligned_dvd (start align : Nat) : max align 1 ∣ first_aligned start align :=
  Nat.dvd_mul_left _ _

theorem le_first_aligned (start align : Nat) : start ≤ first_aligned start align := by
  have ha : 0 < max align 1 := by omega
  have hlow := Nat.lt_mul_div_succ (start + max align 1 - 1) ha
  rw [Nat.mul_add, Nat.mul_comm] at hlow
  rw [first_aligned]
  omega

theorem first_aligned_lt (start align : Nat) : first_aligned start align < start + max align 1 := by
  have hhigh := Nat.div_mul_le_self (start + max align 1 - 1) (max align 1)
  rw [first_aligned]
  omega

theorem no_run_before_first {start limit count align : Nat} : ∀ j, start ≤ j →
    j < first_aligned start align → ¬RunAt map limit count (max align 1) j := by
  rintro j h1 h2 ⟨hj, -⟩
  have hstep := Nat.le_of_dvd (by omega) (Nat.dvd_sub (first_aligned_dvd start align) hj)
  have hhigh := first_aligned_lt start align
  omega

theorem next_free_run_eq {start limit count align : Nat} (hc : 1 ≤ count)
    (hstart : start + max align 1 < WORD) : next_free_run map start limit count align =
      scan_runs map limit count (max align 1) (by omega) (first_aligned start align) := by
  rw [next_free_run, if_neg (by omega), add_of_lt hstart, ok_bind, sub_of_le (by omega), ok_bind,
    first_aligned]

theorem next_free_run_spec {start limit count align : Nat} (hl : limit ≤ 64 * n) (hc : 1 ≤ count) :
    Ends (Least (RunAt map limit count (max align 1)) start limit)
      (RunOverflow (max start limit + max align 1 + count))
      (next_free_run map start limit count align) := by
  have ha : 0 < max align 1 := by omega
  have hhigh := first_aligned_lt start align
  by_cases hw : start + max align 1 < WORD
  · rw [next_free_run_eq map hc hw]
    refine (scan_runs_spec map ha hl hc (first_aligned_dvd start align)).mono (fun r hr => ?_)
      (fun e he => ?_)
    · exact hr.skip (le_first_aligned start align) (no_run_before_first map)
    · exact ⟨by have := he.1; omega, he.2⟩
  · rw [next_free_run, if_neg (by omega)]
    simp only [add, hw, if_false, error_bind]
    exact ⟨by omega, .inl rfl⟩

theorem next_free_run_finds {start limit count align : Nat} (hl : limit ≤ 64 * n) (hc : 1 ≤ count)
    (hstart : start + max align 1 < WORD) (hlimit : limit + max align 1 + count < WORD)
    (hfirst : first_aligned start align + count < WORD) :
    Finds {s | start ≤ s ∧ RunAt map limit count (max align 1) s}
      (next_free_run map start limit count align) := by
  have ha : 0 < max align 1 := by omega
  have hset : {s | start ≤ s ∧ RunAt map limit count (max align 1) s} =
      {s | start ≤ s ∧ s < limit ∧ RunAt map limit count (max align 1) s} := by
    ext s
    constructor
    · rintro ⟨hs, hrun⟩
      have hbelow := hrun.2.1
      exact ⟨hs, by omega, hrun⟩
    · rintro ⟨hs, -, hrun⟩
      exact ⟨hs, hrun⟩
  have hends := scan_runs_spec map ha hl hc (first_aligned_dvd start align)
  rw [next_free_run_eq map hc hstart, hset]
  cases hscan : scan_runs map limit count (max align 1) ha (first_aligned start align) with
  | error e =>
      rw [hscan] at hends
      have hover := hends.1
      omega
  | ok r =>
      rw [hscan] at hends
      exact finds_of_least (hends.skip (le_first_aligned start align) (no_run_before_first map))

theorem next_free_run_finds_pair :
    64 ≤ 64 * 1 ∧ 1 ≤ 2 ∧ 1 + max 2 1 < WORD ∧ 64 + max 2 1 + 2 < WORD ∧
      first_aligned 1 2 + 2 < WORD ∧
      Finds {s | 1 ≤ s ∧ RunAt #v[12#64] 64 2 (max 2 1) s} (next_free_run #v[12#64] 1 64 2 2) := by
  have hstart : 1 + max 2 1 < WORD := by rw [WORD_eq]; decide
  have hlimit : 64 + max 2 1 + 2 < WORD := by rw [WORD_eq]; decide
  have hfirst : first_aligned 1 2 + 2 < WORD := by rw [WORD_eq]; decide
  exact ⟨by decide, by decide, hstart, hlimit, hfirst,
    next_free_run_finds #v[12#64] (by decide) (by decide) hstart hlimit hfirst⟩

-- The start is rounded without overflow, but the end of the first candidate does not fit.
theorem next_free_run_stops :
    64 ≤ 64 * 1 ∧ 1 ≤ 5 ∧ (2 ^ 64 - 2) + max 1 1 < WORD ∧ 64 + max 1 1 + 5 < WORD ∧
      ¬Finds {s | 2 ^ 64 - 2 ≤ s ∧ RunAt #v[0#64] 64 5 (max 1 1) s}
        (next_free_run #v[0#64] (2 ^ 64 - 2) 64 5 1) := by
  have hstart : 2 ^ 64 - 2 + max 1 1 < WORD := by rw [WORD_eq]; decide
  have hover : WORD ≤ first_aligned (2 ^ 64 - 2) 1 + 5 := by rw [WORD_eq]; decide
  refine ⟨by decide, by decide, hstart, by rw [WORD_eq]; decide, ?_⟩
  rintro ⟨r, hr, -⟩
  rw [next_free_run_eq _ (by decide) hstart, scan_runs_eq _ _ (by decide) (by decide)
    (first_aligned_dvd _ 1), if_pos hover] at hr
  exact nomatch hr

-- A single frame is taken where it is found, whatever alignment was asked for.
def run_align (count align : Nat) : Nat := if count = 1 then 1 else max align 1

theorem runAt_single {limit s : Nat} : RunAt map limit 1 1 s ↔ s < limit ∧ bit map s = true := by
  constructor
  · rintro ⟨-, h1, h2⟩
    exact ⟨by omega, h2 0 (by omega)⟩
  · rintro ⟨h1, h2⟩
    refine ⟨Nat.one_dvd s, by omega, fun i hi => ?_⟩
    obtain rfl : i = 0 := by omega
    exact h2

-- The word scan may look past the limit; it is exact when nothing is free there.
theorem find_spec (start align : Nat) {limit count : Nat} (hl : limit ≤ 64 * n) (hc : 1 ≤ count)
    (hclean : count = 1 → ∀ j, limit ≤ j → j < word_end limit → bit map j = false) :
    Ends (Least (RunAt map limit count (run_align count align)) start limit)
      (RunOverflow (max start limit + max align 1 + count))
      (find map start limit count align) := by
  unfold find run_align
  split
  · rename_i hone
    subst hone
    by_cases hs : start < limit
    · obtain ⟨r, hr, hleast⟩ := next_free_spec map hl hs
      have hend : limit ≤ word_end limit := by unfold word_end; omega
      rw [hr]
      refine (hleast.shrink hend fun j h1 h2 => ?_).congr fun j _ h2 => ?_
      · simp [hclean rfl j h1 h2]
      · simp [runAt_single map, h2]
    · rw [next_free, if_pos (by omega)]
      exact fun j h1 h2 => absurd h2 (by omega)
  · exact next_free_run_spec map hl hc

-- What the wrapping search answers: the first run at or after the cursor, or else
-- the first run that ends by the cursor. A run across the cursor is not considered.
def NextFit (map : Vector Word n) (start count align : Nat) (r : Option Nat) : Prop :=
  (r ≠ none ∧ Least (RunAt map MAX_FRAMES count align) start MAX_FRAMES r) ∨
    (Least (RunAt map MAX_FRAMES count align) start MAX_FRAMES none ∧
      Least (RunAt map start count align) 0 start r)

theorem NextFit.runAt {start count align s : Nat} (hs : start ≤ MAX_FRAMES)
    (h : NextFit map start count align (some s)) : RunAt map MAX_FRAMES count align s := by
  rcases h with ⟨-, -, -, h, -⟩ | ⟨-, -, -, ⟨h1, h2, h3⟩, -⟩
  · exact h
  · exact ⟨h1, by omega, h3⟩

-- The first free frame going up from `start`, or from 0 when there is none above.
def FirstFree (map : Vector Word n) (start f : Nat) : Prop :=
  IsLeast {g | bit map g = true ∧ start ≤ g} f ∨
    (∀ g, bit map g = true → g < start) ∧ IsLeast {g | bit map g = true} f

theorem FirstFree.unique {start f g : Nat} (hf : FirstFree map start f)
    (hg : FirstFree map start g) : f = g := by
  rcases hf with hf | ⟨hbelow, hf⟩ <;> rcases hg with hg | ⟨hbelow', hg⟩
  · exact hf.unique hg
  · exact absurd hf.1.2 (Nat.not_le.mpr (hbelow' f hf.1.1))
  · exact absurd hg.1.2 (Nat.not_le.mpr (hbelow g hg.1.1))
  · exact hf.unique hg

theorem FirstFree.free {start f : Nat} (h : FirstFree map start f) : bit map f = true := by
  rcases h with h | ⟨-, h⟩
  · exact h.1.1
  · exact h.1

theorem firstFree_only {start f : Nat} (h : ∀ g, bit map g = true ↔ g = f) :
    FirstFree map start f := by
  have hf := (h f).mpr rfl
  by_cases hs : start ≤ f
  · exact .inl ⟨⟨hf, hs⟩, fun g hg => Nat.le_of_eq ((h g).mp hg.1).symm⟩
  · refine .inr ⟨fun g hg => ?_, hf, fun g hg => Nat.le_of_eq ((h g).mp hg).symm⟩
    have := (h g).mp hg
    omega

theorem NextFit.firstFree {start f : Nat} (hn : MAX_FRAMES = 64 * n)
    (h : NextFit map start 1 1 (some f)) : FirstFree map start f := by
  rcases h with ⟨-, hle, -, hrun, hmin⟩ | ⟨hnone, -, -, hrun, hmin⟩
  · refine .inl ⟨⟨((runAt_single map).mp hrun).2, hle⟩, fun g hg => ?_⟩
    by_contra hlt
    have hbound : g < MAX_FRAMES := hn ▸ lt_of_bit hg.1
    exact hmin g hg.2 (by omega) ((runAt_single map).mpr ⟨hbound, hg.1⟩)
  · have hbelow : ∀ g, bit map g = true → g < start := by
      intro g hg
      by_contra hge
      have hbound : g < MAX_FRAMES := hn ▸ lt_of_bit hg
      exact hnone g (by omega) hbound ((runAt_single map).mpr ⟨hbound, hg⟩)
    refine .inr ⟨hbelow, ((runAt_single map).mp hrun).2, fun g hg => ?_⟩
    by_contra hlt
    exact hmin g (Nat.zero_le g) (by omega) ((runAt_single map).mpr ⟨hbelow g hg, hg⟩)

-- The search comes back empty-handed exactly when every run lies across the cursor.
theorem nextFit_none_iff {start count align : Nat} (hs : start ≤ MAX_FRAMES) (hc : 1 ≤ count) :
    NextFit map start count align none ↔
      ∀ s, RunAt map MAX_FRAMES count align s → s < start ∧ start < s + count := by
  constructor
  · rintro (⟨hne, -⟩ | ⟨hhigh, hlow⟩) s hrun
    · exact absurd rfl hne
    have hend := hrun.2.1
    have hlt : s < start := by
      by_contra hge
      exact hhigh s (by omega) (by omega) hrun
    refine ⟨hlt, ?_⟩
    by_contra hge
    exact hlow s (Nat.zero_le s) hlt ⟨hrun.1, by omega, hrun.2.2⟩
  · intro h
    refine .inr ⟨fun j h1 _ hrun => ?_, fun j _ h2 hrun => ?_⟩
    · exact absurd (h j hrun).1 (by omega)
    · have hend := hrun.2.1
      exact absurd (h j ⟨hrun.1, by omega, hrun.2.2⟩).2 (by omega)

-- A run that was found lies on one side of the cursor.
theorem NextFit.beside {start count align s : Nat} (h : NextFit map start count align (some s)) :
    start ≤ s ∨ s + count ≤ start := by
  rcases h with ⟨-, hle, -⟩ | ⟨-, -, -, hrun, -⟩
  · exact .inl hle
  · exact .inr hrun.2.1

theorem find_wrapping_spec {start count align : Nat} (hn : MAX_FRAMES = 64 * n)
    (hs : start ≤ MAX_FRAMES) (hc : 1 ≤ count) :
    Ends (NextFit map start count (run_align count align))
      (RunOverflow (MAX_FRAMES + max align 1 + count))
      (find_wrapping map start count align) := by
  have hfirst : Ends (Least (RunAt map MAX_FRAMES count (run_align count align)) start MAX_FRAMES)
      (RunOverflow (MAX_FRAMES + max align 1 + count))
      (find map start MAX_FRAMES count align) := by
    have h := find_spec map start align (Nat.le_of_eq hn) hc
      fun _ j h1 h2 => by unfold word_end at h2; omega
    rwa [Nat.max_eq_right hs] at h
  refine hfirst.bind fun r hr => ?_
  cases r with
  | some s => exact .inl ⟨Option.some_ne_none s, hr⟩
  | none =>
      dsimp only
      split
      · have hclean : count = 1 → ∀ j, start ≤ j → j < word_end start → bit map j = false := by
          rintro rfl j h1 h2
          have hj : j < MAX_FRAMES := by unfold word_end at h2; omega
          have := hr j h1 hj
          simpa [run_align, runAt_single map, hj] using this
        refine (find_spec map 0 align (by omega) hc hclean).mono
          (fun r' hr' => .inr ⟨hr, hr'⟩) (fun e he => ⟨by have := he.1; omega, he.2⟩)
      · exact .inr ⟨hr, fun j _ h2 => absurd h2 (by omega)⟩

end Orin.Memory.Pmm
