import Orin.Memory.Vmm.Space

namespace Orin.Memory.Vmm

open Rust Arch
open Theory.Radix

section SetLarge

variable {s : State} {q : List Nat} {b i e : Nat}

theorem walk_set_large (h : Tree s) (hq : q.length = 2) (hb : s.walk q = some b) {p : List Nat}
    (hp : p.length ≤ 2) : (s.set b i e).walk p = s.walk p := by
  refine walk_write fun q' r hsplit hq' => ?_
  have hlen : q'.length < p.length := by simp [hsplit]
  exact h.ne_of_length (by omega) (by omega) hq' hb (by omega) rfl

theorem isTable_set_large (he : slot e = .leaf) {a : Nat} (ha : (s.set b i e).IsTable a) :
    s.IsTable a := by
  obtain ⟨p, hp, ha⟩ := ha
  exact ⟨p, hp, walk_write_leaf (fun d hd => by rw [he] at hd; cases hd) ha⟩

-- A large page over a page table cuts the table off. What is left is a tree.
theorem Tree.set_large (h : Tree s) (hq : q.length = 2) (hb : s.walk q = some b)
    (he : slot e = .leaf) : Tree (s.set b i e) where
  root_ne := h.root_ne
  separate := h.separate.write_leaf fun d hd => by
    rw [he] at hd
    cases hd
  readable a ha := h.readable a (isTable_set_large he ha)
  upper p a j hp ha := by
    rw [walk_set_large h hq hb (by omega)] at ha
    have hne := h.ne_of_length (by omega) (by omega) ha hb (by omega)
    rw [show (s.set b i e).mem a j = s.mem a j from write_table s.mem j e hne]
    exact h.upper p a j hp ha
  boot_present i3 hi3 := by
    rw [walk_set_large h hq hb (by simp)]
    exact h.boot_present i3 hi3
  boot_leaf i3 hi3 a j hj ha := by
    rw [walk_set_large h hq hb (by simp)] at ha
    by_cases hat : a = b ∧ j = i
    · obtain ⟨rfl, rfl⟩ := hat
      rw [show (s.set a j e).mem a j = e from write_here s.mem a j e, he]
    · rw [show (s.set b i e).mem a j = s.mem a j from write_elsewhere s.mem e hat]
      exact h.boot_leaf i3 hi3 a j hj ha
  supply_nodup := h.supply_nodup
  supply_readable := h.supply_readable
  supply_fresh a ha hin := h.supply_fresh a ha (isTable_set_large he hin)

end SetLarge

-- The entry of a page directory that an address passes through.
def State.dir (s : State) (w : VirtAddr) : Option (Nat × Nat) :=
  (s.walk [(indices w).pml4, (indices w).pdpt]).map fun pd => (pd, (indices w).pd)

theorem dir_eq_some {s : State} {w : VirtAddr} {pd i : Nat} : s.dir w = some (pd, i) ↔
    s.walk [(indices w).pml4, (indices w).pdpt] = some pd ∧ (indices w).pd = i := by
  simp [State.dir]

theorem find_of_dir {s : State} {w : VirtAddr} {pd i : Nat} (h : s.dir w = some (pd, i)) :
    s.find (path w) = Theory.Radix.find slot s.mem pd [i, (indices w).pt] := by
  obtain ⟨hwalk, rfl⟩ := dir_eq_some.mp h
  rw [show path w = [(indices w).pml4, (indices w).pdpt] ++ [(indices w).pd, (indices w).pt] from rfl]
  exact find_append hwalk (by simp)

-- The 2 MiB of `v` are mapped by the entry `e`, and so is everything else that passes
-- through the same entry of the directory. Nothing else changed.
structure Covered (s s' : State) (v : VirtAddr) (e : Nat) : Prop extends Within s s' where
  here : ∃ pd, s'.dir v = some (pd, (indices v).pd)
  covered : ∀ w, s'.dir w = s'.dir v → s'.find (path w) = some (e, [(indices w).pt])
  elsewhere : ∀ w, s'.dir w ≠ s'.dir v → s'.find (path w) = s.find (path w)
  shared : ∀ w u, s'.dir w = s'.dir v → s'.dir u = s'.dir v → (indices u).pt = (indices w).pt →
    s.find (path u) = s.find (path w)

theorem Arrived.covered {S : Finset (List Nat)} {s s' : State} {v : VirtAddr} {pd e : Nat}
    (h : Arrived S s [(indices v).pml4, (indices v).pdpt] pd s') (he : slot e = .leaf) :
    Covered s (s'.set pd (indices v).pd e) v e := by
  have hdir : ∀ w, (s'.set pd (indices v).pd e).dir w = s'.dir w := by
    intro w
    rw [State.dir, walk_set_large h.tree rfl h.here (by simp)]
    rfl
  have hv : s'.dir v = some (pd, (indices v).pd) := dir_eq_some.mpr ⟨h.here, rfl⟩
  exact
    { toWithin := h.grown.toWithin.trans
        (within_set (by simp) h.here fun a ha => isTable_set_large he ha)
      here := ⟨pd, (hdir v).trans hv⟩
      covered := by
        intro w hw
        rw [hdir, hdir, hv] at hw
        obtain ⟨hwalk, hpd⟩ := dir_eq_some.mp hw
        rw [show path w =
          [(indices w).pml4, (indices w).pdpt] ++ (indices w).pd :: [(indices w).pt] from rfl, hpd]
        exact h.tree.separate.find_write_leaf home_naming (by simp) hwalk he
      elsewhere := by
        intro w hw
        rw [hdir, hdir, hv] at hw
        rw [← h.grown.find (path w) rfl]
        refine find_write fun q r hsplit hq => hw ?_
        have hlen : q.length < 4 := by
          have := congrArg List.length hsplit
          rw [path_length, List.length_append, List.length_cons] at this
          omega
        have htwo : q.length = 2 := by
          by_contra hne
          exact h.tree.ne_of_length hlen (by simp) hq h.here hne rfl
        obtain ⟨x, y, rfl⟩ := List.length_eq_two.mp htwo
        simp only [path, List.cons_append, List.nil_append, List.cons.injEq] at hsplit
        obtain ⟨rfl, rfl, hpd, -⟩ := hsplit
        exact dir_eq_some.mpr ⟨hq, hpd⟩
      shared := by
        intro w u hw hu hpt
        rw [hdir, hdir, hv] at hw hu
        rw [← h.grown.find (path u) rfl, ← h.grown.find (path w) rfl, find_of_dir hw, find_of_dir hu,
          hpt] }

theorem slot_large {p f : Nat} (hp : p % 4096 = 0) (hf : is_present f = true) :
    slot (p ||| (f ||| flags.HUGE_PAGE)) = .leaf := by
  rw [slot_leaf_iff, is_present_or _ hp, is_huge_or _ hp, is_present_eq, is_huge_eq, Nat.testBit_or,
    Nat.testBit_or, ← is_present_eq f, hf]
  exact ⟨rfl, Bool.or_true _⟩

theorem ends_map_2m_page {s : State} (h : Tree s) {S : Finset (List Nat)}
    (hlen : ∀ q ∈ S, q.length ≤ 2) {v : VirtAddr} {p f : Nat}
    (hS : ∀ q ∈ tables_of v, q.length ≤ 2 → q ∈ S) (he : slot (p ||| f) = .leaf) :
    Ends (fun s' => Tree s' ∧ Covered s s' v (p ||| f) ∧ (Enough S s → Enough S s'))
      (fun _ => ¬Enough S s) (map_2m_page s s.kernel_pml4 f v p) := by
  have hstart : Arrived S s [] s.kernel_pml4 s := .start h
  rw [map_2m_page, h.table_at_root, ok_bind]
  refine Ends.bind (hstart.descend _ (by simp) (h.upper [] _ _ (by simp) rfl)
    (hS _ (by simp [tables_of]) (by simp))) ?_
  rintro ⟨pdpt, s1⟩ h1
  simp only [h1.table_at (by simp), ok_bind]
  refine Ends.bind (h1.descend _ (by simp) (h1.tree.upper _ _ _ (by simp) h1.here)
    (hS _ (by simp [tables_of]) (by simp))) ?_
  rintro ⟨pd, s2⟩ h2
  simp only [h2.table_at (by simp), ok_bind]
  refine ⟨h2.tree.set_large rfl h2.here he, Arrived.covered h2 he, fun henough => ?_⟩
  -- a page table that is cut off is not among those the call needs
  have hwalk : ∀ q a, q ∈ S → q.length < 4 → s2.walk q = some a →
      (s2.set pd (indices v).pd (p ||| f)).walk q = some a :=
    fun q a hq _ ha => (walk_set_large h2.tree rfl h2.here (hlen q hq)).trans ha
  exact Enough.of_walk hwalk rfl rfl (h2.enough henough)

-- A call that has nothing to stop at: there is no old page to respect.
structure AskedLarge (S : Finset (List Nat)) (s : State) (va : VirtAddr) (pa : PhysAddr)
    (size : Nat) : Prop where
  va_aligned : va.as_u64 % 2 ^ 21 = 0
  pa_aligned : pa.as_u64 % 2 ^ 21 = 0
  size_aligned : size % 2 ^ 21 = 0
  canonical : ∀ v, va.as_u64 ≤ v → v < va.as_u64 + size → Canonical v
  pa_fits : pa.as_u64 + size ≤ WORD
  enough : Enough S s

-- The loop rule of `map_2m`: what every covered page keeps, the call keeps.
theorem ends_map_2m {s : State} (h : Tree s) {S : Finset (List Nat)} (hlen : ∀ q ∈ S, q.length ≤ 2)
    {va : VirtAddr} {pa : PhysAddr} {size : Nat} {perm : Perm}
    (hS : ∀ v : VirtAddr, va.as_u64 ≤ v.as_u64 → v.as_u64 < va.as_u64 + size →
      ∀ q ∈ tables_of v, q.length ≤ 2 → q ∈ S) (I : Nat → State → Prop) (hstart : I 0 s)
    (hstep : ∀ k t t' (v : VirtAddr), va.as_u64 % 2 ^ 21 = 0 → pa.as_u64 % 2 ^ 21 = 0 →
      k * 2 ^ 21 + 2 ^ 21 ≤ size → v.as_u64 = va.as_u64 + k * 2 ^ 21 → Tree t → Tree t' → I k t →
      Covered t t' v ((pa.as_u64 + k * 2 ^ 21) ||| (effective s perm ||| flags.HUGE_PAGE)) →
      I (k + 1) t') :
    Ends (fun s' => Tree s' ∧ Within s s' ∧ I (size / 2 ^ 21) s')
      (fun _ => ¬AskedLarge S s va pa size) (map_2m s va pa size perm) := by
  unfold map_2m
  have hlarge : LARGE_PAGE_SIZE = 2 ^ 21 := rfl
  rw [hlarge]
  refine (ends_aligned fun hno _ hasked => hno hasked.va_aligned).bind fun _ hva => ?_
  refine (ends_aligned fun hno _ hasked => hno hasked.pa_aligned).bind fun _ hpa => ?_
  refine (ends_aligned fun hno _ hasked => hno hasked.size_aligned).bind fun _ hsize => ?_
  refine Ends.bind (ends_assert (P := fun _ => True) (fun _ => trivial)
    fun hc _ => by simp [h.root_ne] at hc) fun _ _ => ?_
  refine (ends_forRange (fun k t => Tree t ∧ Within s t ∧ (Enough S s → Enough S t) ∧ I k t)
    ⟨h, .refl s, id, hstart⟩ ?_).mono (fun s' hs' => ?_) fun _ hstop => hstop
  · rintro k t - hk ⟨htree, hwithin, henough, hI⟩
    have hfits : k * 2 ^ 21 + 2 ^ 21 ≤ size := by omega
    have hmul : Ends (fun n => n = k * 2 ^ 21) (fun _ => ¬AskedLarge S s va pa size)
        (mul k (2 ^ 21)) := by
      refine ends_mul (fun _ => rfl) fun hover hasked => ?_
      have := hasked.pa_fits
      omega
    refine hmul.bind fun _ hn => ?_
    subst hn
    refine Ends.bind (ends_add (P := fun n => n = va.as_u64 + k * 2 ^ 21) (fun _ => rfl)
      fun hover hasked => ?_) fun _ hn => ?_
    · have := Canonical.lt_WORD (hasked.canonical (va.as_u64 + k * 2 ^ 21) (by omega) (by omega))
      omega
    subst hn
    refine hmul.bind fun _ hn => ?_
    subst hn
    refine Ends.bind (ends_add (P := fun n => n = pa.as_u64 + k * 2 ^ 21) (fun _ => rfl)
      fun hover hasked => ?_) fun _ hn => ?_
    · have := hasked.pa_fits
      omega
    subst hn
    refine Ends.bind (ends_VirtAddr_new (P := fun v => v.as_u64 = va.as_u64 + k * 2 ^ 21)
      (fun _ hw => hw) fun hno _ hasked => ?_) fun v hv => ?_
    · exact hno (hasked.canonical (va.as_u64 + k * 2 ^ 21) (by omega) (by omega))
    rw [← hwithin.root]
    have hleaf : slot ((pa.as_u64 + k * 2 ^ 21) ||| (effective s perm ||| flags.HUGE_PAGE)) = .leaf :=
      slot_large (by omega) (effective_present s perm)
    refine (ends_map_2m_page htree hlen (hS v (by omega) (by omega)) hleaf).mono ?_
      fun _ hno hasked => hno (henough hasked.enough)
    rintro t' ⟨htree', hcovered, hkept⟩
    exact ⟨htree', hwithin.trans hcovered.toWithin, fun hs => hkept (henough hs),
      hstep k t t' v hva hpa hfits hv htree htree' hI hcovered⟩
  · rw [Nat.max_eq_right (Nat.zero_le _)] at hs'
    exact ⟨hs'.1, hs'.2.1, hs'.2.2.2⟩

-- The rule for a call that returned.
theorem map_2m_ok {s s' : State} (h : Tree s) {va : VirtAddr} {pa : PhysAddr} {size : Nat}
    {perm : Perm} (I : Nat → State → Prop) (hstart : I 0 s)
    (hstep : ∀ k t t' (v : VirtAddr), va.as_u64 % 2 ^ 21 = 0 → pa.as_u64 % 2 ^ 21 = 0 →
      k * 2 ^ 21 + 2 ^ 21 ≤ size → v.as_u64 = va.as_u64 + k * 2 ^ 21 → Tree t → Tree t' → I k t →
      Covered t t' v ((pa.as_u64 + k * 2 ^ 21) ||| (effective s perm ||| flags.HUGE_PAGE)) →
      I (k + 1) t') (hok : map_2m s va pa size perm = .ok s') : Tree s' ∧ I (size / 2 ^ 21) s' := by
  obtain ⟨S, hS⟩ := exists_tables
  have hspec := ends_map_2m (S := S.filter (·.length ≤ 2)) h (fun q hq => (Finset.mem_filter.mp hq).2)
    (fun v _ _ q hq hlen => Finset.mem_filter.mpr ⟨hS v q hq, hlen⟩) I hstart hstep
  obtain ⟨htree, -, hI⟩ := hspec.of_eq_ok hok
  exact ⟨htree, hI⟩

end Orin.Memory.Vmm
