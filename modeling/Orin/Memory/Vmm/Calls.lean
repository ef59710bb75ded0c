import Orin.Memory.Vmm.Large
import Orin.Memory.Vmm.Theorems
import Orin.Theory.Run

namespace Orin.Memory.Vmm

open Rust Arch Boot
open Theory.Radix
open Theory (Run)

-- What the rest of the kernel asks of the two mappers.
inductive Call where
  | map_4k (va : VirtAddr) (pa : PhysAddr) (size : Nat) (perm : Perm)
  | map_2m (va : VirtAddr) (pa : PhysAddr) (size : Nat) (perm : Perm)

def Call.run (s : State) : Call → Except Panic (Unit × State)
  | .map_4k va pa size perm => do
      let s ← Vmm.map_4k s va pa size perm
      return ((), s)
  | .map_2m va pa size perm => do
      let s ← Vmm.map_2m s va pa size perm
      return ((), s)

theorem run_map_4k {s s' : State} {va : VirtAddr} {pa : PhysAddr} {size : Nat} {perm : Perm}
    {u : Unit} : Call.run s (.map_4k va pa size perm) = .ok (u, s') ↔
      Vmm.map_4k s va pa size perm = .ok s' := by
  rw [Call.run]
  cases Vmm.map_4k s va pa size perm with
  | error e => exact iff_of_false (fun h => nomatch h) (fun h => nomatch h)
  | ok t => exact ⟨fun h => by cases h; rfl, fun h => by cases h; rfl⟩

theorem run_map_2m {s s' : State} {va : VirtAddr} {pa : PhysAddr} {size : Nat} {perm : Perm}
    {u : Unit} : Call.run s (.map_2m va pa size perm) = .ok (u, s') ↔
      Vmm.map_2m s va pa size perm = .ok s' := by
  rw [Call.run]
  cases Vmm.map_2m s va pa size perm with
  | error e => exact iff_of_false (fun h => nomatch h) (fun h => nomatch h)
  | ok t => exact ⟨fun h => by cases h; rfl, fun h => by cases h; rfl⟩

-- No address of the range is on a 2 MiB page.
def Clear (s : State) (va : VirtAddr) (size : Nat) : Prop :=
  ∀ v : VirtAddr, va.as_u64 ≤ v.as_u64 → v.as_u64 < va.as_u64 + size → ∀ q e,
    translate s v = .ok (some (q, e)) → is_huge e = false

-- Every address of the range that is mapped at all, and that `Z` speaks about, is mapped
-- to the frame that is asked for.
def Same (Z : VirtAddr → Prop) (s : State) (va : VirtAddr) (pa : PhysAddr) (size : Nat) : Prop :=
  ∀ v : VirtAddr, Z v → va.as_u64 ≤ v.as_u64 → v.as_u64 < va.as_u64 + size → ∀ q e,
    translate s v = .ok (some (q, e)) → q = pa.as_u64 + (v.as_u64 - va.as_u64)

-- The states between calls: pages of 4 KiB do not carry the bit of the large ones.
structure Sound (s : State) : Prop where
  tree : Tree s
  small : ∀ v e, s.find (path v) = some (e, []) → is_huge e = false

section Step

variable {s s' : State} {va : VirtAddr} {pa : PhysAddr} {size : Nat} {perm : Perm}

theorem Clear.notLarge (h : Clear s va size) (htree : Tree s) {v : VirtAddr}
    (h1 : va.as_u64 ≤ v.as_u64) (h2 : v.as_u64 < va.as_u64 + size) : NotLarge s v := by
  intro e r hfind
  by_contra hr
  have hhuge := (slot_leaf_iff.mp (slot_of_find hfind hr)).2
  rw [h v h1 h2 _ e (by rw [translate_eq htree, mapping_of_find hfind])] at hhuge
  cases hhuge

theorem page_entry_huge {s : State} {va pa v : Nat} (hva : va % 4096 = 0) (hpa : pa % 4096 = 0) :
    is_huge (page_entry va pa (effective s perm) v) = false := by
  rw [page_entry, is_huge_or _ (by omega), effective_huge]

theorem find_small {w : VirtAddr} {q e : Nat} (h : mapping s w = some (q, e))
    (he : is_huge e = false) : s.find (path w) = some (e, []) := by
  obtain ⟨r, hfind, -⟩ := find_of_mapping h
  by_cases hr : r = []
  · rw [hfind, hr]
  · rw [(slot_leaf_iff.mp (slot_of_find hfind hr)).2] at he
    cases he

theorem Sound.map_4k (h : Sound s) (hclear : Clear s va size)
    (hok : Vmm.map_4k s va pa size perm = .ok s') : Sound s' := by
  obtain ⟨htree, hlaid, -⟩ := map_4k_ok h.tree (fun v h1 h2 => hclear.notLarge h.tree h1 h2) hok
  obtain ⟨hva, hpa⟩ := map_4k_aligned hok
  refine ⟨htree, fun v e hfind => ?_⟩
  by_cases hin : va.as_u64 ≤ v.as_u64 ∧ v.as_u64 < va.as_u64 + size
  · rw [hlaid.inside v hin.1 hin.2] at hfind
    cases hfind
    exact page_entry_huge hva hpa
  · rw [hlaid.outside v hin] at hfind
    exact h.small v e hfind

theorem Sound.map_2m (h : Sound s) (hok : Vmm.map_2m s va pa size perm = .ok s') : Sound s' := by
  obtain ⟨htree, hsmall⟩ := map_2m_ok h.tree
    (fun _ t => ∀ v e, t.find (path v) = some (e, []) → is_huge e = false) h.small
    (fun k t t' v _ _ _ _ _ _ ht hcovered w e hfind => by
      by_cases hdir : t'.dir w = t'.dir v
      · rw [hcovered.covered w hdir] at hfind
        cases hfind
      · rw [hcovered.elsewhere w hdir] at hfind
        exact ht w e hfind) hok
  exact ⟨htree, hsmall⟩

-- Where an entry is shared, the address it gives depends on the last 21 bits only.
theorem resolve_shared {w u : VirtAddr} (h : w.as_u64 % 2 ^ 21 = u.as_u64 % 2 ^ 21) (x : Nat × List Nat) :
    resolve w x = resolve u x := by
  obtain ⟨e, r⟩ := x
  cases r with
  | nil => rw [resolve, resolve, show w.as_u64 % 4096 = u.as_u64 % 4096 by omega]
  | cons i r => rw [resolve, resolve, h]

-- A call that stays off the large pages redirects nothing: it would have refused.
theorem map_4k_keeps (h : Tree s) (hclear : Clear s va size)
    (hok : Vmm.map_4k s va pa size perm = .ok s') {w : VirtAddr} {q e : Nat}
    (hw : mapping s w = some (q, e)) : ∃ e', mapping s' w = some (q, e') := by
  obtain ⟨htree, hlaid, hagrees⟩ := map_4k_ok h (fun v h1 h2 => hclear.notLarge h h1 h2) hok
  obtain ⟨hva, hpa⟩ := map_4k_aligned hok
  obtain ⟨r, hfind, rfl⟩ := find_of_mapping hw
  by_cases hin : va.as_u64 ≤ w.as_u64 ∧ w.as_u64 < va.as_u64 + size
  · have hsmall := hclear.notLarge h hin.1 hin.2 e r hfind
    subst hsmall
    have haddr := hagrees w hin.1 hin.2 e hfind
    have hnew : entry_addr (page_entry va.as_u64 pa.as_u64 (effective s perm) w.as_u64) =
        entry_addr e := by
      rw [page_entry, entry_addr_or, effective_addr, Nat.or_zero, ← haddr,
        entry_addr_of_page (entry_addr_mod e) (entry_addr_lt e)]
    refine ⟨page_entry va.as_u64 pa.as_u64 (effective s perm) w.as_u64, ?_⟩
    rw [mapping_of_find (hlaid.inside w hin.1 hin.2), resolve, resolve, hnew]
  · exact ⟨e, by rw [mapping_of_find (hlaid.outside w hin ▸ hfind)]⟩

-- Addresses that pass through one entry of a page directory are in `Z` together.
def Closed (Z : VirtAddr → Prop) : Prop :=
  ∀ w u : VirtAddr, home [(indices w).pml4, (indices w).pdpt] = home [(indices u).pml4, (indices u).pdpt] →
    Z w → Z u

-- What a call of `map_2m` under `Same` keeps, up to its page `k`.
structure Kept (Z : VirtAddr → Prop) (s : State) (va : VirtAddr) (pa : PhysAddr) (size k : Nat)
    (t : State) : Prop where
  mapped : ∀ w q e, Z w → mapping s w = some (q, e) → ∃ e', mapping t w = some (q, e')
  ahead : ∀ w q e, Z w → va.as_u64 + k * 2 ^ 21 ≤ w.as_u64 → w.as_u64 < va.as_u64 + size →
    mapping t w = some (q, e) → q = pa.as_u64 + (w.as_u64 - va.as_u64)

-- The address of the page of `v` that has the last 21 bits of `w`.
theorem exists_in_page {v : VirtAddr} (hv : v.as_u64 % 2 ^ 21 = 0) (w : VirtAddr) :
    ∃ u : VirtAddr, u.as_u64 = v.as_u64 + w.as_u64 % 2 ^ 21 ∧
      (indices u).pml4 = (indices v).pml4 ∧ (indices u).pdpt = (indices v).pdpt ∧
      (indices u).pd = (indices v).pd ∧ (indices u).pt = (indices w).pt := by
  have hcan : Canonical (v.as_u64 + w.as_u64 % 2 ^ 21) := by
    have hv := v.canonical
    unfold Canonical at hv ⊢
    omega
  refine ⟨⟨_, hcan⟩, rfl, ?_⟩
  simp only [indices, index_eq]
  omega

theorem large_addr {p : Nat} {s : State} (hp : p % 2 ^ 21 = 0) (hlt : p < 0x10000000000000)
    {w : VirtAddr} {r : List Nat} (hr : r ≠ []) :
    (resolve w (p ||| (effective s perm ||| flags.HUGE_PAGE), r)).1 = p + w.as_u64 % 2 ^ 21 := by
  obtain ⟨i, r, rfl⟩ := List.exists_cons_of_ne_nil hr
  have haddr : entry_addr (p ||| (effective s perm ||| flags.HUGE_PAGE)) = p := by
    rw [entry_addr_or, entry_addr_or, effective_addr, show entry_addr flags.HUGE_PAGE = 0 by rfl,
      Nat.or_zero, Nat.or_zero, entry_addr_of_page (by omega) hlt]
  rw [resolve, haddr]
  omega

theorem mapping_lt {t : State} {w : VirtAddr} {q e : Nat} (h : mapping t w = some (q, e)) :
    q < 0x10000000000000 := by
  obtain ⟨r, -, rfl⟩ := find_of_mapping h
  cases r with
  | nil => exact small_lt _ _
  | cons i r => exact large_lt _ _

-- A mapped boot directory has no unmapped page.
theorem Tree.boot_mapped (h : Tree s) {w : VirtAddr} (h4 : (indices w).pml4 = 0)
    (h3 : (indices w).pdpt ∈ BOOT_SLOTS) : mapping s w ≠ none := by
  obtain ⟨pd, hpd⟩ := h.boot_present _ h3
  have hleaf := h.boot_leaf _ h3 pd _ (pd_lt w) hpd
  have hfind : s.find (path w) = some (s.mem pd (indices w).pd, [(indices w).pt]) := by
    rw [show path w = [0, (indices w).pdpt] ++ [(indices w).pd, (indices w).pt] by rw [path, h4]; rfl,
      State.find, find_append hpd (by simp), find_cons_leaf hleaf]
  rw [mapping_of_find hfind]
  simp

theorem same_page {w v : VirtAddr} (h4 : (indices w).pml4 = (indices v).pml4)
    (h3 : (indices w).pdpt = (indices v).pdpt) (h2 : (indices w).pd = (indices v).pd) :
    w.as_u64 / 2 ^ 21 = v.as_u64 / 2 ^ 21 := by
  have hw := w.canonical
  have hv := v.canonical
  unfold Canonical at hw hv
  simp only [indices, index_eq] at h4 h3 h2
  omega

section Covered

variable {t t' : State} {v w : VirtAddr} {e : Nat}

theorem Covered.home_eq (h : Covered t t' v e) (htree : Tree t') (hw : t'.dir w = t'.dir v) :
    home [(indices w).pml4, (indices w).pdpt] = home [(indices v).pml4, (indices v).pdpt] ∧
      (indices w).pd = (indices v).pd := by
  obtain ⟨pd, hpd⟩ := h.here
  rw [hpd] at hw
  obtain ⟨hwalk, hi⟩ := dir_eq_some.mp hw
  exact ⟨htree.separate _ _ pd (by simp) (by simp) hwalk (dir_eq_some.mp hpd).1, hi⟩

-- Two addresses share an entry as neighbours on its page, or through the boot map.
theorem Covered.mapped_or_same (h : Covered t t' v e) (ht : Tree t) (htree : Tree t')
    (hw : t'.dir w = t'.dir v) :
    mapping t w ≠ none ∨ w.as_u64 / 2 ^ 21 = v.as_u64 / 2 ^ 21 := by
  obtain ⟨hname, h2⟩ := h.home_eq htree hw
  simp only [home, List.cons.injEq, and_true] at hname
  obtain ⟨h4, h3⟩ := hname
  by_cases hboot : (indices v).pml4 = 0 ∧ (indices w).pdpt ∈ BOOT_SLOTS
  · exact .inl (ht.boot_mapped (h4.trans hboot.1) hboot.2)
  · rw [h4] at h3
    exact .inr (same_page h4 (boot_slot_inj hboot h3.symm).symm h2)

end Covered

section Kept

variable {Z : VirtAddr → Prop} {t t' : State} {v : VirtAddr} {k : Nat}

-- What an address that is about to be covered maps to.
theorem Kept.asked (h : Kept Z s va pa size k t) (hclosed : Closed Z) (htree : Tree t')
    (hva : va.as_u64 % 2 ^ 21 = 0) (hfits : k * 2 ^ 21 + 2 ^ 21 ≤ size)
    (hv : v.as_u64 = va.as_u64 + k * 2 ^ 21) {e : Nat} (hcovered : Covered t t' v e)
    {w : VirtAddr} (hz : Z w) (hdir : t'.dir w = t'.dir v) {q f : Nat}
    (hw : mapping t w = some (q, f)) :
    q = pa.as_u64 + k * 2 ^ 21 + w.as_u64 % 2 ^ 21 := by
  obtain ⟨u, hu, h4, h3, h2, h1⟩ := exists_in_page (v := v) (by omega) w
  have hdiru : t'.dir u = t'.dir v := by rw [State.dir, State.dir, h4, h3, h2]
  have hsame : mapping t u = mapping t w := by
    rw [mapping, mapping, hcovered.shared w u hdir hdiru h1]
    refine congrArg (Option.map · _) (funext fun x => resolve_shared ?_ x)
    omega
  have hzu : Z u := by
    refine hclosed w u ?_ hz
    rw [(hcovered.home_eq htree hdir).1, h4, h3]
  have hlt : w.as_u64 % 2 ^ 21 < 2 ^ 21 := Nat.mod_lt _ (by decide)
  have := h.ahead u q f hzu (by omega) (by omega) (hsame.trans hw)
  omega

theorem Kept.step (h : Kept Z s va pa size k t) (hclosed : Closed Z) (ht : Tree t) (htree : Tree t')
    (hva : va.as_u64 % 2 ^ 21 = 0) (hpa : pa.as_u64 % 2 ^ 21 = 0) (hfits : k * 2 ^ 21 + 2 ^ 21 ≤ size)
    (hv : v.as_u64 = va.as_u64 + k * 2 ^ 21)
    (hcovered : Covered t t' v
      ((pa.as_u64 + k * 2 ^ 21) ||| (effective s perm ||| flags.HUGE_PAGE))) :
    Kept Z s va pa size (k + 1) t' where
  mapped w q e hz hw := by
    obtain ⟨e₁, ht₁⟩ := h.mapped w q e hz hw
    by_cases hdir : t'.dir w = t'.dir v
    · have hq := h.asked hclosed htree hva hfits hv hcovered hz hdir ht₁
      have hlt := mapping_lt ht₁
      rw [mapping_of_find (hcovered.covered w hdir), large_addr (by omega) (by omega) (by simp), hq]
      exact ⟨_, rfl⟩
    · refine ⟨e₁, ?_⟩
      rw [mapping, hcovered.elsewhere w hdir]
      exact ht₁
  ahead w q e hz h1 h2 hw := by
    rw [Nat.add_mul, Nat.one_mul, ← Nat.add_assoc] at h1
    have hbeyond : va.as_u64 + k * 2 ^ 21 ≤ w.as_u64 := Nat.le_trans (Nat.le_add_right _ _) h1
    by_cases hdir : t'.dir w = t'.dir v
    · exfalso
      rcases hcovered.mapped_or_same ht htree hdir with hmapped | hpage
      · obtain ⟨⟨q₀, e₀⟩, hw₀⟩ := Option.ne_none_iff_exists'.mp hmapped
        have hasked := h.asked hclosed htree hva hfits hv hcovered hz hdir hw₀
        have hahead := h.ahead w q₀ e₀ hz hbeyond h2 hw₀
        omega
      · omega
    · rw [mapping, hcovered.elsewhere w hdir] at hw
      exact h.ahead w q e hz hbeyond h2 hw

end Kept

theorem map_2m_keeps (Z : VirtAddr → Prop) (hclosed : Closed Z) (h : Tree s)
    (hsame : Same Z s va pa size) (hok : Vmm.map_2m s va pa size perm = .ok s') {w : VirtAddr}
    {q e : Nat} (hz : Z w) (hw : mapping s w = some (q, e)) : ∃ e', mapping s' w = some (q, e') := by
  have hstart : Kept Z s va pa size 0 s := by
    constructor
    · intro w q e _ hw
      exact ⟨e, hw⟩
    · intro w q e hz h1 h2 hw
      exact hsame w hz (by omega) h2 q e (by rw [translate_eq h, hw])
  obtain ⟨-, hkept⟩ := map_2m_ok h (Kept Z s va pa size) hstart
    (fun k t t' v hva hpa hfits hv ht htree hkept hcovered =>
      hkept.step hclosed ht htree hva hpa hfits hv hcovered) hok
  exact hkept.mapped w q e hz hw

-- A large page taken for a table: the entry goes into the page's own memory.
theorem map_4k_page_over_large (h : Tree s) {v : VirtAddr} {e p f : Nat} {r : List Nat}
    (hfind : s.find (path v) = some (e, r)) (hr : r ≠ [])
    (htable : table_at (entry_addr e) = .ok (entry_addr e))
    (hold : is_present (s.mem (entry_addr e) (indices v).pt) = false) :
    map_4k_page s s.kernel_pml4 f v p = .ok (s.set (entry_addr e) (indices v).pt (p ||| f)) := by
  obtain ⟨pd, hpd, ⟨hleaf, rfl, -⟩ | ⟨pt, -, -, hnil⟩⟩ := h.find_cases hfind
  · obtain ⟨pdpt, hpdpt, h3⟩ := walk_snoc.mp
      (show s.walk ([(indices v).pml4] ++ [(indices v).pdpt]) = some pd from hpd)
    obtain ⟨_, h4, hnil⟩ := walk_cons.mp hpdpt
    cases hnil
    have h2 : descend s pd (indices v).pd = .ok (some (entry_addr (s.mem pd (indices v).pd), s)) := by
      simp [descend, (slot_leaf_iff.mp hleaf).1]
    simp only [map_4k_page, descend_or_panic, h.table_at_root, descend_eq_table h4,
      descend_eq_table h3, h2, h.table_at (by simp) hpdpt, h.table_at (by simp) hpd, htable, hold,
      ok_bind, pure, Except.pure, Bool.false_and, Bool.false_eq_true, ↓reduceIte]
  · exact absurd hnil hr

-- A write to memory that is no table changes no translation.
theorem translate_set_data (h : Tree s) {b i e : Nat} (hb : ¬s.IsTable b) (v : VirtAddr) :
    translate (s.set b i e) v = translate s v := by
  have hmem : ∀ a j, s.IsTable a → (s.set b i e).mem a j = s.mem a j := fun a j ha =>
    write_table s.mem j e fun hab => hb (hab ▸ ha)
  have htree : Tree (s.set b i e) := h.of_slots rfl rfl fun a j ha => congrArg slot (hmem a j ha)
  have hfind : (s.set b i e).find (path v) = s.find (path v) := by
    refine find_congr fun q j r hsplit a ha => hmem a j ⟨q, ?_, ha⟩
    have := congrArg List.length hsplit
    rw [path_length, List.length_append, List.length_cons] at this
    omega
  rw [translate_eq htree, translate_eq h, mapping, mapping, hfind]

theorem map_4k_one (hroot : s.kernel_pml4 ≠ 0) (hva : va.as_u64 % 4096 = 0)
    (hpa : pa.as_u64 % 4096 = 0) : Vmm.map_4k s va pa 4096 perm =
      map_4k_page s s.kernel_pml4 (effective s perm) va pa.as_u64 := by
  have h0 : mul 0 PAGE_SIZE = .ok 0 := by rw [mul_of_lt (by rw [WORD_eq]; decide)]; rfl
  have hv : add va.as_u64 0 = .ok va.as_u64 := add_of_lt (Canonical.lt_WORD va.canonical)
  have hp : add pa.as_u64 0 = .ok pa.as_u64 :=
    add_of_lt (by rw [WORD_eq]; exact Nat.lt_trans pa.small (by decide))
  have h1 : (va.as_u64 % PAGE_SIZE == 0) = true := beq_iff_eq.mpr hva
  have h2 : (pa.as_u64 % PAGE_SIZE == 0) = true := beq_iff_eq.mpr hpa
  have h3 : (s.kernel_pml4 != 0) = true := bne_iff_ne.mpr hroot
  have hsize : (4096 % PAGE_SIZE == 0) = true := rfl
  have hpages : 4096 / PAGE_SIZE = 1 := rfl
  simp only [Vmm.map_4k, assert, h1, h2, h3, hsize, hpages, ↓reduceIte, ok_bind, forRange, forCount,
    h0, hv, hp, VirtAddr.new_of_canonical va.canonical]
  cases map_4k_page s s.kernel_pml4 (effective s perm) va pa.as_u64 <;> rfl

-- Mapping a page again, to the same frame.
theorem map_4k_page_again (h : Tree s) {v : VirtAddr} {e f : Nat}
    (hfind : s.find (path v) = some (e, [])) (hpresent : is_present e = true) :
    ∃ s', map_4k_page s s.kernel_pml4 f v (entry_addr e) = .ok s' := by
  obtain ⟨pd, hpd, ⟨-, -, hnil⟩ | ⟨pt, h2, rfl, -⟩⟩ := h.find_cases hfind
  · cases hnil
  · obtain ⟨pdpt, hpdpt, h3⟩ := walk_snoc.mp
      (show s.walk ([(indices v).pml4] ++ [(indices v).pdpt]) = some pd from hpd)
    obtain ⟨_, h4, hnil⟩ := walk_cons.mp hpdpt
    cases hnil
    have hpt : s.walk [(indices v).pml4, (indices v).pdpt, (indices v).pd] = some pt :=
      walk_snoc.mpr ⟨pd, hpd, h2⟩
    simp only [map_4k_page, descend_or_panic, h.table_at_root, descend_eq_table h4,
      descend_eq_table h3, descend_eq_table h2, h.table_at (by simp) hpdpt, h.table_at (by simp) hpd,
      h.table_at (by simp) hpt, ok_bind, pure, Except.pure, bne_self_eq_false, Bool.and_false,
      Bool.false_eq_true, ↓reduceIte]
    exact ⟨_, rfl⟩

theorem map_4k_again (h : Tree s) {e : Nat} (hfind : s.find (path va) = some (e, []))
    (hpresent : is_present e = true) (hva : va.as_u64 % 4096 = 0) (hpa : pa.as_u64 = entry_addr e) :
    ∃ s', Vmm.map_4k s va pa 4096 perm = .ok s' := by
  obtain ⟨s', hok⟩ := map_4k_page_again (f := effective s perm) h hfind hpresent
  refine ⟨s', ?_⟩
  rw [map_4k_one h.root_ne hva (by rw [hpa]; exact entry_addr_mod e), hpa, hok]

theorem map_2m_page_eq (h : Tree s) {v : VirtAddr} {pd p f : Nat}
    (hpd : s.walk [(indices v).pml4, (indices v).pdpt] = some pd) :
    map_2m_page s s.kernel_pml4 f v p = .ok (s.set pd (indices v).pd (p ||| f)) := by
  obtain ⟨pdpt, hpdpt, h3⟩ := walk_snoc.mp
    (show s.walk ([(indices v).pml4] ++ [(indices v).pdpt]) = some pd from hpd)
  obtain ⟨_, h4, hnil⟩ := walk_cons.mp hpdpt
  cases hnil
  simp only [map_2m_page, descend_or_panic, h.table_at_root, descend_eq_table h4,
    descend_eq_table h3, h.table_at (by simp) hpdpt, h.table_at (by simp) hpd, ok_bind, pure,
    Except.pure]

theorem map_2m_one (hroot : s.kernel_pml4 ≠ 0) (hva : va.as_u64 % 2 ^ 21 = 0)
    (hpa : pa.as_u64 % 2 ^ 21 = 0) : Vmm.map_2m s va pa LARGE_PAGE_SIZE perm =
      map_2m_page s s.kernel_pml4 (effective s perm ||| flags.HUGE_PAGE) va pa.as_u64 := by
  have h0 : mul 0 LARGE_PAGE_SIZE = .ok 0 := by
    rw [mul_of_lt (by rw [WORD_eq]; decide), Nat.zero_mul]
  have hv : add va.as_u64 0 = .ok va.as_u64 := add_of_lt (Canonical.lt_WORD va.canonical)
  have hp : add pa.as_u64 0 = .ok pa.as_u64 :=
    add_of_lt (by rw [WORD_eq]; exact Nat.lt_trans pa.small (by decide))
  have h1 : (va.as_u64 % LARGE_PAGE_SIZE == 0) = true := beq_iff_eq.mpr hva
  have h2 : (pa.as_u64 % LARGE_PAGE_SIZE == 0) = true := beq_iff_eq.mpr hpa
  have h3 : (s.kernel_pml4 != 0) = true := bne_iff_ne.mpr hroot
  have hsize : (LARGE_PAGE_SIZE % LARGE_PAGE_SIZE == 0) = true := by rw [Nat.mod_self]; rfl
  have hpages : LARGE_PAGE_SIZE / LARGE_PAGE_SIZE = 1 := Nat.div_self (by decide)
  simp only [Vmm.map_2m, assert, h1, h2, h3, hsize, hpages, ↓reduceIte, ok_bind, forRange, forCount,
    h0, hv, hp, VirtAddr.new_of_canonical va.canonical]
  cases map_2m_page s s.kernel_pml4 (effective s perm ||| flags.HUGE_PAGE) va pa.as_u64 <;> rfl

-- A single large page, where the page directory exists: it is mapped, whatever was there.
theorem map_2m_replaces (h : Tree s) {pd : Nat}
    (hpd : s.walk [(indices va).pml4, (indices va).pdpt] = some pd) (hva : va.as_u64 % 2 ^ 21 = 0)
    (hpa : pa.as_u64 % 2 ^ 21 = 0) :
    ∃ s', Vmm.map_2m s va pa LARGE_PAGE_SIZE perm = .ok s' ∧
      translate s' va =
        .ok (some (pa.as_u64, pa.as_u64 ||| (effective s perm ||| flags.HUGE_PAGE))) := by
  have hleaf : slot (pa.as_u64 ||| (effective s perm ||| flags.HUGE_PAGE)) = .leaf :=
    slot_large (by omega) (effective_present s perm)
  refine ⟨_, (map_2m_one h.root_ne hva hpa).trans (map_2m_page_eq h hpd), ?_⟩
  have hfind : (s.set pd (indices va).pd (pa.as_u64 ||| (effective s perm ||| flags.HUGE_PAGE))).find
      (path va) = some (pa.as_u64 ||| (effective s perm ||| flags.HUGE_PAGE), [(indices va).pt]) :=
    h.separate.find_write_leaf home_naming (by simp) hpd hleaf
  rw [translate_eq (h.set_large rfl hpd hleaf), mapping_of_find hfind,
    large_addr hpa pa.small (by simp), hva, Nat.add_zero]

end Step

-- The addresses of the boot map. The kernel reaches its tables through the first 2 GiB.
def BootMapped (v : VirtAddr) : Prop :=
  v.as_u64 < 2 * 2 ^ 30 ∨ 510 * 2 ^ 30 ≤ v.as_u64 ∧ v.as_u64 < 512 * 2 ^ 30

-- A call that keeps off the large pages, and leaves the boot map where it is.
def Spared (s : State) : Call → Prop
  | .map_4k va _ size _ => Clear s va size
  | .map_2m va pa size _ => Same BootMapped s va pa size

-- A call that asks of no mapped address to move, as far as the code does not see to it.
def Agreed (s : State) : Call → Prop
  | .map_4k va _ size _ => Clear s va size
  | .map_2m va pa size _ => Same (fun _ => True) s va pa size

section Runs

variable {L : Layout} {mem : Mem Nat Nat Nat} {supply : List Nat} {nx : Bool} {info : VmmInfo}
variable {s s₀ s' : State} {history : List (Theory.Event State Call Unit)}

theorem documented_entry {sym : Symbols} {image_end : Nat} (b : Sections sym image_end) {v : VirtAddr}
    {q e : Nat} (h : documented sym s v.as_u64 = some (q, e)) :
    ∃ p perm, p % 4096 = 0 ∧ p < BOOT_MAPPED_BYTES ∧ e = p ||| effective s perm := by
  have himage : v.as_u64 - KERNEL_VMA < BOOT_MAPPED_BYTES := by
    have hv := v.canonical
    unfold Canonical at hv
    rw [KERNEL_VMA_eq, BOOT_MAPPED_BYTES_eq]
    omega
  have hheap := b.heap_mapped
  rw [b.heap_size] at hheap
  have hpage : ∀ p, p < BOOT_MAPPED_BYTES →
      p / 4096 * 4096 % 4096 = 0 ∧ p / 4096 * 4096 < BOOT_MAPPED_BYTES := fun p hp =>
    ⟨Nat.mul_mod_left _ _, Nat.lt_of_le_of_lt (Nat.div_mul_le_self p 4096) hp⟩
  rw [documented] at h
  split_ifs at h with h1 h2 h3 h4 h5
  · cases h
    exact ⟨_, .TextRoX, (hpage _ himage).1, (hpage _ himage).2, rfl⟩
  · cases h
    exact ⟨_, .RoData, (hpage _ himage).1, (hpage _ himage).2, rfl⟩
  · cases h
    exact ⟨_, .DataRwNx, (hpage _ himage).1, (hpage _ himage).2, rfl⟩
  · cases h
    have hlt : sym.heap_phys_start + (v.as_u64 - HEAP_VIRT_START) < BOOT_MAPPED_BYTES := by omega
    exact ⟨_, .DataRwNx, (hpage _ hlt).1, (hpage _ hlt).2, rfl⟩
  · obtain ⟨-, rfl⟩ := Prod.mk.inj (Option.some.inj h)
    exact ⟨VGA_PHYS, .Device, by decide, by decide, rfl⟩

theorem init_sound (hfresh : Fresh L supply)
    (hinit : init (booted L mem supply nx) L.symbols = .ok (info, s)) : Sound s := by
  obtain ⟨htree, -, hlow, hrest⟩ := init_low hfresh hinit
  refine ⟨htree, fun v e hfind => ?_⟩
  by_cases hhigh : 256 ≤ (indices v).pml4
  · have hmap := mapping_of_find hfind
    rw [init_kernel_half hfresh hinit hhigh] at hmap
    obtain ⟨p, perm, hp, -, rfl⟩ := documented_entry (sections L) hmap
    rw [is_huge_or _ hp, effective_huge]
  · by_cases h4 : (indices v).pml4 = 0
    · rw [hlow.find_path h4] at hfind
      split_ifs at hfind <;> cases hfind
    · rw [hrest v (by omega) h4] at hfind
      cases hfind

theorem high_of_le {va v : VirtAddr} (h : 256 ≤ (indices va).pml4) (hle : va.as_u64 ≤ v.as_u64) :
    256 ≤ (indices v).pml4 := by
  have hv := v.canonical
  have hva := va.canonical
  unfold Canonical at hv hva
  simp only [indices, index_eq] at h ⊢
  omega

-- `init` makes no large page in the kernel half.
theorem init_clear (hfresh : Fresh L supply)
    (hinit : init (booted L mem supply nx) L.symbols = .ok (info, s)) {va : VirtAddr}
    (hva : 256 ≤ (indices va).pml4) (size : Nat) : Clear s va size := by
  intro v h1 _ q e htranslate
  rw [translate_eq (init_low hfresh hinit).1,
    init_kernel_half hfresh hinit (high_of_le hva h1)] at htranslate
  obtain ⟨p, perm, hp, -, rfl⟩ := documented_entry (sections L) (Except.ok.inj htranslate)
  rw [is_huge_or _ hp, effective_huge]

-- One call. The two conditions differ in what `map_2m` may be asked only.
theorem Sound.call (h : Sound s) {call : Call} {u : Unit}
    (hclear : ∀ va pa size perm, call = .map_4k va pa size perm → Clear s va size)
    (hok : call.run s = .ok (u, s')) : Sound s' := by
  cases call with
  | map_4k va pa size perm => exact h.map_4k (hclear va pa size perm rfl) (run_map_4k.mp hok)
  | map_2m va pa size perm => exact h.map_2m (run_map_2m.mp hok)

theorem Spared.clear {call : Call} (h : Spared s call) :
    ∀ va pa size perm, call = .map_4k va pa size perm → Clear s va size := by
  rintro va pa size perm rfl
  exact h

theorem Agreed.spared {call : Call} (h : Agreed s call) : Spared s call := by
  cases call with
  | map_4k va pa size perm => exact h
  | map_2m va pa size perm => exact fun v _ => h v trivial

theorem sound_of_run (h : Run Spared Call.run s₀ history s) (h₀ : Sound s₀) :
    Sound s :=
  h.invariant Sound h₀ fun _ _ _ _ ht hspared hok => ht.call hspared.clear hok

theorem Agreed.keeps (h : Sound s) {call : Call} {u : Unit} (hagreed : Agreed s call)
    (hok : call.run s = .ok (u, s')) {w : VirtAddr} {q e : Nat}
    (hmap : mapping s w = some (q, e)) : ∃ e', mapping s' w = some (q, e') := by
  cases call with
  | map_4k va pa size perm => exact map_4k_keeps h.tree hagreed (run_map_4k.mp hok) hmap
  | map_2m va pa size perm =>
      exact map_2m_keeps _ (fun _ _ _ _ => trivial) h.tree hagreed (run_map_2m.mp hok) trivial hmap

-- Off the large pages `map_4k` maps what was asked and nothing else, in every state that
-- such calls lead to.
theorem map_4k_exact (L : Layout) (mem : Mem Nat Nat Nat) (supply : List Nat) (nx : Bool)
    (hfresh : Fresh L supply) (info : VmmInfo) (s₀ : State)
    (hinit : init (booted L mem supply nx) L.symbols = .ok (info, s₀))
    (history : List (Theory.Event State Call Unit)) (s : State)
    (hrun : Run Spared Call.run s₀ history s) (va : VirtAddr) (pa : PhysAddr) (size : Nat)
    (perm : Perm) (hclear : Clear s va size) (hfits : pa.as_u64 + size ≤ 0x10000000000000)
    (s' : State) (hok : map_4k s va pa size perm = .ok s') :
    (∀ v : VirtAddr, va.as_u64 ≤ v.as_u64 → v.as_u64 < va.as_u64 + size →
      translate s' v = .ok (some (pa.as_u64 + (v.as_u64 - va.as_u64),
        (pa.as_u64 + (v.as_u64 - va.as_u64)) / 4096 * 4096 ||| effective s perm))) ∧
    (∀ v : VirtAddr, ¬(va.as_u64 ≤ v.as_u64 ∧ v.as_u64 < va.as_u64 + size) →
      translate s' v = translate s v) ∧
    ∀ a, ¬s.IsTable a → (a ∈ s.supply → a ∈ s'.supply) → ∀ i, s'.mem a i = s.mem a i := by
  have hsound := sound_of_run hrun (init_sound hfresh hinit)
  obtain ⟨hva, hpa⟩ := map_4k_aligned hok
  obtain ⟨htree, hlaid, -⟩ :=
    map_4k_ok hsound.tree (fun v h1 h2 => hclear.notLarge hsound.tree h1 h2) hok
  have hspace := hlaid.mapping_eq hva hpa hfits
  refine ⟨fun v h1 h2 => ?_, fun v hout => ?_, hlaid.kept⟩
  · rw [translate_eq htree, hspace, Space.lay_inside h1 h2, page_entry_eq hva hpa h1]
  · rw [translate_eq htree, translate_eq hsound.tree, hspace, Space.lay_outside hout]

-- The first page of the heap.
def heap_page : VirtAddr := ⟨0xFFFFFFFF00000000, .inr (by decide)⟩

theorem small_heap (h : init small_boot small_layout.symbols = .ok (info, s)) :
    mapping s heap_page = some (0xC00000, 0xC00000 ||| effective s .DataRwNx) := by
  have hstart : heap_page.as_u64 = HEAP_VIRT_START := HEAP_VIRT_START_eq.symm
  have hsize : 0 < HEAP_SIZE := by decide
  rw [init_kernel_half small_fresh h (by decide),
    documented_heap (sections small_layout) (by omega) (by omega), hstart, Nat.sub_self]
  rfl

theorem small_heap_entry (h : init small_boot small_layout.symbols = .ok (info, s)) :
    ∃ e, s.find (path heap_page) = some (e, []) ∧ is_present e = true ∧ entry_addr e = 0xC00000 := by
  refine ⟨_, find_small (small_heap h) ?_, ?_, ?_⟩
  · rw [is_huge_or _ (by decide), effective_huge]
  · rw [is_present_or _ (by decide), effective_present]
  · rw [entry_addr_or, effective_addr]
    rfl

theorem map_4k_exact_small :
    ∃ info s s', ∃ pa : PhysAddr, init small_boot small_layout.symbols = .ok (info, s) ∧
      map_4k s heap_page pa 4096 .RoData = .ok s' ∧
      translate s' heap_page = .ok (some (0xC00000, 0xC00000 ||| effective s .RoData)) := by
  obtain ⟨info, s, hinit⟩ := small_returns
  obtain ⟨pa, -, hpa⟩ := PhysAddr.exists_new (show 0xC00000 < 0x10000000000000 by decide)
  obtain ⟨e, hfind, hpresent, haddr⟩ := small_heap_entry hinit
  have hsound := init_sound small_fresh hinit
  have hclear : Clear s heap_page 4096 := init_clear small_fresh hinit (by decide) 4096
  obtain ⟨s', hcall⟩ : ∃ s', map_4k s heap_page pa 4096 .RoData = .ok s' :=
    map_4k_again hsound.tree hfind hpresent (by decide) (by rw [hpa, haddr])
  obtain ⟨hinside, -⟩ := map_4k_exact _ _ _ _ small_fresh info s hinit [] s .nil _ _ _ _ hclear
    (by rw [hpa]; decide) s' hcall
  have hpage := hinside heap_page (Nat.le_refl _) (by omega)
  rw [Nat.sub_self, Nat.add_zero, hpa] at hpage
  exact ⟨info, s, s', pa, hinit, hcall, hpage⟩

-- The frame at 1 GiB is none of the tables, and nothing was written there.
theorem small_frame (h : init small_boot small_layout.symbols = .ok (info, s)) :
    ¬s.IsTable 0x40000000 ∧ 0x40000000 ∉ s.supply ∧ ∀ i, s.mem 0x40000000 i = 0 := by
  obtain ⟨c, rest, hsupply, -, hbuilt⟩ := init_built small_fresh h
  have hlow : ∀ a ∈ c :: rest, a < 0x40000000 := by
    intro a ha
    rw [← hsupply, small_supply] at ha
    obtain ⟨i, hi, rfl⟩ := List.mem_map.mp ha
    rw [List.mem_range] at hi
    omega
  have hfresh : Fresh small_layout (c :: rest) := hsupply ▸ small_fresh
  have htable : ¬(rooted small_layout (fun _ _ => 0) c rest true).IsTable 0x40000000 := by
    intro hin
    rcases (rooted_inherits _ true hfresh).isTable_cases hin with hroot | ⟨k, hk, hboot⟩
    · have := hlow c List.mem_cons_self
      exact absurd hroot (Nat.ne_of_gt this)
    · rw [show small_layout.boot_bss_phys_start = 0x200000 from rfl] at hboot
      omega
  have hout : 0x40000000 ∉ rest := fun hin =>
    absurd (hlow _ (List.mem_cons_of_mem c hin)) (by decide)
  refine ⟨fun hin => ?_, fun hin => hout (hbuilt.supply.subset hin), fun i => ?_⟩
  · exact (hbuilt.tables _ hin).elim htable hout
  · have hc : 0x40000000 ≠ c := Nat.ne_of_gt (hlow c List.mem_cons_self)
    rw [hbuilt.kept _ htable hout i]
    exact (write_table _ i _ hc).trans ((fill_elsewhere _ 0 i hc).trans
      (boot_memory_elsewhere (.inr (by decide))))

-- A page asked for inside a 2 MiB page of the boot map: the call returns, the address
-- still reads the old frame, and a word of that page's memory is overwritten.
theorem map_4k_over_large_page :
    ∃ info s s', ∃ va : VirtAddr, init small_boot small_layout.symbols = .ok (info, s) ∧
      map_4k s va ⟨0x5000, by decide⟩ 4096 .DataRwNx = .ok s' ∧
      translate s' va = .ok (some (va.as_u64, 0x40000083)) ∧ va.as_u64 ≠ 0x5000 ∧
      ¬s.IsTable 0x40000000 ∧ 0x40000000 ∉ s.supply ∧ s'.mem 0x40000000 1 ≠ s.mem 0x40000000 1 := by
  obtain ⟨info, s, hinit⟩ := small_returns
  obtain ⟨htree, -, hlow, -⟩ := init_low small_fresh hinit
  obtain ⟨htable, hsupply, hzero⟩ := small_frame hinit
  have hfind : s.find (path ⟨0x40001000, .inl (by decide)⟩) = some (0x40000083, [1]) := by
    rw [hlow.find_path (by decide)]
    rfl
  have hcall : map_4k s ⟨0x40001000, .inl (by decide)⟩ ⟨0x5000, by decide⟩ 4096 .DataRwNx =
      .ok (s.set 0x40000000 1 (0x5000 ||| effective s .DataRwNx)) := by
    rw [map_4k_one htree.root_ne (by decide) (by decide)]
    refine map_4k_page_over_large htree hfind (by simp) (table_at_eq (by decide)) ?_
    rw [show entry_addr 0x40000083 = 0x40000000 by rfl, hzero]
    rfl
  refine ⟨info, s, _, _, hinit, hcall, ?_, by decide, htable, hsupply, ?_⟩
  · rw [translate_set_data htree htable, translate_eq htree, mapping_of_find hfind]
    rfl
  · have hnew : (s.set 0x40000000 1 (0x5000 ||| effective s .DataRwNx)).mem 0x40000000 1 =
        0x5000 ||| effective s .DataRwNx := write_here s.mem 0x40000000 1 _
    rw [hzero, hnew]
    intro hnone
    have := effective_present s .DataRwNx
    rw [← is_present_or (p := 0x5000) _ (by decide), hnone] at this
    cases this

-- Nothing that is mapped moves in a run of agreed calls.
theorem mapped_address_stays (L : Layout) (mem : Mem Nat Nat Nat) (supply : List Nat) (nx : Bool)
    (hfresh : Fresh L supply) (info : VmmInfo) (s₀ : State)
    (hinit : init (booted L mem supply nx) L.symbols = .ok (info, s₀))
    (history : List (Theory.Event State Call Unit)) (s : State)
    (hrun : Run Agreed Call.run s₀ history s) (call : Call) (hagreed : Agreed s call) (s' : State)
    (hok : call.run s = .ok ((), s')) (va : VirtAddr) (q e : Nat)
    (hmapped : translate s va = .ok (some (q, e))) :
    ∃ e', translate s' va = .ok (some (q, e')) := by
  have hspared : Run Spared Call.run s₀ history s := hrun.mono fun _ _ h => h.spared
  have hsound := sound_of_run hspared (init_sound hfresh hinit)
  rw [translate_eq hsound.tree] at hmapped
  obtain ⟨e', he'⟩ := hagreed.keeps hsound hok (Except.ok.inj hmapped)
  exact ⟨e', by rw [translate_eq (hsound.call hagreed.spared.clear hok).tree, he']⟩

theorem mapped_address_stays_small :
    ∃ info s s', ∃ va : VirtAddr, ∃ pa : PhysAddr, va.as_u64 = 0 ∧ pa.as_u64 = 0 ∧
      init small_boot small_layout.symbols = .ok (info, s) ∧
      Call.run s (.map_2m va pa LARGE_PAGE_SIZE .BootIdentity) = .ok ((), s') ∧
      ∃ e, translate s' va = .ok (some (0, e)) := by
  obtain ⟨info, s, hinit⟩ := small_returns
  obtain ⟨htree, -, hlow, -⟩ := init_low small_fresh hinit
  obtain ⟨va, -, hva⟩ := VirtAddr.exists_new (show Canonical 0 from .inl (by decide))
  obtain ⟨pa, -, hpa⟩ := PhysAddr.exists_new (show 0 < 0x10000000000000 by decide)
  have hpml4 : ∀ v : VirtAddr, v.as_u64 < 0x200000 →
      (indices v).pml4 = 0 ∧ (indices v).pdpt = 0 := by
    intro v hv
    simp only [indices, index_eq]
    omega
  have hmap : ∀ v : VirtAddr, v.as_u64 < 0x200000 →
      mapping s v = some (v.as_u64, 0x83 + v.as_u64 / 2 ^ 21 * 0x200000) := by
    intro v hv
    rw [hlow.mapping_eq (fun n hn => boot_entry_addr hn) (hpml4 v hv).1, if_pos (by omega)]
  have hagreed : Agreed s (.map_2m va pa LARGE_PAGE_SIZE .BootIdentity) := by
    intro v _ _ h2 q e htranslate
    rw [hva, Nat.zero_add] at h2
    rw [translate_eq htree, hmap v h2] at htranslate
    obtain ⟨rfl, -⟩ := Prod.mk.inj (Option.some.inj (Except.ok.inj htranslate))
    rw [hva, hpa, Nat.zero_add, Nat.sub_zero]
  have hpd : s.walk [(indices va).pml4, (indices va).pdpt] =
      some (boot_pd0 small_layout.boot_bss_phys_start) := by
    rw [(hpml4 va (by omega)).1, (hpml4 va (by omega)).2]
    exact hlow.walk_pd.mpr (.inl ⟨.inl rfl, rfl⟩)
  obtain ⟨s', hok, -⟩ : ∃ s', Vmm.map_2m s va pa LARGE_PAGE_SIZE .BootIdentity = .ok s' ∧ _ :=
    map_2m_replaces htree hpd (by omega) (by omega)
  have hmapped : translate s va = .ok (some (0, 0x83)) := by
    rw [translate_eq htree, hmap va (by omega), hva, Nat.zero_div, Nat.zero_mul]
  exact ⟨info, s, s', va, pa, hva, hpa, hinit, run_map_2m.mpr hok,
    mapped_address_stays _ _ _ _ small_fresh info s hinit [] s .nil _ hagreed s'
      (run_map_2m.mpr hok) va 0 0x83 hmapped⟩

-- `map_2m` over the heap: the call returns, and the heap is elsewhere.
theorem map_2m_moves_heap :
    ∃ info s s', ∃ pa : PhysAddr, init small_boot small_layout.symbols = .ok (info, s) ∧
      Call.run s (.map_2m heap_page pa LARGE_PAGE_SIZE .DataRwNx) = .ok ((), s') ∧
      (∃ e, translate s heap_page = .ok (some (0xC00000, e))) ∧
      ∃ e, translate s' heap_page = .ok (some (0x40000000, e)) := by
  obtain ⟨info, s, hinit⟩ := small_returns
  obtain ⟨htree, -, -, -⟩ := init_low small_fresh hinit
  obtain ⟨pa, -, hpa⟩ := PhysAddr.exists_new (show 0x40000000 < 0x10000000000000 by decide)
  obtain ⟨pd, hpd, -⟩ := htree.find_cases
    (find_small (small_heap hinit) (by rw [is_huge_or _ (by decide), effective_huge]))
  obtain ⟨s', hok, hmoved⟩ : ∃ s', Vmm.map_2m s heap_page pa LARGE_PAGE_SIZE .DataRwNx = .ok s' ∧ _ :=
    map_2m_replaces htree hpd (by decide) (by omega)
  have hbefore : translate s heap_page =
      .ok (some (0xC00000, 0xC00000 ||| effective s .DataRwNx)) := by
    rw [translate_eq htree, small_heap hinit]
  exact ⟨info, s, s', pa, hinit, run_map_2m.mpr hok, ⟨_, hbefore⟩, ⟨_, hpa ▸ hmoved⟩⟩

end Runs

end Orin.Memory.Vmm
