import Orin.Memory.Vmm.Audit
import Orin.Memory.Vmm.Calls

namespace Orin.Memory.Vmm

open Rust Arch Boot
open Theory.Radix
open Theory (Run)

section Flags

variable {s : State} {p f e : Nat}

-- An address has neither of the two bits.
theorem is_wx_or (hp : p % 4096 = 0) (hlt : p < 2 ^ 63) : is_wx s (p ||| f) = is_wx s f := by
  rw [is_wx_eq, is_wx_eq, Nat.testBit_or, Nat.testBit_or, page_testBit hp (by decide),
    Nat.testBit_lt_two_pow hlt, Bool.false_or, Bool.false_or]

theorem effective_not_wx (perm : Perm) : is_wx s (effective s perm) = false := by
  rw [is_wx_eq]
  cases hnx : s.nx_available with
  | false => exact Bool.and_false _
  | true =>
      rw [effective, if_pos hnx]
      cases perm <;> rfl

theorem hardened_not_wx (hf : f.testBit 63 = true) : is_wx s (hardened f e) = false := by
  simp [is_wx_eq, hardened, Nat.testBit_or, hf]

end Flags

-- No page is both writable and executable, and the kernel half has small pages only.
structure Guarded (s : State) : Prop where
  tree : Tree s
  nx : s.nx_available = true
  high : ∀ v : VirtAddr, 256 ≤ (indices v).pml4 → NotLarge s v
  never : ∀ v e r, s.find (path v) = some (e, r) → is_wx s e = false

section Step

variable {s s' : State} {va : VirtAddr} {pa : PhysAddr} {size : Nat} {perm : Perm}

theorem is_wx_congr (h : s'.nx_available = s.nx_available) (e : Nat) : is_wx s' e = is_wx s e := by
  rw [is_wx_eq, is_wx_eq, h]

theorem Guarded.map_4k (h : Guarded s) (hva : 256 ≤ (indices va).pml4)
    (hok : Vmm.map_4k s va pa size perm = .ok s') : Guarded s' := by
  obtain ⟨htree, hlaid, -⟩ := map_4k_ok h.tree (fun v h1 _ => h.high v (high_of_le hva h1)) hok
  obtain ⟨hva4, hpa4⟩ := map_4k_aligned hok
  refine ⟨htree, hlaid.nx.trans h.nx, fun v hv => hlaid.notLarge (h.high v hv), fun v e r hfind => ?_⟩
  rw [is_wx_congr hlaid.nx]
  by_cases hin : va.as_u64 ≤ v.as_u64 ∧ v.as_u64 < va.as_u64 + size
  · rw [hlaid.inside v hin.1 hin.2] at hfind
    cases hfind
    -- the frames of a range in the kernel half stay below the bits that matter
    have hlt : pa.as_u64 + (v.as_u64 / 4096 * 4096 - va.as_u64) < 2 ^ 63 := by
      have h1 := pa.small
      have h2 := v.canonical
      have h3 := va.canonical
      unfold Canonical at h2 h3
      simp only [indices, index_eq] at hva
      omega
    rw [page_entry, is_wx_or (by omega) hlt, effective_not_wx]
  · rw [hlaid.outside v hin] at hfind
    exact h.never v e r hfind

end Step

theorem Guarded.count_wx_violations {s : State} (h : Guarded s) :
    count_wx_violations s = .ok 0 := by
  rw [count_wx_violations_eq h.tree.wellFormed, (violations_eq_zero_iff s).mpr]
  intro va e rest hfound
  rw [h.tree.found_eq] at hfound
  exact h.never va e rest hfound

section Boot

variable {L : Layout} {mem : Mem Nat Nat Nat} {supply : List Nat} {info : VmmInfo} {s : State}

-- The hardened tables have no page that is writable and executable.
theorem hardened_guarded (hfresh : Fresh L supply)
    (hinit : init (booted L mem supply true) L.symbols = .ok (info, s)) :
    Guarded (hardening s L.boot_bss_phys_start (effective s .BootIdentity) 512) := by
  obtain ⟨htree, -, hlow, hrest⟩ := init_low hfresh hinit
  obtain ⟨c, rest, rfl, -, hbuilt⟩ := init_built hfresh hinit
  have hf := effective_present s .BootIdentity
  have hnx : s.nx_available = true := hbuilt.nx
  have hbit : (effective s .BootIdentity).testBit 63 = true := by
    rw [effective, if_pos hnx]
    rfl
  have hwx : ∀ e, is_wx (hardening s L.boot_bss_phys_start (effective s .BootIdentity) 512) e =
      is_wx s e := is_wx_congr rfl
  refine ⟨hardening_tree htree hlow hf, hnx, fun v hv e r hfind => ?_, fun v e r hfind => ?_⟩
  · rw [hardening_find htree hlow (by omega)] at hfind
    exact hbuilt.small v hv e r hfind
  rw [hwx]
  by_cases h4 : (indices v).pml4 = 0
  · obtain ⟨e', rfl⟩ := hardening_entry hlow hf h4 hfind
    exact hardened_not_wx hbit
  rw [hardening_find htree hlow h4] at hfind
  by_cases hhigh : 256 ≤ (indices v).pml4
  · have hmap := mapping_of_find hfind
    rw [init_kernel_half hfresh hinit hhigh] at hmap
    obtain ⟨p, perm, hp, hlt, rfl⟩ := documented_entry (sections L) hmap
    rw [is_wx_or hp (Nat.lt_trans hlt (by decide)), effective_not_wx]
  · rw [hrest v (by omega) h4] at hfind
    cases hfind

end Boot

-- The calls of the later kernel: pages of the kernel half.
def KernelPages (_ : State) : Call → Prop
  | .map_4k va _ _ _ => 256 ≤ (indices va).pml4
  | .map_2m .. => False

-- With NX no page is ever both writable and executable, from the hardened boot map on and
-- over every further mapping in the kernel half.
theorem wx_never (L : Layout) (mem : Mem Nat Nat Nat) (supply : List Nat) (hfresh : Fresh L supply)
    (info : VmmInfo) (s₀ : State)
    (hinit : init (booted L mem supply true) L.symbols = .ok (info, s₀)) :
    ∃ n s₁, harden_boot_map s₀ = .ok (n, s₁) ∧
      ∀ (history : List (Theory.Event State Call Unit)) (s : State),
        Run KernelPages Call.run s₁ history s →
        count_wx_violations s = .ok 0 ∧
        ∀ (va : VirtAddr) (q e : Nat), translate s va = .ok (some (q, e)) →
          ¬(e &&& flags.WRITABLE ≠ 0 ∧ e &&& flags.NO_EXECUTE = 0) := by
  obtain ⟨htree, hcr3, hlow, -⟩ := init_low hfresh hinit
  refine ⟨_, _, harden_boot_map_eq htree hlow hcr3, fun history s hrun => ?_⟩
  have hguarded : Guarded s := by
    refine hrun.invariant Guarded (hardened_guarded hfresh hinit) ?_
    intro t call u t' ht hlegal hok
    cases call with
    | map_4k va pa size perm => exact ht.map_4k hlegal (run_map_4k.mp hok)
    | map_2m va pa size perm => exact hlegal.elim
  refine ⟨hguarded.count_wx_violations, fun va q e htranslate => ?_⟩
  rw [translate_eq hguarded.tree] at htranslate
  obtain ⟨r, hfind, -⟩ := find_of_mapping (Except.ok.inj htranslate)
  exact (not_wx_iff hguarded.nx).mp (hguarded.never va e r hfind)

theorem wx_never_small :
    ∃ info s₀ n s₁ s₂, ∃ pa : PhysAddr, init small_boot small_layout.symbols = .ok (info, s₀) ∧
      harden_boot_map s₀ = .ok (n, s₁) ∧
      map_4k s₁ heap_page pa 4096 .TextRoX = .ok s₂ ∧ count_wx_violations s₂ = .ok 0 := by
  obtain ⟨info, s₀, hinit⟩ := small_returns
  obtain ⟨pa, -, hpa⟩ := PhysAddr.exists_new (show 0xC00000 < 0x10000000000000 by decide)
  obtain ⟨e, hfind, hpresent, haddr⟩ := small_heap_entry hinit
  obtain ⟨n, s₁, hharden, hall⟩ := wx_never _ _ _ small_fresh info s₀ hinit
  have hstate : Tree s₁ ∧ s₁.find (path heap_page) = some (e, []) := by
    obtain ⟨htree, hcr3, hlow, -⟩ := init_low small_fresh hinit
    rw [harden_boot_map_eq htree hlow hcr3] at hharden
    obtain ⟨-, rfl⟩ := Prod.mk.inj (Except.ok.inj hharden)
    refine ⟨hardening_tree htree hlow (effective_present s₀ _), ?_⟩
    rw [hardening_find htree hlow (by decide)]
    exact hfind
  obtain ⟨s₂, hcall⟩ : ∃ s₂, map_4k s₁ heap_page pa 4096 .TextRoX = .ok s₂ :=
    map_4k_again hstate.1 hstate.2 hpresent (by decide) (by rw [hpa, haddr])
  have hlegal : KernelPages s₁ (.map_4k heap_page pa 4096 .TextRoX) := by
    show 256 ≤ (indices heap_page).pml4
    decide
  have hrun := Run.snoc Run.nil hlegal (run_map_4k (u := ()).mpr hcall)
  exact ⟨info, s₀, n, s₁, s₂, pa, hinit, hharden, hcall, (hall _ s₂ hrun).1⟩

end Orin.Memory.Vmm
