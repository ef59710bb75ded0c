import Orin.Memory.Vmm.Wx
import Orin.Selftest

namespace Orin.Selftest

open Rust Arch Memory.Vmm

-- `heap::stats()` after `heap::init`: the window at `HEAP_VIRT_START`.
def test_heap_guarded : Test State := fun s => do
  let guard ← VirtAddr.new (← sub HEAP_VIRT_START PAGE_SIZE)
  if (← translate s guard).isSome then
    return (.error ("guard page below the heap at " ++ hex guard.as_u64 ++
      " IS mapped; a heap underflow would corrupt memory silently"), s)
  else
    let guard_hi ← VirtAddr.new (← add HEAP_VIRT_START HEAP_SIZE)
    if (← translate s guard_hi).isSome then
      return (.error ("guard page above the heap at " ++ hex guard_hi.as_u64 ++ " IS mapped"), s)
    else
      return (.ok ("guard pages at " ++ hex guard.as_u64 ++ " and " ++ hex guard_hi.as_u64 ++
        " are unmapped"), s)

-- The complaint about one section of the image, if any.
def misplaced (s : State) (label : String) (va : Nat) : Except Panic (Option String) := do
  let v ← VirtAddr.new va
  match ← translate s v with
  | none => return some (label ++ " at " ++ hex v.as_u64 ++ " is NOT MAPPED in the live page tables")
  | some (pa, _) =>
      match ← virt_to_phys v with
      | none => return some "kernel symbol is not in the kernel half"
      | some expect =>
          if pa ≠ expect.as_u64 then
            return some (label ++ " at " ++ hex v.as_u64 ++ " translates to " ++ hex pa ++
              ", expected " ++ hex expect.as_u64)
          else return none

def labelled (sym : Boot.Symbols) : List (String × Nat) :=
  [(".text", sym.kernel_text_start), (".rodata", sym.kernel_rodata_start),
    (".data", sym.kernel_data_start), (".bss", sym.kernel_bss_start)]

def test_vmm_translation (sym : Boot.Symbols) : Test State := fun s => do
  match ← (labelled sym).findSomeM? fun x => misplaced s x.1 x.2 with
  | some complaint => return (.error complaint, s)
  | none => return (.ok "4 kernel sections translate to their expected physical addresses", s)

def test_wx_policy : Test State := fun s => do
  let v ← count_wx_violations s
  if v ≠ 0 then
    return (.error (hex v ++ " present page(s) are BOTH writable and executable. " ++
      "W^X (docs/MEMORY.md §2.2) is violated."), s)
  else if !s.nx_available then
    return (.error ("NX is unavailable, so the W^X check was vacuous. Refusing to report PASS on " ++
      "a policy that could not be tested."), s)
  else return (.ok "0 writable+executable pages across the entire kernel address space", s)

-- The tests that look at the entry of one address: the text for an unmapped address, the
-- complaint about the entry, if any, and the report.
def flag_test (address : Nat) (unmapped : String) (complaint : VirtAddr → Nat → Option String)
    (report : VirtAddr → Nat → String) : Test State := fun s => do
  let va ← VirtAddr.new address
  match ← translate s va with
  | none => return (.error unmapped, s)
  | some (_, f) =>
      match complaint va f with
      | some message => return (.error message, s)
      | none => return (.ok (report va f), s)

def text_complaint (va : VirtAddr) (f : Nat) : Option String :=
  if f &&& flags.WRITABLE != 0 then
    some (".text at " ++ hex va.as_u64 ++ " is WRITABLE (flags " ++ hex f ++
      "); self-modifying kernel code is possible")
  else if f &&& flags.NO_EXECUTE != 0 then
    some (".text at " ++ hex va.as_u64 ++ " is marked NO-EXECUTE; the kernel could not run")
  else none

def test_text_not_writable (sym : Boot.Symbols) : Test State :=
  flag_test sym.kernel_text_start ".text is not mapped" text_complaint fun va f =>
    ".text at " ++ hex va.as_u64 ++ ": R-X confirmed (flags " ++ hex f ++ ")"

def rodata_complaint (va : VirtAddr) (f : Nat) : Option String :=
  if f &&& flags.WRITABLE != 0 then
    some (".rodata at " ++ hex va.as_u64 ++ " is WRITABLE; string constants could be patched " ++
      "at runtime")
  else none

def test_rodata_not_writable (sym : Boot.Symbols) : Test State :=
  flag_test sym.kernel_rodata_start ".rodata is not mapped" rodata_complaint fun va f =>
    ".rodata at " ++ hex va.as_u64 ++ ": read-only confirmed (flags " ++ hex f ++ ")"

def nx_complaint (low : VirtAddr) (f : Nat) : Option String :=
  if f &&& flags.NO_EXECUTE == 0 then
    some ("boot identity map at " ++ hex low.as_u64 ++ " is EXECUTABLE (flags " ++ hex f ++
      "); harden_boot_map did not take effect and ret2usr is possible")
  else none

def test_boot_map_nx : Test State :=
  flag_test 0x200000 "boot identity map is not reachable at all (unexpected in M1)" nx_complaint
    fun low f => "boot identity map at " ++ hex low.as_u64 ++ ": NX confirmed (flags " ++ hex f ++ ")"

def user_complaint (low : VirtAddr) (f : Nat) : Option String :=
  if f &&& flags.USER != 0 then
    some ("boot identity map at " ++ hex low.as_u64 ++
      " has the USER bit set; ring 3 could reach physical memory")
  else none

def test_boot_map_not_user : Test State :=
  flag_test 0x200000 "boot identity map not reachable" user_complaint fun low f =>
    "boot identity map at " ++ hex low.as_u64 ++ ": supervisor-only confirmed (flags " ++ hex f ++ ")"

def user_accessible (s : State) (p : Nat) : Except Panic (Option String) := do
  let va ← VirtAddr.new p
  match ← translate s va with
  | none => return none
  | some (pa, f) =>
      if f &&& flags.USER != 0 then
        return some ("user-half address " ++ hex va.as_u64 ++ " is mapped USER-accessible -> " ++
          hex pa ++ " flags " ++ hex f)
      else return none

def test_user_half_unmapped : Test State := fun s => do
  match ← [0x1000, 0x40000000, 0x7FFFFFFFF000].findSomeM? (user_accessible s) with
  | some complaint => return (.error complaint, s)
  | none =>
      return (.ok ("3 user-half probes: none user-accessible (boot identity map present but " ++
        "supervisor-only, removal pending M4)"), s)

-- Step 10 of `kernel_main`: `orin.nx=off` leaves the boot map as it is.
def harden_unless_off (nx : Bool) (s : State) : Except Panic State := do
  if nx then
    let (_, s) ← harden_boot_map s
    return s
  else return s

-- The tests of the page tables in the order of `run_all`.
def table_tests (sym : Boot.Symbols) (t : Suite State) : Except Panic (Suite State) := do
  let t ← run "heap_guarded" test_heap_guarded t
  let t ← run "vmm_translation_matches" (test_vmm_translation sym) t
  let t ← run "wx_policy" test_wx_policy t
  let t ← run "text_not_writable" (test_text_not_writable sym) t
  let t ← run "rodata_not_writable" (test_rodata_not_writable sym) t
  let t ← run "boot_map_nx" test_boot_map_nx t
  let t ← run "boot_map_not_user" test_boot_map_not_user t
  run "user_half_unmapped" test_user_half_unmapped t

section Verdict

variable {s : State} {va : VirtAddr} {test : Test State} {t : Suite State}

-- The test comes to this verdict and leaves the tables alone.
def Verdict (test : Test State) (s : State) (pass : Bool) : Prop :=
  ∃ detail, test s = .ok (if pass then .ok detail else .error detail, s)

-- The names with the verdicts, as logged.
def Suite.verdicts (t : Suite State) : List (String × Bool) :=
  t.lines.map fun line => (line.1, line.2.isOk)

theorem Verdict.run {pass : Bool} (h : Verdict test t.system pass) (name : String) :
    ∃ t', run name test t = .ok t' ∧ t'.system = t.system ∧
      t'.verdicts = t.verdicts ++ [(name, pass)] ∧
      t'.tally.fail = t.tally.fail + (if pass then 0 else 1) := by
  obtain ⟨detail, htest⟩ := h
  cases pass with
  | true =>
      refine ⟨t.passed name detail t.system, run_passed htest, rfl, ?_, rfl⟩
      simp [Suite.verdicts, Suite.passed, Except.isOk, Except.toBool]
  | false =>
      refine ⟨t.failed name detail t.system, run_failed htest, rfl, ?_, rfl⟩
      simp [Suite.verdicts, Suite.failed, Except.isOk, Except.toBool]

theorem flag_test_verdict {address pa f : Nat} {unmapped : String}
    {complaint : VirtAddr → Nat → Option String} {report : VirtAddr → Nat → String}
    (hva : VirtAddr.new address = .ok va) (h : translate s va = .ok (some (pa, f))) :
    Verdict (flag_test address unmapped complaint report) s (complaint va f).isNone := by
  unfold Verdict flag_test
  rw [hva, ok_bind, h, ok_bind]
  cases hc : complaint va f with
  | none =>
      refine ⟨report va f, ?_⟩
      simp only [hc]
      rfl
  | some message =>
      refine ⟨message, ?_⟩
      simp only [hc]
      rfl

theorem findSomeM_none {α : Type} {f : α → Except Panic (Option String)} {l : List α}
    (h : ∀ a ∈ l, f a = .ok none) : l.findSomeM? f = .ok none := by
  induction l with
  | nil => rfl
  | cons a l ih =>
      rw [List.findSomeM?, h a List.mem_cons_self, ok_bind]
      exact ih fun b hb => h b (List.mem_cons_of_mem a hb)

end Verdict

section Prepared

variable {L : Boot.Layout} {s : State} {nx : Bool}

-- The tables as the tests find them: the kernel half as documented, the boot map with or
-- without the NX bit, nothing else, and an audit that complains when the bit is missing.
structure Prepared (L : Boot.Layout) (nx : Bool) (s : State) : Prop where
  available : s.nx_available = true
  kernel : ∀ va : VirtAddr, 256 ≤ (indices va).pml4 →
    translate s va = .ok (documented L.symbols s va.as_u64)
  boot : ∀ va : VirtAddr, va.as_u64 < BOOT_MAPPED_BYTES →
    ∃ e, translate s va = .ok (some (va.as_u64, e)) ∧ (e &&& flags.NO_EXECUTE != 0) = nx ∧
      (e &&& flags.USER != 0) = false
  rest : ∀ va : VirtAddr, (indices va).pml4 < 256 → (indices va).pml4 ≠ 0 →
    translate s va = .ok none
  audit : ∃ v, count_wx_violations s = .ok v ∧ (v = 0 ↔ nx = true)

theorem documented_congr {s' : State} (h : s'.nx_available = s.nx_available) (sym : Boot.Symbols)
    (va : Nat) : documented sym s' va = documented sym s va := by
  simp only [documented, effective_congr h]

theorem pml4_boot {va : VirtAddr} (hva : va.as_u64 < BOOT_MAPPED_BYTES) :
    (indices va).pml4 = 0 ∧ va.as_u64 < 2 * 2 ^ 30 := by
  rw [BOOT_MAPPED_BYTES_eq] at hva
  simp only [indices, index_eq]
  omega

-- What the boot map looks like when its page `n` has the entry `entry n`.
theorem translate_boot {bss : Nat} {entry : Nat → Nat} (h : Tree s) (low : Low bss entry s)
    (haddr : ∀ n, n < 1024 → entry_addr (entry n) = n * 2 ^ 21) {va : VirtAddr}
    (hva : va.as_u64 < BOOT_MAPPED_BYTES) :
    translate s va = .ok (some (va.as_u64, entry (va.as_u64 / 2 ^ 21))) := by
  obtain ⟨h4, hlt⟩ := pml4_boot hva
  rw [translate_eq h, low.mapping_eq haddr h4, if_pos hlt]

theorem prepared_hardened {mem : Theory.Radix.Mem Nat Nat Nat} {supply : List Nat} {info : VmmInfo}
    (hfresh : Fresh L supply) (hinit : init (booted L mem supply true) L.symbols = .ok (info, s)) :
    ∃ n s', harden_boot_map s = .ok (n, s') ∧ Prepared L true s' := by
  obtain ⟨htree, hcr3, hlow, hrest⟩ := init_low hfresh hinit
  have hnx : s.nx_available = true := by
    obtain ⟨c, rest, rfl, -, hbuilt⟩ := init_built hfresh hinit
    exact hbuilt.nx
  have hf := effective_present s .BootIdentity
  have hf0 := effective_addr s .BootIdentity
  have htree' := hardening_tree htree hlow hf
  refine ⟨_, _, harden_boot_map_eq htree hlow hcr3, hnx, fun va hva => ?_, fun va hva => ?_,
    fun va h1 h2 => ?_, 0, ?_, iff_of_true rfl rfl⟩
  · rw [translate_eq htree', mapping, hardening_find htree hlow (by omega), ← mapping,
      ← translate_eq htree, translate_kernel_half hfresh hinit hva]
    exact congrArg Except.ok (documented_congr rfl _ _).symm
  · have htranslate := translate_boot htree' (hardening_low hlow hf)
      (fun n hn => by rw [hardened_addr hf0, boot_entry_addr hn]) hva
    obtain ⟨-, hx, -, huser⟩ := boot_identity_flags (e := 0x83 + va.as_u64 / 2 ^ 21 * 0x200000) hnx
    exact ⟨_, htranslate, bne_iff_ne.mpr hx, bne_eq_false_iff_eq.mpr huser⟩
  · rw [translate_eq htree', mapping, hardening_find htree hlow h2, hrest va h1 h2]
    rfl
  · exact (hardened_guarded hfresh hinit).count_wx_violations

theorem boot_entry_testBit {n k : Nat} (hn : n < 1024) (hk : k < 12 ∨ k = 63) :
    (0x83 + n * 0x200000).testBit k = (0x83 : Nat).testBit k := by
  have hclear : (n * 0x200000).testBit k = false := by
    rcases hk with hk | rfl
    · exact page_testBit (by omega) hk
    · exact Nat.testBit_lt_two_pow (by omega)
  rw [boot_entry, Nat.testBit_or, hclear, Bool.false_or]

theorem prepared_untouched {mem : Theory.Radix.Mem Nat Nat Nat} {supply : List Nat} {info : VmmInfo}
    (hfresh : Fresh L supply) (hinit : init (booted L mem supply true) L.symbols = .ok (info, s)) :
    Prepared L false s := by
  obtain ⟨htree, hcr3, hlow, hrest⟩ := init_low hfresh hinit
  have hnx : s.nx_available = true := by
    obtain ⟨c, rest, rfl, -, hbuilt⟩ := init_built hfresh hinit
    exact hbuilt.nx
  have hboot : ∀ va : VirtAddr, va.as_u64 < BOOT_MAPPED_BYTES →
      ∃ e, translate s va = .ok (some (va.as_u64, e)) ∧ e.testBit 1 = true ∧ e.testBit 2 = false ∧
        e.testBit 63 = false := by
    intro va hva
    have hn : va.as_u64 / 2 ^ 21 < 1024 := by
      have := (pml4_boot hva).2
      omega
    refine ⟨_, translate_boot htree hlow (fun n hn => boot_entry_addr hn) hva, ?_, ?_, ?_⟩
    · rw [boot_entry_testBit hn (by decide)]
      rfl
    · rw [boot_entry_testBit hn (by decide)]
      rfl
    · rw [boot_entry_testBit hn (by decide)]
      rfl
  refine ⟨hnx, fun va hva => translate_kernel_half hfresh hinit hva, fun va hva => ?_,
    fun va h1 h2 => ?_, _, count_wx_violations_eq htree.wellFormed, iff_of_false (fun hzero => ?_) nofun⟩
  · obtain ⟨e, htranslate, -, huser, hx⟩ := hboot va hva
    exact ⟨e, htranslate, (and_two_pow_ne e 63).trans hx, (and_two_pow_ne e 2).trans huser⟩
  · rw [translate_eq htree, mapping, hrest va h1 h2]
    rfl
  · -- the page at 2 MiB is writable and executable
    obtain ⟨e, htranslate, hw, -, hx⟩ := hboot ⟨0x200000, .inl (by decide)⟩ (by decide)
    rw [translate_eq htree] at htranslate
    obtain ⟨r, hfind, -⟩ := find_of_mapping (Except.ok.inj htranslate)
    have hclean := (violations_eq_zero_iff s).mp hzero _ e r (by rw [htree.found_eq, hfind])
    rw [is_wx_eq, hw, hx, hnx] at hclean
    cases hclean

theorem prepared_of_init {mem : Theory.Radix.Mem Nat Nat Nat} {supply : List Nat} {info : VmmInfo}
    (hfresh : Fresh L supply) (hinit : init (booted L mem supply true) L.symbols = .ok (info, s))
    (nx : Bool) : ∃ s', harden_unless_off nx s = .ok s' ∧ Prepared L nx s' := by
  cases nx with
  | true =>
      obtain ⟨n, s', hharden, h⟩ := prepared_hardened hfresh hinit
      refine ⟨s', ?_, h⟩
      rw [harden_unless_off, if_pos rfl, hharden, ok_bind]
      rfl
  | false => exact ⟨s, rfl, prepared_untouched hfresh hinit⟩

-- An address of the kernel image, with the permissions of its section.
structure Placed (L : Boot.Layout) (s : State) (va : Nat) (perm : Perm) : Prop where
  high : KERNEL_VMA ≤ va
  fits : va < WORD
  documented : documented L.symbols s va =
    some (va - KERNEL_VMA, (va - KERNEL_VMA) / 4096 * 4096 ||| effective s perm)

theorem Placed.canonical {va : Nat} {perm : Perm} (h : Placed L s va perm) : Canonical va := by
  have h1 := h.high
  have h2 := h.fits
  rw [KERNEL_VMA_eq] at h1
  rw [WORD_eq] at h2
  exact .inr ⟨by omega, h2⟩

theorem Placed.translate {va : Nat} {perm : Perm} (h : Placed L s va perm) (hp : Prepared L nx s) :
    ∃ v, VirtAddr.new va = .ok v ∧ v.as_u64 = va ∧ translate s v =
      .ok (some (va - KERNEL_VMA, (va - KERNEL_VMA) / 4096 * 4096 ||| effective s perm)) := by
  refine ⟨⟨va, h.canonical⟩, VirtAddr.new_of_canonical h.canonical, rfl, ?_⟩
  rw [hp.kernel _ ?_]
  · exact congrArg Except.ok h.documented
  · have h1 := h.high
    have h2 := h.fits
    rw [KERNEL_VMA_eq] at h1
    rw [WORD_eq] at h2
    simp only [indices, index_eq]
    omega

theorem virt_to_phys_high {v : VirtAddr} (h : KERNEL_VMA ≤ v.as_u64) :
    ∃ pa, virt_to_phys v = .ok (some pa) ∧ pa.as_u64 = v.as_u64 - KERNEL_VMA := by
  have hlt : v.as_u64 < WORD := by
    have hcan := v.canonical
    unfold Canonical at hcan
    rw [WORD_eq]
    omega
  have hmod : (v.as_u64 + WORD - KERNEL_VMA) % WORD = v.as_u64 - KERNEL_VMA := by
    rw [WORD_eq] at hlt ⊢
    rw [KERNEL_VMA_eq] at h ⊢
    omega
  have hsmall : v.as_u64 - KERNEL_VMA < 0x10000000000000 := by
    rw [WORD_eq] at hlt
    rw [KERNEL_VMA_eq] at h ⊢
    omega
  refine ⟨⟨v.as_u64 - KERNEL_VMA, hsmall⟩, ?_, rfl⟩
  rw [virt_to_phys, if_neg (show ¬ v.as_u64 < KERNEL_SPACE_START from Nat.not_lt.mpr h), hmod, PhysAddr.new_of_lt hsmall]
  rfl

theorem Placed.not_misplaced {va : Nat} {perm : Perm} (h : Placed L s va perm)
    (hp : Prepared L nx s) (label : String) : misplaced s label va = .ok none := by
  obtain ⟨v, hv, hva, htranslate⟩ := h.translate hp
  obtain ⟨pa, hpa, hphys⟩ := virt_to_phys_high (v := v) (hva ▸ h.high)
  rw [misplaced, hv, ok_bind, htranslate, ok_bind]
  dsimp only
  rw [hpa, ok_bind]
  dsimp only
  rw [if_neg (by rw [hphys, hva]; exact fun hne => hne rfl)]
  rfl

-- The four sections, none of which is empty.
structure Filled (L : Boot.Layout) : Prop where
  text : 0 < L.text.size
  rodata : 0 < L.rodata.size
  bss : 0 < L.bss.size

theorem placed_sections (L : Boot.Layout) (hL : Filled L) (s : State) :
    Placed L s L.symbols.kernel_text_start .TextRoX ∧
      Placed L s L.symbols.kernel_rodata_start .RoData ∧
      Placed L s L.symbols.kernel_data_start .DataRwNx ∧
      Placed L s L.symbols.kernel_bss_start .DataRwNx := by
  have b := sections L
  have h1 : L.symbols.kernel_text_start < L.symbols.kernel_rodata_start :=
    Nat.lt_of_lt_of_le (Nat.lt_add_of_pos_right hL.text) b.text_le
  have h2 : L.symbols.kernel_rodata_start < L.symbols.kernel_data_start :=
    Nat.lt_of_lt_of_le (Nat.lt_add_of_pos_right hL.rodata) b.rodata_le
  have h3 := b.data_lt
  have h4 : L.symbols.kernel_bss_start < L.image_end :=
    Nat.lt_of_lt_of_le (Nat.lt_add_of_pos_right hL.bss) b.bss_le
  have h5 : L.image_end < WORD := by
    have o := L.order
    have h6 := o.heap
    have h7 := o.last
    rw [WORD_eq]
    rw [KERNEL_VMA_eq] at h6
    rw [BOOT_MAPPED_BYTES_eq] at h7
    have hsize : 0 < HEAP_SIZE := by decide
    omega
  have hfirst := b.first
  have himage : L.image_end = Boot.ALIGN L.symbols.kernel_virt_end LARGE_PAGE_SIZE := rfl
  refine ⟨⟨by omega, by omega, ?_⟩, ⟨by omega, by omega, ?_⟩, ⟨by omega, by omega, ?_⟩,
    ⟨by omega, by omega, ?_⟩⟩
  · rw [Memory.Vmm.documented, if_pos (by omega)]
  · rw [Memory.Vmm.documented, if_neg (by omega), if_pos (by omega)]
  · exact documented_data b (Nat.le_refl _) (by omega)
  · exact documented_data b (by omega) (by omega)

end Prepared

section Outcome

variable {L : Boot.Layout} {s : State} {nx : Bool}

-- Outside the address field the bits of an entry are those of the permissions.
theorem placed_testBit {va k : Nat} {perm : Perm} (h : Placed L s va perm) (hk : k < 12 ∨ k = 63) :
    ((va - KERNEL_VMA) / 4096 * 4096 ||| effective s perm).testBit k =
      (effective s perm).testBit k := by
  have hpage : (va - KERNEL_VMA) / 4096 * 4096 % 4096 = 0 := Nat.mul_mod_left _ _
  have hlt : (va - KERNEL_VMA) / 4096 * 4096 < 2 ^ 63 := by
    have := h.fits
    rw [WORD_eq] at this
    rw [KERNEL_VMA_eq]
    omega
  have hclear : ((va - KERNEL_VMA) / 4096 * 4096).testBit k = false := by
    rcases hk with hk | rfl
    · exact page_testBit hpage hk
    · exact Nat.testBit_lt_two_pow hlt
  rw [Nat.testBit_or, hclear, Bool.false_or]

theorem effective_bits (h : s.nx_available = true) :
    (effective s .TextRoX).testBit 1 = false ∧ (effective s .TextRoX).testBit 63 = false ∧
      (effective s .RoData).testBit 1 = false := by
  unfold effective
  rw [h]
  decide

theorem Prepared.guard (h : Prepared L nx s) {a : Nat} (hcan : Canonical a) (hbeside : BesideHeap a) :
    ∃ v, VirtAddr.new a = .ok v ∧ translate s v = .ok none := by
  refine ⟨⟨a, hcan⟩, VirtAddr.new_of_canonical hcan, ?_⟩
  rw [h.kernel _ (beside_heap_high (v := ⟨a, hcan⟩) hbeside)]
  exact congrArg Except.ok (documented_beside_heap (sections L) hbeside)

theorem heap_guarded_verdict (h : Prepared L nx s) : Verdict test_heap_guarded s true := by
  have hlow : sub HEAP_VIRT_START PAGE_SIZE = .ok (HEAP_VIRT_START - PAGE_SIZE) :=
    sub_of_le (by rw [HEAP_VIRT_START_eq]; decide)
  have hhigh : add HEAP_VIRT_START HEAP_SIZE = .ok (HEAP_VIRT_START + HEAP_SIZE) :=
    add_of_lt (by rw [HEAP_VIRT_START_eq, WORD_eq]; decide)
  obtain ⟨v, hv, hguard⟩ := h.guard (a := HEAP_VIRT_START - PAGE_SIZE)
    (by rw [HEAP_VIRT_START_eq]; decide) (.inl (by rw [HEAP_VIRT_START_eq]; decide))
  obtain ⟨v', hv', hguard'⟩ := h.guard (a := HEAP_VIRT_START + HEAP_SIZE)
    (by rw [HEAP_VIRT_START_eq]; decide) (.inr (by rw [HEAP_VIRT_START_eq]; decide))
  unfold Verdict test_heap_guarded
  rw [hlow, ok_bind, hv, ok_bind, hguard, ok_bind, if_neg (by decide), hhigh, ok_bind, hv', ok_bind,
    hguard', ok_bind, if_neg (by decide)]
  exact ⟨_, rfl⟩

theorem vmm_translation_verdict (hL : Filled L) (h : Prepared L nx s) :
    Verdict (test_vmm_translation L.symbols) s true := by
  obtain ⟨htext, hrodata, hdata, hbss⟩ := placed_sections L hL s
  have hnone : ∀ x ∈ labelled L.symbols, misplaced s x.1 x.2 = .ok none := by
    intro x hx
    simp only [labelled, List.mem_cons, List.not_mem_nil, or_false] at hx
    rcases hx with rfl | rfl | rfl | rfl
    · exact htext.not_misplaced h _
    · exact hrodata.not_misplaced h _
    · exact hdata.not_misplaced h _
    · exact hbss.not_misplaced h _
  unfold Verdict test_vmm_translation
  rw [findSomeM_none hnone, ok_bind]
  exact ⟨_, rfl⟩

theorem wx_policy_verdict (h : Prepared L nx s) : Verdict test_wx_policy s nx := by
  obtain ⟨v, hcount, hv⟩ := h.audit
  unfold Verdict test_wx_policy
  rw [hcount, ok_bind, h.available]
  cases nx with
  | true =>
      rw [if_neg fun hne => hne (hv.mpr rfl)]
      exact ⟨_, rfl⟩
  | false =>
      rw [if_pos fun hzero => Bool.false_ne_true (hv.mp hzero)]
      exact ⟨_, rfl⟩

theorem text_not_writable_verdict (hL : Filled L) (h : Prepared L nx s) :
    Verdict (test_text_not_writable L.symbols) s true := by
  obtain ⟨hplaced, -⟩ := placed_sections L hL s
  obtain ⟨v, hv, -, htranslate⟩ := hplaced.translate h
  obtain ⟨hw, hx, -⟩ := effective_bits h.available
  rw [← placed_testBit hplaced (by decide), ← and_two_pow_ne] at hw hx
  have hfine : ∀ f, (f &&& flags.WRITABLE != 0) = false → (f &&& flags.NO_EXECUTE != 0) = false →
      (text_complaint v f).isNone = true := by
    intro f h1 h2
    rw [text_complaint, if_neg (Bool.eq_false_iff.mp h1), if_neg (Bool.eq_false_iff.mp h2)]
    rfl
  rw [← hfine _ hw hx]
  exact flag_test_verdict hv htranslate

theorem rodata_not_writable_verdict (hL : Filled L) (h : Prepared L nx s) :
    Verdict (test_rodata_not_writable L.symbols) s true := by
  obtain ⟨-, hplaced, -⟩ := placed_sections L hL s
  obtain ⟨v, hv, -, htranslate⟩ := hplaced.translate h
  obtain ⟨-, -, hw⟩ := effective_bits h.available
  rw [← placed_testBit hplaced (by decide), ← and_two_pow_ne] at hw
  have hfine : ∀ f, (f &&& flags.WRITABLE != 0) = false → (rodata_complaint v f).isNone = true := by
    intro f h1
    rw [rodata_complaint, if_neg (Bool.eq_false_iff.mp h1)]
    rfl
  rw [← hfine _ hw]
  exact flag_test_verdict hv htranslate

theorem boot_map_nx_verdict (h : Prepared L nx s) : Verdict test_boot_map_nx s nx := by
  obtain ⟨f, htranslate, hx, -⟩ := h.boot ⟨0x200000, .inl (by decide)⟩ (by decide)
  have hsame : ∀ v, (nx_complaint v f).isNone = nx := by
    intro v
    rw [← hx, nx_complaint]
    cases hz : f &&& flags.NO_EXECUTE == 0 with
    | true => simp [bne, hz]
    | false => simp [bne, hz]
  rw [← hsame ⟨0x200000, .inl (by decide)⟩]
  exact flag_test_verdict (VirtAddr.new_of_canonical (.inl (by decide))) htranslate

theorem boot_map_not_user_verdict (h : Prepared L nx s) : Verdict test_boot_map_not_user s true := by
  obtain ⟨f, htranslate, -, huser⟩ := h.boot ⟨0x200000, .inl (by decide)⟩ (by decide)
  have hfine : ∀ v, (user_complaint v f).isNone = true := by
    intro v
    rw [user_complaint, if_neg (Bool.eq_false_iff.mp huser)]
    rfl
  rw [← hfine ⟨0x200000, .inl (by decide)⟩]
  exact flag_test_verdict (VirtAddr.new_of_canonical (.inl (by decide))) htranslate

theorem user_half_unmapped_verdict (h : Prepared L nx s) :
    Verdict test_user_half_unmapped s true := by
  have hlow : ∀ p, p < BOOT_MAPPED_BYTES → user_accessible s p = .ok none := by
    intro p hp
    have hcan : Canonical p := .inl (Nat.lt_trans hp (by decide))
    obtain ⟨e, htranslate, -, hclear⟩ := h.boot ⟨p, hcan⟩ hp
    rw [user_accessible, VirtAddr.new_of_canonical hcan, ok_bind, htranslate, ok_bind]
    dsimp only
    rw [if_neg (Bool.eq_false_iff.mp hclear)]
    rfl
  have hhigh : user_accessible s 0x7FFFFFFFF000 = .ok none := by
    have hcan : Canonical 0x7FFFFFFFF000 := .inl (by decide)
    have hnone := h.rest ⟨0x7FFFFFFFF000, .inl (by decide)⟩ (by decide) (by decide)
    rw [user_accessible, VirtAddr.new_of_canonical hcan, ok_bind, hnone, ok_bind]
    rfl
  have hnone : ∀ p ∈ [0x1000, 0x40000000, 0x7FFFFFFFF000], user_accessible s p = .ok none := by
    intro p hp
    simp only [List.mem_cons, List.not_mem_nil, or_false] at hp
    rcases hp with rfl | rfl | rfl
    · exact hlow _ (by decide)
    · exact hlow _ (by decide)
    · exact hhigh
  unfold Verdict test_user_half_unmapped
  rw [findSomeM_none hnone, ok_bind]
  exact ⟨_, rfl⟩

-- The page-table tests on every image and every supply of frames: with the boot map
-- hardened they all pass, and under `orin.nx=off` exactly the two that ask for NX fail,
-- which stops the boot.
theorem table_tests_outcome (L : Boot.Layout) (mem : Theory.Radix.Mem Nat Nat Nat)
    (supply : List Nat) (hfresh : Fresh L supply) (hL : Filled L) (info : VmmInfo) (s : State)
    (hinit : init (booted L mem supply true) L.symbols = .ok (info, s)) (nx : Bool) :
    ∃ s', harden_unless_off nx s = .ok s' ∧
      ∀ t : Suite State, t.system = s' →
        ∃ t', table_tests L.symbols t = .ok t' ∧ t'.system = s' ∧
          t'.tally.fail = t.tally.fail + (if nx then 0 else 2) ∧
          (nx = false → stop_on_failure t' = .error (.explicit "boot self-test failed")) ∧
          t'.verdicts = t.verdicts ++
            [("heap_guarded", true), ("vmm_translation_matches", true), ("wx_policy", nx),
              ("text_not_writable", true), ("rodata_not_writable", true), ("boot_map_nx", nx),
              ("boot_map_not_user", true), ("user_half_unmapped", true)] := by
  obtain ⟨s', hharden, h⟩ := prepared_of_init hfresh hinit nx
  refine ⟨s', hharden, ?_⟩
  rintro t rfl
  obtain ⟨t₁, h₁, hs₁, hv₁, hf₁⟩ := (heap_guarded_verdict h).run "heap_guarded"
  rw [← hs₁] at h
  obtain ⟨t₂, h₂, hs₂, hv₂, hf₂⟩ := (vmm_translation_verdict hL h).run "vmm_translation_matches"
  rw [← hs₂] at h
  obtain ⟨t₃, h₃, hs₃, hv₃, hf₃⟩ := (wx_policy_verdict h).run "wx_policy"
  rw [← hs₃] at h
  obtain ⟨t₄, h₄, hs₄, hv₄, hf₄⟩ := (text_not_writable_verdict hL h).run "text_not_writable"
  rw [← hs₄] at h
  obtain ⟨t₅, h₅, hs₅, hv₅, hf₅⟩ := (rodata_not_writable_verdict hL h).run "rodata_not_writable"
  rw [← hs₅] at h
  obtain ⟨t₆, h₆, hs₆, hv₆, hf₆⟩ := (boot_map_nx_verdict h).run "boot_map_nx"
  rw [← hs₆] at h
  obtain ⟨t₇, h₇, hs₇, hv₇, hf₇⟩ := (boot_map_not_user_verdict h).run "boot_map_not_user"
  rw [← hs₇] at h
  obtain ⟨t₈, h₈, hs₈, hv₈, hf₈⟩ := (user_half_unmapped_verdict h).run "user_half_unmapped"
  have hfail : t₈.tally.fail = t.tally.fail + (if nx then 0 else 2) := by
    rw [hf₈, hf₇, hf₆, hf₅, hf₄, hf₃, hf₂, hf₁]
    cases nx <;> rfl
  refine ⟨t₈, ?_, ?_, hfail, fun hnx => ?_, ?_⟩
  · rw [table_tests, h₁, ok_bind, h₂, ok_bind, h₃, ok_bind, h₄, ok_bind, h₅, ok_bind, h₆, ok_bind,
      h₇, ok_bind, h₈]
  · rw [hs₈, hs₇, hs₆, hs₅, hs₄, hs₃, hs₂, hs₁]
  · rw [stop_on_failure, if_pos]
    rw [hfail, hnx]
    exact Nat.lt_add_left _ (by decide)
  · rw [hv₈, hv₇, hv₆, hv₅, hv₄, hv₃, hv₂, hv₁]
    simp only [List.append_assoc, List.cons_append, List.nil_append]

-- The small image under `orin.nx=off`: two failures.
theorem table_tests_nx_off :
    ∃ info s t', init small_boot small_layout.symbols = .ok (info, s) ∧
      harden_unless_off false s = .ok s ∧
      table_tests small_layout.symbols ⟨⟨0, 0, 0⟩, [], s⟩ = .ok t' ∧ t'.tally.fail = 2 ∧
      stop_on_failure t' = .error (.explicit "boot self-test failed") := by
  obtain ⟨info, s, hinit⟩ := small_returns
  obtain ⟨s', hharden, hall⟩ := table_tests_outcome small_layout _ small_supply small_fresh
    ⟨by decide, by decide, by decide⟩ info s hinit false
  obtain rfl : s = s' := Except.ok.inj hharden
  obtain ⟨t', htests, -, hfail, hstop, -⟩ := hall ⟨⟨0, 0, 0⟩, [], s⟩ rfl
  exact ⟨info, s, t', hinit, hharden, htests, hfail, hstop rfl⟩

end Outcome

end Orin.Selftest
