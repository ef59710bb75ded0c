import Orin.Boot.Stub
import Orin.Memory.Vmm.Theorems
import Orin.Selftest

namespace Orin.Cpu

open Rust Arch Boot Selftest

section Detection

-- Two processors that answer alike on the leaves they have.
structure Agree (c c' : Cpuid) : Prop where
  basic : ∀ leaf, leaf ≤ (c 0 0).eax → c leaf 0 = c' leaf 0
  extended : ∀ leaf, 0x80000000 ≤ leaf → leaf = 0x80000000 ∨ leaf ≤ (c 0x80000000 0).eax →
    c leaf 0 = c' leaf 0
  hypervisor : (detect c).hypervisor_present = true → c 0x40000000 0 = c' 0x40000000 0

theorem leaf_if_congr {max leaf : UInt32} {r r' : CpuidResult} (h : leaf ≤ max → r = r') :
    leaf_if (leaf ≤ max) r = leaf_if (leaf ≤ max) r' := by
  unfold leaf_if
  split
  · rename_i hle
    rw [h (of_decide_eq_true hle)]
  · rfl

theorem brand_text_congr {c c' : Cpuid} {max : UInt32}
    (h : ∀ leaf, 0x80000000 ≤ leaf → leaf ≤ max → c leaf 0 = c' leaf 0) :
    brand_text c max = brand_text c' max := by
  unfold brand_text
  split
  · rename_i hmax
    have hleaf : ∀ leaf, 0x80000000 ≤ leaf → leaf ≤ 0x80000004 → c leaf 0 = c' leaf 0 :=
      fun leaf hge hle => h leaf hge (UInt32.le_trans hle hmax)
    simp only [List.flatMap_cons, List.flatMap_nil, hleaf 0x80000002 (by decide) (by decide),
      hleaf 0x80000003 (by decide) (by decide), hleaf 0x80000004 (by decide) (by decide)]
  · rfl

-- Nothing in the feature record comes from a leaf the processor does not claim to have.
theorem detect_congr (c c' : Cpuid) (h : Agree c c') : detect c = detect c' := by
  have h0 : c 0 0 = c' 0 0 := h.basic 0 UInt32.zero_le
  have hx : c 0x80000000 0 = c' 0x80000000 0 := h.extended _ (by decide) (.inl rfl)
  have h1 := leaf_if_congr (h.basic 1)
  have h7 := leaf_if_congr (h.basic 7)
  have h15 := leaf_if_congr (h.basic 0x15)
  have hx1 := leaf_if_congr fun hle => h.extended 0x80000001 (by decide) (.inr hle)
  have hx7 := leaf_if_congr fun hle => h.extended 0x80000007 (by decide) (.inr hle)
  have hbrand := brand_text_congr fun leaf hge hle => h.extended leaf hge (.inr hle)
  have hhypervisor := h.hypervisor
  rw [h0] at h1 h7 h15
  rw [hx] at hx1 hx7 hbrand
  simp only [detect, h0, h1] at hhypervisor
  simp only [detect, h0, hx, h1, h7, h15, hx1, hx7, hbrand]
  congr 1
  split
  · rename_i hpresent
    rw [hhypervisor hpresent]
  · rfl

-- A processor without leaf 7, asked for it anyway, and one that answers differently there.
theorem detect_congr_leaf_7 :
    ∃ c c' : Cpuid, c 7 0 ≠ c' 7 0 ∧ (detect c').smep = false ∧ detect c = detect c' := by
  have hagree : Agree (fun _ _ => .default) fun leaf _ => if leaf = 7 then ⟨0, 0xFFFFFFFF, 0, 0⟩
      else .default := by
    refine ⟨fun leaf hle => ?_, fun leaf hge _ => ?_, fun h => absurd h (by decide)⟩
    · have hne : leaf ≠ 7 := by
        rintro rfl
        exact absurd hle (by decide)
      exact (if_neg hne).symm
    · have hne : leaf ≠ 7 := by
        rintro rfl
        exact absurd hge (by decide)
      exact (if_neg hne).symm
  exact ⟨_, _, by decide, by decide, detect_congr _ _ hagree⟩

end Detection

-- `CpuRegs::current()` and the check of its control registers.
def test_control_registers (f : CpuFeatures) : Test Registers := fun r =>
  let problems := (control_register_problems f r).filter (· ≠ "")
  if problems ≠ [] then
    .ok (.error (toString problems.length ++ " control-register problem(s): " ++
      " | ".intercalate problems), r)
  else
    .ok (.ok ("CR0.WP/PG, EFER.LMA/NXE set; SMEP=" ++ (if f.smep then "on" else "n/a (CPUID)") ++
      " SMAP=" ++ (if f.smap then "on" else "n/a (CPUID)") ++ " (cr0=" ++ hex r.cr0 ++ " cr4=" ++
      hex r.cr4 ++ " efer=" ++ hex r.efer ++ ")"), r)

section BringUp

variable {f : CpuFeatures} {r : Registers}

theorem contains_two_pow (x k : Nat) : contains x (2 ^ k) = x.testBit k := by
  rw [contains, Nat.and_two_pow]
  cases x.testBit k with
  | true => simp
  | false => simpa using (Nat.two_pow_pos k).ne

-- Bits are only ever added.
theorem testBit_or_left {x : Nat} {k : Nat} (y : Nat) (h : x.testBit k = true) :
    (x ||| y).testBit k = true := by
  rw [Nat.testBit_or, h, Bool.true_or]

theorem testBit_or_right {y : Nat} {k : Nat} (x : Nat) (h : y.testBit k = true) :
    (x ||| y).testBit k = true := by
  rw [Nat.testBit_or, h, Bool.or_true]

-- Long mode with write protection, on tables at a page address.
structure LongMode (r : Registers) : Prop where
  pg : r.cr0.testBit 31 = true
  wp : r.cr0.testBit 16 = true
  pe : r.cr0.testBit 0 = true
  pae : r.cr4.testBit 5 = true
  lme : r.efer.testBit 8 = true
  lma : r.efer.testBit 10 = true
  root : table_frame r.cr3 ≠ 0

theorem enter_long_mode_longMode (L : Layout) (h : r.cr0.testBit 0 = true) :
    LongMode (enter_long_mode L r) := by
  have hlme : contains (r.efer ||| efer.LME) efer.LME = true :=
    (contains_two_pow _ 8).trans (testBit_or_right _ rfl)
  have hpg : contains (r.cr0 % 2 ^ 32 ||| (cr0.PAGING ||| cr0.WRITE_PROTECT)) cr0.PAGING = true :=
    (contains_two_pow _ 31).trans (testBit_or_right _ rfl)
  have hefer : (enter_long_mode L r).efer = r.efer ||| efer.LME ||| efer.LMA := by
    simp only [enter_long_mode, write_cr0, hlme, hpg, Bool.and_self, if_true]
  have hlow : (r.cr0 % 2 ^ 32).testBit 0 = true := by
    rw [Nat.testBit_mod_two_pow, h]
    rfl
  refine ⟨testBit_or_right _ rfl, testBit_or_right _ rfl, testBit_or_left _ hlow,
    testBit_or_right _ rfl, ?_, ?_, ?_⟩
  · rw [hefer]
    exact testBit_or_left _ (testBit_or_right _ rfl)
  · rw [hefer]
    exact testBit_or_right _ rfl
  · -- the section starts on a page below 2 GiB
    have haligned := L.boot_bss_aligned
    have hstart := L.boot_bss_after_start
    have hend := L.kernel_stack_top_lt
    have hframe : table_frame L.boot_bss_phys_start = L.boot_bss_phys_start := by
      refine Memory.Vmm.entry_addr_of_page ?_ ?_
      · unfold LARGE_PAGE_SIZE at haligned
        omega
      · rw [BOOT_MAPPED_BYTES_eq] at hend
        simp only [Layout.kernel_stack_top, Layout.kernel_stack_bottom_eq, Layout.boot_stack_top,
          Layout.boot_stack_bottom] at hend
        omega
    show table_frame L.boot_bss_phys_start ≠ 0
    rw [hframe]
    unfold image_phys_start at hstart
    omega

theorem LongMode.no_errors (h : LongMode r) : long_mode_errors r = [] := by
  have hcheck : ∀ k x, x.testBit k = true → contains x (2 ^ k) = true :=
    fun k x hx => (contains_two_pow x k).trans hx
  have hpage : ¬ table_frame r.cr3 % 4096 ≠ 0 := fun hne => hne (Memory.Vmm.entry_addr_mod r.cr3)
  have h1 : contains r.cr0 cr0.PAGING = true := hcheck 31 _ h.pg
  have h2 : contains r.cr0 cr0.WRITE_PROTECT = true := hcheck 16 _ h.wp
  have h3 : contains r.cr0 cr0.PROTECTED_MODE_ENABLE = true := hcheck 0 _ h.pe
  have h4 : contains r.cr4 cr4.PHYSICAL_ADDRESS_EXTENSION = true := hcheck 5 _ h.pae
  have h5 : contains r.efer efer.LME = true := hcheck 8 _ h.lme
  have h6 : contains r.efer efer.LMA = true := hcheck 10 _ h.lma
  simp only [long_mode_errors, h1, h2, h3, h4, h5, h6, h.root, hpage, if_true, if_false,
    List.append_nil]

theorem LongMode.enable_nx (h : LongMode r) : LongMode (enable_nx f r).2 := by
  unfold Cpu.enable_nx
  split
  · exact h
  · exact ⟨h.pg, h.wp, h.pe, h.pae, testBit_or_left _ h.lme, testBit_or_left _ h.lma, h.root⟩

theorem enable_nx_on (hnx : f.nx = true) :
    (enable_nx f r).1 = true ∧ (enable_nx f r).2.efer.testBit 11 = true := by
  have hbit : (r.efer ||| efer.NXE).testBit 11 = true := testBit_or_right _ rfl
  rw [enable_nx, hnx]
  exact ⟨(contains_two_pow _ 11).trans hbit, hbit⟩

-- The registers with the protections the processor has.
def protected_registers (f : CpuFeatures) (r : Registers) : Registers :=
  { r with
    cr4 := r.cr4 ||| (if f.smep then cr4.SUPERVISOR_MODE_EXECUTION_PROTECTION else 0) |||
      (if f.smap then cr4.SUPERVISOR_MODE_ACCESS_PREVENTION else 0) }

theorem LongMode.verify (h : LongMode r) :
    verify_long_mode f r = .ok (protected_registers f r) := by
  rw [verify_long_mode, h.no_errors]
  cases hsmep : f.smep <;> cases hsmap : f.smap <;> simp [protected_registers, hsmep, hsmap] <;> rfl

-- What `cpuid::report` insists on.
def Required (f : CpuFeatures) : Prop := f.sse2 = true ∧ f.nx = true ∧ f.syscall = true

theorem report_ok_iff : report f = .ok () ↔ Required f := by
  unfold report Required assert
  cases f.sse2 <;> cases f.nx <;> cases f.syscall <;> simp [bind, Except.bind]

theorem complaints_nil (h : LongMode r) (hnx : r.efer.testBit 11 = true)
    (hsmep : f.smep = true → r.cr4.testBit 20 = true)
    (hsmap : f.smap = true → r.cr4.testBit 21 = true) : complaints f r = [] := by
  have hclear : ∀ x k : Nat, x.testBit k = true → (x &&& (1 <<< k) == 0) = false := by
    intro x k hx
    rw [Nat.one_shiftLeft, Nat.and_two_pow, hx]
    simp
  have hif : ∀ (b : Bool) (x k : Nat), (b = true → x.testBit k = true) →
      (b && x &&& (1 <<< k) == 0) = false := by
    intro b x k hb
    cases b with
    | false => rfl
    | true => exact hclear x k (hb rfl)
  simp only [complaints, hclear _ _ h.wp, hclear _ _ h.pg, hclear _ _ hnx, hclear _ _ h.lma,
    hif _ _ _ hsmep, hif _ _ _ hsmap]
  rfl

theorem test_control_registers_passes (h : complaints f r = []) :
    ∃ text, test_control_registers f r = .ok (.ok text, r) := by
  have hnone : (control_register_problems f r).filter (· ≠ "") = [] := by
    rw [control_register_problems, h]
    rfl
  exact ⟨_, if_neg fun hne => hne hnone⟩

-- What the loader and the processor must bring for Rust to be reached.
structure Bootable (m : Machine) : Prop where
  magic : m.eax = 0x36D76289
  info : m.ebx ≠ 0
  below : m.ebx < 0x80000000
  cpuid : ID_FLAG &&& m.writable ≠ 0
  long_mode : long_mode_leaf m = true
  gate : m.a20 = true

def handoff (L : Layout) (m : Machine) : Handoff where
  rdi := m.ebx.toNat
  rsi := L.boot_params.lma
  rsp := L.kernel_stack_top / 16 * 16 - 8
  regs := enter_long_mode L m.regs

theorem boot_start_iff (L : Layout) (m : Machine) (h : Handoff) :
    boot_start L m = .ok h ↔ Bootable m ∧ handoff L m = h := by
  unfold boot_start
  rw [id_toggles_eq, a20_open_eq]
  constructor
  · intro hb
    split_ifs at hb with h1 h2 h3 h4 h5 h6
    refine ⟨⟨?_, h2, ?_, ?_, ?_, ?_⟩, Except.ok.inj hb⟩
    · exact not_not.mp h1
    · exact UInt32.not_le.mp h3
    · simpa using h4
    · simpa using h5
    · simpa using h6
  · rintro ⟨hb, rfl⟩
    rw [if_neg (not_not.mpr hb.magic), if_neg hb.info, if_neg (UInt32.not_le.mpr hb.below),
      if_neg (by simpa using hb.cpuid), if_neg (by simpa using hb.long_mode),
      if_neg (by simpa using hb.gate)]
    rfl

theorem handoff_stack (L : Layout) (m : Machine) : (handoff L m).rsp % 16 = 8 ∧
    L.kernel_stack_bottom ≤ (handoff L m).rsp ∧ (handoff L m).rsp < L.kernel_stack_top := by
  show (L.kernel_stack_top / 16 * 16 - 8) % 16 = 8 ∧ _ ≤ L.kernel_stack_top / 16 * 16 - 8 ∧
    L.kernel_stack_top / 16 * 16 - 8 < _
  rw [Layout.kernel_stack_top]
  have hbottom : L.kernel_stack_bottom % 16 = 0 := by
    simp [Layout.kernel_stack_bottom, ALIGN]
  omega

-- From the loader's last instruction to the self-test. The stub lets exactly the bootable
-- machines through, with an aligned stack; then either a required feature is missing and
-- `cpuid::report` says so, or the registers end up as the control-register test wants them.
theorem bring_up (L : Layout) (m : Machine) (hpe : m.regs.cr0.testBit 0 = true) :
    ((∃ h, boot_start L m = .ok h) ↔ Bootable m) ∧
    ∀ h, boot_start L m = .ok h →
      (h.rsp % 16 = 8 ∧ L.kernel_stack_bottom ≤ h.rsp ∧ h.rsp < L.kernel_stack_top) ∧
      ((∃ result, cpu_steps (detect m.cpuid) h.regs = .ok result) ↔ Required (detect m.cpuid)) ∧
      ∀ nxe r, cpu_steps (detect m.cpuid) h.regs = .ok (nxe, r) →
        nxe = true ∧ long_mode_errors r = [] ∧
          ∃ text, test_control_registers (detect m.cpuid) r = .ok (.ok text, r) := by
  refine ⟨⟨?_, fun hb => ⟨_, (boot_start_iff L m _).mpr ⟨hb, rfl⟩⟩⟩, fun h hboot => ?_⟩
  · rintro ⟨h, hboot⟩
    exact ((boot_start_iff L m h).mp hboot).1
  obtain ⟨-, rfl⟩ := (boot_start_iff L m h).mp hboot
  generalize detect m.cpuid = f
  have hmode : LongMode (enable_nx f (handoff L m).regs).2 :=
    (enter_long_mode_longMode L hpe).enable_nx
  have hsteps : Required f → cpu_steps f (handoff L m).regs =
      .ok ((enable_nx f (handoff L m).regs).1,
        protected_registers f (enable_nx f (handoff L m).regs).2) := by
    intro hreq
    rw [cpu_steps, report_ok_iff.mpr hreq, ok_bind]
    dsimp only
    rw [hmode.verify, ok_bind]
    rfl
  have hreport : ∀ result, cpu_steps f (handoff L m).regs = .ok result → Required f := by
    intro result hok
    obtain ⟨⟨⟩, hr, -⟩ := bind_eq_ok.mp hok
    exact report_ok_iff.mp hr
  refine ⟨handoff_stack L m, ⟨fun ⟨result, hok⟩ => hreport result hok, fun hreq => ⟨_, hsteps hreq⟩⟩,
    fun nxe r hok => ?_⟩
  have hreq := hreport _ hok
  rw [hsteps hreq] at hok
  obtain ⟨rfl, rfl⟩ := Prod.mk.inj (Except.ok.inj hok)
  obtain ⟨hon, hbit⟩ := enable_nx_on (r := (handoff L m).regs) hreq.2.1
  have hkept : LongMode (protected_registers f (enable_nx f (handoff L m).regs).2) :=
    ⟨hmode.pg, hmode.wp, hmode.pe, testBit_or_left _ (testBit_or_left _ hmode.pae), hmode.lme,
      hmode.lma, hmode.root⟩
  refine ⟨hon, hkept.no_errors, test_control_registers_passes (complaints_nil hkept hbit ?_ ?_)⟩
  · intro hsmep
    refine testBit_or_left _ (testBit_or_right _ ?_)
    rw [hsmep]
    rfl
  · intro hsmap
    refine testBit_or_right _ ?_
    rw [hsmap]
    rfl

-- A machine with every feature there is.
def full_machine : Machine where
  eax := 0x36D76289
  ebx := 0x10000
  eflags := 2
  writable := 0xFFFFFFFF
  cpuid _ _ := ⟨0xFFFFFFFF, 0xFFFFFFFF, 0xFFFFFFFF, 0xFFFFFFFF⟩
  a20 := true
  words _ := 0
  regs := ⟨0x11, 0, 0, 0⟩

theorem bring_up_full :
    ∃ h r, boot_start Memory.Vmm.small_layout full_machine = .ok h ∧
      cpu_steps (detect full_machine.cpuid) h.regs = .ok (true, r) ∧
      ∃ text, test_control_registers (detect full_machine.cpuid) r = .ok (.ok text, r) := by
  obtain ⟨hiff, hall⟩ := bring_up Memory.Vmm.small_layout full_machine (by decide)
  obtain ⟨h, hboot⟩ := hiff.mpr ⟨rfl, by decide, by decide, by decide, by decide, rfl⟩
  obtain ⟨-, hsteps, hafter⟩ := hall h hboot
  obtain ⟨⟨nxe, r⟩, hok⟩ := hsteps.mpr ⟨by decide, by decide, by decide⟩
  obtain ⟨rfl, -, htest⟩ := hafter nxe r hok
  exact ⟨h, r, hboot, hok, htest⟩

end BringUp

end Orin.Cpu
