import Orin.Memory.Vmm.Theorems

namespace Orin.Interrupts.Idt

open Rust Arch Boot

-- `rsp + 0x1000 >= top.saturating_sub(0x100) && rsp < top`.
def near (rsp top : Nat) : Except Panic Bool := do
  let reach ← add rsp 0x1000
  return top - 0x100 ≤ reach && rsp < top

def is_probable_stack_overflow (L : Layout) (rsp : Nat) : Except Panic Bool := do
  let boot ← near rsp L.boot_stack_top_hi
  if boot then return true
  else do
    let kern ← near rsp L.kernel_stack_top_hi
    return kern || rsp < 0x1000

-- What the handler logs before it panics.
def on_double_fault (L : Layout) (rip rsp code : Nat) : Except Panic (List String) := do
  let overflow ← is_probable_stack_overflow L rsp
  return ["DOUBLE FAULT (#DF) at rip " ++ hex rip ++ ", error code " ++ hex code,
      "  rsp " ++ hex rsp] ++
    (if overflow then ["  -> rsp is at or below a stack guard boundary. This is almost certainly " ++
        "KERNEL STACK OVERFLOW: unbounded recursion or a large stack frame. " ++
        "Increase the stack or make the recursion explicit."] else []) ++
    ["  IST1 stack in use, so this report survived the broken stack."]

section Diagnosis

variable {L : Layout} {rip rsp code top : Nat}

-- The window below a top in which the heuristic sees an overflow.
def Near (rsp top : Nat) : Prop := top ≤ rsp + 0x1100 ∧ rsp < top

instance : Decidable (Near rsp top) := inferInstanceAs (Decidable (_ ∧ _))

theorem near_eq (h : rsp + 0x1000 < WORD) : near rsp top = .ok (decide (Near rsp top)) := by
  have hreach : top - 0x100 ≤ rsp + 0x1000 ↔ top ≤ rsp + 0x1100 := by omega
  rw [near, add_of_lt h, ok_bind, decide_eq_decide.mpr hreach, ← Bool.decide_and]
  rfl

-- The answer for every stack pointer: yes below the first page and in the two windows in
-- the kernel half, and an overflow check that fails on the last page of all.
theorem is_probable_stack_overflow_eq (L : Layout) (rsp : Nat) :
    is_probable_stack_overflow L rsp =
      if rsp + 0x1000 < WORD then
        .ok (decide (Near rsp L.boot_stack_top_hi) || (decide (Near rsp L.kernel_stack_top_hi) ||
          decide (rsp < 0x1000)))
      else .error .addOverflow := by
  unfold is_probable_stack_overflow
  by_cases hfits : rsp + 0x1000 < WORD
  · rw [if_pos hfits, near_eq hfits, ok_bind]
    cases decide (Near rsp L.boot_stack_top_hi) with
    | true => rw [if_pos rfl, Bool.true_or]; rfl
    | false =>
        rw [if_neg Bool.false_ne_true, near_eq hfits, ok_bind, Bool.false_or]
        rfl
  · rw [if_neg hfits, near, add_of_ge (Nat.le_of_not_lt hfits), error_bind, error_bind]

-- The stacks are used at their low addresses, where only the first page is taken for one.
theorem low_not_overflow (hlow : 0x1000 ≤ rsp) (hstack : rsp ≤ L.kernel_stack_top) :
    is_probable_stack_overflow L rsp = .ok false := by
  have htop := L.kernel_stack_top_lt
  rw [BOOT_MAPPED_BYTES_eq] at htop
  have hboot : ¬Near rsp L.boot_stack_top_hi := by
    rw [Near, Layout.boot_stack_top_hi, KERNEL_VMA_eq]
    omega
  have hkernel : ¬Near rsp L.kernel_stack_top_hi := by
    rw [Near, Layout.kernel_stack_top_hi, KERNEL_VMA_eq]
    omega
  rw [is_probable_stack_overflow_eq, if_pos (by rw [WORD_eq]; omega), decide_eq_false hboot,
    decide_eq_false hkernel, decide_eq_false (Nat.not_lt_of_le hlow)]
  rfl

-- At the bottom of one of the stacks or within a page below it.
def AtBottom (L : Layout) (rsp : Nat) : Prop :=
  (L.boot_stack_bottom ≤ rsp + PAGE_SIZE ∧ rsp ≤ L.boot_stack_bottom) ∨
    (L.kernel_stack_bottom ≤ rsp + PAGE_SIZE ∧ rsp ≤ L.kernel_stack_bottom)

instance : Decidable (AtBottom L rsp) := inferInstanceAs (Decidable (_ ∨ _))

-- On the kernel stack, with two pages of it unused.
def Roomy (L : Layout) (rsp : Nat) : Prop :=
  L.kernel_stack_bottom + 8192 ≤ rsp ∧ rsp ≤ L.kernel_stack_top

def Diagnosed (L : Layout) (rsp : Nat) : Prop :=
  (AtBottom L rsp → is_probable_stack_overflow L rsp = .ok true) ∧
    (Roomy L rsp → is_probable_stack_overflow L rsp = .ok false)

theorem stacks_above_first_page (L : Layout) :
    0x2000 ≤ L.boot_stack_bottom ∧ L.boot_stack_bottom ≤ L.kernel_stack_bottom ∧
      L.kernel_stack_bottom ≤ L.kernel_stack_top := by
  have hstart := L.boot_bss_after_start
  rw [Layout.kernel_stack_top, Layout.kernel_stack_bottom_eq, Layout.boot_stack_top]
  simp only [Layout.boot_stack_bottom, image_phys_start] at hstart ⊢
  omega

theorem AtBottom.not_overflow (h : AtBottom L rsp) : is_probable_stack_overflow L rsp = .ok false := by
  obtain ⟨hfirst, hboot, hkernel⟩ := stacks_above_first_page L
  unfold AtBottom PAGE_SIZE at h
  exact low_not_overflow (by omega) (by omega)

theorem Roomy.not_overflow (h : Roomy L rsp) : is_probable_stack_overflow L rsp = .ok false := by
  obtain ⟨hfirst, hboot, -⟩ := stacks_above_first_page L
  exact low_not_overflow (by have := h.1; omega) h.2

theorem AtBottom.not_diagnosed (h : AtBottom L rsp) : ¬Diagnosed L rsp := by
  intro hdiagnosed
  exact Bool.noConfusion (Except.ok.inj (h.not_overflow.symm.trans (hdiagnosed.1 h)))

-- The report of a real overflow does not name it.
theorem AtBottom.report (h : AtBottom L rsp) : on_double_fault L rip rsp code =
    .ok ["DOUBLE FAULT (#DF) at rip " ++ hex rip ++ ", error code " ++ hex code,
      "  rsp " ++ hex rsp, "  IST1 stack in use, so this report survived the broken stack."] := by
  rw [on_double_fault, h.not_overflow]
  rfl

end Diagnosis

-- No overflow of either stack is ever recognised; for every other stack pointer the
-- answer is right.
theorem diagnosed_iff (L : Layout) (rsp : Nat) : Diagnosed L rsp ↔ ¬AtBottom L rsp := by
  refine ⟨fun hdiagnosed hbottom => hbottom.not_diagnosed hdiagnosed, fun hno => ?_⟩
  exact ⟨fun hbottom => absurd hbottom hno, Roomy.not_overflow⟩

-- The kernel stack used up to its last byte.
theorem exhausted_stack_not_diagnosed : ¬Diagnosed Memory.Vmm.small_layout 0x214000 ∧
    is_probable_stack_overflow Memory.Vmm.small_layout 0x214000 = .ok false := by
  have hbottom : AtBottom Memory.Vmm.small_layout 0x214000 := by decide
  exact ⟨hbottom.not_diagnosed, hbottom.not_overflow⟩

end Orin.Interrupts.Idt
