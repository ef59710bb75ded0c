import Orin.Memory.Vmm.Theorems
import Orin.Panic

namespace Orin.Panic

open Rust Arch Boot Memory

def MAX_FRAMES : Nat := 24

def valid_frame_pointer (rbp : Nat) : Bool :=
  KERNEL_VMA ≤ rbp && rbp % 16 == 0 && rbp < 0xFFFFFFFFFFFFFFFF - 16

-- One frame as it is read: the two words at `rbp`.
structure Frame where
  rbp : Nat
  saved_rbp : Nat
  ret_addr : Nat
  in_text : Bool
  deriving DecidableEq

inductive Ending where
  | off_stack (depth rbp : Nat)
  | outside_text
  | not_increasing
  | truncated
  deriving DecidableEq

structure Walk where
  frames : List Frame
  ending : Ending

section Walk

-- The words of the memory the walk reads, and the symbols that bound `.text`.
variable (mem : Nat → Nat) (sym : Symbols)

def read_frame (rbp : Nat) : Frame where
  rbp := rbp
  saved_rbp := mem rbp
  ret_addr := mem (rbp + 8)
  in_text := sym.kernel_text_start ≤ mem (rbp + 8) && mem (rbp + 8) < sym.kernel_text_end

-- The loop from the frame number `depth` on, with `left` frames to go.
def walk : (left depth rbp : Nat) → Walk
  | 0, _, _ => ⟨[], .truncated⟩
  | left + 1, depth, rbp =>
      if !valid_frame_pointer rbp then ⟨[], .off_stack depth rbp⟩
      else
        let frame := read_frame mem sym rbp
        if !frame.in_text then ⟨[frame], .outside_text⟩
        else if frame.saved_rbp ≤ rbp then ⟨[frame], .not_increasing⟩
        else
          let outer := walk left (depth + 1) frame.saved_rbp
          ⟨frame :: outer.frames, outer.ending⟩

def backtrace (rbp : Nat) : Walk := walk mem sym MAX_FRAMES 0 rbp

end Walk

-- `{:<2}`.
def numbered (depth : Nat) : String :=
  toString depth ++ String.ofList (List.replicate (2 - (toString depth).length) ' ')

def frame_line (depth : Nat) (f : Frame) : String :=
  tagged ("  #" ++ numbered depth ++ " " ++ hex18 f.ret_addr ++
    (if f.in_text then "" else " [NOT in .text]") ++ " (rbp " ++ hex f.saved_rbp ++ ")")

def ending_line (sym : Symbols) : Ending → String
  | .off_stack depth rbp => tagged ("  #" ++ numbered depth ++ " frame pointer " ++ hex rbp ++
      " is not a plausible kernel stack address; stopping rather than faulting inside the " ++
      "panic handler")
  | .outside_text => tagged ("       -> return address outside .text [" ++
      hex sym.kernel_text_start ++ ".." ++ hex sym.kernel_text_end ++
      "): corrupted stack, or an indirect call through a bad pointer")
  | .not_increasing =>
      tagged "       -> frame pointer did not increase; chain corrupt, stopping"
  | .truncated => tagged ("  truncated at MAX_FRAMES=" ++ toString MAX_FRAMES)

-- What the walk prints.
def Walk.lines (sym : Symbols) (w : Walk) : List String :=
  w.frames.mapIdx frame_line ++ [ending_line sym w.ending]

-- Every address the walk dereferences.
def Walk.reads (w : Walk) : List Nat := w.frames.flatMap fun f => [f.rbp, f.rbp + 8]

section Walk

variable {mem : Nat → Nat} {sym : Symbols} {left depth rbp p : Nat}

theorem valid_frame_pointer_iff : valid_frame_pointer rbp = true ↔
    KERNEL_VMA ≤ rbp ∧ rbp % 16 = 0 ∧ rbp < 0xFFFFFFFFFFFFFFEF := by
  simp [valid_frame_pointer, and_assoc]

-- The walk goes on behind this frame.
def Passes (mem : Nat → Nat) (sym : Symbols) (rbp : Nat) : Prop :=
  valid_frame_pointer rbp = true ∧
    (sym.kernel_text_start ≤ mem (rbp + 8) ∧ mem (rbp + 8) < sym.kernel_text_end) ∧ rbp < mem rbp

theorem walk_invalid (h : valid_frame_pointer rbp = false) :
    walk mem sym (left + 1) depth rbp = ⟨[], .off_stack depth rbp⟩ := by
  rw [walk, if_pos (by rw [h]; rfl)]

theorem walk_passes (h : Passes mem sym rbp) : (walk mem sym (left + 1) depth rbp).frames =
    read_frame mem sym rbp :: (walk mem sym left (depth + 1) (mem rbp)).frames := by
  obtain ⟨hvalid, htext, hnext⟩ := h
  have hin : (read_frame mem sym rbp).in_text = true := by simpa [read_frame] using htext
  rw [walk, if_neg (by rw [hvalid]; decide)]
  dsimp only
  rw [if_neg (by rw [hin]; decide), if_neg (show ¬(read_frame mem sym rbp).saved_rbp ≤ rbp from
    Nat.not_le_of_lt hnext)]
  rfl

theorem walk_stops (hvalid : valid_frame_pointer rbp = true) (h : ¬Passes mem sym rbp) :
    (walk mem sym (left + 1) depth rbp).frames = [read_frame mem sym rbp] := by
  rw [walk, if_neg (by rw [hvalid]; decide)]
  dsimp only
  by_cases hin : (read_frame mem sym rbp).in_text = true
  · have hle : (read_frame mem sym rbp).saved_rbp ≤ rbp := by
      by_contra hlt
      have htext : sym.kernel_text_start ≤ mem (rbp + 8) ∧ mem (rbp + 8) < sym.kernel_text_end := by
        simpa [read_frame] using hin
      exact h ⟨hvalid, htext, Nat.lt_of_not_le hlt⟩
    rw [if_neg (by rw [hin]; decide), if_pos hle]
  · rw [if_pos (by simp [hin])]

-- The frame pointer that the saved ones lead to in `k` steps.
def Reached (mem : Nat → Nat) (sym : Symbols) : (k rbp p : Nat) → Prop
  | 0, rbp, p => p = rbp
  | k + 1, rbp, p => Passes mem sym rbp ∧ Reached mem sym k (mem rbp) p

-- The walk reads the frames it reaches, as long as they pass for one.
theorem mem_frames_iff : p ∈ (walk mem sym left depth rbp).frames.map Frame.rbp ↔
    ∃ k < left, Reached mem sym k rbp p ∧ valid_frame_pointer p = true := by
  induction left generalizing depth rbp with
  | zero => simp [walk]
  | succ left ih =>
      rw [Nat.exists_lt_succ_left]
      by_cases hvalid : valid_frame_pointer rbp = true
      · have hfirst : Reached mem sym 0 rbp p ∧ valid_frame_pointer p = true ↔ p = rbp :=
          ⟨And.left, fun h => ⟨h, h ▸ hvalid⟩⟩
        by_cases hpass : Passes mem sym rbp
        · rw [walk_passes hpass, List.map_cons, List.mem_cons, ih, hfirst]
          simp only [Reached, hpass, true_and, read_frame]
        · rw [walk_stops hvalid hpass, hfirst]
          simp [Reached, hpass, read_frame]
      · rw [walk_invalid (Bool.eq_false_iff.mpr hvalid)]
        have hnone : ¬Passes mem sym rbp := fun h => hvalid h.1
        refine iff_of_false List.not_mem_nil ?_
        rintro (⟨rfl, h⟩ | ⟨k, -, ⟨h, -⟩, -⟩)
        · exact hvalid h
        · exact hnone h

theorem forall_reads_iff {w : Walk} {Q : Nat → Prop} : (∀ a ∈ w.reads, Q a) ↔
    ∀ p ∈ w.frames.map Frame.rbp, Q p ∧ Q (p + 8) := by
  simp only [Walk.reads, List.mem_flatMap, List.mem_map, List.mem_cons, List.not_mem_nil, or_false]
  constructor
  · rintro h p ⟨f, hf, rfl⟩
    exact ⟨h f.rbp ⟨f, hf, .inl rfl⟩, h (f.rbp + 8) ⟨f, hf, .inr rfl⟩⟩
  · rintro h a ⟨f, hf, rfl | rfl⟩
    · exact (h f.rbp ⟨f, hf, rfl⟩).1
    · exact (h f.rbp ⟨f, hf, rfl⟩).2

end Walk

-- The tables give the address a page.
def Mapped (s : Vmm.State) (a : Nat) : Prop :=
  ∃ va : VirtAddr, va.as_u64 = a ∧ ∃ page, Vmm.translate s va = .ok (some page)

-- What `vmm::init` maps from `KERNEL_VMA` on: the image and the VGA page.
def Inside (L : Boot.Layout) (a : Nat) : Prop :=
  L.symbols.kernel_text_start ≤ a ∧ a < L.image_end ∨
    KERNEL_VMA + Vmm.VGA_PHYS ≤ a ∧ a < KERNEL_VMA + Vmm.VGA_PHYS + PAGE_SIZE

theorem documented_isSome_iff {L : Boot.Layout} {s : Vmm.State} {a : Nat} (ha : KERNEL_VMA ≤ a) :
    (∃ page, Vmm.documented L.symbols s a = some page) ↔ Inside L a := by
  have b := Vmm.sections L
  have h1 := Nat.le_trans b.text_end b.text_le
  have h2 := Nat.le_trans b.rodata_end b.rodata_le
  have h3 := Nat.le_trans b.data_lt.le (Nat.le_trans b.bss_end b.bss_le)
  have hheap : HEAP_VIRT_START + HEAP_SIZE ≤ KERNEL_VMA := by
    rw [HEAP_VIRT_START_eq, KERNEL_VMA_eq]
    decide
  have hend : ALIGN L.symbols.kernel_virt_end LARGE_PAGE_SIZE = L.image_end := rfl
  rw [Vmm.documented, hend, Inside]
  split_ifs
  all_goals simp
  all_goals omega

section Init

variable {L : Boot.Layout} {tables : Theory.Radix.Mem Nat Nat Nat} {supply : List Nat} {nx : Bool}
  {info : Vmm.VmmInfo} {s : Vmm.State} {a p : Nat}

theorem mapped_iff (hfresh : Vmm.Fresh L supply)
    (hinit : Vmm.init (Vmm.booted L tables supply nx) L.symbols = .ok (info, s))
    (ha : KERNEL_VMA ≤ a) (hlt : a < 0x10000000000000000) : Mapped s a ↔ Inside L a := by
  have hcanonical : Canonical a := by
    rw [KERNEL_VMA_eq] at ha
    exact .inr ⟨by omega, hlt⟩
  have hhigh : 256 ≤ (Vmm.indices ⟨a, hcanonical⟩).pml4 := by
    rw [KERNEL_VMA_eq] at ha
    simp only [Vmm.indices, Vmm.index_eq]
    omega
  have htranslate := Vmm.translate_kernel_half hfresh hinit hhigh
  rw [← documented_isSome_iff (s := s) ha]
  constructor
  · rintro ⟨va, rfl, page, hpage⟩
    exact ⟨page, Except.ok.inj (htranslate.symm.trans hpage)⟩
  · rintro ⟨page, hpage⟩
    exact ⟨⟨a, hcanonical⟩, rfl, page, htranslate.trans (congrArg Except.ok hpage)⟩

-- A frame is sixteen bytes on a boundary of its own size: one page has it whole.
theorem frame_mapped_iff (hfresh : Vmm.Fresh L supply)
    (hinit : Vmm.init (Vmm.booted L tables supply nx) L.symbols = .ok (info, s))
    (hp : valid_frame_pointer p = true) : Mapped s p ∧ Mapped s (p + 8) ↔ Inside L p := by
  obtain ⟨hlow, haligned, hlt⟩ := valid_frame_pointer_iff.mp hp
  rw [mapped_iff hfresh hinit hlow (by omega), mapped_iff hfresh hinit (by omega) (by omega)]
  refine ⟨And.left, fun h => ⟨h, ?_⟩⟩
  have himage := (Vmm.sections L).image.page
  have hbase : (KERNEL_VMA + Vmm.VGA_PHYS + PAGE_SIZE) % 4096 = 0 := by rw [KERNEL_VMA_eq]; decide
  unfold Inside at h ⊢
  omega

theorem reads_mapped_of_reached (hfresh : Vmm.Fresh L supply)
    (hinit : Vmm.init (Vmm.booted L tables supply nx) L.symbols = .ok (info, s))
    (mem : Nat → Nat) (rbp : Nat) :
    (∀ a ∈ (backtrace mem L.symbols rbp).reads, Mapped s a) ↔
      ∀ k < MAX_FRAMES, ∀ p, Reached mem L.symbols k rbp p → valid_frame_pointer p = true →
        Inside L p := by
  rw [forall_reads_iff]
  simp only [backtrace, mem_frames_iff]
  constructor
  · intro h k hk p hreached hvalid
    exact (frame_mapped_iff hfresh hinit hvalid).mp (h p ⟨k, hk, hreached, hvalid⟩)
  · rintro h p ⟨k, hk, hreached, hvalid⟩
    exact (frame_mapped_iff hfresh hinit hvalid).mpr (h k hk p hreached hvalid)

end Init

-- The last frame pointer that passes for one; the top 16 MiB are behind every image.
def LAST : Nat := 0xFFFFFFFFFFFFFFE0

theorem last_valid : valid_frame_pointer LAST = true := by
  rw [valid_frame_pointer_iff, KERNEL_VMA_eq]
  decide

theorem valid_le_last {rbp : Nat} (h : valid_frame_pointer rbp = true) : rbp ≤ LAST := by
  obtain ⟨-, haligned, hlt⟩ := valid_frame_pointer_iff.mp h
  unfold LAST
  omega

theorem last_outside (L : Boot.Layout) : ¬Inside L LAST := by
  have o := L.order
  have hheap := o.heap
  have hlast := o.last
  rw [BOOT_MAPPED_BYTES_eq, HEAP_SIZE] at hlast
  rw [KERNEL_VMA_eq] at hheap
  unfold Inside LAST Vmm.VGA_PHYS PAGE_SIZE
  rw [KERNEL_VMA_eq]
  omega

-- Whatever frame the walk starts with, memory can lead it from there to the last one.
theorem inside_of_any_memory {L : Boot.Layout} {rbp : Nat} (hvalid : valid_frame_pointer rbp = true)
    (h : ∀ mem : Nat → Nat, ∀ k < MAX_FRAMES, ∀ p, Reached mem L.symbols k rbp p →
      valid_frame_pointer p = true → Inside L p) : L.text.size = 0 ∧ Inside L rbp := by
  have hhere : Inside L rbp := h (fun _ => 0) 0 (by decide) rbp rfl hvalid
  refine ⟨?_, hhere⟩
  by_contra hsize
  have hlt : rbp < LAST := by
    refine Nat.lt_of_le_of_ne (valid_le_last hvalid) ?_
    rintro rfl
    exact last_outside L hhere
  let mem : Nat → Nat := fun a => if a = rbp then LAST else L.symbols.kernel_text_start
  have hsaved : mem rbp = LAST := if_pos rfl
  have hret : mem (rbp + 8) = L.symbols.kernel_text_start := if_neg (by omega)
  have htext : L.symbols.kernel_text_start < L.symbols.kernel_text_end :=
    Nat.lt_add_of_pos_right (Nat.pos_of_ne_zero hsize)
  have hpass : Passes mem L.symbols rbp := by
    refine ⟨hvalid, ?_, ?_⟩
    · rw [hret]
      exact ⟨Nat.le_refl _, htext⟩
    · rw [hsaved]
      exact hlt
  exact last_outside L (h mem 1 (by decide) LAST ⟨hpass, hsaved.symm⟩ last_valid)

theorem inside_of_no_text {L : Boot.Layout} {mem : Nat → Nat} {k rbp p : Nat} (hsize : L.text.size = 0)
    (h : Inside L rbp) (hreached : Reached mem L.symbols k rbp p) : Inside L p := by
  cases k with
  | zero => exact hreached ▸ h
  | succ k =>
      obtain ⟨⟨-, ⟨hstart, hend⟩, -⟩, -⟩ := hreached
      have hempty : L.symbols.kernel_text_end = L.symbols.kernel_text_start := by
        show L.text.vma + L.text.size = L.text.vma
        rw [hsize, Nat.add_zero]
      omega

-- The walk stays on mapped pages exactly if every frame it is led to lies in the image or
-- on the VGA page. No start that passes the check is safe whatever memory holds, unless
-- there is no `.text` to return to.
theorem backtrace_mapped_iff (L : Boot.Layout) (tables : Theory.Radix.Mem Nat Nat Nat)
    (supply : List Nat) (nx : Bool) (hfresh : Vmm.Fresh L supply) (info : Vmm.VmmInfo)
    (s : Vmm.State) (hinit : Vmm.init (Vmm.booted L tables supply nx) L.symbols = .ok (info, s)) :
    (∀ mem rbp, (∀ a ∈ (backtrace mem L.symbols rbp).reads, Mapped s a) ↔
      ∀ k < MAX_FRAMES, ∀ p, Reached mem L.symbols k rbp p → valid_frame_pointer p = true →
        Inside L p) ∧
    ∀ rbp, (∀ mem, ∀ a ∈ (backtrace mem L.symbols rbp).reads, Mapped s a) ↔
      (valid_frame_pointer rbp = true → L.text.size = 0 ∧ Inside L rbp) := by
  have hreads := reads_mapped_of_reached hfresh hinit
  refine ⟨hreads, fun rbp => ⟨fun h hvalid => ?_, fun h mem => ?_⟩⟩
  · exact inside_of_any_memory hvalid fun mem => (hreads mem rbp).mp (h mem)
  · rw [hreads]
    intro k hk p hreached hvalid
    by_cases hstart : valid_frame_pointer rbp = true
    · obtain ⟨hsize, hinside⟩ := h hstart
      exact inside_of_no_text hsize hinside hreached
    · cases k with
      | zero => exact absurd (hreached ▸ hvalid) hstart
      | succ k => exact absurd hreached.1.1 hstart

-- Zeroed memory has no return address, so the walk reads one frame of it.
theorem not_passes_zeroed (L : Boot.Layout) (rbp : Nat) : ¬Passes (fun _ => 0) L.symbols rbp := by
  rintro ⟨-, ⟨hstart, -⟩, -⟩
  have hfirst : KERNEL_VMA + LARGE_PAGE_SIZE ≤ 0 := (Vmm.sections L).first.trans hstart
  rw [KERNEL_VMA_eq] at hfirst
  exact absurd hfirst (by decide)

-- A chain that starts at `.data` and ends there.
theorem backtrace_mapped_data : ∃ info s,
    Vmm.init Vmm.small_boot Vmm.small_layout.symbols = .ok (info, s) ∧
      ∀ a ∈ (backtrace (fun _ => 0) Vmm.small_layout.symbols Vmm.small_layout.data.vma).reads,
        Mapped s a := by
  obtain ⟨info, s, hinit⟩ := Vmm.small_returns
  refine ⟨info, s, hinit, ?_⟩
  rw [(backtrace_mapped_iff _ _ _ _ Vmm.small_fresh info s hinit).1]
  intro k hk p hreached hvalid
  cases k with
  | zero =>
      have hsections := Vmm.sections Vmm.small_layout
      have h1 := Nat.le_trans hsections.text_end hsections.text_le
      have h2 := Nat.le_trans hsections.rodata_end hsections.rodata_le
      have h3 := Nat.le_trans hsections.bss_end hsections.bss_le
      obtain rfl := hreached
      exact .inl ⟨h1.trans h2, hsections.data_lt.trans_le h3⟩
  | succ k => exact absurd hreached.1 (not_passes_zeroed _ _)

-- An address of the kernel half that nothing is mapped at.
def WILD : Nat := 0xFFFFFFFFC0000000

theorem wild_valid : valid_frame_pointer WILD = true := by
  rw [valid_frame_pointer_iff, KERNEL_VMA_eq]
  decide

-- It passes the check, and reading it faults.
theorem wild_frame_faults : ∃ info s,
    Vmm.init Vmm.small_boot Vmm.small_layout.symbols = .ok (info, s) ∧
      WILD ∈ (backtrace (fun _ => 0) Vmm.small_layout.symbols WILD).reads ∧ ¬Mapped s WILD := by
  obtain ⟨info, s, hinit⟩ := Vmm.small_returns
  refine ⟨info, s, hinit, ?_, ?_⟩
  · have hframe := @walk_stops _ _ 23 0 _ wild_valid
      (not_passes_zeroed Vmm.small_layout WILD)
    rw [Walk.reads, backtrace, MAX_FRAMES, hframe]
    exact List.mem_cons_self
  · rw [mapped_iff Vmm.small_fresh hinit (valid_frame_pointer_iff.mp wild_valid).1 (by decide)]
    have hend := Vmm.small_layout.order.heap
    unfold Inside WILD Vmm.VGA_PHYS PAGE_SIZE
    rw [KERNEL_VMA_eq] at hend ⊢
    have hheap : Vmm.small_layout.heap_phys_start = 0xC00000 := rfl
    omega

-- Frames linked outwards, each with a return address into `.text`.
structure Linked (mem : Nat → Nat) (sym : Symbols) (chain : List Nat) : Prop where
  aligned : ∀ p ∈ chain, p % 16 = 0
  linked : chain.IsChain fun p q => p < q ∧ mem p = q
  returns : ∀ p ∈ chain, sym.kernel_text_start ≤ mem (p + 8) ∧ mem (p + 8) < sym.kernel_text_end

-- They lie on the stack that the CPU runs on.
structure OnKernelStack (L : Boot.Layout) (mem : Nat → Nat) (chain : List Nat) : Prop
    extends Linked mem L.symbols chain where
  inside : ∀ p ∈ chain, L.kernel_stack_bottom ≤ p ∧ p < L.kernel_stack_top

-- The first 24 return addresses of the chain are the first that the walk reports.
def ChainReported (mem : Nat → Nat) (sym : Symbols) (p : Nat) (outer : List Nat) : Prop :=
  ((p :: outer).map fun q => mem (q + 8)).take MAX_FRAMES <+:
    (backtrace mem sym p).frames.map Frame.ret_addr

-- The stack lies at low addresses, and none of them passes for a frame pointer.
theorem stack_not_valid {L : Boot.Layout} {p : Nat} (hp : p < L.kernel_stack_top) :
    valid_frame_pointer p = false := by
  have htop := L.kernel_stack_top_lt
  rw [BOOT_MAPPED_BYTES_eq] at htop
  rw [Bool.eq_false_iff, ne_eq, valid_frame_pointer_iff, KERNEL_VMA_eq]
  omega

theorem OnKernelStack.stops {L : Boot.Layout} {mem : Nat → Nat} {p : Nat} {outer : List Nat}
    (h : OnKernelStack L mem (p :: outer)) :
    backtrace mem L.symbols p = ⟨[], .off_stack 0 p⟩ :=
  walk_invalid (stack_not_valid (h.inside p List.mem_cons_self).2)

theorem OnKernelStack.not_reported {L : Boot.Layout} {mem : Nat → Nat} {p : Nat}
    {outer : List Nat} (h : OnKernelStack L mem (p :: outer)) :
    ¬ChainReported mem L.symbols p outer := by
  intro hreported
  rw [ChainReported, h.stops] at hreported
  exact List.cons_ne_nil _ _ (List.prefix_nil.mp hreported)

-- No chain on the kernel's own stack is ever reported: the walk stops at its first frame.
theorem kernel_stack_never_reported (L : Boot.Layout) (mem : Nat → Nat) (p : Nat)
    (outer : List Nat) (h : OnKernelStack L mem (p :: outer)) :
    backtrace mem L.symbols p = ⟨[], .off_stack 0 p⟩ ∧ ¬ChainReported mem L.symbols p outer :=
  ⟨h.stops, h.not_reported⟩

-- Two frames at the top of the stack, with returns to the start of `.text`.
def two_frames : Nat → Nat := fun a =>
  if a = 0x223FE0 then 0x223FF0 else Vmm.small_layout.symbols.kernel_text_start

theorem two_frames_intact : OnKernelStack Vmm.small_layout two_frames [0x223FE0, 0x223FF0] where
  aligned := by decide
  linked := List.isChain_cons_cons.mpr ⟨⟨by decide, rfl⟩, List.isChain_singleton _⟩
  returns p hp := by
    have hlt : Vmm.small_layout.symbols.kernel_text_start <
        Vmm.small_layout.symbols.kernel_text_end := Nat.lt_add_of_pos_right (by decide)
    have hret : two_frames (p + 8) = Vmm.small_layout.symbols.kernel_text_start := by
      rw [two_frames, if_neg]
      rintro hp8
      simp only [List.mem_cons, List.not_mem_nil, or_false] at hp
      omega
    rw [hret]
    exact ⟨Nat.le_refl _, hlt⟩
  inside := by decide

theorem two_frames_lost : OnKernelStack Vmm.small_layout two_frames [0x223FE0, 0x223FF0] ∧
    ¬ChainReported two_frames Vmm.small_layout.symbols 0x223FE0 [0x223FF0] :=
  ⟨two_frames_intact, two_frames_intact.not_reported⟩

theorem kernel_stack_never_reported_two :
    backtrace two_frames Vmm.small_layout.symbols 0x223FE0 = ⟨[], .off_stack 0 0x223FE0⟩ :=
  (kernel_stack_never_reported _ _ _ _ two_frames_intact).1

end Orin.Panic
