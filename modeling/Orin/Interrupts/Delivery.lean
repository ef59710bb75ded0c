import Orin.Interrupts.Gdt
import Orin.Interrupts.Idt
import Orin.Memory.Vmm.Rights

namespace Orin.Interrupts

open Rust Arch Memory.Vmm
open Boot (ALIGN)
open Theory.Radix (Mem)

-- SS, RSP, RFLAGS, CS and RIP, and the error code of the vectors that have one.
def frame_words (vec : UInt8) : Nat :=
  if vec ∈ ([0x08, 0x0A, 0x0B, 0x0C, 0x0D, 0x0E, 0x11, 0x15, 0x1D, 0x1E] : List UInt8) then 6
  else 5

-- `field` is what the crate writes into the descriptor of a gate with or without a stack index.
-- To the processor 0 keeps the stack, and any other value is a pointer of the TSS, counted from 1.
-- The crate counts its index from 0.
def CountsFromZero (field : Option Nat → Nat) : Prop :=
  ∀ index < 7, field (some index) = index + 1

-- Where the processor starts to push, aligned to 16 bytes.
def stack_for (field : Option Nat → Nat) (tss : List VirtAddr) (gate : Gate) (rsp : Nat) : Nat :=
  (if field gate.stack_index = 0 then rsp
    else ((tss[field gate.stack_index - 1]?).map VirtAddr.as_u64).getD 0) / 16 * 16

-- The address of the word pushed after `k` others. It wraps below zero.
def word_below (top k : Nat) : Nat := (top + WORD - 8 * (k + 1)) % WORD

def Pushes (s : State) (top words : Nat) : Prop :=
  ∀ k < words, ∃ v : VirtAddr, v.as_u64 = word_below top k ∧ CpuWritable s v

def Faults (s : State) (top words : Nat) : Prop :=
  ∃ k < words, ∃ v : VirtAddr, v.as_u64 = word_below top k ∧ ¬CpuWritable s v

-- What becomes of an exception or interrupt: the function entered with its stack pointer, or
-- nothing more. A frame that cannot be pushed is a page fault. If it is the frame of a page
-- fault, that is a double fault, and if of a double fault, the processor shuts down.
inductive Delivers (field : Option Nat → Nat) (s : State) (tss : List VirtAddr) (rsp : Nat) :
    UInt8 → Option (Handler × Nat) → Prop where
  | pushed {vec : UInt8} {gate : Gate} (hgate : loaded vec = some gate)
      (hpush : Pushes s (stack_for field tss gate rsp) (frame_words vec)) :
      Delivers field s tss rsp vec
        (some (gate.handler, stack_for field tss gate rsp - 8 * frame_words vec))
  | page_fault {vec : UInt8} {gate : Gate} {outcome : Option (Handler × Nat)}
      (hgate : loaded vec = some gate)
      (hfault : Faults s (stack_for field tss gate rsp) (frame_words vec))
      (hvec : vec ≠ 0x0E ∧ vec ≠ 0x08) (hnext : Delivers field s tss rsp 0x0E outcome) :
      Delivers field s tss rsp vec outcome
  | double_fault {vec : UInt8} {gate : Gate} {outcome : Option (Handler × Nat)}
      (hgate : loaded vec = some gate)
      (hfault : Faults s (stack_for field tss gate rsp) (frame_words vec)) (hvec : vec = 0x0E)
      (hnext : Delivers field s tss rsp 0x08 outcome) : Delivers field s tss rsp vec outcome
  | shutdown {vec : UInt8} {gate : Gate} (hgate : loaded vec = some gate)
      (hfault : Faults s (stack_for field tss gate rsp) (frame_words vec)) (hvec : vec = 0x08) :
      Delivers field s tss rsp vec none

section Delivery

variable {field : Option Nat → Nat} {L : Boot.Layout} {s : State} {tss : List VirtAddr}
variable {rsp base : Nat} {vec : UInt8} {gate : Gate} {outcome : Option (Handler × Nat)}

theorem Faults.not_pushes {top words : Nat} (h : Faults s top words) : ¬Pushes s top words := by
  obtain ⟨k, hk, v, hv, hnot⟩ := h
  intro hpush
  obtain ⟨w, hw, hwritable⟩ := hpush k hk
  obtain rfl : v = w := VirtAddr.ext (hv.trans hw.symm)
  exact hnot hwritable

theorem delivers_of_pushes (hgate : loaded vec = some gate)
    (hpush : Pushes s (stack_for field tss gate rsp) (frame_words vec)) :
    Delivers field s tss rsp vec outcome ↔
      outcome = some (gate.handler, stack_for field tss gate rsp - 8 * frame_words vec) := by
  have hsame : ∀ {gate' : Gate}, loaded vec = some gate' → gate' = gate := fun hgate' =>
    Option.some.inj (hgate'.symm.trans hgate)
  refine ⟨fun h => ?_, ?_⟩
  · cases h with
    | pushed hgate' _ => rw [hsame hgate']
    | page_fault hgate' hfault _ _ => exact absurd hpush (hsame hgate' ▸ hfault).not_pushes
    | double_fault hgate' hfault _ _ => exact absurd hpush (hsame hgate' ▸ hfault).not_pushes
    | shutdown hgate' hfault _ => exact absurd hpush (hsame hgate' ▸ hfault).not_pushes
  · rintro rfl
    exact .pushed hgate hpush

theorem delivers_of_faults (hgate : loaded vec = some gate)
    (hfault : Faults s (stack_for field tss gate rsp) (frame_words vec)) (hvec : vec ≠ 0x08) :
    Delivers field s tss rsp vec outcome ↔
      Delivers field s tss rsp (if vec = 0x0E then 0x08 else 0x0E) outcome := by
  refine ⟨fun h => ?_, fun h => ?_⟩
  · cases h with
    | pushed hgate' hpush =>
        obtain rfl := Option.some.inj (hgate'.symm.trans hgate)
        exact absurd hpush hfault.not_pushes
    | page_fault _ _ hother hnext => rwa [if_neg hother.1]
    | double_fault _ _ hpage hnext => rwa [if_pos hpage]
    | shutdown _ _ hdouble => exact absurd hdouble hvec
  · by_cases hpage : vec = 0x0E
    · rw [if_pos hpage] at h
      exact .double_fault hgate hfault hpage h
    · rw [if_neg hpage] at h
      exact .page_fault hgate hfault ⟨hpage, hvec⟩ h

-- The gates with a stack of their own: all but one name a slot that `gdt::init` fills.
theorem assignments_stack : ∀ entry ∈ assignments, ∀ index, entry.2.stack_index = some index →
    index < 7 ∧ (entry.1 = 0x0E ∨ index + 1 ≤ Gdt.ist.COUNT) := by
  decide

theorem loaded_stack {index : Nat} (hgate : loaded vec = some gate)
    (hindex : gate.stack_index = some index) :
    index < 7 ∧ (vec = 0x0E ∨ index + 1 ≤ Gdt.ist.COUNT) := by
  unfold loaded install_purposeful_handlers at hgate
  cases hp : purposeful vec with
  | none =>
      rw [hp] at hgate
      obtain rfl := Option.some.inj hgate
      cases hindex
  | some gate' =>
      rw [hp] at hgate
      obtain rfl := Option.some.inj hgate
      exact assignments_stack _ (purposeful_mem hp) index hindex

theorem frame_words_le (vec : UInt8) : frame_words vec ≤ 6 := by
  unfold frame_words
  split <;> decide

-- The stacks are data, down to the guard page.
theorem slot_pushes (h : KernelHalf L s) (hplaced : Gdt.Placed L base) {slot words : Nat}
    (h1 : 1 ≤ slot) (h2 : slot ≤ Gdt.ist.COUNT) {top : VirtAddr}
    (htop : Gdt.ist_stack_top base slot = .ok top) (hwords : words ≤ 6) :
    top.as_u64 / 16 * 16 = top.as_u64 ∧ Pushes s top.as_u64 words := by
  obtain ⟨top', htop', hat⟩ := hplaced.ist_stack_top h1 h2
  obtain rfl : top' = top := Except.ok.inj (htop'.symm.trans htop)
  have haligned := hplaced.aligned
  have hsize : Gdt.SLOT_BYTES = 20480 := rfl
  have hend := Gdt.slot_end base h1 h2
  have hbss := hplaced.before_end
  have hword := hplaced.canonical (a := top'.as_u64) (by omega) (by omega)
  refine ⟨?_, fun k hk => ?_⟩
  · rw [hat, hsize]
    omega
  · have hlow : base ≤ top'.as_u64 - 8 * (k + 1) := by omega
    obtain ⟨v, -, hv⟩ := VirtAddr.exists_new (hplaced.canonical hlow (by omega))
    have hbelow : word_below top'.as_u64 k = top'.as_u64 - 8 * (k + 1) := by
      have hlt := Canonical.lt_WORD hword
      rw [word_below, WORD_eq]
      rw [WORD_eq] at hlt
      omega
    refine ⟨v, by rw [hv, hbelow], ?_⟩
    have hdata := (sections L).data_lt
    have hafter := hplaced.after_start
    have hle := (sections L).bss_le
    have hstart : L.symbols.kernel_bss_start = L.bss.vma := rfl
    have hstop : L.symbols.kernel_bss_end = L.bss.vmaEnd := rfl
    have himage : ALIGN L.symbols.kernel_virt_end LARGE_PAGE_SIZE = L.image_end := rfl
    rw [h.writable_iff (hplaced.high (by omega))]
    exact .inl ⟨by omega, by omega⟩

-- The end of the address space lies behind the heap's backing store, so nothing is mapped there.
theorem null_faults (h : KernelHalf L s) {words : Nat} (hwords : 0 < words) : Faults s 0 words := by
  obtain ⟨v, -, hv⟩ := VirtAddr.exists_new (v := 0xFFFFFFFFFFFFFFF8) (.inr (by decide))
  refine ⟨0, hwords, v, hv.trans (by rw [word_below, WORD_eq]), ?_⟩
  have horder := L.order
  have hheap := horder.heap
  have hlast := horder.last
  have himage : ALIGN L.symbols.kernel_virt_end LARGE_PAGE_SIZE = L.image_end := rfl
  have hvga : VGA_PHYS = 0xB8000 := rfl
  rw [h.writable_iff (image_window (by rw [KERNEL_VMA_eq]; omega)).1, DataAt, himage, hv,
    HEAP_VIRT_START_eq]
  rw [BOOT_MAPPED_BYTES_eq] at hlast
  rw [KERNEL_VMA_eq] at hheap ⊢
  simp only [HEAP_SIZE, PAGE_SIZE] at *
  omega

-- A gate with a slot of its own that is filled: its function is entered there.
theorem delivers_on_slot (hfield : CountsFromZero field) (rsp : Nat) (h : KernelHalf L s)
    (hplaced : Gdt.Placed L base) (htss : Gdt.init base = .ok tss) (hgate : loaded vec = some gate)
    {index : Nat} (hindex : gate.stack_index = some index) (hle : index + 1 ≤ Gdt.ist.COUNT) :
    ∃ top, Gdt.ist_stack_top base (index + 1) = .ok top ∧
      ∀ outcome, Delivers field s tss rsp vec outcome ↔
        outcome = some (gate.handler, top.as_u64 - 8 * frame_words vec) := by
  have hslot : field gate.stack_index = index + 1 := by
    rw [hindex]
    exact hfield index (loaded_stack hgate hindex).1
  obtain ⟨tss', htss', htops⟩ := hplaced.init
  obtain rfl := Except.ok.inj (htss.symm.trans htss')
  obtain ⟨top, htop, hat⟩ := htops (index + 1) (Nat.succ_pos index) hle
  obtain ⟨haligned, hpush⟩ :=
    slot_pushes h hplaced (Nat.succ_pos index) hle htop (frame_words_le vec)
  have hstack : stack_for field tss gate rsp = top.as_u64 := by
    rw [stack_for, hslot, if_neg (Nat.succ_ne_zero index), hat]
    exact haligned
  refine ⟨top, htop, fun outcome => ?_⟩
  rw [delivers_of_pushes hgate (hstack ▸ hpush), hstack]

-- The page fault's pointer is the first one that no slot fills.
theorem page_fault_faults (hfield : CountsFromZero field) (rsp : Nat) (h : KernelHalf L s)
    (htss : Gdt.init base = .ok tss) :
    Faults s (stack_for field tss ⟨.on_page_fault, some Gdt.ist.PAGE_FAULT⟩ rsp)
      (frame_words 0x0E) := by
  have hlast : Gdt.ist.COUNT ≤ Gdt.ist.PAGE_FAULT := by decide
  have hnull : stack_for field tss ⟨.on_page_fault, some Gdt.ist.PAGE_FAULT⟩ rsp = 0 := by
    rw [stack_for, hfield Gdt.ist.PAGE_FAULT (by decide), if_neg (by decide),
      Nat.add_sub_cancel, Gdt.init_rest htss hlast]
    rfl
  rw [hnull]
  exact null_faults h (by decide)

end Delivery

-- The stacks of the exceptions on every image, with the boot map hardened or not, if the crate
-- counts its stack indices from 0. NMI, double fault and machine check are each one slot further
-- than their constant says, on a stack that is there. The page fault is past the last one: its
-- pointer is null, the frame does not go in, and it is `on_double_fault` that runs, also for any
-- other vector whose frame hits a page that cannot be written.
theorem page_fault_is_double_fault (field : Option Nat → Nat) (hfield : CountsFromZero field)
    (L : Boot.Layout) (mem : Mem Nat Nat Nat) (supply : List Nat) (nx : Bool)
    (hfresh : Fresh L supply) (info : VmmInfo) (s₀ s : State) (n : Nat)
    (hinit : Memory.Vmm.init (booted L mem supply nx) L.symbols = .ok (info, s₀))
    (hs : s = s₀ ∨ harden_boot_map s₀ = .ok (n, s)) (base : Nat) (hplaced : Gdt.Placed L base)
    (rsp : Nat) :
    ∃ tss, Gdt.init base = .ok tss ∧
      (∀ vec gate index, loaded vec = some gate → gate.stack_index = some index → vec ≠ 0x0E →
        ∃ top, Gdt.ist_stack_top base (index + 1) = .ok top ∧
          ∀ outcome, Delivers field s tss rsp vec outcome ↔
            outcome = some (gate.handler, top.as_u64 - 8 * frame_words vec)) ∧
      ∃ top, Gdt.ist_stack_top base (Gdt.ist.DOUBLE_FAULT + 1) = .ok top ∧
        (∀ outcome, Delivers field s tss rsp 0x0E outcome ↔
          outcome = some (.on_double_fault, top.as_u64 - 48)) ∧
        ∀ vec gate, loaded vec = some gate → vec ≠ 0x08 →
          Faults s (stack_for field tss gate rsp) (frame_words vec) →
          ∀ outcome, Delivers field s tss rsp vec outcome ↔
            outcome = some (.on_double_fault, top.as_u64 - 48) := by
  have h := running_kernelHalf hfresh hinit hs
  obtain ⟨tss, htss, -⟩ := hplaced.init
  have hdouble : loaded 0x08 = some ⟨.on_double_fault, some Gdt.ist.DOUBLE_FAULT⟩ := by decide
  have hpage : loaded 0x0E = some ⟨.on_page_fault, some Gdt.ist.PAGE_FAULT⟩ := by decide
  obtain ⟨top, htop, hends⟩ :=
    delivers_on_slot hfield rsp h hplaced htss hdouble rfl (by decide)
  have hfault : ∀ outcome, Delivers field s tss rsp 0x0E outcome ↔
      outcome = some (.on_double_fault, top.as_u64 - 48) := fun outcome =>
    (delivers_of_faults hpage (page_fault_faults hfield rsp h htss) (by decide)).trans
      (hends outcome)
  refine ⟨tss, htss, fun vec gate index hgate hindex hvec => ?_, top, htop, hfault,
    fun vec gate hgate hvec hfails outcome => ?_⟩
  · exact delivers_on_slot hfield rsp h hplaced htss hgate hindex
      ((loaded_stack hgate hindex).2.resolve_left hvec)
  · by_cases heq : vec = 0x0E
    · rw [heq]
      exact hfault outcome
    · rw [delivers_of_faults hgate hfails hvec, if_neg heq]
      exact hfault outcome

-- The field of a crate that counts from 0.
def stack_field : Option Nat → Nat
  | none => 0
  | some index => index + 1

-- On the small image a page fault ends on the stack that was meant for the NMI.
theorem page_fault_is_double_fault_small :
    ∃ info s tss top, Memory.Vmm.init small_boot small_layout.symbols = .ok (info, s) ∧
      Gdt.init Gdt.small_stacks = .ok tss ∧
      Gdt.ist_stack_top Gdt.small_stacks Gdt.ist.NMI = .ok top ∧
      Delivers stack_field s tss 0 0x0E (some (.on_double_fault, top.as_u64 - 48)) := by
  obtain ⟨info, s, hinit⟩ := small_returns
  obtain ⟨tss, htss, -, top, htop, hfault, -⟩ := page_fault_is_double_fault stack_field
    (fun _ _ => rfl) _ _ _ _ small_fresh info s s 0 hinit (.inl rfl) _
    Gdt.small_stacks_placed 0
  exact ⟨info, s, tss, top, hinit, htss, htop, (hfault _).mpr rfl⟩

end Orin.Interrupts
