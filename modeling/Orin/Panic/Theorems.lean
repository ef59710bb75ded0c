import Orin.Memory.Pmm.Theorems
import Orin.Panic

namespace Orin.Panic

open Console Drivers Multiboot Theory Theory.Prog

-- The locks a full report asks for: the heap's for one formatted string, then either
-- those of the subsystems it describes or, if the heap is exhausted, those of a record.
def report_locks (s : Kernel) : Finset Lock :=
  match s.refused with
  | none => {.ALLOCATOR, .PMM, .STATE, .CONFIG}
  | some _ => {.ALLOCATOR} ∪ Log.log_locks s.config .Critical

-- The locks the handler asks for when it is entered in `s`.
def panic_locks (s : Kernel) : Finset Lock := if s.panicking then ∅ else report_locks s

-- The report was closed and the configured action announced.
def Reported (s s' : Kernel) : Prop :=
  ∃ lines, s'.raw = s.raw ++ lines ++ ["ORIN-PANIC-END", action_line s.panic_action]

-- Only lines of the report were added.
structure Printed (s s' : Kernel) : Prop where
  raw : ∃ lines, s'.raw = s.raw ++ lines
  panic_action : s'.panic_action = s.panic_action

theorem Printed.refl (s : Kernel) : Printed s s := ⟨⟨[], by simp⟩, rfl⟩

theorem Printed.trans {s₁ s₂ s₃ : Kernel} (h₁ : Printed s₁ s₂) (h₂ : Printed s₂ s₃) :
    Printed s₁ s₃ := by
  obtain ⟨first, hfirst⟩ := h₁.raw
  obtain ⟨second, hsecond⟩ := h₂.raw
  exact ⟨⟨first ++ second, by rw [hsecond, hfirst, List.append_assoc]⟩,
    h₂.panic_action.trans h₁.panic_action⟩

theorem Printed.reported {s₁ s₂ s₃ : Kernel} (h : Printed s₁ s₂) (hreport : Reported s₂ s₃) :
    Reported s₁ s₃ := by
  obtain ⟨first, hfirst⟩ := h.raw
  obtain ⟨second, hsecond⟩ := hreport
  exact ⟨first ++ second, by rw [hsecond, hfirst, h.panic_action, List.append_assoc s₁.raw]⟩

theorem raw_lines_does (lines : List String) (s : Kernel) :
    Does (raw_lines lines) s ∅ () { s with raw := s.raw ++ lines } := Does.modify _ s

theorem printed_lines (lines : List String) (s : Kernel) :
    Printed s { s with raw := s.raw ++ lines } := ⟨⟨lines, rfl⟩, rfl⟩

theorem closing_stops (s : Kernel) : ∃ s', Stops closing s ∅ s' ∧ Reported s s' := by
  refine ⟨_, (raw_lines_does _ s).free_stops ((Does.get Kernel.panic_action _).free_stops
    ((raw_lines_does _ _).free_stops (Stops.halt _))), [], ?_⟩
  simp

theorem recursive_stops (s : Kernel) : ∃ s', Stops recursive s ∅ s' ∧ Reported s s' := by
  obtain ⟨s', hclose, hreport⟩ := closing_stops
    { s with raw := s.raw ++ ["ORIN|P|RECURSIVE|panic handler panicked; halting"] }
  exact ⟨s', (raw_lines_does _ s).free_stops hclose, (printed_lines _ s).reported hreport⟩

-- A part of the report that asks for the same locks wherever it starts.
def Prints {α : Type} (locks : Finset Lock) (c : KProg α) : Prop :=
  ∀ s, ∃ a s', Does c s locks a s' ∧ Printed s s'

theorem Prints.bind {α β : Type} {locks locks₁ locks₂ : Finset Lock} {c : KProg α}
    {f : α → KProg β} (hc : Prints locks₁ c) (hf : ∀ a, Prints locks₂ (f a))
    (hlocks : locks₁ ∪ locks₂ = locks) : Prints locks (c >>= f) := by
  intro s
  obtain ⟨a, s₁, hdoes₁, hprint₁⟩ := hc s
  obtain ⟨b, s₂, hdoes₂, hprint₂⟩ := hf a s₁
  exact ⟨b, s₂, hdoes₁.bind hdoes₂ hlocks, hprint₁.trans hprint₂⟩

theorem Prints.free_bind {α β : Type} {locks : Finset Lock} {c : KProg α} {f : α → KProg β}
    (hc : Prints ∅ c) (hf : ∀ a, Prints locks (f a)) : Prints locks (c >>= f) :=
  hc.bind hf (Finset.empty_union locks)

theorem prints_lines (lines : List String) : Prints ∅ (raw_lines lines) :=
  fun s => ⟨(), _, raw_lines_does lines s, printed_lines lines s⟩

theorem prints_get {α : Type} (f : Kernel → α) : Prints ∅ (get f) :=
  fun s => ⟨_, s, Does.get f s, .refl s⟩

theorem prints_locked_get {α : Type} (l : Lock) (f : Kernel → α) : Prints {l} (locked l (get f)) :=
  fun s => ⟨_, s, (Does.get f s).locked rfl, .refl s⟩

theorem prints_keyboard_line : Prints {.STATE} keyboard_line := by
  apply (prints_locked_get .STATE _).bind _ (Finset.union_self _)
  intro presence
  apply (prints_locked_get .STATE _).bind _ (Finset.union_empty _)
  intro events
  apply (prints_get _).free_bind
  intro pending
  apply (prints_get _).free_bind
  intro dropped s
  exact ⟨_, s, Does.pure _ s, .refl s⟩

theorem prints_subsystem_state (n : Nat) :
    Prints {.PMM, .STATE, .CONFIG} (subsystem_state n) := by
  -- The allocator is locked twice, so the first time its lock stays among the rest.
  apply (prints_locked_get .PMM _).bind _ (Finset.union_eq_right.mpr (by simp))
  intro initialised
  apply (prints_lines _).free_bind
  intro _
  apply (prints_locked_get .PMM _).bind _ (Finset.insert_eq _ _).symm
  intro ps
  apply (prints_lines _).free_bind
  intro _
  apply (prints_get _).free_bind
  intro hs
  apply (prints_lines _).free_bind
  intro _
  apply (prints_get _).free_bind
  intro c
  apply (prints_lines _).free_bind
  intro _
  apply prints_keyboard_line.bind _ (Finset.insert_eq _ _).symm
  intro keyboard
  apply (prints_lines _).free_bind
  intro _
  apply (prints_locked_get .CONFIG _).bind _ (Finset.union_empty _)
  intro log
  apply (prints_lines _).free_bind
  intro _
  exact prints_lines _

section Report

variable {again : KProg Empty}

-- Entered while a report is under way, the handler closes it without any lock.
def Closes (again : KProg Empty) : Prop :=
  ∀ s, s.panicking = true → ∃ s', Stops again s ∅ s' ∧ Reported s s'

theorem allocate_does (s : Kernel) :
    Does (locked Lock.ALLOCATOR (get Kernel.refused)) s {.ALLOCATOR} s.refused s :=
  (Does.get Kernel.refused s).locked rfl

theorem format_control_served (again : KProg Empty) (regs : Regs) {s : Kernel} (h : s.refused = none) :
    Does (format_control again regs) s {.ALLOCATOR} regs.control s := by
  refine (allocate_does s).bind ?_ (Finset.union_empty _)
  rw [h]
  exact Does.pure _ s

theorem format_control_refused (hagain : Closes again) (regs : Regs) {s : Kernel} {layout : Layout}
    (h : s.refused = some layout) (hpanicking : s.panicking = true) :
    ∃ s', Stops (format_control again regs) s (report_locks s) s' ∧ Reported s s' := by
  obtain ⟨s₁, hlog, hlogged⟩ := Log.log_does .Critical "orin_kernel::memory::heap"
    ("kernel heap exhausted: requested " ++ toString layout.size ++ " bytes (align " ++
      toString layout.align ++ ") with " ++ toString s.heap.size ++ " byte heap at " ++
      Rust.hex s.heap.base) s
  obtain ⟨s₂, hstop, hreport⟩ := hagain s₁ (hlogged.panicking.trans hpanicking)
  have hoom : Does (oom layout) s (Log.log_locks s.config .Critical) () s₁ :=
    (Does.get Kernel.heap s).free_bind hlog
  have hprint : Printed s s₁ := ⟨⟨[], by rw [hlogged.raw, List.append_nil]⟩, hlogged.panic_action⟩
  have hlocks : {.ALLOCATOR} ∪ Log.log_locks s.config .Critical = report_locks s := by
    rw [report_locks, h]
  refine ⟨s₂, (allocate_does s).stops ?_ hlocks, hprint.reported hreport⟩
  rw [h]
  exact hoom.stops hstop.bind (Finset.union_empty _)

theorem report_stops (hagain : Closes again) (info : PanicInfo) (n : Nat) {s : Kernel}
    (hpanicking : s.panicking = true) :
    ∃ s', Stops (report again info n) s (report_locks s) s' ∧ Reported s s' := by
  have hheading := raw_lines_does (heading info) s
  have hprint := printed_lines (heading info) s
  set s₁ : Kernel := { s with raw := s.raw ++ heading info }
  cases hrefused : s.refused with
  | none =>
      have hcontrol := format_control_served again info.regs (s := s₁) hrefused
      obtain ⟨_, s₂, hstate, hprint₂⟩ := prints_subsystem_state n
        { s₁ with raw := s₁.raw ++ origin info.regs info.regs.control }
      obtain ⟨s₃, hclose, hreport⟩ := closing_stops s₂
      have hprint₁ := (hprint.trans (printed_lines (origin info.regs info.regs.control) s₁)).trans hprint₂
      refine ⟨s₃, hheading.free_stops (hcontrol.stops ((raw_lines_does _ s₁).free_stops
        (hstate.stops hclose (Finset.union_empty _))) ?_), hprint₁.reported hreport⟩
      rw [report_locks, hrefused]
      rfl
  | some layout =>
      obtain ⟨s₂, hstop, hreport⟩ := format_control_refused hagain info.regs (s := s₁) hrefused
        hpanicking
      exact ⟨s₂, hheading.free_stops hstop.bind, hprint.reported hreport⟩

-- The handler counts itself, raises the flag and then takes one of its two ways.
def entered (s : Kernel) : Kernel := { s with panic_count := s.panic_count + 1, panicking := true }

theorem panic_stops_of {depth : Nat} {info : PanicInfo} {s s' : Kernel} {locks : Finset Lock}
    (h : Stops (if s.panicking then recursive
      else report (panic depth { info with message := "kernel out of memory" }) info
        (s.panic_count + 1)) (entered s) locks s') :
    Stops (panic (depth + 1) info) s locks s' := by
  apply (Does.modify _ s).free_stops
  apply (Does.get Kernel.panic_count _).free_stops
  apply (Does.get Kernel.panicking _).free_stops
  exact (Does.modify _ _).free_stops h

theorem panic_closes (depth : Nat) (info : PanicInfo) : Closes (panic (depth + 1) info) := by
  intro s hpanicking
  obtain ⟨s', hstop, hreport⟩ := recursive_stops (entered s)
  refine ⟨s', panic_stops_of ?_, hreport⟩
  rw [hpanicking]
  exact hstop

theorem panic_stops (depth : Nat) (info : PanicInfo) (s : Kernel) :
    ∃ s', Stops (panic (depth + 2) info) s (panic_locks s) s' ∧ Reported s s' := by
  unfold panic_locks
  cases hpanicking : s.panicking with
  | true => exact panic_closes (depth + 1) info s hpanicking
  | false =>
      obtain ⟨s', hstop, hreport⟩ := report_stops
        (panic_closes depth { info with message := "kernel out of memory" }) info
        (s.panic_count + 1) (s := entered s) rfl
      refine ⟨s', panic_stops_of ?_, hreport⟩
      rw [hpanicking]
      exact hstop

end Report

-- Every lock the handler can ever take.
def PANIC_LOCKS : Finset Lock := {.ALLOCATOR, .PMM} ∪ Keyboard.INPUT_LOCKS

theorem locked_get_within {α : Type} {l : Lock} (f : Kernel → α) (hl : l ∈ PANIC_LOCKS) :
    Within PANIC_LOCKS (locked l (get f)) := (Within.get f).locked_free hl

theorem closing_within : Within PANIC_LOCKS closing := by
  apply (Within.modify _).bind
  intro _
  apply (Within.get _).bind
  intro configured
  apply (Within.modify _).bind
  intro _
  exact Within.halt

theorem keyboard_line_within : Within PANIC_LOCKS keyboard_line := by
  apply (locked_get_within _ (by decide)).bind
  intro presence
  apply (locked_get_within _ (by decide)).bind
  intro events
  apply (Within.get _).bind
  intro pending
  apply (Within.get _).bind
  intro dropped
  exact Within.pure _

theorem subsystem_state_within (n : Nat) : Within PANIC_LOCKS (subsystem_state n) := by
  apply (locked_get_within _ (by decide)).bind
  intro initialised
  apply (Within.modify _).bind
  intro _
  apply (locked_get_within _ (by decide)).bind
  intro ps
  apply (Within.modify _).bind
  intro _
  apply (Within.get _).bind
  intro hs
  apply (Within.modify _).bind
  intro _
  apply (Within.get _).bind
  intro c
  apply (Within.modify _).bind
  intro _
  apply keyboard_line_within.bind
  intro keyboard
  apply (Within.modify _).bind
  intro _
  apply (locked_get_within _ (by decide)).bind
  intro log
  apply (Within.modify _).bind
  intro _
  exact Within.modify _

theorem format_control_within {again : KProg Empty} (hagain : Within PANIC_LOCKS again)
    (regs : Regs) : Within PANIC_LOCKS (format_control again regs) := by
  apply (locked_get_within _ (by decide)).bind
  intro refused
  cases refused with
  | none => exact Within.pure _
  | some layout =>
      have hlog : Within PANIC_LOCKS (oom layout) :=
        (Within.get _).bind fun _ => (Log.log_within _ _ _).mono (by decide)
      apply hlog.bind
      intro _
      apply hagain.bind
      intro never
      exact never.elim

theorem report_within {again : KProg Empty} (hagain : Within PANIC_LOCKS again) (info : PanicInfo)
    (n : Nat) : Within PANIC_LOCKS (report again info n) := by
  apply (Within.modify _).bind
  intro _
  apply (format_control_within hagain info.regs).bind
  intro control
  apply (Within.modify _).bind
  intro _
  apply (subsystem_state_within n).bind
  intro _
  exact closing_within

theorem panic_within (depth : Nat) (info : PanicInfo) : Within PANIC_LOCKS (panic depth info) := by
  induction depth generalizing info with
  | zero => exact Within.halt
  | succ depth ih =>
      apply (Within.modify _).bind
      intro _
      apply (Within.get _).bind
      intro n
      apply (Within.get _).bind
      intro panicking
      apply (Within.modify _).bind
      intro _
      cases panicking with
      | true => exact (Within.modify _).bind fun _ => closing_within
      | false => exact report_within (ih _) info n

-- Entered with `held` already taken, the handler gets to the end of its report and to
-- the configured action exactly when it needs none of those locks.
theorem panic_reports_iff (depth : Nat) (info : PanicInfo) (held : Finset Lock) (s : Kernel) :
    (∃ s', (panic (depth + 2) info).code.run held s = .halted s' ∧ Reported s s') ↔
      Disjoint held (panic_locks s) := by
  have hbal := (panic_within (depth + 2) info).balanced
  obtain ⟨s', hstop, hreport⟩ := panic_stops depth info s
  by_cases hd : Disjoint held (panic_locks s)
  · exact ⟨fun _ => hd, fun _ => ⟨s', hstop.run_of_disjoint hbal hd, hreport⟩⟩
  · obtain ⟨l, -, s₁, hrun⟩ := hstop.run_of_not_disjoint hbal hd
    refine ⟨fun ⟨s₂, hhalt, _⟩ => ?_, fun hfree => absurd hfree hd⟩
    rw [Prog.code, hrun] at hhalt
    cases hhalt

-- A panic of the frame allocator itself is never reported while the heap serves.
theorem pmm_call_waits {α : Type} {describe : Rust.Panic → PanicInfo}
    {op : Memory.Pmm.State → Except Rust.Panic (α × Memory.Pmm.State)} {s : Kernel}
    {stop : Rust.Panic} (hop : op s.pmm = .error stop) (hfirst : s.panicking = false)
    (hheap : s.refused = none) :
    ∃ s', (pmm_call describe op).code.run ∅ s = .waits .PMM s' := by
  obtain ⟨s', hstop, -⟩ := panic_stops 0 (describe stop) s
  have htaken : ¬ Disjoint {Lock.PMM} (panic_locks s) := by
    simp [panic_locks, hfirst, report_locks, hheap]
  -- Nothing follows the handler, so its continuation is balanced for want of a value.
  have hwaits (next : Empty → Code Lock Kernel) :
      ∃ s₁, (panic 2 (describe stop) next).run {.PMM} s = .waits .PMM s₁ := by
    have hbal := panic_within 2 (describe stop) ∅ next (Finset.disjoint_empty_left _)
      fun never => never.elim
    obtain ⟨l, hl, s₁, hrun⟩ := hstop.run_of_not_disjoint hbal htaken
    obtain rfl := Finset.mem_singleton.mp hl
    exact ⟨s₁, hrun⟩
  simp only [pmm_call, Prog.code, locked, Code.run, Finset.notMem_empty, if_false]
  simp only [bind, Prog.get, Code.run, hop]
  exact hwaits _

-- Freeing a free frame hangs the machine in the middle of its own report.
theorem double_free_hangs :
    ∃ start, Memory.Pmm.System.boot (fun _ => 0) Memory.Pmm.one_frame = .ok start ∧
      start.pmm.deallocate_frame false (.ofIndex 1) =
        .error (.explicit "pmm: double free of frame 1 (0x1000)") ∧
      ∀ describe, ∃ s', (pmm_call describe fun p =>
        (p.deallocate_frame false (.ofIndex 1)).map ((), ·)).code.run ∅
          { Kernel.booted with pmm := start.pmm } = .waits .PMM s' := by
  obtain ⟨start, L, hboot, hbooks, hfree, -, -⟩ := Memory.Pmm.boot_one_frame fun _ => 0
  have hmessage : Memory.Pmm.double_free 1 (1 * Memory.Pmm.FRAME_SIZE) =
      "pmm: double free of frame 1 (0x1000)" := by decide +kernel
  have hstop := hbooks.deallocate_free false (f := 1) (by simp [hfree])
  rw [hmessage] at hstop
  have hcall : (start.pmm.deallocate_frame false (.ofIndex 1)).map ((), ·) =
      .error (.explicit "pmm: double free of frame 1 (0x1000)") := by
    rw [hstop]
    rfl
  exact ⟨start, hboot, hstop, fun describe => pmm_call_waits hcall rfl rfl⟩

end Orin.Panic
