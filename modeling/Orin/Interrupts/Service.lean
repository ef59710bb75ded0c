import Orin.Interrupts.Lines
import Orin.Theory.Guard

namespace Orin.Interrupts.Service

open Rust Console Theory Theory.Prog Pic

-- What the main context is given to do: one of the module's calls, or other kernel code.
inductive Call where
  | mask (irq : Line)
  | unmask (irq : Line)
  | other (program : KProg Unit)

def Call.program : Call → KProg Unit
  | .mask irq => Pic.mask irq
  | .unmask irq => Pic.unmask irq
  | .other program => program

-- Other code takes and returns its locks in order, and leaves the controllers alone.
def Call.Behaves : Call → Prop
  | .other program => program.code.Balanced ∅ ∧ program.code.Spares Kernel.pic
  | _ => True

-- What can happen next: a line rises or falls, the processor takes an interrupt, or the main
-- context starts on a call or goes one step further in it.
inductive Happening where
  | raise (irq : Line)
  | lower (irq : Line)
  | interrupt (signal : Signal) (a : Arrival)
  | call (c : Call)
  | proceed

inductive Stop where
  | panics (p : Panic)
  | stuck (reason : Stuck Lock)

abbrev Machine := Core Lock Kernel

-- The controllers as the acknowledge cycle leaves them, under the same code.
def acknowledged (m : Machine) (signal : Signal) : Machine :=
  ⟨m.code, m.held, m.state.withPic
    { m.state.pic with pair := (m.state.pic.pair.acknowledge_stray signal).2 }⟩

-- Interrupt gates keep further interrupts out until the handler is done.
def interrupt (m : Machine) (signal : Signal) (a : Arrival) :
    Except Stop (Option UInt8 × Machine) :=
  let vec := (m.state.pic.pair.acknowledge_stray signal).1
  match (idt vec).serve a with
  | .error p => .error (.panics p)
  | .ok handler =>
      match serve handler.code (acknowledged m signal) with
      | .error reason => .error (.stuck reason)
      | .ok m' => .ok (some vec, m')

def step (m : Machine) : Happening → Except Stop (Option UInt8 × Machine)
  | .raise irq => .ok (none, ⟨m.code, m.held, m.state.withPic (m.state.pic.raise irq)⟩)
  | .lower irq => .ok (none, ⟨m.code, m.held, m.state.withPic (m.state.pic.lower irq)⟩)
  | .interrupt signal a => interrupt m signal a
  | .call c => .ok (none, ⟨c.program.code, m.held, m.state⟩)
  | .proceed =>
      match advance .done m with
      | .error reason => .error (.stuck reason)
      | .ok m' => .ok (none, m')

-- A call starts when the one before it has returned. Interrupts may come at every step of it.
def possible (m : Machine) : Happening → Prop
  | .interrupt signal _ => m.state.pic.pair.signals signal
  | .call c => m.code = .done ∧ c.Behaves
  | _ => True

-- `interrupts::init` as far as the controllers go, and the keyboard's line once more from
-- `kmain`. Interrupts are still off.
def lines_up : KProg Unit := do
  Pic.remap
  Pic.unmask TIMER
  Pic.unmask KEYBOARD
  Pic.unmask KEYBOARD

def boot (s : Kernel) : Machine := ⟨.done, ∅, lines_up.code.final s⟩

theorem boot_eq (s : Kernel) : boot s = ⟨.done, ∅, (boot s).state⟩ := by
  simp only [boot]

theorem boot_pic (s : Kernel) : (boot s).state.pic =
    ⟨BOOT_MASKS, true, standing BOOT_MASKS idle idle idle idle, s.pic.levels⟩ := by
  obtain ⟨s₁, hremap, hpic₁⟩ := Pic.remap_does s
  obtain ⟨s₂, htimer, hpic₂⟩ := Pic.unmask_does s₁ TIMER
  obtain ⟨s₃, hkeyboard, hpic₃⟩ := Pic.unmask_does s₂ KEYBOARD
  obtain ⟨s₄, hagain, hpic₄⟩ := Pic.unmask_does s₃ KEYBOARD
  have hup : Does lines_up s _ () s₄ :=
    hremap.bind (htimer.bind (hkeyboard.bind hagain rfl) rfl) rfl
  have hfinal : (lines_up fun _ => .done).final s = s₄ := hup.final_eq fun _ => .done
  simp only [boot, Prog.code]
  rw [hfinal, hpic₄, hpic₃, hpic₂, hpic₁, initialised_standing, unmasked_boot]

section Logging

variable {ν : Type} {view : Kernel → ν}

-- A view that shows no more of the kernel than the controllers, their record and the lines.
def OfPic (view : Kernel → ν) : Prop := ∀ s s' : Kernel, s'.pic = s.pic → view s' = view s

theorem accept_spares (hview : OfPic view) (level : Orin.Log.Level) :
    Spares view (Log.accept level) := by
  apply Spares.locked
  apply (Spares.get Kernel.config).bind
  intro c
  refine Spares.bind (Spares.modify ?_) fun _ => Spares.pure _
  exact fun s => hview s _ rfl

theorem micros_spares : Spares view Pit.micros_since_boot := by
  apply (Spares.get Kernel.enabled).locked.bind
  intro enabled
  cases enabled with
  | true => exact (Spares.get Kernel.ticks).bind fun _ => Spares.pure _
  | false => exact Spares.pure 0

theorem write_serial_spares (hview : OfPic view) (record : Output) :
    Spares view (Log.write_serial record) :=
  Spares.locked (Spares.modify fun s => hview s _ rfl)

theorem write_vga_spares (hview : OfPic view) (record : Output) :
    Spares view (Log.write_vga record) :=
  Spares.locked (Spares.modify fun s => hview s _ rfl)

theorem log_spares (hview : OfPic view) (level : Orin.Log.Level) (subsys message : String) :
    Spares view (Log.log level subsys message) := by
  apply (accept_spares hview level).bind
  intro accepted
  cases accepted with
  | none => exact Spares.pure ()
  | some target =>
      apply micros_spares.bind
      intro ts
      apply ((write_serial_spares hview _).onlyIf _).bind
      intro _
      exact (write_vga_spares hview _).onlyIf _

end Logging

section Locking

-- The record and the controllers agree.
def Settled (st : State) : Prop := Calm st.masks st.pair

-- What `MASKS` stands for. Whoever has it may count on the record and on the masks in force; to
-- everyone else they agree. Nothing is in service either way.
def surroundings : Bool → Setting Unit Kernel
  | true =>
      { rely := fun w w' => w'.2.pic.masks = w.2.pic.masks ∧
          ∀ force, Calm force w.2.pic.pair → Calm force w'.2.pic.pair
        always := fun w => ∃ force, Calm force w.2.pic.pair
        resting := fun _ => True }
  | false =>
      { rely := fun _ w' => Settled w'.2.pic
        always := fun w => Settled w.2.pic
        resting := fun _ => True }

theorem always_stable (own : Bool) : (surroundings own).Stable (surroundings own).always := by
  cases own with
  | true => exact ⟨fun _ _ ⟨force, h⟩ hstep => ⟨force, hstep.2 force h⟩, fun _ h => h⟩
  | false => exact ⟨fun _ _ _ hstep => hstep, fun _ h => h⟩

theorem settled_stable (own : Bool) : (surroundings own).Stable fun w => Settled w.2.pic := by
  cases own with
  | true =>
      refine ⟨fun w w' h hstep => ?_, fun _ h => ⟨_, h⟩⟩
      show Calm w'.2.pic.masks w'.2.pic.pair
      rw [hstep.1]
      exact hstep.2 _ h
  | false => exact ⟨fun _ _ _ hstep => hstep, fun _ h => h⟩

-- The record is one change ahead of the controllers.
def Ahead (f : Masks → Masks) (st : State) : Prop :=
  ∃ force, st.masks = f force ∧ Calm force st.pair

theorem ahead_stable (f : Masks → Masks) :
    (surroundings true).Stable fun w => Ahead f w.2.pic := by
  constructor
  · rintro w w' ⟨force, hmasks, hcalm⟩ hstep
    exact ⟨force, hstep.1.trans hmasks, hstep.2 force hcalm⟩
  · rintro w ⟨force, -, hcalm⟩
    exact ⟨force, hcalm⟩

theorem ahead_read_stable (f : Masks → Masks) (masks : Masks) :
    (surroundings true).Stable fun w => Ahead f w.2.pic ∧ w.2.pic.masks = masks := by
  refine ⟨fun w w' h hstep => ?_, fun w h => (ahead_stable f).2 w h.1⟩
  exact ⟨(ahead_stable f).1 w w' h.1 hstep, hstep.1.trans h.2⟩

theorem store_secures {f : Masks → Masks} {irq : Line} (hf : Covers f irq) :
    Secures .MASKS surroundings true (fun w => Settled w.2.pic) (store f irq)
      fun _ w => Settled w.2.pic := by
  apply Secures.bind (Secures.modify (settled_stable true) fun w hw => ?_)
  · intro _
    apply Secures.bind (Secures.get (ahead_stable f) fun s => s.pic.masks)
    intro masks
    apply Secures.bind (Secures.modify (ahead_read_stable f masks) fun w hw => ?_)
    · intro _
      exact Secures.modify (settled_stable true) fun w hw => hw
    · -- the byte written is the one the record now has for the line
      obtain ⟨⟨force, hforce, irr, irr', hpair⟩, rfl⟩ := hw
      refine ⟨irr, irr', ?_⟩
      show (w.2.pic.pair.write _ _) = standing w.2.pic.masks idle idle irr irr'
      rw [hpair, hforce, write_standing force idle idle irr irr' hf]
  · exact ⟨w.2.pic.masks, rfl, hw⟩

theorem spares_guards {code : Code Lock Kernel} {own : Bool} {w : Unit × Kernel}
    (h : code.Spares Kernel.pic) (hw : Settled w.2.pic) :
    code.Guards .MASKS surroundings own w := h.guards (P := Settled) settled_stable hw

theorem mask_guards (irq : Line) {w : Unit × Kernel} (hw : Settled w.2.pic) :
    (Pic.mask irq).code.Guards .MASKS surroundings false w := by
  refine Secures.locked (settled_stable false) (fun w hw => ?_) hw
  refine store_secures (closed_covers irq) _ (fun _ w hw => ?_) w hw
  exact spares_guards trivial hw

theorem unmask_guards (irq : Line) {w : Unit × Kernel} (hw : Settled w.2.pic) :
    (Pic.unmask irq).code.Guards .MASKS surroundings false w := by
  refine Secures.locked (settled_stable false) (fun w hw => ?_) hw
  have hcascade := (store_secures (cleared_covers CASCADE)).onlyIf (decide (8 ≤ irq))
  refine hcascade _ (fun _ w hw => ?_) w hw
  refine store_secures (cleared_covers irq) _ (fun _ w hw => ?_) w hw
  exact spares_guards (log_spares (fun _ _ h => h) _ _ _ _ fun _ => trivial) hw

end Locking

section Requests

-- The requests the controllers have noted, and the lines.
def asked (s : Kernel) : (Line → Bool) × (Line → Bool) := (s.pic.pair.wants, s.pic.levels)

theorem asked_ofPic : OfPic asked := by
  intro s s' h
  rw [asked, asked, h]

theorem data_irr (c : Chip) (b : UInt8) : (c.data b).irr = c.irr := by
  unfold Chip.data
  split <;> rfl

theorem wants_data_port (p : Pair) (irq : Line) (b : UInt8) :
    (p.write irq.data_port b).wants = p.wants := by
  funext l
  by_cases hirq : irq < 8
  · have hport : irq.data_port = MASTER_DATA := if_pos hirq
    rw [hport, write_master_data]
    simp only [Pair.wants, data_irr]
  · have hport : irq.data_port = SLAVE_DATA := if_neg hirq
    rw [hport, write_slave_data]
    simp only [Pair.wants, data_irr]

theorem store_spares (f : Masks → Masks) (irq : Line) : Spares asked (store f irq) := by
  refine Spares.bind (Spares.modify ?_) fun _ => Spares.bind (Spares.get _) fun masks => ?_
  · exact fun _ => rfl
  · refine Spares.bind (Spares.modify ?_) fun _ => Spares.modify fun _ => rfl
    exact fun s => congrArg (·, s.pic.levels) (wants_data_port _ irq _)

-- Opening and closing lines takes no request away.
theorem call_spares {c : Call} (h : c.Behaves) : c.program.code.Spares asked := by
  cases c with
  | mask irq => exact (store_spares _ irq).locked.code
  | unmask irq =>
      refine (Spares.locked ?_).code
      apply ((store_spares _ CASCADE).onlyIf _).bind
      intro _
      apply (store_spares _ irq).bind
      intro _
      exact log_spares asked_ofPic _ _ _
  | other program => exact h.2.coarser fun st => (st.pair.wants, st.levels)

end Requests

section Interrupts

variable {m m' : Machine} {force : Masks} {signal : Signal} {irq : Line} {a : Arrival}
  {answer : Option UInt8}

theorem locks_acknowledged (irq : Line) (a : Arrival) (m : Machine) (signal : Signal) :
    irq.locks a (acknowledged m signal).state = irq.locks a m.state := by
  simp only [Line.locks, irq_locks, Pit.ticked_ticks]
  rfl

theorem interrupt_eq (ht : Taken force m.state.pic.pair signal irq) :
    interrupt m signal a = match serve (irq.handler a).code (acknowledged m signal) with
      | .error reason => .error (.stuck reason)
      | .ok m' => .ok (some (vector_for_irq irq), m') := by
  simp only [interrupt, ht.vector, serve_irq]

theorem interrupt_returns (ht : Taken force m.state.pic.pair signal irq)
    (hfree : Disjoint m.held (irq.locks a m.state)) :
    ∃ s', interrupt m signal a = .ok (some (vector_for_irq irq), ⟨wake m.code, m.held, s'⟩) ∧
      s'.pic = (acknowledged m signal).state.pic.service irq := by
  rw [← locks_acknowledged irq a m signal] at hfree
  obtain ⟨s', hdoes, hpic⟩ := handler_does irq a (acknowledged m signal).state
  have hserve := serve_of_finished (c := acknowledged m signal)
    (hdoes.run_of_disjoint (handler_within irq a).balanced hfree)
  exact ⟨s', by rw [interrupt_eq ht, hserve]; rfl, hpic⟩

theorem interrupt_waits (ht : Taken force m.state.pic.pair signal irq)
    (htaken : ¬ Disjoint m.held (irq.locks a m.state)) :
    ∃ l ∈ m.held, interrupt m signal a = .error (.stuck (.waits l)) := by
  rw [← locks_acknowledged irq a m signal] at htaken
  obtain ⟨_, hdoes, -⟩ := handler_does irq a (acknowledged m signal).state
  obtain ⟨l, hl, _, hrun⟩ := hdoes.run_of_not_disjoint (handler_within irq a).balanced htaken
  exact ⟨l, hl, by rw [interrupt_eq ht, serve_of_waits (c := acknowledged m signal) hrun]⟩

theorem locks_other (h : ¬ irq < 3) (a : Arrival) (s : Kernel) : Lock.MASKS ∈ irq.locks a s := by
  have hother : ∀ irq : Line, ¬ irq < 3 → irq ≠ TIMER ∧ irq ≠ KEYBOARD ∧ irq ≠ CASCADE := by decide
  obtain ⟨htimer, hkeyboard, hcascade⟩ := hother irq h
  rw [Line.locks, if_neg htimer, if_neg hkeyboard, if_neg hcascade]
  exact Finset.mem_union_right _ (Finset.mem_singleton_self _)

-- An interrupt that has been served: which line it was for, and what it has left behind.
structure Interrupted (force : Masks) (m : Machine) (signal : Signal) (irq : Line)
    (m' : Machine) : Prop where
  behind : Behind m.state.pic.pair signal irq
  free : Lock.MASKS ∈ m.held → irq < 3
  code : m'.code = wake m.code
  held : m'.held = m.held
  masks : m'.state.pic.masks = m.state.pic.masks.served irq
  calm : Calm (force.served irq) m'.state.pic.pair
  left : Left m.state.pic.pair signal irq m'.state.pic.pair
  levels : m'.state.pic.levels = m.state.pic.levels

theorem interrupted (hcalm : Calm force m.state.pic.pair)
    (hforce : Lock.MASKS ∉ m.held → force = m.state.pic.masks)
    (hsignal : m.state.pic.pair.signals signal)
    (hstep : interrupt m signal a = .ok (answer, m')) :
    ∃ irq, answer = some (vector_for_irq irq) ∧ Interrupted force m signal irq m' := by
  obtain ⟨irq, ht⟩ := interrupt_taken hcalm hsignal
  by_cases hfree : Disjoint m.held (irq.locks a m.state)
  · obtain ⟨s', hreturns, hpic⟩ := interrupt_returns ht hfree
    rw [hstep] at hreturns
    obtain ⟨rfl, rfl⟩ := Prod.mk.inj (Except.ok.inj hreturns)
    have hlow : Lock.MASKS ∈ m.held → irq < 3 := fun hheld => by_contra fun hirq =>
      Finset.disjoint_left.mp hfree hheld (locks_other hirq a m.state)
    have hagree : ¬ irq < 3 → force = m.state.pic.masks := fun hirq =>
      hforce fun hheld => hirq (hlow hheld)
    have hhanded : Handed force irq (acknowledged m signal).state.pic.pair := ht.handed
    obtain ⟨hmasks, hafter, hwants, hlevels⟩ := service_handed hhanded hagree
    rw [← hpic] at hmasks hafter hwants hlevels
    refine ⟨irq, rfl, ht.behind, hlow, rfl, rfl, hmasks, hafter, fun l hl => ?_, hlevels⟩
    rw [hwants]
    exact ht.left l hl
  · obtain ⟨l, -, hwaits⟩ := interrupt_waits ht hfree
    rw [hstep] at hwaits
    cases hwaits

end Interrupts

section Runs

variable {m m' : Machine} {h : Happening} {answer : Option UInt8}

-- Every run keeps to this: the main context uses its locks in order, keeps what `MASKS` stands
-- for, and takes no request away.
structure Orderly (m : Machine) : Prop where
  sound : m.Sound
  guards : m.code.Guards .MASKS surroundings (decide (Lock.MASKS ∈ m.held)) ((), m.state)
  spares : m.code.Spares asked

theorem Orderly.calm (hm : Orderly m) :
    ∃ force, Calm force m.state.pic.pair ∧
      (Lock.MASKS ∉ m.held → force = m.state.pic.masks) := by
  have halways := hm.guards.always
  by_cases hheld : Lock.MASKS ∈ m.held
  · rw [decide_eq_true hheld] at halways
    obtain ⟨force, hcalm⟩ := halways
    exact ⟨force, hcalm, fun hfree => absurd hheld hfree⟩
  · rw [decide_eq_false hheld] at halways
    exact ⟨_, halways, fun _ => rfl⟩

-- What a line does leaves the record and the masks in force alone.
theorem Orderly.line (hm : Orderly m) {st : State} (hmasks : st.masks = m.state.pic.masks)
    (hcalm : ∀ force, Calm force m.state.pic.pair → Calm force st.pair) :
    Orderly ⟨m.code, m.held, m.state.withPic st⟩ := by
  refine ⟨hm.sound, hm.guards.interfere (always_stable _) ?_, hm.spares⟩
  cases hown : decide (Lock.MASKS ∈ m.held) with
  | true => exact ⟨hmasks, hcalm⟩
  | false =>
      have hsettled := hm.guards.always
      rw [hown] at hsettled
      show Calm st.masks st.pair
      rw [hmasks]
      exact hcalm _ hsettled

theorem Orderly.interrupted {force : Masks} {signal : Signal} {irq : Line} (hm : Orderly m)
    (hcalm : Calm force m.state.pic.pair)
    (hforce : Lock.MASKS ∉ m.held → force = m.state.pic.masks)
    (hi : Interrupted force m signal irq m') : Orderly m' := by
  obtain ⟨code, held, s⟩ := m'
  obtain rfl : code = wake m.code := hi.code
  obtain rfl : held = m.held := hi.held
  have hrely : (surroundings (decide (Lock.MASKS ∈ m.held))).rely ((), m.state) ((), s) := by
    by_cases hheld : Lock.MASKS ∈ m.held
    · rw [decide_eq_true hheld]
      have hserved : ∀ masks : Masks, masks.served irq = masks := fun _ => if_pos (hi.free hheld)
      have hafter := hi.calm
      rw [hserved] at hafter
      refine ⟨hi.masks.trans (hserved _), fun force' hcalm' => ?_⟩
      obtain ⟨_, _, hpair⟩ := hcalm
      obtain ⟨_, _, hpair'⟩ := hcalm'
      obtain rfl : force = force' := by
        have himr := hpair.symm.trans hpair'
        exact congrArg (fun p => Masks.mk p.master.imr p.slave.imr) himr
      exact hafter
    · rw [decide_eq_false hheld]
      show Calm s.pic.masks s.pic.pair
      have hafter := hi.calm
      rw [hforce hheld, ← hi.masks] at hafter
      exact hafter
  exact ⟨wake_balanced hm.sound, (hm.guards.interfere (always_stable _) hrely).wake,
    hm.spares.wake⟩

theorem Orderly.call (hm : Orderly m) {c : Call} (hdone : m.code = .done) (hc : c.Behaves) :
    Orderly ⟨c.program.code, m.held, m.state⟩ := by
  obtain ⟨code, held, s⟩ := m
  obtain rfl : code = .done := hdone
  obtain rfl : held = ∅ := hm.sound
  have hsettled : Settled s.pic := hm.guards
  refine ⟨?_, ?_, call_spares hc⟩
  · cases c with
    | mask irq => exact (Pic.mask_within irq).balanced
    | unmask irq => exact (Pic.unmask_within irq).balanced
    | other program => exact hc.1
  · cases c with
    | mask irq => exact mask_guards irq hsettled
    | unmask irq => exact unmask_guards irq hsettled
    | other program => exact spares_guards hc.2 hsettled

theorem step_proceed (hstep : step m .proceed = .ok (answer, m')) :
    answer = none ∧ advance .done m = .ok m' := by
  simp only [step] at hstep
  split at hstep
  · cases hstep
  · next hadv =>
    obtain ⟨rfl, rfl⟩ := Prod.mk.inj (Except.ok.inj hstep)
    exact ⟨rfl, hadv⟩

theorem step_orderly (hm : Orderly m) (hpossible : possible m h)
    (hstep : step m h = .ok (answer, m')) : Orderly m' := by
  cases h with
  | raise irq =>
      obtain ⟨-, rfl⟩ := Prod.mk.inj (Except.ok.inj hstep)
      obtain ⟨force, hcalm, -⟩ := hm.calm
      exact hm.line (raise_calm hcalm irq).1 fun _ hcalm => (raise_calm hcalm irq).2
  | lower irq =>
      obtain ⟨-, rfl⟩ := Prod.mk.inj (Except.ok.inj hstep)
      exact hm.line rfl fun _ hcalm => (lower_calm hcalm irq).2
  | interrupt signal a =>
      obtain ⟨force, hcalm, hforce⟩ := hm.calm
      obtain ⟨irq, -, hi⟩ := interrupted hcalm hforce hpossible hstep
      exact hm.interrupted hcalm hforce hi
  | call c =>
      obtain ⟨-, rfl⟩ := Prod.mk.inj (Except.ok.inj hstep)
      exact hm.call hpossible.1 hpossible.2
  | proceed =>
      obtain ⟨-, hadv⟩ := step_proceed hstep
      have hdone : (Code.done : Code Lock Kernel).Balanced ∅ := rfl
      exact ⟨advance_sound hdone hm.sound hadv, hm.guards.advance hadv,
        (hm.spares.advance hadv).1⟩

theorem boot_orderly (s : Kernel) : Orderly (boot s) := by
  refine ⟨rfl, ?_, trivial⟩
  show Calm (boot s).state.pic.masks (boot s).state.pic.pair
  rw [boot_pic]
  exact ⟨_, _, rfl⟩

abbrev History := List (Theory.Event Machine Happening (Option UInt8))

variable {s : Kernel} {history : History}

theorem run_orderly (hrun : Run possible step (boot s) history m) : Orderly m :=
  hrun.invariant Orderly (boot_orderly s) fun _ _ _ _ hm hpossible hstep =>
    step_orderly hm hpossible hstep

-- In whatever order lines rise and fall, the kernel works through its calls and the processor
-- takes interrupts, stray ones among them: outside the handlers nothing is in service, the
-- controllers mask what `MASKS` says whenever it is free, and the main context never waits for
-- itself. An interrupt is that of the foremost open line that asks, or a stray one; its handler
-- returns if the code it came upon has none of the locks it asks for, and waits for ever
-- otherwise.
theorem interrupts_stay_settled (hrun : Run possible step (boot s) history m) :
    (∀ i, m.state.pic.pair.master.isr i = false ∧ m.state.pic.pair.slave.isr i = false) ∧
      (Lock.MASKS ∉ m.held → m.state.pic.pair.master.imr = m.state.pic.masks.master ∧
        m.state.pic.pair.slave.imr = m.state.pic.masks.slave) ∧
      (∀ l, step m .proceed ≠ .error (.stuck (.waits l))) ∧
      ∀ signal a, possible m (.interrupt signal a) → ∃ irq, Behind m.state.pic.pair signal irq ∧
        (Disjoint m.held (irq.locks a m.state) →
          ∃ m', step m (.interrupt signal a) = .ok (some (vector_for_irq irq), m')) ∧
        (¬ Disjoint m.held (irq.locks a m.state) →
          ∃ l ∈ m.held, step m (.interrupt signal a) = .error (.stuck (.waits l))) := by
  have hm := run_orderly hrun
  obtain ⟨force, hcalm, hforce⟩ := hm.calm
  refine ⟨?_, ?_, ?_, ?_⟩
  · obtain ⟨irr, irr', hpair⟩ := hcalm
    intro i
    rw [hpair]
    exact ⟨rfl, rfl⟩
  · intro hfree
    obtain ⟨irr, irr', hpair⟩ := hcalm
    rw [hpair, hforce hfree]
    exact ⟨rfl, rfl⟩
  · intro l hwaits
    simp only [step] at hwaits
    split at hwaits
    · next hadv =>
      cases hwaits
      exact advance_not_waiting hm.sound l hadv
    · cases hwaits
  · intro signal a hpossible
    obtain ⟨irq, ht⟩ := interrupt_taken hcalm hpossible
    refine ⟨irq, ht.behind, fun hfree => ?_, fun htaken => interrupt_waits ht htaken⟩
    obtain ⟨s', hreturns, -⟩ := interrupt_returns ht hfree
    exact ⟨_, hreturns⟩

-- Controllers as the firmware may leave them, with a half-finished initialisation.
def firmware : Pair :=
  ⟨⟨0x08, 0xB8, single 0, idle, .icw3 true⟩, ⟨0x70, 0x8F, idle, single 4, .ready⟩⟩

def entered : Kernel := Kernel.booted.withPic ⟨⟨0, 0⟩, false, firmware, fun _ => false⟩

theorem run_proceed {start : Machine} (hrun : Run possible step start history m)
    (hadv : advance .done m = .ok m') : ∃ history', Run possible step start history' m' := by
  have hpossible : possible m .proceed := trivial
  have hstep : step m .proceed = .ok (none, m') := by
    simp only [step, hadv]
  exact ⟨_, hrun.snoc hpossible hstep⟩

-- Opening a line of the master, up to the write that lets it through: the guard of `MASKS` is
-- alive, and interrupts are on.
theorem unmask_under_way {irq : Line} (hirq : ¬ 8 ≤ irq) (s : Kernel) :
    ∃ history rest, Run possible step ⟨.done, ∅, s⟩ history
      ⟨rest, {Lock.MASKS}, s.withPic (s.pic.stored (Masks.cleared · irq) irq)⟩ := by
  have hcode : (Pic.unmask irq).code = .acquire Lock.MASKS
      (store (Masks.cleared · irq) irq fun _ =>
        Log.log .Debug PIC ("pic: unmasked IRQ" ++ toString irq.val) fun _ =>
          .release Lock.MASKS .done) := by
    show Code.acquire Lock.MASKS (onlyIf (decide (8 ≤ irq)) _ _) = _
    rw [decide_eq_false hirq]
    rfl
  have hcall : step ⟨.done, ∅, s⟩ (.call (.unmask irq)) =
      .ok (none, ⟨(Pic.unmask irq).code, ∅, s⟩) := rfl
  have hpossible : possible ⟨.done, ∅, s⟩ (.call (.unmask irq)) := ⟨rfl, trivial⟩
  rw [hcode] at hcall
  obtain ⟨_, hacquired⟩ := run_proceed (Run.nil.snoc hpossible hcall) rfl
  obtain ⟨_, hrecorded⟩ := run_proceed hacquired rfl
  obtain ⟨_, hread⟩ := run_proceed hrecorded rfl
  obtain ⟨_, hwritten⟩ := run_proceed hread rfl
  exact ⟨_, _, hwritten⟩

-- A line that rises as `unmask` opens it finds the lock taken that its handler needs.
theorem unmask_waits_for_itself : ∃ history m a l, Run possible step (boot entered) history m ∧
    l ∈ m.held ∧ step m (.interrupt .request a) = .error (.stuck (.waits l)) := by
  obtain ⟨_, rest, hrun⟩ := unmask_under_way (show ¬ 8 ≤ (4 : Line) by decide) (boot entered).state
  have hpic : (boot entered).state.pic.stored (Masks.cleared · 4) 4 =
      ⟨⟨0xEC, 0xFF⟩, true, standing ⟨0xEC, 0xFF⟩ idle idle idle idle, fun _ => false⟩ := by
    rw [boot_pic, stored_standing BOOT_MASKS true idle idle idle idle _ (cleared_covers 4)]
    rfl
  rw [hpic, ← boot_eq] at hrun
  have hraise := hrun.snoc (show possible _ (.raise 4) from trivial) rfl
  obtain ⟨-, -, -, hinterrupt⟩ := interrupts_stay_settled hraise
  have hwants : ∀ l : Line, (standing ⟨0xEC, 0xFF⟩ idle idle (single 4) idle).wants l =
      decide (l = 4) := by
    decide
  have hopens : (standing ⟨0xEC, 0xFF⟩ idle idle (single 4) idle).opens 4 = true := by decide
  have hsignal := signals_of_wants (p := standing ⟨0xEC, 0xFF⟩ idle idle (single 4) idle)
    ⟨_, _, rfl⟩ (by decide) (hwants 4) hopens
  obtain ⟨irq, hchosen, -, hwaits⟩ := hinterrupt .request ⟨0, false, 0, 0⟩ hsignal
  obtain rfl : irq = 4 := of_decide_eq_true ((hwants irq).symm.trans hchosen.wanted)
  obtain ⟨l, hl, hstuck⟩ := hwaits fun hfree =>
    Finset.disjoint_left.mp hfree (Finset.mem_singleton_self _) (locks_other (by decide) _ _)
  exact ⟨_, _, _, l, hraise, hl, hstuck⟩

end Runs

end Orin.Interrupts.Service
