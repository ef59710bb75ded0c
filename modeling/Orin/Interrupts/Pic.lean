import Orin.Console.Log

namespace Orin.Interrupts.Pic

open Console Theory Theory.Prog

def PIC : String := "orin_kernel::interrupts::pic"

def vector_for_irq (irq : Line) : UInt8 :=
  if irq < 8 then MASTER_OFFSET + UInt8.ofNat irq else SLAVE_OFFSET + UInt8.ofNat (irq - 8)

def irq_for_vector (vec : UInt8) : Option Line :=
  if 0x20 ≤ vec ∧ vec ≤ 0x27 then some (Fin.ofNat 16 (vec - MASTER_OFFSET).toNat)
  else if 0x28 ≤ vec ∧ vec ≤ 0x2F then some (Fin.ofNat 16 (8 + (vec - SLAVE_OFFSET).toNat))
  else none

def out (port : UInt16) (b : UInt8) : KProg Unit :=
  modify fun s => s.withPic (s.pic.put port b)

def iowait : KProg Unit := out 0x80 0

-- Every write to the controllers is followed by the delay.
def write (port : UInt16) (b : UInt8) : KProg Unit := do
  out port b
  iowait

def write_all : List (UInt16 × UInt8) → KProg Unit
  | [] => return ()
  | (port, b) :: rest => do
      write port b
      write_all rest

-- ICW1 to ICW4 on both controllers in turn, then all lines masked.
def INITIALISATION : List (UInt16 × UInt8) :=
  [(MASTER_CMD, ICW1_INIT ||| ICW1_ICW4), (SLAVE_CMD, ICW1_INIT ||| ICW1_ICW4),
    (MASTER_DATA, MASTER_OFFSET), (SLAVE_DATA, SLAVE_OFFSET),
    (MASTER_DATA, 1 <<< UInt8.ofNat CASCADE), (SLAVE_DATA, UInt8.ofNat CASCADE),
    (MASTER_DATA, ICW4_8086), (SLAVE_DATA, ICW4_8086),
    (MASTER_DATA, 0xFF), (SLAVE_DATA, 0xFF)]

def remap : KProg Unit := do
  let _ ← get fun s => s.pic.pair.read MASTER_DATA
  let _ ← get fun s => s.pic.pair.read SLAVE_DATA
  write_all INITIALISATION
  locked .MASKS (modify fun s => s.withPic { s.pic with masks := ⟨0xFF, 0xFF⟩ })
  locked .REMAPPED (modify fun s => s.withPic { s.pic with remapped := true })
  Log.log .Info PIC ("pic: 8259A remapped IRQ0-7 -> vectors 0x20-0x27, " ++
    "IRQ8-15 -> 0x28-0x2f; all lines masked")

-- The record first, the controller behind it.
def store (f : Masks → Masks) (irq : Line) : KProg Unit := do
  modify fun s => s.withPic { s.pic with masks := f s.pic.masks }
  let masks ← get fun s => s.pic.masks
  write irq.data_port (masks.byte irq)

-- A line of the slave opens the cascade with it. The guard is alive to the end, over the debug
-- record too.
def unmask (irq : Line) : KProg Unit :=
  locked .MASKS do
    onlyIf (8 ≤ irq) (store (Masks.cleared · CASCADE) CASCADE)
    store (Masks.cleared · irq) irq
    Log.log .Debug PIC ("pic: unmasked IRQ" ++ toString irq.val)

def mask (irq : Line) : KProg Unit := locked .MASKS (store (Masks.closed · irq) irq)

def end_of_interrupt (vec : UInt8) : KProg Unit :=
  match irq_for_vector vec with
  | none => return ()
  | some irq => do
      onlyIf (8 ≤ irq) (write SLAVE_CMD CMD_END_OF_INTERRUPT)
      write MASTER_CMD CMD_END_OF_INTERRUPT

theorem irq_for_vector_for_irq (irq : Line) : irq_for_vector (vector_for_irq irq) = some irq := by
  revert irq
  decide

namespace State

variable (st : State)

def initialised : State :=
  { INITIALISATION.foldl (fun st w => st.put w.1 w.2) st with
    masks := ⟨0xFF, 0xFF⟩, remapped := true }

def stored (f : Masks → Masks) (irq : Line) : State :=
  put { st with masks := f st.masks } irq.data_port ((f st.masks).byte irq)

def masked (irq : Line) : State := st.stored (Masks.closed · irq) irq

def unmasked (irq : Line) : State :=
  stored (if 8 ≤ irq then st.stored (Masks.cleared · CASCADE) CASCADE else st)
    (Masks.cleared · irq) irq

def ended (irq : Line) : State :=
  put (if 8 ≤ irq then st.put SLAVE_CMD CMD_END_OF_INTERRUPT else st) MASTER_CMD
    CMD_END_OF_INTERRUPT

end State

section Does

variable (s : Kernel)

theorem write_does (port : UInt16) (b : UInt8) :
    Does (write port b) s ∅ () (s.withPic (s.pic.put port b)) :=
  (Does.modify _ s).free_bind (Does.modify _ _)

theorem write_all_does (writes : List (UInt16 × UInt8)) :
    Does (write_all writes) s ∅ () (s.withPic (writes.foldl (fun st w => st.put w.1 w.2) s.pic)) := by
  induction writes generalizing s with
  | nil => exact Does.pure () s
  | cons w rest ih => exact (write_does s w.1 w.2).free_bind (ih _)

theorem remap_does :
    ∃ s', Does remap s ({.MASKS} ∪ ({.REMAPPED} ∪ Log.log_locks s.config .Info)) () s' ∧
      s'.pic = s.pic.initialised := by
  have hwrites := write_all_does s INITIALISATION
  unfold State.initialised
  generalize INITIALISATION.foldl (fun st w => st.put w.1 w.2) s.pic = st at hwrites ⊢
  obtain ⟨s', hlog, hlogged⟩ := Log.log_does .Info PIC
    ("pic: 8259A remapped IRQ0-7 -> vectors 0x20-0x27, " ++
      "IRQ8-15 -> 0x28-0x2f; all lines masked")
    (s.withPic { st with masks := ⟨0xFF, 0xFF⟩, remapped := true })
  refine ⟨s', (Does.get _ s).free_bind ((Does.get _ s).free_bind (hwrites.free_bind ?_)),
    hlogged.pic⟩
  exact (Does.locked_modify _ _ _).bind ((Does.locked_modify _ _ _).bind hlog rfl) rfl

theorem store_does (f : Masks → Masks) (irq : Line) :
    Does (store f irq) s ∅ () (s.withPic (s.pic.stored f irq)) :=
  (Does.modify _ s).free_bind ((Does.get _ _).free_bind (write_does _ _ _))

theorem mask_does (irq : Line) : Does (mask irq) s {.MASKS} () (s.withPic (s.pic.masked irq)) :=
  (store_does s _ irq).locked rfl

theorem unmask_does (irq : Line) :
    ∃ s', Does (unmask irq) s (insert .MASKS (Log.log_locks s.config .Debug)) () s' ∧
      s'.pic = s.pic.unmasked irq := by
  obtain ⟨s', hlog, hlogged⟩ := Log.log_does .Debug PIC ("pic: unmasked IRQ" ++ toString irq.val)
    (s.withPic (s.pic.unmasked irq))
  refine ⟨s', Does.locked (?_ : Does _ s (Log.log_locks s.config .Debug) () s') rfl, hlogged.pic⟩
  by_cases hirq : 8 ≤ irq
  · simp only [State.unmasked, hirq, if_true, onlyIf, decide_true] at hlog ⊢
    exact (store_does s _ CASCADE).free_bind ((store_does _ _ irq).free_bind hlog)
  · simp only [State.unmasked, hirq, if_false, onlyIf, decide_false] at hlog ⊢
    exact (Does.pure () s).free_bind ((store_does s _ irq).free_bind hlog)

theorem end_of_interrupt_does (irq : Line) :
    Does (end_of_interrupt (vector_for_irq irq)) s ∅ () (s.withPic (s.pic.ended irq)) := by
  simp only [end_of_interrupt, irq_for_vector_for_irq, State.ended, onlyIf]
  by_cases hirq : 8 ≤ irq
  · simp only [hirq, if_true, decide_true]
    exact (write_does s _ _).free_bind (write_does _ _ _)
  · simp only [hirq, if_false, decide_false]
    exact (Does.pure () s).free_bind (write_does s _ _)

end Does

section Within

variable {locks : Finset Lock}

theorem write_within (port : UInt16) (b : UInt8) : Within locks (write port b) :=
  (Within.modify _).bind fun _ => Within.modify _

theorem store_within (f : Masks → Masks) (irq : Line) : Within locks (store f irq) :=
  (Within.modify _).bind fun _ => (Within.get _).bind fun _ => write_within _ _

-- Every lock a driver call can ever take.
def PIC_LOCKS : Finset Lock := insert .MASKS Log.LOG_LOCKS

theorem mask_within (irq : Line) : Within {Lock.MASKS} (mask irq) :=
  (store_within _ irq).locked_free (Finset.mem_singleton_self _)

theorem unmask_within (irq : Line) : Within PIC_LOCKS (unmask irq) := by
  have hbody : Within Log.LOG_LOCKS (do
      onlyIf (8 ≤ irq) (store (Masks.cleared · CASCADE) CASCADE)
      store (Masks.cleared · irq) irq
      Log.log .Debug PIC ("pic: unmasked IRQ" ++ toString irq.val)) := by
    apply ((store_within _ CASCADE).onlyIf _).bind
    intro _
    apply (store_within _ irq).bind
    intro _
    exact Log.log_within _ _ _
  exact hbody.locked (by decide) (by decide) (by decide)

theorem end_of_interrupt_within (vec : UInt8) : Within locks (end_of_interrupt vec) := by
  unfold end_of_interrupt
  split
  · exact Within.pure ()
  · exact ((write_within _ _).onlyIf _).bind fun _ => write_within _ _

end Within

end Orin.Interrupts.Pic
