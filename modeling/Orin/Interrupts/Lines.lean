import Mathlib.Order.Fin.Basic
import Orin.Interrupts.Idt

namespace Orin.Interrupts

open Theory Theory.Prog Pic

def single (i : Fin 8) : Fin 8 → Bool := Function.update idle i true

-- What an end-of-interrupt command leaves in service.
def retired (isr : Fin 8 → Bool) : Fin 8 → Bool :=
  match first isr with
  | some i => Function.update isr i false
  | none => isr

theorem retired_idle : retired idle = idle := by
  funext j
  revert j
  decide

theorem retired_single (i : Fin 8) : retired (single i) = idle := by
  funext j
  revert i j
  decide

theorem Pic.Chip.command_eoi (c : Chip) :
    c.command CMD_END_OF_INTERRUPT = { c with isr := retired c.isr } := by
  have hcommand : c.command CMD_END_OF_INTERRUPT = c.eoi :=
    (if_neg (by decide)).trans (if_pos rfl)
  rw [hcommand, Chip.eoi, retired]
  cases first c.isr with
  | none => rfl
  | some i => rfl

section Calls

variable (masks force : Masks) (remapped : Bool) (isr isr' irr irr' : Fin 8 → Bool)
  (levels : Line → Bool)

-- A change of the record to the byte that covers the line, and to no other.
def Covers (f : Masks → Masks) (irq : Line) : Prop :=
  ∀ masks, if irq < 8 then (f masks).slave = masks.slave else (f masks).master = masks.master

theorem closed_covers (irq : Line) : Covers (Masks.closed · irq) irq := by
  intro masks
  by_cases hirq : irq < 8
  · simp only [Masks.closed, hirq, if_true]
  · simp only [Masks.closed, hirq, if_false]

theorem cleared_covers (irq : Line) : Covers (Masks.cleared · irq) irq := by
  intro masks
  by_cases hirq : irq < 8
  · simp only [Masks.cleared, hirq, if_true]
  · simp only [Masks.cleared, hirq, if_false]

-- The controllers catch up with a record that is one change ahead of them.
theorem write_standing {f : Masks → Masks} {irq : Line} (hf : Covers f irq) :
    (standing force isr isr' irr irr').write irq.data_port ((f force).byte irq) =
      standing (f force) isr isr' irr irr' := by
  have hside := hf force
  by_cases hirq : irq < 8
  · simp only [hirq, if_true] at hside
    have hport : irq.data_port = MASTER_DATA := if_pos hirq
    rw [hport, Masks.byte, if_pos hirq, standing, standing, hside]
    rfl
  · simp only [hirq, if_false] at hside
    have hport : irq.data_port = SLAVE_DATA := if_neg hirq
    rw [hport, Masks.byte, if_neg hirq, standing, standing, hside]
    rfl

theorem stored_standing {f : Masks → Masks} {irq : Line} (hf : Covers f irq) :
    State.stored ⟨masks, remapped, standing masks isr isr' irr irr', levels⟩ f irq =
      ⟨f masks, remapped, standing (f masks) isr isr' irr irr', levels⟩ :=
  congrArg (fun pair => State.mk (f masks) remapped pair levels)
    (write_standing masks isr isr' irr irr' hf)

theorem mask_all_standing (lines : List Line) :
    lines.foldl State.masked ⟨masks, remapped, standing masks isr isr' irr irr', levels⟩ =
      ⟨lines.foldl Masks.closed masks, remapped,
        standing (lines.foldl Masks.closed masks) isr isr' irr irr', levels⟩ := by
  induction lines generalizing masks with
  | nil => rfl
  | cons irq rest ih =>
      rw [List.foldl_cons, List.foldl_cons, State.masked,
        stored_standing masks remapped isr isr' irr irr' levels (closed_covers irq), ih]

-- A line of the slave ends the interrupt on both controllers.
theorem ended_standing (irq : Line) :
    State.ended ⟨masks, remapped, standing force isr isr' irr irr', levels⟩ irq =
      ⟨masks, remapped,
        standing force (retired isr) (if 8 ≤ irq then retired isr' else isr') irr irr', levels⟩ := by
  have hmaster : ∀ isr', (standing force isr isr' irr irr').write MASTER_CMD CMD_END_OF_INTERRUPT =
      standing force (retired isr) isr' irr irr' := by
    intro isr'
    exact congrArg (fun c => Pair.mk c _) (Chip.command_eoi _)
  have hslave : (standing force isr isr' irr irr').write SLAVE_CMD CMD_END_OF_INTERRUPT =
      standing force isr (retired isr') irr irr' :=
    congrArg (fun c => Pair.mk _ c) (Chip.command_eoi _)
  by_cases hirq : 8 ≤ irq
  · simp only [State.ended, hirq, if_true, State.put, hslave, hmaster]
  · simp only [State.ended, hirq, if_false, State.put, hmaster]

end Calls

-- What serving a line does to the masks: a line without a driver shuts all of them.
def Pic.Masks.served (masks : Masks) (irq : Line) : Masks :=
  if irq < 3 then masks else OTHERS.foldl Masks.closed masks

-- What the handler behind a line does to the controllers.
def Pic.State.service (st : State) (irq : Line) : State :=
  if irq < 3 then st.ended irq else (OTHERS.foldl State.masked st).ended 8

section Handlers

variable (irq : Line) (a : Arrival) (s : Kernel)

theorem idt_irq : idt (vector_for_irq irq) =
    if irq = TIMER then .on_irq_timer else if irq = KEYBOARD then .on_irq_keyboard
    else if irq = CASCADE then .on_irq_cascade else .on_irq_unexpected := by
  revert irq
  decide

-- The handler behind a line.
def Pic.Line.handler : KProg Unit :=
  if irq = TIMER then on_irq_timer else if irq = KEYBOARD then on_irq_keyboard a.status a.data
  else if irq = CASCADE then on_irq_cascade else on_irq_unexpected a.rip

-- The locks it asks for when the interrupt arrives in `s`.
def Pic.Line.locks : Finset Lock :=
  if irq = TIMER then irq_locks s .timer
  else if irq = KEYBOARD then irq_locks s (.keyboard a.status a.data)
  else if irq = CASCADE then cascade_locks s else unexpected_locks s

theorem serve_irq : (idt (vector_for_irq irq)).serve a = .ok (irq.handler a) := by
  rw [idt_irq, Line.handler]
  by_cases htimer : irq = TIMER
  · rw [if_pos htimer, if_pos htimer]
    rfl
  · rw [if_neg htimer, if_neg htimer]
    by_cases hkeyboard : irq = KEYBOARD
    · rw [if_pos hkeyboard, if_pos hkeyboard]
      rfl
    · rw [if_neg hkeyboard, if_neg hkeyboard]
      by_cases hcascade : irq = CASCADE
      · rw [if_pos hcascade, if_pos hcascade]
        rfl
      · rw [if_neg hcascade, if_neg hcascade]
        rfl

theorem handler_does :
    ∃ s', Does (irq.handler a) s (irq.locks a s) () s' ∧ s'.pic = s.pic.service irq := by
  unfold Line.handler Line.locks
  by_cases htimer : irq = TIMER
  · subst htimer
    exact on_irq_timer_does s
  · rw [if_neg htimer, if_neg htimer]
    by_cases hkeyboard : irq = KEYBOARD
    · subst hkeyboard
      exact on_irq_keyboard_does a.status a.data s
    · rw [if_neg hkeyboard, if_neg hkeyboard]
      by_cases hcascade : irq = CASCADE
      · subst hcascade
        exact on_irq_cascade_does s
      · have hthree : ∀ irq : Line, irq ≠ TIMER → irq ≠ KEYBOARD → irq ≠ CASCADE → ¬ irq < 3 := by
          decide
        rw [if_neg hcascade, if_neg hcascade, State.service,
          if_neg (hthree irq htimer hkeyboard hcascade)]
        exact on_irq_unexpected_does a.rip s

theorem handler_within : Within PIC_LOCKS (irq.handler a) := by
  have hlog : Console.Log.LOG_LOCKS ⊆ PIC_LOCKS := Finset.subset_insert _ _
  unfold Line.handler
  split
  · exact (on_irq_within .timer).mono hlog
  · split
    · exact (on_irq_within (.keyboard a.status a.data)).mono hlog
    · split
      · exact on_irq_cascade_within.mono hlog
      · exact on_irq_unexpected_within a.rip

end Handlers

-- Nothing in service, and these masks in force.
def Calm (force : Masks) (pair : Pair) : Prop := ∃ irr irr', pair = standing force idle idle irr irr'

-- An interrupt of the line has been acknowledged and its handler is about to start: each
-- controller serves at most one request, and the slave none if the line is one of the three that
-- are the master's alone.
structure Handed (force : Masks) (irq : Line) (pair : Pair) : Prop where
  standing : ∃ isr isr' irr irr', pair = standing force isr isr' irr irr'
  master : retired pair.master.isr = idle
  slave : retired pair.slave.isr = idle
  own : irq < 3 → pair.slave.isr = idle

theorem wants_standing (masks : Masks) (isr isr' irr irr' : Fin 8 → Bool) (l : Line) :
    (standing masks isr isr' irr irr').wants l = if l < 8 then irr l.pin else irr' l.pin := rfl

-- The handler leaves nothing in service. One that also writes masks has to find the record and
-- the controllers in agreement.
theorem service_handed {force : Masks} {irq : Line} {st : State} (h : Handed force irq st.pair)
    (hforce : ¬ irq < 3 → force = st.masks) :
    (st.service irq).masks = st.masks.served irq ∧
      Calm (force.served irq) (st.service irq).pair ∧
      (st.service irq).pair.wants = st.pair.wants ∧ (st.service irq).levels = st.levels := by
  obtain ⟨masks, remapped, pair, levels⟩ := st
  obtain ⟨⟨isr, isr', irr, irr', hpair⟩, hdone, hdone', hown⟩ := h
  obtain rfl : pair = standing force isr isr' irr irr' := hpair
  have hmaster : retired isr = idle := hdone
  have hslave : retired isr' = idle := hdone'
  clear hdone hdone'
  unfold State.service Masks.served
  by_cases hirq : irq < 3
  · have hlow : ∀ irq : Line, irq < 3 → ¬ 8 ≤ irq := by decide
    have hown : isr' = idle := hown hirq
    simp only [hirq, if_true]
    rw [ended_standing, if_neg (hlow irq hirq), hmaster, hown]
    exact ⟨rfl, ⟨_, _, rfl⟩, rfl, rfl⟩
  · obtain rfl : force = masks := hforce hirq
    simp only [hirq, if_false]
    rw [mask_all_standing, ended_standing, if_pos (by decide), hmaster, hslave]
    exact ⟨rfl, ⟨_, _, rfl⟩, rfl, rfl⟩

section Priorities

theorem Pic.Chip.winner_idle {c : Chip} (h : c.isr = idle) (irr : Fin 8 → Bool) :
    c.winner irr = first fun i => irr i && !c.masked i := by
  have hfree : ∀ i, c.free i = true := by
    intro i
    rw [Chip.free, h, List.all_eq_true]
    intro j hj
    rw [idle, Bool.and_false]
    rfl
  simp only [Chip.winner, hfree, Bool.and_true]

theorem first_some {p : Fin 8 → Bool} {i : Fin 8} (h : first p = some i) : p i = true :=
  List.find?_some h

theorem first_isSome {p : Fin 8 → Bool} {j : Fin 8} (h : p j = true) : (first p).isSome = true :=
  List.find?_isSome.mpr ⟨j, List.mem_finRange j, h⟩

theorem first_le {p : Fin 8 → Bool} {i j : Fin 8} (h : first p = some i) (hj : p j = true) :
    i ≤ j := by
  obtain ⟨-, early, late, hsplit, hearly⟩ := List.find?_eq_some_iff_append.mp h
  have hmem : j ∈ early ++ i :: late := hsplit ▸ List.mem_finRange j
  have hsorted : (early ++ i :: late).Pairwise (· < ·) := hsplit ▸ List.pairwise_lt_finRange 8
  obtain hbefore | hrest := List.mem_append.mp hmem
  · have hnot := hearly j hbefore
    rw [hj] at hnot
    exact absurd hnot (by decide)
  · obtain rfl | hafter := List.mem_cons.mp hrest
    · exact Nat.le_refl _
    · have htail := (List.pairwise_append.mp hsorted).2.1
      exact Nat.le_of_lt ((List.pairwise_cons.mp htail).1 j hafter)

def masterLine (i : Fin 8) : Line := Fin.castLE (by decide) i

def slaveLine (i : Fin 8) : Line := Fin.natAdd 8 i

theorem masterLine_spec (i : Fin 8) : masterLine i < 8 ∧ (masterLine i).pin = i ∧
    MASTER_OFFSET + UInt8.ofNat i = vector_for_irq (masterLine i) := by
  revert i
  decide

theorem slaveLine_spec (i : Fin 8) : ¬ slaveLine i < 8 ∧ (slaveLine i).pin = i ∧
    SLAVE_OFFSET + UInt8.ofNat i = vector_for_irq (slaveLine i) := by
  revert i
  decide

theorem pin_eq_iff (l : Line) (i : Fin 8) :
    (l < 8 → (l.pin = i ↔ l = masterLine i)) ∧ (¬ l < 8 → (l.pin = i ↔ l = slaveLine i)) := by
  revert l i
  decide

-- The order in which the two controllers together let lines through.
def Pic.Line.rank (irq : Line) : Nat :=
  if irq < 2 then irq else if irq < 8 then irq + 8 else irq - 6

theorem rank_master (i : Fin 8) (l : Line) (hl : l < 8) (h : i ≤ l.pin) :
    (masterLine i).rank ≤ l.rank := by
  revert i l
  decide

theorem rank_slave (j : Fin 8) (l : Line) (hl : ¬ l < 8) (h : j ≤ l.pin) :
    (slaveLine j).rank ≤ l.rank := by
  revert j l
  decide

theorem rank_above (i : Fin 8) (l : Line) (hl : ¬ l < 8) (h : i < CASCADE.pin) :
    (masterLine i).rank ≤ l.rank := by
  revert i l
  decide

theorem rank_below (j : Fin 8) (l : Line) (hl : l < 8) (hne : l ≠ CASCADE)
    (h : CASCADE.pin ≤ l.pin) : (slaveLine j).rank ≤ l.rank := by
  revert j l
  decide

end Priorities

section Acknowledge

-- What the processor acknowledges: a request, or one that was withdrawn too late, on either
-- controller.
inductive Signal where
  | request
  | stray_master
  | stray_slave
  deriving DecidableEq, Repr

namespace Pic.Pair

variable (p : Pair)

def acknowledge_stray : Signal → UInt8 × Pair
  | .request => p.acknowledge
  | .stray_master => (vector p.master 7, p)
  | .stray_slave => (vector p.slave 7, { p with master := p.master.enter CASCADE.pin })

-- The processor only asks for a vector while a request is passed on to it.
def signals : Signal → Prop
  | .request => (p.master.winner p.requests).isSome
  | .stray_master => True
  | .stray_slave => p.master.masked CASCADE.pin = false

end Pic.Pair

-- The line the controllers settle on is open, wanted, and the first in order of those.
structure Chosen (p : Pair) (irq : Line) : Prop where
  device : irq ≠ CASCADE
  wanted : p.wants irq = true
  opened : p.opens irq = true
  foremost (l : Line) : l ≠ CASCADE → p.wants l = true → p.opens l = true → irq.rank ≤ l.rank

-- The line an interrupt is taken for.
def Behind (p : Pair) : Signal → Line → Prop
  | .request, irq => Chosen p irq
  | .stray_master, irq => irq = 7
  | .stray_slave, irq => irq = 15

-- The requests the acknowledge cycle leaves on the device lines.
def Left (p : Pair) (signal : Signal) (irq : Line) (pair : Pair) : Prop :=
  ∀ l, l ≠ CASCADE → pair.wants l = if signal = .request ∧ l = irq then false else p.wants l

variable {force : Masks} {irr irr' : Fin 8 → Bool}

theorem wants_master (isr isr' : Fin 8 → Bool) (i : Fin 8) (b : Bool) (l : Line) :
    (standing force isr isr' (Function.update irr i b) irr').wants l =
      if l = masterLine i then b else (standing force idle idle irr irr').wants l := by
  by_cases hlow : l < 8
  · simp only [wants_standing, hlow, if_true, Function.update_apply, (pin_eq_iff l i).1 hlow]
  · have hne : l ≠ masterLine i := by
      rintro rfl
      exact hlow (masterLine_spec i).1
    simp only [wants_standing, hlow, if_false, hne]

theorem wants_slave (isr isr' : Fin 8 → Bool) (j : Fin 8) (b : Bool) (l : Line) :
    (standing force isr isr' irr (Function.update irr' j b)).wants l =
      if l = slaveLine j then b else (standing force idle idle irr irr').wants l := by
  by_cases hlow : l < 8
  · have hne : l ≠ slaveLine j := by
      rintro rfl
      exact (slaveLine_spec j).1 hlow
    simp only [wants_standing, hlow, if_true, hne, if_false]
  · simp only [wants_standing, hlow, if_false, Function.update_apply, (pin_eq_iff l j).2 hlow]

-- The master's own latch of the cascade input belongs to no device.
theorem wants_uncascaded (isr isr' : Fin 8 → Bool) (b : Bool) {l : Line} (hl : l ≠ CASCADE) :
    (standing force isr isr' (Function.update irr CASCADE.pin b) irr').wants l =
      (standing force idle idle irr irr').wants l := by
  have hne : l ≠ masterLine CASCADE.pin := hl
  rw [wants_master, if_neg hne]

-- The master's pin on which a line comes in.
def Pic.Line.entry (l : Line) : Fin 8 := if l < 8 then l.pin else CASCADE.pin

theorem slave_asks {p : Pair} {l : Line} (hl : ¬ l < 8) (hwants : p.wants l = true)
    (hopens : p.opens l = true) : (p.slave.irr l.pin && !p.slave.masked l.pin) = true := by
  simp only [Pair.wants, hl, if_false] at hwants
  simp only [Pair.opens, hl, if_false, Bool.and_eq_true] at hopens
  rw [Bool.and_eq_true]
  exact ⟨hwants, hopens.1⟩

-- A wanted line that is open shows on the master.
theorem master_asks {p : Pair} {l : Line} (hslave : p.slave.isr = idle) (hne : l ≠ CASCADE)
    (hwants : p.wants l = true) (hopens : p.opens l = true) :
    (p.requests l.entry && !p.master.masked l.entry) = true := by
  rw [Bool.and_eq_true]
  by_cases hl : l < 8
  · have hpin : l.pin ≠ CASCADE.pin := fun hpin => hne (((pin_eq_iff l CASCADE.pin).1 hl).mp hpin)
    simp only [Pair.wants, hl, if_true] at hwants
    simp only [Pair.opens, hl, if_true] at hopens
    rw [Line.entry, if_pos hl, Pair.requests, if_neg hpin]
    exact ⟨hwants, hopens⟩
  · have hasks := slave_asks hl hwants hopens
    simp only [Pair.opens, hl, if_false, Bool.and_eq_true] at hopens
    rw [Line.entry, if_neg hl, Pair.requests, if_pos rfl]
    refine ⟨?_, hopens.2⟩
    rw [Chip.winner_idle hslave]
    exact first_isSome hasks

-- So a request that waits on an open line gets the processor to ask.
theorem signals_of_wants {p : Pair} {l : Line} (hcalm : Calm force p) (hne : l ≠ CASCADE)
    (hwants : p.wants l = true) (hopens : p.opens l = true) : p.signals .request := by
  obtain ⟨irr, irr', rfl⟩ := hcalm
  show ((standing force idle idle irr irr').master.winner _).isSome = true
  rw [Chip.winner_idle rfl]
  exact first_isSome (master_asks rfl hne hwants hopens)

theorem acknowledge_master {p : Pair} {i : Fin 8} (hi : p.master.winner p.requests = some i)
    (hne : i ≠ CASCADE.pin) :
    p.acknowledge = (Pair.vector p.master i, { p with master := p.master.enter i }) := by
  simp only [Pair.acknowledge, hi, hne, if_false]

theorem acknowledge_slave {p : Pair} {j : Fin 8}
    (hi : p.master.winner p.requests = some CASCADE.pin) (hj : p.slave.winner p.slave.irr = some j) :
    p.acknowledge = (Pair.vector p.slave j, ⟨p.master.enter CASCADE.pin, p.slave.enter j⟩) := by
  simp only [Pair.acknowledge, hi, hj, if_true]

theorem chosen_master {i : Fin 8} (hne : i ≠ CASCADE.pin)
    (hi : (standing force idle idle irr irr').master.winner
      (standing force idle idle irr irr').requests = some i) :
    Chosen (standing force idle idle irr irr') (masterLine i) := by
  obtain ⟨hlow, hpin, -⟩ := masterLine_spec i
  rw [Chip.winner_idle rfl] at hi
  obtain ⟨hasked, hmasked⟩ := (Bool.and_eq_true _ _).mp (first_some hi)
  rw [Pair.requests, if_neg hne] at hasked
  refine ⟨?_, ?_, ?_, ?_⟩
  · intro heq
    exact hne (by rw [← hpin, heq])
  · simp only [Pair.wants, hlow, if_true, hpin]
    exact hasked
  · simp only [Pair.opens, hlow, if_true, hpin]
    exact hmasked
  · intro l hl hwants hopens
    have hle := first_le hi (master_asks rfl hl hwants hopens)
    by_cases hside : l < 8
    · rw [Line.entry, if_pos hside] at hle
      exact rank_master i l hside hle
    · rw [Line.entry, if_neg hside] at hle
      exact rank_above i l hside (lt_of_le_of_ne hle hne)

theorem chosen_slave {j : Fin 8}
    (hi : (standing force idle idle irr irr').master.winner
      (standing force idle idle irr irr').requests = some CASCADE.pin)
    (hj : (standing force idle idle irr irr').slave.winner irr' = some j) :
    Chosen (standing force idle idle irr irr') (slaveLine j) := by
  obtain ⟨hhigh, hpin, -⟩ := slaveLine_spec j
  rw [Chip.winner_idle rfl] at hi hj
  obtain ⟨-, hcascade⟩ := (Bool.and_eq_true _ _).mp (first_some hi)
  obtain ⟨hasked, hmasked⟩ := (Bool.and_eq_true _ _).mp (first_some hj)
  refine ⟨?_, ?_, ?_, ?_⟩
  · intro heq
    exact hhigh (heq ▸ (by decide))
  · simp only [Pair.wants, hhigh, if_false, hpin]
    exact hasked
  · simp only [Pair.opens, hhigh, if_false, hpin, Bool.and_eq_true]
    exact ⟨hmasked, hcascade⟩
  · intro l hl hwants hopens
    by_cases hside : l < 8
    · have hle := first_le hi (master_asks rfl hl hwants hopens)
      rw [Line.entry, if_pos hside] at hle
      exact rank_below j l hside hl hle
    · exact rank_slave j l hside (first_le hj (slave_asks hside hwants hopens))

-- Taking an interrupt: the vector, and what the handler finds.
structure Taken (force : Masks) (p : Pair) (signal : Signal) (irq : Line) : Prop where
  behind : Behind p signal irq
  vector : (p.acknowledge_stray signal).1 = vector_for_irq irq
  handed : Handed force irq (p.acknowledge_stray signal).2
  left : Left p signal irq (p.acknowledge_stray signal).2

theorem taken_master {i : Fin 8} (hne : i ≠ CASCADE.pin)
    (hi : (standing force idle idle irr irr').master.winner
      (standing force idle idle irr irr').requests = some i) :
    Taken force (standing force idle idle irr irr') .request (masterLine i) := by
  have hack : (standing force idle idle irr irr').acknowledge_stray .request =
      (vector_for_irq (masterLine i),
        standing force (single i) idle (Function.update irr i false) irr') := by
    rw [Pair.acknowledge_stray, acknowledge_master hi hne, ← (masterLine_spec i).2.2]
    rfl
  refine ⟨chosen_master hne hi, by rw [hack], ?_, ?_⟩
  · rw [hack]
    exact ⟨⟨_, _, _, _, rfl⟩, retired_single i, retired_idle, fun _ => rfl⟩
  · intro l hl
    rw [hack, wants_master]
    simp only [true_and]

theorem taken_slave {j : Fin 8}
    (hi : (standing force idle idle irr irr').master.winner
      (standing force idle idle irr irr').requests = some CASCADE.pin)
    (hj : (standing force idle idle irr irr').slave.winner irr' = some j) :
    Taken force (standing force idle idle irr irr') .request (slaveLine j) := by
  have hack : (standing force idle idle irr irr').acknowledge_stray .request =
      (vector_for_irq (slaveLine j),
        standing force (single CASCADE.pin) (single j) (Function.update irr CASCADE.pin false)
          (Function.update irr' j false)) := by
    rw [Pair.acknowledge_stray, acknowledge_slave hi hj, ← (slaveLine_spec j).2.2]
    rfl
  refine ⟨chosen_slave hi hj, by rw [hack], ?_, ?_⟩
  · rw [hack]
    refine ⟨⟨_, _, _, _, rfl⟩, retired_single _, retired_single j, fun hlow => ?_⟩
    exact absurd (Fin.lt_trans hlow (show (3 : Line) < 8 by decide)) (slaveLine_spec j).1
  · intro l hl
    rw [hack, wants_uncascaded _ _ _ hl, wants_slave]
    simp only [true_and]

theorem interrupt_taken {p : Pair} {signal : Signal} (hcalm : Calm force p)
    (hsignal : p.signals signal) : ∃ irq, Taken force p signal irq := by
  obtain ⟨irr, irr', rfl⟩ := hcalm
  cases signal with
  | request =>
      obtain ⟨i, hi⟩ := Option.isSome_iff_exists.mp hsignal
      by_cases hne : i = CASCADE.pin
      · subst hne
        have hfirst := hi
        rw [Chip.winner_idle rfl] at hfirst
        obtain ⟨hasked, -⟩ := (Bool.and_eq_true _ _).mp (first_some hfirst)
        obtain ⟨j, hj⟩ := Option.isSome_iff_exists.mp hasked
        exact ⟨slaveLine j, taken_slave hi hj⟩
      · exact ⟨masterLine i, taken_master hne hi⟩
  | stray_master =>
      have hvector : MASTER_OFFSET + UInt8.ofNat 7 = vector_for_irq 7 := by decide
      refine ⟨7, rfl, hvector, ⟨⟨_, _, _, _, rfl⟩, retired_idle, retired_idle, fun _ => rfl⟩, ?_⟩
      intro l hl
      rw [if_neg (by simp)]
      rfl
  | stray_slave =>
      have hvector : SLAVE_OFFSET + UInt8.ofNat 7 = vector_for_irq 15 := by decide
      refine ⟨15, rfl, hvector,
        ⟨⟨_, _, _, _, rfl⟩, retired_single CASCADE.pin, retired_idle, fun _ => rfl⟩, ?_⟩
      intro l hl
      rw [if_neg (by simp)]
      exact wants_uncascaded (single CASCADE.pin) idle false hl

end Acknowledge

section Levels

variable {force : Masks} {st : State} {irq l : Line}

theorem want_calm {p : Pair} (h : Calm force p) (irq : Line) (b : Bool) :
    Calm force (p.want irq b) := by
  obtain ⟨irr, irr', rfl⟩ := h
  unfold Pair.want
  split
  · exact ⟨_, _, rfl⟩
  · exact ⟨_, _, rfl⟩

theorem raise_calm (h : Calm force st.pair) (irq : Line) :
    (st.raise irq).masks = st.masks ∧ Calm force (st.raise irq).pair := by
  unfold State.raise
  split
  · exact ⟨rfl, h⟩
  · exact ⟨rfl, want_calm h irq true⟩

theorem lower_calm (h : Calm force st.pair) (irq : Line) :
    (st.lower irq).masks = st.masks ∧ Calm force (st.lower irq).pair :=
  ⟨rfl, want_calm h irq false⟩

end Levels

section Boot

theorem Pic.Chip.initialised (c : Chip) (icw2 icw3 ocw1 : UInt8) :
    ((((c.command (ICW1_INIT ||| ICW1_ICW4)).data icw2).data icw3).data ICW4_8086).data ocw1 =
      ⟨icw2 &&& 0xF8, ocw1, idle, idle, .ready⟩ := by
  have hstart : c.command (ICW1_INIT ||| ICW1_ICW4) =
      { c with imr := 0, isr := idle, irr := idle, stage := .icw2 true } := if_pos (by decide)
  rw [hstart]
  rfl

section Ports

variable (p : Pair) (b : UInt8)

theorem write_master_cmd : p.write MASTER_CMD b = { p with master := p.master.command b } :=
  if_pos rfl

theorem write_master_data : p.write MASTER_DATA b = { p with master := p.master.data b } :=
  (if_neg (by decide)).trans (if_pos rfl)

theorem write_slave_cmd : p.write SLAVE_CMD b = { p with slave := p.slave.command b } :=
  (if_neg (by decide)).trans ((if_neg (by decide)).trans (if_pos rfl))

theorem write_slave_data : p.write SLAVE_DATA b = { p with slave := p.slave.data b } :=
  (if_neg (by decide)).trans ((if_neg (by decide)).trans ((if_neg (by decide)).trans (if_pos rfl)))

end Ports

-- From any state of the controllers, in the middle of their initialisation or not.
theorem initialised_standing (st : State) : st.initialised =
    ⟨⟨0xFF, 0xFF⟩, true, standing ⟨0xFF, 0xFF⟩ idle idle idle idle, st.levels⟩ := by
  simp only [State.initialised, INITIALISATION, List.foldl, State.put, write_master_cmd,
    write_master_data, write_slave_cmd, write_slave_data, Chip.initialised]
  rfl

def BOOT_MASKS : Masks := ⟨0xFC, 0xFF⟩

-- The timer and the keyboard are opened by `init`, the keyboard once more after its driver.
theorem unmasked_boot (levels : Line → Bool) :
    (((State.mk ⟨0xFF, 0xFF⟩ true (standing ⟨0xFF, 0xFF⟩ idle idle idle idle) levels).unmasked
      TIMER).unmasked KEYBOARD).unmasked KEYBOARD =
      ⟨BOOT_MASKS, true, standing BOOT_MASKS idle idle idle idle, levels⟩ := by
  have hopen : ∀ (masks : Masks) (irq : Line), ¬ 8 ≤ irq →
      State.unmasked ⟨masks, true, standing masks idle idle idle idle, levels⟩ irq =
        ⟨masks.cleared irq, true, standing (masks.cleared irq) idle idle idle idle, levels⟩ := by
    intro masks irq hirq
    rw [State.unmasked, if_neg hirq]
    exact stored_standing masks true idle idle idle idle levels (cleared_covers irq)
  rw [hopen _ TIMER (by decide), hopen _ KEYBOARD (by decide), hopen _ KEYBOARD (by decide)]
  have hmasks : (((Masks.mk 0xFF 0xFF).cleared TIMER).cleared KEYBOARD).cleared KEYBOARD =
      BOOT_MASKS := by decide
  rw [hmasks]

theorem boot_masks_served (irq : Line) : BOOT_MASKS.served irq = BOOT_MASKS := by
  revert irq
  decide

theorem opens_boot {p : Pair} (h : Calm BOOT_MASKS p) (irq : Line) :
    p.opens irq = decide (irq = TIMER ∨ irq = KEYBOARD) := by
  obtain ⟨irr, irr', rfl⟩ := h
  show (if irq < 8 then !(0xFC : UInt8).toNat.testBit irq.pin
    else !(0xFF : UInt8).toNat.testBit irq.pin && !(0xFC : UInt8).toNat.testBit CASCADE.pin) = _
  revert irq
  decide

end Boot

-- The lines whose vector no stray interrupt uses.
def Pic.Line.plain (irq : Line) : Prop := irq ≠ CASCADE ∧ irq ≠ 7 ∧ irq ≠ 15

end Orin.Interrupts
