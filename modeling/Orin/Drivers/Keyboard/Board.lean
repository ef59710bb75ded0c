import Orin.Drivers.Keyboard.Controller

namespace Orin.Drivers.Keyboard

open Theory Theory.Talk

-- The bit of the command byte that switches the first port off. The driver never names it:
-- `CMD_DISABLE_PORT_1` sets it and `CMD_ENABLE_PORT_1` clears it.
def PORT_1_OFF : UInt8 := (1 : UInt8) <<< 4

-- The registers of a working controller and the device on its first port, without the time
-- they take.
structure Registers (δ : Type) where
  command_byte : UInt8
  -- the next byte on the data port is the command byte
  expects_byte : Bool
  out : List UInt8
  device : δ

-- A machine with a working controller. What its self-test does to the command byte, what its
-- port test says, whether a byte for the device switches its port on again and what becomes of
-- such a byte otherwise, how the device answers and how long everything takes differ between
-- machines. The device sends nothing unasked.
structure Board (δ ε : Type) where
  after_test : UInt8 → UInt8
  port_test : UInt8
  switches_on : Bool
  undelivered : Option UInt8
  answer : UInt8 → δ → Option UInt8 × δ
  flags : Nat → UInt8
  busy_for : Nat → Nat
  answer_after : Nat → Nat
  busy_short (k : Nat) : busy_for k < POLL_LIMIT
  answer_soon (k : Nat) : answer_after k < POLL_LIMIT
  elsewhere : Device UInt16 ε

structure Bus (δ ε : Type) where
  regs : Registers δ
  busy : Nat
  delay : Nat
  clock : Nat
  elsewhere : ε

variable {δ ε : Type} (B : Board δ ε)

namespace Board

def command (cmd : UInt8) (r : Registers δ) : Registers δ :=
  let r := { r with expects_byte := cmd = CMD_WRITE_COMMAND_BYTE }
  if cmd = CMD_SELF_TEST then
    { r with command_byte := B.after_test r.command_byte, out := r.out ++ [0x55] }
  else if cmd = CMD_READ_COMMAND_BYTE then { r with out := r.out ++ [r.command_byte] }
  else if cmd = CMD_TEST_PORT_1 then { r with out := r.out ++ [B.port_test] }
  else if cmd = CMD_DISABLE_PORT_1 then { r with command_byte := r.command_byte ||| PORT_1_OFF }
  else if cmd = CMD_ENABLE_PORT_1 then { r with command_byte := r.command_byte &&& ~~~PORT_1_OFF }
  else r

-- A byte for the device, and what comes back.
def deliver (b : UInt8) (r : Registers δ) : Option UInt8 × Registers δ :=
  if r.command_byte &&& PORT_1_OFF ≠ 0 ∧ B.switches_on = false then (B.undelivered, r)
  else
    ((B.answer b r.device).1,
      { r with
        command_byte := r.command_byte &&& ~~~PORT_1_OFF
        device := (B.answer b r.device).2 })

def datum (b : UInt8) (r : Registers δ) : Registers δ :=
  if r.expects_byte then { r with command_byte := b, expects_byte := false }
  else { (B.deliver b r).2 with out := r.out ++ (B.deliver b r).1.toList }

def receive (port : UInt16) (b : UInt8) (r : Registers δ) : Registers δ :=
  if port = PORT_STATUS then B.command b r else B.datum b r

def full (s : Bus δ ε) : Bool := s.regs.out ≠ [] ∧ s.delay = 0

-- The other bits of the status are anything.
def status (s : Bus δ ε) : UInt8 :=
  (B.flags s.clock &&& ~~~(ST_OUT_BUFFER_FULL ||| ST_IN_BUFFER_FULL)) |||
    ((if full s then ST_OUT_BUFFER_FULL else 0) ||| (if 0 < s.busy then ST_IN_BUFFER_FULL else 0))

def read (port : UInt16) (s : Bus δ ε) : UInt8 × Bus δ ε :=
  if port = PORT_STATUS then
    (B.status s, { s with busy := s.busy - 1, delay := s.delay - 1, clock := s.clock + 1 })
  else if port = PORT_DATA then
    if full s then
      (s.regs.out.headD 0,
        { s with regs := { s.regs with out := s.regs.out.tail }, clock := s.clock + 1 })
    else (0, { s with clock := s.clock + 1 })
  else
    ((B.elsewhere.read port s.elsewhere).1,
      { s with elsewhere := (B.elsewhere.read port s.elsewhere).2, clock := s.clock + 1 })

-- A byte sent while the last one is still in the input buffer is lost.
def write (port : UInt16) (b : UInt8) (s : Bus δ ε) : Bus δ ε :=
  if port = PORT_STATUS ∨ port = PORT_DATA then
    if s.busy = 0 then
      { s with
        regs := B.receive port b s.regs
        busy := B.busy_for s.clock
        delay := B.answer_after s.clock
        clock := s.clock + 1 }
    else { s with clock := s.clock + 1 }
  else { s with elsewhere := B.elsewhere.write port b s.elsewhere, clock := s.clock + 1 }

def bus : Device UInt16 (Bus δ ε) := ⟨B.read, B.write⟩

theorem status_input_empty (s : Bus δ ε) : input_empty (B.status s) = decide (s.busy = 0) := by
  unfold input_empty status
  rw [flags_beside _ (by decide)]
  obtain hbusy | hbusy := Nat.eq_zero_or_pos s.busy
  · simp only [hbusy, Nat.lt_irrefl]
    cases full s <;> decide
  · simp only [hbusy, Nat.ne_of_gt hbusy]
    cases full s <;> decide

theorem status_output_full (s : Bus δ ε) : output_full (B.status s) = full s := by
  unfold output_full status
  rw [flags_beside _ (by decide)]
  by_cases hbusy : 0 < s.busy
  · simp only [hbusy]
    cases full s <;> decide
  · simp only [hbusy]
    cases full s <;> decide

-- The registers are as `r` has them, and the controller will take the next byte and show the
-- next answer before the driver gives up.
structure Stands (r : Registers δ) (s : Bus δ ε) : Prop where
  regs : s.regs = r
  busy : s.busy < POLL_LIMIT
  delay : s.delay < POLL_LIMIT

-- The bus after `i` looks at the status.
def looked (s : Bus δ ε) (i : Nat) : Bus δ ε :=
  { s with busy := s.busy - i, delay := s.delay - i, clock := s.clock + i }

theorem read_looked (s : Bus δ ε) (i : Nat) :
    B.bus.read PORT_STATUS (looked s i) = (B.status (looked s i), looked s (i + 1)) := rfl

theorem Stands.looked {r : Registers δ} {s : Bus δ ε} (h : Stands r s) (i : Nat) :
    Stands r (looked s i) :=
  ⟨h.regs, Nat.lt_of_le_of_lt (Nat.sub_le _ _) h.busy,
    Nat.lt_of_le_of_lt (Nat.sub_le _ _) h.delay⟩

variable {B} {r : Registers δ} {s : Bus δ ε}

theorem wait_input_empty_yields (h : Stands r s) :
    Yields B.bus wait_input_empty s true fun s' => Stands r s' ∧ s'.busy = 0 := by
  have hempty : ∀ i, input_empty (B.status (looked s i)) = decide (s.busy - i = 0) :=
    fun i => status_input_empty B (looked s i)
  have hrun := run_poll_ready (fun i => B.status (looked s i)) (looked s) h.busy (read_looked B s)
    (fun i hi => (hempty i).trans (decide_eq_false (Nat.sub_ne_zero_of_lt hi)))
    ((hempty s.busy).trans (decide_eq_true (Nat.sub_self _)))
  refine ⟨congrArg Prod.fst hrun, ?_⟩
  have hstate : (run B.bus wait_input_empty s).2 = looked s (s.busy + 1) := congrArg Prod.snd hrun
  rw [hstate]
  exact ⟨h.looked _, Nat.sub_eq_zero_of_le (Nat.le_succ _)⟩

theorem send_yields {port : UInt16} (hport : port = PORT_STATUS ∨ port = PORT_DATA) (b : UInt8)
    (h : Stands r s) : Yields B.bus (send port b) s true (Stands (B.receive port b r)) := by
  refine (wait_input_empty_yields h).bind fun s' hs' => ?_
  obtain ⟨hstands, hidle⟩ := hs'
  have hwrite : B.bus.write port b s' =
      { s' with
        regs := B.receive port b s'.regs
        busy := B.busy_for s'.clock
        delay := B.answer_after s'.clock
        clock := s'.clock + 1 } := (if_pos hport).trans (if_pos hidle)
  refine ⟨rfl, ?_⟩
  show Stands _ (B.bus.write port b s')
  rw [hwrite]
  exact ⟨by rw [hstands.regs], B.busy_short _, B.answer_soon _⟩

theorem full_looked (s : Bus δ ε) (i : Nat) :
    full (looked s i) = decide (s.regs.out ≠ [] ∧ s.delay ≤ i) := by
  simp only [full, looked, Nat.sub_eq_zero_iff_le]

theorem wait_output_full_never (h : Stands r s) (hout : r.out = []) :
    Yields B.bus wait_output_full s false (Stands r) := by
  have hnever : ∀ i, output_full (B.status (looked s i)) = false := by
    intro i
    rw [status_output_full, full_looked, h.regs, hout]
    simp
  have hrun := run_poll_never (n := POLL_LIMIT) (fun i => B.status (looked s i)) (looked s)
    (read_looked B s) hnever
  exact ⟨congrArg Prod.fst hrun, (congrArg Prod.snd hrun) ▸ h.looked _⟩

theorem wait_output_full_yields (h : Stands r s) (hout : r.out ≠ []) :
    Yields B.bus wait_output_full s true fun s' => Stands r s' ∧ full s' = true := by
  have hfull : ∀ i, full (looked s i) = decide (s.delay ≤ i) := by
    intro i
    rw [full_looked, h.regs]
    simp [hout]
  have hready : ∀ i, output_full (B.status (looked s i)) = decide (s.delay ≤ i) :=
    fun i => (status_output_full B (looked s i)).trans (hfull i)
  have hrun := run_poll_ready (fun i => B.status (looked s i)) (looked s) h.delay (read_looked B s)
    (fun i hi => (hready i).trans (decide_eq_false (Nat.not_le_of_lt hi)))
    ((hready s.delay).trans (decide_eq_true (Nat.le_refl _)))
  refine ⟨congrArg Prod.fst hrun, ?_⟩
  have hstate : (run B.bus wait_output_full s).2 = looked s (s.delay + 1) := congrArg Prod.snd hrun
  rw [hstate]
  exact ⟨h.looked _, (hfull _).trans (decide_eq_true (Nat.le_succ _))⟩

-- A data read takes the byte the status has announced.
theorem data_yields (h : Stands r s) (hfull : full s = true) :
    Yields B.bus (input PORT_DATA) s (r.out.headD 0) fun s' =>
      Stands { r with out := r.out.tail } s' ∧ s'.delay = s.delay := by
  have hread : B.bus.read PORT_DATA s = (s.regs.out.headD 0,
      { s with regs := { s.regs with out := s.regs.out.tail }, clock := s.clock + 1 }) :=
    if_pos hfull
  refine ⟨?_, ?_⟩
  · rw [run_input, hread, h.regs]
  · rw [run_input, hread, h.regs]
    exact ⟨⟨rfl, h.busy, h.delay⟩, rfl⟩

theorem read_response_yields (h : Stands r s) :
    Yields B.bus read_response s r.out.head? (Stands { r with out := r.out.tail }) := by
  cases hout : r.out with
  | nil =>
      refine (wait_output_full_never h hout).bind fun s' hs' => Yields.pure ?_
      rwa [List.tail_nil, ← hout]
  | cons b rest =>
      refine (wait_output_full_yields h (by simp [hout])).bind fun s' hs' => ?_
      refine (data_yields hs'.1 hs'.2).bind fun s'' hs'' => ?_
      rw [hout] at hs''
      rw [hout]
      exact Yields.pure hs''.1

-- One round of the flush: a byte that shows is read away, otherwise it is over.
theorem flush_round (room : Nat) (h : Stands r s) {post : Bus δ ε → Prop}
    (hover : full s = false → ∀ s', Stands r s' → post s')
    (hmore : full s = true → ∀ s', Stands { r with out := r.out.tail } s' → s'.delay = 0 →
      Yields B.bus (flush_from room) s' () post) :
    Yields B.bus (flush_from (room + 1)) s () post := by
  have hlook : Yields B.bus (input PORT_STATUS) s (B.status s) fun s' => s' = looked s 1 :=
    ⟨rfl, rfl⟩
  refine hlook.bind fun s' hs' => ?_
  subst hs'
  rw [status_output_full]
  cases hfull : full s with
  | false => exact Yields.pure (hover hfull _ (h.looked 1))
  | true =>
      have hdelay : s.delay = 0 := (of_decide_eq_true hfull).2
      have hshown : full (looked s 1) = true := by
        rw [full_looked]
        exact decide_eq_true ⟨(of_decide_eq_true hfull).1, Nat.le_succ_of_le (Nat.le_of_eq hdelay)⟩
      refine (data_yields (h.looked 1) hshown).bind fun s'' hs'' => ?_
      refine hmore hfull s'' hs''.1 ?_
      rw [hs''.2]
      exact Nat.sub_eq_zero_of_le (Nat.le_succ_of_le (Nat.le_of_eq hdelay))

theorem flush_output_nothing (h : Stands r s) (hout : r.out = []) :
    Yields B.bus flush_output s () (Stands r) := by
  have hfull : full s = false := by simp [full, h.regs, hout]
  exact flush_round _ h (fun _ s' hs' => hs') fun hfull' => absurd hfull (by simp [hfull'])

-- Bytes left over from before are read away, as long as they show.
theorem flush_from_yields (room : Nat) {r : Registers δ} {s : Bus δ ε} (h : Stands r s)
    (hdelay : s.delay = 0) (hroom : r.out.length ≤ room) :
    Yields B.bus (flush_from room) s () (Stands { r with out := [] }) := by
  induction room generalizing r s with
  | zero =>
      have hout : r.out = [] := List.length_eq_zero_iff.mp (Nat.le_zero.mp hroom)
      exact Yields.pure (hout ▸ h)
  | succ room ih =>
      refine flush_round room h ?_ fun _ s' hs' hdelay' => ?_
      · intro hfull s' hs'
        have hout : r.out = [] := by simpa [full, hdelay, h.regs] using hfull
        exact hout ▸ hs'
      · have hroom' : r.out.tail.length ≤ room := by
          rw [List.length_tail]
          exact Nat.sub_le_of_le_add hroom
        exact ih (r := { r with out := r.out.tail }) hs' hdelay' hroom'

theorem spin_delay_us_yields (micros : UInt32) (h : Stands r s) :
    Yields B.bus (Interrupts.Pit.spin_delay_us micros) s () (Stands r) := by
  refine ⟨rfl, (Interrupts.Pit.spin_delay_us_touches micros).keeps ?_ ?_ h⟩
  · intro port s hport hs
    obtain ⟨hstatus, hdata⟩ := ofDelay_ports hport
    have hread : B.bus.read port s = ((B.elsewhere.read port s.elsewhere).1,
        { s with elsewhere := (B.elsewhere.read port s.elsewhere).2, clock := s.clock + 1 }) :=
      (if_neg hstatus).trans (if_neg hdata)
    rw [hread]
    exact ⟨hs.regs, hs.busy, hs.delay⟩
  · intro port b s hport hs
    obtain ⟨hstatus, hdata⟩ := ofDelay_ports hport
    have hwrite : B.bus.write port b s =
        { s with elsewhere := B.elsewhere.write port b s.elsewhere, clock := s.clock + 1 } :=
      if_neg (not_or.mpr ⟨hstatus, hdata⟩)
    rw [hwrite]
    exact ⟨hs.regs, hs.busy, hs.delay⟩

theorem controller_cmd_yields (cmd : UInt8) (h : Stands r s) :
    Yields B.bus (controller_cmd cmd) s true (Stands (B.command cmd r)) :=
  send_yields (.inl rfl) cmd h

theorem device_cmd_yields (b : UInt8) (h : Stands r s) :
    Yields B.bus (device_cmd b) s true (Stands (B.datum b r)) :=
  send_yields (.inr rfl) b h

theorem write_command_byte_yields (b : UInt8) (h : Stands r s) :
    Yields B.bus (write_command_byte b) s ()
      (Stands { r with command_byte := b, expects_byte := false }) :=
  (controller_cmd_yields _ h).bind fun _ hs => (device_cmd_yields b hs).bind fun _ hs' =>
    Yields.pure hs'

-- What comes back on the request for set 1, and where that leaves the registers.
def acks (B : Board δ ε) (r : Registers δ) : Option UInt8 × Option UInt8 × Registers δ :=
  let first := B.deliver DEV_SET_SCANCODE_SET r
  let second := B.deliver 0x01 first.2
  (first.1, second.1, second.2)

def accepts_set_1 (B : Board δ ε) (r : Registers δ) : Bool :=
  (B.acks r).1 = some 0xFA ∧ (B.acks r).2.1 = some 0xFA

-- No answer is left over, and the next byte on the data port is for the device.
def Quiet (r : Registers δ) : Prop := r.out = [] ∧ r.expects_byte = false

-- Only the switch of the port changes with a delivery, and the device.
theorem deliver_kept (B : Board δ ε) (b : UInt8) (r : Registers δ) :
    (B.deliver b r).2.out = r.out ∧ (B.deliver b r).2.expects_byte = r.expects_byte ∧
      (B.deliver b r).2.command_byte &&& ~~~PORT_1_OFF = r.command_byte &&& ~~~PORT_1_OFF := by
  unfold deliver
  split
  · exact ⟨rfl, rfl, rfl⟩
  · refine ⟨rfl, rfl, ?_⟩
    rw [UInt8.and_assoc, UInt8.and_self]

theorem Quiet.deliver (B : Board δ ε) (b : UInt8) (h : Quiet r) : Quiet (B.deliver b r).2 := by
  obtain ⟨hout, hexpects, -⟩ := B.deliver_kept b r
  exact ⟨hout.trans h.1, hexpects.trans h.2⟩

theorem acks_kept (B : Board δ ε) (r : Registers δ) :
    (B.acks r).2.2.out = r.out ∧
      (B.acks r).2.2.command_byte &&& ~~~PORT_1_OFF = r.command_byte &&& ~~~PORT_1_OFF := by
  obtain ⟨hout, -, hbyte⟩ := B.deliver_kept DEV_SET_SCANCODE_SET r
  obtain ⟨hout', -, hbyte'⟩ := B.deliver_kept 0x01 (B.deliver DEV_SET_SCANCODE_SET r).2
  exact ⟨hout'.trans hout, hbyte'.trans hbyte⟩

-- One byte to the device, and what comes back.
theorem ask_yields {γ : Type} {c : γ} {f : Option UInt8 → Talk UInt16 γ} {post : Bus δ ε → Prop}
    (b : UInt8) (h : Stands r s) (hquiet : Quiet r)
    (hf : ∀ s', Stands (B.deliver b r).2 s' → Yields B.bus (f (B.deliver b r).1) s' c post) :
    Yields B.bus (device_cmd b >>= fun _ => read_response >>= f) s c post := by
  have hkept : (B.deliver b r).2.out = [] := (hquiet.deliver B b).1
  have hdatum : B.datum b r = { (B.deliver b r).2 with out := (B.deliver b r).1.toList } := by
    simp [datum, hquiet.1, hquiet.2]
  have hback : { (B.deliver b r).2 with out := [] } = (B.deliver b r).2 := by rw [← hkept]
  refine (device_cmd_yields b h).bind fun s' hs' => ?_
  rw [hdatum] at hs'
  refine (read_response_yields hs').bind fun s'' hs'' => ?_
  cases hanswer : (B.deliver b r).1 with
  | none =>
      simp only [hanswer, Option.toList_none, List.tail_nil, hback] at hs''
      rw [hanswer] at hf
      exact hf s'' hs''
  | some ack =>
      simp only [hanswer, Option.toList_some, List.tail_cons, hback] at hs''
      rw [hanswer] at hf
      exact hf s'' hs''

theorem request_set_1_yields (h : Stands r s) (hquiet : Quiet r) :
    Yields B.bus request_set_1 s (B.accepts_set_1 r) (Stands (B.acks r).2.2) :=
  ask_yields _ h hquiet fun _ hs => ask_yields _ hs (hquiet.deliver B _) fun _ hs' =>
    Yields.pure hs'

-- The registers as they stand when the device is asked for set 1.
def asked (cmd_byte : UInt8) (r : Registers δ) : Registers δ :=
  { r with command_byte := new_byte cmd_byte, expects_byte := false }

-- The command byte the driver chooses.
def chosen_byte (B : Board δ ε) (cmd_byte : UInt8) (r : Registers δ) : UInt8 :=
  if B.accepts_set_1 (asked cmd_byte r) then new_byte cmd_byte
  else new_byte cmd_byte ||| CB_TRANSLATE

-- Up to the switch of the port the chosen byte is the one in place.
theorem set_translation_yields (cmd_byte : UInt8) (h : Stands r s) (hout : r.out = []) :
    Yields B.bus (set_translation cmd_byte) s () fun s' => ∃ r',
      Stands r' s' ∧ r'.out = [] ∧ r'.device = (B.acks (asked cmd_byte r)).2.2.device ∧
      r'.command_byte &&& ~~~PORT_1_OFF = B.chosen_byte cmd_byte r &&& ~~~PORT_1_OFF := by
  refine (write_command_byte_yields _ h).bind fun s' hs' => ?_
  refine (request_set_1_yields (r := asked cmd_byte r) hs' ⟨hout, rfl⟩).bind fun s'' hs'' => ?_
  obtain ⟨hkept, hbyte⟩ := B.acks_kept (asked cmd_byte r)
  have hnone : (B.acks (asked cmd_byte r)).2.2.out = [] := hkept.trans hout
  unfold chosen_byte
  cases B.accepts_set_1 (asked cmd_byte r) with
  | true => exact Yields.pure ⟨_, hs'', hnone, rfl, hbyte⟩
  | false =>
      exact (write_command_byte_yields _ hs'').mono fun s hs => ⟨_, hs, hnone, rfl, rfl⟩

-- A command whose answer is one byte, and that byte.
theorem query_yields {γ : Type} {c : γ} {f : Option UInt8 → Talk UInt16 γ} {post : Bus δ ε → Prop}
    (cmd b : UInt8) (h : Stands r s) (hanswer : (B.command cmd r).out = [b])
    (hf : ∀ s', Stands { B.command cmd r with out := [] } s' → Yields B.bus (f (some b)) s' c post) :
    Yields B.bus (controller_cmd cmd >>= fun _ => read_response >>= f) s c post := by
  refine (controller_cmd_yields cmd h).bind fun s' hs' => ?_
  refine (read_response_yields hs').bind fun s'' hs'' => ?_
  rw [hanswer] at hs'' ⊢
  exact hf s'' hs''

-- The byte is read with the port already switched off.
theorem read_command_byte_yields (h : Stands r s) (hout : r.out = []) :
    Yields B.bus read_command_byte s (r.command_byte ||| PORT_1_OFF) (Stands
      { r with
        command_byte := r.command_byte ||| PORT_1_OFF
        expects_byte := false
        out := [] }) := by
  refine (controller_cmd_yields CMD_DISABLE_PORT_1 h).bind fun s' hs' => ?_
  refine (flush_output_nothing hs' hout).bind fun s'' hs'' => ?_
  refine query_yields CMD_READ_COMMAND_BYTE (r.command_byte ||| PORT_1_OFF) hs'' ?_
    fun s hs => Yields.pure hs
  exact congrArg (· ++ [r.command_byte ||| PORT_1_OFF]) hout

theorem test_port_1_yields (h : Stands r s) (hout : r.out = []) :
    Yields B.bus test_port_1 s (B.port_test = 0)
      (Stands { r with expects_byte := false, out := [] }) := by
  refine query_yields CMD_TEST_PORT_1 B.port_test h ?_ fun s hs => ?_
  · exact congrArg (· ++ [B.port_test]) hout
  · refine ⟨?_, hs⟩
    simp

-- What `init` finds in the command byte: it has switched the port off by then.
def found (B : Board δ ε) (r : Registers δ) : UInt8 := B.after_test r.command_byte ||| PORT_1_OFF

-- What `init` makes of a working controller.
structure Configured (B : Board δ ε) (cmd_byte : UInt8) (r r' : Registers δ) : Prop where
  command_byte : r'.command_byte = B.chosen_byte cmd_byte r &&& ~~~PORT_1_OFF
  expects_byte : r'.expects_byte = false
  out : r'.out = []
  device : r'.device = (B.acks (asked cmd_byte r)).2.2.device

theorem configure_yields (cmd_byte : UInt8) (h : Stands r s) (hout : r.out = []) :
    Yields B.bus (configure cmd_byte) s
      ⟨if B.port_test = 0 then .Keyboard else .Controller, some cmd_byte⟩ fun s' =>
        ∃ r', Stands r' s' ∧
          Configured B cmd_byte { r with expects_byte := false, out := [] } r' := by
  refine (test_port_1_yields h hout).bind fun s' hs' => ?_
  refine (set_translation_yields cmd_byte hs' rfl).bind fun s' hs' => ?_
  obtain ⟨r', hs', hnone, hdevice, hbyte⟩ := hs'
  refine (controller_cmd_yields CMD_ENABLE_PORT_1 hs').bind fun s' hs' => ?_
  refine (flush_output_nothing hs' hnone).bind fun s' hs' => ?_
  refine ⟨by simp, _, hs', hbyte, rfl, hnone, hdevice⟩

-- The registers `configure` starts from.
def tested (B : Board δ ε) (r : Registers δ) : Registers δ :=
  { r with command_byte := B.found r, expects_byte := false, out := [] }

theorem init_yields (h : Stands r s) (hdelay : s.delay = 0) (hstale : r.out.length ≤ FLUSH_ROOM) :
    Yields B.bus init s
      ⟨if B.port_test = 0 then .Keyboard else .Controller, some (B.found r)⟩ fun s' =>
        ∃ r', Stands r' s' ∧ Configured B (B.found r) (B.tested r) r' := by
  refine (flush_from_yields FLUSH_ROOM h hdelay hstale).bind fun s' hs' => ?_
  refine (controller_cmd_yields CMD_SELF_TEST hs').bind fun s' hs' => ?_
  refine (spin_delay_us_yields 100 hs').bind fun s' hs' => ?_
  refine (read_response_yields hs').bind fun s' hs' => ?_
  refine (read_command_byte_yields hs' rfl).bind fun s' hs' => ?_
  have hconfigured := configure_yields (B := B) (B.found r) hs' rfl
  exact hconfigured

theorem shutdown_yields {presence : Presence} (hpresence : presence ≠ .Absent) (saved : UInt8)
    (h : Stands r s) :
    Yields B.bus (shutdown presence saved) s ()
      (Stands { r with command_byte := saved, expects_byte := false }) := by
  rw [shutdown, if_neg hpresence]
  exact write_command_byte_yields saved h

end Board

-- The bits of the command byte that neither the driver nor its commands are after.
def OTHER_BITS : UInt8 := ~~~(CB_IRQ1_ENABLE ||| PORT_1_OFF ||| CB_TRANSLATE)

theorem new_byte_and (cmd_byte mask : UInt8) :
    new_byte cmd_byte &&& mask =
      (cmd_byte &&& (~~~CB_TRANSLATE &&& mask)) |||
        (CB_IRQ1_ENABLE &&& (~~~CB_TRANSLATE &&& mask)) := by
  rw [new_byte, UInt8.and_assoc, byte_or_and]

namespace Board

variable {B}

theorem chosen_byte_other_bits (cmd_byte : UInt8) (r : Registers δ) :
    B.chosen_byte cmd_byte r &&& OTHER_BITS = cmd_byte &&& OTHER_BITS := by
  have hkept : ~~~CB_TRANSLATE &&& OTHER_BITS = OTHER_BITS := by decide
  have hnew : new_byte cmd_byte &&& OTHER_BITS = cmd_byte &&& OTHER_BITS := by
    rw [new_byte_and, hkept, show CB_IRQ1_ENABLE &&& OTHER_BITS = 0 by decide, UInt8.or_zero]
  unfold chosen_byte
  split
  · exact hnew
  · rw [byte_or_and, hnew, show CB_TRANSLATE &&& OTHER_BITS = 0 by decide, UInt8.or_zero]

theorem chosen_byte_irq1 (cmd_byte : UInt8) (r : Registers δ) :
    B.chosen_byte cmd_byte r &&& CB_IRQ1_ENABLE = CB_IRQ1_ENABLE := by
  have hkept : ~~~CB_TRANSLATE &&& CB_IRQ1_ENABLE = CB_IRQ1_ENABLE := by decide
  have hnew : new_byte cmd_byte &&& CB_IRQ1_ENABLE = CB_IRQ1_ENABLE := by
    rw [new_byte_and, hkept, UInt8.and_self, byte_and_or_self]
  unfold chosen_byte
  split
  · exact hnew
  · rw [byte_or_and, hnew, show CB_TRANSLATE &&& CB_IRQ1_ENABLE = 0 by decide, UInt8.or_zero]

theorem chosen_byte_translate (cmd_byte : UInt8) (r : Registers δ) :
    B.chosen_byte cmd_byte r &&& CB_TRANSLATE = 0 ↔ B.accepts_set_1 (asked cmd_byte r) = true := by
  have hnew : new_byte cmd_byte &&& CB_TRANSLATE = 0 := by
    rw [new_byte_and, show ~~~CB_TRANSLATE &&& CB_TRANSLATE = 0 by decide, UInt8.and_zero,
      UInt8.and_zero, UInt8.or_zero]
  unfold chosen_byte
  split
  case isTrue h => simp only [h, hnew]
  case isFalse h =>
    rw [byte_or_and, hnew, UInt8.and_self, UInt8.zero_or]
    exact ⟨fun hzero => absurd hzero (by decide), fun haccepts => absurd haccepts h⟩

-- The port is on again, and a mask that leaves its switch out sees the chosen byte.
theorem Configured.masked {cmd_byte mask : UInt8} {r r' : Registers δ}
    (h : Configured B cmd_byte r r') (hmask : ~~~PORT_1_OFF &&& mask = mask) :
    r'.command_byte &&& mask = B.chosen_byte cmd_byte r &&& mask := by
  rw [h.command_byte, UInt8.and_assoc, hmask]

theorem Configured.port_on {cmd_byte : UInt8} {r r' : Registers δ}
    (h : Configured B cmd_byte r r') :
    r'.command_byte &&& PORT_1_OFF = 0 := by
  rw [h.command_byte, UInt8.and_assoc, show ~~~PORT_1_OFF &&& PORT_1_OFF = 0 by decide,
    UInt8.and_zero]

end Board

-- A working controller that takes its time, a device that takes set 1 or does not, at most 33
-- stale bytes: the driver ends up with the port and its interrupt on, translation on exactly if
-- set 1 was refused and the other settings as the self-test left them. `shutdown` puts back the
-- byte that was read, and with it the port is off: it was read after the port was switched off.
theorem init_then_shutdown (s : Bus δ ε) (hbusy : s.busy < POLL_LIMIT) (hdelay : s.delay = 0)
    (hstale : s.regs.out.length ≤ FLUSH_ROOM) :
    let left := B.after_test s.regs.command_byte
    let up := run B.bus init s
    let down := run B.bus (shutdown up.1.presence (up.1.command_byte.getD 0)) up.2
    up.1 = ⟨if B.port_test = 0 then .Keyboard else .Controller, some (left ||| PORT_1_OFF)⟩ ∧
      up.2.regs.command_byte &&& CB_IRQ1_ENABLE = CB_IRQ1_ENABLE ∧
      up.2.regs.command_byte &&& PORT_1_OFF = 0 ∧
      (up.2.regs.command_byte &&& CB_TRANSLATE = 0 ↔
        B.accepts_set_1 (Board.asked (B.found s.regs) (B.tested s.regs)) = true) ∧
      up.2.regs.command_byte &&& OTHER_BITS = left &&& OTHER_BITS ∧ up.2.regs.out = [] ∧
      down.2.regs = { up.2.regs with command_byte := left ||| PORT_1_OFF } := by
  intro left up down
  have hstands : Board.Stands s.regs s := ⟨rfl, hbusy, hdelay ▸ (by decide)⟩
  obtain ⟨hprobed, r', hup, hconfigured⟩ := Board.init_yields (B := B) hstands hdelay hstale
  have hpresence : up.1.presence ≠ .Absent := by
    rw [hprobed]
    dsimp only
    split <;> exact Presence.noConfusion
  obtain ⟨-, hdown⟩ := Board.shutdown_yields hpresence (up.1.command_byte.getD 0) hup
  refine ⟨hprobed, ?_, ?_, ?_, ?_, ?_, ?_⟩
  · rw [hup.regs, hconfigured.masked (by decide)]
    exact Board.chosen_byte_irq1 _ _
  · rw [hup.regs]
    exact hconfigured.port_on
  · rw [hup.regs, hconfigured.masked (by decide)]
    exact Board.chosen_byte_translate _ _
  · rw [hup.regs, hconfigured.masked (by decide), Board.chosen_byte_other_bits, Board.found,
      byte_or_and, show PORT_1_OFF &&& OTHER_BITS = 0 by decide, UInt8.or_zero]
  · rw [hup.regs]
    exact hconfigured.out
  · have hexpects : r' = { r' with expects_byte := false } := by rw [← hconfigured.expects_byte]
    rw [hdown.regs, hup.regs, hprobed, hexpects]
    rfl

-- A keyboard that knows set 1, on a controller that answers at once and switches the port on for
-- a byte to the device.
def plain : Board Unit Unit where
  after_test := id
  port_test := 0
  switches_on := true
  undelivered := none
  answer := fun _ device => (some 0xFA, device)
  flags := fun _ => 0
  busy_for := fun _ => 1
  answer_after := fun _ => 1
  busy_short := fun _ => by decide
  answer_soon := fun _ => by decide
  elsewhere := ⟨fun _ s => (0x20, s), fun _ _ s => s⟩

theorem plain_is_left_off :
    let start : Bus Unit Unit := ⟨⟨0x65, false, [0xFA], ()⟩, 0, 0, 0, ()⟩
    let up := run plain.bus init start
    let down := run plain.bus (shutdown up.1.presence (up.1.command_byte.getD 0)) up.2
    up.1 = ⟨.Keyboard, some 0x75⟩ ∧ up.2.regs.command_byte &&& CB_TRANSLATE = 0 ∧
      up.2.regs.command_byte &&& PORT_1_OFF = 0 ∧
      down.2.regs = { up.2.regs with command_byte := 0x75 } := by
  intro start up down
  obtain ⟨hprobed, -, hon, htranslate, -, -, hdown⟩ :=
    init_then_shutdown plain start (by decide) rfl (by decide)
  have hfound : plain.after_test start.regs.command_byte ||| PORT_1_OFF = 0x75 := by decide
  rw [hfound] at hprobed hdown
  exact ⟨hprobed, htranslate.mpr (by decide), hon, hdown⟩

end Orin.Drivers.Keyboard
