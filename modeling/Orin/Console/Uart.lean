import Orin.Console.Wire
import Orin.Theory.Ports

namespace Orin.Console.Uart

open Theory Theory.Talk

def REG_DATA : UInt16 := 0
def REG_INT_ENABLE : UInt16 := 1
def REG_FIFO_CTRL : UInt16 := 2
def REG_LINE_CTRL : UInt16 := 3
def REG_MODEM_CTRL : UInt16 := 4
def REG_LINE_STATUS : UInt16 := 5

def LSR_THRE : UInt8 := (1 : UInt8) <<< 5
def LSR_DR : UInt8 := (1 : UInt8) <<< 0

def LINE_CTRL_8N1 : UInt8 := 0x03
def LINE_CTRL_DLAB : UInt8 := 0x80

def can_send (lsr : UInt8) : Bool := lsr &&& LSR_THRE ≠ 0

def has_data (lsr : UInt8) : Bool := lsr &&& LSR_DR ≠ 0

-- The loops give up when their counters pass these.
def LOOPBACK_POLLS : Nat := 100000
def SEND_POLLS : Nat := 10000001

variable (base : UInt16)

def loopback_answer : Talk UInt16 (Option UInt8) := do
  let ready ← Talk.poll (base + REG_LINE_STATUS) has_data LOOPBACK_POLLS
  if ready then
    let b ← input (base + REG_DATA)
    return some b
  else return none

-- Whether the byte sent in loopback came back; `initialised` is set to it.
def init : Talk UInt16 Bool := do
  output (base + REG_INT_ENABLE) 0x00
  output (base + REG_LINE_CTRL) LINE_CTRL_DLAB
  output (base + REG_DATA) 0x01
  output (base + REG_INT_ENABLE) 0x00
  output (base + REG_LINE_CTRL) LINE_CTRL_8N1
  output (base + REG_FIFO_CTRL) 0xC7
  output (base + REG_MODEM_CTRL) 0x0B
  output (base + REG_MODEM_CTRL) 0x1E
  output (base + REG_DATA) 0xAE
  let answer ← loopback_answer base
  output (base + REG_MODEM_CTRL) 0x0F
  return answer = some 0xAE

-- `up` is `initialised`; a port that does not drain in time is given up for good.
def write_byte (byte : UInt8) (up : Bool) : Talk UInt16 Bool :=
  if up then do
    let ready ← Talk.poll (base + REG_LINE_STATUS) can_send SEND_POLLS
    if ready then
      output (base + REG_DATA) byte
      return true
    else return false
  else return false

def try_read_byte (up : Bool) : Talk UInt16 (Option UInt8) :=
  if up then do
    let lsr ← input (base + REG_LINE_STATUS)
    if has_data lsr then
      let b ← input (base + REG_DATA)
      return some b
    else return none
  else return none

def before_feed (b : UInt8) (up : Bool) : Talk UInt16 Bool :=
  if b = 10 then write_byte base 13 up else return up

def write_str : (text : List UInt8) → (up : Bool) → Talk UInt16 Bool
  | [], up => return up
  | b :: rest, up => do
      let up ← before_feed base b up
      let up ← write_byte base b up
      write_str rest up

-- What the holders of the port's lock do with it, one call after the other.
inductive Call where
  | write_str (text : List UInt8)
  | try_read_byte

def Call.sends : Call → List UInt8
  | .write_str text => Serial.write_str text
  | .try_read_byte => []

def perform : Call → (up : Bool) → Talk UInt16 Bool
  | .write_str text, up => write_str base text up
  | .try_read_byte, up => do
      let _ ← try_read_byte base up
      return up

def session : List Call → (up : Bool) → Talk UInt16 Bool
  | [], up => return up
  | call :: rest, up => do
      let up ← perform base call up
      session rest up

section AnyPort

-- A byte goes to the data register only right after a status with the holding register empty,
-- and is read from it only right after a status with data.
def InTurn : Option (Access UInt16) → Access UInt16 → Prop
  | last, .write port _ =>
      port = base + REG_DATA →
        ∃ lsr, last = some (.read (base + REG_LINE_STATUS) lsr) ∧ can_send lsr
  | last, .read port _ =>
      port = base + REG_DATA →
        ∃ lsr, last = some (.read (base + REG_LINE_STATUS) lsr) ∧ has_data lsr

variable {base}

theorem inTurn_lenient : Lenient (InTurn base) := by
  intro last x h
  cases x with
  | read port b =>
      intro hport
      obtain ⟨lsr, hlast, -⟩ := h hport
      simp at hlast
  | write port b =>
      intro hport
      obtain ⟨lsr, hlast, -⟩ := h hport
      simp at hlast

theorem status_ne_data : base + REG_LINE_STATUS ≠ base + REG_DATA := by
  intro h
  exact absurd ((UInt16.add_right_inj base).mp h) (by decide)

theorem status_read_inTurn (lsr : UInt8) (last : Option (Access UInt16)) :
    InTurn base last (.read (base + REG_LINE_STATUS) lsr) := fun hport => absurd hport status_ne_data

theorem status_reads_mind (answers : List UInt8) :
    Minds (InTurn base) (answers.map (.read (base + REG_LINE_STATUS))) := by
  refine Minds.free fun x hx last => ?_
  obtain ⟨lsr, -, rfl⟩ := List.mem_map.mp hx
  exact status_read_inTurn lsr last

def BYTE_ACCESSES : Nat := SEND_POLLS + 1

def Call.accesses : Call → Nat
  | .write_str text => BYTE_ACCESSES * (Serial.write_str text).length
  | .try_read_byte => 2

-- What becomes of `bytes` handed to a port: in order, none twice, none left out between two
-- others, and none at all on a port that is down.
structure Sending (base : UInt16) (n : Nat) (bytes : List UInt8) (up : Bool)
    (trace : List (Access UInt16)) (up' : Bool) : Prop where
  in_turn : Minds (InTurn base) trace
  short : trace.length ≤ n
  sent : written (base + REG_DATA) trace <+: bytes
  all : up' = true → written (base + REG_DATA) trace = bytes
  down : up = false → trace = [] ∧ up' = false

theorem Sending.append {up mid up' : Bool} {n m : Nat} {bytes more : List UInt8}
    {past future : List (Access UInt16)} (hpast : Sending base n bytes up past mid)
    (hfuture : Sending base m more mid future up') :
    Sending base (n + m) (bytes ++ more) up (past ++ future) up' := by
  have hturn := hpast.in_turn.append inTurn_lenient hfuture.in_turn
  have hshort : (past ++ future).length ≤ n + m := by
    rw [List.length_append]
    exact Nat.add_le_add hpast.short hfuture.short
  cases mid with
  | true =>
      have hall := hpast.all rfl
      refine ⟨hturn, hshort, ?_, fun hup => ?_,
        fun hdown => absurd (hpast.down hdown).2 (by decide)⟩
      · rw [written_append, hall]
        exact List.prefix_append_right_inj bytes |>.mpr hfuture.sent
      · rw [written_append, hall, hfuture.all hup]
  | false =>
      obtain ⟨rfl, rfl⟩ := hfuture.down rfl
      rw [List.append_nil] at hturn hshort ⊢
      exact ⟨hturn, hshort, hpast.sent.trans (List.prefix_append _ _),
        fun hup => absurd hup (by decide), hpast.down⟩

theorem Sending.idle (up : Bool) : Sending base 0 [] up [] up :=
  ⟨Minds.nil, Nat.le_refl 0, List.prefix_rfl, fun _ => rfl, fun hdown => ⟨rfl, hdown⟩⟩

theorem write_byte_sending {byte : UInt8} {up up' : Bool} {trace : List (Access UInt16)}
    (h : Course (write_byte base byte up) trace up') :
    Sending base BYTE_ACCESSES [byte] up trace up' := by
  cases up with
  | false =>
      obtain ⟨rfl, rfl⟩ := Course.of_pure h
      exact ⟨Minds.nil, Nat.zero_le _, List.nil_prefix, fun hup => absurd hup (by decide),
        fun _ => ⟨rfl, rfl⟩⟩
  | true =>
      obtain ⟨early, late, -, ⟨hlate, hlength, rfl⟩ | ⟨lsr, hready, hlate, hlt, rfl⟩⟩ :=
        Course.of_poll_then h
      · obtain ⟨rfl, rfl⟩ := hlate.of_pure
        rw [List.append_nil]
        refine ⟨status_reads_mind early, ?_, ?_, fun hup => absurd hup (by decide), nofun⟩
        · rw [List.length_map, hlength]
          exact Nat.le_succ _
        · rw [written_reads]
          exact List.nil_prefix
      · obtain ⟨_, first, rest, hfirst, hrest, rfl⟩ := hlate.of_bind
        obtain rfl := hfirst.of_output
        obtain ⟨rfl, rfl⟩ := hrest.of_pure
        have hpair : Minds (InTurn base)
            [.read (base + REG_LINE_STATUS) lsr, .write (base + REG_DATA) byte] :=
          Minds.pair (status_read_inTurn lsr none) fun _ => ⟨lsr, rfl, hready⟩
        have hwritten : written (base + REG_DATA) (early.map (.read (base + REG_LINE_STATUS)) ++
            [.read (base + REG_LINE_STATUS) lsr, .write (base + REG_DATA) byte]) = [byte] := by
          rw [written_append, written_reads]
          simp [written]
        refine ⟨(status_reads_mind early).append inTurn_lenient hpair, ?_,
          hwritten ▸ List.prefix_rfl, fun _ => hwritten, nofun⟩
        rw [List.length_append, List.length_map]
        exact Nat.succ_le_succ hlt

theorem accesses_succ (n : Nat) :
    BYTE_ACCESSES + BYTE_ACCESSES * n = BYTE_ACCESSES * (n + 1) := by
  rw [Nat.mul_succ, Nat.add_comm]

theorem write_str_sending {text : List UInt8} {up up' : Bool} {trace : List (Access UInt16)}
    (h : Course (write_str base text up) trace up') :
    Sending base (BYTE_ACCESSES * (Serial.write_str text).length) (Serial.write_str text) up trace
      up' := by
  induction text generalizing up trace with
  | nil =>
      obtain ⟨rfl, rfl⟩ := h.of_pure
      exact Sending.idle _
  | cons b rest ih =>
      obtain ⟨up₁, first, late, hfirst, hlate, rfl⟩ := h.of_bind
      obtain ⟨up₂, second, later, hsecond, hlater, rfl⟩ := hlate.of_bind
      have hstep := (write_byte_sending hsecond).append (ih hlater)
      rw [accesses_succ] at hstep
      by_cases hfeed : b = 10
      · subst hfeed
        have hboth := (write_byte_sending hfirst).append hstep
        rw [accesses_succ] at hboth
        exact hboth
      · rw [before_feed, if_neg hfeed] at hfirst
        obtain ⟨rfl, rfl⟩ := hfirst.of_pure
        have hbytes : Serial.write_str (b :: rest) = [b] ++ Serial.write_str rest := by
          rw [Serial.write_str, List.flatMap_cons, if_neg hfeed]
          rfl
        rw [hbytes]
        exact hstep

theorem try_read_byte_sending {up : Bool} {answer : Option UInt8} {trace : List (Access UInt16)}
    (h : Course (try_read_byte base up) trace answer) : Sending base 2 [] up trace up := by
  cases up with
  | false =>
      obtain ⟨rfl, -⟩ := Course.of_pure h
      exact ⟨Minds.nil, Nat.zero_le 2, List.prefix_rfl, fun _ => rfl, fun _ => ⟨rfl, rfl⟩⟩
  | true =>
      obtain ⟨lsr, first, rest, hfirst, hrest, rfl⟩ := Course.of_bind h
      obtain rfl := hfirst.of_input
      by_cases hready : has_data lsr = true
      · rw [if_pos hready] at hrest
        obtain ⟨b, second, late, hsecond, hlate, rfl⟩ := hrest.of_bind
        obtain rfl := hsecond.of_input
        obtain ⟨rfl, -⟩ := hlate.of_pure
        have hpair : Minds (InTurn base)
            [.read (base + REG_LINE_STATUS) lsr, .read (base + REG_DATA) b] :=
          Minds.pair (status_read_inTurn lsr none) fun _ => ⟨lsr, rfl, hready⟩
        exact ⟨hpair, Nat.le_refl 2, List.prefix_rfl, fun _ => rfl, nofun⟩
      · rw [if_neg hready] at hrest
        obtain ⟨rfl, -⟩ := hrest.of_pure
        exact ⟨status_reads_mind [lsr], Nat.le_succ 1, List.prefix_rfl, fun _ => rfl, nofun⟩

theorem perform_sending {call : Call} {up up' : Bool} {trace : List (Access UInt16)}
    (h : Course (perform base call up) trace up') :
    Sending base call.accesses call.sends up trace up' := by
  cases call with
  | write_str text => exact write_str_sending h
  | try_read_byte =>
      obtain ⟨answer, early, late, hearly, hlate, rfl⟩ := h.of_bind
      obtain ⟨rfl, rfl⟩ := hlate.of_pure
      rw [List.append_nil]
      exact try_read_byte_sending hearly

-- Over any number of calls, on a port that may stop draining at any byte or never have been
-- there: the data register has seen a first part of the text, and all of it if the driver
-- still believes in the port.
theorem session_sending {calls : List Call} {up up' : Bool} {trace : List (Access UInt16)}
    (h : Course (session base calls up) trace up') :
    Sending base (calls.map Call.accesses).sum (calls.flatMap Call.sends) up trace up' := by
  induction calls generalizing up trace with
  | nil =>
      obtain ⟨rfl, rfl⟩ := h.of_pure
      exact Sending.idle _
  | cons call rest ih =>
      obtain ⟨mid, early, late, hearly, hlate, rfl⟩ := h.of_bind
      exact (perform_sending hearly).append (ih hlate)

-- A port whose holding register always reads as empty.
def drain : Device UInt16 Unit := ⟨fun _ s => (0x20, s), fun _ _ s => s⟩

theorem line_feed_session : ∃ trace,
    Course (session 0x3F8 [.write_str [72, 10], .try_read_byte] true) trace true ∧
      written 0x3F8 trace = [72, 13, 10] := by
  have hcourse := run_course drain (session 0x3F8 [.write_str [72, 10], .try_read_byte] true) ()
  exact ⟨_, hcourse, (session_sending hcourse).all rfl⟩

end AnyPort

-- A working chip, by its registers. `line` is what has gone out on the wire.
structure Chip where
  int_enable : UInt8
  line_ctrl : UInt8
  modem_ctrl : UInt8
  divisor_low : UInt8
  divisor_high : UInt8
  received : List UInt8
  line : List UInt8
  busy : Nat
  delay : Nat
  clock : Nat

namespace Chip

def dlab (c : Chip) : Bool := c.line_ctrl &&& LINE_CTRL_DLAB ≠ 0

def loopback (c : Chip) : Bool := c.modem_ctrl &&& 0x10 ≠ 0

def ready (c : Chip) : Bool := c.received ≠ [] ∧ c.delay = 0

def drained (c : Chip) : Bool := c.busy = 0

end Chip

-- How long the chip takes, and what its other status bits are, differs between machines.
structure Timing where
  flags : Nat → UInt8
  busy_for : Nat → Nat
  back_after : Nat → Nat
  busy_short (k : Nat) : busy_for k < SEND_POLLS
  back_soon (k : Nat) : back_after k < LOOPBACK_POLLS

namespace Timing

variable (T : Timing)

def status (c : Chip) : UInt8 :=
  (T.flags c.clock &&& ~~~(LSR_DR ||| LSR_THRE)) |||
    ((if c.ready then LSR_DR else 0) ||| (if c.drained then LSR_THRE else 0))

def read (reg : UInt16) (c : Chip) : UInt8 × Chip :=
  if reg = REG_LINE_STATUS then
    (T.status c, { c with busy := c.busy - 1, delay := c.delay - 1, clock := c.clock + 1 })
  else if reg = REG_DATA then
    (c.received.headD 0, { c with received := c.received.tail, clock := c.clock + 1 })
  else (0, { c with clock := c.clock + 1 })

-- In loopback the transmitter feeds the receiver and nothing reaches the wire. A byte written
-- while the holding register is full is lost.
def write_data (b : UInt8) (c : Chip) : Chip :=
  if c.dlab then { c with divisor_low := b }
  else if c.loopback then
    { c with received := c.received ++ [b], delay := T.back_after c.clock }
  else if c.drained then { c with line := c.line ++ [b], busy := T.busy_for c.clock }
  else c

def write (reg : UInt16) (b : UInt8) (c : Chip) : Chip :=
  let c := { c with clock := c.clock + 1 }
  if reg = REG_DATA then T.write_data b c
  else if reg = REG_INT_ENABLE then
    if c.dlab then { c with divisor_high := b } else { c with int_enable := b }
  else if reg = REG_FIFO_CTRL then if b &&& 0x02 ≠ 0 then { c with received := [] } else c
  else if reg = REG_LINE_CTRL then { c with line_ctrl := b }
  else if reg = REG_MODEM_CTRL then { c with modem_ctrl := b }
  else c

def device (base : UInt16) : Device UInt16 Chip where
  read port := T.read (port - base)
  write port := T.write (port - base)

theorem register_at (base reg : UInt16) : base + reg - base = reg := by
  rw [UInt16.add_comm, UInt16.add_sub_cancel]

theorem device_read (reg : UInt16) (c : Chip) :
    (T.device base).read (base + reg) c = T.read reg c :=
  congrArg (fun reg => T.read reg c) (register_at base reg)

theorem device_write (reg : UInt16) (b : UInt8) (c : Chip) :
    (T.device base).write (base + reg) b c = T.write reg b c :=
  congrArg (fun reg => T.write reg b c) (register_at base reg)

theorem status_can_send (c : Chip) : can_send (T.status c) = c.drained := by
  unfold can_send status
  rw [flags_beside _ (by decide)]
  cases c.ready <;> cases c.drained <;> decide

theorem status_has_data (c : Chip) : has_data (T.status c) = c.ready := by
  unfold has_data status
  rw [flags_beside _ (by decide)]
  cases c.ready <;> cases c.drained <;> decide

-- The chip after `i` looks at the status.
def looked (c : Chip) (i : Nat) : Chip :=
  { c with busy := c.busy - i, delay := c.delay - i, clock := c.clock + i }

theorem read_looked (c : Chip) (i : Nat) :
    (T.device base).read (base + REG_LINE_STATUS) (looked c i) =
      (T.status (looked c i), looked c (i + 1)) :=
  T.device_read base REG_LINE_STATUS (looked c i)

-- Set up for text: nothing in the way of the wire.
structure Open (c : Chip) : Prop where
  dlab : c.dlab = false
  loopback : c.loopback = false
  busy : c.busy < SEND_POLLS

variable {T} {c : Chip} {base}

-- `bytes` more on the wire, and the port as open as before.
def SentOn (c : Chip) (bytes : List UInt8) (c' : Chip) : Prop :=
  Open c' ∧ c'.line = c.line ++ bytes

theorem write_data_open (h : Open c) (hdrained : c.busy = 0) (b : UInt8) :
    SentOn c [b] (T.write REG_DATA b c) := by
  have hwrite : T.write REG_DATA b c =
      { c with
        line := c.line ++ [b]
        busy := T.busy_for (c.clock + 1)
        clock := c.clock + 1 } :=
    (if_neg (ne_true_of_eq_false h.dlab)).trans ((if_neg (ne_true_of_eq_false h.loopback)).trans
      (if_pos (decide_eq_true hdrained)))
  rw [hwrite]
  exact ⟨⟨h.dlab, h.loopback, T.busy_short _⟩, rfl⟩

theorem write_byte_yields (h : Open c) (b : UInt8) :
    Yields (T.device base) (write_byte base b true) c true (SentOn c [b]) := by
  have hready : ∀ i, can_send (T.status (looked c i)) = decide (c.busy - i = 0) :=
    fun i => T.status_can_send (looked c i)
  have hrun := run_poll_ready (fun i => T.status (looked c i)) (looked c) h.busy
    (T.read_looked base c)
    (fun i hi => (hready i).trans (decide_eq_false (Nat.sub_ne_zero_of_lt hi)))
    ((hready c.busy).trans (decide_eq_true (Nat.sub_self _)))
  have hpoll : Yields (T.device base) (Talk.poll (base + REG_LINE_STATUS) can_send SEND_POLLS) c true
      fun c' => c' = looked c (c.busy + 1) := ⟨congrArg Prod.fst hrun, congrArg Prod.snd hrun⟩
  refine hpoll.bind fun c' hc' => ⟨rfl, ?_⟩
  subst hc'
  have hopen : Open (looked c (c.busy + 1)) :=
    ⟨h.dlab, h.loopback, Nat.lt_of_le_of_lt (Nat.sub_le _ _) h.busy⟩
  have hsent := write_data_open (T := T) hopen (Nat.sub_eq_zero_of_le (Nat.le_succ _)) b
  rw [← T.device_write base] at hsent
  exact hsent

theorem SentOn.idle (h : Open c) : SentOn c [] c := ⟨h, (List.append_nil _).symm⟩

theorem SentOn.append {c' c'' : Chip} {bytes more : List UInt8} (h : SentOn c bytes c')
    (h' : SentOn c' more c'') : SentOn c (bytes ++ more) c'' :=
  ⟨h'.1, by rw [h'.2, h.2, List.append_assoc]⟩

-- Two sendings in a row.
theorem SentOn.bind {t : Talk UInt16 Bool} {f : Bool → Talk UInt16 Bool} {bytes more : List UInt8}
    (ht : Yields (T.device base) t c true (SentOn c bytes))
    (hf : ∀ c', Open c' → Yields (T.device base) (f true) c' true (SentOn c' more)) :
    Yields (T.device base) (t >>= f) c true (SentOn c (bytes ++ more)) :=
  ht.bind fun c' hc' => (hf c' hc'.1).mono fun _ => hc'.append

theorem before_feed_yields (b : UInt8) (h : Open c) :
    Yields (T.device base) (before_feed base b true) c true
      (SentOn c (if b = 10 then [13] else [])) := by
  unfold before_feed
  split
  · exact write_byte_yields h 13
  · exact Yields.pure (SentOn.idle h)

theorem write_str_yields (text : List UInt8) (h : Open c) :
    Yields (T.device base) (write_str base text true) c true (SentOn c (Serial.write_str text)) := by
  induction text generalizing c with
  | nil => exact Yields.pure (SentOn.idle h)
  | cons b rest ih =>
      have hbytes : Serial.write_str (b :: rest) =
          (if b = 10 then [13] else []) ++ ([b] ++ Serial.write_str rest) := by
        rw [Serial.write_str, List.flatMap_cons]
        split <;> rfl
      rw [hbytes]
      exact SentOn.bind (before_feed_yields b h) fun c' hc' =>
        SentOn.bind (write_byte_yields hc' b) fun c'' hc'' => ih hc''

theorem try_read_byte_yields (h : Open c) :
    Yields (T.device base) (perform base .try_read_byte true) c true (SentOn c []) := by
  have hopen : Open (looked c 1) :=
    ⟨h.dlab, h.loopback, Nat.lt_of_le_of_lt (Nat.sub_le _ _) h.busy⟩
  have hlook : Yields (T.device base) (input (base + REG_LINE_STATUS)) c (T.status c)
      fun c' => c' = looked c 1 :=
    ⟨congrArg Prod.fst (T.read_looked base c 0), congrArg Prod.snd (T.read_looked base c 0)⟩
  have hread : Yields (T.device base) (try_read_byte base true) c
      (if c.ready then some (c.received.headD 0) else none) (SentOn c []) := by
    refine hlook.bind fun c' hc' => ?_
    subst hc'
    rw [status_has_data]
    cases c.ready with
    | false => exact Yields.pure ⟨hopen, (List.append_nil _).symm⟩
    | true =>
        have hdata := T.device_read base REG_DATA (looked c 1)
        refine ⟨congrArg (some ∘ Prod.fst) hdata, ?_⟩
        show SentOn c [] ((T.device base).read (base + REG_DATA) (looked c 1)).2
        rw [hdata]
        exact ⟨⟨h.dlab, h.loopback, hopen.busy⟩, (List.append_nil _).symm⟩
  exact hread.bind fun c' hc' => Yields.pure hc'

theorem perform_yields (call : Call) (h : Open c) :
    Yields (T.device base) (perform base call true) c true (SentOn c call.sends) := by
  cases call with
  | write_str text => exact write_str_yields text h
  | try_read_byte => exact try_read_byte_yields h

theorem session_yields (calls : List Call) (h : Open c) :
    Yields (T.device base) (session base calls true) c true
      (SentOn c (calls.flatMap Call.sends)) := by
  induction calls generalizing c with
  | nil => exact Yields.pure (SentOn.idle h)
  | cons call rest ih => exact SentOn.bind (perform_yields call h) fun c' hc' => ih hc'

-- The two halves of `init`: the divisor behind the latch, then the test byte in loopback.
def latched (c : Chip) : Chip :=
  { c with
    int_enable := if c.dlab then c.int_enable else 0x00
    line_ctrl := LINE_CTRL_DLAB
    divisor_low := 0x01
    divisor_high := 0x00
    clock := c.clock + 4 }

def tested (T : Timing) (c : Chip) : Chip :=
  { latched c with
    line_ctrl := LINE_CTRL_8N1
    modem_ctrl := 0x1E
    received := [0xAE]
    delay := T.back_after (c.clock + 9)
    clock := c.clock + 9 }

theorem write_data_dlab (h : c.dlab = true) (b : UInt8) :
    T.write REG_DATA b c = { c with divisor_low := b, clock := c.clock + 1 } := if_pos h

theorem write_int_enable_dlab (h : c.dlab = true) (b : UInt8) :
    T.write REG_INT_ENABLE b c = { c with divisor_high := b, clock := c.clock + 1 } := if_pos h

theorem write_data_loopback (h : c.dlab = false) (h' : c.loopback = true) (b : UInt8) :
    T.write REG_DATA b c =
      { c with
        received := c.received ++ [b]
        delay := T.back_after (c.clock + 1)
        clock := c.clock + 1 } :=
  (if_neg (ne_true_of_eq_false h)).trans (if_pos h')

theorem latch_writes (c : Chip) :
    T.write REG_INT_ENABLE 0x00 (T.write REG_DATA 0x01 (T.write REG_LINE_CTRL LINE_CTRL_DLAB
      (T.write REG_INT_ENABLE 0x00 c))) = latched c := by
  have hdlab : ∀ c : Chip, (T.write REG_LINE_CTRL LINE_CTRL_DLAB c).dlab = true :=
    fun c => show decide (LINE_CTRL_DLAB &&& LINE_CTRL_DLAB ≠ 0) = true by decide
  have hfirst : T.write REG_INT_ENABLE 0x00 c =
      if c.dlab then { c with divisor_high := 0x00, clock := c.clock + 1 }
      else { c with int_enable := 0x00, clock := c.clock + 1 } := rfl
  rw [write_data_dlab (hdlab _)]
  refine (write_int_enable_dlab ?_ _).trans ?_
  · exact hdlab (T.write REG_INT_ENABLE 0x00 c)
  · rw [hfirst, latched]
    cases c.dlab with
    | true => rfl
    | false => rfl

theorem loopback_writes (c : Chip) :
    T.write REG_DATA 0xAE (T.write REG_MODEM_CTRL 0x1E (T.write REG_MODEM_CTRL 0x0B
      (T.write REG_FIFO_CTRL 0xC7 (T.write REG_LINE_CTRL LINE_CTRL_8N1 (latched c))))) =
        T.tested c := by
  have hdlab : decide (LINE_CTRL_8N1 &&& LINE_CTRL_DLAB ≠ 0) = false := by decide
  have hloopback : decide ((0x1E : UInt8) &&& 0x10 ≠ 0) = true := by decide
  refine (write_data_loopback ?_ ?_ _).trans rfl
  · exact hdlab
  · exact hloopback

theorem loopback_answer_yields (hreceived : c.received = [0xAE]) (hdelay : c.delay < LOOPBACK_POLLS) :
    Yields (T.device base) (loopback_answer base) c (some 0xAE) fun c' =>
      c' = { looked c (c.delay + 1) with received := [], clock := c.clock + c.delay + 2 } := by
  have hready : ∀ i, has_data (T.status (looked c i)) = decide (c.delay - i = 0) := by
    intro i
    rw [status_has_data]
    simp [Chip.ready, looked, hreceived]
  have hrun := run_poll_ready (fun i => T.status (looked c i)) (looked c) hdelay
    (T.read_looked base c)
    (fun i hi => (hready i).trans (decide_eq_false (Nat.sub_ne_zero_of_lt hi)))
    ((hready c.delay).trans (decide_eq_true (Nat.sub_self _)))
  have hpoll : Yields (T.device base) (Talk.poll (base + REG_LINE_STATUS) has_data LOOPBACK_POLLS) c
      true fun c' => c' = looked c (c.delay + 1) := ⟨congrArg Prod.fst hrun, congrArg Prod.snd hrun⟩
  refine hpoll.bind fun c' hc' => ?_
  subst hc'
  have hdata : (T.device base).read (base + REG_DATA) (looked c (c.delay + 1)) =
      (0xAE, { looked c (c.delay + 1) with received := [], clock := c.clock + c.delay + 2 }) := by
    have hregister : T.read REG_DATA (looked c (c.delay + 1)) =
        (c.received.headD 0, { looked c (c.delay + 1) with
          received := c.received.tail, clock := c.clock + c.delay + 2 }) := rfl
    rw [device_read, hregister, hreceived]
    rfl
  exact ⟨congrArg (some ∘ Prod.fst) hdata, congrArg Prod.snd hdata⟩

theorem init_yields (hbusy : c.busy < SEND_POLLS) :
    Yields (T.device base) (init base) c true fun c' =>
      Open c' ∧ c'.line = c.line ∧ c'.line_ctrl = LINE_CTRL_8N1 ∧
        (c'.divisor_low, c'.divisor_high) = (0x01, 0x00) ∧
        (c.dlab = false → c'.int_enable = 0x00) := by
  refine Yields.output_bind <| Yields.output_bind <| Yields.output_bind <| Yields.output_bind <|
    Yields.output_bind <| Yields.output_bind <| Yields.output_bind <| Yields.output_bind <|
      Yields.output_bind ?_
  simp only [device_write]
  rw [latch_writes, loopback_writes]
  refine (loopback_answer_yields rfl (T.back_soon _)).bind fun c' hc' => Yields.output_bind ?_
  subst hc'
  rw [device_write]
  have hdlab : decide (LINE_CTRL_8N1 &&& LINE_CTRL_DLAB ≠ 0) = false := by decide
  have hloopback : decide ((0x0F : UInt8) &&& 0x10 ≠ 0) = false := by decide
  refine Yields.pure ⟨⟨?_, ?_, Nat.lt_of_le_of_lt (Nat.sub_le _ _) hbusy⟩, rfl, rfl, rfl, ?_⟩
  · exact hdlab
  · exact hloopback
  · exact fun hdlab => if_neg (ne_true_of_eq_false hdlab)

end Timing

-- On a working chip, whatever state it is found in: the test byte stays off the wire, the line
-- is set to 8N1 at divisor 1, and every call after that sends its text whole.
theorem text_reaches_the_wire (T : Timing) (c : Chip) (hbusy : c.busy < SEND_POLLS)
    (calls : List Call) :
    let up := run (T.device base) (init base) c
    let after := run (T.device base) (session base calls up.1) up.2
    up.1 = true ∧ up.2.line_ctrl = LINE_CTRL_8N1 ∧
      (up.2.divisor_low, up.2.divisor_high) = (0x01, 0x00) ∧
      (c.dlab = false → up.2.int_enable = 0x00) ∧
      after.1 = true ∧ after.2.line = c.line ++ calls.flatMap Call.sends := by
  intro up after
  obtain ⟨hup, hopen, hline, hctrl, hdivisor, hint⟩ := @Timing.init_yields base T c hbusy
  obtain ⟨hafter, hsent⟩ := @Timing.session_yields base T _ calls hopen
  have hsession : after = run (T.device base) (session base calls true) up.2 := by
    rw [← hup]
  refine ⟨hup, hctrl, hdivisor, hint, ?_, ?_⟩
  · rw [hsession, hafter]
  · rw [hsession, hsent.2, hline]

def brisk : Timing where
  flags := fun _ => 0
  busy_for := fun _ => 3
  back_after := fun _ => 2
  busy_short := fun _ => by decide
  back_soon := fun _ => by decide

theorem line_feed_on_the_wire :
    let chip : Chip := ⟨0x0F, 0x80, 0x10, 12, 0, [7], [], 2, 0, 0⟩
    let up := run (brisk.device 0x3F8) (init 0x3F8) chip
    (run (brisk.device 0x3F8) (session 0x3F8 [.write_str [72, 10], .try_read_byte] up.1) up.2).2.line =
      [72, 13, 10] := by
  intro chip up
  exact (text_reaches_the_wire 0x3F8 brisk chip (by decide)
    [.write_str [72, 10], .try_read_byte]).2.2.2.2.2

end Orin.Console.Uart
