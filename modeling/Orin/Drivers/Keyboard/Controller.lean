import Orin.Drivers.Keyboard
import Orin.Interrupts.Clock

namespace Orin.Drivers.Keyboard

open Theory Theory.Talk

def PORT_DATA : UInt16 := 0x60
def PORT_STATUS : UInt16 := 0x64

def ST_IN_BUFFER_FULL : UInt8 := (1 : UInt8) <<< 1

def CMD_READ_COMMAND_BYTE : UInt8 := 0x20
def CMD_WRITE_COMMAND_BYTE : UInt8 := 0x60
def CMD_SELF_TEST : UInt8 := 0xAA
def CMD_TEST_PORT_1 : UInt8 := 0xAB
def CMD_DISABLE_PORT_1 : UInt8 := 0xAD
def CMD_ENABLE_PORT_1 : UInt8 := 0xAE

def DEV_SET_SCANCODE_SET : UInt8 := 0xF0

def CB_IRQ1_ENABLE : UInt8 := (1 : UInt8) <<< 0
def CB_TRANSLATE : UInt8 := (1 : UInt8) <<< 6

def POLL_LIMIT : Nat := 2000000

def input_empty (status : UInt8) : Bool := status &&& ST_IN_BUFFER_FULL = 0

def output_full (status : UInt8) : Bool := status &&& ST_OUT_BUFFER_FULL ≠ 0

def wait_input_empty : Talk UInt16 Bool := Talk.poll PORT_STATUS input_empty POLL_LIMIT

def wait_output_full : Talk UInt16 Bool := Talk.poll PORT_STATUS output_full POLL_LIMIT

-- `controller_cmd` and `device_cmd` differ in the port alone.
def send (port : UInt16) (b : UInt8) : Talk UInt16 Bool := do
  let empty ← wait_input_empty
  if empty then
    output port b
    return true
  else return false

def controller_cmd (cmd : UInt8) : Talk UInt16 Bool := send PORT_STATUS cmd

def device_cmd (cmd : UInt8) : Talk UInt16 Bool := send PORT_DATA cmd

def device_cmd_write (b : UInt8) : Talk UInt16 Bool := device_cmd b

def read_response : Talk UInt16 (Option UInt8) := do
  let full ← wait_output_full
  if full then
    let b ← input PORT_DATA
    return some b
  else return none

-- `room` is how many bytes may still be read: the counter breaks the loop past 32, without
-- another look at the status.
def flush_from : (room : Nat) → Talk UInt16 Unit
  | 0 => return ()
  | room + 1 => do
      let status ← input PORT_STATUS
      if output_full status then
        let _ ← input PORT_DATA
        flush_from room
      else return ()

def FLUSH_ROOM : Nat := 33

def flush_output : Talk UInt16 Unit := flush_from FLUSH_ROOM

-- What `init` leaves in `STATE`: the presence, and the command byte if it stored one.
structure Probed where
  presence : Presence
  command_byte : Option UInt8
  deriving DecidableEq, Repr

def absent : Probed := ⟨.Absent, none⟩

def new_byte (cmd_byte : UInt8) : UInt8 := (cmd_byte ||| CB_IRQ1_ENABLE) &&& ~~~CB_TRANSLATE

def write_command_byte (b : UInt8) : Talk UInt16 Unit := do
  let _ ← controller_cmd CMD_WRITE_COMMAND_BYTE
  let _ ← device_cmd_write b
  return ()

-- Whether the device acknowledged the command and its argument.
def request_set_1 : Talk UInt16 Bool := do
  let _ ← device_cmd DEV_SET_SCANCODE_SET
  let ack ← read_response
  let _ ← device_cmd_write 0x01
  let ack2 ← read_response
  return ack = some 0xFA ∧ ack2 = some 0xFA

def set_translation (cmd_byte : UInt8) : Talk UInt16 Unit := do
  write_command_byte (new_byte cmd_byte)
  let accepted ← request_set_1
  if accepted then return ()
  else write_command_byte (new_byte cmd_byte ||| CB_TRANSLATE)

def read_command_byte : Talk UInt16 UInt8 := do
  let _ ← controller_cmd CMD_DISABLE_PORT_1
  flush_output
  let _ ← controller_cmd CMD_READ_COMMAND_BYTE
  let response ← read_response
  return response.getD 0

def test_port_1 : Talk UInt16 Bool := do
  let _ ← controller_cmd CMD_TEST_PORT_1
  let response ← read_response
  return response = some 0x00

-- The second half of `init`, once the self-test has passed.
def configure (cmd_byte : UInt8) : Talk UInt16 Probed := do
  let port_ok ← test_port_1
  set_translation cmd_byte
  let _ ← controller_cmd CMD_ENABLE_PORT_1
  flush_output
  return ⟨if port_ok then .Keyboard else .Controller, some cmd_byte⟩

def init : Talk UInt16 Probed := do
  flush_output
  let accepted ← controller_cmd CMD_SELF_TEST
  if accepted then
    Interrupts.Pit.spin_delay_us 100
    let response ← read_response
    if response = some 0x55 then
      let cmd_byte ← read_command_byte
      configure cmd_byte
    else return absent
  else return absent

-- `presence` and `saved` are what `STATE` holds.
def shutdown (presence : Presence) (saved : UInt8) : Talk UInt16 Unit :=
  if presence = .Absent then return ()
  else write_command_byte saved

section Turns

-- A byte goes to the controller only right after a status with an empty input buffer, and
-- is taken from it only right after a status with a full output buffer.
def InTurn : Option (Access UInt16) → Access UInt16 → Prop
  | last, .write port _ =>
      port = PORT_STATUS ∨ port = PORT_DATA →
        ∃ status, last = some (.read PORT_STATUS status) ∧ input_empty status
  | last, .read port _ =>
      port = PORT_DATA → ∃ status, last = some (.read PORT_STATUS status) ∧ output_full status

theorem inTurn_lenient : Lenient InTurn := by
  intro last x h
  cases x with
  | read port b =>
      intro hport
      obtain ⟨status, hlast, -⟩ := h hport
      simp at hlast
  | write port b =>
      intro hport
      obtain ⟨status, hlast, -⟩ := h hport
      simp at hlast

theorem status_read_inTurn (status : UInt8) (last : Option (Access UInt16)) :
    InTurn last (.read PORT_STATUS status) := fun hport => absurd hport (by decide)

theorem status_reads_mind (answers : List UInt8) :
    Minds InTurn (answers.map (.read PORT_STATUS)) := by
  refine Minds.free fun x hx last => ?_
  obtain ⟨status, -, rfl⟩ := List.mem_map.mp hx
  exact status_read_inTurn status last

-- The accesses by which bytes change hands. A look at the status is not one.
def exchanged : Access UInt16 → Bool
  | .read port _ => port = PORT_DATA
  | .write port _ => port = PORT_STATUS ∨ port = PORT_DATA

def exchange (trace : List (Access UInt16)) : List (Access UInt16) := trace.filter exchanged

-- The controller never shows a full input buffer for as long as the driver would wait.
def Prompt (trace : List (Access UInt16)) : Prop :=
  ∀ answers : List UInt8, answers.map (.read PORT_STATUS) <:+: trace →
    (∀ status ∈ answers, input_empty status = false) → answers.length < POLL_LIMIT

theorem Prompt.part {part trace : List (Access UInt16)} (h : Prompt trace)
    (hpart : part <:+: trace) : Prompt part := fun answers hwithin => h answers (hwithin.trans hpart)

-- What a stretch of accesses comes to: in turn, no more than `n` of them, and exchanging
-- `script`. Where the driver gives up a wait it leaves out what it waited for, and only then.
structure Conduct (n : Nat) (script trace : List (Access UInt16)) : Prop where
  in_turn : Minds InTurn trace
  short : trace.length ≤ n
  part : (exchange trace).Sublist script
  whole : Prompt trace → exchange trace = script

variable {n n' : Nat} {script script' trace : List (Access UInt16)}

theorem Conduct.append {past future : List (Access UInt16)} (hpast : Conduct n script past)
    (hfuture : Conduct n' script' future) :
    Conduct (n + n') (script ++ script') (past ++ future) where
  in_turn := hpast.in_turn.append inTurn_lenient hfuture.in_turn
  short := by
    rw [List.length_append]
    exact Nat.add_le_add hpast.short hfuture.short
  part := by
    rw [exchange, List.filter_append]
    exact hpast.part.append hfuture.part
  whole := by
    intro h
    rw [exchange, List.filter_append]
    exact congrArg₂ (· ++ ·) (hpast.whole (h.part (List.prefix_append _ _).isInfix))
      (hfuture.whole (h.part (List.suffix_append _ _).isInfix))

theorem Conduct.relax (h : Conduct n script trace) (hn : n ≤ n') : Conduct n' script trace :=
  ⟨h.in_turn, Nat.le_trans h.short hn, h.part, h.whole⟩

-- Accesses by which nothing changes hands.
theorem Conduct.silent (hturn : Minds InTurn trace) (h : ∀ x ∈ trace, exchanged x = false) :
    Conduct trace.length [] trace := by
  have hnone : exchange trace = [] := List.filter_eq_nil_iff.mpr fun x hx => by simp [h x hx]
  exact ⟨hturn, Nat.le_refl _, hnone ▸ List.Sublist.refl _, fun _ => hnone⟩

theorem Conduct.nil : Conduct 0 [] [] := .silent Minds.nil (by simp)

theorem Conduct.status_reads (answers : List UInt8) :
    Conduct answers.length [] (answers.map (.read PORT_STATUS)) := by
  have hsilent : ∀ x ∈ answers.map (.read PORT_STATUS), exchanged x = false := by
    intro x hx
    obtain ⟨status, -, rfl⟩ := List.mem_map.mp hx
    rfl
  simpa using Conduct.silent (status_reads_mind answers) hsilent

-- A status that allows it, then the access itself.
theorem Conduct.turn {status : UInt8} {x : Access UInt16} (hexchanged : exchanged x = true)
    (hx : InTurn (some (.read PORT_STATUS status)) x) :
    Conduct 2 [x] [.read PORT_STATUS status, x] := by
  have hone : exchange [.read PORT_STATUS status, x] = [x] := by
    simp [exchange, hexchanged, show exchanged (.read PORT_STATUS status) = false from rfl]
  refine ⟨Minds.pair (status_read_inTurn status none) hx, Nat.le_refl 2, ?_, fun _ => hone⟩
  rw [hone]

-- Looks at the status, the last of which allows the access that follows.
theorem Conduct.polled {early : List UInt8} {status : UInt8} {x : Access UInt16}
    (hlt : early.length < POLL_LIMIT) (hexchanged : exchanged x = true)
    (hx : InTurn (some (.read PORT_STATUS status)) x) :
    Conduct (POLL_LIMIT + 1) [x]
      (early.map (.read PORT_STATUS) ++ [.read PORT_STATUS status, x]) :=
  ((Conduct.status_reads early).append (.turn hexchanged hx)).relax (Nat.succ_le_succ hlt)

theorem not_prompt {early : List UInt8} (hlength : early.length = POLL_LIMIT)
    (hall : ∀ status ∈ early, input_empty status = false) :
    ¬ Prompt (early.map (.read PORT_STATUS)) :=
  fun h => absurd (h early (List.infix_refl _) hall) (by omega)

theorem send_conduct {port : UInt16} {b : UInt8} {accepted : Bool}
    (hport : port = PORT_STATUS ∨ port = PORT_DATA) (h : Course (send port b) trace accepted) :
    Conduct (POLL_LIMIT + 1) [.write port b] trace := by
  obtain ⟨early, late, hall, ⟨hlate, hlength, rfl⟩ | ⟨status, hempty, hlate, hlt, rfl⟩⟩ :=
    Course.of_poll_then h
  · -- given up: the controller was not prompt
    obtain ⟨rfl, -⟩ := hlate.of_pure
    rw [List.append_nil]
    have hreads := Conduct.status_reads early
    refine ⟨hreads.in_turn, Nat.le_succ_of_le (hlength ▸ hreads.short),
      hreads.part.trans (List.nil_sublist _), fun h => absurd h (not_prompt hlength hall)⟩
  · obtain ⟨_, first, rest, hfirst, hrest, rfl⟩ := hlate.of_bind
    obtain rfl := hfirst.of_output
    obtain ⟨rfl, -⟩ := hrest.of_pure
    exact Conduct.polled hlt (by simpa [exchanged] using hport) fun _ => ⟨status, rfl, hempty⟩

theorem controller_cmd_conduct {cmd : UInt8} {accepted : Bool}
    (h : Course (controller_cmd cmd) trace accepted) :
    Conduct (POLL_LIMIT + 1) [.write PORT_STATUS cmd] trace := send_conduct (.inl rfl) h

theorem device_cmd_conduct {b : UInt8} {accepted : Bool}
    (h : Course (device_cmd b) trace accepted) :
    Conduct (POLL_LIMIT + 1) [.write PORT_DATA b] trace := send_conduct (.inr rfl) h

-- Bytes taken from the controller: thrown away, or as the answer to a command.
def drained (stale : List UInt8) : List (Access UInt16) := stale.map (.read PORT_DATA)

def reply (response : Option UInt8) : List (Access UInt16) := drained response.toList

theorem read_response_conduct {response : Option UInt8} (h : Course read_response trace response) :
    Conduct (POLL_LIMIT + 1) (reply response) trace := by
  obtain ⟨early, late, -, ⟨hlate, hlength, rfl⟩ | ⟨status, hfull, hlate, hlt, rfl⟩⟩ :=
    Course.of_poll_then h
  · obtain ⟨rfl, rfl⟩ := hlate.of_pure
    rw [List.append_nil]
    exact (Conduct.status_reads early).relax (Nat.le_succ_of_le (Nat.le_of_eq hlength))
  · obtain ⟨b, first, rest, hfirst, hrest, rfl⟩ := hlate.of_bind
    obtain rfl := hfirst.of_input
    obtain ⟨rfl, rfl⟩ := hrest.of_pure
    exact Conduct.polled hlt rfl fun _ => ⟨status, rfl, hfull⟩

theorem flush_from_conduct {room : Nat} {u : Unit} (h : Course (flush_from room) trace u) :
    ∃ stale, stale.length ≤ room ∧ Conduct (2 * room) (drained stale) trace := by
  induction room generalizing trace with
  | zero =>
      obtain ⟨rfl, -⟩ := h.of_pure
      exact ⟨[], Nat.le_refl 0, Conduct.nil⟩
  | succ room ih =>
      obtain ⟨status, first, rest, hfirst, hrest, rfl⟩ := h.of_bind
      obtain rfl := hfirst.of_input
      by_cases hfull : output_full status = true
      · rw [if_pos hfull] at hrest
        obtain ⟨b, second, more, hsecond, hmore, rfl⟩ := hrest.of_bind
        obtain rfl := hsecond.of_input
        obtain ⟨stale, hlength, hconduct⟩ := ih hmore
        have hpair : Conduct 2 [.read PORT_DATA b] [.read PORT_STATUS status, .read PORT_DATA b] :=
          Conduct.turn rfl fun _ => ⟨status, rfl, hfull⟩
        refine ⟨b :: stale, Nat.succ_le_succ hlength, ?_⟩
        rw [← List.append_assoc]
        exact (hpair.append hconduct).relax (by omega)
      · rw [if_neg hfull] at hrest
        obtain ⟨rfl, -⟩ := hrest.of_pure
        exact ⟨[], Nat.zero_le _, (Conduct.status_reads [status]).relax (by simp; omega)⟩

theorem flush_output_conduct {u : Unit} (h : Course flush_output trace u) :
    ∃ stale, stale.length ≤ FLUSH_ROOM ∧ Conduct (2 * FLUSH_ROOM) (drained stale) trace :=
  flush_from_conduct h

-- The delay's accesses are none of the controller's business.
theorem ofDelay_ports {port : UInt16} (h : Interrupts.Pit.OfDelay port) :
    port ≠ PORT_STATUS ∧ port ≠ PORT_DATA := by
  obtain rfl | rfl | rfl := h <;> decide

theorem ofDelay_inTurn {x : Access UInt16} (hx : Interrupts.Pit.OfDelay x.port)
    (last : Option (Access UInt16)) : InTurn last x := by
  obtain ⟨hstatus, hdata⟩ := ofDelay_ports hx
  cases x with
  | read port b => exact fun hport => absurd hport hdata
  | write port b => exact fun hport => (hport.elim hstatus hdata).elim

theorem ofDelay_silent {x : Access UInt16} (hx : Interrupts.Pit.OfDelay x.port) :
    exchanged x = false := by
  obtain ⟨hstatus, hdata⟩ := ofDelay_ports hx
  cases x with
  | read port b => exact decide_eq_false hdata
  | write port b => exact decide_eq_false fun hport => hport.elim hstatus hdata

theorem spin_delay_us_conduct {micros : UInt32} {u : Unit}
    (h : Course (Interrupts.Pit.spin_delay_us micros) trace u) :
    Conduct Interrupts.Pit.DELAY_ACCESSES [] trace := by
  have hports := Interrupts.Pit.spin_delay_us_touches micros trace u h
  exact (Conduct.silent (Minds.free fun x hx => ofDelay_inTurn (hports x hx))
    fun x hx => ofDelay_silent (hports x hx)).relax
      (Interrupts.Pit.spin_delay_us_atMost micros trace u h)

-- The conversation, part by part.
def probing (stale : List UInt8) (response : Option UInt8) : List (Access UInt16) :=
  drained stale ++ .write PORT_STATUS CMD_SELF_TEST :: reply response

def reading (stale : List UInt8) (byte : Option UInt8) : List (Access UInt16) :=
  .write PORT_STATUS CMD_DISABLE_PORT_1 :: drained stale ++
    .write PORT_STATUS CMD_READ_COMMAND_BYTE :: reply byte

def setting (b : UInt8) : List (Access UInt16) :=
  [.write PORT_STATUS CMD_WRITE_COMMAND_BYTE, .write PORT_DATA b]

def asking (ack ack2 : Option UInt8) : List (Access UInt16) :=
  .write PORT_DATA DEV_SET_SCANCODE_SET :: reply ack ++ .write PORT_DATA 0x01 :: reply ack2

def translating (cmd_byte : UInt8) (ack ack2 : Option UInt8) : List (Access UInt16) :=
  setting (new_byte cmd_byte) ++ asking ack ack2 ++
    if ack = some 0xFA ∧ ack2 = some 0xFA then [] else setting (new_byte cmd_byte ||| CB_TRANSLATE)

def configuring (cmd_byte : UInt8) (test ack ack2 : Option UInt8) (stale : List UInt8) :
    List (Access UInt16) :=
  .write PORT_STATUS CMD_TEST_PORT_1 :: reply test ++ translating cmd_byte ack ack2 ++
    .write PORT_STATUS CMD_ENABLE_PORT_1 :: drained stale

theorem write_command_byte_conduct {b : UInt8} {u : Unit}
    (h : Course (write_command_byte b) trace u) :
    Conduct (2 * (POLL_LIMIT + 1)) (setting b) trace := by
  obtain ⟨_, command, rest, hcommand, hrest, rfl⟩ := h.of_bind
  obtain ⟨_, datum, done, hdatum, hdone, rfl⟩ := hrest.of_bind
  obtain ⟨rfl, -⟩ := hdone.of_pure
  rw [List.append_nil]
  exact ((controller_cmd_conduct hcommand).append (device_cmd_conduct hdatum)).relax (by decide)

theorem request_set_1_conduct {accepted : Bool} (h : Course request_set_1 trace accepted) :
    ∃ ack ack2, accepted = decide (ack = some 0xFA ∧ ack2 = some 0xFA) ∧
      Conduct (4 * (POLL_LIMIT + 1)) (asking ack ack2) trace := by
  obtain ⟨_, command, _, hcommand, h₁, rfl⟩ := h.of_bind
  obtain ⟨ack, answered, _, hack, h₂, rfl⟩ := h₁.of_bind
  obtain ⟨_, argument, _, hargument, h₃, rfl⟩ := h₂.of_bind
  obtain ⟨ack2, answered', _, hack2, hdone, rfl⟩ := h₃.of_bind
  obtain ⟨rfl, rfl⟩ := hdone.of_pure
  rw [List.append_nil]
  refine ⟨ack, ack2, rfl, ?_⟩
  have hrest := (device_cmd_conduct hargument).append (read_response_conduct hack2)
  exact ((device_cmd_conduct hcommand).append ((read_response_conduct hack).append hrest)).relax
    (by decide)

theorem set_translation_conduct {cmd_byte : UInt8} {u : Unit}
    (h : Course (set_translation cmd_byte) trace u) :
    ∃ ack ack2, Conduct (8 * (POLL_LIMIT + 1)) (translating cmd_byte ack ack2) trace := by
  obtain ⟨_, first, rest, hfirst, hrest, rfl⟩ := h.of_bind
  obtain ⟨accepted, asked, last, hasked, hlast, rfl⟩ := hrest.of_bind
  obtain ⟨ack, ack2, rfl, hasking⟩ := request_set_1_conduct hasked
  refine ⟨ack, ack2, ?_⟩
  rw [← List.append_assoc]
  have hearly := (write_command_byte_conduct hfirst).append hasking
  by_cases hboth : ack = some 0xFA ∧ ack2 = some 0xFA
  · rw [if_pos (decide_eq_true hboth)] at hlast
    obtain ⟨rfl, -⟩ := hlast.of_pure
    rw [translating, if_pos hboth]
    exact (hearly.append Conduct.nil).relax (by decide)
  · rw [if_neg (by simpa using hboth)] at hlast
    rw [translating, if_neg hboth]
    exact (hearly.append (write_command_byte_conduct hlast)).relax (by decide)

theorem read_command_byte_conduct {cmd_byte : UInt8} (h : Course read_command_byte trace cmd_byte) :
    ∃ stale byte, stale.length ≤ FLUSH_ROOM ∧ cmd_byte = byte.getD 0 ∧
      Conduct (3 * (POLL_LIMIT + 1) + 2 * FLUSH_ROOM) (reading stale byte) trace := by
  obtain ⟨_, off, _, hoff, h₁, rfl⟩ := h.of_bind
  obtain ⟨_, flushed, _, hflushed, h₂, rfl⟩ := h₁.of_bind
  obtain ⟨_, asked, _, hasked, h₃, rfl⟩ := h₂.of_bind
  obtain ⟨byte, answered, _, hanswered, hdone, rfl⟩ := h₃.of_bind
  obtain ⟨rfl, rfl⟩ := hdone.of_pure
  obtain ⟨stale, hlength, hflush⟩ := flush_output_conduct hflushed
  refine ⟨stale, byte, hlength, rfl, ?_⟩
  have hrest := (controller_cmd_conduct hasked).append (read_response_conduct hanswered)
  rw [List.append_nil]
  exact ((controller_cmd_conduct hoff).append (hflush.append hrest)).relax (by decide)

theorem test_port_1_conduct {port_ok : Bool} (h : Course test_port_1 trace port_ok) :
    ∃ test, port_ok = decide (test = some 0x00) ∧
      Conduct (2 * (POLL_LIMIT + 1)) (.write PORT_STATUS CMD_TEST_PORT_1 :: reply test) trace := by
  obtain ⟨_, asked, rest, hasked, hrest, rfl⟩ := h.of_bind
  obtain ⟨test, answered, done, hanswered, hdone, rfl⟩ := hrest.of_bind
  obtain ⟨rfl, rfl⟩ := hdone.of_pure
  rw [List.append_nil]
  exact ⟨test, rfl,
    ((controller_cmd_conduct hasked).append (read_response_conduct hanswered)).relax (by decide)⟩

theorem configure_conduct {cmd_byte : UInt8} {probed : Probed}
    (h : Course (configure cmd_byte) trace probed) :
    ∃ test ack ack2 stale, stale.length ≤ FLUSH_ROOM ∧
      probed = ⟨if test = some 0x00 then .Keyboard else .Controller, some cmd_byte⟩ ∧
      Conduct (11 * (POLL_LIMIT + 1) + 2 * FLUSH_ROOM) (configuring cmd_byte test ack ack2 stale)
        trace := by
  obtain ⟨_, tested, _, htested, h₁, rfl⟩ := h.of_bind
  obtain ⟨_, set, _, hset, h₂, rfl⟩ := h₁.of_bind
  obtain ⟨_, on, _, hon, h₃, rfl⟩ := h₂.of_bind
  obtain ⟨_, flushed, _, hflushed, hdone, rfl⟩ := h₃.of_bind
  obtain ⟨rfl, rfl⟩ := hdone.of_pure
  obtain ⟨test, rfl, htest⟩ := test_port_1_conduct htested
  obtain ⟨ack, ack2, htranslate⟩ := set_translation_conduct hset
  obtain ⟨stale, hlength, hflush⟩ := flush_output_conduct hflushed
  refine ⟨test, ack, ack2, stale, hlength, by simp, ?_⟩
  rw [List.append_nil, ← List.append_assoc]
  exact ((htest.append htranslate).append ((controller_cmd_conduct hon).append hflush)).relax
    (by decide)

end Turns

def PROBE_ACCESSES : Nat :=
  2 * FLUSH_ROOM + 2 * (POLL_LIMIT + 1) + Interrupts.Pit.DELAY_ACCESSES

def INIT_ACCESSES : Nat := PROBE_ACCESSES + 14 * (POLL_LIMIT + 1) + 4 * FLUSH_ROOM

-- Whatever answers on the two ports, also nothing at all: the driver keeps its turns and comes
-- to an end, and what it exchanges with the controller is the probe and, after an answer of
-- 0x55, the whole conversation.
theorem init_on_any_controller {trace : List (Access UInt16)} {probed : Probed}
    (h : Course init trace probed) :
    (∃ stale response, stale.length ≤ FLUSH_ROOM ∧ response ≠ some 0x55 ∧ probed = absent ∧
      Conduct PROBE_ACCESSES (probing stale response) trace) ∨
    ∃ stale stale' stale'' byte test ack ack2,
      (stale.length ≤ FLUSH_ROOM ∧ stale'.length ≤ FLUSH_ROOM ∧ stale''.length ≤ FLUSH_ROOM) ∧
      probed = ⟨if test = some 0x00 then .Keyboard else .Controller, some (byte.getD 0)⟩ ∧
      Conduct INIT_ACCESSES (probing stale (some 0x55) ++ reading stale' byte ++
        configuring (byte.getD 0) test ack ack2 stale'') trace := by
  obtain ⟨_, flushed, rest, hflushed, hrest, rfl⟩ := h.of_bind
  obtain ⟨accepted, tested, late, htest, hlate, rfl⟩ := hrest.of_bind
  obtain ⟨stale, hstale, hflush⟩ := flush_output_conduct hflushed
  cases accepted with
  | false =>
      obtain ⟨rfl, rfl⟩ := Course.of_pure hlate
      refine .inl ⟨stale, none, hstale, by simp, rfl, ?_⟩
      rw [List.append_nil]
      exact (hflush.append (controller_cmd_conduct htest)).relax (by decide)
  | true =>
      obtain ⟨_, delayed, rest, hdelay, hread, rfl⟩ := Course.of_bind hlate
      obtain ⟨response, answered, late, hanswer, hgo, rfl⟩ := hread.of_bind
      have hprobe : Conduct PROBE_ACCESSES (probing stale response)
          (flushed ++ (tested ++ (delayed ++ answered))) := by
        have hanswered := (spin_delay_us_conduct hdelay).append (read_response_conduct hanswer)
        exact (hflush.append ((controller_cmd_conduct htest).append hanswered)).relax (by decide)
      simp only [← List.append_assoc] at hprobe ⊢
      by_cases hpassed : response = some 0x55
      · subst hpassed
        rw [if_pos rfl] at hgo
        obtain ⟨cmd_byte, asked, rest, hasked, hconfigured, rfl⟩ := hgo.of_bind
        obtain ⟨stale', byte, hstale', rfl, hreading⟩ := read_command_byte_conduct hasked
        obtain ⟨test, ack, ack2, stale'', hstale'', rfl, hconfiguring⟩ :=
          configure_conduct hconfigured
        refine .inr ⟨stale, stale', stale'', byte, test, ack, ack2, ⟨hstale, hstale', hstale''⟩,
          rfl, ?_⟩
        rw [← List.append_assoc]
        exact ((hprobe.append hreading).append hconfiguring).relax (by decide)
      · rw [if_neg hpassed] at hgo
        obtain ⟨rfl, rfl⟩ := hgo.of_pure
        refine .inl ⟨stale, response, hstale, hpassed, rfl, ?_⟩
        rw [List.append_nil]
        exact hprobe

-- A controller with a keyboard, by the bytes it owes: every question is answered at once.
def obliging : Device UInt16 (List UInt8) where
  read port owed :=
    if port = PORT_STATUS then (if owed = [] then 0x00 else 0x01, owed)
    else if port = PORT_DATA then (owed.headD 0, owed.tail)
    else (0x20, owed)
  write port b owed :=
    if port = PORT_STATUS then
      if b = CMD_SELF_TEST then owed ++ [0x55]
      else if b = CMD_READ_COMMAND_BYTE then owed ++ [0x45]
      else if b = CMD_TEST_PORT_1 then owed ++ [0x00]
      else owed
    else if port = PORT_DATA ∧ b ≠ new_byte 0x45 then owed ++ [0xFA]
    else owed

theorem init_on_obliging_controller : ∃ trace, Course init trace ⟨.Keyboard, some 0x45⟩ ∧
    trace.length ≤ INIT_ACCESSES ∧ Minds InTurn trace ∧
    exchange trace =
      [.write PORT_STATUS 0xAA, .read PORT_DATA 0x55, .write PORT_STATUS 0xAD,
        .write PORT_STATUS 0x20, .read PORT_DATA 0x45, .write PORT_STATUS 0xAB,
        .read PORT_DATA 0x00, .write PORT_STATUS 0x60, .write PORT_DATA 0x05,
        .write PORT_DATA 0xF0, .read PORT_DATA 0xFA, .write PORT_DATA 0x01, .read PORT_DATA 0xFA,
        .write PORT_STATUS 0xAE] := by
  have hcourse := run_course obliging init []
  have hprobed : (run obliging init []).1 = ⟨.Keyboard, some 0x45⟩ := by rfl
  rw [hprobed] at hcourse
  obtain ⟨_, _, -, -, habsent, -⟩ | ⟨_, _, _, _, _, _, _, -, -, hconduct⟩ :=
    init_on_any_controller hcourse
  · exact absurd habsent (by decide)
  · exact ⟨_, hcourse, hconduct.short, hconduct.in_turn, by rfl⟩

end Orin.Drivers.Keyboard
