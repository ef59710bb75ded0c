import Orin.Console.Raw
import Orin.Panic

namespace Orin.Panic

open Rust Console

structure CpuRegs where
  rax : UInt64
  rbx : UInt64
  rcx : UInt64
  rdx : UInt64
  rsi : UInt64
  rdi : UInt64
  rbp : UInt64
  r8 : UInt64
  r9 : UInt64
  r10 : UInt64
  r11 : UInt64
  r12 : UInt64
  r13 : UInt64
  r14 : UInt64
  r15 : UInt64

namespace RegDump

def title : List Char :=
  "  --- registers as seen INSIDE the handler ---\n".toList ++
  "  (the faulting instruction's own register state is NOT recoverable via\n".toList ++
  "   extern \"x86-interrupt\"; RIP/RSP/RFLAGS/CS/SS above ARE the interrupted values)\n".toList

-- One `{:#018x}` behind its label.
def field (label : String) (value : UInt64) : List Char :=
  label.toList ++ (hex18 value.toNat).toList

def upper_rows (r : CpuRegs) : List Char :=
  field "  rax " r.rax ++ field "  rbx " r.rbx ++ field "  rcx " r.rcx ++ "\n".toList ++
  field "  rdx " r.rdx ++ field "  rsi " r.rsi ++ field "  rdi " r.rdi ++ "\n".toList ++
  field "  rbp " r.rbp ++ field "  r8  " r.r8 ++ field "  r9  " r.r9 ++ "\n".toList ++
  field "  r10 " r.r10 ++ field "  r11 " r.r11 ++ field "  r12 " r.r12 ++ "\n".toList

def last_row (r : CpuRegs) : List Char :=
  field "  r13 " r.r13 ++ field "  r14 " r.r14 ++ field "  r15 " r.r15 ++ "\n".toList

def fmt (r : CpuRegs) : List Char := title ++ upper_rows r ++ last_row r

end RegDump

-- `ORIN|P|PANIC|{}` with the general registers.
def general_line (r : CpuRegs) : List Char := "ORIN|P|PANIC|".toList ++ RegDump.fmt r

theorem digitChar_bytes : ∀ d < 16, (utf8 [Nat.digitChar d]).length = 1 := by decide

theorem toDigits_bytes (n : Nat) : (utf8 (Nat.toDigits 16 n)).length = (Nat.toDigits 16 n).length := by
  induction n using Nat.strongRecOn with
  | ind n ih =>
      rw [Nat.toDigits_eq_if (by decide)]
      split
      · exact digitChar_bytes n (by assumption)
      · rw [utf8_append, List.length_append, List.length_append, ih (n / 16) (by omega),
          digitChar_bytes (n % 16) (by omega)]
        rfl

theorem zeros_bytes (n : Nat) : (utf8 (List.replicate n '0')).length = n := by
  have hzero : String.utf8EncodeChar '0' = [48] := rfl
  rw [utf8_replicate hzero, List.length_replicate]

-- A register takes its eighteen columns whatever it holds.
theorem hex18_bytes (value : UInt64) : (utf8 (hex18 value.toNat).toList).length = 18 := by
  have hdigits : (Nat.toDigits 16 value.toNat).length ≤ 16 :=
    (Nat.length_toDigits_le_iff (by decide) (by decide)).mpr value.toNat_lt
  have htext : (hex18 value.toNat).toList = "0x".toList ++
      (List.replicate (16 - (Nat.toDigits 16 value.toNat).length) '0' ++
        Nat.toDigits 16 value.toNat) := by
    rw [hex18, String.toList_append]
    exact congrArg ("0x".toList ++ ·) String.toList_ofList
  rw [htext, utf8_append, utf8_append, List.length_append, List.length_append, zeros_bytes,
    toDigits_bytes, Nat.sub_add_cancel hdigits]
  rfl

theorem field_bytes {label : String} (h : (utf8 label.toList).length = 6) (value : UInt64) :
    (utf8 (RegDump.field label value)).length = 24 := by
  rw [RegDump.field, utf8_append, List.length_append, hex18_bytes, h]

theorem length_utf8_append {a b c d : List Char} : (utf8 (a ++ b ++ c ++ d)).length =
    (utf8 a).length + (utf8 b).length + (utf8 c).length + (utf8 d).length := by
  rw [utf8_append, utf8_append, utf8_append, List.length_append, List.length_append,
    List.length_append]

-- Three registers and the end of the line.
theorem row_bytes {above a b c eol : List Char} (ha : (utf8 a).length = 24)
    (hb : (utf8 b).length = 24) (hc : (utf8 c).length = 24) (heol : (utf8 eol).length = 1) :
    (utf8 (above ++ a ++ b ++ c ++ eol)).length = (utf8 above).length + 73 := by
  rw [length_utf8_append, utf8_append, List.length_append, ha, hb, hc, heol]

theorem upper_rows_bytes (r : CpuRegs) : (utf8 (RegDump.upper_rows r)).length = 292 := by
  have heol : (utf8 "\n".toList).length = 1 := by decide
  have hrow (above : List Char) {a b c : String} (x y z : UInt64)
      (ha : (utf8 a.toList).length = 6) (hb : (utf8 b.toList).length = 6)
      (hc : (utf8 c.toList).length = 6) : (utf8 (above ++ RegDump.field a x ++ RegDump.field b y ++
        RegDump.field c z ++ "\n".toList)).length = (utf8 above).length + 73 :=
    row_bytes (field_bytes ha x) (field_bytes hb y) (field_bytes hc z) heol
  have hfirst : (utf8 (RegDump.field "  rax " r.rax ++ RegDump.field "  rbx " r.rbx ++
      RegDump.field "  rcx " r.rcx ++ "\n".toList)).length = 73 := by
    refine length_utf8_append.trans ?_
    rw [field_bytes (by decide), field_bytes (by decide), field_bytes (by decide), heol]
  refine (hrow _ _ _ _ (by decide) (by decide) (by decide)).trans (congrArg (· + 73) ?_ : _ = 219 + 73)
  refine (hrow _ _ _ _ (by decide) (by decide) (by decide)).trans (congrArg (· + 73) ?_ : _ = 146 + 73)
  exact (hrow _ _ _ _ (by decide) (by decide) (by decide)).trans (congrArg (· + 73) hfirst)

theorem title_bytes : (utf8 RegDump.title).length = 201 := by decide +kernel

-- What fits of the line: it ends with the label of `r13`.
def visible (r : CpuRegs) : List Char :=
  "ORIN|P|PANIC|".toList ++ RegDump.title ++ RegDump.upper_rows r ++ "  r13 ".toList

theorem visible_bytes (r : CpuRegs) : (utf8 (visible r)).length = Raw.CAPACITY := by
  have htag : (utf8 "ORIN|P|PANIC|".toList).length = 13 := by decide +kernel
  have hlabel : (utf8 "  r13 ".toList).length = 6 := by decide +kernel
  refine length_utf8_append.trans ?_
  rw [htag, hlabel, title_bytes, upper_rows_bytes]
  rfl

-- A literal on the left of `++` is costly to match, so the texts are variables here.
theorem regroup {a b c d e f g h : List Char} :
    a ++ (b ++ c ++ (d ++ e ++ f ++ g ++ h)) = a ++ b ++ c ++ d ++ (e ++ f ++ g ++ h) := by
  simp only [List.append_assoc]

theorem general_line_eq (r : CpuRegs) : general_line r = visible r ++
    ((hex18 r.r13.toNat).toList ++ RegDump.field "  r14 " r.r14 ++ RegDump.field "  r15 " r.r15 ++
      "\n".toList) := regroup

theorem general_line_long (r : CpuRegs) : Raw.CAPACITY < (utf8 (general_line r)).length := by
  rw [general_line_eq, utf8_append, List.length_append, visible_bytes, utf8_append,
    List.length_append]
  exact Nat.lt_add_of_pos_right (Nat.lt_of_lt_of_le (by decide) (Nat.le_add_left 1 _))

theorem registers_cut {r : CpuRegs} {fragments : List (List Char)}
    (h : fragments.flatten = general_line r) :
    Raw.sent fragments = visible r ∧ ¬Raw.Delivered fragments := by
  have hlong : Raw.CAPACITY < (utf8 fragments.flatten).length := h ▸ general_line_long r
  have hbuffered : Raw.buffered fragments = utf8 (visible r) := by
    rw [Raw.buffered_eq, h, general_line_eq, utf8_append, ← visible_bytes r, List.take_left]
  refine ⟨(Raw.sent_of_utf8 hbuffered).2, fun hdelivered => ?_⟩
  -- the marker ends with a bracket, the line with a blank
  have hbytes : utf8 (visible r) =
      ((utf8 fragments.flatten).take 498 ++ utf8 "...[truncated".toList) ++ [93] := by
    rw [← hbuffered, Raw.buffered_eq, Raw.take_capacity, hdelivered.marked hlong, List.append_assoc]
    rfl
  have hlabel : utf8 "  r13 ".toList = utf8 "  r13".toList ++ [32] := by decide +kernel
  have hblank := utf8_append ("ORIN|P|PANIC|".toList ++ RegDump.title ++ RegDump.upper_rows r)
    "  r13 ".toList
  rw [hlabel, ← List.append_assoc] at hblank
  have hlast := List.append_inj_right' (hbytes.symm.trans hblank) rfl
  exact absurd hlast (by decide)

-- Whatever the registers hold, and in whatever pieces they are written: the report on the wire
-- stops at the label of `r13`, and nothing says that it was cut. The cursor stays on the screen.
theorem register_dump_cut (thre : Nat → Bool) (d : Raw.Devices) (r : CpuRegs)
    (fragments : List (List Char)) (h : fragments.flatten = general_line r) :
    ¬Raw.Delivered fragments ∧
      (d.serial_ok = true → (∀ n, thre n = true) →
        (Raw.print thre d fragments).wire = d.wire ++ Serial.write_str (utf8 (visible r))) ∧
      (Raw.OnScreen d → Raw.OnScreen (Raw.print thre d fragments)) := by
  obtain ⟨hsent, hcut⟩ := registers_cut h
  refine ⟨hcut, fun hok hthre => ?_, fun hd => Raw.print_onScreen hd fragments⟩
  rw [Raw.print_wire hok hthre, hsent]

-- All registers zero but `r15`, on an idle port and an empty screen.
def one_register : CpuRegs := ⟨0, 0, 0, 0, 0, 0, 0, 0, 0, 0, 0, 0, 0, 0, 0xDEAD⟩

def idle_devices : Raw.Devices := ⟨true, 0, 0, 0, [], fun _ _ => ⟨32, 0x07⟩⟩

theorem register_dump_cut_one :
    ¬Raw.Delivered [general_line one_register] ∧
      (Raw.print (fun _ => true) idle_devices [general_line one_register]).wire =
        Serial.write_str (utf8 (visible one_register)) := by
  obtain ⟨hcut, hwire, -⟩ := register_dump_cut (fun _ => true) idle_devices one_register
    [general_line one_register] (List.append_nil _)
  exact ⟨hcut, hwire rfl fun _ => rfl⟩

end Orin.Panic
