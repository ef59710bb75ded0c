import Mathlib.Tactic.SplitIfs
import Orin.Arch
import Orin.Multiboot.Heapless

namespace Orin.Multiboot

open Rust Heapless

namespace tag

def END : UInt16 := 0
def CMDLINE : UInt16 := 1
def BOOT_LOADER_NAME : UInt16 := 2
def MMAP : UInt16 := 6
def FRAMEBUFFER : UInt16 := 8
def ACPI_OLD : UInt16 := 13
def ACPI_NEW : UInt16 := 14
def LOAD_BASE_ADDR : UInt16 := 20

def ALIGN : Nat := 8
def HEADER_LEN : Nat := 8

end tag

namespace fbtype

def INDEXED : UInt8 := 0
def RGB : UInt8 := 1
def EGA_TEXT : UInt8 := 2

end fbtype

structure MmapEntry where
  base : UInt64
  length : UInt64
  mem_type : UInt32
  deriving DecidableEq, Repr

structure FramebufferInfo where
  address : UInt64
  pitch : UInt32
  width : UInt32
  height : UInt32
  bpp : UInt8
  fb_type : UInt8
  size : UInt64
  deriving DecidableEq, Repr

structure BootInfo where
  total_size : UInt32
  cmdline : Option Str
  loader_name : Option Str
  mmap : Vec MmapEntry
  framebuffer : Option FramebufferInfo
  acpi_rsdp : Option UInt64
  acpi_version : UInt8
  load_base_addr : Option UInt32
  tag_count : UInt32
  phys_addr : UInt64

inductive ParseError where
  | TooShort
  | SizeMismatch
  | TagOverrun
  | TagUndersize
  | NoMemoryMap
  | BadMmapEntrySize
  deriving DecidableEq, Repr

def ParseError.as_str : ParseError → String
  | TooShort => "information structure shorter than its header"
  | SizeMismatch => "declared total_size exceeds the buffer"
  | TagOverrun => "tag extends past the end of the structure"
  | TagUndersize => "tag size smaller than its 8-byte header"
  | NoMemoryMap => "no usable memory map (tag 6); refusing to guess RAM"
  | BadMmapEntrySize => "memory map entry_size smaller than one entry"

-- A parser call ends with a value, with `Err`, or with a panic of the code itself.
inductive Failure where
  | returned (e : ParseError)
  | panicked (p : Panic)
  deriving DecidableEq, Repr

def panicking {α : Type} : Except Panic α → Except Failure α
  | .ok a => .ok a
  | .error p => .error (.panicked p)

def ok_or {α : Type} (e : ParseError) : Option α → Except Failure α
  | some a => .ok a
  | none => .error (.returned e)

-- `b.get(off..off + count)`.
def get_range (b : List UInt8) (off count : Nat) : Except Panic (Option (List UInt8)) := do
  let stop ← add off count
  return if stop ≤ b.length then some ((b.drop off).take count) else none

-- `&b[first..last]`.
def slice (b : List UInt8) (first last : Nat) : Except Panic (List UInt8) :=
  if first ≤ last ∧ last ≤ b.length then .ok ((b.drop first).take (last - first))
  else .error (.rangeOutOfBounds first last b.length)

def from_le_bytes : List UInt8 → Nat
  | [] => 0
  | b :: rest => b.toNat + 256 * from_le_bytes rest

def u16_at (b : List UInt8) (off : Nat) : Except Panic (Option UInt16) := do
  return (← get_range b off 2).map fun s => UInt16.ofNat (from_le_bytes s)

def u32_at (b : List UInt8) (off : Nat) : Except Panic (Option UInt32) := do
  return (← get_range b off 4).map fun s => UInt32.ofNat (from_le_bytes s)

def u64_at (b : List UInt8) (off : Nat) : Except Panic (Option UInt64) := do
  return (← get_range b off 8).map fun s => UInt64.ofNat (from_le_bytes s)

def bytes_to_str (b : List UInt8) : String :=
  (String.fromUTF8? ⟨b.toArray⟩).getD "<non-utf8>"

def trim_nul (s : String) : String := String.ofList (s.toList.takeWhile (· ≠ '\x00'))

def text_of (body : List UInt8) : Str := Str.new.push_str (trim_nul (bytes_to_str body))

-- The three field reads of one memory-map entry; `none` is the `break` of a
-- short read.
def read_entry (body : List UInt8) (eoff : Nat) : Except Panic (Option MmapEntry) := do
  match ← u64_at body eoff with
  | none => return none
  | some base =>
      match ← u64_at body (← add eoff 8) with
      | none => return none
      | some length =>
          match ← u32_at body (← add eoff 16) with
          | none => return none
          | some mem_type => return some ⟨base, length, mem_type⟩

-- `while eoff + 24 <= body.len()`.
def parse_entries (body : List UInt8) (entry_size : Nat) (hsize : 24 ≤ entry_size)
    (eoff : Nat) (mmap : Vec MmapEntry) : Except Panic (Vec MmapEntry) :=
  match add eoff 24 with
  | .error p => .error p
  | .ok _ =>
      if _h : eoff + 24 ≤ body.length then
        match read_entry body eoff with
        | .error p => .error p
        | .ok none => .ok mmap
        | .ok (some entry) =>
            match mmap.push entry with
            | .error _ => .ok mmap
            | .ok mmap' =>
                match add eoff entry_size with
                | .error p => .error p
                | .ok _ => parse_entries body entry_size hsize (eoff + entry_size) mmap'
      else .ok mmap
termination_by body.length - eoff

def parse_mmap (body : List UInt8) (info : BootInfo) : Except Failure BootInfo := do
  let entry_size ← ok_or .BadMmapEntrySize (← panicking (u32_at body 0))
  let _entry_version ← ok_or .BadMmapEntrySize (← panicking (u32_at body 4))
  if h : entry_size.toNat < 24 then throw (.returned .BadMmapEntrySize)
  else
    let mmap ← panicking (parse_entries body entry_size.toNat (Nat.le_of_not_lt h) 8 info.mmap)
    return { info with mmap }

def parse_framebuffer (body : List UInt8) : Except Panic (Option FramebufferInfo) := do
  let some address ← u64_at body 0 | return none
  let some pitch ← u32_at body 8 | return none
  let some width ← u32_at body 12 | return none
  let some height ← u32_at body 16 | return none
  let some bpp := body[20]? | return none
  let some fb_type := body[21]? | return none
  let size := saturating_mul pitch.toNat (max height.toNat 1)
  return some { address, pitch, width, height, bpp, fb_type, size := UInt64.ofNat size }

-- The `match ty` of the walk, with `saw_mmap` beside the structure being filled.
def apply_tag (ty : UInt16) (off : Nat) (body : List UInt8) (info : BootInfo) (saw_mmap : Bool) :
    Except Failure (BootInfo × Bool) := do
  if ty = tag.CMDLINE then
    return ({ info with cmdline := some (text_of body) }, saw_mmap)
  else if ty = tag.BOOT_LOADER_NAME then
    return ({ info with loader_name := some (text_of body) }, saw_mmap)
  else if ty = tag.MMAP then
    let info ← parse_mmap body info
    return (info, true)
  else if ty = tag.FRAMEBUFFER ∧ body.length ≥ 24 then
    if info.framebuffer.isNone then
      let framebuffer ← panicking (parse_framebuffer body)
      return ({ info with framebuffer }, saw_mmap)
    else return (info, saw_mmap)
  else if ty = tag.ACPI_OLD ∧ body.length ≥ 20 then
    if info.acpi_rsdp.isNone then
      let rsdp ← panicking (add off tag.HEADER_LEN)
      return ({ info with acpi_rsdp := some (UInt64.ofNat rsdp), acpi_version := 1 }, saw_mmap)
    else return (info, saw_mmap)
  else if ty = tag.ACPI_NEW ∧ body.length ≥ 36 then
    if info.acpi_rsdp.isNone then
      let rsdp ← panicking (add off tag.HEADER_LEN)
      return ({ info with acpi_rsdp := some (UInt64.ofNat rsdp), acpi_version := 2 }, saw_mmap)
    else return (info, saw_mmap)
  else if ty = tag.LOAD_BASE_ADDR then
    let load_base_addr ← panicking (u32_at body 0)
    return ({ info with load_base_addr }, saw_mmap)
  else return (info, saw_mmap)

structure TagHeader where
  ty : UInt16
  stop : Nat

-- The head of one round of the walk: `none` leaves the loop, and a header is
-- returned only once its extent has been checked against `total`.
def next_tag (bytes : List UInt8) (total off : Nat) : Except Failure (Option TagHeader) := do
  let hdr_end ← panicking (add off tag.HEADER_LEN)
  if total < hdr_end then return none
  else
    let some ty ← panicking (u16_at bytes off) | return none
    let some size ← panicking (do u32_at bytes (← add off 4)) | return none
    if ty = tag.END then return none
    else if size.toNat < tag.HEADER_LEN then throw (.returned .TagUndersize)
    else if WORD ≤ off + size.toNat then throw (.returned .TagOverrun)
    else if total < off + size.toNat then throw (.returned .TagOverrun)
    else return some ⟨ty, off + size.toNat⟩

theorem next_tag_stop {bytes : List UInt8} {total off : Nat} {hdr : TagHeader}
    (h : next_tag bytes total off = .ok (some hdr)) :
    off + tag.HEADER_LEN ≤ hdr.stop ∧ hdr.stop ≤ total := by
  unfold next_tag at h
  obtain ⟨hdr_end, -, h⟩ := bind_eq_ok.mp h
  split at h
  · cases h
  obtain ⟨ty, -, h⟩ := bind_eq_ok.mp h
  split at h
  · obtain ⟨size, -, h⟩ := bind_eq_ok.mp h
    split at h
    · split_ifs at h <;> cases h
      dsimp only
      omega
    · cases h
  · cases h

def align_up (stop : Nat) : Nat := (stop + (tag.ALIGN - 1)) / tag.ALIGN * tag.ALIGN

-- `tag_count += 1` on a `u32`.
def count_tag (info : BootInfo) : Except Panic BootInfo :=
  if info.tag_count.toNat + 1 < 2 ^ 32 then .ok { info with tag_count := info.tag_count + 1 }
  else .error .addOverflow

def walk (bytes : List UInt8) (total off : Nat) (info : BootInfo) (saw_mmap : Bool) :
    Except Failure (BootInfo × Bool) :=
  match _h : next_tag bytes total off with
  | .error e => .error e
  | .ok none => .ok (info, saw_mmap)
  | .ok (some hdr) => do
      let body ← panicking (slice bytes (off + tag.HEADER_LEN) hdr.stop)
      let info ← panicking (count_tag info)
      let (info, saw_mmap) ← apply_tag hdr.ty off body info saw_mmap
      let _ ← panicking (add hdr.stop (tag.ALIGN - 1))
      walk bytes total (align_up hdr.stop) info saw_mmap
termination_by total - off
decreasing_by
  have := next_tag_stop _h
  simp only [align_up, tag.ALIGN, tag.HEADER_LEN] at *
  omega

def empty_info (total : Nat) : BootInfo where
  total_size := UInt32.ofNat total
  cmdline := none
  loader_name := none
  mmap := Vec.new
  framebuffer := none
  acpi_rsdp := none
  acpi_version := 0
  load_base_addr := none
  tag_count := 0
  phys_addr := 0

def parse (bytes : List UInt8) : Except Failure BootInfo := do
  let total ← ok_or .TooShort (← panicking (u32_at bytes 0))
  if total.toNat < tag.HEADER_LEN then throw (.returned .TooShort)
  else if bytes.length < total.toNat then throw (.returned .SizeMismatch)
  else
    let (info, saw_mmap) ← walk bytes total.toNat tag.HEADER_LEN (empty_info total.toNat) false
    if !saw_mmap || info.mmap.is_empty then throw (.returned .NoMemoryMap)
    else return info

-- The end of `read_from`: the structure's own address, and the RSDP offset made
-- absolute with it.
def locate (phys : Nat) (info : BootInfo) : Except Panic BootInfo := do
  let info := { info with phys_addr := UInt64.ofNat phys }
  match info.acpi_rsdp with
  | none => return info
  | some off =>
      let rsdp ← add phys off.toNat
      return { info with acpi_rsdp := some (UInt64.ofNat rsdp) }

-- `memory` is physical memory as the boot mapping shows it.
def read_from (memory : Nat → UInt8) (phys : Nat) : Except Failure BootInfo :=
  if phys = 0 ∨ Arch.BOOT_MAPPED_BYTES ≤ phys then .error (.returned .TooShort)
  else
    let total := from_le_bytes ((List.range 4).map fun i => memory (phys + i))
    -- One page of slack past the declared size, capped at 64 KiB.
    let span := min (saturating_add total Arch.PAGE_SIZE) (64 * 1024)
    if total < tag.HEADER_LEN then .error (.returned .TooShort)
    else do
      let info ← parse ((List.range span).map fun i => memory (phys + i))
      panicking (locate phys info)

end Orin.Multiboot
