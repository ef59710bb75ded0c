import Orin.Multiboot.Info
import Orin.Rust.Bitmap

namespace Orin.Memory.Pmm

open Rust Bitmap Multiboot

def FRAME_SIZE : Nat := 4096

def MAX_PHYS : Nat := Arch.BOOT_MAPPED_BYTES

def MAX_FRAMES : Nat := MAX_PHYS / FRAME_SIZE

def BITMAP_WORDS : Nat := MAX_FRAMES / 64

namespace memtype

def AVAILABLE : UInt32 := 1
def ACPI_RECLAIMABLE : UInt32 := 2
def BAD_RAM : UInt32 := 4
end memtype

-- The bitmap helpers take a slice of any length, so they are stated for one.
section Slice

variable {n : Nat}

-- `map[i]`.
def word_at (map : Vector Word n) (i : Nat) : Except Panic Word :=
  if h : i < n then .ok map[i] else .error (.indexOutOfBounds n i)

def bit_set (map : Vector Word n) (idx : Nat) : Except Panic (Vector Word n) :=
  if h : idx / 64 < n then .ok (map.set (idx / 64) (map[idx / 64] ||| 1#64 <<< (idx % 64)))
  else .error (.indexOutOfBounds n (idx / 64))

def bit_clear (map : Vector Word n) (idx : Nat) : Except Panic (Vector Word n) :=
  if h : idx / 64 < n then .ok (map.set (idx / 64) (map[idx / 64] &&& ~~~(1#64 <<< (idx % 64))))
  else .error (.indexOutOfBounds n (idx / 64))

def bit_test (map : Vector Word n) (idx : Nat) : Except Panic Bool := do
  let w ← word_at map (idx / 64)
  return w &&& (1#64 <<< (idx % 64)) ≠ 0

def trailing_zeros (w : Word) : Nat := w.ctz.toNat

-- The `while idx < limit` of `next_free`: whole words. No address space holds the
-- 2^58 words it would take for `idx` to wrap.
def scan_words (map : Vector Word n) (limit idx : Nat) : Except Panic (Option Nat) :=
  if _h : idx < limit then do
    let w ← word_at map (idx / 64)
    if w ≠ 0 then return some (idx / 64 * 64 + trailing_zeros w)
    else scan_words map limit (idx + 64)
  else .ok none
termination_by limit - idx

def next_free (map : Vector Word n) (start limit : Nat) : Except Panic (Option Nat) :=
  if limit ≤ start then .ok none
  else do
    let w ← word_at map (start / 64)
    if w >>> (start % 64) ≠ 0 then
      return some (start / 64 * 64 + start % 64 + trailing_zeros (w >>> (start % 64)))
    else scan_words map limit ((start / 64 + 1) * 64)

-- `for i in 1..count`, left at the first clear bit.
def all_set (map : Vector Word n) (start : Nat) : Nat → Nat → Except Panic Bool
  | 0, _ => .ok true
  | k + 1, i => do
      if ← bit_test map (← add start i) then all_set map start k (i + 1)
      else return false

-- `start = (start / align + 1) * align`.
def next_aligned (start align : Nat) : Except Panic Nat := do
  mul (← add (start / align) 1) align

theorem next_aligned_gt {start align next : Nat} (ha : 0 < align)
    (h : next_aligned start align = .ok next) : start < next := by
  unfold next_aligned at h
  obtain ⟨q, hq, h⟩ := bind_eq_ok.mp h
  obtain ⟨-, rfl⟩ := add_eq_ok.mp hq
  obtain ⟨-, rfl⟩ := mul_eq_ok.mp h
  rw [Nat.mul_comm]
  exact Nat.lt_mul_div_succ start ha

-- The `while start + count <= limit` of `next_free_run`.
def scan_runs (map : Vector Word n) (limit count align : Nat) (ha : 0 < align) (start : Nat) :
    Except Panic (Option Nat) :=
  match _hs : add start count with
  | .error p => .error p
  | .ok stop =>
      if _h : stop ≤ limit then
        match bit_test map start with
        | .error p => .error p
        | .ok false =>
            match _hn : next_aligned start align with
            | .error p => .error p
            | .ok next => scan_runs map limit count align ha next
        | .ok true =>
            match all_set map start (count - 1) 1 with
            | .error p => .error p
            | .ok true => .ok (some start)
            | .ok false =>
                match _hn : next_aligned start align with
                | .error p => .error p
                | .ok next => scan_runs map limit count align ha next
      else .ok none
termination_by limit + 1 - start
decreasing_by all_goals
  have := next_aligned_gt ha _hn
  have := (add_eq_ok.mp _hs).2
  omega

def next_free_run (map : Vector Word n) (start limit count align : Nat) :
    Except Panic (Option Nat) :=
  if count = 0 then .ok (some start)
  else do
    let sum ← add start (max align 1)
    let first := (← sub sum 1) / max align 1 * max align 1
    scan_runs map limit count (max align 1) (by omega) first

-- The choice `allocate` makes, twice, between the two scans.
def find (map : Vector Word n) (start limit count align : Nat) : Except Panic (Option Nat) :=
  if count = 1 then next_free map start limit else next_free_run map start limit count align

-- Wrap once from the beginning before giving up: the cursor may have advanced past
-- the only free run.
def find_wrapping (map : Vector Word n) (start count align : Nat) : Except Panic (Option Nat) := do
  match ← find map start MAX_FRAMES count align with
  | some s => return some s
  | none => if 0 < start then find map 0 start count align else return none

end Slice

structure PmmInner where
  -- One bit per frame; set means free.
  bitmap : Vector Word BITMAP_WORDS
  total_frames : Nat
  free_frames : Nat
  reserved_frames : Nat
  bad_frames : Nat
  unmapped_bytes : Nat
  initialised : Bool

def PmmInner.new : PmmInner where
  bitmap := Vector.replicate BITMAP_WORDS 0
  total_frames := 0
  free_frames := 0
  reserved_frames := 0
  bad_frames := 0
  unmapped_bytes := 0
  initialised := false

-- What the allocator reads and writes: the locked structure, the cursor kept beside
-- it, and the first word of each frame of physical memory.
structure State where
  inner : PmmInner
  cursor : Nat
  memory : Nat → Word

namespace PmmInner

def free_frame (idx : Nat) (p : PmmInner) : Except Panic PmmInner := do
  if ← bit_test p.bitmap idx then return p
  else
    let bitmap ← bit_set p.bitmap idx
    let free_frames ← add p.free_frames 1
    return { p with bitmap, free_frames }

-- Rounds inward: only fully contained frames become free.
def free_range (p : PmmInner) (start stop : Nat) : Except Panic PmmInner :=
  if stop ≤ start then .ok p
  else do
    let first := (← sub (← add start FRAME_SIZE) 1) / FRAME_SIZE
    let last := min stop MAX_PHYS / FRAME_SIZE
    forRange first (min last MAX_FRAMES) p free_frame

def reserve_frame (idx : Nat) (p : PmmInner) : Except Panic PmmInner := do
  if ← bit_test p.bitmap idx then
    let bitmap ← bit_clear p.bitmap idx
    let free_frames ← sub p.free_frames 1
    let reserved_frames ← add p.reserved_frames 1
    return { p with bitmap, free_frames, reserved_frames }
  else return p

-- Rounds outward: a partially covered frame is fully reserved.
def reserve_range (p : PmmInner) (start stop : Nat) : Except Panic PmmInner :=
  if stop ≤ start then .ok p
  else do
    let first := start / FRAME_SIZE
    let last := (← sub (← add stop FRAME_SIZE) 1) / FRAME_SIZE
    forRange first (min last MAX_FRAMES) p reserve_frame

-- The part of a region that reaches above the managed range.
def count_unmapped (p : PmmInner) (hi : Nat) : Except Panic Nat :=
  if MAX_PHYS < hi then do add p.unmapped_bytes (← sub hi MAX_PHYS) else .ok p.unmapped_bytes

-- One entry of the memory map. Every type but these two is only logged.
def init_entry (p : PmmInner) (e : MmapEntry) : Except Panic PmmInner :=
  if e.mem_type = memtype.AVAILABLE then
    let hi := saturating_add e.base.toNat e.length.toNat
    if MAX_PHYS ≤ e.base.toNat then do
      let unmapped_bytes ← add p.unmapped_bytes e.length.toNat
      return { p with unmapped_bytes }
    else do
      let unmapped_bytes ← p.count_unmapped hi
      free_range { p with unmapped_bytes } e.base.toNat (min hi MAX_PHYS)
  else if e.mem_type = memtype.BAD_RAM then do
    let bad_frames ← add p.bad_frames (e.length.toNat / FRAME_SIZE)
    return { p with bad_frames }
  else .ok p

def init (p : PmmInner) (info : BootInfo) : Except Panic PmmInner :=
  if p.initialised then .error (.explicit "pmm::init called twice")
  else do
    let p ← info.mmap.as_slice.foldlM init_entry p
    -- The closing log line scales the count to MiB.
    let _usable ← mul p.free_frames FRAME_SIZE
    return { p with total_frames := p.free_frames, initialised := true }

end PmmInner

def FREE_CANARY : Word := 0x4F52494E46524545#64

-- `debug` is `cfg!(debug_assertions)`.
def canary_ok (debug : Bool) (memory : Nat → Word) (phys : Nat) : Bool :=
  if !debug then true
  else if MAX_FRAMES ≤ phys / FRAME_SIZE ∨ ¬ Arch.phys_is_boot_mapped phys then true
  else memory (phys / FRAME_SIZE) ≠ FREE_CANARY

-- The three messages of `deallocate`.
def outside_range (phys : Nat) : String :=
  "pmm: deallocate of " ++ hex phys ++ " is outside the managed range (max " ++ hex MAX_PHYS ++ ")"

def double_free (idx phys : Nat) : String :=
  "pmm: double free of frame " ++ toString idx ++ " (" ++ hex phys ++ ")"

def modified_after_free (idx phys : Nat) : String :=
  "pmm: frame " ++ toString idx ++ " (" ++ hex phys ++
    ") was modified after free (canary overwritten) — use-after-free in kernel code"

namespace State

def allocate (p : State) (count align : Nat) : Except Panic (Option Nat × State) :=
  if p.inner.initialised then do
    match ← find_wrapping p.inner.bitmap (min p.cursor MAX_FRAMES) count align with
    | none => return (none, p)
    | some s =>
        let bitmap ← forRange 0 count p.inner.bitmap fun i map => do bit_clear map (← add s i)
        let free_frames ← sub p.inner.free_frames count
        let cursor ← add s count
        return (some s, { p with inner := { p.inner with bitmap, free_frames }, cursor })
  else .error (.explicit "pmm: allocation before pmm::init()")

def deallocate (debug : Bool) (p : State) (phys : Nat) : Except Panic State :=
  let idx := phys / FRAME_SIZE
  if MAX_FRAMES ≤ idx then .error (.explicit (outside_range phys))
  else do
    if ← bit_test p.inner.bitmap idx then throw (.explicit (double_free idx phys))
    else if !canary_ok debug p.memory phys then throw (.explicit (modified_after_free idx phys))
    else
      let bitmap ← bit_set p.inner.bitmap idx
      let free_frames ← add p.inner.free_frames 1
      let memory := if debug then Function.update p.memory idx FREE_CANARY else p.memory
      return { p with inner := { p.inner with bitmap, free_frames }, memory }

end State

-- A frame is named by the address of its first byte.
structure PhysFrame where
  start_address : Nat
  aligned : start_address % FRAME_SIZE = 0
  deriving DecidableEq

def PhysFrame.index (f : PhysFrame) : Nat := f.start_address / FRAME_SIZE

def frame_from_index (idx : Nat) : Except Panic PhysFrame :=
  if idx * FRAME_SIZE < WORD then .ok ⟨idx * FRAME_SIZE, Nat.mul_mod_left idx FRAME_SIZE⟩
  else .error .mulOverflow

namespace State

def init (p : State) (info : BootInfo) : Except Panic State := do
  return { p with inner := ← p.inner.init info }

def reserve_range (p : State) (start stop : Nat) : Except Panic State := do
  return { p with inner := ← p.inner.reserve_range start stop }

def allocate_contiguous (p : State) (count align_frames : Nat) :
    Except Panic (Option PhysFrame × State) := do
  match ← p.allocate count align_frames with
  | (none, p) => return (none, p)
  | (some idx, p) => return (some (← frame_from_index idx), p)

def allocate_frame (p : State) : Except Panic (Option PhysFrame × State) := p.allocate_contiguous 1 1

def deallocate_frame (debug : Bool) (p : State) (frame : PhysFrame) : Except Panic State :=
  p.deallocate debug frame.start_address

end State

end Orin.Memory.Pmm
