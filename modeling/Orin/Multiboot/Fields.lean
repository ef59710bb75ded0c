import Mathlib.Tactic.Ring
import Orin.Multiboot.Info

namespace Orin.Multiboot

open Rust Heapless

-- The little-endian number in `count` bytes from `off` on.
def field (b : List UInt8) (off count : Nat) : Nat := from_le_bytes ((b.drop off).take count)

def entry_at (b : List UInt8) (off : Nat) : MmapEntry where
  base := UInt64.ofNat (field b off 8)
  length := UInt64.ofNat (field b (off + 8) 8)
  mem_type := UInt32.ofNat (field b (off + 16) 4)

section Readers

variable {b : List UInt8} {off count : Nat}

theorem get_range_eq (h : off + count < WORD) : get_range b off count =
    .ok (if off + count ≤ b.length then some ((b.drop off).take count) else none) := by
  rw [get_range, add_of_lt h, ok_bind]
  rfl

theorem u16_at_eq (h : off + 2 < WORD) : u16_at b off =
    .ok (if off + 2 ≤ b.length then some (UInt16.ofNat (field b off 2)) else none) := by
  rw [u16_at, get_range_eq h, ok_bind]
  split <;> rfl

theorem u32_at_eq (h : off + 4 < WORD) : u32_at b off =
    .ok (if off + 4 ≤ b.length then some (UInt32.ofNat (field b off 4)) else none) := by
  rw [u32_at, get_range_eq h, ok_bind]
  split <;> rfl

theorem u64_at_eq (h : off + 8 < WORD) : u64_at b off =
    .ok (if off + 8 ≤ b.length then some (UInt64.ofNat (field b off 8)) else none) := by
  rw [u64_at, get_range_eq h, ok_bind]
  split <;> rfl

theorem from_le_bytes_lt (b : List UInt8) : from_le_bytes b < 256 ^ b.length := by
  induction b with
  | nil => decide
  | cons x rest ih =>
      have hx := x.toNat_lt
      rw [from_le_bytes, List.length_cons, Nat.pow_succ]
      omega

theorem field_lt (b : List UInt8) (off count : Nat) : field b off count < 256 ^ count := by
  have hlen : ((b.drop off).take count).length ≤ count := by simp
  exact Nat.lt_of_lt_of_le (from_le_bytes_lt _) (Nat.pow_le_pow_right (by decide) hlen)

theorem field_two_lt : field b off 2 < 65536 := field_lt b off 2

theorem field_four_lt : field b off 4 < 4294967296 := field_lt b off 4

theorem toNat_field_two : (UInt16.ofNat (field b off 2)).toNat = field b off 2 :=
  UInt16.toNat_ofNat_of_lt' field_two_lt

theorem toNat_field_four : (UInt32.ofNat (field b off 4)).toNat = field b off 4 :=
  UInt32.toNat_ofNat_of_lt' field_four_lt

-- A field is found in any part of the slice that covers it.
theorem field_drop_take {first len : Nat} (h : off + count ≤ len) :
    field ((b.drop first).take len) off count = field b (first + off) count := by
  rw [field, field, List.drop_take, List.take_take, List.drop_drop, Nat.min_eq_left (by omega)]

theorem field_take {len : Nat} (h : off + count ≤ len) :
    field (b.take len) off count = field b off count := by
  have hwhole := @field_drop_take b off count 0 len h
  rwa [List.drop_zero, Nat.zero_add] at hwhole

theorem entry_at_drop_take {first len : Nat} (h : off + 20 ≤ len) :
    entry_at ((b.drop first).take len) off = entry_at b (first + off) := by
  rw [entry_at, entry_at, field_drop_take (by omega), field_drop_take (by omega),
    field_drop_take (by omega), Nat.add_assoc, Nat.add_assoc]

end Readers

section Entries

variable {body : List UInt8} {entry_size eoff : Nat}

-- How many strides from `eoff` on start with a whole entry.
def entry_count (body : List UInt8) (entry_size eoff : Nat) : Nat :=
  (body.length + entry_size - (eoff + 24)) / entry_size

def entries_from (body : List UInt8) (entry_size eoff : Nat) : List MmapEntry :=
  (List.range (entry_count body entry_size eoff)).map fun k => entry_at body (eoff + k * entry_size)

-- The entries of a whole memory-map body, at its own stride.
def entries_of (body : List UInt8) : List MmapEntry := entries_from body (field body 0 4) 8

theorem lt_entry_count (hsize : 0 < entry_size) {k : Nat} :
    k < entry_count body entry_size eoff ↔ eoff + k * entry_size + 24 ≤ body.length := by
  rw [entry_count, Nat.lt_div_iff_mul_lt hsize, Nat.mul_comm]
  omega

theorem entry_count_succ (hsize : 0 < entry_size) (h : eoff + 24 ≤ body.length) :
    entry_count body entry_size eoff = entry_count body entry_size (eoff + entry_size) + 1 := by
  have hlhs : body.length + entry_size - (eoff + 24) = body.length - (eoff + 24) + entry_size := by omega
  have hrhs : body.length + entry_size - (eoff + entry_size + 24) = body.length - (eoff + 24) := by omega
  rw [entry_count, entry_count, hlhs, hrhs, Nat.add_div_right _ hsize]

theorem entries_from_cons (hsize : 0 < entry_size) (h : eoff + 24 ≤ body.length) :
    entries_from body entry_size eoff =
      entry_at body eoff :: entries_from body entry_size (eoff + entry_size) := by
  rw [entries_from, entry_count_succ hsize h, List.range_succ_eq_map, List.map_cons, List.map_map,
    Nat.zero_mul, Nat.add_zero]
  congr 1
  refine List.map_congr_left fun k _ => ?_
  have hoff : eoff + (k + 1) * entry_size = eoff + entry_size + k * entry_size := by ring
  exact congrArg (entry_at body) hoff

theorem entries_from_nil (hsize : 0 < entry_size) (h : body.length < eoff + 24) :
    entries_from body entry_size eoff = [] := by
  have hcount : entry_count body entry_size eoff = 0 := Nat.div_eq_of_lt (by omega)
  rw [entries_from, hcount]
  rfl

theorem read_entry_eq (hword : body.length < 2 ^ 32) (h : eoff + 24 ≤ body.length) :
    read_entry body eoff = .ok (some (entry_at body eoff)) := by
  have hW := WORD_eq
  rw [read_entry, u64_at_eq (by omega), ok_bind, if_pos (by omega)]
  dsimp only
  rw [add_of_lt (by omega), ok_bind, u64_at_eq (by omega), ok_bind, if_pos (by omega)]
  dsimp only
  rw [add_of_lt (by omega), ok_bind, u32_at_eq (by omega), ok_bind, if_pos (by omega)]
  rfl

-- As many of `xs` as there is room for.
def extend (v : Vec MmapEntry) (xs : List MmapEntry) : Vec MmapEntry :=
  ⟨(v.items ++ xs).take MMAP_CAP, List.length_take_le _ _⟩

theorem extend_nil (v : Vec MmapEntry) : extend v [] = v := by
  obtain ⟨items, hlen⟩ := v
  simp only [extend, List.append_nil, Vec.mk.injEq]
  exact List.take_of_length_le hlen

theorem push_full {v : Vec MmapEntry} {x : MmapEntry} (h : MMAP_CAP ≤ v.items.length) :
    v.push x = .error x := dif_pos h

theorem extend_full {v : Vec MmapEntry} {xs : List MmapEntry} (h : MMAP_CAP ≤ v.items.length) :
    extend v xs = v := by
  obtain ⟨items, hlen⟩ := v
  have heq : items.length = MMAP_CAP := Nat.le_antisymm hlen h
  simp only [extend, Vec.mk.injEq]
  rw [← heq, List.take_left]

theorem push_room {v : Vec MmapEntry} {x : MmapEntry} (h : v.items.length < MMAP_CAP) :
    v.push x = .ok (extend v [x]) := by
  have hlen : (v.items ++ [x]).length ≤ MMAP_CAP := by
    rw [List.length_append]
    exact h
  rw [Vec.push, dif_neg (Nat.not_le.mpr h)]
  simp only [extend, List.take_of_length_le hlen]

theorem extend_extend {v : Vec MmapEntry} {x : MmapEntry} {xs : List MmapEntry}
    (h : v.items.length < MMAP_CAP) : extend (extend v [x]) xs = extend v (x :: xs) := by
  have hlen : (v.items ++ [x]).length ≤ MMAP_CAP := by
    rw [List.length_append]
    exact h
  simp only [extend, List.take_of_length_le hlen, List.append_assoc, List.singleton_append]

-- The loop reads every whole entry of the stride, in order, until the vector is full.
theorem parse_entries_eq (hsize : 24 ≤ entry_size) (hword : body.length < 2 ^ 32)
    (hstride : entry_size < 2 ^ 32) (eoff : Nat) (hoff : eoff ≤ 2 ^ 33) (mmap : Vec MmapEntry) :
    parse_entries body entry_size hsize eoff mmap =
      .ok (extend mmap (entries_from body entry_size eoff)) := by
  have hW := WORD_eq
  have hpos : 0 < entry_size := by omega
  rw [parse_entries, add_of_lt (by omega)]
  dsimp only
  by_cases hin : eoff + 24 ≤ body.length
  · rw [dif_pos hin, read_entry_eq hword hin, entries_from_cons hpos hin]
    dsimp only
    by_cases hroom : mmap.items.length < MMAP_CAP
    · rw [push_room hroom, add_of_lt (by omega)]
      dsimp only
      rw [parse_entries_eq hsize hword hstride _ (by omega), extend_extend hroom]
    · rw [push_full (Nat.le_of_not_lt hroom), extend_full (Nat.le_of_not_lt hroom)]
  · rw [dif_neg hin, entries_from_nil hpos (by omega), extend_nil]
termination_by body.length - eoff

end Entries

section Tags

variable {body : List UInt8} {info : BootInfo} {saw_mmap : Bool} {ty : UInt16} {off : Nat}

-- A memory-map body that has its two header fields and a usable stride.
def MmapHeader (body : List UInt8) : Prop := 8 ≤ body.length ∧ 24 ≤ field body 0 4

instance : DecidablePred MmapHeader := fun body =>
  inferInstanceAs (Decidable (8 ≤ body.length ∧ 24 ≤ field body 0 4))

theorem parse_mmap_eq (hword : body.length < 2 ^ 32) : parse_mmap body info =
    if MmapHeader body then .ok { info with mmap := extend info.mmap (entries_of body) }
    else .error (.returned .BadMmapEntrySize) := by
  have hW := WORD_eq
  have hstride := @field_four_lt body 0
  rw [parse_mmap, u32_at_eq (by omega)]
  by_cases hfirst : 0 + 4 ≤ body.length
  · rw [if_pos hfirst, u32_at_eq (by omega)]
    by_cases hsecond : 4 + 4 ≤ body.length
    · rw [if_pos hsecond]
      simp only [panicking, ok_or, ok_bind, toNat_field_four]
      by_cases hsize : field body 0 4 < 24
      · rw [dif_pos hsize, if_neg fun h : MmapHeader body => absurd h.2 (by omega)]
        rfl
      · rw [dif_neg hsize, if_pos ⟨by omega, by omega⟩]
        rw [parse_entries_eq (by omega) hword (by omega) 8 (by omega)]
        rfl
    · rw [if_neg hsecond, if_neg fun h : MmapHeader body => absurd h.1 (by omega)]
      rfl
  · rw [if_neg hfirst, if_neg fun h : MmapHeader body => absurd h.1 (by omega)]
    rfl

def framebuffer_of (body : List UInt8) : FramebufferInfo where
  address := UInt64.ofNat (field body 0 8)
  pitch := UInt32.ofNat (field body 8 4)
  width := UInt32.ofNat (field body 12 4)
  height := UInt32.ofNat (field body 16 4)
  bpp := (body[20]?).getD 0
  fb_type := (body[21]?).getD 0
  size := UInt64.ofNat (min (field body 8 4 * max (field body 16 4) 1) (WORD - 1))

theorem parse_framebuffer_eq (hword : body.length < 2 ^ 32) (h : 24 ≤ body.length) :
    parse_framebuffer body = .ok (some (framebuffer_of body)) := by
  have hW := WORD_eq
  have hbyte : ∀ i, i < 24 → body[i]? = some ((body[i]?).getD 0) := by
    intro i hi
    rw [List.getElem?_eq_getElem (by omega), Option.getD_some]
  rw [parse_framebuffer, u64_at_eq (by omega), ok_bind, if_pos (by omega)]
  dsimp only
  rw [u32_at_eq (by omega), ok_bind, if_pos (by omega)]
  dsimp only
  rw [u32_at_eq (by omega), ok_bind, if_pos (by omega)]
  dsimp only
  rw [u32_at_eq (by omega), ok_bind, if_pos (by omega), hbyte 20 (by omega),
    hbyte 21 (by omega)]
  dsimp only
  rw [toNat_field_four, toNat_field_four]
  rfl

end Tags

end Orin.Multiboot
