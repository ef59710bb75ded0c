import Mathlib.Order.Basic

namespace Orin.Multiboot.Heapless

def STR_CAP : Nat := 191

def MMAP_CAP : Nat := 64

-- The live part `buf[..len]` of the fixed-capacity string. Whether these bytes
-- are text is a property of `push_str`, not of the type.
structure Str where
  buf : List UInt8
  len_le : buf.length ≤ STR_CAP
  deriving DecidableEq

namespace Str

def new : Str := ⟨[], Nat.zero_le _⟩

def len (s : Str) : Nat := s.buf.length

def is_empty (s : Str) : Bool := s.len == 0

def as_str (s : Str) : String :=
  (String.fromUTF8? ⟨s.buf.toArray⟩).getD "<invalid utf-8>"

-- The loop of `push_str`: it stops for good at the first character that does
-- not fit, also when a later, narrower one would.
def push_chars (s : Str) : List Char → Str
  | [] => s
  | ch :: rest =>
      if h : s.len + (String.utf8EncodeChar ch).length > STR_CAP then s
      else push_chars ⟨s.buf ++ String.utf8EncodeChar ch, by
        rw [List.length_append]; exact Nat.le_of_not_gt h⟩ rest

def push_str (s : Str) (text : String) : Str := s.push_chars text.toList

end Str

structure Vec (α : Type) where
  items : List α
  len_le : items.length ≤ MMAP_CAP

namespace Vec

variable {α : Type}

def new : Vec α := ⟨[], Nat.zero_le _⟩

-- Hands the value back when the vector is full.
def push (v : Vec α) (x : α) : Except α (Vec α) :=
  if h : v.items.length ≥ MMAP_CAP then .error x
  else .ok ⟨v.items ++ [x], by simp only [List.length_append, List.length_singleton]; omega⟩

def as_slice (v : Vec α) : List α := v.items

def is_empty (v : Vec α) : Bool := v.items.length == 0

end Vec

end Orin.Multiboot.Heapless
