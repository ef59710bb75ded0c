import Orin.Multiboot.Info

namespace Orin.Multiboot

-- The boot loader's side of the format: how an information structure is laid out.
def le_bytes : Nat → Nat → List UInt8
  | 0, _ => []
  | k + 1, v => UInt8.ofNat v :: le_bytes k (v / 256)

def padding (len : Nat) : List UInt8 := List.replicate ((8 - len % 8) % 8) 0

def encode_tag (ty : UInt16) (body : List UInt8) : List UInt8 :=
  le_bytes 2 ty.toNat ++ le_bytes 2 0 ++ le_bytes 4 (tag.HEADER_LEN + body.length) ++ body ++
    padding body.length

def encode (tags : List (UInt16 × List UInt8)) : List UInt8 :=
  let body := tags.flatMap (fun t => encode_tag t.1 t.2) ++ encode_tag tag.END []
  le_bytes 4 (tag.HEADER_LEN + body.length) ++ le_bytes 4 0 ++ body

def encode_entry (e : MmapEntry) : List UInt8 :=
  le_bytes 8 e.base.toNat ++ le_bytes 8 e.length.toNat ++ le_bytes 4 e.mem_type.toNat ++
    le_bytes 4 0

def mmap_body (entries : List MmapEntry) : List UInt8 :=
  le_bytes 4 24 ++ le_bytes 4 0 ++ entries.flatMap encode_entry

def text_body (text : String) : List UInt8 := text.toUTF8.toList ++ [0]

end Orin.Multiboot
