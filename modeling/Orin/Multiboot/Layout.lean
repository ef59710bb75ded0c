import Orin.Multiboot.Encode
import Orin.Multiboot.Safety
import Orin.Multiboot.Text

namespace Orin.Multiboot

open Rust Heapless

section Numbers

theorem le_bytes_length (count v : Nat) : (le_bytes count v).length = count := by
  induction count generalizing v with
  | zero => rfl
  | succ count ih => rw [le_bytes, List.length_cons, ih]

theorem from_le_bytes_le_bytes {count v : Nat} (h : v < 256 ^ count) :
    from_le_bytes (le_bytes count v) = v := by
  induction count generalizing v with
  | zero =>
      obtain rfl : v = 0 := Nat.lt_one_iff.mp h
      rfl
  | succ count ih =>
      rw [Nat.pow_succ] at h
      rw [le_bytes, from_le_bytes, ih (by omega), UInt8.toNat_ofNat']
      omega

variable {front rest : List UInt8} {off count v : Nat}

theorem field_append_right : field (front ++ rest) (front.length + off) count = field rest off count := by
  rw [field, field, List.drop_append, List.drop_eq_nil_of_le (by omega), List.nil_append,
    Nat.add_sub_cancel_left]

-- A number is read back where it was laid down.
theorem field_le_bytes (h : v < 256 ^ count) :
    field (front ++ (le_bytes count v ++ rest)) front.length count = v := by
  have hread := @field_append_right front (le_bytes count v ++ rest) 0 count
  rw [Nat.add_zero] at hread
  rw [hread, field, List.drop_zero, List.take_left' (le_bytes_length _ _), from_le_bytes_le_bytes h]

end Numbers

-- A tag as a boot loader lays it out: any flags, and any bytes up to the next multiple
-- of eight.
structure Tag where
  ty : UInt16
  flags : UInt16
  body : List UInt8
  pad : List UInt8
  ty_ne : ty ≠ tag.END
  pad_length : pad.length = (8 - body.length % 8) % 8
  mmap : ty = tag.MMAP → MmapHeader body

namespace Tag

variable (t : Tag)

def size : Nat := tag.HEADER_LEN + t.body.length

def bytes : List UInt8 :=
  le_bytes 2 t.ty.toNat ++ le_bytes 2 t.flags.toNat ++ le_bytes 4 t.size ++ t.body ++ t.pad

def entries : List MmapEntry := if t.ty = tag.MMAP then entries_of t.body else []

theorem bytes_length : t.bytes.length = t.size + t.pad.length := by
  simp only [bytes, List.length_append, le_bytes_length, size, tag.HEADER_LEN]

theorem bytes_length_mod : t.bytes.length % 8 = 0 := by
  have hpad := t.pad_length
  rw [bytes_length, size, tag.HEADER_LEN]
  omega

end Tag

def end_tag (flags : UInt16) : List UInt8 :=
  le_bytes 2 tag.END.toNat ++ le_bytes 2 flags.toNat ++ le_bytes 4 tag.HEADER_LEN

-- A whole information structure. Its size is a 32-bit field.
structure Image where
  reserved : UInt32
  tags : List Tag
  end_flags : UInt16
  fits : tag.HEADER_LEN + (tags.flatMap Tag.bytes).length + tag.HEADER_LEN < 2 ^ 32

namespace Image

variable (image : Image)

def total_size : Nat := tag.HEADER_LEN + (image.tags.flatMap Tag.bytes).length + tag.HEADER_LEN

def bytes : List UInt8 :=
  le_bytes 4 image.total_size ++ le_bytes 4 image.reserved.toNat ++ image.tags.flatMap Tag.bytes ++
    end_tag image.end_flags

theorem bytes_length : image.bytes.length = image.total_size := by
  simp only [bytes, end_tag, List.length_append, le_bytes_length, total_size, tag.HEADER_LEN]

end Image

-- Where each tag starts, from `off` on.
def placed : Nat → List Tag → List (Nat × Tag)
  | _, [] => []
  | off, t :: tags => (off, t) :: placed (off + t.bytes.length) tags

def last (ty : UInt16) (tags : List Tag) : Option Tag := tags.reverse.find? fun t => t.ty = ty

def Tag.HasFramebuffer (t : Tag) : Prop := t.ty = tag.FRAMEBUFFER ∧ 24 ≤ t.body.length

def Tag.HasRsdp (t : Tag) : Prop :=
  (t.ty = tag.ACPI_OLD ∧ 20 ≤ t.body.length) ∨ (t.ty = tag.ACPI_NEW ∧ 36 ≤ t.body.length)

instance : DecidablePred Tag.HasFramebuffer := fun t =>
  inferInstanceAs (Decidable (t.ty = tag.FRAMEBUFFER ∧ 24 ≤ t.body.length))

instance : DecidablePred Tag.HasRsdp := fun t =>
  inferInstanceAs (Decidable ((t.ty = tag.ACPI_OLD ∧ 20 ≤ t.body.length) ∨
    (t.ty = tag.ACPI_NEW ∧ 36 ≤ t.body.length)))

-- What the structure says once the given tags have been read.
structure Filled (tags : List Tag) (info : BootInfo) (saw_mmap : Bool) : Prop where
  mmap : info.mmap.items = (tags.flatMap Tag.entries).take MMAP_CAP
  cmdline : info.cmdline = (last tag.CMDLINE tags).map fun t => text_of t.body
  loader_name : info.loader_name = (last tag.BOOT_LOADER_NAME tags).map fun t => text_of t.body
  framebuffer : info.framebuffer =
    (tags.find? fun t => t.HasFramebuffer).map fun t => framebuffer_of t.body
  acpi_rsdp : info.acpi_rsdp = ((placed tag.HEADER_LEN tags).find? fun p => p.2.HasRsdp).map
    fun p => UInt64.ofNat (p.1 + tag.HEADER_LEN)
  load_base_addr : info.load_base_addr =
    (last tag.LOAD_BASE_ADDR tags).bind fun t => load_base_of t.body
  tag_count : info.tag_count = UInt32.ofNat tags.length
  saw : saw_mmap = tags.any fun t => t.ty = tag.MMAP

section Filled

variable {tags : List Tag} {t : Tag} {ty : UInt16} {off : Nat}

theorem last_snoc : last ty (tags ++ [t]) = if t.ty = ty then some t else last ty tags := by
  rw [last, List.reverse_append, List.reverse_singleton, List.singleton_append, List.find?_cons]
  by_cases hty : t.ty = ty
  · simp [hty]
  · simp [hty, last]

theorem placed_snoc : placed off (tags ++ [t]) =
    placed off tags ++ [(off + (tags.flatMap Tag.bytes).length, t)] := by
  induction tags generalizing off with
  | nil => rfl
  | cons first tags ih =>
      rw [List.cons_append, placed, ih, placed, List.flatMap_cons, List.length_append, Nat.add_assoc]
      rfl

theorem take_extend {α : Type} (n : Nat) (xs ys : List α) :
    (xs.take n ++ ys).take n = (xs ++ ys).take n := by
  rw [List.take_append, List.take_append, List.take_take, Nat.min_self, List.length_take]
  congr 2
  omega

-- One more tag.
theorem Filled.snoc {info : BootInfo} {saw : Bool} (h : Filled tags info saw) (t : Tag)
    (hoff : off = tag.HEADER_LEN + (tags.flatMap Tag.bytes).length) :
    let filled := absorb t.ty off t.body { info with tag_count := info.tag_count + 1 } saw
    Filled (tags ++ [t]) filled.1 filled.2 := by
  rw [absorb_eq]
  refine ⟨?_, ?_, ?_, ?_, ?_, ?_, ?_, ?_⟩
  · rw [List.flatMap_append, List.flatMap_singleton, ← take_extend, ← h.mmap, Tag.entries]
    dsimp only
    split
    · rfl
    · rw [List.append_nil, List.take_of_length_le info.mmap.len_le]
  · rw [last_snoc, apply_ite (Option.map _), ← h.cmdline]
    rfl
  · rw [last_snoc, apply_ite (Option.map _), ← h.loader_name]
    rfl
  · rw [List.find?_append, Option.map_or, ← h.framebuffer]
    rw [List.find?_singleton, apply_ite (Option.map _)]
    simp only [decide_eq_true_eq]
    rfl
  · rw [placed_snoc, List.find?_append, Option.map_or, ← h.acpi_rsdp, ← hoff]
    rw [List.find?_singleton, apply_ite (Option.map _)]
    simp only [decide_eq_true_eq]
    rfl
  · rw [last_snoc, apply_ite (Option.bind · _), ← h.load_base_addr]
    rfl
  · rw [List.length_append, List.length_singleton, UInt32.ofNat_add, ← h.tag_count]
    rfl
  · rw [List.any_append, ← h.saw]
    simp

end Filled

section Walk

variable {front tail : List UInt8} {t : Tag}

theorem tag_fields (hsize : t.size < 2 ^ 32) :
    field (front ++ (t.bytes ++ tail)) front.length 2 = t.ty.toNat ∧
      tag_size (front ++ (t.bytes ++ tail)) front.length = t.size ∧
      tag_body (front ++ (t.bytes ++ tail)) front.length = t.body := by
  have hty : field (front ++ (t.bytes ++ tail)) front.length 2 = t.ty.toNat := by
    simp only [Tag.bytes, List.append_assoc]
    exact field_le_bytes t.ty.toNat_lt
  have hsized : tag_size (front ++ (t.bytes ++ tail)) front.length = t.size := by
    have hread := @field_le_bytes (front ++ (le_bytes 2 t.ty.toNat ++ le_bytes 2 t.flags.toNat))
      (t.body ++ (t.pad ++ tail)) 4 t.size hsize
    simp only [List.length_append, le_bytes_length] at hread
    rw [tag_size, ← hread]
    simp only [Tag.bytes, List.append_assoc]
  have hheader : (front ++ (le_bytes 2 t.ty.toNat ++ (le_bytes 2 t.flags.toNat ++
      le_bytes 4 t.size))).length = front.length + tag.HEADER_LEN := by
    simp only [List.length_append, le_bytes_length, tag.HEADER_LEN]
  have hsplit : front ++ (t.bytes ++ tail) = (front ++ (le_bytes 2 t.ty.toNat ++
      (le_bytes 2 t.flags.toNat ++ le_bytes 4 t.size))) ++ (t.body ++ (t.pad ++ tail)) := by
    simp only [Tag.bytes, List.append_assoc]
  refine ⟨hty, hsized, ?_⟩
  rw [tag_body, hsized, Tag.size, Nat.add_sub_cancel_left, hsplit, ← hheader, List.drop_left,
    List.take_left]

theorem end_field {flags : UInt16} :
    field (front ++ (end_tag flags ++ tail)) front.length 2 = 0 := by
  simp only [end_tag, List.append_assoc]
  exact field_le_bytes (by decide)

theorem align_up_bytes (hfront : front.length % 8 = 0) :
    align_up (front.length + t.size) = (front ++ t.bytes).length := by
  have hpad := t.pad_length
  rw [List.length_append, Tag.bytes_length, align_up, Tag.size, tag.ALIGN, tag.HEADER_LEN]
  omega

-- The walk takes a laid-out tag whole and goes on behind its padding.
theorem walk_one {total : Nat} {info : BootInfo} {saw : Bool} (htotal : total < 2 ^ 32)
    (hlen : total ≤ (front ++ (t.bytes ++ tail)).length) (hroom : (front ++ t.bytes).length ≤ total)
    (haligned : front.length % 8 = 0) (hcount : 8 * info.tag_count.toNat ≤ front.length) :
    let filled := absorb t.ty front.length t.body { info with tag_count := info.tag_count + 1 } saw
    walk (front ++ (t.bytes ++ tail)) total front.length info saw =
      walk (front ++ (t.bytes ++ tail)) total (front ++ t.bytes).length filled.1 filled.2 := by
  have hbytes : (front ++ t.bytes).length = front.length + (t.size + t.pad.length) := by
    rw [List.length_append, Tag.bytes_length]
  have hsize : t.size = 8 + t.body.length := rfl
  obtain ⟨hty, hsized, hbody⟩ := @tag_fields front tail t (by omega)
  have hne : t.ty.toNat ≠ 0 := fun hzero => t.ty_ne (UInt16.toNat_inj.mp hzero)
  have htag : TagAt (front ++ (t.bytes ++ tail)) total front.length :=
    ⟨by simp only [tag.HEADER_LEN]; omega, hty ▸ hne, by rw [hsized, tag.HEADER_LEN]; omega,
      by rw [hsized]; omega⟩
  have htype : UInt16.ofNat (field (front ++ (t.bytes ++ tail)) front.length 2) = t.ty := by
    rw [hty, UInt16.ofNat_toNat]
  rw [walk_tag hlen htotal hcount (htag.next_tag hlen htotal), Nat.add_sub_add_left, htype]
  show apply_tag t.ty front.length (tag_body _ front.length) _ saw >>= _ = _
  rw [hbody, apply_tag_eq (by simp only [tag.HEADER_LEN]; omega) t.mmap, ok_bind, hsized,
    align_up_bytes haligned]

-- The walk over the tags that are left, the bytes of those already read being `front`.
theorem walk_tags {flags : UInt16} {trailing : List UInt8} {total : Nat} (htotal : total < 2 ^ 32)
    (rest : List Tag) (seen : List Tag) (front : List UInt8) (info : BootInfo) (saw : Bool)
    (hfront : front.length = tag.HEADER_LEN + (seen.flatMap Tag.bytes).length)
    (haligned : front.length % 8 = 0)
    (hend : (front ++ (rest.flatMap Tag.bytes ++ end_tag flags)).length = total)
    (hcount : 8 * info.tag_count.toNat ≤ front.length) (hfilled : Filled seen info saw) :
    ∃ info' saw', walk (front ++ (rest.flatMap Tag.bytes ++ (end_tag flags ++ trailing))) total
        front.length info saw = .ok (info', saw') ∧
      Filled (seen ++ rest) info' saw' ∧ info'.total_size = info.total_size := by
  induction rest generalizing seen front info saw with
  | nil =>
      have hlen : total ≤ (front ++ (end_tag flags ++ trailing)).length := by
        rw [← hend]
        simp
      have hnone : next_tag (front ++ (end_tag flags ++ trailing)) total front.length = .ok none := by
        have hle : front.length ≤ total := by
          rw [← hend]
          simp
        rw [next_tag_eq hlen htotal (by omega), if_pos end_field, ite_self]
      exact ⟨info, saw, walk_stop hnone, (List.append_nil seen).symm ▸ hfilled, rfl⟩
  | cons t rest ih =>
      have hsplit : ∀ more : List UInt8, front ++ ((t :: rest).flatMap Tag.bytes ++ more) =
          front ++ t.bytes ++ (rest.flatMap Tag.bytes ++ more) := by
        intro more
        simp only [List.flatMap_cons, List.append_assoc]
      have hmod := t.bytes_length_mod
      have hsize : 8 ≤ t.bytes.length := by
        rw [Tag.bytes_length, Tag.size, tag.HEADER_LEN]
        omega
      rw [hsplit] at hend ⊢
      have hroom : (front ++ t.bytes).length ≤ total := by
        rw [← hend]
        simp only [List.length_append]
        omega
      have hlen : total ≤ (front ++ (t.bytes ++ (rest.flatMap Tag.bytes ++
          (end_tag flags ++ trailing)))).length := by
        rw [← hend]
        simp only [List.length_append]
        omega
      rw [List.append_assoc, walk_one htotal hlen hroom haligned hcount, ← List.append_assoc]
      have hone : (info.tag_count + 1).toNat ≤ info.tag_count.toNat + 1 := by
        rw [UInt32.toNat_add]
        exact Nat.mod_le _ _
      have hnext := hfilled.snoc t hfront
      obtain ⟨info', saw', hwalk, hdone, hkept⟩ := ih (seen ++ [t]) (front ++ t.bytes) _ _
        (by rw [List.length_append, hfront, List.flatMap_append, List.length_append,
              List.flatMap_singleton, Nat.add_assoc])
        (by rw [List.length_append]; omega) hend
        (by rw [absorb_eq, List.length_append]; dsimp only; omega) hnext
      refine ⟨info', saw', hwalk, by simpa using hdone, hkept.trans ?_⟩
      rw [absorb_eq]

end Walk

section Slots

-- One stride of a memory map: the entry, and whatever the loader puts behind it.
structure Slot (entry_size : Nat) where
  entry : MmapEntry
  extra : List UInt8
  length : 20 + extra.length = entry_size

variable {entry_size : Nat}

def Slot.bytes (slot : Slot entry_size) : List UInt8 :=
  le_bytes 8 slot.entry.base.toNat ++ le_bytes 8 slot.entry.length.toNat ++
    le_bytes 4 slot.entry.mem_type.toNat ++ slot.extra

theorem Slot.bytes_length (slot : Slot entry_size) : slot.bytes.length = entry_size := by
  simp only [Slot.bytes, List.length_append, le_bytes_length, slot.length]

theorem entry_at_slot {front rest : List UInt8} (slot : Slot entry_size) :
    entry_at (front ++ (slot.bytes ++ rest)) front.length = slot.entry := by
  have hbase := @field_le_bytes front (le_bytes 8 slot.entry.length.toNat ++
    (le_bytes 4 slot.entry.mem_type.toNat ++ (slot.extra ++ rest))) 8 _ slot.entry.base.toNat_lt
  have hlength := @field_le_bytes (front ++ le_bytes 8 slot.entry.base.toNat)
    (le_bytes 4 slot.entry.mem_type.toNat ++ (slot.extra ++ rest)) 8 _ slot.entry.length.toNat_lt
  have htype := @field_le_bytes (front ++ (le_bytes 8 slot.entry.base.toNat ++
    le_bytes 8 slot.entry.length.toNat)) (slot.extra ++ rest) 4 _ slot.entry.mem_type.toNat_lt
  simp only [List.append_assoc, List.length_append, le_bytes_length] at hbase hlength htype
  simp only [entry_at, Slot.bytes, List.append_assoc, hbase, hlength, htype, UInt64.ofNat_toNat,
    UInt32.ofNat_toNat]

theorem entries_from_slots (hsize : 24 ≤ entry_size) (slots : List (Slot entry_size))
    (front : List UInt8) :
    entries_from (front ++ slots.flatMap Slot.bytes) entry_size front.length =
      slots.map Slot.entry := by
  induction slots generalizing front with
  | nil => exact entries_from_nil (by omega) (by simp)
  | cons slot slots ih =>
      have hslot := slot.bytes_length
      have hnext := ih (front ++ slot.bytes)
      rw [List.length_append, hslot, List.append_assoc] at hnext
      rw [List.flatMap_cons, entries_from_cons (by omega) (by simp only [List.length_append]; omega),
        entry_at_slot, hnext, List.map_cons]

-- What a loader lays out as a memory map is what is read from it.
theorem entries_of_slots (hsize : 24 ≤ entry_size) (hword : entry_size < 2 ^ 32) (version : UInt32)
    (slots : List (Slot entry_size)) :
    entries_of (le_bytes 4 entry_size ++ (le_bytes 4 version.toNat ++ slots.flatMap Slot.bytes)) =
      slots.map Slot.entry := by
  have hstride := @field_le_bytes [] (le_bytes 4 version.toNat ++ slots.flatMap Slot.bytes) 4
    entry_size hword
  have hslots := entries_from_slots hsize slots (le_bytes 4 entry_size ++ le_bytes 4 version.toNat)
  rw [List.length_append, le_bytes_length, le_bytes_length, List.append_assoc] at hslots
  rw [List.nil_append, List.length_nil] at hstride
  rw [entries_of, hstride, hslots]

end Slots

section Parse

variable (image : Image)

theorem Image.tags_length_le (tags : List Tag) : 8 * tags.length ≤ (tags.flatMap Tag.bytes).length := by
  induction tags with
  | nil => exact Nat.zero_le _
  | cons t tags ih =>
      rw [List.flatMap_cons, List.length_append, List.length_cons, Tag.bytes_length, Tag.size,
        tag.HEADER_LEN]
      omega

theorem placed_le {off : Nat} {tags : List Tag} {p : Nat × Tag} (h : p ∈ placed off tags) :
    p.1 ≤ off + (tags.flatMap Tag.bytes).length := by
  induction tags generalizing off with
  | nil => cases h
  | cons t tags ih =>
      rw [List.flatMap_cons, List.length_append]
      rcases List.mem_cons.mp h with rfl | hlater
      · exact Nat.le_add_right _ _
      · have hp := ih hlater
        omega

theorem filled_of_image (trailing : List UInt8) : ∃ info saw,
    walk (image.bytes ++ trailing) image.total_size tag.HEADER_LEN (empty_info image.total_size)
        false = .ok (info, saw) ∧
      Filled image.tags info saw ∧ info.total_size = UInt32.ofNat image.total_size := by
  have hstart : Filled [] (empty_info image.total_size) false :=
    ⟨rfl, rfl, rfl, rfl, rfl, rfl, rfl, rfl⟩
  have hfront : (le_bytes 4 image.total_size ++ le_bytes 4 image.reserved.toNat).length =
      tag.HEADER_LEN := by
    rw [List.length_append, le_bytes_length, le_bytes_length]
    rfl
  have hend : (le_bytes 4 image.total_size ++ le_bytes 4 image.reserved.toNat ++
      (image.tags.flatMap Tag.bytes ++ end_tag image.end_flags)).length = image.total_size := by
    rw [← List.append_assoc]
    exact image.bytes_length
  have hsplit : image.bytes ++ trailing =
      le_bytes 4 image.total_size ++ le_bytes 4 image.reserved.toNat ++
        (image.tags.flatMap Tag.bytes ++ (end_tag image.end_flags ++ trailing)) := by
    simp only [Image.bytes, List.append_assoc]
  have hwalk := @walk_tags image.end_flags trailing image.total_size image.fits image.tags [] _ _ _
    hfront (by rw [hfront]; rfl) hend (Nat.zero_le _) hstart
  rw [hfront, ← hsplit] at hwalk
  exact hwalk

-- The text a structure keeps comes from the last tag of its type.
def TextFrom (ty : UInt16) (tags : List Tag) (stored : Option Str) : Prop :=
  match last ty tags with
  | none => stored = none
  | some t => ∃ s, stored = some s ∧ Shown t.body s

theorem textFrom_of_eq {ty : UInt16} {tags : List Tag} {stored : Option Str}
    (h : stored = (last ty tags).map fun t => text_of t.body) : TextFrom ty tags stored := by
  rw [TextFrom]
  cases hlast : last ty tags with
  | none => rw [h, hlast]; rfl
  | some t => exact ⟨text_of t.body, by rw [h, hlast]; rfl, text_of_shown t.body⟩

theorem parse_filled (trailing : List UInt8) (hmem : image.tags.flatMap Tag.entries ≠ []) :
    ∃ info saw, parse (image.bytes ++ trailing) = .ok info ∧ Filled image.tags info saw ∧
      info.total_size = UInt32.ofNat image.total_size := by
  have hfits : image.total_size < 2 ^ 32 := image.fits
  have hheader : tag.HEADER_LEN ≤ image.total_size := Nat.le_add_left _ _
  have hlength := image.bytes_length
  obtain ⟨info, saw, hwalk, hfilled, hsize⟩ := filled_of_image image trailing
  have hsaw : saw = true := by
    obtain ⟨e, he⟩ := List.exists_mem_of_ne_nil _ hmem
    obtain ⟨t, ht, he⟩ := List.mem_flatMap.mp he
    rw [hfilled.saw, List.any_eq_true]
    refine ⟨t, ht, ?_⟩
    by_contra hno
    rw [Tag.entries, if_neg (by simpa using hno)] at he
    cases he
  have hsome : info.mmap.is_empty = false := by
    have hpos : 0 < (image.tags.flatMap Tag.entries).length := List.length_pos_iff.mpr hmem
    rw [Vec.is_empty, hfilled.mmap, List.length_take]
    simp only [MMAP_CAP, beq_eq_false_iff_ne]
    omega
  have hword : u32_at (image.bytes ++ trailing) 0 = .ok (some (UInt32.ofNat image.total_size)) := by
    have hread := @field_le_bytes [] (le_bytes 4 image.reserved.toNat ++
      (image.tags.flatMap Tag.bytes ++ (end_tag image.end_flags ++ trailing))) 4 _ hfits
    have hlen : 4 ≤ (image.bytes ++ trailing).length := by
      rw [List.length_append]
      simp only [tag.HEADER_LEN] at hheader
      omega
    rw [u32_at_zero, if_pos hlen, ← hread]
    simp only [Image.bytes, List.append_assoc, List.nil_append, List.length_nil]
  refine ⟨info, saw, ?_, hfilled, hsize⟩
  have htotal : (UInt32.ofNat image.total_size).toNat = image.total_size :=
    UInt32.toNat_ofNat_of_lt' hfits
  rw [parse_eq hword, htotal, if_neg (Nat.not_lt.mpr hheader),
    if_neg (by rw [List.length_append]; omega), hwalk, ok_bind]
  simp only [hsaw, hsome, Bool.not_true, Bool.or_self, Bool.false_eq_true, ↓reduceIte]

-- The round trip: whatever follows the structure, each field is what its tags say.
theorem parse_image (image : Image) (trailing : List UInt8)
    (hmem : image.tags.flatMap Tag.entries ≠ []) :
    ∃ info, parse (image.bytes ++ trailing) = .ok info ∧
      info.mmap.items = (image.tags.flatMap Tag.entries).take 64 ∧
      TextFrom tag.CMDLINE image.tags info.cmdline ∧
      TextFrom tag.BOOT_LOADER_NAME image.tags info.loader_name ∧
      info.framebuffer =
        (image.tags.find? fun t => t.HasFramebuffer).map (fun t => framebuffer_of t.body) ∧
      info.acpi_rsdp.map UInt64.toNat =
        ((placed tag.HEADER_LEN image.tags).find? fun p => p.2.HasRsdp).map
          (fun p => p.1 + tag.HEADER_LEN) ∧
      info.load_base_addr =
        (last tag.LOAD_BASE_ADDR image.tags).bind (fun t => load_base_of t.body) ∧
      info.tag_count.toNat = image.tags.length ∧
      info.total_size.toNat = image.bytes.length := by
  obtain ⟨info, saw, hparse, hfilled, hsize⟩ := parse_filled image trailing hmem
  have hfits := image.fits
  have hcount := Image.tags_length_le image.tags
  have hrsdp : info.acpi_rsdp.map UInt64.toNat =
      ((placed tag.HEADER_LEN image.tags).find? fun p => p.2.HasRsdp).map
        (fun p => p.1 + tag.HEADER_LEN) := by
    rw [hfilled.acpi_rsdp, Option.map_map]
    refine Option.map_congr fun p hp => UInt64.toNat_ofNat_of_lt' ?_
    have hle := placed_le (List.mem_of_find?_eq_some hp)
    simp only [UInt64.size]
    omega
  refine ⟨info, hparse, hfilled.mmap, textFrom_of_eq hfilled.cmdline,
    textFrom_of_eq hfilled.loader_name, hfilled.framebuffer, hrsdp, hfilled.load_base_addr, ?_, ?_⟩
  · rw [hfilled.tag_count, UInt32.toNat_ofNat_of_lt' (by simp only [UInt32.size]; omega)]
  · rw [hsize, image.bytes_length]
    exact UInt32.toNat_ofNat_of_lt' image.fits

-- A 640 KiB region in a map of 32-byte strides, behind a command line padded with garbage.
def small_slot : Slot 32 := ⟨⟨0, 0xA0000, 1⟩, List.replicate 12 0xFF, rfl⟩

def small_map : Tag where
  ty := tag.MMAP
  flags := 0
  body := le_bytes 4 32 ++ (le_bytes 4 (0 : UInt32).toNat ++ [small_slot].flatMap Slot.bytes)
  pad := []
  ty_ne := by decide
  pad_length := rfl
  mmap := fun _ => by decide

def small_image : Image where
  reserved := 7
  tags := [⟨tag.CMDLINE, 1, [113, 0], [1, 2, 3, 4, 5, 6], by decide, rfl, fun h => nomatch h⟩, small_map]
  end_flags := 0
  fits := by decide

theorem parse_image_small : ∃ info, parse (small_image.bytes ++ [0xAA]) = .ok info ∧
    info.mmap.items = [⟨0, 0xA0000, 1⟩] ∧ info.tag_count.toNat = 2 := by
  have hentries : small_image.tags.flatMap Tag.entries = [small_slot.entry] :=
    entries_of_slots (by decide) (by decide) 0 [small_slot]
  obtain ⟨info, hparse, hmmap, -, -, -, -, -, hcount, -⟩ :=
    parse_image small_image [0xAA] (by rw [hentries]; simp)
  rw [hentries] at hmmap
  exact ⟨info, hparse, hmmap, hcount⟩

end Parse

end Orin.Multiboot
