import Orin.Multiboot.Walk

namespace Orin.Multiboot

open Rust Heapless

section Headers

variable (bytes : List UInt8) (total off : Nat)

def tag_size : Nat := field bytes (off + 4) 4

def tag_body : List UInt8 :=
  (bytes.drop (off + tag.HEADER_LEN)).take (tag_size bytes off - tag.HEADER_LEN)

-- A tag of the walk: it is not the end marker, and it lies in the first `total` bytes.
structure TagAt : Prop where
  header : off + tag.HEADER_LEN ≤ total
  ty : field bytes off 2 ≠ 0
  size : tag.HEADER_LEN ≤ tag_size bytes off
  fits : off + tag_size bytes off ≤ total

end Headers

-- The offsets the walk comes to.
inductive Visited (bytes : List UInt8) (total : Nat) : Nat → Prop
  | first : Visited bytes total tag.HEADER_LEN
  | next {off : Nat} : Visited bytes total off → TagAt bytes total off →
      Visited bytes total (align_up (off + tag_size bytes off))

-- The entry stands at a multiple of the tag's own stride in a memory-map tag of the walk.
def Decoded (bytes : List UInt8) (total : Nat) (e : MmapEntry) : Prop :=
  ∃ off k, Visited bytes total off ∧ TagAt bytes total off ∧ field bytes off 2 = 6 ∧
    24 ≤ field bytes (off + tag.HEADER_LEN) 4 ∧
    8 + k * field bytes (off + tag.HEADER_LEN) 4 + 20 ≤ (tag_body bytes off).length ∧
    e = entry_at bytes (off + tag.HEADER_LEN + (8 + k * field bytes (off + tag.HEADER_LEN) 4))

section Walk

variable {bytes : List UInt8} {total off : Nat}

theorem TagAt.body_length (h : TagAt bytes total off) (hlen : total ≤ bytes.length) :
    (tag_body bytes off).length = tag_size bytes off - tag.HEADER_LEN := by
  have hfits := h.fits
  rw [tag_body, List.length_take, List.length_drop]
  omega

theorem TagAt.next_tag (h : TagAt bytes total off) (hlen : total ≤ bytes.length)
    (htotal : total < 2 ^ 32) : next_tag bytes total off =
      .ok (some ⟨UInt16.ofNat (field bytes off 2), off + tag_size bytes off⟩) := by
  obtain ⟨hheader, hty, hsize, hfits⟩ := h
  rw [tag_size] at hsize hfits ⊢
  rw [next_tag_eq hlen htotal (by omega), if_neg (Nat.not_lt.mpr hheader), if_neg hty,
    if_neg (Nat.not_lt.mpr hsize), if_neg (Nat.not_lt.mpr hfits)]

theorem next_tag_of_not_tagAt (h : ¬ TagAt bytes total off) (hlen : total ≤ bytes.length)
    (htotal : total < 2 ^ 32) (hoff : off ≤ 2 ^ 33) :
    next_tag bytes total off = .ok none ∨ ∃ e, next_tag bytes total off = .error (.returned e) := by
  rw [next_tag_eq hlen htotal hoff]
  by_cases hheader : total < off + tag.HEADER_LEN
  · exact .inl (if_pos hheader)
  rw [if_neg hheader]
  by_cases hty : field bytes off 2 = 0
  · exact .inl (if_pos hty)
  rw [if_neg hty]
  by_cases hsize : field bytes (off + 4) 4 < tag.HEADER_LEN
  · exact .inr ⟨_, if_pos hsize⟩
  rw [if_neg hsize]
  by_cases hfits : total < off + field bytes (off + 4) 4
  · exact .inr ⟨_, if_pos hfits⟩
  exact absurd ⟨Nat.le_of_not_lt hheader, hty, Nat.le_of_not_lt hsize, Nat.le_of_not_lt hfits⟩ h

-- The rule for the walk: what every tag keeps holds at its end, and it never panics.
theorem ends_walk {I : Nat → BootInfo → Bool → Prop} (hlen : total ≤ bytes.length)
    (htotal : total < 2 ^ 32)
    (hstep : ∀ off info saw, TagAt bytes total off → I off info saw →
      (UInt16.ofNat (field bytes off 2) = tag.MMAP → MmapHeader (tag_body bytes off)) →
      let filled := absorb (UInt16.ofNat (field bytes off 2)) off (tag_body bytes off)
        { info with tag_count := info.tag_count + 1 } saw
      I (align_up (off + tag_size bytes off)) filled.1 filled.2)
    (off : Nat) (info : BootInfo) (saw : Bool) (hoff : off ≤ total + 7)
    (hcount : 8 * info.tag_count.toNat ≤ off) (hI : I off info saw) :
    Ends (fun r => ∃ off', I off' r.1 r.2) (fun e => ∃ p, e = .returned p)
      (walk bytes total off info saw) := by
  by_cases htag : TagAt bytes total off
  · have hheader := htag.header
    have hsize := htag.size
    have hfits := htag.fits
    rw [walk_tag hlen htotal hcount (htag.next_tag hlen htotal), Nat.add_sub_add_left]
    show Ends _ _ (apply_tag _ off (tag_body bytes off) _ saw >>= _)
    have hbody := htag.body_length hlen
    have hword : off + tag.HEADER_LEN + (tag_body bytes off).length < 2 ^ 32 := by omega
    by_cases hbad : UInt16.ofNat (field bytes off 2) = tag.MMAP ∧ ¬ MmapHeader (tag_body bytes off)
    · rw [apply_tag_bad_mmap (by omega) hbad.1 hbad.2, error_bind]
      exact ⟨_, rfl⟩
    · have hmmap : UInt16.ofNat (field bytes off 2) = tag.MMAP → MmapHeader (tag_body bytes off) :=
        fun hty => not_not.mp fun hno => hbad ⟨hty, hno⟩
      rw [apply_tag_eq hword hmmap, ok_bind]
      have hnext := le_align_up (off + tag_size bytes off)
      refine ends_walk hlen htotal hstep _ _ _ (align_up_le hfits) ?_ (hstep off info saw htag hI hmmap)
      have hone : (info.tag_count + 1).toNat ≤ info.tag_count.toNat + 1 := by
        rw [UInt32.toNat_add]
        exact Nat.mod_le _ _
      rw [absorb_eq]
      simp only [tag.HEADER_LEN] at hsize
      dsimp only
      omega
  · rcases next_tag_of_not_tagAt htag hlen htotal (by omega) with hnone | ⟨e, herror⟩
    · rw [walk_stop hnone]
      exact ⟨off, hI⟩
    · rw [walk_error herror]
      exact ⟨e, rfl⟩
termination_by total - off
decreasing_by
  simp only [tag.HEADER_LEN] at *
  omega

-- What a memory-map tag of the walk adds is decoded from it.
theorem decoded_of_mem (hlen : total ≤ bytes.length) (hvisited : Visited bytes total off)
    (htag : TagAt bytes total off) (hty : field bytes off 2 = 6)
    (hheader : MmapHeader (tag_body bytes off)) {e : MmapEntry}
    (he : e ∈ entries_of (tag_body bytes off)) : Decoded bytes total e := by
  have hbody := htag.body_length hlen
  obtain ⟨hroom, hstride⟩ := hheader
  have hstride_eq : field (tag_body bytes off) 0 4 = field bytes (off + tag.HEADER_LEN) 4 :=
    field_drop_take (by omega)
  obtain ⟨k, hk, rfl⟩ := List.mem_map.mp he
  have hin := (lt_entry_count (by omega)).mp (List.mem_range.mp hk)
  rw [hstride_eq] at hstride hin ⊢
  refine ⟨off, k, hvisited, htag, hty, hstride, by omega, ?_⟩
  exact entry_at_drop_take (by omega)

def Gathered (bytes : List UInt8) (total off : Nat) (info : BootInfo) (_saw : Bool) : Prop :=
  Visited bytes total off ∧ info.total_size.toNat = total ∧
    ∀ e ∈ info.mmap.items, Decoded bytes total e

theorem walk_gathered (hlen : total ≤ bytes.length) (htotal : total < 2 ^ 32)
    (hheader : tag.HEADER_LEN ≤ total) :
    Ends (fun r => ∃ off, Gathered bytes total off r.1 r.2) (fun e => ∃ p, e = .returned p)
      (walk bytes total tag.HEADER_LEN (empty_info total) false) := by
  have hstart : Gathered bytes total tag.HEADER_LEN (empty_info total) false :=
    ⟨.first, UInt32.toNat_ofNat_of_lt' htotal, fun e he => nomatch he⟩
  refine ends_walk hlen htotal ?_ _ _ _ (by omega) (Nat.zero_le _) hstart
  rintro off info saw htag ⟨hvisited, hsize, hmem⟩ hmmap
  rw [absorb_eq]
  refine ⟨hvisited.next htag, hsize, fun e he => ?_⟩
  dsimp only at he
  split at he
  · rename_i hty
    have hsix : field bytes off 2 = 6 := by rw [← toNat_field_two, hty]; rfl
    rcases List.mem_append.mp (List.mem_of_mem_take he) with hold | hnew
    · exact hmem e hold
    · exact decoded_of_mem hlen hvisited htag hsix (hmmap hty) hnew
  · exact hmem e he

end Walk

section Parse

variable {bytes : List UInt8}

-- How `parse` goes on once the declared size is known to be there.
theorem parse_eq {total : UInt32} (hword : u32_at bytes 0 = .ok (some total)) :
    parse bytes =
      if total.toNat < tag.HEADER_LEN then .error (.returned .TooShort)
      else if bytes.length < total.toNat then .error (.returned .SizeMismatch)
      else walk bytes total.toNat tag.HEADER_LEN (empty_info total.toNat) false >>= fun filled =>
        if !filled.2 || filled.1.mmap.is_empty then .error (.returned .NoMemoryMap)
        else .ok filled.1 := by
  rw [parse, hword]
  rfl

theorem u32_at_zero (bytes : List UInt8) : u32_at bytes 0 =
    .ok (if 4 ≤ bytes.length then some (UInt32.ofNat (field bytes 0 4)) else none) :=
  u32_at_eq (by rw [WORD_eq]; decide)

theorem ends_parse (bytes : List UInt8) :
    Ends (fun info => u32_at bytes 0 = .ok (some info.total_size) ∧
        tag.HEADER_LEN ≤ info.total_size.toNat ∧ info.total_size.toNat ≤ bytes.length ∧
        ∀ e ∈ info.mmap.items, Decoded bytes info.total_size.toNat e)
      (fun e => ∃ p, e = .returned p) (parse bytes) := by
  by_cases hfour : 4 ≤ bytes.length
  · have hword := u32_at_zero bytes
    rw [if_pos hfour] at hword
    rw [parse_eq hword]
    split
    · exact ⟨_, rfl⟩
    rename_i hheader
    split
    · exact ⟨_, rfl⟩
    rename_i hlen
    refine (walk_gathered (Nat.le_of_not_lt hlen) (UInt32.toNat_lt _)
      (Nat.le_of_not_lt hheader)).bind ?_
    rintro ⟨info, saw⟩ ⟨off, -, hsize, hmem⟩
    dsimp only at hsize hmem ⊢
    split
    · exact ⟨_, rfl⟩
    · rw [← UInt32.toNat_inj.mp hsize] at hword hheader hlen hmem
      exact ⟨hword, Nat.le_of_not_lt hheader, Nat.le_of_not_lt hlen, hmem⟩
  · rw [parse, u32_at_zero, if_neg hfour]
    exact ⟨_, rfl⟩

end Parse

section Agree

variable {bytes bytes' : List UInt8} {total off count : Nat}

theorem field_congr (h : bytes.take total = bytes'.take total) (hin : off + count ≤ total) :
    field bytes off count = field bytes' off count := by
  rw [← field_take hin, h, field_take hin]

theorem next_tag_congr (hlen : total ≤ bytes.length) (hlen' : total ≤ bytes'.length)
    (htotal : total < 2 ^ 32) (hoff : off ≤ 2 ^ 33) (h : bytes.take total = bytes'.take total) :
    next_tag bytes total off = next_tag bytes' total off := by
  rw [next_tag_eq hlen htotal hoff, next_tag_eq hlen' htotal hoff]
  by_cases hend : total < off + tag.HEADER_LEN
  · rw [if_pos hend, if_pos hend]
  · have hin : off + 8 ≤ total := Nat.le_of_not_lt hend
    rw [field_congr h (show off + 2 ≤ total by omega),
      field_congr h (show off + 4 + 4 ≤ total by omega)]

theorem slice_congr {first last : Nat} (hlen : total ≤ bytes.length) (hlen' : total ≤ bytes'.length)
    (h : bytes.take total = bytes'.take total) (hfirst : first ≤ last) (hlast : last ≤ total) :
    slice bytes first last = slice bytes' first last := by
  have hcut : ∀ b : List UInt8,
      (b.drop first).take (last - first) = ((b.take total).drop first).take (last - first) := by
    intro b
    rw [List.drop_take, List.take_take, Nat.min_eq_left (by omega)]
  rw [slice_eq hfirst (by omega), slice_eq hfirst (by omega), hcut bytes, h, ← hcut bytes']

theorem walk_congr (hlen : total ≤ bytes.length) (hlen' : total ≤ bytes'.length)
    (htotal : total < 2 ^ 32) (h : bytes.take total = bytes'.take total) (off : Nat)
    (hoff : off ≤ total + 7) (info : BootInfo) (saw : Bool) :
    walk bytes total off info saw = walk bytes' total off info saw := by
  have hnext := next_tag_congr hlen hlen' htotal (show off ≤ 2 ^ 33 by omega) h
  cases hhdr : next_tag bytes total off with
  | error e => rw [walk_error hhdr, walk_error (hnext ▸ hhdr)]
  | ok found =>
      cases found with
      | none => rw [walk_stop hhdr, walk_stop (hnext ▸ hhdr)]
      | some hdr =>
          obtain ⟨hstart, hstop⟩ := next_tag_stop hhdr
          rw [walk_some hhdr, walk_some (hnext ▸ hhdr), slice_congr hlen hlen' h hstart hstop]
          refine bind_congr fun body => bind_congr fun info => bind_congr fun filled =>
            bind_congr fun _ => ?_
          exact walk_congr hlen hlen' htotal h _ (align_up_le hstop) _ _
termination_by total - off
decreasing_by
  have hup := le_align_up hdr.stop
  simp only [tag.HEADER_LEN] at *
  omega

theorem parse_congr {size : UInt32} (hword : u32_at bytes 0 = .ok (some size))
    (hword' : u32_at bytes' 0 = .ok (some size)) (hlen : size.toNat ≤ bytes.length)
    (hlen' : size.toNat ≤ bytes'.length)
    (h : bytes.take size.toNat = bytes'.take size.toNat) : parse bytes = parse bytes' := by
  rw [parse_eq hword, parse_eq hword', if_neg (Nat.not_lt.mpr hlen), if_neg (Nat.not_lt.mpr hlen')]
  split
  · rfl
  · rw [walk_congr hlen hlen' size.toNat_lt h _ (by omega)]

end Agree

-- No input makes the parser panic; what it takes for memory stands in a memory-map tag of
-- the walk; and nothing past the declared size is looked at.
theorem parse_safe (bytes : List UInt8) :
    (∀ p, parse bytes ≠ .error (.panicked p)) ∧
      (∀ info, parse bytes = .ok info → 8 ≤ info.total_size.toNat ∧
        info.total_size.toNat ≤ bytes.length ∧
        (∀ e ∈ info.mmap.items, Decoded bytes info.total_size.toNat e) ∧
        ∀ bytes', info.total_size.toNat ≤ bytes'.length →
          bytes.take info.total_size.toNat = bytes'.take info.total_size.toNat →
          parse bytes' = .ok info) ∧
      ∀ size bytes', u32_at bytes 0 = .ok (some size) → u32_at bytes' 0 = .ok (some size) →
        size.toNat ≤ bytes.length → size.toNat ≤ bytes'.length →
        bytes.take size.toNat = bytes'.take size.toNat → parse bytes = parse bytes' := by
  have hends := ends_parse bytes
  refine ⟨fun p hp => ?_, fun info hinfo => ?_, fun size bytes' hword hword' hlen hlen' h =>
    parse_congr hword hword' hlen hlen' h⟩
  · obtain ⟨e, he⟩ := hends.of_eq_error hp
    cases he
  · obtain ⟨hword, hheader, hlen, hmem⟩ := hends.of_eq_ok hinfo
    refine ⟨hheader, hlen, hmem, fun bytes' hlen' h => ?_⟩
    have hword' : u32_at bytes' 0 = .ok (some info.total_size) := by
      simp only [tag.HEADER_LEN] at hheader
      rw [← hword, u32_at_zero, u32_at_zero, if_pos (by omega), if_pos (by omega),
        field_congr h (by omega)]
    rw [← hinfo, parse_congr hword hword' hlen hlen' h]

end Orin.Multiboot
