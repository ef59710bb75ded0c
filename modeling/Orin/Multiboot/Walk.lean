import Orin.Multiboot.Fields

namespace Orin.Multiboot

open Rust Heapless

section Tag

variable {ty : UInt16} {off : Nat} {body : List UInt8} {info : BootInfo} {saw_mmap : Bool}

def load_base_of (body : List UInt8) : Option UInt32 :=
  if 4 ≤ body.length then some (UInt32.ofNat (field body 0 4)) else none

-- What one tag leaves in the structure once its body has passed the checks.
def absorb (ty : UInt16) (off : Nat) (body : List UInt8) (info : BootInfo) (saw_mmap : Bool) :
    BootInfo × Bool :=
  if ty = tag.CMDLINE then ({ info with cmdline := some (text_of body) }, saw_mmap)
  else if ty = tag.BOOT_LOADER_NAME then
    ({ info with loader_name := some (text_of body) }, saw_mmap)
  else if ty = tag.MMAP then ({ info with mmap := extend info.mmap (entries_of body) }, true)
  else if ty = tag.FRAMEBUFFER ∧ 24 ≤ body.length then
    (if info.framebuffer.isNone then { info with framebuffer := some (framebuffer_of body) }
      else info, saw_mmap)
  else if ty = tag.ACPI_OLD ∧ 20 ≤ body.length then
    (if info.acpi_rsdp.isNone then
      { info with acpi_rsdp := some (UInt64.ofNat (off + tag.HEADER_LEN)), acpi_version := 1 }
      else info, saw_mmap)
  else if ty = tag.ACPI_NEW ∧ 36 ≤ body.length then
    (if info.acpi_rsdp.isNone then
      { info with acpi_rsdp := some (UInt64.ofNat (off + tag.HEADER_LEN)), acpi_version := 2 }
      else info, saw_mmap)
  else if ty = tag.LOAD_BASE_ADDR then
    ({ info with load_base_addr := load_base_of body }, saw_mmap)
  else (info, saw_mmap)

-- The same step field by field: each is written by one type of tag, or by two.
theorem absorb_eq : absorb ty off body info saw_mmap =
    ({ info with
        cmdline := if ty = tag.CMDLINE then some (text_of body) else info.cmdline
        loader_name := if ty = tag.BOOT_LOADER_NAME then some (text_of body) else info.loader_name
        mmap := if ty = tag.MMAP then extend info.mmap (entries_of body) else info.mmap
        framebuffer := info.framebuffer.or
          (if ty = tag.FRAMEBUFFER ∧ 24 ≤ body.length then some (framebuffer_of body) else none)
        acpi_rsdp := info.acpi_rsdp.or
          (if (ty = tag.ACPI_OLD ∧ 20 ≤ body.length) ∨ (ty = tag.ACPI_NEW ∧ 36 ≤ body.length) then
            some (UInt64.ofNat (off + tag.HEADER_LEN)) else none)
        acpi_version := if info.acpi_rsdp.isSome then info.acpi_version
          else if ty = tag.ACPI_OLD ∧ 20 ≤ body.length then 1
          else if ty = tag.ACPI_NEW ∧ 36 ≤ body.length then 2 else info.acpi_version
        load_base_addr := if ty = tag.LOAD_BASE_ADDR then load_base_of body else info.load_base_addr },
      saw_mmap || decide (ty = tag.MMAP)) := by
  obtain ⟨total, cmdline, loader, mmap, fb, rsdp, version, base, count, phys⟩ := info
  by_cases hcmdline : ty = tag.CMDLINE
  · subst hcmdline
    simp [absorb, tag.CMDLINE, tag.BOOT_LOADER_NAME, tag.MMAP, tag.FRAMEBUFFER, tag.ACPI_OLD,
      tag.ACPI_NEW, tag.LOAD_BASE_ADDR]
  by_cases hboot_loader_name : ty = tag.BOOT_LOADER_NAME
  · subst hboot_loader_name
    simp [absorb, tag.CMDLINE, tag.BOOT_LOADER_NAME, tag.MMAP, tag.FRAMEBUFFER, tag.ACPI_OLD,
      tag.ACPI_NEW, tag.LOAD_BASE_ADDR]
  by_cases hmmap : ty = tag.MMAP
  · subst hmmap
    simp [absorb, tag.CMDLINE, tag.BOOT_LOADER_NAME, tag.MMAP, tag.FRAMEBUFFER, tag.ACPI_OLD,
      tag.ACPI_NEW, tag.LOAD_BASE_ADDR]
  by_cases hframebuffer : ty = tag.FRAMEBUFFER
  · subst hframebuffer
    by_cases hlen : 24 ≤ body.length <;> cases fb <;>
      simp [absorb, hlen, tag.CMDLINE, tag.BOOT_LOADER_NAME, tag.MMAP, tag.FRAMEBUFFER,
        tag.ACPI_OLD, tag.ACPI_NEW, tag.LOAD_BASE_ADDR]
  by_cases hold : ty = tag.ACPI_OLD
  · subst hold
    by_cases hlen : 20 ≤ body.length <;> cases rsdp <;>
      simp [absorb, hlen, tag.CMDLINE, tag.BOOT_LOADER_NAME, tag.MMAP, tag.FRAMEBUFFER,
        tag.ACPI_OLD, tag.ACPI_NEW, tag.LOAD_BASE_ADDR]
  by_cases hnew : ty = tag.ACPI_NEW
  · subst hnew
    by_cases hlen : 36 ≤ body.length <;> cases rsdp <;>
      simp [absorb, hlen, tag.CMDLINE, tag.BOOT_LOADER_NAME, tag.MMAP, tag.FRAMEBUFFER,
        tag.ACPI_OLD, tag.ACPI_NEW, tag.LOAD_BASE_ADDR]
  by_cases hbase : ty = tag.LOAD_BASE_ADDR
  · subst hbase
    simp [absorb, tag.CMDLINE, tag.BOOT_LOADER_NAME, tag.MMAP, tag.FRAMEBUFFER, tag.ACPI_OLD,
      tag.ACPI_NEW, tag.LOAD_BASE_ADDR]
  simp [absorb, hcmdline, hboot_loader_name, hmmap, hframebuffer, hold, hnew, hbase]

theorem apply_tag_eq (hword : off + tag.HEADER_LEN + body.length < 2 ^ 32)
    (hmmap : ty = tag.MMAP → MmapHeader body) :
    apply_tag ty off body info saw_mmap = .ok (absorb ty off body info saw_mmap) := by
  have hW := WORD_eq
  have hlen : body.length < 2 ^ 32 := by omega
  have hrsdp : add off tag.HEADER_LEN = .ok (off + tag.HEADER_LEN) := add_of_lt (by omega)
  rw [apply_tag, absorb]
  by_cases hcmdline : ty = tag.CMDLINE
  · rw [if_pos hcmdline, if_pos hcmdline]
    rfl
  rw [if_neg hcmdline, if_neg hcmdline]
  by_cases hloader : ty = tag.BOOT_LOADER_NAME
  · rw [if_pos hloader, if_pos hloader]
    rfl
  rw [if_neg hloader, if_neg hloader]
  by_cases hmap : ty = tag.MMAP
  · rw [if_pos hmap, if_pos hmap, parse_mmap_eq hlen, if_pos (hmmap hmap)]
    rfl
  rw [if_neg hmap, if_neg hmap]
  by_cases hfb : ty = tag.FRAMEBUFFER ∧ 24 ≤ body.length
  · rw [if_pos hfb, if_pos hfb, parse_framebuffer_eq hlen hfb.2]
    split <;> rfl
  rw [if_neg hfb, if_neg hfb]
  by_cases hold : ty = tag.ACPI_OLD ∧ 20 ≤ body.length
  · rw [if_pos hold, if_pos hold, hrsdp]
    split <;> rfl
  rw [if_neg hold, if_neg hold]
  by_cases hnew : ty = tag.ACPI_NEW ∧ 36 ≤ body.length
  · rw [if_pos hnew, if_pos hnew, hrsdp]
    split <;> rfl
  rw [if_neg hnew, if_neg hnew]
  by_cases hbase : ty = tag.LOAD_BASE_ADDR
  · rw [if_pos hbase, if_pos hbase, u32_at_eq (by omega)]
    rfl
  rw [if_neg hbase, if_neg hbase]
  rfl

theorem apply_tag_bad_mmap (hword : body.length < 2 ^ 32) (hty : ty = tag.MMAP)
    (hbad : ¬ MmapHeader body) :
    apply_tag ty off body info saw_mmap = .error (.returned .BadMmapEntrySize) := by
  subst hty
  simp only [apply_tag, tag.MMAP, tag.CMDLINE, tag.BOOT_LOADER_NAME, parse_mmap_eq hword, hbad]
  rfl

end Tag

section Header

variable {bytes : List UInt8} {total off first last : Nat}

theorem next_tag_eq (hlen : total ≤ bytes.length) (htotal : total < 2 ^ 32) (hoff : off ≤ 2 ^ 33) :
    next_tag bytes total off =
      if total < off + tag.HEADER_LEN then .ok none
      else if field bytes off 2 = 0 then .ok none
      else if field bytes (off + 4) 4 < tag.HEADER_LEN then .error (.returned .TagUndersize)
      else if total < off + field bytes (off + 4) 4 then .error (.returned .TagOverrun)
      else .ok (some ⟨UInt16.ofNat (field bytes off 2), off + field bytes (off + 4) 4⟩) := by
  have hW := WORD_eq
  have hsize := @field_four_lt bytes (off + 4)
  have hadd : add off tag.HEADER_LEN = .ok (off + tag.HEADER_LEN) :=
    add_of_lt (by simp only [tag.HEADER_LEN]; omega)
  rw [next_tag, hadd]
  show (if total < off + tag.HEADER_LEN then _ else _) = _
  by_cases hend : total < off + tag.HEADER_LEN
  · rw [if_pos hend, if_pos hend]
    rfl
  rw [if_neg hend, if_neg hend]
  have hin : off + 8 ≤ total := Nat.le_of_not_lt hend
  rw [u16_at_eq (by omega), if_pos (by omega), add_of_lt (show off + 4 < WORD by omega)]
  simp only [panicking, ok_bind]
  rw [u32_at_eq (by omega), if_pos (by omega)]
  simp only [ok_bind, toNat_field_four]
  have hzero : UInt16.ofNat (field bytes off 2) = tag.END ↔ field bytes off 2 = 0 := by
    rw [← UInt16.toNat_inj, toNat_field_two]
    rfl
  have hfits : ¬ WORD ≤ off + field bytes (off + 4) 4 := by omega
  simp only [hzero, hfits, ↓reduceIte]
  rfl

theorem slice_eq (hfirst : first ≤ last) (hlast : last ≤ bytes.length) :
    slice bytes first last = .ok ((bytes.drop first).take (last - first)) :=
  if_pos ⟨hfirst, hlast⟩

theorem count_tag_eq {info : BootInfo} (h : info.tag_count.toNat + 1 < 2 ^ 32) :
    count_tag info = .ok { info with tag_count := info.tag_count + 1 } := if_pos h

end Header

section Walk

variable {bytes : List UInt8} {total off : Nat} {info : BootInfo} {saw_mmap : Bool}

-- One round, with the header it reads as the first step.
theorem walk_eq : walk bytes total off info saw_mmap = (do
    match ← next_tag bytes total off with
    | none => return (info, saw_mmap)
    | some hdr =>
        let body ← panicking (slice bytes (off + tag.HEADER_LEN) hdr.stop)
        let info ← panicking (count_tag info)
        let filled ← apply_tag hdr.ty off body info saw_mmap
        let _ ← panicking (add hdr.stop (tag.ALIGN - 1))
        walk bytes total (align_up hdr.stop) filled.1 filled.2) := by
  rw [walk]
  split
  · rename_i e he
    rw [he]
    rfl
  · rename_i hnone
    rw [hnone]
    rfl
  · rename_i hdr hhdr
    rw [hhdr]
    rfl

theorem walk_stop (h : next_tag bytes total off = .ok none) :
    walk bytes total off info saw_mmap = .ok (info, saw_mmap) := by
  rw [walk_eq, h]
  rfl

theorem walk_error {e : Failure} (h : next_tag bytes total off = .error e) :
    walk bytes total off info saw_mmap = .error e := by
  rw [walk_eq, h]
  rfl

theorem walk_some {hdr : TagHeader} (h : next_tag bytes total off = .ok (some hdr)) :
    walk bytes total off info saw_mmap = (do
      let body ← panicking (slice bytes (off + tag.HEADER_LEN) hdr.stop)
      let info ← panicking (count_tag info)
      let filled ← apply_tag hdr.ty off body info saw_mmap
      let _ ← panicking (add hdr.stop (tag.ALIGN - 1))
      walk bytes total (align_up hdr.stop) filled.1 filled.2) := by
  rw [walk_eq, h]
  rfl

-- A round that has found a tag. The header's extent makes all its arithmetic fit.
theorem walk_tag {hdr : TagHeader} (hlen : total ≤ bytes.length) (htotal : total < 2 ^ 32)
    (hcount : 8 * info.tag_count.toNat ≤ off) (h : next_tag bytes total off = .ok (some hdr)) :
    walk bytes total off info saw_mmap =
      apply_tag hdr.ty off
          ((bytes.drop (off + tag.HEADER_LEN)).take (hdr.stop - (off + tag.HEADER_LEN)))
          { info with tag_count := info.tag_count + 1 } saw_mmap >>=
        fun filled => walk bytes total (align_up hdr.stop) filled.1 filled.2 := by
  have hW := WORD_eq
  obtain ⟨hstart, hstop⟩ := next_tag_stop h
  have hcounted : count_tag info = .ok { info with tag_count := info.tag_count + 1 } :=
    count_tag_eq (by omega)
  have hadd : add hdr.stop (tag.ALIGN - 1) = .ok (hdr.stop + (tag.ALIGN - 1)) :=
    add_of_lt (by simp only [tag.ALIGN]; omega)
  rw [walk_some h, slice_eq hstart (by omega), hcounted, hadd]
  rfl

theorem align_up_le {stop limit : Nat} (h : stop ≤ limit) : align_up stop ≤ limit + 7 := by
  simp only [align_up, tag.ALIGN]
  omega

theorem le_align_up (stop : Nat) : stop ≤ align_up stop := by
  simp only [align_up, tag.ALIGN]
  omega

end Walk

end Orin.Multiboot
