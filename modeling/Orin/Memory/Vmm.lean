import Orin.Boot.Link
import Orin.Theory.Radix

namespace Orin.Memory.Vmm

open Rust Arch
open Theory.Radix (Mem write fill)

namespace flags

def PRESENT : Nat := 1 <<< 0
def WRITABLE : Nat := 1 <<< 1
def USER : Nat := 1 <<< 2
def WRITE_THROUGH : Nat := 1 <<< 3
def NO_CACHE : Nat := 1 <<< 4
def HUGE_PAGE : Nat := 1 <<< 7
def GLOBAL : Nat := 1 <<< 8
def NO_EXECUTE : Nat := 1 <<< 63

def DEVICE : Nat := PRESENT ||| WRITABLE ||| NO_CACHE ||| WRITE_THROUGH ||| NO_EXECUTE

end flags

inductive Perm where
  | TextRoX
  | RoData
  | DataRwNx
  | Device
  | BootIdentity
  deriving DecidableEq, Repr

def Perm.bits : Perm → Nat
  | .TextRoX => flags.PRESENT ||| flags.GLOBAL
  | .RoData => flags.PRESENT ||| flags.GLOBAL ||| flags.NO_EXECUTE
  | .DataRwNx => flags.PRESENT ||| flags.WRITABLE ||| flags.GLOBAL ||| flags.NO_EXECUTE
  | .Device => flags.DEVICE
  | .BootIdentity => flags.PRESENT ||| flags.WRITABLE ||| flags.NO_CACHE ||| flags.NO_EXECUTE

-- The statics of the module, CR3 and the physical memory they work on. Memory is a
-- table of pages: the page's address, the index of a 64-bit word in it, the word.
-- `supply` is what `pmm::allocate_frame` will answer, in order, before it is empty.
structure State where
  mem : Mem Nat Nat Nat
  supply : List Nat
  allocated : Nat
  frames : List Nat
  kernel_pml4 : Nat
  cr3 : Nat
  nx_available : Bool

-- `PT_POOL`, `KERNEL_PML4` before `init` runs.
def State.new (mem : Mem Nat Nat Nat) (supply : List Nat) (cr3 : Nat) (nx : Bool) : State where
  mem := mem
  supply := supply
  allocated := 0
  frames := List.replicate 64 0
  kernel_pml4 := 0
  cr3 := cr3
  nx_available := nx

def effective (s : State) (perm : Perm) : Nat :=
  if s.nx_available then perm.bits else perm.bits &&& ((WORD - 1) ^^^ flags.NO_EXECUTE)

-- `PtPool::alloc`: the next frame, recorded and cleared.
def alloc (s : State) : Except Panic (Option (Nat × State)) :=
  match s.supply with
  | [] => .ok none
  | pa :: rest => do
      let allocated ← add s.allocated 1
      return some (pa,
        { s with
          mem := fill s.mem pa 0
          supply := rest
          allocated := allocated
          frames := if s.allocated < s.frames.length then s.frames.set s.allocated pa else s.frames })

-- The pointer through which a table is read: the identity map reaches every page below
-- 2 GiB. The assertion is a debug assertion, on in the default profile.
def table_at (pa : Nat) : Except Panic Nat :=
  if pa < BOOT_MAPPED_BYTES ∧ pa % PAGE_SIZE = 0 then .ok pa
  else .error (.explicit
    ("table_at(" ++ hex pa ++ "): not a boot-mapped, page-aligned PT frame"))

structure Indices where
  pml4 : Nat
  pdpt : Nat
  pd : Nat
  pt : Nat
  offset : Nat

def indices (va : VirtAddr) : Indices where
  pml4 := (va.as_u64 >>> 39) &&& 0x1FF
  pdpt := (va.as_u64 >>> 30) &&& 0x1FF
  pd := (va.as_u64 >>> 21) &&& 0x1FF
  pt := (va.as_u64 >>> 12) &&& 0x1FF
  offset := va.as_u64 &&& 0xFFF

def entry_addr (e : Nat) : Nat := e &&& 0x000FFFFFFFFFF000

def is_present (e : Nat) : Bool := e &&& flags.PRESENT != 0

def is_huge (e : Nat) : Bool := e &&& flags.HUGE_PAGE != 0

def State.set (s : State) (table index e : Nat) : State :=
  { s with mem := write s.mem table index e }

-- Any present entry is taken for a pointer to the next table.
def descend (s : State) (table index : Nat) : Except Panic (Option (Nat × State)) :=
  let entry := s.mem table index
  if is_present entry then .ok (some (entry_addr entry, s))
  else do
    match ← alloc s with
    | none => return none
    | some (new_pa, s) =>
        return some (new_pa, s.set table index (new_pa ||| (flags.PRESENT ||| flags.WRITABLE)))

-- `let Some(pa) = descend(table, index) else { panic!(message) }`.
def descend_or_panic (s : State) (table index : Nat) (message : String) :
    Except Panic (Nat × State) := do
  match ← descend s table index with
  | none => throw (.explicit message)
  | some r => return r

-- One iteration of `map_4k`.
def map_4k_page (s : State) (root : Nat) (f : Nat) (v : VirtAddr) (p : Nat) :
    Except Panic State := do
  let idx := indices v
  let pml4 ← table_at root
  let (pdpt_pa, s) ←
    descend_or_panic s pml4 idx.pml4 "map_4k: out of page-table frames at PDPT level"
  let pdpt ← table_at pdpt_pa
  let (pd_pa, s) ←
    descend_or_panic s pdpt idx.pdpt "map_4k: out of page-table frames at PD level"
  let pd ← table_at pd_pa
  let (pt_pa, s) ← descend_or_panic s pd idx.pd "map_4k: out of page-table frames at PT level"
  let pt ← table_at pt_pa
  let old := s.mem pt idx.pt
  if is_present old && entry_addr old != p then
    throw (.explicit ("map_4k: " ++ hex v.as_u64 ++ " already maps " ++ hex (entry_addr old) ++
      ", refusing to remap to " ++ hex p))
  else return s.set pt idx.pt (p ||| f)

def map_4k (s : State) (va : VirtAddr) (pa : PhysAddr) (size : Nat) (perm : Perm) :
    Except Panic State := do
  assert (va.as_u64 % PAGE_SIZE == 0) ("map_4k: unaligned va " ++ hex va.as_u64)
  assert (pa.as_u64 % PAGE_SIZE == 0) ("map_4k: unaligned pa " ++ hex pa.as_u64)
  assert (size % PAGE_SIZE == 0) ("map_4k: unaligned size " ++ hex size)
  let root := s.kernel_pml4
  assert (root != 0) "map_4k before vmm::init"
  let f := effective s perm
  let pages := size / PAGE_SIZE
  forRange 0 pages s fun i s => do
    let v ← VirtAddr.new (← add va.as_u64 (← mul i PAGE_SIZE))
    let p ← add pa.as_u64 (← mul i PAGE_SIZE)
    map_4k_page s root f v p

-- One iteration of `map_2m`: the entry is replaced whatever it was.
def map_2m_page (s : State) (root : Nat) (f : Nat) (v : VirtAddr) (p : Nat) :
    Except Panic State := do
  let idx := indices v
  let pml4 ← table_at root
  let (pdpt_pa, s) ←
    descend_or_panic s pml4 idx.pml4 "map_2m: out of page-table frames at PDPT level"
  let pdpt ← table_at pdpt_pa
  let (pd_pa, s) ←
    descend_or_panic s pdpt idx.pdpt "map_2m: out of page-table frames at PD level"
  let pd ← table_at pd_pa
  return s.set pd idx.pd (p ||| f)

def map_2m (s : State) (va : VirtAddr) (pa : PhysAddr) (size : Nat) (perm : Perm) :
    Except Panic State := do
  assert (va.as_u64 % LARGE_PAGE_SIZE == 0) ("map_2m: unaligned va " ++ hex va.as_u64)
  assert (pa.as_u64 % LARGE_PAGE_SIZE == 0) ("map_2m: unaligned pa " ++ hex pa.as_u64)
  assert (size % LARGE_PAGE_SIZE == 0) ("map_2m: unaligned size " ++ hex size)
  let root := s.kernel_pml4
  assert (root != 0) "map_2m before vmm::init"
  let f := effective s perm ||| flags.HUGE_PAGE
  let count := size / LARGE_PAGE_SIZE
  forRange 0 count s fun i s => do
    let v ← add va.as_u64 (← mul i LARGE_PAGE_SIZE)
    let p ← add pa.as_u64 (← mul i LARGE_PAGE_SIZE)
    let v ← VirtAddr.new v
    map_2m_page s root f v p

structure VmmInfo where
  kernel_pml4_phys : Nat
  boot_pml4_phys : Nat
  text_va : Nat
  text_content : Nat
  text_mapped : Nat
  rodata_content : Nat
  rodata_mapped : Nat
  data_content : Nat
  data_mapped : Nat
  bss_content : Nat
  bss_mapped : Nat
  heap_va : Nat
  heap_size : Nat
  pt_frames : Nat
  identity_bytes : Nat

def phys_of (va : Nat) : Except Panic PhysAddr := do
  match ← virt_to_phys (← VirtAddr.new va) with
  | some pa => return pa
  | none => throw (.explicit ("vmm: address " ++ hex va ++ " is not in the kernel half"))

def align_down (v : Nat) : Nat := v &&& ((WORD - 1) ^^^ (LARGE_PAGE_SIZE - 1))

def align_up (v : Nat) : Except Panic Nat := do
  return align_down ((← add v LARGE_PAGE_SIZE) - 1)

-- What the loop over the regions carries: the tables and the lengths it reports.
structure Mapped where
  s : State
  text_len : Nat
  rodata_len : Nat
  data_len : Nat
  bss_len : Nat

def Mapped.count (m : Mapped) (data_start start len : Nat) : Perm → Except Panic Mapped
  | .TextRoX => do return { m with text_len := ← add m.text_len len }
  | .RoData => do return { m with rodata_len := ← add m.rodata_len len }
  | .DataRwNx =>
      if start = data_start then do return { m with data_len := ← add m.data_len len }
      else do return { m with bss_len := ← add m.bss_len len }
  | .Device => .ok m
  | .BootIdentity => .ok m

-- One iteration of the loop over the regions.
def map_region (data_start : Nat) (m : Mapped) : Nat × Nat × Perm → Except Panic Mapped
  | (start, len, perm) =>
      if len = 0 then .ok m
      else do
        let s ← map_4k m.s (← VirtAddr.new start) (← phys_of start) len perm
        Mapped.count { m with s := s } data_start start len perm

def check_sections (sym : Boot.Symbols) : Except Panic Unit := do
  assert (align_down sym.kernel_text_start == sym.kernel_text_start)
    ("vmm: .text start " ++ hex sym.kernel_text_start ++ " is not 2 MiB aligned")
  assert (sym.kernel_text_end ≤ sym.kernel_rodata_start
      && sym.kernel_rodata_start ≤ sym.kernel_data_start
      && sym.kernel_data_start ≤ sym.kernel_bss_start)
    "vmm: kernel sections are not in ascending address order"
  assert (align_down sym.kernel_rodata_start != align_down sym.kernel_text_start
      && align_down sym.kernel_data_start != align_down sym.kernel_rodata_start
      && align_down sym.kernel_bss_start != align_down sym.kernel_data_start)
    ("vmm: two kernel sections share a 2 MiB region; the linker script must give each " ++
      "section its own region or one of them will get the wrong permissions (see orin.ld " ++
      "PROBLEM 2)")

-- (start_va, length, permission) of the four parts of the image.
def regions (sym : Boot.Symbols) : Except Panic (List (Nat × Nat × Perm)) := do
  let text ← sub (align_down sym.kernel_rodata_start) sym.kernel_text_start
  let rodata ← sub (align_down sym.kernel_data_start) sym.kernel_rodata_start
  let data ← sub (align_down sym.kernel_bss_start) sym.kernel_data_start
  let bss ← sub (← align_up sym.kernel_virt_end) sym.kernel_bss_start
  return [(sym.kernel_text_start, text, .TextRoX),
    (sym.kernel_rodata_start, rodata, .RoData),
    (sym.kernel_data_start, data, .DataRwNx),
    (sym.kernel_bss_start, bss, .DataRwNx)]

def VGA_PHYS : Nat := 0xB8000

-- Builds the root: a cleared page with the boot table's slot 0.
def new_root (s : State) : Except Panic State := do
  let boot_pml4_pa := s.cr3
  assert (boot_pml4_pa < BOOT_MAPPED_BYTES)
    ("boot page tables at " ++ hex boot_pml4_pa ++ " are outside the boot mapping")
  match ← alloc s with
  | none => throw (.explicit "vmm::init: no frame for the kernel PML4")
  | some (new_pml4, s) => do
      let boot ← table_at boot_pml4_pa
      let dst ← table_at new_pml4
      return { s.set dst 0 (s.mem boot 0) with kernel_pml4 := new_pml4 }

def map_image (s : State) (sym : Boot.Symbols) : Except Panic Mapped := do
  check_sections sym
  (← regions sym).foldlM (map_region sym.kernel_data_start) ⟨s, 0, 0, 0, 0⟩

def map_heap (s : State) (sym : Boot.Symbols) : Except Panic State := do
  let heap_len ← sub sym.heap_phys_end sym.heap_phys_start
  assert (sym.heap_phys_end ≤ BOOT_MAPPED_BYTES)
    ("heap backing store at " ++ hex sym.heap_phys_start ++ ".." ++ hex sym.heap_phys_end ++
      " is outside the M1 boot mapping")
  map_4k s (← VirtAddr.new HEAP_VIRT_START) (← PhysAddr.new sym.heap_phys_start) heap_len .DataRwNx

def map_vga (s : State) : Except Panic State := do
  let pa ← PhysAddr.new VGA_PHYS
  map_4k s (← phys_to_virt pa) pa PAGE_SIZE .Device

def init (s : State) (sym : Boot.Symbols) : Except Panic (VmmInfo × State) := do
  let boot_pml4_pa := s.cr3
  let s ← new_root s
  let m ← map_image s sym
  let s ← map_heap m.s sym
  let s ← map_vga s
  let s := { s with cr3 := s.kernel_pml4 }
  let info : VmmInfo :=
    { kernel_pml4_phys := s.kernel_pml4
      boot_pml4_phys := boot_pml4_pa
      text_va := sym.kernel_text_start
      text_content := ← sub sym.kernel_text_end sym.kernel_text_start
      text_mapped := m.text_len
      rodata_content := ← sub sym.kernel_rodata_end sym.kernel_rodata_start
      rodata_mapped := m.rodata_len
      data_content := ← sub sym.kernel_data_end sym.kernel_data_start
      data_mapped := m.data_len
      bss_content := ← sub sym.kernel_bss_end sym.kernel_bss_start
      bss_mapped := m.bss_len
      heap_va := HEAP_VIRT_START
      heap_size := ← sub sym.heap_phys_end sym.heap_phys_start
      pt_frames := s.allocated
      identity_bytes := BOOT_MAPPED_BYTES }
  return (info, s)

-- The inner loop of `harden_boot_map`, over one page directory.
def harden_pd (f pd : Nat) (s : State) (entries : Nat) : Except Panic (State × Nat) :=
  forRange 0 512 (s, entries) fun pd_i (s, entries) =>
    let e := s.mem pd pd_i
    if !is_present e then .ok (s, entries)
    else do
      let entries ← add entries 1
      return (s.set pd pd_i (entry_addr e ||| f ||| flags.HUGE_PAGE), entries)

def harden_slot (f pdpt pdpt_i : Nat) (s : State) (entries : Nat) : Except Panic (State × Nat) :=
  let pd_entry := s.mem pdpt pdpt_i
  if !is_present pd_entry then .ok (s, entries)
  else do
    assert (!is_huge pd_entry) "vmm: unexpected 1 GiB page in the boot PDPT"
    let pd ← table_at (entry_addr pd_entry)
    harden_pd f pd s entries

def harden_boot_map (s : State) : Except Panic (Nat × State) := do
  let f := effective s .BootIdentity
  let pml4 ← table_at s.cr3
  let pdpt_entry := s.mem pml4 0
  if !is_present pdpt_entry then return (0, s)
  else do
    let pdpt ← table_at (entry_addr pdpt_entry)
    let (s, entries) ← forRange 0 512 (s, 0) fun pdpt_i (s, entries) =>
      harden_slot f pdpt pdpt_i s entries
    return (entries, s)

-- Without NX every page is executable, and the check reports nothing.
def is_wx (s : State) (e : Nat) : Bool :=
  let w := e &&& flags.WRITABLE != 0
  let x := if s.nx_available then e &&& flags.NO_EXECUTE == 0 else false
  w && x

def count_wx_pt (s : State) (pt violations : Nat) : Except Panic Nat :=
  forRange 0 512 violations fun pt_i violations =>
    let e1 := s.mem pt pt_i
    if is_present e1 && is_wx s e1 then add violations 1 else .ok violations

def count_wx_pd (s : State) (pd violations : Nat) : Except Panic Nat :=
  forRange 0 512 violations fun pd_i violations =>
    let e2 := s.mem pd pd_i
    if !is_present e2 then .ok violations
    else if is_huge e2 then
      if is_wx s e2 then add violations 1 else .ok violations
    else do
      let pt ← table_at (entry_addr e2)
      count_wx_pt s pt violations

def count_wx_pdpt (s : State) (pdpt violations : Nat) : Except Panic Nat :=
  forRange 0 512 violations fun pdpt_i violations =>
    let e3 := s.mem pdpt pdpt_i
    if !is_present e3 then .ok violations
    else if is_huge e3 then
      if is_wx s e3 then add violations 1 else .ok violations
    else do
      let pd ← table_at (entry_addr e3)
      count_wx_pd s pd violations

def count_wx_violations (s : State) : Except Panic Nat :=
  if s.kernel_pml4 = 0 then .ok 0
  else do
    let pml4 ← table_at s.kernel_pml4
    forRange 0 512 0 fun pml4_i violations =>
      let e4 := s.mem pml4 pml4_i
      if !is_present e4 then .ok violations
      else do
        let pdpt ← table_at (entry_addr e4)
        count_wx_pdpt s pdpt violations

-- Entries of the PML4 are pointers whatever their size bit says.
def translate (s : State) (va : VirtAddr) : Except Panic (Option (Nat × Nat)) :=
  if s.kernel_pml4 = 0 then .ok none
  else do
    let idx := indices va
    let e4 := s.mem (← table_at s.kernel_pml4) idx.pml4
    if !is_present e4 then return none
    else do
      let e3 := s.mem (← table_at (entry_addr e4)) idx.pdpt
      if !is_present e3 then return none
      else if is_huge e3 then do
        let base := entry_addr e3 &&& ((WORD - 1) ^^^ (1024 * 1024 * 1024 - 1))
        let pa ← PhysAddr.new (← add base (va.as_u64 &&& (1024 * 1024 * 1024 - 1)))
        return some (pa.as_u64, e3)
      else do
        let e2 := s.mem (← table_at (entry_addr e3)) idx.pd
        if !is_present e2 then return none
        else if is_huge e2 then do
          let base := entry_addr e2 &&& ((WORD - 1) ^^^ (LARGE_PAGE_SIZE - 1))
          let pa ← PhysAddr.new (← add base (va.as_u64 &&& (LARGE_PAGE_SIZE - 1)))
          return some (pa.as_u64, e2)
        else do
          let e1 := s.mem (← table_at (entry_addr e2)) idx.pt
          if !is_present e1 then return none
          else do
            let pa ← PhysAddr.new (← add (entry_addr e1) idx.offset)
            return some (pa.as_u64, e1)

end Orin.Memory.Vmm
