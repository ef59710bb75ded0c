import Orin.Multiboot.Info

namespace Orin.Multiboot

open Rust

-- RSDP v1 is 20 bytes long, v2 is 36.
def rsdp_len (info : BootInfo) : Nat := if info.acpi_version = 1 then 20 else 36

-- The RSDP copy, where one was found, lies in the first `total` bytes.
def RsdpInside (total : Nat) (info : BootInfo) : Prop :=
  ∀ rsdp, info.acpi_rsdp = some rsdp → rsdp.toNat + rsdp_len info ≤ total

-- Tags of every other type leave the two ACPI fields alone.
theorem RsdpInside.of_eq {total : Nat} {info info' : BootInfo} (h : RsdpInside total info)
    (hrsdp : info'.acpi_rsdp = info.acpi_rsdp) (hversion : info'.acpi_version = info.acpi_version) :
    RsdpInside total info' := by
  intro rsdp hr
  rw [rsdp_len, hversion]
  exact h rsdp (hrsdp ▸ hr)

structure Walked (total : Nat) (info : BootInfo) : Prop where
  total_size : info.total_size.toNat = total
  rsdp : RsdpInside total info

theorem Walked.of_eq {total : Nat} {info info' : BootInfo} (h : Walked total info)
    (htotal : info'.total_size = info.total_size) (hrsdp : info'.acpi_rsdp = info.acpi_rsdp)
    (hversion : info'.acpi_version = info.acpi_version) : Walked total info' :=
  ⟨by rw [htotal, h.total_size], h.rsdp.of_eq hrsdp hversion⟩

theorem panicking_eq_ok {α : Type} {x : Except Panic α} {a : α} :
    panicking x = .ok a ↔ x = .ok a := by
  cases x with
  | error p => simp [panicking]
  | ok b => simp [panicking]

theorem parse_mmap_walked {total : Nat} {body : List UInt8} {info info' : BootInfo}
    (hw : Walked total info) (h : parse_mmap body info = .ok info') : Walked total info' := by
  unfold parse_mmap at h
  obtain ⟨size, -, h⟩ := bind_eq_ok.mp h
  obtain ⟨entry_size, -, h⟩ := bind_eq_ok.mp h
  obtain ⟨version, -, h⟩ := bind_eq_ok.mp h
  obtain ⟨_, -, h⟩ := bind_eq_ok.mp h
  split at h
  · cases h
  · obtain ⟨mmap, -, h⟩ := bind_eq_ok.mp h
    cases h
    exact hw.of_eq rfl rfl rfl

theorem slice_length {b body : List UInt8} {first last : Nat} (h : slice b first last = .ok body) :
    first ≤ last ∧ body.length = last - first := by
  unfold slice at h
  split at h
  · rename_i hle
    cases h
    simp only [List.length_take, List.length_drop]
    omega
  · cases h

-- One tag. An ACPI tag is taken only when its body has room for the whole RSDP.
theorem apply_tag_walked {total off stop : Nat} {ty : UInt16} {body : List UInt8}
    {info info' : BootInfo} {saw saw' : Bool} (htotal : total < 2 ^ 32) (hstop : stop ≤ total)
    (hbody : off + tag.HEADER_LEN + body.length = stop) (hw : Walked total info)
    (h : apply_tag ty off body info saw = .ok (info', saw')) : Walked total info' := by
  have hrsdp : ∀ {version : UInt8} {len : Nat}, len ≤ body.length →
      len = (if version = 1 then 20 else 36) →
      (do
        let rsdp ← panicking (add off tag.HEADER_LEN)
        return ({ info with acpi_rsdp := some (UInt64.ofNat rsdp), acpi_version := version }, saw) :
          Except Failure (BootInfo × Bool)) = .ok (info', saw') → Walked total info' := by
    intro version len hlen hversion h
    obtain ⟨rsdp, hr, h⟩ := bind_eq_ok.mp h
    obtain ⟨-, rfl⟩ := add_eq_ok.mp (panicking_eq_ok.mp hr)
    cases h
    refine ⟨hw.total_size, fun rsdp hr => ?_⟩
    obtain rfl := Option.some.inj hr
    rw [UInt64.toNat_ofNat_of_lt' (by simp only [UInt64.size]; omega)]
    simp only [rsdp_len, ← hversion]
    omega
  unfold apply_tag at h
  split at h
  · cases h
    exact hw.of_eq rfl rfl rfl
  split at h
  · cases h
    exact hw.of_eq rfl rfl rfl
  split at h
  · obtain ⟨mid, hmid, h⟩ := bind_eq_ok.mp h
    cases h
    exact parse_mmap_walked hw hmid
  split at h
  · split at h
    · obtain ⟨fb, -, h⟩ := bind_eq_ok.mp h
      cases h
      exact hw.of_eq rfl rfl rfl
    · cases h
      exact hw
  split at h
  · rename_i hacpi
    split at h
    · exact hrsdp hacpi.2 rfl h
    · cases h
      exact hw
  split at h
  · rename_i hacpi
    split at h
    · exact hrsdp hacpi.2 rfl h
    · cases h
      exact hw
  split at h
  · obtain ⟨base, -, h⟩ := bind_eq_ok.mp h
    cases h
    exact hw.of_eq rfl rfl rfl
  · cases h
    exact hw

theorem walk_walked (bytes : List UInt8) {total : Nat} (htotal : total < 2 ^ 32) (off : Nat)
    (info : BootInfo) (saw : Bool) {info' : BootInfo} {saw' : Bool} (hw : Walked total info)
    (h : walk bytes total off info saw = .ok (info', saw')) : Walked total info' := by
  rw [walk] at h
  split at h
  · cases h
  · cases h
    exact hw
  · rename_i hdr hnext
    have hstop := next_tag_stop hnext
    obtain ⟨body, hbody, h⟩ := bind_eq_ok.mp h
    obtain ⟨info1, hcount, h⟩ := bind_eq_ok.mp h
    obtain ⟨⟨info2, saw2⟩, htag, h⟩ := bind_eq_ok.mp h
    obtain ⟨_, -, h⟩ := bind_eq_ok.mp h
    have hlen := slice_length (panicking_eq_ok.mp hbody)
    have hw1 : Walked total info1 := by
      have hc := panicking_eq_ok.mp hcount
      unfold count_tag at hc
      split at hc
      · cases hc
        exact hw.of_eq rfl rfl rfl
      · cases hc
    have hw2 := apply_tag_walked htotal hstop.2 (by omega) hw1 htag
    exact walk_walked bytes htotal _ info2 saw2 hw2 h
termination_by total - off
decreasing_by
  simp only [align_up, tag.ALIGN, tag.HEADER_LEN] at *
  omega

theorem parse_walked {bytes : List UInt8} {info : BootInfo} (h : parse bytes = .ok info) :
    Walked info.total_size.toNat info := by
  unfold parse at h
  obtain ⟨word, -, h⟩ := bind_eq_ok.mp h
  obtain ⟨total, -, h⟩ := bind_eq_ok.mp h
  split at h
  · cases h
  split at h
  · cases h
  obtain ⟨⟨info', saw⟩, hwalk, h⟩ := bind_eq_ok.mp h
  have hempty : Walked total.toNat (empty_info total.toNat) :=
    ⟨by simp [empty_info], fun rsdp hr => by simp [empty_info] at hr⟩
  have hw := walk_walked bytes total.toNat_lt _ _ _ hempty hwalk
  dsimp only at h
  split at h
  · cases h
  · cases h
    exact hw.total_size ▸ hw

-- What the boot code may rely on once the structure's address is known.
structure Located (info : BootInfo) : Prop where
  phys_pos : 0 < info.phys_addr.toNat
  phys_lt : info.phys_addr.toNat < Arch.BOOT_MAPPED_BYTES
  rsdp : ∀ rsdp, info.acpi_rsdp = some rsdp → info.phys_addr.toNat ≤ rsdp.toNat ∧
    rsdp.toNat + rsdp_len info ≤ info.phys_addr.toNat + info.total_size.toNat

theorem locate_located {bytes : List UInt8} {info info' : BootInfo} {phys : Nat}
    (hparse : parse bytes = .ok info) (hpos : 0 < phys) (hlt : phys < Arch.BOOT_MAPPED_BYTES)
    (h : locate phys info = .ok info') : Located info' := by
  have hw := parse_walked hparse
  have htotal := info.total_size.toNat_lt
  rw [Arch.BOOT_MAPPED_BYTES_eq] at hlt
  have hphys : (UInt64.ofNat phys).toNat = phys :=
    UInt64.toNat_ofNat_of_lt' (by simp only [UInt64.size]; omega)
  unfold locate at h
  dsimp only at h
  split at h
  · rename_i hnone
    cases h
    refine ⟨by simpa only [hphys], by simpa only [hphys, Arch.BOOT_MAPPED_BYTES_eq], ?_⟩
    intro rsdp hr
    rw [hnone] at hr
    cases hr
  · rename_i off hsome
    have hin := hw.rsdp off hsome
    have hoff : off.toNat ≤ info.total_size.toNat := by omega
    obtain ⟨rsdp, hr, h⟩ := bind_eq_ok.mp h
    obtain ⟨-, rfl⟩ := add_eq_ok.mp hr
    cases h
    refine ⟨by simpa only [hphys], by simpa only [hphys, Arch.BOOT_MAPPED_BYTES_eq], ?_⟩
    intro rsdp hr
    obtain rfl := Option.some.inj hr
    have hsum : (UInt64.ofNat (phys + off.toNat)).toNat = phys + off.toNat :=
      UInt64.toNat_ofNat_of_lt' (by simp only [UInt64.size]; omega)
    simp only [hphys, hsum, rsdp_len] at hin ⊢
    omega

theorem read_from_located {memory : Nat → UInt8} {phys : Nat} {info : BootInfo}
    (h : read_from memory phys = .ok info) : Located info := by
  unfold read_from at h
  split at h
  · cases h
  rename_i hrange
  dsimp only at h
  split at h
  · cases h
  obtain ⟨info0, hparse, h⟩ := bind_eq_ok.mp h
  exact locate_located hparse (by omega) (by omega) (panicking_eq_ok.mp h)

end Orin.Multiboot
