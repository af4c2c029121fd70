/-
# The store on a real chip

The store talks to a device whose calls take effect at once. On a chip of at most
16 MB they are the calls of the flash driver: a call is accepted by the one exactly
if it is by the other, and what the commands of the driver leave in the flash, or
read from it, is what the device has. This is so for every range whose end is a
32-bit address; beyond that the checks of the driver wrap around.
-/

import EspOpenRtos.SpiFlash.Range
import EspOpenRtos.SpiFlash.Split
import EspOpenRtos.Sysparam.Device

namespace EspOpenRtos.Sysparam

open Math.NorFlash Math.PageWrites

/-- The device is a chip behind the driver, and no write is going to fail. -/
structure OnChip (d : Device) (chip : SpiFlash.Chip) : Prop where
  accepts : ∀ addr n, d.accepts addr n = true ↔ addr + n ≤ chip.chipSize.toNat
  fault : d.fault = none
  page : 0 < chip.pageSize.toNat
  sector : chip.sectorSize.toNat = sectorSize
  small : chip.chipSize.toNat ≤ 2 ^ 24

example (f : Image) : OnChip ⟨fun addr n => decide (addr + n ≤ 0x400000), f, [], none, none⟩
    ⟨0x400000, 4096, 256⟩ := ⟨fun _ _ => decide_eq_true_iff, rfl, by decide, rfl, by decide⟩

section OnChip

variable {d : Device} {chip : SpiFlash.Chip} {addr size : UInt32}

/-- A write is answered alike and leaves the same flash. -/
theorem OnChip.write_eq (h : OnChip d chip) {data : List UInt8} (hdata : data.length = size.toNat)
    (hend : addr.toNat + size.toNat < 2 ^ 32) :
    (spiflashWrite d addr.toNat data).1 = (SpiFlash.spiflashWrite chip addr (some data) size).1 ∧
      (spiflashWrite d addr.toNat data).2.bytes =
        programAll d.bytes (SpiFlash.spiflashWrite chip addr (some data) size).2 := by
  rw [spiflashWrite, hdata]
  split
  case isTrue hin =>
    have hwrites : SpiFlash.Writes chip.pageSize.toNat addr.toNat (data.take size.toNat)
        (SpiFlash.spiflashWrite chip addr (some data) size) :=
      SpiFlash.spiWrite_writes h.page ((h.accepts _ _).mp hin) h.small hdata.ge
    rw [h.fault, hwrites.ok, programAll_of_covers _ hwrites.covers, ← hdata, List.take_length]
    exact ⟨rfl, rfl⟩
  case isFalse hout =>
    have hbehind : chip.chipSize.toNat < (addr.toNat + size.toNat) % 2 ^ 32 := by
      rw [h.accepts] at hout
      omega
    rw [(SpiFlash.spiflashWrite_rejects_iff h.page).mpr hbehind]
    exact ⟨rfl, rfl⟩

/-- A read is answered alike and delivers the same bytes. -/
theorem OnChip.read_eq (h : OnChip d chip) (hend : addr.toNat + size.toNat < 2 ^ 32)
    (memory : Image) (dst : ℕ) :
    (SpiFlash.spiflashRead chip d.bytes addr memory (some dst) size).ok =
        (spiflashRead d addr.toNat size.toNat).isSome ∧
      ∀ data ∈ spiflashRead d addr.toNat size.toNat,
        (SpiFlash.spiflashRead chip d.bytes addr memory (some dst) size).buf =
          patch memory dst data := by
  by_cases hzero : size.toNat = 0
  · have hempty : size < 1 := UInt32.lt_iff_toNat_lt.mpr (by rw [hzero]; decide)
    have hdriver : SpiFlash.spiflashRead chip d.bytes addr memory (some dst) size =
        ⟨true, [], memory⟩ := if_pos hempty
    rw [hdriver, spiflashRead, if_pos (.inl hzero), hzero, read_zero]
    refine ⟨rfl, fun data hdata => ?_⟩
    obtain rfl := Option.some.inj hdata
    rw [patch_nil]
  by_cases hin : d.accepts addr.toNat size.toNat = true
  · obtain ⟨hok, hbuf⟩ := @SpiFlash.spiflashRead_eq chip addr size d.bytes memory dst
      ((h.accepts _ _).mp hin) h.small
    rw [spiflashRead, if_pos (.inr hin), hok]
    refine ⟨rfl, fun data hdata => ?_⟩
    obtain rfl := Option.some.inj hdata
    exact hbuf
  · have hbehind : chip.chipSize.toNat < (addr.toNat + size.toNat) % 2 ^ 32 := by
      rw [h.accepts] at hin
      omega
    rw [spiflashRead, if_neg (not_or.mpr ⟨hzero, hin⟩),
      ((SpiFlash.spiflashRead_rejects_iff (Nat.pos_of_ne_zero hzero)).mpr hbehind).1]
    exact ⟨rfl, nofun⟩

/-- The same sector is erased, or the call is refused by both. -/
theorem OnChip.eraseSector_eq (h : OnChip d chip) (hend : addr.toNat + sectorSize < 2 ^ 32) :
    (spiflashEraseSector d addr.toNat).1 = (SpiFlash.spiflashEraseSector chip addr).1 ∧
      (spiflashEraseSector d addr.toNat).2.bytes =
        match (SpiFlash.spiflashEraseSector chip addr).2 with
        | some target => erase d.bytes target.toNat sectorSize
        | none => d.bytes := by
  have hrejects := @SpiFlash.spiflashEraseSector_rejects_iff chip addr
  rw [h.sector, Nat.mod_eq_of_lt hend] at hrejects
  rw [spiflashEraseSector]
  split
  case isTrue hin =>
    have hinside := (h.accepts _ _).mp hin.1
    have hsmall := h.small
    have htarget : (addr &&& 0x00FFFFFF).toNat = addr.toNat := by
      rw [UInt32.toNat_and]
      refine (Nat.and_two_pow_sub_one_eq_mod addr.toNat 24).trans (Nat.mod_eq_of_lt ?_)
      rw [sectorSize] at hinside
      omega
    have haccepts : SpiFlash.spiflashEraseSector chip addr ≠ (false, none) := fun hrejected =>
      (hrejects.mp hrejected).elim (by omega) fun hodd => hodd hin.2
    rw [SpiFlash.spiflashEraseSector] at haccepts ⊢
    split at haccepts
    · exact absurd rfl haccepts
    · split at haccepts
      · exact absurd rfl haccepts
      · rw [if_neg ‹_›, if_neg ‹_›]
        dsimp only
        rw [htarget]
        exact ⟨rfl, rfl⟩
  case isFalse hout =>
    rw [h.accepts] at hout
    rw [hrejects.mpr (by rw [sectorSize] at *; omega)]
    exact ⟨rfl, rfl⟩

end OnChip

end EspOpenRtos.Sysparam
