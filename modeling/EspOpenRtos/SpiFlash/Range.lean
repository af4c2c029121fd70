/-
# The range checks of the flash driver

The checks compare a 32-bit sum with the size of the chip. They reject a range
that ends outside the chip as long as the sum does not wrap to a value inside it;
a range around the end of the 32-bit addresses passes, and commands are issued for
addresses the caller never named.
-/

import EspOpenRtos.SpiFlash.Driver

namespace EspOpenRtos.SpiFlash

open Math.NorFlash

variable {chip : Chip} {addr size : UInt32} {buf : List UInt8}

theorem writeBlocks_ne_nil : writeBlocks addr buf size ≠ [] := by
  rw [writeBlocks]
  split <;> exact List.cons_ne_nil _ _

/-- A write to a page that fits into it does something. -/
theorem spiWritePage_ne (hfits : addr.toNat % chip.pageSize.toNat + size.toNat ≤
      chip.pageSize.toNat) :
    (spiWritePage chip addr buf size).1 = true ∧
      (0 < size.toNat → (spiWritePage chip addr buf size).2 ≠ []) := by
  rw [spiWritePage_of_fits buf hfits]
  split
  case isTrue hempty =>
    have hzero : size.toNat < 1 := UInt32.lt_iff_toNat_lt.mp hempty
    exact ⟨rfl, fun hpos => absurd hpos (by omega)⟩
  case isFalse => exact ⟨rfl, fun _ => writeBlocks_ne_nil⟩

/-- `spiflash_write` rejects a range exactly when the 32-bit sum is outside the
chip. -/
theorem spiflashWrite_rejects_iff (hpage : 0 < chip.pageSize.toNat) :
    spiflashWrite chip addr (some buf) size = (false, []) ↔
      chip.chipSize.toNat < (addr.toNat + size.toNat) % 2 ^ 32 := by
  have hsum : chip.chipSize < addr + size ↔
      chip.chipSize.toNat < (addr.toNat + size.toNat) % 2 ^ 32 := by
    rw [UInt32.lt_iff_toNat_lt, UInt32.toNat_add]
  show spiWrite chip addr buf size = (false, []) ↔ _
  rw [← hsum]
  constructor
  · intro hrejects
    by_contra hcheck
    rw [spiWrite, if_neg hcheck] at hrejects
    have hmod : addr.toNat % chip.pageSize.toNat < chip.pageSize.toNat := Nat.mod_lt _ hpage
    have hportion := toNat_pageRest hpage addr
    dsimp only at hrejects
    split at hrejects
    case isTrue hless =>
      rw [UInt32.lt_iff_toNat_lt, hportion] at hless
      have hpageOk := @spiWritePage_ne chip addr size buf (by omega)
      rw [hrejects] at hpageOk
      exact Bool.false_ne_true hpageOk.1
    case isFalse =>
      have hpageOk := @spiWritePage_ne chip addr (chip.pageSize - addr % chip.pageSize) buf
        (by omega)
      rw [andThen, if_pos hpageOk.1] at hrejects
      have hnil := (List.append_eq_nil_iff.mp (Prod.mk.inj hrejects).2).1
      exact hpageOk.2 (by omega) hnil
  · intro hcheck
    rw [spiWrite, if_pos hcheck]

/-- `spiflash_read` of at least one byte rejects a range exactly when the 32-bit
sum is outside the chip. -/
theorem spiflashRead_rejects_iff {f memory : Image} {dst : ℕ} (hpos : 0 < size.toNat) :
    ((spiflashRead chip f addr memory (some dst) size).ok = false ∧
        (spiflashRead chip f addr memory (some dst) size).commands = []) ↔
      chip.chipSize.toNat < (addr.toNat + size.toNat) % 2 ^ 32 := by
  have hsum : addr + size > chip.chipSize ↔
      chip.chipSize.toNat < (addr.toNat + size.toNat) % 2 ^ 32 := by
    rw [gt_iff_lt, UInt32.lt_iff_toNat_lt, UInt32.toNat_add]
  have hsome : ¬ size < 1 := fun hlt => by
    have hzero : size.toNat < 1 := UInt32.lt_iff_toNat_lt.mp hlt
    omega
  show ((readData chip f addr memory dst size).ok = false ∧
    (readData chip f addr memory dst size).commands = []) ↔ _
  rw [readData, if_neg hsome, ← hsum]
  split
  case isTrue hout => exact ⟨fun _ => hout, fun _ => ⟨rfl, rfl⟩⟩
  case isFalse hin => exact ⟨fun h => absurd h.1 (by simp), fun h => absurd h hin⟩

/-- `spiflash_erase_sector` rejects an address exactly when the 32-bit sum is
outside the chip or the address is not aligned. -/
theorem spiflashEraseSector_rejects_iff :
    spiflashEraseSector chip addr = (false, none) ↔
      chip.chipSize.toNat < (addr.toNat + chip.sectorSize.toNat) % 2 ^ 32 ∨
        addr.toNat % 4096 ≠ 0 := by
  have hsum : addr + chip.sectorSize > chip.chipSize ↔
      chip.chipSize.toNat < (addr.toNat + chip.sectorSize.toNat) % 2 ^ 32 := by
    rw [gt_iff_lt, UInt32.lt_iff_toNat_lt, UInt32.toNat_add]
  have haligned : addr &&& 0xFFF ≠ 0 ↔ addr.toNat % 4096 ≠ 0 := by
    rw [ne_eq, ← UInt32.toNat_inj, UInt32.toNat_and]
    show ¬ addr.toNat &&& (2 ^ 12 - 1) = 0 ↔ _
    rw [Nat.and_two_pow_sub_one_eq_mod]
  rw [← hsum, ← haligned, spiflashEraseSector]
  split
  case isTrue hout => exact ⟨fun _ => .inl hout, fun _ => rfl⟩
  case isFalse hin =>
    split
    case isTrue hodd => exact ⟨fun _ => .inr hodd, fun _ => rfl⟩
    case isFalse heven =>
      exact ⟨fun h => absurd h (by simp), fun h => (h.elim hin heven).elim⟩

/-- A range that ends outside the chip is rejected without a command exactly when
the 32-bit sum of its address and size is outside the chip as well; for a sector,
also when its address is not aligned. -/
theorem out_of_range_rejected_iff (chip : Chip) (hpage : 0 < chip.pageSize.toNat)
    (addr size : UInt32) (buf : List UInt8) (f memory : Image) (dst : ℕ) :
    (chip.chipSize.toNat < addr.toNat + size.toNat →
      (spiflashWrite chip addr (some buf) size = (false, []) ↔
        chip.chipSize.toNat < (addr.toNat + size.toNat) % 2 ^ 32)) ∧
    (chip.chipSize.toNat < addr.toNat + size.toNat → 0 < size.toNat →
      (((spiflashRead chip f addr memory (some dst) size).ok = false ∧
          (spiflashRead chip f addr memory (some dst) size).commands = []) ↔
        chip.chipSize.toNat < (addr.toNat + size.toNat) % 2 ^ 32)) ∧
    (chip.chipSize.toNat < addr.toNat + chip.sectorSize.toNat →
      (spiflashEraseSector chip addr = (false, none) ↔
        chip.chipSize.toNat < (addr.toNat + chip.sectorSize.toNat) % 2 ^ 32 ∨
          addr.toNat % 4096 ≠ 0)) :=
  ⟨fun _ => spiflashWrite_rejects_iff hpage, fun _ hpos => spiflashRead_rejects_iff hpos,
    fun _ => spiflashEraseSector_rejects_iff⟩

/-- A range that ends just behind a chip of four megabytes. -/
theorem out_of_range_rejected_behind :
    spiflashWrite ⟨4194304, 4096, 256⟩ 4194300 (some [0, 0, 0, 0, 0]) 5 = (false, []) :=
  ((out_of_range_rejected_iff ⟨4194304, 4096, 256⟩ (by decide) 4194300 5 [0, 0, 0, 0, 0]
    (fun _ => 0) (fun _ => 0) 0).1 (by decide)).mpr (by decide)

/-- Two bytes at the last 32-bit address are written to the last byte of 24-bit
addresses and to address 0, and the last sector of the 32-bit addresses is erased
at the end of the 24-bit addresses. -/
theorem wrapped_range_accepted :
    spiflashWrite ⟨4194304, 4096, 256⟩ 0xFFFFFFFF (some [1, 2]) 2 =
        (true, [⟨0xFFFFFF, [1]⟩, ⟨0, [2]⟩]) ∧
      spiflashEraseSector ⟨4194304, 4096, 256⟩ 0xFFFFF000 = (true, some 0xFFF000) := by
  refine ⟨?_, by decide⟩
  have hfirst : writeBlocks 0xFFFFFFFF [1, 2] 1 = [⟨0xFFFFFF, [1]⟩] := by
    rw [writeBlocks, if_neg (by decide)]
    decide
  have hsecond : writeBlocks 0 [2] 1 = [⟨0, [2]⟩] := by
    rw [writeBlocks, if_neg (by decide)]
    decide
  show andThen (true, writeBlocks 0xFFFFFFFF [1, 2] 1) (true, writeBlocks 0 [2] 1) = _
  rw [hfirst, hsecond]
  rfl

end EspOpenRtos.SpiFlash
