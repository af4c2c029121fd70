/-
# Formatting an area

An area is two regions of equal size. Their headers say how many sectors a
region has, which of the two it is, and whether it is the active one; the size is
not stored but computed from the distance of the two regions, and cut to twelve
bits. Everything here is about a base address and a number of sectors, for as
many sectors as these bits can hold.
-/

import EspOpenRtos.Sysparam.Api
import EspOpenRtos.Sysparam.WriteSpec

namespace EspOpenRtos.Sysparam

open Math.NorFlash

/-! ## Flags of a header -/

section Flags

variable {base n : ℕ} {second active : Bool}

/-- A header's flags, put together from what they stand for. -/
def headerFlags (n : ℕ) (second active : Bool) : UInt16 :=
  UInt16.ofNat n ||| (if second then regionFlagSecond else 0) |||
    if active then regionFlagActive else 0

theorem sectors_and_mask (hle : n ≤ 0xfff) :
    UInt16.ofNat (n * sectorSize / sectorSize) &&& regionMaskSize = UInt16.ofNat n := by
  rw [Nat.mul_div_cancel _ (by decide)]
  exact ofNat_and_mask (Nat.lt_succ_of_le hle)

theorem regionFlags_first (hpos : 0 < n) (hle : n ≤ 0xfff) :
    regionFlags base (base + n * sectorSize) active = headerFlags n false active := by
  have hlt : base < base + n * sectorSize := by
    simp only [sectorSize]
    omega
  simp only [regionFlags, if_pos hlt, Nat.add_sub_cancel_left, sectors_and_mask hle, headerFlags]
  cases active <;> simp

theorem regionFlags_other (hle : n ≤ 0xfff) :
    regionFlags (base + n * sectorSize) base active = headerFlags n true active := by
  have hlt : ¬base + n * sectorSize < base := by omega
  simp only [regionFlags, if_neg hlt, Nat.add_sub_cancel_left, sectors_and_mask hle, headerFlags]
  cases active <;> simp

theorem headerFlags_and {flag : UInt16} (hle : n ≤ 0xfff) (h : 0xfff &&& flag = 0) :
    headerFlags n second active &&& flag =
      (if second then regionFlagSecond else 0) &&& flag |||
        (if active then regionFlagActive else 0) &&& flag := by
  rw [headerFlags, or_and_distrib, or_and_distrib, ofNat_and_flag (Nat.lt_succ_of_le hle) h,
    UInt16.zero_or]

theorem headerFlags_size (hle : n ≤ 0xfff) :
    (headerFlags n second active &&& regionMaskSize).toNat = n := by
  rw [headerFlags, or_and_distrib, or_and_distrib,
    show UInt16.ofNat n &&& regionMaskSize = UInt16.ofNat n from ofNat_and_mask (Nat.lt_succ_of_le hle),
    show (if second then regionFlagSecond else 0) &&& regionMaskSize = 0 by cases second <;> decide,
    show (if active then regionFlagActive else 0) &&& regionMaskSize = 0 by cases active <;> decide,
    UInt16.or_zero, UInt16.or_zero]
  exact UInt16.toNat_ofNat_of_lt' (by simp [UInt16.size]; omega)

theorem headerFlags_second (hle : n ≤ 0xfff) :
    headerFlags n second active &&& regionFlagSecond = if second then regionFlagSecond else 0 := by
  rw [headerFlags_and hle (by decide)]
  cases second <;> cases active <;> decide

theorem headerFlags_active (hle : n ≤ 0xfff) :
    headerFlags n second active &&& regionFlagActive = if active then regionFlagActive else 0 := by
  rw [headerFlags_and hle (by decide)]
  cases second <;> cases active <;> decide

end Flags

/-! ## The flash of a new area -/

section Create

variable {s : Sys} {base n : ℕ}

/-- The end of an area with `n` sectors for each region. -/
def areaTop (base n : ℕ) : ℕ := base + 2 * (n * sectorSize)

/-- The flash after an area has been created. -/
def formatted (f : Image) (base n : ℕ) : Image :=
  patch (patch (erase f base (2 * (n * sectorSize))) base
    (headerBytes base (base + n * sectorSize) true)) (base + n * sectorSize)
    (headerBytes (base + n * sectorSize) base false)

theorem formatted_of_outside {f : Image} {x : ℕ} (hpos : 0 < n) (h : x < base ∨ areaTop base n ≤ x) :
    formatted f base n x = f x := by
  simp only [areaTop, sectorSize] at h
  rw [formatted, sectorSize, patch_of_outside (by rw [length_headerBytes, regionHeaderSize]; omega),
    patch_of_outside (by rw [length_headerBytes, regionHeaderSize]; omega), erase_outside (by omega)]

/-- Behind its header, the first region is erased. -/
theorem formatted_of_inside {f : Image} {x : ℕ} (h1 : base + regionHeaderSize ≤ x)
    (h2 : x < base + n * sectorSize) : formatted f base n x = 0xFF := by
  rw [formatted, patch_of_outside (by rw [length_headerBytes]; omega),
    patch_of_outside (by rw [length_headerBytes]; omega), erase_inside (by omega) (by omega)]

theorem read_formatted_first {f : Image} (hpos : 0 < n) :
    read (formatted f base n) base regionHeaderSize = headerBytes base (base + n * sectorSize) true := by
  rw [formatted, read_patch_of_disjoint (Or.inl (by simp only [regionHeaderSize, sectorSize]; omega))]
  exact read_patch_self

/-- Formatting both regions and writing their headers. -/
theorem sysparamCreateArea_of_scan (force : Bool) (haligned : base % sectorSize = 0) (hpos : 0 < n)
    (hcover : s.dev.CoversRange base (areaTop base n)) (hnone : s.dev.fault = none)
    (hscan : force = true ∨ scanErased s.dev base (base + n * sectorSize * 2) = .ok) :
    ∃ s', sysparamCreateArea s base (2 * n) force = (.ok, s') ∧
      s'.dev.bytes = formatted s.dev.bytes base n ∧ Quiet s.dev s'.dev := by
  have hargs : ¬(2 * n < 1 ∨ 2 * n % 2 = 1) := by omega
  have hhalf : 2 * n / 2 = n := by omega
  have hsize : sectorSize ≤ n * sectorSize := Nat.le_mul_of_pos_left _ hpos
  have haligned' : (base + n * sectorSize) % sectorSize = 0 := by
    rw [Nat.add_mul_mod_self_right, haligned]
  have hregion : 4096 ≤ n * sectorSize := hsize
  -- both regions are formatted
  obtain ⟨d₁, hrun₁, hbytes₁, hquiet₁, -⟩ := formatRegion_spec n haligned
    (hcover.mono le_rfl (by rw [areaTop]; omega))
  have hcover₁ := hcover.of_accepts hquiet₁.accepts
  obtain ⟨d₂, hrun₂, hbytes₂, hquiet₂, -⟩ := formatRegion_spec n haligned'
    (hcover₁.mono (Nat.le_add_right _ _) (by rw [areaTop]; omega))
  have hcover₂ := hcover₁.of_accepts hquiet₂.accepts
  have herased : d₂.bytes = erase s.dev.bytes base (2 * (n * sectorSize)) := by
    rw [hbytes₂, hbytes₁, erase_erase, Nat.two_mul]
  -- then they get their headers
  obtain ⟨status₃, d₃, hrun₃, -, hresult₃⟩ := writeRegionHeader_spec (base + n * sectorSize) true
    (hcover₂.mono le_rfl (show base + regionHeaderSize ≤ areaTop base n by
      rw [areaTop, regionHeaderSize]
      omega))
    (programmable_of_erased fun i hi => by
      rw [length_headerBytes, regionHeaderSize] at hi
      rw [herased]
      exact erase_inside (by omega) (by omega))
  rcases hresult₃ with ⟨rfl, hbytes₃, hquiet₃⟩ | ⟨-, hfailed, -⟩
  · obtain ⟨status₄, d₄, hrun₄, -, hresult₄⟩ := writeRegionHeader_spec base false
      ((hcover₂.of_accepts hquiet₃.accepts).mono (Nat.le_add_right _ _)
        (show base + n * sectorSize + regionHeaderSize ≤ areaTop base n by
          rw [areaTop, regionHeaderSize]
          omega))
      (programmable_of_erased fun i hi => by
        rw [length_headerBytes, regionHeaderSize] at hi
        rw [hbytes₃, patch_of_outside (by rw [length_headerBytes, regionHeaderSize]; omega), herased]
        exact erase_inside (by omega) (by omega))
    rcases hresult₄ with ⟨rfl, hbytes₄, hquiet₄⟩ | ⟨-, hfailed, -⟩
    · have hbytes : d₄.bytes = formatted s.dev.bytes base n := by
        rw [hbytes₄, hbytes₃, herased]
        rfl
      have hok : ¬(if force = true then Status.ok
          else scanErased s.dev base (base + n * sectorSize * 2)) ≠ .ok := by
        rcases hscan with rfl | hscan
        · simp
        · simp [hscan]
      simp only [sysparamCreateArea, if_neg hargs, hhalf, if_neg hok, hrun₁, hrun₂, hrun₃, hrun₄]
      exact ⟨_, rfl, hbytes, ((hquiet₁.trans hquiet₂).trans hquiet₃).trans hquiet₄⟩
    · exact absurd (hquiet₃.fault (hquiet₂.fault (hquiet₁.fault hnone))) hfailed.before
  · exact absurd (hquiet₂.fault (hquiet₁.fault hnone)) hfailed.before

/-- An area is created only behind a scan that succeeds. -/
theorem scan_of_sysparamCreateArea {force : Bool} (hpos : 0 < n)
    (hok : (sysparamCreateArea s base (2 * n) force).1 = .ok) :
    force = true ∨ scanErased s.dev base (base + n * sectorSize * 2) = .ok := by
  have hargs : ¬(2 * n < 1 ∨ 2 * n % 2 = 1) := by omega
  have hhalf : 2 * n / 2 = n := by omega
  cases force with
  | true => exact .inl rfl
  | false =>
    refine .inr (by_contra fun hscan => ?_)
    simp only [sysparamCreateArea, if_neg hargs, hhalf, Bool.false_eq_true, if_false,
      if_pos hscan] at hok
    exact hscan hok

end Create

end EspOpenRtos.Sysparam
