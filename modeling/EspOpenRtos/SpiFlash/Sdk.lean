/-
# The flash writer of the SDK

`sdk_spi_flash_write` of `spi_flash.c` leaves the programming of a page to a
routine in ROM and does the splitting into pages itself, with a pointer to words.
Assuming that the ROM routine programs what lies in one page, it never gets
anything else, and the flash holds afterwards what `spiflash_write` would have
left there.
-/

import EspOpenRtos.SpiFlash.Split

namespace EspOpenRtos.SpiFlash

open Math.NorFlash Math.PageWrites

/-- `sdk_SpiFlashOpResult`, as far as a write returns it. -/
inductive OpResult where
  | ok
  | err
  deriving DecidableEq

/-- `SPI_page_program` in ROM: the flash it leaves and whether it returns 0. -/
abbrev PageProgram := Image → Piece → Image × Bool

/-- The flash, and what `SPI_page_program` was called with. -/
structure Calls where
  flash : Image
  pieces : List Piece

/-- A call of `SPI_page_program` with a pointer to bytes. -/
def callRom (rom : PageProgram) (s : Calls) (addr : UInt32) (src : List UInt8) (size : UInt32) :
    Bool × Calls :=
  let piece : Piece := ⟨addr.toNat, src.take size.toNat⟩
  ((rom s.flash piece).2, ⟨(rom s.flash piece).1, s.pieces ++ [piece]⟩)

/-- The byte at which `src_addr + pos / 4` points, as the source is a pointer to
words. -/
def wordOffset (pos : UInt32) : ℕ := 4 * (pos / 4).toNat

/-- The loop of `sdk_SPIWrite` over whole pages, with as many of them left: whether
it went through, and `pos` after it. -/
def sdkPages (rom : PageProgram) (chip : Chip) (desAddr : UInt32) (srcAddr : List UInt8) :
    ℕ → UInt32 → Calls → Bool × UInt32 × Calls
  | 0, pos, s => (true, pos, s)
  | pages + 1, pos, s =>
    let (programmed, s) :=
      callRom rom s (desAddr + pos) (srcAddr.drop (wordOffset pos)) chip.pageSize
    if programmed then sdkPages rom chip desAddr srcAddr pages (pos + chip.pageSize) s
    else (false, pos, s)

/-- `sdk_SPIWrite`. -/
def sdkSPIWrite (rom : PageProgram) (chip : Chip) (desAddr : UInt32) (srcAddr : List UInt8)
    (size : UInt32) (s : Calls) : OpResult × Calls :=
  if desAddr + size ≤ chip.chipSize then
    let firstPagePortion := chip.pageSize - desAddr % chip.pageSize
    if size < firstPagePortion then
      let (programmed, s) := callRom rom s desAddr srcAddr size
      (if programmed then .ok else .err, s)
    else
      let (programmed, s) := callRom rom s desAddr srcAddr firstPagePortion
      if programmed then
        let fullPages := (size - firstPagePortion) / chip.pageSize
        let (programmed, pos, s) :=
          sdkPages rom chip desAddr srcAddr fullPages.toNat firstPagePortion s
        if programmed then
          let bytesRemaining := if fullPages ≠ 0 then size - pos else size - firstPagePortion
          let (programmed, s) :=
            callRom rom s (desAddr + pos) (srcAddr.drop (wordOffset pos)) bytesRemaining
          (if programmed then .ok else .err, s)
        else (.err, s)
      else (.err, s)
  else (.err, s)

/-- The size a write is rounded up to. -/
def roundUp (size : UInt32) : UInt32 := if size &&& 3 ≠ 0 then (size &&& ~~~3) + 4 else size

/-- `sdk_spi_flash_write`. The null pointer is no source. -/
def sdkSpiFlashWrite (rom : PageProgram) (chip : Chip) (desAddr : UInt32)
    (srcAddr : Option (List UInt8)) (size : UInt32) (s : Calls) : OpResult × Calls :=
  match srcAddr with
  | none => (.err, s)
  | some srcAddr => sdkSPIWrite rom chip desAddr srcAddr (roundUp size) s

/-- The ROM routine programs what lies in one page. -/
def ProgramsPages (rom : PageProgram) (pageSize : ℕ) : Prop :=
  ∀ f piece, piece.InPage pageSize → rom f piece = (program f piece.addr piece.data, true)

/-! ## What the writer does -/

/-- Between two states the ROM routine was called with pieces in one page each that
cover the data from an address on, and programmed them. -/
def Programs (pageSize : ℕ) (s : Calls) (addr : ℕ) (data : List UInt8) (s' : Calls) : Prop :=
  ∃ more, s'.pieces = s.pieces ++ more ∧ s'.flash = programAll s.flash more ∧
    Covers addr more data ∧ ∀ piece ∈ more, piece.InPage pageSize

variable {rom : PageProgram} {chip : Chip} {addr size : UInt32} {src : List UInt8}
  {s s' s'' : Calls}

theorem programs_nil (pageSize : ℕ) (s : Calls) (addr : ℕ) : Programs pageSize s addr [] s :=
  ⟨[], (List.append_nil _).symm, rfl, covers_nil, fun _ h => absurd h List.not_mem_nil⟩

theorem Programs.trans {pageSize addr : ℕ} {data rest : List UInt8}
    (h : Programs pageSize s addr data s')
    (h' : Programs pageSize s' (addr + data.length) rest s'') :
    Programs pageSize s addr (data ++ rest) s'' := by
  obtain ⟨first, hpieces, hflash, hcovers, hpage⟩ := h
  obtain ⟨second, hpieces', hflash', hcovers', hpage'⟩ := h'
  refine ⟨first ++ second, ?_, ?_, hcovers.append hcovers', fun piece hmem => ?_⟩
  · rw [hpieces', hpieces, List.append_assoc]
  · rw [hflash', hflash, programAll, programAll, programAll, List.foldl_append]
  · exact (List.mem_append.mp hmem).elim (hpage piece) (hpage' piece)

/-- A call for bytes in one page. -/
theorem callRom_programs (programs : ProgramsPages rom chip.pageSize.toNat)
    (hfits : addr.toNat % chip.pageSize.toNat + size.toNat ≤ chip.pageSize.toNat)
    (hsrc : size.toNat ≤ src.length) (s : Calls) :
    ∃ s', callRom rom s addr src size = (true, s') ∧
      Programs chip.pageSize.toNat s addr.toNat (src.take size.toNat) s' := by
  have hpage : Piece.InPage chip.pageSize.toNat ⟨addr.toNat, src.take size.toNat⟩ := by
    rw [Piece.InPage, List.length_take_of_le hsrc]
    exact hfits
  have hrom := programs s.flash _ hpage
  refine ⟨⟨program s.flash addr.toNat (src.take size.toNat),
    s.pieces ++ [⟨addr.toNat, src.take size.toNat⟩]⟩, ?_, _, rfl, rfl, covers_singleton _ _, ?_⟩
  · rw [callRom, hrom]
  · intro piece hmem
    rwa [List.mem_singleton.mp hmem]

theorem wordOffset_eq {pos : UInt32} (words : pos.toNat % 4 = 0) : wordOffset pos = pos.toNat := by
  rw [wordOffset, UInt32.toNat_div]
  show 4 * (pos.toNat / 4) = pos.toNat
  omega

/-- The loop programs whole pages. -/
theorem sdkPages_programs (programs : ProgramsPages rom chip.pageSize.toNat)
    (hwords : chip.pageSize.toNat % 4 = 0) {pages : ℕ} {pos : UInt32} (hpos : pos.toNat % 4 = 0)
    (aligned : (addr.toNat + pos.toNat) % chip.pageSize.toNat = 0)
    (hend : addr.toNat + pos.toNat + pages * chip.pageSize.toNat ≤ 2 ^ 24)
    (hsrc : pos.toNat + pages * chip.pageSize.toNat ≤ src.length) (s : Calls) :
    ∃ pos' s', sdkPages rom chip addr src pages pos s = (true, pos', s') ∧
      pos'.toNat = pos.toNat + pages * chip.pageSize.toNat ∧
      Programs chip.pageSize.toNat s (addr.toNat + pos.toNat)
        ((src.drop pos.toNat).take (pages * chip.pageSize.toNat)) s' := by
  induction pages generalizing pos s with
  | zero =>
    refine ⟨pos, s, rfl, by rw [Nat.zero_mul, Nat.add_zero], ?_⟩
    rw [Nat.zero_mul, List.take_zero]
    exact programs_nil _ s _
  | succ pages ih =>
    rw [Nat.succ_mul] at hend hsrc ⊢
    have haddr : (addr + pos).toNat = addr.toNat + pos.toNat := toNat_add_of_le (by omega)
    have hnext : (pos + chip.pageSize).toNat = pos.toNat + chip.pageSize.toNat :=
      toNat_add_of_le (by omega)
    obtain ⟨s₁, hcall, hfirst⟩ := @callRom_programs rom chip (addr + pos) chip.pageSize
      (src.drop (wordOffset pos)) programs (by rw [haddr, aligned, Nat.zero_add])
      (by rw [wordOffset_eq hpos, List.length_drop]; omega) s
    obtain ⟨pos', s₂, hpages, hpos', hrest⟩ := @ih (pos + chip.pageSize) (by omega)
      (by rw [hnext, ← Nat.add_assoc, Nat.add_mod_right, aligned]) (by omega) (by omega) s₁
    refine ⟨pos', s₂, ?_, by omega, ?_⟩
    · rw [sdkPages, hcall]
      exact hpages
    · rw [haddr, wordOffset_eq hpos] at hfirst
      have hlength : ((src.drop pos.toNat).take chip.pageSize.toNat).length =
          chip.pageSize.toNat := List.length_take_of_le (by rw [List.length_drop]; omega)
      have hdata : (src.drop pos.toNat).take (pages * chip.pageSize.toNat + chip.pageSize.toNat) =
          (src.drop pos.toNat).take chip.pageSize.toNat ++
            (src.drop (pos + chip.pageSize).toNat).take (pages * chip.pageSize.toNat) := by
        rw [hnext, ← List.drop_drop, ← List.take_add, Nat.add_comm]
      rw [hdata]
      exact hfirst.trans (by rw [hlength, Nat.add_assoc, ← hnext]; exact hrest)

/-- A write of whole words inside the chip. -/
theorem sdkSPIWrite_programs (programs : ProgramsPages rom chip.pageSize.toNat)
    (hpage : 0 < chip.pageSize.toNat) (hwords : chip.pageSize.toNat % 4 = 0)
    (haddr : addr.toNat % 4 = 0) (hin : addr.toNat + size.toNat ≤ chip.chipSize.toNat)
    (hchip : chip.chipSize.toNat ≤ 2 ^ 24) (hsrc : size.toNat ≤ src.length) (s : Calls) :
    ∃ s', sdkSPIWrite rom chip addr src size s = (.ok, s') ∧
      Programs chip.pageSize.toNat s addr.toNat (src.take size.toNat) s' := by
  have hend : addr.toNat + size.toNat ≤ 2 ^ 24 := by omega
  have hcheck : addr + size ≤ chip.chipSize := by
    rw [UInt32.le_iff_toNat_le, toNat_add_of_le hend]
    exact hin
  have hmod : addr.toNat % chip.pageSize.toNat < chip.pageSize.toNat := Nat.mod_lt _ hpage
  have hfirst := toNat_pageRest hpage addr
  rw [sdkSPIWrite, if_pos hcheck]
  dsimp only
  split
  case isTrue hless =>
    rw [UInt32.lt_iff_toNat_lt, hfirst] at hless
    obtain ⟨s', hcall, hprograms⟩ := @callRom_programs rom chip addr size src programs (by omega)
      hsrc s
    exact ⟨s', by rw [hcall]; rfl, hprograms⟩
  case isFalse hmore =>
    have hmore' : (chip.pageSize - addr % chip.pageSize).toNat ≤ size.toNat :=
      UInt32.le_iff_toNat_le.mp (UInt32.not_lt.mp hmore)
    generalize chip.pageSize - addr % chip.pageSize = portion at hfirst hmore'
    have hpageEnd : (addr.toNat + portion.toNat) % chip.pageSize.toNat = 0 := by
      rw [hfirst, ← Nat.mod_add_mod, Nat.add_sub_cancel' hmod.le, Nat.mod_self]
    have hportion : portion.toNat % 4 = 0 := by
      have hdvd : addr.toNat % chip.pageSize.toNat % 4 = addr.toNat % 4 :=
        Nat.mod_mod_of_dvd _ (Nat.dvd_of_mod_eq_zero hwords)
      omega
    have hsub : (size - portion).toNat = size.toNat - portion.toNat :=
      UInt32.toNat_sub_of_le _ _ (UInt32.le_iff_toNat_le.mpr hmore')
    have hfull : ((size - portion) / chip.pageSize).toNat =
        (size.toNat - portion.toNat) / chip.pageSize.toNat := by
      rw [UInt32.toNat_div, hsub]
    have hwhole := Nat.div_mul_le_self (size.toNat - portion.toNat) chip.pageSize.toNat
    have hless := Nat.lt_div_mul_add (a := size.toNat - portion.toNat) hpage
    obtain ⟨s₁, hcall, hhead⟩ := @callRom_programs rom chip addr portion src programs (by omega)
      (by omega) s
    obtain ⟨pos, s₂, hpages, hpos, hmiddle⟩ := @sdkPages_programs rom chip addr src programs
      hwords ((size - portion) / chip.pageSize).toNat portion hportion hpageEnd
      (by rw [hfull]; omega) (by rw [hfull]; omega) s₁
    rw [hfull] at hpos hmiddle
    -- Without whole pages `bytes_remaining` is not computed again, but `pos` did not move.
    have hremaining : (if (size - portion) / chip.pageSize ≠ 0 then size - pos
        else size - portion) = size - pos := by
      split
      · rfl
      case isFalse hzero =>
        have hnone : (size.toNat - portion.toNat) / chip.pageSize.toNat = 0 := by
          rw [← hfull, not_not.mp hzero]
          rfl
        rw [hnone, Nat.zero_mul, Nat.add_zero] at hpos
        rw [UInt32.toNat_inj.mp hpos]
    have hleft : (size - pos).toNat = size.toNat - pos.toNat :=
      UInt32.toNat_sub_of_le _ _ (UInt32.le_iff_toNat_le.mpr (by omega))
    have hposWords : pos.toNat % 4 = 0 := by
      rw [hpos, Nat.add_mod, hportion, Nat.mul_mod, hwords, Nat.mul_zero]
    have hposAligned : (addr.toNat + pos.toNat) % chip.pageSize.toNat = 0 := by
      rw [hpos, ← Nat.add_assoc, Nat.add_mul_mod_self_right, hpageEnd]
    have hposAddr : (addr + pos).toNat = addr.toNat + pos.toNat := toNat_add_of_le (by omega)
    obtain ⟨s₃, hcall', htail⟩ := @callRom_programs rom chip (addr + pos) (size - pos)
      (src.drop (wordOffset pos)) programs (by rw [hposAddr, hposAligned, hleft]; omega)
      (by rw [wordOffset_eq hposWords, List.length_drop]; omega) s₂
    refine ⟨s₃, ?_, ?_⟩
    · simp only [hcall, hpages, hremaining, hcall', if_true]
    · rw [hposAddr, wordOffset_eq hposWords, hleft] at htail
      generalize (size.toNat - portion.toNat) / chip.pageSize.toNat * chip.pageSize.toNat = whole
        at hwhole hless hpos hmiddle
      have hheadLength : (src.take portion.toNat).length = portion.toNat :=
        List.length_take_of_le (by omega)
      have hwholeLength : ((src.drop portion.toNat).take whole).length = whole :=
        List.length_take_of_le (by rw [List.length_drop]; omega)
      have hrest : (src.drop portion.toNat).take (size.toNat - portion.toNat) =
          (src.drop portion.toNat).take whole ++
            (src.drop pos.toNat).take (size.toNat - pos.toNat) := by
        rw [hpos, ← List.drop_drop, ← List.take_add]
        congr 1
        omega
      have hdata : src.take size.toNat =
          src.take portion.toNat ++ (src.drop portion.toNat).take (size.toNat - portion.toNat) := by
        rw [← List.take_add, Nat.add_sub_cancel' hmore']
      have hend' : Programs chip.pageSize.toNat s₁ (addr.toNat + portion.toNat)
          ((src.drop portion.toNat).take (size.toNat - portion.toNat)) s₃ := by
        rw [hrest]
        exact hmiddle.trans (by rw [hwholeLength, Nat.add_assoc, ← hpos]; exact htail)
      rw [hdata]
      exact hhead.trans (by rw [hheadLength]; exact hend')

/-- Clearing the two lowest bits. -/
theorem toNat_and_not_three (size : UInt32) :
    (size &&& ~~~(3 : UInt32)).toNat = size.toNat - size.toNat % 4 := by
  have hmask : ∀ (i : ℕ) (hi : i < 32),
      (~~~(3 : UInt32)).toBitVec[i] = decide (2 ≤ i) := by decide
  have hshift : size &&& ~~~(3 : UInt32) = (size >>> (2 : UInt32)) <<< (2 : UInt32) := by
    apply UInt32.eq_of_toBitVec_eq
    ext i hi
    rw [UInt32.toBitVec_and, BitVec.getElem_and, hmask i hi]
    rcases i with _ | _ | i
    · simp
    · simp
    · have hle : ¬ i + 1 + 1 < 2 := by omega
      have hindex : 2 + i = i + 1 + 1 := by omega
      simp [hle, hi, hindex, ← BitVec.getLsbD_eq_getElem]
  rw [hshift, UInt32.toNat_shiftLeft, UInt32.toNat_shiftRight, Nat.shiftLeft_eq,
    Nat.shiftRight_eq_div_pow]
  have hlt := size.toNat_lt
  show size.toNat / 2 ^ 2 * 2 ^ 2 % 2 ^ 32 = _
  omega

/-- The rounded size is the next multiple of four. -/
theorem toNat_roundUp (hsize : size.toNat ≤ 2 ^ 24) :
    (roundUp size).toNat = (size.toNat + 3) / 4 * 4 := by
  have hand : (size &&& 3).toNat = size.toNat % 4 := by
    rw [UInt32.toNat_and]
    exact Nat.and_two_pow_sub_one_eq_mod size.toNat 2
  have hzero : size &&& 3 ≠ 0 ↔ size.toNat % 4 ≠ 0 := by
    rw [ne_eq, ← UInt32.toNat_inj, hand]
    rfl
  rw [roundUp]
  split
  case isTrue h =>
    have hne := hzero.mp h
    rw [UInt32.toNat_add, toNat_and_not_three]
    show (size.toNat - size.toNat % 4 + 4) % 2 ^ 32 = _
    omega
  case isFalse h =>
    have heq := not_not.mp (mt hzero.mpr h)
    omega

/-- The writer of the SDK and the driver leave the same flash: for an aligned address,
a size that is not zero and fits into the chip when it is rounded up to words, and a
source of that size, `sdk_spi_flash_write` succeeds, passes the ROM routine nothing
that crosses a page, and leaves what `spiflash_write` of the rounded size leaves. -/
theorem writers_agree (rom : PageProgram) (chip : Chip) (addr size : UInt32) (src : List UInt8)
    (f : Image) (programs : ProgramsPages rom chip.pageSize.toNat)
    (hpage : 0 < chip.pageSize.toNat) (hwords : chip.pageSize.toNat % 4 = 0)
    (hchip : chip.chipSize.toNat ≤ 2 ^ 24) (haddr : addr.toNat % 4 = 0)
    (hin : addr.toNat + (size.toNat + 3) / 4 * 4 ≤ chip.chipSize.toNat)
    (hsrc : src.length = (size.toNat + 3) / 4 * 4) :
    let result := sdkSpiFlashWrite rom chip addr (some src) size ⟨f, []⟩
    result.1 = .ok ∧ (∀ piece ∈ result.2.pieces, piece.InPage chip.pageSize.toNat) ∧
      result.2.flash = programAll f (spiflashWrite chip addr (some src) (roundUp size)).2 := by
  intro result
  have hround : (roundUp size).toNat = (size.toNat + 3) / 4 * 4 := toNat_roundUp (by omega)
  obtain ⟨s', hsdk, more, hpieces, hflash, hcovers, hinPage⟩ := @sdkSPIWrite_programs rom chip addr
    (roundUp size) src programs hpage hwords haddr (by omega) hchip (by omega) ⟨f, []⟩
  have hwrites := @spiWrite_writes chip addr (roundUp size) src hpage (by omega) hchip (by omega)
  have hresult : result = (.ok, s') := hsdk
  rw [hresult]
  refine ⟨rfl, fun piece hmem => hinPage piece ?_, ?_⟩
  · rwa [hpieces, List.nil_append] at hmem
  · show s'.flash = programAll f (spiWrite chip addr src (roundUp size)).2
    rw [hflash, programAll_of_covers f hcovers, programAll_of_covers f hwrites.covers]

/-- Five bytes, which are rounded to eight, over the end of a page. -/
theorem writers_agree_five :
    let src : List UInt8 := [0, 1, 2, 3, 4, 5, 6, 7]
    let result := sdkSpiFlashWrite (fun f piece => (program f piece.addr piece.data, true))
      ⟨4194304, 4096, 256⟩ 252 (some src) 5 ⟨fun _ => 0xFF, []⟩
    result.1 = .ok ∧ result.2.pieces = [⟨252, src.take 4⟩, ⟨256, src.drop 4⟩] ∧
      (∀ piece ∈ result.2.pieces, piece.InPage 256) ∧ result.2.flash =
        programAll (fun _ => 0xFF) (spiflashWrite ⟨4194304, 4096, 256⟩ 252 (some src) 8).2 := by
  intro src result
  obtain ⟨hok, hinPage, hflash⟩ := writers_agree _ ⟨4194304, 4096, 256⟩ 252 5 src (fun _ => 0xFF)
    (fun _ _ _ => rfl) (by decide) (by decide) (by decide) (by decide) (by decide) (by decide)
  exact ⟨hok, by decide +kernel, hinPage, hflash⟩

end EspOpenRtos.SpiFlash
