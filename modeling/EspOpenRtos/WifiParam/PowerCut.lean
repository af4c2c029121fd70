/-
# A power cut while parameters are saved

A save issues four flash calls. The selector of the directory never changes, so
the block in use is the one that is erased first: a cut right behind this call
leaves nothing to load. A cut behind the third call leaves an erased directory,
whose selector stands for the second slot whatever slot was in use. At the other
two places the next start loads the old or the new block.
-/

import EspOpenRtos.WifiParam.SaveAndBoot

namespace EspOpenRtos.WifiParam

open Math Math.NorFlash Math.SectorWrites

/-! ## The layout of the last sectors -/

/-- The first byte of a slot. -/
def blockAddr (chipSize : ℕ) (slot : Fin 2) : ℕ := slotSector chipSize slot * sectorSize

/-- A flash that reaches far enough for the code and the last three sectors. -/
structure ChipSize (size : ℕ) : Prop where
  whole : size % sectorSize = 0
  large : 64 * sectorSize ≤ size

theorem chipSize_flashSize (header : UInt8) : ChipSize (flashSize header) := by
  unfold flashSize
  split <;> exact ⟨by decide, by decide⟩

section Layout

variable {size : ℕ} (h : ChipSize size)

include h

theorem ChipSize.dirAddr : size - 4096 = dirAddr size := by
  have := h.whole
  have := h.large
  simp only [WifiParam.dirAddr, sectorSize] at *
  omega

theorem ChipSize.dirAddr_eq (slot : Fin 2) :
    WifiParam.dirAddr size = blockAddr size slot + (2 - slot) * sectorSize := by
  have := h.whole
  have := h.large
  have := slot.isLt
  simp only [WifiParam.dirAddr, blockAddr, slotSector, sectorSize] at *
  omega

theorem ChipSize.header_lt (slot : Fin 2) : 3 < blockAddr size slot := by
  have := h.large
  simp only [blockAddr, slotSector, sectorSize] at *
  omega

end Layout

/-- A block ends before the next sector starts. -/
theorem paramsSize_le : paramsSize ≤ sectorSize := by decide

theorem paramDirSize_le : paramDirSize ≤ sectorSize := by decide

theorem blockAddr_disjoint (size : ℕ) {slot other : Fin 2} (hne : other ≠ slot) :
    blockAddr size other + sectorSize ≤ blockAddr size slot ∨
      blockAddr size slot + sectorSize ≤ blockAddr size other := by
  have hslots : (other : ℕ) < slot ∨ (slot : ℕ) < other := by omega
  simp only [blockAddr, slotSector, sectorSize]
  omega

/-! ## What a save does -/

theorem wifiSaveProtect_eq {sector : ℕ} {data : List UInt8} (hfits : data.length ≤ sectorSize)
    (rounds : ℕ) (s : SpiFlash) : wifiSaveProtect sector data (rounds + 1) s = some
      ⟨patch (erase s.bytes (sector * sectorSize) sectorSize) (sector * sectorSize) data,
        s.calls ++ [.erase sector, .write ⟨sector * sectorSize, data⟩]⟩ := by
  have hstored : program (erase s.bytes (sector * sectorSize) sectorSize)
      (sector * sectorSize) data = patch (erase s.bytes (sector * sectorSize) sectorSize)
        (sector * sectorSize) data :=
    program_eq_patch (programmable_of_erased fun i hi =>
      erase_inside (Nat.le_add_right _ _) (by omega))
  simp only [wifiSaveProtect, SpiFlash.call, FlashOp.apply, hstored, read_patch_self, if_true,
    List.append_assoc, List.cons_append, List.nil_append]

section Save

variable (getChecksum : List UInt8 → UInt32) (size : ℕ) (f : Image) (params : Params)

/-- The directory as it is read. -/
def readDir : ParamDir := .ofBytes (read f (dirAddr size) paramDirSize)

/-- The slot that the directory selects, at a save as at a start. -/
def currentSlot : Fin 2 := slotOf (f (dirAddr size))

theorem getD_readDir (addr : ℕ) : (read f addr paramDirSize).getD 0 0 = f addr := by
  rw [getD_read (by decide), Nat.add_zero]

theorem slotOf_readDir : slotOf (readDir size f).currentSector = currentSlot size f :=
  congrArg slotOf (getD_readDir f (dirAddr size))

/-- The flash after each of the four calls of a save. -/
def blockErased : Image := erase f (blockAddr size (currentSlot size f)) sectorSize

def blockStored : Image :=
  patch (blockErased size f) (blockAddr size (currentSlot size f)) params.1

def dirErased : Image := erase (blockStored size f params) (dirAddr size) sectorSize

def dirStored : Image :=
  patch (dirErased size f params) (dirAddr size) (updateDir getChecksum (readDir size f) params).bytes

/-- The calls of a save. -/
def saveCalls : List FlashOp :=
  [.erase (slotSector size (currentSlot size f)),
    .write ⟨blockAddr size (currentSlot size f), params.1⟩,
    .erase (size / sectorSize - 1),
    .write ⟨dirAddr size, (updateDir getChecksum (readDir size f) params).bytes⟩]

theorem sdkWifiParamSaveProtect_eq (rounds : ℕ) :
    sdkWifiParamSaveProtect getChecksum size params (rounds + 1) ⟨f, []⟩ =
      some ⟨dirStored getChecksum size f params, saveCalls getChecksum size f params⟩ := by
  have hblock : params.1.length ≤ sectorSize := params.2.trans_le paramsSize_le
  have hdir (d : ParamDir) : d.bytes.length ≤ sectorSize := d.length_bytes.trans_le paramDirSize_le
  have hread : ParamDir.ofBytes (read f (dirAddr size) paramDirSize) = readDir size f := rfl
  unfold sdkWifiParamSaveProtect
  dsimp only
  rw [hread, slotOf_readDir, wifiSaveProtect_eq hblock]
  dsimp only
  rw [wifiSaveProtect_eq (hdir _)]
  rfl

/-- The flash that a cut after `k` calls leaves. -/
def imageAfterCut : ℕ → Image
  | 0 => f
  | 1 => blockErased size f
  | 2 => blockStored size f params
  | 3 => dirErased size f params
  | _ => dirStored getChecksum size f params

theorem replay_take_saveCalls (k : ℕ) :
    replay sectorSize f ((saveCalls getChecksum size f params).take k) =
      imageAfterCut getChecksum size f params k := by
  have hblock : params.1.length ≤ sectorSize := params.2.trans_le paramsSize_le
  have hstored : program (blockErased size f) (blockAddr size (currentSlot size f)) params.1 =
      blockStored size f params :=
    program_eq_patch (programmable_of_erased fun i hi =>
      erase_inside (Nat.le_add_right _ _) (by omega))
  have hdir : program (dirErased size f params) (dirAddr size)
      (updateDir getChecksum (readDir size f) params).bytes = dirStored getChecksum size f params :=
    program_eq_patch (programmable_of_erased fun i hi =>
      erase_inside (Nat.le_add_right _ _) (by
        rw [ParamDir.length_bytes] at hi
        have := paramDirSize_le
        omega))
  match k with
  | 0 => rfl
  | 1 => rfl
  | 2 => exact hstored
  | 3 => exact congrArg (fun g => erase g (dirAddr size) sectorSize) hstored
  | k + 4 =>
    have hall : (saveCalls getChecksum size f params).take (k + 4) =
        saveCalls getChecksum size f params := List.take_of_length_le (by simp [saveCalls])
    rw [hall]
    refine Eq.trans ?_ hdir
    exact congrArg (fun g => program (erase g (dirAddr size) sectorSize) (dirAddr size) _) hstored

end Save

/-! ## What a start loads -/

section Words

variable (d : ParamDir)

theorem word_cksumMagic : word d.bytes 1 = d.cksumMagic := LittleEndian.ofNat_decode_encode _

theorem word_cksumLen : ∀ i : Fin 2, word d.bytes (3 + i) = d.cksumLen i
  | 0 | 1 => LittleEndian.ofNat_decode_encode _

theorem word_cksumValue : ∀ i : Fin 2, word d.bytes (5 + i) = d.cksumValue i
  | 0 | 1 => LittleEndian.ofNat_decode_encode _

end Words

section Start

variable {getChecksum : List UInt8 → UInt32} {size : ℕ} {f : Image} {params : Params}

/-- A start takes the size of the flash, the selector and the block from the
flash. -/
theorem sdkUserStart_eq (hsize : size = flashSize (f 3)) :
    sdkUserStart getChecksum f =
      (read f (blockAddr size (currentSlot size f)) paramsSize,
        checkParams getChecksum (read f (dirAddr size) paramDirSize) (currentSlot size f)
          (read f (blockAddr size (currentSlot size f)) paramsSize)) := by
  have haddr := (chipSize_flashSize (f 3)).dirAddr
  unfold sdkUserStart
  dsimp only
  rw [haddr, getD_readDir, ← hsize, blockAddr, slotSector, currentSlot]

theorem sdkUserStart_block (hsize : size = flashSize (f 3)) :
    (sdkUserStart getChecksum f).1 =
      read f (blockAddr size (currentSlot size f)) paramsSize := by
  rw [sdkUserStart_eq hsize]

/-- Storing a block changes its sector only. -/
theorem blockErased_outside {a : ℕ} (ha : a < blockAddr size (currentSlot size f) ∨
    blockAddr size (currentSlot size f) + sectorSize ≤ a) : blockErased size f a = f a :=
  erase_outside ha

theorem blockStored_outside {a : ℕ} (ha : a < blockAddr size (currentSlot size f) ∨
    blockAddr size (currentSlot size f) + sectorSize ≤ a) : blockStored size f params a = f a := by
  have hlen := params.2
  have hle := paramsSize_le
  rw [blockStored, patch_of_outside (by omega)]
  exact erase_outside ha

/-- Storing the directory changes its sector only. -/
theorem dirErased_of_lt {a : ℕ} (ha : a < dirAddr size) :
    dirErased size f params a = blockStored size f params a := erase_outside (.inl ha)

theorem dirStored_of_lt {a : ℕ} (ha : a < dirAddr size) :
    dirStored getChecksum size f params a = blockStored size f params a :=
  (patch_of_lt ha).trans (erase_outside (.inl ha))

theorem read_blockStored :
    read (blockStored size f params) (blockAddr size (currentSlot size f)) paramsSize =
      params.1 := by
  have hread : read (blockStored size f params) (blockAddr size (currentSlot size f))
      params.1.length = params.1 := read_patch_self
  rwa [params.2] at hread

theorem read_blockStored_other {slot : Fin 2} (hne : slot ≠ currentSlot size f) :
    read (blockStored size f params) (blockAddr size slot) paramsSize =
      read f (blockAddr size slot) paramsSize := by
  have hdisjoint := blockAddr_disjoint size hne
  have hle := paramsSize_le
  exact read_congr fun a _ _ => blockStored_outside (by omega)

/-- The selector of an erased directory stands for the second slot. -/
theorem currentSlot_dirErased : currentSlot size (dirErased size f params) = 1 := by
  have herased : dirErased size f params (dirAddr size) = 0xFF :=
    erase_inside le_rfl (Nat.lt_add_of_pos_right (by decide))
  rw [currentSlot, herased]
  rfl

theorem read_dir_dirStored :
    read (dirStored getChecksum size f params) (dirAddr size) paramDirSize =
      (updateDir getChecksum (readDir size f) params).bytes := read_patch_self

/-- A save keeps the selector. -/
theorem currentSlot_dirStored :
    currentSlot size (dirStored getChecksum size f params) = currentSlot size f := by
  have hselector : dirStored getChecksum size f params (dirAddr size) =
      .ofNat (slotOf (readDir size f).currentSector) := by
    rw [← getD_readDir (dirStored getChecksum size f params), read_dir_dirStored]
    rfl
  rw [currentSlot, hselector, slotOf_readDir]
  generalize currentSlot size f = slot
  revert slot
  decide

variable (h : ChipSize size)

include h

/-- The directory lies behind both blocks. -/
theorem ChipSize.block_le_dir (slot : Fin 2) :
    blockAddr size slot + sectorSize ≤ WifiParam.dirAddr size := by
  have haddr := h.dirAddr_eq slot
  have hslot := slot.isLt
  simp only [sectorSize] at *
  omega

theorem currentSlot_blockErased : currentSlot size (blockErased size f) = currentSlot size f :=
  congrArg slotOf (blockErased_outside (.inr (h.block_le_dir _)))

theorem currentSlot_blockStored :
    currentSlot size (blockStored size f params) = currentSlot size f :=
  congrArg slotOf (blockStored_outside (.inr (h.block_le_dir _)))

theorem read_block_congr {g g' : Image} (hsame : ∀ a < dirAddr size, g a = g' a) (slot : Fin 2) :
    read g (blockAddr size slot) paramsSize = read g' (blockAddr size slot) paramsSize := by
  have hdir := h.block_le_dir slot
  have hle := paramsSize_le
  exact read_congr fun a _ _ => hsame a (by omega)

end Start

/-- A save leaves the boot header alone. -/
theorem dirStored_header (getChecksum : List UInt8 → UInt32) {size : ℕ} {f : Image}
    (params : Params) (h : ChipSize size) : dirStored getChecksum size f params 3 = f 3 := by
  have hbelow : 3 < dirAddr size :=
    (h.header_lt 0).trans_le ((Nat.le_add_right _ _).trans (h.block_le_dir 0))
  exact (dirStored_of_lt hbelow).trans (blockStored_outside (.inl (h.header_lt _)))

/-- What a start loads after a cut, with the old block in the selected slot. -/
def blockAfterCut (size : ℕ) (f : Image) (params : Params) : ℕ → List UInt8
  | 0 => read f (blockAddr size (currentSlot size f)) paramsSize
  | 1 => List.replicate paramsSize 0xFF
  | 3 =>
    if currentSlot size f = Fin.last 1 then params.1
    else read f (blockAddr size (Fin.last 1)) paramsSize
  | _ => params.1

section Cut

variable (getChecksum : List UInt8 → UInt32) {size : ℕ} {f : Image} (params : Params)

theorem sdkUserStart_cut (hsize : size = flashSize (f 3)) (k : ℕ) :
    (sdkUserStart getChecksum
        (replay sectorSize f ((saveCalls getChecksum size f params).take k))).1 =
      blockAfterCut size f params k := by
  have h : ChipSize size := hsize ▸ chipSize_flashSize (f 3)
  have hheader := h.header_lt (currentSlot size f)
  have hbelow : 3 < dirAddr size := by
    have := h.block_le_dir (currentSlot size f)
    omega
  have hstored : blockStored size f params 3 = f 3 := blockStored_outside (.inl hheader)
  rw [replay_take_saveCalls]
  match k with
  | 0 => exact sdkUserStart_block hsize
  | 1 =>
    have hsame := blockErased_outside (.inl hheader)
    refine (sdkUserStart_block (hsize.trans (congrArg flashSize hsame.symm))).trans ?_
    rw [currentSlot_blockErased h]
    exact read_erase_self paramsSize_le
  | 2 =>
    refine (sdkUserStart_block (hsize.trans (congrArg flashSize hstored.symm))).trans ?_
    rw [currentSlot_blockStored h]
    exact read_blockStored
  | 3 =>
    have hsame := (dirErased_of_lt hbelow).trans hstored
    refine (sdkUserStart_block (hsize.trans (congrArg flashSize hsame.symm))).trans ?_
    rw [currentSlot_dirErased, read_block_congr h (fun _ => dirErased_of_lt), blockAfterCut]
    split
    case isTrue hslot =>
        rw [show (1 : Fin 2) = currentSlot size f from hslot.symm]
        exact read_blockStored
    case isFalse hslot => exact read_blockStored_other (Ne.symm hslot)
  | k + 4 =>
    have hsame := dirStored_header getChecksum params (f := f) h
    refine (sdkUserStart_block (hsize.trans (congrArg flashSize hsame.symm))).trans ?_
    rw [currentSlot_dirStored, read_block_congr h fun _ => dirStored_of_lt]
    exact read_blockStored

/-- A complete save is loaded with a checksum that matches. -/
theorem sdkUserStart_saved (hsize : size = flashSize (f 3)) :
    sdkUserStart getChecksum (dirStored getChecksum size f params) = (params.1, .ok) := by
  have h : ChipSize size := hsize ▸ chipSize_flashSize (f 3)
  have hsame := dirStored_header getChecksum params (f := f) h
  rw [sdkUserStart_eq (hsize.trans (congrArg flashSize hsame.symm)), currentSlot_dirStored,
    read_block_congr h (fun _ => dirStored_of_lt), read_blockStored, read_dir_dirStored]
  refine congrArg (Prod.mk params.1) ?_
  have hlen : (updateDir getChecksum (readDir size f) params).cksumLen (currentSlot size f) =
      .ofNat paramDirSize := by
    rw [← slotOf_readDir]
    exact Function.update_self ..
  have hvalue : (updateDir getChecksum (readDir size f) params).cksumValue (currentSlot size f) =
      getChecksum (params.1.take paramDirSize) := by
    rw [← slotOf_readDir]
    exact Function.update_self ..
  have hmagic : (updateDir getChecksum (readDir size f) params).cksumMagic = cksumMagic := rfl
  rw [checkParams, word_cksumMagic, word_cksumLen, word_cksumValue, hlen, hvalue, hmagic,
    if_neg (by decide), if_pos ⟨rfl, rfl⟩]

end Cut

/-- A cut at this place does no harm. Behind the first call one of the two blocks has
to be what an erased sector reads as; behind the third the second slot has to be the
one in use, or to hold one of the two blocks by accident. -/
def HarmlessCut (size : ℕ) (f : Image) (pOld pNew : Params) (k : ℕ) : Prop :=
  (k = 1 → List.replicate paramsSize 0xFF = pOld.1 ∨ List.replicate paramsSize 0xFF = pNew.1) ∧
    (k = 3 → currentSlot size f = Fin.last 1 ∨
      read f (blockAddr size (Fin.last 1)) paramsSize = pOld.1 ∨
      read f (blockAddr size (Fin.last 1)) paramsSize = pNew.1)

theorem blockAfterCut_iff {size : ℕ} {f : Image} {pOld pNew : Params}
    (hold : read f (blockAddr size (currentSlot size f)) paramsSize = pOld.1) (k : ℕ) :
    (blockAfterCut size f pNew k = pOld.1 ∨ blockAfterCut size f pNew k = pNew.1) ↔
      HarmlessCut size f pOld pNew k := by
  match k with
  | 0 => exact iff_of_true (.inl hold) ⟨nofun, nofun⟩
  | 1 => exact ⟨fun h => ⟨fun _ => h, nofun⟩, fun h => h.1 rfl⟩
  | 2 | k + 4 => exact iff_of_true (.inr rfl) ⟨by omega, by omega⟩
  | 3 =>
    by_cases hslot : currentSlot size f = Fin.last 1
    · refine iff_of_true (.inr ?_) ⟨by omega, fun _ => .inl hslot⟩
      exact if_pos hslot
    · rw [blockAfterCut, if_neg hslot]
      exact ⟨fun h => ⟨by omega, fun _ => .inr h⟩, fun h => (h.2 rfl).resolve_left hslot⟩

/-- A second save over a completed one, cut after any number of its flash calls: the
next start loads one of the two blocks exactly when the cut is harmless. A second
save that completes is loaded with a matching checksum. -/
theorem cut_save_loads_iff (getChecksum : List UInt8 → UInt32) (f : Image) (pOld pNew : Params)
    (rounds : ℕ) :
    ∃ old new,
      sdkWifiParamSaveProtect getChecksum (flashSize (f 3)) pOld (rounds + 1) ⟨f, []⟩ = some old ∧
      sdkWifiParamSaveProtect getChecksum (flashSize (f 3)) pNew (rounds + 1) ⟨old.bytes, []⟩ =
        some new ∧
      (∀ k, ((sdkUserStart getChecksum (replay sectorSize old.bytes (new.calls.take k))).1 = pOld.1 ∨
          (sdkUserStart getChecksum (replay sectorSize old.bytes (new.calls.take k))).1 = pNew.1) ↔
        HarmlessCut (flashSize (f 3)) old.bytes pOld pNew k) ∧
      new.bytes = replay sectorSize old.bytes new.calls ∧
      sdkUserStart getChecksum new.bytes = (pNew.1, .ok) := by
  obtain ⟨size, hsize⟩ : ∃ size, size = flashSize (f 3) := ⟨_, rfl⟩
  have h : ChipSize size := hsize ▸ chipSize_flashSize (f 3)
  rw [← hsize]
  have hheader : size = flashSize (dirStored getChecksum size f pOld 3) := by
    rw [dirStored_header getChecksum pOld h, hsize]
  have hold : read (dirStored getChecksum size f pOld)
      (blockAddr size (currentSlot size (dirStored getChecksum size f pOld))) paramsSize =
        pOld.1 := by
    rw [currentSlot_dirStored, read_block_congr h (fun _ => dirStored_of_lt), read_blockStored]
  refine ⟨_, _, sdkWifiParamSaveProtect_eq .., sdkWifiParamSaveProtect_eq .., fun k => ?_, ?_,
    sdkUserStart_saved getChecksum pNew hheader⟩
  · rw [sdkUserStart_cut getChecksum pNew hheader]
    exact blockAfterCut_iff hold k
  · exact (replay_take_saveCalls getChecksum size _ pNew 4).symm

/-- A block of equal bytes. -/
def uniformParams (x : UInt8) : Params := ⟨List.replicate paramsSize x, List.length_replicate⟩

/-- Saving a block of ones over a block of zeros on an empty flash: if the power fails
behind the first call, the next start loads neither. -/
theorem cut_after_erase_loads_neither :
    ∃ old new,
      sdkWifiParamSaveProtect (fun _ => 0) 524288 (uniformParams 0) 1 ⟨fun _ => 0xFF, []⟩ =
        some old ∧
      sdkWifiParamSaveProtect (fun _ => 0) 524288 (uniformParams 1) 1 ⟨old.bytes, []⟩ = some new ∧
      (sdkUserStart (fun _ => 0) (replay sectorSize old.bytes (new.calls.take 1))).1 ≠ (uniformParams 0).1 ∧
      (sdkUserStart (fun _ => 0) (replay sectorSize old.bytes (new.calls.take 1))).1 ≠ (uniformParams 1).1 := by
  have h : ChipSize 524288 := ⟨by decide, by decide⟩
  have hheader : 524288 = flashSize (dirStored (fun _ => 0) 524288 (fun _ => 0xFF)
      (uniformParams 0) 3) := by
    rw [dirStored_header _ _ h]
    decide
  have hne (x : UInt8) (hx : (0xFF : UInt8) ≠ x) :
      List.replicate paramsSize 0xFF ≠ (uniformParams x).1 := fun heq =>
    hx ((List.replicate_inj.mp heq).2.resolve_left (by decide))
  refine ⟨_, _, sdkWifiParamSaveProtect_eq .., sdkWifiParamSaveProtect_eq .., ?_⟩
  rw [sdkUserStart_cut _ _ hheader]
  exact ⟨hne 0 (by decide), hne 1 (by decide)⟩

end EspOpenRtos.WifiParam
