/-
# Saving and loading the Wi-Fi parameters

The last three sectors of the flash hold two copies of the parameter block and a
directory that says which copy is in use, with a length and a checksum for each.
`sdk_wifi_param_save_protect` writes the block and then the directory, each by
erasing a sector, writing it and reading it back. At the next start
`sdk_user_start` reads the directory and loads the copy it selects; a checksum that
does not match is reported and otherwise ignored.

Flash calls succeed here, and reads are exact. Every erase and write call is
recorded, so that the flash at any point between two calls can be recovered.
-/

import EspOpenRtos.Math.LittleEndian
import EspOpenRtos.Math.SectorWrites

namespace EspOpenRtos.WifiParam

open Math Math.NorFlash Math.SectorWrites

/-! ## Flash calls -/

/-- `sdk_flashchip.sector_size`. -/
def sectorSize : ℕ := 4096

/-- The flash together with the calls issued so far. -/
structure SpiFlash where
  bytes : Image
  calls : List FlashOp

def SpiFlash.call (s : SpiFlash) (c : FlashOp) : SpiFlash :=
  ⟨c.apply sectorSize s.bytes, s.calls ++ [c]⟩

/-! ## The directory -/

/-- Word `i` of a buffer. -/
def word (buf : List UInt8) (i : ℕ) : UInt32 :=
  .ofNat (LittleEndian.decode ((buf.drop (4 * i)).take 4))

/-- `param_dir_st`, with the three unused bytes behind the selector. -/
structure ParamDir where
  currentSector : UInt8
  padding : UInt8 × UInt8 × UInt8
  cksumMagic : UInt32
  saveCount : UInt32
  cksumLen : Fin 2 → UInt32
  cksumValue : Fin 2 → UInt32

/-- `sizeof(struct param_dir_st)`, and `BOOT_INFO_SIZE`. -/
def paramDirSize : ℕ := 28

def ParamDir.ofBytes (buf : List UInt8) : ParamDir where
  currentSector := buf.getD 0 0
  padding := (buf.getD 1 0, buf.getD 2 0, buf.getD 3 0)
  cksumMagic := word buf 1
  saveCount := word buf 2
  cksumLen i := word buf (3 + i)
  cksumValue i := word buf (5 + i)

def ParamDir.bytes (d : ParamDir) : List UInt8 :=
  [d.currentSector, d.padding.1, d.padding.2.1, d.padding.2.2] ++
    LittleEndian.encode 4 d.cksumMagic.toNat ++ LittleEndian.encode 4 d.saveCount.toNat ++
    LittleEndian.encode 4 (d.cksumLen 0).toNat ++ LittleEndian.encode 4 (d.cksumLen 1).toNat ++
    LittleEndian.encode 4 (d.cksumValue 0).toNat ++ LittleEndian.encode 4 (d.cksumValue 1).toNat

theorem ParamDir.length_bytes (d : ParamDir) : d.bytes.length = paramDirSize := rfl

def cksumMagic : UInt32 := 0x55AA55AA

/-- `sizeof(struct sdk_g_ic_saved_st)`. -/
def paramsSize : ℕ := 0x370

/-- `struct sdk_g_ic_saved_st` as bytes. -/
abbrev Params := { data : List UInt8 // data.length = paramsSize }

/-- The slot a selector byte stands for. -/
def slotOf (selector : UInt8) : Fin 2 := if selector = 0 then 0 else 1

/-! ## Saving -/

/-- `wifi_save_protect`: repeat until the data is read back. The loop is bounded by
`rounds`. -/
def wifiSaveProtect (sector : ℕ) (data : List UInt8) : ℕ → SpiFlash → Option SpiFlash
  | 0, _ => none
  | rounds + 1, s =>
    let s := s.call (.erase sector)
    let s := s.call (.write ⟨sector * sectorSize, data⟩)
    if read s.bytes (sector * sectorSize) data.length = data then some s
    else wifiSaveProtect sector data rounds s

section Checksum

-- `sdk_system_get_checksum` is part of a binary library
variable (getChecksum : List UInt8 → UInt32)

/-- The directory that goes with a saved block. -/
def updateDir (dir : ParamDir) (params : Params) : ParamDir :=
  let currentSector := slotOf dir.currentSector
  let saveCount := dir.saveCount + 1
  { dir with
    currentSector := .ofNat currentSector
    cksumMagic := cksumMagic
    saveCount := if saveCount ≠ 0 then saveCount else 1
    cksumLen := Function.update dir.cksumLen currentSector (.ofNat paramDirSize)
    -- only as many bytes of the block as the directory has
    cksumValue := Function.update dir.cksumValue currentSector
      (getChecksum (params.1.take paramDirSize)) }

/-- The first byte of the directory on a chip of this size. -/
def dirAddr (chipSize : ℕ) : ℕ := (chipSize / sectorSize - 1) * sectorSize

/-- The sector of a slot. -/
def slotSector (chipSize : ℕ) (slot : Fin 2) : ℕ := chipSize / sectorSize - 3 + slot

/-- `sdk_wifi_param_save_protect`. -/
def sdkWifiParamSaveProtect (chipSize : ℕ) (params : Params) (rounds : ℕ) (s : SpiFlash) :
    Option SpiFlash :=
  let dir := ParamDir.ofBytes (read s.bytes (dirAddr chipSize) paramDirSize)
  match wifiSaveProtect (slotSector chipSize (slotOf dir.currentSector)) params.1 rounds s with
  | none => none
  | some s =>
    wifiSaveProtect (chipSize / sectorSize - 1) (updateDir getChecksum dir params).bytes rounds s

/-! ## Booting -/

/-- The flash size that byte 3 of the boot header stands for. -/
def flashSize (header : UInt8) : ℕ :=
  match header >>> 4 with
  | 0x0 => 524288
  | 0x1 => 262144
  | 0x2 => 1048576
  | 0x3 | 0x5 => 2097152
  | 0x4 | 0x6 => 4194304
  | 0x8 => 8388608
  | 0x9 => 16777216
  | _ => 524288

/-- What the check of the loaded block says. -/
inductive Verdict
  | notRequired
  | ok
  | bad
  deriving DecidableEq, Repr

/-- The check of a loaded block against the directory. A checksum is only ever
compared, so its value for a length beyond the block does not matter. -/
def checkParams (buf : List UInt8) (bootSlot : Fin 2) (params : List UInt8) : Verdict :=
  let magic := word buf 1
  let len := word buf (3 + bootSlot)
  let value := word buf (5 + bootSlot)
  if magic = 0xffffffff then .notRequired
  else if magic = cksumMagic ∧ getChecksum (params.take len.toNat) = value then .ok
  else .bad

/-- The part of `sdk_user_start` that loads `sdk_g_ic.s`: the block and the verdict
on it. -/
def sdkUserStart (f : Image) : List UInt8 × Verdict :=
  let size := flashSize (f 3)
  let buf := read f (size - 4096) paramDirSize
  let bootSlot := slotOf (buf.getD 0 0)
  let params := read f ((size / sectorSize - 3 + bootSlot) * sectorSize) paramsSize
  (params, checkParams getChecksum buf bootSlot params)

end Checksum

end EspOpenRtos.WifiParam
