/-
# The flash device and the on-flash format

The parameter store talks to the flash through three calls. A device value
records the flash content together with what the crash and fault results need:
the content after every write or erase call issued so far, and an optional
pending fault that makes one later write call fail half way.

Addresses are natural numbers. The driver puts 24 address bits on the bus, so
no address the store computes for an area inside the chip comes near 32 bits.
-/

import EspOpenRtos.Math.NorFlash

namespace EspOpenRtos.Sysparam

open Math.NorFlash

/-- A write call that will fail: the number of writes that succeed before it
and, for each address, the bits it leaves set. -/
structure WriteFault where
  after : ℕ
  keep : Image

/-- The flash as the store sees it. `accepts` is the driver's range check,
`images` lists the flash content after each write or erase call, and `failedAt`
is the address of the write call that failed, if one has. -/
structure Device where
  accepts : ℕ → ℕ → Bool
  bytes : Image
  images : List Image
  fault : Option WriteFault
  failedAt : Option ℕ

/-- Replace the content after a call and record it. -/
def Device.store (d : Device) (bytes : Image) : Device :=
  { d with bytes := bytes, images := d.images ++ [bytes] }

/-- `SPI_FLASH_SECTOR_SIZE`, which is also `sdk_flashchip.sector_size`. -/
def sectorSize : ℕ := 4096

/-- `spiflash_read`. An empty read always succeeds. -/
def spiflashRead (d : Device) (addr size : ℕ) : Option (List UInt8) :=
  if size = 0 ∨ d.accepts addr size = true then some (read d.bytes addr size) else none

/-- `spiflash_write`. -/
def spiflashWrite (d : Device) (addr : ℕ) (data : List UInt8) : Bool × Device :=
  if d.accepts addr data.length = true then
    match d.fault with
    | none => (true, d.store (program d.bytes addr data))
    | some ⟨0, keep⟩ =>
      (false, { d.store (programPartly d.bytes addr data keep) with
        fault := none, failedAt := some addr })
    | some ⟨after + 1, keep⟩ =>
      (true, { d.store (program d.bytes addr data) with fault := some ⟨after, keep⟩ })
  else (false, d)

/-- `spiflash_erase_sector`. The address must be sector aligned. -/
def spiflashEraseSector (d : Device) (addr : ℕ) : Bool × Device :=
  if d.accepts addr sectorSize = true ∧ addr % sectorSize = 0 then
    (true, d.store (erase d.bytes addr sectorSize))
  else (false, d)

/-! ## Status codes -/

/-- `sysparam_status_t`. -/
inductive Status
  | ok
  | notFound
  | parseFailed
  | errNoInit
  | errBadValue
  | errFull
  | errIo
  | errCorrupt
  | errNoMem
  deriving DecidableEq, Repr

/-- The test `status < 0`. -/
def Status.isError : Status → Bool
  | ok | notFound | parseFailed => false
  | _ => true

/-! ## Headers -/

/-- A 16-bit word in memory order. -/
def le16 (x : UInt16) : List UInt8 := [x.toUInt8, (x >>> 8).toUInt8]

/-- The 16-bit word with the given low and high byte. -/
def ofLe16 (lo hi : UInt8) : UInt16 := UInt16.ofNat (lo.toNat + 256 * hi.toNat)

/-- `SYSPARAM_MAGIC` in memory order. -/
def sysparamMagic : List UInt8 := [0x45, 0x4f, 0x52, 0x70]

def regionHeaderSize : ℕ := 8
def entryHeaderSize : ℕ := 4

def maxValueLen : ℕ := 0xffff

/-- `MAX_KEY_ID`. -/
def maxKeyId : ℕ := 0x0ffe

def regionFlagSecond : UInt16 := 0x8000
def regionFlagActive : UInt16 := 0x4000
def regionMaskSize : UInt16 := 0x0fff

def entryFlagAlive : UInt16 := 0x8000
def entryFlagInvalid : UInt16 := 0x4000
def entryFlagValue : UInt16 := 0x2000
def entryFlagBinary : UInt16 := 0x1000
def entryMaskId : UInt16 := 0xfff

def entryIdEnd : ℕ := 0xfff
def entryIdAny : ℕ := 0x1000

/-- `ENTRY_SIZE`. -/
def entrySize (payloadLen : ℕ) : ℕ := entryHeaderSize + payloadLen

/-- `struct region_header`, with the magic word as its four bytes. -/
structure RegionHeader where
  magic : List UInt8
  flagsSize : UInt16
  reserved : UInt16
  deriving DecidableEq

def RegionHeader.bytes (h : RegionHeader) : List UInt8 :=
  h.magic ++ le16 h.flagsSize ++ le16 h.reserved

def RegionHeader.ofBytes : List UInt8 → RegionHeader
  | [m0, m1, m2, m3, f0, f1, r0, r1] => ⟨[m0, m1, m2, m3], ofLe16 f0 f1, ofLe16 r0 r1⟩
  | _ => ⟨[], 0, 0⟩

/-- `struct entry_header`. -/
structure EntryHeader where
  idflags : UInt16
  len : UInt16
  deriving DecidableEq, Repr

def EntryHeader.bytes (h : EntryHeader) : List UInt8 := le16 h.idflags ++ le16 h.len

def EntryHeader.ofBytes : List UInt8 → EntryHeader
  | [i0, i1, l0, l1] => ⟨ofLe16 i0 i1, ofLe16 l0 l1⟩
  | _ => ⟨0, 0⟩

/-- The id field, `idflags & ENTRY_MASK_ID`. -/
def EntryHeader.id (h : EntryHeader) : ℕ := (h.idflags &&& entryMaskId).toNat

/-- The entry is alive and valid. -/
def EntryHeader.live (h : EntryHeader) : Bool :=
  h.idflags &&& (entryFlagAlive ||| entryFlagInvalid) == entryFlagAlive

def EntryHeader.isValue (h : EntryHeader) : Bool := h.idflags &&& entryFlagValue != 0

def EntryHeader.isBinary (h : EntryHeader) : Bool := h.idflags &&& entryFlagBinary != 0

/-- The entry is one that a search for `matchId` stops at. -/
def EntryHeader.isMatch (h : EntryHeader) (matchId : ℕ) (findValue : Bool) : Bool :=
  h.live && (h.isValue == findValue) && (h.id == matchId || matchId == entryIdAny)

/-! ## State -/

/-- `_sysparam_info`, less its mutex: calls do not overlap. -/
structure Info where
  curBase : ℕ
  altBase : ℕ
  endAddr : ℕ
  regionSize : ℕ
  forceCompact : Bool
  deriving DecidableEq

/-- `struct sysparam_context`. -/
structure Context where
  addr : ℕ
  entry : EntryHeader
  unusedKeys : ℤ
  compactable : ℕ
  maxKeyId : ℕ
  deriving DecidableEq

/-- The flash and the variables the store keeps in memory. -/
structure Sys where
  dev : Device
  info : Info

/-! ## Round trips -/

@[simp]
theorem ofLe16_bytes (x : UInt16) : ofLe16 x.toUInt8 (x >>> 8).toUInt8 = x := by
  apply UInt16.toNat_inj.mp
  have hbound := x.toNat_lt
  simp [ofLe16, Nat.shiftRight_eq_div_pow]
  omega

@[simp]
theorem EntryHeader.ofBytes_bytes (h : EntryHeader) : EntryHeader.ofBytes h.bytes = h := by
  simp [EntryHeader.ofBytes, EntryHeader.bytes, le16]

@[simp]
theorem EntryHeader.length_bytes (h : EntryHeader) : h.bytes.length = 4 := rfl

theorem RegionHeader.ofBytes_bytes (h : RegionHeader) (hmagic : h.magic = sysparamMagic) :
    RegionHeader.ofBytes h.bytes = h := by
  cases h
  subst hmagic
  simp [RegionHeader.ofBytes, RegionHeader.bytes, le16, sysparamMagic]

end EspOpenRtos.Sysparam
