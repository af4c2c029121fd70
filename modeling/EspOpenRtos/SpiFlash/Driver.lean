/-
# The flash driver

`spiflash.c`. A write is cut into a first part up to the end of a page, whole
pages and a rest, and each of these into commands of at most 64 bytes; a read is
cut into commands of at most 60 bytes. The functions return what the source
returns and the commands they issue. Addresses and sizes are 32-bit words, and
sums wrap as in the source.
-/

import EspOpenRtos.Math.PageWrites

namespace EspOpenRtos.SpiFlash

open Math.NorFlash Math.PageWrites

/-- The fields of `sdk_flashchip_t` the drivers read. -/
structure Chip where
  chipSize : UInt32
  sectorSize : UInt32
  pageSize : UInt32

/-- `SPI_WRITE_MAX_SIZE`. -/
def writeMaxSize : UInt32 := 64

/-- `SPI_READ_MAX_SIZE`. -/
def readMaxSize : UInt32 := 60

/-- What the drivers write to `SPI(0).ADDR`. -/
def addrRegister (addr size : UInt32) : UInt32 := (addr &&& 0x00FFFFFF) ||| (size <<< (24 : UInt32))

/-- The address a command takes from the register. -/
def busAddr (register : UInt32) : UInt32 := register &&& 0x00FFFFFF

/-- The number of bytes a command takes from the register. -/
def busSize (register : UInt32) : UInt32 := register >>> 24

/-- `spi_write_data`: whole words are copied to the data registers, and the
command programs as many bytes of them as the address register says. -/
def spiWriteData (addr : UInt32) (buf : List UInt8) (size : UInt32) : Piece :=
  let words := if size &&& 0b11 ≠ 0 then (size >>> 2) + 1 else size >>> 2
  let register := addrRegister addr size
  { addr := (busAddr register).toNat
    data := (buf.take (words <<< 2).toNat).take (busSize register).toNat }

/-- The loop of `spi_write_page` and the write after it. -/
def writeBlocks (addr : UInt32) (buf : List UInt8) (size : UInt32) : List Piece :=
  if writeMaxSize ≤ size then
    spiWriteData addr buf writeMaxSize ::
      if size - writeMaxSize < 1 then []
      else writeBlocks (addr + writeMaxSize) (buf.drop writeMaxSize.toNat) (size - writeMaxSize)
  else [spiWriteData addr buf size]
termination_by size.toNat
decreasing_by
  rename_i hmax _
  rw [UInt32.toNat_sub_of_le _ _ hmax]
  have hpos : 0 < writeMaxSize.toNat := by decide
  have hle : writeMaxSize.toNat ≤ size.toNat := UInt32.le_iff_toNat_le.mp hmax
  omega

/-- `spi_write_page`. -/
def spiWritePage (chip : Chip) (destAddr : UInt32) (buf : List UInt8) (size : UInt32) :
    Bool × List Piece :=
  if chip.pageSize < size + destAddr % chip.pageSize then (false, [])
  else if size < 1 then (true, [])
  else (true, writeBlocks destAddr buf size)

/-- What is left of a page after an address. -/
theorem toNat_pageRest {chip : Chip} (hpage : 0 < chip.pageSize.toNat) (addr : UInt32) :
    (chip.pageSize - addr % chip.pageSize).toNat =
      chip.pageSize.toNat - addr.toNat % chip.pageSize.toNat := by
  have hmod : addr.toNat % chip.pageSize.toNat < chip.pageSize.toNat := Nat.mod_lt _ hpage
  have hle : addr % chip.pageSize ≤ chip.pageSize := by
    rw [UInt32.le_iff_toNat_le, UInt32.toNat_mod]
    exact hmod.le
  rw [UInt32.toNat_sub_of_le _ _ hle, UInt32.toNat_mod]

/-- The check of the page lets through what fits. -/
theorem spiWritePage_of_fits {chip : Chip} {addr size : UInt32} (buf : List UInt8)
    (hfits : addr.toNat % chip.pageSize.toNat + size.toNat ≤ chip.pageSize.toNat) :
    spiWritePage chip addr buf size =
      if size < 1 then (true, []) else (true, writeBlocks addr buf size) := by
  have hlt := chip.pageSize.toNat_lt
  have hsum : (size + addr % chip.pageSize).toNat =
      addr.toNat % chip.pageSize.toNat + size.toNat := by
    rw [UInt32.toNat_add, UInt32.toNat_mod, Nat.add_comm]
    exact Nat.mod_eq_of_lt (by omega)
  have hcheck : ¬ chip.pageSize < size + addr % chip.pageSize := by
    rw [UInt32.lt_iff_toNat_lt, hsum]
    omega
  rw [spiWritePage, if_neg hcheck]

/-- Go on if the write before succeeded. -/
def andThen (first next : Bool × List Piece) : Bool × List Piece :=
  if first.1 then (next.1, first.2 ++ next.2) else first

/-- The loop of `spi_write` over whole pages, with as many of them left, and the
write after it. -/
def writePages (chip : Chip) (addr : UInt32) (dst : List UInt8) (size : UInt32) :
    ℕ → UInt32 → Bool × List Piece
  | 0, offset => spiWritePage chip (addr + offset) (dst.drop offset.toNat) (size - offset)
  | pages + 1, offset =>
    andThen (spiWritePage chip (addr + offset) (dst.drop offset.toNat) chip.pageSize)
      (writePages chip addr dst size pages (offset + chip.pageSize))

/-- `spi_write`. -/
def spiWrite (chip : Chip) (addr : UInt32) (dst : List UInt8) (size : UInt32) :
    Bool × List Piece :=
  if chip.chipSize < addr + size then (false, [])
  else
    let writeBytesToPage := chip.pageSize - addr % chip.pageSize
    if size < writeBytesToPage then spiWritePage chip addr dst size
    else
      andThen (spiWritePage chip addr dst writeBytesToPage)
        (writePages chip addr dst size
          ((size - writeBytesToPage) / chip.pageSize).toNat writeBytesToPage)

/-- `spiflash_write`. The null pointer is no buffer. -/
def spiflashWrite (chip : Chip) (addr : UInt32) (buf : Option (List UInt8)) (size : UInt32) :
    Bool × List Piece :=
  match buf with
  | none => (false, [])
  | some buf => spiWrite chip addr buf size

/-- `read_block`, on a buffer in memory: the bytes the command reads are copied to
`dst`. -/
def readBlock (f : Image) (addr : UInt32) (buf : Image) (dst : ℕ) (size : UInt32) : Image :=
  let register := addrRegister addr size
  patch buf dst
    ((read f (busAddr register).toNat (busSize register).toNat).take size.toNat)

/-- The loop of `read_data` and the read after it, with the addresses and sizes of
the commands. -/
def readBlocks (f : Image) (addr : UInt32) (buf : Image) (dst : ℕ) (size : UInt32) :
    List (UInt32 × UInt32) × Image :=
  if readMaxSize ≤ size then
    let next := readBlocks f (addr + readMaxSize) (readBlock f addr buf dst readMaxSize)
      (dst + readMaxSize.toNat) (size - readMaxSize)
    ((addr, readMaxSize) :: next.1, next.2)
  else if 0 < size then ([(addr, size)], readBlock f addr buf dst size)
  else ([], buf)
termination_by size.toNat
decreasing_by
  rename_i hmax
  rw [UInt32.toNat_sub_of_le _ _ hmax]
  have hpos : 0 < readMaxSize.toNat := by decide
  have hle : readMaxSize.toNat ≤ size.toNat := UInt32.le_iff_toNat_le.mp hmax
  omega

/-- What a read returns: its result, the commands it issued and the memory. -/
structure ReadResult where
  ok : Bool
  commands : List (UInt32 × UInt32)
  buf : Image

/-- `read_data`. -/
def readData (chip : Chip) (f : Image) (addr : UInt32) (buf : Image) (dst : ℕ)
    (size : UInt32) : ReadResult :=
  if size < 1 then ⟨true, [], buf⟩
  else if addr + size > chip.chipSize then ⟨false, [], buf⟩
  else
    let blocks := readBlocks f addr buf dst size
    ⟨true, blocks.1, blocks.2⟩

/-- `spiflash_read` to the address `dst` of the memory; the null pointer is no
address. -/
def spiflashRead (chip : Chip) (f : Image) (destAddr : UInt32) (buf : Image)
    (dst : Option ℕ) (size : UInt32) : ReadResult :=
  match dst with
  | none => ⟨false, [], buf⟩
  | some dst => readData chip f destAddr buf dst size

/-- `spiflash_erase_sector`, with the address of the command it issues. -/
def spiflashEraseSector (chip : Chip) (addr : UInt32) : Bool × Option UInt32 :=
  if addr + chip.sectorSize > chip.chipSize then (false, none)
  else if addr &&& 0xFFF ≠ 0 then (false, none)
  else (true, some (addr &&& 0x00FFFFFF))

end EspOpenRtos.SpiFlash
