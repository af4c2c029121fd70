/-
# An update over HTTP

`ota_update` downloads the file with the digest, then the firmware. The blocks of the
firmware are hashed and stored in the next slot as they come. If the hash is the published
digest and the image in the slot is valid, the boot loader is told to use the slot.

What the HTTP client delivers is arbitrary, as is its result. The layout of the boot
configuration belongs to the boot loader and is a parameter, as is SHA-256.
-/

import EspOpenRtos.HttpOta.Client
import EspOpenRtos.HttpOta.ShaFile
import EspOpenRtos.Math.SectorWrites
import EspOpenRtos.Rboot.Verify

namespace EspOpenRtos.HttpOta

open Math.NorFlash Math.SectorWrites Rboot

/-! ## Results -/

/-- `HTTP_SHA_DONT_MATCH`. -/
def httpShaDontMatch : ℕ := 4

/-- `OTA_ONE_SLOT_ONLY`. -/
def otaOneSlotOnly : ℕ := 20

/-- `OTA_FAIL_SET_NEW_SLOT`. -/
def otaFailSetNewSlot : ℕ := 21

/-- `OTA_IMAGE_VERIFY_FALLIED`. -/
def otaImageVerifyFallied : ℕ := 22

/-- `OTA_UPDATE_DONE`. -/
def otaUpdateDone : ℕ := 23

/-! ## The boot configuration -/

/-- `rboot_config`, as far as it is used. -/
structure RbootConfig where
  currentRom : ℕ
  count : ℕ
  roms : ℕ → ℕ

/-- Where the boot loader keeps its configuration, and how. -/
structure BootLayout where
  sector : ℕ
  decode : List UInt8 → RbootConfig
  encode : RbootConfig → List UInt8
  encode_le : ∀ conf, (encode conf).length ≤ sectorSize

section Config

variable (layout : BootLayout) (flash : Image)

/-- The content of `BOOT_CONFIG_SECTOR`. -/
def configSector : List UInt8 := read flash (layout.sector * sectorSize) sectorSize

/-- `rboot_get_config`. -/
def rbootGetConfig : RbootConfig := layout.decode (configSector layout flash)

/-- `rboot_set_config`, which keeps the rest of the sector. -/
def rbootSetConfig (conf : RbootConfig) : Image :=
  let buffer := layout.encode conf ++ (configSector layout flash).drop (layout.encode conf).length
  replay sectorSize flash
    [.erase layout.sector, .write ⟨layout.sector * sectorSize, buffer⟩]

/-- `rboot_set_current_rom`. -/
def rbootSetCurrentRom (rom : ℕ) : Option Image :=
  let conf := rbootGetConfig layout flash
  if rom ≥ conf.count then none
  else some (rbootSetConfig layout flash { conf with currentRom := rom })

end Config

/-! ## Storing the firmware -/

/-- A call of a callback: the bytes, and what follows them in the buffer. -/
structure Block where
  data : List UInt8
  behind : List UInt8
  length_eq : data.length + behind.length = sectorSize

/-- What `sdk_spi_flash_write` writes, which rounds the size up. -/
def Block.padded (b : Block) : List UInt8 := (b.data ++ b.behind).take (roundUp4 b.data.length)

/-- The blocks that the HTTP client delivers, and what it returns. -/
structure Download where
  blocks : List Block
  status : ℕ

def Download.bytes (d : Download) : List UInt8 := d.blocks.flatMap Block.data

/-- `flash_offset`, `flash_limits`, what has been hashed and what was done to the flash. -/
structure Writer where
  flashOffset : ℕ
  flashLimits : ℕ
  hashed : List UInt8
  ops : List FlashOp

/-- Erase the sector that starts at `flash_offset`. Its number has 16 bits. -/
def Writer.erases (s : Writer) : List FlashOp :=
  if s.flashOffset % sectorSize = 0 then [.erase (s.flashOffset / sectorSize % 2 ^ 16)] else []

/-- `ota_firmaware_dowload_callback`, whose result nobody asks for. -/
def firmwareCallback (s : Writer) (b : Block) : Writer :=
  let s := { s with hashed := s.hashed ++ b.data }
  if u32 (s.flashOffset + b.data.length) > s.flashLimits then s
  else
    { s with
      flashOffset := u32 (s.flashOffset + b.data.length)
      ops := s.ops ++ s.erases ++ [.write ⟨s.flashOffset, b.padded⟩] }

/-- The download of the firmware to a slot. -/
def storeFirmware (rom : ℕ) (blocks : List Block) : Writer :=
  blocks.foldl firmwareCallback ⟨rom, u32 (rom + maxImageSize), [], []⟩

/-! ## The update -/

/-- What `ota_update` returns, what the firmware callback did to the flash, the flash at the
end, and whether `rboot_set_current_rom` was called. -/
structure Outcome where
  err : ℕ
  ops : List FlashOp
  flash : Image
  switched : Bool

section Update

variable (sha256 : List UInt8 → List UInt8) (layout : BootLayout) (flash : Image)

/-- The slot that the firmware goes to. -/
def nextSlot : ℕ :=
  ((rbootGetConfig layout flash).currentRom + 1) % (rbootGetConfig layout flash).count

/-- `rboot_config.roms[slot]`. -/
def nextRom : ℕ := (rbootGetConfig layout flash).roms (nextSlot layout flash)

/-- The part behind the downloads, with the digest that was downloaded. -/
def finishUpdate (dowload : List UInt8) (writer : Writer) : Outcome :=
  let stored := replay sectorSize flash writer.ops
  if comRes (sha256 writer.hashed) dowload = false then
    ⟨httpShaDontMatch, writer.ops, stored, false⟩
  else
    match rbootVerifyImage stored (nextRom layout flash) with
    | .rejected _ _ => ⟨otaImageVerifyFallied, writer.ops, stored, false⟩
    | .accepted _ =>
      match rbootSetCurrentRom layout stored (nextSlot layout flash) with
      | none => ⟨otaFailSetNewSlot, writer.ops, stored, true⟩
      | some switched => ⟨otaUpdateDone, writer.ops, switched, true⟩

/-- `ota_update` with a `sha256_path`, from memory that may hold anything. There is no
outcome if the digest is written behind the end of its string. -/
def otaUpdate (mem : ℕ → UInt8) (sha firmware : Download) : Option Outcome :=
  let calls := sha.blocks.map Block.data
  if nextSlot layout flash = (rbootGetConfig layout flash).currentRom then
    some ⟨otaOneSlotOnly, [], flash, false⟩
  else if ¬∀ w ∈ callWrites (clearedStr mem) calls, w.1 + w.2 ≤ sha256SizeStr + 1 then none
  else if sha.status ≠ httpOk then some ⟨sha.status, [], flash, false⟩
  else
    let str := calls.foldl checkCallback (clearedStr mem)
    let writer := storeFirmware (nextRom layout flash) firmware.blocks
    if firmware.status ≠ httpOk then
      some ⟨firmware.status, writer.ops, replay sectorSize flash writer.ops, false⟩
    else
      some (finishUpdate sha256 layout flash
        (convertSha256Str (read str.mem 0 sha256SizeStr)) writer)

end Update

/-! ## What should hold -/

/-- The digest that a file publishes, in its first 64 characters. -/
def publishedDigest (file : List UInt8) : List UInt8 :=
  convertSha256Str ((file ++ List.replicate sha256SizeStr 0).take sha256SizeStr)

/-- The notation of a digest publishes it. -/
theorem publishedDigest_of_hex {digest file : List UInt8} (hsize : digest.length = sha256SizeBin)
    (h : HexOf digest (file.take sha256SizeStr)) : publishedDigest file = digest := by
  have hlength : (file.take sha256SizeStr).length = sha256SizeStr := by
    have hmap := congrArg List.length h
    have hbytes (l : List UInt8) : (l.flatMap hexByte).length = 2 * l.length := by
      induction l with
      | nil => rfl
      | cons b l ih =>
        rw [List.flatMap_cons, List.length_append, ih, List.length_cons]
        simp only [hexByte, List.length_cons, List.length_nil]
        omega
    rwa [List.length_map, hbytes, hsize] at hmap
  have htake : (file ++ List.replicate sha256SizeStr 0).take sha256SizeStr =
      file.take sha256SizeStr := by
    rw [List.length_take] at hlength
    exact List.take_append_of_le_length (by omega)
  rw [publishedDigest, htake, convertSha256Str_of_hex hsize h]

/-- The firmware is in flash and its hash is the published digest. -/
structure Genuine (sha256 : List UInt8 → List UInt8) (rom : ℕ) (sha firmware : Download)
    (flash : Image) : Prop where
  stored : read flash rom firmware.bytes.length = firmware.bytes
  digest : sha256 firmware.bytes = publishedDigest sha.bytes

/-- An update is done only with a genuine firmware, touches only the slot, and switches to
the slot only if it is done. -/
structure KeepsIntegrity (sha256 : List UInt8 → List UInt8) (rom : ℕ) (sha firmware : Download)
    (o : Outcome) : Prop where
  done : o.err = otaUpdateDone → Genuine sha256 rom sha firmware o.flash
  inside : ∀ op ∈ o.ops, op.Inside sectorSize rom (rom + maxImageSize)
  switched : o.switched = true → o.err = otaUpdateDone

/-- A block can be stored in sector `k` of the slot: the slot has it, its number has 16 bits,
and it is not the one of the boot configuration. -/
structure SectorOk (layout : BootLayout) (rom k : ℕ) : Prop where
  inSlot : k < maxImageSize / sectorSize
  numbered : rom + sectorSize * k < 2 ^ 28
  free : rom / sectorSize + k ≠ layout.sector

/-! ## Blocks in the slot -/

section Blocks

variable {layout : BootLayout} {rom : ℕ} {flash : Image} {s : Writer} {b : Block}

theorem length_padded (b : Block) : b.padded.length = roundUp4 b.data.length := by
  have hlength := b.length_eq
  rw [Block.padded, List.length_take, List.length_append, hlength, roundUp4, sectorSize]
  rw [sectorSize] at hlength
  omega

theorem padded_of_full (hfull : b.data.length = sectorSize) : b.padded = b.data := by
  rw [Block.padded, hfull, roundUp4_of_words (by decide), List.take_left' hfull]

/-- The bytes of a block, and up to three more. -/
theorem padded_eq (b : Block) : ∃ pad, b.padded = b.data ++ pad := by
  refine ⟨b.behind.take (roundUp4 b.data.length - b.data.length), ?_⟩
  have hle : b.data.length ≤ roundUp4 b.data.length := by
    rw [roundUp4]
    omega
  rw [Block.padded, List.take_append, List.take_of_length_le hle]

/-- The slot holds full blocks in its first `k` sectors. -/
structure Writing (rom : ℕ) (flash : Image) (k : ℕ) (s : Writer) : Prop where
  flashOffset : s.flashOffset = rom + sectorSize * k
  flashLimits : s.flashLimits = u32 (rom + maxImageSize)
  length : s.hashed.length = sectorSize * k
  stores : Stores sectorSize (rom / sectorSize) flash s.ops s.hashed k

theorem writing_init (rom : ℕ) (flash : Image) :
    Writing rom flash 0 ⟨rom, u32 (rom + maxImageSize), [], []⟩ :=
  ⟨rfl, rfl, rfl, stores_nil⟩

/-- A block that has room goes to the next sector, which is erased before. -/
theorem Writing.firmwareCallback_eq {k : ℕ} (h : Writing rom flash k s)
    (haligned : rom % sectorSize = 0) (hroom : sectorSize * k + b.data.length ≤ maxImageSize)
    (hnumbered : rom + sectorSize * k < 2 ^ 28) :
    HttpOta.firmwareCallback s b =
      ⟨rom + sectorSize * k + b.data.length, s.flashLimits, s.hashed ++ b.data,
        s.ops ++ [.erase (rom / sectorSize + k)] ++ [.write ⟨rom + sectorSize * k, b.padded⟩]⟩ := by
  have hdue : (rom + sectorSize * k) % sectorSize = 0 := by
    rw [Nat.add_mul_mod_self_left, haligned]
  have hnumber : (rom + sectorSize * k) / sectorSize % 2 ^ 16 = rom / sectorSize + k := by
    simp only [sectorSize] at *
    omega
  have hsum : u32 (rom + sectorSize * k + b.data.length) = rom + sectorSize * k + b.data.length := by
    rw [u32]
    simp only [sectorSize, maxImageSize] at *
    omega
  have hlimit : ¬rom + sectorSize * k + b.data.length > s.flashLimits := by
    rw [h.flashLimits, u32]
    simp only [sectorSize, maxImageSize] at *
    omega
  simp only [HttpOta.firmwareCallback, Writer.erases, h.flashOffset, hsum, if_neg hlimit,
    if_pos hdue, hnumber]

/-- A block is stored in the next sector. -/
theorem Writing.firmwareCallback {k : ℕ} (h : Writing rom flash k s)
    (haligned : rom % sectorSize = 0) (hsector : SectorOk layout rom k) (b : Block) :
    (HttpOta.firmwareCallback s b).hashed = s.hashed ++ b.data ∧
      Stores sectorSize (rom / sectorSize) flash (HttpOta.firmwareCallback s b).ops
        (s.hashed ++ b.padded) (k + 1) ∧
      (HttpOta.firmwareCallback s b).flashOffset = rom + sectorSize * k + b.data.length ∧
      (HttpOta.firmwareCallback s b).flashLimits = s.flashLimits := by
  obtain ⟨hslot, hnumbered, -⟩ := hsector
  have hlength := h.length
  have hsize := b.length_eq
  have hpadded := length_padded b
  rw [roundUp4] at hpadded
  have haddr : rom / sectorSize * sectorSize + s.hashed.length = rom + sectorSize * k := by
    rw [hlength, Nat.div_mul_cancel (Nat.dvd_of_mod_eq_zero haligned)]
  have hfits : s.hashed.length + b.padded.length ≤ (k + 1) * sectorSize := by
    simp only [sectorSize] at *
    omega
  have hroom : sectorSize * k + b.data.length ≤ maxImageSize := by
    simp only [sectorSize, maxImageSize] at *
    omega
  have hwrite := h.stores.erase.write b.padded hfits
  rw [haddr] at hwrite
  rw [h.firmwareCallback_eq haligned hroom hnumbered]
  exact ⟨rfl, hwrite, rfl, rfl⟩

/-- An empty block behind a full slot erases one more sector. -/
theorem Writing.erase_behind (h : Writing rom flash 256 s) (haligned : rom % sectorSize = 0)
    (hsmall : rom + maxImageSize < 2 ^ 28) (hempty : b.data = []) :
    .erase (rom / sectorSize + 256) ∈ (HttpOta.firmwareCallback s b).ops := by
  rw [h.firmwareCallback_eq haligned (by rw [hempty]; decide) hsmall]
  exact List.mem_append_left _ (List.mem_append_right _ (List.mem_singleton_self _))

/-- Full blocks fill one sector after the other. -/
theorem Writing.foldl {k : ℕ} {blocks : List Block} (h : Writing rom flash k s)
    (haligned : rom % sectorSize = 0) (hfull : ∀ b ∈ blocks, b.data.length = sectorSize)
    (hsectors : ∀ i < blocks.length, SectorOk layout rom (k + i)) :
    Writing rom flash (k + blocks.length) (blocks.foldl HttpOta.firmwareCallback s) ∧
      (blocks.foldl HttpOta.firmwareCallback s).hashed = s.hashed ++ blocks.flatMap Block.data := by
  induction blocks generalizing k s with
  | nil => exact ⟨h, (List.append_nil _).symm⟩
  | cons b blocks ih =>
    obtain ⟨hb, hblocks⟩ := List.forall_mem_cons.mp hfull
    obtain ⟨hhashed, hstores, hoffset, hlimits⟩ :=
      h.firmwareCallback haligned (hsectors 0 (Nat.succ_pos _)) b
    rw [padded_of_full hb, ← hhashed] at hstores
    have hnext : Writing rom flash (k + 1) (HttpOta.firmwareCallback s b) := by
      refine ⟨?_, hlimits.trans h.flashLimits, ?_, hstores⟩
      · rw [hoffset, hb, Nat.mul_succ, Nat.add_assoc]
      · rw [hhashed, List.length_append, h.length, hb, Nat.mul_succ]
    obtain ⟨hwriting, hall⟩ := ih hnext hblocks fun i hi => by
      rw [Nat.add_assoc, Nat.add_comm 1]
      exact hsectors (i + 1) (Nat.succ_lt_succ hi)
    rw [Nat.add_assoc, Nat.add_comm 1] at hwriting
    rw [hhashed, List.append_assoc, ← List.flatMap_cons] at hall
    exact ⟨hwriting, hall⟩

/-- The whole firmware is hashed and stored. -/
theorem storeFirmware_spec {blocks : List Block} (flash : Image) (haligned : rom % sectorSize = 0)
    (hfull : ∀ b ∈ blocks.dropLast, b.data.length = sectorSize)
    (hsectors : ∀ k < blocks.length, SectorOk layout rom k) :
    (storeFirmware rom blocks).hashed = blocks.flatMap Block.data ∧
      ∃ pad, Stores sectorSize (rom / sectorSize) flash (storeFirmware rom blocks).ops
        (blocks.flatMap Block.data ++ pad) blocks.length := by
  rcases List.eq_nil_or_concat blocks with rfl | ⟨full, last, rfl⟩
  · exact ⟨rfl, [], stores_nil⟩
  · rw [List.concat_eq_append] at *
    rw [List.dropLast_concat] at hfull
    rw [List.length_append, List.length_singleton] at hsectors ⊢
    obtain ⟨hwriting, hhashed⟩ := (writing_init rom flash).foldl haligned hfull fun i hi => by
      rw [Nat.zero_add]
      exact hsectors i (Nat.lt_succ_of_lt hi)
    rw [Nat.zero_add] at hwriting
    obtain ⟨hlast, hstores, -, -⟩ :=
      hwriting.firmwareCallback haligned (hsectors full.length (Nat.lt_succ_self _)) last
    obtain ⟨pad, hpad⟩ := padded_eq last
    rw [hhashed, List.nil_append] at hlast hstores
    rw [storeFirmware, List.foldl_append, List.flatMap_append, List.flatMap_singleton]
    refine ⟨hlast, pad, ?_⟩
    rwa [hpad, ← List.append_assoc] at hstores

end Blocks

/-! ## The boot configuration and the slot -/

section Switch

variable {layout : BootLayout} {flash : Image}

/-- A sector that is none of a row of sectors lies before or behind them. -/
theorem sector_apart {first count sector : ℕ} (hfree : ∀ k < count, first + k ≠ sector) :
    (sector + 1) * sectorSize ≤ first * sectorSize ∨
      (first + count) * sectorSize ≤ sector * sectorSize := by
  rcases Nat.lt_or_ge sector first with hbefore | hbehind
  · exact .inl (Nat.mul_le_mul_right _ hbefore)
  · refine .inr (Nat.mul_le_mul_right _ ?_)
    by_contra hin
    exact hfree (sector - first) (by omega) (by omega)

/-- Setting the configuration changes only its sector. -/
theorem read_rbootSetConfig (conf : RbootConfig) {addr size : ℕ}
    (hapart : addr + size ≤ layout.sector * sectorSize ∨
      (layout.sector + 1) * sectorSize ≤ addr) :
    read (rbootSetConfig layout flash conf) addr size = read flash addr size := by
  let buffer := layout.encode conf ++ (configSector layout flash).drop (layout.encode conf).length
  have hlength : buffer.length ≤ 1 * sectorSize := by
    have hencode := layout.encode_le conf
    rw [List.length_append, List.length_drop, configSector, length_read]
    omega
  have herase : Stores sectorSize layout.sector flash [.erase layout.sector] [] 1 := stores_nil.erase
  have hstores := herase.write buffer (by rwa [List.length_nil, Nat.zero_add])
  rw [List.length_nil, Nat.add_zero, List.nil_append, List.singleton_append] at hstores
  refine read_congr fun a hlow hhigh => hstores.outside a ?_
  omega

/-- Storing firmware in other sectors leaves the configuration as it is. -/
theorem rbootGetConfig_replay {first count : ℕ} {ops : List FlashOp} {data : List UInt8}
    (h : Stores sectorSize first flash ops data count)
    (hfree : ∀ k < count, first + k ≠ layout.sector) :
    rbootGetConfig layout (replay sectorSize flash ops) = rbootGetConfig layout flash := by
  refine congrArg layout.decode (read_congr fun a hlow hhigh => h.outside a ?_)
  have hapart := sector_apart hfree
  rw [Nat.succ_mul] at hapart
  omega

end Switch

/-! ## Every update -/

section Integrity

variable {sha256 : List UInt8 → List UInt8} {layout : BootLayout} {flash : Image}
  {sha firmware : Download}

/-- The string holds the characters of the digest. -/
theorem read_checkCallback (mem : ℕ → UInt8) (sha : Download) :
    read ((sha.blocks.map Block.data).foldl checkCallback (clearedStr mem)).mem 0 sha256SizeStr =
      (sha.bytes ++ List.replicate sha256SizeStr 0).take sha256SizeStr := by
  have hbytes := ((collects_clearedStr mem).calls (sha.blocks.map Block.data)).bytes
  rw [List.nil_append] at hbytes
  rw [Download.bytes, List.flatMap_def]
  apply List.ext_getElem
  · rw [length_read, List.length_take, List.length_append, List.length_replicate]
    omega
  · intro i hi hi'
    rw [length_read] at hi
    rw [getElem_read, Nat.zero_add, hbytes i hi, List.getElem_take]
    rcases Nat.lt_or_ge i (sha.blocks.map Block.data).flatten.length with hin | hout
    · rw [List.getD_eq_getElem _ _ hin, List.getElem_append_left hin]
    · rw [List.getD_eq_default _ _ hout, List.getElem_append_right hout, List.getElem_replicate]

theorem length_convertSha256Str (str : List UInt8) :
    (convertSha256Str str).length = sha256SizeBin := by
  simp only [convertSha256Str, htonsBytes, List.length_flatMap, List.length_cons, List.length_nil,
    List.map_const', List.sum_replicate, List.length_range]
  rfl

theorem eq_of_comRes {output dowload : List UInt8} (hout : output.length = sha256SizeBin)
    (hdowload : dowload.length = sha256SizeBin) (h : comRes output dowload = true) :
    output = dowload := by
  rw [comRes, beq_iff_eq] at h
  rwa [List.take_of_length_le hout.le, List.take_of_length_le hdowload.le] at h

/-- What the download of the firmware leaves: all of it in the slot, and the boot
configuration as it was. -/
structure Stored (layout : BootLayout) (rom : ℕ) (flash : Image) (bytes : List UInt8)
    (writer : Writer) : Prop where
  hashed : writer.hashed = bytes
  inside : ∀ op ∈ writer.ops, op.Inside sectorSize rom (rom + maxImageSize)
  stored : read (replay sectorSize flash writer.ops) rom bytes.length = bytes
  apart : rom + bytes.length ≤ layout.sector * sectorSize ∨
    (layout.sector + 1) * sectorSize ≤ rom
  config : rbootGetConfig layout (replay sectorSize flash writer.ops) = rbootGetConfig layout flash

theorem stored_storeFirmware {rom : ℕ} (flash : Image) (haligned : rom % sectorSize = 0)
    (hfull : ∀ b ∈ firmware.blocks.dropLast, b.data.length = sectorSize)
    (hsectors : ∀ k < firmware.blocks.length, SectorOk layout rom k) :
    Stored layout rom flash firmware.bytes (storeFirmware rom firmware.blocks) := by
  obtain ⟨hhashed, pad, hstores⟩ := storeFirmware_spec flash haligned hfull hsectors
  have hrom : rom / sectorSize * sectorSize = rom :=
    Nat.div_mul_cancel (Nat.dvd_of_mod_eq_zero haligned)
  have hend : (rom / sectorSize + firmware.blocks.length) * sectorSize =
      rom + firmware.blocks.length * sectorSize := by rw [Nat.add_mul, hrom]
  have hcount : firmware.blocks.length * sectorSize ≤ maxImageSize := by
    rcases Nat.eq_zero_or_pos firmware.blocks.length with hzero | hpos
    · rw [hzero, Nat.zero_mul]
      exact Nat.zero_le _
    · have hlast := (hsectors (firmware.blocks.length - 1) (by omega)).inSlot
      simp only [maxImageSize, sectorSize] at *
      omega
  have hfree : ∀ k < firmware.blocks.length, rom / sectorSize + k ≠ layout.sector :=
    fun k hk => (hsectors k hk).free
  have hfits := hstores.fits
  have hstored := hstores.stored
  rw [hrom] at hstored
  constructor
  · exact hhashed
  · intro op hop
    have hop := hstores.inside op hop
    rw [hrom, hend] at hop
    cases op with
    | erase sector | write piece => exact ⟨hop.1, hop.2.trans (by omega)⟩
  · exact (read_eq_append_iff.mp hstored).1
  · have hapart := sector_apart hfree
    rw [hrom, hend] at hapart
    rw [List.length_append] at hfits
    have hbytes : firmware.bytes.length = (firmware.blocks.flatMap Block.data).length := rfl
    omega
  · exact rbootGetConfig_replay hstores hfree

/-- The end of an update whose firmware has been stored. -/
theorem Stored.finishUpdate {writer : Writer}
    (h : Stored layout (nextRom layout flash) flash firmware.bytes writer)
    (hsha : ∀ bytes, (sha256 bytes).length = sha256SizeBin)
    (hcount : 0 < (rbootGetConfig layout flash).count) :
    KeepsIntegrity sha256 (nextRom layout flash) sha firmware
      (HttpOta.finishUpdate sha256 layout flash (publishedDigest sha.bytes) writer) := by
  have hslot : ¬nextSlot layout flash ≥ (rbootGetConfig layout flash).count :=
    Nat.not_le.mpr (Nat.mod_lt _ hcount)
  rw [HttpOta.finishUpdate]
  split
  case isTrue => exact ⟨nofun, h.inside, nofun⟩
  case isFalse hcom =>
    split
    · exact ⟨nofun, h.inside, nofun⟩
    · have hdigest := eq_of_comRes (hsha _) (length_convertSha256Str _)
        (Bool.eq_true_of_not_eq_false hcom)
      rw [h.hashed] at hdigest
      rw [rbootSetCurrentRom, h.config, if_neg hslot]
      refine ⟨fun _ => ⟨?_, hdigest⟩, h.inside, fun _ => rfl⟩
      rw [read_rbootSetConfig _ h.apart, h.stored]

end Integrity

/-- What an update needs: neither download returns the code for a finished update, the
digest ends in time, and each block of the firmware has a sector of its own. -/
structure Feasible (layout : BootLayout) (flash : Image) (sha firmware : Download) : Prop where
  sha_status : sha.status ≠ otaUpdateDone
  firmware_status : firmware.status ≠ otaUpdateDone
  stops : StopsInTime (sha.blocks.map Block.data)
  sectors : ∀ k < firmware.blocks.length, SectorOk layout (nextRom layout flash) k

/-- Every such update keeps the integrity of the slot, whatever is delivered. -/
theorem update_keeps_integrity {sha256 : List UInt8 → List UInt8}
    (hsha : ∀ bytes, (sha256 bytes).length = sha256SizeBin) {layout : BootLayout} {flash : Image}
    (hcount : 0 < (rbootGetConfig layout flash).count)
    (haligned : nextRom layout flash % sectorSize = 0) (mem : ℕ → UInt8) {sha firmware : Download}
    (hfull : ∀ b ∈ firmware.blocks.dropLast, b.data.length = sectorSize)
    (hfeasible : Feasible layout flash sha firmware) :
    ∃ o, otaUpdate sha256 layout flash mem sha firmware = some o ∧
      KeepsIntegrity sha256 (nextRom layout flash) sha firmware o := by
  have hstored : Stored layout (nextRom layout flash) flash firmware.bytes _ :=
    stored_storeFirmware flash haligned hfull hfeasible.sectors
  have hwrites : ∀ w ∈ callWrites (clearedStr mem) (sha.blocks.map Block.data),
      w.1 + w.2 ≤ sha256SizeStr + 1 := (callWrites_clearedStr_iff _ _).mpr hfeasible.stops
  rw [otaUpdate]
  split
  · exact ⟨_, rfl, nofun, nofun, nofun⟩
  · split
    · exact ⟨_, rfl, fun h => absurd h hfeasible.sha_status, nofun, nofun⟩
    · split
      · exact ⟨_, rfl, fun h => absurd h hfeasible.firmware_status, hstored.inside, nofun⟩
      · refine ⟨_, rfl, ?_⟩
        rw [read_checkCallback]
        exact hstored.finishUpdate hsha hcount

/-! ## Runs -/

/-- A configuration with a byte for the slot, one for their number, and a word for each of
four slots. -/
def wordLayout : BootLayout where
  sector := 1
  decode bytes := ⟨(bytes.getD 3 0).toNat, (bytes.getD 5 0).toNat,
    fun i => Math.LittleEndian.decode ((bytes.drop (8 + 4 * i)).take 4)⟩
  encode conf := [0xE1, 1, 0, UInt8.ofNat conf.currentRom, 0, UInt8.ofNat conf.count, 0, 0] ++
    (List.range 4).flatMap fun i => Math.LittleEndian.encode 4 (conf.roms i)
  encode_le _ := by simp [Math.LittleEndian.length_encode, sectorSize]

/-- Flash with a configuration of two slots, of which the second one is next. -/
def twoSlots : Image :=
  patch (fun _ => 0xFF) 0x1000
    (wordLayout.encode ⟨0, 2, fun i => 0x2000 + maxImageSize * i⟩)

theorem nextRom_twoSlots : nextRom wordLayout twoSlots = 0x2000 + maxImageSize := by decide +kernel

/-- A block in a buffer of zeros. -/
def blockOf (data : List UInt8) (h : data.length ≤ sectorSize) : Block where
  data := data
  behind := List.replicate (sectorSize - data.length) 0
  length_eq := by
    rw [List.length_replicate]
    omega

/-- The file that publishes a digest. -/
def digestFile (digest : List UInt8) (h : (digest.flatMap hexByte).length ≤ sectorSize) : Download :=
  ⟨[blockOf _ h], httpOk⟩

/-- An image with one section of four bytes. -/
def smallImage : List UInt8 :=
  [0xE9, 1, 0, 0, 0, 0, 0x10, 0x40, 0, 0, 0x10, 0x40, 4, 0, 0, 0, 1, 2, 3, 4] ++
    List.replicate 11 0xFF ++ [0xEB]

def smallFirmware : Download := ⟨[blockOf smallImage (by decide)], httpOk⟩

def smallDigest : Download := digestFile (sha256 smallImage) (by decide +kernel)

theorem sectorOk_twoSlots {k : ℕ} (hk : k < 256) : SectorOk wordLayout (0x2000 + maxImageSize) k where
  inSlot := hk
  numbered := by
    simp only [maxImageSize, sectorSize]
    omega
  free := by
    simp only [maxImageSize, sectorSize, wordLayout]
    omega

/-- An update that is done, behind which the second slot is the current one. -/
theorem update_keeps_integrity_small :
    ∃ o, otaUpdate sha256 wordLayout twoSlots (fun _ => 0) smallDigest smallFirmware = some o ∧
      o.err = otaUpdateDone ∧ (rbootGetConfig wordLayout o.flash).currentRom = 1 ∧
      KeepsIntegrity sha256 (nextRom wordLayout twoSlots) smallDigest smallFirmware o := by
  have hstops : StopsInTime (smallDigest.blocks.map Block.data) :=
    (callWrites_clearedStr_iff (fun _ => 0) _).mp (by decide +kernel)
  have hfeasible : Feasible wordLayout twoSlots smallDigest smallFirmware :=
    { sha_status := by decide
      firmware_status := by decide
      stops := hstops
      sectors := fun k hk => nextRom_twoSlots ▸ sectorOk_twoSlots (hk.trans (by decide)) }
  obtain ⟨o, hrun, hkeeps⟩ := update_keeps_integrity length_sha256 (by decide +kernel)
    (by decide +kernel) (fun _ => 0) (by simp [smallFirmware]) hfeasible
  have hdone : (otaUpdate sha256 wordLayout twoSlots (fun _ => 0) smallDigest smallFirmware).map
      (fun o => (o.err, (rbootGetConfig wordLayout o.flash).currentRom)) =
        some (otaUpdateDone, 1) := by decide +kernel
  rw [hrun, Option.map_some, Option.some.injEq, Prod.mk.injEq] at hdone
  exact ⟨o, hrun, hdone.1, hdone.2, hkeeps⟩

/-- A sector of zeros. -/
def zeroBlock : Block := blockOf (List.replicate sectorSize 0) (List.length_replicate).le

/-- A firmware of exactly 1 MB, all zeros, comes in 256 full blocks and an empty one. -/
def wholeSlot : Download :=
  ⟨List.replicate 256 zeroBlock ++ [blockOf [] (Nat.zero_le _)], httpOk⟩

/-- Its digest. -/
def wholeSlotDigest : Download :=
  digestFile [0x30, 0xe1, 0x49, 0x55, 0xeb, 0xf1, 0x35, 0x22, 0x66, 0xdc, 0x2f, 0xf8, 0x06, 0x7e,
    0x68, 0x10, 0x46, 0x07, 0xe7, 0x50, 0xab, 0xb9, 0xd3, 0xb3, 0x65, 0x82, 0xb8, 0xaf, 0x90,
    0x9f, 0xcb, 0x58] (by decide)

theorem erase_mem_wholeSlot :
    .erase 0x202 ∈ (storeFirmware (0x2000 + maxImageSize) wholeSlot.blocks).ops := by
  have hfull : ∀ b ∈ List.replicate 256 zeroBlock, b.data.length = sectorSize := fun b hb => by
    rw [(List.mem_replicate.mp hb).2]
    exact List.length_replicate
  obtain ⟨hwriting, -⟩ := (writing_init (0x2000 + maxImageSize) fun _ => 0).foldl (by decide) hfull
    fun i hi => by
      rw [List.length_replicate] at hi
      rw [Nat.zero_add]
      exact sectorOk_twoSlots hi
  rw [List.length_replicate, Nat.zero_add] at hwriting
  have hempty : (blockOf [] (Nat.zero_le _)).data = [] := rfl
  have herase := hwriting.erase_behind (by decide) (by decide) hempty
  have hnumber : (0x2000 + maxImageSize) / sectorSize + 256 = 0x202 := by decide
  rw [hnumber] at herase
  rwa [storeFirmware, wholeSlot, List.foldl_append, List.foldl_cons, List.foldl_nil]

theorem finishUpdate_ops (sha256 : List UInt8 → List UInt8) (layout : BootLayout) (flash : Image)
    (dowload : List UInt8) (writer : Writer) :
    (finishUpdate sha256 layout flash dowload writer).ops = writer.ops := by
  rw [finishUpdate]
  split
  · rfl
  · split
    · rfl
    · split <;> rfl

/-- The empty block erases the sector behind the slot. -/
theorem whole_slot_erases_behind :
    ∃ o, otaUpdate sha256 wordLayout twoSlots (fun _ => 0) wholeSlotDigest wholeSlot = some o ∧
      ¬KeepsIntegrity sha256 (nextRom wordLayout twoSlots) wholeSlotDigest wholeSlot o := by
  have hwrites : ∀ w ∈ callWrites (clearedStr fun _ => 0) (wholeSlotDigest.blocks.map Block.data),
      w.1 + w.2 ≤ sha256SizeStr + 1 := by decide +kernel
  rw [otaUpdate, if_neg (by decide +kernel), if_neg (not_not_intro hwrites), if_neg (by decide)]
  dsimp only
  rw [if_neg (by decide)]
  refine ⟨_, rfl, fun h => ?_⟩
  have herase := h.inside (.erase 0x202)
    (by rw [finishUpdate_ops, nextRom_twoSlots]; exact erase_mem_wholeSlot)
  rw [nextRom_twoSlots] at herase
  exact absurd herase.2 (by decide)

end EspOpenRtos.HttpOta
