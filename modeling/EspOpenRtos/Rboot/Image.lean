/-
# Firmware images

An image starts with an eight-byte header and a number of sections, each with a
header of its own that gives the length of its data. A newer format puts one more
header and one more section in front, padded to sixteen bytes. The last byte of an
image is a checksum over the data of the sections of the inner header; it stands at
the end of the block of sixteen bytes that follows the last section.

This is what the format means, independent of the code that checks it. An image
does not fix the bytes that pad it.
-/

import EspOpenRtos.Math.NorFlash
import EspOpenRtos.Math.LittleEndian

namespace EspOpenRtos.Rboot

open Math Math.NorFlash

/-- The next multiple of `a`. -/
def alignUp (a n : ℕ) : ℕ := (n + (a - 1)) / a * a

/-- `ROM_MAGIC_OLD`, of a version 1.1 header. -/
def romMagicOld : UInt8 := 0xe9

/-- `ROM_MAGIC_NEW`, of a version 1.2 header. -/
def romMagicNew : UInt8 := 0xea

/-- `CHKSUM_INIT`. -/
def chksumInit : UInt8 := 0xef

/-- `sizeof(image_header_t)`. -/
def imageHeaderSize : ℕ := 8

/-- `sizeof(section_header_t)`. -/
def sectionHeaderSize : ℕ := 8

/-- How far an image may reach. -/
def maxImageSize : ℕ := 0x100000

/-- `SECTOR_SIZE`. -/
def sectorSize : ℕ := 0x1000

/-- A section. Its length is a 32-bit word and a multiple of four. -/
structure Section where
  loadAddr : UInt32
  data : List UInt8
  length_lt : data.length < 2 ^ 32
  aligned : data.length % 4 = 0

def Section.bytes (s : Section) : List UInt8 :=
  LittleEndian.encode 4 s.loadAddr.toNat ++ LittleEndian.encode 4 s.data.length ++ s.data

/-- The fields of an image header that do not concern its shape. -/
structure HeaderInfo where
  val0 : UInt8
  val1 : UInt8
  entrypoint : UInt32

def headerBytes (magic sectionCount : UInt8) (info : HeaderInfo) : List UInt8 :=
  [magic, sectionCount, info.val0, info.val1] ++ LittleEndian.encode 4 info.entrypoint.toNat

/-- A version 1.1 image. The number of sections is a byte. -/
structure Body where
  info : HeaderInfo
  sections : List Section
  count_lt : sections.length < 256

def Body.bytes (b : Body) : List UInt8 :=
  headerBytes romMagicOld (.ofNat b.sections.length) b.info ++ b.sections.flatMap Section.bytes

/-- What a version 1.2 image has in front. One section follows its header, whatever
positive number the header gives. -/
structure Lead where
  info : HeaderInfo
  sectionCount : UInt8
  count_ne : sectionCount ≠ 0
  irom : Section

def Lead.bytes (l : Lead) : List UInt8 :=
  headerBytes romMagicNew l.sectionCount l.info ++ l.irom.bytes

/-- An image of either version. -/
structure RbootImage where
  lead : Option Lead
  body : Body

namespace RbootImage

variable (img : RbootImage)

/-- Where the version 1.1 image starts. -/
def bodyOffset : ℕ := match img.lead with
  | none => 0
  | some l => alignUp 16 l.bytes.length

/-- The end of the last section. -/
def bodyEnd : ℕ := img.bodyOffset + img.body.bytes.length

/-- The length of the image with its checksum. -/
def length : ℕ := alignUp 16 (img.bodyEnd + 1)

/-- The exclusive or of the start value and all data of the inner sections. -/
def checksum : UInt8 := (img.body.sections.flatMap Section.data).foldl (· ^^^ ·) chksumInit

end RbootImage

/-- Start and end of each section of a list that starts at `p`. -/
def sectionSpans (p : ℕ) : List Section → List (ℕ × ℕ)
  | [] => []
  | s :: rest => (p, p + s.bytes.length) :: sectionSpans (p + s.bytes.length) rest

/-- Start and end of each section of an image. -/
def RbootImage.spans (img : RbootImage) : List (ℕ × ℕ) :=
  (match img.lead with
    | none => []
    | some l => sectionSpans imageHeaderSize [l.irom]) ++
  sectionSpans (img.bodyOffset + imageHeaderSize) img.body.sections

/-- The flash holds the headers and sections of the image at an offset. -/
structure HoldsImage (f : Image) (offset : ℕ) (img : RbootImage) : Prop where
  lead : ∀ l, img.lead = some l → read f offset l.bytes.length = l.bytes
  body : read f (offset + img.bodyOffset) img.body.bytes.length = img.body.bytes

/-- The last byte of the image at an offset is its checksum. -/
def ChecksumMatches (f : Image) (offset : ℕ) (img : RbootImage) : Prop :=
  f (offset + img.length - 1) = img.checksum

instance (f : Image) (offset : ℕ) (img : RbootImage) : Decidable (ChecksumMatches f offset img) :=
  inferInstanceAs (Decidable (_ = _))

/-- An image that is small enough up to its last section. -/
def RbootImage.Fits (img : RbootImage) : Prop := ∀ span ∈ img.spans, span.2 ≤ maxImageSize

instance (img : RbootImage) : Decidable img.Fits :=
  inferInstanceAs (Decidable (∀ span ∈ img.spans, _))

/-! ## Lengths -/

theorem Section.length_bytes (s : Section) :
    s.bytes.length = sectionHeaderSize + s.data.length := by
  simp only [bytes, List.length_append, LittleEndian.length_encode]
  rfl

theorem length_headerBytes (magic count : UInt8) (info : HeaderInfo) :
    (headerBytes magic count info).length = imageHeaderSize := rfl

theorem Lead.length_bytes (l : Lead) : l.bytes.length = imageHeaderSize + l.irom.bytes.length := by
  rw [bytes, List.length_append, length_headerBytes]

theorem Body.length_bytes (b : Body) :
    b.bytes.length = imageHeaderSize + (b.sections.flatMap Section.bytes).length := by
  rw [bytes, List.length_append, length_headerBytes]

end EspOpenRtos.Rboot
