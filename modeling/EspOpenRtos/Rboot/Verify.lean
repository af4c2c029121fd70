/-
# Checking an image

`rboot_verify_image` walks over the sections of an image in flash and computes its
checksum. Offsets are 32-bit words, and so are the sums by which the code decides
whether a section still lies within its limit. Flash reads are exact; an address
stands for the byte at its residue.
-/

import EspOpenRtos.Rboot.Image

namespace EspOpenRtos.Rboot

open Math Math.NorFlash

/-- Reduction to `uint32_t`. -/
def u32 (n : ℕ) : ℕ := n % 2 ^ 32

/-- The flash as 32-bit addresses see it. -/
def wrapped (f : Image) : Image := fun a => f (u32 a)

/-- `(offset + (a - 1)) & ~(a - 1)`, for a power of two. -/
def pad (a offset : ℕ) : ℕ := u32 (offset + (a - 1)) / a * a

/-- The errors that `rboot_verify_image` reports. -/
inductive VerifyError
  | unalignedFlashOffset
  | missingInitialMagic
  | headerLengthNotModulo4
  | badSecondMagic
  | imageTruncated
  | invalidChecksum
  deriving DecidableEq, Repr

def VerifyError.message : VerifyError → String
  | unalignedFlashOffset => "Unaligned flash offset"
  | missingInitialMagic => "Missing initial magic"
  | headerLengthNotModulo4 => "Header length not modulo 4"
  | badSecondMagic => "Bad second magic"
  | imageTruncated => "Image truncated"
  | invalidChecksum => "Invalid checksum"

/-- The value returned, with what is left in `image_length` and `error_message`. -/
inductive VerifyResult
  | accepted (imageLength : ℕ)
  | rejected (imageLength : ℕ) (error : VerifyError)
  deriving DecidableEq, Repr

/-- The fields of `image_header_t` that are looked at. -/
structure ImageHeader where
  magic : UInt8
  sectionCount : UInt8

def readImageHeader (f : Image) (offset : ℕ) : ImageHeader :=
  let buf := read (wrapped f) offset imageHeaderSize
  ⟨buf.getD 0 0, buf.getD 1 0⟩

/-- The `length` of the `section_header_t` at an offset. -/
def readSectionLength (f : Image) (offset : ℕ) : ℕ :=
  LittleEndian.decode ((read (wrapped f) offset sectionHeaderSize).drop 4)

/-- One round of the loop over the data of a section: the buffer of sixteen bytes and
the checksum. -/
def checksumByte (f : Image) (offset : ℕ) (st : List UInt8 × UInt8) (i : ℕ) :
    List UInt8 × UInt8 :=
  let chunk := if i % 16 = 0 then read (wrapped f) (u32 (offset + i)) 16 else st.1
  (chunk, st.2 ^^^ chunk.getD (i % 16) 0)

/-- The checksum continued over the data of a section. -/
def checksumSection (f : Image) (offset length : ℕ) (checksum : UInt8) : UInt8 :=
  ((List.range length).foldl (checksumByte f offset) ([], checksum)).2

/-- The variables of the loop over the sections. -/
structure VerifyState where
  offset : ℕ
  remainingSections : ℕ
  checksum : UInt8
  isNewHeader : Bool

/-- How one round of the loop ends. -/
inductive Round
  | next (st : VerifyState)
  | stop (st : VerifyState)
  | fail (offset : ℕ) (error : VerifyError)

/-- The body of the loop. -/
def verifySection (f : Image) (endLimit : ℕ) (st : VerifyState) : Round :=
  let length := readSectionLength f st.offset
  let offset := u32 (st.offset + sectionHeaderSize)
  if u32 (length + offset) > endLimit then .stop { st with offset := offset }
  else if length % 4 ≠ 0 then .fail offset .headerLengthNotModulo4
  else
    let checksum :=
      if st.isNewHeader then st.checksum else checksumSection f offset length st.checksum
    let offset := pad 4 (u32 (offset + length))
    if st.isNewHeader then
      let offset := pad 16 offset
      let header := readImageHeader f offset
      let offset := u32 (offset + imageHeaderSize)
      if header.magic ≠ romMagicOld then .fail offset .badSecondMagic
      else .next ⟨offset, header.sectionCount.toNat, checksum, false⟩
    else .next ⟨offset, st.remainingSections - 1, checksum, false⟩

/-- A bound on the rounds that are left: a new header is replaced once, by one with
fewer than 256 sections. -/
def VerifyState.rank (st : VerifyState) : ℕ :=
  st.remainingSections + if st.isNewHeader then 256 else 0

theorem rank_lt_of_next {f : Image} {endLimit : ℕ} {st st' : VerifyState}
    (hpos : 0 < st.remainingSections) (hnext : verifySection f endLimit st = .next st') :
    st'.rank < st.rank := by
  unfold verifySection at hnext
  dsimp only at hnext
  split at hnext
  · nomatch hnext
  split at hnext
  · nomatch hnext
  split at hnext
  case isTrue hnew =>
    split at hnext
    · nomatch hnext
    · cases hnext
      have hcount := (readImageHeader f (pad 16 (pad 4 (u32 (u32 (st.offset + sectionHeaderSize) +
        readSectionLength f st.offset))))).sectionCount.toNat_lt
      simp only [VerifyState.rank, hnew, if_true, Bool.false_eq_true, if_false]
      omega
  case isFalse hold =>
    cases hnext
    simp only [VerifyState.rank, hold, Bool.false_eq_true, if_false]
    omega

/-- The loop over the sections. -/
def verifySections (f : Image) (endLimit : ℕ) (st : VerifyState) :
    Except (ℕ × VerifyError) VerifyState :=
  if _hpos : 0 < st.remainingSections ∧ st.offset < endLimit then
    match _hround : verifySection f endLimit st with
    | .next st' => verifySections f endLimit st'
    | .stop st' => .ok st'
    | .fail offset error => .error (offset, error)
  else .ok st
termination_by st.rank
decreasing_by exact rank_lt_of_next _hpos.1 _hround

/-- The part behind the loop: padding and checksum. -/
def verifyEnd (f : Image) (initialOffset : ℕ) (st : VerifyState) : VerifyResult :=
  if st.remainingSections > 0 then
    .rejected (u32 (st.offset + 2 ^ 32 - initialOffset)) .imageTruncated
  else
    let offset := pad 16 (u32 (st.offset + 1))
    let imageLength := u32 (offset + 2 ^ 32 - initialOffset)
    if wrapped f (offset + 2 ^ 32 - 1) ≠ st.checksum then .rejected imageLength .invalidChecksum
    else .accepted imageLength

/-- `rboot_verify_image`. -/
def rbootVerifyImage (f : Image) (initialOffset : ℕ) : VerifyResult :=
  if initialOffset % 4 ≠ 0 then .rejected 0 .unalignedFlashOffset
  else
    let endLimit := u32 (initialOffset + maxImageSize)
    let header := readImageHeader f initialOffset
    let offset := u32 (initialOffset + imageHeaderSize)
    if header.magic ≠ romMagicOld ∧ header.magic ≠ romMagicNew then
      .rejected (u32 (offset + 2 ^ 32 - initialOffset)) .missingInitialMagic
    else
      let st : VerifyState := ⟨offset, header.sectionCount.toNat, chksumInit,
        header.magic = romMagicNew⟩
      match verifySections f endLimit st with
      | .error (offset, error) => .rejected (u32 (offset + 2 ^ 32 - initialOffset)) error
      | .ok st => verifyEnd f initialOffset st

end EspOpenRtos.Rboot
