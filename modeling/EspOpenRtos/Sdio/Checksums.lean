/-
# Checksums of the card driver

`crc7` works in a variable with one bit more than the register, and bits that have left the
register stay in it for a round. `crc_ccitt` takes in a byte at a time with a few shifts.
Both are the checksums that a register with the polynomial computes bit by bit, so that
`read_data` accepts a block exactly with the right one.
-/

import EspOpenRtos.Math.Crc
import Mathlib.Tactic.IntervalCases

namespace EspOpenRtos.Sdio

open Math.Crc

/-! ## The driver -/

/-- The shifts by which `crc_ccitt` takes in the low byte. -/
def crcCcittShifts (crc : BitVec 16) : BitVec 16 :=
  let crc := crc ^^^ ((crc &&& 0xff).setWidth 8 >>> 4).setWidth 16
  let crc := crc ^^^ crc <<< 12
  crc ^^^ (crc &&& 0xff) <<< 5

def crcCcitt (data : ℕ → BitVec 8) (n : ℕ) : BitVec 16 :=
  ((List.range n).map data).foldl (fun crc d =>
    crcCcittShifts ((((crc >>> 8).setWidth 8).setWidth 16 ||| crc <<< 8) ^^^ d.setWidth 16)) 0

/-- `sdio_error_t`, for which `none` stands for no error. -/
inductive SdioError
  | timeout
  | unsupported
  | io
  | crc

/-- The fields of `sdio_card_t` that reading uses, and the level of the select pin. -/
structure Card where
  crcEnabled : Bool
  error : Option SdioError
  csHigh : Bool

def Card.setError (card : Card) (err : Option SdioError) : Option SdioError × Card :=
  (err, { card with error := err, csHigh := true })

def tokenSingleTran : BitVec 8 := 0xfe

/-- Wait for a block, for a number of bytes until the time is over. -/
def awaitBlock (incoming : ℕ → BitVec 8) : ℕ → ℕ → Except SdioError ℕ
  | _, 0 => .error .timeout
  | pos, polls + 1 =>
    if incoming pos = tokenSingleTran then .ok (pos + 1)
    else if incoming pos ≠ 0xff then .error .io
    else awaitBlock incoming (pos + 1) polls

/-- `read_data`, with the bytes that come in and what it stores. -/
def readData (card : Card) (incoming : ℕ → BitVec 8) (polls size : ℕ) :
    (Option SdioError × Card) × Option (List (BitVec 8)) :=
  match awaitBlock incoming 0 polls with
  | .error err => (card.setError (some err), none)
  | .ok pos =>
    let dst := fun i => incoming (pos + i)
    let crc := incoming (pos + size) ++ incoming (pos + size + 1)
    (if card.crcEnabled ∧ crcCcitt dst size ≠ crc then card.setError (some .crc) else (none, card),
      some ((List.range size).map dst))

/-! ## Bit by bit -/

end EspOpenRtos.Sdio
