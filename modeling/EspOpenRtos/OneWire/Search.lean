/-
# The 1-Wire search

`onewire_search_next` finds one device with each call. It reads a bit of the ROM
code and its complement from all devices that still take part, decides for 0 or 1
and writes the decision, upon which the devices with the other bit drop out. What
the next call needs to find another device is kept in an `onewire_search_t`.

The search is written for any bus that can be reset, written and read bit by bit.
-/

import Mathlib.Data.Fintype.Basic
import Mathlib.Tactic.IntervalCases

namespace EspOpenRtos.OneWire

/-- `onewire_addr_t`. -/
abbrev OnewireAddr := BitVec 64

/-- `ONEWIRE_NONE`. -/
def onewireNone : OnewireAddr := 0xffffffffffffffff

/-- `ONEWIRE_SEARCH`. -/
def onewireSearchCommand : BitVec 8 := 0xf0

/-- What the driver does to the wire. -/
structure Bus (β : Type) where
  /-- `onewire_reset`: whether a device asserted a presence pulse. -/
  reset : β → Bool × β
  /-- `_onewire_write_bit`, which fails if the wire does not come high. -/
  writeBit : β → Bool → Bool × β
  /-- `_onewire_read_bit`; `none` is a read error. -/
  readBit : β → Option Bool × β

/-- The loop of `onewire_write` over the bits that are left. -/
def onewireWriteBits {β : Type} (bus : Bus β) (wire : β) : List Bool → Bool × β
  | [] => (true, wire)
  | bit :: rest =>
    match bus.writeBit wire bit with
    | (false, wire) => (false, wire)
    | (true, wire) => onewireWriteBits bus wire rest

/-- `onewire_write`: the bits of a byte, the lowest first. -/
def onewireWrite {β : Type} (bus : Bus β) (wire : β) (v : BitVec 8) : Bool × β :=
  onewireWriteBits bus wire ((List.range 8).map v.getLsbD)

/-- The eight bytes `rom_no`. -/
abbrev RomNo := Fin 8 → BitVec 8

/-- `onewire_search_t`. -/
structure OnewireSearch where
  romNo : RomNo
  lastDiscrepancy : ℕ
  lastDeviceFound : Bool

/-- `onewire_search_start`. -/
def onewireSearchStart (_ : OnewireSearch) : OnewireSearch := ⟨fun _ => 0, 0, false⟩

/-- The counters of the loop, which move together. -/
structure Counters where
  idBitNumber : ℕ
  romByteNumber : ℕ
  romByteMask : BitVec 8
  valid : ∃ k < 8, idBitNumber = 8 * romByteNumber + k + 1 ∧ romByteMask = 1#8 <<< k

namespace Counters

def init : Counters := ⟨1, 0, 1, 0, by decide⟩

theorem valid_shift {id byte k : ℕ} {mask : BitVec 8} (hk : k < 8) (hid : id = 8 * byte + k + 1)
    (hmask : mask = 1#8 <<< k) :
    (mask <<< 1 = 0 → ∃ l < 8, id + 1 = 8 * (byte + 1) + l + 1 ∧ (1 : BitVec 8) = 1#8 <<< l) ∧
      (mask <<< 1 ≠ 0 → ∃ l < 8, id + 1 = 8 * byte + l + 1 ∧ mask <<< 1 = 1#8 <<< l) := by
  subst hid hmask
  constructor
  · intro hzero
    have hlast : k = 7 := by
      revert hzero
      interval_cases k <;> decide
    subst hlast
    exact ⟨0, by decide, by omega, rfl⟩
  · intro hne
    have hnot : k ≠ 7 := by
      rintro rfl
      exact hne rfl
    exact ⟨k + 1, by omega, by omega, (BitVec.shiftLeft_add ..).symm⟩

/-- The end of the loop body: `id_bit_number++`, and the mask is shifted on into the
next byte. -/
def next (c : Counters) : Counters :=
  if hmask : c.romByteMask <<< 1 = 0 then
    { idBitNumber := c.idBitNumber + 1
      romByteNumber := c.romByteNumber + 1
      romByteMask := 1
      valid := let ⟨_, hk, hid, h⟩ := c.valid; (valid_shift hk hid h).1 hmask }
  else
    { idBitNumber := c.idBitNumber + 1
      romByteNumber := c.romByteNumber
      romByteMask := c.romByteMask <<< 1
      valid := let ⟨_, hk, hid, h⟩ := c.valid; (valid_shift hk hid h).2 hmask }

@[simp]
theorem next_idBitNumber (c : Counters) : c.next.idBitNumber = c.idBitNumber + 1 := by
  unfold next
  split <;> rfl

/-- The loop condition in terms of the bit number. -/
theorem romByteNumber_lt_iff (c : Counters) : c.romByteNumber < 8 ↔ c.idBitNumber < 65 := by
  obtain ⟨k, hk, hid, -⟩ := c.valid
  omega

end Counters

/-- The variables of the loop, with the wire. -/
structure LoopState (β : Type) where
  wire : β
  romNo : RomNo
  counters : Counters
  lastZero : ℕ

/-- How a round of the loop ends. -/
inductive Round (β : Type)
  | stop (st : LoopState β)
  | next (st : LoopState β)

/-- Set or clear a bit of one byte. -/
def writeRomBit (romNo : RomNo) (byte : Fin 8) (mask : BitVec 8) (bit : Bool) : RomNo :=
  Function.update romNo byte (if bit then romNo byte ||| mask else romNo byte &&& ~~~mask)

section Search

variable {β : Type} (bus : Bus β)

/-- The bit to go on with, from the bit and the complement that were read. They are
both 0 where devices differ; then the search goes where it went last time up to the
last discrepancy, which is the place to go the other way. -/
def searchDirection (lastDiscrepancy : ℕ) (c : Counters) (romByte : BitVec 8)
    (idBit cmpIdBit : Bool) : Bool :=
  if idBit ≠ cmpIdBit then idBit
  else if c.idBitNumber < lastDiscrepancy then decide (0 < romByte &&& c.romByteMask)
  else decide (c.idBitNumber = lastDiscrepancy)

/-- The body of the loop. -/
def searchRound (lastDiscrepancy : ℕ) (st : LoopState β) (byte : Fin 8) : Round β :=
  let (idBit, wire) := bus.readBit st.wire
  let (cmpIdBit, wire) := bus.readBit wire
  match idBit, cmpIdBit with
  | some idBit, some cmpIdBit =>
    if idBit && cmpIdBit then .stop { st with wire := wire }
    else
      let bit := searchDirection lastDiscrepancy st.counters (st.romNo byte) idBit cmpIdBit
      .next
        { wire := (bus.writeBit wire bit).2
          romNo := writeRomBit st.romNo byte st.counters.romByteMask bit
          counters := st.counters.next
          lastZero :=
            if idBit = cmpIdBit ∧ bit = false then st.counters.idBitNumber else st.lastZero }
  | _, _ => .stop { st with wire := wire }

variable {bus} in
/-- A round in which two bits are read that are not both 1. -/
theorem searchRound_of_reads {lastDiscrepancy : ℕ} {st : LoopState β} {byte : Fin 8}
    {wire₁ wire₂ : β} {idBit cmpIdBit : Bool} (hread : bus.readBit st.wire = (some idBit, wire₁))
    (hread' : bus.readBit wire₁ = (some cmpIdBit, wire₂)) (hbits : (idBit && cmpIdBit) = false)
    {bit : Bool}
    (hbit : searchDirection lastDiscrepancy st.counters (st.romNo byte) idBit cmpIdBit = bit) :
    searchRound bus lastDiscrepancy st byte = .next
      { wire := (bus.writeBit wire₂ bit).2
        romNo := writeRomBit st.romNo byte st.counters.romByteMask bit
        counters := st.counters.next
        lastZero :=
          if idBit = cmpIdBit ∧ bit = false then st.counters.idBitNumber else st.lastZero } := by
  subst hbit
  simp only [searchRound, hread, hread', hbits]
  rfl

theorem searchRound_next_idBitNumber {lastDiscrepancy : ℕ} {st st' : LoopState β} {byte : Fin 8}
    (h : searchRound bus lastDiscrepancy st byte = .next st') :
    st'.counters.idBitNumber = st.counters.idBitNumber + 1 := by
  unfold searchRound at h
  dsimp only at h
  split at h
  · split at h
    · nomatch h
    · cases h
      exact Counters.next_idBitNumber _
  · nomatch h

/-- The loop. It is left early by a read error and when no device answers. -/
def searchLoop (lastDiscrepancy : ℕ) (st : LoopState β) : LoopState β :=
  if hbyte : st.counters.romByteNumber < 8 then
    match _hround : searchRound bus lastDiscrepancy st ⟨_, hbyte⟩ with
    | .stop st' => st'
    | .next st' => searchLoop lastDiscrepancy st'
  else st
termination_by 65 - st.counters.idBitNumber
decreasing_by
  have hnext := searchRound_next_idBitNumber bus _hround
  have hid := st.counters.romByteNumber_lt_iff.mp hbyte
  omega

/-- The address as `rom_no` holds it, from the highest byte down. -/
def romAddr (romNo : RomNo) : OnewireAddr :=
  (List.finRange 8).reverse.foldl (fun addr i => addr <<< 8 ||| (romNo i).setWidth 64) 0

/-- The end of `onewire_search_next` without a device. -/
def searchFailed (romNo : RomNo) (wire : β) : OnewireAddr × OnewireSearch × β :=
  (onewireNone, ⟨romNo, 0, false⟩, wire)

/-- `onewire_search_next`. -/
def onewireSearchNext (search : OnewireSearch) (wire : β) : OnewireAddr × OnewireSearch × β :=
  if search.lastDeviceFound then searchFailed search.romNo wire
  else match bus.reset wire with
    | (false, wire) => searchFailed search.romNo wire
    | (true, wire) =>
      let wire := (onewireWrite bus wire onewireSearchCommand).2
      let st := searchLoop bus search.lastDiscrepancy ⟨wire, search.romNo, .init, 0⟩
      if st.counters.idBitNumber < 65 ∨ st.romNo 0 = 0 then searchFailed st.romNo st.wire
      else (romAddr st.romNo, ⟨st.romNo, st.lastZero, decide (st.lastZero = 0)⟩, st.wire)

/-- What a number of calls in a row return. -/
def searchResults (search : OnewireSearch) (wire : β) : ℕ → List OnewireAddr
  | 0 => []
  | calls + 1 =>
    let (addr, search, wire) := onewireSearchNext bus search wire
    addr :: searchResults search wire calls

end Search

end EspOpenRtos.OneWire
