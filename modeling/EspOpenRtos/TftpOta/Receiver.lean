/-
# Receiving an image over TFTP

`tftp_receive_data` is a loop around `netconn_recv`. Each round is one step of the
receiver: a timeout, a failed call, or a packet, which consists of one segment and may
lie at any address in memory. Flash operations succeed and are kept as a log, of which
the flash at any time is the replay.
-/

import EspOpenRtos.Math.SectorWrites
import EspOpenRtos.Rboot.Verify

namespace EspOpenRtos.TftpOta

open Math.NorFlash Math.SectorWrites Rboot

/-- `TFTP_OP_WRQ`. -/
def tftpOpWrq : ℕ := 2

/-- `TFTP_OP_DATA`. -/
def tftpOpData : ℕ := 3

/-- `TFTP_ERR_FULL`. -/
def tftpErrFull : ℕ := 3

/-- `TFTP_ERR_ILLEGAL`. -/
def tftpErrIllegal : ℕ := 4

/-- `TFTP_TIMEOUT_RETRANSMITS`. -/
def tftpTimeoutRetransmits : ℤ := 10

/-- `DATA_PACKET_SZ`: the packet size plus header. -/
def dataPacketSz : ℕ := 512 + 4

/-- `netbuf_read_u16_n`. -/
def netbufReadU16N (packet : List UInt8) (offs : ℕ) : ℕ :=
  (packet.getD offs 0).toNat * 2 ^ 8 + (packet.getD (offs + 1) 0).toNat

/-- What `tftp_receive_data` returns. -/
inductive Err
  | ok
  | timeout
  | val
  /-- The code of a call to the network stack that failed. -/
  | lwip (code : ℤ)
  /-- The source assumes that a payload consists of words. What happens to another one
  is left open. -/
  | undefined
  deriving DecidableEq, Repr

/-- What the receiver sends. -/
inductive Reply
  | ack (block : ℕ)
  | error (code : ℕ) (message : String)
  deriving DecidableEq, Repr

/-- The result of `netconn_recv`. -/
inductive Recv
  | timeout
  | failed (code : ℤ)
  | packet (data : List UInt8) (address : ℕ)

/-- The variables of `tftp_receive_data`, what it did to the flash, what it sent, and
its result once it has returned. -/
structure Receiver where
  block : ℕ
  writeOffs : ℕ
  retries : ℤ
  receivedLen : ℕ
  ops : List FlashOp
  replies : List Reply
  result : Option Err

namespace Receiver

/-- Before the first packet. -/
def init (startOffs : ℕ) : Receiver :=
  ⟨1, startOffs, tftpTimeoutRetransmits, 0, [], [], none⟩

/-- `tftp_send_ack`. -/
def sendAck (r : Receiver) (block : ℕ) : Receiver :=
  { r with replies := r.replies ++ [.ack (block % 2 ^ 16)] }

/-- `tftp_send_error`, and return. -/
def fail (r : Receiver) (code : ℕ) (message : String) (err : Err) : Receiver :=
  { r with replies := r.replies ++ [.error code message], result := some err }

def perform (r : Receiver) (ops : List FlashOp) : Receiver := { r with ops := r.ops ++ ops }

/-- Erase the sector that starts at the write offset. `sdk_spi_flash_erase_sector` takes its
number as 16 bits. -/
def eraseSector (r : Receiver) : Receiver :=
  if r.writeOffs % sectorSize = 0 then r.perform [.erase (r.writeOffs / sectorSize % 2 ^ 16)] else r

end Receiver

/-- How a payload at an address in memory is written: the first word of an unaligned
one is copied and written before the rest is moved to an aligned address. -/
def writeChunk (writeOffs : ℕ) (chunk : List UInt8) (address : ℕ) : List FlashOp :=
  if chunk ≠ [] ∧ address % 4 ≠ 0 then
    [.write ⟨writeOffs, chunk.take 4⟩, .write ⟨writeOffs + 4, chunk.drop 4⟩]
  else [.write ⟨writeOffs, chunk⟩]

namespace Receiver

/-- Acknowledge a packet of `len` bytes that has been stored, and return if it was the
last one. -/
def acknowledge (r : Receiver) (len : ℕ) (ackErr : Option ℤ) : Receiver :=
  let r := r.sendAck r.block
  match ackErr with
  | some code => { r with result := some (.lwip code) }
  | none =>
    if len < dataPacketSz then { r with result := some .ok }
    else { r with block := r.block + 1, writeOffs := u32 (r.writeOffs + 512) }

/-- The part of a round behind the writes. The image is verified before its last block
is acknowledged. -/
def finishBlock (flash : Image) (startOffs : ℕ) (r : Receiver) (len : ℕ) (ackErr : Option ℤ) :
    Receiver :=
  if len < dataPacketSz then
    match rbootVerifyImage (replay sectorSize flash r.ops) startOffs with
    | .accepted imageLength =>
      if imageLength ≠ r.receivedLen then
        r.fail tftpErrIllegal "Unknown validation error" .val
      else r.acknowledge len ackErr
    | .rejected _ error => r.fail tftpErrIllegal error.message .val
  else r.acknowledge len ackErr

/-- The part of a round behind the check of the block number. -/
def storeBlock (flash : Image) (startOffs limitOffs : ℕ) (r : Receiver) (packet : List UInt8)
    (address : ℕ) (ackErr : Option ℤ) : Receiver :=
  let r := eraseSector { r with retries := tftpTimeoutRetransmits }
  if u32 (r.writeOffs + packet.length) ≥ limitOffs then
    r.fail tftpErrFull "Image too large" .val
  else if (packet.drop 4).length % 4 ≠ 0 then { r with result := some .undefined }
  else
    let r := r.perform (writeChunk r.writeOffs (packet.drop 4) (address + 4))
    let r := { r with receivedLen := r.receivedLen + (packet.length - 4) }
    r.finishBlock flash startOffs packet.length ackErr

/-- A round in which a packet comes. -/
def receivePacket (flash : Image) (startOffs limitOffs : ℕ) (r : Receiver)
    (packet : List UInt8) (address : ℕ) (ackErr : Option ℤ) : Receiver :=
  if netbufReadU16N packet 0 ≠ tftpOpData then
    r.fail tftpErrIllegal "Unknown opcode" .val
  else if netbufReadU16N packet 2 ≠ r.block then
    -- a duplicate block means that the ack got lost
    if netbufReadU16N packet 2 + 1 = r.block then r.sendAck (r.block - 1)
    else r.fail tftpErrIllegal "Block# out of order" .val
  else r.storeBlock flash startOffs limitOffs packet address ackErr

/-- A round of the loop. Sending the acknowledgement of a new block may fail with
`ackErr`. -/
def round (flash : Image) (startOffs limitOffs : ℕ) (r : Receiver) (ackErr : Option ℤ) :
    Recv → Receiver
  | .timeout =>
    if r.retries > 0 ∧ r.block > 1 then
      sendAck { r with retries := r.retries - 1 } (r.block - 1)
    else fail { r with retries := r.retries - 1 } tftpErrIllegal "Timeout" .timeout
  | .failed code => r.fail tftpErrIllegal "Failed to receive packet" (.lwip code)
  | .packet data address => r.receivePacket flash startOffs limitOffs data address ackErr

/-- `tftp_receive_data`, for the range of flash from `startOffs` to `limitOffs`, as far as
the next call to `netconn_recv`. -/
def receiveData (flash : Image) (startOffs limitOffs : ℕ) (r : Receiver) (ackErr : Option ℤ)
    (recv : Recv) : Receiver :=
  if r.result = none then r.round flash startOffs limitOffs ackErr recv else r

end Receiver

end EspOpenRtos.TftpOta
