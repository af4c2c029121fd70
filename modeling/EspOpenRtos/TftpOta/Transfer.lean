/-
# A transfer over an unreliable network

The sender works in lock-step: it sends a block, as often as it likes, until it sees
the acknowledgement of that block, and goes on to the next. Every packet either side
has ever sent stays in the network and may arrive at any time and any number of times,
which covers loss, duplication, delay and reordering.

The sender is never ahead of the receiver's block counter, because an acknowledgement
of a block is only sent once the counter has passed it. All packets in the network
therefore carry numbers up to the counter, and only one of them is stored.
-/

import EspOpenRtos.Math.Runs
import EspOpenRtos.Rboot.WellFormed
import EspOpenRtos.TftpOta.Receiver

namespace EspOpenRtos.TftpOta

open Math.NorFlash Math.PageWrites Math.Runs Math.SectorWrites Rboot

/-! ## The sender and the network -/

/-- Block `n` of a file, counted from 1. Only the last block has fewer than 512 bytes. -/
def blockOf (file : List UInt8) (n : ℕ) : List UInt8 := (file.drop (512 * (n - 1))).take 512

/-- The number of the last block. -/
def lastBlock (file : List UInt8) : ℕ := file.length / 512 + 1

/-- The packet with block `n`, whose number has 16 bits. -/
def dataPacket (file : List UInt8) (n : ℕ) : List UInt8 :=
  [0, .ofNat tftpOpData, .ofNat (n / 2 ^ 8), .ofNat n] ++ blockOf file n

/-- The receiver, the block the sender is at, and the blocks it has sent. -/
structure Transfer where
  receiver : Receiver
  current : ℕ
  sent : List ℕ

inductive Event
  /-- The sender sends its block, for the first time or again. -/
  | send
  /-- An acknowledgement arrives at the sender. -/
  | ackArrives (block : ℕ)
  /-- A packet with block `n` arrives and is put at an address in memory. -/
  | packetArrives (n address : ℕ) (ackErr : Option ℤ)
  /-- The request that started the transfer arrives once more. -/
  | requestArrives (fields : List UInt8) (address : ℕ)
  | timeout
  | recvFails (code : ℤ)

variable (file : List UInt8) (flash : Image) (startOffs : ℕ)

/-- The receiver's round, with the limit that `tftp_task` and `ota_tftp_download` give. -/
def receive (r : Receiver) (ackErr : Option ℤ) (recv : Recv) : Receiver :=
  r.receiveData flash startOffs (u32 (startOffs + maxImageSize)) ackErr recv

/-- Only what was sent arrives. -/
def step (t : Transfer) : Event → Transfer
  | .send => { t with sent := t.current :: t.sent }
  | .ackArrives block =>
    if .ack block ∈ t.receiver.replies ∧ block = t.current % 2 ^ 16 ∧
        t.current < lastBlock file then
      { t with current := t.current + 1 }
    else t
  | .packetArrives n address ackErr =>
    if n ∈ t.sent then
      let recv := .packet (dataPacket file n) address
      { t with receiver := receive flash startOffs t.receiver ackErr recv }
    else t
  | .requestArrives fields address =>
    let recv := .packet ([0, .ofNat tftpOpWrq] ++ fields) address
    { t with receiver := receive flash startOffs t.receiver none recv }
  | .timeout => { t with receiver := receive flash startOffs t.receiver none .timeout }
  | .recvFails code => { t with receiver := receive flash startOffs t.receiver none (.failed code) }

def Transfer.init : Transfer := ⟨.init startOffs, 1, []⟩

/-! ## What a transfer should do -/

/-- How the bytes of a block may be written: at once, or the first word by itself. -/
inductive BlockWrites (addr : ℕ) (bytes : List UInt8) : List Piece → Prop
  | whole : BlockWrites addr bytes [⟨addr, bytes⟩]
  | firstWord : BlockWrites addr bytes [⟨addr, bytes.take 4⟩, ⟨addr + 4, bytes.drop 4⟩]

/-- The pieces are those of the first blocks, each of which is written once and at its
place. -/
inductive BlocksWritten : ℕ → List Piece → Prop
  | zero : BlocksWritten 0 []
  | succ {m : ℕ} {pieces more : List Piece} : BlocksWritten m pieces →
      BlockWrites (startOffs + 512 * m) (blockOf file (m + 1)) more →
      BlocksWritten (m + 1) (pieces ++ more)

/-- The file is in flash and the receiver knows it. -/
structure Received (r : Receiver) : Prop where
  length : r.receivedLen = file.length
  stored : read (replay sectorSize flash r.ops) startOffs file.length = file
  verified : rbootVerifyImage (replay sectorSize flash r.ops) startOffs = .accepted file.length

/-- No block is written twice or in a wrong place, no sector is erased twice or written
before it is erased, and the receiver returns `ERR_OK` only when it has the file. -/
structure StoresFile (r : Receiver) : Prop where
  blocks : ∃ m, BlocksWritten file startOffs m (written r.ops)
  sectors : (erased r.ops).Nodup
  erasedFirst : ErasedFirst sectorSize r.ops
  received : r.result = some .ok → Received file flash startOffs r

/-! ## The invariant -/

/-- The first `m` blocks are stored, in `count` sectors. -/
structure Holding (ops : List FlashOp) (m count : ℕ) : Prop where
  stores : Stores sectorSize (startOffs / sectorSize) flash ops (file.take (512 * m)) count
  blocks : BlocksWritten file startOffs m (written ops)

/-- The receiver has stored `m` blocks, none of them the last, and waits for the next. -/
structure Receiving (r : Receiver) (m : ℕ) : Prop where
  running : r.result = none
  block : r.block = m + 1
  writeOffs : r.writeOffs = startOffs + 512 * m
  receivedLen : r.receivedLen = 512 * m
  full : 512 * m ≤ file.length
  small : m < 2048
  acks : ∀ k, .ack k ∈ r.replies → k ≤ m
  holding : Holding file flash startOffs r.ops m ((m + 7) / 8)

/-- The receiver has stored one more block and has yet to acknowledge it. -/
structure Stored (r : Receiver) (m : ℕ) : Prop where
  running : r.result = none
  block : r.block = m + 1
  writeOffs : r.writeOffs = startOffs + 512 * m
  receivedLen : r.receivedLen = 512 * m + (blockOf file (m + 1)).length
  full : 512 * m ≤ file.length
  small : 512 * m + (blockOf file (m + 1)).length + 4 < maxImageSize
  acks : ∀ k, .ack k ∈ r.replies → k ≤ m
  holding : Holding file flash startOffs r.ops (m + 1) ((m + 8) / 8)

/-- What holds of a receiver that had stored `m` blocks before. -/
structure Sound (m : ℕ) (r : Receiver) : Prop where
  holding : ∃ m count, Holding file flash startOffs r.ops m count
  receiving : r.result = none → ∃ m', m ≤ m' ∧ Receiving file flash startOffs r m'
  received : r.result = some .ok → Received file flash startOffs r

/-- The invariant of a transfer. Numbers in the network are only bounded while the
receiver is at work. -/
structure Inv (t : Transfer) : Prop where
  sound : Sound file flash startOffs 0 t.receiver
  current_pos : 1 ≤ t.current
  sent : ∀ n ∈ t.sent, 1 ≤ n ∧ n ≤ t.current
  current_le : t.receiver.result = none → t.current ≤ t.receiver.block

variable {file flash startOffs}

/-! ## Packets and blocks -/

theorem length_blockOf (file : List UInt8) (m : ℕ) :
    (blockOf file (m + 1)).length = min 512 (file.length - 512 * m) := by
  simp [blockOf]

theorem take_blockOf (m : ℕ) :
    file.take (512 * m) ++ blockOf file (m + 1) = file.take (512 * (m + 1)) := by
  rw [blockOf, Nat.add_sub_cancel, Nat.mul_succ, List.take_add]

theorem length_dataPacket (n : ℕ) :
    (dataPacket file n).length = (blockOf file n).length + 4 := by
  simp [dataPacket]

theorem drop_dataPacket (n : ℕ) : (dataPacket file n).drop 4 = blockOf file n := rfl

theorem opcode_dataPacket (n : ℕ) : netbufReadU16N (dataPacket file n) 0 = tftpOpData := by
  simp only [netbufReadU16N, dataPacket, List.cons_append, List.getD_cons_succ,
    List.getD_cons_zero]
  decide

theorem number_dataPacket (n : ℕ) : netbufReadU16N (dataPacket file n) 2 = n % 2 ^ 16 := by
  simp only [netbufReadU16N, dataPacket, List.cons_append, List.getD_cons_succ,
    List.getD_cons_zero, UInt8.toNat_ofNat']
  omega

/-! ## Writing a block -/

theorem blockWrites_writeChunk (offs : ℕ) (chunk : List UInt8) (address : ℕ) :
    BlockWrites offs chunk (written (writeChunk offs chunk address)) := by
  rw [writeChunk]
  split
  · exact .firstWord
  · exact .whole

section Step

variable {ops : List FlashOp} {m count : ℕ} {r : Receiver}

/-- The next block is stored where the sectors erased so far have room for it. -/
theorem Holding.writeChunk (h : Holding file flash startOffs ops m count)
    (hstart : startOffs % sectorSize = 0) (hfull : 512 * m ≤ file.length)
    (hroom : 512 * (m + 1) ≤ count * sectorSize)
    (hwords : (blockOf file (m + 1)).length % 4 = 0) (address : ℕ) :
    Holding file flash startOffs
      (ops ++ TftpOta.writeChunk (startOffs + 512 * m) (blockOf file (m + 1)) address)
      (m + 1) count := by
  have hlength : (file.take (512 * m)).length = 512 * m := List.length_take_of_le hfull
  have hbytes : (blockOf file (m + 1)).length ≤ 512 := by
    rw [length_blockOf]
    exact Nat.min_le_left _ _
  have hfirst : startOffs / sectorSize * sectorSize + (file.take (512 * m)).length =
      startOffs + 512 * m := by
    rw [Nat.div_mul_cancel (Nat.dvd_of_mod_eq_zero hstart), hlength]
  have hwrite {data : List UInt8} {ops : List FlashOp} (addr : ℕ) (part : List UInt8)
      (hstores : Stores sectorSize (startOffs / sectorSize) flash ops data count)
      (haddr : startOffs / sectorSize * sectorSize + data.length = addr)
      (hfits : data.length + part.length ≤ count * sectorSize) :=
    haddr ▸ hstores.write part hfits
  constructor
  · rw [← take_blockOf]
    obtain ⟨bytes, hbytes_eq⟩ : ∃ bytes, blockOf file (m + 1) = bytes := ⟨_, rfl⟩
    rw [hbytes_eq] at hbytes hwords ⊢
    rw [TftpOta.writeChunk]
    split
    case isTrue hunaligned =>
      have hfour : (bytes.take 4).length = 4 := by
        have := List.length_pos_iff.mpr hunaligned.1
        exact List.length_take_of_le (by omega)
      have hword := hwrite _ (bytes.take 4) h.stores hfirst (by omega)
      have hrest := hwrite (startOffs + 512 * m + 4) (bytes.drop 4) hword
        (by rw [List.length_append]; omega)
        (by rw [List.length_append, List.length_drop]; omega)
      rwa [List.append_assoc, List.append_assoc, List.take_append_drop] at hrest
    case isFalse =>
      exact hwrite _ _ h.stores hfirst (by omega)
  · rw [written_append]
    exact h.blocks.succ (blockWrites_writeChunk _ _ _)

/-- The sector of the next block is erased when the block starts it. -/
theorem Receiving.eraseSector (h : Receiving file flash startOffs r m)
    (hstart : startOffs % sectorSize = 0) (hslot : startOffs + maxImageSize ≤ 2 ^ 28) :
    Holding file flash startOffs r.eraseSector.ops m ((m + 8) / 8) := by
  have hsmall := h.small
  rw [Receiver.eraseSector, h.writeOffs]
  rw [sectorSize] at hstart
  rw [maxImageSize] at hslot
  split
  case isTrue hdue =>
    rw [sectorSize] at hdue
    have hsector : (startOffs + 512 * m) / sectorSize % 2 ^ 16 =
        startOffs / sectorSize + (m + 7) / 8 := by
      rw [sectorSize]
      omega
    have hcount : (m + 8) / 8 = (m + 7) / 8 + 1 := by omega
    rw [hsector, hcount]
    exact ⟨h.holding.stores.erase, by simpa [written, Receiver.perform] using h.holding.blocks⟩
  case isFalse hdue =>
    rw [sectorSize] at hdue
    have hcount : (m + 8) / 8 = (m + 7) / 8 := by omega
    exact hcount ▸ h.holding

/-- A receiver that gives up keeps what it has stored. -/
theorem Holding.stopped (h : Holding file flash startOffs ops m count) {bound : ℕ} (err : Err)
    (herr : err ≠ .ok) (hops : r.ops = ops) (hresult : r.result = some err) :
    Sound file flash startOffs bound r where
  holding := ⟨m, count, hops ▸ h⟩
  receiving hnone := nomatch hresult.symm.trans hnone
  received hok := absurd (Option.some.inj (hresult.symm.trans hok)) herr

theorem acks_sendAck {bound k : ℕ} (hblock : r.block ≤ bound)
    (hacks : ∀ k, .ack k ∈ r.replies → k ≤ bound)
    (hmem : .ack k ∈ (r.sendAck r.block).replies) : k ≤ bound := by
  rcases List.mem_append.mp hmem with hold | hnew
  · exact hacks k hold
  · obtain rfl : k = r.block % 2 ^ 16 := by simpa using hnew
    exact (Nat.mod_le _ _).trans hblock

/-- After a full block the receiver waits for the next one. -/
theorem Stored.acknowledge_full (h : Stored file flash startOffs r m)
    (hslot : startOffs + maxImageSize ≤ 2 ^ 28)
    (hfull : (blockOf file (m + 1)).length = 512) (ackErr : Option ℤ) :
    Sound file flash startOffs m (r.acknowledge 516 ackErr) := by
  cases ackErr with
  | some code => exact h.holding.stopped (.lwip code) (by simp) rfl rfl
  | none =>
    have hsmall := h.small
    have hlength := length_blockOf file m
    rw [maxImageSize, hfull] at hsmall
    refine ⟨⟨_, _, h.holding⟩, fun _ => ⟨m + 1, Nat.le_succ m, ?_⟩, ?_⟩
    · constructor
      · exact h.running
      · exact congrArg (· + 1) h.block
      · change u32 (r.writeOffs + 512) = startOffs + 512 * (m + 1)
        rw [h.writeOffs, u32, maxImageSize] at *
        omega
      · change r.receivedLen = 512 * (m + 1)
        rw [h.receivedLen, hfull, Nat.mul_succ]
      · omega
      · omega
      · exact fun k => acks_sendAck h.block.le fun k hk => (h.acks k hk).trans (Nat.le_succ m)
      · exact h.holding
    · exact fun hok => by cases h.running.symm.trans hok

/-- After the last block the file is in flash. -/
theorem Stored.acknowledge_last (h : Stored file flash startOffs r m)
    (hstart : startOffs % sectorSize = 0) (hlast : (blockOf file (m + 1)).length < 512)
    (hverified : rbootVerifyImage (replay sectorSize flash r.ops) startOffs =
      .accepted r.receivedLen) {len : ℕ} (hlen : len < dataPacketSz) (ackErr : Option ℤ) :
    Sound file flash startOffs m (r.acknowledge len ackErr) := by
  have hblock := length_blockOf file m
  have hfull := h.full
  have htake : file.take (512 * (m + 1)) = file := List.take_of_length_le (by omega)
  have hreceived : r.receivedLen = file.length := by
    rw [h.receivedLen]
    omega
  cases ackErr with
  | some code => exact h.holding.stopped (.lwip code) nofun rfl rfl
  | none =>
    have hstores := h.holding.stores
    rw [htake] at hstores
    rw [Receiver.acknowledge, if_pos hlen]
    refine ⟨⟨_, _, h.holding⟩, nofun, fun _ => ⟨hreceived, ?_, hreceived ▸ hverified⟩⟩
    rw [← Nat.div_mul_cancel (Nat.dvd_of_mod_eq_zero hstart)]
    exact hstores.stored

theorem Stored.finishBlock (h : Stored file flash startOffs r m)
    (hstart : startOffs % sectorSize = 0) (hslot : startOffs + maxImageSize ≤ 2 ^ 28) (ackErr : Option ℤ) :
    Sound file flash startOffs m
      (r.finishBlock flash startOffs (dataPacket file (m + 1)).length ackErr) := by
  rw [Receiver.finishBlock, length_dataPacket]
  split
  case isTrue hlen =>
    rw [dataPacketSz] at hlen
    split
    case h_1 imageLength hverify =>
      split
      · exact h.holding.stopped .val nofun rfl rfl
      · case isFalse heq =>
        rw [not_not.mp heq] at hverify
        exact h.acknowledge_last hstart (by omega) hverify hlen ackErr
    case h_2 => exact h.holding.stopped .val nofun rfl rfl
  case isFalse hlen =>
    have hfull : (blockOf file (m + 1)).length = 512 := by
      have := length_blockOf file m
      rw [dataPacketSz] at hlen
      omega
    rw [hfull]
    exact h.acknowledge_full hslot hfull ackErr

variable (h : Receiving file flash startOffs r m)
include h

/-- A receiver that repeats its last acknowledgement goes on as before. -/
theorem Receiving.repeatAck (retries : ℤ) :
    Sound file flash startOffs m (Receiver.sendAck { r with retries := retries } m) where
  holding := ⟨m, _, h.holding⟩
  received hok := nomatch h.running.symm.trans hok
  receiving _ := by
    refine ⟨m, Nat.le_refl m, ?_⟩
    refine ⟨h.running, h.block, h.writeOffs, h.receivedLen, h.full, h.small, ?_, h.holding⟩
    intro k hk
    rcases List.mem_append.mp hk with hold | hnew
    · exact h.acks k hold
    · obtain rfl : k = m % 2 ^ 16 := by simpa using hnew
      exact Nat.mod_le _ _

theorem Receiving.storeBlock (hstart : startOffs % sectorSize = 0)
    (hslot : startOffs + maxImageSize ≤ 2 ^ 28)
    (hwords : file.length % 4 = 0) (address : ℕ) (ackErr : Option ℤ) :
    Sound file flash startOffs m (r.storeBlock flash startOffs (u32 (startOffs + maxImageSize))
      (dataPacket file (m + 1)) address ackErr) := by
  have hblock := length_blockOf file m
  have hsame : Receiver.eraseSector { r with retries := tftpTimeoutRetransmits } =
      { r with
        retries := tftpTimeoutRetransmits
        ops := r.eraseSector.ops } := by
    rw [Receiver.eraseSector, Receiver.eraseSector]
    split <;> rfl
  have herased := h.eraseSector hstart hslot
  rw [Receiver.storeBlock, hsame, drop_dataPacket, length_dataPacket]
  dsimp only
  rw [h.writeOffs]
  split
  · exact herased.stopped .val nofun rfl rfl
  case isFalse hbelow =>
    rw [if_neg (by omega)]
    have hroom : 512 * (m + 1) ≤ (m + 8) / 8 * sectorSize := by
      rw [sectorSize]
      omega
    have hsmall := h.small
    have hfits : 512 * m + (blockOf file (m + 1)).length + 4 < maxImageSize := by
      rw [u32, u32] at hbelow
      rw [maxImageSize] at *
      omega
    rw [← length_dataPacket]
    refine Stored.finishBlock ?_ hstart hslot ackErr
    constructor
    · exact h.running
    · exact h.block
    · rfl
    · change r.receivedLen + _ = _
      rw [h.receivedLen, length_dataPacket, Nat.add_sub_cancel]
    · exact h.full
    · exact hfits
    · exact h.acks
    · exact herased.writeChunk hstart h.full hroom (by omega) _

/-- A packet with a number up to the block counter is stored, acknowledged once more, or
ends the transfer. -/
theorem Receiving.receivePacket (hstart : startOffs % sectorSize = 0)
    (hslot : startOffs + maxImageSize ≤ 2 ^ 28)
    (hwords : file.length % 4 = 0) {n : ℕ} (hn : n ≤ m + 1) (address : ℕ) (ackErr : Option ℤ) :
    Sound file flash startOffs m (r.receivePacket flash startOffs (u32 (startOffs + maxImageSize))
      (dataPacket file n) address ackErr) := by
  have hsmall := h.small
  have hnumber : n % 2 ^ 16 = n := Nat.mod_eq_of_lt (by omega)
  rw [Receiver.receivePacket, opcode_dataPacket, number_dataPacket, hnumber, h.block,
    if_neg (not_not.mpr rfl)]
  split
  case isFalse hnew =>
    obtain rfl := not_not.mp hnew
    exact h.storeBlock hstart hslot hwords address ackErr
  case isTrue =>
    split
    · exact h.repeatAck r.retries
    · exact h.holding.stopped .val nofun rfl rfl

theorem Receiving.round_timeout (limitOffs : ℕ) :
    Sound file flash startOffs m (r.round flash startOffs limitOffs none .timeout) := by
  have hblock : r.block - 1 = m := by rw [h.block, Nat.add_sub_cancel]
  rw [Receiver.round, hblock]
  split
  · exact h.repeatAck (r.retries - 1)
  · exact h.holding.stopped .timeout nofun rfl rfl

end Step

/-! ## Every transfer -/

section Run

variable {t : Transfer}

theorem Sound.weaken {m bound : ℕ} {r : Receiver} (h : Sound file flash startOffs m r)
    (hle : bound ≤ m) : Sound file flash startOffs bound r :=
  ⟨h.holding, fun hnone => (h.receiving hnone).imp fun _ hm => ⟨hle.trans hm.1, hm.2⟩, h.received⟩

theorem inv_init : Inv file flash startOffs (.init startOffs) where
  sound :=
    { holding := ⟨0, 0, stores_nil, .zero⟩
      receiving _ := ⟨0, Nat.le_refl 0, rfl, rfl, rfl, rfl, Nat.zero_le _, by decide, nofun,
        stores_nil, .zero⟩
      received := nofun }
  current_pos := Nat.le_refl 1
  sent := nofun
  current_le _ := Nat.le_refl 1

/-- A round of the receiver preserves the invariant if it is sound for a receiver at
work. One that has returned does nothing. -/
theorem Inv.receive (h : Inv file flash startOffs t) (ackErr : Option ℤ) (recv : Recv)
    (hround : ∀ m, Receiving file flash startOffs t.receiver m → t.current ≤ m + 1 →
      Sound file flash startOffs m (t.receiver.round flash startOffs
        (u32 (startOffs + maxImageSize)) ackErr recv)) :
    Inv file flash startOffs
      { t with receiver := TftpOta.receive flash startOffs t.receiver ackErr recv } := by
  rw [TftpOta.receive, Receiver.receiveData]
  split
  case isFalse => exact h
  case isTrue hresult =>
    obtain ⟨m, -, hreceiving⟩ := h.sound.receiving hresult
    have hcurrent := h.current_le hresult
    have hsound := hround m hreceiving (hreceiving.block ▸ hcurrent)
    refine ⟨hsound.weaken (Nat.zero_le m), h.current_pos, h.sent, fun hnone => ?_⟩
    obtain ⟨m', hle, hreceiving'⟩ := hsound.receiving hnone
    have hblock := hreceiving.block
    have hblock' := hreceiving'.block
    dsimp only
    omega

variable (hstart : startOffs % sectorSize = 0) (hslot : startOffs + maxImageSize ≤ 2 ^ 28)
  (hwords : file.length % 4 = 0)

include hstart hslot hwords

theorem Inv.step (h : Inv file flash startOffs t) (event : Event) :
    Inv file flash startOffs (step file flash startOffs t event) := by
  cases event with
  | send =>
    refine ⟨h.sound, h.current_pos, fun n hn => ?_, h.current_le⟩
    rcases List.mem_cons.mp hn with rfl | hold
    · exact ⟨h.current_pos, Nat.le_refl _⟩
    · exact h.sent n hold
  | ackArrives block =>
    rw [TftpOta.step]
    split
    case isFalse => exact h
    case isTrue hack =>
      refine ⟨h.sound, Nat.le_succ_of_le h.current_pos, fun n hn => ?_, fun hnone => ?_⟩
      · exact ⟨(h.sent n hn).1, Nat.le_succ_of_le (h.sent n hn).2⟩
      · -- the acknowledged number is below the counter, and neither has wrapped
        obtain ⟨m, -, hreceiving⟩ := h.sound.receiving hnone
        have hacked := hreceiving.acks block hack.1
        have hcurrent := h.current_le hnone
        have hblock := hreceiving.block
        have hsmall := hreceiving.small
        have hnumber := hack.2.1
        dsimp only
        omega
  | packetArrives n address ackErr =>
    rw [TftpOta.step]
    split
    case isFalse => exact h
    case isTrue hsent =>
      refine h.receive ackErr _ fun m hreceiving hcurrent => ?_
      exact hreceiving.receivePacket hstart hslot hwords ((h.sent n hsent).2.trans hcurrent)
        address ackErr
  | requestArrives fields address =>
    -- its opcode is not that of a block
    refine h.receive none _ fun m hreceiving _ => ?_
    rw [Receiver.round, Receiver.receivePacket, if_pos (by simp [netbufReadU16N]; decide)]
    exact hreceiving.holding.stopped .val nofun rfl rfl
  | timeout => exact h.receive none .timeout fun m hreceiving _ => hreceiving.round_timeout _
  | recvFails code =>
    exact h.receive none (.failed code) fun m hreceiving _ =>
      hreceiving.holding.stopped (.lwip code) nofun rfl rfl

/-- Whatever the network does, the receiver stores the file block by block and returns
`ERR_OK` only when it has all of it, if the numbers of its sectors have 16 bits. -/
theorem transfer_stores_file (events : List Event) :
    StoresFile file flash startOffs
      (run (step file flash startOffs) (.init startOffs) events).receiver := by
  have hinv : Inv file flash startOffs
      (run (step file flash startOffs) (.init startOffs) events) :=
    run_invariant (fun t event h _ => h.step hstart hslot hwords event) inv_init (along_true _ _)
  obtain ⟨m, count, hholding⟩ := hinv.sound.holding
  exact ⟨⟨m, hholding.blocks⟩, hholding.stores.nodup_erased, hholding.stores.erasedFirst,
    hinv.sound.received⟩

end Run

/-- An image of one section as a file. -/
def wordFile : List UInt8 := wordImage.body.bytes ++ List.replicate 11 0xff ++ [0xeb]

/-- The block is sent twice, both copies arrive, and so does the acknowledgement. -/
theorem transfer_stores_file_word :
    let t := run (step wordFile (fun _ => 0) 0x2000) (.init 0x2000)
      [.send, .send, .packetArrives 1 2 none, .packetArrives 1 0 none, .ackArrives 1]
    t.receiver.result = some .ok ∧ StoresFile wordFile (fun _ => 0) 0x2000 t.receiver := by
  exact ⟨by decide +kernel, transfer_stores_file (by decide) (by decide) (by decide) _⟩

/-- Beyond 256 MB the first block goes to a sector that is not the one erased for it. -/
theorem far_slot_not_erased :
    ¬StoresFile (List.replicate 512 0) (fun _ => 0) (2 ^ 28)
      (run (step (List.replicate 512 0) (fun _ => 0) (2 ^ 28)) (.init (2 ^ 28))
        [.send, .packetArrives 1 0 none]).receiver := by
  intro h
  have hops : (run (step (List.replicate 512 0) (fun _ => 0) (2 ^ 28)) (.init (2 ^ 28))
      [.send, .packetArrives 1 0 none]).receiver.ops =
        [.erase 0, .write ⟨2 ^ 28, List.replicate 512 0⟩] := by decide +kernel
  have herased := h.erasedFirst
  rw [hops] at herased
  have hmem := herased [.erase 0] ⟨2 ^ 28, List.replicate 512 0⟩ [] rfl 0
    (by rw [List.length_replicate]; decide)
  simp [erased, sectorSize] at hmem

end EspOpenRtos.TftpOta
