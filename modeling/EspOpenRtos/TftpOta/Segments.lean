/-
# Datagrams in segments

A datagram may have any length and consist of any number of segments, each at any address
in memory. `tftp_receive_data` writes one segment after the other, with 16-bit lengths and
under assumptions that it does not check. Here it handles whatever comes, and the lengths
that it passes on are kept beside its operations on the flash.

As long as each segment meets the assumptions, nothing leaves the slot. On datagrams of one
segment that consists of words this is the receiver of `Receiver`.
-/

import EspOpenRtos.Math.Runs
import EspOpenRtos.TftpOta.Receiver

namespace EspOpenRtos.TftpOta

open Math.NorFlash Math.Runs Math.SectorWrites Rboot

/-! ## Received datagrams -/

/-- Where a segment lies in memory, and its length. -/
structure Segment where
  address : ℕ
  length : ℕ

/-- A datagram, the memory it lies in, and what is on the stack where its fields are
copied to. -/
structure Netbuf where
  ram : Image
  first : Segment
  rest : List Segment
  stack : Image
  length_le : first.length + (rest.map Segment.length).sum ≤ 65507

namespace Netbuf

/-- `netbuf_len`. -/
def len (n : Netbuf) : ℕ := n.first.length + (n.rest.map Segment.length).sum

def bytes (n : Netbuf) : List UInt8 :=
  (n.first :: n.rest).flatMap fun s => read n.ram s.address s.length

/-- A byte of a field that `netbuf_copy_partial` has copied, if the datagram has it. -/
def fieldByte (n : Netbuf) (offs : ℕ) : UInt8 := n.bytes.getD offs (n.stack offs)

/-- `netbuf_read_u16_n`. -/
def readU16N (n : Netbuf) (offs : ℕ) : ℕ :=
  (n.fieldByte offs).toNat * 2 ^ 8 + (n.fieldByte (offs + 1)).toNat

end Netbuf

/-! ## Writing the segments -/

/-- `LWIP_MEM_ALIGN`. -/
def lwipMemAlign (address : ℕ) : ℕ := (address + 3) / 4 * 4

def memmove (ram : Image) (dest src size : ℕ) : Image := fun a =>
  if dest ≤ a ∧ a < dest + size then ram (src + (a - dest)) else ram a

/-- `sdk_spi_flash_write`, which rounds the size up. -/
def sdkSpiFlashWrite (ram : Image) (addr src size : ℕ) : FlashOp :=
  .write ⟨u32 addr, read ram src (roundUp4 size)⟩

/-- A length that is passed to `memmove` or `sdk_spi_flash_write`, and how many bytes of
payload were left in the segment. -/
structure Length where
  size : ℕ
  remaining : ℕ
  deriving DecidableEq

/-- The variables of the loop over the segments. -/
structure Writes where
  ram : Image
  offset : ℕ
  ops : List FlashOp
  lengths : List Length

/-- A round of the loop over the segments, which skips the header in the first one. -/
def writeSegment (writeOffs header : ℕ) (w : Writes) (s : Segment) : Writes :=
  let chunk := s.address + header
  let chunkLen := (s.length + 2 ^ 16 - header) % 2 ^ 16
  let remaining := s.length - header
  if chunkLen ≠ 0 ∧ chunk % 4 ≠ 0 then
    let moved := (chunkLen + 2 ^ 32 - 4) % 2 ^ 32
    let ram := memmove w.ram (lwipMemAlign chunk) (chunk + 4) moved
    let restLen := (chunkLen + 2 ^ 16 - 4) % 2 ^ 16
    { ram := ram
      offset := w.offset + 4 + restLen
      ops := w.ops ++ [sdkSpiFlashWrite w.ram (writeOffs + w.offset) chunk 4,
        sdkSpiFlashWrite ram (writeOffs + (w.offset + 4)) (lwipMemAlign chunk) restLen]
      lengths := w.lengths ++ [⟨4, remaining⟩, ⟨moved, remaining - 4⟩, ⟨restLen, remaining - 4⟩] }
  else
    { w with
      offset := w.offset + chunkLen
      ops := w.ops ++ [sdkSpiFlashWrite w.ram (writeOffs + w.offset) chunk chunkLen]
      lengths := w.lengths ++ [⟨chunkLen, remaining⟩] }

/-- The loop over the segments. -/
def writeSegments (writeOffs : ℕ) (n : Netbuf) : Writes :=
  n.rest.foldl (writeSegment writeOffs 0) (writeSegment writeOffs 4 ⟨n.ram, 0, [], []⟩ n.first)

/-! ## The receiver -/

/-- A receiver and the lengths it has passed on. -/
structure Watched where
  receiver : Receiver
  lengths : List Length

/-- What happens in a round. Sending the acknowledgement of a new block may fail. -/
inductive Arrival
  | timeout
  | failed (code : ℤ)
  | netbuf (n : Netbuf) (ackErr : Option ℤ)

/-- The datagram is a block that the receiver waits for. -/
def Receiver.Expects (r : Receiver) (n : Netbuf) : Prop :=
  n.readU16N 0 = tftpOpData ∧ n.readU16N 2 = r.block

namespace Watched

variable (flash : Image) (startOffs limitOffs : ℕ)

/-- The part of a round behind the check of the block number. -/
def storeNetbuf (w : Watched) (n : Netbuf) (ackErr : Option ℤ) : Watched :=
  let r := Receiver.eraseSector { w.receiver with retries := tftpTimeoutRetransmits }
  if u32 (r.writeOffs + n.len) ≥ limitOffs then
    { w with receiver := r.fail tftpErrFull "Image too large" .val }
  else
    let written := writeSegments r.writeOffs n
    let r := r.perform written.ops
    let r := { r with receivedLen := u32 (r.receivedLen + 2 ^ 32 + n.len - 4) }
    ⟨r.finishBlock flash startOffs n.len ackErr, w.lengths ++ written.lengths⟩

/-- A round in which a datagram comes. -/
def receiveNetbuf (w : Watched) (n : Netbuf) (ackErr : Option ℤ) : Watched :=
  if n.readU16N 0 ≠ tftpOpData then
    { w with receiver := w.receiver.fail tftpErrIllegal "Unknown opcode" .val }
  else if n.readU16N 2 ≠ w.receiver.block then
    if n.readU16N 2 + 1 = w.receiver.block then
      { w with receiver := w.receiver.sendAck (w.receiver.block - 1) }
    else { w with receiver := w.receiver.fail tftpErrIllegal "Block# out of order" .val }
  else w.storeNetbuf flash startOffs limitOffs n ackErr

/-- `tftp_receive_data`, as far as the next call to `netconn_recv`. -/
def receiveData (w : Watched) (arrival : Arrival) : Watched :=
  if w.receiver.result = none then
    match arrival with
    | .timeout =>
      { w with receiver := w.receiver.round flash startOffs limitOffs none .timeout }
    | .failed code =>
      { w with receiver := w.receiver.round flash startOffs limitOffs none (.failed code) }
    | .netbuf n ackErr => w.receiveNetbuf flash startOffs limitOffs n ackErr
  else w

/-- Before the first packet. -/
def init (startOffs : ℕ) : Watched := ⟨.init startOffs, []⟩

/-- After a number of rounds, with the limit that `tftp_task` gives. -/
def reached (flash : Image) (startOffs : ℕ) (arrivals : List Arrival) : Watched :=
  run (receiveData flash startOffs (startOffs + maxImageSize)) (init startOffs) arrivals

end Watched

/-! ## What should hold -/

/-- No more is passed on than the segment has left. -/
def Length.Fits (l : Length) : Prop := l.size ≤ roundUp4 l.remaining

/-- The operations stay inside the slot and the lengths inside their segments. -/
structure Contained (startOffs : ℕ) (ops : List FlashOp) (lengths : List Length) : Prop where
  inside : ∀ op ∈ ops, op.Inside sectorSize startOffs (startOffs + maxImageSize)
  fits : ∀ l ∈ lengths, l.Fits

/-- What the source assumes of a segment: it holds the header, and a payload at an address
that is not aligned has at least a word. -/
def Segment.Regular (header : ℕ) (s : Segment) : Prop :=
  header ≤ s.length ∧
    ((s.address + header) % 4 = 0 ∨ s.length = header ∨ header + 4 ≤ s.length)

def Netbuf.Regular (n : Netbuf) : Prop := n.first.Regular 4 ∧ ∀ s ∈ n.rest, s.Regular 0

/-- A block that the receiver waits for has a sector number of 16 bits, and if there is room
for it then its segments are as the source assumes. -/
def Admissible (startOffs : ℕ) (w : Watched) : Arrival → Prop
  | .netbuf n _ => w.receiver.result = none → w.receiver.Expects n →
      w.receiver.writeOffs < 2 ^ 28 ∧
        (w.receiver.writeOffs + n.len < startOffs + maxImageSize → n.Regular)
  | _ => True

/-! ## The loop over the segments -/

section Loop

variable {startOffs writeOffs : ℕ}

theorem contained_nil (startOffs : ℕ) : Contained startOffs [] [] := ⟨nofun, nofun⟩

theorem Contained.append {ops more : List FlashOp} {lengths others : List Length}
    (h : Contained startOffs ops lengths) (h' : Contained startOffs more others) :
    Contained startOffs (ops ++ more) (lengths ++ others) where
  inside op hmem := (List.mem_append.mp hmem).elim (h.inside op) (h'.inside op)
  fits l hmem := (List.mem_append.mp hmem).elim (h.fits l) (h'.fits l)

/-- A write whose rounded end lies in the slot. -/
theorem inside_write {addr size : ℕ} (hlow : startOffs ≤ addr) (hroom : startOffs + maxImageSize < 2 ^ 32)
    (hend : addr + size + 3 ≤ startOffs + maxImageSize) (ram : Image) (src : ℕ) :
    (sdkSpiFlashWrite ram addr src size).Inside sectorSize startOffs (startOffs + maxImageSize) := by
  simp only [sdkSpiFlashWrite, FlashOp.Inside, length_read, roundUp4, u32]
  omega

/-- A regular segment is written as it is. -/
theorem writeSegment_spec {header : ℕ} {s : Segment} (w : Writes) (hregular : s.Regular header)
    (hheader : header ≤ 4) (hshort : s.length < 2 ^ 16) (hlow : startOffs ≤ writeOffs)
    (hroom : startOffs + maxImageSize < 2 ^ 32)
    (hend : writeOffs + w.offset + (s.length - header) + 3 ≤ startOffs + maxImageSize)
    (h : Contained startOffs w.ops w.lengths) :
    (writeSegment writeOffs header w s).offset = w.offset + (s.length - header) ∧
      Contained startOffs (writeSegment writeOffs header w s).ops
        (writeSegment writeOffs header w s).lengths := by
  obtain ⟨hholds, haligned⟩ := hregular
  have hlen : (s.length + 2 ^ 16 - header) % 2 ^ 16 = s.length - header := by omega
  rw [writeSegment, hlen]
  split
  case isTrue hunaligned =>
    have hmoved : (s.length - header + 2 ^ 32 - 4) % 2 ^ 32 = s.length - header - 4 := by omega
    have hrest : (s.length - header + 2 ^ 16 - 4) % 2 ^ 16 = s.length - header - 4 := by omega
    rw [hmoved, hrest]
    refine ⟨by dsimp only; omega, h.append ⟨?_, ?_⟩⟩
    · simp only [List.forall_mem_cons]
      exact ⟨inside_write (by omega) hroom (by omega) _ _,
        inside_write (by omega) hroom (by omega) _ _, by simp⟩
    · simp only [List.forall_mem_cons, Length.Fits, roundUp4]
      exact ⟨by omega, by omega, by omega, by simp⟩
  case isFalse =>
    refine ⟨rfl, h.append ⟨?_, ?_⟩⟩
    · simp only [List.forall_mem_cons]
      exact ⟨inside_write (by omega) hroom (by omega) _ _, by simp⟩
    · simp only [List.forall_mem_cons, Length.Fits, roundUp4]
      exact ⟨by omega, by simp⟩

/-- Regular segments behind the first one. -/
theorem foldl_writeSegment {segments : List Segment} (w : Writes)
    (hregular : ∀ s ∈ segments, s.Regular 0) (hlow : startOffs ≤ writeOffs)
    (hroom : startOffs + maxImageSize < 2 ^ 32)
    (hshort : (segments.map Segment.length).sum < 2 ^ 16)
    (hend : writeOffs + w.offset + (segments.map Segment.length).sum + 3 ≤
      startOffs + maxImageSize)
    (h : Contained startOffs w.ops w.lengths) :
    Contained startOffs (segments.foldl (writeSegment writeOffs 0) w).ops
      (segments.foldl (writeSegment writeOffs 0) w).lengths := by
  induction segments generalizing w with
  | nil => exact h
  | cons s segments ih =>
    rw [List.map_cons, List.sum_cons] at hshort hend
    obtain ⟨hs, hsegments⟩ := List.forall_mem_cons.mp hregular
    obtain ⟨hoffset, hcontained⟩ :=
      writeSegment_spec w hs (Nat.zero_le 4) (by omega) hlow hroom (by omega) h
    rw [List.foldl_cons]
    refine ih (writeSegment writeOffs 0 w s) hsegments (by omega) ?_ hcontained
    rw [hoffset]
    omega

/-- The loop writes a regular datagram inside the slot. -/
theorem writeSegments_contained {n : Netbuf} (hregular : n.Regular) (hlow : startOffs ≤ writeOffs)
    (hroom : startOffs + maxImageSize < 2 ^ 32)
    (hend : writeOffs + n.len < startOffs + maxImageSize) :
    Contained startOffs (writeSegments writeOffs n).ops (writeSegments writeOffs n).lengths := by
  have hlength := n.length_le
  have hfirst := hregular.1.1
  rw [Netbuf.len] at hend
  obtain ⟨hoffset, hcontained⟩ := writeSegment_spec ⟨n.ram, 0, [], []⟩ hregular.1
    (Nat.le_refl 4) (by omega) hlow hroom (by dsimp only; omega) (contained_nil startOffs)
  refine foldl_writeSegment _ hregular.2 hlow hroom (by omega) ?_ hcontained
  rw [hoffset]
  dsimp only
  omega

end Loop

/-! ## Rounds and runs -/

/-- What the part of a round behind the writes may change. -/
structure Finishes (r : Receiver) (len : ℕ) (r' : Receiver) : Prop where
  ops : r'.ops = r.ops
  receivedLen : r'.receivedLen = r.receivedLen
  next : r'.result = none →
    dataPacketSz ≤ len ∧ r'.block = r.block + 1 ∧ r'.writeOffs = u32 (r.writeOffs + 512)

section Finish

variable {flash : Image} {startOffs : ℕ}

theorem finishes_stopped {r r' : Receiver} {len : ℕ} {err : Err} (hops : r'.ops = r.ops)
    (hreceived : r'.receivedLen = r.receivedLen) (hresult : r'.result = some err) :
    Finishes r len r' :=
  ⟨hops, hreceived, fun h => nomatch hresult.symm.trans h⟩

theorem finishes_acknowledge (r : Receiver) (len : ℕ) (ackErr : Option ℤ) :
    Finishes r len (r.acknowledge len ackErr) := by
  cases ackErr with
  | some code => exact finishes_stopped rfl rfl rfl
  | none =>
    rw [Receiver.acknowledge]
    split
    · exact finishes_stopped rfl rfl rfl
    · next hlen => exact ⟨rfl, rfl, fun _ => ⟨not_lt.mp hlen, rfl, rfl⟩⟩

theorem finishes_finishBlock (r : Receiver) (len : ℕ) (ackErr : Option ℤ) :
    Finishes r len (r.finishBlock flash startOffs len ackErr) := by
  rw [Receiver.finishBlock]
  split
  · split
    · split
      · exact finishes_stopped rfl rfl rfl
      · exact finishes_acknowledge r len ackErr
    · exact finishes_stopped rfl rfl rfl
  · exact finishes_acknowledge r len ackErr

end Finish

/-- A receiver between two rounds. -/
structure Waiting (startOffs : ℕ) (r : Receiver) : Prop where
  pos : 1 ≤ r.block
  writeOffs : r.writeOffs = startOffs + 512 * (r.block - 1)
  below : r.writeOffs < startOffs + maxImageSize
  receivedLen : r.receivedLen ≤ 65503 * (r.block - 1)

structure Watched.Safe (startOffs : ℕ) (w : Watched) : Prop where
  contained : Contained startOffs w.receiver.ops w.lengths
  waiting : w.receiver.result = none → Waiting startOffs w.receiver

/-- A round keeps what is safe and takes nothing back. -/
structure Advances (startOffs : ℕ) (w w' : Watched) : Prop where
  safe : w'.Safe startOffs
  receivedLen : w.receiver.receivedLen ≤ w'.receiver.receivedLen

theorem Advances.trans {startOffs : ℕ} {w w' w'' : Watched} (h : Advances startOffs w w')
    (h' : Advances startOffs w' w'') : Advances startOffs w w'' :=
  ⟨h'.safe, h.receivedLen.trans h'.receivedLen⟩

section Round

variable {flash : Image} {startOffs : ℕ} {w : Watched}

/-- Sending a reply changes nothing else. -/
theorem Watched.Safe.reply (h : w.Safe startOffs) (hrunning : w.receiver.result = none)
    {r : Receiver} (hops : r.ops = w.receiver.ops) (hblock : r.block = w.receiver.block)
    (hoffs : r.writeOffs = w.receiver.writeOffs)
    (hreceived : r.receivedLen = w.receiver.receivedLen) :
    Advances startOffs w { w with receiver := r } where
  safe :=
    { contained := by
        change Contained startOffs r.ops w.lengths
        rw [hops]
        exact h.contained
      waiting := fun _ => by
        obtain ⟨hpos, hwrite, hbelow, hlen⟩ := h.waiting hrunning
        constructor
        · rwa [hblock]
        · rwa [hoffs, hblock]
        · rwa [hoffs]
        · rwa [hreceived, hblock] }
  receivedLen := hreceived.ge

/-- The sector of the next block lies in the slot. -/
theorem inside_erase (hstart : startOffs % sectorSize = 0) {r : Receiver}
    (hwaiting : Waiting startOffs r) (hsmall : r.writeOffs < 2 ^ 28)
    (hdue : r.writeOffs % sectorSize = 0) :
    (FlashOp.erase (r.writeOffs / sectorSize % 2 ^ 16)).Inside sectorSize startOffs
      (startOffs + maxImageSize) := by
  have hoffs := hwaiting.writeOffs
  have hbelow := hwaiting.below
  rw [sectorSize] at *
  rw [maxImageSize] at *
  rw [FlashOp.Inside]
  omega

/-- Erasing the next sector, if it is due. -/
theorem eraseSector_eq (hstart : startOffs % sectorSize = 0) {r : Receiver}
    (hwaiting : Waiting startOffs r) (hsmall : r.writeOffs < 2 ^ 28) :
    ∃ erases, r.eraseSector = r.perform erases ∧
      ∀ op ∈ erases, op.Inside sectorSize startOffs (startOffs + maxImageSize) := by
  rw [Receiver.eraseSector]
  split
  case isTrue hdue =>
    exact ⟨_, rfl, List.forall_mem_singleton.mpr (inside_erase hstart hwaiting hsmall hdue)⟩
  case isFalse => exact ⟨[], by rw [Receiver.perform, List.append_nil], nofun⟩

/-- A block that has been stored is the last one, or there is room for the next. -/
theorem safe_finishBlock {r : Receiver} {lengths : List Length} {len : ℕ}
    (hcontained : Contained startOffs r.ops lengths) (hpos : 1 ≤ r.block)
    (hoffs : r.writeOffs = startOffs + 512 * (r.block - 1)) (hsmall : r.writeOffs < 2 ^ 28)
    (hfits : r.writeOffs + len < startOffs + maxImageSize)
    (hreceived : r.receivedLen ≤ 65503 * r.block) (ackErr : Option ℤ) :
    Watched.Safe startOffs ⟨r.finishBlock flash startOffs len ackErr, lengths⟩ := by
  obtain ⟨hops, hsame, hnext⟩ : Finishes r len (r.finishBlock flash startOffs len ackErr) :=
    finishes_finishBlock r len ackErr
  constructor
  · dsimp only
    rwa [hops]
  · intro hrunning
    obtain ⟨hfull, hblock, hwrite⟩ := hnext hrunning
    have hlarge : 512 < len := Nat.lt_of_lt_of_le (by decide) hfull
    rw [u32, Nat.mod_eq_of_lt (by omega)] at hwrite
    constructor
    · rw [hblock]
      omega
    · rw [hwrite, hblock]
      omega
    · rw [hwrite]
      omega
    · rwa [hsame, hblock, Nat.add_sub_cancel]

theorem Watched.Safe.storeNetbuf (h : w.Safe startOffs) (hstart : startOffs % sectorSize = 0)
    (hrunning : w.receiver.result = none) {n : Netbuf} (hsmall : w.receiver.writeOffs < 2 ^ 28)
    (hregular : w.receiver.writeOffs + n.len < startOffs + maxImageSize → n.Regular)
    (ackErr : Option ℤ) :
    Advances startOffs w
      (w.storeNetbuf flash startOffs (startOffs + maxImageSize) n ackErr) := by
  obtain ⟨hpos, hoffs, hbelow, hreceived⟩ := h.waiting hrunning
  obtain ⟨erases, herase, hinside⟩ := eraseSector_eq hstart
    (⟨hpos, hoffs, hbelow, hreceived⟩ :
      Waiting startOffs { w.receiver with retries := tftpTimeoutRetransmits }) hsmall
  have herased := h.contained.append (⟨hinside, nofun⟩ : Contained startOffs erases [])
  rw [List.append_nil] at herased
  rw [Watched.storeNetbuf, herase]
  split
  case isTrue => exact ⟨⟨herased, nofun⟩, Nat.le_refl _⟩
  case isFalse hfits =>
    have hfits : u32 (w.receiver.writeOffs + n.len) < startOffs + maxImageSize := not_le.mp hfits
    have hmax : maxImageSize = 2 ^ 20 := rfl
    have hlength : n.len ≤ 65507 := n.length_le
    rw [u32, Nat.mod_eq_of_lt (by omega)] at hfits
    have hheader : 4 ≤ n.len := (hregular hfits).1.1.trans (Nat.le_add_right _ _)
    have hcontained := herased.append
      (writeSegments_contained (hregular hfits) (by omega) (by omega) hfits)
    have hsum : u32 (w.receiver.receivedLen + 2 ^ 32 + n.len - 4) =
        w.receiver.receivedLen + (n.len - 4) := by
      rw [u32]
      omega
    constructor
    · apply safe_finishBlock
      · exact hcontained
      · exact hpos
      · exact hoffs
      · exact hsmall
      · exact hfits
      · refine hsum.le.trans ?_
        dsimp only [Receiver.perform]
        omega
    · rw [(finishes_finishBlock _ _ _).receivedLen]
      exact (Nat.le_add_right _ _).trans hsum.ge

theorem Watched.Safe.receiveData (h : w.Safe startOffs) (hstart : startOffs % sectorSize = 0)
    {arrival : Arrival} (hadmissible : Admissible startOffs w arrival) :
    Advances startOffs w
      (w.receiveData flash startOffs (startOffs + maxImageSize) arrival) := by
  unfold Watched.receiveData
  split
  case isFalse => exact ⟨h, Nat.le_refl _⟩
  case isTrue hrunning =>
    cases arrival with
    | timeout =>
      dsimp only
      rw [Receiver.round]
      split
      · exact h.reply hrunning rfl rfl rfl rfl
      · exact h.reply hrunning rfl rfl rfl rfl
    | failed code => exact h.reply hrunning rfl rfl rfl rfl
    | netbuf n ackErr =>
      dsimp only
      rw [Watched.receiveNetbuf]
      split
      · exact h.reply hrunning rfl rfl rfl rfl
      · next hopcode =>
          split
          · split
            · exact h.reply hrunning rfl rfl rfl rfl
            · exact h.reply hrunning rfl rfl rfl rfl
          · next hblock =>
              obtain ⟨hsmall, hregular⟩ :=
                hadmissible hrunning ⟨not_not.mp hopcode, not_not.mp hblock⟩
              exact h.storeNetbuf hstart hrunning hsmall hregular ackErr

theorem safe_init (startOffs : ℕ) : (Watched.init startOffs).Safe startOffs where
  contained := contained_nil startOffs
  waiting _ := ⟨Nat.le_refl 1, rfl, Nat.lt_add_of_pos_right (by decide), Nat.zero_le _⟩

end Round

/-- Whatever arrives, as long as each block that is taken consists of regular segments, the
flash is touched inside the slot only, no length exceeds its segment, and the count of
received bytes never goes down. -/
theorem hostile_packets_contained (flash : Image) (startOffs : ℕ)
    (hstart : startOffs % sectorSize = 0) (before after : List Arrival)
    (hadmissible : Along (Watched.receiveData flash startOffs (startOffs + maxImageSize))
      (Admissible startOffs) (Watched.init startOffs) (before ++ after)) :
    Contained startOffs (Watched.reached flash startOffs (before ++ after)).receiver.ops
        (Watched.reached flash startOffs (before ++ after)).lengths ∧
      (Watched.reached flash startOffs before).receiver.receivedLen ≤
        (Watched.reached flash startOffs (before ++ after)).receiver.receivedLen := by
  obtain ⟨hbefore, hafter⟩ := along_append.mp hadmissible
  have hsafe : (Watched.reached flash startOffs before).Safe startOffs :=
    run_invariant (fun w arrival h hok => (h.receiveData hstart hok).safe) (safe_init startOffs)
      hbefore
  have hboth := run_invariant (P := Advances startOffs (Watched.reached flash startOffs before))
    (fun w arrival h hok => h.trans (h.safe.receiveData hstart hok)) ⟨hsafe, Nat.le_refl _⟩ hafter
  rw [Watched.reached, Watched.reached, run_append]
  exact ⟨hboth.safe.contained, hboth.receivedLen⟩

/-- A datagram with the first block in one segment at an odd word of memory. -/
def firstBlock (length : ℕ) (hlength : length ≤ 65507) : Netbuf where
  ram a := if a = 0x1003 then 3 else if a = 0x1005 then 1 else 0
  first := ⟨0x1002, length⟩
  rest := []
  stack _ := 0
  length_le := hlength

theorem hostile_packets_contained_word :
    Contained 0x2000
        (Watched.reached (fun _ => 0) 0x2000 [.netbuf (firstBlock 8 (by decide)) none]).receiver.ops
        (Watched.reached (fun _ => 0) 0x2000 [.netbuf (firstBlock 8 (by decide)) none]).lengths ∧
      (Watched.reached (fun _ => 0) 0x2000 []).receiver.receivedLen ≤
        (Watched.reached (fun _ => 0) 0x2000
          [.netbuf (firstBlock 8 (by decide)) none]).receiver.receivedLen :=
  hostile_packets_contained (fun _ => 0) 0x2000 (by decide) []
    [.netbuf (firstBlock 8 (by decide)) none]
    ⟨fun _ _ => ⟨by decide, fun _ => ⟨by unfold Segment.Regular; decide, nofun⟩⟩, trivial⟩

/-- Two bytes of payload that are not aligned make `memmove` move almost all of memory. -/
theorem short_payload_moves_memory :
    ⟨2 ^ 32 - 2, 0⟩ ∈ (Watched.reached (fun _ => 0) 0x2000
        [.netbuf (firstBlock 6 (by decide)) none]).lengths ∧
      ¬Length.Fits ⟨2 ^ 32 - 2, 0⟩ := by
  have hlengths : (Watched.reached (fun _ => 0) 0x2000
      [.netbuf (firstBlock 6 (by decide)) none]).lengths =
        [⟨4, 2⟩, ⟨2 ^ 32 - 2, 0⟩, ⟨65534, 0⟩] := by decide +kernel
  rw [hlengths]
  exact ⟨by simp, by unfold Length.Fits; decide⟩

/-! ## Datagrams of one segment -/

section OneSegment

/-- The datagram is one segment with the given bytes at an address. -/
structure Netbuf.IsSegment (n : Netbuf) (data : List UInt8) (address : ℕ) : Prop where
  first : n.first = ⟨address, data.length⟩
  rest : n.rest = []
  stored : read n.ram address data.length = data

variable {n : Netbuf} {data : List UInt8} {address : ℕ}

theorem Netbuf.IsSegment.bytes (h : n.IsSegment data address) : n.bytes = data := by
  rw [Netbuf.bytes, h.first, h.rest, List.flatMap_singleton, h.stored]

theorem Netbuf.IsSegment.len (h : n.IsSegment data address) : n.len = data.length := by
  rw [Netbuf.len, h.first, h.rest]
  rfl

/-- A field that the datagram has is read without the stack. -/
theorem Netbuf.IsSegment.readU16N (h : n.IsSegment data address) {offs : ℕ}
    (hoffs : offs + 1 < data.length) : n.readU16N offs = netbufReadU16N data offs := by
  have hbyte {i : ℕ} (hi : i < data.length) : n.fieldByte i = data.getD i 0 := by
    rw [Netbuf.fieldByte, h.bytes, List.getD_eq_getElem _ _ hi, List.getD_eq_getElem _ _ hi]
  rw [Netbuf.readU16N, netbufReadU16N, hbyte (by omega), hbyte hoffs]

/-- Moving a payload does not change it. -/
theorem read_memmove (ram : Image) (dest src size : ℕ) :
    read (memmove ram dest src size) dest size = read ram src size := by
  apply List.map_congr_left
  intro i hi
  rw [List.mem_range] at hi
  rw [memmove, if_pos (by omega), Nat.add_sub_cancel_left]

/-- A payload of words is written as the receiver for one segment writes it. -/
theorem Netbuf.IsSegment.writeSegments (h : n.IsSegment data address) (hheader : 4 ≤ data.length)
    (hwords : (data.drop 4).length % 4 = 0) {writeOffs : ℕ}
    (hsmall : writeOffs + data.length < 2 ^ 32) :
    (writeSegments writeOffs n).ops = writeChunk writeOffs (data.drop 4) (address + 4) := by
  have hlength := n.length_le
  rw [h.first] at hlength
  have hlen : (data.length + 2 ^ 16 - 4) % 2 ^ 16 = data.length - 4 := by dsimp only at hlength; omega
  have hpayload : data.drop 4 = read n.ram (address + 4) (data.length - 4) := by
    rw [← drop_read hheader, h.stored]
  have hcond : (data.drop 4 ≠ [] ∧ (address + 4) % 4 ≠ 0) ↔
      data.length - 4 ≠ 0 ∧ (address + 4) % 4 ≠ 0 := by
    rw [ne_eq, ← List.length_eq_zero_iff, List.length_drop]
  rw [List.length_drop] at hwords
  rw [TftpOta.writeSegments, h.first, h.rest, List.foldl_nil, writeSegment, writeChunk]
  simp only [hlen, hcond]
  split
  case isTrue hunaligned =>
    have hmoved : (data.length - 4 + 2 ^ 32 - 4) % 2 ^ 32 = data.length - 4 - 4 := by omega
    have hrest : (data.length - 4 + 2 ^ 16 - 4) % 2 ^ 16 = data.length - 4 - 4 := by omega
    rw [hmoved, hrest, sdkSpiFlashWrite, sdkSpiFlashWrite, roundUp4_of_words (by omega),
      roundUp4_of_words (by omega), read_memmove, hpayload, take_read, drop_read (by omega),
      min_eq_left (by omega), u32, u32, Nat.mod_eq_of_lt (by omega), Nat.mod_eq_of_lt (by omega)]
    rfl
  case isFalse =>
    rw [sdkSpiFlashWrite, roundUp4_of_words hwords, ← hpayload, u32, Nat.mod_eq_of_lt (by omega)]
    rfl

variable (h : n.IsSegment data address) (hheader : 4 ≤ data.length)
  (hwords : (data.drop 4).length % 4 = 0) {w : Watched} (hsmall : w.receiver.writeOffs < 2 ^ 28)
  (hreceived : w.receiver.receivedLen + data.length < 2 ^ 32) (flash : Image)
  (startOffs limitOffs : ℕ)
include h hheader hwords hsmall hreceived

theorem Netbuf.IsSegment.storeNetbuf (ackErr : Option ℤ) :
    (w.storeNetbuf flash startOffs limitOffs n ackErr).receiver =
      w.receiver.storeBlock flash startOffs limitOffs data address ackErr := by
  have hlength : n.len ≤ 65507 := n.length_le
  rw [h.len] at hlength
  obtain ⟨r, herase, hoffs, hlen⟩ : ∃ r : Receiver,
      Receiver.eraseSector { w.receiver with retries := tftpTimeoutRetransmits } = r ∧
      r.writeOffs = w.receiver.writeOffs ∧ r.receivedLen = w.receiver.receivedLen := by
    rw [Receiver.eraseSector]
    split
    · exact ⟨_, rfl, rfl, rfl⟩
    · exact ⟨_, rfl, rfl, rfl⟩
  have hsum : u32 (r.receivedLen + 2 ^ 32 + data.length - 4) = r.receivedLen + (data.length - 4) := by
    rw [u32, hlen]
    omega
  rw [Watched.storeNetbuf, Receiver.storeBlock, herase, h.len,
    if_neg (not_not.mpr hwords), apply_ite Watched.receiver]
  dsimp only [Receiver.perform]
  rw [h.writeSegments hheader hwords (by omega), hsum]

/-- On a datagram of one segment that consists of words, the receiver is the one that takes
packets. -/
theorem Netbuf.IsSegment.receiveNetbuf_eq (ackErr : Option ℤ) :
    (w.receiveNetbuf flash startOffs limitOffs n ackErr).receiver =
      w.receiver.receivePacket flash startOffs limitOffs data address ackErr := by
  rw [Watched.receiveNetbuf, Receiver.receivePacket, h.readU16N (by omega), h.readU16N (by omega),
    apply_ite Watched.receiver, apply_ite Watched.receiver, apply_ite Watched.receiver,
    h.storeNetbuf hheader hwords hsmall hreceived flash startOffs limitOffs ackErr]

end OneSegment

theorem receiveNetbuf_word :
    (Watched.receiveNetbuf (fun _ => 0) 0x2000 0x102000 (.init 0x2000)
      (firstBlock 8 (by decide)) none).receiver =
    Receiver.receivePacket (fun _ => 0) 0x2000 0x102000 (.init 0x2000)
      [0, 3, 0, 1, 0, 0, 0, 0] 0x1002 none :=
  Netbuf.IsSegment.receiveNetbuf_eq ⟨rfl, rfl, by decide⟩ (by decide) rfl (by decide) (by decide) ..

end EspOpenRtos.TftpOta
