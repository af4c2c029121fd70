/-
# Writing entries, copying a region

An entry becomes part of the log in three steps: its header is written with the
invalid flag, then its payload, then the flag is cleared. Compaction copies the
live pairs of the active region into the other one and then switches the two
region headers, new one first.

`iterNext` belongs here because compaction reads the old region through it. Its
buffer grows to the largest pair seen so far and is always filled completely, so
it reads past the end of the entries.
-/

import EspOpenRtos.Sysparam.Scan

namespace EspOpenRtos.Sysparam

open Math.NorFlash

/-- `_write_and_verify`. -/
def writeAndVerify (d : Device) (addr : ℕ) (data : List UInt8) : Status × Device :=
  if _hempty : data = [] then (.ok, d)
  else
    let bounce := data.take bounceBufferSize
    match spiflashWrite d addr bounce with
    | (false, d) => (.errIo, d)
    | (true, d) =>
      match spiflashRead d addr bounce.length with
      | none => (.errIo, d)
      | some back =>
        if back ≠ bounce then (.errIo, d)
        else writeAndVerify d (addr + bounceBufferSize) (data.drop bounceBufferSize)
termination_by data.length
decreasing_by
  have := List.length_pos_iff.mpr _hempty
  simp only [List.length_drop, bounceBufferSize]
  omega

/-- `_format_region`: erase the sectors of a region in order. -/
def formatRegion (d : Device) (addr : ℕ) : ℕ → Status × Device
  | 0 => (.ok, d)
  | numSectors + 1 =>
    match spiflashEraseSector d addr with
    | (false, d) => (.errIo, d)
    | (true, d) => formatRegion d (addr + sectorSize) numSectors

/-- The `flags_size` field for a region whose other half is at `other`. -/
def regionFlags (addr other : ℕ) (active : Bool) : UInt16 :=
  let flags :=
    if addr < other then UInt16.ofNat ((other - addr) / sectorSize) &&& regionMaskSize
    else (UInt16.ofNat ((addr - other) / sectorSize) &&& regionMaskSize) ||| regionFlagSecond
  if active then flags ||| regionFlagActive else flags

/-- `_write_region_header`. After a failed write the header is zeroed. -/
def writeRegionHeader (d : Device) (addr other : ℕ) (active : Bool) : Status × Device :=
  let header : RegionHeader := ⟨sysparamMagic, regionFlags addr other active, 0⟩
  match writeAndVerify d addr header.bytes with
  | (.ok, d) => (.ok, d)
  | (_, d) => (.errIo, (writeAndVerify d addr (List.replicate regionHeaderSize 0)).2)

/-- Advance the end of the log if the write was made there. -/
def Info.grow (info : Info) (addr size : ℕ) : Info :=
  if info.endAddr = addr then { info with endAddr := info.endAddr + size } else info

@[simp]
theorem Info.grow_curBase (info : Info) (addr size : ℕ) :
    (info.grow addr size).curBase = info.curBase := by
  simp only [Info.grow]
  split_ifs <;> rfl

@[simp]
theorem Info.grow_regionSize (info : Info) (addr size : ℕ) :
    (info.grow addr size).regionSize = info.regionSize := by
  simp only [Info.grow]
  split_ifs <;> rfl

/-- `_write_entry`. If the initial header cannot be written it is zeroed, which
later reads take for a deleted entry without payload. -/
def writeEntry (s : Sys) (addr : ℕ) (id : UInt16) (payload : List UInt8) : Status × Sys :=
  let header : EntryHeader :=
    ⟨id ||| entryFlagAlive ||| entryFlagInvalid, UInt16.ofNat payload.length⟩
  match writeAndVerify s.dev addr header.bytes with
  | (.errIo, dev) =>
    match writeAndVerify dev addr (EntryHeader.bytes ⟨0, 0⟩) with
    | (.ok, dev) => (.errIo, ⟨dev, s.info.grow addr entryHeaderSize⟩)
    | (status, dev) => (status, ⟨dev, s.info⟩)
  | (.ok, dev) =>
    let info := s.info.grow addr (entrySize payload.length)
    match writeAndVerify dev (addr + entryHeaderSize) payload with
    | (.ok, dev) =>
      let valid := { header with idflags := header.idflags &&& ~~~entryFlagInvalid }
      match writeAndVerify dev addr valid.bytes with
      | (status, dev) => (status, ⟨dev, info⟩)
    | (status, dev) => (status, ⟨dev, info⟩)
  | (status, dev) => (status, ⟨dev, s.info⟩)

/-- `_delete_entry`. -/
def deleteEntry (d : Device) (addr : ℕ) : Status × Device :=
  match readEntryHeader d addr with
  | none => (.errIo, d)
  | some entry =>
    writeAndVerify d addr
      (EntryHeader.bytes { entry with idflags := entry.idflags &&& ~~~entryFlagAlive })

/-! ## Iteration -/

/-- `DEFAULT_ITER_BUF_SIZE`. -/
def defaultIterBufSize : ℕ := 64

/-- `sysparam_iter_t`. The key and value lengths are those of the lists. -/
structure Iter where
  key : List UInt8
  value : List UInt8
  binary : Bool
  bufsize : ℕ
  ctx : Context

/-- `sysparam_iter_start`. -/
def iterStart (info : Info) : Status × Iter :=
  if info.curBase = 0 then (.errNoInit, ⟨[], [], false, 0, initContext info⟩)
  else (.ok, ⟨[], [], false, defaultIterBufSize, initContext info⟩)

theorem ahead_of_info {info info' : Info}
    (h : info' = info ∨ info' = { info with forceCompact := true }) (ctx : Context) :
    ctx.ahead info' = ctx.ahead info := by
  rcases h with rfl | rfl <;> rfl

/-- `sysparam_iter_next`. Keys without a value are skipped. -/
def iterNext (d : Device) (info : Info) (iter : Iter) : Status × Iter × Info :=
  match _hkey : findKey d info iter.ctx none with
  | (.ok, ctx, info') =>
    match _hvalue : findValue d info' ctx ctx.entry.idflags with
    | (.ok, valueCtx, info'') =>
      let keySpace := ctx.entry.len.toNat + 1
      let requiredLen := keySpace + valueCtx.entry.len.toNat + 1
      let bufsize := if requiredLen > iter.bufsize then requiredLen else iter.bufsize
      match readPayload d ctx bufsize, readPayload d valueCtx (bufsize - keySpace) with
      | some keyBuf, some valueBuf =>
        (.ok, ⟨keyBuf.take ctx.entry.len.toNat, valueBuf.take valueCtx.entry.len.toNat,
          valueCtx.entry.isBinary, bufsize, ctx⟩, info'')
      | _, _ => (.errIo, { iter with bufsize := bufsize, ctx := ctx }, info'')
    | (.notFound, _, info'') => iterNext d info'' { iter with ctx := ctx }
    | (status, _, info'') => (status, { iter with ctx := ctx }, info'')
  | (status, ctx, info') => (status, { iter with ctx := ctx }, info')
termination_by iter.ctx.ahead info
decreasing_by
  have hmoved := findKey_ahead d info iter.ctx none (by rw [_hkey])
  rw [_hkey] at hmoved
  obtain ⟨hlt, rfl⟩ := hmoved
  have hinfo := findEntry_info d info' ctx (ctx.entry.idflags &&& entryMaskId).toNat true
  rw [← findValue, _hvalue] at hinfo
  exact (ahead_of_info hinfo ctx).trans_lt hlt

/-- A step of the iterator that succeeds has moved on, and changes nothing in
memory but the force-compaction flag. -/
theorem iterNext_ahead (d : Device) (info : Info) (iter : Iter)
    (found : (iterNext d info iter).1 = .ok) :
    (iterNext d info iter).2.1.ctx.ahead info < iter.ctx.ahead info ∧
      ((iterNext d info iter).2.2 = info ∨
        (iterNext d info iter).2.2 = { info with forceCompact := true }) := by
  -- the key search moves on; the value search may only set the flag
  have hstep {info info' : Info} {iter : Iter} {ctx : Context}
      (hkey : findKey d info iter.ctx none = (.ok, ctx, info')) :
      ctx.ahead info < iter.ctx.ahead info ∧ info' = info := by
    have hmoved := findKey_ahead d info iter.ctx none (by rw [hkey])
    rwa [hkey] at hmoved
  have hflag {info info'' : Info} {ctx valueCtx : Context} {status : Status}
      (hvalue : findValue d info ctx ctx.entry.idflags = (status, valueCtx, info'')) :
      info'' = info ∨ info'' = { info with forceCompact := true } := by
    have hinfo := findEntry_info d info ctx (ctx.entry.idflags &&& entryMaskId).toNat true
    rwa [← findValue, hvalue] at hinfo
  fun_induction iterNext d info iter with
  | case1 info iter ctx info' hkey valueCtx info'' hvalue =>
    obtain ⟨hlt, rfl⟩ := hstep hkey
    exact ⟨hlt, hflag hvalue⟩
  | case2 => simp at found
  | case3 info iter ctx info' hkey _ info'' hvalue ih =>
    obtain ⟨hlt, rfl⟩ := hstep hkey
    have hinfo := hflag hvalue
    obtain ⟨hnext, hrest⟩ := ih found
    rw [ahead_of_info hinfo, ahead_of_info hinfo] at hnext
    refine ⟨hnext.trans hlt, ?_⟩
    rcases hinfo with rfl | rfl
    · exact hrest
    · exact Or.inr (by simpa using hrest)
  | case4 info iter ctx info' hkey status _ info'' hstatus
  | case5 info iter status ctx info' hstatus =>
    exact absurd found hstatus

/-! ## Compaction -/

theorem writeEntry_curBase (s : Sys) (addr : ℕ) (id : UInt16) (payload : List UInt8) :
    (writeEntry s addr id payload).2.info.curBase = s.info.curBase := by
  unfold writeEntry
  simp only
  repeat' split
  all_goals simp

theorem writeEntry_regionSize (s : Sys) (addr : ℕ) (id : UInt16) (payload : List UInt8) :
    (writeEntry s addr id payload).2.info.regionSize = s.info.regionSize := by
  unfold writeEntry
  simp only
  repeat' split
  all_goals simp

/-- The variables of the copying loop. `keyId` is the key whose value is left
out; it is renumbered when that key is copied. -/
structure Copying where
  sys : Sys
  iter : Iter
  addr : ℕ
  currentKeyId : ℕ
  keyId : Option ℕ

/-- The copying loop of `_compact_params`. -/
def copyEntries (c : Copying) : Status × Copying :=
  match _hnext : iterNext c.sys.dev c.sys.info c.iter with
  | (.ok, iter, info) =>
    let currentKeyId := c.currentKeyId + 1
    match _hkey : writeEntry { c.sys with info := info } c.addr (UInt16.ofNat currentKeyId)
        iter.key with
    | (status, sys) =>
      let addr := c.addr + entrySize iter.key.length
      if status.isError then (status, { c with sys := sys, iter := iter })
      else if c.keyId = some iter.ctx.entry.id then
        -- the old value of this key is not copied
        copyEntries ⟨sys, iter, addr, currentKeyId, some currentKeyId⟩
      else
        let binaryFlag := if iter.binary then entryFlagBinary else 0
        match _hvalue : writeEntry sys addr
            (UInt16.ofNat currentKeyId ||| entryFlagValue ||| binaryFlag) iter.value with
        | (status, sys') =>
          if status.isError then (status, { c with sys := sys', iter := iter })
          else copyEntries
            ⟨sys', iter, addr + entrySize iter.value.length, currentKeyId, c.keyId⟩
  | (status, iter, info) =>
    (status, { c with sys := { c.sys with info := info }, iter := iter })
termination_by c.iter.ctx.ahead c.sys.info
decreasing_by
  all_goals
    have hmoved := iterNext_ahead c.sys.dev c.sys.info c.iter (by rw [_hnext])
    rw [_hnext] at hmoved
    obtain ⟨hlt, hinfo⟩ := hmoved
    have hbase := writeEntry_curBase { c.sys with info := info } c.addr
      (UInt16.ofNat currentKeyId) iter.key
    have hsize := writeEntry_regionSize { c.sys with info := info } c.addr
      (UInt16.ofNat currentKeyId) iter.key
    rw [_hkey] at hbase hsize
    rw [← ahead_of_info hinfo iter.ctx] at hlt
    simp only [Context.ahead] at hlt ⊢
  · rwa [hbase, hsize]
  · have hbase' := writeEntry_curBase sys addr
      (UInt16.ofNat currentKeyId ||| entryFlagValue ||| binaryFlag) iter.value
    have hsize' := writeEntry_regionSize sys addr
      (UInt16.ofNat currentKeyId ||| entryFlagValue ||| binaryFlag) iter.value
    rw [_hvalue] at hbase' hsize'
    rwa [hbase', hsize', hbase, hsize]

/-- The context after a compaction: nothing to gain, and the last id used. -/
def Context.compacted (addr lastKeyId : ℕ) : Context := ⟨addr, ⟨0, 0⟩, 0, 0, lastKeyId⟩

/-- `_compact_params`. Returns the context and key id that the caller sees
afterwards. -/
def compactParams (s : Sys) (ctx : Option Context) (keyId : Option ℕ) :
    Status × Sys × Option Context × Option ℕ :=
  let newBase := s.info.altBase
  match formatRegion s.dev newBase (s.info.regionSize / sectorSize) with
  | (.ok, dev) =>
    match iterStart s.info with
    | (.ok, iter) =>
      match copyEntries ⟨{ s with dev := dev }, iter, newBase + regionHeaderSize, 0, keyId⟩ with
      | (status, c) =>
        if status.isError then (status, c.sys, ctx, c.keyId)
        else
          -- switch to the new region: its header first, then the old one
          match writeRegionHeader c.sys.dev newBase c.sys.info.curBase true with
          | (.ok, dev) =>
            match writeRegionHeader dev c.sys.info.curBase newBase false with
            | (.ok, dev) =>
              (.ok,
                ⟨dev, { c.sys.info with
                  altBase := c.sys.info.curBase
                  curBase := newBase
                  endAddr := c.addr
                  forceCompact := false }⟩,
                ctx.map fun _ => Context.compacted c.addr c.currentKeyId, c.keyId)
            | (status, dev) => (status, { c.sys with dev := dev }, ctx, c.keyId)
          | (status, dev) => (status, { c.sys with dev := dev }, ctx, c.keyId)
    | (status, _) => (status, { s with dev := dev }, ctx, keyId)
  | (status, dev) => (status, { s with dev := dev }, ctx, keyId)

end EspOpenRtos.Sysparam
