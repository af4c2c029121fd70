/-
# The public operations

`sysparam_set_data` is cut into the phases of its body: look the key up, make
room, write, delete the old value. Making room may compact up to once, at one of
three points, and the phases after it work with whatever key id and old-value
address the compaction left behind.

Memory allocation is taken to succeed, and the mutex is left out because calls
do not overlap.
-/

import EspOpenRtos.Sysparam.Write

namespace EspOpenRtos.Sysparam

/-! ## Creating and opening an area -/

/-- Read a region header. -/
def readRegionHeader (d : Device) (addr : ℕ) : Option RegionHeader :=
  (spiflashRead d addr regionHeaderSize).map RegionHeader.ofBytes

/-- The scan of `sysparam_init` for a sector that starts with the magic word. -/
def findHeader (d : Device) (addr topAddr : ℕ) : Option (Option (ℕ × RegionHeader)) :=
  if addr < topAddr then
    match readRegionHeader d addr with
    | none => none
    | some header =>
      if header.magic = sysparamMagic then some (some (addr, header))
      else findHeader d (addr + sectorSize) topAddr
  else some none
termination_by topAddr - addr
decreasing_by
  simp only [sectorSize]
  omega

/-- The end of `sysparam_init`: pick the active region and find the end of its
entries. -/
def openRegion (d : Device) (info : Info) (header0 : RegionHeader) (addr0 addr1 numSectors : ℕ) :
    Status × Sys :=
  let active := header0.flagsSize &&& regionFlagActive ≠ 0
  let regionSize := numSectors * sectorSize
  let curBase := if active then addr0 else addr1
  let altBase := if active then addr1 else addr0
  let info : Info :=
    { info with
      curBase := curBase
      altBase := altBase
      regionSize := regionSize
      endAddr := curBase + regionSize
      forceCompact := false }
  match findEntry d info (initContext info) entryIdEnd false with
  | (status, ctx, info) =>
    if status.isError then
      (status, ⟨d, { info with curBase := 0, altBase := 0, endAddr := 0 }⟩)
    else if status = .ok then (.ok, ⟨d, { info with endAddr := ctx.addr }⟩)
    else (.ok, ⟨d, info⟩)

/-- `sysparam_init`. -/
def sysparamInit (s : Sys) (baseAddr topAddr : ℕ) : Status × Sys :=
  let baseAddr := baseAddr - baseAddr % sectorSize
  let topAddr := if topAddr = 0 ∨ topAddr = baseAddr then baseAddr + sectorSize else topAddr
  match findHeader s.dev baseAddr topAddr with
  | none => (.errIo, s)
  | some none => (.notFound, s)
  | some (some (addr0, header0)) =>
    let numSectors := (header0.flagsSize &&& regionMaskSize).toNat
    let second := header0.flagsSize &&& regionFlagSecond
    -- address arithmetic is modulo 2 ^ 32
    let addr1 :=
      if second ≠ 0 then (addr0 + 2 ^ 32 - numSectors * sectorSize) % 2 ^ 32
      else (addr0 + numSectors * sectorSize) % 2 ^ 32
    match readRegionHeader s.dev addr1 with
    | none => (.errIo, s)
    | some header1 =>
      if header1.magic = sysparamMagic then
        if second = header1.flagsSize &&& regionFlagSecond then (.errCorrupt, s)
        else openRegion s.dev s.info header0 addr0 addr1 numSectors
      else if header0.flagsSize &&& regionFlagActive ≠ 0 then
        -- recreate the missing stale region
        match formatRegion s.dev addr1 numSectors with
        | (.ok, dev) =>
          match writeRegionHeader dev addr1 addr0 false with
          | (.ok, dev) => openRegion dev s.info header0 addr0 addr1 numSectors
          | (status, dev) => (status, { s with dev := dev })
        | (status, dev) => (status, { s with dev := dev })
      else (.errCorrupt, s)

/-- The emptiness scan of `sysparam_create_area`, eight words at a time. -/
def scanErased (d : Device) (addr topAddr : ℕ) : Status :=
  if addr < topAddr then
    match spiflashRead d addr 32 with
    | none => .errIo
    | some buffer =>
      if buffer.all (· == 0xFF) then scanErased d (addr + 32) topAddr else .notFound
  else .ok
termination_by topAddr - addr
decreasing_by omega

/-- `sysparam_create_area`. -/
def sysparamCreateArea (s : Sys) (baseAddr numSectors : ℕ) (force : Bool) : Status × Sys :=
  if numSectors < 1 ∨ numSectors % 2 = 1 then (.errBadValue, s)
  else
    let numSectors := numSectors / 2
    let regionSize := numSectors * sectorSize
    let scan := if force then .ok else scanErased s.dev baseAddr (baseAddr + regionSize * 2)
    if scan ≠ .ok then (scan, s)
    else
      let info :=
        if s.info.curBase = baseAddr ∨ s.info.altBase = baseAddr then ⟨0, 0, 0, 0, false⟩
        else s.info
      match formatRegion s.dev baseAddr numSectors with
      | (.ok, dev) =>
        match formatRegion dev (baseAddr + regionSize) numSectors with
        | (.ok, dev) =>
          match writeRegionHeader dev baseAddr (baseAddr + regionSize) true with
          | (.ok, dev) =>
            match writeRegionHeader dev (baseAddr + regionSize) baseAddr false with
            | (status, dev) => (status, ⟨dev, info⟩)
          | (status, dev) => (status, ⟨dev, info⟩)
        | (status, dev) => (status, ⟨dev, info⟩)
      | (status, dev) => (status, ⟨dev, info⟩)

/-- `sysparam_compact`. -/
def sysparamCompact (s : Sys) : Status × Sys :=
  if s.info.curBase = 0 then (.errNoInit, s)
  else
    let r := compactParams s none none
    (r.1, r.2.1)

/-! ## Reading -/

/-- What `sysparam_get_data` hands to its caller: the status and, on success,
the value and its binary flag. -/
abbrev GetResult := Status × Option (List UInt8 × Bool)

/-- `sysparam_get_data`. Searching may set the force-compaction flag. -/
def sysparamGetData (s : Sys) (key : List UInt8) : GetResult × Sys :=
  if s.info.curBase = 0 then ((.errNoInit, none), s)
  else
    match findKey s.dev s.info (initContext s.info) (some (key.take (key.length % 0x10000))) with
    | (.ok, ctx, info) =>
      match findValue s.dev info ctx ctx.entry.idflags with
      | (.ok, ctx, info) =>
        match readPayload s.dev ctx ctx.entry.len.toNat with
        | some buffer => ((.ok, some (buffer, ctx.entry.isBinary)), { s with info := info })
        | none => ((.errIo, none), { s with info := info })
      | (status, _, info) => ((status, none), { s with info := info })
    | (status, _, info) => ((status, none), { s with info := info })

/-! ## Writing -/

/-- The variables of `sysparam_set_data`. A missing key id is `-1` and a zero
old-value address means that there is no old value. -/
structure Setting where
  sys : Sys
  ctx : Context
  keyId : Option ℕ
  oldValueAddr : ℕ

/-- `if (status < 0) break;` -/
def breakOnError (r : Status × Setting) (next : Setting → Status × Setting) :
    Status × Setting :=
  if r.1.isError then r else next r.2

/-- Look for the key and its current value. -/
def lookupKey (s : Sys) (key : List UInt8) : Status × Setting :=
  match findKey s.dev s.info (initContext s.info) (some key) with
  | (.ok, ctx, info) =>
    match findValue s.dev info ctx (ctx.entry.idflags &&& entryMaskId) with
    | (status, valueCtx, info) =>
      (status, ⟨{ s with info := info }, valueCtx, some ctx.entry.id,
        if status = .ok then valueCtx.addr else 0⟩)
  | (status, ctx, info) => (status, ⟨{ s with info := info }, ctx, none, 0⟩)

/-- The value to be stored is the one that is already there. -/
def sameValue (t : Setting) (value : List UInt8) (isBinary : Bool) : Status :=
  if t.oldValueAddr ≠ 0 ∧ t.ctx.entry.isBinary = isBinary ∧
      t.ctx.entry.len.toNat = value.length then
    comparePayload t.sys.dev t.ctx value
  else .notFound

/-- Count the old value, which is about to be deleted, as compactable. -/
def countOldValue (t : Setting) : Setting :=
  if t.oldValueAddr ≠ 0 then
    { t with ctx := { t.ctx with
      compactable := t.ctx.compactable + entrySize t.ctx.entry.len.toNat } }
  else t

/-- The space behind the log. It wraps if the log ends outside the region. -/
def freeSpace (info : Info) : ℕ :=
  ((info.curBase + info.regionSize - info.endAddr : ℤ) % 2 ^ 32).toNat

theorem freeSpace_eq {info : Info} {n : ℕ}
    (hend : info.endAddr + n = info.curBase + info.regionSize) (hn : n < 2 ^ 32) :
    freeSpace info = n := by
  rw [freeSpace]
  omega

/-- The space a new value takes, with a key entry if there is none yet. -/
def neededSpace (t : Setting) (key value : List UInt8) : ℕ :=
  entrySize value.length + if t.keyId = none then entrySize key.length else 0

/-- Compact on behalf of the key being set. -/
def compactFor (t : Setting) : Status × Setting :=
  match compactParams t.sys (some t.ctx) t.keyId with
  | (status, sys, ctx, keyId) =>
    (status, { t with sys := sys, ctx := ctx.getD t.ctx, keyId := keyId })

/-- Compact and forget the old value, which was not copied. -/
def compactAway (t : Setting) : Status × Setting :=
  breakOnError (compactFor t) fun t => (.ok, { t with oldValueAddr := 0 })

/-- Scan the remaining entries, for an accurate count of what compacting would
gain. -/
def scanRest (t : Setting) : Setting :=
  match findEntry t.sys.dev t.sys.info t.ctx entryIdEnd false with
  | (_, ctx, info) => { t with sys := { t.sys with info := info }, ctx := ctx }

/-- Compacting is expected to gain enough, or gains an unknown amount because
there are keys without a value. -/
def worthCompacting (t : Setting) (needed : ℕ) : Bool :=
  needed ≤ freeSpace t.sys.info + t.ctx.compactable || 0 < t.ctx.unusedKeys

/-- Compact if the space at the end of the region does not suffice. -/
def makeRoom (t : Setting) (needed : ℕ) : Status × Setting :=
  if needed > freeSpace t.sys.info then
    let t := scanRest t
    if worthCompacting t needed then compactAway t else (.ok, t)
  else (.ok, t)

/-- Give up if there is still not enough space. -/
def checkSpace (t : Setting) (needed : ℕ) : Status × Setting :=
  if needed > freeSpace t.sys.info then (.errFull, t) else (.ok, t)

/-- Make sure that a new key can get an id. -/
def reserveKeyId (t : Setting) : Status × Setting :=
  if t.keyId = none ∧ t.ctx.maxKeyId ≥ maxKeyId then
    if 0 < t.ctx.unusedKeys then compactAway t else (.errFull, t)
  else (.ok, t)

/-- Compact if an inconsistency was noticed before. -/
def obeyForceCompact (t : Setting) : Status × Setting :=
  if t.sys.info.forceCompact then compactFor t else (.ok, t)

/-- Write the key entry, if there is none, and the value entry. -/
def writePair (t : Setting) (key value : List UInt8) (isBinary : Bool) : Status × Setting :=
  let writeAddr := t.sys.info.endAddr
  let binaryFlag := if isBinary then entryFlagBinary else 0
  let writeValue (sys : Sys) (writeAddr keyId : ℕ) : Status × Setting :=
    match writeEntry sys writeAddr (UInt16.ofNat keyId ||| entryFlagValue ||| binaryFlag) value with
    | (status, sys) =>
      if status.isError then (status, { t with sys := sys })
      else
        (status, { t with sys := { sys with
          info := { sys.info with endAddr := writeAddr + entrySize value.length } } })
  match t.keyId with
  | some keyId => writeValue t.sys writeAddr keyId
  | none =>
    let keyId := t.ctx.maxKeyId + 1
    match writeEntry t.sys writeAddr (UInt16.ofNat keyId) key with
    | (status, sys) =>
      if status.isError then (status, { t with sys := sys })
      else writeValue sys (writeAddr + entrySize key.length) keyId

/-- Delete the old value, if there is one. -/
def deleteOld (status : Status) (t : Setting) : Status × Setting :=
  if t.oldValueAddr ≠ 0 then
    match deleteEntry t.sys.dev t.oldValueAddr with
    | (status, dev) => (status, { t with sys := { t.sys with dev := dev } })
  else (status, t)

/-- Everything between the lookup and the write. -/
def prepare (t : Setting) (key value : List UInt8) : Status × Setting :=
  let needed := neededSpace t key value
  breakOnError (makeRoom t needed) fun t =>
    breakOnError (checkSpace t needed) fun t =>
      breakOnError (reserveKeyId t) obeyForceCompact

/-- Store a value that differs from the current one. -/
def storeValue (t : Setting) (key value : List UInt8) (isBinary : Bool) : Status × Setting :=
  breakOnError (prepare t key value) fun t =>
    let r := writePair t key value isBinary
    breakOnError r (deleteOld r.1)

/-- `sysparam_set_data`. An empty value deletes. -/
def sysparamSetData (s : Sys) (key value : List UInt8) (isBinary : Bool) : Status × Sys :=
  -- the key length is a 16-bit variable
  let key := key.take (key.length % 0x10000)
  if key.length = 0 then (.errBadValue, s)
  else if value.length > maxValueLen then (.errBadValue, s)
  else if s.info.curBase = 0 then (.errNoInit, s)
  else
    let r := lookupKey s key
    if r.1.isError then (r.1, r.2.sys)
    else if value = [] then
      let r := deleteOld r.1 r.2
      (r.1, r.2.sys)
    else
      match sameValue r.2 value isBinary with
      | .ok => (.ok, r.2.sys)
      | .notFound =>
        let r := storeValue (countOldValue r.2) key value isBinary
        (r.1, r.2.sys)
      | status => (status, r.2.sys)

end EspOpenRtos.Sysparam
