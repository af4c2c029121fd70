/-
# Searching a region

Entries are packed one after the other behind the region header, so every
lookup is a walk over entry headers. `findEntry` is the one loop all lookups are
built from; it also gathers the counters that later decide about compaction.

The loops of the source have no bound. Each step of the walk moves to a strictly
larger address inside the region, or stops, which is what makes the definitions
below terminate for every flash content.
-/

import EspOpenRtos.Sysparam.Device

namespace EspOpenRtos.Sysparam

/-- `BOUNCE_BUFFER_SIZE`, in bytes. -/
def bounceBufferSize : ℕ := 12

/-- `_init_context`. -/
def initContext (info : Info) : Context := ⟨info.curBase, ⟨0, 0⟩, 0, 0, 0⟩

/-- Read an entry header. -/
def readEntryHeader (d : Device) (addr : ℕ) : Option EntryHeader :=
  (spiflashRead d addr entryHeaderSize).map EntryHeader.ofBytes

/-- Where the walk goes from a context. -/
inductive Advance
  /-- The current entry has an impossible length. -/
  | truncated
  /-- The current entry exactly fits the region. -/
  | full (addr : ℕ)
  /-- There may be an entry at this address. -/
  | entry (addr : ℕ)

/-- The first half of the loop body of `_find_entry`. -/
def advance (info : Info) (ctx : Context) : Advance :=
  if ctx.addr = info.curBase then .entry (ctx.addr + regionHeaderSize)
  else
    let nextAddr := ctx.addr + entrySize ctx.entry.len.toNat
    if nextAddr > info.curBase + info.regionSize then .truncated
    else if nextAddr = info.curBase + info.regionSize then .full nextAddr
    else .entry nextAddr

/-- Move the context to an entry and update its counters. -/
def Context.visit (ctx : Context) (addr : ℕ) (entry : EntryHeader) : Context :=
  let ctx := { ctx with addr := addr, entry := entry }
  if entry.live then
    if entry.isValue then { ctx with unusedKeys := ctx.unusedKeys - 1 }
    else { ctx with maxKeyId := entry.id, unusedKeys := ctx.unusedKeys + 1 }
  else { ctx with compactable := ctx.compactable + entrySize entry.len.toNat }

@[simp]
theorem Context.visit_addr (ctx : Context) (addr : ℕ) (entry : EntryHeader) :
    (ctx.visit addr entry).addr = addr := by
  simp only [Context.visit]
  split_ifs <;> rfl

@[simp]
theorem Context.visit_entry (ctx : Context) (addr : ℕ) (entry : EntryHeader) :
    (ctx.visit addr entry).entry = entry := by
  simp only [Context.visit]
  split_ifs <;> rfl

/-- What `_find_entry` returns when it runs out of entries. -/
def endOfEntries (ctx : Context) (info : Info) (matchId : ℕ) : Status × Context × Info :=
  if matchId = entryIdEnd then (.ok, ctx, info)
  else (.notFound, { ctx with entry := ⟨0, 0⟩ }, info)

/-- The addresses still ahead of a context, a bound on the length of the walk. -/
def Context.ahead (ctx : Context) (info : Info) : ℕ :=
  info.curBase + info.regionSize + regionHeaderSize + 1 - ctx.addr

theorem ahead_lt_of_advance {info : Info} {ctx ctx' : Context}
    (h : advance info ctx = .entry ctx'.addr) : ctx'.ahead info < ctx.ahead info := by
  have hsize : 0 < entrySize ctx.entry.len.toNat := by simp [entrySize, entryHeaderSize]
  simp only [advance] at h
  simp only [Context.ahead, regionHeaderSize] at h ⊢
  split_ifs at h <;> injection h <;> omega

/-- `_find_entry`. The returned info differs from the given one only in the
force-compaction flag, which a truncated walk sets. -/
def findEntry (d : Device) (info : Info) (ctx : Context) (matchId : ℕ) (findValue : Bool) :
    Status × Context × Info :=
  match _hstep : advance info ctx with
  | .truncated => endOfEntries ctx { info with forceCompact := true } matchId
  | .full addr => endOfEntries { ctx with addr := addr } info matchId
  | .entry addr =>
    match readEntryHeader d addr with
    | none => (.errIo, { ctx with addr := addr }, info)
    | some entry =>
      if entry.idflags = 0xffff then
        -- unwritten space from here on
        endOfEntries { ctx with addr := addr, entry := entry } info matchId
      else if entry.isMatch matchId findValue then (.ok, ctx.visit addr entry, info)
      else findEntry d info (ctx.visit addr entry) matchId findValue
termination_by ctx.ahead info
decreasing_by exact ahead_lt_of_advance (by simpa using _hstep)

theorem findEntry_info (d : Device) (info : Info) (ctx : Context) (matchId : ℕ)
    (findValue : Bool) :
    (findEntry d info ctx matchId findValue).2.2 = info ∨
      (findEntry d info ctx matchId findValue).2.2 = { info with forceCompact := true } := by
  fun_induction findEntry d info ctx matchId findValue with
  | case1 | case2 | case4 => simp only [endOfEntries]; split_ifs <;> simp
  | case3 => simp
  | case5 => simp
  | case6 _ _ _ _ _ _ _ ih => exact ih

/-- A search that succeeds at an entry has moved on. -/
theorem findEntry_ahead (d : Device) (info : Info) (ctx : Context) (matchId : ℕ)
    (findValue : Bool) (hid : matchId ≠ entryIdEnd)
    (found : (findEntry d info ctx matchId findValue).1 = .ok) :
    (findEntry d info ctx matchId findValue).2.1.ahead info < ctx.ahead info ∧
      (findEntry d info ctx matchId findValue).2.2 = info := by
  fun_induction findEntry d info ctx matchId findValue with
  | case1 | case2 | case4 => simp [endOfEntries, hid] at found
  | case3 => simp at found
  | case5 ctx addr hstep entry _ _ =>
    exact ⟨ahead_lt_of_advance (by simpa using hstep), rfl⟩
  | case6 ctx addr hstep entry _ _ _ ih =>
    obtain ⟨hlt, hinfo⟩ := ih found
    exact ⟨hlt.trans (ahead_lt_of_advance (by simpa using hstep)), hinfo⟩

/-- `_read_payload`. It reads as many bytes as the buffer holds. -/
def readPayload (d : Device) (ctx : Context) (bufferSize : ℕ) : Option (List UInt8) :=
  spiflashRead d (ctx.addr + entryHeaderSize) bufferSize

/-- The loop of `_compare_payload`. -/
def compareBytes (d : Device) (addr : ℕ) (value : List UInt8) : Status :=
  if _hempty : value = [] then .ok
  else
    match spiflashRead d addr (min value.length bounceBufferSize) with
    | none => .errIo
    | some bounce =>
      if value.take bounceBufferSize ≠ bounce then .notFound
      else compareBytes d (addr + bounceBufferSize) (value.drop bounceBufferSize)
termination_by value.length
decreasing_by
  have := List.length_pos_iff.mpr _hempty
  simp only [List.length_drop, bounceBufferSize]
  omega

/-- `_compare_payload`. -/
def comparePayload (d : Device) (ctx : Context) (value : List UInt8) : Status :=
  if ctx.entry.len.toNat ≠ value.length then .notFound
  else compareBytes d (ctx.addr + entryHeaderSize) value

/-- `_find_key`. A missing key name stops at the next key of any name. -/
def findKey (d : Device) (info : Info) (ctx : Context) (key : Option (List UInt8)) :
    Status × Context × Info :=
  match _hfind : findEntry d info ctx entryIdAny false with
  | (.ok, ctx', info') =>
    match key with
    | none => (.ok, ctx', info')
    | some name =>
      if ctx'.entry.len.toNat = name.length then
        match comparePayload d ctx' name with
        | .ok => (.ok, ctx', info')
        | .notFound => findKey d info' ctx' (some name)
        | status => (status, ctx', info')
      else findKey d info' ctx' (some name)
  | (status, ctx', info') => (status, ctx', info')
termination_by ctx.ahead info
decreasing_by
  all_goals
    have hmoved := findEntry_ahead d info ctx entryIdAny false (by decide) (by rw [_hfind])
    rw [_hfind] at hmoved
    obtain ⟨hlt, rfl⟩ := hmoved
    exact hlt

/-- `_find_value`. -/
def findValue (d : Device) (info : Info) (ctx : Context) (idField : UInt16) :
    Status × Context × Info :=
  findEntry d info ctx (idField &&& entryMaskId).toNat true

/-- A key search that succeeds has moved on. -/
theorem findKey_ahead (d : Device) (info : Info) (ctx : Context) (key : Option (List UInt8))
    (found : (findKey d info ctx key).1 = .ok) :
    (findKey d info ctx key).2.1.ahead info < ctx.ahead info ∧
      (findKey d info ctx key).2.2 = info := by
  -- every step that goes on or stops with success is a successful entry search
  have hstep {info info' : Info} {ctx ctx' : Context}
      (hfind : findEntry d info ctx entryIdAny false = (.ok, ctx', info')) :
      ctx'.ahead info < ctx.ahead info ∧ info' = info := by
    have hmoved := findEntry_ahead d info ctx entryIdAny false (by decide) (by rw [hfind])
    rwa [hfind] at hmoved
  fun_induction findKey d info ctx key with
  | case1 info ctx ctx' info' hfind => exact hstep hfind
  | case2 info ctx ctx' info' hfind => exact hstep hfind
  | case3 info ctx ctx' info' hfind name _ _ ih | case5 info ctx ctx' info' hfind name _ ih =>
    obtain ⟨hlt, rfl⟩ := hstep hfind
    exact ⟨(ih found).1.trans hlt, (ih found).2⟩
  | case4 info ctx ctx' info' hfind => exact hstep hfind
  | case6 info ctx key status ctx' info' hstatus => exact absurd found hstatus

end EspOpenRtos.Sysparam
