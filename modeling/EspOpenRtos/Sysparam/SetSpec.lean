/-
# What a set does

Whether `sysparam_set_data` compacts is decided at one of three points, from
counters that are partly estimates. `compacts` collects these decisions; given
its answer, everything else follows from the log: whether there is room, what is
written, and under which id.
-/

import EspOpenRtos.Sysparam.SetLookup

namespace EspOpenRtos.Sysparam

open Math Math.KeyedLog

/-! ## Decisions -/

/-- With these variables, the preparation of a write compacts. -/
def compactsAt (t : Setting) (key value : List UInt8) : Bool :=
  if neededSpace t key value > freeSpace t.sys.info then
    worthCompacting (scanRest t) (neededSpace t key value)
  else if t.keyId = none ∧ t.ctx.maxKeyId ≥ maxKeyId then 0 < t.ctx.unusedKeys
  else t.sys.info.forceCompact

/-- Storing this value compacts. -/
def compacts (s : Sys) (key value : List UInt8) : Bool :=
  compactsAt (countOldValue (lookupKey s key).2) key value

/-- The log to which the new entries are appended. -/
def placed (c : Bool) (k : Payload) (I : Items) : Items :=
  if c then compact (keyId I k) I else I

/-- The space that the new entries take. -/
def needed (k : Payload) (value : List UInt8) (I : Items) : ℕ :=
  entrySize value.length + if keyId I k = none then entrySize k.1.length else 0

/-- There is no room for the new entries, or no id for a new key. -/
def Full (a : Area) (c : Bool) (k : Payload) (value : List UInt8) (I : Items) : Prop :=
  a.size < regionHeaderSize + logSize (placed c k I) + needed k value I ∨
    keyId I k = none ∧ maxKeyId ≤ lastId (placed c k I)

/-- The entries that are appended. -/
def newItems (c : Bool) (k : Payload) (content : Content) (I : Items) : Items :=
  match keyId I k with
  | none => [.key (lastId (placed c k I) + 1) k,
      .value (lastId (placed c k I) + 1) content]
  | some id => [.value (if c then renumberedId id 0 (pairs I) else id) content]

section Prepare

variable {a : Area} {s : Sys} {second : Bool} {I : Items} {k : Payload} {t : Setting}
  {value : List UInt8}

theorem placed_false : placed false k I = I := rfl

theorem placed_true : placed true k I = compact (keyId I k) I := rfl

theorem put_eq (c : Bool) (content : Content) :
    put itemSize c k content I =
      (if c then placed c k I else delete itemSize k I) ++ newItems c k content I := by
  unfold put newItems
  cases hid : keyId I k with
  | none =>
    have hlookup := lookup_of_keyId_none hid
    cases c
    · simp [base, placed_false, delete_of_lookup_none hlookup]
    · simp [base, placed_true, hid]
  | some id =>
    cases c
    · rfl
    · simp [placed_true, hid]

/-- The variables of a set agree with the log, up to the counters. -/
structure Tracks (s : Sys) (I : Items) (k : Payload) (t : Setting) : Prop where
  dev : t.sys.dev = s.dev
  info : s.info.UpToFlag t.sys.info
  keyId : t.keyId = KeyedLog.keyId I k

theorem countOldValue_eq (t : Setting) :
    ∃ n, countOldValue t = { t with ctx := { t.ctx with compactable := n } } := by
  unfold countOldValue
  split_ifs
  · exact ⟨_, rfl⟩
  · exact ⟨t.ctx.compactable, rfl⟩

theorem Located.tracks (h : Located a s second I k t) : Tracks s I k (countOldValue t) := by
  obtain ⟨n, hcount⟩ := countOldValue_eq t
  rw [hcount]
  exact ⟨h.dev, h.info, h.keyId⟩

section

variable (h : Tracks s I k t)
include h

theorem Tracks.neededSpace : neededSpace t k.1 value = needed k value I := by
  rw [Sysparam.neededSpace, needed, h.keyId]

theorem Tracks.freeSpace (hopened : Opened a s second I) :
    freeSpace t.sys.info + (regionHeaderSize + logSize I) = a.size := by
  have hfits := hopened.holds.logSize_le
  have hsame : Sysparam.freeSpace t.sys.info = Sysparam.freeSpace s.info := by
    rcases h.info with hinfo | hinfo
    · rw [hinfo]
    · rw [hinfo]
      rfl
  have hsize := a.size_lt
  rw [hsame, freeSpace_eq (n := a.size - (regionHeaderSize + logSize I)) _ (by omega)]
  · omega
  · rw [hopened.curBase, hopened.regionSize, hopened.endAddr]
    omega

theorem Tracks.scanRest : Tracks s I k (scanRest t) := by
  have hinfo := findEntry_info t.sys.dev t.sys.info t.ctx entryIdEnd false
  exact ⟨h.dev, h.info.trans hinfo, h.keyId⟩

theorem CompactOutcome.of_tracks {s' : Sys} {J : Items} {status : Status}
    (houtcome : CompactOutcome a t.sys s' second J status) :
    CompactOutcome a s s' second J status := by
  have hdev := h.dev
  cases houtcome with
  | switched hs =>
    exact .switched ⟨hs.info, hdev ▸ hs.bytes, hdev ▸ hs.quiet, hdev ▸ hs.images, hdev ▸ hs.copied⟩
  | copyFailed hc =>
    exact .copyFailed ⟨h.info.trans hc.info, hdev ▸ hc.failed, hc.missing, hdev ▸ hc.outside⟩
  | switchFailed hw =>
    exact .switchFailed ⟨h.info.trans hw.info, hdev ▸ hw.failed, hdev ▸ hw.bytes⟩

theorem Tracks.opened (hopened : Opened a s second I) :
    Opened a t.sys second I := hopened.of_flag h.dev h.info

end

/-- The size of the value that a key has, if any. -/
def oldSize (I : Items) (k : Payload) : ℕ :=
  match lookup I k with
  | none => 0
  | some content => entrySize content.1.1.length

/-- The counters behind the scan that is made if there is not enough space. -/
theorem Remaining.scanRest (h : Remaining a second I t)
    (hsought : Sought a s.dev.bytes second I k t) :
    (Sysparam.scanRest (countOldValue t)).ctx.unusedKeys = unused I ∧
      deadSize I + oldSize I k ≤ (Sysparam.scanRest (countOldValue t)).ctx.compactable ∧
      (a.logEnd second I + 6 ≤ a.region second + a.size →
        (Sysparam.scanRest (countOldValue t)).ctx.compactable =
          deadSize I + oldSize I k) := by
  obtain ⟨P, R, D, hsplit, hD, hroomD, hcounted, hresumes⟩ := h
  have hunused : unused (I ++ D) = unused I := unused_append_dead hD
  have hdead : deadSize I ≤ deadSize (I ++ D) := by simp [deadSize]
  have hexact (hroom : a.logEnd second I + 6 ≤ a.region second + a.size) :
      deadSize (I ++ D) = deadSize I := by rw [hroomD hroom, List.append_nil]
  rw [← hsplit] at hunused hdead hexact
  rcases hsought with ⟨hnone, hzero⟩ | ⟨old, id, A, S, hold⟩
  · have hcount : countOldValue t = t := if_neg (by simp [hzero])
    obtain ⟨ctx, info, hfind, hctx⟩ := hresumes t.ctx P rfl rfl hcounted
    simp only [Sysparam.scanRest, hcount, hfind, hctx.unused, hctx.dead, oldSize, hnone]
    exact ⟨hunused, hdead, hexact⟩
  · obtain ⟨e, hitem, hentry, -, -⟩ := hold.entry
    obtain ⟨-, hpayload, -⟩ := Entry.item_eq_value hitem
    have hlen : t.ctx.entry.len.toNat = old.1.1.length := by rw [hentry, Entry.len_header, hpayload]
    have hpos : t.oldValueAddr ≠ 0 := by
      rw [hold.oldValueAddr, Area.logEnd, regionHeaderSize]
      omega
    -- the old value counts as one more dead entry
    have hcounted' : (countOldValue t).ctx.Counted (P ++ [.dead (entrySize old.1.1.length)]) := by
      rw [countOldValue, if_pos hpos, hlen]
      constructor
      · rw [unused_append_dead (dead_singleton _)]
        exact hcounted.unused
      · simp [deadSize, Item.deadSize, hcounted.dead]
      · rw [lastId_append_dead (dead_singleton _)]
        exact hcounted.last
    have hsame : (countOldValue t).ctx.addr = t.ctx.addr ∧
        (countOldValue t).ctx.entry = t.ctx.entry ∧ (countOldValue t).sys = t.sys := by
      obtain ⟨n, hcount⟩ := countOldValue_eq t
      rw [hcount]
      exact ⟨rfl, rfl, rfl⟩
    have hinner : unused (P ++ [.dead (entrySize old.1.1.length)] ++ R) =
          unused (P ++ R) ∧
        deadSize (P ++ [.dead (entrySize old.1.1.length)] ++ R) =
          deadSize (P ++ R) + entrySize old.1.1.length := by
      simp [unused, deadSize, Item.isValue, Item.deadSize]
      omega
    obtain ⟨ctx, info, hfind, hctx⟩ := hresumes _ _ hsame.1 hsame.2.1 hcounted'
    simp only [Sysparam.scanRest, hsame.2.2, hfind, hctx.unused, hctx.dead, oldSize, hold.lookup,
      hinner.1, hinner.2]
    exact ⟨hunused, by omega, fun hroom => by rw [hexact hroom]⟩

theorem Located.scanRest (h : Located a s second I k t)
    (hroom : a.logEnd second I + 6 ≤ a.region second + a.size)
    (hsought : Sought a s.dev.bytes second I k t) :
    (Sysparam.scanRest (countOldValue t)).ctx.unusedKeys = KeyedLog.unused I ∧
      (Sysparam.scanRest (countOldValue t)).ctx.compactable = KeyedLog.deadSize I + oldSize I k := by
  obtain ⟨P, R, hsplit, hcounted, hresumes⟩ := h.rest hroom
  have hremaining : Remaining a second I t :=
    ⟨P, R, [], by rw [List.append_nil, hsplit], by simp, fun _ => rfl, hcounted, hresumes⟩
  obtain ⟨hunused, -, hdead⟩ := hremaining.scanRest hsought
  exact ⟨hunused, hdead hroom⟩

/-- When a set compacts, in terms of the log. -/
theorem Opened.compacts_eq (h : Opened a s second I) (hsealed : Sealed a s.dev.bytes second I)
    (hroom : a.logEnd second I + 6 ≤ a.region second + a.size) (k : Payload) (value : List UInt8) :
    compacts s k.1 value =
      if a.size < regionHeaderSize + logSize I + needed k value I then
        decide (regionHeaderSize + logSize I + needed k value I ≤
          a.size + (KeyedLog.deadSize I + oldSize I k)) || decide (0 < KeyedLog.unused I)
      else if KeyedLog.keyId I k = none ∧ maxKeyId ≤ KeyedLog.lastId I then
        decide (0 < KeyedLog.unused I)
      else s.info.forceCompact := by
  obtain ⟨status, t, hlookup, hlocated, hresult⟩ := h.lookupKey hsealed k
  have htracks := hlocated.tracks
  have hfree := htracks.freeSpace h
  have hfree' := htracks.scanRest.freeSpace h
  obtain ⟨hunused, hdead⟩ := hlocated.scanRest hroom (.of_lookup hresult)
  obtain ⟨n, hcount⟩ := countOldValue_eq t
  rw [compacts, hlookup]
  simp only [compactsAt, htracks.neededSpace, worthCompacting, hunused, hdead, htracks.keyId]
  simp only [hcount, hlocated.calm (by omega)] at hfree hfree' ⊢
  by_cases hspace : a.size < regionHeaderSize + logSize I + needed k value I
  · rw [if_pos (by omega), if_pos hspace]
    congr 1
    rw [decide_eq_decide]
    omega
  · rw [if_neg (by omega), if_neg hspace]
    cases hid : KeyedLog.keyId I k with
    | none => rw [hlocated.lastId hid, hlocated.unused hid]
    | some id => simp

/-- The variables after a compaction. -/
structure Renumbered (a : Area) (s : Sys) (second : Bool) (I : Items) (k : Payload) (t : Setting) :
    Prop where
  switched : Switched a s t.sys second (placed true k I)
  keyId : t.keyId =
    (KeyedLog.keyId I k).map fun id => KeyedLog.renumberedId id 0 (KeyedLog.pairs I)
  lastId : t.ctx.maxKeyId = KeyedLog.lastId (placed true k I)
  unused : t.ctx.unusedKeys = 0

/-- What is left when a compaction fails. -/
def CompactFailed (a : Area) (s s' : Sys) (second : Bool) (J : Items) : Prop :=
  CopyFailed a s s' second J ∨ SwitchFailed a s s' second J

/-- Compacting on behalf of the key. -/
theorem Tracks.compactFor (h : Tracks s I k t) (hopened : Opened a s second I)
    (hsealed : Sealed a s.dev.bytes second I) :
    ∃ status t', compactFor t = (status, t') ∧ t'.oldValueAddr = t.oldValueAddr ∧
      (status = .ok ∧ Renumbered a s second I k t' ∨
        status = .errIo ∧ CompactFailed a s t'.sys second (placed true k I)) := by
  obtain ⟨status, s', ctx', keyId', hrun, houtcome, hok⟩ :=
    (h.opened hopened).compactParams (h.dev ▸ hsealed) (some t.ctx) t.keyId
  have houtcome := houtcome.of_tracks h
  rw [h.keyId] at houtcome hok
  refine ⟨status, ⟨s', ctx'.getD t.ctx, keyId', t.oldValueAddr⟩, by rw [Sysparam.compactFor, hrun],
    rfl, ?_⟩
  cases houtcome with
  | switched hs =>
    obtain ⟨rfl, rfl⟩ := hok rfl
    exact Or.inl ⟨rfl, hs, rfl, lastId_compact.symm, rfl⟩
  | copyFailed hc => exact Or.inr ⟨rfl, Or.inl hc⟩
  | switchFailed hw => exact Or.inr ⟨rfl, Or.inr hw⟩

theorem Tracks.compactAway (h : Tracks s I k t) (hopened : Opened a s second I)
    (hsealed : Sealed a s.dev.bytes second I) :
    ∃ status t', compactAway t = (status, t') ∧
      (status = .ok ∧ Renumbered a s second I k t' ∧ t'.oldValueAddr = 0 ∨
        status = .errIo ∧ CompactFailed a s t'.sys second (placed true k I)) := by
  obtain ⟨status, t', hrun, -, hresult⟩ := h.compactFor hopened hsealed
  simp only [Sysparam.compactAway, hrun, breakOnError]
  rcases hresult with ⟨rfl, hren⟩ | ⟨rfl, hfailed⟩
  · exact ⟨.ok, _, rfl, Or.inl ⟨rfl, ⟨hren.switched, hren.keyId, hren.lastId, hren.unused⟩, rfl⟩⟩
  · exact ⟨.errIo, _, rfl, Or.inr ⟨rfl, hfailed⟩⟩

/-- The space that is left after a compaction. -/
theorem Renumbered.freeSpace (h : Renumbered a s second I k t)
    (hfits : regionHeaderSize + logSize (placed true k I) ≤ a.size) :
    freeSpace t.sys.info + (regionHeaderSize + logSize (placed true k I)) = a.size := by
  have hsize := a.size_lt
  rw [freeSpace_eq (n := a.size - (regionHeaderSize + logSize (placed true k I))) _ (by omega)]
  · omega
  · rw [h.switched.info]
    simp only [Area.info, Area.logEnd]
    omega

theorem Renumbered.keyId_eq_none (h : Renumbered a s second I k t) :
    t.keyId = none ↔ KeyedLog.keyId I k = none := by
  rw [h.keyId, Option.map_eq_none_iff]

variable (value) in
/-- After a compaction there is nothing more to gain. -/
theorem Renumbered.reserve (h : Renumbered a s second I k t)
    (hfits : regionHeaderSize + logSize (placed true k I) ≤ a.size) :
    (Full a true k value I ∧
        breakOnError (checkSpace t (needed k value I)) (fun t =>
          breakOnError (reserveKeyId t) obeyForceCompact) = (.errFull, t)) ∨
      ¬Full a true k value I ∧
        breakOnError (checkSpace t (needed k value I)) (fun t =>
          breakOnError (reserveKeyId t) obeyForceCompact) = (.ok, t) := by
  have hfree := h.freeSpace hfits
  have hcalm : t.sys.info.forceCompact = false := by rw [h.switched.info]; rfl
  by_cases hspace : needed k value I > Sysparam.freeSpace t.sys.info
  · left
    refine ⟨Or.inl (by omega), ?_⟩
    simp only [checkSpace, if_pos hspace, breakOnError, Status.isError, if_true]
  · simp only [checkSpace, if_neg hspace, breakOnError, Status.isError, Bool.false_eq_true, if_false,
      reserveKeyId, h.unused, lt_self_iff_false]
    by_cases hids : t.keyId = none ∧ t.ctx.maxKeyId ≥ maxKeyId
    · left
      rw [if_pos hids]
      rw [h.keyId_eq_none, h.lastId] at hids
      exact ⟨Or.inr hids, rfl⟩
    · right
      rw [if_neg hids]
      rw [h.keyId_eq_none, h.lastId] at hids
      refine ⟨?_, by simp [obeyForceCompact, hcalm]⟩
      rintro (hfull | hfull)
      · omega
      · exact hids hfull

theorem Inv.lastId_compact_lt (inv : KeyedLog.Inv maxKeyId I) (keyId : Option ℕ)
    (h : 0 < unused I ∨ lastId I < maxKeyId) :
    lastId (compact keyId I) < maxKeyId := by
  rw [lastId_compact]
  rcases h with h | h
  · exact inv.length_pairs_lt h
  · have hkeys := inv.to_lastId.length_keys_le
    exact lt_of_le_of_lt (length_pairs_le_keys.trans hkeys) h

/-- The outcomes of the preparation. -/
inductive PrepareOutcome (a : Area) (s : Sys) (second : Bool) (I : Items) (k : Payload)
    (value : List UInt8) (t : Setting) : Bool → Status → Setting → Prop
  /-- There is no room, and nothing has changed. -/
  | full (t' : Setting) (hfull : Full a false k value I) (hdev : t'.sys.dev = s.dev)
      (hinfo : s.info.UpToFlag t'.sys.info) : PrepareOutcome a s second I k value t false .errFull t'
  /-- There is no room even after a compaction. -/
  | compactedFull (t' : Setting) (hfull : Full a true k value I)
      (hren : Renumbered a s second I k t') : PrepareOutcome a s second I k value t true .errFull t'
  /-- There is room. -/
  | ready (hroom : ¬Full a false k value I) (hcalm : t.sys.info.forceCompact = false) :
      PrepareOutcome a s second I k value t false .ok t
  /-- There is room after a compaction. -/
  | compacted (t' : Setting) (hroom : ¬Full a true k value I) (hren : Renumbered a s second I k t')
      (hold : t'.oldValueAddr = 0 ∨ t'.oldValueAddr = t.oldValueAddr) :
      PrepareOutcome a s second I k value t true .ok t'
  /-- The compaction failed. -/
  | failed (t' : Setting) (hfailed : CompactFailed a s t'.sys second (placed true k I)) :
      PrepareOutcome a s second I k value t true .errIo t'

theorem Located.prepare (h : Located a s second I k t) (hopened : Opened a s second I)
    (hsealed : Sealed a s.dev.bytes second I) :
    ∃ status t', prepare (countOldValue t) k.1 value = (status, t') ∧
      PrepareOutcome a s second I k value (countOldValue t)
        (compactsAt (countOldValue t) k.1 value) status t' := by
  have htracks := h.tracks
  obtain ⟨n, hcount⟩ := countOldValue_eq t
  have hlastId : KeyedLog.keyId I k = none →
      (countOldValue t).ctx.maxKeyId = KeyedLog.lastId I := hcount ▸ h.lastId
  have hunused : KeyedLog.keyId I k = none →
      (countOldValue t).ctx.unusedKeys = KeyedLog.unused I := hcount ▸ h.unused
  clear hcount
  generalize countOldValue t = u at *
  have hfree := htracks.freeSpace hopened
  have hsmall : regionHeaderSize + logSize (placed true k I) ≤ a.size :=
    hopened.holds.logSize_compact_le _
  have hshrink : logSize (placed true k I) ≤ logSize I :=
    hopened.holds.inv.size_compact_le uniform_itemSize _
  simp only [Sysparam.prepare, htracks.neededSpace, compactsAt]
  by_cases hspace : needed k value I > Sysparam.freeSpace u.sys.info
  · simp only [makeRoom, if_pos hspace]
    by_cases hworth : worthCompacting (Sysparam.scanRest u) (needed k value I) = true
    · -- compact to make room
      rw [if_pos hworth, hworth]
      obtain ⟨status, t', hrun, hresult⟩ := htracks.scanRest.compactAway hopened hsealed
      rw [hrun]
      rcases hresult with ⟨rfl, hren, hold⟩ | ⟨rfl, hfailed⟩
      · rcases hren.reserve value hsmall with ⟨hfull, hrest⟩ | ⟨hroom, hrest⟩
        · exact ⟨_, _, hrest, .compactedFull t' hfull hren⟩
        · exact ⟨_, _, hrest, .compacted t' hroom hren (Or.inl hold)⟩
      · exact ⟨_, _, rfl, .failed t' hfailed⟩
    · -- it would not help
      rw [if_neg hworth, Bool.eq_false_iff.mpr hworth]
      have hfree' := htracks.scanRest.freeSpace hopened
      refine ⟨.errFull, Sysparam.scanRest u, ?_, .full _ (Or.inl ?_) htracks.scanRest.dev
        htracks.scanRest.info⟩
      · have hspace' : needed k value I > Sysparam.freeSpace (Sysparam.scanRest u).sys.info := by omega
        simp only [breakOnError, Status.isError, Bool.false_eq_true, if_false, checkSpace,
          if_pos hspace', if_true]
      · rw [placed_false]
        omega
  · simp only [makeRoom, if_neg hspace, breakOnError, Status.isError, Bool.false_eq_true, if_false,
      checkSpace, reserveKeyId]
    have hroom (h : ¬(KeyedLog.keyId I k = none ∧
        maxKeyId ≤ KeyedLog.lastId (placed true k I))) : ¬Full a true k value I := by
      rintro (hfull | hfull)
      · omega
      · exact h hfull
    by_cases hids : u.keyId = none ∧ u.ctx.maxKeyId ≥ maxKeyId
    · have hnone : KeyedLog.keyId I k = none := htracks.keyId ▸ hids.1
      simp only [if_pos hids]
      by_cases hunusedKeys : 0 < u.ctx.unusedKeys
      · -- compact to get rid of keys without a value
        simp only [hunusedKeys, decide_true]
        obtain ⟨status, t', hrun, hresult⟩ := htracks.compactAway hopened hsealed
        rw [hrun]
        rcases hresult with ⟨rfl, hren, hold⟩ | ⟨rfl, hfailed⟩
        · have hcalm : t'.sys.info.forceCompact = false := by rw [hren.switched.info]; rfl
          have hlt : KeyedLog.lastId (placed true k I) < maxKeyId :=
            Inv.lastId_compact_lt hopened.holds.inv _ (Or.inl (hunused hnone ▸ hunusedKeys))
          refine ⟨.ok, t', by simp [obeyForceCompact, hcalm], .compacted t' (hroom ?_) hren
            (Or.inl hold)⟩
          omega
        · exact ⟨_, _, rfl, .failed t' hfailed⟩
      · -- all ids are taken
        simp only [hunusedKeys, decide_false]
        refine ⟨.errFull, u, rfl, .full u (Or.inr ⟨hnone, ?_⟩) htracks.dev htracks.info⟩
        rw [placed_false, ← hlastId hnone]
        exact hids.2
    · simp only [if_neg hids, Bool.false_eq_true, if_false, obeyForceCompact]
      have hlast (hnone : KeyedLog.keyId I k = none) : KeyedLog.lastId I < maxKeyId := by
        rw [← hlastId hnone]
        by_contra hge
        exact hids ⟨htracks.keyId.trans hnone, by omega⟩
      by_cases hforce : u.sys.info.forceCompact = true
      · -- compact because an inconsistency was noticed
        rw [if_pos hforce, hforce]
        obtain ⟨status, t', hrun, hold, hresult⟩ := htracks.compactFor hopened hsealed
        rw [hrun]
        rcases hresult with ⟨rfl, hren⟩ | ⟨rfl, hfailed⟩
        · refine ⟨_, _, rfl, .compacted t' (hroom fun hfull => ?_) hren (Or.inr hold)⟩
          have hlt : KeyedLog.lastId (placed true k I) < maxKeyId :=
            Inv.lastId_compact_lt hopened.holds.inv _ (Or.inr (hlast hfull.1))
          omega
        · exact ⟨_, _, rfl, .failed t' hfailed⟩
      · rw [if_neg hforce, Bool.eq_false_iff.mpr hforce]
        refine ⟨_, _, rfl, .ready ?_ (Bool.eq_false_iff.mpr hforce)⟩
        rintro (hfull | hfull)
        · rw [placed_false] at hfull
          omega
        · have := hlast hfull.1
          rw [placed_false] at hfull
          omega

end Prepare

/-! ## Writing -/

/-- The entries that are written with these variables. -/
def pairItems (t : Setting) (k : Payload) (content : Content) : Items :=
  match t.keyId with
  | some id => [.value id content]
  | none => [.key (t.ctx.maxKeyId + 1) k, .value (t.ctx.maxKeyId + 1) content]

section Write

variable {a : Area} {second : Bool} {J : Items} {k : Payload} {t : Setting} {content : Content}

/-- The entries of a set are written one after the other. -/
theorem Opened.writePair (h : Opened a t.sys second J)
    (hroom : a.logEnd second J + logSize (pairItems t k content) ≤ a.region second + a.size)
    (hwritable : ∀ item ∈ pairItems t k content, Writable item)
    (inv : KeyedLog.Inv maxKeyId (J ++ pairItems t k content)) :
    ∃ status s' M, writePair t k.1 content.1.1 content.2 = (status, { t with sys := s' }) ∧
      Appended a t.sys s' second J (pairItems t k content) M status := by
  -- setting the end of the log once more changes nothing
  have hagain {s s' : Sys} {K : Items} {id : ℕ} {status : Status}
      (happended : Appended a s s' second K [.value id content] [.value id content] status) :
      { s' with info := { s'.info with
        endAddr := a.logEnd second K + entrySize content.1.1.length } } = s' := by
    obtain ⟨dev, info⟩ := s'
    have hinfo := happended.info
    simp only at hinfo
    subst hinfo
    simp [logEnd_append, itemSize]
  unfold pairItems at *
  simp only [Sysparam.writePair, show t.sys.info.endAddr = a.logEnd second J from h.endAddr]
  cases hid : t.keyId with
  | some id =>
    simp only [hid] at hroom hwritable inv ⊢
    obtain ⟨status, s', M, hrun, happended⟩ := h.append (hwritable _ List.mem_cons_self)
      (by simpa using hroom) inv
    simp only [itemField, itemPayload, valueField] at hrun
    simp only [hrun]
    rcases happended.result with ⟨rfl, rfl, -⟩ | ⟨rfl, -⟩
    · refine ⟨.ok, s', _, ?_, happended⟩
      simp only [Status.isError, Bool.false_eq_true, if_false, hagain happended]
    · exact ⟨.errIo, s', _, rfl, happended⟩
  | none =>
    simp only [hid] at hroom hwritable inv ⊢
    have hw := hwritable _ List.mem_cons_self
    have hw' := hwritable (.value (t.ctx.maxKeyId + 1) content) (by simp)
    simp only [logSize_cons, logSize_nil] at hroom
    have inv' : KeyedLog.Inv maxKeyId (J ++ [.key (t.ctx.maxKeyId + 1) k]) :=
      inv.of_keys_eq (by simp)
    obtain ⟨status, s', M, hrun, happended⟩ := h.append hw (by omega) inv'
    simp only [itemField, itemPayload] at hrun
    simp only [hrun]
    rcases happended.result with ⟨rfl, rfl, -⟩ | ⟨rfl, -⟩
    · have hsize : a.logEnd second J + entrySize k.1.length =
          a.logEnd second (J ++ [.key (t.ctx.maxKeyId + 1) k]) := by
        simp [logEnd_append, itemSize]
      rw [List.append_cons] at inv
      obtain ⟨status', s'', M, hrun', happended'⟩ := happended.opened.append hw'
        (by rw [logEnd_append, logSize_singleton]; omega) inv
      simp only [itemField, itemPayload, valueField] at hrun'
      simp only [Status.isError, Bool.false_eq_true, if_false, hsize, hrun']
      rcases happended'.result with ⟨rfl, rfl, -⟩ | ⟨rfl, -⟩
      · refine ⟨.ok, s'', _, ?_, happended.rest happended'⟩
        simp only [Bool.false_eq_true, if_false, hagain happended']
      · exact ⟨.errIo, s'', _, rfl, happended.rest happended'⟩
    · exact ⟨.errIo, s', _, rfl, happended.first⟩

end Write

end EspOpenRtos.Sysparam
