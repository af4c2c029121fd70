/-
# When the store is full

`sysparam_set_data` decides from counters whether a compaction is worth trying:
the size of what is dead, and the number of keys without a value. If it is not
tried, or does not help, the store is reported to be full. In a log in which
every value belongs to a key, the counters say exactly what a compaction would
gain, so the report is right: the pairs of the other keys and the new one would
not fit an empty region.

A phantom value behind the log is counted too, against the keys without a
value. Then a store in which one such key is in the way is reported to be full.
-/

import EspOpenRtos.Math.LogSpace
import EspOpenRtos.Sysparam.LogInvariant

namespace EspOpenRtos.Sysparam

open Math Math.NorFlash Math.Runs Math.KeyedLog

/-- The space that pairs take: an entry each for key and value. -/
def pairSpace (ps : List (ℕ × Payload × Content)) : ℕ :=
  (ps.map fun p => 8 + p.2.1.1.length + p.2.2.1.1.length).sum

/-- There is really no room for a value: the pairs of the other keys and the new
one do not fit a region, or every id is taken by a key with a value. -/
def NoRoom (a : Area) (k : Payload) (value : List UInt8) (I : Items) : Prop :=
  a.size < 8 + pairSpace (others k I) + 8 + k.1.length + value.length ∨
    keyId I k = none ∧ (∀ p ∈ keys I, lookup I p.2 ≠ none) ∧
      lastId I = maxKeyId

/-- The call looks at a header that the byte behind the area belongs to. Behind a log that
ends one byte before the end of the area, every call does that tries to store something;
behind one that ends five bytes before it, the call that has found no value and does not
have the space. -/
def LooksBehind (a : Area) (second : Bool) (I : Items) (k : Payload) (value : List UInt8)
    (isBinary : Bool) : Prop :=
  k.1 ≠ [] ∧ value.length ≤ maxValueLen ∧
    (a.logEnd second I + 1 = a.top ∧
        (∀ v : Payload, v.1 = value → lookup I k ≠ some (v, isBinary)) ∨
      a.logEnd second I + 5 = a.top ∧ lookup I k = none ∧
        a.size < regionHeaderSize + logSize I + needed k value I)

section Counters

variable {a : Area} {s : Sys} {second : Bool} {I : Items} {k : Payload} {value : List UInt8}

theorem pairsSize_eq_pairSpace (ps : List (ℕ × Payload × Content)) :
    pairsSize itemSize ps = pairSpace ps := by
  rw [pairsSize, pairSpace]
  congr 1
  refine List.map_congr_left fun p _ => ?_
  simp only [itemSize, entrySize, entryHeaderSize]
  omega

/-- If a set does not compact although it cannot go on, then a compaction would
not have gained enough. -/
theorem Opened.gains_of_not_compacts (h : Opened a s second I)
    (hsealed : Sealed a s.dev.bytes second I)
    (hshielded : lookup I k = none → a.size < regionHeaderSize + logSize I + needed k value I →
      Shielded a s.dev.bytes second I) (hcompacts : compacts s k.1 value = false) (hfull : Full a false k value I) :
    unused I ≤ 0 ∧
      (a.size + (deadSize I + oldSize I k) <
          regionHeaderSize + logSize I + needed k value I ∨
        keyId I k = none ∧ maxKeyId ≤ lastId I) := by
  obtain ⟨status, t, hlookup, hlocated, hremaining, hresult⟩ := h.lookupKey_remaining hsealed k
  have htracks := hlocated.tracks
  have hfree := htracks.freeSpace h
  have hfree' := htracks.scanRest.freeSpace h
  obtain ⟨n, hcount⟩ := countOldValue_eq t
  rw [compacts, hlookup] at hcompacts
  simp only [compactsAt, htracks.neededSpace, htracks.keyId] at hcompacts
  by_cases hspace : a.size < regionHeaderSize + logSize I + needed k value I
  · -- there is no space, and the scan to the end of the log has counted everything
    obtain ⟨hunused, hdead, -⟩ :=
      (hremaining fun hnone => hshielded hnone hspace).scanRest (.of_lookup hresult)
    rw [if_pos (by omega), worthCompacting, hunused] at hcompacts
    simp only [Bool.or_eq_false_iff, decide_eq_false_iff_not] at hcompacts
    exact ⟨by omega, Or.inl (by omega)⟩
  · obtain ⟨hnone, hids⟩ := hfull.resolve_left hspace
    rw [placed_false] at hids
    simp only [hcount] at hcompacts hfree
    rw [if_neg (by omega), hlocated.lastId hnone, hlocated.unused hnone, if_pos ⟨hnone, hids⟩,
      decide_eq_false_iff_not] at hcompacts
    exact ⟨by omega, Or.inr ⟨hnone, hids⟩⟩

/-- The last id is taken if there are as many pairs as ids. -/
theorem lastId_eq_of_length_pairs (inv : KeyedLog.Inv maxKeyId I)
    (h : maxKeyId ≤ (pairs I).length) :
    (keys I).length ≤ (pairs I).length ∧ lastId I = maxKeyId := by
  have hkeys := inv.length_keys_le
  have hlast := inv.to_lastId.length_keys_le
  have hle := inv.lastId_le
  have hpairs := length_pairs_le_keys (L := I)
  omega

/-- After a compaction the report is right. -/
theorem Full.noRoom_compacted (h : Full a true k value I) (inv : KeyedLog.Inv maxKeyId I) :
    NoRoom a k value I := by
  rcases h with hspace | ⟨hnone, hids⟩
  · left
    rw [placed_true, logSize, inv.size_compact uniform_itemSize k 0, pairsSize_eq_pairSpace,
      needed] at hspace
    cases hlookup : lookup I k with
    | none =>
      -- a key entry is either written or not needed
      rw [hlookup] at hspace
      simp only [Option.map_none, Option.getD_none, entrySize, entryHeaderSize,
        regionHeaderSize] at hspace
      split_ifs at hspace <;> omega
    | some old =>
      rw [if_neg (keyId_ne_none hlookup), hlookup] at hspace
      simp only [Option.map_some, Option.getD_some, itemSize, entrySize, entryHeaderSize,
        regionHeaderSize] at hspace
      omega
  · rw [placed_true, lastId_compact] at hids
    obtain ⟨hused, hlast⟩ := lastId_eq_of_length_pairs inv hids
    exact Or.inr ⟨hnone, fun p hp => inv.lookup_ne_none hused hp, hlast⟩

/-- Without a compaction, too, if it would not have gained enough. -/
theorem Full.noRoom_kept (inv : KeyedLog.Inv maxKeyId I) (hmatched : KeyedLog.Matched I)
    (hunused : unused I ≤ 0)
    (h : a.size + (deadSize I + oldSize I k) <
        regionHeaderSize + logSize I + needed k value I ∨
      keyId I k = none ∧ maxKeyId ≤ lastId I) : NoRoom a k value I := by
  have hused := hmatched.length_keys_le hunused
  rcases h with hspace | ⟨hnone, hids⟩
  · left
    have hsize : logSize I ≤ _ := hmatched.size_le_pairs (fun _ => rfl) hused
    rw [inv.pairsSize_eq_others uniform_itemSize k 0, pairsSize_eq_pairSpace] at hsize
    rw [needed, oldSize] at hspace
    cases hlookup : lookup I k with
    | none =>
      -- every key has a value, so there is no key entry
      have hkey : keyId I k = none := by
        by_contra hkey
        obtain ⟨id, hid⟩ := Option.ne_none_iff_exists'.mp hkey
        exact inv.lookup_ne_none hused (mem_keys_of_keyId hid) hlookup
      rw [hlookup] at hsize hspace
      simp only [hkey, if_true, Option.map_none, Option.getD_none, entrySize, entryHeaderSize,
        regionHeaderSize] at hspace hsize
      omega
    | some old =>
      rw [if_neg (keyId_ne_none hlookup), hlookup] at hspace
      rw [hlookup] at hsize
      simp only [ Option.map_some, Option.getD_some, itemSize, entrySize,
        entryHeaderSize, regionHeaderSize] at hspace hsize
      omega
  · exact Or.inr ⟨hnone, fun p hp => inv.lookup_ne_none hused hp,
      le_antisymm inv.lastId_le hids⟩

end Counters

/-- With a new key, and a phantom value behind the log, the only key without a value is
taken for one that has a value. Without it a compaction does not gain enough. -/
structure Miscounted (a : Area) (f : Image) (I : Items) (k : Payload) (value : List UInt8)
    (len : ℕ) : Prop where
  last : a.logEnd true I + 1 = a.top
  phantom : PhantomBehind a f len
  near : len + 3 ≤ a.size + 64
  key : k.1 ≠ []
  short : value.length ≤ maxValueLen
  new : find k I = none
  unused : KeyedLog.unused I ≤ 1
  gain : a.size + deadSize I < regionHeaderSize + logSize I + needed k value I

section Misjudged

variable {a : Area} {s : Sys} {I : Items} {k : Payload} {value : List UInt8} {len : ℕ}

/-- A phantom value is counted against a key without a value, so that a
compaction is not even tried. -/
theorem Opened.errFull_phantom (h : Opened a s true I)
    (hmiscounted : Miscounted a s.dev.bytes I k value len) (hvalue : value ≠ []) (isBinary : Bool) :
    (sysparamSetData s k.1 value isBinary).1 = .errFull := by
  obtain ⟨hlast, hphantom, hlen, hk, hshort, hnew, hunused, hspace⟩ := hmiscounted
  have hbase := h.curBase_ne
  have htop : s.info.top = a.top := by
    rw [Info.top, h.curBase, h.regionSize, Area.region_true, Area.top]
    omega
  obtain ⟨W, hregion, hitems⟩ := h.phantom_region hlast hphantom hlen
  generalize phantomValue a s.dev.bytes len hphantom.small = phantom at hitems
  have hfind : find k (items W) = none := by
    rw [hitems, find_append, hnew]
    rfl
  obtain ⟨ctx, hnone, hentry, hend⟩ := hregion.findKey_none hfind
  have hcounted := hend.counted
  rw [List.nil_append, hitems] at hcounted
  -- the search stops at the phantom, which does not fit the region
  have haddr : ctx.addr = a.logEnd true I := by
    obtain ⟨V, Y, rfl, hV, hY⟩ := List.map_eq_append_iff.mp hitems
    obtain ⟨e, rfl, -⟩ : ∃ e : Entry, Y = [e] ∧ e.item = .value 255 (phantom, false) := by
      simpa [List.map_eq_cons_iff] using hY
    have hstart : s.info.addrAfter [] + logSize (items V) = a.logEnd true I := by
      rw [items, hV, Info.addrAfter, h.curBase, items_nil, logSize_nil, Nat.add_zero, Area.logEnd]
    rw [hend.addr_of_past (by rw [hstart]; omega), hstart]
  have hlookup : Sysparam.lookupKey s k.1 =
      (.notFound, ⟨⟨s.dev, s.info.truncatedAt (s.info.addrAfter W)⟩, ctx, none, 0⟩) := by
    rw [Sysparam.lookupKey, hnone]
  have hkey : keyId I k = none := by rw [keyId, hnew]; rfl
  have htracks : Tracks s I k
      ⟨⟨s.dev, s.info.truncatedAt (s.info.addrAfter W)⟩, ctx, none, 0⟩ :=
    ⟨rfl, s.info.upToFlag_truncatedAt _, hkey.symm⟩
  have htopAfter : (s.info.truncatedAt (s.info.addrAfter W)).top = a.top ∧
      (s.info.truncatedAt (s.info.addrAfter W)).curBase = s.info.curBase := by
    rw [← htop]
    rcases s.info.upToFlag_truncatedAt (s.info.addrAfter W) with hinfo | hinfo <;> rw [hinfo] <;>
      exact ⟨rfl, rfl⟩
  simp only [sysparamSetData, key_take]
  rw [if_neg (by simpa using hk), if_neg (by omega), if_neg hbase, hlookup]
  generalize s.info.truncatedAt (s.info.addrAfter W) = info at htracks htopAfter ⊢
  -- the scan that is to give an accurate count gets nowhere
  have hscan : (scanRest ⟨⟨s.dev, info⟩, ctx, none, 0⟩).ctx = ctx := by
    have hadvance : advance info ctx = .truncated := by
      rw [advance, haddr, hentry,
        if_neg (by rw [htopAfter.2, h.curBase, Area.logEnd, regionHeaderSize]; omega)]
      refine if_pos ?_
      change info.top < a.logEnd true I + 4
      omega
    simp only [scanRest, findEntry_truncated hadvance, endOfEntries, if_true]
  have hfree : freeSpace info + _ = _ := htracks.freeSpace h
  have hfree' := htracks.scanRest.freeSpace h
  have hgain : unused (I ++ [.value 255 (phantom, false)]) = unused I - 1 ∧
      deadSize (I ++ [.value 255 (phantom, false)]) = deadSize I := by
    simp [unused, deadSize, Item.isValue, Item.deadSize]
    omega
  have hworth : worthCompacting (scanRest ⟨⟨s.dev, info⟩, ctx, none, 0⟩) (needed k value I) = false := by
    rw [worthCompacting, hscan, hcounted.unused, hcounted.dead, hgain.1, hgain.2,
      Bool.or_eq_false_iff, decide_eq_false_iff_not, decide_eq_false_iff_not]
    omega
  have hprepare : prepare ⟨⟨s.dev, info⟩, ctx, none, 0⟩ k.1 value =
      (.errFull, scanRest ⟨⟨s.dev, info⟩, ctx, none, 0⟩) := by
    have hfew : needed k value I > freeSpace info := by omega
    have hfew' : needed k value I >
        freeSpace (scanRest ⟨⟨s.dev, info⟩, ctx, none, 0⟩).sys.info := by omega
    simp only [prepare, htracks.neededSpace, makeRoom, if_pos hfew, hworth, Bool.false_eq_true,
      if_false, breakOnError, Status.isError, checkSpace, if_pos hfew', if_true]
  have hcount : countOldValue ⟨⟨s.dev, info⟩, ctx, none, 0⟩ = ⟨⟨s.dev, info⟩, ctx, none, 0⟩ :=
    if_neg (by simp)
  simp only [Status.isError, Bool.false_eq_true, if_false, if_neg hvalue,
    sameValue_of_zero (t := ⟨⟨s.dev, info⟩, ctx, none, 0⟩) rfl, hcount, storeValue, hprepare,
    breakOnError, if_true]

end Misjudged

section Same

variable {a : Area} {s : Sys} {second : Bool} {I : Items} {k v : Payload} {isBinary : Bool}

/-- A value that a key has is found, whatever stands behind the log. -/
theorem Opened.lookupKey_same (h : Opened a s second I) (hlookup : lookup I k = some (v, isBinary)) :
    ∃ P, ∃ e : Entry, ∃ ctx id keyId, e.item = .value id (v, isBinary) ∧
      ctx.addr = s.info.addrAfter P ∧ ctx.entry = e.header ∧
      read s.dev.bytes ctx.addr e.size = e.bytes ∧ ctx.addr + e.size ≤ a.limit ∧
      Sysparam.lookupKey s k.1 = (.ok, ⟨s, ctx, keyId, ctx.addr⟩) := by
  obtain ⟨L, rfl, hlayout⟩ := h.holds.log
  have hfits := hlayout.fits
  have hlimit := a.region_add_size_le second
  cases hfind : find k (items L) with
  | none => simp [lookup, candidates, hfind] at hlookup
  | some p =>
    obtain ⟨id, rest⟩ := p
    -- the same region, cut off behind the log
    obtain ⟨info, hinfo⟩ : ∃ info : Info,
        info = { s.info with regionSize := regionHeaderSize + logSize (items L) } := ⟨_, rfl⟩
    have hcur : s.info.curBase = info.curBase := by rw [hinfo]
    have hcut : info.regionSize = regionHeaderSize + logSize (items L) := by rw [hinfo]
    have hpos : 0 < logSize (items L) := by
      obtain ⟨P, e, R, rfl, -⟩ := exists_key_of_find hfind
      have := e.four_le_size
      simp
      omega
    have htop : info.top = a.region second + regionHeaderSize + logSize (items L) := by
      rw [Info.top, hcut, ← hcur, h.curBase]
      omega
    have hregion : Region s.dev info a.limit L := by
      refine ⟨?_, h.covers, by rw [htop, Area.limit]; omega, by omega, h.holds.inv⟩
      have hwalk := walk_of_stored hlayout.stored htop.ge (by rw [htop, Area.limit]; omega)
        (show Walk s.dev.bytes info.top a.limit _ [] from fun hlt => absurd htop.le (by omega))
      rwa [List.append_nil, ← h.curBase, hcur] at hwalk
    have hid := hregion.id_le (show keyId (items L) k = some id by simp [keyId, hfind])
    have hvalues : (values id rest).head? = some (v, isBinary) := by
      simpa [lookup, candidates, hfind] using hlookup
    obtain ⟨P, e, R, ctx, rfl, hkey, rfl, hfound, -, hentry, hafter, -⟩ := hregion.findKey_some hfind
    obtain ⟨more, hvalues⟩ : ∃ more, values id (items R) = (v, isBinary) :: more := by
      simpa [List.head?_eq_some_iff] using hvalues
    rw [List.append_cons] at hregion
    obtain ⟨Q, e', S, ctx', rfl, hvalue, -, -, hfound', haddr', hentry', -⟩ :=
      hregion.findEntry_value hafter (by simp only [entryIdAny, maxKeyId] at hid ⊢; omega) hvalues
    have hsize : info.regionSize ≤ s.info.regionSize := by
      rw [hcut, h.regionSize]
      exact h.holds.logSize_le
    have hinit : initContext info = initContext s.info := by rw [hinfo]; rfl
    obtain ⟨hkey', -⟩ := findKey_longer hcur hsize hfound
    obtain ⟨hvalue', -⟩ := findEntry_longer hcur hsize
      (by simp only [entryIdEnd, maxKeyId] at hid ⊢; omega) hfound'
    rw [hinit] at hkey'
    rw [← List.append_assoc] at hregion
    obtain ⟨-, hread, hlive, -⟩ := hregion.walk_after
    have hlive' : e'.header.live = true := (Entry.item_eq_value hvalue).2.2.2.1
    refine ⟨P ++ [e] ++ Q, e', ctx', id, some ctx.entry.id, hvalue, ?_, hentry', haddr' ▸ hread,
      haddr' ▸ hlive hlive', ?_⟩
    · rw [haddr', Info.addrAfter, Info.addrAfter, hcur]
    simp only [Sysparam.lookupKey, hkey', findValue_masked hentry hkey, hvalue', if_true]

/-- Setting the value that a key has changes nothing, whatever stands behind the log. -/
theorem Opened.setData_same (h : Opened a s second I) (hk : k.1 ≠ []) (hv : v.1 ≠ [])
    (hlookup : lookup I k = some (v, isBinary)) :
    sysparamSetData s k.1 v.1 isBinary = (.ok, s) := by
  have hbase := h.curBase_ne
  have hshort := v.2
  obtain ⟨P, e, ctx, id, keyId, hvalue, haddr, hentry, hread, hrange, hrun⟩ := h.lookupKey_same hlookup
  obtain ⟨-, hpayload, hbinary, -⟩ := Entry.item_eq_value hvalue
  have hpos : ctx.addr ≠ 0 := by
    rw [haddr, Info.addrAfter, regionHeaderSize]
    omega
  have hsame : sameValue ⟨s, ctx, keyId, ctx.addr⟩ v.1 isBinary = .ok := by
    rw [sameValue, if_pos ⟨hpos, by rw [hentry]; exact hbinary, by rw [hentry]; simp [hpayload]⟩,
      comparePayload_spec h.covers hread rfl hentry hrange, if_pos (by rw [hpayload])]
  simp only [sysparamSetData, key_take]
  rw [if_neg (by simpa using hk), if_neg (by rw [maxValueLen]; omega), if_neg hbase, hrun]
  simp only [Status.isError, Bool.false_eq_true, if_false, if_neg hv, hsame]

end Same

theorem Opened.noRoom_of_errFull {a : Area} {s : Sys} {second : Bool} {I : Items} {k : Payload}
    {value : List UInt8} {isBinary : Bool} (h : Opened a s second I) (hmatched : KeyedLog.Matched I)
    (hvalue : value ≠ [])
    (hsight : LooksBehind a second I k value isBinary → Inert (s.dev.bytes a.top))
    (hreport : (sysparamSetData s k.1 value isBinary).1 = .errFull) : NoRoom a k value I := by
  -- a call that is refused or changes nothing does not report it
  have hk : k.1 ≠ [] := fun hk => by simp [sysparamSetData, hk] at hreport
  have hshort : value.length ≤ maxValueLen := by
    by_contra hlong
    simp [sysparamSetData, key_take, hk, Nat.lt_of_not_le hlong] at hreport
  have hdiffers (v : Payload) (hv : v.1 = value) : lookup I k ≠ some (v, isBinary) := by
    intro hsame
    rw [← hv, h.setData_same hk (hv ▸ hvalue) hsame] at hreport
    cases hreport
  have hsealed : Sealed a s.dev.bytes second I := fun hlast =>
    hsight ⟨hk, hshort, .inl ⟨hlast, hdiffers⟩⟩
  have inv := h.holds.inv
  obtain ⟨status, s', hrun, houtcome⟩ := h.setData hsealed k value isBinary
  rw [hrun] at hreport
  obtain rfl : status = .errFull := hreport
  cases houtcome with
  | deleted _ s₁ _ hempty => exact absurd hempty hvalue
  | store _ _ v hv _ _ hstore =>
    subst hv
    generalize hc : compacts s k.1 v.1 = c at hstore
    cases hstore with
    | full _ hfull =>
      obtain ⟨hunused, hgains⟩ := h.gains_of_not_compacts hsealed
        (fun hnone hspace hlast => hsight ⟨hk, hshort, .inr ⟨hlast, hnone, hspace⟩⟩) hc hfull
      exact Full.noRoom_kept inv hmatched hunused hgains
    | compactedFull _ hfull => exact hfull.noRoom_compacted inv

/-- The store is reported to be full only if there is really no room, unless a byte behind
the area is taken for part of the log. If a key without a value is miscounted that way, the
store is reported to be full in any case. -/
theorem full_only_without_room {a : Area} {s : Sys} {second : Bool} {I : Items}
    (h : Opened a s second I) (hmatched : KeyedLog.Matched I) (key value : List UInt8)
    (isBinary : Bool) (hvalue : value ≠ []) :
    ((LooksBehind a second I (keyOf key) value isBinary → Inert (s.dev.bytes a.top)) →
      (sysparamSetData s key value isBinary).1 = .errFull → NoRoom a (keyOf key) value I) ∧
    ∀ len, second = true → Miscounted a s.dev.bytes I (keyOf key) value len →
      (sysparamSetData s key value isBinary).1 = .errFull := by
  rw [← sysparamSetData_keyOf]
  refine ⟨h.noRoom_of_errFull hmatched hvalue, fun len hsecond hmiscounted => ?_⟩
  subst hsecond
  exact h.errFull_phantom hmiscounted hvalue isBinary

theorem matched_single (k : Payload) (content : Content) :
    KeyedLog.Matched [.key 1 k, .value 1 content] := by
  refine ⟨fun A id content B hsplit => ?_, fun id => ?_⟩
  · simp [List.cons_eq_append_iff] at hsplit
    obtain ⟨rfl, ⟨rfl, -⟩, -⟩ := hsplit
    simp
  · by_cases hid : 1 = id <;> simp [hid]

/-- A key with a value, and another with a value that is longer than the region. -/
theorem full_only_without_room_second_key :
    (sysparamSetData (sysparamSetData (smallArea.create blank) [107] [1] false).2 [108]
        (List.replicate 5000 0) false).1 = .errFull ∧
      NoRoom smallArea (keyOf [108]) (List.replicate 5000 0)
        [.key 1 (byteKey 107), .value 1 (byteKey 1, false)] := by
  have hsettled := settled_single smallArea (k := byteKey 107) (v := byteKey 1) false
    (by decide) (by decide) (by decide)
  have hreport : (sysparamSetData (sysparamSetData (smallArea.create blank) [107] [1] false).2 [108]
      (List.replicate 5000 0) false).1 = .errFull := by decide +kernel
  exact ⟨hreport, (full_only_without_room hsettled.running.opened (matched_single _ _) _ _ _
    (List.cons_ne_nil _ _)).1 (fun _ => hsettled.running.inert) hreport⟩

/-! ## A key in the way -/

theorem matched_fillItems (v : Payload) : KeyedLog.Matched (fillItems 1 v) := by
  have hitems : fillItems 1 v =
      [.key 1 (roundKey 1), .dead 5, .key 2 fillKey, .value 2 (v, false)] := rfl
  rw [hitems]
  refine ⟨fun A id content B hsplit => ?_, fun id => ?_⟩
  · simp [List.cons_eq_append_iff] at hsplit
    obtain ⟨rfl, ⟨rfl, -⟩, -⟩ := hsplit
    simp
  · by_cases hid : 2 = id <;> simp [hid]

/-- With a byte behind the area that completes a live value, the store is
reported to be full although it would be enough to drop a key without a value. -/
theorem full_despite_room :
    ∃ t I, t = run smallArea.step (smallArea.create (phantomChip smallArea))
        (fillCalls 1 (filled 4067 0 (by decide))) ∧
      Fresh smallArea (smallArea.create (phantomChip smallArea)) ∧ t.dev.fault = none ∧
      Opened smallArea t true I ∧ KeyedLog.Matched I ∧
      (sysparamSetData t (roundKey 2).1 [0] false).1 = .errFull ∧
      ¬NoRoom smallArea (keyOf (roundKey 2).1) [0] I := by
  have hsize : smallArea.size = 4096 := rfl
  obtain ⟨v, hv, hvlen⟩ : ∃ v, v = filled 4067 0 (by decide) ∧ v.1.length = 4067 :=
    ⟨filled 4067 0 (by decide), rfl, length_filled _ _ _⟩
  rw [← hv]
  have hne : v.1 ≠ [] := List.ne_nil_of_length_pos (by omega)
  obtain ⟨hfresh, houtside⟩ := fresh_create smallArea (s := phantomChip smallArea) rfl
    fun _ _ _ => rfl
  obtain ⟨hsteady, hapart⟩ := steady_fillCalls (n := 1) (v := v) hfresh.steady (by omega) hne
    (by rw [hsize, regionHeaderSize]; omega) (by rw [hsize, regionHeaderSize]; omega)
  refine ⟨_, fillItems 1 v, rfl, hfresh, hsteady.fault, hsteady.opened, matched_fillItems v, ?_, ?_⟩
  · have hlog := logSize_fillItems 1 v
    have hlast : smallArea.logEnd true (fillItems 1 v) + 1 = smallArea.top := by
      have htop : smallArea.top = smallArea.region true + 4096 := rfl
      rw [Area.logEnd, hlog, htop, regionHeaderSize]
      omega
    have hphantom := (phantomBehind_phantomChip smallArea).congr fun x hx =>
      (hapart.outside x hx).trans (houtside x hx)
    have hnew : find (roundKey 2) (fillItems 1 v) = none := rfl
    have hneeded : needed (roundKey 2) [0] (fillItems 1 v) = 10 := rfl
    have hdead : deadSize (fillItems 1 v) = 5 := rfl
    have hk : (roundKey 2).1 ≠ [] := by simp [roundKey, byteKey]
    exact hsteady.opened.errFull_phantom ⟨hlast, hphantom, by rw [hsize]; omega, hk, by decide, hnew,
      show (1 : ℤ) ≤ 1 from le_rfl, by rw [hlog, hneeded, hdead, hsize, regionHeaderSize]; omega⟩
      (List.cons_ne_nil _ _) false
  · rw [keyOf_payload]
    rintro (hspace | ⟨-, -, hids⟩)
    · have hothers : others (roundKey 2) (fillItems 1 v) = [(2, fillKey, (v, false))] := rfl
      have hkeys : fillKey.1.length = 2 ∧ (roundKey 2).1.length = 1 := ⟨rfl, rfl⟩
      rw [hothers, hsize] at hspace
      simp only [pairSpace, List.map_cons, List.map_nil, List.sum_cons, List.sum_nil, hkeys.1,
        hkeys.2, hvlen, List.length_cons, List.length_nil] at hspace
      omega
    · have hlastId : lastId (fillItems 1 v) = 2 := rfl
      rw [hlastId, maxKeyId] at hids
      omega

end EspOpenRtos.Sysparam
