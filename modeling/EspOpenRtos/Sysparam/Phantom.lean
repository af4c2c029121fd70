/-
# A phantom entry

Keys are numbered, and a lone erased byte in front of what follows the area reads
as an entry whose number ends in 255. So it takes a key with such a number for a
phantom value to be found. The run in this module gets there: it compacts the
empty log to have it in the second region, sets and deletes 255 keys, and fills
the region up to its last byte.
-/

import EspOpenRtos.Sysparam.Runs

namespace EspOpenRtos.Sysparam

open Math Math.NorFlash Math.Runs Math.KeyedLog

/-- The key of a round. -/
def roundKey (n : ℕ) : Payload := byteKey (UInt8.ofNat n)

/-- Keys that are set and deleted, one after the other. -/
def roundCalls : ℕ → List Call
  | 0 => []
  | n + 1 => roundCalls n ++
      [.set (roundKey (n + 1)).1 (filled 1 0 one_short).1 false, .set (roundKey (n + 1)).1 [] false]

/-- The log behind these calls. -/
def roundItems : ℕ → Items
  | 0 => []
  | n + 1 => roundItems n ++ [.key (n + 1) (roundKey (n + 1)), .dead 5]

section Rounds

variable {n m : ℕ}

theorem roundKey_inj (hn : n < 256) (hm : m < 256) (h : roundKey n = roundKey m) : n = m := by
  have hbyte : UInt8.ofNat n = UInt8.ofNat m := by simpa [roundKey, byteKey] using h
  have hnat := congrArg UInt8.toNat hbyte
  simpa [Nat.mod_eq_of_lt hn, Nat.mod_eq_of_lt hm] using hnat

theorem logSize_roundItems (n : ℕ) : logSize (roundItems n) = 10 * n := by
  induction n with
  | zero => rfl
  | succ n ih =>
    rw [roundItems, logSize_append, ih]
    simp [itemSize, entrySize, entryHeaderSize, roundKey, byteKey]
    omega

theorem mem_keys_roundItems {p : ℕ × Payload} (h : p ∈ keys (roundItems n)) :
    ∃ i, 1 ≤ i ∧ i ≤ n ∧ p = (i, roundKey i) := by
  induction n with
  | zero => simp [roundItems] at h
  | succ n ih =>
    rw [roundItems, keys_append, List.mem_append] at h
    rcases h with h | h
    · obtain ⟨i, hi, hn, rfl⟩ := ih h
      exact ⟨i, hi, by omega, rfl⟩
    · exact ⟨n + 1, by omega, le_rfl, by simpa using h⟩

theorem lastId_roundItems (n : ℕ) : lastId (roundItems n) = n := by
  cases n with
  | zero => rfl
  | succ n => simp [roundItems, lastId]

theorem keyId_roundItems {k : Payload} (h : ∀ i, i ≤ n → roundKey i ≠ k) :
    keyId (roundItems n) k = none := by
  rw [keyId_eq_none_iff]
  intro hmem
  obtain ⟨p, hp, hname⟩ := List.mem_map.mp hmem
  obtain ⟨i, hi, hin, rfl⟩ := mem_keys_roundItems hp
  exact h i hin hname

theorem keyId_roundItems_later (hnm : n < m) (hm : m < 256) :
    keyId (roundItems n) (roundKey m) = none :=
  keyId_roundItems fun i hi hname => by
    have := roundKey_inj (by omega) hm hname
    omega

theorem values_roundItems (id n : ℕ) : values id (roundItems n) = [] := by
  induction n with
  | zero => rfl
  | succ n ih => simp [roundItems, ih]

/-- A value for a new key is appended with the key. -/
theorem put_roundItems {k : Payload} (hkey : keyId (roundItems n) k = none) (content : Content) :
    put itemSize false k content (roundItems n) =
      roundItems n ++ [.key (n + 1) k, .value (n + 1) content] := by
  rw [put, hkey]
  simp [base, lastId_roundItems]

variable {a : Area} {s : Sys} {second : Bool}

/-- One key is set and deleted. -/
theorem Steady.round (h : Steady a s second (roundItems n)) (hn : n < 255)
    (hroom : regionHeaderSize + 10 * (n + 1) + 6 ≤ a.size) :
    Steady a (run a.step s [.set (roundKey (n + 1)).1 (filled 1 0 (by decide)).1 false,
      .set (roundKey (n + 1)).1 [] false]) second (roundItems (n + 1)) ∧
    Apart a s (run a.step s [.set (roundKey (n + 1)).1 (filled 1 0 (by decide)).1 false,
      .set (roundKey (n + 1)).1 [] false]) := by
  have hkey := keyId_roundItems_later (show n < n + 1 by omega) (by omega)
  have hlookup := KeyedLog.lookup_of_keyId_none hkey
  have hsize := logSize_roundItems n
  have hneeded : needed (roundKey (n + 1)) (filled 1 0 (by decide)).1 (roundItems n) = 10 := by
    rw [needed, hkey]
    rfl
  obtain ⟨-, hstored, hput⟩ := h.put (k := roundKey (n + 1)) (v := filled 1 0 (by decide)) false
    (by simp [roundKey, byteKey]) (by decide) (by simp [hlookup])
    ⟨by omega, by omega, fun _ => by rw [lastId_roundItems, maxKeyId]; omega⟩
  rw [put_roundItems hkey] at hput
  have hold : KeyedLog.lookup (roundItems n ++ [.key (n + 1) (roundKey (n + 1)),
      .value (n + 1) (filled 1 0 (by decide), false)]) (roundKey (n + 1)) =
        some (filled 1 0 (by decide), false) := by
    rw [KeyedLog.lookup, KeyedLog.candidates_append_key_self hkey]
    simp
  have hsplit : KeyedLog.delete itemSize (roundKey (n + 1)) (roundItems n ++
      [.key (n + 1) (roundKey (n + 1)), .value (n + 1) (filled 1 0 (by decide), false)]) =
        roundItems (n + 1) := by
    refine KeyedLog.delete_split (Q := []) (fun item hitem i hi => ?_) (by simp)
    rw [KeyedLog.keyId_eq_none_iff] at hkey
    refine hkey (List.mem_map_of_mem (f := Prod.snd) (a := (i, roundKey (n + 1))) ?_)
    exact List.mem_filterMap.mpr ⟨item, hitem, by rw [hi]; rfl⟩
  have hgrown : logSize (roundItems n ++ [.key (n + 1) (roundKey (n + 1)),
      .value (n + 1) (filled 1 0 (by decide), false)]) = 10 * n + 10 := by
    rw [logSize_append, hsize]
    rfl
  obtain ⟨-, hdelete, hapart⟩ := hput.delete (k := roundKey (n + 1)) false
    (by simp [roundKey, byteKey]) hold (by omega)
  rw [hsplit] at hdelete
  exact ⟨hdelete, .trans ⟨hstored.outside, hstored.quiet.accepts⟩ hapart⟩

theorem Steady.rounds (h : Steady a s second []) (hn : n < 256)
    (hroom : regionHeaderSize + 10 * n + 6 ≤ a.size) :
    Steady a (run a.step s (roundCalls n)) second (roundItems n) ∧
      Apart a s (run a.step s (roundCalls n)) := by
  induction n with
  | zero => exact ⟨h, fun _ _ => rfl, rfl⟩
  | succ n ih =>
    obtain ⟨hsteady, hapart⟩ := ih (by omega) (by omega)
    obtain ⟨hround, hapart'⟩ := hsteady.round (by omega) hroom
    rw [roundCalls, run_append]
    exact ⟨hround, hapart.trans hapart'⟩

end Rounds

/-! ## Up to the last byte -/

/-- The key that fills the region, `zz`. -/
def fillKey : Payload := ⟨[122, 122], by decide⟩

theorem roundKey_ne_fillKey (n : ℕ) : roundKey n ≠ fillKey :=
  fun h => absurd (congrArg (fun k : Payload => k.1.length) h) (by simp [roundKey, byteKey, fillKey])

theorem keyId_fillKey (n : ℕ) : keyId (roundItems n) fillKey = none :=
  keyId_roundItems fun i _ => roundKey_ne_fillKey i

/-- The log is moved to the second region, keys are set and deleted, and one more
key is set. -/
def fillCalls (n : ℕ) (v : Payload) : List Call :=
  .compact :: (roundCalls n ++ [.set fillKey.1 v.1 false])

/-- The log behind these calls. -/
def fillItems (n : ℕ) (v : Payload) : Items :=
  roundItems n ++ [.key (n + 1) fillKey, .value (n + 1) (v, false)]

theorem logSize_fillItems (n : ℕ) (v : Payload) :
    logSize (fillItems n v) = 10 * n + 10 + v.1.length := by
  rw [fillItems, logSize_append, logSize_roundItems]
  simp [itemSize, entrySize, entryHeaderSize, fillKey]
  omega

theorem steady_fillCalls {a : Area} {s : Sys} {n : ℕ} {v : Payload} (h : Steady a s false [])
    (hn : n < 256) (hv : v.1 ≠ []) (hroom : regionHeaderSize + 10 * n + 6 ≤ a.size)
    (hspace : regionHeaderSize + (10 * n + 10 + v.1.length) ≤ a.size) :
    Steady a (run a.step s (fillCalls n v)) true (fillItems n v) ∧
      Apart a s (run a.step s (fillCalls n v)) := by
  obtain ⟨-, hcompact, hapart₁⟩ := h.compact (by rw [logSize_nil, regionHeaderSize] at *; omega)
  obtain ⟨hrounds, hapart₂⟩ := hcompact.rounds hn hroom
  rw [fillCalls, run_cons, run_append, run_cons, run_nil]
  have hkey := keyId_fillKey n
  have hlog := logSize_roundItems n
  have hneeded : needed fillKey v.1 (roundItems n) = 10 + v.1.length := by
    rw [needed, hkey]
    simp [entrySize, entryHeaderSize, fillKey]
    omega
  have hlookup := lookup_of_keyId_none hkey
  obtain ⟨-, hstored, hput⟩ := hrounds.put (k := fillKey) (v := v) false
    (List.cons_ne_nil _ _) hv (by simp [hlookup])
    ⟨by omega, by omega, fun _ => by rw [lastId_roundItems, maxKeyId]; omega⟩
  rw [put_roundItems hkey] at hput
  exact ⟨hput, (hapart₁.trans hapart₂).trans ⟨hstored.outside, hstored.quiet.accepts⟩⟩

/-- The value that fills the region, with a given last byte. -/
def lastValue (x : UInt8) : Payload :=
  ⟨List.replicate 1526 0 ++ [x], by
    rw [List.length_append, List.length_replicate, List.length_singleton]
    decide⟩

theorem length_lastValue (x : UInt8) : (lastValue x).1.length = 1527 := by
  rw [lastValue, List.length_append, List.length_replicate, List.length_singleton]

def exposedCalls (x : UInt8) : List Call :=
  .compact :: (roundCalls 255 ++ [.set fillKey.1 (lastValue x).1 false])

/-- The log behind these calls. It ends one byte before the end of the region. -/
def exposedItems (x : UInt8) : Items :=
  roundItems 255 ++ [.key 256 fillKey, .value 256 (lastValue x, false)]

theorem logSize_exposedItems (x : UInt8) : logSize (exposedItems x) = 4087 := by
  have hsize := logSize_fillItems 255 (lastValue x)
  rwa [length_lastValue] at hsize

theorem logEnd_exposedItems (x : UInt8) :
    smallArea.logEnd true (exposedItems x) + 1 = smallArea.top := by
  rw [Area.logEnd, logSize_exposedItems]
  rfl

theorem steady_exposedCalls {s : Sys} (h : Steady smallArea s false []) (x : UInt8) :
    Steady smallArea (run smallArea.step s (exposedCalls x)) true (exposedItems x) ∧
      Apart smallArea s (run smallArea.step s (exposedCalls x)) := by
  have hsize : smallArea.size = 4096 := rfl
  have hne : (lastValue x).1 ≠ [] := List.ne_nil_of_length_pos (by rw [length_lastValue]; omega)
  exact steady_fillCalls (n := 255) (v := lastValue x) h (by omega) hne
    (by rw [hsize, regionHeaderSize]; omega)
    (by rw [hsize, regionHeaderSize, length_lastValue]; omega)

/-! ## The phantom -/

section Phantom

variable {a : Area} {s : Sys} {I : Items} {len : ℕ}

/-- With these bytes behind the area, a search that gets past the log finds a
value for the key with the number 255. -/
structure PhantomBehind (a : Area) (f : Image) (len : ℕ) : Prop where
  flags : f a.top = 0xA0
  length : ofLe16 (f (a.top + 1)) (f (a.top + 2)) = UInt16.ofNat len
  small : len < 0x10000

theorem phantomBehind_patch (a : Area) (f : Image) {lo hi : UInt8} (hsmall : len < 0x10000)
    (hlen : ofLe16 lo hi = UInt16.ofNat len) : PhantomBehind a (patch f a.top [0xA0, lo, hi]) len := by
  have hread : read (patch f a.top [0xA0, lo, hi]) a.top [0xA0, lo, hi].length = [0xA0, lo, hi] :=
    read_patch_self
  refine ⟨byte_of_read hread (i := 0) (by simp), ?_, hsmall⟩
  rw [byte_of_read hread (i := 1) (by simp), byte_of_read hread (i := 2) (by simp)]
  exact hlen

/-- The value that is found: what follows the area. -/
def phantomValue (a : Area) (f : Image) (len : ℕ) (h : len < 0x10000) : Payload :=
  ⟨read f (a.top + 3) len, by simpa using h⟩

theorem length_phantomValue (a : Area) (f : Image) (len : ℕ) (h : len < 0x10000) :
    (phantomValue a f len h).1.length = len := length_read ..

/-- The phantom depends on what follows the area only. -/
theorem PhantomBehind.congr {f g : Image} (h : PhantomBehind a f len)
    (same : ∀ x, a.top ≤ x → g x = f x) : PhantomBehind a g len := by
  refine ⟨?_, ?_, h.small⟩
  · rw [same _ le_rfl, h.flags]
  · rw [same _ (by omega), same _ (by omega), h.length]

theorem Opened.phantom_region (h : Opened a s true I) (hlast : a.logEnd true I + 1 = a.top)
    (hphantom : PhantomBehind a s.dev.bytes len) (hlen : len + 3 ≤ a.size + 64) :
    ∃ W, Region s.dev s.info a.limit W ∧
      items W = I ++ [.value 255 (phantomValue a s.dev.bytes len hphantom.small, false)] := by
  obtain ⟨L, rfl, hlayout⟩ := h.holds.log
  have htop := a.region_true_add_size
  have hsize := a.size_pos
  have herased : s.dev.bytes (a.logEnd true (items L)) = 0xFF := hlayout.erased _ le_rfl (by omega)
  let e : Entry := ⟨0xA0FF, phantomValue a s.dev.bytes len hphantom.small, by decide⟩
  have hlength : e.payload.1.length = len := length_phantomValue _ _ _ hphantom.small
  have hheader : read s.dev.bytes (a.logEnd true (items L)) entryHeaderSize = e.header.bytes := by
    have hflags : ofLe16 (s.dev.bytes (a.logEnd true (items L)))
        (s.dev.bytes (a.logEnd true (items L) + 1)) = 0xA0FF := by
      rw [herased, hlast, hphantom.flags]
      decide
    have hlens : ofLe16 (s.dev.bytes (a.logEnd true (items L) + 2))
        (s.dev.bytes (a.logEnd true (items L) + 3)) = UInt16.ofNat len := by
      rw [← hphantom.length, ← hlast]
    rw [← EntryHeader.bytes_ofBytes (l := read s.dev.bytes (a.logEnd true (items L)) entryHeaderSize)
      (by simp [entryHeaderSize]), header_at, hflags, hlens, Entry.header, hlength]
  have hread : read s.dev.bytes (a.logEnd true (items L)) e.size = e.bytes := by
    have haddr : a.logEnd true (items L) + entryHeaderSize = a.top + 3 := by
      rw [entryHeaderSize]
      omega
    rw [Entry.size, entrySize, read_add, hheader, hlength, haddr]
    rfl
  have hwalk : Walk s.dev.bytes (a.region true + a.size) a.limit (a.logEnd true (items L)) [e] := by
    refine ⟨by omega, hread, fun _ => ?_, fun hlt => ?_⟩
    · rw [Entry.size, entrySize, hlength, entryHeaderSize, Area.limit]
      omega
    · have := e.four_le_size
      omega
  have hitem : e.item = .value 255 (phantomValue a s.dev.bytes len hphantom.small, false) := by
    have hid : EntryHeader.id e.header = 255 := show ((0xA0FF : UInt16) &&& entryMaskId).toNat = 255 by decide
    have hlive : EntryHeader.live e.header = true :=
      show ((0xA0FF : UInt16) &&& (entryFlagAlive ||| entryFlagInvalid) == entryFlagAlive) = true by decide
    have hvalue : EntryHeader.isValue e.header = true :=
      show ((0xA0FF : UInt16) &&& entryFlagValue != 0) = true by decide
    have hbinary : EntryHeader.isBinary e.header = false :=
      show ((0xA0FF : UInt16) &&& entryFlagBinary != 0) = false by decide
    rw [Entry.item, if_pos hlive, if_pos hvalue, hid, hbinary]
  exact ⟨L ++ [e], h.region_of_tail hlayout hwalk (by simp [hitem]), by simp [hitem]⟩

end Phantom

/-- The key with the number 255 has no value of its own. -/
theorem find_exposedItems (x : UInt8) :
    find (roundKey 255) (exposedItems x) =
      some (255, [.dead 5, .key 256 fillKey, .value 256 (lastValue x, false)]) := by
  have hnone : find (roundKey 255) (roundItems 254) = none := by
    have hkey := keyId_roundItems_later (show 254 < 255 by decide) (by decide)
    rwa [keyId, Option.map_eq_none_iff] at hkey
  rw [exposedItems, roundItems, List.append_assoc, find_append, hnone]
  simp [find]

/-- Nor has any other, but for the one that fills the region. -/
theorem pairs_exposedItems (x : UInt8) (content : Content) :
    pairs (exposedItems x ++ [.value 255 content]) =
      [(255, roundKey 255, content), (256, fillKey, (lastValue x, false))] := by
  have hrounds (n : ℕ) (hn : n ≤ 254) (M : Items) (hM : ∀ id, id ≤ 254 → values id M = []) :
      pairs (roundItems n ++ M) = pairs M := by
    induction n generalizing M with
    | zero => rfl
    | succ n ih =>
      rw [roundItems, List.append_assoc, ih (by omega)]
      · simp [pairs, hM (n + 1) (by omega)]
      · intro id hid
        simp [hM id hid]
  rw [exposedItems, roundItems, List.append_assoc, List.append_assoc, hrounds 254 le_rfl]
  · simp [pairs]
  · intro id hid
    have hphantom : 255 ≠ id := by omega
    have hlast : 256 ≠ id := by omega
    simp [hphantom, hlast]

end EspOpenRtos.Sysparam
