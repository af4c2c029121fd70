/-
# The store as a finite map

A caller takes the store for a map from keys to values. What one set does to the
map follows from what it does to the log, and along a run the log keeps the
properties that this needs. There are two exceptions. A set that compacts while
the entry of its key stands in the log without a value writes the new value
under a number that no longer stands for the key. And a set that compacts and
then finds no room has already dropped the old value of its key.
-/

import EspOpenRtos.Sysparam.Runs

namespace EspOpenRtos.Sysparam

open Math Math.Runs Math.KeyedLog

/-! ## One set -/

section Step

variable {a : Area} {I J : Items} {k k' : Payload} {value : List UInt8} {isBinary c flip : Bool}
  {status : Status}

variable (h : SetStep a I k value isBinary c status flip J) (inv : KeyedLog.Inv maxKeyId I)
include h inv

/-- A set never changes what other keys stand for. -/
theorem SetStep.lookup_other (hne : k' ≠ k) : lookup J k' = lookup I k' := by
  cases h with
  | badValue => rfl
  | absent => rfl
  | deleted => exact inv.lookup_delete_other hne
  | same => rfl
  | full =>
    cases c with
    | false => rfl
    | true =>
      rw [placed_true, inv.lookup_compact, if_neg]
      rintro ⟨hsome, hid⟩
      obtain ⟨id, hk⟩ := Option.ne_none_iff_exists'.mp hsome
      exact hne (inv.keyId_inj (hid.symm.trans hk) hk)
  | stored => exact inv.lookup_put_other hne

/-- A set that reports success has set its key. -/
theorem SetStep.lookup_self (hok : status.isError = false)
    (kept : value ≠ [] → c = true → keyId I k ≠ none → lookup I k ≠ none)
    (single : value = [] ∨ c = false → (candidates I k).length ≤ 1) : getAnswer (lookup J k) =
      if value = [] then (.notFound, none) else (.ok, some (value, isBinary)) := by
  cases h with
  | badValue | full => simp [Status.isError] at hok
  | absent hvalue hlookup => rw [hlookup, if_pos hvalue, getAnswer]
  | deleted hvalue => rw [lookup_delete_self (single (Or.inl hvalue)), if_pos hvalue, getAnswer]
  | same v hv hne hlookup => rw [hlookup, if_neg hne, getAnswer, hv]
  | stored v hv hne =>
    rw [lookup, inv.candidates_put_self (kept hne) fun hc => single (Or.inr hc), if_neg hne,
      ← hv]
    rfl

theorem SetStep.unshadowed (single : KeyedLog.Unshadowed I)
    (kept : value ≠ [] → c = true → keyId I k ≠ none → lookup I k ≠ none) :
    KeyedLog.Unshadowed J := by
  cases h with
  | badValue => exact single
  | absent => exact single
  | deleted => exact inv.unshadowed_delete single
  | same => exact single
  | full =>
    cases c with
    | false => exact single
    | true => exact inv.unshadowed_compact _
  | stored _ _ hne => exact inv.unshadowed_put single (kept hne)

/-- A set that fails has changed the map only if it compacted and its key had a
value. -/
theorem SetStep.lookup_error_iff (herror : status.isError = true) :
    (∀ k', lookup J k' = lookup I k') ↔
      ¬(status = .errFull ∧ c = true ∧ lookup I k ≠ none) := by
  cases h with
  | badValue => simp
  | absent | deleted | same | stored => simp [Status.isError] at herror
  | full _ _ _ _ hfull =>
    cases c with
    | false => simp [placed_false]
    | true =>
      simp only [true_and, not_not, placed_true, inv.lookup_compact]
      constructor
      · intro hsame
        have hk := hsame k
        by_cases hid : keyId I k = none
        · exact lookup_of_keyId_none hid
        · rwa [if_pos ⟨hid, rfl⟩, eq_comm] at hk
      · intro hnone k'
        split_ifs with hid
        · obtain ⟨id, hk⟩ := Option.ne_none_iff_exists'.mp hid.1
          obtain rfl := inv.keyId_inj (hid.2.symm.trans hk) hk
          exact hnone.symm
        · rfl

end Step

/-! ## Runs -/

/-- The call compacts for a key whose entry is in the log without a value. -/
def ReusesKey (s : Sys) : Call → Prop
  | .set key value _ => value ≠ [] ∧ compacts s (keyOf key).1 value = true ∧
      (lookupKey s (keyOf key).1).2.keyId ≠ none ∧ (lookupKey s (keyOf key).1).2.oldValueAddr = 0
  | _ => False

/-- What a caller expects of a set. -/
structure ActsOnMap (s : Sys) (k : Payload) (value : List UInt8) (isBinary : Bool) : Prop where
  stored : value ≠ [] → (sysparamSetData s k.1 value isBinary).1 = .ok →
    (sysparamGetData (sysparamSetData s k.1 value isBinary).2 k.1).1 = (.ok, some (value, isBinary))
  removed : value = [] → (sysparamSetData s k.1 value isBinary).1.isError = false →
    (sysparamGetData (sysparamSetData s k.1 value isBinary).2 k.1).1 = (.notFound, none)
  others : (sysparamSetData s k.1 value isBinary).1.isError = false → ∀ k' : Payload, k' ≠ k →
    (sysparamGetData (sysparamSetData s k.1 value isBinary).2 k'.1).1 = (sysparamGetData s k'.1).1

section Runs

variable {a : Area} {s : Sys} {second : Bool} {I : Items}

/-- The lookup of a set, in terms of the log. -/
theorem Opened.lookupKey_iff (h : Opened a s second I) (hsealed : Sealed a s.dev.bytes second I)
    (k : Payload) : (Sysparam.lookupKey s k.1).2.keyId = keyId I k ∧
      ((Sysparam.lookupKey s k.1).2.oldValueAddr = 0 ↔ lookup I k = none) := by
  obtain ⟨status, t, hrun, hlocated, hresult⟩ := h.lookupKey hsealed k
  rw [hrun]
  refine ⟨hlocated.keyId, ?_⟩
  rcases hresult with ⟨-, hnone, hzero⟩ | ⟨-, old, id, A, S, hold⟩
  · simp [hnone, hzero]
  · simp [hold.lookup, hold.oldValueAddr, Area.logEnd, regionHeaderSize]

theorem Running.kept_of_not_reusesKey (h : Running a s second I) {key value : List UInt8}
    {isBinary : Bool} (hstep : ¬ReusesKey s (.set key value isBinary)) :
    value ≠ [] → compacts s (keyOf key).1 value = true → keyId I (keyOf key) ≠ none →
      lookup I (keyOf key) ≠ none := by
  intro hne hc hid hnone
  obtain ⟨hkeyId, haddr⟩ := h.opened.lookupKey_iff h.sealed (keyOf key)
  exact hstep ⟨hne, hc, hkeyId ▸ hid, haddr.mpr hnone⟩

theorem Running.not_reusesKey (h : Running a s second I) {key value : List UInt8} {isBinary : Bool}
    (hkey : keyId I (keyOf key) = none ∨ lookup I (keyOf key) ≠ none) :
    ¬ReusesKey s (.set key value isBinary) := by
  rintro ⟨-, -, hid, haddr⟩
  obtain ⟨hkeyId, hold⟩ := h.opened.lookupKey_iff h.sealed (keyOf key)
  exact hkey.elim (hkeyId ▸ hid) fun hsome => hsome (hold.mp haddr)

/-- No key of a running store has two values. -/
def Mapped (a : Area) (s : Sys) : Prop :=
  ∃ second I, Running a s second I ∧ KeyedLog.Unshadowed I

theorem Mapped.step (h : Mapped a s) (call : Call) (hstep : ¬ReusesKey s call) :
    Mapped a (a.step s call) := by
  obtain ⟨second, I, hrunning, hsingle⟩ := h
  have inv := hrunning.opened.holds.inv
  cases call with
  | set key value isBinary =>
    obtain ⟨flip, J, hset, hrunning'⟩ := hrunning.setData (keyOf key) value isBinary
    rw [sysparamSetData_keyOf] at hrunning'
    exact ⟨_, J, hrunning', hset.unshadowed inv hsingle (hrunning.kept_of_not_reusesKey hstep)⟩
  | get key =>
    have hrunning' := (hrunning.getData (keyOf key)).2
    rw [sysparamGetData_keyOf] at hrunning'
    exact ⟨_, I, hrunning', hsingle⟩
  | compact => exact ⟨_, _, hrunning.compact.2.1, inv.unshadowed_compact none⟩
  | init topAddr => exact ⟨_, _, (hrunning.init topAddr).1, hsingle⟩

theorem Fresh.mapped {calls : List Call} (h : Fresh a s) (hinert : Inert (s.dev.bytes a.top))
    (hcalls : Along a.step (fun s call => ¬ReusesKey s call) s calls) :
    Mapped a (run a.step s calls) :=
  run_invariant (fun _ call hmapped hstep => hmapped.step call hstep)
    ⟨_, _, (h.running hinert).1, fun _ => Nat.zero_le _⟩ hcalls

/-- A set of a running store, seen through reads. -/
theorem Running.actsOnMap (h : Running a s second I) {k : Payload} {value : List UInt8}
    {isBinary : Bool} (hstep : ¬ReusesKey s (.set k.1 value isBinary))
    (single : value = [] ∨ compacts s k.1 value = false → (candidates I k).length ≤ 1) :
    ActsOnMap s k value isBinary := by
  obtain ⟨flip, J, hset, hrunning⟩ := h.setData k value isBinary
  have inv := h.opened.holds.inv
  have kept := h.kept_of_not_reusesKey hstep
  rw [keyOf_payload] at kept
  have hself := fun hok => hset.lookup_self inv hok kept single
  constructor
  · intro hne hok
    rw [(hrunning.getData k).1, hself (by rw [hok]; rfl), if_neg hne]
  · intro hvalue hok
    rw [(hrunning.getData k).1, hself hok, if_pos hvalue]
  · intro _ k' hne
    rw [(hrunning.getData k').1, (h.getData k').1, hset.lookup_other inv hne]

end Runs

/-- In a run in which no set compacts for a key without a value, every set acts
on the map as its caller expects. -/
theorem set_acts_on_map {a : Area} {s : Sys} {calls : List Call} (hfresh : Fresh a s)
    (hinert : Inert (s.dev.bytes a.top))
    (hcalls : Along a.step (fun s call => ¬ReusesKey s call) s calls) (k : Payload)
    (value : List UInt8) (isBinary : Bool)
    (hstep : ¬ReusesKey (run a.step s calls) (.set k.1 value isBinary)) :
    ActsOnMap (run a.step s calls) k value isBinary := by
  obtain ⟨second, I, hrunning, hsingle⟩ := hfresh.mapped hinert hcalls
  exact hrunning.actsOnMap hstep fun _ => hsingle k

/-- A key is set and deleted, and another one gets a value. -/
theorem settled_behindDeleted {x y : UInt8} {v : Payload} (hne : x ≠ y) (hv : v.1 ≠ [])
    (hlen : v.1.length ≤ 4000) :
    Settled smallArea (run smallArea.step (smallArea.create blank)
      [.set (byteKey x).1 (filled 1 1 (by decide)).1 false, .set (byteKey x).1 [] false,
        .set (byteKey y).1 v.1 false]) false
      [.key 1 (byteKey x), .dead 5, .key 2 (byteKey y), .value 2 (v, false)] := by
  have hset := settled_single smallArea (k := byteKey x) (v := filled 1 1 (by decide)) false
    (List.cons_ne_nil _ _) (by decide) (show 18 ≤ 4096 by decide)
  have hlookup : lookup [.key 1 (byteKey x), .value 1 (filled 1 1 (by decide), false)] (byteKey x) =
      some (filled 1 1 (by decide), false) := by
    simp [lookup, candidates, find]
  have hdead : delete itemSize (byteKey x)
      [.key 1 (byteKey x), .value 1 (filled 1 1 (by decide), false)] =
        [.key 1 (byteKey x), .dead 5] := if_pos rfl
  obtain ⟨-, hdelete, hapart⟩ := hset.steady.delete false (List.cons_ne_nil _ _) hlookup
    (show 19 ≠ 4096 by decide)
  rw [hdead] at hdelete
  have hkey : find (byteKey y) ([.key 1 (byteKey x), .dead 5] : Items) = none :=
    if_neg (by simpa [byteKey] using hne)
  have hspace : 18 + needed (byteKey y) v.1 [.key 1 (byteKey x), .dead 5] ≤ 4096 := by
    rw [needed, keyId, hkey]
    exact show 18 + (4 + _ + 5) ≤ 4096 by omega
  obtain ⟨-, hstored, hput⟩ := hdelete.put false (List.cons_ne_nil _ _) hv
    (by simp [lookup, candidates, hkey])
    ⟨hspace, show 24 ≤ 4096 by decide, fun _ => show 1 < maxKeyId by decide⟩
  rw [put, keyId, hkey] at hput
  exact hput.settled (by rw [hstored.outside _ le_rfl, hapart.outside _ le_rfl]; exact hset.running.inert)

/-- An update behind a compaction. -/
theorem set_acts_on_map_update :
    ActsOnMap (run smallArea.step (smallArea.create blank)
      [.set (byteKey 107).1 (filled 1 1 (by decide)).1 false, .compact]) (byteKey 107) [2] true := by
  have hcalls : Along smallArea.step (fun s call => ¬ReusesKey s call) (smallArea.create blank)
      [.set (byteKey 107).1 (filled 1 1 (by decide)).1 false, .compact] :=
    ⟨(settled_blank smallArea).running.not_reusesKey (Or.inl rfl), fun h => h, trivial⟩
  refine set_acts_on_map (fresh_blank _).1 (settled_blank smallArea).running.inert hcalls _ _ _ ?_
  exact (settled_single smallArea false (by decide) (by decide) (by decide)).compact.2.running
    |>.not_reusesKey (Or.inr (by decide))

/-- A key is set and deleted, and the region is filled up. -/
def deletedKeyCalls : List Call :=
  [.set (byteKey 107).1 (filled 1 1 (by decide)).1 false, .set (byteKey 107).1 [] false,
    .set (byteKey 98).1 (filled 4000 0 (by decide)).1 false]

/-- The log behind these calls. -/
def deletedKeyLog (content : Content) : Items :=
  [.key 1 (byteKey 107), .dead 5, .key 2 (byteKey 98), .value 2 content]

theorem settled_deletedKeyCalls : ∃ content : Content, content.1.1.length = 4000 ∧
    Settled smallArea (run smallArea.step (smallArea.create blank) deletedKeyCalls) false
      (deletedKeyLog content) :=
  ⟨_, length_filled 4000 0 (by decide), settled_behindDeleted (by decide)
    (filled_ne_nil _ _ (by decide)) (length_filled ..).le⟩

theorem logSize_deletedKeyLog {content : Content} (h : content.1.1.length = 4000) :
    logSize (deletedKeyLog content) = 4019 := by
  simp [deletedKeyLog, itemSize, entrySize, entryHeaderSize, h, byteKey]

/-- A key that was deleted is set again when there is no room for the value. The
call reports success, and the value is not there. -/
theorem set_loses_value_of_deleted_key :
    Fresh smallArea (smallArea.create blank) ∧
      (∀ x, smallArea.top ≤ x → (smallArea.create blank).dev.bytes x = 0xFF) ∧
      (sysparamSetData (run smallArea.step (smallArea.create blank) deletedKeyCalls) (byteKey 107).1
        (filled 72 0 (by decide)).1 false).1 = .ok ∧
      (sysparamGetData (sysparamSetData
        (run smallArea.step (smallArea.create blank) deletedKeyCalls) (byteKey 107).1
        (filled 72 0 (by decide)).1 false).2 (byteKey 107).1).1 = (.notFound, none) := by
  obtain ⟨content, hlen, hsettled⟩ := settled_deletedKeyCalls
  generalize run smallArea.step (smallArea.create blank) deletedKeyCalls = s at hsettled ⊢
  have hsize := logSize_deletedKeyLog hlen
  have hneeded : needed (byteKey 107) (filled 72 0 (by decide)).1 (deletedKeyLog content) = 76 := by
    rw [needed, length_filled]
    rfl
  have harea : smallArea.size = 4096 := rfl
  have hcompacts : compacts s (byteKey 107).1 (filled 72 0 (by decide)).1 = true := by
    rw [hsettled.running.opened.compacts_eq hsettled.running.sealed
      (by rw [Area.logEnd, hsize, harea, regionHeaderSize]; omega), hneeded, hsize, harea,
      if_pos (by decide)]
    have hunused : unused (deletedKeyLog content) = 1 := rfl
    simp [hunused]
  have hroom : ¬Full smallArea true (byteKey 107) (filled 72 0 (by decide)).1
      (deletedKeyLog content) := by
    have hplaced : placed true (byteKey 107) (deletedKeyLog content) =
        [.key 1 (byteKey 98), .value 1 content] := rfl
    rintro (hfull | ⟨hnone, -⟩)
    · rw [hneeded, hplaced, harea] at hfull
      simp [itemSize, entrySize, entryHeaderSize, regionHeaderSize, hlen, byteKey] at hfull
    · exact absurd hnone (Option.some_ne_none 1)
  have hid : keyId (deletedKeyLog content) (byteKey 107) = some 1 := rfl
  have hnone : lookup (deletedKeyLog content) (byteKey 107) = none := rfl
  obtain ⟨hok, hstored, hafter⟩ := hsettled.steady.store hsettled.running.sealed false (by decide)
    (filled_ne_nil _ _ (by decide)) (by simp [hnone]) hcompacts hroom
  refine ⟨(fresh_blank _).1, (fresh_blank _).2, hok, ?_⟩
  rw [((hafter.settled_of_stored hstored hsettled.running).running.getData _).1,
    hsettled.running.opened.holds.inv.lookup_put_lost hid hnone]
  rfl

/-! ## Failed sets -/

/-- The set compacts and then finds that there is no room, and its key has
another value. -/
def LosesValue (a : Area) (s : Sys) (I : Items) (k : Payload) (value : List UInt8)
    (isBinary : Bool) : Prop :=
  k.1 ≠ [] ∧ value ≠ [] ∧ value.length ≤ maxValueLen ∧ compacts s k.1 value = true ∧
    Full a true k value I ∧
    ∃ old : Content, lookup I k = some old ∧ (old.1.1, old.2) ≠ (value, isBinary)

section Failed

variable {a : Area} {s : Sys} {I J : Items} {k : Payload} {value : List UInt8}
  {isBinary flip : Bool} {status : Status}

theorem SetStep.losesValue_iff
    (h : SetStep a I k value isBinary (compacts s k.1 value) status flip J) (hstore : k.1 ≠ []) :
    LosesValue a s I k value isBinary ↔
      status = .errFull ∧ compacts s k.1 value = true ∧ lookup I k ≠ none := by
  constructor
  · rintro ⟨hkey, hne, hlen, hc, hfull, old, hold, hdiffers⟩
    refine ⟨?_, hc, by simp [hold]⟩
    cases h with
    | badValue hbad => exact absurd (hbad.resolve_left hkey) (Nat.not_lt.mpr hlen)
    | absent hvalue => exact absurd hvalue hne
    | deleted hvalue => exact absurd hvalue hne
    | same v hv _ hlookup =>
      rw [hlookup, Option.some.injEq] at hold
      subst hold
      exact absurd (by rw [hv]) hdiffers
    | full => rfl
    | stored _ _ _ _ hroom =>
      rw [hc] at hroom
      exact absurd hfull hroom
  · rintro ⟨hstatus, hc, hsome⟩
    obtain ⟨old, hold⟩ := Option.ne_none_iff_exists'.mp hsome
    generalize hdecision : compacts s k.1 value = c at h
    cases h with
    | badValue => simp at hstatus
    | absent => simp at hstatus
    | deleted => simp at hstatus
    | same => simp at hstatus
    | stored => simp at hstatus
    | full v hv hne hlookup hfull =>
      rw [← hdecision, hc] at hfull
      refine ⟨hstore, hne, ?_, hc, hfull, old, hold, fun hsame => ?_⟩
      · have := v.2
        rw [← hv, maxValueLen]
        omega
      · obtain ⟨hbytes, hbinary⟩ := Prod.ext_iff.mp hsame
        exact hlookup (hold.trans
          (congrArg some (Prod.ext (Subtype.ext (hbytes.trans hv.symm)) hbinary)))

theorem getAnswer_inj {x y : Option Content} (h : getAnswer x = getAnswer y) : x = y := by
  cases x with
  | none => cases y <;> simp_all [getAnswer]
  | some x =>
    cases y with
    | none => simp [getAnswer] at h
    | some y =>
      simp only [getAnswer, Prod.mk.injEq, Option.some.injEq, true_and] at h
      exact congrArg some (Prod.ext (Subtype.ext h.1) h.2)

end Failed

/-- Whatever was called before, a set that fails leaves the map as it was, unless
it compacts first, has no room even so, and its key has another value. -/
theorem failed_set_keeps_map_iff {a : Area} {s : Sys} (hfresh : Fresh a s)
    (hinert : Inert (s.dev.bytes a.top)) (calls : List Call) :
    ∃ second I, Opened a (run a.step s calls) second I ∧
      ∀ (key value : List UInt8) (isBinary : Bool),
        ((sysparamSetData (run a.step s calls) key value isBinary).1.isError = true →
          ∀ key', (sysparamGetData (sysparamSetData (run a.step s calls) key value isBinary).2 key').1 =
            (sysparamGetData (run a.step s calls) key').1) ↔
        ¬LosesValue a (run a.step s calls) I (keyOf key) value isBinary := by
  obtain ⟨second, I, hrunning⟩ := hfresh.reaches hinert calls
  refine ⟨second, I, hrunning.opened, fun key value isBinary => ?_⟩
  generalize run a.step s calls = s at hrunning ⊢
  have inv := hrunning.opened.holds.inv
  obtain ⟨flip, J, hset, hrunning'⟩ := hrunning.setData (keyOf key) value isBinary
  rw [sysparamSetData_keyOf] at hset hrunning'
  -- reads see the logs
  have hreads : (∀ key', (sysparamGetData (sysparamSetData s key value isBinary).2 key').1 =
      (sysparamGetData s key').1) ↔ ∀ k', lookup J k' = lookup I k' := by
    constructor
    · intro hsame k'
      have hk' := hsame k'.1
      rw [(hrunning'.getData k').1, (hrunning.getData k').1] at hk'
      exact getAnswer_inj hk'
    · intro hsame key'
      rw [← sysparamGetData_keyOf, ← sysparamGetData_keyOf s, (hrunning'.getData _).1,
        (hrunning.getData _).1, hsame]
  by_cases hkey : (keyOf key).1 = []
  · -- the empty key is refused
    have hlost : ¬LosesValue a s I (keyOf key) value isBinary := fun h => h.1 hkey
    simp only [hlost, not_false_iff, iff_true]
    intro _ key'
    rw [← sysparamSetData_keyOf, sysparamSetData, if_pos (by simp [hkey])]
  · rw [hset.losesValue_iff hkey, hreads]
    by_cases herror : (sysparamSetData s key value isBinary).1.isError = true
    · simp only [herror, true_imp_iff]
      exact hset.lookup_error_iff inv herror
    · refine iff_of_true (fun h => absurd h herror) ?_
      rintro ⟨hfull, -⟩
      rw [hfull] at herror
      exact herror rfl

/-- A value that is too long for the region is refused, and the other key keeps its own. -/
theorem failed_set_keeps_map_sample :
    (sysparamGetData sampleStore [107]).1 = (.ok, some ([1], false)) ∧
      (sysparamSetData sampleStore [108] (List.replicate 5000 0) false).1 = .errFull ∧
      ∀ key, (sysparamGetData (sysparamSetData sampleStore [108] (List.replicate 5000 0) false).2
        key).1 = (sysparamGetData sampleStore key).1 := by
  have hinert : Inert (sampleStore.dev.bytes smallArea.top) := by decide +kernel
  have hfull : (sysparamSetData sampleStore [108] (List.replicate 5000 0) false).1 = .errFull := by
    decide +kernel
  obtain ⟨second, I, (hopened : Opened smallArea sampleStore second I), hkeeps⟩ :=
    failed_set_keeps_map_iff (fresh_blank smallArea).1 (settled_blank smallArea).running.inert
      sampleCalls
  refine ⟨getData_sampleStore, hfull, (hkeeps [108] (List.replicate 5000 0) false).mpr ?_
    (congrArg Status.isError hfull)⟩
  -- the key of the refused value has no other one
  rintro ⟨-, -, -, -, -, old, hold, -⟩
  obtain ⟨info, hget, -⟩ := hopened.getData (fun _ => hinert) (keyOf [108])
  rw [hold] at hget
  have hnone : (sysparamGetData sampleStore [108]).1 = (.notFound, none) := by decide +kernel
  exact absurd ((congrArg Prod.fst hget).symm.trans hnone) (by simp [getAnswer])

/-- A value that does not fit is refused, and the old value of its key is gone. -/
theorem failed_set_loses_old_value :
    Fresh smallArea (smallArea.create blank) ∧
      (∀ x, smallArea.top ≤ x → (smallArea.create blank).dev.bytes x = 0xFF) ∧
      (sysparamGetData sampleStore [107]).1 = (.ok, some ([1], false)) ∧
      (sysparamSetData sampleStore [107] (List.replicate 5000 0) false).1 = .errFull ∧
      (sysparamGetData (sysparamSetData sampleStore [107] (List.replicate 5000 0) false).2
        [107]).1 = (.notFound, none) :=
  ⟨(fresh_blank _).1, (fresh_blank _).2, getData_sampleStore, by decide +kernel, by decide +kernel⟩

end EspOpenRtos.Sysparam
