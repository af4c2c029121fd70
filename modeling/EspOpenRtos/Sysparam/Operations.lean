/-
# The operations on an opened store

What a call of the interface does to an opened store is said here in terms of
its log, once with a write that may fail and once without. The second form is a
step of an abstract machine: the log of the store is replaced by another log,
and the status of the call says which.
-/

import EspOpenRtos.Sysparam.StoreSpec

namespace EspOpenRtos.Sysparam

open Math Math.KeyedLog

/-! ## Outcomes -/

/-- The log has only been searched. The search may set the force-compaction
flag, but only in a log that ends one byte before its region. -/
structure Searched (a : Area) (s s' : Sys) (second : Bool) (I : Items) : Prop where
  dev : s'.dev = s.dev
  info : s.info.UpToFlag s'.info
  calm : a.logEnd second I + 1 ≠ a.region second + a.size → s'.info = s.info

/-- The outcomes of `sysparam_set_data`. -/
inductive SetOutcome (a : Area) (s : Sys) (second : Bool) (I : Items) (k : Payload)
    (value : List UInt8) (isBinary : Bool) : Status → Sys → Prop
  | badValue (h : k.1 = [] ∨ maxValueLen < value.length) :
      SetOutcome a s second I k value isBinary .errBadValue s
  /-- There is nothing to delete. -/
  | absent (s' : Sys) (hvalue : value = []) (hlookup : KeyedLog.lookup I k = none)
      (hsearched : Searched a s s' second I) : SetOutcome a s second I k value isBinary .notFound s'
  | deleted (status : Status) (s₁ s' : Sys) (hvalue : value = []) (old : Content)
      (hlookup : KeyedLog.lookup I k = some old) (hsearched : Searched a s s₁ second I)
      (hdeleted : Deleted a s₁ s' second (KeyedLog.delete itemSize k I) status) :
      SetOutcome a s second I k value isBinary status s'
  /-- The value is the one that is there. -/
  | same (s' : Sys) (v : Payload) (hv : v.1 = value) (hne : value ≠ [])
      (hlookup : KeyedLog.lookup I k = some (v, isBinary)) (hsearched : Searched a s s' second I) :
      SetOutcome a s second I k value isBinary .ok s'
  | store (status : Status) (s' : Sys) (v : Payload) (hv : v.1 = value) (hne : value ≠ [])
      (hlookup : KeyedLog.lookup I k ≠ some (v, isBinary))
      (hstore : StoreOutcome a s second I k (v, isBinary) (compacts s k.1 value) status s') :
      SetOutcome a s second I k value isBinary status s'

section Outcome

variable {a : Area} {s s' : Sys} {second : Bool} {I : Items} {k : Payload} {t : Setting}

theorem Searched.opened (h : Searched a s s' second I) (hopened : Opened a s second I) :
    Opened a s' second I := hopened.of_flag h.dev h.info

theorem Located.searched (h : Located a s second I k t) : Searched a s t.sys second I :=
  ⟨h.dev, h.info, h.calm⟩

/-- Deleting a value, or finding that there is none. -/
theorem Located.deleteData (h : Located a s second I k t) (hopened : Opened a s second I)
    {old : Content} {id : ℕ} {A S : Items} (hold : OldValue a s.dev.bytes second I k old t id A S) :
    ∃ status t', deleteOld .ok t = (status, t') ∧
      Deleted a t.sys t'.sys second (delete itemSize k I) status := by
  have hopened' := h.searched.opened hopened
  have hpos : a.logEnd second A ≠ 0 := by
    rw [Area.logEnd, regionHeaderSize]
    omega
  have hsplit := hold.split
  subst hsplit
  obtain ⟨status, d', hrun, hdeleted⟩ := hopened'.deleteEntry
  rw [hold.delete]
  refine ⟨status, { t with sys := ⟨d', t.sys.info⟩ }, ?_, hdeleted⟩
  simp only [deleteOld, hold.oldValueAddr, if_pos hpos, hrun]

theorem key_take (k : Payload) : k.1.take (k.1.length % 0x10000) = k.1 := by
  rw [Nat.mod_eq_of_lt k.2, List.take_length]

/-- What `sysparam_set_data` does to an opened store. -/
theorem Opened.setData (h : Opened a s second I) (hsealed : Sealed a s.dev.bytes second I)
    (k : Payload) (value : List UInt8) (isBinary : Bool) :
    ∃ status s', sysparamSetData s k.1 value isBinary = (status, s') ∧
      SetOutcome a s second I k value isBinary status s' := by
  have hbase := h.curBase_ne
  simp only [sysparamSetData, key_take]
  by_cases hkey : k.1 = []
  · exact ⟨_, _, by simp [hkey], .badValue (Or.inl hkey)⟩
  rw [if_neg (by simpa using hkey)]
  by_cases hlong : value.length > maxValueLen
  · exact ⟨_, _, by rw [if_pos hlong], .badValue (Or.inr hlong)⟩
  rw [if_neg hlong, if_neg hbase]
  have hlen : value.length < 0x10000 := by
    rw [maxValueLen] at hlong
    omega
  obtain ⟨status, t, hlookup, hlocated, hresult⟩ := h.lookupKey hsealed k
  have hstatus : status.isError = false := by
    rcases hresult with ⟨rfl, -⟩ | ⟨rfl, -⟩ <;> rfl
  simp only [hlookup, hstatus, Bool.false_eq_true, if_false]
  by_cases hvalue : value = []
  · -- delete
    rw [if_pos hvalue]
    rcases hresult with ⟨rfl, hnone, hzero⟩ | ⟨rfl, old, id, A, S, hold⟩
    · exact ⟨.notFound, t.sys, by simp [deleteOld, hzero], .absent _ hvalue hnone hlocated.searched⟩
    · obtain ⟨status, t', hrun, hdeleted⟩ := hlocated.deleteData h hold
      exact ⟨status, t'.sys, by rw [hrun],
        .deleted _ _ _ hvalue old hold.lookup hlocated.searched hdeleted⟩
  · rw [if_neg hvalue]
    have hsought := Sought.of_lookup hresult
    rw [hlocated.sameValue h hsought ⟨value, hlen⟩]
    by_cases hequal : lookup I k = some (⟨value, hlen⟩, isBinary)
    · rw [if_pos hequal]
      exact ⟨.ok, t.sys, rfl, .same _ ⟨value, hlen⟩ rfl hvalue hequal hlocated.searched⟩
    · rw [if_neg hequal]
      obtain ⟨status, t', hrun, houtcome⟩ :=
        hlocated.storeValue h hsealed (⟨value, hlen⟩, isBinary) hsought
      have hcompacts : compacts s k.1 value = compactsAt (countOldValue t) k.1 value := by
        rw [compacts, hlookup]
      simp only at hrun
      exact ⟨status, t'.sys, by rw [hrun], .store _ _ ⟨value, hlen⟩ rfl hvalue hequal
        (hcompacts ▸ houtcome)⟩

/-- A value that differs from the current one is stored. -/
theorem SetOutcome.store_of_ne {v : Payload} {isBinary : Bool} {status : Status}
    (h : SetOutcome a s second I k v.1 isBinary status s') (hk : k.1 ≠ []) (hv : v.1 ≠ [])
    (hlookup : lookup I k ≠ some (v, isBinary)) :
    StoreOutcome a s second I k (v, isBinary) (compacts s k.1 v.1) status s' := by
  have hlen := v.2
  cases h with
  | badValue hbad =>
    rw [maxValueLen] at hbad
    exact absurd (hbad.resolve_left hk) (by omega)
  | absent _ hvalue => exact absurd hvalue hv
  | deleted _ _ _ hvalue => exact absurd hvalue hv
  | same _ v' hv' _ hlookup' =>
    obtain rfl := Subtype.ext hv'
    exact absurd hlookup' hlookup
  | store _ _ v' hv' _ _ hstore =>
    obtain rfl := Subtype.ext hv'
    exact hstore

/-- What `sysparam_compact` does to an opened store. -/
theorem Opened.compact (h : Opened a s second I) (hsealed : Sealed a s.dev.bytes second I) :
    ∃ status s', sysparamCompact s = (status, s') ∧
      CompactOutcome a s s' second (compact none I) status := by
  have hbase := h.curBase_ne
  obtain ⟨status, s', ctx, keyId, hrun, houtcome, -⟩ := h.compactParams hsealed none none
  exact ⟨status, s', by rw [sysparamCompact, if_neg hbase, hrun], houtcome⟩

end Outcome

/-! ## Runs without faults -/

/-- A store that runs on flash without faults, and whose area is followed by a
byte that does not complete a live entry. -/
structure Running (a : Area) (s : Sys) (second : Bool) (I : Items) : Prop where
  opened : Opened a s second I
  paired : Paired a s.dev.bytes second
  fault : s.dev.fault = none
  inert : Inert (s.dev.bytes a.top)

/-- The effect of `sysparam_set_data` on the log: its status, whether the log
moves to the other region, and the new log. -/
inductive SetStep (a : Area) (I : Items) (k : Payload) (value : List UInt8) (isBinary c : Bool) :
    Status → Bool → Items → Prop
  | badValue (h : k.1 = [] ∨ maxValueLen < value.length) :
      SetStep a I k value isBinary c .errBadValue false I
  | absent (hvalue : value = []) (hlookup : KeyedLog.lookup I k = none) :
      SetStep a I k value isBinary c .notFound false I
  | deleted (hvalue : value = []) (old : Content) (hlookup : KeyedLog.lookup I k = some old) :
      SetStep a I k value isBinary c .ok false (KeyedLog.delete itemSize k I)
  | same (v : Payload) (hv : v.1 = value) (hne : value ≠ [])
      (hlookup : KeyedLog.lookup I k = some (v, isBinary)) :
      SetStep a I k value isBinary c .ok false I
  /-- There is no room, which may be known only after a compaction. -/
  | full (v : Payload) (hv : v.1 = value) (hne : value ≠ [])
      (hlookup : KeyedLog.lookup I k ≠ some (v, isBinary)) (hfull : Full a c k value I) :
      SetStep a I k value isBinary c .errFull c (placed c k I)
  | stored (v : Payload) (hv : v.1 = value) (hne : value ≠ [])
      (hlookup : KeyedLog.lookup I k ≠ some (v, isBinary)) (hroom : ¬Full a c k value I) :
      SetStep a I k value isBinary c .ok c (KeyedLog.put itemSize c k (v, isBinary) I)

section Running

variable {a : Area} {s s' : Sys} {second : Bool} {I : Items} {k : Payload} {value : List UInt8}
  {isBinary : Bool} {status : Status}

theorem Running.sealed (h : Running a s second I) : Sealed a s.dev.bytes second I := fun _ => h.inert

theorem Running.searched (h : Running a s second I) (hsearched : Searched a s s' second I) :
    Running a s' second I :=
  ⟨hsearched.opened h.opened, hsearched.dev ▸ h.paired, hsearched.dev ▸ h.fault,
    hsearched.dev ▸ h.inert⟩

theorem Running.switched (h : Running a s second I) {keyId : Option ℕ}
    (hswitched : Switched a s s' second (compact keyId I)) :
    Running a s' (!second) (compact keyId I) := by
  obtain ⟨hopened, hpaired, houtside⟩ := hswitched.opened h.opened
  exact ⟨hopened, hpaired, hswitched.quiet.fault h.fault, by rw [houtside _ le_rfl]; exact h.inert⟩

theorem Running.deleted (h : Running a s second I) {J : Items}
    (hdeleted : Deleted a s s' second J status) : status = .ok ∧ Running a s' second J := by
  obtain ⟨K, hopened, hok⟩ := hdeleted.opened
  rcases hdeleted.result with ⟨rfl, hquiet⟩ | ⟨-, x, hfailed⟩
  · refine ⟨rfl, hok rfl ▸ hopened, hdeleted.paired h.paired, hquiet.fault h.fault, ?_⟩
    rw [hdeleted.outside _ le_rfl]
    exact h.inert
  · exact absurd h.fault hfailed.before

/-- Without a fault a set is a step of the log. -/
theorem SetOutcome.step (houtcome : SetOutcome a s second I k value isBinary status s')
    (h : Running a s second I) :
    ∃ flip J, SetStep a I k value isBinary (compacts s k.1 value) status flip J ∧
      Running a s' (second ^^ flip) J := by
  cases houtcome with
  | badValue hbad => exact ⟨false, I, .badValue hbad, by rwa [Bool.xor_false]⟩
  | absent _ hvalue hlookup hsearched =>
    exact ⟨false, I, .absent hvalue hlookup, by rw [Bool.xor_false]; exact h.searched hsearched⟩
  | deleted _ s₁ _ hvalue old hlookup hsearched hdeleted =>
    obtain ⟨rfl, hrunning⟩ := (h.searched hsearched).deleted hdeleted
    exact ⟨false, _, .deleted hvalue old hlookup, by rwa [Bool.xor_false]⟩
  | same _ v hv hne hlookup hsearched =>
    exact ⟨false, I, .same v hv hne hlookup, by rw [Bool.xor_false]; exact h.searched hsearched⟩
  | store _ _ v hv hne hlookup hstore =>
    subst hv
    generalize compacts s k.1 v.1 = c at hstore ⊢
    cases hstore with
    | full _ hfull hdev hinfo =>
      refine ⟨false, I, .full v rfl hne hlookup hfull, ?_⟩
      rw [Bool.xor_false]
      exact ⟨h.opened.of_flag hdev hinfo, hdev ▸ h.paired, hdev ▸ h.fault, hdev ▸ h.inert⟩
    | compactedFull _ hfull hswitched =>
      refine ⟨true, _, .full v rfl hne hlookup hfull, ?_⟩
      rw [Bool.xor_true]
      exact h.switched hswitched
    | stored _ _ hroom hstored =>
      refine ⟨c, _, .stored v rfl hne hlookup hroom, hstored.opened, hstored.paired h.paired,
        hstored.quiet.fault h.fault, ?_⟩
      rw [hstored.outside _ le_rfl]
      exact h.inert
    | failed _ _ hfailed => exact absurd h.fault (fault_of_failed hfailed.failed)
    | switchFailed _ hfailed => exact absurd h.fault hfailed.failed.before

variable (h : Running a s second I)
include h

theorem Running.setData (k : Payload) (value : List UInt8) (isBinary : Bool) :
    ∃ flip J, SetStep a I k value isBinary (compacts s k.1 value)
        (sysparamSetData s k.1 value isBinary).1 flip J ∧
      Running a (sysparamSetData s k.1 value isBinary).2 (second ^^ flip) J := by
  obtain ⟨status, s', hrun, houtcome⟩ := h.opened.setData h.sealed k value isBinary
  rw [hrun]
  exact houtcome.step h

theorem Running.getData (k : Payload) : (sysparamGetData s k.1).1 = getAnswer (lookup I k) ∧
      Running a (sysparamGetData s k.1).2 second I := by
  obtain ⟨info, hget, hflag⟩ := h.opened.getData h.sealed k
  rw [hget]
  exact ⟨rfl, h.opened.of_flag rfl hflag, h.paired, h.fault, h.inert⟩

theorem Running.compact : (sysparamCompact s).1 = .ok ∧
      Running a (sysparamCompact s).2 (!second) (compact none I) ∧
      Switched a s (sysparamCompact s).2 second (compact none I) := by
  obtain ⟨status, s', hrun, houtcome⟩ := h.opened.compact h.sealed
  rw [hrun]
  cases houtcome with
  | switched hswitched => exact ⟨rfl, h.switched hswitched, hswitched⟩
  | copyFailed hfailed => exact absurd h.fault (fault_of_failed hfailed.failed)
  | switchFailed hfailed => exact absurd h.fault hfailed.failed.before

/-- Opening once more changes nothing, or fails because the range to be scanned
is empty. -/
theorem Running.init (topAddr : ℕ) : Running a (sysparamInit s a.base topAddr).2 second I ∧
      (a.base < scanTop a.base topAddr → (sysparamInit s a.base topAddr).1 = .ok) := by
  by_cases htop : a.base < scanTop a.base topAddr
  · obtain ⟨flag, hrun, -⟩ := sysparamInit_paired h.opened.holds h.paired h.opened.covers h.sealed htop
    rw [hrun]
    exact ⟨⟨.of_holds flag h.opened.holds (Or.inl h.paired) h.opened.covers, h.paired, h.fault, h.inert⟩,
      fun _ => rfl⟩
  · rw [sysparamInit_of_empty (Nat.le_of_not_lt htop)]
    exact ⟨h, fun hlt => absurd hlt htop⟩

end Running

end EspOpenRtos.Sysparam
