/-
# A write that fails

One write of a run fails and leaves its target half programmed. Wherever this
happens, memory and flash still agree on a log afterwards, with one exception: the
last write of a compaction, which retires the old region. If it fails the old
header is zeroed, so the next boot opens the new region, while memory goes on with
the old one.
-/

import EspOpenRtos.Sysparam.PowerCut

namespace EspOpenRtos.Sysparam

open Math Math.NorFlash Math.Runs Math.KeyedLog

/-- One of the next writes is going to fail. -/
def Sys.arm (s : Sys) (fault : WriteFault) : Sys :=
  { s with dev := { s.dev with fault := some fault, failedAt := none } }

/-- The failing write of this call was to the header of the region that held the
log before the call. -/
def RetireFails (a : Area) (s : Sys) (call : Call) : Prop :=
  s.dev.failedAt = none ∧ (a.step s call).dev.failedAt = some s.info.curBase

/-- A boot would not take data of the first region for a header while this region
has none. -/
def Unambiguous (a : Area) (s : Sys) : Prop :=
  s.info.curBase = a.region true → Missing a s.dev.bytes true → NoStray a s.dev.bytes

/-- Memory and flash agree on a log, and the spare region has its header unless the
failing write is over. -/
structure Consistent (a : Area) (s : Sys) (second : Bool) (I : Items) : Prop where
  opened : Opened a s second I
  inert : Inert (s.dev.bytes a.top)
  pending : s.dev.fault ≠ none → Paired a s.dev.bytes second ∧ s.dev.failedAt = none

section Consistent

variable {a : Area} {s s' : Sys} {second second' : Bool} {I J : Items} {k : Payload}
  {value : List UInt8} {isBinary : Bool} {status : Status}

section

variable (h : Consistent a s second I)
include h

theorem Consistent.sealed : Sealed a s.dev.bytes second I :=
  fun _ => h.inert

/-- A step in which no write fails. -/
theorem Consistent.of_quiet (hopened : Opened a s' second' J)
    (houtside : s'.dev.bytes a.top = s.dev.bytes a.top) (hquiet : Quiet s.dev s'.dev)
    (hpaired : Paired a s.dev.bytes second → Paired a s'.dev.bytes second') :
    Consistent a s' second' J := by
  refine ⟨hopened, houtside ▸ h.inert, fun hfault => ?_⟩
  obtain ⟨hspare, hnone⟩ := h.pending fun hnone => hfault (hquiet.fault hnone)
  exact ⟨hpaired hspare, hquiet.failedAt.trans hnone⟩

/-- A step in which a write fails. -/
theorem Consistent.of_failed {x : ℕ} (hopened : Opened a s' second' J)
    (houtside : s'.dev.bytes a.top = s.dev.bytes a.top) (hfailed : Failed s.dev s'.dev x) :
    Consistent a s' second' J :=
  ⟨hopened, houtside ▸ h.inert, fun hfault => absurd hfailed.after hfault⟩

/-- A step in which nothing is written. -/
theorem Consistent.of_dev_eq (hopened : Opened a s' second J) (hdev : s'.dev = s.dev) :
    Consistent a s' second J :=
  h.of_quiet hopened (by rw [hdev]) (hdev ▸ .refl _) (by rw [hdev]; exact id)

theorem Consistent.retire_of_switchFailed (hfailed : SwitchFailed a s s' second J) :
    s.dev.failedAt = none ∧ s'.dev.failedAt = some s.info.curBase :=
  ⟨(h.pending hfailed.failed.before).2, by rw [hfailed.failed.failedAt, h.opened.curBase]⟩

theorem Consistent.getData (k : Payload) : (sysparamGetData s k.1).1 = getAnswer (lookup I k) ∧
      Consistent a (sysparamGetData s k.1).2 second I := by
  obtain ⟨info, hrun, hflag⟩ := h.opened.getData h.sealed k
  rw [hrun]
  exact ⟨rfl, h.of_dev_eq (h.opened.of_flag rfl hflag) rfl⟩

end

theorem Switched.consistent (hswitched : Switched a s s' second J) (h : Consistent a s second I)
    {omitted : Option ℕ} (hJ : J = compact omitted I) : Consistent a s' (!second) J := by
  subst hJ
  obtain ⟨hopened, hpaired, houtside⟩ := hswitched.opened h.opened
  exact h.of_quiet hopened (houtside _ le_rfl) hswitched.quiet fun _ => hpaired

/-- A set of a consistent store, unless the old region cannot be retired. -/
theorem SetOutcome.consistent (houtcome : SetOutcome a s second I k value isBinary status s')
    (h : Consistent a s second I)
    (hretire : ¬(s.dev.failedAt = none ∧ s'.dev.failedAt = some s.info.curBase)) :
    ∃ second' J, Consistent a s' second' J := by
  cases houtcome with
  | badValue => exact ⟨_, _, h⟩
  | absent _ _ _ hsearched | same _ _ _ _ _ hsearched =>
    exact ⟨_, _, h.of_dev_eq (hsearched.opened h.opened) hsearched.dev⟩
  | deleted _ s₁ _ _ _ _ hsearched hdeleted =>
    have h₁ := h.of_dev_eq (hsearched.opened h.opened) hsearched.dev
    obtain ⟨K, hopened, -⟩ := hdeleted.opened
    rcases hdeleted.result with ⟨-, hquiet⟩ | ⟨-, x, hfailed⟩
    · exact ⟨_, _, h₁.of_quiet hopened (hdeleted.outside _ le_rfl) hquiet hdeleted.paired⟩
    · exact ⟨_, _, h₁.of_failed hopened (hdeleted.outside _ le_rfl) hfailed⟩
  | store _ _ v hv hne _ hstore =>
    generalize compacts s k.1 value = c at hstore
    cases hstore with
    | full _ _ hdev hinfo =>
      exact ⟨second, I, h.of_dev_eq (h.opened.of_flag hdev hinfo) hdev⟩
    | compactedFull _ _ hswitched => exact ⟨_, _, hswitched.consistent h rfl⟩
    | stored _ _ _ hstored =>
      exact ⟨_, _, h.of_quiet hstored.opened (hstored.outside _ le_rfl) hstored.quiet hstored.paired⟩
    | failed _ _ hfailed =>
      obtain ⟨x, hwrite⟩ := hfailed.failed
      obtain ⟨second', J, hopened⟩ := hfailed.opened
      exact ⟨_, _, h.of_failed hopened (hfailed.outside _ le_rfl) hwrite⟩
    | switchFailed _ hfailed => exact absurd (h.retire_of_switchFailed hfailed) hretire

theorem CompactOutcome.consistent
    (houtcome : CompactOutcome a s s' second (compact none I) status)
    (h : Consistent a s second I)
    (hretire : ¬(s.dev.failedAt = none ∧ s'.dev.failedAt = some s.info.curBase)) :
    ∃ second' J, Consistent a s' second' J := by
  cases houtcome with
  | switched hswitched => exact ⟨_, _, hswitched.consistent h rfl⟩
  | copyFailed hfailed =>
    obtain ⟨hopened, -, houtside⟩ := hfailed.opened h.opened
    obtain ⟨x, hwrite⟩ := hfailed.failed
    exact ⟨_, _, h.of_failed hopened (houtside _ le_rfl) hwrite⟩
  | switchFailed hfailed => exact absurd (h.retire_of_switchFailed hfailed) hretire

/-- Opening a consistent store finds its log, or nothing if the scan is too short. -/
theorem Consistent.init (h : Consistent a s second I) (hclear : Unambiguous a s) (topAddr : ℕ) :
    Consistent a (sysparamInit s a.base topAddr).2 second I ∧
      (a.region second < scanTop a.base topAddr → (sysparamInit s a.base topAddr).1 = .ok) := by
  have hopened := h.opened
  have hbase := a.base_le_region second
  by_cases hpaired : Paired a s.dev.bytes second
  · by_cases htop : a.base < scanTop a.base topAddr
    · obtain ⟨flag, hrun, -⟩ := sysparamInit_paired hopened.holds hpaired hopened.covers h.sealed htop
      rw [hrun]
      exact ⟨h.of_dev_eq (.of_holds flag hopened.holds (Or.inl hpaired) hopened.covers) rfl,
        fun _ => rfl⟩
    · rw [sysparamInit_of_empty (Nat.le_of_not_lt htop)]
      exact ⟨h, fun hlt => absurd (lt_of_le_of_lt hbase hlt) htop⟩
  · have hmissing := hopened.spare.resolve_left hpaired
    have hnone : s.dev.fault = none := by
      by_contra hfault
      exact hpaired (h.pending hfault).1
    have hstray : second = true → NoStray a s.dev.bytes := by
      rintro rfl
      exact hclear hopened.curBase hmissing
    by_cases htop : a.region second < scanTop a.base topAddr
    · obtain ⟨d, flag, hrun, hbytes, hquiet, -⟩ := sysparamInit_missing hopened.holds hmissing hstray
        hopened.covers h.sealed hnone htop
      have hspare : Paired a d.bytes second := hbytes ▸ paired_respared _
      have htop := a.region_add_size_le (!second)
      rw [hrun]
      refine ⟨h.of_quiet (.of_holds flag (hbytes ▸ hopened.holds.respared) (Or.inl hspare) ?_) ?_ hquiet
        fun _ => hspare, fun _ => rfl⟩
      · exact hopened.covers.of_accepts hquiet.accepts
      · rw [hbytes]
        exact respared_of_outside (Or.inr htop)
    · -- the scan ends before the region that holds the log
      have hshort : sysparamInit s a.base topAddr = (.notFound, s) := by
        have hfind : findHeader s.dev a.base (scanTop a.base topAddr) = some none := by
          cases second with
          | false =>
            rw [Area.region_false] at htop
            rw [findHeader, if_neg htop]
          | true =>
            refine findHeader_none hopened.covers (Nat.le_of_not_lt htop) fun j hj => ?_
            rcases Nat.eq_zero_or_pos j with rfl | hpos
            · rw [Nat.zero_mul, Nat.add_zero]
              exact read_magic_ne hmissing
            · exact hstray rfl j hpos hj
        rw [scanTop] at hfind
        simp only [sysparamInit, a.base_sub_mod, hfind]
      rw [hshort]
      exact ⟨h, fun hlt => absurd hlt htop⟩

/-- Any call on a consistent store. -/
theorem Consistent.step (h : Consistent a s second I) (call : Call)
    (hcall : ¬RetireFails a s call ∧ ∀ topAddr, call = .init topAddr → Unambiguous a s) :
    ∃ second J, Consistent a (a.step s call) second J := by
  obtain ⟨hretire, hclear⟩ := hcall
  unfold RetireFails at hretire
  cases call with
  | set key value isBinary =>
    simp only [Area.step] at hretire ⊢
    rw [← sysparamSetData_keyOf] at hretire ⊢
    obtain ⟨status, s', hrun, houtcome⟩ := h.opened.setData h.sealed (keyOf key) value isBinary
    rw [hrun] at hretire ⊢
    exact houtcome.consistent h hretire
  | get key =>
    simp only [Area.step]
    rw [← sysparamGetData_keyOf]
    exact ⟨_, _, (h.getData (keyOf key)).2⟩
  | compact =>
    simp only [Area.step] at hretire ⊢
    obtain ⟨status, s', hrun, houtcome⟩ := h.opened.compact h.sealed
    rw [hrun] at hretire ⊢
    exact houtcome.consistent h hretire
  | init topAddr => exact ⟨_, _, (h.init (hclear topAddr rfl) topAddr).1⟩

theorem Running.arm (h : Running a s second I) (fault : WriteFault) :
    Consistent a (s.arm fault) second I :=
  ⟨⟨h.opened.holds, h.opened.spare, h.opened.curBase, h.opened.altBase, h.opened.regionSize,
    h.opened.endAddr, h.opened.covers⟩, h.inert, fun _ => ⟨h.paired, rfl⟩⟩

end Consistent

/-- In a run in which one write fails, and not the one that retires the old region of
a compaction, a boot finds the map that the running store shows. -/
theorem failed_write_keeps_agreement {a : Area} {s : Sys} (hfresh : Fresh a s)
    (hinert : Inert (s.dev.bytes a.top)) (fault : WriteFault) {calls : List Call}
    (hcalls : Along a.step (fun s call => ¬RetireFails a s call ∧
      ∀ topAddr, call = .init topAddr → Unambiguous a s) (s.arm fault) calls)
    (hclear : Unambiguous a (run a.step (s.arm fault) calls)) {topAddr : ℕ}
    (htop : a.top ≤ topAddr) :
    (sysparamInit (run a.step (s.arm fault) calls) a.base topAddr).1 = .ok ∧
      ∀ key, (sysparamGetData (sysparamInit (run a.step (s.arm fault) calls) a.base topAddr).2
        key).1 = (sysparamGetData (run a.step (s.arm fault) calls) key).1 := by
  obtain ⟨second, I, hconsistent⟩ : ∃ second I, Consistent a (run a.step (s.arm fault) calls) second I :=
    run_invariant (P := fun s => ∃ second I, Consistent a s second I)
      (fun _ call ⟨_, _, hconsistent⟩ hcall => hconsistent.step call hcall)
      ⟨_, _, (hfresh.running hinert).1.arm fault⟩ hcalls
  generalize run a.step (s.arm fault) calls = s at hconsistent hclear ⊢
  obtain ⟨hboot, hok⟩ := hconsistent.init hclear topAddr
  refine ⟨hok (region_lt_scanTop htop second), fun key => ?_⟩
  rw [← sysparamGetData_keyOf, ← sysparamGetData_keyOf s, (hboot.getData _).1,
    (hconsistent.getData _).1]

/-- A run in which the first write of the last set is going to fail. -/
def failingCalls : List Call := sampleCalls ++ [.set [107] [2] false]

/-- The write fails behind the log, and the old value is kept. -/
theorem failed_write_keeps_agreement_set :
    ∃ t, t = run smallArea.step ((smallArea.create blank).arm ⟨13, fun _ => 0⟩) failingCalls ∧
      t.dev.failedAt = some 0x101C ∧ (sysparamGetData t [107]).1 = (.ok, some ([1], false)) ∧
      (sysparamInit t smallArea.base smallArea.top).1 = .ok ∧
      ∀ key, (sysparamGetData (sysparamInit t smallArea.base smallArea.top).2 key).1 =
        (sysparamGetData t key).1 := by
  have hcalls : Along smallArea.step (fun s call => ¬RetireFails smallArea s call ∧
      ∀ topAddr, call = .init topAddr → Unambiguous smallArea s)
      ((smallArea.create blank).arm ⟨13, fun _ => 0⟩) failingCalls := by
    refine ⟨⟨fun h => absurd h.2 (by decide +kernel), fun _ h => by cases h⟩,
      ⟨fun h => absurd h.2 (by decide +kernel), fun _ h => by cases h⟩,
      ⟨fun h => absurd h.2 (by decide +kernel), fun _ h => by cases h⟩,
      ⟨fun h => absurd h.2 (by decide +kernel), fun _ h => by cases h⟩, trivial⟩
  have hfirst : (run smallArea.step ((smallArea.create blank).arm ⟨13, fun _ => 0⟩)
      failingCalls).info.curBase ≠ smallArea.region true := by decide +kernel
  exact ⟨_, rfl, by decide +kernel, by decide +kernel, failed_write_keeps_agreement
    (fresh_blank smallArea).1 (settled_blank smallArea).running.inert ⟨13, fun _ => 0⟩ hcalls
    (fun hsecond => absurd hsecond hfirst) le_rfl⟩

/-- A set compacts, and the write that retires the old region fails. The running store
still has the old value, and a boot finds no value. -/
theorem failed_retiring_splits_map :
    let result := sysparamSetData (sampleStore.arm ⟨4, fun _ => 0⟩) [107] (List.replicate 4070 0)
      false
    Fresh smallArea (smallArea.create blank) ∧
      (∀ x, smallArea.top ≤ x → (smallArea.create blank).dev.bytes x = 0xFF) ∧
      result.1 = .errIo ∧ result.2.dev.failedAt = some smallArea.base ∧
      (sysparamGetData result.2 [107]).1 = (.ok, some ([1], false)) ∧
      (sysparamInit result.2 smallArea.base smallArea.top).1 = .ok ∧
      (sysparamGetData (sysparamInit result.2 smallArea.base smallArea.top).2 [107]).1 =
        (.notFound, none) := by
  refine ⟨(fresh_blank _).1, (fresh_blank _).2, ?_, ?_, ?_, ?_, ?_⟩ <;> decide +kernel

end EspOpenRtos.Sysparam
