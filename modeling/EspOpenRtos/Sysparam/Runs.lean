/-
# Runs of the store

A program creates an area, opens it, and then calls the interface as it likes.
In every state that it reaches without faults the store is open on some log, and
this is where the results about whole runs start from.
-/

import EspOpenRtos.Math.Runs
import EspOpenRtos.Sysparam.Operations

namespace EspOpenRtos.Sysparam

open Math Math.NorFlash Math.Runs Math.KeyedLog

/-- The calls of a program. A set with an empty value deletes. -/
inductive Call
  | set (key value : List UInt8) (isBinary : Bool)
  | get (key : List UInt8)
  | compact
  | init (topAddr : ℕ)

/-- The store after a call. Opening is always at the start of the area. -/
def Area.step (a : Area) (s : Sys) : Call → Sys
  | .set key value isBinary => (sysparamSetData s key value isBinary).2
  | .get key => (sysparamGetData s key).2
  | .compact => (sysparamCompact s).2
  | .init topAddr => (sysparamInit s a.base topAddr).2

/-- What follows the area is as before, and so is the driver. -/
structure Apart (a : Area) (s s' : Sys) : Prop where
  outside : ∀ x, a.top ≤ x → s'.dev.bytes x = s.dev.bytes x
  accepts : s'.dev.accepts = s.dev.accepts

theorem Apart.trans {a : Area} {s s' s'' : Sys} (h : Apart a s s') (h' : Apart a s' s'') :
    Apart a s s'' :=
  ⟨fun x hx => (h'.outside x hx).trans (h.outside x hx), h'.accepts.trans h.accepts⟩

/-- The store has just been created and opened, without a fault. -/
def Fresh (a : Area) (s : Sys) : Prop :=
  ∃ s₀ force topAddr, s₀.dev.fault = none ∧ s₀.dev.Covers a.limit ∧
    (sysparamCreateArea s₀ a.base (2 * a.sectors) force).1 = .ok ∧
    sysparamInit (sysparamCreateArea s₀ a.base (2 * a.sectors) force).2 a.base topAddr = (.ok, s)

/-- What the store makes of a key: lengths are 16-bit variables. -/
def keyOf (key : List UInt8) : Payload :=
  ⟨key.take (key.length % 0x10000), by rw [List.length_take]; omega⟩

section Runs

variable {a : Area} {s : Sys} {second : Bool} {I : Items}

theorem keyOf_payload (k : Payload) : keyOf k.1 = k := Subtype.ext (key_take k)

theorem sysparamSetData_keyOf (s : Sys) (key value : List UInt8) (isBinary : Bool) :
    sysparamSetData s (keyOf key).1 value isBinary = sysparamSetData s key value isBinary := by
  simp only [sysparamSetData, key_take]
  rfl

theorem sysparamGetData_keyOf (s : Sys) (key : List UInt8) :
    sysparamGetData s (keyOf key).1 = sysparamGetData s key := by
  simp only [sysparamGetData, key_take]
  rfl

/-- The store is open, the flash works and no compaction is pending. Nothing is
said about what follows the area. -/
structure Steady (a : Area) (s : Sys) (second : Bool) (I : Items) : Prop where
  opened : Opened a s second I
  paired : Paired a s.dev.bytes second
  fault : s.dev.fault = none
  calm : s.info.forceCompact = false

/-- What follows the area does not matter while the log does not end one byte
before it. -/
theorem Holds.sealed {f : Image} (h : Holds a f second I)
    (hroom : regionHeaderSize + logSize I + 1 ≠ a.size) : Sealed a f second I := by
  intro hlast
  have hlog := h.logSize_le
  have hsize := a.size_pos
  simp only [Area.top] at hlast
  cases second <;> simp only [Area.region_false, Area.region_true] at hlast <;> omega

/-- A fresh store is open on an empty log. -/
theorem Fresh.steady (h : Fresh a s) : Steady a s false [] := by
  obtain ⟨s₀, force, topAddr, hfault, hcovers, hcreate, hinit⟩ := h
  obtain ⟨s₁, hrun, hbytes, hquiet⟩ := sysparamCreateArea_spec force hcovers hfault (Or.inr hcreate)
  rw [hrun] at hinit
  have hholds : Holds a s₁.dev.bytes false [] := hbytes ▸ holds_created _
  have hpaired : Paired a s₁.dev.bytes false := hbytes ▸ paired_created _
  have hcovers₁ := hcovers.of_accepts hquiet.accepts
  have hsize := a.size_pos
  have hroom : regionHeaderSize + logSize [] + 1 ≠ a.size := by
    rw [logSize_nil, regionHeaderSize]
    omega
  have htop : a.base < scanTop a.base topAddr := by
    by_contra hle
    rw [sysparamInit_of_empty (Nat.le_of_not_lt hle)] at hinit
    simp at hinit
  obtain ⟨flag, hopen, hflag⟩ := sysparamInit_paired hholds hpaired hcovers₁ (hholds.sealed hroom) htop
  obtain rfl : _ = s := (Prod.ext_iff.mp (hopen.symm.trans hinit)).2
  refine ⟨.of_holds flag hholds (Or.inl hpaired) hcovers₁, hpaired, hquiet.fault hfault, ?_⟩
  by_contra hset
  obtain ⟨hlast, -⟩ := hflag.mp (by simpa [Area.info] using hset)
  rw [Area.logEnd] at hlast
  omega

theorem Fresh.running (h : Fresh a s) (hinert : Inert (s.dev.bytes a.top)) :
    Running a s false [] ∧ s.info.forceCompact = false := by
  obtain ⟨hopened, hpaired, hfault, hcalm⟩ := h.steady
  exact ⟨⟨hopened, hpaired, hfault, hinert⟩, hcalm⟩

/-- Without faults the store stays open, whatever is called. -/
theorem Running.step (h : Running a s second I) (call : Call) :
    ∃ second J, Running a (a.step s call) second J := by
  cases call with
  | set key value isBinary =>
    obtain ⟨flip, J, -, hrunning⟩ := h.setData (keyOf key) value isBinary
    rw [sysparamSetData_keyOf] at hrunning
    exact ⟨_, _, hrunning⟩
  | get key =>
    have hrunning := (h.getData (keyOf key)).2
    rw [sysparamGetData_keyOf] at hrunning
    exact ⟨_, _, hrunning⟩
  | compact => exact ⟨_, _, h.compact.2.1⟩
  | init topAddr => exact ⟨_, _, (h.init topAddr).1⟩

theorem Running.reaches (h : Running a s second I) (calls : List Call) :
    ∃ second I, Running a (run a.step s calls) second I :=
  run_invariant (P := fun s => ∃ second I, Running a s second I)
    (fun _ call ⟨_, _, hrunning⟩ _ => hrunning.step call) ⟨_, _, h⟩ (along_true s calls)

theorem Fresh.reaches (h : Fresh a s) (hinert : Inert (s.dev.bytes a.top)) (calls : List Call) :
    ∃ second I, Running a (run a.step s calls) second I :=
  (h.running hinert).1.reaches calls

/-! ## Steps with a known outcome -/

/-- An erased chip, and nothing in memory. -/
def blank : Sys := ⟨⟨fun _ _ => true, fun _ => 0xFF, [], none, none⟩, ⟨0, 0, 0, 0, false⟩⟩

/-- An area with one sector for each region. -/
def smallArea : Area := ⟨0x1000, 1, by decide, by decide, by decide, by decide⟩

/-- A key of one byte. -/
def byteKey (x : UInt8) : Payload := ⟨[x], by simp⟩

/-- A value of equal bytes. -/
def filled (n : ℕ) (x : UInt8) (h : n < 0x10000) : Payload := ⟨List.replicate n x, by simpa using h⟩

theorem one_short : 1 < 0x10000 := by decide

theorem length_filled (n : ℕ) (x : UInt8) (h : n < 0x10000) : (filled n x h).1.length = n :=
  List.length_replicate

theorem filled_ne_nil {n : ℕ} (x : UInt8) (h : n < 0x10000) (hn : n ≠ 0) : (filled n x h).1 ≠ [] :=
  List.ne_nil_of_length_pos (by rw [length_filled]; omega)

/-- Create an area and open it. -/
def Area.create (a : Area) (s : Sys) : Sys :=
  (sysparamInit (sysparamCreateArea s a.base (2 * a.sectors) true).2 a.base a.top).2

section

variable (a) (hfault : s.dev.fault = none) (hcovers : s.dev.Covers a.limit)
include hfault hcovers

/-- What creating an area leaves on the chip and in memory. -/
theorem create_eq : ∃ s₁ flag, sysparamCreateArea s a.base (2 * a.sectors) true = (.ok, s₁) ∧
      sysparamInit s₁ a.base a.top = (.ok, a.create s) ∧
      a.create s = ⟨s₁.dev, a.info false (a.logEnd false []) flag⟩ ∧
      s₁.dev.bytes = created a s.dev.bytes ∧ Quiet s.dev s₁.dev := by
  obtain ⟨s₁, hrun, hbytes, hquiet⟩ := sysparamCreateArea_spec true hcovers hfault (Or.inl rfl)
  have hsize := a.size_pos
  have htop : a.base < a.top := by rw [Area.top]; omega
  have hscan : scanTop a.base a.top = a.top := if_neg (by omega)
  have hsealed : Sealed a s₁.dev.bytes false [] := by
    intro hlast
    simp only [Area.region_false, regionHeaderSize, logSize_nil, Area.top] at hlast
    omega
  obtain ⟨flag, hopen, -⟩ := sysparamInit_paired (hbytes ▸ holds_created _) (hbytes ▸ paired_created _)
    (hcovers.of_accepts hquiet.accepts) hsealed (hscan ▸ htop)
  have hcreate : a.create s = ⟨s₁.dev, a.info false (a.logEnd false []) flag⟩ := by
    rw [Area.create, hrun, hopen]
  exact ⟨s₁, flag, hrun, by rw [hopen, hcreate], hcreate, hbytes, hquiet⟩

theorem fresh_create :
    Fresh a (a.create s) ∧ ∀ x, a.top ≤ x → (a.create s).dev.bytes x = s.dev.bytes x := by
  obtain ⟨s₁, flag, hrun, hopen, hcreate, hbytes, -⟩ := create_eq a hfault hcovers
  refine ⟨⟨s, true, a.top, hfault, hcovers, by rw [hrun], by rw [hrun, hopen]⟩, ?_⟩
  intro x hx
  rw [hcreate, hbytes]
  exact formatted_of_outside a.sectors_pos (Or.inr hx)

theorem quiet_create : Quiet s.dev (a.create s).dev := by
  obtain ⟨s₁, flag, -, -, hcreate, -, hquiet⟩ := create_eq a hfault hcovers
  rw [hcreate]
  exact hquiet

/-- The store runs, and no compaction is pending. -/
structure Settled (a : Area) (s : Sys) (second : Bool) (I : Items) : Prop where
  running : Running a s second I
  calm : s.info.forceCompact = false

theorem settled_create (hinert : Inert (s.dev.bytes a.top)) : Settled a (a.create s) false [] := by
  obtain ⟨hfresh, houtside⟩ := fresh_create a hfault hcovers
  obtain ⟨hrunning, hcalm⟩ := hfresh.running (by rw [houtside _ le_rfl]; exact hinert)
  exact ⟨hrunning, hcalm⟩

end

variable {k v : Payload}

theorem fresh_blank (a : Area) :
    Fresh a (a.create blank) ∧ ∀ x, a.top ≤ x → (a.create blank).dev.bytes x = 0xFF :=
  fresh_create a rfl fun _ _ _ => rfl

theorem settled_blank (a : Area) : Settled a (a.create blank) false [] :=
  settled_create a rfl (fun _ _ _ => rfl) (show Inert 0xFF by decide)

theorem Settled.steady (h : Settled a s second I) : Steady a s second I :=
  ⟨h.running.opened, h.running.paired, h.running.fault, h.calm⟩

theorem Steady.settled (h : Steady a s second I) (hinert : Inert (s.dev.bytes a.top)) :
    Settled a s second I := ⟨⟨h.opened, h.paired, h.fault, hinert⟩, h.calm⟩

/-- There is room for a value behind the log, and a number for its key. -/
structure Fits (a : Area) (I : Items) (k v : Payload) : Prop where
  space : regionHeaderSize + logSize I + needed k v.1 I ≤ a.size
  room : regionHeaderSize + logSize I + 6 ≤ a.size
  ids : keyId I k = none → lastId I < maxKeyId

/-- If there is room, a set does not compact. -/
theorem Steady.compacts_eq_false (h : Steady a s second I) (hfits : Fits a I k v) :
    compacts s k.1 v.1 = false := by
  have hroom := hfits.room
  rw [h.opened.compacts_eq (h.opened.holds.sealed (by omega)) (by rw [Area.logEnd]; omega),
    if_neg (Nat.not_lt.mpr hfits.space),
    if_neg fun hnone => absurd (hfits.ids hnone.1) (Nat.not_lt.mpr hnone.2)]
  exact h.calm

/-- Storing a value for which there is room, with a compaction or without. -/
theorem Steady.store (h : Steady a s second I) (hsealed : Sealed a s.dev.bytes second I)
    (isBinary : Bool) {c : Bool} (hk : k.1 ≠ []) (hv : v.1 ≠ [])
    (hlookup : lookup I k ≠ some (v, isBinary))
    (hc : compacts s k.1 v.1 = c) (hroom : ¬Full a c k v.1 I) :
    (sysparamSetData s k.1 v.1 isBinary).1 = .ok ∧
      ValueStored a s (sysparamSetData s k.1 v.1 isBinary).2 second I k (v, isBinary) c ∧
      Steady a (sysparamSetData s k.1 v.1 isBinary).2 (second ^^ c)
        (put itemSize c k (v, isBinary) I) := by
  obtain ⟨status, s', hrun, houtcome⟩ := h.opened.setData hsealed k v.1 isBinary
  have hstore := houtcome.store_of_ne hk hv hlookup
  rw [hc] at hstore
  rw [hrun]
  cases hstore with
  | full _ hfull => exact absurd hfull hroom
  | compactedFull _ hfull => exact absurd hfull hroom
  | stored _ _ _ hstored =>
    exact ⟨rfl, hstored, hstored.opened, hstored.paired h.paired, hstored.quiet.fault h.fault,
      hstored.calm⟩
  | failed _ _ hfailed => exact absurd h.fault (fault_of_failed hfailed.failed)
  | switchFailed _ hfailed => exact absurd h.fault hfailed.failed.before

/-- What a set leaves, with the byte behind the area as it was. -/
theorem Steady.settled_of_stored {s' : Sys} {second' : Bool} {J : Items} {content : Content} {c : Bool}
    (h : Steady a s' second' J) (hstored : ValueStored a s s' second I k content c)
    (hrunning : Running a s second I) : Settled a s' second' J :=
  h.settled (by rw [hstored.outside _ le_rfl]; exact hrunning.inert)

/-- Storing a value that fits. -/
theorem Steady.put (h : Steady a s second I) (isBinary : Bool) (hk : k.1 ≠ []) (hv : v.1 ≠ [])
    (hlookup : lookup I k ≠ some (v, isBinary)) (hfits : Fits a I k v) :
    (sysparamSetData s k.1 v.1 isBinary).1 = .ok ∧
      ValueStored a s (sysparamSetData s k.1 v.1 isBinary).2 second I k (v, isBinary) false ∧
      Steady a (sysparamSetData s k.1 v.1 isBinary).2 second
        (put itemSize false k (v, isBinary) I) := by
  have hspace := hfits.space
  have hroom := hfits.room
  have hnot : ¬Full a false k v.1 I := by
    rintro (hfull | ⟨hnone, hfull⟩)
    · rw [placed_false] at hfull
      omega
    · exact absurd (hfits.ids hnone) (Nat.not_lt.mpr hfull)
  have hstore := h.store (h.opened.holds.sealed (by omega)) isBinary hk hv hlookup
    (h.compacts_eq_false hfits) hnot
  rwa [Bool.xor_false] at hstore

/-- A first value in a new area. -/
theorem settled_single (a : Area) (isBinary : Bool) (hk : k.1 ≠ []) (hv : v.1 ≠ [])
    (hspace : regionHeaderSize + (entrySize v.1.length + entrySize k.1.length) ≤ a.size) :
    Settled a (sysparamSetData (a.create blank) k.1 v.1 isBinary).2 false
      [.key 1 k, .value 1 (v, isBinary)] := by
  have hsize := a.size_pos
  obtain ⟨-, hstored, hsteady⟩ := (settled_blank a).steady.put isBinary hk hv
    (Option.some_ne_none _).symm ⟨hspace, show regionHeaderSize + 0 + 6 ≤ a.size by
      rw [regionHeaderSize]; omega, fun _ => show 0 < maxKeyId by decide⟩
  exact hsteady.settled_of_stored hstored (settled_blank a).running

/-- Deleting a value. -/
theorem Steady.delete (h : Steady a s second I) (isBinary : Bool) (hk : k.1 ≠ []) {old : Content}
    (hlookup : lookup I k = some old) (hroom : regionHeaderSize + logSize I + 1 ≠ a.size) :
    (sysparamSetData s k.1 [] isBinary).1 = .ok ∧
      Steady a (sysparamSetData s k.1 [] isBinary).2 second (delete itemSize k I) ∧
      Apart a s (sysparamSetData s k.1 [] isBinary).2 := by
  obtain ⟨status, s', hrun, houtcome⟩ := h.opened.setData (h.opened.holds.sealed hroom) k [] isBinary
  rw [hrun]
  cases houtcome with
  | badValue hbad => exact absurd (hbad.resolve_left hk) (Nat.not_lt_zero _)
  | absent _ _ hnone => simp [hlookup] at hnone
  | deleted _ s₁ _ _ _ _ hsearched hdeleted =>
    have hpaired : Paired a s₁.dev.bytes second := hsearched.dev ▸ h.paired
    have hfault : s₁.dev.fault = none := hsearched.dev ▸ h.fault
    obtain ⟨K, hopened, hok⟩ := hdeleted.opened
    rcases hdeleted.result with ⟨rfl, hquiet⟩ | ⟨-, x, hfailed⟩
    · refine ⟨rfl, ⟨hok rfl ▸ hopened, hdeleted.paired hpaired, hquiet.fault hfault, ?_⟩, ?_⟩
      · rw [hdeleted.info, hsearched.calm (by rw [Area.logEnd]; omega)]
        exact h.calm
      · refine ⟨fun x hx => ?_, ?_⟩
        · rw [hdeleted.outside x hx, hsearched.dev]
        · rw [hquiet.accepts, hsearched.dev]
    · exact absurd hfault hfailed.before
  | same _ _ _ hne => exact absurd rfl hne
  | store _ _ _ _ hne => exact absurd rfl hne

theorem Steady.compact (h : Steady a s second I) (hroom : regionHeaderSize + logSize I + 1 ≠ a.size) :
    (sysparamCompact s).1 = .ok ∧
      Steady a (sysparamCompact s).2 (!second) (compact none I) ∧
      Apart a s (sysparamCompact s).2 := by
  obtain ⟨status, s', hrun, houtcome⟩ := h.opened.compact (h.opened.holds.sealed hroom)
  rw [hrun]
  cases houtcome with
  | switched hswitched =>
    obtain ⟨hopened, hpaired, houtside⟩ := hswitched.opened h.opened
    exact ⟨rfl, ⟨hopened, hpaired, hswitched.quiet.fault h.fault, by rw [hswitched.info]; rfl⟩,
      houtside, hswitched.quiet.accepts⟩
  | copyFailed hfailed => exact absurd h.fault (fault_of_failed hfailed.failed)
  | switchFailed hfailed => exact absurd h.fault hfailed.failed.before

theorem Settled.compact (h : Settled a s second I) :
    (sysparamCompact s).1 = .ok ∧
      Settled a (sysparamCompact s).2 (!second) (compact none I) := by
  obtain ⟨hok, hrunning, hswitched⟩ := h.running.compact
  exact ⟨hok, hrunning, by rw [hswitched.info]; rfl⟩

/-- A key is set and deleted, and another one is set. -/
def sampleCalls : List Call := [.set [117] [1] false, .set [117] [] false, .set [107] [1] false]

/-- A store with one value. -/
def sampleStore : Sys := run smallArea.step (smallArea.create blank) sampleCalls

theorem getData_sampleStore : (sysparamGetData sampleStore [107]).1 = (.ok, some ([1], false)) := by
  decide +kernel

end Runs

end EspOpenRtos.Sysparam
