/-
# Power cuts

A power cut leaves the flash as it was after some write or erase of the call that
was running, and everything in memory is gone. The next boot opens the log that
such an image holds. For a compaction this is the old log or the compacted one,
and for a set it is one of the logs that the set goes through.

Two things can go wrong. While the header of the first region is erased, the boot
looks for the magic word at the start of its other sectors, where a stored value
may have put it. And a set that compacts leaves the old value of its key out
before the new one is written.
-/

import EspOpenRtos.Sysparam.FiniteMap

namespace EspOpenRtos.Sysparam

open Math Math.NorFlash Math.Runs Math.KeyedLog

/-- The power is cut and comes back: the flash is as in the given image, and
memory is cleared. -/
def Sys.powerCut (s : Sys) (g : Image) : Sys :=
  ⟨{ s.dev with bytes := g, images := [] }, ⟨0, 0, 0, 0, false⟩⟩

theorem Sys.readRegionHeader_powerCut {s : Sys} {limit : ℕ} (h : s.dev.Covers limit) (g : Image)
    (addr : ℕ) (haddr : addr + regionHeaderSize ≤ limit) : readRegionHeader (s.powerCut g).dev addr =
      some (.ofBytes (read g addr regionHeaderSize)) := readRegionHeader_of_covers h haddr

/-- While the log is in the second region, no sector of the first one but its
own starts with the magic word, neither now nor when a compaction has filled
it. -/
def StrayFree (a : Area) (s : Sys) (omitted : Option ℕ) : Prop :=
  s.info.curBase = a.region true → ∀ I, Holds a s.dev.bytes true I →
    NoStray a s.dev.bytes ∧
      NoStray a (copiedTo a s.dev.bytes true (compact omitted I))

/-- A boot from this image opens the given log. -/
structure Leaves (a : Area) (s : Sys) (g : Image) (second : Bool) (J : Items) : Prop where
  holds : Holds a g second J
  bootable : Bootable a g second
  outside : ∀ x, a.top ≤ x → g x = s.dev.bytes x

section Cut

variable {a : Area} {s s' : Sys} {g : Image} {second : Bool} {I J : Items} {omitted : Option ℕ}
  {topAddr : ℕ}

theorem Leaves.recovers (h : Leaves a s g second J) (hcovers : s.dev.Covers a.limit)
    (hfault : s.dev.fault = none) (hinert : Inert (s.dev.bytes a.top)) (htop : a.top ≤ topAddr) :
    (sysparamInit (s.powerCut g) a.base topAddr).1 = .ok ∧
      Running a (sysparamInit (s.powerCut g) a.base topAddr).2 second J := by
  have hinert' : Inert (g a.top) := by rwa [h.outside _ le_rfl]
  obtain ⟨s', hrun, hopened, hpaired, hquiet, houtside⟩ := sysparamInit_bootable
    (s := s.powerCut g) h.holds h.bootable hcovers (fun _ => hinert') hfault htop
  rw [hrun]
  exact ⟨rfl, hopened, hpaired, hquiet.fault hfault, by rw [houtside _ le_rfl]; exact hinert'⟩

theorem Running.leaves (h : Running a s second I) : Leaves a s s.dev.bytes second I :=
  ⟨h.opened.holds, Or.inl h.paired, fun _ _ => rfl⟩

theorem Compacting.outside {f : Image} (h : Compacting a f second J g) (hstorable : Storable a J)
    {x : ℕ} (hx : a.top ≤ x) : g x = f x := by
  have hcur := a.region_add_size_le second
  have halt := a.region_add_size_le (!second)
  have hlen := length_logBytes hstorable.writable
  have hfits := hstorable.fits
  cases h with
  | erasing j _ hle =>
    have hmul : j * sectorSize ≤ a.size := Nat.mul_le_mul_right _ hle
    exact erase_outside (by omega)
  | filling g hfilling =>
    rw [hfilling.outside x (by omega)]
    exact erasedSpare_of_outside (by omega)
  | claiming =>
    rw [claimed, patch_of_outside (by rw [length_header]; omega), copiedTo,
      patch_of_outside (by omega)]
    exact erasedSpare_of_outside (by omega)
  | retiring => exact switched_of_outside hstorable (Or.inr hx)

/-- Cutting a compaction short leaves the old log or the compacted one. -/
theorem Running.leaves_compacting (h : Running a s second I) (hstray : StrayFree a s omitted)
    (hg : Compacting a s.dev.bytes second (KeyedLog.compact omitted I) g) :
    ∃ second' J, Leaves a s g second' J ∧ (J = I ∨ J = KeyedLog.compact omitted I) := by
  have hholds := h.opened.holds
  have hstorable := hholds.storable omitted
  have houtside : ∀ x, a.top ≤ x → g x = s.dev.bytes x := fun x hx => hg.outside hstorable hx
  have hstray' : second = true → NoStray a s.dev.bytes ∧
      NoStray a (copiedTo a s.dev.bytes second (KeyedLog.compact omitted I)) := by
    rintro rfl
    exact hstray h.opened.curBase I hholds
  rcases hg.boots hholds hstorable hstray' with ⟨hold, hboot⟩ | ⟨hnew, hboot⟩
  · exact ⟨_, I, ⟨hold, hboot, houtside⟩, Or.inl rfl⟩
  · exact ⟨_, _, ⟨hnew, hboot, houtside⟩, Or.inr rfl⟩

end Cut

/-! ## Compactions -/

/-- Wherever a compaction is cut short, the next boot finds the same map, if no
stray magic word is in its way. -/
theorem compact_cut_keeps_map {a : Area} {s : Sys} (hfresh : Fresh a s)
    (hinert : Inert (s.dev.bytes a.top)) (calls : List Call)
    (hstray : StrayFree a (run a.step s calls) none) {g : Image}
    (hg : g ∈ (run a.step s calls).dev.cuts (sysparamCompact (run a.step s calls)).2.dev)
    {topAddr : ℕ} (htop : a.top ≤ topAddr) :
    (sysparamInit ((run a.step s calls).powerCut g) a.base topAddr).1 = .ok ∧
      ∀ key, (sysparamGetData (sysparamInit ((run a.step s calls).powerCut g) a.base topAddr).2
        key).1 = (sysparamGetData (run a.step s calls) key).1 := by
  obtain ⟨second, I, hrunning⟩ := hfresh.reaches hinert calls
  generalize run a.step s calls = s at *
  obtain ⟨-, -, hswitched⟩ := hrunning.compact
  have hleaves : ∃ second' J, Leaves a s g second' J ∧ (J = I ∨ J = compact none I) := by
    rcases (hswitched.images hrunning.fault).of_mem_cuts hg with rfl | hcompacting
    · exact ⟨_, _, hrunning.leaves, Or.inl rfl⟩
    · exact hrunning.leaves_compacting hstray hcompacting
  obtain ⟨second', J, hleaves, hJ⟩ := hleaves
  obtain ⟨hok, hrunning'⟩ :=
    hleaves.recovers hrunning.opened.covers hrunning.fault hrunning.inert htop
  have hlookup (k : Payload) : lookup J k = lookup I k := by
    rcases hJ with rfl | rfl
    · rfl
    · simp [hrunning.opened.holds.inv.lookup_compact]
  refine ⟨hok, fun key => ?_⟩
  rw [← sysparamGetData_keyOf, ← sysparamGetData_keyOf s, (hrunning'.getData _).1,
    (hrunning.getData _).1, hlookup]

/-- A cut right before the new region gets its header. -/
theorem compact_cut_keeps_map_copied :
    ∃ g ∈ sampleStore.dev.cuts (sysparamCompact sampleStore).2.dev,
      g 0x2000 = 0xFF ∧ g 0x2008 = 1 ∧
        (sysparamGetData sampleStore [107]).1 = (.ok, some ([1], false)) ∧
        (sysparamInit (sampleStore.powerCut g) smallArea.base smallArea.top).1 = .ok ∧
          ∀ key, (sysparamGetData (sysparamInit (sampleStore.powerCut g) smallArea.base
            smallArea.top).2 key).1 = (sysparamGetData sampleStore key).1 := by
  have hcopied : (sampleStore.dev.cuts (sysparamCompact sampleStore).2.dev)[7]?.map
      (fun g => (g 0x2000, g 0x2008)) = some (0xFF, 1) := by decide +kernel
  obtain ⟨g, hg, hbytes⟩ := Option.map_eq_some_iff.mp hcopied
  have hcut := List.mem_of_getElem? hg
  have hfirst : sampleStore.info.curBase ≠ smallArea.region true := by decide +kernel
  exact ⟨g, hcut, congrArg Prod.fst hbytes, congrArg Prod.snd hbytes, getData_sampleStore,
    compact_cut_keeps_map (fresh_blank smallArea).1 (settled_blank smallArea).running.inert
      sampleCalls (fun hsecond => absurd hsecond hfirst) hcut le_rfl⟩

/-- An area with two sectors for each region. -/
def wideArea : Area :=
  ⟨0x1000, 2, smallArea.base_pos, smallArea.aligned, by decide, by decide⟩

/-- What looks like the header of a region of no sectors. -/
def strayHeader : List UInt8 := sysparamMagic ++ [0, 0, 0, 0]

/-- A value which has that at the start of the second sector of its region. -/
def strayValue : Payload := ⟨List.replicate 4079 0 ++ strayHeader, by
  rw [List.length_append, List.length_replicate]
  decide⟩

theorem length_strayValue : strayValue.1.length = 4087 := by
  rw [strayValue, List.length_append, List.length_replicate]
  rfl

/-- The log that consists of this value. -/
def strayLog (v : Payload) : Items := [.key 1 (byteKey 107), .value 1 (v, false)]

/-- It is stored and brought to the second region. -/
def strayCalls : List Call := [.set (byteKey 107).1 strayValue.1 false, .compact]

theorem settled_strayCalls : Settled wideArea
    (run wideArea.step (wideArea.create blank) strayCalls) true (strayLog strayValue) := by
  have hset := settled_single wideArea (k := byteKey 107) (v := strayValue) false (by decide)
    (List.ne_nil_of_length_pos (by rw [length_strayValue]; decide))
    (by rw [length_strayValue]; decide)
  have hcompact (v : Payload) : compact none (strayLog v) = strayLog v := rfl
  have hsettled := hset.compact.2
  rw [← strayLog, hcompact] at hsettled
  rw [strayCalls, run_cons, run_cons, run_nil, Area.step, Area.step]
  exact hsettled

theorem read_stray (f : Image) {v : Payload} {front : List UInt8} (hv : v.1 = front ++ strayHeader)
    (hfront : front.length = 4079) : read (copiedTo wideArea f true (strayLog v))
      (wideArea.base + sectorSize) regionHeaderSize = strayHeader := by
  have hbytes : logBytes (strayLog v) =
      ((Entry.ofItem (.key 1 (byteKey 107))).bytes ++
        ((Entry.ofItem (.value 1 (v, false))).header.bytes ++ front)) ++ strayHeader := by
    simp [strayLog, logBytes_cons, logBytes_nil, Entry.bytes, Entry.ofItem, Entry.valid, itemPayload, hv]
  have hread : read (copiedTo wideArea f true (strayLog v)) (wideArea.base + regionHeaderSize)
      (logBytes (strayLog v)).length = logBytes (strayLog v) := read_patch_self
  have hlen : ((Entry.ofItem (.key 1 (byteKey 107))).bytes ++
      ((Entry.ofItem (.value 1 (v, false))).header.bytes ++ front)).length = 4088 := by
    have hkey : (Entry.ofItem (.key 1 (byteKey 107))).bytes.length = 5 := rfl
    have hheader : (Entry.ofItem (.value 1 (v, false))).header.bytes.length = 4 := rfl
    rw [List.length_append, List.length_append, hfront, hkey, hheader]
  rw [hbytes, List.length_append, read_append_iff, hlen] at hread
  exact hread.2

/-- A header of a region of no sectors is its own other region. -/
theorem sysparamInit_stray {a : Area} {s : Sys} {addr topAddr : ℕ} (haddr : addr < 2 ^ 32)
    (hfound : findHeader s.dev a.base (scanTop a.base topAddr) =
      some (some (addr, RegionHeader.ofBytes strayHeader)))
    (hread : readRegionHeader s.dev addr = some (RegionHeader.ofBytes strayHeader)) :
    (sysparamInit s a.base topAddr).1 = .errCorrupt := by
  rw [scanTop] at hfound
  have hsectors : ((RegionHeader.ofBytes strayHeader).flagsSize &&& regionMaskSize).toNat = 0 := rfl
  have hfirst : (RegionHeader.ofBytes strayHeader).flagsSize &&& regionFlagSecond = 0 := rfl
  have hmagic : (RegionHeader.ofBytes strayHeader).magic = sysparamMagic := rfl
  simp only [sysparamInit, a.base_sub_mod, hfound, hsectors, hfirst, ne_eq, not_true, if_false, Nat.zero_mul,
    Nat.add_zero, Nat.mod_eq_of_lt haddr, hread, hmagic, if_true]

/-- A value that contains the magic word is lost if the compaction is cut short
before the first region has its header back. -/
theorem compact_cut_loses_area :
    Fresh wideArea (wideArea.create blank) ∧
      (∀ x, wideArea.top ≤ x → (wideArea.create blank).dev.bytes x = 0xFF) ∧
      (sysparamCompact (run wideArea.step (wideArea.create blank) strayCalls)).1 = .ok ∧
      ∃ g ∈ (run wideArea.step (wideArea.create blank) strayCalls).dev.cuts
          (sysparamCompact (run wideArea.step (wideArea.create blank) strayCalls)).2.dev,
        (sysparamInit ((run wideArea.step (wideArea.create blank) strayCalls).powerCut g)
          wideArea.base wideArea.top).1 = .errCorrupt := by
  have hsettled := settled_strayCalls
  generalize run wideArea.step (wideArea.create blank) strayCalls = s at hsettled ⊢
  obtain ⟨hok, -, hswitched⟩ := hsettled.running.compact
  have hcompact (v : Payload) : compact none (strayLog v) = strayLog v := rfl
  rw [hcompact] at hswitched
  refine ⟨(fresh_blank _).1, (fresh_blank _).2, hok, _, hswitched.copied hsettled.running.fault, ?_⟩
  have hstray := read_stray s.dev.bytes (v := strayValue) rfl List.length_replicate
  have hfirst : copiedTo wideArea s.dev.bytes true (strayLog strayValue) wideArea.base = 0xFF := by
    rw [copiedTo, patch_of_lt (by decide)]
    exact erasedSpare_of_inside le_rfl (by decide)
  have hread := Sys.readRegionHeader_powerCut hsettled.running.opened.covers
  generalize copiedTo wideArea s.dev.bytes true (strayLog strayValue) = g at hstray hfirst ⊢
  -- the scan skips the erased header and stops at the second sector
  have hfound : findHeader (s.powerCut g).dev wideArea.base (scanTop wideArea.base wideArea.top) =
      some (some (wideArea.base + sectorSize, RegionHeader.ofBytes strayHeader)) := by
    have hskip : (RegionHeader.ofBytes (read g wideArea.base regionHeaderSize)).magic ≠
        sysparamMagic := by
      rw [magic_ofBytes]
      exact read_magic_ne (Or.inl hfirst)
    rw [findHeader_skip (by decide) (hread g _ (by decide)) hskip]
    refine findHeader_found (by decide) ?_ rfl
    rw [hread g _ (by decide), hstray]
  refine sysparamInit_stray (a := wideArea) (by decide) hfound ?_
  rw [hread g _ (by decide), hstray]

/-! ## Sets -/

section Sets

variable {a : Area} {s s' : Sys} {g : Image} {second : Bool} {I M P : Items} {k k' : Payload}
  {content : Content} {c : Bool} {value : List UInt8} {isBinary : Bool} {status : Status}

/-- A log between the one before a set and the one behind it: other keys are as
before, and the key of the set has its old value or the new one. -/
structure OldOrNew (I J : Items) (k : Payload) (new : Option Content) : Prop where
  others : ∀ k' ≠ k, KeyedLog.lookup J k' = KeyedLog.lookup I k'
  self : KeyedLog.lookup J k = KeyedLog.lookup I k ∨ KeyedLog.lookup J k = new

theorem OldOrNew.of_lookup_eq {J : Items} (new : Option Content)
    (h : ∀ k', lookup J k' = lookup I k') : OldOrNew I J k new :=
  ⟨fun k' _ => h k', Or.inl (h k)⟩

theorem OldOrNew.append_dead {J : Items} {new : Option Content} (h : OldOrNew I J k new) (n : ℕ) :
    OldOrNew I (J ++ [.dead n]) k new := by
  have hdead (k' : Payload) : lookup (J ++ [.dead n]) k' = lookup J k' :=
    lookup_append_dead (dead_singleton n)
  exact ⟨fun k' hne => (hdead k').trans (h.others k' hne), by rw [hdead]; exact h.self⟩

/-- Compacting for a key without a value changes nothing. -/
theorem lookup_placed (inv : KeyedLog.Inv maxKeyId I) (hnone : c = true → lookup I k = none)
    (k' : Payload) : lookup (placed c k I) k' = lookup I k' := by
  cases c with
  | false => rfl
  | true =>
    rw [placed_true, inv.lookup_compact]
    split_ifs with hid
    · obtain ⟨id, hk⟩ := Option.ne_none_iff_exists'.mp hid.1
      obtain rfl := inv.keyId_inj (hid.2.symm.trans hk) hk
      exact (hnone rfl).symm
    · rfl

theorem oldOrNew_put (content : Content) (inv : KeyedLog.Inv maxKeyId I)
    (hnone : c = true → lookup I k = none)
    (single : c = false → (candidates I k).length ≤ 1) :
    OldOrNew I (put itemSize c k content I) k (some content) := by
  refine ⟨fun k' hne => inv.lookup_put_other hne, ?_⟩
  by_cases hlost : c = true ∧ keyId I k ≠ none
  · obtain ⟨rfl, hsome⟩ := hlost
    obtain ⟨id, hid⟩ := Option.ne_none_iff_exists'.mp hsome
    exact Or.inl ((inv.lookup_put_lost hid (hnone rfl)).trans (hnone rfl).symm)
  · right
    rw [lookup, inv.candidates_put_self (fun hc hid => absurd ⟨hc, hid⟩ hlost) single]
    rfl

/-- What has been appended at a cut is nothing, a key without a value, or all of
it. -/
theorem oldOrNew_append (inv : KeyedLog.Inv maxKeyId I)
    (hnone : c = true → lookup I k = none) (hP : P <+: newItems c k content I) :
    OldOrNew I (placed c k I ++ P) k (some content) := by
  have hplaced := lookup_placed inv hnone
  unfold newItems at hP
  cases hid : keyId I k with
  | none =>
    have hkey : keyId (placed c k I) k = none :=
      base_eq_placed (c := c) hid ▸ inv.keyId_base_eq_none hid
    have hput := oldOrNew_put content inv hnone fun _ => by
      rw [candidates_of_keyId_none hid]
      exact Nat.zero_le _
    rw [put, hid, base_eq_placed hid] at hput
    rw [hid] at hP
    rcases List.prefix_cons_iff.mp hP with rfl | ⟨Q, rfl, hQ⟩
    · rw [List.append_nil]
      exact .of_lookup_eq _ hplaced
    rcases List.prefix_cons_iff.mp hQ with rfl | ⟨R, rfl, hR⟩
    · -- the key without its value
      refine .of_lookup_eq _ fun k' => ?_
      rw [← hplaced k', lookup, lookup]
      by_cases hne : k = k'
      · subst hne
        rw [candidates_append_key_self hkey, candidates_of_keyId_none hkey]
        rfl
      · rw [candidates_append_key_other hne]
    · rw [List.prefix_nil.mp hR]
      exact hput
  | some id =>
    rw [hid] at hP
    rcases List.prefix_cons_iff.mp hP with rfl | ⟨Q, rfl, hQ⟩
    · rw [List.append_nil]
      exact .of_lookup_eq _ hplaced
    rw [List.prefix_nil.mp hQ]
    cases c with
    | true =>
      have hput := oldOrNew_put content inv hnone (by simp)
      rw [put_eq, if_pos rfl, newItems, hid] at hput
      exact hput
    | false =>
      -- the old value is still in front of the new one
      simp only [placed_false, Bool.false_eq_true, if_false]
      constructor
      · intro k' hne
        rw [lookup, candidates_append_value,
          if_neg fun h => hne (inv.keyId_inj h hid), List.append_nil, lookup]
      · rw [lookup, candidates_append_value, if_pos hid, lookup]
        cases candidates I k with
        | nil => exact Or.inr rfl
        | cons => exact Or.inl rfl

theorem oldOrNew_partly (inv : KeyedLog.Inv maxKeyId I)
    (hnone : c = true → lookup I k = none) (hM : Partly (newItems c k content I) M) :
    OldOrNew I (placed c k I ++ M) k (some content) := by
  obtain ⟨P, hP, rfl | ⟨n, rfl⟩⟩ := hM
  · exact oldOrNew_append inv hnone hP
  · rw [← List.append_assoc]
    exact (oldOrNew_append inv hnone hP).append_dead n

/-- A set that compacts and leaves out the old value of its key. -/
def DropsValue (s : Sys) (k : Payload) (value : List UInt8) (isBinary : Bool) : Prop :=
  value ≠ [] ∧ compacts s k.1 value = true ∧ (lookupKey s k.1).2.oldValueAddr ≠ 0 ∧
    (sysparamGetData s k.1).1 ≠ (.ok, some (value, isBinary))

/-- The key has at most one live value in the log. -/
def SingleValue (a : Area) (s : Sys) (k : Payload) : Prop :=
  ∃ second I, Opened a s second I ∧ (candidates I k).length ≤ 1

/-- What a read of the key finds behind a set. -/
def setAnswer (value : List UInt8) (isBinary : Bool) : GetResult :=
  if value = [] then (.notFound, none) else (.ok, some (value, isBinary))

/-- The log at a cut, as far as reads can tell. -/
structure Between (I J : Items) (k : Payload) (value : List UInt8) (isBinary : Bool) : Prop where
  others : ∀ k' ≠ k, KeyedLog.lookup J k' = KeyedLog.lookup I k'
  self : KeyedLog.lookup J k = KeyedLog.lookup I k ∨
    getAnswer (KeyedLog.lookup J k) = setAnswer value isBinary

theorem between_refl (I : Items) : Between I I k value isBinary := ⟨fun _ _ => rfl, Or.inl rfl⟩

theorem OldOrNew.between {J : Items} {v : Payload} (h : OldOrNew I J k (some (v, isBinary)))
    (hne : v.1 ≠ []) : Between I J k v.1 isBinary := by
  refine ⟨h.others, h.self.imp_right fun hnew => ?_⟩
  rw [hnew, setAnswer, if_neg hne]
  rfl

theorem Running.lookup_eq_none (h : Running a s second I) {v : Payload}
    (hdrop : ¬DropsValue s k v.1 isBinary) (hne : v.1 ≠ [])
    (hlookup : lookup I k ≠ some (v, isBinary)) (hc : compacts s k.1 v.1 = true) :
    lookup I k = none := by
  by_contra hsome
  refine hdrop ⟨hne, hc, fun hzero => hsome ((h.opened.lookupKey_iff h.sealed k).2.mp hzero), ?_⟩
  rw [(h.getData k).1]
  exact fun hsame => hlookup (getAnswer_inj (y := some (v, isBinary)) hsame)

/-- Wherever a set is cut short, a boot finds the log before it, the one behind
it or one in between. -/
theorem SetOutcome.leaves (houtcome : SetOutcome a s second I k value isBinary status s')
    (h : Running a s second I)
    (hstray : compacts s k.1 value = true → StrayFree a s (keyId I k))
    (hg : g ∈ s.dev.cuts s'.dev) :
    ∃ second' J, Leaves a s g second' J ∧ ((candidates I k).length ≤ 1 →
      ¬DropsValue s k value isBinary → Between I J k value isBinary) := by
  have inv := h.opened.holds.inv
  have huncut : ∃ second' J, Leaves a s s.dev.bytes second' J ∧
      ((candidates I k).length ≤ 1 → ¬DropsValue s k value isBinary →
        Between I J k value isBinary) :=
    ⟨_, I, h.leaves, fun _ _ => between_refl I⟩
  have hunwritten (hdev : s'.dev = s.dev) : g = s.dev.bytes := by
    rw [hdev] at hg
    exact ((Through.refl s.dev (p := fun _ => False)).of_mem_cuts hg).resolve_right id
  cases houtcome with
  | badValue => exact hunwritten rfl ▸ huncut
  | absent _ _ _ hsearched | same _ _ _ _ _ hsearched => exact hunwritten hsearched.dev ▸ huncut
  | deleted _ s₁ _ hvalue old hlookup hsearched hdeleted =>
    have himages := hdeleted.images (hsearched.dev ▸ h.fault) (hsearched.dev ▸ h.paired)
    rw [hsearched.dev] at himages
    rcases himages.of_mem_cuts hg with rfl | ⟨hholds, hpaired, houtside⟩
    · exact huncut
    · refine ⟨_, _, ⟨hholds, Or.inl hpaired, houtside⟩, fun single _ =>
        ⟨fun k' hne => inv.lookup_delete_other hne, Or.inr ?_⟩⟩
      rw [lookup_delete_self single, setAnswer, if_pos hvalue, getAnswer]
  | store _ _ v hv hne hlookup hstore =>
    subst hv
    have hdropped : ¬DropsValue s k v.1 isBinary → compacts s k.1 v.1 = true →
        lookup I k = none := fun hdrop => h.lookup_eq_none hdrop hne hlookup
    generalize compacts s k.1 v.1 = c at hstore hstray hdropped
    have hcompacting (hc : c = true) (hg : Compacting a s.dev.bytes second (placed c k I) g) :
        ∃ second' J, Leaves a s g second' J ∧ ((candidates I k).length ≤ 1 →
          ¬DropsValue s k v.1 isBinary → Between I J k v.1 isBinary) := by
      subst hc
      obtain ⟨second', J, hleaves, hJ⟩ := h.leaves_compacting (hstray rfl) hg
      refine ⟨second', J, hleaves, fun _ hdrop => ?_⟩
      rcases hJ with rfl | rfl
      · exact between_refl _
      · exact (OldOrNew.of_lookup_eq _ (lookup_placed inv (hdropped hdrop))).between hne
    cases hstore with
    | full _ _ hdev => exact hunwritten hdev ▸ huncut
    | compactedFull _ _ hswitched =>
      rcases (hswitched.images h.fault).of_mem_cuts hg with rfl | hg
      · exact huncut
      · exact hcompacting rfl hg
    | stored _ _ _ hstored =>
      rcases (hstored.images h.fault h.paired).of_mem_cuts hg with rfl | hstoring
      · exact huncut
      cases hstoring with
      | compacting hc hg => exact hcompacting hc hg
      | appending M hM hholds hpaired houtside =>
        exact ⟨_, _, ⟨hholds, Or.inl hpaired, houtside⟩, fun _ hdrop =>
          (oldOrNew_partly inv (hdropped hdrop) hM).between hne⟩
      | stored hholds hpaired houtside =>
        exact ⟨_, _, ⟨hholds, Or.inl hpaired, houtside⟩, fun single hdrop =>
          (oldOrNew_put _ inv (hdropped hdrop) fun _ => single).between hne⟩
    | failed _ _ hfailed => exact absurd h.fault (fault_of_failed hfailed.failed)
    | switchFailed _ hfailed => exact absurd h.fault hfailed.failed.before

/-- Which region holds the log can be told from memory. -/
theorem Running.of_opened (h : Running a s second I) {second' : Bool} {J : Items}
    (hopened : Opened a s second' J) : Running a s second' J := by
  have hsize := a.size_pos
  have hbase := h.opened.curBase.symm.trans hopened.curBase
  obtain rfl : second = second' := by
    cases second <;> cases second' <;> simp only [Area.region_true, Area.region_false] at hbase <;>
      first | rfl | omega
  exact ⟨hopened, h.paired, h.fault, h.inert⟩

end Sets

/-- A boot behind a set that was cut short finds the other keys unchanged, and the
key of the set with its old value or the new one. -/
structure SurvivesCut (a : Area) (s : Sys) (k : Payload) (value : List UInt8) (isBinary : Bool)
    (g : Image) (topAddr : ℕ) : Prop where
  ok : (sysparamInit (s.powerCut g) a.base topAddr).1 = .ok
  others : ∀ k' ≠ k, (sysparamGetData (sysparamInit (s.powerCut g) a.base topAddr).2 k'.1).1 =
    (sysparamGetData s k'.1).1
  self : (sysparamGetData (sysparamInit (s.powerCut g) a.base topAddr).2 k.1).1 =
      (sysparamGetData s k.1).1 ∨
    (sysparamGetData (sysparamInit (s.powerCut g) a.base topAddr).2 k.1).1 = setAnswer value isBinary

/-- A set can be cut short anywhere if its key has at most one live value, it does
not compact the old value away, and no stray magic word is in the way of the
boot. -/
theorem set_survives_cut {a : Area} {s : Sys} (hfresh : Fresh a s)
    (hinert : Inert (s.dev.bytes a.top)) (calls : List Call) (k : Payload) (value : List UInt8)
    (isBinary : Bool) (hsingle : SingleValue a (run a.step s calls) k)
    (hdrop : ¬DropsValue (run a.step s calls) k value isBinary)
    (hstray : compacts (run a.step s calls) k.1 value = true →
      StrayFree a (run a.step s calls) (lookupKey (run a.step s calls) k.1).2.keyId)
    {g : Image} (hg : g ∈ (run a.step s calls).dev.cuts
      (sysparamSetData (run a.step s calls) k.1 value isBinary).2.dev)
    {topAddr : ℕ} (htop : a.top ≤ topAddr) :
    SurvivesCut a (run a.step s calls) k value isBinary g topAddr := by
  obtain ⟨_, _, hreached⟩ := hfresh.reaches hinert calls
  generalize run a.step s calls = s at *
  obtain ⟨second, I, hopened, single⟩ := hsingle
  have hrunning := hreached.of_opened hopened
  obtain ⟨status, s', hrun, houtcome⟩ := hopened.setData hrunning.sealed k value isBinary
  rw [hrun] at hg
  rw [(hopened.lookupKey_iff hrunning.sealed k).1] at hstray
  obtain ⟨second', J, hleaves, hbetween⟩ := houtcome.leaves hrunning hstray hg
  have hbetween := hbetween single hdrop
  obtain ⟨hok, hrunning'⟩ := hleaves.recovers hopened.covers hrunning.fault hrunning.inert htop
  refine ⟨hok, fun k' hne => ?_, ?_⟩
  · rw [(hrunning'.getData k').1, (hrunning.getData k').1, hbetween.others k' hne]
  · rw [(hrunning'.getData k).1, (hrunning.getData k).1]
    exact hbetween.self.imp_left (congrArg getAnswer)

/-- A key is set, and then updated with a call that is cut short. -/
def updateCalls : List Call := [.set (byteKey 107).1 (filled 1 1 one_short).1 false]

theorem settled_updateCalls : Settled smallArea
    (run smallArea.step (smallArea.create blank) updateCalls) false
    [.key 1 (byteKey 107), .value 1 (filled 1 1 (by decide), false)] := by
  rw [updateCalls, run_cons, run_nil, Area.step]
  exact settled_single smallArea false (by decide) (by decide) (by decide)

/-- The cut at which both values are there, and the boot behind it. -/
theorem updateCalls_doubled : ∃ g ∈ (run smallArea.step (smallArea.create blank) updateCalls).dev.cuts
      (sysparamSetData (run smallArea.step (smallArea.create blank) updateCalls) (byteKey 107).1
        (filled 1 2 (by decide)).1 false).2.dev,
    ∃ s', sysparamInit ((run smallArea.step (smallArea.create blank) updateCalls).powerCut g)
        smallArea.base smallArea.top = (.ok, s') ∧
      Running smallArea s' false [.key 1 (byteKey 107), .value 1 (filled 1 1 (by decide), false),
        .value 1 (filled 1 2 (by decide), false)] := by
  have hsettled := settled_updateCalls
  generalize run smallArea.step (smallArea.create blank) updateCalls = s at hsettled ⊢
  obtain ⟨-, hstored, -⟩ := hsettled.steady.put (k := byteKey 107) (v := filled 1 2 (by decide)) false
    (by decide) (by decide) (by decide) ⟨by decide, by decide, fun _ => by decide⟩
  obtain ⟨g, hg, hholds, hpaired, houtside⟩ := hstored.doubled hsettled.running.fault
    hsettled.running.paired
  have hleaves : Leaves smallArea s g false _ := ⟨hholds, Or.inl hpaired, houtside⟩
  obtain ⟨hok, hrecovered⟩ := hleaves.recovers hsettled.running.opened.covers
    hsettled.running.fault hsettled.running.inert le_rfl
  exact ⟨g, hg, _, Prod.ext hok rfl, hrecovered⟩

theorem set_survives_cut_doubled :
    ∃ g, SurvivesCut smallArea (run smallArea.step (smallArea.create blank) updateCalls) (byteKey 107)
      (filled 1 2 (by decide)).1 false g smallArea.top := by
  have hsettled := settled_updateCalls
  obtain ⟨g, hg, -⟩ := updateCalls_doubled
  have hcompacts := hsettled.steady.compacts_eq_false (k := byteKey 107)
    (v := filled 1 2 (by decide)) ⟨by decide, by decide, fun _ => by decide⟩
  refine ⟨g, set_survives_cut (fresh_blank smallArea).1 (settled_blank smallArea).running.inert
    updateCalls _ _ _ ⟨_, _, hsettled.running.opened, by decide⟩ ?_ ?_ hg le_rfl⟩
  · rintro ⟨-, hc, -⟩
    exact absurd hc (by rw [hcompacts]; decide)
  · exact fun hc => absurd hc (by rw [hcompacts]; decide)

/-- A value that takes more than half of a region. -/
def halfCalls : List Call := [.set (byteKey 97).1 (filled 2500 0 (by decide)).1 false]

/-- The log behind this call. -/
def halfLog (content : Content) : Items := [.key 1 (byteKey 97), .value 1 content]

theorem settled_halfCalls : ∃ content : Content, content.1.1.length = 2500 ∧ 0 ∈ content.1.1 ∧
    Settled smallArea (run smallArea.step (smallArea.create blank) halfCalls) false
      (halfLog content) := by
  rw [halfCalls, run_cons, run_nil, Area.step]
  refine ⟨_, length_filled 2500 0 (by decide), ?_, settled_single smallArea false (by decide)
    (filled_ne_nil _ _ (by decide)) (by rw [length_filled]; decide)⟩
  exact List.mem_replicate.mpr ⟨by decide, rfl⟩

section Half

variable {s : Sys} {content : Content} (hlen : content.1.1.length = 2500)
include hlen

theorem logSize_halfLog : logSize (halfLog content) = 2509 := by
  simp [halfLog, itemSize, entrySize, entryHeaderSize, hlen, byteKey]

omit hlen in
theorem needed_halfLog :
    needed (byteKey 97) (filled 2500 1 (by decide)).1 (halfLog content) = 2504 := by
  rw [needed, length_filled]
  rfl

theorem halfLog_full : smallArea.size < regionHeaderSize + logSize (halfLog content) +
    needed (byteKey 97) (filled 2500 1 (by decide)).1 (halfLog content) := by
  rw [needed_halfLog, logSize_halfLog hlen]
  decide

/-- A second value of this size compacts, because the old one counts as
compactable. -/
theorem halfLog_compacts (h : Opened smallArea s false (halfLog content))
    (hsealed : Sealed smallArea s.dev.bytes false (halfLog content)) :
    compacts s (byteKey 97).1 (filled 2500 1 (by decide)).1 = true := by
  have hlookup : lookup (halfLog content) (byteKey 97) = some content := rfl
  have harea : smallArea.size = 4096 := rfl
  rw [h.compacts_eq hsealed (by rw [Area.logEnd, logSize_halfLog hlen, harea, regionHeaderSize]; omega),
    if_pos (halfLog_full hlen), needed_halfLog, logSize_halfLog hlen, harea]
  simp only [oldSize, hlookup, hlen, entrySize, entryHeaderSize, regionHeaderSize, Bool.or_eq_true,
    decide_eq_true_eq]
  exact Or.inl (by omega)

end Half

theorem halfLog_differs {content : Content} (hzero : 0 ∈ content.1.1) :
    lookup (halfLog content) (byteKey 97) ≠ some (filled 2500 1 (by decide), false) := by
  intro hsame
  obtain rfl := Option.some.inj hsame
  exact absurd (List.eq_of_mem_replicate hzero) (by decide)

/-- A set that compacts is cut short at the end of the compaction. The key is
gone. -/
theorem set_cut_loses_value :
    Fresh smallArea (smallArea.create blank) ∧
      (∀ x, smallArea.top ≤ x → (smallArea.create blank).dev.bytes x = 0xFF) ∧
      (sysparamGetData (run smallArea.step (smallArea.create blank) halfCalls) (byteKey 97).1).1.1 =
        .ok ∧
      ∃ g ∈ (run smallArea.step (smallArea.create blank) halfCalls).dev.cuts
          (sysparamSetData (run smallArea.step (smallArea.create blank) halfCalls) (byteKey 97).1
            (filled 2500 1 (by decide)).1 false).2.dev,
        (sysparamInit ((run smallArea.step (smallArea.create blank) halfCalls).powerCut g)
          smallArea.base smallArea.top).1 = .ok ∧
        (sysparamGetData (sysparamInit ((run smallArea.step (smallArea.create blank)
          halfCalls).powerCut g) smallArea.base smallArea.top).2 (byteKey 97).1).1 =
            (.notFound, none) := by
  obtain ⟨content, hlen, hzero, hsettled⟩ := settled_halfCalls
  generalize run smallArea.step (smallArea.create blank) halfCalls = s at hsettled ⊢
  have hrunning := hsettled.running
  have hlookup : lookup (halfLog content) (byteKey 97) = some content := rfl
  have hplaced : placed true (byteKey 97) (halfLog content) = [.key 1 (byteKey 97)] := rfl
  have hroom : ¬Full smallArea true (byteKey 97) (filled 2500 1 (by decide)).1 (halfLog content) := by
    rintro (hfull | ⟨hnone, -⟩)
    · rw [needed_halfLog, hplaced] at hfull
      exact absurd hfull (by decide)
    · exact absurd hnone (show some 1 ≠ none from nofun)
  obtain ⟨-, hstored, -⟩ := hsettled.steady.store hrunning.sealed false (by decide)
    (filled_ne_nil _ _ (by decide)) (halfLog_differs hzero)
    (halfLog_compacts hlen hrunning.opened hrunning.sealed) hroom
  have hcut := hstored.compacted rfl hrunning.fault hrunning.paired
  have hstorable : Storable smallArea (placed true (byteKey 97) (halfLog content)) :=
    hrunning.opened.holds.storable (keyId (halfLog content) (byteKey 97))
  have hleaves : Leaves smallArea s (switched smallArea s.dev.bytes false
      (placed true (byteKey 97) (halfLog content))) true [.key 1 (byteKey 97)] :=
    ⟨hplaced ▸ holds_switched hstorable, Or.inl (paired_switched _),
      fun x hx => switched_of_outside hstorable (Or.inr hx)⟩
  obtain ⟨hok, hrunning'⟩ := hleaves.recovers hrunning.opened.covers hrunning.fault hrunning.inert le_rfl
  refine ⟨(fresh_blank _).1, (fresh_blank _).2, ?_, _, hcut, hok, ?_⟩
  · rw [(hrunning.getData _).1, hlookup]
    rfl
  · rw [(hrunning'.getData _).1]
    rfl

/-! ## Sets behind a power cut -/

/-- Behind a set that was cut short, a boot and any further calls, every set acts on
the map as its caller expects if it does not compact for a key without a value, and
if its key has at most one live value unless the set compacts. -/
theorem set_after_cut_acts_on_map {a : Area} {s : Sys} (hfresh : Fresh a s)
    (hinert : Inert (s.dev.bytes a.top)) (calls : List Call) (cutKey : Payload)
    (cutValue : List UInt8) (cutBinary : Bool)
    (hstray : compacts (run a.step s calls) cutKey.1 cutValue = true →
      StrayFree a (run a.step s calls) (lookupKey (run a.step s calls) cutKey.1).2.keyId)
    {g : Image} (hg : g ∈ (run a.step s calls).dev.cuts
      (sysparamSetData (run a.step s calls) cutKey.1 cutValue cutBinary).2.dev)
    {topAddr : ℕ} (htop : a.top ≤ topAddr) {s' : Sys}
    (hboot : sysparamInit ((run a.step s calls).powerCut g) a.base topAddr = (.ok, s'))
    (later : List Call) (k : Payload) (value : List UInt8) (isBinary : Bool)
    (hstep : ¬ReusesKey (run a.step s' later) (.set k.1 value isBinary))
    (hsingle : value = [] ∨ compacts (run a.step s' later) k.1 value = false →
      SingleValue a (run a.step s' later) k) :
    ActsOnMap (run a.step s' later) k value isBinary := by
  obtain ⟨second, I, hrunning⟩ := hfresh.reaches hinert calls
  generalize run a.step s calls = s at *
  obtain ⟨status, s₁, hrun, houtcome⟩ := hrunning.opened.setData hrunning.sealed cutKey cutValue cutBinary
  rw [hrun] at hg
  rw [(hrunning.opened.lookupKey_iff hrunning.sealed cutKey).1] at hstray
  obtain ⟨second', J, hleaves, -⟩ := houtcome.leaves hrunning hstray hg
  obtain ⟨-, hrecovered⟩ :=
    hleaves.recovers hrunning.opened.covers hrunning.fault hrunning.inert htop
  rw [hboot] at hrecovered
  obtain ⟨_, K, hreached⟩ := hrecovered.reaches later
  by_cases hneeds : value = [] ∨ compacts (run a.step s' later) k.1 value = false
  · obtain ⟨second'', I', hopened, single⟩ := hsingle hneeds
    exact (hreached.of_opened hopened).actsOnMap hstep fun _ => single
  · exact hreached.actsOnMap hstep fun h => absurd h hneeds

/-- Another key is set behind a cut that left two values of the first one. -/
theorem set_after_cut_acts_on_map_other : ∃ g s',
    sysparamInit ((run smallArea.step (smallArea.create blank) updateCalls).powerCut g) smallArea.base
      smallArea.top = (.ok, s') ∧ ActsOnMap s' (byteKey 98) [5] true := by
  obtain ⟨g, hg, s', hboot, hrecovered⟩ := updateCalls_doubled
  have hcompacts := settled_updateCalls.steady.compacts_eq_false (k := byteKey 107)
    (v := filled 1 2 (by decide)) ⟨by decide, by decide, fun _ => by decide⟩
  refine ⟨g, s', hboot, set_after_cut_acts_on_map (fresh_blank smallArea).1
    (settled_blank smallArea).running.inert updateCalls (byteKey 107) _ _
    (fun hc => absurd hc (by rw [hcompacts]; decide)) hg le_rfl hboot [] _ _ _ ?_
    fun _ => ⟨_, _, hrecovered.opened, by decide⟩⟩
  exact hrecovered.not_reusesKey (Or.inl (by decide))

/-- A key with two values behind a cut is deleted. The call reports success, and the
second value is back. -/
theorem delete_after_cut_restores_value :
    Fresh smallArea (smallArea.create blank) ∧
      (∀ x, smallArea.top ≤ x → (smallArea.create blank).dev.bytes x = 0xFF) ∧
      ∃ g ∈ (run smallArea.step (smallArea.create blank) updateCalls).dev.cuts
          (sysparamSetData (run smallArea.step (smallArea.create blank) updateCalls) (byteKey 107).1
            (filled 1 2 (by decide)).1 false).2.dev,
        ∃ s', sysparamInit ((run smallArea.step (smallArea.create blank) updateCalls).powerCut g)
            smallArea.base smallArea.top = (.ok, s') ∧
          (sysparamSetData s' (byteKey 107).1 [] false).1 = .ok ∧
          (sysparamGetData (sysparamSetData s' (byteKey 107).1 [] false).2 (byteKey 107).1).1 =
            (.ok, some ([2], false)) := by
  obtain ⟨g, hg, s', hboot, hrecovered⟩ := updateCalls_doubled
  refine ⟨(fresh_blank _).1, (fresh_blank _).2, g, hg, s', hboot, ?_⟩
  obtain ⟨flip, J, hset, hdeleted⟩ := hrecovered.setData (byteKey 107) [] false
  rw [(hdeleted.getData _).1]
  generalize (sysparamSetData s' (byteKey 107).1 [] false).1 = status at hset ⊢
  generalize compacts s' (byteKey 107).1 [] = c at hset
  cases hset with
  | badValue hbad => exact absurd hbad (by decide)
  | absent _ hlookup => exact absurd hlookup (by decide)
  | deleted => exact ⟨rfl, rfl⟩
  | same _ _ hne => exact absurd rfl hne
  | full _ _ hne => exact absurd rfl hne
  | stored _ _ hne => exact absurd rfl hne

end EspOpenRtos.Sysparam
