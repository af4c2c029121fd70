/-
# The log invariant and canonical compaction

Between calls the active region holds a log that ends where memory says it does,
with erased space behind it. Compacting rewrites the log in a canonical form:
the pairs that iterating shows, numbered from one, and nothing else.

Both rest on the byte behind the area. With a byte there that completes a live
entry, a log that ends one byte before the end of the area makes a compaction
copy a phantom value, and the copied log need not fit the region.
-/

import EspOpenRtos.Sysparam.Iteration
import EspOpenRtos.Sysparam.Phantom

namespace EspOpenRtos.Sysparam

open Math Math.NorFlash Math.Runs Math.KeyedLog

/-! ## The active region -/

/-- The active region holds a log that ends where memory says it does. -/
structure WellLogged (s : Sys) : Prop where
  begins : s.info.curBase + regionHeaderSize ≤ s.info.endAddr
  fits : s.info.endAddr ≤ s.info.curBase + s.info.regionSize
  tiled : ∃ L, Stored s.dev.bytes (s.info.curBase + regionHeaderSize) L ∧
    s.info.curBase + regionHeaderSize + (L.map Entry.size).sum = s.info.endAddr ∧
    ((KeyedLog.keys (items L)).map Prod.snd).Nodup ∧
    ((KeyedLog.keys (items L)).map Prod.fst).Pairwise (· < ·) ∧
    ∀ p ∈ KeyedLog.keys (items L), 1 ≤ p.1 ∧ p.1 ≤ maxKeyId
  erased : ∀ x, s.info.endAddr ≤ x → x < s.info.curBase + s.info.regionSize → s.dev.bytes x = 0xFF
  scanned : ∃ ctx info, findEntry s.dev s.info (initContext s.info) entryIdEnd false =
    (.ok, ctx, info) ∧ ctx.addr = s.info.endAddr

theorem sum_size (L : List Entry) : (L.map Entry.size).sum = logSize (items L) := by
  induction L with
  | nil => rfl
  | cons e L ih => rw [List.map_cons, List.sum_cons, ih, items_cons, logSize_cons, Entry.itemSize_item]

theorem Opened.wellLogged {a : Area} {s : Sys} {second : Bool} {I : Items}
    (h : Opened a s second I) (hsealed : Sealed a s.dev.bytes second I) : WellLogged s := by
  obtain ⟨ctx, info, hfind, haddr, -⟩ := findEntry_end s.info h hsealed h.curBase h.regionSize
  obtain ⟨L, rfl, hlayout⟩ := h.holds.log
  have hend : s.info.endAddr = s.info.curBase + regionHeaderSize + logSize (items L) := by
    rw [h.endAddr, h.curBase]
  refine ⟨by omega, ?_, ⟨L, ?_, by rw [sum_size, hend], h.holds.inv.names, h.holds.inv.ids,
    h.holds.inv.range⟩, ?_, ⟨ctx, info, hfind, haddr.trans h.endAddr.symm⟩⟩
  · rw [h.endAddr, h.curBase, h.regionSize]
    exact hlayout.fits
  · rw [h.curBase]
    exact hlayout.stored
  · rw [h.endAddr, h.curBase, h.regionSize]
    exact hlayout.erased

/-- Whatever is called, the active region holds a log that ends where memory says
it does. -/
theorem run_wellLogged {a : Area} {s : Sys} (hfresh : Fresh a s)
    (hinert : Inert (s.dev.bytes a.top)) (calls : List Call) : WellLogged (run a.step s calls) := by
  obtain ⟨second, I, hrunning⟩ := hfresh.reaches hinert calls
  exact hrunning.opened.wellLogged hrunning.sealed

/-- A run with sets, a delete and a compaction, behind which there is a value. -/
theorem run_wellLogged_sample :
    WellLogged (run smallArea.step (smallArea.create blank) (sampleCalls ++ [.compact])) ∧
      (sysparamGetData (run smallArea.step (smallArea.create blank) (sampleCalls ++ [.compact]))
        [107]).1 = (.ok, some ([1], false)) :=
  ⟨run_wellLogged (fresh_blank smallArea).1 (settled_blank smallArea).running.inert _,
    by decide +kernel⟩

/-! ## Compaction -/

/-- Compacting keeps the map and leaves the log in canonical form. The items are
the log before the call. -/
structure CompactsCleanly (s : Sys) (I : Items) : Prop where
  ok : (sysparamCompact s).1 = .ok
  get : ∀ key, (sysparamGetData (sysparamCompact s).2 key).1 = (sysparamGetData s key).1
  iterate : ∀ n, iterate (sysparamCompact s).2 n = iterate s n
  pairs : ∀ n, Sysparam.iterate s n = iterAnswers n (KeyedLog.pairs I)
  /-- The region holds the pairs, numbered from one, inside its bounds. -/
  stored : ∃ L, items L = KeyedLog.renumber none 0 (KeyedLog.pairs I) ∧
    Layout (sysparamCompact s).2.dev.bytes (sysparamCompact s).2.info.curBase
      ((sysparamCompact s).2.info.curBase + (sysparamCompact s).2.info.regionSize) L
  endAddr : (sysparamCompact s).2.info.endAddr = (sysparamCompact s).2.info.curBase + 8 +
    ((KeyedLog.pairs I).map fun p => 8 + p.2.1.1.length + p.2.2.1.1.length).sum
  again : (sysparamCompact (sysparamCompact s).2).1 = .ok ∧
    ∀ i, regionHeaderSize ≤ i → i < (sysparamCompact s).2.info.regionSize →
      (sysparamCompact (sysparamCompact s).2).2.dev.bytes
          ((sysparamCompact (sysparamCompact s).2).2.info.curBase + i) =
        (sysparamCompact s).2.dev.bytes ((sysparamCompact s).2.info.curBase + i)

section Compaction

variable {a : Area} {f : Image} {s : Sys} {second : Bool} {I J : Items}

/-- What stands in a region after a compaction into it. -/
theorem switched_at (hwritable : ∀ item ∈ J, Writable item)
    (hfits : regionHeaderSize + logSize J ≤ a.size) {i : ℕ} (hi : regionHeaderSize ≤ i)
    (hi' : i < a.size) :
    switched a f second J (a.region (!second) + i) = (logBytes J)[i - regionHeaderSize]?.getD 0xFF := by
  have hlen := length_logBytes hwritable
  have hapart := a.region_apart second
  have hbase : (a.header second false).length = regionHeaderSize ∧
    (a.header (!second) true).length = regionHeaderSize := ⟨rfl, rfl⟩
  simp only [regionHeaderSize] at *
  rw [switched, patch_of_outside (by omega), claimed, patch_of_outside (by omega), copiedTo]
  by_cases hlog : i - 8 < (logBytes J).length
  · have haddr : a.region (!second) + i = a.region (!second) + regionHeaderSize + (i - 8) := by
      rw [regionHeaderSize]
      omega
    rw [haddr, patch_at hlog, List.getElem?_eq_getElem hlog, Option.getD_some]
  · rw [patch_of_outside (by rw [regionHeaderSize]; omega), List.getElem?_eq_none (by omega),
      Option.getD_none]
    exact erasedSpare_of_inside (by omega) (by omega)

/-- The size of a log in canonical form. -/
theorem logSize_renumber (ps : List (ℕ × Payload × Content)) :
    logSize (renumber none 0 ps) =
      (ps.map fun p => 8 + p.2.1.1.length + p.2.2.1.1.length).sum := by
  rw [logSize, size_renumber_none uniform_itemSize, pairsSize]
  congr 1
  refine List.map_congr_left fun p _ => ?_
  simp only [itemSize, entrySize, entryHeaderSize]
  omega

theorem iterAnswers_congr {ps qs : List (ℕ × Payload × Content)}
    (h : ps.map Prod.snd = qs.map Prod.snd) (n : ℕ) : iterAnswers n ps = iterAnswers n qs := by
  have hzero (n : ℕ) (ps : List (ℕ × Payload × Content)) :
      iterAnswers n ps = iterAnswers n ((ps.map Prod.snd).map (Prod.mk 0)) := by
    induction n generalizing ps with
    | zero => rfl
    | succ n ih =>
      cases ps with
      | nil => rfl
      | cons p ps =>
        rewrite [iterAnswers, ih ps]
        rfl
  rw [hzero n ps, h, ← hzero n qs]

theorem Running.compactsCleanly (h : Running a s second I) : CompactsCleanly s I := by
  obtain ⟨hok, hrunning, hswitched⟩ := h.compact
  obtain ⟨hok', hrunning', hswitched'⟩ := hrunning.compact
  have inv := h.opened.holds.inv
  have hwritable := writable_compact inv none
  have hfits := hrunning.opened.holds.logSize_le
  have hpairs : (KeyedLog.pairs (KeyedLog.compact none I)).map Prod.snd =
      (KeyedLog.pairs I).map Prod.snd := KeyedLog.pairs_renumber_none
  rw [KeyedLog.compact_compact] at hswitched'
  refine ⟨hok, fun key => ?_, fun n => ?_, h.opened.iterate h.sealed, ?_, ?_, hok', fun i hi hi' => ?_⟩
  · rw [← sysparamGetData_keyOf, ← sysparamGetData_keyOf s, (hrunning.getData _).1, (h.getData _).1,
      inv.lookup_compact]
    rfl
  · rw [hrunning.opened.iterate hrunning.sealed, h.opened.iterate h.sealed, iterAnswers_congr hpairs]
  · rw [hrunning.opened.curBase, hrunning.opened.regionSize]
    exact hrunning.opened.holds.log
  · rw [hrunning.opened.endAddr, hrunning.opened.curBase]
    congr 1
    exact logSize_renumber _
  · -- both regions have been written from the same log
    rw [hrunning.opened.regionSize] at hi'
    rw [hrunning'.opened.curBase, hrunning.opened.curBase, hswitched'.bytes, hswitched.bytes,
      switched_at hwritable hfits hi hi', switched_at hwritable hfits hi hi']

end Compaction

/-- Whatever was called before, compacting keeps the map and leaves the log in
canonical form. -/
theorem compact_canonical {a : Area} {s : Sys} (hfresh : Fresh a s)
    (hinert : Inert (s.dev.bytes a.top)) (calls : List Call) :
    ∃ second I, Opened a (run a.step s calls) second I ∧ CompactsCleanly (run a.step s calls) I := by
  obtain ⟨second, I, hrunning⟩ := hfresh.reaches hinert calls
  exact ⟨second, I, hrunning.opened, hrunning.compactsCleanly⟩

/-- A store with a deleted value and a live one. -/
theorem compact_canonical_sample :
    (∃ second I, Opened smallArea sampleStore second I ∧ CompactsCleanly sampleStore I) ∧
      (sysparamGetData sampleStore [107]).1 = (.ok, some ([1], false)) :=
  ⟨compact_canonical (fresh_blank smallArea).1 (settled_blank smallArea).running.inert sampleCalls,
    getData_sampleStore⟩

/-! ## A phantom that is copied -/

section Overflow

variable {a : Area} {s : Sys} {I : Items} {len : ℕ}

/-- The log that a compaction writes when it takes the phantom for a value. -/
def phantomCompacted (a : Area) (f : Image) (I : Items) (len : ℕ) (h : len < 0x10000) : Items :=
  compact none (I ++ [.value 255 (phantomValue a f len h, false)])

/-- The copied log is one byte too long, and its last byte is the one with which
the header of the other region starts. -/
structure SpillsOver (a : Area) (J : Items) : Prop where
  size : regionHeaderSize + logSize J = a.size + 1
  log : ∃ front, logBytes J = front ++ [0x45]
  draft : ∃ front, draftBytes J = front ++ [0x45]

theorem Opened.compactable_phantom (h : Opened a s true I) (hlast : a.logEnd true I + 1 = a.top)
    (hphantom : PhantomBehind a s.dev.bytes len) (hlen : len + 3 ≤ a.size + 64)
    (hspills : SpillsOver a (phantomCompacted a s.dev.bytes I len hphantom.small)) :
    ∃ W, Compactable a s true none W ∧
      compactedItems none W = phantomCompacted a s.dev.bytes I len hphantom.small := by
  have hsize := a.size_pos
  have hregions : a.region false + a.size = a.region true := rfl
  have htop := a.region_true_add_size
  have houtside {x : ℕ} (hx : a.region true ≤ x) :
      Sysparam.erasedSpare a s.dev.bytes true x = s.dev.bytes x :=
    erasedSpare_of_outside (Or.inr hx)
  have hphantom' : PhantomBehind a (Sysparam.erasedSpare a s.dev.bytes true) len :=
    hphantom.congr fun x hx => houtside (by omega)
  have hvalue : phantomValue a (Sysparam.erasedSpare a s.dev.bytes true) len hphantom.small =
      phantomValue a s.dev.bytes len hphantom.small :=
    Subtype.ext (read_congr fun x hx _ => houtside (by omega))
  obtain ⟨W, hregion, hitems⟩ := h.erasedSpare.phantom_region hlast hphantom' hlen
  have hcompacted : compactedItems none W = phantomCompacted a s.dev.bytes I len hphantom.small := by
    rw [compactedItems, hitems, phantomCompacted, ← hvalue]
  have hwritable : ∀ item ∈ compactedItems none W, Writable item := writable_compact hregion.inv none
  rw [← hcompacted] at hspills
  obtain ⟨hspill, ⟨front, hlog⟩, ⟨draftFront, hdraft⟩⟩ := hspills
  have hfront : front.length + 1 = logSize (compactedItems none W) := by
    rw [← length_logBytes hwritable, hlog, List.length_append, List.length_singleton]
  have hdraftFront : draftFront.length + 1 = logSize (compactedItems none W) := by
    rw [← length_draftBytes hwritable, hdraft, List.length_append, List.length_singleton]
  have hmagic : s.dev.bytes (a.region true) = 0x45 := header_first _ _ h.holds.header
  refine ⟨W, ⟨h.curBase, h.altBase, h.regionSize, h.covers, hregion, ?_, ?_, ?_, ?_, ?_⟩, hcompacted⟩
  · rw [← size_renumber_none uniform_itemSize]
    change logSize (compactedItems none W) ≤ _
    omega
  · -- all but the last byte go to erased flash
    intro i hi
    simp only [hdraft, List.length_append, List.length_singleton] at hi
    simp only [hdraft, Bool.not_true]
    by_cases hend : i < draftFront.length
    · rw [erasedSpare_of_inside (by simp only [Bool.not_true]; omega)
        (by simp only [Bool.not_true, regionHeaderSize] at *; omega)]
      exact UInt8.neg_one_and
    · obtain rfl : i = draftFront.length := by omega
      have haddr : a.region false + regionHeaderSize + draftFront.length = a.region true := by omega
      rw [haddr, houtside le_rfl, hmagic, List.getElem_concat_length rfl]
      decide
  · intro x hx
    have hfirst := hx.1
    simp only [Info.addrAfter, h.curBase, items_nil, logSize_nil, Bool.not_true] at hfirst ⊢
    simp only [regionHeaderSize] at *
    omega
  · have hend := h.endAddr
    rw [Area.logEnd] at hlast
    simp only [Bool.not_true]
    omega
  · rw [← h.holds.header]
    refine read_congr fun x hx hx' => ?_
    simp only [copiedTo, Bool.not_true]
    by_cases hfirst : x = a.region true
    · have haddr : a.region true = a.region false + regionHeaderSize + front.length := by omega
      have hlt : front.length < (logBytes (compactedItems none W)).length := by
        rw [length_logBytes hwritable]
        omega
      rw [hfirst, hmagic, haddr, patch_at hlt]
      simp [hlog]
    · rw [patch_of_outside (by rw [length_logBytes hwritable]; omega)]
      exact houtside hx

/-- The compaction succeeds, and the log ends outside the region. -/
theorem Steady.compact_phantom (h : Steady a s true I) (hlast : a.logEnd true I + 1 = a.top)
    (hphantom : PhantomBehind a s.dev.bytes len) (hlen : len + 3 ≤ a.size + 64)
    (hspills : SpillsOver a (phantomCompacted a s.dev.bytes I len hphantom.small)) :
    (sysparamCompact s).1 = .ok ∧
      (sysparamCompact s).2.info.endAddr =
        (sysparamCompact s).2.info.curBase + (sysparamCompact s).2.info.regionSize + 1 := by
  obtain ⟨W, hcompactable, hitems⟩ := h.opened.compactable_phantom hlast hphantom hlen hspills
  obtain ⟨status, s', ctx, keyId, hrun, hresult⟩ := compactParams_spec hcompactable none
  have hbase := h.opened.curBase_ne
  rw [sysparamCompact, if_neg hbase]
  simp only [hrun]
  rcases hresult with ⟨rfl, hswitched, -⟩ | ⟨-, hfailed⟩ | ⟨-, hfailed⟩
  · refine ⟨rfl, ?_⟩
    rw [hswitched.info, hitems]
    have hsize := hspills.size
    simp only [Area.info, Area.logEnd, Bool.not_true]
    omega
  · exact absurd h.fault (fault_of_failed hfailed.failed)
  · exact absurd h.fault hfailed.failed.before

/-- The log of the run that ends one byte before the end of the area spills over
when a phantom of this length is copied with it. -/
theorem spillsOver_exposedItems (f : Image) (h : 2543 < 0x10000) :
    SpillsOver smallArea (phantomCompacted smallArea f (exposedItems 0x45) 2543 h) := by
  have hitems : phantomCompacted smallArea f (exposedItems 0x45) 2543 h =
      [.key 1 (roundKey 255), .value 1 (phantomValue smallArea f 2543 h, false), .key 2 fillKey] ++
        [.value 2 (lastValue 0x45, false)] := by
    rw [phantomCompacted, compact, pairs_exposedItems]
    rfl
  have hlength := length_phantomValue smallArea f 2543 h
  have hsize : smallArea.size = 4096 := rfl
  refine ⟨?_, ?_, ?_⟩
  · rw [hitems, hsize, logSize_append]
    simp [itemSize, entrySize, entryHeaderSize, regionHeaderSize, length_lastValue, hlength, roundKey,
      byteKey, fillKey]
  · have hpayload : (Entry.ofItem (.value 2 (lastValue 0x45, false))).payload.1 =
        List.replicate 1526 0 ++ [0x45] := rfl
    rw [hitems, logBytes_append, logBytes_singleton, Entry.bytes, hpayload, ← List.append_assoc,
      ← List.append_assoc]
    exact ⟨_, rfl⟩
  · have hpayload : (itemPayload (.value 2 (lastValue 0x45, false))).1 =
        List.replicate 1526 0 ++ [0x45] := rfl
    rw [hitems, draftBytes, List.flatMap_append, List.flatMap_singleton, draft, hpayload,
      ← List.append_assoc, ← List.append_assoc]
    exact ⟨_, rfl⟩

end Overflow

/-- An erased chip, but for the header of the phantom behind the area. -/
def phantomChip (a : Area) : Sys :=
  ⟨⟨fun _ _ => true, patch (fun _ => 0xFF) a.top [0xA0, 0xEF, 0x09], [], none, none⟩,
    ⟨0, 0, 0, 0, false⟩⟩

theorem phantomBehind_phantomChip (a : Area) : PhantomBehind a (phantomChip a).dev.bytes 2543 :=
  phantomBehind_patch a _ (by decide) (by decide)

/-- The store on this chip, with a log that ends one byte before the end of the
area. -/
theorem steady_phantomChip : Fresh smallArea (smallArea.create (phantomChip smallArea)) ∧
    ∃ t, t = run smallArea.step (smallArea.create (phantomChip smallArea)) (exposedCalls 0x45) ∧
      (sysparamCompact t).1 = .ok ∧
      (sysparamCompact t).2.info.endAddr =
        (sysparamCompact t).2.info.curBase + (sysparamCompact t).2.info.regionSize + 1 := by
  obtain ⟨hfresh, houtside₁⟩ := fresh_create smallArea (s := phantomChip smallArea) rfl
    fun _ _ _ => rfl
  obtain ⟨hsteady, hapart⟩ := steady_exposedCalls hfresh.steady 0x45
  refine ⟨hfresh, _, rfl, ?_⟩
  generalize run smallArea.step (smallArea.create (phantomChip smallArea)) (exposedCalls 0x45) = t
    at hsteady hapart ⊢
  have hphantom : PhantomBehind smallArea t.dev.bytes 2543 :=
    (phantomBehind_phantomChip smallArea).congr fun x hx => (hapart.outside x hx).trans (houtside₁ x hx)
  exact hsteady.compact_phantom (logEnd_exposedItems _) hphantom (by decide) (spillsOver_exposedItems _ _)

/-- With a byte behind the area that completes a live entry, the log can end
outside the region. -/
theorem log_leaves_region :
    ∃ s, Fresh smallArea s ∧
      ¬WellLogged (run smallArea.step s (exposedCalls 0x45 ++ [.compact])) := by
  obtain ⟨hfresh, t, ht, -, hend⟩ := steady_phantomChip
  refine ⟨_, hfresh, fun hlogged => ?_⟩
  rw [run_append, ← ht, run_cons, run_nil, Area.step] at hlogged
  have hfits := hlogged.fits
  omega

/-- The compaction that leaves it there reports success. -/
theorem compact_leaves_region :
    ∃ s, Fresh smallArea s ∧
      (sysparamCompact (run smallArea.step s (exposedCalls 0x45))).1 = .ok ∧
      ∀ I, ¬CompactsCleanly (run smallArea.step s (exposedCalls 0x45)) I := by
  obtain ⟨hfresh, t, ht, hok, hend⟩ := steady_phantomChip
  refine ⟨_, hfresh, ?_⟩
  rw [← ht]
  refine ⟨hok, fun I hclean => ?_⟩
  obtain ⟨L, hitems, hlayout⟩ := hclean.stored
  have hfits := hlayout.fits
  rw [hitems, logSize_renumber] at hfits
  have hclaimed := hclean.endAddr
  simp only [regionHeaderSize] at hfits
  omega

end EspOpenRtos.Sysparam
