/-
# What compaction does

Compaction erases the spare region, copies the pairs into it, claims the log for
it and retires the old region, in this order. Until the claim the old region is
untouched, so a write that fails before leaves the log where it was. After the
claim only the old header is written, and a failure there is the one that
separates what memory says from what the next boot finds.
-/

import EspOpenRtos.Sysparam.Boot
import EspOpenRtos.Sysparam.CopySpec

namespace EspOpenRtos.Sysparam

open Math Math.NorFlash Math.KeyedLog

/-! ## The images of a compaction -/

section Images

variable (a : Area) (f : Image) (second : Bool) (I : Items)

/-- The spare region has been erased. -/
def erasedSpare : Image := erase f (a.region !second) a.size

/-- The items have been written to the spare region. -/
def copiedTo : Image :=
  patch (erasedSpare a f second) (a.region (!second) + regionHeaderSize) (logBytes I)

/-- The spare region has claimed the log. -/
def claimed : Image := patch (copiedTo a f second I) (a.region !second) (a.header (!second) true)

/-- The old region has been retired. -/
def switched : Image := patch (claimed a f second I) (a.region second) (a.header second false)

/-- The old region has been zeroed instead. -/
def zeroed : Image :=
  patch (claimed a f second I) (a.region second) (List.replicate regionHeaderSize 0)

/-- The images that a compaction goes through. -/
inductive Compacting : Image → Prop
  | erasing (j : ℕ) (hj : 1 ≤ j) (hle : j ≤ a.sectors) :
      Compacting (erase f (a.region !second) (j * sectorSize))
  | filling (g : Image)
      (h : Filling (erasedSpare a f second) (a.region (!second) + regionHeaderSize) I g) :
      Compacting g
  | claiming : Compacting (claimed a f second I)
  | retiring : Compacting (switched a f second I)

end Images

/-! ## The run of a compaction -/

/-- The compacted log, as copied from what the walk over the region sees. -/
def compactedItems (keyId : Option ℕ) (W : List Entry) : Items := compact keyId (items W)

/-- A compaction can be run. The walk is over the region as it is while its
entries are copied. -/
structure Compactable (a : Area) (s : Sys) (second : Bool) (keyId : Option ℕ) (W : List Entry) :
    Prop where
  curBase : s.info.curBase = a.region second
  altBase : s.info.altBase = a.region !second
  regionSize : s.info.regionSize = a.size
  covers : s.dev.Covers a.limit
  region : Region { s.dev with bytes := erasedSpare a s.dev.bytes second } s.info a.limit W
  buffer : KeyedLog.pairsSize itemSize (KeyedLog.pairs (items W)) ≤ a.size + 61
  fresh : Programmable (erasedSpare a s.dev.bytes second) (a.region (!second) + regionHeaderSize)
    (draftBytes (compactedItems keyId W))
  reads : ∀ x, s.info.Reads W x → x < a.region (!second) + regionHeaderSize ∨
    a.region (!second) + regionHeaderSize + logSize (compactedItems keyId W) ≤ x
  apart : s.info.endAddr < a.region (!second) + regionHeaderSize ∨
    a.region (!second) + regionHeaderSize + logSize (compactedItems keyId W) ≤ s.info.endAddr
  header : read (copiedTo a s.dev.bytes second (compactedItems keyId W)) (a.region second)
    regionHeaderSize = a.header second true

/-- What is left when a write fails before the spare region has claimed the log. -/
structure CopyFailed (a : Area) (s s' : Sys) (second : Bool) (J : Items) : Prop where
  info : s.info.UpToFlag s'.info
  failed : ∃ x, Failed s.dev s'.dev x
  missing : Missing a s'.dev.bytes second
  outside : ∀ x, x < a.region (!second) ∨
    a.region (!second) + max a.size (regionHeaderSize + logSize J) ≤ x →
      s'.dev.bytes x = s.dev.bytes x

/-- What is left when the old region cannot be retired. -/
structure SwitchFailed (a : Area) (s s' : Sys) (second : Bool) (J : Items) : Prop where
  info : s.info.UpToFlag s'.info
  failed : Failed s.dev s'.dev (a.region second)
  bytes : s'.dev.bytes = zeroed a s.dev.bytes second J

/-- What is left when a compaction succeeds. -/
structure Switched (a : Area) (s s' : Sys) (second : Bool) (J : Items) : Prop where
  info : s'.info = a.info (!second) (a.logEnd (!second) J) false
  bytes : s'.dev.bytes = switched a s.dev.bytes second J
  quiet : Quiet s.dev s'.dev
  images : s.dev.fault = none → Through s.dev s'.dev (Compacting a s.dev.bytes second J)
  copied : s.dev.fault = none → copiedTo a s.dev.bytes second J ∈ s.dev.cuts s'.dev

/-- A log that a region of the area can hold. -/
structure Storable (a : Area) (J : Items) : Prop where
  writable : ∀ item ∈ J, Writable item
  inv : KeyedLog.Inv maxKeyId J
  fits : regionHeaderSize + logSize J ≤ a.size

section Run

variable {a : Area} {s : Sys} {second : Bool} {keyId : Option ℕ} {W : List Entry}

theorem writable_compact {I : Items} (inv : KeyedLog.Inv maxKeyId I) (keyId : Option ℕ) :
    ∀ item ∈ compact keyId I, Writable item := by
  have hlen : (pairs I).length ≤ maxKeyId :=
    length_pairs_le_keys.trans inv.length_keys_le
  -- the ids are counted up from the last one used
  have hcount (ps : List (ℕ × Payload × Content)) (last : ℕ) (h : last + ps.length ≤ maxKeyId) :
      ∀ item ∈ renumber keyId last ps, Writable item := by
    induction ps generalizing last with
    | nil => simp [renumber]
    | cons p ps ih =>
      rw [List.length_cons] at h
      have hid : last + 1 < 0xfff := by
        simp only [maxKeyId] at h
        omega
      have hrest := ih (last + 1) (by omega)
      intro item hitem
      simp only [renumber] at hitem
      split_ifs at hitem
      · rcases List.mem_cons.mp hitem with rfl | hmem
        · exact hid
        · exact hrest item hmem
      · rcases List.mem_cons.mp hitem with rfl | hmem
        · exact hid
        rcases List.mem_cons.mp hmem with rfl | hmem
        · exact hid
        · exact hrest item hmem
  exact hcount _ 0 (by omega)

/-- The loop can copy everything from the start. -/
theorem Compactable.copyable (h : Compactable a s second keyId W) {d : Device}
    (haccepts : d.accepts = s.dev.accepts) (hbytes : d.bytes = erasedSpare a s.dev.bytes second) :
    Copyable ⟨⟨d, s.info⟩, ⟨[], [], false, defaultIterBufSize, initContext s.info⟩,
      a.region (!second) + regionHeaderSize, 0, keyId⟩ a.limit (a.size + 61) keyId [] W := by
  have hregion : Region d s.info a.limit W := h.region.of_device haccepts fun x _ => by rw [hbytes]
  have hsize := a.size_pos
  have hcur := a.region_add_size_le second
  have halt := a.region_add_size_le (!second)
  have hlog : logSize (compactedItems keyId W) ≤ a.size + 61 :=
    (size_renumber_le uniform_itemSize).trans h.buffer
  refine ⟨hregion, hregion.init_after, ?_, ?_, h.buffer, ⟨writable_compact hregion.inv keyId, ?_,
    hbytes ▸ h.fresh, h.apart⟩, h.reads, ?_, fun p _ => Iff.rfl⟩
  · change s.info.curBase + s.info.regionSize + 3 + (a.size + 61) ≤ a.limit
    rw [h.curBase, h.regionSize, Area.limit]
    omega
  · change defaultIterBufSize ≤ a.size + 61
    rw [defaultIterBufSize]
    omega
  · intro x n _ hn
    change d.accepts x n = true
    rw [haccepts]
    refine h.covers x n (hn.trans ?_)
    change a.region (!second) + regionHeaderSize + logSize (compactedItems keyId W) ≤ a.limit
    rw [Area.limit, regionHeaderSize]
    omega
  · intro p hp
    have hkey := pairs_sublist_keys.subset (List.mem_map_of_mem hp)
    exact (hregion.inv.range _ hkey).1

/-- The three outcomes of a compaction. -/
theorem compactParams_spec (h : Compactable a s second keyId W) (ctx : Option Context) :
    ∃ status s' ctx' keyId', compactParams s ctx keyId = (status, s', ctx', keyId') ∧
      (status = .ok ∧ Switched a s s' second (compactedItems keyId W) ∧
          ctx' = (ctx.map fun _ => Context.compacted (a.logEnd (!second) (compactedItems keyId W))
            (pairs (items W)).length) ∧
          keyId' = keyId.map (fun id => renumberedId id 0 (pairs (items W))) ∨
        status = .errIo ∧ CopyFailed a s s' second (compactedItems keyId W) ∨
        status = .errIo ∧ SwitchFailed a s s' second (compactedItems keyId W)) := by
  have hsize := a.size_pos
  have hcur := a.region_add_size_le second
  have halt := a.region_add_size_le (!second)
  have hapart := a.region_apart second
  have hcover (x n : ℕ) (hx : x + n ≤ a.top) : s.dev.accepts x n = true :=
    h.covers x n (by rw [Area.limit]; omega)
  have hwritable : ∀ item ∈ compactedItems keyId W, Writable item :=
    writable_compact h.region.inv keyId
  -- erase the spare region
  obtain ⟨d₁, hrun₁, hbytes₁, hquiet₁, himages₁⟩ := formatRegion_spec (d := s.dev) a.sectors
    (a.region_aligned !second) fun x n _ hn => hcover x n (hn.trans halt)
  have hsectors : s.info.regionSize / sectorSize = a.sectors := by
    rw [h.regionSize]
    exact Nat.mul_div_cancel _ (by decide)
  have hbase : s.info.curBase ≠ 0 := by
    rw [h.curBase]
    exact (a.region_pos second).ne'
  -- copy the pairs
  obtain ⟨status₂, c, hrun₂, hflag, hresult₂⟩ :=
    copyEntries_spec (h.copyable hquiet₁.accepts hbytes₁)
  simp only [compactParams, h.altBase, hsectors, hrun₁, iterStart, if_neg hbase, hrun₂]
  rcases hresult₂ with ⟨rfl, hcopied⟩ | ⟨rfl, hbroken⟩
  · have hinfo : c.sys.info.curBase = a.region second := by
      rcases hflag with hflag | hflag <;> rw [hflag] <;> exact h.curBase
    have hbytes₂ : c.sys.dev.bytes = copiedTo a s.dev.bytes second (compactedItems keyId W) := by
      rw [hcopied.written.bytes]
      change patch d₁.bytes _ _ = _
      rw [hbytes₁]
      rfl
    have hquiet₂ : Quiet s.dev c.sys.dev := hquiet₁.trans hcopied.written.quiet
    -- claim the log
    have hcover₃ : c.sys.dev.CoversRange (a.region !second)
        (a.region (!second) + regionHeaderSize) := by
      intro x n _ hn
      rw [hquiet₂.accepts]
      exact hcover x n (by rw [regionHeaderSize] at hn; omega)
    have hprog₃ : Programmable c.sys.dev.bytes (a.region !second)
        (headerBytes (a.region !second) (a.region second) true) := by
      refine programmable_of_erased fun i hi => ?_
      rw [length_headerBytes] at hi
      rw [hbytes₂, copiedTo, patch_of_lt (by omega)]
      exact erase_inside (by omega) (by rw [regionHeaderSize] at hi; omega)
    obtain ⟨status₃, d₃, hrun₃, himages₃, hresult₃⟩ := writeRegionHeader_spec (a.region second) true
      hcover₃ hprog₃
    rw [hbytes₂] at himages₃ hresult₃
    have hheader₃ : headerBytes (a.region !second) (a.region second) true =
        a.header (!second) true := by rw [Area.header, Bool.not_not]
    rw [hheader₃] at himages₃ hresult₃
    simp only [Status.isError, Bool.false_eq_true, if_false, hinfo, hrun₃]
    rcases hresult₃ with ⟨rfl, hbytes₃, hquiet₃⟩ | ⟨rfl, hfailed, hbytes₃⟩
    · -- retire the old region
      have hquiet₃' : Quiet s.dev d₃ := hquiet₂.trans hquiet₃
      have hcover₄ : d₃.CoversRange (a.region second) (a.region second + regionHeaderSize) := by
        intro x n _ hn
        rw [hquiet₃'.accepts]
        exact hcover x n (by rw [regionHeaderSize] at hn; omega)
      have hold : read d₃.bytes (a.region second) regionHeaderSize = a.header second true := by
        rw [hbytes₃, read_patch_of_disjoint (by rw [length_header, regionHeaderSize]; omega)]
        exact h.header
      obtain ⟨status₄, d₄, hrun₄, himages₄, hresult₄⟩ := writeRegionHeader_spec (a.region !second)
        false hcover₄ (programmable_stale hold)
      rw [hbytes₃] at himages₄ hresult₄
      simp only [hrun₄]
      rcases hresult₄ with ⟨rfl, hbytes₄, hquiet₄⟩ | ⟨rfl, hfailed, hbytes₄⟩
      · have hcopying (hnone : s.dev.fault = none) : Through s.dev c.sys.dev
            (Compacting a s.dev.bytes second (compactedItems keyId W)) := by
          refine (himages₁.mono ?_).trans
            ((hcopied.written.images (hquiet₁.fault hnone)).mono ?_)
          · rintro g ⟨j, hj, hle, rfl⟩
            exact .erasing j hj hle
          · intro g hg
            simp only [hbytes₁] at hg
            exact .filling g hg
        have hswitching (hnone : s.dev.fault = none) : Through c.sys.dev d₄
            (Compacting a s.dev.bytes second (compactedItems keyId W)) := by
          have hnone₂ := hquiet₂.fault hnone
          refine ((himages₃ hnone₂).mono ?_).trans ((himages₄ (hquiet₃.fault hnone₂)).mono ?_)
          · rintro g rfl
            exact .claiming
          · rintro g rfl
            exact .retiring
        refine ⟨_, _, _, _, rfl, Or.inl ⟨rfl, ⟨?_, hbytes₄, hquiet₃'.trans hquiet₄,
          fun hnone => (hcopying hnone).trans (hswitching hnone), fun hnone => ?_⟩, ?_, ?_⟩⟩
        · have haddr := hcopied.addr
          have hsizes : c.sys.info.regionSize = a.size := by
            rcases hflag with hflag | hflag <;> rw [hflag] <;> exact h.regionSize
          simp only [haddr, hsizes, Area.info, Bool.not_not]
          rfl
        · rw [← hbytes₂]
          exact (hcopying hnone).mem_cuts (hswitching hnone)
        · simp only [hcopied.addr, hcopied.currentKeyId, Nat.zero_add]
          rfl
        · exact hcopied.keyId
      · exact ⟨_, _, _, _, rfl,
          Or.inr (Or.inr ⟨rfl, hflag, hquiet₃'.failed hfailed, hbytes₄⟩)⟩
    · -- the spare region is given up
      refine ⟨_, _, _, _, rfl, Or.inr (Or.inl ⟨rfl, hflag, ⟨_, hquiet₂.failed hfailed⟩, ?_, ?_⟩)⟩
      · right
        change d₃.bytes _ = 0
        rw [hbytes₃]
        exact patch_at (i := 0) (by decide)
      · intro x hx
        change d₃.bytes x = _
        rw [hbytes₃, patch_of_outside (by rw [List.length_replicate, regionHeaderSize]; omega), copiedTo,
          patch_of_outside (by rw [length_logBytes hwritable]; omega), erasedSpare,
          erase_outside (by omega)]
  · -- a write fails while copying
    obtain ⟨x, hfailed⟩ := hbroken.failed
    have houtside : ∀ y, y < a.region (!second) + regionHeaderSize ∨
        a.region (!second) + regionHeaderSize + logSize (compactedItems keyId W) ≤ y →
          c.sys.dev.bytes y = d₁.bytes y := hbroken.outside
    simp only [Status.isError, if_true]
    refine ⟨_, _, _, _, rfl, Or.inr (Or.inl ⟨rfl, hflag, ⟨x, hquiet₁.failed hfailed⟩, ?_, ?_⟩)⟩
    · left
      rw [houtside _ (Or.inl (by rw [regionHeaderSize]; omega)), hbytes₁]
      exact erase_inside le_rfl (by change _ < _ + a.size; omega)
    · intro y hy
      rw [houtside y (by omega), hbytes₁]
      exact erase_outside (by change _ ∨ _ + a.size ≤ _; omega)

end Run

/-! ## Compacting an opened store -/

section Opened

variable {a : Area} {f : Image} {s : Sys} {second : Bool} {I : Items}

theorem erasedSpare_of_outside {x : ℕ}
    (h : x < a.region (!second) ∨ a.region (!second) + a.size ≤ x) :
    erasedSpare a f second x = f x := erase_outside h

theorem erasedSpare_of_inside {x : ℕ} (h1 : a.region (!second) ≤ x)
    (h2 : x < a.region (!second) + a.size) : erasedSpare a f second x = 0xFF := erase_inside h1 h2

theorem Holds.erasedSpare (h : Holds a f second I) : Holds a (erasedSpare a f second) second I := by
  have := a.region_apart second
  exact h.congr fun x h1 h2 => erasedSpare_of_outside (by omega)

/-- While the spare region is erased the store stays opened. -/
theorem Opened.erasedSpare (h : Opened a s second I) :
    Opened a ⟨{ s.dev with bytes := erasedSpare a s.dev.bytes second }, s.info⟩ second I := by
  have hsize := a.size_pos
  refine ⟨h.holds.erasedSpare, Or.inr (Or.inl ?_), h.curBase, h.altBase, h.regionSize, h.endAddr,
    h.covers⟩
  exact erasedSpare_of_inside le_rfl (by omega)

/-- With an erased byte behind the region the walk sees exactly the log. -/
theorem Opened.region_of_erased (h : Opened a s second I)
    (herased : s.dev.bytes (a.region second + a.size) = 0xFF) :
    ∃ L, items L = I ∧ Region s.dev s.info a.limit L := by
  obtain ⟨L, rfl, hlayout⟩ := h.holds.log
  have hfits := hlayout.fits
  have hnil : Walk s.dev.bytes (a.region second + a.size) a.limit
      (a.region second + regionHeaderSize + logSize (items L)) [] := by
    intro hlt
    have hfirst := hlayout.erased _ le_rfl hlt
    have hnext : s.dev.bytes (a.region second + regionHeaderSize + logSize (items L) + 1) = 0xFF := by
      rcases Nat.lt_or_ge (a.region second + regionHeaderSize + logSize (items L) + 1)
        (a.region second + a.size) with hlt' | hge
      · exact hlayout.erased _ (by omega) hlt'
      · rw [← herased]
        congr 1
        omega
    rw [header_at, hfirst, hnext]
    exact show ofLe16 0xFF 0xFF = 0xffff by decide
  have hregion := h.region_of_tail hlayout hnil rfl
  rw [List.append_nil] at hregion
  exact ⟨L, rfl, hregion⟩

/-- The compacted log fits the spare region. -/
theorem Holds.logSize_compact_le (h : Holds a f second I) (keyId : Option ℕ) :
    regionHeaderSize + logSize (compact keyId I) ≤ a.size :=
  le_trans (Nat.add_le_add_left (h.inv.size_compact_le uniform_itemSize keyId) _) h.logSize_le

theorem Holds.storable (h : Holds a f second I) (keyId : Option ℕ) : Storable a (compact keyId I) :=
  ⟨writable_compact h.inv keyId, h.inv.compact keyId, h.logSize_compact_le keyId⟩

/-- What the walk sees while the spare region is being filled, and that it is
not disturbed by that. -/
theorem Opened.walk_spare (h : Opened a s second I) (hsealed : Sealed a s.dev.bytes second I)
    (keyId : Option ℕ) :
    ∃ W, Region { s.dev with bytes := Sysparam.erasedSpare a s.dev.bytes second } s.info a.limit W ∧
      pairs (items W) = pairs I ∧
      ∀ x, s.info.Reads W x → x < a.region (!second) + regionHeaderSize ∨
        a.region (!second) + regionHeaderSize + logSize (compact keyId I) ≤ x := by
  have hfits := h.holds.logSize_le
  have hsmall := h.holds.logSize_compact_le keyId
  have hsize := a.size_pos
  cases second with
  | false =>
    obtain ⟨L, rfl, hregion⟩ := h.erasedSpare.region_of_erased
      (erasedSpare_of_inside (by simp) (by simp; omega))
    refine ⟨L, hregion, rfl, fun x hx => Or.inl ?_⟩
    have hx2 := hx.2
    simp only [Info.top, Info.addrAfter, h.curBase, h.regionSize, Area.region_false, Bool.not_false,
      Area.region_true, regionHeaderSize] at hx2 hfits ⊢
    omega
  | true =>
    have hsealed' : Sealed a (Sysparam.erasedSpare a s.dev.bytes true) true I := by
      intro hlast
      rw [erasedSpare_of_outside (by simp [Area.top]; omega)]
      exact hsealed hlast
    obtain ⟨L, T, rfl, -, hregion, hdead, -⟩ := h.erasedSpare.region hsealed'
    refine ⟨L ++ T, hregion, ?_, fun x hx => Or.inr ?_⟩
    · rw [items_append, pairs_append_dead hdead]
    · have hx1 := hx.1
      simp only [Info.addrAfter, h.curBase, Area.region_true, Bool.not_true, Area.region_false,
        regionHeaderSize] at hx1 hsmall ⊢
      omega

theorem Opened.compactable (h : Opened a s second I) (hsealed : Sealed a s.dev.bytes second I)
    (keyId : Option ℕ) :
    ∃ W, Compactable a s second keyId W ∧ pairs (items W) = pairs I ∧
      compactedItems keyId W = compact keyId I := by
  obtain ⟨W, hregion, hpairs, hreads⟩ := h.walk_spare hsealed keyId
  have hitems : compactedItems keyId W = compact keyId I := by
    rw [compactedItems, compact, hpairs, compact]
  obtain ⟨hwritable, -, hsmall⟩ := h.holds.storable keyId
  have hfits := h.holds.logSize_le
  have hapart := a.region_apart second
  have hsize := a.size_pos
  refine ⟨W, ⟨h.curBase, h.altBase, h.regionSize, h.covers, hregion, ?_, ?_, hitems ▸ hreads, ?_, ?_⟩,
    hpairs, hitems⟩
  · rw [hpairs]
    have hle := pairsSize_le (w := itemSize) h.holds.inv.nodup_ids
    change _ ≤ logSize I at hle
    omega
  · rw [hitems]
    refine programmable_of_erased fun i hi => ?_
    rw [length_draftBytes hwritable] at hi
    exact erasedSpare_of_inside (by omega) (by omega)
  · rw [hitems, h.endAddr]
    simp only [regionHeaderSize] at hsmall hfits ⊢
    omega
  · rw [hitems, copiedTo, read_patch_of_disjoint
      (by rw [length_logBytes hwritable, regionHeaderSize] at *; omega), ← h.holds.header]
    exact read_congr fun x h1 h2 => erasedSpare_of_outside
      (by rw [regionHeaderSize] at h2; omega)

/-- The spare region holds the log once it has claimed it. -/
theorem holds_claimed {J : Items} (h : Storable a J) :
    Holds a (claimed a f second J) (!second) J := by
  have hlen := length_logBytes h.writable
  have hitems := items_map_ofItem h.writable
  have hfits := h.fits
  refine ⟨read_patch_self, ⟨J.map Entry.ofItem, hitems, ?_, ?_, ?_⟩, h.inv⟩
  · apply stored_of_read
    rw [claimed, read_patch_of_disjoint (Or.inr (by rw [length_header])), copiedTo]
    exact read_patch_self
  · rw [hitems]
    omega
  · intro x h1 h2
    rw [hitems] at h1
    rw [claimed, patch_of_ge (by rw [length_header]; omega), copiedTo, patch_of_ge (by omega)]
    exact erasedSpare_of_inside (by omega) h2

theorem holds_switched {J : Items} (h : Storable a J) :
    Holds a (switched a f second J) (!second) J := by
  have hapart := a.region_apart second
  have hfits := h.fits
  refine (holds_claimed (f := f) h).congr fun x h1 h2 => ?_
  exact patch_of_outside (by rw [length_header]; omega)

theorem paired_switched (J : Items) : Paired a (switched a f second J) (!second) := by
  refine ⟨false, by simp, ?_⟩
  rw [Bool.not_not]
  exact read_patch_self

/-- Outside the area nothing changes. -/
theorem switched_of_outside {J : Items} (h : Storable a J) {x : ℕ} (hx : x < a.base ∨ a.top ≤ x) :
    switched a f second J x = f x := by
  have hcur := a.region_add_size_le second
  have halt := a.region_add_size_le (!second)
  have hcur' := a.base_le_region second
  have halt' := a.base_le_region (!second)
  have hlen := length_logBytes h.writable
  have hfits := h.fits
  rw [switched, patch_of_outside (by rw [length_header]; omega), claimed,
    patch_of_outside (by rw [length_header]; omega), copiedTo, patch_of_outside (by omega)]
  exact erasedSpare_of_outside (by omega)

/-- A compaction of an opened store. -/
inductive CompactOutcome (a : Area) (s s' : Sys) (second : Bool) (J : Items) : Status → Prop
  | switched (h : Switched a s s' second J) : CompactOutcome a s s' second J .ok
  | copyFailed (h : CopyFailed a s s' second J) : CompactOutcome a s s' second J .errIo
  | switchFailed (h : SwitchFailed a s s' second J) : CompactOutcome a s s' second J .errIo

theorem Opened.compactParams (h : Opened a s second I) (hsealed : Sealed a s.dev.bytes second I)
    (ctx : Option Context) (keyId : Option ℕ) :
    ∃ status s' ctx' keyId', compactParams s ctx keyId = (status, s', ctx', keyId') ∧
      CompactOutcome a s s' second (compact keyId I) status ∧
      (status = .ok → ctx' = (ctx.map fun _ => Context.compacted
          (a.logEnd (!second) (compact keyId I)) (pairs I).length) ∧
        keyId' = keyId.map fun id => renumberedId id 0 (pairs I)) := by
  obtain ⟨W, hcompactable, hpairs, hitems⟩ := h.compactable hsealed keyId
  obtain ⟨status, s', ctx', keyId', hrun, hresult⟩ := compactParams_spec hcompactable ctx
  rw [hitems, hpairs] at hresult
  refine ⟨status, s', ctx', keyId', hrun, ?_⟩
  rcases hresult with ⟨rfl, hswitched, hrest⟩ | ⟨rfl, hfailed⟩ | ⟨rfl, hfailed⟩
  · exact ⟨.switched hswitched, fun _ => hrest⟩
  · exact ⟨.copyFailed hfailed, by simp⟩
  · exact ⟨.switchFailed hfailed, by simp⟩

/-- After a compaction the store is opened on the other region. -/
theorem Switched.opened {s' : Sys} {keyId : Option ℕ}
    (h : Switched a s s' second (compact keyId I)) (hopened : Opened a s second I) :
    Opened a s' (!second) (compact keyId I) ∧ Paired a s'.dev.bytes (!second) ∧
      ∀ x, a.top ≤ x → s'.dev.bytes x = s.dev.bytes x := by
  have hstorable := hopened.holds.storable keyId
  have hpaired : Paired a s'.dev.bytes (!second) := h.bytes ▸ paired_switched _
  have hnew := Opened.of_holds false (h.bytes ▸ holds_switched hstorable) (Or.inl hpaired)
    (hopened.covers.of_accepts h.quiet.accepts)
  rw [← h.info] at hnew
  refine ⟨hnew, hpaired, fun x hx => ?_⟩
  rw [h.bytes]
  exact switched_of_outside hstorable (Or.inr hx)

/-- A copy that failed has not touched the log. -/
theorem CopyFailed.opened {s' : Sys} {keyId : Option ℕ}
    (h : CopyFailed a s s' second (compact keyId I)) (hopened : Opened a s second I) :
    Opened a s' second I ∧ Missing a s'.dev.bytes second ∧
      ∀ x, a.top ≤ x → s'.dev.bytes x = s.dev.bytes x := by
  have hapart := a.region_apart second
  have houtside := h.outside
  rw [max_eq_left (hopened.holds.logSize_compact_le keyId)] at houtside
  obtain ⟨x, hfailed⟩ := h.failed
  refine ⟨?_, h.missing, fun x hx => houtside x ?_⟩
  · have hkept : Opened a ⟨s'.dev, s.info⟩ second I :=
      ⟨hopened.holds.congr fun x h1 h2 => houtside x (by omega), Or.inr h.missing, hopened.curBase,
        hopened.altBase, hopened.regionSize, hopened.endAddr,
        hopened.covers.of_accepts hfailed.accepts⟩
    exact hkept.of_flag rfl h.info
  · have := a.region_add_size_le (!second)
    omega

end Opened

/-! ## Cutting a compaction short -/

section Cut

variable {a : Area} {f g : Image} {second : Bool} {I J : Items}

theorem magic_lt : ∀ i (h : i < sysparamMagic.length), sysparamMagic[i] < 0x80 := by decide

/-- The bytes of the magic word are never seen before they are final. -/
theorem Filling.noStray
    (h : Filling (erasedSpare a f true) (a.region (!true) + regionHeaderSize) J g)
    (hstray : NoStray a (copiedTo a f true J)) : NoStray a g := by
  intro j hj hlt hread
  refine hstray j hj hlt ?_
  have hmul : (j + 1) * sectorSize ≤ a.size := Nat.mul_le_mul_right _ hlt
  simp only [Nat.succ_mul, sectorSize] at hmul
  rw [show 4 = sysparamMagic.length from rfl, read_eq_iff] at hread ⊢
  intro i hi
  have hbyte := hread i hi
  have hsmall := magic_lt i hi
  have hi' : i < 4 := hi
  rcases h.approaches (a.base + j * sectorSize + i) with hold | hfinal | htop
  · -- still erased
    rw [erasedSpare_of_inside (by simp; omega) (by simp [sectorSize]; omega), hbyte] at hold
    rw [hold] at hsmall
    exact absurd hsmall (by decide)
  · exact hfinal.symm.trans hbyte
  · rw [hbyte] at htop
    exact absurd htop (UInt8.not_le.mpr hsmall)

theorem noStray_erasing {j : ℕ} (hstray : NoStray a f) :
    NoStray a (erase f a.base (j * sectorSize)) := by
  intro i hi hlt hread
  rcases lt_or_ge i j with hij | hij
  · -- in a sector that has been erased
    have hmul : (i + 1) * sectorSize ≤ j * sectorSize := Nat.mul_le_mul_right _ hij
    simp only [Nat.succ_mul, sectorSize] at hmul
    refine read_magic_ne (Or.inl ?_) hread
    exact erase_inside (by omega) (by simp only [sectorSize]; omega)
  · have hmul : j * sectorSize ≤ i * sectorSize := Nat.mul_le_mul_right _ hij
    refine hstray i hi hlt ?_
    rw [← hread]
    exact read_congr fun x h1 h2 => (erase_outside (by omega)).symm

/-- Wherever a compaction is cut short, a boot finds the old log or the
compacted one. -/
theorem Compacting.boots (h : Compacting a f second J g) (hholds : Holds a f second I)
    (hstorable : Storable a J)
    (hstray : second = true → NoStray a f ∧ NoStray a (copiedTo a f second J)) :
    Holds a g second I ∧ Bootable a g second ∨ Holds a g (!second) J ∧ Bootable a g (!second) := by
  have hapart := a.region_apart second
  have hsize := a.size_pos
  have hfits := hstorable.fits
  cases h with
  | erasing j hj hle =>
    have hmul : j * sectorSize ≤ a.size := Nat.mul_le_mul_right _ hle
    have hpos : 1 * sectorSize ≤ j * sectorSize := Nat.mul_le_mul_right _ hj
    simp only [sectorSize] at hmul hpos
    refine Or.inl ⟨hholds.congr fun x h1 h2 => erase_outside ?_, Or.inr ⟨Or.inl ?_, ?_⟩⟩
    · simp only [sectorSize]
      omega
    · exact erase_inside le_rfl (by simp only [sectorSize]; omega)
    · rintro rfl
      exact noStray_erasing (hstray rfl).1
  | filling g hfilling =>
    have houtside := hfilling.outside
    refine Or.inl ⟨hholds.erasedSpare.congr fun x h1 h2 => houtside x ?_, Or.inr ⟨Or.inl ?_, ?_⟩⟩
    · omega
    · rw [houtside _ (Or.inl (by rw [regionHeaderSize]; omega))]
      exact erasedSpare_of_inside le_rfl (by omega)
    · rintro rfl
      exact hfilling.noStray (hstray rfl).2
  | claiming =>
    have hnew : Holds a (claimed a f second J) (!second) J := holds_claimed hstorable
    have hold : Holds a (claimed a f second J) second I := by
      refine hholds.erasedSpare.congr fun x h1 h2 => ?_
      rw [claimed, patch_of_outside (by rw [length_header]; omega), copiedTo,
        patch_of_outside (by rw [length_logBytes hstorable.writable]; omega)]
    -- both regions claim the log, and the first one gets it
    cases second with
    | false => exact Or.inl ⟨hold, Or.inl ⟨true, fun _ => rfl, hnew.header⟩⟩
    | true => exact Or.inr ⟨hnew, Or.inl ⟨true, fun _ => rfl, hold.header⟩⟩
  | retiring => exact Or.inr ⟨holds_switched hstorable, Or.inl (paired_switched J)⟩

end Cut

end EspOpenRtos.Sysparam
