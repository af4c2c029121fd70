/-
# Creating and opening an area

A boot scans for the first sector that starts with the magic word and takes it
for a region header. That is right as long as the first region has its header;
without it, a sector of the first region whose data happens to start with the
magic word would be taken for a header, which is what `NoStray` excludes.

If the other region has no header it is formatted and given one.
-/

import EspOpenRtos.Sysparam.Area

namespace EspOpenRtos.Sysparam

open Math.NorFlash Math.KeyedLog

/-- The variables of a store that has been opened. -/
def Area.info (a : Area) (second : Bool) (endAddr : ℕ) (forceCompact : Bool) : Info :=
  ⟨a.region second, a.region !second, endAddr, a.size, forceCompact⟩

/-- The end of a log. -/
def Area.logEnd (a : Area) (second : Bool) (I : Items) : ℕ :=
  a.region second + regionHeaderSize + logSize I

/-! ## Finding a header -/

section FindHeader

variable {a : Area} {d : Device} {addr topAddr : ℕ} {header : RegionHeader}

theorem magic_ofBytes (f : Image) (addr : ℕ) :
    (RegionHeader.ofBytes (read f addr regionHeaderSize)).magic = read f addr 4 := rfl

theorem findHeader_found (haddr : addr < topAddr) (hread : readRegionHeader d addr = some header)
    (hmagic : header.magic = sysparamMagic) :
    findHeader d addr topAddr = some (some (addr, header)) := by
  rw [findHeader, if_pos haddr]
  simp only [hread, if_pos hmagic]

theorem findHeader_skip (haddr : addr < topAddr) (hread : readRegionHeader d addr = some header)
    (hmagic : header.magic ≠ sysparamMagic) :
    findHeader d addr topAddr = findHeader d (addr + sectorSize) topAddr := by
  rw [findHeader, if_pos haddr]
  simp only [hread, if_neg hmagic]

/-- Sectors of the first region without the magic word are passed over. -/
theorem findHeader_pass (hcovers : d.Covers a.limit) {m : ℕ} (hm : m ≤ a.sectors)
    (htop : a.base + m * sectorSize < topAddr + sectorSize)
    (hnone : ∀ j < m, read d.bytes (a.base + j * sectorSize) 4 ≠ sysparamMagic) :
    findHeader d a.base topAddr = findHeader d (a.base + m * sectorSize) topAddr := by
  induction m with
  | zero => rw [Nat.zero_mul, Nat.add_zero]
  | succ m ih =>
    have hmul : (m + 1) * sectorSize ≤ a.size := Nat.mul_le_mul_right _ hm
    have hread : readRegionHeader d (a.base + m * sectorSize) = _ := readRegionHeader_of_covers hcovers (by
      simp only [Area.limit, Area.top, regionHeaderSize, Nat.succ_mul, sectorSize] at hmul ⊢
      omega)
    rw [Nat.succ_mul] at htop
    have hlt : a.base + m * sectorSize < topAddr := by omega
    rw [ih (by omega) (by omega) fun j hj => hnone j (by omega),
      findHeader_skip hlt hread (hnone m (by omega)), Nat.succ_mul, ← Nat.add_assoc]

/-- A scan that ends in the first region finds nothing there. -/
theorem findHeader_none (hcovers : d.Covers a.limit) (htop : topAddr ≤ a.region true)
    (hnone : ∀ j < a.sectors, read d.bytes (a.base + j * sectorSize) 4 ≠ sysparamMagic) :
    findHeader d a.base topAddr = some none := by
  rcases Nat.lt_or_ge a.base topAddr with hlt | hge
  · -- the first sector that is not scanned
    obtain ⟨m, hm⟩ : ∃ m, m = (topAddr - a.base + (sectorSize - 1)) / sectorSize := ⟨_, rfl⟩
    simp only [Area.region_true, Area.size, sectorSize] at htop hm
    rw [findHeader_pass (m := m) hcovers (by omega) (by simp only [sectorSize]; omega)
      fun j hj => hnone j (by omega), findHeader, if_neg (by simp only [sectorSize]; omega)]
  · rw [findHeader, if_neg (Nat.not_lt.mpr hge)]

end FindHeader

/-! ## Opening a region -/

section OpenRegion

variable {a : Area} {d : Device} {s : Sys} {second : Bool} {I : Items}

theorem Opened.of_holds (flag : Bool) (hholds : Holds a d.bytes second I)
    (hspare : Paired a d.bytes second ∨ Missing a d.bytes second) (hcovers : d.Covers a.limit) :
    Opened a ⟨d, a.info second (a.logEnd second I) flag⟩ second I :=
  ⟨hholds, hspare, rfl, rfl, rfl, rfl, hcovers⟩

/-- The scan to the end of a region ends where its log does. It sets the flag if
a lone byte behind the log is followed by something written. -/
theorem findEntry_end (info : Info) (h : Opened a s second I)
    (hsealed : Sealed a s.dev.bytes second I) (hcur : info.curBase = a.region second)
    (hsize : info.regionSize = a.size) :
    ∃ ctx info', findEntry s.dev info (initContext info) entryIdEnd false = (.ok, ctx, info') ∧
      ctx.addr = a.logEnd second I ∧
      info' = if a.logEnd second I + 1 = a.region second + a.size ∧
          s.dev.bytes (a.region second + a.size) ≠ 0xFF then { info with forceCompact := true }
        else info := by
  obtain ⟨L, T, rfl, hlayout, hregion, -, hT⟩ := h.region hsealed
  have htop : s.info.top = info.top := by rw [Info.top, Info.top, hcur, hsize, h.curBase, h.regionSize]
  have hafter (P : List Entry) : s.info.addrAfter P = info.addrAfter P := by
    rw [Info.addrAfter, Info.addrAfter, hcur, h.curBase]
  have hregion' : Region s.dev info a.limit (L ++ T) :=
    ⟨by rw [← htop, ← hafter]; exact hregion.walk, hregion.covers, htop ▸ hregion.readable,
      by rw [hsize, ← h.regionSize]; exact hregion.size, hregion.inv⟩
  obtain ⟨ctx, hfind, -, hend⟩ :=
    hregion'.scanning_init.findEntry_none entryIdEnd false hregion'.isMatch_end
  have haddr : info.addrAfter L = a.logEnd second (items L) := by
    rw [Info.addrAfter, hcur, Area.logEnd]
  have hstart : info.addrAfter [] + logSize (items L) = a.logEnd second (items L) := by
    rw [← Info.addrAfter_append, List.nil_append, haddr]
  have hregionTop : info.top = a.region second + a.size := by rw [Info.top, hcur, hsize]
  have hfits : a.logEnd second (items L) ≤ info.top := hregionTop ▸ hlayout.fits
  -- what a lone byte behind the log and the byte that follows it read as
  have hlone (hlast : a.logEnd second (items L) + 1 = a.region second + a.size) :
      (EntryHeader.ofBytes (read s.dev.bytes (a.logEnd second (items L)) entryHeaderSize)).idflags =
        ofLe16 0xFF (s.dev.bytes (a.region second + a.size)) := by
    have herased : s.dev.bytes (a.logEnd second (items L)) = 0xFF :=
      hlayout.erased _ le_rfl (by omega)
    rw [header_at, herased, hlast]
  have hbehind := Region.walk_after hregion'
  rw [haddr] at hbehind
  refine ⟨ctx, _, hfind, ?_, ?_⟩
  · rcases hT with rfl | ⟨hlast, x, rfl⟩
    · have hfull := hend.full
      rw [List.append_nil, hstart] at hfull
      exact hfull hfits
    · -- the walk stops in front of what does not fit
      have hx4 := x.four_le_size
      have hpast := hend.past
      rw [items_append, logSize_append, ← Nat.add_assoc, hstart] at hpast
      have hsizes : logSize (items [x]) = x.size := by simp
      rw [hpast (by rw [hsizes, Area.logEnd]; omega) L x rfl, hstart]
  · rcases hT with rfl | ⟨hlast, x, rfl⟩
    · rw [List.append_nil, hstart, Info.truncatedAt_of_le hfits, if_neg]
      rintro ⟨hlast, hwritten⟩
      have hunwritten := hbehind (by omega)
      rw [hlone hlast, ofLe16_erased_eq] at hunwritten
      exact hwritten hunwritten
    · have hx4 := x.four_le_size
      have hsizes : logSize (items [x]) = x.size := by simp
      rw [items_append, logSize_append, ← Nat.add_assoc, hstart, hsizes,
        Info.truncatedAt_of_gt (by rw [hregionTop, Area.logEnd]; omega), if_pos]
      refine ⟨hlast, fun herased => x.written ?_⟩
      have hheader := congrArg EntryHeader.ofBytes (read_entry hbehind.2.1).1
      rw [EntryHeader.ofBytes_bytes] at hheader
      have hflags := hlone hlast
      rwa [hheader, (ofLe16_erased_eq _).mpr herased] at hflags

/-- The region that claims the log is opened. -/
theorem openRegion_spec (info : Info) {header : RegionHeader} {addr0 addr1 : ℕ}
    (hholds : Holds a d.bytes second I)
    (hspare : Paired a d.bytes second ∨ Missing a d.bytes second) (hcovers : d.Covers a.limit)
    (hsealed : Sealed a d.bytes second I)
    (hcur : (if header.flagsSize &&& regionFlagActive ≠ 0 then addr0 else addr1) = a.region second)
    (halt : (if header.flagsSize &&& regionFlagActive ≠ 0 then addr1 else addr0) =
      a.region !second) :
    ∃ flag, openRegion d info header addr0 addr1 a.sectors =
        (.ok, ⟨d, a.info second (a.logEnd second I) flag⟩) ∧
      (flag = true ↔ a.logEnd second I + 1 = a.region second + a.size ∧
        d.bytes (a.region second + a.size) ≠ 0xFF) := by
  have hopened : Opened a ⟨d, a.info second (a.logEnd second I) false⟩ second I :=
    .of_holds _ hholds hspare hcovers
  obtain ⟨ctx, info', hfind, haddr, hinfo⟩ := findEntry_end
    (a.info second (a.region second + a.size) false) hopened hsealed rfl rfl
  simp only [openRegion, hcur, halt]
  rw [show (⟨a.region second, a.region !second, a.region second + a.sectors * sectorSize,
    a.sectors * sectorSize, false⟩ : Info) = a.info second (a.region second + a.size) false from rfl,
    hfind]
  refine ⟨info'.forceCompact, ?_, ?_⟩
  · simp only [Status.isError, Bool.false_eq_true, if_false, if_true, haddr]
    rw [hinfo]
    split_ifs <;> rfl
  · rw [hinfo]
    split_ifs with hlone
    · exact iff_of_true rfl hlone
    · exact iff_of_false Bool.false_ne_true hlone

end OpenRegion

/-! ## Opening an area -/

section Init

variable {a : Area} {s : Sys} {second : Bool} {I : Items} {topAddr : ℕ}

/-- The address up to which `sysparam_init` scans. -/
def scanTop (baseAddr topAddr : ℕ) : ℕ :=
  if topAddr = 0 ∨ topAddr = baseAddr then baseAddr + sectorSize else topAddr

theorem sysparamInit_of_empty (h : scanTop a.base topAddr ≤ a.base) :
    sysparamInit s a.base topAddr = (.notFound, s) := by
  have hnone : findHeader s.dev a.base (scanTop a.base topAddr) = some none := by
    rw [findHeader, if_neg (Nat.not_lt.mpr h)]
  rw [scanTop] at hnone
  simp only [sysparamInit, a.base_sub_mod, hnone]

/-- From a region header, the address of the other region. -/
theorem otherRegion (second active : Bool) :
    (if regionFlags (a.region second) (a.region !second) active &&& regionFlagSecond ≠ 0 then
        (a.region second + 2 ^ 32 - a.sectors * sectorSize) % 2 ^ 32
      else (a.region second + a.sectors * sectorSize) % 2 ^ 32) = a.region !second := by
  have hfits := a.fits
  rw [regionFlags_second]
  cases second
  · rw [if_neg (by decide)]
    simp only [Area.region_false, Bool.not_false, Area.region_true, Area.size]
    omega
  · rw [if_pos (by decide)]
    simp only [Area.region_true, Bool.not_true, Area.region_false, Area.size]
    omega

/-- The header of a region as a boot reads it. -/
def Area.regionHeader (a : Area) (second active : Bool) : RegionHeader :=
  ⟨sysparamMagic, regionFlags (a.region second) (a.region !second) active, 0⟩

/-- What follows once a header has been found. -/
theorem sysparamInit_of_findHeader (second active : Bool)
    (hfound : findHeader s.dev a.base (scanTop a.base topAddr) =
      some (some (a.region second, a.regionHeader second active))) :
    sysparamInit s a.base topAddr =
      match readRegionHeader s.dev (a.region !second) with
      | none => (.errIo, s)
      | some header =>
        if header.magic = sysparamMagic then
          if (if second then regionFlagSecond else 0) = header.flagsSize &&& regionFlagSecond then
            (.errCorrupt, s)
          else openRegion s.dev s.info (a.regionHeader second active) (a.region second)
            (a.region !second) a.sectors
        else if (if active then regionFlagActive else 0) ≠ 0 then
          match formatRegion s.dev (a.region !second) a.sectors with
          | (.ok, dev) =>
            match writeRegionHeader dev (a.region !second) (a.region second) false with
            | (.ok, dev) => openRegion dev s.info (a.regionHeader second active)
                (a.region second) (a.region !second) a.sectors
            | (status, dev) => (status, { s with dev := dev })
          | (status, dev) => (status, { s with dev := dev })
        else (.errCorrupt, s) := by
  simp only [sysparamInit, a.base_sub_mod]
  rw [show (if topAddr = 0 ∨ topAddr = a.base then a.base + sectorSize else topAddr) =
    scanTop a.base topAddr from rfl, hfound]
  simp only [Area.regionHeader, regionFlags_size, otherRegion]
  rewrite [regionFlags_second, regionFlags_active]
  rfl

/-- A header that claims the log is opened, one that does not points to it. -/
theorem pick_region {α : Type*} (second active : Bool) (x y : α) :
    (if (a.regionHeader second active).flagsSize &&& regionFlagActive ≠ 0 then x else y) =
      if active then x else y := by
  rw [Area.regionHeader, regionFlags_active]
  cases active
  · rw [if_neg (by decide), if_neg (by decide)]
  · rw [if_pos (by decide), if_pos rfl]

/-- Both regions have a header: nothing is written. -/
theorem sysparamInit_paired (hholds : Holds a s.dev.bytes second I)
    (hpaired : Paired a s.dev.bytes second) (hcovers : s.dev.Covers a.limit)
    (hsealed : Sealed a s.dev.bytes second I) (htop : a.base < scanTop a.base topAddr) :
    ∃ flag, sysparamInit s a.base topAddr =
        (.ok, ⟨s.dev, a.info second (a.logEnd second I) flag⟩) ∧
      (flag = true ↔ a.logEnd second I + 1 = a.region second + a.size ∧
        s.dev.bytes (a.region second + a.size) ≠ 0xFF) := by
  have hspare : Paired a s.dev.bytes second ∨ Missing a s.dev.bytes second := Or.inl hpaired
  obtain ⟨active, hactive, hother⟩ := hpaired
  have hread := readRegionHeader_of_read hcovers hholds.header
  have hread' := readRegionHeader_of_read hcovers hother
  -- the scan stops at the first region in either case
  cases second with
  | false =>
    rw [sysparamInit_of_findHeader false true (findHeader_found htop hread rfl), hread']
    simp only [if_true, regionFlags_second]
    rw [if_neg (by decide)]
    exact openRegion_spec _ hholds hspare hcovers hsealed (pick_region _ _ _ _) (pick_region _ _ _ _)
  | true =>
    obtain rfl : active = false := by simpa using hactive
    rw [sysparamInit_of_findHeader false false (findHeader_found htop hread' rfl)]
    simp only [Bool.not_false, hread, if_true, regionFlags_second]
    rw [if_neg (by decide)]
    exact openRegion_spec _ hholds hspare hcovers hsealed (pick_region _ _ _ _) (pick_region _ _ _ _)

theorem read_magic_ne {f : Image} {addr : ℕ} (h : f addr = 0xFF ∨ f addr = 0) :
    read f addr 4 ≠ sysparamMagic := by
  intro hread
  have hmagic : read f addr sysparamMagic.length = sysparamMagic := hread
  have hfirst : f addr = 0x45 := byte_of_read hmagic (i := 0) (by decide)
  rw [hfirst] at h
  exact absurd h (by decide)

/-- The spare region after it has been formatted. -/
def respared (a : Area) (f : Image) (second : Bool) : Image :=
  patch (erase f (a.region !second) a.size) (a.region !second) (a.header (!second) false)

theorem respared_of_outside {f : Image} {x : ℕ}
    (h : x < a.region (!second) ∨ a.region (!second) + a.size ≤ x) :
    respared a f second x = f x := by
  have hsize := a.size_pos
  rw [respared, patch_of_outside (by rw [length_header, regionHeaderSize]; omega), erase_outside h]

theorem paired_respared (f : Image) : Paired a (respared a f second) second :=
  ⟨false, by simp, read_patch_self⟩

theorem Holds.respared {f : Image} (h : Holds a f second I) :
    Holds a (respared a f second) second I := by
  have := a.region_apart second
  exact h.congr fun x h1 h2 => respared_of_outside (by omega)

/-- The spare region has no header: it gets one. -/
theorem sysparamInit_missing (hholds : Holds a s.dev.bytes second I)
    (hmissing : Missing a s.dev.bytes second) (hstray : second = true → NoStray a s.dev.bytes)
    (hcovers : s.dev.Covers a.limit) (hsealed : Sealed a s.dev.bytes second I)
    (hnone : s.dev.fault = none) (hscan : a.region second < scanTop a.base topAddr) :
    ∃ d flag, sysparamInit s a.base topAddr = (.ok, ⟨d, a.info second (a.logEnd second I) flag⟩) ∧
      d.bytes = respared a s.dev.bytes second ∧ Quiet s.dev d ∧
      (flag = true → a.logEnd second I + 1 = a.region second + a.size) := by
  have hsize := a.size_pos
  have hapart := a.region_apart second
  have hlimit := a.region_add_size_le (!second)
  have hread := readRegionHeader_of_read hcovers hholds.header
  have hmagic : read s.dev.bytes (a.region !second) 4 ≠ sysparamMagic := read_magic_ne hmissing
  have hread' : readRegionHeader s.dev (a.region !second) = _ := readRegionHeader_of_covers hcovers (by
    rw [Area.limit, regionHeaderSize]
    omega)
  -- the scan stops at the region that holds the log
  have hfound : findHeader s.dev a.base (scanTop a.base topAddr) =
      some (some (a.region second, a.regionHeader second true)) := by
    cases second with
    | false => exact findHeader_found hscan hread rfl
    | true =>
      refine (findHeader_pass hcovers le_rfl (Nat.lt_add_right _ hscan) fun j hj => ?_).trans
        (findHeader_found hscan hread rfl)
      · rcases Nat.eq_zero_or_pos j with rfl | hpos
        · simpa using hmagic
        · exact hstray rfl j hpos hj
  -- the spare region is formatted
  have hcover : s.dev.CoversRange (a.region !second) (a.region (!second) + a.size) :=
    fun x n _ hn => hcovers x n (by rw [Area.limit]; omega)
  obtain ⟨d₁, hformat, hbytes₁, hquiet₁, -⟩ := formatRegion_spec a.sectors
    (a.region_aligned !second) hcover
  obtain ⟨status, d₂, hwrite, -, hresult⟩ := writeRegionHeader_spec (a.region second) false
    ((hcover.of_accepts hquiet₁.accepts).mono le_rfl
      (by rw [regionHeaderSize]; omega))
    (programmable_of_erased (f := d₁.bytes) fun i hi => by
      rw [length_headerBytes, regionHeaderSize] at hi
      rw [hbytes₁]
      exact erase_inside (by omega) (by change _ < _ + a.size; omega))
  rcases hresult with ⟨rfl, hbytes₂, hquiet₂⟩ | ⟨-, hfailed, -⟩
  · have hbytes : d₂.bytes = respared a s.dev.bytes second := by
      rw [hbytes₂, hbytes₁, respared, Area.header, Bool.not_not]
      rfl
    have hcovers₂ := hcovers.of_accepts (hquiet₂.accepts.trans hquiet₁.accepts)
    have hsealed₂ : Sealed a d₂.bytes second I := by
      intro hlast
      have hout : a.region (!second) + a.size ≤ a.top := a.region_add_size_le _
      rw [hbytes, respared_of_outside (Or.inr hout)]
      exact hsealed hlast
    obtain ⟨flag, hopen, hflag⟩ := openRegion_spec s.info
      (hbytes ▸ hholds.respared) (Or.inl (hbytes ▸ paired_respared _)) hcovers₂ hsealed₂
      (pick_region second true _ _) (pick_region second true _ _)
    refine ⟨d₂, flag, ?_, hbytes, hquiet₁.trans hquiet₂, fun htrue => (hflag.mp htrue).1⟩
    rw [sysparamInit_of_findHeader second true hfound, hread']
    simp only [magic_ofBytes, if_neg hmagic, hformat, hwrite]
    rw [if_pos (by decide)]
    exact hopen
  · exact absurd (hquiet₁.fault hnone) hfailed.before

/-- A scan that covers the area gets to both regions. -/
theorem region_lt_scanTop (htop : a.top ≤ topAddr) (second : Bool) :
    a.region second < scanTop a.base topAddr := by
  have hsize := a.size_pos
  simp only [Area.top] at htop
  rw [scanTop, if_neg (by omega)]
  cases second <;> simp only [Area.region_false, Area.region_true] <;> omega

/-- An area that can be booted is opened, with the log unchanged. -/
theorem sysparamInit_bootable (hholds : Holds a s.dev.bytes second I)
    (hboot : Bootable a s.dev.bytes second) (hcovers : s.dev.Covers a.limit)
    (hsealed : Sealed a s.dev.bytes second I) (hnone : s.dev.fault = none)
    (htop : a.top ≤ topAddr) :
    ∃ s', sysparamInit s a.base topAddr = (.ok, s') ∧ Opened a s' second I ∧
      Paired a s'.dev.bytes second ∧ Quiet s.dev s'.dev ∧
      ∀ x, a.top ≤ x → s'.dev.bytes x = s.dev.bytes x := by
  rcases hboot with hpaired | ⟨hmissing, hstray⟩
  · obtain ⟨flag, hinit, -⟩ := sysparamInit_paired hholds hpaired hcovers hsealed
      (region_lt_scanTop htop false)
    exact ⟨_, hinit, .of_holds _ hholds (Or.inl hpaired) hcovers, hpaired, .refl _, fun _ _ => rfl⟩
  · obtain ⟨d, flag, hinit, hbytes, hquiet, -⟩ := sysparamInit_missing hholds hmissing hstray
      hcovers hsealed hnone (region_lt_scanTop htop second)
    have hpaired : Paired a d.bytes second := hbytes ▸ paired_respared _
    refine ⟨_, hinit, .of_holds _ (hbytes ▸ hholds.respared) (Or.inl hpaired)
      (hcovers.of_accepts hquiet.accepts), hpaired, hquiet, ?_⟩
    · intro x hx
      have := a.region_add_size_le (!second)
      rw [hbytes]
      exact respared_of_outside (Or.inr (by omega))

end Init

/-! ## Creating an area -/

section Create

variable {a : Area} {s : Sys}

/-- The flash after an area has been created. -/
def created (a : Area) (f : Image) : Image :=
  patch (patch (erase f a.base (2 * a.size)) a.base (a.header false true)) (a.base + a.size)
    (a.header true false)

theorem created_eq_formatted (f : Image) : created a f = formatted f a.base a.sectors := rfl

theorem holds_created (f : Image) : Holds a (created a f) false [] := by
  have hsize := a.size_pos
  refine ⟨read_formatted_first a.sectors_pos, ⟨[], rfl, trivial, ?_, ?_⟩, inv_nil⟩
  · simp only [items_nil, logSize_nil, Area.region_false, regionHeaderSize]
    omega
  · intro x h1 h2
    simp only [items_nil, logSize_nil, Area.region_false, Nat.add_zero] at h1 h2
    exact formatted_of_inside h1 h2

theorem paired_created (f : Image) : Paired a (created a f) false :=
  ⟨false, by simp, read_patch_self⟩

/-- Creating an area leaves an empty one, if it is forced or reports success. -/
theorem sysparamCreateArea_spec (force : Bool) (hcovers : s.dev.Covers a.limit)
    (hnone : s.dev.fault = none)
    (hok : force = true ∨ (sysparamCreateArea s a.base (2 * a.sectors) force).1 = .ok) :
    ∃ s', sysparamCreateArea s a.base (2 * a.sectors) force = (.ok, s') ∧
      s'.dev.bytes = created a s.dev.bytes ∧ Quiet s.dev s'.dev := by
  have hcover : s.dev.CoversRange a.base (areaTop a.base a.sectors) := fun x n _ hn => by
    refine hcovers x n (hn.trans ?_)
    rw [Area.limit]
    exact (Nat.le_add_right a.top _).trans (Nat.le_add_right _ _)
  rw [created_eq_formatted]
  exact sysparamCreateArea_of_scan force a.aligned a.sectors_pos hcover hnone
    (hok.elim .inl (scan_of_sysparamCreateArea a.sectors_pos))

end Create

end EspOpenRtos.Sysparam
