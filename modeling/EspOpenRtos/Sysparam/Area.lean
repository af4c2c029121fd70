/-
# Areas

An area is a pair of regions of equal size. One of them holds the log, and its
header says so; the other is the spare one into which the next compaction
copies. What a boot makes of an area depends on the flash alone, so that part is
stated for images. A store that has been opened knows, besides, where things
are.
-/

import EspOpenRtos.Sysparam.Creation
import EspOpenRtos.Sysparam.Lookup

namespace EspOpenRtos.Sysparam

open Math Math.NorFlash Math.KeyedLog

/-- Where an area is. Address zero stands for "not opened". -/
structure Area where
  base : ℕ
  sectors : ℕ
  base_pos : 0 < base
  aligned : base % sectorSize = 0
  sectors_pos : 0 < sectors
  fits : base + 2 * (sectors * sectorSize) ≤ 2 ^ 24

namespace Area

variable (a : Area)

/-- The size of a region. -/
def size : ℕ := a.sectors * sectorSize

/-- The start of the first or the second region. -/
def region (second : Bool) : ℕ := if second then a.base + a.size else a.base

/-- The end of the area. -/
def top : ℕ := a.base + 2 * a.size

/-- The iterator reads this far beyond the area. -/
def limit : ℕ := a.top + a.size + 64

@[simp]
theorem region_false : a.region false = a.base := rfl

@[simp]
theorem region_true : a.region true = a.base + a.size := rfl

theorem size_pos : 4096 ≤ a.size := Nat.le_mul_of_pos_left _ a.sectors_pos

theorem size_lt : a.size < 2 ^ 32 := by
  have hfits := a.fits
  rw [size]
  omega

theorem region_pos (second : Bool) : 0 < a.region second := by
  have := a.base_pos
  cases second <;> simp <;> omega

theorem region_add_size_le (second : Bool) : a.region second + a.size ≤ a.top := by
  cases second <;> simp [top] <;> omega

theorem region_true_add_size : a.region true + a.size = a.top := by
  rw [region_true, top]
  omega

/-- `sysparam_init` aligns the address it is given. -/
theorem base_sub_mod : a.base - a.base % sectorSize = a.base := by rw [a.aligned, Nat.sub_zero]

theorem base_le_region (second : Bool) : a.base ≤ a.region second := by
  cases second <;> simp

/-- The two regions are next to each other. -/
theorem region_apart (second : Bool) :
    a.region second + a.size = a.region (!second) ∨ a.region (!second) + a.size = a.region second := by
  cases second <;> simp

theorem region_aligned (second : Bool) : a.region second % sectorSize = 0 := by
  have := a.aligned
  cases second
  · exact this
  · simp [size, Nat.add_mod, this]

theorem sectors_le : a.sectors ≤ 0xfff := by
  have := a.fits
  simp only [sectorSize] at this
  omega

end Area

/-! ## Region headers -/

section Header

variable {a : Area} {second active : Bool}

/-- The header of a region of an area. -/
def Area.header (a : Area) (second active : Bool) : List UInt8 :=
  headerBytes (a.region second) (a.region !second) active

@[simp]
theorem length_header : (a.header second active).length = regionHeaderSize := rfl

theorem regionFlags_eq : regionFlags (a.region second) (a.region !second) active =
    headerFlags a.sectors second active := by
  cases second with
  | false => exact regionFlags_first a.sectors_pos a.sectors_le
  | true => exact regionFlags_other a.sectors_le

/-- The size in a header. -/
theorem regionFlags_size :
    (regionFlags (a.region second) (a.region !second) active &&& regionMaskSize).toNat = a.sectors := by
  rw [regionFlags_eq]
  exact headerFlags_size a.sectors_le

theorem regionFlags_second :
    regionFlags (a.region second) (a.region !second) active &&& regionFlagSecond =
      if second then regionFlagSecond else 0 := by
  rw [regionFlags_eq]
  exact headerFlags_second a.sectors_le

theorem regionFlags_active :
    regionFlags (a.region second) (a.region !second) active &&& regionFlagActive =
      if active then regionFlagActive else 0 := by
  rw [regionFlags_eq]
  exact headerFlags_active a.sectors_le

theorem regionFlags_stale : regionFlags (a.region second) (a.region !second) false =
    regionFlags (a.region second) (a.region !second) true &&& ~~~regionFlagActive := by
  have hsectors : UInt16.ofNat a.sectors &&& ~~~regionFlagActive = UInt16.ofNat a.sectors := by
    have hmask : UInt16.ofNat a.sectors &&& 0xfff = UInt16.ofNat a.sectors :=
      ofNat_and_mask (Nat.lt_succ_of_le a.sectors_le)
    rw [← hmask, UInt16.and_assoc]
    rfl
  rw [regionFlags_eq, regionFlags_eq, headerFlags, headerFlags, or_and_distrib, or_and_distrib,
    hsectors]
  cases second <;> rfl

/-- A region can be retired in place. -/
theorem programmable_stale {f : Image}
    (h : read f (a.region second) regionHeaderSize = a.header second true) :
    Programmable f (a.region second) (a.header second false) := by
  intro i hi
  have hread : read f (a.region second) (a.header second true).length = a.header second true := h
  have hbyte := byte_of_read hread hi
  rw [hbyte]
  simp only [length_header, regionHeaderSize] at hi
  simp only [Area.header, headerBytes, RegionHeader.bytes, sysparamMagic, le16, regionFlags_stale]
  interval_cases i
  all_goals simp [UInt16.shiftRight_and, ← UInt8.and_assoc]

theorem readRegionHeader_of_covers {d : Device} {limit addr : ℕ} (hcovers : d.Covers limit)
    (h : addr + regionHeaderSize ≤ limit) :
    readRegionHeader d addr = some (.ofBytes (read d.bytes addr regionHeaderSize)) := by
  rw [readRegionHeader, spiflashRead_of_covers hcovers h]
  rfl

/-- What a boot reads from a region header. -/
theorem readRegionHeader_of_read {d : Device} (hcovers : d.Covers a.limit)
    (h : read d.bytes (a.region second) regionHeaderSize = a.header second active) :
    readRegionHeader d (a.region second) =
      some ⟨sysparamMagic, regionFlags (a.region second) (a.region !second) active, 0⟩ := by
  have hfits := a.region_add_size_le second
  have hsize := a.size_pos
  rw [readRegionHeader_of_covers hcovers (by simp only [Area.limit, regionHeaderSize]; omega), h]
  exact congrArg some (RegionHeader.ofBytes_bytes _ rfl)

end Header

/-! ## What a boot sees -/

/-- The region holds the log, whatever the other one looks like. -/
structure Holds (a : Area) (f : Image) (second : Bool) (I : Items) : Prop where
  header : read f (a.region second) regionHeaderSize = a.header second true
  log : ∃ L, items L = I ∧ Layout f (a.region second) (a.region second + a.size) L
  inv : KeyedLog.Inv maxKeyId I

/-- The other region has a header that does not claim the log. The first region
may call itself active although the second one does, too: it wins. -/
def Paired (a : Area) (f : Image) (second : Bool) : Prop :=
  ∃ active, (active = true → second = false) ∧
    read f (a.region !second) regionHeaderSize = a.header (!second) active

/-- The other region has no header, because it was erased or given up. -/
def Missing (a : Area) (f : Image) (second : Bool) : Prop :=
  f (a.region !second) = 0xFF ∨ f (a.region !second) = 0

/-- No sector of the first region but its own starts with the magic word. -/
def NoStray (a : Area) (f : Image) : Prop :=
  ∀ j, 1 ≤ j → j < a.sectors → read f (a.base + j * sectorSize) 4 ≠ sysparamMagic

/-- A boot finds its way to the region that holds the log. -/
def Bootable (a : Area) (f : Image) (second : Bool) : Prop :=
  Paired a f second ∨ Missing a f second ∧ (second = true → NoStray a f)

/-- A lone erased byte at the end of the area is not completed to a live entry
by the byte behind the area. -/
def Sealed (a : Area) (f : Image) (second : Bool) (I : Items) : Prop :=
  a.region second + regionHeaderSize + logSize I + 1 = a.top → Inert (f a.top)

/-- The store has been opened and its log is in the given region. -/
structure Opened (a : Area) (s : Sys) (second : Bool) (I : Items) : Prop where
  holds : Holds a s.dev.bytes second I
  spare : Paired a s.dev.bytes second ∨ Missing a s.dev.bytes second
  curBase : s.info.curBase = a.region second
  altBase : s.info.altBase = a.region !second
  regionSize : s.info.regionSize = a.size
  endAddr : s.info.endAddr = a.region second + regionHeaderSize + logSize I
  covers : s.dev.Covers a.limit

section Opened

variable {a : Area} {f g : Image} {s s' : Sys} {info : Info} {second : Bool} {I : Items}

theorem Opened.curBase_ne (h : Opened a s second I) : s.info.curBase ≠ 0 := by
  rw [h.curBase]
  exact (a.region_pos second).ne'

theorem Opened.top_eq (h : Opened a s second I) : s.info.top = a.region second + a.size := by
  rw [Info.top, h.curBase, h.regionSize]

theorem Holds.logSize_le (h : Holds a f second I) : regionHeaderSize + logSize I ≤ a.size := by
  obtain ⟨L, rfl, hlayout⟩ := h.log
  have := hlayout.fits
  omega

/-- The log depends on its own region only. -/
theorem Holds.congr (h : Holds a f second I)
    (same : ∀ x, a.region second ≤ x → x < a.region second + a.size → g x = f x) :
    Holds a g second I := by
  have hsize := a.size_pos
  refine ⟨?_, ?_, h.inv⟩
  · rw [← h.header]
    exact read_congr fun x h1 h2 => same x h1 (by simp only [regionHeaderSize] at h2; omega)
  · obtain ⟨L, hitems, hlayout⟩ := h.log
    have hfits := hlayout.fits
    refine ⟨L, hitems, stored_congr hlayout.stored fun x h1 h2 => same x (by omega) (by omega),
      hfits, fun x h1 h2 => ?_⟩
    rw [same x (by omega) h2]
    exact hlayout.erased x h1 h2

theorem header_first (second active : Bool) {f : Image} {addr : ℕ}
    (h : read f addr regionHeaderSize = a.header second active) : f addr = 0x45 := by
  have hread : read f addr (a.header second active).length = a.header second active := h
  exact byte_of_read hread (i := 0) (Nat.succ_pos 7)

/-- The spare region does not complete an entry of the first one either. -/
theorem inert_spare (h : Paired a f second ∨ Missing a f second) : Inert (f (a.region !second)) := by
  rcases h with ⟨active, -, h⟩ | h | h
  · rw [header_first _ _ h]
    decide
  · rw [h]
    decide
  · rw [h]
    decide

/-- Searches walk over the log and what they take for entries behind it. -/
theorem Opened.region_of_tail {L T : List Entry} (h : Opened a s second (items L))
    (hlayout : Layout s.dev.bytes (a.region second) (a.region second + a.size) L)
    (htail : Walk s.dev.bytes (a.region second + a.size) a.limit
      (a.region second + regionHeaderSize + logSize (items L)) T)
    (hkeys : keys (items T) = []) : Region s.dev s.info a.limit (L ++ T) := by
  have hsize := a.size_pos
  have htop := a.region_add_size_le second
  have hend := h.top_eq
  refine ⟨?_, h.covers, ?_, ?_, ?_⟩
  · rw [hend, Info.addrAfter, h.curBase]
    exact walk_of_stored hlayout.stored hlayout.fits (by rw [Area.limit]; omega) htail
  · rw [hend, Area.limit]
    omega
  · rw [h.regionSize, regionHeaderSize]
    omega
  · refine h.holds.inv.of_keys_eq ?_
    rw [items_append, keys_append, hkeys, List.append_nil]

/-- What searches of an opened store walk over. -/
theorem Opened.region (h : Opened a s second I) (hsealed : Sealed a s.dev.bytes second I) :
    ∃ L T, items L = I ∧ Layout s.dev.bytes (a.region second) (a.region second + a.size) L ∧
      Region s.dev s.info a.limit (L ++ T) ∧ Dead (items T) ∧
      (T = [] ∨ a.region second + regionHeaderSize + logSize I + 1 = a.region second + a.size ∧
        ∃ x, T = [x]) := by
  obtain ⟨L, rfl, hlayout⟩ := h.holds.log
  have hinert : a.region second + regionHeaderSize + logSize (items L) + 1 =
      a.region second + a.size → Inert (s.dev.bytes (a.region second + a.size)) := by
    intro hlast
    cases second with
    | false => exact inert_spare h.spare
    | true =>
      have hlimit : a.region true + a.size = a.top := by simp [Area.top]; omega
      rw [hlimit] at hlast ⊢
      exact hsealed hlast
  obtain ⟨T, htail, hdead, hT⟩ := walk_of_erased hlayout.erased hinert
  exact ⟨L, T, rfl, hlayout, h.region_of_tail hlayout htail hdead.keys_eq, hdead, hT⟩

/-- A search leaves a store open. -/
theorem Opened.of_flag {s' : Sys} (h : Opened a s second I) (hdev : s'.dev = s.dev)
    (hflag : s.info.UpToFlag s'.info) : Opened a s' second I := by
  obtain ⟨dev, info⟩ := s'
  obtain rfl : dev = s.dev := hdev
  rcases hflag with rfl | rfl
  · exact h
  · exact ⟨h.holds, h.spare, h.curBase, h.altBase, h.regionSize, h.endAddr, h.covers⟩

/-- Reading gives what the log has for the key. -/
theorem Opened.getData (h : Opened a s second I) (hsealed : Sealed a s.dev.bytes second I)
    (k : Payload) :
    ∃ info, sysparamGetData s k.1 = (getAnswer (lookup I k), ⟨s.dev, info⟩) ∧
      s.info.UpToFlag info := by
  obtain ⟨L, T, rfl, -, hregion, hdead, -⟩ := h.region hsealed
  obtain ⟨info, hget, hflag⟩ := hregion.getData h.curBase_ne k
  refine ⟨info, ?_, hflag⟩
  rw [← lookup_append_dead hdead, ← items_append]
  exact hget

end Opened

end EspOpenRtos.Sysparam
