/-
# Creating and opening again

What `sysparam_create_area` writes, `sysparam_init` reads back: the address of
the area, its size and an empty log. This holds for every area whose size fits
the twelve bits of the header and that fits the chip, without any room behind
it.
-/

import EspOpenRtos.Sysparam.Boot

namespace EspOpenRtos.Sysparam

open Math.NorFlash

/-- `sysparam_get_info`. -/
def sysparamGetInfo (s : Sys) : Status × Option (ℕ × ℕ) :=
  if s.info.curBase = 0 then (.errNoInit, none)
  else (.ok, some (min s.info.curBase s.info.altBase, s.info.regionSize / sectorSize * 2))

/-! ## The scan for other data -/

section Scan

variable {d : Device} {addr : ℕ}

theorem all_erased_iff {f : Image} {n : ℕ} :
    (read f addr n).all (· == 0xFF) = true ↔ ∀ x, addr ≤ x → x < addr + n → f x = 0xFF := by
  simp only [List.all_eq_true, beq_iff_eq]
  constructor
  · intro h x h1 h2
    refine h (f x) (List.mem_map.mpr ⟨x - addr, List.mem_range.mpr (by omega), ?_⟩)
    rw [Nat.add_sub_cancel' h1]
  · intro h x hx
    obtain ⟨i, hi, rfl⟩ := List.mem_map.mp hx
    exact h _ (Nat.le_add_right _ _) (Nat.add_lt_add_left (List.mem_range.mp hi) _)

/-- All bytes between two addresses are erased. -/
def Erased (f : Image) (lo hi : ℕ) : Prop := ∀ x, lo ≤ x → x < hi → f x = 0xFF

/-- The scan succeeds if everything is erased, and otherwise finds something. -/
theorem scanErased_spec (n : ℕ) (hcover : d.CoversRange addr (addr + 32 * n)) :
    scanErased d addr (addr + 32 * n) = .ok ∧ Erased d.bytes addr (addr + 32 * n) ∨
      scanErased d addr (addr + 32 * n) = .notFound ∧ ¬Erased d.bytes addr (addr + 32 * n) := by
  induction n generalizing addr with
  | zero =>
    refine .inl ⟨?_, fun x h1 h2 => by omega⟩
    rw [scanErased, if_neg (by omega)]
  | succ n ih =>
    have hread : spiflashRead d addr 32 = some (read d.bytes addr 32) :=
      if_pos (.inr (hcover _ _ le_rfl (by omega)))
    have htop : addr + 32 * (n + 1) = addr + 32 + 32 * n := by omega
    rw [scanErased, if_pos (by omega), hread]
    by_cases hchunk : (read d.bytes addr 32).all (· == 0xFF) = true
    · have hcover' : d.CoversRange (addr + 32) (addr + 32 + 32 * n) :=
        hcover.mono (by omega) (by omega)
      simp only [if_pos hchunk, htop]
      refine (ih hcover').imp (And.imp_right fun herased x h1 h2 => ?_)
        (And.imp_right (mt fun herased x h1 => herased x (by omega)))
      by_cases hlow : x < addr + 32
      · exact all_erased_iff.mp hchunk x h1 hlow
      · exact herased x (by omega) h2
    · exact .inr ⟨if_neg hchunk, mt (fun herased => all_erased_iff.mpr fun x h1 h2 =>
        herased x h1 (by omega)) hchunk⟩

end Scan

/-! ## Opening a new area -/

section Open

variable {s : Sys} {d : Device} {f : Image} {base n : ℕ}

/-- The variables of a store that has opened a new area. -/
def newInfo (base n : ℕ) : Info :=
  ⟨base, base + n * sectorSize, base + regionHeaderSize, n * sectorSize, false⟩

/-- A search in a new area ends where it starts. -/
theorem findEntry_formatted {info : Info} (hpos : 0 < n)
    (hcover : d.CoversRange base (areaTop base n)) (hbytes : d.bytes = formatted f base n)
    (hcur : info.curBase = base) (matchId : ℕ) (findValue : Bool) :
    findEntry d info (initContext info) matchId findValue =
      endOfEntries { initContext info with addr := base + regionHeaderSize, entry := ⟨0xffff, 0xffff⟩ }
        info matchId := by
  have hadvance : advance info (initContext info) = .entry (base + regionHeaderSize) := by
    rw [advance, initContext, if_pos rfl, hcur]
  have hheader : readEntryHeader d (base + regionHeaderSize) = some ⟨0xffff, 0xffff⟩ := by
    have haccepts : d.accepts (base + regionHeaderSize) entryHeaderSize = true := by
      refine hcover _ _ (Nat.le_add_right _ _) ?_
      simp only [areaTop, regionHeaderSize, entryHeaderSize, sectorSize]
      omega
    have herased : read d.bytes (base + regionHeaderSize) entryHeaderSize = [0xFF, 0xFF, 0xFF, 0xFF] := by
      rw [hbytes, read_header_iff]
      refine ⟨?_, ?_, ?_, ?_⟩
      all_goals
        apply formatted_of_inside
        all_goals simp only [regionHeaderSize, sectorSize]; omega
    rw [readEntryHeader, spiflashRead, if_pos (.inr haccepts), herased]
    decide
  rw [findEntry]
  split
  · next h => rw [hadvance] at h; cases h
  · next h => rw [hadvance] at h; cases h
  · next addr h =>
      rw [hadvance] at h
      cases h
      simp only [hheader, if_true]

theorem getData_formatted (hbase : 0 < base) (hpos : 0 < n)
    (hcover : d.CoversRange base (areaTop base n)) (hbytes : d.bytes = formatted f base n)
    (key : List UInt8) :
    (sysparamGetData ⟨d, newInfo base n⟩ key).1 = (.notFound, none) := by
  have hkey : ∃ ctx, findKey d (newInfo base n) (initContext (newInfo base n))
      (some (key.take (key.length % 0x10000))) = (.notFound, ctx, newInfo base n) := by
    rw [findKey]
    split
    · next h =>
        rw [findEntry_formatted hpos hcover hbytes rfl] at h
        cases h
    · next h =>
        rw [findEntry_formatted hpos hcover hbytes rfl] at h
        cases h
        exact ⟨_, rfl⟩
  obtain ⟨ctx, hkey⟩ := hkey
  simp only [sysparamGetData, if_neg (show (newInfo base n).curBase ≠ 0 from hbase.ne'), hkey]

theorem readRegionHeader_formatted {addr other : ℕ} {active : Bool}
    (hcover : d.CoversRange base (areaTop base n)) (hlow : base ≤ addr)
    (hhigh : addr + regionHeaderSize ≤ areaTop base n)
    (hread : read d.bytes addr regionHeaderSize = headerBytes addr other active) :
    readRegionHeader d addr = some ⟨sysparamMagic, regionFlags addr other active, 0⟩ := by
  rw [readRegionHeader, spiflashRead, if_pos (.inr (hcover _ _ hlow hhigh)), hread, Option.map_some]
  exact congrArg some (RegionHeader.ofBytes_bytes _ rfl)

/-- Opening a new area. -/
theorem sysparamInit_formatted (haligned : base % sectorSize = 0) (hpos : 0 < n) (hle : n ≤ 0xfff)
    (hword : areaTop base n < 2 ^ 32) (hcover : s.dev.CoversRange base (areaTop base n))
    (hbytes : s.dev.bytes = formatted f base n) :
    sysparamInit s base 0 = (.ok, ⟨s.dev, newInfo base n⟩) := by
  have hsize : 4096 ≤ n * sectorSize := Nat.le_mul_of_pos_left 4096 hpos
  have htop : areaTop base n = base + 2 * (n * sectorSize) := rfl
  have hfirst : readRegionHeader s.dev base = some ⟨sysparamMagic, headerFlags n false true, 0⟩ := by
    rw [readRegionHeader_formatted hcover le_rfl (by rw [htop, regionHeaderSize]; omega)
      (by rw [hbytes]; exact read_formatted_first hpos), regionFlags_first hpos hle]
  have hsecond : readRegionHeader s.dev (base + n * sectorSize) =
      some ⟨sysparamMagic, headerFlags n true false, 0⟩ := by
    rw [readRegionHeader_formatted hcover (Nat.le_add_right _ _)
      (by rw [htop, regionHeaderSize]; omega)
      (by rw [hbytes]; exact read_patch_self), regionFlags_other hle]
  have hfound := findHeader_found (Nat.lt_add_of_pos_right (n := base) (show 0 < sectorSize by decide))
    hfirst rfl
  have haddr : (base + n * sectorSize) % 2 ^ 32 = base + n * sectorSize :=
    Nat.mod_eq_of_lt (by omega)
  simp only [sysparamInit, haligned, Nat.sub_zero, true_or, if_true, hfound, headerFlags_size hle,
    headerFlags_second hle, Bool.false_eq_true, if_false, ne_eq, not_true_eq_false, haddr, hsecond,
    if_neg (show ¬(0 : UInt16) = regionFlagSecond by decide)]
  have hactive : headerFlags n false true &&& regionFlagActive ≠ 0 := by
    rw [headerFlags_active hle]
    decide
  simp only [openRegion, if_pos hactive]
  rw [findEntry_formatted hpos hcover hbytes rfl]
  rfl

end Open

/-! ## The round trip -/

/-- What creating an area and opening it again promise. -/
structure RoundTrip (s : Sys) (base numSectors : ℕ) : Prop where
  created : ∀ force, force = true ∨ Erased s.dev.bytes base (base + numSectors * sectorSize) →
    (sysparamCreateArea s base numSectors force).1 = .ok
  scanned : Erased s.dev.bytes base (base + numSectors * sectorSize) ∨
    sysparamCreateArea s base numSectors false = (.notFound, s)
  opened : ∀ force s', sysparamCreateArea s base numSectors force = (.ok, s') →
    ∃ s'', sysparamInit s' base 0 = (.ok, s'') ∧
      sysparamGetInfo s'' = (.ok, some (base, numSectors)) ∧
      (∀ key, (sysparamGetData s'' key).1 = (.notFound, none)) ∧
      ∀ x, x < base ∨ base + numSectors * sectorSize ≤ x → s''.dev.bytes x = s.dev.bytes x

/-- Creating an area and opening it again gives the area back, empty, and
changes nothing else. -/
theorem create_open_round_trip {s : Sys} {base numSectors : ℕ} (hbase : 0 < base)
    (haligned : base % sectorSize = 0) (heven : numSectors % 2 = 0) (hpos : 2 ≤ numSectors)
    (hle : numSectors / 2 ≤ 0xfff) (hfault : s.dev.fault = none)
    (hword : base + numSectors * sectorSize < 2 ^ 32)
    (hfits : s.dev.CoversRange base (base + numSectors * sectorSize)) :
    RoundTrip s base numSectors := by
  obtain ⟨n, rfl⟩ : ∃ n, numSectors = 2 * n := ⟨numSectors / 2, by omega⟩
  have hn : 0 < n := by omega
  have hle' : n ≤ 0xfff := by omega
  have htop : base + 2 * n * sectorSize = areaTop base n := by rw [areaTop, Nat.mul_assoc]
  rw [htop] at hword hfits
  have hend : base + n * sectorSize * 2 = areaTop base n := by rw [areaTop, Nat.mul_comm 2]
  have hscan : scanErased s.dev base (areaTop base n) = .ok ∧ Erased s.dev.bytes base (areaTop base n) ∨
      scanErased s.dev base (areaTop base n) = .notFound ∧ ¬Erased s.dev.bytes base (areaTop base n) := by
    have hlines : areaTop base n = base + 32 * (256 * n) := by
      rw [areaTop, sectorSize]
      omega
    rw [hlines]
    exact scanErased_spec (256 * n) (hlines ▸ hfits)
  refine ⟨fun force hforce => ?_, ?_, fun force s' hrun => ?_⟩
  · rw [htop] at hforce
    obtain ⟨s₁, hrun, -⟩ := sysparamCreateArea_of_scan force haligned hn hfits hfault
      (hforce.imp_right fun herased => hend ▸ (hscan.resolve_right fun h => h.2 herased).1)
    rw [hrun]
  · rw [htop]
    refine hscan.imp And.right fun hfound => ?_
    have hargs : ¬(2 * n < 1 ∨ 2 * n % 2 = 1) := by omega
    have hhalf : 2 * n / 2 = n := by omega
    simp only [sysparamCreateArea, if_neg hargs, hhalf, Bool.false_eq_true, if_false, hend, hfound.1]
    rfl
  · obtain ⟨s₁, hrun₁, hbytes, hquiet⟩ := sysparamCreateArea_of_scan force haligned hn hfits hfault
      (scan_of_sysparamCreateArea hn (by rw [hrun]))
    obtain rfl : s₁ = s' := by
      rw [hrun₁] at hrun
      exact (Prod.mk.inj hrun).2
    have hcover := hfits.of_accepts hquiet.accepts
    refine ⟨_, sysparamInit_formatted haligned hn hle' hword hcover hbytes, ?_,
      getData_formatted hbase hn hcover hbytes, fun x hx => ?_⟩
    · have hsectors : n * sectorSize / sectorSize = n := Nat.mul_div_cancel _ (by decide)
      simp only [sysparamGetInfo, newInfo, if_neg hbase.ne', hsectors,
        Nat.min_eq_left (Nat.le_add_right _ _), Nat.mul_comm n 2]
    · rw [hbytes]
      exact formatted_of_outside hn (htop ▸ hx)

/-- An erased chip of 12 kB. -/
def tinyChip : Sys :=
  ⟨⟨fun addr n => decide (addr + n ≤ 0x3000), fun _ => 0xFF, [], none, none⟩, ⟨0, 0, 0, 0, false⟩⟩

/-- The smallest area, at the end of this chip. -/
theorem create_open_round_trip_small :
    RoundTrip tinyChip 0x1000 2 ∧ (sysparamCreateArea tinyChip 0x1000 2 false).1 = .ok := by
  have hround : RoundTrip tinyChip 0x1000 2 :=
    create_open_round_trip (by decide) (by decide) (by decide) (by decide) (by decide) rfl (by decide)
      fun _ _ _ hn => decide_eq_true hn
  exact ⟨hround, hround.created false (.inr fun _ _ _ => rfl)⟩

end EspOpenRtos.Sysparam
