/-
# How the driver splits

For a range inside the chip, whose addresses have 24 bits, `spiflash_write`
succeeds with commands of 1 to 64 bytes that lie in one page each and cover the
range once, in order and with the bytes of the buffer; and `spiflash_read` fills
the buffer with the bytes of the range and touches no other byte of the memory.
-/

import EspOpenRtos.SpiFlash.Driver

namespace EspOpenRtos.SpiFlash

open Math.NorFlash Math.PageWrites

variable {chip : Chip} {addr size : UInt32} {buf : List UInt8}

/-! ## Commands -/

section

variable (haddr : addr.toNat < 2 ^ 24) (hsize : size.toNat < 2 ^ 8)
include haddr hsize

/-- The address register holds an address of 24 bits and a size below it. -/
theorem toNat_addrRegister : (addrRegister addr size).toNat = 2 ^ 24 * size.toNat + addr.toNat := by
  have hmask : addr.toNat &&& 0x00FFFFFF = addr.toNat :=
    (Nat.and_two_pow_sub_one_eq_mod addr.toNat 24).trans (Nat.mod_eq_of_lt haddr)
  have hshift : (size <<< (24 : UInt32)).toNat = 2 ^ 24 * size.toNat := by
    rw [UInt32.toNat_shiftLeft, Nat.shiftLeft_eq, Nat.mul_comm]
    exact Nat.mod_eq_of_lt (by show 2 ^ 24 * size.toNat < 2 ^ 32; omega)
  rw [addrRegister, UInt32.toNat_or, UInt32.toNat_and, hshift,
    Nat.two_pow_add_eq_or_of_lt haddr, Nat.or_comm]
  exact congrArg (2 ^ 24 * size.toNat ||| ·) hmask

theorem busAddr_addrRegister : (busAddr (addrRegister addr size)).toNat = addr.toNat := by
  rw [busAddr, UInt32.toNat_and, toNat_addrRegister haddr hsize]
  exact (Nat.and_two_pow_sub_one_eq_mod _ 24).trans (by omega)

theorem busSize_addrRegister : (busSize (addrRegister addr size)).toNat = size.toNat := by
  rw [busSize, UInt32.toNat_shiftRight, toNat_addrRegister haddr hsize, Nat.shiftRight_eq_div_pow]
  show (2 ^ 24 * size.toNat + addr.toNat) / 2 ^ 24 = size.toNat
  omega

end

/-- The words that are copied hold all bytes of a command. -/
theorem le_words (hsize : size.toNat ≤ 64) :
    size.toNat ≤
      ((if size &&& 0b11 ≠ 0 then (size >>> 2) + 1 else size >>> 2) <<< 2).toNat := by
  have hall : ∀ n < 65, n ≤ ((if UInt32.ofNat n &&& 0b11 ≠ 0 then (UInt32.ofNat n >>> 2) + 1
      else UInt32.ofNat n >>> 2) <<< 2).toNat := by decide
  have h := hall size.toNat (Nat.lt_succ_of_le hsize)
  rwa [UInt32.ofNat_toNat] at h

/-- A command programs the first bytes of the buffer. -/
theorem spiWriteData_eq (haddr : addr.toNat < 2 ^ 24) (hsize : size.toNat ≤ 64) :
    spiWriteData addr buf size = ⟨addr.toNat, buf.take size.toNat⟩ := by
  have hbyte : size.toNat < 2 ^ 8 := by omega
  unfold spiWriteData
  dsimp only
  rw [busAddr_addrRegister haddr hbyte, busSize_addrRegister haddr hbyte, List.take_take,
    Nat.min_eq_left (le_words hsize)]

/-! ## Writing -/

/-- A write that succeeds: its commands carry 1 to 64 bytes, lie in one page each
and cover the data from an address on. -/
structure Writes (pageSize : ℕ) (addr : ℕ) (data : List UInt8) (result : Bool × List Piece) :
    Prop where
  ok : result.1 = true
  covers : Covers addr result.2 data
  sizes : ∀ piece ∈ result.2, 1 ≤ piece.data.length ∧ piece.data.length ≤ 64
  inPage : ∀ piece ∈ result.2, piece.InPage pageSize

/-- The blocks of a page cover what is to be written to it. -/
theorem writeBlocks_covers (hpos : 0 < size.toNat) (hend : addr.toNat + size.toNat ≤ 2 ^ 24)
    (hbuf : size.toNat ≤ buf.length) :
    Covers addr.toNat (writeBlocks addr buf size) (buf.take size.toNat) ∧
      ∀ piece ∈ writeBlocks addr buf size, 1 ≤ piece.data.length ∧ piece.data.length ≤ 64 := by
  fun_induction writeBlocks addr buf size with
  | case1 addr buf size hmax ih =>
    have hmax' : 64 ≤ size.toNat := UInt32.le_iff_toNat_le.mp hmax
    have hrest : (size - writeMaxSize).toNat = size.toNat - 64 :=
      UInt32.toNat_sub_of_le _ _ hmax
    have hhead : spiWriteData addr buf writeMaxSize = ⟨addr.toNat, buf.take 64⟩ :=
      spiWriteData_eq (by omega) le_rfl
    have hfull : (buf.take 64).length = 64 := List.length_take_of_le (by omega)
    have hdata : buf.take size.toNat =
        buf.take 64 ++ (buf.drop 64).take (size.toNat - 64) := by
      rw [← List.take_add, Nat.add_sub_cancel' hmax']
    rw [hhead]
    split
    case isTrue hlast =>
      have hzero : size.toNat - 64 = 0 :=
        hrest ▸ Nat.lt_one_iff.mp (UInt32.lt_iff_toNat_lt.mp hlast)
      rw [hdata, hzero, List.take_zero, List.append_nil]
      refine ⟨covers_singleton _ _, fun piece hmem => ?_⟩
      rw [List.mem_singleton.mp hmem, hfull]
      omega
    case isFalse hmore =>
      have hpos' : 0 < size.toNat - 64 := hrest ▸
        Nat.pos_of_ne_zero fun hzero => hmore (UInt32.lt_iff_toNat_lt.mpr (by rw [hzero]; decide))
      have haddr : (addr + writeMaxSize).toNat = addr.toNat + 64 := by
        rw [UInt32.toNat_add, show writeMaxSize.toNat = 64 from rfl]
        exact Nat.mod_eq_of_lt (by omega)
      have hdrop : (buf.drop writeMaxSize.toNat).length = buf.length - 64 := List.length_drop
      obtain ⟨hcovers, hsizes⟩ := ih (by omega) (by omega) (by omega)
      rw [hrest, haddr] at hcovers
      refine ⟨⟨rfl, _, hdata, ?_⟩, fun piece hmem => ?_⟩
      · rw [hfull]
        exact hcovers
      · rcases List.mem_cons.mp hmem with rfl | hmem
        · rw [hfull]
          omega
        · exact hsizes piece hmem
  | case2 addr buf size hless =>
    have hless' : size.toNat < 64 := UInt32.lt_iff_toNat_lt.mp (UInt32.not_le.mp hless)
    have hlength : (buf.take size.toNat).length = size.toNat := List.length_take_of_le hbuf
    rw [spiWriteData_eq (by omega) (by omega)]
    refine ⟨covers_singleton _ _, fun piece hmem => ?_⟩
    rw [List.mem_singleton.mp hmem, hlength]
    omega

/-- A write to one page. -/
theorem spiWritePage_writes
    (hfits : addr.toNat % chip.pageSize.toNat + size.toNat ≤ chip.pageSize.toNat)
    (hend : addr.toNat + size.toNat ≤ 2 ^ 24) (hbuf : size.toNat ≤ buf.length) :
    Writes chip.pageSize.toNat addr.toNat (buf.take size.toNat)
      (spiWritePage chip addr buf size) := by
  rw [spiWritePage_of_fits buf hfits]
  split
  case isTrue hempty =>
    have hzero : size.toNat = 0 := Nat.lt_one_iff.mp (UInt32.lt_iff_toNat_lt.mp hempty)
    rw [hzero, List.take_zero]
    exact ⟨rfl, covers_nil, fun _ h => absurd h List.not_mem_nil,
      fun _ h => absurd h List.not_mem_nil⟩
  case isFalse hsome =>
    have hpos : 0 < size.toNat := Nat.pos_of_ne_zero fun hzero =>
      hsome (UInt32.lt_iff_toNat_lt.mpr (by rw [hzero]; decide))
    obtain ⟨hcovers, hsizes⟩ := writeBlocks_covers hpos hend hbuf
    have hlength : (buf.take size.toNat).length = size.toNat := List.length_take_of_le hbuf
    refine ⟨rfl, hcovers, hsizes, fun piece hmem => hcovers.inPage ?_ hmem ?_⟩
    · rwa [hlength]
    · exact List.ne_nil_of_length_pos (hsizes piece hmem).1

/-- Two writes one after the other. -/
theorem Writes.andThen {pageSize addr : ℕ} {data rest : List UInt8}
    {first second : Bool × List Piece} (h : Writes pageSize addr data first)
    (h' : Writes pageSize (addr + data.length) rest second) :
    Writes pageSize addr (data ++ rest) (andThen first second) := by
  rw [SpiFlash.andThen, if_pos h.ok]
  refine ⟨h'.ok, h.covers.append h'.covers, fun piece hmem => ?_, fun piece hmem => ?_⟩
  · exact (List.mem_append.mp hmem).elim (h.sizes piece) (h'.sizes piece)
  · exact (List.mem_append.mp hmem).elim (h.inPage piece) (h'.inPage piece)

theorem toNat_add_of_le {a b : UInt32} (h : a.toNat + b.toNat ≤ 2 ^ 24) :
    (a + b).toNat = a.toNat + b.toNat := by
  rw [UInt32.toNat_add]
  exact Nat.mod_eq_of_lt (by omega)

/-- Whole pages and a rest, from the start of a page on. -/
theorem writePages_writes (hpage : 0 < chip.pageSize.toNat)
    (hend : addr.toNat + size.toNat ≤ 2 ^ 24) (hbuf : size.toNat ≤ buf.length)
    {pages : ℕ} {offset : UInt32} (hoffset : offset.toNat ≤ size.toNat)
    (aligned : (addr.toNat + offset.toNat) % chip.pageSize.toNat = 0)
    (hpages : (size.toNat - offset.toNat) / chip.pageSize.toNat = pages) :
    Writes chip.pageSize.toNat (addr.toNat + offset.toNat)
      ((buf.drop offset.toNat).take (size.toNat - offset.toNat))
      (writePages chip addr buf size pages offset) := by
  induction pages generalizing offset with
  | zero =>
    have hsub : (size - offset).toNat = size.toNat - offset.toNat :=
      UInt32.toNat_sub_of_le _ _ (UInt32.le_iff_toNat_le.mpr hoffset)
    have haddr : (addr + offset).toNat = addr.toNat + offset.toNat :=
      toNat_add_of_le (by omega)
    have hless : size.toNat - offset.toNat < chip.pageSize.toNat :=
      (Nat.div_eq_zero_iff_lt hpage).mp hpages
    have hwrites := @spiWritePage_writes chip (addr + offset) (size - offset)
      (buf.drop offset.toNat) (by rw [haddr, aligned, hsub]; omega) (by omega)
      (by rw [List.length_drop]; omega)
    rwa [haddr, hsub] at hwrites
  | succ pages ih =>
    have hwhole : chip.pageSize.toNat ≤ size.toNat - offset.toNat := by
      by_contra hless
      rw [Nat.div_eq_of_lt (Nat.lt_of_not_le hless)] at hpages
      omega
    have haddr : (addr + offset).toNat = addr.toNat + offset.toNat :=
      toNat_add_of_le (by omega)
    have hnext : (offset + chip.pageSize).toNat = offset.toNat + chip.pageSize.toNat :=
      toNat_add_of_le (by omega)
    have hfirst := @spiWritePage_writes chip (addr + offset) chip.pageSize
      (buf.drop offset.toNat) (by rw [haddr, aligned, Nat.zero_add]) (by omega)
      (by rw [List.length_drop]; omega)
    have hleft : (size.toNat - (offset + chip.pageSize).toNat) / chip.pageSize.toNat = pages := by
      have hsplit : size.toNat - offset.toNat =
          size.toNat - (offset + chip.pageSize).toNat + chip.pageSize.toNat := by omega
      rw [hsplit, Nat.add_div_right _ hpage] at hpages
      omega
    have hrest := @ih (offset + chip.pageSize) (by omega)
      (by rw [hnext, ← Nat.add_assoc, Nat.add_mod_right, aligned]) hleft
    have hlength : ((buf.drop offset.toNat).take chip.pageSize.toNat).length =
        chip.pageSize.toNat := List.length_take_of_le (by rw [List.length_drop]; omega)
    have hdata : (buf.drop offset.toNat).take (size.toNat - offset.toNat) =
        (buf.drop offset.toNat).take chip.pageSize.toNat ++
          (buf.drop (offset + chip.pageSize).toNat).take
            (size.toNat - (offset + chip.pageSize).toNat) := by
      rw [hnext, ← List.drop_drop, ← List.take_add]
      congr 1
      omega
    rw [haddr] at hfirst
    rw [hdata]
    exact hfirst.andThen (by rw [hlength, Nat.add_assoc, ← hnext]; exact hrest)

/-- A write inside the chip. -/
theorem spiWrite_writes (hpage : 0 < chip.pageSize.toNat)
    (hin : addr.toNat + size.toNat ≤ chip.chipSize.toNat) (hchip : chip.chipSize.toNat ≤ 2 ^ 24)
    (hbuf : size.toNat ≤ buf.length) :
    Writes chip.pageSize.toNat addr.toNat (buf.take size.toNat) (spiWrite chip addr buf size) := by
  have hend : addr.toNat + size.toNat ≤ 2 ^ 24 := by omega
  have hcheck : ¬ chip.chipSize < addr + size := fun hlt => by
    rw [UInt32.lt_iff_toNat_lt, toNat_add_of_le hend] at hlt
    omega
  have hmod : addr.toNat % chip.pageSize.toNat < chip.pageSize.toNat := Nat.mod_lt _ hpage
  have hfirst := toNat_pageRest hpage addr
  rw [spiWrite, if_neg hcheck]
  dsimp only
  split
  case isTrue hless =>
    rw [UInt32.lt_iff_toNat_lt, hfirst] at hless
    exact spiWritePage_writes (by omega) hend hbuf
  case isFalse hmore =>
    have hmore' : (chip.pageSize - addr % chip.pageSize).toNat ≤ size.toNat :=
      UInt32.le_iff_toNat_le.mp (UInt32.not_lt.mp hmore)
    generalize hportion : chip.pageSize - addr % chip.pageSize = portion at hfirst hmore'
    have hpageEnd : (addr.toNat + portion.toNat) % chip.pageSize.toNat = 0 := by
      rw [hfirst, ← Nat.mod_add_mod, Nat.add_sub_cancel' hmod.le, Nat.mod_self]
    have hpages : (size.toNat - portion.toNat) / chip.pageSize.toNat =
        ((size - portion) / chip.pageSize).toNat := by
      rw [UInt32.toNat_div, UInt32.toNat_sub_of_le _ _ (UInt32.le_iff_toNat_le.mpr hmore')]
    have hhead := @spiWritePage_writes chip addr portion buf (by omega) (by omega) (by omega)
    have htail := writePages_writes hpage hend hbuf hmore' hpageEnd hpages
    have hlength : (buf.take portion.toNat).length = portion.toNat :=
      List.length_take_of_le (by omega)
    have hdata : buf.take size.toNat =
        buf.take portion.toNat ++ (buf.drop portion.toNat).take (size.toNat - portion.toNat) := by
      rw [← List.take_add, Nat.add_sub_cancel' hmore']
    rw [hdata]
    exact hhead.andThen (by rw [hlength]; exact htail)

/-! ## Reading -/

section Reading

variable {f buf : Image} {dst : ℕ}

/-- A command reads the bytes at its address. -/
theorem readBlock_eq (haddr : addr.toNat < 2 ^ 24) (hsize : size.toNat ≤ 60) :
    readBlock f addr buf dst size = patch buf dst (read f addr.toNat size.toNat) := by
  have hbyte : size.toNat < 2 ^ 8 := by omega
  unfold readBlock
  dsimp only
  rw [busAddr_addrRegister haddr hbyte, busSize_addrRegister haddr hbyte, take_read, Nat.min_self]

/-- The blocks fill the buffer from `dst` on. -/
theorem readBlocks_eq (hend : addr.toNat + size.toNat ≤ 2 ^ 24) :
    (readBlocks f addr buf dst size).2 = patch buf dst (read f addr.toNat size.toNat) := by
  fun_induction readBlocks f addr buf dst size with
  | case1 addr buf dst size hmax next ih =>
    have hmax' : 60 ≤ size.toNat := UInt32.le_iff_toNat_le.mp hmax
    have hrest : (size - readMaxSize).toNat = size.toNat - 60 :=
      UInt32.toNat_sub_of_le _ _ hmax
    have hsixty : readMaxSize.toNat = 60 := rfl
    have haddr : (addr + readMaxSize).toNat = addr.toNat + 60 :=
      toNat_add_of_le (by rw [hsixty]; omega)
    have hsplit : size.toNat = 60 + (size.toNat - 60) := by omega
    have hnext : next.2 = _ := ih (by omega)
    show next.2 = _
    rw [hnext, readBlock_eq (by omega) le_rfl, hrest, haddr, hsixty, hsplit, read_add,
      patch_append, length_read, Nat.add_sub_cancel_left]
  | case2 addr buf dst size hless hpos =>
    have hless' : size.toNat < 60 := UInt32.lt_iff_toNat_lt.mp (UInt32.not_le.mp hless)
    have hpos' : 0 < size.toNat := UInt32.lt_iff_toNat_lt.mp hpos
    exact readBlock_eq (by omega) (by omega)
  | case3 addr buf dst size hless hpos =>
    have hzero : size.toNat = 0 :=
      Nat.eq_zero_of_not_pos fun h => hpos (UInt32.lt_iff_toNat_lt.mpr h)
    rw [hzero, read_zero, patch_nil]

/-- A read inside the chip. -/
theorem spiflashRead_eq (hin : addr.toNat + size.toNat ≤ chip.chipSize.toNat)
    (hchip : chip.chipSize.toNat ≤ 2 ^ 24) :
    (spiflashRead chip f addr buf (some dst) size).ok = true ∧
      (spiflashRead chip f addr buf (some dst) size).buf =
        patch buf dst (read f addr.toNat size.toNat) := by
  have hend : addr.toNat + size.toNat ≤ 2 ^ 24 := by omega
  have hcheck : ¬ addr + size > chip.chipSize := fun hlt => by
    rw [gt_iff_lt, UInt32.lt_iff_toNat_lt, toNat_add_of_le hend] at hlt
    omega
  show (readData chip f addr buf dst size).ok = true ∧
    (readData chip f addr buf dst size).buf = _
  rw [readData]
  split
  case isTrue hempty =>
    have hzero : size.toNat = 0 := Nat.lt_one_iff.mp (UInt32.lt_iff_toNat_lt.mp hempty)
    rw [hzero, read_zero, patch_nil]
    exact ⟨rfl, rfl⟩
  case isFalse => exact ⟨rfl, readBlocks_eq hend⟩

end Reading

/-! ## Writing and reading back -/

/-- A write inside the chip succeeds with commands of 1 to 64 bytes that lie in one
page each and cover the range once, in order and with the bytes of the buffer, so
that they clear bits inside the range and change nothing outside it; and a read
inside the chip then fills its buffer with the content of the flash and changes no
other byte of the memory. -/
theorem spiflash_write_splits (chip : Chip) (addr size : UInt32) (buf : List UInt8) (f : Image)
    (hpage : 0 < chip.pageSize.toNat) (hin : addr.toNat + size.toNat ≤ chip.chipSize.toNat)
    (hchip : chip.chipSize.toNat ≤ 2 ^ 24) (hbuf : size.toNat ≤ buf.length) :
    let result := spiflashWrite chip addr (some buf) size
    let f' := programAll f result.2
    result.1 = true ∧
      (∀ piece ∈ result.2, 1 ≤ piece.data.length ∧ piece.data.length ≤ 64 ∧
        piece.InPage chip.pageSize.toNat) ∧
      Covers addr.toNat result.2 (buf.take size.toNat) ∧
      (∀ (i : ℕ) (hi : i < size.toNat), f' (addr.toNat + i) =
        f (addr.toNat + i) &&& buf[i]) ∧
      (∀ a, a < addr.toNat ∨ addr.toNat + size.toNat ≤ a → f' a = f a) ∧
      ∀ (addr' size' : UInt32) (memory : Image) (dst : ℕ),
        addr'.toNat + size'.toNat ≤ chip.chipSize.toNat →
        let answer := spiflashRead chip f' addr' memory (some dst) size'
        answer.ok = true ∧
          (∀ i < size'.toNat, answer.buf (dst + i) = f' (addr'.toNat + i)) ∧
          ∀ a, a < dst ∨ dst + size'.toNat ≤ a → answer.buf a = memory a := by
  intro result f'
  have hwrites : Writes chip.pageSize.toNat addr.toNat (buf.take size.toNat) result :=
    spiWrite_writes hpage hin hchip hbuf
  have hf' : f' = program f addr.toNat (buf.take size.toNat) :=
    programAll_of_covers f hwrites.covers
  have hlength : (buf.take size.toNat).length = size.toNat := List.length_take_of_le hbuf
  refine ⟨hwrites.ok, fun piece hmem => ?_, hwrites.covers, fun i hi => ?_, fun a ha => ?_, ?_⟩
  · exact ⟨(hwrites.sizes piece hmem).1, (hwrites.sizes piece hmem).2, hwrites.inPage piece hmem⟩
  · rw [hf', program_at (hlength.symm ▸ hi), List.getElem_take]
  · rw [hf', program_of_outside (hlength.symm ▸ ha)]
  · intro addr' size' memory dst hin' answer
    obtain ⟨hok, hanswer⟩ := @spiflashRead_eq chip addr' size' f' memory dst hin' hchip
    refine ⟨hok, fun i hi => ?_, fun a ha => ?_⟩
    · rw [hanswer, patch_at (length_read.symm ▸ hi), getElem_read]
    · rw [hanswer, patch_of_outside (by rwa [length_read])]

/-- Ten bytes over the end of a page, in two commands, and a read of them back. -/
theorem spiflash_write_splits_ten :
    let buf : List UInt8 := [0, 1, 2, 3, 4, 5, 6, 7, 8, 9]
    let result := spiflashWrite ⟨4194304, 4096, 256⟩ 250 (some buf) 10
    let f' := programAll (fun _ => 0xFF) result.2
    let answer := spiflashRead ⟨4194304, 4096, 256⟩ f' 250 (fun _ => 0) (some 64) 10
    result = (true, [⟨250, buf.take 6⟩, ⟨256, buf.drop 6⟩]) ∧
      (∀ piece ∈ result.2, 1 ≤ piece.data.length ∧ piece.data.length ≤ 64 ∧ piece.InPage 256) ∧
      Covers 250 result.2 buf ∧ (∀ (i : ℕ) (hi : i < 10), f' (250 + i) = 0xFF &&& buf[i]) ∧
      (∀ a, a < 250 ∨ 260 ≤ a → f' a = 0xFF) ∧ answer.ok = true ∧
      (∀ i < 10, answer.buf (64 + i) = f' (250 + i)) ∧
      ∀ a, a < 64 ∨ 74 ≤ a → answer.buf a = 0 := by
  intro buf result f' answer
  obtain ⟨-, hpieces, hcovers, hinside, houtside, hread⟩ :=
    spiflash_write_splits ⟨4194304, 4096, 256⟩ 250 10 buf (fun _ => 0xFF) (by decide) (by decide)
      (by decide) (by decide)
  exact ⟨by decide +kernel, hpieces, hcovers, hinside, houtside,
    hread 250 10 (fun _ => 0) 64 (by decide)⟩

end EspOpenRtos.SpiFlash
