/-
# The search finds every device

On an ideal bus a call of `onewire_search_next` is a walk through the set of ROM
codes, and the position it keeps for the next call is the last fork at which the
code it found has 0. So the calls run through the codes in the order of their first
differing bit, report `ONEWIRE_NONE` after the last one and start again.
-/

import EspOpenRtos.OneWire.IdealBus

namespace EspOpenRtos.OneWire

open Math.LexWalk

/-! ## The bits of `rom_no` -/

/-- `rom_no` as a word. -/
def romWord (romNo : RomNo) : Fin 64 → Bool := fun i =>
  (romNo ⟨i / 8, by omega⟩).getLsbD (i % 8)

section RomNo

variable {romNo : RomNo}

/-- The bytes of a word that is put together from the highest byte down. -/
theorem getLsbD_foldr_bytes (bytes : List (BitVec 8)) {n : ℕ} (hn : n < 64) :
    (bytes.foldr (fun byte (addr : BitVec 64) => addr <<< 8 ||| byte.setWidth 64) 0).getLsbD n =
      (bytes.getD (n / 8) 0).getLsbD (n % 8) := by
  induction bytes generalizing n with
  | nil => simp
  | cons byte rest ih =>
    rw [List.foldr_cons, BitVec.getLsbD_or, BitVec.getLsbD_shiftLeft, BitVec.getLsbD_setWidth]
    rcases Nat.lt_or_ge n 8 with hlow | hhigh
    · rw [Nat.div_eq_of_lt hlow, Nat.mod_eq_of_lt hlow]
      simp [hn, hlow]
    · have hdiv : n / 8 = (n - 8) / 8 + 1 := by omega
      have hmod : n % 8 = (n - 8) % 8 := by omega
      rw [ih (by omega), hdiv, hmod, List.getD_cons_succ, BitVec.getLsbD_of_ge byte n hhigh]
      simp [hn, Nat.not_lt.mpr hhigh]

theorem bits_romAddr (romNo : RomNo) : bits (romAddr romNo) = romWord romNo := by
  funext i
  have hbytes : romAddr romNo = ((List.finRange 8).map romNo).foldr
      (fun byte (addr : BitVec 64) => addr <<< 8 ||| byte.setWidth 64) 0 := by
    rw [romAddr, List.foldl_reverse, List.foldr_map]
  rw [hbytes]
  refine (getLsbD_foldr_bytes _ i.isLt).trans (congrArg (BitVec.getLsbD · _) ?_)
  have hlt : (i : ℕ) / 8 < 8 := by omega
  simp [List.getD, hlt]

/-- The bit that the counters stand for. -/
theorem counters_position {c : Counters} {n : Fin 64} (hid : c.idBitNumber = n + 1) :
    c.romByteNumber = n / 8 ∧ c.romByteMask = 1#8 <<< ((n : ℕ) % 8) := by
  obtain ⟨k, hk, hsum, hmask⟩ := c.valid
  have hpos : (n : ℕ) = 8 * c.romByteNumber + k := by omega
  have hbit : (n : ℕ) % 8 = k := by omega
  exact ⟨by omega, by rw [hmask, hbit]⟩

theorem getLsbD_mask (k : ℕ) {j : ℕ} (hj : j < 8) : (1#8 <<< k).getLsbD j = decide (j = k) := by
  rw [BitVec.getLsbD_shiftLeft, BitVec.getLsbD_one, Bool.eq_iff_iff]
  simp only [Bool.and_eq_true, Bool.not_eq_true', decide_eq_true_eq, decide_eq_false_iff_not]
  omega

/-- Writing a bit of a byte writes the bit of the word. -/
theorem romWord_writeRomBit {n : Fin 64} {byte : Fin 8} (hbyte : (byte : ℕ) = n / 8) (b : Bool) :
    romWord (writeRomBit romNo byte (1#8 <<< ((n : ℕ) % 8)) b) =
      Function.update (romWord romNo) n b := by
  funext i
  have hmod : (i : ℕ) % 8 < 8 := Nat.mod_lt _ (by decide)
  by_cases hsame : (i : ℕ) / 8 = n / 8
  · have hi : (⟨i / 8, by omega⟩ : Fin 8) = byte := Fin.ext (hsame.trans hbyte.symm)
    have heq : (i : ℕ) % 8 = n % 8 ↔ i = n := ⟨fun h => Fin.ext (by omega), fun h => h ▸ rfl⟩
    rw [romWord, writeRomBit, hi, Function.update_self, Function.update_apply, romWord, hi]
    have hbit : (1#8 <<< ((n : ℕ) % 8)).getLsbD (i % 8) = decide (i = n) := by
      rw [getLsbD_mask _ hmod, decide_eq_decide.mpr heq]
    cases b with
    | false =>
      rw [if_neg Bool.false_ne_true, BitVec.getLsbD_and, BitVec.getLsbD_not, hbit,
        decide_eq_true hmod]
      by_cases hin : i = n
      · rw [if_pos hin, decide_eq_true hin]
        simp
      · rw [if_neg hin, decide_eq_false hin]
        simp
    | true =>
      rw [if_pos rfl, BitVec.getLsbD_or, hbit]
      by_cases hin : i = n
      · rw [if_pos hin, decide_eq_true hin, Bool.or_true]
      · rw [if_neg hin, decide_eq_false hin, Bool.or_false]
  · have hi : (⟨i / 8, by omega⟩ : Fin 8) ≠ byte := fun h => hsame ((congrArg Fin.val h).trans hbyte)
    have hne : i ≠ n := fun h => hsame (h ▸ rfl)
    rw [romWord, writeRomBit, Function.update_of_ne hi, Function.update_of_ne hne, romWord]

theorem decide_masked {n : Fin 64} {byte : Fin 8} (hbyte : (byte : ℕ) = n / 8) :
    decide (0 < romNo byte &&& 1#8 <<< ((n : ℕ) % 8)) = romWord romNo n := by
  have hn : (⟨n / 8, by omega⟩ : Fin 8) = byte := Fin.ext hbyte.symm
  have hmask : 0 < BitVec.twoPow 8 ((n : ℕ) % 8) := by
    have hmod : (n : ℕ) % 8 < 8 := Nat.mod_lt _ (by decide)
    interval_cases (n : ℕ) % 8 <;> decide
  have hand := BitVec.and_twoPow (romNo byte) ((n : ℕ) % 8)
  rw [romWord, hn]
  change decide (0 < romNo byte &&& BitVec.twoPow 8 ((n : ℕ) % 8)) = _
  rw [hand]
  cases (romNo byte).getLsbD ((n : ℕ) % 8) with
  | false => rfl
  | true => exact decide_eq_true hmask

theorem romNo_zero_ne {rom : BitVec 64} (hfamily : rom.setWidth 8 ≠ 0)
    (hrom : bits rom = romWord romNo) : romNo 0 ≠ 0 := by
  intro hzero
  refine hfamily (BitVec.eq_of_getLsbD_eq fun i hi => ?_)
  have hbit := congrFun hrom ⟨i, by omega⟩
  have hbyte : (⟨i / 8, by omega⟩ : Fin 8) = 0 := Fin.ext (Nat.div_eq_of_lt hi)
  simp only [bits, romWord, hbyte, hzero] at hbit
  simp [hi, hbit]

end RomNo

/-! ## One call -/

/-- The set of words on the bus. -/
def codes (roms : List (BitVec 64)) : Set (Fin 64 → Bool) := { x | ∃ rom ∈ roms, bits rom = x }

/-- The loop when `n` bits have been decided. The bits behind them are still those of
the previous code. -/
structure Decided (roms : List (BitVec 64)) (prev : Fin 64 → Bool) (d n : ℕ)
    (st : LoopState (List Device)) : Prop where
  counters : st.counters.idBitNumber = n + 1
  wire : st.wire = searching roms n (romWord st.romNo)
  answered : ∃ rom ∈ roms, Agree n (bits rom) (romWord st.romNo)
  kept : ∀ i : Fin 64, n ≤ i → romWord st.romNo i = prev i
  taken : ∀ p : Fin 64, (p : ℕ) < n → Fork (codes roms) (romWord st.romNo) p →
    romWord st.romNo p = direction prev d p
  bound : ∀ p : Fin 64, (p : ℕ) < n → Skips (codes roms) (romWord st.romNo) p →
    (p : ℕ) + 1 ≤ st.lastZero
  attained : 0 < st.lastZero → ∃ p : Fin 64, (p : ℕ) < n ∧ (p : ℕ) + 1 = st.lastZero ∧
    Skips (codes roms) (romWord st.romNo) p

section Call

variable {roms : List (BitVec 64)} {prev : Fin 64 → Bool} {d : ℕ} {st : LoopState (List Device)}

/-- At a fork the devices that take part differ. -/
theorem fork_iff {w : Fin 64 → Bool} {n : Fin 64} :
    Fork (codes roms) w n ↔ ¬AllHave roms n w true ∧ ¬AllHave roms n w false := by
  constructor
  · rintro ⟨⟨-, ⟨x, hx, rfl⟩, hxw, hzero⟩, ⟨-, ⟨y, hy, rfl⟩, hyw, hone⟩⟩
    exact ⟨fun hall => Bool.false_ne_true (hzero.symm.trans (hall x hx hxw)),
      fun hall => Bool.false_ne_true ((hall y hy hyw).symm.trans hone)⟩
  · unfold AllHave
    push Not
    rintro ⟨⟨x, hx, hxw, hzero⟩, ⟨y, hy, hyw, hone⟩⟩
    exact ⟨⟨bits x, ⟨x, hx, rfl⟩, hxw, Bool.eq_false_iff.mpr hzero⟩,
      ⟨bits y, ⟨y, hy, rfl⟩, hyw, Bool.of_not_eq_false hone⟩⟩

/-- One more bit has been decided. -/
theorem Decided.extend {n : Fin 64} (h : Decided roms prev d n st) {b : Bool} {lastZero : ℕ}
    (hchoice : Fork (codes roms) (romWord st.romNo) n → b = direction prev d n)
    (hanswered : ∃ rom ∈ roms, Agree n (bits rom) (romWord st.romNo) ∧ rom.getLsbD n = b)
    (hskip : Fork (codes roms) (romWord st.romNo) n ∧ b = false → lastZero = n + 1)
    (hkeep : ¬(Fork (codes roms) (romWord st.romNo) n ∧ b = false) → lastZero = st.lastZero)
    {st' : LoopState (List Device)} (hcounters : st'.counters = st.counters.next)
    (hromNo : romWord st'.romNo = Function.update (romWord st.romNo) n b)
    (hwire : st'.wire = searching roms (n + 1) (romWord st'.romNo))
    (hlastZero : st'.lastZero = lastZero) : Decided roms prev d (n + 1) st' := by
  have hagree : Agree n (romWord st'.romNo) (romWord st.romNo) := fun i hi => by
    rw [hromNo, Function.update_of_ne (fun heq => hi.ne (congrArg Fin.val heq))]
  have hbit : romWord st'.romNo n = b := by rw [hromNo, Function.update_self]
  have hsplit {p : Fin 64} (hp : (p : ℕ) < n + 1) : (p : ℕ) < n ∨ p = n :=
    (Nat.lt_succ_iff_lt_or_eq.mp hp).imp_right Fin.ext
  have hle : st.lastZero ≤ lastZero := by
    by_cases hfork : Fork (codes roms) (romWord st.romNo) n ∧ b = false
    · rw [hskip hfork]
      rcases Nat.eq_zero_or_pos st.lastZero with hzero | hpos
      · omega
      · obtain ⟨p, hp, hlast, -⟩ := h.attained hpos
        omega
    · rw [hkeep hfork]
  constructor
  case counters => rw [hcounters, Counters.next_idBitNumber, h.counters]
  case wire => exact hwire
  case answered =>
    obtain ⟨rom, hrom, htakes, hb⟩ := hanswered
    exact ⟨rom, hrom, agree_succ_iff.mpr ⟨htakes.trans hagree.symm, hb.trans hbit.symm⟩⟩
  case kept =>
    intro i hi
    have hne : i ≠ n := fun heq => by
      rw [heq] at hi
      omega
    rw [hromNo, Function.update_of_ne hne, h.kept i (by omega)]
  case taken =>
    intro p hp hfork
    rcases hsplit hp with hlt | rfl
    · rw [hagree p hlt]
      exact h.taken p hlt (hfork.congr (hagree.mono hlt.le))
    · rw [hbit]
      exact hchoice (hfork.congr hagree)
  case bound =>
    intro p hp hskips
    rw [hlastZero]
    rcases hsplit hp with hlt | rfl
    · exact (h.bound p hlt (hskips.congr (hagree.mono hlt))).trans hle
    · rw [hskip ⟨hskips.2.congr hagree, hbit.symm.trans hskips.1⟩]
  case attained =>
    rw [hlastZero]
    intro hpos
    by_cases hfork : Fork (codes roms) (romWord st.romNo) n ∧ b = false
    · exact ⟨n, Nat.lt_succ_self _, (hskip hfork).symm, hbit.trans hfork.2,
        hfork.1.congr hagree.symm⟩
    · rw [hkeep hfork] at hpos ⊢
      obtain ⟨p, hp, hlast, hskips⟩ := h.attained hpos
      exact ⟨p, by omega, hlast, hskips.congr (hagree.symm.mono hp)⟩

section

variable {n : Fin 64} {byte : Fin 8} (h : Decided roms prev d n st)
  (hbyte : (byte : ℕ) = st.counters.romByteNumber)
include h hbyte

/-- Where devices differ the direction is the choice of the walk. -/
theorem Decided.searchDirection_fork :
    searchDirection d st.counters (st.romNo byte) false false = direction prev d n := by
  obtain ⟨hnumber, hmask⟩ := counters_position h.counters
  rw [searchDirection, if_neg (not_not.mpr rfl), hmask, decide_masked (hbyte.trans hnumber),
    h.counters, h.kept n le_rfl, direction]

/-- A round with two given bits. -/
theorem Decided.round_of_bits {idBit cmpIdBit bit : Bool}
    (hid : decide (AllHave roms n (romWord st.romNo) true) = idBit)
    (hcmp : decide (AllHave roms n (romWord st.romNo) false) = cmpIdBit)
    (hbits : (idBit && cmpIdBit) = false)
    (hbit : searchDirection d st.counters (st.romNo byte) idBit cmpIdBit = bit)
    (hchoice : Fork (codes roms) (romWord st.romNo) n → bit = direction prev d n)
    (hanswered : ∃ rom ∈ roms, Agree n (bits rom) (romWord st.romNo) ∧ rom.getLsbD n = bit) :
    ∃ st', searchRound idealBus d st byte = .next st' ∧ Decided roms prev d (n + 1) st' := by
  obtain ⟨hnumber, hmask⟩ := counters_position h.counters
  have hread := readBit_searching roms (romWord st.romNo) n.isLt
  have hread' := readBit_complement roms (romWord st.romNo) n
  rw [← h.wire, hid] at hread
  rw [hcmp] at hread'
  have hfork : Fork (codes roms) (romWord st.romNo) n ↔ idBit = cmpIdBit := by
    rw [fork_iff, ← decide_eq_false_iff_not, ← decide_eq_false_iff_not, hid, hcmp]
    cases idBit <;> cases cmpIdBit <;> simp_all
  have hromNo : romWord (writeRomBit st.romNo byte st.counters.romByteMask bit) =
      Function.update (romWord st.romNo) n bit := by
    rw [hmask, romWord_writeRomBit (hbyte.trans hnumber)]
  refine ⟨_, searchRound_of_reads hread hread' hbits hbit,
    h.extend hchoice hanswered (fun hskip => ?_) (fun hkeep => ?_) rfl hromNo ?_ rfl⟩
  · rw [if_pos ⟨hfork.mp hskip.1, hskip.2⟩, h.counters]
  · exact if_neg fun hskip => hkeep ⟨hfork.mpr hskip.1, hskip.2⟩
  · refine writeBit_taking (fun i hi => ?_) ?_
    · rw [hromNo, Function.update_of_ne (fun heq => hi.ne (congrArg Fin.val heq))]
    · rw [hromNo, Function.update_self]

/-- The body of the loop decides one bit. -/
theorem Decided.round :
    ∃ st', searchRound idealBus d st byte = .next st' ∧ Decided roms prev d (n + 1) st' := by
  obtain ⟨rom, hrom, htakes⟩ := h.answered
  by_cases hones : AllHave roms n (romWord st.romNo) true <;>
    by_cases hzeros : AllHave roms n (romWord st.romNo) false
  · exact absurd ((hones rom hrom htakes).symm.trans (hzeros rom hrom htakes)) nofun
  · refine h.round_of_bits hbyte (decide_eq_true hones) (decide_eq_false hzeros) rfl rfl
      (fun hfork => absurd hones (fork_iff.mp hfork).1) ?_
    exact ⟨rom, hrom, htakes, hones rom hrom htakes⟩
  · refine h.round_of_bits hbyte (decide_eq_false hones) (decide_eq_true hzeros) rfl rfl
      (fun hfork => absurd hzeros (fork_iff.mp hfork).2) ?_
    exact ⟨rom, hrom, htakes, hzeros rom hrom htakes⟩
  · -- a fork: devices with either bit take part
    refine h.round_of_bits hbyte (decide_eq_false hones) (decide_eq_false hzeros) rfl
      (h.searchDirection_fork hbyte) (fun _ => rfl) ?_
    obtain ⟨⟨-, ⟨x, hx, rfl⟩, hxw, hzero⟩, ⟨-, ⟨y, hy, rfl⟩, hyw, hone⟩⟩ :=
      fork_iff.mpr ⟨hones, hzeros⟩
    cases direction prev d n with
    | false => exact ⟨x, hx, hxw, hzero⟩
    | true => exact ⟨y, hy, hyw, hone⟩

end

/-- The loop decides all bits. -/
theorem Decided.loop {n : ℕ} (hn : n ≤ 64) (h : Decided roms prev d n st) :
    Decided roms prev d 64 (searchLoop idealBus d st) := by
  induction hk : 64 - n generalizing n st with
  | zero =>
    obtain rfl : n = 64 := by omega
    rw [searchLoop, dif_neg (by rw [st.counters.romByteNumber_lt_iff, h.counters]; omega)]
    exact h
  | succ k ih =>
    have hlt : n < 64 := by omega
    have hbyte : st.counters.romByteNumber < 8 := by
      rw [st.counters.romByteNumber_lt_iff, h.counters]
      omega
    obtain ⟨st', hround, hdecided⟩ := @Decided.round _ _ _ _ ⟨n, hlt⟩ ⟨_, hbyte⟩ h rfl
    rw [searchLoop, dif_pos hbyte]
    split
    case h_1 hstop => cases hround.symm.trans hstop
    case h_2 hnext =>
      cases hround.symm.trans hnext
      exact ih hlt hdecided (by omega)

/-- What a call leaves in the search state: the code it has found and the last fork at
which the code has 0. -/
structure Reported (roms : List (BitVec 64)) (rom : BitVec 64) (search : OnewireSearch) :
    Prop where
  mem : rom ∈ roms
  romNo : romWord search.romNo = bits rom
  lastSkip : LastSkip (codes roms) (bits rom) search.lastDiscrepancy
  lastDevice : search.lastDeviceFound = decide (search.lastDiscrepancy = 0)

/-- The state of a search from the beginning. What `rom_no` holds does not matter. -/
def Fresh (search : OnewireSearch) : Prop :=
  search.lastDiscrepancy = 0 ∧ search.lastDeviceFound = false

/-- All bits of the code have been decided. -/
theorem Decided.found (h : Decided roms prev d 64 st) :
    ∃ rom ∈ roms, bits rom = romWord st.romNo := by
  obtain ⟨rom, hrom, hagree⟩ := h.answered
  exact ⟨rom, hrom, funext fun i => hagree i i.isLt⟩

/-- A call that searches the bus is a walk to a code. -/
theorem onewireSearchNext_walk {search : OnewireSearch} {wire : List Device}
    (hwire : wire.map Device.rom = roms) (hne : roms ≠ [])
    (hfamily : ∀ rom ∈ roms, rom.setWidth 8 ≠ 0) (hmore : search.lastDeviceFound = false) :
    ∃ rom search' wire', onewireSearchNext idealBus search wire = (rom, search', wire') ∧
      wire'.map Device.rom = roms ∧
      Walk (codes roms) (romWord search.romNo) search.lastDiscrepancy (bits rom) ∧
      Reported roms rom search' := by
  have hdevices : wire ≠ [] := fun hnil => hne (by rw [← hwire, hnil, List.map_nil])
  obtain ⟨first, hfirst⟩ := List.exists_mem_of_ne_nil _ hne
  have hstart : Decided roms (romWord search.romNo) search.lastDiscrepancy 0
      ⟨searching roms 0 (romWord search.romNo), search.romNo, .init, 0⟩ :=
    ⟨rfl, rfl, ⟨first, hfirst, fun i hi => absurd hi (Nat.not_lt_zero _)⟩, fun _ _ => rfl,
      fun p hp => absurd hp (Nat.not_lt_zero _), fun p hp => absurd hp (Nat.not_lt_zero _),
      fun hpos => absurd hpos (lt_irrefl 0)⟩
  have hdone := hstart.loop (Nat.zero_le 64)
  rw [onewireSearchNext, hmore, if_neg Bool.false_ne_true, reset_idealBus hdevices]
  dsimp only
  rw [wire_search_started hwire (romWord search.romNo)]
  generalize searchLoop idealBus search.lastDiscrepancy _ = st at hdone ⊢
  obtain ⟨rom, hrom, hword⟩ := hdone.found
  have haddr : romAddr st.romNo = rom := bits_inj ((bits_romAddr _).trans hword.symm)
  rw [if_neg (not_or.mpr ⟨by rw [hdone.counters]; omega, romNo_zero_ne (hfamily rom hrom) hword⟩),
    haddr]
  refine ⟨_, _, _, rfl, by rw [hdone.wire, map_rom_searching], ⟨⟨rom, hrom, rfl⟩, fun p hfork => ?_⟩,
    hrom, hword.symm, ⟨fun p hskips => ?_, fun hpos => ?_⟩, rfl⟩
  · rw [hword] at hfork ⊢
    exact hdone.taken p p.isLt hfork
  · rw [hword] at hskips
    exact hdone.bound p p.isLt hskips
  · obtain ⟨p, -, hlast, hskips⟩ := hdone.attained hpos
    exact ⟨p, hlast, hword ▸ hskips⟩

end Call

/-! ## Whole enumerations -/

/-- The code comes before another one in the enumeration. -/
def Before (x y : BitVec 64) : Prop := toLex (bits x) < toLex (bits y)

section Calls

variable {roms : List (BitVec 64)} {wire : List Device} {search : OnewireSearch} {rom : BitVec 64}
  (hwire : wire.map Device.rom = roms) (hfamily : ∀ rom ∈ roms, rom.setWidth 8 ≠ 0)

theorem not_before_of_le {x y : BitVec 64} (h : toLex (bits x) ≤ toLex (bits y)) : ¬Before y x :=
  not_lt.mpr h

/-- In a sorted list the least element comes first, and the others come after it. -/
theorem sorted_cons_least {P : BitVec 64 → Prop} {r least : BitVec 64} {rest : List (BitVec 64)}
    (hsorted : (r :: rest).Pairwise Before) (hP : ∀ x, x ∈ r :: rest ↔ P x) (hleast : P least)
    (hmin : ∀ x, P x → ¬Before x least) :
    least = r ∧ rest.Pairwise Before ∧ ∀ x, x ∈ rest ↔ P x ∧ Before r x := by
  obtain ⟨hr, hrest⟩ := List.pairwise_cons.mp hsorted
  refine ⟨?_, hrest, fun x => ⟨fun hx => ⟨(hP x).mp (List.mem_cons_of_mem _ hx), hr x hx⟩, ?_⟩⟩
  · rcases List.mem_cons.mp ((hP least).mpr hleast) with heq | hlater
    · exact heq
    · exact absurd (hr least hlater) (hmin r ((hP r).mp List.mem_cons_self))
  · rintro ⟨hx, hbefore⟩
    rcases List.mem_cons.mp ((hP x).mpr hx) with rfl | hlater
    · exact absurd hbefore (lt_irrefl _)
    · exact hlater

/-- The results of one call and the calls after it. -/
theorem searchResults_succ {calls : ℕ} {search' : OnewireSearch} {wire' : List Device}
    (hcall : onewireSearchNext idealBus search wire = (rom, search', wire')) :
    searchResults idealBus search wire (calls + 1) =
      rom :: searchResults idealBus search' wire' calls := by
  rw [searchResults, hcall]

include hwire hfamily

/-- The first call finds the first code. -/
theorem Fresh.call (h : Fresh search) (hne : roms ≠ []) :
    ∃ first search' wire', onewireSearchNext idealBus search wire = (first, search', wire') ∧
      wire'.map Device.rom = roms ∧ Reported roms first search' ∧
      ∀ x ∈ roms, ¬Before x first := by
  obtain ⟨first, search', wire', hcall, hwire', hwalk, hreported⟩ :=
    onewireSearchNext_walk hwire hne hfamily h.2
  rw [h.1] at hwalk
  exact ⟨first, search', wire', hcall, hwire', hreported,
    fun x hx => not_before_of_le (hwalk.isLeast ⟨x, hx, rfl⟩)⟩

/-- A call after one that found a code finds the next one, if there is one. -/
theorem Reported.call (h : Reported roms rom search) (hmore : ∃ x ∈ roms, Before rom x) :
    ∃ next search' wire', onewireSearchNext idealBus search wire = (next, search', wire') ∧
      wire'.map Device.rom = roms ∧ Reported roms next search' ∧ Before rom next ∧
      ∀ x ∈ roms, Before rom x → ¬Before x next := by
  obtain ⟨x, hx, hbefore⟩ := hmore
  have hpos : search.lastDiscrepancy ≠ 0 := fun hzero =>
    not_before_of_le ((hzero ▸ h.lastSkip).isGreatest ⟨rom, h.mem, rfl⟩ ⟨x, hx, rfl⟩) hbefore
  obtain ⟨next, search', wire', hcall, hwire', hwalk, hreported⟩ :=
    onewireSearchNext_walk hwire (List.ne_nil_of_mem hx) hfamily
      (h.lastDevice.trans (decide_eq_false hpos))
  rw [h.romNo] at hwalk
  obtain ⟨hnext, hleast⟩ := hwalk.isNext ⟨rom, h.mem, rfl⟩ h.lastSkip (Nat.pos_of_ne_zero hpos)
  exact ⟨next, search', wire', hcall, hwire', hreported, hnext,
    fun x hx hbefore => not_before_of_le (hleast _ ⟨x, hx, rfl⟩ hbefore)⟩

/-- After the last code the search is over and can start again. -/
theorem Reported.call_last (h : Reported roms rom search) (hlast : ∀ x ∈ roms, ¬Before rom x) :
    ∃ search', onewireSearchNext idealBus search wire = (onewireNone, search', wire) ∧
      Fresh search' := by
  have hzero : search.lastDiscrepancy = 0 := by
    by_contra hpos
    obtain ⟨next, _, _, -, -, hwalk, hreported⟩ :=
      onewireSearchNext_walk hwire (List.ne_nil_of_mem h.mem) hfamily
        (h.lastDevice.trans (decide_eq_false hpos))
    rw [h.romNo] at hwalk
    exact hlast next hreported.mem
      (hwalk.isNext ⟨rom, h.mem, rfl⟩ h.lastSkip (Nat.pos_of_ne_zero hpos)).1
  refine ⟨⟨search.romNo, 0, false⟩, ?_, rfl, rfl⟩
  rw [onewireSearchNext, h.lastDevice, hzero]
  rfl

omit hfamily in
/-- Without devices there is no presence pulse. -/
theorem Fresh.call_empty (h : Fresh search) (hempty : roms = []) :
    ∃ search', onewireSearchNext idealBus search wire = (onewireNone, search', wire) ∧
      Fresh search' := by
  obtain rfl : wire = [] := List.map_eq_nil_iff.mp (hwire.trans hempty)
  refine ⟨⟨search.romNo, 0, false⟩, ?_, rfl, rfl⟩
  rw [onewireSearchNext, h.2]
  rfl

/-- From a reported code the calls return the later ones and end the search. -/
theorem Reported.results (h : Reported roms rom search) {rest : List (BitVec 64)}
    (hsorted : rest.Pairwise Before) (hrest : ∀ x, x ∈ rest ↔ x ∈ roms ∧ Before rom x) :
    ∃ search' wire', Fresh search' ∧ wire'.map Device.rom = roms ∧ ∀ calls,
      searchResults idealBus search wire (rest.length + 1 + calls) =
        rest ++ [onewireNone] ++ searchResults idealBus search' wire' calls := by
  induction rest generalizing rom search wire with
  | nil =>
    obtain ⟨search', hcall, hfresh⟩ := h.call_last hwire hfamily
      fun x hx hbefore => nomatch (hrest x).mpr ⟨hx, hbefore⟩
    refine ⟨search', wire, hfresh, hwire, fun calls => ?_⟩
    rw [List.length_nil, Nat.zero_add, Nat.add_comm, searchResults_succ hcall]
    rfl
  | cons r rest ih =>
    obtain ⟨hmem, hbefore⟩ := (hrest r).mp List.mem_cons_self
    obtain ⟨next, search₁, wire₁, hcall, hwire₁, hreported, hnext, hleast⟩ :=
      h.call hwire hfamily ⟨r, hmem, hbefore⟩
    obtain ⟨rfl, hlater, hmore⟩ := sorted_cons_least hsorted hrest ⟨hreported.mem, hnext⟩
      fun x hx => hleast x hx.1 hx.2
    have hrest' (x : BitVec 64) : x ∈ rest ↔ x ∈ roms ∧ Before next x := by
      rw [hmore]
      exact ⟨fun hx => ⟨hx.1.1, hx.2⟩, fun hx => ⟨⟨hx.1, lt_trans hbefore hx.2⟩, hx.2⟩⟩
    obtain ⟨search', wire', hfresh, hwire', hresults⟩ := ih hwire₁ hreported hlater hrest'
    refine ⟨search', wire', hfresh, hwire', fun calls => ?_⟩
    rw [List.length_cons, Nat.add_right_comm _ 1 calls, Nat.add_right_comm _ 1 calls,
      searchResults_succ hcall, Nat.add_right_comm, hresults]
    rfl

/-- From the beginning the calls return all codes and end the search. -/
theorem Fresh.results (h : Fresh search) {codes : List (BitVec 64)}
    (hsorted : codes.Pairwise Before) (hcodes : ∀ x, x ∈ codes ↔ x ∈ roms) :
    ∃ search' wire', Fresh search' ∧ wire'.map Device.rom = roms ∧ ∀ calls,
      searchResults idealBus search wire (codes.length + 1 + calls) =
        codes ++ [onewireNone] ++ searchResults idealBus search' wire' calls := by
  cases codes with
  | nil =>
    have hempty : roms = [] := List.eq_nil_iff_forall_not_mem.mpr fun x hx =>
      nomatch (hcodes x).mpr hx
    obtain ⟨search', hcall, hfresh⟩ := h.call_empty hwire hempty
    refine ⟨search', wire, hfresh, hwire, fun calls => ?_⟩
    rw [List.length_nil, Nat.zero_add, Nat.add_comm, searchResults_succ hcall]
    rfl
  | cons r rest =>
    obtain ⟨first, search₁, wire₁, hcall, hwire₁, hreported, hleast⟩ :=
      h.call hwire hfamily (List.ne_nil_of_mem ((hcodes r).mp List.mem_cons_self))
    obtain ⟨rfl, hlater, hrest⟩ := sorted_cons_least hsorted hcodes hreported.mem hleast
    obtain ⟨search', wire', hfresh, hwire', hresults⟩ :=
      hreported.results hwire₁ hfamily hlater hrest
    refine ⟨search', wire', hfresh, hwire', fun calls => ?_⟩
    rw [List.length_cons, Nat.add_right_comm _ 1 calls, Nat.add_right_comm _ 1 calls,
      searchResults_succ hcall, Nat.add_right_comm, hresults]
    rfl

/-- Round after round the enumeration is the same. -/
theorem Fresh.rounds (h : Fresh search) {codes : List (BitVec 64)}
    (hsorted : codes.Pairwise Before) (hcodes : ∀ x, x ∈ codes ↔ x ∈ roms) (rounds : ℕ) :
    searchResults idealBus search wire (rounds * (codes.length + 1)) =
      (List.replicate rounds (codes ++ [onewireNone])).flatten := by
  induction rounds generalizing search wire with
  | zero => rw [Nat.zero_mul, searchResults, List.replicate_zero, List.flatten_nil]
  | succ rounds ih =>
    obtain ⟨search', wire', hfresh, hwire', hresults⟩ := h.results hwire hfamily hsorted hcodes
    rw [Nat.succ_mul, Nat.add_comm, hresults, ih hwire' hfresh, List.replicate_succ,
      List.flatten_cons]

end Calls

/-- Distinct codes can be brought into the order of the enumeration. -/
theorem exists_sorted {roms : List (BitVec 64)} (hnodup : roms.Nodup) :
    ∃ codes : List (BitVec 64), codes.Perm roms ∧ codes.Pairwise Before := by
  classical
  let le (x y : BitVec 64) : Prop := toLex (bits x) ≤ toLex (bits y)
  have : Std.Total le := ⟨fun x y => le_total (toLex (bits x)) (toLex (bits y))⟩
  have : IsTrans (BitVec 64) le := ⟨fun _ _ _ => le_trans⟩
  have hperm := List.perm_insertionSort le roms
  refine ⟨_, hperm, ?_⟩
  refine ((List.pairwise_insertionSort le roms).and (hperm.nodup_iff.mpr hnodup)).imp ?_
  rintro x y ⟨hle, hne⟩
  exact lt_of_le_of_ne hle fun heq => hne (bits_inj (toLex.injective heq))

/-- On an ideal bus with distinct codes whose family code is not 0, a search from the
start returns every code once, then `ONEWIRE_NONE`, and then the same again. -/
theorem search_enumerates {roms : List (BitVec 64)} (hnodup : roms.Nodup)
    (hfamily : ∀ rom ∈ roms, rom.setWidth 8 ≠ 0) {wire : List Device}
    (hwire : wire.map Device.rom = roms) (search : OnewireSearch) :
    ∃ codes : List (BitVec 64), codes.Perm roms ∧ ∀ rounds,
      searchResults idealBus (onewireSearchStart search) wire (rounds * (roms.length + 1)) =
        (List.replicate rounds (codes ++ [onewireNone])).flatten := by
  obtain ⟨codes, hperm, hsorted⟩ := exists_sorted hnodup
  have hfresh : Fresh (onewireSearchStart search) := ⟨rfl, rfl⟩
  refine ⟨codes, hperm, fun rounds => ?_⟩
  rw [← hperm.length_eq]
  exact hfresh.rounds hwire hfamily hsorted (fun _ => hperm.mem_iff) rounds

/-- Two thermometers that differ in their second byte. -/
def thermometers : List (BitVec 64) := [0x128#64, 0x28#64]

theorem search_enumerates_thermometers :
    ∃ codes : List (BitVec 64), codes.Perm thermometers ∧ ∀ rounds,
      searchResults idealBus (onewireSearchStart ⟨fun _ => 0xff, 7, true⟩)
          (thermometers.map fun rom => ⟨rom, .idle⟩) (rounds * (thermometers.length + 1)) =
        (List.replicate rounds (codes ++ [onewireNone])).flatten := by
  have hwire : (thermometers.map fun rom => (⟨rom, .idle⟩ : Device)).map Device.rom =
      thermometers := rfl
  have hfamily : ∀ rom ∈ thermometers, rom.setWidth 8 ≠ 0 :=
    List.forall_mem_cons.mpr ⟨by decide, List.forall_mem_singleton.mpr (by decide)⟩
  exact search_enumerates (by decide) hfamily hwire _

end EspOpenRtos.OneWire
