/-
# What the verifier reads

`rboot_verify_image` trusts the lengths in the headers of sections as far as their end,
computed in 32 bits, lies within its limit. As long as no section ends behind the last
address, this keeps all reads near the image. A length that wraps around passes the
check as well: of an ordinary section it makes the verifier sum up nearly the whole
address space, of the section in front of a version 1.2 image it can lead back to
before the image.
-/

import EspOpenRtos.Rboot.Walk
import Mathlib.Algebra.Order.BigOperators.Group.List

namespace EspOpenRtos.Rboot

open Math.NorFlash

/-! ## The reads of a call -/

/-- The round gets past its checks of the length. -/
def Consumed (f : Image) (endLimit : ℕ) (st : VerifyState) : Prop :=
  u32 (readSectionLength f st.offset + u32 (st.offset + sectionHeaderSize)) ≤ endLimit ∧
    readSectionLength f st.offset % 4 = 0

instance (f : Image) (endLimit : ℕ) (st : VerifyState) : Decidable (Consumed f endLimit st) :=
  inferInstanceAs (Decidable (_ ∧ _))

/-- Where the data of the section at the current offset ends. -/
def dataEnd (f : Image) (st : VerifyState) : ℕ :=
  pad 4 (u32 (u32 (st.offset + sectionHeaderSize) + readSectionLength f st.offset))

/-- The reads of the loop over the data of a section, as address and size. -/
def chunkReads (offset length : ℕ) : List (ℕ × ℕ) :=
  ((List.range length).filter (· % 16 = 0)).map fun i => (u32 (offset + i), 16)

/-- The reads of one round of the loop over the sections. -/
def roundReads (f : Image) (endLimit : ℕ) (st : VerifyState) : List (ℕ × ℕ) :=
  (st.offset, sectionHeaderSize) ::
    if Consumed f endLimit st then
      if st.isNewHeader then [(pad 16 (dataEnd f st), imageHeaderSize)]
      else chunkReads (u32 (st.offset + sectionHeaderSize)) (readSectionLength f st.offset)
    else []

/-- The bytes that one round adds to the checksum. -/
def roundSummed (f : Image) (endLimit : ℕ) (st : VerifyState) : ℕ :=
  if Consumed f endLimit st then
    if st.isNewHeader then 0 else readSectionLength f st.offset
  else 0

/-- The states at the start of the rounds. -/
def visited (f : Image) (endLimit : ℕ) (st : VerifyState) : List VerifyState :=
  if _hpos : 0 < st.remainingSections ∧ st.offset < endLimit then
    match _hround : verifySection f endLimit st with
    | .next st' => st :: visited f endLimit st'
    | .stop _ => [st]
    | .fail _ _ => [st]
  else []
termination_by st.rank
decreasing_by exact rank_lt_of_next _hpos.1 _hround

/-- The state at the start of the loop. -/
def startState (f : Image) (initialOffset : ℕ) : VerifyState :=
  ⟨u32 (initialOffset + imageHeaderSize), (readImageHeader f initialOffset).sectionCount.toNat,
    chksumInit, (readImageHeader f initialOffset).magic = romMagicNew⟩

/-- The rounds of a call. -/
def visitedFrom (f : Image) (initialOffset : ℕ) : List VerifyState :=
  let magic := (readImageHeader f initialOffset).magic
  if initialOffset % 4 ≠ 0 ∨ magic ≠ romMagicOld ∧ magic ≠ romMagicNew then []
  else visited f (u32 (initialOffset + maxImageSize)) (startState f initialOffset)

/-- The read of the checksum behind the loop. -/
def endReads (f : Image) (initialOffset : ℕ) : List (ℕ × ℕ) :=
  let magic := (readImageHeader f initialOffset).magic
  if magic ≠ romMagicOld ∧ magic ≠ romMagicNew then []
  else
    match verifySections f (u32 (initialOffset + maxImageSize)) (startState f initialOffset) with
    | .error _ => []
    | .ok st =>
      if st.remainingSections > 0 then []
      else [(u32 (pad 16 (u32 (st.offset + 1)) + 2 ^ 32 - 1), 1)]

/-- All reads of a call of `rboot_verify_image`. -/
def verifyReads (f : Image) (initialOffset : ℕ) : List (ℕ × ℕ) :=
  if initialOffset % 4 ≠ 0 then []
  else (initialOffset, imageHeaderSize) ::
    ((visitedFrom f initialOffset).flatMap (roundReads f (u32 (initialOffset + maxImageSize))) ++
      endReads f initialOffset)

/-- The number of bytes that a call adds to the checksum. -/
def verifySummed (f : Image) (initialOffset : ℕ) : ℕ :=
  ((visitedFrom f initialOffset).map (roundSummed f (u32 (initialOffset + maxImageSize)))).sum

/-- The call reads nothing far from the image and sums up no more than an image can have. -/
structure Bounded (f : Image) (initialOffset : ℕ) : Prop where
  reads : ∀ r ∈ verifyReads f initialOffset,
    initialOffset ≤ r.1 ∧ r.1 + r.2 ≤ initialOffset + maxImageSize + 32
  summed : verifySummed f initialOffset ≤ maxImageSize

/-- The section at the current offset ends behind the last address, passes the checks, and
is summed up or leads to before the image. -/
def Escapes (f : Image) (initialOffset : ℕ) (st : VerifyState) : Prop :=
  Consumed f (u32 (initialOffset + maxImageSize)) st ∧
    2 ^ 32 ≤ st.offset + sectionHeaderSize + readSectionLength f st.offset ∧
    (st.isNewHeader = true → pad 16 (dataEnd f st) < initialOffset)

/-! ## One round -/

section Round

variable {f : Image} {initialOffset endLimit : ℕ} {st st' : VerifyState}

/-- What a round that goes on has done. -/
theorem next_cases (h : verifySection f endLimit st = .next st') :
    Consumed f endLimit st ∧ st'.isNewHeader = false ∧ st'.offset =
      if st.isNewHeader then u32 (pad 16 (dataEnd f st) + imageHeaderSize) else dataEnd f st := by
  unfold verifySection at h
  dsimp only at h
  split at h
  · nomatch h
  next hlimit =>
    split at h
    · nomatch h
    next hmod =>
      have hconsumed : Consumed f endLimit st := ⟨Nat.le_of_not_lt hlimit, not_not.mp hmod⟩
      split at h
      case isTrue hnew =>
        split at h
        · nomatch h
        · obtain rfl := Round.next.inj h
          exact ⟨hconsumed, rfl, (if_pos hnew).symm⟩
      case isFalse hold =>
        obtain rfl := Round.next.inj h
        exact ⟨hconsumed, rfl, (if_neg hold).symm⟩

/-- A state of the loop that is near the image. Behind a second header the offset can lie a
little behind the limit. -/
structure Near (initialOffset : ℕ) (st : VerifyState) : Prop where
  low : initialOffset ≤ st.offset
  aligned : st.offset % 4 = 0
  high : st.offset ≤ initialOffset + maxImageSize ∨
    st.offset % 16 = 8 ∧ st.offset ≤ initialOffset + maxImageSize + 20

variable (haligned : initialOffset % 4 = 0) (hlow : initialOffset ≤ 2 ^ 24)
include haligned hlow

/-- The end of a section that has been consumed, unless it escapes. -/
theorem dataEnd_of_consumed (hnear : Near initialOffset st)
    (hlt : st.offset < initialOffset + maxImageSize)
    (hconsumed : Consumed f (u32 (initialOffset + maxImageSize)) st) :
    dataEnd f st % 4 = 0 ∧ dataEnd f st ≤ initialOffset + maxImageSize ∧
      (st.offset + sectionHeaderSize + readSectionLength f st.offset < 2 ^ 32 →
        dataEnd f st = st.offset + sectionHeaderSize + readSectionLength f st.offset) := by
  obtain ⟨hlimit, hmod⟩ := hconsumed
  have hoffset := hnear.aligned
  simp only [dataEnd, pad, u32, maxImageSize, sectionHeaderSize] at *
  omega

variable (hnear : Near initialOffset st) (hlt : st.offset < initialOffset + maxImageSize)
  (hsafe : ¬Escapes f initialOffset st)
include hnear hlt hsafe

/-- The data of a section that is summed up ends before the limit. -/
theorem dataEnd_of_old (hconsumed : Consumed f (u32 (initialOffset + maxImageSize)) st)
    (hold : st.isNewHeader = false) :
    dataEnd f st = st.offset + sectionHeaderSize + readSectionLength f st.offset := by
  refine (dataEnd_of_consumed haligned hlow hnear hlt hconsumed).2.2 (Nat.lt_of_not_le fun hwrap => ?_)
  exact hsafe ⟨hconsumed, hwrap, fun hnew => absurd hnew (by rw [hold]; decide)⟩

/-- The second header lies near the image. -/
theorem pad_dataEnd (hconsumed : Consumed f (u32 (initialOffset + maxImageSize)) st) :
    initialOffset ≤ pad 16 (dataEnd f st) ∧
      pad 16 (dataEnd f st) ≤ initialOffset + maxImageSize + 12 ∧ pad 16 (dataEnd f st) % 16 = 0 := by
  obtain ⟨hmod, hhigh, hend⟩ := dataEnd_of_consumed haligned hlow hnear hlt hconsumed
  have hpad : dataEnd f st ≤ pad 16 (dataEnd f st) ∧
      pad 16 (dataEnd f st) ≤ initialOffset + maxImageSize + 12 ∧
      pad 16 (dataEnd f st) % 16 = 0 := by
    simp only [pad, u32, maxImageSize] at *
    omega
  refine ⟨?_, hpad.2⟩
  by_contra hbefore
  have hnowrap : st.offset + sectionHeaderSize + readSectionLength f st.offset < 2 ^ 32 :=
    Nat.lt_of_not_le fun hwrap => hsafe ⟨hconsumed, hwrap, fun _ => Nat.lt_of_not_le hbefore⟩
  have hlow := hnear.low
  have := hend hnowrap
  omega

theorem Near.next (hnext : verifySection f (u32 (initialOffset + maxImageSize)) st = .next st') :
    Near initialOffset st' := by
  obtain ⟨hconsumed, -, hoffset⟩ := next_cases hnext
  cases hnew : st.isNewHeader with
  | true =>
    obtain ⟨hbefore, hbehind, hmod⟩ :=
      pad_dataEnd haligned hlow hnear hlt hsafe hconsumed
    rw [if_pos hnew, imageHeaderSize, u32_of_lt (by rw [maxImageSize] at *; omega)] at hoffset
    exact ⟨by omega, by omega, .inr ⟨by omega, by omega⟩⟩
  | false =>
    obtain ⟨hmod, hhigh, -⟩ := dataEnd_of_consumed haligned hlow hnear hlt hconsumed
    have hend := dataEnd_of_old haligned hlow hnear hlt hsafe hconsumed hnew
    rw [hnew, if_neg Bool.false_ne_true] at hoffset
    have hlow := hnear.low
    exact ⟨by omega, by omega, .inl (by omega)⟩

/-- The reads of a round. -/
theorem roundReads_near {r : ℕ × ℕ}
    (hr : r ∈ roundReads f (u32 (initialOffset + maxImageSize)) st) :
    initialOffset ≤ r.1 ∧ r.1 + r.2 ≤ initialOffset + maxImageSize + 32 := by
  have hoffset := hnear.low
  rw [roundReads] at hr
  rcases List.mem_cons.mp hr with rfl | hr
  · rw [sectionHeaderSize]
    dsimp only
    omega
  split_ifs at hr with hconsumed hnew
  · obtain ⟨hbefore, hbehind, -⟩ :=
      pad_dataEnd haligned hlow hnear hlt hsafe hconsumed
    rw [List.mem_singleton.mp hr, imageHeaderSize]
    dsimp only
    omega
  · have hold := Bool.eq_false_of_not_eq_true hnew
    have hend := dataEnd_of_old haligned hlow hnear hlt hsafe hconsumed hold
    have hhigh := (dataEnd_of_consumed haligned hlow hnear hlt hconsumed).2.1
    obtain ⟨i, hi, rfl⟩ := List.mem_map.mp hr
    obtain ⟨hrange, hchunk⟩ := List.mem_filter.mp hi
    have hlast := List.mem_range.mp hrange
    have hzero : i % 16 = 0 := of_decide_eq_true hchunk
    have hmod := hconsumed.2
    rw [sectionHeaderSize] at hend ⊢
    rw [maxImageSize] at hlt hhigh ⊢
    rw [u32_of_lt (n := st.offset + 8) (by omega), u32_of_lt (by omega)]
    dsimp only
    omega
  · cases hr

/-- What a round sums up lies before the limit. -/
theorem roundSummed_le (hold : st.isNewHeader = false) :
    st.offset + roundSummed f (u32 (initialOffset + maxImageSize)) st ≤
      initialOffset + maxImageSize := by
  rw [roundSummed]
  split_ifs with hconsumed hnew
  · exact hlt.le
  · have hend := dataEnd_of_old haligned hlow hnear hlt hsafe hconsumed hold
    have hhigh := (dataEnd_of_consumed haligned hlow hnear hlt hconsumed).2.1
    omega
  · exact hlt.le

/-- The next section stands behind what has been summed up. -/
theorem offset_of_next (hold : st.isNewHeader = false)
    (hnext : verifySection f (u32 (initialOffset + maxImageSize)) st = .next st') :
    st.offset + roundSummed f (u32 (initialOffset + maxImageSize)) st ≤ st'.offset := by
  obtain ⟨hconsumed, -, hoffset⟩ := next_cases hnext
  rw [hold, if_neg Bool.false_ne_true,
    dataEnd_of_old haligned hlow hnear hlt hsafe hconsumed hold] at hoffset
  rw [roundSummed, if_pos hconsumed, hold, if_neg Bool.false_ne_true]
  omega

end Round

/-! ## The loop -/

section Loop

variable {f : Image} {initialOffset : ℕ} {st st' : VerifyState}

theorem roundSummed_of_new {endLimit : ℕ} (hnew : st.isNewHeader = true) :
    roundSummed f endLimit st = 0 := by
  rw [roundSummed, if_pos hnew, ite_self]

theorem u32_limit (hlow : initialOffset ≤ 2 ^ 24) :
    u32 (initialOffset + maxImageSize) = initialOffset + maxImageSize :=
  u32_of_lt (by rw [maxImageSize]; omega)

theorem mem_visited_self {endLimit : ℕ} (hpos : 0 < st.remainingSections ∧ st.offset < endLimit) :
    st ∈ visited f endLimit st := by
  rw [visited, dif_pos hpos]
  split
  · exact List.mem_cons_self
  · exact List.mem_cons_self
  · exact List.mem_cons_self

theorem lt_of_mem_visited {endLimit : ℕ} (h : st' ∈ visited f endLimit st) : st'.offset < endLimit := by
  fun_induction visited f endLimit st with
  | case1 st hpos st₁ hround ih =>
    rcases List.mem_cons.mp h with rfl | hlater
    · exact hpos.2
    · exact ih hlater
  | case2 st hpos | case3 st hpos => exact List.mem_singleton.mp h ▸ hpos.2
  | case4 => nomatch h

variable (haligned : initialOffset % 4 = 0) (hlow : initialOffset ≤ 2 ^ 24)
include haligned hlow

section

variable (hnear : Near initialOffset st)
  (hsafe : ∀ s ∈ visited f (u32 (initialOffset + maxImageSize)) st, ¬Escapes f initialOffset s)
include hnear hsafe

/-- As long as no section escapes, every round starts near the image. -/
theorem near_of_mem_visited (h : st' ∈ visited f (u32 (initialOffset + maxImageSize)) st) :
    Near initialOffset st' := by
  have hlimit := u32_limit hlow
  fun_induction visited f (u32 (initialOffset + maxImageSize)) st with
  | case1 st hpos st₁ hround ih =>
    obtain ⟨hst, hlater⟩ := List.forall_mem_cons.mp hsafe
    rcases List.mem_cons.mp h with rfl | h
    · exact hnear
    · exact ih (hnear.next haligned hlow (hlimit ▸ hpos.2) hst hround) hlater h
  | case2 st hpos | case3 st hpos => exact List.mem_singleton.mp h ▸ hnear
  | case4 => nomatch h

/-- So does the part behind the loop, if no section is left over. -/
theorem near_of_done (hok : verifySections f (u32 (initialOffset + maxImageSize)) st = .ok st')
    (hdone : st'.remainingSections = 0) : Near initialOffset st' := by
  have hlimit := u32_limit hlow
  fun_induction visited f (u32 (initialOffset + maxImageSize)) st with
  | case1 st hpos st₁ hround ih =>
    obtain ⟨hst, hlater⟩ := List.forall_mem_cons.mp hsafe
    rw [verifySections_next hpos.1 hpos.2 hround] at hok
    exact ih (hnear.next haligned hlow (hlimit ▸ hpos.2) hst hround) hlater hok
  | case2 st hpos st₁ hround | case3 st hpos offset error hround =>
    rcases verifySections_cases hok hdone with ⟨hzero, -⟩ | ⟨st₂, -, -, hnext, -⟩
    · omega
    · rw [hround] at hnext
      nomatch hnext
  | case4 st hstop =>
    rcases verifySections_cases hok hdone with ⟨-, rfl⟩ | ⟨st₂, hpos, hlt, -, -⟩
    · exact hnear
    · exact absurd ⟨hpos, hlt⟩ hstop

end

/-- The last round. -/
theorem sum_singleton_le (hnear : Near initialOffset st)
    (hlt : st.offset < initialOffset + maxImageSize) (hsafe : ¬Escapes f initialOffset st) :
    ([st].map (roundSummed f (u32 (initialOffset + maxImageSize)))).sum ≤
      if st.isNewHeader then maxImageSize else initialOffset + maxImageSize - st.offset := by
  rw [List.map_singleton, List.sum_singleton]
  cases hnew : st.isNewHeader with
  | true =>
    rw [roundSummed_of_new hnew]
    exact Nat.zero_le _
  | false =>
    have hround := roundSummed_le haligned hlow hnear hlt hsafe hnew
    rw [if_neg Bool.false_ne_true]
    omega

/-- All rounds together sum up no more than lies before the limit. -/
theorem sum_roundSummed_le (hnear : Near initialOffset st)
    (hsafe : ∀ s ∈ visited f (u32 (initialOffset + maxImageSize)) st, ¬Escapes f initialOffset s) :
    ((visited f (u32 (initialOffset + maxImageSize)) st).map
      (roundSummed f (u32 (initialOffset + maxImageSize)))).sum ≤
        if st.isNewHeader then maxImageSize else initialOffset + maxImageSize - st.offset := by
  have hlimit := u32_limit hlow
  fun_induction visited f (u32 (initialOffset + maxImageSize)) st with
  | case1 st hpos st₁ hround ih =>
    obtain ⟨hst, hlater⟩ := List.forall_mem_cons.mp hsafe
    have hlt : st.offset < initialOffset + maxImageSize := hlimit ▸ hpos.2
    have hnear' := hnear.next haligned hlow hlt hst hround
    have hrest := ih hnear' hlater
    rw [(next_cases hround).2.1, if_neg Bool.false_ne_true] at hrest
    rw [List.map_cons, List.sum_cons]
    cases hnew : st.isNewHeader with
    | true =>
      have hlow' := hnear'.low
      rw [roundSummed_of_new hnew, if_pos rfl]
      omega
    | false =>
      have hoffset := offset_of_next haligned hlow hnear hlt hst hnew hround
      have hround := roundSummed_le haligned hlow hnear hlt hst hnew
      rw [if_neg Bool.false_ne_true]
      omega
  | case2 st hpos | case3 st hpos =>
    exact sum_singleton_le haligned hlow hnear (hlimit ▸ hpos.2) (hsafe st List.mem_cons_self)
  | case4 => exact Nat.zero_le _

end Loop

/-! ## The call -/

section Call

variable {f : Image} {initialOffset : ℕ} {st : VerifyState}

theorem near_startState (haligned : initialOffset % 4 = 0) (hlow : initialOffset ≤ 2 ^ 24) :
    Near initialOffset (startState f initialOffset) := by
  have hoffset : (startState f initialOffset).offset = initialOffset + 8 :=
    u32_of_lt (by rw [imageHeaderSize]; omega)
  exact ⟨by omega, by omega, .inl (by rw [hoffset, maxImageSize]; omega)⟩

/-- The read of the checksum. -/
theorem endReads_near (haligned : initialOffset % 4 = 0) (hlow : initialOffset ≤ 2 ^ 24)
    (hsafe : ∀ s ∈ visited f (u32 (initialOffset + maxImageSize)) (startState f initialOffset),
      ¬Escapes f initialOffset s) {r : ℕ × ℕ} (hr : r ∈ endReads f initialOffset) :
    initialOffset ≤ r.1 ∧ r.1 + r.2 ≤ initialOffset + maxImageSize + 32 := by
  rw [endReads] at hr
  split at hr
  · nomatch hr
  split at hr
  · nomatch hr
  next st hok =>
    split at hr
    · nomatch hr
    next hnone =>
      have hdone : st.remainingSections = 0 := Nat.eq_zero_of_not_pos hnone
      obtain ⟨hbefore, hmod, hbehind⟩ :=
        near_of_done haligned hlow (near_startState haligned hlow) hsafe hok hdone
      rw [List.mem_singleton.mp hr]
      simp only [pad, u32, maxImageSize] at *
      omega

/-- One section that escapes breaks the bounds. -/
theorem not_bounded_of_escapes (hlow : initialOffset ≤ 2 ^ 24) (haligned : initialOffset % 4 = 0)
    (hst : st ∈ visitedFrom f initialOffset)
    (hlt : st.offset < initialOffset + maxImageSize) (hescapes : Escapes f initialOffset st) :
    ¬Bounded f initialOffset := by
  intro hbounded
  obtain ⟨hconsumed, hwrap, hbefore⟩ := hescapes
  cases hnew : st.isNewHeader with
  | true =>
    have hread : (pad 16 (dataEnd f st), imageHeaderSize) ∈ verifyReads f initialOffset := by
      rw [verifyReads, if_neg (not_not.mpr haligned)]
      refine List.mem_cons_of_mem _ (List.mem_append_left _ (List.mem_flatMap.mpr ⟨st, hst, ?_⟩))
      rw [roundReads, if_pos hconsumed, if_pos hnew]
      exact List.mem_cons_of_mem _ (List.mem_singleton_self _)
    exact absurd (hbounded.reads _ hread).1 (Nat.not_le.mpr (hbefore hnew))
  | false =>
    have hsum : roundSummed f (u32 (initialOffset + maxImageSize)) st ≤ verifySummed f initialOffset :=
      List.le_sum_of_mem (List.mem_map_of_mem hst)
    have hsmall := hbounded.summed
    rw [roundSummed, if_pos hconsumed, hnew, if_neg Bool.false_ne_true] at hsum
    rw [sectionHeaderSize] at hwrap
    rw [maxImageSize] at hsmall hlt
    omega

end Call

/-- The verifier stays near the image exactly if it comes upon no section whose end wraps
around and that is summed up or leads to before the image. -/
theorem verify_bounded_iff (f : Image) (initialOffset : ℕ) (haligned : initialOffset % 4 = 0)
    (hlow : initialOffset ≤ 2 ^ 24) :
    Bounded f initialOffset ↔ ∀ st ∈ visitedFrom f initialOffset, ¬Escapes f initialOffset st := by
  have hlimit := u32_limit hlow
  have hstart := near_startState (f := f) haligned hlow
  constructor
  · intro hbounded st hst hescapes
    refine not_bounded_of_escapes hlow haligned hst ?_ hescapes hbounded
    rw [visitedFrom] at hst
    split at hst
    · nomatch hst
    · exact hlimit ▸ lt_of_mem_visited hst
  · intro hsafe
    by_cases hmagic : (readImageHeader f initialOffset).magic ≠ romMagicOld ∧
        (readImageHeader f initialOffset).magic ≠ romMagicNew
    · have hnone : visitedFrom f initialOffset = [] := if_pos (.inr hmagic)
      have hend : endReads f initialOffset = [] := if_pos hmagic
      refine ⟨fun r hr => ?_, by rw [verifySummed, hnone]; exact Nat.zero_le _⟩
      rw [verifyReads, if_neg (not_not.mpr haligned), hnone, hend] at hr
      rw [List.mem_singleton.mp hr, imageHeaderSize]
      dsimp only
      omega
    · have hvisited : visitedFrom f initialOffset =
          visited f (u32 (initialOffset + maxImageSize)) (startState f initialOffset) :=
        if_neg (not_or.mpr ⟨not_not.mpr haligned, hmagic⟩)
      rw [hvisited] at hsafe
      refine ⟨fun r hr => ?_, ?_⟩
      · rw [verifyReads, if_neg (not_not.mpr haligned), hvisited] at hr
        rcases List.mem_cons.mp hr with rfl | hr
        · rw [imageHeaderSize]
          dsimp only
          omega
        rcases List.mem_append.mp hr with hround | hend
        · obtain ⟨st, hst, hr⟩ := List.mem_flatMap.mp hround
          have hnear := near_of_mem_visited haligned hlow hstart hsafe hst
          exact roundReads_near haligned hlow hnear (hlimit ▸ lt_of_mem_visited hst) (hsafe st hst) hr
        · exact endReads_near haligned hlow hsafe hend
      · have hsum := sum_roundSummed_le haligned hlow hstart hsafe
        have hoffset := hstart.low
        rw [verifySummed, hvisited]
        refine hsum.trans ?_
        split
        · exact Nat.le_refl _
        · omega

/-- Flash with an image of two sections in the first slot. -/
def twoSections : Image := fun a =>
  [0xe9, 2, 0, 0, 0, 0, 0, 0, 0, 0, 0, 0, 4, 0, 0, 0, 1, 2, 3, 4, 0, 0, 0, 0, 4, 0, 0, 0, 5, 6, 7,
    8].getD (a - 0x2000) 0xFF

/-- The verifier walks over both sections and stays near them. -/
theorem verify_bounded_twoSections : (visitedFrom twoSections 0x2000).length = 2 ∧
    verifySummed twoSections 0x2000 = 8 ∧ Bounded twoSections 0x2000 := by
  have hends : ∀ st ∈ visitedFrom twoSections 0x2000,
      ¬2 ^ 32 ≤ st.offset + sectionHeaderSize + readSectionLength twoSections st.offset := by
    decide +kernel
  exact ⟨by decide +kernel, by decide +kernel, (verify_bounded_iff _ 0x2000 (by decide) (by decide)).mpr
    fun st hst hescapes => hends st hst hescapes.2.1⟩

/-- A version 1.1 image with one section, whose length is sixteen less than the size of the
address space. -/
def wrappingImage : Image := fun a =>
  [0xe9, 1, 0, 0, 0, 0, 0, 0, 0, 0, 0, 0, 0xF0, 0xFF, 0xFF, 0xFF].getD a 0xFF

/-- Its section ends at address zero, and all of it is summed up. -/
theorem wrapping_section_summed : ¬Bounded wrappingImage 0 := by
  have hlength : readSectionLength wrappingImage 8 = 4294967280 := by decide
  have hpos : 0 < (startState wrappingImage 0).remainingSections ∧
      (startState wrappingImage 0).offset < u32 (0 + maxImageSize) := by decide
  have hmem : startState wrappingImage 0 ∈ visitedFrom wrappingImage 0 := by
    rw [visitedFrom, if_neg (by decide)]
    exact mem_visited_self hpos
  have hoffset : (startState wrappingImage 0).offset = 8 := rfl
  refine not_bounded_of_escapes (Nat.zero_le _) rfl hmem (by decide) ⟨?_, ?_, nofun⟩
  · rw [Consumed, hoffset, hlength]
    decide
  · rw [hoffset, hlength]
    decide

end EspOpenRtos.Rboot
