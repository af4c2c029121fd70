/-
# The walk over the sections

One round of the verifier's loop consumes one section. The sections it consumes
are those that the flash holds, at positions that are only known modulo the size of
the address space: a section whose end does not fit in 32 bits passes the limit
check when its residue does.
-/

import EspOpenRtos.Rboot.Verify

namespace EspOpenRtos.Rboot

open Math Math.NorFlash

/-! ## Arithmetic of offsets -/

theorem u32_lt (n : ℕ) : u32 n < 2 ^ 32 := Nat.mod_lt _ (by decide)

theorem u32_of_lt {n : ℕ} (h : n < 2 ^ 32) : u32 n = n := Nat.mod_eq_of_lt h

@[simp]
theorem u32_u32_add (m n : ℕ) : u32 (u32 m + n) = u32 (m + n) := Nat.mod_add_mod ..

@[simp]
theorem u32_add_u32 (m n : ℕ) : u32 (m + u32 n) = u32 (m + n) := Nat.add_mod_mod ..

/-- Padding does nothing to an offset that is aligned already. -/
theorem pad_of_aligned {a n : ℕ} (ha : a = 4 ∨ a = 16) (hn : n % a = 0) : pad a (u32 n) = u32 n := by
  have hmod : u32 n % a = n % a :=
    Nat.mod_mod_of_dvd n (by rcases ha with rfl | rfl <;> decide)
  have hlt := u32_lt n
  unfold pad
  rw [u32_of_lt (by rcases ha with rfl | rfl <;> omega)]
  rcases ha with rfl | rfl <;> omega

/-- Padding to sixteen bytes, away from the end of the address space. -/
theorem pad_sixteen {offset m : ℕ} (haligned : offset % 16 = 0) (h : u32 (offset + m) + 16 ≤ 2 ^ 32) :
    pad 16 (u32 (offset + m)) = u32 (offset + alignUp 16 m) := by
  unfold pad alignUp u32 at *
  omega

section Flash

variable {f : Image} {p n : ℕ}

theorem read_wrapped_u32 (f : Image) (p n : ℕ) :
    read (wrapped f) (u32 p) n = read (wrapped f) p n := by
  refine List.map_congr_left fun i _ => ?_
  exact congrArg f (u32_u32_add p i)

/-- The chunks of sixteen bytes are read so that each byte of the section is counted
once. -/
theorem checksumByte_foldl (f : Image) (p : ℕ) (checksum : UInt8) (n : ℕ) :
    ((List.range n).foldl (checksumByte f (u32 p)) ([], checksum)).2 =
        (read (wrapped f) p n).foldl (· ^^^ ·) checksum ∧
      (n % 16 ≠ 0 → ((List.range n).foldl (checksumByte f (u32 p)) ([], checksum)).1 =
        read (wrapped f) (p + n / 16 * 16) 16) := by
  induction n with
  | zero => exact ⟨rfl, fun h => absurd rfl h⟩
  | succ n ih =>
    obtain ⟨hchecksum, hchunk⟩ := ih
    rw [List.range_succ, List.foldl_append]
    generalize (List.range n).foldl (checksumByte f (u32 p)) ([], checksum) = st at *
    have hload : (if n % 16 = 0 then read (wrapped f) (u32 (u32 p + n)) 16 else st.1) =
        read (wrapped f) (p + n / 16 * 16) 16 := by
      split
      case isTrue haligned =>
        rw [u32_u32_add, read_wrapped_u32]
        congr 1
        omega
      case isFalse hinside => exact hchunk hinside
    have hbyte : (read (wrapped f) (p + n / 16 * 16) 16).getD (n % 16) 0 =
        wrapped f (p + n) := by
      rw [getD_read (Nat.mod_lt _ (by decide))]
      congr 1
      omega
    have hsucc : read (wrapped f) p (n + 1) = read (wrapped f) p n ++ [wrapped f (p + n)] := by
      rw [read_add]
      rfl
    simp only [List.foldl_cons, List.foldl_nil, checksumByte, hload, hbyte, hsucc, hchecksum,
      List.foldl_append, true_and]
    intro hinside
    congr 2
    omega

end Flash

/-! ## Sections in flash -/

section Sections

variable {f g : Image} {p : ℕ}

/-- The flash holds a section exactly when it holds its header and its data. -/
theorem read_section_iff {s : Section} : read g p s.bytes.length = s.bytes ↔
    read g p 4 = LittleEndian.encode 4 s.loadAddr.toNat ∧
      read g (p + 4) 4 = LittleEndian.encode 4 s.data.length ∧
      read g (p + sectionHeaderSize) s.data.length = s.data := by
  rw [Section.bytes, read_eq_append_iff, read_eq_append_iff, List.length_append,
    LittleEndian.length_encode, LittleEndian.length_encode, and_assoc]
  rfl

theorem readSectionLength_eq (f : Image) (p : ℕ) :
    readSectionLength f (u32 p) = LittleEndian.decode (read (wrapped f) (p + 4) 4) := by
  rw [readSectionLength, drop_read (by decide), ← read_wrapped_u32 f (p + 4), ← u32_u32_add,
    read_wrapped_u32]
  rfl

/-- The header of a section that the flash holds gives its length. -/
theorem readSectionLength_of_holds {s : Section}
    (hholds : read (wrapped f) p s.bytes.length = s.bytes) :
    readSectionLength f (u32 p) = s.data.length := by
  rw [readSectionLength_eq, (read_section_iff.mp hholds).2.1, LittleEndian.decode_encode]
  exact Nat.mod_eq_of_lt s.length_lt

/-- The section that starts at a position. -/
def sectionAt (f : Image) (p : ℕ) (h : readSectionLength f (u32 p) % 4 = 0) : Section where
  loadAddr := .ofNat (LittleEndian.decode (read (wrapped f) p 4))
  data := read (wrapped f) (p + sectionHeaderSize) (readSectionLength f (u32 p))
  length_lt := by
    have hlt := LittleEndian.decode_lt (read (wrapped f) (p + 4) 4)
    rw [length_read] at hlt
    rw [length_read, readSectionLength_eq]
    exact hlt
  aligned := by rw [length_read]; exact h

theorem holds_sectionAt (f : Image) (p : ℕ) (h : readSectionLength f (u32 p) % 4 = 0) :
    read (wrapped f) p (sectionAt f p h).bytes.length = (sectionAt f p h).bytes := by
  have hword (bytes : List UInt8) (hlen : bytes.length = 4) :
      LittleEndian.encode 4 (LittleEndian.decode bytes) = bytes :=
    hlen ▸ LittleEndian.encode_decode bytes
  refine read_section_iff.mpr ⟨?_, ?_, ?_⟩
  · have hlt := LittleEndian.decode_lt (read (wrapped f) p 4)
    rw [length_read] at hlt
    rw [sectionAt, UInt32.toNat_ofNat_of_lt' hlt, hword _ length_read]
  · rw [sectionAt, length_read, readSectionLength_eq, hword _ length_read]
  · rw [sectionAt, length_read]

end Sections

/-! ## One round -/

section Rounds

variable {f : Image} {limit p n : ℕ} {checksum : UInt8}

/-- The end of the section that starts at a position, as its header gives it. -/
def sectionEnd (f : Image) (p : ℕ) : ℕ := p + (sectionHeaderSize + readSectionLength f (u32 p))

/-- The body of the loop in terms of positions. -/
theorem verifySection_eq (f : Image) (limit p n : ℕ) (checksum : UInt8) (isNew : Bool) :
    verifySection f limit ⟨u32 p, n, checksum, isNew⟩ =
      if u32 (sectionEnd f p) > limit then
        .stop ⟨u32 (p + sectionHeaderSize), n, checksum, isNew⟩
      else if readSectionLength f (u32 p) % 4 ≠ 0 then
        .fail (u32 (p + sectionHeaderSize)) .headerLengthNotModulo4
      else if isNew then
        let offset := pad 16 (pad 4 (u32 (sectionEnd f p)))
        if (readImageHeader f offset).magic ≠ romMagicOld then
          .fail (u32 (offset + imageHeaderSize)) .badSecondMagic
        else .next ⟨u32 (offset + imageHeaderSize),
          (readImageHeader f offset).sectionCount.toNat, checksum, false⟩
      else .next ⟨pad 4 (u32 (sectionEnd f p)), n - 1,
        (read (wrapped f) (p + sectionHeaderSize) (readSectionLength f (u32 p))).foldl
          (· ^^^ ·) checksum, false⟩ := by
  have hsum (length : ℕ) : u32 (length + u32 (u32 p + sectionHeaderSize)) =
      u32 (p + (sectionHeaderSize + length)) := by
    rw [u32_u32_add, u32_add_u32]
    congr 1
    ring
  have hnext (length : ℕ) : u32 (u32 (u32 p + sectionHeaderSize) + length) =
      u32 (p + (sectionHeaderSize + length)) := by
    rw [u32_u32_add, Nat.add_assoc, u32_u32_add]
  unfold verifySection sectionEnd
  dsimp only
  rw [hsum, hnext, u32_u32_add, checksumSection, (checksumByte_foldl _ _ _ _).1]
  cases isNew <;> rfl

theorem sectionEnd_of_holds {s : Section}
    (hholds : read (wrapped f) p s.bytes.length = s.bytes) :
    sectionEnd f p = p + s.bytes.length := by
  rw [sectionEnd, readSectionLength_of_holds hholds, s.length_bytes]

theorem sectionEnd_mod (hp : p % 4 = 0) (hlen : readSectionLength f (u32 p) % 4 = 0) :
    sectionEnd f p % 4 = 0 := by
  rw [sectionEnd, sectionHeaderSize]
  omega

/-- A section behind an old header is consumed. -/
theorem verifySection_old {s : Section} (hp : p % 4 = 0)
    (hholds : read (wrapped f) p s.bytes.length = s.bytes)
    (hend : u32 (p + s.bytes.length) ≤ limit) :
    verifySection f limit ⟨u32 p, n, checksum, false⟩ =
      .next ⟨u32 (p + s.bytes.length), n - 1, s.data.foldl (· ^^^ ·) checksum, false⟩ := by
  have hlen := readSectionLength_of_holds hholds
  have haligned : readSectionLength f (u32 p) % 4 = 0 := hlen ▸ s.aligned
  have hfour := sectionEnd_mod hp haligned
  rw [verifySection_eq, pad_of_aligned (.inl rfl) hfour, if_neg (not_not.mpr haligned), hlen,
    (read_section_iff.mp hholds).2.2, sectionEnd_of_holds hholds, if_neg (Nat.not_lt.mpr hend)]
  rfl

/-- Whatever is consumed is a section. -/
theorem section_of_next {st : VerifyState} {isNew : Bool}
    (hnext : verifySection f limit ⟨u32 p, n, checksum, isNew⟩ = .next st) :
    ∃ s : Section, read (wrapped f) p s.bytes.length = s.bytes ∧
      u32 (p + s.bytes.length) ≤ limit := by
  rw [verifySection_eq] at hnext
  split at hnext
  · nomatch hnext
  case isFalse hend =>
    split at hnext
    · nomatch hnext
    case isFalse haligned =>
      have hholds := holds_sectionAt f p (not_not.mp haligned)
      exact ⟨_, hholds, sectionEnd_of_holds hholds ▸ Nat.not_lt.mp hend⟩

/-- Leaving the loop early leaves sections over. -/
theorem remaining_of_stop {st st' : VerifyState} (hstop : verifySection f limit st = .stop st') :
    st'.remainingSections = st.remainingSections := by
  unfold verifySection at hstop
  dsimp only at hstop
  split at hstop
  · cases hstop
    rfl
  split at hstop
  · nomatch hstop
  split at hstop
  · split at hstop <;> nomatch hstop
  · nomatch hstop

end Rounds

/-! ## The loop -/

section Loop

variable {f : Image} {limit : ℕ} {st st' : VerifyState}

theorem verifySections_next (hpos : 0 < st.remainingSections) (hlimit : st.offset < limit)
    (hnext : verifySection f limit st = .next st') :
    verifySections f limit st = verifySections f limit st' := by
  rw [verifySections, dif_pos ⟨hpos, hlimit⟩]
  split
  case h_1 st₁ hround =>
    rw [hround] at hnext
    cases hnext
    rfl
  case h_2 hround => rw [hround] at hnext; cases hnext
  case h_3 hround => rw [hround] at hnext; cases hnext

theorem verifySections_done (hdone : st.remainingSections = 0) :
    verifySections f limit st = .ok st := by
  rw [verifySections, dif_neg (by omega)]

/-- A loop that leaves no section over has no section to consume or consumes one. -/
theorem verifySections_cases (hok : verifySections f limit st = .ok st')
    (hdone : st'.remainingSections = 0) :
    st.remainingSections = 0 ∧ st' = st ∨
      ∃ st₁, 0 < st.remainingSections ∧ st.offset < limit ∧
        verifySection f limit st = .next st₁ ∧ verifySections f limit st₁ = .ok st' := by
  rw [verifySections] at hok
  split at hok
  case isTrue hpos =>
    split at hok
    case h_1 st₁ hround => exact .inr ⟨st₁, hpos.1, hpos.2, hround, hok⟩
    case h_2 st₁ hround =>
      cases hok
      have := remaining_of_stop hround
      omega
    case h_3 => cases hok
  case isFalse hstop =>
    cases hok
    exact .inl ⟨hdone, rfl⟩

end Loop

end EspOpenRtos.Rboot
