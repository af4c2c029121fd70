/-
# What the verifier accepts

The verifier accepts every image that the flash holds and whose sections end
within a megabyte. It accepts two more kinds of content: a version 1.2 header that
announces no section at all, and an image with a section whose end wraps around the
32-bit address space and so appears to lie within the limit.
-/

import EspOpenRtos.Rboot.Walk

namespace EspOpenRtos.Rboot

open Math Math.NorFlash

/-! ## Lists of sections -/

/-- The sections pass the limit check of an image at `offset`, which only sees
residues. -/
def Passes (offset : ℕ) (spans : List (ℕ × ℕ)) : Prop :=
  ∀ span ∈ spans, u32 (offset + span.1) < offset + maxImageSize ∧
    u32 (offset + span.2) ≤ offset + maxImageSize

section Sections

variable {f : Image} {offset q : ℕ} {checksum : UInt8}

/-- Sections that the flash holds are all consumed. -/
theorem verifySections_old {sections : List Section} (hq : (offset + q) % 4 = 0)
    (hholds : read (wrapped f) (offset + q) (sections.flatMap Section.bytes).length =
      sections.flatMap Section.bytes)
    (hpasses : Passes offset (sectionSpans q sections)) :
    verifySections f (offset + maxImageSize)
        ⟨u32 (offset + q), sections.length, checksum, false⟩ =
      .ok ⟨u32 (offset + q + (sections.flatMap Section.bytes).length), 0,
        (sections.flatMap Section.data).foldl (· ^^^ ·) checksum, false⟩ := by
  induction sections generalizing q checksum with
  | nil => exact verifySections_done rfl
  | cons s rest ih =>
    rw [List.flatMap_cons, read_eq_append_iff] at hholds
    obtain ⟨hfirst, hrest⟩ := hholds
    obtain ⟨⟨hstart, hend⟩, hpasses⟩ := List.forall_mem_cons.mp hpasses
    rw [← Nat.add_assoc] at hend
    have hnext : verifySection f (offset + maxImageSize)
        ⟨u32 (offset + q), (s :: rest).length, checksum, false⟩ = .next
          ⟨u32 (offset + q + s.bytes.length), rest.length, s.data.foldl (· ^^^ ·) checksum,
            false⟩ := verifySection_old hq hfirst hend
    have haligned : (offset + (q + s.bytes.length)) % 4 = 0 := by
      have := s.aligned
      rw [s.length_bytes, sectionHeaderSize]
      omega
    rw [verifySections_next (Nat.succ_pos _) hstart hnext, Nat.add_assoc offset q,
      ih haligned (Nat.add_assoc offset q _ ▸ hrest) hpasses, List.flatMap_cons,
      List.flatMap_cons, List.foldl_append, List.length_append]
    simp only [Nat.add_assoc]

/-- Whatever is consumed is a list of sections that the flash holds. -/
theorem sections_of_verifySections {n : ℕ} {st : VerifyState} (hq : (offset + q) % 4 = 0)
    (hok : verifySections f (offset + maxImageSize) ⟨u32 (offset + q), n, checksum, false⟩ = .ok st)
    (hdone : st.remainingSections = 0) :
    ∃ sections : List Section, sections.length = n ∧
      read (wrapped f) (offset + q) (sections.flatMap Section.bytes).length =
        sections.flatMap Section.bytes ∧
      Passes offset (sectionSpans q sections) := by
  induction n generalizing q checksum with
  | zero => exact ⟨[], rfl, rfl, nofun⟩
  | succ n ih =>
    rcases verifySections_cases hok hdone with ⟨hzero, -⟩ | ⟨st₁, -, hstart, hnext, hrest⟩
    · nomatch hzero
    obtain ⟨s, hfirst, hend⟩ := section_of_next hnext
    have haligned : (offset + (q + s.bytes.length)) % 4 = 0 := by
      have := s.aligned
      rw [s.length_bytes, sectionHeaderSize]
      omega
    rw [verifySection_old hq hfirst hend] at hnext
    cases hnext
    rw [Nat.add_assoc] at hrest hend
    obtain ⟨rest, hlen, hholds, hpasses⟩ := ih haligned hrest
    refine ⟨s :: rest, by rw [List.length_cons, hlen], ?_,
      List.forall_mem_cons.mpr ⟨⟨hstart, hend⟩, hpasses⟩⟩
    rw [List.flatMap_cons, read_eq_append_iff, Nat.add_assoc]
    exact ⟨hfirst, hholds⟩

/-- The end of sections that pass stays near the limit. -/
theorem u32_end_le {sections : List Section} (bound : ℕ) (hbound : offset + maxImageSize ≤ bound)
    (hstart : u32 (offset + q) ≤ bound) (hpasses : Passes offset (sectionSpans q sections)) :
    u32 (offset + q + (sections.flatMap Section.bytes).length) ≤ bound := by
  induction sections generalizing q with
  | nil => exact hstart
  | cons s rest ih =>
    obtain ⟨⟨-, hend⟩, hpasses⟩ := List.forall_mem_cons.mp hpasses
    rw [List.flatMap_cons, List.length_append, ← Nat.add_assoc, Nat.add_assoc offset q]
    exact ih (hend.trans hbound) hpasses

end Sections

/-! ## The end of an image -/

section End

variable {f : Image} {offset e : ℕ} {checksum : UInt8} {isNew : Bool}

/-- Behind the last section, away from the end of the address space, the padding and
the length come out as for unbounded numbers. -/
theorem verifyEnd_eq (haligned : offset % 16 = 0) (hoffset : offset < 2 ^ 32)
    (hlow : u32 (offset + e) + 32 ≤ 2 ^ 32) :
    verifyEnd f offset ⟨u32 (offset + e), 0, checksum, isNew⟩ =
      if wrapped f (offset + alignUp 16 (e + 1) - 1) ≠ checksum then
        .rejected (u32 (alignUp 16 (e + 1))) .invalidChecksum
      else .accepted (u32 (alignUp 16 (e + 1))) := by
  have hpad : pad 16 (u32 (u32 (offset + e) + 1)) = u32 (offset + alignUp 16 (e + 1)) := by
    unfold pad alignUp u32 at *
    omega
  have hlen : u32 (u32 (offset + alignUp 16 (e + 1)) + 2 ^ 32 - offset) =
      u32 (alignUp 16 (e + 1)) := by
    unfold u32
    omega
  have hlast : wrapped f (u32 (offset + alignUp 16 (e + 1)) + 2 ^ 32 - 1) =
      wrapped f (offset + alignUp 16 (e + 1) - 1) := by
    have hpos : 0 < alignUp 16 (e + 1) := by
      unfold alignUp
      omega
    refine congrArg f ?_
    unfold u32
    omega
  simp only [verifyEnd, gt_iff_lt, lt_irrefl, if_false, hpad, hlen, hlast]

end End

/-! ## Headers -/

section Headers

variable {f g : Image} {offset p q : ℕ} {checksum : UInt8}

theorem readImageHeader_eq (f : Image) (p : ℕ) :
    readImageHeader f (u32 p) = ⟨wrapped f p, wrapped f (p + 1)⟩ := by
  rw [readImageHeader, read_wrapped_u32, getD_read (by decide), getD_read (by decide)]
  rfl

/-- The other fields of the header at a position. -/
def headerInfoAt (g : Image) (p : ℕ) : HeaderInfo :=
  ⟨g (p + 2), g (p + 3), .ofNat (LittleEndian.decode (read g (p + 4) 4))⟩

theorem read_header (g : Image) (p : ℕ) :
    read g p imageHeaderSize = headerBytes (g p) (g (p + 1)) (headerInfoAt g p) := by
  have hlt := LittleEndian.decode_lt (read g (p + 4) 4)
  rw [length_read] at hlt
  have hword : LittleEndian.encode 4 (headerInfoAt g p).entrypoint.toNat = read g (p + 4) 4 := by
    have hbytes := LittleEndian.encode_decode (read g (p + 4) 4)
    rw [length_read] at hbytes
    rw [headerInfoAt, UInt32.toNat_ofNat_of_lt' hlt, hbytes]
  rw [headerBytes, hword, show imageHeaderSize = 4 + 4 from rfl, read_add]
  rfl

/-- Magic and count of a header that the flash holds. -/
theorem header_of_holds {magic count : UInt8} {info : HeaderInfo}
    (hholds : read g p imageHeaderSize = headerBytes magic count info) :
    g p = magic ∧ g (p + 1) = count := by
  rw [read_header] at hholds
  simp only [headerBytes, List.cons_append, List.cons.injEq] at hholds
  exact ⟨hholds.1, hholds.2.1⟩

theorem read_body_iff {b : Body} : read g p b.bytes.length = b.bytes ↔
    read g p imageHeaderSize = headerBytes romMagicOld (.ofNat b.sections.length) b.info ∧
      read g (p + imageHeaderSize) (b.sections.flatMap Section.bytes).length =
        b.sections.flatMap Section.bytes := by
  rw [Body.bytes, read_eq_append_iff, length_headerBytes]

theorem read_lead_iff {l : Lead} : read g p l.bytes.length = l.bytes ↔
    read g p imageHeaderSize = headerBytes romMagicNew l.sectionCount l.info ∧
      read g (p + imageHeaderSize) l.irom.bytes.length = l.irom.bytes := by
  rw [Lead.bytes, read_eq_append_iff, length_headerBytes]

/-- The loop behind the header of a version 1.1 image that the flash holds. -/
theorem verifySections_body {b : Body} (checksum : UInt8) (hq : (offset + q) % 4 = 0)
    (hholds : read (wrapped f) (offset + q) b.bytes.length = b.bytes)
    (hpasses : Passes offset (sectionSpans (q + imageHeaderSize) b.sections)) :
    wrapped f (offset + q) = romMagicOld ∧
      verifySections f (offset + maxImageSize) ⟨u32 (offset + (q + imageHeaderSize)),
          (wrapped f (offset + q + 1)).toNat, checksum, false⟩ =
        .ok ⟨u32 (offset + (q + b.bytes.length)), 0,
          (b.sections.flatMap Section.data).foldl (· ^^^ ·) checksum, false⟩ := by
  obtain ⟨hheader, hsections⟩ := read_body_iff.mp hholds
  obtain ⟨hmagic, hcount⟩ := header_of_holds hheader
  refine ⟨hmagic, ?_⟩
  rw [Nat.add_assoc offset q] at hsections
  have haligned : (offset + (q + imageHeaderSize)) % 4 = 0 := by
    rw [imageHeaderSize]
    omega
  rw [hcount, UInt8.toNat_ofNat_of_lt' b.count_lt, verifySections_old haligned hsections hpasses,
    b.length_bytes]
  simp only [Nat.add_assoc]

/-- Whatever is consumed behind an old magic is a version 1.1 image. -/
theorem body_of_verifySections {st : VerifyState} (hq : (offset + q) % 4 = 0)
    (hmagic : wrapped f (offset + q) = romMagicOld)
    (hok : verifySections f (offset + maxImageSize) ⟨u32 (offset + (q + imageHeaderSize)),
      (wrapped f (offset + q + 1)).toNat, checksum, false⟩ = .ok st)
    (hdone : st.remainingSections = 0) :
    ∃ b : Body, read (wrapped f) (offset + q) b.bytes.length = b.bytes ∧
      Passes offset (sectionSpans (q + imageHeaderSize) b.sections) := by
  have haligned : (offset + (q + imageHeaderSize)) % 4 = 0 := by
    rw [imageHeaderSize]
    omega
  obtain ⟨sections, hlen, hholds, hpasses⟩ := sections_of_verifySections haligned hok hdone
  have hcount := (wrapped f (offset + q + 1)).toNat_lt
  refine ⟨⟨headerInfoAt (wrapped f) (offset + q), sections, hlen ▸ hcount⟩, ?_, hpasses⟩
  refine read_body_iff.mpr ⟨?_, by rw [Nat.add_assoc]; exact hholds⟩
  have hbyte : wrapped f (offset + q + 1) = .ofNat sections.length := by
    rw [hlen, UInt8.ofNat_toNat]
  rw [read_header, hmagic]
  exact congrArg (headerBytes romMagicOld · _) hbyte

end Headers

/-! ## Leading sections -/

section Lead

variable {f : Image} {offset n : ℕ} {checksum : UInt8}

/-- The round that consumes the leading section and expects another header. -/
theorem verifySection_new {s : Section} (haligned : offset % 16 = 0)
    (hlow : offset + 2 * maxImageSize ≤ 2 ^ 32)
    (hholds : read (wrapped f) (offset + imageHeaderSize) s.bytes.length = s.bytes)
    (hend : u32 (offset + (imageHeaderSize + s.bytes.length)) ≤ offset + maxImageSize)
    {q : ℕ} (hq : q = alignUp 16 (imageHeaderSize + s.bytes.length)) :
    verifySection f (offset + maxImageSize)
        ⟨u32 (offset + imageHeaderSize), n, checksum, true⟩ =
      if wrapped f (offset + q) ≠ romMagicOld then
        .fail (u32 (offset + (q + imageHeaderSize))) .badSecondMagic
      else .next ⟨u32 (offset + (q + imageHeaderSize)), (wrapped f (offset + q + 1)).toNat,
        checksum, false⟩ := by
  have hlen := readSectionLength_of_holds hholds
  have hfour : readSectionLength f (u32 (offset + imageHeaderSize)) % 4 = 0 := hlen ▸ s.aligned
  have hmod : (offset + (imageHeaderSize + s.bytes.length)) % 4 = 0 := by
    have := s.aligned
    rw [s.length_bytes, imageHeaderSize, sectionHeaderSize]
    omega
  have hpad : pad 16 (pad 4 (u32 (offset + (imageHeaderSize + s.bytes.length)))) =
      u32 (offset + q) := by
    have hmax : maxImageSize = 2 ^ 20 := rfl
    rw [pad_of_aligned (.inl rfl) hmod, pad_sixteen haligned (by omega), hq]
  rw [verifySection_eq, sectionEnd_of_holds hholds, Nat.add_assoc offset, hpad,
    if_neg (Nat.not_lt.mpr hend), if_neg (not_not.mpr hfour), if_pos rfl]
  dsimp only
  rw [readImageHeader_eq, u32_u32_add, Nat.add_assoc offset q imageHeaderSize]

end Lead

/-! ## Accepted content -/

/-- The flash holds an image whose sections pass the limit check. -/
structure PassingImage (f : Image) (offset : ℕ) (img : RbootImage) : Prop where
  holds : HoldsImage (wrapped f) offset img
  passes : Passes offset img.spans

/-- A version 1.2 header that announces no section, with the start value of the
checksum at the end of its block of sixteen bytes. -/
structure EmptyLead (f : Image) (offset : ℕ) : Prop where
  magic : f offset = romMagicNew
  count : f (offset + 1) = 0
  checksum : f (offset + 15) = chksumInit

section Accepted

variable {f : Image} {offset : ℕ} (haligned : offset % 16 = 0)
  (hlow : offset + 2 * maxImageSize ≤ 2 ^ 32)

include haligned hlow

/-- The verifier up to its loop. -/
theorem rbootVerifyImage_eq : rbootVerifyImage f offset =
    if wrapped f offset ≠ romMagicOld ∧ wrapped f offset ≠ romMagicNew then
      .rejected imageHeaderSize .missingInitialMagic
    else match verifySections f (offset + maxImageSize) ⟨u32 (offset + imageHeaderSize),
        (wrapped f (offset + 1)).toNat, chksumInit, wrapped f offset = romMagicNew⟩ with
      | .error (reached, error) => .rejected (u32 (reached + 2 ^ 32 - offset)) error
      | .ok st => verifyEnd f offset st := by
  have hmax : maxImageSize = 2 ^ 20 := rfl
  have hoffset : u32 offset = offset := u32_of_lt (by omega)
  have hlimit : u32 (offset + maxImageSize) = offset + maxImageSize := u32_of_lt (by omega)
  have hheader := readImageHeader_eq f offset
  rw [hoffset] at hheader
  have hlen : u32 (u32 (offset + imageHeaderSize) + 2 ^ 32 - offset) = imageHeaderSize := by
    unfold u32 imageHeaderSize
    omega
  unfold rbootVerifyImage
  rw [if_neg (by omega), hheader, hlimit]
  dsimp only
  rewrite [hlen]
  rfl

/-- The first byte behind the inner header is near the limit at most. -/
theorem bodyStart_le {img : RbootImage} (hpasses : Passes offset img.spans) :
    u32 (offset + (img.bodyOffset + imageHeaderSize)) ≤ offset + maxImageSize + 32 := by
  have hmax : maxImageSize = 2 ^ 20 := rfl
  obtain ⟨lead, body⟩ := img
  cases lead with
  | none =>
    simp only [RbootImage.bodyOffset, imageHeaderSize]
    rw [u32_of_lt (by omega)]
    omega
  | some l =>
    have hend := (hpasses _ (List.mem_append_left _ List.mem_cons_self)).2
    simp only [RbootImage.bodyOffset, l.length_bytes, alignUp, imageHeaderSize, u32] at hend ⊢
    omega

/-- The checks behind the loop, for an image whose sections have been consumed. -/
theorem verifyEnd_image {img : RbootImage} (hpasses : Passes offset img.spans) (checksum : UInt8) :
    verifyEnd f offset ⟨u32 (offset + img.bodyEnd), 0, checksum, false⟩ =
      if wrapped f (offset + img.length - 1) ≠ checksum then
        .rejected (u32 img.length) .invalidChecksum
      else .accepted (u32 img.length) := by
  have hmax : maxImageSize = 2 ^ 20 := rfl
  have hend := u32_end_le (offset + maxImageSize + 32) (Nat.le_add_right _ _)
    (bodyStart_le haligned hlow hpasses) fun span hspan =>
      hpasses span (List.mem_append_right _ hspan)
  refine verifyEnd_eq haligned (by omega) ?_
  rw [RbootImage.bodyEnd, img.body.length_bytes]
  simp only [Nat.add_assoc] at hend ⊢
  omega

omit hlow in
theorem bodyOffset_mod (img : RbootImage) : (offset + img.bodyOffset) % 4 = 0 := by
  obtain ⟨lead, body⟩ := img
  cases lead with
  | none => simpa [RbootImage.bodyOffset] using (by omega : offset % 4 = 0)
  | some l =>
    simp only [RbootImage.bodyOffset, alignUp]
    omega

/-- The loop consumes an image that the flash holds and whose sections pass. -/
theorem PassingImage.walk {img : RbootImage} (h : PassingImage f offset img) :
    ¬(wrapped f offset ≠ romMagicOld ∧ wrapped f offset ≠ romMagicNew) ∧
      verifySections f (offset + maxImageSize) ⟨u32 (offset + imageHeaderSize),
          (wrapped f (offset + 1)).toNat, chksumInit, wrapped f offset = romMagicNew⟩ =
        .ok ⟨u32 (offset + img.bodyEnd), 0, img.checksum, false⟩ := by
  have hmax : maxImageSize = 2 ^ 20 := rfl
  obtain ⟨hmagic, hwalk⟩ := verifySections_body chksumInit (bodyOffset_mod haligned img)
    h.holds.body fun span hspan => h.passes span (List.mem_append_right _ hspan)
  cases hlead : img.lead with
  | none =>
    have hzero : img.bodyOffset = 0 := by rw [RbootImage.bodyOffset, hlead]
    rw [hzero, Nat.add_zero] at hmagic
    rw [RbootImage.bodyEnd, hzero, hmagic]
    rw [hzero, Nat.add_zero, Nat.zero_add] at hwalk
    exact ⟨fun hboth => hboth.1 rfl, hwalk⟩
  | some l =>
    obtain ⟨hheader, hirom⟩ := read_lead_iff.mp (h.holds.lead l hlead)
    obtain ⟨hnew, hcount⟩ := header_of_holds hheader
    have hspan : (imageHeaderSize, imageHeaderSize + l.irom.bytes.length) ∈ img.spans := by
      rw [RbootImage.spans, hlead]
      exact List.mem_append_left _ List.mem_cons_self
    obtain ⟨hstart, hend⟩ := h.passes _ hspan
    have hbody : img.bodyOffset = alignUp 16 (imageHeaderSize + l.irom.bytes.length) := by
      rw [RbootImage.bodyOffset, hlead, ← l.length_bytes]
    have hround : verifySection f (offset + maxImageSize) ⟨u32 (offset + imageHeaderSize),
        l.sectionCount.toNat, chksumInit, true⟩ = .next
          ⟨u32 (offset + (img.bodyOffset + imageHeaderSize)),
            (wrapped f (offset + img.bodyOffset + 1)).toNat, chksumInit, false⟩ := by
      rw [verifySection_new haligned hlow hirom hend hbody, if_neg (not_not.mpr hmagic)]
    have hpos : 0 < l.sectionCount.toNat :=
      Nat.pos_of_ne_zero fun hzero => l.count_ne (UInt8.toNat_inj.mp hzero)
    rw [hnew, hcount]
    refine ⟨fun hboth => hboth.2 rfl, ?_⟩
    exact (verifySections_next hpos hstart hround).trans hwalk

/-- Behind an image whose sections pass only the checksum decides. -/
theorem PassingImage.verify {img : RbootImage} (h : PassingImage f offset img) :
    rbootVerifyImage f offset =
      if wrapped f (offset + img.length - 1) ≠ img.checksum then
        .rejected (u32 img.length) .invalidChecksum
      else .accepted (u32 img.length) := by
  obtain ⟨hmagic, hwalk⟩ := h.walk haligned hlow
  rw [rbootVerifyImage_eq haligned hlow, if_neg hmagic, hwalk]
  exact verifyEnd_image haligned hlow h.passes _

omit haligned in
theorem wrapped_of_low {a : ℕ} (ha : a ≤ 32) : wrapped f (offset + a) = f (offset + a) := by
  have hmax : maxImageSize = 2 ^ 20 := rfl
  exact congrArg f (u32_of_lt (by omega))

/-- A version 1.2 header without sections is taken for a complete image. -/
theorem verify_emptyLead (hmagic : wrapped f offset = romMagicNew)
    (hcount : wrapped f (offset + 1) = 0) : rbootVerifyImage f offset =
      if wrapped f (offset + 15) ≠ chksumInit then .rejected 16 .invalidChecksum
      else .accepted 16 := by
  have hmax : maxImageSize = 2 ^ 20 := rfl
  have hend : u32 (offset + imageHeaderSize) + 32 ≤ 2 ^ 32 := by
    rw [imageHeaderSize, u32_of_lt (by omega)]
    omega
  rw [rbootVerifyImage_eq haligned hlow, if_neg (fun hboth => hboth.2 hmagic), hcount,
    verifySections_done rfl]
  exact verifyEnd_eq haligned (by omega) hend

/-- The sections that a walk to the end has consumed make up an image, unless there
was none to consume. -/
theorem image_of_walk {st : VerifyState}
    (hmagic : ¬(wrapped f offset ≠ romMagicOld ∧ wrapped f offset ≠ romMagicNew))
    (hok : verifySections f (offset + maxImageSize) ⟨u32 (offset + imageHeaderSize),
          (wrapped f (offset + 1)).toNat, chksumInit, wrapped f offset = romMagicNew⟩ = .ok st)
    (hdone : st.remainingSections = 0) :
    (wrapped f offset = romMagicNew ∧ wrapped f (offset + 1) = 0) ∨
      ∃ img, PassingImage f offset img := by
  by_cases hnew : wrapped f offset = romMagicNew
  · rw [hnew, decide_eq_true rfl] at hok
    rcases verifySections_cases hok hdone with ⟨hzero, -⟩ | ⟨st₁, hpos, hstart, hnext, hrest⟩
    · exact .inl ⟨hnew, UInt8.toNat_inj.mp hzero⟩
    obtain ⟨s, hirom, hend⟩ := section_of_next hnext
    rw [Nat.add_assoc] at hend
    rw [verifySection_new haligned hlow hirom hend rfl] at hnext
    split at hnext
    · nomatch hnext
    case isFalse hsecond =>
      cases hnext
      have hfour : (offset + alignUp 16 (imageHeaderSize + s.bytes.length)) % 4 = 0 := by
        unfold alignUp
        omega
      obtain ⟨b, hholds, hpasses⟩ :=
        body_of_verifySections hfour (not_not.mp hsecond) hrest hdone
      let lead : Lead := ⟨headerInfoAt (wrapped f) offset, wrapped f (offset + 1),
        fun hzero => hpos.ne' (congrArg UInt8.toNat hzero), s⟩
      have hoffset : RbootImage.bodyOffset ⟨some lead, b⟩ =
          alignUp 16 (imageHeaderSize + s.bytes.length) := congrArg (alignUp 16) lead.length_bytes
      refine .inr ⟨⟨some lead, b⟩, ⟨fun l hl => ?_, hoffset ▸ hholds⟩, ?_⟩
      · cases hl
        exact read_lead_iff.mpr ⟨by rw [read_header, hnew], hirom⟩
      · refine List.forall_mem_append.mpr ⟨?_, hoffset ▸ hpasses⟩
        exact List.forall_mem_cons.mpr ⟨⟨hstart, hend⟩, nofun⟩
  · have hold : wrapped f offset = romMagicOld := not_not.mp fun hne => hmagic ⟨hne, hnew⟩
    rw [decide_eq_false hnew, ← Nat.zero_add imageHeaderSize] at hok
    obtain ⟨b, hholds, hpasses⟩ :=
      body_of_verifySections (by omega) (Nat.add_zero offset ▸ hold) hok hdone
    refine .inr ⟨⟨none, b⟩, ⟨nofun, hholds⟩, hpasses⟩

end Accepted

end EspOpenRtos.Rboot
