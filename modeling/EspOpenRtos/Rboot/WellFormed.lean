/-
# Well-formed images

Every well-formed image is accepted with its exact length. The converse holds
exactly for flash content that is neither an empty version 1.2 header nor an image
with a section that wraps around the address space.
-/

import EspOpenRtos.Rboot.Accepted

namespace EspOpenRtos.Rboot

open Math.NorFlash

/-- The flash holds a well-formed image: headers, sections and checksum, with all
sections inside one megabyte. -/
structure WellFormedAt (f : Image) (offset : ℕ) (img : RbootImage) : Prop where
  holds : HoldsImage f offset img
  fits : img.Fits
  checksum : ChecksumMatches f offset img

/-- The flash holds an image with a section that ends beyond the address space and
yet passes the limit check. -/
structure OverflowingAt (f : Image) (offset : ℕ) (img : RbootImage) : Prop where
  passing : PassingImage f offset img
  checksum : ChecksumMatches (wrapped f) offset img
  overflows : ∃ span ∈ img.spans, 2 ^ 32 ≤ offset + span.2

/-! ## The layout of an image is determined by the flash -/

section Unique

variable {f : Image} {p : ℕ}

theorem sectionSpans_unique {sections others : List Section} (q : ℕ)
    (hcount : sections.length = others.length)
    (hsections : read (wrapped f) p (sections.flatMap Section.bytes).length =
      sections.flatMap Section.bytes)
    (hothers : read (wrapped f) p (others.flatMap Section.bytes).length =
      others.flatMap Section.bytes) :
    sectionSpans q sections = sectionSpans q others := by
  induction sections generalizing p q others with
  | nil => rw [List.length_eq_zero_iff.mp hcount.symm]
  | cons s rest ih =>
    obtain ⟨other, others, rfl⟩ := List.exists_cons_of_length_eq_add_one hcount.symm
    rw [List.flatMap_cons, read_eq_append_iff] at hsections hothers
    have hlen : s.bytes.length = other.bytes.length := by
      rw [s.length_bytes, other.length_bytes, ← readSectionLength_of_holds hsections.1,
        readSectionLength_of_holds hothers.1]
    rw [sectionSpans, sectionSpans, hlen,
      ih _ (Nat.succ.inj hcount) (hlen ▸ hsections.2) hothers.2]

theorem bodySpans_unique {b other : Body} (q : ℕ)
    (hbody : read (wrapped f) p b.bytes.length = b.bytes)
    (hother : read (wrapped f) p other.bytes.length = other.bytes) :
    sectionSpans q b.sections = sectionSpans q other.sections := by
  obtain ⟨hheader, hsections⟩ := read_body_iff.mp hbody
  obtain ⟨hheader', hsections'⟩ := read_body_iff.mp hother
  have hcount : UInt8.ofNat b.sections.length = .ofNat other.sections.length :=
    (header_of_holds hheader).2.symm.trans (header_of_holds hheader').2
  have hlen := congrArg UInt8.toNat hcount
  rw [UInt8.toNat_ofNat_of_lt' b.count_lt, UInt8.toNat_ofNat_of_lt' other.count_lt] at hlen
  exact sectionSpans_unique q hlen hsections hsections'

/-- The first byte tells the versions apart. -/
theorem HoldsImage.magic {g : Image} {img : RbootImage} {offset : ℕ}
    (h : HoldsImage g offset img) :
    g offset = if img.lead.isSome then romMagicNew else romMagicOld := by
  cases hlead : img.lead with
  | none =>
    have hbody := h.body
    rw [RbootImage.bodyOffset, hlead] at hbody
    exact (header_of_holds (read_body_iff.mp hbody).1).1
  | some l => exact (header_of_holds (read_lead_iff.mp (h.lead l hlead)).1).1

theorem spans_unique {img other : RbootImage} {offset : ℕ}
    (himg : HoldsImage (wrapped f) offset img) (hother : HoldsImage (wrapped f) offset other) :
    img.spans = other.spans := by
  have hmagic := himg.magic.symm.trans hother.magic
  cases hlead : img.lead with
  | none =>
    cases hlead' : other.lead with
    | none =>
      have hbody := himg.body
      have hbody' := hother.body
      rw [RbootImage.bodyOffset, hlead] at hbody
      rw [RbootImage.bodyOffset, hlead'] at hbody'
      simp only [RbootImage.spans, RbootImage.bodyOffset, hlead, hlead']
      exact bodySpans_unique _ hbody hbody'
    | some l' =>
      rw [hlead, hlead'] at hmagic
      exact absurd hmagic (show romMagicOld ≠ romMagicNew by decide)
  | some l =>
    cases hlead' : other.lead with
    | none =>
      rw [hlead, hlead'] at hmagic
      exact absurd hmagic (show romMagicNew ≠ romMagicOld by decide)
    | some l' =>
      have hirom := (read_lead_iff.mp (himg.lead l hlead)).2
      have hirom' := (read_lead_iff.mp (hother.lead l' hlead')).2
      have hlen : l.irom.bytes.length = l'.irom.bytes.length := by
        rw [l.irom.length_bytes, l'.irom.length_bytes, ← readSectionLength_of_holds hirom,
          readSectionLength_of_holds hirom']
      have hoffset : img.bodyOffset = other.bodyOffset := by
        rw [RbootImage.bodyOffset, RbootImage.bodyOffset, hlead, hlead']
        dsimp only
        rw [l.length_bytes, l'.length_bytes, hlen]
      have hbody := himg.body
      rw [hoffset] at hbody
      simp only [RbootImage.spans, hlead, hlead', hoffset, sectionSpans, hlen]
      rw [bodySpans_unique _ hbody hother.body]

end Unique

/-! ## Images that fit -/

section Fits

variable {f : Image} {offset : ℕ} {img : RbootImage}

theorem sectionSpans_end_le {q bound : ℕ} {sections : List Section} (hstart : q ≤ bound)
    (hfits : ∀ span ∈ sectionSpans q sections, span.2 ≤ bound) :
    q + (sections.flatMap Section.bytes).length ≤ bound := by
  induction sections generalizing q with
  | nil => exact hstart
  | cons s rest ih =>
    obtain ⟨hend, hrest⟩ := List.forall_mem_cons.mp hfits
    rw [List.flatMap_cons, List.length_append, ← Nat.add_assoc]
    exact ih hend hrest

/-- An image that fits ends near the limit at most. -/
theorem RbootImage.Fits.bodyEnd_le (h : img.Fits) : img.bodyEnd ≤ maxImageSize + 32 := by
  have hstart : img.bodyOffset + imageHeaderSize ≤ maxImageSize + 32 := by
    cases hlead : img.lead with
    | none =>
      rw [bodyOffset, hlead]
      decide
    | some l =>
      have hend := h (imageHeaderSize, imageHeaderSize + l.irom.bytes.length) (by
        rw [spans, hlead]
        exact List.mem_append_left _ List.mem_cons_self)
      rw [bodyOffset, hlead]
      dsimp only
      rw [l.length_bytes, alignUp, imageHeaderSize] at *
      omega
  have hend := sectionSpans_end_le hstart fun span hspan =>
    (h span (List.mem_append_right _ hspan)).trans (Nat.le_add_right _ 32)
  rw [bodyEnd, img.body.length_bytes]
  omega

theorem Lead.length_le_bodyOffset {l : Lead} (hlead : img.lead = some l) :
    l.bytes.length ≤ img.bodyOffset := by
  rw [RbootImage.bodyOffset, hlead]
  dsimp only
  rw [alignUp]
  omega

/-- In the low part of the address space the residues are the addresses. -/
theorem holdsImage_wrapped_iff (hlow : offset + img.bodyEnd ≤ 2 ^ 32) :
    HoldsImage (wrapped f) offset img ↔ HoldsImage f offset img := by
  have hread {p n : ℕ} (hp : p + n ≤ 2 ^ 32) : read (wrapped f) p n = read f p n :=
    read_congr fun a _ ha => congrArg f (u32_of_lt (by omega))
  have hbody := hread (p := offset + img.bodyOffset) (n := img.body.bytes.length) (by
    rw [RbootImage.bodyEnd] at hlow
    omega)
  have hlead (l : Lead) (hl : img.lead = some l) :
      read (wrapped f) offset l.bytes.length = read f offset l.bytes.length := by
    have := Lead.length_le_bodyOffset hl
    rw [RbootImage.bodyEnd] at hlow
    exact hread (by omega)
  constructor
  · exact fun h => ⟨fun l hl => (hlead l hl).symm.trans (h.lead l hl), hbody.symm.trans h.body⟩
  · exact fun h => ⟨fun l hl => (hlead l hl).trans (h.lead l hl), hbody.trans h.body⟩

theorem lt_of_mem_sectionSpans {q : ℕ} {sections : List Section} {span : ℕ × ℕ}
    (hspan : span ∈ sectionSpans q sections) : span.1 < span.2 := by
  induction sections generalizing q with
  | nil => nomatch hspan
  | cons s rest ih =>
    rcases List.mem_cons.mp hspan with rfl | hrest
    · rw [s.length_bytes, sectionHeaderSize]
      dsimp only
      omega
    · exact ih hrest

theorem lt_of_mem_spans {span : ℕ × ℕ} (hspan : span ∈ img.spans) : span.1 < span.2 := by
  rcases List.mem_append.mp hspan with hlead | hbody
  · split at hlead
    · nomatch hlead
    · exact lt_of_mem_sectionSpans hlead
  · exact lt_of_mem_sectionSpans hbody

/-- Sections that pass the limit check end within the limit, unless they wrap. -/
theorem Passes.fits (h : Passes offset img.spans)
    (hbounded : ∀ span ∈ img.spans, offset + span.2 < 2 ^ 32) : img.Fits := by
  intro span hspan
  have hend := (h span hspan).2
  rw [u32_of_lt (hbounded span hspan)] at hend
  omega

/-- An empty version 1.2 header is not the start of an image. -/
theorem EmptyLead.not_wellFormed (h : EmptyLead f offset) : ¬WellFormedAt f offset img := by
  intro himg
  have hmagic := himg.holds.magic.symm.trans h.magic
  cases hlead : img.lead with
  | none =>
    rw [hlead] at hmagic
    exact absurd hmagic (show romMagicOld ≠ romMagicNew by decide)
  | some l =>
    have hcount := (header_of_holds (read_lead_iff.mp (himg.holds.lead l hlead)).1).2
    exact l.count_ne (hcount.symm.trans h.count)

end Fits

/-! ## Accepted exactly when well-formed -/

section WellFormed

variable {f : Image} {offset : ℕ} {img : RbootImage} (hlow : offset + 2 * maxImageSize ≤ 2 ^ 32)

include hlow

theorem RbootImage.Fits.bodyEnd_low (h : img.Fits) : offset + img.bodyEnd + 32 ≤ 2 ^ 32 := by
  have hend := h.bodyEnd_le
  rw [maxImageSize] at *
  omega

/-- The checksum of an image that fits stands where the residue says. -/
theorem RbootImage.Fits.length_low (h : img.Fits) : offset + img.length ≤ 2 ^ 32 := by
  have hend := h.bodyEnd_low hlow
  rw [length, alignUp]
  omega

theorem RbootImage.Fits.checksumMatches_iff (h : img.Fits) :
    ChecksumMatches (wrapped f) offset img ↔ ChecksumMatches f offset img := by
  have hlast : u32 (offset + img.length - 1) = offset + img.length - 1 := by
    have := h.length_low hlow
    exact u32_of_lt (by omega)
  rw [ChecksumMatches, ChecksumMatches, wrapped, hlast]

theorem RbootImage.Fits.passes (h : img.Fits) : Passes offset img.spans := by
  intro span hspan
  have hlt := lt_of_mem_spans hspan
  have hend := h span hspan
  rw [maxImageSize] at *
  rw [u32_of_lt (by omega), u32_of_lt (by omega)]
  omega

theorem WellFormedAt.passing (h : WellFormedAt f offset img) : PassingImage f offset img :=
  ⟨(holdsImage_wrapped_iff (Nat.le_of_add_right_le (h.fits.bodyEnd_low hlow))).mpr h.holds,
    h.fits.passes hlow⟩

/-- A passing image with its checksum is well-formed, unless a section wraps. -/
theorem PassingImage.wellFormed (h : PassingImage f offset img)
    (hchecksum : ChecksumMatches (wrapped f) offset img)
    (hbounded : ∀ span ∈ img.spans, offset + span.2 < 2 ^ 32) : WellFormedAt f offset img :=
  have hfits := h.passes.fits hbounded
  ⟨(holdsImage_wrapped_iff (Nat.le_of_add_right_le (hfits.bodyEnd_low hlow))).mp h.holds, hfits,
    (hfits.checksumMatches_iff hlow).mp hchecksum⟩

variable (haligned : offset % 16 = 0)

include haligned

theorem PassingImage.accepted (h : PassingImage f offset img)
    (hchecksum : ChecksumMatches (wrapped f) offset img) :
    rbootVerifyImage f offset = .accepted (u32 img.length) := by
  rw [h.verify haligned hlow]
  exact if_neg (not_not.mpr hchecksum)

theorem WellFormedAt.accepted (h : WellFormedAt f offset img) :
    rbootVerifyImage f offset = .accepted img.length := by
  have hlen : u32 img.length = img.length := by
    have := h.fits.bodyEnd_le
    rw [RbootImage.length, alignUp]
    rw [maxImageSize] at *
    exact u32_of_lt (by omega)
  rw [(h.passing hlow).accepted hlow haligned ((h.fits.checksumMatches_iff hlow).mpr h.checksum),
    hlen]

theorem EmptyLead.accepted (h : EmptyLead f offset) : rbootVerifyImage f offset = .accepted 16 := by
  have hmagic : wrapped f offset = romMagicNew := (wrapped_of_low hlow (Nat.zero_le 32)).trans h.magic
  have hcount := (wrapped_of_low hlow (show 1 ≤ 32 by decide)).trans h.count
  have hsum := (wrapped_of_low hlow (show 15 ≤ 32 by decide)).trans h.checksum
  rw [verify_emptyLead haligned hlow hmagic hcount, if_neg (not_not.mpr hsum)]

/-- What is accepted is an empty version 1.2 header or an image that passes, with its
checksum. -/
theorem of_accepted {L : ℕ} (h : rbootVerifyImage f offset = .accepted L) :
    EmptyLead f offset ∨
      ∃ img, PassingImage f offset img ∧ ChecksumMatches (wrapped f) offset img := by
  have hwalk := h
  rw [rbootVerifyImage_eq haligned hlow] at hwalk
  split at hwalk
  · cases hwalk
  case isFalse hmagic =>
    split at hwalk
    · cases hwalk
    case h_2 st hok =>
      have hdone : st.remainingSections = 0 := by
        by_contra hne
        rw [verifyEnd, if_pos (Nat.pos_of_ne_zero hne)] at hwalk
        cases hwalk
      rcases image_of_walk haligned hlow hmagic hok hdone with ⟨hnew, hcount⟩ | ⟨img, himg⟩
      · rw [verify_emptyLead haligned hlow hnew hcount] at h
        split at h
        · cases h
        case isFalse hsum =>
          exact .inl ⟨(wrapped_of_low hlow (Nat.zero_le 32)).symm.trans hnew,
            (wrapped_of_low hlow (by decide)).symm.trans hcount,
            (wrapped_of_low hlow (by decide)).symm.trans (not_not.mp hsum)⟩
      · rw [himg.verify haligned hlow] at h
        split at h
        · cases h
        case isFalse hsum => exact .inr ⟨img, himg, not_not.mp hsum⟩

omit haligned in
/-- An image with a section that wraps is not well-formed, however it is read. -/
theorem OverflowingAt.not_wellFormed {other : RbootImage} (h : OverflowingAt f offset other) :
    ¬WellFormedAt f offset img := by
  intro himg
  obtain ⟨span, hspan, hover⟩ := h.overflows
  rw [← spans_unique (himg.passing hlow).holds h.passing.holds] at hspan
  have hend := himg.fits span hspan
  rw [maxImageSize] at *
  omega

end WellFormed

/-- Every well-formed image is accepted with its length. Nothing else is accepted
exactly if the flash holds neither an empty version 1.2 header nor an image with a
section that wraps. -/
theorem accepts_wellFormed_iff (f : Image) (offset : ℕ) (hsector : offset % 4096 = 0)
    (hlow : offset + 2 * maxImageSize ≤ 2 ^ 32) :
    (∀ img, WellFormedAt f offset img → rbootVerifyImage f offset = .accepted img.length) ∧
      ((∀ L, rbootVerifyImage f offset = .accepted L ↔
          ∃ img, WellFormedAt f offset img ∧ L = img.length) ↔
        ¬EmptyLead f offset ∧ ∀ img, ¬OverflowingAt f offset img) := by
  have haligned : offset % 16 = 0 := by omega
  refine ⟨fun img himg => himg.accepted hlow haligned, fun hiff => ⟨fun hempty => ?_,
    fun img hover => ?_⟩, fun ⟨hempty, hover⟩ L => ⟨fun haccepted => ?_, ?_⟩⟩
  · obtain ⟨img, himg, -⟩ := (hiff 16).mp (hempty.accepted hlow haligned)
    exact hempty.not_wellFormed himg
  · obtain ⟨other, hother, -⟩ :=
      (hiff _).mp (hover.passing.accepted hlow haligned hover.checksum)
    exact hover.not_wellFormed hlow hother
  · rcases of_accepted hlow haligned haccepted with h | ⟨img, himg, hchecksum⟩
    · exact absurd h hempty
    have hwell := himg.wellFormed hlow hchecksum fun span hspan => not_le.mp fun hle =>
      hover img ⟨himg, hchecksum, span, hspan, hle⟩
    rw [hwell.accepted hlow haligned] at haccepted
    cases haccepted
    exact ⟨img, hwell, rfl⟩
  · rintro ⟨img, himg, rfl⟩
    exact himg.accepted hlow haligned

/-- An image of one section. -/
def wordImage : RbootImage where
  lead := none
  body := ⟨⟨0, 0, 0x40100000⟩, [⟨0x40100000, [1, 2, 3, 4], by decide, by decide⟩], by decide⟩

/-- Flash that holds it in the first slot, with its checksum. -/
def wordFlash : Image := fun a =>
  (wordImage.body.bytes ++ List.replicate 11 0xff ++ [0xeb]).getD (a - 0x2000) 0xff

theorem accepts_wellFormed_word : WellFormedAt wordFlash 0x2000 wordImage ∧
    rbootVerifyImage wordFlash 0x2000 = .accepted 32 := by
  have hword : WellFormedAt wordFlash 0x2000 wordImage := ⟨⟨nofun, by decide⟩, by decide, by decide⟩
  exact ⟨hword, (accepts_wellFormed_iff wordFlash 0x2000 (by decide) (by decide)).1 _ hword⟩

/-- Flash with a version 1.2 header that announces no section. -/
def emptyLeadFlash : Image := fun a =>
  if a = 0x2000 then romMagicNew else if a = 0x2001 then 0 else if a = 0x200f then chksumInit
  else 0xff

/-- Sixteen bytes without a section are taken for an image. -/
theorem empty_lead_accepted : rbootVerifyImage emptyLeadFlash 0x2000 = .accepted 16 ∧
    ¬∃ img, WellFormedAt emptyLeadFlash 0x2000 img := by
  have hempty : EmptyLead emptyLeadFlash 0x2000 := ⟨rfl, rfl, rfl⟩
  exact ⟨hempty.accepted (by decide) (by decide), fun ⟨_, himg⟩ =>
    hempty.not_wellFormed himg⟩

/-- Flash with a section whose end wraps to the bytes in front of the image, where
another header stands. -/
def wrappingFlash : Image := fun a =>
  if a = 0x2000 then romMagicNew else if a = 0x2001 then 1 else if a = 0x200c then 0
  else if a = 0x1f10 then romMagicOld else if a = 0x1f11 then 0
  else if a = 0x1f1f then chksumInit else 0xff

theorem readSectionLength_wrappingFlash :
    readSectionLength wrappingFlash (u32 0x2008) = 0xffffff00 := by decide +kernel

/-- The section that wraps passes the limit check, and the image is accepted. -/
theorem wrapping_section_overflows : ∃ img, OverflowingAt wrappingFlash 0x2000 img := by
  have hfour : readSectionLength wrappingFlash (u32 0x2008) % 4 = 0 := by
    rw [readSectionLength_wrappingFlash]
  obtain ⟨s, hholds, hlen⟩ : ∃ s : Section,
      read (wrapped wrappingFlash) 0x2008 s.bytes.length = s.bytes ∧
        s.bytes.length = 0xffffff08 := by
    refine ⟨sectionAt wrappingFlash 0x2008 hfour, holds_sectionAt _ _ _, ?_⟩
    rw [Section.length_bytes, sectionAt, length_read, readSectionLength_wrappingFlash]
    rfl
  let lead : Lead := ⟨headerInfoAt (wrapped wrappingFlash) 0x2000, 1, by decide, s⟩
  let body : Body := ⟨headerInfoAt (wrapped wrappingFlash) 0x100001f10, [], by decide⟩
  have hbody : RbootImage.bodyOffset ⟨some lead, body⟩ = 0xffffff10 := by
    rw [RbootImage.bodyOffset]
    dsimp only
    rw [lead.length_bytes, hlen]
    rfl
  have hspans : RbootImage.spans ⟨some lead, body⟩ = [(8, 0xffffff10)] := by
    simp only [RbootImage.spans, sectionSpans, lead, body, hlen, imageHeaderSize, List.append_nil]
  refine ⟨⟨some lead, body⟩, ⟨⟨fun l hl => ?_, ?_⟩, ?_⟩, ?_, ?_⟩
  · cases hl
    exact read_lead_iff.mpr ⟨read_header _ _, hholds⟩
  · rw [hbody]
    exact read_body_iff.mpr ⟨read_header _ _, rfl⟩
  · rw [hspans, Passes]
    decide +kernel
  · rw [ChecksumMatches, RbootImage.length, RbootImage.bodyEnd, hbody]
    change wrapped wrappingFlash (0x2000 + alignUp 16 (0xffffff10 + 8 + 1) - 1) = chksumInit
    decide +kernel
  · rw [hspans]
    decide +kernel

end EspOpenRtos.Rboot
