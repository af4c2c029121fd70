/-
# What the writes do

A write either stores its data exactly, or it is the one write that fails and
stores some of it. Both outcomes are carried side by side through every
operation, so that one set of lemmas serves the fault-free runs, where the
second outcome cannot happen, and the runs with a fault.

Beside its outcome, every operation says which images of the flash it goes
through. A power cut leaves the flash in one of them.
-/

import EspOpenRtos.Sysparam.ScanSpec
import EspOpenRtos.Sysparam.Write
import Mathlib.Tactic.IntervalCases

namespace EspOpenRtos.Sysparam

open Math.NorFlash

/-! ## Faults and images -/

/-- No write has failed between two states of the device. -/
structure Quiet (d d' : Device) : Prop where
  accepts : d'.accepts = d.accepts
  fault : d.fault = none → d'.fault = none
  failedAt : d'.failedAt = d.failedAt

/-- The one write that fails was to the given address. -/
structure Failed (d d' : Device) (addr : ℕ) : Prop where
  accepts : d'.accepts = d.accepts
  before : d.fault ≠ none
  after : d'.fault = none
  failedAt : d'.failedAt = some addr

/-- The images between two states of the device satisfy a predicate, and the
last of them is the present one. -/
def Through (d d' : Device) (p : Image → Prop) : Prop :=
  ∃ new, d'.images = d.images ++ new ∧ d'.bytes = new.getLast?.getD d.bytes ∧ ∀ g ∈ new, p g

/-- The images in which a power cut between two states can leave the flash. -/
def Device.cuts (d d' : Device) : List Image := d.bytes :: d'.images.drop d.images.length

section Trace

variable {d d' d'' : Device} {addr : ℕ} {p q : Image → Prop} {g : Image}

theorem Quiet.refl (d : Device) : Quiet d d := ⟨rfl, id, rfl⟩

theorem Quiet.trans (h : Quiet d d') (h' : Quiet d' d'') : Quiet d d'' :=
  ⟨h'.accepts.trans h.accepts, fun hf => h'.fault (h.fault hf), h'.failedAt.trans h.failedAt⟩

theorem Quiet.failed (h : Quiet d d') (h' : Failed d' d'' addr) : Failed d d'' addr :=
  ⟨h'.accepts.trans h.accepts, fun hf => h'.before (h.fault hf), h'.after, h'.failedAt⟩

/-- Only one write fails. -/
theorem Failed.quiet (h : Failed d d' addr) (h' : Quiet d' d'') : Failed d d'' addr :=
  ⟨h'.accepts.trans h.accepts, h.before, h'.fault h.after, h'.failedAt.trans h.failedAt⟩

theorem fault_of_failed (h : ∃ x, Failed d d' x) : d.fault ≠ none := by
  obtain ⟨x, h⟩ := h
  exact h.before

theorem Through.refl (d : Device) : Through d d p := ⟨[], by simp, rfl, by simp⟩

theorem Through.single (himages : d'.images = d.images ++ [d'.bytes]) (h : p d'.bytes) :
    Through d d' p :=
  ⟨[d'.bytes], himages, rfl, by simpa using h⟩

theorem Through.trans (h : Through d d' p) (h' : Through d' d'' p) : Through d d'' p := by
  obtain ⟨new, himages, hbytes, hp⟩ := h
  obtain ⟨new', himages', hbytes', hp'⟩ := h'
  refine ⟨new ++ new', by rw [himages', himages, List.append_assoc], ?_, ?_⟩
  · rw [hbytes', hbytes, List.getLast?_append, Option.getD_or]
  · intro g hg
    exact (List.mem_append.mp hg).elim (hp g) (hp' g)

theorem Through.mono (h : Through d d' p) (hpq : ∀ g, p g → q g) : Through d d' q := by
  obtain ⟨new, himages, hbytes, hp⟩ := h
  exact ⟨new, himages, hbytes, fun g hg => hpq g (hp g hg)⟩

theorem Through.of_mem_cuts (h : Through d d' p) (hg : g ∈ d.cuts d') : g = d.bytes ∨ p g := by
  obtain ⟨new, himages, -, hp⟩ := h
  rw [Device.cuts, himages, List.drop_left, List.mem_cons] at hg
  exact hg.imp_right (hp g)

/-- A state on the way is one in which the power may be cut. -/
theorem Through.mem_cuts (h : Through d d' p) (h' : Through d' d'' q) : d'.bytes ∈ d.cuts d'' := by
  obtain ⟨new, himages, hbytes, -⟩ := h
  obtain ⟨new', himages', -⟩ := h'
  rw [Device.cuts, himages', himages, List.append_assoc, List.drop_left, hbytes]
  cases hlast : new.getLast? with
  | none => exact List.mem_cons_self
  | some g =>
    exact List.mem_cons_of_mem _ (List.mem_append_left _ (List.mem_of_getLast? hlast))

end Trace

/-! ## Writing bytes -/

section WriteBytes

variable {d : Device} {addr : ℕ} {data : List UInt8}

theorem spiflashWrite_spec (haccepts : d.accepts addr data.length = true) :
    (∃ d', spiflashWrite d addr data = (true, d') ∧ d'.bytes = program d.bytes addr data ∧
        Quiet d d' ∧ d'.images = d.images ++ [d'.bytes]) ∨
      ∃ d' keep, spiflashWrite d addr data = (false, d') ∧
        d'.bytes = programPartly d.bytes addr data keep ∧ Failed d d' addr := by
  simp only [spiflashWrite, haccepts, if_true]
  cases hfault : d.fault with
  | none => exact Or.inl ⟨_, rfl, rfl, ⟨rfl, fun h => h, rfl⟩, rfl⟩
  | some fault =>
    obtain ⟨after, keep⟩ := fault
    cases after with
    | zero => exact Or.inr ⟨_, keep, rfl, rfl, rfl, by simp [hfault], rfl, rfl⟩
    | succ after =>
      exact Or.inl ⟨_, rfl, rfl, ⟨rfl, fun h => by simp [hfault] at h, rfl⟩, rfl⟩

/-- The accesses inside a range are accepted. -/
def Device.CoversRange (d : Device) (lo hi : ℕ) : Prop :=
  ∀ a n, lo ≤ a → a + n ≤ hi → d.accepts a n = true

theorem Device.CoversRange.mono {d : Device} {lo hi lo' hi' : ℕ} (h : d.CoversRange lo hi)
    (hlo : lo ≤ lo') (hhi : hi' ≤ hi) : d.CoversRange lo' hi' :=
  fun a n ha hn => h a n (hlo.trans ha) (hn.trans hhi)

theorem Device.CoversRange.of_accepts {d d' : Device} {lo hi : ℕ} (h : d.CoversRange lo hi)
    (haccepts : d'.accepts = d.accepts) : d'.CoversRange lo hi := by
  intro a n ha hn
  rw [haccepts]
  exact h a n ha hn

/-- The images of a write: the data arrives in chunks. -/
def Arriving (f : Image) (addr : ℕ) (data : List UInt8) (g : Image) : Prop :=
  ∃ m, m ≤ data.length ∧ (data.length ≤ bounceBufferSize → m = data.length) ∧
    g = patch f addr (data.take m)

theorem writeAndVerify_nil : writeAndVerify d addr [] = (.ok, d) := by
  rw [writeAndVerify]
  simp

section

variable (hcovers : d.CoversRange addr (addr + data.length))
  (hprog : Programmable d.bytes addr data)
include hcovers hprog

/-- The two outcomes of writing the first chunk. What was written is read back. -/
theorem writeAndVerify_chunk (hne : data ≠ []) : (∃ d', writeAndVerify d addr data =
        writeAndVerify d' (addr + bounceBufferSize) (data.drop bounceBufferSize) ∧
        d'.bytes = patch d.bytes addr (data.take bounceBufferSize) ∧ Quiet d d' ∧
        d'.images = d.images ++ [d'.bytes]) ∨
      ∃ d' keep, writeAndVerify d addr data = (.errIo, d') ∧
        d'.bytes = programPartly d.bytes addr (data.take bounceBufferSize) keep ∧
        Failed d d' addr := by
  have haccepts : d.accepts addr (data.take bounceBufferSize).length = true :=
    hcovers _ _ le_rfl (by simp)
  rw [writeAndVerify, dif_neg hne]
  rcases spiflashWrite_spec haccepts with ⟨d', hok, hbytes, hquiet, himages⟩ |
    ⟨d', keep, hfail, hbytes, hfailed⟩
  · rw [program_eq_patch (hprog.take _)] at hbytes
    have hback : spiflashRead d' addr (data.take bounceBufferSize).length =
        some (data.take bounceBufferSize) := by
      rw [spiflashRead, if_pos (Or.inr (by rw [hquiet.accepts]; exact haccepts)), hbytes,
        read_patch_self]
    refine Or.inl ⟨d', ?_, hbytes, hquiet, himages⟩
    simp only [hok, hback, ne_eq, not_true_eq_false, if_false]
  · exact Or.inr ⟨d', keep, by simp only [hfail], hbytes, hfailed⟩

/-- The two outcomes of a write. -/
theorem writeAndVerify_spec : ∃ status d', writeAndVerify d addr data = (status, d') ∧
      (d.fault = none → Through d d' (Arriving d.bytes addr data)) ∧
      (status = .ok ∧ d'.bytes = patch d.bytes addr data ∧ Quiet d d' ∨
        status = .errIo ∧ PartlyProgrammed d.bytes d'.bytes addr data ∧
          ∃ a, (data.length ≤ bounceBufferSize → a = addr) ∧ Failed d d' a) := by
  induction hn : data.length using Nat.strong_induction_on generalizing d addr data with
  | _ n ih =>
    by_cases hne : data = []
    · subst hne
      exact ⟨.ok, d, writeAndVerify_nil, fun _ => .refl d, Or.inl ⟨rfl, by simp, .refl d⟩⟩
    rcases writeAndVerify_chunk hcovers hprog hne with
      ⟨d', hrun, hbytes, hquiet, himages⟩ | ⟨d', keep, hrun, hbytes, hfailed⟩
    · rw [hrun]
      have hfirst : Through d d' (· = patch d.bytes addr (data.take bounceBufferSize)) :=
        .single himages hbytes
      rcases le_or_gt data.length bounceBufferSize with hlen | hlen
      · -- the last chunk
        rw [List.take_of_length_le hlen] at hbytes hfirst
        rw [List.drop_eq_nil_of_le hlen, writeAndVerify_nil]
        refine ⟨.ok, d', rfl, fun _ => hfirst.mono ?_, Or.inl ⟨rfl, hbytes, hquiet⟩⟩
        rintro g rfl
        exact ⟨data.length, le_rfl, fun _ => rfl, by rw [List.take_length]⟩
      · have hrest : (data.drop bounceBufferSize).length < n := by
          rw [List.length_drop, bounceBufferSize] at *
          omega
        have hcovers' : d'.CoversRange (addr + bounceBufferSize)
            (addr + bounceBufferSize + (data.drop bounceBufferSize).length) := by
          intro a n hlo hhi
          rw [hquiet.accepts]
          exact hcovers a n (by omega) (by rw [List.length_drop] at hhi; omega)
        obtain ⟨status, e, hrun, hthrough, hresult⟩ := ih _ hrest hcovers' (hbytes ▸ hprog.drop _) rfl
        rw [hbytes] at hthrough hresult
        refine ⟨status, e, hrun, fun hnone => ?_, ?_⟩
        · -- the images of the rest come on top of the first chunk
          refine (hfirst.mono ?_).trans ((hthrough (hquiet.fault hnone)).mono ?_)
          · rintro g rfl
            exact ⟨bounceBufferSize, hlen.le, fun h => absurd h (by omega), rfl⟩
          · rintro g ⟨m, hm, -, rfl⟩
            rw [List.length_drop] at hm
            exact ⟨bounceBufferSize + m, by omega, fun h => absurd h (by omega),
              patch_take_add hlen.le m⟩
        · rcases hresult with ⟨rfl, hpatch, hrest⟩ | ⟨rfl, hpartly, a, -, hfailed⟩
          · exact Or.inl ⟨rfl, by rw [hpatch, patch_take_drop], hquiet.trans hrest⟩
          · exact Or.inr ⟨rfl, hpartly.of_drop hprog, a, fun h => absurd h (by omega),
              hquiet.failed hfailed⟩
    · refine ⟨.errIo, d', hrun, fun hnone => absurd hnone hfailed.before,
        Or.inr ⟨rfl, ?_, addr, fun _ => rfl, hfailed⟩⟩
      rw [hbytes]
      exact partlyProgrammed_take bounceBufferSize

/-- Without a pending fault the write succeeds. -/
theorem writeAndVerify_ok (hnone : d.fault = none) :
    ∃ d', writeAndVerify d addr data = (.ok, d') ∧ d'.bytes = patch d.bytes addr data ∧
      Quiet d d' := by
  obtain ⟨status, d', hrun, -, hresult⟩ := writeAndVerify_spec hcovers hprog
  rcases hresult with ⟨rfl, hbytes, hquiet⟩ | ⟨-, -, a, -, hfailed⟩
  · exact ⟨d', hrun, hbytes, hquiet⟩
  · exact absurd hnone hfailed.before

end

/-- Short data arrives in one piece. -/
theorem Arriving.eq_of_short {f g : Image} (h : Arriving f addr data g)
    (hshort : data.length ≤ bounceBufferSize) : g = patch f addr data := by
  obtain ⟨m, -, hm, rfl⟩ := h
  rw [hm hshort, List.take_length]

end WriteBytes

/-! ## Clearing a flag -/

section ClearFlag

variable {f g : Image} {addr : ℕ} {h : EntryHeader}

/-- The header with some flags cleared. -/
def EntryHeader.clear (h : EntryHeader) (flag : UInt16) : EntryHeader :=
  { h with idflags := h.idflags &&& ~~~flag }

theorem bytes_clear (h : EntryHeader) (flag : UInt16) :
    (h.clear flag).bytes =
      [h.idflags.toUInt8 &&& (~~~flag).toUInt8, (h.idflags >>> 8).toUInt8 &&& (~~~flag >>> 8).toUInt8,
        h.len.toUInt8, (h.len >>> 8).toUInt8] := by
  simp [EntryHeader.clear, EntryHeader.bytes, le16, UInt16.shiftRight_and]

/-- A header read byte by byte. -/
theorem read_header_iff {a b c d : UInt8} :
    read f addr entryHeaderSize = [a, b, c, d] ↔
      f addr = a ∧ f (addr + 1) = b ∧ f (addr + 2) = c ∧ f (addr + 3) = d := by
  rw [show read f addr entryHeaderSize = [f addr, f (addr + 1), f (addr + 2), f (addr + 3)] from rfl]
  simp

theorem EntryHeader.bytes_eq (h : EntryHeader) :
    h.bytes = [h.idflags.toUInt8, (h.idflags >>> 8).toUInt8, h.len.toUInt8,
      (h.len >>> 8).toUInt8] := rfl

theorem EntryHeader.bytes_short (h : EntryHeader) : h.bytes.length ≤ bounceBufferSize := by
  rw [EntryHeader.length_bytes]
  decide

/-- Flags can be cleared in place. -/
theorem programmable_clear (hread : read f addr entryHeaderSize = h.bytes) (flag : UInt16) :
    Programmable f addr (h.clear flag).bytes := by
  rw [EntryHeader.bytes_eq, read_header_iff] at hread
  obtain ⟨h0, h1, h2, h3⟩ := hread
  rw [bytes_clear]
  intro i hi
  simp only [List.length_cons, List.length_nil] at hi
  interval_cases i
  · simp [h0, ← UInt8.and_assoc]
  · simp [h1, ← UInt8.and_assoc]
  · simp [h2]
  · simp [h3]

/-- A flag of the high byte is cleared completely or not at all. -/
theorem partlyProgrammed_clear (hread : read f addr entryHeaderSize = h.bytes) {flag : UInt16}
    {n : Fin 8} (hlow : (~~~flag).toUInt8 = 0xFF)
    (hhigh : (~~~flag >>> 8).toUInt8 = ~~~UInt8.ofNat (2 ^ n.1))
    (hpartly : PartlyProgrammed f g addr (h.clear flag).bytes) :
    read g addr entryHeaderSize = h.bytes ∨ read g addr entryHeaderSize = (h.clear flag).bytes := by
  have hbytes := hread
  rw [EntryHeader.bytes_eq, read_header_iff] at hbytes
  obtain ⟨h0, h1, h2, h3⟩ := hbytes
  rw [bytes_clear, hlow, hhigh] at hpartly ⊢
  obtain ⟨k0, g0⟩ := hpartly.inside 0 (by simp)
  obtain ⟨k1, g1⟩ := hpartly.inside 1 (by simp)
  obtain ⟨k2, g2⟩ := hpartly.inside 2 (by simp)
  obtain ⟨k3, g3⟩ := hpartly.inside 3 (by simp)
  simp only [List.getElem_cons_zero, List.getElem_cons_succ, Nat.add_zero, h0, h1, h2, h3,
    and_or_self, show ∀ x : UInt8, x &&& 0xFF = x from fun _ => UInt8.and_neg_one] at g0 g1 g2 g3
  rw [EntryHeader.bytes_eq, read_header_iff, read_header_iff, g0, g1, g2, g3]
  rcases and_clear_or (h.idflags >>> 8).toUInt8 k1 n with hbit | hbit
  · exact Or.inr ⟨UInt8.and_neg_one.symm, hbit, rfl, rfl⟩
  · exact Or.inl ⟨rfl, hbit, rfl, rfl⟩

end ClearFlag

/-! ## Writing an entry -/

/-- What a failed write leaves in the place of an entry. -/
structure Remnant (e x : Entry) : Prop where
  size_le : x.size ≤ e.size
  dead : x.item = .dead x.size ∨ x = e

/-- Each byte is still the old one, is final already, or has its top bit set. -/
def Approaches (f final g : Image) : Prop := ∀ a, g a = f a ∨ g a = final a ∨ 0x80 ≤ g a

/-- The images of writing an entry. -/
def Writing (f : Image) (addr : ℕ) (e : Entry) (g : Image) : Prop :=
  Approaches f (patch f addr e.bytes) g ∧
    ∃ x : Entry, x.size = e.size ∧ (x.item = .dead x.size ∨ x = e) ∧ g = patch f addr x.bytes

section WriteEntry

variable {f g : Image} {s : Sys} {addr : ℕ} {id : UInt16} {p : Payload}

/-- The header of an entry that is being written. -/
def invalidHeader (id : UInt16) (p : Payload) : EntryHeader :=
  ⟨invalidFlags id, UInt16.ofNat p.1.length⟩

theorem header_valid : (Entry.valid id p).header = (invalidHeader id p).clear entryFlagInvalid := rfl

/-- An entry with an invalid header is dead, whatever its payload. -/
theorem exists_torn (hne : invalidFlags id ≠ 0xffff)
    (outside : ∀ a, a < addr ∨ addr + (Entry.valid id p).size ≤ a → g a = f a)
    (hread : read g addr entryHeaderSize = (invalidHeader id p).bytes) :
    ∃ x : Entry, x.size = (Entry.valid id p).size ∧ x.item = .dead x.size ∧
      g = patch f addr x.bytes := by
  obtain ⟨x, hheader, hbytes⟩ := exists_entry_of_header hread hne
  have hlen := x.len_header
  have hsize : x.size = (Entry.valid id p).size := by
    have hlen' := (Entry.valid id p).len_header
    rw [hheader] at hlen
    rw [header_valid] at hlen'
    exact congrArg entrySize (hlen.symm.trans hlen')
  have hlive : x.header.live = false := by
    rw [hheader]
    simpa [EntryHeader.live, invalidHeader] using invalidFlags_not_live id
  refine ⟨x, hsize, by simp [Entry.item, hlive], eq_patch_of_outside ?_ ?_⟩
  · simpa [hsize] using outside
  · simpa using hbytes

/-- The high byte of the flags has its top bit set while an entry is written. -/
theorem invalidFlags_high (id : UInt16) : (0x80 : UInt8) ≤ (invalidFlags id >>> 8).toUInt8 := by
  have hle : entryFlagAlive.toNat ≤ (invalidFlags id).toNat := by
    rw [invalidFlags, UInt16.toNat_or, UInt16.toNat_or]
    exact Nat.right_le_or.trans Nat.left_le_or
  rw [UInt8.le_iff_toNat_le]
  have hlt := (invalidFlags id).toNat_lt
  simp [entryFlagAlive, Nat.shiftRight_eq_div_pow] at hle hlt ⊢
  omega

/-- An image with the invalid header and a payload that is being written. -/
theorem writing_of_header (hne : invalidFlags id ≠ 0xffff)
    (outside : ∀ a, a < addr ∨ addr + (Entry.valid id p).size ≤ a → g a = f a)
    (hread : read g addr entryHeaderSize = (invalidHeader id p).bytes)
    (payload : ∀ a, addr + entryHeaderSize ≤ a →
      g a = f a ∨ g a = patch f addr (Entry.valid id p).bytes a) :
    Writing f addr (Entry.valid id p) g := by
  obtain ⟨x, hsize, hdead, hpatch⟩ := exists_torn hne outside hread
  refine ⟨fun a => ?_, x, hsize, Or.inl hdead, hpatch⟩
  rcases lt_or_ge a addr with ha | ha
  · exact Or.inl (outside a (Or.inl ha))
  rcases lt_or_ge a (addr + entryHeaderSize) with ha' | ha'
  · -- inside the header
    have hfinal : read (patch f addr (Entry.valid id p).bytes) addr entryHeaderSize =
        (Entry.valid id p).header.bytes := by
      rw [Entry.bytes, patch_append, read_patch_of_disjoint (Or.inl (by simp [entryHeaderSize]))]
      exact read_patch_self
    rw [EntryHeader.bytes_eq, read_header_iff] at hread
    rw [header_valid, bytes_clear, read_header_iff] at hfinal
    obtain ⟨g0, g1, g2, g3⟩ := hread
    obtain ⟨p0, p1, p2, p3⟩ := hfinal
    obtain ⟨i, rfl⟩ := Nat.exists_eq_add_of_le ha
    simp only [entryHeaderSize, Nat.add_lt_add_iff_left] at ha'
    right
    interval_cases i
    · left
      rw [Nat.add_zero, g0, p0, show (~~~entryFlagInvalid).toUInt8 = 0xFF by decide]
      exact UInt8.and_neg_one.symm
    · right
      rw [g1]
      exact invalidFlags_high id
    · exact Or.inl (g2.trans p2.symm)
    · exact Or.inl (g3.trans p3.symm)
  · exact (payload a ha').imp_right Or.inl

/-- The zeroed header that replaces one that could not be written. -/
def Entry.zero : Entry := ⟨0, itemPayload (.dead 0), by decide⟩

/-- The two outcomes of writing an entry, and the images in between. -/
theorem writeEntry_spec (hne : invalidFlags id ≠ 0xffff)
    (hcovers : s.dev.CoversRange addr (addr + (Entry.valid id p).size))
    (hprog : Programmable s.dev.bytes addr ((invalidHeader id p).bytes ++ p.1)) :
    ∃ status s', writeEntry s addr id p.1 = (status, s') ∧
      (s.dev.fault = none → Through s.dev s'.dev (Writing s.dev.bytes addr (Entry.valid id p))) ∧
      (status = .ok ∧ s'.dev.bytes = patch s.dev.bytes addr (Entry.valid id p).bytes ∧
          s'.info = s.info.grow addr (Entry.valid id p).size ∧ Quiet s.dev s'.dev ∨
        status = .errIo ∧ (∃ a, Failed s.dev s'.dev a) ∧ ∃ x, Remnant (Entry.valid id p) x ∧
          s'.dev.bytes = patch s.dev.bytes addr x.bytes ∧ s'.info = s.info.grow addr x.size) := by
  have hsize : (Entry.valid id p).size = entryHeaderSize + p.1.length := rfl
  have hlen : (invalidHeader id p).bytes.length = entryHeaderSize := rfl
  -- the initial header
  obtain ⟨status₁, d₁, hrun₁, himages₁, hresult₁⟩ := writeAndVerify_spec
    (hcovers.mono le_rfl (by omega)) hprog.left
  have himages₁ : s.dev.fault = none →
      Through s.dev d₁ (Writing s.dev.bytes addr (Entry.valid id p)) := by
    refine fun hnone => (himages₁ hnone).mono ?_
    intro g hg
    rw [hg.eq_of_short (EntryHeader.bytes_short _)]
    exact writing_of_header hne (fun a ha => patch_of_outside (by omega)) read_patch_self
      fun a ha => Or.inl (patch_of_ge ha)
  simp only [writeEntry]
  rw [show (⟨id ||| entryFlagAlive ||| entryFlagInvalid, UInt16.ofNat p.1.length⟩ : EntryHeader) =
    invalidHeader id p from rfl, hrun₁]
  rcases hresult₁ with ⟨rfl, hbytes₁, hquiet₁⟩ | ⟨rfl, hpartly, a, -, hfailed⟩
  · -- the payload
    have hprog₂ : Programmable d₁.bytes (addr + entryHeaderSize) p.1 := by
      rw [hbytes₁]
      exact hprog.right
    have hcovers₁ := hcovers.of_accepts hquiet₁.accepts
    obtain ⟨status₂, d₂, hrun₂, himages₂, hresult₂⟩ := writeAndVerify_spec
      (hcovers₁.mono (by omega) (by omega)) hprog₂
    -- until the payload is complete the header stays invalid
    have hkeep {g : Image} (outside : ∀ a, a < addr + entryHeaderSize ∨
        addr + entryHeaderSize + p.1.length ≤ a → g a = d₁.bytes a) :
        (∀ a, a < addr ∨ addr + (Entry.valid id p).size ≤ a → g a = s.dev.bytes a) ∧
          read g addr entryHeaderSize = (invalidHeader id p).bytes := by
      constructor
      · intro a ha
        rw [outside a (by omega), hbytes₁]
        exact patch_of_outside (by omega)
      · rw [read_congr (g := d₁.bytes) fun a h1 h2 => outside a (Or.inl h2), hbytes₁]
        exact read_patch_self
    have himages₂ : s.dev.fault = none →
        Through d₁ d₂ (Writing s.dev.bytes addr (Entry.valid id p)) := by
      refine fun hnone => (himages₂ (hquiet₁.fault hnone)).mono ?_
      rintro g ⟨m, hm, -, rfl⟩
      obtain ⟨houtside, hread⟩ := hkeep (g := patch d₁.bytes (addr + entryHeaderSize) (p.1.take m))
        fun a ha => patch_of_outside (by rw [List.length_take]; omega)
      refine writing_of_header hne houtside hread fun a ha => ?_
      obtain ⟨i, rfl⟩ := Nat.exists_eq_add_of_le ha
      rcases lt_or_ge i m with hi | hi
      · right
        rw [patch_at (by rw [List.length_take]; omega), Entry.bytes, patch_append,
          EntryHeader.length_bytes, List.getElem_take]
        exact (patch_at (show i < p.1.length by omega)).symm
      · left
        rw [patch_of_ge (by rw [List.length_take]; omega), hbytes₁]
        exact patch_of_ge (by omega)
    simp only [hrun₂]
    rcases hresult₂ with ⟨rfl, hbytes₂, hquiet₂⟩ | ⟨rfl, hpartly, a, -, hfailed⟩
    · -- the final header
      have hread₂ : read d₂.bytes addr entryHeaderSize = (invalidHeader id p).bytes :=
        (hkeep fun a ha => by rw [hbytes₂]; exact patch_of_outside ha).2
      have hpayload₂ : read d₂.bytes (addr + entryHeaderSize) p.1.length = p.1 := by
        rw [hbytes₂]
        exact read_patch_self
      obtain ⟨status₃, d₃, hrun₃, himages₃, hresult₃⟩ := writeAndVerify_spec
        ((hcovers₁.of_accepts hquiet₂.accepts).mono le_rfl
          (Nat.add_le_add_left (Nat.le_add_right _ _) _))
        (programmable_clear hread₂ entryFlagInvalid)
      -- it touches nothing but the header
      have hrest {g : Image} (outside : ∀ a, a < addr ∨ addr + entryHeaderSize ≤ a →
          g a = d₂.bytes a) :
          (∀ a, a < addr ∨ addr + (Entry.valid id p).size ≤ a → g a = s.dev.bytes a) ∧
            read g (addr + entryHeaderSize) p.1.length = p.1 := by
        constructor
        · intro a ha
          rw [outside a (by omega), hbytes₂, patch_of_outside (by omega), hbytes₁]
          exact patch_of_outside (by omega)
        · rw [read_congr fun a h1 h2 => outside a (Or.inr h1), hpayload₂]
      have hfinal {g : Image} (outside : ∀ a, a < addr ∨ addr + entryHeaderSize ≤ a →
          g a = d₂.bytes a)
          (hread : read g addr entryHeaderSize = (Entry.valid id p).header.bytes) :
          g = patch s.dev.bytes addr (Entry.valid id p).bytes := by
        refine eq_patch_of_outside (fun a ha => (hrest outside).1 a (by simpa using ha)) ?_
        rw [Entry.bytes, List.length_append, read_append_iff]
        exact ⟨hread, (hrest outside).2⟩
      have himages₃ : s.dev.fault = none →
          Through d₂ d₃ (Writing s.dev.bytes addr (Entry.valid id p)) := by
        refine fun hnone => (himages₃ (hquiet₂.fault (hquiet₁.fault hnone))).mono fun g hg => ?_
        rw [hg.eq_of_short (EntryHeader.bytes_short _)]
        have hg : patch d₂.bytes addr ((invalidHeader id p).clear entryFlagInvalid).bytes = _ :=
          hfinal (fun a ha => patch_of_outside ha) read_patch_self
        exact ⟨fun a => Or.inr (Or.inl (congrFun hg a)), _, rfl, Or.inr rfl, hg⟩
      simp only [show (⟨(id ||| entryFlagAlive ||| entryFlagInvalid) &&& ~~~entryFlagInvalid,
        UInt16.ofNat p.1.length⟩ : EntryHeader) = (invalidHeader id p).clear entryFlagInvalid from rfl,
        hrun₃]
      refine ⟨status₃, _, rfl, fun hnone =>
        ((himages₁ hnone).trans (himages₂ hnone)).trans (himages₃ hnone), ?_⟩
      rcases hresult₃ with ⟨rfl, hbytes₃, hquiet₃⟩ | ⟨rfl, hpartly, a, -, hfailed⟩
      · refine Or.inl ⟨rfl, ?_, rfl, (hquiet₁.trans hquiet₂).trans hquiet₃⟩
        rw [hbytes₃]
        exact hfinal (fun a ha => patch_of_outside ha) read_patch_self
      · -- the flag is cleared or not
        refine Or.inr ⟨rfl, ⟨a, (hquiet₁.trans hquiet₂).failed hfailed⟩, ?_⟩
        rcases partlyProgrammed_clear (n := 6) hread₂ (by decide) (by decide) hpartly with
          hread | hread
        · obtain ⟨x, hxsize, hdead, hpatch⟩ := exists_torn hne (hrest hpartly.outside).1 hread
          exact ⟨x, ⟨hxsize.le, Or.inl hdead⟩, hpatch, by rw [hxsize]; rfl⟩
        · exact ⟨_, ⟨le_rfl, Or.inr rfl⟩, hfinal hpartly.outside hread, rfl⟩
    · obtain ⟨houtside, hread⟩ := hkeep hpartly.outside
      obtain ⟨x, hxsize, hdead, hpatch⟩ := exists_torn hne houtside hread
      refine ⟨.errIo, _, rfl, fun hnone => (himages₁ hnone).trans (himages₂ hnone),
        Or.inr ⟨rfl, ⟨a, hquiet₁.failed hfailed⟩, x, ⟨hxsize.le, Or.inl hdead⟩, hpatch, ?_⟩⟩
      rw [hxsize]
      rfl
  · -- the header is zeroed
    have hcovers₁ := hcovers.of_accepts hfailed.accepts
    have hzero : Programmable d₁.bytes addr (EntryHeader.bytes ⟨0, 0⟩) := programmable_zeros 4
    obtain ⟨d₂, hrun₂, hbytes₂, hquiet₂⟩ := writeAndVerify_ok
      (hcovers₁.mono le_rfl (Nat.add_le_add_left (Nat.le_add_right _ _) _)) hzero hfailed.after
    simp only [hrun₂]
    refine ⟨.errIo, _, rfl, fun hnone => absurd hnone hfailed.before, Or.inr ⟨rfl,
      ⟨a, hfailed.quiet hquiet₂⟩, Entry.zero, ⟨Nat.le_add_right _ _, Or.inl rfl⟩, ?_, rfl⟩⟩
    rw [hbytes₂, show EntryHeader.bytes ⟨0, 0⟩ = Entry.zero.bytes from rfl]
    refine eq_patch_of_outside (fun a ha => ?_) read_patch_self
    rw [patch_of_outside ha, hpartly.outside a ha]

end WriteEntry

/-! ## Deleting an entry -/

section DeleteEntry

variable {d : Device} {addr : ℕ} {h : EntryHeader}

/-- The two outcomes of deleting an entry. A failed write deletes it or not. -/
theorem deleteEntry_spec (hcovers : d.CoversRange addr (addr + entryHeaderSize))
    (hread : read d.bytes addr entryHeaderSize = h.bytes) :
    ∃ status d', deleteEntry d addr = (status, d') ∧
      (d.fault = none → Through d d' (· = patch d.bytes addr (h.clear entryFlagAlive).bytes)) ∧
      (status = .ok ∧ d'.bytes = patch d.bytes addr (h.clear entryFlagAlive).bytes ∧ Quiet d d' ∨
        status = .errIo ∧ (∃ a, Failed d d' a) ∧
          (d'.bytes = d.bytes ∨ d'.bytes = patch d.bytes addr (h.clear entryFlagAlive).bytes)) := by
  have hheader : readEntryHeader d addr = some h := by
    have haccepts : d.accepts addr entryHeaderSize = true := hcovers _ _ le_rfl le_rfl
    simp [readEntryHeader, spiflashRead, haccepts, hread]
  obtain ⟨status, d', hrun, himages, hresult⟩ := writeAndVerify_spec hcovers
    (programmable_clear hread entryFlagAlive)
  refine ⟨status, d', ?_, fun hnone => (himages hnone).mono fun g hg =>
    hg.eq_of_short (EntryHeader.bytes_short _), ?_⟩
  · simp only [deleteEntry, hheader]
    exact hrun
  · rcases hresult with hok | ⟨rfl, hpartly, a, -, hfailed⟩
    · exact Or.inl hok
    · refine Or.inr ⟨rfl, ⟨a, hfailed⟩, ?_⟩
      rcases partlyProgrammed_clear (n := 7) hread (by decide) (by decide) hpartly with hsame | hclear
      · left
        have hpatch : d'.bytes = patch d.bytes addr h.bytes := eq_patch_of_outside hpartly.outside hsame
        rw [hpatch]
        exact (eq_patch_of_outside (fun _ _ => rfl) hread).symm
      · exact Or.inr (eq_patch_of_outside hpartly.outside hclear)

end DeleteEntry

/-! ## Regions -/

section Regions

variable {d : Device} {addr : ℕ}

/-- Formatting erases sector by sector. -/
theorem formatRegion_spec (n : ℕ) (haligned : addr % sectorSize = 0)
    (hcovers : d.CoversRange addr (addr + n * sectorSize)) :
    ∃ d', formatRegion d addr n = (.ok, d') ∧ d'.bytes = erase d.bytes addr (n * sectorSize) ∧
      Quiet d d' ∧
      Through d d' fun g => ∃ j, 1 ≤ j ∧ j ≤ n ∧ g = erase d.bytes addr (j * sectorSize) := by
  induction n generalizing d addr with
  | zero => exact ⟨d, rfl, by simp [erase_zero], .refl d, .refl d⟩
  | succ n ih =>
    have haccepts : d.accepts addr sectorSize = true :=
      hcovers _ _ le_rfl (by rw [Nat.succ_mul]; omega)
    have hcovers' : d.CoversRange (addr + sectorSize) (addr + sectorSize + n * sectorSize) :=
      hcovers.mono (by omega) (by rw [Nat.succ_mul]; omega)
    obtain ⟨d', hrun, hbytes, hquiet, himages⟩ := ih (d := d.store (erase d.bytes addr sectorSize))
      (by rw [Nat.add_mod_right, haligned]) hcovers'
    -- erasing the first sectors, then more of them
    have hmore (j : ℕ) : erase (erase d.bytes addr sectorSize) (addr + sectorSize) (j * sectorSize) =
        erase d.bytes addr ((j + 1) * sectorSize) := by
      rw [erase_erase, Nat.succ_mul, Nat.add_comm sectorSize]
    refine ⟨d', ?_, ?_, ⟨hquiet.accepts, hquiet.fault, hquiet.failedAt⟩, ?_⟩
    · simp only [formatRegion, spiflashEraseSector, haccepts, haligned, and_self, if_true]
      exact hrun
    · rw [hbytes]
      exact hmore n
    · have hfirst : Through d (d.store (erase d.bytes addr sectorSize))
          (fun g => ∃ j, 1 ≤ j ∧ j ≤ n + 1 ∧ g = erase d.bytes addr (j * sectorSize)) :=
        .single rfl ⟨1, le_rfl, by omega, by rw [Nat.one_mul]; rfl⟩
      refine hfirst.trans (himages.mono ?_)
      rintro g ⟨j, hj, hjn, rfl⟩
      exact ⟨j + 1, by omega, by omega, hmore j⟩

/-- The bytes of a region header. -/
def headerBytes (addr other : ℕ) (active : Bool) : List UInt8 :=
  RegionHeader.bytes ⟨sysparamMagic, regionFlags addr other active, 0⟩

@[simp]
theorem length_headerBytes (addr other : ℕ) (active : Bool) :
    (headerBytes addr other active).length = regionHeaderSize := rfl

theorem headerBytes_short (addr other : ℕ) (active : Bool) :
    (headerBytes addr other active).length ≤ bounceBufferSize := by
  rw [length_headerBytes]
  decide

theorem writeRegionHeader_eq (d : Device) (addr other : ℕ) (active : Bool) :
    writeRegionHeader d addr other active =
      match writeAndVerify d addr (headerBytes addr other active) with
      | (.ok, d) => (.ok, d)
      | (_, d) => (.errIo, (writeAndVerify d addr (List.replicate regionHeaderSize 0)).2) := rfl

/-- The two outcomes of writing a region header. After a failed write it is
zeroed. -/
theorem writeRegionHeader_spec (other : ℕ) (active : Bool)
    (hcovers : d.CoversRange addr (addr + regionHeaderSize))
    (hprog : Programmable d.bytes addr (headerBytes addr other active)) :
    ∃ status d', writeRegionHeader d addr other active = (status, d') ∧
      (d.fault = none → Through d d' (· = patch d.bytes addr (headerBytes addr other active))) ∧
      (status = .ok ∧ d'.bytes = patch d.bytes addr (headerBytes addr other active) ∧ Quiet d d' ∨
        status = .errIo ∧ Failed d d' addr ∧
          d'.bytes = patch d.bytes addr (List.replicate regionHeaderSize 0)) := by
  obtain ⟨status, d₁, hrun, himages, hresult⟩ := writeAndVerify_spec
    (hcovers.mono le_rfl (by simp)) hprog
  rw [writeRegionHeader_eq, hrun]
  rcases hresult with ⟨rfl, hbytes, hquiet⟩ | ⟨rfl, hpartly, a, ha, hfailed⟩
  · exact ⟨.ok, d₁, rfl, fun hnone => (himages hnone).mono fun g hg => hg.eq_of_short (headerBytes_short _ _ _),
      Or.inl ⟨rfl, hbytes, hquiet⟩⟩
  · obtain rfl := ha (headerBytes_short _ _ _)
    obtain ⟨d₂, hrun₂, hbytes₂, hquiet₂⟩ := writeAndVerify_ok
      ((hcovers.of_accepts hfailed.accepts).mono le_rfl (by simp))
      (programmable_zeros regionHeaderSize) hfailed.after
    simp only [hrun₂]
    refine ⟨.errIo, d₂, rfl, fun hnone => absurd hnone hfailed.before,
      Or.inr ⟨rfl, hfailed.quiet hquiet₂, ?_⟩⟩
    rw [hbytes₂]
    refine eq_patch_of_outside (fun x hx => ?_) read_patch_self
    rw [patch_of_outside hx, hpartly.outside x (by simpa using hx)]

end Regions

end EspOpenRtos.Sysparam
