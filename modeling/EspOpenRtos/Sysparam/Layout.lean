/-
# Regions as logs

A region holds its entries back to back, followed by erased space. A walk over
it need not stop exactly at the last entry: with a single erased byte left, the
header that is read there reaches into whatever follows the region. The walk
then sees one more entry, which is why walks are described separately from the
layout.
-/

import EspOpenRtos.Sysparam.Entries

namespace EspOpenRtos.Sysparam

open Math Math.NorFlash

/-! ## Stored entries -/

/-- The entries are stored back to back from an address on. -/
def Stored (f : Image) : ℕ → List Entry → Prop
  | _, [] => True
  | addr, e :: L => read f addr e.size = e.bytes ∧ Stored f (addr + e.size) L

/-- A region with a log: entries, then erased space up to the top. -/
structure Layout (f : Image) (base top : ℕ) (L : List Entry) : Prop where
  stored : Stored f (base + regionHeaderSize) L
  fits : base + regionHeaderSize + logSize (items L) ≤ top
  erased : ∀ a, base + regionHeaderSize + logSize (items L) ≤ a → a < top → f a = 0xFF

/-- What a walk from an address on sees, entry by entry, up to the top. The live
entries end at `hi` or below. -/
def Walk (f : Image) (top hi : ℕ) : ℕ → List Entry → Prop
  | addr, [] => addr < top → (EntryHeader.ofBytes (read f addr entryHeaderSize)).idflags = 0xffff
  | addr, e :: W =>
    addr < top ∧ read f addr e.size = e.bytes ∧ (e.header.live = true → addr + e.size ≤ hi) ∧
      Walk f top hi (addr + e.size) W

section Stored

variable {f g : Image} {addr : ℕ} {e : Entry} {L M : List Entry}

theorem stored_append :
    Stored f addr (L ++ M) ↔ Stored f addr L ∧ Stored f (addr + logSize (items L)) M := by
  induction L generalizing addr with
  | nil => simp [Stored]
  | cons e L ih =>
    simp only [List.cons_append, Stored, ih, items_cons, logSize_cons, Entry.itemSize_item,
      Nat.add_assoc, and_assoc]

theorem stored_congr (h : Stored f addr L)
    (same : ∀ a, addr ≤ a → a < addr + logSize (items L) → g a = f a) : Stored g addr L := by
  induction L generalizing addr with
  | nil => trivial
  | cons e L ih =>
    simp only [items_cons, logSize_cons, Entry.itemSize_item] at same
    refine ⟨?_, ih h.2 fun a h1 h2 => same a (by omega) (by omega)⟩
    rw [← h.1]
    exact read_congr fun a h1 h2 => same a h1 (by omega)

/-- Header and payload of a stored entry. -/
theorem read_entry (h : read f addr e.size = e.bytes) :
    read f addr entryHeaderSize = e.header.bytes ∧
      read f (addr + entryHeaderSize) e.payload.1.length = e.payload.1 := by
  have hlen : e.header.bytes.length = entryHeaderSize := rfl
  rw [← hlen]
  exact read_append_iff.mp h

theorem le16_ofLe16 (lo hi : UInt8) : le16 (ofLe16 lo hi) = [lo, hi] := by
  have hlo := lo.toNat_lt
  have hhi := hi.toNat_lt
  simp only [le16, ofLe16, List.cons.injEq, and_true]
  constructor
  · apply UInt8.toNat_inj.mp
    simp
  · apply UInt8.toNat_inj.mp
    simp [Nat.shiftRight_eq_div_pow]
    omega

theorem EntryHeader.bytes_ofBytes {l : List UInt8} (h : l.length = 4) :
    (EntryHeader.ofBytes l).bytes = l := by
  match l, h with
  | [i0, i1, l0, l1], _ => simp [EntryHeader.ofBytes, EntryHeader.bytes, le16_ofLe16]

/-- Whatever stands in flash reads as some entry, unless it is unwritten. -/
theorem exists_entry_of_header {h : EntryHeader} (hread : read f addr entryHeaderSize = h.bytes)
    (hwritten : h.idflags ≠ 0xffff) : ∃ e : Entry, e.header = h ∧ read f addr e.size = e.bytes := by
  refine ⟨⟨h.idflags, ⟨read f (addr + entryHeaderSize) h.len.toNat, ?_⟩, hwritten⟩, ?_, ?_⟩
  · simpa using h.len.toNat_lt
  · simp [Entry.header]
  · simp only [Entry.size, Entry.bytes, entrySize, length_read, Entry.header, read_add, hread]
    congr 1
    simp

end Stored

/-! ## Walks -/

section Walk

variable {f : Image} {addr top hi : ℕ} {e : Entry} {L W : List Entry}

theorem walk_append (h : Walk f top hi addr (L ++ W)) : Walk f top hi (addr + logSize (items L)) W := by
  induction L generalizing addr with
  | nil => exact h
  | cons e L ih =>
    have hrest := ih h.2.2.2
    simpa only [items_cons, logSize_cons, Entry.itemSize_item, Nat.add_assoc] using hrest

/-- A stored log that ends below the top or at it is seen by a walk. -/
theorem walk_of_stored (h : Stored f addr L) (hfits : addr + logSize (items L) ≤ top) (hhi : top ≤ hi)
    (hwalk : Walk f top hi (addr + logSize (items L)) W) : Walk f top hi addr (L ++ W) := by
  induction L generalizing addr with
  | nil => exact hwalk
  | cons e L ih =>
    simp only [items_cons, logSize_cons, Entry.itemSize_item, ← Nat.add_assoc] at hfits hwalk
    have hpos := e.size_pos
    exact ⟨by omega, h.1, fun _ => by omega, ih h.2 hfits hwalk⟩

/-- The byte behind a region cannot turn a lone erased byte into a live entry. -/
def Inert (x : UInt8) : Prop := x &&& 0xC0 ≠ 0x80

instance (x : UInt8) : Decidable (Inert x) := inferInstanceAs (Decidable (x &&& 0xC0 ≠ 0x80))

theorem header_at (f : Image) (addr : ℕ) :
    EntryHeader.ofBytes (read f addr entryHeaderSize) =
      ⟨ofLe16 (f addr) (f (addr + 1)), ofLe16 (f (addr + 2)) (f (addr + 3))⟩ := rfl

theorem ofLe16_erased_and (n : Fin 256) :
    ofLe16 0xFF (UInt8.ofNat n) &&& (entryFlagAlive ||| entryFlagInvalid) = entryFlagAlive →
      UInt8.ofNat n &&& 0xC0 = 0x80 := by
  revert n
  decide +kernel

/-- A lone erased byte reads as unwritten only if another one follows. -/
theorem ofLe16_erased_eq (x : UInt8) : ofLe16 0xFF x = 0xffff ↔ x = 0xFF := by
  have hx := x.toNat_lt
  rw [← UInt16.toNat_inj, ← UInt8.toNat_inj]
  simp [ofLe16]
  omega

/-- An entry that starts with an erased byte before an inert one is dead. -/
theorem live_of_inert {x : UInt8} (inert : Inert x) (hflags : e.idflags = ofLe16 0xFF x) :
    e.header.live = false := by
  have hx := ofLe16_erased_and ⟨x.toNat, x.toNat_lt⟩
  simp only [UInt8.ofNat_toNat] at hx
  simp only [EntryHeader.live, Entry.header, hflags, beq_eq_false_iff_ne]
  exact fun h => inert (hx h)

/-- A walk over erased space sees at most one entry, which is dead and starts at
the last byte of the region. -/
theorem walk_of_erased (erased : ∀ a, addr ≤ a → a < top → f a = 0xFF)
    (inert : addr + 1 = top → Inert (f top)) :
    ∃ T, Walk f top hi addr T ∧ KeyedLog.Dead (items T) ∧ (T = [] ∨ addr + 1 = top ∧ ∃ x, T = [x]) := by
  by_cases hwritten : addr < top →
      (EntryHeader.ofBytes (read f addr entryHeaderSize)).idflags = 0xffff
  · exact ⟨[], hwritten, nofun, Or.inl rfl⟩
  · push Not at hwritten
    obtain ⟨hlt, hwritten⟩ := hwritten
    have hfirst := erased addr le_rfl hlt
    -- both flag bytes inside the region would be erased
    have hlast : addr + 1 = top := by
      by_contra hne
      rw [header_at, hfirst, erased (addr + 1) (by omega) (by omega)] at hwritten
      exact hwritten (show ofLe16 0xFF 0xFF = 0xffff by decide)
    obtain ⟨e, hheader, hread⟩ := exists_entry_of_header
      (EntryHeader.bytes_ofBytes (l := read f addr entryHeaderSize) (by simp [entryHeaderSize])).symm
      hwritten
    have hflags : e.idflags = ofLe16 0xFF (f top) := by
      have hidflags := congrArg EntryHeader.idflags hheader
      rwa [header_at, hfirst, hlast] at hidflags
    have hlive := live_of_inert (inert hlast) hflags
    refine ⟨[e], ⟨hlt, hread, by simp [hlive], fun hend => ?_⟩, ?_, Or.inr ⟨hlast, e, rfl⟩⟩
    · have := e.four_le_size
      omega
    · simp [KeyedLog.Dead, Entry.item, hlive]

end Walk

end EspOpenRtos.Sysparam
