/-
# Entries as log items

An entry is a header and a payload. What a reader makes of it depends on four
flag bits: it is a key, a value, or neither. This module reads the flags once,
turning entries into items of a keyed log, and gives the entries that the store
writes for a given item. Everything after it speaks about items.
-/

import EspOpenRtos.Math.LogUpdate
import EspOpenRtos.Sysparam.Device

namespace EspOpenRtos.Sysparam

open Math Math.KeyedLog

/-- Keys and values are byte strings whose length fits the header. -/
abbrev Payload := { p : List UInt8 // p.length < 0x10000 }

/-- A stored value and its binary flag. -/
abbrev Content := Payload × Bool

/-- The log that a region stands for. -/
abbrev Items := KeyedLog.Log Payload Content

/-- An entry of a region. The flags `0xffff` mark unwritten space. -/
structure Entry where
  idflags : UInt16
  payload : Payload
  written : idflags ≠ 0xffff

def Entry.header (e : Entry) : EntryHeader := ⟨e.idflags, UInt16.ofNat e.payload.1.length⟩

def Entry.size (e : Entry) : ℕ := entrySize e.payload.1.length

def Entry.bytes (e : Entry) : List UInt8 := e.header.bytes ++ e.payload.1

/-- What a reader makes of an entry. -/
def Entry.item (e : Entry) : Item Payload Content :=
  if e.header.live then
    if e.header.isValue then .value e.header.id (e.payload, e.header.isBinary)
    else .key e.header.id e.payload
  else .dead e.size

def items (L : List Entry) : Items := L.map Entry.item

/-- The size of an item in flash. -/
def itemSize : Item Payload Content → ℕ
  | .key _ name => entrySize name.1.length
  | .value _ content => entrySize content.1.1.length
  | .dead size => size

/-- The space a log takes. -/
def logSize (I : Items) : ℕ := size itemSize I

theorem uniform_itemSize : KeyedLog.Uniform itemSize := ⟨fun _ _ _ => rfl, fun _ _ _ => rfl⟩

/-! ## Sizes -/

@[simp]
theorem Entry.len_header (e : Entry) : e.header.len.toNat = e.payload.1.length := by
  have hshort := e.payload.2
  simp only [Entry.header, UInt16.toNat_ofNat']
  omega

@[simp]
theorem Entry.length_bytes (e : Entry) : e.bytes.length = e.size := by
  simp [Entry.bytes, Entry.size, entrySize, entryHeaderSize]

theorem Entry.size_pos (e : Entry) : 0 < e.size := by
  simp [Entry.size, entrySize, entryHeaderSize]

theorem Entry.four_le_size (e : Entry) : 4 ≤ e.size := by
  simp [Entry.size, entrySize, entryHeaderSize]

@[simp]
theorem Entry.itemSize_item (e : Entry) : itemSize e.item = e.size := by
  simp only [Entry.item]
  split_ifs <;> rfl

@[simp]
theorem logSize_nil : logSize [] = 0 := rfl

@[simp]
theorem logSize_cons (item : Item Payload Content) (I : Items) :
    logSize (item :: I) = itemSize item + logSize I := size_cons _ _

@[simp]
theorem logSize_append (I J : Items) : logSize (I ++ J) = logSize I + logSize J :=
  size_append _ _ _

@[simp]
theorem items_nil : items [] = [] := rfl

@[simp]
theorem items_cons (e : Entry) (L : List Entry) : items (e :: L) = e.item :: items L := rfl

@[simp]
theorem items_append (L M : List Entry) : items (L ++ M) = items L ++ items M := List.map_append

/-! ## Searching -/

section Match

variable {e : Entry}

theorem Entry.item_eq_key {id : ℕ} {name : Payload} (h : e.item = .key id name) :
    e.header.id = id ∧ e.payload = name ∧ e.header.live = true ∧ e.header.isValue = false := by
  simp only [Entry.item] at h
  split_ifs at h with hlive hvalue
  injection h with hid hname
  exact ⟨hid, hname, hlive, by simpa using hvalue⟩

theorem Entry.item_eq_value {id : ℕ} {content : Content} (h : e.item = .value id content) :
    e.header.id = id ∧ e.payload = content.1 ∧ e.header.isBinary = content.2 ∧
      e.header.live = true ∧ e.header.isValue = true := by
  simp only [Entry.item] at h
  split_ifs at h with hlive hvalue
  injection h with hid hcontent
  exact ⟨hid, congrArg Prod.fst hcontent, congrArg Prod.snd hcontent, hlive, hvalue⟩

/-- The search for any key stops at key items. -/
theorem Entry.isMatch_any : e.header.isMatch entryIdAny false = true ↔ ∃ id name, e.item = .key id name := by
  constructor
  · intro h
    simp only [EntryHeader.isMatch, Bool.and_eq_true, beq_iff_eq] at h
    exact ⟨e.header.id, e.payload, by simp [Entry.item, h.1.1, h.1.2]⟩
  · rintro ⟨id, name, h⟩
    obtain ⟨-, -, hlive, hvalue⟩ := Entry.item_eq_key h
    simp [EntryHeader.isMatch, hlive, hvalue]

/-- The search for a value stops at value items with the given id. -/
theorem Entry.isMatch_value {id : ℕ} (hid : id ≠ entryIdAny) :
    e.header.isMatch id true = true ↔ ∃ content, e.item = .value id content := by
  constructor
  · intro h
    simp only [EntryHeader.isMatch, Bool.and_eq_true, beq_iff_eq, Bool.or_eq_true, hid,
      or_false] at h
    exact ⟨(e.payload, e.header.isBinary), by simp [Entry.item, h.1.1, h.1.2, h.2]⟩
  · rintro ⟨content, h⟩
    obtain ⟨hid', -, -, hlive, hvalue⟩ := Entry.item_eq_value h
    simp [EntryHeader.isMatch, hlive, hvalue, hid']

/-- The scan to the end is stopped by a key with the end id only. -/
theorem Entry.isMatch_end (h : e.header.isMatch entryIdEnd false = true) :
    ∃ name, e.item = .key entryIdEnd name := by
  simp only [EntryHeader.isMatch, Bool.and_eq_true, beq_iff_eq, Bool.or_eq_true] at h
  have hid : e.header.id = entryIdEnd := h.2.resolve_right (by decide)
  exact ⟨e.payload, by simp [Entry.item, h.1.1, h.1.2, hid]⟩

end Match

/-! ## Flag bits -/

theorem or_and_distrib (a b c : UInt16) : (a ||| b) &&& c = a &&& c ||| b &&& c := by
  apply UInt16.eq_of_toBitVec_eq
  ext i
  simp [Bool.and_or_distrib_right]

/-- Ids have no bits in common with the flags. -/
theorem ofNat_and_mask {i : ℕ} (h : i < 0x1000) : UInt16.ofNat i &&& 0xfff = UInt16.ofNat i := by
  apply UInt16.toNat_inj.mp
  rw [UInt16.toNat_and, UInt16.toNat_ofNat_of_lt' (by simp [UInt16.size]; omega)]
  exact (Nat.and_two_pow_sub_one_eq_mod i 12).trans (Nat.mod_eq_of_lt h)

theorem ofNat_and_flag {i : ℕ} (h : i < 0x1000) {flag : UInt16} (hflag : 0xfff &&& flag = 0) :
    UInt16.ofNat i &&& flag = 0 := by
  rw [← ofNat_and_mask h, UInt16.and_assoc, hflag, UInt16.and_zero]

/-- The flags of an entry while it is being written. -/
def invalidFlags (id : UInt16) : UInt16 := id ||| entryFlagAlive ||| entryFlagInvalid

/-- The flags of an entry once it has been written. -/
def validFlags (id : UInt16) : UInt16 := invalidFlags id &&& ~~~entryFlagInvalid

theorem validFlags_ne (id : UInt16) : validFlags id ≠ 0xffff := by
  intro h
  have hbit := congrArg (· &&& entryFlagInvalid) h
  simp only [validFlags, UInt16.and_assoc,
    show ~~~entryFlagInvalid &&& entryFlagInvalid = 0 by decide, UInt16.and_zero] at hbit
  exact absurd hbit (by decide)

/-- Making an entry valid keeps the bits that are no state flags. -/
theorem validFlags_and {id mask : UInt16} (hvalid : ~~~entryFlagInvalid &&& mask = mask)
    (hstate : (entryFlagAlive ||| entryFlagInvalid) &&& mask = 0) :
    validFlags id &&& mask = id &&& mask := by
  rw [validFlags, UInt16.and_assoc, hvalid, invalidFlags, UInt16.or_assoc, or_and_distrib, hstate,
    UInt16.or_zero]

theorem validFlags_live {id : UInt16} (h : id &&& entryFlagAlive = 0) :
    validFlags id &&& (entryFlagAlive ||| entryFlagInvalid) = entryFlagAlive := by
  have hmask : ~~~entryFlagInvalid &&& (entryFlagAlive ||| entryFlagInvalid) = entryFlagAlive := by
    decide
  rw [validFlags, UInt16.and_assoc, hmask, invalidFlags, or_and_distrib, or_and_distrib, h]
  decide

theorem or_and_self (a b : UInt16) : (a ||| b) &&& b = b := by
  apply UInt16.eq_of_toBitVec_eq
  ext i
  simp only [UInt16.toBitVec_and, UInt16.toBitVec_or, BitVec.getElem_and, BitVec.getElem_or]
  cases a.toBitVec[i] <;> simp

theorem invalidFlags_not_live (id : UInt16) :
    invalidFlags id &&& (entryFlagAlive ||| entryFlagInvalid) ≠ entryFlagAlive := by
  intro h
  have hbit := congrArg (· &&& entryFlagInvalid) h
  simp only [invalidFlags, UInt16.and_assoc, show (entryFlagAlive ||| entryFlagInvalid) &&&
    entryFlagInvalid = entryFlagInvalid by decide, or_and_self] at hbit
  exact absurd hbit (by decide)

theorem invalidFlags_ne {id : UInt16} (h : id &&& entryMaskId ≠ entryMaskId) :
    invalidFlags id ≠ 0xffff := by
  intro hflags
  have hbits := congrArg (· &&& entryMaskId) hflags
  simp only [invalidFlags, UInt16.or_assoc, or_and_distrib] at hbits
  rw [show entryFlagAlive &&& entryMaskId ||| entryFlagInvalid &&& entryMaskId = 0 by decide,
    UInt16.or_zero, show (0xffff : UInt16) &&& entryMaskId = entryMaskId by decide] at hbits
  exact h hbits

theorem dead_flags_ne (x : UInt16) : x &&& ~~~entryFlagAlive ≠ 0xffff := by
  intro h
  have hbit := congrArg (· &&& entryFlagAlive) h
  simp only [UInt16.and_assoc, show ~~~entryFlagAlive &&& entryFlagAlive = 0 by decide,
    UInt16.and_zero] at hbit
  exact absurd hbit (by decide)

theorem dead_flags_not_live (x : UInt16) :
    x &&& ~~~entryFlagAlive &&& (entryFlagAlive ||| entryFlagInvalid) ≠ entryFlagAlive := by
  intro h
  have hbit := congrArg (· &&& entryFlagAlive) h
  have hmask : ~~~entryFlagAlive &&& (entryFlagAlive ||| entryFlagInvalid) &&& entryFlagAlive = 0 := by
    decide
  simp only [UInt16.and_assoc] at hbit hmask
  rw [hmask, UInt16.and_zero] at hbit
  exact absurd hbit (by decide)

/-! ## The entries of the store -/

/-- The id field of a value entry. -/
def valueField (id : ℕ) (isBinary : Bool) : UInt16 :=
  UInt16.ofNat id ||| entryFlagValue ||| if isBinary then entryFlagBinary else 0

/-- The field with which `_write_entry` is called for an item. -/
def itemField : Item Payload Content → UInt16
  | .key id _ => UInt16.ofNat id
  | .value id content => valueField id content.2
  | .dead _ => 0

def itemPayload : Item Payload Content → Payload
  | .key _ name => name
  | .value _ content => content.1
  | .dead _ => ⟨[], by decide⟩

/-- A complete entry with the given id field. -/
def Entry.valid (id : UInt16) (p : Payload) : Entry := ⟨validFlags id, p, validFlags_ne id⟩

/-- The entry that is written for an item. -/
def Entry.ofItem (item : Item Payload Content) : Entry :=
  Entry.valid (itemField item) (itemPayload item)

/-- The item is one that the store writes. -/
def Writable : Item Payload Content → Prop
  | .key id _ => id < 0xfff
  | .value id _ => id < 0xfff
  | .dead _ => False

theorem valueField_and_mask {id : ℕ} (h : id < 0x1000) (isBinary : Bool) :
    valueField id isBinary &&& entryMaskId = UInt16.ofNat id := by
  have hrest : (entryFlagValue ||| if isBinary then entryFlagBinary else 0) &&& entryMaskId = 0 := by
    cases isBinary <;> decide
  rw [valueField, UInt16.or_assoc, or_and_distrib, hrest, UInt16.or_zero]
  exact ofNat_and_mask h

theorem valueField_and_flag {id : ℕ} (h : id < 0x1000) (isBinary : Bool) {flag : UInt16}
    (hflag : 0xfff &&& flag = 0) :
    valueField id isBinary &&& flag =
      (entryFlagValue ||| if isBinary then entryFlagBinary else 0) &&& flag := by
  rw [valueField, UInt16.or_assoc, or_and_distrib, ofNat_and_flag h hflag, UInt16.zero_or]

/-- A reader takes a written entry for the item it was written for. -/
theorem Entry.item_ofItem {item : Item Payload Content} (h : Writable item) :
    (Entry.ofItem item).item = item := by
  have hmask : ∀ id : UInt16, validFlags id &&& entryMaskId = id &&& entryMaskId := fun _ =>
    validFlags_and (by decide) (by decide)
  have hvalue : ∀ id : UInt16, validFlags id &&& entryFlagValue = id &&& entryFlagValue := fun _ =>
    validFlags_and (by decide) (by decide)
  have hbinary : ∀ id : UInt16, validFlags id &&& entryFlagBinary = id &&& entryFlagBinary :=
    fun _ => validFlags_and (by decide) (by decide)
  have hnat : ∀ {id : ℕ}, id < 0xfff → (UInt16.ofNat id).toNat = id := fun h =>
    UInt16.toNat_ofNat_of_lt' (by simp [UInt16.size]; omega)
  cases item with
  | key id name =>
    have hid : id < 0x1000 := Nat.lt_of_lt_of_le h (by decide)
    have halive : UInt16.ofNat id &&& entryFlagAlive = 0 := ofNat_and_flag hid (by decide)
    have hbit : UInt16.ofNat id &&& entryFlagValue = 0 := ofNat_and_flag hid (by decide)
    simp only [Entry.item, Entry.ofItem, Entry.valid, itemField, itemPayload, Entry.header, EntryHeader.live,
      EntryHeader.isValue, EntryHeader.id, validFlags_live halive, hvalue, hmask, hbit]
    rw [show UInt16.ofNat id &&& entryMaskId = UInt16.ofNat id from ofNat_and_mask hid, hnat h]
    rfl
  | value id content =>
    have hid : id < 0x1000 := Nat.lt_of_lt_of_le h (by decide)
    have halive : valueField id content.2 &&& entryFlagAlive = 0 := by
      rw [valueField_and_flag hid _ (by decide)]
      cases content.2 <;> decide
    have hbit : valueField id content.2 &&& entryFlagValue ≠ 0 := by
      rw [valueField_and_flag hid _ (by decide)]
      cases content.2 <;> decide
    have hbin : (valueField id content.2 &&& entryFlagBinary != 0) = content.2 := by
      rw [valueField_and_flag hid _ (by decide)]
      cases content.2 <;> decide
    simp only [Entry.item, Entry.ofItem, Entry.valid, itemField, itemPayload, Entry.header, EntryHeader.live,
      EntryHeader.isValue, EntryHeader.isBinary, EntryHeader.id, validFlags_live halive, hvalue,
      hmask, hbinary, valueField_and_mask hid, hbin, hnat h]
    simp [hbit]
  | dead n => exact absurd h id

end EspOpenRtos.Sysparam
