/-
# Filling a region

Compaction and appending both write items one after the other into space that is
still erased. What is there already must not stand in the way of the data, and
the end address that the store keeps must not be touched by accident.
-/

import EspOpenRtos.Sysparam.WriteSpec

namespace EspOpenRtos.Sysparam

open Math.NorFlash
open Math.KeyedLog (Item)

/-- The bytes of the entries for some items. -/
def logBytes (I : Items) : List UInt8 := I.flatMap fun item => (Entry.ofItem item).bytes

/-- The bytes of an entry whose header is still invalid. -/
def draft (item : Item Payload Content) : List UInt8 :=
  (invalidHeader (itemField item) (itemPayload item)).bytes ++ (itemPayload item).1

def draftBytes (I : Items) : List UInt8 := I.flatMap draft

section Items

variable {item : Item Payload Content} {I : Items}

theorem itemField_ne (h : Writable item) : invalidFlags (itemField item) ≠ 0xffff := by
  have hsmall {id : ℕ} (hid : id < 0xfff) : UInt16.ofNat id ≠ entryMaskId := by
    intro heq
    have hnat := congrArg UInt16.toNat heq
    rw [UInt16.toNat_ofNat_of_lt' (by simp [UInt16.size]; omega)] at hnat
    simp [entryMaskId] at hnat
    omega
  apply invalidFlags_ne
  cases item with
  | key id name =>
    have hid : id < 0xfff := h
    rw [itemField, show UInt16.ofNat id &&& entryMaskId = _ from ofNat_and_mask (by omega)]
    exact hsmall hid
  | value id content =>
    have hid : id < 0xfff := h
    rw [itemField, valueField_and_mask (by omega)]
    exact hsmall hid
  | dead n => exact absurd h id

theorem size_ofItem (h : Writable item) : (Entry.ofItem item).size = itemSize item := by
  cases item with
  | key id name => rfl
  | value id content => rfl
  | dead n => exact absurd h id

theorem length_draft : (draft item).length = (Entry.ofItem item).bytes.length := by
  simp [draft, Entry.bytes, Entry.ofItem, Entry.valid]

theorem length_logBytes (h : ∀ item ∈ I, Writable item) : (logBytes I).length = logSize I := by
  induction I with
  | nil => rfl
  | cons item I ih =>
    simp only [logBytes, List.flatMap_cons, List.length_append, Entry.length_bytes, logSize_cons]
    rw [size_ofItem (h item (by simp)), ← ih fun x hx => h x (by simp [hx])]
    rfl

theorem length_draftBytes (h : ∀ item ∈ I, Writable item) : (draftBytes I).length = logSize I := by
  rw [← length_logBytes h]
  simp [draftBytes, logBytes, List.length_flatMap, length_draft]

theorem items_map_ofItem (h : ∀ item ∈ I, Writable item) : items (I.map Entry.ofItem) = I := by
  rw [items, List.map_map]
  conv_rhs => rw [← List.map_id I]
  exact List.map_congr_left fun item hitem => Entry.item_ofItem (h item hitem)

/-- The entries of a log are stored if its bytes are. -/
theorem stored_of_read {f : Image} {addr : ℕ} (hread : read f addr (logBytes I).length = logBytes I) :
    Stored f addr (I.map Entry.ofItem) := by
  induction I generalizing addr with
  | nil => trivial
  | cons item I ih =>
    simp only [logBytes, List.flatMap_cons, List.length_append] at hread
    obtain ⟨hfirst, hrest⟩ := read_append_iff.mp hread
    rw [Entry.length_bytes] at hfirst hrest
    exact ⟨hfirst, ih hrest⟩

end Items

/-! ## Filling -/

/-- The space in which some items are about to be written. -/
structure Target (s : Sys) (dst : ℕ) (I : Items) : Prop where
  writable : ∀ item ∈ I, Writable item
  covers : s.dev.CoversRange dst (dst + logSize I)
  fresh : Programmable s.dev.bytes dst (draftBytes I)
  apart : s.info.endAddr < dst ∨ dst + logSize I ≤ s.info.endAddr

/-- The images while items are written. -/
structure Filling (f : Image) (dst : ℕ) (I : Items) (g : Image) : Prop where
  outside : ∀ a, a < dst ∨ dst + logSize I ≤ a → g a = f a
  approaches : Approaches f (patch f dst (logBytes I)) g

section Filling

variable {f g : Image} {d d' d'' : Device} {s s' : Sys} {dst : ℕ} {item : Item Payload Content} {I J : Items}

@[simp]
theorem logBytes_nil : logBytes [] = [] := rfl

theorem logBytes_cons : logBytes (item :: I) = (Entry.ofItem item).bytes ++ logBytes I := rfl

theorem draftBytes_cons : draftBytes (item :: I) = draft item ++ draftBytes I := rfl

theorem logBytes_append : logBytes (J ++ I) = logBytes J ++ logBytes I := List.flatMap_append

theorem logBytes_singleton : logBytes [item] = (Entry.ofItem item).bytes := List.append_nil _

theorem logSize_singleton : logSize [item] = itemSize item := by
  rw [logSize_cons, logSize_nil, Nat.add_zero]

/-- Filling starts with the first items. -/
theorem Filling.of_front (h : ∀ item ∈ J, Writable item) (hfront : Filling f dst J g) :
    Filling f dst (J ++ I) g := by
  constructor
  · intro a ha
    rw [logSize_append] at ha
    exact hfront.outside a (by omega)
  · intro a
    rcases hfront.approaches a with ha | ha | ha
    · exact Or.inl ha
    · by_cases hin : a < dst ∨ dst + logSize J ≤ a
      · exact Or.inl (hfront.outside a hin)
      · right
        left
        rw [ha, logBytes_append, patch_append, length_logBytes h]
        exact (patch_of_lt (by omega)).symm
    · exact Or.inr (Or.inr ha)

/-- Filling goes on behind the first items. -/
theorem Filling.of_back (h : ∀ item ∈ J, Writable item)
    (hback : Filling (patch f dst (logBytes J)) (dst + logSize J) I g) :
    Filling f dst (J ++ I) g := by
  have hlen := length_logBytes h
  constructor
  · intro a ha
    rw [logSize_append] at ha
    rw [hback.outside a (by omega), patch_of_outside (by omega)]
  · intro a
    rcases hback.approaches a with ha | ha | ha
    · by_cases hin : a < dst ∨ dst + logSize J ≤ a
      · exact Or.inl (ha.trans (patch_of_outside (by omega)))
      · -- the first items are final
        right
        left
        rw [ha, logBytes_append, patch_append, hlen]
        exact (patch_of_lt (by omega)).symm
    · right
      left
      rw [ha, logBytes_append, patch_append, hlen]
    · exact Or.inr (Or.inr ha)

theorem Writing.filling (h : Writable item) (hwriting : Writing f dst (Entry.ofItem item) g) :
    Filling f dst [item] g := by
  obtain ⟨happroaches, x, hxsize, -, rfl⟩ := hwriting
  have hsize := size_ofItem h
  constructor
  · intro a ha
    rw [logSize_singleton] at ha
    exact patch_of_outside (by rw [Entry.length_bytes]; omega)
  · rwa [logBytes_singleton]

/-- Items have been written. -/
structure Written (d d' : Device) (dst : ℕ) (I : Items) : Prop where
  bytes : d'.bytes = patch d.bytes dst (logBytes I)
  quiet : Quiet d d'
  images : d.fault = none → Through d d' (Filling d.bytes dst I)

/-- A write failed while items were being written. -/
structure Broken (d d' : Device) (dst : ℕ) (I : Items) : Prop where
  failed : ∃ a, Failed d d' a
  outside : ∀ a, a < dst ∨ dst + logSize I ≤ a → d'.bytes a = d.bytes a

theorem Written.nil (d : Device) (dst : ℕ) : Written d d dst [] :=
  ⟨by simp, .refl d, fun _ => .refl d⟩

theorem Written.append (h : ∀ item ∈ J, Writable item) (hfront : Written d d' dst J)
    (hback : Written d' d'' (dst + logSize J) I) : Written d d'' dst (J ++ I) := by
  refine ⟨?_, hfront.quiet.trans hback.quiet, fun hnone => ?_⟩
  · rw [hback.bytes, hfront.bytes, logBytes_append, patch_append, length_logBytes h]
  · refine ((hfront.images hnone).mono fun g hg => hg.of_front h).trans
      ((hback.images (hfront.quiet.fault hnone)).mono fun g hg => ?_)
    rw [hfront.bytes] at hg
    exact hg.of_back h

theorem Broken.front (h : Broken d d' dst J) : Broken d d' dst (J ++ I) := by
  refine ⟨h.failed, fun a ha => h.outside a ?_⟩
  rw [logSize_append] at ha
  omega

theorem Broken.back (h : ∀ item ∈ J, Writable item) (hfront : Written d d' dst J)
    (hback : Broken d' d'' (dst + logSize J) I) : Broken d d'' dst (J ++ I) := by
  obtain ⟨a, ha⟩ := hback.failed
  refine ⟨⟨a, hfront.quiet.failed ha⟩, fun a ha => ?_⟩
  rw [logSize_append] at ha
  rw [hback.outside a (by omega), hfront.bytes]
  exact patch_of_outside (by rw [length_logBytes h]; omega)

/-- Writing the first item leaves space for the rest. -/
theorem Target.next (h : Target s dst (item :: I)) (hfirst : Written s.dev s'.dev dst [item])
    (hend : s'.info.endAddr = s.info.endAddr) : Target s' (dst + itemSize item) I := by
  have hw := h.writable item (by simp)
  have hsize := size_ofItem hw
  have hcovers := h.covers
  have hapart := h.apart
  have hbytes := hfirst.bytes
  rw [logSize_cons] at hcovers hapart
  rw [logBytes_singleton] at hbytes
  refine ⟨fun x hx => h.writable x (by simp [hx]), ?_, ?_, ?_⟩
  · exact (hcovers.of_accepts hfirst.quiet.accepts).mono (by omega) (by omega)
  · -- behind the entry nothing has changed
    have hfresh := h.fresh
    rw [draftBytes_cons] at hfresh
    have hright := hfresh.right
    rw [length_draft, Entry.length_bytes, hsize] at hright
    intro i hi
    have hbyte := hright i hi
    rw [patch_of_ge (by rw [length_draft, Entry.length_bytes]; omega)] at hbyte
    rw [hbytes, patch_of_ge (by rw [Entry.length_bytes]; omega)]
    exact hbyte
  · rw [hend]
    omega

/-- The two outcomes of writing the first item. -/
theorem Target.write (h : Target s dst (item :: I)) :
    ∃ status s', writeEntry s dst (itemField item) (itemPayload item).1 = (status, s') ∧
      s'.info = s.info ∧ (status = .ok ∧ Written s.dev s'.dev dst [item] ∨
        status = .errIo ∧ Broken s.dev s'.dev dst [item]) := by
  have hw := h.writable item (by simp)
  have hsize := size_ofItem hw
  have hapart := h.apart
  have hpos := (Entry.ofItem item).size_pos
  rw [logSize_cons] at hapart
  have hgrow (n : ℕ) : s.info.grow dst n = s.info := if_neg (by omega)
  have hcovers := h.covers
  rw [logSize_cons, ← hsize] at hcovers
  have hfresh := h.fresh
  rw [draftBytes_cons] at hfresh
  obtain ⟨status, s', hrun, himages, hresult⟩ := writeEntry_spec (itemField_ne hw)
    (hcovers.mono le_rfl (by change _ + (Entry.ofItem item).size ≤ _; omega)) hfresh.left
  refine ⟨status, s', hrun, ?_⟩
  rcases hresult with ⟨rfl, hbytes, hinfo, hquiet⟩ | ⟨rfl, hfailed, x, hx, hbytes, hinfo⟩
  · refine ⟨by rw [hinfo, hgrow], Or.inl ⟨rfl, ?_, hquiet, fun hnone =>
      (himages hnone).mono fun g hg => hg.filling hw⟩⟩
    rw [hbytes, logBytes_singleton]
    rfl
  · refine ⟨by rw [hinfo, hgrow], Or.inr ⟨rfl, hfailed, fun a ha => ?_⟩⟩
    have hxsize : x.size ≤ (Entry.ofItem item).size := hx.size_le
    rw [logSize_singleton] at ha
    rw [hbytes, patch_of_outside (by rw [Entry.length_bytes]; omega)]

end Filling

end EspOpenRtos.Sysparam
