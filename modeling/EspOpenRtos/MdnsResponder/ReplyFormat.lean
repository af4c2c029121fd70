/-
# The format of replies

Whatever the questions are, the buffer of a reply always starts with a complete message:
a header and the answers that it counts. Appending a record either extends this message
by the record or, where there is no room, leaves it alone. So the answers are those that
fit, in the order of the questions, each from a record of the list with the address that
the interface has now.
-/

import EspOpenRtos.MdnsResponder.Reply

namespace EspOpenRtos.MdnsResponder

open Math.NorFlash Math.DnsMessages

/-! ## Names of records -/

/-- The labels of a string. -/
def labelsOf (name : List UInt8) : List (List UInt8) := (name.splitOn dot).filter (· ≠ [])

/-- A string that spells a name of labels of 1 to 63 bytes. -/
def IsName (name : List UInt8) : Prop :=
  ∃ labels, ValidName labels ∧ Separable labels ∧ Spells name labels

section Names

variable {name : List UInt8} {labels : List (List UInt8)}

theorem labelsOf_append_dot (name rest : List UInt8) :
    labelsOf (name ++ dot :: rest) = labelsOf name ++ labelsOf rest := by
  rw [labelsOf, List.splitOn_append_cons_self, List.filter_append, labelsOf, labelsOf]

theorem labelsOf_dottedName (hlabels : Separable labels) : labelsOf (dottedName labels) = labels := by
  induction labels with
  | nil => rfl
  | cons l labels ih =>
    obtain ⟨⟨hne, hfree⟩, hrest⟩ := List.forall_mem_cons.mp hlabels
    have hl : labelsOf l = [l] := by
      rw [labelsOf, List.splitOn_eq_singleton hfree, List.filter_cons_of_pos (by simpa using hne),
        List.filter_nil]
    rw [dottedName, labelsOf_append_dot, ih hrest, hl, List.singleton_append]

theorem Spells.labelsOf_eq (h : Spells name labels) (hlabels : Separable labels) :
    labelsOf name = labels := by
  rcases h with rfl | hdot
  · exact labelsOf_dottedName hlabels
  · rw [← labelsOf_dottedName hlabels, ← hdot, labelsOf_append_dot]
    exact (List.append_nil _).symm

theorem IsName.validName (h : IsName name) : ValidName (labelsOf name) := by
  obtain ⟨labels, hvalid, hlabels, hspells⟩ := h
  rwa [hspells.labelsOf_eq hlabels]

/-- Packing a name into a part of the buffer. -/
theorem IsName.str2labels (h : IsName name) (max : ℕ) :
    ((encodeName (labelsOf name)).length ≤ max → MdnsResponder.str2labels name max =
      ⟨encodeName (labelsOf name), (encodeName (labelsOf name)).length⟩) ∧
    (max < (encodeName (labelsOf name)).length →
      (MdnsResponder.str2labels name max).result = 0) := by
  obtain ⟨labels, -, hlabels, hspells⟩ := h
  rw [hspells.labelsOf_eq hlabels]
  exact str2labels_name max hlabels hspells

end Names

/-! ## Appending -/

/-- The resource record that answers with a record of the list. -/
def Rsrc.record (r : Rsrc) : Record :=
  ⟨labelsOf r.key.1, r.rType, DNS_RRCLASS_IN, r.rTTL, r.data⟩

/-- The room that an answer needs. -/
def Rsrc.size (r : Rsrc) : ℕ := r.record.encode.length

/-- The message of a reply. -/
def replyMessage (id : UInt16) (answers extras : List Rsrc) : Message :=
  ⟨id, DNS_FLAG1_RESP + DNS_FLAG1_AUTH, 0, [], answers.map Rsrc.record, [], extras.map Rsrc.record⟩

/-- The response so far is a complete message. -/
structure Filled (resp : Response) (id : UInt16) (answers extras : List Rsrc) : Prop where
  bytes : read resp.buf 0 resp.len = (replyMessage id answers extras).encode
  small : resp.len ≤ replySize

section Appending

variable {r : Rsrc} {resp : Response} {id : UInt16} {answers extras : List Rsrc}

theorem record_encode (r : Rsrc) :
    r.record.encode = encodeName (labelsOf r.key.1) ++ (mdnsAnswer r ++ r.data) := by
  simp only [Rsrc.record, Record.encode, mdnsAnswer, List.append_assoc]
  rfl

theorem length_mdnsAnswer (r : Rsrc) : (mdnsAnswer r).length = sizeofDnsAnswer := rfl

theorem size_eq (r : Rsrc) :
    r.size = (encodeName (labelsOf r.key.1)).length + sizeofDnsAnswer + r.data.length := by
  rw [Rsrc.size, record_encode, List.length_append, List.length_append, length_mdnsAnswer,
    Nat.add_assoc]

/-- A record that fits is stored behind the response. -/
theorem addToAnswer_of_fits (hkey : IsName r.key.1) (hfits : r.size ≤ replySize - resp.len) :
    addToAnswer r resp = ⟨patch resp.buf resp.len r.record.encode, resp.len + r.size⟩ := by
  have hsize := size_eq r
  have hpack := (hkey.str2labels (replySize - resp.len)).1 (by omega)
  have hpos : (encodeName (labelsOf r.key.1)).length ≠ 0 := by
    rw [length_encodeName]
    exact Nat.succ_ne_zero _
  rw [addToAnswer]
  simp only [hpack]
  rw [if_neg hpos, if_neg (by omega), record_encode, patch_append, patch_append, length_mdnsAnswer,
    hsize, Nat.add_assoc resp.len, Nat.add_assoc resp.len]

/-- A record that does not fit leaves the response alone. -/
theorem addToAnswer_of_full (hkey : IsName r.key.1) (hfull : replySize - resp.len < r.size) :
    (addToAnswer r resp).len = resp.len ∧
      ∀ a < resp.len, (addToAnswer r resp).buf a = resp.buf a := by
  have hsize := size_eq r
  obtain ⟨hfits, hover⟩ := hkey.str2labels (replySize - resp.len)
  have hskip : (str2labels r.key.1 (replySize - resp.len)).result = 0 ∨
      (str2labels r.key.1 (replySize - resp.len)).result + sizeofDnsAnswer + r.data.length >
        replySize - resp.len := by
    rcases Nat.lt_or_ge (replySize - resp.len) (encodeName (labelsOf r.key.1)).length with hlt | hle
    · exact .inl (hover hlt)
    · rw [hfits hle]
      exact .inr (hsize ▸ hfull)
  have hbuf : addToAnswer r resp =
      ⟨patch resp.buf resp.len (str2labels r.key.1 (replySize - resp.len)).stored, resp.len⟩ := by
    rw [addToAnswer]
    rcases hskip with hzero | hlong
    · exact if_pos hzero
    · dsimp only
      rw [if_pos hlong, ite_self]
  rw [hbuf]
  exact ⟨rfl, fun a ha => patch_of_lt ha⟩

/-- A number in network order. -/
theorem readU16_of_read {f : Image} {p : ℕ} {n : UInt16}
    (h : read f p (bytes16 n).length = bytes16 n) : readU16 f p = n := by
  have hhigh : f p = UInt8.ofNat (n.toNat / 256) := byte_of_read h (i := 0) Nat.two_pos
  have hlow : f (p + 1) = UInt8.ofNat n.toNat := byte_of_read h (i := 1) Nat.one_lt_two
  rw [readU16, hhigh, hlow, value16]

theorem readU16_of_read_middle {f : Image} {size : ℕ} {front back : List UInt8} {n : UInt16}
    (h : read f 0 size = front ++ (bytes16 n ++ back)) : readU16 f front.length = n := by
  obtain rfl : size = (front ++ (bytes16 n ++ back)).length := by rw [← h, length_read]
  obtain ⟨-, hrest⟩ := read_eq_append_iff.mp h
  obtain ⟨hbytes, -⟩ := read_eq_append_iff.mp hrest
  rw [Nat.zero_add] at hbytes
  exact readU16_of_read hbytes

/-- A record that fits is appended, and a field of the header is incremented. -/
theorem addCounted_of_fits (hkey : IsName r.key.1) (hfits : r.size ≤ replySize - resp.len)
    {front back : List UInt8} {n : UInt16}
    (h : read resp.buf 0 resp.len = front ++ (bytes16 n ++ back)) :
    (addCounted front.length r resp).len = resp.len + r.size ∧
      read (addCounted front.length r resp).buf 0 (resp.len + r.size) =
        front ++ (bytes16 (n + 1) ++ (back ++ r.record.encode)) := by
  have hlonger : resp.len + r.size > resp.len := by
    rw [size_eq, sizeofDnsAnswer]
    omega
  have hread : read (patch resp.buf resp.len r.record.encode) 0 (resp.len + r.size) =
      front ++ (bytes16 n ++ (back ++ r.record.encode)) := by
    rw [read_add, read_patch_of_disjoint (.inl (by omega)), h, Nat.zero_add, Rsrc.size,
      read_patch_self, List.append_assoc, List.append_assoc]
  rw [addCounted, addToAnswer_of_fits hkey hfits]
  dsimp only
  rw [if_pos hlonger, readU16_of_read_middle hread]
  refine ⟨rfl, ?_⟩
  have hpatch := read_patch_middle hread (show (bytes16 (n + 1)).length = (bytes16 n).length from rfl)
  rwa [Nat.zero_add] at hpatch

/-- A record that does not fit changes neither the message nor its counts. -/
theorem addCounted_of_full (hkey : IsName r.key.1) (hfull : replySize - resp.len < r.size) (field : ℕ) :
    (addCounted field r resp).len = resp.len ∧
      read (addCounted field r resp).buf 0 resp.len = read resp.buf 0 resp.len := by
  obtain ⟨hlen, hbuf⟩ := addToAnswer_of_full hkey hfull
  have hsame : addCounted field r resp = ⟨(addToAnswer r resp).buf, resp.len⟩ := by
    rw [addCounted, hlen, if_neg (Nat.lt_irrefl _)]
  rw [hsame]
  exact ⟨rfl, read_congr fun a _ ha => hbuf a (by omega)⟩

/-! ## Messages in the buffer -/

theorem encode_replyMessage (id : UInt16) (answers extras : List Rsrc) :
    (replyMessage id answers extras).encode =
      (bytes16 id ++ [DNS_FLAG1_RESP + DNS_FLAG1_AUTH, 0, 0, 0]) ++
        (bytes16 (count answers) ++ ([0, 0] ++ (bytes16 (count extras) ++
          ((answers.map Rsrc.record).flatMap Record.encode ++
            (extras.map Rsrc.record).flatMap Record.encode)))) := by
  simp only [Message.encode, replyMessage, count, List.length_map]
  rfl

theorem length_encode_replyMessage (id : UInt16) (answers extras : List Rsrc) :
    (replyMessage id answers extras).encode.length =
      sizeofDnsHdr + ((answers.map Rsrc.size).sum + (extras.map Rsrc.size).sum) := by
  rw [encode_replyMessage]
  simp only [List.length_append, List.length_flatMap, List.map_map]
  change 6 + (2 + (2 + (2 + ((answers.map Rsrc.size).sum + (extras.map Rsrc.size).sum)))) = _
  rw [sizeofDnsHdr]
  omega

theorem count_append_singleton {α : Type*} (entries : List α) (x : α) :
    count entries + 1 = count (entries ++ [x]) := by
  rw [count, count, List.length_append, List.length_singleton, UInt16.ofNat_add]
  rfl

theorem Filled.len_eq (h : Filled resp id answers extras) :
    resp.len = sizeofDnsHdr + ((answers.map Rsrc.size).sum + (extras.map Rsrc.size).sum) := by
  rw [← length_encode_replyMessage id, ← h.bytes, length_read]

/-- A record is added to the answers if it fits. -/
theorem Filled.answer (h : Filled resp id answers []) (hkey : IsName r.key.1) :
    Filled (addCounted numanswers r resp) id
      (if r.size ≤ replySize - resp.len then answers ++ [r] else answers) [] := by
  have hsmall := h.small
  split
  · next hfits =>
      obtain ⟨hlen, hread⟩ := addCounted_of_fits hkey hfits (h.bytes.trans (encode_replyMessage ..))
      change (addCounted numanswers r resp).len = _ at hlen
      change read (addCounted numanswers r resp).buf 0 _ = _ at hread
      refine ⟨?_, by omega⟩
      rw [hlen, hread, encode_replyMessage, count_append_singleton answers r]
      simp only [List.map_append, List.flatMap_append, List.map_nil, List.flatMap_nil,
        List.append_nil, List.map_cons, List.flatMap_cons, List.append_assoc]
  · next hfull =>
      obtain ⟨hlen, hread⟩ := addCounted_of_full hkey (Nat.lt_of_not_le hfull) numanswers
      exact ⟨by rw [hlen, hread, h.bytes], by omega⟩

/-- A record is added behind the answers if it fits. -/
theorem Filled.volunteer (h : Filled resp id answers []) (hkey : IsName r.key.1) :
    Filled (addCounted numextrarr r resp) id answers
      (if r.size ≤ replySize - resp.len then [r] else []) := by
  have hsmall := h.small
  split
  · next hfits =>
      have hbytes : read resp.buf 0 resp.len =
          (bytes16 id ++ ([DNS_FLAG1_RESP + DNS_FLAG1_AUTH, 0, 0, 0] ++ (bytes16 (count answers) ++
            [0, 0]))) ++ (bytes16 (count ([] : List Rsrc)) ++
              (answers.map Rsrc.record).flatMap Record.encode) := by
        rw [h.bytes, encode_replyMessage]
        simp only [List.append_assoc, List.map_nil, List.flatMap_nil, List.append_nil]
      obtain ⟨hlen, hread⟩ := addCounted_of_fits hkey hfits hbytes
      change (addCounted numextrarr r resp).len = _ at hlen
      change read (addCounted numextrarr r resp).buf 0 _ = _ at hread
      refine ⟨?_, by omega⟩
      rw [hlen, hread, encode_replyMessage, count_append_singleton [] r, List.nil_append]
      simp only [List.append_assoc, List.map_cons, List.flatMap_cons, List.map_nil,
        List.flatMap_nil, List.append_nil]
  · next hfull =>
      obtain ⟨hlen, hread⟩ := addCounted_of_full hkey (Nat.lt_of_not_le hfull) numextrarr
      exact ⟨by rw [hlen, hread, h.bytes], by omega⟩

end Appending

end EspOpenRtos.MdnsResponder
