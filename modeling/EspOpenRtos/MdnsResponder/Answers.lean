/-
# The answers of a reply

A well-formed query is answered with a well-formed message. The answers are the matches of
the questions, in their order, as far as there is room; whichever record is found, its
answer shows the address that the interface has now. The list keeps its records: replies
write addresses to them and nothing else.
-/

import EspOpenRtos.MdnsResponder.ReplyFormat

namespace EspOpenRtos.MdnsResponder

open Math.NorFlash Math.CStrings Math.DnsMessages

/-! ## What fits -/

/-- Those of a list that fit, one after the other, into some room. -/
def keepFitting {α : Type*} (size : α → ℕ) : ℕ → List α → List α
  | _, [] => []
  | room, a :: as =>
    if size a ≤ room then a :: keepFitting size (room - size a) as else keepFitting size room as

section Fitting

variable {α : Type*} (size : α → ℕ)

theorem keepFitting_append_singleton (room : ℕ) (as : List α) (b : α) :
    keepFitting size room (as ++ [b]) =
      if size b ≤ room - ((keepFitting size room as).map size).sum then
        keepFitting size room as ++ [b] else keepFitting size room as := by
  induction as generalizing room with
  | nil => simp [keepFitting]
  | cons a as ih =>
    rw [List.cons_append, keepFitting, keepFitting]
    split
    · rw [ih, List.map_cons, List.sum_cons, Nat.sub_sub]
      split
      · rfl
      · rfl
    · exact ih room

theorem keepFitting_subset (room : ℕ) (as : List α) : keepFitting size room as ⊆ as := by
  induction as generalizing room with
  | nil => exact List.nil_subset _
  | cons a as ih =>
    rw [keepFitting]
    split
    · exact List.cons_subset_cons a (ih _)
    · exact List.subset_cons_of_subset a (ih room)

theorem length_le_sum_map (hpos : ∀ a, 1 ≤ size a) (as : List α) :
    as.length ≤ (as.map size).sum := by
  have hall : ∀ n ∈ as.map size, 1 ≤ n := fun n hn => by
    obtain ⟨a, -, rfl⟩ := List.mem_map.mp hn
    exact hpos a
  rw [← List.length_map]
  exact List.length_le_sum_of_one_le _ hall

end Fitting

/-! ## Records that are kept up to date -/

/-- Replies write the data of this record. -/
def HasAddress (lwipIpv6 : Bool) (r : Rsrc) : Prop :=
  r.rType = DNS_RRTYPE_A ∨ lwipIpv6 = true ∧ r.rType = DNS_RRTYPE_AAAA

/-- The record is the same, but for an address in it. -/
structure SameRecord (lwipIpv6 : Bool) (r r' : Rsrc) : Prop where
  type : r'.rType = r.rType
  ttl : r'.rTTL = r.rTTL
  key : r'.key = r.key
  size : r'.data.length = r.data.length
  data : ¬HasAddress lwipIpv6 r → r'.data = r.data

/-- The list is the same, but for the addresses in it. -/
def Updated (lwipIpv6 : Bool) (dict dict' : Dict) : Prop := List.Forall₂ (SameRecord lwipIpv6) dict dict'

/-- Addresses have their sizes, and no data is too long for a record. -/
structure Rsrc.Sized (r : Rsrc) : Prop where
  ip4 : r.rType = DNS_RRTYPE_A → r.data.length = 4
  ip6 : r.rType = DNS_RRTYPE_AAAA → r.data.length = 16
  small : r.data.length < 2 ^ 16

/-- The answers that a record stands for now. -/
def current (lwipIpv6 : Bool) (netif : Netif) (r : Rsrc) : List Rsrc :=
  if lwipIpv6 = true ∧ r.rType = DNS_RRTYPE_AAAA then
    netif.ip6.map fun addr => { r with data := addr.toList }
  else if r.rType = DNS_RRTYPE_A then [{ r with data := netif.ip4.toList }]
  else [r]

/-- The answers to a question. -/
def answersTo (lwipIpv6 : Bool) (netif : Netif) (dict : Dict) (qStr : CString)
    (qType qClass : UInt16) : List Rsrc :=
  if qClass = DNS_RRCLASS_IN ∨ qClass = DNS_RRCLASS_ANY then
    match mdnsMatch dict qStr qType with
    | none => []
    | some r => current lwipIpv6 netif r
  else []

section Updated

variable {lwipIpv6 : Bool} {dict dict' : Dict} {r r' : Rsrc} {i : ℕ}

theorem SameRecord.refl (r : Rsrc) : SameRecord lwipIpv6 r r := ⟨rfl, rfl, rfl, rfl, fun _ => rfl⟩

theorem Updated.refl (dict : Dict) : Updated lwipIpv6 dict dict :=
  List.forall₂_same.mpr fun r _ => .refl r

theorem SameRecord.eq_with (h : SameRecord lwipIpv6 r r') (data : List UInt8) :
    { r' with data } = { r with data } := by
  cases r
  cases r'
  obtain ⟨rfl, rfl, rfl, -, -⟩ := h
  rfl

theorem sameRecord_with_data (haddr : HasAddress lwipIpv6 r) {data : List UInt8}
    (hsize : data.length = r.data.length) : SameRecord lwipIpv6 r { r with data } :=
  ⟨rfl, rfl, rfl, hsize, fun hno => absurd haddr hno⟩

/-- Writing an address of the right size replaces the data. -/
theorem SameRecord.setAddress (h : SameRecord lwipIpv6 r r') {addr : List UInt8}
    (hsize : addr.length = r.data.length) : r'.setAddress addr = { r with data := addr } := by
  rw [Rsrc.setAddress, List.drop_eq_nil_of_le (by rw [h.size, hsize]), List.append_nil, h.eq_with]

theorem forall₂_getElem? {α β : Type*} {R : α → β → Prop} {as : List α} {bs : List β} {a : α}
    (h : List.Forall₂ R as bs) (hi : as[i]? = some a) : ∃ b, bs[i]? = some b ∧ R a b := by
  obtain ⟨hlt, rfl⟩ := List.getElem?_eq_some_iff.mp hi
  have hlt' := h.length_eq ▸ hlt
  exact ⟨_, List.getElem?_eq_getElem hlt', h.get hlt hlt'⟩

theorem Updated.set (h : Updated lwipIpv6 dict dict') (hi : dict[i]? = some r)
    (hr : SameRecord lwipIpv6 r r') : Updated lwipIpv6 dict (dict'.set i r') := by
  induction h generalizing i with
  | nil => nomatch hi
  | @cons x x' xs xs' hx hxs ih =>
    cases i with
    | zero =>
      obtain rfl := Option.some.inj hi
      exact .cons hr hxs
    | succ i => exact .cons hx (ih hi)

theorem mdnsFind_cons (r : Rsrc) (dict : Dict) (qstr : CString) (qType : UInt16) :
    mdnsFind (r :: dict) qstr qType =
      if (r.rType == qType || qType == DNS_RRTYPE_ANY) && strcaseEq r.key qstr then some (0, r)
      else (mdnsFind dict qstr qType).map fun found => (found.1 + 1, found.2) := by
  rw [mdnsFind, List.findIdx?_cons]
  split
  · rfl
  · rw [mdnsFind]
    cases dict.findIdx? _ with
    | none => rfl
    | some j =>
      change (dict[j]?.map _) = (dict[j]?.map _).map _
      rw [Option.map_map]
      rfl

/-- In the updated list the same record is found. -/
theorem Updated.mdnsFind (h : Updated lwipIpv6 dict dict') (qstr : CString) (qType : UInt16) :
    match mdnsMatch dict qstr qType with
    | none => MdnsResponder.mdnsFind dict' qstr qType = none
    | some r => ∃ i r', MdnsResponder.mdnsFind dict' qstr qType = some (i, r') ∧
        dict[i]? = some r ∧ SameRecord lwipIpv6 r r' := by
  induction h with
  | nil => rfl
  | @cons x x' xs xs' hx _ ih =>
    rw [mdnsMatch, List.find?_cons, mdnsFind_cons, hx.type, hx.key]
    cases hfound : (x.rType == qType || qType == DNS_RRTYPE_ANY) && strcaseEq x.key qstr with
    | true => exact ⟨0, x', rfl, rfl, hx⟩
    | false =>
      rw [mdnsMatch] at ih
      cases hrest : xs.find? fun r =>
          (r.rType == qType || qType == DNS_RRTYPE_ANY) && strcaseEq r.key qstr with
      | none =>
        rw [hrest] at ih
        simp only [ih]
        rfl
      | some r =>
        rw [hrest] at ih
        obtain ⟨i, r', hi, hr, hsame⟩ := ih
        exact ⟨i + 1, r', by simp [hi], hr, hsame⟩

end Updated

/-! ## The question loop -/

/-- The records of the list can be answered with. -/
def Answerable (dict : Dict) : Prop := ∀ r ∈ dict, IsName r.key.1 ∧ r.Sized

/-- The answers of a reply to questions with these matches. -/
def fitting (candidates : List Rsrc) : List Rsrc :=
  keepFitting Rsrc.size (replySize - sizeofDnsHdr) candidates

/-- What holds between two questions. -/
structure Answering (lwipIpv6 : Bool) (dict : Dict) (id : UInt16) (candidates : List Rsrc)
    (s : Replying) : Prop where
  updated : Updated lwipIpv6 dict s.dict
  filled : Filled s.resp id (fitting candidates) []
  extra : ∀ i, s.extra = some i → ∃ r, dict[i]? = some r ∧
    (r.rType = DNS_RRTYPE_SRV ∨ r.rType = DNS_RRTYPE_A)

/-- A record to volunteer leads on to an address. -/
theorem eq_or_exists_of_chooseExtra {dict : Dict} {qType : UInt16} {i j : ℕ} {extra : Option ℕ}
    (h : chooseExtra dict qType i extra = some j) :
    extra = some j ∨ ∃ r, dict[j]? = some r ∧
      (r.rType = DNS_RRTYPE_SRV ∨ r.rType = DNS_RRTYPE_A) := by
  have hbehind {rType : UInt16} (hnext : followedBy dict i rType = true) :
      ∃ r, dict[i + 1]? = some r ∧ r.rType = rType := by
    obtain ⟨r, hr, htype⟩ := (Option.any_eq_true _ _).mp hnext
    exact ⟨r, hr, eq_of_beq htype⟩
  rw [chooseExtra] at h
  split_ifs at h with hptr hsrv hsrv' ha
  · obtain rfl := Option.some.inj h
    obtain ⟨r, hr, htype⟩ := hbehind hsrv
    exact .inr ⟨r, hr, .inl htype⟩
  · exact .inl h
  · obtain rfl := Option.some.inj h
    obtain ⟨r, hr, htype⟩ := hbehind ha
    exact .inr ⟨r, hr, .inr htype⟩
  · exact .inl h
  · exact .inl h

section Loop

variable {lwipIpv6 : Bool} {netif : Netif} {dict : Dict} {id : UInt16} {candidates : List Rsrc}
  {s : Replying} {r r' : Rsrc} {i : ℕ} (hdict : Answerable dict)
include hdict

theorem Answering.answer (h : Answering lwipIpv6 dict id candidates s) (hi : dict[i]? = some r)
    (hsame : SameRecord lwipIpv6 r r') :
    Answering lwipIpv6 dict id (candidates ++ [r']) (s.answer numanswers i r') := by
  have hkey : IsName r'.key.1 := hsame.key ▸ (hdict r (List.mem_of_getElem? hi)).1
  refine ⟨h.updated.set hi hsame, ?_, h.extra⟩
  have hfilled := h.filled.answer hkey
  have hroom : replySize - s.resp.len =
      replySize - sizeofDnsHdr - ((fitting candidates).map Rsrc.size).sum := by
    rw [h.filled.len_eq, List.map_nil, List.sum_nil, Nat.add_zero, Nat.sub_sub]
  rw [hroom] at hfilled
  rwa [fitting, keepFitting_append_singleton]

/-- An answer for each address. -/
theorem Answering.answers (h : Answering lwipIpv6 dict id candidates s) (hi : dict[i]? = some r)
    (hsame : SameRecord lwipIpv6 r r') (hipv6 : lwipIpv6 = true ∧ r.rType = DNS_RRTYPE_AAAA)
    (addrs : List (Vector UInt8 16)) :
    Answering lwipIpv6 dict id (candidates ++ addrs.map fun addr => { r with data := addr.toList })
      (addrs.foldl (fun s addr => s.answer numanswers i (r'.setAddress addr.toList)) s) := by
  induction addrs generalizing s candidates with
  | nil => rwa [List.map_nil, List.append_nil]
  | cons addr addrs ih =>
    have hsize : addr.toList.length = r.data.length := by
      rw [(hdict r (List.mem_of_getElem? hi)).2.ip6 hipv6.2]
      exact addr.2
    have hone := h.answer hdict hi (sameRecord_with_data (.inr hipv6) hsize)
    rw [List.foldl_cons, List.map_cons, hsame.setAddress hsize,
      ← List.singleton_append, ← List.append_assoc]
    exact ih hone

/-- A record without an IPv6 address is answered with as it is now. -/
theorem refreshA_eq (hi : dict[i]? = some r) (hsame : SameRecord lwipIpv6 r r')
    (hipv6 : ¬(lwipIpv6 = true ∧ r.rType = DNS_RRTYPE_AAAA)) :
    current lwipIpv6 netif r = [refreshA netif r'] ∧ SameRecord lwipIpv6 r (refreshA netif r') := by
  rw [current, if_neg hipv6, refreshA, hsame.type]
  split
  · next hA =>
      have hsize : netif.ip4.toList.length = r.data.length := by
        rw [(hdict r (List.mem_of_getElem? hi)).2.ip4 hA]
        exact netif.ip4.2
      rw [hsame.setAddress hsize]
      exact ⟨rfl, sameRecord_with_data (.inl hA) hsize⟩
  · next hA =>
      have hno : ¬HasAddress lwipIpv6 r := fun haddr => haddr.elim hA hipv6
      have heq : r' = { r with data := r'.data } := hsame.eq_with r'.data
      rw [hsame.data hno] at heq
      exact ⟨congrArg (fun x => [x]) heq.symm, hsame⟩

/-- One round of the question loop. -/
theorem Answering.question (h : Answering lwipIpv6 dict id candidates s) (qStr : CString)
    (qType qClass : UInt16) :
    Answering lwipIpv6 dict id
      (candidates ++ answersTo lwipIpv6 netif dict qStr qType qClass)
      (answerQuestion lwipIpv6 netif s qStr qType qClass) := by
  rw [answersTo, answerQuestion]
  split
  · have hfind := h.updated.mdnsFind qStr qType
    cases hmatch : mdnsMatch dict qStr qType with
    | none =>
      rw [hmatch] at hfind
      simp only [hfind, List.append_nil]
      exact h
    | some r =>
      rw [hmatch] at hfind
      obtain ⟨i, r', hfound, hi, hsame⟩ := hfind
      simp only [hfound]
      rw [hsame.type]
      split
      · next hipv6 =>
          rw [current, if_pos hipv6]
          exact h.answers hdict hi hsame hipv6 netif.ip6
      · next hipv6 =>
          obtain ⟨hcurrent, hrefreshed⟩ : current lwipIpv6 netif r = [refreshA netif r'] ∧ _ :=
            refreshA_eq hdict hi hsame hipv6
          have hanswered := h.answer hdict hi hrefreshed
          rw [hcurrent]
          refine ⟨hanswered.updated, hanswered.filled, fun j hj => ?_⟩
          rcases eq_or_exists_of_chooseExtra hj with hold | ⟨x, hx, htype⟩
          · exact h.extra j hold
          · obtain ⟨y, hy, hyx⟩ := forall₂_getElem? hanswered.updated.flip hx
            exact ⟨y, hy, hyx.type ▸ htype⟩
  · rwa [List.append_nil]

end Loop

/-! ## Well-formed queries -/

/-- The string that a question is looked up by. -/
def questionText (q : Question) : CString := ⟨cstr (dottedName q.name), not_mem_cstr _⟩

/-- The matches of the questions, in their order. -/
def candidatesFor (lwipIpv6 : Bool) (netif : Netif) (dict : Dict) (questions : List Question) :
    List Rsrc :=
  questions.flatMap fun q => answersTo lwipIpv6 netif dict (questionText q) q.type (q.cls &&& 0x7FFF)

/-- A packet that declares and holds these questions, with names that are not compressed
and not too long. Behind them may stand anything. -/
structure QueryPacket (payload : List UInt8) (questions : List Question) : Prop where
  packet : ∃ header behind, payload = header ++ (questions.flatMap Question.encode ++ behind) ∧
    header.length = sizeofDnsHdr ∧ (header.drop 4).take 2 = bytes16 (count questions)
  names : ∀ q ∈ questions, ValidName q.name ∧ (encodeName q.name).length < kMaxQStr

/-- What the loop has of a question after unpacking it. -/
def Unpacks (q : Question) (u : Unpacked) : Prop :=
  u.qStr = questionText q ∧ ∃ pos, u.query = some ⟨pos, q.type, q.cls⟩

section Queries

variable {lwipIpv6 : Bool} {netif : Netif} {dict : Dict} {mem : ℕ → UInt8} {p fuel : ℕ}
  {questions : List Question}

/-- Questions with valid names are unpacked. -/
theorem unpackQuestions_unpacks (hnames : ∀ q ∈ questions, ValidName q.name)
    (hat : read mem p (questions.flatMap Question.encode).length =
      questions.flatMap Question.encode)
    (hfuel : (questions.flatMap Question.encode).length ≤ fuel) :
    List.Forall₂ Unpacks questions (unpackQuestions mem fuel questions.length p) := by
  induction questions generalizing p with
  | nil => exact .nil
  | cons q questions ih =>
    obtain ⟨hname, hrest⟩ := List.forall_mem_cons.mp hnames
    rw [List.flatMap_cons] at hat hfuel
    obtain ⟨hq, hqs⟩ := read_eq_append_iff.mp hat
    rw [Question.encode] at hq
    obtain ⟨hlabels, hfields⟩ := read_eq_append_iff.mp hq
    obtain ⟨htype, hcls⟩ := read_eq_append_iff.mp hfields
    obtain ⟨hnext, hwritten⟩ := unpack_encodeName hname hlabels
    have hlen : q.encode.length = (encodeName q.name).length + 4 := by
      rw [Question.encode, List.length_append]
      rfl
    rw [List.length_append, hlen] at hfuel
    have hrounds := length_lt_length_encodeName q.name
    have htrace := trace_of_le (walk_eq_none_of_next hnext) (show q.name.length + 1 ≤ fuel by omega)
    rw [List.length_cons, unpackQuestions, htrace]
    simp only [hnext]
    refine .cons ⟨?_, p + (encodeName q.name).length, ?_⟩ (ih hrest ?_ (by omega))
    · rw [Unpacked.qStr, questionText, Subtype.mk.injEq, hwritten, cstr_append_nul]
    · have hclass : readU16 mem (p + (encodeName q.name).length + 2) = q.cls := readU16_of_read hcls
      rw [queryAt, readU16_of_read htype, hclass]
    · rwa [hlen] at hqs

/-- The question loop for questions that have been unpacked. -/
theorem Answering.loop {id : UInt16} {candidates : List Rsrc} {s : Replying} {us : List Unpacked}
    (hdict : Answerable dict) (h : Answering lwipIpv6 dict id candidates s)
    (hus : List.Forall₂ Unpacks questions us) :
    Answering lwipIpv6 dict id (candidates ++ candidatesFor lwipIpv6 netif dict questions)
      (us.foldl (answerUnpacked lwipIpv6 netif) s) := by
  induction hus generalizing candidates s with
  | nil => rwa [candidatesFor, List.flatMap_nil, List.append_nil]
  | @cons q u qs us hu _ ih =>
    obtain ⟨hstr, pos, hquery⟩ := hu
    rw [List.foldl_cons, answerUnpacked, hquery, hstr, candidatesFor, List.flatMap_cons,
      ← List.append_assoc]
    exact ih (h.question hdict _ _ _)

end Queries

/-! ## The message -/

/-- A message of a reply that is as it should be: it fits the buffer, and it is the message
with these answers and at most one record more, all of which are in the list with their
current addresses. -/
structure WellFormedReply (lwipIpv6 : Bool) (netif : Netif) (dict : Dict) (id : UInt16)
    (answers : List Rsrc) (msg : List UInt8) : Prop where
  small : msg.length ≤ replySize
  fromList : ∀ a ∈ answers, ∃ r ∈ dict, a ∈ current lwipIpv6 netif r
  message : ∃ extras, parse msg = some (replyMessage id answers extras) ∧ extras.length ≤ 1 ∧
    ∀ e ∈ extras, ∃ r ∈ dict, e ∈ current lwipIpv6 netif r

section Message

variable {lwipIpv6 : Bool} {netif : Netif} {dict : Dict} {id : UInt16} {candidates : List Rsrc}
  {s : Replying}

theorem mem_candidatesFor {questions : List Question} {a : Rsrc}
    (h : a ∈ candidatesFor lwipIpv6 netif dict questions) :
    ∃ r ∈ dict, a ∈ current lwipIpv6 netif r := by
  obtain ⟨q, -, ha⟩ := List.mem_flatMap.mp h
  rw [answersTo] at ha
  split at ha
  · split at ha
    · nomatch ha
    · next r hr => exact ⟨r, List.mem_of_find?_eq_some hr, ha⟩
  · nomatch ha

/-- What a record stands for now can be encoded. -/
theorem valid_of_mem_current {r a : Rsrc} (hr : IsName r.key.1 ∧ r.Sized)
    (ha : a ∈ current lwipIpv6 netif r) : a.record.Valid := by
  rw [current] at ha
  split_ifs at ha
  · obtain ⟨addr, -, rfl⟩ := List.mem_map.mp ha
    exact ⟨hr.1.validName, addr.2.trans_lt (by decide)⟩
  · obtain rfl := List.mem_singleton.mp ha
    exact ⟨hr.1.validName, netif.ip4.2.trans_lt (by decide)⟩
  · obtain rfl := List.mem_singleton.mp ha
    exact ⟨hr.1.validName, hr.2.small⟩

theorem length_le_sum_size (answers : List Rsrc) : answers.length ≤ (answers.map Rsrc.size).sum :=
  length_le_sum_map Rsrc.size (fun a => by rw [size_eq, sizeofDnsAnswer]; omega) answers

/-- A complete message in the buffer is parsed. -/
theorem Filled.parse {resp : Response} {answers extras : List Rsrc}
    (h : Filled resp id answers extras) (hvalid : ∀ a ∈ answers ++ extras, a.record.Valid) :
    Math.DnsMessages.parse (read resp.buf 0 resp.len) = some (replyMessage id answers extras) := by
  have hsmall := h.small
  rw [h.len_eq, replySize] at hsmall
  have hanswers := length_le_sum_size answers
  have hextras := length_le_sum_size extras
  have hrecords {rs : List Rsrc} (hsub : rs ⊆ answers ++ extras) :
      ∀ x ∈ rs.map Rsrc.record, x.Valid := by
    intro x hx
    obtain ⟨a, ha, rfl⟩ := List.mem_map.mp hx
    exact hvalid a (hsub ha)
  rw [h.bytes]
  refine parse_encode ⟨⟨Nat.two_pow_pos 16, List.forall_mem_nil _⟩,
    ⟨?_, hrecords (List.subset_append_left _ _)⟩, ⟨Nat.two_pow_pos 16, List.forall_mem_nil _⟩,
    ⟨?_, hrecords (List.subset_append_right _ _)⟩⟩
  · rw [replyMessage, List.length_map]
    omega
  · rw [replyMessage, List.length_map]
    omega

/-- The end of a reply: one record may be volunteered, and the message is sent. -/
theorem Answering.finish (hdict : Answerable dict) (h : Answering lwipIpv6 dict id candidates s)
    (hcandidates : ∀ a ∈ candidates, ∃ r ∈ dict, a ∈ current lwipIpv6 netif r) :
    Updated lwipIpv6 dict (finishReply netif s).1 ∧
      ((finishReply netif s).2 = none ↔ fitting candidates = []) ∧
      ∀ msg, (finishReply netif s).2 = some msg →
        WellFormedReply lwipIpv6 netif dict id (fitting candidates) msg := by
  have hanswers : ∀ a ∈ fitting candidates, ∃ r ∈ dict, a ∈ current lwipIpv6 netif r :=
    fun a ha => hcandidates a (keepFitting_subset _ _ _ ha)
  have hsend {resp : Response} {extras : List Rsrc} (hfilled : Filled resp id (fitting candidates) extras)
      (hone : extras.length ≤ 1) (hextras : ∀ e ∈ extras, ∃ r ∈ dict, e ∈ current lwipIpv6 netif r) :
      WellFormedReply lwipIpv6 netif dict id (fitting candidates) (read resp.buf 0 resp.len) := by
    refine ⟨by rw [length_read]; exact hfilled.small, hanswers, extras, ?_, hone, hextras⟩
    refine hfilled.parse fun a ha => ?_
    obtain ⟨r, hr, hra⟩ := (List.mem_append.mp ha).elim (hanswers a) (hextras a)
    exact valid_of_mem_current (hdict r hr) hra
  -- the message is longer than its header exactly if there is an answer
  have hlen := h.filled.len_eq
  rw [List.map_nil, List.sum_nil, Nat.add_zero] at hlen
  have hsome : s.resp.len > sizeofDnsHdr ↔ fitting candidates ≠ [] := by
    have hfew := length_le_sum_size (fitting candidates)
    constructor
    · intro hgt hnil
      rw [hnil, List.map_nil, List.sum_nil] at hlen
      omega
    · intro hne
      have := List.length_pos_iff.mpr hne
      omega
  rw [finishReply]
  split
  · next hgt =>
    have hanswered := hsome.mp hgt
    cases hextra : s.extra with
    | none =>
      refine ⟨h.updated, by simpa using hanswered, fun msg hmsg => ?_⟩
      obtain rfl := Option.some.inj hmsg
      exact hsend h.filled (Nat.zero_le 1) nofun
    | some i =>
      obtain ⟨r, hi, htype⟩ := h.extra i hextra
      obtain ⟨r', hi', hsame⟩ := forall₂_getElem? h.updated hi
      have hipv6 : ¬(lwipIpv6 = true ∧ r.rType = DNS_RRTYPE_AAAA) := by
        rintro ⟨-, haaaa⟩
        rw [haaaa] at htype
        exact absurd htype (by decide)
      obtain ⟨hcurrent, hrefreshed⟩ : current lwipIpv6 netif r = [refreshA netif r'] ∧ _ :=
        refreshA_eq hdict hi hsame hipv6
      have hmem := List.mem_of_getElem? hi
      have hkey : IsName (refreshA netif r').key.1 := hrefreshed.key ▸ (hdict r hmem).1
      simp only [Option.bind_some, hi', Option.map_some]
      refine ⟨h.updated.set hi hrefreshed, by simpa using hanswered, fun msg hmsg => ?_⟩
      obtain rfl := Option.some.inj hmsg
      refine hsend (h.filled.volunteer hkey) ?_ fun e he => ?_
      · split
        · exact Nat.le_refl 1
        · exact Nat.zero_le 1
      · split at he
        · rw [List.mem_singleton.mp he]
          exact ⟨r, hmem, hcurrent ▸ List.mem_singleton_self _⟩
        · nomatch he
  · next hle =>
    exact ⟨h.updated, iff_of_true rfl (not_not.mp fun hne => hle (hsome.mpr hne)), nofun⟩

/-- The header of the response is a message without answers. -/
theorem answering_responseHeader (mem buf : ℕ → UInt8) :
    Answering lwipIpv6 dict (readU16 mem 0) [] ⟨dict, responseHeader mem buf, none⟩ := by
  have hid : bytes16 (readU16 mem 0) = [mem 0, mem 1] := by
    have hhigh := (mem 0).toNat_lt
    have hlow := (mem 1).toNat_lt
    rw [bytes16, readU16, Nat.zero_add, UInt16.toNat_ofNat']
    simp only [List.cons.injEq, ← UInt8.toNat_inj, UInt8.toNat_ofNat', and_true]
    omega
  have hbytes : read (patch buf 0 (rHdr mem)) 0 (rHdr mem).length = rHdr mem := read_patch_self
  refine ⟨.refl dict, ⟨hbytes.trans ?_, show sizeofDnsHdr ≤ replySize by decide⟩, by simp⟩
  rw [encode_replyMessage, hid]
  rfl

end Message

/-! ## Replies to well-formed queries -/

theorem sized_of_not_mem {r : Rsrc} (hno : r.rType ∉ [DNS_RRTYPE_A, DNS_RRTYPE_AAAA])
    (hsmall : r.data.length < 2 ^ 16) : r.Sized := by
  rw [List.mem_pair, not_or] at hno
  exact ⟨fun h => absurd h hno.1, fun h => absurd h hno.2, hsmall⟩

/-- The data of a record that a call makes has the size of its type. -/
theorem Made.sized {r : Rsrc} (h : Made r) : r.Sized := by
  cases h with
  | ptr hwired =>
    obtain ⟨labels, -, -, hle⟩ := hwired
    exact sized_of_not_mem (show DNS_RRTYPE_PTR ∉ _ by decide) (hle.trans_lt (by decide))
  | @srv _ _ port data hwired =>
    obtain ⟨labels, -, -, hle⟩ := hwired
    refine sized_of_not_mem (show DNS_RRTYPE_SRV ∉ _ by decide) ?_
    rw [kMaxNameSize] at hle
    simp only [List.length_append, htons, List.length_cons, List.length_nil]
    omega
  | @txt _ _ n text hsmall =>
    refine sized_of_not_mem (show DNS_RRTYPE_TXT ∉ _ by decide) ?_
    rw [List.length_cons, List.length_take]
    omega
  | @a _ _ addr =>
    exact ⟨fun _ => addr.2, fun h => absurd h (show DNS_RRTYPE_A ≠ DNS_RRTYPE_AAAA by decide),
      addr.2.trans_lt (by decide)⟩
  | @aaaa _ _ addr =>
    exact ⟨fun h => absurd h (show DNS_RRTYPE_AAAA ≠ DNS_RRTYPE_A by decide), fun _ => addr.2,
      addr.2.trans_lt (by decide)⟩

theorem SameRecord.sized {lwipIpv6 : Bool} {r r' : Rsrc} (h : SameRecord lwipIpv6 r r')
    (hr : r.Sized) : r'.Sized :=
  ⟨fun htype => h.size.trans (hr.ip4 (h.type ▸ htype)),
    fun htype => h.size.trans (hr.ip6 (h.type ▸ htype)), h.size.trans_lt hr.small⟩

theorem Holds.read_eq {mem : ℕ → UInt8} {payload : List UInt8} (h : Holds mem payload) :
    read mem 0 payload.length = payload :=
  read_eq_iff.mpr fun i hi => by
    rw [Nat.zero_add]
    exact h i _ (List.getElem?_eq_getElem hi)

/-- The questions of a query are unpacked. -/
theorem QueryPacket.unpacks {payload : List UInt8} {questions : List Question} {mem : ℕ → UInt8}
    {fuel : ℕ} (h : QueryPacket payload questions) (hmem : Holds mem payload)
    (hsmall : payload.length ≤ replySize) (hfuel : payload.length ≤ fuel) :
    List.Forall₂ Unpacks questions (questionLoop mem fuel) := by
  obtain ⟨header, behind, rfl, hheader, hcount⟩ := h.packet
  obtain ⟨hfirst, hrest⟩ := read_eq_append_iff.mp hmem.read_eq
  obtain ⟨hquestions, -⟩ := read_eq_append_iff.mp hrest
  rw [List.length_append, List.length_append] at hsmall hfuel
  have hfew := length_le_sum_map (fun q : Question => q.encode.length)
    (fun q => by rw [Question.encode, List.length_append]; exact Nat.le_add_left 1 _) questions
  rw [← List.length_flatMap] at hfew
  have hdeclared : nquestions mem = questions.length := by
    have hfield : read mem 4 2 = bytes16 (count questions) := by
      rw [← hcount, ← hfirst, hheader, drop_read (by decide), take_read]
      rfl
    rw [nquestions, readU16_of_read hfield, count, UInt16.toNat_ofNat']
    rw [replySize] at hsmall
    omega
  rw [questionLoop, hdeclared]
  rw [Nat.zero_add, hheader] at hquestions
  exact unpackQuestions_unpacks (fun q hq => (h.names q hq).1) hquestions (by omega)

/-- A well-formed query that passes the tests is answered unless none of the matches fits,
and every reply is a well-formed message with those that do. -/
theorem reply_well_formed (lwipIpv6 : Bool) (calls : List Call) (dict : Dict)
    (hbuilt : Updated lwipIpv6 (recordsAfter lwipIpv6 calls) dict)
    (hkeys : ∀ r ∈ dict, IsName r.key.1) (netif : Netif) (payload : List UInt8)
    (questions : List Question) (hquery : QueryPacket payload questions) (mem buf : ℕ → UInt8)
    (hmem : Holds mem payload) (fuel : ℕ) (hfuel : payload.length ≤ fuel) :
    ∃ dict' sent, mdnsRecv lwipIpv6 netif dict payload mem buf fuel = some (dict', sent) ∧
      Updated lwipIpv6 dict dict' ∧
      (sent = none ↔
        (Accepted payload → fitting (candidatesFor lwipIpv6 netif dict questions) = [])) ∧
      ∀ msg, sent = some msg → WellFormedReply lwipIpv6 netif dict (readU16 mem 0)
        (fitting (candidatesFor lwipIpv6 netif dict questions)) msg := by
  have hdict : Answerable dict := by
    intro r' hr'
    obtain ⟨i, hi⟩ := List.mem_iff_getElem?.mp hr'
    obtain ⟨r, hr, hsame⟩ := forall₂_getElem? hbuilt.flip hi
    have hmade := allMade_recordsAfter lwipIpv6 calls r (List.mem_of_getElem? hr)
    exact ⟨hkeys r' hr', hsame.sized hmade.sized⟩
  rw [mdnsRecv]
  split_ifs with hpasses
  · have haccepted := (passes_iff hmem).mp hpasses
    have hunpacks := hquery.unpacks hmem hpasses.1 hfuel
    have hall : ¬(questionLoop mem fuel).any (·.query.isNone) = true := by
      rw [List.any_eq_true]
      rintro ⟨u, hu, hnone⟩
      obtain ⟨i, hi⟩ := List.mem_iff_getElem?.mp hu
      obtain ⟨q, -, -, pos, hquery⟩ := forall₂_getElem? hunpacks.flip hi
      rw [hquery] at hnone
      nomatch hnone
    rw [mdnsReply]
    dsimp only
    rw [if_neg hall]
    have hloop : Answering lwipIpv6 dict (readU16 mem 0)
        (candidatesFor lwipIpv6 netif dict questions) ((questionLoop mem fuel).foldl
          (answerUnpacked lwipIpv6 netif) ⟨dict, responseHeader mem buf, none⟩) :=
      (answering_responseHeader mem buf).loop hdict hunpacks
    obtain ⟨hupdated, hnone, hsent⟩ : Updated lwipIpv6 dict (finishReply netif _).1 ∧ _ ∧ _ :=
      hloop.finish hdict fun a ha => mem_candidatesFor ha
    exact ⟨_, _, rfl, hupdated, hnone.trans ⟨fun h _ => h, fun h => h haccepted⟩, hsent⟩
  · refine ⟨dict, none, rfl, .refl dict, iff_of_true rfl fun haccepted => ?_, nofun⟩
    exact absurd ((passes_iff hmem).mpr haccepted) hpasses

/-- The question for the address of a host. -/
def hostQuestion : Question := ⟨[[0x61]], DNS_RRTYPE_A, DNS_RRCLASS_IN⟩

/-- A packet with this question. -/
def hostQuery : List UInt8 :=
  [0, 0, 0, 0, 0, 1, 0, 0, 0, 0, 0, 0] ++ ([hostQuestion].flatMap Question.encode ++ List.replicate 9 0)

/-- The call that adds the address of the host. -/
def addHost : Call := .addA ⟨[0x61, 0x2E], by decide⟩ 120 (.replicate 4 0)

/-- The record that answers it. -/
def hostAnswer : Rsrc := ⟨DNS_RRTYPE_A, 120, ⟨[0x61, 0x2E], by decide⟩, [1, 1, 1, 1]⟩

/-- The reply: a header that counts one answer, the name, the type, the class, the lifetime,
and the address of the interface behind its size. -/
def hostReply : List UInt8 :=
  [0, 0, 0x84, 0, 0, 0, 0, 1, 0, 0, 0, 0] ++
    [1, 0x61, 0, 0, 1, 0, 1, 0, 0, 0, 120, 0, 4, 1, 1, 1, 1]

theorem reply_well_formed_host :
    ∃ dict', mdnsRecv false ⟨.replicate 4 1, []⟩ (recordsAfter false [addHost]) hostQuery
        (fun a => hostQuery.getD a 0) (fun _ => 0) 28 = some (dict', some hostReply) ∧
      WellFormedReply false ⟨.replicate 4 1, []⟩ (recordsAfter false [addHost])
        (readU16 (fun a => hostQuery.getD a 0) 0) [hostAnswer] hostReply := by
  have hkeys : ∀ r ∈ recordsAfter false [addHost], IsName r.key.1 := by
    intro r hr
    obtain rfl := List.mem_singleton.mp hr
    exact ⟨[[0x61]], by decide, by decide, .inl rfl⟩
  have hquery : QueryPacket hostQuery [hostQuestion] := by
    refine ⟨⟨_, _, rfl, rfl, rfl⟩, fun q hq => ?_⟩
    obtain rfl := List.mem_singleton.mp hq
    exact ⟨by decide, by decide⟩
  obtain ⟨dict', sent, hrecv, -, -, hwell⟩ := reply_well_formed false [addHost]
    (recordsAfter false [addHost]) (.refl _) hkeys ⟨.replicate 4 1, []⟩ hostQuery [hostQuestion]
    hquery (fun a => hostQuery.getD a 0) (fun _ => 0) (holds_getD _ 0) 28 (by decide)
  have hsent : sent = some hostReply := by
    have hbytes : (mdnsRecv false ⟨.replicate 4 1, []⟩ (recordsAfter false [addHost]) hostQuery
        (fun a => hostQuery.getD a 0) (fun _ => 0) 28).map Prod.snd = some (some hostReply) := by
      decide +kernel
    rw [hrecv] at hbytes
    exact Option.some.inj hbytes
  exact ⟨dict', hsent ▸ hrecv, hwell hostReply hsent⟩

end EspOpenRtos.MdnsResponder
