/-
# Unpacking the questions of a packet

The question loop unpacks as many questions as the header declares, one behind the
other. Nothing tells it where the packet ends: what it does is determined by the packet
only as long as the names stay inside, and it comes to an end only if none of them
leads back to where it has been. Both are conditions on the walks from one length byte
to the next that start at the declared questions. A reference that the end of the packet
breaks in two takes the byte behind the packet for its other half.
-/

import EspOpenRtos.MdnsResponder.Decoder

namespace EspOpenRtos.MdnsResponder

open Math.NorFlash (read)
open Math.Walks

/-! ## The loop -/

/-- `MDNS_RESPONDER_REPLY_SIZE`. -/
def replySize : ℕ := 320

/-- `SIZEOF_DNS_HDR`. -/
def sizeofDnsHdr : ℕ := 12

/-- `SIZEOF_DNS_QUERY`. -/
def sizeofDnsQuery : ℕ := 4

/-- `SIZEOF_DNS_ANSWER`. -/
def sizeofDnsAnswer : ℕ := 10

/-- `kMaxQStr`. -/
def kMaxQStr : ℕ := 128

def DNS_RRCLASS_IN : UInt16 := 1
def DNS_RRCLASS_ANY : UInt16 := 255

def DNS_FLAG1_RESP : UInt8 := 0x80
def DNS_FLAG1_OPMASK : UInt8 := 0x78
def DNS_FLAG1_TRUNC : UInt8 := 0x02

/-- `htons` of two bytes in memory. -/
def readU16 (mem : ℕ → UInt8) (p : ℕ) : UInt16 := .ofNat ((mem p).toNat * 256 + (mem (p + 1)).toNat)

/-- `struct mdns_query`, in host order. -/
structure Query where
  pos : ℕ
  type : UInt16
  cls : UInt16

/-- The query that `mdns_get_question` copies from behind a name. -/
def queryAt (mem : ℕ → UInt8) (p : ℕ) : Query := ⟨p, readU16 mem p, readU16 mem (p + 2)⟩

/-- `qClass`: the class without the bit that asks for a unicast reply. -/
def Query.qClass (q : Query) : UInt16 := q.cls &&& 0x7FFF

/-- A question that has been started: what unpacking its name did, and the query behind
it, if it got there. -/
structure Unpacked where
  name : Trace
  query : Option Query

/-- The bytes read for a question. -/
def Unpacked.reads (u : Unpacked) : List ℕ :=
  u.name.reads ++ match u.query with
    | none => []
    | some q => List.range' q.pos sizeofDnsQuery

/-- The calls of `mdns_get_question`, with as many questions left, each name given
`fuel` rounds. -/
def unpackQuestions (mem : ℕ → UInt8) (fuel : ℕ) : (count qp : ℕ) → List Unpacked
  | 0, _ => []
  | count + 1, qp =>
    let name := labels2str mem fuel qp
    match name.next with
    | none => [⟨name, none⟩]
    | some p => ⟨name, some (queryAt mem p)⟩ :: unpackQuestions mem fuel count (p + sizeofDnsQuery)

/-- `nquestions` of `mdns_reply`. -/
def nquestions (mem : ℕ → UInt8) : ℕ := (readU16 mem 4).toNat

/-- The question loop of `mdns_reply`. -/
def questionLoop (mem : ℕ → UInt8) (fuel : ℕ) : List Unpacked :=
  unpackQuestions mem fuel (nquestions mem) sizeofDnsHdr

/-- The tests of `mdns_recv`: the packet is handed to `mdns_reply`. -/
def Passes (payload : List UInt8) (mem : ℕ → UInt8) : Prop :=
  payload.length ≤ replySize ∧
    sizeofDnsHdr + sizeofDnsQuery + 1 + sizeofDnsAnswer + 1 ≤ payload.length ∧
    mem 2 &&& (DNS_FLAG1_RESP + DNS_FLAG1_OPMASK + DNS_FLAG1_TRUNC) = 0 ∧ nquestions mem > 0
  deriving Decidable

/-- The questions that are unpacked for a packet. -/
def recvQuestions (payload : List UInt8) (mem : ℕ → UInt8) (fuel : ℕ) : List Unpacked :=
  if Passes payload mem then questionLoop mem fuel else []

/-- The memory holds the packet; behind it may stand anything. -/
def Holds (mem : ℕ → UInt8) (payload : List UInt8) : Prop :=
  ∀ p n, payload[p]? = some n → mem p = n

/-! ## Names inside a packet -/

/-- Where the name at a position of the packet goes on inside it. -/
def followIn (payload : List UInt8) (p : ℕ) : Option ℕ :=
  payload[p]?.bind fun n =>
    match kindOf n with
    | .pointer => payload[p + 1]?.map (pointerTarget n)
    | .reserved => none
    | .root => none
    | .label => some (p + 1 + n.toNat)

/-- The length byte at a position is in the packet, and so is the second byte of a
reference. -/
def Inside (payload : List UInt8) (p : ℕ) : Prop :=
  ∃ n, payload[p]? = some n ∧ (kindOf n = .pointer → p + 1 < payload.length)

/-- Whatever byte stands behind the packet, the name at a position leads neither further
than this byte nor around a cycle. -/
def NameSafe (payload : List UInt8) (p : ℕ) : Prop :=
  ∀ x q, Reaches (followIn (payload ++ [x])) p q →
    Inside (payload ++ [x]) q ∧ ¬OnCycle (followIn (payload ++ [x])) q

/-- The size of the last part of a name, which is no ordinary label. -/
def lastSize (n : UInt8) : ℕ := if kindOf n = .pointer then 2 else 1

/-- A name ends in the packet behind the first part that is no ordinary label. -/
inductive NameEnd (payload : List UInt8) : ℕ → ℕ → Prop
  | last {p : ℕ} {n : UInt8} : payload[p]? = some n → kindOf n ≠ .label →
      NameEnd payload p (p + lastSize n)
  | label {p e : ℕ} {n : UInt8} : payload[p]? = some n → kindOf n = .label →
      NameEnd payload (p + 1 + n.toNat) e → NameEnd payload p e

/-- As many questions from a position on have safe names. -/
def QuestionsSafe (payload : List UInt8) : ℕ → ℕ → Prop
  | 0, _ => True
  | count + 1, p => NameSafe payload p ∧
      ∀ e, NameEnd payload p e → QuestionsSafe payload count (e + sizeofDnsQuery)

/-- A packet as one reads it off the memory. -/
def Accepted (payload : List UInt8) : Prop := Passes payload fun a => payload.getD a 0
  deriving Decidable

/-- The number of questions that a packet declares. -/
def declaredQuestions (payload : List UInt8) : ℕ := nquestions fun a => payload.getD a 0

section Inside

variable {mem : ℕ → UInt8} {payload more : List UInt8} {p q : ℕ}

theorem Inside.lt (h : Inside payload p) : p < payload.length := by
  obtain ⟨n, hn, -⟩ := h
  exact (List.getElem?_eq_some_iff.mp hn).1

theorem holds_getD (payload : List UInt8) (x : UInt8) : Holds (fun a => payload.getD a x) payload := by
  intro p n hn
  change payload.getD p x = n
  rw [List.getD_eq_getElem?_getD, hn, Option.getD_some]

theorem Holds.of_append (h : Holds mem (payload ++ more)) : Holds mem payload := by
  intro p n hn
  have hlt := (List.getElem?_eq_some_iff.mp hn).1
  exact h p n (by rw [List.getElem?_append_left hlt, hn])

/-- The memory also holds the packet with the byte behind it. -/
theorem Holds.snoc (h : Holds mem payload) : Holds mem (payload ++ [mem payload.length]) := by
  intro p n hn
  rcases Nat.lt_trichotomy p payload.length with hlt | rfl | hgt
  · rw [List.getElem?_append_left hlt] at hn
    exact h p n hn
  · rw [List.getElem?_concat_length] at hn
    exact Option.some.inj hn
  · rw [List.getElem?_eq_none (by rw [List.length_append, List.length_singleton]; omega)] at hn
    cases hn

theorem Holds.getD_eq (h : Holds mem payload) (hp : p < payload.length) :
    mem p = payload.getD p 0 := by
  have hget := List.getElem?_eq_getElem hp
  rw [h p _ hget, List.getD_eq_getElem?_getD, hget, Option.getD_some]

/-- Inside the packet the walk in memory is the walk in the packet. -/
theorem Inside.follow_eq (h : Inside payload p) (hmem : Holds mem payload) :
    followIn payload p = follow mem p := by
  obtain ⟨n, hn, hpointer⟩ := h
  rw [followIn, follow, hn, hmem p n hn, Option.bind_some]
  cases hkind : kindOf n with
  | pointer =>
    have hlow := List.getElem?_eq_getElem (hpointer hkind)
    rw [hlow, hmem _ _ hlow]
    rfl
  | reserved => rfl
  | root => rfl
  | label => rfl

/-- A step of the walk in the packet is one in memory. -/
theorem follow_of_followIn (hmem : Holds mem payload) (h : followIn payload p = some q) :
    follow mem p = some q := by
  obtain ⟨n, hn, hcases⟩ := Option.bind_eq_some_iff.mp h
  refine (Inside.follow_eq ⟨n, hn, fun hkind => ?_⟩ hmem).symm.trans h
  rw [hkind] at hcases
  obtain ⟨low, hlow, -⟩ := Option.map_eq_some_iff.mp hcases
  exact (List.getElem?_eq_some_iff.mp hlow).1

theorem walk_of_followIn (hmem : Holds mem payload) {n : ℕ}
    (h : walk (followIn payload) n p = some q) : walk (follow mem) n p = some q := by
  induction n generalizing p with
  | zero => exact h
  | succ n ih =>
    obtain ⟨r, hr, hrest⟩ := Option.bind_eq_some_iff.mp h
    rw [walk, follow_of_followIn hmem hr]
    exact ih hrest

theorem reaches_inMemory (h : Reaches (followIn payload) p q) (hmem : Holds mem payload) :
    Reaches (follow mem) p q :=
  h.imp fun _ hwalk => walk_of_followIn hmem hwalk

theorem nquestions_eq (hmem : Holds mem payload) (hlarge : 28 ≤ payload.length) :
    nquestions mem = declaredQuestions payload := by
  rw [declaredQuestions, nquestions, nquestions, readU16, readU16, hmem.getD_eq (by omega),
    hmem.getD_eq (by omega)]

/-- The tests read the packet only. -/
theorem passes_iff (hmem : Holds mem payload) : Passes payload mem ↔ Accepted payload := by
  rw [Accepted, Passes, Passes]
  refine and_congr_right fun _ => and_congr_right fun hlarge => ?_
  rw [hmem.getD_eq (show 2 < _ from (by decide : 2 < 28).trans_le hlarge), nquestions_eq hmem hlarge]
  rfl

end Inside

/-! ## Safe names -/

section Safe

variable {mem : ℕ → UInt8} {payload : List UInt8} {p q e fuel count : ℕ}

theorem NameSafe.lt (h : NameSafe payload p) : p < payload.length := by
  obtain ⟨⟨n, hn, hpointer⟩, -⟩ := h 0xFF p (.refl p)
  have hlt := (List.getElem?_eq_some_iff.mp hn).1
  rw [List.length_append, List.length_singleton] at hlt hpointer
  rcases Nat.lt_succ_iff_lt_or_eq.mp hlt with hin | rfl
  · exact hin
  · -- here stands the first half of a reference
    rw [List.getElem?_concat_length] at hn
    obtain rfl := Option.some.inj hn
    exact absurd (hpointer rfl) (Nat.lt_irrefl _)

theorem NameSafe.label (h : NameSafe payload p) {n : UInt8} (hn : payload[p]? = some n)
    (hkind : kindOf n = .label) : NameSafe payload (p + 1 + n.toNat) := by
  intro x q hq
  refine h x q (hq.head ?_)
  rw [followIn, List.getElem?_append_left h.lt, hn, Option.bind_some, hkind]

/-- A safe name comes to its end, whatever stands behind the packet. -/
theorem NameSafe.walk_eq_none (h : NameSafe payload p) (hmem : Holds mem payload) :
    walk (follow mem) (payload.length + 1) p = none := by
  have hsafe := h (mem payload.length)
  rw [← walk_congr fun q hq => (hsafe q hq).1.follow_eq hmem.snoc]
  have hend := walk_card_eq_none
    (s := Finset.range (payload ++ [mem payload.length]).length)
    (fun q hq => Finset.mem_range.mpr (hsafe q hq).1.lt) fun q hq => (hsafe q hq).2
  rwa [Finset.card_range, List.length_append, List.length_singleton] at hend

/-- The position returned for a safe name is where it ends in the packet. -/
theorem NameSafe.nameEnd (h : NameSafe payload p) (hmem : Holds mem payload)
    (hnext : (labels2str mem fuel p).next = some e) : NameEnd payload p e := by
  induction fuel generalizing p with
  | zero => nomatch hnext
  | succ fuel ih =>
    obtain ⟨n, hn⟩ : ∃ n, payload[p]? = some n := ⟨_, List.getElem?_eq_getElem h.lt⟩
    have hbyte := hmem p n hn
    have hlast (hne : kindOf n ≠ .label) := NameEnd.last hn hne
    rw [lastSize] at hlast
    cases hkind : kindOf n with
    | pointer =>
      rw [trace_pointer (hbyte ▸ hkind)] at hnext
      obtain ⟨_, -, rfl⟩ := Option.map_eq_some_iff.mp hnext
      rw [hkind] at hlast
      exact hlast nofun
    | reserved =>
      rw [trace_reserved (hbyte ▸ hkind)] at hnext
      obtain rfl := Option.some.inj hnext
      rw [hkind] at hlast
      exact hlast nofun
    | root =>
      rw [trace_root (hbyte ▸ hkind)] at hnext
      obtain rfl := Option.some.inj hnext
      rw [hkind] at hlast
      exact hlast nofun
    | label =>
      rw [trace_label (hbyte ▸ hkind), hbyte] at hnext
      exact .label hn hkind (ih (h.label hn hkind) hnext)

theorem NameEnd.unique {e' : ℕ} (h : NameEnd payload p e) (h' : NameEnd payload p e') :
    e = e' := by
  induction h with
  | last hn hkind =>
    cases h' with
    | last hn' hkind' =>
      cases Option.some.inj (hn.symm.trans hn')
      rfl
    | label hn' hkind' =>
      cases Option.some.inj (hn.symm.trans hn')
      exact absurd hkind' hkind
  | label hn hkind _ ih =>
    cases h' with
    | last hn' hkind' =>
      cases Option.some.inj (hn.symm.trans hn')
      exact absurd hkind hkind'
    | label hn' hkind' hrest =>
      cases Option.some.inj (hn.symm.trans hn')
      exact ih hrest

/-- Questions with safe names are unpacked, with few nested calls. -/
theorem QuestionsSafe.unpacked (h : QuestionsSafe payload count p) (hmem : Holds mem payload)
    {u : Unpacked} (hu : u ∈ unpackQuestions mem (payload.length + 1) count p) :
    u.query ≠ none ∧ u.name.depth ≤ payload.length := by
  induction count generalizing p with
  | zero => nomatch hu
  | succ count ih =>
    obtain ⟨hsafe, hrest⟩ := h
    obtain ⟨e, he⟩ := exists_next_of_walk (hsafe.walk_eq_none hmem)
    simp only [unpackQuestions, he] at hu
    rcases List.mem_cons.mp hu with rfl | hu
    · exact ⟨nofun, Nat.le_of_lt_succ (depth_lt he)⟩
    · exact ih (hrest e (hsafe.nameEnd hmem he)) hu

/-- A memory in which every byte behind the packet is a reference to the last offset that
a reference can name. -/
def behindOnes (payload : List UInt8) : ℕ → UInt8 := fun a => payload.getD a 0xFF

theorem behindOnes_of_le (h : payload.length ≤ p) : behindOnes payload p = 0xFF :=
  List.getD_eq_default _ _ h

theorem follow_behindOnes (h : payload.length ≤ p) :
    follow (behindOnes payload) p = some 0x3FFF := by
  rw [follow, behindOnes_of_le h, behindOnes_of_le (Nat.le_succ_of_le h)]
  rfl

/-- Behind the packet the walk never ends. -/
theorem walk_behindOnes (hsmall : payload.length ≤ 0x3FFF)
    (hreach : Reaches (follow (behindOnes payload)) p q) (hout : payload.length ≤ q) :
    walk (follow (behindOnes payload)) fuel p ≠ none := by
  have hcycle : OnCycle (follow (behindOnes payload)) 0x3FFF := by
    refine ⟨0, ?_⟩
    rw [walk, follow_behindOnes hsmall]
    rfl
  exact walk_ne_none_of_cycle
    (hreach.trans (.head (follow_behindOnes hout) (.refl _))) hcycle fuel

theorem eq_of_pointer_low {n : UInt8} (hkind : kindOf n = .pointer)
    (hzero : (n &&& 0x3F).toNat = 0) : n = 0xC0 := by
  have hall : ∀ i < 256, kindOf (.ofNat i) = .pointer → (UInt8.ofNat i &&& 0x3F).toNat = 0 →
      UInt8.ofNat i = 0xC0 := by decide +kernel
  have hthis := hall n.toNat n.toNat_lt
  rw [UInt8.ofNat_toNat] at hthis
  exact hthis hkind hzero

/-- Where a name comes by that ends although ones stand behind the bytes: only the first half
of a reference to one of the first 256 bytes may break off. -/
theorem inside_or_broken (hsmall : payload.length ≤ replySize + 1)
    (hend : walk (follow (behindOnes payload)) fuel p = none)
    (hq : Reaches (followIn payload) p q) :
    Inside payload q ∨ payload[q]? = some 0xC0 ∧ q + 1 = payload.length ∧ 256 < payload.length := by
  have hmem : Holds (behindOnes payload) payload := holds_getD payload 0xFF
  have hreach := reaches_inMemory hq hmem
  have hfar : payload.length ≤ 0x3FFF := hsmall.trans (by decide)
  rw [or_iff_not_imp_left]
  intro hout
  cases hn : payload[q]? with
  | none => exact absurd hend (walk_behindOnes hfar hreach (List.getElem?_eq_none_iff.mp hn))
  | some n =>
    obtain ⟨hkind, hcut⟩ : kindOf n = .pointer ∧ payload.length ≤ q + 1 := by
      by_contra hne
      exact hout ⟨n, hn, fun hkind => Nat.lt_of_not_le fun hle => hne ⟨hkind, hle⟩⟩
    have hq : q + 1 = payload.length := by
      have := (List.getElem?_eq_some_iff.mp hn).1
      omega
    have hstep : follow (behindOnes payload) q = some (pointerTarget n 0xFF) := by
      rw [follow, hmem q n hn, hkind, behindOnes_of_le hcut]
    -- the second byte of the reference is one of the ones behind the packet
    by_cases hlow : payload.length ≤ pointerTarget n 0xFF
    · exact absurd hend (walk_behindOnes hfar (hreach.trans (.head hstep (.refl _))) hlow)
    · rw [pointerTarget] at hstep hlow
      rw [replySize] at hsmall
      have hff : (0xFF : UInt8).toNat = 255 := rfl
      have hzero : (n &&& 0x3F).toNat = 0 := by omega
      refine ⟨congrArg some (eq_of_pointer_low hkind hzero), hq, ?_⟩
      by_contra hshort
      have hself : (n &&& 0x3F).toNat * 256 + (0xFF : UInt8).toNat = q := by omega
      rw [hself] at hstep
      refine walk_ne_none_of_cycle hreach ⟨0, ?_⟩ fuel hend
      rw [walk, hstep]
      rfl

/-- A way to the byte behind the packet either comes by a reference that is broken by the end
of the packet or does not depend on this byte. -/
theorem reaches_behind {x : UInt8} (hx : kindOf x = .pointer)
    (h : Reaches (followIn (payload ++ [x])) p payload.length) :
    (∃ r, followIn (payload ++ [x]) (payload.length - 1) = some r ∧
      Reaches (followIn (payload ++ [x])) r payload.length) ∨
    Reaches (follow (behindOnes payload)) p payload.length := by
  obtain ⟨n, hn⟩ := h
  induction n generalizing p with
  | zero =>
    obtain rfl := Option.some.inj hn
    exact .inr (.refl _)
  | succ n ih =>
    obtain ⟨r, hr, hrest⟩ := Option.bind_eq_some_iff.mp hn
    rcases Nat.lt_trichotomy (p + 1) payload.length with hlt | hlast | hgt
    · have hfollow : followIn payload p = some r := by
        rw [← hr, followIn, followIn, List.getElem?_append_left (by omega),
          List.getElem?_append_left hlt]
      exact (ih hrest).imp_right (.head (follow_of_followIn (holds_getD payload 0xFF) hfollow))
    · rw [← hlast, Nat.add_sub_cancel, hlast]
      exact .inl ⟨r, hr, n, hrest⟩
    · -- from behind the packet no step leads on
      obtain ⟨m, hm, hcases⟩ := Option.bind_eq_some_iff.mp hr
      have hle := (List.getElem?_eq_some_iff.mp hm).1
      rw [List.length_append, List.length_singleton] at hle
      obtain rfl : p = payload.length := by omega
      rw [List.getElem?_concat_length] at hm
      obtain rfl := Option.some.inj hm
      rw [hx, List.getElem?_eq_none (by simp)] at hcases
      cases hcases

/-- Behind the packet with one more byte nothing is reached. -/
theorem le_of_reaches {x : UInt8} (h : Reaches (followIn (payload ++ [x])) p payload.length) :
    p ≤ payload.length := by
  by_contra hgt
  obtain ⟨n, hn⟩ := h
  have hnone : followIn (payload ++ [x]) p = none := by
    rw [followIn, List.getElem?_eq_none (by rw [List.length_append, List.length_singleton]; omega)]
    rfl
  cases n with
  | zero =>
    have := Option.some.inj hn
    omega
  | succ n =>
    rw [walk, hnone] at hn
    cases hn

/-- A name that ends whatever stands behind the packet is safe. -/
theorem nameSafe_of_walk (hsmall : payload.length ≤ replySize)
    (hend : ∀ mem, Holds mem payload → ∃ fuel, walk (follow mem) fuel p = none) :
    NameSafe payload p := by
  intro x q hq
  have hones : Holds (behindOnes (payload ++ [x])) (payload ++ [x]) := holds_getD _ 0xFF
  obtain ⟨fuel, hfuel⟩ := hend _ hones.of_append
  refine ⟨?_, fun hcycle => walk_ne_none_of_cycle (reaches_inMemory hq hones)
    (hcycle.imp fun _ => walk_of_followIn hones) fuel hfuel⟩
  have hlen : (payload ++ [x]).length = payload.length + 1 := List.length_append
  refine (inside_or_broken (by omega) hfuel hq).resolve_right ?_
  rintro ⟨hc0, hlast, hlong⟩
  obtain rfl : q = payload.length := by omega
  rw [List.getElem?_concat_length] at hc0
  obtain rfl := Option.some.inj hc0
  rcases reaches_behind rfl hq with ⟨r, hr, hback⟩ | hreach
  · -- the broken reference leads back to the byte behind the packet
    have hlow : r = 0xC0 := by
      have hle := le_of_reaches hback
      obtain ⟨n, hn, hcases⟩ := Option.bind_eq_some_iff.mp hr
      cases hkind : kindOf n with
      | pointer =>
        rw [hkind, Nat.sub_add_cancel (by omega), List.getElem?_concat_length] at hcases
        obtain rfl := Option.some.inj hcases
        rw [pointerTarget] at hle ⊢
        rw [replySize] at hsmall
        have : (0xC0 : UInt8).toNat = 192 := rfl
        omega
      | reserved | root =>
        rw [hkind] at hcases
        cases hcases
      | label =>
        rw [hkind] at hcases
        have hto := Option.some.inj hcases
        have hpos := ((kindOf_eq_label_iff n).mp hkind).1
        omega
    have hmem : Holds (fun a => (payload ++ [0xC0] ++ [0xC0]).getD a 0) (payload ++ [0xC0]) :=
      (holds_getD _ 0).of_append
    have hstep : follow (fun a => (payload ++ [0xC0] ++ [0xC0]).getD a 0) payload.length = some r := by
      rw [hlow]
      simp [follow, List.getD_eq_getElem?_getD, kindOf, pointerTarget]
    obtain ⟨n, hn⟩ := reaches_inMemory hback hmem
    obtain ⟨fuel', hfuel'⟩ := hend _ hmem.of_append
    refine walk_ne_none_of_cycle (reaches_inMemory hq hmem) ⟨n, ?_⟩ fuel' hfuel'
    rw [walk, hstep, Option.bind_some, hn]
  · obtain ⟨fuel', hfuel'⟩ := hend _ (holds_getD payload 0xFF)
    exact walk_behindOnes (hsmall.trans (by decide)) hreach (Nat.le_refl _) hfuel'

/-- Questions that are unpacked whatever stands behind the packet are safe. -/
theorem questionsSafe_of_unpacked (hsmall : payload.length ≤ replySize)
    (h : ∀ mem, Holds mem payload → ∃ fuel, ∀ u ∈ unpackQuestions mem fuel count p, u.query ≠ none) :
    QuestionsSafe payload count p := by
  induction count generalizing p with
  | zero => trivial
  | succ count ih =>
    -- the first question has been unpacked, and so have the others
    have hfirst (mem : ℕ → UInt8) (hmem : Holds mem payload) :
        ∃ fuel e, (labels2str mem fuel p).next = some e ∧
          ∀ u ∈ unpackQuestions mem fuel count (e + sizeofDnsQuery), u.query ≠ none := by
      obtain ⟨fuel, hfuel⟩ := h mem hmem
      rw [unpackQuestions] at hfuel
      cases hnext : (labels2str mem fuel p).next with
      | none =>
        simp only [hnext] at hfuel
        exact absurd rfl (hfuel _ List.mem_cons_self)
      | some e =>
        simp only [hnext] at hfuel
        exact ⟨fuel, e, hnext, fun u hu => hfuel u (List.mem_cons_of_mem _ hu)⟩
    have hsafe : NameSafe payload p := nameSafe_of_walk hsmall fun mem hmem => by
      obtain ⟨fuel, e, hnext, -⟩ := hfirst mem hmem
      exact ⟨fuel, walk_eq_none_of_next hnext⟩
    refine ⟨hsafe, fun e he => ih fun mem hmem => ?_⟩
    obtain ⟨fuel, e', hnext, hrest⟩ := hfirst mem hmem
    rw [← (hsafe.nameEnd hmem hnext).unique he]
    exact ⟨fuel, hrest⟩

end Safe

/-- The question loop comes to its end whatever stands behind the packet, and its nested
calls are at most as many as the packet has bytes. -/
def LoopEnds (payload : List UInt8) : Prop :=
  ∀ mem, Holds mem payload → ∃ fuel, ∀ u ∈ recvQuestions payload mem fuel,
    u.query ≠ none ∧ u.name.depth ≤ payload.length

/-- The loop ends exactly if the packet is dropped or the names of the declared questions lead
neither out of the packet nor around a cycle. -/
theorem question_loop_ends_iff (payload : List UInt8) :
    LoopEnds payload ↔
      (Accepted payload → QuestionsSafe payload (declaredQuestions payload) sizeofDnsHdr) := by
  by_cases haccepted : Accepted payload
  · have hloop {mem : ℕ → UInt8} (hmem : Holds mem payload) (fuel : ℕ) :
        recvQuestions payload mem fuel =
          unpackQuestions mem fuel (declaredQuestions payload) sizeofDnsHdr := by
      rw [recvQuestions, if_pos ((passes_iff hmem).mpr haccepted), questionLoop,
        nquestions_eq hmem haccepted.2.1]
    constructor
    · intro hends _
      refine questionsSafe_of_unpacked haccepted.1 fun mem hmem => ?_
      obtain ⟨fuel, hfuel⟩ := hends mem hmem
      rw [hloop hmem] at hfuel
      exact ⟨fuel, fun u hu => (hfuel u hu).1⟩
    · intro hsafe mem hmem
      refine ⟨payload.length + 1, fun u hu => ?_⟩
      rw [hloop hmem] at hu
      exact (hsafe haccepted).unpacked hmem hu
  · refine ⟨fun _ h => absurd h haccepted, fun _ mem hmem => ⟨0, fun u hu => ?_⟩⟩
    rw [recvQuestions, if_neg fun hpasses => haccepted ((passes_iff hmem).mp hpasses)] at hu
    cases hu

/-- A packet with one question, whose name starts with the given two bytes. -/
def oneQuestion (first second : UInt8) : List UInt8 :=
  [0, 0, 0, 0, 0, 1, 0, 0, 0, 0, 0, 0, first, second, 0, 0, 0, 0, 0, 0, 0, 0, 0, 0, 0, 0, 0, 0]

/-- A name that refers to itself is unpacked forever. -/
theorem self_reference_never_ends :
    Accepted (oneQuestion 0xC0 0x0C) ∧ ¬LoopEnds (oneQuestion 0xC0 0x0C) := by
  have haccepted : Accepted (oneQuestion 0xC0 0x0C) := by decide
  refine ⟨haccepted, fun hends => ?_⟩
  obtain ⟨fuel, hfuel⟩ := hends (fun a => (oneQuestion 0xC0 0x0C).getD a 0) (holds_getD _ 0)
  have hcycle : OnCycle (follow fun a => (oneQuestion 0xC0 0x0C).getD a 0) 12 := ⟨0, rfl⟩
  have hnone := next_eq_none_iff.mpr (walk_ne_none_of_cycle (.refl 12) hcycle fuel)
  have hloop : recvQuestions (oneQuestion 0xC0 0x0C) (fun a => (oneQuestion 0xC0 0x0C).getD a 0) fuel =
      [⟨labels2str (fun a => (oneQuestion 0xC0 0x0C).getD a 0) fuel 12, none⟩] := by
    have hpasses := (passes_iff (holds_getD _ 0)).mpr haccepted
    rw [recvQuestions, if_pos hpasses, questionLoop,
      show nquestions (fun a => (oneQuestion 0xC0 0x0C).getD a 0) = 1 from rfl, unpackQuestions,
      sizeofDnsHdr]
    simp only [hnone]
  rw [hloop] at hfuel
  exact (hfuel _ List.mem_cons_self).1 rfl

end EspOpenRtos.MdnsResponder
