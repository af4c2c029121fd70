/-
# DNS messages

The format of DNS messages without compressed names: a header that counts the entries
of four sections, questions, and resource records, whose names are sequences of labels
behind their lengths. Numbers come with the high byte first.

A parser takes what it reads off the front of a list of bytes. What a parser makes of
an encoding, with anything behind it, is stated by one rule for each way of composing
parsers, so the parser of a message inverts its encoding by the structure of both.
-/

import Mathlib.Algebra.Group.Nat.Defs
import Mathlib.Data.List.Basic

namespace EspOpenRtos.Math.DnsMessages

/-! ## Encoding -/

/-- The bytes of a number of 16 bits. -/
def bytes16 (n : UInt16) : List UInt8 := [UInt8.ofNat (n.toNat / 256), UInt8.ofNat n.toNat]

/-- The bytes of a number of 32 bits. -/
def bytes32 (n : UInt32) : List UInt8 :=
  [UInt8.ofNat (n.toNat / 2 ^ 24), UInt8.ofNat (n.toNat / 2 ^ 16), UInt8.ofNat (n.toNat / 2 ^ 8),
    UInt8.ofNat n.toNat]

/-- A name as a sequence of labels. -/
def encodeName : List (List UInt8) → List UInt8
  | [] => [0]
  | label :: labels => UInt8.ofNat label.length :: label ++ encodeName labels

/-- The labels of a name have one of the lengths that a length byte can tell. -/
def ValidName (labels : List (List UInt8)) : Prop := ∀ l ∈ labels, 0 < l.length ∧ l.length < 64

instance (labels : List (List UInt8)) : Decidable (ValidName labels) :=
  inferInstanceAs (Decidable (∀ l ∈ labels, 0 < l.length ∧ l.length < 64))

structure Question where
  name : List (List UInt8)
  type : UInt16
  cls : UInt16
  deriving DecidableEq

def Question.encode (q : Question) : List UInt8 :=
  encodeName q.name ++ (bytes16 q.type ++ bytes16 q.cls)

/-- A resource record. -/
structure Record where
  name : List (List UInt8)
  type : UInt16
  cls : UInt16
  ttl : UInt32
  data : List UInt8
  deriving DecidableEq

def Record.encode (r : Record) : List UInt8 :=
  encodeName r.name ++ (bytes16 r.type ++ (bytes16 r.cls ++ (bytes32 r.ttl ++
    (bytes16 (UInt16.ofNat r.data.length) ++ r.data))))

/-- The record has a name that can be encoded and data whose size can. -/
structure Record.Valid (r : Record) : Prop where
  name : ValidName r.name
  data : r.data.length < 2 ^ 16

structure Message where
  id : UInt16
  flags1 : UInt8
  flags2 : UInt8
  questions : List Question
  answers : List Record
  authority : List Record
  additional : List Record
  deriving DecidableEq

/-- The number of the entries of a section. -/
def count {α : Type*} (entries : List α) : UInt16 := UInt16.ofNat entries.length

def Message.encode (m : Message) : List UInt8 :=
  bytes16 m.id ++ ([m.flags1] ++ ([m.flags2] ++ (bytes16 (count m.questions) ++
    (bytes16 (count m.answers) ++ (bytes16 (count m.authority) ++ (bytes16 (count m.additional) ++
      (m.questions.flatMap Question.encode ++ (m.answers.flatMap Record.encode ++
        (m.authority.flatMap Record.encode ++ m.additional.flatMap Record.encode)))))))))

/-- The sections can be counted and hold valid entries. -/
structure Message.Valid (m : Message) : Prop where
  questions : m.questions.length < 2 ^ 16 ∧ ∀ q ∈ m.questions, ValidName q.name
  answers : m.answers.length < 2 ^ 16 ∧ ∀ r ∈ m.answers, r.Valid
  authority : m.authority.length < 2 ^ 16 ∧ ∀ r ∈ m.authority, r.Valid
  additional : m.additional.length < 2 ^ 16 ∧ ∀ r ∈ m.additional, r.Valid

/-! ## Parsing -/

/-- A parser takes what it reads off the bytes. -/
abbrev Parser := StateT (List UInt8) Option

def parseByte : Parser UInt8
  | [] => none
  | b :: rest => some (b, rest)

def parse16 : Parser UInt16 := do
  let high ← parseByte
  let low ← parseByte
  return UInt16.ofNat (high.toNat * 256 + low.toNat)

def parse32 : Parser UInt32 := do
  let high ← parse16
  let low ← parse16
  return UInt32.ofNat (high.toNat * 2 ^ 16 + low.toNat)

/-- As many bytes. -/
def parseBytes (n : ℕ) : Parser (List UInt8) := fun s =>
  if n ≤ s.length then some (s.take n, s.drop n) else none

/-- The labels up to the empty one. -/
def parseName : Parser (List (List UInt8))
  | [] => none
  | n :: rest =>
    if n = 0 then some ([], rest)
    else if n.toNat < 64 ∧ n.toNat ≤ rest.length then
      (parseName (rest.drop n.toNat)).map fun r => (rest.take n.toNat :: r.1, r.2)
    else none
termination_by s => s.length
decreasing_by
  rw [List.length_drop, List.length_cons]
  omega

def parseQuestion : Parser Question := do
  let name ← parseName
  let type ← parse16
  let cls ← parse16
  return ⟨name, type, cls⟩

def parseRecord : Parser Record := do
  let name ← parseName
  let type ← parse16
  let cls ← parse16
  let ttl ← parse32
  let size ← parse16
  let data ← parseBytes size.toNat
  return ⟨name, type, cls, ttl, data⟩

/-- As many entries. -/
def parseMany {α : Type} (entry : Parser α) : ℕ → Parser (List α)
  | 0 => pure []
  | n + 1 => do
      let first ← entry
      let rest ← parseMany entry n
      return first :: rest

def parseMessage : Parser Message := do
  let id ← parse16
  let flags1 ← parseByte
  let flags2 ← parseByte
  let questions ← parse16
  let answers ← parse16
  let authority ← parse16
  let additional ← parse16
  let questions ← parseMany parseQuestion questions.toNat
  let answers ← parseMany parseRecord answers.toNat
  let authority ← parseMany parseRecord authority.toNat
  let additional ← parseMany parseRecord additional.toNat
  return ⟨id, flags1, flags2, questions, answers, authority, additional⟩

/-- The message that the bytes are, all of them. -/
def parse (s : List UInt8) : Option Message :=
  match parseMessage s with
  | some (m, []) => some m
  | _ => none

/-! ## Parsers that invert an encoding -/

section Inverts

variable {α β : Type} {p : Parser α} {f : α → Parser β} {a : α} {b : β} {s t : List UInt8}

/-- The parser takes the encoding off the front and gives the value. -/
def Inverts (p : Parser α) (s : List UInt8) (a : α) : Prop :=
  ∀ rest, p (s ++ rest) = some (a, rest)

theorem Inverts.pure (a : α) : Inverts (Pure.pure a) [] a := fun _ => rfl

theorem Inverts.bind (hp : Inverts p s a) (hf : Inverts (f a) t b) : Inverts (p >>= f) (s ++ t) b := by
  intro rest
  change (p (s ++ t ++ rest)).bind (fun r => f r.1 r.2) = _
  rw [List.append_assoc, hp (t ++ rest), Option.bind_some]
  exact hf rest

/-- The last parser, whose value is only put in its place. -/
theorem Inverts.map (hp : Inverts p s a) (g : α → β) :
    Inverts (p >>= fun x => Pure.pure (g x)) s (g a) :=
  List.append_nil s ▸ hp.bind (.pure (g a))

theorem inverts_byte (x : UInt8) : Inverts parseByte [x] x := fun _ => rfl

/-- The number of its two bytes. -/
theorem value16 (n : UInt16) : UInt16.ofNat ((UInt8.ofNat (n.toNat / 256)).toNat * 256 +
    (UInt8.ofNat n.toNat).toNat) = n := by
  have hn := n.toNat_lt
  rw [← UInt16.toNat_inj, UInt16.toNat_ofNat', UInt8.toNat_ofNat', UInt8.toNat_ofNat']
  omega

theorem inverts16 (n : UInt16) : Inverts parse16 (bytes16 n) n := by
  have hboth : Inverts parse16 (bytes16 n) (UInt16.ofNat
      ((UInt8.ofNat (n.toNat / 256)).toNat * 256 + (UInt8.ofNat n.toNat).toNat)) :=
    (inverts_byte _).bind ((inverts_byte _).map _)
  rwa [value16] at hboth

theorem inverts32 (n : UInt32) : Inverts parse32 (bytes32 n) n := by
  have hn := n.toNat_lt
  have hsplit : bytes32 n =
      bytes16 (UInt16.ofNat (n.toNat / 2 ^ 16)) ++ bytes16 (UInt16.ofNat n.toNat) := by
    simp only [bytes32, bytes16, List.cons_append, List.nil_append, List.cons.injEq,
      ← UInt8.toNat_inj, UInt8.toNat_ofNat', UInt16.toNat_ofNat', and_true]
    omega
  have hvalue : UInt32.ofNat ((UInt16.ofNat (n.toNat / 2 ^ 16)).toNat * 2 ^ 16 +
      (UInt16.ofNat n.toNat).toNat) = n := by
    rw [← UInt32.toNat_inj, UInt32.toNat_ofNat', UInt16.toNat_ofNat', UInt16.toNat_ofNat']
    omega
  have hboth : Inverts parse32 (bytes16 (UInt16.ofNat (n.toNat / 2 ^ 16)) ++
      bytes16 (UInt16.ofNat n.toNat)) (UInt32.ofNat ((UInt16.ofNat (n.toNat / 2 ^ 16)).toNat *
        2 ^ 16 + (UInt16.ofNat n.toNat).toNat)) :=
    (inverts16 _).bind ((inverts16 _).map _)
  rwa [hvalue, ← hsplit] at hboth

theorem inverts_bytes (data : List UInt8) : Inverts (parseBytes data.length) data data := by
  intro rest
  rw [parseBytes, if_pos (by rw [List.length_append]; exact Nat.le_add_right _ _),
    List.take_left, List.drop_left]

theorem inverts_name {labels : List (List UInt8)} (hvalid : ValidName labels) :
    Inverts parseName (encodeName labels) labels := by
  intro rest
  induction labels with
  | nil =>
    rw [encodeName, List.singleton_append, parseName, if_pos rfl]
  | cons label labels ih =>
    obtain ⟨⟨hpos, hshort⟩, hlabels⟩ := List.forall_mem_cons.mp hvalid
    have hto : (UInt8.ofNat label.length).toNat = label.length := by
      rw [UInt8.toNat_ofNat']
      omega
    have hne : UInt8.ofNat label.length ≠ 0 := fun hzero => by
      rw [hzero] at hto
      exact absurd hto (Nat.ne_of_lt hpos)
    rw [encodeName, List.cons_append, List.cons_append, List.append_assoc, parseName, if_neg hne,
      hto, if_pos ⟨hshort, by rw [List.length_append]; exact Nat.le_add_right _ _⟩,
      List.drop_left, List.take_left, ih hlabels]
    rfl

theorem inverts_question {q : Question} (hvalid : ValidName q.name) :
    Inverts parseQuestion q.encode q :=
  (inverts_name hvalid).bind ((inverts16 q.type).bind ((inverts16 q.cls).map _))

theorem inverts_record {r : Record} (hvalid : r.Valid) : Inverts parseRecord r.encode r := by
  have hsize : (UInt16.ofNat r.data.length).toNat = r.data.length := by
    rw [UInt16.toNat_ofNat']
    exact Nat.mod_eq_of_lt hvalid.data
  have hdata : Inverts (parseBytes (UInt16.ofNat r.data.length).toNat) r.data r.data := by
    rw [hsize]
    exact inverts_bytes r.data
  exact (inverts_name hvalid.name).bind ((inverts16 r.type).bind ((inverts16 r.cls).bind
    ((inverts32 r.ttl).bind ((inverts16 _).bind (hdata.map _)))))

theorem inverts_many {encode : α → List UInt8} {entries : List α}
    (h : ∀ x ∈ entries, Inverts p (encode x) x) :
    Inverts (parseMany p entries.length) (entries.flatMap encode) entries := by
  induction entries with
  | nil => exact .pure []
  | cons x entries ih =>
    obtain ⟨hx, hentries⟩ := List.forall_mem_cons.mp h
    rw [List.flatMap_cons]
    exact hx.bind ((ih hentries).map (x :: ·))

/-- A section, parsed with the count of the header. -/
theorem inverts_section {encode : α → List UInt8} {entries : List α}
    (hcount : entries.length < 2 ^ 16) (h : ∀ x ∈ entries, Inverts p (encode x) x) :
    Inverts (parseMany p (count entries).toNat) (entries.flatMap encode) entries := by
  have hsize : (count entries).toNat = entries.length := by
    rw [count, UInt16.toNat_ofNat']
    exact Nat.mod_eq_of_lt hcount
  rw [hsize]
  exact inverts_many h

end Inverts

/-- Parsing a message inverts its encoding. -/
theorem parse_encode {m : Message} (h : m.Valid) : parse m.encode = some m := by
  have hquestions := inverts_section h.questions.1 fun q hq => inverts_question (h.questions.2 q hq)
  have hanswers := inverts_section h.answers.1 fun r hr => inverts_record (h.answers.2 r hr)
  have hauthority := inverts_section h.authority.1 fun r hr => inverts_record (h.authority.2 r hr)
  have hadditional := inverts_section h.additional.1 fun r hr => inverts_record (h.additional.2 r hr)
  have hmessage : Inverts parseMessage m.encode m :=
    (inverts16 m.id).bind ((inverts_byte m.flags1).bind ((inverts_byte m.flags2).bind
      ((inverts16 _).bind ((inverts16 _).bind ((inverts16 _).bind ((inverts16 _).bind
        (hquestions.bind (hanswers.bind (hauthority.bind (hadditional.map _))))))))))
  have hall := hmessage []
  rw [List.append_nil] at hall
  rw [parse, hall]

end EspOpenRtos.Math.DnsMessages
