/-
# How a response is cut into pieces

A response with a header and a body may arrive in any pieces. The client hands on exactly
the body if it does not find the end of the header too early, among old bytes in the
buffer, and if no piece ends where the number of bytes of the body so far looks like none.
Otherwise it loses bytes or never notices that the header is over.
-/

import EspOpenRtos.HttpOta.Client

namespace EspOpenRtos.HttpOta

open Math.CStrings

/-! ## The end of the header -/

section HeaderEnd

variable (h : ResponseHeader)

/-- Lines are not empty, so the empty line is found behind all of them. -/
theorem strstr_fieldsText (fields : List Field) (s : List UInt8) :
    strstr emptyLine (cr :: lf :: (fieldsText fields ++ cr :: lf :: s)) =
      some (fieldsText fields).length := by
  induction fields with
  | nil => exact strstr_append_self emptyLine s
  | cons f fields ih =>
    have htext : fieldsText (f :: fields) ++ cr :: lf :: s =
        f.text ++ cr :: lf :: (fieldsText fields ++ cr :: lf :: s) := by
      simp [fieldsText]
    have hlength : (fieldsText (f :: fields)).length =
        (fieldsText fields).length + f.text.length + 1 + 1 := by
      simp only [fieldsText, List.flatMap_cons, List.length_append, List.length_cons,
        List.length_nil]
      omega
    obtain ⟨c, name, hname⟩ := List.exists_cons_of_ne_nil f.name_ne_nil
    have hfirst : ¬emptyLine <+:
        cr :: lf :: (f.text ++ cr :: lf :: (fieldsText fields ++ cr :: lf :: s)) := fun hprefix => by
      have htail := (List.cons_prefix_cons.mp (List.cons_prefix_cons.mp hprefix).2).2
      rw [Field.text, hname, List.cons_append, List.cons_append] at htail
      have hc : cr ∈ f.name := by
        rw [hname, (List.cons_prefix_cons.mp htail).1]
        exact List.mem_cons_self
      exact f.name_free cr hc (by decide)
    have hsecond : cr ∉ [lf] := by decide
    rw [htext, strstr_cons_of_not hfirst, ← List.singleton_append, emptyLine,
      strstr_skip hsecond, strstr_skip fun hc => f.text_free cr hc (by decide), ← emptyLine, ih, hlength]
    rfl

theorem strstr_text (s : List UInt8) :
    strstr emptyLine (h.text ++ s) = some (h.text.length - 4) := by
  have hstatus : cr ∉ h.status.text := fun hc => h.status.text_free cr hc (by decide)
  have htext : h.text ++ s = h.status.text ++
      cr :: lf :: (fieldsText h.fields ++ cr :: lf :: s) := by
    simp [ResponseHeader.text]
  have hlength : h.text.length = (fieldsText h.fields).length + h.status.text.length + 4 := by
    simp only [ResponseHeader.text, List.length_append, List.length_cons, List.length_nil]
    omega
  rw [htext, emptyLine, strstr_skip hstatus, ← emptyLine, strstr_fieldsText, hlength]
  rfl

/-- In a part of the header the empty line is not found before the part ends. -/
theorem lt_of_strstr_take {k p : ℕ} (hk : k < h.text.length) {s : List UInt8}
    (hp : strstr emptyLine (h.text.take k ++ s) = some p) : k < p + 4 := by
  by_contra hle
  have hlength : (h.text.take k).length = k := List.length_take_of_le hk.le
  have hprefix := prefix_of_strstr hp
  rw [List.drop_append_of_le_length (by omega)] at hprefix
  have hpart : emptyLine <+: (h.text.take k).drop p :=
    List.prefix_of_prefix_length_le hprefix (List.prefix_append _ _)
      (by rw [List.length_drop, hlength]; exact Nat.le_sub_of_add_le (by rw [emptyLine]; simp; omega))
  have hwhole : emptyLine <+: h.text.drop p :=
    hpart.trans ((List.take_prefix k h.text).drop p)
  obtain ⟨q, hq, hfound⟩ := strstr_of_prefix hwhole
  have hend := strstr_text h []
  rw [List.append_nil, hfound] at hend
  have := Option.some.inj hend
  omega

end HeaderEnd

/-! ## What should happen -/

/-- A response with status 200 and a length that is written as the client expects it. -/
structure Response where
  header : ResponseHeader
  body : List UInt8
  lengthField : Field
  code : header.status.code = ascii "200"
  mem_fields : lengthField ∈ header.fields
  name : lengthField.name = contentLengthToken
  blank : lengthField.before ≠ []
  value : digitsValue lengthField.value = body.length

namespace Response

def bytes (r : Response) : List UInt8 := r.header.text ++ r.body

/-- The length of the header. -/
def headerLen (r : Response) : ℕ := r.header.text.length

end Response

/-- The pieces are not empty and no longer than requested, as long as anything is. -/
def Requested (bufferSize : ℕ) : Client → List (List UInt8) → Prop
  | _, [] => True
  | c, piece :: pieces =>
    piece ≠ [] ∧ (c.full < bufferSize → piece.length ≤ bufferSize - c.full) ∧
      match c.round bufferSize piece with
      | .next c' => Requested bufferSize c' pieces
      | _ => True

/-- The callbacks get exactly the body, all but the last time in whole buffers. -/
def Delivers (bufferSize : ℕ) (body : List UInt8) (received : Option Received) : Prop :=
  ∃ blocks last, received = some ⟨blocks, some last, httpOk⟩ ∧
    (∀ block ∈ blocks, block.length = bufferSize) ∧ blocks.flatten ++ last = body

/-- A read may end behind `k` bytes of the response: in the header, the buffer with its old
bytes has no empty line, and behind it, the count of bytes of the body is not 0. -/
structure GoodCut (r : Response) (mem : List UInt8) (k : ℕ) : Prop where
  early : k < r.headerLen → strstr emptyLine (cstr (r.bytes.take k ++ mem.drop k)) = none
  late : r.headerLen ≤ k → (k - r.headerLen) % 2 ^ 32 ≠ 0

/-! ## Lost bytes -/

section Lost

variable {bufferSize : ℕ} {body : List UInt8} {c c' : Client} {piece : List UInt8}
  {pieces : List (List UInt8)}

/-- The bytes that have been handed on or are in the buffer. -/
def Client.held (c : Client) : ℕ := c.blocks.flatten.length + c.full

/-- A header that is found is taken out of the buffer. -/
theorem held_takeHeader {pdu : ℕ} (h : c.takeHeader pdu = .next c') : c'.held + pdu = c.held := by
  rw [Client.takeHeader] at h
  split at h
  · nomatch h
  · next hle =>
      dsimp only at h
      split at h
      · nomatch h
      · obtain rfl := Round.next.inj h
        rw [Client.held, Client.held]
        dsimp only
        omega

/-- No round makes more of the bytes it gets. -/
theorem held_round (h : c.round bufferSize piece = .next c') :
    c'.held ≤ c.held + piece.length := by
  have hstore : (c.store piece).held = c.held + piece.length := (Nat.add_assoc _ _ _).symm
  rw [Client.round] at h
  split at h
  · split at h
    · have hheld := held_takeHeader h
      omega
    · obtain rfl := Round.next.inj h
      exact hstore.le
  · obtain rfl := Round.next.inj h
    rw [← hstore, Client.flush]
    split
    · rw [Client.held, Client.held]
      dsimp only
      rw [List.flatten_append, List.flatten_singleton, List.length_append, List.length_take]
      omega
    · exact Nat.le_refl _

theorem not_delivers_none : ¬Delivers bufferSize body none := fun ⟨_, _, h, _⟩ => nomatch h

theorem not_delivers_stop {blocks : List (List UInt8)} {code : ℕ} :
    ¬Delivers bufferSize body (some ⟨blocks, none, code⟩) := fun ⟨_, _, h, _⟩ => nomatch h

/-- What a client without further bytes can deliver. -/
theorem delivers_finish :
    Delivers bufferSize body (some c.finish) ↔
      (∀ block ∈ c.blocks, block.length = bufferSize) ∧
        c.blocks.flatten ++ c.mem.take c.full = body ∧ c.finish.code = httpOk := by
  constructor
  · rintro ⟨blocks, last, heq, hblocks, hbody⟩
    obtain ⟨rfl, hlast, hcode⟩ := Received.mk.inj (Option.some.inj heq)
    obtain rfl := Option.some.inj hlast
    exact ⟨hblocks, hbody, hcode⟩
  · rintro ⟨hblocks, hbody, hcode⟩
    refine ⟨c.blocks, c.mem.take c.full, ?_, hblocks, hbody⟩
    rw [← hcode]
    rfl

/-- With `n` bytes to come the body cannot be delivered any more: bytes are lost, or the
client looks for a header in the body. -/
def Doomed (body : List UInt8) (n : ℕ) (c : Client) : Prop :=
  c.held + n < body.length ∨ c.tot = 0 ∧ c.response.length ≠ 0 ∧ c.held + n ≤ body.length

theorem Doomed.round {n : ℕ} (h : Doomed body (piece.length + n) c)
    (hround : c.round bufferSize piece = .next c') : Doomed body n c' := by
  have hstore : (c.store piece).held = c.held + piece.length := (Nat.add_assoc _ _ _).symm
  rcases h with hlost | ⟨htot, hlength, hheld⟩
  · have hheld := held_round hround
    exact .inl (by omega)
  · rw [Client.round, if_pos htot] at hround
    split at hround
    · -- bytes of the body are taken for a header
      have hheld' := held_takeHeader hround
      exact .inl (by omega)
    · obtain rfl := Round.next.inj hround
      exact .inr ⟨htot, hlength, by omega⟩

theorem Doomed.not_delivers_finish {n : ℕ} (h : Doomed body n c) :
    ¬Delivers bufferSize body (some c.finish) := fun hdelivers => by
  obtain ⟨-, hbody, hcode⟩ := delivers_finish.mp hdelivers
  rcases h with hlost | ⟨htot, hlength, -⟩
  · have hsum := congrArg List.length hbody
    rw [List.length_append, List.length_take] at hsum
    rw [Client.held] at hlost
    omega
  · have hne : c.tot ≠ c.response.length := fun h => hlength (h.symm.trans htot)
    rw [Client.finish, if_pos hne] at hcode
    exact absurd hcode (show httpDowloadSizeNotMatch ≠ httpOk by decide)

theorem Doomed.not_delivers (h : Doomed body pieces.flatten.length c) :
    ¬Delivers bufferSize body (c.dowload bufferSize pieces) := by
  induction hn : pieces.flatten.length using Nat.strong_induction_on generalizing c pieces with
  | _ n ih =>
    rw [← socketRead_append (bufferSize - c.full) pieces, List.length_append] at h
    rw [Client.dowload]
    split
    · exact not_delivers_none
    · exact not_delivers_stop
    · next c' hround =>
        split
        · exact (h.round hround).not_delivers_finish
        · next hpiece => exact ih _ (hn ▸ length_socketRead_lt hpiece) (h.round hround) rfl

end Lost

/-! ## The body -/

section Body

variable {r : Response} {bufferSize k : ℕ} {c : Client} {pieces : List (List UInt8)}

/-- The first piece of what is left of a text. -/
theorem first_piece {all piece rest : List UInt8} {k : ℕ} (h : piece ++ rest = all.drop k) :
    all.take (k + piece.length) = all.take k ++ piece ∧ rest = all.drop (k + piece.length) ∧
      piece.length + rest.length = all.length - k := by
  refine ⟨?_, ?_, ?_⟩
  · rw [List.take_add, ← h, List.take_left]
  · rw [← List.drop_drop, ← h, List.drop_left]
  · rw [← List.length_append, h, List.length_drop]

/-- A round for a piece that is not longer than requested. -/
theorem dowload_cons {piece : List UInt8} (hne : piece ≠ [])
    (hle : piece.length ≤ bufferSize - c.full) :
    c.dowload bufferSize (piece :: pieces) = match c.round bufferSize piece with
      | .undefined => none
      | .stop code => some ⟨c.blocks, none, code⟩
      | .next c' => c'.dowload bufferSize pieces := by
  rw [Client.dowload, socketRead, List.take_of_length_le hle, if_pos hle]
  dsimp only
  cases c.round bufferSize piece with
  | undefined => rfl
  | stop code => rfl
  | next c' => exact dif_neg hne

theorem dowload_nil {c' : Client} (hround : c.round bufferSize [] = .next c') :
    c.dowload bufferSize [] = some c'.finish := by
  rw [Client.dowload, socketRead, hround]
  rfl

theorem take_store {piece : List UInt8} (hfull : c.full ≤ c.mem.length) :
    (c.store piece).mem.take (c.store piece).full = c.mem.take c.full ++ piece := by
  refine List.take_left' ?_
  rw [List.length_append, List.length_take_of_le hfull]
  rfl

theorem length_store {piece : List UInt8} (hroom : c.full + piece.length ≤ c.mem.length) :
    (c.store piece).mem.length = c.mem.length := by
  rw [Client.store, List.length_append, List.length_append, List.length_take, List.length_drop]
  omega

/-- The client has handed on or holds the first `k` bytes of the body. -/
structure Serving (r : Response) (bufferSize k : ℕ) (c : Client) : Prop where
  mem : bufferSize ≤ c.mem.length
  full : c.full = k % bufferSize
  tot : c.tot = k % 2 ^ 32
  response : c.response = ⟨httpOk, min r.body.length (2 ^ 31 - 1)⟩
  blocks : ∀ block ∈ c.blocks, block.length = bufferSize
  stored : c.blocks.flatten ++ c.mem.take c.full = r.body.take k

variable (h : Serving r bufferSize k c) (hpos : 0 < bufferSize)
include h hpos

theorem Serving.held (hk : k ≤ r.body.length) : c.held = k := by
  have hlength := congrArg List.length h.stored
  have hfull := h.full
  have hmem := h.mem
  have hlt := Nat.mod_lt k hpos
  rw [List.length_append, List.length_take, List.length_take] at hlength
  rw [Client.held]
  omega

/-- The next piece of the body. -/
theorem Serving.round {piece : List UInt8} (htot : k % 2 ^ 32 ≠ 0)
    (hle : piece.length ≤ bufferSize - k % bufferSize)
    (hpiece : r.body.take (k + piece.length) = r.body.take k ++ piece) :
    ∃ c', c.round bufferSize piece = .next c' ∧ Serving r bufferSize (k + piece.length) c' := by
  have hlt := Nat.mod_lt k hpos
  have hfull := h.full
  have hmem := h.mem
  have hlength : (c.store piece).mem.length = c.mem.length := length_store (by omega)
  have htake : (c.store piece).mem.take (c.store piece).full = c.mem.take c.full ++ piece :=
    take_store (by omega)
  have hstored : (c.store piece).blocks.flatten ++
      (c.store piece).mem.take (c.store piece).full = r.body.take (k + piece.length) := by
    rw [htake, hpiece, ← h.stored, List.append_assoc]
    rfl
  have hcount : (c.tot + piece.length) % 2 ^ 32 = (k + piece.length) % 2 ^ 32 := by
    rw [h.tot, Nat.mod_add_mod]
  have hsum : (c.store piece).full = k % bufferSize + piece.length := by
    rw [← hfull]
    rfl
  refine ⟨_, by rw [Client.round, if_neg (h.tot ▸ htot)], ?_⟩
  rw [Client.flush, hcount]
  dsimp only
  split
  case isTrue hend =>
    have hzero : (k + piece.length) % bufferSize = 0 := by
      rw [← Nat.mod_add_mod, ← hsum, hend, Nat.mod_self]
    refine ⟨?_, hzero.symm, rfl, h.response, ?_, ?_⟩
    · rw [List.length_append, List.length_replicate]
      omega
    · intro block hblock
      rcases List.mem_append.mp hblock with hold | hnew
      · exact h.blocks block hold
      · rw [List.mem_singleton.mp hnew, List.length_take]
        omega
    · rw [List.take_zero, List.append_nil, List.flatten_append, List.flatten_singleton]
      exact hstored
  case isFalse hend =>
    refine ⟨by dsimp only; omega, ?_, rfl, h.response, h.blocks, hstored⟩
    dsimp only
    rw [← Nat.mod_add_mod, ← hsum, Nat.mod_eq_of_lt (by omega)]

/-- A client that has seen bytes of the body but counts none of them is stuck. -/
theorem Serving.not_delivers (hbody : r.body ≠ []) (hk : k ≤ r.body.length)
    (hpieces : pieces.flatten = r.body.drop k) (htot : k % 2 ^ 32 = 0) :
    ¬Delivers bufferSize r.body (c.dowload bufferSize pieces) := by
  have hlength := List.length_pos_iff.mpr hbody
  refine Doomed.not_delivers (.inr ⟨h.tot.trans htot, ?_, ?_⟩)
  · rw [h.response]
    dsimp only
    omega
  · rw [h.held hpos hk, hpieces, List.length_drop]
    omega

/-- The body is delivered if the count of its bytes is never 0 between two reads and its
length is what the header said. -/
theorem Serving.delivers_iff (hbody : r.body ≠ []) (hk : k ≤ r.body.length)
    (hpieces : pieces.flatten = r.body.drop k) (hrequested : Requested bufferSize c pieces) :
    Delivers bufferSize r.body (c.dowload bufferSize pieces) ↔
      (∀ n, (k + (pieces.take n).flatten.length) % 2 ^ 32 ≠ 0) ∧
        min r.body.length (2 ^ 31 - 1) = r.body.length % 2 ^ 32 := by
  induction pieces generalizing c k with
  | nil =>
    have hend : k = r.body.length := by
      have hlength := congrArg List.length hpieces
      rw [List.length_drop, List.flatten_nil, List.length_nil] at hlength
      omega
    by_cases htot : k % 2 ^ 32 = 0
    · exact iff_of_false (h.not_delivers hpos hbody hk hpieces htot) fun hcuts => hcuts.1 0 htot
    have hnone : r.body.take (k + ([] : List UInt8).length) = r.body.take k ++ [] := by simp
    obtain ⟨c', hround, hserving⟩ := h.round hpos htot (Nat.zero_le _) hnone
    have hcode : c'.finish.code = httpOk ↔
        min r.body.length (2 ^ 31 - 1) = r.body.length % 2 ^ 32 := by
      rw [Client.finish, hserving.tot, hserving.response, List.length_nil, Nat.add_zero, hend]
      dsimp only
      split
      · next hne => exact iff_of_false (by decide) fun heq => hne heq.symm
      · next heq => exact iff_of_true rfl (not_not.mp heq).symm
    have hall : r.body.take (k + ([] : List UInt8).length) = r.body := by
      rw [List.length_nil, Nat.add_zero, hend, List.take_length]
    rw [dowload_nil hround, delivers_finish, hserving.stored, hall, hcode]
    simp only [List.take_nil, List.flatten_nil, List.length_nil, Nat.add_zero, true_and]
    exact ⟨fun hparts => ⟨fun _ => htot, hparts.2⟩, fun hparts => ⟨hserving.blocks, hparts.2⟩⟩
  | cons piece pieces ih =>
    by_cases htot : k % 2 ^ 32 = 0
    · exact iff_of_false (h.not_delivers hpos hbody hk hpieces htot) fun hcuts => hcuts.1 0 htot
    obtain ⟨hne, hspace, htail⟩ := hrequested
    have hspace := hspace (h.full ▸ Nat.mod_lt k hpos)
    obtain ⟨hpiece, hrest, hlength⟩ := first_piece hpieces
    obtain ⟨c', hround, hserving⟩ := h.round hpos htot (h.full ▸ hspace) hpiece
    rw [hround] at htail
    rw [dowload_cons hne hspace, hround]
    dsimp only
    rw [ih hserving (by omega) hrest htail]
    refine and_congr_left fun _ => ⟨fun hcuts n => ?_, fun hcuts n => ?_⟩
    · cases n with
      | zero => exact htot
      | succ n =>
        rw [List.take_succ_cons, List.flatten_cons, List.length_append, ← Nat.add_assoc]
        exact hcuts n
    · have hnext := hcuts (n + 1)
      rwa [List.take_succ_cons, List.flatten_cons, List.length_append, ← Nat.add_assoc] at hnext

end Body

/-! ## The header -/

namespace Response

variable (r : Response)

/-- A client that has read `k` bytes of the response and no header yet. -/
def reading (old : List UInt8) (response : HttpResponse) (k : ℕ) : Client :=
  ⟨r.bytes.take k ++ old.drop k, k, 0, response, []⟩

theorem length_bytes : r.bytes.length = r.headerLen + r.body.length := List.length_append

theorem headerLen_ge : 4 ≤ r.headerLen := by
  simp only [headerLen, ResponseHeader.text, List.length_append, List.length_cons]
  omega

theorem parse_header (old : HttpResponse) {extra : List UInt8} (hextra : extra.length ≤ 4) :
    parseHttpHeader old (r.header.text ++ extra) =
      ⟨r.header.status.parse, min r.body.length (2 ^ 31 - 1)⟩ := by
  have hlength := Field.isLength_of_name r.name
  obtain ⟨hne, hvalue⟩ := r.header.isdigit_length _ r.mem_fields hlength
  rw [← r.header.parse_responseCode old hextra, ← r.value,
    ← Field.parse_of_blank r.name r.blank hne hvalue old,
    ← r.header.parse_length old hextra r.mem_fields hlength]

theorem keepsCode_iff : r.header.status.KeepsCode ↔ r.header.status.parse = httpOk := by
  rw [← StatusLine.parse_iff, r.code]
  rfl

theorem take_bytes_of_ge {k : ℕ} (hk : r.headerLen ≤ k) :
    r.bytes.take k = r.header.text ++ r.body.take (k - r.headerLen) := by
  rw [bytes, List.take_append, List.take_of_length_le hk]
  rfl

variable {r} {old : List UInt8} {response : HttpResponse} {k : ℕ}

theorem store_reading {piece : List UInt8} (hk : k ≤ r.bytes.length)
    (hpiece : r.bytes.take (k + piece.length) = r.bytes.take k ++ piece) :
    (r.reading old response k).store piece = r.reading old response (k + piece.length) := by
  have hlength : (r.bytes.take k).length = k := List.length_take_of_le hk
  have hdrop : (r.bytes.take k ++ old.drop k).drop (k + piece.length) =
      old.drop (k + piece.length) := by
    rw [← List.drop_drop, List.drop_left' hlength, List.drop_drop]
  rw [Client.store, reading, reading, hpiece]
  dsimp only
  rw [List.take_left' hlength, hdrop]

/-- Behind the header its end is found. -/
theorem strstr_reading (hk : r.headerLen ≤ k) :
    strstr emptyLine (cstr (r.bytes.take k ++ old.drop k)) = some (r.headerLen - 4) := by
  rw [r.take_bytes_of_ge hk, List.append_assoc, cstr_append_of_not_mem r.header.text_free,
    strstr_text]
  rfl

/-- In the header something is found only across the end of what has been read. -/
theorem lt_of_strstr_reading (hk : k < r.headerLen) {p : ℕ}
    (hp : strstr emptyLine (cstr (r.bytes.take k ++ old.drop k)) = some p) : k < p + 4 := by
  have htake : r.bytes.take k = r.header.text.take k :=
    List.take_append_of_le_length hk.le
  have hfree : (0 : UInt8) ∉ r.header.text.take k := fun hmem =>
    r.header.text_free (List.mem_of_mem_take hmem)
  rw [htake, cstr_append_of_not_mem hfree] at hp
  exact lt_of_strstr_take r.header hk hp

/-- The client behind the header, with what is left in the buffer at its front. -/
def behindHeader (r : Response) (old : List UInt8) (k : ℕ) : Client :=
  ⟨r.body.take (k - r.headerLen) ++ (r.bytes.take k ++ old.drop k).drop (k - r.headerLen),
    k - r.headerLen, k - r.headerLen, ⟨httpOk, min r.body.length (2 ^ 31 - 1)⟩, []⟩

theorem takeHeader_reading (hk : r.headerLen ≤ k) (hle : k ≤ r.bytes.length) :
    (r.reading old response k).takeHeader r.headerLen =
      if r.header.status.parse ≠ httpOk then .stop r.header.status.parse
      else .next (r.behindHeader old k) := by
  have hlength : (r.body.take (k - r.headerLen)).length = k - r.headerLen := by
    rw [length_bytes] at hle
    exact List.length_take_of_le (by omega)
  have hmem : r.bytes.take k ++ old.drop k =
      r.header.text ++ (r.body.take (k - r.headerLen) ++ old.drop k) := by
    rw [r.take_bytes_of_ge hk, List.append_assoc]
  have hcopy : (r.bytes.take k ++ old.drop k).take (r.headerLen + 4) =
      r.header.text ++ (r.body.take (k - r.headerLen) ++ old.drop k).take 4 := by
    rw [hmem, headerLen, List.take_length_add_append]
  have hrest : ((r.bytes.take k ++ old.drop k).drop r.headerLen).take (k - r.headerLen) =
      r.body.take (k - r.headerLen) := by
    rw [hmem, headerLen, List.drop_left, ← headerLen, List.take_left' hlength]
  have hread : ¬(r.reading old response k).full < r.headerLen := Nat.not_lt.mpr hk
  rw [Client.takeHeader, if_neg hread, reading]
  dsimp only
  rw [hcopy, r.parse_header response (List.length_take_le 4 _), hrest, behindHeader]
  dsimp only
  split
  · rfl
  · next hcode => rw [not_not.mp hcode]

theorem serving_behindHeader (hk : r.headerLen ≤ k) (hle : k ≤ r.bytes.length) {bufferSize : ℕ}
    (hroom : k ≤ bufferSize) (hold : bufferSize ≤ old.length) (hsize : bufferSize < 2 ^ 16) :
    Serving r bufferSize (k - r.headerLen) (r.behindHeader old k) := by
  have hpos := r.headerLen_ge
  have hbody : k - r.headerLen ≤ r.body.length := by
    rw [length_bytes] at hle
    omega
  constructor
  · simp only [behindHeader, List.length_append, List.length_take, List.length_drop]
    omega
  · exact (Nat.mod_eq_of_lt (show k - r.headerLen < bufferSize by omega)).symm
  · exact (Nat.mod_eq_of_lt (show k - r.headerLen < 2 ^ 32 by omega)).symm
  · rfl
  · nofun
  · exact List.take_left' (List.length_take_of_le hbody)

variable {bufferSize : ℕ} {pieces : List (List UInt8)}

/-- A cut behind the header. -/
theorem goodCut_iff_of_ge (hk : r.headerLen ≤ k) (j : ℕ) :
    GoodCut r old (k + j) ↔ (k - r.headerLen + j) % 2 ^ 32 ≠ 0 := by
  have hsum : k + j - r.headerLen = k - r.headerLen + j := by omega
  rw [← hsum]
  exact ⟨fun h => h.late (by omega), fun h => ⟨fun hlt => absurd hlt (by omega), fun _ => h⟩⟩

/-- Without a body the header is found again, in front of everything that was read. -/
theorem not_delivers_empty (hk : r.headerLen = k) {body : List UInt8} :
    ¬Delivers bufferSize body ((r.behindHeader old k).dowload bufferSize []) := by
  have hstore : ((r.behindHeader old k).store []).mem = r.bytes.take k ++ old.drop k := by
    simp [behindHeader, Client.store, hk]
  have htot : (r.behindHeader old k).tot = 0 := Nat.sub_eq_zero_of_le hk.ge
  have hfull : ((r.behindHeader old k).store []).full < r.headerLen - 4 + 4 := by
    have hge := r.headerLen_ge
    simp only [behindHeader, Client.store, hk, Nat.sub_self, List.length_nil]
    omega
  have hround : (r.behindHeader old k).round bufferSize [] = .undefined := by
    rw [Client.round, if_pos htot, hstore, strstr_reading hk.le]
    dsimp only
    rw [Client.takeHeader, if_pos hfull]
  rw [Client.dowload, socketRead, hround]
  exact not_delivers_none

/-- What is delivered behind the header. -/
theorem behindHeader_delivers_iff (hk : r.headerLen ≤ k) (hle : k ≤ r.bytes.length)
    (hroom : k ≤ bufferSize) (hold : bufferSize ≤ old.length) (hsize : bufferSize < 2 ^ 16)
    (hpieces : pieces.flatten = r.bytes.drop k)
    (hrequested : Requested bufferSize (r.behindHeader old k) pieces) :
    Delivers bufferSize r.body ((r.behindHeader old k).dowload bufferSize pieces) ↔
      (∀ n, GoodCut r old (k + (pieces.take n).flatten.length)) ∧
        min r.body.length (2 ^ 31 - 1) = r.body.length % 2 ^ 32 := by
  have hlength := r.length_bytes
  have hpos := r.headerLen_ge
  simp only [goodCut_iff_of_ge hk]
  by_cases hbody : r.body = []
  · have hend : r.headerLen = k := by
      rw [hbody, List.length_nil] at hlength
      omega
    have hnone : pieces = [] := by
      cases pieces with
      | nil => rfl
      | cons piece pieces =>
        have hempty : (piece :: pieces).flatten = [] := by
          rw [hpieces, List.drop_eq_nil_of_le (by rw [hlength, hbody]; exact hend.le)]
        rw [List.flatten_cons, List.append_eq_nil_iff] at hempty
        exact absurd hempty.1 hrequested.1
    rw [hnone]
    refine iff_of_false (not_delivers_empty hend) fun hcuts => ?_
    have hzero := hcuts.1 0
    rw [hend, Nat.sub_self] at hzero
    exact hzero rfl
  · have hdrop : pieces.flatten = r.body.drop (k - r.headerLen) := by
      rw [hpieces, bytes, List.drop_append, List.drop_of_length_le hk, List.nil_append]
      rfl
    exact (serving_behindHeader hk hle hroom hold hsize).delivers_iff (by omega) hbody (by omega)
      hdrop hrequested

/-- A round before the header is complete. -/
theorem round_reading {piece : List UInt8} (hk : k ≤ r.bytes.length)
    (hpiece : r.bytes.take (k + piece.length) = r.bytes.take k ++ piece) :
    (r.reading old response k).round bufferSize piece =
      match strstr emptyLine (cstr (r.bytes.take (k + piece.length) ++
          old.drop (k + piece.length))) with
      | some p => (r.reading old response (k + piece.length)).takeHeader (p + 4)
      | none => .next (r.reading old response (k + piece.length)) := by
  rw [Client.round, if_pos (show (r.reading old response k).tot = 0 from rfl),
    store_reading hk hpiece]
  rfl

/-- What is delivered from the header on. -/
theorem reading_delivers_iff (hk : k < r.headerLen) (hheader : r.headerLen ≤ bufferSize)
    (hold : bufferSize ≤ old.length) (hsize : bufferSize < 2 ^ 16)
    (hpieces : pieces.flatten = r.bytes.drop k)
    (hrequested : Requested bufferSize (r.reading old response k) pieces) :
    Delivers bufferSize r.body ((r.reading old response k).dowload bufferSize pieces) ↔
      (∀ n, GoodCut r old (k + (pieces.take (n + 1)).flatten.length)) ∧
        r.header.status.KeepsCode ∧
        min r.body.length (2 ^ 31 - 1) = r.body.length % 2 ^ 32 := by
  have hbytes := r.length_bytes
  have hge := r.headerLen_ge
  induction pieces generalizing k with
  | nil =>
    have hlength := congrArg List.length hpieces
    rw [List.flatten_nil, List.length_nil, List.length_drop] at hlength
    omega
  | cons piece pieces ih =>
    obtain ⟨hne, hle, htail⟩ := hrequested
    have hle : piece.length ≤ bufferSize - k := hle (Nat.lt_of_lt_of_le hk hheader)
    obtain ⟨hpiece, hrest, hlength⟩ := first_piece hpieces
    have hcut (n : ℕ) : k + ((piece :: pieces).take (n + 1)).flatten.length =
        k + piece.length + (pieces.take n).flatten.length := by
      rw [List.take_succ_cons, List.flatten_cons, List.length_append, Nat.add_assoc]
    simp only [hcut]
    rw [round_reading (by omega) hpiece] at htail
    rw [dowload_cons hne hle, round_reading (by omega) hpiece]
    by_cases hin : k + piece.length < r.headerLen
    · cases hfound : strstr emptyLine (cstr (r.bytes.take (k + piece.length) ++
          old.drop (k + piece.length))) with
      | none =>
        have hgood : GoodCut r old (k + piece.length) :=
          ⟨fun _ => hfound, fun hle => absurd hin (Nat.not_lt.mpr hle)⟩
        rw [hfound] at htail
        refine (ih hin hrest htail).trans ?_
        refine and_congr_left fun _ => ⟨fun hcuts n => ?_, fun hcuts n => hcuts (n + 1)⟩
        cases n with
        | zero => exact hgood
        | succ n => exact hcuts n
      | some p =>
        have hbehind : (r.reading old response (k + piece.length)).full < p + 4 :=
          lt_of_strstr_reading hin hfound
        dsimp only
        rw [Client.takeHeader, if_pos hbehind]
        refine iff_of_false not_delivers_none fun hcuts => ?_
        have hnone := (hcuts.1 0).early hin
        nomatch hfound.symm.trans hnone
    · have hend : r.headerLen ≤ k + piece.length := Nat.not_lt.mp hin
      rw [strstr_reading hend] at htail ⊢
      dsimp only at htail ⊢
      rw [Nat.sub_add_cancel hge, takeHeader_reading hend (by omega)] at htail ⊢
      rw [keepsCode_iff]
      by_cases hcode : r.header.status.parse = httpOk
      · rw [if_neg (not_not.mpr hcode)] at htail ⊢
        rw [and_iff_right hcode]
        exact behindHeader_delivers_iff hend (by omega) (by omega) hold hsize hrest htail
      · rw [if_pos hcode]
        exact iff_of_false not_delivers_stop fun hcuts => hcode hcuts.2.1

end Response

/-- A response is delivered exactly if every read ends at a good place, no number in the
reason phrase replaces the status, and the length has at most 31 bits (or looks like it). -/
theorem dowload_delivers_iff (r : Response) {bufferSize : ℕ} (hsize : bufferSize < 2 ^ 16)
    (hheader : r.headerLen ≤ bufferSize) {old : List UInt8} (hold : bufferSize ≤ old.length)
    (response : HttpResponse) {pieces : List (List UInt8)} (hpieces : pieces.flatten = r.bytes)
    (hrequested : Requested bufferSize (Client.init old response) pieces) :
    Delivers bufferSize r.body ((Client.init old response).dowload bufferSize pieces) ↔
      (∀ n, GoodCut r old (pieces.take (n + 1)).flatten.length) ∧
        r.header.status.KeepsCode ∧
        min r.body.length (2 ^ 31 - 1) = r.body.length % 2 ^ 32 := by
  have hpos := r.headerLen_ge
  have hstart : Client.init old response = r.reading old response 0 := rfl
  rw [hstart] at hrequested ⊢
  have hiff := Response.reading_delivers_iff (by omega) hheader hold hsize hpieces hrequested
  simpa only [Nat.zero_add] using hiff

def oneByteLength : Field where
  name := contentLengthToken
  before := [0x20]
  value := ascii "1"
  after := []
  name_ne_nil := by decide
  name_free := by decide +kernel
  before_blank := lowerCaseLength.before_blank
  value_free := by decide +kernel
  after_blank := lowerCaseLength.after_blank

/-- A response with a body of one byte. -/
def oneByte : Response where
  header :=
    { status := lowerCaseHeader.status
      fields := [oneByteLength]
      isdigit_length := by decide +kernel
      length_le_one := by decide }
  body := [0x41]
  lengthField := oneByteLength
  code := rfl
  mem_fields := List.mem_singleton_self _
  name := rfl
  blank := by decide
  value := by decide

theorem headerLen_oneByte : oneByte.headerLen = 38 := by decide +kernel

theorem dowload_delivers_iff_oneByte :
    Delivers 4096 oneByte.body
        ((Client.init (List.replicate 4096 0) ⟨0, 0⟩).dowload 4096 [oneByte.bytes]) ↔
      (∀ n, GoodCut oneByte (List.replicate 4096 0) (([oneByte.bytes].take (n + 1)).flatten.length)) ∧
        oneByte.header.status.KeepsCode ∧
        min oneByte.body.length (2 ^ 31 - 1) = oneByte.body.length % 2 ^ 32 := by
  have hlength : oneByte.bytes.length = 39 := by
    rw [Response.length_bytes, headerLen_oneByte]
    rfl
  refine dowload_delivers_iff oneByte (by decide) (by rw [headerLen_oneByte]; decide)
    List.length_replicate.ge ⟨0, 0⟩ (List.append_nil _) ⟨?_, fun _ => ?_, ?_⟩
  · exact List.ne_nil_of_length_eq_add_one hlength
  · rw [hlength]
    decide
  · split <;> trivial

/-- A read that ends with the header makes the client look for another one. -/
theorem cut_behind_header_fails :
    ¬Delivers 4096 oneByte.body ((Client.init (List.replicate 4096 0) ⟨0, 0⟩).dowload 4096
      [oneByte.header.text, oneByte.body]) := by
  have hlength : oneByte.header.text.length = 38 := headerLen_oneByte
  have hheader := headerLen_oneByte
  have hrequested : Requested 4096 (oneByte.reading (List.replicate 4096 0) ⟨0, 0⟩ 0)
      [oneByte.header.text, oneByte.body] := by
    refine ⟨List.ne_nil_of_length_eq_add_one hlength, fun _ => by rw [hlength]; decide, ?_⟩
    split
    · exact ⟨by decide, Nat.sub_pos_of_lt, by split <;> trivial⟩
    · trivial
  intro hdelivers
  obtain ⟨hcuts, -⟩ := (Response.reading_delivers_iff (by omega) (by omega)
    List.length_replicate.ge (by decide) (by simp [Response.bytes]) hrequested).mp hdelivers
  have hcut : oneByte.headerLen ≤ _ → _ := (hcuts 0).late
  simp [hlength, hheader] at hcut

end EspOpenRtos.HttpOta
