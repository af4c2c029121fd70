/-
# Well-formed requests

A browser sends a form as a request line, headers and a body. The server finds in
such a request what was meant, as long as the headers that it knows fit its buffer.
-/

import EspOpenRtos.WifiCfg.Server

namespace EspOpenRtos.WifiCfg

open Math.CStrings Math.FormEncoding

/-- A character that may stand in a line. -/
def Printable (c : UInt8) : Prop := 0x20 ≤ c ∧ c ≤ 0x7E

instance : DecidablePred Printable := fun _ => inferInstanceAs (Decidable (_ ∧ _))

/-- A header with the spaces before its value. -/
structure HeaderField where
  name : List UInt8
  pad : ℕ
  value : List UInt8
  token : ∀ c ∈ name, Printable c ∧ c ≠ 0x3A
  printable : ∀ c ∈ value, Printable c

namespace HeaderField

def line (h : HeaderField) : List UInt8 :=
  h.name ++ 0x3A :: (List.replicate h.pad 0x20 ++ h.value)

/-- Names are compared without regard to case. -/
def IsNamed (name : String) (h : HeaderField) : Bool := h.name.map tolower == ascii name

end HeaderField

/-- A host that is given by its IPv4 address, possibly with a port. -/
def NumericHost (value : List UInt8) : Prop :=
  ∃ a b c e : ℕ, ∃ port : Option ℕ,
    value = numeral a ++ 0x2E :: (numeral b ++ 0x2E :: (numeral c ++ 0x2E :: (numeral e ++
      match port with
      | none => []
      | some port => 0x3A :: numeral port)))

/-- A header as a browser sends it with a form of `n` bytes. -/
structure FormHeader (n : ℕ) (h : HeaderField) : Prop where
  host : h.IsNamed "host" = true → NumericHost h.value
  contentType : h.IsNamed "content-type" = true →
    h.value = ascii "application/x-www-form-urlencoded"
  contentLength : h.IsNamed "content-length" = true → h.value = numeral n
  fits : h.IsNamed "host" = true ∨ h.IsNamed "content-type" = true ∨
    h.IsNamed "content-length" = true → h.line.length ≤ HTTP_BUFFER_SIZE - 1

/-- The end of a line. -/
def crlf : List UInt8 := [0x0D, 0x0A]

/-- A request that posts a form. -/
def postRequest (path version : List UInt8) (headers : List HeaderField) (content : List UInt8) :
    List UInt8 :=
  ascii "POST " ++ path ++ 0x20 :: version ++ crlf ++
    (headers.flatMap (fun h => h.line ++ crlf) ++ crlf) ++ content

/-- A challenge as a browser sends it. -/
structure ChallengePost where
  version : List UInt8
  headers : List HeaderField
  fields : List Field
  printable : ∀ c ∈ version, Printable c
  form : ∀ h ∈ headers, FormHeader (body fields).length h
  typed : headers.any (·.IsNamed "content-type") = true
  sized : headers.any (·.IsNamed "content-length") = true
  representable : (body fields).length < 2 ^ 32

def ChallengePost.request (c : ChallengePost) : List UInt8 :=
  postRequest (ascii "/challenge.html") c.version c.headers (body c.fields)

/-! ## Reading lines -/

section Lines

theorem readCrlfLine_crlf {line : List UInt8} (hline : ∀ c ∈ line, Printable c) (s : Socket) :
    readCrlfLine ((line ++ crlf).map some ++ s) = (some (line.map tolower), s) := by
  induction line with
  | nil => rfl
  | cons c line ih =>
    have hc := hline c List.mem_cons_self
    have hrest := ih fun x hx => hline x (List.mem_cons_of_mem _ hx)
    have hnl : c ≠ 0x0A := by
      rintro rfl
      exact absurd hc (by decide)
    have hprint : ¬ (c < 0x20 ∨ c > 0x7E) := by
      rintro (h | h)
      · exact UInt8.not_lt.mpr hc.1 h
      · exact UInt8.not_lt.mpr hc.2 h
    rw [List.cons_append, List.map_cons, List.cons_append, readCrlfLine, if_neg hnl,
      if_neg hprint, hrest]
    rfl

theorem HeaderField.line_printable (h : HeaderField) : ∀ c ∈ h.line, Printable c := by
  intro c hc
  simp only [line, List.mem_append, List.mem_cons, List.mem_replicate] at hc
  rcases hc with hc | rfl | ⟨-, rfl⟩ | hc
  · exact (h.token c hc).1
  · decide
  · decide
  · exact h.printable c hc

theorem readHeaders_cons (hostnameLocal : Option (List UInt8)) (h : HeaderField) (s : Socket)
    (st : Headers) :
    readHeaders hostnameLocal ((h.line ++ crlf).map some ++ s) st =
      readHeaders hostnameLocal s (noteHeader hostnameLocal (h.line.map tolower) st) := by
  have hread := readCrlfLine_crlf h.line_printable s
  have hne : h.line.map tolower ≠ [] := by simp [HeaderField.line]
  obtain ⟨c, line, hcons⟩ := List.exists_cons_of_ne_nil hne
  rw [readHeaders]
  split
  · next c' line' heq =>
    rw [hread] at heq ⊢
    rw [Option.some.inj heq]
  · next hnot =>
    rw [hread, hcons] at hnot
    exact absurd rfl (hnot c line)

theorem readHeaders_eq (hostnameLocal : Option (List UInt8)) (headers : List HeaderField)
    (s : Socket) (st : Headers) :
    readHeaders hostnameLocal
        ((headers.flatMap (fun h => h.line ++ crlf) ++ crlf).map some ++ s) st =
      (headers.foldl (fun st h => noteHeader hostnameLocal (h.line.map tolower) st) st, s) := by
  induction headers generalizing st with
  | nil =>
    rw [readHeaders]
    rfl
  | cons h headers ih =>
    rw [List.flatMap_cons, List.append_assoc, List.map_append, List.append_assoc,
      readHeaders_cons, ih, List.foldl_cons]

end Lines

/-! ## What a header notes -/

section Note

variable {n : ℕ} {h : HeaderField} {hostnameLocal : Option (List UInt8)}

theorem tolower_of_isdigit {c : UInt8} (h : isdigit c = true) : tolower c = c := by
  have hall : ∀ m < 256, isdigit (UInt8.ofNat m) = true →
      tolower (UInt8.ofNat m) = UInt8.ofNat m := by decide +kernel
  have hc := hall c.toNat c.toNat_lt
  rw [UInt8.ofNat_toNat] at hc
  exact hc h

theorem printable_of_isdigit {c : UInt8} (h : isdigit c = true) : Printable c := by
  have hall : ∀ m < 256, isdigit (UInt8.ofNat m) = true → Printable (UInt8.ofNat m) := by
    decide +kernel
  have hc := hall c.toNat c.toNat_lt
  rw [UInt8.ofNat_toNat] at hc
  exact hc h

theorem map_tolower_numeral (n : ℕ) : (numeral n).map tolower = numeral n :=
  (List.map_congr_left fun _ hc => tolower_of_isdigit (isdigit_of_mem_numeral hc)).trans
    (List.map_id _)

theorem HeaderField.map_tolower_line (h : HeaderField) :
    h.line.map tolower = h.name.map tolower ++
      0x3A :: (List.replicate h.pad 0x20 ++ h.value.map tolower) := by
  simp [line, show tolower 0x3A = 0x3A by decide, show tolower 0x20 = 0x20 by decide]

theorem HeaderField.colon_not_mem (h : HeaderField) : (0x3A : UInt8) ∉ h.name.map tolower := by
  intro hmem
  obtain ⟨c, hc, hcolon⟩ := List.mem_map.mp hmem
  exact (h.token c hc).2 ((tolower_eq_iff (by decide)).mp hcolon)

theorem takeWhile_colon {name : List UInt8} (hname : (0x3A : UInt8) ∉ name) (rest : List UInt8) :
    (name ++ 0x3A :: rest).takeWhile (· ≠ 0x3A) = name := by
  rw [List.takeWhile_append_of_pos]
  · simp
  · intro c hc
    simpa using ne_of_mem_of_not_mem hc hname

/-- A header is noted from the part that is in the buffer. A name that fills the
buffer is not seen to end. -/
theorem noteHeader_line (st : Headers) :
    noteHeader hostnameLocal (h.line.map tolower) st =
      if h.name.length < HTTP_BUFFER_SIZE - 1 then
        noteValue hostnameLocal (h.name.map tolower)
          (((List.replicate h.pad 0x20 ++ h.value.map tolower).take
            (HTTP_BUFFER_SIZE - 2 - h.name.length)).dropWhile isspace) st
      else st := by
  have hcolon := h.colon_not_mem
  unfold noteHeader lineBuf
  rw [h.map_tolower_line]
  split
  · next hshort =>
    have hbuf : (h.name.map tolower ++
        0x3A :: (List.replicate h.pad 0x20 ++ h.value.map tolower)).take (HTTP_BUFFER_SIZE - 1) =
        h.name.map tolower ++ 0x3A :: (List.replicate h.pad 0x20 ++ h.value.map tolower).take
          (HTTP_BUFFER_SIZE - 2 - h.name.length) := by
      rw [HTTP_BUFFER_SIZE] at hshort ⊢
      rw [List.take_append, List.take_of_length_le (by rw [List.length_map]; omega),
        List.length_map, show 54 - 1 - h.name.length = 54 - 2 - h.name.length + 1 by omega,
        List.take_succ_cons]
    dsimp only
    rw [hbuf, takeWhile_colon hcolon, List.drop_left]
  · next hlong =>
    have hfree : ∀ c ∈ (h.name.map tolower).take (HTTP_BUFFER_SIZE - 1),
        decide (c ≠ 0x3A) = true := fun c hc => by
      simpa using ne_of_mem_of_not_mem (List.mem_of_mem_take hc) hcolon
    dsimp only
    rw [List.take_append_of_le_length (by rw [List.length_map]; omega),
      List.takeWhile_eq_self_iff.mpr hfree, List.drop_length]

theorem dropWhile_pad {value : List UInt8} (hvalue : isspace (value.headD 0) = false) (pad : ℕ) :
    (List.replicate pad 0x20 ++ value).dropWhile isspace = value := by
  induction pad with
  | zero =>
    cases value with
    | nil => rfl
    | cons c value => exact List.dropWhile_cons_of_neg (by simpa using hvalue)
  | succ pad ih =>
    rw [List.replicate_succ, List.cons_append, List.dropWhile_cons_of_pos (by decide), ih]

/-- A header that fits the buffer is noted as it was sent. -/
theorem noteHeader_of_fits (hfits : h.line.length ≤ HTTP_BUFFER_SIZE - 1)
    (hvalue : isspace ((h.value.map tolower).headD 0) = false) (st : Headers) :
    noteHeader hostnameLocal (h.line.map tolower) st =
      noteValue hostnameLocal (h.name.map tolower) (h.value.map tolower) st := by
  rw [HTTP_BUFFER_SIZE] at hfits
  simp only [HeaderField.line, List.length_append, List.length_cons, List.length_replicate] at hfits
  rw [noteHeader_line, HTTP_BUFFER_SIZE, if_pos (by omega), List.take_of_length_le,
    dropWhile_pad hvalue]
  rw [List.length_append, List.length_replicate, List.length_map]
  omega

theorem NumericHost.map_tolower {value : List UInt8} (hv : NumericHost value) :
    value.map tolower = value := by
  obtain ⟨a, b, c, e, port, rfl⟩ := hv
  cases port <;> simp [map_tolower_numeral, show tolower 0x2E = 0x2E by decide,
    show tolower 0x3A = 0x3A by decide]

theorem isdigit_headD_numeral (n : ℕ) (rest : List UInt8) :
    isdigit ((numeral n ++ rest).headD 0) = true := by
  obtain ⟨c, cs, hcons⟩ := List.exists_cons_of_ne_nil (numeral_ne_nil n)
  rw [hcons]
  exact isdigit_of_mem_numeral (n := n) (by simp [hcons])

theorem isdigit_getLastD_numeral (n : ℕ) (front : List UInt8) :
    isdigit ((front ++ numeral n).getLastD 0) = true := by
  obtain ⟨cs, c, hsnoc⟩ := List.eq_nil_or_concat' (numeral n) |>.resolve_left (numeral_ne_nil n)
  rw [hsnoc, ← List.append_assoc, List.getLastD_concat]
  exact isdigit_of_mem_numeral (n := n) (by simp [hsnoc])

theorem hostIsName_of_digits {value : List UInt8} (hlen : 4 ≤ value.length)
    (hfirst : isdigit (value.headD 0) = true) (hlast : isdigit (value.getLastD 0) = true) :
    hostIsName value = false := by
  unfold hostIsName
  dsimp only
  rw [if_neg (by omega)]
  split
  · rfl
  · rw [if_pos ⟨hfirst, hlast⟩]

theorem NumericHost.not_name {value : List UInt8} (hv : NumericHost value) :
    hostIsName value = false := by
  obtain ⟨a, b, c, e, port, rfl⟩ := hv
  have ha := List.length_pos_iff.mpr (numeral_ne_nil a)
  refine hostIsName_of_digits ?_ (isdigit_headD_numeral a _) ?_
  · simp only [List.length_append, List.length_cons]
    omega
  · cases port with
    | none =>
      have h := isdigit_getLastD_numeral e
        (numeral a ++ 0x2E :: (numeral b ++ 0x2E :: (numeral c ++ [0x2E])))
      simpa using h
    | some port =>
      have h := isdigit_getLastD_numeral port
        (numeral a ++ 0x2E :: (numeral b ++ 0x2E :: (numeral c ++ 0x2E :: (numeral e ++ [0x3A]))))
      simpa using h

theorem not_isspace_numeral (n : ℕ) (rest : List UInt8) :
    isspace ((numeral n ++ rest).headD 0) = false :=
  (ne_sign_of_isdigit (isdigit_headD_numeral n rest)).1

/-- What a header of a form leaves noted. -/
theorem noteHeader_form (hostnameLocal : Option (List UInt8)) (hform : FormHeader n h)
    (st : Headers) :
    let st' := noteHeader hostnameLocal (h.line.map tolower) st
    st'.hostRedirect = st.hostRedirect ∧
      st'.contentType = (if h.IsNamed "content-type" then .wwwFormUrlencoded else st.contentType) ∧
      st'.contentLength =
        if h.IsNamed "content-length" then min n (2 ^ 32 - 1) else st.contentLength := by
  by_cases hhost : h.IsNamed "host" = true
  · have hname : h.name.map tolower = ascii "host" := beq_iff_eq.mp hhost
    have hv := hform.host hhost
    have hspace : isspace ((h.value.map tolower).headD 0) = false := by
      rw [hv.map_tolower]
      obtain ⟨a, b, c, e, port, hvalue⟩ := hv
      rw [hvalue]
      exact not_isspace_numeral a _
    rw [noteHeader_of_fits (hform.fits (.inl hhost)) hspace, hv.map_tolower, hname]
    simp [noteValue, hv.not_name, HeaderField.IsNamed, hname,
      show internHttpHeader (ascii "host") = .host by decide,
      show ascii "host" ≠ ascii "content-type" by decide,
      show ascii "host" ≠ ascii "content-length" by decide]
  by_cases htype : h.IsNamed "content-type" = true
  · have hname : h.name.map tolower = ascii "content-type" := beq_iff_eq.mp htype
    have hv := hform.contentType htype
    have hlower : h.value.map tolower = ascii "application/x-www-form-urlencoded" := by
      rw [hv]
      decide
    rw [noteHeader_of_fits (hform.fits (.inr (.inl htype))) (by rw [hlower]; decide), hlower, hname]
    simp [noteValue, HeaderField.IsNamed, hname, internHttpContentType,
      show internHttpHeader (ascii "content-type") = .contentType by decide,
      show ascii "content-type" ≠ ascii "content-length" by decide]
  by_cases hlength : h.IsNamed "content-length" = true
  · have hname : h.name.map tolower = ascii "content-length" := beq_iff_eq.mp hlength
    have hlower : h.value.map tolower = numeral n := by
      rw [hform.contentLength hlength, map_tolower_numeral]
    have hspace : isspace ((h.value.map tolower).headD 0) = false := by
      rw [hlower, ← (numeral n).append_nil]
      exact not_isspace_numeral n []
    rw [noteHeader_of_fits (hform.fits (.inr (.inr hlength))) hspace, hlower, hname]
    simp [noteValue, HeaderField.IsNamed, hname, strtoul_numeral,
      show internHttpHeader (ascii "content-length") = .contentLength by decide,
      show ascii "content-length" ≠ ascii "content-type" by decide]
  · -- the server does not know the header, or only whether to close
    simp only [HeaderField.IsNamed, beq_iff_eq] at hhost htype hlength
    have hother : internHttpHeader (h.name.map tolower) = .connection ∨
        internHttpHeader (h.name.map tolower) = .other := by
      unfold internHttpHeader
      rw [if_neg hhost, if_neg hlength, if_neg htype]
      split
      · exact .inl rfl
      · exact .inr rfl
    rw [noteHeader_line]
    split
    · rcases hother with hintern | hintern <;>
        simp [noteValue, hintern, HeaderField.IsNamed, htype, hlength]
    · simp [HeaderField.IsNamed, htype, hlength]

/-- What the headers of a form leave noted. -/
theorem noteHeaders_form (hostnameLocal : Option (List UInt8)) {headers : List HeaderField}
    (hform : ∀ h ∈ headers, FormHeader n h) (st : Headers) :
    let st' := headers.foldl (fun st h => noteHeader hostnameLocal (h.line.map tolower) st) st
    st'.hostRedirect = st.hostRedirect ∧
      st'.contentType = (if headers.any (·.IsNamed "content-type") then .wwwFormUrlencoded
        else st.contentType) ∧
      st'.contentLength = if headers.any (·.IsNamed "content-length") then min n (2 ^ 32 - 1)
        else st.contentLength := by
  induction headers generalizing st with
  | nil => exact ⟨rfl, rfl, rfl⟩
  | cons h headers ih =>
    obtain ⟨hredirect, htype, hlength⟩ := noteHeader_form hostnameLocal
      (hform h List.mem_cons_self) st
    obtain ⟨hredirect', htype', hlength'⟩ := ih (fun g hg => hform g (List.mem_cons_of_mem _ hg))
      (noteHeader hostnameLocal (h.line.map tolower) st)
    rw [List.foldl_cons]
    refine ⟨hredirect'.trans hredirect, htype'.trans ?_, hlength'.trans ?_⟩
    · rw [htype, List.any_cons]
      cases h.IsNamed "content-type" <;> simp
    · rw [hlength, List.any_cons]
      cases h.IsNamed "content-length" <;> simp

end Note

/-! ## Reading a challenge -/

section Challenge

/-- The request line of a challenge. -/
def challengeLine (version : List UInt8) : List UInt8 :=
  ascii "POST " ++ ascii "/challenge.html" ++ 0x20 :: version

theorem requestLine_challenge (version : List UInt8) :
    requestLine ((challengeLine version).map tolower) = (.post, ascii "/challenge.html") := by
  have hlower : (challengeLine version).map tolower =
      ascii "post /challenge.html " ++ version.map tolower := by
    rw [challengeLine, List.map_append, List.map_cons, List.append_cons]
    rfl
  rw [hlower]
  rfl

variable (c : ChallengePost) (rest : Socket) (hostnameLocal : Option (List UInt8))

theorem ChallengePost.readCrlfLine :
    WifiCfg.readCrlfLine (c.request.map some ++ rest) =
      (some ((challengeLine c.version).map tolower),
        (c.headers.flatMap (fun h => h.line ++ crlf) ++ crlf).map some ++
          ((body c.fields).map some ++ rest)) := by
  have hline : ∀ x ∈ challengeLine c.version, Printable x := by
    intro x hx
    simp only [challengeLine, List.mem_append, List.mem_cons] at hx
    rcases hx with (hx | hx) | rfl | hx
    · exact (show ∀ x ∈ ascii "POST ", Printable x by decide +kernel) x hx
    · exact (show ∀ x ∈ ascii "/challenge.html", Printable x by decide +kernel) x hx
    · decide
    · exact c.printable x hx
  rw [← readCrlfLine_crlf hline]
  congr 1
  simp [ChallengePost.request, postRequest, challengeLine]

theorem ChallengePost.noted :
    let st := c.headers.foldl (fun st h => noteHeader hostnameLocal (h.line.map tolower) st)
      ⟨.other, false, false, 0⟩
    st.hostRedirect = false ∧ st.contentType = .wwwFormUrlencoded ∧
      st.contentLength = (body c.fields).length := by
  have h := noteHeaders_form hostnameLocal c.form ⟨.other, false, false, 0⟩
  have hsmall := c.representable
  rw [if_pos c.typed, if_pos c.sized, Nat.min_eq_left (by omega)] at h
  exact h

end Challenge

end EspOpenRtos.WifiCfg
