/-
# Parsing the header of a response

`parse_http_header` cuts a header into lines and each line at its first colon. From the
status line it takes a number as the response code, from a line called `Content-Length`
the length of the body. Both numbers are found by skipping a fixed number of characters
and then reading every number in the rest of the line, of which the last one stays. What
is not read keeps its value from the response before.
-/

import EspOpenRtos.Math.CStrings

namespace EspOpenRtos.HttpOta

open Math.CStrings

/-! ## The parser -/

/-- `struct HTTP_response`. -/
structure HttpResponse where
  responseCode : ℕ
  length : ℕ
  deriving DecidableEq

/-- `strtol` in base 10 at a digit, with a 32-bit `long`. -/
def strtolDigits (s : List UInt8) : ℕ := min (digitsValue (s.takeWhile isdigit)) (2 ^ 31 - 1)

/-- The loop over a line that reads every number in it. -/
def lastNumber (old : ℕ) (s : List UInt8) : ℕ :=
  match s with
  | [] => old
  | c :: rest =>
    if isdigit c then lastNumber (strtolDigits (c :: rest)) (rest.dropWhile isdigit)
    else lastNumber old rest
termination_by s.length
decreasing_by
  · have := (List.dropWhile_sublist (p := isdigit) (l := rest)).length_le
    simp only [List.length_cons]
    omega
  · simp

/-- `parse_http_header_HTTP_STATUS`, for the memory from the token on. -/
def parseStatus (resp : HttpResponse) (token : List UInt8) : HttpResponse :=
  { resp with responseCode := lastNumber resp.responseCode (cstr (token.drop 8)) }

/-- `http_handle_cb_ContentLength`, for the memory from the token on. -/
def handleContentLength (resp : HttpResponse) (token : List UInt8) : HttpResponse :=
  { resp with length := lastNumber resp.length (cstr (token.drop 16)) }

/-- The only entry of `HTTP_HEADER_TOKEN`. -/
def contentLengthToken : List UInt8 := ascii "Content-Length"

def colon : UInt8 := 0x3A
def cr : UInt8 := 0x0D
def lf : UInt8 := 0x0A

/-- A token after its `subtoken` has been taken: the colon behind it is a NUL. -/
def cutToken (token : List UInt8) : List UInt8 :=
  let leading := token.takeWhile (· ∈ [colon])
  let behind := token.dropWhile (· ∈ [colon])
  leading ++ behind.takeWhile (· ∉ [colon]) ++
    match behind.dropWhile (· ∉ [colon]) with
    | [] => []
    | _ :: rest => 0 :: rest

/-- One line of the header. The memory behind the token is a NUL and the lines to come. -/
def parseLine (resp : HttpResponse) (first : Bool) (token subtoken rest : List UInt8) :
    HttpResponse :=
  let memory := cutToken token ++ 0 :: rest
  if first then parseStatus resp memory
  else if subtoken = contentLengthToken then handleContentLength resp memory
  else resp

/-- The loop of `parse_http_header` over the lines. -/
def parseLines (resp : HttpResponse) (first : Bool) (s : List UInt8) : HttpResponse :=
  match _hline : strtok [cr, lf] s with
  | none => resp
  | some (token, rest) =>
    match strtok [colon] token with
    | none => resp
    | some (subtoken, _) => parseLines (parseLine resp first token subtoken rest) false rest
termination_by s.length
decreasing_by exact (length_of_strtok _hline).2

/-- `parse_http_header`, with what the previous response has left. -/
def parseHttpHeader (old : HttpResponse) (header : List UInt8) : HttpResponse :=
  parseLines old true (cstr header)

/-! ## Numbers in a line -/

/-- The numbers in a text. -/
def numbers (s : List UInt8) : List ℕ :=
  ((s.splitOnP fun c => !isdigit c).filter (· ≠ [])).map digitsValue

section Numbers

variable {x y : List UInt8} {old : ℕ}

theorem lastNumber_nil : lastNumber old [] = old := by rw [lastNumber]

theorem lastNumber_cons_of_not {c : UInt8} (h : isdigit c = false) (rest : List UInt8) :
    lastNumber old (c :: rest) = lastNumber old rest := by
  rw [lastNumber, h, if_neg Bool.false_ne_true]

/-- What is no digit is skipped. -/
theorem lastNumber_skip (h : ∀ c ∈ x, isdigit c = false) (y : List UInt8) :
    lastNumber old (x ++ y) = lastNumber old y := by
  induction x with
  | nil => rfl
  | cons c x ih =>
    obtain ⟨hc, hx⟩ := List.forall_mem_cons.mp h
    rw [List.cons_append, lastNumber_cons_of_not hc, ih hx]

/-- A number is read as a whole. -/
theorem lastNumber_digits (hne : x ≠ []) (h : ∀ c ∈ x, isdigit c = true)
    (hy : ∀ c ∈ y.head?, isdigit c = false) :
    lastNumber old (x ++ y) = lastNumber (min (digitsValue x) (2 ^ 31 - 1)) y := by
  have hstop : y.takeWhile isdigit = [] ∧ y.dropWhile isdigit = y := by
    cases y with
    | nil => exact ⟨rfl, rfl⟩
    | cons c y =>
      have hc : ¬isdigit c = true := by rw [hy c rfl]; exact Bool.false_ne_true
      exact ⟨List.takeWhile_cons_of_neg hc, List.dropWhile_cons_of_neg hc⟩
  obtain ⟨c, rest, rfl⟩ := List.exists_cons_of_ne_nil hne
  have hrest : ∀ d ∈ rest, isdigit d = true := fun d hd => h d (List.mem_cons_of_mem _ hd)
  rw [List.cons_append, lastNumber, if_pos (h c List.mem_cons_self), strtolDigits,
    ← List.cons_append, List.takeWhile_append_of_pos h, hstop.1, List.append_nil,
    List.dropWhile_append_of_pos hrest, hstop.2]

theorem numbers_cons_of_not {c : UInt8} (h : isdigit c = false) (rest : List UInt8) :
    numbers (c :: rest) = numbers rest := by
  have hsplit : ((c :: rest).splitOnP fun c => !isdigit c) =
      [] :: rest.splitOnP fun c => !isdigit c := by
    rw [List.splitOnP_cons_eq_if_modifyHead, h]
    rfl
  rw [numbers, hsplit, List.filter_cons_of_neg (by simp), numbers]

/-- The first number of a text. -/
theorem numbers_digits (hne : x ≠ []) (h : ∀ c ∈ x, isdigit c = true)
    (hy : ∀ c ∈ y.head?, isdigit c = false) : numbers (x ++ y) = digitsValue x :: numbers y := by
  have hx : (x.splitOnP fun c => !isdigit c) = [x] :=
    List.splitOnP_eq_singleton fun c hc => by rw [h c hc]; rfl
  have hfilter : [x].filter (· ≠ []) = [x] := List.filter_cons_of_pos (by simpa using hne)
  cases y with
  | nil => rw [List.append_nil, numbers, hx, hfilter]; rfl
  | cons c y =>
    have hc := hy c rfl
    rw [numbers_cons_of_not hc, numbers, List.splitOnP_append_cons _ _ (by rw [hc]; rfl), hx,
      List.filter_append, hfilter, numbers]
    rfl

/-- The number that stays is the last one in the text. -/
theorem lastNumber_eq (old : ℕ) (s : List UInt8) :
    lastNumber old s = match (numbers s).getLast? with
      | none => old
      | some n => min n (2 ^ 31 - 1) := by
  fun_induction lastNumber old s with
  | case1 old => rfl
  | case2 old c rest hc ih =>
    have hy : ∀ d ∈ (rest.dropWhile isdigit).head?, isdigit d = false := by
      intro d hd
      have := List.head?_dropWhile_not isdigit rest
      rwa [Option.mem_def.mp hd] at this
    have hall : ∀ d ∈ c :: rest.takeWhile isdigit, isdigit d = true :=
      List.forall_mem_cons.mpr ⟨hc, fun d hd => List.mem_takeWhile_imp hd⟩
    have hnumbers := numbers_digits (List.cons_ne_nil _ _) hall hy
    rw [List.cons_append, List.takeWhile_append_dropWhile] at hnumbers
    rw [ih, hnumbers, List.getLast?_cons, strtolDigits, List.takeWhile_cons_of_pos hc]
    cases (numbers (rest.dropWhile isdigit)).getLast? <;> rfl
  | case3 old c rest hc ih =>
    rw [ih, numbers_cons_of_not (Bool.eq_false_of_not_eq_true hc)]

end Numbers

/-! ## Well-formed headers -/

/-- The first line of a response. -/
structure StatusLine where
  minor : UInt8
  code : List UInt8
  reason : List UInt8
  isdigit_minor : isdigit minor = true
  length_code : code.length = 3
  isdigit_code : ∀ c ∈ code, isdigit c = true
  reason_free : ∀ c ∈ reason, c ∉ [0, cr, lf]

def StatusLine.text (l : StatusLine) : List UInt8 :=
  ascii "HTTP/1." ++ l.minor :: 0x20 :: l.code ++ 0x20 :: l.reason

theorem lineFree_subset : [0, cr, lf] ⊆ [0, colon, cr, lf] :=
  List.cons_subset_cons _ (List.subset_cons_self _ _)

namespace StatusLine

/-- What stands before the reason phrase. -/
def start (l : StatusLine) : List UInt8 := ascii "HTTP/1." ++ l.minor :: 0x20 :: l.code ++ [0x20]

variable (l : StatusLine)
include l

theorem start_append : l.text = l.start ++ l.reason := by simp [text, start]

theorem length_start : l.start.length = 13 := by
  simp only [start, List.length_append, List.length_cons, l.length_code]
  rfl

theorem start_ne_nil : l.start ≠ [] :=
  List.ne_nil_of_length_eq_add_one l.length_start

theorem start_free : ∀ c ∈ l.start, c ∉ [0, colon, cr, lf] := by
  have hnone : ∀ c ∈ [0, colon, cr, lf], isdigit c = false := by decide +kernel
  have hdigit : ∀ c, isdigit c = true → c ∉ [0, colon, cr, lf] := fun c hc hmem =>
    Bool.false_ne_true ((hnone c hmem).symm.trans hc)
  intro c hc
  simp only [start, List.mem_append, List.mem_cons] at hc
  rcases hc with (hc | rfl | rfl | hc) | hc
  · revert c
    decide +kernel
  · exact hdigit _ l.isdigit_minor
  · decide
  · exact hdigit c (l.isdigit_code c hc)
  · rcases hc with rfl | hc
    · decide
    · nomatch hc

theorem text_free : ∀ c ∈ l.text, c ∉ [0, cr, lf] := by
  intro c hc hmem
  rw [l.start_append, List.mem_append] at hc
  rcases hc with hc | hc
  · exact l.start_free c hc (lineFree_subset hmem)
  · exact l.reason_free c hc hmem

end StatusLine

/-- A header field, with white space around its value. -/
structure Field where
  name : List UInt8
  before : List UInt8
  value : List UInt8
  after : List UInt8
  name_ne_nil : name ≠ []
  name_free : ∀ c ∈ name, c ∉ [0, colon, cr, lf]
  before_blank : ∀ c ∈ before, c ∈ [0x20, 0x09]
  value_free : ∀ c ∈ value, c ∉ [0, cr, lf]
  after_blank : ∀ c ∈ after, c ∈ [0x20, 0x09]

namespace Field

def body (f : Field) : List UInt8 := f.before ++ f.value ++ f.after

def text (f : Field) : List UInt8 := f.name ++ colon :: f.body

/-- The field gives the length of the body. Names have no case. -/
def IsLength (f : Field) : Prop := f.name.map tolower = ascii "content-length"

instance (f : Field) : Decidable f.IsLength := by unfold IsLength; infer_instance

theorem body_free (f : Field) : ∀ c ∈ f.body, c ∉ [0, cr, lf] := by
  have hblank : ∀ c ∈ ([0x20, 0x09] : List UInt8), c ∉ [0, cr, lf] := by decide +kernel
  intro c hc
  rw [body, List.mem_append, List.mem_append] at hc
  rcases hc with (hc | hc) | hc
  · exact hblank c (f.before_blank c hc)
  · exact f.value_free c hc
  · exact hblank c (f.after_blank c hc)

theorem text_free (f : Field) : ∀ c ∈ f.text, c ∉ [0, cr, lf] := by
  intro c hc hmem
  rw [text, List.mem_append, List.mem_cons] at hc
  rcases hc with hc | rfl | hc
  · exact f.name_free c hc (lineFree_subset hmem)
  · exact absurd hmem (by decide)
  · exact f.body_free c hc hmem

theorem name_colon (f : Field) : ∀ c ∈ f.name, c ∉ [colon] := fun c hc hmem =>
  f.name_free c hc (List.mem_cons_of_mem _ (List.mem_append_left _ hmem))

end Field

/-- The header of a response, with at most one length. -/
structure ResponseHeader where
  status : StatusLine
  fields : List Field
  isdigit_length : ∀ f ∈ fields, f.IsLength → f.value ≠ [] ∧ ∀ c ∈ f.value, isdigit c = true
  length_le_one : (fields.filter (·.IsLength)).length ≤ 1

def fieldsText (fields : List Field) : List UInt8 := fields.flatMap fun f => f.text ++ [cr, lf]

/-- The bytes of a header, with the empty line at its end. -/
def ResponseHeader.text (h : ResponseHeader) : List UInt8 :=
  h.status.text ++ [cr, lf] ++ fieldsText h.fields ++ [cr, lf]

/-! ## Lines -/

section Lines

variable {resp : HttpResponse} {first : Bool}

/-- A token is cut at the first colon behind its start. -/
theorem cutToken_append {start : List UInt8} (hne : start ≠ []) (hfree : ∀ c ∈ start, c ∉ [colon])
    (rest : List UInt8) :
    cutToken (start ++ rest) = start ++ rest.takeWhile (· ∉ [colon]) ++
      match rest.dropWhile (· ∉ [colon]) with
      | [] => []
      | _ :: behind => 0 :: behind := by
  have hall : ∀ c ∈ start, decide (c ∉ [colon]) = true := fun c hc => decide_eq_true (hfree c hc)
  obtain ⟨c, start, rfl⟩ := List.exists_cons_of_ne_nil hne
  have hc : ¬decide (c ∈ [colon]) = true := by simpa using hfree c List.mem_cons_self
  rw [cutToken, List.cons_append, List.takeWhile_cons_of_neg (by exact hc),
    List.dropWhile_cons_of_neg (by exact hc), ← List.cons_append,
    List.takeWhile_append_of_pos hall, List.dropWhile_append_of_pos hall]
  rfl

theorem parseLines_eq (s : List UInt8) :
    parseLines resp first s = match strtok [cr, lf] s with
      | none => resp
      | some (token, rest) =>
        match strtok [colon] token with
        | none => resp
        | some (subtoken, _) =>
          parseLines (parseLine resp first token subtoken rest) false rest := by
  rw [parseLines]
  split
  · next h => rw [h]
  · next h => rw [h]

/-- One line of the header is read. -/
theorem parseLines_line {start rest : List UInt8} (hne : start ≠ [])
    (hfree : ∀ c ∈ start, c ∉ [colon]) (hline : ∀ c ∈ start ++ rest, c ∉ [cr, lf])
    (s : List UInt8) :
    parseLines resp first (start ++ rest ++ cr :: s) =
      parseLines (parseLine resp first (start ++ rest) (start ++ rest.takeWhile (· ∉ [colon])) s)
        false s := by
  rw [parseLines_eq, strtok_token (List.append_ne_nil_of_left_ne_nil hne rest) hline
    List.mem_cons_self]
  simp only [strtok_append hne hfree]

theorem parseLines_lf (s : List UInt8) :
    parseLines resp first (lf :: s) = parseLines resp first s := by
  rw [parseLines_eq, strtok_cons_delim (by decide), ← parseLines_eq]

/-- A rest that is too short for the name of the field changes nothing. -/
theorem parseLines_short {s : List UInt8} (hs : s.length < contentLengthToken.length) :
    parseLines resp false s = resp := by
  induction hn : s.length using Nat.strong_induction_on generalizing s with
  | _ n ih =>
    rw [parseLines_eq]
    split
    · rfl
    · next token rest htoken =>
        obtain ⟨htokenLe, hrestLt⟩ := length_of_strtok htoken
        split
        · rfl
        · next subtoken _ hsub =>
            have hsubLe := (length_of_strtok hsub).1
            have hne : subtoken ≠ contentLengthToken := fun h => by
              rw [h] at hsubLe
              omega
            rw [parseLine, if_neg Bool.false_ne_true, if_neg hne]
            exact ih rest.length (by omega) (by omega) rfl

/-- The string in the memory behind a cut token. -/
theorem cstr_cutToken {start rest : List UInt8} (hne : start ≠ [])
    (hfree : ∀ c ∈ start, c ∉ [0, colon]) (hrest : 0 ∉ rest) {k : ℕ} (hk : k ≤ start.length)
    (s : List UInt8) :
    cstr ((cutToken (start ++ rest) ++ 0 :: s).drop k) =
      start.drop k ++ rest.takeWhile (· ∉ [colon]) := by
  have hcolon : ∀ c ∈ start, c ∉ [colon] := fun c hc hmem =>
    hfree c hc (List.mem_cons_of_mem _ hmem)
  obtain ⟨more, hmore⟩ : ∃ more, cutToken (start ++ rest) ++ 0 :: s =
      start ++ (rest.takeWhile (· ∉ [colon]) ++ 0 :: more) := by
    rw [cutToken_append hne hcolon]
    split
    · exact ⟨s, by simp⟩
    · next behind _ => exact ⟨behind ++ 0 :: s, by simp⟩
  have hnul : (0 : UInt8) ∉ start.drop k ++ rest.takeWhile (· ∉ [colon]) := by
    rw [List.mem_append]
    rintro (hmem | hmem)
    · exact hfree 0 (List.mem_of_mem_drop hmem) List.mem_cons_self
    · exact hrest ((List.takeWhile_sublist _).subset hmem)
  rw [hmore, List.drop_append_of_le_length hk, ← List.append_assoc, cstr_append_nul,
    cstr_of_not_mem hnul]

/-- What the status line leaves as the response code. -/
theorem parseLine_status (l : StatusLine) (subtoken s : List UInt8) :
    parseLine resp true l.text subtoken s = { resp with
      responseCode := lastNumber (digitsValue l.code) (l.reason.takeWhile (· ∉ [colon])) } := by
  have hlt : digitsValue l.code < 10 ^ 3 := l.length_code ▸ digitsValue_lt l.isdigit_code
  have hne : l.code ≠ [] := List.ne_nil_of_length_eq_add_one l.length_code
  have hfree : ∀ c ∈ l.start, c ∉ [0, colon] := fun c hc hmem =>
    l.start_free c hc (List.mem_append_left [cr, lf] hmem)
  have hcstr := cstr_cutToken l.start_ne_nil hfree
    (fun h => l.reason_free 0 h List.mem_cons_self) (show 8 ≤ _ by rw [l.length_start]; decide) s
  have hdrop : l.start.drop 8 = 0x20 :: l.code ++ [0x20] := rfl
  have hblank : ∀ c ∈ ([0x20] ++ l.reason.takeWhile (· ∉ [colon])).head?, isdigit c = false := by
    rintro c ⟨⟩
    rfl
  rw [← l.start_append] at hcstr
  rw [parseLine, if_pos rfl, parseStatus, hcstr, hdrop]
  congr 1
  rw [List.cons_append, List.cons_append, lastNumber_cons_of_not (by decide), List.append_assoc,
    lastNumber_digits hne l.isdigit_code hblank, List.cons_append, List.nil_append,
    lastNumber_cons_of_not (by decide), min_eq_left (by omega)]

/-- What a field leaves as the length. -/
def Field.parse (f : Field) (resp : HttpResponse) : HttpResponse :=
  if f.name = contentLengthToken then { resp with length := lastNumber resp.length (f.body.drop 1) }
  else resp

theorem parseLine_field (f : Field) (hlength : f.name = contentLengthToken → f.body ≠ [])
    (s : List UInt8) : parseLine resp false f.text f.name s = f.parse resp := by
  have hcut : cutToken f.text = f.name ++ 0 :: f.body := by
    rw [Field.text, cutToken_append f.name_ne_nil f.name_colon, List.takeWhile_cons_of_neg (by simp),
      List.dropWhile_cons_of_neg (by simp), List.append_nil]
  rw [parseLine, if_neg Bool.false_ne_true, Field.parse]
  split
  · next hname =>
      obtain ⟨c, more, hbody⟩ := List.exists_cons_of_ne_nil (hlength hname)
      have hnul : (0 : UInt8) ∉ more := fun h =>
        f.body_free 0 (hbody ▸ List.mem_cons_of_mem _ h) List.mem_cons_self
      have hdrop : (cutToken f.text ++ 0 :: s).drop 16 = more ++ 0 :: s := by
        rw [hcut, hname, hbody]
        rfl
      rw [handleContentLength, hdrop, cstr_append_nul, cstr_of_not_mem hnul, hbody, List.drop_one,
        List.tail_cons]
  · rfl

/-- The fields are read one after the other. -/
theorem parseLines_fields {fields : List Field}
    (hlength : ∀ f ∈ fields, f.name = contentLengthToken → f.body ≠ []) (s : List UInt8) :
    parseLines resp false (fieldsText fields ++ s) =
      parseLines (fields.foldl (fun resp f => f.parse resp) resp) false s := by
  induction fields generalizing resp with
  | nil => rfl
  | cons f fields ih =>
    obtain ⟨hf, hfields⟩ := List.forall_mem_cons.mp hlength
    have hline : ∀ c ∈ f.name ++ colon :: f.body, c ∉ [cr, lf] := fun c hc hmem =>
      f.text_free c hc (List.mem_cons_of_mem _ hmem)
    have htext : fieldsText (f :: fields) ++ s =
        f.name ++ colon :: f.body ++ cr :: lf :: (fieldsText fields ++ s) := by
      simp [fieldsText, Field.text]
    rw [htext, parseLines_line f.name_ne_nil f.name_colon hline, List.takeWhile_cons_of_neg (by simp),
      List.append_nil, ← Field.text, parseLine_field f hf, parseLines_lf, ih hfields,
      List.foldl_cons]

end Lines

/-! ## The whole header -/

/-- What the parser takes as the response code. -/
def StatusLine.parse (l : StatusLine) : ℕ :=
  lastNumber (digitsValue l.code) (l.reason.takeWhile (· ∉ [colon]))

theorem Field.isLength_of_name {f : Field} (hname : f.name = contentLengthToken) : f.IsLength := by
  rw [Field.IsLength, hname]
  decide

namespace ResponseHeader

variable (h : ResponseHeader)

/-- The length field, if there is one. -/
theorem filter_eq {f : Field} (hf : f ∈ h.fields) (hlength : f.IsLength) :
    h.fields.filter (·.IsLength) = [f] := by
  have hmem : f ∈ h.fields.filter (·.IsLength) :=
    List.mem_filter.mpr ⟨hf, decide_eq_true hlength⟩
  obtain ⟨g, hg⟩ := List.length_eq_one_iff.mp
    (le_antisymm h.length_le_one (List.length_pos_of_mem hmem))
  rw [hg, List.mem_singleton] at hmem
  rw [hg, hmem]

theorem body_ne_nil {f : Field} (hf : f ∈ h.fields) (hname : f.name = contentLengthToken) :
    f.body ≠ [] := by
  have hvalue := (h.isdigit_length f hf (Field.isLength_of_name hname)).1
  exact List.append_ne_nil_of_left_ne_nil (List.append_ne_nil_of_right_ne_nil _ hvalue) _

theorem text_free : (0 : UInt8) ∉ h.text := by
  have hends : (0 : UInt8) ∉ [cr, lf] := by decide
  have hfields : (0 : UInt8) ∉ fieldsText h.fields := fun hc => by
    obtain ⟨f, -, hf⟩ := List.mem_flatMap.mp hc
    rcases List.mem_append.mp hf with hf | hf
    · exact f.text_free 0 hf List.mem_cons_self
    · exact hends hf
  simp only [text, List.mem_append, not_or]
  exact ⟨⟨⟨fun hc => h.status.text_free 0 hc List.mem_cons_self, hends⟩, hfields⟩, hends⟩

/-- A header is parsed line by line. A few bytes of the body behind it do no harm. -/
theorem parse_text (old : HttpResponse) {extra : List UInt8} (hextra : extra.length ≤ 4) :
    parseHttpHeader old (h.text ++ extra) = h.fields.foldl (fun resp f => f.parse resp)
      { old with responseCode := h.status.parse } := by
  have hcolon : ∀ c ∈ h.status.start, c ∉ [colon] := fun c hc hmem =>
    h.status.start_free c hc (List.mem_cons_of_mem _ (List.mem_append_left _ hmem))
  have hline : ∀ c ∈ h.status.start ++ h.status.reason, c ∉ [cr, lf] := fun c hc hmem =>
    h.status.text_free c (h.status.start_append ▸ hc) (List.mem_cons_of_mem _ hmem)
  have htext : h.text ++ cstr extra = h.status.start ++ h.status.reason ++
      cr :: lf :: (fieldsText h.fields ++ cr :: lf :: cstr extra) := by
    simp [text, StatusLine.start_append]
  have hshort : (cr :: lf :: cstr extra).length < contentLengthToken.length := by
    have hcstr : (cstr extra).length ≤ extra.length := (List.takeWhile_sublist _).length_le
    have htoken : contentLengthToken.length = 14 := rfl
    rw [List.length_cons, List.length_cons, htoken]
    omega
  rw [parseHttpHeader, cstr_append_of_not_mem h.text_free, htext,
    parseLines_line h.status.start_ne_nil hcolon hline, ← StatusLine.start_append,
    parseLine_status, parseLines_lf, parseLines_fields fun f => h.body_ne_nil, parseLines_short hshort,
    StatusLine.parse]

/-- Fields with other names are ignored. -/
theorem foldl_parse (fields : List Field) (resp : HttpResponse) :
    fields.foldl (fun resp f => f.parse resp) resp =
      (fields.filter (·.IsLength)).foldl (fun resp f => f.parse resp) resp := by
  induction fields generalizing resp with
  | nil => rfl
  | cons f fields ih =>
    by_cases hf : f.IsLength
    · rw [List.filter_cons_of_pos (by simpa using hf), List.foldl_cons, List.foldl_cons, ih]
    · have hskip : f.parse resp = resp := if_neg fun hname => hf (Field.isLength_of_name hname)
      rw [List.filter_cons_of_neg (by simpa using hf), List.foldl_cons, hskip, ih]

theorem parse_responseCode (old : HttpResponse) {extra : List UInt8} (hextra : extra.length ≤ 4) :
    (parseHttpHeader old (h.text ++ extra)).responseCode = h.status.parse := by
  have hkeeps (fields : List Field) (resp : HttpResponse) :
      (fields.foldl (fun resp f => f.parse resp) resp).responseCode = resp.responseCode := by
    induction fields generalizing resp with
    | nil => rfl
    | cons f fields ih =>
      rw [List.foldl_cons, ih, Field.parse]
      split <;> rfl
  rw [h.parse_text old hextra, hkeeps]

theorem parse_length (old : HttpResponse) {extra : List UInt8} (hextra : extra.length ≤ 4)
    {f : Field} (hf : f ∈ h.fields) (hlength : f.IsLength) :
    (parseHttpHeader old (h.text ++ extra)).length = (f.parse old).length := by
  rw [h.parse_text old hextra, foldl_parse, h.filter_eq hf hlength, List.foldl_cons, List.foldl_nil,
    Field.parse, Field.parse]
  split <;> rfl

end ResponseHeader

/-! ## Which headers are parsed faithfully -/

/-- The last number on the status line is the code. The line is cut at a colon. -/
def StatusLine.KeepsCode (l : StatusLine) : Prop :=
  ∀ n ∈ (numbers (l.reason.takeWhile (· ∉ [colon]))).getLast?, n = digitsValue l.code

/-- The parser reads the whole length, or has it already. It looks only for one spelling
of the name and skips one character behind the colon. -/
def Field.KeepsLength (f : Field) (old : ℕ) : Prop :=
  if f.name = contentLengthToken ∧ (f.before ≠ [] ∨ 1 < f.value.length) then
    digitsValue f.value < 2 ^ 31 ∧ (f.before = [] → f.value.head? = some 0x30)
  else old = digitsValue f.value

theorem StatusLine.parse_iff (l : StatusLine) : l.parse = digitsValue l.code ↔ l.KeepsCode := by
  have hlt : digitsValue l.code < 10 ^ 3 := l.length_code ▸ digitsValue_lt l.isdigit_code
  rw [StatusLine.parse, lastNumber_eq, StatusLine.KeepsCode]
  cases (numbers (l.reason.takeWhile (· ∉ [colon]))).getLast? with
  | none => exact iff_of_true rfl nofun
  | some n =>
    simp only [Option.mem_some_iff, forall_eq']
    omega

theorem isdigit_of_blank : ∀ c ∈ ([0x20, 0x09] : List UInt8), isdigit c = false := by decide +kernel

theorem lastNumber_blank {blanks : List UInt8} (h : ∀ c ∈ blanks, c ∈ [0x20, 0x09]) (old : ℕ) :
    lastNumber old blanks = old := by
  rw [← List.append_nil blanks, lastNumber_skip fun c hc => isdigit_of_blank c (h c hc),
    lastNumber_nil]

/-- The number between blanks. -/
theorem lastNumber_value {before value after : List UInt8} {old : ℕ}
    (hbefore : ∀ c ∈ before, c ∈ [0x20, 0x09]) (hne : value ≠ [])
    (hvalue : ∀ c ∈ value, isdigit c = true) (hafter : ∀ c ∈ after, c ∈ [0x20, 0x09]) :
    lastNumber old (before ++ value ++ after) = min (digitsValue value) (2 ^ 31 - 1) := by
  rw [List.append_assoc, lastNumber_skip fun c hc => isdigit_of_blank c (hbefore c hc),
    lastNumber_digits hne hvalue fun c hc =>
      isdigit_of_blank c (hafter c (List.mem_of_head? hc)),
    lastNumber_blank hafter]

/-- A length behind a blank is read, as far as it fits. -/
theorem Field.parse_of_blank {f : Field} (hname : f.name = contentLengthToken)
    (hbefore : f.before ≠ []) (hne : f.value ≠ []) (hvalue : ∀ c ∈ f.value, isdigit c = true)
    (resp : HttpResponse) : (f.parse resp).length = min (digitsValue f.value) (2 ^ 31 - 1) := by
  obtain ⟨c, blanks, hcons⟩ := List.exists_cons_of_ne_nil hbefore
  have hblanks : ∀ c ∈ blanks, c ∈ [0x20, 0x09] := fun c hc =>
    f.before_blank c (hcons ▸ List.mem_cons_of_mem _ hc)
  rw [Field.parse, if_pos hname, Field.body, hcons, List.cons_append, List.cons_append,
    List.drop_one, List.tail_cons, lastNumber_value hblanks hne hvalue f.after_blank]

/-- A number without its first digit is the same number only if the digit is 0. -/
theorem min_digitsValue_tail {d : UInt8} {digits : List UInt8} (hd : isdigit d = true) :
    min (digitsValue digits) (2 ^ 31 - 1) = digitsValue (d :: digits) ↔
      digitsValue (d :: digits) < 2 ^ 31 ∧ d = 0x30 := by
  have hsum : digitsValue (d :: digits) =
      (d.toNat - 0x30) * 10 ^ digits.length + digitsValue digits := by
    rw [← List.singleton_append, digitsValue_append]
    simp [digitsValue]
  have hzero : (d.toNat - 0x30) * 10 ^ digits.length = 0 ↔ d = 0x30 := by
    simp only [isdigit, Bool.and_eq_true, decide_eq_true_eq, UInt8.le_iff_toNat_le] at hd
    have hlow : 0x30 ≤ d.toNat := hd.1
    have hvalue : (0x30 : UInt8).toNat = 0x30 := rfl
    rw [mul_eq_zero, or_iff_left (by positivity), ← UInt8.toNat_inj, hvalue]
    omega
  rw [hsum, ← hzero]
  omega

theorem Field.parse_iff {f : Field} (hne : f.value ≠ [])
    (hvalue : ∀ c ∈ f.value, isdigit c = true) (resp : HttpResponse) :
    (f.parse resp).length = digitsValue f.value ↔ f.KeepsLength resp.length := by
  by_cases hname : f.name = contentLengthToken
  case neg => rw [Field.parse, if_neg hname, Field.KeepsLength, if_neg fun h => hname h.1]
  by_cases hbefore : f.before = []
  case neg =>
    rw [Field.parse_of_blank hname hbefore hne hvalue, Field.KeepsLength,
      if_pos ⟨hname, .inl hbefore⟩, and_iff_left fun h => absurd h hbefore]
    omega
  -- the character that is skipped is the first digit
  obtain ⟨d, digits, hcons⟩ := List.exists_cons_of_ne_nil hne
  rw [hcons] at hvalue
  rw [Field.parse, if_pos hname, Field.KeepsLength, Field.body, hbefore, hcons, List.nil_append,
    List.cons_append, List.drop_one, List.tail_cons]
  rcases eq_or_ne digits [] with rfl | hdigits
  · rw [List.nil_append, lastNumber_blank f.after_blank,
      if_neg fun h => h.2.elim (fun h => h rfl) (lt_irrefl 1)]
  · have htail : lastNumber resp.length ([] ++ digits ++ f.after) = _ :=
      lastNumber_value nofun hdigits (fun c hc => hvalue c (List.mem_cons_of_mem _ hc)) f.after_blank
    have hlong : 1 < (d :: digits).length := Nat.succ_lt_succ (List.length_pos_iff.mpr hdigits)
    rw [List.nil_append] at htail
    rw [htail, if_pos ⟨hname, .inr hlong⟩, min_digitsValue_tail (hvalue d List.mem_cons_self)]
    simp

/-- The parser's result is what the header says. -/
def ParsesFaithfully (old : HttpResponse) (h : ResponseHeader) : Prop :=
  let resp := parseHttpHeader old h.text
  resp.responseCode = digitsValue h.status.code ∧
    ∀ f ∈ h.fields, f.IsLength → resp.length = digitsValue f.value

/-- A header is parsed faithfully exactly if no number in the reason phrase replaces the
code and the length stands where the parser looks for it. -/
theorem parses_faithfully_iff (old : HttpResponse) (h : ResponseHeader) :
    ParsesFaithfully old h ↔
      h.status.KeepsCode ∧ ∀ f ∈ h.fields, f.IsLength → f.KeepsLength old.length := by
  have hnone : ([] : List UInt8).length ≤ 4 := Nat.zero_le 4
  have hcode := h.parse_responseCode old hnone
  have hlength {f : Field} := h.parse_length old hnone (f := f)
  rw [List.append_nil] at hcode hlength
  refine and_congr ?_ (forall₃_congr fun f hf hf' => ?_)
  · rw [hcode, StatusLine.parse_iff]
  · obtain ⟨hne, hvalue⟩ := h.isdigit_length f hf hf'
    rw [hlength hf hf', Field.parse_iff hne hvalue]

/-- A length whose name is in lower case. -/
def lowerCaseLength : Field where
  name := ascii "content-length"
  before := [0x20]
  value := ascii "5"
  after := []
  name_ne_nil := by decide
  name_free := by decide +kernel
  before_blank := by decide +kernel
  value_free := by decide +kernel
  after_blank := by decide +kernel

def lowerCaseHeader : ResponseHeader where
  status :=
    { minor := 0x31, code := ascii "200", reason := ascii "OK", isdigit_minor := by decide,
      length_code := by decide, isdigit_code := by decide +kernel,
      reason_free := by decide +kernel }
  fields := [lowerCaseLength]
  isdigit_length := by decide +kernel
  length_le_one := by decide

/-- The length of a header in lower case is not found. -/
theorem lower_case_length_missed :
    lowerCaseHeader.text = ascii "HTTP/1.1 200 OK\r\ncontent-length: 5\r\n\r\n" ∧
      (parseHttpHeader ⟨0, 0⟩ lowerCaseHeader.text).length = 0 ∧
      ¬ParsesFaithfully ⟨0, 0⟩ lowerCaseHeader := by
  have hmem : lowerCaseLength ∈ lowerCaseHeader.fields := List.mem_singleton_self _
  have hlength : lowerCaseLength.IsLength := by decide
  have hnone : ([] : List UInt8).length ≤ 4 := Nat.zero_le 4
  have hparse := lowerCaseHeader.parse_length ⟨0, 0⟩ hnone hmem hlength
  rw [List.append_nil] at hparse
  have hzero : (parseHttpHeader ⟨0, 0⟩ lowerCaseHeader.text).length = 0 := hparse.trans rfl
  refine ⟨by decide +kernel, hzero, fun h => ?_⟩
  have hfive := h.2 _ hmem hlength
  rw [hzero] at hfive
  exact absurd hfive (by decide)

end EspOpenRtos.HttpOta
