/-
# Escaping for pages

Names that were stored or received are shown in pages, with entities in the place of the
characters that have a meaning there. `wificfg_html_escape` stops in front of the first
character whose text does not fit the buffer any more, so no entity is cut, and what a
browser shows is the start of the string.
-/

import EspOpenRtos.Math.Buffers

namespace EspOpenRtos.WifiCfg

open Math.Buffers Math.CStrings

/-- The characters that are written as entities. -/
def entities : List (UInt8 × List UInt8) :=
  [(0x26, ascii "&amp;"), (0x22, ascii "&quot;"), (0x3C, ascii "&lt;"), (0x3E, ascii "&gt;")]

/-- The loop of `wificfg_html_escape`, with what is left of the string. The test in front of
an entity keeps a byte for the NUL. -/
def escapeLoop (len : ℕ) : (string : List UInt8) → (out : ℕ) → (buf : List UInt8) →
    Option (ℕ × List UInt8)
  | [], out, buf => some (out, buf)
  | c :: string, out, buf =>
    if out < len - 1 then
      match entities.lookup c with
      | some text =>
        if out ≥ len - text.length then some (out, buf)
        else (put buf out text).bind (escapeLoop len string (out + text.length))
      | none => (put buf out [c]).bind (escapeLoop len string (out + 1))
    else some (out, buf)

/-- `wificfg_html_escape` into a buffer of at least seven bytes. -/
def htmlEscape (string buf : List UInt8) : Option (List UInt8) :=
  (escapeLoop buf.length string 0 buf).bind fun (out, buf) => put buf out [0]

/-! ## What an escaped text stands for -/

/-- The text of a character. -/
def escapeChar (c : UInt8) : List UInt8 := (entities.lookup c).getD [c]

/-- The fully escaped form of a string. -/
def escaped (string : List UInt8) : List UInt8 := string.flatMap escapeChar

/-- Replace the entities of a text by their characters. -/
def unescape : List UInt8 → List UInt8
  | [] => []
  | c :: rest =>
    match entities.find? fun e => e.2.isPrefixOf (c :: rest) with
    | some e => e.1 :: unescape (rest.drop (e.2.length - 1))
    | none => c :: unescape rest
termination_by text => text.length
decreasing_by
  · rw [List.length_drop, List.length_cons]
    omega
  · rw [List.length_cons]
    omega

/-- A text that may stand in a page and stands for the start of a string, or for all of it
if that fits. -/
structure ShowsFaithfully (string text : List UInt8) (len : ℕ) : Prop where
  plain : ∀ c ∈ text, c ≠ 0x22 ∧ c ≠ 0x3C ∧ c ≠ 0x3E
  ampersands : ∀ before behind, text = before ++ 0x26 :: behind →
    ∃ e ∈ entities, e.2 <+: 0x26 :: behind
  start : unescape text <+: string
  whole : (escaped string).length < len → unescape text = string

/-! ## Entities -/

section Entities

theorem lookup_entities_some {c : UInt8} {text : List UInt8}
    (h : entities.lookup c = some text) : (c, text) ∈ entities := by
  have hmem := List.lookup_eq_some_iff.mp h
  obtain ⟨before, behind, hsplit, -⟩ := hmem
  rw [hsplit]
  exact List.mem_append_right _ List.mem_cons_self

theorem lookup_entities_none {c : UInt8} (h : entities.lookup c = none) :
    c ≠ 0x26 ∧ c ≠ 0x22 ∧ c ≠ 0x3C ∧ c ≠ 0x3E := by
  have hne := List.lookup_eq_none_iff.mp h
  simpa [entities] using hne

/-- An entity is an ampersand and characters that need no entity. -/
theorem entity_cons {e : UInt8 × List UInt8} (he : e ∈ entities) :
    ∃ name, e.2 = 0x26 :: name ∧ ∀ c ∈ name, c ≠ 0x26 ∧ c ≠ 0x22 ∧ c ≠ 0x3C ∧ c ≠ 0x3E := by
  have hall : ∀ e ∈ entities, e.2.head? = some 0x26 ∧
      ∀ c ∈ e.2.tail, c ≠ 0x26 ∧ c ≠ 0x22 ∧ c ≠ 0x3C ∧ c ≠ 0x3E := by decide +kernel
  obtain ⟨hhead, htail⟩ := hall e he
  exact ⟨e.2.tail, (List.cons_head?_tail hhead).symm, htail⟩

/-- No entity starts with another one. -/
theorem eq_of_entity_starts {e e' : UInt8 × List UInt8} (he : e ∈ entities)
    (he' : e' ∈ entities) (h : e'.2 <+: e.2) : e' = e := by
  have hall : ∀ e ∈ entities, ∀ e' ∈ entities, e'.2 <+: e.2 → e' = e := by decide +kernel
  exact hall e he e' he' h

end Entities

/-! ## Escaped strings -/

section Escaped

variable {c : UInt8} {text : List UInt8}

theorem escapeChar_entity (h : entities.lookup c = some text) : escapeChar c = text := by
  rw [escapeChar, h, Option.getD_some]

theorem escapeChar_plain (h : entities.lookup c = none) : escapeChar c = [c] := by
  rw [escapeChar, h, Option.getD_none]

theorem escaped_cons (c : UInt8) (string : List UInt8) :
    escaped (c :: string) = escapeChar c ++ escaped string := rfl

theorem unescape_entity {e : UInt8 × List UInt8} (he : e ∈ entities) (rest : List UInt8) :
    unescape (e.2 ++ rest) = e.1 :: unescape rest := by
  obtain ⟨name, hname, -⟩ := entity_cons he
  have hfind : entities.find? (fun e' => e'.2.isPrefixOf (e.2 ++ rest)) = some e := by
    obtain ⟨e', hfound⟩ : ∃ e', entities.find? (fun e' => e'.2.isPrefixOf (e.2 ++ rest)) = some e' :=
      Option.isSome_iff_exists.mp (List.find?_isSome.mpr
        ⟨e, he, List.isPrefixOf_iff_prefix.mpr (List.prefix_append e.2 rest)⟩)
    have hmem := List.mem_of_find?_eq_some hfound
    have hstarts : e'.2 <+: e.2 ++ rest := by
      have hprefix := List.find?_some hfound
      rwa [List.isPrefixOf_iff_prefix] at hprefix
    have hsame : e' = e := by
      rcases List.prefix_or_prefix_of_prefix hstarts (List.prefix_append e.2 rest) with h | h
      · exact eq_of_entity_starts he hmem h
      · exact (eq_of_entity_starts hmem he h).symm
    rw [hfound, hsame]
  rw [hname, List.cons_append] at hfind ⊢
  rw [unescape, hfind]
  simp only [hname, List.length_cons, Nat.add_sub_cancel, List.drop_left]

theorem unescape_plain (hc : c ≠ 0x26) (rest : List UInt8) :
    unescape (c :: rest) = c :: unescape rest := by
  have hfind : entities.find? (fun e => e.2.isPrefixOf (c :: rest)) = none := by
    rw [List.find?_eq_none]
    intro e he hstarts
    obtain ⟨name, hname, -⟩ := entity_cons he
    rw [hname, List.isPrefixOf_iff_prefix, List.cons_prefix_cons] at hstarts
    exact hc hstarts.1.symm
  rw [unescape, hfind]

/-- Escaping is undone by replacing the entities. -/
theorem unescape_escaped (string : List UInt8) : unescape (escaped string) = string := by
  induction string with
  | nil => simp [escaped, unescape]
  | cons c string ih =>
    rw [escaped_cons]
    cases hlookup : entities.lookup c with
    | some text =>
      have hmem := lookup_entities_some hlookup
      rw [escapeChar_entity hlookup, unescape_entity hmem, ih]
    | none =>
      have hc := (lookup_entities_none hlookup).1
      rw [escapeChar_plain hlookup, List.singleton_append, unescape_plain hc, ih]

theorem escapeChar_safe {x : UInt8} (hx : x ∈ escapeChar c) :
    x ≠ 0x22 ∧ x ≠ 0x3C ∧ x ≠ 0x3E := by
  cases hlookup : entities.lookup c with
  | some text =>
    obtain ⟨name, rfl, hfree⟩ := entity_cons (lookup_entities_some hlookup)
    rw [escapeChar_entity hlookup] at hx
    rcases List.mem_cons.mp hx with rfl | hx
    · decide
    · exact (hfree x hx).2
  | none =>
    rw [escapeChar_plain hlookup, List.mem_singleton] at hx
    exact hx ▸ (lookup_entities_none hlookup).2

/-- An ampersand of an escaped string starts an entity. -/
theorem entity_of_ampersand {string before behind : List UInt8}
    (h : escaped string = before ++ 0x26 :: behind) : ∃ e ∈ entities, e.2 <+: 0x26 :: behind := by
  induction string generalizing before with
  | nil => simp [escaped] at h
  | cons c string ih =>
    rw [escaped_cons] at h
    rcases List.append_eq_append_iff.mp h with ⟨more, hbefore, hrest⟩ | ⟨more, hchar, hrest⟩
    · exact ih hrest
    · -- the ampersand is in the text of the first character, or starts the rest
      cases hmore : more with
      | nil =>
        rw [hmore, List.nil_append] at hrest
        exact ih (show escaped string = [] ++ 0x26 :: behind from hrest.symm)
      | cons x more =>
        rw [hmore, List.cons_append] at hrest
        obtain ⟨rfl, hbehind⟩ := List.cons.inj hrest
        cases hlookup : entities.lookup c with
        | some text =>
          have hmem := lookup_entities_some hlookup
          obtain ⟨name, hname, hfree⟩ := entity_cons hmem
          rw [escapeChar_entity hlookup, hmore] at hchar
          refine ⟨_, hmem, ?_⟩
          cases before with
          | nil => exact ⟨_, by rw [hchar, hbehind]; rfl⟩
          | cons y before =>
            have hin : (0x26 : UInt8) ∈ name := by
              have htail := (List.cons.inj (hname.symm.trans hchar)).2
              rw [htail]
              simp
            exact absurd rfl (hfree _ hin).1
        | none =>
          have hin : (0x26 : UInt8) ∈ [c] := by
            rw [← escapeChar_plain hlookup, hchar, hmore]
            simp
          exact absurd (List.mem_singleton.mp hin).symm (lookup_entities_none hlookup).1

theorem nul_not_mem_escaped {string : List UInt8} (h : (0 : UInt8) ∉ string) :
    (0 : UInt8) ∉ escaped string := by
  intro hmem
  obtain ⟨c, hc, hx⟩ := List.mem_flatMap.mp hmem
  cases hlookup : entities.lookup c with
  | some text =>
    have hall : ∀ e ∈ entities, (0 : UInt8) ∉ e.2 := by decide +kernel
    rw [escapeChar_entity hlookup] at hx
    exact hall _ (lookup_entities_some hlookup) hx
  | none =>
    rw [escapeChar_plain hlookup, List.mem_singleton] at hx
    exact h (hx ▸ hc)

end Escaped

/-! ## The loop -/

/-- The loop has written the text of as many characters as fit, and has left room for the
NUL. -/
def WritesStart (len : ℕ) (text string : List UInt8) (result : Option (ℕ × List UInt8)) : Prop :=
  ∃ start rest, start <+: string ∧
    result = some ((text ++ escaped start).length, text ++ escaped start ++ rest) ∧
    (text ++ escaped start ++ rest).length = len ∧ rest ≠ [] ∧
    (text.length + (escaped string).length < len → start = string)

section Loop

variable {len : ℕ} {text rest string : List UInt8}

theorem writesStart_stop (hbuf : (text ++ rest).length = len) (hroom : rest ≠ [])
    (hfull : string = [] ∨ len ≤ text.length + (escaped string).length) :
    WritesStart len text string (some (text.length, text ++ rest)) := by
  refine ⟨[], rest, List.nil_prefix, by simp [escaped], by simpa [escaped] using hbuf, hroom, ?_⟩
  intro hfits
  exact (hfull.resolve_right (Nat.not_le.mpr hfits)).symm

theorem WritesStart.cons {c : UInt8} {result : Option (ℕ × List UInt8)}
    (h : WritesStart len (text ++ escapeChar c) string result) :
    WritesStart len text (c :: string) result := by
  obtain ⟨start, rest, hstart, hresult, hbuf, hroom, hwhole⟩ := h
  rw [List.append_assoc text, ← escaped_cons] at hresult hbuf
  refine ⟨c :: start, rest, List.cons_prefix_cons.mpr ⟨rfl, hstart⟩, hresult, hbuf, hroom, ?_⟩
  intro hfits
  rw [escaped_cons, List.length_append] at hfits
  rw [hwhole (by rw [List.length_append]; omega)]

theorem writesStart_escapeLoop (hbuf : (text ++ rest).length = len) (hroom : rest ≠ []) :
    WritesStart len text string (escapeLoop len string text.length (text ++ rest)) := by
  induction string generalizing text rest with
  | nil => exact writesStart_stop hbuf hroom (.inl rfl)
  | cons c string ih =>
    have hlen := hbuf
    rw [List.length_append] at hlen
    have hlonger : (escapeChar c).length ≤ (escaped (c :: string)).length := by
      rw [escaped_cons, List.length_append]
      omega
    -- one round, for a character whose text fits
    have hstep (hfits : text.length + (escapeChar c).length < len) :
        WritesStart len text (c :: string) ((put (text ++ rest) text.length (escapeChar c)).bind
          (escapeLoop len string (text.length + (escapeChar c).length))) := by
      rw [put_behind text (by omega), Option.bind_some, ← List.length_append]
      refine WritesStart.cons (ih ?_ (List.ne_nil_of_length_pos ?_))
      · simp only [List.length_append, List.length_drop]
        omega
      · rw [List.length_drop]
        omega
    have hpos := List.length_pos_of_ne_nil hroom
    rw [escapeLoop]
    split
    · next hout =>
        split
        · next e hlookup =>
            rw [← escapeChar_entity hlookup]
            split
            · exact writesStart_stop hbuf hroom (.inr (by omega))
            · exact hstep (by omega)
        · next hlookup =>
            have hchar := escapeChar_plain hlookup
            rw [hchar] at hstep
            exact hstep (by rw [List.length_singleton]; omega)
    · next hout =>
        have hone : 1 ≤ (escapeChar c).length := by
          cases hlookup : entities.lookup c with
          | some e =>
            obtain ⟨name, hname, -⟩ := entity_cons (lookup_entities_some hlookup)
            rw [escapeChar_entity hlookup, show e = _ from hname, List.length_cons]
            omega
          | none => rw [escapeChar_plain hlookup, List.length_singleton]
        exact writesStart_stop hbuf hroom (.inr (by omega))

end Loop

/-- Escaping stays inside the buffer, ends the text with a NUL, and shows the string
faithfully. -/
theorem html_escape_faithful (string : CString) (buf : List UInt8) (hlen : 7 ≤ buf.length) :
    ∃ buf', htmlEscape string.1 buf = some buf' ∧ buf'.length = buf.length ∧ (0 : UInt8) ∈ buf' ∧
      ShowsFaithfully string.1 (cstr buf') buf.length := by
  have hne : buf ≠ [] := List.ne_nil_of_length_pos (by omega)
  have hwrites : WritesStart buf.length [] string.1 (escapeLoop buf.length string.1 0 buf) :=
    writesStart_escapeLoop rfl hne
  obtain ⟨start, rest, hstart, hloop, hbuf, hroom, hwhole⟩ := hwrites
  rw [List.nil_append] at hloop hbuf
  obtain ⟨x, rest, rfl⟩ := List.exists_cons_of_ne_nil hroom
  have hnul : (0 : UInt8) ∉ escaped start := nul_not_mem_escaped fun h => string.2 (hstart.subset h)
  have htext : cstr (escaped start ++ 0 :: rest) = escaped start := by
    rw [cstr_append_nul, cstr_of_not_mem hnul]
  refine ⟨escaped start ++ 0 :: rest, ?_, ?_, by simp, ?_⟩
  · rw [htmlEscape, hloop, Option.bind_some]
    exact (put_behind _ (by simp)).trans (by simp)
  · rw [← hbuf, List.length_append, List.length_append, List.length_cons, List.length_cons]
  · rw [htext]
    refine ⟨?_, fun before behind h => entity_of_ampersand h, ?_, fun hfits => ?_⟩
    · intro c hc
      obtain ⟨x, -, hx⟩ := List.mem_flatMap.mp hc
      exact escapeChar_safe hx
    · rw [unescape_escaped]
      exact hstart
    · rw [unescape_escaped, hwhole (by rw [List.length_nil, Nat.zero_add]; exact hfits)]

/-- A link fits a larger buffer. -/
theorem html_escape_faithful_link :
    7 ≤ (List.replicate 20 (0 : UInt8)).length ∧
      ∃ buf', htmlEscape (ascii "<a&b>") (List.replicate 20 0) = some buf' ∧
        buf'.length = (List.replicate 20 (0 : UInt8)).length ∧ (0 : UInt8) ∈ buf' ∧
        ShowsFaithfully (ascii "<a&b>") (cstr buf') (List.replicate 20 (0 : UInt8)).length :=
  ⟨by decide, html_escape_faithful ⟨ascii "<a&b>", by decide⟩ (List.replicate 20 0) (by decide)⟩

end EspOpenRtos.WifiCfg
