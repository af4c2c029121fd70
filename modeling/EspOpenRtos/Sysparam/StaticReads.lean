/-
# Reading into a caller's buffer

`sysparam_get_data_static` reads a value into memory of the caller, and
`sysparam_get_bool` uses it with a small buffer on its stack. Both rely on
`_read_payload`, which fills the whole buffer: a buffer that is longer than the
value also receives what follows the value in flash, and the read fails if that
is past the end of the chip.
-/

import EspOpenRtos.Math.CStrings
import EspOpenRtos.Sysparam.Runs

namespace EspOpenRtos.Sysparam

open Math Math.CStrings Math.NorFlash Math.KeyedLog

/-! ## The functions -/

/-- The status of `sysparam_get_data_static` and what it leaves in the variables
of its caller. The binary flag is `none` where it is not written. -/
structure StaticResult where
  status : Status
  dest : List UInt8
  actualLength : ℕ
  isBinary : Option Bool
  deriving DecidableEq

/-- `sysparam_get_data_static`, for a buffer with the given content. -/
def sysparamGetDataStatic (s : Sys) (key dest : List UInt8) : StaticResult × Sys :=
  if s.info.curBase = 0 then (⟨.errNoInit, dest, 0, none⟩, s)
  else
    match findKey s.dev s.info (initContext s.info) (some (key.take (key.length % 0x10000))) with
    | (.ok, ctx, info) =>
      match findValue s.dev info ctx ctx.entry.idflags with
      | (.ok, ctx, info) =>
        match readPayload s.dev ctx dest.length with
        | some buffer =>
          (⟨.ok, buffer, ctx.entry.len.toNat, some ctx.entry.isBinary⟩, { s with info := info })
        | none => (⟨.errIo, dest, 0, none⟩, { s with info := info })
      | (status, _, info) => (⟨status, dest, 0, none⟩, { s with info := info })
    | (status, _, info) => (⟨status, dest, 0, none⟩, { s with info := info })

/-- A string that `sysparam_get_bool` compares the value with. -/
structure BoolWord where
  text : List UInt8
  ignoreCase : Bool
  answer : Bool

/-- The comparisons of `sysparam_get_bool`, in order. -/
def boolWords : List BoolWord :=
  [⟨ascii "y", true, true⟩, ⟨ascii "yes", true, true⟩, ⟨ascii "t", true, true⟩,
    ⟨ascii "true", true, true⟩, ⟨ascii "1", false, true⟩,
    ⟨ascii "n", true, false⟩, ⟨ascii "no", true, false⟩, ⟨ascii "f", true, false⟩,
    ⟨ascii "false", true, false⟩, ⟨ascii "0", false, false⟩]

/-- `strcasecmp` or `strcmp` of a buffer with the word finds no difference. -/
def BoolWord.matches (w : BoolWord) (buf : List UInt8) : Bool :=
  if w.ignoreCase then (cstr buf).map tolower == w.text.map tolower else cstr buf == w.text

/-- The last index of the buffer that the comparison looks at: the first one
where the strings differ, or the one of the NUL. -/
def BoolWord.lastIndex (w : BoolWord) (buf : List UInt8) : ℕ :=
  ((buf.zip w.text).takeWhile fun p =>
    if w.ignoreCase then tolower p.1 == tolower p.2 else p.1 == p.2).length

/-- Compare the buffer with one word after the other. Gives the answer of the
first one that matches, and the indices that were used. -/
def compareWords (buf : List UInt8) : List BoolWord → Option Bool × List ℕ
  | [] => (none, [])
  | w :: ws =>
    if w.matches buf then (some w.answer, [w.lastIndex buf])
    else ((compareWords buf ws).1, w.lastIndex buf :: (compareWords buf ws).2)

/-- What `sysparam_get_bool` does: its status, what it stores in its result
variable, if anything, and the indices of its buffer that it uses. -/
structure BoolResult where
  status : Status
  result : Option Bool
  indices : List ℕ

/-- `buf_size`, without the extra byte for the NUL. -/
def boolBufSize : ℕ := 8

/-- The part of `sysparam_get_bool` behind the read. -/
def parseBool (buf : List UInt8) (dataLen : ℕ) (binary : Bool) : BoolResult :=
  if binary then
    if dataLen = 1 then ⟨.ok, some ((buf.take 1).any (· ≠ 0)), List.range 1⟩
    else if dataLen = 4 then ⟨.ok, some ((buf.take 4).any (· ≠ 0)), List.range 4⟩
    else ⟨.parseFailed, none, []⟩
  else
    -- a store outside the buffer changes something else
    let words := compareWords (buf.set dataLen 0) boolWords
    match words.1 with
    | some answer => ⟨.ok, some answer, dataLen :: words.2⟩
    | none => ⟨.parseFailed, none, dataLen :: words.2⟩

/-- `sysparam_get_bool`. The buffer on its stack has some content at the start. -/
def sysparamGetBool (s : Sys) (key stack : List UInt8) : BoolResult × Sys :=
  match sysparamGetDataStatic s key (stack.take boolBufSize) with
  | (r, s) =>
    if r.status = .ok then
      let parsed := parseBool (r.dest ++ stack.drop boolBufSize) r.actualLength
        (r.isBinary.getD false)
      ({ parsed with indices := List.range boolBufSize ++ parsed.indices }, s)
    else (⟨r.status, none, []⟩, s)

/-! ## The value a lookup ends at -/

section Live

variable {s : Sys} {key : List UInt8} {ctx : Context}

/-- The bytes of the value. -/
def Context.value (ctx : Context) (s : Sys) : List UInt8 :=
  read s.dev.bytes (ctx.addr + entryHeaderSize) ctx.entry.len.toNat

theorem LiveValue.getDataStatic (h : LiveValue s key ctx) (dest : List UInt8) :
    sysparamGetDataStatic s key dest =
      match readPayload s.dev ctx dest.length with
      | some buffer => (⟨.ok, buffer, ctx.entry.len.toNat, some ctx.entry.isBinary⟩, s)
      | none => (⟨.errIo, dest, 0, none⟩, s) := by
  obtain ⟨ctxKey, hkey, hvalue⟩ := h.found
  simp only [sysparamGetDataStatic, if_neg h.opened, hkey, hvalue]

@[simp]
theorem Context.length_value : (ctx.value s).length = ctx.entry.len.toNat := length_read

/-- Reading no more than the value gives its first bytes. -/
theorem Context.take_value {n : ℕ} (h : n ≤ ctx.entry.len.toNat) :
    (ctx.value s).take n = read s.dev.bytes (ctx.addr + entryHeaderSize) n := by
  obtain ⟨m, hm⟩ := Nat.exists_eq_add_of_le h
  rw [Context.value, hm, read_add, List.take_left' length_read]

end Live

/-! ## A text value in a new area -/

/-- The driver accepts what lies inside a chip of the given size. -/
def Device.Chip (d : Device) (size : ℕ) : Prop :=
  ∀ addr n, d.accepts addr n = true ↔ addr + n ≤ size

/-- An erased chip of one megabyte, and nothing in memory. -/
def chip : Sys :=
  ⟨⟨fun addr n => decide (addr + n ≤ 0x100000), fun _ => 0xFF, [], none, none⟩, ⟨0, 0, 0, 0, false⟩⟩

/-- The key `k` has been set to a text in a new area on this chip. -/
def textSet (v : List UInt8) : Sys :=
  (sysparamSetData (smallArea.create chip) (byteKey 0x6B).1 v false).2

theorem covers_chip : chip.dev.Covers smallArea.limit := fun x n hn =>
  decide_eq_true (hn.trans (by decide))

/-- Creating the area and setting the key leave the chip as large as it was. -/
theorem chip_textSet {v : List UInt8} (hv : v ≠ []) (hlen : v.length ≤ 4000) :
    (textSet v).dev.Chip 0x100000 := by
  -- as a payload
  obtain ⟨p, hp⟩ : ∃ p : Payload, p.1 = v := ⟨⟨v, by omega⟩, rfl⟩
  subst hp
  have hcreated : Settled smallArea (smallArea.create chip) false [] :=
    settled_create _ rfl covers_chip (show Inert 0xFF by decide)
  have hspace : regionHeaderSize + logSize [] + needed (byteKey 0x6B) p.1 [] ≤ smallArea.size := by
    have hneeded : needed (byteKey 0x6B) p.1 [] = p.1.length + 9 := by
      simp [needed, keyId, find, entrySize, entryHeaderSize, byteKey]
      omega
    have hsize : smallArea.size = 4096 := rfl
    rw [hneeded, hsize, regionHeaderSize, logSize_nil]
    omega
  obtain ⟨-, hstored, -⟩ := hcreated.steady.put false (by decide) hv
    (Option.some_ne_none _).symm ⟨hspace, by decide, fun _ => by decide⟩
  intro addr n
  rw [textSet, ((quiet_create smallArea rfl covers_chip).trans hstored.quiet).accepts]
  exact decide_eq_true_iff

/-- Where the search for a text of `n` bytes ends. -/
def textContext (n : UInt16) : Context := ⟨0x100D, ⟨0xA001, n⟩, 0, 0, 1⟩

/-- Where the search for its key ends. -/
def textKeyContext : Context := ⟨0x1008, ⟨0x8001, 1⟩, 1, 0, 1⟩

/-! ## Delivering the stored value -/

section Delivers

variable {s : Sys} {key : List UInt8} {ctx : Context} {chipSize : ℕ}

/-- The value lies inside the chip. -/
def Context.Inside (ctx : Context) (chipSize : ℕ) : Prop :=
  ctx.addr + entryHeaderSize + ctx.entry.len.toNat ≤ chipSize

/-- A read into a buffer gives the stored value, cut to the size of the buffer,
and leaves the rest of the buffer alone. -/
structure Delivers (s : Sys) (key : List UInt8) (ctx : Context) (chipSize : ℕ) (dest : List UInt8) :
    Prop where
  copied : (sysparamGetDataStatic s key dest).1.status = .ok →
    (sysparamGetDataStatic s key dest).1.dest =
      (ctx.value s).take dest.length ++ dest.drop (ctx.value s).length
  described : (sysparamGetDataStatic s key dest).1.status = .ok →
    (sysparamGetDataStatic s key dest).1.actualLength = (ctx.value s).length ∧
      (sysparamGetDataStatic s key dest).1.isBinary = some ctx.entry.isBinary
  succeeds : ctx.Inside chipSize → (sysparamGetDataStatic s key dest).1.status = .ok ∧
    (sysparamGetData s key).1 = (.ok, some (ctx.value s, ctx.entry.isBinary))

theorem readPayload_of_chip (hchip : s.dev.Chip chipSize) {n : ℕ}
    (h : ctx.addr + entryHeaderSize + n ≤ chipSize) :
    readPayload s.dev ctx n = some (read s.dev.bytes (ctx.addr + entryHeaderSize) n) :=
  if_pos (.inr ((hchip _ _).mpr h))

theorem readPayload_outside_chip (hchip : s.dev.Chip chipSize) {n : ℕ} (hn : n ≠ 0)
    (h : chipSize < ctx.addr + entryHeaderSize + n) : readPayload s.dev ctx n = none := by
  refine if_neg ?_
  rintro (hzero | haccepts)
  · exact hn hzero
  · exact absurd ((hchip _ _).mp haccepts) (Nat.not_le.mpr h)

theorem LiveValue.getData_inside (h : LiveValue s key ctx) (hchip : s.dev.Chip chipSize)
    (hinside : ctx.Inside chipSize) :
    (sysparamGetData s key).1 = (.ok, some (ctx.value s, ctx.entry.isBinary)) := by
  rw [h.getData, readPayload_of_chip hchip hinside]
  rfl

/-- A read that succeeds fills the buffer. -/
theorem LiveValue.getDataStatic_ok (h : LiveValue s key ctx) {dest : List UInt8}
    (hok : (sysparamGetDataStatic s key dest).1.status = .ok) :
    (sysparamGetDataStatic s key dest).1 = ⟨.ok,
      read s.dev.bytes (ctx.addr + entryHeaderSize) dest.length, ctx.entry.len.toNat,
      some ctx.entry.isBinary⟩ := by
  rw [h.getDataStatic] at hok ⊢
  unfold readPayload spiflashRead at hok ⊢
  split_ifs at hok ⊢ with haccepts
  rfl

theorem LiveValue.getDataStatic_inside (h : LiveValue s key ctx) (hchip : s.dev.Chip chipSize)
    (dest : List UInt8) (hread : ctx.addr + entryHeaderSize + dest.length ≤ chipSize) :
    (sysparamGetDataStatic s key dest).1.status = .ok := by
  rw [h.getDataStatic, readPayload_of_chip hchip hread]

/-- A buffer that is not longer than the value gets the start of the value. -/
theorem LiveValue.delivers_of_le (h : LiveValue s key ctx) (hchip : s.dev.Chip chipSize)
    {dest : List UInt8} (hle : dest.length ≤ ctx.entry.len.toNat) :
    Delivers s key ctx chipSize dest := by
  refine ⟨fun hok => ?_, fun hok => ?_, fun hinside => ⟨?_, h.getData_inside hchip hinside⟩⟩
  · rw [h.getDataStatic_ok hok, Context.take_value hle, List.drop_of_length_le (by simpa using hle),
      List.append_nil]
  · rw [h.getDataStatic_ok hok]
    exact ⟨Context.length_value.symm, rfl⟩
  · exact h.getDataStatic_inside hchip dest ((Nat.add_le_add_left hle _).trans hinside)

/-- Nothing is promised for a value outside the chip, and a longer read of it
fails. -/
theorem LiveValue.delivers_of_outside (h : LiveValue s key ctx) (hchip : s.dev.Chip chipSize)
    {dest : List UInt8} (hlt : ctx.entry.len.toNat < dest.length) (houtside : ¬ctx.Inside chipSize) :
    Delivers s key ctx chipSize dest := by
  have hfails : (sysparamGetDataStatic s key dest).1.status ≠ .ok := by
    rw [Context.Inside] at houtside
    rw [h.getDataStatic, readPayload_outside_chip hchip (by omega) (by omega)]
    exact nofun
  exact ⟨fun hok => absurd hok hfails, fun hok => absurd hok hfails,
    fun hinside => absurd hinside houtside⟩

/-- A longer buffer is filled with what follows the value in flash. -/
theorem LiveValue.overwrites (h : LiveValue s key ctx) {dest : List UInt8}
    (hok : (sysparamGetDataStatic s key dest).1.status = .ok)
    (hlt : ctx.entry.len.toNat < dest.length) (hdelivers : Delivers s key ctx chipSize dest) :
    dest.getD ctx.entry.len.toNat 0 =
      s.dev.bytes (ctx.addr + entryHeaderSize + ctx.entry.len.toNat) := by
  have hcopied := congrArg (fun l => l.getD ctx.entry.len.toNat 0) (hdelivers.copied hok)
  have hshort : ((ctx.value s).take dest.length).length = ctx.entry.len.toNat := by
    rw [List.length_take, Context.length_value, Nat.min_eq_right hlt.le]
  rw [h.getDataStatic_ok hok] at hcopied
  simp only [getD_read hlt] at hcopied
  rw [hcopied, List.getD_append_right _ _ _ _ hshort.le, hshort, Nat.sub_self,
    Context.length_value, List.getD_eq_getElem?_getD, List.getD_eq_getElem?_getD,
    List.getElem?_drop, Nat.add_zero]

/-- `sysparam_get_data_static` delivers the stored value to buffers that are not
longer than the value, and to no longer one if the value is inside the chip. -/
theorem static_read_delivers_iff (h : LiveValue s key ctx) (hchip : s.dev.Chip chipSize)
    (destSize : ℕ) :
    (∀ dest : List UInt8, dest.length = destSize → Delivers s key ctx chipSize dest) ↔
      destSize ≤ ctx.entry.len.toNat ∨ ¬ctx.Inside chipSize := by
  constructor
  · intro hall
    by_contra hlong
    push Not at hlong
    obtain ⟨hlt, hinside⟩ := hlong
    -- a buffer that differs from the flash in every byte
    let dest := (read s.dev.bytes (ctx.addr + entryHeaderSize) destSize).map (· + 1)
    have hlength : dest.length = destSize := by simp [dest]
    have hdelivers := hall dest hlength
    have hsame := h.overwrites (hdelivers.succeeds hinside).1 (by omega) hdelivers
    have hbyte : dest.getD ctx.entry.len.toNat 0 =
        s.dev.bytes (ctx.addr + entryHeaderSize + ctx.entry.len.toNat) + 1 := by
      rw [List.getD_eq_getElem _ _ (by omega), List.getElem_map, getElem_read]
    rw [hbyte] at hsame
    exact absurd hsame (by simp)
  · rintro hcond dest rfl
    by_cases hle : dest.length ≤ ctx.entry.len.toNat
    · exact h.delivers_of_le hchip hle
    · exact h.delivers_of_outside hchip (Nat.lt_of_not_le hle) (hcond.resolve_left hle)

/-- The first two bytes of a text. -/
theorem static_read_delivers_two : ∃ ctx,
    LiveValue (textSet (ascii "yes")) (byteKey 0x6B).1 ctx ∧
      ctx.value (textSet (ascii "yes")) = ascii "yes" ∧
      ∀ dest : List UInt8, dest.length = 2 →
        Delivers (textSet (ascii "yes")) (byteKey 0x6B).1 ctx 0x100000 dest := by
  have hlive : LiveValue (textSet (ascii "yes")) (byteKey 0x6B).1 (textContext 3) :=
    ⟨by decide +kernel, textKeyContext, by decide +kernel, by decide +kernel⟩
  exact ⟨_, hlive, by decide +kernel,
    (static_read_delivers_iff hlive (chip_textSet (by decide) (by decide)) 2).mpr
      (.inl (by decide))⟩

/-- A buffer of two bytes for a text of one byte: the second byte is overwritten
with the erased flash behind the value. -/
theorem static_read_overwrites_buffer : ∃ ctx,
    LiveValue (textSet (ascii "y")) (byteKey 0x6B).1 ctx ∧ ctx.Inside 0x100000 ∧
      ctx.value (textSet (ascii "y")) = ascii "y" ∧
      (sysparamGetDataStatic (textSet (ascii "y")) (byteKey 0x6B).1 [0, 0]).1 =
        ⟨.ok, [0x79, 0xFF], 1, some false⟩ ∧
      ¬Delivers (textSet (ascii "y")) (byteKey 0x6B).1 ctx 0x100000 [0, 0] := by
  refine ⟨textContext 1, ⟨by decide +kernel, textKeyContext, by decide +kernel, by decide +kernel⟩,
    show 0x1012 ≤ 0x100000 by decide, by decide +kernel, by decide +kernel, fun hdelivers => ?_⟩
  exact absurd (hdelivers.copied (by decide +kernel)) (by decide +kernel)

end Delivers

/-! ## Parsing a truth value -/

section Bool

variable {s : Sys} {key : List UInt8} {ctx : Context}

/-- The language of truth values. -/
def boolOf (value : List UInt8) (binary : Bool) : Option Bool :=
  if binary then
    if value.length = 1 ∨ value.length = 4 then some (value.any (· ≠ 0)) else none
  else
    let text := (cstr value).map tolower
    if text ∈ ["y", "yes", "t", "true", "1"].map ascii then some true
    else if text ∈ ["n", "no", "f", "false", "0"].map ascii then some false
    else none

/-- What is written for a truth value, or for the lack of one. -/
def Answers (r : BoolResult) : Option Bool → Prop
  | some answer => r.status = .ok ∧ r.result = some answer
  | none => r.status = .parseFailed ∧ r.result = none

/-- `sysparam_get_bool` stays inside its buffer and parses the value. -/
structure ParsesBool (s : Sys) (key : List UInt8) (ctx : Context) (stack : List UInt8) : Prop where
  inBounds : ∀ i ∈ (sysparamGetBool s key stack).1.indices, i < boolBufSize + 1
  parsed : Answers (sysparamGetBool s key stack).1 (boolOf (ctx.value s) ctx.entry.isBinary)

theorem BoolWord.lastIndex_le (w : BoolWord) (buf : List UInt8) : w.lastIndex buf ≤ w.text.length := by
  refine (List.takeWhile_sublist _).length_le.trans ?_
  rw [List.length_zip]
  exact Nat.min_le_right _ _

theorem compareWords_indices {buf : List UInt8} {ws : List BoolWord} {n i : ℕ}
    (hw : ∀ w ∈ ws, w.text.length ≤ n) (hi : i ∈ (compareWords buf ws).2) : i ≤ n := by
  induction ws with
  | nil => exact absurd hi List.not_mem_nil
  | cons w ws ih =>
    have hfirst := (w.lastIndex_le buf).trans (hw w List.mem_cons_self)
    have hrest := ih fun x hx => hw x (List.mem_cons_of_mem w hx)
    rw [compareWords] at hi
    split at hi
    · rw [List.mem_singleton.mp hi]
      exact hfirst
    · rcases List.mem_cons.mp hi with rfl | hi
      · exact hfirst
      · exact hrest hi

/-- The words are in lower case, and those that are compared exactly have no
letters. -/
theorem matches_of_mem_boolWords {w : BoolWord} (hw : w ∈ boolWords) (buf : List UInt8) :
    w.matches buf = ((cstr buf).map tolower == w.text) := by
  have hlower : ∀ w ∈ boolWords, w.ignoreCase = true → w.text.map tolower = w.text := by decide
  have hdigits : ∀ w ∈ boolWords, w.ignoreCase = false → ∀ d ∈ w.text, d < 0x41 := by decide +kernel
  unfold BoolWord.matches
  split
  · next hcase => rw [hlower w hw hcase]
  · next hcase =>
      rw [Bool.eq_iff_iff, beq_iff_eq, beq_iff_eq,
        map_tolower_eq_iff (hdigits w hw (Bool.eq_false_iff.mpr hcase))]

theorem compareWords_answer {buf text : List UInt8} {ws : List BoolWord}
    (hmatches : ∀ w ∈ ws, w.matches buf = (text == w.text)) :
    (compareWords buf ws).1 = (ws.find? fun w => text == w.text).map BoolWord.answer := by
  induction ws with
  | nil => rfl
  | cons w ws ih =>
    rw [List.forall_mem_cons] at hmatches
    rw [compareWords, List.find?_cons, hmatches.1]
    cases text == w.text with
    | true => rfl
    | false => exact ih hmatches.2

/-- The comparisons decide the language. -/
theorem compareWords_boolWords (buf : List UInt8) :
    (compareWords buf boolWords).1 = boolOf buf false := by
  rw [compareWords_answer fun w hw => matches_of_mem_boolWords hw buf, boolOf]
  generalize (cstr buf).map tolower = text
  by_cases htrue : text ∈ ["y", "yes", "t", "true", "1"].map ascii
  · rw [if_neg Bool.false_ne_true, if_pos htrue]
    simp only [List.map_cons, List.map_nil, List.mem_cons, List.not_mem_nil, or_false] at htrue
    rcases htrue with rfl | rfl | rfl | rfl | rfl <;> rfl
  · by_cases hfalse : text ∈ ["n", "no", "f", "false", "0"].map ascii
    · rw [if_neg Bool.false_ne_true, if_neg htrue, if_pos hfalse]
      simp only [List.map_cons, List.map_nil, List.mem_cons, List.not_mem_nil, or_false] at hfalse
      rcases hfalse with rfl | rfl | rfl | rfl | rfl <;> rfl
    · rw [if_neg Bool.false_ne_true, if_neg htrue, if_neg hfalse]
      simp_all [boolWords]

theorem boolOf_congr {v w : List UInt8} (h : cstr v = cstr w) : boolOf v false = boolOf w false := by
  simp only [boolOf, if_neg Bool.false_ne_true, h]

theorem parseBool_false (buf : List UInt8) (n : ℕ) :
    parseBool buf n false =
      ⟨if (compareWords (buf.set n 0) boolWords).1.isSome then .ok else .parseFailed,
        (compareWords (buf.set n 0) boolWords).1,
        n :: (compareWords (buf.set n 0) boolWords).2⟩ := by
  simp only [parseBool, if_neg Bool.false_ne_true]
  split
  · next hword => simp [hword]
  · next hword => simp [hword]

/-- Behind the read of a text that fits, the buffer holds the text. -/
theorem parseBool_text {buf : List UInt8} {n : ℕ} (hn : n < buf.length) :
    Answers (parseBool buf n false) (boolOf (buf.take n) false) := by
  have hwords : (compareWords (buf.set n 0) boolWords).1 = boolOf (buf.take n) false :=
    (compareWords_boolWords _).trans (boolOf_congr (cstr_set_zero hn))
  rw [parseBool_false, hwords]
  cases boolOf (buf.take n) false with
  | none => exact ⟨rfl, rfl⟩
  | some answer => exact ⟨rfl, rfl⟩

/-- A binary value is read from the start of the buffer. -/
theorem parseBool_binary {buf value : List UInt8} {n : ℕ} (hn : value.length = n)
    (htake : n ≤ 4 → buf.take n = value) :
    Answers (parseBool buf n true) (boolOf value true) := by
  subst hn
  rw [parseBool, if_pos rfl, boolOf, if_pos rfl]
  by_cases hone : value.length = 1
  · have hvalue := htake (by omega)
    rw [hone] at hvalue
    rw [if_pos hone, if_pos (.inl hone), hvalue]
    exact ⟨rfl, rfl⟩
  · by_cases hfour : value.length = 4
    · have hvalue := htake (by omega)
      rw [hfour] at hvalue
      rw [if_neg hone, if_pos hfour, if_pos (.inr hfour), hvalue]
      exact ⟨rfl, rfl⟩
    · rw [if_neg hone, if_neg hfour, if_neg (by simp [hone, hfour])]
      exact ⟨rfl, rfl⟩

/-- All indices but the one of the NUL are small. -/
theorem parseBool_indices (buf : List UInt8) (n : ℕ) (binary : Bool) :
    ∀ i ∈ (parseBool buf n binary).indices, i < boolBufSize + 1 ∨ binary = false ∧ i = n := by
  have hshort : ∀ w ∈ boolWords, w.text.length ≤ 5 := by decide
  intro i hi
  cases binary with
  | true =>
    rw [parseBool, if_pos rfl] at hi
    split_ifs at hi
    all_goals simp [boolBufSize] at hi ⊢
    all_goals omega
  | false =>
    rw [parseBool_false] at hi
    rcases List.mem_cons.mp hi with rfl | hi
    · exact .inr ⟨rfl, rfl⟩
    · have := compareWords_indices hshort hi
      simp only [boolBufSize]
      omega

/-- The buffer of `sysparam_get_bool` behind a read that succeeds. -/
def boolBuf (s : Sys) (ctx : Context) (stack : List UInt8) : List UInt8 :=
  read s.dev.bytes (ctx.addr + entryHeaderSize) boolBufSize ++ stack.drop boolBufSize

theorem take_boolBuf (stack : List UInt8) (hle : ctx.entry.len.toNat ≤ boolBufSize) :
    (boolBuf s ctx stack).take ctx.entry.len.toNat = ctx.value s := by
  rw [boolBuf, List.take_append_of_le_length (by simpa using hle)]
  obtain ⟨m, hm⟩ := Nat.exists_eq_add_of_le hle
  rw [hm, read_add, List.take_left' length_read]
  rfl

variable {stack : List UInt8} (hstack : stack.length = boolBufSize + 1)

include hstack in
theorem LiveValue.getBool (h : LiveValue s key ctx) :
    (sysparamGetBool s key stack).1 =
      if s.dev.accepts (ctx.addr + entryHeaderSize) boolBufSize = true then
        let parsed := parseBool (boolBuf s ctx stack) ctx.entry.len.toNat ctx.entry.isBinary
        { parsed with indices := List.range boolBufSize ++ parsed.indices }
      else ⟨.errIo, none, []⟩ := by
  have hsize : (stack.take boolBufSize).length = boolBufSize := by
    rw [List.length_take]
    omega
  rw [sysparamGetBool, h.getDataStatic, hsize, readPayload, spiflashRead]
  split_ifs with hread haccepts haccepts
  · rfl
  · exact absurd (hread.resolve_left (by decide)) haccepts
  · exact absurd (.inr haccepts) hread
  · rfl

include hstack in
theorem LiveValue.getBool_inBounds (h : LiveValue s key ctx)
    (hcond : ctx.entry.isBinary = true ∨ ctx.entry.len.toNat ≤ boolBufSize) :
    ∀ i ∈ (sysparamGetBool s key stack).1.indices, i < boolBufSize + 1 := by
  intro i hi
  rw [h.getBool hstack] at hi
  split_ifs at hi
  · rcases List.mem_append.mp hi with hi | hi
    · exact Nat.lt_succ_of_lt (List.mem_range.mp hi)
    · rcases parseBool_indices _ _ _ i hi with hlt | ⟨hbinary, rfl⟩
      · exact hlt
      · exact Nat.lt_succ_of_le (hcond.resolve_left (by simp [hbinary]))
  · exact absurd hi List.not_mem_nil

include hstack in
theorem LiveValue.getBool_answers (h : LiveValue s key ctx)
    (hcond : ctx.entry.isBinary = true ∨ ctx.entry.len.toNat ≤ boolBufSize)
    (haccepts : s.dev.accepts (ctx.addr + entryHeaderSize) boolBufSize = true) :
    Answers (sysparamGetBool s key stack).1 (boolOf (ctx.value s) ctx.entry.isBinary) := by
  rw [h.getBool hstack, if_pos haccepts]
  change Answers (parseBool (boolBuf s ctx stack) ctx.entry.len.toNat ctx.entry.isBinary) _
  cases hbinary : ctx.entry.isBinary with
  | true =>
    refine parseBool_binary Context.length_value fun hle => take_boolBuf stack (hle.trans ?_)
    decide
  | false =>
    have hle := hcond.resolve_left (by simp [hbinary])
    rw [← take_boolBuf stack hle]
    refine parseBool_text ?_
    rw [boolBuf, List.length_append, length_read, List.length_drop, hstack]
    omega

include hstack in
/-- `sysparam_get_bool` works for binary values and for texts of up to eight
bytes, if the eight bytes that it reads are inside the chip. -/
theorem get_bool_parses_iff (h : LiveValue s key ctx) :
    ParsesBool s key ctx stack ↔
      (ctx.entry.isBinary = true ∨ ctx.entry.len.toNat ≤ boolBufSize) ∧
        s.dev.accepts (ctx.addr + entryHeaderSize) boolBufSize = true := by
  constructor
  · rintro ⟨hbounds, hparsed⟩
    rw [h.getBool hstack] at hbounds hparsed
    have haccepts : s.dev.accepts (ctx.addr + entryHeaderSize) boolBufSize = true := by
      by_contra hrejected
      rw [if_neg hrejected] at hparsed
      cases hvalue : boolOf (ctx.value s) ctx.entry.isBinary with
      | none | some answer =>
        rw [hvalue] at hparsed
        exact absurd hparsed.1 nofun
    refine ⟨or_iff_not_imp_left.mpr fun hbinary => ?_, haccepts⟩
    -- a text is terminated at the index given by its length
    rw [if_pos haccepts, Bool.eq_false_iff.mpr hbinary, parseBool_false] at hbounds
    exact Nat.le_of_lt_succ (hbounds _ (List.mem_append_right _ List.mem_cons_self))
  · rintro ⟨hcond, haccepts⟩
    exact ⟨h.getBool_inBounds hstack hcond, h.getBool_answers hstack hcond haccepts⟩

/-- A text that fits. -/
theorem get_bool_parses_yes : ∃ ctx,
    LiveValue (textSet (ascii "YES")) (byteKey 0x6B).1 ctx ∧
      ParsesBool (textSet (ascii "YES")) (byteKey 0x6B).1 ctx (List.replicate 9 0) ∧
      boolOf (ctx.value (textSet (ascii "YES"))) ctx.entry.isBinary = some true := by
  have hlive : LiveValue (textSet (ascii "YES")) (byteKey 0x6B).1 (textContext 3) :=
    ⟨by decide +kernel, textKeyContext, by decide +kernel, by decide +kernel⟩
  exact ⟨_, hlive, (get_bool_parses_iff List.length_replicate hlive).mpr
    ⟨.inr (by decide), by decide +kernel⟩, by decide +kernel⟩

/-- A text of nine bytes is terminated behind the end of the buffer. -/
theorem get_bool_writes_past_buffer : ∃ ctx,
    LiveValue (textSet (ascii "yes,maybe")) (byteKey 0x6B).1 ctx ∧ ctx.entry.isBinary = false ∧
      ctx.value (textSet (ascii "yes,maybe")) = ascii "yes,maybe" ∧
      9 ∈ (sysparamGetBool (textSet (ascii "yes,maybe")) (byteKey 0x6B).1
        (List.replicate 9 0)).1.indices ∧
      ¬ParsesBool (textSet (ascii "yes,maybe")) (byteKey 0x6B).1 ctx (List.replicate 9 0) := by
  have hnine : 9 ∈ (sysparamGetBool (textSet (ascii "yes,maybe")) (byteKey 0x6B).1
      (List.replicate 9 0)).1.indices := by decide +kernel
  exact ⟨textContext 9, ⟨by decide +kernel, textKeyContext, by decide +kernel, by decide +kernel⟩,
    by decide, by decide +kernel, hnine, fun hparses =>
      absurd (hparses.inBounds 9 hnine) (by decide)⟩

end Bool

end EspOpenRtos.Sysparam
