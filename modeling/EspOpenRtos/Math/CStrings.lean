/-
# C strings

The parts of the C library that programs for small devices use on strings and
characters. A string is the list of its bytes before the NUL.
-/

import Mathlib.Data.List.TakeWhile
import Mathlib.Data.Nat.Digits.Lemmas

namespace EspOpenRtos.Math.CStrings

/-- A C string, without its NUL. -/
abbrev CString := { s : List UInt8 // (0 : UInt8) ∉ s }

def CString.append (s t : CString) : CString := ⟨s.1 ++ t.1, by simp [s.2, t.2]⟩

/-- The bytes of a string literal. -/
def ascii (s : String) : List UInt8 := s.toList.map fun c => UInt8.ofNat c.toNat

/-- The string at the start of a buffer. -/
def cstr (buf : List UInt8) : List UInt8 := buf.takeWhile (· ≠ 0)

/-- `strtok_r`: the next token, and what follows the delimiter at its end. -/
def strtok (delim : List UInt8) (s : List UInt8) : Option (List UInt8 × List UInt8) :=
  match s.dropWhile (· ∈ delim) with
  | [] => none
  | t => some (t.takeWhile (· ∉ delim), (t.dropWhile (· ∉ delim)).drop 1)

/-- `strstr`: where the first string starts for the first time in the second one. -/
def strstr (needle : List UInt8) : List UInt8 → Option ℕ
  | [] => if needle = [] then some 0 else none
  | c :: rest => if needle <+: c :: rest then some 0 else (strstr needle rest).map (· + 1)

/-! ## Characters -/

/-- `tolower` of the C locale. -/
def tolower (c : UInt8) : UInt8 := if 0x41 ≤ c ∧ c ≤ 0x5A then c + 0x20 else c

def isspace (c : UInt8) : Bool := c == 0x20 || (0x09 ≤ c && c ≤ 0x0D)

def isdigit (c : UInt8) : Bool := 0x30 ≤ c && c ≤ 0x39

def isxdigit (c : UInt8) : Bool := isdigit c || (0x61 ≤ tolower c && tolower c ≤ 0x66)

/-- Lowering does not touch the characters below the letters, and gives none of
them for a letter. -/
theorem tolower_eq_iff {c d : UInt8} (hd : d < 0x41) : tolower c = d ↔ c = d := by
  have hlow : d.toNat < 0x41 := UInt8.lt_iff_toNat_lt.mp hd
  unfold tolower
  split
  · next hc =>
      have h1 : 0x41 ≤ c.toNat := UInt8.le_iff_toNat_le.mp hc.1
      have h2 : c.toNat ≤ 0x5A := UInt8.le_iff_toNat_le.mp hc.2
      have hsum : (c + 0x20).toNat = c.toNat + 0x20 := by
        rw [UInt8.toNat_add]
        exact Nat.mod_eq_of_lt (by simp; omega)
      rw [← UInt8.toNat_inj, ← UInt8.toNat_inj, hsum]
      omega
  · rfl

theorem map_tolower_eq_iff {s t : List UInt8} (ht : ∀ d ∈ t, d < 0x41) : s.map tolower = t ↔ s = t := by
  induction s generalizing t with
  | nil => simp
  | cons c s ih =>
    cases t with
    | nil => simp
    | cons d t =>
      rw [List.forall_mem_cons] at ht
      rw [List.map_cons, List.cons.injEq, List.cons.injEq, tolower_eq_iff ht.1, ih ht.2]

/-! ## Numbers -/

/-- The number that a list of digit characters denotes. -/
def digitsValue (digits : List UInt8) : ℕ :=
  digits.foldl (fun n c => n * 10 + (c.toNat - 0x30)) 0

/-- The sign of a number, if it is negative, and what follows. -/
def takeSign : List UInt8 → Bool × List UInt8
  | 0x2D :: s => (true, s)
  | 0x2B :: s => (false, s)
  | s => (false, s)

/-- `strtoul` in base 10 with a 32-bit `unsigned long`. A number that is too large
gives the largest one, and a minus sign negates the result. -/
def strtoul (s : List UInt8) : ℕ :=
  let (negative, s) := takeSign (s.dropWhile isspace)
  let n := digitsValue (s.takeWhile isdigit)
  if n ≥ 2 ^ 32 then 2 ^ 32 - 1
  else if negative then (2 ^ 32 - n) % 2 ^ 32
  else n

/-- The value of a hexadecimal digit. -/
def xdigitValue (c : UInt8) : ℕ := if isdigit c then c.toNat - 0x30 else (tolower c).toNat - 0x57

/-- What follows the mark of a hexadecimal number. -/
def dropMark : List UInt8 → List UInt8
  | 0x30 :: x :: s => if tolower x = 0x78 then s else 0x30 :: x :: s
  | s => s

/-- `strtol` in base 16 with a 32-bit `long`. A number that is too large gives the largest
one, or the smallest behind a minus sign. -/
def strtol16 (s : List UInt8) : ℤ :=
  let (negative, s) := takeSign (s.dropWhile isspace)
  let n := ((dropMark s).takeWhile isxdigit).foldl (fun n c => n * 16 + xdigitValue c) 0
  if negative then max (-n) (-2 ^ 31) else min n (2 ^ 31 - 1)

/-- The decimal notation of a number. -/
def numeral (n : ℕ) : List UInt8 :=
  if n = 0 then [0x30] else (Nat.digits 10 n).reverse.map fun d => UInt8.ofNat (d + 0x30)

/-- A hexadecimal digit in lower case. -/
def hexDigit (d : ℕ) : UInt8 := UInt8.ofNat (if d < 10 then 0x30 + d else 0x61 + d - 10)

/-- The hexadecimal notation of a number. -/
def hexNumeral (n : ℕ) : List UInt8 :=
  if n = 0 then [0x30] else (Nat.digits 16 n).reverse.map hexDigit

/-! ## Strings in buffers -/

section Buffers

theorem cstr_of_not_mem {s : List UInt8} (h : (0 : UInt8) ∉ s) : cstr s = s := by
  rw [cstr, List.takeWhile_eq_self_iff]
  intro c hc
  simpa using ne_of_mem_of_not_mem hc h

theorem not_mem_cstr (s : List UInt8) : (0 : UInt8) ∉ cstr s := fun h => by
  simpa using List.mem_takeWhile_imp h

theorem cstr_append_nul (s t : List UInt8) : cstr (s ++ 0 :: t) = cstr s := by
  rw [cstr, cstr, List.takeWhile_append]
  split
  · next hall =>
      rw [List.takeWhile_cons_of_neg (by decide), List.append_nil,
        (List.takeWhile_prefix _).eq_of_length hall]
  · rfl

theorem cstr_append_of_not_mem {s : List UInt8} (h : (0 : UInt8) ∉ s) (t : List UInt8) :
    cstr (s ++ t) = s ++ cstr t :=
  List.takeWhile_append_of_pos fun c hc => by simpa using ne_of_mem_of_not_mem hc h

theorem exists_eq_cstr_append {s : List UInt8} (h : (0 : UInt8) ∈ s) :
    ∃ rest, s = cstr s ++ 0 :: rest := by
  obtain ⟨before, after, rfl, hbefore⟩ := List.eq_append_cons_of_mem h
  exact ⟨after, by rw [cstr_append_nul, cstr_of_not_mem hbefore]⟩

theorem getElem?_length_cstr {s : List UInt8} (h : (0 : UInt8) ∈ s) :
    s[(cstr s).length]? = some 0 := by
  obtain ⟨before, after, rfl, hbefore⟩ := List.eq_append_cons_of_mem h
  rw [cstr_append_nul, cstr_of_not_mem hbefore]
  simp

theorem take_cstr (n : ℕ) (s : List UInt8) : cstr (s.take n) = (cstr s).take n := by
  induction n generalizing s with
  | zero => rfl
  | succ n ih =>
    cases s with
    | nil => rfl
    | cons c s =>
      have hrest := ih s
      by_cases hc : c = 0
      · simp [cstr, hc]
      · simpa [cstr, hc] using hrest

/-- A NUL ends the string. -/
theorem cstr_set_zero {n : ℕ} {s : List UInt8} (h : n < s.length) :
    cstr (s.set n 0) = cstr (s.take n) := by
  induction s generalizing n with
  | nil => exact absurd h (Nat.not_lt_zero n)
  | cons c s ih =>
    cases n with
    | zero => simp [cstr]
    | succ n =>
      have hrest := ih (Nat.lt_of_succ_lt_succ h)
      by_cases hc : c = 0
      · simp [cstr, hc]
      · simpa [cstr, hc] using hrest

/-- Whether a buffer holds a short string is seen in its first bytes. -/
theorem cstr_take_eq_iff {n : ℕ} {s t : List UInt8} (hlt : t.length < n) :
    cstr (s.take n) = t ↔ cstr s = t := by
  rw [take_cstr]
  constructor
  · intro h
    have hlen : (cstr s).length < n := by
      have := congrArg List.length h
      rw [List.length_take] at this
      omega
    rwa [List.take_of_length_le hlen.le] at h
  · rintro rfl
    exact List.take_of_length_le hlt.le

/-- Delimiters in front of a token are skipped. -/
theorem strtok_cons_delim {delim : List UInt8} {d : UInt8} (hd : d ∈ delim) (s : List UInt8) :
    strtok delim (d :: s) = strtok delim s := by
  rw [strtok, List.dropWhile_cons_of_pos (by simpa using hd), strtok]

/-- The token that starts a string reaches to the first delimiter. -/
theorem strtok_append {delim start : List UInt8} (hne : start ≠ []) (hfree : ∀ c ∈ start, c ∉ delim)
    (rest : List UInt8) :
    strtok delim (start ++ rest) =
      some (start ++ rest.takeWhile (· ∉ delim), (rest.dropWhile (· ∉ delim)).drop 1) := by
  obtain ⟨c, s, rfl⟩ := List.exists_cons_of_ne_nil hne
  have hall : ∀ x ∈ c :: s, decide (x ∉ delim) = true := fun x hx => decide_eq_true (hfree x hx)
  have hskip : (c :: s ++ rest).dropWhile (· ∈ delim) = c :: s ++ rest :=
    List.dropWhile_cons_of_neg (by simpa using hfree c List.mem_cons_self)
  rw [strtok, hskip]
  simp only [List.cons_append]
  rw [← List.cons_append, List.takeWhile_append_of_pos hall, List.dropWhile_append_of_pos hall]
  rfl

/-- A token is what stands before the first delimiter. -/
theorem strtok_token {delim token : List UInt8} {d : UInt8} (hne : token ≠ [])
    (hfree : ∀ c ∈ token, c ∉ delim) (hd : d ∈ delim) (rest : List UInt8) :
    strtok delim (token ++ d :: rest) = some (token, rest) := by
  have hstop : ¬decide (d ∉ delim) = true := by simpa using hd
  rw [strtok_append hne hfree, List.takeWhile_cons_of_neg (by exact hstop), List.append_nil,
    List.dropWhile_cons_of_neg (by exact hstop), List.drop_one, List.tail_cons]

/-- A token and what follows it are parts of the string. -/
theorem length_of_strtok {delim s token rest : List UInt8}
    (h : strtok delim s = some (token, rest)) :
    token.length ≤ s.length ∧ rest.length < s.length := by
  rw [strtok] at h
  cases ht : s.dropWhile (· ∈ delim) with
  | nil =>
    rw [ht] at h
    nomatch h
  | cons c t =>
    rw [ht] at h
    obtain ⟨rfl, rfl⟩ := Prod.mk.inj (Option.some.inj h)
    have hle : (c :: t).length ≤ s.length := ht ▸ (List.dropWhile_sublist _).length_le
    have hdrop := (List.dropWhile_sublist (l := c :: t) fun x => decide (x ∉ delim)).length_le
    refine ⟨(List.takeWhile_sublist _).length_le.trans hle, ?_⟩
    rw [List.length_drop]
    rw [List.length_cons] at hle hdrop
    omega

theorem strstr_cons_of_not {needle : List UInt8} {c : UInt8} {rest : List UInt8}
    (h : ¬needle <+: c :: rest) :
    strstr needle (c :: rest) = (strstr needle rest).map (· + 1) := if_neg h

/-- A string that starts with the one that is looked for. -/
theorem strstr_append_self (needle s : List UInt8) : strstr needle (needle ++ s) = some 0 := by
  cases hs : needle ++ s with
  | nil => exact if_pos (List.append_eq_nil_iff.mp hs).1
  | cons c rest => exact if_pos (hs ▸ List.prefix_append needle s)

/-- Characters other than the first one are skipped. -/
theorem strstr_skip {d : UInt8} {needle start : List UInt8} (h : d ∉ start) (s : List UInt8) :
    strstr (d :: needle) (start ++ s) = (strstr (d :: needle) s).map (· + start.length) := by
  induction start with
  | nil => simp
  | cons c start ih =>
    rw [List.mem_cons, not_or] at h
    obtain ⟨hc, hstart⟩ := h
    have hnot : ¬d :: needle <+: c :: (start ++ s) := fun hprefix =>
      hc (List.cons_prefix_cons.mp hprefix).1
    rw [List.cons_append, strstr_cons_of_not hnot, ih hstart, Option.map_map, List.length_cons]
    rfl

theorem prefix_of_strstr {needle s : List UInt8} {p : ℕ} (h : strstr needle s = some p) :
    needle <+: s.drop p := by
  induction s generalizing p with
  | nil =>
    rw [strstr] at h
    split at h
    · next hnil => exact hnil ▸ List.nil_prefix
    · nomatch h
  | cons c rest ih =>
    rw [strstr] at h
    split at h
    · next hprefix =>
        obtain rfl := Option.some.inj h
        exact hprefix
    · obtain ⟨q, hq, rfl⟩ := Option.map_eq_some_iff.mp h
      exact ih hq

/-- What stands somewhere is found there or earlier. -/
theorem strstr_of_prefix {needle s : List UInt8} {p : ℕ} (h : needle <+: s.drop p) :
    ∃ q ≤ p, strstr needle s = some q := by
  induction s generalizing p with
  | nil =>
    rw [List.drop_nil, List.prefix_nil] at h
    exact ⟨0, Nat.zero_le p, if_pos h⟩
  | cons c rest ih =>
    rw [strstr]
    split
    · exact ⟨0, Nat.zero_le p, rfl⟩
    · next hnot =>
        cases p with
        | zero => exact absurd h hnot
        | succ p =>
          obtain ⟨q, hle, hq⟩ := ih h
          exact ⟨q + 1, Nat.succ_le_succ hle, by rw [hq]; rfl⟩

end Buffers

/-! ## Reading numerals back -/

section Numerals

theorem digitsValue_append_singleton (ds : List UInt8) (c : UInt8) :
    digitsValue (ds ++ [c]) = digitsValue ds * 10 + (c.toNat - 0x30) := by
  simp [digitsValue]

theorem digitsValue_reverse_digits (ds : List ℕ) (hlt : ∀ d ∈ ds, d < 10) :
    digitsValue (ds.reverse.map fun d => UInt8.ofNat (d + 0x30)) = Nat.ofDigits 10 ds := by
  induction ds with
  | nil => rfl
  | cons d ds ih =>
    have hd := hlt d List.mem_cons_self
    have hto : (UInt8.ofNat (d + 0x30)).toNat - 0x30 = d := by
      rw [UInt8.toNat_ofNat']
      omega
    rw [List.reverse_cons, List.map_append, List.map_singleton, digitsValue_append_singleton,
      ih fun x hx => hlt x (List.mem_cons_of_mem d hx), hto, Nat.ofDigits_cons]
    omega

theorem digitsValue_numeral (n : ℕ) : digitsValue (numeral n) = n := by
  unfold numeral
  split
  · next h => subst h; rfl
  · rw [digitsValue_reverse_digits _ fun d hd => Nat.digits_lt_base (by decide) hd,
      Nat.ofDigits_digits]

theorem isdigit_of_mem_numeral {n : ℕ} {c : UInt8} (h : c ∈ numeral n) : isdigit c = true := by
  unfold numeral at h
  split at h
  · rw [List.mem_singleton.mp h]
    rfl
  · obtain ⟨d, hd, rfl⟩ := List.mem_map.mp h
    have hlt : d < 10 := Nat.digits_lt_base (by decide) (List.mem_reverse.mp hd)
    revert hlt
    generalize d = k
    clear hd
    revert k
    decide

theorem numeral_ne_nil (n : ℕ) : numeral n ≠ [] := by
  unfold numeral
  split
  · simp
  · next h => simpa [Nat.digits_eq_nil_iff_eq_zero] using h

theorem ne_sign_of_isdigit {c : UInt8} (h : isdigit c = true) :
    isspace c = false ∧ c ≠ 0x2D ∧ c ≠ 0x2B := by
  simp only [isdigit, Bool.and_eq_true, decide_eq_true_eq, UInt8.le_iff_toNat_le] at h
  have hlow : 0x30 ≤ c.toNat := h.1
  refine ⟨?_, ?_, ?_⟩
  · simp [isspace, UInt8.le_iff_toNat_le, ← UInt8.toNat_inj]
    omega
  · rintro rfl
    exact absurd hlow (by decide)
  · rintro rfl
    exact absurd hlow (by decide)

theorem takeSign_cons {c : UInt8} (hminus : c ≠ 0x2D) (hplus : c ≠ 0x2B) (s : List UInt8) :
    takeSign (c :: s) = (false, c :: s) := by
  unfold takeSign
  split
  · next h => exact absurd (List.cons.inj h).1 hminus
  · next h => exact absurd (List.cons.inj h).1 hplus
  · rfl

/-- A string that starts with a digit is read up to the first other character. -/
theorem strtoul_of_isdigit {c : UInt8} (h : isdigit c = true) (rest : List UInt8) :
    strtoul (c :: rest) = min (digitsValue ((c :: rest).takeWhile isdigit)) (2 ^ 32 - 1) := by
  obtain ⟨hspace, hminus, hplus⟩ := ne_sign_of_isdigit h
  unfold strtoul
  rw [List.dropWhile_cons_of_neg (by simp [hspace]), takeSign_cons hminus hplus]
  simp only [Bool.false_eq_true, ↓reduceIte]
  split <;> omega

/-- A hexadecimal digit is none of the characters that `strtol` skips. -/
theorem ne_sign_of_isxdigit {c : UInt8} (h : isxdigit c = true) :
    isspace c = false ∧ c ≠ 0x2D ∧ c ≠ 0x2B ∧ tolower c ≠ 0x78 := by
  have hall : ∀ i < 256, isxdigit (.ofNat i) = true → isspace (.ofNat i) = false ∧
      UInt8.ofNat i ≠ 0x2D ∧ UInt8.ofNat i ≠ 0x2B ∧ tolower (.ofNat i) ≠ 0x78 := by decide +kernel
  have hthis := hall c.toNat c.toNat_lt
  rw [UInt8.ofNat_toNat] at hthis
  exact hthis h

theorem takeSign_of_isxdigit {s : List UInt8} (h : ∀ c ∈ s, isxdigit c = true) :
    takeSign s = (false, s) := by
  cases s with
  | nil => rfl
  | cons c s =>
    obtain ⟨-, hminus, hplus, -⟩ := ne_sign_of_isxdigit (h c List.mem_cons_self)
    exact takeSign_cons hminus hplus s

theorem dropMark_of_isxdigit {s : List UInt8} (h : ∀ c ∈ s, isxdigit c = true) : dropMark s = s := by
  unfold dropMark
  split
  · exact if_neg (ne_sign_of_isxdigit (h _ (List.mem_cons_of_mem _ List.mem_cons_self))).2.2.2
  · rfl

/-- Hexadecimal digits alone are all read. -/
theorem strtol16_of_isxdigit {s : List UInt8} (h : ∀ c ∈ s, isxdigit c = true) :
    strtol16 s = min ((s.foldl (fun n c => n * 16 + xdigitValue c) 0 : ℕ) : ℤ) (2 ^ 31 - 1) := by
  have hspace : s.dropWhile isspace = s := by
    cases s with
    | nil => rfl
    | cons c s =>
      exact List.dropWhile_cons_of_neg (by simp [(ne_sign_of_isxdigit (h c List.mem_cons_self)).1])
  simp only [strtol16, hspace, takeSign_of_isxdigit h, dropMark_of_isxdigit h,
    List.takeWhile_eq_self_iff.mpr h, Bool.false_eq_true, ↓reduceIte]

theorem strtoul_numeral (n : ℕ) : strtoul (numeral n) = min n (2 ^ 32 - 1) := by
  have hvalue := digitsValue_numeral n
  have hall : ∀ c ∈ numeral n, isdigit c = true := fun c => isdigit_of_mem_numeral
  obtain ⟨c, rest, hcons⟩ := List.exists_cons_of_ne_nil (numeral_ne_nil n)
  rw [hcons] at hvalue hall ⊢
  rw [strtoul_of_isdigit (hall c List.mem_cons_self), List.takeWhile_eq_self_iff.mpr hall, hvalue]

theorem digitsValue_append (ds es : List UInt8) :
    digitsValue (ds ++ es) = digitsValue ds * 10 ^ es.length + digitsValue es := by
  induction es using List.reverseRecOn with
  | nil => simp [digitsValue]
  | append_singleton es c ih =>
    rw [← List.append_assoc, digitsValue_append_singleton, ih, digitsValue_append_singleton,
      List.length_append, List.length_singleton, pow_succ]
    ring

theorem digitsValue_lt {ds : List UInt8} (h : ∀ c ∈ ds, isdigit c = true) :
    digitsValue ds < 10 ^ ds.length := by
  induction ds using List.reverseRecOn with
  | nil => exact Nat.one_pos
  | append_singleton ds c ih =>
    have hc := h c (by simp)
    have hds := ih fun x hx => h x (List.mem_append_left _ hx)
    simp only [isdigit, Bool.and_eq_true, decide_eq_true_eq, UInt8.le_iff_toNat_le] at hc
    have hle : c.toNat ≤ 0x39 := hc.2
    rw [digitsValue_append_singleton, List.length_append, List.length_singleton, pow_succ]
    omega

theorem length_numeral {n : ℕ} (hn : n ≠ 0) : (numeral n).length = (Nat.digits 10 n).length := by
  rw [numeral, if_neg hn, List.length_map, List.length_reverse]

/-- However a long numeral is cut, what is left of it is still too large. -/
theorem strtoul_long {n : ℕ} {s : List UInt8} (hlong : 17 < (numeral n).length)
    (hs : s.take 17 = (numeral n).take 17) : strtoul s = 2 ^ 32 - 1 := by
  have hall : ∀ c ∈ numeral n, isdigit c = true := fun c => isdigit_of_mem_numeral
  have hn : n ≠ 0 := by
    rintro rfl
    exact absurd hlong (by decide)
  obtain ⟨m, hm⟩ : ∃ m, ((numeral n).drop 17).length = m := ⟨_, rfl⟩
  have hlen : (numeral n).length = 17 + m := by
    rw [List.length_drop] at hm
    omega
  -- the first digits are worth at least 10 ^ 16
  have hlarge : 10 ^ 16 ≤ digitsValue ((numeral n).take 17) := by
    have hsplit := digitsValue_append ((numeral n).take 17) ((numeral n).drop 17)
    have hrest : digitsValue ((numeral n).drop 17) < 10 ^ m :=
      hm ▸ digitsValue_lt fun c hc => hall c (List.mem_of_mem_drop hc)
    have hge : 10 ^ (17 + m) ≤ 10 * n := by
      rw [← hlen, length_numeral hn]
      exact Nat.base_pow_length_digits_le 10 n (by decide) hn
    rw [List.take_append_drop, digitsValue_numeral, hm] at hsplit
    by_contra hsmall
    have hle : digitsValue ((numeral n).take 17) + 1 ≤ 10 ^ 16 := by omega
    have hmul := Nat.mul_le_mul_right (10 ^ m) hle
    rw [Nat.succ_mul] at hmul
    rw [pow_add] at hge
    omega
  have hdigits : ∀ c ∈ s.take 17, isdigit c = true := fun c hc =>
    hall c (List.mem_of_mem_take (hs ▸ hc))
  have hread : (s.takeWhile isdigit) = s.take 17 ++ (s.drop 17).takeWhile isdigit := by
    conv_lhs => rw [← List.take_append_drop 17 s]
    exact List.takeWhile_append_of_pos hdigits
  cases s with
  | nil =>
    have := congrArg List.length hs
    rw [List.length_take] at this
    simp at this
    omega
  | cons c rest =>
    rw [strtoul_of_isdigit (hdigits c (by simp)), hread, digitsValue_append, hs]
    have hpow : 1 ≤ 10 ^ ((List.drop 17 (c :: rest)).takeWhile isdigit).length :=
      Nat.one_le_pow _ _ (by decide)
    have hmul := Nat.mul_le_mul hlarge hpow
    omega

end Numerals

/-! ## Hexadecimal notation -/

section HexNumerals

variable {n : ℕ}

theorem hexNumeral_of_pos (h : 0 < n) :
    hexNumeral n = (Nat.digits 16 n).reverse.map hexDigit := if_neg h.ne'

theorem hexNumeral_one_digit (h : 0 < n) (hlt : n < 16) : hexNumeral n = [hexDigit n] := by
  rw [hexNumeral_of_pos h, Nat.digits_of_lt 16 n h.ne' hlt]
  rfl

theorem hexNumeral_two_digits (h : 16 ≤ n) (hlt : n < 256) :
    hexNumeral n = [hexDigit (n / 16), hexDigit (n % 16)] := by
  rw [hexNumeral_of_pos (by omega), Nat.digits_def' (by decide) (by omega),
    Nat.digits_of_lt 16 (n / 16) (by omega) (by omega)]
  rfl

theorem length_hexNumeral_le_iff (h : 0 < n) (k : ℕ) :
    (hexNumeral n).length ≤ k ↔ n < 16 ^ k := by
  rw [hexNumeral_of_pos h, List.length_map, List.length_reverse, Nat.digits_length_le_iff (by decide)]

end HexNumerals

end EspOpenRtos.Math.CStrings
