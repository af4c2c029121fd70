/-
# Form encoding

The fields of a form are sent as text. A byte of a name or a value stands for
itself, a space is a plus sign, and any byte may be written as an escape of two
hexadecimal digits. A reader with a buffer sees only the start of a text, which
may end in the middle of an escape.
-/

import EspOpenRtos.Math.CStrings

namespace EspOpenRtos.Math.FormEncoding

open CStrings

/-- The bytes that never stand for themselves: NUL, `%`, `&`, `+` and `=`. -/
def reserved : List UInt8 := [0x00, 0x25, 0x26, 0x2B, 0x3D]

/-- The value of a hexadecimal digit. -/
def hexValue (c : UInt8) : UInt8 :=
  let c := tolower c
  if 0x61 ≤ c ∧ c ≤ 0x7A then c - 0x61 + 10 else c - 0x30

abbrev HexDigit := { c : UInt8 // isxdigit c = true }

/-- One byte as it is sent. -/
inductive Sent where
  | literal (b : UInt8) (allowed : b ∉ reserved)
  | plus
  | escape (hi lo : HexDigit)

namespace Sent

/-- The byte that is meant. -/
def byte : Sent → UInt8
  | literal b _ => b
  | plus => 0x20
  | escape hi lo => (hexValue hi.1 <<< 4) + hexValue lo.1

/-- Its text. -/
def text : Sent → List UInt8
  | literal b _ => [b]
  | plus => [0x2B]
  | escape hi lo => [0x25, hi.1, lo.1]

end Sent

/-- The bytes that a text stands for. -/
def bytes (sent : List Sent) : List UInt8 := sent.map Sent.byte

def text (sent : List Sent) : List UInt8 := sent.flatMap Sent.text

/-- A text in which every byte stands for itself. -/
def literals (bs : List UInt8) (allowed : ∀ b ∈ bs, b ∉ reserved) : List Sent :=
  bs.attach.map fun b => .literal b.1 (allowed b.1 b.2)

/-- What the first `n` characters of a text stand for. An escape that is cut stays
as it is. -/
def kept : ℕ → List Sent → List UInt8
  | _, [] => []
  | n, x :: sent =>
    if x.text.length ≤ n then x.byte :: kept (n - x.text.length) sent else x.text.take n

/-! ## Characters of a text -/

section Texts

theorem isxdigit_not_reserved (c : HexDigit) : c.1 ∉ reserved := by
  intro h
  have hc := c.2
  simp only [reserved, List.mem_cons, List.not_mem_nil, or_false] at h
  rcases h with h | h | h | h | h <;> rw [h] at hc <;> exact absurd hc (by decide)

theorem Sent.text_ne {x : Sent} {c : UInt8} (hc : c ∈ x.text) :
    c ≠ 0x00 ∧ c ≠ 0x26 ∧ c ≠ 0x3D := by
  have hplain {b : UInt8} (h : b ∉ reserved) : b ≠ 0x00 ∧ b ≠ 0x26 ∧ b ≠ 0x3D := by
    refine ⟨?_, ?_, ?_⟩ <;> rintro rfl <;> exact h (by decide)
  cases x with
  | literal b allowed =>
    obtain rfl := List.mem_singleton.mp hc
    exact hplain allowed
  | plus =>
    obtain rfl := List.mem_singleton.mp hc
    decide
  | escape hi lo =>
    simp only [text, List.mem_cons, List.not_mem_nil, or_false] at hc
    rcases hc with rfl | rfl | rfl
    · decide
    · exact hplain (isxdigit_not_reserved hi)
    · exact hplain (isxdigit_not_reserved lo)

@[simp]
theorem text_cons (x : Sent) (sent : List Sent) : text (x :: sent) = x.text ++ text sent := rfl

theorem text_ne {sent : List Sent} {c : UInt8} (hc : c ∈ text sent) :
    c ≠ 0x00 ∧ c ≠ 0x26 ∧ c ≠ 0x3D := by
  obtain ⟨x, -, hx⟩ := List.mem_flatMap.mp hc
  exact x.text_ne hx

end Texts

/-! ## Cut texts -/

section Cut

theorem Sent.length_text_le (x : Sent) : x.text.length ≤ 3 := by cases x <;> simp [Sent.text]

theorem length_text_le (sent : List Sent) : (text sent).length ≤ 3 * (bytes sent).length := by
  induction sent with
  | nil => exact Nat.zero_le _
  | cons x sent ih =>
    have hle := x.length_text_le
    rw [text_cons, List.length_append]
    simp only [bytes, List.map_cons, List.length_cons] at ih ⊢
    omega

/-- A text that fits is kept. -/
theorem kept_eq_bytes {n : ℕ} {sent : List Sent} (h : (text sent).length ≤ n) :
    kept n sent = bytes sent := by
  induction sent generalizing n with
  | nil => rfl
  | cons x sent ih =>
    rw [text_cons, List.length_append] at h
    rw [kept, if_pos (by omega), ih (by omega)]
    rfl

/-- The first bytes of a text are kept, at three characters for each. -/
theorem take_kept {n k : ℕ} (sent : List Sent) (hk : 3 * k ≤ n) :
    (kept n sent).take k = (bytes sent).take k := by
  induction sent generalizing n k with
  | nil => rfl
  | cons x sent ih =>
    have hle := x.length_text_le
    cases k with
    | zero => rfl
    | succ k =>
      rw [kept, if_pos (by omega), List.take_succ_cons, ih (by omega)]
      rfl

/-- A short string is recognised however it is written. -/
theorem cstr_kept_eq_iff {n : ℕ} {sent : List Sent} {s : List UInt8}
    (hlen : 3 * (s.length + 1) ≤ n) : cstr (kept n sent) = s ↔ cstr (bytes sent) = s := by
  rw [← cstr_take_eq_iff (Nat.lt_succ_self s.length), take_kept sent hlen,
    cstr_take_eq_iff (Nat.lt_succ_self s.length)]

/-- What is left of a text whose bytes hold no NUL has none either. -/
theorem nul_not_mem_kept {n : ℕ} {sent : List Sent} (h : (0 : UInt8) ∉ bytes sent) :
    (0 : UInt8) ∉ kept n sent := by
  induction sent generalizing n with
  | nil => exact h
  | cons x sent ih =>
    obtain ⟨hbyte, hrest⟩ := not_or.mp (List.mem_cons.not.mp h)
    rw [kept]
    split
    · exact List.mem_cons.not.mpr (not_or.mpr ⟨hbyte, ih hrest⟩)
    · exact fun hmem => (x.text_ne (List.mem_of_mem_take hmem)).1 rfl

end Cut

/-! ## Texts that survive a cut -/

section Survival

/-- The text is whole, or all that is lost is the end of an escaped `%` that the
remaining characters happen to spell. -/
def SurvivesCut (n : ℕ) (sent : List Sent) : Prop :=
  (text sent).length ≤ n ∨
    ∃ pre x post, sent = pre ++ x :: post ∧ x.byte = 0x25 ∧
      (post = [] ∧ (text pre).length + 1 = n ∨ bytes post = [0x32] ∧ (text pre).length + 2 = n)

theorem HexDigit.hexValue_spec (c : HexDigit) :
    (hexValue c.1).toNat < 16 ∧ ((hexValue c.1).toNat = 2 → c.1 = 0x32) := by
  have hall : ∀ n < 256, isxdigit (UInt8.ofNat n) = true →
      (hexValue (UInt8.ofNat n)).toNat < 16 ∧
        ((hexValue (UInt8.ofNat n)).toNat = 2 → UInt8.ofNat n = 0x32) := by decide +kernel
  have hc := hall c.1.toNat c.1.toNat_lt
  rw [UInt8.ofNat_toNat] at hc
  exact hc c.2

theorem hexValue_percent {hi lo : HexDigit} (h : (Sent.escape hi lo).byte = 0x25) :
    hi.1 = 0x32 := by
  have hall : ∀ a < 16, ∀ b < 16, (UInt8.ofNat a <<< 4) + UInt8.ofNat b = 0x25 → a = 2 := by
    decide +kernel
  obtain ⟨hlt, htwo⟩ := hi.hexValue_spec
  refine htwo (hall _ hlt _ lo.hexValue_spec.1 ?_)
  rw [UInt8.ofNat_toNat, UInt8.ofNat_toNat]
  exact h

/-- The byte `%` is always sent as an escape. -/
theorem Sent.text_percent {x : Sent} (h : x.byte = 0x25) :
    ∃ lo, x.text = [0x25, 0x32, lo] := by
  cases x with
  | literal b allowed =>
    obtain rfl : b = 0x25 := h
    exact absurd (by decide) allowed
  | plus => exact absurd h (by decide)
  | escape hi lo => exact ⟨lo.1, by rw [text, hexValue_percent h]⟩

theorem take_text_eq_iff {n : ℕ} {x : Sent} {rest : List UInt8} (hcut : n < x.text.length) :
    x.text.take n = x.byte :: rest ↔
      x.byte = 0x25 ∧ (rest = [] ∧ n = 1 ∨ rest = [0x32] ∧ n = 2) := by
  constructor
  · intro h
    cases x with
    | literal b allowed | plus =>
      obtain rfl : n = 0 := by simpa [Sent.text] using hcut
      simp at h
    | escape hi lo =>
      have hn : n < 3 := hcut
      interval_cases n
      · simp at h
      · obtain ⟨hbyte, hrest⟩ := List.cons.inj h
        exact ⟨hbyte.symm, .inl ⟨hrest.symm, rfl⟩⟩
      · obtain ⟨hbyte, hrest⟩ := List.cons.inj h
        refine ⟨hbyte.symm, .inr ⟨?_, rfl⟩⟩
        rw [← hrest, ← hexValue_percent hbyte.symm]
        rfl
  · rintro ⟨hbyte, hrest⟩
    obtain ⟨lo, htext⟩ := x.text_percent hbyte
    rcases hrest with ⟨rfl, rfl⟩ | ⟨rfl, rfl⟩ <;> rw [htext, hbyte] <;> rfl

theorem survivesCut_cons {n : ℕ} {x : Sent} {sent : List Sent} (hfits : x.text.length ≤ n) :
    SurvivesCut n (x :: sent) ↔ SurvivesCut (n - x.text.length) sent := by
  unfold SurvivesCut
  rw [text_cons, List.length_append]
  refine or_congr (by omega) ⟨?_, ?_⟩
  · rintro ⟨pre, y, post, hsplit, hbyte, hpost⟩
    cases pre with
    | nil =>
      obtain ⟨rfl, rfl⟩ := List.cons.inj hsplit
      obtain ⟨lo, htext⟩ := x.text_percent hbyte
      rw [htext] at hfits
      simp [text] at hfits hpost
      omega
    | cons z pre =>
      obtain ⟨rfl, rfl⟩ := List.cons.inj hsplit
      refine ⟨pre, y, post, rfl, hbyte, ?_⟩
      simp only [text_cons, List.length_append] at hpost
      exact hpost.imp (And.imp_right (by omega)) (And.imp_right (by omega))
  · rintro ⟨pre, y, post, rfl, hbyte, hpost⟩
    refine ⟨x :: pre, y, post, rfl, hbyte, ?_⟩
    simp only [text_cons, List.length_append]
    exact hpost.imp (And.imp_right (by omega)) (And.imp_right (by omega))

theorem survivesCut_cut {n : ℕ} {x : Sent} {sent : List Sent} (hcut : n < x.text.length) :
    SurvivesCut n (x :: sent) ↔
      x.byte = 0x25 ∧ (bytes sent = [] ∧ n = 1 ∨ bytes sent = [0x32] ∧ n = 2) := by
  unfold SurvivesCut
  rw [text_cons, List.length_append, or_iff_right (by omega)]
  constructor
  · rintro ⟨pre, y, post, hsplit, hbyte, hpost⟩
    cases pre with
    | nil =>
      obtain ⟨rfl, rfl⟩ := List.cons.inj hsplit
      refine ⟨hbyte, hpost.imp ?_ ?_⟩
      · rintro ⟨rfl, hn⟩
        exact ⟨rfl, hn.symm⟩
      · exact fun h => ⟨h.1, h.2.symm⟩
    | cons z pre =>
      obtain ⟨rfl, rfl⟩ := List.cons.inj hsplit
      rw [text_cons, List.length_append] at hpost
      omega
  · rintro ⟨hbyte, hpost⟩
    refine ⟨[], x, sent, rfl, hbyte, hpost.imp ?_ ?_⟩
    · exact fun h => ⟨List.map_eq_nil_iff.mp h.1, h.2.symm⟩
    · exact fun h => ⟨h.1, h.2.symm⟩

/-- A cut text stands for the same bytes exactly if it survives the cut. -/
theorem kept_eq_bytes_iff {n : ℕ} {sent : List Sent} :
    kept n sent = bytes sent ↔ SurvivesCut n sent := by
  induction sent generalizing n with
  | nil => exact iff_of_true rfl (.inl (Nat.zero_le n))
  | cons x sent ih =>
    rw [kept]
    split
    · next hfits =>
      rw [survivesCut_cons hfits, ← ih]
      exact List.cons_inj_right x.byte
    · next hcut =>
      rw [survivesCut_cut (by omega)]
      exact take_text_eq_iff (by omega)

end Survival

end EspOpenRtos.Math.FormEncoding
