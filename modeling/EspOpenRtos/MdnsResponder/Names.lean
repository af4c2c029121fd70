/-
# Names

A name has two forms: a C string in which every label is followed by a dot, and
the label sequence of a DNS message, in which every label is preceded by its
length and a zero ends the sequence. The responder stores the keys of its records
in the first form and the names in their data in the second.

`mdns_str2labels` stores each label behind a byte that holds its length, whatever the
length is. It never leaves its buffer and returns how much it has stored.
-/

import EspOpenRtos.Math.DnsMessages
import Mathlib.Data.List.TakeWhile

namespace EspOpenRtos.MdnsResponder

open Math.DnsMessages (encodeName ValidName)

/-- The separator of labels in a C string. -/
def dot : UInt8 := 0x2E

/-! ## What is stored -/

/-- What `mdns_str2labels` has stored when it returns, and its result. -/
structure Packed where
  stored : List UInt8
  result : ℕ

/-- The loop of `mdns_str2labels`. `lc` is the length so far. -/
def str2labelsFrom (max lc : ℕ) (name : List UInt8) : Packed :=
  let label := name.takeWhile (· ≠ dot)
  let n := label.length
  -- what has been stored before stays in the buffer
  if lc + 1 + n > max then ⟨[], 0⟩
  else if _hempty : n = 0 then ⟨[0], lc + 1⟩
  else
    -- skip the label and the dot behind it
    let rest := str2labelsFrom max (lc + 1 + n) ((name.drop n).drop 1)
    ⟨UInt8.ofNat n :: label ++ rest.stored, rest.result⟩
termination_by name.length
decreasing_by
  have hle : label.length ≤ name.length := (List.takeWhile_sublist _).length_le
  simp only [List.length_drop]
  omega

/-- `mdns_str2labels`. -/
def str2labels (name : List UInt8) (max : ℕ) : Packed := str2labelsFrom max 0 name

/-! ## Names -/

/-- Labels as text, each with a dot behind it. -/
def dottedName : List (List UInt8) → List UInt8
  | [] => []
  | l :: labels => l ++ dot :: dottedName labels

/-- A string spells a name. The last dot may be left out. -/
def Spells (name : List UInt8) (labels : List (List UInt8)) : Prop :=
  name = dottedName labels ∨ name ++ [dot] = dottedName labels

/-- The labels can be told apart in a string. -/
def Separable (labels : List (List UInt8)) : Prop := ∀ l ∈ labels, l ≠ [] ∧ dot ∉ l

instance (labels : List (List UInt8)) : Decidable (Separable labels) :=
  inferInstanceAs (Decidable (∀ l ∈ labels, l ≠ [] ∧ dot ∉ l))

section Names

variable {name l rest : List UInt8} {labels : List (List UInt8)}

theorem length_encodeName (labels : List (List UInt8)) :
    (encodeName labels).length = (dottedName labels).length + 1 := by
  induction labels with
  | nil => rfl
  | cons l labels ih => simp [encodeName, dottedName, ih]

theorem length_encodeName_cons (l : List UInt8) (labels : List (List UInt8)) :
    (encodeName (l :: labels)).length = 1 + l.length + (encodeName labels).length := by
  simp only [encodeName, List.cons_append, List.length_cons, List.length_append]
  omega

theorem length_lt_length_encodeName (labels : List (List UInt8)) :
    labels.length < (encodeName labels).length := by
  induction labels with
  | nil => exact Nat.one_pos
  | cons l labels ih =>
    rw [length_encodeName_cons, List.length_cons]
    omega

/-- The first label of a string, and what spells the others. -/
theorem Spells.cons (h : Spells name (l :: labels)) :
    ∃ rest, (name = l ++ dot :: rest ∨ name = l ∧ rest = []) ∧ Spells rest labels := by
  rw [Spells, dottedName] at h
  rcases h with rfl | hundotted
  · exact ⟨_, .inl rfl, .inl rfl⟩
  · rcases List.eq_nil_or_concat (dottedName labels) with hnil | ⟨front, last, hfront⟩
    · rw [hnil] at hundotted
      exact ⟨[], .inr ⟨List.append_cancel_right hundotted, rfl⟩, .inl hnil.symm⟩
    · rw [hfront, List.concat_eq_append, ← List.cons_append, ← List.append_assoc] at hundotted
      obtain ⟨hname, hlast⟩ := List.append_inj' hundotted rfl
      obtain rfl := List.head_eq_of_cons_eq hlast
      exact ⟨front, .inl hname, .inr (by rw [hfront, List.concat_eq_append])⟩

/-- Packing the first label. -/
theorem str2labelsFrom_label (max lc : ℕ) (hne : l ≠ []) (hfree : dot ∉ l)
    (hname : name = l ++ dot :: rest ∨ name = l ∧ rest = []) :
    str2labelsFrom max lc name =
      if lc + 1 + l.length > max then ⟨[], 0⟩
      else ⟨UInt8.ofNat l.length :: l ++ (str2labelsFrom max (lc + 1 + l.length) rest).stored,
        (str2labelsFrom max (lc + 1 + l.length) rest).result⟩ := by
  have hall : ∀ x ∈ l, decide (x ≠ dot) = true := fun x hx =>
    decide_eq_true (ne_of_mem_of_not_mem hx hfree)
  have htake : name.takeWhile (· ≠ dot) = l := by
    rcases hname with rfl | ⟨rfl, -⟩
    · rw [List.takeWhile_append_of_pos hall, List.takeWhile_cons_of_neg (by simp), List.append_nil]
    · exact List.takeWhile_eq_self_iff.mpr hall
  have hdrop : (name.drop l.length).drop 1 = rest := by
    rcases hname with rfl | ⟨rfl, rfl⟩
    · rw [List.drop_left, List.drop_one, List.tail_cons]
    · rw [List.drop_length, List.drop_nil]
  have hpos := List.length_pos_iff.mpr hne
  rw [str2labelsFrom]
  simp only [htake]
  rw [dif_neg (Nat.ne_of_gt hpos), hdrop]

/-- Packing a string that spells a name. The sequence must fit the buffer as a whole. -/
theorem str2labelsFrom_name (max lc : ℕ) (hlabels : Separable labels) (h : Spells name labels) :
    (lc + (encodeName labels).length ≤ max →
      str2labelsFrom max lc name = ⟨encodeName labels, lc + (encodeName labels).length⟩) ∧
    (max < lc + (encodeName labels).length → (str2labelsFrom max lc name).result = 0) := by
  induction labels generalizing lc name with
  | nil =>
    obtain rfl : name = [] :=
      h.resolve_right fun hdot => absurd hdot (List.append_ne_nil_of_right_ne_nil _ (by simp))
    rw [str2labelsFrom]
    refine ⟨fun hfits => ?_, fun hfull => ?_⟩
    · exact if_neg (Nat.not_lt.mpr hfits)
    · exact congrArg Packed.result (if_pos hfull)
  | cons l labels ih =>
    obtain ⟨⟨hne, hfree⟩, hrest⟩ := List.forall_mem_cons.mp hlabels
    obtain ⟨rest, hname, hspells⟩ := h.cons
    obtain ⟨hfits, hfull⟩ := ih (lc + 1 + l.length) hrest hspells
    rw [str2labelsFrom_label max lc hne hfree hname, length_encodeName_cons]
    refine ⟨fun hle => ?_, fun hlt => ?_⟩
    · rw [if_neg (by omega), hfits (by omega), encodeName, Nat.add_assoc lc, Nat.add_assoc lc]
    · split
      · rfl
      · exact hfull (by omega)

theorem str2labels_name (max : ℕ) (hlabels : Separable labels) (h : Spells name labels) :
    ((encodeName labels).length ≤ max →
      str2labels name max = ⟨encodeName labels, (encodeName labels).length⟩) ∧
    (max < (encodeName labels).length → (str2labels name max).result = 0) := by
  have hboth := str2labelsFrom_name max 0 hlabels h
  rwa [Nat.zero_add] at hboth

/-- Whatever string is packed into a small buffer, a name is stored. -/
theorem exists_name_of_str2labelsFrom {max lc : ℕ} (hmax : max ≤ 64)
    (h : (str2labelsFrom max lc name).result ≠ 0) :
    ∃ labels, ValidName labels ∧
      str2labelsFrom max lc name = ⟨encodeName labels, lc + (encodeName labels).length⟩ ∧
      lc + (encodeName labels).length ≤ max := by
  fun_induction str2labelsFrom max lc name with
  | case1 => exact absurd rfl h
  | case2 lc name label n hfits => exact ⟨[], by simp [ValidName], rfl, by simp [encodeName]; omega⟩
  | case3 lc name label n hfits hempty rest ih =>
    obtain ⟨labels, hvalid, hrest, hle⟩ := ih h
    refine ⟨label :: labels, List.forall_mem_cons.mpr ⟨by omega, hvalid⟩, ?_, ?_⟩
    · rw [show rest = _ from hrest, length_encodeName_cons, encodeName]
      simp only [n, Packed.mk.injEq, true_and]
      omega
    · rw [length_encodeName_cons]
      omega

end Names

end EspOpenRtos.MdnsResponder
