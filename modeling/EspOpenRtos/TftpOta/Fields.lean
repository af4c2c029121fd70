/-
# Fields of a request

Behind its opcode a request holds strings, each with a zero byte at its end.
`tftp_get_field` runs over them with an index that counts down at every zero byte, and
takes the string at which the index is zero.
-/

import EspOpenRtos.TftpOta.Segments

namespace EspOpenRtos.TftpOta

/-- The variables of the loop in `tftp_get_field`. -/
structure FieldScan where
  field : ℤ
  offs : ℕ
  fieldOffs : ℕ
  fieldLen : ℕ

namespace Netbuf

variable (n : Netbuf)

/-- A round of the loop. -/
def scanByte (s : FieldScan) : FieldScan :=
  let c := n.fieldByte s.offs
  let s := { s with
    offs := s.offs + 1
    fieldLen := if s.field = 0 then s.fieldLen + 1 else s.fieldLen }
  if c = 0 then
    { s with
      field := s.field - 1
      fieldOffs := if s.field - 1 = 0 then s.offs else s.fieldOffs }
  else s

theorem offs_scanByte (s : FieldScan) : (n.scanByte s).offs = s.offs + 1 := by
  simp only [scanByte]
  split <;> rfl

def scanFields (s : FieldScan) : FieldScan :=
  if 0 ≤ s.field ∧ s.offs < n.len then scanFields (n.scanByte s) else s
termination_by n.len - s.offs
decreasing_by
  rw [offs_scanByte]
  omega

/-- The copy of the field that was found. -/
def copyField (s : FieldScan) : Option (List UInt8) :=
  if s.field ≠ -1 then none
  else some ((List.range s.fieldLen).map fun i => n.fieldByte (s.fieldOffs + i))

def tftpGetField (field : ℤ) : Option (List UInt8) :=
  n.copyField (n.scanFields ⟨field, 2, 2, 0⟩)

/-! ## One string after the other -/

theorem length_bytes : n.bytes.length = n.len := by
  simp [bytes, len, List.length_flatMap]

section Strings

variable {n} {offs k start len : ℕ} {c : UInt8} {s t rest : List UInt8}

theorem fieldByte_of_drop (h : n.bytes.drop offs = c :: t) :
    offs < n.len ∧ n.fieldByte offs = c ∧ n.bytes.drop (offs + 1) = t := by
  have hlt : offs < n.bytes.length := by
    by_contra hle
    rw [List.drop_eq_nil_of_le (not_lt.mp hle)] at h
    cases h
  rw [List.drop_eq_getElem_cons hlt, List.cons.injEq] at h
  exact ⟨n.length_bytes ▸ hlt, by rw [fieldByte, List.getD_eq_getElem _ _ hlt, h.1], h.2⟩

/-- Inside a string only the length changes. -/
theorem scanFields_string (h : n.bytes.drop offs = s ++ t) (hs : 0 ∉ s) :
    n.scanFields ⟨k, offs, start, len⟩ =
      n.scanFields ⟨k, offs + s.length, start, if k = 0 then len + s.length else len⟩ := by
  induction s generalizing offs len with
  | nil => simp
  | cons c s ih =>
    obtain ⟨hc, hs⟩ := not_or.mp (mt List.mem_cons.mpr hs)
    obtain ⟨hlt, hbyte, hdrop⟩ := fieldByte_of_drop h
    rw [scanFields, if_pos ⟨Int.natCast_nonneg k, hlt⟩, scanByte, hbyte, if_neg (Ne.symm hc),
      ih hdrop hs]
    simp only [List.length_cons, Nat.cast_eq_zero]
    split <;> simp only [Nat.add_assoc, Nat.add_comm 1]

theorem scanFields_zero (h : n.bytes.drop offs = 0 :: t) :
    n.scanFields ⟨k, offs, start, len⟩ = n.scanFields ⟨k - 1, offs + 1,
      if k = 1 then offs + 1 else start, if k = 0 then len + 1 else len⟩ := by
  obtain ⟨hlt, hbyte, -⟩ := fieldByte_of_drop h
  rw [scanFields, if_pos ⟨Int.natCast_nonneg k, hlt⟩, scanByte, hbyte, if_pos rfl]
  simp only [sub_eq_zero, Nat.cast_eq_zero, Nat.cast_eq_one]

/-- The bytes of the datagram are copied. -/
theorem map_fieldByte (h : n.bytes.drop offs = s ++ t) :
    ((List.range s.length).map fun i => n.fieldByte (offs + i)) = s := by
  induction s generalizing offs with
  | nil => rfl
  | cons c s ih =>
    obtain ⟨-, hbyte, hdrop⟩ := fieldByte_of_drop h
    rw [List.length_cons, List.range_succ_eq_map, List.map_cons, List.map_map, Nat.add_zero, hbyte]
    refine congrArg (c :: ·) (.trans (List.map_congr_left fun i _ => ?_) (ih hdrop))
    rw [Function.comp_apply, Nat.add_assoc, Nat.add_comm 1]

/-- The loop ends with the string whose number it was given, if there are so many. -/
theorem copyField_strings {strings : List (List UInt8)} (hstrings : ∀ s ∈ strings, 0 ∉ s)
    (hrest : 0 ∉ rest) (h : n.bytes.drop offs = strings.flatMap (· ++ [0]) ++ rest)
    (hstart : k = 0 → start = offs) :
    n.copyField (n.scanFields ⟨k, offs, start, 0⟩) = strings[k]?.map (· ++ [0]) := by
  induction strings generalizing k offs start with
  | nil =>
    have hend : n.len ≤ offs + rest.length := by
      rw [← n.length_bytes, ← Nat.sub_le_iff_le_add', ← List.length_drop, h]
      rfl
    rw [scanFields_string (t := []) (h.trans (List.append_nil _).symm) hrest, scanFields,
      if_neg fun hmore => hmore.2.not_ge hend, copyField, if_pos (by simp), List.getElem?_nil]
    rfl
  | cons s strings ih =>
    obtain ⟨hs, hstrings⟩ := List.forall_mem_cons.mp hstrings
    rw [List.flatMap_cons, List.append_assoc, List.append_assoc] at h
    have hzero : n.bytes.drop (offs + s.length) = 0 :: (strings.flatMap (· ++ [0]) ++ rest) := by
      rw [← List.drop_drop, h, List.drop_left]
      rfl
    rw [scanFields_string h hs, scanFields_zero hzero]
    cases k with
    | zero =>
      rw [scanFields, if_neg (by simp), copyField, if_neg (by simp), hstart rfl]
      rw [← List.append_assoc] at h
      have hcopy := map_fieldByte h
      rw [List.length_append, List.length_singleton] at hcopy
      simpa using hcopy
    | succ k =>
      simp only [Nat.cast_succ, add_sub_cancel_right, Nat.add_eq_right, Nat.succ_ne_zero, if_false,
        List.getElem?_cons_succ]
      exact ih hstrings (fieldByte_of_drop hzero).2.2 fun hk => if_pos hk

end Strings

end Netbuf

/-- Every text consists of strings with their ends and a rest without one. -/
theorem exists_strings (l : List UInt8) : ∃ (strings : List (List UInt8)) (rest : List UInt8),
    (∀ s ∈ strings, 0 ∉ s) ∧ 0 ∉ rest ∧ l = strings.flatMap (· ++ [0]) ++ rest := by
  induction l with
  | nil => exact ⟨[], [], nofun, nofun, rfl⟩
  | cons c l ih =>
    obtain ⟨strings, rest, hstrings, hrest, rfl⟩ := ih
    by_cases hc : 0 = c
    · exact ⟨[] :: strings, rest, by simpa using hstrings, hrest, hc ▸ rfl⟩
    cases strings with
    | nil => exact ⟨[], c :: rest, nofun, by simp [hc, hrest], rfl⟩
    | cons s strings =>
      obtain ⟨hs, hstrings⟩ := List.forall_mem_cons.mp hstrings
      exact ⟨(c :: s) :: strings, rest, by simpa [hc, hs] using hstrings, hrest, rfl⟩

/-- Behind the opcode a datagram consists of strings with their ends and a rest without one,
and `tftp_get_field` returns each of them by its number, with its end, and nothing for the
numbers behind. -/
theorem tftp_get_field_exact (n : Netbuf) : ∃ (strings : List (List UInt8)) (rest : List UInt8),
    (∀ s ∈ strings, 0 ∉ s) ∧ 0 ∉ rest ∧ n.bytes.drop 2 = strings.flatMap (· ++ [0]) ++ rest ∧
      ∀ i : ℕ, n.tftpGetField i = strings[i]?.map (· ++ [0]) := by
  obtain ⟨strings, rest, hstrings, hrest, h⟩ := exists_strings (n.bytes.drop 2)
  exact ⟨strings, rest, hstrings, hrest, h, fun i =>
    Netbuf.copyField_strings hstrings hrest h fun _ => rfl⟩

end EspOpenRtos.TftpOta
