/-
# Updating a log

Putting a value appends it, behind a new key if there is none, and kills the
value that was there before; compacting first is optional. The effect on the map
is the expected one, with two exceptions that the hypotheses below name. A key
that has no value disappears when the log is compacted, so a value appended
under its old number is lost. And a key with two values behind it still has the
second one after the first is killed.
-/

import EspOpenRtos.Math.LogCompaction
import Mathlib.Order.Interval.Finset.Nat

namespace EspOpenRtos.Math.KeyedLog

variable {N V : Type*} {maxId : ℕ} {L : Log N V}

/-! ## Numbers -/

theorem Inv.nodup_ids (inv : Inv maxId L) : ((keys L).map Prod.fst).Nodup :=
  inv.ids.imp fun h => h.ne

theorem Inv.length_keys_le (inv : Inv maxId L) : (keys L).length ≤ maxId := by
  have hsub : ((keys L).map Prod.fst).toFinset ⊆ Finset.Icc 1 maxId := by
    intro i hi
    obtain ⟨p, hp, rfl⟩ := List.mem_map.mp (List.mem_toFinset.mp hi)
    exact Finset.mem_Icc.mpr (inv.range p hp)
  have hcard := Finset.card_le_card hsub
  rw [List.toFinset_card_of_nodup inv.nodup_ids, List.length_map, Nat.card_Icc] at hcard
  omega

/-- The last number bounds all numbers. -/
theorem Inv.to_lastId (inv : Inv maxId L) : Inv (lastId L) L :=
  ⟨inv.names, inv.ids, fun p hp => ⟨(inv.range p hp).1, inv.le_lastId hp⟩⟩

/-- Names determine numbers and numbers determine names. -/
theorem Inv.keyId_inj [DecidableEq N] (inv : Inv maxId L) {k k' : N} {id : ℕ}
    (h : keyId L k = some id) (h' : keyId L k' = some id) : k = k' := by
  have hinj := List.inj_on_of_nodup_map inv.nodup_ids (mem_keys_of_keyId h) (mem_keys_of_keyId h') rfl
  exact congrArg Prod.snd hinj

/-- Count the values of a log by giving each the size one. -/
def oneIfValue (item : Item N V) : ℕ := if item.isValue then 1 else 0

theorem size_oneIfValue (L : Log N V) : size oneIfValue L = L.countP Item.isValue := by
  induction L with
  | nil => rfl
  | cons item L ih =>
    rw [size_cons, ih, List.countP_cons, oneIfValue]
    omega

theorem pairsSize_oneIfValue (ps : List (ℕ × N × V)) : pairsSize oneIfValue ps = ps.length := by
  simp [pairsSize, oneIfValue, Item.isValue]

/-- Each pair uses up a value. -/
theorem Inv.length_pairs_le_values (inv : Inv maxId L) :
    (pairs L).length ≤ L.countP Item.isValue := by
  rw [← pairsSize_oneIfValue, ← size_oneIfValue]
  exact pairsSize_le inv.nodup_ids

/-- If there are keys without a value then there is a free number once they are
gone. -/
theorem Inv.length_pairs_lt (inv : Inv maxId L) (h : 0 < unused L) : (pairs L).length < maxId := by
  have hkeys := inv.length_keys_le
  have hvalues := inv.length_pairs_le_values
  simp only [unused] at h
  omega

/-! ## Compacting -/

section Compact

variable {omitted : Option ℕ}

theorem Inv.compact (inv : Inv maxId L) (omitted : Option ℕ) : Inv maxId (compact omitted L) :=
  inv_renumber inv.pairs_names (length_pairs_le_keys.trans inv.length_keys_le)

theorem lastId_compact : lastId (compact omitted L) = (pairs L).length := lastId_renumber

theorem Inv.size_compact_le (inv : Inv maxId L) {w : Item N V → ℕ} (uniform : Uniform w)
    (omitted : Option ℕ) : size w (KeyedLog.compact omitted L) ≤ size w L :=
  (size_renumber_le uniform).trans (pairsSize_le inv.nodup_ids)

/-- Compacting twice is compacting once. -/
theorem compact_compact : compact none (compact none L) = compact none L :=
  renumber_none_congr pairs_renumber_none

variable [DecidableEq N] {k : N}

theorem Inv.candidates_compact (inv : Inv maxId L) (k : N) :
    candidates (KeyedLog.compact omitted L) k =
      if omitted ≠ none ∧ omitted = keyId L k then [] else (lookup L k).toList := by
  rw [KeyedLog.compact, candidates_renumber inv.pairs_names]
  cases hid : keyId L k with
  | none =>
    have hk := keyId_eq_none_iff.mp hid
    simp [find_pairs_eq_none hk, lookup_of_keyId_none hid]
  | some id =>
    rw [find_pairs_of_keyId inv.names hid]
    cases lookup L k with
    | none => simp
    | some content =>
      by_cases homit : omitted = some id
      · simp [homit]
      · simp [homit]

/-- Compacting leaves the map as it is, less the key that was left out. -/
theorem Inv.lookup_compact (inv : Inv maxId L) (k : N) :
    lookup (KeyedLog.compact omitted L) k =
      if omitted ≠ none ∧ omitted = keyId L k then none else lookup L k := by
  rw [lookup, inv.candidates_compact]
  split_ifs
  · rfl
  · cases lookup L k <;> rfl

/-- A key with a value is found under its new number. -/
theorem Inv.keyId_compact (inv : Inv maxId L) {id : ℕ} {content : V}
    (hid : keyId L k = some id) (hvalue : lookup L k = some content) :
    keyId (KeyedLog.compact omitted L) k = some (renumberedId id 0 (pairs L)) := by
  have hfind := find_pairs_of_keyId inv.names hid
  rw [hvalue, Option.map_some] at hfind
  exact keyId_renumber inv.pairs_names (inv.pairs_ids.imp fun h => h.ne)
    (List.mem_of_find?_eq_some hfind)

/-- A key without a value is gone. -/
theorem Inv.keyId_compact_eq_none (inv : Inv maxId L) (hvalue : lookup L k = none) :
    keyId (KeyedLog.compact omitted L) k = none := by
  rw [keyId_eq_none_iff, KeyedLog.compact, names_renumber]
  intro hmem
  obtain ⟨p, hp, rfl⟩ := List.mem_map.mp hmem
  rw [lookup_eq_find_pairs inv.names, Option.map_eq_none_iff, List.find?_eq_none] at hvalue
  simpa using hvalue p hp

end Compact

/-! ## Putting a value -/

section Put

variable [DecidableEq N] {w : Item N V → ℕ} {k k' : N} {content : V} {compacts : Bool}

/-- The log to which a new key is appended. -/
def base (compacts : Bool) (L : Log N V) : Log N V := if compacts then compact none L else L

/-- Put a value, compacting first or not. -/
def put (w : Item N V → ℕ) (compacts : Bool) (k : N) (content : V) (L : Log N V) : Log N V :=
  match keyId L k with
  | none =>
    base compacts L ++
      [.key (lastId (base compacts L) + 1) k, .value (lastId (base compacts L) + 1) content]
  | some id =>
    if compacts then
      compact (some id) L ++ [.value (renumberedId id 0 (pairs L)) content]
    else delete w k L ++ [.value id content]

variable (inv : Inv maxId L)
include inv

omit [DecidableEq N] in
theorem Inv.base (compacts : Bool) : Inv maxId (base compacts L) := by
  cases compacts
  · exact inv
  · exact inv.compact none

theorem Inv.candidates_base (k : N) : candidates (KeyedLog.base compacts L) k =
      if compacts then (lookup L k).toList else candidates L k := by
  cases compacts
  · rfl
  · simp [KeyedLog.base, inv.candidates_compact]

theorem Inv.keyId_base_eq_none (h : keyId L k = none) :
    keyId (KeyedLog.base compacts L) k = none := by
  cases compacts
  · exact h
  · exact inv.keyId_compact_eq_none (lookup_of_keyId_none h)

/-- A new key needs a free number. -/
theorem Inv.put (room : keyId L k = none → lastId (KeyedLog.base compacts L) < maxId) :
    Inv maxId (put w compacts k content L) := by
  unfold KeyedLog.put
  cases hid : keyId L k with
  | none =>
    have hnone : keyId (KeyedLog.base compacts L) k = none := inv.keyId_base_eq_none hid
    have hfresh := keyId_eq_none_iff.mp hnone
    have hkey := (inv.base compacts).append_key hfresh (Nat.lt_succ_self _) (room hid)
    exact hkey.of_keys_eq (by simp)
  | some id =>
    cases compacts with
    | false => exact inv.of_keys_eq (by simp)
    | true => exact (inv.compact (some id)).of_keys_eq (by simp)

/-- After putting a value it is the only one behind its key. -/
theorem Inv.candidates_put_self (kept : compacts = true → keyId L k ≠ none → lookup L k ≠ none)
    (single : compacts = false → (candidates L k).length ≤ 1) :
    candidates (KeyedLog.put w compacts k content L) k = [content] := by
  unfold KeyedLog.put
  cases hid : keyId L k with
  | none =>
    have hnone : keyId (KeyedLog.base compacts L) k = none := inv.keyId_base_eq_none hid
    simp [candidates_append_key_self hnone]
  | some id =>
    cases compacts with
    | false =>
      simp only [Bool.false_eq_true, if_false]
      rw [candidates_append_value, keyId_delete, hid, if_pos rfl, candidates_delete_self]
      have hlen := single rfl
      cases hc : candidates L k with
      | nil => rfl
      | cons head rest =>
        rw [hc, List.length_cons] at hlen
        simp [List.eq_nil_of_length_eq_zero (Nat.le_zero.mp (Nat.le_of_succ_le_succ hlen))]
    | true =>
      obtain ⟨old, hold⟩ := Option.ne_none_iff_exists'.mp (kept rfl (by simp [hid]))
      simp only [if_true]
      rw [candidates_append_value, inv.keyId_compact hid hold, if_pos rfl,
        inv.candidates_compact, hid]
      simp

theorem Inv.candidates_put_other (h : k' ≠ k)
    (kept : compacts = true → keyId L k ≠ none → lookup L k ≠ none) :
    candidates (KeyedLog.put w compacts k content L) k' =
      if compacts then (lookup L k').toList else candidates L k' := by
  unfold KeyedLog.put
  cases hid : keyId L k with
  | none =>
    -- the new number is larger than all numbers in use
    have hnew : keyId (KeyedLog.base compacts L) k' ≠
        some (lastId (KeyedLog.base compacts L) + 1) := by
      intro hk
      exact absurd ((inv.base compacts).le_lastId (mem_keys_of_keyId hk)) (by simp)
    rw [List.append_cons, candidates_append_value, keyId_append_key_other (Ne.symm h),
      candidates_append_key_other (Ne.symm h), if_neg hnew, List.append_nil,
      inv.candidates_base]
  | some id =>
    cases compacts with
    | false =>
      have hother : keyId L k' ≠ some id := fun hk => h (inv.keyId_inj hk hid)
      simp only [Bool.false_eq_true, if_false]
      rw [candidates_append_value, keyId_delete, if_neg hother, List.append_nil,
        candidates_delete_other inv.ids h]
    | true =>
      obtain ⟨old, hold⟩ := Option.ne_none_iff_exists'.mp (kept rfl (by simp [hid]))
      have hother : keyId (KeyedLog.compact (some id) L) k' ≠
          some (renumberedId id 0 (pairs L)) := fun hk =>
        h ((inv.compact (some id)).keyId_inj hk (inv.keyId_compact hid hold))
      have hleft : ¬(some id ≠ none ∧ some id = keyId L k') := fun hk =>
        h (inv.keyId_inj hk.2.symm hid)
      simp only [if_true]
      rw [candidates_append_value, if_neg hother, List.append_nil, inv.candidates_compact,
        if_neg hleft]

/-- Putting a value does not change what the other keys stand for. -/
theorem Inv.lookup_put_other (h : k' ≠ k) :
    lookup (KeyedLog.put w compacts k content L) k' = lookup L k' := by
  by_cases kept : compacts = true → keyId L k ≠ none → lookup L k ≠ none
  · rw [lookup, inv.candidates_put_other h kept]
    split_ifs
    · cases lookup L k' <;> rfl
    · rfl
  · -- the value goes under a number that may by now belong to a key with a value
    push Not at kept
    obtain ⟨rfl, hid, hnone⟩ := kept
    obtain ⟨id, hid⟩ := Option.ne_none_iff_exists'.mp hid
    have hleft : ¬(some id ≠ none ∧ some id = keyId L k') := fun hk =>
      h (inv.keyId_inj hk.2.symm hid)
    simp only [KeyedLog.put, hid, if_true]
    rw [lookup, candidates_append_value, inv.candidates_compact, if_neg hleft]
    cases hvalue : lookup L k' with
    | none => simp [inv.keyId_compact_eq_none hvalue]
    | some old => rfl

/-- The exception: a key without a value is lost when the log is compacted, and
putting a value under its old number has no effect on it. -/
theorem Inv.lookup_put_lost {id : ℕ} (hid : keyId L k = some id) (hnone : lookup L k = none) :
    lookup (KeyedLog.put w true k content L) k = none := by
  have hgone : keyId (KeyedLog.compact (some id) L) k = none := inv.keyId_compact_eq_none hnone
  simp only [KeyedLog.put, hid, if_true]
  rw [lookup, candidates_append_value, candidates_of_keyId_none hgone, hgone]
  rfl

theorem Inv.unshadowed_put (single : Unshadowed L)
    (kept : compacts = true → keyId L k ≠ none → lookup L k ≠ none) :
    Unshadowed (KeyedLog.put w compacts k content L) := by
  intro k'
  by_cases h : k' = k
  · subst h
    rw [inv.candidates_put_self kept fun _ => single k']
    rfl
  · rw [inv.candidates_put_other h kept]
    split_ifs
    · cases lookup L k' <;> simp
    · exact single k'

end Put

/-! ## Deleting -/

section Delete

variable [DecidableEq N] {w : Item N V → ℕ} {k k' : N}

theorem lookup_delete_self (single : (candidates L k).length ≤ 1) :
    lookup (delete w k L) k = none := by
  rw [lookup, candidates_delete_self, List.head?_eq_none_iff, ← List.length_eq_zero_iff,
    List.length_tail]
  omega

theorem Inv.lookup_delete_other (inv : Inv maxId L) (h : k' ≠ k) :
    lookup (KeyedLog.delete w k L) k' = lookup L k' := by
  rw [lookup, candidates_delete_other inv.ids h]
  rfl

theorem Inv.unshadowed_delete (inv : Inv maxId L) (single : Unshadowed L) :
    Unshadowed (KeyedLog.delete w k L) := by
  intro k'
  by_cases h : k' = k
  · subst h
    rw [candidates_delete_self, List.length_tail]
    exact (Nat.sub_le _ _).trans (single k')
  · rw [candidates_delete_other inv.ids h]
    exact single k'

theorem Inv.unshadowed_compact (inv : Inv maxId L) (omitted : Option ℕ) :
    Unshadowed (KeyedLog.compact omitted L) := by
  intro k
  rw [inv.candidates_compact]
  split_ifs
  · simp
  · cases lookup L k <;> simp

end Delete

end EspOpenRtos.Math.KeyedLog
