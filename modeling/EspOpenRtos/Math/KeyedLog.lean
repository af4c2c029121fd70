/-
# Logs of named keys and numbered values

An append-only store often avoids repeating a long key name with every update:
a key item introduces the name once and gives it a number, and value items refer
to the number. Updating a key appends a value and marks the old one dead.
Compacting rewrites the log from scratch, with fresh numbers and without the
dead items and the keys that have no value left.

A reader that takes the first value behind a key sees a map from names to
values. What makes this sound is an invariant on the keys alone: names are
distinct, and numbers increase along the log. Values need not belong to a key at
all. Whether an update takes effect depends on one more fact about the updated
key only, that there is at most one value behind it.
-/

import Mathlib.Data.List.Nodup
import Mathlib.Tactic.Linarith

namespace EspOpenRtos.Math.KeyedLog

/-- An item of the log: a key, a value, or something dead of a given size. -/
inductive Item (N V : Type*)
  | key (id : ℕ) (name : N)
  | value (id : ℕ) (content : V)
  | dead (size : ℕ)
  deriving DecidableEq

abbrev Log (N V : Type*) := List (Item N V)

variable {N V : Type*}

def Item.asKey : Item N V → Option (ℕ × N)
  | .key id name => some (id, name)
  | _ => none

def Item.asValue (id : ℕ) : Item N V → Option V
  | .value i content => if i = id then some content else none
  | _ => none

theorem Item.asValue_eq_some {item : Item N V} {id : ℕ} {content : V} :
    item.asValue id = some content ↔ item = .value id content := by
  cases item <;> simp [asValue]

/-- Induction over the items of a log. -/
@[elab_as_elim]
theorem Log.induction {motive : Log N V → Prop} (nil : motive [])
    (key : ∀ id name L, motive L → motive (.key id name :: L))
    (value : ∀ id content L, motive L → motive (.value id content :: L))
    (dead : ∀ n L, motive L → motive (.dead n :: L)) (L : Log N V) : motive L := by
  induction L with
  | nil => exact nil
  | cons item L ih =>
    cases item with
    | key id name => exact key id name L ih
    | value id content => exact value id content L ih
    | dead n => exact dead n L ih

def Item.isValue : Item N V → Bool
  | .value .. => true
  | _ => false

def Item.deadSize : Item N V → ℕ
  | .dead size => size
  | _ => 0

/-- The keys of a log, in order. -/
def keys (L : Log N V) : List (ℕ × N) := L.filterMap Item.asKey

/-- The values with a given number, in order. -/
def values (id : ℕ) (L : Log N V) : List V := L.filterMap (Item.asValue id)

/-- The number of the last key, or zero. -/
def lastId (L : Log N V) : ℕ := ((keys L).getLast?.map Prod.fst).getD 0

/-- How many keys there are beyond the number of values. -/
def unused (L : Log N V) : ℤ := (keys L).length - L.countP Item.isValue

/-- The total size of what is dead. -/
def deadSize (L : Log N V) : ℕ := (L.map Item.deadSize).sum

/-- The total size of a log, for a given size of its items. -/
def size (w : Item N V → ℕ) (L : Log N V) : ℕ := (L.map w).sum

section Lookup

variable [DecidableEq N]

/-- Find a key by name: its number and what follows it. -/
def find (k : N) : Log N V → Option (ℕ × Log N V)
  | [] => none
  | .key id name :: L => if name = k then some (id, L) else find k L
  | .value .. :: L => find k L
  | .dead _ :: L => find k L

/-- The number of a key. -/
def keyId (L : Log N V) (k : N) : Option ℕ := (find k L).map Prod.fst

/-- All values behind a key. The first one counts. -/
def candidates (L : Log N V) (k : N) : List V :=
  match find k L with
  | none => []
  | some (id, rest) => values id rest

/-- The map that a log stands for. -/
def lookup (L : Log N V) (k : N) : Option V := (candidates L k).head?

end Lookup

/-- Mark the first value with a given number dead. -/
def killFirst (w : Item N V → ℕ) (id : ℕ) : Log N V → Log N V
  | [] => []
  | .value i content :: L =>
    if i = id then .dead (w (.value i content)) :: L
    else .value i content :: killFirst w id L
  | item :: L => item :: killFirst w id L

/-- Mark the first value behind a key dead. -/
def delete [DecidableEq N] (w : Item N V → ℕ) (k : N) : Log N V → Log N V
  | [] => []
  | .key id name :: L =>
    if name = k then .key id name :: killFirst w id L else .key id name :: delete w k L
  | item :: L => item :: delete w k L

/-! ## Compaction -/

/-- The keys that have a value, each with its number and first value. -/
def pairs : Log N V → List (ℕ × N × V)
  | [] => []
  | .key id name :: L =>
    match values id L with
    | [] => pairs L
    | content :: _ => (id, name, content) :: pairs L
  | .value .. :: L => pairs L
  | .dead _ :: L => pairs L

/-- Write pairs out with consecutive numbers, leaving out the value of one key. -/
def renumber (omitted : Option ℕ) : ℕ → List (ℕ × N × V) → Log N V
  | _, [] => []
  | last, (id, name, content) :: ps =>
    if omitted = some id then .key (last + 1) name :: renumber omitted (last + 1) ps
    else .key (last + 1) name :: .value (last + 1) content :: renumber omitted (last + 1) ps

/-- The number that a key gets when pairs are written out. A key that is not
among them keeps its number. -/
def renumberedId (id : ℕ) : ℕ → List (ℕ × N × V) → ℕ
  | _, [] => id
  | last, (i, _, _) :: ps => if i = id then last + 1 else renumberedId id (last + 1) ps

/-- The compacted log, leaving out the value of one key. -/
def compact (omitted : Option ℕ) (L : Log N V) : Log N V := renumber omitted 0 (pairs L)

/-- The invariant of the keys: distinct names, and increasing numbers between
one and a bound. -/
structure Inv (maxId : ℕ) (L : Log N V) : Prop where
  names : ((keys L).map Prod.snd).Nodup
  ids : ((keys L).map Prod.fst).Pairwise (· < ·)
  range : ∀ p ∈ keys L, 1 ≤ p.1 ∧ p.1 ≤ maxId

/-- There are only dead items. -/
def Dead (D : Log N V) : Prop := ∀ item ∈ D, ∃ n, item = .dead n

/-- No key has a second value behind it. -/
def Unshadowed [DecidableEq N] (L : Log N V) : Prop := ∀ k, (candidates L k).length ≤ 1

/-! ## Single items -/

section Cons

variable {L : Log N V}

@[simp] theorem keys_nil : keys ([] : Log N V) = [] := rfl
@[simp] theorem keys_key (id : ℕ) (name : N) : keys (.key id name :: L) = (id, name) :: keys L := rfl
@[simp] theorem keys_value (id : ℕ) (content : V) : keys (.value id content :: L) = keys L := rfl
@[simp] theorem keys_dead (n : ℕ) : keys (.dead n :: L) = keys L := rfl

@[simp] theorem values_nil (id : ℕ) : values id ([] : Log N V) = [] := rfl
@[simp] theorem values_key (id i : ℕ) (name : N) : values id (.key i name :: L) = values id L := rfl
@[simp] theorem values_dead (id n : ℕ) : values id (.dead n :: L) = values id L := rfl

@[simp]
theorem values_value (id i : ℕ) (content : V) :
    values id (.value i content :: L) = if i = id then content :: values id L else values id L := by
  simp only [values, List.filterMap_cons, Item.asValue]
  split_ifs <;> rfl

@[simp]
theorem keys_append (L M : Log N V) : keys (L ++ M) = keys L ++ keys M := List.filterMap_append

@[simp]
theorem values_append (id : ℕ) (L M : Log N V) : values id (L ++ M) = values id L ++ values id M :=
  List.filterMap_append

@[simp]
theorem size_cons (w : Item N V → ℕ) (item : Item N V) : size w (item :: L) = w item + size w L := by
  simp [size]

@[simp]
theorem size_append (w : Item N V → ℕ) (L M : Log N V) : size w (L ++ M) = size w L + size w M := by
  simp [size]

theorem dead_singleton (n : ℕ) : Dead ([.dead n] : Log N V) := by simp [Dead]

theorem Dead.keys_eq {D : Log N V} (h : Dead D) : keys D = [] := by
  refine List.filterMap_eq_nil_iff.mpr fun item hitem => ?_
  obtain ⟨n, rfl⟩ := h item hitem
  rfl

theorem Dead.values_eq {D : Log N V} (h : Dead D) (id : ℕ) : values id D = [] := by
  refine List.filterMap_eq_nil_iff.mpr fun item hitem => ?_
  obtain ⟨n, rfl⟩ := h item hitem
  rfl

theorem keys_append_dead {D : Log N V} (h : Dead D) : keys (L ++ D) = keys L := by simp [h.keys_eq]

theorem lastId_append_dead {D : Log N V} (h : Dead D) : lastId (L ++ D) = lastId L := by
  rw [lastId, keys_append_dead h, lastId]

theorem unused_append_dead {D : Log N V} (h : Dead D) : unused (L ++ D) = unused L := by
  have hvalues : D.countP Item.isValue = 0 := by
    refine List.countP_eq_zero.mpr fun item hitem => ?_
    obtain ⟨n, rfl⟩ := h item hitem
    exact Bool.false_ne_true
  rw [unused, keys_append_dead h, List.countP_append, hvalues, Nat.add_zero, unused]

end Cons

/-! ## Appending -/

section Append

variable [DecidableEq N] {L : Log N V} {k : N}

theorem find_append (M : Log N V) :
    find k (L ++ M) = match find k L with
      | some (id, rest) => some (id, rest ++ M)
      | none => find k M := by
  induction L using Log.induction with
  | nil => rfl
  | key id name L ih =>
    simp only [List.cons_append, find]
    split_ifs with h
    · rfl
    · exact ih
  | value id content L ih | dead n L ih => simpa only [List.cons_append, find] using ih

/-- The number of a key depends on the keys only. -/
theorem keyId_eq_find_keys :
    keyId L k = ((keys L).find? fun p => p.2 = k).map Prod.fst := by
  induction L using Log.induction with
  | nil => rfl
  | key id name L ih =>
    by_cases h : name = k
    · simp [keyId, find, h]
    · simpa [keyId, find, h] using ih
  | value id content L ih => exact ih
  | dead n L ih => exact ih

theorem keyId_eq_none_iff : keyId L k = none ↔ k ∉ (keys L).map Prod.snd := by
  rw [keyId_eq_find_keys, Option.map_eq_none_iff, List.find?_eq_none]
  simp only [decide_eq_true_eq, List.mem_map, not_exists, not_and]

theorem mem_keys_of_keyId {id : ℕ} (h : keyId L k = some id) : (id, k) ∈ keys L := by
  rw [keyId_eq_find_keys, Option.map_eq_some_iff] at h
  obtain ⟨⟨i, name⟩, hfind, rfl⟩ := h
  obtain rfl : name = k := by simpa using List.find?_some hfind
  exact List.mem_of_find?_eq_some hfind

theorem candidates_of_keyId_none (h : keyId L k = none) : candidates L k = [] := by
  rw [keyId, Option.map_eq_none_iff] at h
  simp [candidates, h]

/-- Without a key there is no value. -/
theorem lookup_of_keyId_none (h : keyId L k = none) : lookup L k = none := by
  rw [lookup, candidates_of_keyId_none h]
  rfl

theorem keyId_ne_none {content : V} (h : lookup L k = some content) : keyId L k ≠ none := by
  intro hnone
  rw [lookup_of_keyId_none hnone] at h
  cases h

/-- Values appended to a log are behind every key with their number. -/
theorem candidates_append_of_keyId {id : ℕ} (M : Log N V) (h : keyId L k = some id) :
    candidates (L ++ M) k = candidates L k ++ values id M := by
  simp only [keyId, Option.map_eq_some_iff] at h
  obtain ⟨⟨i, rest⟩, hfind, rfl⟩ := h
  simp only [candidates, find_append, hfind, values_append]

theorem candidates_append_of_none (M : Log N V) (h : keyId L k = none) :
    candidates (L ++ M) k = candidates M k := by
  rw [keyId, Option.map_eq_none_iff] at h
  simp only [candidates, find_append, h]

theorem keyId_append_of_some {id : ℕ} (M : Log N V) (h : keyId L k = some id) :
    keyId (L ++ M) k = some id := by
  simp only [keyId, Option.map_eq_some_iff] at h ⊢
  obtain ⟨⟨i, rest⟩, hfind, rfl⟩ := h
  exact ⟨(i, rest ++ M), by simp [find_append, hfind], rfl⟩

theorem keyId_append_dead {D : Log N V} (h : Dead D) : keyId (L ++ D) k = keyId L k := by
  rw [keyId_eq_find_keys, keys_append_dead h, ← keyId_eq_find_keys]

/-- Dead items change nothing. -/
theorem lookup_append_dead {D : Log N V} (h : Dead D) : lookup (L ++ D) k = lookup L k := by
  cases hkey : keyId L k with
  | none =>
    rw [lookup_of_keyId_none hkey, lookup_of_keyId_none ((keyId_append_dead h).trans hkey)]
  | some id =>
    rw [lookup, candidates_append_of_keyId _ hkey, h.values_eq, List.append_nil, lookup]

/-- A value takes effect for the key with its number only. -/
theorem candidates_append_value (id : ℕ) (content : V) :
    candidates (L ++ [.value id content]) k =
      candidates L k ++ if keyId L k = some id then [content] else [] := by
  cases h : keyId L k with
  | none =>
    rw [candidates_append_of_none _ h, candidates_of_keyId_none h]
    simp [candidates, find]
  | some i =>
    rw [candidates_append_of_keyId _ h]
    by_cases hi : i = id
    · simp [hi]
    · simp [hi, Ne.symm hi]

/-- A new key has no values. -/
theorem candidates_append_key_self {id : ℕ} (h : keyId L k = none) (M : Log N V) :
    candidates (L ++ .key id k :: M) k = values id M := by
  rw [candidates_append_of_none _ h]
  simp [candidates, find]

/-- A new key does not disturb the others. -/
theorem candidates_append_key_other {id : ℕ} {name : N} (h : name ≠ k) :
    candidates (L ++ [.key id name]) k = candidates L k := by
  cases hk : keyId L k with
  | none =>
    rw [candidates_append_of_none _ hk, candidates_of_keyId_none hk]
    simp [candidates, find, h]
  | some i => simp [candidates_append_of_keyId _ hk]

theorem keyId_append_key_other {id : ℕ} {name : N} (h : name ≠ k) :
    keyId (L ++ [.key id name]) k = keyId L k := by
  cases hk : keyId L k with
  | none =>
    rw [keyId, Option.map_eq_none_iff] at hk
    simp [keyId, find_append, hk, find, h]
  | some i => exact keyId_append_of_some _ hk

end Append

/-! ## Deleting -/

section Delete

variable {w : Item N V → ℕ} {L : Log N V}

@[simp]
theorem keys_killFirst (id : ℕ) : keys (killFirst w id L) = keys L := by
  induction L using Log.induction with
  | nil => rfl
  | key i name L ih => simp [killFirst, ih]
  | value i content L ih =>
    simp only [killFirst]
    split_ifs
    · simp
    · simp [ih]
  | dead n L ih => simp [killFirst, ih]

theorem values_killFirst_self (id : ℕ) : values id (killFirst w id L) = (values id L).tail := by
  induction L using Log.induction with
  | nil => rfl
  | key i name L ih => simp [killFirst, ih]
  | value i content L ih =>
    simp only [killFirst]
    split_ifs with h
    · simp [h]
    · simp [h, ih]
  | dead n L ih => simp [killFirst, ih]

theorem values_killFirst_other {id i : ℕ} (h : i ≠ id) :
    values i (killFirst w id L) = values i L := by
  induction L using Log.induction with
  | nil => rfl
  | key j name L ih => simp [killFirst, ih]
  | value j content L ih =>
    simp only [killFirst]
    split_ifs with hj
    · simp [hj, Ne.symm h]
    · simp [ih]
  | dead n L ih => simp [killFirst, ih]

theorem killFirst_of_values_nil {id : ℕ} (h : values id L = []) : killFirst w id L = L := by
  induction L using Log.induction with
  | nil => rfl
  | key i name L ih | dead n L ih => rw [killFirst, ih h]; nofun
  | value i content L ih =>
    rw [values_value] at h
    split_ifs at h with hi
    rw [killFirst, if_neg hi, ih h]

theorem killFirst_split {id : ℕ} {Q S : Log N V} {content : V}
    (hQ : ∀ item ∈ Q, ∀ c, item ≠ .value id c) :
    killFirst w id (Q ++ .value id content :: S) = Q ++ .dead (w (.value id content)) :: S := by
  induction Q with
  | nil => simp [killFirst]
  | cons item Q ih =>
    have hrest := ih fun x hx => hQ x (by simp [hx])
    cases item with
    | key i name | dead n => simpa [killFirst] using hrest
    | value i c =>
      have hi : i ≠ id := fun hi => hQ (.value i c) (by simp) c (by rw [hi])
      simpa [killFirst, hi] using hrest

variable [DecidableEq N] {k k' : N}

@[simp]
theorem keys_delete : keys (delete w k L) = keys L := by
  induction L using Log.induction with
  | nil => rfl
  | key i name L ih =>
    simp only [delete]
    split_ifs
    · simp
    · simp [ih]
  | value i content L ih => simp [delete, ih]
  | dead n L ih => simp [delete, ih]

/-- Deleting takes the first value of the key away. -/
theorem candidates_delete_self : candidates (delete w k L) k = (candidates L k).tail := by
  induction L using Log.induction with
  | nil => rfl
  | key i name L ih =>
    simp only [delete, candidates] at ih ⊢
    split_ifs with h
    · simp [find, h, values_killFirst_self]
    · simpa [find, h] using ih
  | value i content L ih | dead n L ih => simpa [candidates, find, delete] using ih

theorem keyId_delete : keyId (delete w k L) k' = keyId L k' := by
  rw [keyId_eq_find_keys, keyId_eq_find_keys, keys_delete]

theorem candidates_killFirst {id : ℕ} (h : keyId L k ≠ some id) :
    candidates (killFirst w id L) k = candidates L k := by
  induction L using Log.induction with
  | nil => rfl
  | key i name L ih =>
    by_cases hname : name = k
    · have hi : i ≠ id := by simpa [keyId, find, hname] using h
      simp [candidates, find, killFirst, hname, values_killFirst_other hi]
    · have hrest := ih (by simpa [keyId, find, hname] using h)
      simpa [candidates, find, killFirst, hname] using hrest
  | value i content L ih =>
    have hrest := ih h
    by_cases hi : i = id
    · simp [candidates, find, killFirst, hi]
    · simpa [candidates, find, killFirst, hi] using hrest
  | dead n L ih => exact ih h

theorem values_delete {id : ℕ} (h : keyId L k ≠ some id) :
    values id (delete w k L) = values id L := by
  induction L using Log.induction with
  | nil => rfl
  | key i name L ih =>
    by_cases hname : name = k
    · have hi : id ≠ i := by simpa [keyId, find, hname, eq_comm] using h
      simp [delete, hname, values_killFirst_other hi]
    · have hrest := ih (by simpa [keyId, find, hname] using h)
      simpa [delete, hname] using hrest
  | value i content L ih =>
    have hrest := ih h
    simp [delete, hrest]
  | dead n L ih => exact ih h

/-- Deleting leaves the other keys alone. -/
theorem candidates_delete_other (ids : ((keys L).map Prod.fst).Pairwise (· < ·)) (h : k' ≠ k) :
    candidates (delete w k L) k' = candidates L k' := by
  induction L using Log.induction with
  | nil => rfl
  | key i name L ih =>
    simp only [keys_key, List.map_cons, List.pairwise_cons] at ids
    -- later keys have larger numbers than this one
    have hlater (name' : N) : keyId L name' ≠ some i := by
      intro hk
      have hmem := List.mem_map_of_mem (f := Prod.fst) (mem_keys_of_keyId hk)
      exact absurd (ids.1 i hmem) (lt_irrefl i)
    by_cases hname : name = k
    · have hkill := candidates_killFirst (w := w) (hlater k')
      simpa [candidates, find, delete, hname, Ne.symm h] using hkill
    · by_cases hname' : name = k'
      · subst hname'
        have hvalues := values_delete (w := w) (hlater k)
        simp [candidates, find, delete, hname, hvalues]
      · simpa [candidates, find, delete, hname, hname'] using ih ids.2
  | value i content L ih => exact ih ids
  | dead n L ih => exact ih ids

/-- Where there is no value nothing is deleted. -/
theorem delete_of_lookup_none (h : lookup L k = none) : delete w k L = L := by
  induction L using Log.induction with
  | nil => rfl
  | key i name L ih =>
    by_cases hname : name = k
    · have hvalues : values i L = [] := by
        simpa [lookup, candidates, find, hname] using h
      rw [delete, if_pos hname, killFirst_of_values_nil hvalues]
    · rw [delete, if_neg hname, ih (by simpa [lookup, candidates, find, hname] using h)]
  | value i content L ih => rw [delete, ih h]; nofun
  | dead n L ih => rw [delete, ih h]; nofun

/-- Deleting finds the first value behind the key. -/
theorem delete_split {id : ℕ} {P Q S : Log N V} {content : V}
    (hP : ∀ item ∈ P, ∀ i, item ≠ .key i k) (hQ : ∀ item ∈ Q, ∀ c, item ≠ .value id c) :
    delete w k (P ++ .key id k :: (Q ++ .value id content :: S)) =
      P ++ .key id k :: (Q ++ .dead (w (.value id content)) :: S) := by
  induction P with
  | nil => simp [delete, killFirst_split hQ]
  | cons item P ih =>
    have hrest := ih fun x hx => hP x (by simp [hx])
    cases item with
    | key i name =>
      have hname : name ≠ k := fun hname => hP (.key i name) (by simp) i (by rw [hname])
      simpa [delete, hname] using hrest
    | value i c | dead n => simpa [delete] using hrest

end Delete

end EspOpenRtos.Math.KeyedLog
