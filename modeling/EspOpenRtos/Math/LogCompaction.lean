/-
# Compacting a log

Compaction reads the pairs of a log and writes them out with the numbers
`1, 2, ...`. The pairs carry everything a reader can see, so the compacted log
stands for the same map; leaving out the value of one key only removes that key
from the map. The invariant of the keys is what bounds the result: distinct
numbers mean distinct value items, so compacting never makes a log larger.
-/

import EspOpenRtos.Math.KeyedLog

namespace EspOpenRtos.Math.KeyedLog

variable {N V : Type*}

/-! ## The invariant -/

section Inv

variable {maxId : ℕ} {L M : Log N V}

theorem inv_nil : Inv maxId ([] : Log N V) := ⟨by simp, by simp, by simp⟩

/-- The invariant depends on the keys only. -/
theorem Inv.of_keys_eq (inv : Inv maxId L) (h : keys M = keys L) : Inv maxId M :=
  ⟨h ▸ inv.names, h ▸ inv.ids, h ▸ inv.range⟩

/-- Numbers increase, so the last one is the largest. -/
theorem Inv.le_lastId (inv : Inv maxId L) {p : ℕ × N} (hp : p ∈ keys L) : p.1 ≤ lastId L := by
  cases hlast : (keys L).getLast? with
  | none => simp_all
  | some last =>
    obtain ⟨front, hkeys⟩ := List.getLast?_eq_some_iff.mp hlast
    have hids := inv.ids
    rw [hkeys, List.map_append, List.pairwise_append] at hids
    simp only [lastId, hlast, Option.map_some, Option.getD_some]
    rw [hkeys, List.mem_append, List.mem_singleton] at hp
    rcases hp with hp | rfl
    · exact (hids.2.2 p.1 (List.mem_map_of_mem hp) last.1 (by simp)).le
    · exact le_rfl

theorem Inv.lastId_le (inv : Inv maxId L) : lastId L ≤ maxId := by
  simp only [lastId]
  cases h : (keys L).getLast? with
  | none => simp
  | some p => simpa using (inv.range p (List.mem_of_getLast? h)).2

theorem Inv.append_key (inv : Inv maxId L) {id : ℕ} {name : N}
    (fresh : name ∉ (keys L).map Prod.snd) (hlast : lastId L < id) (hmax : id ≤ maxId) :
    Inv maxId (L ++ [.key id name]) := by
  refine ⟨?_, ?_, ?_⟩
  · simp only [keys_append, keys_key, keys_nil, List.map_append, List.map_cons, List.map_nil]
    refine List.nodup_append.mpr ⟨inv.names, by simp, ?_⟩
    intro name' hmem other hother
    rw [List.mem_singleton.mp hother]
    rintro rfl
    exact fresh hmem
  · simp only [keys_append, keys_key, keys_nil, List.map_append, List.map_cons, List.map_nil]
    refine List.pairwise_append.mpr ⟨inv.ids, by simp, ?_⟩
    intro i hi j hj
    obtain ⟨p, hp, rfl⟩ := List.mem_map.mp hi
    rw [List.mem_singleton.mp hj]
    exact (inv.le_lastId hp).trans_lt hlast
  · intro p hp
    simp only [keys_append, keys_key, keys_nil, List.mem_append, List.mem_singleton] at hp
    rcases hp with hp | rfl
    · exact inv.range p hp
    · exact ⟨by omega, hmax⟩

end Inv

/-! ## Pairs -/

section Pairs

variable {maxId : ℕ} {L : Log N V}

/-- The keys of the pairs are keys of the log, in the same order. -/
theorem pairs_sublist_keys : ((pairs L).map fun p => (p.1, p.2.1)).Sublist (keys L) := by
  induction L using Log.induction with
  | nil => simp [pairs]
  | key id name L ih =>
    simp only [pairs, keys_key]
    split
    · exact ih.cons _
    · exact ih.cons_cons _
  | value id content L ih => exact ih
  | dead n L ih => exact ih

theorem pairs_append_dead {D : Log N V} (h : Dead D) : pairs (L ++ D) = pairs L := by
  induction L with
  | nil => simpa [pairs, h.keys_eq] using pairs_sublist_keys (L := D)
  | cons item L ih => cases item <;> simp [pairs, ih, h.values_eq]

theorem Inv.pairs_names (inv : Inv maxId L) : ((pairs L).map fun p => p.2.1).Nodup := by
  have hsub := (pairs_sublist_keys (L := L)).map Prod.snd
  rw [List.map_map] at hsub
  exact inv.names.sublist hsub

theorem Inv.pairs_ids (inv : Inv maxId L) : ((pairs L).map Prod.fst).Pairwise (· < ·) := by
  have hsub := (pairs_sublist_keys (L := L)).map Prod.fst
  rw [List.map_map] at hsub
  exact inv.ids.sublist hsub

theorem length_pairs_le_keys : (pairs L).length ≤ (keys L).length := by
  simpa using (pairs_sublist_keys (L := L)).length_le

/-- A pair whose key is not among the keys of the log does not exist. -/
theorem find_pairs_eq_none [DecidableEq N] {k : N} (h : k ∉ (keys L).map Prod.snd) :
    ((pairs L).find? fun p => p.2.1 = k) = none := by
  rw [List.find?_eq_none]
  intro p hp
  have hmem : p.2.1 ∈ (keys L).map Prod.snd := by
    have hkey := pairs_sublist_keys.subset (List.mem_map_of_mem hp)
    exact List.mem_map_of_mem (f := Prod.snd) hkey
  simp only [decide_eq_true_eq]
  rintro rfl
  exact h hmem

/-- What a reader sees of a key is its pair. -/
theorem find_pairs [DecidableEq N] (names : ((keys L).map Prod.snd).Nodup) (k : N) :
    ((pairs L).find? fun p => p.2.1 = k) =
      match find k L with
      | none => none
      | some (id, rest) => (values id rest).head?.map fun content => (id, k, content) := by
  induction L using Log.induction with
  | nil => rfl
  | key id name L ih =>
    simp only [keys_key, List.map_cons, List.nodup_cons] at names
    by_cases hname : name = k
    · subst hname
      cases hvalues : values id L with
      | nil => simp [pairs, find, hvalues, find_pairs_eq_none names.1]
      | cons content rest => simp [pairs, find, hvalues]
    · cases hvalues : values id L with
      | nil | cons content rest => simpa [pairs, find, hvalues, hname] using ih names.2
  | value id content L ih => exact ih names
  | dead n L ih => exact ih names

theorem lookup_eq_find_pairs [DecidableEq N] (names : ((keys L).map Prod.snd).Nodup) (k : N) :
    lookup L k = ((pairs L).find? fun p => p.2.1 = k).map fun p => p.2.2 := by
  rw [find_pairs names, lookup, candidates]
  cases find k L with
  | none => rfl
  | some p => simp [Function.comp_def]

/-- The pairs are what the log has for their keys. -/
theorem Inv.lookup_of_mem_pairs [DecidableEq N] (inv : Inv maxId L) {p : ℕ × N × V}
    (h : p ∈ pairs L) : lookup L p.2.1 = some p.2.2 := by
  have hsome : ((pairs L).find? fun q => q.2.1 = p.2.1).isSome = true :=
    List.find?_isSome.mpr ⟨p, h, by simp⟩
  obtain ⟨q, hq⟩ := Option.isSome_iff_exists.mp hsome
  have hname : q.2.1 = p.2.1 := by simpa using List.find?_some hq
  have hsame : q = p :=
    List.inj_on_of_nodup_map inv.pairs_names (List.mem_of_find?_eq_some hq) h hname
  rw [lookup_eq_find_pairs inv.names, hq, hsame]
  rfl

/-- The pair of a key has the number of the key. -/
theorem find_pairs_of_keyId [DecidableEq N] (names : ((keys L).map Prod.snd).Nodup) {k : N}
    {id : ℕ} (h : keyId L k = some id) :
    ((pairs L).find? fun p => p.2.1 = k) =
      (lookup L k).map fun content => (id, k, content) := by
  rw [find_pairs names, lookup, candidates]
  simp only [keyId, Option.map_eq_some_iff] at h
  obtain ⟨⟨i, rest⟩, hfind, rfl⟩ := h
  rw [hfind]

end Pairs

/-! ## Renumbering -/

section Renumber

variable {omitted : Option ℕ} {last : ℕ} {ps : List (ℕ × N × V)}

theorem ids_renumber :
    (keys (renumber omitted last ps)).map Prod.fst = List.range' (last + 1) ps.length := by
  induction ps generalizing last with
  | nil => rfl
  | cons p ps ih =>
    simp only [renumber, List.length_cons, List.range'_succ]
    split_ifs <;> simp [ih]

theorem names_renumber :
    (keys (renumber omitted last ps)).map Prod.snd = ps.map fun p => p.2.1 := by
  induction ps generalizing last with
  | nil => rfl
  | cons p ps ih =>
    simp only [renumber, List.map_cons]
    split_ifs <;> simp [ih]

theorem lastId_renumber : lastId (renumber omitted 0 ps) = ps.length := by
  rw [lastId, ← List.getLast?_map, ids_renumber]
  cases ps with
  | nil => rfl
  | cons p ps => simp [List.getLast?_range']

/-- The numbers in use are those above the last one used before. -/
theorem values_renumber {id : ℕ} (h : id ≤ last) : values id (renumber omitted last ps) = [] := by
  induction ps generalizing last with
  | nil => rfl
  | cons p ps ih =>
    have hrest : values id (renumber omitted (last + 1) ps) = [] := ih (by omega)
    simp only [renumber]
    split_ifs
    · simpa using hrest
    · simpa [show last + 1 ≠ id by omega] using hrest

theorem inv_renumber {maxId : ℕ} (names : (ps.map fun p => p.2.1).Nodup)
    (hmax : ps.length ≤ maxId) : Inv maxId (renumber omitted 0 ps) := by
  refine ⟨names_renumber ▸ names, ?_, ?_⟩
  · rw [ids_renumber]
    exact List.pairwise_lt_range'
  · intro p hp
    have hmem := List.mem_map_of_mem (f := Prod.fst) hp
    rw [ids_renumber, List.mem_range'_1] at hmem
    omega

/-- Renumbering everything depends on names and values only. -/
theorem renumber_none_congr {qs : List (ℕ × N × V)} (h : ps.map Prod.snd = qs.map Prod.snd) :
    renumber none last ps = renumber none last qs := by
  have hzero (last : ℕ) (ps : List (ℕ × N × V)) :
      renumber none last ps = renumber none last ((ps.map Prod.snd).map (Prod.mk 0)) := by
    induction ps generalizing last with
    | nil => rfl
    | cons p ps ih => simp only [renumber, List.map_cons, ih (last + 1), reduceCtorEq, if_false]
  rw [hzero last ps, h, ← hzero last qs]

/-- Reading a renumbered log back gives the pairs it was written from. -/
theorem pairs_renumber_none : (pairs (renumber none last ps)).map Prod.snd = ps.map Prod.snd := by
  induction ps generalizing last with
  | nil => rfl
  | cons p ps ih => simp [renumber, pairs, ih]

theorem renumberedId_of_not_mem {id : ℕ} (h : id ∉ ps.map Prod.fst) :
    renumberedId id last ps = id := by
  induction ps generalizing last with
  | nil => rfl
  | cons p ps ih =>
    simp only [List.map_cons, List.mem_cons, not_or] at h
    simp [renumberedId, Ne.symm h.1, ih h.2]

theorem renumberedId_le (ps : List (ℕ × N × V)) (id last : ℕ) :
    renumberedId id last ps ≤ max id (last + ps.length) := by
  induction ps generalizing last with
  | nil => exact le_max_left _ _
  | cons p ps ih =>
    rw [renumberedId, List.length_cons]
    split_ifs
    · omega
    · have := ih (last + 1)
      omega

variable [DecidableEq N]

/-- Behind each key stands exactly its own value, if it was not left out. -/
theorem candidates_renumber (names : (ps.map fun p => p.2.1).Nodup) (k : N) :
    candidates (renumber omitted last ps) k =
      match ps.find? fun p => p.2.1 = k with
      | none => []
      | some (id, _, content) => if omitted = some id then [] else [content] := by
  induction ps generalizing last with
  | nil => rfl
  | cons p ps ih =>
    obtain ⟨id, name, content⟩ := p
    simp only [List.map_cons, List.nodup_cons] at names
    have hlater : values (last + 1) (renumber omitted (last + 1) ps) = [] := values_renumber le_rfl
    by_cases hname : name = k
    · by_cases homit : omitted = some id
      · rw [homit] at hlater ⊢
        simp [renumber, candidates, find, hname, hlater]
      · simp [renumber, candidates, find, hname, homit, hlater]
    · by_cases homit : omitted = some id
      · rw [homit] at ih ⊢
        simpa [renumber, candidates, find, hname] using ih names.2
      · simpa [renumber, candidates, find, hname, homit] using ih names.2

theorem keyId_renumber (names : (ps.map fun p => p.2.1).Nodup)
    (ids : (ps.map Prod.fst).Nodup) {id : ℕ} {k : N} {content : V} (h : (id, k, content) ∈ ps) :
    keyId (renumber omitted last ps) k = some (renumberedId id last ps) := by
  induction ps generalizing last with
  | nil => simp at h
  | cons p ps ih =>
    obtain ⟨i, name, content'⟩ := p
    simp only [List.map_cons, List.nodup_cons] at names ids
    rcases List.mem_cons.mp h with heq | hmem
    · cases heq
      simp only [renumber, renumberedId]
      split_ifs <;> simp [keyId, find]
    · have hname : name ≠ k := by
        rintro rfl
        exact names.1 (List.mem_map_of_mem (f := fun p : ℕ × N × V => p.2.1) hmem)
      have hid : i ≠ id := by
        rintro rfl
        exact ids.1 (List.mem_map_of_mem (f := Prod.fst) hmem)
      have hrest : keyId (renumber omitted (last + 1) ps) k = some (renumberedId id (last + 1) ps) :=
        ih names.2 ids.2 hmem
      simp only [renumber, renumberedId, if_neg hid]
      split_ifs <;> simpa [keyId, find, hname] using hrest

end Renumber

/-! ## Size -/

section Size

/-- The size of an item does not depend on its number. -/
structure Uniform (w : Item N V → ℕ) : Prop where
  key : ∀ i j name, w (.key i name) = w (.key j name)
  value : ∀ i j content, w (.value i content) = w (.value j content)

/-- The size that pairs take when they are written out. -/
def pairsSize (w : Item N V → ℕ) (ps : List (ℕ × N × V)) : ℕ :=
  (ps.map fun p => w (.key p.1 p.2.1) + w (.value p.1 p.2.2)).sum

/-- The size of the values with some numbers. -/
def owed (w : Item N V → ℕ) (S : List ℕ) (L : Log N V) : ℕ :=
  (S.map fun id => ((values id L).map fun content => w (.value id content)).sum).sum

variable {w : Item N V → ℕ} {L : Log N V}

@[simp] theorem owed_key (S : List ℕ) (i : ℕ) (name : N) : owed w S (.key i name :: L) = owed w S L := rfl
@[simp] theorem owed_dead (S : List ℕ) (n : ℕ) : owed w S (.dead n :: L) = owed w S L := rfl

theorem owed_cons (id : ℕ) (S : List ℕ) : owed w (id :: S) L =
    ((values id L).map fun content => w (.value id content)).sum + owed w S L := rfl

theorem owed_value (S : List ℕ) (i : ℕ) (content : V) :
    owed w S (.value i content :: L) = owed w S L + S.count i * w (.value i content) := by
  induction S with
  | nil => simp [owed]
  | cons id S ih =>
    rw [owed_cons, owed_cons, ih, values_value, List.count_cons]
    by_cases hid : i = id
    · simp only [hid, if_true, List.map_cons, List.sum_cons, beq_self_eq_true, Nat.add_mul]
      omega
    · simp only [hid, if_false, beq_iff_eq, Ne.symm hid, Nat.add_zero]
      omega

/-- What pairs and other numbers take are distinct items of the log. -/
theorem pairsSize_add_owed_le {S : List ℕ} (ids : (S ++ (keys L).map Prod.fst).Nodup) :
    pairsSize w (pairs L) + owed w S L ≤ size w L := by
  induction L using Log.induction generalizing S with
  | nil => simp [pairs, pairsSize, owed]
  | key i name L ih =>
    -- behind a key, its values are taken
    have hrest := ih (S := i :: S) (by simpa [List.nodup_middle] using ids)
    rw [owed_cons] at hrest
    simp only [pairs, size_cons, owed_key]
    split
    · omega
    · next content rest hvalues =>
      rw [hvalues] at hrest
      simp only [pairsSize, List.map_cons, List.sum_cons] at hrest ⊢
      omega
  | value i content L ih =>
    have hrest := ih ids
    have hone : S.count i * w (.value i content) ≤ 1 * w (.value i content) :=
      Nat.mul_le_mul_right _ (List.nodup_iff_count_le_one.mp ids.of_append_left i)
    rw [pairs, size_cons, owed_value]
    omega
  | dead n L ih =>
    have hrest := ih ids
    rw [pairs, size_cons, owed_dead]
    omega

/-- Pairs are not larger than the log. -/
theorem pairsSize_le (ids : ((keys L).map Prod.fst).Nodup) : pairsSize w (pairs L) ≤ size w L :=
  pairsSize_add_owed_le (S := []) ids

/-- What is written out are the pairs but for the values that are left out. -/
theorem size_renumber (uniform : Uniform w) (omitted : Option ℕ) (last : ℕ)
    (ps : List (ℕ × N × V)) :
    size w (renumber omitted last ps) +
        ((ps.filter fun p => omitted = some p.1).map fun p => w (.value p.1 p.2.2)).sum =
      pairsSize w ps := by
  induction ps generalizing last with
  | nil => rfl
  | cons p ps ih =>
    obtain ⟨id, name, content⟩ := p
    have hrest := ih (last + 1)
    simp only [pairsSize, List.map_cons, List.sum_cons] at hrest ⊢
    by_cases homit : omitted = some id
    · rw [renumber, if_pos homit, List.filter_cons_of_pos (by simpa using homit), size_cons,
        uniform.key (last + 1) id]
      simp only [List.map_cons, List.sum_cons]
      omega
    · rw [renumber, if_neg homit, List.filter_cons_of_neg (by simpa using homit), size_cons,
        size_cons, uniform.key (last + 1) id, uniform.value (last + 1) id]
      omega

theorem size_renumber_none (uniform : Uniform w) {last : ℕ} {ps : List (ℕ × N × V)} :
    size w (renumber none last ps) = pairsSize w ps := by
  simpa using size_renumber uniform none last ps

theorem size_renumber_le (uniform : Uniform w) {omitted : Option ℕ} {last : ℕ}
    {ps : List (ℕ × N × V)} : size w (renumber omitted last ps) ≤ pairsSize w ps :=
  (Nat.le_add_right _ _).trans_eq (size_renumber uniform _ _ _)

end Size

end EspOpenRtos.Math.KeyedLog
