/-
# The space of a log

How much of a log a compaction keeps. A log consists of dead items, keys and
values; if every value belongs to a key, then what is kept are the pairs, and
what is dropped are the dead items and the keys without a value. So a log
without such keys shrinks by its dead items exactly.
-/

import EspOpenRtos.Math.LogUpdate

namespace EspOpenRtos.Math.KeyedLog

variable {N V : Type*}

/-! ## Matched values -/

section Matched

/-- Each value stands behind a key with its number, and no two values have the
same number. -/
structure Matched (L : Log N V) : Prop where
  owned : ∀ A id content B, L = A ++ .value id content :: B → id ∈ (keys A).map Prod.fst
  single : ∀ id, (values id L).length ≤ 1

variable {w : Item N V → ℕ} {L : Log N V}

/-- The values of a log are in its pairs, or belong to other numbers. -/
theorem size_le_pairsSize_add_owed {S : List ℕ} (hkey : ∀ i name, w (.key i name) = 0)
    (hdead : ∀ n, w (.dead n) = 0)
    (owned : ∀ A id content B, L = A ++ .value id content :: B → id ∈ S ∨ id ∈ (keys A).map Prod.fst)
    (single : ∀ id, (values id L).length ≤ 1) :
    size w L ≤ pairsSize w (pairs L) + owed w S L := by
  induction L generalizing S with
  | nil => exact Nat.zero_le _
  | cons item L ih =>
    have howned (A : Log N V) (id : ℕ) (content : V) (B : Log N V)
        (hsplit : L = A ++ .value id content :: B) : id ∈ S ∨ id ∈ (keys (item :: A)).map Prod.fst :=
      owned (item :: A) id content B (by rw [hsplit]; rfl)
    cases item with
    | key i name =>
      have hrest := ih (S := i :: S) (fun A id content B hsplit => by
        simpa [or_left_comm, or_assoc] using howned A id content B hsplit) single
      have hsingle := single i
      rw [owed_cons] at hrest
      simp only [pairs, size_cons, hkey, owed_key, values_key] at hsingle ⊢
      split
      · next hvalues =>
        rw [hvalues] at hrest
        simp only [List.map_nil, List.sum_nil] at hrest
        omega
      · next content rest hvalues =>
        rw [hvalues] at hrest hsingle
        obtain rfl : rest = [] := by simpa using hsingle
        simp only [pairsSize, List.map_cons, List.map_nil, List.sum_cons, List.sum_nil] at hrest ⊢
        omega
    | value i content =>
      have hrest := ih howned fun id => le_trans (List.Sublist.length_le
        (List.Sublist.filterMap _ (List.sublist_cons_self _ L))) (single id)
      have hmem : i ∈ S := by simpa using owned [] i content L rfl
      have hone : 1 * w (.value i content) ≤ S.count i * w (.value i content) :=
        Nat.mul_le_mul_right _ (List.count_pos_iff.mpr hmem)
      rw [pairs, size_cons, owed_value]
      omega
    | dead n =>
      have hrest := ih howned single
      rw [pairs, size_cons, hdead, owed_dead]
      omega

/-- In a matched log all values are in pairs. -/
theorem Matched.size_le (h : Matched L) (hkey : ∀ i name, w (.key i name) = 0)
    (hdead : ∀ n, w (.dead n) = 0) : size w L ≤ pairsSize w (pairs L) :=
  size_le_pairsSize_add_owed (S := []) hkey hdead
    (fun A id content B hsplit => Or.inr (h.owned A id content B hsplit)) h.single

end Matched

/-! ## Parts of a log -/

section Parts

variable {w : Item N V → ℕ} {L : Log N V} {maxId : ℕ}

/-- The size of an item that is a value. -/
def valueSize (w : Item N V → ℕ) : Item N V → ℕ
  | .value id content => w (.value id content)
  | _ => 0

/-- A log consists of dead items, keys and values. -/
theorem size_eq_parts (hdead : ∀ n, w (.dead n) = n) :
    size w L =
      deadSize L + ((keys L).map fun p => w (.key p.1 p.2)).sum + size (valueSize w) L := by
  induction L with
  | nil => rfl
  | cons item L ih =>
    have hcons : deadSize (item :: L) = item.deadSize + deadSize L := by simp [deadSize]
    rw [size_cons, size_cons, ih, hcons]
    cases item with
    | key id name =>
      simp only [keys_key, List.map_cons, List.sum_cons, valueSize, Item.deadSize]
      omega
    | value id content =>
      simp only [keys_value, valueSize, Item.deadSize]
      omega
    | dead n =>
      simp only [keys_dead, valueSize, Item.deadSize, hdead]
      omega

theorem pairsSize_eq_parts (ps : List (ℕ × N × V)) :
    pairsSize w ps =
      (ps.map fun p => w (.key p.1 p.2.1)).sum + pairsSize (valueSize w) ps := by
  simp only [pairsSize, valueSize, zero_add]
  exact List.sum_map_add

/-- If no key is without a value then the pairs are those of the keys. -/
theorem keys_eq_of_length_le (h : (keys L).length ≤ (pairs L).length) :
    keys L = (pairs L).map fun p => (p.1, p.2.1) :=
  (pairs_sublist_keys.eq_of_length_le (by simpa using h)).symm

/-- Without keys that have no value, a log consists of its pairs and dead items. -/
theorem Matched.size_le_pairs (h : Matched L) (hdead : ∀ n, w (.dead n) = n)
    (hused : (keys L).length ≤ (pairs L).length) :
    size w L ≤ deadSize L + pairsSize w (pairs L) := by
  have hvalues : size (valueSize w) L ≤ pairsSize (valueSize w) (pairs L) :=
    h.size_le (fun _ _ => rfl) fun _ => rfl
  have hkeys : ((keys L).map fun p => w (.key p.1 p.2)).sum =
      ((pairs L).map fun p => w (.key p.1 p.2.1)).sum := by
    rw [keys_eq_of_length_le hused, List.map_map]
    rfl
  rw [size_eq_parts hdead, pairsSize_eq_parts, hkeys]
  omega

/-- The keys without a value are those that the counter counts. -/
theorem Matched.length_keys_le (h : Matched L) (hunused : unused L ≤ 0) :
    (keys L).length ≤ (pairs L).length := by
  have hvalues : size oneIfValue L ≤ pairsSize oneIfValue (pairs L) :=
    h.size_le (fun _ _ => rfl) fun _ => rfl
  rw [size_oneIfValue, pairsSize_oneIfValue] at hvalues
  rw [unused] at hunused
  omega

/-- If no key is without a value then each has one. -/
theorem Inv.lookup_ne_none [DecidableEq N] (inv : Inv maxId L)
    (hused : (keys L).length ≤ (pairs L).length) {p : ℕ × N} (hp : p ∈ keys L) :
    lookup L p.2 ≠ none := by
  rw [keys_eq_of_length_le hused] at hp
  obtain ⟨q, hq, rfl⟩ := List.mem_map.mp hp
  rw [inv.lookup_of_mem_pairs hq]
  exact Option.some_ne_none _

end Parts

/-! ## The pairs of other keys -/

section Others

variable [DecidableEq N] {w : Item N V → ℕ} {L : Log N V} {maxId : ℕ}

/-- The pairs of all keys but one. -/
def others (k : N) (L : Log N V) : List (ℕ × N × V) := (pairs L).filter fun p => p.2.1 ≠ k

theorem pairsSize_filter (k : N) (ps : List (ℕ × N × V)) :
    pairsSize w ps = pairsSize w (ps.filter fun p => p.2.1 ≠ k) +
      pairsSize w (ps.filter fun p => p.2.1 = k) := by
  have hperm := (List.filter_append_perm (fun p => p.2.1 ≠ k) ps).map fun p =>
    w (.key p.1 p.2.1) + w (.value p.1 p.2.2)
  simpa [pairsSize] using hperm.sum_eq.symm

/-- At most one pair has a given name. -/
theorem filter_name_eq {ps : List (ℕ × N × V)} (names : (ps.map fun p => p.2.1).Nodup) (k : N) :
    (ps.filter fun p => p.2.1 = k) = (ps.find? fun p => p.2.1 = k).toList := by
  induction ps with
  | nil => rfl
  | cons p ps ih =>
    rw [List.map_cons, List.nodup_cons] at names
    by_cases hp : p.2.1 = k
    · have hnone : (ps.filter fun p => p.2.1 = k) = [] := by
        rw [List.filter_eq_nil_iff]
        intro q hq hname
        refine names.1 (List.mem_map.mpr ⟨q, hq, ?_⟩)
        rw [hp]
        simpa using hname
      simp [hp, hnone]
    · simp [hp, ih names.2]

/-- The pairs are those of the other keys and the one of the key. -/
theorem Inv.pairsSize_eq_others (inv : Inv maxId L) (uniform : Uniform w) (k : N) (id : ℕ) :
    pairsSize w (pairs L) = pairsSize w (others k L) +
      ((lookup L k).map fun content => w (.key id k) + w (.value id content)).getD 0 := by
  rw [pairsSize_filter k (pairs L), filter_name_eq inv.pairs_names k, lookup_eq_find_pairs inv.names,
    others]
  congr 1
  cases hfind : (pairs L).find? fun p => p.2.1 = k with
  | none => rfl
  | some p =>
    have hname : p.2.1 = k := by simpa using List.find?_some hfind
    simp [pairsSize, hname, uniform.key p.1 id, uniform.value p.1 id]

/-- What a compaction keeps that leaves out the value of a key. -/
theorem Inv.size_compact (inv : Inv maxId L) (uniform : Uniform w) (k : N) (id : ℕ) :
    size w (KeyedLog.compact (keyId L k) L) = pairsSize w (others k L) +
      ((lookup L k).map fun _ => w (.key id k)).getD 0 := by
  have hpairs := inv.pairsSize_eq_others uniform k id
  have hsize : size w (KeyedLog.compact (keyId L k) L) + _ = _ :=
    size_renumber uniform _ _ _
  cases hkey : keyId L k with
  | none =>
    simp only [hkey, lookup_of_keyId_none hkey] at hpairs hsize ⊢
    simpa [hpairs] using hsize
  | some i =>
    have hid : ∀ p ∈ pairs L, some i = some p.1 ↔ p.2.1 = k := by
      intro p hp
      have hmem : (p.1, p.2.1) ∈ keys L :=
        pairs_sublist_keys.subset (List.mem_map.mpr ⟨p, hp, rfl⟩)
      have hmem' := mem_keys_of_keyId hkey
      rw [Option.some.injEq, eq_comm]
      constructor
      · intro heq
        exact congrArg Prod.snd (List.inj_on_of_nodup_map inv.nodup_ids hmem hmem' heq)
      · intro heq
        exact congrArg Prod.fst (List.inj_on_of_nodup_map inv.names hmem hmem' heq)
    rw [hkey, List.filter_congr fun p hp => decide_eq_decide.mpr (hid p hp),
      filter_name_eq inv.pairs_names k, find_pairs_of_keyId inv.names hkey] at hsize
    cases hlookup : lookup L k with
    | none =>
      simp only [hlookup] at hpairs hsize
      simpa [hpairs] using hsize
    | some content =>
      simp only [hlookup, Option.map_some, Option.getD_some, Option.toList_some, List.map_cons,
        List.map_nil, List.sum_cons, List.sum_nil, uniform.value i id] at hpairs hsize ⊢
      omega

end Others

end EspOpenRtos.Math.KeyedLog
