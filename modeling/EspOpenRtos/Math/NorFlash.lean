/-
# NOR flash images

A NOR flash is a map from addresses to bytes with two ways to change it:
erasing sets bytes to all ones, and programming can only clear bits. Software
that wants to store data must therefore program it over bytes that still have
every bit set which the data needs.

`patch` is the update such software has in mind. The central fact is that
programming and patching agree wherever the data is programmable, so proofs
about stored data can forget that the medium only clears bits. Reads are lists
of bytes, and their algebra (splitting, congruence, reading back a patch) is
all that later modules use.
-/

import Mathlib.Data.List.GetD
import Mathlib.Tactic.Linarith

namespace EspOpenRtos.Math.NorFlash

/-- The content of a flash chip. -/
abbrev Image := ℕ → UInt8

/-- The bytes of an interval. -/
def read (f : Image) (addr size : ℕ) : List UInt8 :=
  (List.range size).map fun i => f (addr + i)

/-- Programming clears the bits that are zero in the data. -/
def program (f : Image) (addr : ℕ) (data : List UInt8) : Image := fun a =>
  if addr ≤ a then f a &&& data.getD (a - addr) 0xFF else f a

/-- Programming that stops early: of the bits to be cleared, those set in
`keep` stay set. -/
def programPartly (f : Image) (addr : ℕ) (data : List UInt8) (keep : Image) : Image := fun a =>
  if addr ≤ a ∧ a < addr + data.length then f a &&& (data.getD (a - addr) 0xFF ||| keep a)
  else f a

/-- Erasing sets every bit of an interval. -/
def erase (f : Image) (addr size : ℕ) : Image := fun a =>
  if addr ≤ a ∧ a < addr + size then 0xFF else f a

/-- Store data at an address, whatever was there before. -/
def patch (f : Image) (addr : ℕ) (data : List UInt8) : Image := fun a =>
  if addr ≤ a then data.getD (a - addr) (f a) else f a

/-- The data can be stored by programming: no bit has to be set. -/
def Programmable (f : Image) (addr : ℕ) (data : List UInt8) : Prop :=
  ∀ (i : ℕ) (h : i < data.length), f (addr + i) &&& data[i] = data[i]

/-- Some of the bits that the data clears have been cleared, and nothing else
has changed. -/
structure PartlyProgrammed (f g : Image) (addr : ℕ) (data : List UInt8) : Prop where
  outside : ∀ a, a < addr ∨ addr + data.length ≤ a → g a = f a
  inside : ∀ (i : ℕ) (h : i < data.length), ∃ keep, g (addr + i) = f (addr + i) &&& (data[i] ||| keep)

/-! ## Reading -/

section Read

variable {f g : Image} {addr size : ℕ}

@[simp]
theorem length_read : (read f addr size).length = size := by simp [read]

@[simp]
theorem read_zero : read f addr 0 = [] := rfl

theorem read_succ (f : Image) (addr size : ℕ) :
    read f addr (size + 1) = f addr :: read f (addr + 1) size := by
  simp only [read, List.range_succ_eq_map, List.map_cons, List.map_map, Nat.add_zero]
  congr 1
  apply List.map_congr_left
  intro i _
  exact congrArg f (by simp only [Nat.succ_eq_add_one]; omega)

theorem getElem_read {i : ℕ} (h : i < (read f addr size).length) :
    (read f addr size)[i] = f (addr + i) := by simp [read]

theorem getD_read {i : ℕ} (h : i < size) (x : UInt8) : (read f addr size).getD i x = f (addr + i) := by
  have h' : i < (read f addr size).length := by simpa using h
  rw [List.getD_eq_getElem _ _ h', getElem_read]

/-- An interval splits anywhere. -/
theorem read_add (f : Image) (addr m n : ℕ) :
    read f addr (m + n) = read f addr m ++ read f (addr + m) n := by
  simp only [read, List.range_add, List.map_append, List.map_map]
  congr 1
  apply List.map_congr_left
  intro i _
  simp [Nat.add_assoc]

theorem read_congr (same : ∀ a, addr ≤ a → a < addr + size → f a = g a) :
    read f addr size = read g addr size := by
  apply List.map_congr_left
  intro i hi
  rw [List.mem_range] at hi
  exact same _ (by omega) (by omega)

/-- A byte of an interval that is known as a list. -/
theorem byte_of_read {data : List UInt8} (h : read f addr data.length = data) {i : ℕ}
    (hi : i < data.length) : f (addr + i) = data[i] := by
  have hi' : i < (read f addr data.length).length := by simpa using hi
  rw [← getElem_read hi']
  congr 1

theorem read_eq_iff {data : List UInt8} :
    read f addr data.length = data ↔ ∀ (i : ℕ) (h : i < data.length), f (addr + i) = data[i] := by
  refine ⟨fun h i hi => byte_of_read h hi, fun h => ?_⟩
  apply List.ext_getElem (by simp)
  intro i h1 h2
  rw [getElem_read, h i h2]

/-- The two parts of an interval that is known as a concatenation. -/
theorem read_append_iff {data rest : List UInt8} :
    read f addr (data.length + rest.length) = data ++ rest ↔
      read f addr data.length = data ∧ read f (addr + data.length) rest.length = rest := by
  rw [read_add]
  constructor
  · intro h
    exact List.append_inj h (by simp)
  · rintro ⟨h1, h2⟩
    rw [h1, h2]

theorem read_eq_append_iff {data rest : List UInt8} :
    read f addr (data ++ rest).length = data ++ rest ↔
      read f addr data.length = data ∧ read f (addr + data.length) rest.length = rest := by
  rw [List.length_append, read_append_iff]

theorem take_read (n : ℕ) : (read f addr size).take n = read f addr (min n size) := by
  rw [read, read, ← List.map_take, List.take_range]

theorem drop_read {n : ℕ} (h : n ≤ size) :
    (read f addr size).drop n = read f (addr + n) (size - n) := by
  obtain ⟨m, rfl⟩ := Nat.exists_eq_add_of_le h
  rw [read_add, List.drop_left' length_read, Nat.add_sub_cancel_left]

end Read

/-! ## Patching -/

section Patch

variable {f g : Image} {addr : ℕ} {data : List UInt8}

@[simp]
theorem patch_nil : patch f addr [] = f := by
  funext a
  simp [patch]

theorem patch_of_lt {a : ℕ} (h : a < addr) : patch f addr data a = f a := by
  simp [patch, not_le.mpr h]

theorem patch_of_ge {a : ℕ} (h : addr + data.length ≤ a) : patch f addr data a = f a := by
  simp only [patch]
  split
  · rw [List.getD_eq_default _ _ (by omega)]
  · rfl

/-- A patch changes nothing outside its interval. -/
theorem patch_of_outside {a : ℕ} (h : a < addr ∨ addr + data.length ≤ a) :
    patch f addr data a = f a :=
  h.elim patch_of_lt patch_of_ge

theorem patch_at {i : ℕ} (h : i < data.length) : patch f addr data (addr + i) = data[i] := by
  simp [patch, h]

/-- Reading back a patch returns the data. -/
@[simp]
theorem read_patch_self : read (patch f addr data) addr data.length = data :=
  read_eq_iff.mpr fun _ h => patch_at h

theorem read_patch_of_disjoint {a size : ℕ} (h : a + size ≤ addr ∨ addr + data.length ≤ a) :
    read (patch f addr data) a size = read f a size := by
  apply read_congr
  intro x h1 h2
  exact patch_of_outside (by omega)

/-- Patching a concatenation is patching its parts in order. -/
theorem patch_append (rest : List UInt8) :
    patch f addr (data ++ rest) = patch (patch f addr data) (addr + data.length) rest := by
  funext a
  rcases lt_or_ge a addr with h | h
  · rw [patch_of_lt h, patch_of_lt (by omega), patch_of_lt h]
  · obtain ⟨i, rfl⟩ := Nat.exists_eq_add_of_le h
    rcases lt_or_ge i data.length with hi | hi
    · rw [patch_at (by simp; omega), patch_of_lt (by omega), patch_at hi,
        List.getElem_append_left hi]
    · obtain ⟨j, rfl⟩ := Nat.exists_eq_add_of_le hi
      rcases lt_or_ge j rest.length with hj | hj
      · rw [patch_at (by simp; omega), ← Nat.add_assoc, patch_at hj,
          List.getElem_append_right (by omega)]
        congr 1
        omega
      · rw [patch_of_ge (by simp; omega), patch_of_ge (by omega), patch_of_ge (by omega)]

/-- Patching in the middle of what is read. -/
theorem read_patch_middle {size : ℕ} {front new old back : List UInt8}
    (h : read f addr size = front ++ (old ++ back)) (same : new.length = old.length) :
    read (patch f (addr + front.length) new) addr size = front ++ (new ++ back) := by
  obtain rfl : size = (front ++ (old ++ back)).length := by rw [← h, length_read]
  obtain ⟨hfront, hrest⟩ := read_eq_append_iff.mp h
  obtain ⟨-, hback⟩ := read_eq_append_iff.mp hrest
  rw [show (front ++ (old ++ back)).length = (front ++ (new ++ back)).length by simp [same]]
  refine read_eq_append_iff.mpr ⟨?_, read_eq_append_iff.mpr ⟨read_patch_self, ?_⟩⟩
  · rw [read_patch_of_disjoint (.inl (Nat.le_refl _)), hfront]
  · rw [read_patch_of_disjoint (.inr (Nat.le_refl _)), same, hback]

/-- An image that agrees with `f` outside an interval is a patch of `f`. -/
theorem eq_patch_of_outside (outside : ∀ a, a < addr ∨ addr + data.length ≤ a → g a = f a)
    (inside : read g addr data.length = data) : g = patch f addr data := by
  funext a
  by_cases h : a < addr ∨ addr + data.length ≤ a
  · rw [outside a h, patch_of_outside h]
  · obtain ⟨i, rfl⟩ := Nat.exists_eq_add_of_le (show addr ≤ a by omega)
    rw [patch_at (by omega), byte_of_read inside (by omega)]

/-- Patching in two steps. -/
theorem patch_take_drop (n : ℕ) :
    patch (patch f addr (data.take n)) (addr + n) (data.drop n) = patch f addr data := by
  rcases le_total data.length n with h | h
  · rw [List.drop_eq_nil_of_le h, patch_nil, List.take_of_length_le h]
  · conv_rhs => rw [← List.take_append_drop n data, patch_append, List.length_take, Nat.min_eq_left h]

theorem patch_take_add {n : ℕ} (h : n ≤ data.length) (m : ℕ) :
    patch (patch f addr (data.take n)) (addr + n) ((data.drop n).take m) =
      patch f addr (data.take (n + m)) := by
  rw [List.take_add, patch_append, List.length_take, Nat.min_eq_left h]

end Patch

/-! ## Programming -/

section Program

variable {f : Image} {addr : ℕ} {data : List UInt8}

/-- Data is programmable over erased bytes. -/
theorem programmable_of_erased (h : ∀ i < data.length, f (addr + i) = 0xFF) :
    Programmable f addr data := by
  intro i hi
  rw [h i hi]
  exact UInt8.neg_one_and

/-- All zeros are programmable over anything. -/
theorem programmable_zeros (n : ℕ) : Programmable f addr (List.replicate n 0) := by
  intro i hi
  simp

/-- Programmable data is stored exactly. -/
theorem program_eq_patch (h : Programmable f addr data) : program f addr data = patch f addr data := by
  funext a
  simp only [program, patch]
  split
  · rcases lt_or_ge (a - addr) data.length with hi | hi
    · have hbyte := h (a - addr) hi
      rw [Nat.add_sub_cancel' (by assumption)] at hbyte
      rw [List.getD_eq_getElem _ _ hi, List.getD_eq_getElem _ _ hi, hbyte]
    · rw [List.getD_eq_default _ _ hi, List.getD_eq_default _ _ hi]
      exact UInt8.and_neg_one
  · rfl

theorem Programmable.take (h : Programmable f addr data) (n : ℕ) :
    Programmable f addr (data.take n) := by
  intro i hi
  rw [List.length_take] at hi
  rw [List.getElem_take]
  exact h i (by omega)

/-- What is left to program after a first part has been stored. -/
theorem Programmable.drop (h : Programmable f addr data) (n : ℕ) :
    Programmable (patch f addr (data.take n)) (addr + n) (data.drop n) := by
  intro i hi
  rw [List.length_drop] at hi
  rw [patch_of_ge (by rw [List.length_take]; omega), List.getElem_drop, Nat.add_assoc]
  exact h (n + i) (by omega)

theorem Programmable.left {rest : List UInt8} (h : Programmable f addr (data ++ rest)) :
    Programmable f addr data := by
  have htake := h.take data.length
  rwa [List.take_left] at htake

theorem Programmable.right {rest : List UInt8} (h : Programmable f addr (data ++ rest)) :
    Programmable (patch f addr data) (addr + data.length) rest := by
  have hdrop := h.drop data.length
  rwa [List.take_left, List.drop_left] at hdrop

theorem programPartly_of_outside {keep : Image} {a : ℕ}
    (h : a < addr ∨ addr + data.length ≤ a) : programPartly f addr data keep a = f a := by
  rw [programPartly, if_neg (by omega)]

/-- A first part that is stored only partly. -/
theorem partlyProgrammed_take {keep : Image} (n : ℕ) :
    PartlyProgrammed f (programPartly f addr (data.take n) keep) addr data := by
  constructor
  · intro a h
    exact programPartly_of_outside (by rw [List.length_take]; omega)
  · intro i h
    rcases lt_or_ge i n with hi | hi
    · refine ⟨keep (addr + i), ?_⟩
      simp [programPartly, hi, h]
    · refine ⟨0xFF, ?_⟩
      rw [programPartly_of_outside (by rw [List.length_take]; omega),
        show data[i] ||| 0xFF = 0xFF from UInt8.or_neg_one, show f (addr + i) &&& 0xFF = _ from
          UInt8.and_neg_one]

/-- A first part that is stored, then a rest that is stored only partly. -/
theorem PartlyProgrammed.of_drop {g : Image} {n : ℕ} (h : Programmable f addr data)
    (hrest : PartlyProgrammed (patch f addr (data.take n)) g (addr + n) (data.drop n)) :
    PartlyProgrammed f g addr data := by
  constructor
  · intro a ha
    rw [hrest.outside a (by rw [List.length_drop]; omega),
      patch_of_outside (by rw [List.length_take]; omega)]
  · intro i hi
    rcases lt_or_ge i n with hin | hin
    · refine ⟨0, ?_⟩
      rw [hrest.outside _ (by omega), patch_at (by rw [List.length_take]; omega),
        List.getElem_take, UInt8.or_zero, h i hi]
    · obtain ⟨j, rfl⟩ := Nat.exists_eq_add_of_le hin
      obtain ⟨keep, hkeep⟩ := hrest.inside j (by rw [List.length_drop]; omega)
      refine ⟨keep, ?_⟩
      rw [← Nat.add_assoc, hkeep, List.getElem_drop,
        patch_of_ge (by rw [List.length_take]; omega)]

end Program

/-! ## Clearing one bit -/

section Bit

theorem and_or_self (x keep : UInt8) : x &&& (x ||| keep) = x := by
  apply UInt8.eq_of_toBitVec_eq
  ext i
  simp only [UInt8.toBitVec_and, UInt8.toBitVec_or, BitVec.getElem_and, BitVec.getElem_or]
  cases x.toBitVec[i] <;> simp

/-- Clearing one bit partly either clears it or leaves the byte as it is. -/
theorem and_clear_or (x keep : UInt8) (n : Fin 8) :
    x &&& (x &&& ~~~UInt8.ofNat (2 ^ n.1) ||| keep) = x &&& ~~~UInt8.ofNat (2 ^ n.1) ∨
      x &&& (x &&& ~~~UInt8.ofNat (2 ^ n.1) ||| keep) = x := by
  have hmask : ∀ (i : ℕ) (_ : i < 8),
      (~~~UInt8.ofNat (2 ^ n.1)).toBitVec[i] = !decide (i = n.1) := by
    revert n
    decide
  have hbits (i : ℕ) (hi : i < 8) : (x &&& (x &&& ~~~UInt8.ofNat (2 ^ n.1) ||| keep)).toBitVec[i] =
      (x.toBitVec[i] && (!decide (i = n.1) || keep.toBitVec[i])) := by
    simp only [UInt8.toBitVec_and, UInt8.toBitVec_or, BitVec.getElem_and, BitVec.getElem_or, hmask]
    cases x.toBitVec[i] <;> simp
  cases hkeep : keep.toBitVec[n.1] with
  | false =>
    left
    apply UInt8.eq_of_toBitVec_eq
    ext i hi
    rw [hbits, UInt8.toBitVec_and, BitVec.getElem_and, hmask]
    by_cases h : i = n.1
    · subst h
      simp [hkeep]
    · simp [h]
  | true =>
    right
    apply UInt8.eq_of_toBitVec_eq
    ext i hi
    rw [hbits]
    by_cases h : i = n.1
    · subst h
      simp [hkeep]
    · simp [h]

end Bit

/-! ## Erasing -/

section Erase

variable {f : Image} {addr size a : ℕ}

theorem erase_inside (h1 : addr ≤ a) (h2 : a < addr + size) : erase f addr size a = 0xFF :=
  if_pos ⟨h1, h2⟩

theorem erase_outside (h : a < addr ∨ addr + size ≤ a) : erase f addr size a = f a :=
  if_neg (by omega)

theorem erase_zero : erase f addr 0 = f := by
  funext a
  exact erase_outside (by omega)

theorem read_erase_self {n : ℕ} (hle : n ≤ size) :
    read (erase f addr size) addr n = List.replicate n 0xFF := by
  refine List.eq_replicate_iff.mpr ⟨length_read, fun b hb => ?_⟩
  obtain ⟨i, hi, rfl⟩ := List.mem_map.mp hb
  rw [List.mem_range] at hi
  exact erase_inside (Nat.le_add_right _ _) (by omega)

/-- Erasing adjacent intervals one after the other erases their union. -/
theorem erase_erase (m n : ℕ) : erase (erase f addr m) (addr + m) n = erase f addr (m + n) := by
  funext a
  by_cases h : addr + m ≤ a ∧ a < addr + m + n
  · rw [erase_inside h.1 h.2, erase_inside (by omega) (by omega)]
  · rw [erase_outside (by omega)]
    by_cases h' : addr ≤ a ∧ a < addr + m
    · rw [erase_inside h'.1 h'.2, erase_inside (by omega) (by omega)]
    · rw [erase_outside (by omega), erase_outside (by omega)]

end Erase

end EspOpenRtos.Math.NorFlash
