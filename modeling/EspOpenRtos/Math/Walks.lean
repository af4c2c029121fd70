/-
# Walks along a partial function

Starting somewhere, a partial function is applied until it is undefined. Whether this
ends is a question of cycles: a walk that comes upon a cycle never ends, and a walk
inside a finite set that comes upon none ends after as many moves as the set has
elements at most.
-/

import Mathlib.Combinatorics.Pigeonhole

namespace EspOpenRtos.Math.Walks

variable {α : Type*} (next : α → Option α)

/-- The place after a number of moves. -/
def walk : ℕ → α → Option α
  | 0, a => some a
  | n + 1, a => (next a).bind (walk n)

/-- The walk comes by this place. -/
def Reaches (a b : α) : Prop := ∃ n, walk next n a = some b

/-- The walk from here comes back. -/
def OnCycle (a : α) : Prop := ∃ n, walk next (n + 1) a = some a

variable {next} {a b c : α} {m n : ℕ}

theorem walk_add (m n : ℕ) (a : α) :
    walk next (m + n) a = (walk next m a).bind (walk next n) := by
  induction m generalizing a with
  | zero => rw [Nat.zero_add, walk, Option.bind_some]
  | succ m ih =>
    rw [Nat.succ_add, walk, walk]
    cases next a with
    | none => rfl
    | some b => exact ih b

theorem Reaches.refl (a : α) : Reaches next a a := ⟨0, rfl⟩

theorem Reaches.head (h : next a = some b) (hreach : Reaches next b c) : Reaches next a c := by
  obtain ⟨n, hn⟩ := hreach
  exact ⟨n + 1, by rw [walk, h, Option.bind_some, hn]⟩

theorem Reaches.trans (h : Reaches next a b) (h' : Reaches next b c) : Reaches next a c := by
  obtain ⟨m, hm⟩ := h
  obtain ⟨n, hn⟩ := h'
  exact ⟨m + n, by rw [walk_add, hm, Option.bind_some, hn]⟩

/-- A walk that has ended stays ended. -/
theorem walk_eq_none_of_le (h : walk next m a = none) (hle : m ≤ n) : walk next n a = none := by
  obtain ⟨k, rfl⟩ := Nat.exists_eq_add_of_le hle
  rw [walk_add, h, Option.bind_none]

/-- Around a cycle the walk can go as often as one likes. -/
theorem walk_mul_of_cycle (h : walk next n a = some a) (k : ℕ) : walk next (k * n) a = some a := by
  induction k with
  | zero => rw [Nat.zero_mul, walk]
  | succ k ih => rw [Nat.succ_mul, walk_add, ih, Option.bind_some, h]

/-- A walk that comes upon a cycle never ends. -/
theorem walk_ne_none_of_cycle (hreach : Reaches next a b) (hcycle : OnCycle next b) (n : ℕ) :
    walk next n a ≠ none := by
  obtain ⟨m, hm⟩ := hreach
  obtain ⟨period, hperiod⟩ := hcycle
  intro hnone
  have hround := walk_mul_of_cycle hperiod n
  have hle : n ≤ m + n * (period + 1) := by
    have : n ≤ n * (period + 1) := Nat.le_mul_of_pos_right n (Nat.succ_pos period)
    omega
  have hend := walk_eq_none_of_le hnone hle
  rw [walk_add, hm, Option.bind_some, hround] at hend
  nomatch hend

/-- Two visits of one place make a cycle. -/
theorem onCycle_of_walk_eq (hlt : m < n) (hm : walk next m a = some b)
    (hn : walk next n a = some b) : OnCycle next b := by
  obtain ⟨k, rfl⟩ := Nat.exists_eq_add_of_lt hlt
  rw [Nat.add_assoc, walk_add, hm, Option.bind_some] at hn
  exact ⟨k, hn⟩

/-- A walk inside a finite set that comes upon no cycle ends. -/
theorem walk_card_eq_none {s : Finset α} (hinside : ∀ b, Reaches next a b → b ∈ s)
    (hacyclic : ∀ b, Reaches next a b → ¬OnCycle next b) : walk next s.card a = none := by
  by_contra hne
  -- then the walk visits one more place than the set has, so it visits one twice
  have hdefined : ∀ i ∈ Finset.range (s.card + 1), ∃ b, walk next i a = some b := by
    intro i hi
    apply Option.ne_none_iff_exists'.mp
    intro hnone
    exact hne (walk_eq_none_of_le hnone (Nat.lt_succ_iff.mp (Finset.mem_range.mp hi)))
  have : Nonempty α := ⟨a⟩
  choose! place hplace using hdefined
  have hmaps : ∀ i ∈ Finset.range (s.card + 1), place i ∈ s :=
    fun i hi => hinside _ ⟨i, hplace i hi⟩
  obtain ⟨i, hi, j, hj, hij, heq⟩ := Finset.exists_ne_map_eq_of_card_lt_of_maps_to
    (by rw [Finset.card_range]; exact Nat.lt_succ_self _) hmaps
  have hi' := hplace i hi
  have hj' := hplace j hj
  rw [← heq] at hj'
  rcases Nat.lt_or_gt_of_ne hij with hlt | hgt
  · exact hacyclic _ ⟨i, hi'⟩ (onCycle_of_walk_eq hlt hi' hj')
  · exact hacyclic _ ⟨i, hi'⟩ (onCycle_of_walk_eq hgt hj' hi')

/-- Walks along functions that agree wherever the first walk comes by are the same. -/
theorem walk_congr {next' : α → Option α} (hsame : ∀ b, Reaches next a b → next b = next' b)
    (n : ℕ) : walk next n a = walk next' n a := by
  induction n generalizing a with
  | zero => rfl
  | succ n ih =>
    rw [walk, walk, ← hsame a (.refl a)]
    cases hnext : next a with
    | none => rfl
    | some b => exact ih fun c hc => hsame c (hc.head hnext)

end EspOpenRtos.Math.Walks
