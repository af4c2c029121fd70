/-
# Walks through a set of binary words

Words of one length are ordered by their first difference. A walk through a set of
words goes from bit to bit. Where the words of the set that agree with it so far
have the same next bit, it takes this bit; at a fork it has a choice.

A walk that takes 0 at every fork ends at the least word. Take the last fork at
which a word of the set has 0. A walk that follows the word up to this fork, takes
1 there and 0 at all later forks ends at the next word of the set; if there is no
such fork, the word is the greatest.
-/

import Mathlib.Order.PiLex
import Mathlib.Data.Fintype.EquivFin

namespace EspOpenRtos.Math.LexWalk

variable {n : ℕ}

/-- Two words have the same first `p` bits. -/
def Agree (p : ℕ) (x y : Fin n → Bool) : Prop := ∀ i : Fin n, (i : ℕ) < p → x i = y i

/-- Words of the set that agree with `w` in front of a position differ there. -/
def Fork (S : Set (Fin n → Bool)) (w : Fin n → Bool) (p : Fin n) : Prop :=
  (∃ x ∈ S, Agree p x w ∧ x p = false) ∧ ∃ x ∈ S, Agree p x w ∧ x p = true

/-- The word has 0 at a fork. -/
def Skips (S : Set (Fin n → Bool)) (w : Fin n → Bool) (p : Fin n) : Prop :=
  w p = false ∧ Fork S w p

/-- The choice at a fork: the bit of an earlier word in front of position `d`, counted
from 1, 1 there and 0 behind it. -/
def direction (prev : Fin n → Bool) (d : ℕ) (p : Fin n) : Bool :=
  if (p : ℕ) + 1 < d then prev p else decide ((p : ℕ) + 1 = d)

/-- A word of the set at which a walk with these choices ends. -/
structure Walk (S : Set (Fin n → Bool)) (prev : Fin n → Bool) (d : ℕ) (r : Fin n → Bool) :
    Prop where
  mem : r ∈ S
  taken : ∀ p, Fork S r p → r p = direction prev d p

/-- The last position, counted from 1, at which the word has 0 at a fork; 0 if there is
none. -/
structure LastSkip (S : Set (Fin n → Bool)) (w : Fin n → Bool) (d : ℕ) : Prop where
  bound : ∀ p, Skips S w p → (p : ℕ) + 1 ≤ d
  attained : 0 < d → ∃ p : Fin n, (p : ℕ) + 1 = d ∧ Skips S w p

section Words

variable {S : Set (Fin n → Bool)} {w x y : Fin n → Bool} {p q : ℕ}

theorem Agree.refl (p : ℕ) (x : Fin n → Bool) : Agree p x x := fun _ _ => rfl

theorem Agree.symm (h : Agree p x y) : Agree p y x := fun i hi => (h i hi).symm

theorem Agree.trans (h : Agree p x y) (h' : Agree p y w) : Agree p x w :=
  fun i hi => (h i hi).trans (h' i hi)

theorem Agree.mono (h : Agree p x y) (hq : q ≤ p) : Agree q x y := fun i hi => h i (hi.trans_le hq)

theorem agree_succ_iff {p : Fin n} : Agree (p + 1) x y ↔ Agree p x y ∧ x p = y p := by
  refine ⟨fun h => ⟨h.mono (Nat.le_succ _), h p (Nat.lt_succ_self _)⟩, fun ⟨h, hp⟩ i hi => ?_⟩
  rcases Nat.lt_succ_iff_lt_or_eq.mp hi with hlt | heq
  · exact h i hlt
  · rwa [Fin.ext heq]

/-- A fork depends on the bits in front of it only. -/
theorem Fork.congr {p : Fin n} (h : Fork S x p) (hxy : Agree p x y) : Fork S y p := by
  obtain ⟨⟨a, ha, haw, hzero⟩, ⟨b, hb, hbw, hone⟩⟩ := h
  exact ⟨⟨a, ha, haw.trans hxy, hzero⟩, ⟨b, hb, hbw.trans hxy, hone⟩⟩

theorem Skips.congr {p : Fin n} (h : Skips S x p) (hxy : Agree (p + 1) x y) : Skips S y p :=
  ⟨(hxy p (Nat.lt_succ_self _)).symm.trans h.1, h.2.congr (hxy.mono (Nat.le_succ _))⟩

theorem lt_iff_first_difference :
    toLex x < toLex y ↔ ∃ p : Fin n, Agree p x y ∧ x p = false ∧ y p = true := by
  refine exists_congr fun p => and_congr Iff.rfl ?_
  exact Bool.lt_iff

/-- Two words of the set with their first difference at `p` fork there. -/
theorem fork_of_difference {p : Fin n} (hx : x ∈ S) (hy : y ∈ S) (hagree : Agree p x y)
    (hzero : x p = false) (hone : y p = true) : Fork S x p ∧ Fork S y p :=
  ⟨⟨⟨x, hx, .refl _ _, hzero⟩, ⟨y, hy, hagree.symm, hone⟩⟩,
    ⟨⟨x, hx, hagree, hzero⟩, ⟨y, hy, .refl _ _, hone⟩⟩⟩

end Words

section Walks

variable {S : Set (Fin n → Bool)} {prev w r : Fin n → Bool} {d : ℕ}

/-- Taking 0 at every fork leads to the least word. -/
theorem Walk.isLeast (h : Walk S prev 0 r) {x : Fin n → Bool} (hx : x ∈ S) :
    toLex r ≤ toLex x := by
  by_contra hlt
  obtain ⟨p, hagree, hzero, hone⟩ := lt_iff_first_difference.mp (not_le.mp hlt)
  have htaken := h.taken p (fork_of_difference hx h.mem hagree hzero hone).2
  rw [hone] at htaken
  simp [direction] at htaken

/-- Without a fork at which it has 0 a word is the greatest. -/
theorem LastSkip.isGreatest (h : LastSkip S w 0) (hw : w ∈ S) {x : Fin n → Bool} (hx : x ∈ S) :
    toLex x ≤ toLex w := by
  by_contra hlt
  obtain ⟨p, hagree, hzero, hone⟩ := lt_iff_first_difference.mp (not_le.mp hlt)
  have := h.bound p ⟨hzero, (fork_of_difference hw hx hagree hzero hone).1⟩
  omega

/-- In front of position `d` the walk stays with the earlier word. -/
theorem Walk.agree (h : Walk S w d r) (hw : w ∈ S) {p : ℕ} (hp : p + 1 ≤ d) : Agree p r w := by
  induction p with
  | zero => exact fun i hi => absurd hi (Nat.not_lt_zero _)
  | succ p ih =>
    have hagree := ih (by omega)
    intro i hi
    rcases Nat.lt_succ_iff_lt_or_eq.mp hi with hlt | rfl
    · exact hagree i hlt
    by_contra hne
    have hfork : Fork S r i := by
      cases hr : r i with
      | false =>
        exact (fork_of_difference h.mem hw hagree hr (by simpa [hr] using Ne.symm hne)).1
      | true =>
        exact (fork_of_difference hw h.mem hagree.symm (by simpa [hr] using Ne.symm hne) hr).2
    have htaken := h.taken i hfork
    rw [direction, if_pos (by omega)] at htaken
    exact hne htaken

/-- Turning to 1 at the last fork at which a word has 0 leads to the next word. -/
theorem Walk.isNext (h : Walk S w d r) (hw : w ∈ S) (hlast : LastSkip S w d) (hd : 0 < d) :
    toLex w < toLex r ∧ ∀ x ∈ S, toLex w < toLex x → toLex r ≤ toLex x := by
  obtain ⟨p, rfl, hzero, hfork⟩ := hlast.attained hd
  have hagree : Agree p r w := h.agree hw le_rfl
  have hone : r p = true := by
    have htaken := h.taken p (hfork.congr hagree.symm)
    simpa [direction] using htaken
  refine ⟨lt_iff_first_difference.mpr ⟨p, hagree.symm, hzero, hone⟩, fun x hx hwx => ?_⟩
  by_contra hlt
  obtain ⟨q, hxr, hxzero, hrone⟩ := lt_iff_first_difference.mp (not_le.mp hlt)
  rcases lt_trichotomy q p with hqp | rfl | hpq
  · -- a difference in front of the fork puts `x` before `w`
    have hxw : Agree q x w := hxr.trans (hagree.mono (Fin.le_of_lt hqp))
    have hwone : w q = true := (hagree q hqp).symm.trans hrone
    exact absurd (lt_iff_first_difference.mpr ⟨q, hxw, hxzero, hwone⟩) hwx.asymm
  · -- with 0 at the fork, `x` leaves `w` at a later one
    obtain ⟨s, hws, hwzero, hxone⟩ := lt_iff_first_difference.mp hwx
    have hskip := hlast.bound s ⟨hwzero, (fork_of_difference hw hx hws hwzero hxone).1⟩
    rcases Nat.lt_or_eq_of_le (Nat.le_of_succ_le_succ hskip) with hsq | hsq
    · have heq := (hxr s hsq).trans (hagree s hsq)
      rw [hxone, hwzero] at heq
      exact Bool.false_ne_true heq.symm
    · rw [Fin.ext hsq, hxzero] at hxone
      exact Bool.false_ne_true hxone
  · -- behind the fork the walk only takes 0
    have htaken := h.taken q (fork_of_difference hx h.mem hxr hxzero hrone).2
    have hlt : (p : ℕ) < q := hpq
    rw [direction, if_neg (by omega), decide_eq_false (by omega), hrone] at htaken
    exact Bool.false_ne_true htaken.symm

end Walks

end EspOpenRtos.Math.LexWalk
