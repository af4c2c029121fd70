/-
# Signed differences of a wrapping counter

Points on a 32-bit counter are compared by the sign of their difference. The
difference is exact when the two points are less than half a period apart, and
then differences can be taken from a common reference and counted in plain
integers.
-/

import Mathlib.Data.Int.ModEq

namespace EspOpenRtos.Math.SignedDifference

/-- `(int32_t)a - (int32_t)b`, read as an integer. -/
def diff (a b : UInt32) : ℤ := (a.toInt32 - b.toInt32).toInt

theorem diff_eq_bmod (a b : UInt32) :
    diff a b = ((a.toNat : ℤ) - b.toNat).bmod (2 ^ 32) := by
  rw [diff, Int32.toInt_sub]
  simp [UInt32.toInt32, Int32.toInt, BitVec.toInt_eq_toNat_bmod]
  rfl

theorem sub_lt_one_iff (a b : UInt32) : a.toInt32 - b.toInt32 < 1 ↔ diff a b < 1 :=
  Int32.lt_iff_toInt_lt

/-- Differences of numbers seen through the counter. -/
theorem diff_ofNat (m n : ℕ) :
    diff (UInt32.ofNat m) (UInt32.ofNat n) = ((m : ℤ) - n).bmod (2 ^ 32) := by
  rw [diff_eq_bmod, UInt32.toNat_ofNat', UInt32.toNat_ofNat', Int.natCast_mod,
    Int.natCast_mod]
  simp [Int.bmod_def]

/-- Differences from a common reference subtract. -/
theorem diff_sub {a b c : UInt32} (lower : -2 ^ 31 ≤ diff a c - diff b c)
    (upper : diff a c - diff b c < 2 ^ 31) : diff a b = diff a c - diff b c := by
  have hsame : (diff a c - diff b c).bmod (2 ^ 32) = diff a b := by
    rw [diff_eq_bmod a c, diff_eq_bmod b c, diff_eq_bmod a b, Int.bmod_sub_bmod,
      Int.sub_bmod_bmod]
    congr 1
    omega
  rw [← hsame]
  exact Int.bmod_eq_of_le lower upper

theorem diff_bounds (a b : UInt32) : -2 ^ 31 ≤ diff a b ∧ diff a b < 2 ^ 31 := by
  rw [diff_eq_bmod]
  exact ⟨Int.le_bmod (by decide), Int.bmod_lt (by decide)⟩

/-- A point is as much further from an earlier number, up to whole periods. -/
theorem diff_ofNat_add (a : UInt32) (n k : ℕ) :
    ∃ periods : ℤ, diff a (UInt32.ofNat n) =
      diff a (UInt32.ofNat (n + k)) + k + periods * 2 ^ 32 := by
  have hsame : (diff a (UInt32.ofNat (n + k)) + k).bmod (2 ^ 32) = diff a (UInt32.ofNat n) := by
    rw [diff_eq_bmod, diff_eq_bmod, Int.bmod_add_bmod, UInt32.toNat_ofNat', UInt32.toNat_ofNat',
      Int.natCast_mod, Int.natCast_mod, Int.bmod_def, Int.bmod_def]
    push_cast
    have hmod : ((a.toNat : ℤ) - (n + k) % 4294967296 + k) % 4294967296 =
        ((a.toNat : ℤ) - n % 4294967296) % 4294967296 := by omega
    rw [hmod]
  obtain ⟨periods, hperiods⟩ : ((2 : ℤ) ^ 32) ∣ diff a (UInt32.ofNat n) -
      (diff a (UInt32.ofNat (n + k)) + k) := hsame ▸ Int.dvd_bmod_sub_self
  exact ⟨periods, by omega⟩

/-- The point a difference leads to, as a number. -/
theorem ofNat_of_diff {a : UInt32} {m n : ℕ} (h : (m : ℤ) = n + diff a (UInt32.ofNat n)) :
    UInt32.ofNat m = a := by
  rw [diff_eq_bmod, UInt32.toNat_ofNat', Int.bmod_def] at h
  have hlt := a.toNat_lt
  rw [← UInt32.toNat_inj, UInt32.toNat_ofNat']
  omega

end EspOpenRtos.Math.SignedDifference
