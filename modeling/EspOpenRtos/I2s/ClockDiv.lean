/-
# The clock of the I2S peripheral

The dividers for a frequency are searched among all pairs, keeping the one that comes
closest so far. The search starts from a candidate of 0 Hz with both dividers 0. For
low frequencies no pair comes closer than that, and the start value is returned.
-/

import Mathlib.Algebra.Order.Group.Unbundled.Int
import Mathlib.Data.List.Induction
import Mathlib.Order.Interval.Set.Defs

namespace EspOpenRtos.I2s

/-- `BASE_FREQ`. -/
def baseFreq : ℕ := 160000000

/-- `i2s_clock_div_t`. -/
structure ClockDiv where
  bclkDiv : ℕ
  clkmDiv : ℕ
  deriving DecidableEq

/-- The variables of the search. -/
structure Search where
  div : ClockDiv
  bestFreq : ℤ
  deriving DecidableEq

def Search.start : Search := ⟨⟨0, 0⟩, 0⟩

/-- `curr_freq`, the frequency of a pair of dividers. -/
def currFreq (div : ClockDiv) : ℤ := (baseFreq / (div.bclkDiv * div.clkmDiv) : ℕ)

/-- The body of the loops. -/
def Search.consider (freq : ℤ) (s : Search) (div : ClockDiv) : Search :=
  if |freq - currFreq div| < |freq - s.bestFreq| then ⟨div, currFreq div⟩ else s

/-- The pairs in the order of the loops. -/
def dividers : List ClockDiv :=
  (List.range' 1 63).flatMap fun bclkDiv => (List.range' 1 63).map fun clkmDiv => ⟨bclkDiv, clkmDiv⟩

/-- `i2s_get_clock_div`. -/
def i2sGetClockDiv (freq : ℤ) : ClockDiv :=
  (dividers.foldl (Search.consider freq) Search.start).div

/-! ## The best pair so far -/

/-- What the search knows of the pairs it has seen. -/
structure Search.BestOf (freq : ℤ) (seen : List ClockDiv) (s : Search) : Prop where
  least : ∀ div ∈ seen, |freq - s.bestFreq| ≤ |freq - currFreq div|
  chosen : s = start ∨
    s.div ∈ seen ∧ s.bestFreq = currFreq s.div ∧ |freq - s.bestFreq| < |freq|

section Search

variable {freq : ℤ} {seen : List ClockDiv} {s : Search}

theorem Search.BestOf.consider (h : s.BestOf freq seen) (div : ClockDiv) :
    (s.consider freq div).BestOf freq (seen ++ [div]) := by
  have hstart : |freq - s.bestFreq| ≤ |freq| := by
    rcases h.chosen with rfl | ⟨-, -, hlt⟩
    · simp [start]
    · exact hlt.le
  unfold Search.consider
  split
  · next hcloser =>
    constructor
    · intro d hd
      rcases List.mem_append.mp hd with hd | hd
      · exact hcloser.le.trans (h.least d hd)
      · rw [List.mem_singleton.mp hd]
    · exact .inr ⟨by simp, rfl, hcloser.trans_le hstart⟩
  · next hfarther =>
    constructor
    · intro d hd
      rcases List.mem_append.mp hd with hd | hd
      · exact h.least d hd
      · rw [List.mem_singleton.mp hd]
        exact not_lt.mp hfarther
    · exact h.chosen.imp_right fun hseen => ⟨List.mem_append_left _ hseen.1, hseen.2⟩

theorem Search.bestOf_foldl (freq : ℤ) (seen : List ClockDiv) :
    (seen.foldl (consider freq) start).BestOf freq seen := by
  induction seen using List.reverseRecOn with
  | nil => exact ⟨by simp, .inl rfl⟩
  | append_singleton seen div ih =>
    rw [List.foldl_append]
    exact ih.consider div

end Search

/-! ## Optimality -/

/-- Both dividers fit their fields of the register and divide. -/
def ClockDiv.InRange (div : ClockDiv) : Prop :=
  div.bclkDiv ∈ Set.Icc 1 63 ∧ div.clkmDiv ∈ Set.Icc 1 63

/-- No pair comes closer to the frequency. -/
structure ClockDiv.Optimal (freq : ℤ) (div : ClockDiv) : Prop where
  inRange : div.InRange
  least : ∀ other : ClockDiv, other.InRange → |freq - currFreq div| ≤ |freq - currFreq other|

theorem mem_dividers {div : ClockDiv} : div ∈ dividers ↔ div.InRange := by
  obtain ⟨b, c⟩ := div
  simp [dividers, ClockDiv.InRange, Nat.lt_succ_iff]

/-- The lowest frequency that can be had. -/
def lowestFreq : ℤ := currFreq ⟨63, 63⟩

theorem lowestFreq_le {div : ClockDiv} (h : div.InRange) : lowestFreq ≤ currFreq div := by
  obtain ⟨⟨hb, hb'⟩, hc, hc'⟩ := h
  apply Int.ofNat_le.mpr
  exact Nat.div_le_div_left (Nat.mul_le_mul hb' hc') (Nat.mul_pos hb hc)

/-- A frequency that is nearer to 0 Hz than to the lowest one gets no dividers. -/
theorem i2sGetClockDiv_of_low {freq : ℤ} (hfreq : 0 < freq) (hlow : 2 * freq ≤ lowestFreq) :
    i2sGetClockDiv freq = ⟨0, 0⟩ := by
  rcases (Search.bestOf_foldl freq dividers).chosen with hstart | ⟨hmem, hfound, hlt⟩
  · exact congrArg Search.div hstart
  · have hle := lowestFreq_le (mem_dividers.mp hmem)
    rw [hfound, abs_of_pos hfreq, abs_lt] at hlt
    omega

theorem not_optimal_zero (freq : ℤ) : ¬(ClockDiv.mk 0 0).Optimal freq :=
  fun h => absurd h.inRange.1.1 (by decide)

/-- The dividers are the best ones for frequencies above half of the lowest one. -/
theorem i2s_clock_div_optimal_iff (freq : ℤ) (hfreq : 0 < freq) :
    (i2sGetClockDiv freq).Optimal freq ↔ lowestFreq < 2 * freq := by
  constructor
  · intro hoptimal
    by_contra hlow
    rw [i2sGetClockDiv_of_low hfreq (not_lt.mp hlow)] at hoptimal
    exact not_optimal_zero freq hoptimal
  · intro hlow
    have hbest := Search.bestOf_foldl freq dividers
    rcases hbest.chosen with hstart | ⟨hmem, hfound, -⟩
    · -- the lowest frequency would have been taken
      have hleast := hbest.least ⟨63, 63⟩ (mem_dividers.mpr (by simp [ClockDiv.InRange]))
      rw [hstart, ← lowestFreq] at hleast
      rw [show Search.start.bestFreq = 0 from rfl, sub_zero, abs_of_pos hfreq, le_abs] at hleast
      have hpos : 0 < lowestFreq := by decide
      omega
    · refine ⟨mem_dividers.mp hmem, fun other hother => ?_⟩
      have hleast := hbest.least other (mem_dividers.mpr hother)
      rwa [hfound] at hleast

theorem i2s_clock_div_optimal_ws2812 :
    0 < (3333333 : ℤ) ∧ (i2sGetClockDiv 3333333).Optimal 3333333 :=
  ⟨by decide, (i2s_clock_div_optimal_iff 3333333 (by decide)).mpr (by decide)⟩

/-- For 20 kHz the search ends with the dividers it started from. -/
theorem i2s_clock_div_20k :
    i2sGetClockDiv 20000 = ⟨0, 0⟩ ∧ ¬(ClockDiv.mk 0 0).Optimal 20000 :=
  ⟨i2sGetClockDiv_of_low (by decide) (by decide), not_optimal_zero 20000⟩

end EspOpenRtos.I2s
