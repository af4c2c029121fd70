/-
# Sampling a wrapping counter

A free-running counter that is read through a narrow register is seen modulo
its period. A reader that compares two samples can recover whole periods as
long as the counter advances by less than one period between them. This module
states that recovery once: the later sample is smaller than the earlier one
exactly when the quotients differ, and adding one period on each such drop
keeps a running count of whole periods.
-/

import Mathlib.Tactic.Ring
import Mathlib.Tactic.Linarith

namespace EspOpenRtos.Math.WrapCounter

variable {period earlier later : ℕ}

variable (ordered : earlier ≤ later) (near : later < earlier + period)
include ordered near

/-- Two counts less than one period apart lie in the same or in consecutive
periods. -/
theorem div_eq_or_eq_succ :
    later / period = earlier / period ∨ later / period = earlier / period + 1 := by
  have hlower : earlier / period ≤ later / period := Nat.div_le_div_right ordered
  have hpos : 0 < period := by omega
  have hupper : later / period ≤ (earlier + period) / period :=
    Nat.div_le_div_right (Nat.le_of_lt near)
  rw [Nat.add_div_right earlier hpos] at hupper
  omega

/-- The sample drops exactly when a period boundary lies between the reads. -/
theorem mod_lt_mod_iff :
    later % period < earlier % period ↔ later / period = earlier / period + 1 := by
  have hpos : 0 < period := by omega
  have hearlier := Nat.div_add_mod earlier period
  have hlater := Nat.div_add_mod later period
  constructor
  · intro hdrop
    rcases div_eq_or_eq_succ ordered near with hsame | hnext
    · rw [hsame] at hlater
      omega
    · exact hnext
  · intro hnext
    rw [hnext, Nat.mul_add, Nat.mul_one] at hlater
    omega

/-- Adding one period on a dropped sample turns the number of whole periods
before the earlier read into the number before the later one. -/
theorem periods_of_drop : earlier / period + (if later % period < earlier % period then 1 else 0) =
      later / period := by
  by_cases hdrop : later % period < earlier % period
  · rw [if_pos hdrop, (mod_lt_mod_iff ordered near).mp hdrop]
  · rw [if_neg hdrop]
    rcases div_eq_or_eq_succ ordered near with hsame | hnext
    · omega
    · exact absurd ((mod_lt_mod_iff ordered near).mpr hnext) hdrop

end EspOpenRtos.Math.WrapCounter
