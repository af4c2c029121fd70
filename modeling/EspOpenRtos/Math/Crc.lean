/-
# Cyclic redundancy checks

A register takes in the bits of a message one after the other. With each it is shifted by
one place, and where the bit that is shifted out differs from the one that comes in, a
polynomial is added. All of this is linear, so that a register and a byte can be taken apart:
the register is shifted by eight places, and what is added depends on eight bits only.
-/

import Mathlib.Logic.Function.Iterate

namespace EspOpenRtos.Math.Crc

variable {width : ℕ}

/-- Steps that add up. -/
def Linear (step : BitVec width → Bool → BitVec width) : Prop :=
  ∀ r s a b, step (r ^^^ s) (a ^^ b) = step r a ^^^ step s b

/-! ## Bytes that are shifted out -/

section Shifts

variable {α : Type*} (step : α → Bool → α) (r : α) (byte : BitVec 8) (n : ℕ)

end Shifts

/-! ## Sums -/

variable (poly r s : BitVec width) (b c : BitVec 8)

theorem Linear.foldl {step : BitVec width → Bool → BitVec width} (h : Linear step)
    (f g : ℕ → Bool) (l : List ℕ) :
    (l.map fun i => f i ^^ g i).foldl step (r ^^^ s) =
      (l.map f).foldl step r ^^^ (l.map g).foldl step s := by
  induction l generalizing r s with
  | nil => rfl
  | cons i l ih =>
    simp only [List.map_cons, List.foldl_cons]
    rw [h r s, ih]

end EspOpenRtos.Math.Crc
