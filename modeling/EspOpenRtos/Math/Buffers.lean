/-
# Buffers

A function that fills a buffer is given an address, and nothing stops it at the end.
Here a store outside the buffer fails, so a function that succeeds on every input has
stayed inside. Code mostly stores behind what it has already stored; then the buffer is
what is there so far, followed by old content.
-/

import EspOpenRtos.Math.CStrings

namespace EspOpenRtos.Math.Buffers

open CStrings

variable {α : Type*}

/-- Store data from a position on. -/
def put (buf : List α) (i : ℕ) (data : List α) : Option (List α) :=
  if i + data.length ≤ buf.length then some (buf.take i ++ data ++ buf.drop (i + data.length))
  else none

/-- The bytes from a position on. -/
def slice (buf : List α) (i n : ℕ) : Option (List α) :=
  if i + n ≤ buf.length then some ((buf.drop i).take n) else none

/-- `strlen`, which has to find the NUL in the buffer. -/
def strlen (buf : List UInt8) : Option ℕ :=
  if (0 : UInt8) ∈ buf then some (cstr buf).length else none

/-! ## Storing -/

section Put

variable {buf data : List α} {i : ℕ}

theorem length_of_put {buf' : List α} (h : put buf i data = some buf') :
    buf'.length = buf.length := by
  unfold put at h
  split at h
  · next hle =>
      obtain rfl := Option.some.inj h
      simp only [List.length_append, List.length_take, List.length_drop]
      omega
  · cases h

/-- Data goes behind what is there so far. -/
theorem put_behind (text : List α) {rest : List α} (h : data.length ≤ rest.length) :
    put (text ++ rest) text.length data = some (text ++ data ++ rest.drop data.length) := by
  rw [put, if_pos (by rw [List.length_append]; omega), List.take_left, List.drop_append,
    List.drop_eq_nil_of_le (by omega), List.nil_append, Nat.add_sub_cancel_left]

theorem slice_middle (text : List α) (rest : List α) :
    slice (text ++ (data ++ rest)) text.length data.length = some data := by
  rw [slice, if_pos (by simp only [List.length_append]; omega), List.drop_left, List.take_left]

end Put

/-! ## Strings in a buffer -/

theorem strlen_of_mem {buf : List UInt8} (h : (0 : UInt8) ∈ buf) :
    strlen buf = some (cstr buf).length := if_pos h

theorem strlen_append_nul {s : List UInt8} (h : (0 : UInt8) ∉ s) (rest : List UInt8) :
    strlen (s ++ 0 :: rest) = some s.length := by
  rw [strlen_of_mem (by simp), cstr_append_nul, cstr_of_not_mem h]

end EspOpenRtos.Math.Buffers
