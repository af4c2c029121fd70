/-
# Little-endian words

A number is stored as the list of its base 256 digits, lowest first. Encoding
keeps the low digits of a number and decoding gives them back; for lists of bytes
the two are inverse to each other.
-/

import Mathlib.Tactic.Ring
import Mathlib.Tactic.Linarith

namespace EspOpenRtos.Math.LittleEndian

/-- The lowest `n` bytes of a number. -/
def encode : ℕ → ℕ → List UInt8
  | 0, _ => []
  | n + 1, x => .ofNat x :: encode n (x / 256)

/-- The number that a list of bytes stands for. -/
def decode : List UInt8 → ℕ
  | [] => 0
  | b :: bytes => b.toNat + 256 * decode bytes

@[simp]
theorem length_encode (n x : ℕ) : (encode n x).length = n := by
  induction n generalizing x with
  | zero => rfl
  | succ n ih => rw [encode, List.length_cons, ih]

theorem decode_lt (bytes : List UInt8) : decode bytes < 256 ^ bytes.length := by
  induction bytes with
  | nil => exact Nat.one_pos
  | cons b bytes ih =>
    have hb := b.toNat_lt
    rw [decode, List.length_cons, pow_succ]
    omega

theorem decode_encode (n x : ℕ) : decode (encode n x) = x % 256 ^ n := by
  induction n generalizing x with
  | zero => rw [encode, decode, pow_zero, Nat.mod_one]
  | succ n ih =>
    have hsplit : x % 256 ^ (n + 1) = x % 256 + 256 * (x / 256 % 256 ^ n) := by
      rw [pow_succ', Nat.mod_mul]
    rw [encode, decode, ih, hsplit, UInt8.toNat_ofNat']

theorem encode_decode (bytes : List UInt8) : encode bytes.length (decode bytes) = bytes := by
  induction bytes with
  | nil => rfl
  | cons b bytes ih =>
    have hb := b.toNat_lt
    have hrest : (b.toNat + 256 * decode bytes) / 256 = decode bytes := by omega
    have hfirst : UInt8.ofNat (b.toNat + 256 * decode bytes) = b := by
      apply UInt8.toNat_inj.mp
      rw [UInt8.toNat_ofNat']
      omega
    rw [List.length_cons, encode, decode, hrest, ih, hfirst]

/-- A 32-bit word survives being stored. -/
theorem ofNat_decode_encode (x : UInt32) : UInt32.ofNat (decode (encode 4 x.toNat)) = x := by
  have hx : x.toNat % 256 ^ 4 = x.toNat := Nat.mod_eq_of_lt x.toNat_lt
  rw [decode_encode, hx, UInt32.ofNat_toNat]

end EspOpenRtos.Math.LittleEndian
