/-
# Sending a word many times

`_repeat_send` fills the transmit buffer with copies of a word and starts transactions of at
most 64 bytes until all copies are sent. The bytes that are left are counted by a product of
32 bits. For words of four bytes it wraps from 2 ^ 30 copies on: the loop comes down to this
number of copies and then starts transactions without end.
-/

import Mathlib.Data.List.Range
import Mathlib.Tactic.IntervalCases

namespace EspOpenRtos.Spi

/-- `spi_word_size_t`. -/
inductive WordSize
  | bit8
  | bit16
  | bit32

def WordSize.bytes : WordSize → ℕ
  | .bit8 => 1
  | .bit16 => 2
  | .bit32 => 4

def spiBufSize : ℕ := 64

/-- A byte of a word, the lowest one first. -/
def byte {width : ℕ} (word : BitVec width) (i : ℕ) : BitVec 8 := word.extractLsb' (8 * i) 8

/-- `_set_size`: the field of nine bits with the length of a transaction, one bit less. -/
def setSize (bytes : ℕ) : ℕ := (bytes % 2 ^ 8 * 8 + 2 ^ 32 - 1) % 2 ^ 9

/-- What a transaction sends from the registers `W`. -/
def transmit (w : ℕ → BitVec 32) (bitlen : ℕ) : List (BitVec 8) :=
  (List.range ((bitlen + 1) / 8)).map fun j => byte (w (j / 4)) (j % 4)

/-- `_repeat_send`: what its transactions send, if it returns within a number of rounds. -/
def repeatSend (dword : BitVec 32) (size : WordSize) :
    ℕ → (ℕ → BitVec 32) → ℕ → Option (List (List (BitVec 8)))
  | 0, _, repeats => if 0 < repeats then none else some []
  | rounds + 1, w, repeats =>
    if 0 < repeats then
      let bytes := min (repeats * size.bytes % 2 ^ 32) spiBufSize
      let w := fun i => if i < (bytes + 3) / 4 then dword else w i
      (repeatSend dword size rounds w (repeats - bytes / size.bytes)).map
        (transmit w (setSize bytes) :: ·)
    else some []

/-- `spi_repeat_send_8`. -/
def spiRepeatSend8 (data : BitVec 8) :=
  repeatSend (data.setWidth 32 <<< 24 ||| data.setWidth 32 <<< 16 ||| data.setWidth 32 <<< 8 |||
    data.setWidth 32) .bit8

/-- `spi_repeat_send_16`. -/
def spiRepeatSend16 (data : BitVec 16) :=
  repeatSend (data.setWidth 32 <<< 16 ||| data.setWidth 32) .bit16

/-- `spi_repeat_send_32`. -/
def spiRepeatSend32 (data : BitVec 32) := repeatSend data .bit32

/-- It returns, its transactions send so many copies of the word in all, and each of them
has 1 to 64 bytes. -/
def SendsCopies {width : ℕ}
    (send : BitVec width → ℕ → (ℕ → BitVec 32) → ℕ → Option (List (List (BitVec 8))))
    (w : ℕ → BitVec 32) (repeats : ℕ) : Prop :=
  ∀ data, ∃ rounds sent, send data rounds w repeats = some sent ∧
    sent.flatten = (List.replicate repeats ((List.range (width / 8)).map (byte data))).flatten ∧
    ∀ t ∈ sent, 1 ≤ t.length ∧ t.length ≤ 64

section Rounds

variable {dword : BitVec 32} {size : WordSize} {f : ℕ → BitVec 8} {repeats n : ℕ}

theorem map_range_mod {α : Type*} (f : ℕ → α) (n s : ℕ) :
    ((List.range (n * s)).map fun j => f (j % s)) =
      (List.replicate n ((List.range s).map f)).flatten := by
  induction n with
  | zero => simp
  | succ n ih =>
    rw [Nat.add_mul, Nat.one_mul, List.range_add, List.map_append, ih, List.map_map,
      List.replicate_succ', List.flatten_append, List.flatten_singleton]
    refine congrArg _ (List.map_congr_left fun j hj => ?_)
    rw [Function.comp_apply, Nat.mul_add_mod', Nat.mod_eq_of_lt (List.mem_range.mp hj)]

/-- A transaction sends copies of the word. -/
theorem transmit_copies (hword : ∀ j < 4, byte dword j = f (j % size.bytes)) (hpos : 0 < n)
    (hn : n * size.bytes ≤ 64) (w : ℕ → BitVec 32) :
    transmit (fun i => if i < (n * size.bytes + 3) / 4 then dword else w i)
      (setSize (n * size.bytes)) = (List.replicate n ((List.range size.bytes).map f)).flatten := by
  have hbytes : (setSize (n * size.bytes) + 1) / 8 = n * size.bytes := by
    have := Nat.mul_pos hpos (show 0 < size.bytes by cases size <;> decide)
    rw [setSize]
    omega
  have hfour : size.bytes ∣ 4 := by cases size <;> decide
  rw [transmit, hbytes, ← map_range_mod]
  refine List.map_congr_left fun j hj => ?_
  rw [List.mem_range] at hj
  rw [if_pos (by omega), hword _ (Nat.mod_lt _ (by decide)), Nat.mod_mod_of_dvd _ hfour]

/-- As long as the product fits, every round sends copies and some are sent. -/
theorem repeatSend_copies (hword : ∀ j < 4, byte dword j = f (j % size.bytes))
    (hfits : repeats * size.bytes < 2 ^ 32) (w : ℕ → BitVec 32) :
    ∃ rounds sent, repeatSend dword size rounds w repeats = some sent ∧
      sent.flatten = (List.replicate repeats ((List.range size.bytes).map f)).flatten ∧
      ∀ t ∈ sent, 1 ≤ t.length ∧ t.length ≤ 64 := by
  induction repeats using Nat.strong_induction_on generalizing w with
  | _ repeats ih =>
    rcases Nat.eq_zero_or_pos repeats with rfl | hpos
    · exact ⟨0, [], rfl, rfl, by simp⟩
    obtain ⟨n, hn, hle, hbytes, hsize⟩ : ∃ n, 0 < n ∧ n ≤ repeats ∧
        min (repeats * size.bytes % 2 ^ 32) spiBufSize = n * size.bytes ∧ n * size.bytes ≤ 64 := by
      refine ⟨min repeats (64 / size.bytes), ?_⟩
      cases size <;> simp only [WordSize.bytes, spiBufSize] at * <;> omega
    have hcopies := transmit_copies hword hn hsize w
    generalize hw : (fun i => if i < (n * size.bytes + 3) / 4 then dword else w i) = w' at hcopies
    obtain ⟨rounds, sent, hsent, hflat, hlengths⟩ := ih (repeats - n) (by omega)
      (lt_of_le_of_lt (Nat.mul_le_mul_right _ (Nat.sub_le ..)) hfits) w'
    have hcount : n * size.bytes / size.bytes = n := Nat.mul_div_cancel _ (by cases size <;> decide)
    refine ⟨rounds + 1, transmit w' (setSize (n * size.bytes)) :: sent, ?_, ?_, ?_⟩
    · simp only [repeatSend, if_pos hpos, hbytes, hw, hcount, hsent, Option.map_some]
    · rw [List.flatten_cons, hcopies, hflat, ← List.flatten_append, ← List.replicate_add,
        Nat.add_sub_cancel' hle]
    · refine List.forall_mem_cons.mpr ⟨?_, hlengths⟩
      have := Nat.mul_pos hn (show 0 < size.bytes by cases size <;> decide)
      rw [hcopies]
      simp
      omega

/-- A loop that has come to 2 ^ 30 words of four bytes sends none of them. -/
theorem repeatSend_endless (hmany : 2 ^ 30 ≤ repeats) (hrepeats : repeats < 2 ^ 31) (rounds : ℕ)
    (w : ℕ → BitVec 32) : repeatSend dword .bit32 rounds w repeats = none := by
  induction rounds generalizing w repeats with
  | zero => exact if_pos (by omega)
  | succ rounds ih =>
    rw [repeatSend, if_pos (by omega)]
    simp only [WordSize.bytes, spiBufSize]
    rw [ih (by omega) (by omega)]
    rfl

theorem not_sendsCopies_of_many (hmany : 2 ^ 30 ≤ repeats) (hrepeats : repeats < 2 ^ 31)
    (w : ℕ → BitVec 32) : ¬SendsCopies spiRepeatSend32 w repeats := by
  intro h
  obtain ⟨rounds, sent, hsent, -⟩ := h 0
  rw [spiRepeatSend32, repeatSend_endless hmany hrepeats] at hsent
  cases hsent

end Rounds

/-- Words of one or two bytes are sent as often as they should be, for every 32-bit number of
copies, and words of four bytes for less than 2 ^ 30 copies. -/
theorem repeat_send_iff (w : ℕ → BitVec 32) {repeats : ℕ} (hrepeats : repeats < 2 ^ 31) :
    SendsCopies spiRepeatSend8 w repeats ∧ SendsCopies spiRepeatSend16 w repeats ∧
      (SendsCopies spiRepeatSend32 w repeats ↔ repeats < 2 ^ 30) := by
  refine ⟨fun data => ?_, fun data => ?_, fun h => ?_, fun h data => ?_⟩
  · refine repeatSend_copies (f := byte data) (fun j hj => ?_) (by simp only [WordSize.bytes]; omega) w
    simp only [WordSize.bytes, Nat.mod_one]
    interval_cases j <;> ext i hi <;> simp [byte] <;> grind
  · refine repeatSend_copies (f := byte data) (fun j hj => ?_) (by simp only [WordSize.bytes]; omega) w
    interval_cases j <;> ext i hi <;> simp [byte, WordSize.bytes] <;> grind
  · by_contra hmany
    exact not_sendsCopies_of_many (not_lt.mp hmany) hrepeats w h
  · refine repeatSend_copies (f := byte data) (fun j hj => ?_) (by simp only [WordSize.bytes]; omega) w
    rw [WordSize.bytes, Nat.mod_eq_of_lt hj]

/-- Seventeen words of four bytes take two transactions. -/
theorem repeat_send_seventeen : 17 < 2 ^ 31 ∧ SendsCopies spiRepeatSend8 (fun _ => 0) 17 ∧
    SendsCopies spiRepeatSend16 (fun _ => 0) 17 ∧
      (SendsCopies spiRepeatSend32 (fun _ => 0) 17 ↔ 17 < 2 ^ 30) :=
  ⟨by decide, repeat_send_iff _ (by decide)⟩

/-- With 2 ^ 30 words of four bytes the loop does not end. -/
theorem repeat_send_endless : ¬SendsCopies spiRepeatSend32 (fun _ => 0) (2 ^ 30) :=
  not_sendsCopies_of_many le_rfl (by decide) _

end EspOpenRtos.Spi
