/-
# Storing data sector by sector

A program that receives data in parts stores it in flash as it comes: it erases a
sector when the first byte of it is due and programs each part behind the one
before. The operations are kept as a log. What such a log leaves in flash, and that
no sector is erased twice or written before it is erased, follows from the two ways
in which the log grows.
-/

import Mathlib.Data.List.Range
import EspOpenRtos.Math.PageWrites

namespace EspOpenRtos.Math.SectorWrites

open Math.NorFlash Math.PageWrites

/-- An operation on a flash whose sectors have one size. -/
inductive FlashOp
  | erase (sector : ℕ)
  | write (piece : Piece)
  deriving DecidableEq

def FlashOp.apply (sectorSize : ℕ) (f : Image) : FlashOp → Image
  | .erase sector => NorFlash.erase f (sector * sectorSize) sectorSize
  | .write piece => program f piece.addr piece.data

/-- An operation touches only addresses between two bounds. -/
def FlashOp.Inside (sectorSize low high : ℕ) : FlashOp → Prop
  | .erase sector => low ≤ sector * sectorSize ∧ (sector + 1) * sectorSize ≤ high
  | .write piece => low ≤ piece.addr ∧ piece.addr + piece.data.length ≤ high

/-- A size in bytes, rounded up to words. -/
def roundUp4 (size : ℕ) : ℕ := (size + 3) / 4 * 4

/-- The flash after a log of operations. -/
def replay (sectorSize : ℕ) (f : Image) (ops : List FlashOp) : Image :=
  ops.foldl (FlashOp.apply sectorSize) f

/-- The sectors that are erased, in order. -/
def erased (ops : List FlashOp) : List ℕ :=
  ops.filterMap fun
    | .erase sector => some sector
    | .write _ => none

/-- The pieces that are written, in order. -/
def written (ops : List FlashOp) : List Piece :=
  ops.filterMap fun
    | .erase _ => none
    | .write piece => some piece

/-- Every byte is written to a sector that was erased before. -/
def ErasedFirst (sectorSize : ℕ) (ops : List FlashOp) : Prop :=
  ∀ before piece after, ops = before ++ .write piece :: after →
    ∀ i < piece.data.length, (piece.addr + i) / sectorSize ∈ erased before

/-- The log stores the data from the start of sector `first` on and has erased `count`
sectors for it. -/
structure Stores (sectorSize first : ℕ) (f : Image) (ops : List FlashOp) (data : List UInt8)
    (count : ℕ) : Prop where
  sectors : erased ops = List.range' first count
  erasedFirst : ErasedFirst sectorSize ops
  covers : Covers (first * sectorSize) (written ops) data
  fits : data.length ≤ count * sectorSize
  stored : read (replay sectorSize f ops) (first * sectorSize) data.length = data
  blank : ∀ a, first * sectorSize + data.length ≤ a → a < (first + count) * sectorSize →
    replay sectorSize f ops a = 0xFF
  outside : ∀ a, a < first * sectorSize ∨ (first + count) * sectorSize ≤ a →
    replay sectorSize f ops a = f a

theorem roundUp4_of_words {size : ℕ} (h : size % 4 = 0) : roundUp4 size = size := by
  rw [roundUp4]
  omega

/-! ## The log -/

section Log

variable {sectorSize : ℕ} {f : Image} {ops more : List FlashOp}

theorem replay_append :
    replay sectorSize f (ops ++ more) = replay sectorSize (replay sectorSize f ops) more :=
  List.foldl_append

@[simp]
theorem erased_append : erased (ops ++ more) = erased ops ++ erased more :=
  List.filterMap_append

@[simp]
theorem written_append : written (ops ++ more) = written ops ++ written more :=
  List.filterMap_append

theorem erasedFirst_nil : ErasedFirst sectorSize [] :=
  fun _ _ _ h => absurd h.symm (List.append_ne_nil_of_right_ne_nil _ (List.cons_ne_nil _ _))

/-- A log grows by an operation whose bytes, if it writes any, go to erased sectors. -/
theorem ErasedFirst.concat (h : ErasedFirst sectorSize ops) {op : FlashOp}
    (hop : ∀ piece, op = .write piece →
      ∀ i < piece.data.length, (piece.addr + i) / sectorSize ∈ erased ops) :
    ErasedFirst sectorSize (ops ++ [op]) := by
  intro before piece after heq
  rcases List.eq_nil_or_concat after with rfl | ⟨init, last, rfl⟩
  · obtain ⟨rfl, hlast⟩ := List.append_inj' heq rfl
    exact hop piece (List.cons.inj hlast).1
  · rw [List.concat_eq_append, ← List.cons_append, ← List.append_assoc] at heq
    exact h before piece init (List.append_inj' heq rfl).1

end Log

/-! ## Growing what is stored -/

section Stores

variable {sectorSize first count : ℕ} {f : Image} {ops : List FlashOp} {data : List UInt8}

theorem stores_nil : Stores sectorSize first f [] [] 0 where
  sectors := rfl
  erasedFirst := erasedFirst_nil
  covers := covers_nil
  fits := Nat.zero_le _
  stored := rfl
  blank _ hle hlt := absurd hlt (Nat.not_lt.mpr hle)
  outside _ _ := rfl

variable (h : Stores sectorSize first f ops data count)
include h

theorem Stores.nodup_erased : (erased ops).Nodup :=
  h.sectors ▸ List.nodup_range'

/-- The operations touch only the sectors that have been erased. -/
theorem Stores.inside :
    ∀ op ∈ ops, op.Inside sectorSize (first * sectorSize) ((first + count) * sectorSize) := by
  intro op hop
  cases op with
  | erase sector =>
    have hmem : sector ∈ erased ops := List.mem_filterMap.mpr ⟨_, hop, rfl⟩
    rw [h.sectors, List.mem_range'_1] at hmem
    exact ⟨Nat.mul_le_mul_right _ hmem.1, Nat.mul_le_mul_right _ hmem.2⟩
  | write piece =>
    have hmem : piece ∈ written ops := List.mem_filterMap.mpr ⟨_, hop, rfl⟩
    obtain ⟨hlow, hhigh⟩ := h.covers.bounds hmem
    have hfits := h.fits
    refine ⟨hlow, hhigh.trans ?_⟩
    rw [Nat.add_mul]
    omega

/-- Erase the next sector. -/
theorem Stores.erase :
    Stores sectorSize first f (ops ++ [.erase (first + count)]) data (count + 1) := by
  have hnext : (first + (count + 1)) * sectorSize = (first + count) * sectorSize + sectorSize := by
    rw [← Nat.add_assoc, Nat.succ_mul]
  have hend : first * sectorSize + data.length ≤ (first + count) * sectorSize := by
    have := h.fits
    rw [Nat.add_mul]
    omega
  have hreplay : replay sectorSize f (ops ++ [.erase (first + count)]) =
      NorFlash.erase (replay sectorSize f ops) ((first + count) * sectorSize) sectorSize :=
    replay_append
  constructor
  · rw [erased_append, h.sectors, List.range'_1_concat]
    rfl
  · exact h.erasedFirst.concat nofun
  · simpa [written] using h.covers
  · exact h.fits.trans (Nat.mul_le_mul_right _ (Nat.le_succ _))
  · rw [hreplay]
    exact (read_congr fun a _ ha => erase_outside (by omega)).trans h.stored
  · intro a hle hlt
    rw [hreplay]
    by_cases hin : (first + count) * sectorSize ≤ a
    · exact erase_inside hin (by omega)
    · exact (erase_outside (by omega)).trans (h.blank a hle (by omega))
  · intro a ha
    have hlow : first * sectorSize ≤ (first + count) * sectorSize :=
      Nat.mul_le_mul_right _ (Nat.le_add_right _ _)
    rw [hreplay]
    exact (erase_outside (by omega)).trans (h.outside a (by omega))

/-- Write the next part, where the erased sectors have room for it. -/
theorem Stores.write (part : List UInt8) (hfits : data.length + part.length ≤ count * sectorSize) :
    Stores sectorSize first f (ops ++ [.write ⟨first * sectorSize + data.length, part⟩])
      (data ++ part) count := by
  have hend : first * sectorSize + data.length + part.length ≤ (first + count) * sectorSize := by
    rw [Nat.add_mul]
    omega
  have hblank : ∀ i < part.length,
      replay sectorSize f ops (first * sectorSize + data.length + i) = 0xFF :=
    fun i hi => h.blank _ (Nat.le_add_right _ _) (by omega)
  have hreplay : replay sectorSize f
        (ops ++ [.write ⟨first * sectorSize + data.length, part⟩]) =
      patch (replay sectorSize f ops) (first * sectorSize + data.length) part :=
    replay_append.trans (program_eq_patch (programmable_of_erased hblank))
  constructor
  · simpa [erased] using h.sectors
  · refine h.erasedFirst.concat fun piece hpiece i hi => ?_
    obtain rfl := FlashOp.write.inj hpiece
    have hi : i < part.length := hi
    have hpos : 0 < sectorSize := Nat.pos_of_mul_pos_left (by omega : 0 < count * sectorSize)
    have hsector : (first * sectorSize + data.length + i) / sectorSize < first + count :=
      (Nat.div_lt_iff_lt_mul hpos).mpr (by omega)
    have hfirst : first ≤ (first * sectorSize + data.length + i) / sectorSize :=
      (Nat.le_div_iff_mul_le hpos).mpr (by omega)
    rw [h.sectors, List.mem_range'_1]
    exact ⟨hfirst, hsector⟩
  · rw [written_append]
    exact h.covers.append (covers_singleton _ _)
  · rwa [List.length_append]
  · rw [hreplay, List.length_append, read_append_iff]
    refine ⟨?_, read_patch_self⟩
    rw [read_patch_of_disjoint (.inl (Nat.le_refl _)), h.stored]
  · intro a hle hlt
    rw [List.length_append] at hle
    rw [hreplay, patch_of_ge (by omega)]
    exact h.blank a (by omega) hlt
  · intro a ha
    rw [hreplay, patch_of_outside (by omega)]
    exact h.outside a ha

end Stores

end EspOpenRtos.Math.SectorWrites
