/-
# Writing in pieces

A flash chip programs at most one page with a command, so a driver cuts what it
writes into pieces. Pieces that cover the data, each byte once and in increasing
order, leave what programming all of it at once would leave; whether a driver
cuts correctly is then a matter of which pieces it makes.
-/

import EspOpenRtos.Math.NorFlash

namespace EspOpenRtos.Math.PageWrites

open Math.NorFlash

/-- Bytes for the addresses from `addr` on. -/
structure Piece where
  addr : ℕ
  data : List UInt8
  deriving DecidableEq

/-- The pieces cover the data from an address on, each byte once and in order. -/
def Covers : ℕ → List Piece → List UInt8 → Prop
  | _, [], data => data = []
  | addr, piece :: rest, data =>
    piece.addr = addr ∧
      ∃ tail, data = piece.data ++ tail ∧ Covers (addr + piece.data.length) rest tail

/-- The piece lies in one page. -/
def Piece.InPage (pageSize : ℕ) (piece : Piece) : Prop :=
  piece.addr % pageSize + piece.data.length ≤ pageSize

/-- Program the pieces one after the other. -/
def programAll (f : Image) (pieces : List Piece) : Image :=
  pieces.foldl (fun f piece => program f piece.addr piece.data) f

variable {addr : ℕ} {pieces more : List Piece} {data rest : List UInt8}

theorem covers_nil : Covers addr [] [] := rfl

theorem covers_singleton (addr : ℕ) (data : List UInt8) : Covers addr [⟨addr, data⟩] data :=
  ⟨rfl, [], (List.append_nil data).symm, rfl⟩

/-- Pieces for the data and pieces for what follows it. -/
theorem Covers.append (first : Covers addr pieces data)
    (second : Covers (addr + data.length) more rest) :
    Covers addr (pieces ++ more) (data ++ rest) := by
  induction pieces generalizing addr data with
  | nil =>
    obtain rfl : data = [] := first
    exact second
  | cons piece pieces ih =>
    obtain ⟨haddr, tail, rfl, htail⟩ := first
    rw [List.length_append, ← Nat.add_assoc] at second
    exact ⟨haddr, tail ++ rest, List.append_assoc .., ih htail second⟩

/-- Pieces lie inside what they cover. -/
theorem Covers.bounds (h : Covers addr pieces data) {piece : Piece} (hmem : piece ∈ pieces) :
    addr ≤ piece.addr ∧ piece.addr + piece.data.length ≤ addr + data.length := by
  induction pieces generalizing addr data with
  | nil => exact absurd hmem List.not_mem_nil
  | cons first pieces ih =>
    obtain ⟨haddr, tail, rfl, htail⟩ := h
    rw [List.length_append]
    rcases List.mem_cons.mp hmem with rfl | hrest
    · omega
    · have hbounds := ih htail hrest
      omega

/-- Pieces of an interval that lies in one page lie in that page. -/
theorem Covers.inPage {pageSize : ℕ} (h : Covers addr pieces data)
    (hpage : addr % pageSize + data.length ≤ pageSize) {piece : Piece}
    (hmem : piece ∈ pieces) (hne : piece.data ≠ []) : piece.InPage pageSize := by
  obtain ⟨hfirst, hlast⟩ := h.bounds hmem
  have hlength : 0 < piece.data.length := List.length_pos_iff.mpr hne
  obtain ⟨k, hk⟩ := Nat.exists_eq_add_of_le hfirst
  have hmod : piece.addr % pageSize = addr % pageSize + k := by
    rw [hk, ← Nat.mod_add_mod]
    exact Nat.mod_eq_of_lt (by omega)
  rw [Piece.InPage, hmod]
  omega

/-- Programming a concatenation is programming its parts in order. -/
theorem program_append (f : Image) (addr : ℕ) (data rest : List UInt8) :
    program f addr (data ++ rest) = program (program f addr data) (addr + data.length) rest := by
  funext a
  by_cases hbefore : addr ≤ a
  · by_cases hfirst : a < addr + data.length
    · have hindex : a - addr < data.length := by omega
      simp only [program, if_pos hbefore, if_neg (Nat.not_le.mpr hfirst)]
      rw [List.getD_append _ _ _ _ hindex]
    · have hindex : data.length ≤ a - addr := by omega
      have hsub : a - addr - data.length = a - (addr + data.length) := by omega
      simp only [program, if_pos hbefore, if_pos (Nat.not_lt.mp hfirst)]
      rw [List.getD_append_right _ _ _ _ hindex, List.getD_eq_default data _ hindex, hsub,
        show f a &&& 0xFF = f a from UInt8.and_neg_one]
  · have hlater : ¬ addr + data.length ≤ a := by omega
    simp only [program, if_neg hbefore, if_neg hlater]

theorem program_nil (f : Image) (addr : ℕ) : program f addr [] = f := by
  funext a
  simp only [program, List.getD_nil]
  split
  · exact UInt8.and_neg_one
  · rfl

/-- Programming pieces that cover the data is programming the data. -/
theorem programAll_of_covers (f : Image) (h : Covers addr pieces data) :
    programAll f pieces = program f addr data := by
  induction pieces generalizing f addr data with
  | nil =>
    obtain rfl : data = [] := h
    exact (program_nil f addr).symm
  | cons piece pieces ih =>
    obtain ⟨rfl, tail, rfl, htail⟩ := h
    rw [program_append]
    exact ih _ htail

/-- Programming clears bits inside the interval. -/
theorem program_at {f : Image} {i : ℕ} (hi : i < data.length) :
    program f addr data (addr + i) = f (addr + i) &&& data[i] := by
  simp [program, hi]

/-- Programming changes nothing outside the interval. -/
theorem program_of_outside {f : Image} {a : ℕ} (h : a < addr ∨ addr + data.length ≤ a) :
    program f addr data a = f a := by
  unfold program
  split
  · rw [List.getD_eq_default _ _ (by omega)]
    exact UInt8.and_neg_one
  · rfl

end EspOpenRtos.Math.PageWrites
