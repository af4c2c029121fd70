/-
# Chunks of a page

Pages are sent in chunks: the length of a text in hexadecimal notation, the text, and a line
end behind each. A text for which the caller's buffer has room is put together there, with
the text moved to its place first, so that it may lie in the same buffer. Other texts are
sent from where they are.

In the buffer the length has two digits. Longer texts get a wrong length there, if the
buffer is large enough for them.
-/

import EspOpenRtos.Math.Buffers
import EspOpenRtos.Math.NorFlash

namespace EspOpenRtos.WifiCfg

open Math.Buffers Math.CStrings Math.NorFlash

/-! ## Strings in memory -/

/-- The number of addresses. -/
def memorySize : ℕ := 2 ^ 32

/-- `strlen`, over at most `fuel` bytes. -/
def strlenAt (ram : Image) : (fuel addr : ℕ) → Option ℕ
  | 0, _ => none
  | fuel + 1, addr => if ram addr = 0 then some 0 else (strlenAt ram fuel (addr + 1)).map (· + 1)

/-- A string and its NUL are at an address. -/
def StringAt (ram : Image) (addr : ℕ) (s : CString) : Prop :=
  read ram addr (s.1 ++ [0]).length = s.1 ++ [0]

/-! ## Writing a chunk -/

/-- The bytes that went to the socket, the memory afterwards, and the result. -/
structure ChunkWritten where
  sent : List UInt8
  ram : Image
  result : ℕ

/-- A store into the buffer of the caller. -/
def storeIn (buf len i : ℕ) (data : List UInt8) (ram : Image) : Option Image :=
  if i + data.length ≤ len then some (patch ram (buf + i) data) else none

/-- The length, and where it starts. -/
def chunkSize (buf len strLen : ℕ) (ram : Image) : Option (ℕ × Image) :=
  if strLen < 10 then do
    let ram ← storeIn buf len 1 [UInt8.ofNat (0x30 + strLen)] ram
    return (1, ram)
  else if strLen < 16 then do
    let ram ← storeIn buf len 1 [UInt8.ofNat (0x61 + strLen - 10)] ram
    return (1, ram)
  else do
    let ram ← storeIn buf len 0 [hexDigit (strLen >>> 4)] ram
    let ram ← storeIn buf len 1 [hexDigit (strLen &&& 0xF)] ram
    return (0, ram)

/-- The chunk is put together in the buffer and written at once. -/
def writeFitting (ram : Image) (str strLen buf len : ℕ) : Option ChunkWritten := do
  let ram ← storeIn buf len 4 (read ram str strLen) ram
  let (start, ram) ← chunkSize buf len strLen ram
  let ram ← storeIn buf len 2 [0x0D] ram
  let ram ← storeIn buf len 3 [0x0A] ram
  let ram ← storeIn buf len (4 + strLen) [0x0D] ram
  let ram ← storeIn buf len (4 + strLen + 1) [0x0A] ram
  return ⟨read ram (buf + start) (4 - start + strLen + 2), ram, 4 - start + strLen + 2⟩

/-- The length comes from `snprintf` into eight bytes, and there are three writes. -/
def writeTooBig (ram : Image) (str strLen : ℕ) : Option ChunkWritten := do
  let text := hexNumeral strLen ++ [0x0D, 0x0A]
  let sizeBuf := text.take 7 ++ [0]
  let sizeLen := text.length
  let size ← slice sizeBuf 0 sizeLen
  let lineEnd ← slice sizeBuf (sizeLen - 2) 2
  return ⟨size ++ (read ram str strLen ++ lineEnd), ram, 2⟩

/-- `wificfg_write_string_chunk`, with a `write` that sends everything. -/
def wificfgWriteStringChunk (ram : Image) (str buf len : ℕ) : Option ChunkWritten := do
  let strLen ← strlenAt ram memorySize str
  if strLen = 0 then return ⟨[], ram, 0⟩
  else if strLen + 6 < len then writeFitting ram str strLen buf len
  else writeTooBig ram str strLen

/-- What a chunk should be. -/
def chunkOf (s : List UInt8) : List UInt8 :=
  hexNumeral s.length ++ ([0x0D, 0x0A] ++ (s ++ [0x0D, 0x0A]))

/-! ## The two ways -/

section Writing

variable {ram : Image} {str buf len : ℕ} {s : CString}

theorem strlenAt_eq {fuel : ℕ} (h : StringAt ram str s) (hfuel : s.1.length < fuel) :
    strlenAt ram fuel str = some s.1.length := by
  obtain ⟨s, hs⟩ := s
  induction s generalizing str fuel with
  | nil =>
    obtain ⟨fuel, rfl⟩ := Nat.exists_eq_succ_of_ne_zero (show fuel ≠ 0 by omega)
    have hnul : ram str = 0 := by simpa [StringAt, read_succ] using h
    rw [strlenAt, if_pos hnul]
    rfl
  | cons c s ih =>
    obtain ⟨fuel, rfl⟩ := Nat.exists_eq_succ_of_ne_zero (show fuel ≠ 0 by omega)
    rw [List.mem_cons, not_or] at hs
    have hparts : ram str = c ∧ StringAt ram (str + 1) ⟨s, hs.2⟩ := by
      simpa [StringAt, read_succ] using h
    have hfuel' : s.length < fuel := Nat.lt_of_succ_lt_succ hfuel
    rw [strlenAt, if_neg (by rw [hparts.1]; exact fun hc => hs.1 hc.symm),
      ih hs.2 hparts.2 hfuel']
    rfl

theorem StringAt.read (h : StringAt ram str s) : read ram str s.1.length = s.1 :=
  (read_eq_append_iff.mp h).1

theorem storeIn_eq {i : ℕ} {data : List UInt8} (h : i + data.length ≤ len) :
    storeIn buf len i data ram = some (patch ram (buf + i) data) := if_pos h

/-- The digits that the buffer gets. -/
def sizeDigits (n : ℕ) : List UInt8 :=
  if n < 16 then [hexDigit n] else [hexDigit (n / 16), hexDigit (n % 16)]

theorem chunkSize_eq (n : ℕ) (h : 2 ≤ len) :
    chunkSize buf len n ram =
      some (2 - (sizeDigits n).length,
        patch ram (buf + (2 - (sizeDigits n).length)) (sizeDigits n)) := by
  have hone (ram : Image) (c : UInt8) (i : ℕ) (hi : i < 2) :
      storeIn buf len i [c] ram = some (patch ram (buf + i) [c]) :=
    storeIn_eq (by rw [List.length_singleton]; omega)
  unfold chunkSize sizeDigits
  by_cases hdecimal : n < 10
  · rw [if_pos hdecimal, if_pos (by omega), hone _ _ 1 (by omega), hexDigit, if_pos hdecimal]
    rfl
  · rw [if_neg hdecimal]
    by_cases hdigit : n < 16
    · rw [if_pos hdigit, if_pos hdigit, hone _ _ 1 (by omega), hexDigit, if_neg hdecimal]
      rfl
    · -- two stores, one behind the other
      have hboth : patch ram buf ([hexDigit (n / 16)] ++ [hexDigit (n % 16)]) =
          patch (patch ram buf [hexDigit (n / 16)]) (buf + 1) [hexDigit (n % 16)] := patch_append _
      rw [if_neg hdigit, if_neg hdigit, hone _ _ 0 (by omega), Nat.shiftRight_eq_div_pow,
        show n &&& 0xF = n % 16 from Nat.and_two_pow_sub_one_eq_mod n 4]
      simp only [Option.bind_eq_bind, Option.bind_some, hone _ _ 1 (by omega)]
      exact congrArg (fun ram => some (0, ram)) hboth.symm

/-- The stores of `writeFitting`, read back from the length on. -/
theorem read_chunk (ram : Image) (buf : ℕ) {size : List UInt8} (text : List UInt8)
    (h : size.length ≤ 2) :
    let ram := patch ram (buf + 4) text
    let ram := patch ram (buf + (2 - size.length)) size
    let ram := patch ram (buf + 2) [0x0D]
    let ram := patch ram (buf + 3) [0x0A]
    let ram := patch ram (buf + (4 + text.length)) [0x0D]
    let ram := patch ram (buf + (4 + text.length + 1)) [0x0A]
    read ram (buf + (2 - size.length)) (4 - (2 - size.length) + text.length + 2) =
      size ++ ([0x0D] ++ ([0x0A] ++ (text ++ ([0x0D] ++ [0x0A])))) := by
  intro ram₁ ram₂ ram₃ ram₄ ram₅ ram₆
  have hother {g : Image} {i j n : ℕ} {c : UInt8} (hne : i + n ≤ j ∨ j + 1 ≤ i) :
      read (patch g (buf + j) [c]) (buf + i) n = read g (buf + i) n :=
    read_patch_of_disjoint (by rw [List.length_singleton]; omega)
  have hsize : read ram₆ (buf + (2 - size.length)) size.length = size := by
    rw [hother (by omega), hother (by omega), hother (by omega), hother (by omega)]
    exact read_patch_self
  have hcr : read ram₆ (buf + 2) [(0x0D : UInt8)].length = [0x0D] := by
    rw [List.length_singleton, hother (by omega), hother (by omega), hother (by omega)]
    exact read_patch_self
  have hlf : read ram₆ (buf + 3) [(0x0A : UInt8)].length = [0x0A] := by
    rw [List.length_singleton, hother (by omega), hother (by omega)]
    exact read_patch_self
  have htext : read ram₆ (buf + 4) text.length = text := by
    rw [hother (by omega), hother (by omega), hother (by omega), hother (by omega),
      read_patch_of_disjoint (by omega)]
    exact read_patch_self
  have hcr' : read ram₆ (buf + (4 + text.length)) [(0x0D : UInt8)].length = [0x0D] := by
    rw [hother (by simp)]
    exact read_patch_self
  have hlf' : read ram₆ (buf + (4 + text.length + 1)) [(0x0A : UInt8)].length = [0x0A] :=
    read_patch_self
  have hlen : 4 - (2 - size.length) + text.length + 2 =
      (size ++ ([0x0D] ++ ([0x0A] ++ (text ++ ([0x0D] ++ [0x0A]))))).length := by
    simp only [List.length_append, List.length_singleton]
    omega
  have hsum (i : ℕ) (hi : i = 2 - size.length + size.length) :
      buf + (2 - size.length) + size.length = buf + i := by omega
  rw [hlen]
  refine read_eq_append_iff.mpr ⟨hsize, ?_⟩
  rw [hsum 2 (by omega)]
  refine read_eq_append_iff.mpr ⟨hcr, read_eq_append_iff.mpr ⟨hlf, ?_⟩⟩
  refine read_eq_append_iff.mpr ⟨htext, ?_⟩
  rw [List.length_singleton, List.length_singleton,
    show buf + 2 + 1 + 1 + text.length = buf + (4 + text.length) by omega]
  refine read_eq_append_iff.mpr ⟨hcr', hlf'⟩

theorem length_sizeDigits (n : ℕ) : (sizeDigits n).length ≤ 2 := by
  unfold sizeDigits
  split
  · exact Nat.le_succ 1
  · exact le_rfl

/-- A text that fits goes out with two digits at most. -/
theorem writeFitting_eq (buf : ℕ) (h : StringAt ram str s) (hfits : s.1.length + 6 < len) :
    ∃ chunk, writeFitting ram str s.1.length buf len = some chunk ∧
      chunk.sent = sizeDigits s.1.length ++ ([0x0D, 0x0A] ++ (s.1 ++ [0x0D, 0x0A])) ∧
      ∀ a, a < buf ∨ buf + len ≤ a → chunk.ram a = ram a := by
  have hstore {i : ℕ} {c : UInt8} {ram : Image} (hi : i + 1 ≤ len) :
      storeIn buf len i [c] ram = some (patch ram (buf + i) [c]) := storeIn_eq hi
  have hdigits := length_sizeDigits s.1.length
  unfold writeFitting
  rw [h.read, storeIn_eq (by omega)]
  simp only [Option.bind_eq_bind, Option.bind_some, chunkSize_eq _ (show 2 ≤ len by omega)]
  rw [hstore (by omega), Option.bind_some, hstore (by omega), Option.bind_some,
    hstore (by omega), Option.bind_some, hstore (by omega), Option.bind_some]
  refine ⟨_, rfl, read_chunk ram buf s.1 hdigits, fun a ha => ?_⟩
  have hone {g : Image} {i : ℕ} {c : UInt8} (hi : i + 1 ≤ len) :
      patch g (buf + i) [c] a = g a := patch_of_outside (by rw [List.length_singleton]; omega)
  dsimp only
  rw [hone (by omega), hone (by omega), hone (by omega), hone (by omega),
    patch_of_outside (by omega), patch_of_outside (by omega)]

theorem writeTooBig_eq (h : StringAt ram str s) (hne : s.1 ≠ []) (hlt : s.1.length < 2 ^ 20) :
    writeTooBig ram str s.1.length = some ⟨chunkOf s.1, ram, 2⟩ := by
  have hpos := List.length_pos_of_ne_nil hne
  have hdigits := (length_hexNumeral_le_iff hpos 5).mpr hlt
  have hline : ∀ text, text = hexNumeral s.1.length ++ [0x0D, 0x0A] →
      slice (text.take 7 ++ [0]) 0 text.length = some text ∧
        slice (text.take 7 ++ [0]) (text.length - 2) 2 = some [0x0D, 0x0A] := by
    rintro text rfl
    rw [List.take_of_length_le (by simp; omega)]
    refine ⟨slice_middle [] [0], ?_⟩
    rw [List.append_assoc, List.length_append]
    exact slice_middle (hexNumeral s.1.length) [0]
  obtain ⟨hsize, hend⟩ := hline _ rfl
  unfold writeTooBig
  simp only [hsize, hend, h.read, Option.bind_eq_bind, Option.bind_some]
  rw [chunkOf, List.append_assoc]
  rfl

theorem sizeDigits_eq_iff {n : ℕ} (h : 0 < n) : sizeDigits n = hexNumeral n ↔ n < 256 := by
  constructor
  · intro heq
    exact (length_hexNumeral_le_iff h 2).mp (heq ▸ length_sizeDigits n)
  · intro hlt
    unfold sizeDigits
    split
    · next hone => exact (hexNumeral_one_digit h hone).symm
    · next htwo => exact (hexNumeral_two_digits (by omega) hlt).symm

/-- The chunk that is written is the right one unless its length needs a third digit and the
buffer has room for it. Nothing outside the buffer is stored to. -/
theorem write_string_chunk_iff (ram : Image) (str buf len : ℕ) (s : CString)
    (h : StringAt ram str s) (hne : s.1 ≠ []) (hlt : s.1.length < 2 ^ 20) :
    ∃ chunk, wificfgWriteStringChunk ram str buf len = some chunk ∧
      (∀ a, a < buf ∨ buf + len ≤ a → chunk.ram a = ram a) ∧
      (chunk.sent = chunkOf s.1 ↔ ¬(256 ≤ s.1.length ∧ s.1.length + 6 < len)) := by
  have hpos := List.length_pos_of_ne_nil hne
  have hstrlen : strlenAt ram memorySize str = some s.1.length :=
    strlenAt_eq h (hlt.trans (by decide))
  unfold wificfgWriteStringChunk
  rw [hstrlen, Option.bind_eq_bind, Option.bind_some, if_neg hpos.ne']
  split
  · next hfits =>
      obtain ⟨chunk, hchunk, hsent, hram⟩ := writeFitting_eq buf h hfits
      refine ⟨chunk, hchunk, hram, ?_⟩
      rw [hsent, chunkOf, List.append_left_inj, sizeDigits_eq_iff hpos]
      omega
  · next hbig => exact ⟨_, writeTooBig_eq h hne hlt, fun _ _ => rfl, by simp [hbig]⟩

end Writing

/-! ## Texts in the buffer itself -/

def letters (n : ℕ) : CString :=
  ⟨List.replicate n 0x61, fun h => absurd (List.eq_of_mem_replicate h) (by decide)⟩

/-- A memory with letters from address 100 on, and NULs around them. -/
def lettersAt (n : ℕ) : Image := patch (fun _ => 0) 100 (letters n).1

theorem stringAt_letters (n : ℕ) : StringAt (lettersAt n) 100 (letters n) := by
  refine read_eq_append_iff.mpr ⟨read_patch_self, ?_⟩
  rw [lettersAt, read_patch_of_disjoint (.inr le_rfl)]
  rfl

theorem write_string_chunk_three : StringAt (lettersAt 3) 100 (letters 3) ∧
    ∃ chunk, wificfgWriteStringChunk (lettersAt 3) 100 100 20 = some chunk ∧
      chunk.sent = ascii "3\r\naaa\r\n" := by
  refine ⟨stringAt_letters 3, ?_⟩
  obtain ⟨chunk, hchunk, -, hsent⟩ := write_string_chunk_iff (lettersAt 3) 100 100 20 (letters 3)
    (stringAt_letters 3) (by decide) (by decide)
  have hnumeral : hexNumeral 3 = [0x33] := hexNumeral_one_digit (by decide) (by decide)
  refine ⟨chunk, hchunk, (hsent.mpr (by decide)).trans ?_⟩
  rw [chunkOf, show (letters 3).1.length = 3 from rfl, hnumeral]
  decide

/-- A text of 256 bytes in a buffer of 300 gets the length `g0`. -/
theorem write_string_chunk_256 : StringAt (lettersAt 256) 100 (letters 256) ∧
    ∃ chunk, wificfgWriteStringChunk (lettersAt 256) 100 100 300 = some chunk ∧
      chunk.sent = ascii "g0\r\n" ++ ((letters 256).1 ++ ascii "\r\n") ∧
      chunk.sent ≠ chunkOf (letters 256).1 := by
  have hlen : (letters 256).1.length = 256 := List.length_replicate
  have hfits : (letters 256).1.length + 6 < 300 := by rw [hlen]; decide
  obtain ⟨chunk, hchunk, hsent, -⟩ := writeFitting_eq 100 (stringAt_letters 256) hfits
  have hstrlen : strlenAt (lettersAt 256) memorySize 100 = some (letters 256).1.length :=
    strlenAt_eq (stringAt_letters 256) (by rw [hlen]; decide)
  refine ⟨stringAt_letters 256, chunk, ?_, ?_, ?_⟩
  · unfold wificfgWriteStringChunk
    rw [hstrlen, Option.bind_eq_bind, Option.bind_some, if_neg (by rw [hlen]; decide), if_pos hfits]
    exact hchunk
  · rw [hsent, hlen]
    rfl
  · rw [hsent, chunkOf, ne_eq, List.append_left_inj, sizeDigits_eq_iff (by rw [hlen]; decide), hlen]
    decide

end EspOpenRtos.WifiCfg
