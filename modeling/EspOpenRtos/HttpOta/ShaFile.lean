/-
# The file with the digest

The digest of a firmware is published as a text file. Its download delivers the file in
blocks to a callback that collects them in a string of 65 bytes. The callback limits each
block to 64 bytes, but it asks only how many bytes are in the string already, not how
many there will be: a block that comes when there are at most 64 bytes is stored even
where there is no room for it. Of what is stored, the first 64 characters are converted
to the digest, four at a time.
-/

import EspOpenRtos.Math.CStrings
import EspOpenRtos.Math.NorFlash

namespace EspOpenRtos.HttpOta

open Math.CStrings Math.NorFlash

/-- `SHA256_SIZE_BIN`. -/
def sha256SizeBin : ℕ := 32

/-- `SHA256_SIZE_STR`. -/
def sha256SizeStr : ℕ := 64

/-- `SHA256_CONV_STEP_SIZE`. -/
def sha256ConvStepSize : ℕ := 4

/-! ## The callback -/

/-- The memory from `SHA256_str` on, and `SHA256_wrt_ptr` as an offset. -/
structure ShaStr where
  mem : ℕ → UInt8
  wrtPtr : ℕ

/-- The size that `SHA256_check_callback` works with. -/
def limitedSize (buf : List UInt8) : ℕ :=
  if buf.length > sha256SizeStr then sha256SizeStr else buf.length

/-- `SHA256_check_callback`. -/
def checkCallback (st : ShaStr) (buf : List UInt8) : ShaStr :=
  if ¬st.wrtPtr > sha256SizeStr then
    ⟨patch st.mem st.wrtPtr (buf.take (limitedSize buf)), st.wrtPtr + limitedSize buf⟩
  else st

/-- The string before the first call: 65 zeros in memory that may hold anything. -/
def clearedStr (mem : ℕ → UInt8) : ShaStr := ⟨patch mem 0 (List.replicate (sha256SizeStr + 1) 0), 0⟩

/-- The writes of calls of the callback, as offset and size. -/
def callWrites (st : ShaStr) : List (List UInt8) → List (ℕ × ℕ)
  | [] => []
  | buf :: calls =>
    (if ¬st.wrtPtr > sha256SizeStr then [(st.wrtPtr, limitedSize buf)] else []) ++
      callWrites (checkCallback st buf) calls

/-! ## SHA-256 -/

/-- The working variables. -/
structure ShaState where
  (a b c d e f g h : UInt32)

def rotr (x n : UInt32) : UInt32 := x >>> n ||| x <<< (32 - n)

def shaConstants : List UInt32 :=
  [0x428a2f98, 0x71374491, 0xb5c0fbcf, 0xe9b5dba5, 0x3956c25b, 0x59f111f1, 0x923f82a4, 0xab1c5ed5,
    0xd807aa98, 0x12835b01, 0x243185be, 0x550c7dc3, 0x72be5d74, 0x80deb1fe, 0x9bdc06a7, 0xc19bf174,
    0xe49b69c1, 0xefbe4786, 0x0fc19dc6, 0x240ca1cc, 0x2de92c6f, 0x4a7484aa, 0x5cb0a9dc, 0x76f988da,
    0x983e5152, 0xa831c66d, 0xb00327c8, 0xbf597fc7, 0xc6e00bf3, 0xd5a79147, 0x06ca6351, 0x14292967,
    0x27b70a85, 0x2e1b2138, 0x4d2c6dfc, 0x53380d13, 0x650a7354, 0x766a0abb, 0x81c2c92e, 0x92722c85,
    0xa2bfe8a1, 0xa81a664b, 0xc24b8b70, 0xc76c51a3, 0xd192e819, 0xd6990624, 0xf40e3585, 0x106aa070,
    0x19a4c116, 0x1e376c08, 0x2748774c, 0x34b0bcb5, 0x391c0cb3, 0x4ed8aa4a, 0x5b9cca4f, 0x682e6ff3,
    0x748f82ee, 0x78a5636f, 0x84c87814, 0x8cc70208, 0x90befffa, 0xa4506ceb, 0xbef9a3f7, 0xc67178f2]

/-- One round, with the sum of a constant and a word of the schedule. -/
def ShaState.round (s : ShaState) (kw : UInt32) : ShaState :=
  let t := s.h + (rotr s.e 6 ^^^ rotr s.e 11 ^^^ rotr s.e 25) +
    ((s.e &&& s.f) ^^^ (~~~s.e &&& s.g)) + kw
  ⟨t + (rotr s.a 2 ^^^ rotr s.a 13 ^^^ rotr s.a 22) +
    ((s.a &&& s.b) ^^^ (s.a &&& s.c) ^^^ (s.b &&& s.c)), s.a, s.b, s.c, s.d + t, s.e, s.f, s.g⟩

/-- The next word of the schedule, which has its last word first. -/
def scheduleWord (w : List UInt32) : UInt32 :=
  let x := w.getD 14 0
  let y := w.getD 1 0
  w.getD 15 0 + (rotr x 7 ^^^ rotr x 18 ^^^ x >>> 3) + w.getD 6 0 +
    (rotr y 17 ^^^ rotr y 19 ^^^ y >>> 10)

def bigEndianWords : List UInt8 → List UInt32
  | a :: b :: c :: d :: bytes =>
    (a.toUInt32 <<< 24 ||| b.toUInt32 <<< 16 ||| c.toUInt32 <<< 8 ||| d.toUInt32) ::
      bigEndianWords bytes
  | _ => []

def bigEndianBytes (x : UInt32) : List UInt8 :=
  [(x >>> 24).toUInt8, (x >>> 16).toUInt8, (x >>> 8).toUInt8, x.toUInt8]

/-- The 64 rounds for a block of 64 bytes. -/
def ShaState.block (s : ShaState) (bytes : List UInt8) : ShaState :=
  let w := (List.range 48).foldl (fun w _ => scheduleWord w :: w) (bigEndianWords bytes).reverse
  let t := (List.zipWith (· + ·) shaConstants w.reverse).foldl ShaState.round s
  ⟨s.a + t.a, s.b + t.b, s.c + t.c, s.d + t.d, s.e + t.e, s.f + t.f, s.g + t.g, s.h + t.h⟩

/-- The message with a one bit, zeros and its length in bits. -/
def shaPadded (bytes : List UInt8) : List UInt8 :=
  bytes ++ 0x80 :: List.replicate ((119 - bytes.length % 64) % 64) 0 ++
    bigEndianBytes (UInt32.ofNat (8 * bytes.length / 2 ^ 32)) ++
    bigEndianBytes (UInt32.ofNat (8 * bytes.length))

/-- SHA-256. -/
def sha256 (bytes : List UInt8) : List UInt8 :=
  let m := shaPadded bytes
  let s : ShaState := (List.range (m.length / 64)).foldl
    (fun s i => s.block ((m.drop (64 * i)).take 64))
    ⟨0x6a09e667, 0xbb67ae85, 0x3c6ef372, 0xa54ff53a, 0x510e527f, 0x9b05688c, 0x1f83d9ab, 0x5be0cd19⟩
  [s.a, s.b, s.c, s.d, s.e, s.f, s.g, s.h].flatMap bigEndianBytes

theorem length_sha256 (bytes : List UInt8) : (sha256 bytes).length = sha256SizeBin := rfl

/-! ## The conversion -/

/-- The two bytes in memory of `LWIP_PLATFORM_HTONS`, on a little-endian machine. -/
def htonsBytes (val : UInt16) : List UInt8 := [UInt8.ofNat (val.toNat / 256), UInt8.ofNat val.toNat]

/-- `val` for the characters at `wrt_ptr`. -/
def groupValue (group : List UInt8) : UInt16 :=
  UInt16.ofNat (strtol16 (cstr group) % 2 ^ 16).toNat

/-- `convert_SHA256_Str_TO_uint32`: the bytes of `final_sha_bin`. -/
def convertSha256Str (str : List UInt8) : List UInt8 :=
  (List.range (sha256SizeStr / sha256ConvStepSize)).flatMap fun i =>
    htonsBytes (groupValue ((str.drop (sha256ConvStepSize * i)).take sha256ConvStepSize))

/-- `!memcmp` of two digests. -/
def comRes (output dowload : List UInt8) : Bool :=
  output.take sha256SizeBin == dowload.take sha256SizeBin

/-! ## Digests in hexadecimal -/

/-- The two digits of a byte. -/
def hexByte (b : UInt8) : List UInt8 := [hexDigit (b.toNat / 16), hexDigit (b.toNat % 16)]

/-- A text is the hexadecimal notation of a digest, with letters of either case. -/
def HexOf (digest text : List UInt8) : Prop := text.map tolower = digest.flatMap hexByte

section Hex

/-- A character that is a hexadecimal digit. -/
theorem xdigit_of_tolower {c : UInt8} {n : ℕ} (hn : n < 16) (h : tolower c = hexDigit n) :
    isxdigit c = true ∧ xdigitValue c = n := by
  have hall : ∀ i < 256, ∀ n < 16, tolower (.ofNat i) = hexDigit n →
      isxdigit (.ofNat i) = true ∧ xdigitValue (.ofNat i) = n := by decide +kernel
  have hthis := hall c.toNat c.toNat_lt n hn
  rw [UInt8.ofNat_toNat] at hthis
  exact hthis h

/-- The value of a group of four characters. -/
theorem groupValue_of_hex {x y : UInt8} {group : List UInt8} (h : HexOf [x, y] group) :
    groupValue group = UInt16.ofNat (x.toNat * 256 + y.toNat) := by
  have hx := x.toNat_lt
  have hy := y.toNat_lt
  obtain ⟨a, b, c, d, rfl⟩ : ∃ a b c d, group = [a, b, c, d] := by
    have hlen := congrArg List.length h
    rw [List.length_map] at hlen
    exact List.length_eq_four.mp hlen
  simp only [HexOf, hexByte, List.map_cons, List.map_nil, List.flatMap_cons, List.flatMap_nil,
    List.cons_append, List.nil_append, List.cons.injEq, and_true] at h
  obtain ⟨ha, hb, hc, hd⟩ := h
  obtain ⟨hda, hva⟩ := xdigit_of_tolower (by omega) ha
  obtain ⟨hdb, hvb⟩ := xdigit_of_tolower (by omega) hb
  obtain ⟨hdc, hvc⟩ := xdigit_of_tolower (by omega) hc
  obtain ⟨hdd, hvd⟩ := xdigit_of_tolower (by omega) hd
  have hdigits : ∀ z ∈ [a, b, c, d], isxdigit z = true := by
    simp [hda, hdb, hdc, hdd]
  have hnul : (0 : UInt8) ∉ [a, b, c, d] := fun hmem => absurd (hdigits 0 hmem) (by decide)
  rw [groupValue, cstr_of_not_mem hnul, strtol16_of_isxdigit hdigits]
  simp only [List.foldl_cons, List.foldl_nil, hva, hvb, hvc, hvd]
  congr 1
  omega

/-- A part of the text is the notation of a part of the digest. -/
theorem HexOf.drop_take {digest text : List UInt8} (h : HexOf digest text) (i n : ℕ) :
    HexOf ((digest.drop i).take n) ((text.drop (2 * i)).take (2 * n)) := by
  have hdrop (l : List UInt8) (k : ℕ) :
      (l.flatMap hexByte).drop (2 * k) = (l.drop k).flatMap hexByte := by
    induction k generalizing l with
    | zero => rfl
    | succ k ih =>
      cases l with
      | nil => rfl
      | cons x l => exact ih l
  have htake (l : List UInt8) (k : ℕ) :
      (l.flatMap hexByte).take (2 * k) = (l.take k).flatMap hexByte := by
    induction k generalizing l with
    | zero => rfl
    | succ k ih =>
      cases l with
      | nil => rfl
      | cons x l =>
        rw [List.take_succ_cons, List.flatMap_cons, List.flatMap_cons, ← ih l]
        rfl
  rw [HexOf, List.map_take, List.map_drop, h, hdrop, htake]

theorem flatMap_range_take_drop (l : List UInt8) (n : ℕ) :
    ((List.range n).flatMap fun i => (l.drop (2 * i)).take 2) = l.take (2 * n) := by
  induction n with
  | zero => rfl
  | succ n ih =>
    rw [List.range_succ, List.flatMap_append, ih, List.flatMap_singleton, Nat.mul_succ, List.take_add]

/-- The conversion gives the digest. -/
theorem convertSha256Str_of_hex {digest text : List UInt8} (hsize : digest.length = sha256SizeBin)
    (h : HexOf digest text) : convertSha256Str text = digest := by
  have hgroups : convertSha256Str text =
      (List.range 16).flatMap fun i => (digest.drop (2 * i)).take 2 := by
    refine List.flatMap_congr fun i hi => ?_
    have hlt : i < 16 := List.mem_range.mp hi
    have hlen : ((digest.drop (2 * i)).take 2).length = 2 := by
      rw [List.length_take, List.length_drop, hsize, sha256SizeBin]
      omega
    obtain ⟨x, y, hpair⟩ := List.length_eq_two.mp hlen
    have hpart := h.drop_take (2 * i) 2
    rw [hpair] at hpart ⊢
    rw [show sha256ConvStepSize * i = 2 * (2 * i) by rw [sha256ConvStepSize]; omega,
      show sha256ConvStepSize = 2 * 2 from rfl, groupValue_of_hex hpart, htonsBytes]
    have hx := x.toNat_lt
    have hy := y.toNat_lt
    simp only [List.cons.injEq, ← UInt8.toNat_inj, UInt8.toNat_ofNat', UInt16.toNat_ofNat', and_true]
    omega
  rw [hgroups, flatMap_range_take_drop]
  exact List.take_of_length_le hsize.le

end Hex

/-! ## Blocks in the string -/

/-- The number of bytes that calls of the callback store, as long as they store any. -/
def stored (calls : List (List UInt8)) : ℕ := (calls.map limitedSize).sum

/-- No block comes when at most 64 bytes have been stored that makes them more than 65. -/
def StopsInTime (calls : List (List UInt8)) : Prop :=
  ∀ before buf after, calls = before ++ buf :: after → stored before ≤ sha256SizeStr →
    stored before + limitedSize buf ≤ sha256SizeStr + 1

section Blocks

variable {st : ShaStr}

theorem checkCallback_of_gt (h : st.wrtPtr > sha256SizeStr) (buf : List UInt8) :
    checkCallback st buf = st := if_neg (not_not.mpr h)

theorem checkCallback_of_le (h : st.wrtPtr ≤ sha256SizeStr) (buf : List UInt8) :
    checkCallback st buf =
      ⟨patch st.mem st.wrtPtr (buf.take (limitedSize buf)), st.wrtPtr + limitedSize buf⟩ :=
  if_pos (Nat.not_lt.mpr h)

theorem callWrites_of_gt (h : st.wrtPtr > sha256SizeStr) (calls : List (List UInt8)) :
    callWrites st calls = [] := by
  induction calls with
  | nil => rfl
  | cons buf calls ih => rw [callWrites, if_neg (not_not.mpr h), checkCallback_of_gt h, ih]; rfl

/-- The writes stay inside the string exactly if the blocks stop in time. -/
theorem callWrites_inside_iff (st : ShaStr) (calls : List (List UInt8)) :
    (∀ w ∈ callWrites st calls, w.1 + w.2 ≤ sha256SizeStr + 1) ↔
      ∀ before buf after, calls = before ++ buf :: after → st.wrtPtr + stored before ≤ sha256SizeStr →
        st.wrtPtr + stored before + limitedSize buf ≤ sha256SizeStr + 1 := by
  induction calls generalizing st with
  | nil =>
    refine ⟨fun _ before buf after h => ?_, fun _ w hw => nomatch hw⟩
    exact absurd h.symm (List.append_ne_nil_of_right_ne_nil _ (List.cons_ne_nil _ _))
  | cons buf calls ih =>
    rcases Nat.lt_or_ge sha256SizeStr st.wrtPtr with hgt | hle
    · rw [callWrites_of_gt hgt]
      refine ⟨fun _ before _ _ _ hroom => ?_, fun _ w hw => nomatch hw⟩
      omega
    · have hstored (before : List (List UInt8)) :
          stored (buf :: before) = limitedSize buf + stored before := rfl
      rw [callWrites, if_pos (Nat.not_lt.mpr hle), List.singleton_append, List.forall_mem_cons,
        ih, checkCallback_of_le hle]
      dsimp only
      constructor
      · rintro ⟨hfirst, hrest⟩ before next after heq hroom
        cases before with
        | nil =>
          obtain ⟨rfl, rfl⟩ := List.cons.inj heq
          exact hfirst
        | cons first before =>
          obtain ⟨rfl, rfl⟩ := List.cons.inj heq
          have hnext := hrest before next after rfl
          rw [hstored] at hroom ⊢
          omega
      · intro h
        refine ⟨h [] buf calls rfl hle, fun before next after heq hroom => ?_⟩
        have hnext := h (buf :: before) next after (by rw [heq]; rfl)
        rw [hstored] at hnext
        omega

theorem callWrites_clearedStr_iff (mem : ℕ → UInt8) (calls : List (List UInt8)) :
    (∀ w ∈ callWrites (clearedStr mem) calls, w.1 + w.2 ≤ sha256SizeStr + 1) ↔ StopsInTime calls := by
  have hinside := callWrites_inside_iff (clearedStr mem) calls
  have hstart : (clearedStr mem).wrtPtr = 0 := rfl
  simp only [hstart, Nat.zero_add] at hinside
  exact hinside

/-- The string holds the first 64 of the bytes that have been delivered. -/
structure Collects (st : ShaStr) (delivered : List UInt8) : Prop where
  bytes : ∀ i < sha256SizeStr, st.mem i = delivered.getD i 0
  position : min sha256SizeStr st.wrtPtr = min sha256SizeStr delivered.length

theorem Collects.checkCallback {delivered : List UInt8} (h : Collects st delivered)
    (buf : List UInt8) : Collects (checkCallback st buf) (delivered ++ buf) := by
  have hposition := h.position
  have hlimited : limitedSize buf = min buf.length sha256SizeStr := by
    rw [limitedSize]
    split <;> omega
  rcases Nat.lt_or_ge sha256SizeStr st.wrtPtr with hgt | hle
  · rw [checkCallback_of_gt hgt]
    refine ⟨fun i hi => ?_, by rw [List.length_append]; omega⟩
    rw [h.bytes i hi, List.getD_append _ _ _ _ (by omega)]
  · rw [checkCallback_of_le hle]
    refine ⟨fun i hi => ?_, by rw [List.length_append]; dsimp only; omega⟩
    dsimp only
    have htake : (buf.take (limitedSize buf)).length = limitedSize buf := by
      rw [List.length_take]
      omega
    rcases Nat.lt_or_ge i delivered.length with hold | hnew
    · rw [patch_of_lt (by omega), h.bytes i hi, List.getD_append _ _ _ _ hold]
    · rw [List.getD_append_right _ _ _ _ hnew]
      rcases Nat.lt_or_ge i (st.wrtPtr + limitedSize buf) with hin | hout
      · obtain ⟨k, rfl⟩ : ∃ k, i = st.wrtPtr + k := ⟨i - st.wrtPtr, by omega⟩
        rw [patch_at (by omega), List.getElem_take,
          show st.wrtPtr + k - delivered.length = k by omega, List.getD_eq_getElem]
      · rw [patch_of_ge (by omega), h.bytes i hi, List.getD_eq_default _ _ hnew,
          List.getD_eq_default _ _ (by omega)]

/-- Whatever the sizes of the blocks, the string starts with what was delivered first. -/
theorem Collects.calls {delivered : List UInt8} (h : Collects st delivered)
    (calls : List (List UInt8)) :
    Collects (calls.foldl HttpOta.checkCallback st) (delivered ++ calls.flatten) := by
  induction calls generalizing st delivered with
  | nil => rwa [List.flatten_nil, List.append_nil]
  | cons buf calls ih =>
    rw [List.foldl_cons, List.flatten_cons, ← List.append_assoc]
    exact ih (h.checkCallback buf)

theorem collects_clearedStr (mem : ℕ → UInt8) : Collects (clearedStr mem) [] := by
  refine ⟨fun i hi => ?_, rfl⟩
  have hlt : i < (List.replicate (sha256SizeStr + 1) (0 : UInt8)).length := by
    rw [List.length_replicate]
    omega
  have hzero : patch mem 0 (List.replicate (sha256SizeStr + 1) 0) (0 + i) = _ := patch_at hlt
  rwa [Nat.zero_add, List.getElem_replicate] at hzero

end Blocks

/-- The file is handled as it should be: all writes are inside the 65 bytes of the string,
which starts with the first 64 bytes delivered, and the notation of a digest, in letters
of either case, is converted to it, so that exactly this digest compares equal. -/
structure HandlesFile (mem : ℕ → UInt8) (calls : List (List UInt8)) : Prop where
  inside : ∀ w ∈ callWrites (clearedStr mem) calls, w.1 + w.2 ≤ sha256SizeStr + 1
  first : ∀ i < sha256SizeStr,
    (calls.foldl checkCallback (clearedStr mem)).mem i = calls.flatten.getD i 0
  digest : ∀ digest text, digest.length = sha256SizeBin → HexOf digest text →
    convertSha256Str text = digest ∧
      ∀ output, output.length = sha256SizeBin → (comRes output (convertSha256Str text) = true ↔ output = digest)

/-- This is so exactly if the blocks stop in time. -/
theorem handles_file_iff (mem : ℕ → UInt8) (calls : List (List UInt8)) :
    HandlesFile mem calls ↔ StopsInTime calls := by
  have hinside := callWrites_clearedStr_iff mem calls
  refine ⟨fun h => hinside.mp h.inside, fun h => ⟨hinside.mpr h, ?_, ?_⟩⟩
  · exact ((collects_clearedStr mem).calls calls).bytes
  · intro digest text hsize hhex
    have hconvert := convertSha256Str_of_hex hsize hhex
    refine ⟨hconvert, fun output hout => ?_⟩
    rw [hconvert, comRes, List.take_of_length_le hout.le, List.take_of_length_le hsize.le, beq_iff_eq]

/-- A file of 4098 bytes, delivered in a full block and the rest. -/
def longFile : List (List UInt8) := [List.replicate 4096 0x30, List.replicate 2 0x30]

/-- Its second block is stored behind the end of the string. -/
theorem long_file_overflows : ¬HandlesFile (fun _ => 0) longFile := by
  intro h
  have hfirst : limitedSize (List.replicate 4096 0x30) = 64 := by
    rw [limitedSize, List.length_replicate]
    rfl
  have hstored : stored [List.replicate 4096 0x30] = 64 := by
    rw [stored, List.map_singleton, List.sum_singleton, hfirst]
  have hroom := (callWrites_clearedStr_iff _ _).mp h.inside [List.replicate 4096 0x30]
    (List.replicate 2 0x30) [] rfl
  rw [hstored] at hroom
  exact absurd (hroom (by decide)) (by decide)

end EspOpenRtos.HttpOta
