/-
# The buffered HTTP client

`HttpClient_dowload` reads a response into a buffer. As long as it has seen no byte of the
body, it looks for the empty line behind the header in all of the buffer, which still holds
old bytes behind those that were read. Once it has found the line, it parses the header,
moves the rest of the buffer to the front and from then on hands the buffer on whenever it
is full.

The socket delivers the response in pieces. A read returns the next piece, or as much of it
as was asked for, and nothing once the other side has closed the connection.
-/

import EspOpenRtos.HttpOta.Header

namespace EspOpenRtos.HttpOta

open Math.CStrings

/-! ## Reading -/

/-- `read` of a number of bytes, with the pieces that are left. -/
def socketRead (size : ℕ) : List (List UInt8) → List UInt8 × List (List UInt8)
  | [] => ([], [])
  | piece :: pieces =>
    (piece.take size, if piece.length ≤ size then pieces else piece.drop size :: pieces)

/-- A read takes its bytes off the stream. -/
theorem socketRead_append (size : ℕ) (pieces : List (List UInt8)) :
    (socketRead size pieces).1 ++ (socketRead size pieces).2.flatten = pieces.flatten := by
  cases pieces with
  | nil => rfl
  | cons piece pieces =>
    rw [socketRead, List.flatten_cons]
    dsimp only
    split
    · next hle => rw [List.take_of_length_le hle]
    · rw [List.flatten_cons, ← List.append_assoc, List.take_append_drop]

theorem length_socketRead_lt {size : ℕ} {pieces : List (List UInt8)} (h : (socketRead size pieces).1 ≠ []) :
    (socketRead size pieces).2.flatten.length < pieces.flatten.length := by
  have hpos := List.length_pos_iff.mpr h
  rw [← socketRead_append size pieces, List.length_append]
  omega

/-! ## The client -/

/-- `HTTP_OK`. -/
def httpOk : ℕ := 200

/-- `HTTP_DOWLOAD_SIZE_NOT_MATCH`. -/
def httpDowloadSizeNotMatch : ℕ := 6

/-- The end of the last line of a header, and an empty line. -/
def emptyLine : List UInt8 := [cr, lf, cr, lf]

/-- The memory from `info->buffer` on, the number of bytes in the buffer (`wrt_ptr` points
behind them), `tot_http_pdu_rd`, `http_reponse`, and what `buffer_full_cb` was called with. -/
structure Client where
  mem : List UInt8
  full : ℕ
  tot : ℕ
  response : HttpResponse
  blocks : List (List UInt8)

/-- What the callbacks were called with, and what is returned. -/
structure Received where
  blocks : List (List UInt8)
  last : Option (List UInt8)
  code : ℕ

/-- The end of a round of the loop. -/
inductive Round
  | next (c : Client)
  /-- `goto err_label`. -/
  | stop (code : ℕ)
  /-- `memmove` with a negative size. -/
  | undefined

namespace Client

/-- Before the first read, with what the buffer and the previous response hold. -/
def init (mem : List UInt8) (response : HttpResponse) : Client := ⟨mem, 0, 0, response, []⟩

/-- `read`, with the variables that depend on it. -/
def store (c : Client) (piece : List UInt8) : Client :=
  { c with
    mem := c.mem.take c.full ++ piece ++ c.mem.drop (c.full + piece.length)
    full := c.full + piece.length }

/-- The header ends at `pdu`. It is copied with four bytes behind it. -/
def takeHeader (c : Client) (pdu : ℕ) : Round :=
  if c.full < pdu then .undefined
  else
    let response := parseHttpHeader c.response (c.mem.take (pdu + 4))
    let pduSize := c.full - pdu
    if response.responseCode ≠ httpOk then .stop response.responseCode
    else
      .next { c with
        mem := (c.mem.drop pdu).take pduSize ++ c.mem.drop pduSize
        full := pduSize
        tot := pduSize
        response := response }

/-- Hand the buffer on when it is full. -/
def flush (bufferSize : ℕ) (c : Client) : Client :=
  if c.full = bufferSize then
    { c with
      mem := List.replicate bufferSize 0 ++ c.mem.drop bufferSize
      full := 0
      blocks := c.blocks ++ [c.mem.take c.full] }
  else c

/-- A round of the loop, in which `read` returns a piece. -/
def round (bufferSize : ℕ) (c : Client) (piece : List UInt8) : Round :=
  if c.tot = 0 then
    match strstr emptyLine (cstr (c.store piece).mem) with
    | some p => (c.store piece).takeHeader (p + 4)
    | none => .next (c.store piece)
  else
    .next (flush bufferSize { c.store piece with tot := (c.tot + piece.length) % 2 ^ 32 })

/-- Behind the loop. -/
def finish (c : Client) : Received :=
  ⟨c.blocks, some (c.mem.take c.full),
    if c.tot ≠ c.response.length then httpDowloadSizeNotMatch else c.response.responseCode⟩

/-- The loop of `HttpClient_dowload`, for the pieces that are still to come. -/
def dowload (bufferSize : ℕ) (c : Client) (pieces : List (List UInt8)) : Option Received :=
  let piece := (socketRead (bufferSize - c.full) pieces).1
  match c.round bufferSize piece with
  | .undefined => none
  | .stop code => some ⟨c.blocks, none, code⟩
  | .next c' =>
    if _hpiece : piece = [] then some c'.finish
    else dowload bufferSize c' (socketRead (bufferSize - c.full) pieces).2
termination_by pieces.flatten.length
decreasing_by exact length_socketRead_lt _hpiece

end Client

end EspOpenRtos.HttpOta
