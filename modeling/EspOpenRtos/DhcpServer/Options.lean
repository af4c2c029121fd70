/-
# The option grammar

The options of a message are a list of type, length and data, between which single
zero bytes may stand as padding, up to an end mark. The search of the server knows
nothing of padding: it takes the byte behind a zero for a length. Two zeros in a row
are skipped like an empty option, so padding in pairs does no harm; behind a single zero
the search goes on somewhere else.
-/

import EspOpenRtos.DhcpServer.Leases
import EspOpenRtos.Math.NorFlash

namespace EspOpenRtos.DhcpServer

open Math.NorFlash (read read_succ length_read drop_read)

/-! ## The search in memory -/

section Memory

variable {mem mem' : ℕ → UInt8} {msgEnd p q : ℕ} {optionNum minLength : UInt8}

end Memory

/-! ## The grammar -/

/-- The padding option, which has neither length nor data. -/
def optionPad : UInt8 := 0

/-- An option with data. -/
structure Opt where
  type : UInt8
  data : List UInt8
  not_pad : type ≠ optionPad
  not_end : type ≠ optionEnd
  short : data.length < 256

inductive Item where
  | pad
  | opt (o : Opt)

def Item.bytes : Item → List UInt8
  | .pad => [optionPad]
  | .opt o => o.type :: .ofNat o.data.length :: o.data

section Grammar

variable {optionNum minLength : UInt8} {items : List Item} {junk : List UInt8}

end Grammar

/-! ## The options of the replies -/

section Replies

variable (s : ServerState)

variable {s} {opts : List Opt}

end Replies

/-! ## The search and the grammar -/

end EspOpenRtos.DhcpServer
