/-
# Replies

`mdns_reply` answers the questions of a packet one by one. The answers are appended to a
buffer of fixed size and counted in its header, in network byte order; an answer that
does not fit is left out, although a part of its name may have been stored behind the
answers. Records of addresses get the current address of the interface first. At the end
one more record may be volunteered: the one that follows the record found last, if it
leads on to the address.
-/

import EspOpenRtos.MdnsResponder.Encoder
import EspOpenRtos.MdnsResponder.Questions
import EspOpenRtos.MdnsResponder.Records

namespace EspOpenRtos.MdnsResponder

open Math.NorFlash (read patch)
open Math.CStrings

/-! ## Answers -/

/-- `mdns_response` and `respLen`. -/
structure Response where
  buf : ℕ → UInt8
  len : ℕ

/-- The four bytes of `htonl`. -/
def htonl (n : UInt32) : List UInt8 := Math.DnsMessages.bytes32 n

/-- `struct mdns_answer`, in network order. -/
def mdnsAnswer (r : Rsrc) : List UInt8 :=
  htons r.rType ++ (htons DNS_RRCLASS_IN ++ (htonl r.rTTL ++ htons (UInt16.ofNat r.data.length)))

/-- `mdns_add_to_answer`. What has been stored of a name that does not fit stays behind the
answers. -/
def addToAnswer (r : Rsrc) (resp : Response) : Response :=
  let rem := replySize - resp.len
  let packed := str2labels r.key.1 rem
  let buf := patch resp.buf resp.len packed.stored
  if packed.result = 0 then ⟨buf, resp.len⟩
  else if packed.result + sizeofDnsAnswer + r.data.length > rem then ⟨buf, resp.len⟩
  else
    let respLen := resp.len + packed.result
    let buf := patch buf respLen (mdnsAnswer r)
    let respLen := respLen + sizeofDnsAnswer
    ⟨patch buf respLen r.data, respLen + r.data.length⟩

/-- The offset of `numanswers` in `struct mdns_hdr`. -/
def numanswers : ℕ := 6

/-- The offset of `numextrarr` in `struct mdns_hdr`. -/
def numextrarr : ℕ := 10

/-- Appending a record and counting it in a field of the header. -/
def addCounted (field : ℕ) (r : Rsrc) (resp : Response) : Response :=
  let new := addToAnswer r resp
  if new.len > resp.len then
    ⟨patch new.buf field (htons (readU16 new.buf field + 1)), new.len⟩
  else ⟨new.buf, resp.len⟩

/-! ## Questions -/

/-- The interface that the packet came in by, with its valid IPv6 addresses in the order
of their indices. -/
structure Netif where
  ip4 : Vector UInt8 4
  ip6 : List (Vector UInt8 16)

/-- The `memcpy` of an address to the data of a record. -/
def Rsrc.setAddress (r : Rsrc) (addr : List UInt8) : Rsrc :=
  { r with data := addr ++ r.data.drop addr.length }

/-- A record of an IPv4 address is brought up to date. -/
def refreshA (netif : Netif) (r : Rsrc) : Rsrc :=
  if r.rType = DNS_RRTYPE_A then r.setAddress netif.ip4.toList else r

/-- The variables of `mdns_reply`, and the list at `gDictP`. The pointer `extra` is a
position of the list. -/
structure Replying where
  dict : Dict
  resp : Response
  extra : Option ℕ

/-- The record at a position is replaced and appended. -/
def Replying.answer (s : Replying) (field i : ℕ) (r : Rsrc) : Replying :=
  { s with dict := s.dict.set i r, resp := addCounted field r s.resp }

/-- The record that `mdns_match` finds, with its position. -/
def mdnsFind (dict : Dict) (qstr : CString) (qType : UInt16) : Option (ℕ × Rsrc) :=
  (dict.findIdx? fun r => (r.rType == qType || qType == DNS_RRTYPE_ANY) && strcaseEq r.key qstr).bind
    fun i => dict[i]?.map fun r => (i, r)

/-- The record behind a position, if it has the given type. -/
def followedBy (dict : Dict) (i : ℕ) (rType : UInt16) : Bool :=
  dict[i + 1]?.any (·.rType == rType)

/-- The record to volunteer after an answer. -/
def chooseExtra (dict : Dict) (qType : UInt16) (i : ℕ) (extra : Option ℕ) : Option ℕ :=
  if qType = DNS_RRTYPE_PTR then
    if followedBy dict i DNS_RRTYPE_SRV then some (i + 1) else extra
  else if qType = DNS_RRTYPE_SRV then
    if followedBy dict i DNS_RRTYPE_A then some (i + 1) else extra
  else extra

/-- The question loop of `mdns_reply` behind `mdns_get_question`. -/
def answerQuestion (lwipIpv6 : Bool) (netif : Netif) (s : Replying) (qStr : CString)
    (qType qClass : UInt16) : Replying :=
  if qClass = DNS_RRCLASS_IN ∨ qClass = DNS_RRCLASS_ANY then
    match mdnsFind s.dict qStr qType with
    | none => s
    | some (i, r) =>
      if lwipIpv6 = true ∧ r.rType = DNS_RRTYPE_AAAA then
        -- an answer for each address
        netif.ip6.foldl (fun s addr => s.answer numanswers i (r.setAddress addr.toList)) s
      else
        let s := s.answer numanswers i (refreshA netif r)
        { s with extra := chooseExtra s.dict qType i s.extra }
  else s

/-- The string in `qStr` after a name has been unpacked. -/
def Unpacked.qStr (u : Unpacked) : CString := ⟨cstr u.name.written, not_mem_cstr _⟩

/-- One round of the question loop. -/
def answerUnpacked (lwipIpv6 : Bool) (netif : Netif) (s : Replying) (u : Unpacked) : Replying :=
  match u.query with
  | none => s
  | some q => answerQuestion lwipIpv6 netif s u.qStr q.type q.qClass

/-! ## The reply -/

def DNS_FLAG1_AUTH : UInt8 := 0x04

/-- `rHdr`, with the `id` of the query and without entries. -/
def rHdr (mem : ℕ → UInt8) : List UInt8 :=
  [mem 0, mem 1, DNS_FLAG1_RESP + DNS_FLAG1_AUTH, 0] ++ List.replicate 8 0

/-- The header of the response, in a buffer that may hold anything. -/
def responseHeader (mem buf : ℕ → UInt8) : Response := ⟨patch buf 0 (rHdr mem), sizeofDnsHdr⟩

/-- The part of `mdns_reply` behind the question loop: the list, and the message sent. -/
def finishReply (netif : Netif) (s : Replying) : Dict × Option (List UInt8) :=
  if s.resp.len > sizeofDnsHdr then
    let s := match s.extra.bind fun i => s.dict[i]?.map fun r => (i, r) with
      | none => s
      | some (i, r) => s.answer numextrarr i (refreshA netif r)
    (s.dict, some (read s.resp.buf 0 s.resp.len))
  else (s.dict, none)

/-- `mdns_reply`. Nothing comes out if a name is not unpacked after `fuel` rounds. -/
def mdnsReply (lwipIpv6 : Bool) (netif : Netif) (dict : Dict) (mem buf : ℕ → UInt8) (fuel : ℕ) :
    Option (Dict × Option (List UInt8)) :=
  let us := questionLoop mem fuel
  if us.any (·.query.isNone) then none
  else
    let s := us.foldl (answerUnpacked lwipIpv6 netif) ⟨dict, responseHeader mem buf, none⟩
    some (finishReply netif s)

/-- `mdns_recv`, with the memory that holds its copy of the packet. -/
def mdnsRecv (lwipIpv6 : Bool) (netif : Netif) (dict : Dict) (payload : List UInt8)
    (mem buf : ℕ → UInt8) (fuel : ℕ) : Option (Dict × Option (List UInt8)) :=
  if Passes payload mem then mdnsReply lwipIpv6 netif dict mem buf fuel else some (dict, none)

end EspOpenRtos.MdnsResponder
