/-
# The record database

The responder answers from a list of records, which its users extend and never
shrink. A record is found by its key and its type, the newest first. Advertising a
service adds the records by which a client gets from the name of the service to the
address of the device.
-/

import EspOpenRtos.Math.CStrings
import EspOpenRtos.Math.Runs
import EspOpenRtos.MdnsResponder.Names

namespace EspOpenRtos.MdnsResponder

open Math.CStrings Math.Runs
open Math.DnsMessages (encodeName ValidName)

/-! ## Constants of `mdnsresponder.c` -/

def DNS_RRTYPE_A : UInt16 := 1
def DNS_RRTYPE_PTR : UInt16 := 12
def DNS_RRTYPE_TXT : UInt16 := 16
def DNS_RRTYPE_AAAA : UInt16 := 28
def DNS_RRTYPE_SRV : UInt16 := 33
def DNS_RRTYPE_ANY : UInt16 := 255

/-- The size of the buffers for label sequences. -/
def kMaxNameSize : ℕ := 64

def mdns_UDP : UInt32 := 1
def mdns_Browsable : UInt32 := 2

/-! ## Records -/

/-- `mdns_rsrc`. The key and the data stand behind each other in `rData`. -/
structure Rsrc where
  rType : UInt16
  rTTL : UInt32
  key : CString
  data : List UInt8

/-- The list at `gDictP`. -/
abbrev Dict := List Rsrc

/-- `mdns_add_response`, with memory left. -/
def addResponse (dict : Dict) (vKey : CString) (vType : UInt16) (ttl : UInt32)
    (data : List UInt8) : Dict :=
  { rType := vType, rTTL := ttl, key := vKey, data } :: dict

/-- `mdns_add_PTR`. -/
def addPTR (dict : Dict) (rKey : CString) (ttl : UInt32) (nmStr : CString) : Dict :=
  let nl := (str2labels nmStr.1 kMaxNameSize).result
  let lBuff := (str2labels nmStr.1 kMaxNameSize).stored
  if nl > 0 then addResponse dict rKey DNS_RRTYPE_PTR ttl (lBuff.take nl) else dict

/-- The two bytes of `htons`. -/
def htons (n : UInt16) : List UInt8 := [UInt8.ofNat (n.toNat / 256), UInt8.ofNat n.toNat]

/-- `mdns_add_SRV`. Priority and weight are zero. -/
def addSRV (dict : Dict) (rKey : CString) (ttl : UInt32) (rPort : UInt16)
    (targName : CString) : Dict :=
  let nl := (str2labels targName.1 kMaxNameSize).result
  let lBuff := (str2labels targName.1 kMaxNameSize).stored
  if nl > 0 then
    addResponse dict rKey DNS_RRTYPE_SRV ttl ([0, 0] ++ [0, 0] ++ htons rPort ++ lBuff.take nl)
  else dict

/-- `mdns_add_TXT`. -/
def addTXT (dict : Dict) (rKey : CString) (ttl : UInt32) (txStr : CString) : Dict :=
  let n := txStr.1.length % 2 ^ 16
  if n > 255 then dict
  else addResponse dict rKey DNS_RRTYPE_TXT ttl (UInt8.ofNat n :: txStr.1.take n)

/-- `mdns_add_A`. -/
def addA (dict : Dict) (rKey : CString) (ttl : UInt32) (addr : Vector UInt8 4) : Dict :=
  addResponse dict rKey DNS_RRTYPE_A ttl addr.toList

/-- `mdns_add_AAAA`. -/
def addAAAA (dict : Dict) (rKey : CString) (ttl : UInt32) (addr : Vector UInt8 16) : Dict :=
  addResponse dict rKey DNS_RRTYPE_AAAA ttl addr.toList

/-! ## Services -/

/-- `key` of `mdns_add_facility`: the name of the service. -/
def serviceKey (serviceName : CString) (flags : UInt32) : CString :=
  serviceName.append
    (if flags &&& mdns_UDP ≠ 0 then ⟨ascii "._udp.local.", by decide⟩
      else ⟨ascii "._tcp.local.", by decide⟩)

/-- `fullName` of `mdns_add_facility`: the name of the instance of the service. -/
def fullName (instanceName serviceName : CString) (flags : UInt32) : CString :=
  (instanceName.append ⟨ascii ".", by decide⟩).append (serviceKey serviceName flags)

/-- `devName` of `mdns_add_facility`: the name of the device. -/
def devName (instanceName : CString) : CString :=
  instanceName.append ⟨ascii ".local.", by decide⟩

/-- The key under which browsable services are listed. -/
def servicesKey : CString := ⟨ascii "_services._dns-sd._udp.local.", by decide⟩

/-- `mdns_add_facility`. The addresses are filled in when a reply is made. Whether
there is an IPv6 address is chosen when the program is built. -/
def addFacility (lwipIpv6 : Bool) (dict : Dict) (instanceName serviceName : CString)
    (addText : Option CString) (flags : UInt32) (onPort : UInt16) (ttl : UInt32) : Dict :=
  let key := serviceKey serviceName flags
  let full := fullName instanceName serviceName flags
  let dev := devName instanceName
  let dict := match addText with
    | none => dict
    | some text => addTXT dict full ttl text
  let dict := if lwipIpv6 then addAAAA dict dev ttl (.replicate 16 0) else dict
  let dict := addA dict dev ttl (.replicate 4 0)
  let dict := addSRV dict full ttl onPort dev
  let dict := addPTR dict key ttl full
  if flags &&& mdns_Browsable ≠ 0 then addPTR dict servicesKey ttl key else dict

/-! ## Lookup -/

/-- `strcasecmp` gives zero. -/
def strcaseEq (s t : CString) : Bool := s.1.map tolower == t.1.map tolower

/-- `mdns_match`. -/
def mdnsMatch (dict : Dict) (qstr : CString) (qType : UInt16) : Option Rsrc :=
  dict.find? fun r => (r.rType == qType || qType == DNS_RRTYPE_ANY) && strcaseEq r.key qstr

/-! ## Runs -/

/-- A call of the responder's interface. -/
inductive Call where
  | addPTR (rKey : CString) (ttl : UInt32) (nmStr : CString)
  | addSRV (rKey : CString) (ttl : UInt32) (rPort : UInt16) (targName : CString)
  | addTXT (rKey : CString) (ttl : UInt32) (txStr : CString)
  | addA (rKey : CString) (ttl : UInt32) (addr : Vector UInt8 4)
  | addAAAA (rKey : CString) (ttl : UInt32) (addr : Vector UInt8 16)
  | addFacility (instanceName serviceName : CString) (addText : Option CString)
      (flags : UInt32) (onPort : UInt16) (ttl : UInt32)

def Call.apply (lwipIpv6 : Bool) (dict : Dict) : Call → Dict
  | .addPTR rKey ttl nmStr => MdnsResponder.addPTR dict rKey ttl nmStr
  | .addSRV rKey ttl rPort targName => MdnsResponder.addSRV dict rKey ttl rPort targName
  | .addTXT rKey ttl txStr => MdnsResponder.addTXT dict rKey ttl txStr
  | .addA rKey ttl addr => MdnsResponder.addA dict rKey ttl addr
  | .addAAAA rKey ttl addr => MdnsResponder.addAAAA dict rKey ttl addr
  | .addFacility instanceName serviceName addText flags onPort ttl =>
    MdnsResponder.addFacility lwipIpv6 dict instanceName serviceName addText flags onPort ttl

/-- The records after a sequence of calls. -/
def recordsAfter (lwipIpv6 : Bool) (calls : List Call) : Dict := run (Call.apply lwipIpv6) [] calls

/-! ## Records that calls make -/

/-- The data is the label sequence of a name and fits the buffer. -/
def Wired (data : List UInt8) : Prop :=
  ∃ labels, ValidName labels ∧ data = encodeName labels ∧ data.length ≤ kMaxNameSize

/-- The records that the functions of the interface make. -/
inductive Made : Rsrc → Prop
  | ptr {key : CString} {ttl : UInt32} {data : List UInt8} : Wired data →
      Made ⟨DNS_RRTYPE_PTR, ttl, key, data⟩
  | srv {key : CString} {ttl : UInt32} {port : UInt16} {data : List UInt8} : Wired data →
      Made ⟨DNS_RRTYPE_SRV, ttl, key, [0, 0] ++ [0, 0] ++ htons port ++ data⟩
  | txt {key : CString} {ttl : UInt32} {n : ℕ} {text : List UInt8} : n ≤ 255 →
      Made ⟨DNS_RRTYPE_TXT, ttl, key, UInt8.ofNat n :: text.take n⟩
  | a {key : CString} {ttl : UInt32} {addr : Vector UInt8 4} :
      Made ⟨DNS_RRTYPE_A, ttl, key, addr.toList⟩
  | aaaa {key : CString} {ttl : UInt32} {addr : Vector UInt8 16} :
      Made ⟨DNS_RRTYPE_AAAA, ttl, key, addr.toList⟩

/-- All records of the list are such. -/
def AllMade (dict : Dict) : Prop := ∀ r ∈ dict, Made r

/-- What is packed is the label sequence of a name. -/
theorem wired_str2labels {name : List UInt8} (h : (str2labels name kMaxNameSize).result > 0) :
    Wired ((str2labels name kMaxNameSize).stored.take (str2labels name kMaxNameSize).result) := by
  obtain ⟨labels, hvalid, hpacked, hle⟩ :=
    exists_name_of_str2labelsFrom (show kMaxNameSize ≤ 64 from le_rfl) (Nat.ne_of_gt h)
  rw [Nat.zero_add] at hpacked hle
  rw [str2labels, hpacked, List.take_length]
  exact ⟨labels, hvalid, rfl, hle⟩

section Made

variable {dict : Dict} {lwipIpv6 : Bool} (made : AllMade dict)
include made

theorem AllMade.addResponse {vKey : CString} {vType : UInt16} {ttl : UInt32} {data : List UInt8}
    (new : Made ⟨vType, ttl, vKey, data⟩) : AllMade (addResponse dict vKey vType ttl data) :=
  List.forall_mem_cons.mpr ⟨new, made⟩

section

variable (rKey : CString) (ttl : UInt32)
include rKey ttl

theorem AllMade.addPTR (nmStr : CString) : AllMade (addPTR dict rKey ttl nmStr) := by
  unfold MdnsResponder.addPTR
  dsimp only
  split
  · next hpos => exact made.addResponse (.ptr (wired_str2labels hpos))
  · exact made

theorem AllMade.addSRV (rPort : UInt16) (targName : CString) :
    AllMade (addSRV dict rKey ttl rPort targName) := by
  unfold MdnsResponder.addSRV
  dsimp only
  split
  · next hpos => exact made.addResponse (.srv (wired_str2labels hpos))
  · exact made

theorem AllMade.addTXT (txStr : CString) : AllMade (addTXT dict rKey ttl txStr) := by
  unfold MdnsResponder.addTXT
  dsimp only
  split
  · exact made
  · next hsmall => exact made.addResponse (.txt (Nat.le_of_not_lt hsmall))

theorem AllMade.addA (addr : Vector UInt8 4) :
    AllMade (addA dict rKey ttl addr) := made.addResponse .a

theorem AllMade.addAAAA (addr : Vector UInt8 16) :
    AllMade (addAAAA dict rKey ttl addr) := made.addResponse .aaaa

end

theorem AllMade.addFacility (instanceName serviceName : CString) (addText : Option CString)
    (flags : UInt32) (onPort : UInt16) (ttl : UInt32) :
    AllMade (addFacility lwipIpv6 dict instanceName serviceName addText flags onPort ttl) := by
  unfold MdnsResponder.addFacility
  -- what the optional records leave is made as well
  have htext : AllMade (match addText with
      | none => dict
      | some text =>
        MdnsResponder.addTXT dict (fullName instanceName serviceName flags) ttl text) := by
    cases addText with
    | none => exact made
    | some text => exact made.addTXT _ _ _
  have haddr (d : Dict) (hd : AllMade d) : AllMade (if lwipIpv6 then
      MdnsResponder.addAAAA d (devName instanceName) ttl (.replicate 16 0) else d) := by
    split
    · exact hd.addAAAA _ _ _
    · exact hd
  have hptr := (((haddr _ htext).addA (devName instanceName) ttl (.replicate 4 0)).addSRV
    (fullName instanceName serviceName flags) ttl onPort (devName instanceName)).addPTR
    (serviceKey serviceName flags) ttl (fullName instanceName serviceName flags)
  dsimp only
  split
  · exact hptr.addPTR _ _ _
  · exact hptr

theorem AllMade.apply (call : Call) : AllMade (call.apply lwipIpv6 dict) := by
  cases call with
  | addPTR rKey ttl nmStr => exact made.addPTR _ _ _
  | addSRV rKey ttl rPort targName => exact made.addSRV _ _ _ _
  | addTXT rKey ttl txStr => exact made.addTXT _ _ _
  | addA rKey ttl addr => exact made.addA _ _ _
  | addAAAA rKey ttl addr => exact made.addAAAA _ _ _
  | addFacility instanceName serviceName addText flags onPort ttl =>
    exact made.addFacility _ _ _ _ _ _

end Made

theorem allMade_recordsAfter (lwipIpv6 : Bool) (calls : List Call) :
    AllMade (recordsAfter lwipIpv6 calls) :=
  run_invariant (fun _ call made _ => made.apply call) (fun r hr => by simp at hr)
    (along_true _ _)

/-- Every pointer holds the label sequence of a name. -/
theorem AllMade.wired {dict : Dict} (made : AllMade dict) {r : Rsrc} (hr : r ∈ dict)
    (hptr : r.rType = DNS_RRTYPE_PTR) : Wired r.data := by
  cases made r hr with
  | ptr hwired => exact hwired
  | srv _ => exact absurd hptr (show DNS_RRTYPE_SRV ≠ DNS_RRTYPE_PTR by decide)
  | txt _ => exact absurd hptr (show DNS_RRTYPE_TXT ≠ DNS_RRTYPE_PTR by decide)
  | a => exact absurd hptr (show DNS_RRTYPE_A ≠ DNS_RRTYPE_PTR by decide)
  | aaaa => exact absurd hptr (show DNS_RRTYPE_AAAA ≠ DNS_RRTYPE_PTR by decide)

end EspOpenRtos.MdnsResponder
