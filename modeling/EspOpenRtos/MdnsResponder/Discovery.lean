/-
# Discovery

A client that looks for a service follows a pointer from the name of the service
to that of the instance, a service record from there to the port and the name of
the device, and an address record from there. The records lead it there exactly if
the name of the instance fits the buffer in which the pointer is built: a longer
name is dropped, and no pointer to it is ever found.
-/

import EspOpenRtos.MdnsResponder.Encoder
import EspOpenRtos.MdnsResponder.Records

namespace EspOpenRtos.MdnsResponder

open Math.CStrings
open Math.DnsMessages (encodeName ValidName)

/-- A client that knows the name of the service finds the instance. -/
structure Discoverable (dict : Dict) (instanceName serviceName text : CString)
    (flags : UInt32) (onPort : UInt16) : Prop where
  pointer : ∃ r, mdnsMatch dict (serviceKey serviceName flags) DNS_RRTYPE_PTR = some r ∧
    Decodes r.data (fullName instanceName serviceName flags).1
  service : ∃ r,
    mdnsMatch dict (fullName instanceName serviceName flags) DNS_RRTYPE_SRV = some r ∧
      (r.data.drop 4).take 2 = htons onPort ∧ Decodes (r.data.drop 6) (devName instanceName).1
  address : ∃ r, mdnsMatch dict (devName instanceName) DNS_RRTYPE_A = some r
  description : ∃ r,
    mdnsMatch dict (fullName instanceName serviceName flags) DNS_RRTYPE_TXT = some r ∧
      r.data = UInt8.ofNat text.1.length :: text.1

/-- A name that DNS allows as one label. -/
structure LabelName (name : CString) (longest : ℕ) : Prop where
  pos : 1 ≤ name.1.length
  le : name.1.length ≤ longest
  dotFree : dot ∉ name.1

/-! ## The names of a service -/

section Names

variable {instanceName serviceName : CString} {flags : UInt32}

/-- The label for the protocol. -/
def protoLabel (flags : UInt32) : List UInt8 :=
  if flags &&& mdns_UDP ≠ 0 then ascii "_udp" else ascii "_tcp"

/-- The labels make a name in either form. -/
def Nameable (labels : List (List UInt8)) : Prop := ValidName labels ∧ Separable labels

theorem LabelName.mono {name : CString} {n m : ℕ} (h : LabelName name n) (hle : n ≤ m) :
    LabelName name m := ⟨h.pos, h.le.trans hle, h.dotFree⟩

theorem LabelName.nameable {name : CString} {labels : List (List UInt8)} (h : LabelName name 63)
    (hlabels : Nameable labels) : Nameable (name.1 :: labels) :=
  ⟨List.forall_mem_cons.mpr ⟨⟨h.pos, Nat.lt_succ_of_le h.le⟩, hlabels.1⟩,
    List.forall_mem_cons.mpr ⟨⟨List.length_pos_iff.mp h.pos, h.dotFree⟩, hlabels.2⟩⟩

theorem nameable_local : Nameable [ascii "local"] := ⟨by decide, by decide⟩

theorem nameable_proto (flags : UInt32) : Nameable [protoLabel flags, ascii "local"] := by
  rw [protoLabel]
  split
  · exact ⟨by decide, by decide⟩
  · exact ⟨by decide, by decide⟩

theorem devName_eq : (devName instanceName).1 = dottedName [instanceName.1, ascii "local"] := by
  simp [devName, CString.append, ascii, dottedName, dot]

theorem serviceKey_eq : (serviceKey serviceName flags).1 =
    dottedName [serviceName.1, protoLabel flags, ascii "local"] := by
  unfold serviceKey protoLabel
  split <;> simp [CString.append, ascii, dottedName, dot]

theorem fullName_eq : (fullName instanceName serviceName flags).1 =
    dottedName [instanceName.1, serviceName.1, protoLabel flags, ascii "local"] := by
  rw [dottedName, ← serviceKey_eq]
  simp [fullName, CString.append, ascii, dot]

theorem length_serviceKey :
    (serviceKey serviceName flags).1.length = serviceName.1.length + 12 := by
  unfold serviceKey
  split <;> simp [CString.append, ascii]

theorem length_fullName :
    (fullName instanceName serviceName flags).1.length =
      instanceName.1.length + serviceName.1.length + 13 := by
  simp [fullName, CString.append, length_serviceKey, ascii]
  omega

theorem length_devName : (devName instanceName).1.length = instanceName.1.length + 7 := by
  simp [devName, CString.append, ascii]

end Names

/-! ## Lookup -/

section Match

variable {dict : Dict} {vKey key : CString} {vType qType : UInt16} {ttl : UInt32}
  {data : List UInt8}

theorem mdnsMatch_new :
    mdnsMatch (addResponse dict key vType ttl data) key vType = some ⟨vType, ttl, key, data⟩ := by
  simp [mdnsMatch, addResponse, strcaseEq]

theorem mdnsMatch_otherType (htype : vType ≠ qType) (hany : qType ≠ DNS_RRTYPE_ANY) :
    mdnsMatch (addResponse dict vKey vType ttl data) key qType = mdnsMatch dict key qType := by
  simp [mdnsMatch, addResponse, htype, hany]

theorem mdnsMatch_otherLength (hlen : vKey.1.length ≠ key.1.length) :
    mdnsMatch (addResponse dict vKey vType ttl data) key qType = mdnsMatch dict key qType := by
  have hne : strcaseEq vKey key = false := by
    simp only [strcaseEq, beq_eq_false_iff_ne, ne_eq]
    intro h
    exact hlen (by simpa using congrArg List.length h)
  simp [mdnsMatch, addResponse, hne]

end Match

/-! ## The records of a service -/

section Facility

variable {dict : Dict} {instanceName serviceName text : CString} {lwipIpv6 : Bool}

variable {key name : CString} {labels : List (List UInt8)} {ttl : UInt32} {port : UInt16}

/-- A name that fits the buffer is packed. -/
theorem str2labels_fits (hlabels : Nameable labels) (hname : name.1 = dottedName labels)
    (hfits : name.1.length + 1 ≤ kMaxNameSize) :
    str2labels name.1 kMaxNameSize = ⟨encodeName labels, (encodeName labels).length⟩ := by
  rw [hname, ← length_encodeName] at hfits
  exact (str2labels_name kMaxNameSize hlabels.2 (.inl hname)).1 hfits

theorem encodeName_pos (labels : List (List UInt8)) : (encodeName labels).length > 0 :=
  (Nat.zero_le _).trans_lt (length_lt_length_encodeName labels)

theorem addPTR_eq (hlabels : Nameable labels) (hname : name.1 = dottedName labels)
    (hfits : name.1.length + 1 ≤ kMaxNameSize) :
    addPTR dict key ttl name = addResponse dict key DNS_RRTYPE_PTR ttl (encodeName labels) := by
  rw [addPTR, str2labels_fits hlabels hname hfits]
  dsimp only
  rw [if_pos (encodeName_pos labels), List.take_length]

theorem addSRV_eq (hlabels : Nameable labels) (hname : name.1 = dottedName labels)
    (hfits : name.1.length + 1 ≤ kMaxNameSize) :
    addSRV dict key ttl port name = addResponse dict key DNS_RRTYPE_SRV ttl
      ([0, 0] ++ [0, 0] ++ htons port ++ encodeName labels) := by
  rw [addSRV, str2labels_fits hlabels hname hfits]
  dsimp only
  rw [if_pos (encodeName_pos labels), List.take_length]

theorem addTXT_eq (htext : text.1.length ≤ 255) :
    addTXT dict key ttl text = addResponse dict key DNS_RRTYPE_TXT ttl
      (UInt8.ofNat text.1.length :: text.1) := by
  have hmod : text.1.length % 2 ^ 16 = text.1.length := Nat.mod_eq_of_lt (by omega)
  rw [addTXT, hmod]
  rw [if_neg (by omega), List.take_length]

/-- The pointers to a browsable service are found behind the listing of services,
whose key has another length. -/
theorem mdnsMatch_listed (hsvc : LabelName serviceName 16) (flags : UInt32) (qType : UInt16)
    (hany : qType ≠ DNS_RRTYPE_ANY)
    (hkey : qType ≠ DNS_RRTYPE_PTR ∨ key = serviceKey serviceName flags) :
    mdnsMatch (if flags &&& mdns_Browsable ≠ 0
        then addPTR dict servicesKey ttl (serviceKey serviceName flags) else dict) key qType =
      mdnsMatch dict key qType := by
  have hlen : (serviceKey serviceName flags).1.length = _ := length_serviceKey
  have hle := hsvc.le
  split
  · rw [addPTR_eq ((hsvc.mono (by decide)).nameable (nameable_proto flags)) serviceKey_eq
      (by rw [kMaxNameSize]; omega)]
    rcases hkey with hother | hkey
    · exact mdnsMatch_otherType hother.symm hany
    · apply mdnsMatch_otherLength
      rw [hkey, hlen, show servicesKey.1.length = 29 by decide]
      omega
  · rfl

/-- With names short enough the new records come first, each under its key. -/
theorem addFacility_discoverable (hinst : LabelName instanceName 63)
    (hsvc : LabelName serviceName 16) (htext : text.1.length ≤ 255) (flags : UInt32)
    (onPort : UInt16) (ttl : UInt32)
    (hfits : instanceName.1.length + serviceName.1.length ≤ 50) :
    Discoverable
      (addFacility lwipIpv6 dict instanceName serviceName (some text) flags onPort ttl)
      instanceName serviceName text flags onPort := by
  have hfull : Nameable [instanceName.1, serviceName.1, protoLabel flags, ascii "local"] :=
    hinst.nameable ((hsvc.mono (by decide)).nameable (nameable_proto flags))
  have hdev : Nameable [instanceName.1, ascii "local"] := hinst.nameable nameable_local
  have hlenFull : (fullName instanceName serviceName flags).1.length = _ := length_fullName
  have hlenDev : (devName instanceName).1.length = _ := length_devName
  have hposSvc := hsvc.pos
  unfold addFacility
  dsimp only
  rw [addPTR_eq hfull fullName_eq (by rw [kMaxNameSize]; omega),
    addSRV_eq hdev devName_eq (by rw [kMaxNameSize]; omega), addTXT_eq htext]
  -- each record is found behind those that were added after it
  constructor
  · rw [mdnsMatch_listed hsvc _ _ (by decide) (.inr rfl), mdnsMatch_new]
    exact ⟨_, rfl, fullName_eq ▸ decodes_encodeName hfull.1⟩
  · rw [mdnsMatch_listed hsvc _ _ (by decide) (.inl (by decide)),
      mdnsMatch_otherType (by decide) (by decide), mdnsMatch_new]
    exact ⟨_, rfl, rfl, devName_eq ▸ decodes_encodeName hdev.1⟩
  · rw [mdnsMatch_listed hsvc _ _ (by decide) (.inl (by decide)),
      mdnsMatch_otherType (by decide) (by decide), mdnsMatch_otherType (by decide) (by decide),
      addA, mdnsMatch_new]
    exact ⟨_, rfl⟩
  · rw [mdnsMatch_listed hsvc _ _ (by decide) (.inl (by decide)),
      mdnsMatch_otherType (by decide) (by decide), mdnsMatch_otherType (by decide) (by decide),
      addA, mdnsMatch_otherType (by decide) (by decide)]
    split
    · rw [addAAAA, mdnsMatch_otherType (by decide) (by decide), mdnsMatch_new]
      exact ⟨_, rfl, rfl⟩
    · rw [mdnsMatch_new]
      exact ⟨_, rfl, rfl⟩

/-- A pointer that is found decodes to a name that fits the buffer. -/
theorem AllMade.length_le (made : AllMade dict) {key name : CString} {r : Rsrc}
    (hmatch : mdnsMatch dict key DNS_RRTYPE_PTR = some r) (hname : Decodes r.data name.1) :
    name.1.length + 1 ≤ kMaxNameSize := by
  have htype : r.rType = DNS_RRTYPE_PTR := by
    have h := List.find?_some hmatch
    simp [show DNS_RRTYPE_PTR ≠ DNS_RRTYPE_ANY by decide] at h
    exact h.1
  obtain ⟨labels, hvalid, hdata, hle⟩ := made.wired (List.mem_of_find?_eq_some hmatch) htype
  rw [hdata] at hname hle
  rwa [hname.unique (decodes_encodeName hvalid), ← length_encodeName]

/-- A service that is found has a full name that fits the buffer. -/
theorem Discoverable.length_le {flags : UInt32} {onPort : UInt16} (made : AllMade dict)
    (found : Discoverable dict instanceName serviceName text flags onPort) :
    instanceName.1.length + serviceName.1.length ≤ 50 := by
  obtain ⟨r, hmatch, hname⟩ := found.pointer
  have hle := made.length_le hmatch hname
  rw [length_fullName, kMaxNameSize] at hle
  omega

end Facility

/-- After any calls, a service that is advertised is found exactly if its names are
short enough for the pointer to be built. -/
theorem discoverable_iff (lwipIpv6 : Bool) (calls : List Call)
    (instanceName serviceName text : CString) (flags : UInt32) (onPort : UInt16) (ttl : UInt32)
    (hinst : LabelName instanceName 63) (hsvc : LabelName serviceName 16)
    (htext : text.1.length ≤ 255) :
    Discoverable
        (addFacility lwipIpv6 (recordsAfter lwipIpv6 calls) instanceName serviceName (some text)
          flags onPort ttl)
        instanceName serviceName text flags onPort ↔
      instanceName.1.length + serviceName.1.length ≤ 50 := by
  constructor
  · exact Discoverable.length_le ((allMade_recordsAfter lwipIpv6 calls).addFacility _ _ _ _ _ _)
  · exact addFacility_discoverable hinst hsvc htext flags onPort ttl

theorem discoverable_hap :
    Discoverable
        (addFacility false (recordsAfter false []) ⟨ascii "lamp", by decide⟩
          ⟨ascii "_hap", by decide⟩ (some ⟨ascii "md=lamp", by decide⟩) 0 5556 120)
        ⟨ascii "lamp", by decide⟩ ⟨ascii "_hap", by decide⟩ ⟨ascii "md=lamp", by decide⟩ 0 5556 ↔
      (ascii "lamp").length + (ascii "_hap").length ≤ 50 :=
  discoverable_iff false [] ⟨ascii "lamp", by decide⟩ ⟨ascii "_hap", by decide⟩
    ⟨ascii "md=lamp", by decide⟩ 0 5556 120 ⟨by decide, by decide, by decide⟩
    ⟨by decide, by decide, by decide⟩ (by decide)

/-- A name of 35 bytes, well within what DNS allows. -/
def longInstance : CString := ⟨List.replicate 35 0x61, by decide⟩

/-- The longest name of a service. -/
def longService : CString := ⟨0x5F :: List.replicate 15 0x61, by decide⟩

/-- The pointer to a long name is dropped, and the service cannot be found. -/
theorem long_name_undiscoverable :
    LabelName longInstance 63 ∧ LabelName longService 16 ∧
      ¬ Discoverable
        (addFacility false (recordsAfter false []) longInstance longService
          (some ⟨[], by decide⟩) 0 80 120)
        longInstance longService ⟨[], by decide⟩ 0 80 := by
  refine ⟨⟨by decide, by decide, by decide⟩, ⟨by decide, by decide, by decide⟩, fun found => ?_⟩
  have hle := found.length_le ((allMade_recordsAfter false []).addFacility _ _ _ _ _ _)
  exact absurd hle (by decide)

end EspOpenRtos.MdnsResponder
