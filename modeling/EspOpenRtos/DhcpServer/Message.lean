/-
# DHCP messages

A received packet is copied into a `struct dhcp_msg` whose options field is
enlarged to 312 bytes, and the reply is built in the same buffer. Only the fields
that the server reads or writes are kept here; the others travel from the request
to the reply unchanged.

The options are a list of type, length and data, searched without any knowledge
of the types. The search gives up on an option that would reach the last byte of
the message. The values of lwIP's constants are those of its `prot/dhcp.h`.
-/

import Mathlib.Algebra.Group.Nat.Defs
import Mathlib.Data.Fintype.Basic
import Mathlib.Tactic.FinCases

namespace EspOpenRtos.DhcpServer

/-- `ip4_addr_t`: the four octets in network order. -/
structure Ip4Addr where
  addr1 : UInt8
  addr2 : UInt8
  addr3 : UInt8
  addr4 : UInt8
  deriving DecidableEq, Repr

namespace Ip4Addr

/-- `IP4_ADDR_ANY4`. -/
def any : Ip4Addr := ⟨0, 0, 0, 0⟩

def bytes (a : Ip4Addr) : List UInt8 := [a.addr1, a.addr2, a.addr3, a.addr4]

/-- `lwip_ntohl` of the stored word. -/
def ntohl (a : Ip4Addr) : ℕ :=
  a.addr1.toNat * 2 ^ 24 + a.addr2.toNat * 2 ^ 16 + a.addr3.toNat * 2 ^ 8 + a.addr4.toNat

/-- `lwip_htonl`. The argument is a sum that may exceed 32 bits; the octets of its
low word are kept. -/
def htonl (n : ℕ) : Ip4Addr :=
  ⟨.ofNat (n / 2 ^ 24), .ofNat (n / 2 ^ 16), .ofNat (n / 2 ^ 8), .ofNat n⟩

/-- Four bytes of a buffer, as `memcpy` into the `addr` field reads them. -/
def ofBytes (data : List UInt8) : Ip4Addr :=
  ⟨data.getD 0 0, data.getD 1 0, data.getD 2 0, data.getD 3 0⟩

theorem ext_toNat {a b : Ip4Addr} (h1 : a.addr1.toNat = b.addr1.toNat)
    (h2 : a.addr2.toNat = b.addr2.toNat) (h3 : a.addr3.toNat = b.addr3.toNat)
    (h4 : a.addr4.toNat = b.addr4.toNat) : a = b := by
  obtain ⟨a1, a2, a3, a4⟩ := a
  obtain ⟨b1, b2, b3, b4⟩ := b
  simp only [UInt8.toNat_inj] at h1 h2 h3 h4
  rw [h1, h2, h3, h4]

/-- Counting up within the last octet leaves the other three alone. -/
theorem htonl_ntohl_add {a : Ip4Addr} {n : ℕ} (hlast : a.addr4.toNat + n < 256) :
    htonl (a.ntohl + n) = ⟨a.addr1, a.addr2, a.addr3, .ofNat (a.addr4.toNat + n)⟩ := by
  have h1 := a.addr1.toNat_lt
  have h2 := a.addr2.toNat_lt
  have h3 := a.addr3.toNat_lt
  apply ext_toNat <;> simp only [htonl, ntohl, UInt8.toNat_ofNat'] <;> omega

/-- Counting past the last octet changes the third one. -/
theorem htonl_ntohl_add_carry {a : Ip4Addr} {n : ℕ} (hn : n < 256)
    (hlast : 256 ≤ a.addr4.toNat + n) : (htonl (a.ntohl + n)).addr3 ≠ a.addr3 := by
  have h3 := a.addr3.toNat_lt
  have h4 := a.addr4.toNat_lt
  intro heq
  have hval := congrArg UInt8.toNat heq
  simp only [htonl, ntohl, UInt8.toNat_ofNat'] at hval
  omega

/-- Different offsets below the word size give different addresses. -/
theorem htonl_add_inj {base m n : ℕ} (hm : m < 2 ^ 32) (hn : n < 2 ^ 32)
    (heq : htonl (base + m) = htonl (base + n)) : m = n := by
  simp only [htonl, Ip4Addr.mk.injEq] at heq
  obtain ⟨h1, h2, h3, h4⟩ := heq
  have h1 := congrArg UInt8.toNat h1
  have h2 := congrArg UInt8.toNat h2
  have h3 := congrArg UInt8.toNat h3
  have h4 := congrArg UInt8.toNat h4
  simp only [UInt8.toNat_ofNat'] at h1 h2 h3 h4
  omega

end Ip4Addr

/-! ## Options -/

def dhcpOptionsLen : ℕ := 312

def optionSubnetMask : UInt8 := 1
def optionRouter : UInt8 := 3
def optionDnsServer : UInt8 := 6
def optionRequestedIp : UInt8 := 50
def optionLeaseTime : UInt8 := 51
def optionMessageType : UInt8 := 53
def optionServerId : UInt8 := 54
def optionEnd : UInt8 := 255

def optionMessageTypeLen : UInt8 := 1

/-- `find_dhcp_option`. The list runs from the current position to the end of the
message; what is found is the message from the option's data on. -/
def findDhcpOption (optionNum minLength : UInt8) : List UInt8 → Option (List UInt8)
  | type :: len :: p =>
    -- the loop condition asks for more than two bytes
    if p = [] then none
    else if type = optionEnd then none
    else if p.length ≤ len.toNat then none
    else if type = optionNum then
      if len < minLength then none else some p
    else findDhcpOption optionNum minLength (p.drop len.toNat)
  | _ => none
termination_by options => options.length
decreasing_by
  rw [List.length_drop, List.length_cons, List.length_cons]
  omega

/-- `add_dhcp_option_byte`. -/
def addDhcpOptionByte (opt : List UInt8) (type value : UInt8) : List UInt8 :=
  opt ++ [type, 1, value]

/-- `add_dhcp_option_bytes`: an empty value is written without a length. -/
def addDhcpOptionBytes (opt : List UInt8) (type : UInt8) (value : List UInt8) : List UInt8 :=
  opt ++ type :: (if value = [] then [] else .ofNat value.length :: value)

section Options

variable {optionNum minLength type len : UInt8} {data rest : List UInt8}

theorem findDhcpOption_hit (hnum : optionNum ≠ optionEnd) (hmin : minLength ≤ len)
    (hfits : len.toNat < rest.length) :
    findDhcpOption optionNum minLength (optionNum :: len :: rest) = some rest := by
  have hne : rest ≠ [] := fun hnil => by simp [hnil] at hfits
  rw [findDhcpOption, if_neg hne, if_neg hnum, if_neg (Nat.not_le.mpr hfits), if_pos rfl,
    if_neg (UInt8.not_lt.mpr hmin)]

theorem findDhcpOption_skip (hend : type ≠ optionEnd) (hother : type ≠ optionNum)
    (hlen : data.length = len.toNat) (hrest : rest ≠ []) :
    findDhcpOption optionNum minLength (type :: len :: (data ++ rest)) =
      findDhcpOption optionNum minLength rest := by
  have hne : data ++ rest ≠ [] := fun hnil => hrest (List.append_eq_nil_iff.mp hnil).2
  have hfits : ¬(data ++ rest).length ≤ len.toNat := by
    have := List.length_pos_iff.mpr hrest
    simp only [List.length_append]
    omega
  rw [findDhcpOption, if_neg hne, if_neg hend, if_neg hfits, if_neg hother, ← hlen,
    List.drop_left]

end Options

/-! ## Messages -/

/-- `DHCP_BOOTREPLY`. -/
def bootReply : UInt8 := 2

/-- `LWIP_IANA_HWTYPE_ETHERNET`. -/
def hwtypeEthernet : UInt8 := 1

/-- `NETIF_MAX_HWADDR_LEN`. -/
def netifMaxHwaddrLen : ℕ := 6

def typeDiscover : UInt8 := 1
def typeOffer : UInt8 := 2
def typeRequest : UInt8 := 3
def typeAck : UInt8 := 5
def typeNak : UInt8 := 6
def typeRelease : UInt8 := 7

/-- A hardware address as a lease stores it. -/
abbrev Hwaddr := Fin netifMaxHwaddrLen → UInt8

/-- `struct dhcp_msg`. -/
structure DhcpMsg where
  op : UInt8
  htype : UInt8
  hlen : UInt8
  ciaddr : Ip4Addr
  yiaddr : Ip4Addr
  chaddr : Fin 16 → UInt8
  options : List UInt8
  options_length : options.length = dhcpOptionsLen

namespace DhcpMsg

/-- `offsetof(struct dhcp_msg, options)`. -/
def optionsOffset : ℕ := 240

/-- An options field that starts with the given bytes and is zero behind them. -/
def fillOptions (opt : List UInt8) : List UInt8 :=
  (opt ++ List.replicate dhcpOptionsLen 0).take dhcpOptionsLen

theorem length_fillOptions (opt : List UInt8) : (fillOptions opt).length = dhcpOptionsLen := by
  simp [fillOptions]

/-- `netbuf_copy` into a zeroed message: a short packet leaves zeros behind, of a
long one the surplus is dropped. -/
def ofPacket (packet : List UInt8) : DhcpMsg where
  op := packet.getD 0 0
  htype := packet.getD 1 0
  hlen := packet.getD 2 0
  ciaddr := .ofBytes (packet.drop 12)
  yiaddr := .ofBytes (packet.drop 16)
  chaddr i := packet.getD (28 + i) 0
  options := fillOptions (packet.drop optionsOffset)
  options_length := length_fillOptions _

/-- The first six bytes of `chaddr`, the hardware address of an Ethernet client. -/
def hwaddr (msg : DhcpMsg) : Hwaddr := fun i => msg.chaddr (i.castLE (by decide))

/-- The value of the message type option, as the server and its clients read it. -/
def messageType (msg : DhcpMsg) : Option UInt8 :=
  (findDhcpOption optionMessageType optionMessageTypeLen msg.options).map (·.getD 0 0)

/-- Turn a message into a reply: the options written so far go to a cleared
options field. -/
def reply (msg : DhcpMsg) (yiaddr : Ip4Addr) (opt : List UInt8) : DhcpMsg :=
  { msg with
    op := bootReply
    yiaddr := yiaddr
    options := fillOptions opt
    options_length := length_fillOptions opt }

@[simp] theorem reply_yiaddr (msg : DhcpMsg) (yiaddr : Ip4Addr) (opt : List UInt8) :
    (msg.reply yiaddr opt).yiaddr = yiaddr := rfl

/-- Whatever options follow it, a message type written first is the one that is
read. -/
theorem find_messageType_fillOptions (type : UInt8) (opt : List UInt8) :
    findDhcpOption optionMessageType optionMessageTypeLen
        (fillOptions (addDhcpOptionByte [] optionMessageType type ++ opt)) =
      some (type :: (opt ++ List.replicate dhcpOptionsLen 0).take (dhcpOptionsLen - 3)) := by
  have hoptions : fillOptions (addDhcpOptionByte [] optionMessageType type ++ opt) =
      optionMessageType :: 1 :: type ::
        (opt ++ List.replicate dhcpOptionsLen 0).take (dhcpOptionsLen - 3) := rfl
  have hsize : dhcpOptionsLen = 312 := rfl
  have hone : (1 : UInt8).toNat = 1 := rfl
  rw [hoptions, findDhcpOption_hit (by decide) (by decide)]
  simp only [List.length_cons, List.length_take, List.length_append, List.length_replicate]
  omega

theorem messageType_reply (msg : DhcpMsg) (yiaddr : Ip4Addr) (type : UInt8)
    (opt : List UInt8) :
    (msg.reply yiaddr (addDhcpOptionByte [] optionMessageType type ++ opt)).messageType =
      some type := by
  rw [messageType, reply, find_messageType_fillOptions]
  rfl

end DhcpMsg

/-! ## Packets as clients send them -/

/-- A BOOTREQUEST of an Ethernet client that claims an address length of `hlen`, with
its message type as the first option. -/
def clientPacket (hlen : UInt8) (hwaddr : Hwaddr) (type : UInt8) (opt : List UInt8) :
    List UInt8 :=
  [1, hwtypeEthernet, hlen] ++ List.replicate 25 0 ++ List.ofFn hwaddr ++
    List.replicate 206 0 ++ (addDhcpOptionByte [] optionMessageType type ++ opt)

/-- The option by which a client asks for an address. -/
def requestOption (ip : Ip4Addr) : List UInt8 :=
  addDhcpOptionBytes (addDhcpOptionBytes [] optionRequestedIp ip.bytes) optionEnd []

section Clients

variable (hlen : UInt8) (hwaddr : Hwaddr) (type : UInt8) (opt : List UInt8)

@[simp] theorem hwaddr_clientPacket :
    (DhcpMsg.ofPacket (clientPacket hlen hwaddr type opt)).hwaddr = hwaddr := by
  funext i
  fin_cases i <;> rfl

theorem optionsOffset_le_clientPacket :
    DhcpMsg.optionsOffset ≤ (clientPacket hlen hwaddr type opt).length := by
  have hoffset : DhcpMsg.optionsOffset = 240 := rfl
  have hsix : netifMaxHwaddrLen = 6 := rfl
  simp only [clientPacket, List.length_append, List.length_replicate, List.length_ofFn,
    List.length_cons, List.length_nil]
  omega

theorem options_clientPacket : (DhcpMsg.ofPacket (clientPacket hlen hwaddr type opt)).options =
    DhcpMsg.fillOptions (addDhcpOptionByte [] optionMessageType type ++ opt) := by
  refine congrArg DhcpMsg.fillOptions (List.drop_left' ?_)
  simp only [List.length_append, List.length_replicate, List.length_ofFn, List.length_cons,
    List.length_nil]
  rfl

@[simp] theorem messageType_clientPacket :
    (DhcpMsg.ofPacket (clientPacket hlen hwaddr type opt)).messageType = some type := by
  rw [DhcpMsg.messageType, options_clientPacket, DhcpMsg.find_messageType_fillOptions]
  rfl

theorem find_requestedIp_clientPacket (ip : Ip4Addr) :
    ∃ rest, findDhcpOption optionRequestedIp 4
      (DhcpMsg.ofPacket (clientPacket hlen hwaddr type (requestOption ip))).options =
        some (ip.bytes ++ rest) := by
  have hoptions : DhcpMsg.fillOptions
      (addDhcpOptionByte [] optionMessageType type ++ requestOption ip) =
      optionMessageType :: 1 :: ([type] ++ optionRequestedIp :: 4 ::
        (ip.bytes ++ optionEnd ::
          (List.replicate dhcpOptionsLen 0).take (dhcpOptionsLen - 10))) := rfl
  rw [options_clientPacket, hoptions,
    findDhcpOption_skip (by decide) (by decide) rfl (List.cons_ne_nil _ _),
    findDhcpOption_hit (by decide) (UInt8.le_refl 4)]
  · exact ⟨_, rfl⟩
  have hfour : (4 : UInt8).toNat = ip.bytes.length := rfl
  simp only [List.length_append, List.length_cons]
  omega

end Clients

end EspOpenRtos.DhcpServer
