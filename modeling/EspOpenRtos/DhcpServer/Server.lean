/-
# The DHCP server task

The task keeps one lease for each address it may hand out, in a table indexed by
the distance from the first address. It handles one packet at a time: leases that
have run out are freed first, then the message is answered from the table.

The tick counter is read twice for a packet, once before the leases are checked
and once when a lease is granted. It is a 32-bit counter, and whether a lease has
run out is decided from a wrapped difference.
-/

import EspOpenRtos.DhcpServer.Message

namespace EspOpenRtos.DhcpServer

/-- `DHCPSERVER_LEASE_TIME`, in seconds. -/
def leaseTime : ℕ := 3600

/-- `configTICK_RATE_HZ`. -/
def tickRateHz : ℕ := 100

/-- The duration of a lease in ticks. -/
def leaseTicks : ℕ := leaseTime * tickRateHz

/-- `dhcp_lease_t`. -/
structure Lease where
  hwaddr : Hwaddr
  active : Bool
  expires : UInt32

/-- A lease as `calloc` leaves it. -/
def Lease.unused : Lease := ⟨fun _ => 0, false, 0⟩

/-- `memcmp` of a lease's address with `chaddr` over `n` bytes finds no difference. -/
def Lease.matches (lease : Lease) (msg : DhcpMsg) (n : ℕ) : Bool :=
  decide (∀ i : Fin netifMaxHwaddrLen, i < n → lease.hwaddr i = msg.hwaddr i)

/-- `memcpy` of `n` bytes of `chaddr` over a lease's address. -/
def Lease.copyHwaddr (lease : Lease) (msg : DhcpMsg) (n : ℕ) : Hwaddr :=
  fun i => if i < n then msg.hwaddr i else lease.hwaddr i

/-- The interface the server answers on. -/
structure Netif where
  ipAddr : Ip4Addr
  netmask : Ip4Addr

/-- `server_state_t`. The table has `max_leases` entries. -/
structure ServerState where
  maxLeases : UInt8
  firstClientAddr : Ip4Addr
  serverIf : Netif
  router : Ip4Addr
  dns : Ip4Addr
  leases : Fin maxLeases.toNat → Lease

/-- `dhcpserver_start`. The interface is the one the task finds when it starts. -/
def dhcpserverStart (serverIf : Netif) (firstClientAddr : Ip4Addr) (maxLeases : UInt8) :
    ServerState :=
  ⟨maxLeases, firstClientAddr, serverIf, .any, .any, fun _ => .unused⟩

def dhcpserverSetRouter (s : ServerState) (router : Ip4Addr) : ServerState :=
  { s with router := router }

def dhcpserverSetDns (s : ServerState) (dns : Ip4Addr) : ServerState :=
  { s with dns := dns }

namespace ServerState

variable (s : ServerState)

/-- An entry of the table. -/
abbrev Slot (s : ServerState) := Fin s.maxLeases.toNat

/-- The address that an offer of this slot names. -/
def slotAddr (i : s.Slot) : Ip4Addr := .htonl (s.firstClientAddr.ntohl + i)

def setLease (i : s.Slot) (lease : Lease) : ServerState :=
  { s with leases := Function.update s.leases i lease }

/-- Free a lease whose expiry is not ahead of the present. -/
def expireLease (now : UInt32) (lease : Lease) : Lease :=
  if lease.active ∧ lease.expires - now ≥ 0x80000000 then { lease with active := false }
  else lease

/-- The loop over the table at the start of each round of the task. -/
def expireLeases (now : UInt32) : ServerState :=
  { s with leases := fun i => expireLease now (s.leases i) }

/-- The loop of `find_lease_slot` over the rest of the table. The first inactive
entry is remembered without a look at its address. -/
def findLeaseSlotFrom (hwaddr : Hwaddr) (emptyLease : Option s.Slot) :
    List s.Slot → Option s.Slot
  | [] => emptyLease
  | i :: rest =>
    if !(s.leases i).active && emptyLease.isNone then
      findLeaseSlotFrom hwaddr (some i) rest
    else if hwaddr = (s.leases i).hwaddr then some i
    else findLeaseSlotFrom hwaddr emptyLease rest

/-- `find_lease_slot`. -/
def findLeaseSlot (hwaddr : Hwaddr) : Option s.Slot :=
  s.findLeaseSlotFrom hwaddr none (List.finRange _)

/-- The optional router and DNS server options. -/
def addConfiguredOptions (opt : List UInt8) : List UInt8 :=
  let opt := if s.router = .any then opt else addDhcpOptionBytes opt optionRouter s.router.bytes
  if s.dns = .any then opt else addDhcpOptionBytes opt optionDnsServer s.dns.bytes

/-- `htonl(DHCPSERVER_LEASE_TIME)` as bytes. -/
def leaseTimeBytes : List UInt8 := (Ip4Addr.htonl leaseTime).bytes

def offerOptions : List UInt8 :=
  let opt := addDhcpOptionByte [] optionMessageType typeOffer
  let opt := addDhcpOptionBytes opt optionServerId s.serverIf.ipAddr.bytes
  let opt := addDhcpOptionBytes opt optionSubnetMask s.serverIf.netmask.bytes
  let opt := s.addConfiguredOptions opt
  let opt := addDhcpOptionBytes opt optionLeaseTime leaseTimeBytes
  addDhcpOptionBytes opt optionEnd []

def ackOptions : List UInt8 :=
  let opt := addDhcpOptionByte [] optionMessageType typeAck
  let opt := addDhcpOptionBytes opt optionLeaseTime leaseTimeBytes
  let opt := addDhcpOptionBytes opt optionServerId s.serverIf.ipAddr.bytes
  let opt := addDhcpOptionBytes opt optionSubnetMask s.serverIf.netmask.bytes
  let opt := s.addConfiguredOptions opt
  addDhcpOptionBytes opt optionEnd []

def nakOptions : List UInt8 :=
  let opt := addDhcpOptionByte [] optionMessageType typeNak
  let opt := addDhcpOptionBytes opt optionServerId s.serverIf.ipAddr.bytes
  addDhcpOptionBytes opt optionEnd []

/-- `handle_dhcp_discover`: the reply, if there is one. -/
def handleDhcpDiscover (msg : DhcpMsg) : Option DhcpMsg :=
  if msg.htype ≠ hwtypeEthernet then none
  else if msg.hlen.toNat > netifMaxHwaddrLen then none
  else match s.findLeaseSlot msg.hwaddr with
    | none => none
    | some i => some (msg.reply (s.slotAddr i) s.offerOptions)

/-- `send_dhcp_nak`. It leaves `yiaddr` as the client sent it. -/
def sendDhcpNak (msg : DhcpMsg) : DhcpMsg := msg.reply msg.yiaddr s.nakOptions

/-- The address a REQUEST asks for. Without option 50 the source looks at a
variable it has not written yet; `garbage` is what it finds there. -/
def requestedIp (msg : DhcpMsg) (garbage : Ip4Addr) : Option Ip4Addr :=
  match findDhcpOption optionRequestedIp 4 msg.options with
  | some data => some (.ofBytes data)
  | none => if garbage = .any then some msg.ciaddr else none

/-- The slot an address stands for: the first three octets are compared and the
difference of the last ones is the index. -/
def slotOfAddr (ip : Ip4Addr) : Option s.Slot :=
  let first := s.firstClientAddr
  if ip.addr1 ≠ first.addr1 ∨ ip.addr2 ≠ first.addr2 ∨ ip.addr3 ≠ first.addr3 then none
  else if h : first.addr4.toNat ≤ ip.addr4.toNat ∧
      ip.addr4.toNat - first.addr4.toNat < s.maxLeases.toNat then
    some ⟨ip.addr4.toNat - first.addr4.toNat, h.2⟩
  else none

/-- The lease that a REQUEST leaves in its slot. -/
def grantedLease (lease : Lease) (msg : DhcpMsg) (now : UInt32) : Lease :=
  ⟨lease.copyHwaddr msg msg.hlen.toNat, true, now + .ofNat leaseTicks⟩

/-- `handle_dhcp_request`. -/
def handleDhcpRequest (msg : DhcpMsg) (garbage : Ip4Addr) (now : UInt32) :
    ServerState × Option DhcpMsg :=
  if msg.htype ≠ hwtypeEthernet then (s, none)
  else if msg.hlen.toNat > netifMaxHwaddrLen then (s, none)
  else match requestedIp msg garbage with
    | none => (s, some (s.sendDhcpNak msg))
    | some ip =>
      match s.slotOfAddr ip with
      | none => (s, some (s.sendDhcpNak msg))
      | some i =>
        if (s.leases i).active && !(s.leases i).matches msg msg.hlen.toNat then
          (s, some (s.sendDhcpNak msg))
        else
          (s.setLease i (grantedLease (s.leases i) msg now),
            some (msg.reply ip s.ackOptions))

/-- `handle_dhcp_release`. Neither the hardware type nor the address length is
looked at. -/
def handleDhcpRelease (msg : DhcpMsg) : ServerState :=
  match s.findLeaseSlot msg.hwaddr with
  | none => s
  | some i => s.setLease i { s.leases i with active := false, expires := 0 }

/-- The switch over the message type. -/
def handle (msg : DhcpMsg) (garbage : Ip4Addr) (now : UInt32) : ServerState × Option DhcpMsg :=
  match msg.messageType with
  | none => (s, none)
  | some type =>
    if type = typeDiscover then (s, s.handleDhcpDiscover msg)
    else if type = typeRequest then s.handleDhcpRequest msg garbage now
    else if type = typeRelease then (s.handleDhcpRelease msg, none)
    else (s, none)

end ServerState

/-- One return of `netconn_recv`, with what the round of the task that follows gets
from its surroundings: the two readings of the tick counter, as unreduced tick
counts, and the old content of the stack slot of `requested_ip`. -/
structure Reception where
  packet : Option (List UInt8)
  arrival : ℕ
  handled : ℕ
  garbage : Ip4Addr

/-- The message a packet is read as. -/
def Reception.msg (r : Reception) : DhcpMsg := .ofPacket (r.packet.getD [])

/-- One round of `dhcpserver_task`. -/
def dhcpserverTask (s : ServerState) (r : Reception) : ServerState × Option DhcpMsg :=
  match r.packet with
  | none => (s, none)
  | some packet =>
    let s := s.expireLeases (.ofNat r.arrival)
    if packet.length < DhcpMsg.optionsOffset then (s, none)
    else s.handle (.ofPacket packet) r.garbage (.ofNat r.handled)

/-- What can happen to a running server. -/
inductive Event
  | received (r : Reception)
  | setRouter (ip : Ip4Addr)
  | setDns (ip : Ip4Addr)

/-- The state after an event and the message it makes the server send. -/
def respond (s : ServerState) : Event → ServerState × Option DhcpMsg
  | .received r => dhcpserverTask s r
  | .setRouter ip => (dhcpserverSetRouter s ip, none)
  | .setDns ip => (dhcpserverSetDns s ip, none)

def step (s : ServerState) (e : Event) : ServerState := (respond s e).1

end EspOpenRtos.DhcpServer
