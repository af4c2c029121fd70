/-
# Who holds an address

Each round of the server task ends in one of a few ways, and only two of them
touch the lease table. From this follows what a granted lease is worth: while it
runs, its address is neither granted nor offered to anyone else. The one condition
is that clients give their address length as six, because a REQUEST is compared
with the lease over the length the client claims.
-/

import EspOpenRtos.DhcpServer.Server
import EspOpenRtos.Math.Runs

namespace EspOpenRtos.DhcpServer

open Math.Runs

/-- The server sent a message of this type for this address. -/
def Sends (reply : Option DhcpMsg) (type : UInt8) (a : Ip4Addr) : Prop :=
  ∃ msg, reply = some msg ∧ msg.messageType = some type ∧ msg.yiaddr = a

instance (reply : Option DhcpMsg) (type : UInt8) (a : Ip4Addr) : Decidable (Sends reply type a) :=
  decidable_of_iff (∃ msg ∈ reply, msg.messageType = some type ∧ msg.yiaddr = a) Iff.rfl

/-! ## Replies -/

section Replies

variable (s : ServerState)

theorem addConfiguredOptions_append (opt : List UInt8) :
    ∃ extra, s.addConfiguredOptions opt = opt ++ extra := by
  simp only [ServerState.addConfiguredOptions, addDhcpOptionBytes]
  by_cases hrouter : s.router = .any <;> by_cases hdns : s.dns = .any
  · exact ⟨[], by rw [if_pos hrouter, if_pos hdns, List.append_nil]⟩
  · exact ⟨_, by rw [if_pos hrouter, if_neg hdns]⟩
  · exact ⟨_, by rw [if_neg hrouter, if_pos hdns]⟩
  · exact ⟨_, by rw [if_neg hrouter, if_neg hdns, List.append_assoc]⟩

theorem offerOptions_type :
    ∃ opt, s.offerOptions = addDhcpOptionByte [] optionMessageType typeOffer ++ opt := by
  simp only [ServerState.offerOptions, addDhcpOptionBytes, List.append_assoc]
  obtain ⟨extra, hextra⟩ := addConfiguredOptions_append s _
  rw [hextra]
  exact ⟨_, by rw [List.append_assoc, List.append_assoc]⟩

theorem ackOptions_type :
    ∃ opt, s.ackOptions = addDhcpOptionByte [] optionMessageType typeAck ++ opt := by
  simp only [ServerState.ackOptions, addDhcpOptionBytes, List.append_assoc]
  obtain ⟨extra, hextra⟩ := addConfiguredOptions_append s _
  rw [hextra]
  exact ⟨_, by rw [List.append_assoc, List.append_assoc]⟩

theorem nakOptions_type :
    ∃ opt, s.nakOptions = addDhcpOptionByte [] optionMessageType typeNak ++ opt := by
  simp only [ServerState.nakOptions, addDhcpOptionBytes, List.append_assoc]
  exact ⟨_, rfl⟩

variable (msg : DhcpMsg) (ip : Ip4Addr) {type : UInt8} {a : Ip4Addr}

theorem sends_offer_iff :
    Sends (some (msg.reply ip s.offerOptions)) type a ↔ type = typeOffer ∧ a = ip := by
  obtain ⟨opt, hopt⟩ := offerOptions_type s
  simp [Sends, hopt, DhcpMsg.messageType_reply, eq_comm]

theorem sends_ack_iff :
    Sends (some (msg.reply ip s.ackOptions)) type a ↔ type = typeAck ∧ a = ip := by
  obtain ⟨opt, hopt⟩ := ackOptions_type s
  simp [Sends, hopt, DhcpMsg.messageType_reply, eq_comm]

theorem sends_nak_iff : Sends (some (s.sendDhcpNak msg)) type a ↔
    type = typeNak ∧ a = msg.yiaddr := by
  obtain ⟨opt, hopt⟩ := nakOptions_type s
  simp [Sends, ServerState.sendDhcpNak, hopt, DhcpMsg.messageType_reply, eq_comm]

theorem not_sends_none : ¬Sends none type a := fun ⟨_, h, _⟩ => nomatch h

end Replies

/-! ## The table -/

section Table

variable {s : ServerState}

/-- A slot that is found is free or holds the client's own address. -/
theorem findLeaseSlotFrom_some {hwaddr : Hwaddr} {empty : Option s.Slot}
    {slots : List s.Slot} {i : s.Slot} (hempty : ∀ j, empty = some j → (s.leases j).active = false)
    (hfound : s.findLeaseSlotFrom hwaddr empty slots = some i) :
    (s.leases i).active = false ∨ (s.leases i).hwaddr = hwaddr := by
  fun_induction ServerState.findLeaseSlotFrom s hwaddr empty slots with
  | case1 empty => exact .inl (hempty i hfound)
  | case2 empty j rest hfree ih =>
    refine ih (fun k hk => ?_) hfound
    cases hk
    simp only [Bool.and_eq_true, Bool.not_eq_true'] at hfree
    exact hfree.1
  | case3 empty j rest _ hmatch =>
    cases hfound
    exact .inr hmatch.symm
  | case4 empty j rest _ _ ih => exact ih hempty hfound

theorem findLeaseSlot_some {hwaddr : Hwaddr} {i : s.Slot}
    (hfound : s.findLeaseSlot hwaddr = some i) :
    (s.leases i).active = false ∨ (s.leases i).hwaddr = hwaddr := by
  refine findLeaseSlotFrom_some ?_ hfound
  exact nofun

/-- An address that decodes to a slot is the one this slot is offered under. -/
theorem slotAddr_of_slotOfAddr {ip : Ip4Addr} {i : s.Slot} (hslot : s.slotOfAddr ip = some i) :
    s.slotAddr i = ip := by
  simp only [ServerState.slotOfAddr, ne_eq, Option.ite_none_left_eq_some, not_or, not_not,
    Option.dite_none_right_eq_some, Option.some.injEq] at hslot
  obtain ⟨⟨h1, h2, h3⟩, ⟨hle, -⟩, rfl⟩ := hslot
  have hsum : s.firstClientAddr.addr4.toNat + (ip.addr4.toNat - s.firstClientAddr.addr4.toNat) =
      ip.addr4.toNat := by omega
  rw [ServerState.slotAddr, Ip4Addr.htonl_ntohl_add (by rw [hsum]; exact ip.addr4.toNat_lt),
    hsum, UInt8.ofNat_toNat, ← h1, ← h2, ← h3]

theorem slotAddr_inj {i j : s.Slot} (heq : s.slotAddr i = s.slotAddr j) : i = j := by
  have hmax := s.maxLeases.toNat_lt
  exact Fin.ext (Ip4Addr.htonl_add_inj (by omega) (by omega) heq)

@[simp] theorem setLease_self (i : s.Slot) (lease : Lease) :
    (s.setLease i lease).leases i = lease := Function.update_self ..

theorem setLease_of_ne {i j : s.Slot} (hne : j ≠ i) (lease : Lease) :
    (s.setLease i lease).leases j = s.leases j := Function.update_of_ne hne ..

theorem expireLease_hwaddr (now : UInt32) (lease : Lease) :
    (ServerState.expireLease now lease).hwaddr = lease.hwaddr := by
  unfold ServerState.expireLease
  split <;> rfl

/-- Expiry never activates a lease. -/
theorem active_of_expireLease {now : UInt32} {lease : Lease}
    (h : (ServerState.expireLease now lease).active = true) : lease.active = true := by
  unfold ServerState.expireLease at h
  split at h
  · nomatch h
  · exact h

end Table

/-! ## The ways a round can end -/

/-- What one round of the task does, given the table after expiry. -/
inductive Outcome (t : ServerState) (r : Reception) : ServerState → Option DhcpMsg → Prop
  | ignored : Outcome t r t none
  | offered (i : t.Slot) (discover : r.msg.messageType = some typeDiscover)
      (free : t.findLeaseSlot r.msg.hwaddr = some i) :
      Outcome t r t (some (r.msg.reply (t.slotAddr i) t.offerOptions))
  | refused : Outcome t r t (some (t.sendDhcpNak r.msg))
  | granted (i : t.Slot) (request : r.msg.messageType = some typeRequest)
      (ethernet : r.msg.htype = hwtypeEthernet) (short : r.msg.hlen.toNat ≤ netifMaxHwaddrLen)
      (open_ : (t.leases i).active = false ∨ (t.leases i).matches r.msg r.msg.hlen.toNat = true) :
      Outcome t r (t.setLease i (ServerState.grantedLease (t.leases i) r.msg (.ofNat r.handled)))
        (some (r.msg.reply (t.slotAddr i) t.ackOptions))
  | released (i : t.Slot) (release : r.msg.messageType = some typeRelease)
      (found : t.findLeaseSlot r.msg.hwaddr = some i) :
      Outcome t r (t.setLease i { t.leases i with active := false, expires := 0 }) none

section Outcomes

variable {t : ServerState} {r : Reception}

theorem outcome_handleDhcpDiscover (hdiscover : r.msg.messageType = some typeDiscover) :
    Outcome t r t (t.handleDhcpDiscover r.msg) := by
  unfold ServerState.handleDhcpDiscover
  split
  · exact .ignored
  split
  · exact .ignored
  split
  · exact .ignored
  · exact .offered _ hdiscover ‹_›

theorem outcome_handleDhcpRequest (hrequest : r.msg.messageType = some typeRequest) :
    Outcome t r (t.handleDhcpRequest r.msg r.garbage (.ofNat r.handled)).1
      (t.handleDhcpRequest r.msg r.garbage (.ofNat r.handled)).2 := by
  unfold ServerState.handleDhcpRequest
  split
  · exact .ignored
  split
  · exact .ignored
  split
  · exact .refused
  split
  · exact .refused
  case h_2 hethernet hlen _ ip _ _ i hslot =>
    split
    · exact .refused
    case isFalse hopen =>
      rw [← slotAddr_of_slotOfAddr hslot]
      refine .granted i hrequest (not_not.mp hethernet) (Nat.not_lt.mp hlen) ?_
      cases hactive : (t.leases i).active with
      | false => exact .inl rfl
      | true => exact .inr (by simpa [hactive] using hopen)

theorem outcome_handleDhcpRelease (hrelease : r.msg.messageType = some typeRelease) :
    Outcome t r (t.handleDhcpRelease r.msg) none := by
  unfold ServerState.handleDhcpRelease
  split
  · exact .ignored
  · exact .released _ hrelease ‹_›

theorem outcome_handle : Outcome t r (t.handle r.msg r.garbage (.ofNat r.handled)).1
    (t.handle r.msg r.garbage (.ofNat r.handled)).2 := by
  unfold ServerState.handle
  split
  · exact .ignored
  case h_2 type htype =>
    split
    case isTrue hdiscover => exact outcome_handleDhcpDiscover (hdiscover ▸ htype)
    split
    case isTrue hrequest => exact outcome_handleDhcpRequest (hrequest ▸ htype)
    split
    case isTrue hrelease => exact outcome_handleDhcpRelease (hrelease ▸ htype)
    · exact .ignored

/-- A round does nothing, because no packet came, or ends in one of the outcomes
after the leases have been checked. -/
theorem dhcpserverTask_cases (s : ServerState) (r : Reception) :
    dhcpserverTask s r = (s, none) ∨
      Outcome (s.expireLeases (.ofNat r.arrival)) r (dhcpserverTask s r).1
        (dhcpserverTask s r).2 := by
  unfold dhcpserverTask
  split
  · exact .inl rfl
  case h_2 packet hpacket =>
    have hmsg : r.msg = .ofPacket packet := by rw [Reception.msg, hpacket]; rfl
    dsimp only
    split
    · exact .inr .ignored
    · rw [← hmsg]
      exact .inr outcome_handle

theorem outcome_of_sends {s : ServerState} {type : UInt8} {a : Ip4Addr}
    (hsends : Sends (dhcpserverTask s r).2 type a) :
    Outcome (s.expireLeases (.ofNat r.arrival)) r (dhcpserverTask s r).1 (dhcpserverTask s r).2 :=
  (dhcpserverTask_cases s r).resolve_left fun hidle => not_sends_none (hidle ▸ hsends)

end Outcomes

/-! ## Ethernet clients -/

/-- A packet of an Ethernet client with this hardware address. -/
structure Reception.SentBy (r : Reception) (hlen : UInt8) (hwaddr : Hwaddr) (type : UInt8) :
    Prop where
  packet : ∃ packet, r.packet = some packet ∧ DhcpMsg.optionsOffset ≤ packet.length
  htype : r.msg.htype = hwtypeEthernet
  hlen : r.msg.hlen = hlen
  hwaddr : r.msg.hwaddr = hwaddr
  messageType : r.msg.messageType = some type

/-- Option 50 of the packet names this address. -/
def Reception.AsksFor (r : Reception) (a : Ip4Addr) : Prop :=
  ∃ rest, findDhcpOption optionRequestedIp 4 r.msg.options = some (a.bytes ++ rest)

section Clients

variable {s : ServerState} {r : Reception} {hlen : UInt8} {hwaddr : Hwaddr} {type : UInt8}
  {a : Ip4Addr}

/-- A well-formed packet is handled with the table as it is after expiry. -/
theorem Reception.SentBy.task (h : r.SentBy hlen hwaddr type) : dhcpserverTask s r =
    (s.expireLeases (.ofNat r.arrival)).handle r.msg r.garbage (.ofNat r.handled) := by
  obtain ⟨packet, hpacket, hlong⟩ := h.packet
  have hmsg : r.msg = .ofPacket packet := by rw [Reception.msg, hpacket]; rfl
  rw [dhcpserverTask, hpacket, hmsg]
  exact if_neg (Nat.not_lt.mpr hlong)

theorem Reception.AsksFor.requestedIp (h : r.AsksFor a) :
    ServerState.requestedIp r.msg r.garbage = some a := by
  obtain ⟨rest, hfind⟩ := h
  rw [ServerState.requestedIp, hfind]
  rfl

/-- A client that looks for a server is offered the slot that is found. -/
theorem Reception.SentBy.task_discover (h : r.SentBy hlen hwaddr typeDiscover)
    (hshort : hlen.toNat ≤ netifMaxHwaddrLen)
    {t : ServerState} (ht : t = s.expireLeases (.ofNat r.arrival)) :
    dhcpserverTask s r = (t, (t.findLeaseSlot hwaddr).map fun i =>
      r.msg.reply (t.slotAddr i) t.offerOptions) := by
  subst ht
  rw [h.task, ServerState.handle, h.messageType]
  simp only [if_true]
  rw [ServerState.handleDhcpDiscover, if_neg (not_not.mpr h.htype),
    if_neg (by rw [h.hlen]; omega), h.hwaddr]
  cases (s.expireLeases (.ofNat r.arrival)).findLeaseSlot hwaddr <;> rfl

section

variable {t : ServerState} (h : r.SentBy hlen hwaddr typeRequest)
  (hshort : hlen.toNat ≤ netifMaxHwaddrLen) (hasks : r.AsksFor a)
  (ht : t = s.expireLeases (.ofNat r.arrival))
include h hshort hasks ht

/-- The round in which a client asks for an address. -/
theorem Reception.SentBy.task_request : dhcpserverTask s r =
      match t.slotOfAddr a with
      | none => (t, some (t.sendDhcpNak r.msg))
      | some i =>
        if (t.leases i).active && !(t.leases i).matches r.msg r.msg.hlen.toNat then
          (t, some (t.sendDhcpNak r.msg))
        else
          (t.setLease i (ServerState.grantedLease (t.leases i) r.msg (.ofNat r.handled)),
            some (r.msg.reply a t.ackOptions)) := by
  subst ht
  rw [h.task, ServerState.handle, h.messageType]
  simp only [if_neg (show typeRequest ≠ typeDiscover by decide), if_true]
  rewrite [ServerState.handleDhcpRequest, if_neg (not_not.mpr h.htype),
    if_neg (by rw [h.hlen]; omega), hasks.requestedIp]
  rfl

/-- A client is granted the address of a slot that is free or its own. -/
theorem Reception.SentBy.task_granted {i : t.Slot}
    (hslot : t.slotOfAddr a = some i)
    (hopen : (t.leases i).active = false ∨ (t.leases i).matches r.msg r.msg.hlen.toNat = true) :
    dhcpserverTask s r =
      (t.setLease i (ServerState.grantedLease (t.leases i) r.msg (.ofNat r.handled)),
        some (r.msg.reply a t.ackOptions)) := by
  rw [h.task_request hshort hasks ht, hslot]
  refine if_neg fun hclosed => ?_
  rw [Bool.and_eq_true, Bool.not_eq_true'] at hclosed
  rcases hopen with hfree | hown
  · exact Bool.false_ne_true (hfree.symm.trans hclosed.1)
  · exact Bool.false_ne_true (hclosed.2.symm.trans hown)

/-- A client is refused an address that does not decode to a slot. -/
theorem Reception.SentBy.task_refused (hslot : t.slotOfAddr a = none) :
    dhcpserverTask s r = (t, some (t.sendDhcpNak r.msg)) := by
  rw [h.task_request hshort hasks ht, hslot]

end

/-- A client that sends one packet, at a given time. -/
def sent (packet : List UInt8) (time : ℕ) : Reception := ⟨some packet, time, time, .any⟩

theorem sentBy_clientPacket (hlen : UInt8) (hwaddr : Hwaddr) (type : UInt8) (opt : List UInt8)
    (time : ℕ) : (sent (clientPacket hlen hwaddr type opt) time).SentBy hlen hwaddr type :=
  ⟨⟨_, rfl, optionsOffset_le_clientPacket ..⟩, rfl, rfl, hwaddr_clientPacket ..,
    messageType_clientPacket ..⟩

theorem asksFor_clientPacket (hlen : UInt8) (hwaddr : Hwaddr) (type : UInt8) (ip : Ip4Addr)
    (time : ℕ) : (sent (clientPacket hlen hwaddr type (requestOption ip)) time).AsksFor ip :=
  find_requestedIp_clientPacket ..

end Clients

/-! ## Leases over time -/

/-- Events in the order of the tick counter. -/
def Chronological : ℕ → List Event → Prop
  | _, [] => True
  | now, .received r :: rest =>
    now ≤ r.arrival ∧ r.arrival ≤ r.handled ∧ Chronological r.handled rest
  | now, _ :: rest => Chronological now rest

/-- A RELEASE from this hardware address. -/
def Event.Releases (hwaddr : Hwaddr) : Event → Prop
  | .received r => r.msg.messageType = some typeRelease ∧ r.msg.hwaddr = hwaddr
  | _ => False

/-- An Ethernet client that sends a REQUEST gives at least six as the length of its
address. -/
def Event.FullHwaddr : Event → Prop
  | .received r => r.msg.messageType = some typeRequest → r.msg.htype = hwtypeEthernet →
      netifMaxHwaddrLen ≤ r.msg.hlen.toNat
  | _ => True

/-- The table records that an address belongs to a client up to some time at least,
counted from a present in which the record is plausible. -/
def Holds (s : ServerState) (a : Ip4Addr) (hwaddr : Hwaddr) (deadline now : ℕ) : Prop :=
  ∃ i : s.Slot, s.slotAddr i = a ∧ (s.leases i).active = true ∧ (s.leases i).hwaddr = hwaddr ∧
    ∃ expires, (s.leases i).expires = .ofNat expires ∧ deadline ≤ expires ∧
      expires ≤ now + leaseTicks

section Holds

variable {s s' t : ServerState} {a : Ip4Addr} {hwaddr : Hwaddr} {deadline now : ℕ}
  {r : Reception} {reply : Option DhcpMsg}

/-- With six bytes compared, the lease holds the client's own address. -/
theorem hwaddr_of_matches {lease : Lease} {msg : DhcpMsg} {n : ℕ} (hn : netifMaxHwaddrLen ≤ n)
    (hmatches : lease.matches msg n = true) : lease.hwaddr = msg.hwaddr := by
  funext i
  exact of_decide_eq_true hmatches i (i.isLt.trans_le hn)

theorem copyHwaddr_full (lease : Lease) {msg : DhcpMsg} {n : ℕ} (hn : netifMaxHwaddrLen ≤ n) :
    lease.copyHwaddr msg n = msg.hwaddr := by
  funext i
  exact if_pos (i.isLt.trans_le hn)

/-- A lease that has not run out survives the check. -/
theorem expireLease_of_ahead {lease : Lease} {expires : ℕ}
    (hexpires : lease.expires = .ofNat expires) (hnow : now ≤ expires)
    (hnear : expires ≤ now + leaseTicks) :
    ServerState.expireLease (.ofNat now) lease = lease := by
  have hticks : leaseTicks = 360000 := rfl
  have hdiff : (lease.expires - .ofNat now).toNat = expires - now := by
    rw [hexpires, UInt32.toNat_sub, UInt32.toNat_ofNat', UInt32.toNat_ofNat']
    omega
  refine if_neg fun hpast => ?_
  have hge := UInt32.le_iff_toNat_le.mp hpast.2
  rw [hdiff] at hge
  have hhalf : (0x80000000 : UInt32).toNat = 2 ^ 31 := rfl
  omega

theorem Holds.expireLeases (h : Holds s a hwaddr deadline now) (hdeadline : r.arrival ≤ deadline)
    (hnow : now ≤ r.arrival) :
    Holds (s.expireLeases (.ofNat r.arrival)) a hwaddr deadline r.arrival := by
  obtain ⟨i, haddr, hactive, hhwaddr, expires, hexpires, hlate, hnear⟩ := h
  have hkept : (s.expireLeases (.ofNat r.arrival)).leases i = s.leases i :=
    expireLease_of_ahead hexpires (hdeadline.trans hlate) (by omega)
  exact ⟨i, haddr, hkept ▸ hactive, hkept ▸ hhwaddr, expires, hkept ▸ hexpires, hlate, by omega⟩

theorem Holds.mono (h : Holds s a hwaddr deadline now) {later : ℕ} (hlater : now ≤ later) :
    Holds s a hwaddr deadline later := by
  obtain ⟨i, haddr, hactive, hhwaddr, expires, hexpires, hlate, hnear⟩ := h
  exact ⟨i, haddr, hactive, hhwaddr, expires, hexpires, hlate, by omega⟩

/-- A slot other than the one that is written keeps its lease. -/
theorem Holds.setLease_of_ne {i : t.Slot} (h : Holds t a hwaddr deadline now)
    (hne : t.slotAddr i ≠ a) (lease : Lease) : Holds (t.setLease i lease) a hwaddr deadline now := by
  obtain ⟨j, haddr, hlease⟩ := h
  have hj : j ≠ i := fun heq => hne (heq ▸ haddr)
  refine ⟨j, haddr, ?_⟩
  rw [DhcpServer.setLease_of_ne hj]
  exact hlease

/-- What a slot holds that is known by its address. -/
theorem Holds.lease (h : Holds t a hwaddr deadline now) {i : t.Slot} (hi : t.slotAddr i = a) :
    (t.leases i).active = true ∧ (t.leases i).hwaddr = hwaddr := by
  obtain ⟨j, haddr, hactive, hhwaddr, -⟩ := h
  obtain rfl := slotAddr_inj (haddr.trans hi.symm)
  exact ⟨hactive, hhwaddr⟩

/-- Granting a slot makes its client the holder. -/
theorem holds_grantedLease (i : t.Slot) (hfull : netifMaxHwaddrLen ≤ r.msg.hlen.toNat)
    (hdeadline : deadline ≤ r.handled + leaseTicks) :
    Holds (t.setLease i (ServerState.grantedLease (t.leases i) r.msg (.ofNat r.handled)))
      (t.slotAddr i) r.msg.hwaddr deadline r.handled := by
  refine ⟨i, rfl, ?_, ?_, r.handled + leaseTicks, ?_, hdeadline, le_rfl⟩
  · rw [setLease_self]
    rfl
  · rw [setLease_self]
    exact copyHwaddr_full _ hfull
  · rw [setLease_self, UInt32.ofNat_add]
    rfl

/-- A held address is only granted to its holder again, or released by it. -/
theorem Holds.outcome (h : Holds t a hwaddr deadline r.arrival) (houtcome : Outcome t r s' reply)
    (hfull : (Event.received r).FullHwaddr) (hkept : ¬(Event.received r).Releases hwaddr)
    (htime : r.arrival ≤ r.handled) (hdeadline : deadline ≤ r.handled + leaseTicks) :
    Holds s' a hwaddr deadline r.handled := by
  have hlater := h.mono htime
  cases houtcome with
  | ignored => exact hlater
  | offered => exact hlater
  | refused => exact hlater
  | granted i request ethernet _ hopen =>
    by_cases haddr : t.slotAddr i = a
    · obtain ⟨hactive, hhwaddr⟩ := h.lease haddr
      have hlen := hfull request ethernet
      have hsame : (t.leases i).hwaddr = r.msg.hwaddr :=
        hwaddr_of_matches hlen (hopen.resolve_left (by rw [hactive]; nofun))
      rw [← haddr, ← hhwaddr, hsame]
      exact holds_grantedLease i hlen hdeadline
    · exact hlater.setLease_of_ne haddr _
  | released i release found =>
    refine hlater.setLease_of_ne (fun haddr => hkept ⟨release, ?_⟩) _
    obtain ⟨hactive, hhwaddr⟩ := h.lease haddr
    rw [← hhwaddr, (findLeaseSlot_some found).resolve_left (by rw [hactive]; nofun)]

theorem Holds.task (h : Holds s a hwaddr deadline now) (hfull : (Event.received r).FullHwaddr)
    (hkept : ¬(Event.received r).Releases hwaddr) (hnow : now ≤ r.arrival)
    (htime : r.arrival ≤ r.handled) (hdeadline : r.handled ≤ deadline)
    (hlease : deadline ≤ now + leaseTicks) :
    Holds (dhcpserverTask s r).1 a hwaddr deadline r.handled := by
  rcases dhcpserverTask_cases s r with hidle | houtcome
  · rw [hidle]
    exact h.mono (hnow.trans htime)
  · exact (h.expireLeases (htime.trans hdeadline) hnow).outcome houtcome hfull hkept htime
      (by omega)

theorem Chronological.le_last {events : List Event}
    (h : Chronological now (events ++ [.received r])) : now ≤ r.arrival := by
  induction events generalizing now with
  | nil => exact h.1
  | cons e rest ih =>
    cases e with
    | received q => exact h.1.trans (h.2.1.trans (ih h.2.2))
    | setRouter | setDns => exact ih h

/-- The holder keeps its address up to the arrival of a packet within the lease
time. -/
theorem Holds.run {events : List Event} (h : Holds s a hwaddr r.arrival now)
    (htimes : Chronological now (events ++ [.received r])) (hfull : ∀ e ∈ events, e.FullHwaddr)
    (hkept : ∀ e ∈ events, ¬e.Releases hwaddr) (hlease : r.arrival ≤ now + leaseTicks) :
    Holds (run step s events) a hwaddr r.arrival r.arrival := by
  induction events generalizing s now with
  | nil => exact h.mono htimes.1
  | cons e rest ih =>
    rw [run_cons]
    obtain ⟨hfull, hfulls⟩ := List.forall_mem_cons.mp hfull
    obtain ⟨hkept, hkepts⟩ := List.forall_mem_cons.mp hkept
    cases e with
    | received q =>
      obtain ⟨hnow, htime, htimes⟩ := htimes
      exact ih (h.task hfull hkept hnow htime htimes.le_last hlease) htimes hfulls hkepts
        (by omega)
    | setRouter | setDns => exact ih h htimes hfulls hkepts hlease

/-- Only a grant is answered with an ACK. -/
theorem outcome_ack (houtcome : Outcome t r s' reply) (hsends : Sends reply typeAck a) :
    ∃ i : t.Slot, t.slotAddr i = a ∧ r.msg.messageType = some typeRequest ∧
      r.msg.htype = hwtypeEthernet ∧
      ((t.leases i).active = false ∨ (t.leases i).matches r.msg r.msg.hlen.toNat = true) ∧
      s' = t.setLease i (ServerState.grantedLease (t.leases i) r.msg (.ofNat r.handled)) := by
  cases houtcome with
  | ignored | released => exact absurd hsends not_sends_none
  | offered => exact absurd ((sends_offer_iff ..).mp hsends).1 (by decide)
  | refused => exact absurd ((sends_nak_iff ..).mp hsends).1 (by decide)
  | granted i request ethernet _ hopen =>
    exact ⟨i, ((sends_ack_iff ..).mp hsends).2.symm, request, ethernet, hopen, rfl⟩

/-- Only a DISCOVER is answered with an OFFER. -/
theorem outcome_offer (houtcome : Outcome t r s' reply) (hsends : Sends reply typeOffer a) :
    ∃ i : t.Slot, t.slotAddr i = a ∧ t.findLeaseSlot r.msg.hwaddr = some i ∧ s' = t := by
  cases houtcome with
  | ignored | released => exact absurd hsends not_sends_none
  | offered i _ free => exact ⟨i, ((sends_offer_iff ..).mp hsends).2.symm, free, rfl⟩
  | refused => exact absurd ((sends_nak_iff ..).mp hsends).1 (by decide)
  | granted => exact absurd ((sends_ack_iff ..).mp hsends).1 (by decide)

/-- Whoever is sent an ACK or an OFFER for a held address is its holder. -/
theorem Holds.exclusive (h : Holds t a hwaddr deadline now) (houtcome : Outcome t r s' reply)
    (hfull : (Event.received r).FullHwaddr)
    (hsends : Sends reply typeAck a ∨ Sends reply typeOffer a) : r.msg.hwaddr = hwaddr := by
  rcases hsends with hack | hoffer
  · obtain ⟨i, haddr, request, ethernet, hopen, -⟩ := outcome_ack houtcome hack
    obtain ⟨hactive, hhwaddr⟩ := h.lease haddr
    rw [← hhwaddr, hwaddr_of_matches (hfull request ethernet)
      (hopen.resolve_left (by rw [hactive]; nofun))]
  · obtain ⟨i, haddr, found, -⟩ := outcome_offer houtcome hoffer
    obtain ⟨hactive, hhwaddr⟩ := h.lease haddr
    rw [← hhwaddr, (findLeaseSlot_some found).resolve_left (by rw [hactive]; nofun)]

end Holds

/-- A leased address belongs to one client. After an ACK, and until the client
releases the address or the lease time has passed, nobody else is sent an ACK or an
OFFER for it. The table may be any table at the time of the ACK. -/
theorem leased_address_exclusive (s : ServerState) {granted later : Reception}
    {between : List Event} {a : Ip4Addr}
    (htimes : Chronological 0 (.received granted :: (between ++ [.received later])))
    (hfull : ∀ e ∈ .received granted :: (between ++ [.received later]), e.FullHwaddr)
    (hack : Sends (dhcpserverTask s granted).2 typeAck a)
    (hkept : ∀ e ∈ between, ¬e.Releases granted.msg.hwaddr)
    (hlease : later.arrival ≤ granted.handled + leaseTicks)
    (hsends : Sends (dhcpserverTask (run step s (.received granted :: between)) later).2 typeAck a ∨
      Sends (dhcpserverTask (run step s (.received granted :: between)) later).2 typeOffer a) :
    later.msg.hwaddr = granted.msg.hwaddr := by
  obtain ⟨-, htime, htimes⟩ := htimes
  simp only [List.forall_mem_cons, List.forall_mem_append, List.not_mem_nil, false_implies,
    implies_true, and_true] at hfull
  obtain ⟨hgranted, hbetween, hlast⟩ := hfull
  -- the ACK makes the client the holder
  have hstart : Holds (step s (.received granted)) a granted.msg.hwaddr later.arrival
      granted.handled := by
    obtain ⟨i, rfl, request, ethernet, -, hstate⟩ := outcome_ack (outcome_of_sends hack) hack
    rw [step, respond, hstate]
    exact holds_grantedLease i (hgranted request ethernet) hlease
  have hholds := hstart.run htimes hbetween hkept hlease
  rw [← run_cons] at hholds
  generalize run step s (.received granted :: between) = t at hholds hsends
  exact (hholds.expireLeases le_rfl le_rfl).exclusive
    (hsends.elim outcome_of_sends outcome_of_sends) hlast hsends

/-- A server with a single address to hand out. -/
def singleServer : ServerState :=
  dhcpserverStart ⟨⟨192, 168, 4, 1⟩, ⟨255, 255, 255, 0⟩⟩ ⟨192, 168, 4, 2⟩ 1

def singleAddr : Ip4Addr := ⟨192, 168, 4, 2⟩

/-- A REQUEST for the single address. -/
def singleRequest (hlen : UInt8) (hwaddr : Hwaddr) (time : ℕ) : Reception :=
  sent (clientPacket hlen hwaddr typeRequest (requestOption singleAddr)) time

/-- The client is granted the address, and a second client is refused it. -/
def contested : List Event :=
  [.received (singleRequest 6 (fun _ => 1) 0), .received (singleRequest 6 (fun _ => 2) 5)]

/-- The holder may renew its lease after that. -/
theorem contested_renewed :
    Sends (dhcpserverTask (run step singleServer contested) (singleRequest 6 (fun _ => 1) 10)).2
      typeAck singleAddr := by
  decide +kernel

/-- The client renews a lease that a second client has asked for in the meantime. -/
theorem leased_address_exclusive_renewed :
    Sends (dhcpserverTask (run step singleServer contested) (singleRequest 6 (fun _ => 1) 10)).2
        typeAck singleAddr ∧
      (singleRequest 6 (fun _ => 1) 10).msg.hwaddr =
        (singleRequest 6 (fun _ => 1) 0).msg.hwaddr := by
  refine ⟨contested_renewed, @leased_address_exclusive singleServer _ _ [_] singleAddr ?_ ?_
    (by decide +kernel) ?_ (by decide) (.inl contested_renewed)⟩
  · exact ⟨le_rfl, le_rfl, Nat.zero_le 5, le_rfl, by decide, le_rfl, trivial⟩
  · simp only [List.cons_append, List.nil_append, List.forall_mem_cons]
    refine ⟨fun _ _ => ?_, fun _ _ => ?_, fun _ _ => ?_, List.forall_mem_nil _⟩ <;> decide +kernel
  · refine List.forall_mem_singleton.mpr fun hreleases => absurd hreleases.1 ?_
    decide +kernel

/-- A REQUEST that claims an address length of zero is compared with the lease over
no bytes at all: the second client is sent an ACK for the first one's address. -/
theorem short_hlen_shares_address :
    Sends (dhcpserverTask singleServer (singleRequest 6 (fun _ => 1) 0)).2 typeAck singleAddr ∧
      Sends (dhcpserverTask (step singleServer (.received (singleRequest 6 (fun _ => 1) 0)))
        (singleRequest 0 (fun _ => 2) 10)).2 typeAck singleAddr ∧
      (singleRequest 0 (fun _ => 2) 10).msg.hwaddr ≠
        (singleRequest 6 (fun _ => 1) 0).msg.hwaddr := by
  decide +kernel

end EspOpenRtos.DhcpServer
