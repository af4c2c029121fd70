/-
# Taking up an offer

An OFFER names a slot by adding its index to the first address as a 32-bit number.
A REQUEST is decoded octet by octet: the first three octets have to be those of the
first address. The two agree as long as the addition stays within the last octet,
so a server keeps all its promises exactly when its whole range does.
-/

import EspOpenRtos.DhcpServer.Leases

namespace EspOpenRtos.DhcpServer

open Math.Runs

section Slots

variable {s : ServerState}

theorem slotOfAddr_slotAddr (i : s.Slot) (hlast : s.firstClientAddr.addr4.toNat + i < 256) :
    s.slotOfAddr (s.slotAddr i) = some i := by
  have haddr := Ip4Addr.htonl_ntohl_add hlast
  have hoctet : (UInt8.ofNat (s.firstClientAddr.addr4.toNat + i)).toNat =
      s.firstClientAddr.addr4.toNat + i := UInt8.toNat_ofNat_of_lt' hlast
  simp only [ServerState.slotOfAddr, ServerState.slotAddr, haddr, ne_eq, not_true_eq_false,
    or_self, if_false, hoctet, Nat.add_sub_cancel_left]
  rw [dif_pos ⟨Nat.le_add_right _ _, i.isLt⟩]

theorem slotOfAddr_carry (i : s.Slot) (hlast : 256 ≤ s.firstClientAddr.addr4.toNat + i) :
    s.slotOfAddr (s.slotAddr i) = none := by
  have hmax := s.maxLeases.toNat_lt
  have hne := Ip4Addr.htonl_ntohl_add_carry (n := i) (by omega) hlast
  exact if_pos (.inr (.inr hne))

end Slots

/-- The client's REQUEST for the address it was offered is answered with an ACK for
this address, and the table changes in the slot that the offer was made from. -/
def TakenUp (s : ServerState) (discover request : Reception) (a : Ip4Addr) : Prop :=
  let offering := s.expireLeases (.ofNat discover.arrival)
  let offered := (dhcpserverTask s discover).1
  let table := offered.expireLeases (.ofNat request.arrival)
  Sends (dhcpserverTask offered request).2 typeAck a ∧
    ∃ (i : offering.Slot) (j : table.Slot), (j : ℕ) = i ∧
      offering.findLeaseSlot discover.msg.hwaddr = some i ∧
      (dhcpserverTask offered request).1 =
        table.setLease j ⟨discover.msg.hwaddr, true, .ofNat (request.handled + leaseTicks)⟩

section Offers

variable {s : ServerState} {discover request : Reception} {a : Ip4Addr} {hwaddr : Hwaddr}

/-- Between an offer and the REQUEST for it the slot stays free or the client's. -/
theorem open_of_found {now : UInt32} {i : s.Slot} (hfound : s.findLeaseSlot hwaddr = some i)
    (hhwaddr : request.msg.hwaddr = hwaddr) :
    ((s.expireLeases now).leases i).active = false ∨
      ((s.expireLeases now).leases i).matches request.msg request.msg.hlen.toNat = true := by
  rcases findLeaseSlot_some hfound with hfree | hown
  · refine .inl (Bool.eq_false_iff.mpr fun hactive => ?_)
    exact Bool.false_ne_true (hfree.symm.trans (active_of_expireLease hactive))
  · refine .inr (decide_eq_true fun j _ => congrFun ?_ j)
    rw [hhwaddr, ← hown]
    exact expireLease_hwaddr now (s.leases i)

/-- What a client with a full address leaves in its slot. -/
theorem grantedLease_sentBy {r : Reception} {type : UInt8} (h : r.SentBy 6 hwaddr type)
    (lease : Lease) : ServerState.grantedLease lease r.msg (.ofNat r.handled) =
      ⟨hwaddr, true, .ofNat (r.handled + leaseTicks)⟩ := by
  rw [ServerState.grantedLease, copyHwaddr_full _ (by rw [h.hlen]; decide), h.hwaddr,
    UInt32.ofNat_add]

/-- An offer is taken up exactly when its address shares three octets with the first
one. -/
theorem takenUp_iff (hrequest : request.SentBy 6 hwaddr typeRequest)
    (hdiscover : discover.msg.hwaddr = hwaddr) (hasks : request.AsksFor a)
    {i : (s.expireLeases (.ofNat discover.arrival)).Slot}
    (haddr : (s.expireLeases (.ofNat discover.arrival)).slotAddr i = a)
    (hfound : (s.expireLeases (.ofNat discover.arrival)).findLeaseSlot hwaddr = some i)
    (hstate : (dhcpserverTask s discover).1 = s.expireLeases (.ofNat discover.arrival)) :
    TakenUp s discover request a ↔ s.firstClientAddr.addr4.toNat + i < 256 := by
  unfold TakenUp
  change _ ↔ (s.expireLeases (.ofNat discover.arrival)).firstClientAddr.addr4.toNat + i < 256
  rw [hstate, hdiscover]
  subst haddr
  generalize s.expireLeases (.ofNat discover.arrival) = t at *
  constructor
  · rintro ⟨hack, -⟩
    by_contra hcarry
    rw [hrequest.task_refused (by decide) hasks rfl
      (slotOfAddr_carry i (Nat.not_lt.mp hcarry)), sends_nak_iff] at hack
    exact absurd hack.1 (by decide)
  · intro hlast
    dsimp only
    rw [hrequest.task_granted (by decide) hasks rfl (slotOfAddr_slotAddr i hlast)
      (open_of_found hfound hrequest.hwaddr)]
    refine ⟨(sends_ack_iff ..).mpr ⟨rfl, rfl⟩, i, i, rfl, hfound, ?_⟩
    rw [grantedLease_sentBy hrequest]

end Offers

/-! ## A table filled up to a slot -/

theorem leases_ext {s : ServerState} {f g : s.Slot → Lease} (h : ∀ i, f i = g i) :
    { s with leases := f } = { s with leases := g } := by
  rw [funext h]

section Filled

variable (serverIf : Netif) (first : Ip4Addr) (maxLeases : UInt8)

/-- The hardware address of the client that takes a slot. -/
def clientHwaddr (n : ℕ) : Hwaddr := fun i => if (i : ℕ) = 0 then 2 else .ofNat n

theorem clientHwaddr_inj {m n : ℕ} (hm : m < 256) (hn : n < 256)
    (heq : clientHwaddr m = clientHwaddr n) : m = n := by
  have hbyte : UInt8.ofNat m = .ofNat n := congrFun heq ⟨1, by decide⟩
  have hval := congrArg UInt8.toNat hbyte
  rwa [UInt8.toNat_ofNat_of_lt' hm, UInt8.toNat_ofNat_of_lt' hn] at hval

theorem clientHwaddr_ne_unused (n : ℕ) : clientHwaddr n ≠ Lease.unused.hwaddr := fun heq =>
  absurd (congrFun heq ⟨0, by decide⟩) (show (2 : UInt8) ≠ 0 by decide)

/-- The server after `n` clients have taken the first `n` slots at tick 0. -/
def filled (n : ℕ) : ServerState :=
  { dhcpserverStart serverIf first maxLeases with
    leases := fun i =>
      if (i : ℕ) < n then ⟨clientHwaddr i, true, .ofNat leaseTicks⟩ else .unused }

/-- The REQUEST by which the next client takes its slot. -/
def joinRequest (n : ℕ) : Reception :=
  sent (clientPacket 6 (clientHwaddr n) typeRequest (requestOption (.htonl (first.ntohl + n)))) 0

theorem expireLeases_filled (n : ℕ) :
    (filled serverIf first maxLeases n).expireLeases (.ofNat 0) =
      filled serverIf first maxLeases n := by
  refine leases_ext (s := dhcpserverStart serverIf first maxLeases) fun i => ?_
  dsimp only [filled]
  split
  · exact expireLease_of_ahead rfl (Nat.zero_le _) (by decide)
  · rfl

theorem step_filled {n : ℕ} (hn : n < maxLeases.toNat) (hlast : first.addr4.toNat + n < 256) :
    step (filled serverIf first maxLeases n) (.received (joinRequest first n)) =
      filled serverIf first maxLeases (n + 1) := by
  have hsent := sentBy_clientPacket 6 (clientHwaddr n) typeRequest
    (requestOption (.htonl (first.ntohl + n))) 0
  have hasks := asksFor_clientPacket 6 (clientHwaddr n) typeRequest (.htonl (first.ntohl + n)) 0
  have hfree : ((filled serverIf first maxLeases n).leases ⟨n, hn⟩) = .unused :=
    if_neg (lt_irrefl n)
  have htask := hsent.task_granted (s := filled serverIf first maxLeases n) (by decide) hasks
    (expireLeases_filled serverIf first maxLeases n).symm
    (slotOfAddr_slotAddr (s := filled serverIf first maxLeases n) ⟨n, hn⟩ hlast)
    (.inl (by rw [hfree]; rfl))
  rw [step, respond, joinRequest, htask]
  refine leases_ext (s := dhcpserverStart serverIf first maxLeases) fun i => ?_
  by_cases hi : i = ⟨n, hn⟩
  · subst hi
    refine (Function.update_self ..).trans (Eq.trans ?_ (if_pos n.lt_succ_self).symm)
    rw [grantedLease_sentBy hsent, sent, Nat.zero_add]
  · have hne : (i : ℕ) ≠ n := fun heq => hi (Fin.ext heq)
    refine (Function.update_of_ne hi ..).trans ?_
    exact if_congr (by omega) rfl rfl

/-- The clients may join one after the other. -/
theorem run_filled {n : ℕ} (hn : n ≤ maxLeases.toNat) (hlast : first.addr4.toNat + n ≤ 256) :
    run step (dhcpserverStart serverIf first maxLeases)
        ((List.range n).map fun k => .received (joinRequest first k)) =
      filled serverIf first maxLeases n := by
  induction n with
  | zero =>
    refine leases_ext (s := dhcpserverStart serverIf first maxLeases) fun i => ?_
    exact (if_neg (Nat.not_lt_zero _)).symm
  | succ n ih =>
    rw [List.range_succ, List.map_append, run_append, ih (by omega) (by omega),
      List.map_singleton, run_cons, run_nil]
    exact step_filled serverIf first maxLeases hn (by omega)

theorem chronological_of_sent {events : List Event}
    (h : ∀ e ∈ events, ∃ packet, e = .received (sent packet 0)) : Chronological 0 events := by
  induction events with
  | nil => trivial
  | cons e rest ih =>
    obtain ⟨⟨packet, rfl⟩, hrest⟩ := List.forall_mem_cons.mp h
    exact ⟨le_rfl, le_rfl, ih hrest⟩

/-- A client that no lease knows is given the first free slot. -/
theorem findLeaseSlotFrom_unknown {s : ServerState} {hwaddr : Hwaddr}
    (hunknown : ∀ i, hwaddr ≠ (s.leases i).hwaddr) (empty : Option s.Slot)
    (slots : List s.Slot) : s.findLeaseSlotFrom hwaddr empty slots =
      empty.or (slots.find? fun i => !(s.leases i).active) := by
  fun_induction ServerState.findLeaseSlotFrom s hwaddr empty slots with
  | case1 empty => simp
  | case2 empty i rest hfree ih =>
    simp only [Bool.and_eq_true, Option.isNone_iff_eq_none] at hfree
    rw [ih, hfree.2]
    simp [hfree.1]
  | case3 empty i rest _ hmatch => exact absurd hmatch (hunknown i)
  | case4 empty i rest hfree _ ih =>
    rw [ih]
    cases empty with
    | some j => rfl
    | none =>
      have hactive : (s.leases i).active = true := by simpa using hfree
      simp [hactive]

theorem findLeaseSlot_filled {n : ℕ} (hn : n < maxLeases.toNat) :
    (filled serverIf first maxLeases n).findLeaseSlot (clientHwaddr n) = some ⟨n, hn⟩ := by
  have hmax := maxLeases.toNat_lt
  have hunknown (i) : clientHwaddr n ≠ ((filled serverIf first maxLeases n).leases i).hwaddr := by
    dsimp only [filled]
    split
    case isTrue hi => exact fun heq => hi.ne (clientHwaddr_inj (by omega) (by omega) heq).symm
    case isFalse => exact clientHwaddr_ne_unused n
  rw [ServerState.findLeaseSlot, findLeaseSlotFrom_unknown hunknown, Option.none_or,
    List.find?_eq_some_iff_getElem]
  have hfree : (filled serverIf first maxLeases n).leases ⟨n, hn⟩ = .unused :=
    if_neg (lt_irrefl n)
  refine ⟨by rw [hfree]; rfl, n, by rw [List.length_finRange]; exact hn, by simp, fun j hj => ?_⟩
  have hactive : (filled serverIf first maxLeases n).leases ⟨j, hj.trans hn⟩ =
      ⟨clientHwaddr j, true, .ofNat leaseTicks⟩ := if_pos hj
  simp only [List.getElem_finRange, Fin.cast_mk, hactive, Bool.not_not]

/-- The DISCOVER of the client that comes to a table filled up to a slot. -/
def joinDiscover (n : ℕ) : Reception := sent (clientPacket 6 (clientHwaddr n) typeDiscover []) 0

theorem filled_offers {n : ℕ} (hn : n < maxLeases.toNat) :
    dhcpserverTask (filled serverIf first maxLeases n) (joinDiscover n) =
      (filled serverIf first maxLeases n, some ((joinDiscover n).msg.reply
        (.htonl (first.ntohl + n)) (filled serverIf first maxLeases n).offerOptions)) := by
  rw [joinDiscover, (sentBy_clientPacket 6 (clientHwaddr n) typeDiscover [] 0).task_discover
    (by decide) (expireLeases_filled serverIf first maxLeases n).symm,
    findLeaseSlot_filled serverIf first maxLeases hn]
  rfl

end Filled

/-- The claim that an offer is taken up, for one server and one history of it: after
the events a client is offered an address and asks for it. -/
def KeepsOffer (start : ServerState) (events : List Event) (discover request : Reception)
    (hwaddr : Hwaddr) (a : Ip4Addr) : Prop :=
  Chronological 0 (events ++ [.received discover, .received request]) →
  discover.SentBy 6 hwaddr typeDiscover → request.SentBy 6 hwaddr typeRequest →
  request.AsksFor a → Sends (dhcpserverTask (run step start events) discover).2 typeOffer a →
  TakenUp (run step start events) discover request a

section Configuration

variable (serverIf : Netif) (first : Ip4Addr) (maxLeases : UInt8)

/-- The range of a server does not change while it runs. -/
theorem step_range (s : ServerState) (e : Event) :
    (step s e).maxLeases = s.maxLeases ∧ (step s e).firstClientAddr = s.firstClientAddr := by
  cases e with
  | setRouter | setDns => exact ⟨rfl, rfl⟩
  | received r =>
    rw [step, respond]
    rcases dhcpserverTask_cases s r with hidle | houtcome
    · rw [hidle]
      exact ⟨rfl, rfl⟩
    · generalize (dhcpserverTask s r).2 = reply at houtcome
      generalize (dhcpserverTask s r).1 = s' at houtcome ⊢
      cases houtcome <;> exact ⟨rfl, rfl⟩

theorem run_range (events : List Event) :
    (run step (dhcpserverStart serverIf first maxLeases) events).maxLeases = maxLeases ∧
      (run step (dhcpserverStart serverIf first maxLeases) events).firstClientAddr = first :=
  run_invariant (P := fun s => s.maxLeases = maxLeases ∧ s.firstClientAddr = first)
    (fun s e h _ => ⟨(step_range s e).1.trans h.1, (step_range s e).2.trans h.2⟩) ⟨rfl, rfl⟩
    (along_true _ _)

/-- Whatever a server has received, an address that it offers or grants is in its range. -/
theorem replies_in_range (events : List Event) {r : Reception} {type : UInt8} {a : Ip4Addr}
    (htype : type = typeOffer ∨ type = typeAck)
    (hsends : Sends
      (dhcpserverTask (run step (dhcpserverStart serverIf first maxLeases) events) r).2 type a) :
    ∃ i < maxLeases.toNat, a = .htonl (first.ntohl + i) := by
  obtain ⟨hmax, hfirst⟩ := run_range serverIf first maxLeases events
  generalize run step _ events = s at *
  obtain ⟨i, hi⟩ : ∃ i : s.Slot, s.slotAddr i = a := by
    rcases htype with rfl | rfl
    · obtain ⟨i, hi, -⟩ := outcome_offer (outcome_of_sends hsends) hsends
      exact ⟨i, hi⟩
    · obtain ⟨i, hi, -⟩ := outcome_ack (outcome_of_sends hsends) hsends
      exact ⟨i, hi⟩
  exact ⟨i, hmax ▸ i.isLt, hfirst ▸ hi.symm⟩

/-- A client that renews its lease is granted the only address of the range. -/
theorem replies_in_range_single :
    Sends (dhcpserverTask (run step singleServer contested) (singleRequest 6 (fun _ => 1) 10)).2
        typeAck singleAddr ∧
      ∃ i < 1, singleAddr = .htonl (Ip4Addr.ntohl ⟨192, 168, 4, 2⟩ + i) := by
  exact ⟨contested_renewed, replies_in_range _ _ 1 contested (.inr rfl) contested_renewed⟩

/-- The offer of the first slot whose address leaves the last octet is refused. -/
theorem refused_offer {n : ℕ} (hn : n < maxLeases.toNat) (hlast : first.addr4.toNat + n = 256) :
    ¬KeepsOffer (dhcpserverStart serverIf first maxLeases)
      ((List.range n).map fun k => .received (joinRequest first k)) (joinDiscover n)
      (joinRequest first n) (clientHwaddr n) (.htonl (first.ntohl + n)) := by
  intro hkeeps
  have hrequest := sentBy_clientPacket 6 (clientHwaddr n) typeRequest
    (requestOption (.htonl (first.ntohl + n))) 0
  have hasks := asksFor_clientPacket 6 (clientHwaddr n) typeRequest (.htonl (first.ntohl + n)) 0
  have htimes : Chronological 0 (((List.range n).map fun k => .received (joinRequest first k)) ++
      [.received (joinDiscover n), .received (joinRequest first n)]) := by
    refine chronological_of_sent (List.forall_mem_append.mpr ⟨fun e he => ?_, fun e he => ?_⟩)
    · obtain ⟨k, -, rfl⟩ := List.mem_map.mp he
      exact ⟨_, rfl⟩
    · simp only [List.mem_cons, List.not_mem_nil, or_false] at he
      rcases he with rfl | rfl <;> exact ⟨_, rfl⟩
  have hoffers := filled_offers serverIf first maxLeases hn
  rw [KeepsOffer, run_filled serverIf first maxLeases hn.le hlast.le] at hkeeps
  have htaken := hkeeps htimes (sentBy_clientPacket ..) hrequest hasks
    (by rw [hoffers]; exact (sends_offer_iff ..).mpr ⟨rfl, rfl⟩)
  have hack := htaken.1
  rw [hoffers, joinRequest, hrequest.task_refused (by decide) hasks
    (expireLeases_filled serverIf first maxLeases n).symm
    (slotOfAddr_carry (s := filled serverIf first maxLeases n) ⟨n, hn⟩ hlast.ge),
    sends_nak_iff] at hack
  exact absurd hack.1 (by decide)

/-- Every offer of a server can be taken up exactly when its whole range lies within
the last octet of the first address. -/
theorem offers_taken_up_iff :
    (∀ events discover request hwaddr a,
      KeepsOffer (dhcpserverStart serverIf first maxLeases) events discover request hwaddr a) ↔
    first.addr4.toNat + maxLeases.toNat ≤ 256 := by
  constructor
  · intro hkeeps
    by_contra hover
    have hfirst := first.addr4.toNat_lt
    obtain ⟨n, hlast⟩ : ∃ n, first.addr4.toNat + n = 256 := ⟨256 - first.addr4.toNat, by omega⟩
    exact refused_offer serverIf first maxLeases (by omega) hlast (hkeeps _ _ _ _ _)
  · intro hrange events discover request hwaddr a _ hdiscover hrequest hasks hoffer
    obtain ⟨hmax, hfirst⟩ := run_range serverIf first maxLeases events
    obtain ⟨i, haddr, hfound, hstate⟩ := outcome_offer (outcome_of_sends hoffer) hoffer
    refine (takenUp_iff hrequest hdiscover.hwaddr hasks haddr
      (hdiscover.hwaddr ▸ hfound) hstate).mpr ?_
    have hi : (i : ℕ) < (run step (dhcpserverStart serverIf first maxLeases) events).maxLeases.toNat :=
      i.isLt
    rw [hmax] at hi
    rw [hfirst]
    omega

end Configuration

/-- Ten leases from 192.168.4.250 on: the client that comes seventh is offered
192.168.5.0, asks for it and is refused. -/
theorem offer_past_last_octet_refused :
    ¬KeepsOffer (dhcpserverStart ⟨⟨192, 168, 4, 1⟩, ⟨255, 255, 255, 0⟩⟩ ⟨192, 168, 4, 250⟩ 10)
      ((List.range 6).map fun k => .received (joinRequest ⟨192, 168, 4, 250⟩ k)) (joinDiscover 6)
      (joinRequest ⟨192, 168, 4, 250⟩ 6) (clientHwaddr 6) ⟨192, 168, 5, 0⟩ := by
  have haddr : Ip4Addr.htonl (Ip4Addr.ntohl ⟨192, 168, 4, 250⟩ + 6) = ⟨192, 168, 5, 0⟩ := by decide
  rw [← haddr]
  exact refused_offer _ _ _ (by decide) (by decide)

end EspOpenRtos.DhcpServer
