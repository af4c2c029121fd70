/-
# One lease for each client

A client is meant to have one lease at most, the one that is offered to it again
and that its RELEASE ends. Two things stand in the way. A REQUEST activates any free
slot, whatever other lease its client has. And an inactive slot keeps the address it
was last leased to: the search for a client's slot stops there, unless it is the
first inactive one, before it comes to the lease. Without them the rule holds, and
at a step with one of them it fails.
-/

import EspOpenRtos.DhcpServer.Offers

namespace EspOpenRtos.DhcpServer

open Math.Runs

namespace ServerState

variable (s : ServerState)

/-- The slot is leased to a client. -/
def LeasedTo (i : s.Slot) (hwaddr : Hwaddr) : Prop :=
  (s.leases i).active = true ∧ (s.leases i).hwaddr = hwaddr

/-- No two active slots hold the same hardware address. -/
def OneLease : Prop := ∀ i j hwaddr, s.LeasedTo i hwaddr → s.LeasedTo j hwaddr → i = j

/-- The slot whose address a REQUEST names. -/
def namedSlot (r : Reception) : Option s.Slot :=
  (requestedIp r.msg r.garbage).bind s.slotOfAddr

/-- In front of a slot there are two inactive ones, and the second still carries the
hardware address. -/
def Shadowed (i : s.Slot) (hwaddr : Hwaddr) : Prop :=
  ∃ j k : s.Slot, j < k ∧ k < i ∧ (s.leases j).active = false ∧ (s.leases k).active = false ∧
    (s.leases k).hwaddr = hwaddr

end ServerState

/-! ## Finding a lease -/

section Finding

variable {s : ServerState} {hwaddr : Hwaddr} {i : s.Slot}

/-- The search comes to the lease if it has met no match behind an inactive slot. -/
theorem findLeaseSlotFrom_eq_some_iff (hleased : s.LeasedTo i hwaddr) (empty : Option s.Slot)
    {front rest : List s.Slot} (hi : i ∉ front) (hone : ∀ k ∈ front, ¬s.LeasedTo k hwaddr) :
    s.findLeaseSlotFrom hwaddr empty (front ++ i :: rest) = some i ↔
      (empty = none ∨ ∀ k ∈ front, hwaddr ≠ (s.leases k).hwaddr) ∧
        front.Pairwise fun j k => (s.leases j).active = true ∨ hwaddr ≠ (s.leases k).hwaddr := by
  induction front generalizing empty with
  | nil =>
    rw [List.nil_append, ServerState.findLeaseSlotFrom]
    simp [hleased.1, hleased.2]
  | cons j front ih =>
    obtain ⟨hij, hi⟩ := not_or.mp (mt List.mem_cons.mpr hi)
    obtain ⟨hj, hone⟩ := List.forall_mem_cons.mp hone
    rw [List.cons_append, ServerState.findLeaseSlotFrom, List.pairwise_cons,
      List.forall_mem_cons]
    by_cases hfree : !(s.leases j).active && empty.isNone
    · rw [if_pos hfree, ih _ hi hone]
      simp only [Bool.and_eq_true, Bool.not_eq_true', Option.isNone_iff_eq_none] at hfree
      simp [hfree.1, hfree.2]
    have hcase : empty = none → (s.leases j).active = true := by
      rintro rfl
      simpa using hfree
    rw [if_neg hfree]
    by_cases hmatch : hwaddr = (s.leases j).hwaddr
    · -- a match here ends the search at another slot
      rw [if_pos hmatch]
      refine iff_of_false (fun heq => hij (Option.some.inj heq).symm) ?_
      rintro ⟨hempty | ⟨hne, -⟩, -⟩
      · exact hj ⟨hcase hempty, hmatch.symm⟩
      · exact hne hmatch
    · rw [if_neg hmatch, ih _ hi hone]
      constructor
      · rintro ⟨hempty | hfront, hpairs⟩
        · exact ⟨.inl hempty, fun k _ => .inl (hcase hempty), hpairs⟩
        · exact ⟨.inr ⟨hmatch, hfront⟩, fun k hk => .inr (hfront k hk), hpairs⟩
      · rintro ⟨hempty | ⟨-, hfront⟩, -, hpairs⟩
        · exact ⟨.inl hempty, hpairs⟩
        · exact ⟨.inr hfront, hpairs⟩

/-- A client's lease is found unless an inactive slot hides it. -/
theorem findLeaseSlot_eq_some_iff (hone : s.OneLease) (hleased : s.LeasedTo i hwaddr) :
    s.findLeaseSlot hwaddr = some i ↔ ¬s.Shadowed i hwaddr := by
  have hlen : (i : ℕ) < (List.finRange s.maxLeases.toNat).length := by
    rw [List.length_finRange]
    exact i.isLt
  have hsplit : List.finRange s.maxLeases.toNat =
      (List.finRange _).take i ++ i :: (List.finRange _).drop (i + 1) := by
    conv_lhs => rw [← List.take_append_drop i (List.finRange _), List.drop_eq_getElem_cons hlen]
    simp
  have hfront {k : s.Slot} (hk : k ∈ (List.finRange _).take i) : k < i := by
    obtain ⟨n, hn, rfl⟩ := List.mem_iff_getElem.mp hk
    rw [List.length_take] at hn
    simp only [List.getElem_take, List.getElem_finRange, Fin.lt_def, Fin.val_cast]
    omega
  rw [ServerState.findLeaseSlot, hsplit, findLeaseSlotFrom_eq_some_iff hleased none
    (fun hi => (hfront hi).ne rfl) fun k hk hk' => (hfront hk).ne (hone _ _ _ hk' hleased)]
  simp only [true_or, true_and]
  constructor
  · rintro hpairs ⟨j, k, hjk, hki, hj, -, hk⟩
    have hlength {k : s.Slot} (hk : k < i) :
        (k : ℕ) < ((List.finRange s.maxLeases.toNat).take i).length := by
      rw [List.length_take, List.length_finRange]
      exact lt_min hk k.isLt
    have hpair := List.pairwise_iff_getElem.mp hpairs j k (hlength (hjk.trans hki)) (hlength hki)
      hjk
    simp only [List.getElem_take, List.getElem_finRange, Fin.cast_mk, Fin.eta] at hpair
    rcases hpair with hactive | hne
    · exact Bool.false_ne_true (hj.symm.trans hactive)
    · exact hne hk.symm
  · intro hclear
    refine List.Pairwise.imp_of_mem ?_ ((List.pairwise_lt_finRange _).sublist (List.take_sublist _ _))
    intro j k hj hk hjk
    by_contra hpair
    obtain ⟨hactive, hmatch⟩ := not_or.mp hpair
    have hinactive : (s.leases k).active = false := Bool.eq_false_iff.mpr fun hk' =>
      (hfront hk).ne (hone _ _ _ ⟨hk', (not_not.mp hmatch).symm⟩ hleased)
    exact hclear ⟨j, k, hjk, hfront hk, Bool.eq_false_iff.mpr hactive, hinactive,
      (not_not.mp hmatch).symm⟩

end Finding

/-! ## One message -/

section Messages

variable {s t : ServerState} {r : Reception} {hwaddr : Hwaddr}

/-- The table after a REQUEST: the slot it names is the client's, unless the slot is
someone else's. -/
theorem Reception.SentBy.request_table (h : r.SentBy 6 hwaddr typeRequest)
    (ht : t = s.expireLeases (.ofNat r.arrival)) :
    (dhcpserverTask s r).1 = match t.namedSlot r with
      | none => t
      | some i =>
        if (t.leases i).active = true ∧ (t.leases i).hwaddr ≠ hwaddr then t
        else t.setLease i (ServerState.grantedLease (t.leases i) r.msg (.ofNat r.handled)) := by
  have hlen : r.msg.hlen.toNat = netifMaxHwaddrLen := by
    rw [h.hlen]
    rfl
  have hmatches (i : t.Slot) : (t.leases i).matches r.msg r.msg.hlen.toNat = true ↔
      (t.leases i).hwaddr = hwaddr := by
    rw [← h.hwaddr]
    exact ⟨hwaddr_of_matches hlen.ge, fun heq => decide_eq_true fun j _ => congrFun heq j⟩
  subst ht
  rw [h.task, ServerState.handle, h.messageType]
  simp only [if_neg (show typeRequest ≠ typeDiscover by decide), if_true]
  rw [ServerState.handleDhcpRequest, if_neg (not_not.mpr h.htype), if_neg (by omega),
    ServerState.namedSlot]
  cases ServerState.requestedIp r.msg r.garbage with
  | none => rfl
  | some ip =>
    dsimp only [Option.bind]
    cases (s.expireLeases (.ofNat r.arrival)).slotOfAddr ip with
    | none => rfl
    | some i =>
      simp only [Bool.and_eq_true, Bool.not_eq_true', Bool.eq_false_iff, ne_eq, hmatches]
      split <;> rfl

/-- The table after a RELEASE. -/
theorem Reception.SentBy.release_table (h : r.SentBy 6 hwaddr typeRelease)
    (ht : t = s.expireLeases (.ofNat r.arrival)) :
    (dhcpserverTask s r).1 = match t.findLeaseSlot hwaddr with
      | none => t
      | some i => t.setLease i { t.leases i with active := false, expires := 0 } := by
  subst ht
  rw [h.task, ServerState.handle, h.messageType]
  simp only [if_neg (show typeRelease ≠ typeDiscover by decide),
    if_neg (show typeRelease ≠ typeRequest by decide), if_true]
  rewrite [ServerState.handleDhcpRelease, h.hwaddr]
  rfl

theorem LeasedTo.of_expireLeases {now : UInt32} {i : s.Slot}
    (h : (s.expireLeases now).LeasedTo i hwaddr) : s.LeasedTo i hwaddr :=
  ⟨active_of_expireLease h.1, (expireLease_hwaddr ..).symm.trans h.2⟩

theorem OneLease.expireLeases (h : s.OneLease) (now : UInt32) : (s.expireLeases now).OneLease :=
  fun i j hwaddr hi hj =>
    h i j hwaddr (LeasedTo.of_expireLeases hi) (LeasedTo.of_expireLeases hj)

/-- Ending a lease keeps the others. -/
theorem leasedTo_release_iff {i k : t.Slot} {lease : Lease} (hfree : lease.active = false) :
    (t.setLease i lease).LeasedTo k hwaddr ↔ k ≠ i ∧ t.LeasedTo k hwaddr := by
  by_cases hk : k = i
  · subst hk
    exact iff_of_false (fun h => by simp [ServerState.LeasedTo, hfree] at h) fun h => h.1 rfl
  · unfold ServerState.LeasedTo
    rw [setLease_of_ne hk]
    exact (and_iff_right hk).symm

/-- Granting a slot keeps the leases of all others. -/
theorem leasedTo_grant_iff {i k : t.Slot} {lease : Lease} {client : Hwaddr}
    (hactive : lease.active = true) (hclient : lease.hwaddr = client) :
    (t.setLease i lease).LeasedTo k hwaddr ↔
      (k = i ∧ hwaddr = client) ∨ (k ≠ i ∧ t.LeasedTo k hwaddr) := by
  by_cases hk : k = i
  · subst hk
    unfold ServerState.LeasedTo
    rw [setLease_self, hclient]
    simp [hactive, eq_comm (a := client)]
  · unfold ServerState.LeasedTo
    rw [setLease_of_ne hk]
    simp [hk]

/-- A client keeps to one lease if it has no other than the one it is granted. -/
theorem oneLease_grant_iff (hone : t.OneLease) {i : t.Slot} {lease : Lease}
    (hactive : lease.active = true) (hclient : lease.hwaddr = hwaddr) :
    (t.setLease i lease).OneLease ↔ ∀ j, t.LeasedTo j hwaddr → j = i := by
  constructor
  · intro h j hj
    by_contra hne
    exact hne (h j i hwaddr ((leasedTo_grant_iff hactive hclient).mpr (.inr ⟨hne, hj⟩))
      ((leasedTo_grant_iff hactive hclient).mpr (.inl ⟨rfl, rfl⟩)))
  · intro h j k client hj hk
    rcases (leasedTo_grant_iff hactive hclient).mp hj with ⟨hji, hown⟩ | ⟨-, hj⟩ <;>
      rcases (leasedTo_grant_iff hactive hclient).mp hk with ⟨hki, hown'⟩ | ⟨-, hk⟩
    · exact hji.trans hki.symm
    · exact hji.trans (h k (hown ▸ hk)).symm
    · exact (h j (hown' ▸ hj)).trans hki.symm
    · exact hone j k client hj hk

end Messages

/-! ## Whole histories -/

/-- What the rule says of one packet: no two leases of one client afterwards, a
DISCOVER is answered with the client's lease, and a RELEASE ends it. -/
structure KeepsRule (s : ServerState) (r : Reception) : Prop where
  oneLease : (dhcpserverTask s r).1.OneLease
  discover : ∀ hwaddr, r.SentBy 6 hwaddr typeDiscover →
    ∀ i, (s.expireLeases (.ofNat r.arrival)).LeasedTo i hwaddr →
      Sends (dhcpserverTask s r).2 typeOffer ((s.expireLeases (.ofNat r.arrival)).slotAddr i)
  release : ∀ hwaddr, r.SentBy 6 hwaddr typeRelease → ∀ i, ¬(dhcpserverTask s r).1.LeasedTo i hwaddr

/-- No client with a lease asks for a free slot other than its own, and none with a
lease that an inactive slot hides looks for a server or releases it. The leases are
those that have not run out at the arrival of the packet. -/
structure Modest (t : ServerState) (r : Reception) : Prop where
  request : ∀ hwaddr, r.SentBy 6 hwaddr typeRequest → ∀ i j, t.namedSlot r = some i →
    (t.leases i).active = false → t.LeasedTo j hwaddr → j = i
  discover : ∀ hwaddr, r.SentBy 6 hwaddr typeDiscover → ∀ i, t.LeasedTo i hwaddr →
    ¬t.Shadowed i hwaddr
  release : ∀ hwaddr, r.SentBy 6 hwaddr typeRelease → ∀ i, t.LeasedTo i hwaddr →
    ¬t.Shadowed i hwaddr

/-- A DISCOVER, REQUEST or RELEASE of an Ethernet client with a full address. -/
def Reception.FromClient (r : Reception) : Prop :=
  ∃ hwaddr type, r.SentBy 6 hwaddr type ∧
    (type = typeDiscover ∨ type = typeRequest ∨ type = typeRelease)

section Histories

variable {s : ServerState} {r : Reception} {hwaddr : Hwaddr}

theorem Reception.SentBy.unique {other : Hwaddr} {type type' : UInt8}
    (h : r.SentBy 6 hwaddr type) (h' : r.SentBy 6 other type') : other = hwaddr ∧ type' = type :=
  ⟨h'.hwaddr.symm.trans h.hwaddr,
    Option.some.inj (h'.messageType.symm.trans h.messageType)⟩

variable (hone : s.OneLease)
include hone

theorem keepsRule_discover_iff (h : r.SentBy 6 hwaddr typeDiscover) :
    KeepsRule s r ↔ Modest (s.expireLeases (.ofNat r.arrival)) r := by
  obtain ⟨htable, hreply⟩ := Prod.ext_iff.mp (h.task_discover (s := s) (by decide) rfl)
  have hone := OneLease.expireLeases hone (.ofNat r.arrival)
  have hoffer {i} (hleased : (s.expireLeases (.ofNat r.arrival)).LeasedTo i hwaddr) :
      Sends (dhcpserverTask s r).2 typeOffer ((s.expireLeases (.ofNat r.arrival)).slotAddr i) ↔
        ¬(s.expireLeases (.ofNat r.arrival)).Shadowed i hwaddr := by
    rw [← findLeaseSlot_eq_some_iff hone hleased, hreply]
    cases (s.expireLeases (.ofNat r.arrival)).findLeaseSlot hwaddr with
    | none => exact iff_of_false not_sends_none nofun
    | some k =>
      exact (sends_offer_iff ..).trans ⟨fun heq => congrArg some (slotAddr_inj heq.2).symm,
        fun heq => ⟨rfl, congrArg _ (Option.some.inj heq).symm⟩⟩
  constructor
  · refine fun hkeeps => ⟨fun other h' => ?_, fun other h' i hleased => ?_, fun other h' => ?_⟩
    · exact absurd (h.unique h').2 (by decide)
    · obtain ⟨rfl, -⟩ := h.unique h'
      exact (hoffer hleased).mp (hkeeps.discover _ h i hleased)
    · exact absurd (h.unique h').2 (by decide)
  · refine fun hmodest => ⟨htable ▸ hone, fun other h' i hleased => ?_, fun other h' => ?_⟩
    · obtain ⟨rfl, -⟩ := h.unique h'
      exact (hoffer hleased).mpr (hmodest.discover _ h i hleased)
    · exact absurd (h.unique h').2 (by decide)

theorem keepsRule_release_iff (h : r.SentBy 6 hwaddr typeRelease) :
    KeepsRule s r ↔ Modest (s.expireLeases (.ofNat r.arrival)) r := by
  have htable := h.release_table (s := s) rfl
  have hone := OneLease.expireLeases hone (.ofNat r.arrival)
  constructor
  · refine fun hkeeps => ⟨fun other h' => ?_, fun other h' => ?_, fun other h' i hleased => ?_⟩
    · exact absurd (h.unique h').2 (by decide)
    · exact absurd (h.unique h').2 (by decide)
    · obtain ⟨rfl, -⟩ := h.unique h'
      rw [← findLeaseSlot_eq_some_iff hone hleased]
      by_contra hfound
      have hended := hkeeps.release _ h
      rw [htable] at hended
      split at hended
      · exact hended i hleased
      case h_2 k hk =>
        exact hended i ((leasedTo_release_iff rfl).mpr
          ⟨fun hik => hfound (hik ▸ hk), hleased⟩)
  · refine fun hmodest => ⟨?_, fun other h' => ?_, fun other h' => ?_⟩
    · rw [htable]
      split
      · exact hone
      · intro i j client hi hj
        exact hone i j client ((leasedTo_release_iff rfl).mp hi).2
          ((leasedTo_release_iff rfl).mp hj).2
    · exact absurd (h.unique h').2 (by decide)
    · obtain ⟨rfl, -⟩ := h.unique h'
      have hfound {i} (hleased : (s.expireLeases (.ofNat r.arrival)).LeasedTo i other) :=
        (findLeaseSlot_eq_some_iff hone hleased).mpr (hmodest.release _ h i hleased)
      rw [htable]
      split
      case h_1 hnone => exact fun i hleased => nomatch hnone.symm.trans (hfound hleased)
      case h_2 k hk =>
        intro i hleased
        obtain ⟨hik, hleased⟩ := (leasedTo_release_iff rfl).mp hleased
        exact hik (Option.some.inj ((hfound hleased).symm.trans hk))

theorem keepsRule_request_iff (h : r.SentBy 6 hwaddr typeRequest) :
    KeepsRule s r ↔ Modest (s.expireLeases (.ofNat r.arrival)) r := by
  have htable := h.request_table (s := s) rfl
  have hone := OneLease.expireLeases hone (.ofNat r.arrival)
  have hclient (lease : Lease) :
      (ServerState.grantedLease lease r.msg (.ofNat r.handled)).hwaddr = hwaddr :=
    (copyHwaddr_full _ (by rw [h.hlen]; decide)).trans h.hwaddr
  constructor
  · refine fun hkeeps => ⟨fun other h' i j hnamed hfree => ?_, fun other h' => ?_,
      fun other h' => ?_⟩
    · obtain ⟨rfl, -⟩ := h.unique h'
      have hafter := hkeeps.oneLease
      rw [htable, hnamed] at hafter
      dsimp only at hafter
      rw [if_neg (fun hactive => Bool.false_ne_true (hfree.symm.trans hactive.1))] at hafter
      exact (oneLease_grant_iff hone rfl (hclient _)).mp hafter j
    · exact absurd (h.unique h').2 (by decide)
    · exact absurd (h.unique h').2 (by decide)
  · refine fun hmodest => ⟨?_, fun other h' => ?_, fun other h' => ?_⟩
    · rw [htable]
      split
      · exact hone
      case h_2 i hnamed =>
        split
        · exact hone
        case isFalse hopen =>
          refine (oneLease_grant_iff hone rfl (hclient _)).mpr fun j hj => ?_
          by_cases hactive : ((s.expireLeases (.ofNat r.arrival)).leases i).active = true
          · exact hone j i _ hj ⟨hactive, not_not.mp fun hne => hopen ⟨hactive, hne⟩⟩
          · exact hmodest.request _ h i j hnamed (Bool.eq_false_iff.mpr hactive) hj
    · exact absurd (h.unique h').2 (by decide)
    · exact absurd (h.unique h').2 (by decide)

theorem keepsRule_iff (h : r.FromClient) :
    KeepsRule s r ↔ Modest (s.expireLeases (.ofNat r.arrival)) r := by
  obtain ⟨hwaddr, type, h, rfl | rfl | rfl⟩ := h
  · exact keepsRule_discover_iff hone h
  · exact keepsRule_request_iff hone h
  · exact keepsRule_release_iff hone h

/-- One round of the task, for the table only. -/
def roundTable (s : ServerState) (r : Reception) : ServerState := (dhcpserverTask s r).1

/-- From any table that keeps the rule, a history of client messages keeps it at every
step exactly when every step is modest. -/
theorem along_keepsRule_iff {receptions : List Reception}
    (hclients : ∀ r ∈ receptions, r.FromClient) : Along roundTable KeepsRule s receptions ↔
      Along roundTable (fun s r => Modest (s.expireLeases (.ofNat r.arrival)) r) s receptions := by
  induction receptions generalizing s with
  | nil => rfl
  | cons r rest ih =>
    obtain ⟨hclient, hclients⟩ := List.forall_mem_cons.mp hclients
    have hstep := keepsRule_iff hone hclient
    exact ⟨fun h => ⟨hstep.mp h.1, (ih h.1.oneLease hclients).mp h.2⟩, fun h =>
      have hkeeps := hstep.mpr h.1
      ⟨hkeeps, (ih hkeeps.oneLease hclients).mpr h.2⟩⟩

end Histories

/-- A server that has been started keeps clients to one lease each, in a history of
DISCOVER, REQUEST and RELEASE messages, exactly when every message is modest. -/
theorem one_lease_iff (serverIf : Netif) (first : Ip4Addr) (maxLeases : UInt8)
    {receptions : List Reception} (hclients : ∀ r ∈ receptions, r.FromClient) :
    Along roundTable KeepsRule (dhcpserverStart serverIf first maxLeases) receptions ↔
      Along roundTable (fun s r => Modest (s.expireLeases (.ofNat r.arrival)) r)
        (dhcpserverStart serverIf first maxLeases) receptions :=
  along_keepsRule_iff (fun _ _ _ hi => absurd hi.1 Bool.false_ne_true) hclients

/-! ## A server with three addresses -/

section Small

def smallIf : Netif := ⟨⟨192, 168, 4, 1⟩, ⟨255, 255, 255, 0⟩⟩

/-- Any table of a server with three addresses. -/
def smallTable (leases : Fin 3 → Lease) : ServerState :=
  ⟨3, ⟨192, 168, 4, 2⟩, smallIf, .any, .any, leases⟩

def smallAddr (i : Fin 3) : Ip4Addr := ⟨192, 168, 4, 2 + .ofNat i⟩

/-- The packets of one client, all at tick 0. -/
def smallRequest (i : Fin 3) : Reception :=
  sent (clientPacket 6 (fun _ => 1) typeRequest (requestOption (smallAddr i))) 0

def smallDiscover : Reception := sent (clientPacket 6 (fun _ => 1) typeDiscover []) 0

def smallRelease : Reception := sent (clientPacket 6 (fun _ => 1) typeRelease []) 0

/-- A lease that is granted is offered again and then released. -/
theorem one_lease_small : Along roundTable KeepsRule (smallTable fun _ => .unused)
    [smallRequest 0, smallDiscover, smallRelease] := by
  have hrequest : (smallRequest 0).SentBy 6 (fun _ => 1) typeRequest := sentBy_clientPacket ..
  have hdiscover : smallDiscover.SentBy 6 (fun _ => 1) typeDiscover := sentBy_clientPacket ..
  have hrelease : smallRelease.SentBy 6 (fun _ => 1) typeRelease := sentBy_clientPacket ..
  have hclients : ∀ r ∈ [smallRequest 0, smallDiscover, smallRelease], r.FromClient := by
    simp only [List.forall_mem_cons]
    exact ⟨⟨_, _, hrequest, .inr (.inl rfl)⟩, ⟨_, _, hdiscover, .inl rfl⟩,
      ⟨_, _, hrelease, .inr (.inr rfl)⟩, nofun⟩
  -- nothing hides a lease in the first slot
  have hmodest {t : ServerState} (hfirst : ∀ i : t.Slot, (t.leases i).active = true → i.1 = 0)
      {r : Reception} (hrequest : ∀ hwaddr, ¬r.SentBy 6 hwaddr typeRequest) : Modest t r := by
    have hclear (hwaddr : Hwaddr) (i : t.Slot) (hleased : t.LeasedTo i hwaddr) :
        ¬t.Shadowed i hwaddr := by
      rintro ⟨-, k, -, hki, -⟩
      exact absurd (Fin.lt_def.mp hki) (by rw [hfirst i hleased.1]; exact Nat.not_lt_zero _)
    exact ⟨fun _ h => absurd h (hrequest _), fun _ _ => hclear _, fun _ _ => hclear _⟩
  refine (one_lease_iff smallIf ⟨192, 168, 4, 2⟩ 3 hclients).mpr ⟨?_, ?_, ?_, trivial⟩
  · exact ⟨fun _ _ _ _ _ _ hj => absurd (active_of_expireLease hj.1) Bool.false_ne_true,
      fun _ h => absurd (hrequest.unique h).2 (by decide),
      fun _ h => absurd (hrequest.unique h).2 (by decide)⟩
  · exact hmodest (by decide +kernel) fun _ h => absurd (hdiscover.unique h).2 (by decide)
  · exact hmodest (by decide +kernel) fun _ h => absurd (hrelease.unique h).2 (by decide)

/-- A client that asks for two addresses has two leases. -/
theorem second_lease_granted :
    ¬(run roundTable (smallTable fun _ => .unused) [smallRequest 0, smallRequest 1]).OneLease := by
  intro hone
  have hsame := hone ⟨0, by decide +kernel⟩ ⟨1, by decide +kernel⟩ (fun _ => 1)
    ⟨by decide +kernel, by decide +kernel⟩ ⟨by decide +kernel, by decide +kernel⟩
  exact absurd (congrArg Fin.val hsame) (by decide)

/-- A client that has released the second address and leased the third is offered the
second one. -/
theorem stale_slot_offered : Sends
    (dhcpserverTask (run roundTable (smallTable fun _ => .unused)
      [smallRequest 1, smallRelease, smallRequest 2]) smallDiscover).2 typeOffer (smallAddr 1) := by
  decide +kernel

end Small

end EspOpenRtos.DhcpServer
