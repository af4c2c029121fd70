/-
# What a REQUEST is answered from

A REQUEST names the address it asks for in an option. One without that option is
meant to be answered from `ciaddr`, but the handler decides this from a variable that
nothing has written: with a zero in its stack slot the address of the message counts,
with anything else the client is refused. The answer is a function of the message and
the lease table exactly if both ways end in the same refusal.
-/

import EspOpenRtos.DhcpServer.Leases

namespace EspOpenRtos.DhcpServer

variable (s : ServerState) (msg : DhcpMsg)

/-- The handler looks at the message at all. -/
structure Handled : Prop where
  htype : msg.htype = hwtypeEthernet
  hlen : msg.hlen.toNat ≤ netifMaxHwaddrLen

/-- An active lease that a client with this message must not take over. -/
def Taken (i : s.Slot) : Prop :=
  ((s.leases i).active && !(s.leases i).matches msg msg.hlen.toNat) = true

/-- A REQUEST without option 50 whose `ciaddr` the server could lease to the client. -/
structure AsksByCiaddr : Prop extends Handled msg where
  noOption : findDhcpOption optionRequestedIp 4 msg.options = none
  free : ∃ i, s.slotOfAddr msg.ciaddr = some i ∧ ¬Taken s msg i

/-- A REQUEST without option 50 of a client that renews its active lease. -/
structure Renewing (i : s.Slot) : Prop where
  htype : msg.htype = hwtypeEthernet
  hlen : msg.hlen = 6
  noOption : findDhcpOption optionRequestedIp 4 msg.options = none
  slot : s.slotOfAddr msg.ciaddr = some i
  active : (s.leases i).active = true
  hwaddr : (s.leases i).hwaddr = msg.hwaddr

/-- The outcome of a REQUEST does not depend on what the stack held, and a client that
renews its lease gets an ACK for its address. -/
structure AnsweredFromMessage (now : UInt32) : Prop where
  same : ∀ garbage garbage', s.handleDhcpRequest msg garbage now =
    s.handleDhcpRequest msg garbage' now
  renewed : ∀ i, Renewing s msg i → ∀ garbage,
    Sends (s.handleDhcpRequest msg garbage now).2 typeAck msg.ciaddr

variable {s msg} {garbage : Ip4Addr} {now : UInt32}

/-! ## The outcomes -/

section Outcomes

theorem handleDhcpRequest_of_not_handled (h : ¬Handled msg) :
    s.handleDhcpRequest msg garbage now = (s, none) := by
  unfold ServerState.handleDhcpRequest
  by_cases htype : msg.htype = hwtypeEthernet
  · have hlen : msg.hlen.toNat > netifMaxHwaddrLen :=
      Nat.lt_of_not_le fun hle => h ⟨htype, hle⟩
    rw [if_neg (not_not.mpr htype), if_pos hlen]
  · rw [if_pos htype]

/-- A REQUEST for an address that the server cannot lease to the client is refused. -/
theorem handleDhcpRequest_refused (h : Handled msg)
    (hip : ∀ ip, ServerState.requestedIp msg garbage = some ip →
      ∀ i, s.slotOfAddr ip = some i → Taken s msg i) :
    s.handleDhcpRequest msg garbage now = (s, some (s.sendDhcpNak msg)) := by
  unfold ServerState.handleDhcpRequest
  rw [if_neg (not_not.mpr h.htype), if_neg (Nat.not_lt.mpr h.hlen)]
  cases hrequested : ServerState.requestedIp msg garbage with
  | none => rfl
  | some ip =>
    dsimp only
    cases hslot : s.slotOfAddr ip with
    | none => rfl
    | some i => exact if_pos (hip ip hrequested i hslot)

theorem handleDhcpRequest_granted (h : Handled msg) {ip : Ip4Addr} {i : s.Slot}
    (hip : ServerState.requestedIp msg garbage = some ip) (hslot : s.slotOfAddr ip = some i)
    (hfree : ¬Taken s msg i) :
    (s.handleDhcpRequest msg garbage now).2 = some (msg.reply ip s.ackOptions) := by
  unfold ServerState.handleDhcpRequest
  rw [if_neg (not_not.mpr h.htype), if_neg (Nat.not_lt.mpr h.hlen), hip]
  dsimp only
  rw [hslot]
  dsimp only
  rw [Taken] at hfree
  rw [if_neg hfree]

end Outcomes

/-! ## Without option 50 -/

section NoOption

theorem requestedIp_of_noOption (h : findDhcpOption optionRequestedIp 4 msg.options = none) :
    ServerState.requestedIp msg garbage = if garbage = .any then some msg.ciaddr else none := by
  rw [ServerState.requestedIp, h]

/-- The client is refused whenever the stack slot was not zero. -/
theorem refused_of_garbage (hhandled : Handled msg)
    (hoption : findDhcpOption optionRequestedIp 4 msg.options = none) (hne : garbage ≠ .any) :
    s.handleDhcpRequest msg garbage now = (s, some (s.sendDhcpNak msg)) := by
  refine handleDhcpRequest_refused hhandled fun ip hip => ?_
  rw [requestedIp_of_noOption hoption, if_neg hne] at hip
  nomatch hip

theorem AsksByCiaddr.acked (h : AsksByCiaddr s msg) :
    Sends (s.handleDhcpRequest msg .any now).2 typeAck msg.ciaddr := by
  obtain ⟨i, hslot, hfree⟩ := h.free
  have hip : ServerState.requestedIp msg .any = some msg.ciaddr := by
    rw [requestedIp_of_noOption h.noOption, if_pos rfl]
  rw [handleDhcpRequest_granted h.toHandled hip hslot hfree, sends_ack_iff]
  exact ⟨rfl, rfl⟩

theorem not_acked_of_garbage (hhandled : Handled msg)
    (hoption : findDhcpOption optionRequestedIp 4 msg.options = none) (hne : garbage ≠ .any)
    (ip : Ip4Addr) : ¬Sends (s.handleDhcpRequest msg garbage now).2 typeAck ip := by
  rw [refused_of_garbage hhandled hoption hne, sends_nak_iff]
  exact fun h => absurd h.1 (by decide)

theorem Renewing.asksByCiaddr {i : s.Slot} (h : Renewing s msg i) : AsksByCiaddr s msg where
  htype := h.htype
  hlen := by rw [h.hlen]; decide
  noOption := h.noOption
  free := by
    refine ⟨i, h.slot, fun htaken => ?_⟩
    have hmatches : (s.leases i).matches msg msg.hlen.toNat = true :=
      decide_eq_true fun _ _ => congrFun h.hwaddr _
    rw [Taken, hmatches, Bool.not_true, Bool.and_false] at htaken
    nomatch htaken

end NoOption

/-- The outcome of a REQUEST follows from message, table and time exactly if the server
does not need the address in `ciaddr`. -/
theorem answered_from_message_iff (s : ServerState) (msg : DhcpMsg) (now : UInt32) :
    AnsweredFromMessage s msg now ↔ ¬AsksByCiaddr s msg := by
  constructor
  · intro h hasks
    -- the two values of the variable lead to an ACK and to a NAK
    have hacked : Sends (s.handleDhcpRequest msg .any now).2 typeAck msg.ciaddr := hasks.acked
    rw [h.same .any ⟨1, 0, 0, 0⟩] at hacked
    exact not_acked_of_garbage hasks.toHandled hasks.noOption (by decide) _ hacked
  · intro hnot
    refine ⟨fun garbage garbage' => ?_, fun i hrenewing => absurd hrenewing.asksByCiaddr hnot⟩
    by_cases hhandled : Handled msg
    · cases hoption : findDhcpOption optionRequestedIp 4 msg.options with
      | some data =>
        simp only [ServerState.handleDhcpRequest, ServerState.requestedIp, hoption]
      | none =>
        have hrefused (garbage : Ip4Addr) :
            s.handleDhcpRequest msg garbage now = (s, some (s.sendDhcpNak msg)) := by
          refine handleDhcpRequest_refused hhandled fun ip hip i hslot => ?_
          rw [requestedIp_of_noOption hoption] at hip
          split at hip
          · cases hip
            by_contra hfree
            exact hnot ⟨hhandled, hoption, i, hslot, hfree⟩
          · cases hip
        rw [hrefused, hrefused]
    · rw [handleDhcpRequest_of_not_handled hhandled, handleDhcpRequest_of_not_handled hhandled]

/-- A server whose only address is leased. -/
def leasedServer : ServerState :=
  ⟨1, ⟨192, 168, 4, 2⟩, ⟨⟨192, 168, 4, 1⟩, ⟨255, 255, 255, 0⟩⟩, .any, .any,
    fun _ => ⟨fun _ => 0, true, 1⟩⟩

/-- The client that holds the lease renews it. -/
def renewalMsg : DhcpMsg where
  op := 1
  htype := hwtypeEthernet
  hlen := 6
  ciaddr := ⟨192, 168, 4, 2⟩
  yiaddr := .any
  chaddr _ := 0
  options := DhcpMsg.fillOptions (addDhcpOptionByte [] optionMessageType typeRequest ++ [optionEnd])
  options_length := DhcpMsg.length_fillOptions _

/-- A renewal that one run acknowledges is refused in another that differs only in what
the stack held. -/
theorem renewal_depends_on_stack : Renewing leasedServer renewalMsg ⟨0, by decide⟩ ∧
    Sends (leasedServer.handleDhcpRequest renewalMsg .any 0).2 typeAck ⟨192, 168, 4, 2⟩ ∧
    Sends (leasedServer.handleDhcpRequest renewalMsg ⟨1, 0, 0, 0⟩ 0).2 typeNak .any := by
  exact ⟨⟨rfl, rfl, by decide +kernel, by decide, rfl, rfl⟩, by decide +kernel, by decide +kernel⟩

end EspOpenRtos.DhcpServer
