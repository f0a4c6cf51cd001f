import Ebabf.Collectors.FlowRuns

/-!
# Both directions of a conversation

A packet and its reply exchange their ends. The table tells the local end by the source address
alone, so the two are one flow where one end is local, and two outbound packets where both are.
-/

namespace Ebabf

open Py (Str str)

def Addresses.swap (a : Addresses) : Addresses := ⟨a.dst, a.src⟩

def Ports.swap (ports : Ports) : Ports := ⟨ports.dport, ports.sport⟩

namespace Packet

/-- A reply has the same protocol, and the addresses and ports exchanged. -/
structure Answers (reply packet : Packet) : Prop where
  network : reply.network = packet.network.map Addresses.swap
  transport : reply.transport = packet.transport.map fun t => (t.1.swap, t.2)

def SourceLocal (localAddresses : List Str) (packet : Packet) : Prop :=
  ∃ a ∈ packet.network, a.src ∈ localAddresses

def DestinationLocal (localAddresses : List Str) (packet : Packet) : Prop :=
  ∃ a ∈ packet.network, a.dst ∈ localAddresses

/-- Exchanging the ends and the direction changes nothing. -/
theorem flowKey_swap (a : Addresses) (ports : Ports) (protocol : Str) (outbound : Bool) :
    flowKey a.swap ports.swap protocol (!outbound) = flowKey a ports protocol outbound := by
  cases outbound <;> rfl

end Packet

/-- Two packets of one flow, the one going out and the other coming in. -/
def Sighting.Joins (s s' : Sighting) : Prop := s'.key = s.key ∧ s'.outbound = !s.outbound

/-- The table sees the packet and its reply as one flow, in both directions. -/
def Packet.JoinedBy (localAddresses : List Str) (packet reply : Packet) : Prop :=
  ∀ now now', ∃ s s', packet.sighting localAddresses now = some s ∧
    reply.sighting localAddresses now' = some s' ∧ s.Joins s'

/-- A packet with a local end and its reply are one flow exactly when the other end is not local
too. -/
theorem joinedBy_iff {localAddresses : List Str} {packet reply : Packet}
    (htraffic : packet.IsFlowTraffic) (hanswers : reply.Answers packet)
    (hlocal : packet.SourceLocal localAddresses ∨ packet.DestinationLocal localAddresses) :
    packet.JoinedBy localAddresses reply ↔
      ¬(packet.SourceLocal localAddresses ∧ packet.DestinationLocal localAddresses) := by
  obtain ⟨a, ports, protocol, hnetwork, htransport⟩ := Packet.isFlowTraffic_iff.mp htraffic
  have hnetwork' : reply.network = some a.swap := by rw [hanswers.network, hnetwork]; rfl
  have htransport' : reply.transport = some (ports.swap, protocol) := by
    rw [hanswers.transport, htransport]
    rfl
  simp only [Packet.SourceLocal, Packet.DestinationLocal, hnetwork, Option.mem_some_iff,
    exists_eq_left'] at hlocal ⊢
  constructor
  · rintro hjoined ⟨hsrc, hdst⟩
    obtain ⟨s, s', hs, hs', -, hdirection⟩ := hjoined 0.0 0.0
    cases hs.symm.trans (Packet.sighting_eq hnetwork htransport localAddresses 0.0)
    cases hs'.symm.trans (Packet.sighting_eq hnetwork' htransport' localAddresses 0.0)
    -- both ends are local, so both packets go out
    have hdst' : a.swap.src ∈ localAddresses := hdst
    rw [decide_eq_true hsrc, decide_eq_true hdst'] at hdirection
    cases hdirection
  · intro hone now now'
    have hdirection : decide (a.swap.src ∈ localAddresses) = !decide (a.src ∈ localAddresses) := by
      rw [← decide_not, decide_eq_decide]
      constructor
      · intro hdst hsrc
        exact hone ⟨hsrc, hdst⟩
      · exact hlocal.resolve_left
    refine ⟨_, _, Packet.sighting_eq hnetwork htransport localAddresses now,
      Packet.sighting_eq hnetwork' htransport' localAddresses now', ?_, hdirection⟩
    rw [hdirection, Packet.flowKey_swap]

theorem flows_of_joins {localAddresses : List Str} {packet reply : Packet} {now now' : Float}
    {s s' : Sighting} (hs : packet.sighting localAddresses now = some s)
    (hs' : reply.sighting localAddresses now' = some s') (h : s.Joins s') (num : Numerics) :
    ∃ state, (((FlowTable.init localAddresses).observe num packet now).observe num reply
        now').flows = [(s.key, state)] ∧ state.packetsOut = 1 ∧ state.packetsIn = 1 := by
  have hinit : (FlowTable.init localAddresses).flows = accumulated num [] := rfl
  have hboth := flows_observe reply now' (flows_observe packet now hinit)
  rw [localAddresses_observe] at hboth
  simp only [FlowTable.init, hs, hs', Option.toList_some, List.nil_append,
    List.singleton_append] at hboth
  refine ⟨FlowState.ofGroup num [s, s'], ?_, ?_, ?_⟩
  · refine hboth.trans ?_
    rw [accumulated, Grouping.accumulate_eq_groupBy _ (FlowState.computes_observed num)]
    simp [Grouping.groupBy, Grouping.keysOf, Grouping.group, h.1]
  · cases hout : s.outbound <;> simp [FlowState.ofGroup, h.2, hout]
  · cases hout : s.outbound <;> simp [FlowState.ofGroup, h.2, hout]

/-- A packet of a connection to the service on port 22. -/
def clientPacket (src dst : Str) : Packet := plainPacket src 40000 dst 22

/-- A packet of the service's. -/
def serverPacket (src dst : Str) : Packet := plainPacket src 22 dst 40000

theorem answers_serverPacket (src dst : Str) :
    (serverPacket dst src).Answers (clientPacket src dst) := ⟨rfl, rfl⟩

/-- A connection to another host is one flow. -/
theorem joinedBy_iff_remote :
    (clientPacket (str "fd::1") (str "fd::2")).JoinedBy [str "fd::1"]
        (serverPacket (str "fd::2") (str "fd::1")) ↔
      ¬((clientPacket (str "fd::1") (str "fd::2")).SourceLocal [str "fd::1"] ∧
        (clientPacket (str "fd::1") (str "fd::2")).DestinationLocal [str "fd::1"]) :=
  joinedBy_iff ⟨.inr rfl, .inl rfl⟩ (answers_serverPacket _ _)
    (.inl ⟨_, rfl, List.mem_singleton_self _⟩)

/-- A connection over the loopback interface is two flows, both going out. -/
theorem not_joinedBy_loopback : ¬∀ (localAddresses : List Str) (packet reply : Packet),
    packet.IsFlowTraffic → reply.Answers packet →
      packet.SourceLocal localAddresses ∨ packet.DestinationLocal localAddresses →
        packet.JoinedBy localAddresses reply := by
  intro h
  obtain ⟨s, s', hs, hs', -, hdirection⟩ := h [str "::1"] (clientPacket (str "::1") (str "::1"))
    (serverPacket (str "::1") (str "::1")) ⟨.inr rfl, .inl rfl⟩ (answers_serverPacket _ _)
    (.inl ⟨_, rfl, List.mem_singleton_self _⟩) 0.0 0.0
  cases hs
  cases hs'
  exact absurd hdirection (by decide)

end Ebabf
