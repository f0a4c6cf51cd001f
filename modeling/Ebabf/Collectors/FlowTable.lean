import Ebabf.Grouping
import Ebabf.Py.Dict
import Ebabf.Py.FloatOrder
import Ebabf.Py.Statistics
import Mathlib.Data.List.DropRight

/-!
# The flow table

What the capture reads of a packet, the flow it belongs to seen from this host, and the counters
kept for each flow until the next drain. A drained table is the grouping of the packets since the
drain before it; the start times kept for the beaconing measure outlive a drain.
-/

namespace Ebabf

open Py (Str str Exc Dict maxFloat maxWith)

/-- Where results depend on the platform's mathematics library and on the interpreter's version:
`math.log2` and the order in which `sum` adds floats. -/
structure Numerics where
  log2 : Float → Float
  sum : List Float → Float

/-- `Counter(text).values()` -/
def characterCounts (text : Str) : List ℕ :=
  (Grouping.accumulate id (fun n _ => n.getD 0 + 1) text).map Prod.snd

def shannonEntropy (num : Numerics) (text : Str) : Float :=
  if text = [] then 0.0
  else
    -num.sum ((characterCounts text).map fun n =>
      let share := Py.floatOfRatio (n / text.length)
      share * num.log2 share)

def dot : Py.CodePoint := Py.CodePoint.ofChar '.'

/-- `qname.strip(".")` -/
def stripDots (qname : Str) : Str :=
  ((qname.dropWhile (· = dot)).reverse.dropWhile (· = dot)).reverse

/-- The labels of a name that count: all but the top level, when there is more than one. -/
def scoredLabels (qname : Str) : List Str :=
  let labels := ((stripDots qname).splitOn dot).filter (· ≠ [])
  if 1 < labels.length then labels.dropLast else labels

def domainEntropy (num : Numerics) (qname : Str) : Float :=
  (maxFloat ((scoredLabels qname).map (shannonEntropy num))).getD 0.0

structure Addresses where
  src : Str
  dst : Str

structure Ports where
  sport : ℕ
  dport : ℕ

/-- A DNS layer: its query/response bit and the decoded names of its question section. -/
structure Dns where
  qr : ℕ
  qd : List Str

/-- A decoded packet: the layers the table looks for, and its length. -/
structure Packet where
  ip : Option Addresses
  ipv6 : Option Addresses
  tcp : Option Ports
  udp : Option Ports
  dns : Option Dns
  size : ℕ

/-- One conversation, as seen on the wire. -/
structure FlowKey where
  protocol : Str
  localIp : Str
  localPort : ℕ
  remoteIp : Str
  remotePort : ℕ
deriving DecidableEq

/-- A packet of a flow, seen from this host. -/
structure Sighting where
  key : FlowKey
  outbound : Bool
  size : ℕ
  dns : Option Dns
  now : Float

namespace Packet

/-- The network layer, IPv4 before IPv6. -/
def network (packet : Packet) : Option Addresses := packet.ip <|> packet.ipv6

/-- The transport layer, TCP before UDP, and the name of its protocol. -/
def transport (packet : Packet) : Option (Ports × Str) :=
  packet.tcp.map (·, str "tcp") <|> packet.udp.map (·, str "udp")

def IsFlowTraffic (packet : Packet) : Prop :=
  (packet.ip.isSome ∨ packet.ipv6.isSome) ∧ (packet.tcp.isSome ∨ packet.udp.isSome)

/-- What `_observe` makes of a packet before it takes the lock. -/
def sighting (localAddresses : List Str) (packet : Packet) (now : Float) : Option Sighting :=
  match packet.network with
  | none => none
  | some addresses =>
    match packet.transport with
    | none => none
    | some (ports, protocol) =>
      let outbound := decide (addresses.src ∈ localAddresses)
      some
        { key :=
            if outbound then
              ⟨protocol, addresses.src, ports.sport, addresses.dst, ports.dport⟩
            else ⟨protocol, addresses.dst, ports.dport, addresses.src, ports.sport⟩
          outbound
          size := packet.size
          dns := packet.dns
          now }

theorem isFlowTraffic_iff {packet : Packet} : packet.IsFlowTraffic ↔
    ∃ a ports protocol, packet.network = some a ∧ packet.transport = some (ports, protocol) := by
  obtain ⟨ip, ipv6, tcp, udp, dns, size⟩ := packet
  cases ip <;> cases ipv6 <;> cases tcp <;> cases udp <;>
    simp [network, transport, IsFlowTraffic]

/-- The flow a packet belongs to, its source taken for the local end or for the remote one. -/
def flowKey (a : Addresses) (ports : Ports) (protocol : Str) (outbound : Bool) : FlowKey :=
  if outbound then ⟨protocol, a.src, ports.sport, a.dst, ports.dport⟩
  else ⟨protocol, a.dst, ports.dport, a.src, ports.sport⟩

theorem sighting_eq {packet : Packet} {a : Addresses} {ports : Ports} {protocol : Str}
    (hnetwork : packet.network = some a) (htransport : packet.transport = some (ports, protocol))
    (localAddresses : List Str) (now : Float) :
    packet.sighting localAddresses now = some
      { key := flowKey a ports protocol (decide (a.src ∈ localAddresses))
        outbound := decide (a.src ∈ localAddresses)
        size := packet.size
        dns := packet.dns
        now } := by
  rw [sighting, hnetwork, htransport]
  rfl

theorem sighting_eq_none {localAddresses : List Str} {packet : Packet} {now : Float}
    (h : ¬packet.IsFlowTraffic) : packet.sighting localAddresses now = none := by
  obtain ⟨ip, ipv6, tcp, udp, dns, size⟩ := packet
  cases ip <;> cases ipv6 <;> cases tcp <;> cases udp <;>
    simp_all [sighting, network, transport, IsFlowTraffic]

/-- What is to be seen of a packet of a flow. IPv4 goes before IPv6 and TCP before UDP; a packet
whose source is one of this host's addresses goes out, and that source is the flow's local end;
of any other packet the destination is. -/
structure SeenAs (localAddresses : List Str) (packet : Packet) (now : Float) (s : Sighting) :
    Prop where
  ends : ∃ (a : Addresses) (ports : Ports) (protocol : Str),
    (packet.ip = some a ∨ packet.ip = none ∧ packet.ipv6 = some a) ∧
    (packet.tcp = some ports ∧ protocol = str "tcp" ∨
      packet.tcp = none ∧ packet.udp = some ports ∧ protocol = str "udp") ∧
    (a.src ∈ localAddresses → s.outbound = true ∧
      s.key = ⟨protocol, a.src, ports.sport, a.dst, ports.dport⟩) ∧
    (a.src ∉ localAddresses → s.outbound = false ∧
      s.key = ⟨protocol, a.dst, ports.dport, a.src, ports.sport⟩)
  size : s.size = packet.size
  dns : s.dns = packet.dns
  now : s.now = now

theorem network_eq_some {packet : Packet} {a : Addresses} (h : packet.network = some a) :
    packet.ip = some a ∨ packet.ip = none ∧ packet.ipv6 = some a := by
  unfold network at h
  cases hip : packet.ip with
  | none =>
    rw [hip] at h
    exact .inr ⟨rfl, h⟩
  | some ip =>
    rw [hip] at h
    exact .inl h

theorem transport_eq_some {packet : Packet} {ports : Ports} {protocol : Str}
    (h : packet.transport = some (ports, protocol)) :
    packet.tcp = some ports ∧ protocol = str "tcp" ∨
      packet.tcp = none ∧ packet.udp = some ports ∧ protocol = str "udp" := by
  unfold transport at h
  cases htcp : packet.tcp with
  | some tcp =>
    rw [htcp] at h
    cases h
    exact .inl ⟨rfl, rfl⟩
  | none =>
    rw [htcp] at h
    obtain ⟨udp, hudp, heq⟩ := Option.map_eq_some_iff.mp h
    cases heq
    exact .inr ⟨rfl, hudp, rfl⟩

/-- Every packet of a flow is seen as it is. -/
theorem exists_seenAs {packet : Packet} (h : packet.IsFlowTraffic) (localAddresses : List Str)
    (now : Float) :
    ∃ s, packet.sighting localAddresses now = some s ∧ packet.SeenAs localAddresses now s := by
  obtain ⟨a, ports, protocol, hnetwork, htransport⟩ := isFlowTraffic_iff.mp h
  refine ⟨_, sighting_eq hnetwork htransport localAddresses now, ?_, rfl, rfl, rfl⟩
  refine ⟨a, ports, protocol, network_eq_some hnetwork, transport_eq_some htransport, ?_, ?_⟩
  · intro hlocal
    rw [decide_eq_true hlocal]
    exact ⟨rfl, rfl⟩
  · intro hremote
    rw [decide_eq_false hremote]
    exact ⟨rfl, rfl⟩

end Packet

/-- Counters for one flow. -/
structure FlowState where
  bytesOut : ℕ := 0
  bytesIn : ℕ := 0
  packetsOut : ℕ := 0
  packetsIn : ℕ := 0
  firstSeen : Float
  lastSeen : Float
  dnsQueryCount : ℕ := 0
  dnsMaxEntropy : Option Float := none

/-- `_iter_questions(dns)`: the names that are not empty. -/
def Dns.questions (dns : Dns) : List Str := dns.qd.filter (· ≠ [])

def Dns.IsQuery (dns : Dns) : Prop := dns.qd ≠ [] ∧ dns.qr = 0

instance (dns : Dns) : Decidable dns.IsQuery := inferInstanceAs (Decidable (_ ∧ _))

namespace FlowState

def countPacket (s : Sighting) (state : FlowState) : FlowState :=
  if s.outbound then
    { state with bytesOut := state.bytesOut + s.size, packetsOut := state.packetsOut + 1 }
  else { state with bytesIn := state.bytesIn + s.size, packetsIn := state.packetsIn + 1 }

def countQuery (num : Numerics) (s : Sighting) (state : FlowState) : FlowState :=
  match s.dns with
  | none => state
  | some dns =>
    if dns.IsQuery then
      { state with
        dnsQueryCount := state.dnsQueryCount + 1
        dnsMaxEntropy :=
          (dns.questions.map (domainEntropy num)).foldl maxWith state.dnsMaxEntropy }
    else state

/-- The state of a flow after one more of its packets. -/
def observed (num : Numerics) (state : Option FlowState) (s : Sighting) : FlowState :=
  let state := state.getD { firstSeen := s.now, lastSeen := s.now }
  ({ state with lastSeen := s.now }.countPacket s).countQuery num s

end FlowState

/-- `_MAX_INTERVAL_SAMPLES` -/
def MAX_INTERVAL_SAMPLES : ℕ := 64

/-- `append` to a `deque(maxlen=_MAX_INTERVAL_SAMPLES)`. -/
def pushStart (now : Float) (starts : List Float) : List Float :=
  (starts ++ [now]).rtake MAX_INTERVAL_SAMPLES

abbrev Flows := List (FlowKey × FlowState)

structure FlowTable where
  localAddresses : List Str
  flows : Flows
  starts : Dict (List Float)

namespace FlowTable

/-- `FlowTable(local_addresses)` -/
def init (localAddresses : List Str) : FlowTable := ⟨localAddresses, [], ∅⟩

/-- The part of `_observe` that holds the lock. -/
def record (num : Numerics) (s : Sighting) (table : FlowTable) : FlowTable :=
  { table with
    flows := Grouping.modify s.key (fun state => FlowState.observed num state s) table.flows
    starts :=
      if s.key ∈ table.flows.map Prod.fst then table.starts
      else table.starts.set s.key.remoteIp
        (pushStart s.now (table.starts.get s.key.remoteIp [])) }

/-- `observe(packet, now=now)` -/
def observe (num : Numerics) (packet : Packet) (now : Float) (table : FlowTable) : FlowTable :=
  match packet.sighting table.localAddresses now with
  | none => table
  | some s => table.record num s

/-- `interval_variance` -/
def intervalVariance (remoteIp : Str) (table : FlowTable) : Except Exc (Option Float) :=
  let starts := table.starts.get remoteIp []
  if starts.length < 3 then .ok none
  else (Py.pvariance (List.zipWith (fun a b => b - a) starts starts.tail)).map some

/-- `drain` -/
def drain (table : FlowTable) : Flows × FlowTable := (table.flows, { table with flows := [] })

end FlowTable

end Ebabf
