import Ebabf.Collectors.Base
import Ebabf.Collectors.FlowTable

/-!
# The network collector

A captured packet carries no pid; who owns a flow is read from a separate snapshot of the socket
table, by the flow's local endpoint.
-/

namespace Ebabf

open Py (Str str Exc Datetime Json Dict Proc)

/-- `HOST_SUBJECT` -/
def HOST_SUBJECT : Str := str "__host__"

inductive SocketType
  | stream
  | dgram
deriving DecidableEq

def SocketType.protocol : SocketType → Str
  | .stream => str "tcp"
  | .dgram => str "udp"

/-- One entry of `psutil.net_connections(kind="inet")`. -/
structure Connection where
  type : SocketType
  laddr : Option (Str × ℕ)
  pid : Option ℕ

/-- What psutil shows at one moment: the entries, nothing when reading them is refused, and the
user of each process, nothing when looking it up fails. -/
structure SocketTable where
  connections : Option (List Connection)
  username : ℕ → Option Str

/-- A socket with the user that owns it. -/
structure OwnedSocket where
  type : SocketType
  endpoint : Str × ℕ
  user : Str

/-- The owner of an entry, as far as it has one. -/
def SocketTable.owned (table : SocketTable) (conn : Connection) : Option OwnedSocket :=
  match conn.laddr, conn.pid with
  | some endpoint, some pid =>
    match table.username pid with
    | none => none
    | some username => if username = [] then none else some ⟨conn.type, endpoint, username⟩
  | _, _ => none

/-- The sockets with an owner, in the order in which they are listed. -/
def SocketTable.ownedSockets (table : SocketTable) : List OwnedSocket :=
  (table.connections.getD []).filterMap table.owned

/-- `SocketOwnerResolver`: the user at each local endpoint. -/
structure SocketOwnerResolver where
  owners : List ((Str × ℕ) × Str)

namespace SocketOwnerResolver

/-- `owners[(ip, port)] = username`, entry by entry. -/
def indexConnection (table : SocketTable) (owners : List ((Str × ℕ) × Str)) (conn : Connection) :
    List ((Str × ℕ) × Str) :=
  match table.owned conn with
  | none => owners
  | some s => Grouping.modify s.endpoint (fun _ => s.user) owners

/-- `refresh` -/
def refresh (table : SocketTable) : SocketOwnerResolver :=
  match table.connections with
  | none => ⟨[]⟩
  | some connections => ⟨connections.foldl (indexConnection table) []⟩

def ownerOf (key : FlowKey) (resolver : SocketOwnerResolver) : Option Str :=
  resolver.owners.lookup (key.localIp, key.localPort)

end SocketOwnerResolver

structure NetworkCollector where
  context : CollectorContext
  owners : SocketOwnerResolver
  flows : FlowTable

namespace NetworkCollector

/-- `len({key.remote_ip for key in flows})` -/
def uniqueDestinations (flows : Flows) : ℕ := (flows.map fun entry => entry.1.remoteIp).dedup.length

def optionalFloat : Option Float → Json
  | none => .null
  | some x => .float x

/-- The attributes of a flow. -/
def describe (destinations : ℕ) (key : FlowKey) (state : FlowState) (owner : Option Str)
    (variance : Option Float) : Mapping :=
  Dict.ofPairs
    [(str "dest_ip", .json (.str key.remoteIp)),
     (str "dest_port", .json (.int key.remotePort)),
     (str "bytes_out", .json (.int state.bytesOut)),
     (str "bytes_in", .json (.int state.bytesIn)),
     (str "connection_interval_variance", .json (optionalFloat variance)),
     (str "unique_dest_count", .json (.int destinations)),
     (str "protocol", .json (.str key.protocol)),
     (str "dns_entropy", .json (optionalFloat state.dnsMaxEntropy)),
     (str "local_port", .json (.int key.localPort)),
     (str "packets_out", .json (.int state.packetsOut)),
     (str "packets_in", .json (.int state.packetsIn)),
     (str "flow_duration",
       .json (.float (Py.roundThousandths (state.lastSeen - state.firstSeen)))),
     (str "dns_query_count", .json (.int state.dnsQueryCount)),
     (str "subject_attributed", .json (.bool owner.isSome))]

/-- `owner or HOST_SUBJECT` -/
def subjectOf : Option Str → Str
  | none => HOST_SUBJECT
  | some owner => if owner = [] then HOST_SUBJECT else owner

/-- The event of one flow. -/
def flowEvent (destinations : ℕ) (key : FlowKey) (state : FlowState) :
    Proc Event NetworkCollector Event := fun c =>
  let owner := c.owners.ownerOf key
  match c.flows.intervalVariance key.remoteIp with
  | .error e => ⟨.error e, [], c⟩
  | .ok variance =>
    let built := Collector.buildEvent .network (subjectOf owner)
      (describe destinations key state owner variance) none c.context
    ⟨built.outcome, built.trace, { c with context := built.state }⟩

/-- One event after the other, until one cannot be built. -/
def flowEvents (destinations : ℕ) : Flows → Proc Event NetworkCollector Unit
  | [] => pure ()
  | (key, state) :: rest => do
    let event ← flowEvent destinations key state
    Proc.emit event
    flowEvents destinations rest

/-- `collect`, where the socket table is read at its start. -/
def collect (table : SocketTable) : Proc Event NetworkCollector Unit := fun c =>
  let drained := c.flows.drain
  flowEvents (uniqueDestinations drained.1) drained.1
    { c with owners := .refresh table, flows := drained.2 }

end NetworkCollector

/-- The user `collect` attributes a flow to, if any. -/
def attribution (table : SocketTable) (key : FlowKey) : Option Str :=
  (SocketOwnerResolver.refresh table).ownerOf key

/-- The owned sockets at the local endpoint of a flow, as they are listed. -/
def socketsAt (table : SocketTable) (key : FlowKey) : List OwnedSocket :=
  table.ownedSockets.filter fun s => s.endpoint = (key.localIp, key.localPort)

def OwnsSocket (table : SocketTable) (key : FlowKey) (user : Str) : Prop :=
  ∃ s ∈ table.ownedSockets, s.type.protocol = key.protocol ∧
    s.endpoint = (key.localIp, key.localPort) ∧ s.user = user

/-- A user owns a socket with the flow's protocol and local endpoint, and no other user does. -/
def SoleOwner (table : SocketTable) (key : FlowKey) (user : Str) : Prop :=
  OwnsSocket table key user ∧ ∀ other, OwnsSocket table key other → other = user

theorem foldl_indexConnection (table : SocketTable) (connections : List Connection) :
    ∀ owners, connections.foldl (SocketOwnerResolver.indexConnection table) owners =
      (connections.filterMap table.owned).foldl
        (fun d s => Grouping.modify s.endpoint (fun _ => s.user) d) owners := by
  induction connections with
  | nil => intro owners; rfl
  | cons conn connections ih =>
    intro owners
    rw [List.foldl_cons, ih, SocketOwnerResolver.indexConnection]
    cases hconn : table.owned conn with
    | none => rw [List.filterMap_cons_none hconn]
    | some s => rw [List.filterMap_cons_some hconn, List.foldl_cons]

/-- The resolver ends up with the last socket listed at each endpoint. -/
theorem attribution_eq (table : SocketTable) (key : FlowKey) :
    attribution table key = (socketsAt table key).getLast?.map OwnedSocket.user := by
  have hlast : Grouping.Computes (fun _ s => s.user)
      (fun xs => (xs.getLast?.map OwnedSocket.user).getD []) :=
    ⟨fun s => rfl, fun xs s _ => by simp⟩
  have howners : (SocketOwnerResolver.refresh table).owners =
      Grouping.accumulate OwnedSocket.endpoint (fun _ s => s.user) table.ownedSockets := by
    unfold SocketOwnerResolver.refresh SocketTable.ownedSockets
    cases table.connections with
    | none => rfl
    | some connections => exact foldl_indexConnection table connections []
  unfold attribution SocketOwnerResolver.ownerOf
  rw [howners, Grouping.accumulate_eq_groupBy _ hlast, Grouping.lookup_groupBy]
  have hgroup : Grouping.group OwnedSocket.endpoint table.ownedSockets
      (key.localIp, key.localPort) = socketsAt table key := rfl
  rw [hgroup]
  cases hsockets : socketsAt table key with
  | nil => rfl
  | cons s rest =>
    rw [if_neg (List.cons_ne_nil _ _), List.getLast?_eq_getLast_of_ne_nil (List.cons_ne_nil s rest)]
    rfl

theorem ownsSocket_iff {table : SocketTable} {key : FlowKey} {user : Str} :
    OwnsSocket table key user ↔
      ∃ s ∈ socketsAt table key, s.type.protocol = key.protocol ∧ s.user = user := by
  constructor
  · rintro ⟨s, hs, hprotocol, hendpoint, huser⟩
    exact ⟨s, List.mem_filter.mpr ⟨hs, decide_eq_true hendpoint⟩, hprotocol, huser⟩
  · rintro ⟨s, hs, hprotocol, huser⟩
    obtain ⟨hmem, hendpoint⟩ := List.mem_filter.mp hs
    exact ⟨s, hmem, hprotocol, of_decide_eq_true hendpoint, huser⟩

/-- The user of the last socket listed at the flow's local endpoint, if there is one, has all the
sockets with the flow's protocol there, and there is at least one. -/
def LastListedOwns (table : SocketTable) (key : FlowKey) : Prop :=
  ∀ last ∈ (socketsAt table key).getLast?,
    (∃ s ∈ socketsAt table key, s.type.protocol = key.protocol) ∧
      ∀ s ∈ socketsAt table key, s.type.protocol = key.protocol → s.user = last.user

theorem soleOwner_attribution_iff (table : SocketTable) (key : FlowKey) :
    (∀ user, attribution table key = some user → SoleOwner table key user) ↔
      LastListedOwns table key := by
  rw [attribution_eq]
  unfold LastListedOwns SoleOwner
  simp only [ownsSocket_iff]
  cases (socketsAt table key).getLast? with
  | none => simp
  | some last =>
    simp only [Option.map_some, Option.some.injEq, forall_eq', Option.mem_def]
    constructor
    · rintro ⟨⟨s, hs, hprotocol, -⟩, honly⟩
      refine ⟨⟨s, hs, hprotocol⟩, ?_⟩
      intro s' hs' hprotocol'
      exact honly s'.user ⟨s', hs', hprotocol', rfl⟩
    · rintro ⟨⟨s, hs, hprotocol⟩, hall⟩
      refine ⟨⟨s, hs, hprotocol, hall s hs hprotocol⟩, ?_⟩
      rintro other ⟨s', hs', hprotocol', rfl⟩
      exact hall s' hs' hprotocol'

namespace NetworkCollector

/-- An event that reports a flow under an owner: its attributes are those of the flow, and its
pseudonym is the one `context` has for the owner, or for the host when there is none. -/
def Reports (context : CollectorContext) (destinations : ℕ) (flow : FlowKey × FlowState)
    (owner : Option Str) (event : Event) : Prop :=
  (∃ variance, event.fields.rawAttributes = describe destinations flow.1 flow.2 owner variance) ∧
    context.forward.get? (subjectOf owner) = some event.fields.subjectPseudonym

theorem Reports.extends {context context' : CollectorContext} {destinations : ℕ}
    {flow : FlowKey × FlowState} {owner : Option Str} {event : Event}
    (h : Reports context destinations flow owner event) (hext : context.Extends context') :
    Reports context' destinations flow owner event :=
  ⟨h.1, hext _ _ h.2⟩

theorem flowEvent_reports (destinations : ℕ) (flow : FlowKey × FlowState) (c : NetworkCollector) :
    (flowEvent destinations flow.1 flow.2 c).state.owners = c.owners ∧
      c.context.Extends (flowEvent destinations flow.1 flow.2 c).state.context ∧
      (flowEvent destinations flow.1 flow.2 c).trace = [] ∧
      ∀ event, (flowEvent destinations flow.1 flow.2 c).outcome = .ok event →
        Reports (flowEvent destinations flow.1 flow.2 c).state.context destinations flow
          (c.owners.ownerOf flow.1) event := by
  unfold flowEvent
  dsimp only
  cases c.flows.intervalVariance flow.1.remoteIp with
  | error e => exact ⟨rfl, .refl _, rfl, fun event h => nomatch h⟩
  | ok variance =>
    refine ⟨rfl, Collector.extends_buildEvent _ _ _ _ _, Collector.trace_buildEvent _ _ _ _ _, ?_⟩
    intro event h
    obtain ⟨hattributes, hlookup⟩ := Collector.fields_of_buildEvent h
    exact ⟨⟨variance, hattributes⟩, hlookup⟩

theorem flowEvents_reports (destinations : ℕ) (flows : Flows) :
    ∀ c : NetworkCollector,
      c.context.Extends (flowEvents destinations flows c).state.context ∧
        ∀ event ∈ (flowEvents destinations flows c).trace, ∃ flow ∈ flows,
          Reports (flowEvents destinations flows c).state.context destinations flow
            (c.owners.ownerOf flow.1) event := by
  induction flows with
  | nil => exact fun c => ⟨.refl _, fun event h => nomatch h⟩
  | cons flow flows ih =>
    intro c
    obtain ⟨howners, hext, htrace, hreports⟩ := flowEvent_reports destinations flow c
    rw [flowEvents]
    cases hrun : (flowEvent destinations flow.1 flow.2 c).outcome with
    | error e =>
      rw [Proc.bind_of_error hrun]
      exact ⟨hext, fun event h => absurd (htrace ▸ h) List.not_mem_nil⟩
    | ok event =>
      obtain ⟨hrest, hevents⟩ := ih (flowEvent destinations flow.1 flow.2 c).state
      rw [Proc.bind_of_ok hrun, Proc.bind_of_ok rfl, Proc.emit_apply, htrace]
      refine ⟨hext.trans hrest, ?_⟩
      intro event' hevent'
      rcases List.mem_cons.mp hevent' with rfl | hmem
      · exact ⟨flow, List.mem_cons_self, (hreports _ hrun).extends hrest⟩
      · obtain ⟨flow', hflow', hreport⟩ := hevents event' hmem
        rw [howners] at hreport
        exact ⟨flow', List.mem_cons_of_mem _ hflow', hreport⟩

/-- Every event of a sweep reports a drained flow under the user it is attributed to, and that
attribution is sound exactly where the last socket listed at the flow's local endpoint is of the
user who owns the sockets of the flow's protocol there. -/
theorem collect_attribution (table : SocketTable) (c : NetworkCollector) :
    (∀ event ∈ (collect table c).trace, ∃ flow ∈ c.flows.flows,
      Reports (collect table c).state.context (uniqueDestinations c.flows.flows) flow
        (attribution table flow.1) event) ∧
    ∀ key, (∀ user, attribution table key = some user → SoleOwner table key user) ↔
      LastListedOwns table key := by
  constructor
  · exact (flowEvents_reports _ _ _).2
  · intro key
    exact soleOwner_attribution_iff table key

end NetworkCollector

/-- Two sockets of one local address and port: bob's TCP connection, then alice's UDP socket. -/
def sharedEndpoint : SocketTable where
  connections := some [⟨.stream, some (str "fd::1", 5353), some 1⟩,
    ⟨.dgram, some (str "fd::1", 5353), some 2⟩]
  username pid := if pid = 1 then some (str "bob") else some (str "alice")

/-- Bob's TCP flow is attributed to alice. -/
theorem not_soleOwner_attribution : ¬∀ (table : SocketTable) (c : NetworkCollector),
    ∀ flow ∈ c.flows.flows, ∀ user, attribution table flow.1 = some user →
      SoleOwner table flow.1 user := by
  intro h
  let key : FlowKey := ⟨str "tcp", str "fd::1", 5353, str "fd::2", 443⟩
  let context : CollectorContext :=
    { hostId := str "host"
      tenantId := str "default"
      eventIds := fun _ => []
      readings := fun _ => .epoch
      mints := fun _ => []
      forward := ∅ }
  let c : NetworkCollector := ⟨context, ⟨[]⟩,
    { FlowTable.init [] with flows := [(key, { firstSeen := 0.0, lastSeen := 0.0 })] }⟩
  have halice : attribution sharedEndpoint key = some (str "alice") := rfl
  obtain ⟨-, honly⟩ := h sharedEndpoint c _ List.mem_cons_self _ halice
  have hbob : OwnsSocket sharedEndpoint key (str "bob") :=
    ⟨⟨.stream, (str "fd::1", 5353), str "bob"⟩, List.mem_cons_self, rfl, rfl, rfl⟩
  exact absurd (honly _ hbob) (by decide)

end Ebabf
