import Ebabf.Collectors.FlowTable

/-!
# Runs of the flow table

Packets and drains in any order. Each drained table, and the live one, is the grouping by flow of
the packets between two drains; the start times are those of the flows as long as no flow is seen
again after a drain.
-/

namespace Ebabf

open Py (Str str Exc Dict maxFloat maxWith)

/-- A packet that asks: a DNS layer with `qr = 0` and something in its question section. -/
def Sighting.IsQuery (s : Sighting) : Prop := ∃ dns ∈ s.dns, dns.qr = 0 ∧ dns.qd ≠ []

instance (s : Sighting) : Decidable s.IsQuery :=
  match h : s.dns with
  | none => isFalse (by simp [Sighting.IsQuery, h])
  | some dns => decidable_of_iff (dns.qr = 0 ∧ dns.qd ≠ []) (by simp [Sighting.IsQuery, h])

/-- The names a packet asks for. -/
def Sighting.questions (s : Sighting) : List Str :=
  match s.dns with
  | none => []
  | some dns => if dns.qr = 0 ∧ dns.qd ≠ [] then dns.qd.filter (· ≠ []) else []

/-- The entropies of the names a group of packets asks for. -/
def queriedEntropies (num : Numerics) (xs : List Sighting) : List Float :=
  (xs.flatMap Sighting.questions).map (domainEntropy num)

/-- The counters of a flow are those of its packets. -/
structure FlowState.Summarises (num : Numerics) (state : FlowState) (xs : List Sighting) :
    Prop where
  bytes_out : state.bytesOut = ((xs.filter fun s => s.outbound).map Sighting.size).sum
  bytes_in : state.bytesIn = ((xs.filter fun s => !s.outbound).map Sighting.size).sum
  packets_out : state.packetsOut = (xs.filter fun s => s.outbound).length
  packets_in : state.packetsIn = (xs.filter fun s => !s.outbound).length
  first_seen : xs.head?.map Sighting.now = some state.firstSeen
  last_seen : xs.getLast?.map Sighting.now = some state.lastSeen
  dns_query_count : state.dnsQueryCount = (xs.filter fun s => s.IsQuery).length
  dns_max_entropy_none : state.dnsMaxEntropy = none ↔ queriedEntropies num xs = []
  dns_max_entropy : ∀ m ∈ state.dnsMaxEntropy, m ∈ queriedEntropies num xs ∧
    ∀ e ∈ queriedEntropies num xs, ¬m < e

/-- The state a group of packets leaves behind. -/
def FlowState.ofGroup (num : Numerics) (xs : List Sighting) : FlowState where
  bytesOut := ((xs.filter fun s => s.outbound).map Sighting.size).sum
  bytesIn := ((xs.filter fun s => !s.outbound).map Sighting.size).sum
  packetsOut := (xs.filter fun s => s.outbound).length
  packetsIn := (xs.filter fun s => !s.outbound).length
  firstSeen := (xs.head?.map Sighting.now).getD 0.0
  lastSeen := (xs.getLast?.map Sighting.now).getD 0.0
  dnsQueryCount := (xs.filter fun s => s.IsQuery).length
  dnsMaxEntropy := maxFloat (queriedEntropies num xs)

theorem FlowState.summarises_ofGroup (num : Numerics) {xs : List Sighting} (h : xs ≠ []) :
    (FlowState.ofGroup num xs).Summarises num xs where
  bytes_out := rfl
  bytes_in := rfl
  packets_out := rfl
  packets_in := rfl
  first_seen := by
    cases xs with
    | nil => exact absurd rfl h
    | cons s xs => rfl
  last_seen := by
    simp [ofGroup, List.getLast?_eq_getLast_of_ne_nil h]
  dns_query_count := rfl
  dns_max_entropy_none := (Py.maxFloat_spec _).1
  dns_max_entropy := (Py.maxFloat_spec _).2

theorem FlowState.countQuery_eq (num : Numerics) (s : Sighting) (state : FlowState) :
    state.countQuery num s =
      { state with
        dnsQueryCount := state.dnsQueryCount + if s.IsQuery then 1 else 0
        dnsMaxEntropy := (s.questions.map (domainEntropy num)).foldl maxWith state.dnsMaxEntropy } := by
  obtain ⟨key, outbound, size, dns, now⟩ := s
  cases dns with
  | none => simp [countQuery, Sighting.questions, Sighting.IsQuery]
  | some dns =>
    have hsame : dns.qr = 0 ∧ dns.qd ≠ [] ↔ dns.IsQuery := and_comm
    by_cases hquery : dns.IsQuery
    · simp [countQuery, Sighting.questions, Sighting.IsQuery, Dns.questions, hsame, hquery]
    · simp [countQuery, Sighting.questions, Sighting.IsQuery, hsame, hquery]

theorem FlowState.computes_observed (num : Numerics) :
    Grouping.Computes (FlowState.observed num) (FlowState.ofGroup num) where
  single s := by
    have hmax : maxFloat (queriedEntropies num [s]) =
        (s.questions.map (domainEntropy num)).foldl maxWith none := by
      simp [queriedEntropies, maxFloat]
    by_cases hout : s.outbound = true
    · by_cases hquery : s.IsQuery <;>
        simp [observed, countQuery_eq, countPacket, ofGroup, hmax, hout, hquery]
    · by_cases hquery : s.IsQuery <;>
        simp [observed, countQuery_eq, countPacket, ofGroup, hmax, hout, hquery]
  concat xs s hxs := by
    have hmax : maxFloat (queriedEntropies num (xs ++ [s])) =
        (s.questions.map (domainEntropy num)).foldl maxWith (maxFloat (queriedEntropies num xs)) := by
      rw [← Py.maxFloat_append]
      simp [queriedEntropies]
    have hfirst : (xs ++ [s]).head? = xs.head? := List.head?_append_of_ne_nil xs hxs
    by_cases hout : s.outbound = true
    · by_cases hquery : s.IsQuery <;>
        simp [observed, countQuery_eq, countPacket, ofGroup, hmax, hfirst, hout, hquery]
    · by_cases hquery : s.IsQuery <;>
        simp [observed, countQuery_eq, countPacket, ofGroup, hmax, hfirst, hout, hquery]

/-- What happens to a table: a packet at a time, or a sweep. -/
inductive FlowOp
  | observe (packet : Packet) (now : Float)
  | drain

def FlowOp.isDrain : FlowOp → Bool
  | .observe .. => false
  | .drain => true

/-- The packet of a flow that is observed, if any. -/
def FlowOp.sighting (localAddresses : List Str) : FlowOp → Option Sighting
  | .observe packet now => packet.sighting localAddresses now
  | .drain => none

/-- A table and what has been drained from it. -/
structure FlowRun where
  drained : List Flows
  table : FlowTable

namespace FlowRun

def apply (num : Numerics) (run : FlowRun) : FlowOp → FlowRun
  | .observe packet now => { run with table := run.table.observe num packet now }
  | .drain => ⟨run.drained ++ [run.table.drain.1], run.table.drain.2⟩

def run (num : Numerics) (localAddresses : List Str) (ops : List FlowOp) : FlowRun :=
  ops.foldl (apply num) ⟨[], .init localAddresses⟩

/-- The drained tables and the live one. -/
def tables (run : FlowRun) : List Flows := run.drained ++ [run.table.flows]

end FlowRun

/-- The packets of flows among the operations. -/
def sightings (localAddresses : List Str) (ops : List FlowOp) : List Sighting :=
  ops.filterMap (FlowOp.sighting localAddresses)

/-- The packets of flows between two drains. -/
def windows (localAddresses : List Str) (ops : List FlowOp) : List (List Sighting) :=
  (ops.splitOnP FlowOp.isDrain).map (sightings localAddresses)

theorem windows_observe (localAddresses : List Str) (packet : Packet) (now : Float)
    (ops : List FlowOp) :
    windows localAddresses (.observe packet now :: ops) =
      (windows localAddresses ops).modifyHead
        ((packet.sighting localAddresses now).toList ++ ·) := by
  rw [windows, List.splitOnP_cons_eq_if_modifyHead, if_neg (by simp [FlowOp.isDrain]), windows]
  cases h : ops.splitOnP FlowOp.isDrain with
  | nil => exact absurd h (List.splitOnP_ne_nil _ _)
  | cons w ws =>
    cases hs : packet.sighting localAddresses now with
    | none => simp [sightings, FlowOp.sighting, hs]
    | some s => simp [sightings, FlowOp.sighting, hs]

theorem windows_drain (localAddresses : List Str) (ops : List FlowOp) :
    windows localAddresses (.drain :: ops) = [] :: windows localAddresses ops := by
  rw [windows, List.splitOnP_cons_eq_if_modifyHead, if_pos (by rfl)]
  rfl

theorem windows_ne_nil (localAddresses : List Str) (ops : List FlowOp) :
    windows localAddresses ops ≠ [] := by
  simp [windows]

theorem sightings_cons (localAddresses : List Str) (op : FlowOp) (ops : List FlowOp) :
    sightings localAddresses (op :: ops) =
      (op.sighting localAddresses).toList ++ sightings localAddresses ops := by
  unfold sightings
  cases hs : op.sighting localAddresses with
  | none => rw [List.filterMap_cons_none hs, Option.toList_none, List.nil_append]
  | some s => rw [List.filterMap_cons_some hs, Option.toList_some, List.singleton_append]

/-- The windows when the packets `xs` come before the operations. -/
def windowsAfter (xs : List Sighting) (localAddresses : List Str) (ops : List FlowOp) :
    List (List Sighting) :=
  (windows localAddresses ops).modifyHead (xs ++ ·)

section

variable (xs : List Sighting) (localAddresses : List Str) (ops : List FlowOp)

theorem windowsAfter_eq_cons :
    ∃ w ws, windows localAddresses ops = w :: ws ∧
      windowsAfter xs localAddresses ops = (xs ++ w) :: ws := by
  unfold windowsAfter
  cases h : windows localAddresses ops with
  | nil => exact absurd h (windows_ne_nil _ _)
  | cons w ws => exact ⟨w, ws, rfl, rfl⟩

@[simp] theorem windowsAfter_nil : windowsAfter [] localAddresses ops = windows localAddresses ops := by
  obtain ⟨w, ws, hwindows, hafter⟩ := windowsAfter_eq_cons [] localAddresses ops
  rw [hafter, hwindows, List.nil_append]

theorem windowsAfter_drain : windowsAfter xs localAddresses (.drain :: ops) =
    xs :: windows localAddresses ops := by
  rw [windowsAfter, windows_drain, List.modifyHead_cons, List.append_nil]

theorem windowsAfter_observe (packet : Packet) (now : Float) :
    windowsAfter xs localAddresses (.observe packet now :: ops) =
      windowsAfter (xs ++ (packet.sighting localAddresses now).toList) localAddresses ops := by
  rw [windowsAfter, windows_observe, List.modifyHead_modifyHead, windowsAfter]
  congr 1
  funext w
  rw [Function.comp_apply, List.append_assoc]

end

/-- Every packet of a flow is in one window. -/
theorem flatten_windows (localAddresses : List Str) (ops : List FlowOp) :
    (windows localAddresses ops).flatten = sightings localAddresses ops := by
  induction ops with
  | nil => rfl
  | cons op ops ih =>
    cases op with
    | drain =>
      rw [windows_drain, List.flatten_cons, ih]
      rfl
    | observe packet now =>
      obtain ⟨w, ws, hwindows, hafter⟩ := windowsAfter_eq_cons
        (packet.sighting localAddresses now).toList localAddresses ops
      rw [windows_observe, ← windowsAfter, hafter, sightings_cons, ← ih, hwindows,
        List.flatten_cons, List.flatten_cons, List.append_assoc]
      rfl

/-- The flows a group of packets leaves in a table. -/
def accumulated (num : Numerics) (xs : List Sighting) : Flows :=
  Grouping.accumulate Sighting.key (FlowState.observed num) xs

theorem accumulated_concat (num : Numerics) (xs : List Sighting) (s : Sighting) :
    accumulated num (xs ++ [s]) =
      Grouping.modify s.key (fun state => FlowState.observed num state s) (accumulated num xs) := by
  rw [accumulated, Grouping.accumulate, List.foldl_append]
  rfl

theorem flows_observe {num : Numerics} {table : FlowTable} {xs : List Sighting}
    (packet : Packet) (now : Float) (h : table.flows = accumulated num xs) :
    (table.observe num packet now).flows =
      accumulated num (xs ++ (packet.sighting table.localAddresses now).toList) := by
  unfold FlowTable.observe
  cases hs : packet.sighting table.localAddresses now with
  | none => simpa using h
  | some s =>
    rw [Option.toList_some, accumulated_concat, ← h]
    rfl

theorem localAddresses_observe (num : Numerics) (packet : Packet) (now : Float)
    (table : FlowTable) :
    (table.observe num packet now).localAddresses = table.localAddresses := by
  unfold FlowTable.observe
  cases packet.sighting table.localAddresses now <;> rfl

/-- From a live table that holds the packets `xs`, the tables of a run are those of its windows,
`xs` coming before the first. -/
theorem tables_foldl (num : Numerics) (ops : List FlowOp) :
    ∀ (run : FlowRun) (xs : List Sighting), run.table.flows = accumulated num xs →
      (ops.foldl (FlowRun.apply num) run).tables = run.drained ++
        (windowsAfter xs run.table.localAddresses ops).map (accumulated num) := by
  induction ops with
  | nil =>
    intro run xs h
    simp [FlowRun.tables, windowsAfter, windows, sightings, h]
  | cons op ops ih =>
    intro run xs h
    rw [List.foldl_cons]
    cases op with
    | observe packet now =>
      rw [ih _ _ (flows_observe packet now h), windowsAfter_observe]
      simp only [FlowRun.apply, localAddresses_observe]
    | drain =>
      rw [ih _ [] rfl, windowsAfter_nil, windowsAfter_drain]
      simp only [FlowRun.apply, FlowTable.drain, h, List.map_cons, List.append_assoc,
        List.singleton_append]

theorem tables_run (num : Numerics) (localAddresses : List Str) (ops : List FlowOp) :
    (FlowRun.run num localAddresses ops).tables =
      (windows localAddresses ops).map (accumulated num) := by
  rw [FlowRun.run, tables_foldl num ops _ [] rfl, windowsAfter_nil]
  rfl

/-- A table that groups packets by their flows. -/
structure IsGrouping (num : Numerics) (xs : List Sighting) (flows : Flows) : Prop where
  nodup : (flows.map Prod.fst).Nodup
  keys : ∀ key, key ∈ flows.map Prod.fst ↔ ∃ s ∈ xs, s.key = key
  states : ∀ entry ∈ flows, entry.2.Summarises num (xs.filter fun s => s.key = entry.1)

theorem isGrouping_accumulated (num : Numerics) (xs : List Sighting) :
    IsGrouping num xs (accumulated num xs) := by
  have hfst : (accumulated num xs).map Prod.fst = Grouping.keysOf Sighting.key xs := by
    rw [accumulated, Grouping.accumulate_eq_groupBy _ (FlowState.computes_observed num)]
    simp [Grouping.groupBy, Function.comp_def]
  constructor
  · rw [hfst]
    exact Grouping.nodup_keysOf _ _
  · intro key
    rw [hfst]
    exact Grouping.mem_keysOf
  · intro entry hentry
    rw [accumulated, Grouping.accumulate_eq_groupBy _ (FlowState.computes_observed num),
      Grouping.groupBy] at hentry
    obtain ⟨key, hkey, rfl⟩ := List.mem_map.mp hentry
    exact FlowState.summarises_ofGroup num fun hnil => Grouping.group_eq_nil.mp hnil hkey

/-- The packets a table has counted. -/
def packetCount (flows : Flows) : ℕ :=
  (flows.map fun entry => entry.2.packetsOut + entry.2.packetsIn).sum

theorem packetCount_accumulated (num : Numerics) (xs : List Sighting) :
    packetCount (accumulated num xs) = xs.length := by
  have hgroup : ∀ ys : List Sighting,
      (FlowState.ofGroup num ys).packetsOut + (FlowState.ofGroup num ys).packetsIn = ys.length := by
    intro ys
    have hsplit := List.length_eq_length_filter_add (l := ys) fun s => s.outbound
    exact hsplit.symm
  rw [accumulated, Grouping.accumulate_eq_groupBy _ (FlowState.computes_observed num),
    Grouping.groupBy, packetCount, List.map_map]
  simp only [Function.comp_def, hgroup]
  exact Grouping.sum_length_group Sighting.key xs

/-- The flow table is an exact group-by: in any order of packets and drains, the packets of flows
are split at the drains, each table groups those of one stretch and counts each of them once.
Every packet of a flow is seen as it is, and any other leaves the table as it was. -/
theorem tables_isGrouping (num : Numerics) (localAddresses : List Str) (ops : List FlowOp) :
    List.Forall₂ (IsGrouping num) (windows localAddresses ops)
        (FlowRun.run num localAddresses ops).tables ∧
      (windows localAddresses ops).flatten = sightings localAddresses ops ∧
      (FlowRun.run num localAddresses ops).tables.map packetCount =
        (windows localAddresses ops).map List.length ∧
      (∀ (packet : Packet) (now : Float), packet.IsFlowTraffic →
        ∃ s, packet.sighting localAddresses now = some s ∧
          packet.SeenAs localAddresses now s) ∧
      ∀ (packet : Packet) (now : Float), ¬packet.IsFlowTraffic →
        ∀ table : FlowTable, table.observe num packet now = table := by
  rw [tables_run]
  refine ⟨?_, flatten_windows localAddresses ops, ?_, ?_, ?_⟩
  · rw [List.forall₂_map_right_iff]
    exact List.forall₂_same.mpr fun xs _ => isGrouping_accumulated num xs
  · rw [List.map_map]
    exact List.map_congr_left fun xs _ => packetCount_accumulated num xs
  · intro packet now htraffic
    exact Packet.exists_seenAs htraffic localAddresses now
  · intro packet now hother table
    unfold FlowTable.observe
    rw [Packet.sighting_eq_none hother]

/-- The first packet of every flow. -/
def connections (xs : List Sighting) : List Sighting :=
  xs.foldl (fun cs s => if s.key ∈ cs.map Sighting.key then cs else cs ++ [s]) []

/-- When the last connections to a destination started, each flow counted once. -/
def connectionStarts (remoteIp : Str) (xs : List Sighting) : List Float :=
  (((connections xs).filter fun s => s.key.remoteIp = remoteIp).map Sighting.now).rtake
    MAX_INTERVAL_SAMPLES

/-- No flow is seen on both sides of a drain. -/
def NoFlowSpansDrain (localAddresses : List Str) (ops : List FlowOp) : Prop :=
  (windows localAddresses ops).Pairwise fun w w' => ∀ s ∈ w, ∀ s' ∈ w', s.key ≠ s'.key

theorem connections_concat (xs : List Sighting) (s : Sighting) : connections (xs ++ [s]) =
    if s.key ∈ (connections xs).map Sighting.key then connections xs
    else connections xs ++ [s] := by
  rw [connections, List.foldl_append]
  rfl

theorem mem_keys_connections {xs : List Sighting} {key : FlowKey} :
    key ∈ (connections xs).map Sighting.key ↔ ∃ s ∈ xs, s.key = key := by
  induction xs using List.reverseRecOn with
  | nil => simp [connections]
  | append_singleton xs s ih =>
    have hlast : (∃ s' ∈ xs ++ [s], s'.key = key) ↔ (∃ s' ∈ xs, s'.key = key) ∨ s.key = key := by
      simp only [List.mem_append, List.mem_singleton, or_and_right, exists_or, exists_eq_left]
    rw [connections_concat, hlast, ← ih]
    split_ifs with hs
    · constructor
      · intro hkey
        exact .inl hkey
      · rintro (hkey | rfl)
        · exact hkey
        · exact hs
    · rw [List.map_append, List.mem_append, List.map_singleton, List.mem_singleton,
        eq_comm (a := key)]

theorem rtake_rtake_concat {α : Type} (n : ℕ) (xs : List α) (x : α) :
    (xs.rtake n ++ [x]).rtake n = (xs ++ [x]).rtake n := by
  unfold List.rtake
  rcases Nat.lt_or_ge xs.length n with hlt | hge
  · rw [Nat.sub_eq_zero_of_le hlt.le, List.drop_zero]
  · cases n with
    | zero => simp
    | succ n =>
      have hone : xs.length + 1 - (n + 1) = (xs.length - (n + 1)) + 1 := by omega
      have hlen : (xs.drop (xs.length - (n + 1))).length = n + 1 := by
        rw [List.length_drop]
        omega
      rw [List.length_append, List.length_append, hlen, List.length_singleton,
        Nat.add_sub_cancel_left, hone, List.drop_append_of_le_length (by omega),
        List.drop_append_of_le_length (by omega), List.drop_drop]

theorem connectionStarts_concat (remoteIp : Str) (xs : List Sighting) (s : Sighting) :
    connectionStarts remoteIp (xs ++ [s]) =
      if (∃ s' ∈ xs, s'.key = s.key) ∨ s.key.remoteIp ≠ remoteIp then connectionStarts remoteIp xs
      else pushStart s.now (connectionStarts remoteIp xs) := by
  unfold connectionStarts
  rw [connections_concat]
  by_cases hseen : ∃ s' ∈ xs, s'.key = s.key
  · rw [if_pos (mem_keys_connections.mpr hseen), if_pos (.inl hseen)]
  · rw [if_neg fun hmem => hseen (mem_keys_connections.mp hmem), List.filter_append]
    by_cases hip : s.key.remoteIp = remoteIp
    · simp [hseen, hip, pushStart, rtake_rtake_concat]
    · simp [hseen, hip]

theorem mem_keys_accumulated {num : Numerics} {xs : List Sighting} {key : FlowKey} :
    key ∈ (accumulated num xs).map Prod.fst ↔ ∃ s ∈ xs, s.key = key :=
  (isGrouping_accumulated num xs).keys key

/-- One packet keeps the start times those of the flows, when its flow has not been drained. -/
theorem starts_record {num : Numerics} {table : FlowTable} {past xs : List Sighting}
    {remoteIp : Str} (s : Sighting) (hflows : table.flows = accumulated num xs)
    (hstarts : ∀ ip, table.starts.get ip [] = connectionStarts ip (past ++ xs))
    (hnew : ∀ s' ∈ past, s'.key ≠ s.key) :
    (table.record num s).starts.get remoteIp [] =
      connectionStarts remoteIp (past ++ (xs ++ [s])) := by
  have hseen : (∃ s' ∈ past ++ xs, s'.key = s.key) ↔ s.key ∈ table.flows.map Prod.fst := by
    rw [hflows, mem_keys_accumulated]
    constructor
    · rintro ⟨s', hs', hkey⟩
      rcases List.mem_append.mp hs' with hpast | hlive
      · exact absurd hkey (hnew s' hpast)
      · exact ⟨s', hlive, hkey⟩
    · rintro ⟨s', hs', hkey⟩
      exact ⟨s', List.mem_append_right _ hs', hkey⟩
  rw [← List.append_assoc, connectionStarts_concat]
  simp only [hseen]
  unfold FlowTable.record
  by_cases hkey : s.key ∈ table.flows.map Prod.fst
  · rw [if_pos hkey, if_pos (.inl hkey), hstarts]
  · rw [if_neg hkey, Dict.get_set]
    by_cases hip : remoteIp = s.key.remoteIp
    · subst hip
      rw [if_pos rfl, if_neg (by simp [hkey]), hstarts]
    · rw [if_neg hip, if_pos (.inr (Ne.symm hip)), hstarts]

theorem pairwise_merge {past xs : List Sighting} {windows : List (List Sighting)}
    (h : (past :: xs :: windows).Pairwise fun w w' => ∀ s ∈ w, ∀ s' ∈ w', s.key ≠ s'.key) :
    ((past ++ xs) :: windows).Pairwise fun w w' => ∀ s ∈ w, ∀ s' ∈ w', s.key ≠ s'.key := by
  obtain ⟨hpast, hrest⟩ := List.pairwise_cons.mp h
  obtain ⟨hxs, hrest⟩ := List.pairwise_cons.mp hrest
  refine List.pairwise_cons.mpr ⟨?_, hrest⟩
  intro w hw s hs
  rcases List.mem_append.mp hs with hs | hs
  · exact hpast w (List.mem_cons_of_mem _ hw) s hs
  · exact hxs w hw s hs

theorem starts_foldl (num : Numerics) (ops : List FlowOp) :
    ∀ (run : FlowRun) (past xs : List Sighting), run.table.flows = accumulated num xs →
      (∀ ip, run.table.starts.get ip [] = connectionStarts ip (past ++ xs)) →
      (past :: windowsAfter xs run.table.localAddresses ops).Pairwise
        (fun w w' => ∀ s ∈ w, ∀ s' ∈ w', s.key ≠ s'.key) →
      ∀ ip, (ops.foldl (FlowRun.apply num) run).table.starts.get ip [] =
        connectionStarts ip (past ++ xs ++ sightings run.table.localAddresses ops) := by
  induction ops with
  | nil =>
    intro run past xs hflows hstarts hspan ip
    simpa [sightings] using hstarts ip
  | cons op ops ih =>
    intro run past xs hflows hstarts hspan ip
    rw [List.foldl_cons]
    cases op with
    | drain =>
      have hspan' : ((past ++ xs) :: windowsAfter [] run.table.localAddresses ops).Pairwise
          fun w w' => ∀ s ∈ w, ∀ s' ∈ w', s.key ≠ s'.key := by
        rw [windowsAfter_drain] at hspan
        rw [windowsAfter_nil]
        exact pairwise_merge hspan
      have hstarts' : ∀ ip, run.table.starts.get ip [] =
          connectionStarts ip ((past ++ xs) ++ []) := by
        intro ip
        rw [List.append_nil]
        exact hstarts ip
      have hrun := ih (run.apply num .drain) (past ++ xs) [] rfl hstarts' hspan' ip
      rw [List.append_nil] at hrun
      rw [sightings_cons]
      exact hrun
    | observe packet now =>
      rw [windowsAfter_observe] at hspan
      cases hs : packet.sighting run.table.localAddresses now with
      | none =>
        have hobserve : run.table.observe num packet now = run.table := by
          rw [FlowTable.observe, hs]
        rw [hs, Option.toList_none, List.append_nil] at hspan
        have hrun := ih run past xs hflows hstarts hspan ip
        rw [sightings_cons, FlowOp.sighting, hs, FlowRun.apply, hobserve]
        exact hrun
      | some s =>
        have hobserve : run.table.observe num packet now = run.table.record num s := by
          rw [FlowTable.observe, hs]
        rw [hs, Option.toList_some] at hspan
        have hnew : ∀ s' ∈ past, s'.key ≠ s.key := by
          intro s' hs'
          obtain ⟨w, ws, -, hafter⟩ :=
            windowsAfter_eq_cons (xs ++ [s]) run.table.localAddresses ops
          rw [hafter] at hspan
          have hmem : s ∈ xs ++ [s] ++ w := by simp
          exact (List.pairwise_cons.mp hspan).1 _ List.mem_cons_self s' hs' s hmem
        have hflows' : (run.table.record num s).flows = accumulated num (xs ++ [s]) := by
          rw [accumulated_concat, ← hflows]
          rfl
        have hrun := ih ⟨run.drained, run.table.record num s⟩ past (xs ++ [s]) hflows'
          (fun ip => starts_record s hflows hstarts hnew) hspan ip
        rw [sightings_cons, FlowOp.sighting, hs, FlowRun.apply, hobserve, Option.toList_some,
          ← List.append_assoc, List.append_assoc past xs [s]]
        exact hrun

/-- While no flow spans a drain, every flow is one start for its destination. -/
theorem starts_run (num : Numerics) {localAddresses : List Str} {ops : List FlowOp}
    (h : NoFlowSpansDrain localAddresses ops) (remoteIp : Str) :
    (FlowRun.run num localAddresses ops).table.starts.get remoteIp [] =
      connectionStarts remoteIp (sightings localAddresses ops) := by
  have hspan : ([] :: windowsAfter [] localAddresses ops).Pairwise
      fun w w' => ∀ s ∈ w, ∀ s' ∈ w', s.key ≠ s'.key := by
    rw [windowsAfter_nil]
    exact List.pairwise_cons.mpr ⟨fun w _ s hs => absurd hs List.not_mem_nil, h⟩
  exact starts_foldl num ops ⟨[], .init localAddresses⟩ [] [] rfl (fun ip => rfl) hspan remoteIp

/-- Two placements of the drains among the same packets leave the same timing, as long as no flow
spans a drain; each flow then counts as one start. -/
theorem intervalVariance_eq (num : Numerics) (localAddresses : List Str) (ops ops' : List FlowOp)
    (hsame : ops.filter (fun op => !op.isDrain) = ops'.filter (fun op => !op.isDrain))
    (h : NoFlowSpansDrain localAddresses ops) (h' : NoFlowSpansDrain localAddresses ops')
    (remoteIp : Str) :
    (FlowRun.run num localAddresses ops).table.intervalVariance remoteIp =
        (FlowRun.run num localAddresses ops').table.intervalVariance remoteIp ∧
      (FlowRun.run num localAddresses ops).table.starts.get remoteIp [] =
        connectionStarts remoteIp (sightings localAddresses ops) := by
  have hpackets : ∀ os : List FlowOp, sightings localAddresses os =
      sightings localAddresses (os.filter fun op => !op.isDrain) := by
    intro os
    induction os with
    | nil => rfl
    | cons op os ih =>
      cases op with
      | observe packet now =>
        rw [List.filter_cons_of_pos rfl, sightings_cons, sightings_cons, ← ih]
      | drain =>
        rw [List.filter_cons_of_neg (by simp [FlowOp.isDrain]), sightings_cons, ih]
        rfl
  have hsightings : sightings localAddresses ops = sightings localAddresses ops' := by
    rw [hpackets ops, hpackets ops', hsame]
  constructor
  · rw [FlowTable.intervalVariance, FlowTable.intervalVariance, starts_run num h,
      starts_run num h', hsightings]
  · exact starts_run num h remoteIp

/-- A packet from a local port to one remote service. -/
def plainPacket (localIp : Str) (localPort : ℕ) (remoteIp : Str) (remotePort : ℕ) : Packet where
  ip := none
  ipv6 := some ⟨localIp, remoteIp⟩
  tcp := some ⟨localPort, remotePort⟩
  udp := none
  dns := none
  size := 60

/-- One packet of one connection, at a time. -/
def keepAlive (now : Float) : FlowOp :=
  .observe (plainPacket (str "fd::1") 40000 (str "fd::2") 22) now

set_option maxRecDepth 4000 in
/-- Three packets of one connection: with a sweep between them they count as three starts, and as
one without. -/
theorem intervalVariance_depends_on_drains : ¬∀ (num : Numerics) (localAddresses : List Str)
    (ops ops' : List FlowOp),
    ops.filter (fun op => !op.isDrain) = ops'.filter (fun op => !op.isDrain) →
    ∀ remoteIp, (FlowRun.run num localAddresses ops).table.intervalVariance remoteIp =
      (FlowRun.run num localAddresses ops').table.intervalVariance remoteIp := by
  intro h
  let num : Numerics := ⟨id, fun _ => 0.0⟩
  let swept : List FlowOp :=
    [keepAlive 0.0, .drain, keepAlive 60.0, .drain, keepAlive 120.0]
  let unswept : List FlowOp := [keepAlive 0.0, keepAlive 60.0, keepAlive 120.0]
  have heq := h num [str "fd::1"] swept unswept rfl (str "fd::2")
  have hone : ((FlowRun.run num [str "fd::1"] unswept).table.starts.get (str "fd::2")
      []).length = 1 := rfl
  have hthree : ((FlowRun.run num [str "fd::1"] swept).table.starts.get (str "fd::2")
      []).length = 3 := rfl
  rw [FlowTable.intervalVariance, FlowTable.intervalVariance, if_neg (by omega),
    if_pos (by omega)] at heq
  cases hvariance : Py.pvariance (List.zipWith (fun a b => b - a)
      ((FlowRun.run num [str "fd::1"] swept).table.starts.get (str "fd::2") [])
      ((FlowRun.run num [str "fd::1"] swept).table.starts.get (str "fd::2") []).tail) with
  | error e =>
    rw [hvariance] at heq
    cases heq
  | ok variance =>
    rw [hvariance] at heq
    cases heq

/-- A packet of one of several connections to one service. -/
def connecting (localPort : ℕ) (now : Float) : FlowOp :=
  .observe (plainPacket (str "fd::1") localPort (str "fd::2") 22) now

/-- Three connections with a sweep before the last, or one before each of the last two. -/
theorem intervalVariance_eq_three :
    let num : Numerics := ⟨id, fun _ => 0.0⟩
    let swept := [connecting 40000 0.0, connecting 40001 60.0, .drain, connecting 40002 180.0]
    let sweptTwice := [connecting 40000 0.0, .drain, connecting 40001 60.0, .drain,
      connecting 40002 180.0]
    (FlowRun.run num [str "fd::1"] swept).table.intervalVariance (str "fd::2") =
        (FlowRun.run num [str "fd::1"] sweptTwice).table.intervalVariance (str "fd::2") ∧
      (FlowRun.run num [str "fd::1"] swept).table.starts.get (str "fd::2") [] =
        [0.0, 60.0, 180.0] := by
  intro num swept sweptTwice
  have hswept : NoFlowSpansDrain [str "fd::1"] swept := by
    unfold NoFlowSpansDrain
    decide
  have hsweptTwice : NoFlowSpansDrain [str "fd::1"] sweptTwice := by
    unfold NoFlowSpansDrain
    decide
  obtain ⟨hsame, hstarts⟩ := intervalVariance_eq num [str "fd::1"] swept sweptTwice rfl hswept
    hsweptTwice (str "fd::2")
  exact ⟨hsame, hstarts.trans rfl⟩

end Ebabf
