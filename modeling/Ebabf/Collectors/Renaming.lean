import Ebabf.Collectors.Capture
import Ebabf.Collectors.Process
import Ebabf.Collectors.UserActivity

/-!
# The users under other names

Two hosts that differ in nothing but what their users are called. Where the two contexts hand out
the same pseudonyms, the process, network and user activity collectors build the same events on
both, whatever their order and number: past `_build_event` a user is a pseudonym.
-/

namespace Ebabf

open Py (Str str Exc Dict Datetime Proc)

/-- Other names for the users: one for each, and none of them is empty or stands for the host. -/
structure Renaming where
  name : Str → Str
  injective : Function.Injective name
  nil : name [] = []
  host : name HOST_SUBJECT = HOST_SUBJECT

namespace Renaming

variable (ρ : Renaming)

theorem name_eq_nil {subject : Str} : ρ.name subject = [] ↔ subject = [] := by
  constructor
  · intro h
    exact ρ.injective (h.trans ρ.nil.symm)
  · rintro rfl
    exact ρ.nil

/-- Alice is called bob, and bob alice. -/
def aliceBob : Renaming where
  name := Equiv.swap (str "alice") (str "bob")
  injective := (Equiv.swap (str "alice") (str "bob")).injective
  nil := Equiv.swap_apply_of_ne_of_ne (by decide) (by decide)
  host := Equiv.swap_apply_of_ne_of_ne (by decide) (by decide)

end Renaming

/-- Two contexts that draw the same, and have the same pseudonym for a user and its other name. -/
structure CollectorContext.RenamedBy (ρ : Renaming) (c c' : CollectorContext) : Prop where
  host_id : c'.hostId = c.hostId
  tenant_id : c'.tenantId = c.tenantId
  event_ids : c'.eventIds = c.eventIds
  readings : c'.readings = c.readings
  mints : c'.mints = c.mints
  forward : ∀ subject, c'.forward.get? (ρ.name subject) = c.forward.get? subject

section

variable {ρ : Renaming} {c c' : CollectorContext}

theorem CollectorContext.RenamedBy.pseudonymize (h : c.RenamedBy ρ c') (subject : Str) :
    (CollectorContext.pseudonymize (ρ.name subject) c').outcome =
        (CollectorContext.pseudonymize subject c).outcome ∧
      (CollectorContext.pseudonymize subject c).state.RenamedBy ρ
        (CollectorContext.pseudonymize (ρ.name subject) c').state := by
  unfold CollectorContext.pseudonymize
  by_cases hempty : subject = []
  · rw [if_pos hempty, if_pos (ρ.name_eq_nil.mpr hempty)]
    exact ⟨rfl, h⟩
  · rw [if_neg hempty, if_neg (mt ρ.name_eq_nil.mp hempty), h.forward subject, h.mints]
    cases c.forward.get? subject with
    | some pseudonym => exact ⟨rfl, h⟩
    | none =>
      refine ⟨rfl, h.host_id, h.tenant_id, h.event_ids, h.readings, rfl, ?_⟩
      intro other
      rw [Dict.get?_set, Dict.get?_set, h.forward other]
      simp only [ρ.injective.eq_iff]

theorem CollectorContext.RenamedBy.clock (h : c.RenamedBy ρ c') :
    (CollectorContext.clock c).state.RenamedBy ρ (CollectorContext.clock c').state :=
  ⟨h.host_id, h.tenant_id, h.event_ids, congrArg (fun readings n => readings (n + 1)) h.readings,
    h.mints, h.forward⟩

theorem CollectorContext.RenamedBy.afterDraws (h : c.RenamedBy ρ c') (timestamp : Option Datetime) :
    (Collector.afterDraws timestamp c).RenamedBy ρ (Collector.afterDraws timestamp c') := by
  have hids := congrArg (fun ids (n : ℕ) => ids (n + 1)) h.event_ids
  cases timestamp with
  | none =>
    exact ⟨h.host_id, h.tenant_id, hids, congrArg (fun readings n => readings (n + 1)) h.readings,
      h.mints, h.forward⟩
  | some timestamp => exact ⟨h.host_id, h.tenant_id, hids, h.readings, h.mints, h.forward⟩

theorem Collector.buildEvent_renamed (h : c.RenamedBy ρ c') (source : EventSource) (subject : Str)
    (rawAttributes : Mapping) (timestamp : Option Datetime) :
    (buildEvent source (ρ.name subject) rawAttributes timestamp c').outcome =
        (buildEvent source subject rawAttributes timestamp c).outcome ∧
      (buildEvent source subject rawAttributes timestamp c).state.RenamedBy ρ
        (buildEvent source (ρ.name subject) rawAttributes timestamp c').state := by
  obtain ⟨hok, hstate⟩ := (h.afterDraws timestamp).pseudonymize subject
  refine ⟨outcome_buildEvent_congr h.host_id h.tenant_id h.event_ids h.readings hok source
    rawAttributes, ?_⟩
  rw [buildEvent_eq, buildEvent_eq]
  exact hstate

end

theorem oneContext_renamedBy (ρ : Renaming) : oneContext.RenamedBy ρ oneContext :=
  ⟨rfl, rfl, rfl, rfl, rfl, fun _ => rfl⟩

def ProcessInfo.rename (ρ : Renaming) (entry : ProcessInfo) : ProcessInfo :=
  { entry with username := entry.username.map ρ.name }

def ProcessTable.rename (ρ : Renaming) (table : ProcessTable) : ProcessTable :=
  { table with processes := table.processes.map (Option.map (ProcessInfo.rename ρ)) }

section

variable (ρ : Renaming)

theorem snapshot_rename (table : ProcessTable) :
    (table.rename ρ).snapshot = table.snapshot.map (ProcessInfo.rename ρ) := by
  unfold ProcessTable.snapshot ProcessTable.rename
  rw [List.filterMap_map, List.map_filterMap]
  rfl

theorem filter_rename (username : Option Str) : (username.map ρ.name).filter (· ≠ []) =
    (username.filter (· ≠ [])).map ρ.name := by
  cases username with
  | none => rfl
  | some username =>
    rw [Option.map_some, Option.filter_some, Option.filter_some]
    simp only [ne_eq, ρ.name_eq_nil]
    split_ifs <;> rfl

theorem owned_rename (entry : ProcessInfo) :
    (entry.rename ρ).owned = entry.owned.map (Prod.map id ρ.name) := by
  unfold ProcessInfo.owned
  have hfilter := filter_rename ρ entry.username
  have hrename : (entry.rename ρ).username = entry.username.map ρ.name := rfl
  have hpid : (entry.rename ρ).pid = entry.pid := rfl
  rw [hrename, hpid, hfilter]
  cases entry.pid with
  | none => rfl
  | some pid => cases entry.username.filter (· ≠ []) <;> rfl

theorem describe_rename (table : ProcessTable) (pid : ℕ) (firstSighting : Bool)
    (entry : ProcessInfo) : (entry.rename ρ).describe (table.rename ρ) pid firstSighting =
      entry.describe table pid firstSighting := by
  have hcount : (table.rename ρ).childCount pid = table.childCount pid := by
    unfold ProcessTable.childCount
    rw [snapshot_rename, List.filterMap_map]
    rfl
  have hname : ∀ parent, (table.rename ρ).nameOf parent = table.nameOf parent := by
    intro parent
    unfold ProcessTable.nameOf
    rw [snapshot_rename, ← List.map_reverse, List.find?_map, Option.bind_map]
    rfl
  unfold ProcessInfo.describe
  simp only [hcount, hname]
  rfl

end

namespace ProcessCollector

/-- The same processes have been sampled, in contexts that differ by the names. -/
structure RenamedBy (ρ : Renaming) (c c' : ProcessCollector) : Prop where
  context : c.context.RenamedBy ρ c'.context
  sampled : c'.sampled = c.sampled

theorem couples_toEvent (ρ : Renaming) (table : ProcessTable) (pid : ℕ) (username : Str)
    (entry : ProcessInfo) : Proc.Couples Eq (RenamedBy ρ) (toEvent table pid username entry)
      (toEvent (table.rename ρ) pid (ρ.name username) (entry.rename ρ)) := by
  intro c c' h
  have hkey : (entry.rename ρ).key pid = entry.key pid := rfl
  unfold toEvent
  dsimp only
  rw [hkey, h.sampled, describe_rename]
  set attributes := entry.describe table pid (!(entry.key pid).isIn c.sampled)
  have hreading : (c'.sample (entry.key pid)).context.readings =
      (c.sample (entry.key pid)).context.readings := h.context.readings
  obtain ⟨hok, hstate⟩ := Collector.buildEvent_renamed h.context.clock .process username attributes
    (some (c.context.readings 0))
  unfold build
  dsimp only
  rw [hreading]
  refine ⟨hok, ?_, hstate, ?_⟩
  · rw [Collector.trace_buildEvent, Collector.trace_buildEvent]
    exact .nil
  · show (c'.sample (entry.key pid)).sampled = (c.sample (entry.key pid)).sampled
    unfold sample
    rw [h.sampled]

theorem couples_events (ρ : Renaming) (table : ProcessTable) (entries : List ProcessInfo) :
    Proc.Couples Eq (RenamedBy ρ) (events table entries)
      (events (table.rename ρ) (entries.map (ProcessInfo.rename ρ))) := by
  induction entries with
  | nil => exact Proc.couples_pure ()
  | cons entry entries ih =>
    rw [List.map_cons, events, events, owned_rename]
    cases entry.owned with
    | none => exact ih
    | some owner =>
      exact (couples_toEvent ρ table owner.1 owner.2 entry).bind fun event =>
        (Proc.couples_emit rfl).bind fun _ => ih

/-- However often it sweeps, the collector yields the same events under other names of the users. -/
theorem runs_rename (ρ : Renaming) {context context' : CollectorContext}
    (h : context.RenamedBy ρ context') (tables : List ProcessTable) :
    Proc.runs collect (tables.map (ProcessTable.rename ρ)) (init context') =
      Proc.runs collect tables (init context) := by
  have hcoupled : ∀ table, Proc.Couples Eq (RenamedBy ρ) (collect table)
      (collect (table.rename ρ)) := by
    intro table
    unfold collect
    rw [snapshot_rename]
    exact couples_events ρ table table.snapshot
  exact Proc.Couples.runs_map hcoupled tables ⟨h, rfl⟩

/-- Two sweeps over a process of alice's, and two where it is bob's. -/
theorem runs_rename_twice :
    let table : ProcessTable := ⟨[some { pid := some 7, username := some (str "alice") }], 0⟩
    Proc.runs collect ([table, table].map (ProcessTable.rename .aliceBob)) (init oneContext) =
      Proc.runs collect [table, table] (init oneContext) :=
  runs_rename .aliceBob (oneContext_renamedBy .aliceBob) _

end ProcessCollector

def SocketTable.rename (ρ : Renaming) (table : SocketTable) : SocketTable :=
  { table with username := fun pid => (table.username pid).map ρ.name }

def OwnedSocket.rename (ρ : Renaming) (s : OwnedSocket) : OwnedSocket :=
  { s with user := ρ.name s.user }

section

variable (ρ : Renaming)

theorem ownedSockets_rename (table : SocketTable) :
    (table.rename ρ).ownedSockets = table.ownedSockets.map (OwnedSocket.rename ρ) := by
  have howned : ∀ conn, (table.rename ρ).owned conn =
      (table.owned conn).map (OwnedSocket.rename ρ) := by
    intro conn
    unfold SocketTable.owned SocketTable.rename
    cases conn.laddr with
    | none => rfl
    | some endpoint =>
      cases conn.pid with
      | none => rfl
      | some pid =>
        dsimp only
        cases table.username pid with
        | none => rfl
        | some username =>
          dsimp only [Option.map_some]
          simp only [ρ.name_eq_nil]
          split_ifs <;> rfl
  unfold SocketTable.ownedSockets
  rw [List.map_filterMap]
  exact List.filterMap_congr fun conn _ => howned conn

theorem attribution_rename (table : SocketTable) (key : FlowKey) :
    attribution (table.rename ρ) key = (attribution table key).map ρ.name := by
  rw [attribution_eq, attribution_eq, socketsAt, socketsAt, ownedSockets_rename, List.filter_map,
    List.getLast?_map, Option.map_map, Option.map_map]
  rfl

theorem subjectOf_rename (owner : Option Str) :
    NetworkCollector.subjectOf (owner.map ρ.name) = ρ.name (NetworkCollector.subjectOf owner) := by
  cases owner with
  | none => exact ρ.host.symm
  | some owner =>
    rw [Option.map_some, NetworkCollector.subjectOf, NetworkCollector.subjectOf]
    simp only [ρ.name_eq_nil]
    split_ifs
    · exact ρ.host.symm
    · rfl

end

namespace NetworkCollector

/-- The same flows, whose owners and contexts differ by the names. -/
structure RenamedBy (ρ : Renaming) (c c' : NetworkCollector) : Prop where
  context : c.context.RenamedBy ρ c'.context
  flows : c'.flows = c.flows
  owners : ∀ key, c'.owners.ownerOf key = (c.owners.ownerOf key).map ρ.name

variable (ρ : Renaming)

theorem couples_flowEvent (destinations : ℕ) (key : FlowKey) (state : FlowState) :
    Proc.Couples Eq (RenamedBy ρ) (flowEvent destinations key state)
      (flowEvent destinations key state) := by
  intro c c' h
  unfold flowEvent
  dsimp only
  rw [h.flows, h.owners key, subjectOf_rename]
  cases c.flows.intervalVariance key.remoteIp with
  | error e => exact ⟨rfl, .nil, h⟩
  | ok variance =>
    have hdescribe : describe destinations key state ((c.owners.ownerOf key).map ρ.name) variance =
        describe destinations key state (c.owners.ownerOf key) variance := by
      unfold describe
      rw [Option.isSome_map]
    dsimp only
    rw [hdescribe]
    obtain ⟨hok, hstate⟩ := Collector.buildEvent_renamed h.context .network
      (subjectOf (c.owners.ownerOf key))
      (describe destinations key state (c.owners.ownerOf key) variance) none
    refine ⟨hok, ?_, hstate, rfl, h.owners⟩
    rw [Collector.trace_buildEvent, Collector.trace_buildEvent]
    exact .nil

theorem couples_flowEvents (destinations : ℕ) (flows : Flows) :
    Proc.Couples Eq (RenamedBy ρ) (flowEvents destinations flows)
      (flowEvents destinations flows) := by
  induction flows with
  | nil => exact Proc.couples_pure ()
  | cons flow flows ih =>
    exact (couples_flowEvent ρ destinations flow.1 flow.2).bind fun event =>
      (Proc.couples_emit rfl).bind fun _ => ih

theorem couples_collect (table : SocketTable) :
    Proc.Couples Eq (RenamedBy ρ) (collect table) (collect (table.rename ρ)) := by
  intro c c' h
  unfold collect
  dsimp only
  rw [h.flows]
  exact couples_flowEvents ρ _ _ _ _ ⟨h.context, rfl, attribution_rename ρ table⟩

end NetworkCollector

def CaptureOp.rename (ρ : Renaming) : CaptureOp → CaptureOp
  | .collect table => .collect (table.rename ρ)
  | op => op

/-- The sweep ended the same way and yielded the same. -/
structure CaptureSweep.Same (sweep sweep' : CaptureSweep) : Prop where
  outcome : sweep'.outcome = sweep.outcome
  events : sweep'.events = sweep.events

namespace CaptureRun

/-- The same has been swept, and the collectors differ by the names. -/
structure RenamedBy (ρ : Renaming) (r r' : CaptureRun) : Prop where
  collector : r.capture.collector.RenamedBy ρ r'.capture.collector
  source : r'.capture.source = r.capture.source
  started : r'.capture.started = r.capture.started
  sweeps : List.Forall₂ CaptureSweep.Same r.sweeps r'.sweeps

variable {ρ : Renaming} {r r' : CaptureRun}

theorem RenamedBy.step (num : Numerics) (op : CaptureOp) (h : r.RenamedBy ρ r') :
    (op.step num r).RenamedBy ρ ((op.rename ρ).step num r') := by
  obtain ⟨⟨collector, source, started⟩, sweeps⟩ := r
  obtain ⟨⟨collector', source', started'⟩, sweeps'⟩ := r'
  obtain ⟨hcollector, hsource, hstarted, hsweeps⟩ := h
  dsimp only at hcollector hsource hstarted hsweeps
  subst hsource hstarted
  cases op with
  | start launch =>
    unfold CaptureOp.rename CaptureOp.step NetworkCapture.start
    dsimp only
    cases started' with
    | true => exact ⟨hcollector, rfl, rfl, hsweeps⟩
    | false =>
      rcases source'.start launch with ⟨e | _, launched⟩ <;>
        exact ⟨hcollector, rfl, rfl, hsweeps⟩
  | close => cases started' <;> exact ⟨hcollector, rfl, rfl, hsweeps⟩
  | die exception => exact ⟨hcollector, rfl, rfl, hsweeps⟩
  | observe packet now =>
    refine ⟨⟨hcollector.context, ?_, hcollector.owners⟩, rfl, rfl, hsweeps⟩
    exact congrArg (FlowTable.observe num packet now) hcollector.flows
  | collect table =>
    obtain ⟨houtcome, htrace, hstate⟩ :=
      NetworkCollector.couples_collect ρ table collector collector' hcollector
    rw [List.forall₂_eq_eq_eq] at htrace
    refine ⟨hstate, rfl, rfl, List.rel_append hsweeps (.cons ?_ .nil)⟩
    exact ⟨houtcome, htrace.symm⟩

/-- Whatever the order of packets, sweeps, starts, closes and deaths of the capture thread, the
network collector's sweeps end the same way and yield the same under other names of the users. -/
theorem sweeps_rename (num : Numerics) (ρ : Renaming) {context context' : CollectorContext}
    (h : context.RenamedBy ρ context') (localAddresses : List Str) (ops : List CaptureOp) :
    List.Forall₂ CaptureSweep.Same
      (Transition.run (CaptureOp.step num) ops (.init context localAddresses)).sweeps
      (Transition.run (CaptureOp.step num) (ops.map (CaptureOp.rename ρ))
        (.init context' localAddresses)).sweeps := by
  have hinit : (CaptureRun.init context localAddresses).RenamedBy ρ
      (.init context' localAddresses) := ⟨⟨h, rfl, fun _ => rfl⟩, rfl, rfl, .nil⟩
  exact (Transition.run_map (fun op _ _ h => h.step num op) ops hinit).sweeps

/-- A packet is seen on a socket of alice's, and on one of bob's. -/
theorem sweeps_rename_packet :
    let num : Numerics := ⟨id, fun _ => 0.0⟩
    let packet := plainPacket (str "fd::1") 40000 (str "fd::2") 22
    let table : SocketTable :=
      ⟨some [⟨.stream, some (str "fd::1", 40000), some 7⟩], fun _ => some (str "alice")⟩
    let ops : List CaptureOp :=
      [.start (.settled ⟨none, some true⟩), .observe packet 0.0, .collect table, .close]
    List.Forall₂ CaptureSweep.Same
      (Transition.run (CaptureOp.step num) ops (.init oneContext [str "fd::1"])).sweeps
      (Transition.run (CaptureOp.step num) (ops.map (CaptureOp.rename .aliceBob))
        (.init oneContext [str "fd::1"])).sweeps :=
  sweeps_rename _ .aliceBob (oneContext_renamedBy .aliceBob) _ _

end CaptureRun

def AuthEvent.rename (ρ : Renaming) (record : AuthEvent) : AuthEvent :=
  { record with username := ρ.name record.username }

def Session.rename (ρ : Renaming) (session : Session) : Session :=
  { session with name := ρ.name session.name }

/-- What two sweeps meet: a read returns records, and the session table has sessions, that differ
by the names. -/
structure Readings.RenamedBy (ρ : Renaming) (limit : ℕ) (auth : AuthSource) (s s' : Readings) :
    Prop where
  records : ∀ since, auth.readSince limit s'.records since =
    (auth.readSince limit s.records since).map (List.map (AuthEvent.rename ρ))
  users : s'.users = s.users.map (List.map (Session.rename ρ))

section

variable (ρ : Renaming)

theorem countUser_rekey (counter : Dict ℕ) (username : Str) :
    countUser (counter.rekey ρ.injective) (ρ.name username) =
      (countUser counter username).rekey ρ.injective := by
  unfold countUser
  rw [Dict.rekey_set, Dict.get_rekey]

theorem countersOf_rename (records : List AuthEvent) :
    countersOf (records.map (AuthEvent.rename ρ)) = ((countersOf records).1.rekey ρ.injective,
      (countersOf records).2.rekey ρ.injective) := by
  induction records using List.reverseRecOn with
  | nil => rfl
  | append_singleton records record ih =>
    rw [List.map_append, countersOf, countersOf, List.foldl_append, List.foldl_append, ← countersOf,
      ← countersOf, ih]
    simp only [List.map_cons, List.map_nil, List.foldl_cons, List.foldl_nil, tally]
    have hkind : (record.rename ρ).kind = record.kind := rfl
    rw [hkind]
    cases record.kind
    · exact congrArg (·, _) (countUser_rekey ρ _ record.username)
    · exact congrArg (_, ·) (countUser_rekey ρ _ record.username)

end

namespace UserActivity

/-- The same source, read last at the same time, in contexts that differ by the names. -/
structure RenamedBy (ρ : Renaming) (source : AuthSource) (m m' : UserActivity) : Prop where
  context : m.context.RenamedBy ρ m'.context
  auth : m.auth = source
  auth' : m'.auth = source
  last_read : m'.lastRead = m.lastRead

variable {ρ : Renaming} {source : AuthSource} {m m' : UserActivity}

section

variable {limit : ℕ} {s s' : Readings}

theorem namedSessions_rename (h : s.RenamedBy ρ limit source s') :
    namedSessions s' = (namedSessions s).map (Session.rename ρ) := by
  have hsessions : s'.users.getD [] = (s.users.getD []).map (Session.rename ρ) := by
    rw [h.users]
    cases s.users <;> rfl
  unfold namedSessions
  rw [hsessions, List.filter_map]
  congr 1
  apply List.filter_congr
  intro session _
  rw [Function.comp_apply, Bool.eq_iff_iff, bne_iff_ne, bne_iff_ne]
  exact not_congr ρ.name_eq_nil

theorem absentUsers_rename (h : s.RenamedBy ρ limit source s') (failed : Dict ℕ) :
    absentUsers s' (failed.rekey ρ.injective) =
      (absentUsers s failed).map (Prod.map ρ.name id) := by
  unfold absentUsers Dict.rekey
  dsimp only
  rw [List.filter_map, namedSessions_rename h]
  congr 1
  apply List.filter_congr
  intro entry _
  have hmem : ρ.name entry.1 ∈ ((namedSessions s).map (Session.rename ρ)).map Session.name ↔
      entry.1 ∈ (namedSessions s).map Session.name := by
    rw [List.map_map]
    constructor
    · intro hname
      obtain ⟨session, hsession, heq⟩ := List.mem_map.mp hname
      exact List.mem_map.mpr ⟨session, hsession, ρ.injective heq⟩
    · intro hname
      obtain ⟨session, hsession, heq⟩ := List.mem_map.mp hname
      exact List.mem_map.mpr ⟨session, hsession, congrArg ρ.name heq⟩
  rw [Function.comp_apply, decide_eq_decide]
  exact not_congr hmem

theorem describeSession_rename (hm : m.RenamedBy ρ source m') (now : Datetime)
    (failed sudos : Dict ℕ) (session : Session) :
    describeSession m' now (failed.rekey ρ.injective, sudos.rekey ρ.injective) (session.rename ρ) =
      describeSession m now (failed, sudos) session := by
  have hname : (session.rename ρ).name = ρ.name session.name := rfl
  have hduration : sessionDuration (session.rename ρ) = sessionDuration session := rfl
  have hterminal : (session.rename ρ).terminal = session.terminal := rfl
  have hremote : isRemote (session.rename ρ) = isRemote session := rfl
  unfold describeSession authAvailable
  rw [hm.auth, hm.auth', hname, Dict.get_rekey, Dict.get_rekey, hduration, hterminal, hremote]

theorem describeAbsent_rename (hm : m.RenamedBy ρ source m') (now : Datetime)
    (failed sudos : Dict ℕ) (username : Str) (count : ℕ) :
    describeAbsent m' now (failed.rekey ρ.injective, sudos.rekey ρ.injective) (ρ.name username)
        count = describeAbsent m now (failed, sudos) username count := by
  unfold describeAbsent
  rw [hm.auth, hm.auth', Dict.get_rekey]

theorem plan_rename (hm : m.RenamedBy ρ source m') (h : s.RenamedBy ρ limit source s')
    (now : Datetime) (records : List AuthEvent) :
    m'.plan now s' (countersOf (records.map (AuthEvent.rename ρ))) =
      (m.plan now s (countersOf records)).map (Prod.map ρ.name id) := by
  have havailable : m'.authAvailable = m.authAvailable := by
    unfold authAvailable
    rw [hm.auth, hm.auth']
  rw [countersOf_rename]
  generalize countersOf records = counters
  obtain ⟨failed, sudos⟩ := counters
  unfold plan
  rw [List.map_append, namedSessions_rename h, absentUsers_rename h, havailable, List.map_map,
    List.map_map]
  congr 1
  · rw [List.map_map]
    apply List.map_congr_left
    intro session _
    have hname : (session.rename ρ).name = ρ.name session.name := rfl
    simp only [Function.comp_apply, Prod.map_apply, id_eq, hname, describeSession_rename hm]
  · cases m.authAvailable with
    | false => rfl
    | true =>
      rw [if_pos rfl, if_pos rfl, List.map_map]
      apply List.map_congr_left
      intro entry _
      simp only [Function.comp_apply, Prod.map_fst, Prod.map_snd, Prod.map_apply, id_eq,
        describeAbsent_rename hm]

end

/-- The same event, whatever name it was built for. -/
def SameEvent (report report' : UserReport) : Prop := report'.event = report.event

theorem couples_build (ρ : Renaming) (source : AuthSource) (subject : Str)
    (rawAttributes : Mapping) : Proc.Couples SameEvent (RenamedBy ρ source)
      (build subject rawAttributes) (build (ρ.name subject) rawAttributes) := by
  intro m m' h
  obtain ⟨hok, hstate⟩ := Collector.buildEvent_renamed h.context .user subject rawAttributes none
  exact ⟨hok, .nil, hstate, h.auth, h.auth', h.last_read⟩

theorem couples_yieldEvents (ρ : Renaming) (source : AuthSource) (plan : List (Str × Mapping)) :
    Proc.Couples SameEvent (RenamedBy ρ source) (yieldEvents plan)
      (yieldEvents (plan.map (Prod.map ρ.name id))) := by
  induction plan with
  | nil => exact Proc.couples_pure ()
  | cons entry plan ih =>
    refine (couples_build ρ source entry.1 entry.2).bind fun event => ?_
    refine Proc.Couples.bind (Proc.couples_emit ?_) fun _ => ih
    exact rfl

theorem couples_collect {limit : ℕ} {s s' : Readings} (h : s.RenamedBy ρ limit source s') :
    Proc.Couples SameEvent (RenamedBy ρ source) (collect limit s) (collect limit s') := by
  intro m m' hm
  have hcutoff : m'.cutoff = m.cutoff := by
    unfold cutoff
    simp only [hm.last_read, hm.context.readings]
  have hlast : m'.clocked.lastRead = m.clocked.lastRead := by
    unfold clocked
    simp only [hm.context.readings]
  have hclocked : m.clocked.RenamedBy ρ source m'.clocked :=
    ⟨hm.context.clock, hm.auth, hm.auth', hlast⟩
  have hread : m'.auth.readSince limit s'.records m'.cutoff =
      (m.auth.readSince limit s.records m.cutoff).map (List.map (AuthEvent.rename ρ)) := by
    rw [hcutoff, hm.auth', hm.auth]
    exact h.records m.cutoff
  cases hrecords : m.auth.readSince limit s.records m.cutoff with
  | error e =>
    rw [hrecords] at hread
    rw [collect_of_error hrecords, collect_of_error hread]
    exact ⟨rfl, .nil, hclocked⟩
  | ok records =>
    rw [hrecords] at hread
    rw [collect_of_ok hrecords, collect_of_ok hread, hm.context.readings, plan_rename hm h]
    exact couples_yieldEvents ρ source _ _ _ hclocked

/-- How a sweep ended, and the events it yielded. -/
def eventsOf (ran : Except Exc Unit × List UserReport) : Except Exc Unit × List Event :=
  (ran.1, ran.2.map UserReport.event)

/-- However often it sweeps, the user activity collector yields the same events under other names
of the users, in the session table as in the authentication records. -/
theorem events_rename (ρ : Renaming) (limit : ℕ) {m m' : UserActivity}
    (h : m.RenamedBy ρ source m') {readings readings' : List Readings}
    (hreadings : List.Forall₂ (Readings.RenamedBy ρ limit source) readings readings') :
    (Proc.runs (collect limit) readings' m').map eventsOf =
      (Proc.runs (collect limit) readings m).map eventsOf := by
  have hruns := Proc.Couples.runs (fun s s' hs => couples_collect hs) hreadings h
  have hsame : List.Forall₂ Eq ((Proc.runs (collect limit) readings m).map eventsOf)
      ((Proc.runs (collect limit) readings' m').map eventsOf) := by
    rw [List.forall₂_map_left_iff, List.forall₂_map_right_iff]
    refine hruns.imp fun ran ran' hran => Prod.ext hran.1.symm ?_
    have hevents : List.Forall₂ Eq (ran.2.map UserReport.event) (ran'.2.map UserReport.event) := by
      rw [List.forall₂_map_left_iff, List.forall₂_map_right_iff]
      exact hran.2.imp fun report report' hreport => hreport.symm
    rw [List.forall₂_eq_eq_eq] at hevents
    exact hevents
  rw [List.forall₂_eq_eq_eq] at hsame
  exact hsame.symm

/-- Two sweeps with a session of alice's and a use of `sudo` by her, and two where it is bob. -/
theorem events_rename_twice :
    let alices := logging (some (str "sudo: alice : COMMAND=/bin/ls\n")) [aliceSession]
    let bobs := logging (some (str "sudo: bob : COMMAND=/bin/ls\n"))
      [aliceSession.rename .aliceBob]
    (Proc.runs (collect 1000) [bobs, bobs] logReader).map eventsOf =
      (Proc.runs (collect 1000) [alices, alices] logReader).map eventsOf := by
  intro alices bobs
  have hm : logReader.RenamedBy .aliceBob logReader.auth logReader :=
    ⟨oneContext_renamedBy .aliceBob, rfl, rfl, rfl⟩
  have hread : alices.RenamedBy .aliceBob 1000 logReader.auth bobs := ⟨fun _ => rfl, rfl⟩
  exact events_rename .aliceBob 1000 hm (.cons hread (.cons hread .nil))

end UserActivity

end Ebabf
