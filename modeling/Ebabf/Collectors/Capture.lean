import Ebabf.Collectors.FlowRuns
import Ebabf.Collectors.Network
import Ebabf.Transition

/-!
# The capture

The network collector with its packet source. It is started and closed, its capture thread hands
packets over or dies, and a sweep reads the socket table, drains the flow table and builds an event
for each flow, all in any order. The events of a sweep are those of the grouping of the packets
since the sweep before it; a capture that dies after it has started is never noticed.
-/

namespace Ebabf

open Py (Str str Exc Proc)
open Transition (run Always)

/-- An `AsyncSniffer`: the exception its thread has stored, and whether that thread is alive. -/
structure Sniffer where
  exception : Option Exc
  isAlive : Option Bool

def captureUnavailable (message : Str) : Exc := ⟨.other (str "CaptureUnavailable"), message⟩

/-- `_raise_if_capture_died` -/
def raiseIfCaptureDied : Option Sniffer → Except Exc Unit
  | none => .error (captureUnavailable (str "capture was never started"))
  | some sniffer =>
    match sniffer.exception with
    | some e => .error (captureUnavailable (str "capture failed to start: " ++ e.message))
    | none =>
      if sniffer.isAlive = some false then
        .error (captureUnavailable
          (str "the capture thread stopped immediately after starting; no packets will be seen"))
      else .ok ()

/-- What a start of the source meets: it raises before there is a sniffer, or the sniffer's `start`
does, or the sniffer is looked at once it has settled. -/
inductive Launch
  | failed (e : Exc)
  | refused (e : Exc) (sniffer : Sniffer)
  | settled (sniffer : Sniffer)

structure ScapyPacketSource where
  sniffer : Option Sniffer

namespace ScapyPacketSource

def start (launch : Launch) (source : ScapyPacketSource) : Except Exc Unit × ScapyPacketSource :=
  match launch with
  | .failed e => (.error e, source)
  | .refused e sniffer => (.error e, ⟨some sniffer⟩)
  | .settled sniffer => (raiseIfCaptureDied (some sniffer), ⟨some sniffer⟩)

/-- `stop`: what the sniffer raises is logged. -/
def stop (_ : ScapyPacketSource) : ScapyPacketSource := ⟨none⟩

/-- The sniffer's thread ends, and stores what it has raised, if anything. -/
def die (exception : Option Exc) (source : ScapyPacketSource) : ScapyPacketSource :=
  ⟨source.sniffer.map fun _ => ⟨exception, some false⟩⟩

/-- There is a sniffer whose thread has not ended. -/
def Alive (source : ScapyPacketSource) : Prop := ∃ sniffer ∈ source.sniffer,
  sniffer.isAlive ≠ some false

theorem not_alive_die (exception : Option Exc) (source : ScapyPacketSource) :
    ¬(source.die exception).Alive := by
  rintro ⟨sniffer, hsniffer, halive⟩
  obtain ⟨-, -, rfl⟩ := Option.map_eq_some_iff.mp hsniffer
  exact halive rfl

end ScapyPacketSource

structure NetworkCapture where
  collector : NetworkCollector
  source : ScapyPacketSource
  started : Bool

namespace NetworkCapture

/-- `NetworkCollector(context)` -/
def init (context : CollectorContext) (localAddresses : List Str) : NetworkCapture :=
  ⟨⟨context, ⟨[]⟩, .init localAddresses⟩, ⟨none⟩, false⟩

/-- `is_capturing` -/
def isCapturing (c : NetworkCapture) : Bool := c.started

def start (launch : Launch) (c : NetworkCapture) : Except Exc Unit × NetworkCapture :=
  if c.started then (.ok (), c)
  else
    match c.source.start launch with
    | (.error e, source) => (.error e, { c with source })
    | (.ok _, source) => (.ok (), { c with source, started := true })

def close (c : NetworkCapture) : NetworkCapture :=
  if c.started then { c with source := c.source.stop, started := false } else c

/-- A packet reaches the handler. -/
def observe (num : Numerics) (packet : Packet) (now : Float) (c : NetworkCapture) :
    NetworkCapture :=
  { c with collector := { c.collector with flows := c.collector.flows.observe num packet now } }

theorem collector_start (launch : Launch) (c : NetworkCapture) :
    (c.start launch).2.collector = c.collector := by
  unfold start
  split
  · rfl
  · split <;> rfl

theorem collector_close (c : NetworkCapture) : c.close.collector = c.collector := by
  unfold close
  split <;> rfl

end NetworkCapture

/-- A sweep that has been made: its socket table, how it ended, and what it yielded. -/
structure CaptureSweep where
  table : SocketTable
  outcome : Except Exc Unit
  events : List Event

/-- What happens to a capture. -/
inductive CaptureOp
  | start (launch : Launch)
  | close
  | die (exception : Option Exc)
  | observe (packet : Packet) (now : Float)
  | collect (table : SocketTable)

structure CaptureRun where
  capture : NetworkCapture
  sweeps : List CaptureSweep

namespace CaptureRun

def init (context : CollectorContext) (localAddresses : List Str) : CaptureRun :=
  ⟨.init context localAddresses, []⟩

def collect (table : SocketTable) (r : CaptureRun) : CaptureRun :=
  let ran := NetworkCollector.collect table r.capture.collector
  ⟨{ r.capture with collector := ran.state }, r.sweeps ++ [⟨table, ran.outcome, ran.trace⟩]⟩

end CaptureRun

namespace CaptureOp

def step (num : Numerics) : CaptureOp → CaptureRun → CaptureRun
  | .start launch, r => { r with capture := (r.capture.start launch).2 }
  | .close, r => { r with capture := r.capture.close }
  | .die exception, r =>
    { r with capture := { r.capture with source := r.capture.source.die exception } }
  | .observe packet now, r => { r with capture := r.capture.observe num packet now }
  | .collect table, r => r.collect table

/-- What the flow table sees of an operation. -/
def flowOp : CaptureOp → Option FlowOp
  | .observe packet now => some (.observe packet now)
  | .collect _ => some .drain
  | .start _ => none
  | .close => none
  | .die _ => none

end CaptureOp

namespace NetworkCollector

theorem flows_flowEvent (destinations : ℕ) (flow : FlowKey × FlowState) (c : NetworkCollector) :
    (flowEvent destinations flow.1 flow.2 c).state.flows = c.flows := by
  unfold flowEvent
  dsimp only
  cases c.flows.intervalVariance flow.1.remoteIp <;> rfl

theorem flowEvents_forall₂ (destinations : ℕ) (flows : Flows) :
    ∀ c : NetworkCollector,
      List.Forall₂ (fun flow event =>
          Reports (flowEvents destinations flows c).state.context destinations flow
            (c.owners.ownerOf flow.1) event)
        (flows.take (flowEvents destinations flows c).trace.length)
        (flowEvents destinations flows c).trace ∧
      ((flowEvents destinations flows c).outcome = .ok () →
        (flowEvents destinations flows c).trace.length = flows.length) ∧
      (flowEvents destinations flows c).state.flows = c.flows := by
  induction flows with
  | nil => exact fun c => ⟨.nil, fun _ => rfl, rfl⟩
  | cons flow flows ih =>
    intro c
    obtain ⟨howners, -, htrace, hreports⟩ := flowEvent_reports destinations flow c
    have hflows := flows_flowEvent destinations flow c
    rw [flowEvents]
    cases hrun : (flowEvent destinations flow.1 flow.2 c).outcome with
    | error e =>
      rw [Proc.bind_of_error hrun]
      dsimp only
      rw [htrace]
      refine ⟨.nil, ?_, hflows⟩
      rintro ⟨⟩
    | ok event =>
      set c' := (flowEvent destinations flow.1 flow.2 c).state with hc'
      obtain ⟨hevents, hall, hkept⟩ := ih c'
      obtain ⟨hext, -⟩ := flowEvents_reports destinations flows c'
      rw [Proc.bind_of_ok hrun, Proc.bind_of_ok rfl, Proc.emit_apply, htrace]
      refine ⟨?_, fun h => congrArg Nat.succ (hall h), hkept.trans hflows⟩
      refine .cons ((hreports event hrun).extends hext) ?_
      rw [howners] at hevents
      exact hevents

end NetworkCollector

/-- The sweep tells the flows it has drained, in their order: each under the user its socket table
attributes it to, and all of them unless an event could not be built. -/
structure CaptureSweep.Tells (context : CollectorContext) (flows : Flows) (sweep : CaptureSweep) :
    Prop where
  events : List.Forall₂ (fun flow event =>
      NetworkCollector.Reports context (NetworkCollector.uniqueDestinations flows) flow
        (attribution sweep.table flow.1) event)
    (flows.take sweep.events.length) sweep.events
  complete : sweep.outcome = .ok () → sweep.events.length = flows.length

theorem CaptureSweep.Tells.extends {context context' : CollectorContext} {flows : Flows}
    {sweep : CaptureSweep} (h : sweep.Tells context flows) (hext : context.Extends context') :
    sweep.Tells context' flows :=
  ⟨h.events.imp fun _ _ hreport => hreport.extends hext, h.complete⟩

theorem NetworkCollector.collect_tells (table : SocketTable) (c : NetworkCollector) :
    (⟨table, (collect table c).outcome, (collect table c).trace⟩ : CaptureSweep).Tells
        (collect table c).state.context c.flows.flows ∧
      (collect table c).state.flows = c.flows.drain.2 ∧
      c.context.Extends (collect table c).state.context := by
  obtain ⟨hevents, hall, hflows⟩ := flowEvents_forall₂ (uniqueDestinations c.flows.flows)
    c.flows.flows { c with owners := .refresh table, flows := c.flows.drain.2 }
  obtain ⟨hext, -⟩ := flowEvents_reports (uniqueDestinations c.flows.flows) c.flows.flows
    { c with owners := .refresh table, flows := c.flows.drain.2 }
  exact ⟨⟨hevents, hall⟩, hflows, hext⟩

namespace CaptureRun

variable (num : Numerics)

/-- The run has the table of a run of the flow table, and its sweeps tell what was drained there. -/
structure Simulates (r : CaptureRun) (f : FlowRun) : Prop where
  table : r.capture.collector.flows = f.table
  sweeps : List.Forall₂ (fun flows sweep => CaptureSweep.Tells r.capture.collector.context flows
    sweep) f.drained r.sweeps

theorem simulates_step {r : CaptureRun} {f : FlowRun} (h : r.Simulates f) (op : CaptureOp) :
    (op.step num r).Simulates (op.flowOp.toList.foldl (FlowRun.apply num) f) := by
  cases op with
  | start launch =>
    have hcollector := NetworkCapture.collector_start launch r.capture
    exact ⟨(congrArg NetworkCollector.flows hcollector).trans h.table,
      hcollector.symm ▸ h.sweeps⟩
  | close =>
    have hcollector := NetworkCapture.collector_close r.capture
    exact ⟨(congrArg NetworkCollector.flows hcollector).trans h.table,
      hcollector.symm ▸ h.sweeps⟩
  | die exception => exact ⟨h.table, h.sweeps⟩
  | observe packet now =>
    refine ⟨?_, h.sweeps⟩
    exact congrArg (FlowTable.observe num packet now) h.table
  | collect table =>
    obtain ⟨htells, hflows, hext⟩ := NetworkCollector.collect_tells table r.capture.collector
    rw [h.table] at htells hflows
    refine ⟨hflows, ?_⟩
    have hbefore := h.sweeps.imp fun _ _ htold => CaptureSweep.Tells.extends htold hext
    exact List.rel_append hbefore (.cons htells .nil)

theorem simulates_run (ops : List CaptureOp) {r : CaptureRun} {f : FlowRun} (h : r.Simulates f) :
    (run (CaptureOp.step num) ops r).Simulates
      ((ops.filterMap CaptureOp.flowOp).foldl (FlowRun.apply num) f) := by
  induction ops generalizing r f with
  | nil => exact h
  | cons op ops ih =>
    have hstep := ih (simulates_step num h op)
    rw [← List.foldl_append] at hstep
    rw [Transition.run_cons]
    cases hop : op.flowOp with
    | none =>
      rw [List.filterMap_cons_none hop]
      rw [hop] at hstep
      exact hstep
    | some flowOp =>
      rw [List.filterMap_cons_some hop]
      rw [hop] at hstep
      exact hstep

/-- Whatever the order of packets, sweeps, starts, closes and deaths of the capture thread, and
whichever events cannot be built: the packets of flows are split at the sweeps, each sweep tells
the grouping of those since the sweep before it, and the table holds the grouping of the rest. The
packets of flows are those of TCP and UDP over IP, each seen as it is. -/
theorem sweeps_tell (num : Numerics) (context : CollectorContext) (localAddresses : List Str)
    (ops : List CaptureOp) :
    let r := run (CaptureOp.step num) ops (.init context localAddresses)
    (∃ drained : List Flows,
      List.Forall₂ (IsGrouping num) (windows localAddresses (ops.filterMap CaptureOp.flowOp))
        (drained ++ [r.capture.collector.flows.flows]) ∧
      List.Forall₂ (fun flows sweep => CaptureSweep.Tells r.capture.collector.context flows sweep)
        drained r.sweeps) ∧
      ∀ (packet : Packet) (now : Float),
        (packet.IsFlowTraffic → ∃ s, packet.sighting localAddresses now = some s ∧
          packet.SeenAs localAddresses now s) ∧
        (¬packet.IsFlowTraffic → packet.sighting localAddresses now = none) := by
  intro r
  have hinit : (CaptureRun.init context localAddresses).Simulates
      ⟨[], .init localAddresses⟩ := ⟨rfl, .nil⟩
  have hrun : r.Simulates (FlowRun.run num localAddresses (ops.filterMap CaptureOp.flowOp)) :=
    simulates_run num ops hinit
  refine ⟨⟨_, ?_, hrun.sweeps⟩, fun packet now =>
    ⟨fun htraffic => Packet.exists_seenAs htraffic localAddresses now, Packet.sighting_eq_none⟩⟩
  have htables := tables_run num localAddresses (ops.filterMap CaptureOp.flowOp)
  rw [hrun.table]
  unfold FlowRun.tables at htables
  rw [htables, List.forall₂_map_right_iff]
  exact List.forall₂_same.mpr fun xs _ => isGrouping_accumulated num xs

/-- A packet comes from a thread that has not ended. -/
def Delivers (r : CaptureRun) : CaptureOp → Prop
  | .observe _ _ => r.capture.source.Alive
  | _ => True

/-- The capture counts as started, and no packet will come. -/
structure Blind (r : CaptureRun) : Prop where
  started : r.capture.started = true
  dead : ¬r.capture.source.Alive

/-- A sweep that yields nothing and raises nothing. -/
def Silent (sweep : CaptureSweep) : Prop := sweep.events = [] ∧ sweep.outcome = .ok ()

/-- Until it is closed a blind capture stays blind: `start` does not look at a source that has been
started. What its steps do is sweep. -/
theorem blind_step {r : CaptureRun} {op : CaptureOp} (h : r.Blind) (hdelivers : r.Delivers op)
    (hopen : op ≠ .close) : (op.step num r).Blind ∧
      ((∃ table, op = .collect table) ∨
        ((op.step num r).sweeps = r.sweeps ∧
          (op.step num r).capture.collector = r.capture.collector)) := by
  cases op with
  | start launch =>
    have hstart : r.capture.start launch = (.ok (), r.capture) := if_pos h.started
    have hstep : (CaptureOp.start launch).step num r = r := by
      rw [CaptureOp.step, hstart]
    rw [hstep]
    exact ⟨h, .inr ⟨rfl, rfl⟩⟩
  | close => exact absurd rfl hopen
  | die exception =>
    exact ⟨⟨h.started, r.capture.source.not_alive_die exception⟩, .inr ⟨rfl, rfl⟩⟩
  | observe packet now => exact absurd hdelivers h.dead
  | collect table => exact ⟨⟨h.started, h.dead⟩, .inl ⟨table, rfl⟩⟩

theorem silent_collect {r : CaptureRun} (hempty : r.capture.collector.flows.flows = [])
    (table : SocketTable) : ∃ sweep, Silent sweep ∧
      (r.collect table).sweeps = r.sweeps ++ [sweep] := by
  refine ⟨_, ⟨?_, ?_⟩, rfl⟩ <;>
  · unfold NetworkCollector.collect FlowTable.drain
    rw [hempty]
    rfl

theorem empty_collect (r : CaptureRun) (table : SocketTable) :
    (r.collect table).capture.collector.flows.flows = [] := by
  obtain ⟨-, hflows, -⟩ := NetworkCollector.collect_tells table r.capture.collector
  exact congrArg FlowTable.flows hflows

theorem silent_run {ops : List CaptureOp} {r : CaptureRun} (h : r.Blind)
    (hempty : r.capture.collector.flows.flows = [])
    (hdelivers : Always (CaptureOp.step num) Delivers ops r) (hopen : ∀ op ∈ ops, op ≠ .close) :
    ∃ later, (run (CaptureOp.step num) ops r).sweeps = r.sweeps ++ later ∧
      ∀ sweep ∈ later, Silent sweep := by
  induction ops generalizing r with
  | nil => exact ⟨[], (List.append_nil _).symm, fun sweep hsweep => nomatch hsweep⟩
  | cons op ops ih =>
    obtain ⟨hop, hops⟩ := Transition.always_cons.mp hdelivers
    obtain ⟨hopen', hrest⟩ := List.forall_mem_cons.mp hopen
    obtain ⟨hblind, hstep⟩ := blind_step num h hop hopen'
    rw [Transition.run_cons]
    rcases hstep with ⟨table, rfl⟩ | ⟨hsweeps, hcollector⟩
    · obtain ⟨sweep, hsilent, hswept⟩ := silent_collect hempty table
      obtain ⟨later, hlater, hall⟩ := ih hblind (r.empty_collect table) hops hrest
      refine ⟨sweep :: later, ?_, List.forall_mem_cons.mpr ⟨hsilent, hall⟩⟩
      rw [hlater]
      change (r.collect table).sweeps ++ later = _
      rw [hswept, List.append_assoc, List.singleton_append]
    · obtain ⟨later, hlater, hall⟩ := ih hblind (by rw [hcollector]; exact hempty) hops hrest
      exact ⟨later, by rw [hlater, hsweeps], hall⟩

/-- A capture whose thread has died after it was started is never noticed: until it is closed it
says that it is capturing, no later start does anything or fails, and every sweep but the first,
which tells what had been seen, yields nothing and raises nothing. -/
theorem blind_while_capturing {ops : List CaptureOp} {r : CaptureRun} (h : r.Blind)
    (hdelivers : Always (CaptureOp.step num) Delivers ops r) (hopen : ∀ op ∈ ops, op ≠ .close) :
    let r' := run (CaptureOp.step num) ops r
    r'.capture.isCapturing = true ∧ ¬r'.capture.source.Alive ∧
      (∀ launch, r'.capture.start launch = (.ok (), r'.capture)) ∧
      ∃ later, r'.sweeps = r.sweeps ++ later ∧ ∀ sweep ∈ later.tail, Silent sweep := by
  induction ops generalizing r with
  | nil =>
    refine ⟨h.started, h.dead, fun launch => if_pos h.started, [], (List.append_nil _).symm, ?_⟩
    exact fun sweep hsweep => nomatch hsweep
  | cons op ops ih =>
    obtain ⟨hop, hops⟩ := Transition.always_cons.mp hdelivers
    obtain ⟨hopen', hrest⟩ := List.forall_mem_cons.mp hopen
    obtain ⟨hblind, hstep⟩ := blind_step num h hop hopen'
    obtain ⟨hcapturing, hdead, hstart, later, hlater, hall⟩ := ih hblind hops hrest
    refine ⟨hcapturing, hdead, hstart, ?_⟩
    rcases hstep with ⟨table, rfl⟩ | ⟨hsweeps, -⟩
    · -- the first sweep drains the table
      obtain ⟨rest, hsilents, hsilent⟩ := silent_run num hblind (r.empty_collect table)
        hops hrest
      let ran := NetworkCollector.collect table r.capture.collector
      refine ⟨⟨table, ran.outcome, ran.trace⟩ :: rest, ?_, hsilent⟩
      rw [Transition.run_cons, hsilents]
      exact List.append_assoc _ _ _
    · exact ⟨later, by rw [Transition.run_cons, hlater, hsweeps], hall⟩

/-- A capture starts, sees a packet and dies; then it is swept, started again and swept. -/
theorem blind_while_capturing_swept :
    let num : Numerics := ⟨id, fun _ => 0.0⟩
    let packet := plainPacket (str "fd::1") 40000 (str "fd::2") 22
    let launch : Launch := .settled ⟨none, some true⟩
    let r := run (CaptureOp.step num) [.start launch, .observe packet 0.0, .die none]
      (.init oneContext [str "fd::1"])
    let r' := run (CaptureOp.step num) [.collect ⟨none, fun _ => none⟩, .start launch,
      .collect ⟨none, fun _ => none⟩] r
    r'.capture.isCapturing = true ∧ ¬r'.capture.source.Alive ∧
      (∀ launch, r'.capture.start launch = (.ok (), r'.capture)) ∧
      ∃ later, r'.sweeps = r.sweeps ++ later ∧ ∀ sweep ∈ later.tail, Silent sweep := by
  intro num packet launch r r'
  have hblind : r.Blind := ⟨rfl, ScapyPacketSource.not_alive_die none _⟩
  refine blind_while_capturing num hblind ?_ (by simp)
  rw [Transition.always_cons, Transition.always_cons, Transition.always_cons]
  exact ⟨trivial, trivial, trivial, Transition.always_nil _ _⟩

end CaptureRun

end Ebabf
