import Ebabf.Collectors.FileMonitor
import Ebabf.Transition
import Mathlib.Algebra.BigOperators.Group.List.Basic
import Mathlib.Logic.Function.Basic

/-!
# Runs of the file monitor

Calls of the handlers in any order with sweeps. A sweep reads the clock and then visits the roots
one by one, and calls may come between two visits. What a handler holds, and what an event
covers, are the calls since its root was drained before.
-/

namespace Ebabf

open Py (Str str Exc Datetime Json Dict Proc Ran)

/-- `EVENT_TYPE_CREATED` and so on. -/
def Mutation.eventType : Mutation → Str
  | .created => str "created"
  | .deleted => str "deleted"
  | .modified => str "modified"
  | .moved => str "moved"

/-- The attribute that reports the counter of a mutation. -/
def Mutation.field : Mutation → Str
  | .created => str "files_created"
  | .deleted => str "files_deleted"
  | .modified => str "files_modified"
  | .moved => str "files_moved"

def Mutation.all : List Mutation := [.created, .modified, .deleted, .moved]

theorem mutationOf_eq_some_iff {eventType : Str} {mutation : Mutation} :
    mutationOf eventType = some mutation ↔ eventType = mutation.eventType := by
  unfold mutationOf MUTATION_EVENTS
  simp only [Py.lookup_cons_ite, List.lookup_nil]
  constructor
  · intro h
    split_ifs at h with h₁ h₂ h₃ h₄ <;> cases h <;> assumption
  · rintro rfl
    cases mutation <;> rfl

namespace FileActivity

def counter (mutation : Mutation) (a : FileActivity) : ℕ :=
  match mutation with
  | .created => a.created
  | .deleted => a.deleted
  | .modified => a.modified
  | .moved => a.moved

theorem total_eq_sum (a : FileActivity) :
    a.total = (Mutation.all.map fun mutation => a.counter mutation).sum := by
  simp [Mutation.all, counter, total, Nat.add_assoc]

theorem counter_eq_zero {a : FileActivity} (h : a.total = 0) (mutation : Mutation) :
    a.counter mutation = 0 := by
  unfold total at h
  cases mutation <;> simp only [counter] <;> omega

theorem counter_count (mutation counted : Mutation) (a : FileActivity) :
    (a.count counted).counter mutation =
      a.counter mutation + if counted = mutation then 1 else 0 := by
  cases counted <;> cases mutation <;> rfl

theorem counter_record (hash : Str → ℤ) (eventType path : Str) (moment : Float)
    (mutation : Mutation) (a : FileActivity) :
    (a.record hash eventType path moment).counter mutation =
      a.counter mutation + if eventType = mutation.eventType then 1 else 0 := by
  unfold record
  cases h : mutationOf eventType with
  | none =>
    have hne : eventType ≠ mutation.eventType := by
      intro heq
      rw [mutationOf_eq_some_iff.mpr heq] at h
      cases h
    cases mutation <;> simp [counter, seenAt, hne]
  | some counted =>
    have hseen : (a.seenAt moment).counter mutation = a.counter mutation := by
      cases mutation <;> rfl
    have hnoted : (((a.seenAt moment).count counted).notePath hash path).counter mutation =
        ((a.seenAt moment).count counted).counter mutation := by
      cases mutation <;> rfl
    have hiff : eventType = mutation.eventType ↔ counted = mutation := by
      rw [← mutationOf_eq_some_iff, h, Option.some.injEq]
    simp only [hnoted, counter_count, hseen, hiff]

theorem sensitive_record (hash : Str → ℤ) (eventType path : Str) (moment : Float)
    (a : FileActivity) :
    (a.record hash eventType path moment).sensitiveCategories ≠ [] ↔
      a.sensitiveCategories ≠ [] ∨
        (mutationOf eventType).isSome ∧ (classifySensitive path).isSome := by
  unfold record
  cases mutationOf eventType with
  | none => simp [seenAt]
  | some mutation =>
    have hcount : ((a.seenAt moment).count mutation).sensitiveCategories =
        a.sensitiveCategories := by
      cases mutation <;> rfl
    cases hclass : classifySensitive path with
    | none => simp [notePath, hclass, hcount]
    | some category =>
      have hne : (a.sensitiveCategories.insert category) ≠ [] :=
        List.ne_nil_of_mem (List.mem_insert_self)
      simp [notePath, hclass, hcount, hne]

end FileActivity

namespace FileMonitor

/-- What a description says of an activity. -/
structure Describes (d : Mapping) (activity : FileActivity) (window : Option Float) : Prop where
  sensitive : d.get? (str "sensitive_path_write") =
    some (.json (.bool !activity.sensitiveCategories.isEmpty))
  counter : ∀ mutation : Mutation,
    d.get? mutation.field = some (.json (.int (activity.counter mutation)))
  total : d.get? (str "events_total") = some (.json (.int activity.total))
  rate : d.get? (str "file_modification_rate") =
    some (.json (floatOrNull (modificationRate activity window)))
  window : d.get? (str "window_seconds") =
    some (.json (floatOrNull ((window.filter fun w => w != 0.0).map Py.roundThousandths)))

theorem describes_describe (root : WatchRoot) (activity : FileActivity) (window : Option Float) :
    Describes (describe root activity window) activity window := by
  unfold describe
  constructor
  case counter =>
    intro mutation
    rw [Dict.get?_ofPairs_of_nodup (by exact nodup_describedKeys)]
    cases mutation <;> rfl
  all_goals
    rw [Dict.get?_ofPairs_of_nodup (by exact nodup_describedKeys)]
    rfl

end FileMonitor

namespace FileMonitor

/-- One turn of the loop of `collect`. With a fault the pseudonymizer's store raises when an event
is built. -/
def visitRoot (fault : Option Exc) (window : Option Float) (sweptAt : Datetime) (root : WatchRoot) :
    Proc Event FileMonitor Unit :=
  match fault with
  | none => sweepRoots window sweptAt [root]
  | some e => do
    let activity ← drain root.label
    if activity.total = 0 then pure () else Proc.lift (.error e)

theorem build_record (hash : Str → ℤ) (label eventType path : Str) (moment : Float)
    (root : WatchRoot) (activity : FileActivity) (window : Option Float) (sweptAt : Datetime)
    (m : FileMonitor) :
    build root activity window sweptAt (m.record hash label eventType path moment) =
      let built := build root activity window sweptAt m
      ⟨built.outcome, built.trace, built.state.record hash label eventType path moment⟩ := by
  have hcontext : (m.record hash label eventType path moment).context = m.context := by
    unfold record
    cases m.handlers.get? label <;> rfl
  unfold build
  rw [hcontext]
  unfold record
  cases h : m.handlers.get? label <;> simp only [h]

/-- A turn yields one event, of the activity it drained, or none. -/
inductive Visited (root : WatchRoot) (window : Option Float) (handlers : Dict FileActivity) :
    Ran Event FileMonitor Unit → Prop
  | failed {e : Exc} {m : FileMonitor} : Visited root window handlers ⟨.error e, [], m⟩
  | quiet {activity : FileActivity} {m : FileMonitor}
      (held : handlers.get? root.label = some activity) (total : activity.total = 0) :
      Visited root window handlers ⟨.ok (), [], m⟩
  | yielded {activity : FileActivity} {event : Event} {m : FileMonitor}
      (held : handlers.get? root.label = some activity) (total : activity.total ≠ 0)
      (attributes : event.fields.rawAttributes = describe root activity window) :
      Visited root window handlers ⟨.ok (), [event], m⟩

/-- A turn empties the handler of its root and leaves the others, the roots and the time alone. -/
structure Emptied (label : Str) (m m' : FileMonitor) : Prop where
  roots : m'.roots = m.roots
  last_sweep : m'.lastSweep = m.lastSweep
  handlers : ∀ l, m'.handlers.get? l =
    if l = label then (m.handlers.get? l).map fun _ => {} else m.handlers.get? l

theorem emptied_of_none {label : Str} {m : FileMonitor} (h : m.handlers.get? label = none) :
    Emptied label m m := by
  refine ⟨rfl, rfl, fun l => ?_⟩
  split_ifs with hl
  · rw [hl, h]
    rfl
  · rfl

theorem emptied_of_some {label : Str} {m m' : FileMonitor} {activity : FileActivity}
    (h : m.handlers.get? label = some activity) (hroots : m'.roots = m.roots)
    (hlast : m'.lastSweep = m.lastSweep) (hhandlers : m'.handlers = m.handlers.set label {}) :
    Emptied label m m' := by
  refine ⟨hroots, hlast, fun l => ?_⟩
  rw [hhandlers, Dict.get?_set]
  split_ifs with hl
  · rw [hl, h]
    rfl
  · rfl

theorem visitRoot_spec (fault : Option Exc) (window : Option Float) (sweptAt : Datetime)
    (root : WatchRoot) (m : FileMonitor) :
    Visited root window m.handlers (visitRoot fault window sweptAt root m) ∧
      Emptied root.label m (visitRoot fault window sweptAt root m).state := by
  cases h : m.handlers.get? root.label with
  | none =>
    have hran : visitRoot fault window sweptAt root m =
        ⟨.error (unwatched root.label), [], m⟩ := by
      cases fault with
      | none => exact sweepRoots_missing h
      | some e =>
        have hdrain := drain_of_none h
        rw [visitRoot, Proc.bind_of_error (congrArg Ran.outcome hdrain), hdrain]
    rw [hran]
    exact ⟨.failed, emptied_of_none h⟩
  | some activity =>
    have hdrained : Emptied root.label m (m.drained root.label) := emptied_of_some h rfl rfl rfl
    by_cases htotal : activity.total = 0
    · have hran : visitRoot fault window sweptAt root m =
          ⟨.ok (), [], m.drained root.label⟩ := by
        cases fault with
        | none => exact sweepRoots_quiet h htotal
        | some e =>
          have hdrain := drain_of_some h
          simp [visitRoot, Proc.bind_of_ok (congrArg Ran.outcome hdrain), hdrain, htotal]
      rw [hran]
      exact ⟨.quiet h htotal, hdrained⟩
    · cases fault with
      | some e =>
        have hran : visitRoot (some e) window sweptAt root m =
            ⟨.error e, [], m.drained root.label⟩ := by
          have hdrain := drain_of_some h
          simp [visitRoot, Proc.bind_of_ok (congrArg Ran.outcome hdrain), hdrain, htotal]
        rw [hran]
        exact ⟨.failed, hdrained⟩
      | none =>
        have hbuilt : Emptied root.label m
            (build root activity window sweptAt (m.drained root.label)).state := by
          rw [build_eq]
          exact emptied_of_some h rfl rfl rfl
        cases hbuild : (build root activity window sweptAt (m.drained root.label)).outcome with
        | error e =>
          rw [visitRoot, sweepRoots_error h htotal hbuild]
          exact ⟨.failed, hbuilt⟩
        | ok event =>
          have hattributes : event.fields.rawAttributes = describe root activity window := by
            rw [build_eq] at hbuild
            exact (Collector.fields_of_buildEvent hbuild).1
          rw [visitRoot, sweepRoots_event h htotal hbuild]
          exact ⟨.yielded h htotal hattributes, hbuilt⟩

theorem sweepRoots_cons (window : Option Float) (sweptAt : Datetime) (root : WatchRoot)
    (roots : List WatchRoot) :
    sweepRoots window sweptAt (root :: roots) =
      (sweepRoots window sweptAt [root] >>= fun _ => sweepRoots window sweptAt roots) := by
  funext m
  cases h : m.handlers.get? root.label with
  | none =>
    have hturn : sweepRoots window sweptAt [root] m = _ := sweepRoots_missing h
    rw [Proc.bind_of_error (congrArg Ran.outcome hturn), hturn, sweepRoots_missing h]
  | some activity =>
    by_cases htotal : activity.total = 0
    · have hturn : sweepRoots window sweptAt [root] m = _ := sweepRoots_quiet h htotal
      rw [Proc.bind_of_ok (congrArg Ran.outcome hturn), hturn, sweepRoots_quiet h htotal]
      rfl
    · cases hbuild : (build root activity window sweptAt (m.drained root.label)).outcome with
      | error e =>
        have hturn : sweepRoots window sweptAt [root] m = _ := sweepRoots_error h htotal hbuild
        rw [Proc.bind_of_error (congrArg Ran.outcome hturn), hturn,
          sweepRoots_error h htotal hbuild]
      | ok event =>
        have hturn : sweepRoots window sweptAt [root] m = _ := sweepRoots_event h htotal hbuild
        rw [Proc.bind_of_ok (congrArg Ran.outcome hturn), hturn,
          sweepRoots_event h htotal hbuild]
        rfl

end FileMonitor

/-- A call of `record`, with the label of its handler. -/
structure RecordCall where
  label : Str
  eventType : Str
  path : Str
  moment : Float

namespace RecordCall

/-- The call is of a mutation on a path in a category. -/
def sensitive (call : RecordCall) : Bool :=
  (mutationOf call.eventType).isSome && (classifySensitive call.path).isSome

end RecordCall

/-- The activity that calls leave in a handler. -/
def FileActivity.ofCalls (hash : Str → ℤ) (calls : List RecordCall) : FileActivity :=
  calls.foldl (fun a call => a.record hash call.eventType call.path call.moment) {}

/-- What happens to a collector: a call of a handler, the reading of the clock with which a sweep
begins, or the turn of the next root. -/
inductive MonitorOp
  | record (call : RecordCall)
  | sweep
  | visit (fault : Option Exc)

/-- The call is of this mutation, at the handler of the label. -/
def MonitorOp.records (mutation : Mutation) (label : Str) : MonitorOp → Bool
  | .record call => call.label == label && call.eventType == mutation.eventType
  | _ => false

/-- The sweep in which a root is drained, and its reading of the clock. -/
structure Drain where
  sweep : ℕ
  sweptAt : Datetime

/-- An event with the drain it reports, the drain of its root before that, and the calls between
the two. -/
structure Report where
  event : Event
  covers : List RecordCall
  drain : Drain
  previous : Option Drain

/-- The root of an event, by its label. -/
def Report.label (report : Report) : Option Str :=
  match FileMonitor.labelOf report.event with
  | some (.json (.str label)) => some label
  | _ => none

/-- A counter as the event gives it. -/
def Report.count (mutation : Mutation) (report : Report) : ℤ :=
  match report.event.fields.rawAttributes.get? mutation.field with
  | some (.json (.int n)) => n
  | _ => 0

/-- A collector with the roots left to visit in the sweep under way. What is kept for the record:
the number of sweeps, the calls at each handler since it was drained, the last drain of each root,
and the events with what they cover. -/
structure MonitorRun where
  monitor : FileMonitor
  sweeps : ℕ
  sweptAt : Datetime
  window : Option Float
  left : List WatchRoot
  since : Str → List RecordCall
  drains : Str → Option Drain
  reports : List Report

namespace MonitorRun

def start (context : CollectorContext) (roots : List WatchRoot) (startedAt : Option Float) :
    MonitorRun where
  monitor := .init context roots startedAt
  sweeps := 0
  sweptAt := context.readings 0
  window := none
  left := []
  since := fun _ => []
  drains := fun _ => none
  reports := []

def record (hash : Str → ℤ) (call : RecordCall) (run : MonitorRun) : MonitorRun :=
  { run with
    monitor := run.monitor.record hash call.label call.eventType call.path call.moment
    since := Function.update run.since call.label (run.since call.label ++ [call]) }

/-- A sweep begins unless one is under way. -/
def sweep (run : MonitorRun) : MonitorRun :=
  match run.left with
  | [] =>
    { run with
      monitor := run.monitor.clocked
      sweeps := run.sweeps + 1
      sweptAt := run.monitor.context.readings 0
      window := run.monitor.windowUntil (timestampOf (run.monitor.context.readings 0))
      left := run.monitor.roots }
  | _ :: _ => run

/-- What the turn of a root does to the collector. -/
def turn (fault : Option Exc) (root : WatchRoot) (run : MonitorRun) : Ran Event FileMonitor Unit :=
  FileMonitor.visitRoot fault run.window run.sweptAt root run.monitor

theorem turn_spec (fault : Option Exc) (root : WatchRoot) (run : MonitorRun) :
    FileMonitor.Visited root run.window run.monitor.handlers (run.turn fault root) ∧
      FileMonitor.Emptied root.label run.monitor (run.turn fault root).state :=
  FileMonitor.visitRoot_spec fault run.window run.sweptAt root run.monitor

/-- The events of a turn, with what they cover. -/
def turnReports (fault : Option Exc) (root : WatchRoot) (run : MonitorRun) : List Report :=
  (run.turn fault root).trace.map fun event =>
    ⟨event, run.since root.label, ⟨run.sweeps, run.sweptAt⟩, run.drains root.label⟩

/-- The next root has its turn; when that raises the sweep is over. -/
def visit (fault : Option Exc) (run : MonitorRun) : MonitorRun :=
  match run.left with
  | [] => run
  | root :: left =>
    let ran := run.turn fault root
    { run with
      monitor := ran.state
      left := match ran.outcome with
        | .ok _ => left
        | .error _ => []
      since := Function.update run.since root.label []
      drains := Function.update run.drains root.label (some ⟨run.sweeps, run.sweptAt⟩)
      reports := run.reports ++ run.turnReports fault root }

def apply (hash : Str → ℤ) : MonitorOp → MonitorRun → MonitorRun
  | .record call => record hash call
  | .sweep => sweep
  | .visit fault => visit fault

@[simp] theorem apply_record (hash : Str → ℤ) (call : RecordCall) (run : MonitorRun) :
    run.apply hash (.record call) = run.record hash call := rfl

@[simp] theorem apply_sweep (hash : Str → ℤ) (run : MonitorRun) :
    run.apply hash .sweep = run.sweep := rfl

@[simp] theorem apply_visit (hash : Str → ℤ) (fault : Option Exc) (run : MonitorRun) :
    run.apply hash (.visit fault) = run.visit fault := rfl

/-- No turn raises: the sweeps are completed. -/
def Completes (run : MonitorRun) : MonitorOp → Prop
  | .visit fault => ∀ root ∈ run.left.head?, (run.turn fault root).outcome = .ok ()
  | _ => True

theorem get?_handlers_record (hash : Str → ℤ) (call : RecordCall) (m : FileMonitor) (label : Str) :
    (m.record hash call.label call.eventType call.path call.moment).handlers.get? label =
      if label = call.label then
        (m.handlers.get? label).map fun a =>
          a.record hash call.eventType call.path call.moment
      else m.handlers.get? label := by
  unfold FileMonitor.record
  cases h : m.handlers.get? call.label with
  | none =>
    split_ifs with hlabel
    · rw [hlabel, h]
      rfl
    · rfl
  | some activity =>
    rw [Dict.get?_set]
    split_ifs with hlabel
    · rw [hlabel, h]
      rfl
    · rfl

/-- The label has a handler. -/
def Handled (label : Str) (run : MonitorRun) : Prop :=
  (run.monitor.handlers.get? label).isSome

theorem handled_apply (hash : Str → ℤ) {label : Str} {run : MonitorRun} (h : Handled label run)
    (op : MonitorOp) : Handled label (run.apply hash op) := by
  unfold Handled at h ⊢
  cases op with
  | record call =>
    rw [apply_record, MonitorRun.record, get?_handlers_record]
    split_ifs <;> simp [h]
  | sweep =>
    rw [apply_sweep, sweep]
    cases hleft : run.left <;> exact h
  | visit fault =>
    rw [apply_visit, visit]
    cases hleft : run.left with
    | nil => exact h
    | cons root left =>
      have hhandlers := (turn_spec fault root run).2.handlers label
      dsimp only
      rw [hhandlers]
      split_ifs <;> simp [h]

theorem left_visit {run : MonitorRun} {fault : Option Exc} {root : WatchRoot}
    {left : List WatchRoot} (hleft : run.left = root :: left)
    (h : (run.turn fault root).outcome = .ok () ∨ left = []) : (run.visit fault).left = left := by
  rw [visit, hleft]
  rcases h with hok | rfl
  · simp only [hok]
  · cases hran : (run.turn fault root).outcome <;> simp only [hran]

theorem drains_visit {run : MonitorRun} (fault : Option Exc) {root : WatchRoot}
    {left : List WatchRoot} (hleft : run.left = root :: left) :
    (run.visit fault).drains =
      Function.update run.drains root.label (some ⟨run.sweeps, run.sweptAt⟩) := by
  rw [visit, hleft]

theorem sweeps_visit (run : MonitorRun) (fault : Option Exc) :
    (run.visit fault).sweeps = run.sweeps ∧ (run.visit fault).sweptAt = run.sweptAt := by
  rw [visit]
  cases hleft : run.left <;> exact ⟨rfl, rfl⟩

theorem mem_reports_apply {hash : Str → ℤ} {run : MonitorRun} {op : MonitorOp} {report : Report}
    (h : report ∈ (run.apply hash op).reports) : report ∈ run.reports ∨
      ∃ fault root left, op = .visit fault ∧ run.left = root :: left ∧
        report ∈ run.turnReports fault root := by
  cases op with
  | record call => exact .inl h
  | sweep =>
    rw [apply_sweep, sweep] at h
    cases hleft : run.left with
    | nil =>
      rw [hleft] at h
      exact .inl h
    | cons root left =>
      rw [hleft] at h
      exact .inl h
  | visit fault =>
    rw [apply_visit, visit] at h
    cases hleft : run.left with
    | nil =>
      rw [hleft] at h
      exact .inl h
    | cons root left =>
      rw [hleft] at h
      exact (List.mem_append.mp h).imp_right fun hnew => ⟨fault, root, left, rfl, rfl, hnew⟩

theorem roots_apply (hash : Str → ℤ) (run : MonitorRun) (op : MonitorOp) :
    (run.apply hash op).monitor.roots = run.monitor.roots := by
  cases op with
  | record call =>
    rw [apply_record, MonitorRun.record, FileMonitor.record]
    cases run.monitor.handlers.get? call.label <;> rfl
  | sweep =>
    rw [apply_sweep, sweep]
    cases hleft : run.left <;> rfl
  | visit fault =>
    rw [apply_visit, visit]
    cases hleft : run.left with
    | nil => rfl
    | cons root left => exact (turn_spec fault root run).2.roots

theorem run_visits_of_idle (hash : Str → ℤ) (n : ℕ) {run : MonitorRun} (h : run.left = []) :
    Transition.run (apply hash) (List.replicate n (.visit none)) run = run := by
  induction n with
  | zero => rfl
  | succ n ih =>
    rw [List.replicate_succ, Transition.run_cons]
    simpa [apply, visit, h] using ih

@[simp] theorem map_event_turnReports (fault : Option Exc) (root : WatchRoot) (run : MonitorRun) :
    (run.turnReports fault root).map Report.event = (run.turn fault root).trace := by
  simp [turnReports, Function.comp_def]

theorem run_visits (hash : Str → ℤ) (left : List WatchRoot) :
    ∀ run : MonitorRun, run.left = left →
      let after := Transition.run (apply hash) (List.replicate left.length (.visit none)) run
      let ran := FileMonitor.sweepRoots run.window run.sweptAt left run.monitor
      after.monitor = ran.state ∧ after.left = [] ∧
        after.reports.map Report.event = run.reports.map Report.event ++ ran.trace := by
  induction left with
  | nil =>
    intro run h
    exact ⟨rfl, h, by simp [FileMonitor.sweepRoots]⟩
  | cons root left ih =>
    intro run h
    dsimp only
    rw [List.length_cons, List.replicate_succ, Transition.run_cons, FileMonitor.sweepRoots_cons]
    have hturn : FileMonitor.sweepRoots run.window run.sweptAt [root] run.monitor =
        run.turn none root := rfl
    cases hok : (run.turn none root).outcome with
    | error e =>
      have hidle : (apply hash (.visit none) run).left = [] := by
        simp only [apply, visit, h, hok]
      rw [run_visits_of_idle hash _ hidle, Proc.bind_of_error (by rw [hturn, hok]), hturn]
      refine ⟨?_, hidle, ?_⟩
      · simp only [apply, visit, h]
      · simp [apply, visit, h]
    | ok _ =>
      have hleft : (apply hash (.visit none) run).left = left := by
        simp only [apply, visit, h, hok]
      obtain ⟨hmonitor, hidle, hreports⟩ := ih _ hleft
      rw [Proc.bind_of_ok (by rw [hturn, hok]), hturn]
      refine ⟨?_, hidle, ?_⟩
      · rw [hmonitor]
        simp only [apply, visit, h]
      · rw [hreports]
        simp [apply, visit, h]

/-- The reading of the clock and a turn for each root do what `collect` does. -/
theorem run_collect (hash : Str → ℤ) {run : MonitorRun} (h : run.left = []) :
    let after := Transition.run (apply hash)
      (.sweep :: List.replicate run.monitor.roots.length (.visit none)) run
    let ran := FileMonitor.collect run.monitor
    after.monitor = ran.state ∧ after.left = [] ∧
      after.reports.map Report.event = run.reports.map Report.event ++ ran.trace := by
  dsimp only
  rw [Transition.run_cons]
  have hbegun : (apply hash .sweep run).left = run.monitor.roots := by simp only [apply, sweep, h]
  have hvisits := run_visits hash run.monitor.roots (apply hash .sweep run) hbegun
  simpa only [apply, sweep, h, FileMonitor.collect] using hvisits

/-- The store of the pseudonymizer does not raise. -/
def Faultless : MonitorOp → Prop
  | .visit fault => fault = none
  | _ => True

/-- An event can be built for each root, whatever its handler holds. -/
structure Dependable (run : MonitorRun) : Prop where
  context : run.monitor.context.Dependable
  swept_at : run.sweptAt.utcoffset ≠ none
  subjects : ∀ root ∈ run.monitor.roots, root.subject ≠ []
  handlers : ∀ root ∈ run.monitor.roots, Handled root.label run
  left : ∀ root ∈ run.left, root ∈ run.monitor.roots

theorem Dependable.start {context : CollectorContext} (h : context.Dependable)
    {roots : List WatchRoot} (hsubjects : ∀ root ∈ roots, root.subject ≠ [])
    (startedAt : Option Float) : Dependable (start context roots startedAt) where
  context := h
  swept_at := h.readings 0
  subjects := hsubjects
  handlers root hroot := by
    have hlabel : root.label ∈ roots.map WatchRoot.label := List.mem_map_of_mem hroot
    rw [Handled, MonitorRun.start, FileMonitor.get?_handlers_init, if_pos hlabel]
    rfl
  left _ h := nomatch h

theorem Dependable.turn {run : MonitorRun} (h : run.Dependable) {root : WatchRoot}
    (hroot : root ∈ run.monitor.roots) :
    (run.turn none root).outcome = .ok () ∧ (run.turn none root).state.context.Dependable := by
  have hready : run.monitor.Ready [root] := by
    refine ⟨h.context, List.nodup_singleton _, ?_, ?_⟩
    · intro r hr
      exact h.subjects r (List.mem_singleton.mp hr ▸ hroot)
    · intro r hr
      exact Option.isSome_iff_exists.mp (h.handlers r (List.mem_singleton.mp hr ▸ hroot))
  obtain ⟨hok, hcontext, -⟩ :=
    FileMonitor.sweepRoots_of_ready run.window h.swept_at [root] run.monitor hready
  exact ⟨hok, hcontext⟩

theorem Dependable.apply (hash : Str → ℤ) {run : MonitorRun} (h : run.Dependable) {op : MonitorOp}
    (hop : Faultless op) : (run.apply hash op).Dependable ∧ run.Completes op := by
  have hroots := roots_apply hash run op
  have hsubjects : ∀ root ∈ (run.apply hash op).monitor.roots, root.subject ≠ [] :=
    hroots ▸ h.subjects
  have hhandlers : ∀ root ∈ (run.apply hash op).monitor.roots,
      Handled root.label (run.apply hash op) := by
    rw [hroots]
    exact fun root hroot => handled_apply hash (h.handlers root hroot) op
  suffices hrest : (run.apply hash op).monitor.context.Dependable ∧
      (run.apply hash op).sweptAt.utcoffset ≠ none ∧
      (∀ root ∈ (run.apply hash op).left, root ∈ run.monitor.roots) ∧ run.Completes op from
    ⟨⟨hrest.1, hrest.2.1, hsubjects, hhandlers, hroots ▸ hrest.2.2.1⟩, hrest.2.2.2⟩
  cases op with
  | record call =>
    refine ⟨?_, h.swept_at, h.left, trivial⟩
    rw [apply_record, MonitorRun.record, FileMonitor.record]
    cases run.monitor.handlers.get? call.label <;> exact h.context
  | sweep =>
    rw [apply_sweep, sweep]
    cases hleft : run.left with
    | nil => exact ⟨h.context.clock, h.context.readings 0, fun _ hroot => hroot, trivial⟩
    | cons root left => exact ⟨h.context, h.swept_at, h.left, trivial⟩
  | visit fault =>
    obtain rfl : fault = none := hop
    rw [apply_visit]
    unfold MonitorRun.visit Completes
    cases hleft : run.left with
    | nil => exact ⟨h.context, h.swept_at, by simp [hleft], by simp⟩
    | cons root left =>
      obtain ⟨hok, hcontext⟩ := h.turn (h.left root (by simp [hleft]))
      refine ⟨hcontext, h.swept_at, ?_, by simpa using hok⟩
      intro r hr
      simp only [hok] at hr
      exact h.left r (by simp [hleft, hr])

/-- Where events can be built and the store does not raise, sweeps are completed. -/
theorem Dependable.completes (hash : Str → ℤ) {run : MonitorRun} (h : run.Dependable)
    {ops : List MonitorOp} (hops : ∀ op ∈ ops, Faultless op) :
    Transition.Always (MonitorRun.apply hash) Completes ops run := by
  apply Transition.Always.of_invariant (Q := fun _ op => Faultless op)
    (fun op run hrun hop => hrun.apply hash hop) h
  intro before op after heq
  exact hops op (by simp [heq])

end MonitorRun

end Ebabf
