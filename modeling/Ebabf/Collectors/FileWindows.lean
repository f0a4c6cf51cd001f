import Ebabf.Collectors.FileCounts
import Ebabf.Py.FloatOrder

/-!
# The time that counts cover

A sweep takes the time since the sweep before it for every root. That is the time since the root
was drained as long as the sweep before drained it, which a sweep that raises on the way does not.
-/

namespace Ebabf

open Py (Str str Exc Datetime Json Dict Proc Ran)

/-- The mutations that an event covers. -/
def Report.mutations (report : Report) : ℕ :=
  report.covers.countP fun call => (mutationOf call.eventType).isSome

/-- The time between two readings of the clock. -/
def elapsed (since now : Datetime) : Float := timestampOf now - timestampOf since

/-- The window of the event is the time since its root was drained before, and the rate is the
number of its mutations over that time; both to three decimals. -/
def Report.CoversItsTime (report : Report) : Prop :=
  ∀ previous ∈ report.previous,
    report.event.fields.rawAttributes.get? (str "window_seconds") =
      some (.json (.float (Py.roundThousandths (elapsed previous.sweptAt report.drain.sweptAt)))) ∧
    report.event.fields.rawAttributes.get? (str "file_modification_rate") =
      some (.json (.float (Py.roundThousandths
        (Float.ofNat report.mutations / elapsed previous.sweptAt report.drain.sweptAt))))

/-- As floats the first reading is not zero and the second one is after it. -/
def Readable (since now : Datetime) : Prop :=
  (timestampOf since != 0.0) = true ∧ 0.0 < elapsed since now

instance (since now : Datetime) : Decidable (Readable since now) :=
  inferInstanceAs (Decidable (_ ∧ _))

namespace MonitorRun

/-- A sweep after the first one reads a later instant than the sweep before it. -/
def Advances (run : MonitorRun) : MonitorOp → Prop
  | .sweep => run.left = [] → 0 < run.sweeps →
      run.sweptAt.instant < (run.monitor.context.readings 0).instant
  | _ => True

instance (run : MonitorRun) (op : MonitorOp) : Decidable (run.Advances op) := by
  cases op <;> unfold Advances <;> infer_instance

/-- When an event is to be built for a root that was drained before, the sweep before this one
drained it. -/
def InStep (run : MonitorRun) : MonitorOp → Prop
  | .visit _ => ∀ root ∈ run.left.head?, run.monitor.pending root.label ≠ 0 →
      ∀ previous ∈ run.drains root.label,
        previous.sweep + 1 = run.sweeps ∧ Readable previous.sweptAt run.sweptAt
  | _ => True

instance (run : MonitorRun) (op : MonitorOp) : Decidable (run.InStep op) := by
  cases op <;> unfold InStep <;> infer_instance

/-- The window a sweep computes from the reading of the sweep before it. -/
def windowSince (since now : Datetime) : Option Float :=
  ((some (timestampOf since)).filter fun last => last != 0.0).map fun last =>
    timestampOf now - last

theorem windowSince_of_readable {since now : Datetime} (h : Readable since now) :
    windowSince since now = some (elapsed since now) := by
  simp [windowSince, elapsed, Option.filter, h.1]

/-- The collector's time is that of the last sweep, and the window of the sweep under way goes back
to the drains of the sweep before it. -/
structure Timed (run : MonitorRun) : Prop where
  begun : run.left ≠ [] → 0 < run.sweeps
  last_sweep : 0 < run.sweeps → run.monitor.lastSweep = some (timestampOf run.sweptAt)
  numbered : ∀ label, ∀ drain ∈ run.drains label, 0 < drain.sweep ∧ drain.sweep ≤ run.sweeps
  latest : ∀ label, ∀ drain ∈ run.drains label, drain.sweep = run.sweeps →
    drain.sweptAt = run.sweptAt
  window : ∀ label, ∀ drain ∈ run.drains label, drain.sweep + 1 = run.sweeps →
    run.window = windowSince drain.sweptAt run.sweptAt

theorem Timed.start (context : CollectorContext) (roots : List WatchRoot)
    (startedAt : Option Float) : Timed (start context roots startedAt) where
  begun h := absurd rfl h
  last_sweep h := absurd h (lt_irrefl 0)
  numbered _ _ h := nomatch h
  latest _ _ h := nomatch h
  window _ _ h := nomatch h

theorem Timed.sweep {run : MonitorRun} (h : run.Timed) : run.sweep.Timed := by
  unfold MonitorRun.sweep
  cases hleft : run.left with
  | cons root left => exact h
  | nil =>
    constructor
    · exact fun _ => Nat.succ_pos _
    · exact fun _ => rfl
    · intro label drain hdrain
      have hnumbered := h.numbered label drain hdrain
      exact ⟨hnumbered.1, hnumbered.2.trans (Nat.le_succ _)⟩
    · intro label drain hdrain hsweep
      have hnumbered := h.numbered label drain hdrain
      dsimp only at hsweep
      omega
    · intro label drain hdrain hsweep
      have hsame : drain.sweep = run.sweeps := Nat.succ_injective hsweep
      have hbegun : 0 < run.sweeps := hsame ▸ (h.numbered label drain hdrain).1
      rw [h.latest label drain hdrain hsame]
      dsimp only
      rw [FileMonitor.windowUntil, h.last_sweep hbegun]
      rfl

theorem Timed.visit {run : MonitorRun} (h : run.Timed) (fault : Option Exc) :
    (run.visit fault).Timed := by
  unfold MonitorRun.visit
  cases hleft : run.left with
  | nil => exact h
  | cons root left =>
    have hbegun : 0 < run.sweeps := h.begun (by simp [hleft])
    -- the drain of this turn or one from before
    have hdrains : ∀ label drain, drain ∈ Function.update run.drains root.label
        (some ⟨run.sweeps, run.sweptAt⟩) label →
          drain = ⟨run.sweeps, run.sweptAt⟩ ∨ drain ∈ run.drains label := by
      intro label drain hdrain
      by_cases hlabel : label = root.label
      · subst hlabel
        rw [Function.update_self] at hdrain
        exact .inl (Option.some.inj hdrain).symm
      · rw [Function.update_of_ne hlabel] at hdrain
        exact .inr hdrain
    constructor
    · exact fun _ => hbegun
    · intro _
      exact (turn_spec fault root run).2.last_sweep.trans (h.last_sweep hbegun)
    · intro label drain hdrain
      rcases hdrains label drain hdrain with rfl | hdrain
      · exact ⟨hbegun, le_rfl⟩
      · exact h.numbered label drain hdrain
    · intro label drain hdrain hsweep
      rcases hdrains label drain hdrain with rfl | hdrain
      · rfl
      · exact h.latest label drain hdrain hsweep
    · intro label drain hdrain hsweep
      rcases hdrains label drain hdrain with rfl | hdrain
      · dsimp only at hsweep
        omega
      · exact h.window label drain hdrain hsweep

theorem Timed.record {run : MonitorRun} (h : run.Timed) (hash : Str → ℤ) (call : RecordCall) :
    (run.record hash call).Timed := by
  have hlast : (run.record hash call).monitor.lastSweep = run.monitor.lastSweep := by
    unfold MonitorRun.record FileMonitor.record
    cases run.monitor.handlers.get? call.label <;> rfl
  exact ⟨h.begun, fun hbegun => hlast.trans (h.last_sweep hbegun), h.numbered, h.latest, h.window⟩

theorem Timed.apply {run : MonitorRun} (h : run.Timed) (hash : Str → ℤ) (op : MonitorOp) :
    (run.apply hash op).Timed := by
  cases op with
  | record call => exact h.record hash call
  | sweep => exact h.sweep
  | visit fault => exact h.visit fault

/-- An event of a turn in step covers its time. -/
theorem coversItsTime_of_inStep {hash : Str → ℤ} {run : MonitorRun} (hholds : Holds hash run)
    (htimed : run.Timed) {fault : Option Exc} {root : WatchRoot} {left : List WatchRoot}
    (hleft : run.left = root :: left) (hstep : run.InStep (.visit fault)) {report : Report}
    (hreport : report ∈ run.turnReports fault root) : report.CoversItsTime := by
  have hturn := hholds.turnReport hreport
  intro previous hprevious
  rw [hturn.previous] at hprevious
  obtain ⟨hsweep, hreadable⟩ :=
    hstep root (by simp [hleft]) hturn.pending previous hprevious
  have hwindow : run.window = some (elapsed previous.sweptAt run.sweptAt) := by
    rw [htimed.window root.label previous hprevious hsweep, windowSince_of_readable hreadable]
  have hne := Py.float_bne_of_lt hreadable.2
  have hdescribes := FileMonitor.describes_describe root (.ofCalls hash report.covers) run.window
  rw [hturn.drain, hturn.attributes]
  constructor
  · rw [hdescribes.window, hwindow]
    simp [FileMonitor.floatOrNull, Option.filter, hne]
  · rw [hdescribes.rate, hwindow]
    simp [FileMonitor.floatOrNull, FileMonitor.modificationRate, Option.filter, hne, hreadable.2,
      FileActivity.total_ofCalls, Report.mutations]

theorem coversItsTime_apply {hash : Str → ℤ} {run : MonitorRun} (hholds : Holds hash run)
    (htimed : run.Timed) (h : ∀ report ∈ run.reports, report.CoversItsTime) {op : MonitorOp}
    (hstep : run.InStep op) : ∀ report ∈ (run.apply hash op).reports, report.CoversItsTime := by
  intro report hreport
  rcases mem_reports_apply hreport with hold | ⟨fault, root, left, rfl, hleft, hnew⟩
  · exact h report hold
  · exact coversItsTime_of_inStep hholds htimed hleft hstep hnew

/-- Where every event is built in step, the events of every state reached cover their time. -/
theorem visits_coversItsTime (hash : Str → ℤ) (context : CollectorContext)
    (roots : List WatchRoot) (startedAt : Option Float) (ops : List MonitorOp)
    (hstep : Transition.Always (apply hash) InStep ops (start context roots startedAt)) :
    Transition.Visits (apply hash) (fun run => ∀ report ∈ run.reports, report.CoversItsTime) ops
      (start context roots startedAt) := by
  intro before after hops
  have hbefore : Transition.Always (apply hash) InStep before (start context roots startedAt) := by
    rw [hops] at hstep
    exact Transition.Always.prefix hstep
  have hinvariant : ∀ op run, (Holds hash run ∧ run.Timed ∧
      ∀ report ∈ run.reports, report.CoversItsTime) → run.InStep op →
        Holds hash (apply hash op run) ∧ (apply hash op run).Timed ∧
          ∀ report ∈ (apply hash op run).reports, report.CoversItsTime :=
    fun op run h hop =>
      ⟨h.1.apply op, h.2.1.apply hash op, coversItsTime_apply h.1 h.2.1 h.2.2 hop⟩
  exact (Transition.Always.run_invariant hinvariant
    ⟨Holds.start hash context roots startedAt, Timed.start context roots startedAt,
      fun _ h => nomatch h⟩ hbefore).2.2

end MonitorRun

/-- The window as the event gives it. -/
def Report.window (report : Report) : Option Float :=
  match report.event.fields.rawAttributes.get? (str "window_seconds") with
  | some (.json (.float x)) => some x
  | _ => none

def noonAt (second : Fin 60) : Datetime :=
  { Datetime.epoch with
    year := 2026
    month := 3
    hour := 12
    second
    date_valid := by decide
    time_valid := ⟨by decide, by decide, second.isLt, by decide⟩ }

/-- A clock that is read every ten seconds from noon on. -/
def noonContext : CollectorContext :=
  { oneContext with readings := fun n => noonAt (Fin.ofNat 60 (10 * n)) }

def twoRoots : List WatchRoot := [documentsRoot, SystemFolder.config.root]

def documentsWrite : MonitorOp :=
  .record ⟨str "alice:Documents", str "modified", str "/home/alice/Documents/a", 1.0⟩

def configWrite : MonitorOp :=
  .record ⟨str "system_config", str "modified", str "/etc/passwd", 2.0⟩

def wholeSweep : List MonitorOp := [.sweep, .visit none, .visit none]

/-- The second of three sweeps raises at its first root. -/
def raisingBetween : List MonitorOp :=
  wholeSweep ++ [documentsWrite, .sweep, .visit (some ⟨.other (str "OperationalError"),
    str "database or disk is full"⟩), configWrite] ++ wholeSweep

namespace MonitorRun

theorem visits_coversItsTime_wholeSweeps :
    Transition.Visits (apply fun _ => 0) (fun run => ∀ report ∈ run.reports, report.CoversItsTime)
      (wholeSweep ++ [documentsWrite, configWrite] ++ wholeSweep)
      (start noonContext twoRoots none) :=
  visits_coversItsTime (fun _ => 0) noonContext twoRoots none _ (by decide +kernel)

/-- After a sweep that raised at the first root, the event of the second root has the time since
that sweep, not the time since its drain. -/
theorem raisingBetween_window : ¬ ∀ (hash : Str → ℤ) (context : CollectorContext)
    (roots : List WatchRoot) (startedAt : Option Float) (ops : List MonitorOp),
    (roots.map WatchRoot.label).Nodup →
    Transition.Always (apply hash) Advances ops (start context roots startedAt) →
      Transition.Visits (apply hash) (fun run => ∀ report ∈ run.reports, report.CoversItsTime) ops
        (start context roots startedAt) := by
  intro h
  have hcovers := h (fun _ => 0) noonContext twoRoots none raisingBetween (by decide)
    (by decide +kernel) raisingBetween [] (List.append_nil _).symm
  generalize hrun : Transition.run _ raisingBetween _ = run at hcovers
  have htimes : run.reports.map (fun report => (report.previous.map Drain.sweptAt,
      report.drain.sweptAt)) = [(some (noonAt 0), noonAt 20)] := by
    rw [← hrun]
    decide +kernel
  have hten : (run.reports.all fun report => report.window == some 10.0) = true := by
    rw [← hrun]
    decide +kernel
  obtain ⟨report, hreports, htimes⟩ := List.map_eq_singleton_iff.mp htimes
  rw [Prod.mk.injEq, Option.map_eq_some_iff] at htimes
  obtain ⟨⟨previous, hprevious, hsince⟩, hnow⟩ := htimes
  have hwindow : report.window =
      some (Py.roundThousandths (elapsed (noonAt 0) (noonAt 20))) := by
    have hcovered := (hcovers report (by simp [hreports]) previous hprevious).1
    rw [Report.window, hcovered, hsince, hnow]
  have htwenty : ((some (Py.roundThousandths (elapsed (noonAt 0) (noonAt 20))) : Option Float) ==
      some 10.0) = false := by
    decide +kernel
  rw [hreports, List.all_cons, List.all_nil, Bool.and_true, hwindow, htwenty] at hten
  cases hten

/-- A turn raises, if at all, when no other root is left, and where a root was drained before, a
sweep begins with a reading after the last one. -/
def Reaches (run : MonitorRun) : MonitorOp → Prop
  | .record _ => True
  | .sweep => (∃ label, run.drains label ≠ none) →
      Readable run.sweptAt (run.monitor.context.readings 0)
  | .visit fault => ∀ root ∈ run.left.head?, (run.turn fault root).outcome = .ok () ∨
      run.left.tail = []

/-- A root that waits for its turn was drained by the sweep before, if at all, and one that had its
turn by this one. -/
structure Current (run : MonitorRun) : Prop where
  roots : (run.monitor.roots.map WatchRoot.label).Nodup
  distinct : (run.left.map WatchRoot.label).Nodup
  waiting : ∀ root ∈ run.left, ∀ drain ∈ run.drains root.label,
    drain.sweep + 1 = run.sweeps ∧ Readable drain.sweptAt run.sweptAt
  visited : ∀ root ∈ run.monitor.roots, root.label ∉ run.left.map WatchRoot.label →
    ∀ drain ∈ run.drains root.label, drain = ⟨run.sweeps, run.sweptAt⟩

theorem Current.start (context : CollectorContext) {roots : List WatchRoot}
    (hdistinct : (roots.map WatchRoot.label).Nodup) (startedAt : Option Float) :
    Current (start context roots startedAt) where
  roots := hdistinct
  distinct := List.nodup_nil
  waiting _ h := nomatch h
  visited _ _ _ _ h := nomatch h

theorem Current.sweep {run : MonitorRun} (h : run.Current) (hreaches : run.Reaches .sweep) :
    run.sweep.Current := by
  unfold MonitorRun.sweep
  cases hleft : run.left with
  | cons root left => exact h
  | nil =>
    refine ⟨h.roots, h.roots, ?_, ?_⟩
    · intro root hroot drain hdrain
      have hlast := h.visited root hroot (by simp [hleft]) drain hdrain
      subst hlast
      exact ⟨rfl, hreaches ⟨root.label, Option.ne_none_iff_exists'.mpr ⟨_, hdrain⟩⟩⟩
    · intro root hroot hlabel
      exact absurd (List.mem_map_of_mem hroot) hlabel

theorem Current.visit {run : MonitorRun} (h : run.Current) {fault : Option Exc}
    (hreaches : run.Reaches (.visit fault)) : (run.visit fault).Current := by
  cases hleft : run.left with
  | nil =>
    have hsame : run.visit fault = run := by rw [MonitorRun.visit, hleft]
    rw [hsame]
    exact h
  | cons root left =>
    have hdistinct := h.distinct
    rw [hleft, List.map_cons, List.nodup_cons] at hdistinct
    have hrest : (run.visit fault).left = left := by
      apply left_visit hleft
      simpa [hleft] using hreaches root (by simp [hleft])
    have hroots : (run.visit fault).monitor.roots = run.monitor.roots :=
      roots_apply (fun _ => 0) run (.visit fault)
    obtain ⟨hsweeps, hsweptAt⟩ := sweeps_visit run fault
    refine ⟨hroots ▸ h.roots, hrest ▸ hdistinct.2, ?_, ?_⟩
    · intro r hr drain hdrain
      rw [hrest] at hr
      have hlabel : r.label ≠ root.label := by
        intro heq
        exact hdistinct.1 (heq ▸ List.mem_map_of_mem hr)
      rw [drains_visit fault hleft, Function.update_of_ne hlabel] at hdrain
      rw [hsweeps, hsweptAt]
      exact h.waiting r (by simp [hleft, hr]) drain hdrain
    · intro r hr hlabel drain hdrain
      rw [hroots] at hr
      rw [hrest] at hlabel
      rw [hsweeps, hsweptAt]
      rw [drains_visit fault hleft] at hdrain
      by_cases heq : r.label = root.label
      · rw [heq, Function.update_self] at hdrain
        exact (Option.some.inj hdrain).symm
      · rw [Function.update_of_ne heq] at hdrain
        exact h.visited r hr (by simp [hleft, heq, hlabel]) drain hdrain

theorem Current.record {run : MonitorRun} (h : run.Current) (hash : Str → ℤ) (call : RecordCall) :
    (run.record hash call).Current := by
  have hroots : (run.record hash call).monitor.roots = run.monitor.roots :=
    roots_apply hash run (.record call)
  exact ⟨hroots ▸ h.roots, h.distinct, h.waiting, hroots ▸ h.visited⟩

theorem Current.inStep {run : MonitorRun} (h : run.Current) (op : MonitorOp) : run.InStep op := by
  cases op with
  | record call => trivial
  | sweep => trivial
  | visit fault =>
    intro root hroot _
    exact h.waiting root (List.mem_of_mem_head? hroot)

/-- Among roots with labels of their own, sweeps that reach every root build every event in
step. -/
theorem inStep_of_reaches (hash : Str → ℤ) (context : CollectorContext) {roots : List WatchRoot}
    (hdistinct : (roots.map WatchRoot.label).Nodup) (startedAt : Option Float)
    {ops : List MonitorOp}
    (hreaches : Transition.Always (apply hash) Reaches ops (start context roots startedAt)) :
    Transition.Always (apply hash) InStep ops (start context roots startedAt) := by
  refine Transition.Always.of_invariant (I := Current) ?_
    (Current.start context hdistinct startedAt) hreaches
  intro op run h hop
  refine ⟨?_, h.inStep op⟩
  cases op with
  | record call => exact h.record hash call
  | sweep => exact h.sweep hop
  | visit fault => exact h.visit hop

end MonitorRun

end Ebabf
