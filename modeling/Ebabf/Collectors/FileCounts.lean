import Ebabf.Collectors.FileRuns

/-!
# Every mutation is reported once

What the events of a root say and what its handler holds are the calls it got, counter by counter.
-/

namespace Ebabf

open Py (Str str Exc Datetime Json Dict Proc Ran)

namespace FileActivity

theorem ofCalls_concat (hash : Str → ℤ) (calls : List RecordCall) (call : RecordCall) :
    ofCalls hash (calls ++ [call]) =
      (ofCalls hash calls).record hash call.eventType call.path call.moment := by
  simp [ofCalls]

theorem counter_ofCalls (hash : Str → ℤ) (calls : List RecordCall) (mutation : Mutation) :
    (ofCalls hash calls).counter mutation =
      calls.countP fun call => call.eventType == mutation.eventType := by
  induction calls using List.reverseRecOn with
  | nil => cases mutation <;> rfl
  | append_singleton calls call ih =>
    rw [ofCalls_concat, counter_record, ih, List.countP_append, List.countP_singleton]
    simp

theorem total_ofCalls (hash : Str → ℤ) (calls : List RecordCall) :
    (ofCalls hash calls).total = calls.countP fun call => (mutationOf call.eventType).isSome := by
  induction calls using List.reverseRecOn with
  | nil => rfl
  | append_singleton calls call ih =>
    rw [ofCalls_concat, total_record, ih, List.countP_append, List.countP_singleton]

theorem sensitive_ofCalls (hash : Str → ℤ) (calls : List RecordCall) :
    (!(ofCalls hash calls).sensitiveCategories.isEmpty) = calls.any RecordCall.sensitive := by
  have hiff : (ofCalls hash calls).sensitiveCategories ≠ [] ↔ ∃ call ∈ calls, call.sensitive := by
    induction calls using List.reverseRecOn with
    | nil => simp [ofCalls]
    | append_singleton calls call ih =>
      rw [ofCalls_concat, sensitive_record, ih]
      simp [RecordCall.sensitive, or_and_right, exists_or]
  rw [Bool.eq_iff_iff, List.any_eq_true, ← hiff]
  simp

end FileActivity

namespace FileMonitor

/-- The counter of a mutation that is not drained yet. -/
def pendingOf (mutation : Mutation) (label : Str) (m : FileMonitor) : ℕ :=
  ((m.handlers.get? label).map (FileActivity.counter mutation)).getD 0

end FileMonitor

namespace MonitorRun

/-- Each handler holds the activity of the calls since it was drained, all of them its own. -/
structure Holds (hash : Str → ℤ) (run : MonitorRun) : Prop where
  handlers : ∀ label, ∀ activity ∈ run.monitor.handlers.get? label,
    activity = .ofCalls hash (run.since label)
  own : ∀ label, ∀ call ∈ run.since label, call.label = label

theorem Holds.start (hash : Str → ℤ) (context : CollectorContext) (roots : List WatchRoot)
    (startedAt : Option Float) : Holds hash (start context roots startedAt) where
  handlers label activity h := by
    rw [MonitorRun.start, FileMonitor.get?_handlers_init] at h
    split_ifs at h
    · obtain rfl : {} = activity := by simpa using h
      rfl
    · cases h
  own _ _ h := nomatch h

theorem Holds.record {hash : Str → ℤ} {run : MonitorRun} (h : Holds hash run) (call : RecordCall) :
    Holds hash (run.record hash call) where
  handlers label activity hactivity := by
    rw [MonitorRun.record, get?_handlers_record] at hactivity
    split_ifs at hactivity with hlabel
    · obtain ⟨held, hheld, rfl⟩ := Option.mem_map.mp hactivity
      rw [h.handlers label held hheld, hlabel]
      simp [MonitorRun.record, FileActivity.ofCalls_concat]
    · simpa [MonitorRun.record, hlabel] using h.handlers label activity hactivity
  own label c hc := by
    by_cases hlabel : label = call.label
    · subst hlabel
      simp only [MonitorRun.record, Function.update_self, List.mem_append,
        List.mem_singleton] at hc
      rcases hc with hc | rfl
      · exact h.own _ c hc
      · rfl
    · simp only [MonitorRun.record, Function.update_of_ne hlabel] at hc
      exact h.own label c hc

theorem Holds.visit {hash : Str → ℤ} {run : MonitorRun} (h : Holds hash run)
    (fault : Option Exc) : Holds hash (run.visit fault) := by
  unfold MonitorRun.visit
  cases hleft : run.left with
  | nil => exact h
  | cons root left =>
    constructor
    · intro label activity hactivity
      rw [(turn_spec fault root run).2.handlers] at hactivity
      split_ifs at hactivity with hlabel
      · obtain ⟨held, hheld, rfl⟩ := Option.mem_map.mp hactivity
        simp [hlabel, FileActivity.ofCalls]
      · simpa [hlabel] using h.handlers label activity hactivity
    · intro label call hcall
      by_cases hlabel : label = root.label
      · simp [hlabel] at hcall
      · simp only [Function.update_of_ne hlabel] at hcall
        exact h.own label call hcall

theorem Holds.apply {hash : Str → ℤ} {run : MonitorRun} (h : Holds hash run) (op : MonitorOp) :
    Holds hash (run.apply hash op) := by
  cases op with
  | record call => exact h.record call
  | visit fault => exact h.visit fault
  | sweep =>
    rw [apply_sweep]
    unfold MonitorRun.sweep
    cases hleft : run.left with
    | nil => exact ⟨h.handlers, h.own⟩
    | cons root left => exact h

/-- What is true of an event of the turn of a root. -/
structure TurnReport (hash : Str → ℤ) (run : MonitorRun) (root : WatchRoot) (report : Report) :
    Prop where
  covers : report.covers = run.since root.label
  drain : report.drain = ⟨run.sweeps, run.sweptAt⟩
  previous : report.previous = run.drains root.label
  attributes : report.event.fields.rawAttributes =
    FileMonitor.describe root (.ofCalls hash report.covers) run.window
  pending : run.monitor.pending root.label ≠ 0

theorem Holds.turnReport {hash : Str → ℤ} {run : MonitorRun} (h : Holds hash run)
    {fault : Option Exc} {root : WatchRoot} {report : Report}
    (hreport : report ∈ run.turnReports fault root) : TurnReport hash run root report := by
  obtain ⟨event, hevent, rfl⟩ := List.mem_map.mp hreport
  cases hran : run.turn fault root with
  | mk outcome trace state =>
    have hvisited := (turn_spec fault root run).1
    rw [hran] at hvisited hevent
    cases hvisited with
    | failed => cases hevent
    | quiet => cases hevent
    | yielded held total attributes =>
      obtain rfl : event = _ := by simpa using hevent
      refine ⟨rfl, rfl, rfl, ?_, ?_⟩
      · rw [attributes, h.handlers root.label _ held]
      · rw [FileMonitor.pending, held]
        exact total

/-- The event describes the activity of the calls it covers, all of them calls at its root. -/
def Covered (hash : Str → ℤ) (report : Report) : Prop :=
  ∃ root window, report.event.fields.rawAttributes =
      FileMonitor.describe root (.ofCalls hash report.covers) window ∧
    ∀ call ∈ report.covers, call.label = root.label

theorem covered_apply {hash : Str → ℤ} {run : MonitorRun} (hholds : Holds hash run)
    (h : ∀ report ∈ run.reports, Covered hash report) (op : MonitorOp) :
    ∀ report ∈ (run.apply hash op).reports, Covered hash report := by
  intro report hreport
  rcases mem_reports_apply hreport with hold | ⟨fault, root, left, -, -, hnew⟩
  · exact h report hold
  · have hturn := hholds.turnReport hnew
    refine ⟨root, run.window, hturn.attributes, fun call hcall => ?_⟩
    rw [hturn.covers] at hcall
    exact hholds.own _ call hcall

section Covered

variable {hash : Str → ℤ} {report : Report}

theorem Covered.label (h : Covered hash report) :
    ∀ call ∈ report.covers, report.label = some call.label := by
  obtain ⟨root, window, hattributes, hown⟩ := h
  intro call hcall
  rw [Report.label, FileMonitor.labelOf, hattributes, FileMonitor.label_describe, hown call hcall]

theorem Covered.count (h : Covered hash report) (mutation : Mutation) :
    report.count mutation =
      report.covers.countP fun call => call.eventType == mutation.eventType := by
  obtain ⟨root, window, hattributes, -⟩ := h
  have hfield := (FileMonitor.describes_describe root (.ofCalls hash report.covers) window).counter
    mutation
  rw [Report.count, hattributes, hfield, FileActivity.counter_ofCalls]

theorem Covered.total (h : Covered hash report) :
    report.event.fields.rawAttributes.get? (str "events_total") =
      some (.json (.int ((Mutation.all.map fun mutation => report.count mutation).sum))) := by
  have hcounts : (Mutation.all.map fun mutation => report.count mutation).sum =
      ((FileActivity.ofCalls hash report.covers).total : ℤ) := by
    simp only [h.count, FileActivity.total_eq_sum, FileActivity.counter_ofCalls]
    simp [Mutation.all]
  obtain ⟨root, window, hattributes, -⟩ := h
  rw [hattributes, (FileMonitor.describes_describe root _ window).total, hcounts]

theorem Covered.sensitive (h : Covered hash report) :
    report.event.fields.rawAttributes.get? (str "sensitive_path_write") =
      some (.json (.bool (report.covers.any RecordCall.sensitive))) := by
  obtain ⟨root, window, hattributes, -⟩ := h
  rw [hattributes, (FileMonitor.describes_describe root _ window).sensitive,
    FileActivity.sensitive_ofCalls]

end Covered

/-- What the events of a label say of a mutation. -/
def reported (mutation : Mutation) (label : Str) (reports : List Report) : ℤ :=
  ((reports.filter fun report => report.label == some label).map (Report.count mutation)).sum

/-- The mutations that are reported, and those that are not drained yet. -/
def tally (mutation : Mutation) (label : Str) (run : MonitorRun) : ℤ :=
  reported mutation label run.reports + run.monitor.pendingOf mutation label

theorem reported_append (mutation : Mutation) (label : Str) (reports more : List Report) :
    reported mutation label (reports ++ more) =
      reported mutation label reports + reported mutation label more := by
  simp [reported]

theorem tally_record (hash : Str → ℤ) {label : Str} {run : MonitorRun} (h : Handled label run)
    (mutation : Mutation) (call : RecordCall) :
    tally mutation label (run.record hash call) = tally mutation label run +
      if (MonitorOp.record call).records mutation label then 1 else 0 := by
  obtain ⟨activity, hactivity⟩ := Option.isSome_iff_exists.mp h
  have hpending : (run.record hash call).monitor.pendingOf mutation label =
      run.monitor.pendingOf mutation label +
        if (MonitorOp.record call).records mutation label then 1 else 0 := by
    rw [FileMonitor.pendingOf, MonitorRun.record, get?_handlers_record, FileMonitor.pendingOf,
      hactivity]
    by_cases hlabel : label = call.label
    · simp [hlabel, MonitorOp.records, FileActivity.counter_record]
    · simp [hlabel, MonitorOp.records, Ne.symm hlabel]
  rw [tally, hpending, tally, MonitorRun.record, Nat.cast_add, add_assoc]
  split_ifs <;> rfl

theorem reported_turnReports {run : MonitorRun} {fault : Option Exc} {root : WatchRoot}
    (hok : (run.turn fault root).outcome = .ok ()) (mutation : Mutation) (label : Str) :
    reported mutation label (run.turnReports fault root) =
      if label = root.label then (run.monitor.pendingOf mutation label : ℤ) else 0 := by
  have hvisited := (turn_spec fault root run).1
  unfold MonitorRun.turnReports
  cases hran : run.turn fault root with
  | mk outcome trace state =>
    rw [hran] at hvisited hok
    cases hvisited with
    | failed => cases hok
    | quiet held total =>
      have hzero := FileActivity.counter_eq_zero total mutation
      split_ifs with hlabel
      · simp [reported, FileMonitor.pendingOf, hlabel, held, hzero]
      · rfl
    | @yielded activity event _ held total attributes =>
      have hroot : ∀ covers drain previous,
          Report.label ⟨event, covers, drain, previous⟩ = some root.label := by
        intro covers drain previous
        rw [Report.label, FileMonitor.labelOf, attributes, FileMonitor.label_describe]
      have hcount : ∀ covers drain previous,
          Report.count mutation ⟨event, covers, drain, previous⟩ = activity.counter mutation := by
        intro covers drain previous
        rw [Report.count, attributes,
          (FileMonitor.describes_describe root activity run.window).counter]
      by_cases hlabel : label = root.label
      · simp [reported, FileMonitor.pendingOf, hlabel, held, hroot, hcount]
      · simp [reported, hlabel, Ne.symm hlabel, hroot]

theorem tally_visit {run : MonitorRun} {fault : Option Exc} (h : run.Completes (.visit fault))
    (mutation : Mutation) (label : Str) :
    tally mutation label (run.visit fault) = tally mutation label run := by
  unfold MonitorRun.visit
  cases hleft : run.left with
  | nil => rfl
  | cons root left =>
    have hok : (run.turn fault root).outcome = .ok () := h root (by simp [hleft])
    have hpending : (run.turn fault root).state.pendingOf mutation label =
        if label = root.label then 0 else run.monitor.pendingOf mutation label := by
      rw [FileMonitor.pendingOf, (turn_spec fault root run).2.handlers]
      split_ifs
      · cases run.monitor.handlers.get? label <;> cases mutation <;> rfl
      · rfl
    simp only [tally, reported_append, reported_turnReports hok, hpending]
    split_ifs <;> simp

theorem tally_sweep (mutation : Mutation) (label : Str) (run : MonitorRun) :
    tally mutation label run.sweep = tally mutation label run := by
  unfold MonitorRun.sweep
  cases hleft : run.left <;> rfl

theorem tally_apply (hash : Str → ℤ) {label : Str} {run : MonitorRun} (h : Handled label run)
    (mutation : Mutation) (op : MonitorOp) (hcompletes : run.Completes op) :
    tally mutation label (run.apply hash op) =
      tally mutation label run + if op.records mutation label then 1 else 0 := by
  cases op with
  | record call => exact tally_record hash h mutation call
  | sweep => simp [MonitorOp.records, tally_sweep]
  | visit fault => simp [MonitorOp.records, tally_visit hcompletes]

theorem tally_run (hash : Str → ℤ) (mutation : Mutation) (label : Str) (ops : List MonitorOp)
    {run : MonitorRun} (h : Handled label run)
    (hcompletes : Transition.Always (apply hash) Completes ops run) :
    tally mutation label (Transition.run (apply hash) ops run) =
      tally mutation label run + ops.countP (MonitorOp.records mutation label) := by
  induction ops generalizing run with
  | nil => simp
  | cons op ops ih =>
    obtain ⟨hop, hops⟩ := Transition.always_cons.mp hcompletes
    rw [Transition.run_cons, ih (handled_apply hash h op) hops, tally_apply hash h mutation op hop,
      List.countP_cons]
    split_ifs <;> push_cast <;> omega

/-- Every event of a run describes the activity of the calls it covers. -/
theorem covered_run (hash : Str → ℤ) (context : CollectorContext) (roots : List WatchRoot)
    (startedAt : Option Float) (ops : List MonitorOp) :
    ∀ report ∈ (Transition.run (apply hash) ops (start context roots startedAt)).reports,
      Covered hash report := by
  have hstep : ∀ op run, (Holds hash run ∧ ∀ report ∈ run.reports, Covered hash report) →
      Holds hash (apply hash op run) ∧
        ∀ report ∈ (apply hash op run).reports, Covered hash report :=
    fun op run h => ⟨h.1.apply op, covered_apply h.1 h.2 op⟩
  exact (Transition.run_invariant hstep ops
    ⟨Holds.start hash context roots startedAt, fun _ h => nomatch h⟩).2

/-- Whatever calls come between and during completed sweeps, for each root and each mutation the
events and what is not drained yet account for the calls. An event says how many calls of each
mutation it covers, their sum, and whether one of them was on a sensitive path. -/
theorem reported_once (hash : Str → ℤ) (context : CollectorContext) (roots : List WatchRoot)
    (startedAt : Option Float) (ops : List MonitorOp)
    (hcompletes : Transition.Always (apply hash) Completes ops (start context roots startedAt)) :
    let run := Transition.run (apply hash) ops (start context roots startedAt)
    (∀ root ∈ roots, ∀ mutation,
      reported mutation root.label run.reports + run.monitor.pendingOf mutation root.label =
        ops.countP (MonitorOp.records mutation root.label)) ∧
    ∀ report ∈ run.reports,
      (∀ call ∈ report.covers, report.label = some call.label) ∧
      (∀ mutation, report.count mutation =
        report.covers.countP fun call => call.eventType == mutation.eventType) ∧
      report.event.fields.rawAttributes.get? (str "events_total") =
        some (.json (.int ((Mutation.all.map fun mutation => report.count mutation).sum))) ∧
      report.event.fields.rawAttributes.get? (str "sensitive_path_write") =
        some (.json (.bool (report.covers.any RecordCall.sensitive))) := by
  constructor
  · intro root hroot mutation
    have hheld : (start context roots startedAt).monitor.handlers.get? root.label = some {} := by
      rw [start, FileMonitor.get?_handlers_init, if_pos (List.mem_map_of_mem hroot)]
    have hzero : tally mutation root.label (start context roots startedAt) = 0 := by
      rw [tally, FileMonitor.pendingOf, hheld]
      cases mutation <;> rfl
    have htally := tally_run hash mutation root.label ops (by simp [Handled, hheld]) hcompletes
    rw [hzero, zero_add] at htally
    exact htally
  · intro report hreport
    have hcovered := covered_run hash context roots startedAt ops report hreport
    exact ⟨hcovered.label, hcovered.count, hcovered.total, hcovered.sensitive⟩

end MonitorRun

def documentsRoot : WatchRoot := ⟨str "/home/alice/Documents", str "alice:Documents", str "alice"⟩

/-- A sweep of two roots, with calls before it, in it and after it. -/
def callsAround : List MonitorOp :=
  [.record ⟨str "alice:Documents", str "created", str "/home/alice/Documents/a", 1.0⟩,
    .record ⟨str "system_config", str "opened", str "/etc/passwd", 2.0⟩,
    .sweep,
    .visit none,
    .record ⟨str "system_config", str "modified", str "/etc/passwd", 3.0⟩,
    .visit none,
    .record ⟨str "alice:Documents", str "moved", str "/home/alice/Documents/b", 4.0⟩]

theorem MonitorRun.reported_once_callsAround :
    let roots := [documentsRoot, SystemFolder.config.root]
    let run := Transition.run (apply fun _ => 0) callsAround (start oneContext roots none)
    ∀ root ∈ roots, ∀ mutation,
      reported mutation root.label run.reports + run.monitor.pendingOf mutation root.label =
        callsAround.countP (MonitorOp.records mutation root.label) := by
  have hdependable := Dependable.start oneContext_dependable
    (show ∀ root ∈ [documentsRoot, SystemFolder.config.root], root.subject ≠ [] by decide) none
  have hcompletes := hdependable.completes (fun _ => 0)
    (show ∀ op ∈ callsAround, Faultless op by simp [callsAround, Faultless])
  exact (reported_once (fun _ => 0) oneContext _ none callsAround hcompletes).1

end Ebabf
