import Ebabf.Collectors.Registry
import Ebabf.Runner.Run

/-!
# The coverage report

The report is built with the collectors and rewritten whenever some of them fail to start. However
often a runner is started and closed, each wanted name is on one of its two lists, and the active
ones are the collectors that are swept.
-/

namespace Ebabf

open Py (Str str Exc Fault Proc)
open Transition (Visits)

namespace AgentRunner

variable {σ : Type}

/-- The same runner as its collectors' `start` methods come to do something else. -/
def facing (outcomes : Str → Except Fault Unit) (runner : AgentRunner) : AgentRunner :=
  { runner with collectors := runner.collectors.map fun c => { c with start := outcomes c.name } }

/-- What is done with a runner. What `start` meets is by the names of the collectors. -/
inductive LifecycleOp
  | start (outcomes : Str → Except Fault Unit)
  | sweep (number : ℕ)
  | close

/-- A `start` that raises has assigned nothing. -/
def LifecycleOp.step (store : Store σ) (platform : Str) :
    LifecycleOp → AgentRunner × σ → AgentRunner × σ
  | .start outcomes, (runner, s) =>
    let ran := (runner.facing outcomes).start store platform s
    match ran.outcome with
    | .ok started => (started, ran.state)
    | .error _ => (runner, ran.state)
  | .sweep number, (runner, s) => (runner, (runner.sweepOnce store number s).state)
  | .close, (runner, s) =>
    ({ runner with started := false }, (closeAll runner.collectors s : Py.Ran Action σ Unit).state)

/-- The report accounts for the wanted names: each is on one list, once, and the active ones are
swept in their order. -/
structure AccountsFor (wants : Str → Prop) (report : CoverageReport) (swept : List Str) : Prop where
  apart : report.active.Disjoint (report.unavailable.map Prod.fst)
  once : (report.active ++ report.unavailable.map Prod.fst).Nodup
  total : ∀ name, name ∈ report.active ++ report.unavailable.map Prod.fst ↔ wants name
  active : report.active = swept

/-- The runner has a report, and it accounts for the wanted names. -/
def Accounted (wants : Str → Prop) (runner : AgentRunner) : Prop :=
  ∃ report, runner.coverage = some report ∧
    AccountsFor wants report (runner.collectors.map Collector.name)

theorem accountsFor_of_perm {wants : Str → Prop} {report : CoverageReport} {names swept : List Str}
    (hperm : (report.active ++ report.unavailable.map Prod.fst).Perm names) (hnodup : names.Nodup)
    (hwants : ∀ name, name ∈ names ↔ wants name) (hactive : report.active = swept) :
    AccountsFor wants report swept := by
  have honce : (report.active ++ report.unavailable.map Prod.fst).Nodup :=
    hperm.nodup_iff.mpr hnodup
  constructor
  · exact List.disjoint_of_nodup_append honce
  · exact honce
  · intro name
    exact hperm.mem_iff.trans (hwants name)
  · exact hactive

theorem perm_of_startAll {collectors running : List Collector} {failed : List (Str × Str)}
    (h : startAll collectors = .ok (running, failed)) :
    (running.map Collector.name ++ failed.map Prod.fst).Perm (collectors.map Collector.name) := by
  induction collectors generalizing running failed with
  | nil =>
    cases h
    exact List.Perm.nil
  | cons collector rest ih =>
    rw [startAll] at h
    split at h
    · obtain ⟨⟨running', failed'⟩, hrest, h⟩ := Py.bind_eq_ok.mp h
      cases h
      exact (ih hrest).cons collector.name
    · obtain ⟨description, -, h⟩ := Py.bind_eq_ok.mp h
      obtain ⟨⟨running', failed'⟩, hrest, h⟩ := Py.bind_eq_ok.mp h
      cases h
      rw [List.map_cons]
      exact List.perm_middle.trans ((ih hrest).cons collector.name)

theorem filter_of_startAll {collectors running : List Collector} {failed : List (Str × Str)}
    (h : startAll collectors = .ok (running, failed))
    (hnodup : (collectors.map Collector.name).Nodup) :
    (collectors.map Collector.name).filter (fun name => name ∉ failed.map Prod.fst) =
      running.map Collector.name := by
  induction collectors generalizing running failed with
  | nil =>
    cases h
    rfl
  | cons collector rest ih =>
    have hnames : (collector :: rest).map Collector.name =
      collector.name :: rest.map Collector.name := rfl
    rw [hnames, List.nodup_cons] at hnodup
    rw [startAll] at h
    split at h
    · obtain ⟨⟨running', failed'⟩, hrest, h⟩ := Py.bind_eq_ok.mp h
      cases h
      have hruns : collector.name ∉ failed.map Prod.fst := by
        intro hmem
        exact hnodup.1 ((perm_of_startAll hrest).mem_iff.mp (List.mem_append_right _ hmem))
      rw [hnames, List.filter_cons_of_pos (by exact decide_eq_true hruns), ih hrest hnodup.2,
        List.map_cons]
    · obtain ⟨description, -, h⟩ := Py.bind_eq_ok.mp h
      obtain ⟨⟨running', failed'⟩, hrest, h⟩ := Py.bind_eq_ok.mp h
      cases h
      have hothers : (rest.map Collector.name).filter
          (fun name => name ∉ (((collector.name, description) :: failed').map Prod.fst)) =
          (rest.map Collector.name).filter fun name => name ∉ failed'.map Prod.fst := by
        apply List.filter_congr
        intro name hname
        have hne : name ≠ collector.name := by
          intro heq
          exact hnodup.1 (heq ▸ hname)
        simp [hne]
      rw [hnames, List.filter_cons_of_neg (by simp), hothers, ih hrest hnodup.2]

/-- A start that returns leaves the runner alone, or moves the failed collectors from one list of
the report to the other. -/
theorem start_cases {runner started : AgentRunner} {store : Store σ} {platform : Str} {s : σ}
    (h : (runner.start store platform s).outcome = .ok started) :
    started.collectors = runner.collectors ∧ started.coverage = runner.coverage ∨
      ∃ failed, startAll runner.collectors = .ok (started.collectors, failed) ∧
        started.coverage = some (withFailures platform runner.coverage failed) := by
  unfold start at h
  split_ifs at h
  · cases h
    exact .inl ⟨rfl, rfl⟩
  · cases hall : startAll runner.collectors with
    | error e =>
      rw [hall, Proc.lift_error_bind] at h
      cases h
    | ok answer =>
      obtain ⟨running, failed⟩ := answer
      rw [hall, Proc.lift_ok_bind] at h
      have hstarted := Except.ok.inj h
      by_cases hfailed : failed = []
      · rw [if_pos hfailed] at hstarted
        rw [← hstarted]
        exact .inl ⟨rfl, rfl⟩
      · rw [if_neg hfailed] at hstarted
        rw [← hstarted]
        exact .inr ⟨failed, rfl, rfl⟩

/-- The report after a start accounts for the same names as the one before. -/
theorem accountsFor_withFailures {wants : Str → Prop} {report : CoverageReport}
    {collectors running : List Collector} {failed : List (Str × Str)} {platform : Str}
    (haccounts : AccountsFor wants report (collectors.map Collector.name))
    (h : startAll collectors = .ok (running, failed)) :
    AccountsFor wants (withFailures platform (some report) failed)
      (running.map Collector.name) := by
  have hactive := haccounts.active
  have hnodup : (collectors.map Collector.name).Nodup := by
    rw [← hactive]
    exact haccounts.once.of_append_left
  have hrest : (withFailures platform (some report) failed).active =
      running.map Collector.name := by
    rw [← filter_of_startAll h hnodup, ← hactive]
    rfl
  have hgap : (withFailures platform (some report) failed).unavailable =
      report.unavailable ++ failed := rfl
  have hperm : ((withFailures platform (some report) failed).active ++
      (withFailures platform (some report) failed).unavailable.map Prod.fst).Perm
      (report.active ++ report.unavailable.map Prod.fst) := by
    rw [hrest, hgap, List.map_append, hactive]
    have hswap : (running.map Collector.name ++ (report.unavailable.map Prod.fst ++
        failed.map Prod.fst)).Perm (running.map Collector.name ++ (failed.map Prod.fst ++
          report.unavailable.map Prod.fst)) := List.perm_append_comm.append_left _
    refine hswap.trans ?_
    rw [← List.append_assoc]
    exact (perm_of_startAll h).append_right _
  exact accountsFor_of_perm hperm haccounts.once haccounts.total hrest

theorem accounted_step (store : Store σ) (platform : Str) {wants : Str → Prop} (op : LifecycleOp)
    (run : AgentRunner × σ) (h : run.1.Accounted wants) :
    (op.step store platform run).1.Accounted wants := by
  obtain ⟨runner, s⟩ := run
  obtain ⟨report, hreport, haccounts⟩ := h
  cases op with
  | sweep number => exact ⟨report, hreport, haccounts⟩
  | close => exact ⟨report, hreport, haccounts⟩
  | start outcomes =>
    have hnames : (runner.facing outcomes).collectors.map Collector.name =
        runner.collectors.map Collector.name := by
      simp [facing, Function.comp_def]
    unfold LifecycleOp.step
    cases hran : ((runner.facing outcomes).start store platform s).outcome with
    | error e =>
      simp only [hran]
      exact ⟨report, hreport, haccounts⟩
    | ok started =>
      simp only [hran]
      rcases start_cases hran with ⟨hcollectors, hcoverage⟩ | ⟨failed, hall, hcoverage⟩
      · refine ⟨report, hcoverage.trans hreport, ?_⟩
        rw [hcollectors, hnames]
        exact haccounts
      · have hbefore : (runner.facing outcomes).coverage = some report := hreport
        rw [hbefore] at hcoverage
        rw [← hnames] at haccounts
        exact ⟨_, hcoverage, accountsFor_withFailures haccounts hall⟩

/-- A runner on what `build_supported` returned has, in every state of its life, a report on which
each wanted name stands once, either as active or as unavailable, and whose active names are those
of the collectors it sweeps, in their order. -/
theorem accounted_always {registry : CollectorRegistry} {context : CollectorContext}
    {platform : Str} {only : Option (List Str)} {collectors : List Collector}
    {report : CoverageReport}
    (hbuilt : registry.buildSupported context platform only = .ok (collectors, report))
    (decision : DecisionEngine) (enforcement : EnforcementEngine) (store : Store σ) (s : σ)
    (ops : List LifecycleOp) :
    Visits (LifecycleOp.step store platform)
      (fun run => run.1.Accounted (registry.Wants only)) ops
      ({ collectors, decision, enforcement, coverage := some report }, s) := by
  apply Transition.visits_of_invariant
  · intro op run hrun
    exact accounted_step store platform op run hrun
  · obtain ⟨hactive, hperm⟩ := CollectorRegistry.report_of_buildSupported hbuilt
    exact ⟨report, rfl, accountsFor_of_perm hperm (registry.nodup_wanted only)
      (fun name => CollectorRegistry.mem_wanted) hactive⟩

/-- A class whose collectors yield nothing. -/
def quietType (ident : ℕ) (name : Str) (isSupported : Except Fault Bool) : CollectorType where
  ident
  name
  isSupported
  supportReason := .ok none
  construct _ := .ok { name, collect := fun _ => ⟨[], none⟩ }
  named := by
    intro context collector h
    cases h
    rfl

/-- Two classes, one of which cannot run here. -/
def twoTypes : CollectorRegistry where
  types := ⟨[(str "file", quietType 0 (str "file") (.ok true)),
    (str "network", quietType 1 (str "network") (.ok false))], by decide⟩
  keyed := by
    intro entry hentry
    rcases List.mem_cons.mp hentry with rfl | hentry
    · rfl
    · rw [List.mem_singleton.mp hentry]
      rfl

/-- The one that can run fails to start, the runner is closed, and it is started again. -/
theorem accounted_always_two :
    ∃ collectors report, twoTypes.buildSupported oneContext (str "Linux") none =
        .ok (collectors, report) ∧
      report.active = [str "file"] ∧
      Visits (LifecycleOp.step ⟨fun event s => (.ok event, s), fun s => (.ok (), s)⟩ (str "Linux"))
        (fun run => run.1.Accounted (twoTypes.Wants none))
        [.start fun _ => .error ⟨.other (str "OSError"), some (str "refused")⟩, .close,
          .start fun _ => .ok ()]
        ({ rootRunner with collectors, coverage := some report }, ()) := by
  refine ⟨_, _, rfl, rfl, ?_⟩
  exact @accounted_always Unit twoTypes oneContext (str "Linux") none _ _ rfl rootRunner.decision
    rootRunner.enforcement _ () _

end AgentRunner
end Ebabf
