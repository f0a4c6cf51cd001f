import Ebabf.Bootstrap.Main

/-!
# How a run ends

A run sweeps from the first sweep on without leaving one out, starts none once it has been told to
stop, and on the way out closes the collectors that had started, whatever it is that ends it.
-/

namespace Ebabf

open Py (Str str Exc Fault Proc Ran)

namespace AgentRunner

variable {σ : Type} {runner started : AgentRunner} {store : Store σ} {env : RunEnv}

theorem trace_start (runner : AgentRunner) (store : Store σ) (platform : Str) (s : σ) :
    ∀ action ∈ (runner.start store platform s).trace,
      ∃ answer, action = .downtimeChecked answer := by
  unfold start
  split_ifs
  · simp
  · cases hall : startAll runner.collectors with
    | error e => simp
    | ok answer =>
      intro action haction
      exact ⟨_, List.mem_singleton.mp haction⟩

/-- The calls of `close`. -/
def closes (collectors : List Collector) : List Action :=
  collectors.map fun c => .collectorClosed c.name

theorem closeAll_eq (collectors : List Collector) (s : σ) :
    closeAll collectors s = ⟨.ok (), closes collectors, s⟩ := by
  induction collectors with
  | nil => rfl
  | cons c collectors ih =>
    rw [closeAll, Proc.bind_of_ok rfl]
    simp only [Proc.emit_apply, ih, closes, List.map_cons, List.singleton_append]

/-- What is left to do once the loop is left, if it is. -/
def closesAfter (collectors : List Collector) : Except Exc Progress → List Action
  | .ok .running => []
  | .ok .stopped | .error _ => closes collectors

theorem closesAfter_of_ended (collectors : List Collector) {r : Except Exc Progress}
    (h : r ≠ .ok .running) : closesAfter collectors r = closes collectors := by
  cases r with
  | error e => rfl
  | ok progress =>
    cases progress with
    | running => exact absurd rfl h
    | stopped => rfl

theorem closed_of_mem_closesAfter {collectors : List Collector} {r : Except Exc Progress}
    {action : Action} (h : action ∈ closesAfter collectors r) :
    ∃ name, action = .collectorClosed name := by
  by_cases hgoing : r = .ok .running
  · rw [hgoing] at h
    cases h
  · rw [closesAfter_of_ended collectors hgoing] at h
    obtain ⟨c, -, rfl⟩ := List.mem_map.mp h
    exact ⟨c.name, rfl⟩

theorem runForever_of_start_error {n : ℕ} {s : σ} {e : Exc}
    (h : (runner.start store env.platform s).outcome = .error e) :
    runner.runForever store env n s = ⟨.error e, (runner.start store env.platform s).trace,
      (runner.start store env.platform s).state⟩ := by
  unfold runForever
  exact Proc.bind_of_error h

theorem runForever_of_start {n : ℕ} {s : σ}
    (h : (runner.start store env.platform s).outcome = .ok started) :
    let opened := runner.start store env.platform s
    let looped := started.loop store env n 0 opened.state
    runner.runForever store env n s = ⟨looped.outcome,
      opened.trace ++ (looped.trace ++ closesAfter started.collectors looped.outcome),
      looped.state⟩ := by
  intro opened looped
  have hclose : ∀ r : Except Exc Progress, (do
      closeAll started.collectors
      Proc.lift r : Proc Action σ Progress) looped.state =
      ⟨r, closes started.collectors, looped.state⟩ := by
    intro r
    rw [Proc.bind_of_ok (by rw [closeAll_eq]), closeAll_eq]
    simp
  unfold runForever
  rw [Proc.bind_of_ok h, Proc.bind_of_ok rfl]
  simp only [Proc.attempt_apply, opened, looped] at hclose ⊢
  cases (started.loop store env n 0 (runner.start store env.platform s).state).outcome with
  | error e =>
    dsimp only
    rw [hclose (.error e)]
    rfl
  | ok progress =>
    cases progress with
    | running => rfl
    | stopped =>
      have hreturn : (pure Progress.stopped : Proc Action σ Progress) =
        Proc.lift (.ok .stopped) := rfl
      dsimp only
      rw [hreturn, hclose (.ok .stopped)]
      rfl

/-- The calls a sweep makes. -/
def Working : Action → Prop
  | .switchRead _ | .enforceInvoked _ _ | .append _ _ => True
  | .downtimeChecked _ | .sweepStarted _ | .collectorClosed _ => False

section Emits

variable {P : Action → Prop}

theorem emits_handle {o : Observation}
    (hprocess : ∀ action ∈ (runner.process o ()).trace, P action)
    (happend : ∀ result final answer, (runner.process o ()).outcome = .ok (result, final) →
      P (.append final answer)) : Proc.Emits P (runner.handle store o) := by
  intro s action haction
  cases houtcome : (runner.process o ()).outcome with
  | error e =>
    unfold handle at haction
    rw [Proc.bind_of_error (s := s) houtcome] at haction
    exact hprocess action haction
  | ok answer =>
    rw [handle_of_ok store houtcome s] at haction
    rcases List.mem_append.mp haction with hengines | hrecord
    · exact hprocess action hengines
    · rw [List.mem_singleton.mp hrecord]
      exact happend _ _ _ houtcome

theorem emits_handleAll {os : List Observation}
    (h : ∀ o ∈ os, Proc.Emits P (runner.handle store o)) (result : SweepResult) :
    Proc.Emits P (runner.handleAll store os result) := by
  induction os generalizing result with
  | nil => exact Proc.emits_pure result
  | cons o os ih =>
    rw [List.forall_mem_cons] at h
    exact h.1.bind fun _ => ih h.2 _

theorem emits_sweepCollectors {sweep : ℕ} {collectors : List Collector}
    (h : ∀ c ∈ collectors, ∀ o ∈ (c.collect sweep).observations,
      Proc.Emits P (runner.handle store o)) (result : SweepResult) :
    Proc.Emits P (runner.sweepCollectors store sweep collectors result) := by
  induction collectors generalizing result with
  | nil => exact Proc.emits_pure result
  | cons c collectors ih =>
    rw [List.forall_mem_cons] at h
    rw [sweepCollectors]
    cases hlist : (c.collect sweep).list with
    | error fault => exact (Proc.emits_lift _).bind fun _ => ih h.2 _
    | ok events =>
      have hevents : events = (c.collect sweep).observations := by
        unfold Collected.list at hlist
        split at hlist
        · cases hlist
        · exact (Except.ok.inj hlist).symm
      rw [hevents]
      exact (emits_handleAll h.1 result).bind fun _ => ih h.2 _

theorem emits_loop (hstarted : ∀ sweep, P (.sweepStarted sweep))
    (h : ∀ sweep, Proc.Emits P (runner.sweepOnce store sweep)) (n sweep : ℕ) :
    Proc.Emits P (runner.loop store env n sweep) := by
  induction n generalizing sweep with
  | zero => exact Proc.emits_pure _
  | succ n ih =>
    rw [loop]
    split
    · exact Proc.emits_pure _
    · exact (Proc.emits_emit (hstarted sweep)).bind fun _ =>
        (h sweep).bind fun _ => (Proc.emits_lift _).bind fun _ => ih _

theorem emits_runForever (hown : ∀ action, ¬Working action → P action)
    (h : ∀ started s, (runner.start store env.platform s).outcome = .ok started →
      ∀ sweep, Proc.Emits P (started.sweepOnce store sweep)) (n : ℕ) :
    Proc.Emits P (runner.runForever store env n) := by
  intro s action haction
  have hstart : ∀ action ∈ (runner.start store env.platform s).trace, P action := by
    intro action haction
    obtain ⟨answer, rfl⟩ := runner.trace_start store env.platform s action haction
    exact hown _ id
  cases houtcome : (runner.start store env.platform s).outcome with
  | error e =>
    rw [runForever_of_start_error houtcome] at haction
    exact hstart action haction
  | ok started =>
    rw [runForever_of_start houtcome] at haction
    rcases List.mem_append.mp haction with hopening | hrest
    · exact hstart action hopening
    rcases List.mem_append.mp hrest with hloop | hclosing
    · exact emits_loop (fun _ => hown _ id) (h started s houtcome) n 0 _ action hloop
    · obtain ⟨name, rfl⟩ := closed_of_mem_closesAfter hclosing
      exact hown _ id

end Emits

theorem working_of_sweepOnce (runner : AgentRunner) (store : Store σ) (sweep : ℕ) :
    Proc.Emits Working (runner.sweepOnce store sweep) := by
  refine emits_sweepCollectors (fun c _ o _ => emits_handle ?_ fun _ _ _ _ => trivial) {}
  intro action haction
  rcases runner.process_trace o action haction with ⟨engaged, rfl⟩ | ⟨outcome, answer, rfl⟩
  · trivial
  · trivial

/-- One turn of the loop: it stops, or it starts a sweep, after which it raises or goes on. -/
theorem loop_succ (runner : AgentRunner) (store : Store σ) (env : RunEnv) (n sweep : ℕ) (s : σ) :
    (env.stopSet (2 * sweep) = true ∧
      runner.loop store env (n + 1) sweep s = ⟨.ok .stopped, [], s⟩) ∨
    (env.stopSet (2 * sweep) = false ∧ ∃ calls s', (∀ action ∈ calls, Working action) ∧
      ((∃ e, runner.loop store env (n + 1) sweep s =
          ⟨.error e, .sweepStarted sweep :: calls, s'⟩) ∨
        runner.loop store env (n + 1) sweep s =
          ⟨(runner.loop store env n (sweep + 1) s').outcome,
            .sweepStarted sweep :: (calls ++ (runner.loop store env n (sweep + 1) s').trace),
            (runner.loop store env n (sweep + 1) s').state⟩)) := by
  have hcalls := working_of_sweepOnce runner store sweep s
  rw [loop]
  cases hstop : env.stopSet (2 * sweep) with
  | true => exact .inl ⟨rfl, by rw [if_pos rfl]; rfl⟩
  | false =>
    refine .inr ⟨rfl, _, (runner.sweepOnce store sweep s).state, hcalls, ?_⟩
    rw [if_neg Bool.false_ne_true, Proc.bind_of_ok rfl]
    simp only [Proc.emit_apply]
    cases hsweep : (runner.sweepOnce store sweep s).outcome with
    | error e =>
      rw [Proc.bind_of_error hsweep]
      exact .inl ⟨e, rfl⟩
    | ok result =>
      rw [Proc.bind_of_ok hsweep]
      cases hwait : wait env.interval (env.stopSet (2 * sweep + 1)) with
      | error e =>
        refine .inl ⟨e, ?_⟩
        simp
      | ok _ => exact .inr rfl

def sweepNumber : Action → Option ℕ
  | .sweepStarted sweep => some sweep
  | _ => none

def closedName : Action → Option Str
  | .collectorClosed name => some name
  | _ => none

theorem quiet_of_working {β : Type} {f : Action → Option β} {calls : List Action}
    (hf : ∀ action, Working action → f action = none) (h : ∀ action ∈ calls, Working action) :
    calls.filterMap f = [] :=
  List.filterMap_eq_nil_iff.mpr fun action haction => hf action (h action haction)

theorem sweepNumber_of_working (action : Action) (h : Working action) :
    sweepNumber action = none := by
  cases action with
  | sweepStarted sweep => exact h.elim
  | switchRead | enforceInvoked | append | downtimeChecked | collectorClosed => rfl

theorem closedName_of_working (action : Action) (h : Working action) :
    closedName action = none := by
  cases action with
  | collectorClosed name => exact h.elim
  | switchRead | enforceInvoked | append | downtimeChecked | sweepStarted => rfl

/-- The loop has started the `k` sweeps from `sweep` on, none of them once it was told to stop. -/
structure Sweeps (env : RunEnv) (n sweep k : ℕ) (ran : Ran Action σ Progress) : Prop where
  numbers : ran.trace.filterMap sweepNumber = List.range' sweep k
  closed : ran.trace.filterMap closedName = []
  before_stop : ∀ j < k, env.stopSet (2 * (sweep + j)) = false
  le : k ≤ n
  running : ran.outcome = .ok .running → k = n
  stopped : ran.outcome = .ok .stopped → env.stopSet (2 * (sweep + k)) = true

theorem sweeps_loop (runner : AgentRunner) (store : Store σ) (env : RunEnv) (n sweep : ℕ) (s : σ) :
    ∃ k, Sweeps env n sweep k (runner.loop store env n sweep s) := by
  induction n generalizing sweep s with
  | zero =>
    exact ⟨0, rfl, rfl, fun j hj => absurd hj (Nat.not_lt_zero j), le_rfl, fun _ => rfl, nofun⟩
  | succ n ih =>
    rcases loop_succ runner store env n sweep s with
      ⟨hstop, hloop⟩ | ⟨hstop, calls, s', hcalls, ⟨e, hloop⟩ | hloop⟩
    · rw [hloop]
      exact ⟨0, rfl, rfl, fun j hj => absurd hj (Nat.not_lt_zero j), Nat.zero_le _, nofun,
        fun _ => hstop⟩
    · rw [hloop]
      refine ⟨1, ?_, ?_, ?_, Nat.le_add_left 1 n, nofun, nofun⟩
      · rw [List.filterMap_cons, quiet_of_working sweepNumber_of_working hcalls]
        rfl
      · rw [List.filterMap_cons, quiet_of_working closedName_of_working hcalls]
        rfl
      · intro j hj
        rw [Nat.lt_one_iff.mp hj]
        exact hstop
    · obtain ⟨k, hrest⟩ := ih (sweep + 1) s'
      rw [hloop]
      refine ⟨k + 1, ?_, ?_, ?_, Nat.succ_le_succ hrest.le, ?_, ?_⟩
      · rw [List.filterMap_cons, List.filterMap_append,
          quiet_of_working sweepNumber_of_working hcalls, List.nil_append, hrest.numbers]
        rfl
      · rw [List.filterMap_cons, List.filterMap_append,
          quiet_of_working closedName_of_working hcalls, List.nil_append, hrest.closed]
        rfl
      · intro j hj
        cases j with
        | zero => exact hstop
        | succ j =>
          have hbefore := hrest.before_stop j (by omega)
          rwa [Nat.add_assoc, Nat.add_comm 1 j] at hbefore
      · intro hrunning
        rw [hrest.running hrunning]
      · intro hstopped
        have hlast := hrest.stopped hstopped
        rwa [Nat.add_assoc, Nat.add_comm 1 k] at hlast

/-- Every exception of a `start` that is to be made has a text. -/
def Starts (runner : AgentRunner) : Prop :=
  runner.started = true ∨ ∀ c ∈ runner.collectors, ∀ fault, c.start = .error fault →
    fault.text ≠ none

theorem startAll_of_texts {collectors : List Collector}
    (h : ∀ c ∈ collectors, ∀ fault, c.start = .error fault → fault.text ≠ none) :
    ∃ failed, startAll collectors = .ok (collectors.filter fun c => c.start.isOk, failed) ∧
      (failed = [] → collectors.filter (fun c => c.start.isOk) = collectors) := by
  induction collectors with
  | nil => exact ⟨[], rfl, fun _ => rfl⟩
  | cons c collectors ih =>
    rw [List.forall_mem_cons] at h
    obtain ⟨failed, hrest, hall⟩ := ih h.2
    rw [startAll]
    cases hstart : c.start with
    | ok _ =>
      refine ⟨failed, ?_, fun hfailed => ?_⟩
      · rw [List.filter_cons_of_pos (by rw [hstart]; rfl)]
        exact Py.bind_eq_ok.mpr ⟨_, hrest, rfl⟩
      · rw [List.filter_cons_of_pos (by rw [hstart]; rfl), hall hfailed]
    | error fault =>
      obtain ⟨description, hdescription⟩ := fault.describe_ok_iff.mpr (h.1 fault hstart)
      refine ⟨(c.name, description) :: failed, ?_, fun h => absurd h (List.cons_ne_nil _ _)⟩
      rw [List.filter_cons_of_neg (by rw [hstart]; exact Bool.false_ne_true)]
      exact Py.bind_eq_ok.mpr ⟨_, hdescription, Py.bind_eq_ok.mpr ⟨_, hrest, rfl⟩⟩

theorem texts_of_startAll {collectors : List Collector} {answer : List Collector × List (Str × Str)}
    (h : startAll collectors = .ok answer) :
    ∀ c ∈ collectors, ∀ fault, c.start = .error fault → fault.text ≠ none := by
  induction collectors generalizing answer with
  | nil => simp
  | cons c collectors ih =>
    rw [startAll] at h
    rw [List.forall_mem_cons]
    split at h
    · rename_i hstart
      obtain ⟨answer', hrest, -⟩ := Py.bind_eq_ok.mp h
      refine ⟨fun fault hfault => ?_, ih hrest⟩
      rw [hstart] at hfault
      cases hfault
    · rename_i fault hstart
      obtain ⟨description, hdescription, h⟩ := Py.bind_eq_ok.mp h
      obtain ⟨answer', hrest, -⟩ := Py.bind_eq_ok.mp h
      refine ⟨fun fault' hfault => ?_, ih hrest⟩
      rw [hstart] at hfault
      cases hfault
      exact fault.describe_ok_iff.mp ⟨description, hdescription⟩

/-- A runner starts exactly when it can describe what its collectors raise, and then runs those
that did not. -/
theorem start_ok_iff (runner : AgentRunner) (store : Store σ) (platform : Str) (s : σ) :
    ((∃ started, (runner.start store platform s).outcome = .ok started) ↔ runner.Starts) ∧
      ∀ started, (runner.start store platform s).outcome = .ok started →
        started.collectors = runner.running := by
  unfold start running Starts
  by_cases hstarted : runner.started = true
  · simp [hstarted]
  · simp only [hstarted, if_false, false_or, Bool.false_eq_true]
    cases hall : startAll runner.collectors with
    | error e =>
      refine ⟨⟨?_, fun htexts => ?_⟩, ?_⟩
      · rintro ⟨started, h⟩
        rw [Proc.lift_error_bind] at h
        cases h
      · obtain ⟨failed, hok, -⟩ := startAll_of_texts htexts
        rw [hall] at hok
        cases hok
      · intro started h
        rw [Proc.lift_error_bind] at h
        cases h
    | ok answer =>
      have htexts := texts_of_startAll hall
      obtain ⟨failed, hok, hnone⟩ := startAll_of_texts htexts
      rw [hall] at hok
      cases hok
      refine ⟨⟨fun _ => htexts, fun _ => ⟨_, rfl⟩⟩, fun started h => ?_⟩
      have hran := Except.ok.inj h
      by_cases hfailed : failed = []
      · rw [if_pos hfailed] at hran
        rw [← hran]
        exact (hnone hfailed).symm
      · rw [if_neg hfailed] at hran
        rw [← hran]

/-- How a run goes that is followed for `n` sweeps. -/
structure Ends (runner : AgentRunner) (env : RunEnv) (n : ℕ) (ran : Ran Action σ Progress) :
    Prop where
  /-- The sweeps are numbered from zero on; each of them was started before `stop` was called, and
  if the run has stopped, the next one would not have been. -/
  sweeps : ∃ k ≤ n, ran.trace.filterMap sweepNumber = List.range k ∧
    (∀ j < k, env.stopSet (2 * j) = false) ∧
    (ran.outcome = .ok .stopped → env.stopSet (2 * k) = true)
  /-- A call of `stop` ends it. -/
  heeds_stop : ∀ t ∈ env.stop, t + 2 ≤ 2 * n → ran.outcome ≠ .ok .running
  /-- Nothing is closed as long as it goes on. -/
  keeps_open : ran.outcome = .ok .running → ran.trace.filterMap closedName = []
  /-- At its end each collector that had started is closed, once and after all else. -/
  closes_all : runner.Starts → ran.outcome ≠ .ok .running → ∃ before,
    ran.trace = before ++ closes runner.running ∧ before.filterMap closedName = []
  /-- If `start` raises, the collectors it had started stay open. -/
  leaves_open : ¬runner.Starts → (∃ e, ran.outcome = .error e) ∧
    ran.trace.filterMap closedName = []

theorem start_quiet {β : Type} (runner : AgentRunner) (store : Store σ) (platform : Str) (s : σ)
    {f : Action → Option β} (hf : ∀ answer, f (.downtimeChecked answer) = none) :
    (runner.start store platform s).trace.filterMap f = [] := by
  refine List.filterMap_eq_nil_iff.mpr fun action haction => ?_
  obtain ⟨answer, rfl⟩ := runner.trace_start store platform s action haction
  exact hf answer

theorem sweepNumber_closesAfter (collectors : List Collector) (r : Except Exc Progress) :
    (closesAfter collectors r).filterMap sweepNumber = [] := by
  refine List.filterMap_eq_nil_iff.mpr fun action haction => ?_
  obtain ⟨name, rfl⟩ := closed_of_mem_closesAfter haction
  rfl

/-- Every run, on any store, sweeps in order until it is told to stop or something raises, is ended
by `stop`, and closes what had started at its end and no sooner. Only an exception without a text
from a collector's `start` keeps it from closing the others. -/
theorem runForever_ends (runner : AgentRunner) (store : Store σ) (env : RunEnv) (n : ℕ) (s : σ) :
    runner.Ends env n (runner.runForever store env n s) := by
  obtain ⟨hstarts, hrunning⟩ := runner.start_ok_iff store env.platform s
  cases hstart : (runner.start store env.platform s).outcome with
  | error e =>
    have hnot : ¬runner.Starts := by
      intro h
      obtain ⟨started, hok⟩ := hstarts.mpr h
      rw [hstart] at hok
      cases hok
    rw [runForever_of_start_error hstart]
    constructor
    · refine ⟨0, Nat.zero_le n, ?_, fun j hj => absurd hj (Nat.not_lt_zero j), nofun⟩
      exact runner.start_quiet store env.platform s fun _ => rfl
    · exact fun _ _ _ => nofun
    · exact nofun
    · exact fun h => absurd h hnot
    · exact fun _ => ⟨⟨e, rfl⟩, runner.start_quiet store env.platform s fun _ => rfl⟩
  | ok started =>
    have hyes : runner.Starts := hstarts.mp ⟨started, hstart⟩
    obtain ⟨k, hsweeps⟩ :=
      started.sweeps_loop store env n 0 (runner.start store env.platform s).state
    rw [runForever_of_start hstart]
    constructor
    · refine ⟨k, hsweeps.le, ?_, ?_, ?_⟩
      · dsimp only
        rw [List.filterMap_append, List.filterMap_append, sweepNumber_closesAfter, hsweeps.numbers,
          runner.start_quiet store env.platform s fun _ => rfl, List.append_nil, List.nil_append,
          List.range_eq_range']
      · intro j hj
        have hbefore := hsweeps.before_stop j hj
        rwa [Nat.zero_add] at hbefore
      · intro hstopped
        have hlast := hsweeps.stopped hstopped
        rwa [Nat.zero_add] at hlast
    · -- the flag is looked at `n` times, the last time at `2 * (n - 1)`
      intro t ht hlong hgoing
      have hfollowed := hsweeps.running hgoing
      have hlast := hsweeps.before_stop (n - 1) (by omega)
      rw [RunEnv.stopSet, ht, Option.any_some, decide_eq_false_iff_not] at hlast
      omega
    · intro hgoing
      dsimp only at hgoing ⊢
      rw [hgoing, List.filterMap_append, List.filterMap_append, hsweeps.closed,
        runner.start_quiet store env.platform s fun _ => rfl]
      rfl
    · intro _ hended
      refine ⟨(runner.start store env.platform s).trace ++
        (started.loop store env n 0 (runner.start store env.platform s).state).trace, ?_, ?_⟩
      · dsimp only at hended ⊢
        rw [List.append_assoc, ← hrunning started hstart, closesAfter_of_ended _ hended]
      · rw [List.filterMap_append, hsweeps.closed,
          runner.start_quiet store env.platform s fun _ => rfl]
        rfl
    · exact fun h => absurd hyes h

end AgentRunner
end Ebabf
