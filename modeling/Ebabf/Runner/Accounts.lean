import Ebabf.Runner.Shutdown
import Ebabf.Storage.Ledger

/-!
# What a run says it did

Each sweep logs four numbers. They add up to what the trace of the run shows, and on an event store
what they say was stored is in its table or in its drop log.
-/

namespace Ebabf

open Py (Str str Exc Fault Proc Ran)
open Transition (Path)

/-- An append that returned. -/
def isStored : Action → Bool
  | .append _ (.ok _) => true
  | _ => false

/-- An append that raised. -/
def isRefused : Action → Bool
  | .append _ (.error _) => true
  | _ => false

/-- A call of `_enforce` that says it acted. -/
def isEnforced : Action → Bool
  | .enforceInvoked _ (.ok result) => result.enforced
  | _ => false

/-- An append that a closed gate stopped. -/
def isHalted : Action → Bool
  | .append _ (.error e) => e.type = storageHalted
  | _ => false

/-- The numbers grow by what the trace shows. -/
structure SweepResult.Adds (before : SweepResult) (trace : List Action) (after : SweepResult) :
    Prop where
  collected : after.collected = before.collected + trace.countP AgentRunner.isAppend
  stored : after.stored = before.stored + trace.countP isStored
  enforced : after.enforced = before.enforced + trace.countP isEnforced

namespace SweepResult.Adds

theorem refl (result : SweepResult) : result.Adds [] result := ⟨rfl, rfl, rfl⟩

theorem trans {first second third : SweepResult} {t t' : List Action} (h : first.Adds t second)
    (h' : second.Adds t' third) : first.Adds (t ++ t') third := by
  constructor
  · rw [h'.collected, h.collected, List.countP_append, Nat.add_assoc]
  · rw [h'.stored, h.stored, List.countP_append, Nat.add_assoc]
  · rw [h'.enforced, h.enforced, List.countP_append, Nat.add_assoc]

end SweepResult.Adds

theorem countP_isAppend (trace : List Action) :
    trace.countP AgentRunner.isAppend = trace.countP isStored + trace.countP isRefused := by
  induction trace with
  | nil => rfl
  | cons action trace ih =>
    rw [List.countP_cons, List.countP_cons, List.countP_cons, ih]
    cases action with
    | append event answer =>
      cases answer <;> simp [AgentRunner.isAppend, isStored, isRefused] <;> omega
    | switchRead | enforceInvoked | downtimeChecked | sweepStarted | collectorClosed =>
      simp [AgentRunner.isAppend, isStored, isRefused]

theorem EnforcementEngine.countP_isEnforced {engine : EnforcementEngine} {around : Surroundings}
    {outcome : DecisionOutcome} {result : EnforcementResult}
    (h : (engine.enforce around outcome ()).outcome = .ok result) :
    (engine.enforce around outcome ()).trace.countP isEnforced = result.enforced.toNat := by
  by_cases hpermits : engine.Permits outcome
  · cases hengaged : engine.killSwitch.isEngaged around.recursionLimit around.view with
    | error e =>
      rw [enforce_of_switch_error hpermits hengaged] at h
      cases h
    | ok engaged =>
      cases engaged with
      | true =>
        rw [enforce_of_engaged hpermits hengaged] at h ⊢
        cases h
        rfl
      | false =>
        rw [enforce_of_released hpermits hengaged] at h ⊢
        cases hhook : around.enforceHook outcome with
        | ok acted =>
          rw [hhook] at h
          cases h
          cases henforced : result.enforced <;> simp [isEnforced, henforced]
        | error fault =>
          rw [hhook, failOpen] at h
          cases hdescribe : fault.describe with
          | error e =>
            rw [hdescribe] at h
            cases h
          | ok description =>
            rw [hdescribe] at h
            cases h
            rfl
  · obtain ⟨reason, detail, henforce⟩ := enforce_of_not_permits around hpermits
    rw [henforce] at h ⊢
    cases h
    rfl

namespace AgentRunner

variable {σ : Type}

theorem countP_process {runner : AgentRunner} {o : Observation} {result : EnforcementResult}
    {final : Event} (h : (runner.process o ()).outcome = .ok (result, final)) :
    (runner.process o ()).trace.countP isEnforced = result.enforced.toNat := by
  obtain ⟨outcome, hdecide⟩ := runner.decision.decide_ok o.around.decideHook o.event
  rw [process_eq hdecide] at h ⊢
  rcases Proc.bind_cases (runner.enforcement.enforce o.around outcome) (fun result => do
      let final ← Proc.lift (result.applyTo outcome.event)
      return (result, final)) () with ⟨e, -, hbind⟩ | ⟨result', hresult', hbind⟩
  · rw [hbind] at h
    cases h
  · rw [hbind] at h ⊢
    dsimp only at h ⊢
    cases hfinal : result'.applyTo outcome.event with
    | error e =>
      rw [hfinal] at h
      cases h
    | ok final' =>
      rw [hfinal] at h
      cases h
      rw [List.countP_append, EnforcementEngine.countP_isEnforced hresult']
      rfl

theorem countP_process_append {p : Action → Bool} (hp : ∀ engaged, p (.switchRead engaged) = false)
    (hp' : ∀ outcome answer, p (.enforceInvoked outcome answer) = false) (runner : AgentRunner)
    (o : Observation) : (runner.process o ()).trace.countP p = 0 := by
  rw [List.countP_eq_zero]
  intro action haction
  rw [Bool.not_eq_true]
  rcases runner.process_trace o action haction with ⟨engaged, rfl⟩ | ⟨outcome, answer, rfl⟩
  · exact hp engaged
  · exact hp' outcome answer

variable {runner : AgentRunner} (store : Store σ)

theorem adds_handle {o : Observation} {s : σ} {stored enforced : Bool}
    (h : (runner.handle store o s).outcome = .ok (stored, enforced)) (result : SweepResult) :
    result.Adds (runner.handle store o s).trace { result with
      collected := result.collected + 1
      stored := result.stored + stored.toNat
      enforced := result.enforced + enforced.toNat } := by
  have hclean : ¬runner.Poisoned o := by
    intro hpoisoned
    obtain ⟨e, he, -⟩ := handle_of_poisoned store hpoisoned s
    rw [he] at h
    cases h
  obtain ⟨enforcement, final, hprocess, -⟩ := process_of_not_poisoned hclean
  rw [handle_of_ok store hprocess s] at h ⊢
  cases h
  have happend := countP_process_append (p := isAppend) (fun _ => rfl) (fun _ _ => rfl) runner o
  have hstored := countP_process_append (p := isStored) (fun _ => rfl) (fun _ _ => rfl) runner o
  constructor
  · rw [List.countP_append, happend]
    rfl
  · rw [List.countP_append, hstored, List.countP_singleton]
    cases (store.append final s).1 <;> rfl
  · rw [List.countP_append, countP_process hprocess]
    rfl

theorem adds_handleAll {os : List Observation} {result result' : SweepResult} {s : σ}
    (h : (runner.handleAll store os result s).outcome = .ok result') :
    result.Adds (runner.handleAll store os result s).trace result' := by
  induction os generalizing result s with
  | nil =>
    cases h
    exact .refl _
  | cons o os ih =>
    rw [handleAll] at h ⊢
    cases hhandle : (runner.handle store o s).outcome with
    | error e =>
      rw [Proc.bind_of_error hhandle] at h
      cases h
    | ok answer =>
      rw [Proc.bind_of_ok hhandle] at h ⊢
      exact (adds_handle store hhandle result).trans (ih h)

theorem adds_sweepCollectors {sweep : ℕ} {collectors : List Collector}
    {result result' : SweepResult} {s : σ}
    (h : (runner.sweepCollectors store sweep collectors result s).outcome = .ok result') :
    result.Adds (runner.sweepCollectors store sweep collectors result s).trace result' := by
  induction collectors generalizing result s with
  | nil =>
    cases h
    exact .refl _
  | cons c collectors ih =>
    rw [sweepCollectors] at h ⊢
    cases hlist : (c.collect sweep).list with
    | error fault =>
      rw [hlist] at h
      dsimp only at h ⊢
      cases hdescribe : fault.describe with
      | error e =>
        rw [hdescribe, Proc.lift_error_bind] at h
        cases h
      | ok description =>
        rw [hdescribe, Proc.lift_ok_bind] at h
        have hrest := ih h
        exact ⟨hrest.collected, hrest.stored, hrest.enforced⟩
    | ok events =>
      rw [hlist] at h
      dsimp only at h ⊢
      cases hevents : (runner.handleAll store events result s).outcome with
      | error e =>
        rw [Proc.bind_of_error hevents] at h
        cases h
      | ok between =>
        rw [Proc.bind_of_ok hevents] at h ⊢
        exact (adds_handleAll store hevents).trans (ih h)

/-- What the loop logs: a result for each sweep that returns. -/
def logged (runner : AgentRunner) (store : Store σ) (env : RunEnv) : ℕ → ℕ → σ → List SweepResult
  | 0, _, _ => []
  | n + 1, sweep, s =>
    if env.stopSet (2 * sweep) then []
    else
      match (runner.sweepOnce store sweep s).outcome with
      | .error _ => []
      | .ok result => result ::
        match wait env.interval (env.stopSet (2 * sweep + 1)) with
        | .error _ => []
        | .ok () => runner.logged store env n (sweep + 1) (runner.sweepOnce store sweep s).state

/-- What `run_forever` logs. -/
def runLog (runner : AgentRunner) (store : Store σ) (env : RunEnv) (n : ℕ) (s : σ) :
    List SweepResult :=
  match (runner.start store env.platform s).outcome with
  | .error _ => []
  | .ok started => started.logged store env n 0 (runner.start store env.platform s).state

/-- The numbers of the log add up to what the trace shows. -/
structure Logs (log : List SweepResult) (trace : List Action) : Prop where
  collected : (log.map SweepResult.collected).sum = trace.countP isAppend
  stored : (log.map SweepResult.stored).sum = trace.countP isStored
  dropped : (log.map SweepResult.dropped).sum = trace.countP isRefused
  enforced : (log.map SweepResult.enforced).sum = trace.countP isEnforced

namespace Logs

theorem nil : Logs [] [] := ⟨rfl, rfl, rfl, rfl⟩

theorem cons {result : SweepResult} {log : List SweepResult} {t t' : List Action}
    (h : SweepResult.Adds {} t result) (hlog : Logs log t') : Logs (result :: log) (t ++ t') := by
  have hcollected : result.collected = t.countP isAppend := h.collected.trans (Nat.zero_add _)
  have hstored : result.stored = t.countP isStored := h.stored.trans (Nat.zero_add _)
  have hdropped : result.dropped = t.countP isRefused := by
    have hsplit := countP_isAppend t
    rw [SweepResult.dropped, hcollected, hstored]
    omega
  constructor
  · rw [List.map_cons, List.sum_cons, hcollected, hlog.collected, List.countP_append]
  · rw [List.map_cons, List.sum_cons, hstored, hlog.stored, List.countP_append]
  · rw [List.map_cons, List.sum_cons, hdropped, hlog.dropped, List.countP_append]
  · rw [List.map_cons, List.sum_cons, h.enforced.trans (Nat.zero_add _), hlog.enforced,
      List.countP_append]

theorem surround {log : List SweepResult} {trace : List Action} (h : Logs log trace)
    (before after : List Action)
    (hquiet : ∀ action ∈ before ++ after, isAppend action = false ∧ isEnforced action = false) :
    Logs log (before ++ trace ++ after) := by
  have hstored : ∀ action, isAppend action = false → isStored action = false := by
    intro action haction
    cases action <;> simp_all [isAppend, isStored]
  have hrefused : ∀ action, isAppend action = false → isRefused action = false := by
    intro action haction
    cases action <;> simp_all [isAppend, isRefused]
  have hzero : ∀ p : Action → Bool, (∀ action ∈ before ++ after, p action = false) →
      (before ++ trace ++ after).countP p = trace.countP p := by
    intro p hp
    have hbefore : before.countP p = 0 := List.countP_eq_zero.mpr fun action haction => by
      rw [hp action (List.mem_append_left _ haction)]
      exact Bool.false_ne_true
    have hafter : after.countP p = 0 := List.countP_eq_zero.mpr fun action haction => by
      rw [hp action (List.mem_append_right _ haction)]
      exact Bool.false_ne_true
    rw [List.countP_append, List.countP_append, hbefore, hafter, Nat.zero_add, Nat.add_zero]
  constructor
  · rw [h.collected, hzero _ fun action haction => (hquiet action haction).1]
  · rw [h.stored, hzero _ fun action haction => hstored action (hquiet action haction).1]
  · rw [h.dropped, hzero _ fun action haction => hrefused action (hquiet action haction).1]
  · rw [h.enforced, hzero _ fun action haction => (hquiet action haction).2]

end Logs

theorem logs_loop {env : RunEnv} {n sweep : ℕ} {s : σ} {progress : Progress}
    (h : (runner.loop store env n sweep s).outcome = .ok progress) :
    Logs (runner.logged store env n sweep s) (runner.loop store env n sweep s).trace := by
  induction n generalizing sweep s with
  | zero => exact .nil
  | succ n ih =>
    rw [loop] at h ⊢
    rw [logged]
    by_cases hstop : env.stopSet (2 * sweep) = true
    · rw [if_pos hstop, if_pos hstop]
      exact .nil
    · rw [if_neg hstop] at h ⊢
      rw [if_neg hstop]
      rw [Proc.bind_of_ok rfl] at h ⊢
      simp only [Proc.emit_apply] at h ⊢
      cases hsweep : (runner.sweepOnce store sweep s).outcome with
      | error e =>
        rw [Proc.bind_of_error hsweep] at h
        cases h
      | ok result =>
        rw [Proc.bind_of_ok hsweep] at h ⊢
        cases hwait : wait env.interval (env.stopSet (2 * sweep + 1)) with
        | error e =>
          rw [hwait] at h
          cases h
        | ok _ =>
          rw [hwait] at h
          have hrest := (Logs.cons (adds_sweepCollectors store hsweep) (ih h)).surround
            [.sweepStarted sweep] [] (by simp [isAppend, isEnforced])
          rw [List.append_nil] at hrest
          exact hrest

/-- Of a run that has not raised the log tells the truth. -/
theorem logs_runForever {env : RunEnv} {n : ℕ} {s : σ} {progress : Progress}
    (h : (runner.runForever store env n s).outcome = .ok progress) :
    Logs (runner.runLog store env n s) (runner.runForever store env n s).trace := by
  unfold runLog
  cases hstart : (runner.start store env.platform s).outcome with
  | error e =>
    rw [runForever_of_start_error hstart] at h
    cases h
  | ok started =>
    rw [runForever_of_start hstart] at h ⊢
    dsimp only at h ⊢
    rw [← List.append_assoc]
    refine (logs_loop store h).surround _ _ fun action haction => ?_
    rcases List.mem_append.mp haction with hbefore | hafter
    · obtain ⟨answer, rfl⟩ := runner.trace_start store env.platform s action hbefore
      exact ⟨rfl, rfl⟩
    · obtain ⟨name, rfl⟩ := closed_of_mem_closesAfter hafter
      exact ⟨rfl, rfl⟩

end AgentRunner

namespace StoreWorld

/-- The rows stored and those the drop log counts. -/
def accounted (w : StoreWorld) : ℕ := w.store.db.rowCount + w.store.db.droppedEventCount

/-- A handle that has not halted has counted every row. -/
def Counted (w : StoreWorld) : Prop := w.store.haltedReason = none → w.store.CountExact

theorem accounted_append (event : Event) {w : StoreWorld} (h : w.Counted) :
    (w.append event).2.Counted ∧ (w.append event).2.accounted = w.accounted +
      (isStored (.append event (w.append event).1)).toNat +
      (isHalted (.append event (w.append event).1)).toNat := by
  refine ⟨EventStore.step_countExact (.append event w.env) w.store h, ?_⟩
  show (w.store.append event w.env).2.db.rowCount +
      (w.store.append event w.env).2.db.droppedEventCount =
    w.store.db.rowCount + w.store.db.droppedEventCount +
      (isStored (.append event (w.store.append event w.env).1)).toNat +
      (isHalted (.append event (w.store.append event w.env).1)).toNat
  rcases EventStore.append_cases event w.env w.store with hcase | hcase | hcase
  · obtain ⟨e, htype, happend⟩ := EventStore.append_of_not_accepts hcase
    rw [happend]
    simp [isStored, isHalted, htype]
  · obtain ⟨reason, gaps, n, stamped, row, events, -, hrows, happend⟩ :=
      EventStore.append_of_closed hcase.1 hcase.2
    rw [happend]
    simp [isStored, isHalted, Db.rowCount, Db.droppedEventCount, hrows]
    omega
  · obtain ⟨stamped, row, events, n, -, -, hrows, happend⟩ :=
      EventStore.append_of_open hcase.1 hcase.2
    have hcount := EventStore.countExact_counted (h hcase.2.1) hrows n
    have hkept := (EventStore.enforceCap_accounting w.env hcount).2
    have hdrops : (w.store.counted events n).db.droppedEventCount =
        w.store.db.droppedEventCount := rfl
    have hlength : (w.store.counted events n).db.rowCount = w.store.db.rowCount + 1 := by
      simp only [EventStore.counted, Db.rowCount, hrows, List.length_append, List.length_singleton]
    rw [EventStore.NoUnrecordedDrop] at hkept
    rw [happend]
    simp only [isStored, isHalted, Bool.toNat_true, Bool.toNat_false]
    omega

theorem accounted_step {action : Action} {w w' : StoreWorld}
    (hstep : AgentRunner.callRel eventStore action w w') (h : w.Counted) :
    w'.Counted ∧ w'.accounted =
      w.accounted + (isStored action).toNat + (isHalted action).toNat := by
  cases action with
  | append event answer =>
    have hanswer : (w.append event).1 = answer := congrArg Prod.fst hstep
    have hstate : (w.append event).2 = w' := congrArg Prod.snd hstep
    have haccounted := accounted_append event h
    rwa [hanswer, hstate] at haccounted
  | downtimeChecked answer =>
    have hstate : w.detectDowntime.2 = w' := congrArg Prod.snd hstep
    rw [← hstate, detectDowntime]
    split
    · exact ⟨h, rfl⟩
    · exact ⟨h, rfl⟩
    · exact ⟨h, rfl⟩
  | switchRead | enforceInvoked | sweepStarted | collectorClosed =>
    rw [show w' = w from hstep]
    exact ⟨h, rfl⟩

/-- Along a path a row is taken for each append that returns or is halted, and none is lost. -/
theorem accounted_path {trace : List Action} {w w' : StoreWorld}
    (hpath : Path (AgentRunner.callRel eventStore) w trace w') (h : w.Counted) :
    w'.accounted = w.accounted + trace.countP isStored + trace.countP isHalted := by
  induction hpath with
  | nil w => rfl
  | @cons action trace w next w' head _ ih =>
    obtain ⟨hnext, haccounted⟩ := accounted_step head h
    rw [ih hnext, haccounted, List.countP_cons, List.countP_cons]
    cases isStored action <;> cases isHalted action <;> simp <;> omega

end StoreWorld

namespace AgentRunner

/-- A run on an event store, if nothing has left it, has logged as collected every event it handed
to the store, as dropped every append that raised, and as enforced every action that was taken;
and for each event logged as stored the database has a row or a place in its drop log. Beside them
are the rows of appends that a closed gate stopped, and what there was before. -/
theorem log_accounts (runner : AgentRunner) (env : RunEnv) (n : ℕ) (w : StoreWorld)
    {progress : Progress} (hcounted : w.Counted)
    (h : (runner.runForever eventStore env n w).outcome = .ok progress) :
    let ran := runner.runForever eventStore env n w
    let log := runner.runLog eventStore env n w
    (log.map SweepResult.collected).sum = ran.trace.countP isAppend ∧
      (log.map SweepResult.dropped).sum = ran.trace.countP isRefused ∧
      (log.map SweepResult.enforced).sum = ran.trace.countP isEnforced ∧
      ran.state.store.db.rowCount + ran.state.store.db.droppedEventCount =
        w.store.db.rowCount + w.store.db.droppedEventCount +
          (log.map SweepResult.stored).sum + ran.trace.countP isHalted := by
  intro ran log
  have hlogs : Logs log ran.trace := logs_runForever eventStore h
  have hpath : Path (callRel eventStore) w ran.trace ran.state :=
    follows_runForever runner eventStore env n w
  refine ⟨hlogs.collected, hlogs.dropped, hlogs.enforced, ?_⟩
  rw [hlogs.stored]
  exact StoreWorld.accounted_path hpath hcounted

/-- `stop` is called while the first sweep runs. -/
def stoppedEnv : RunEnv := { quietEnv with stop := some 1 }

def startedPlain : AgentRunner := { plainRunner with started := true }

theorem survivable_startedPlain (sweep : ℕ) :
    ∀ c ∈ startedPlain.collectors, startedPlain.Survivable sweep c := by
  intro c hc
  rw [List.mem_singleton.mp hc]
  refine ⟨nofun, fun _ o ho hpoisoned => ?_⟩
  obtain ⟨e, he, -⟩ := process_of_poisoned hpoisoned
  obtain ⟨result, hresult⟩ := process_plain startedPlain (str "EVT-1") Event.strip_evt1
  rw [List.mem_singleton.mp ho, hresult] at he
  cases he

theorem plainRunner_stops (w : StoreWorld) :
    (plainRunner.runForever eventStore stoppedEnv 2 w).outcome = .ok .stopped := by
  have hstart : (plainRunner.start eventStore stoppedEnv.platform w).outcome =
      .ok startedPlain := rfl
  rw [runForever_of_start hstart]
  dsimp only
  generalize (plainRunner.start eventStore stoppedEnv.platform w).state = opened
  have hsweep : ∃ result, (startedPlain.sweepOnce eventStore 0 opened).outcome = .ok result := by
    obtain ⟨result, hresult, -⟩ :=
      sweepCollectors_of_survivable eventStore (survivable_startedPlain 0) {} opened
    exact ⟨result, hresult⟩
  obtain ⟨result, hsweep⟩ := hsweep
  have hrunning : ¬stoppedEnv.stopSet (2 * 0) = true := Bool.false_ne_true
  rw [loop, if_neg hrunning, Proc.bind_of_ok rfl]
  simp only [Proc.emit_apply]
  rw [Proc.bind_of_ok hsweep]
  rfl

/-- One event on a full disk: it is logged as collected and dropped, and has a row. -/
theorem log_accounts_fullDisk :
    let ran := plainRunner.runForever eventStore stoppedEnv 2 fullDisk
    let log := plainRunner.runLog eventStore stoppedEnv 2 fullDisk
    (log.map SweepResult.dropped).sum = ran.trace.countP isRefused ∧
      ran.state.store.db.rowCount + ran.state.store.db.droppedEventCount =
        fullDisk.store.db.rowCount + fullDisk.store.db.droppedEventCount +
          (log.map SweepResult.stored).sum + ran.trace.countP isHalted := by
  intro ran log
  have haccounts := log_accounts plainRunner stoppedEnv 2 fullDisk
    (fun _ => EventStore.countExact_init _ _ _) (plainRunner_stops fullDisk)
  exact ⟨haccounts.2.1, haccounts.2.2.2⟩

end AgentRunner
end Ebabf
