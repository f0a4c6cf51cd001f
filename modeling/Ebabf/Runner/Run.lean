import Ebabf.Runner.Sweep

/-!
# A whole run

`run_forever` starts the collectors, sweeps until it is told to stop and closes them whichever way
the loop is left. A run is followed for a number of sweeps; it may go on after that.
-/

namespace Ebabf

open Py (Str str Exc Fault Proc Ran)
open Transition (Path)

namespace AgentRunner

variable {σ : Type}

/-- The collectors that started, and those that failed with what they raised. -/
def startAll : List Collector → Except Exc (List Collector × List (Str × Str))
  | [] => .ok ([], [])
  | collector :: rest =>
    match collector.start with
    | .ok () => do
      let (running, failed) ← startAll rest
      return (collector :: running, failed)
    | .error fault => do
      let description ← fault.describe
      let (running, failed) ← startAll rest
      return (running, (collector.name, description) :: failed)

/-- `_with_failures` -/
def withFailures (platform : Str) (coverage : Option CoverageReport)
    (failed : List (Str × Str)) : CoverageReport :=
  match coverage with
  | none => { platform, active := [], unavailable := failed }
  | some coverage =>
    { coverage with
      active := coverage.active.filter fun name => name ∉ failed.map Prod.fst
      unavailable := coverage.unavailable ++ failed }

def checkDowntime (store : Store σ) : Proc Action σ Unit := fun s =>
  ⟨(store.detectDowntime s).1, [.downtimeChecked (store.detectDowntime s).1],
    (store.detectDowntime s).2⟩

/-- `start`: the runner that results. -/
def start (runner : AgentRunner) (store : Store σ) (platform : Str) :
    Proc Action σ AgentRunner :=
  if runner.started then return runner
  else do
    let (running, failed) ← Proc.lift (startAll runner.collectors)
    let runner :=
      if failed = [] then runner
      else { runner with
        collectors := running
        coverage := some (withFailures platform runner.coverage failed) }
    let _ ← (checkDowntime store).attempt
    return { runner with started := true }

/-- The longest timeout a lock waits for, in seconds. -/
def TIMEOUT_MAX : Float := 9223372036.0

/-- `self._stop.wait(interval_seconds)`, which does not wait for a flag that is set. -/
def wait (interval : Float) (signaled : Bool) : Except Exc Unit :=
  if signaled then .ok ()
  else if TIMEOUT_MAX < interval then
    .error ⟨.other (str "OverflowError"), str "timeout value is too large"⟩
  else .ok ()

/-- What a run is given: the interval, the platform's name, and when `stop` is called, if ever. The
loop looks at the flag before sweep `k`, at time `2 * k`, and when it starts to wait, at
`2 * k + 1`. -/
structure RunEnv where
  interval : Float
  platform : Str
  stop : Option ℕ

def RunEnv.stopSet (env : RunEnv) (time : ℕ) : Bool := env.stop.any fun t => t ≤ time

inductive Progress
  | stopped | running
deriving DecidableEq

/-- The loop, for at most `n` more sweeps. -/
def loop (runner : AgentRunner) (store : Store σ) (env : RunEnv) :
    ℕ → ℕ → Proc Action σ Progress
  | 0, _ => return .running
  | n + 1, sweep =>
    if env.stopSet (2 * sweep) then return .stopped
    else do
      Proc.emit (.sweepStarted sweep)
      let _ ← runner.sweepOnce store sweep
      Proc.lift (wait env.interval (env.stopSet (2 * sweep + 1)))
      runner.loop store env n (sweep + 1)

/-- `close`: a collector that fails to close is passed over. -/
def closeAll : List Collector → Proc Action σ Unit
  | [] => return ()
  | collector :: rest => do
    Proc.emit (.collectorClosed collector.name)
    closeAll rest

/-- `run_forever`, for at most `n` sweeps. -/
def runForever (runner : AgentRunner) (store : Store σ) (env : RunEnv) (n : ℕ) :
    Proc Action σ Progress := do
  let runner ← runner.start store env.platform
  match ← (runner.loop store env n 0).attempt with
  | .ok .running => return .running
  | .ok .stopped =>
    closeAll runner.collectors
    return .stopped
  | .error e =>
    closeAll runner.collectors
    Proc.lift (.error e)

theorem mem_trace_loop {runner : AgentRunner} {store : Store σ} {env : RunEnv} (sweep : ℕ) {s : σ}
    {action : Action} (hrunning : env.stopSet (2 * sweep) = false)
    (h : action ∈ (runner.sweepOnce store sweep s).trace) (n : ℕ) :
    action ∈ (runner.loop store env (n + 1) sweep s).trace := by
  rw [loop, hrunning, if_neg Bool.false_ne_true]
  exact Proc.mem_trace_bind_right rfl (Proc.mem_trace_bind_left h)

/-- The exceptions a run can end in. -/
def Leaves (e : Exc) : Prop := EnforcementEngine.Escapes e ∨ e.type = .other (str "OverflowError")

theorem raisesOnly_describe (fault : Fault) :
    Proc.RaisesOnly Leaves (Proc.lift fault.describe : Proc Action σ Str) :=
  Proc.raisesOnly_lift fun _ he => .inl (.inr (.inr (Fault.type_of_describe_error he)))

theorem raisesOnly_handle (runner : AgentRunner) (store : Store σ) (o : Observation) :
    Proc.RaisesOnly Leaves (runner.handle store o) := by
  intro s e he
  by_cases hpoisoned : runner.Poisoned o
  · obtain ⟨e', he', hescapes⟩ := handle_of_poisoned store hpoisoned s
    rw [he'] at he
    cases he
    exact .inl hescapes
  · obtain ⟨⟨answer, hanswer⟩, -⟩ := recorded_of_not_poisoned store hpoisoned s
    rw [hanswer] at he
    cases he

theorem raisesOnly_handleAll (runner : AgentRunner) (store : Store σ) (os : List Observation)
    (result : SweepResult) : Proc.RaisesOnly Leaves (runner.handleAll store os result) := by
  induction os generalizing result with
  | nil => exact Proc.raisesOnly_pure result
  | cons o os ih => exact (raisesOnly_handle runner store o).bind fun _ => ih _

theorem raisesOnly_sweepCollectors (runner : AgentRunner) (store : Store σ) (sweep : ℕ)
    (collectors : List Collector) (result : SweepResult) :
    Proc.RaisesOnly Leaves (runner.sweepCollectors store sweep collectors result) := by
  induction collectors generalizing result with
  | nil => exact Proc.raisesOnly_pure result
  | cons c collectors ih =>
    rw [sweepCollectors]
    split
    · exact (raisesOnly_describe _).bind fun _ => ih _
    · exact (raisesOnly_handleAll runner store _ result).bind fun _ => ih _

theorem raisesOnly_wait (interval : Float) (signaled : Bool) :
    Proc.RaisesOnly Leaves (Proc.lift (wait interval signaled) : Proc Action σ Unit) := by
  refine Proc.raisesOnly_lift fun e he => ?_
  unfold wait at he
  split_ifs at he
  cases he
  exact .inr rfl

theorem raisesOnly_loop (runner : AgentRunner) (store : Store σ) (env : RunEnv) (n sweep : ℕ) :
    Proc.RaisesOnly Leaves (runner.loop store env n sweep) := by
  induction n generalizing sweep with
  | zero => exact Proc.raisesOnly_pure _
  | succ n ih =>
    rw [loop]
    split
    · exact Proc.raisesOnly_pure _
    · exact (Proc.raisesOnly_emit _).bind fun _ =>
        (raisesOnly_sweepCollectors runner store sweep _ _).bind fun _ =>
          (raisesOnly_wait _ _).bind fun _ => ih _

theorem leaves_of_startAll {collectors : List Collector} {e : Exc}
    (h : startAll collectors = .error e) : Leaves e := by
  induction collectors generalizing e with
  | nil => cases h
  | cons collector rest ih =>
    rw [startAll] at h
    split at h
    · rcases Py.bind_eq_error.mp h with hrest | ⟨answer, -, h⟩
      · exact ih hrest
      · cases h
    · rcases Py.bind_eq_error.mp h with hdescribe | ⟨description, -, h⟩
      · exact .inl (.inr (.inr (Fault.type_of_describe_error hdescribe)))
      · rcases Py.bind_eq_error.mp h with hrest | ⟨answer, -, h⟩
        · exact ih hrest
        · cases h

theorem raisesOnly_start (runner : AgentRunner) (store : Store σ) (platform : Str) :
    Proc.RaisesOnly Leaves (runner.start store platform) := by
  unfold start
  split
  · exact Proc.raisesOnly_pure _
  · exact (Proc.raisesOnly_lift fun _ => leaves_of_startAll).bind fun _ =>
      (Proc.raisesOnly_attempt _).bind fun _ => Proc.raisesOnly_pure _

theorem raisesOnly_closeAll (collectors : List Collector) :
    Proc.RaisesOnly Leaves (closeAll collectors : Proc Action σ Unit) := by
  induction collectors with
  | nil => exact Proc.raisesOnly_pure ()
  | cons c collectors ih => exact (Proc.raisesOnly_emit _).bind fun _ => ih

/-- Nothing but these exceptions leaves a run: what the store raises never does. -/
theorem raisesOnly_runForever (runner : AgentRunner) (store : Store σ) (env : RunEnv) (n : ℕ) :
    Proc.RaisesOnly Leaves (runner.runForever store env n) := by
  refine (raisesOnly_start runner store env.platform).bind fun started => ?_
  refine (raisesOnly_loop started store env n 0).attempt_bind (fun progress => ?_) fun e he => ?_
  · cases progress with
    | running => exact Proc.raisesOnly_pure _
    | stopped => exact (raisesOnly_closeAll _).bind fun _ => Proc.raisesOnly_pure _
  · refine (raisesOnly_closeAll _).bind fun _ => Proc.raisesOnly_lift fun e' he' => ?_
    cases he'
    exact he

/-- A call and the states of the store around it. -/
def callRel (store : Store σ) : Action → σ → σ → Prop
  | .append event answer, s, s' => store.append event s = (answer, s')
  | .downtimeChecked answer, s, s' => store.detectDowntime s = (answer, s')
  | _, s, s' => s' = s

theorem callRel_unique (store : Store σ) (action : Action) (s s' s'' : σ)
    (h : callRel store action s s') (h' : callRel store action s s'') : s' = s'' := by
  cases action with
  | append event answer => exact congrArg Prod.snd (h.symm.trans h')
  | downtimeChecked answer => exact congrArg Prod.snd (h.symm.trans h')
  | switchRead | enforceInvoked | sweepStarted | collectorClosed => exact h.trans h'.symm

theorem follows_process (runner : AgentRunner) (store : Store σ) (o : Observation) :
    Proc.Follows (callRel store) (runner.process o).anywhere := by
  refine Proc.follows_anywhere fun action haction s => ?_
  rcases runner.process_trace o action haction with ⟨engaged, rfl⟩ | ⟨outcome, answer, rfl⟩
  · rfl
  · rfl

theorem follows_handle (runner : AgentRunner) (store : Store σ) (o : Observation) :
    Proc.Follows (callRel store) (runner.handle store o) := by
  refine (follows_process runner store o).bind fun (result, final) => ?_
  have hrecord : Proc.Follows (callRel store) (record store final) := fun s => .single rfl
  refine hrecord.attempt.bind fun answer => ?_
  cases answer with
  | error e => exact Proc.follows_pure _
  | ok stamped => exact Proc.follows_pure _

theorem follows_handleAll (runner : AgentRunner) (store : Store σ) (os : List Observation)
    (result : SweepResult) : Proc.Follows (callRel store) (runner.handleAll store os result) := by
  induction os generalizing result with
  | nil => exact Proc.follows_pure result
  | cons o os ih => exact (follows_handle runner store o).bind fun _ => ih _

theorem follows_sweepCollectors (runner : AgentRunner) (store : Store σ) (sweep : ℕ)
    (collectors : List Collector) (result : SweepResult) :
    Proc.Follows (callRel store) (runner.sweepCollectors store sweep collectors result) := by
  induction collectors generalizing result with
  | nil => exact Proc.follows_pure result
  | cons c collectors ih =>
    rw [sweepCollectors]
    split
    · exact (Proc.follows_lift _).bind fun _ => ih _
    · exact (follows_handleAll runner store _ result).bind fun _ => ih _

theorem follows_loop (runner : AgentRunner) (store : Store σ) (env : RunEnv) (n sweep : ℕ) :
    Proc.Follows (callRel store) (runner.loop store env n sweep) := by
  induction n generalizing sweep with
  | zero => exact Proc.follows_pure _
  | succ n ih =>
    rw [loop]
    split
    · exact Proc.follows_pure _
    · exact (Proc.follows_emit fun _ => rfl).bind fun _ =>
        (follows_sweepCollectors runner store sweep _ _).bind fun _ =>
          (Proc.follows_lift _).bind fun _ => ih _

theorem follows_start (runner : AgentRunner) (store : Store σ) (platform : Str) :
    Proc.Follows (callRel store) (runner.start store platform) := by
  have hcheck : Proc.Follows (callRel store) (checkDowntime store) := fun s => .single rfl
  unfold start
  split
  · exact Proc.follows_pure _
  · exact (Proc.follows_lift _).bind fun _ => hcheck.attempt.bind fun _ => Proc.follows_pure _

theorem follows_closeAll (store : Store σ) (collectors : List Collector) :
    Proc.Follows (callRel store) (closeAll collectors) := by
  induction collectors with
  | nil => exact Proc.follows_pure ()
  | cons c collectors ih => exact (Proc.follows_emit fun _ => rfl).bind fun _ => ih

/-- The trace of a run takes the store from the state before it to the state after. -/
theorem follows_runForever (runner : AgentRunner) (store : Store σ) (env : RunEnv) (n : ℕ) :
    Proc.Follows (callRel store) (runner.runForever store env n) := by
  refine (follows_start runner store env.platform).bind fun started => ?_
  refine (follows_loop started store env n 0).attempt.bind fun answer => ?_
  cases answer with
  | error e => exact (follows_closeAll store _).bind fun _ => Proc.follows_lift _
  | ok progress =>
    cases progress with
    | running => exact Proc.follows_pure _
    | stopped => exact (follows_closeAll store _).bind fun _ => Proc.follows_pure _

end AgentRunner
end Ebabf
