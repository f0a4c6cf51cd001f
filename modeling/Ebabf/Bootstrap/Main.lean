import Ebabf.Packaging
import Ebabf.Runner.Run
import Ebabf.Storage.Runs

/-!
# A storage halt

`main` turns a `StorageHalted` that leaves the run into an exit code of its own. The run is that of
an agent on an event store; `_handle` keeps everything the store raises from leaving it.
-/

namespace Ebabf

open Py (Str str Exc Proc Ran decimal)
open AgentRunner (RunEnv Progress callRel)
open Transition (Path Throughout)

/-- An event store in a run: what its appends will read from outside, how many there have been, and
what `detect_downtime` raises or records. -/
structure StoreWorld where
  store : EventStore
  readings : ℕ → AppendEnv
  appends : ℕ
  downtime : Except Exc (Option CoverageGap)

namespace StoreWorld

/-- What the next append reads. -/
def env (w : StoreWorld) : AppendEnv := w.readings w.appends

def append (event : Event) (w : StoreWorld) : Except Exc Event × StoreWorld :=
  ((w.store.append event w.env).1,
    { w with
      store := (w.store.append event w.env).2
      appends := w.appends + 1 })

def detectDowntime (w : StoreWorld) : Except Exc Unit × StoreWorld :=
  match w.downtime with
  | .error e => (.error e, w)
  | .ok none => (.ok (), w)
  | .ok (some gap) => (.ok (), { w with store := w.store.recordGapLocked gap })

/-- If it appends, the store takes no row that a closed gate then stops. -/
def MeetsOpenGate (w : StoreWorld) : Action → Prop
  | .append event _ => w.store.MeetsOpenGate (.append event w.env)
  | _ => True

end StoreWorld

def eventStore : Store StoreWorld where
  append := StoreWorld.append
  detectDowntime := StoreWorld.detectDowntime

/-- `main` on `run` or `baseline`, once the agent is built: the exit code, or the exception that
leaves it. Nothing as long as the run goes on. -/
def mainExit : Except Exc Progress → Option (Except Exc ℕ)
  | .ok .running => none
  | .ok .stopped => some (.ok 0)
  | .error e => if e.type = storageHalted then some (.ok EXIT_STORAGE_HALTED) else some (.error e)

namespace AgentRunner

/-- The collectors of a runner once it has started. -/
def running (runner : AgentRunner) : List Collector :=
  if runner.started then runner.collectors
  else runner.collectors.filter fun c => c.start.isOk

/-- Wherever an append raises `StorageHalted`, no sweep is started after it, the collectors are
closed, and `main` exits with the code the unit names. -/
def HaltEndsRun (runner : AgentRunner) (ran : Ran Action StoreWorld Progress) : Prop :=
  ∀ before event reason after,
    ran.trace = before ++ .append event (.error ⟨storageHalted, reason⟩) :: after →
    (∀ sweep, .sweepStarted sweep ∉ after) ∧
    (∀ c ∈ runner.running, .collectorClosed c.name ∈ after) ∧
    mainExit ran.outcome = some (.ok EXIT_STORAGE_HALTED)

theorem restartPrevented (spec : UnitSpec) :
    str "RestartPreventExitStatus=" ++ decimal EXIT_STORAGE_HALTED ∈ unitLines spec := by
  simp [unitLines]

theorem not_storageHalted_of_leaves {e : Exc} (h : Leaves e) : e.type ≠ storageHalted := by
  rcases h with (h | h | h) | h
  · rw [h]; decide
  · rw [h]; decide
  · rw [h]; decide
  · rw [h]; decide

theorem mainExit_ne_halted (runner : AgentRunner) (env : RunEnv) (n : ℕ) (w : StoreWorld) :
    mainExit (runner.runForever eventStore env n w).outcome ≠
      some (.ok EXIT_STORAGE_HALTED) := by
  cases h : (runner.runForever eventStore env n w).outcome with
  | ok progress => cases progress <;> simp [mainExit, EXIT_STORAGE_HALTED]
  | error e =>
    have hleaves := raisesOnly_runForever runner eventStore env n w e h
    simp [mainExit, not_storageHalted_of_leaves hleaves]

theorem answer_of_closed {event : Event} {answer : Except Exc Event} {w w' : StoreWorld}
    (hstep : callRel eventStore (.append event answer) w w')
    (hclosed : ¬w.MeetsOpenGate (.append event answer)) :
    ∃ reason, answer = .error ⟨storageHalted, reason⟩ := by
  have hanswer : answer = (w.store.append event w.env).1 := (congrArg Prod.fst hstep).symm
  rw [hanswer]
  exact (EventStore.append_halts_iff event w.env w.store).mpr (Classical.not_imp.mp hclosed)

theorem closed_of_answer {event : Event} {reason : Str} {w w' : StoreWorld}
    (hstep : callRel eventStore (.append event (.error ⟨storageHalted, reason⟩)) w w') :
    ¬w.MeetsOpenGate (.append event (.error ⟨storageHalted, reason⟩)) := by
  have hanswer : (w.store.append event w.env).1 = .error ⟨storageHalted, reason⟩ :=
    congrArg Prod.fst hstep
  exact Classical.not_imp.mpr
    ((EventStore.append_halts_iff event w.env w.store).mp ⟨reason, hanswer⟩)

theorem not_haltEndsRun_of_halted {runner : AgentRunner} {env : RunEnv} {n : ℕ} {w : StoreWorld}
    (event : Event) (reason : Str)
    (h : .append event (.error ⟨storageHalted, reason⟩) ∈
      (runner.runForever eventStore env n w).trace) :
    ¬runner.HaltEndsRun (runner.runForever eventStore env n w) := by
  intro hends
  obtain ⟨before, after, htrace⟩ := List.append_of_mem h
  exact mainExit_ne_halted runner env n w (hends before event reason after htrace).2.2

/-- A halt ends the run exactly when there is none: when every append whose row the store takes
meets an open gate. -/
theorem haltEndsRun_iff (runner : AgentRunner) (env : RunEnv) (n : ℕ) (w : StoreWorld) :
    runner.HaltEndsRun (runner.runForever eventStore env n w) ↔
      Throughout (callRel eventStore) StoreWorld.MeetsOpenGate
        (runner.runForever eventStore env n w).trace w := by
  have hpath := follows_runForever runner eventStore env n w
  constructor
  · intro hends before action after w' htrace hbefore
    by_contra hclosed
    rw [htrace] at hpath
    obtain ⟨w'', hbefore', _ | ⟨hstep, -⟩⟩ := hpath.split
    obtain rfl := hbefore.unique (callRel_unique eventStore) hbefore'
    cases action with
    | append event answer =>
      obtain ⟨reason, rfl⟩ := answer_of_closed hstep hclosed
      refine not_haltEndsRun_of_halted event reason ?_ hends
      rw [htrace]
      simp
    | switchRead | enforceInvoked | downtimeChecked | sweepStarted | collectorClosed =>
      exact hclosed trivial
  · intro hopen before event reason after htrace
    rw [htrace] at hpath
    obtain ⟨w', hbefore, _ | ⟨hstep, -⟩⟩ := hpath.split
    exact absurd (hopen before _ after w' htrace hbefore) (closed_of_answer hstep)

/-- A plain event once the placeholder engines have had it. -/
def loggedPlain (eventId : Str) (h : Py.strip eventId ≠ []) : Event where
  fields := { (Event.plain eventId h).fields with decision := some .log }
  admissible := { (Event.plain eventId h).admissible with
    enforced := by simp [Event.plain] }

def recordedPlain (eventId : Str) (h : Py.strip eventId ≠ []) : Event where
  fields := { (loggedPlain eventId h).fields with
    enforced := false
    enforcementBlockedReason := some .noActionRequired }
  admissible := { (loggedPlain eventId h).admissible with
    enforced := by simp }

theorem decideHook_plain (eventId : Str) (h : Py.strip eventId ≠ []) :
    PassThroughDecisionEngine.decideHook (.plain eventId h) = .ok ⟨loggedPlain eventId h⟩ := by
  have henriched : (Event.plain eventId h).enriched (fun f => { f with decision := some .log }) =
      .ok (loggedPlain eventId h) :=
    Event.make_of_admissible (loggedPlain eventId h).admissible
  rw [PassThroughDecisionEngine.decideHook, henriched]

theorem process_plain (runner : AgentRunner) (eventId : Str) (h : Py.strip eventId ≠ []) :
    ∃ result, (runner.process (plainObservation eventId h) ()).outcome =
      .ok (result, recordedPlain eventId h) := by
  have hdecide := runner.decision.decide_of_ok (decideHook_plain eventId h)
  have hfits : (EnforcementResult.blocked .noActionRequired
      (str "decision asks for no enforcement action")).Fits (loggedPlain eventId h) := nofun
  refine ⟨.blocked .noActionRequired (str "decision asks for no enforcement action"), ?_⟩
  rw [process_eq (o := plainObservation eventId h) hdecide, Proc.bind_of_ok rfl,
    EnforcementResult.applyTo_of_fits hfits]
  rfl

/-- It yields one plain event a sweep. -/
def plainCollector : Collector :=
  { name := str "process"
    collect := fun _ =>
      { observations := [plainObservation (str "EVT-1") Event.strip_evt1]
        fault := none } }

def plainRunner : AgentRunner := { rootRunner with collectors := [plainCollector] }

/-- A new store on a full disk. -/
def fullDisk : StoreWorld :=
  { store := .init Db.empty none (some (10 ^ 18))
    readings := fun _ => EventStore.envWithFree (some 0)
    appends := 0
    downtime := .ok none }

def quietEnv : RunEnv := { interval := 30.0, platform := str "Linux", stop := none }

def storedRecorded (eventId : Str) (h : Py.strip eventId ≠ []) : Event where
  fields := { (recordedPlain eventId h).fields with ingestedAt := some Py.Datetime.epoch }
  admissible := { (recordedPlain eventId h).admissible with
    ingested_at := by simp [Py.Datetime.epoch] }

def recordedRow (eventId : Str) : EventRow :=
  { EventStore.storedRow eventId with
    decision := some Decision.log.value
    enforcementBlockedReason := some EnforcementBlockedReason.noActionRequired.value }

theorem prepare_recordedPlain (eventId : Str) (h : Py.strip eventId ≠ []) (free : Option ℕ) :
    EventStore.prepare (recordedPlain eventId h) (EventStore.envWithFree free) =
      .ok (storedRecorded eventId h, recordedRow eventId) := by
  have henriched : (recordedPlain eventId h).enriched
      (fun f => { f with ingestedAt := some (EventStore.envWithFree free).stamp }) =
      .ok (storedRecorded eventId h) :=
    Event.make_of_admissible (storedRecorded eventId h).admissible
  unfold EventStore.prepare
  rw [henriched]
  rfl

theorem fullDisk_answer : ∃ reason,
    (eventStore.append (recordedPlain (str "EVT-1") (by decide)) fullDisk).1 =
      .error ⟨storageHalted, reason⟩ := by
  refine (EventStore.append_halts_iff _ _ _).mpr ⟨?_, ?_⟩
  · exact EventStore.accepts_of_prepare
      (prepare_recordedPlain (str "EVT-1") (by decide) (some 0)) (by decide) (by decide) (by decide)
      List.not_mem_nil
  · intro hopen
    exact absurd (hopen.2 (10 ^ 18) rfl (by decide) 0 rfl) (by decide)

theorem append_mem_trace (n : ℕ) {action : Action}
    (h : action ∈ (plainRunner.handle eventStore
      (plainObservation (str "EVT-1") (by decide)) fullDisk).trace) :
    action ∈ (plainRunner.runForever eventStore quietEnv (n + 1) fullDisk).trace := by
  have hstart : (plainRunner.start eventStore quietEnv.platform fullDisk).outcome =
      .ok { plainRunner with started := true } := rfl
  have hstate : (plainRunner.start eventStore quietEnv.platform fullDisk).state = fullDisk := rfl
  refine Proc.mem_trace_bind_right hstart ?_
  rw [hstate]
  refine Proc.mem_trace_bind_left (mem_trace_loop 0 rfl ?_ n)
  exact Proc.mem_trace_bind_left (Proc.mem_trace_bind_left h)

/-- On a full disk the halt does not end the run. -/
theorem halt_does_not_end_run : ¬∀ (runner : AgentRunner) (env : RunEnv) (n : ℕ) (w : StoreWorld),
    runner.HaltEndsRun (runner.runForever eventStore env n w) := by
  intro h
  obtain ⟨result, hprocess⟩ := process_plain plainRunner (str "EVT-1") (by decide)
  have hhandle := handle_of_ok eventStore hprocess fullDisk
  obtain ⟨reason, hreason⟩ := fullDisk_answer
  rw [hreason] at hhandle
  have hmem : .append (recordedPlain (str "EVT-1") (by decide))
      (.error ⟨storageHalted, reason⟩) ∈ (plainRunner.handle eventStore
        (plainObservation (str "EVT-1") (by decide)) fullDisk).trace := by
    rw [hhandle]
    simp
  exact not_haltEndsRun_of_halted _ reason (append_mem_trace 0 hmem) (h plainRunner quietEnv 1 fullDisk)

end AgentRunner
end Ebabf
