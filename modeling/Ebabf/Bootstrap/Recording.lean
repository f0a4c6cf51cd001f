import Ebabf.Bootstrap.Agent
import Ebabf.Bootstrap.Report
import Ebabf.Runner.Accounts

/-!
# The commands that record

`main` on `run` and `baseline`, from the command line to the exit code. Its table grows past the
cap only by the rows of appends that a halt refused, `status` afterwards tells of all of them and
of the halt, and a baseline is what `run` would record.
-/

namespace Ebabf

open Py (Str str Exc Proc Ran HasLine grouped)
open AgentRunner (RunEnv Progress callRel)
open Transition (Path)

/-- What `main` finds on a machine: the configuration and the database it names, what is in the
databases, what `build_agent` and the event store meet, and when `stop` is called. -/
structure Machine where
  conv : Conversions
  config : AgentConfig
  eventDbPath : Str
  databases : Str → Db
  build : BuildEnv
  readings : ℕ → AppendEnv
  downtime : Except Exc (Option CoverageGap)
  stop : Option ℕ

/-- An agent that was built and run: where to, from which store, and how it went. -/
structure Recording where
  path : Str
  runner : AgentRunner
  start : StoreWorld
  ran : Ran Action StoreWorld Progress

namespace Machine

/-- The path `build_agent` gets, or else the one in the configuration. -/
def recordingPath (machine : Machine) (command : Str) (args : Namespace) : Str :=
  if command = str "baseline" then args.db.getD machine.eventDbPath else machine.eventDbPath

/-- The run of the agent that was built, for at most `n` sweeps. -/
def runBuilt (machine : Machine) (path : Str) (args : Namespace) (n : ℕ)
    (built : AgentRunner × EventStore) : Recording :=
  let start : StoreWorld :=
    { store := built.2, readings := machine.readings, appends := 0, downtime := machine.downtime }
  let env : RunEnv :=
    { interval := args.interval, platform := machine.build.platform, stop := machine.stop }
  { path, runner := built.1, start, ran := built.1.runForever eventStore env n start }

/-- `main` from the parsed arguments on. -/
def record (machine : Machine) (command : Str) (args : Namespace) (n : ℕ) :
    Except Exc Recording := do
  let path := machine.recordingPath command args
  let built ← buildAgent args.only { machine.build with db := machine.databases path }
    (machine.config.replaced command args)
  return machine.runBuilt path args n built

/-- `main(argv)`, for at most `n` sweeps; nothing where the command line is not one that
records. -/
def main (machine : Machine) (argv : List Str) (n : ℕ) : Option (Except Exc Recording) :=
  match parseMain machine.conv argv with
  | none => none
  | some (command, args) =>
    if command ∈ [str "run", str "baseline"] then some (machine.record command args n) else none

end Machine

namespace StoreWorld

/-- Under a cap, an exact count, and at most so many rows. -/
structure Within (cap : ℤ) (bound : ℕ) (w : StoreWorld) : Prop where
  counted : w.Counted
  capped : w.store.maxEvents = some cap
  rows : w.store.db.rowCount ≤ bound

theorem within_append {cap : ℤ} {bound : ℕ} {w : StoreWorld} (event : Event) (hcap : 1 ≤ cap)
    (hbound : cap ≤ bound) (h : w.Within cap bound) :
    (w.append event).2.Within cap
      (bound + (isHalted (.append event (w.append event).1)).toNat) := by
  refine ⟨(accounted_append event h.counted).1, ?_, ?_⟩
  · show (w.store.append event w.env).2.maxEvents = some cap
    rcases EventStore.append_cases event w.env w.store with hcase | hcase | hcase
    · obtain ⟨e, -, happend⟩ := EventStore.append_of_not_accepts hcase
      rw [happend]
      exact h.capped
    · obtain ⟨reason, gaps, n, stamped, row, events, -, -, happend⟩ :=
        EventStore.append_of_closed hcase.1 hcase.2
      rw [happend]
      exact h.capped
    · obtain ⟨stamped, row, events, n, -, -, -, happend⟩ :=
        EventStore.append_of_open hcase.1 hcase.2
      obtain ⟨db, rowCount, hframe⟩ := EventStore.enforceCap_frame w.env (w.store.counted events n)
      rw [happend, hframe]
      exact h.capped
  · show (w.store.append event w.env).2.db.rowCount ≤
      bound + (isHalted (.append event (w.store.append event w.env).1)).toNat
    rcases EventStore.append_cases event w.env w.store with hcase | hcase | hcase
    · obtain ⟨e, -, happend⟩ := EventStore.append_of_not_accepts hcase
      rw [happend]
      exact h.rows.trans (Nat.le_add_right _ _)
    · obtain ⟨reason, gaps, n, stamped, row, events, -, hrows, happend⟩ :=
        EventStore.append_of_closed hcase.1 hcase.2
      -- its row stays, and nothing is evicted for it
      have hrow := h.rows
      rw [happend]
      simp only [isHalted, Db.rowCount, hrows, List.length_append, List.length_singleton,
        decide_true, Bool.toNat_true] at hrow ⊢
      omega
    · obtain ⟨stamped, row, events, n, -, hroom, hrows, happend⟩ :=
        EventStore.append_of_open hcase.1 hcase.2
      have hexact := EventStore.countExact_counted (h.counted hcase.2.1) hrows n
      have hlength : (w.store.counted events n).db.rowCount = w.store.db.rowCount + 1 := by
        simp only [EventStore.counted, Db.rowCount, hrows, List.length_append,
          List.length_singleton]
      have hle : (((w.store.counted events n).enforceCap w.env).db.rowCount : ℤ) ≤ cap :=
        EventStore.rowCount_enforceCap_le hexact h.capped hcap (by omega)
      rw [happend]
      dsimp only
      omega

theorem within_step {cap : ℤ} {bound : ℕ} {action : Action} {w w' : StoreWorld} (hcap : 1 ≤ cap)
    (hbound : cap ≤ bound) (hstep : callRel eventStore action w w') (h : w.Within cap bound) :
    w'.Within cap (bound + (isHalted action).toNat) := by
  cases action with
  | append event answer =>
    have hanswer : (w.append event).1 = answer := congrArg Prod.fst hstep
    have hstate : (w.append event).2 = w' := congrArg Prod.snd hstep
    have hwithin := within_append event hcap hbound h
    rwa [hanswer, hstate] at hwithin
  | downtimeChecked answer =>
    have hstate : w.detectDowntime.2 = w' := congrArg Prod.snd hstep
    rw [← hstate, detectDowntime]
    split
    · exact ⟨h.counted, h.capped, h.rows⟩
    · exact ⟨h.counted, h.capped, h.rows⟩
    · exact ⟨h.counted, h.capped, h.rows⟩
  | switchRead | enforceInvoked | sweepStarted | collectorClosed =>
    rw [show w' = w from hstep]
    exact ⟨h.counted, h.capped, h.rows⟩

theorem within_path {cap : ℤ} {bound : ℕ} {trace : List Action} {w w' : StoreWorld}
    (hcap : 1 ≤ cap) (hbound : cap ≤ bound) (hpath : Path (callRel eventStore) w trace w')
    (h : w.Within cap bound) : w'.Within cap (bound + trace.countP isHalted) := by
  induction hpath generalizing bound with
  | nil w => exact h
  | @cons action trace w next w' head _ ih =>
    have hnext := within_step hcap hbound head h
    have hrest := ih (by push_cast; omega) hnext
    have hcount : bound + (isHalted action).toNat + trace.countP isHalted =
        bound + (action :: trace).countP isHalted := by
      rw [List.countP_cons]
      cases isHalted action with
      | false => simp
      | true =>
        rw [Bool.toNat_true, if_pos rfl]
        omega
    rwa [hcount] at hrest

end StoreWorld

/-- The call that only `start` makes. -/
def ChecksDowntime : Action → Prop
  | .downtimeChecked _ => True
  | _ => False

namespace StoreWorld

theorem haltedReason_of_checks {trace : List Action} {w w' : StoreWorld}
    (hpath : Path (callRel eventStore) w trace w') (h : ∀ action ∈ trace, ChecksDowntime action) :
    w'.store.haltedReason = w.store.haltedReason := by
  induction hpath with
  | nil w => rfl
  | @cons action trace w next w' head _ ih =>
    rw [List.forall_mem_cons] at h
    rw [ih h.2]
    cases action with
    | downtimeChecked answer =>
      have hstate : w.detectDowntime.2 = next := congrArg Prod.snd head
      rw [← hstate, detectDowntime]
      split <;> rfl
    | switchRead | enforceInvoked | append | sweepStarted | collectorClosed => exact h.1.elim

theorem haltDeclared_path {trace : List Action} {w w' : StoreWorld}
    (hpath : Path (callRel eventStore) w trace w') (h : ∀ action ∈ trace, ¬ChecksDowntime action)
    (hdeclared : w.store.HaltDeclared) : w'.store.HaltDeclared := by
  induction hpath with
  | nil w => exact hdeclared
  | @cons action trace w next w' head _ ih =>
    rw [List.forall_mem_cons] at h
    apply ih h.2
    cases action with
    | append event answer =>
      have hstate : (w.append event).2 = next := congrArg Prod.snd head
      rw [← hstate]
      exact hdeclared.append event w.env
    | downtimeChecked answer => exact absurd trivial h.1
    | switchRead | enforceInvoked | sweepStarted | collectorClosed =>
      rw [show next = w from head]
      exact hdeclared

end StoreWorld

/-- A run on a store that is not halted yet leaves a halt on record. -/
theorem AgentRunner.haltDeclared_runForever (runner : AgentRunner) (env : RunEnv) (n : ℕ)
    {w : StoreWorld} (h : w.store.haltedReason = none) :
    (runner.runForever eventStore env n w).state.store.HaltDeclared := by
  have hopened : (runner.start eventStore env.platform w).state.store.HaltDeclared := by
    apply EventStore.haltDeclared_of_running
    rw [← h]
    refine StoreWorld.haltedReason_of_checks
      (follows_start runner eventStore env.platform w) fun action haction => ?_
    obtain ⟨answer, rfl⟩ := runner.trace_start eventStore env.platform w action haction
    trivial
  cases hstart : (runner.start eventStore env.platform w).outcome with
  | error e =>
    rw [runForever_of_start_error hstart]
    exact hopened
  | ok started =>
    rw [runForever_of_start hstart]
    refine StoreWorld.haltDeclared_path (follows_loop started eventStore env n 0 _) ?_ hopened
    refine emits_loop (fun _ => id) (fun sweep => ?_) n 0 _
    refine emits_sweepCollectors (fun c _ o _ => ?_) {}
    refine emits_handle (fun action haction => ?_) fun _ _ _ _ => id
    rcases started.process_trace o action haction with ⟨engaged, rfl⟩ | ⟨outcome, answer, rfl⟩
    · exact id
    · exact id

namespace AgentRunner

variable {σ : Type} {runner : AgentRunner} (store : Store σ) (engine : EnforcementEngine)

theorem process_enforcement {o : Observation}
    (hdecision : runner.decision = PassThroughDecisionEngine.engine)
    (hhook : o.around.decideHook = PassThroughDecisionEngine.decideHook) :
    { runner with enforcement := engine }.process o = runner.process o := by
  obtain ⟨outcome, houtcome, -, hidle⟩ := decide_idle hdecision hhook
  have hsame : { runner with enforcement := engine }.decision.decide o.around.decideHook o.event =
      .ok outcome := houtcome
  rw [process_eq houtcome, process_eq hsame, enforce_idle _ _ hidle, enforce_idle _ _ hidle]

theorem handleAll_enforcement {os : List Observation}
    (h : ∀ o ∈ os, { runner with enforcement := engine }.process o = runner.process o)
    (result : SweepResult) :
    { runner with enforcement := engine }.handleAll store os result =
      runner.handleAll store os result := by
  induction os generalizing result with
  | nil => rfl
  | cons o os ih =>
    rw [List.forall_mem_cons] at h
    have hhandle : { runner with enforcement := engine }.handle store o =
        runner.handle store o := by
      unfold handle
      rw [h.1]
    rw [handleAll, handleAll, hhandle]
    simp only [ih h.2]

theorem sweepCollectors_enforcement {collectors : List Collector} (sweep : ℕ)
    (h : ∀ c ∈ collectors, ∀ o ∈ (c.collect sweep).observations,
      { runner with enforcement := engine }.process o = runner.process o)
    (result : SweepResult) :
    { runner with enforcement := engine }.sweepCollectors store sweep collectors result =
      runner.sweepCollectors store sweep collectors result := by
  induction collectors generalizing result with
  | nil => rfl
  | cons c collectors ih =>
    rw [List.forall_mem_cons] at h
    rw [sweepCollectors, sweepCollectors, Collected.list]
    cases (c.collect sweep).fault with
    | some fault => simp only [ih h.2]
    | none => simp only [handleAll_enforcement store engine h.1, ih h.2]

theorem loop_enforcement (runner : AgentRunner) (env : RunEnv)
    (h : ∀ sweep, ∀ c ∈ runner.collectors, ∀ o ∈ (c.collect sweep).observations,
      { runner with enforcement := engine }.process o = runner.process o) (n sweep : ℕ) :
    { runner with enforcement := engine }.loop store env n sweep =
      runner.loop store env n sweep := by
  induction n generalizing sweep with
  | zero => rfl
  | succ n ih =>
    have hsweep : { runner with enforcement := engine }.sweepOnce store sweep =
        runner.sweepOnce store sweep :=
      sweepCollectors_enforcement store engine sweep (h sweep) {}
    rw [loop, loop, hsweep]
    simp only [ih]

theorem start_enforcement (runner : AgentRunner) (platform : Str) (s : σ) :
    { runner with enforcement := engine }.start store platform s =
      ⟨(runner.start store platform s).outcome.map fun started =>
          { started with enforcement := engine },
        (runner.start store platform s).trace, (runner.start store platform s).state⟩ := by
  unfold start
  dsimp only
  by_cases hstarted : runner.started = true
  · rw [if_pos hstarted, if_pos hstarted]
    rfl
  · rw [if_neg hstarted, if_neg hstarted]
    cases startAll runner.collectors with
    | error e => rfl
    | ok answer =>
      by_cases hfailed : answer.2 = []
      · simp only [Proc.lift_ok_bind, if_pos hfailed]
        rfl
      · simp only [Proc.lift_ok_bind, if_neg hfailed]
        rfl

theorem runForever_enforcement (hwired : runner.Wired) (env : RunEnv) (n : ℕ) (s : σ) :
    { runner with enforcement := engine }.runForever store env n s =
      runner.runForever store env n s := by
  have hsame := start_enforcement store engine runner env.platform s
  cases hstart : (runner.start store env.platform s).outcome with
  | error e =>
    have herror : ({ runner with enforcement := engine }.start store env.platform s).outcome =
        .error e := by
      rw [hsame, hstart]
      rfl
    rw [runForever_of_start_error hstart, runForever_of_start_error herror, hsame]
  | ok started =>
    have hok : ({ runner with enforcement := engine }.start store env.platform s).outcome =
        .ok { started with enforcement := engine } := by
      rw [hsame, hstart]
      rfl
    have hcollectors : started.collectors ⊆ runner.collectors := by
      rw [(runner.start_ok_iff store env.platform s).2 started hstart]
      exact runner.running_subset
    have hloop := loop_enforcement store engine started env fun sweep c hc o ho =>
      process_enforcement engine ((decision_of_start hstart).trans hwired.1)
        (hwired.2 c (hcollectors hc) sweep o ho)
    rw [runForever_of_start hstart, runForever_of_start hok, hsame]
    dsimp only
    rw [hloop]

end AgentRunner

theorem buildAgent_enforcementEnabled (only : Option (List Str)) (env : BuildEnv)
    (config : AgentConfig) (enabled : Bool) :
    buildAgent only env { config with enforcementEnabled := enabled } =
      (buildAgent only env config).map fun built =>
        ({ built.1 with enforcement := { built.1.enforcement with enabled } }, built.2) := by
  unfold buildAgent
  dsimp only
  cases env.registry.buildSupported
    { env.context with hostId := config.hostId, tenantId := config.tenantId } env.platform only with
  | error e => rfl
  | ok answer =>
    cases (KillSwitch.construct
      { path := config.killSwitchPath, trustedUid := config.trustedOwnerUid }
      env.switch env.sentinel).1 with
    | error e => rfl
    | ok _ => rfl

theorem maxStoredEvents_replaced (command : Str) (args : Namespace) (config : AgentConfig) :
    (config.replaced command args).maxStoredEvents =
      args.maxEvents.getD config.maxStoredEvents := by
  unfold AgentConfig.replaced
  cases args.maxEvents with
  | none => split_ifs <;> rfl
  | some n => split_ifs <;> rfl

theorem orNone_of_one_le {cap : ℤ} (h : 1 ≤ cap) : EventStore.orNone (some cap) = some cap := by
  simp only [EventStore.orNone, Option.filter_some, decide_eq_true_eq]
  rw [if_pos (by omega)]

theorem code_of_mainExit {runner : AgentRunner} {env : RunEnv} {n : ℕ} {w : StoreWorld} {code : ℕ}
    (h : mainExit (runner.runForever eventStore env n w).outcome = some (.ok code)) : code = 0 := by
  have hnot := runner.mainExit_ne_halted env n w
  cases houtcome : (runner.runForever eventStore env n w).outcome with
  | ok progress =>
    rw [houtcome] at h
    cases progress with
    | stopped => exact (Except.ok.inj (Option.some.inj h)).symm
    | running => cases h
  | error e =>
    rw [houtcome, mainExit] at h hnot
    split_ifs at h hnot
    · exact absurd rfl hnot
    · cases h

namespace Machine

variable {machine : Machine} {command : Str} {args : Namespace} {n : ℕ} {recording : Recording}

theorem record_of_built {built : AgentRunner × EventStore}
    (h : buildAgent args.only
      { machine.build with db := machine.databases (machine.recordingPath command args) }
      (machine.config.replaced command args) = .ok built) (n : ℕ) :
    machine.record command args n =
      .ok (machine.runBuilt (machine.recordingPath command args) args n built) := by
  unfold record
  dsimp only
  rw [h]
  rfl

theorem record_of_error {e : Exc}
    (h : buildAgent args.only
      { machine.build with db := machine.databases (machine.recordingPath command args) }
      (machine.config.replaced command args) = .error e) (n : ℕ) :
    machine.record command args n = .error e := by
  unfold record
  dsimp only
  rw [h]
  rfl

theorem record_ok (h : machine.record command args n = .ok recording) :
    recording.path = machine.recordingPath command args ∧
      recording.runner.decision = PassThroughDecisionEngine.engine ∧
      recording.start.store = .init (machine.databases recording.path)
        (some (args.maxEvents.getD machine.config.maxStoredEvents))
        (some (machine.config.replaced command args).minFreeBytes) ∧
      ∃ env, recording.ran = recording.runner.runForever eventStore env n recording.start := by
  obtain ⟨⟨runner, store⟩, hbuilt, h⟩ := Py.bind_eq_ok.mp h
  cases h
  obtain ⟨hdecision, hstore⟩ := AgentRunner.buildAgent_ok hbuilt
  rw [maxStoredEvents_replaced] at hstore
  exact ⟨rfl, hdecision, hstore, _, rfl⟩

/-- A recording starts from the database it names, and follows its trace to the end. -/
theorem path_of_record (h : machine.record command args n = .ok recording) :
    recording.start.store.db = machine.databases (machine.recordingPath command args) ∧
      recording.start.Counted ∧
      Path (callRel eventStore) recording.start recording.ran.trace recording.ran.state := by
  obtain ⟨hpath, -, hstore, env, hran⟩ := record_ok h
  rw [hstore, hpath]
  refine ⟨rfl, fun _ => ?_, ?_⟩
  · rw [hstore]
    exact EventStore.countExact_init _ _ _
  · rw [hran]
    exact AgentRunner.follows_runForever recording.runner eventStore env n recording.start

theorem accounted_of_record (h : machine.record command args n = .ok recording) :
    let before := machine.databases (machine.recordingPath command args)
    let after := recording.ran.state.store.db
    after.rowCount + after.droppedEventCount =
      before.rowCount + before.droppedEventCount + recording.ran.trace.countP isStored +
        recording.ran.trace.countP isHalted := by
  intro before after
  obtain ⟨hbefore, hcounted, hfollows⟩ := path_of_record h
  have haccounted := StoreWorld.accounted_path hfollows hcounted
  simp only [StoreWorld.accounted, hbefore] at haccounted
  exact haccounted

theorem record_of_main {argv : List Str}
    (hparse : parseMain machine.conv argv = some (command, args))
    (hmain : machine.main argv n = some (.ok recording)) :
    machine.record command args n = .ok recording := by
  unfold main at hmain
  rw [hparse] at hmain
  dsimp only at hmain
  split_ifs at hmain
  exact Option.some.inj hmain

/-- Every command line that records acts on nothing and appends only what its collectors yielded,
decided as LOG, to the database it names. Every row that is taken is stored or dropped on the
record; with a cap of at least one there are in the end no more rows than the cap or the database
had, but for those of appends that were halted; and the exit code, if it exits, is zero. -/
theorem main_records {argv : List Str}
    (hparse : parseMain machine.conv argv = some (command, args))
    (hmain : machine.main argv n = some (.ok recording))
    (hhooks : ∀ c ∈ recording.runner.collectors, ∀ sweep, ∀ o ∈ (c.collect sweep).observations,
      o.around.decideHook = PassThroughDecisionEngine.decideHook) :
    let cap := args.maxEvents.getD machine.config.maxStoredEvents
    let before := machine.databases (machine.recordingPath command args)
    let after := recording.ran.state.store.db
    let halted := recording.ran.trace.countP isHalted
    (∀ action ∈ recording.ran.trace, recording.runner.Observes action) ∧
      after.rowCount + after.droppedEventCount =
        before.rowCount + before.droppedEventCount + recording.ran.trace.countP isStored + halted ∧
      (1 ≤ cap → (after.rowCount : ℤ) ≤ max cap before.rowCount + halted) ∧
      ∀ code, mainExit recording.ran.outcome = some (.ok code) → code = 0 := by
  intro cap before after halted
  have hrecord := record_of_main hparse hmain
  obtain ⟨-, hdecision, hstore, env, hran⟩ := record_ok hrecord
  obtain ⟨hbefore, hcounted, hfollows⟩ := path_of_record hrecord
  have hwired : recording.runner.Wired := ⟨hdecision, hhooks⟩
  refine ⟨?_, accounted_of_record hrecord, fun hcap => ?_, fun code hcode => ?_⟩
  · rw [hran]
    exact AgentRunner.observes_runForever hwired eventStore env n recording.start
  · obtain ⟨limit, hlimit⟩ := Int.eq_ofNat_of_zero_le (by omega : 0 ≤ cap)
    have hstart : recording.start.Within cap (max limit before.rowCount) :=
      ⟨hcounted, by rw [hstore]; exact orNone_of_one_le hcap,
        by rw [hbefore]; exact le_max_right _ _⟩
    have hend := (StoreWorld.within_path hcap (by push_cast; omega) hfollows hstart).rows
    have hrows : (after.rowCount : ℤ) ≤ (max limit before.rowCount + halted : ℕ) := by
      exact_mod_cast hend
    push_cast at hrows
    rwa [hlimit]
  · rw [hran] at hcode
    exact code_of_mainExit hcode

/-- Root's machine, with a new database wherever one is named. -/
def plainMachine : Machine where
  conv := ⟨fun _ => none, fun text => if text = str "1" then some 1 else none, fun _ => false⟩
  config := AgentRunner.enforcingConfig
  eventDbPath := str "/var/lib/ebabf/events.db"
  databases _ := Db.empty
  build := AgentRunner.plainBuild
  readings _ := EventStore.envWithFree none
  downtime := .ok none
  stop := some 5

theorem main_records_capped : ∃ recording,
    plainMachine.main [str "--max-events", str "1", str "baseline"] 4 = some (.ok recording) ∧
      (recording.ran.state.store.db.rowCount : ℤ) ≤ 1 + recording.ran.trace.countP isHalted := by
  have hparse : parseMain plainMachine.conv [str "--max-events", str "1", str "baseline"] =
      some (str "baseline", { maxEvents := some 1, db := some (str "baseline.db") }) := rfl
  have hmain : plainMachine.main [str "--max-events", str "1", str "baseline"] 4 =
      some (.ok _) := rfl
  refine ⟨_, hmain, (main_records hparse hmain ?_).2.2.1 le_rfl⟩
  intro c hc sweep o ho
  rw [List.mem_singleton.mp hc] at ho
  rw [List.mem_singleton.mp ho]
  rfl

/-- What `status` prints of the database afterwards: the events and the dropped ones make up all the
rows there have been, and a halt of the recording is named with its reason. -/
theorem status_tells (hrecord : machine.record command args n = .ok recording)
    (status : StatusCommand) {code : ℕ} {text : Str}
    (houtput : status.output false (some recording.ran.state.store.db) = .ok (code, text)) :
    let before := machine.databases (machine.recordingPath command args)
    (∃ stored dropped : ℕ, stored + dropped = before.rowCount + before.droppedEventCount +
        recording.ran.trace.countP isStored + recording.ran.trace.countP isHalted ∧
      HasLine (str "events          " ++ grouped stored) text ∧
      HasLine (droppedLine dropped) text) ∧
    ∀ reason, recording.ran.state.store.haltedReason = some reason →
      HasLine (str "                [storage_halted] " ++ reason) text := by
  intro before
  obtain ⟨-, -, hstore, env, hran⟩ := record_ok hrecord
  have hdeclared : recording.ran.state.store.HaltDeclared := by
    rw [hran]
    exact recording.runner.haltDeclared_runForever env n (by rw [hstore]; rfl)
  constructor
  · exact ⟨_, _, accounted_of_record hrecord, StatusCommand.counts_of_output houtput⟩
  · intro reason hhalted
    exact StatusCommand.declared_of_output hdeclared hhalted houtput

/-- The same with a floor, on a full disk. -/
def fullMachine : Machine :=
  { plainMachine with
    config := { AgentRunner.enforcingConfig with minFreeBytes := 10 ^ 18 }
    readings := fun _ => EventStore.envWithFree (some 0) }

/-- The recording has halted in its first sweep. -/
theorem status_tells_halted : ∃ recording reason text,
    fullMachine.record (str "run") {} 1 = .ok recording ∧
      recording.ran.state.store.haltedReason = some reason ∧
      StatusCommand.plainCommand.output false (some recording.ran.state.store.db) =
        .ok (0, text) ∧
      HasLine (str "                [storage_halted] " ++ reason) text := by
  obtain ⟨recording, hrecord⟩ : ∃ recording, fullMachine.record (str "run") {} 1 =
    .ok recording := ⟨_, rfl⟩
  have hends : (fullMachine.record (str "run") {} 1).map (fun recording =>
      (recording.ran.state.store.db.events.rows,
        recording.ran.state.store.haltedReason.isSome)) =
      .ok ([AgentRunner.recordedRow (str "EVT-1")], true) := rfl
  rw [hrecord] at hends
  obtain ⟨hrows, hhalted⟩ := Prod.mk.inj (Except.ok.inj hends)
  obtain ⟨reason, hreason⟩ := Option.isSome_iff_exists.mp hhalted
  have hstamped : recording.ran.state.store.db.StampedAware := by
    intro row hrow
    rw [hrows] at hrow
    rw [List.mem_singleton.mp hrow]
    exact ⟨Py.Datetime.epoch, by decide, rfl⟩
  obtain ⟨text, houtput⟩ := exists_output StatusCommand.plainCommand_free
    (hrows ▸ List.cons_ne_nil _ _) hstamped
  exact ⟨recording, reason, text, hrecord, hreason, houtput,
    (status_tells hrecord StatusCommand.plainCommand houtput).2 reason hreason⟩

/-- On a database with the same contents a baseline fails to start as `run` would, or goes as it
would. -/
theorem baseline_records_run (machine : Machine) (args : Namespace) (path : Str) (n : ℕ)
    (hdatabase : machine.databases path = machine.databases machine.eventDbPath)
    (hhooks : ∀ run, machine.record (str "run") args n = .ok run →
      ∀ c ∈ run.runner.collectors, ∀ sweep, ∀ o ∈ (c.collect sweep).observations,
        o.around.decideHook = PassThroughDecisionEngine.decideHook) :
    (machine.record (str "baseline") { args with db := some path } n).map Recording.ran =
      (machine.record (str "run") args n).map Recording.ran := by
  -- the two agents are built alike, but for the flag in the enforcement engine
  have hreplaced : machine.config.replaced (str "baseline") { args with db := some path } =
      { machine.config.replaced (str "run") args with enforcementEnabled := false } := rfl
  have hbuild := buildAgent_enforcementEnabled args.only
    { machine.build with db := machine.databases path } (machine.config.replaced (str "run") args)
    false
  rw [← hreplaced, hdatabase] at hbuild
  cases hbuilt : buildAgent args.only
    { machine.build with db := machine.databases machine.eventDbPath }
    (machine.config.replaced (str "run") args) with
  | error e =>
    have hrun : machine.record (str "run") args n = .error e := record_of_error hbuilt n
    rw [hbuilt, ← hdatabase] at hbuild
    have hbaseline : machine.record (str "baseline") { args with db := some path } n =
      .error e := record_of_error hbuild n
    rw [hrun, hbaseline]
  | ok built =>
    have hrun : machine.record (str "run") args n =
      .ok (machine.runBuilt machine.eventDbPath args n built) := record_of_built hbuilt n
    rw [hbuilt, ← hdatabase] at hbuild
    have hbaseline : machine.record (str "baseline") { args with db := some path } n =
      .ok (machine.runBuilt path { args with db := some path } n
        ({ built.1 with enforcement := { built.1.enforcement with enabled := false } }, built.2)) :=
      record_of_built hbuild n
    have hwired : built.1.Wired := ⟨(AgentRunner.buildAgent_ok hbuilt).1, hhooks _ hrun⟩
    rw [hrun, hbaseline]
    exact congrArg Except.ok (AgentRunner.runForever_enforcement eventStore _ hwired _ n _)

theorem baseline_records_run_plain :
    (plainMachine.record (str "baseline") { db := some (str "baseline.db") } 4).map
        Recording.ran =
      (plainMachine.record (str "run") {} 4).map Recording.ran := by
  refine baseline_records_run plainMachine {} (str "baseline.db") 4 rfl ?_
  intro run hrun c hc sweep o ho
  have hplain : plainMachine.record (str "run") {} 4 = .ok _ := rfl
  rw [← Except.ok.inj (hplain.symm.trans hrun)] at hc
  rw [List.mem_singleton.mp hc] at ho
  rw [List.mem_singleton.mp ho]
  rfl

end Machine
end Ebabf
