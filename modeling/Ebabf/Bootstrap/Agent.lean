import Ebabf.Bootstrap.Unit
import Ebabf.Collectors.Registry
import Ebabf.Engine.SwitchCommand
import Ebabf.Runner.Shutdown

/-!
# The agent as it is shipped

`build_agent` wires the runner with the two placeholder engines. Whatever the configuration says,
such an agent reads no kill-switch, acts on nothing, and records every event as logged.
-/

namespace Ebabf

open Py (Str str Exc Fault Proc Ran)

/-- What of the configuration reaches the event store and the runner. -/
structure AgentConfig where
  hostId : Str
  tenantId : Str
  killSwitchPath : Str
  maxStoredEvents : ℤ
  minFreeBytes : ℤ
  enforcementEnabled : Bool
  trustedOwnerUid : ℕ

/-- What `main` replaces in it before it builds an agent. -/
def AgentConfig.replaced (command : Str) (args : Namespace) (config : AgentConfig) : AgentConfig :=
  let config := args.maxEvents.elim config fun n => { config with maxStoredEvents := n }
  if command = str "baseline" then { config with enforcementEnabled := false } else config

/-- What `build_agent` finds: the database, the registry, the platform, the directory of the
sentinel, and what the collectors' context draws on. -/
structure BuildEnv where
  db : Db
  registry : CollectorRegistry
  platform : Str
  switch : SwitchEnv
  sentinel : SentinelFs
  context : CollectorContext

/-- `build_agent`, from the event store on: the runner and the store. -/
def buildAgent (only : Option (List Str)) (env : BuildEnv) (config : AgentConfig) :
    Except Exc (AgentRunner × EventStore) := do
  let eventStore := EventStore.init env.db (some config.maxStoredEvents) (some config.minFreeBytes)
  let context := { env.context with hostId := config.hostId, tenantId := config.tenantId }
  let (collectors, coverage) ← env.registry.buildSupported context env.platform only
  let killSwitch : KillSwitch :=
    { path := config.killSwitchPath, trustedUid := config.trustedOwnerUid }
  (killSwitch.construct env.switch env.sentinel).1
  return ({
    collectors
    decision := PassThroughDecisionEngine.engine
    enforcement :=
      { name := NoOpEnforcementEngine.name
        enabled := config.enforcementEnabled
        killSwitch }
    coverage := some coverage }, eventStore)

/-- What the engine decides: LOG. An event that says it was enforced refuses that decision and is
degraded to it. -/
def decidedFields (f : EventFields) : EventFields :=
  if f.enforced then PassThroughDecisionEngine.engine.degraded f
  else { f with decision := some .log }

/-- What is recorded of an event: the decision, and that it asked for no action. -/
def passedThrough (f : EventFields) : EventFields :=
  { decidedFields f with
    enforced := false
    enforcementBlockedReason := some .noActionRequired }

theorem decision_decidedFields (f : EventFields) : (decidedFields f).decision = some .log := by
  unfold decidedFields
  split_ifs <;> rfl

theorem decide_passThrough (event : Event) : ∃ outcome,
    PassThroughDecisionEngine.engine.decide PassThroughDecisionEngine.decideHook event =
      .ok outcome ∧ outcome.event.fields = decidedFields event.fields := by
  cases henforced : event.fields.enforced with
  | false =>
    have hadmissible : { event.fields with decision := some Decision.log }.Admissible :=
      { event.admissible with
        enforced := fun h => absurd (henforced.symm.trans h) Bool.false_ne_true }
    refine ⟨⟨⟨_, hadmissible⟩⟩, ?_, ?_⟩
    · refine DecisionEngine.decide_of_ok _ ?_
      rw [PassThroughDecisionEngine.decideHook, Event.enriched,
        Event.make_of_admissible hadmissible]
    · rw [decidedFields, if_neg (by rw [henforced]; exact Bool.false_ne_true)]
  | true =>
    have hrefused : ∃ fault, PassThroughDecisionEngine.decideHook event = .error fault := by
      unfold PassThroughDecisionEngine.decideHook
      cases hmake : event.enriched fun f => { f with decision := some .log } with
      | error e => exact ⟨e.toFault, rfl⟩
      | ok logged =>
        have hfields := Event.fields_of_make hmake
        obtain ⟨⟨d, hd, hrequires⟩, -⟩ :=
          logged.admissible.enforced (by rw [hfields]; exact henforced)
        rw [hfields] at hd
        cases hd
        cases hrequires
    obtain ⟨fault, hfault⟩ := hrefused
    obtain ⟨outcome, houtcome, hfields⟩ := DecisionEngine.decide_of_error _ hfault
    refine ⟨outcome, houtcome, ?_⟩
    rw [hfields, decidedFields, if_pos henforced]

namespace AgentRunner

theorem decide_idle {runner : AgentRunner} {o : Observation}
    (hdecision : runner.decision = PassThroughDecisionEngine.engine)
    (hhook : o.around.decideHook = PassThroughDecisionEngine.decideHook) :
    ∃ outcome, runner.decision.decide o.around.decideHook o.event = .ok outcome ∧
      outcome.event.fields = decidedFields o.event.fields ∧ outcome.actionRequired = false := by
  obtain ⟨outcome, houtcome, hfields⟩ := decide_passThrough o.event
  rw [← hdecision, ← hhook] at houtcome
  refine ⟨outcome, houtcome, hfields, ?_⟩
  rw [DecisionOutcome.actionRequired, hfields, decision_decidedFields]
  rfl

theorem enforce_idle (engine : EnforcementEngine) (around : Surroundings)
    {outcome : DecisionOutcome} (h : outcome.actionRequired = false) :
    engine.enforce around outcome =
      pure (.blocked .noActionRequired (str "decision asks for no enforcement action")) := by
  unfold EnforcementEngine.enforce
  rw [h]
  rfl

theorem process_passThrough {runner : AgentRunner} {o : Observation}
    (hdecision : runner.decision = PassThroughDecisionEngine.engine)
    (hhook : o.around.decideHook = PassThroughDecisionEngine.decideHook) :
    ∃ result final, runner.process o () = ⟨.ok (result, final), [], ()⟩ ∧
      final.fields = passedThrough o.event.fields := by
  obtain ⟨outcome, houtcome, hfields, hidle⟩ := decide_idle hdecision hhook
  have henforce := enforce_idle runner.enforcement o.around hidle
  have hfits : (EnforcementResult.blocked .noActionRequired
      (str "decision asks for no enforcement action")).Fits outcome.event :=
    fun h => absurd h Bool.false_ne_true
  refine ⟨.blocked .noActionRequired (str "decision asks for no enforcement action"),
    ⟨_, EnforcementResult.admissible_applied hfits⟩, ?_, ?_⟩
  · rw [process_eq houtcome, henforce, Proc.bind_of_ok rfl,
      EnforcementResult.applyTo_of_fits hfits]
    rfl
  · show EnforcementResult.applied _ outcome.event.fields = _
    rw [hfields]
    rfl

/-- Every event its collectors yield meets the hook of the pass-through engine. -/
def Wired (runner : AgentRunner) : Prop :=
  runner.decision = PassThroughDecisionEngine.engine ∧
    ∀ c ∈ runner.collectors, ∀ sweep, ∀ o ∈ (c.collect sweep).observations,
      o.around.decideHook = PassThroughDecisionEngine.decideHook

/-- A call that acts on nothing, and records nothing but what a collector yielded, passed
through. -/
def Observes (runner : AgentRunner) : Action → Prop
  | .switchRead _ | .enforceInvoked _ _ => False
  | .append final _ => ∃ c ∈ runner.collectors, ∃ sweep, ∃ o ∈ (c.collect sweep).observations,
    final.fields = passedThrough o.event.fields
  | .downtimeChecked _ | .sweepStarted _ | .collectorClosed _ => True

variable {σ : Type} {runner started : AgentRunner} {store : Store σ}

theorem decision_of_start {platform : Str} {s : σ}
    (h : (runner.start store platform s).outcome = .ok started) :
    started.decision = runner.decision := by
  unfold start at h
  split_ifs at h
  · cases h
    rfl
  · cases hall : startAll runner.collectors with
    | error e =>
      rw [hall, Proc.lift_error_bind] at h
      cases h
    | ok answer =>
      rw [hall, Proc.lift_ok_bind] at h
      rw [← Except.ok.inj h]
      dsimp only
      split_ifs <;> rfl

theorem running_subset (runner : AgentRunner) : runner.running ⊆ runner.collectors := by
  unfold running
  split_ifs
  · exact List.Subset.refl _
  · exact List.filter_sublist.subset

theorem emits_observes (hwired : runner.Wired)
    (hdecision : started.decision = runner.decision)
    (hcollectors : started.collectors ⊆ runner.collectors) (sweep : ℕ) :
    Proc.Emits runner.Observes (started.sweepOnce store sweep) := by
  refine emits_sweepCollectors (fun c hc o ho => ?_) {}
  have hhook := hwired.2 c (hcollectors hc) sweep o ho
  obtain ⟨result, final, hprocess, hfields⟩ :=
    process_passThrough (hdecision.trans hwired.1) hhook
  refine emits_handle ?_ fun result' final' answer hok => ?_
  · rw [hprocess]
    simp
  · rw [hprocess] at hok
    cases hok
    exact ⟨c, hcollectors hc, sweep, o, ho, hfields⟩

theorem buildAgent_ok {only : Option (List Str)} {env : BuildEnv} {config : AgentConfig}
    {eventStore : EventStore} (h : buildAgent only env config = .ok (runner, eventStore)) :
    runner.decision = PassThroughDecisionEngine.engine ∧
      eventStore = .init env.db (some config.maxStoredEvents) (some config.minFreeBytes) := by
  unfold buildAgent at h
  obtain ⟨⟨collectors, coverage⟩, -, h⟩ := Py.bind_eq_ok.mp h
  obtain ⟨-, -, h⟩ := Py.bind_eq_ok.mp h
  cases h
  exact ⟨rfl, rfl⟩

theorem observes_runForever (hwired : runner.Wired) (store : Store σ) (env : RunEnv) (n : ℕ)
    (s : σ) : ∀ action ∈ (runner.runForever store env n s).trace, runner.Observes action := by
  refine emits_runForever (fun action hown => ?_) (fun started s hstart => ?_) n s
  · cases action with
    | switchRead | enforceInvoked | append => exact absurd trivial hown
    | downtimeChecked | sweepStarted | collectorClosed => trivial
  · have hcollectors := (runner.start_ok_iff store env.platform s).2 started hstart
    refine emits_observes hwired (decision_of_start hstart) ?_
    rw [hcollectors]
    exact runner.running_subset

/-- In every run of an agent as `build_agent` wires it, whatever the configuration, the sentinel
and the store, the kill-switch is not read, nothing is enforced, and what is appended are events
its collectors yielded, decided as LOG. None of these events can end the run. -/
theorem buildAgent_observes {only : Option (List Str)} {built : BuildEnv} {config : AgentConfig}
    {eventStore : EventStore} (hbuilt : buildAgent only built config = .ok (runner, eventStore))
    (hhooks : ∀ c ∈ runner.collectors, ∀ sweep, ∀ o ∈ (c.collect sweep).observations,
      o.around.decideHook = PassThroughDecisionEngine.decideHook)
    (store : Store σ) (env : RunEnv) (n : ℕ) (s : σ) :
    (∀ action ∈ (runner.runForever store env n s).trace, runner.Observes action) ∧
      ∀ c ∈ runner.collectors, ∀ sweep, ∀ o ∈ (c.collect sweep).observations,
        ¬runner.Poisoned o := by
  have hwired : runner.Wired := ⟨(buildAgent_ok hbuilt).1, hhooks⟩
  refine ⟨observes_runForever hwired store env n s, ?_⟩
  intro c hc sweep o ho hpoisoned
  obtain ⟨result, final, hprocess, -⟩ := process_passThrough hwired.1 (hhooks c hc sweep o ho)
  obtain ⟨e, he, -⟩ := process_of_poisoned hpoisoned
  rw [hprocess] at he
  cases he

/-- A class whose collector yields one plain event a sweep. -/
def plainType : CollectorType where
  ident := 0
  name := str "process"
  isSupported := .ok true
  supportReason := .ok none
  construct _ := .ok plainCollector
  named := by
    intro context collector h
    cases h
    rfl

/-- Root's machine, with that class and an empty database. -/
def plainBuild : BuildEnv where
  db := Db.empty
  registry := ⟨⟨[(str "process", plainType)], by decide⟩, by
    intro entry hentry
    rw [List.mem_singleton.mp hentry]
    rfl⟩
  platform := str "Linux"
  switch := rootEnv
  sentinel := ⟨none, none⟩
  context := oneContext

/-- With enforcement on. -/
def enforcingConfig : AgentConfig where
  hostId := str "host"
  tenantId := str "default"
  killSwitchPath := str "/etc/ebabf/KILL_SWITCH"
  maxStoredEvents := 1000
  minFreeBytes := 0
  enforcementEnabled := true
  trustedOwnerUid := 0

theorem buildAgent_observes_plain : ∃ runner eventStore,
    buildAgent none plainBuild enforcingConfig = .ok (runner, eventStore) ∧
      runner.enforcement.enabled = true ∧
      ∀ action ∈ (runner.runForever Ebabf.eventStore quietEnv 3 fullDisk).trace,
        runner.Observes action := by
  have hbuilt : buildAgent none plainBuild enforcingConfig = .ok (_, _) := rfl
  refine ⟨_, _, hbuilt, rfl, (buildAgent_observes hbuilt ?_ _ _ _ _).1⟩
  intro c hc sweep o ho
  rw [List.mem_singleton.mp hc] at ho
  rw [List.mem_singleton.mp ho]
  rfl

end AgentRunner
end Ebabf
