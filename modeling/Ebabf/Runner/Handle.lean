import Ebabf.Engine.Enforcement

/-!
# Handling one event

`_handle` decides, enforces and records, in that order. The store may do anything; the event gets
to it unless `enforce` raises.
-/

namespace Ebabf

open Py (Str str Exc Fault Proc Ran)

/-- What the runner uses of a store whose states are `σ`. -/
structure Store (σ : Type) where
  append : Event → σ → Except Exc Event × σ
  detectDowntime : σ → Except Exc Unit × σ

/-- An event a collector yielded, with what its handling meets. -/
structure Observation where
  event : Event
  around : Surroundings

/-- One `collect()`: what it yields, and what it raises after that, if it does. -/
structure Collected where
  observations : List Observation
  fault : Option Fault

/-- A collector; `collect` is what it does in the given sweep. -/
structure Collector where
  name : Str
  start : Except Fault Unit := .ok ()
  collect : ℕ → Collected
  close : Except Fault Unit := .ok ()

structure CoverageReport where
  platform : Str
  active : List Str
  unavailable : List (Str × Str)

structure AgentRunner where
  collectors : List Collector
  decision : DecisionEngine
  enforcement : EnforcementEngine
  coverage : Option CoverageReport := none
  started : Bool := false

namespace AgentRunner

variable {σ : Type}

/-- Both engines on one event: what was enforced, and the event to record. -/
def process (runner : AgentRunner) (o : Observation) :
    Proc Action Unit (EnforcementResult × Event) := do
  let outcome ← Proc.lift (runner.decision.decide o.around.decideHook o.event)
  let result ← runner.enforcement.enforce o.around outcome
  let final ← Proc.lift (result.applyTo outcome.event)
  return (result, final)

def record (store : Store σ) (final : Event) : Proc Action σ Event := fun s =>
  ⟨(store.append final s).1, [.append final (store.append final s).1], (store.append final s).2⟩

/-- `_handle`: only the append is inside a `try`. -/
def handle (runner : AgentRunner) (store : Store σ) (o : Observation) :
    Proc Action σ (Bool × Bool) := do
  let (result, final) ← (runner.process o).anywhere
  match ← (record store final).attempt with
  | .error _ => return (false, result.enforced)
  | .ok _ => return (true, result.enforced)

/-- The observations whose handling raises: the hook's own decision is enforced, and `enforce`
fails on it. -/
def Poisoned (runner : AgentRunner) (o : Observation) : Prop :=
  ∃ outcome, o.around.decideHook o.event = .ok outcome ∧
    runner.enforcement.Fails o.around outcome

theorem poisoned_iff (runner : AgentRunner) (o : Observation) {outcome : DecisionOutcome}
    (h : runner.decision.decide o.around.decideHook o.event = .ok outcome) :
    runner.Poisoned o ↔ runner.enforcement.Fails o.around outcome := by
  constructor
  · rintro ⟨outcome', hhook, hfails⟩
    have hdecide := (runner.decision.decide_actionRequired_iff o.around.decideHook o.event
      outcome').mpr ⟨hhook, hfails.1.1⟩
    rw [h, Except.ok.injEq] at hdecide
    rw [hdecide.1]
    exact hfails
  · intro hfails
    exact ⟨outcome, ((runner.decision.decide_actionRequired_iff o.around.decideHook o.event
      outcome).mp ⟨h, hfails.1.1⟩).1, hfails⟩

/-- What a trace shows when the recorded event says that something was enforced. -/
structure Justifies (runner : AgentRunner) (final : Event) (trace : List Action) : Prop where
  invoked : ∃ outcome result, .enforceInvoked outcome (.ok result) ∈ trace ∧ result.enforced = true
  asked : ∃ d ∈ final.fields.decision, d.requiresEnforcement = true
  enabled : runner.enforcement.enabled = true
  released : .switchRead (.ok false) ∈ trace

theorem exists_requiresEnforcement {outcome : DecisionOutcome}
    (h : outcome.actionRequired = true) :
    ∃ d ∈ outcome.event.fields.decision, d.requiresEnforcement = true := by
  rw [DecisionOutcome.actionRequired, Option.any_eq_true] at h
  exact h

theorem process_eq {runner : AgentRunner} {o : Observation} {outcome : DecisionOutcome}
    (h : runner.decision.decide o.around.decideHook o.event = .ok outcome) :
    runner.process o = (do
      let result ← runner.enforcement.enforce o.around outcome
      let final ← Proc.lift (result.applyTo outcome.event)
      return (result, final)) := by
  funext s
  unfold process
  rw [h]
  exact Proc.bind_of_ok rfl

theorem process_of_poisoned {runner : AgentRunner} {o : Observation} (h : runner.Poisoned o) :
    ∃ e, (runner.process o ()).outcome = .error e ∧ EnforcementEngine.Escapes e := by
  obtain ⟨outcome, hdecide⟩ := runner.decision.decide_ok o.around.decideHook o.event
  obtain ⟨e, he, hescapes⟩ :=
    EnforcementEngine.enforce_of_fails ((runner.poisoned_iff o hdecide).mp h)
  rw [process_eq hdecide, Proc.bind_of_error he]
  exact ⟨e, rfl, hescapes⟩

theorem process_of_not_poisoned {runner : AgentRunner} {o : Observation}
    (h : ¬runner.Poisoned o) : ∃ result final,
      (runner.process o ()).outcome = .ok (result, final) ∧
      final.fields.enforced = result.enforced ∧
      final.fields.enforcementBlockedReason = result.blockedReason ∧
      (result.enforced = true → runner.Justifies final (runner.process o ()).trace) := by
  obtain ⟨outcome, hdecide⟩ := runner.decision.decide_ok o.around.decideHook o.event
  rw [runner.poisoned_iff o hdecide] at h
  obtain ⟨result, hresult, hauthorizes⟩ := EnforcementEngine.enforce_of_not_fails h
  have hfits : result.Fits outcome.event := fun henforced =>
    exists_requiresEnforcement (hauthorizes henforced).permitted.1
  refine ⟨result, ⟨_, EnforcementResult.admissible_applied hfits⟩, ?_, rfl, rfl, ?_⟩
  · rw [process_eq hdecide, Proc.bind_of_ok hresult, EnforcementResult.applyTo_of_fits hfits]
    rfl
  · intro henforced
    have htrace : (runner.process o ()).trace =
        (runner.enforcement.enforce o.around outcome ()).trace := by
      rw [process_eq hdecide, Proc.bind_of_ok hresult, EnforcementResult.applyTo_of_fits hfits]
      exact List.append_nil _
    obtain ⟨hpermits, hreleased, hinvoked⟩ := hauthorizes henforced
    rw [htrace]
    exact ⟨⟨outcome, result, hinvoked, henforced⟩, hfits henforced, hpermits.2, hreleased⟩

theorem process_trace (runner : AgentRunner) (o : Observation) :
    ∀ action ∈ (runner.process o ()).trace, (∃ engaged, action = .switchRead engaged) ∨
      ∃ outcome answer, action = .enforceInvoked outcome answer := by
  obtain ⟨outcome, hdecide⟩ := runner.decision.decide_ok o.around.decideHook o.event
  rw [process_eq hdecide]
  rcases Proc.bind_cases (runner.enforcement.enforce o.around outcome) (fun result => do
      let final ← Proc.lift (result.applyTo outcome.event)
      return (result, final)) () with ⟨e, -, hbind⟩ | ⟨result, -, hbind⟩
  · rw [hbind]
    exact EnforcementEngine.enforce_trace
  · have hquiet : ((do
        let final ← Proc.lift (result.applyTo outcome.event)
        return (result, final) : Proc Action Unit (EnforcementResult × Event)) ()).trace = [] := by
      cases result.applyTo outcome.event <;> rfl
    rw [hbind, hquiet, List.append_nil]
    exact EnforcementEngine.enforce_trace

variable (store : Store σ)

theorem handle_of_poisoned {runner : AgentRunner} {o : Observation} (h : runner.Poisoned o)
    (s : σ) : ∃ e, (runner.handle store o s).outcome = .error e ∧
      EnforcementEngine.Escapes e := by
  obtain ⟨e, he, hescapes⟩ := process_of_poisoned h
  unfold handle
  rw [Proc.bind_of_error (s := s) he]
  exact ⟨e, rfl, hescapes⟩

theorem handle_of_ok {runner : AgentRunner} {o : Observation} {result : EnforcementResult}
    {final : Event} (h : (runner.process o ()).outcome = .ok (result, final)) (s : σ) :
    runner.handle store o s = ⟨.ok ((store.append final s).1.isOk, result.enforced),
      (runner.process o ()).trace ++ [.append final (store.append final s).1],
      (store.append final s).2⟩ := by
  unfold handle
  rw [Proc.bind_of_ok (s := s) h]
  dsimp only
  rw [Proc.bind_of_ok rfl]
  simp only [Proc.attempt_apply, Proc.anywhere_apply, record]
  cases (store.append final s).1 with
  | error e => rfl
  | ok stamped => rfl

/-- One call of `_handle` returns, appends exactly one event, and that event is truthful. -/
structure Recorded (runner : AgentRunner) (ran : Ran Action σ (Bool × Bool)) : Prop where
  returns : ∃ answer, ran.outcome = .ok answer
  appends : ∃ calls final answer, ran.trace = calls ++ [.append final answer] ∧
    (∀ event answer, .append event answer ∉ calls) ∧
    (final.fields.enforced = true → runner.Justifies final calls) ∧
    (final.fields.enforcementBlockedReason ≠ none ↔ final.fields.enforced = false)

theorem append_notMem_process (runner : AgentRunner) (o : Observation) (event : Event)
    (answer : Except Exc Event) : .append event answer ∉ (runner.process o ()).trace := by
  intro h
  rcases runner.process_trace o _ h with ⟨engaged, heq⟩ | ⟨outcome, answer', heq⟩
  · cases heq
  · cases heq

theorem recorded_of_not_poisoned {runner : AgentRunner} {o : Observation}
    (h : ¬runner.Poisoned o) (s : σ) : runner.Recorded (runner.handle store o s) := by
  obtain ⟨result, final, hprocess, henforced, hreason, hjustifies⟩ := process_of_not_poisoned h
  rw [handle_of_ok store hprocess]
  refine ⟨⟨_, rfl⟩, _, final, _, rfl, runner.append_notMem_process o, ?_, ?_⟩
  · intro hfinal
    exact hjustifies (henforced.symm.trans hfinal)
  · rw [hreason, henforced, Ne, result.truthful, Bool.not_eq_true]

/-- An event is recorded, whatever the store does, exactly when its handling is not poisoned: the
decision that asks for an action, in an engine that is enabled, meets neither a trusted sentinel
that is not harmless nor a hook whose exception has no text. -/
theorem handle_recorded_iff (runner : AgentRunner) (store : Store σ) (o : Observation) (s : σ) :
    runner.Recorded (runner.handle store o s) ↔ ¬runner.Poisoned o := by
  constructor
  · rintro ⟨⟨answer, hanswer⟩, -⟩ hpoisoned
    obtain ⟨e, he, -⟩ := handle_of_poisoned store hpoisoned s
    rw [he] at hanswer
    cases hanswer
  · exact fun h => recorded_of_not_poisoned store h s

/-- A decision to suspend, on a plain event. -/
def suspended (eventId : Str) (h : Py.strip eventId ≠ []) : Event where
  fields := { (Event.plain eventId h).fields with decision := some .suspend }
  admissible := { (Event.plain eventId h).admissible with
    enforced := by simp [Event.plain] }

/-- An enabled agent of root's. -/
def rootRunner : AgentRunner :=
  { collectors := []
    decision := PassThroughDecisionEngine.engine
    enforcement := { enabled := true, killSwitch := KillSwitch.rootSwitch } }

/-- An event to suspend, while the sentinel holds `[]`. -/
def poisonedObservation : Observation :=
  { event := .plain (str "a") Event.strip_a
    around :=
      { decideHook := fun _ => .ok ⟨suspended (str "a") Event.strip_a⟩
        enforceHook := NoOpEnforcementEngine.enforceHook
        view := KillSwitch.rootView (.ok KillSwitch.emptyListBytes)
        recursionLimit := 1 } }

theorem poisoned_poisonedObservation : rootRunner.Poisoned poisonedObservation := by
  refine ⟨_, rfl, ⟨rfl, rfl⟩, .inl ⟨KillSwitch.trusted_rootView _, ?_⟩⟩
  exact KillSwitch.not_harmless_emptyList

/-- The event is lost when the sentinel holds `[]`, whatever the store. -/
theorem handle_loses_event : ¬∀ (σ : Type) (runner : AgentRunner) (store : Store σ)
    (o : Observation) (s : σ), runner.Recorded (runner.handle store o s) := by
  intro h
  obtain ⟨⟨answer, hanswer⟩, -⟩ :=
    h Unit rootRunner ⟨fun event _ => (.ok event, ()), fun _ => (.ok (), ())⟩ poisonedObservation ()
  obtain ⟨e, he, -⟩ := handle_of_poisoned _ poisoned_poisonedObservation ()
  rw [he] at hanswer
  cases hanswer

end AgentRunner
end Ebabf
