import Ebabf.Engine.Decision
import Ebabf.Engine.KillSwitch

/-!
# The enforcement engine

`enforce` acts on a decision only after its checks, the last of which reads the kill-switch. A
result is enforced or carries a reason, and writing it onto the event never fails.
-/

namespace Ebabf

open Py (Str str Exc Fault Proc valueError)

/-- What enforcement did, or why it did nothing. -/
structure EnforcementResult where
  enforced : Bool
  blockedReason : Option EnforcementBlockedReason
  detail : Option Str := none
  truthful : blockedReason = none ↔ enforced = true

namespace EnforcementResult

/-- The constructor with its checks. -/
def make (enforced : Bool) (blockedReason : Option EnforcementBlockedReason)
    (detail : Option Str) : Except Exc EnforcementResult :=
  match enforced, blockedReason with
  | true, some _ => .error (valueError (str "an action cannot be both enforced and blocked"))
  | false, none => .error (valueError (str
      "not enforcing requires a reason; silence hides outages"))
  | true, none => .ok ⟨true, none, detail, by simp⟩
  | false, some reason => .ok ⟨false, some reason, detail, by simp⟩

/-- A result that did nothing. -/
def blocked (reason : EnforcementBlockedReason) (detail : Str) : EnforcementResult :=
  ⟨false, some reason, some detail, by simp⟩

/-- `apply_to`: the changes. -/
def applied (result : EnforcementResult) (f : EventFields) : EventFields :=
  { f with
    enforced := result.enforced
    enforcementBlockedReason := result.blockedReason }

def applyTo (result : EnforcementResult) (event : Event) : Except Exc Event :=
  event.enriched result.applied

/-- A result fits an event if it enforced only what the event's decision asks for. -/
def Fits (result : EnforcementResult) (event : Event) : Prop :=
  result.enforced = true → ∃ d ∈ event.fields.decision, d.requiresEnforcement = true

theorem admissible_applied {result : EnforcementResult} {event : Event} (h : result.Fits event) :
    (result.applied event.fields).Admissible :=
  { event.admissible with
    enforced := fun henforced => ⟨h henforced, result.truthful.mpr henforced⟩ }

theorem applyTo_of_fits {result : EnforcementResult} {event : Event} (h : result.Fits event) :
    result.applyTo event = .ok ⟨_, admissible_applied h⟩ :=
  Event.make_of_admissible _

end EnforcementResult

/-- The calls of the agent that others can see, with their answers. -/
inductive Action
  /-- `is_engaged` on the kill-switch -/
  | switchRead (engaged : Except Exc Bool)
  /-- the subclass's `_enforce` -/
  | enforceInvoked (outcome : DecisionOutcome) (answer : Except Fault EnforcementResult)
  /-- `append` on the store -/
  | append (event : Event) (answer : Except Exc Event)
  /-- `detect_downtime` on the store -/
  | downtimeChecked (answer : Except Exc Unit)
  | sweepStarted (sweep : ℕ)
  | collectorClosed (name : Str)

/-- A subclass's `_enforce`, on one call. -/
abbrev EnforceHook := DecisionOutcome → Except Fault EnforcementResult

structure EnforcementEngine where
  name : Str := str "enforcement_engine"
  enabled : Bool
  killSwitch : KillSwitch

/-- What one call reaches outside the engines: their hooks, and the file system at the moment the
kill-switch is read. -/
structure Surroundings where
  decideHook : DecideHook
  enforceHook : EnforceHook
  view : SentinelView
  recursionLimit : ℕ

namespace EnforcementEngine

def readSwitch (engine : EnforcementEngine) (around : Surroundings) : Proc Action Unit Bool := do
  let engaged := engine.killSwitch.isEngaged around.recursionLimit around.view
  Proc.emit (.switchRead engaged)
  Proc.lift engaged

/-- The `try` around the hook, whose handler formats the exception. -/
def failOpen : Except Fault EnforcementResult → Except Exc EnforcementResult
  | .ok result => .ok result
  | .error fault => fault.describe.map fun description =>
    .blocked .failOpen (str "internal fault: " ++ description)

/-- `enforce`: the kill-switch is read outside the `try`. -/
def enforce (engine : EnforcementEngine) (around : Surroundings) (outcome : DecisionOutcome) :
    Proc Action Unit EnforcementResult := do
  if !outcome.actionRequired then
    return .blocked .noActionRequired (str "decision asks for no enforcement action")
  if !engine.enabled then
    return .blocked .enforcementDisabled (str "enforcement disabled by configuration")
  if ← engine.readSwitch around then
    return .blocked .killSwitchActive (str "kill-switch engaged")
  Proc.emit (.enforceInvoked outcome (around.enforceHook outcome))
  Proc.lift (failOpen (around.enforceHook outcome))

variable {engine : EnforcementEngine} {around : Surroundings} {outcome : DecisionOutcome}

/-- The decision asks for an action and the configuration allows it. -/
def Permits (engine : EnforcementEngine) (outcome : DecisionOutcome) : Prop :=
  outcome.actionRequired = true ∧ engine.enabled = true

/-- Where `enforce` raises: a trusted sentinel whose contents are not harmless, or a hook whose
exception has no text. -/
def Fails (engine : EnforcementEngine) (around : Surroundings) (outcome : DecisionOutcome) : Prop :=
  engine.Permits outcome ∧
    (engine.killSwitch.Trusted around.view ∧
        ¬KillSwitch.Harmless around.recursionLimit around.view.contents ∨
      ¬engine.killSwitch.Trusted around.view ∧
        ∃ fault, around.enforceHook outcome = .error fault ∧ fault.text = none)

theorem enforce_of_not_permits (around : Surroundings) (h : ¬engine.Permits outcome) : ∃ reason detail,
    engine.enforce around outcome () = ⟨.ok (.blocked reason detail), [], ()⟩ := by
  unfold enforce
  by_cases haction : outcome.actionRequired = true
  · have henabled : engine.enabled = false := by
      rw [Permits, not_and] at h
      exact Bool.eq_false_iff.mpr (h haction)
    simp only [haction, henabled, Bool.not_true, Bool.not_false, Bool.false_eq_true, ↓reduceIte]
    exact ⟨_, _, rfl⟩
  · simp only [Bool.eq_false_iff.mpr haction, Bool.not_false, ↓reduceIte]
    exact ⟨_, _, rfl⟩

theorem readSwitch_apply : engine.readSwitch around () =
    ⟨engine.killSwitch.isEngaged around.recursionLimit around.view,
      [.switchRead (engine.killSwitch.isEngaged around.recursionLimit around.view)], ()⟩ := rfl

theorem enforce_of_permits (h : engine.Permits outcome) :
    engine.enforce around outcome = (engine.readSwitch around >>= fun engaged =>
      if engaged = true then return .blocked .killSwitchActive (str "kill-switch engaged")
      else do
        Proc.emit (.enforceInvoked outcome (around.enforceHook outcome))
        Proc.lift (failOpen (around.enforceHook outcome))) := by
  unfold enforce
  simp only [h.1, h.2, Bool.not_true, Bool.false_eq_true, ↓reduceIte]

theorem enforce_of_switch_error (h : engine.Permits outcome) {e : Exc}
    (he : engine.killSwitch.isEngaged around.recursionLimit around.view = .error e) :
    engine.enforce around outcome () = ⟨.error e, [.switchRead (.error e)], ()⟩ := by
  rw [enforce_of_permits h, Proc.bind_of_error (by rw [readSwitch_apply, he]), readSwitch_apply, he]

theorem enforce_of_engaged (h : engine.Permits outcome)
    (hengaged : engine.killSwitch.isEngaged around.recursionLimit around.view = .ok true) :
    engine.enforce around outcome () =
      ⟨.ok (.blocked .killSwitchActive (str "kill-switch engaged")), [.switchRead (.ok true)], ()⟩ := by
  rw [enforce_of_permits h, Proc.bind_of_ok (by rw [readSwitch_apply, hengaged]), readSwitch_apply,
    hengaged]
  rfl

theorem enforce_of_released (h : engine.Permits outcome)
    (hreleased : engine.killSwitch.isEngaged around.recursionLimit around.view = .ok false) :
    engine.enforce around outcome () =
      ⟨failOpen (around.enforceHook outcome),
        [.switchRead (.ok false), .enforceInvoked outcome (around.enforceHook outcome)], ()⟩ := by
  rw [enforce_of_permits h, Proc.bind_of_ok (by rw [readSwitch_apply, hreleased]),
    readSwitch_apply, hreleased]
  rfl

/-- What a trace shows when something was enforced. -/
structure Authorizes (engine : EnforcementEngine) (outcome : DecisionOutcome)
    (result : EnforcementResult) (trace : List Action) : Prop where
  permitted : engine.Permits outcome
  released : .switchRead (.ok false) ∈ trace
  invoked : .enforceInvoked outcome (.ok result) ∈ trace

/-- Exceptions that come from reading the switch or from formatting an exception. -/
def Escapes (e : Exc) : Prop :=
  e.type = .attributeError ∨ e.type = .recursionError ∨ e.type = .typeError

theorem enforce_of_fails (h : engine.Fails around outcome) :
    ∃ e, (engine.enforce around outcome ()).outcome = .error e ∧ Escapes e := by
  obtain ⟨hpermits, ⟨htrusted, hharmful⟩ | ⟨huntrusted, fault, hfault, htext⟩⟩ := h
  · obtain ⟨e, he, htype⟩ := KillSwitch.isEngaged_of_harmful htrusted hharmful
    rw [enforce_of_switch_error hpermits he]
    exact ⟨e, rfl, htype.imp_right .inl⟩
  · rw [enforce_of_released hpermits (KillSwitch.isEngaged_of_not_trusted huntrusted _), hfault]
    cases hdescribe : fault.describe with
    | ok text => exact absurd htext (fault.describe_ok_iff.mp ⟨text, hdescribe⟩)
    | error e =>
      refine ⟨e, ?_, .inr (.inr (Fault.type_of_describe_error hdescribe))⟩
      rw [failOpen, hdescribe]
      rfl

theorem enforce_of_not_fails (h : ¬engine.Fails around outcome) :
    ∃ result, (engine.enforce around outcome ()).outcome = .ok result ∧
      (result.enforced = true →
        engine.Authorizes outcome result (engine.enforce around outcome ()).trace) := by
  by_cases hpermits : engine.Permits outcome
  · by_cases htrusted : engine.killSwitch.Trusted around.view
    · have hharmless : KillSwitch.Harmless around.recursionLimit around.view.contents := by
        by_contra hharmful
        exact h ⟨hpermits, .inl ⟨htrusted, hharmful⟩⟩
      rw [enforce_of_engaged hpermits (KillSwitch.isEngaged_of_harmless htrusted hharmless)]
      exact ⟨_, rfl, fun henforced => (nomatch henforced)⟩
    · rw [enforce_of_released hpermits (KillSwitch.isEngaged_of_not_trusted htrusted _)]
      cases hhook : around.enforceHook outcome with
      | ok result => exact ⟨result, rfl, fun _ => ⟨hpermits, by simp, by simp⟩⟩
      | error fault =>
        obtain ⟨text, htext⟩ := fault.describe_ok_iff.mpr fun htext =>
          h ⟨hpermits, .inr ⟨htrusted, fault, hhook, htext⟩⟩
        rw [failOpen, htext]
        exact ⟨_, rfl, fun henforced => (nomatch henforced)⟩
  · obtain ⟨reason, detail, henforce⟩ := enforce_of_not_permits around hpermits
    rw [henforce]
    exact ⟨_, rfl, fun henforced => (nomatch henforced)⟩

/-- `enforce` makes calls of its own kinds only. -/
theorem enforce_trace : ∀ action ∈ (engine.enforce around outcome ()).trace,
    (∃ engaged, action = .switchRead engaged) ∨
      ∃ outcome answer, action = .enforceInvoked outcome answer := by
  by_cases hpermits : engine.Permits outcome
  · cases hengaged : engine.killSwitch.isEngaged around.recursionLimit around.view with
    | error e =>
      rw [enforce_of_switch_error hpermits hengaged]
      simp
    | ok engaged =>
      cases engaged with
      | true =>
        rw [enforce_of_engaged hpermits hengaged]
        simp
      | false =>
        rw [enforce_of_released hpermits hengaged]
        simp
  · obtain ⟨reason, detail, henforce⟩ := enforce_of_not_permits around hpermits
    rw [henforce]
    simp

end EnforcementEngine

namespace NoOpEnforcementEngine

def name : Str := str "noop"

/-- `_enforce` -/
def enforceHook : EnforceHook := fun outcome =>
  .ok (.blocked .notSupported (str "no enforcer implements " ++
    (outcome.event.fields.decision.map Decision.value).getD (str "unknown") ++ str " yet"))

end NoOpEnforcementEngine
end Ebabf
