import Ebabf.Py.Proc
import Ebabf.Schema.Event

/-!
# The decision engine

`decide` wraps the subclass's hook. Whatever the hook does, it returns an outcome.
-/

namespace Ebabf

open Py (Str str Exc Fault)

structure DecisionOutcome where
  event : Event

/-- Whether the enforcement engine has anything to do. -/
def DecisionOutcome.actionRequired (outcome : DecisionOutcome) : Bool :=
  outcome.event.fields.decision.any Decision.requiresEnforcement

/-- A subclass's `_decide`, on one call: it may keep a state of its own between calls. -/
abbrev DecideHook := Event → Except Fault DecisionOutcome

structure DecisionEngine where
  name : Str := str "decision_engine"

namespace DecisionEngine

/-- `_degrade`: the changes. -/
def degraded (engine : DecisionEngine) (f : EventFields) : EventFields :=
  { f with
    decision := some .log
    confidence := none
    degradedLayers :=
      if engine.name ∈ f.degradedLayers then f.degradedLayers
      else f.degradedLayers ++ [engine.name]
    enforced := false }

def degrade (engine : DecisionEngine) (event : Event) : Except Exc Event :=
  event.enriched engine.degraded

/-- `decide` -/
def decide (engine : DecisionEngine) (hook : DecideHook) (event : Event) :
    Except Exc DecisionOutcome :=
  match hook event with
  | .ok outcome => .ok outcome
  | .error _ => (engine.degrade event).map DecisionOutcome.mk

theorem admissible_degraded (engine : DecisionEngine) {f : EventFields} (h : f.Admissible) :
    (engine.degraded f).Admissible :=
  { h with
    confidence := by simp [degraded]
    enforced := by simp [degraded] }

theorem degrade_eq (engine : DecisionEngine) (event : Event) :
    engine.degrade event = .ok ⟨_, engine.admissible_degraded event.admissible⟩ :=
  Event.make_of_admissible _

theorem decide_of_ok (engine : DecisionEngine) {hook : DecideHook} {event : Event}
    {outcome : DecisionOutcome} (h : hook event = .ok outcome) :
    engine.decide hook event = .ok outcome := by
  simp only [decide, h]

theorem decide_of_error (engine : DecisionEngine) {hook : DecideHook} {event : Event}
    {fault : Fault} (h : hook event = .error fault) :
    ∃ outcome, engine.decide hook event = .ok outcome ∧
      outcome.event.fields = engine.degraded event.fields := by
  refine ⟨⟨_, engine.admissible_degraded event.admissible⟩, ?_, rfl⟩
  simp only [decide, h, degrade_eq, Except.map]

theorem decide_ok (engine : DecisionEngine) (hook : DecideHook) (event : Event) :
    ∃ outcome, engine.decide hook event = .ok outcome := by
  cases h : hook event with
  | ok outcome => exact ⟨outcome, engine.decide_of_ok h⟩
  | error fault =>
    obtain ⟨outcome, hdecide, -⟩ := engine.decide_of_error h
    exact ⟨outcome, hdecide⟩

/-- An action is asked for exactly when the hook itself returned such an outcome. -/
theorem decide_actionRequired_iff (engine : DecisionEngine) (hook : DecideHook) (event : Event)
    (outcome : DecisionOutcome) :
    (engine.decide hook event = .ok outcome ∧ outcome.actionRequired = true) ↔
      hook event = .ok outcome ∧ outcome.actionRequired = true := by
  cases h : hook event with
  | ok outcome' => simp only [engine.decide_of_ok h, Except.ok.injEq]
  | error fault =>
    obtain ⟨degraded, hdecide, hfields⟩ := engine.decide_of_error h
    rw [hdecide]
    constructor
    · rintro ⟨heq, haction⟩
      cases heq
      rw [DecisionOutcome.actionRequired, hfields] at haction
      exact absurd haction (by simp [DecisionEngine.degraded, Decision.requiresEnforcement])
    · rintro ⟨heq, -⟩
      cases heq

end DecisionEngine

namespace PassThroughDecisionEngine

def engine : DecisionEngine := { name := str "pass_through" }

/-- `_decide`: the decision is LOG, which an event that was enforced refuses. -/
def decideHook : DecideHook := fun event =>
  match event.enriched fun f => { f with decision := some .log } with
  | .ok event => .ok ⟨event⟩
  | .error e => .error e.toFault

end PassThroughDecisionEngine
end Ebabf
