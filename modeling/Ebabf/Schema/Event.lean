import Ebabf.Py.Datetime
import Ebabf.Py.Json
import Ebabf.Schema.Enums
import Mathlib.Tactic.Common

/-!
# The event contract

An event is a record of fields together with the proof that the constructor accepts them; a layer
that enriches an event runs the constructor again. What the constructor accepts is spelled out as
`Admissible`, and the two agree.
-/

namespace Ebabf

open Py (Str str Exc valueError Datetime Json Dict strip floatRepr)

/-- `bool(value)` -/
def isTruthy : Json → Bool
  | .null => false
  | .bool b => b
  | .int n => n != 0
  | .float x => x != 0.0
  | .str s => s != []
  | .arr items => !items.isEmpty
  | .obj members => !members.isEmpty

/-- A value in one of an event's mappings, as far as storing it goes: plain JSON, or something
`json.dumps` raises on. -/
inductive AnyValue
  | json (value : Json)
  | unserializable (type : Str)
  | circular
  | tooDeep

/-- What `json.dumps` makes of a value. -/
def AnyValue.toJson : AnyValue → Except Exc Json
  | .json value =>
    if value.printable then .ok value
    else .error ⟨.valueError, str ("Exceeds the limit (4300 digits) for integer string conversion; " ++
      "use sys.set_int_max_str_digits() to increase the limit")⟩
  | .unserializable type =>
    .error ⟨.typeError, str "Object of type " ++ type ++ str " is not JSON serializable"⟩
  | .circular => .error ⟨.valueError, str "Circular reference detected"⟩
  | .tooDeep => .error ⟨.recursionError, str
      "maximum recursion depth exceeded while encoding a JSON object"⟩

abbrev Mapping := Dict AnyValue

def SCHEMA_VERSION : Str := str "1.0.0"

structure EventFields where
  eventId : Str
  timestamp : Datetime
  hostId : Str
  tenantId : Str
  subjectPseudonym : Str
  source : EventSource
  rawAttributes : Mapping := ∅
  extractedFeatures : Mapping := ∅
  rawScore : Option Float := none
  contextModifier : Option Float := none
  finalScore : Option Float := none
  confidence : Option Float := none
  level : Option RiskLevel := none
  degradedLayers : List Str := []
  triggeredRuleIds : List Str := []
  decision : Option Decision := none
  enforced : Bool := false
  enforcementBlockedReason : Option EnforcementBlockedReason := none
  explanation : Mapping := ∅
  ingestedAt : Option Datetime := none
  schemaVersion : Str := SCHEMA_VERSION

def CONFIDENCE_VERDICT_THRESHOLD : Float := 0.85

def CONFIDENCE_SUSPICION_THRESHOLD : Float := 0.5

/-- `derive_verdict_type` -/
def deriveVerdictType : Option Float → Option VerdictType
  | none => none
  | some confidence =>
    if CONFIDENCE_VERDICT_THRESHOLD ≤ confidence then some .verdict
    else if CONFIDENCE_SUSPICION_THRESHOLD ≤ confidence then some .suspicion
    else some .unverified

def isLowerHex (c : Py.CodePoint) : Bool :=
  (0x30 ≤ c.val && c.val ≤ 0x39) || (0x61 ≤ c.val && c.val ≤ 0x66)

/-- `PSEUDONYM_PATTERN.match`: the pattern's `$` also matches before a final newline. -/
def pseudonymPatternMatches (s : Str) : Bool :=
  s.take 4 == str "USR-" && ((s.drop 4).take 32).length == 32 &&
    ((s.drop 4).take 32).all isLowerHex && (s.drop 36 == [] || s.drop 36 == str "\n")

def requireText (name value : Str) : Except Exc Unit :=
  if strip value = [] then .error (valueError (name ++ str " must be a non-empty string"))
  else .ok ()

def requirePseudonym (value : Str) : Except Exc Unit :=
  if pseudonymPatternMatches value then .ok ()
  else .error (valueError (str ("subject_pseudonym must match USR-<uuid4 hex>; the event schema " ++
    "cannot carry a real identity")))

def requireAware (name : Str) : Option Datetime → Except Exc Unit
  | none => .ok ()
  | some value =>
    if value.utcoffset = none then
      .error (valueError (name ++ str (" must be timezone-aware; a naive timestamp breaks " ++
        "retention (spec 11.2) and temporal splitting (spec 10.4)")))
    else .ok ()

def InUnitInterval (x : Float) : Prop := 0.0 ≤ x ∧ x ≤ 1.0

instance (x : Float) : Decidable (InUnitInterval x) := inferInstanceAs (Decidable (_ ∧ _))

def requireUnitInterval (name : Str) : Option Float → Except Exc Unit
  | none => .ok ()
  | some value =>
    if InUnitInterval value then .ok ()
    else .error (valueError (name ++ str " must be within [0, 1], got " ++ floatRepr value))

def CONTEXT_MODIFIER_MAX : Float := 2.0

def InModifierRange (x : Float) : Prop := 0.0 < x ∧ x ≤ CONTEXT_MODIFIER_MAX

instance (x : Float) : Decidable (InModifierRange x) := inferInstanceAs (Decidable (_ ∧ _))

def requireModifierRange : Option Float → Except Exc Unit
  | none => .ok ()
  | some value =>
    if InModifierRange value then .ok ()
    else .error (valueError (str "context_modifier must be within (0, " ++
      floatRepr CONTEXT_MODIFIER_MAX ++ str "], got " ++ floatRepr value))

/-- An enforced event carries a decision that asks for enforcement, and no blocking reason. -/
def requireTruthfulEnforcement (f : EventFields) : Except Exc Unit :=
  if f.enforced then
    match f.decision with
    | none => .error (valueError (str "enforced=True requires a decision"))
    | some decision =>
      if decision.requiresEnforcement then
        if f.enforcementBlockedReason = none then .ok ()
        else .error (valueError (str
          "enforced=True and enforcement_blocked_reason are mutually exclusive"))
      else .error (valueError (str "enforced=True is impossible for decision '" ++
        decision.value ++ str "', which asks for no enforcement action"))
  else .ok ()

/-- `Event.__post_init__`. -/
def EventFields.postInit (f : EventFields) : Except Exc Unit := do
  requireText (str "event_id") f.eventId
  requireText (str "host_id") f.hostId
  requireText (str "tenant_id") f.tenantId
  requireText (str "schema_version") f.schemaVersion
  requirePseudonym f.subjectPseudonym
  requireAware (str "timestamp") (some f.timestamp)
  requireAware (str "ingested_at") f.ingestedAt
  requireUnitInterval (str "raw_score") f.rawScore
  requireUnitInterval (str "final_score") f.finalScore
  requireUnitInterval (str "confidence") f.confidence
  requireModifierRange f.contextModifier
  requireTruthfulEnforcement f

/-- The fields of an event that can exist. -/
structure EventFields.Admissible (f : EventFields) : Prop where
  event_id : strip f.eventId ≠ []
  host_id : strip f.hostId ≠ []
  tenant_id : strip f.tenantId ≠ []
  schema_version : strip f.schemaVersion ≠ []
  subject_pseudonym : pseudonymPatternMatches f.subjectPseudonym = true
  timestamp : f.timestamp.utcoffset ≠ none
  ingested_at : ∀ t ∈ f.ingestedAt, t.utcoffset ≠ none
  raw_score : ∀ x ∈ f.rawScore, InUnitInterval x
  final_score : ∀ x ∈ f.finalScore, InUnitInterval x
  confidence : ∀ x ∈ f.confidence, InUnitInterval x
  context_modifier : ∀ x ∈ f.contextModifier, InModifierRange x
  enforced : f.enforced = true → (∃ d ∈ f.decision, d.requiresEnforcement = true) ∧
    f.enforcementBlockedReason = none

theorem bind_eq_ok_unit {r : Except Exc Unit} {next : Unit → Except Exc Unit} :
    r >>= next = .ok () ↔ r = .ok () ∧ next () = .ok () := by
  cases r with
  | error e => simp [bind, Except.bind]
  | ok u => simp [bind, Except.bind]

theorem requireText_ok {name value : Str} : requireText name value = .ok () ↔ strip value ≠ [] := by
  unfold requireText
  split_ifs with h <;> simp [h]

theorem requirePseudonym_ok {value : Str} :
    requirePseudonym value = .ok () ↔ pseudonymPatternMatches value = true := by
  unfold requirePseudonym
  split_ifs with h <;> simp [h]

theorem requireAware_ok {name : Str} {value : Option Datetime} :
    requireAware name value = .ok () ↔ ∀ t ∈ value, t.utcoffset ≠ none := by
  cases value with
  | none => simp [requireAware]
  | some t =>
    unfold requireAware
    dsimp only
    split_ifs with h <;> simp [h]

theorem requireUnitInterval_ok {name : Str} {value : Option Float} :
    requireUnitInterval name value = .ok () ↔ ∀ x ∈ value, InUnitInterval x := by
  cases value with
  | none => simp [requireUnitInterval]
  | some x =>
    unfold requireUnitInterval
    dsimp only
    split_ifs with h <;> simp [h]

theorem requireModifierRange_ok {value : Option Float} :
    requireModifierRange value = .ok () ↔ ∀ x ∈ value, InModifierRange x := by
  cases value with
  | none => simp [requireModifierRange]
  | some x =>
    unfold requireModifierRange
    dsimp only
    split_ifs with h <;> simp [h]

theorem requireTruthfulEnforcement_ok {f : EventFields} :
    requireTruthfulEnforcement f = .ok () ↔
      (f.enforced = true → (∃ d ∈ f.decision, d.requiresEnforcement = true) ∧
        f.enforcementBlockedReason = none) := by
  unfold requireTruthfulEnforcement
  cases f.enforced with
  | false => simp
  | true =>
    cases f.decision with
    | none => simp
    | some decision =>
      simp only [↓reduceIte, forall_const, Option.mem_def, Option.some.injEq, exists_eq_left']
      split_ifs <;> simp_all

/-- The constructor's checks accept exactly the admissible fields. -/
theorem postInit_ok_iff (f : EventFields) : f.postInit = .ok () ↔ f.Admissible := by
  unfold EventFields.postInit
  simp only [bind_eq_ok_unit, requireText_ok, requirePseudonym_ok, requireAware_ok, requireUnitInterval_ok,
    requireModifierRange_ok, requireTruthfulEnforcement_ok]
  constructor
  · rintro ⟨h₁, h₂, h₃, h₄, h₅, h₆, h₇, h₈, h₉, h₁₀, h₁₁, h₁₂⟩
    exact ⟨h₁, h₂, h₃, h₄, h₅, h₆ _ rfl, h₇, h₈, h₉, h₁₀, h₁₁, h₁₂⟩
  · rintro ⟨h₁, h₂, h₃, h₄, h₅, h₆, h₇, h₈, h₉, h₁₀, h₁₁, h₁₂⟩
    exact ⟨h₁, h₂, h₃, h₄, h₅, fun t ht => by cases ht; exact h₆, h₇, h₈, h₉, h₁₀, h₁₁, h₁₂⟩

/-- A check that raises nothing but `ValueError`. -/
def RaisesValueError (check : Except Exc Unit) : Prop := ∀ e, check = .error e → e.type = .valueError

theorem RaisesValueError.bind {r : Except Exc Unit} {next : Unit → Except Exc Unit}
    (hr : RaisesValueError r) (hnext : RaisesValueError (next ())) :
    RaisesValueError (r >>= next) := by
  intro e h
  cases hrun : r with
  | error e' =>
    rw [hrun] at h
    cases h
    exact hr e hrun
  | ok u =>
    rw [hrun] at h
    exact hnext e h

theorem raisesValueError_ite {p : Prop} [Decidable p] {message : Str} :
    RaisesValueError (if p then .ok () else .error (valueError message)) := by
  intro e h
  split_ifs at h
  cases h
  rfl

theorem raisesValueError_requireText (name value : Str) :
    RaisesValueError (requireText name value) := by
  intro e h
  unfold requireText at h
  split_ifs at h
  cases h
  rfl

theorem raisesValueError_requireAware (name : Str) (value : Option Datetime) :
    RaisesValueError (requireAware name value) := by
  intro e h
  cases value with
  | none => cases h
  | some t =>
    unfold requireAware at h
    dsimp only at h
    split_ifs at h
    cases h
    rfl

theorem raisesValueError_requireUnitInterval (name : Str) (value : Option Float) :
    RaisesValueError (requireUnitInterval name value) := by
  cases value with
  | none => intro e h; cases h
  | some x => exact raisesValueError_ite

theorem raisesValueError_requireModifierRange (value : Option Float) :
    RaisesValueError (requireModifierRange value) := by
  cases value with
  | none => intro e h; cases h
  | some x => exact raisesValueError_ite

theorem raisesValueError_requireTruthfulEnforcement (f : EventFields) :
    RaisesValueError (requireTruthfulEnforcement f) := by
  unfold RaisesValueError requireTruthfulEnforcement
  cases f.enforced with
  | false => simp
  | true =>
    cases f.decision with
    | none =>
      intro e h
      cases h
      rfl
    | some decision =>
      intro e h
      simp only [↓reduceIte] at h
      split_ifs at h <;> cases h <;> rfl

/-- Fields of the right types are refused with `ValueError` only. -/
theorem raisesValueError_postInit (f : EventFields) : RaisesValueError f.postInit := by
  unfold EventFields.postInit
  refine .bind (raisesValueError_requireText _ _) (.bind (raisesValueError_requireText _ _)
    (.bind (raisesValueError_requireText _ _) (.bind (raisesValueError_requireText _ _)
      (.bind raisesValueError_ite (.bind (raisesValueError_requireAware _ _)
        (.bind (raisesValueError_requireAware _ _) ?_))))))
  exact .bind (raisesValueError_requireUnitInterval _ _)
    (.bind (raisesValueError_requireUnitInterval _ _)
      (.bind (raisesValueError_requireUnitInterval _ _)
        (.bind (raisesValueError_requireModifierRange _)
          (raisesValueError_requireTruthfulEnforcement f))))

/-- An event: fields the constructor accepted. -/
structure Event where
  fields : EventFields
  admissible : fields.Admissible

namespace Event

/-- `Event(...)`. -/
def make (f : EventFields) : Except Exc Event :=
  match h : f.postInit with
  | .ok () => .ok ⟨f, (postInit_ok_iff f).mp h⟩
  | .error e => .error e

theorem make_of_admissible {f : EventFields} (h : f.Admissible) : make f = .ok ⟨f, h⟩ := by
  have hok := (postInit_ok_iff f).mpr h
  unfold make
  split
  · rfl
  · rename_i e he
    rw [hok] at he
    cases he

theorem type_of_make_error {f : EventFields} {e : Exc} (h : make f = .error e) :
    e.type = .valueError := by
  unfold make at h
  split at h
  · cases h
  · rename_i e' he
    cases h
    exact raisesValueError_postInit f e he

theorem fields_of_make {f : EventFields} {event : Event} (h : make f = .ok event) :
    event.fields = f := by
  unfold make at h
  split at h
  · cases h
    rfl
  · cases h

theorem strip_evt1 : strip (str "EVT-1") ≠ [] := by decide

theorem strip_evt2 : strip (str "EVT-2") ≠ [] := by decide

theorem strip_a : strip (str "a") ≠ [] := by decide

/-- A process observation with nothing optional filled in. -/
def plain (eventId : Str) (h : strip eventId ≠ []) : Event where
  fields :=
    { eventId
      timestamp := Datetime.epoch
      hostId := str "host"
      tenantId := str "default"
      subjectPseudonym := str "USR-0123456789abcdef0123456789abcdef"
      source := .process }
  admissible :=
    { event_id := h
      host_id := show strip (str "host") ≠ [] by decide
      tenant_id := show strip (str "default") ≠ [] by decide
      schema_version := show strip SCHEMA_VERSION ≠ [] by decide
      subject_pseudonym := show
        pseudonymPatternMatches (str "USR-0123456789abcdef0123456789abcdef") = true by decide
      timestamp := show Datetime.epoch.utcoffset ≠ none by decide
      ingested_at := by simp
      raw_score := by simp
      final_score := by simp
      confidence := by simp
      context_modifier := by simp
      enforced := by simp }

/-- `event.enriched(...)`: the changes are applied and the constructor runs again. -/
def enriched (event : Event) (changes : EventFields → EventFields) : Except Exc Event :=
  make (changes event.fields)

end Event

/-- `event.to_dict()`, less the derived `verdict_type`. -/
structure EventDict where
  eventId : Str
  timestamp : Str
  hostId : Str
  tenantId : Str
  subjectPseudonym : Str
  source : Str
  rawAttributes : Mapping
  extractedFeatures : Mapping
  rawScore : Option Float
  contextModifier : Option Float
  finalScore : Option Float
  confidence : Option Float
  level : Option Str
  degradedLayers : List Str
  triggeredRuleIds : List Str
  decision : Option Str
  enforced : Bool
  enforcementBlockedReason : Option Str
  explanation : Mapping
  ingestedAt : Option Str
  schemaVersion : Str

def Event.toDict (event : Event) : EventDict :=
  let f := event.fields
  { eventId := f.eventId
    timestamp := f.timestamp.isoformat
    hostId := f.hostId
    tenantId := f.tenantId
    subjectPseudonym := f.subjectPseudonym
    source := f.source.value
    rawAttributes := f.rawAttributes
    extractedFeatures := f.extractedFeatures
    rawScore := f.rawScore
    contextModifier := f.contextModifier
    finalScore := f.finalScore
    confidence := f.confidence
    level := f.level.map RiskLevel.value
    degradedLayers := f.degradedLayers
    triggeredRuleIds := f.triggeredRuleIds
    decision := f.decision.map Decision.value
    enforced := f.enforced
    enforcementBlockedReason := f.enforcementBlockedReason.map EnforcementBlockedReason.value
    explanation := f.explanation
    ingestedAt := f.ingestedAt.map Datetime.isoformat
    schemaVersion := f.schemaVersion }

end Ebabf
