import Ebabf.Py.Proc
import Ebabf.Schema.Event

/-!
# Collectors

A collector's sweep is a generator: a procedure whose trace is the events it yields. What it draws
on besides its platform is in its context: event ids, readings of the clock, and the pseudonymizer
with the pseudonyms it has minted and those it is going to mint.
-/

namespace Ebabf

open Py (Str str valueError Datetime Dict Proc Ran)

structure CollectorContext where
  hostId : Str
  tenantId : Str
  eventIds : ℕ → Str
  readings : ℕ → Datetime
  mints : ℕ → Str
  forward : Dict Str

namespace CollectorContext

/-- `context.event_id_factory()` -/
def eventIdFactory : Proc Event CollectorContext Str := fun c =>
  ⟨.ok (c.eventIds 0), [], { c with eventIds := fun n => c.eventIds (n + 1) }⟩

/-- `context.clock()` -/
def clock : Proc Event CollectorContext Datetime := fun c =>
  ⟨.ok (c.readings 0), [], { c with readings := fun n => c.readings (n + 1) }⟩

/-- `context.pseudonymizer.pseudonymize(subject)` -/
def pseudonymize (subject : Str) : Proc Event CollectorContext Str := fun c =>
  if subject = [] then ⟨.error (valueError (str "subject must be a non-empty string")), [], c⟩
  else
    match c.forward.get? subject with
    | some pseudonym => ⟨.ok pseudonym, [], c⟩
    | none =>
      ⟨.ok (c.mints 0), [],
        { c with
          mints := fun n => c.mints (n + 1)
          forward := c.forward.set subject (c.mints 0) }⟩

end CollectorContext

namespace Collector

/-- `timestamp or self._context.clock()` -/
def timestampOr : Option Datetime → Proc Event CollectorContext Datetime
  | some timestamp => pure timestamp
  | none => CollectorContext.clock

/-- `_build_event` -/
def buildEvent (source : EventSource) (subject : Str) (rawAttributes : Mapping)
    (timestamp : Option Datetime) : Proc Event CollectorContext Event := do
  let context ← Proc.read
  let eventId ← CollectorContext.eventIdFactory
  let timestamp ← timestampOr timestamp
  let subjectPseudonym ← CollectorContext.pseudonymize subject
  Proc.lift (Event.make {
    eventId
    timestamp
    hostId := context.hostId
    tenantId := context.tenantId
    subjectPseudonym
    source
    rawAttributes })

end Collector

/-- The subjects of one context keep their pseudonyms in the other. -/
def CollectorContext.Extends (c c' : CollectorContext) : Prop :=
  ∀ subject pseudonym, c.forward.get? subject = some pseudonym →
    c'.forward.get? subject = some pseudonym

theorem CollectorContext.Extends.refl (c : CollectorContext) : c.Extends c :=
  fun _ _ h => h

theorem CollectorContext.Extends.trans {c c' c'' : CollectorContext} (h : c.Extends c')
    (h' : c'.Extends c'') : c.Extends c'' :=
  fun subject pseudonym hlookup => h' subject pseudonym (h subject pseudonym hlookup)

theorem CollectorContext.extends_pseudonymize (subject : Str) (c : CollectorContext) :
    c.Extends (pseudonymize subject c).state := by
  unfold pseudonymize
  split_ifs with hempty
  · exact .refl c
  · cases hlookup : c.forward.get? subject with
    | some pseudonym => exact .refl c
    | none =>
      intro other pseudonym hother
      rw [Dict.get?_set, if_neg, hother]
      rintro rfl
      rw [hlookup] at hother
      cases hother

theorem CollectorContext.lookup_pseudonymize {subject pseudonym : Str}
    {c : CollectorContext} (h : (pseudonymize subject c).outcome = .ok pseudonym) :
    (pseudonymize subject c).state.forward.get? subject = some pseudonym := by
  unfold pseudonymize at h ⊢
  split_ifs at h ⊢ with hempty
  cases hlookup : c.forward.get? subject with
  | some known =>
    rw [hlookup] at h
    cases h
    exact hlookup
  | none =>
    rw [hlookup] at h
    cases h
    rw [Dict.get?_set, if_pos rfl]

namespace Collector

/-- The fields of the event to be built. -/
def eventFields (source : EventSource) (rawAttributes : Mapping) (timestamp : Option Datetime)
    (c : CollectorContext) (subjectPseudonym : Str) : EventFields where
  eventId := c.eventIds 0
  timestamp := timestamp.getD (c.readings 0)
  hostId := c.hostId
  tenantId := c.tenantId
  subjectPseudonym
  source
  rawAttributes

/-- The context once the id and the timestamp of an event are drawn. -/
def afterDraws (timestamp : Option Datetime) (c : CollectorContext) : CollectorContext :=
  match timestamp with
  | none =>
    { c with
      eventIds := fun n => c.eventIds (n + 1)
      readings := fun n => c.readings (n + 1) }
  | some _ => { c with eventIds := fun n => c.eventIds (n + 1) }

theorem trace_pseudonymize (subject : Str) (c : CollectorContext) :
    (CollectorContext.pseudonymize subject c).trace = [] := by
  unfold CollectorContext.pseudonymize
  split_ifs
  · rfl
  · cases c.forward.get? subject <;> rfl

/-- Building an event draws its id and its timestamp, looks its subject up and runs the
constructor. -/
theorem buildEvent_eq (source : EventSource) (subject : Str) (rawAttributes : Mapping)
    (timestamp : Option Datetime) (c : CollectorContext) :
    buildEvent source subject rawAttributes timestamp c =
      ⟨(CollectorContext.pseudonymize subject (afterDraws timestamp c)).outcome.bind
          fun pseudonym => Event.make (eventFields source rawAttributes timestamp c pseudonym),
        [], (CollectorContext.pseudonymize subject (afterDraws timestamp c)).state⟩ := by
  have hdraws : ∀ next : CollectorContext → Str → Datetime → Proc Event CollectorContext Event,
      (Proc.read >>= fun context => CollectorContext.eventIdFactory >>= fun eventId =>
        timestampOr timestamp >>= fun time => next context eventId time) c =
      next c (c.eventIds 0) (timestamp.getD (c.readings 0)) (afterDraws timestamp c) := by
    intro next
    cases timestamp <;> rfl
  have htrace := trace_pseudonymize subject (afterDraws timestamp c)
  rw [buildEvent, hdraws]
  cases h : (CollectorContext.pseudonymize subject (afterDraws timestamp c)).outcome with
  | error e =>
    rw [Proc.bind_of_error h, htrace]
    rfl
  | ok pseudonym =>
    rw [Proc.bind_of_ok h, htrace]
    rfl

theorem trace_buildEvent (source : EventSource) (subject : Str) (rawAttributes : Mapping)
    (timestamp : Option Datetime) (c : CollectorContext) :
    (buildEvent source subject rawAttributes timestamp c).trace = [] := by
  rw [buildEvent_eq]

theorem forward_afterDraws (timestamp : Option Datetime) (c : CollectorContext) :
    (afterDraws timestamp c).forward = c.forward := by
  cases timestamp <;> rfl

theorem extends_buildEvent (source : EventSource) (subject : Str) (rawAttributes : Mapping)
    (timestamp : Option Datetime) (c : CollectorContext) :
    c.Extends (buildEvent source subject rawAttributes timestamp c).state := by
  rw [buildEvent_eq]
  intro other pseudonym h
  apply CollectorContext.extends_pseudonymize
  rw [forward_afterDraws]
  exact h

theorem fields_of_buildEvent {source : EventSource} {subject : Str} {rawAttributes : Mapping}
    {timestamp : Option Datetime} {c : CollectorContext} {event : Event}
    (h : (buildEvent source subject rawAttributes timestamp c).outcome = .ok event) :
    event.fields.rawAttributes = rawAttributes ∧
      (buildEvent source subject rawAttributes timestamp c).state.forward.get? subject =
        some event.fields.subjectPseudonym := by
  rw [buildEvent_eq] at h ⊢
  cases hp : (CollectorContext.pseudonymize subject (afterDraws timestamp c)).outcome with
  | error e =>
    rw [hp] at h
    cases h
  | ok pseudonym =>
    rw [hp] at h
    rw [Event.fields_of_make h]
    exact ⟨rfl, CollectorContext.lookup_pseudonymize hp⟩

/-- The event depends on what is drawn and on the pseudonym alone. -/
theorem outcome_buildEvent_congr {c c' : CollectorContext} {subject subject' : Str}
    {timestamp : Option Datetime} (hhost : c'.hostId = c.hostId) (htenant : c'.tenantId = c.tenantId)
    (hids : c'.eventIds = c.eventIds) (hreadings : c'.readings = c.readings)
    (hpseudonym : (CollectorContext.pseudonymize subject' (afterDraws timestamp c')).outcome =
      (CollectorContext.pseudonymize subject (afterDraws timestamp c)).outcome)
    (source : EventSource) (rawAttributes : Mapping) :
    (buildEvent source subject' rawAttributes timestamp c').outcome =
      (buildEvent source subject rawAttributes timestamp c).outcome := by
  have hfields : eventFields source rawAttributes timestamp c' =
      eventFields source rawAttributes timestamp c := by
    unfold eventFields
    rw [hids, hreadings, hhost, htenant]
  rw [buildEvent_eq, buildEvent_eq]
  dsimp only
  rw [hpseudonym, hfields]

end Collector

/-- Two contexts that draw the same, and name some of the subjects the same. -/
structure CollectorContext.AgreeOn (subjects : Set Str) (c c' : CollectorContext) : Prop where
  host_id : c'.hostId = c.hostId
  tenant_id : c'.tenantId = c.tenantId
  event_ids : c'.eventIds = c.eventIds
  readings : c'.readings = c.readings
  mints : c'.mints = c.mints
  forward : ∀ subject ∈ subjects, c'.forward.get? subject = c.forward.get? subject

section

variable {subjects : Set Str} {c c' : CollectorContext}

theorem CollectorContext.AgreeOn.pseudonymize (h : AgreeOn subjects c c') {subject : Str}
    (hsubject : subject ∈ subjects) :
    (CollectorContext.pseudonymize subject c').outcome =
        (CollectorContext.pseudonymize subject c).outcome ∧
      AgreeOn subjects (CollectorContext.pseudonymize subject c).state
        (CollectorContext.pseudonymize subject c').state := by
  unfold CollectorContext.pseudonymize
  split_ifs with hempty
  · exact ⟨rfl, h⟩
  · rw [h.forward subject hsubject, h.mints]
    cases c.forward.get? subject with
    | some pseudonym => exact ⟨rfl, h⟩
    | none =>
      refine ⟨rfl, h.host_id, h.tenant_id, h.event_ids, h.readings, rfl, ?_⟩
      intro other hother
      rw [Dict.get?_set, Dict.get?_set, h.forward other hother]

theorem Collector.buildEvent_congr (h : c.AgreeOn subjects c') {subject : Str}
    (hsubject : subject ∈ subjects) (source : EventSource) (rawAttributes : Mapping)
    (timestamp : Datetime) :
    (buildEvent source subject rawAttributes (some timestamp) c').outcome =
        (buildEvent source subject rawAttributes (some timestamp) c).outcome ∧
      CollectorContext.AgreeOn subjects
        (buildEvent source subject rawAttributes (some timestamp) c).state
        (buildEvent source subject rawAttributes (some timestamp) c').state := by
  have hdrawn : CollectorContext.AgreeOn subjects (afterDraws (some timestamp) c)
      (afterDraws (some timestamp) c') :=
    ⟨h.host_id, h.tenant_id, congrArg (fun ids n => ids (n + 1)) h.event_ids, h.readings, h.mints,
      h.forward⟩
  obtain ⟨hok, hstate⟩ := hdrawn.pseudonymize hsubject
  refine ⟨outcome_buildEvent_congr h.host_id h.tenant_id h.event_ids h.readings hok source
    rawAttributes, ?_⟩
  rw [buildEvent_eq, buildEvent_eq]
  exact hstate

end

/-- What a context draws is what the constructor accepts. -/
structure CollectorContext.Dependable (c : CollectorContext) : Prop where
  host_id : Py.strip c.hostId ≠ []
  tenant_id : Py.strip c.tenantId ≠ []
  event_ids : ∀ n, Py.strip (c.eventIds n) ≠ []
  readings : ∀ n, (c.readings n).utcoffset ≠ none
  mints : ∀ n, pseudonymPatternMatches (c.mints n) = true
  forward : ∀ subject pseudonym, c.forward.get? subject = some pseudonym →
    pseudonymPatternMatches pseudonym = true

theorem CollectorContext.Dependable.pseudonymize {c : CollectorContext} (h : c.Dependable)
    {subject : Str} (hsubject : subject ≠ []) :
    (CollectorContext.pseudonymize subject c).state.Dependable ∧ ∃ pseudonym,
      (CollectorContext.pseudonymize subject c).outcome = .ok pseudonym ∧
        pseudonymPatternMatches pseudonym = true := by
  unfold CollectorContext.pseudonymize
  rw [if_neg hsubject]
  cases hlookup : c.forward.get? subject with
  | some pseudonym => exact ⟨h, pseudonym, rfl, h.forward subject pseudonym hlookup⟩
  | none =>
    refine ⟨⟨h.host_id, h.tenant_id, h.event_ids, h.readings, fun n => h.mints (n + 1), ?_⟩,
      c.mints 0, rfl, h.mints 0⟩
    intro other pseudonym hother
    rw [Dict.get?_set] at hother
    split_ifs at hother with heq
    · rw [← Option.some.inj hother]
      exact h.mints 0
    · exact h.forward other pseudonym hother

theorem CollectorContext.Dependable.clock {c : CollectorContext} (h : c.Dependable) :
    (CollectorContext.clock c).state.Dependable :=
  ⟨h.host_id, h.tenant_id, h.event_ids, fun n => h.readings (n + 1), h.mints, h.forward⟩

namespace Collector

theorem dependable_afterDraws {c : CollectorContext} (h : c.Dependable)
    (timestamp : Option Datetime) : (afterDraws timestamp c).Dependable := by
  cases timestamp with
  | none =>
    exact ⟨h.host_id, h.tenant_id, fun n => h.event_ids (n + 1), fun n => h.readings (n + 1),
      h.mints, h.forward⟩
  | some timestamp =>
    exact ⟨h.host_id, h.tenant_id, fun n => h.event_ids (n + 1), h.readings, h.mints, h.forward⟩

/-- An event is built, and the context stays dependable. -/
theorem buildEvent_of_dependable_getD {c : CollectorContext} (h : c.Dependable)
    (source : EventSource) {subject : Str} (hsubject : subject ≠ []) (rawAttributes : Mapping)
    {timestamp : Option Datetime} (htimestamp : ∀ t ∈ timestamp, t.utcoffset ≠ none) :
    (buildEvent source subject rawAttributes timestamp c).state.Dependable ∧
      ∃ event, (buildEvent source subject rawAttributes timestamp c).outcome = .ok event := by
  obtain ⟨hstate, pseudonym, hok, hmatches⟩ :=
    (dependable_afterDraws h timestamp).pseudonymize hsubject
  have haware : (timestamp.getD (c.readings 0)).utcoffset ≠ none := by
    cases timestamp with
    | none => exact h.readings 0
    | some timestamp => exact htimestamp timestamp rfl
  rw [buildEvent_eq]
  refine ⟨hstate, ?_⟩
  have hadmissible : (eventFields source rawAttributes timestamp c pseudonym).Admissible :=
    { event_id := h.event_ids 0
      host_id := h.host_id
      tenant_id := h.tenant_id
      schema_version := show Py.strip SCHEMA_VERSION ≠ [] by decide
      subject_pseudonym := hmatches
      timestamp := haware
      ingested_at := by simp [eventFields]
      raw_score := by simp [eventFields]
      final_score := by simp [eventFields]
      confidence := by simp [eventFields]
      context_modifier := by simp [eventFields]
      enforced := by simp [eventFields] }
  rw [hok]
  exact ⟨_, Event.make_of_admissible hadmissible⟩

theorem buildEvent_of_dependable {c : CollectorContext} (h : c.Dependable) (source : EventSource)
    {subject : Str} (hsubject : subject ≠ []) (rawAttributes : Mapping) {timestamp : Datetime}
    (htimestamp : timestamp.utcoffset ≠ none) :
    (buildEvent source subject rawAttributes (some timestamp) c).state.Dependable ∧
      ∃ event, (buildEvent source subject rawAttributes (some timestamp) c).outcome = .ok event := by
  apply buildEvent_of_dependable_getD h source hsubject rawAttributes
  intro t ht
  rw [← Option.some.inj ht]
  exact htimestamp

end Collector

/-- A context with one id, one reading and one pseudonym. -/
def oneContext : CollectorContext where
  hostId := str "host"
  tenantId := str "default"
  eventIds := fun _ => str "EVT-1"
  readings := fun _ => .epoch
  mints := fun _ => str "USR-0123456789abcdef0123456789abcdef"
  forward := ∅

theorem oneContext_dependable : oneContext.Dependable where
  host_id := by decide
  tenant_id := by decide
  event_ids := fun _ => show Py.strip (str "EVT-1") ≠ [] by decide
  readings := fun _ => show Datetime.epoch.utcoffset ≠ none by decide
  mints := fun _ => show pseudonymPatternMatches
    (str "USR-0123456789abcdef0123456789abcdef") = true by decide
  forward := fun _ _ h => nomatch h

end Ebabf
