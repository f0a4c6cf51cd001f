import Ebabf.Py.Utc
import Ebabf.Storage.Storable

/-!
# Reading events back

A stored row is turned into the arguments of the constructor, which runs again. How deep the JSON
decoder may still recurse is an argument.
-/

namespace Ebabf

open Py (Str str Exc valueError Datetime Json Dict encodeUtf8)

/-- `json.loads(text)`; the messages of the decoder are left out. -/
def loadsText (limit : ℕ) (text : Str) : Except Exc Json :=
  match Json.loads limit text with
  | .ok value => .ok value
  | .error .recursion => .error ⟨.recursionError, str "maximum recursion depth exceeded"⟩
  | .error _ => .error (valueError (str "invalid JSON"))

/-- `_freeze_mapping(value or {})` -/
def freezeMapping (value : Json) : Except Exc Mapping :=
  if isTruthy value then
    match value with
    | .obj members => .ok (Dict.ofPairs (members.map fun m => (m.1, .json m.2)))
    | other => .error ⟨.typeError, str "expected a mapping, got " ++ other.typeName⟩
  else .ok ∅

/-- `tuple(value)` -/
def iterate : Json → Except Exc (List Json)
  | .arr items => .ok items
  | .str s => .ok (s.map fun c => .str [c])
  | .obj members => .ok (members.map fun m => .str m.1)
  | other => .error ⟨.typeError, str "'" ++ other.typeName ++ str "' object is not iterable"⟩

/-- `_freeze_str_tuple` -/
def freezeStrTuple (name : Str) (items : List Json) : Except Exc (List Str) :=
  items.mapM fun
    | .str s => .ok s
    | other => .error ⟨.typeError,
        name ++ str " must contain only strings, found " ++ other.typeName⟩

/-- `_dt(value)` of a text. -/
def utcTime (value : Str) : Except Exc Datetime :=
  match Datetime.fromisoformat value with
  | some parsed => parsed.astimezoneUtc
  | none => .error (valueError (str "Invalid isoformat string: '" ++ value ++ str "'"))

/-- `Enumeration(value)` -/
def enumOf {α : Type} (name : Str) (members : List α) (text : α → Str) (value : Str) :
    Except Exc α :=
  match members.find? fun m => text m = value with
  | some m => .ok m
  | none => .error (valueError (str "'" ++ value ++ str "' is not a valid " ++ name))

/-- `Enumeration(value) if value else None` -/
def optionalEnum {α : Type} (name : Str) (members : List α) (text : α → Str) (value : Option Str) :
    Except Exc (Option α) :=
  match value.filter (· ≠ []) with
  | none => .ok none
  | some value => (enumOf name members text value).map some

/-- The last thing the constructor does: it freezes the collections. -/
def Event.freeze (event : Event) (rawAttributes extractedFeatures explanation : Json)
    (degradedLayers triggeredRuleIds : List Json) : Except Exc Event := do
  let rawAttributes ← freezeMapping rawAttributes
  let extractedFeatures ← freezeMapping extractedFeatures
  let explanation ← freezeMapping explanation
  let degradedLayers ← freezeStrTuple (str "degraded_layers") degradedLayers
  let triggeredRuleIds ← freezeStrTuple (str "triggered_rule_ids") triggeredRuleIds
  return {
    fields := { event.fields with
      rawAttributes, extractedFeatures, explanation, degradedLayers, triggeredRuleIds }
    admissible := { event.admissible with enforced := event.admissible.enforced } }

/-- `_to_event`, with `from_dict` and the constructor it calls. -/
def toEvent (limit : ℕ) (row : EventRow) : Except Exc Event := do
  let rawAttributes ← loadsText limit row.rawAttributes
  let extractedFeatures ← loadsText limit row.extractedFeatures
  let explanation ← loadsText limit row.explanation
  let degradedLayers ← iterate (← loadsText limit row.degradedLayers)
  let triggeredRuleIds ← iterate (← loadsText limit row.triggeredRuleIds)
  let timestamp ← utcTime row.timestamp
  let source ← enumOf (str "EventSource") EventSource.all EventSource.value row.source
  let level ← optionalEnum (str "RiskLevel") RiskLevel.all RiskLevel.value row.level
  let decision ← optionalEnum (str "Decision") Decision.all Decision.value row.decision
  let enforcementBlockedReason ← optionalEnum (str "EnforcementBlockedReason")
    EnforcementBlockedReason.all EnforcementBlockedReason.value row.enforcementBlockedReason
  let ingestedAt ← utcTime row.ingestedAt
  let event ← Event.make
    { eventId := row.eventId
      timestamp
      hostId := row.hostId
      tenantId := row.tenantId
      subjectPseudonym := row.subjectPseudonym
      source
      rawScore := row.rawScore
      contextModifier := row.contextModifier
      finalScore := row.finalScore
      confidence := row.confidence
      level
      decision
      enforced := row.enforced != 0
      enforcementBlockedReason
      ingestedAt := some ingestedAt
      schemaVersion := row.schemaVersion }
  event.freeze rawAttributes extractedFeatures explanation degradedLayers triggeredRuleIds

def unicodeEncodeFailure : Exc :=
  ⟨.unicodeEncodeError, str "'utf-8' codec can't encode: surrogates not allowed"⟩

/-- The filters of `query`, and how many rows it returns at most. -/
structure EventQuery where
  tenantId : Option Str := none
  source : Option EventSource := none
  level : Option RiskLevel := none
  since : Option Datetime := none
  until' : Option Datetime := none
  limit : ℤ := 100

/-- The `WHERE` clause. -/
def EventQuery.matches (q : EventQuery) (row : EventRow) : Bool :=
  q.tenantId.all (· == row.tenantId) && q.source.all (·.value == row.source) &&
    q.level.all (fun level => row.level == some level.value) &&
    q.since.all (fun since => since.isoformat ≤ row.ingestedAt) &&
    q.until'.all (fun until' => row.ingestedAt ≤ until'.isoformat)

/-- `_VERDICT_EXPRESSION` on the stored confidence. -/
def verdictExpression : Option Float → Option Str
  | none => none
  | some confidence =>
    if CONFIDENCE_VERDICT_THRESHOLD ≤ confidence then some (str "verdict")
    else if CONFIDENCE_SUSPICION_THRESHOLD ≤ confidence then some (str "suspicion")
    else some (str "unverified")

namespace EventStore

/-- `get` -/
def get (limit : ℕ) (eventId : Str) (s : EventStore) : Except Exc (Option Event) :=
  if (encodeUtf8 eventId).isNone then .error unicodeEncodeFailure
  else
    match s.db.events.rows.find? fun row => row.eventId = eventId with
    | none => .ok none
    | some row => (toEvent limit row).map some

/-- The rows `query` selects: the latest first, a negative limit for all. -/
def queryRows (q : EventQuery) (s : EventStore) : List EventRow :=
  let rows := (s.db.events.orderBy fun row => toLex (row.ingestedAt, row.eventId)).reverse
  let selected := rows.filter q.matches
  if q.limit < 0 then selected else selected.take q.limit.toNat

/-- `query` -/
def query (limit : ℕ) (q : EventQuery) (s : EventStore) : Except Exc (List Event) :=
  if q.tenantId.any fun tenantId => (encodeUtf8 tenantId).isNone then .error unicodeEncodeFailure
  else if ¬Sql.FitsInteger q.limit then
    .error ⟨Py.overflowError, str "Python int too large to convert to SQLite INTEGER"⟩
  else (s.queryRows q).mapM (toEvent limit)

/-- `verdict_types` -/
def verdictTypes (eventIds : List Str) (s : EventStore) : Except Exc (Dict (Option Str)) :=
  if eventIds.any fun eventId => (encodeUtf8 eventId).isNone then .error unicodeEncodeFailure
  else
    let rows := s.db.events.rows.filter fun row => row.eventId ∈ eventIds
    .ok (Dict.ofPairs (rows.map fun row => (row.eventId, verdictExpression row.confidence)))

end EventStore

/-- Two events with the same fields, times compared as instants. -/
structure EventFields.SameAs (f g : EventFields) : Prop where
  timestamp : f.timestamp.instant = g.timestamp.instant
  ingested_at : f.ingestedAt.map Datetime.instant = g.ingestedAt.map Datetime.instant
  rest : { f with
    timestamp := g.timestamp
    ingestedAt := g.ingestedAt } = g

/-- The decoder gets through every value of a mapping, which is itself one level of nesting. -/
def Mapping.Readable (limit : ℕ) (mapping : Mapping) : Prop :=
  ∀ entry ∈ mapping.entries, ∀ v, entry.2 = .json v → Json.Readable limit v

structure EventFields.Readable (limit : ℕ) (f : EventFields) : Prop where
  raw_attributes : Mapping.Readable limit f.rawAttributes
  extracted_features : Mapping.Readable limit f.extractedFeatures
  explanation : Mapping.Readable limit f.explanation

theorem readableMembers_iff {limit : ℕ} {members : List (Str × Json)} :
    Json.ReadableMembers limit members ↔ ∀ m ∈ members, Json.Readable limit m.2 := by
  induction members with
  | nil => simp [Json.ReadableMembers]
  | cons m members ih =>
    obtain ⟨k, v⟩ := m
    rw [Json.ReadableMembers, ih, List.forall_mem_cons]

theorem entries_of_members {entries : List (Str × AnyValue)} {members : List (Str × Json)}
    (h : List.Forall₂ (fun entry member => entry.1 = member.1 ∧ entry.2.toJson = .ok member.2)
      entries members) : entries = members.map fun m => (m.1, .json m.2) := by
  induction h with
  | nil => rfl
  | @cons entry member entries members hentry _ ih =>
    obtain ⟨hkey, hvalue⟩ := hentry
    obtain ⟨hjson, -⟩ := toJson_ok_iff.mp hvalue
    rw [List.map_cons, ← ih, ← hkey, ← hjson]

theorem freezeMapping_obj {mapping : Mapping} {members : List (Str × Json)}
    (h : mapping.entries = members.map fun m => (m.1, .json m.2)) :
    freezeMapping (.obj members) = .ok mapping := by
  unfold freezeMapping
  split_ifs with htruthy
  · dsimp only
    rw [← h, Dict.ofPairs_entries]
  · have hempty : members = [] := by simpa [isTruthy] using htruthy
    rw [hempty] at h
    exact congrArg Except.ok (Dict.ext h.symm)

theorem loadsText_dumpsMapping {limit : ℕ} {mapping : Mapping} {text : Str}
    (h : dumpsMapping mapping = .ok text) (hreads : Mapping.Readable limit mapping) :
    ∃ value, loadsText (limit + 1) text = .ok value ∧ freezeMapping value = .ok mapping := by
  obtain ⟨members, hmembers, rfl⟩ := dumpsMapping_ok_iff.mp h
  have hentries := entries_of_members hmembers
  have hreadable : Json.Readable (limit + 1) (.obj members) := by
    rw [Json.Readable, readableMembers_iff]
    constructor
    · have hkeys := mapping.nodup
      rw [hentries, List.map_map] at hkeys
      exact hkeys
    · intro m hm
      apply hreads (m.1, .json m.2) _ m.2 rfl
      rw [hentries]
      exact List.mem_map_of_mem hm
  refine ⟨.obj members, ?_, freezeMapping_obj hentries⟩
  rw [loadsText, Json.loads_dumps hreadable]

theorem loadsText_dumpsTexts (limit : ℕ) (texts : List Str) :
    loadsText (limit + 1) (dumpsTexts texts) = .ok (.arr (texts.map .str)) := by
  have hitems : Json.ReadableItems limit (texts.map .str) := by
    induction texts with
    | nil => trivial
    | cons t texts ih =>
      rw [List.map_cons, Json.ReadableItems, Json.Readable]
      exact ⟨trivial, ih⟩
  have hreadable : Json.Readable (limit + 1) (.arr (texts.map .str)) := by
    rw [Json.Readable]
    exact hitems
  rw [loadsText, dumpsTexts, Json.loads_dumps hreadable]

theorem freezeStrTuple_map (name : Str) (texts : List Str) :
    freezeStrTuple name (texts.map .str) = .ok texts := by
  unfold freezeStrTuple
  induction texts with
  | nil => rfl
  | cons t texts ih =>
    rw [List.map_cons, List.mapM_cons, ih]
    rfl

theorem enumOf_source (source : EventSource) :
    enumOf (str "EventSource") EventSource.all EventSource.value source.value = .ok source := by
  cases source <;> rfl

theorem optionalEnum_map {α : Type} {name : Str} {members : List α} {text : α → Str}
    (hmember : ∀ m, text m ≠ [] ∧ enumOf name members text (text m) = .ok m) (value : Option α) :
    optionalEnum name members text (value.map text) = .ok value := by
  cases value with
  | none => rfl
  | some m =>
    obtain ⟨hne, hm⟩ := hmember m
    simp only [optionalEnum, Option.map_some, Option.filter_some, hne, ne_eq, not_false_eq_true,
      decide_true, ↓reduceIte, hm]
    rfl

theorem optionalEnum_level (level : Option RiskLevel) :
    optionalEnum (str "RiskLevel") RiskLevel.all RiskLevel.value (level.map RiskLevel.value) =
      .ok level := by
  apply optionalEnum_map
  intro m
  cases m <;> exact ⟨by decide, rfl⟩

theorem optionalEnum_decision (decision : Option Decision) :
    optionalEnum (str "Decision") Decision.all Decision.value (decision.map Decision.value) =
      .ok decision := by
  apply optionalEnum_map
  intro m
  cases m <;> exact ⟨by decide, rfl⟩

theorem optionalEnum_blockedReason (reason : Option EnforcementBlockedReason) :
    optionalEnum (str "EnforcementBlockedReason") EnforcementBlockedReason.all
      EnforcementBlockedReason.value (reason.map EnforcementBlockedReason.value) = .ok reason := by
  apply optionalEnum_map
  intro m
  cases m <;> exact ⟨by decide, rfl⟩

theorem utcTime_isoformat (d : Datetime) : utcTime d.isoformat = d.astimezoneUtc := by
  rw [utcTime, Datetime.fromisoformat_isoformat]

/-- An event with its times in UTC. -/
def inUtc (event : Event) (timestamp ingestedAt : Datetime)
    (ht : timestamp.utcoffset = some 0) (hi : ingestedAt.utcoffset = some 0) : Event where
  fields := { event.fields with
    timestamp
    ingestedAt := some ingestedAt }
  admissible := { event.admissible with
    timestamp := by simp [ht]
    ingested_at := by
      intro t h
      cases h
      simp [hi] }

theorem sameAs_inUtc {event : Event} {stamp timestamp ingestedAt : Datetime}
    {ht : timestamp.utcoffset = some 0} {hi : ingestedAt.utcoffset = some 0}
    (hstamp : event.fields.ingestedAt = some stamp)
    (htime : timestamp.instant = event.fields.timestamp.instant)
    (hingested : ingestedAt.instant = stamp.instant) :
    (inUtc event timestamp ingestedAt ht hi).fields.SameAs event.fields := by
  refine ⟨htime, ?_, rfl⟩
  rw [hstamp]
  exact congrArg some hingested

/-- Whatever a row's times read as, the rest of its event is read back. -/
theorem toEvent_writtenRow {limit : ℕ} {event : Event} {stamp : Datetime}
    {raw extracted explanation : Str} (hstamp : event.fields.ingestedAt = some stamp)
    (hraw : dumpsMapping event.fields.rawAttributes = .ok raw)
    (hextracted : dumpsMapping event.fields.extractedFeatures = .ok extracted)
    (hexplanation : dumpsMapping event.fields.explanation = .ok explanation)
    (hreads : event.fields.Readable limit) {timestamp ingestedAt : Datetime}
    (ht : timestamp.utcoffset = some 0) (hi : ingestedAt.utcoffset = some 0)
    (htime : event.fields.timestamp.astimezoneUtc = .ok timestamp)
    (hingested : stamp.astimezoneUtc = .ok ingestedAt) :
    toEvent (limit + 1) (EventStore.writtenRow event.toDict raw extracted explanation) =
      .ok (inUtc event timestamp ingestedAt ht hi) := by
  obtain ⟨rawValue, hrawLoads, hrawFreeze⟩ := loadsText_dumpsMapping hraw hreads.raw_attributes
  obtain ⟨extractedValue, hextractedLoads, hextractedFreeze⟩ :=
    loadsText_dumpsMapping hextracted hreads.extracted_features
  obtain ⟨explanationValue, hexplanationLoads, hexplanationFreeze⟩ :=
    loadsText_dumpsMapping hexplanation hreads.explanation
  have hstampText : (event.fields.ingestedAt.map Datetime.isoformat).getD [] = stamp.isoformat := by
    rw [hstamp]
    rfl
  have henforced : ((if event.fields.enforced then 1 else 0 : ℤ) != 0) = event.fields.enforced := by
    cases event.fields.enforced <;> rfl
  unfold toEvent EventStore.writtenRow Event.toDict
  dsimp only
  rw [hrawLoads, hextractedLoads, hexplanationLoads, loadsText_dumpsTexts, loadsText_dumpsTexts,
    utcTime_isoformat, htime, enumOf_source, optionalEnum_level, optionalEnum_decision,
    optionalEnum_blockedReason, hstampText, utcTime_isoformat, hingested, henforced]
  have hmake := Event.make_of_admissible (f :=
    { eventId := event.fields.eventId
      timestamp
      hostId := event.fields.hostId
      tenantId := event.fields.tenantId
      subjectPseudonym := event.fields.subjectPseudonym
      source := event.fields.source
      rawScore := event.fields.rawScore
      contextModifier := event.fields.contextModifier
      finalScore := event.fields.finalScore
      confidence := event.fields.confidence
      level := event.fields.level
      decision := event.fields.decision
      enforced := event.fields.enforced
      enforcementBlockedReason := event.fields.enforcementBlockedReason
      ingestedAt := some ingestedAt
      schemaVersion := event.fields.schemaVersion })
    { (inUtc event timestamp ingestedAt ht hi).admissible with
      enforced := (inUtc event timestamp ingestedAt ht hi).admissible.enforced }
  simp only [bind, Except.bind, iterate, hmake, Event.freeze, hrawFreeze, hextractedFreeze,
    hexplanationFreeze, freezeStrTuple_map, pure, Except.pure]
  rfl

end Ebabf
