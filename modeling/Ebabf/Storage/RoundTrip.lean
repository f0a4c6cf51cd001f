import Ebabf.Py.JsonDepth
import Ebabf.Storage.Reading

/-!
# What a store gives back

While its row is in the table, an event that was appended is what `get` and `query` return, and
`verdict_types` agrees with its confidence: exactly when its times have a date in UTC and the
decoder can recurse as deep as its mappings are nested.
-/

namespace Ebabf

open Py (Str str Exc Datetime Json Dict Encodes)
open Transition

def AnyValue.depth : AnyValue → ℕ
  | .json v => v.depth
  | .unserializable _ | .circular | .tooDeep => 0

/-- How deep a mapping is nested, itself included. -/
def Mapping.depth (mapping : Mapping) : ℕ :=
  (mapping.entries.map fun entry => entry.2.depth).foldr max 0 + 1

/-- The values are plain JSON, and their floats are finite. -/
def Mapping.WellFormed (mapping : Mapping) : Prop :=
  ∀ entry ∈ mapping.entries, ∃ v, entry.2 = .json v ∧ v.WellFormed

theorem depth_of_members {mapping : Mapping} {members : List (Str × Json)}
    (h : mapping.entries = members.map fun m => (m.1, .json m.2)) :
    mapping.depth = Json.depth (.obj members) := by
  have hmembers : ∀ members : List (Str × Json),
      (members.map fun m => m.2.depth).foldr max 0 = Json.depthMembers members := by
    intro members
    induction members with
    | nil => rfl
    | cons m ms ih =>
      obtain ⟨k, v⟩ := m
      rw [List.map_cons, List.foldr_cons, ih, Json.depthMembers]
  rw [Mapping.depth, h, List.map_map, Json.depth, ← hmembers]
  rfl

theorem members_of_dumpsMapping {mapping : Mapping} {text : Str} (hwell : mapping.WellFormed)
    (h : dumpsMapping mapping = .ok text) : ∃ members : List (Str × Json),
      mapping.entries = members.map (fun m => (m.1, .json m.2)) ∧
      text = Json.dumps none (.obj members) ∧ Json.WellFormed (.obj members) ∧
      Json.printable (.obj members) = true := by
  obtain ⟨members, hmembers, rfl⟩ := dumpsMapping_ok_iff.mp h
  have hentries := entries_of_members hmembers
  refine ⟨members, hentries, rfl, ?_, ?_⟩
  · rw [Json.WellFormed, Json.wellFormedMembers_iff]
    constructor
    · have hkeys := mapping.nodup
      rw [hentries, List.map_map] at hkeys
      exact hkeys
    · intro m hm
      have hentry : (m.1, AnyValue.json m.2) ∈ mapping.entries := by
        rw [hentries]
        exact List.mem_map_of_mem hm
      obtain ⟨v, hv, hv'⟩ := hwell _ hentry
      cases hv
      exact hv'
  · rw [Json.printable, Json.printableMembers_iff]
    rw [hentries, List.forall₂_map_left_iff, List.forall₂_same] at hmembers
    intro m hm
    exact (toJson_ok_iff.mp (hmembers m hm).2).2

/-- A mapping is read back from its text, or is nested too deep to be read. -/
theorem loadsText_of_wellFormed {mapping : Mapping} {text : Str} (hwell : mapping.WellFormed)
    (h : dumpsMapping mapping = .ok text) (limit : ℕ) :
    (∃ value, loadsText limit text = .ok value) ↔ mapping.depth ≤ limit := by
  obtain ⟨members, hentries, rfl, hwell', hprint⟩ := members_of_dumpsMapping hwell h
  rw [loadsText, Json.loads_dumps_of_wellFormed hwell' hprint, depth_of_members hentries]
  split_ifs with hdepth
  · simp [hdepth]
  · simp [hdepth]

theorem readable_of_wellFormed {mapping : Mapping} {text : Str} (hwell : mapping.WellFormed)
    (h : dumpsMapping mapping = .ok text) {limit : ℕ} (hdepth : mapping.depth ≤ limit + 1) :
    Mapping.Readable limit mapping := by
  obtain ⟨members, hentries, -, hwell', hprint⟩ := members_of_dumpsMapping hwell h
  rw [depth_of_members hentries] at hdepth
  have hreadable := Json.readable_of_depth hwell' hprint hdepth
  rw [Json.Readable, readableMembers_iff] at hreadable
  intro entry hentry v hv
  rw [hentries] at hentry
  obtain ⟨m, hm, rfl⟩ := List.mem_map.mp hentry
  cases hv
  exact hreadable.2 m hm

structure EventFields.WellFormed (f : EventFields) : Prop where
  raw_attributes : f.rawAttributes.WellFormed
  extracted_features : f.extractedFeatures.WellFormed
  explanation : f.explanation.WellFormed

/-- What it takes to read back an event that is stamped now: its times have a date in UTC, and
none of its mappings is nested deeper than the decoder can recurse. -/
structure EventFields.Legible (limit : ℕ) (stamp : Datetime) (f : EventFields) : Prop where
  timestamp : Datetime.InCalendar f.timestamp.instant
  ingested_at : Datetime.InCalendar stamp.instant
  raw_attributes : f.rawAttributes.depth ≤ limit
  extracted_features : f.extractedFeatures.depth ≤ limit
  explanation : f.explanation.depth ≤ limit

theorem inCalendar_of_utcTime {d utc : Datetime} (h : utcTime d.isoformat = .ok utc) :
    Datetime.InCalendar d.instant := by
  rw [utcTime_isoformat] at h
  by_contra houtside
  obtain ⟨e, he⟩ := Datetime.astimezoneUtc_error houtside
  rw [he] at h
  cases h

namespace EventStore

section

variable {limit : ℕ} {event stamped : Event} {env : AppendEnv} {row : EventRow}

theorem toEvent_of_legible (hwell : event.fields.WellFormed)
    (hprepare : prepare event env = .ok (stamped, row))
    (hlegible : event.fields.Legible limit env.stamp) :
    ∃ read, toEvent limit row = .ok read ∧ read.fields.SameAs stamped.fields := by
  obtain ⟨hfields, hrow⟩ := prepare_ok hprepare
  obtain ⟨raw, extracted, explanation, hraw, hextracted, hexplanation, rfl⟩ := ofDict_ok_iff.mp hrow
  have hstamp : stamped.fields.ingestedAt = some env.stamp := by rw [hfields]
  obtain ⟨htimestamp, hingested, hrawDepth, hextractedDepth, hexplanationDepth⟩ := hlegible
  obtain ⟨timestamp, htime, hinstant, hoffset⟩ := Datetime.astimezoneUtc_ok htimestamp
  obtain ⟨ingestedAt, htime', hinstant', hoffset'⟩ := Datetime.astimezoneUtc_ok hingested
  have hsame : stamped.fields.timestamp = event.fields.timestamp ∧
      stamped.fields.rawAttributes = event.fields.rawAttributes ∧
      stamped.fields.extractedFeatures = event.fields.extractedFeatures ∧
      stamped.fields.explanation = event.fields.explanation := by
    rw [hfields]
    exact ⟨rfl, rfl, rfl, rfl⟩
  obtain ⟨htimestampEq, hrawEq, hextractedEq, hexplanationEq⟩ := hsame
  rw [Event.toDict, hrawEq] at hraw
  rw [Event.toDict, hextractedEq] at hextracted
  rw [Event.toDict, hexplanationEq] at hexplanation
  obtain ⟨limit, rfl⟩ : ∃ n, limit = n + 1 := by
    unfold Mapping.depth at hrawDepth
    exact ⟨limit - 1, by omega⟩
  have hreads : stamped.fields.Readable limit := by
    refine ⟨?_, ?_, ?_⟩
    · rw [hrawEq]
      exact readable_of_wellFormed hwell.raw_attributes hraw hrawDepth
    · rw [hextractedEq]
      exact readable_of_wellFormed hwell.extracted_features hextracted hextractedDepth
    · rw [hexplanationEq]
      exact readable_of_wellFormed hwell.explanation hexplanation hexplanationDepth
  rw [← htimestampEq] at htime hinstant
  rw [← hrawEq] at hraw
  rw [← hextractedEq] at hextracted
  rw [← hexplanationEq] at hexplanation
  exact ⟨inUtc stamped timestamp ingestedAt hoffset hoffset',
    toEvent_writtenRow hstamp hraw hextracted hexplanation hreads hoffset hoffset' htime htime',
    sameAs_inUtc hstamp hinstant hinstant'⟩

theorem legible_of_toEvent {read : Event} (hwell : event.fields.WellFormed)
    (hprepare : prepare event env = .ok (stamped, row)) (hread : toEvent limit row = .ok read) :
    event.fields.Legible limit env.stamp := by
  obtain ⟨hfields, hrow⟩ := prepare_ok hprepare
  obtain ⟨raw, extracted, explanation, hraw, hextracted, hexplanation, rfl⟩ := ofDict_ok_iff.mp hrow
  rw [Event.toDict, hfields] at hraw hextracted hexplanation hread
  unfold toEvent at hread
  simp only [Py.bind_eq_ok] at hread
  obtain ⟨rawValue, hrawLoads, extractedValue, hextractedLoads, explanationValue,
    hexplanationLoads, -, -, -, -, -, -, -, -, timestamp, htimestamp, -, -, -, -, -, -, -, -,
    ingestedAt, hingestedAt, -⟩ := hread
  exact {
    timestamp := inCalendar_of_utcTime htimestamp
    ingested_at := inCalendar_of_utcTime hingestedAt
    raw_attributes :=
      (loadsText_of_wellFormed hwell.raw_attributes hraw limit).mp ⟨_, hrawLoads⟩
    extracted_features :=
      (loadsText_of_wellFormed hwell.extracted_features hextracted limit).mp ⟨_, hextractedLoads⟩
    explanation :=
      (loadsText_of_wellFormed hwell.explanation hexplanation limit).mp ⟨_, hexplanationLoads⟩ }

end

/-- Whatever comes to a row gives back the event that was stamped. A query reads every row it
selects, so the others must be readable too. -/
structure ReadsBack (limit : ℕ) (stamped : Event) (row : EventRow) (s : EventStore) : Prop where
  get : ∃ event, s.get limit stamped.fields.eventId = .ok (some event) ∧
    event.fields.SameAs stamped.fields
  query : ∀ q, Sql.FitsInteger q.limit → row ∈ s.queryRows q →
    (∀ other ∈ s.queryRows q, other ≠ row → ∃ event, toEvent limit other = .ok event) →
    ∃ events, s.query limit q = .ok events ∧ ∃ event ∈ events, event.fields.SameAs stamped.fields
  verdict_types : ∀ ids, stamped.fields.eventId ∈ ids → (∀ eventId ∈ ids, Encodes eventId) →
    ∃ types, s.verdictTypes ids = .ok types ∧ types.get? stamped.fields.eventId =
      some ((deriveVerdictType stamped.fields.confidence).map VerdictType.value)

theorem verdictExpression_eq (confidence : Option Float) :
    verdictExpression confidence = (deriveVerdictType confidence).map VerdictType.value := by
  cases confidence with
  | none => rfl
  | some x =>
    unfold verdictExpression deriveVerdictType
    dsimp only
    split_ifs <;> rfl

theorem any_encode_eq_false {texts : List Str} (h : ∀ t ∈ texts, Encodes t) :
    (texts.any fun t => (Py.encodeUtf8 t).isNone) = false := by
  simp only [List.any_eq_false, Bool.not_eq_true, Py.encodeUtf8_isNone_iff]
  exact h

section

variable {limit : ℕ} {row : EventRow} {s : EventStore}

theorem get_of_mem (hrow : row ∈ s.db.events.rows) (hencodes : Encodes row.eventId) :
    s.get limit row.eventId = (toEvent limit row).map some := by
  have hsome : (Py.encodeUtf8 row.eventId).isNone = false :=
    Py.encodeUtf8_isNone_iff.mpr hencodes
  rw [get, hsome, s.db.events.find?_key hrow]
  rfl

theorem verdictTypes_of_mem (hrow : row ∈ s.db.events.rows) {ids : List Str}
    (hid : row.eventId ∈ ids) (hencodes : ∀ eventId ∈ ids, Encodes eventId) :
    ∃ types, s.verdictTypes ids = .ok types ∧
      types.get? row.eventId = some (verdictExpression row.confidence) := by
  rw [verdictTypes, any_encode_eq_false hencodes]
  refine ⟨_, rfl, ?_⟩
  set selected := s.db.events.rows.filter fun row => row.eventId ∈ ids with hselected
  have hdistinct : ((selected.map fun row =>
      (row.eventId, verdictExpression row.confidence)).map Prod.fst).Nodup := by
    rw [List.map_map]
    exact s.db.events.distinct.sublist (List.filter_sublist.map _)
  rw [Dict.get?_eq_some, Dict.entries_ofPairs, Py.dictOf_of_nodup hdistinct, List.mem_map]
  refine ⟨row, ?_, rfl⟩
  rw [hselected, List.mem_filter, decide_eq_true_eq]
  exact ⟨hrow, hid⟩

theorem matches_of_mem_queryRows {q : EventQuery} (h : row ∈ s.queryRows q) :
    q.matches row = true := by
  unfold queryRows at h
  dsimp only at h
  split_ifs at h
  · exact (List.mem_filter.mp h).2
  · exact (List.mem_filter.mp (List.mem_of_mem_take h)).2

theorem query_of_readable {q : EventQuery} (hlimit : Sql.FitsInteger q.limit)
    (htenant : ∀ tenantId ∈ q.tenantId, Encodes tenantId)
    (hreads : ∀ other ∈ s.queryRows q, ∃ event, toEvent limit other = .ok event) :
    ∃ events, s.query limit q = .ok events ∧
      List.Forall₂ (fun row event => toEvent limit row = .ok event) (s.queryRows q) events := by
  have hbinds : (q.tenantId.any fun tenantId => (Py.encodeUtf8 tenantId).isNone) = false := by
    cases hq : q.tenantId with
    | none => rfl
    | some tenantId => exact Py.encodeUtf8_isNone_iff.mpr (htenant tenantId hq)
  obtain ⟨events, hevents⟩ := Py.exists_forall₂ hreads
  refine ⟨events, ?_, hevents⟩
  rw [query, hbinds, if_neg Bool.false_ne_true, if_neg (not_not.mpr hlimit)]
  exact Py.mapM_eq_ok_iff.mpr hevents

end

section

variable {event stamped : Event} {env : AppendEnv} {row : EventRow}

theorem columns_of_prepare (h : prepare event env = .ok (stamped, row)) :
    row.eventId = stamped.fields.eventId ∧ row.tenantId = stamped.fields.tenantId ∧
      row.confidence = stamped.fields.confidence := by
  obtain ⟨-, hrow⟩ := prepare_ok h
  obtain ⟨raw, extracted, explanation, -, -, -, rfl⟩ := ofDict_ok_iff.mp hrow
  exact ⟨rfl, rfl, rfl⟩

theorem encodes_of_append {s : EventStore} (happend : (s.append event env).1 = .ok stamped)
    (hprepare : prepare event env = .ok (stamped, row)) : ∀ t ∈ row.textParameters, Encodes t := by
  obtain ⟨⟨stamped', row', db, hprepare', hinsert⟩, -⟩ :=
    (append_ok_iff event env s).mp ⟨stamped, happend⟩
  rw [hprepare] at hprepare'
  cases hprepare'
  exact (insertEvent_ok_iff.mp ⟨db, hinsert⟩).1

/-- A row that is read as the stamped event is what every query gives back. -/
theorem readsBack_of_toEvent {limit : ℕ} {read : Event} {s : EventStore}
    (hprepare : prepare event env = .ok (stamped, row))
    (hencodes : ∀ t ∈ row.textParameters, Encodes t) (hrow : row ∈ s.db.events.rows)
    (hread : toEvent limit row = .ok read) (hsame : read.fields.SameAs stamped.fields) :
    ReadsBack limit stamped row s := by
  obtain ⟨hid, htenant, hconfidence⟩ := columns_of_prepare hprepare
  have hidEncodes : Encodes row.eventId := hencodes _ (by simp [EventRow.textParameters])
  have htenantEncodes : Encodes row.tenantId := hencodes _ (by simp [EventRow.textParameters])
  refine ⟨?_, ?_, ?_⟩
  · refine ⟨read, ?_, hsame⟩
    rw [← hid, get_of_mem hrow hidEncodes, hread]
    rfl
  · intro q hlimit hselected hothers
    have hbinds : ∀ tenantId ∈ q.tenantId, Encodes tenantId := by
      intro tenantId htenantId
      have hmatches := matches_of_mem_queryRows hselected
      unfold EventQuery.matches at hmatches
      rw [Option.mem_def.mp htenantId] at hmatches
      simp only [Option.all_some, Bool.and_eq_true, beq_iff_eq] at hmatches
      rw [hmatches.1.1.1.1]
      exact htenantEncodes
    have hreads : ∀ other ∈ s.queryRows q, ∃ event, toEvent limit other = .ok event := by
      intro other hother
      by_cases heq : other = row
      · exact ⟨read, heq ▸ hread⟩
      · exact hothers other hother heq
    obtain ⟨events, hevents, hforall⟩ := query_of_readable hlimit hbinds hreads
    obtain ⟨event, hevent, hevent'⟩ := Py.exists_mem_of_forall₂ hforall hselected
    rw [hread] at hevent'
    cases hevent'
    exact ⟨events, hevents, read, hevent, hsame⟩
  · intro ids hmem hidsEncode
    rw [← hid] at hmem
    obtain ⟨types, htypes, hget⟩ := verdictTypes_of_mem hrow hmem hidsEncode
    refine ⟨types, htypes, ?_⟩
    rw [← hid, hget, hconfidence, verdictExpression_eq]

/-- `get` alone shows that the event is legible. -/
theorem legible_of_readsBack {limit : ℕ} {s : EventStore} (hwell : event.fields.WellFormed)
    (hprepare : prepare event env = .ok (stamped, row))
    (hencodes : ∀ t ∈ row.textParameters, Encodes t) (hrow : row ∈ s.db.events.rows)
    (h : ReadsBack limit stamped row s) : event.fields.Legible limit env.stamp := by
  obtain ⟨read, hget, -⟩ := h.get
  have hidEncodes : Encodes row.eventId := hencodes _ (by simp [EventRow.textParameters])
  rw [← (columns_of_prepare hprepare).1, get_of_mem hrow hidEncodes] at hget
  cases hread : toEvent limit row with
  | error e =>
    rw [hread] at hget
    cases hget
  | ok read' => exact legible_of_toEvent hwell hprepare hread

/-- Whatever has happened since an event was appended: while its row is in the table, every query
gives the event back exactly when the event is legible. -/
theorem readsBack_iff {s : EventStore} (hwell : event.fields.WellFormed)
    (happend : (s.append event env).1 = .ok stamped)
    (hprepare : prepare event env = .ok (stamped, row)) (ops : List Op) (limit : ℕ) :
    let later := run Op.step ops (s.append event env).2
    row ∈ later.db.events.rows →
      (ReadsBack limit stamped row later ↔ event.fields.Legible limit env.stamp) := by
  intro later hrow
  have hencodes := encodes_of_append happend hprepare
  constructor
  · exact legible_of_readsBack hwell hprepare hencodes hrow
  · intro h
    obtain ⟨read, hread, hsame⟩ := toEvent_of_legible hwell hprepare h
    exact readsBack_of_toEvent hprepare hencodes hrow hread hsame

end

/-- An event with a level, a confidence and a nested mapping is given back. -/
theorem readsBack_iff_scored : ∃ stamped row,
    prepare scoredEvent (envWithFree none) = .ok (stamped, row) ∧
      ReadsBack 3 stamped row
        ((init Db.empty none none).append scoredEvent (envWithFree none)).2 := by
  have haccepts : (init Db.empty none none).Accepts scoredEvent (envWithFree none) :=
    accepts_of_storable rfl List.not_mem_nil storable_scoredEvent (by decide) (by decide)
  obtain ⟨stamped, row, -, hprepare, -⟩ := id haccepts
  obtain ⟨events, n, happend, hrows⟩ := append_of_unlimited ⟨rfl, rfl, rfl⟩ haccepts hprepare
  have hempty : Mapping.WellFormed ∅ := fun entry hentry => nomatch hentry
  have hnested : nestedAttributes.WellFormed := by
    intro entry hentry
    rw [List.mem_singleton.mp hentry]
    have hfinite : (0.5 : Float).isFinite = true := by decide +kernel
    exact ⟨_, rfl, by decide, ⟨trivial, hfinite, trivial, trivial⟩, trivial, trivial⟩
  have hmem : row ∈ ((init Db.empty none none).append scoredEvent
      (envWithFree none)).2.db.events.rows := by
    rw [happend]
    show row ∈ events.rows
    rw [hrows]
    exact List.mem_append_right _ (List.mem_singleton_self _)
  refine ⟨stamped, row, hprepare, ?_⟩
  exact (readsBack_iff ⟨hnested, hempty, hempty⟩ (congrArg Prod.fst happend) hprepare [] 3 hmem).mpr
    ⟨by decide, by decide, by decide, by decide, by decide⟩

/-- Midnight of the first day there is, five hours east of UTC. -/
def firstMidnight : Datetime :=
  { year := 1
    month := 1
    day := 1
    hour := 0
    minute := 0
    second := 0
    microsecond := 0
    utcoffset := some (5 * 3600 * 1000000)
    date_valid := by decide
    time_valid := Datetime.midnight_valid
    offset_valid := by decide }

def plainAtFirstMidnight : Event where
  fields := { (Event.plain (str "EVT-1") Event.strip_evt1).fields with timestamp := firstMidnight }
  admissible := { (Event.plain (str "EVT-1") Event.strip_evt1).admissible with
    timestamp := by decide
    enforced := (Event.plain (str "EVT-1") Event.strip_evt1).admissible.enforced }

/-- It is appended, and no limit lets the store give it back. -/
theorem not_readsBack_firstMidnight : ¬∀ (event stamped : Event) (env : AppendEnv) (row : EventRow)
    (s : EventStore) (ops : List Op), event.fields.WellFormed →
      (s.append event env).1 = .ok stamped → prepare event env = .ok (stamped, row) →
      row ∈ (run Op.step ops (s.append event env).2).db.events.rows →
      ∃ limit, ReadsBack limit stamped row (run Op.step ops (s.append event env).2) := by
  intro h
  have hplain := @storable_plain (str "EVT-1") (by decide) (by decide)
  have hstorable : plainAtFirstMidnight.fields.Storable := { hplain with texts := hplain.texts }
  have haccepts : (init Db.empty none none).Accepts plainAtFirstMidnight (envWithFree none) :=
    accepts_of_storable rfl List.not_mem_nil hstorable (by decide) (by decide)
  have htaken := haccepts
  obtain ⟨stamped, row, db, hprepare, hinsert⟩ := htaken
  obtain ⟨events, n, happend, hrows⟩ := append_of_unlimited ⟨rfl, rfl, rfl⟩ haccepts hprepare
  have hempty : Mapping.WellFormed ∅ := fun entry hentry => nomatch hentry
  have hwell : plainAtFirstMidnight.fields.WellFormed := ⟨hempty, hempty, hempty⟩
  have hmem : row ∈ (run Op.step [] ((init Db.empty none none).append plainAtFirstMidnight
      (envWithFree none)).2).db.events.rows := by
    rw [run_nil, happend]
    show row ∈ events.rows
    rw [hrows]
    exact List.mem_append_right _ (List.mem_singleton_self _)
  have hreturns := congrArg Prod.fst happend
  obtain ⟨limit, hreads⟩ := h _ _ _ _ _ [] hwell hreturns hprepare hmem
  have hlegible := legible_of_readsBack hwell hprepare (insertEvent_ok_iff.mp ⟨db, hinsert⟩).1 hmem
    hreads
  exact absurd hlegible.timestamp (by decide)

end EventStore

end Ebabf
