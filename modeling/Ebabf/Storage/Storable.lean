import Ebabf.Py.Isoformat
import Ebabf.Py.JsonText
import Ebabf.Storage.Runs
import Mathlib.Data.List.TakeWhile

/-!
# Events that can be stored

Which of the events the constructor accepts `append` takes: SQLite encodes every text it is given,
and `json.dumps` must get through the mappings. The strings of an event reach the database as they
are, so the ones with a surrogate in them are refused.
-/

namespace Ebabf

open Py (Str str Exc Datetime Json Encodes)

/-- A value `json.dumps` writes without a surrogate. -/
def AnyValue.Writable (value : AnyValue) : Prop :=
  ∃ v, value = .json v ∧ v.printable = true ∧ ∀ t ∈ v.texts, Encodes t

def Mapping.Writable (mapping : Mapping) : Prop :=
  ∀ entry ∈ mapping.entries, Encodes entry.1 ∧ entry.2.Writable

/-- The texts of an event that are its own, outside the mappings. -/
def EventFields.texts (f : EventFields) : List Str :=
  [f.eventId, f.hostId, f.tenantId] ++ f.degradedLayers ++ f.triggeredRuleIds ++ [f.schemaVersion]

structure EventFields.Storable (f : EventFields) : Prop where
  texts : ∀ t ∈ f.texts, Encodes t
  raw_attributes : Mapping.Writable f.rawAttributes
  extracted_features : Mapping.Writable f.extractedFeatures
  explanation : Mapping.Writable f.explanation

theorem encodes_fractionText (microsecond : ℕ) : Encodes (Datetime.fractionText microsecond) := by
  unfold Datetime.fractionText
  split_ifs <;> simp

theorem encodes_offsetText (offset : ℤ) : Encodes (Datetime.offsetText offset) := by
  unfold Datetime.offsetText
  dsimp only
  split_ifs <;> simp [Datetime.colon, encodes_fractionText]

theorem encodes_isoformat (d : Datetime) : Encodes d.isoformat := by
  unfold Datetime.isoformat
  cases d.utcoffset with
  | none => simp [Datetime.colon, encodes_fractionText]
  | some offset => simp [Datetime.colon, encodes_fractionText, encodes_offsetText]

theorem encodes_source (source : EventSource) : Encodes source.value := by
  cases source <;> exact Py.encodes_str _

theorem encodes_level (level : RiskLevel) : Encodes level.value := by
  cases level <;> exact Py.encodes_str _

theorem encodes_decision (decision : Decision) : Encodes decision.value := by
  cases decision <;> exact Py.encodes_str _

theorem encodes_blockedReason (reason : EnforcementBlockedReason) : Encodes reason.value := by
  cases reason <;> exact Py.encodes_str _

/-- A pseudonym is the prefix and lower-case digits, with at most a newline after them. -/
theorem pseudonym_ascii {s : Str} (h : pseudonymPatternMatches s = true) :
    s.take 4 = str "USR-" ∧ ∀ c ∈ s, 0 < c.val ∧ c.val < 0xD800 := by
  unfold pseudonymPatternMatches at h
  simp only [Bool.and_eq_true, Bool.or_eq_true, beq_iff_eq] at h
  obtain ⟨⟨⟨hstart, -⟩, hhex⟩, hend⟩ := h
  rw [List.all_eq_true] at hhex
  refine ⟨hstart, ?_⟩
  intro c hc
  rw [← List.take_append_drop 4 s, hstart, ← List.take_append_drop 32 (s.drop 4),
    List.drop_drop] at hc
  rcases List.mem_append.mp hc with hprefix | hrest
  · obtain ⟨d, hd, rfl⟩ := List.mem_map.mp hprefix
    have hall : ∀ d ∈ "USR-".toList, 0 < d.toNat ∧ d.toNat < 0xD800 := by simp
    exact hall d hd
  · rcases List.mem_append.mp hrest with hdigit | hnewline
    · have hlower := hhex c hdigit
      unfold isLowerHex at hlower
      simp only [Bool.or_eq_true, Bool.and_eq_true, decide_eq_true_eq] at hlower
      omega
    · rcases hend with hempty | hnl
      · rw [hempty] at hnewline
        cases hnewline
      · rw [hnl] at hnewline
        rw [List.mem_singleton.mp hnewline]
        decide

theorem encodes_pseudonym {s : Str} (h : pseudonymPatternMatches s = true) : Encodes s :=
  fun c hc => Py.isSome_toChar? ((pseudonym_ascii h).2 c hc).2

theorem pseudonymCheck_of_matches {row : EventRow}
    (h : pseudonymPatternMatches row.subjectPseudonym = true)
    (hlength : row.subjectPseudonym.length = 36) : row.pseudonymCheck = true := by
  obtain ⟨hstart, hchars⟩ := pseudonym_ascii h
  have hwhole : row.subjectPseudonym.takeWhile (fun c => c.val != 0) = row.subjectPseudonym := by
    rw [List.takeWhile_eq_self_iff]
    intro c hc
    exact bne_iff_ne.mpr (hchars c hc).1.ne'
  rw [EventRow.pseudonymCheck, EventRow.sqlLength, hwhole, hlength, hstart]
  rfl

theorem toJson_ok_iff {value : AnyValue} {v : Json} :
    value.toJson = .ok v ↔ value = .json v ∧ v.printable = true := by
  cases value with
  | json w =>
    simp only [AnyValue.toJson, AnyValue.json.injEq]
    split_ifs with h
    · simp only [Except.ok.injEq]
      constructor
      · intro heq
        exact ⟨heq, heq ▸ h⟩
      · exact And.left
    · simp only [false_iff, not_and]
      intro heq
      exact heq ▸ h
  | unserializable type => simp [AnyValue.toJson]
  | circular => simp [AnyValue.toJson]
  | tooDeep => simp [AnyValue.toJson]

theorem dumpsMapping_ok_iff {mapping : Mapping} {text : Str} :
    dumpsMapping mapping = .ok text ↔ ∃ members : List (Str × Json),
      List.Forall₂ (fun entry member => entry.1 = member.1 ∧ entry.2.toJson = .ok member.2)
        mapping.entries members ∧ text = Json.dumps none (.obj members) := by
  have hentry : ∀ (entry : Str × AnyValue) (member : Str × Json),
      (entry.2.toJson.map fun v => (entry.1, v)) = .ok member ↔
        entry.1 = member.1 ∧ entry.2.toJson = .ok member.2 := by
    intro entry member
    obtain ⟨key, v⟩ := member
    cases entry.2.toJson with
    | error e => simp [Except.map]
    | ok w => simp [Except.map]
  have hmembers : ∀ members : List (Str × Json),
      (mapping.entries.mapM fun entry => entry.2.toJson.map fun v => (entry.1, v)) = .ok members ↔
        List.Forall₂ (fun entry member => entry.1 = member.1 ∧ entry.2.toJson = .ok member.2)
          mapping.entries members := by
    intro members
    rw [Py.mapM_eq_ok_iff]
    simp only [hentry]
  simp only [← hmembers]
  rw [dumpsMapping_eq]
  cases mapping.entries.mapM fun entry => entry.2.toJson.map fun v => (entry.1, v) with
  | error e => simp [Except.map]
  | ok members => simp [Except.map, eq_comm]

theorem textsMembers_encodes_iff {entries : List (Str × AnyValue)} {members : List (Str × Json)}
    (h : List.Forall₂ (fun entry member => entry.1 = member.1 ∧ entry.2.toJson = .ok member.2)
      entries members) :
    (∀ t ∈ Json.textsMembers members, Encodes t) ↔
      ∀ entry ∈ entries, Encodes entry.1 ∧ entry.2.Writable := by
  induction h with
  | nil => simp [Json.textsMembers]
  | @cons entry member entries members hentry _ ih =>
    obtain ⟨hkey, hvalue⟩ := hentry
    obtain ⟨hjson, hprintable⟩ := toJson_ok_iff.mp hvalue
    have hwritable : entry.2.Writable ↔ ∀ t ∈ member.2.texts, Encodes t := by
      constructor
      · intro h
        obtain ⟨v, hv, -, htexts⟩ := h
        rw [hjson, AnyValue.json.injEq] at hv
        exact hv ▸ htexts
      · intro htexts
        exact ⟨member.2, hjson, hprintable, htexts⟩
    rw [Json.textsMembers, List.forall_mem_cons, List.forall_mem_append, List.forall_mem_cons, ih,
      hwritable, hkey, and_assoc]

theorem dumpsMapping_encodes_iff (mapping : Mapping) :
    (∃ text, dumpsMapping mapping = .ok text ∧ Encodes text) ↔ Mapping.Writable mapping := by
  constructor
  · intro h
    obtain ⟨text, htext, hencodes⟩ := h
    obtain ⟨members, hmembers, rfl⟩ := dumpsMapping_ok_iff.mp htext
    exact (textsMembers_encodes_iff hmembers).mp ((Json.encodes_dumps none _).mp hencodes)
  · intro h
    have hmembers : ∃ members : List (Str × Json), List.Forall₂ (fun entry member =>
        entry.1 = member.1 ∧ entry.2.toJson = .ok member.2) mapping.entries members := by
      apply Py.exists_forall₂
      intro entry hentry
      obtain ⟨-, v, hv, hprintable, -⟩ := h entry hentry
      exact ⟨(entry.1, v), rfl, toJson_ok_iff.mpr ⟨hv, hprintable⟩⟩
    obtain ⟨members, hmembers⟩ := hmembers
    exact ⟨_, dumpsMapping_ok_iff.mpr ⟨members, hmembers, rfl⟩,
      (Json.encodes_dumps none _).mpr ((textsMembers_encodes_iff hmembers).mpr h)⟩

theorem encodes_dumpsTexts (texts : List Str) :
    Encodes (dumpsTexts texts) ↔ ∀ t ∈ texts, Encodes t := by
  have hitems : Json.textsItems (texts.map Json.str) = texts := by
    induction texts with
    | nil => rfl
    | cons t texts ih => rw [List.map_cons, Json.textsItems, ih]; rfl
  rw [dumpsTexts, Json.encodes_dumps, Json.texts, hitems]

namespace EventStore

theorem encodes_writtenRow {event : Event} {stamp : Datetime}
    (hstamp : event.fields.ingestedAt = some stamp) (raw extracted explanation : Str) :
    (∀ t ∈ (writtenRow event.toDict raw extracted explanation).textParameters, Encodes t) ↔
      (∀ t ∈ event.fields.texts, Encodes t) ∧ Encodes raw ∧ Encodes extracted ∧
        Encodes explanation := by
  have hpseudonym := encodes_pseudonym event.admissible.subject_pseudonym
  have hlevel : ∀ level ∈ event.fields.level.map RiskLevel.value, Encodes level := by
    intro text h
    obtain ⟨level, -, rfl⟩ := Option.mem_map.mp h
    exact encodes_level level
  have hdecision : ∀ decision ∈ event.fields.decision.map Decision.value, Encodes decision := by
    intro text h
    obtain ⟨decision, -, rfl⟩ := Option.mem_map.mp h
    exact encodes_decision decision
  have hreason : ∀ reason ∈ event.fields.enforcementBlockedReason.map
      EnforcementBlockedReason.value, Encodes reason := by
    intro text h
    obtain ⟨reason, -, rfl⟩ := Option.mem_map.mp h
    exact encodes_blockedReason reason
  have hingested : Encodes ((event.fields.ingestedAt.map Datetime.isoformat).getD []) := by
    rw [hstamp]
    exact encodes_isoformat stamp
  simp only [EventRow.textParameters, writtenRow, Event.toDict, EventFields.texts,
    List.forall_mem_append, List.forall_mem_cons, Option.mem_toList, encodes_dumpsTexts,
    encodes_isoformat, encodes_source, hpseudonym, hingested, true_and]
  tauto

theorem insertEvent_ok_iff {row : EventRow} {db : Db} : (∃ db', db.insertEvent row = .ok db') ↔
    (∀ t ∈ row.textParameters, Encodes t) ∧ row.pseudonymCheck = true ∧ row.enforcedCheck = true ∧
      row.truthfulCheck = true ∧ db.rowCount < SQLITE_MAX_ROWS ∧
        row.eventId ∉ db.events.rows.map EventRow.eventId := by
  have htexts : (row.textParameters.any fun t => (Py.encodeUtf8 t).isNone) = false ↔
      ∀ t ∈ row.textParameters, Encodes t := by
    simp only [List.any_eq_false, Bool.not_eq_true, Py.encodeUtf8_isNone_iff]
  rw [← htexts, ← Nat.not_le, ← Sql.Table.insert_eq_none.not]
  unfold Db.insertEvent
  cases row.textParameters.any fun t => (Py.encodeUtf8 t).isNone <;>
    cases row.pseudonymCheck <;> cases row.enforcedCheck <;> cases row.truthfulCheck <;> simp
  split_ifs with hfull
  · simp [hfull]
  · cases db.events.insert row <;> simp [Nat.not_le.mp hfull]

/-- An event with the time of its append. -/
def stampedAt (event : Event) (stamp : Datetime) (h : stamp.utcoffset ≠ none) : Event where
  fields := { event.fields with ingestedAt := some stamp }
  admissible := { event.admissible with
    ingested_at := by
      intro t ht
      cases ht
      exact h }

/-- Stamping fails on a naive time only. -/
theorem prepare_ok_iff {event stamped : Event} {env : AppendEnv} {row : EventRow} :
    prepare event env = .ok (stamped, row) ↔
      stamped.fields = { event.fields with ingestedAt := some env.stamp } ∧
        EventRow.ofDict stamped.toDict = .ok row := by
  constructor
  · exact prepare_ok
  · intro h
    obtain ⟨hfields, hrow⟩ := h
    have hmake : event.enriched (fun f => { f with ingestedAt := some env.stamp }) = .ok stamped := by
      obtain ⟨fields, hadmissible⟩ := stamped
      dsimp only at hfields
      subst hfields
      exact Event.make_of_admissible hadmissible
    simp only [prepare, hmake, bind, Except.bind, hrow, pure, Except.pure]

theorem checks_of_prepare {event stamped : Event} {env : AppendEnv} {row : EventRow}
    (h : prepare event env = .ok (stamped, row))
    (hlength : event.fields.subjectPseudonym.length = 36) :
    row.pseudonymCheck = true ∧ row.enforcedCheck = true ∧ row.truthfulCheck = true := by
  obtain ⟨hfields, hrow⟩ := prepare_ok h
  obtain ⟨raw, extracted, explanation, -, -, -, rfl⟩ := ofDict_ok_iff.mp hrow
  have hpseudonym : stamped.fields.subjectPseudonym.length = 36 := by
    rw [hfields]
    exact hlength
  refine ⟨pseudonymCheck_of_matches stamped.admissible.subject_pseudonym hpseudonym, ?_, ?_⟩
  · unfold EventRow.enforcedCheck writtenRow
    dsimp only
    split_ifs <;> rfl
  · have htruthful := stamped.admissible.enforced
    unfold EventRow.truthfulCheck writtenRow Event.toDict
    dsimp only
    split_ifs with henforced
    · rw [(htruthful henforced).2]
      rfl
    · rfl

theorem prepare_encodes_iff {event : Event} {env : AppendEnv} :
    (∃ stamped row, prepare event env = .ok (stamped, row) ∧
        ∀ t ∈ row.textParameters, Encodes t) ↔
      event.fields.Storable ∧ env.stamp.utcoffset ≠ none := by
  constructor
  · intro h
    obtain ⟨stamped, row, hprepare, hencodes⟩ := h
    obtain ⟨hfields, hrow⟩ := prepare_ok hprepare
    obtain ⟨raw, extracted, explanation, hraw, hextracted, hexplanation, rfl⟩ := ofDict_ok_iff.mp hrow
    have hstamp : stamped.fields.ingestedAt = some env.stamp := by rw [hfields]
    obtain ⟨htexts, hraw', hextracted', hexplanation'⟩ := (encodes_writtenRow hstamp raw
      extracted explanation).mp hencodes
    have hwritable₁ := (dumpsMapping_encodes_iff _).mp ⟨raw, hraw, hraw'⟩
    have hwritable₂ := (dumpsMapping_encodes_iff _).mp ⟨extracted, hextracted, hextracted'⟩
    have hwritable₃ := (dumpsMapping_encodes_iff _).mp ⟨explanation, hexplanation, hexplanation'⟩
    simp only [Event.toDict, hfields] at hwritable₁ hwritable₂ hwritable₃
    rw [hfields] at htexts
    exact ⟨⟨htexts, hwritable₁, hwritable₂, hwritable₃⟩, (ingestedAt_of_prepare hprepare).1⟩
  · intro h
    obtain ⟨hstorable, haware⟩ := h
    obtain ⟨raw, hraw, hraw'⟩ := (dumpsMapping_encodes_iff _).mpr hstorable.raw_attributes
    obtain ⟨extracted, hextracted, hextracted'⟩ :=
      (dumpsMapping_encodes_iff _).mpr hstorable.extracted_features
    obtain ⟨explanation, hexplanation, hexplanation'⟩ :=
      (dumpsMapping_encodes_iff _).mpr hstorable.explanation
    have hrow : EventRow.ofDict (stampedAt event env.stamp haware).toDict =
        .ok (writtenRow (stampedAt event env.stamp haware).toDict raw extracted explanation) :=
      ofDict_ok_iff.mpr ⟨raw, extracted, explanation, hraw, hextracted, hexplanation, rfl⟩
    have hstamp : (stampedAt event env.stamp haware).fields.ingestedAt = some env.stamp := rfl
    have hencodes := (encodes_writtenRow hstamp raw extracted explanation).mpr
      ⟨hstorable.texts, hraw', hextracted', hexplanation'⟩
    exact ⟨_, _, prepare_ok_iff.mpr ⟨rfl, hrow⟩, hencodes⟩

theorem accepts_of_storable {event : Event} {env : AppendEnv} {s : EventStore}
    (hlength : event.fields.subjectPseudonym.length = 36)
    (hfresh : event.fields.eventId ∉ s.db.events.rows.map EventRow.eventId)
    (hstorable : event.fields.Storable) (haware : env.stamp.utcoffset ≠ none)
    (hroom : s.db.rowCount < SQLITE_MAX_ROWS) : s.Accepts event env := by
  obtain ⟨stamped, row, hprepare, hencodes⟩ := prepare_encodes_iff.mpr ⟨hstorable, haware⟩
  obtain ⟨hpseudonym, henforced, htruthful⟩ := checks_of_prepare hprepare hlength
  have hid := eventId_of_prepare hprepare
  obtain ⟨db, hinsert⟩ := insertEvent_ok_iff.mpr
    ⟨hencodes, hpseudonym, henforced, htruthful, hroom, hid ▸ hfresh⟩
  exact ⟨stamped, row, db, hprepare, hinsert⟩

theorem storable_plain {eventId : Str} (h : Py.strip eventId ≠ []) (hencodes : Encodes eventId) :
    (Event.plain eventId h).fields.Storable := by
  have hempty : Mapping.Writable ∅ := fun entry hentry => nomatch hentry
  have hrest : ∀ t ∈ [str "host", str "default", SCHEMA_VERSION], Encodes t := by decide
  exact ⟨List.forall_mem_cons.mpr ⟨hencodes, hrest⟩, hempty, hempty, hempty⟩

/-- A mapping in a mapping, with texts beyond ASCII. -/
def nestedAttributes : Mapping where
  entries := [(str "prozeß", .json (.obj [(str "größe", .arr [.int (-3), .float 0.5, .null]),
    (str "naïve", .bool true)]))]
  nodup := List.nodup_singleton _

/-- An event with a level, a confidence and a rule. -/
def scoredEvent : Event where
  fields := { (Event.plain (str "EVT-1") Event.strip_evt1).fields with
    rawAttributes := nestedAttributes
    confidence := some 0.9
    level := some .high
    triggeredRuleIds := [str "règle-1"] }
  admissible := { (Event.plain (str "EVT-1") Event.strip_evt1).admissible with
    confidence := by
      rintro _ ⟨⟩
      decide +kernel
    enforced := (Event.plain (str "EVT-1") Event.strip_evt1).admissible.enforced }

theorem storable_scoredEvent : scoredEvent.fields.Storable := by
  have hempty : Mapping.Writable ∅ := fun entry hentry => nomatch hentry
  refine ⟨by decide, fun entry hentry => ?_, hempty, hempty⟩
  rw [List.mem_singleton.mp hentry]
  exact ⟨by decide, _, rfl, by decide, by decide⟩

theorem surrogate_valid : 0xDC80 < 0x110000 := by decide

/-- A process whose name holds the byte 0x80, as `os.fsdecode` reads it. -/
def undecodableName : Mapping where
  entries := [(str "process_name", .json (.str [⟨0xDC80, surrogate_valid⟩]))]
  nodup := List.nodup_singleton _

def undecodableProcess : Event where
  fields := { (Event.plain (str "EVT-1") Event.strip_evt1).fields with
    rawAttributes := undecodableName }
  admissible := { (Event.plain (str "EVT-1") Event.strip_evt1).admissible with
    enforced := (Event.plain (str "EVT-1") Event.strip_evt1).admissible.enforced }

end EventStore
end Ebabf
