import Ebabf.Storage.Eviction
import Ebabf.Transition

/-!
# Appending

What one append can do to a store: it is refused and changes nothing, or its row is inserted and
then the free-space check either stops it or lets it be counted.
-/

namespace Ebabf

open Py (Str str Exc ExcType Datetime Json)

namespace EventStore

/-- The row of the event can be built, and the table takes it. -/
def Accepts (event : Event) (env : AppendEnv) (s : EventStore) : Prop :=
  ∃ stamped row db, prepare event env = .ok (stamped, row) ∧ s.db.insertEvent row = .ok db

/-- The store is not halted, and no reading that is due now lies below its floor. -/
def GateOpen (env : AppendEnv) (s : EventStore) : Prop :=
  s.haltedReason = none ∧ ∀ floor ∈ s.minFreeBytes,
    FREE_SPACE_CHECK_EVERY ≤ s.appendsSinceSpaceCheck + 1 → ∀ free ∈ env.free, floor ≤ free

theorem type_of_dumpsMapping_error {mapping : Mapping} {e : Exc}
    (h : dumpsMapping mapping = .error e) : e.type ≠ storageHalted := by
  rw [dumpsMapping_eq] at h
  cases hm : mapping.entries.mapM fun entry => entry.2.toJson.map fun v => (entry.1, v) with
  | ok members =>
    rw [hm] at h
    cases h
  | error e' =>
    rw [hm] at h
    cases h
    obtain ⟨⟨key, value⟩, -, hvalue⟩ := Py.exists_of_mapM_error hm
    cases value with
    | json v =>
      unfold AnyValue.toJson at hvalue
      dsimp only at hvalue
      split_ifs at hvalue
      · cases hvalue
      · cases hvalue; decide
    | unserializable type =>
      cases hvalue
      exact ExcType.noConfusion
    | circular => cases hvalue; decide
    | tooDeep => cases hvalue; decide

theorem type_of_ofDict_error {payload : EventDict} {e : Exc}
    (h : EventRow.ofDict payload = .error e) : e.type ≠ storageHalted := by
  unfold EventRow.ofDict at h
  rcases Py.bind_eq_error.mp h with hraw | ⟨raw, -, h⟩
  · exact type_of_dumpsMapping_error hraw
  rcases Py.bind_eq_error.mp h with hextracted | ⟨extracted, -, h⟩
  · exact type_of_dumpsMapping_error hextracted
  rcases Py.bind_eq_error.mp h with hexplanation | ⟨explanation, -, h⟩
  · exact type_of_dumpsMapping_error hexplanation
  cases h

theorem type_of_prepare_error {event : Event} {env : AppendEnv} {e : Exc}
    (h : prepare event env = .error e) : e.type ≠ storageHalted := by
  unfold prepare at h
  rcases Py.bind_eq_error.mp h with hstamp | ⟨stamped, -, h⟩
  · rw [Event.type_of_make_error hstamp]
    decide
  rcases Py.bind_eq_error.mp h with hrow | ⟨row, -, h⟩
  · exact type_of_ofDict_error hrow
  cases h

theorem type_of_insertEvent_error {row : EventRow} {db : Db} {e : Exc}
    (h : db.insertEvent row = .error e) : e.type ≠ storageHalted := by
  unfold Db.insertEvent at h
  split_ifs at h
  · cases h; decide
  · cases h; decide
  · cases h; decide
  · cases h; decide
  · cases h; decide
  · split at h
    · cases h; decide
    · cases h

theorem append_of_not_accepts {event : Event} {env : AppendEnv} {s : EventStore}
    (h : ¬s.Accepts event env) :
    ∃ e, e.type ≠ storageHalted ∧ s.append event env = (.error e, s) := by
  unfold append
  split
  · rename_i e he
    exact ⟨e, type_of_prepare_error he, rfl⟩
  · rename_i stamped row hrow
    split
    · rename_i e he
      exact ⟨e, type_of_insertEvent_error he, rfl⟩
    · rename_i db hdb
      exact absurd ⟨stamped, row, db, hrow, hdb⟩ h

theorem checkFreeSpaceLocked_of_open (env : AppendEnv) (s : EventStore) (h : s.GateOpen env) :
    ∃ n, s.checkFreeSpaceLocked env = (.ok (), { s with appendsSinceSpaceCheck := n }) := by
  unfold checkFreeSpaceLocked
  split
  · rename_i reason hreason
    rw [h.1] at hreason
    cases hreason
  · split
    · exact ⟨_, rfl⟩
    · rename_i floor hfloor
      split_ifs with hdue
      · exact ⟨_, rfl⟩
      · split
        · exact ⟨_, rfl⟩
        · rename_i free hfree
          rw [if_pos (h.2 floor hfloor (Nat.not_lt.mp hdue) free hfree)]
          exact ⟨_, rfl⟩

theorem checkFreeSpaceLocked_of_closed (env : AppendEnv) (s : EventStore) (h : ¬s.GateOpen env) :
    ∃ reason gaps n, s.checkFreeSpaceLocked env = (.error ⟨storageHalted, reason⟩,
      { s with
        db := { s.db with coverageGaps := gaps }
        appendsSinceSpaceCheck := n
        haltedReason := some reason }) := by
  unfold checkFreeSpaceLocked
  split
  · rename_i reason hreason
    exact ⟨reason, s.db.coverageGaps, s.appendsSinceSpaceCheck, by rw [← hreason]⟩
  · rename_i hrunning
    split
    · rename_i hfloor
      exact absurd ⟨hrunning, by simp [hfloor]⟩ h
    · rename_i floor hfloor
      split_ifs with hdue
      · exact absurd ⟨hrunning, by simp [hfloor]; omega⟩ h
      · split
        · rename_i hfree
          exact absurd ⟨hrunning, by simp [hfree]⟩ h
        · rename_i free hfree
          split_ifs with hlow
          · exact absurd ⟨hrunning, by simp [hfloor, hfree, hlow]⟩ h
          · exact ⟨_, _, _, rfl⟩

theorem db_insertEvent {row : EventRow} {db db' : Db} (h : db.insertEvent row = .ok db') :
    db.rowCount < SQLITE_MAX_ROWS ∧ ∃ events : EventTable,
      events.rows = db.events.rows ++ [row] ∧ db' = { db with events } := by
  unfold Db.insertEvent at h
  split_ifs at h with _ _ _ _ hfull
  refine ⟨Nat.not_le.mp hfull, ?_⟩
  split at h
  · cases h
  · rename_i events hevents
    cases h
    exact ⟨events, Sql.Table.rows_insert hevents, rfl⟩

theorem append_of_closed {event : Event} {env : AppendEnv} {s : EventStore}
    (haccepts : s.Accepts event env) (hclosed : ¬s.GateOpen env) :
    ∃ (reason : Str) (gaps : List CoverageGap) (n : ℕ) (stamped : Event) (row : EventRow)
      (events : EventTable), prepare event env = .ok (stamped, row) ∧
      events.rows = s.db.events.rows ++ [row] ∧
      s.append event env = (.error ⟨storageHalted, reason⟩,
        { s with
          db := { s.db with events, coverageGaps := gaps }
          appendsSinceSpaceCheck := n
          haltedReason := some reason }) := by
  obtain ⟨stamped, row, db, hprepare, hinsert⟩ := haccepts
  obtain ⟨-, events, hrows, rfl⟩ := db_insertEvent hinsert
  obtain ⟨reason, gaps, n, hcheck⟩ := checkFreeSpaceLocked_of_closed
    env { s with db := { s.db with events } } hclosed
  refine ⟨reason, gaps, n, stamped, row, events, hprepare, hrows, ?_⟩
  simp only [append, hprepare, hinsert, hcheck]

/-- The store an append hands to the cap: one row and one count more. -/
def counted (events : EventTable) (n : ℕ) (s : EventStore) : EventStore :=
  { s with
    db := { s.db with events }
    appendsSinceSpaceCheck := n
    rowCount := s.rowCount + 1 }

theorem append_of_open {event : Event} {env : AppendEnv} {s : EventStore}
    (haccepts : s.Accepts event env) (hopen : s.GateOpen env) :
    ∃ (stamped : Event) (row : EventRow) (events : EventTable) (n : ℕ),
      prepare event env = .ok (stamped, row) ∧ s.db.rowCount < SQLITE_MAX_ROWS ∧
      events.rows = s.db.events.rows ++ [row] ∧
      s.append event env = (.ok stamped, (s.counted events n).enforceCap env) := by
  obtain ⟨stamped, row, db, hprepare, hinsert⟩ := haccepts
  obtain ⟨hroom, events, hrows, rfl⟩ := db_insertEvent hinsert
  obtain ⟨n, hcheck⟩ := checkFreeSpaceLocked_of_open
    env { s with db := { s.db with events } } hopen
  refine ⟨stamped, row, events, n, hprepare, hroom, hrows, ?_⟩
  simp only [append, hprepare, hinsert, hcheck]
  rfl

/-- The three things an append can do. -/
theorem append_cases (event : Event) (env : AppendEnv) (s : EventStore) :
    ¬s.Accepts event env ∨ s.Accepts event env ∧ ¬s.GateOpen env ∨
      s.Accepts event env ∧ s.GateOpen env := by
  tauto

/-- An append raises `StorageHalted` exactly when its row goes in and the gate is closed. -/
theorem append_halts_iff (event : Event) (env : AppendEnv) (s : EventStore) :
    (∃ reason, (s.append event env).1 = .error ⟨storageHalted, reason⟩) ↔
      s.Accepts event env ∧ ¬s.GateOpen env := by
  rcases append_cases event env s with h | h | h
  · obtain ⟨e, he, happend⟩ := append_of_not_accepts h
    simp only [happend, Except.error.injEq]
    exact ⟨fun ⟨reason, hreason⟩ => absurd (congrArg Exc.type hreason) he, fun h' => absurd h'.1 h⟩
  · obtain ⟨reason, gaps, n, stamped, row, events, -, -, happend⟩ := append_of_closed h.1 h.2
    rw [happend]
    exact ⟨fun _ => h, fun _ => ⟨reason, rfl⟩⟩
  · obtain ⟨stamped, row, events, n, -, -, -, happend⟩ := append_of_open h.1 h.2
    rw [happend]
    exact ⟨fun ⟨_, hreason⟩ => (nomatch hreason), fun h' => absurd h.2 h'.2⟩

theorem append_ok_iff (event : Event) (env : AppendEnv) (s : EventStore) :
    (∃ stamped, (s.append event env).1 = .ok stamped) ↔
      s.Accepts event env ∧ s.GateOpen env := by
  rcases append_cases event env s with h | h | h
  · obtain ⟨e, -, happend⟩ := append_of_not_accepts h
    rw [happend]
    exact ⟨fun ⟨_, hstamped⟩ => (nomatch hstamped), fun h' => absurd h'.1 h⟩
  · obtain ⟨reason, gaps, n, stamped, row, events, -, -, happend⟩ := append_of_closed h.1 h.2
    rw [happend]
    exact ⟨fun ⟨_, hstamped⟩ => (nomatch hstamped), fun h' => absurd h'.2 h.2⟩
  · obtain ⟨stamped, row, events, n, -, -, -, happend⟩ := append_of_open h.1 h.2
    rw [happend]
    exact ⟨fun _ => h, fun _ => ⟨stamped, rfl⟩⟩

theorem append_fst {event stamped : Event} {env : AppendEnv} {row : EventRow} {s : EventStore}
    (hprepare : prepare event env = .ok (stamped, row)) (haccepts : s.Accepts event env)
    (hopen : s.GateOpen env) : (s.append event env).1 = .ok stamped := by
  obtain ⟨stamped', row', events, n, hprepare', -, -, happend⟩ := append_of_open haccepts hopen
  rw [hprepare] at hprepare'
  cases hprepare'
  rw [happend]

theorem append_of_unlimited {event stamped : Event} {env : AppendEnv} {row : EventRow}
    {s : EventStore}
    (hlimits : s.maxEvents = none ∧ s.minFreeBytes = none ∧ s.haltedReason = none)
    (haccepts : s.Accepts event env) (hprepare : prepare event env = .ok (stamped, row)) :
    ∃ (events : EventTable) (n : ℕ), s.append event env = (.ok stamped, s.counted events n) ∧
      events.rows = s.db.events.rows ++ [row] := by
  have hopen : s.GateOpen env := by
    refine ⟨hlimits.2.2, fun floor hfloor => ?_⟩
    rw [hlimits.2.1] at hfloor
    cases hfloor
  obtain ⟨stamped', row', events, n, hprepare', -, hrows, happend⟩ := append_of_open haccepts hopen
  rw [hprepare] at hprepare'
  cases hprepare'
  have huncapped : (s.counted events n).enforceCap env = s.counted events n := by
    have hcap : (s.counted events n).maxEvents = none := hlimits.1
    unfold enforceCap
    rw [hcap]
  rw [huncapped] at happend
  exact ⟨events, n, happend, hrows⟩

/-- The row of an event whose mappings are given as texts. -/
def writtenRow (payload : EventDict) (rawAttributes extractedFeatures explanation : Str) : EventRow :=
  { eventId := payload.eventId
    timestamp := payload.timestamp
    ingestedAt := payload.ingestedAt.getD []
    hostId := payload.hostId
    tenantId := payload.tenantId
    subjectPseudonym := payload.subjectPseudonym
    source := payload.source
    rawAttributes
    extractedFeatures
    rawScore := payload.rawScore
    contextModifier := payload.contextModifier
    finalScore := payload.finalScore
    confidence := payload.confidence
    level := payload.level
    degradedLayers := dumpsTexts payload.degradedLayers
    triggeredRuleIds := dumpsTexts payload.triggeredRuleIds
    decision := payload.decision
    enforced := if payload.enforced then 1 else 0
    enforcementBlockedReason := payload.enforcementBlockedReason
    explanation
    schemaVersion := payload.schemaVersion }

theorem ofDict_ok_iff {payload : EventDict} {row : EventRow} :
    EventRow.ofDict payload = .ok row ↔ ∃ rawAttributes extractedFeatures explanation,
      dumpsMapping payload.rawAttributes = .ok rawAttributes ∧
      dumpsMapping payload.extractedFeatures = .ok extractedFeatures ∧
      dumpsMapping payload.explanation = .ok explanation ∧
      row = writtenRow payload rawAttributes extractedFeatures explanation := by
  constructor
  · intro h
    unfold EventRow.ofDict at h
    obtain ⟨raw, hraw, h⟩ := Py.bind_eq_ok.mp h
    obtain ⟨extracted, hextracted, h⟩ := Py.bind_eq_ok.mp h
    obtain ⟨explanation, hexplanation, h⟩ := Py.bind_eq_ok.mp h
    cases h
    exact ⟨raw, extracted, explanation, hraw, hextracted, hexplanation, rfl⟩
  · rintro ⟨raw, extracted, explanation, hraw, hextracted, hexplanation, rfl⟩
    exact Py.bind_eq_ok.mpr ⟨raw, hraw, Py.bind_eq_ok.mpr ⟨extracted, hextracted,
      Py.bind_eq_ok.mpr ⟨explanation, hexplanation, rfl⟩⟩⟩

theorem prepare_ok {event stamped : Event} {env : AppendEnv} {row : EventRow}
    (h : prepare event env = .ok (stamped, row)) :
    stamped.fields = { event.fields with ingestedAt := some env.stamp } ∧
      EventRow.ofDict stamped.toDict = .ok row := by
  unfold prepare at h
  obtain ⟨stamped', hstamp, h⟩ := Py.bind_eq_ok.mp h
  obtain ⟨row', hrow, h⟩ := Py.bind_eq_ok.mp h
  cases h
  exact ⟨Event.fields_of_make hstamp, hrow⟩

theorem ingestedAt_of_prepare {event stamped : Event} {env : AppendEnv} {row : EventRow}
    (h : prepare event env = .ok (stamped, row)) :
    env.stamp.utcoffset ≠ none ∧ row.ingestedAt = env.stamp.isoformat := by
  obtain ⟨hfields, hrow⟩ := prepare_ok h
  obtain ⟨rawAttributes, extractedFeatures, explanation, -, -, -, rfl⟩ := ofDict_ok_iff.mp hrow
  have hstamp : stamped.fields.ingestedAt = some env.stamp := by rw [hfields]
  refine ⟨stamped.admissible.ingested_at _ hstamp, ?_⟩
  show (stamped.fields.ingestedAt.map Datetime.isoformat).getD [] = _
  rw [hstamp]
  rfl

theorem eventId_of_prepare {event stamped : Event} {env : AppendEnv} {row : EventRow}
    (h : prepare event env = .ok (stamped, row)) : row.eventId = event.fields.eventId := by
  obtain ⟨hfields, hrow⟩ := prepare_ok h
  obtain ⟨rawAttributes, extractedFeatures, explanation, -, -, -, rfl⟩ := ofDict_ok_iff.mp hrow
  show stamped.fields.eventId = _
  rw [hfields]

theorem rows_enforceCap (env : AppendEnv) (s : EventStore) :
    (s.enforceCap env).db.events.rows ⊆ s.db.events.rows := by
  unfold enforceCap
  split
  · exact List.Subset.refl _
  · rename_i maxEvents _
    split_ifs
    · by_cases hd : s.doomed maxEvents = []
      · rw [evictLocked, evictUpTo_of_doomed_eq_nil env.droppedAt hd]
        exact List.Subset.refl _
      · rw [evictLocked, db_evictUpTo env.droppedAt hd]
        exact (s.db.events.deleteFirst_sublist _ _).subset
    · exact List.Subset.refl _

/-- After an append the table holds old rows and the row of the event, at most. -/
theorem append_ok {event stamped : Event} {env : AppendEnv} {s s' : EventStore}
    (h : s.append event env = (.ok stamped, s')) :
    ∃ row, prepare event env = .ok (stamped, row) ∧
      s'.db.events.rows ⊆ s.db.events.rows ++ [row] := by
  obtain ⟨haccepts, hopen⟩ := (append_ok_iff event env s).mp ⟨stamped, congrArg Prod.fst h⟩
  obtain ⟨stamped', row, events, n, hprepare, -, hrows, happend⟩ := append_of_open haccepts hopen
  rw [h] at happend
  cases happend
  refine ⟨row, hprepare, ?_⟩
  rw [← hrows]
  exact rows_enforceCap env _

/-- The cached count is the table's. -/
def CountExact (s : EventStore) : Prop := s.rowCount = s.db.rowCount

theorem countExact_counted {s : EventStore} {events : EventTable} {row : EventRow}
    (h : s.CountExact) (hrows : events.rows = s.db.events.rows ++ [row]) (n : ℕ) :
    (s.counted events n).CountExact := by
  unfold CountExact at *
  simp only [counted, Db.rowCount, hrows, List.length_append, List.length_singleton] at h ⊢
  omega

theorem enforceCap_accounting (env : AppendEnv) {s : EventStore} (h : s.CountExact) :
    (s.enforceCap env).CountExact ∧ NoUnrecordedDrop s.db (s.enforceCap env).db := by
  unfold enforceCap
  split
  · exact ⟨h, rfl⟩
  · rename_i maxEvents _
    split_ifs
    · refine ⟨?_, noUnrecordedDrop_recorded maxEvents env.droppedAt s⟩
      by_cases hd : s.doomed maxEvents = []
      · rw [evictLocked, evictUpTo_of_doomed_eq_nil env.droppedAt hd]
        exact h
      · have hrows := s.rowCount_deletedDb maxEvents
        unfold CountExact at *
        rw [rowCount_evictLocked env.droppedAt hd, evictLocked, db_evictUpTo env.droppedAt hd]
        simp only [Db.rowCount] at *
        omega
    · exact ⟨h, rfl⟩

theorem enforceCap_frame (env : AppendEnv) (s : EventStore) :
    ∃ db rowCount, s.enforceCap env = { s with db, rowCount } := by
  unfold enforceCap
  split
  · exact ⟨s.db, s.rowCount, rfl⟩
  · split_ifs
    · exact evictLocked_frame _ _ s
    · exact ⟨s.db, s.rowCount, rfl⟩

/-- A store over its cap keeps its top rows and records the others. -/
theorem enforceCap_over (env : AppendEnv) {s : EventStore} {n : ℕ} (h : s.CountExact)
    (hcap : s.maxEvents = some (n : ℤ)) (hn : 0 < n) (hover : n < s.db.rowCount)
    (hroom : s.db.rowCount ≤ SQLITE_MAX_ROWS) :
    TopRows valueOrder (max 1 (95 * n / 100)) s.db.events.rows
        (s.enforceCap env).db.events.rows ∧
      ∃ drop, (s.enforceCap env).db.overflowDrops = s.db.overflowDrops ++ [drop] ∧
        Accounts drop
          (s.db.events.rows.filter fun row => row ∉ (s.enforceCap env).db.events.rows) := by
  have htarget := evictionTarget_eq hn (hover.trans_le hroom)
  have hle := evictionTarget_le hn (hover.trans_le hroom)
  have hsurplus : 0 < s.surplus n := by
    unfold CountExact at h
    unfold surplus
    omega
  have hd : s.doomed n ≠ [] := by
    rw [Ne, doomed_eq_nil, not_or]
    refine ⟨Int.not_le.mpr hsurplus, fun hnil => ?_⟩
    rw [Db.rowCount, hnil] at hover
    exact Nat.not_lt_zero _ hover
  have hevict : s.enforceCap env = s.evictLocked n env.droppedAt := by
    unfold CountExact at h
    unfold enforceCap
    rw [hcap]
    exact if_pos (by omega)
  have htop := topRows_deletedDb h hsurplus.le
  rw [htarget, Int.toNat_natCast] at htop
  rw [hevict, evictLocked, db_evictUpTo env.droppedAt hd]
  exact ⟨htop, _, rfl, (accounts_dropRecord n hd env.droppedAt).perm (doomed_perm n s)⟩

theorem rowCount_enforceCap_le {env : AppendEnv} {s : EventStore} {n : ℤ} (h : s.CountExact)
    (hcap : s.maxEvents = some n) (hn : 1 ≤ n) (hroom : s.db.rowCount ≤ SQLITE_MAX_ROWS) :
    ((s.enforceCap env).db.rowCount : ℤ) ≤ n := by
  obtain ⟨n, rfl⟩ := Int.eq_ofNat_of_zero_le (by omega : 0 ≤ n)
  by_cases hover : n < s.db.rowCount
  · obtain ⟨htop, -⟩ := enforceCap_over env h hcap (by omega) hover hroom
    have hlength := htop.length_eq
    rw [Db.rowCount, hlength]
    omega
  · have hkeep : s.enforceCap env = s := by
      unfold CountExact at h
      unfold enforceCap
      rw [hcap]
      exact if_neg (by omega)
    rw [hkeep]
    omega

end EventStore
end Ebabf
