import Ebabf.Storage.Append

/-!
# Runs of a store

Appends and reopenings in any order, on a database that starts empty or with any rows. Three
results hold along such runs: when appending is all or nothing, that the accounting of rows and
drops is exact, and that an append over the cap keeps exactly the top rows.
-/

namespace Ebabf.EventStore

open Py (Str str Exc Datetime Json)
open Transition

/-- What happens to a store: an append, or closing it and opening the same database again. -/
inductive Op
  | append (event : Event) (env : AppendEnv)
  | reopen (maxEvents minFreeBytes : Option ℤ)

def Op.step : Op → EventStore → EventStore
  | .append event env, s => (s.append event env).2
  | .reopen maxEvents minFreeBytes, s => init s.db maxEvents minFreeBytes

theorem countExact_init (db : Db) (maxEvents minFreeBytes : Option ℤ) :
    (init db maxEvents minFreeBytes).CountExact := rfl

/-- An append that raises leaves the rows, the drops and the count alone, and the count is that of
the table. -/
def AllOrNothing (s : EventStore) : Op → Prop
  | .append event env => ∀ e, (s.append event env).1 = .error e →
    (s.append event env).2.db.events = s.db.events ∧
    (s.append event env).2.db.overflowDrops = s.db.overflowDrops ∧
    (s.append event env).2.rowCount = s.rowCount ∧ (s.append event env).2.CountExact
  | .reopen _ _ => True

/-- An append whose row the table takes meets a store that is not halted, and no reading due now
that lies below the floor. -/
def MeetsOpenGate (s : EventStore) : Op → Prop
  | .append event env => s.Accepts event env → s.GateOpen env
  | .reopen _ _ => True

theorem meetsOpenGate_of_allOrNothing {s : EventStore} {op : Op} (h : s.AllOrNothing op) :
    s.MeetsOpenGate op := by
  cases op with
  | reopen maxEvents minFreeBytes => trivial
  | append event env =>
    intro haccepts
    by_contra hclosed
    obtain ⟨reason, gaps, n, stamped, row, events, -, hrows, happend⟩ :=
      append_of_closed haccepts hclosed
    have hsame := (h _ (congrArg Prod.fst happend)).1
    rw [happend] at hsame
    have hlength := congrArg (fun t : EventTable => t.rows.length) hsame
    simp only [hrows, List.length_append, List.length_singleton] at hlength
    omega

theorem step_of_meetsOpenGate (op : Op) (s : EventStore) (hs : s.CountExact)
    (h : s.MeetsOpenGate op) : (op.step s).CountExact ∧ s.AllOrNothing op := by
  cases op with
  | reopen maxEvents minFreeBytes => exact ⟨countExact_init _ _ _, trivial⟩
  | append event env =>
    by_cases haccepts : s.Accepts event env
    · obtain ⟨stamped, row, events, n, -, -, hrows, happend⟩ :=
        append_of_open haccepts (h haccepts)
      have hexact := (enforceCap_accounting env (countExact_counted hs hrows n)).1
      refine ⟨?_, fun e he => ?_⟩
      · rw [Op.step, happend]
        exact hexact
      · rw [happend] at he
        cases he
    · obtain ⟨e, -, happend⟩ := append_of_not_accepts haccepts
      refine ⟨?_, fun e he => ?_⟩
      · rw [Op.step, happend]
        exact hs
      · rw [happend]
        exact ⟨rfl, rfl, rfl, hs⟩

/-- Along a run, every append that raises leaves the store as it was exactly when no append whose
row is taken meets a closed gate. -/
theorem allOrNothing_iff (maxEvents minFreeBytes : Option ℤ) (ops : List Op) :
    Always Op.step AllOrNothing ops (init Db.empty maxEvents minFreeBytes) ↔
      Always Op.step MeetsOpenGate ops (init Db.empty maxEvents minFreeBytes) := by
  constructor
  · exact Always.mono fun s op => meetsOpenGate_of_allOrNothing
  · exact Always.of_invariant step_of_meetsOpenGate (countExact_init _ _ _)

/-- Clock readings at the epoch and a given free space. -/
def envWithFree (free : Option ℕ) : AppendEnv :=
  { stamp := Datetime.epoch
    free
    gapStart := Datetime.epoch
    detectedAt := Datetime.epoch
    droppedAt := Datetime.epoch }

/-- A plain event as it is stored at the epoch. -/
def storedPlain (eventId : Str) (h : Py.strip eventId ≠ []) : Event where
  fields := { (Event.plain eventId h).fields with ingestedAt := some Datetime.epoch }
  admissible := { (Event.plain eventId h).admissible with
    ingested_at := by simp [Datetime.epoch] }

def storedRow (eventId : Str) : EventRow :=
  { plainRow eventId with
    timestamp := Datetime.epoch.isoformat
    ingestedAt := Datetime.epoch.isoformat }

theorem prepare_plain (eventId : Str) (h : Py.strip eventId ≠ []) (free : Option ℕ) :
    prepare (.plain eventId h) (envWithFree free) =
      .ok (storedPlain eventId h, storedRow eventId) := by
  have henriched : (Event.plain eventId h).enriched
      (fun f => { f with ingestedAt := some (envWithFree free).stamp }) =
      .ok (storedPlain eventId h) :=
    Event.make_of_admissible (storedPlain eventId h).admissible
  unfold prepare
  rw [henriched]
  rfl

theorem accepts_of_prepare {event stamped : Event} {env : AppendEnv} {row : EventRow}
    {s : EventStore} (hprepare : prepare event env = .ok (stamped, row))
    (htext : (row.textParameters.any fun t => t.any fun c => c.toChar?.isNone) = false)
    (hchecks : row.pseudonymCheck = true ∧ row.enforcedCheck = true ∧ row.truthfulCheck = true)
    (hroom : s.db.rowCount < SQLITE_MAX_ROWS)
    (hfresh : row.eventId ∉ s.db.events.rows.map EventRow.eventId) : s.Accepts event env := by
  have hencodes : (row.textParameters.any fun t => (Py.encodeUtf8 t).isNone) = false := by
    simp only [Py.encodeUtf8_isNone]
    exact htext
  cases hinsert : s.db.events.insert row with
  | none => exact absurd (Sql.Table.insert_eq_none.mp hinsert) hfresh
  | some events =>
    refine ⟨_, _, { s.db with events }, hprepare, ?_⟩
    simp only [Db.insertEvent, hencodes, hchecks.1, hchecks.2.1, hchecks.2.2, hinsert,
      Nat.not_le.mpr hroom, Bool.not_true, Bool.false_eq_true, ↓reduceIte]

theorem accepts_plain {eventId : Str} (h : Py.strip eventId ≠ [])
    (htext : (eventId.any fun c => c.toChar?.isNone) = false) (free : Option ℕ) {s : EventStore}
    (hroom : s.db.rowCount < SQLITE_MAX_ROWS)
    (hfresh : eventId ∉ s.db.events.rows.map EventRow.eventId) :
    s.Accepts (.plain eventId h) (envWithFree free) := by
  have hrest : (((storedRow eventId).textParameters.drop 1).any
      fun t => t.any fun c => c.toChar?.isNone) = false := by
    show (((storedRow []).textParameters.drop 1).any fun t => t.any fun c => c.toChar?.isNone) =
      false
    decide
  have hchecks : (storedRow eventId).pseudonymCheck = true ∧
      (storedRow eventId).enforcedCheck = true ∧ (storedRow eventId).truthfulCheck = true := by
    show (storedRow []).pseudonymCheck = true ∧ (storedRow []).enforcedCheck = true ∧
      (storedRow []).truthfulCheck = true
    decide
  exact accepts_of_prepare (prepare_plain eventId h free)
    (Bool.or_eq_false_iff.mpr ⟨htext, hrest⟩) hchecks hroom hfresh

/-- The first append on a nearly full disk is refused, and its row stays. -/
theorem not_allOrNothing :
    ¬∀ (maxEvents minFreeBytes : Option ℤ) (ops : List Op),
      Always Op.step AllOrNothing ops (init Db.empty maxEvents minFreeBytes) := by
  intro h
  have hop := (always_cons.mp (h none (some (10 ^ 18))
    [.append (.plain (str "EVT-1") (by decide)) (envWithFree (some 0))])).1
  have hgate := meetsOpenGate_of_allOrNothing hop
    (accepts_plain (by decide) (by decide) _ (by decide) (List.not_mem_nil))
  have hfloor := hgate.2 (10 ^ 18) rfl (by decide) 0 rfl
  exact absurd hfloor (by decide)

/-- Runs without a free-space floor. -/
inductive CapOp
  | append (event : Event) (env : AppendEnv)
  | reopen (maxEvents : Option ℤ)

/-- A store and the number of appends that have returned. -/
structure Tally where
  store : EventStore
  returned : ℕ

def CapOp.step : CapOp → Tally → Tally
  | .append event env, t =>
    let (result, store) := t.store.append event env
    match result with
    | .ok _ => { store, returned := t.returned + 1 }
    | .error _ => { t with store }
  | .reopen maxEvents, t => { t with store := init t.store.db maxEvents none }

/-- What holds in every state of such a run. -/
structure Tally.Exact (t : Tally) : Prop where
  unguarded : t.store.haltedReason = none ∧ t.store.minFreeBytes = none
  count : t.store.rowCount = t.store.db.rowCount
  accounted : t.store.db.rowCount + t.store.db.droppedEventCount = t.returned

/-- An append that returns leaves at most as many rows as the cap allows. -/
def RespectsCap (t : Tally) : CapOp → Prop
  | .append event env => ∀ stamped, (t.store.append event env).1 = .ok stamped →
    ∀ n, t.store.maxEvents = some n → 1 ≤ n →
      ((t.store.append event env).2.db.rowCount : ℤ) ≤ n
  | .reopen _ => True

theorem step_exact (op : CapOp) (t : Tally) (ht : t.Exact) :
    (op.step t).Exact ∧ RespectsCap t op := by
  cases op with
  | reopen maxEvents => exact ⟨⟨⟨rfl, rfl⟩, rfl, ht.accounted⟩, trivial⟩
  | append event env =>
    have hopen : t.store.GateOpen env :=
      ⟨ht.unguarded.1, fun floor hfloor => by rw [ht.unguarded.2] at hfloor; cases hfloor⟩
    by_cases haccepts : t.store.Accepts event env
    · obtain ⟨stamped, row, events, n, -, hroom, hrows, happend⟩ := append_of_open haccepts hopen
      have hexact := countExact_counted ht.count hrows n
      obtain ⟨hcount, haccounted⟩ := enforceCap_accounting env hexact
      obtain ⟨db, rowCount, hframe⟩ := enforceCap_frame env (t.store.counted events n)
      have hlength : (t.store.counted events n).db.rowCount = t.store.db.rowCount + 1 := by
        simp only [counted, Db.rowCount, hrows, List.length_append, List.length_singleton]
      refine ⟨?_, fun stamped' _ cap hcap hpos => ?_⟩
      · simp only [CapOp.step, happend]
        refine ⟨?_, hcount, ?_⟩
        · rw [hframe]
          exact ht.unguarded
        · have hdropped : (t.store.counted events n).db.droppedEventCount =
              t.store.db.droppedEventCount := rfl
          have := ht.accounted
          unfold NoUnrecordedDrop at haccounted
          dsimp only
          omega
      · rw [happend]
        exact rowCount_enforceCap_le hexact hcap hpos (by omega)
    · obtain ⟨e, -, happend⟩ := append_of_not_accepts haccepts
      refine ⟨?_, fun stamped hok => ?_⟩
      · simp only [CapOp.step, happend]
        exact ht
      · rw [happend] at hok
        cases hok

/-- In every state of a run on a new database the cached count is the table's and every append
that has returned is a row or a recorded drop; and no append returns with more rows than the cap
of its handle. -/
theorem bounded_growth (maxEvents : Option ℤ) (ops : List CapOp) :
    let start : Tally := ⟨init Db.empty maxEvents none, 0⟩
    let t := run CapOp.step ops start
    t.store.rowCount = t.store.db.rowCount ∧
      t.store.db.rowCount + t.store.db.droppedEventCount = t.returned ∧
      Always CapOp.step RespectsCap ops start := by
  intro start t
  have hstart : start.Exact := ⟨⟨rfl, rfl⟩, rfl, rfl⟩
  have ht : t.Exact := run_invariant (fun op t ht => (step_exact op t ht).1) ops hstart
  refine ⟨ht.count, ht.accounted, ?_⟩
  exact Always.of_invariant (Q := fun _ _ => True) (fun op t ht _ => step_exact op t ht) hstart
    fun _ _ _ _ => trivial

/-- A handle that has not halted has counted every row. -/
theorem step_countExact (op : Op) (s : EventStore) (hs : s.haltedReason = none → s.CountExact) :
    (op.step s).haltedReason = none → (op.step s).CountExact := by
  cases op with
  | reopen maxEvents minFreeBytes => exact fun _ => countExact_init _ _ _
  | append event env =>
    rcases append_cases event env s with h | h | h
    · obtain ⟨e, -, happend⟩ := append_of_not_accepts h
      rw [Op.step, happend]
      exact hs
    · obtain ⟨reason, gaps, n, stamped, row, events, -, -, happend⟩ := append_of_closed h.1 h.2
      rw [Op.step, happend]
      exact nofun
    · obtain ⟨stamped, row, events, n, -, -, hrows, happend⟩ := append_of_open h.1 h.2
      rw [Op.step, happend]
      exact fun _ =>
        (enforceCap_accounting _ (countExact_counted (hs h.2.1) hrows n)).1

/-- Whatever the database holds and whatever has happened on it, an append that returns and takes
the table past a cap of `n` leaves exactly the top `max 1 ⌊0.95 n⌋` rows, and adds one drop record
that accounts for the rest. -/
theorem append_keeps_top (db : Db) (maxEvents minFreeBytes : Option ℤ) (ops : List Op)
    (event : Event) (env : AppendEnv) (stamped : Event) (row : EventRow) (n : ℕ)
    (hn : 1 ≤ n) (hprepare : prepare event env = .ok (stamped, row)) :
    let s := run Op.step ops (init db maxEvents minFreeBytes)
    let before := s.db.events.rows ++ [row]
    let after := (s.append event env).2.db
    s.maxEvents = some (n : ℤ) → (s.append event env).1 = .ok stamped → n < before.length →
      TopRows valueOrder (max 1 (95 * n / 100)) before after.events.rows ∧
      ∃ drop, after.overflowDrops = s.db.overflowDrops ++ [drop] ∧
        Accounts drop (before.filter fun r => r ∉ after.events.rows) := by
  intro s before after hcap hok hover
  have hexact : s.haltedReason = none → s.CountExact :=
    run_invariant (I := fun s : EventStore => s.haltedReason = none → s.CountExact) step_countExact ops
      fun _ => countExact_init _ _ _
  obtain ⟨haccepts, hopen⟩ := (append_ok_iff event env s).mp ⟨stamped, hok⟩
  obtain ⟨stamped', row', events, k, hprepare', hroom, hrows, happend⟩ :=
    append_of_open haccepts hopen
  obtain ⟨rfl, rfl⟩ : stamped = stamped' ∧ row = row' := by
    rw [hprepare] at hprepare'
    exact Prod.mk.inj (Except.ok.inj hprepare')
  have hbefore : (s.counted events k).db.events.rows = before := hrows
  have hlength : (s.counted events k).db.rowCount = before.length := by
    rw [Db.rowCount, hbefore]
  have hkeep := enforceCap_over env (countExact_counted (hexact hopen.1) hrows k) hcap
    (by omega) (by omega) (by
      rw [hlength, List.length_append, List.length_singleton]
      exact hroom)
  have hafter : after = ((s.counted events k).enforceCap env).db := by
    show (s.append event env).2.db = _
    rw [happend]
  rw [hbefore] at hkeep
  rw [hafter]
  exact hkeep

/-- One row under a cap of one. -/
def oneRowDb : Db := { Db.empty with events := ⟨[plainRow (str "EVT-1")], by decide⟩ }

def leveledRow (eventId : Str) (level : Option RiskLevel) : EventRow :=
  { storedRow eventId with level := level.map RiskLevel.value }

/-- Five rows of five levels, all ingested at one time. -/
def mixedDb : Db :=
  { Db.empty with
    events := ⟨[leveledRow (str "EVT-1") (some .critical), leveledRow (str "EVT-2") none,
      leveledRow (str "EVT-3") (some .medium), leveledRow (str "EVT-4") (some .low),
      leveledRow (str "EVT-5") (some .normal)], by decide⟩ }

/-- Of the two unscored rows the later id is kept; the low and the normal row go before either. -/
theorem append_keeps_top_mixed :
    let after := ((init mixedDb (some 4) none).append (.plain (str "EVT-6") (by decide))
      (envWithFree none)).2.db
    after.events.rows.Perm [leveledRow (str "EVT-1") (some .critical),
        leveledRow (str "EVT-3") (some .medium), storedRow (str "EVT-6")] ∧
      ∃ drop, after.overflowDrops = [drop] ∧
        Accounts drop [leveledRow (str "EVT-2") none, leveledRow (str "EVT-4") (some .low),
          leveledRow (str "EVT-5") (some .normal)] := by
  intro after
  have haccepts : (init mixedDb (some 4) none).Accepts (.plain (str "EVT-6") (by decide))
      (envWithFree none) :=
    accepts_plain (by decide) (by decide) none (by decide) (by decide)
  have hopen : (init mixedDb (some 4) none).GateOpen (envWithFree none) := ⟨rfl, nofun⟩
  have hprepare := prepare_plain (str "EVT-6") (by decide) none
  obtain ⟨htop, drop, hdrop, haccounts⟩ := append_keeps_top mixedDb (some 4) none []
    (.plain (str "EVT-6") (by decide)) (envWithFree none) _ _ 4 (by decide) hprepare rfl
    (append_fst hprepare haccepts hopen) (by decide)
  set kept := [leveledRow (str "EVT-1") (some .critical), leveledRow (str "EVT-3") (some .medium),
    storedRow (str "EVT-6")] with hkept
  have hthree : TopRows valueOrder 3 (mixedDb.events.rows ++ [storedRow (str "EVT-6")]) kept :=
    ⟨by decide, rfl, by decide⟩
  have hperm := htop.perm (by decide) hthree
  have hremoved : (mixedDb.events.rows ++ [storedRow (str "EVT-6")]).filter (fun r => r ∉ kept) =
      [leveledRow (str "EVT-2") none, leveledRow (str "EVT-4") (some .low),
        leveledRow (str "EVT-5") (some .normal)] := by decide
  refine ⟨hperm, drop, hdrop, haccounts.perm (List.Perm.of_eq ?_)⟩
  rw [← hremoved]
  exact List.filter_congr fun r _ => decide_eq_decide.mpr (not_congr hperm.mem_iff)

end Ebabf.EventStore
