import Ebabf.Retention
import Ebabf.Storage.Reading
import Ebabf.Storage.Runs

/-!
# What a run keeps and what it drops

Beside the store goes a list of every row its table has taken, with the row of an append that was
then halted. The table never lacks the highest of them, and the drop log stands for the others.
-/

namespace Ebabf

open Py (Str str Exc Datetime Json Dict)
open Transition (run Always)
open Retention (Retains above)

namespace EventStore

/-- The row an append puts into the table. -/
def takenRow (event : Event) (env : AppendEnv) (s : EventStore) : Option EventRow :=
  match prepare event env with
  | .error _ => none
  | .ok (_, row) => if (s.db.insertEvent row).isOk then some row else none

def Op.takenRow : Op → EventStore → Option EventRow
  | .append event env, s => EventStore.takenRow event env s
  | .reopen _ _, _ => none

/-- A store and every row its table has held. -/
structure Ledger where
  store : EventStore
  taken : List EventRow

def Ledger.step (op : Op) (l : Ledger) : Ledger :=
  { store := op.step l.store
    taken := l.taken ++ (op.takenRow l.store).toList }

section Step

variable {event : Event} {env : AppendEnv} {s s' : EventStore}

theorem takenRow_of_not_accepts (h : ¬s.Accepts event env) : takenRow event env s = none := by
  unfold takenRow
  split
  · rfl
  · rename_i stamped row hprepare
    cases hinsert : s.db.insertEvent row with
    | error e => rfl
    | ok db => exact absurd ⟨stamped, row, db, hprepare, hinsert⟩ h

theorem takenRow_of_accepts {stamped : Event} {row : EventRow} (h : s.Accepts event env)
    (hprepare : prepare event env = .ok (stamped, row)) : takenRow event env s = some row := by
  obtain ⟨stamped', row', db, hprepare', hinsert⟩ := h
  rw [hprepare] at hprepare'
  cases hprepare'
  simp only [takenRow, hprepare, hinsert, Except.isOk, Except.toBool, ↓reduceIte]

/-- The table once it has taken a row, and nothing else of it changed. -/
structure Takes (row : EventRow) (s s' : EventStore) : Prop where
  room : s.db.rowCount < SQLITE_MAX_ROWS
  rows : s'.db.events.rows = s.db.events.rows ++ [row]
  drops : s'.db.overflowDrops = s.db.overflowDrops
  cap : s'.maxEvents = s.maxEvents

theorem append_effect (event : Event) (env : AppendEnv) (s : EventStore) :
    (takenRow event env s = none ∧ (s.append event env).2 = s) ∨
    (∃ row, takenRow event env s = some row ∧ s.Takes row (s.append event env).2 ∧
      (s.append event env).2.haltedReason ≠ none) ∨
    ∃ row full, takenRow event env s = some row ∧ s.Takes row full ∧
      s.haltedReason = none ∧ (s.CountExact → full.CountExact) ∧
      (s.append event env).2 = full.enforceCap env := by
  rcases append_cases event env s with h | h | h
  · obtain ⟨e, -, happend⟩ := append_of_not_accepts h
    exact .inl ⟨takenRow_of_not_accepts h, by rw [happend]⟩
  · obtain ⟨reason, gaps, n, stamped, row, events, hprepare, hrows, happend⟩ :=
      append_of_closed h.1 h.2
    obtain ⟨_, _, _, -, hinsert⟩ := h.1
    refine .inr (.inl ⟨row, takenRow_of_accepts h.1 hprepare, ?_, ?_⟩)
    · rw [happend]
      exact ⟨(db_insertEvent hinsert).1, hrows, rfl, rfl⟩
    · rw [happend]
      exact nofun
  · obtain ⟨stamped, row, events, n, hprepare, hroom, hrows, happend⟩ := append_of_open h.1 h.2
    refine .inr (.inr ⟨row, s.counted events n, takenRow_of_accepts h.1 hprepare,
      ⟨hroom, hrows, rfl, rfl⟩, h.2.1, fun hcount => countExact_counted hcount hrows n, ?_⟩)
    rw [happend]

theorem enforceCap_cases (env : AppendEnv) (s : EventStore) : s.enforceCap env = s ∨
    ∃ maxEvents, s.maxEvents = some maxEvents ∧ s.doomed maxEvents ≠ [] ∧
      (s.enforceCap env).db = { s.deletedDb maxEvents with
        overflowDrops := s.db.overflowDrops ++
          [dropRecord maxEvents (s.doomed maxEvents) env.droppedAt] } := by
  unfold enforceCap
  split
  · exact .inl rfl
  · rename_i maxEvents hcap
    split_ifs
    · by_cases hd : s.doomed maxEvents = []
      · exact .inl (evictUpTo_of_doomed_eq_nil env.droppedAt hd .recorded)
      · exact .inr ⟨maxEvents, hcap, hd, db_evictUpTo env.droppedAt hd .recorded⟩
    · exact .inl rfl

end Step

theorem sublist_enforceCap (env : AppendEnv) (s : EventStore) :
    (s.enforceCap env).db.events.rows.Sublist s.db.events.rows := by
  rcases enforceCap_cases env s with heq | ⟨maxEvents, -, -, hdb⟩
  · rw [heq]
  · rw [hdb]
    exact s.db.events.deleteFirst_sublist _ _

/-- A cap down from which an eviction keeps `k` rows. -/
def KeepsAtLeast (k : ℕ) (maxEvents : Option ℤ) : Prop :=
  ∀ cap ∈ orNone maxEvents, (k : ℤ) ≤ evictionTarget cap

/-- The table holds what it has to of the rows taken, and its cap will leave it. -/
structure Retaining (k : ℕ) (taken : List EventRow) (s : EventStore) : Prop where
  cap : ∀ cap ∈ s.maxEvents, (k : ℤ) ≤ evictionTarget cap
  kept : s.db.events.rows.Subperm taken
  retains : Retains evictionOrder k taken s.db.events.rows

namespace Retaining

variable {k : ℕ} {taken : List EventRow} {row : EventRow} {s s' : EventStore}

theorem take (h : Retaining k taken s) (htakes : s.Takes row s') :
    Retaining k (taken ++ [row]) s' where
  cap := by
    rw [htakes.cap]
    exact h.cap
  kept := by
    rw [htakes.rows]
    exact h.kept.append (List.Subperm.refl _)
  retains := by
    rw [htakes.rows]
    exact h.retains.take row

theorem enforceCap (h : Retaining k taken s) (env : AppendEnv) (hcount : s.CountExact) :
    Retaining k taken (s.enforceCap env) where
  cap := by
    obtain ⟨db, rowCount, hframe⟩ := enforceCap_frame env s
    rw [hframe]
    exact h.cap
  kept := (sublist_enforceCap env s).subperm.trans h.kept
  retains := by
    rcases enforceCap_cases env s with heq | ⟨maxEvents, hmax, hdoomed, hdb⟩
    · rw [heq]
      exact h.retains
    · have htop := topRows_deletedDb hcount (surplus_pos hdoomed).le
      have hk := h.cap maxEvents hmax
      rw [← evictionOrder_eq] at htop
      rw [hdb]
      refine h.retains.drop s.db.events.distinct.of_map htop.least ?_
      rw [htop.length_eq]
      omega

end Retaining

structure Ledger.Retained (k : ℕ) (l : Ledger) : Prop where
  count : l.store.haltedReason = none → l.store.CountExact
  retaining : Retaining k l.taken l.store

theorem Ledger.Retained.step {k : ℕ} {op : Op} {l : Ledger} (h : l.Retained k)
    (hop : ∀ maxEvents minFreeBytes, op = .reopen maxEvents minFreeBytes →
      KeepsAtLeast k maxEvents) : (l.step op).Retained k := by
  refine ⟨step_countExact op l.store h.count, ?_⟩
  cases op with
  | reopen maxEvents minFreeBytes =>
    show Retaining k (l.taken ++ []) _
    rw [List.append_nil]
    exact ⟨hop maxEvents minFreeBytes rfl, h.retaining.kept, h.retaining.retains⟩
  | append event env =>
    show Retaining k (l.taken ++ (takenRow event env l.store).toList) (l.store.append event env).2
    rcases append_effect event env l.store with ⟨hnone, hsame⟩ |
      ⟨row, hsome, htakes, -⟩ | ⟨row, full, hsome, htakes, hrunning, hfull, hafter⟩
    · rw [hnone, hsame, Option.toList_none, List.append_nil]
      exact h.retaining
    · rw [hsome, Option.toList_some]
      exact h.retaining.take htakes
    · rw [hsome, Option.toList_some, hafter]
      exact (h.retaining.take htakes).enforceCap env (hfull (h.count hrunning))

/-- Whatever the database holds at first and whatever is appended, halted or reopened, a row that
the table has ever taken is still in it while fewer than `k` of all the rows taken rank above it,
where `k` is no more than any of the caps evicts down to. -/
theorem retains_top (db : Db) (k : ℕ) (maxEvents minFreeBytes : Option ℤ) (ops : List Op)
    (hinit : KeepsAtLeast k maxEvents)
    (hops : ∀ maxEvents minFreeBytes, Op.reopen maxEvents minFreeBytes ∈ ops →
      KeepsAtLeast k maxEvents) :
    let l := run Ledger.step ops ⟨init db maxEvents minFreeBytes, db.events.rows⟩
    ∀ row ∈ l.taken, above evictionOrder row l.taken < k → row ∈ l.store.db.events.rows := by
  intro l row hrow hfew
  have hstart : Ledger.Retained k ⟨init db maxEvents minFreeBytes, db.events.rows⟩ :=
    ⟨fun _ => countExact_init _ _ _, hinit, List.Subperm.refl _, .refl _ _ _⟩
  have hguarded : Always Ledger.step (fun _ op => ∀ maxEvents minFreeBytes,
      op = .reopen maxEvents minFreeBytes → KeepsAtLeast k maxEvents) ops
      ⟨init db maxEvents minFreeBytes, db.events.rows⟩ := by
    rintro before op after rfl maxEvents minFreeBytes rfl
    exact hops maxEvents minFreeBytes (List.mem_append_right _ List.mem_cons_self)
  have hl : l.Retained k := hguarded.run_invariant (fun _ _ h hop => h.step hop) hstart
  exact hl.retaining.retains.mem hl.retaining.kept hrow hfew

theorem keepsAtLeast_one (maxEvents : Option ℤ) : KeepsAtLeast 1 maxEvents := fun cap _ => by
  rw [Nat.cast_one]
  exact one_le_evictionTarget cap

/-- Of two rows under a cap of one the later stays, though it is the first one taken. -/
theorem retains_top_later : plainRow (str "EVT-1") ∈
    (run Ledger.step [.append (.plain (str "EVT-2") (by decide)) (envWithFree none)]
      ⟨init oneRowDb (some 1) none, oneRowDb.events.rows⟩).store.db.events.rows := by
  have haccepts : (init oneRowDb (some 1) none).Accepts (.plain (str "EVT-2") (by decide))
      (envWithFree none) :=
    accepts_plain (by decide) (by decide) none (by decide) (by decide)
  have htaken : (run Ledger.step [.append (.plain (str "EVT-2") (by decide)) (envWithFree none)]
      ⟨init oneRowDb (some 1) none, oneRowDb.events.rows⟩).taken =
        [plainRow (str "EVT-1"), storedRow (str "EVT-2")] := by
    have hrow := takenRow_of_accepts haccepts (prepare_plain _ _ _)
    rw [Transition.run_cons, Transition.run_nil, Ledger.step, Op.takenRow, hrow]
    rfl
  refine retains_top oneRowDb 1 (some 1) none _ (keepsAtLeast_one _)
    (fun maxEvents _ _ => keepsAtLeast_one maxEvents) _ ?_ ?_
  · rw [htaken]
    exact List.mem_cons_self
  · rw [htaken]
    decide

structure DropEntry where
  dropId : ℕ
  droppedAt : Str
  eventCount : ℕ
  oldestIngestedAt : Str
  newestIngestedAt : Str
  levelBreakdown : Json
  reason : Str

/-- An entry of the log, with its breakdown decoded. -/
def dropEntry (depth : ℕ) (drop : OverflowDrop × ℕ) : Except Exc DropEntry := do
  let levelBreakdown ← loadsText depth drop.1.levelBreakdown
  return {
    dropId := drop.2
    droppedAt := drop.1.droppedAt
    eventCount := drop.1.eventCount
    oldestIngestedAt := drop.1.oldestIngestedAt
    newestIngestedAt := drop.1.newestIngestedAt
    levelBreakdown
    reason := drop.1.reason }

/-- `drop_log`; no record is ever deleted, so the ids count them. -/
def dropLog (depth : ℕ) (limit : ℤ) (s : EventStore) : Except Exc (List DropEntry) :=
  if ¬Sql.FitsInteger limit then
    .error ⟨Py.overflowError, str "Python int too large to convert to SQLite INTEGER"⟩
  else (Sql.limited limit (s.db.overflowDrops.zipIdx 1).reverse).mapM (dropEntry depth)

/-- What an entry tells about the rows it stands for. -/
structure DropEntry.Reports (entry : DropEntry) (removed : List EventRow) : Prop where
  event_count : entry.eventCount = removed.length
  level_breakdown : ∃ d : Dict ℕ, entry.levelBreakdown = breakdownJson d ∧
    (∀ label, d.get label 0 = removed.countP fun row => row.level.getD (str "unscored") = label) ∧
    d.values.sum = entry.eventCount
  oldest : entry.oldestIngestedAt ∈ removed.map EventRow.ingestedAt ∧
    ∀ row ∈ removed, entry.oldestIngestedAt ≤ row.ingestedAt
  newest : entry.newestIngestedAt ∈ removed.map EventRow.ingestedAt ∧
    ∀ row ∈ removed, row.ingestedAt ≤ entry.newestIngestedAt

theorem readable_breakdown (depth : ℕ) {d : Dict ℕ} (h : d.values.sum ≤ SQLITE_MAX_ROWS) :
    Json.Readable (depth + 1) (breakdownJson d) := by
  rw [breakdownJson, Json.Readable, readableMembers_iff]
  constructor
  · rw [List.map_map]
    exact d.nodup
  · intro m hm
    obtain ⟨⟨key, n⟩, hentry, rfl⟩ := List.mem_map.mp hm
    have hn : n ≤ d.values.sum := List.le_sum_of_mem (List.mem_map_of_mem (f := Prod.snd) hentry)
    have hdigits : (Py.decimal n).length ≤ Json.maxStrDigits := by
      rw [Py.decimal, List.length_map]
      calc (Nat.toDigits 10 n).length ≤ 15 := by
            rw [Nat.length_toDigits_le_iff (by decide) (by decide)]
            have hmax : SQLITE_MAX_ROWS < 10 ^ 15 := by decide
            omega
        _ ≤ Json.maxStrDigits := by decide
    exact hdigits

/-- A truthful record is read back as what it tells. -/
theorem dropEntry_of_accounts (depth : ℕ) {drop : OverflowDrop} {removed : List EventRow}
    (h : Accounts drop removed) (hroom : removed.length ≤ SQLITE_MAX_ROWS) (dropId : ℕ) :
    ∃ entry, dropEntry (depth + 1) (drop, dropId) = .ok entry ∧ entry.Reports removed := by
  obtain ⟨d, htext, hcount, hsum⟩ := h.level_breakdown
  have hreadable : Json.Readable (depth + 1) (breakdownJson d) :=
    readable_breakdown depth (by rw [hsum, h.event_count]; exact hroom)
  have hloads : loadsText (depth + 1) drop.levelBreakdown = .ok (breakdownJson d) := by
    rw [htext, loadsText, Json.loads_dumps hreadable]
  refine ⟨_, Py.bind_eq_ok.mpr ⟨_, hloads, rfl⟩, ?_⟩
  exact ⟨h.event_count, ⟨d, rfl, hcount, hsum⟩, h.oldest, h.newest⟩

/-- The rows taken are those stored and those each drop record accounts for. -/
def Ledger.Accounted (l : Ledger) : Prop :=
  ∃ evicted : List (List EventRow),
    l.taken.Perm (l.store.db.events.rows ++ evicted.flatten) ∧
    List.Forall₂ (fun drop removed => Accounts drop removed ∧ removed.length ≤ SQLITE_MAX_ROWS)
      l.store.db.overflowDrops evicted

theorem Ledger.Accounted.take {l : Ledger} {row : EventRow} {s' : EventStore} (h : l.Accounted)
    (htakes : l.store.Takes row s') : Ledger.Accounted ⟨s', l.taken ++ [row]⟩ := by
  obtain ⟨evicted, hperm, hdrops⟩ := h
  refine ⟨evicted, ?_, ?_⟩
  · rw [htakes.rows]
    have hmoved : (evicted.flatten ++ [row]).Perm ([row] ++ evicted.flatten) :=
      List.perm_append_comm
    refine (hperm.append_right [row]).trans ?_
    rw [List.append_assoc, List.append_assoc]
    exact hmoved.append_left _
  · rw [htakes.drops]
    exact hdrops

theorem Ledger.Accounted.enforceCap {s : EventStore} {taken : List EventRow}
    (h : Ledger.Accounted ⟨s, taken⟩) (hroom : s.db.rowCount ≤ SQLITE_MAX_ROWS)
    (env : AppendEnv) : Ledger.Accounted ⟨s.enforceCap env, taken⟩ := by
  rcases enforceCap_cases env s with heq | ⟨maxEvents, -, hdoomed, hdb⟩
  · rw [heq]
    exact h
  · obtain ⟨evicted, hperm, hdrops⟩ := h
    refine ⟨evicted ++ [s.doomed maxEvents], ?_, ?_⟩
    · have hsplit := s.db.events.select_append_deleteFirst_perm evictionOrder
        (s.surplus maxEvents).toNat
      rw [hdb, List.flatten_append, List.flatten_singleton]
      refine hperm.trans ((hsplit.symm.append_right _).trans ?_)
      rw [List.append_assoc]
      exact List.perm_append_comm.trans (by rw [List.append_assoc]; rfl)
    · rw [hdb]
      refine List.rel_append hdrops (.cons ⟨accounts_dropRecord _ hdoomed _, ?_⟩ .nil)
      rw [length_doomed]
      exact (min_le_right _ _).trans hroom

theorem Ledger.Accounted.step {l : Ledger} (h : l.Accounted) (op : Op) : (l.step op).Accounted := by
  cases op with
  | reopen maxEvents minFreeBytes =>
    show Ledger.Accounted ⟨_, l.taken ++ []⟩
    rw [List.append_nil]
    exact h
  | append event env =>
    show Ledger.Accounted ⟨(l.store.append event env).2,
      l.taken ++ (takenRow event env l.store).toList⟩
    rcases append_effect event env l.store with ⟨hnone, hsame⟩ |
      ⟨row, hsome, htakes, -⟩ | ⟨row, full, hsome, htakes, -, -, hafter⟩
    · rw [hnone, hsame, Option.toList_none, List.append_nil]
      exact h
    · rw [hsome, Option.toList_some]
      exact h.take htakes
    · rw [hsome, Option.toList_some, hafter]
      refine (h.take htakes).enforceCap ?_ env
      have hroom := htakes.room
      rw [Db.rowCount] at hroom ⊢
      rw [htakes.rows, List.length_append, List.length_singleton]
      omega

theorem droppedEventCount_of_accounts {db : Db} {evicted : List (List EventRow)}
    (h : List.Forall₂ (fun drop removed => Accounts drop removed ∧
      removed.length ≤ SQLITE_MAX_ROWS) db.overflowDrops evicted) :
    db.droppedEventCount = evicted.flatten.length := by
  have hcounts : db.overflowDrops.map OverflowDrop.eventCount = evicted.map List.length := by
    rw [← List.forall₂_eq_eq_eq, List.forall₂_map_left_iff, List.forall₂_map_right_iff]
    exact h.imp fun _ _ h => h.1.event_count
  rw [Db.droppedEventCount, List.length_flatten, hcounts]

theorem accounted_run (maxEvents minFreeBytes : Option ℤ) (ops : List Op) :
    (run Ledger.step ops ⟨init Db.empty maxEvents minFreeBytes, []⟩).Accounted := by
  have hstart : Ledger.Accounted ⟨init Db.empty maxEvents minFreeBytes, []⟩ :=
    ⟨[], List.Perm.refl _, .nil⟩
  exact Transition.run_invariant (fun op _ h => h.step op) ops hstart

/-- Along every run on a new database the drop log can be read, with any limit that SQLite can
bind. Its entries, from the last eviction back, count and date the rows each of them removed, and
what is stored together with all that was removed is every row the table has taken. -/
theorem dropLog_accounts (maxEvents minFreeBytes : Option ℤ) (ops : List Op) :
    let l := run Ledger.step ops ⟨init Db.empty maxEvents minFreeBytes, []⟩
    ∃ evicted : List (List EventRow), l.taken.Perm (l.store.db.events.rows ++ evicted.flatten) ∧
      l.store.db.droppedEventCount = evicted.flatten.length ∧
      ∀ (depth : ℕ) (limit : ℤ), Sql.FitsInteger limit →
        ∃ entries, l.store.dropLog (depth + 1) limit = .ok entries ∧
          List.Forall₂ DropEntry.Reports entries (Sql.limited limit evicted.reverse) := by
  intro l
  obtain ⟨evicted, hperm, hdrops⟩ : l.Accounted := accounted_run maxEvents minFreeBytes ops
  refine ⟨evicted, hperm, droppedEventCount_of_accounts hdrops, fun depth limit hfits => ?_⟩
  have hindexed : List.Forall₂ (fun (drop : OverflowDrop × ℕ) removed =>
      Accounts drop.1 removed ∧ removed.length ≤ SQLITE_MAX_ROWS)
      (l.store.db.overflowDrops.zipIdx 1) evicted := by
    rw [← List.zipIdx_map_fst 1 l.store.db.overflowDrops, List.forall₂_map_left_iff] at hdrops
    exact hdrops
  have hselected := Sql.forall₂_limited limit (List.forall₂_reverse_iff.mpr hindexed)
  rw [dropLog, if_neg (not_not.mpr hfits)]
  exact Py.mapM_of_forall₂ (hselected.imp fun drop removed h =>
    dropEntry_of_accounts depth h.1 h.2 drop.2)

end EventStore
end Ebabf
