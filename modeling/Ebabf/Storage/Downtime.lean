import Ebabf.Storage.Gaps

/-!
# Declared outages

A start records the time since the last stored event as an outage. Where no event was stored since
the outage before it, or the ones stored have been evicted, the new record covers the old one again.
-/

namespace Ebabf

open Py (Str str Exc Datetime)
open Transition

/-- Two outages that share at most an end. -/
def Apart (i j : Datetime × Datetime) : Prop :=
  i.2.instant ≤ j.1.instant ∨ j.2.instant ≤ i.1.instant

theorem secondsBetween_add (a b c : Datetime) :
    secondsBetween a b + secondsBetween b c = secondsBetween a c := by
  unfold secondsBetween
  push_cast
  ring

theorem secondsBetween_nonneg {a b : Datetime} (h : a.instant ≤ b.instant) :
    0 ≤ secondsBetween a b := by
  have hcast : (0 : ℚ) ≤ (b.instant - a.instant : ℤ) := by exact_mod_cast Int.sub_nonneg.mpr h
  exact div_nonneg hcast (by norm_num)

theorem sum_secondsBetween_le {outages : List (Datetime × Datetime)} {first now : Datetime}
    (hordered : outages.Pairwise fun i j => i.2.instant ≤ j.1.instant)
    (hwithin : ∀ i ∈ outages, first.instant ≤ i.1.instant ∧ i.1.instant ≤ i.2.instant ∧
      i.2.instant ≤ now.instant) (hle : first.instant ≤ now.instant) :
    (outages.map fun i => secondsBetween i.1 i.2).sum ≤ secondsBetween first now := by
  induction outages generalizing first with
  | nil => exact secondsBetween_nonneg hle
  | cons i outages ih =>
    obtain ⟨hafter, hordered⟩ := List.pairwise_cons.mp hordered
    obtain ⟨⟨hstart, hlong, hstop⟩, hrest⟩ := List.forall_mem_cons.mp hwithin
    have hsum := ih hordered (fun j hj => ⟨hafter j hj, (hrest j hj).2⟩) hstop
    have hfirst := secondsBetween_nonneg hstart
    have hsplit := secondsBetween_add first i.1 now
    have hsplit' := secondsBetween_add i.1 i.2 now
    rw [List.map_cons, List.sum_cons]
    linarith

/-- The two ends of a recorded outage. -/
def CoverageGap.outage (gap : CoverageGap) : Option (Datetime × Datetime) :=
  if gap.kind = str "agent_downtime" then do
    let start ← gap.gapStart.bind Datetime.fromisoformat
    let stop ← gap.gapEnd.bind Datetime.fromisoformat
    return (start, stop)
  else none

def Db.outages (db : Db) : List (Datetime × Datetime) :=
  db.coverageGaps.filterMap CoverageGap.outage

namespace EventStore

theorem outage_downtimeGap (start : Datetime) (env : DowntimeEnv) :
    (downtimeGap start env).outage = some (start, env.now) := by
  simp only [CoverageGap.outage, downtimeGap, Option.bind_some, Datetime.fromisoformat_isoformat,
    ↓reduceIte]
  rfl

/-- A start leaves the store as it is, or adds the outage since the last stored event. -/
theorem detectDowntime_cases {threshold : WithTop ℚ} {env : DowntimeEnv} {s : EventStore}
    {t : Datetime} (hlast : s.db.lastIngested = some t.isoformat) (ht : t.utcoffset ≠ none) :
    (s.detectDowntime threshold env).2 = s ∨ threshold ≤ secondsBetween t env.now ∧
      (s.detectDowntime threshold env).2 = s.recordGapLocked (downtimeGap t env) := by
  by_cases hnow : env.now.utcoffset = none
  · left
    unfold detectDowntime
    rw [hlast]
    dsimp only
    rw [Datetime.fromisoformat_isoformat]
    dsimp only
    rw [subtract, if_neg]
    rw [hnow, Option.isSome_iff_ne_none.mpr ht]
    exact Bool.false_ne_true
  · rw [detectDowntime_eq hlast ht hnow]
    split_ifs with hshort
    · exact .inl rfl
    · exact .inr ⟨not_lt.mp hshort, rfl⟩

/-- The stamp of the row of an append, if the table takes the row. -/
def taken (event : Event) (env : AppendEnv) (s : EventStore) : Option Datetime :=
  match prepare event env with
  | .error _ => none
  | .ok (_, row) =>
    match s.db.insertEvent row with
    | .error _ => none
    | .ok _ => some env.stamp

/-- `enforceCap`, its eviction run up to a point. -/
def enforceCapUpTo (point : EvictionPoint) (env : AppendEnv) (s : EventStore) : EventStore :=
  match s.maxEvents with
  | none => s
  | some maxEvents =>
    if maxEvents < s.rowCount then s.evictUpTo point maxEvents env.droppedAt else s

/-- An `append` whose process is killed: right after the INSERT, or once the free-space check is
over and the eviction, if any, has come to a point. -/
def appendKilled (event : Event) (env : AppendEnv) (cut : Option EvictionPoint) (s : EventStore) :
    EventStore :=
  match prepare event env with
  | .error _ => s
  | .ok (_, row) =>
    match s.db.insertEvent row with
    | .error _ => s
    | .ok db =>
      match cut with
      | none => { s with db }
      | some point =>
        match { s with db }.checkFreeSpaceLocked env with
        | (.error _, s) => s
        | (.ok (), s) => { s with rowCount := s.rowCount + 1 }.enforceCapUpTo point env

/-- What an append, whole or not, may do: nothing, or add a row, drop some, and record anything but
an outage. -/
def Appends (event : Event) (env : AppendEnv) (s s' : EventStore) : Prop :=
  s'.db.outages = s.db.outages ∧
    (s'.db.events.rows ⊆ s.db.events.rows ∨ ∃ stamped row, prepare event env = .ok (stamped, row) ∧
      s.taken event env = some env.stamp ∧ s'.db.events.rows ⊆ s.db.events.rows ++ [row])

variable {event : Event} {env : AppendEnv} {s : EventStore}

theorem checkFreeSpaceLocked_db (env : AppendEnv) (s : EventStore) :
    (s.checkFreeSpaceLocked env).2.db.events = s.db.events ∧
      (s.checkFreeSpaceLocked env).2.db.outages = s.db.outages := by
  have hhalt : ∀ reason s, (halt reason env s).2.db.events = s.db.events ∧
      (halt reason env s).2.db.outages = s.db.outages := by
    intro reason s
    refine ⟨rfl, ?_⟩
    simp only [halt, recordGapLocked, Db.outages, List.filterMap_append, List.filterMap_cons,
      List.filterMap_nil]
    exact List.append_nil _
  unfold checkFreeSpaceLocked
  split
  · exact ⟨rfl, rfl⟩
  · split
    · exact ⟨rfl, rfl⟩
    · split_ifs
      · exact ⟨rfl, rfl⟩
      · split
        · exact ⟨rfl, rfl⟩
        · split_ifs
          · exact ⟨rfl, rfl⟩
          · exact hhalt _ _

theorem evictUpTo_db (point : EvictionPoint) (maxEvents : ℤ) (droppedAt : Datetime)
    (s : EventStore) :
    (s.evictUpTo point maxEvents droppedAt).db.events.rows ⊆ s.db.events.rows ∧
      (s.evictUpTo point maxEvents droppedAt).db.outages = s.db.outages := by
  by_cases hd : s.doomed maxEvents = []
  · rw [evictUpTo_of_doomed_eq_nil droppedAt hd]
    exact ⟨List.Subset.refl _, rfl⟩
  · rw [db_evictUpTo droppedAt hd]
    cases point with
    | selected => exact ⟨List.Subset.refl _, rfl⟩
    | deleted | counted | clockRead | recorded =>
      exact ⟨(s.db.events.deleteFirst_sublist _ _).subset, rfl⟩

theorem enforceCapUpTo_db (point : EvictionPoint) (env : AppendEnv) (s : EventStore) :
    (s.enforceCapUpTo point env).db.events.rows ⊆ s.db.events.rows ∧
      (s.enforceCapUpTo point env).db.outages = s.db.outages := by
  unfold enforceCapUpTo
  split
  · exact ⟨List.Subset.refl _, rfl⟩
  · split_ifs
    · exact evictUpTo_db _ _ _ s
    · exact ⟨List.Subset.refl _, rfl⟩

theorem appends_appendKilled (event : Event) (env : AppendEnv) (cut : Option EvictionPoint)
    (s : EventStore) : s.Appends event env (s.appendKilled event env cut) := by
  unfold appendKilled
  cases hprepare : prepare event env with
  | error e => exact ⟨rfl, .inl (List.Subset.refl _)⟩
  | ok prepared =>
    obtain ⟨stamped, row⟩ := prepared
    dsimp only
    cases hinsert : s.db.insertEvent row with
    | error e => exact ⟨rfl, .inl (List.Subset.refl _)⟩
    | ok db =>
      have htaken : s.taken event env = some env.stamp := by
        simp only [taken, hprepare, hinsert]
      obtain ⟨-, events, hrows, rfl⟩ := db_insertEvent hinsert
      have hinserted : ∀ s' : EventStore, s'.db.outages = s.db.outages →
          s'.db.events.rows ⊆ events.rows → s.Appends event env s' := by
        intro s' houtages hsubset
        exact ⟨houtages, .inr ⟨stamped, row, hprepare, htaken, hrows ▸ hsubset⟩⟩
      cases cut with
      | none => exact hinserted _ rfl (List.Subset.refl _)
      | some point =>
        obtain ⟨hevents, houtages⟩ :=
          checkFreeSpaceLocked_db env { s with db := { s.db with events } }
        dsimp only
        split
        · rename_i e s' hcheck
          rw [hcheck] at hevents houtages
          refine hinserted s' houtages fun r hr => ?_
          rwa [hevents] at hr
        · rename_i s' hcheck
          rw [hcheck] at hevents houtages
          obtain ⟨hsubset, hsame⟩ :=
            enforceCapUpTo_db point env { s' with rowCount := s'.rowCount + 1 }
          refine hinserted _ (hsame.trans houtages) fun r hr => ?_
          have hmem := hsubset hr
          rwa [hevents] at hmem

theorem append_snd (event : Event) (env : AppendEnv) (s : EventStore) :
    (s.append event env).2 = s.appendKilled event env (some .recorded) := by
  unfold append appendKilled
  cases prepare event env with
  | error e => rfl
  | ok prepared =>
    obtain ⟨stamped, row⟩ := prepared
    dsimp only
    cases s.db.insertEvent row with
    | error e => rfl
    | ok db =>
      dsimp only
      generalize checkFreeSpaceLocked env { s with db } = outcome
      obtain ⟨e | ⟨⟩, s'⟩ := outcome
      · rfl
      · rfl

/-- What happens to the database: an agent starts on it, with the limits of its handle, or appends,
or is killed while it does. -/
inductive AgentOp
  | start (maxEvents minFreeBytes : Option ℤ) (env : DowntimeEnv)
  | append (event : Event) (env : AppendEnv)
  | killed (event : Event) (env : AppendEnv) (cut : Option EvictionPoint)

/-- The open store, the time of the first event ever stored and the last reading of the clock. -/
structure AgentRun where
  store : EventStore
  firstEvent : Option Datetime
  now : Option Datetime

namespace AgentOp

/-- When the step is taken. -/
def reading : AgentOp → Datetime
  | start _ _ env => env.now
  | append _ env => env.stamp
  | killed _ env _ => env.stamp

/-- A start opens a handle and calls `detect_downtime` once. -/
def step (threshold : WithTop ℚ) : AgentOp → AgentRun → AgentRun
  | start maxEvents minFreeBytes env, r =>
    { r with
      store := ((init r.store.db maxEvents minFreeBytes).detectDowntime threshold env).2
      now := some env.now }
  | append event env, r =>
    { store := (r.store.append event env).2
      firstEvent := r.firstEvent <|> r.store.taken event env
      now := some env.stamp }
  | killed event env cut, r =>
    { store := r.store.appendKilled event env cut
      firstEvent := r.firstEvent <|> r.store.taken event env
      now := some env.stamp }

end AgentOp

namespace AgentRun

/-- Nothing is stored and nothing has happened. -/
def fresh : AgentRun := ⟨init Db.empty none none, none, none⟩

/-- The clock does not go back. -/
def ClockAdvances (r : AgentRun) (op : AgentOp) : Prop :=
  ∀ now ∈ r.now, now.instant ≤ op.reading.instant

/-- An event has been stored since every outage on record: a start that adds an outage finds a last
event that is not before the end of any other. -/
def FollowsEvent (threshold : WithTop ℚ) (r : AgentRun) : AgentOp → Prop
  | .start _ _ env => ∀ last : Datetime, r.store.db.lastIngested = some last.isoformat →
    threshold ≤ secondsBetween last env.now →
      ∀ outage ∈ r.store.db.outages, outage.2.instant ≤ last.instant
  | _ => True

/-- No two recorded outages overlap, and together they are no longer than the time since the first
event. -/
def OutagesApart (r : AgentRun) : Prop :=
  r.store.db.outages.Pairwise Apart ∧
    (r.store.db.outages = [] ∨ ∃ first ∈ r.firstEvent, ∃ now ∈ r.now,
      (r.store.db.outages.map fun i => secondsBetween i.1 i.2).sum ≤ secondsBetween first now)

/-- Not before the first event, and not after the last reading of the clock. -/
def Covers (r : AgentRun) (d : Datetime) : Prop :=
  (∃ first ∈ r.firstEvent, first.instant ≤ d.instant) ∧ ∃ now ∈ r.now, d.instant ≤ now.instant

/-- The rows carry times of the run, and every outage follows the one before it. -/
structure InOrder (r : AgentRun) : Prop where
  first : ∀ first ∈ r.firstEvent, ∃ now ∈ r.now, first.instant ≤ now.instant
  rows : ∀ row ∈ r.store.db.events.rows, ∃ d : Datetime, d.utcoffset ≠ none ∧
    row.ingestedAt = d.isoformat ∧ r.Covers d
  ordered : r.store.db.outages.Pairwise fun i j => i.2.instant ≤ j.1.instant
  within : ∀ i ∈ r.store.db.outages, r.Covers i.1 ∧ r.Covers i.2 ∧ i.1.instant ≤ i.2.instant

theorem outagesApart_of_inOrder {r : AgentRun} (h : r.InOrder) : r.OutagesApart := by
  refine ⟨h.ordered.imp .inl, ?_⟩
  rcases List.eq_nil_or_concat r.store.db.outages with hnil | ⟨outages, last, hlast⟩
  · exact .inl hnil
  · right
    have hmem : last ∈ r.store.db.outages := by
      rw [hlast]
      simp
    obtain ⟨⟨⟨first, hfirst, hstart⟩, -⟩, ⟨-, now, hnow, hstop⟩, hlong⟩ := h.within last hmem
    refine ⟨first, hfirst, now, hnow, sum_secondsBetween_le h.ordered ?_ (by omega)⟩
    intro i hi
    obtain ⟨⟨⟨first', hfirst', hstart'⟩, -⟩, ⟨-, now', hnow', hstop'⟩, hlong'⟩ := h.within i hi
    cases Option.mem_unique hfirst hfirst'
    cases Option.mem_unique hnow hnow'
    exact ⟨hstart', hlong', hstop'⟩

theorem Covers.mono {r r' : AgentRun} {d : Datetime} (h : r.Covers d)
    (hfirst : ∀ first ∈ r.firstEvent, first ∈ r'.firstEvent)
    (hnow : ∀ now ∈ r.now, ∃ now' ∈ r'.now, now.instant ≤ now'.instant) : r'.Covers d := by
  obtain ⟨⟨first, hmem, hstart⟩, now, hmem', hstop⟩ := h
  obtain ⟨now', hlater, hle⟩ := hnow now hmem'
  exact ⟨⟨first, hfirst first hmem, hstart⟩, now', hlater, hstop.trans hle⟩

/-- A step that keeps the rows it does not add, and records one outage at most, after those before
it, keeps the run in order. -/
theorem InOrder.extend {r r' : AgentRun} {now : Datetime} (h : r.InOrder)
    (recorded : Option (Datetime × Datetime)) (hnow : r'.now = some now)
    (hclock : ∀ t ∈ r.now, t.instant ≤ now.instant)
    (hkeeps : ∀ first ∈ r.firstEvent, first ∈ r'.firstEvent)
    (hfirst : ∀ first ∈ r'.firstEvent, first.instant ≤ now.instant)
    (hrows : ∀ row ∈ r'.store.db.events.rows, row ∈ r.store.db.events.rows ∨
      ∃ d : Datetime, d.utcoffset ≠ none ∧ row.ingestedAt = d.isoformat ∧ r'.Covers d)
    (houtages : r'.store.db.outages = r.store.db.outages ++ recorded.toList)
    (hfollows : ∀ outage ∈ recorded, ∀ i ∈ r.store.db.outages, i.2.instant ≤ outage.1.instant)
    (hwithin : ∀ outage ∈ recorded, r'.Covers outage.1 ∧ r'.Covers outage.2 ∧
      outage.1.instant ≤ outage.2.instant) : r'.InOrder := by
  have hmono : ∀ d, r.Covers d → r'.Covers d := fun d hd =>
    hd.mono hkeeps fun t ht => ⟨now, hnow, hclock t ht⟩
  constructor
  · exact fun first hmem => ⟨now, hnow, hfirst first hmem⟩
  · intro row hrow
    rcases hrows row hrow with hold | hnew
    · obtain ⟨d, haware, htext, hcovers⟩ := h.rows row hold
      exact ⟨d, haware, htext, hmono d hcovers⟩
    · exact hnew
  · rw [houtages, List.pairwise_append]
    refine ⟨h.ordered, ?_, fun i hi j hj => hfollows j (Option.mem_toList.mp hj) i hi⟩
    cases recorded with
    | none => exact List.Pairwise.nil
    | some outage => exact List.pairwise_singleton _ _
  · rw [houtages]
    intro i hi
    rcases List.mem_append.mp hi with hold | hnew
    · obtain ⟨hstart, hstop, hlong⟩ := h.within i hold
      exact ⟨hmono _ hstart, hmono _ hstop, hlong⟩
    · exact hwithin i (Option.mem_toList.mp hnew)

theorem InOrder.first_le {r : AgentRun} {now : Datetime} (h : r.InOrder)
    (hclock : ∀ t ∈ r.now, t.instant ≤ now.instant) :
    ∀ first ∈ r.firstEvent, first.instant ≤ now.instant := by
  intro first hfirst
  obtain ⟨t, ht, hle⟩ := h.first first hfirst
  exact hle.trans (hclock t ht)

theorem eq_stamp_of_taken {event : Event} {env : AppendEnv} {s : EventStore} {t : Datetime}
    (h : t ∈ s.taken event env) : t = env.stamp := by
  unfold taken at h
  split at h
  · cases h
  · split at h
    · cases h
    · cases h
      rfl

theorem inOrder_appends {r : AgentRun} {event : Event} {env : AppendEnv} {s : EventStore}
    (h : r.InOrder) (hclock : ∀ now ∈ r.now, now.instant ≤ env.stamp.instant)
    (happends : r.store.Appends event env s) :
    InOrder ⟨s, r.firstEvent <|> r.store.taken event env, some env.stamp⟩ := by
  obtain ⟨houtages, hrows⟩ := happends
  have hpast := h.first_le hclock
  refine h.extend none rfl hclock ?_ ?_ ?_ (houtages.trans (List.append_nil _).symm)
    (fun _ hnone => nomatch hnone) fun _ hnone => nomatch hnone
  · intro first hfirst
    rw [Option.mem_def.mp hfirst]
    rfl
  · intro first hfirst
    cases hr : r.firstEvent with
    | some first' =>
      rw [hr] at hfirst
      cases hfirst
      exact hpast first hr
    | none =>
      rw [hr] at hfirst
      rw [eq_stamp_of_taken hfirst]
  · intro row hrow
    rcases hrows with hsubset | ⟨stamped, row', hprepare, htaken, hsubset⟩
    · exact .inl (hsubset hrow)
    · rcases List.mem_append.mp (hsubset hrow) with hmem | hnew
      · exact .inl hmem
      · obtain ⟨haware, htext⟩ := ingestedAt_of_prepare hprepare
        rw [List.mem_singleton.mp hnew]
        refine .inr ⟨env.stamp, haware, htext, ?_, env.stamp, rfl, le_refl _⟩
        rw [htaken]
        cases hr : r.firstEvent with
        | some first => exact ⟨first, rfl, hpast first hr⟩
        | none => exact ⟨env.stamp, rfl, le_refl _⟩

theorem inOrder_start {threshold : WithTop ℚ} {r : AgentRun} {maxEvents minFreeBytes : Option ℤ}
    {env : DowntimeEnv} (h : r.InOrder) (hclock : ∀ now ∈ r.now, now.instant ≤ env.now.instant)
    (hfollows : r.FollowsEvent threshold (.start maxEvents minFreeBytes env)) :
    InOrder ((AgentOp.start maxEvents minFreeBytes env).step threshold r) := by
  let opened := init r.store.db maxEvents minFreeBytes
  have hunchanged : InOrder ⟨opened, r.firstEvent, some env.now⟩ :=
    h.extend none rfl hclock (fun _ hfirst => hfirst) (h.first_le hclock) (fun _ hrow => .inl hrow)
      (List.append_nil _).symm (fun _ hnone => nomatch hnone) fun _ hnone => nomatch hnone
  cases hlast : r.store.db.lastIngested with
  | none =>
    have hstep : (opened.detectDowntime threshold env).2 = opened := by
      unfold detectDowntime
      have hnone : opened.db.lastIngested = none := hlast
      rw [hnone]
    rw [AgentOp.step, hstep]
    exact hunchanged
  | some text =>
    obtain ⟨row, hrow, hrowText⟩ := Db.mem_lastIngested hlast
    obtain ⟨t, haware, htext, hcovers⟩ := h.rows row hrow
    have hlast' : r.store.db.lastIngested = some t.isoformat := by rw [hlast, ← hrowText, htext]
    rcases detectDowntime_cases (s := opened) hlast' haware with hstep | ⟨hlong, hstep⟩
    · rw [AgentOp.step, hstep]
      exact hunchanged
    · obtain ⟨⟨first, hmem, hstart⟩, now, hnow, hstop⟩ := hcovers
      have hpast : t.instant ≤ env.now.instant := hstop.trans (hclock now hnow)
      rw [AgentOp.step, hstep]
      refine h.extend (some (t, env.now)) rfl hclock (fun _ hfirst => hfirst) (h.first_le hclock)
        (fun _ hrow => .inl hrow) ?_ ?_ ?_
      · show (r.store.db.coverageGaps ++ [downtimeGap t env]).filterMap CoverageGap.outage = _
        rw [List.filterMap_append, List.filterMap_cons_some (outage_downtimeGap t env)]
        rfl
      · intro outage houtage
        cases houtage
        exact hfollows t hlast' hlong
      · intro outage houtage
        cases houtage
        exact ⟨⟨⟨first, hmem, hstart⟩, env.now, rfl, hpast⟩,
          ⟨⟨first, hmem, hstart.trans hpast⟩, env.now, rfl, le_refl _⟩, hpast⟩

theorem step_inOrder (threshold : WithTop ℚ) (op : AgentOp) (r : AgentRun) (h : r.InOrder)
    (hop : r.ClockAdvances op ∧ r.FollowsEvent threshold op) :
    InOrder (op.step threshold r) := by
  cases op with
  | start maxEvents minFreeBytes env => exact inOrder_start h hop.1 hop.2
  | append event env =>
    have happends := appends_appendKilled event env (some .recorded) r.store
    rw [← append_snd] at happends
    exact inOrder_appends h hop.1 happends
  | killed event env cut =>
    exact inOrder_appends h hop.1 (appends_appendKilled event env cut r.store)

theorem fresh_inOrder : fresh.InOrder :=
  ⟨nofun, nofun, List.Pairwise.nil, nofun⟩

/-- Along a run whose clock does not go back and whose starts each find an event stored since the
outages on record, no two recorded outages ever overlap, and they add up to no more than the time
since the first event. -/
theorem outages_apart {threshold : WithTop ℚ} {ops : List AgentOp}
    (hclock : Always (AgentOp.step threshold) ClockAdvances ops fresh)
    (hfollows : Always (AgentOp.step threshold) (FollowsEvent threshold) ops fresh) :
    Visits (AgentOp.step threshold) OutagesApart ops fresh := by
  have hboth : Always (AgentOp.step threshold)
      (fun r op => r.ClockAdvances op ∧ r.FollowsEvent threshold op) ops fresh :=
    fun before op after hops => ⟨hclock before op after hops, hfollows before op after hops⟩
  intro before after hops
  rw [hops] at hboth
  have hbefore := Transition.Always.prefix hboth
  exact outagesApart_of_inOrder (hbefore.run_invariant (step_inOrder threshold) fresh_inOrder)

/-- So many minutes after the epoch, within its hour. -/
def minutesLater (minutes : ℕ) : Datetime :=
  { Datetime.epoch with
    minute := minutes % 60
    time_valid := ⟨by decide, Nat.mod_lt _ (by decide), by decide, by decide⟩ }

def startAt (now : Datetime) : AgentOp := .start none none ⟨now, now⟩

def appendAtEpoch : AgentOp := .append (.plain (str "EVT-1") Event.strip_evt1) (envWithFree none)

/-- The agent has started and appended one event. -/
def afterOneEvent : AgentRun :=
  run (AgentOp.step (300 : ℚ)) [startAt Datetime.epoch, appendAtEpoch] fresh

theorem afterOneEvent_db : afterOneEvent.store.db.lastIngested = some Datetime.epoch.isoformat ∧
    afterOneEvent.store.db.coverageGaps = [] := by
  have haccepts : (init Db.empty none none).Accepts (.plain (str "EVT-1") (by decide))
      (envWithFree none) :=
    accepts_plain (by decide) (by decide) none (by decide) List.not_mem_nil
  obtain ⟨events, n, happend, hrows⟩ := append_of_unlimited ⟨rfl, rfl, rfl⟩ haccepts
    (prepare_plain (str "EVT-1") (by decide) none)
  have hstore : afterOneEvent.store = (init Db.empty none none).counted events n :=
    congrArg Prod.snd happend
  rw [hstore]
  constructor
  · show (events.rows.map EventRow.ingestedAt).max? = _
    rw [hrows]
    rfl
  · rfl

theorem startAt_store {r : AgentRun} {minutes : ℕ} (hlong : 5 ≤ minutes) (hhour : minutes < 60)
    (hlast : r.store.db.lastIngested = some Datetime.epoch.isoformat) :
    ((startAt (minutesLater minutes)).step (300 : ℚ) r).store =
      (init r.store.db none none).recordGapLocked
        (downtimeGap Datetime.epoch ⟨minutesLater minutes, minutesLater minutes⟩) := by
  let env : DowntimeEnv := ⟨minutesLater minutes, minutesLater minutes⟩
  have hseconds : secondsBetween Datetime.epoch (minutesLater minutes) = 60 * minutes := by
    have hinstants : (minutesLater minutes).instant - Datetime.epoch.instant =
        60000000 * minutes := by
      have hsame : Py.toordinal (minutesLater minutes).year (minutesLater minutes).month
          (minutesLater minutes).day = Py.toordinal Datetime.epoch.year Datetime.epoch.month
            Datetime.epoch.day := rfl
      unfold Datetime.instant Datetime.wallClock
      rw [hsame]
      simp only [minutesLater, Datetime.epoch]
      omega
    rw [secondsBetween, hinstants]
    push_cast
    ring
  have haware : env.now.utcoffset ≠ none := Option.some_ne_none 0
  show ((init r.store.db none none).detectDowntime (300 : ℚ) env).2 = _
  rw [detectDowntime_eq (s := init r.store.db none none) hlast (by decide) haware, if_neg]
  rw [not_lt, hseconds]
  have hminutes : (5 : ℚ) ≤ minutes := by exact_mod_cast hlong
  exact_mod_cast (by linarith : (300 : ℚ) ≤ 60 * minutes)

theorem startAt_db {r : AgentRun} {minutes : ℕ} (hlong : 5 ≤ minutes) (hhour : minutes < 60)
    (hlast : r.store.db.lastIngested = some Datetime.epoch.isoformat) :
    ((startAt (minutesLater minutes)).step (300 : ℚ) r).store.db.lastIngested =
        some Datetime.epoch.isoformat ∧
      ((startAt (minutesLater minutes)).step (300 : ℚ) r).store.db.outages =
        r.store.db.outages ++ [(Datetime.epoch, minutesLater minutes)] := by
  rw [startAt_store hlong hhour hlast]
  refine ⟨hlast, ?_⟩
  show (r.store.db.coverageGaps ++ [downtimeGap Datetime.epoch _]).filterMap _ = _
  rw [List.filterMap_append, List.filterMap_cons_some (outage_downtimeGap _ _)]
  rfl

/-- Two starts in a row record overlapping outages. -/
theorem not_outages_apart : ¬∀ (threshold : WithTop ℚ) (ops : List AgentOp),
    Always (AgentOp.step threshold) ClockAdvances ops fresh →
      Visits (AgentOp.step threshold) OutagesApart ops fresh := by
  intro h
  let ten := minutesLater 10
  let twenty := minutesLater 20
  have hclock : Always (AgentOp.step (300 : ℚ)) ClockAdvances
      [startAt Datetime.epoch, appendAtEpoch, startAt ten, startAt twenty] fresh := by
    simp only [always_cons, always_nil, and_true]
    refine ⟨nofun, ?_, ?_, ?_⟩
    · rintro _ ⟨⟩
      decide
    · rintro _ ⟨⟩
      decide
    · rintro _ ⟨⟩
      decide
  have hend := h (300 : ℚ) _ hclock [startAt Datetime.epoch, appendAtEpoch, startAt ten,
    startAt twenty] [] rfl
  obtain ⟨hlast, hgaps⟩ := afterOneEvent_db
  obtain ⟨hlast', houtages⟩ := startAt_db (show 5 ≤ 10 by decide) (by decide) hlast
  obtain ⟨-, houtages'⟩ := startAt_db (show 5 ≤ 20 by decide) (by decide) hlast'
  have hnone : afterOneEvent.store.db.outages = [] := by rw [Db.outages, hgaps]; rfl
  have hapart := hend.1
  change List.Pairwise Apart ((startAt twenty).step (300 : ℚ) ((startAt ten).step (300 : ℚ)
    afterOneEvent)).store.db.outages at hapart
  rw [houtages', houtages, hnone] at hapart
  have htwo : Apart (Datetime.epoch, ten) (Datetime.epoch, twenty) :=
    (List.pairwise_pair.mp hapart)
  rcases htwo with hle | hle
  · exact absurd hle (by decide)
  · exact absurd hle (by decide)

/-- A second event, as the outage ends. -/
def appendAtTen : AgentOp :=
  .append (.plain (str "EVT-2") Event.strip_evt2) { envWithFree none with stamp := minutesLater 10 }

/-- The agent has come back after ten minutes and appended again. -/
def afterTwoEvents : AgentRun :=
  run (AgentOp.step (300 : ℚ)) [startAt (minutesLater 10), appendAtTen] afterOneEvent

theorem afterTwoEvents_db :
    afterTwoEvents.store.db.lastIngested = some (minutesLater 10).isoformat ∧
      afterTwoEvents.store.db.outages = [(Datetime.epoch, minutesLater 10)] := by
  have hstore := startAt_store (show 5 ≤ 10 by decide) (by decide) afterOneEvent_db.1
  have hafter : afterTwoEvents.store = (EventStore.append _ _
      ((startAt (minutesLater 10)).step (300 : ℚ) afterOneEvent).store).2 := rfl
  rw [hstore] at hafter
  rw [hafter]
  exact ⟨rfl, rfl⟩

/-- Two outages with an event between them; the second begins with that event. -/
theorem outages_apart_twice : Visits (AgentOp.step (300 : ℚ)) OutagesApart
    [startAt Datetime.epoch, appendAtEpoch, startAt (minutesLater 10), appendAtTen,
      startAt (minutesLater 20)] fresh := by
  refine outages_apart ?_ ?_
  · simp only [always_cons, always_nil, and_true]
    refine ⟨nofun, ?_, ?_, ?_, ?_⟩
    · rintro _ ⟨⟩
      decide
    · rintro _ ⟨⟩
      decide
    · rintro _ ⟨⟩
      decide
    · rintro _ ⟨⟩
      decide
  · simp only [always_cons, always_nil, and_true]
    refine ⟨?_, trivial, ?_, trivial, ?_⟩
    · intro last hlast
      cases hlast
    · intro last _ _ outage houtage
      change outage ∈ afterOneEvent.store.db.outages at houtage
      rw [Db.outages, afterOneEvent_db.2] at houtage
      cases houtage
    · intro last hlast _ outage houtage
      change outage ∈ afterTwoEvents.store.db.outages at houtage
      change afterTwoEvents.store.db.lastIngested = _ at hlast
      rw [afterTwoEvents_db.1, Option.some.injEq] at hlast
      rw [afterTwoEvents_db.2, List.mem_singleton] at houtage
      rw [houtage, Datetime.isoformat_injective hlast]

end AgentRun

end EventStore
end Ebabf
