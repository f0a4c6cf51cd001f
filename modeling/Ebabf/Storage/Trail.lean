import Ebabf.Storage.Bridge

/-!
# The disclosure trail

`access_log` reads the trail back. After any run of requests, appends and mints it lists the rows
the run has written, the latest first, before those that were there; every disclosure of the run is
among them, and each of them is the row of a request that got past the policy.
-/

namespace Ebabf

open Py (Str str Exc Proc Datetime)

variable {τ : Type}

namespace AccessLog

/-- The table, with its key. -/
def table (log : AccessLog) : Sql.Table AccessRow AccessRow.accessId := ⟨log.rows, log.distinct⟩

/-- `ORDER BY access_id DESC` -/
def latestFirst (log : AccessLog) : List AccessRow := log.table.orderBy fun row => -row.accessId

theorem mem_latestFirst {log : AccessLog} {row : AccessRow} :
    row ∈ log.latestFirst ↔ row ∈ log.rows :=
  (log.table.orderBy_perm _).mem_iff

theorem latestFirst_insert (request : AccessRequest) (requestedAt : Datetime) (log : AccessLog) :
    (log.insert request requestedAt).latestFirst =
      request.toRow (log.sequence + 1) requestedAt :: log.latestFirst := by
  set row := request.toRow (log.sequence + 1) requestedAt with hrow
  set log' := log.insert request requestedAt with hlog'
  have hsorted : (row :: log.latestFirst).Pairwise fun r s => -r.accessId ≤ -s.accessId := by
    refine List.pairwise_cons.mpr ⟨?_, log.table.orderBy_sorted _⟩
    intro older holder
    have hbound := log.bounded older (mem_latestFirst.mp holder)
    have hid : row.accessId = log.sequence + 1 := rfl
    omega
  have hrows : log'.rows.Perm (row :: log.rows) := List.perm_append_singleton row log.rows
  have hperm : log'.latestFirst.Perm (row :: log.latestFirst) :=
    (log'.table.orderBy_perm _).trans (hrows.trans ((log.table.orderBy_perm _).symm.cons row))
  refine List.Perm.eq_of_pairwise ?_ (log'.table.orderBy_sorted _) hsorted hperm
  intro r s hr hs hrs hsr
  have hid : r.accessId = s.accessId := by omega
  exact List.inj_on_of_nodup_map log'.distinct (mem_latestFirst.mp hr)
    (mem_latestFirst.mp (hperm.mem_iff.mpr hs)) hid

end AccessLog

/-- `access_log(limit)`, without the names of its columns. -/
def IdentityStore.readAccessLog (limit : ℤ) (s : IdentityStore τ) : Except Exc (List AccessRow) :=
  if ¬Sql.FitsInteger limit then
    .error ⟨.other (str "OverflowError"), str "Python int too large to convert to SQLite INTEGER"⟩
  else .ok (Sql.limited limit s.accessLog.latestFirst)

def IdentityAction.auditRow? : IdentityAction → Option AccessRow
  | .audit row => some row
  | .decrypt _ => none

namespace BridgeRun

/-- The audit rows of one step. -/
def written (fernet : Fernet τ) (run : BridgeRun τ) : BridgeOp → List AccessRow
  | .resolve request requestedAt limit =>
    (resolveSubjectForEvent fernet limit request requestedAt run.stores).trace.filterMap
      IdentityAction.auditRow?
  | .append .. => []
  | .mint .. => []

/-- The audit rows of a run, the latest first. -/
def trail (fernet : Fernet τ) : List BridgeOp → BridgeRun τ → List AccessRow
  | [], _ => []
  | op :: ops, run => trail fernet ops (run.step fernet op) ++ run.written fernet op

variable {fernet : Fernet τ} {run : BridgeRun τ}

theorem trail_append (before after : List BridgeOp) (run : BridgeRun τ) :
    trail fernet (before ++ after) run =
      trail fernet after (Transition.run (step fernet) before run) ++ trail fernet before run := by
  induction before generalizing run with
  | nil => exact (List.append_nil _).symm
  | cons op before ih =>
    rw [List.cons_append, trail, trail, ih, Transition.run_cons, List.append_assoc]

/-- The row of a request: what was asked for, by whom, with whose approval, why and when. -/
structure Names (request : DisclosureRequest) (requestedAt : Datetime) (event : Event)
    (row : AccessRow) : Prop where
  event_id : row.eventId = some request.eventId
  pseudonym : row.pseudonym = event.fields.subjectPseudonym
  actor : row.actor = request.actor
  second_approver : row.secondApprover = request.secondApprover
  reason : row.reason = request.reason
  requested_at : row.requestedAt = requestedAt.isoformat

/-- A request that passes and can be recorded writes its row, and no other request writes one or
returns a subject. -/
theorem written_resolve (request : DisclosureRequest) (requestedAt : Datetime) (limit : ℕ) :
    let ran := resolveSubjectForEvent fernet limit request requestedAt run.stores
    (∃ event row, request.Passes limit run.stores event ∧ Names request requestedAt event row ∧
      run.written fernet (.resolve request requestedAt limit) = [row] ∧
      ran.state.identities.accessLog.latestFirst =
        row :: run.stores.identities.accessLog.latestFirst) ∨
    (run.written fernet (.resolve request requestedAt limit) = [] ∧
      ran.state = run.stores ∧ ∀ subject, ran.outcome ≠ .ok subject) := by
  intro ran
  have hwritten : run.written fernet (.resolve request requestedAt limit) =
      ran.trace.filterMap IdentityAction.auditRow? := rfl
  rw [hwritten]
  rcases resolveSubjectForEvent_cases fernet limit request requestedAt run.stores with
    ⟨event, hpasses, hran⟩ | ⟨-, e, hran⟩
  · rcases disclose_cases fernet (request.accessTo event) requestedAt run.stores with
      ⟨-, outcome, decrypted, hdisclose, hdecrypted, -⟩ | ⟨-, e, hdisclose, -⟩
    · refine .inl ⟨event, run.stores.auditRow (request.accessTo event) requestedAt, hpasses,
        ⟨rfl, rfl, rfl, rfl, rfl, rfl⟩, ?_, ?_⟩
      · simp only [ran, hran, hdisclose]
        rcases hdecrypted with rfl | rfl <;> rfl
      · simp only [ran, hran, hdisclose]
        exact AccessLog.latestFirst_insert _ _ _
    · refine .inr ?_
      simp only [ran, hran, hdisclose]
      exact ⟨rfl, trivial, nofun⟩
  · refine .inr ?_
    simp only [ran, hran]
    exact ⟨rfl, trivial, nofun⟩

theorem latestFirst_step (op : BridgeOp) (run : BridgeRun τ) :
    (run.step fernet op).stores.identities.accessLog.latestFirst =
      run.written fernet op ++ run.stores.identities.accessLog.latestFirst := by
  cases op with
  | append event env => rfl
  | resolve request requestedAt limit =>
    rcases @written_resolve τ fernet run request requestedAt limit with
      ⟨event, row, -, -, hwritten, hlatest⟩ | ⟨hwritten, hstate, -⟩
    · rw [hwritten]
      exact hlatest
    · rw [hwritten]
      unfold step
      dsimp only
      rw [hstate]
      rfl
  | mint tenantId subject uuid nonce now =>
    have hlog :=
      run.stores.identities.mintPseudonym_accessLog fernet tenantId subject uuid nonce now
    unfold step
    dsimp only
    split
    · rename_i pseudonym identities hmint
      rw [hmint] at hlog
      rw [hlog]
      rfl
    · rename_i e identities hmint
      rw [hmint] at hlog
      rw [hlog]
      rfl

theorem latestFirst_run (ops : List BridgeOp) (run : BridgeRun τ) :
    (Transition.run (step fernet) ops run).stores.identities.accessLog.latestFirst =
      trail fernet ops run ++ run.stores.identities.accessLog.latestFirst := by
  induction ops generalizing run with
  | nil => rfl
  | cons op ops ih =>
    rw [Transition.run_cons, ih, latestFirst_step, trail, List.append_assoc]

theorem exists_step_of_mem_trail {ops : List BridgeOp} {row : AccessRow}
    (h : row ∈ trail fernet ops run) : ∃ before op after, ops = before ++ op :: after ∧
      row ∈ (Transition.run (step fernet) before run).written fernet op := by
  induction ops generalizing run with
  | nil => cases h
  | cons op ops ih =>
    rcases List.mem_append.mp h with hlater | hnow
    · obtain ⟨before, op', after, hsplit, hrow⟩ := ih hlater
      exact ⟨op :: before, op', after, by rw [hsplit, List.cons_append], hrow⟩
    · exact ⟨[], op, ops, rfl, hnow⟩

/-- After any run the log can be read, with any limit that SQLite can bind: it lists the rows of
the run, the latest first, before those from before the run. Every disclosure of the run has its row
there, and every row of the run is that of a request which passed when it was made. -/
theorem access_log_tells (fernet : Fernet τ) (ops : List BridgeOp) (run : BridgeRun τ) :
    (∀ limit, Sql.FitsInteger limit →
      (Transition.run (step fernet) ops run).stores.identities.readAccessLog limit =
        .ok (Sql.limited limit
          (trail fernet ops run ++ run.stores.identities.accessLog.latestFirst))) ∧
    (∀ before request requestedAt depth after,
      ops = before ++ .resolve request requestedAt depth :: after →
      ∀ subject, (resolveSubjectForEvent fernet depth request requestedAt
          (Transition.run (step fernet) before run).stores).outcome = .ok subject →
        ∃ event, request.Passes depth (Transition.run (step fernet) before run).stores event ∧
          ∃ row ∈ trail fernet ops run, Names request requestedAt event row) ∧
    ∀ row ∈ trail fernet ops run, ∃ before request requestedAt depth after event,
      ops = before ++ .resolve request requestedAt depth :: after ∧
      request.Passes depth (Transition.run (step fernet) before run).stores event ∧
      Names request requestedAt event row := by
  refine ⟨?_, ?_, ?_⟩
  · intro limit hfits
    rw [IdentityStore.readAccessLog, if_neg (not_not.mpr hfits), latestFirst_run]
  · rintro before request requestedAt depth after rfl subject hsubject
    rcases written_resolve request requestedAt depth with
      ⟨event, row, hpasses, hnames, hwritten, -⟩ | ⟨-, -, hnone⟩
    · refine ⟨event, hpasses, row, ?_, hnames⟩
      rw [trail_append, trail, hwritten]
      exact List.mem_append_left _ (List.mem_append_right _ (List.mem_singleton_self row))
    · exact absurd hsubject (hnone subject)
  · intro row hrow
    obtain ⟨before, op, after, hsplit, hwritten⟩ := exists_step_of_mem_trail hrow
    cases op with
    | append event env => cases hwritten
    | mint tenantId subject uuid nonce now => cases hwritten
    | resolve request requestedAt depth =>
      rcases written_resolve request requestedAt depth with
        ⟨event, row', hpasses, hnames, hone, -⟩ | ⟨hnone, -, -⟩
      · rw [hone] at hwritten
        obtain rfl := List.mem_singleton.mp hwritten
        exact ⟨before, request, requestedAt, depth, after, event, hsplit, hpasses, hnames⟩
      · rw [hnone] at hwritten
        cases hwritten

end BridgeRun

end Ebabf
