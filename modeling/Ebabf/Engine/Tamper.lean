import Ebabf.Engine.KillSwitch

/-!
# Reports of tampering

Every `read_state` checks the directory and the sentinel anew, and hands the tamper handler one
report of the first check that fails. A handler that raises an `Exception` is logged; anything else
it raises leaves `read_state`.
-/

namespace Ebabf

open Py (Str Exc)
open Posix (Stat OsError BEYOND_OWNER)

/-- What a handler does with a report. -/
inductive HandlerAnswer
  | returns
  | raises (e : Exc)
  /-- an exception outside `Exception`, as `KeyboardInterrupt` -/
  | escapes (e : Exc)

/-- One call of `read_state`: what its system calls return, and how the handler answers. -/
structure ReadCall where
  view : SentinelView
  handler : TamperReport → HandlerAnswer

namespace KillSwitch

/-- `_report` on the reports in their order: `except Exception` lets the others through. -/
def deliver (handler : TamperReport → HandlerAnswer) : List TamperReport → Except Exc Unit
  | [] => .ok ()
  | report :: reports =>
    match handler report with
    | .escapes e => .error e
    | .returns | .raises _ => deliver handler reports

/-- `read_state` with its handler: its outcome and the reports the handler was called with. -/
def readStateHandled (k : KillSwitch) (limit : ℕ) (call : ReadCall) :
    Except Exc KillSwitchState × List TamperReport :=
  let result := k.readState limit call.view
  (deliver call.handler result.2 >>= fun _ => result.1, result.2)

/-- A sequence of calls on one object, which keeps nothing between them. -/
def readStates (k : KillSwitch) (limit : ℕ) (calls : List ReadCall) :
    List (Except Exc KillSwitchState × List TamperReport) :=
  calls.map (k.readStateHandled limit)

/-- The sentinel is absent from a directory that passes its checks. -/
def AbsentFromTrusted (k : KillSwitch) (view : SentinelView) : Prop :=
  (∃ info, view.directory = .ok info ∧ k.DirectoryTrusted info) ∧
    ∃ message, view.sentinel = .error (.fileNotFound message)

/-- Whether `lstat` finds a symlink. -/
def isSymlink (info : Stat) : Bool := info.kind matches .symlink _

theorem isSymlink_eq_false {info : Stat} :
    isSymlink info = false ↔ ∀ toDirectory, info.kind ≠ .symlink toDirectory := by
  unfold isSymlink
  cases info.kind <;> simp

/-- Whether a check of the sentinel passes; what could not be read passes the checks after. -/
def sentinelPasses (check : Stat → Bool) : Except OsError Stat → Bool
  | .error _ => true
  | .ok info => check info

/-- The checks in the order in which they are made, with the kind of report each one makes. -/
def checks (k : KillSwitch) (view : SentinelView) : List (TamperKind × Bool) :=
  [(.directoryInsecure, (k.directoryProblem view.directory).isNone),
    (.unreadable, match view.sentinel with
      | .error (.other _) => false
      | .error (.fileNotFound _) | .ok _ => true),
    (.symlink, sentinelPasses (fun info => !isSymlink info) view.sentinel),
    (.wrongOwner, sentinelPasses (fun info => info.uid = k.trustedUid) view.sentinel),
    (.worldWritable, sentinelPasses (fun info => info.mode &&& BEYOND_OWNER = 0) view.sentinel)]

/-- The kind of the first check that fails. -/
def firstFailed (k : KillSwitch) (view : SentinelView) : Option TamperKind :=
  ((k.checks view).find? fun check => !check.2).map Prod.fst

theorem kinds_readState (k : KillSwitch) (limit : ℕ) (view : SentinelView) :
    (k.readState limit view).2.map TamperReport.kind = (k.firstFailed view).toList := by
  unfold readState firstFailed checks
  cases hdirectory : k.directoryProblem view.directory with
  | some problem => simp [report]
  | none =>
    cases hsentinel : view.sentinel with
    | error e => cases e <;> simp [sentinelPasses, report]
    | ok info =>
      obtain ⟨kind, uid, mode⟩ := info
      cases kind with
      | symlink toDirectory => simp [sentinelPasses, isSymlink, report]
      | regular | directory | special =>
        by_cases huid : uid = k.trustedUid
        · by_cases hmode : mode &&& BEYOND_OWNER = 0
          · simp [sentinelPasses, isSymlink, huid, hmode]
          · simp [sentinelPasses, isSymlink, huid, hmode, report]
        · simp [sentinelPasses, isSymlink, huid, report]

theorem firstFailed_eq_none {k : KillSwitch} {view : SentinelView} :
    k.firstFailed view = none ↔ k.Trusted view ∨ k.AbsentFromTrusted view := by
  have hpasses : k.firstFailed view = none ↔ ∀ check ∈ k.checks view, check.2 = true := by
    simp [firstFailed]
  rw [hpasses, Trusted, AbsentFromTrusted, ← and_or_left, ← directoryProblem_eq_none]
  simp only [checks, List.forall_mem_cons, List.not_mem_nil, false_implies, implies_true,
    and_true, Option.isNone_iff_eq_none]
  refine and_congr_right fun _ => ?_
  cases view.sentinel with
  | error e => cases e <;> simp [sentinelPasses]
  | ok info =>
    simp [sentinelPasses, SentinelTrusted, Stat.PrivateTo, isSymlink_eq_false]

theorem reports_of_firstFailed_eq_none {k : KillSwitch} {view : SentinelView}
    (h : k.firstFailed view = none) (limit : ℕ) : (k.readState limit view).2 = [] := by
  have hkinds := k.kinds_readState limit view
  rw [h] at hkinds
  exact List.map_eq_nil_iff.mp hkinds

theorem reports_of_firstFailed {k : KillSwitch} {view : SentinelView} {kind : TamperKind}
    (h : k.firstFailed view = some kind) (limit : ℕ) :
    ∃ report, (k.readState limit view).2 = [report] ∧ report.kind = kind := by
  have hkinds := k.kinds_readState limit view
  rw [h] at hkinds
  obtain ⟨report, hreports, hkind⟩ := List.map_eq_singleton_iff.mp hkinds
  exact ⟨report, hreports, hkind⟩

/-- What `read_state` promises of a call: a trusted sentinel, and nothing else, halts; of every
rejection there is one report, of the first check that failed. -/
structure Judged (k : KillSwitch) (view : SentinelView) (state : KillSwitchState)
    (reports : List TamperReport) : Prop where
  engaged_iff : state.engaged = true ↔ k.Trusted view
  rejected : state.engaged = false → ¬k.AbsentFromTrusted view →
    ∃ report, reports = [report] ∧ k.firstFailed view = some report.kind
  silent : state.engaged = true ∨ k.AbsentFromTrusted view → reports = []

theorem readState_engaged {k : KillSwitch} {limit : ℕ} {view : SentinelView}
    {state : KillSwitchState} (h : (k.readState limit view).1 = .ok state) :
    state.engaged = true ↔ k.Trusted view := by
  by_cases htrusted : k.Trusted view
  · rw [readState_of_trusted htrusted] at h
    exact iff_of_true (engaged_of_readMetadata h) htrusted
  · rw [readState_of_not_trusted htrusted] at h
    cases h
    exact iff_of_false Bool.false_ne_true htrusted

theorem judged_readState {k : KillSwitch} {limit : ℕ} {view : SentinelView}
    {state : KillSwitchState} (h : (k.readState limit view).1 = .ok state) :
    k.Judged view state (k.readState limit view).2 := by
  have hengaged := readState_engaged h
  refine ⟨hengaged, fun hnot habsent => ?_, fun hpassed => ?_⟩
  · have htrusted : ¬k.Trusted view := by
      rw [← hengaged, hnot]
      exact Bool.false_ne_true
    cases hfailed : k.firstFailed view with
    | none => exact absurd (firstFailed_eq_none.mp hfailed) (not_or.mpr ⟨htrusted, habsent⟩)
    | some kind =>
      obtain ⟨report, hreports, rfl⟩ := reports_of_firstFailed hfailed limit
      exact ⟨report, hreports, rfl⟩
  · rw [hengaged] at hpassed
    exact reports_of_firstFailed_eq_none (firstFailed_eq_none.mpr hpassed) limit

theorem ok_of_readStateHandled {k : KillSwitch} {limit : ℕ} {call : ReadCall}
    {state : KillSwitchState} (h : (k.readStateHandled limit call).1 = .ok state) :
    (k.readState limit call.view).1 = .ok state := by
  dsimp only [readStateHandled] at h
  cases hdeliver : deliver call.handler (k.readState limit call.view).2 with
  | error e =>
    rw [hdeliver] at h
    cases h
  | ok _ =>
    rw [hdeliver] at h
    exact h

/-- A handler that raises an `Exception` suppresses nothing. -/
theorem readStateHandled_of_caught {k : KillSwitch} {limit : ℕ} {call : ReadCall}
    (h : ∀ report e, call.handler report ≠ .escapes e) :
    k.readStateHandled limit call = k.readState limit call.view := by
  have hdeliver : ∀ reports, deliver call.handler reports = .ok () := by
    intro reports
    induction reports with
    | nil => rfl
    | cons report reports ih =>
      cases hanswer : call.handler report with
      | escapes e => exact absurd hanswer (h report e)
      | returns | raises e => rw [deliver, hanswer]; exact ih
  dsimp only [readStateHandled]
  rw [hdeliver]
  rfl

end KillSwitch
end Ebabf
