import Ebabf.Engine.Concurrent
import Ebabf.Runner.Handle

/-!
# Operators and the agent

Operators engage and release the switch while the agent handles events. Whatever the order of their
steps, the sentinel is a register that the last rename or removal has set, and the agent acts on an
event only if it found that register empty.
-/

namespace Ebabf

open Py (Str str Datetime Proc)
open Posix (Stat OsError)
open Posix.Publish (Directory Sound Publishes register)
open Transition (Path)

namespace KillSwitch

variable {ι : Type} {k : KillSwitch} {calls : ι → EngageCall}

/-- A lookup of the reader fails, other than by finding no sentinel. -/
def LookupFails (view : SentinelView) : Prop :=
  (∃ e, view.directory = .error e) ∨ ∃ message, view.sentinel = .error (.other message)

/-- What a reader makes of the register it looked up and the one it read, when `contents` is what
reading gave it. -/
def answer (calls : ι → EngageCall) (looked read : Option ι)
    (contents : Except OsError ByteArray) : KillSwitchState :=
  match looked, contents, read with
  | none, _, _ => notEngaged
  | some _, .ok _, some i => callState (calls i)
  | some _, _, _ => unreadableMetadata

theorem not_trusted_of_lookupFails {view : SentinelView} (h : LookupFails view) :
    ¬k.Trusted view := by
  rintro ⟨⟨info, hinfo, -⟩, file, hfile, -⟩
  rcases h with ⟨e, he⟩ | ⟨message, hmessage⟩
  · rw [hinfo] at he
    cases he
  · rw [hfile] at hmessage
    cases hmessage

variable {directory : Stat} {looked read : Directory ι File} {view : SentinelView}

theorem Sees.found (h : Sees directory looked read view) (hfound : ¬LookupFails view) :
    view.directory = .ok directory ∧
      view.sentinel = ((sentinelFs directory looked).view view.now).sentinel := by
  constructor
  · rcases h.lstatDirectory with hdirectory | herror
    · exact hdirectory
    · exact absurd (.inl herror) hfound
  · rcases h.lstatSentinel with hsentinel | herror
    · exact hsentinel
    · exact absurd (.inr herror) hfound

theorem trusted_of_publishes (hdirectory : k.DirectoryTrusted directory)
    (hsees : Sees directory looked read view) (hfound : ¬LookupFails view) {i : ι}
    (hlooked : Publishes (fun i => k.engageWriter (calls i)) (some i) looked.target) :
    k.Trusted view := by
  obtain ⟨hview, hsentinel⟩ := hsees.found hfound
  obtain ⟨whole, hwhole, htarget⟩ := hlooked
  obtain ⟨bytes, -, rfl⟩ := Option.map_eq_some_iff.mp hwhole
  refine ⟨⟨directory, hview, hdirectory⟩, ⟨.regular, k.trustedUid, 0o600⟩, ?_, ?_⟩
  · rw [hsentinel]
    simp only [SentinelFs.view, sentinelFs, htarget, Option.elim_some]
    rfl
  · have hmode : 0o600 &&& Posix.BEYOND_OWNER = 0 := by decide
    exact ⟨fun _ => Posix.FileKind.noConfusion, rfl, hmode⟩

theorem readState_of_absent (hdirectory : k.DirectoryTrusted directory)
    (hsees : Sees directory looked read view) (hfound : ¬LookupFails view)
    (hlooked : looked.target = none) (limit : ℕ) :
    k.readState limit view = (.ok notEngaged, []) := by
  obtain ⟨hview, hsentinel⟩ := hsees.found hfound
  have hproblem : k.directoryProblem view.directory = none :=
    directoryProblem_eq_none.mpr ⟨directory, hview, hdirectory⟩
  unfold readState
  rw [hproblem, hsentinel]
  simp only [SentinelFs.view, sentinelFs, hlooked, Option.elim_none]

theorem readMetadata_of_publishes {last : Option ι}
    (hread : Publishes (fun i => k.engageWriter (calls i)) last read.target)
    (hsees : Sees directory looked read view) (i : ι) (limit : ℕ) :
    readMetadata (limit + 1) view.contents =
      .ok (answer calls (some i) last view.contents) := by
  rcases hsees.readContents with hcontents | ⟨e, hcontents⟩
  · cases last with
    | none =>
      have htarget : read.target = none := hread
      rw [hcontents]
      simp only [SentinelFs.view, sentinelFs, htarget, Option.elim_none]
      rfl
    | some j =>
      obtain ⟨whole, hwhole, htarget⟩ := hread
      rw [hcontents]
      simp only [SentinelFs.view, sentinelFs, htarget, Option.elim_some]
      exact readMetadata_published hwhole limit
  · rw [hcontents]
    rfl

theorem readState_of_publishes {lookedAt readAt : Option ι}
    (hdirectory : k.DirectoryTrusted directory)
    (hlooked : Publishes (fun i => k.engageWriter (calls i)) lookedAt looked.target)
    (hread : Publishes (fun i => k.engageWriter (calls i)) readAt read.target)
    (hsees : Sees directory looked read view) (hfound : ¬LookupFails view) (limit : ℕ) :
    k.readState (limit + 1) view =
      (.ok (answer calls lookedAt readAt view.contents), []) := by
  cases lookedAt with
  | none => exact readState_of_absent hdirectory hsees hfound hlooked _
  | some i =>
    rw [readState_of_trusted (trusted_of_publishes hdirectory hsees hfound hlooked),
      readMetadata_of_publishes hread hsees i]

section Runs

variable [DecidableEq ι]

/-- However the steps of `engage` and `release` calls of the trusted uid fall, in a directory that
is and stays trusted, a reader whose lookups succeed finds the switch engaged exactly when the last
rename or removal before its lookup was a rename, takes the reason, the actor and the time from the
last one before it read, and reports nothing. -/
theorem readState_eq_answer {before between : List (Posix.Publish.Action ι)}
    (hdirectory : k.DirectoryTrusted directory)
    (hlooked : Path (k.Interleaved calls) .empty before looked)
    (hread : Path (k.Interleaved calls) looked between read)
    (hsees : Sees directory looked read view) (hfound : ¬LookupFails view) (limit : ℕ) :
    k.readState (limit + 1) view =
      (.ok (answer calls (Transition.run register before none)
        (Transition.run register (before ++ between) none) view.contents), []) := by
  have hempty := Posix.Publish.sound_empty fun i => k.engageWriter (calls i)
  refine readState_of_publishes hdirectory ?_ ?_ hsees hfound limit
  · exact Posix.Publish.publishes_of_path hlooked hempty rfl
  · exact Posix.Publish.publishes_of_path (hlooked.append hread) hempty rfl

end Runs

/-- The reader finds the sentinel of the first call and reads that of the second. -/
theorem readState_eq_answer_interleaved : ∃ view,
    rootSwitch.readState 1 view = (.ok (callState (threeCalls 1)), []) := by
  obtain ⟨looked, read, hlooked, hread, hsome, hsome', -⟩ := paths_threeCalls
  obtain ⟨found, htarget⟩ := Option.isSome_iff_exists.mp hsome
  obtain ⟨file, htarget'⟩ := Option.isSome_iff_exists.mp hsome'
  let view : SentinelView :=
    { (sentinelFs ⟨.directory, 0, 0o700⟩ looked).view Datetime.epoch with
      contents := ((sentinelFs ⟨.directory, 0, 0o700⟩ read).view Datetime.epoch).contents }
  have hfound : ¬LookupFails view := by
    simp [LookupFails, view, SentinelFs.view, sentinelFs, htarget]
  have hdirectory : rootSwitch.DirectoryTrusted ⟨.directory, 0, 0o700⟩ := ⟨rfl, rfl, by decide⟩
  have hstate : rootSwitch.readState 1 view = _ :=
    readState_eq_answer hdirectory hlooked hread ⟨.inl rfl, .inl rfl, .inl rfl⟩ hfound 0
  refine ⟨view, hstate.trans ?_⟩
  simp only [view, SentinelFs.view, sentinelFs, htarget', Option.elim_some]
  rfl

end KillSwitch

namespace AgentRunner

variable {σ : Type} {runner : AgentRunner} {o : Observation}

/-- The decision on an event asks for an action, and the configuration allows it. -/
def Asks (runner : AgentRunner) (o : Observation) : Prop :=
  ∃ outcome, o.around.decideHook o.event = .ok outcome ∧ runner.enforcement.Permits outcome

/-- `_enforce` is among the calls. -/
def Invokes (trace : List Action) : Prop :=
  ∃ outcome answer, .enforceInvoked outcome answer ∈ trace

theorem asks_iff {outcome : DecisionOutcome}
    (h : runner.decision.decide o.around.decideHook o.event = .ok outcome) :
    runner.Asks o ↔ runner.enforcement.Permits outcome := by
  constructor
  · rintro ⟨outcome', hhook, hpermits⟩
    rw [runner.decision.decide_of_ok hhook] at h
    cases h
    exact hpermits
  · intro hpermits
    obtain ⟨hhook, -⟩ := (runner.decision.decide_actionRequired_iff o.around.decideHook o.event
      outcome).mp ⟨h, hpermits.1⟩
    exact ⟨outcome, hhook, hpermits⟩

theorem trace_process {outcome : DecisionOutcome}
    (h : runner.decision.decide o.around.decideHook o.event = .ok outcome) :
    (runner.process o ()).trace = (runner.enforcement.enforce o.around outcome ()).trace := by
  rw [process_eq h]
  rcases Proc.bind_cases (runner.enforcement.enforce o.around outcome) (fun result => do
      let final ← Proc.lift (result.applyTo outcome.event)
      return (result, final)) () with ⟨e, -, hbind⟩ | ⟨result, -, hbind⟩
  · rw [hbind]
  · have hquiet : ((do
        let final ← Proc.lift (result.applyTo outcome.event)
        return (result, final) : Proc Action Unit (EnforcementResult × Event)) ()).trace = [] := by
      cases result.applyTo outcome.event <;> rfl
    rw [hbind, hquiet, List.append_nil]

/-- `_enforce` is called exactly where an action is asked for and the switch is read as off. -/
theorem invokes_process_iff : Invokes (runner.process o ()).trace ↔ runner.Asks o ∧
    runner.enforcement.killSwitch.isEngaged o.around.recursionLimit o.around.view = .ok false := by
  obtain ⟨outcome, hdecide⟩ := runner.decision.decide_ok o.around.decideHook o.event
  rw [trace_process hdecide, asks_iff hdecide, Invokes]
  by_cases hpermits : runner.enforcement.Permits outcome
  · cases hengaged :
        runner.enforcement.killSwitch.isEngaged o.around.recursionLimit o.around.view with
    | error e =>
      rw [EnforcementEngine.enforce_of_switch_error hpermits hengaged]
      simp
    | ok engaged =>
      cases engaged with
      | true =>
        rw [EnforcementEngine.enforce_of_engaged hpermits hengaged]
        simp
      | false =>
        rw [EnforcementEngine.enforce_of_released hpermits hengaged]
        simp [hpermits]
  · obtain ⟨reason, detail, henforce⟩ :=
      EnforcementEngine.enforce_of_not_permits o.around hpermits
    rw [henforce]
    simp [hpermits]

theorem invokes_handle_iff (store : Store σ) (s : σ) :
    Invokes (runner.handle store o s).trace ↔ Invokes (runner.process o ()).trace := by
  cases hprocess : (runner.process o ()).outcome with
  | error e =>
    unfold handle
    rw [Proc.bind_of_error (s := s) hprocess]
    rfl
  | ok answer =>
    obtain ⟨result, final⟩ := answer
    rw [handle_of_ok store hprocess]
    simp [Invokes]

/-- An event that asks for an action while the switch is read as engaged is recorded as blocked. -/
theorem handle_of_engaged (hasks : runner.Asks o)
    (hengaged : runner.enforcement.killSwitch.isEngaged o.around.recursionLimit o.around.view =
      .ok true) (store : Store σ) (s : σ) :
    ∃ final : Event, final.fields.enforced = false ∧
      final.fields.enforcementBlockedReason = some .killSwitchActive ∧
      runner.handle store o s = ⟨.ok ((store.append final s).1.isOk, false),
        [.switchRead (.ok true), .append final (store.append final s).1],
        (store.append final s).2⟩ := by
  obtain ⟨outcome, hhook, hpermits⟩ := hasks
  have hdecide := runner.decision.decide_of_ok hhook
  have henforce := EnforcementEngine.enforce_of_engaged hpermits hengaged
  have hfits : (EnforcementResult.blocked .killSwitchActive
      (str "kill-switch engaged")).Fits outcome.event := nofun
  have hprocess : runner.process o () = ⟨.ok
    (.blocked .killSwitchActive (str "kill-switch engaged"),
      ⟨_, EnforcementResult.admissible_applied hfits⟩), [.switchRead (.ok true)], ()⟩ := by
    rw [process_eq hdecide, Proc.bind_of_ok (congrArg Py.Ran.outcome henforce), henforce,
      EnforcementResult.applyTo_of_fits hfits]
    rfl
  refine ⟨⟨_, EnforcementResult.admissible_applied hfits⟩, rfl, rfl, ?_⟩
  rw [handle_of_ok store (congrArg Py.Ran.outcome hprocess), hprocess]
  rfl

end AgentRunner

/-- A step on a host: of an operator's `engage` or `release`, or of the agent, which looks the
switch up and later reads it and handles an event. -/
inductive HostAction (ι : Type)
  | sentinel (action : Posix.Publish.Action ι)
  | look
  | handle (o : Observation)

/-- The files of the switch, those of the agent's last lookup, and the store. -/
structure Host (ι σ : Type) where
  files : Directory ι File
  looked : Directory ι File
  store : σ

namespace Host

variable {ι σ : Type}

def start (store : σ) : Host ι σ := ⟨.empty, .empty, store⟩

section

variable [DecidableEq ι]

/-- The steps of operators and agent; `directory` is that of the sentinel. -/
def Moves (runner : AgentRunner) (store : Store σ) (calls : ι → EngageCall) (directory : Stat) :
    HostAction ι → Host ι σ → Host ι σ → Prop
  | .sentinel action, h, h' =>
    runner.enforcement.killSwitch.Interleaved calls action h.files h'.files ∧
      h'.looked = h.looked ∧ h'.store = h.store
  | .look, h, h' => h' = { h with looked := h.files }
  | .handle o, h, h' => KillSwitch.Sees directory h.looked h.files o.around.view ∧
      h' = { h with store := (runner.handle store o h.store).state }

end

/-- The switch as a register, and what the agent's last lookup found in it. -/
structure Register (ι : Type) where
  current : Option ι
  looked : Option ι

namespace Register

def step : HostAction ι → Register ι → Register ι
  | .sentinel action, r => { r with current := register action r.current }
  | .look, r => { r with looked := r.current }
  | .handle _, r => r

/-- The register once the actions are done. -/
def after (actions : List (HostAction ι)) : Register ι := Transition.run step actions ⟨none, none⟩

end Register

/-- The files are those of the register. -/
structure Tracks (k : KillSwitch) (calls : ι → EngageCall) (h : Host ι σ) (r : Register ι) :
    Prop where
  sound : Sound (fun i => k.engageWriter (calls i)) h.files
  current : Publishes (fun i => k.engageWriter (calls i)) r.current h.files.target
  looked : Publishes (fun i => k.engageWriter (calls i)) r.looked h.looked.target

variable {runner : AgentRunner} {store : Store σ} {calls : ι → EngageCall} {directory : Stat}

/-- What the agent reads is whether the register it looked up was set. -/
theorem isEngaged_of_sees {h : Host ι σ} {r : Register ι} {view : SentinelView} {limit : ℕ}
    (hdirectory : runner.enforcement.killSwitch.DirectoryTrusted directory)
    (hr : Tracks runner.enforcement.killSwitch calls h r)
    (hsees : KillSwitch.Sees directory h.looked h.files view)
    (hfound : ¬KillSwitch.LookupFails view) (hlimit : 0 < limit) :
    runner.enforcement.killSwitch.isEngaged limit view = .ok r.looked.isSome := by
  obtain ⟨limit, rfl⟩ := Nat.exists_eq_add_of_lt hlimit
  rw [Nat.zero_add, KillSwitch.isEngaged,
    KillSwitch.readState_of_publishes hdirectory hr.looked hr.current hsees hfound]
  cases r.looked with
  | none => rfl
  | some i =>
    have hmetadata := KillSwitch.readMetadata_of_publishes hr.current hsees i limit
    exact congrArg Except.ok (KillSwitch.engaged_of_readMetadata hmetadata)

variable [DecidableEq ι]

theorem Moves.tracks {action : HostAction ι} {h h' : Host ι σ} {r : Register ι}
    (hmove : Moves runner store calls directory action h h')
    (hr : Tracks runner.enforcement.killSwitch calls h r) :
    Tracks runner.enforcement.killSwitch calls h' (Register.step action r) := by
  cases action with
  | sentinel action =>
    obtain ⟨hstep, hlooked, -⟩ := hmove
    refine ⟨hstep.sound hr.sound, hstep.publishes hr.sound hr.current, ?_⟩
    rw [hlooked]
    exact hr.looked
  | look =>
    cases hmove
    exact ⟨hr.sound, hr.current, hr.current⟩
  | handle o =>
    obtain ⟨-, rfl⟩ := hmove
    exact ⟨hr.sound, hr.current, hr.looked⟩

theorem tracks_of_path {actions : List (HostAction ι)} {h : Host ι σ} {s : σ}
    (hrun : Path (Moves runner store calls directory) (start s) actions h) :
    Tracks runner.enforcement.killSwitch calls h (Register.after actions) :=
  hrun.refines (fun _ _ _ _ => Moves.tracks)
    ⟨Posix.Publish.sound_empty _, rfl, rfl⟩

/-- In every run of agent and operators, who act as the trusted uid in a directory that stays
trusted, the agent acts on an event exactly when the event asks for an action and the switch, as the
agent looked it up, was last released or never engaged, or could not be looked up; an event that
asks while the switch is engaged is recorded as blocked by it. -/
theorem invokes_iff {before : List (HostAction ι)} {h h' : Host ι σ} {s : σ} {o : Observation}
    (hdirectory : runner.enforcement.killSwitch.DirectoryTrusted directory)
    (hbefore : Path (Moves runner store calls directory) (start s) before h)
    (hmove : Moves runner store calls directory (.handle o) h h')
    (hlimit : 0 < o.around.recursionLimit) :
    (AgentRunner.Invokes (runner.handle store o h.store).trace ↔ runner.Asks o ∧
      ((Register.after before).looked = none ∨ KillSwitch.LookupFails o.around.view)) ∧
    (runner.Asks o → (Register.after before).looked ≠ none →
      ¬KillSwitch.LookupFails o.around.view → ∃ final : Event,
        final.fields.enforced = false ∧
        final.fields.enforcementBlockedReason = some .killSwitchActive ∧
        runner.handle store o h.store = ⟨.ok ((store.append final h.store).1.isOk, false),
          [.switchRead (.ok true), .append final (store.append final h.store).1],
          (store.append final h.store).2⟩) := by
  have htracks := tracks_of_path hbefore
  rw [AgentRunner.invokes_handle_iff, AgentRunner.invokes_process_iff]
  by_cases hfails : KillSwitch.LookupFails o.around.view
  · have huntrusted : ¬runner.enforcement.killSwitch.Trusted o.around.view :=
      KillSwitch.not_trusted_of_lookupFails hfails
    have hoff := KillSwitch.isEngaged_of_not_trusted huntrusted o.around.recursionLimit
    exact ⟨by simp [hoff, hfails], fun _ _ hfound => absurd hfails hfound⟩
  · have hengaged := isEngaged_of_sees hdirectory htracks hmove.1 hfails hlimit
    constructor
    · rw [hengaged]
      cases (Register.after before).looked with
      | none => simp
      | some i => simp [hfails]
    · intro hasks hset _
      obtain ⟨i, hi⟩ := Option.ne_none_iff_exists'.mp hset
      rw [hi] at hengaged
      exact AgentRunner.handle_of_engaged hasks hengaged store h.store

omit [DecidableEq ι] in
theorem Register.set_of_unreleased {actions : List (HostAction ι)} {r : Register ι}
    (hkept : .sentinel .remove ∉ actions) (hcurrent : r.current ≠ none) :
    (Transition.run Register.step actions r).current ≠ none ∧
      (r.looked ≠ none → (Transition.run Register.step actions r).looked ≠ none) := by
  induction actions generalizing r with
  | nil => exact ⟨hcurrent, id⟩
  | cons action actions ih =>
    rw [List.mem_cons, not_or] at hkept
    rw [Transition.run_cons]
    cases action with
    | handle o => exact ih hkept.2 hcurrent
    | look =>
      have hstep : (Register.step .look r).current ≠ none := hcurrent
      obtain ⟨hset, hlooked⟩ := ih hkept.2 hstep
      exact ⟨hset, fun _ => hlooked hcurrent⟩
    | sentinel action =>
      refine ih (r := Register.step (.sentinel action) r) hkept.2 ?_
      cases action with
      | remove => exact absurd rfl hkept.1
      | act i step =>
        cases step with
        | rename => exact Option.some_ne_none i
        | create | write | finish | chmod | fail | unlink | failUnlink | kill => exact hcurrent

/-- Once an `engage` of the trusted uid has renamed its file, no action is taken on any event that
the agent handles after its next lookup, as long as nobody releases the switch, its lookups succeed
and the directory stays trusted; whatever else the operators do, whatever fails and whoever is
killed. -/
theorem no_action_until_release {pre mid late : List (HostAction ι)} {i : ι} {h h' : Host ι σ}
    {s : σ} {o : Observation}
    (hdirectory : runner.enforcement.killSwitch.DirectoryTrusted directory)
    (hrun : Path (Moves runner store calls directory) (start s)
      (pre ++ .sentinel (.act i .rename) :: (mid ++ .look :: late)) h)
    (hkept : .sentinel .remove ∉ mid ++ late)
    (hmove : Moves runner store calls directory (.handle o) h h')
    (hlimit : 0 < o.around.recursionLimit) (hfound : ¬KillSwitch.LookupFails o.around.view) :
    ¬AgentRunner.Invokes (runner.handle store o h.store).trace := by
  rw [List.mem_append, not_or] at hkept
  have hlooked : (Register.after
      (pre ++ .sentinel (.act i .rename) :: (mid ++ .look :: late))).looked ≠ none := by
    rw [Register.after, Transition.run_append, Transition.run_cons, Transition.run_append,
      Transition.run_cons]
    obtain ⟨hset, -⟩ := Register.set_of_unreleased (r := Register.step (.sentinel (.act i .rename))
      (Transition.run Register.step pre ⟨none, none⟩)) hkept.1 (Option.some_ne_none i)
    exact (Register.set_of_unreleased (r := Register.step .look _) hkept.2 hset).2 hset
  intro hinvokes
  rcases ((invokes_iff hdirectory hrun hmove hlimit).1.mp hinvokes).2 with hoff | hfails
  · exact hlooked hoff
  · exact hfound hfails

theorem path_sentinel {actions : List (Posix.Publish.Action ι)} {d d' : Directory ι File}
    (h : Path (runner.enforcement.killSwitch.Interleaved calls) d actions d')
    (looked : Directory ι File) (s : σ) :
    Path (Moves runner store calls directory) ⟨d, looked, s⟩ (actions.map .sentinel)
      ⟨d', looked, s⟩ := by
  induction h with
  | nil d => exact .nil _
  | @cons action actions d d' d'' head _ ih =>
    have hmove : Moves runner store calls directory (.sentinel action) ⟨d, looked, s⟩
        ⟨d', looked, s⟩ := ⟨head, rfl, rfl⟩
    exact .cons hmove ih

/-- An event to suspend, as the files of the switch are. -/
def suspendedObservation (directory : Stat) (d : Directory Unit File) : Observation :=
  { event := .plain (str "a") Event.strip_a
    around :=
      { decideHook := fun _ => .ok ⟨AgentRunner.suspended (str "a") Event.strip_a⟩
        enforceHook := NoOpEnforcementEngine.enforceHook
        view := (KillSwitch.sentinelFs directory d).view Datetime.epoch
        recursionLimit := 1 } }

def rootDirectory : Stat := ⟨.directory, 0, 0o700⟩

/-- A store that takes everything. -/
def takingStore : Store Unit := ⟨fun event _ => (.ok event, ()), fun _ => (.ok (), ())⟩

/-- One `engage` from its first step to its last, and a lookup of the agent. -/
def engagedThenLooked : List (HostAction Unit) :=
  [.sentinel (.act () .create), .sentinel (.act () .finish), .sentinel (.act () .chmod)] ++
    .sentinel (.act () .rename) :: ([] ++ .look :: [])

theorem run_engagedThenLooked : ∃ d : Directory Unit File,
    Path (Moves AgentRunner.rootRunner takingStore (fun _ => KillSwitch.plainCall) rootDirectory)
      (start ()) engagedThenLooked ⟨d, d, ()⟩ ∧
    Moves AgentRunner.rootRunner takingStore (fun _ => KillSwitch.plainCall) rootDirectory
      (.handle (suspendedObservation rootDirectory d)) ⟨d, d, ()⟩ ⟨d, d, ()⟩ ∧
    ¬KillSwitch.LookupFails (suspendedObservation rootDirectory d).around.view := by
  obtain ⟨fs', hengage⟩ := KillSwitch.engage_plain 0 0
  obtain ⟨bytes, -, hfs'⟩ := KillSwitch.engage_ok hengage
  have hrun : ∃ d : Directory Unit File,
      Path (KillSwitch.rootSwitch.Interleaved fun _ => KillSwitch.plainCall) .empty
        (Posix.Publish.undisturbed.map (.act ())) d ∧
          KillSwitch.sentinelFs rootDirectory d = fs' :=
    KillSwitch.path_of_engage rfl rfl rfl hengage
  obtain ⟨d, hpath, hd⟩ := hrun
  have htarget : d.target = fs'.sentinel := by rw [← hd]; rfl
  have hsentinels : Path
      (Moves AgentRunner.rootRunner takingStore (fun _ => KillSwitch.plainCall) rootDirectory)
      (start ()) ((Posix.Publish.undisturbed.map (.act ())).map .sentinel) ⟨d, .empty, ()⟩ :=
    path_sentinel hpath .empty ()
  refine ⟨d, hsentinels.append (.single rfl), ⟨⟨.inl rfl, .inl rfl, .inl rfl⟩, rfl⟩, ?_⟩
  simp [KillSwitch.LookupFails, suspendedObservation, SentinelFs.view, KillSwitch.sentinelFs,
    htarget, hfs']

theorem rootDirectory_trusted :
    AgentRunner.rootRunner.enforcement.killSwitch.DirectoryTrusted rootDirectory :=
  ⟨rfl, rfl, by decide⟩

theorem asks_suspendedObservation (d : Directory Unit File) :
    AgentRunner.rootRunner.Asks (suspendedObservation rootDirectory d) := ⟨_, rfl, rfl, rfl⟩

theorem invokes_iff_engaged : ∃ o, AgentRunner.rootRunner.Asks o ∧
    ¬AgentRunner.Invokes (AgentRunner.rootRunner.handle takingStore o ()).trace := by
  obtain ⟨d, hrun, hmove, hfound⟩ := run_engagedThenLooked
  refine ⟨_, asks_suspendedObservation d, fun hinvokes => ?_⟩
  have hoff := ((invokes_iff rootDirectory_trusted hrun hmove Nat.one_pos).1.mp hinvokes).2
  rcases hoff with hoff | hfails
  · cases hoff
  · exact hfound hfails

theorem no_action_until_release_engaged : ∃ o, AgentRunner.rootRunner.Asks o ∧
    ¬AgentRunner.Invokes (AgentRunner.rootRunner.handle takingStore o ()).trace := by
  obtain ⟨d, hrun, hmove, hfound⟩ := run_engagedThenLooked
  refine ⟨_, asks_suspendedObservation d, ?_⟩
  exact no_action_until_release rootDirectory_trusted hrun List.not_mem_nil hmove Nat.one_pos hfound

end Host
end Ebabf
