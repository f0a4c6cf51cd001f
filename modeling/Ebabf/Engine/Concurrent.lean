import Ebabf.Engine.Engage
import Ebabf.Posix.Publish

/-!
# Engaging, releasing and reading at once

Any number of `engage` and `release` calls take their steps in any order. A reader looks the
sentinel up at one moment and reads it at a later one; whatever it makes of it, the file it read
was written by a single `engage`, to its end.
-/

namespace Ebabf

open Py (Str str strip Datetime encodeUtf8)
open Posix (Stat OsError)
open Posix.Publish (Writer Phase Step Action Directory Steps Sound)
open Transition (Path)

/-- A call of `engage`, with the permission bits its umask lets through and its clock. -/
structure EngageCall where
  reason : Str
  actor : Str
  allowed : ℕ
  now : Datetime

namespace KillSwitch

def blankTemp (k : KillSwitch) (call : EngageCall) : File :=
  ⟨⟨.regular, k.trustedUid, 0o600 &&& call.allowed⟩, ByteArray.empty⟩

/-- The bytes of the payload; one with a lone surrogate has none. -/
def callBytes (call : EngageCall) : Option ByteArray :=
  encodeUtf8 (payloadText call.reason call.actor call.now)

/-- `engage` as a writer of the sentinel: a blank reason or actor raises before anything is made,
and a payload that cannot be encoded is never written. -/
def engageWriter (k : KillSwitch) (call : EngageCall) : Writer File :=
  { made := if strip call.reason = [] ∨ strip call.actor = [] then none else k.blankTemp call
    draft := fun n =>
      { k.blankTemp call with content := ((callBytes call).getD ByteArray.empty).extract 0 n }
    whole := (callBytes call).map fun bytes => { k.blankTemp call with content := bytes }
    chmod := fun file => { file with info := { file.info with mode := 0o600 } } }

def callState (call : EngageCall) : KillSwitchState :=
  engagedState call.reason call.actor call.now

/-- The files as they are in one state of a run. -/
def sentinelFs {ι : Type} (directory : Stat) (d : Directory ι File) : SentinelFs :=
  { directory := some directory
    sentinel := d.target }

/-- What the system calls of a reader may return that looks the sentinel up in one state of the
run and reads it in another: what they find there, or an error. -/
structure Sees {ι : Type} (directory : Stat) (looked read : Directory ι File)
    (view : SentinelView) : Prop where
  lstatDirectory : view.directory = ((sentinelFs directory looked).view view.now).directory ∨
    ∃ e, view.directory = .error e
  lstatSentinel : view.sentinel = ((sentinelFs directory looked).view view.now).sentinel ∨
    ∃ message, view.sentinel = .error (.other message)
  readContents : view.contents = ((sentinelFs directory read).view view.now).contents ∨
    ∃ e, view.contents = .error e

variable {ι : Type} {k : KillSwitch} {calls : ι → EngageCall}

/-- A file that was renamed over the sentinel holds the whole payload of its `engage`. -/
theorem readMetadata_published {call : EngageCall} {whole : File}
    (h : (k.engageWriter call).whole = some whole) (limit : ℕ) :
    readMetadata (limit + 1) (.ok ((k.engageWriter call).chmod whole).content) =
      .ok (callState call) := by
  obtain ⟨bytes, hbytes, rfl⟩ := Option.map_eq_some_iff.mp h
  exact readMetadata_payload limit hbytes

/-- The outcomes of a reader: not engaged, engaged with nothing known, or engaged with what an
`engage` wrote that has renamed its file. -/
def WholeOutcome (calls : ι → EngageCall) (d : Directory ι File)
    (outcome : Except Py.Exc KillSwitchState) : Prop :=
  outcome = .ok notEngaged ∨ outcome = .ok unreadableMetadata ∨
    ∃ i, d.phase i = .renamed ∧ outcome = .ok (callState (calls i))

theorem wholeOutcome_of_sees {directory : Stat} {looked read : Directory ι File}
    (hread : Sound (fun i => k.engageWriter (calls i)) read) {view : SentinelView}
    (hsees : Sees directory looked read view) (limit : ℕ) :
    WholeOutcome calls read (k.readState (limit + 1) view).1 := by
  by_cases htrusted : k.Trusted view
  · rw [readState_of_trusted htrusted]
    rcases hsees.readContents with hcontents | ⟨e, hcontents⟩
    · cases htarget : read.target with
      | none =>
        rw [hcontents]
        simp only [sentinelFs, SentinelFs.view, htarget, Option.elim_none]
        exact .inr (.inl rfl)
      | some file =>
        obtain ⟨i, whole, hrenamed, hwhole, rfl⟩ := hread.published file htarget
        rw [hcontents]
        simp only [sentinelFs, SentinelFs.view, htarget, Option.elim_some]
        exact .inr (.inr ⟨i, hrenamed, readMetadata_published hwhole limit⟩)
    · rw [hcontents]
      exact .inr (.inl rfl)
  · exact .inl (readState_of_not_trusted htrusted (limit + 1))

variable [DecidableEq ι]

/-- The steps of the calls, in any order; `release` is the removal of the sentinel. -/
def Interleaved (k : KillSwitch) (calls : ι → EngageCall) :
    Action ι → Directory ι File → Directory ι File → Prop :=
  Steps fun i => k.engageWriter (calls i)

/-- An `engage` that nobody disturbs takes its steps and leaves what it leaves on its own. -/
theorem path_of_engage {directory : Stat} {d : Directory ι File} {i : ι} {env : EngageEnv}
    {fs' : SentinelFs} (heuid : env.euid = k.trustedUid) (hnow : env.now = (calls i).now)
    (hidle : d.phase i = .idle)
    (h : engage (calls i).reason (calls i).actor env (sentinelFs directory d) = (.ok (), fs')) :
    ∃ d', Path (k.Interleaved calls) d (Posix.Publish.undisturbed.map (.act i)) d' ∧
      sentinelFs directory d' = fs' := by
  have hgiven : ¬(strip (calls i).reason = [] ∨ strip (calls i).actor = []) := by
    unfold engage at h
    split_ifs at h with hreason hactor
    · cases h
    · cases h
    · exact not_or.mpr ⟨hreason, hactor⟩
  obtain ⟨bytes, hbytes, rfl⟩ := engage_ok h
  rw [hnow] at hbytes
  have hmade : (k.engageWriter (calls i)).made = some (k.blankTemp (calls i)) := if_neg hgiven
  have hwhole : (k.engageWriter (calls i)).whole =
      some { k.blankTemp (calls i) with content := bytes } := by
    rw [engageWriter, callBytes, hbytes]
    rfl
  refine ⟨_, Posix.Publish.path_undisturbed hmade hwhole hidle, ?_⟩
  rw [heuid]
  rfl

/-- A call whose phase is one of these will not rename its file any more. -/
def GivenUp (phase : Phase) : Prop := phase.Raised ∨ phase = .killed

theorem ne_renamed_of_givenUp {phase : Phase} (h : GivenUp phase) : phase ≠ .renamed := by
  rcases h with (rfl | rfl) | rfl <;> exact Phase.noConfusion

/-- No step of a call that has given up touched the sentinel. -/
theorem target_eq_of_givenUp {actions : List (Action ι)} {d d' : Directory ι File}
    (h : Path (k.Interleaved calls) d actions d') {i : ι} (hi : GivenUp (d'.phase i)) {s : Step}
    (hs : .act i s ∈ actions) {e e' : Directory ι File}
    (hstep : k.Interleaved calls (.act i s) e e') : e'.target = e.target := by
  have hrename := Posix.Publish.rename_notMem h (ne_renamed_of_givenUp hi)
  refine Steps.target_eq hstep (fun h => nomatch h) fun j hj => ?_
  cases hj
  exact hrename hs

/-- However the steps of the calls fall, a reader finds the switch not engaged, engaged with
nothing known, or engaged with what one call wrote that has renamed its file; a call that gives up
before has not touched the sentinel, and leaves no temporary file if it could unlink it. -/
theorem reads_whole (k : KillSwitch) (calls : ι → EngageCall) {before between : List (Action ι)}
    {looked read : Directory ι File} (hlooked : Path (k.Interleaved calls) .empty before looked)
    (hread : Path (k.Interleaved calls) looked between read) :
    (∀ directory view limit, Sees directory looked read view →
      WholeOutcome calls read (k.readState (limit + 1) view).1) ∧
    (∀ i, GivenUp (read.phase i) → ∀ s, .act i s ∈ before ++ between →
      ∀ d d', k.Interleaved calls (.act i s) d d' → d'.target = d.target) ∧
    ∀ i, read.phase i = .failed → read.temp i = none := by
  have hrun := hlooked.append hread
  have hsound := Posix.Publish.sound_of_path hrun (Posix.Publish.sound_empty _)
  refine ⟨fun directory view limit hsees => wholeOutcome_of_sees hsound hsees limit,
    fun i hi s hs d d' hstep => target_eq_of_givenUp hrun hi hs hstep, fun i hi => ?_⟩
  have hholds := hsound.holds i
  rw [hi] at hholds
  exact hholds

def plainCall : EngageCall :=
  { reason := str "noisy"
    actor := str "root"
    allowed := 0o755
    now := Datetime.epoch }

/-- Three calls, the second with a reason and an actor of its own. -/
def threeCalls (i : Fin 3) : EngageCall :=
  if i = 1 then { plainCall with reason := str "drill", actor := str "alice" } else plainCall

/-- The first call has renamed its file when the reader looks, and the third has failed. -/
def beforeLook : List (Action (Fin 3)) :=
  [.act 0 .create, .act 1 .create, .act 2 .create, .act 0 (.write 1), .act 0 .finish, .act 2 .fail,
    .act 0 .chmod, .act 1 .finish, .act 0 .rename]

/-- Before it reads, the sentinel is removed and the second call renames its own. -/
def beforeRead : List (Action (Fin 3)) :=
  [.remove, .act 2 .unlink, .act 1 .chmod, .act 1 .rename]

theorem paths_threeCalls : ∃ looked read : Directory (Fin 3) File,
    Path (rootSwitch.Interleaved threeCalls) .empty beforeLook looked ∧
      Path (rootSwitch.Interleaved threeCalls) looked beforeRead read ∧
      looked.target.isSome = true ∧ read.target.isSome = true ∧ read.phase 2 = .failed := by
  let act (d : Directory (Fin 3) File) (a : Action (Fin 3)) :=
    Posix.Publish.step (fun i => rootSwitch.engageWriter (threeCalls i)) a d
  have hlooked : ((beforeLook.foldlM act .empty).map fun d => d.target.isSome) = some true := rfl
  obtain ⟨looked, hbefore, hsome⟩ := Option.map_eq_some_iff.mp hlooked
  have hread : (((beforeLook.foldlM act .empty).bind (beforeRead.foldlM act)).map fun d =>
      (d.target.isSome, d.phase 2)) = some (true, .failed) := rfl
  rw [hbefore] at hread
  obtain ⟨read, hbetween, hends⟩ := Option.map_eq_some_iff.mp hread
  obtain ⟨hsome', hfailed⟩ := Prod.mk.inj hends
  exact ⟨looked, read, Transition.path_of_foldlM hbefore, Transition.path_of_foldlM hbetween,
    hsome, hsome', hfailed⟩

/-- What the reader finds is whole, though the sentinel changes between its two looks. -/
theorem reads_whole_interleaved : ∃ looked read : Directory (Fin 3) File,
    Path (rootSwitch.Interleaved threeCalls) .empty beforeLook looked ∧
      Path (rootSwitch.Interleaved threeCalls) looked beforeRead read ∧
      (∀ directory view limit, Sees directory looked read view →
        WholeOutcome threeCalls read (rootSwitch.readState (limit + 1) view).1) ∧
      read.phase 2 = .failed ∧ read.temp 2 = none := by
  obtain ⟨looked, read, hlooked, hread, -, -, hfailed⟩ := paths_threeCalls
  obtain ⟨houtcome, -, htemp⟩ := reads_whole rootSwitch threeCalls hlooked hread
  exact ⟨looked, read, hlooked, hread, houtcome, hfailed, htemp 2 hfailed⟩

/-- Where the unlinking fails as well, an `engage` that raises leaves its temporary file. -/
theorem not_unlinked : ¬∀ (k : KillSwitch) (calls : Unit → EngageCall)
    (actions : List (Action Unit)) (d : Directory Unit File),
    Path (k.Interleaved calls) .empty actions d →
      ∀ i, (d.phase i).Raised → d.temp i = none := by
  intro h
  have hrun : Path (rootSwitch.Interleaved fun _ : Unit => plainCall) .empty
      [.act () .create, .act () .fail, .act () .failUnlink] _ :=
    .cons rfl (.cons rfl (.single rfl))
  exact Option.some_ne_none _ (h _ _ _ _ hrun () (.inr rfl))

end KillSwitch
end Ebabf
