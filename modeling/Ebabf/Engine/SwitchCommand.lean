import Ebabf.Engine.Engage
import Ebabf.Py.Argparse
import Ebabf.Py.Path
import Ebabf.Transition

/-!
# The command-line switch

`ebabf-killswitch` constructs the switch, which makes sure of its directory, and engages, releases
or reads it. What `status` prints is what the last of these commands to succeed has left.
-/

namespace Ebabf

open Py (Str str strip Exc ExcType valueError Datetime pathStr pathParent)
open Py.Argparse (OptionSpec Subcommand helpOption parseArgs)
open Posix (FileKind Stat OsError BEYOND_OWNER)

def insecureSentinelLocation : ExcType := .other (str "InsecureSentinelLocation")

/-- What a command meets: who runs it and how the steps of `engage` fare, and what the other system
calls fail with. -/
structure SwitchEnv where
  steps : EngageEnv
  mkdir : Option Exc := none
  constructed : Option OsError := none
  unlink : Option Exc := none
  lstatDirectory : Option OsError := none
  lstatSentinel : Option OsError := none
  readContents : Option OsError := none

namespace SwitchEnv

/-- What `_ensure_directory` meets in the constructor. -/
def constructing (env : SwitchEnv) : EngageEnv := { env.steps with fault := fun _ => env.mkdir }

/-- What the calls of `read_state` return. -/
def view (env : SwitchEnv) (fs : SentinelFs) : SentinelView :=
  let seen := fs.view env.steps.now
  { directory := env.lstatDirectory.elim seen.directory .error
    sentinel := env.lstatSentinel.elim seen.sentinel .error
    contents := env.readContents.elim seen.contents .error
    now := env.steps.now }

end SwitchEnv

namespace KillSwitch

/-- `KillSwitch(sentinel_path)`: an insecure directory is refused. -/
def construct (k : KillSwitch) (env : SwitchEnv) (fs : SentinelFs) :
    Except Exc Unit × SentinelFs :=
  match ensureDirectory env.constructing fs with
  | .error e => (.error e, fs)
  | .ok fs =>
    let info := env.constructed.elim (fs.view env.steps.now).directory .error
    match k.directoryProblem info with
    | none => (.ok (), fs)
    | some problem =>
      (.error ⟨insecureSentinelLocation, pathParent k.path ++ str ": " ++ problem ++ str
        ". Refusing to start with a kill-switch any local user could trip."⟩, fs)

/-- `release`; a sentinel that is not there is not missed. -/
def release (actor : Str) (env : SwitchEnv) (fs : SentinelFs) : Except Exc Unit × SentinelFs :=
  if strip actor = [] then
    (.error (valueError (str "releasing the kill-switch needs a named actor")), fs)
  else
    match env.unlink with
    | some e => (.error e, fs)
    | none =>
      if ∃ file ∈ fs.sentinel, file.info.kind = .directory then
        (.error ⟨.other (str "IsADirectoryError"), str "[Errno 21] Is a directory"⟩, fs)
      else (.ok (), { fs with sentinel := none })

end KillSwitch

/-- `args` of the parser of `ebabf-killswitch`. -/
structure SwitchNamespace where
  path : Option Str := none
  reason : Option Str := none
  actor : Str := []

inductive SwitchCommand
  | engage (reason actor : Str)
  | release (actor : Str)
  | status

structure SwitchArgs where
  path : Str
  command : SwitchCommand

namespace SwitchCommand

/-- An option with one argument. -/
def oneText (flag : String) (store : Str → SwitchNamespace → SwitchNamespace) :
    OptionSpec SwitchNamespace :=
  { flags := [str flag]
    arity := .one
    store := fun values ns => values.head?.map fun value => store value ns }

def actorOption : OptionSpec SwitchNamespace :=
  oneText "--actor" fun value ns => { ns with actor := value }

/-- The subparsers; `user` is `os.environ.get("USER", "unknown")`. -/
def subparsers (user : Str) : List (Subcommand SwitchNamespace) :=
  [{ name := str "engage"
     specs := [helpOption, oneText "--reason" fun value ns => { ns with reason := some value },
       actorOption]
     defaults := fun ns => { ns with actor := user } },
   { name := str "release"
     specs := [helpOption, actorOption]
     defaults := fun ns => { ns with actor := user } },
   { name := str "status"
     specs := [helpOption]
     defaults := id }]

/-- The command of a namespace; `--reason` is required. -/
def ofNamespace (name : Str) (ns : SwitchNamespace) : Option SwitchCommand :=
  if name = str "engage" then ns.reason.map fun reason => .engage reason ns.actor
  else if name = str "release" then some (.release ns.actor)
  else some .status

/-- `parser.parse_args(argv)`, or nothing where it exits; without `--path` the sentinel is that of
the configuration. -/
def parse (beyondAscii : Py.CodePoint → Bool) (configured user : Str) (argv : List Str) :
    Option SwitchArgs := do
  let options :=
    [helpOption, oneText "--path" fun value ns => { ns with path := some (pathStr value) }]
  let (name, ns) ← parseArgs beyondAscii options (subparsers user) argv {}
  let command ← ofNamespace name ns
  return { path := ns.path.getD configured, command }

end SwitchCommand

/-- What is printed. -/
inductive Printed
  | halted (path : Str)
  | allowed (path : Str)
  | state (state : KillSwitchState)

/-- What `main` does with a switch it has constructed. -/
def SwitchCommand.perform (k : KillSwitch) (limit : ℕ) (env : SwitchEnv) (fs : SentinelFs) :
    SwitchCommand → Except Exc Printed × SentinelFs
  | .engage reason actor =>
    let ran := KillSwitch.engage reason actor env.steps fs
    (ran.1.map fun _ => .halted k.path, ran.2)
  | .release actor =>
    let ran := KillSwitch.release actor env fs
    (ran.1.map fun _ => .allowed k.path, ran.2)
  | .status => ((k.readState limit (env.view fs)).1.map .state, fs)

/-- `main` once the arguments are parsed, on the files of the path they name; the switch trusts
root. -/
def SwitchArgs.run (args : SwitchArgs) (limit : ℕ) (env : SwitchEnv) (fs : SentinelFs) :
    Except Exc Printed × SentinelFs :=
  let k : KillSwitch := ⟨args.path, 0⟩
  match k.construct env fs with
  | (.error e, fs) => (.error e, fs)
  | (.ok (), fs) => args.command.perform k limit env fs

namespace KillSwitch

variable {k : KillSwitch} {fs fs' : SentinelFs}

theorem directoryTrusted_ensured {env : EngageEnv} (heuid : env.euid = k.trustedUid)
    {directory : Option Stat} (hsecure : k.DirectorySecure directory) :
    k.DirectoryTrusted (ensuredDirectory env directory) := by
  cases directory with
  | none => exact ⟨rfl, heuid, Posix.land_beyondOwner (by decide) env.allowed⟩
  | some info => exact hsecure info rfl

theorem secure_of_ensureDirectory {env : EngageEnv} (heuid : env.euid = k.trustedUid)
    (hsecure : k.DirectorySecure fs.directory) (h : ensureDirectory env fs = .ok fs') :
    k.DirectorySecure fs'.directory ∧ fs'.sentinel = fs.sentinel := by
  refine ⟨fun info hinfo => ?_, ?_⟩
  · rw [directory_of_ensureDirectory h] at hinfo
    cases hinfo
    exact directoryTrusted_ensured heuid hsecure
  · unfold ensureDirectory at h
    split at h
    · cases h
    · split at h
      · cases h
        rfl
      · split_ifs at h
        cases h
        rfl

theorem secure_of_construct {env : SwitchEnv} (heuid : env.steps.euid = k.trustedUid)
    (hsecure : k.DirectorySecure fs.directory) :
    k.DirectorySecure (k.construct env fs).2.directory ∧
      (k.construct env fs).2.sentinel = fs.sentinel := by
  unfold construct
  cases hensure : ensureDirectory env.constructing fs with
  | error e => exact ⟨hsecure, rfl⟩
  | ok ensured =>
    have heuid' : env.constructing.euid = k.trustedUid := heuid
    have hleft := secure_of_ensureDirectory heuid' hsecure hensure
    dsimp only
    split
    · exact hleft
    · exact hleft

theorem secure_of_engage_error {reason actor : Str} {env : EngageEnv} {e : Exc}
    (heuid : env.euid = k.trustedUid) (hsecure : k.DirectorySecure fs.directory)
    (h : engage reason actor env fs = (.error e, fs')) :
    k.DirectorySecure fs'.directory ∧ fs'.sentinel = fs.sentinel := by
  unfold engage at h
  split_ifs at h
  · cases h
    exact ⟨hsecure, rfl⟩
  · cases h
    exact ⟨hsecure, rfl⟩
  · split at h
    · cases h
      exact ⟨hsecure, rfl⟩
    · rename_i ensured hensure
      have hleft := secure_of_ensureDirectory heuid hsecure hensure
      split at h
      · cases h
        exact hleft
      · cases h

theorem release_cases (actor : Str) (env : SwitchEnv) (fs : SentinelFs) :
    (∃ e, release actor env fs = (.error e, fs)) ∨
      release actor env fs = (.ok (), { fs with sentinel := none }) := by
  unfold release
  by_cases hactor : strip actor = []
  · rw [if_pos hactor]
    exact .inl ⟨_, rfl⟩
  · rw [if_neg hactor]
    cases env.unlink with
    | some e => exact .inl ⟨e, rfl⟩
    | none =>
      by_cases hdirectory : ∃ file ∈ fs.sentinel, file.info.kind = .directory
      · simp only [if_pos hdirectory]
        exact .inl ⟨_, rfl⟩
      · rw [if_neg hdirectory]
        exact .inr rfl

end KillSwitch

/-- What a command makes of the last state that one has left: an `engage` or a `release` that fails
makes nothing of it. -/
def SwitchCommand.effect (command : SwitchCommand) (env : SwitchEnv)
    (outcome : Except Exc Printed) (last : Option KillSwitchState) : Option KillSwitchState :=
  match command, outcome with
  | .engage reason actor, .ok _ => some (KillSwitch.engagedState reason actor env.steps.now)
  | .release _, .ok _ => none
  | _, _ => last

/-- A command on the sentinel at `path`, with the files and the last state left. -/
def commandStep (path : Str) (limit : ℕ) (call : SwitchCommand × SwitchEnv)
    (s : SentinelFs × Option KillSwitchState) : SentinelFs × Option KillSwitchState :=
  let ran := SwitchArgs.run ⟨path, call.1⟩ limit call.2 s.1
  (ran.2, call.1.effect call.2 ran.1 s.2)

/-- The sentinel is what the last `engage` wrote, unless it is absent. -/
structure SwitchLeft (k : KillSwitch) (s : SentinelFs × Option KillSwitchState) : Prop where
  secure : k.DirectorySecure s.1.directory
  absent : s.2 = none → s.1.sentinel = none
  engaged : ∀ state, s.2 = some state → ∃ reason actor now bytes,
    state = KillSwitch.engagedState reason actor now ∧
    Py.encodeUtf8 (KillSwitch.payloadText reason actor now) = some bytes ∧
    s.1.sentinel = some ⟨⟨.regular, k.trustedUid, 0o600⟩, bytes⟩

theorem SwitchLeft.of_kept {k : KillSwitch} {fs fs' : SentinelFs} {last : Option KillSwitchState}
    (h : SwitchLeft k (fs, last)) (hsecure : k.DirectorySecure fs'.directory)
    (hsentinel : fs'.sentinel = fs.sentinel) : SwitchLeft k (fs', last) := by
  refine ⟨hsecure, fun hnone => hsentinel.trans (h.absent hnone), fun state hstate => ?_⟩
  obtain ⟨reason, actor, now, bytes, hengaged, hbytes, hfile⟩ := h.engaged state hstate
  exact ⟨reason, actor, now, bytes, hengaged, hbytes, hsentinel.trans hfile⟩

section

variable {path : Str} {limit : ℕ} {env : SwitchEnv}

theorem effect_of_error (command : SwitchCommand) (e : Exc) (last : Option KillSwitchState) :
    command.effect env (.error e) last = last := by
  cases command <;> rfl

/-- What root does with a switch leaves the sentinel as what the last `engage` wrote, or absent. -/
theorem SwitchLeft.perform {fs : SentinelFs} {last : Option KillSwitchState}
    (h : SwitchLeft ⟨path, 0⟩ (fs, last)) (heuid : env.steps.euid = 0) (command : SwitchCommand) :
    SwitchLeft ⟨path, 0⟩ ((command.perform ⟨path, 0⟩ limit env fs).2,
      command.effect env (command.perform ⟨path, 0⟩ limit env fs).1 last) := by
  cases command with
  | status => exact h.of_kept h.secure rfl
  | release actor =>
    rcases KillSwitch.release_cases actor env fs with ⟨e, hrelease⟩ | hrelease
    · have hperform : (SwitchCommand.release actor).perform ⟨path, 0⟩ limit env fs =
          (.error e, fs) := by simp only [SwitchCommand.perform, hrelease, Except.map]
      rw [hperform]
      exact h.of_kept h.secure rfl
    · have hperform : (SwitchCommand.release actor).perform ⟨path, 0⟩ limit env fs =
          (.ok (.allowed path), { fs with sentinel := none }) := by
        simp only [SwitchCommand.perform, hrelease, Except.map]
      rw [hperform]
      exact ⟨h.secure, fun _ => rfl, nofun⟩
  | engage reason actor =>
    rcases hran : KillSwitch.engage reason actor env.steps fs with ⟨outcome, fs'⟩
    have hperform : (SwitchCommand.engage reason actor).perform ⟨path, 0⟩ limit env fs =
        (outcome.map fun _ => .halted path, fs') := by simp only [SwitchCommand.perform, hran]
    rw [hperform]
    cases outcome with
    | error e =>
      obtain ⟨hsecure, hsentinel⟩ := KillSwitch.secure_of_engage_error heuid h.secure hran
      exact h.of_kept hsecure hsentinel
    | ok _ =>
      obtain ⟨bytes, hbytes, rfl⟩ := KillSwitch.engage_ok hran
      refine ⟨?_, nofun, fun state hstate => ?_⟩
      · intro info hinfo
        cases hinfo
        exact KillSwitch.directoryTrusted_ensured heuid h.secure
      · cases hstate
        exact ⟨reason, actor, env.steps.now, bytes, rfl, hbytes, by rw [heuid]⟩

theorem SwitchLeft.step {command : SwitchCommand} {s : SentinelFs × Option KillSwitchState}
    (h : SwitchLeft ⟨path, 0⟩ s) (heuid : env.steps.euid = 0) :
    SwitchLeft ⟨path, 0⟩ (commandStep path limit (command, env) s) := by
  obtain ⟨fs, last⟩ := s
  obtain ⟨hsecure, hsentinel⟩ := KillSwitch.secure_of_construct (k := ⟨path, 0⟩) heuid h.secure
  have hconstructed := h.of_kept hsecure hsentinel
  rcases hran : KillSwitch.construct ⟨path, 0⟩ env fs with ⟨outcome, fs'⟩
  rw [hran] at hconstructed
  show SwitchLeft _ ((SwitchArgs.run ⟨path, command⟩ limit env fs).2,
    command.effect env (SwitchArgs.run ⟨path, command⟩ limit env fs).1 last)
  cases outcome with
  | error e =>
    have hrun : SwitchArgs.run ⟨path, command⟩ limit env fs = (.error e, fs') := by
      simp only [SwitchArgs.run, hran]
    rw [hrun, effect_of_error]
    exact hconstructed
  | ok _ =>
    have hrun : SwitchArgs.run ⟨path, command⟩ limit env fs =
        command.perform ⟨path, 0⟩ limit env fs' := by
      simp only [SwitchArgs.run, hran]
    rw [hrun]
    exact hconstructed.perform heuid command

theorem SwitchLeft.run {calls : List (SwitchCommand × SwitchEnv)}
    {s : SentinelFs × Option KillSwitchState} (h : SwitchLeft ⟨path, 0⟩ s)
    (hroot : ∀ call ∈ calls, call.2.steps.euid = 0) :
    SwitchLeft ⟨path, 0⟩ (Transition.run (commandStep path limit) calls s) := by
  induction calls generalizing s with
  | nil => exact h
  | cons call calls ih =>
    rw [List.forall_mem_cons] at hroot
    exact ih (h.step hroot.1) hroot.2

end

/-- Nothing fails. -/
structure SwitchEnv.Calm (env : SwitchEnv) : Prop where
  steps : ∀ step, env.steps.fault step = none
  others : env = { steps := env.steps }

namespace KillSwitch

variable {k : KillSwitch} {env : SwitchEnv} {fs : SentinelFs}

theorem ensureDirectory_of_secure {env : EngageEnv} (hcalm : env.fault .mkdir = none)
    (hsecure : k.DirectorySecure fs.directory) : ensureDirectory env fs =
      .ok { fs with directory := some (ensuredDirectory env fs.directory) } := by
  obtain ⟨directory, sentinel⟩ := fs
  unfold ensureDirectory
  rw [hcalm]
  cases directory with
  | none => rfl
  | some info =>
    have hkind : info.kind = .directory := (hsecure info rfl).1
    simp only [hkind, true_or, ↓reduceIte]
    rfl

theorem construct_of_secure (hcalm : env.Calm) (heuid : env.steps.euid = k.trustedUid)
    (hsecure : k.DirectorySecure fs.directory) : k.construct env fs =
      (.ok (), { fs with directory := some (ensuredDirectory env.steps fs.directory) }) := by
  have hmkdir : env.constructing.fault .mkdir = none := by
    rw [hcalm.others]
    rfl
  have hensure := ensureDirectory_of_secure hmkdir hsecure
  have hconstructed : env.constructed = none := by rw [hcalm.others]
  have hproblem :
      k.directoryProblem (.ok (ensuredDirectory env.constructing fs.directory)) = none :=
    directoryProblem_eq_none.mpr ⟨_, rfl, directoryTrusted_ensured heuid hsecure⟩
  simp only [construct, hensure, hconstructed, Option.elim_none, SentinelFs.view,
    Option.elim_some, hproblem]
  rfl

/-- A switch whose sentinel is the last one's reads it back. -/
theorem readState_of_left (limit : ℕ) {s : SentinelFs × Option KillSwitchState} {info : Stat}
    (h : SwitchLeft k s) (htrusted : k.DirectoryTrusted info) (now : Datetime) :
    (k.readState (limit + 1) (SentinelFs.view ⟨some info, s.1.sentinel⟩ now)).1 =
      .ok (s.2.getD notEngaged) := by
  cases hlast : s.2 with
  | none =>
    rw [h.absent hlast]
    refine readState_of_not_trusted (fun hview => ?_) _
    obtain ⟨-, file, hfile, -⟩ := hview
    cases hfile
  | some state =>
    obtain ⟨reason, actor, engagedAt, bytes, rfl, hbytes, hfile⟩ := h.engaged state hlast
    have hview : k.Trusted (SentinelFs.view ⟨some info, s.1.sentinel⟩ now) := by
      have hmode : 0o600 &&& BEYOND_OWNER = 0 := by decide
      rw [hfile]
      exact ⟨⟨info, rfl, htrusted⟩, ⟨_, rfl, fun _ => FileKind.noConfusion, rfl, hmode⟩⟩
    rw [readState_of_trusted hview, hfile]
    exact readMetadata_payload limit hbytes

end KillSwitch

/-- The directory is secure or not there yet, and nothing is engaged. Whatever commands root then
gives and whichever of their system calls fail, a `status` of root whose own system calls succeed
reports the reason, the actor and the time of the last `engage` to succeed, or that the switch is
not engaged where none has since the last `release` to. -/
theorem status_of_commands {path : Str} (limit : ℕ) {directory : Option Stat}
    (hsecure : (⟨path, 0⟩ : KillSwitch).DirectorySecure directory)
    {calls : List (SwitchCommand × SwitchEnv)} (hroot : ∀ call ∈ calls, call.2.steps.euid = 0)
    {env : SwitchEnv} (hcalm : env.Calm) (heuid : env.steps.euid = 0) :
    let left := Transition.run (commandStep path (limit + 1)) calls (⟨directory, none⟩, none)
    (SwitchArgs.run ⟨path, .status⟩ (limit + 1) env left.1).1 =
      .ok (.state (left.2.getD KillSwitch.notEngaged)) := by
  intro left
  have hinit : SwitchLeft ⟨path, 0⟩ (⟨directory, none⟩, none) := ⟨hsecure, fun _ => rfl, nofun⟩
  have hleft : SwitchLeft ⟨path, 0⟩ left := hinit.run hroot
  have hview : ∀ fs, env.view fs = fs.view env.steps.now := fun fs => by
    rw [hcalm.others]
    rfl
  have hread := KillSwitch.readState_of_left limit hleft
    (KillSwitch.directoryTrusted_ensured heuid hleft.secure) env.steps.now
  rw [SwitchArgs.run, KillSwitch.construct_of_secure hcalm heuid hleft.secure]
  simp only [SwitchCommand.perform, hview, hread, Except.map]

/-- Nothing fails root. -/
def rootEnv : SwitchEnv := { steps := KillSwitch.calmEnv 0 }

/-- An `engage` whose rename fails leaves the one before it in force. -/
theorem status_of_commands_after_failure :
    let failing : SwitchEnv := { steps := { KillSwitch.calmEnv 0 with
      fault := fun step => if step = .replace then some ⟨.other (str "OSError"), []⟩ else none } }
    let calls := [(SwitchCommand.engage (str "noisy") (str "root"), rootEnv),
      (SwitchCommand.engage (str "late") (str "root"), failing)]
    let path := str "/etc/ebabf/KILL_SWITCH"
    let left := Transition.run (commandStep path 1) calls (⟨none, none⟩, none)
    (SwitchArgs.run ⟨path, .status⟩ 1 rootEnv left.1).1 =
      .ok (.state (left.2.getD KillSwitch.notEngaged)) := by
  have hsecure : (⟨str "/etc/ebabf/KILL_SWITCH", 0⟩ : KillSwitch).DirectorySecure none :=
    fun _ h => nomatch h
  refine status_of_commands 0 hsecure (fun call hcall => ?_) ⟨fun _ => rfl, rfl⟩ rfl
  simp only [List.mem_cons, List.not_mem_nil, or_false] at hcall
  rcases hcall with rfl | rfl <;> rfl

end Ebabf
