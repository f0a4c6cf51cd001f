import Ebabf.Engine.KillSwitch
import Ebabf.Py.JsonRoundTrip

/-!
# Engaging the kill-switch

`engage` writes a temporary file and renames it over the sentinel. Any of its system calls may
fail, and then it raises. What a reader makes of the file system it leaves depends on who engaged
and on the directory, neither of which `engage` looks at.
-/

namespace Ebabf

open Py (Str str strip Exc valueError Datetime Json encodeUtf8 carriageReturn)
open Posix (FileKind Stat OsError BEYOND_OWNER)

structure File where
  info : Stat
  content : ByteArray

/-- The directory of the sentinel and the sentinel in it. -/
structure SentinelFs where
  directory : Option Stat
  sentinel : Option File

inductive EngageStep
  | mkdir | mkstemp | write | chmod | replace
deriving DecidableEq

/-- Who calls `engage`, the permission bits the umask lets through, the clock, and which system
call fails with what. -/
structure EngageEnv where
  euid : ℕ
  allowed : ℕ
  now : Datetime
  fault : EngageStep → Option Exc

/-- What the system calls of a reader that may look at the files return while nothing else
touches them. -/
def SentinelFs.view (fs : SentinelFs) (now : Datetime) : SentinelView :=
  let absent : OsError := .fileNotFound (str "[Errno 2] No such file or directory")
  { directory := fs.directory.elim (.error absent) .ok
    sentinel := fs.sentinel.elim (.error absent) fun file => .ok file.info
    contents := fs.sentinel.elim (.error absent) fun file => .ok file.content
    now }

namespace KillSwitch

def payload (reason actor : Str) (now : Datetime) : Json :=
  .obj [(str "reason", .str reason), (str "actor", .str actor),
    (str "engaged_at", .str now.isoformat)]

/-- `json.dumps(..., ensure_ascii=False, indent=2)` -/
def payloadText (reason actor : Str) (now : Datetime) : Str :=
  Json.dumps (some 2) (payload reason actor now)

/-- `_ensure_directory`: an existing directory is left as it is, also behind a symlink. -/
def ensureDirectory (env : EngageEnv) (fs : SentinelFs) : Except Exc SentinelFs :=
  match env.fault .mkdir with
  | some e => .error e
  | none =>
    match fs.directory with
    | none => .ok { fs with directory := some ⟨.directory, env.euid, 0o700 &&& env.allowed⟩ }
    | some info =>
      if info.kind = .directory ∨ info.kind = .symlink true then .ok fs
      else .error ⟨.other (str "FileExistsError"), str "[Errno 17] File exists"⟩

/-- `tempfile.mkstemp` -/
def makeTemp (env : EngageEnv) : Except Exc File :=
  match env.fault .mkstemp with
  | some e => .error e
  | none => .ok ⟨⟨.regular, env.euid, 0o600 &&& env.allowed⟩, ByteArray.empty⟩

def writeTemp (env : EngageEnv) (text : Str) (temp : File) : Except Exc File :=
  match encodeUtf8 text with
  | none => .error ⟨.unicodeEncodeError, str "'utf-8' codec can't encode: surrogates not allowed"⟩
  | some bytes =>
    match env.fault .write with
    | some e => .error e
    | none => .ok { temp with content := bytes }

def chmodTemp (env : EngageEnv) (temp : File) : Except Exc File :=
  match env.fault .chmod with
  | some e => .error e
  | none => .ok { temp with info := { temp.info with mode := 0o600 } }

/-- `os.replace` onto the sentinel's path. -/
def replaceSentinel (env : EngageEnv) (temp : File) (fs : SentinelFs) : Except Exc SentinelFs :=
  match env.fault .replace with
  | some e => .error e
  | none =>
    if ∃ file ∈ fs.sentinel, file.info.kind = .directory then
      .error ⟨.other (str "IsADirectoryError"), str "[Errno 21] Is a directory"⟩
    else .ok { fs with sentinel := some temp }

/-- The file `engage` renames over the sentinel; if it raises, the temporary file is unlinked. -/
def publish (env : EngageEnv) (text : Str) (fs : SentinelFs) : Except Exc SentinelFs := do
  let temp ← makeTemp env
  let temp ← writeTemp env text temp
  let temp ← chmodTemp env temp
  replaceSentinel env temp fs

/-- `engage`: its outcome and the file system afterwards. -/
def engage (reason actor : Str) (env : EngageEnv) (fs : SentinelFs) :
    Except Exc Unit × SentinelFs :=
  if strip reason = [] then
    (.error (valueError (str "a kill-switch needs a written reason")), fs)
  else if strip actor = [] then
    (.error (valueError (str "a kill-switch needs a named actor")), fs)
  else
    match ensureDirectory env fs with
    | .error e => (.error e, fs)
    | .ok fs =>
      match publish env (payloadText reason actor env.now) fs with
      | .error e => (.error e, fs)
      | .ok fs => (.ok (), fs)

/-- The directory after `_ensure_directory`. -/
def ensuredDirectory (env : EngageEnv) (directory : Option Stat) : Stat :=
  directory.getD ⟨.directory, env.euid, 0o700 &&& env.allowed⟩

theorem directory_of_ensureDirectory {env : EngageEnv} {fs fs' : SentinelFs}
    (h : ensureDirectory env fs = .ok fs') :
    fs'.directory = some (ensuredDirectory env fs.directory) := by
  unfold ensureDirectory at h
  split at h
  · cases h
  · split at h
    · rename_i hnone
      cases h
      rw [hnone]
      rfl
    · rename_i info hsome
      split_ifs at h
      cases h
      rw [hsome]
      rfl

theorem eq_of_makeTemp {env : EngageEnv} {temp : File} (h : makeTemp env = .ok temp) :
    temp = ⟨⟨.regular, env.euid, 0o600 &&& env.allowed⟩, ByteArray.empty⟩ := by
  unfold makeTemp at h
  split at h
  · cases h
  · cases h
    rfl

theorem eq_of_writeTemp {env : EngageEnv} {text : Str} {temp temp' : File}
    (h : writeTemp env text temp = .ok temp') :
    ∃ bytes, encodeUtf8 text = some bytes ∧ temp' = { temp with content := bytes } := by
  unfold writeTemp at h
  split at h
  · cases h
  · rename_i bytes hbytes
    split at h
    · cases h
    · cases h
      exact ⟨bytes, hbytes, rfl⟩

theorem eq_of_chmodTemp {env : EngageEnv} {temp temp' : File}
    (h : chmodTemp env temp = .ok temp') :
    temp' = { temp with info := { temp.info with mode := 0o600 } } := by
  unfold chmodTemp at h
  split at h
  · cases h
  · cases h
    rfl

theorem eq_of_replaceSentinel {env : EngageEnv} {temp : File} {fs fs' : SentinelFs}
    (h : replaceSentinel env temp fs = .ok fs') : fs' = { fs with sentinel := some temp } := by
  unfold replaceSentinel at h
  split at h
  · cases h
  · split_ifs at h
    cases h
    rfl

theorem sentinel_of_publish {env : EngageEnv} {text : Str} {fs fs' : SentinelFs}
    (h : publish env text fs = .ok fs') : ∃ bytes, encodeUtf8 text = some bytes ∧
      fs' = { fs with sentinel := some ⟨⟨.regular, env.euid, 0o600⟩, bytes⟩ } := by
  unfold publish at h
  obtain ⟨made, hmade, h⟩ := Py.bind_eq_ok.mp h
  obtain ⟨written, hwritten, h⟩ := Py.bind_eq_ok.mp h
  obtain ⟨whole, hwhole, h⟩ := Py.bind_eq_ok.mp h
  obtain ⟨bytes, hbytes, hcontent⟩ := eq_of_writeTemp hwritten
  refine ⟨bytes, hbytes, ?_⟩
  rw [eq_of_replaceSentinel h, eq_of_chmodTemp hwhole, hcontent, eq_of_makeTemp hmade]

/-- An `engage` that returns has left the payload in a file of the caller's. -/
theorem engage_ok {reason actor : Str} {env : EngageEnv} {fs fs' : SentinelFs}
    (h : engage reason actor env fs = (.ok (), fs')) :
    ∃ bytes, encodeUtf8 (payloadText reason actor env.now) = some bytes ∧
      fs' = ⟨some (ensuredDirectory env fs.directory),
        some ⟨⟨.regular, env.euid, 0o600⟩, bytes⟩⟩ := by
  unfold engage at h
  split_ifs at h
  · cases h
  · cases h
  · split at h
    · cases h
    · rename_i fs₁ hensure
      split at h
      · cases h
      · rename_i fs₂ hpublish
        obtain ⟨bytes, hbytes, rfl⟩ := sentinel_of_publish hpublish
        cases h
        exact ⟨bytes, hbytes, by rw [directory_of_ensureDirectory hensure]⟩

theorem carriageReturn_notMem_payloadText (reason actor : Str) (now : Datetime) :
    carriageReturn ∉ payloadText reason actor now := by
  have hquote := fun s => Json.control_notMem_quote (c := carriageReturn) (by decide) s
  have hbreak : ∀ level, carriageReturn ∉ Json.lineBreak (some 2) level := by
    intro level h
    rcases List.mem_cons.mp h with h | h
    · exact absurd h (by decide)
    · exact absurd (List.eq_of_mem_replicate h) (by decide)
  have hcolon : carriageReturn ∉ str ": " := by decide
  have hchars : carriageReturn ≠ Json.ch '\x7b' ∧ carriageReturn ≠ Json.ch '\x7d' ∧
      carriageReturn ≠ Json.ch ',' := by decide
  simp only [payloadText, Json.dumps, payload, Json.dumpsAt, Json.dumpsMembers,
    Json.itemSeparator, List.mem_append, List.mem_cons, List.cons_append, List.append_assoc,
    List.not_mem_nil, hquote, hbreak, hcolon, hchars, or_self, not_false_eq_true]

theorem readable_payload (limit : ℕ) (reason actor : Str) (now : Datetime) :
    Json.Readable (limit + 1) (payload reason actor now) := by
  rw [payload, Json.Readable]
  refine ⟨by show [str "reason", str "actor", str "engaged_at"].Nodup; decide, ?_⟩
  simp only [Json.ReadableMembers, Json.Readable, and_self]

def engagedState (reason actor : Str) (now : Datetime) : KillSwitchState :=
  { engaged := true
    reason := .str reason
    actor := .str actor
    engagedAt := .str now.isoformat }

/-- The reader gets back the triple the writer encoded. -/
theorem readMetadata_payload (limit : ℕ) {reason actor : Str} {now : Datetime} {bytes : ByteArray}
    (h : encodeUtf8 (payloadText reason actor now) = some bytes) :
    readMetadata (limit + 1) (.ok bytes) = .ok (engagedState reason actor now) := by
  have htext := Py.readText_encodeUtf8 h (carriageReturn_notMem_payloadText reason actor now)
  have hloads : Json.loads (limit + 1) (payloadText reason actor now) =
      .ok (payload reason actor now) :=
    Json.loads_dumps (readable_payload limit reason actor now) (some 2)
  simp only [readMetadata, htext, hloads]
  rfl

theorem trusted_of_engaged {k : KillSwitch} {limit : ℕ} {view : SentinelView}
    {state : KillSwitchState} (h : (k.readState limit view).1 = .ok state)
    (hengaged : state.engaged = true) : k.Trusted view := by
  by_contra hnot
  rw [readState_of_not_trusted hnot] at h
  cases h
  cases hengaged

/-- An existing directory is real, of the trusted owner and private to it. -/
def DirectorySecure (k : KillSwitch) (directory : Option Stat) : Prop :=
  ∀ info ∈ directory, k.DirectoryTrusted info

theorem trusted_view_iff (k : KillSwitch) (env : EngageEnv) (directory : Option Stat)
    (bytes : ByteArray) (now : Datetime) :
    k.Trusted (SentinelFs.view ⟨some (ensuredDirectory env directory),
        some ⟨⟨.regular, env.euid, 0o600⟩, bytes⟩⟩ now) ↔
      env.euid = k.trustedUid ∧ k.DirectorySecure directory := by
  have hmode : 0o600 &&& BEYOND_OWNER = 0 := by decide
  constructor
  · rintro ⟨⟨info, hinfo, htrusted⟩, file, hfile, -, huid, -⟩
    cases hfile
    refine ⟨huid, fun info' hinfo' => ?_⟩
    cases hinfo
    rw [Option.mem_def] at hinfo'
    rwa [hinfo'] at htrusted
  · rintro ⟨huid, hsecure⟩
    refine ⟨⟨_, rfl, ?_⟩, ⟨_, rfl, fun _ => FileKind.noConfusion, huid, hmode⟩⟩
    cases directory with
    | none => exact ⟨rfl, huid, Posix.land_beyondOwner (by decide) env.allowed⟩
    | some info => exact hsecure info rfl

/-- After an `engage` that returns, a reader finds the switch engaged with that reason and actor
exactly when the caller is the trusted owner and the directory, if it was there, is secure. -/
theorem engage_engages_iff (k : KillSwitch) {reason actor : Str} {env : EngageEnv}
    {fs fs' : SentinelFs} (h : engage reason actor env fs = (.ok (), fs')) (limit : ℕ)
    (now : Datetime) :
    (∃ state, (k.readState (limit + 1) (fs'.view now)).1 = .ok state ∧ state.engaged = true ∧
        state.reason = .str reason ∧ state.actor = .str actor) ↔
      env.euid = k.trustedUid ∧ k.DirectorySecure fs.directory := by
  obtain ⟨bytes, hbytes, rfl⟩ := engage_ok h
  rw [← trusted_view_iff k env fs.directory bytes now]
  constructor
  · rintro ⟨state, hstate, hengaged, -⟩
    exact trusted_of_engaged hstate hengaged
  · intro htrusted
    refine ⟨engagedState reason actor env.now, ?_, rfl, rfl, rfl⟩
    rw [readState_of_trusted htrusted]
    exact readMetadata_payload limit hbytes

/-- Nothing fails, the umask is 022. -/
def calmEnv (euid : ℕ) : EngageEnv :=
  { euid, allowed := 0o755, now := Datetime.epoch, fault := fun _ => none }

/-- A real directory of `uid`'s with no sentinel in it. -/
def ownedBy (uid : ℕ) : SentinelFs :=
  { directory := some ⟨.directory, uid, 0o700⟩
    sentinel := none }

theorem engage_calm {reason actor : Str} (hreason : strip reason ≠ [])
    (hactor : strip actor ≠ []) {euid : ℕ} {bytes : ByteArray}
    (hbytes : encodeUtf8 (payloadText reason actor Datetime.epoch) = some bytes) (uid : ℕ) :
    ∃ fs', engage reason actor (calmEnv euid) (ownedBy uid) = (.ok (), fs') := by
  refine ⟨⟨(ownedBy uid).directory, some ⟨⟨.regular, euid, 0o600⟩, bytes⟩⟩, ?_⟩
  have hnone : ¬∃ file ∈ (ownedBy uid).sentinel, file.info.kind = .directory := fun
    | ⟨_, hfile, _⟩ => nomatch hfile
  have hensure : ensureDirectory (calmEnv euid) (ownedBy uid) = .ok (ownedBy uid) := rfl
  have hpublish : publish (calmEnv euid) (payloadText reason actor (calmEnv euid).now)
      (ownedBy uid) = replaceSentinel (calmEnv euid) ⟨⟨.regular, euid, 0o600⟩, bytes⟩
        (ownedBy uid) := by
    simp only [publish, makeTemp, writeTemp, chmodTemp, calmEnv, hbytes, bind, Except.bind]
  rw [replaceSentinel, if_neg hnone] at hpublish
  rw [engage, if_neg hreason, if_neg hactor]
  simp only [hensure, hpublish]
  rfl

theorem payloadText_plain :
    (payloadText (str "noisy") (str "root") Datetime.epoch).any (fun c => c.toChar?.isNone) =
      false := by decide

theorem engage_plain (euid uid : ℕ) :
    ∃ fs', engage (str "noisy") (str "root") (calmEnv euid) (ownedBy uid) = (.ok (), fs') := by
  have hsome := (Py.encodeUtf8_isNone _).trans payloadText_plain
  obtain ⟨bytes, hbytes⟩ := Option.isSome_iff_exists.mp
    (Option.isNone_eq_false_iff.mp hsome)
  exact engage_calm (by decide) (by decide) hbytes uid

def serviceSwitch : KillSwitch := { path := str "/etc/ebabf/KILL_SWITCH", trustedUid := 1000 }

/-- The service account that owns the directory engages its own switch. -/
theorem engage_engages_service : ∃ fs',
    engage (str "noisy") (str "root") (calmEnv 1000) (ownedBy 1000) = (.ok (), fs') ∧
      ∃ state, (serviceSwitch.readState 1 (fs'.view Datetime.epoch)).1 = .ok state ∧
        state.engaged = true ∧ state.reason = .str (str "noisy") ∧
        state.actor = .str (str "root") := by
  obtain ⟨fs', h⟩ := engage_plain 1000 1000
  refine ⟨fs', h, (engage_engages_iff serviceSwitch h 0 Datetime.epoch).mpr ⟨rfl, ?_⟩⟩
  intro info hinfo
  cases hinfo
  decide

/-- Root's `engage` returns, and a switch whose trusted owner is a service account stays
disengaged. -/
theorem engage_by_root_not_engaged :
    ¬∀ (k : KillSwitch) (reason actor : Str) (env : EngageEnv) (fs fs' : SentinelFs) (limit : ℕ)
        (now : Datetime), engage reason actor env fs = (.ok (), fs') →
      ∃ state, (k.readState (limit + 1) (fs'.view now)).1 = .ok state ∧ state.engaged = true ∧
        state.reason = .str reason ∧ state.actor = .str actor := by
  intro h
  obtain ⟨fs', hfs'⟩ := engage_plain 0 1000
  obtain ⟨state, hstate, hengaged, -⟩ :=
    h serviceSwitch _ _ _ _ fs' 0 Datetime.epoch hfs'
  obtain ⟨-, info, hinfo, -, huid, -⟩ := trusted_of_engaged hstate hengaged
  obtain ⟨bytes, -, rfl⟩ := engage_ok hfs'
  cases hinfo
  cases huid

end KillSwitch
end Ebabf
