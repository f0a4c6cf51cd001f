import Ebabf.Posix
import Ebabf.Py.Datetime
import Ebabf.Py.Json
import Ebabf.Py.Utf8

/-!
# The kill-switch

What `read_state` makes of the sentinel, given what each of its system calls returns, and when a
sentinel it trusts halts enforcement.
-/

namespace Ebabf

open Py (Str str Exc Datetime Json readText decimal oct)
open Posix (FileKind Stat OsError BEYOND_OWNER)

inductive TamperKind
  | wrongOwner | worldWritable | symlink | directoryInsecure | unreadable
deriving DecidableEq

def TamperKind.value : TamperKind → Str
  | .wrongOwner => str "sentinel_wrong_owner"
  | .worldWritable => str "sentinel_world_writable"
  | .symlink => str "sentinel_is_symlink"
  | .directoryInsecure => str "sentinel_directory_insecure"
  | .unreadable => str "sentinel_unreadable"

/-- A rejected sentinel. -/
structure TamperReport where
  kind : TamperKind
  path : Str
  detail : Str
  detectedAt : Datetime
  observedUid : Option ℕ
  observedMode : Option ℕ
deriving DecidableEq

/-- What the sentinel says. Its fields are whatever JSON the file holds, `null` for `None`. -/
structure KillSwitchState where
  engaged : Bool
  reason : Json := .null
  actor : Json := .null
  engagedAt : Json := .null

structure KillSwitch where
  path : Str
  trustedUid : ℕ

/-- What the system calls of one `read_state` return: `lstat` of the directory, `lstat` of the
sentinel, reading its bytes, and the clock for a report. -/
structure SentinelView where
  directory : Except OsError Stat
  sentinel : Except OsError Stat
  contents : Except OsError ByteArray
  now : Datetime

namespace KillSwitch

/-- `_directory_problem` -/
def directoryProblem (k : KillSwitch) : Except OsError Stat → Option Str
  | .error e => some (str "cannot stat directory: " ++ e.message)
  | .ok info =>
    if info.kind ≠ .directory then some (str "not a directory")
    else if info.uid ≠ k.trustedUid then
      some (str "owned by uid " ++ decimal info.uid ++ str ", expected " ++ decimal k.trustedUid)
    else if info.mode &&& BEYOND_OWNER ≠ 0 then
      some (str "mode " ++ oct info.mode ++ str " grants access beyond its owner")
    else none

/-- `_report`; a handler that raises changes nothing. -/
def report (k : KillSwitch) (now : Datetime) (kind : TamperKind) (detail : Str)
    (info : Option Stat) : TamperReport :=
  { kind
    path := k.path
    detail
    detectedAt := now
    observedUid := info.map Stat.uid
    observedMode := info.map Stat.mode }

/-- `data.get(...)` on what `json.loads` returned: only a `dict` has it. -/
def metadataOf : Json → Except Exc KillSwitchState
  | .obj members => .ok
      { engaged := true
        reason := Json.get (str "reason") members
        actor := Json.get (str "actor") members
        engagedAt := Json.get (str "engaged_at") members }
  | value => .error ⟨.attributeError,
      str "'" ++ value.typeName ++ str "' object has no attribute 'get'"⟩

def unreadableMetadata : KillSwitchState := { engaged := true }

/-- `_read_metadata`, with `engaged=True`: `OSError` and `ValueError` are caught, nothing else.
`limit` is how many containers the interpreter will nest while decoding. -/
def readMetadata (limit : ℕ) : Except OsError ByteArray → Except Exc KillSwitchState
  | .error _ => .ok unreadableMetadata
  | .ok bytes =>
    match readText bytes with
    | none => .ok unreadableMetadata
    | some text =>
      match Json.loads limit text with
      | .ok value => metadataOf value
      | .error .recursion => .error ⟨.recursionError, str "maximum recursion depth exceeded"⟩
      | .error _ => .ok unreadableMetadata

def notEngaged : KillSwitchState := { engaged := false }

/-- `read_state`: its outcome and the reports it delivers. -/
def readState (k : KillSwitch) (limit : ℕ) (view : SentinelView) :
    Except Exc KillSwitchState × List TamperReport :=
  match k.directoryProblem view.directory with
  | some problem =>
    (.ok notEngaged, [k.report view.now .directoryInsecure problem none])
  | none =>
    match view.sentinel with
    | .error (.fileNotFound _) => (.ok notEngaged, [])
    | .error (.other message) =>
      (.ok notEngaged,
        [k.report view.now .unreadable (str "cannot stat sentinel: " ++ message) none])
    | .ok info =>
      if info.kind matches .symlink _ then
        (.ok notEngaged, [k.report view.now .symlink (str "sentinel is a symlink") (some info)])
      else if info.uid ≠ k.trustedUid then
        (.ok notEngaged, [k.report view.now .wrongOwner
          (str "sentinel owned by uid " ++ decimal info.uid ++ str ", expected " ++
            decimal k.trustedUid) (some info)])
      else if info.mode &&& BEYOND_OWNER ≠ 0 then
        (.ok notEngaged, [k.report view.now .worldWritable
          (str "sentinel mode " ++ oct info.mode ++ str " grants access beyond its owner")
          (some info)])
      else (readMetadata limit view.contents, [])

/-- `is_engaged` -/
def isEngaged (k : KillSwitch) (limit : ℕ) (view : SentinelView) : Except Exc Bool :=
  (k.readState limit view).1.map KillSwitchState.engaged

/-- The directory passes every check made of it. -/
def DirectoryTrusted (k : KillSwitch) (info : Stat) : Prop :=
  info.kind = .directory ∧ info.PrivateTo k.trustedUid

/-- The sentinel itself passes every check made of it. -/
def SentinelTrusted (k : KillSwitch) (info : Stat) : Prop :=
  (∀ toDirectory, info.kind ≠ .symlink toDirectory) ∧ info.PrivateTo k.trustedUid

instance (k : KillSwitch) (info : Stat) : Decidable (k.DirectoryTrusted info) :=
  inferInstanceAs (Decidable (_ ∧ _))

/-- The directory and the sentinel pass every check. -/
def Trusted (k : KillSwitch) (view : SentinelView) : Prop :=
  (∃ info, view.directory = .ok info ∧ k.DirectoryTrusted info) ∧
    ∃ info, view.sentinel = .ok info ∧ k.SentinelTrusted info

theorem directoryProblem_eq_none {k : KillSwitch} {directory : Except OsError Stat} :
    k.directoryProblem directory = none ↔
      ∃ info, directory = .ok info ∧ k.DirectoryTrusted info := by
  cases directory with
  | error e => simp [directoryProblem]
  | ok info =>
    simp only [directoryProblem, DirectoryTrusted, Stat.PrivateTo, Except.ok.injEq,
      exists_eq_left']
    split_ifs with h₁ h₂ h₃
    · simp [h₁]
    · simp [h₂]
    · simp [h₃]
    · simp only [ne_eq, not_not] at h₁ h₂ h₃
      simp [h₁, h₂, h₃]

theorem readState_of_trusted {k : KillSwitch} {view : SentinelView} (h : k.Trusted view)
    (limit : ℕ) : k.readState limit view = (readMetadata limit view.contents, []) := by
  obtain ⟨hdirectory, info, hsentinel, hkind, huid, hmode⟩ := h
  unfold readState
  rw [directoryProblem_eq_none.mpr hdirectory, hsentinel]
  dsimp only
  have hlink : ¬(info.kind matches .symlink _) = true := by
    cases hk : info.kind with
    | symlink toDirectory => exact absurd hk (hkind toDirectory)
    | regular | directory | special => simp
  rw [if_neg hlink, if_neg (not_not.mpr huid), if_neg (not_not.mpr hmode)]

/-- A sentinel that fails a check is read as not engaged. -/
theorem readState_of_not_trusted {k : KillSwitch} {view : SentinelView} (h : ¬k.Trusted view)
    (limit : ℕ) : (k.readState limit view).1 = .ok notEngaged := by
  unfold readState
  split
  · rfl
  · rename_i hdirectory
    split
    · rfl
    · rfl
    · rename_i info hsentinel
      split_ifs with hlink huid hmode
      · rfl
      · rfl
      · rfl
      · refine absurd ⟨directoryProblem_eq_none.mp hdirectory, info, hsentinel, ?_, ?_⟩ h
        · intro toDirectory hkind
          rw [hkind] at hlink
          exact hlink rfl
        · exact ⟨not_not.mp huid, not_not.mp hmode⟩

/-- Contents whose decoding ends in an object or in an error that is caught. -/
def Harmless (limit : ℕ) (contents : Except OsError ByteArray) : Prop :=
  ∀ bytes, contents = .ok bytes → ∀ text, readText bytes = some text →
    Json.loads limit text ≠ .error .recursion ∧
      ∀ value, Json.loads limit text = .ok value → value.isObject = true

theorem metadataOf_ok {value : Json} : (∃ state, metadataOf value = .ok state) ↔
    value.isObject = true := by
  cases value <;> simp [metadataOf, Json.isObject]

theorem engaged_of_readMetadata {limit : ℕ} {contents : Except OsError ByteArray}
    {state : KillSwitchState} (h : readMetadata limit contents = .ok state) :
    state.engaged = true := by
  unfold readMetadata at h
  split at h
  · cases h; rfl
  · split at h
    · cases h; rfl
    · split at h
      · rename_i value _
        cases value <;> cases h
        rfl
      · cases h
      · cases h; rfl

theorem readMetadata_ok_iff (limit : ℕ) (contents : Except OsError ByteArray) :
    (∃ state, readMetadata limit contents = .ok state) ↔ Harmless limit contents := by
  cases contents with
  | error e => exact ⟨fun _ bytes hbytes => (nomatch hbytes), fun _ => ⟨_, rfl⟩⟩
  | ok bytes =>
    cases htext : readText bytes with
    | none =>
      refine ⟨fun _ bytes' hbytes text h => ?_,
        fun _ => ⟨unreadableMetadata, by simp [readMetadata, htext]⟩⟩
      cases hbytes
      rw [htext] at h
      cases h
    | some text =>
      have hharmless : Harmless limit (.ok bytes) ↔ Json.loads limit text ≠ .error .recursion ∧
          ∀ value, Json.loads limit text = .ok value → value.isObject = true := by
        constructor
        · intro h
          exact h bytes rfl text htext
        · intro h bytes' hbytes text' htext'
          cases hbytes
          rw [htext] at htext'
          cases htext'
          exact h
      rw [hharmless]
      cases hloads : Json.loads limit text with
      | ok value => simp [readMetadata, htext, hloads, metadataOf_ok]
      | error e => cases e <;> simp [readMetadata, htext, hloads]

/-- A trusted sentinel halts enforcement exactly when its contents are harmless: anything but JSON
that is no object, or that nests deeper than the interpreter recurses. -/
theorem readState_engaged_iff {k : KillSwitch} {view : SentinelView} (h : k.Trusted view)
    (limit : ℕ) :
    (∃ state, (k.readState limit view).1 = .ok state ∧ state.engaged = true) ↔
      Harmless limit view.contents := by
  rw [readState_of_trusted h, ← readMetadata_ok_iff]
  constructor
  · rintro ⟨state, hstate, -⟩
    exact ⟨state, hstate⟩
  · rintro ⟨state, hstate⟩
    exact ⟨state, hstate, engaged_of_readMetadata hstate⟩

theorem isEngaged_of_not_trusted {k : KillSwitch} {view : SentinelView} (h : ¬k.Trusted view)
    (limit : ℕ) : k.isEngaged limit view = .ok false := by
  rw [isEngaged, readState_of_not_trusted h]
  rfl

theorem isEngaged_of_harmless {k : KillSwitch} {view : SentinelView} {limit : ℕ}
    (h : k.Trusted view) (hharmless : Harmless limit view.contents) :
    k.isEngaged limit view = .ok true := by
  obtain ⟨state, hstate⟩ := (readMetadata_ok_iff limit view.contents).mpr hharmless
  rw [isEngaged, readState_of_trusted h, hstate, ← engaged_of_readMetadata hstate]
  rfl

theorem isEngaged_of_harmful {k : KillSwitch} {view : SentinelView} {limit : ℕ}
    (h : k.Trusted view) (hharmful : ¬Harmless limit view.contents) :
    ∃ e, k.isEngaged limit view = .error e ∧ (e.type = .attributeError ∨ e.type = .recursionError) := by
  rw [isEngaged, readState_of_trusted h]
  cases hread : readMetadata limit view.contents with
  | ok state => exact absurd ((readMetadata_ok_iff limit view.contents).mp ⟨state, hread⟩) hharmful
  | error e =>
    refine ⟨e, rfl, ?_⟩
    unfold readMetadata at hread
    split at hread
    · cases hread
    · split at hread
      · cases hread
      · split at hread
        · rename_i value _
          cases value <;> cases hread <;> exact .inl rfl
        · cases hread
          exact .inr rfl
        · cases hread

/-- A sentinel owned by root in root's directory, with the given contents. -/
def rootView (contents : Except OsError ByteArray) : SentinelView :=
  { directory := .ok ⟨.directory, 0, 0o700⟩
    sentinel := .ok ⟨.regular, 0, 0o600⟩
    contents
    now := Datetime.epoch }

def rootSwitch : KillSwitch := { path := str "/etc/ebabf/KILL_SWITCH", trustedUid := 0 }

theorem trusted_rootView (contents : Except OsError ByteArray) :
    rootSwitch.Trusted (rootView contents) :=
  ⟨⟨_, rfl, by decide⟩, ⟨_, rfl, fun _ => FileKind.noConfusion, by decide⟩⟩

/-- An object that names the reason and nothing else. -/
def reasonText : Str := str "\x7b\"reason\": \"drill\"\x7d"

theorem encodes_reasonText : ∃ bytes, Py.encodeUtf8 reasonText = some bytes :=
  Option.isSome_iff_exists.mp (by decide +kernel)

/-- A sentinel that lacks the actor and the time halts enforcement. -/
theorem readState_engaged_of_reason : ∃ bytes, Py.encodeUtf8 reasonText = some bytes ∧
    ∃ state, (rootSwitch.readState 1 (rootView (.ok bytes))).1 = .ok state ∧
      state.engaged = true := by
  obtain ⟨bytes, hbytes⟩ := encodes_reasonText
  refine ⟨bytes, hbytes, (readState_engaged_iff (trusted_rootView _) 1).mpr ?_⟩
  rintro _ ⟨⟩ text htext
  rw [Py.readText_encodeUtf8 hbytes (by decide)] at htext
  cases htext
  have hobject : (Json.loads 1 reasonText).toOption.any Json.isObject = true := by decide +kernel
  cases hloads : Json.loads 1 reasonText with
  | error e =>
    rw [hloads] at hobject
    cases hobject
  | ok value =>
    rw [hloads] at hobject
    exact ⟨nofun, fun value' hvalue => by cases hvalue; exact hobject⟩

/-- The bytes of an empty JSON list. -/
def emptyListBytes : ByteArray := (String.ofList ['[', ']']).toUTF8

theorem readText_emptyListBytes : readText emptyListBytes = some (str "[]") :=
  Py.readText_encodeUtf8 rfl (by decide)

theorem loads_emptyList : Json.loads 1 (str "[]") = .ok (.arr []) := rfl

theorem not_harmless_emptyList : ¬Harmless 1 (.ok emptyListBytes) := by
  intro h
  have hobject := (h _ rfl _ readText_emptyListBytes).2 _ loads_emptyList
  cases hobject

/-- A sentinel that holds `[]` makes `read_state` raise. -/
theorem readState_raises_on_list :
    ¬∀ (k : KillSwitch) (view : SentinelView) (limit : ℕ), k.Trusted view →
      ∃ state, (k.readState limit view).1 = .ok state ∧ state.engaged = true := by
  intro h
  obtain ⟨state, hstate, -⟩ := h rootSwitch (rootView (.ok emptyListBytes)) 1 (trusted_rootView _)
  rw [readState_of_trusted (trusted_rootView _)] at hstate
  exact not_harmless_emptyList ((readMetadata_ok_iff 1 _).mp ⟨state, hstate⟩)

end KillSwitch
end Ebabf
