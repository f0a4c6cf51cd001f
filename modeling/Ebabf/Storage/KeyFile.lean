import Ebabf.Posix

/-!
# The identity key file

`load_key` reads the key, or makes one where there is none. Reading it looks at the permissions of
the key and of its directory first; making it looks at neither.
-/

namespace Py

def isSpaceByte (b : UInt8) : Bool := (0x09 ≤ b && b ≤ 0x0D) || b == 0x20

/-- `bytes.strip()` -/
def stripBytes (data : List UInt8) : List UInt8 :=
  ((data.dropWhile isSpaceByte).reverse.dropWhile isSpaceByte).reverse

end Py

namespace Ebabf

open Py (Str str oct Exc stripBytes)
open Posix (FileKind Stat BEYOND_OWNER)

/-- What is at the key's path: its `lstat`, and what reading it returns or raises. Only a symlink
leads nowhere. -/
structure KeyFile where
  info : Stat
  reads : Option (Except Exc (List UInt8))
  dangling : reads = none → ∃ toDirectory, info.kind = .symlink toDirectory

/-- The directory of the key and the key in it. -/
structure KeyFs where
  directory : Option Stat
  key : Option KeyFile

/-- The key's path and its parent, as they are printed. -/
structure KeyPath where
  path : Str
  parent : Str

inductive KeyStep
  | probe | lstatParent | lstatKey | read | recheck | mkdir | mkstemp | write | chmod | replace
deriving DecidableEq

/-- Who loads the key, the permission bits the umask lets through, and which system call fails
with what. -/
structure KeyEnv where
  euid : ℕ
  allowed : ℕ
  fault : KeyStep → Option Exc

/-- No system call fails. -/
def KeyEnv.Calm (env : KeyEnv) : Prop := ∀ step, env.fault step = none

/-- A system call that may fail. -/
def KeyEnv.call {α : Type} (env : KeyEnv) (step : KeyStep) (result : Except Exc α) : Except Exc α :=
  match env.fault step with
  | some e => .error e
  | none => result

theorem KeyEnv.call_eq_ok {α : Type} {env : KeyEnv} {step : KeyStep} {result : Except Exc α}
    {a : α} : env.call step result = .ok a ↔ env.fault step = none ∧ result = .ok a := by
  unfold call
  cases env.fault step <;> simp

theorem KeyEnv.call_ok {α : Type} (env : KeyEnv) (step : KeyStep) (a : α) :
    env.call step (.ok a) = .ok a ∨ ∃ e, env.call step (.ok a) = .error e := by
  unfold call
  cases env.fault step with
  | some e => exact .inr ⟨e, rfl⟩
  | none => exact .inl rfl

theorem KeyEnv.Calm.call {α : Type} {env : KeyEnv} (h : env.Calm) (step : KeyStep)
    (result : Except Exc α) : env.call step result = result := by
  rw [KeyEnv.call, h step]

namespace KeyPath

def insecureKeyFile (message : Str) : Exc := ⟨.other (str "InsecureKeyFile"), message⟩

def fileNotFound (path : Str) : Exc :=
  ⟨.other (str "FileNotFoundError"),
    str "[Errno 2] No such file or directory: '" ++ path ++ str "'"⟩

/-- `path.exists()` follows a symlink. -/
def keyExists (fs : KeyFs) : Bool := fs.key.any fun file => file.reads.isSome

def checkParent (p : KeyPath) : Option Stat → Except Exc Unit
  | none => .error (fileNotFound p.parent)
  | some info =>
    if info.mode &&& BEYOND_OWNER ≠ 0 then
      .error (insecureKeyFile (p.parent ++ str " has mode " ++ oct info.mode ++
        str "; the identity key directory must be 0700"))
    else .ok ()

def checkKey (p : KeyPath) : Option KeyFile → Except Exc Unit
  | none => .error (fileNotFound p.path)
  | some file =>
    if file.info.kind matches .symlink _ then
      .error (insecureKeyFile (p.path ++ str " is a symlink; refusing to follow it to a key"))
    else if file.info.mode &&& BEYOND_OWNER ≠ 0 then
      .error (insecureKeyFile (p.path ++ str " has mode " ++ oct file.info.mode ++
        str "; the identity key must be 0600"))
    else .ok ()

/-- `_check_permissions` -/
def checkPermissions (p : KeyPath) (env : KeyEnv) (fs : KeyFs) : Except Exc Unit := do
  env.call .lstatParent (p.checkParent fs.directory)
  env.call .lstatKey (p.checkKey fs.key)

def readBytes (p : KeyPath) (fs : KeyFs) : Except Exc (List UInt8) :=
  match fs.key.bind KeyFile.reads with
  | none => .error (fileNotFound p.path)
  | some outcome => outcome

/-- `path.parent.mkdir(parents=True, exist_ok=True, mode=0o700)` -/
def makeParent (env : KeyEnv) : Option Stat → Except Exc Stat
  | none => .ok ⟨.directory, env.euid, 0o700 &&& env.allowed⟩
  | some info =>
    if info.kind = .directory ∨ info.kind = .symlink true then .ok info
    else .error ⟨.other (str "FileExistsError"), str "[Errno 17] File exists"⟩

/-- A regular file with nothing in it yet. -/
def blankKey (euid mode : ℕ) : KeyFile :=
  { info := ⟨.regular, euid, mode⟩
    reads := some (.ok [])
    dangling := fun h => nomatch h }

/-- The file holds the bytes. -/
def written (data : List UInt8) (file : KeyFile) : KeyFile :=
  { file with
    reads := some (.ok data)
    dangling := fun h => nomatch h }

/-- `os.chmod(tmp_name, 0o600)` -/
def chmodKey (file : KeyFile) : KeyFile :=
  { file with info := { file.info with mode := 0o600 } }

/-- The file `create_key` renames over the path; if a step raises, it is unlinked. -/
def makeKeyFile (env : KeyEnv) (generated : List UInt8) : Except Exc KeyFile := do
  let temp ← env.call .mkstemp (.ok (blankKey env.euid (0o600 &&& env.allowed)))
  let temp ← env.call .write (.ok (written generated temp))
  let temp ← env.call .chmod (.ok (chmodKey temp))
  env.call .replace (.ok temp)

/-- `create_key`, when `Fernet.generate_key()` draws `generated`: its outcome and the files
afterwards. -/
def createKey (p : KeyPath) (generated : List UInt8) (env : KeyEnv) (fs : KeyFs) :
    Except Exc (List UInt8) × KeyFs :=
  match env.call .recheck (.ok (keyExists fs)) with
  | .error e => (.error e, fs)
  | .ok true =>
    (.error ⟨.other (str "FileExistsError"),
      p.path ++ str " already exists; refusing to replace an identity key"⟩, fs)
  | .ok false =>
    match env.call .mkdir (makeParent env fs.directory) with
    | .error e => (.error e, fs)
    | .ok info =>
      match makeKeyFile env generated with
      | .error e => (.error e, { fs with directory := some info })
      | .ok file => (.ok generated, ⟨some info, some file⟩)

/-- `load_key` -/
def loadKey (p : KeyPath) (generated : List UInt8) (createIfMissing : Bool) (env : KeyEnv)
    (fs : KeyFs) : Except Exc (List UInt8) × KeyFs :=
  match env.call .probe (.ok (keyExists fs)) with
  | .error e => (.error e, fs)
  | .ok true =>
    ((do
      p.checkPermissions env fs
      let data ← env.call .read (p.readBytes fs)
      return stripBytes data), fs)
  | .ok false =>
    if createIfMissing then p.createKey generated env fs
    else (.error ⟨.other (str "FileNotFoundError"), str "identity key not found at " ++ p.path⟩, fs)

/-- The directory grants nothing beyond its owner. -/
def ParentPrivate (fs : KeyFs) : Prop :=
  ∃ info, fs.directory = some info ∧ info.mode &&& BEYOND_OWNER = 0

/-- The key is no symlink and grants nothing beyond its owner. -/
def KeyPrivate (fs : KeyFs) : Prop :=
  ∃ file, fs.key = some file ∧ (∀ toDirectory, file.info.kind ≠ .symlink toDirectory) ∧
    file.info.mode &&& BEYOND_OWNER = 0

theorem checkParent_eq_ok {p : KeyPath} {fs : KeyFs} :
    p.checkParent fs.directory = .ok () ↔ ParentPrivate fs := by
  unfold ParentPrivate
  cases fs.directory with
  | none => simp [checkParent]
  | some info =>
    rw [checkParent]
    split_ifs with h
    · simp [h]
    · simpa using h

theorem checkKey_eq_ok {p : KeyPath} {fs : KeyFs} :
    p.checkKey fs.key = .ok () ↔ KeyPrivate fs := by
  unfold KeyPrivate
  cases fs.key with
  | none => simp [checkKey]
  | some file =>
    simp only [checkKey, Option.some.injEq, exists_eq_left']
    cases hkind : file.info.kind with
    | symlink toDirectory => simp
    | regular | directory | special => simp

theorem checkPermissions_of_private {p : KeyPath} {env : KeyEnv} (henv : env.Calm) {fs : KeyFs}
    (hparent : ParentPrivate fs) (hkey : KeyPrivate fs) : p.checkPermissions env fs = .ok () := by
  rw [checkPermissions, henv.call, henv.call, checkParent_eq_ok.mpr hparent]
  exact checkKey_eq_ok.mpr hkey

theorem private_of_checkPermissions {p : KeyPath} {env : KeyEnv} {fs : KeyFs}
    (h : p.checkPermissions env fs = .ok ()) : ParentPrivate fs ∧ KeyPrivate fs := by
  obtain ⟨_, hparent, hkey⟩ := Py.bind_eq_ok.mp h
  exact ⟨checkParent_eq_ok.mp (KeyEnv.call_eq_ok.mp hparent).2,
    checkKey_eq_ok.mp (KeyEnv.call_eq_ok.mp hkey).2⟩

theorem loadKey_of_keyExists {p : KeyPath} {generated key : List UInt8} {createIfMissing : Bool}
    {env : KeyEnv} {fs fs' : KeyFs} (hexists : keyExists fs = true)
    (h : p.loadKey generated createIfMissing env fs = (.ok key, fs')) :
    fs' = fs ∧ ParentPrivate fs ∧ KeyPrivate fs ∧
      ∃ data, p.readBytes fs = .ok data ∧ key = stripBytes data := by
  unfold loadKey at h
  rw [hexists] at h
  rcases env.call_ok .probe true with hprobe | ⟨e, hprobe⟩
  · rw [hprobe] at h
    obtain ⟨hresult, hfs⟩ := Prod.mk.inj h
    obtain ⟨_, hcheck, hread⟩ := Py.bind_eq_ok.mp hresult
    obtain ⟨data, hdata, hkey⟩ := Py.bind_eq_ok.mp hread
    obtain ⟨hparent, hprivate⟩ := private_of_checkPermissions hcheck
    exact ⟨hfs.symm, hparent, hprivate, data, (KeyEnv.call_eq_ok.mp hdata).2,
      (Except.ok.inj hkey).symm⟩
  · rw [hprobe] at h
    cases h

theorem loadKey_of_private {p : KeyPath} {env : KeyEnv} (henv : env.Calm) {fs : KeyFs}
    (hexists : keyExists fs = true) (hparent : ParentPrivate fs) (hkey : KeyPrivate fs)
    {data : List UInt8} (hdata : p.readBytes fs = .ok data) (generated : List UInt8)
    (createIfMissing : Bool) :
    p.loadKey generated createIfMissing env fs = (.ok (stripBytes data), fs) := by
  rw [loadKey, henv.call, hexists, checkPermissions_of_private henv hparent hkey, henv.call, hdata]
  rfl

/-- The key file that `create_key` leaves. -/
def createdKey (euid : ℕ) (generated : List UInt8) : KeyFile :=
  chmodKey (written generated (blankKey euid 0))

theorem makeKeyFile_ok {env : KeyEnv} {generated : List UInt8} {file : KeyFile}
    (h : makeKeyFile env generated = .ok file) : file = createdKey env.euid generated := by
  obtain ⟨temp₁, hmkstemp, h⟩ := Py.bind_eq_ok.mp h
  obtain ⟨temp₂, hwrite, h⟩ := Py.bind_eq_ok.mp h
  obtain ⟨temp₃, hchmod, hreplace⟩ := Py.bind_eq_ok.mp h
  cases (KeyEnv.call_eq_ok.mp hmkstemp).2
  cases (KeyEnv.call_eq_ok.mp hwrite).2
  cases (KeyEnv.call_eq_ok.mp hchmod).2
  cases (KeyEnv.call_eq_ok.mp hreplace).2
  rfl

theorem makeParent_ok {env : KeyEnv} {directory : Option Stat} {info : Stat}
    (h : makeParent env directory = .ok info) :
    info = directory.getD ⟨.directory, env.euid, 0o700 &&& env.allowed⟩ := by
  cases directory with
  | none =>
    cases h
    rfl
  | some found =>
    rw [makeParent] at h
    split_ifs at h
    cases h
    rfl

theorem loadKey_of_not_keyExists {p : KeyPath} {generated key : List UInt8} {env : KeyEnv}
    {fs fs' : KeyFs} (hexists : keyExists fs = false)
    (h : p.loadKey generated true env fs = (.ok key, fs')) :
    key = generated ∧ ∃ info, makeParent env fs.directory = .ok info ∧
      fs' = ⟨some info, some (createdKey env.euid generated)⟩ := by
  unfold loadKey createKey at h
  rw [hexists] at h
  rcases env.call_ok .probe false with hprobe | ⟨e, hprobe⟩
  · rw [hprobe] at h
    rcases env.call_ok .recheck false with hrecheck | ⟨e, hrecheck⟩
    · rw [hrecheck] at h
      cases hmkdir : env.call .mkdir (makeParent env fs.directory) with
      | error e =>
        rw [hmkdir] at h
        cases h
      | ok info =>
        rw [hmkdir] at h
        cases hfile : makeKeyFile env generated with
        | error e =>
          rw [hfile] at h
          cases h
        | ok file =>
          rw [hfile] at h
          cases h
          rw [makeKeyFile_ok hfile]
          exact ⟨rfl, info, (KeyEnv.call_eq_ok.mp hmkdir).2, rfl⟩
    · rw [hrecheck] at h
      cases h
  · rw [hprobe] at h
    cases h

/-- What a load that returned `key` should leave: permissions in order, and the same key for
whoever loads it next. -/
structure Settled (p : KeyPath) (key : List UInt8) (fs : KeyFs) : Prop where
  parentPrivate : ParentPrivate fs
  keyPrivate : KeyPrivate fs
  reload : ∀ (env : KeyEnv) (generated : List UInt8) (createIfMissing : Bool), env.Calm →
    p.loadKey generated createIfMissing env fs = (.ok key, fs)

/-- The directory is not there yet, or it grants nothing beyond its owner. -/
def NotShared (fs : KeyFs) : Prop := ∀ info ∈ fs.directory, info.mode &&& BEYOND_OWNER = 0

theorem parentPrivate_created_iff {env : KeyEnv} {fs : KeyFs} {info : Stat}
    (h : makeParent env fs.directory = .ok info) (key : Option KeyFile) :
    ParentPrivate ⟨some info, key⟩ ↔ NotShared fs := by
  rw [makeParent_ok h]
  simp only [ParentPrivate, Option.some.injEq, exists_eq_left', NotShared, Option.mem_def]
  cases fs.directory with
  | none => simp [Posix.land_beyondOwner (by decide : 0o700 &&& BEYOND_OWNER = 0) env.allowed]
  | some info => simp

theorem keyPrivate_created (directory : Option Stat) (euid : ℕ) (generated : List UInt8) :
    KeyPrivate ⟨directory, some (createdKey euid generated)⟩ :=
  ⟨_, rfl, fun _ => FileKind.noConfusion, (by decide : 0o600 &&& BEYOND_OWNER = 0)⟩

/-- A key that has been loaded loads again, under permissions that are in order, exactly when it
was there before, or its directory was not there or was private. -/
theorem settled_iff {p : KeyPath} {generated key : List UInt8} {env : KeyEnv} {fs fs' : KeyFs}
    (hgenerated : stripBytes generated = generated)
    (h : p.loadKey generated true env fs = (.ok key, fs')) :
    Settled p key fs' ↔ keyExists fs = true ∨ NotShared fs := by
  cases hexists : keyExists fs with
  | true =>
    obtain ⟨rfl, hparent, hkey, data, hdata, rfl⟩ := loadKey_of_keyExists hexists h
    refine iff_of_true ⟨hparent, hkey, fun env' generated' createIfMissing henv' => ?_⟩ (.inl rfl)
    exact loadKey_of_private henv' hexists hparent hkey hdata generated' createIfMissing
  | false =>
    obtain ⟨rfl, info, hinfo, rfl⟩ := loadKey_of_not_keyExists hexists h
    have hiff := parentPrivate_created_iff hinfo (some (createdKey env.euid key))
    constructor
    · intro hsettled
      exact .inr (hiff.mp hsettled.parentPrivate)
    · rintro (hfound | hnotShared)
      · cases hfound
      · have hparent := hiff.mpr hnotShared
        have hkey := keyPrivate_created (some info) env.euid key
        refine ⟨hparent, hkey, fun env' generated' createIfMissing henv' => ?_⟩
        have hload := loadKey_of_private (p := p) henv' rfl hparent hkey rfl generated'
          createIfMissing
        rw [hload, hgenerated]

def defaultPath : KeyPath :=
  { path := str "/var/lib/ebabf/identity/identity.key"
    parent := str "/var/lib/ebabf/identity" }

/-- The key of 32 zero bytes. -/
def zeroKey : List UInt8 := List.replicate 43 65 ++ [61]

theorem stripBytes_zeroKey : stripBytes zeroKey = zeroKey := by decide

def calmKeyEnv : KeyEnv :=
  { euid := 0
    allowed := 0o755
    fault := fun _ => none }

/-- An empty directory with the mode. -/
def emptyDirectory (mode : ℕ) : KeyFs := ⟨some ⟨.directory, 0, mode⟩, none⟩

theorem loadKey_emptyDirectory (mode : ℕ) :
    defaultPath.loadKey zeroKey true calmKeyEnv (emptyDirectory mode) =
      (.ok zeroKey, ⟨some ⟨.directory, 0, mode⟩, some (createdKey 0 zeroKey)⟩) := rfl

/-- In a private directory the key that the first load makes loads again. -/
theorem settled_iff_private :
    Settled defaultPath zeroKey ⟨some ⟨.directory, 0, 0o700⟩, some (createdKey 0 zeroKey)⟩ ↔
      keyExists (emptyDirectory 0o700) = true ∨ NotShared (emptyDirectory 0o700) :=
  settled_iff stripBytes_zeroKey (loadKey_emptyDirectory 0o700)

/-- In a directory anybody may list, the key that the first load makes is refused by the next. -/
theorem not_settled_listed :
    ¬∀ (p : KeyPath) (generated key : List UInt8) (env : KeyEnv) (fs fs' : KeyFs),
      stripBytes generated = generated → p.loadKey generated true env fs = (.ok key, fs') →
        Settled p key fs' := by
  intro h
  obtain ⟨info, hinfo, hmode⟩ :=
    (h _ _ _ _ _ _ stripBytes_zeroKey (loadKey_emptyDirectory 0o755)).parentPrivate
  cases hinfo
  exact absurd hmode (by decide)

end KeyPath
end Ebabf
