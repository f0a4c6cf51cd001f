import Ebabf.Posix.Publish
import Ebabf.Storage.KeyFile

/-!
# Loading the key from several processes

Processes that find no key take the steps of `load_key` in any order. Each looks for the key twice
and then renames its own over the path, whether or not another has done so since.
-/

namespace Ebabf

open Py (Exc stripBytes)
open Posix (Stat)
open Posix.Publish (Writer Phase Directory Steps Sound)
open Transition (Path Throughout)

/-- A process that calls `load_key(path, create_if_missing=True)`, and the key it would make. -/
structure KeyCaller where
  euid : ℕ
  allowed : ℕ
  generated : List UInt8

/-- What the process does next. -/
inductive LoadStage
  | probing | rechecking | mkdir | publishing | lstatParent | lstatKey | reading
  | returned (key : List UInt8)
  | raised
deriving DecidableEq

/-- One step of a process. Every system call may fail, or the process be killed before it. -/
inductive LoadStep
  | probe | recheck | mkdir | publish (step : Posix.Publish.Step)
  /-- `create_key` returns or raises -/
  | finish
  | lstatParent | lstatKey | read | fail
deriving DecidableEq

/-- The directory of the key, the files in it and how far the processes are. -/
structure KeyRace (ι : Type) where
  parent : Option Stat
  files : Directory ι KeyFile
  stage : ι → LoadStage

namespace KeyCaller

def env (c : KeyCaller) (fault : KeyStep → Option Exc) : KeyEnv := ⟨c.euid, c.allowed, fault⟩

/-- `create_key` as a writer of the key. -/
def writer (c : KeyCaller) : Writer KeyFile :=
  let blank := KeyPath.blankKey c.euid (0o600 &&& c.allowed)
  { made := some blank
    draft := fun n => KeyPath.written (c.generated.take n) blank
    whole := some (KeyPath.written c.generated blank)
    chmod := KeyPath.chmodKey }

/-- The file it renames over the path. -/
def file (c : KeyCaller) : KeyFile :=
  KeyPath.chmodKey (KeyPath.written c.generated (KeyPath.blankKey c.euid (0o600 &&& c.allowed)))

theorem file_of_whole {c : KeyCaller} {whole : KeyFile} (h : c.writer.whole = some whole) :
    c.writer.chmod whole = c.file := by
  cases h
  rfl

end KeyCaller

namespace KeyRace

variable {ι : Type}

/-- The parent may be there already; the key is not. -/
def start (parent : Option Stat) : KeyRace ι :=
  { parent
    files := .empty
    stage := fun _ => .probing }

/-- What a process finds at the path. -/
def fs (r : KeyRace ι) : KeyFs := ⟨r.parent, r.files.target⟩

/-- Every two keys returned are the same, and it is the one that reading the path returns. -/
def Agree (p : KeyPath) (r : KeyRace ι) : Prop :=
  ∀ i key, r.stage i = .returned key →
    (∃ data, p.readBytes r.fs = .ok data ∧ stripBytes data = key) ∧
    ∀ j key', r.stage j = .returned key' → key = key'

variable {p : KeyPath} {callers : ι → KeyCaller}

/-- The key at the path is that of the one process that has renamed its own, and every key
returned is the one at the path. -/
structure Sole (callers : ι → KeyCaller) (r : KeyRace ι) : Prop where
  sound : Sound (fun i => (callers i).writer) r.files
  renamed : ∀ i, r.files.phase i = .renamed → r.files.target = some (callers i).file
  returned : ∀ i key, r.stage i = .returned key →
    ∃ j, r.files.target = some (callers j).file ∧ key = (callers j).generated

theorem sole_start (callers : ι → KeyCaller) (parent : Option Stat) :
    Sole callers (start parent) where
  sound := Posix.Publish.sound_empty _
  renamed := fun _ h => Phase.noConfusion h
  returned := fun _ _ h => LoadStage.noConfusion h

theorem Sole.published {r : KeyRace ι} (hr : Sole callers r) {file : KeyFile}
    (h : r.files.target = some file) : ∃ i, file = (callers i).file := by
  obtain ⟨i, whole, -, hwhole, rfl⟩ := hr.sound.published file h
  exact ⟨i, KeyCaller.file_of_whole hwhole⟩

theorem readBytes_file {r : KeyRace ι} {c : KeyCaller} (h : r.files.target = some c.file) :
    p.readBytes r.fs = .ok c.generated := by
  rw [KeyPath.readBytes, fs, h]
  rfl

theorem Sole.agree {r : KeyRace ι}
    (hkeys : ∀ i, stripBytes (callers i).generated = (callers i).generated)
    (hr : Sole callers r) : Agree p r := by
  intro i key hi
  obtain ⟨k, htarget, rfl⟩ := hr.returned i key hi
  refine ⟨⟨_, readBytes_file htarget, hkeys k⟩, fun j key' hj => ?_⟩
  obtain ⟨l, htarget', rfl⟩ := hr.returned j key' hj
  have hread := readBytes_file (p := p) htarget
  rw [readBytes_file htarget'] at hread
  exact (Except.ok.inj hread).symm

variable [DecidableEq ι]

def goto (r : KeyRace ι) (i : ι) (stage : LoadStage) : KeyRace ι :=
  { r with stage := Function.update r.stage i stage }

/-- One step of `load_key`. -/
def step (p : KeyPath) (callers : ι → KeyCaller) (a : ι × LoadStep) (r : KeyRace ι) :
    Option (KeyRace ι) :=
  match a.2, r.stage a.1 with
  | .probe, .probing =>
    some (r.goto a.1 (if KeyPath.keyExists r.fs then .lstatParent else .rechecking))
  | .recheck, .rechecking =>
    some (r.goto a.1 (if KeyPath.keyExists r.fs then .raised else .mkdir))
  | .mkdir, .mkdir =>
    match KeyPath.makeParent ((callers a.1).env fun _ => none) r.parent with
    | .ok info => some ({ r with parent := some info }.goto a.1 .publishing)
    | .error _ => some (r.goto a.1 .raised)
  | .publish s, .publishing =>
    (Posix.Publish.step (fun i => (callers i).writer) (.act a.1 s) r.files).map fun files =>
      { r with files }
  | .finish, .publishing =>
    match r.files.phase a.1 with
    | .renamed => some (r.goto a.1 (.returned (callers a.1).generated))
    | .failed | .littered | .killed => some (r.goto a.1 .raised)
    | .idle | .writing | .written | .ready | .unlinking => none
  | .lstatParent, .lstatParent =>
    match p.checkParent r.parent with
    | .ok () => some (r.goto a.1 .lstatKey)
    | .error _ => some (r.goto a.1 .raised)
  | .lstatKey, .lstatKey =>
    match p.checkKey r.files.target with
    | .ok () => some (r.goto a.1 .reading)
    | .error _ => some (r.goto a.1 .raised)
  | .read, .reading =>
    match p.readBytes r.fs with
    | .ok data => some (r.goto a.1 (.returned (stripBytes data)))
    | .error _ => some (r.goto a.1 .raised)
  | .fail, .probing | .fail, .rechecking | .fail, .mkdir | .fail, .lstatParent
  | .fail, .lstatKey | .fail, .reading => some (r.goto a.1 .raised)
  | _, _ => none

def Loads (p : KeyPath) (callers : ι → KeyCaller) (a : ι × LoadStep) (r r' : KeyRace ι) : Prop :=
  step p callers a r = some r'

/-- A process that renames its key finds no other at the path. -/
def Unclaimed (r : KeyRace ι) (a : ι × LoadStep) : Prop :=
  a.2 = .publish .rename → r.files.target = none

/-- What a step does that makes nothing of the files: its process goes to another stage, and where
this is a return, the key is the one it made or the one it read. -/
def Moves (p : KeyPath) (callers : ι → KeyCaller) (i : ι) (r r' : KeyRace ι) : Prop :=
  r'.files = r.files ∧ ∃ stage, r'.stage = Function.update r.stage i stage ∧
    ∀ key, stage = .returned key →
      r.files.phase i = .renamed ∧ key = (callers i).generated ∨
      ∃ data, p.readBytes r.fs = .ok data ∧ key = stripBytes data

theorem moves_goto {i : ι} {r : KeyRace ι} {stage : LoadStage} (parent : Option Stat)
    (h : ∀ key, stage ≠ .returned key) : Moves p callers i r ({ r with parent }.goto i stage) :=
  ⟨rfl, stage, rfl, fun key hkey => absurd hkey (h key)⟩

theorem loads_cases {i : ι} {s : LoadStep} {r r' : KeyRace ι}
    (h : Loads p callers (i, s) r r') :
    (∃ t, s = .publish t ∧ r'.stage = r.stage ∧
      Steps (fun i => (callers i).writer) (.act i t) r.files r'.files) ∨
    Moves p callers i r r' := by
  unfold Loads step at h
  dsimp only at h
  split at h
  -- `exists()`, in `load_key` and in `create_key`
  iterate 2
    · refine .inr ?_
      cases h
      refine moves_goto r.parent fun key => ?_
      split_ifs <;> exact LoadStage.noConfusion
  · refine .inr ?_
    split at h
    · cases h
      exact moves_goto _ fun key => LoadStage.noConfusion
    · cases h
      exact moves_goto _ fun key => LoadStage.noConfusion
  · rename_i t _
    obtain ⟨files, hfiles, rfl⟩ := Option.map_eq_some_iff.mp h
    exact .inl ⟨t, rfl, rfl, hfiles⟩
  -- `create_key` returns the key it made, once it has renamed it
  · refine .inr ?_
    split at h
    · rename_i hphase
      cases h
      refine ⟨rfl, _, rfl, fun key hkey => .inl ⟨hphase, ?_⟩⟩
      cases hkey
      rfl
    all_goals cases h
    all_goals exact moves_goto _ fun key => LoadStage.noConfusion
  -- `_check_permissions`, of the directory and of the key
  iterate 2
    · refine .inr ?_
      split at h
      · cases h
        exact moves_goto _ fun key => LoadStage.noConfusion
      · cases h
        exact moves_goto _ fun key => LoadStage.noConfusion
  -- the key that is read
  · refine .inr ?_
    split at h
    · rename_i data hdata
      cases h
      refine ⟨rfl, _, rfl, fun key hkey => .inr ⟨data, hdata, ?_⟩⟩
      cases hkey
      rfl
    · cases h
      exact moves_goto _ fun key => LoadStage.noConfusion
  all_goals cases h
  all_goals exact .inr (moves_goto _ fun key => LoadStage.noConfusion)

theorem Sole.rename {i : ι} {r r' : KeyRace ι} (hr : Sole callers r)
    (hnone : r.files.target = none) (hstage : r'.stage = r.stage)
    (h : Steps (fun i => (callers i).writer) (.act i .rename) r.files r'.files) :
    Sole callers r' := by
  have hsound := h.sound hr.sound
  obtain ⟨hready, -, htarget⟩ := h.renames
  have hholds := hr.sound.holds i
  rw [hready] at hholds
  obtain ⟨whole, hwhole, htemp⟩ := hholds
  rw [htemp, KeyCaller.file_of_whole hwhole] at htarget
  refine ⟨hsound, fun j hj => ?_, fun j key hj => ?_⟩
  · rcases h.renamed_before hj with hbefore | hact
    · rw [hr.renamed j hbefore] at hnone
      cases hnone
    · cases hact
      exact htarget
  · rw [hstage] at hj
    obtain ⟨_, hsome, -⟩ := hr.returned j key hj
    rw [hsome] at hnone
    cases hnone

theorem Sole.publish {i : ι} {t : Posix.Publish.Step} {r r' : KeyRace ι} (hr : Sole callers r)
    (ht : t ≠ .rename) (hstage : r'.stage = r.stage)
    (h : Steps (fun i => (callers i).writer) (.act i t) r.files r'.files) : Sole callers r' := by
  have hact : ∀ j, Posix.Publish.Action.act i t ≠ .act j .rename := by
    rintro j hj
    cases hj
    exact ht rfl
  have htarget := h.target_eq (fun h => nomatch h) hact
  refine ⟨h.sound hr.sound, fun j hj => ?_, fun j key hj => ?_⟩
  · rw [htarget]
    exact hr.renamed j ((h.renamed_before hj).resolve_right (hact j))
  · rw [htarget]
    rw [hstage] at hj
    exact hr.returned j key hj

theorem Sole.moves {i : ι} {r r' : KeyRace ι}
    (hkeys : ∀ i, stripBytes (callers i).generated = (callers i).generated)
    (hr : Sole callers r) (h : Moves p callers i r r') : Sole callers r' := by
  obtain ⟨hfiles, stage, hstage, hreturns⟩ := h
  refine ⟨by rw [hfiles]; exact hr.sound, by rw [hfiles]; exact hr.renamed, fun j key hj => ?_⟩
  rw [hfiles]
  rw [hstage] at hj
  by_cases hij : j = i
  · subst hij
    rw [Function.update_self] at hj
    rcases hreturns key hj with ⟨hphase, rfl⟩ | ⟨data, hdata, rfl⟩
    · exact ⟨j, hr.renamed j hphase, rfl⟩
    · cases htarget : r.files.target with
      | none =>
        rw [KeyPath.readBytes, fs, htarget] at hdata
        cases hdata
      | some file =>
        obtain ⟨k, rfl⟩ := hr.published htarget
        rw [readBytes_file htarget] at hdata
        cases hdata
        exact ⟨k, rfl, hkeys k⟩
  · rw [Function.update_of_ne hij] at hj
    exact hr.returned j key hj

theorem Sole.step {a : ι × LoadStep} {r r' : KeyRace ι}
    (hkeys : ∀ i, stripBytes (callers i).generated = (callers i).generated)
    (h : Loads p callers a r r') (hunclaimed : Unclaimed r a) (hr : Sole callers r) :
    Sole callers r' := by
  obtain ⟨i, s⟩ := a
  rcases loads_cases h with ⟨t, rfl, hstage, hsteps⟩ | hmoves
  · by_cases ht : t = .rename
    · subst ht
      exact hr.rename (hunclaimed rfl) hstage hsteps
    · exact hr.publish ht hstage hsteps
  · exact hr.moves hkeys hmoves

/-- Where every renaming is taken while there is no key at the path, all processes that return
return the same key, and it is the one at the path. -/
theorem agree_of_unclaimed (p : KeyPath) (callers : ι → KeyCaller)
    (hkeys : ∀ i, stripBytes (callers i).generated = (callers i).generated)
    (parent : Option Stat) {actions : List (ι × LoadStep)} {r : KeyRace ι}
    (h : Path (Loads p callers) (start parent) actions r)
    (hunclaimed : Throughout (Loads p callers) Unclaimed actions (start parent)) : Agree p r :=
  (h.invariant_of_throughout (I := Sole callers) (fun _ _ _ => Sole.step hkeys) hunclaimed
    (sole_start callers parent)).agree hkeys

theorem path_publish {i : ι} {steps : List Posix.Publish.Step} {r : KeyRace ι}
    {files : Directory ι KeyFile} (hi : r.stage i = .publishing)
    (h : Path (Steps fun i => (callers i).writer) r.files (steps.map (.act i)) files) :
    Path (Loads p callers) r (steps.map fun t => (i, .publish t)) { r with files } := by
  induction steps generalizing r with
  | nil =>
    cases h
    exact .nil r
  | cons t steps ih =>
    obtain _ | ⟨head, tail⟩ := h
    rename_i files₁
    have hstep : Loads p callers (i, .publish t) r { r with files := files₁ } := by
      unfold Loads step
      rw [hi]
      exact congrArg (Option.map _) head
    exact .cons hstep (ih (r := { r with files := files₁ }) hi tail)

/-- The steps of a process that finds no key and that nothing stops. -/
def alone (i : ι) : List (ι × LoadStep) :=
  [(i, .probe), (i, .recheck), (i, .mkdir)] ++
    (Posix.Publish.undisturbed.map fun t => (i, .publish t)) ++ [(i, .finish)]

/-- A `load_key` that makes the key and that nobody disturbs takes the steps of a process alone,
and leaves what it leaves on its own. -/
theorem path_alone {i : ι} {r : KeyRace ι} {fault : KeyStep → Option Exc} {key : List UInt8}
    {fs' : KeyFs} (hprobing : r.stage i = .probing) (hidle : r.files.phase i = .idle)
    (hnone : r.files.target = none)
    (h : p.loadKey (callers i).generated true ((callers i).env fault) r.fs = (.ok key, fs')) :
    ∃ r', Path (Loads p callers) r (alone i) r' ∧ r'.fs = fs' ∧ r'.stage i = .returned key := by
  have hexists : KeyPath.keyExists r.fs = false := by
    rw [KeyPath.keyExists, fs, hnone]
    rfl
  obtain ⟨rfl, info, hinfo, rfl⟩ := KeyPath.loadKey_of_not_keyExists hexists h
  have hmkdir : KeyPath.makeParent ((callers i).env fun _ => none) r.parent = .ok info := by
    rw [← hinfo, fs]
    cases r.parent <;> rfl
  let r₁ := r.goto i .rechecking
  let r₂ := r₁.goto i .mkdir
  let r₃ := { r₂ with parent := some info }.goto i .publishing
  let r₄ := { r₃ with files := r.files.publishedBy i (callers i).file }
  have hprobe : Loads p callers (i, .probe) r r₁ := by
    simp [Loads, step, hprobing, hexists, r₁]
  have hrecheck : Loads p callers (i, .recheck) r₁ r₂ := by
    have hstage : r₁.stage i = .rechecking := Function.update_self ..
    have hexists₁ : KeyPath.keyExists r₁.fs = false := hexists
    simp [Loads, step, hstage, hexists₁, r₂]
  have hmakes : Loads p callers (i, .mkdir) r₂ r₃ := by
    simp [Loads, step, r₃, r₂, r₁, goto, hmkdir]
  have hpublish : Path (Loads p callers) r₃
      (Posix.Publish.undisturbed.map fun t => (i, .publish t)) r₄ :=
    path_publish (by simp [r₃, goto]) (Posix.Publish.path_undisturbed rfl rfl hidle)
  have hfinish : Loads p callers (i, .finish) r₄
      (r₄.goto i (.returned (callers i).generated)) := by
    simp [Loads, step, r₄, r₃, goto, Directory.publishedBy]
  refine ⟨_, .append (.append (.cons hprobe (.cons hrecheck (.single hmakes))) hpublish)
    (.single hfinish), rfl, ?_⟩
  simp [goto]

theorem target_eq_none {parent : Option Stat} {actions : List (ι × LoadStep)} {r : KeyRace ι}
    (h : Path (Loads p callers) (start parent) actions r)
    (hnot : ∀ a ∈ actions, a.2 ≠ .publish .rename) : r.files.target = none := by
  have hlabels : Throughout (Loads p callers) (fun _ a => a.2 ≠ .publish .rename) actions
      (start parent) := by
    rintro before a after r' rfl -
    exact hnot a (List.mem_append_right before List.mem_cons_self)
  refine h.invariant_of_throughout (I := fun r => r.files.target = none) ?_ hlabels rfl
  rintro ⟨i, s⟩ r₁ r₂ hstep hs hnone
  rcases loads_cases hstep with ⟨t, rfl, -, hsteps⟩ | ⟨hfiles, -⟩
  · have htarget : r₂.files.target = r₁.files.target := by
      refine hsteps.target_eq (fun h => nomatch h) fun j hj => ?_
      cases hj
      exact hs rfl
    rw [htarget, hnone]
  · rw [hfiles, hnone]

/-- A key that only one process comes to rename is renamed where there is none. -/
theorem throughout_unclaimed {parent : Option Stat} {actions : List (ι × LoadStep)}
    (hsingle : actions.countP (fun a => a.2 = .publish .rename) ≤ 1) :
    Throughout (Loads p callers) Unclaimed actions (start parent) := by
  rintro before a after r rfl hbefore ha
  refine target_eq_none hbefore fun b hb hrename => ?_
  rw [List.countP_append, List.countP_cons, if_pos (decide_eq_true ha)] at hsingle
  have hnone : before.countP (fun a => a.2 = .publish .rename) = 0 := by omega
  exact List.countP_eq_zero.mp hnone b hb (decide_eq_true hrename)

/-- One process makes the zero key, the other a different one. -/
def twoCallers : Bool → KeyCaller
  | false => { euid := 0, allowed := 0o755, generated := KeyPath.zeroKey }
  | true => { euid := 0, allowed := 0o755, generated := 66 :: KeyPath.zeroKey.tail }

theorem stripBytes_twoCallers (i : Bool) :
    stripBytes (twoCallers i).generated = (twoCallers i).generated := by
  cases i <;> decide

/-- One process has renamed its key when the other looks, and both return that key. -/
def oneMakes : List (Bool × LoadStep) :=
  [(false, .probe), (false, .recheck), (false, .mkdir)] ++
    (Posix.Publish.undisturbed.map fun t => (false, .publish t)) ++
    [(true, .probe), (true, .lstatParent), (false, .finish), (true, .lstatKey), (true, .read)]

theorem stages_oneMakes :
    (oneMakes.foldlM (fun r a => step KeyPath.defaultPath twoCallers a r)
      (start (some ⟨.directory, 0, 0o700⟩))).map (fun r => (r.stage false, r.stage true)) =
    some (.returned KeyPath.zeroKey, .returned KeyPath.zeroKey) := rfl

theorem agree_oneMakes : ∃ r, Path (Loads KeyPath.defaultPath twoCallers)
    (start (some ⟨.directory, 0, 0o700⟩)) oneMakes r ∧
      r.stage false = .returned KeyPath.zeroKey ∧ r.stage true = .returned KeyPath.zeroKey ∧
      Agree KeyPath.defaultPath r := by
  obtain ⟨r, hrun, hstages⟩ := Option.map_eq_some_iff.mp stages_oneMakes
  obtain ⟨hfalse, htrue⟩ := Prod.mk.inj hstages
  have hpath := Transition.path_of_foldlM hrun
  refine ⟨r, hpath, hfalse, htrue, ?_⟩
  exact agree_of_unclaimed _ _ stripBytes_twoCallers _ hpath (throughout_unclaimed (by decide))

/-- Both processes have looked twice before either renames. -/
def bothLook : List (Bool × LoadStep) :=
  [(false, .probe), (true, .probe), (false, .recheck), (true, .recheck), (false, .mkdir),
    (true, .mkdir)] ++ (Posix.Publish.undisturbed.map fun t => (false, .publish t)) ++
    [(false, .finish)] ++ (Posix.Publish.undisturbed.map fun t => (true, .publish t)) ++
    [(true, .finish)]

theorem stages_bothLook :
    (bothLook.foldlM (fun r a => step KeyPath.defaultPath twoCallers a r)
      (start (some ⟨.directory, 0, 0o700⟩))).map (fun r => (r.stage false, r.stage true)) =
    some (.returned (twoCallers false).generated, .returned (twoCallers true).generated) := rfl

/-- Two processes that look before either renames return different keys. -/
theorem not_agree : ¬∀ (p : KeyPath) (callers : Bool → KeyCaller)
    (_ : ∀ i, stripBytes (callers i).generated = (callers i).generated) (parent : Option Stat)
    (actions : List (Bool × LoadStep)) (r : KeyRace Bool),
    Path (Loads p callers) (start parent) actions r → Agree p r := by
  intro h
  obtain ⟨r, hrun, hstages⟩ := Option.map_eq_some_iff.mp stages_bothLook
  obtain ⟨hfalse, htrue⟩ := Prod.mk.inj hstages
  have hagree := h _ _ stripBytes_twoCallers _ _ r (Transition.path_of_foldlM hrun)
  exact absurd ((hagree false _ hfalse).2 true _ htrue) (by decide)

end KeyRace
end Ebabf
