import Ebabf.Transition
import Mathlib.Logic.Function.Basic

/-!
# Publishing a file by renaming it

A writer makes a temporary file, fills it, sets its mode and renames it over a shared path. Any
number of writers do so at once, and the file at the path may be removed at any time. Every step is
atomic and may fail, and a writer may be killed before any of them. Temporary names are unique, so
a temporary file goes by its writer.
-/

namespace Posix.Publish

open Transition (Path)

/-- The file a writer makes: as it is created, after so many bytes have reached it, with all of
them, and what setting its mode makes of it. A writer may refuse to create a file, and the whole of
it may be impossible to write. -/
structure Writer (φ : Type) where
  made : Option φ
  draft : ℕ → φ
  whole : Option φ
  chmod : φ → φ

inductive Phase
  | idle | writing | written | ready | renamed
  /-- a step has failed, and the temporary file is about to be unlinked -/
  | unlinking
  /-- it has raised -/
  | failed
  /-- it has raised, and unlinking the temporary file has failed too -/
  | littered
  | killed
deriving DecidableEq

inductive Step
  | create | write (bytes : ℕ) | finish | chmod | rename
  | fail | unlink | failUnlink | kill
deriving DecidableEq

inductive Action (ι : Type)
  | act (i : ι) (step : Step)
  /-- the file at the path is unlinked -/
  | remove

/-- It has raised without renaming its file. -/
def Phase.Raised (phase : Phase) : Prop := phase = .failed ∨ phase = .littered

/-- The file at the path, the temporary files and how far their writers are. -/
structure Directory (ι φ : Type) where
  target : Option φ
  temp : ι → Option φ
  phase : ι → Phase

variable {ι φ : Type}

/-- Nothing has happened yet. -/
def Directory.empty : Directory ι φ :=
  { target := none
    temp := fun _ => none
    phase := fun _ => .idle }

/-- What a step makes of its writer's phase and temporary file. -/
def advance (w : Writer φ) : Step → Phase → Option φ → Option (Phase × Option φ)
  | .create, .idle, _ => w.made.map fun file => (.writing, some file)
  | .write bytes, .writing, _ => some (.writing, some (w.draft bytes))
  | .finish, .writing, _ => w.whole.map fun file => (.written, some file)
  | .chmod, .written, temp => some (.ready, temp.map w.chmod)
  | .rename, .ready, some _ => some (.renamed, none)
  | .fail, .idle, temp => some (.failed, temp)
  | .fail, .writing, temp | .fail, .written, temp | .fail, .ready, temp =>
    some (.unlinking, temp)
  | .unlink, .unlinking, _ => some (.failed, none)
  | .failUnlink, .unlinking, temp => some (.littered, temp)
  | .kill, .idle, temp | .kill, .writing, temp | .kill, .written, temp | .kill, .ready, temp
  | .kill, .unlinking, temp => some (.killed, temp)
  | _, _, _ => none

section

variable [DecidableEq ι] (writers : ι → Writer φ)

def step : Action ι → Directory ι φ → Option (Directory ι φ)
  | .remove, d => some { d with target := none }
  | .act i s, d => (advance (writers i) s (d.phase i) (d.temp i)).map fun next =>
    { target := if s = .rename then d.temp i else d.target
      temp := Function.update d.temp i next.2
      phase := Function.update d.phase i next.1 }

/-- One action, of whichever writer. -/
def Steps (a : Action ι) (d d' : Directory ι φ) : Prop := step writers a d = some d'

end

/-- The temporary file a writer has in a phase; elsewhere it may have any. -/
def Holds (w : Writer φ) : Phase → Option φ → Prop
  | .idle, temp | .renamed, temp | .failed, temp => temp = none
  | .written, temp => ∃ file, w.whole = some file ∧ temp = some file
  | .ready, temp => ∃ file, w.whole = some file ∧ temp = some (w.chmod file)
  | .writing, _ | .unlinking, _ | .littered, _ | .killed, _ => True

theorem holds_of_advance {w : Writer φ} {s : Step} {phase phase' : Phase} {temp temp' : Option φ}
    (h : advance w s phase temp = some (phase', temp')) (hholds : Holds w phase temp) :
    Holds w phase' temp' := by
  unfold advance at h
  split at h
  · obtain ⟨file, -, hnext⟩ := Option.map_eq_some_iff.mp h
    cases hnext
    trivial
  · cases h
    trivial
  · obtain ⟨file, hwhole, hnext⟩ := Option.map_eq_some_iff.mp h
    cases hnext
    exact ⟨file, hwhole, rfl⟩
  · obtain ⟨file, hwhole, htemp⟩ := hholds
    cases h
    exact ⟨file, hwhole, by rw [htemp]; rfl⟩
  · cases h
    rfl
  · cases h
    exact hholds
  all_goals cases h
  all_goals trivial

theorem advance_renamed (w : Writer φ) (s : Step) (temp : Option φ) :
    advance w s .renamed temp = none := by
  cases s <;> rfl

theorem renamed_of_advance {w : Writer φ} {phase : Phase} {temp : Option φ}
    {next : Phase × Option φ} (h : advance w .rename phase temp = some next) :
    phase = .ready ∧ next = (.renamed, none) := by
  cases phase with
  | ready =>
    cases temp with
    | none => cases h
    | some file =>
      cases h
      exact ⟨rfl, rfl⟩
  | idle | writing | written | renamed | unlinking | failed | littered | killed => cases h

theorem rename_of_advance {w : Writer φ} {s : Step} {phase : Phase} {temp temp' : Option φ}
    (h : advance w s phase temp = some (.renamed, temp')) : s = .rename := by
  unfold advance at h
  split at h
  · obtain ⟨file, -, hnext⟩ := Option.map_eq_some_iff.mp h
    cases hnext
  · cases h
  · obtain ⟨file, -, hnext⟩ := Option.map_eq_some_iff.mp h
    cases hnext
  · cases h
  · rfl
  all_goals cases h

/-- Every writer has the temporary file of its phase, and the file at the path is the whole file of
a writer that has renamed it. -/
structure Sound (writers : ι → Writer φ) (d : Directory ι φ) : Prop where
  holds : ∀ i, Holds (writers i) (d.phase i) (d.temp i)
  published : ∀ file, d.target = some file → ∃ i whole, d.phase i = .renamed ∧
    (writers i).whole = some whole ∧ file = (writers i).chmod whole

theorem sound_empty (writers : ι → Writer φ) : Sound writers .empty where
  holds := fun _ => rfl
  published := fun _ h => nomatch h

/-- Whose file is at the path after an action: that of the writer that renames it, nobody's once it
is removed, and otherwise whose it was. -/
def register : Action ι → Option ι → Option ι
  | .act i .rename, _ => some i
  | .remove, _ => none
  | _, last => last

/-- What is at the path is what the last writer published. -/
def Publishes (writers : ι → Writer φ) (last : Option ι) (target : Option φ) : Prop :=
  match last with
  | none => target = none
  | some i => ∃ whole, (writers i).whole = some whole ∧ target = some ((writers i).chmod whole)

theorem register_of_quiet {a : Action ι} (hremove : a ≠ .remove) (hrename : ∀ i, a ≠ .act i .rename)
    (last : Option ι) : register a last = last := by
  cases a with
  | remove => exact absurd rfl hremove
  | act i s =>
    cases s with
    | rename => exact absurd rfl (hrename i)
    | create | write | finish | chmod | fail | unlink | failUnlink | kill => rfl

variable [DecidableEq ι] {writers : ι → Writer φ}

theorem steps_act {i : ι} {s : Step} {d d' : Directory ι φ} (h : Steps writers (.act i s) d d') :
    ∃ next, advance (writers i) s (d.phase i) (d.temp i) = some next ∧
      d'.target = (if s = .rename then d.temp i else d.target) ∧
      d'.temp = Function.update d.temp i next.2 ∧ d'.phase = Function.update d.phase i next.1 := by
  obtain ⟨next, hnext, rfl⟩ := Option.map_eq_some_iff.mp h
  exact ⟨next, hnext, rfl, rfl, rfl⟩

theorem target_of_remove {d d' : Directory ι φ} (h : Steps writers .remove d d') :
    d'.target = none ∧ d'.temp = d.temp ∧ d'.phase = d.phase := by
  cases h
  exact ⟨rfl, rfl, rfl⟩

theorem Steps.renamed {a : Action ι} {d d' : Directory ι φ} {i : ι} (h : Steps writers a d d')
    (hi : d.phase i = .renamed) : d'.phase i = .renamed := by
  cases a with
  | remove => rw [(target_of_remove h).2.2, hi]
  | act j s =>
    obtain ⟨next, hnext, -, -, hphase⟩ := steps_act h
    have hne : i ≠ j := by
      rintro rfl
      rw [hi, advance_renamed] at hnext
      cases hnext
    rw [hphase, Function.update_of_ne hne, hi]

theorem Steps.renamed_before {a : Action ι} {d d' : Directory ι φ} {i : ι}
    (h : Steps writers a d d') (hi : d'.phase i = .renamed) :
    d.phase i = .renamed ∨ a = .act i .rename := by
  cases a with
  | remove => exact .inl (by rw [← (target_of_remove h).2.2, hi])
  | act j s =>
    obtain ⟨⟨phase, temp⟩, hnext, -, -, hphase⟩ := steps_act h
    rw [hphase] at hi
    by_cases hij : i = j
    · subst hij
      rw [Function.update_self] at hi
      subst hi
      exact .inr (by rw [rename_of_advance hnext])
    · rw [Function.update_of_ne hij] at hi
      exact .inl hi

theorem Steps.target_eq {a : Action ι} {d d' : Directory ι φ} (h : Steps writers a d d')
    (hremove : a ≠ .remove) (hrename : ∀ i, a ≠ .act i .rename) : d'.target = d.target := by
  cases a with
  | remove => exact absurd rfl hremove
  | act i s =>
    obtain ⟨-, -, htarget, -⟩ := steps_act h
    have hs : s ≠ .rename := fun hs => hrename i (by rw [hs])
    rw [htarget, if_neg hs]

theorem Steps.renames {d d' : Directory ι φ} {i : ι} (h : Steps writers (.act i .rename) d d') :
    d.phase i = .ready ∧ d'.phase i = .renamed ∧ d'.target = d.temp i := by
  obtain ⟨next, hnext, htarget, -, hphase⟩ := steps_act h
  obtain ⟨hready, rfl⟩ := renamed_of_advance hnext
  exact ⟨hready, by rw [hphase, Function.update_self], by rw [htarget, if_pos rfl]⟩

theorem Steps.sound {a : Action ι} {d d' : Directory ι φ} (h : Steps writers a d d')
    (hd : Sound writers d) : Sound writers d' := by
  refine ⟨fun j => ?_, fun file hfile => ?_⟩
  · cases a with
    | remove =>
      obtain ⟨-, htemp, hphase⟩ := target_of_remove h
      rw [htemp, hphase]
      exact hd.holds j
    | act i s =>
      obtain ⟨next, hnext, -, htemp, hphase⟩ := steps_act h
      rw [htemp, hphase]
      by_cases hj : j = i
      · subst hj
        rw [Function.update_self, Function.update_self]
        exact holds_of_advance hnext (hd.holds j)
      · rw [Function.update_of_ne hj, Function.update_of_ne hj]
        exact hd.holds j
  · by_cases hrename : ∃ i, a = .act i .rename
    · obtain ⟨i, rfl⟩ := hrename
      obtain ⟨hready, hrenamed, htarget⟩ := h.renames
      have hholds := hd.holds i
      rw [hready] at hholds
      obtain ⟨whole, hwhole, htemp⟩ := hholds
      rw [htarget, htemp] at hfile
      cases hfile
      exact ⟨i, whole, hrenamed, hwhole, rfl⟩
    · by_cases hremove : a = .remove
      · subst hremove
        rw [(target_of_remove h).1] at hfile
        cases hfile
      · rw [h.target_eq hremove fun i hi => hrename ⟨i, hi⟩] at hfile
        obtain ⟨i, whole, hrenamed, hwhole, hfile⟩ := hd.published file hfile
        exact ⟨i, whole, h.renamed hrenamed, hwhole, hfile⟩

variable {actions : List (Action ι)} {d d' : Directory ι φ}

theorem sound_of_path (h : Path (Steps writers) d actions d') (hd : Sound writers d) :
    Sound writers d' :=
  h.invariant (I := Sound writers) (fun _ _ _ => Steps.sound) hd

theorem renamed_of_path {i : ι} (h : Path (Steps writers) d actions d')
    (hi : d.phase i = .renamed) : d'.phase i = .renamed :=
  h.invariant (I := fun d => d.phase i = .renamed) (fun _ _ _ => Steps.renamed) hi

theorem rename_notMem {i : ι} (h : Path (Steps writers) d actions d')
    (hi : d'.phase i ≠ .renamed) : Action.act i .rename ∉ actions := by
  intro hmem
  obtain ⟨before, after, rfl⟩ := List.append_of_mem hmem
  obtain ⟨_, -, hrest⟩ := h.split
  obtain _ | ⟨head, tail⟩ := hrest
  exact hi (renamed_of_path tail head.renames.2.1)

theorem Steps.publishes {a : Action ι} {d d' : Directory ι φ} (h : Steps writers a d d')
    (hd : Sound writers d) {last : Option ι} (hlast : Publishes writers last d.target) :
    Publishes writers (register a last) d'.target := by
  by_cases hrename : ∃ i, a = .act i .rename
  · obtain ⟨i, rfl⟩ := hrename
    obtain ⟨hready, -, htarget⟩ := h.renames
    have hholds := hd.holds i
    rw [hready] at hholds
    obtain ⟨whole, hwhole, htemp⟩ := hholds
    exact ⟨whole, hwhole, htarget.trans htemp⟩
  · by_cases hremove : a = .remove
    · subst hremove
      exact (target_of_remove h).1
    · have hother : ∀ i, a ≠ .act i .rename := fun i hi => hrename ⟨i, hi⟩
      rw [register_of_quiet hremove hother, h.target_eq hremove hother]
      exact hlast

/-- However the steps fall, the path is a register that the last rename or removal has set. -/
theorem publishes_of_path (h : Path (Steps writers) d actions d') (hd : Sound writers d)
    {last : Option ι} (hlast : Publishes writers last d.target) :
    Publishes writers (Transition.run register actions last) d'.target := by
  have hboth := h.refines (R := fun d last => Sound writers d ∧ Publishes writers last d.target)
    (fun _ _ _ _ hstep hstate => ⟨hstep.sound hstate.1, hstep.publishes hstate.1 hstate.2⟩)
    ⟨hd, hlast⟩
  exact hboth.2

/-- The steps of a writer that nothing stops. -/
def undisturbed : List Step := [.create, .finish, .chmod, .rename]

/-- Where a writer that has renamed its file leaves the directory. -/
def Directory.publishedBy (d : Directory ι φ) (i : ι) (file : φ) : Directory ι φ :=
  { target := some file
    temp := Function.update d.temp i none
    phase := Function.update d.phase i .renamed }

theorem path_undisturbed {i : ι} {file whole : φ} (hmade : (writers i).made = some file)
    (hwhole : (writers i).whole = some whole) (hidle : d.phase i = .idle) :
    Path (Steps writers) d (undisturbed.map (.act i))
      (d.publishedBy i ((writers i).chmod whole)) := by
  let stage (phase : Phase) (temp : φ) : Directory ι φ :=
    { d with
      temp := Function.update d.temp i (some temp)
      phase := Function.update d.phase i phase }
  have hcreate : Steps writers (.act i .create) d (stage .writing file) := by
    simp [Steps, step, advance, hidle, hmade, stage]
  have hfinish : Steps writers (.act i .finish) (stage .writing file) (stage .written whole) := by
    simp [Steps, step, advance, hwhole, stage]
  have hchmod : Steps writers (.act i .chmod) (stage .written whole)
      (stage .ready ((writers i).chmod whole)) := by
    simp [Steps, step, advance, stage]
  have hrename : Steps writers (.act i .rename) (stage .ready ((writers i).chmod whole))
      (d.publishedBy i ((writers i).chmod whole)) := by
    simp [Steps, step, advance, stage, Directory.publishedBy]
  exact .cons hcreate (.cons hfinish (.cons hchmod (.single hrename)))

end Posix.Publish
