import Ebabf.Bootstrap.Unit
import Ebabf.Py.Lines
import Ebabf.Py.Proc

/-!
# The unit command

`_unit_command` renders a unit, has systemd's own parser read it, and prints or installs it only
when that parser has nothing to say against it. A directive that systemd would leave out is looked
for in the lines of both its streams, which are split after they have been put together.
-/

namespace Ebabf

open Py (Str str Exc Proc pathStr pathRoot pathParts pathParent join splitlines strip)

/-- What becomes of `systemd-analyze verify` on a unit: it is not there, the temporary file cannot
be written, it cannot be run, or it has written to its two streams. -/
inductive Analysis
  | missing
  | unwritable (e : Exc)
  | notRun (e : Exc)
  | ran (stderr stdout : Str)

/-- How a line says that a directive would be left out, or that a part cannot be read. -/
def complaints : List Str := [str "Unknown key name", str "Failed to parse"]

def Complains (line : Str) : Prop := ∃ phrase ∈ complaints, phrase <:+: line

instance (line : Str) : Decidable (Complains line) :=
  inferInstanceAs (Decidable (∃ phrase ∈ complaints, phrase <:+: line))

/-- What makes a stripped line a problem, where `lower` is `str.lower`. -/
def IsProblem (lower : Str → Str) (line : Str) : Prop :=
  Complains line ∨ (str "not found" <:+: lower line ∧ ¬str ".service" <:+: line)

instance (lower : Str → Str) (line : Str) : Decidable (IsProblem lower line) :=
  inferInstanceAs (Decidable (_ ∨ _))

/-- `validate_unit` -/
def validateUnit (lower : Str → Str) : Analysis → Except Exc (List Str)
  | .missing => .ok [str "systemd-analyze not available; unit was not validated"]
  | .unwritable e => .error e
  | .notRun e => .ok [str "systemd-analyze could not be run: " ++ e.message]
  | .ran stderr stdout =>
    .ok (((splitlines (stderr ++ stdout)).map strip).filter fun line =>
      line ≠ [] ∧ IsProblem lower line)

/-- What the unit command meets: `shutil.which` and `sys.prefix`, the analyzer on a text under a
file name, and the file system at the path of the unit. -/
structure UnitEnv where
  which : Option Str
  sysPrefix : Str
  analyze : Str → Str → Analysis
  writeText : Str → Except Exc Unit
  lower : Str → Str

/-- `default_executable` -/
def defaultExecutable (env : UnitEnv) : Str :=
  match env.which.filter (· ≠ []) with
  | some found => pathStr found
  | none =>
    pathRoot env.sysPrefix ++
      join (str "/") (pathParts env.sysPrefix ++ [str "bin", str "ebabf-agent"])

/-- What the command does that is seen outside. -/
inductive UnitAction
  | stdout (text : Str)
  | stderr (text : Str)
  | write (path text : Str)

/-- The mode that `--mode` has been given. -/
def unitMode (args : Namespace) : UnitMode :=
  if args.mode = str "baseline" then .baseline else .run

/-- The spec of the command: the interval is the default one. -/
def commandSpec (env : UnitEnv) (args : Namespace) (eventDbPath : Str) : UnitSpec :=
  unitSpec (unitMode args) args.user args.db (defaultExecutable env) (pathParent eventDbPath) 30.0

def unitTarget (spec : UnitSpec) : Str := str "/etc/systemd/system/" ++ spec.filename

/-- Problems: they are listed, and nothing is emitted. -/
def refuse (problems : List Str) : Proc UnitAction Unit ℕ := fun s =>
  ⟨.ok 1, [.stderr (str "systemd did not accept this unit:")] ++
    problems.map (fun problem => .stderr (str "  " ++ problem)) ++
    [.stderr (str "refusing to emit an unvalidated unit")], s⟩

def printUnit (spec : UnitSpec) : Proc UnitAction Unit ℕ := fun s =>
  ⟨.ok 0, [.stdout (renderUnit spec),
    .stderr (str "# validated with systemd-analyze. To install:"),
    .stderr (str "#   sudo tee " ++ unitTarget spec ++ str " <<'EOF'"),
    .stderr (str "#   ... the text above ..."),
    .stderr (str "#   EOF"),
    .stderr (str "#   sudo systemctl daemon-reload"),
    .stderr (str "#   sudo systemctl enable --now " ++ spec.name)], s⟩

/-- `--install`: an `OSError` of the write is reported. -/
def installUnit (env : UnitEnv) (spec : UnitSpec) : Proc UnitAction Unit ℕ := fun s =>
  match env.writeText (unitTarget spec) with
  | .error e =>
    ⟨.ok 1, [.stderr (str "could not write " ++ unitTarget spec ++ str ": " ++ e.message)], s⟩
  | .ok _ =>
    ⟨.ok 0, [.write (unitTarget spec) (renderUnit spec),
      .stdout (str "wrote " ++ unitTarget spec),
      .stdout (str "now run: systemctl daemon-reload && systemctl enable --now " ++ spec.name)], s⟩

/-- `_unit_command`, where the database of the configuration is at `eventDbPath`. -/
def unitCommand (env : UnitEnv) (args : Namespace) (eventDbPath : Str) :
    Proc UnitAction Unit ℕ := do
  let spec := commandSpec env args eventDbPath
  let problems ← Proc.lift (validateUnit env.lower (env.analyze (renderUnit spec) spec.filename))
  if problems ≠ [] then refuse problems
  else if !args.install then printUnit spec
  else installUnit env spec

/-- The analyzer has read the unit, and no line of either stream complains. -/
def Vetted (analysis : Analysis) : Prop :=
  ∃ stderr stdout, analysis = .ran stderr stdout ∧
    ∀ line, line ∈ splitlines stderr ∨ line ∈ splitlines stdout → ¬Complains line

theorem ends_of_complaint {phrase : Str} (h : phrase ∈ complaints) : phrase ≠ [] ∧
    (∀ c ∈ phrase.head?, c.isSpace = false) ∧ ∀ c ∈ phrase.getLast?, c.isSpace = false := by
  rcases List.mem_pair.mp h with rfl | rfl <;>
  · refine ⟨nofun, ?_, ?_⟩ <;>
    · rintro c ⟨⟩
      rfl

/-- A complaint in a line is still there in the line it ends up in, and when that is stripped. -/
theorem complains_strip {stderr stdout line : Str}
    (hline : line ∈ splitlines stderr ∨ line ∈ splitlines stdout) (h : Complains line) :
    ∃ joined ∈ splitlines (stderr ++ stdout), strip joined ≠ [] ∧ Complains (strip joined) := by
  obtain ⟨phrase, hphrase, hwithin⟩ := h
  obtain ⟨hne, hfirst, hlast⟩ := ends_of_complaint hphrase
  obtain ⟨joined, hmem, hjoined⟩ := Py.exists_line_containing hne ⟨line, hline, hwithin⟩
  have hstripped := Py.infix_strip hjoined hfirst hlast
  exact ⟨joined, hmem, hstripped.ne_nil hne, phrase, hphrase, hstripped⟩

theorem vetted_of_validateUnit {lower : Str → Str} {analysis : Analysis}
    (h : validateUnit lower analysis = .ok []) : Vetted analysis := by
  cases analysis with
  | missing => cases h
  | unwritable e => cases h
  | notRun e => cases h
  | ran stderr stdout =>
    refine ⟨stderr, stdout, rfl, ?_⟩
    intro line hline hcomplains
    obtain ⟨joined, hmem, hne, hstripped⟩ := complains_strip hline hcomplains
    have hproblem : strip joined ∈ ([] : List Str) := by
      rw [← Except.ok.inj h]
      refine List.mem_filter.mpr ⟨List.mem_map_of_mem hmem, decide_eq_true ?_⟩
      exact ⟨hne, .inl hstripped⟩
    exact absurd hproblem List.not_mem_nil

/-- What a run of the command may do about a unit the analyzer has answered for. -/
structure Guards (spec : UnitSpec) (analysis : Analysis) (install : Bool)
    (ran : Py.Ran UnitAction Unit ℕ) : Prop where
  refused : ¬Vetted analysis →
    ran.outcome ≠ .ok 0 ∧ ∀ action ∈ ran.trace, ∃ line, action = .stderr line
  emitted : ran.outcome = .ok 0 →
    if install then .write (unitTarget spec) (renderUnit spec) ∈ ran.trace
    else .stdout (renderUnit spec) ∈ ran.trace
  written : ∀ path text, .write path text ∈ ran.trace →
    path = unitTarget spec ∧ text = renderUnit spec

section

variable {spec : UnitSpec} {analysis : Analysis}

theorem guards_refuse (problems : List Str) (install : Bool) :
    Guards spec analysis install (refuse problems ()) := by
  have hstderr : ∀ action ∈ (refuse problems ()).trace, ∃ line, action = .stderr line := by
    intro action haction
    rcases List.mem_append.mp haction with hfirst | hlast
    · rcases List.mem_append.mp hfirst with hhead | hproblem
      · exact ⟨_, List.mem_singleton.mp hhead⟩
      · obtain ⟨problem, -, rfl⟩ := List.mem_map.mp hproblem
        exact ⟨_, rfl⟩
    · exact ⟨_, List.mem_singleton.mp hlast⟩
  refine ⟨fun _ => ⟨nofun, hstderr⟩, nofun, ?_⟩
  intro path text hwrite
  obtain ⟨line, hline⟩ := hstderr _ hwrite
  cases hline

theorem guards_printUnit (h : Vetted analysis) :
    Guards spec analysis false (printUnit spec ()) := by
  refine ⟨fun hnot => absurd h hnot, fun _ => List.mem_cons_self, ?_⟩
  intro path text hwrite
  simp [printUnit] at hwrite

theorem guards_installUnit (h : Vetted analysis) (env : UnitEnv) :
    Guards spec analysis true (installUnit env spec ()) := by
  refine ⟨fun hnot => absurd h hnot, ?_, ?_⟩ <;>
    unfold installUnit <;> cases env.writeText (unitTarget spec) with
    | error e => simp
    | ok _ => simp

end

/-- The command lets out the text that has been analyzed, to where it was asked to, and only when
no line on either stream complains of it; otherwise it fails, and writes to standard error alone. -/
theorem unitCommand_guards (env : UnitEnv) (args : Namespace) (eventDbPath : Str) :
    let spec := commandSpec env args eventDbPath
    Guards spec (env.analyze (renderUnit spec) spec.filename) args.install
      (unitCommand env args eventDbPath ()) := by
  intro spec
  have hcommand : unitCommand env args eventDbPath =
      (Proc.lift (validateUnit env.lower (env.analyze (renderUnit spec) spec.filename)) >>=
        fun problems => if problems ≠ [] then refuse problems
          else if !args.install then printUnit spec else installUnit env spec) := rfl
  rw [hcommand]
  cases hproblems : validateUnit env.lower (env.analyze (renderUnit spec) spec.filename) with
  | error e =>
    rw [Proc.lift_error_bind]
    exact ⟨fun _ => ⟨nofun, nofun⟩, nofun, nofun⟩
  | ok problems =>
    rw [Proc.lift_ok_bind]
    by_cases hrefused : problems = []
    · have hvetted : Vetted (env.analyze (renderUnit spec) spec.filename) :=
        vetted_of_validateUnit (hrefused ▸ hproblems)
      rw [if_neg (not_not.mpr hrefused)]
      cases args.install with
      | false => exact guards_printUnit hvetted
      | true => exact guards_installUnit hvetted env
    · rw [if_pos hrefused]
      exact guards_refuse problems args.install

end Ebabf
