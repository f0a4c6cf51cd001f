import Ebabf.Packaging
import Ebabf.Py.Argparse
import Ebabf.Py.Path
import Ebabf.Systemd.Words

/-!
# The service and its command line

`main` builds the parser and `_unit_command` the unit whose command line that parser gets to read.
`exec_start` writes `--interval` after the subcommand, where no parser knows it.
-/

namespace Ebabf

open Py (Str str pathStr floatRepr ReprText IsReprChar)
open Py.Argparse (OptionSpec Subcommand Kind helpOption classify parseArgs parseOptions equals
  doubleDash)
open Systemd (Escapes splitWords space dash)
open Systemd.Split (Plain PlainWord words weight dashes)

/-- `float` and `int` on text, and the decimal digits beyond ASCII. -/
structure Conversions where
  float : Str → Option Float
  int : Str → Option ℤ
  beyondAscii : Py.CodePoint → Bool

/-- `args`. A path stands for itself as text; an attribute that only other subcommands set has its
default. -/
structure Namespace where
  interval : Float := 30.0
  only : Option (List Str) := none
  maxEvents : Option ℤ := none
  db : Option Str := none
  gapMinutes : Float := 600.0 / 60
  json : Bool := false
  mode : Str := str "run"
  user : Str := str "root"
  install : Bool := false

/-- An option with one argument. -/
def oneValue (flag : String) (store : Str → Namespace → Option Namespace) :
    OptionSpec Namespace :=
  { flags := [str flag]
    arity := .one
    store := fun values ns => values.head?.bind fun value => store value ns }

/-- An option that `store_true` belongs to. -/
def storeTrue (flag : String) (store : Namespace → Namespace) : OptionSpec Namespace :=
  { flags := [str flag]
    arity := .zero
    store := fun _ ns => some (store ns) }

def dbOption : OptionSpec Namespace :=
  oneValue "--db" fun value ns => some { ns with db := some (pathStr value) }

variable (conv : Conversions)

/-- The options declared on the parser itself. -/
def mainOptions : List (OptionSpec Namespace) :=
  [helpOption,
    oneValue "--interval" fun value ns => (conv.float value).map fun x => { ns with interval := x },
    { flags := [str "--only"]
      arity := .many
      store := fun values ns => some { ns with only := some values } },
    oneValue "--max-events" fun value ns =>
      (conv.int value).map fun n => { ns with maxEvents := some n }]

def runParser : Subcommand Namespace :=
  { name := str "run"
    specs := [helpOption]
    defaults := id }

def baselineParser : Subcommand Namespace :=
  { name := str "baseline"
    specs := [helpOption, dbOption]
    defaults := fun ns => { ns with db := some (str "baseline.db") } }

def coverageParser : Subcommand Namespace :=
  { name := str "coverage"
    specs := [helpOption]
    defaults := id }

def statusParser : Subcommand Namespace :=
  { name := str "status"
    specs := [helpOption, dbOption,
      oneValue "--gap-minutes" fun value ns =>
        (conv.float value).map fun x => { ns with gapMinutes := x },
      storeTrue "--json" fun ns => { ns with json := true }]
    defaults := fun ns => { ns with db := none, gapMinutes := 600.0 / 60, json := false } }

def unitParser : Subcommand Namespace :=
  { name := str "unit"
    specs := [helpOption,
      oneValue "--mode" fun value ns =>
        if value ∈ [str "run", str "baseline"] then some { ns with mode := value } else none,
      oneValue "--user" fun value ns => some { ns with user := value },
      dbOption,
      storeTrue "--install" fun ns => { ns with install := true }]
    defaults := fun ns =>
      { ns with db := none, mode := str "run", user := str "root", install := false } }

def subcommands : List (Subcommand Namespace) :=
  [runParser, baselineParser, coverageParser, statusParser conv, unitParser]

/-- `parser.parse_args`: the subcommand and the namespace, or nothing where it exits. -/
def parseMain (args : List Str) : Option (Str × Namespace) :=
  parseArgs conv.beyondAscii (mainOptions conv) (subcommands conv) args {}

-- before the subcommand the interval is read
example (x : Float) : parseMain ⟨fun _ => some x, fun _ => none, fun _ => false⟩
    [str "--interval", str "15.0", str "run"] = some (str "run", { interval := x }) := rfl

/-- The choices of `--mode`. -/
inductive UnitMode
  | run | baseline
deriving DecidableEq

def UnitMode.value : UnitMode → Str
  | .run => str "run"
  | .baseline => str "baseline"

/-- The database a baseline unit names, where `db` is what `--db` was given. -/
def unitDb (db : Option Str) : Str := pathStr (db.getD (str "/var/lib/ebabf/baseline.db"))

/-- `extra` -/
def UnitMode.extraArgs (mode : UnitMode) (db : Option Str) : List Str :=
  if mode = .baseline then [str "--db", unitDb db] else []

/-- The spec `_unit_command` builds, with the interval left open. -/
def unitSpec (mode : UnitMode) (user : Str) (db : Option Str)
    (executable workingDirectory : Str) (interval : Float) : UnitSpec :=
  { name := if mode = .baseline then str "ebabf-baseline" else str "ebabf-agent"
    description :=
      if mode = .baseline then str "EB-ABF benign baseline recording"
      else str "EB-ABF behavioural firewall agent"
    executable
    command := mode.value
    interval
    user
    workingDirectory
    extraArgs := mode.extraArgs db }

/-- The service runs what the unit describes: the words of `exec_start` after the executable are
arguments that `main` accepts, with the unit's mode, interval and, for a baseline, database. -/
def StartsAgent (esc : Escapes) (mode : UnitMode) (db : Option Str) (spec : UnitSpec) : Prop :=
  ∃ executable args ns, splitWords esc spec.execStart = some (executable :: args) ∧
    parseMain conv args = some (mode.value, ns) ∧ ns.interval = spec.interval ∧
    (mode = .baseline → ns.db = some (unitDb db))

theorem plain_of_isReprChar {c : Py.CodePoint} (h : IsReprChar c) : Plain c := by
  have hne : ∀ d, ¬IsReprChar d → c ≠ d := fun d hd heq => hd (heq ▸ h)
  refine ⟨?_, ?_, hne _ (by decide)⟩
  · simp only [Systemd.isWhitespace, hne space (by decide), hne (.ofChar '\t') (by decide),
      hne (.ofChar '\n') (by decide), hne (.ofChar '\r') (by decide), decide_false, Bool.or_self]
  · simp only [Systemd.isQuote, hne (.ofChar '"') (by decide), hne (.ofChar '\'') (by decide),
      decide_false, Bool.or_self]

theorem plainWord_floatRepr (x : Float) : PlainWord (floatRepr x) :=
  ⟨Py.floatRepr_ne_nil x, fun c hc => plain_of_isReprChar (Py.reprText_floatRepr x c hc)⟩

theorem plainWord_mode (mode : UnitMode) : PlainWord mode.value := by
  cases mode
  · decide
  · decide

theorem floatRepr_ne_mode (x : Float) (mode : UnitMode) : floatRepr x ≠ mode.value := by
  intro h
  have hrepr := Py.reprText_floatRepr x
  rw [h] at hrepr
  cases mode
  · exact absurd hrepr (by decide)
  · exact absurd hrepr (by decide)

/-- What `exec_start` writes after the executable. -/
def afterExecutable (command : Str) (interval : Float) (extraArgs : List Str) : Str :=
  command ++ space :: (str "--interval" ++ space ::
    (floatRepr interval ++ extraArgs.flatMap fun arg => space :: arg))

theorem execStart_eq (spec : UnitSpec) : spec.execStart =
    spec.executable ++ space :: afterExecutable spec.command spec.interval spec.extraArgs := by
  rw [UnitSpec.execStart, List.cons_append, Py.join_cons]
  rfl

variable {esc : Escapes}

theorem words_unquoted {st : Systemd.Split} (hquote : st.quote = none) (hskip : st.skip = 0)
    {mode : UnitMode} {db : Option Str} {interval : Float} {ws : List Str}
    (h : words esc (space :: afterExecutable mode.value interval (mode.extraArgs db)) st =
      some ws) :
    ∃ front post, front ≠ [] ∧ ws = front ++ str "--interval" :: floatRepr interval :: post ∧
      ∀ arg ∈ post.head?, arg = str "--db" := by
  have hinterval : PlainWord (str "--interval") := by decide
  obtain ⟨front, hfront, hwords⟩ := Systemd.Split.words_unquoted esc hquote hskip
    (plainWord_mode mode) (str "--interval" ++ space ::
      (floatRepr interval ++ (mode.extraArgs db).flatMap fun arg => space :: arg))
  rw [afterExecutable, hwords, Systemd.Split.words_word hinterval] at h
  cases mode with
  | run =>
    have htail : (UnitMode.run.extraArgs db).flatMap (fun arg => space :: arg) = [] := rfl
    rw [htail, List.append_nil, Systemd.Split.words_end (plainWord_floatRepr interval)] at h
    cases h
    exact ⟨front, [], hfront, rfl, nofun⟩
  | baseline =>
    have htail : (UnitMode.baseline.extraArgs db).flatMap (fun arg => space :: arg) =
        space :: (str "--db" ++ space :: unitDb db) := by
      simp [UnitMode.extraArgs]
    have hdb : PlainWord (str "--db") := by decide
    rw [htail, Systemd.Split.words_word (plainWord_floatRepr interval),
      Systemd.Split.words_word hdb] at h
    simp only [Option.map_map, Option.map_eq_some_iff] at h
    obtain ⟨later, -, rfl⟩ := h
    exact ⟨front, str "--db" :: later, hfront, rfl, fun arg harg => (Option.mem_some.mp harg).symm⟩

/-- The parser a unit's mode belongs to. -/
def UnitMode.subcommand : UnitMode → Subcommand Namespace
  | .run => runParser
  | .baseline => baselineParser

variable {conv}

theorem eq_subcommand {subcommand : Subcommand Namespace} (mode : UnitMode)
    (hmem : subcommand ∈ subcommands conv) (hname : subcommand.name = mode.value) :
    subcommand = mode.subcommand := by
  simp only [subcommands, List.mem_cons, List.not_mem_nil, or_false] at hmem
  have hother : str "coverage" ≠ mode.value ∧ str "status" ≠ mode.value ∧
      str "unit" ≠ mode.value := by
    cases mode
    · decide
    · decide
  rcases hmem with rfl | rfl | rfl | rfl | rfl
  · cases mode
    · rfl
    · exact absurd hname (by decide)
  · cases mode
    · exact absurd hname (by decide)
    · rfl
  · exact absurd hname hother.1
  · exact absurd hname hother.2.1
  · exact absurd hname hother.2.2

theorem interval_refused (mode : UnitMode) :
    classify conv.beyondAscii mode.subcommand.specs (str "--interval") = .refused := by
  cases mode
  · rfl
  · rfl

/-- An interval after the subcommand is not parsed. -/
theorem parseMain_of_interval (pre post : List Str) {interval : Float} {mode : UnitMode}
    (hpost : ∀ arg ∈ post.head?, arg = str "--db") (ns : Namespace) :
    parseMain conv (pre ++ str "--interval" :: floatRepr interval :: post) ≠
      some (mode.value, ns) := by
  intro h
  obtain ⟨before, separator, after, subcommand, ns', hargs, hbefore, hseparator, hmem, hname,
    hafter⟩ := Py.Argparse.parsed_parseArgs h
  obtain rfl := eq_subcommand mode hmem hname
  dsimp only at hargs
  have hfront : str "--db" ∉ before ++ separator := by
    intro hin
    rcases List.mem_append.mp hin with hin | hin
    · exact hbefore _ hin rfl
    · exact absurd (hseparator _ hin) (by decide)
  have hrest : str "--interval" ∉ after := by
    intro hin
    obtain ⟨consumed, hconsumed, hknown⟩ := Py.Argparse.parseOptions_consumes hafter
    rw [List.append_nil] at hconsumed
    rw [hconsumed] at hin
    exact (hknown _ hin).2 (interval_refused mode)
  have hmode : mode.value ≠ str "--interval" ∧ mode.value ≠ str "--db" := by
    cases mode
    · decide
    · decide
  rcases List.append_eq_append_iff.mp hargs with ⟨xs, hpre, hlater⟩ | ⟨xs, hpre, hlater⟩
  · -- the subcommand stands at the flag or after it
    rcases xs with _ | ⟨x, _ | ⟨y, _ | ⟨z, xs⟩⟩⟩
    · exact hmode.1 (List.cons.inj hlater).1.symm
    · exact floatRepr_ne_mode interval mode (List.cons.inj (List.cons.inj hlater).2).1
    · have hhead := (List.cons.inj (List.cons.inj hlater).2).2
      exact hmode.2 (hpost mode.value (by rw [hhead]; rfl))
    · have hhead := (List.cons.inj (List.cons.inj hlater).2).2
      have hz : z = str "--db" := hpost z (by rw [hhead]; rfl)
      rw [hpre, hz] at hfront
      exact hfront (by simp)
  · -- the flag stands after the subcommand
    rcases xs with _ | ⟨x, xs⟩
    · exact hmode.1 (List.cons.inj hlater).1
    · rw [(List.cons.inj hlater).2] at hrest
      exact hrest (by simp)

theorem slashAdditive_weight : Py.SlashAdditive weight where
  slash s t := by
    rw [Systemd.Split.weight_append, Systemd.Split.weight_cons]
    have hslash : weight [Py.slash] = 0 := by decide
    rw [hslash, Nat.zero_add]
  nil := rfl
  dot := by decide

theorem slashAdditive_dashes : Py.SlashAdditive dashes where
  slash := Systemd.Split.dashes_append_cons (by decide) (by decide)
  nil := rfl
  dot := by decide

/-- Text that leaves a quote as it is. -/
def QuoteFree (s : Str) : Prop := ∀ c ∈ s, Systemd.isQuote c = false ∧ c ≠ Systemd.backslash

theorem quoteFree_append {s t : Str} : QuoteFree (s ++ t) ↔ QuoteFree s ∧ QuoteFree t :=
  List.forall_mem_append

theorem quoteFree_of_plainWord {s : Str} (h : PlainWord s) : QuoteFree s :=
  fun c hc => (h.plain c hc).2

theorem quoteFree_space : QuoteFree [space] := by
  intro c hc
  rw [List.mem_singleton.mp hc]
  decide

theorem afterExecutable_eq (command : Str) (interval : Float) (extraArgs : List Str) :
    afterExecutable command interval extraArgs =
      command ++ [space] ++ str "--interval" ++ [space] ++ floatRepr interval ++
        extraArgs.flatMap fun arg => space :: arg := by
  simp [afterExecutable]

theorem quoteFree_afterExecutable (mode : UnitMode) (interval : Float) :
    QuoteFree (afterExecutable mode.value interval []) := by
  have hinterval : PlainWord (str "--interval") := by decide
  rw [afterExecutable_eq]
  simp only [quoteFree_append, quoteFree_space, quoteFree_of_plainWord (plainWord_mode mode),
    quoteFree_of_plainWord hinterval, quoteFree_of_plainWord (plainWord_floatRepr interval),
    true_and]
  exact fun c hc => absurd hc List.not_mem_nil

theorem notMem_of_quoteFree {q : Systemd.Quote} {s : Str} (h : QuoteFree s) : q.val ∉ s := by
  intro hq
  have hfree := (h _ hq).1
  rw [q.property] at hfree
  cases hfree

theorem dashes_of_flags (before between after : Str) : 2 ≤ dashes (before ++
    ((space :: str "--interval") ++ (between ++ ((space :: str "--db") ++ after)))) := by
  have hinterval : dashes (space :: str "--interval") = 1 := by decide
  have hdb : dashes (space :: str "--db") = 1 := by decide
  have h₁ := Systemd.Split.dashes_append_le (space :: str "--db") after
  have h₂ := Systemd.Split.dashes_append_le between ((space :: str "--db") ++ after)
  have h₃ := Systemd.Split.dashes_append_le (space :: str "--interval")
    (between ++ ((space :: str "--db") ++ after))
  have h₄ := Systemd.Split.dashes_append_le before
    ((space :: str "--interval") ++ (between ++ ((space :: str "--db") ++ after)))
  omega

theorem words_quoted {st : Systemd.Split} {q : Systemd.Quote} (hquote : st.quote = some q)
    (hskip : st.skip = 0) {mode : UnitMode} {db : Option Str} {interval : Float} {ws : List Str}
    (h : words esc (space :: afterExecutable mode.value interval (mode.extraArgs db)) st =
      some ws) :
    mode = .baseline ∧ q.val ∈ unitDb db ∧ ∃ acc, 2 ≤ dashes acc ∧
      words esc (unitDb db) { quote := some q, word := some acc } = some ws := by
  have hfree := quoteFree_afterExecutable mode interval
  rw [Systemd.Split.words_quoted_space hquote hskip] at h
  cases mode with
  | run =>
    have hextra : UnitMode.run.extraArgs db = [] := rfl
    rw [hextra, Systemd.Split.words_unclosed rfl (notMem_of_quoteFree hfree)] at h
    cases h
  | baseline =>
    have hbefore : afterExecutable UnitMode.baseline.value interval
        (UnitMode.baseline.extraArgs db) =
        afterExecutable UnitMode.baseline.value interval [] ++ [space] ++ str "--db" ++ [space] ++
          unitDb db := by
      simp [afterExecutable, UnitMode.extraArgs]
    have hdb : PlainWord (str "--db") := by decide
    have hmiddle : QuoteFree (afterExecutable UnitMode.baseline.value interval [] ++ [space] ++
        str "--db" ++ [space]) := by
      simp only [quoteFree_append, hfree, quoteFree_space, quoteFree_of_plainWord hdb, true_and]
    rw [hbefore, Systemd.Split.words_quoted hmiddle] at h
    refine ⟨rfl, ?_, _, ?_, h⟩
    · by_contra hnot
      rw [Systemd.Split.words_unclosed rfl hnot] at h
      cases h
    · have hflags := dashes_of_flags (st.text ++ [space] ++ UnitMode.baseline.value)
        (space :: floatRepr interval) [space]
      convert hflags using 2
      simp [afterExecutable]

/-- What is left of the options of `baseline` is the default, or ends the arguments. -/
theorem db_of_parseMain {args : List Str} {ns : Namespace}
    (h : parseMain conv args = some (UnitMode.baseline.value, ns)) :
    ns.db = some (str "baseline.db") ∨ ∃ last ∈ args.getLast?, ∃ value,
      ns.db = some (pathStr value) ∧ (value = last ∨
        ∃ start, start <+: str "--db" ∧ last = start ++ equals :: value) := by
  obtain ⟨before, separator, after, subcommand, ns', hargs, -, -, hmem, hname, hafter⟩ :=
    Py.Argparse.parsed_parseArgs h
  obtain rfl : subcommand = baselineParser := eq_subcommand .baseline hmem hname
  rcases List.eq_nil_or_concat after with rfl | ⟨front, last, rfl⟩
  · obtain ⟨ns'', hfinish, heq⟩ := Option.map_eq_some_iff.mp hafter
    cases hfinish
    cases heq
    exact .inl rfl
  · rw [List.concat_eq_append] at hafter hargs
    have hone : ∀ spec ∈ baselineParser.specs, spec.arity = .one ∨ spec.arity = .help := by
      intro spec hspec
      rcases List.mem_cons.mp hspec with rfl | hspec
      · exact .inr rfl
      · rw [List.mem_singleton.mp hspec]
        exact .inl rfl
    obtain ⟨spec, hspec, value, ns₁, hstore, hvalue⟩ :=
      Py.Argparse.parseOptions_last hone
        (fun _ hp => absurd hp (Option.not_mem_none _)) hafter
    refine .inr ⟨last, ?_, value, ?_⟩
    · rw [hargs, ← List.cons_append, ← List.append_assoc, List.getLast?_concat]
      rfl
    · rcases List.mem_cons.mp hspec with rfl | hspec
      · cases hstore
      · obtain rfl := List.mem_singleton.mp hspec
        cases hstore
        refine ⟨rfl, hvalue.imp_right fun hkind => ?_⟩
        obtain ⟨flag, hflag, start, hstart, hlast⟩ :=
          Py.Argparse.eq_of_classify hkind fun flag hflag => by
            rw [List.mem_singleton.mp hflag]
            decide
        rw [List.mem_singleton.mp hflag] at hstart
        exact ⟨start, hstart, hlast⟩

theorem measures_of_flag {value start : Str} (hstart : start <+: str "--db") :
    dashes (start ++ equals :: value) = dashes value ∧
      weight value ≤ weight (start ++ equals :: value) := by
  have hspace : space ∉ start := fun hmem => absurd (hstart.subset hmem) (by decide)
  rw [Systemd.Split.dashes_append_cons (by decide) (by decide),
    Systemd.Split.dashes_eq_zero hspace, Systemd.Split.weight_append, Systemd.Split.weight_cons]
  omega

theorem db_ne_of_quoted {q : Systemd.Quote} {acc program : Str} {done ws args : List Str}
    {db : Option Str} {ns : Namespace} (hq : q.val ∈ unitDb db) (hacc : 2 ≤ dashes acc)
    (hws : words esc (unitDb db) { quote := some q, word := some acc } = some ws)
    (hargs : done ++ ws = program :: args)
    (hparse : parseMain conv args = some (UnitMode.baseline.value, ns)) :
    ns.db ≠ some (unitDb db) := by
  intro hdb
  rcases db_of_parseMain hparse with hdefault | ⟨last, hlast, value, hvalue, hform⟩
  · rw [hdefault, Option.some.injEq] at hdb
    rw [← hdb] at hq
    have hplain : PlainWord (str "baseline.db") := by decide
    exact notMem_of_quoteFree (quoteFree_of_plainWord hplain) hq
  · rw [hvalue, Option.some.injEq] at hdb
    have hdashes : dashes value = dashes (unitDb db) := by
      rw [← hdb, slashAdditive_dashes.pathStr]
    have hweight : weight value = weight (unitDb db) := by
      rw [← hdb, slashAdditive_weight.pathStr]
    have hmeasures : dashes last = dashes value ∧ weight value ≤ weight last := by
      rcases hform with rfl | ⟨start, hstart, rfl⟩
      · exact ⟨rfl, le_rfl⟩
      · exact measures_of_flag hstart
    have hend : last ∈ ws.getLast? := by
      have hwhole : (done ++ ws).getLast? = some last := by
        rw [hargs, List.getLast?_cons, Option.mem_def.mp hlast]
        rfl
      obtain ⟨more, rest, rfl⟩ := Systemd.Split.words_of_word rfl hws
      rw [List.getLast?_append, List.getLast?_cons, Option.some_or] at hwhole
      rw [List.getLast?_cons]
      exact hwhole
    rcases Systemd.Split.last_of_quoted hws hend with h | h
    · omega
    · omega

/-- No unit starts the agent it describes. -/
theorem not_startsAgent (esc : Escapes) (conv : Conversions) (mode : UnitMode) (user : Str)
    (db : Option Str) (executable workingDirectory : Str) (interval : Float) :
    ¬StartsAgent conv esc mode db
      (unitSpec mode user db executable workingDirectory interval) := by
  rintro ⟨program, args, ns, hwords, hparse, -, hdb⟩
  rw [execStart_eq, splitWords] at hwords
  obtain ⟨done, st, hskip, hsplit⟩ := Systemd.Split.words_append_space esc executable
    (afterExecutable mode.value interval (mode.extraArgs db))
  obtain ⟨ws, hws, hargs⟩ := Option.map_eq_some_iff.mp (hsplit.symm.trans hwords)
  cases hquote : st.quote with
  | none =>
    obtain ⟨front, post, hfront, rfl, hpost⟩ := words_unquoted hquote hskip hws
    obtain ⟨first, pre, hpre⟩ : ∃ first pre, done ++ front = first :: pre :=
      List.exists_cons_of_ne_nil (List.append_ne_nil_of_right_ne_nil _ hfront)
    rw [← List.append_assoc, hpre, List.cons_append, List.cons.injEq] at hargs
    rw [← hargs.2] at hparse
    exact parseMain_of_interval _ _ hpost ns hparse
  | some q =>
    obtain ⟨rfl, hq, acc, hacc, hrest⟩ := words_quoted hquote hskip hws
    exact db_ne_of_quoted hq hacc hrest hargs hparse (hdb rfl)

/-- The unit of a plain install does not start. -/
theorem unit_not_started : ¬∃ (esc : Escapes) (conv : Conversions), ∀ (mode : UnitMode)
    (user : Str) (db : Option Str) (executable workingDirectory : Str) (interval : Float),
    StartsAgent conv esc mode db
      (unitSpec mode user db executable workingDirectory interval) := by
  rintro ⟨esc, conv, h⟩
  obtain ⟨program, args, ns, hwords, hparse, -⟩ := h .run (str "root") none
    (str "/usr/local/bin/ebabf-agent") (str "/var/lib/ebabf") 30.0
  have hexecutable : PlainWord (str "/usr/local/bin/ebabf-agent") := by decide
  have hinterval : PlainWord (str "--interval") := by decide
  have hargs : splitWords esc (unitSpec .run (str "root") none
      (str "/usr/local/bin/ebabf-agent") (str "/var/lib/ebabf") 30.0).execStart =
      some [str "/usr/local/bin/ebabf-agent", str "run", str "--interval", floatRepr 30.0] := by
    rw [execStart_eq, splitWords]
    dsimp only [unitSpec, UnitMode.extraArgs]
    rw [Systemd.Split.words_word hexecutable, afterExecutable,
      Systemd.Split.words_word (plainWord_mode .run), Systemd.Split.words_word hinterval]
    simp only [reduceCtorEq, ↓reduceIte, List.flatMap_nil, List.append_nil,
      Systemd.Split.words_end (plainWord_floatRepr 30.0), Option.map_some]
    rfl
  rw [hargs, Option.some.injEq, List.cons.injEq] at hwords
  rw [← hwords.2] at hparse
  exact parseMain_of_interval [str "run"] [] nofun ns hparse

end Ebabf
