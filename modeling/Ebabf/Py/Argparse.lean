import Ebabf.Py.Text

/-!
# Command-line parsing

The part of `argparse` that two-level parsers use: options, abbreviated or with `=`, then a
subcommand to which everything after it belongs. Whatever makes `parse_args` exit is no result.
-/

namespace Py.Argparse

def dash : CodePoint := CodePoint.ofChar '-'

def equals : CodePoint := CodePoint.ofChar '='

def doubleDash : Str := str "--"

/-- How many arguments an option takes; `help` prints and exits. -/
inductive Arity
  | zero | one | many | help
deriving DecidableEq

/-- An option of a parser whose namespaces are `ν`. Storing fails when the type or the choices
refuse an argument. -/
structure OptionSpec (ν : Type) where
  flags : List Str
  arity : Arity
  store : List Str → ν → Option ν

variable {ν : Type}

/-- `-h`, `--help`, which every parser has. -/
def helpOption : OptionSpec ν :=
  { flags := [str "-h", str "--help"]
    arity := .help
    store := fun _ _ => none }

/-- What an argument is taken for. -/
inductive Kind (ν : Type)
  | positional
  | option (spec : OptionSpec ν) (explicit : Option Str)
  /-- an option no flag matches, or more than one -/
  | refused

/-- `arg.split("=", 1)`, if there is a `=`. -/
def splitEquals : Str → Option (Str × Str)
  | [] => none
  | c :: rest =>
    if c = equals then some ([], rest)
    else (splitEquals rest).map fun parts => (c :: parts.1, parts.2)

/-- `_get_option_tuples`: the options an abbreviation may stand for. -/
def optionTuples (specs : List (OptionSpec ν)) (arg : Str) :
    List (OptionSpec ν × Option Str) :=
  let flags := specs.flatMap fun spec => spec.flags.map fun flag => (spec, flag)
  if arg.take 2 = doubleDash then
    match splitEquals arg with
    | some (start, explicit) =>
      (flags.filter fun entry => start.isPrefixOf entry.2).map fun entry =>
        (entry.1, some explicit)
    | none => (flags.filter fun entry => arg.isPrefixOf entry.2).map fun entry => (entry.1, none)
  else
    flags.filterMap fun entry =>
      if entry.2 = arg.take 2 then some (entry.1, some (arg.drop 2))
      else if arg.isPrefixOf entry.2 then some (entry.1, none)
      else none

variable (beyondAscii : CodePoint → Bool)

/-- `\d`: the ASCII digits, and the decimal digits `beyondAscii` knows. -/
def isDecimal (c : CodePoint) : Bool :=
  (0x30 ≤ c.val && c.val ≤ 0x39) || (0x80 ≤ c.val && beyondAscii c)

/-- `_negative_number_matcher`: `^-\d+$|^-\d*\.\d+$`, where `$` also matches before a final
newline. -/
def looksNegative (arg : Str) : Bool :=
  let body := if arg.getLast? = some (CodePoint.ofChar '\n') then arg.dropLast.drop 1
    else arg.drop 1
  let fraction := body.dropWhile (isDecimal beyondAscii)
  arg.head? = some dash && body != [] &&
    (fraction == [] ||
      fraction.head? == some (CodePoint.ofChar '.') && fraction.drop 1 != [] &&
        (fraction.drop 1).all (isDecimal beyondAscii))

/-- `_parse_optional`, in a parser none of whose flags looks like a negative number. -/
def classify (specs : List (OptionSpec ν)) (arg : Str) : Kind ν :=
  if arg.head? ≠ some dash then .positional
  else
    match specs.find? fun spec => arg ∈ spec.flags with
    | some spec => .option spec none
    | none =>
      if arg.length = 1 then .positional
      else
        match (splitEquals arg).bind fun (flag, explicit) =>
          (specs.find? fun spec => flag ∈ spec.flags).map fun spec => (spec, explicit) with
        | some (spec, explicit) => .option spec (some explicit)
        | none =>
          match optionTuples specs arg with
          | [(spec, explicit)] => .option spec explicit
          | _ :: _ :: _ => .refused
          | [] =>
            if looksNegative beyondAscii arg ∨ CodePoint.ofChar ' ' ∈ arg then .positional
            else .refused

/-- An option whose arguments are being collected. -/
abbrev Pending (ν : Type) := Option (OptionSpec ν × List Str)

namespace Pending

/-- The option with one argument more, if it takes one. -/
def take (pending : Pending ν) (arg : Str) : Option (OptionSpec ν × List Str) :=
  match pending with
  | none => none
  | some (spec, values) =>
    match spec.arity with
    | .many => some (spec, values ++ [arg])
    | .one => if values = [] then some (spec, [arg]) else none
    | .zero | .help => none

/-- The option has all its arguments. -/
def finish (pending : Pending ν) (ns : ν) : Option ν :=
  match pending with
  | none => some ns
  | some (spec, values) =>
    match spec.arity with
    | .zero | .many => spec.store values ns
    | .one => if values = [] then none else spec.store values ns
    | .help => none

end Pending

/-- The options at the beginning, and the arguments from the first positional one on. -/
def parseOptions (specs : List (OptionSpec ν)) :
    List Str → Pending ν → ν → Option (ν × List Str)
  | [], pending, ns => (pending.finish ns).map fun ns => (ns, [])
  | arg :: rest, pending, ns =>
    if arg = doubleDash then (pending.finish ns).map fun ns => (ns, arg :: rest)
    else
      match classify beyondAscii specs arg with
      | .refused => none
      | .positional =>
        match pending.take arg with
        | some pending => parseOptions specs rest (some pending) ns
        | none => (pending.finish ns).map fun ns => (ns, arg :: rest)
      | .option spec none =>
        (pending.finish ns).bind fun ns => parseOptions specs rest (some (spec, [])) ns
      | .option spec (some value) =>
        if spec.arity = .one ∨ spec.arity = .many then
          ((pending.finish ns).bind (spec.store [value])).bind fun ns =>
            parseOptions specs rest none ns
        else none

/-- A subparser without positional arguments. -/
structure Subcommand (ν : Type) where
  name : Str
  specs : List (OptionSpec ν)
  defaults : ν → ν

/-- `parse_args` of a parser with options and a required subcommand: its name and the
namespace. -/
def parseArgs (specs : List (OptionSpec ν)) (subcommands : List (Subcommand ν)) (args : List Str)
    (ns : ν) : Option (Str × ν) := do
  let (ns, rest) ← parseOptions beyondAscii specs args none ns
  match if rest.head? = some doubleDash then rest.drop 1 else rest with
  | [] => none
  | name :: rest =>
    let subcommand ← subcommands.find? fun subcommand => subcommand.name = name
    let (ns, leftover) ← parseOptions beyondAscii subcommand.specs rest none
      (subcommand.defaults ns)
    if leftover = [] then some (name, ns) else none

variable {beyondAscii} {specs : List (OptionSpec ν)}

/-- One argument read: it ends the options, is a value, or begins an option. -/
inductive Reads (beyondAscii : CodePoint → Bool) (specs : List (OptionSpec ν)) (arg : Str)
    (rest : List Str) (pending : Pending ν) (ns : ν) (result : ν × List Str) : Prop
  | stop (h : pending.finish ns = some result.1) (hrest : result.2 = arg :: rest)
  | value (harg : arg ≠ doubleDash) (hkind : classify beyondAscii specs arg = .positional)
      (taken : OptionSpec ν × List Str) (htake : pending.take arg = some taken)
      (h : parseOptions beyondAscii specs rest (some taken) ns = some result)
  | flag (harg : arg ≠ doubleDash) (spec : OptionSpec ν)
      (hkind : classify beyondAscii specs arg = .option spec none) (ns' : ν)
      (h : parseOptions beyondAscii specs rest (some (spec, [])) ns' = some result)
  | explicit (harg : arg ≠ doubleDash) (spec : OptionSpec ν) (value : Str)
      (hkind : classify beyondAscii specs arg = .option spec (some value))
      (harity : spec.arity = .one ∨ spec.arity = .many) (before ns' : ν)
      (hstore : spec.store [value] before = some ns')
      (h : parseOptions beyondAscii specs rest none ns' = some result)

theorem reads_parseOptions {arg : Str} {rest : List Str} {pending : Pending ν} {ns : ν}
    {result : ν × List Str}
    (h : parseOptions beyondAscii specs (arg :: rest) pending ns = some result) :
    Reads beyondAscii specs arg rest pending ns result := by
  rw [parseOptions] at h
  split_ifs at h with harg
  · obtain ⟨ns', hns', rfl⟩ := Option.map_eq_some_iff.mp h
    exact .stop hns' rfl
  · split at h
    · cases h
    · rename_i hkind
      split at h
      · rename_i taken htake
        exact .value harg hkind taken htake h
      · obtain ⟨ns', hns', rfl⟩ := Option.map_eq_some_iff.mp h
        exact .stop hns' rfl
    · rename_i spec hkind
      obtain ⟨ns', -, hrest⟩ := Option.bind_eq_some_iff.mp h
      exact .flag harg spec hkind ns' hrest
    · rename_i spec value hkind
      split_ifs at h with harity
      obtain ⟨ns', hns', hrest⟩ := Option.bind_eq_some_iff.mp h
      obtain ⟨before, -, hstore⟩ := Option.bind_eq_some_iff.mp hns'
      exact .explicit harg spec value hkind harity before ns' hstore hrest

theorem eq_of_splitEquals {arg start value : Str} (h : splitEquals arg = some (start, value)) :
    arg = start ++ equals :: value := by
  induction arg generalizing start with
  | nil => cases h
  | cons c rest ih =>
    rw [splitEquals] at h
    split_ifs at h with hc
    · cases h
      rw [hc, List.nil_append]
    · obtain ⟨parts, hparts, heq⟩ := Option.map_eq_some_iff.mp h
      cases heq
      rw [ih hparts, List.cons_append]

theorem mem_of_optionTuples {arg : Str} {entry : OptionSpec ν × Option Str}
    (h : entry ∈ optionTuples specs arg) : entry.1 ∈ specs := by
  have hflags : ∀ e ∈ specs.flatMap fun spec => spec.flags.map fun flag => (spec, flag),
      e.1 ∈ specs := by
    intro e he
    obtain ⟨spec, hspec, hflag⟩ := List.mem_flatMap.mp he
    obtain ⟨flag, -, rfl⟩ := List.mem_map.mp hflag
    exact hspec
  unfold optionTuples at h
  split_ifs at h
  · split at h
    · obtain ⟨e, he, rfl⟩ := List.mem_map.mp h
      exact hflags e (List.mem_of_mem_filter he)
    · obtain ⟨e, he, rfl⟩ := List.mem_map.mp h
      exact hflags e (List.mem_of_mem_filter he)
  · obtain ⟨e, he, hentry⟩ := List.mem_filterMap.mp h
    split_ifs at hentry
    · cases hentry
      exact hflags e he
    · cases hentry
      exact hflags e he

theorem eq_of_optionTuples {arg value : Str} {spec : OptionSpec ν}
    (h : (spec, some value) ∈ optionTuples specs arg)
    (hlong : ∀ flag ∈ spec.flags, 2 < flag.length) :
    ∃ flag ∈ spec.flags, ∃ start, start <+: flag ∧ arg = start ++ equals :: value := by
  have hflags : ∀ e ∈ specs.flatMap fun spec => spec.flags.map fun flag => (spec, flag),
      e.2 ∈ e.1.flags := by
    intro e he
    obtain ⟨spec, -, hflag⟩ := List.mem_flatMap.mp he
    obtain ⟨flag, hmem, rfl⟩ := List.mem_map.mp hflag
    exact hmem
  unfold optionTuples at h
  split_ifs at h
  · split at h
    · rename_i start explicit hsplit
      obtain ⟨e, he, heq⟩ := List.mem_map.mp h
      cases heq
      rw [List.mem_filter, List.isPrefixOf_iff_prefix] at he
      exact ⟨e.2, hflags e he.1, start, he.2, eq_of_splitEquals hsplit⟩
    · obtain ⟨e, he, heq⟩ := List.mem_map.mp h
      cases heq
  · obtain ⟨e, he, heq⟩ := List.mem_filterMap.mp h
    split_ifs at heq with hshort
    · cases heq
      have htwo := hlong e.2 (hflags e he)
      rw [hshort, List.length_take] at htwo
      omega
    · cases heq

theorem classify_option {arg : Str} {spec : OptionSpec ν} {explicit : Option Str}
    (h : classify beyondAscii specs arg = .option spec explicit) :
    (spec ∈ specs ∧ explicit = none) ∨
      (∃ flag value, spec ∈ specs ∧ flag ∈ spec.flags ∧ explicit = some value ∧
        splitEquals arg = some (flag, value)) ∨
      (spec, explicit) ∈ optionTuples specs arg := by
  unfold classify at h
  by_cases hdash : arg.head? ≠ some dash
  · rw [if_pos hdash] at h
    cases h
  rw [if_neg hdash] at h
  split at h
  · rename_i found hfound
    cases h
    exact .inl ⟨List.mem_of_find?_eq_some hfound, rfl⟩
  by_cases hone : arg.length = 1
  · rw [if_pos hone] at h
    cases h
  rw [if_neg hone] at h
  split at h
  · rename_i found value hbind
    cases h
    obtain ⟨⟨flag, explicit⟩, hsplit, hmap⟩ := Option.bind_eq_some_iff.mp hbind
    obtain ⟨found, hfound, heq⟩ := Option.map_eq_some_iff.mp hmap
    cases heq
    have hflag := List.find?_some hfound
    rw [decide_eq_true_eq] at hflag
    exact .inr (.inl ⟨flag, value, List.mem_of_find?_eq_some hfound, hflag, rfl, hsplit⟩)
  · split at h
    · rename_i htuples
      cases h
      rw [htuples]
      exact .inr (.inr List.mem_cons_self)
    · cases h
    · split_ifs at h

theorem mem_of_classify {arg : Str} {spec : OptionSpec ν} {explicit : Option Str}
    (h : classify beyondAscii specs arg = .option spec explicit) : spec ∈ specs := by
  rcases classify_option h with ⟨hmem, -⟩ | ⟨flag, value, hmem, -⟩ | htuples
  · exact hmem
  · exact hmem
  · exact mem_of_optionTuples htuples

theorem eq_of_classify {arg value : Str} {spec : OptionSpec ν}
    (h : classify beyondAscii specs arg = .option spec (some value))
    (hlong : ∀ flag ∈ spec.flags, 2 < flag.length) :
    ∃ flag ∈ spec.flags, ∃ start, start <+: flag ∧ arg = start ++ equals :: value := by
  rcases classify_option h with ⟨-, hnone⟩ | ⟨flag, value', -, hflag, hvalue, hsplit⟩ | htuples
  · cases hnone
  · cases hvalue
    exact ⟨flag, hflag, flag, List.prefix_rfl, eq_of_splitEquals hsplit⟩
  · exact eq_of_optionTuples htuples hlong

/-- The arguments consumed are each a value or a known option. -/
theorem parseOptions_consumes {args : List Str} {pending : Pending ν} {ns : ν}
    {result : ν × List Str} (h : parseOptions beyondAscii specs args pending ns = some result) :
    ∃ consumed, args = consumed ++ result.2 ∧ ∀ arg ∈ consumed,
      arg ≠ doubleDash ∧ classify beyondAscii specs arg ≠ .refused := by
  induction args generalizing pending ns with
  | nil =>
    obtain ⟨ns', -, rfl⟩ := Option.map_eq_some_iff.mp h
    exact ⟨[], rfl, by simp⟩
  | cons arg rest ih =>
    have hcons : ∀ {pending : Pending ν} {ns : ν}, arg ≠ doubleDash →
        classify beyondAscii specs arg ≠ .refused →
        parseOptions beyondAscii specs rest pending ns = some result →
        ∃ consumed, arg :: rest = consumed ++ result.2 ∧ ∀ arg ∈ consumed,
          arg ≠ doubleDash ∧ classify beyondAscii specs arg ≠ .refused := by
      intro pending ns harg hkind hrest
      obtain ⟨consumed, hconsumed, hknown⟩ := ih hrest
      exact ⟨arg :: consumed, by rw [hconsumed, List.cons_append],
        List.forall_mem_cons.mpr ⟨⟨harg, hkind⟩, hknown⟩⟩
    cases reads_parseOptions h with
    | stop hfinish hrest => exact ⟨[], hrest.symm, by simp⟩
    | value harg hkind taken htake hrest => exact hcons harg (by rw [hkind]; exact nofun) hrest
    | flag harg spec hkind ns' hrest => exact hcons harg (by rw [hkind]; exact nofun) hrest
    | explicit harg spec value hkind harity before ns' hstore hrest =>
      exact hcons harg (by rw [hkind]; exact nofun) hrest

theorem take_eq_some {pending : Pending ν} {arg : Str} {taken : OptionSpec ν × List Str}
    (hone : ∀ p ∈ pending, p.1.arity = .one ∨ p.1.arity = .help)
    (h : pending.take arg = some taken) :
    taken.2 = [arg] ∧ taken.1.arity = .one ∧ ∃ p ∈ pending, taken.1 = p.1 := by
  cases pending with
  | none => cases h
  | some p =>
    rcases hone p rfl with harity | harity
    · simp only [Pending.take, harity] at h
      split_ifs at h
      cases h
      exact ⟨rfl, harity, p, rfl, rfl⟩
    · simp only [Pending.take, harity] at h
      cases h

theorem parseOptions_last (hone : ∀ spec ∈ specs, spec.arity = .one ∨ spec.arity = .help)
    {front : List Str} {last : Str} {pending : Pending ν} {ns ns' : ν}
    (hpending : ∀ p ∈ pending, p.1 ∈ specs)
    (h : parseOptions beyondAscii specs (front ++ [last]) pending ns = some (ns', [])) :
    ∃ spec ∈ specs, ∃ value before, spec.store [value] before = some ns' ∧
      (value = last ∨ classify beyondAscii specs last = .option spec (some value)) := by
  have htaken : ∀ {arg : Str} {taken : OptionSpec ν × List Str} {pending : Pending ν},
      (∀ p ∈ pending, p.1 ∈ specs) → pending.take arg = some taken →
      taken.2 = [arg] ∧ taken.1.arity = .one ∧ taken.1 ∈ specs := by
    intro arg taken pending hpending htake
    obtain ⟨hvalues, harity, p, hp, hspec⟩ :=
      take_eq_some (fun p hp => hone p.1 (hpending p hp)) htake
    exact ⟨hvalues, harity, hspec ▸ hpending p hp⟩
  induction front generalizing pending ns with
  | nil =>
    cases reads_parseOptions h with
    | stop hfinish hrest => cases hrest
    | value harg hkind taken htake hrest =>
      obtain ⟨hvalues, harity, hmem⟩ := htaken hpending htake
      obtain ⟨ns'', hfinish, heq⟩ := Option.map_eq_some_iff.mp hrest
      cases heq
      simp only [Pending.finish, harity, hvalues, List.cons_ne_nil, ↓reduceIte] at hfinish
      exact ⟨taken.1, hmem, last, ns, hfinish, .inl rfl⟩
    | flag harg spec hkind ns'' hrest =>
      obtain ⟨ns₁, hfinish, -⟩ := Option.map_eq_some_iff.mp hrest
      rcases hone spec (mem_of_classify hkind) with harity | harity
      · simp [Pending.finish, harity] at hfinish
      · simp [Pending.finish, harity] at hfinish
    | explicit harg spec value hkind harity before ns'' hstore hrest =>
      obtain ⟨ns₁, hfinish, heq⟩ := Option.map_eq_some_iff.mp hrest
      cases heq
      cases hfinish
      exact ⟨spec, mem_of_classify hkind, value, before, hstore, .inr hkind⟩
  | cons arg front ih =>
    cases reads_parseOptions h with
    | stop hfinish hrest => cases hrest
    | value harg hkind taken htake hrest =>
      refine ih ?_ hrest
      intro p hp
      cases hp
      exact (htaken hpending htake).2.2
    | flag harg spec hkind ns'' hrest =>
      refine ih ?_ hrest
      intro p hp
      cases hp
      exact mem_of_classify hkind
    | explicit harg spec value hkind harity before ns'' hstore hrest =>
      exact ih (fun _ hp => absurd hp (Option.not_mem_none _)) hrest

/-- How arguments are parsed: options of the parser up to the name, and options of the subparser
from there to the end. -/
inductive Parsed (beyondAscii : CodePoint → Bool) (specs : List (OptionSpec ν))
    (subcommands : List (Subcommand ν)) (args : List Str) (result : Str × ν) : Prop
  | intro (before separator after : List Str) (subcommand : Subcommand ν) (ns : ν)
      (hargs : args = before ++ separator ++ result.1 :: after)
      (hbefore : ∀ arg ∈ before, classify beyondAscii specs arg ≠ .refused)
      (hseparator : ∀ arg ∈ separator, arg = doubleDash)
      (hmem : subcommand ∈ subcommands) (hname : subcommand.name = result.1)
      (hafter : parseOptions beyondAscii subcommand.specs after none (subcommand.defaults ns) =
        some (result.2, []))

theorem parsed_parseArgs {subcommands : List (Subcommand ν)} {args : List Str} {ns : ν}
    {result : Str × ν} (h : parseArgs beyondAscii specs subcommands args ns = some result) :
    Parsed beyondAscii specs subcommands args result := by
  obtain ⟨⟨ns', rest⟩, hoptions, hrest⟩ := Option.bind_eq_some_iff.mp h
  obtain ⟨before, hargs, hbefore⟩ := parseOptions_consumes hoptions
  obtain ⟨separator, hseparator, hsplit⟩ : ∃ separator : List Str,
      (∀ arg ∈ separator, arg = doubleDash) ∧
      rest = separator ++ if rest.head? = some doubleDash then rest.drop 1 else rest := by
    split_ifs with hhead
    · obtain ⟨later, rfl⟩ := List.head?_eq_some_iff.mp hhead
      exact ⟨[doubleDash], fun _ harg => List.mem_singleton.mp harg, rfl⟩
    · exact ⟨[], fun _ harg => absurd harg List.not_mem_nil, rfl⟩
  dsimp only at hrest hargs
  generalize (if rest.head? = some doubleDash then rest.drop 1 else rest) = tail at hrest hsplit
  cases tail with
  | nil => cases hrest
  | cons name after =>
    obtain ⟨subcommand, hfound, hrest⟩ := Option.bind_eq_some_iff.mp hrest
    obtain ⟨⟨ns'', leftover⟩, hafter, hend⟩ := Option.bind_eq_some_iff.mp hrest
    dsimp only at hend
    split_ifs at hend with hleftover
    cases hend
    subst hleftover
    have hname := List.find?_some hfound
    rw [decide_eq_true_eq] at hname
    exact .intro before separator after subcommand ns' (by rw [hargs, hsplit, List.append_assoc])
      (fun arg harg => (hbefore arg harg).2) hseparator (List.mem_of_find?_eq_some hfound) hname
      hafter

end Py.Argparse
