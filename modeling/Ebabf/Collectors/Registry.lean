import Ebabf.Collectors.Base
import Ebabf.Runner.Handle
import Mathlib.Data.List.Sort

/-!
# The collector registry

`build_supported` builds the collectors that can run and says why the others cannot. Whatever a
collector class answers or raises, each wanted name ends up on exactly one of the two lists.
-/

namespace Ebabf

open Py (Str str Exc Fault Dict valueError)

/-- A collector class, told apart from others by `ident`: what its class methods answer, and what
calling it does. The name of a collector is that of its class. -/
structure CollectorType where
  ident : ℕ
  name : Str
  isSupported : Except Fault Bool
  supportReason : Except Fault (Option Str)
  construct : CollectorContext → Except Fault Collector
  named : ∀ context collector, construct context = .ok collector → collector.name = name

/-- `f"not supported on {platform.system()}"` -/
def notSupported (platform : Str) : Str := str "not supported on " ++ platform

namespace CollectorType

/-- The body of the `try`: a collector, or why there is none. -/
def instantiate (context : CollectorContext) (platform : Str) (t : CollectorType) :
    Except Fault (Collector ⊕ Str) := do
  if ← t.isSupported then
    let collector ← t.construct context
    return .inl collector
  else
    let reason ← t.supportReason
    return .inr ((reason.filter (· ≠ [])).getD (notSupported platform))

/-- With the handler: an exception is one more reason. -/
def build (context : CollectorContext) (platform : Str) (t : CollectorType) :
    Except Exc (Collector ⊕ Str) :=
  match t.instantiate context platform with
  | .ok answer => .ok answer
  | .error fault => fault.describe.map .inr

end CollectorType

structure CollectorRegistry where
  types : Dict CollectorType
  keyed : ∀ entry ∈ types.entries, entry.2.name = entry.1

namespace CollectorRegistry

def empty : CollectorRegistry := ⟨∅, nofun⟩

theorem keyed_set (registry : CollectorRegistry) (t : CollectorType) :
    ∀ entry ∈ (registry.types.set t.name t).entries, entry.2.name = entry.1 := by
  intro entry hentry
  have hget := Dict.get?_eq_some.mpr hentry
  rw [Dict.get?_set] at hget
  split_ifs at hget with hname
  · cases hget
    exact hname.symm
  · exact registry.keyed entry (Dict.get?_eq_some.mp hget)

/-- `register` -/
def register (t : CollectorType) (registry : CollectorRegistry) : Except Exc CollectorRegistry :=
  if (registry.types.get? t.name).any fun registered => registered.ident ≠ t.ident then
    .error (valueError (str "collector name '" ++ t.name ++ str "' is already registered"))
  else .ok ⟨registry.types.set t.name t, registry.keyed_set t⟩

/-- `sorted(names)`, of distinct names -/
def sortNames (names : List Str) : List Str := names.insertionSort (· ≤ ·)

/-- `names` -/
def names (registry : CollectorRegistry) : List Str :=
  sortNames (registry.types.entries.map Prod.fst)

/-- `sorted(wanted)` -/
def wanted (only : Option (List Str)) (registry : CollectorRegistry) : List Str :=
  match only with
  | some names => sortNames names.dedup
  | none => registry.names

/-- `sorted(unknown)` -/
def unknown (only : Option (List Str)) (registry : CollectorRegistry) : List Str :=
  (registry.wanted only).filter fun name => (registry.types.get? name).isNone

def keyError (message : Str) : Exc := ⟨.other (str "KeyError"), message⟩

/-- The loop of `build_supported`: the collectors, and the names without one with the reason. -/
def buildAll (context : CollectorContext) (platform : Str) (registry : CollectorRegistry) :
    List Str → Except Exc (List Collector × List (Str × Str))
  | [] => .ok ([], [])
  | name :: rest =>
    match registry.types.get? name with
    | none => .error (keyError (str "'" ++ name ++ str "'"))
    | some t => do
      let answer ← t.build context platform
      let (active, unavailable) ← buildAll context platform registry rest
      match answer with
      | .inl collector => return (collector :: active, unavailable)
      | .inr reason => return (active, (name, reason) :: unavailable)

/-- `build_supported` -/
def buildSupported (context : CollectorContext) (platform : Str) (only : Option (List Str))
    (registry : CollectorRegistry) : Except Exc (List Collector × CoverageReport) :=
  if registry.unknown only = [] then do
    let (active, unavailable) ← registry.buildAll context platform (registry.wanted only)
    return (active, { platform, active := active.map Collector.name, unavailable })
  else
    let quoted := (registry.unknown only).map fun name => str "'" ++ name ++ str "'"
    .error (keyError (str "\"unknown collectors: [" ++ Py.join (str ", ") quoted ++ str "]\""))

/-- A name that was asked for, or any registered one when none was. -/
def Wants (only : Option (List Str)) (registry : CollectorRegistry) (name : Str) : Prop :=
  match only with
  | some names => name ∈ names
  | none => ∃ t, registry.types.get? name = some t

theorem mem_sortNames {name : Str} {names : List Str} : name ∈ sortNames names ↔ name ∈ names :=
  (List.perm_insertionSort _ names).mem_iff

theorem nodup_sortNames {names : List Str} (h : names.Nodup) : (sortNames names).Nodup :=
  (List.perm_insertionSort _ names).nodup_iff.mpr h

theorem mem_wanted {only : Option (List Str)} {registry : CollectorRegistry} {name : Str} :
    name ∈ registry.wanted only ↔ registry.Wants only name := by
  cases only with
  | some names => exact mem_sortNames.trans List.mem_dedup
  | none =>
    refine mem_sortNames.trans (List.mem_map.trans ?_)
    constructor
    · intro h
      obtain ⟨⟨key, t⟩, hentry, rfl⟩ := h
      exact ⟨t, Dict.get?_eq_some.mpr hentry⟩
    · intro h
      obtain ⟨t, hget⟩ := h
      exact ⟨(name, t), Dict.get?_eq_some.mp hget, rfl⟩

theorem nodup_wanted (only : Option (List Str)) (registry : CollectorRegistry) :
    (registry.wanted only).Nodup := by
  cases only with
  | some names => exact nodup_sortNames names.nodup_dedup
  | none => exact nodup_sortNames registry.types.nodup

theorem name_of_build {context : CollectorContext} {platform : Str} {t : CollectorType}
    {collector : Collector} (h : t.build context platform = .ok (.inl collector)) :
    collector.name = t.name := by
  unfold CollectorType.build at h
  cases hattempt : t.instantiate context platform with
  | error fault =>
    rw [hattempt] at h
    cases hdescribe : fault.describe with
    | error e => simp [hdescribe, Except.map] at h
    | ok description => simp [hdescribe, Except.map] at h
  | ok answer =>
    rw [hattempt] at h
    cases h
    unfold CollectorType.instantiate at hattempt
    obtain ⟨supported, -, hattempt⟩ := Py.bind_eq_ok.mp hattempt
    split_ifs at hattempt
    · obtain ⟨built, hbuilt, hattempt⟩ := Py.bind_eq_ok.mp hattempt
      cases hattempt
      exact t.named context collector hbuilt
    · obtain ⟨reason, -, hattempt⟩ := Py.bind_eq_ok.mp hattempt
      cases hattempt

theorem perm_of_buildAll {context : CollectorContext} {platform : Str}
    {registry : CollectorRegistry} {names : List Str} {active : List Collector}
    {unavailable : List (Str × Str)}
    (h : registry.buildAll context platform names = .ok (active, unavailable)) :
    (active.map Collector.name ++ unavailable.map Prod.fst).Perm names := by
  induction names generalizing active unavailable with
  | nil =>
    cases h
    exact List.Perm.nil
  | cons name rest ih =>
    rw [buildAll] at h
    cases hget : registry.types.get? name with
    | none =>
      rw [hget] at h
      cases h
    | some t =>
      rw [hget] at h
      obtain ⟨answer, hanswer, h⟩ := Py.bind_eq_ok.mp h
      obtain ⟨⟨active', unavailable'⟩, hrest, h⟩ := Py.bind_eq_ok.mp h
      cases answer with
      | inl collector =>
        cases h
        have hname : collector.name = name :=
          (name_of_build hanswer).trans (registry.keyed _ (Dict.get?_eq_some.mp hget))
        rw [List.map_cons, List.cons_append, hname]
        exact (ih hrest).cons name
      | inr reason =>
        cases h
        rw [List.map_cons]
        exact List.perm_middle.trans ((ih hrest).cons name)

/-- The report names the collectors that were built, in their order, and every wanted name is
there once. -/
theorem report_of_buildSupported {context : CollectorContext} {platform : Str}
    {only : Option (List Str)} {registry : CollectorRegistry} {collectors : List Collector}
    {report : CoverageReport}
    (h : registry.buildSupported context platform only = .ok (collectors, report)) :
    report.active = collectors.map Collector.name ∧
      (report.active ++ report.unavailable.map Prod.fst).Perm (registry.wanted only) := by
  unfold buildSupported at h
  split_ifs at h
  obtain ⟨⟨active, unavailable⟩, hbuilt, h⟩ := Py.bind_eq_ok.mp h
  cases h
  exact ⟨rfl, perm_of_buildAll hbuilt⟩

end CollectorRegistry
end Ebabf
