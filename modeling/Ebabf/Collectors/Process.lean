import Ebabf.Collectors.Base
import Ebabf.Py.FloatOrder
import Ebabf.Py.Statistics
import Ebabf.Transition

/-!
# The process collector

One event for every process of a snapshot that has a pid and an owner. What is said of a process
besides its own row comes from the other rows of the snapshot, and from the sweeps before: a
`cpu_percent` is passed on only for a process that has been sampled.
-/

namespace Ebabf

open Py (Str str Datetime Json Dict Proc)

/-- `uids`, less the saved one, where the platform has both. -/
structure Uids where
  real : Option ℕ
  effective : Option ℕ

/-- `proc.info`, nothing where psutil was denied the value. -/
structure ProcessInfo where
  pid : Option ℕ
  ppid : Option ℕ := none
  name : Option Str := none
  exe : Option Str := none
  username : Option Str := none
  uids : Option Uids := none
  createTime : Option Float := none
  cpuPercent : Option Float := none
  status : Option Str := none

/-- What one sweep reads: `psutil.process_iter()`, nothing for a process whose row cannot be had
any more, and `time.time()`. -/
structure ProcessTable where
  processes : List (Option ProcessInfo)
  now : Float

/-- `_privilege_level` -/
def privilegeLevel : Option Uids → Option Str
  | some ⟨some real, some effective⟩ =>
    if effective = 0 then some (str "root")
    else if effective ≠ real then some (str "elevated")
    else some (str "user")
  | _ => none

namespace ProcessTable

def snapshot (table : ProcessTable) : List ProcessInfo := table.processes.filterMap id

/-- `child_counts.get(pid, 0)`, where `child_counts` is the `Counter` of the parents. -/
def childCount (pid : ℕ) (table : ProcessTable) : ℕ :=
  (table.snapshot.filterMap ProcessInfo.ppid).count pid

/-- `names_by_pid.get(pid)`; of two rows with one pid the later is kept. -/
def nameOf (pid : ℕ) (table : ProcessTable) : Option Str :=
  (table.snapshot.reverse.find? fun entry => entry.pid = some pid).bind ProcessInfo.name

end ProcessTable

def textOrNone (text : Option Str) : AnyValue := .json ((text.map Json.str).getD .null)

def floatOrNone (x : Option Float) : AnyValue := .json ((x.map Json.float).getD .null)

def intOrNone (n : Option ℕ) : AnyValue := .json ((n.map fun n => Json.int n).getD .null)

/-- A process by its pid and the time it was created: a pid alone may be used again. -/
abbrev ProcessKey := ℕ × Float

def ProcessKey.same (k k' : ProcessKey) : Bool := k.1 == k'.1 && k.2 == k'.2

/-- `key in keys` -/
def ProcessKey.isIn (key : ProcessKey) (keys : List ProcessKey) : Bool := keys.any key.same

namespace ProcessInfo

/-- The key of `_sampled`. -/
def key (pid : ℕ) (entry : ProcessInfo) : ProcessKey := (pid, entry.createTime.getD (-1.0))

/-- The pid and the owner of a process that gets an event. -/
def owned (entry : ProcessInfo) : Option (ℕ × Str) :=
  match entry.pid, entry.username.filter (· ≠ []) with
  | some pid, some username => some (pid, username)
  | _, _ => none

/-- `raw_attributes` -/
def describe (table : ProcessTable) (pid : ℕ) (firstSighting : Bool) (entry : ProcessInfo) :
    Mapping :=
  Dict.ofPairs
    [(str "exec_path", textOrNone entry.exe),
     (str "is_signed", .json .null),
     (str "parent_process", textOrNone (entry.ppid.bind fun ppid => table.nameOf ppid)),
     (str "process_lifetime", floatOrNone
       (entry.createTime.map fun createTime => Py.roundThousandths (table.now - createTime))),
     (str "cpu_percent", floatOrNone (if firstSighting then none else entry.cpuPercent)),
     (str "child_process_count", .json (.int (table.childCount pid))),
     (str "privilege_level", textOrNone (privilegeLevel entry.uids)),
     (str "pid", .json (.int pid)),
     (str "ppid", intOrNone entry.ppid),
     (str "process_name", textOrNone entry.name),
     (str "status", textOrNone entry.status)]

end ProcessInfo

structure ProcessCollector where
  context : CollectorContext
  sampled : List ProcessKey

namespace ProcessCollector

def init (context : CollectorContext) : ProcessCollector := ⟨context, []⟩

/-- `self._sampled.add(key)` -/
def sample (key : ProcessKey) (c : ProcessCollector) : ProcessCollector :=
  { c with sampled := if key.isIn c.sampled then c.sampled else c.sampled ++ [key] }

/-- `_build_event` at the time of the context's clock. -/
def build (subject : Str) (rawAttributes : Mapping) : Proc Event ProcessCollector Event := fun c =>
  let built := Collector.buildEvent .process subject rawAttributes (some (c.context.readings 0))
    (CollectorContext.clock c.context).state
  ⟨built.outcome, built.trace, { c with context := built.state }⟩

/-- `_to_event` of a process that gets an event. -/
def toEvent (table : ProcessTable) (pid : ℕ) (username : Str) (entry : ProcessInfo) :
    Proc Event ProcessCollector Event := fun c =>
  let firstSighting := !(entry.key pid).isIn c.sampled
  build username (entry.describe table pid firstSighting) (c.sample (entry.key pid))

/-- The rows in turn, until an event cannot be built. -/
def events (table : ProcessTable) : List ProcessInfo → Proc Event ProcessCollector Unit
  | [] => pure ()
  | entry :: rest =>
    match entry.owned with
    | none => events table rest
    | some (pid, username) => do
      let event ← toEvent table pid username entry
      Proc.emit event
      events table rest

/-- `collect` -/
def collect (table : ProcessTable) : Proc Event ProcessCollector Unit :=
  events table table.snapshot

end ProcessCollector

namespace ProcessKey

variable {key key' other : ProcessKey} {keys : List ProcessKey}

theorem same_iff : key.same key' = true ↔ key.1 = key'.1 ∧ (key.2 == key'.2) = true := by
  rw [same, Bool.and_eq_true, beq_iff_eq]

theorem same_trans (h : key.same key' = true) (h' : key'.same other = true) :
    key.same other = true := by
  rw [same_iff] at h h' ⊢
  exact ⟨h.1.trans h'.1, Py.float_beq_trans h.2 h'.2⟩

theorem isIn_of_same (h : key.same key' = true) (hin : key'.isIn keys = true) :
    key.isIn keys = true := by
  obtain ⟨k, hk, hsame⟩ := List.any_eq_true.mp hin
  exact List.any_eq_true.mpr ⟨k, hk, same_trans h hsame⟩

theorem isIn_append (key : ProcessKey) (keys keys' : List ProcessKey) :
    key.isIn (keys ++ keys') = (key.isIn keys || key.isIn keys') := List.any_append

end ProcessKey

/-- The keys of the rows that get an event. -/
def observed (entries : List ProcessInfo) : List ProcessKey :=
  entries.filterMap fun entry => entry.owned.map fun owner => entry.key owner.1

theorem observed_cons_of_none {entry : ProcessInfo} (h : entry.owned = none)
    (entries : List ProcessInfo) : observed (entry :: entries) = observed entries :=
  List.filterMap_cons_none (by rw [h]; rfl)

theorem observed_cons_of_some {entry : ProcessInfo} {pid : ℕ} {username : Str}
    (h : entry.owned = some (pid, username)) (entries : List ProcessInfo) :
    observed (entry :: entries) = entry.key pid :: observed entries :=
  List.filterMap_cons_some (by rw [h]; rfl)

theorem owner_ne_nil {entry : ProcessInfo} {pid : ℕ} {username : Str}
    (h : entry.owned = some (pid, username)) : username ≠ [] := by
  unfold ProcessInfo.owned at h
  split at h
  · rename_i pid' username' hpid husername
    cases h
    have hkept := (Option.filter_eq_some_iff.mp husername).2
    exact of_decide_eq_true hkept
  · cases h

namespace ProcessCollector

variable {c : ProcessCollector}

theorem isIn_sample (key key' : ProcessKey) (c : ProcessCollector) :
    key.isIn (c.sample key').sampled = (key.isIn c.sampled || key.isIn [key']) := by
  show key.isIn (if key'.isIn c.sampled then c.sampled else c.sampled ++ [key']) = _
  by_cases hknown : key'.isIn c.sampled = true
  · rw [if_pos hknown]
    cases hsame : key.isIn [key'] with
    | false => rw [Bool.or_false]
    | true =>
      obtain ⟨k, hk, hk'⟩ := List.any_eq_true.mp hsame
      rw [List.mem_singleton.mp hk] at hk'
      rw [Bool.or_true, ProcessKey.isIn_of_same hk' hknown]
  · rw [if_neg hknown, ProcessKey.isIn_append]

/-- The event of a process: its attributes, and the pseudonym the context has for its owner. -/
structure Tells (context : CollectorContext) (table : ProcessTable) (entry : ProcessInfo) (pid : ℕ)
    (username : Str) (firstSighting : Bool) (event : Event) : Prop where
  raw_attributes : event.fields.rawAttributes = entry.describe table pid firstSighting
  subject : context.forward.get? username = some event.fields.subjectPseudonym

theorem toEvent_of_dependable (h : c.context.Dependable) (table : ProcessTable)
    {entry : ProcessInfo} {pid : ℕ} {username : Str} (howned : entry.owned = some (pid, username)) :
    ∃ event, (toEvent table pid username entry c).outcome = .ok event ∧
      (toEvent table pid username entry c).trace = [] ∧
      (toEvent table pid username entry c).state.context.Dependable ∧
      c.context.Extends (toEvent table pid username entry c).state.context ∧
      (toEvent table pid username entry c).state.sampled = (c.sample (entry.key pid)).sampled ∧
      Tells (toEvent table pid username entry c).state.context table entry pid username
        (!(entry.key pid).isIn c.sampled) event := by
  set rawAttributes := entry.describe table pid (!(entry.key pid).isIn c.sampled) with hattributes
  obtain ⟨hstate, event, hok⟩ := Collector.buildEvent_of_dependable h.clock .process
    (owner_ne_nil howned) rawAttributes (h.readings 0)
  obtain ⟨hfields, hsubject⟩ := Collector.fields_of_buildEvent hok
  refine ⟨event, hok, Collector.trace_buildEvent _ _ _ _ _, hstate, ?_, rfl, ⟨hfields, hsubject⟩⟩
  exact Collector.extends_buildEvent .process username rawAttributes (some (c.context.readings 0))
    (CollectorContext.clock c.context).state

/-- What the events of the rows have to be, when `known` are the keys sampled before. -/
structure Swept (table : ProcessTable) (known : List ProcessKey) (entries : List ProcessInfo)
    (ran : Py.Ran Event ProcessCollector Unit) : Prop where
  outcome : ran.outcome = .ok ()
  dependable : ran.state.context.Dependable
  sampled : ∀ key : ProcessKey,
    key.isIn ran.state.sampled = (key.isIn known || key.isIn (observed entries))
  one_each : ran.trace.length = (observed entries).length
  tells : ∀ earlier entry later pid username, entries = earlier ++ entry :: later →
    entry.owned = some (pid, username) →
    ∃ event, ran.trace[(observed earlier).length]? = some event ∧
      Tells ran.state.context table entry pid username
        (!(entry.key pid).isIn (known ++ observed earlier)) event

theorem Tells.extends {context context' : CollectorContext} {table : ProcessTable}
    {entry : ProcessInfo} {pid : ℕ} {username : Str} {firstSighting : Bool} {event : Event}
    (h : Tells context table entry pid username firstSighting event)
    (hext : context.Extends context') :
    Tells context' table entry pid username firstSighting event :=
  ⟨h.raw_attributes, hext _ _ h.subject⟩

section

variable {table : ProcessTable} {known : List ProcessKey} {entry : ProcessInfo}
  {entries : List ProcessInfo} {ran : Py.Ran Event ProcessCollector Unit}

theorem Swept.pass (howned : entry.owned = none) (h : Swept table known entries ran) :
    Swept table known (entry :: entries) ran := by
  refine ⟨h.outcome, h.dependable, ?_, ?_, ?_⟩
  · rw [observed_cons_of_none howned]
    exact h.sampled
  · rw [observed_cons_of_none howned]
    exact h.one_each
  · intro earlier entry' later pid username hsplit howned'
    cases earlier with
    | nil =>
      cases hsplit
      rw [howned] at howned'
      cases howned'
    | cons first earlier =>
      cases hsplit
      rw [observed_cons_of_none howned]
      exact h.tells earlier entry' later pid username rfl howned'

theorem Swept.tell {known' : List ProcessKey} {pid : ℕ} {username : Str} {event : Event}
    (howned : entry.owned = some (pid, username))
    (hknown : ∀ key : ProcessKey, key.isIn known' = (key.isIn known || key.isIn [entry.key pid]))
    (htells : Tells ran.state.context table entry pid username (!(entry.key pid).isIn known) event)
    (h : Swept table known' entries ran) :
    Swept table known (entry :: entries) ⟨ran.outcome, event :: ran.trace, ran.state⟩ := by
  refine ⟨h.outcome, h.dependable, ?_, ?_, ?_⟩
  · intro key
    rw [observed_cons_of_some howned, h.sampled, hknown, Bool.or_assoc, ← ProcessKey.isIn_append]
    rfl
  · rw [observed_cons_of_some howned, List.length_cons, List.length_cons, h.one_each]
  · intro earlier entry' later pid' username' hsplit howned'
    cases earlier with
    | nil =>
      cases hsplit
      rw [howned] at howned'
      cases howned'
      refine ⟨event, rfl, ?_⟩
      have hnone : observed [] = [] := rfl
      rw [hnone, List.append_nil]
      exact htells
    | cons first earlier =>
      cases hsplit
      obtain ⟨event', hget, htells'⟩ :=
        h.tells earlier entry' later pid' username' rfl howned'
      refine ⟨event', ?_, ?_⟩
      · rw [observed_cons_of_some howned, List.length_cons, List.getElem?_cons_succ]
        exact hget
      · have hsame : (entry'.key pid').isIn (known' ++ observed earlier) =
            (entry'.key pid').isIn (known ++ observed (entry :: earlier)) := by
          rw [observed_cons_of_some howned, ProcessKey.isIn_append, hknown, Bool.or_assoc,
            ← ProcessKey.isIn_append, ProcessKey.isIn_append _ known]
          rfl
        rw [← hsame]
        exact htells'

end

theorem events_swept (table : ProcessTable) (entries : List ProcessInfo) :
    ∀ c : ProcessCollector, c.context.Dependable →
      c.context.Extends (events table entries c).state.context ∧
        Swept table c.sampled entries (events table entries c) := by
  induction entries with
  | nil =>
    intro c h
    refine ⟨.refl _, rfl, h, fun key => (Bool.or_false _).symm, rfl, ?_⟩
    intro earlier entry later _ _ hsplit
    exact absurd hsplit (by simp)
  | cons entry entries ih =>
    intro c h
    cases howned : entry.owned with
    | none =>
      have hevents : events table (entry :: entries) c = events table entries c := by
        rw [events, howned]
      rw [hevents]
      obtain ⟨hext, hrest⟩ := ih c h
      exact ⟨hext, hrest.pass howned⟩
    | some owner =>
      obtain ⟨pid, username⟩ := owner
      obtain ⟨event, hok, htrace, hdependable, hext, hsampled, htells⟩ :=
        toEvent_of_dependable h table howned
      set c' := (toEvent table pid username entry c).state with hc'
      have hknown : ∀ key : ProcessKey,
          key.isIn c'.sampled = (key.isIn c.sampled || key.isIn [entry.key pid]) := by
        intro key
        rw [hsampled]
        exact isIn_sample key (entry.key pid) c
      obtain ⟨hext', hrest⟩ := ih c' hdependable
      have hevents : events table (entry :: entries) c = ⟨(events table entries c').outcome,
          event :: (events table entries c').trace, (events table entries c').state⟩ := by
        rw [events, howned]
        dsimp only
        rw [Proc.bind_of_ok hok, Proc.bind_of_ok rfl, Proc.emit_apply, htrace]
        rfl
      rw [hevents]
      exact ⟨hext.trans hext', hrest.tell howned hknown (htells.extends hext')⟩

/-- The collector once it has swept the tables. -/
def swept (tables : List ProcessTable) (c : ProcessCollector) : ProcessCollector :=
  Transition.run (fun table c => (collect table c).state) tables c

/-- The keys of every row that has got an event. -/
def history (tables : List ProcessTable) : List ProcessKey :=
  tables.flatMap fun table => observed table.snapshot

theorem swept_spec (tables : List ProcessTable) :
    ∀ c : ProcessCollector, c.context.Dependable → (swept tables c).context.Dependable ∧
      ∀ key : ProcessKey,
        key.isIn (swept tables c).sampled = (key.isIn c.sampled || key.isIn (history tables)) := by
  induction tables with
  | nil => exact fun c h => ⟨h, fun key => (Bool.or_false _).symm⟩
  | cons table tables ih =>
    intro c h
    obtain ⟨-, hswept⟩ := events_swept table table.snapshot c h
    obtain ⟨hdependable, hsampled⟩ := ih _ hswept.dependable
    refine ⟨hdependable, fun key => ?_⟩
    have hhistory : history (table :: tables) = observed table.snapshot ++ history tables :=
      List.flatMap_cons
    rw [hhistory, ProcessKey.isIn_append, ← Bool.or_assoc, ← hswept.sampled]
    exact hsampled key

/-- With a dependable context, every sweep of every run yields one event for each process with a
pid and an owner, in the order of the snapshot and under the pseudonym of the owner, and passes a
`cpu_percent` on exactly for the processes that the run has sampled before. -/
theorem collect_run {context : CollectorContext} (h : context.Dependable)
    (before : List ProcessTable) (table : ProcessTable) :
    Swept table (history before) table.snapshot (collect table (swept before (init context))) := by
  obtain ⟨hdependable, hsampled⟩ := swept_spec before (init context) h
  have hknown : ∀ key : ProcessKey,
      key.isIn (swept before (init context)).sampled = key.isIn (history before) := fun key =>
    (hsampled key).trans (Bool.false_or _)
  obtain ⟨-, hswept⟩ := events_swept table table.snapshot _ hdependable
  refine ⟨hswept.outcome, hswept.dependable, fun key => ?_, hswept.one_each, ?_⟩
  · rw [← hknown]
    exact hswept.sampled key
  · intro earlier entry later pid username hsplit howned
    obtain ⟨event, hget, htells⟩ := hswept.tells earlier entry later pid username hsplit howned
    rw [ProcessKey.isIn_append, hknown, ← ProcessKey.isIn_append] at htells
    exact ⟨event, hget, htells⟩

/-- Two sweeps over one process of alice's. -/
theorem collect_run_twice :
    let alice : ProcessInfo :=
      { pid := some 7, username := some (str "alice"), cpuPercent := some 2 }
    let table : ProcessTable := ⟨[some alice], 0⟩
    Swept table (history [table]) table.snapshot
      (collect table (swept [table] (init oneContext))) :=
  collect_run oneContext_dependable _ _

end ProcessCollector

end Ebabf
