import Ebabf.Collectors.Base
import Ebabf.Py.Instant
import Ebabf.Py.Statistics
import Mathlib.Data.List.Infix

/-!
# The file monitor

Each watch root has a handler that counts the mutations below it. A sweep drains the handlers in
turn and yields one event for each root that had any. Paths are hashed, never stored; which hash
is left open.
-/

namespace Ebabf

open Py (Str str Exc Datetime Json Dict Proc)

inductive Mutation
  | created
  | deleted
  | modified
  | moved
deriving DecidableEq

def MUTATION_EVENTS : List (Str × Mutation) :=
  [(str "created", .created), (str "deleted", .deleted), (str "modified", .modified),
    (str "moved", .moved)]

/-- The counter of an event type, if it changes a file. -/
def mutationOf (eventType : Str) : Option Mutation := MUTATION_EVENTS.lookup eventType

def SENSITIVE_CATEGORIES : List (Str × List Str) :=
  [(str "system_config", [str "/etc"]),
    (str "ssh_keys", [str ".ssh"]),
    (str "autostart", [str ".config/autostart", str "/etc/systemd/system", str ".config/systemd/user"]),
    (str "shell_init", [str ".bashrc", str ".bash_profile", str ".profile", str ".zshrc"])]

/-- Whether a path falls under a marker: an absolute one is a directory, a relative one a text. -/
def fallsUnder (path marker : Str) : Bool :=
  if str "/" <+: marker then path == marker || decide (marker ++ str "/" <+: path)
  else decide (str "/" ++ marker <:+: path) || decide (marker <:+ path)

/-- `classify_sensitive` -/
def classifySensitive (path : Str) : Option Str :=
  (SENSITIVE_CATEGORIES.find? fun category => category.2.any (fallsUnder path)).map Prod.fst

/-- `FileActivity`: what one root has seen since the last sweep. -/
structure FileActivity where
  created : ℕ := 0
  modified : ℕ := 0
  deleted : ℕ := 0
  moved : ℕ := 0
  ignored : ℕ := 0
  distinctPaths : List Str := []
  sensitiveCategories : List Str := []
  firstSeen : Float := 0.0
  lastSeen : Float := 0.0

namespace FileActivity

def total (a : FileActivity) : ℕ := a.created + a.modified + a.deleted + a.moved

def seenAt (moment : Float) (a : FileActivity) : FileActivity :=
  { a with
    firstSeen := if a.firstSeen == 0.0 then moment else a.firstSeen
    lastSeen := moment }

def count (mutation : Mutation) (a : FileActivity) : FileActivity :=
  match mutation with
  | .created => { a with created := a.created + 1 }
  | .deleted => { a with deleted := a.deleted + 1 }
  | .modified => { a with modified := a.modified + 1 }
  | .moved => { a with moved := a.moved + 1 }

/-- The path by its hash, and its category if it is sensitive. -/
def notePath (hash : Str → ℤ) (path : Str) (a : FileActivity) : FileActivity :=
  { a with
    distinctPaths := a.distinctPaths.insert (Py.Json.intText (hash path))
    sensitiveCategories := match classifySensitive path with
      | none => a.sensitiveCategories
      | some category => a.sensitiveCategories.insert category }

/-- `record` -/
def record (hash : Str → ℤ) (eventType path : Str) (moment : Float) (a : FileActivity) :
    FileActivity :=
  match mutationOf eventType with
  | none => { a.seenAt moment with ignored := a.ignored + 1 }
  | some mutation => ((a.seenAt moment).count mutation).notePath hash path

/-- A record counts once if it is of a mutation, wherever its path is. -/
theorem total_record (hash : Str → ℤ) (eventType path : Str) (moment : Float) (a : FileActivity) :
    (a.record hash eventType path moment).total =
      a.total + if (mutationOf eventType).isSome then 1 else 0 := by
  unfold record
  cases mutationOf eventType with
  | none => rfl
  | some mutation =>
    cases mutation <;> simp only [notePath, count, seenAt, total, Option.isSome_some, ↓reduceIte] <;>
      omega

end FileActivity

structure WatchRoot where
  path : Str
  label : Str
  subject : Str
deriving DecidableEq

/-- The collector, with the activity of each root under its label. -/
structure FileMonitor where
  context : CollectorContext
  roots : List WatchRoot
  handlers : Dict FileActivity
  lastSweep : Option Float

/-- `swept_at.timestamp()` -/
def timestampOf (d : Datetime) : Float :=
  Py.floatOfRatio (((d.instant - Datetime.epoch.instant : ℤ) : ℚ) / 1000000)

namespace FileMonitor

/-- `FileMonitorCollector(context, roots=…)`, started at `startedAt` if it is. -/
def init (context : CollectorContext) (roots : List WatchRoot) (startedAt : Option Float) :
    FileMonitor where
  context
  roots
  handlers := Dict.ofPairs (roots.map fun root => (root.label, {}))
  lastSweep := startedAt

/-- The handler of a root counts an event. -/
def record (hash : Str → ℤ) (label eventType path : Str) (moment : Float) (m : FileMonitor) :
    FileMonitor :=
  match m.handlers.get? label with
  | none => m
  | some activity =>
    { m with handlers := m.handlers.set label (activity.record hash eventType path moment) }

/-- `self._handlers[label].drain()` -/
def drain (label : Str) : Proc Event FileMonitor FileActivity := fun m =>
  match m.handlers.get? label with
  | none => ⟨.error ⟨.other (str "KeyError"), str "'" ++ label ++ str "'"⟩, [], m⟩
  | some activity => ⟨.ok activity, [], { m with handlers := m.handlers.set label {} }⟩

/-- `now - self._last_sweep if self._last_sweep else None` -/
def windowUntil (now : Float) (m : FileMonitor) : Option Float :=
  (m.lastSweep.filter fun last => last != 0.0).map fun last => now - last

/-- `round(activity.total / window, 3) if window and window > 0 else None` -/
def modificationRate (activity : FileActivity) (window : Option Float) : Option Float :=
  (window.filter fun w => w != 0.0 && 0.0 < w).map fun w =>
    Py.roundThousandths (Float.ofNat activity.total / w)

def sortedTexts (texts : List Str) : List Str := texts.mergeSort fun a b => decide (a ≤ b)

def floatOrNull (x : Option Float) : Json := (x.map Json.float).getD .null

/-- `_describe` -/
def describe (root : WatchRoot) (activity : FileActivity) (window : Option Float) : Mapping :=
  Dict.ofPairs
    [(str "sensitive_path_write", .json (.bool !activity.sensitiveCategories.isEmpty)),
     (str "file_modification_rate", .json (floatOrNull (modificationRate activity window))),
     (str "watch_root_label", .json (.str root.label)),
     (str "sensitive_categories",
       .json (.arr ((sortedTexts activity.sensitiveCategories).map .str))),
     (str "files_created", .json (.int activity.created)),
     (str "files_modified", .json (.int activity.modified)),
     (str "files_deleted", .json (.int activity.deleted)),
     (str "files_moved", .json (.int activity.moved)),
     (str "events_total", .json (.int activity.total)),
     (str "ignored_events", .json (.int activity.ignored)),
     (str "distinct_file_count", .json (.int activity.distinctPaths.length)),
     (str "window_seconds", .json (floatOrNull
       ((window.filter fun w => w != 0.0).map Py.roundThousandths)))]

def describedKeys : List Str :=
  [str "sensitive_path_write", str "file_modification_rate", str "watch_root_label",
    str "sensitive_categories", str "files_created", str "files_modified", str "files_deleted",
    str "files_moved", str "events_total", str "ignored_events", str "distinct_file_count",
    str "window_seconds"]

theorem nodup_describedKeys : describedKeys.Nodup := by decide

/-- `self._build_event(…)` for a root with activity. -/
def build (root : WatchRoot) (activity : FileActivity) (window : Option Float)
    (sweptAt : Datetime) : Proc Event FileMonitor Event := fun m =>
  let built := Collector.buildEvent .file root.subject (describe root activity window)
    (some sweptAt) m.context
  ⟨built.outcome, built.trace, { m with context := built.state }⟩

/-- The roots in turn, until an event cannot be built. -/
def sweepRoots (window : Option Float) (sweptAt : Datetime) :
    List WatchRoot → Proc Event FileMonitor Unit
  | [] => pure ()
  | root :: roots => do
    let activity ← drain root.label
    if activity.total = 0 then sweepRoots window sweptAt roots
    else
      let event ← build root activity window sweptAt
      Proc.emit event
      sweepRoots window sweptAt roots

/-- The collector once the one reading of a sweep is taken. -/
def clocked (m : FileMonitor) : FileMonitor :=
  { m with
    context := { m.context with readings := fun n => m.context.readings (n + 1) }
    lastSweep := some (timestampOf (m.context.readings 0)) }

/-- `collect` -/
def collect : Proc Event FileMonitor Unit := fun m =>
  let sweptAt := m.context.readings 0
  sweepRoots (m.windowUntil (timestampOf sweptAt)) sweptAt m.roots m.clocked

end FileMonitor

/-- A directory of each home that is watched. -/
inductive HomeFolder
  | documents
  | desktop
  | ssh
  | autostart
deriving DecidableEq

def HomeFolder.name : HomeFolder → Str
  | .documents => str "Documents"
  | .desktop => str "Desktop"
  | .ssh => str ".ssh"
  | .autostart => str ".config/autostart"

def HomeFolder.all : List HomeFolder := [.documents, .desktop, .ssh, .autostart]

inductive SystemFolder
  | config
  | autostart
deriving DecidableEq

def SystemFolder.all : List SystemFolder := [.config, .autostart]

def SystemFolder.root : SystemFolder → WatchRoot
  | .config => ⟨str "/etc", str "system_config", str "__host__"⟩
  | .autostart => ⟨str "/etc/systemd/system", str "autostart_system", str "__host__"⟩

/-- An entry of `/home`, with the watched directories that exist below it. -/
structure HomeEntry where
  name : Str
  isDir : Bool
  folders : HomeFolder → Bool
  named : name ≠ []

/-- What the default roots are chosen from: the system directories that exist, and the entries of
`/home` in the order in which they are listed. -/
structure HostFiles where
  system : SystemFolder → Bool
  home : Option (List HomeEntry)
  distinct : ∀ entries ∈ home, (entries.map HomeEntry.name).Nodup

namespace HostFiles

/-- The homes, sorted. -/
def homes (files : HostFiles) : List HomeEntry :=
  ((files.home.getD []).mergeSort fun a b => decide (a.name ≤ b.name)).filter HomeEntry.isDir

def homeRoot (owner : Str) (folder : HomeFolder) : WatchRoot where
  path := str "/home/" ++ owner ++ str "/" ++ folder.name
  label := owner ++ str ":" ++ folder.name
  subject := owner

/-- `default_watch_roots` -/
def defaultWatchRoots (files : HostFiles) : List WatchRoot :=
  (SystemFolder.all.filter files.system).map SystemFolder.root ++
    files.homes.flatMap fun home => (HomeFolder.all.filter home.folders).map (homeRoot home.name)

end HostFiles

namespace FileMonitor

/-- The mutations that a root's handler holds. -/
def pending (label : Str) (m : FileMonitor) : ℕ :=
  ((m.handlers.get? label).map FileActivity.total).getD 0

theorem get?_ofPairs_replicate (labels : List Str) (label : Str) :
    (Dict.ofPairs (labels.map fun l => (l, ({} : FileActivity)))).get? label =
      if label ∈ labels then some {} else none := by
  have hfold : ∀ (labels : List Str) (d : Dict FileActivity),
      ((labels.map fun l => (l, ({} : FileActivity))).foldl (fun d p => d.set p.1 p.2) d).get? label =
        if label ∈ labels then some {} else d.get? label := by
    intro labels
    induction labels with
    | nil => intro d; simp
    | cons l labels ih =>
      intro d
      rw [List.map_cons, List.foldl_cons, ih, Dict.get?_set]
      by_cases hmem : label ∈ labels
      · simp [hmem]
      · by_cases heq : label = l <;> simp [hmem, heq]
  exact hfold labels ∅

theorem get?_handlers_init (context : CollectorContext) (roots : List WatchRoot)
    (startedAt : Option Float) (label : Str) :
    (init context roots startedAt).handlers.get? label =
      if label ∈ roots.map WatchRoot.label then some {} else none := by
  rw [← get?_ofPairs_replicate, List.map_map]
  rfl

/-- The collector once the handler of a label is drained. -/
def drained (label : Str) (m : FileMonitor) : FileMonitor :=
  { m with handlers := m.handlers.set label {} }

theorem drain_of_some {label : Str} {m : FileMonitor} {activity : FileActivity}
    (h : m.handlers.get? label = some activity) :
    drain label m = ⟨.ok activity, [], m.drained label⟩ := by
  rw [drain, h]
  rfl

/-- What a label without a handler raises. -/
def unwatched (label : Str) : Exc := ⟨.other (str "KeyError"), str "'" ++ label ++ str "'"⟩

theorem drain_of_none {label : Str} {m : FileMonitor} (h : m.handlers.get? label = none) :
    drain label m = ⟨.error (unwatched label), [], m⟩ := by
  rw [drain, h]
  rfl

/-- The label that an event carries. -/
def labelOf (event : Event) : Option AnyValue :=
  event.fields.rawAttributes.get? (str "watch_root_label")

theorem label_describe (root : WatchRoot) (activity : FileActivity) (window : Option Float) :
    (describe root activity window).get? (str "watch_root_label") =
      some (.json (.str root.label)) := by
  unfold describe
  rw [Dict.get?_ofPairs_of_nodup (by exact nodup_describedKeys)]
  rfl

theorem build_eq (root : WatchRoot) (activity : FileActivity) (window : Option Float)
    (sweptAt : Datetime) (m : FileMonitor) :
    build root activity window sweptAt m =
      ⟨(Collector.buildEvent .file root.subject (describe root activity window) (some sweptAt)
          m.context).outcome, [],
        { m with context := (Collector.buildEvent .file root.subject
            (describe root activity window) (some sweptAt) m.context).state }⟩ := by
  rw [build, Collector.trace_buildEvent]

section Sweep

variable {window : Option Float} {sweptAt : Datetime} {root : WatchRoot} {roots : List WatchRoot}
  {m : FileMonitor} {activity : FileActivity}

theorem sweepRoots_missing (h : m.handlers.get? root.label = none) :
    sweepRoots window sweptAt (root :: roots) m = ⟨.error (unwatched root.label), [], m⟩ := by
  have hdrain := drain_of_none h
  rw [sweepRoots, Proc.bind_of_error (congrArg Py.Ran.outcome hdrain), hdrain]

theorem sweepRoots_quiet (h : m.handlers.get? root.label = some activity)
    (htotal : activity.total = 0) :
    sweepRoots window sweptAt (root :: roots) m =
      sweepRoots window sweptAt roots (m.drained root.label) := by
  have hdrain := drain_of_some h
  rw [sweepRoots, Proc.bind_of_ok (congrArg Py.Ran.outcome hdrain), hdrain, if_pos htotal]
  rfl

theorem sweepRoots_error (h : m.handlers.get? root.label = some activity)
    (htotal : activity.total ≠ 0) {e : Exc}
    (hbuild : (build root activity window sweptAt (m.drained root.label)).outcome = .error e) :
    sweepRoots window sweptAt (root :: roots) m =
      ⟨.error e, [], (build root activity window sweptAt (m.drained root.label)).state⟩ := by
  have hdrain := drain_of_some h
  rw [sweepRoots, Proc.bind_of_ok (congrArg Py.Ran.outcome hdrain), hdrain, if_neg htotal,
    Proc.bind_of_error hbuild, build_eq]
  rfl

theorem sweepRoots_event (h : m.handlers.get? root.label = some activity)
    (htotal : activity.total ≠ 0) {event : Event}
    (hbuild : (build root activity window sweptAt (m.drained root.label)).outcome = .ok event) :
    sweepRoots window sweptAt (root :: roots) m =
      let rest := sweepRoots window sweptAt roots
        (build root activity window sweptAt (m.drained root.label)).state
      ⟨rest.outcome, event :: rest.trace, rest.state⟩ := by
  have hdrain := drain_of_some h
  rw [sweepRoots, Proc.bind_of_ok (congrArg Py.Ran.outcome hdrain), hdrain, if_neg htotal,
    Proc.bind_of_ok hbuild, Proc.bind_of_ok rfl, build_eq]
  rfl

end Sweep

theorem sweepRoots_frame (window : Option Float) (sweptAt : Datetime) (roots : List WatchRoot) :
    ∀ m : FileMonitor,
      let ran := sweepRoots window sweptAt roots m
      ran.state.roots = m.roots ∧ ran.state.lastSweep = m.lastSweep ∧
        ∀ label, ran.state.handlers.get? label = m.handlers.get? label ∨
          ran.state.handlers.get? label = some {} := by
  induction roots with
  | nil => exact fun m => ⟨rfl, rfl, fun label => .inl rfl⟩
  | cons root roots ih =>
    intro m
    have hdrained : ∀ label, (m.drained root.label).handlers.get? label = m.handlers.get? label ∨
        (m.drained root.label).handlers.get? label = some {} := by
      intro label
      rw [drained, Dict.get?_set]
      split_ifs
      · exact .inr rfl
      · exact .inl rfl
    have hafter : ∀ m' : FileMonitor, m'.handlers = (m.drained root.label).handlers →
        ∀ label, (sweepRoots window sweptAt roots m').state.handlers.get? label =
            m.handlers.get? label ∨
          (sweepRoots window sweptAt roots m').state.handlers.get? label = some {} := by
      intro m' hm' label
      rcases (ih m').2.2 label with hsame | hempty
      · rw [hsame, hm']
        exact hdrained label
      · exact .inr hempty
    dsimp only
    cases hactivity : m.handlers.get? root.label with
    | none =>
      rw [sweepRoots_missing hactivity]
      exact ⟨rfl, rfl, fun label => .inl rfl⟩
    | some activity =>
      by_cases htotal : activity.total = 0
      · rw [sweepRoots_quiet hactivity htotal]
        exact ⟨(ih _).1, (ih _).2.1, hafter _ rfl⟩
      · cases hbuild : (build root activity window sweptAt (m.drained root.label)).outcome with
        | error e =>
          rw [sweepRoots_error hactivity htotal hbuild, build_eq]
          exact ⟨rfl, rfl, hdrained⟩
        | ok event =>
          rw [sweepRoots_event hactivity htotal hbuild, build_eq]
          exact ⟨(ih _).1, (ih _).2.1, hafter _ rfl⟩

/-- The roots of a sweep can be built for, and each has a handler of its own. -/
structure Ready (roots : List WatchRoot) (m : FileMonitor) : Prop where
  context : m.context.Dependable
  distinct : (roots.map WatchRoot.label).Nodup
  subjects : ∀ root ∈ roots, root.subject ≠ []
  handlers : ∀ root ∈ roots, ∃ activity, m.handlers.get? root.label = some activity

theorem Ready.tail {root : WatchRoot} {roots : List WatchRoot} {m m' : FileMonitor}
    (h : m.Ready (root :: roots)) (hcontext : m'.context.Dependable)
    (hhandlers : m'.handlers = m.handlers.set root.label {}) : m'.Ready roots := by
  refine ⟨hcontext, h.distinct.of_cons, fun r hr => h.subjects r (List.mem_cons_of_mem _ hr), ?_⟩
  intro r hr
  rw [hhandlers, Dict.get?_set]
  split_ifs
  · exact ⟨_, rfl⟩
  · exact h.handlers r (List.mem_cons_of_mem _ hr)

theorem filter_pending_of_drained {root : WatchRoot} {roots : List WatchRoot} {m m' : FileMonitor}
    (hroot : root.label ∉ roots.map WatchRoot.label)
    (hm' : m'.handlers = m.handlers.set root.label {}) :
    (roots.filter fun r => m'.pending r.label ≠ 0) =
      roots.filter fun r => m.pending r.label ≠ 0 := by
  apply List.filter_congr
  intro r hr
  have hne : r.label ≠ root.label := by
    intro heq
    exact hroot (heq ▸ List.mem_map_of_mem hr)
  rw [pending, hm', Dict.get?_set, if_neg hne]
  rfl

theorem get?_handlers_of_drained {root : WatchRoot} (roots : List WatchRoot) {m m' : FileMonitor}
    (label : Str) (hm' : m'.handlers = m.handlers.set root.label {}) :
    (if label ∈ roots.map WatchRoot.label then some {} else m'.handlers.get? label) =
      if label ∈ (root :: roots).map WatchRoot.label then some {}
      else m.handlers.get? label := by
  rw [hm', Dict.get?_set, List.map_cons]
  by_cases hmem : label ∈ roots.map WatchRoot.label
  · rw [if_pos hmem, if_pos (List.mem_cons_of_mem _ hmem)]
  · by_cases heq : label = root.label
    · rw [if_neg hmem, if_pos heq, if_pos (heq ▸ List.mem_cons_self)]
    · rw [if_neg hmem, if_neg heq, if_neg (by simp [heq, hmem])]

/-- A sweep of roots that are ready empties their handlers and yields one event for each root that
had mutations, with its label. -/
theorem sweepRoots_of_ready (window : Option Float) {sweptAt : Datetime}
    (haware : sweptAt.utcoffset ≠ none) (roots : List WatchRoot) :
    ∀ m : FileMonitor, m.Ready roots →
      let ran := sweepRoots window sweptAt roots m
      ran.outcome = .ok () ∧ ran.state.context.Dependable ∧ ran.state.roots = m.roots ∧
        (∀ label, ran.state.handlers.get? label =
          if label ∈ roots.map WatchRoot.label then some {} else m.handlers.get? label) ∧
        ran.trace.map labelOf =
          (roots.filter fun root => m.pending root.label ≠ 0).map fun root =>
            some (.json (.str root.label)) := by
  induction roots with
  | nil =>
    intro m h
    exact ⟨rfl, h.context, rfl, fun label => by simp [sweepRoots], rfl⟩
  | cons root roots ih =>
    intro m h
    obtain ⟨activity, hactivity⟩ := h.handlers root List.mem_cons_self
    have hroot : root.label ∉ roots.map WatchRoot.label := (List.nodup_cons.mp h.distinct).1
    have hpending : m.pending root.label = activity.total := by
      rw [pending, hactivity]
      rfl
    by_cases htotal : activity.total = 0
    · have hready : (m.drained root.label).Ready roots := h.tail h.context rfl
      obtain ⟨hok, hcontext, hroots, hhandlers, htrace⟩ := ih _ hready
      dsimp only
      rw [sweepRoots_quiet hactivity htotal]
      refine ⟨hok, hcontext, hroots, ?_, ?_⟩
      · intro label
        rw [hhandlers, get?_handlers_of_drained roots label rfl]
      · rw [htrace, filter_pending_of_drained hroot rfl,
          List.filter_cons_of_neg (by simp [hpending, htotal])]
    · obtain ⟨hstate, event, hevent⟩ := Collector.buildEvent_of_dependable h.context .file
        (h.subjects root List.mem_cons_self) (describe root activity window) haware
      have hbuild : (build root activity window sweptAt (m.drained root.label)).outcome =
          .ok event := by
        rw [build_eq]
        exact hevent
      have hready : (build root activity window sweptAt (m.drained root.label)).state.Ready roots :=
        h.tail (by rw [build_eq]; exact hstate) (by rw [build_eq]; rfl)
      obtain ⟨hok, hcontext, hroots, hhandlers, htrace⟩ := ih _ hready
      have hlabel : labelOf event = some (.json (.str root.label)) := by
        rw [labelOf, (Collector.fields_of_buildEvent hevent).1, label_describe]
      dsimp only
      rw [sweepRoots_event hactivity htotal hbuild]
      refine ⟨hok, hcontext, hroots.trans (by rw [build_eq]; rfl), ?_, ?_⟩
      · intro label
        rw [hhandlers, get?_handlers_of_drained roots label (by rw [build_eq]; rfl)]
      · rw [List.filter_cons_of_pos (by simp [hpending, htotal]), List.map_cons, List.map_cons,
          htrace, filter_pending_of_drained hroot (by rw [build_eq]; rfl), hlabel]

end FileMonitor

end Ebabf
