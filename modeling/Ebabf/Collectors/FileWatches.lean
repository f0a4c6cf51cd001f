import Ebabf.Collectors.FileRuns

/-!
# Which roots are watched

`start` schedules every root on an observer, or says why it is not watched. A monitor is started,
closed and swept in any order while files change below its roots. Which changes the observer hands
to the handlers is up to watchdog: each comes with whether it is handed over, and what is asked of
the observer is a hypothesis.
-/

namespace Ebabf

open Py (Str str Exc)
open Transition (run Always)

/-- What `start` finds about a root. What `listing` raises is an `OSError`. -/
structure RootFacts where
  found : Except Exc Bool
  isDir : Except Exc Bool
  accessible : Bool
  listing : Except Exc Unit
  directories : List Str

/-- `_why_unwatchable` -/
def whyUnwatchable (facts : RootFacts) : Except Exc (Option Str) := do
  if !(← facts.found) then return some (str "does not exist")
  if !(← facts.isDir) then return some (str "not a directory")
  if !facts.accessible then
    return some (str "not readable by this process (permissions, or a sandbox)")
  match facts.listing with
  | .error e => return some (str "cannot be listed: " ++ e.describe)
  | .ok _ => return none

/-- The loop of `_count_directories`. -/
def countDirectories (cap : ℕ) : List Str → ℕ → ℕ
  | [], count => count
  | _ :: directories, count =>
    if cap ≤ count + 1 then count + 1 else countDirectories cap directories (count + 1)

/-- What `schedule` of the observer does: an `OSError` is caught, anything else is not. -/
inductive Scheduling
  | scheduled
  | refused (e : Exc)
  | broken (e : Exc)

/-- What one `start` meets: the roots, the observer, and the time. -/
structure StartEnv where
  facts : WatchRoot → RootFacts
  schedule : WatchRoot → Scheduling
  observe : Except Exc Unit
  startedAt : Float

/-- The labels of the roots scheduled on it, and whether its thread runs. -/
structure Observer where
  scheduled : List Str
  running : Bool

/-- An event of watchdog. -/
structure FileEvent where
  eventType : Str
  isDirectory : Bool
  srcPath : Str
  destPath : Str

/-- `getattr(event, "dest_path", "") or event.src_path` -/
def FileEvent.path (event : FileEvent) : Str :=
  if event.destPath ≠ [] then event.destPath else event.srcPath

/-- The collector with its observer. -/
structure WatchedMonitor where
  monitor : FileMonitor
  recursive : WatchRoot → Bool
  observer : Option Observer
  unwatchable : List (Str × Str)
  watchCount : ℕ

namespace WatchedMonitor

def init (context : CollectorContext) (roots : List WatchRoot) (recursive : WatchRoot → Bool) :
    WatchedMonitor where
  monitor := .init context roots none
  recursive
  observer := none
  unwatchable := []
  watchCount := 0

/-- `watched_root_count` -/
def watchedRootCount (m : WatchedMonitor) : ℤ :=
  (m.monitor.roots.length : ℤ) - m.unwatchable.length

def declare (root : WatchRoot) (reason : Str) (m : WatchedMonitor) : WatchedMonitor :=
  { m with unwatchable := m.unwatchable ++ [(root.label, reason)] }

/-- The observer takes a root, and its directories are counted. -/
def watch (root : WatchRoot) (facts : RootFacts) (m : WatchedMonitor) : WatchedMonitor :=
  { m with
    observer := m.observer.map fun o => { o with scheduled := o.scheduled ++ [root.label] }
    watchCount := m.watchCount +
      if m.recursive root then countDirectories 20000 facts.directories 0 else 1 }

/-- The loop of `start`. -/
def watchRoots (env : StartEnv) : List WatchRoot → WatchedMonitor → Except Exc Unit × WatchedMonitor
  | [], m => (.ok (), m)
  | root :: roots, m =>
    match whyUnwatchable (env.facts root) with
    | .error e => (.error e, m)
    | .ok (some reason) => watchRoots env roots (m.declare root reason)
    | .ok none =>
      match env.schedule root with
      | .scheduled => watchRoots env roots (m.watch root (env.facts root))
      | .refused e => watchRoots env roots (m.declare root e.describe)
      | .broken e => (.error e, m)

/-- The observer's thread runs, and the first window begins. -/
def begin (startedAt : Float) (m : WatchedMonitor) : WatchedMonitor :=
  { m with
    observer := m.observer.map fun o => { o with running := true }
    monitor := { m.monitor with lastSweep := some startedAt } }

/-- `start`; a monitor that has an observer is taken to run. -/
def start (env : StartEnv) (m : WatchedMonitor) : Except Exc Unit × WatchedMonitor :=
  match m.observer with
  | some _ => (.ok (), m)
  | none =>
    match watchRoots env m.monitor.roots
        { m with observer := some ⟨[], false⟩, unwatchable := [] } with
    | (.error e, m) => (.error e, m)
    | (.ok _, m) =>
      match env.observe with
      | .error e => (.error e, m)
      | .ok _ => (.ok (), m.begin env.startedAt)

/-- `close` -/
def close (m : WatchedMonitor) : WatchedMonitor := { m with observer := none }

/-- `dispatch`, on the handler of a root. -/
def dispatch (hash : Str → ℤ) (label : Str) (event : FileEvent) (moment : Float)
    (m : WatchedMonitor) : WatchedMonitor :=
  if event.isDirectory then m
  else { m with monitor := m.monitor.record hash label event.eventType event.path moment }

end WatchedMonitor

/-- What happens to a monitor, or below one of its roots: a change is an event of watchdog, which the
root's handler is called with if it is delivered. -/
inductive WatchOp
  | start (env : StartEnv)
  | close
  | sweep
  | change (label : Str) (event : FileEvent) (moment : Float) (delivered : Bool)

def WatchOp.step (hash : Str → ℤ) : WatchOp → WatchedMonitor → WatchedMonitor
  | .start env, m => (m.start env).2
  | .close, m => m.close
  | .sweep, m => { m with monitor := (FileMonitor.collect m.monitor).state }
  | .change label event moment delivered, m =>
    if delivered then m.dispatch hash label event moment else m

namespace WatchedMonitor

/-- Every root before is on the observer or declared. -/
structure Covers (done : List Str) (m : WatchedMonitor) : Prop where
  observer : ∃ o, m.observer = some o ∧
    (o.scheduled ++ m.unwatchable.map Prod.fst).Perm done

variable {m : WatchedMonitor} {env : StartEnv} {done : List Str} {root : WatchRoot}

theorem Covers.declare (h : m.Covers done) (root : WatchRoot) (reason : Str) :
    (m.declare root reason).Covers (done ++ [root.label]) := by
  obtain ⟨o, ho, hperm⟩ := h.observer
  refine ⟨⟨o, ho, ?_⟩⟩
  simp only [WatchedMonitor.declare, List.map_append, List.map_cons, List.map_nil]
  rw [← List.append_assoc]
  exact hperm.append_right _

theorem Covers.watch (h : m.Covers done) (root : WatchRoot) (facts : RootFacts) :
    (m.watch root facts).Covers (done ++ [root.label]) := by
  obtain ⟨o, ho, hperm⟩ := h.observer
  refine ⟨⟨{ o with scheduled := o.scheduled ++ [root.label] }, ?_, ?_⟩⟩
  · simp only [WatchedMonitor.watch, ho, Option.map_some]
  · simp only [WatchedMonitor.watch]
    rw [List.append_assoc]
    refine (List.perm_append_comm.append_left o.scheduled).trans ?_
    rw [← List.append_assoc]
    exact hperm.append_right _

/-- What the loop leaves alone, however it ends. -/
structure Frame (m m' : WatchedMonitor) : Prop where
  monitor : m'.monitor = m.monitor
  observer : ∀ o ∈ m.observer, ∃ o', m'.observer = some o' ∧ o'.running = o.running

theorem Frame.refl (m : WatchedMonitor) : m.Frame m := ⟨rfl, fun o ho => ⟨o, ho, rfl⟩⟩

theorem Frame.trans {m m' m'' : WatchedMonitor} (h : m.Frame m') (h' : m'.Frame m'') :
    m.Frame m'' := by
  refine ⟨h'.monitor.trans h.monitor, fun o ho => ?_⟩
  obtain ⟨o', ho', hrunning⟩ := h.observer o ho
  obtain ⟨o'', ho'', hrunning'⟩ := h'.observer o' ho'
  exact ⟨o'', ho'', hrunning'.trans hrunning⟩

theorem frame_declare (root : WatchRoot) (reason : Str) (m : WatchedMonitor) :
    m.Frame (m.declare root reason) := ⟨rfl, fun o ho => ⟨o, ho, rfl⟩⟩

theorem frame_watch (root : WatchRoot) (facts : RootFacts) (m : WatchedMonitor) :
    m.Frame (m.watch root facts) := by
  refine ⟨rfl, fun o ho => ⟨{ o with scheduled := o.scheduled ++ [root.label] }, ?_, rfl⟩⟩
  simp only [watch, Option.mem_def.mp ho, Option.map_some]

theorem frame_watchRoots (env : StartEnv) (roots : List WatchRoot) (m : WatchedMonitor) :
    m.Frame (watchRoots env roots m).2 := by
  induction roots generalizing m with
  | nil => exact .refl m
  | cons root roots ih =>
    rw [watchRoots]
    split
    · exact .refl m
    · exact (frame_declare root _ m).trans (ih _)
    · split
      · exact (frame_watch root _ m).trans (ih _)
      · exact (frame_declare root _ m).trans (ih _)
      · exact .refl m

/-- When the loop ends every root has been on one of the two lists. -/
theorem covers_watchRoots {roots : List WatchRoot} (h : m.Covers done)
    (hok : (watchRoots env roots m).1 = .ok ()) :
    (watchRoots env roots m).2.Covers (done ++ roots.map WatchRoot.label) := by
  induction roots generalizing m done with
  | nil =>
    rw [List.map_nil, List.append_nil]
    exact h
  | cons root roots ih =>
    have hsplit : done ++ (root :: roots).map WatchRoot.label =
        done ++ [root.label] ++ roots.map WatchRoot.label := by
      rw [List.map_cons, List.append_assoc, List.singleton_append]
    rw [hsplit]
    rw [watchRoots] at hok ⊢
    cases hreason : whyUnwatchable (env.facts root) with
    | error e =>
      rw [hreason] at hok
      cases hok
    | ok answer =>
      rw [hreason] at hok
      cases answer with
      | some reason => exact ih (h.declare root reason) hok
      | none =>
        dsimp only at hok ⊢
        cases hschedule : env.schedule root with
        | scheduled =>
          rw [hschedule] at hok
          exact ih (h.watch root _) hok
        | refused e =>
          rw [hschedule] at hok
          exact ih (h.declare root _) hok
        | broken e =>
          rw [hschedule] at hok
          cases hok

/-- The roots have handlers, and once there is an observer it runs, and each root is on it or
declared. -/
structure Declares (roots : List WatchRoot) (m : WatchedMonitor) : Prop where
  same_roots : m.monitor.roots = roots
  handlers : ∀ root ∈ roots, ∃ activity, m.monitor.handlers.get? root.label = some activity
  observer : ∀ o ∈ m.observer, o.running = true ∧
    (o.scheduled ++ m.unwatchable.map Prod.fst).Perm (roots.map WatchRoot.label)

variable {roots : List WatchRoot}

theorem declares_init (context : CollectorContext) (recursive : WatchRoot → Bool) :
    (init context roots recursive).Declares roots := by
  refine ⟨rfl, fun root hroot => ⟨{}, ?_⟩, nofun⟩
  exact (FileMonitor.get?_handlers_init context roots none root.label).trans
    (if_pos (List.mem_map_of_mem hroot))

theorem start_ok (hobserver : m.observer = none) (hok : (m.start env).1 = .ok ()) :
    ∃ m', watchRoots env m.monitor.roots
        { m with observer := some ⟨[], false⟩, unwatchable := [] } = (.ok (), m') ∧
      (m.start env).2 = m'.begin env.startedAt := by
  unfold WatchedMonitor.start at hok ⊢
  rw [hobserver] at hok ⊢
  dsimp only at hok ⊢
  rcases hran : watchRoots env m.monitor.roots
    { m with observer := some ⟨[], false⟩, unwatchable := [] } with ⟨outcome, m'⟩
  rw [hran] at hok
  cases outcome with
  | error e => cases hok
  | ok _ =>
    dsimp only at hok ⊢
    cases hobserve : env.observe with
    | error e =>
      rw [hobserve] at hok
      cases hok
    | ok _ => exact ⟨m', rfl, rfl⟩

theorem Declares.start (h : m.Declares roots) (hok : (m.start env).1 = .ok ()) :
    (m.start env).2.Declares roots := by
  cases hobserver : m.observer with
  | some o =>
    have hkept : (m.start env).2 = m := by rw [WatchedMonitor.start, hobserver]
    rw [hkept]
    exact h
  | none =>
    obtain ⟨m', hran, hstarted⟩ := start_ok hobserver hok
    rw [h.same_roots] at hran
    have hcovers : Covers [] { m with observer := some ⟨[], false⟩, unwatchable := [] } :=
      ⟨⟨_, rfl, List.Perm.refl _⟩⟩
    have hafter := covers_watchRoots hcovers (congrArg Prod.fst hran)
    have hframe := frame_watchRoots env roots
      { m with observer := some ⟨[], false⟩, unwatchable := [] }
    rw [hran] at hafter hframe
    rw [hstarted]
    obtain ⟨o, ho, hperm⟩ := hafter.observer
    dsimp only at ho hperm
    have hmonitor : m'.monitor = m.monitor := hframe.monitor
    refine ⟨?_, ?_, fun o' ho' => ?_⟩
    · show m'.monitor.roots = roots
      rw [hmonitor]
      exact h.same_roots
    · show ∀ root ∈ roots, ∃ activity, m'.monitor.handlers.get? root.label = some activity
      rw [hmonitor]
      exact h.handlers
    · simp only [begin, ho, Option.map_some, Option.mem_def, Option.some.injEq] at ho'
      rw [← ho']
      exact ⟨rfl, hperm⟩

theorem Declares.dispatch (h : m.Declares roots) (hash : Str → ℤ) (label : Str) (event : FileEvent)
    (moment : Float) : (m.dispatch hash label event moment).Declares roots := by
  unfold WatchedMonitor.dispatch
  split_ifs
  · exact h
  · refine ⟨?_, fun root hroot => ?_, h.observer⟩
    · rw [← h.same_roots]
      unfold FileMonitor.record
      split <;> rfl
    · obtain ⟨activity, hactivity⟩ := h.handlers root hroot
      have hrecord := MonitorRun.get?_handlers_record hash
        ⟨label, event.eventType, event.path, moment⟩ m.monitor root.label
      dsimp only at hrecord ⊢
      rw [hrecord, hactivity]
      split_ifs
      · exact ⟨_, rfl⟩
      · exact ⟨activity, rfl⟩

theorem Declares.sweep (h : m.Declares roots) :
    Declares roots { m with monitor := (FileMonitor.collect m.monitor).state } := by
  obtain ⟨hroots, -, hhandlers⟩ := FileMonitor.sweepRoots_frame
    (m.monitor.windowUntil (timestampOf (m.monitor.context.readings 0)))
    (m.monitor.context.readings 0) m.monitor.roots m.monitor.clocked
  refine ⟨hroots.trans h.same_roots, fun root hroot => ?_, h.observer⟩
  rcases hhandlers root.label with hsame | hempty
  · obtain ⟨activity, hactivity⟩ := h.handlers root hroot
    exact ⟨activity, hsame.trans hactivity⟩
  · exact ⟨{}, hempty⟩

/-- A `start` returns. -/
def Returns (m : WatchedMonitor) : WatchOp → Prop
  | .start env => (m.start env).1 = .ok ()
  | .close | .sweep | .change .. => True

/-- The monitor's observer runs and has the root. -/
def Watches (m : WatchedMonitor) (label : Str) : Prop :=
  ∃ o ∈ m.observer, o.running = true ∧ label ∈ o.scheduled

/-- What is asked of watchdog: a change below a root that the running observer has reaches the
root's handler. Beyond the inotify limit it does not. -/
def HandsOver (m : WatchedMonitor) : WatchOp → Prop
  | .change label _ _ delivered => m.Watches label → delivered = true
  | .start _ | .close | .sweep => True

theorem Declares.step (h : m.Declares roots) (hash : Str → ℤ) {op : WatchOp}
    (hop : m.Returns op) : (op.step hash m).Declares roots := by
  cases op with
  | start env => exact h.start hop
  | close => exact ⟨h.same_roots, h.handlers, nofun⟩
  | sweep => exact h.sweep
  | change label event moment delivered =>
    rw [WatchOp.step]
    split_ifs
    · exact h.dispatch hash label event moment
    · exact h

/-- A change of a file below a root of a monitor that is on is counted, or the root is declared. -/
def Sees (hash : Str → ℤ) (m : WatchedMonitor) : WatchOp → Prop
  | .change label event moment delivered => label ∈ m.monitor.roots.map WatchRoot.label →
    m.observer ≠ none → event.isDirectory = false → (mutationOf event.eventType).isSome = true →
    ((WatchOp.change label event moment delivered).step hash m).monitor.pending label =
        m.monitor.pending label + 1 ∨
      ∃ reason, (label, reason) ∈ m.unwatchable
  | .start _ | .close | .sweep => True

theorem pending_record (hash : Str → ℤ) {label eventType path : Str} (moment : Float)
    {monitor : FileMonitor} {activity : FileActivity}
    (h : monitor.handlers.get? label = some activity) (hmutation : (mutationOf eventType).isSome) :
    (monitor.record hash label eventType path moment).pending label =
      monitor.pending label + 1 := by
  have hrecord := MonitorRun.get?_handlers_record hash ⟨label, eventType, path, moment⟩ monitor
    label
  dsimp only at hrecord
  rw [FileMonitor.pending, FileMonitor.pending, hrecord, if_pos rfl, h]
  simp only [Option.map_some, Option.getD_some, FileActivity.total_record, hmutation, ↓reduceIte]

/-- While the monitor is on, no root is left out. -/
theorem Declares.watches (h : m.Declares roots) {label : Str}
    (hlabel : label ∈ roots.map WatchRoot.label) (hobserver : m.observer ≠ none) :
    m.Watches label ∨ ∃ reason, (label, reason) ∈ m.unwatchable := by
  obtain ⟨o, ho⟩ := Option.ne_none_iff_exists'.mp hobserver
  obtain ⟨hrunning, hperm⟩ := h.observer o ho
  rcases List.mem_append.mp (hperm.mem_iff.mpr hlabel) with hscheduled | hdeclared
  · exact .inl ⟨o, ho, hrunning, hscheduled⟩
  · obtain ⟨⟨label, reason⟩, hmem, rfl⟩ := List.mem_map.mp hdeclared
    exact .inr ⟨reason, hmem⟩

theorem Declares.sees (h : m.Declares roots) (hash : Str → ℤ) {op : WatchOp}
    (hop : m.HandsOver op) : m.Sees hash op := by
  cases op with
  | start env => trivial
  | close => trivial
  | sweep => trivial
  | change label event moment delivered =>
    intro hlabel hobserver hfile hmutation
    rw [h.same_roots] at hlabel
    rcases h.watches hlabel hobserver with hwatches | hdeclared
    · left
      obtain ⟨root, hroot, rfl⟩ := List.mem_map.mp hlabel
      obtain ⟨activity, hactivity⟩ := h.handlers root hroot
      rw [WatchOp.step, if_pos (hop hwatches), WatchedMonitor.dispatch,
        if_neg (Bool.eq_false_iff.mp hfile)]
      exact pending_record hash moment hactivity hmutation
    · exact .inr hdeclared

theorem Declares.watchedRootCount (h : m.Declares roots) {o : Observer} (ho : o ∈ m.observer) :
    m.watchedRootCount = o.scheduled.length := by
  have hlength := (h.observer o ho).2.length_eq
  rw [List.length_append, List.length_map, List.length_map] at hlength
  rw [WatchedMonitor.watchedRootCount, h.same_roots, ← hlength]
  push_cast
  ring

/-- However a monitor is started, closed and swept, as long as no start raises: while it is on, its
observer runs, has each root that is not on the list of those not watched, and as many as the
number of watched roots says. Where the observer hands over what changes below the roots it has,
every change of a file below a root is counted by the root's handler, or the root is on that
list. -/
theorem no_silent_root (hash : Str → ℤ) (context : CollectorContext) (roots : List WatchRoot)
    (recursive : WatchRoot → Bool) (ops : List WatchOp)
    (hreturns : Always (WatchOp.step hash) Returns ops (init context roots recursive))
    (hdelivers : Always (WatchOp.step hash) HandsOver ops (init context roots recursive)) :
    Always (WatchOp.step hash) (Sees hash) ops (init context roots recursive) ∧
      let m := run (WatchOp.step hash) ops (init context roots recursive)
      ∀ o ∈ m.observer, m.watchedRootCount = o.scheduled.length ∧
        ∀ root ∈ roots, m.Watches root.label ∨ ∃ reason, (root.label, reason) ∈ m.unwatchable := by
  have hinit : (init context roots recursive).Declares roots := declares_init context recursive
  constructor
  · refine Always.of_invariant (I := Declares roots) (Q := fun m op => m.Returns op ∧ m.HandsOver op)
      (fun op m hm hop => ⟨?_, ?_⟩) hinit ?_
    · exact hm.step hash hop.1
    · exact hm.sees hash hop.2
    · intro before op after hops
      exact ⟨hreturns before op after hops, hdelivers before op after hops⟩
  · intro m o ho
    have hend : m.Declares roots := hreturns.run_invariant (I := Declares roots)
      (fun op m hm hop => hm.step hash hop) hinit
    refine ⟨hend.watchedRootCount ho, fun root hroot => ?_⟩
    exact hend.watches (List.mem_map_of_mem hroot) (Option.ne_none_iff_exists'.mpr ⟨o, ho⟩)

/-- A directory that can be watched. -/
def plainFacts : RootFacts where
  found := .ok true
  isDir := .ok true
  accessible := true
  listing := .ok ()
  directories := []

/-- Every root can be watched but the home directory, which is hidden. -/
def hiddenHome : StartEnv where
  facts root := if root.label = str "home" then { plainFacts with found := .ok false }
    else plainFacts
  schedule _ := .scheduled
  observe := .ok ()
  startedAt := 1.0

def etcAndHome : List WatchRoot :=
  [⟨str "/etc", str "etc", str "__host__"⟩, ⟨str "/home/u", str "home", str "u"⟩]

def passwdChange : FileEvent := ⟨str "modified", false, str "/etc/passwd", []⟩

/-- Of two roots one is hidden, and the monitor is started twice; what changes at home is missed,
and so is what changes while the monitor is off. -/
def hiddenHomeRun : List WatchOp :=
  [.start hiddenHome, .change (str "home") passwdChange 2.0 false, .close,
    .change (str "etc") passwdChange 2.5 false, .start hiddenHome,
    .change (str "etc") passwdChange 3.0 true]

theorem no_silent_root_hidden :
    Always (WatchOp.step fun _ => 0) (Sees fun _ => 0) hiddenHomeRun
        (init oneContext etcAndHome fun _ => true) ∧
      (run (WatchOp.step fun _ => 0) hiddenHomeRun
        (init oneContext etcAndHome fun _ => true)).monitor.pending (str "etc") = 1 := by
  refine ⟨(no_silent_root (fun _ => 0) oneContext etcAndHome (fun _ => true) hiddenHomeRun
    ?_ ?_).1, rfl⟩
  · simp only [hiddenHomeRun, Transition.always_cons]
    exact ⟨rfl, trivial, trivial, trivial, rfl, trivial, Transition.always_nil _ _⟩
  · simp only [hiddenHomeRun, Transition.always_cons]
    refine ⟨trivial, ?_, trivial, ?_, trivial, fun _ => rfl, Transition.always_nil _ _⟩
    · rintro ⟨o, ho, -, hscheduled⟩
      cases ho
      exact absurd hscheduled (by decide)
    · rintro ⟨o, ho, -⟩
      cases ho

/-- There is an observer, and it does not run. -/
def Blind (m : WatchedMonitor) : Prop := ∃ o, m.observer = some o ∧ o.running = false

/-- What is asked of watchdog here: an observer that does not run hands nothing over. -/
def NeedsRunning (m : WatchedMonitor) : WatchOp → Prop
  | .change _ _ _ delivered => delivered = true → ∃ o ∈ m.observer, o.running = true
  | .start _ | .close | .sweep => True

/-- Starting returns without doing anything, and no change is counted. -/
def Ignores (hash : Str → ℤ) (m : WatchedMonitor) : WatchOp → Prop
  | .start env => m.start env = (.ok (), m)
  | .change label event moment delivered =>
    (WatchOp.change label event moment delivered).step hash m = m
  | .close | .sweep => True

theorem blind_of_start_error {e : Exc} (h : (m.start env).1 = .error e) :
    (m.start env).2.Blind := by
  unfold WatchedMonitor.start at h ⊢
  cases hobserver : m.observer with
  | some o =>
    rw [hobserver] at h
    cases h
  | none =>
    rw [hobserver] at h
    have hframe := frame_watchRoots env m.monitor.roots
      { m with observer := some ⟨[], false⟩, unwatchable := [] }
    dsimp only at h ⊢
    rcases hran : watchRoots env m.monitor.roots
      { m with observer := some ⟨[], false⟩, unwatchable := [] } with ⟨outcome, m'⟩
    rw [hran] at h hframe
    obtain ⟨o, ho, hrunning⟩ := hframe.observer ⟨[], false⟩ rfl
    cases outcome with
    | error e' => exact ⟨o, ho, hrunning⟩
    | ok _ =>
      dsimp only at h ⊢
      cases hobserve : env.observe with
      | error e' => exact ⟨o, ho, hrunning⟩
      | ok _ =>
        rw [hobserve] at h
        cases h

theorem Blind.ignores (h : m.Blind) (hash : Str → ℤ) {op : WatchOp} (hop : m.NeedsRunning op) :
    m.Ignores hash op := by
  obtain ⟨o, ho, hrunning⟩ := h
  cases op with
  | start env => simp only [Ignores, WatchedMonitor.start, ho]
  | change label event moment delivered =>
    cases delivered with
    | false => rfl
    | true =>
      obtain ⟨o', ho', hrunning'⟩ := hop rfl
      rw [ho, Option.mem_some_iff] at ho'
      rw [← ho', hrunning] at hrunning'
      cases hrunning'
  | close => trivial
  | sweep => trivial

theorem Blind.step (h : m.Blind) (hash : Str → ℤ) {op : WatchOp} (hop : op ≠ .close)
    (hdelivers : m.NeedsRunning op) : (op.step hash m).Blind := by
  have hignores := h.ignores hash hdelivers
  cases op with
  | start env =>
    rw [WatchOp.step, show m.start env = (.ok (), m) from hignores]
    exact h
  | change label event moment delivered =>
    rw [show (WatchOp.change label event moment delivered).step hash m = m from hignores]
    exact h
  | close => exact absurd rfl hop
  | sweep => exact h

/-- Once a `start` has raised, and until the monitor is closed, it can be started again as often
as one likes without an error, and counts no change below any root: its observer does not run. -/
theorem blind_after_failed_start (hash : Str → ℤ) (m : WatchedMonitor) (env : StartEnv) {e : Exc}
    (hraised : (m.start env).1 = .error e) (ops : List WatchOp) (hopen : ∀ op ∈ ops, op ≠ .close)
    (hdelivers : Always (WatchOp.step hash) NeedsRunning ops (m.start env).2) :
    Always (WatchOp.step hash) (Ignores hash) ops (m.start env).2 := by
  have hguarded : Always (WatchOp.step hash) (fun m op => op ≠ .close ∧ m.NeedsRunning op) ops
      (m.start env).2 := by
    rintro before op after rfl
    exact ⟨hopen op (List.mem_append_right _ List.mem_cons_self), hdelivers before op after rfl⟩
  refine Always.of_invariant (fun op m hm hop => ⟨?_, ?_⟩) (blind_of_start_error hraised) hguarded
  · exact hm.step hash hop.1 hop.2
  · exact hm.ignores hash hop.2

/-- The kernel has no inotify instance left, at first. -/
theorem blind_after_failed_start_instances :
    let refusing : StartEnv := { hiddenHome with
      observe := .error ⟨.other (str "OSError"), str "[Errno 24] inotify instance limit reached"⟩ }
    let monitor := init oneContext etcAndHome fun _ => true
    Always (WatchOp.step fun _ => 0) (Ignores fun _ => 0)
      [.start hiddenHome, .change (str "etc") passwdChange 2.0 false]
      (monitor.start refusing).2 := by
  intro refusing monitor
  refine blind_after_failed_start (fun _ => 0) monitor refusing
    (e := ⟨.other (str "OSError"), str "[Errno 24] inotify instance limit reached"⟩) rfl _ ?_ ?_
  · intro op hop
    simp only [List.mem_cons, List.not_mem_nil, or_false] at hop
    rcases hop with rfl | rfl
    · exact nofun
    · exact nofun
  · simp only [Transition.always_cons]
    exact ⟨trivial, nofun, Transition.always_nil _ _⟩

end WatchedMonitor
end Ebabf
