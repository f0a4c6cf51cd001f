import Ebabf.Collectors.FileMonitor
import Ebabf.Storage.EventStore

/-!
# The owners of homes

Two hosts whose homes differ in the names of their owners only, with the same activity below them.
The label of a root names the owner and is copied into the event.
-/

namespace Ebabf

open Py (Str str Exc Datetime Json Dict Proc)

/-- A default root by what it is. -/
inductive Place
  | system (folder : SystemFolder)
  | home (owner : Str) (folder : HomeFolder)
deriving DecidableEq

namespace Place

def root : Place → WatchRoot
  | .system folder => folder.root
  | .home owner folder => HostFiles.homeRoot owner folder

def rename (ρ : Str → Str) : Place → Place
  | .system folder => .system folder
  | .home owner folder => .home (ρ owner) folder

def colon : Py.CodePoint := Py.CodePoint.ofChar ':'

theorem colon_notMem_folder (folder : HomeFolder) : colon ∉ folder.name.reverse := by
  cases folder <;> decide

theorem takeWhile_label (owner : Str) (folder : HomeFolder) :
    ((HostFiles.homeRoot owner folder).label.reverse.takeWhile (· ≠ colon)) = folder.name.reverse := by
  have hlabel : (HostFiles.homeRoot owner folder).label.reverse =
      folder.name.reverse ++ colon :: owner.reverse := by
    simp [HostFiles.homeRoot, str, colon]
  have hall : ∀ c ∈ folder.name.reverse, decide (c ≠ colon) = true := by
    intro c hc
    apply decide_eq_true
    rintro rfl
    exact colon_notMem_folder folder hc
  rw [hlabel, List.takeWhile_append_of_pos hall, List.takeWhile_cons_of_neg (by simp),
    List.append_nil]

theorem folder_name_injective {f g : HomeFolder} (h : f.name = g.name) : f = g := by
  revert h
  cases f <;> cases g <;> decide

theorem homeRoot_label_injective {owner owner' : Str} {folder folder' : HomeFolder}
    (h : (HostFiles.homeRoot owner folder).label = (HostFiles.homeRoot owner' folder').label) :
    owner = owner' ∧ folder = folder' := by
  have hname := takeWhile_label owner folder
  rw [h, takeWhile_label, List.reverse_inj] at hname
  obtain rfl := folder_name_injective hname.symm
  unfold HostFiles.homeRoot at h
  dsimp only at h
  exact ⟨List.append_cancel_right (List.append_cancel_right h), rfl⟩

theorem system_label_ne (folder : SystemFolder) (owner : Str) (home : HomeFolder) :
    folder.root.label ≠ (HostFiles.homeRoot owner home).label := by
  intro h
  have hmem : colon ∈ (HostFiles.homeRoot owner home).label := by
    simp [HostFiles.homeRoot, str, colon]
  rw [← h] at hmem
  revert hmem
  cases folder <;> decide

theorem label_injective {p q : Place} (h : p.root.label = q.root.label) : p = q := by
  cases p with
  | system folder =>
    cases q with
    | system folder' =>
      revert h
      cases folder <;> cases folder' <;> decide
    | home owner home => exact absurd h (system_label_ne folder owner home)
  | home owner home =>
    cases q with
    | system folder => exact absurd h.symm (system_label_ne folder owner home)
    | home owner' home' =>
      obtain ⟨rfl, rfl⟩ := homeRoot_label_injective h
      rfl

end Place

namespace HostFiles

def owners (files : HostFiles) : List Str := files.homes.map HomeEntry.name

/-- The places that are watched, in order. -/
def places (files : HostFiles) : List Place :=
  (SystemFolder.all.filter files.system).map .system ++
    files.homes.flatMap fun home => (HomeFolder.all.filter home.folders).map (.home home.name)

theorem defaultWatchRoots_eq (files : HostFiles) :
    files.defaultWatchRoots = files.places.map Place.root := by
  unfold defaultWatchRoots places
  rw [List.map_append, List.map_map, List.map_flatMap]
  simp only [List.map_map]
  rfl

/-- The second host has the homes of the first one, under the names of other owners in the same
order. -/
structure Renamed (ρ : Str → Str) (files files' : HostFiles) : Prop where
  system : files'.system = files.system
  homes : (files'.homes.map fun home => (home.name, home.folders)).Perm
    (files.homes.map fun home => (ρ home.name, home.folders))
  monotone : ∀ a ∈ files.owners, ∀ b ∈ files.owners, a < b → ρ a < ρ b

theorem homes_sorted (files : HostFiles) :
    files.homes.Pairwise fun a b => a.name < b.name := by
  have hnodup : ((files.home.getD []).map HomeEntry.name).Nodup := by
    cases hhome : files.home with
    | none => exact List.nodup_nil
    | some entries => exact files.distinct entries hhome
  have hsorted := @List.pairwise_mergeSort _ (fun a b : HomeEntry => decide (a.name ≤ b.name))
    (fun a b c hab hbc => by simp only [decide_eq_true_eq] at *; exact hab.trans hbc)
    (fun a b => by simp only [Bool.or_eq_true, decide_eq_true_eq]; exact le_total _ _)
    (files.home.getD [])
  have hperm := (List.mergeSort_perm (files.home.getD []) fun a b : HomeEntry =>
    decide (a.name ≤ b.name)).map HomeEntry.name
  have hdistinct := List.pairwise_map.mp (hperm.nodup_iff.mpr hnodup)
  apply List.Pairwise.filter
  refine (hsorted.and hdistinct).imp ?_
  intro a b h
  exact lt_of_le_of_ne (of_decide_eq_true h.1) h.2

theorem places_renamed {ρ : Str → Str} {files files' : HostFiles} (h : files.Renamed ρ files') :
    files'.places = files.places.map (Place.rename ρ) := by
  have hsorted : (files'.homes.map fun home => (home.name, home.folders)).Pairwise
      fun a b => a.1 < b.1 := List.pairwise_map.mpr files'.homes_sorted
  have hrenamed : (files.homes.map fun home => (ρ home.name, home.folders)).Pairwise
      fun a b => a.1 < b.1 := by
    rw [List.pairwise_map]
    refine files.homes_sorted.imp_of_mem ?_
    intro a b ha hb hlt
    exact h.monotone _ (List.mem_map_of_mem ha) _ (List.mem_map_of_mem hb) hlt
  have hsame : (files'.homes.map fun home => (home.name, home.folders)) =
      files.homes.map fun home => (ρ home.name, home.folders) := by
    apply h.homes.eq_of_pairwise ?_ hsorted hrenamed
    intro a b _ _ hab hba
    exact absurd hba (lt_asymm hab)
  have hflat : ∀ homes : List HomeEntry,
      (homes.flatMap fun home => (HomeFolder.all.filter home.folders).map (Place.home home.name)) =
        (homes.map fun home => (home.name, home.folders)).flatMap
          fun home => (HomeFolder.all.filter home.2).map (Place.home home.1) := by
    intro homes
    rw [List.flatMap_map]
  unfold places
  rw [h.system, hflat, hsame, List.map_append, List.map_map, List.map_flatMap, List.flatMap_map]
  simp only [List.map_map]
  rfl

theorem owner_of_mem_places {files : HostFiles} {owner : Str} {folder : HomeFolder}
    (h : Place.home owner folder ∈ files.places) : owner ∈ files.owners := by
  rcases List.mem_append.mp h with hsystem | hhome
  · obtain ⟨system, -, heq⟩ := List.mem_map.mp hsystem
    cases heq
  · obtain ⟨home, hmem, hplace⟩ := List.mem_flatMap.mp hhome
    obtain ⟨folder', -, heq⟩ := List.mem_map.mp hplace
    cases heq
    exact List.mem_map_of_mem hmem

theorem rename_injective {ρ : Str → Str} {files files' : HostFiles} (h : files.Renamed ρ files')
    {p q : Place} (hp : p ∈ files.places) (hq : q ∈ files.places)
    (heq : p.rename ρ = q.rename ρ) : p = q := by
  cases p with
  | system folder =>
    cases q with
    | system folder' => exact heq
    | home owner' folder' => cases heq
  | home owner folder =>
    cases q with
    | system folder' => cases heq
    | home owner' folder' =>
      simp only [Place.rename, Place.home.injEq] at heq
      obtain ⟨hname, rfl⟩ := heq
      have howner := owner_of_mem_places hp
      have howner' := owner_of_mem_places hq
      rcases lt_trichotomy owner owner' with hlt | rfl | hgt
      · exact absurd hname (h.monotone _ howner _ howner' hlt).ne
      · rfl
      · exact absurd hname (h.monotone _ howner' _ howner hgt).ne'

theorem places_nodup (files : HostFiles) : files.places.Nodup := by
  have hsystem : ((SystemFolder.all.filter files.system).map Place.system).Nodup := by
    apply List.Nodup.map
    · intro a b h
      cases h
      rfl
    · exact List.Nodup.filter _ (by decide)
  have hfolders : ∀ home : HomeEntry,
      ((HomeFolder.all.filter home.folders).map (Place.home home.name)).Nodup := by
    intro home
    apply List.Nodup.map
    · intro a b h
      cases h
      rfl
    · exact List.Nodup.filter _ (by decide)
  have hhomes : (files.homes.flatMap fun home =>
      (HomeFolder.all.filter home.folders).map (Place.home home.name)).Nodup := by
    rw [List.nodup_flatMap]
    refine ⟨fun home _ => hfolders home, files.homes_sorted.imp ?_⟩
    intro a b hlt place hplace hplace'
    obtain ⟨folder, -, rfl⟩ := List.mem_map.mp hplace
    obtain ⟨folder', -, heq⟩ := List.mem_map.mp hplace'
    exact hlt.ne' (Place.home.inj heq).1
  refine hsystem.append hhomes ?_
  intro place hplace hplace'
  obtain ⟨folder, -, rfl⟩ := List.mem_map.mp hplace
  obtain ⟨home, -, hmem⟩ := List.mem_flatMap.mp hplace'
  obtain ⟨folder', -, heq⟩ := List.mem_map.mp hmem
  cases heq

theorem labels_nodup (files : HostFiles) :
    (files.defaultWatchRoots.map WatchRoot.label).Nodup := by
  rw [defaultWatchRoots_eq, List.map_map]
  exact files.places_nodup.map fun p q h => Place.label_injective h

theorem subject_ne_nil {files : HostFiles} {root : WatchRoot}
    (h : root ∈ files.defaultWatchRoots) : root.subject ≠ [] := by
  rcases List.mem_append.mp h with hsystem | hhome
  · obtain ⟨folder, -, rfl⟩ := List.mem_map.mp hsystem
    cases folder <;> decide
  · obtain ⟨home, -, hmem⟩ := List.mem_flatMap.mp hhome
    obtain ⟨folder, -, rfl⟩ := List.mem_map.mp hmem
    exact home.named

end HostFiles

/-- An event below a place, or a sweep. -/
inductive FileOp
  | record (place : Place) (eventType below : Str) (moment : Float)
  | sweep

namespace FileOp

def rename (ρ : Str → Str) : FileOp → FileOp
  | .record place eventType below moment => .record (place.rename ρ) eventType below moment
  | .sweep => .sweep

/-- Events are recorded below watched places. -/
def Within (places : List Place) : FileOp → Prop
  | .record place .. => place ∈ places
  | .sweep => True

def step (hash : Str → ℤ) (op : FileOp) (m : FileMonitor) : FileMonitor :=
  match op with
  | .record place eventType below moment =>
    m.record hash place.root.label eventType (place.root.path ++ below) moment
  | .sweep => (FileMonitor.collect m).state

/-- The events that a step yields. -/
def yields (m : FileMonitor) : FileOp → List Event
  | .record .. => []
  | .sweep => (FileMonitor.collect m).trace

/-- The events that a run yields. -/
def events (hash : Str → ℤ) : List FileOp → FileMonitor → List Event
  | [], _ => []
  | op :: ops, m => op.yields m ++ events hash ops (op.step hash m)

end FileOp

/-- What a host's monitor yields over the default roots. -/
def HostFiles.events (hash : Str → ℤ) (files : HostFiles) (context : CollectorContext)
    (startedAt : Option Float) (ops : List FileOp) : List Event :=
  FileOp.events hash ops (.init context files.defaultWatchRoots startedAt)

/-- The two contexts draw the same, and the second one has the pseudonyms of the first one's
owners under their other names. -/
structure CollectorContext.Renamed (ρ : Str → Str) (files : HostFiles) (c c' : CollectorContext) :
    Prop where
  host_id : c'.hostId = c.hostId
  tenant_id : c'.tenantId = c.tenantId
  event_ids : c'.eventIds = c.eventIds
  readings : c'.readings = c.readings
  mints : c'.mints = c.mints
  host : c'.forward.get? (str "__host__") = c.forward.get? (str "__host__")
  owners : ∀ owner ∈ files.owners, c'.forward.get? (ρ owner) = c.forward.get? owner

/-- The events are equal, and so are their rows, whenever they are appended. -/
def SameRecords (events events' : List Event) : Prop :=
  events' = events ∧ ∀ env, events'.map (EventStore.prepare · env) =
    events.map (EventStore.prepare · env)

/-- No mutation that a later sweep collects is below a place that the renaming moves. -/
def SparesRenamed (ρ : Str → Str) (ops : List FileOp) : Prop :=
  ∀ before place eventType below moment after,
    ops = before ++ .record place eventType below moment :: after →
      (mutationOf eventType).isSome → .sweep ∈ after → place.rename ρ = place

theorem SparesRenamed.tail {ρ : Str → Str} {op : FileOp} {ops : List FileOp}
    (h : SparesRenamed ρ (op :: ops)) : SparesRenamed ρ ops := by
  intro before place eventType below moment after hops
  exact h (op :: before) place eventType below moment after (by rw [hops, List.cons_append])

theorem sparesRenamed_nil (ρ : Str → Str) : SparesRenamed ρ [] := by
  intro before place eventType below moment after hops
  simp at hops

theorem SparesRenamed.cons {ρ : Str → Str} {op : FileOp} {ops : List FileOp}
    (h : SparesRenamed ρ ops)
    (hop : ∀ place eventType below moment, op = .record place eventType below moment →
      (mutationOf eventType).isSome → .sweep ∈ ops → place.rename ρ = place) :
    SparesRenamed ρ (op :: ops) := by
  intro before place eventType below moment after heq hmutation hsweep
  cases before with
  | nil =>
    rw [List.nil_append, List.cons.injEq] at heq
    obtain ⟨hrecord, rfl⟩ := heq
    exact hop place eventType below moment hrecord hmutation hsweep
  | cons first before =>
    rw [List.cons_append, List.cons.injEq] at heq
    exact h before place eventType below moment after heq.2 hmutation hsweep

namespace FileMonitor

/-- The handlers of a place and of its renamed one: as many mutations, and the same activity where
the place keeps its name. -/
def SameCounts (ρ : Str → Str) (m m' : FileMonitor) (place : Place) : Prop :=
  ∃ activity activity', m.handlers.get? place.root.label = some activity ∧
    m'.handlers.get? (place.rename ρ).root.label = some activity' ∧
    activity'.total = activity.total ∧ (place.rename ρ = place → activity' = activity)

theorem SameCounts.pending {ρ : Str → Str} {m m' : FileMonitor} {place : Place}
    (h : SameCounts ρ m m' place) :
    m'.pending (place.rename ρ).root.label = m.pending place.root.label := by
  obtain ⟨activity, activity', hactivity, hactivity', htotal, -⟩ := h
  rw [FileMonitor.pending, FileMonitor.pending, hactivity, hactivity']
  exact htotal

section

variable {ρ : Str → Str} {files files' : HostFiles} {m m' : FileMonitor} {place : Place}

theorem SameCounts.set (hfiles : files.Renamed ρ files') (hplace : place ∈ files.places)
    (h : ∀ q ∈ files.places, SameCounts ρ m m' q) {n n' : FileMonitor}
    {activity activity' : FileActivity}
    (hset : n.handlers = m.handlers.set place.root.label activity)
    (hset' : n'.handlers = m'.handlers.set (place.rename ρ).root.label activity')
    (htotal : activity'.total = activity.total)
    (hsame : place.rename ρ = place → activity' = activity) :
    ∀ q ∈ files.places, SameCounts ρ n n' q := by
  intro q hq
  unfold SameCounts
  rw [hset, hset', Dict.get?_set, Dict.get?_set]
  by_cases heq : q = place
  · subst heq
    rw [if_pos rfl, if_pos rfl]
    exact ⟨activity, activity', rfl, rfl, htotal, hsame⟩
  · have hlabel : q.root.label ≠ place.root.label := fun h => heq (Place.label_injective h)
    have hlabel' : (q.rename ρ).root.label ≠ (place.rename ρ).root.label := fun h =>
      heq (HostFiles.rename_injective hfiles hq hplace (Place.label_injective h))
    rw [if_neg hlabel, if_neg hlabel']
    exact h q hq

theorem SameCounts.record (hfiles : files.Renamed ρ files') (hplace : place ∈ files.places)
    (h : ∀ q ∈ files.places, SameCounts ρ m m' q) (hash : Str → ℤ) (eventType below : Str)
    (moment : Float) :
    ∀ q ∈ files.places, SameCounts ρ
      (m.record hash place.root.label eventType (place.root.path ++ below) moment)
      (m'.record hash (place.rename ρ).root.label eventType ((place.rename ρ).root.path ++ below)
        moment) q := by
  obtain ⟨activity, activity', hactivity, hactivity', htotal, hsame⟩ := h place hplace
  have hset : (m.record hash place.root.label eventType (place.root.path ++ below) moment).handlers =
      m.handlers.set place.root.label
        (activity.record hash eventType (place.root.path ++ below) moment) := by
    rw [FileMonitor.record, hactivity]
  have hset' : (m'.record hash (place.rename ρ).root.label eventType
      ((place.rename ρ).root.path ++ below) moment).handlers =
      m'.handlers.set (place.rename ρ).root.label
        (activity'.record hash eventType ((place.rename ρ).root.path ++ below) moment) := by
    rw [FileMonitor.record, hactivity']
  refine SameCounts.set hfiles hplace h hset hset' ?_ ?_
  · rw [FileActivity.total_record, FileActivity.total_record, htotal]
  · intro hfixed
    rw [hfixed, hsame hfixed]

theorem SameCounts.drained (hfiles : files.Renamed ρ files') (hplace : place ∈ files.places)
    (h : ∀ q ∈ files.places, SameCounts ρ m m' q) :
    ∀ q ∈ files.places,
      SameCounts ρ (m.drained place.root.label) (m'.drained (place.rename ρ).root.label) q :=
  SameCounts.set hfiles hplace h rfl rfl rfl fun _ => rfl

theorem frame_record (hash : Str → ℤ) (label eventType path : Str) (moment : Float)
    (m : FileMonitor) :
    (m.record hash label eventType path moment).context = m.context ∧
      (m.record hash label eventType path moment).roots = m.roots ∧
      (m.record hash label eventType path moment).lastSweep = m.lastSweep := by
  unfold FileMonitor.record
  cases m.handlers.get? label with
  | none => exact ⟨rfl, rfl, rfl⟩
  | some activity => exact ⟨rfl, rfl, rfl⟩

theorem pending_record (hash : Str → ℤ) (label eventType path : Str) (moment : Float)
    {activity : FileActivity} (h : m.handlers.get? label = some activity) (other : Str) :
    (m.record hash label eventType path moment).pending other =
      m.pending other + if other = label ∧ (mutationOf eventType).isSome then 1 else 0 := by
  have hset : (m.record hash label eventType path moment).handlers =
      m.handlers.set label (activity.record hash eventType path moment) := by
    rw [FileMonitor.record, h]
  rw [pending, pending, hset, Dict.get?_set]
  by_cases heq : other = label
  · rw [if_pos heq, heq, h, Option.map_some, Option.map_some, Option.getD_some, Option.getD_some,
      FileActivity.total_record]
    simp
  · simp [heq]

/-- The subjects of the places that keep their names. -/
def keptSubjects (ρ : Str → Str) (files : HostFiles) : Set Str :=
  { subject | ∃ place ∈ files.places, place.rename ρ = place ∧ place.root.subject = subject }

theorem pending_of_drained {label other : Str} {n : FileMonitor}
    (hn : n.handlers = (m.drained label).handlers) (h : n.pending other ≠ 0) :
    m.pending other ≠ 0 := by
  intro hzero
  apply h
  rw [pending, hn, FileMonitor.drained, Dict.get?_set]
  split_ifs
  · rfl
  · exact hzero

theorem build_same (hplace : place ∈ files.places) (hfixed : place.rename ρ = place)
    (hcounts : ∀ q ∈ files.places, SameCounts ρ m m' q)
    (hcontext : m.context.AgreeOn (keptSubjects ρ files) m'.context) (activity : FileActivity)
    (window : Option Float) (sweptAt : Datetime) :
    let built := build place.root activity window sweptAt m
    let built' := build place.root activity window sweptAt m'
    built'.outcome = built.outcome ∧
      (∀ q ∈ files.places, SameCounts ρ built.state built'.state q) ∧
      built.state.context.AgreeOn (keptSubjects ρ files) built'.state.context := by
  have hsubject : place.root.subject ∈ keptSubjects ρ files := ⟨place, hplace, hfixed, rfl⟩
  obtain ⟨hbuilt, hcontext'⟩ := Collector.buildEvent_congr hcontext hsubject .file
    (describe place.root activity window) sweptAt
  dsimp only
  rw [build_eq, build_eq]
  exact ⟨hbuilt, hcounts, hcontext'⟩

theorem sweepRoots_same (hfiles : files.Renamed ρ files') (window : Option Float)
    (sweptAt : Datetime) (places : List Place) :
    ∀ m m' : FileMonitor, (∀ place ∈ places, place ∈ files.places) →
      (∀ q ∈ files.places, SameCounts ρ m m' q) →
      m.context.AgreeOn (keptSubjects ρ files) m'.context →
      (∀ place ∈ places, m.pending place.root.label ≠ 0 → place.rename ρ = place) →
      let ran := sweepRoots window sweptAt (places.map Place.root) m
      let ran' := sweepRoots window sweptAt (places.map fun place => (place.rename ρ).root) m'
      ran'.trace = ran.trace ∧ (∀ q ∈ files.places, SameCounts ρ ran.state ran'.state q) ∧
        ran.state.context.AgreeOn (keptSubjects ρ files) ran'.state.context := by
  induction places with
  | nil =>
    intro m m' _ hcounts hcontext _
    exact ⟨rfl, hcounts, hcontext⟩
  | cons place places ih =>
    intro m m' hplaces hcounts hcontext hkept
    obtain ⟨hplace, hrest⟩ := List.forall_mem_cons.mp hplaces
    obtain ⟨hhead, htail⟩ := List.forall_mem_cons.mp hkept
    obtain ⟨activity, activity', hactivity, hactivity', htotal, hsame⟩ := hcounts place hplace
    have hpending : m.pending place.root.label = activity.total := by
      rw [pending, hactivity]
      rfl
    have hdrained := SameCounts.drained hfiles hplace hcounts
    have hpendingRest : ∀ n : FileMonitor, n.handlers = (m.drained place.root.label).handlers →
        ∀ q ∈ places, n.pending q.root.label ≠ 0 → q.rename ρ = q :=
      fun n hn q hq hne => htail q hq (pending_of_drained hn hne)
    dsimp only
    rw [List.map_cons, List.map_cons]
    by_cases hzero : activity.total = 0
    · rw [sweepRoots_quiet hactivity hzero, sweepRoots_quiet hactivity' (htotal.trans hzero)]
      exact ih _ _ hrest hdrained hcontext (hpendingRest _ rfl)
    · have hfixed := hhead (hpending ▸ hzero)
      obtain rfl := hsame hfixed
      rw [hfixed] at hactivity' hdrained
      rw [hfixed]
      obtain ⟨hbuild, hcounts', hstates⟩ := build_same hplace hfixed hdrained hcontext activity'
        window sweptAt
      cases hevent : (build place.root activity' window sweptAt
          (m.drained place.root.label)).outcome with
      | error e =>
        rw [sweepRoots_error hactivity hzero hevent,
          sweepRoots_error hactivity' hzero (hbuild.trans hevent)]
        exact ⟨rfl, hcounts', hstates⟩
      | ok event =>
        rw [sweepRoots_event hactivity hzero hevent,
          sweepRoots_event hactivity' hzero (hbuild.trans hevent)]
        obtain ⟨htrace, hcountsAfter, hcontextAfter⟩ := ih _ _ hrest hcounts' hstates
          (hpendingRest _ (by rw [build_eq]))
        refine ⟨?_, hcountsAfter, hcontextAfter⟩
        dsimp only
        rw [htrace]

/-- Two monitors with the same activity below the places of their hosts. -/
structure Paired (ρ : Str → Str) (files : HostFiles) (m m' : FileMonitor) : Prop where
  roots : m.roots = files.places.map Place.root
  roots' : m'.roots = files.places.map fun place => (place.rename ρ).root
  counts : ∀ place ∈ files.places, SameCounts ρ m m' place

theorem Paired.record (hfiles : files.Renamed ρ files') (h : Paired ρ files m m')
    (hplace : place ∈ files.places) (hash : Str → ℤ) (eventType below : Str) (moment : Float) :
    Paired ρ files ((FileOp.record place eventType below moment).step hash m)
      (((FileOp.record place eventType below moment).rename ρ).step hash m') := by
  refine ⟨?_, ?_, SameCounts.record hfiles hplace h.counts hash eventType below moment⟩
  · exact (frame_record hash _ _ _ _ m).2.1.trans h.roots
  · exact (frame_record hash _ _ _ _ m').2.1.trans h.roots'

theorem pending_collect (label : Str) (m : FileMonitor) (h : m.pending label = 0) :
    (collect m).state.pending label = 0 := by
  obtain ⟨-, -, hhandlers⟩ := sweepRoots_frame (m.windowUntil (timestampOf (m.context.readings 0)))
    (m.context.readings 0) m.roots m.clocked
  rcases hhandlers label with hsame | hempty
  · rw [pending, collect, hsame]
    exact h
  · rw [pending, collect, hempty]
    rfl

/-- What a sweep of both monitors keeps. -/
theorem collect_same (hfiles : files.Renamed ρ files') (h : Paired ρ files m m')
    (hcontext : m.context.AgreeOn (keptSubjects ρ files) m'.context)
    (hlast : m'.lastSweep = m.lastSweep)
    (hkept : ∀ place ∈ files.places, m.pending place.root.label ≠ 0 → place.rename ρ = place) :
    (collect m').trace = (collect m).trace ∧
      Paired ρ files (collect m).state (collect m').state ∧
      (collect m).state.context.AgreeOn (keptSubjects ρ files) (collect m').state.context ∧
      (collect m').state.lastSweep = (collect m).state.lastSweep := by
  have hclock : m.clocked.context.AgreeOn (keptSubjects ρ files) m'.clocked.context :=
    ⟨hcontext.host_id, hcontext.tenant_id, hcontext.event_ids,
      congrArg (fun readings n => readings (n + 1)) hcontext.readings, hcontext.mints,
      hcontext.forward⟩
  let window := m.windowUntil (timestampOf (m.context.readings 0))
  have hcollect : collect m = sweepRoots window (m.context.readings 0)
      (files.places.map Place.root) m.clocked := by
    rw [← h.roots]
    rfl
  have hcollect' : collect m' = sweepRoots window (m.context.readings 0)
      (files.places.map fun place => (place.rename ρ).root) m'.clocked := by
    rw [← h.roots', collect, windowUntil, hlast, hcontext.readings]
    rfl
  obtain ⟨htrace, hcounts, hafter⟩ := sweepRoots_same hfiles window (m.context.readings 0)
    files.places m.clocked m'.clocked (fun _ h => h) h.counts hclock hkept
  obtain ⟨hroots, hlastSweep, -⟩ := sweepRoots_frame window (m.context.readings 0)
    (files.places.map Place.root) m.clocked
  obtain ⟨hroots', hlastSweep', -⟩ := sweepRoots_frame window (m.context.readings 0)
    (files.places.map fun place => (place.rename ρ).root) m'.clocked
  have hsame : m'.clocked.lastSweep = m.clocked.lastSweep := by
    rw [clocked, clocked, hcontext.readings]
  rw [hcollect, hcollect']
  exact ⟨htrace, ⟨hroots.trans h.roots, hroots'.trans h.roots', hcounts⟩, hafter,
    hlastSweep'.trans (hsame.trans hlastSweep.symm)⟩

/-- Runs that spare the renamed owners yield the same events on both hosts. -/
theorem events_same (hfiles : files.Renamed ρ files') (hash : Str → ℤ) (ops : List FileOp) :
    ∀ m m' : FileMonitor, (∀ op ∈ ops, op.Within files.places) → SparesRenamed ρ ops →
      Paired ρ files m m' → m.context.AgreeOn (keptSubjects ρ files) m'.context →
      m'.lastSweep = m.lastSweep →
      (.sweep ∈ ops → ∀ place ∈ files.places, m.pending place.root.label ≠ 0 →
        place.rename ρ = place) →
      FileOp.events hash (ops.map (FileOp.rename ρ)) m' = FileOp.events hash ops m := by
  induction ops with
  | nil => intro m m' _ _ _ _ _ _; rfl
  | cons op ops ih =>
    intro m m' hwithin hspares hpaired hcontext hlast hkept
    obtain ⟨hop, hops⟩ := List.forall_mem_cons.mp hwithin
    rw [List.map_cons, FileOp.events, FileOp.events]
    cases op with
    | record place eventType below moment =>
      obtain ⟨activity, activity', hactivity, -⟩ := hpaired.counts place hop
      obtain ⟨hsame, -, hsweep⟩ := frame_record hash place.root.label eventType
        (place.root.path ++ below) moment m
      obtain ⟨hsame', -, hsweep'⟩ := frame_record hash (place.rename ρ).root.label eventType
        ((place.rename ρ).root.path ++ below) moment m'
      apply congrArg ([] ++ ·)
      apply ih _ _ hops hspares.tail (hpaired.record hfiles hop hash eventType below moment)
      · show CollectorContext.AgreeOn _ (m.record _ _ _ _ _).context (m'.record _ _ _ _ _).context
        rw [hsame, hsame']
        exact hcontext
      · exact hsweep'.trans (hlast.trans hsweep.symm)
      · intro hmem q hq hpending
        have hadded := pending_record hash place.root.label eventType (place.root.path ++ below) moment
          hactivity q.root.label
        by_cases hhere : q.root.label = place.root.label ∧ (mutationOf eventType).isSome
        · rw [Place.label_injective hhere.1]
          exact hspares [] place eventType below moment ops rfl hhere.2 hmem
        · rw [if_neg hhere, Nat.add_zero] at hadded
          exact hkept (List.mem_cons_of_mem _ hmem) q hq (hadded ▸ hpending)
    | sweep =>
      obtain ⟨htrace, hpaired', hcontext', hlast'⟩ := collect_same hfiles hpaired hcontext hlast
        (hkept List.mem_cons_self)
      refine congrArg₂ (· ++ ·) htrace ?_
      apply ih _ _ hops hspares.tail hpaired' hcontext' hlast'
      intro _ q hq hpending
      apply hkept List.mem_cons_self q hq
      intro hzero
      exact hpending (pending_collect _ m hzero)

theorem ready_init {c : CollectorContext} (h : c.Dependable) (files : HostFiles)
    (startedAt : Option Float) :
    (init c files.defaultWatchRoots startedAt).Ready files.defaultWatchRoots := by
  refine ⟨h, files.labels_nodup, fun root hroot => HostFiles.subject_ne_nil hroot, ?_⟩
  intro root hroot
  rw [get?_handlers_init, if_pos (List.mem_map_of_mem hroot)]
  exact ⟨_, rfl⟩

theorem Ready.record {roots : List WatchRoot} (h : m.Ready roots) (hash : Str → ℤ)
    (label eventType path : Str) (moment : Float) :
    (m.record hash label eventType path moment).Ready roots := by
  refine ⟨?_, h.distinct, h.subjects, ?_⟩
  · rw [(frame_record hash label eventType path moment m).1]
    exact h.context
  · intro root hroot
    obtain ⟨activity, hactivity⟩ := h.handlers root hroot
    unfold FileMonitor.record
    cases hlabel : m.handlers.get? label with
    | none => exact ⟨activity, hactivity⟩
    | some old =>
      dsimp only
      rw [Dict.get?_set]
      split_ifs
      · exact ⟨_, rfl⟩
      · exact ⟨activity, hactivity⟩

theorem Ready.collect {roots : List WatchRoot} (h : m.Ready roots) (hroots : m.roots = roots) :
    (FileMonitor.collect m).state.Ready roots ∧ (FileMonitor.collect m).state.roots = roots ∧
      (∀ root ∈ roots, (FileMonitor.collect m).state.handlers.get? root.label = some {}) ∧
      (FileMonitor.collect m).trace.map labelOf =
        (roots.filter fun root => m.pending root.label ≠ 0).map fun root =>
          some (.json (.str root.label)) := by
  have hclocked : m.clocked.Ready m.roots := by
    rw [hroots]
    exact ⟨h.context.clock, h.distinct, h.subjects, h.handlers⟩
  obtain ⟨-, hcontext, hsame, hhandlers, htrace⟩ := sweepRoots_of_ready
    (m.windowUntil (timestampOf (m.context.readings 0))) (h.context.readings 0) m.roots m.clocked hclocked
  have hempty : ∀ root ∈ roots,
      (FileMonitor.collect m).state.handlers.get? root.label = some {} := by
    intro root hroot
    rw [← hroots] at hroot
    rw [FileMonitor.collect, hhandlers, if_pos (List.mem_map_of_mem hroot)]
  refine ⟨⟨hcontext, h.distinct, h.subjects, fun root hroot => ⟨_, hempty root hroot⟩⟩,
    hsame.trans hroots, hempty, ?_⟩
  rw [FileMonitor.collect, htrace, hroots]
  rfl

/-- Sweeps of two paired monitors that are ready report the same places, each under its own label,
and leave the monitors paired. -/
theorem Paired.collect_ready {m m' : FileMonitor} (h : Paired ρ files m m')
    (hready : m.Ready (files.places.map Place.root))
    (hready' : m'.Ready (files.places.map fun place => (place.rename ρ).root)) :
    let reported := files.places.filter fun place => m.pending place.root.label ≠ 0
    Paired ρ files (FileMonitor.collect m).state (FileMonitor.collect m').state ∧
      (FileMonitor.collect m).trace.map labelOf =
        reported.map (fun place => some (.json (.str place.root.label))) ∧
      (FileMonitor.collect m').trace.map labelOf =
        reported.map fun place => some (.json (.str (place.rename ρ).root.label)) := by
  intro reported
  obtain ⟨-, hroots, hempty, htrace⟩ := hready.collect h.roots
  obtain ⟨-, hroots', hempty', htrace'⟩ := hready'.collect h.roots'
  have hfilter : ((files.places.map fun place => (place.rename ρ).root).filter fun root =>
      m'.pending root.label ≠ 0) = reported.map fun place => (place.rename ρ).root := by
    rw [List.filter_map]
    congr 1
    apply List.filter_congr
    intro place hplace
    rw [Function.comp_apply, (h.counts place hplace).pending]
  refine ⟨⟨hroots, hroots', ?_⟩, ?_, ?_⟩
  · intro place hplace
    exact ⟨{}, {}, hempty _ (List.mem_map_of_mem hplace), hempty' _ (List.mem_map_of_mem hplace),
      rfl, fun _ => rfl⟩
  · rw [htrace, List.filter_map, List.map_map]
    rfl
  · rw [htrace', hfilter, List.map_map]
    rfl

theorem Paired.kept_of_labels {m m' : FileMonitor} (h : Paired ρ files m m')
    (hready : m.Ready (files.places.map Place.root))
    (hready' : m'.Ready (files.places.map fun place => (place.rename ρ).root))
    (hlabels : (FileMonitor.collect m').trace.map labelOf =
      (FileMonitor.collect m).trace.map labelOf) :
    ∀ place ∈ files.places, m.pending place.root.label ≠ 0 → place.rename ρ = place := by
  obtain ⟨-, htrace, htrace'⟩ := h.collect_ready hready hready'
  rw [htrace, htrace'] at hlabels
  intro place hplace hpending
  have hmem : place ∈ files.places.filter fun place => m.pending place.root.label ≠ 0 :=
    List.mem_filter.mpr ⟨hplace, decide_eq_true hpending⟩
  have hlabel := List.map_inj_left.mp hlabels place hmem
  exact Place.label_injective (Json.str.inj (AnyValue.json.inj (Option.some.inj hlabel)))

/-- Runs on dependable contexts that yield the same labels on both hosts spare the renamed
owners. -/
theorem sparesRenamed_of_labels (hfiles : files.Renamed ρ files') (hash : Str → ℤ)
    (ops : List FileOp) :
    ∀ m m' : FileMonitor, (∀ op ∈ ops, op.Within files.places) → Paired ρ files m m' →
      m.Ready (files.places.map Place.root) →
      m'.Ready (files.places.map fun place => (place.rename ρ).root) →
      (FileOp.events hash (ops.map (FileOp.rename ρ)) m').map labelOf =
        (FileOp.events hash ops m).map labelOf →
      SparesRenamed ρ ops ∧ (.sweep ∈ ops → ∀ place ∈ files.places,
        m.pending place.root.label ≠ 0 → place.rename ρ = place) := by
  induction ops with
  | nil =>
    intro m m' _ _ _ _ _
    exact ⟨sparesRenamed_nil ρ, fun h => nomatch h⟩
  | cons op ops ih =>
    intro m m' hwithin hpaired hready hready' hlabels
    obtain ⟨hop, hops⟩ := List.forall_mem_cons.mp hwithin
    rw [List.map_cons, FileOp.events, FileOp.events] at hlabels
    cases op with
    | record place eventType below moment =>
      obtain ⟨activity, activity', hactivity, -⟩ := hpaired.counts place hop
      obtain ⟨hspares, hkept⟩ := ih _ _ hops (hpaired.record hfiles hop hash eventType below moment)
        (hready.record hash _ _ _ _) (hready'.record hash _ _ _ _) hlabels
      have hadded := pending_record hash place.root.label eventType (place.root.path ++ below) moment
        hactivity
      constructor
      · apply hspares.cons
        intro place' eventType' below' moment' hrecord hmutation hsweep
        cases hrecord
        apply hkept hsweep place hop
        show (m.record _ _ _ _ _).pending _ ≠ 0
        rw [hadded, if_pos ⟨rfl, hmutation⟩]
        exact Nat.succ_ne_zero _
      · intro hsweep q hq hpending
        have hlater : .sweep ∈ ops := by
          rcases List.mem_cons.mp hsweep with heq | hmem
          · cases heq
          · exact hmem
        apply hkept hlater q hq
        show (m.record _ _ _ _ _).pending _ ≠ 0
        rw [hadded]
        omega
    | sweep =>
      obtain ⟨hnext, -⟩ := hready.collect hpaired.roots
      obtain ⟨hnext', -⟩ := hready'.collect hpaired.roots'
      obtain ⟨hpaired', htrace, htrace'⟩ := hpaired.collect_ready hready hready'
      rw [List.map_append, List.map_append] at hlabels
      have hlength : ((FileMonitor.collect m').trace.map labelOf).length =
          ((FileMonitor.collect m).trace.map labelOf).length := by
        rw [htrace, htrace', List.length_map, List.length_map]
      obtain ⟨hhead, htail⟩ := List.append_inj hlabels hlength
      obtain ⟨hspares, -⟩ := ih _ _ hops hpaired' hnext hnext' htail
      exact ⟨hspares.cons (fun _ _ _ _ hrecord => nomatch hrecord),
        fun _ => hpaired.kept_of_labels hready hready' hhead⟩

theorem paired_init (hfiles : files.Renamed ρ files') (c c' : CollectorContext)
    (startedAt : Option Float) :
    Paired ρ files (init c files.defaultWatchRoots startedAt)
      (init c' files'.defaultWatchRoots startedAt) := by
  have hroots' : files'.defaultWatchRoots = files.places.map fun place => (place.rename ρ).root := by
    rw [HostFiles.defaultWatchRoots_eq, HostFiles.places_renamed hfiles, List.map_map]
    rfl
  refine ⟨files.defaultWatchRoots_eq, hroots', ?_⟩
  intro place hplace
  have hmem : place.root ∈ files.defaultWatchRoots := by
    rw [HostFiles.defaultWatchRoots_eq]
    exact List.mem_map_of_mem hplace
  have hmem' : (place.rename ρ).root ∈ files'.defaultWatchRoots := by
    rw [hroots']
    exact List.mem_map_of_mem hplace
  refine ⟨{}, {}, ?_, ?_, rfl, fun _ => rfl⟩
  · rw [get?_handlers_init, if_pos (List.mem_map_of_mem hmem)]
  · rw [get?_handlers_init, if_pos (List.mem_map_of_mem hmem')]

theorem agreeOn_keptSubjects {c c' : CollectorContext} (h : c.Renamed ρ files c') :
    c.AgreeOn (keptSubjects ρ files) c' := by
  refine ⟨h.host_id, h.tenant_id, h.event_ids, h.readings, h.mints, ?_⟩
  intro subject hsubject
  obtain ⟨place, hplace, hfixed, rfl⟩ := hsubject
  cases place with
  | system folder =>
    cases folder
    · exact h.host
    · exact h.host
  | home owner folder =>
    have howner := h.owners owner (HostFiles.owner_of_mem_places hplace)
    rw [(Place.home.inj hfixed).1] at howner
    exact howner

/-- Monitors on dependable contexts that yield the same labels spare the renamed owners. -/
theorem sparesRenamed_of_events (hfiles : files.Renamed ρ files') {c c' : CollectorContext}
    (hc : c.Dependable) (hc' : c'.Dependable) (hash : Str → ℤ) (startedAt : Option Float)
    {ops : List FileOp} (hops : ∀ op ∈ ops, op.Within files.places)
    (h : files'.events hash c' startedAt (ops.map (FileOp.rename ρ)) =
      files.events hash c startedAt ops) : SparesRenamed ρ ops := by
  have hpaired := paired_init hfiles c c' startedAt
  have hroots' : files'.defaultWatchRoots = files.places.map fun place => (place.rename ρ).root :=
    hpaired.roots'
  have hready : (init c files.defaultWatchRoots startedAt).Ready (files.places.map Place.root) := by
    rw [← HostFiles.defaultWatchRoots_eq]
    exact ready_init hc files startedAt
  have hready' : (init c' files'.defaultWatchRoots startedAt).Ready
      (files.places.map fun place => (place.rename ρ).root) := by
    rw [← hroots']
    exact ready_init hc' files' startedAt
  exact (sparesRenamed_of_labels hfiles hash ops _ _ hops hpaired hready hready'
    (congrArg (List.map labelOf) h)).1

end

end FileMonitor

/-- Two hosts that differ in the owners of their homes, with the same activity below them, record
the same whenever no mutation that is collected lies below a home whose owner has another name on
the second host; and, where events can always be built, only then. -/
theorem sameRecords_renamed (hash : Str → ℤ) {ρ : Str → Str} {files files' : HostFiles}
    (hfiles : files.Renamed ρ files') {c c' : CollectorContext} (hcontext : c.Renamed ρ files c')
    (startedAt : Option Float) {ops : List FileOp} (hops : ∀ op ∈ ops, op.Within files.places) :
    (SparesRenamed ρ ops → SameRecords (files.events hash c startedAt ops)
      (files'.events hash c' startedAt (ops.map (FileOp.rename ρ)))) ∧
    (c.Dependable → c'.Dependable → SameRecords (files.events hash c startedAt ops)
      (files'.events hash c' startedAt (ops.map (FileOp.rename ρ))) → SparesRenamed ρ ops) := by
  constructor
  · intro hspares
    have hsame : files'.events hash c' startedAt (ops.map (FileOp.rename ρ)) =
        files.events hash c startedAt ops := by
      apply FileMonitor.events_same hfiles hash ops _ _ hops hspares
        (FileMonitor.paired_init hfiles c c' startedAt)
        (FileMonitor.agreeOn_keptSubjects hcontext) rfl
      intro _ place hplace hpending
      apply absurd _ hpending
      rw [FileMonitor.pending, FileMonitor.get?_handlers_init]
      split_ifs <;> rfl
    refine ⟨hsame, ?_⟩
    intro env
    rw [hsame]
  · intro hc hc' h
    exact FileMonitor.sparesRenamed_of_events hfiles hc hc' hash startedAt hops h.1

/-- A host with the system directories and one home, which has documents. -/
def oneHome (owner : Str) (h : owner ≠ []) : HostFiles where
  system := fun _ => true
  home := some [⟨owner, true, fun folder => folder == .documents, h⟩]
  distinct := by
    intro entries hentries
    cases hentries
    exact List.nodup_singleton _

theorem homes_oneHome (owner : Str) (h : owner ≠ []) :
    (oneHome owner h).homes = [⟨owner, true, fun folder => folder == .documents, h⟩] := by
  simp [HostFiles.homes, oneHome]

theorem places_oneHome (owner : Str) (h : owner ≠ []) :
    (oneHome owner h).places =
      [.system .config, .system .autostart, .home owner .documents] := by
  rw [HostFiles.places, homes_oneHome]
  rfl

def renameTo (owner : Str) : Str → Str := fun _ => owner

theorem oneHome_renamed : (oneHome (str "alice") (by decide)).Renamed (renameTo (str "bob"))
    (oneHome (str "bob") (by decide)) := by
  refine ⟨rfl, ?_, ?_⟩
  · rw [homes_oneHome, homes_oneHome]
    exact List.Perm.refl _
  · intro a ha b hb hlt
    rw [HostFiles.owners, homes_oneHome] at ha hb
    rw [List.mem_singleton.mp ha, List.mem_singleton.mp hb] at hlt
    exact absurd hlt (lt_irrefl _)

theorem oneContext_renamed (ρ : Str → Str) (files : HostFiles) :
    oneContext.Renamed ρ files oneContext :=
  ⟨rfl, rfl, rfl, rfl, rfl, rfl, fun _ _ => rfl⟩

/-- A file below a place is written, and then there is a sweep. -/
def oneWrite (place : Place) : List FileOp :=
  [.record place (str "modified") (str "/a") 0.0, .sweep]

theorem oneWrite_within {place : Place} {places : List Place} (h : place ∈ places) :
    ∀ op ∈ oneWrite place, op.Within places := by
  intro op hop
  rcases List.mem_cons.mp hop with rfl | hsweep
  · exact h
  · rw [List.mem_singleton.mp hsweep]
    trivial

theorem sparesRenamed_oneWrite_iff (ρ : Str → Str) (place : Place) :
    SparesRenamed ρ (oneWrite place) ↔ place.rename ρ = place := by
  constructor
  · intro h
    exact h [] place (str "modified") (str "/a") 0.0 [.sweep] rfl (by decide)
      (List.mem_singleton_self _)
  · intro h
    have hsweep : SparesRenamed ρ [.sweep] :=
      (sparesRenamed_nil ρ).cons (fun _ _ _ _ hrecord => nomatch hrecord)
    apply hsweep.cons
    intro place' eventType below moment hrecord _ _
    cases hrecord
    exact h

/-- A write below `/etc` is recorded the same, whoever has the home. -/
theorem sameRecords_renamed_etc : SameRecords
    ((oneHome (str "alice") (by decide)).events (fun _ => 0) oneContext none
      (oneWrite (.system .config)))
    ((oneHome (str "bob") (by decide)).events (fun _ => 0) oneContext none
      ((oneWrite (.system .config)).map (FileOp.rename (renameTo (str "bob"))))) :=
  (sameRecords_renamed _ oneHome_renamed (oneContext_renamed _ _) none
    (oneWrite_within (by rw [places_oneHome]; simp))).1
    ((sparesRenamed_oneWrite_iff _ _).mpr rfl)

/-- A write below the documents of the home is not. -/
theorem not_sameRecords_documents : ¬∀ (hash : Str → ℤ) (ρ : Str → Str) (files files' : HostFiles),
    files.Renamed ρ files' → ∀ c c' : CollectorContext, c.Renamed ρ files c' →
      ∀ (startedAt : Option Float) (ops : List FileOp), (∀ op ∈ ops, op.Within files.places) →
        SameRecords (files.events hash c startedAt ops)
          (files'.events hash c' startedAt (ops.map (FileOp.rename ρ))) := by
  intro h
  have hwithin : ∀ op ∈ oneWrite (.home (str "alice") .documents),
      op.Within (oneHome (str "alice") (by decide)).places :=
    oneWrite_within (by rw [places_oneHome]; simp)
  have hsame := h (fun _ => 0) _ _ _ oneHome_renamed _ _ (oneContext_renamed _ _) none _ hwithin
  have hspares := FileMonitor.sparesRenamed_of_events oneHome_renamed oneContext_dependable
    oneContext_dependable _ none hwithin hsame.1
  have hplace := (sparesRenamed_oneWrite_iff _ _).mp hspares
  exact absurd (Place.home.inj hplace).1 (by decide)

end Ebabf
