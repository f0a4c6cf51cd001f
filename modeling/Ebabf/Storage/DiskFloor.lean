import Ebabf.Storage.Runs

/-!
# The disk floor

Free space is read on the first append a handle inserts and on every 500th from there. Below the
floor the handle latches: it records the halt once and every later append raises.
-/

namespace Ebabf.EventStore

open Py (Str str Exc Datetime)
open Transition

/-- `append(event)`, with what it reads from outside. -/
structure Append where
  event : Event
  env : AppendEnv

def Append.step (op : Append) (s : EventStore) : EventStore := (s.append op.event op.env).2

/-- The append returns. -/
def Returns (s : EventStore) (op : Append) : Prop :=
  ∃ stamped, (s.append op.event op.env).1 = .ok stamped

def Raises (s : EventStore) (op : Append) : Prop :=
  ∃ e, (s.append op.event op.env).1 = .error e

def RaisesHalted (s : EventStore) (op : Append) : Prop :=
  ∃ reason, (s.append op.event op.env).1 = .error ⟨storageHalted, reason⟩

/-- How many appends of the run return. -/
def returned : List Append → EventStore → ℕ
  | [], _ => 0
  | op :: ops, s =>
    (match (s.append op.event op.env).1 with
      | .ok _ => 1
      | .error _ => 0) + returned ops (op.step s)

/-- The handle goes on recording, with a new count of appends since the last reading. -/
structure GoesOn (n : ℕ) (s s' : EventStore) : Prop where
  since : s'.appendsSinceSpaceCheck = n
  running : s'.haltedReason = none
  floor : s'.minFreeBytes = s.minFreeBytes
  gaps : s'.db.coverageGaps = s.db.coverageGaps

/-- What an append does to a handle with a floor, by the free space it would read. -/
inductive FloorStep (floor : ℤ) (free : ℕ) (s : EventStore) : Except Exc Event × EventStore → Prop
  /-- its row is not taken -/
  | refused {e : Exc} (htype : e.type ≠ storageHalted) : FloorStep floor free s (.error e, s)
  /-- the handle has halted before -/
  | latched {reason : Str} {db : Db} (hhalted : s.haltedReason = some reason)
      (hgaps : db.coverageGaps = s.db.coverageGaps) :
      FloorStep floor free s (.error ⟨storageHalted, reason⟩, { s with db })
  /-- no reading is due -/
  | unsampled {stamped : Event} {s' : EventStore} (hrunning : s.haltedReason = none)
      (hdue : s.appendsSinceSpaceCheck + 1 < FREE_SPACE_CHECK_EVERY)
      (hnext : GoesOn (s.appendsSinceSpaceCheck + 1) s s') :
      FloorStep floor free s (.ok stamped, s')
  /-- the reading is not below the floor -/
  | enough {stamped : Event} {s' : EventStore} (hrunning : s.haltedReason = none)
      (hfree : floor ≤ free) (hnext : GoesOn 0 s s') : FloorStep floor free s (.ok stamped, s')
  /-- the reading is below the floor -/
  | halts {reason : Str} {s' : EventStore} {gap : CoverageGap} (hrunning : s.haltedReason = none)
      (hfree : free < floor) (hreason : s'.haltedReason = some reason)
      (hfloor : s'.minFreeBytes = s.minFreeBytes) (hkind : gap.kind = str "storage_halted")
      (hgaps : s'.db.coverageGaps = s.db.coverageGaps ++ [gap]) :
      FloorStep floor free s (.error ⟨storageHalted, reason⟩, s')

theorem enforceCap_gaps (env : AppendEnv) (s : EventStore) :
    (s.enforceCap env).db.coverageGaps = s.db.coverageGaps := by
  unfold enforceCap
  split
  · rfl
  · rename_i maxEvents _
    split_ifs
    · by_cases hd : s.doomed maxEvents = []
      · rw [evictLocked, evictUpTo_of_doomed_eq_nil env.droppedAt hd]
      · rw [evictLocked, db_evictUpTo env.droppedAt hd]
        rfl
    · rfl

theorem goesOn_enforceCap (env : AppendEnv) {s t : EventStore} {n : ℕ}
    (hnext : GoesOn n s t) : GoesOn n s ({ t with rowCount := t.rowCount + 1 }.enforceCap env) := by
  obtain ⟨db, rowCount, hframe⟩ := enforceCap_frame env { t with rowCount := t.rowCount + 1 }
  have hgaps := enforceCap_gaps env { t with rowCount := t.rowCount + 1 }
  rw [hframe] at hgaps ⊢
  exact ⟨hnext.since, hnext.running, hnext.floor, hgaps.trans hnext.gaps⟩

variable {floor : ℤ} {s : EventStore} {op : Append}

theorem floorStep_append (hfloor : s.minFreeBytes = some floor) {free : ℕ}
    (hfree : op.env.free = some free) :
    FloorStep floor free s (s.append op.event op.env) := by
  by_cases haccepts : s.Accepts op.event op.env
  · obtain ⟨stamped, row, db, hprepare, hinsert⟩ := haccepts
    obtain ⟨-, events, -, rfl⟩ := db_insertEvent hinsert
    let t : EventStore := { s with db := { s.db with events } }
    cases hhalted : s.haltedReason with
    | some reason =>
      have hcheck : t.checkFreeSpaceLocked op.env = (.error ⟨storageHalted, reason⟩, t) := by
        simp only [checkFreeSpaceLocked, t, hhalted]
      simp only [append, hprepare, hinsert]
      rw [hcheck]
      exact .latched hhalted rfl
    | none =>
      by_cases hdue : s.appendsSinceSpaceCheck + 1 < FREE_SPACE_CHECK_EVERY
      · have hcheck : t.checkFreeSpaceLocked op.env =
            (.ok (), { t with appendsSinceSpaceCheck := s.appendsSinceSpaceCheck + 1 }) := by
          simp only [checkFreeSpaceLocked, t, hhalted, hfloor, hdue, ↓reduceIte]
        simp only [append, hprepare, hinsert]
        rw [hcheck]
        exact .unsampled hhalted hdue (goesOn_enforceCap _ ⟨rfl, hhalted, rfl, rfl⟩)
      · by_cases hlow : floor ≤ free
        · have hcheck : t.checkFreeSpaceLocked op.env =
              (.ok (), { t with appendsSinceSpaceCheck := 0 }) := by
            simp only [checkFreeSpaceLocked, t, hhalted, hfloor, hdue, hfree, hlow, ↓reduceIte]
          simp only [append, hprepare, hinsert]
          rw [hcheck]
          exact .enough hhalted hlow (goesOn_enforceCap _ ⟨rfl, hhalted, rfl, rfl⟩)
        · have hcheck : t.checkFreeSpaceLocked op.env =
              { t with appendsSinceSpaceCheck := 0 }.halt (haltReason free floor) op.env := by
            simp only [checkFreeSpaceLocked, t, hhalted, hfloor, hdue, hfree, hlow, ↓reduceIte]
          simp only [append, hprepare, hinsert]
          rw [hcheck]
          exact .halts hhalted (Int.not_le.mp hlow) rfl rfl rfl rfl
  · obtain ⟨e, htype, happend⟩ := append_of_not_accepts haccepts
    rw [happend]
    exact .refused htype

/-- The readings all succeed. -/
def Readable (ops : List Append) : Prop := ∀ op ∈ ops, op.env.free ≠ none

/-- The readings are all below the floor. -/
def StaysBelow (floor : ℤ) (ops : List Append) : Prop :=
  ∀ op ∈ ops, ∀ free ∈ op.env.free, (free : ℤ) < floor

/-- A handle that keeps its floor, and whose halt is recorded once, after the `before` it was opened
with. -/
structure Guarded (floor : ℤ) (before : List CoverageGap) (s : EventStore) : Prop where
  floor : s.minFreeBytes = some floor
  running : s.isHalted = false → s.db.coverageGaps = before
  halted : s.isHalted = true → ∃ gap : CoverageGap, gap.kind = str "storage_halted" ∧
    s.db.coverageGaps = before ++ [gap]

variable {before : List CoverageGap}

theorem isHalted_iff {reason : Option Str} (h : s.haltedReason = reason) :
    s.isHalted = reason.isSome := by rw [isHalted, h]

theorem step_guarded (hs : Guarded floor before s) (hreadable : op.env.free ≠ none) :
    Guarded floor before (op.step s) ∧
      ((op.step s).isHalted = true ↔ s.isHalted = true ∨ s.RaisesHalted op) := by
  obtain ⟨free, hfree⟩ := Option.ne_none_iff_exists'.mp hreadable
  have hstep := floorStep_append hs.floor hfree
  unfold Append.step RaisesHalted
  generalize s.append op.event op.env = result at hstep
  cases hstep with
  | @refused e htype =>
    refine ⟨hs, (or_iff_left ?_).symm⟩
    rintro ⟨reason, hreason⟩
    exact htype (congrArg Exc.type (Except.error.inj hreason))
  | @latched reason db hhalted hgaps =>
    have hbefore : s.isHalted = true := isHalted_iff hhalted
    refine ⟨⟨hs.floor, fun hrunning => ?_, fun hafter => ?_⟩, ?_⟩
    · exact absurd (hrunning.symm.trans (isHalted_iff hhalted)) Bool.false_ne_true
    · obtain ⟨gap, hkind, hold⟩ := hs.halted hbefore
      exact ⟨gap, hkind, hgaps.trans hold⟩
    · exact iff_of_true hbefore (.inl hbefore)
  | unsampled hrunning hdue hnext | enough hrunning hfree hnext =>
    have hbefore : s.isHalted = false := isHalted_iff hrunning
    have hafter := isHalted_iff hnext.running
    refine ⟨⟨hnext.floor.trans hs.floor, fun _ => hnext.gaps.trans (hs.running hbefore), ?_⟩, ?_⟩
    · intro hhalted
      rw [hafter] at hhalted
      cases hhalted
    · rw [hafter, hbefore]
      simp
  | @halts reason s' gap hrunning hfree hreason hfloor hkind hgaps =>
    have hafter : s'.isHalted = true := isHalted_iff hreason
    refine ⟨⟨hfloor.trans hs.floor, fun hnot => ?_, fun _ => ⟨gap, hkind, ?_⟩⟩, ?_⟩
    · exact absurd (hnot.symm.trans hafter) Bool.false_ne_true
    · rw [hgaps, hs.running (isHalted_iff hrunning)]
    · exact iff_of_true hafter (.inr ⟨reason, rfl⟩)

theorem raises_of_halted (hs : s.isHalted = true) : s.Raises op := by
  rcases append_cases op.event op.env s with h | h | h
  · obtain ⟨e, -, happend⟩ := append_of_not_accepts h
    exact ⟨e, congrArg Prod.fst happend⟩
  · obtain ⟨reason, hreason⟩ := (append_halts_iff op.event op.env s).mpr h
    exact ⟨_, hreason⟩
  · rw [isHalted_iff h.2.1] at hs
    cases hs

/-- A halted handle stays halted, and every append on it raises. -/
theorem halted_run {ops : List Append} (hs : Guarded floor before s) (hhalted : s.isHalted = true)
    (hreadable : Readable ops) :
    Visits Append.step (fun s => s.isHalted = true) ops s ∧ Always Append.step Raises ops s := by
  induction ops generalizing s with
  | nil =>
    refine ⟨fun before after hops => ?_, always_nil _ _⟩
    rw [(List.append_eq_nil_iff.mp hops.symm).1]
    exact hhalted
  | cons op ops ih =>
    obtain ⟨hop, hops⟩ := List.forall_mem_cons.mp hreadable
    obtain ⟨hnext, hstays⟩ := step_guarded hs hop
    obtain ⟨hvisits, halways⟩ := ih hnext (hstays.mpr (.inl hhalted)) hops
    exact ⟨visits_cons.mpr ⟨hhalted, hvisits⟩, always_cons.mpr ⟨raises_of_halted hhalted, halways⟩⟩

theorem guarded_run {ops : List Append} (hs : Guarded floor before s) (hreadable : Readable ops) :
    Guarded floor before (run Append.step ops s) := by
  induction ops generalizing s with
  | nil => exact hs
  | cons op ops ih =>
    obtain ⟨hop, hops⟩ := List.forall_mem_cons.mp hreadable
    exact ih (step_guarded hs hop).1 hops

theorem running_run {ops : List Append} (hs : Guarded floor before s) (hreadable : Readable ops)
    (hrunning : s.isHalted = false)
    (hnever : Always Append.step (fun s op => ¬s.RaisesHalted op) ops s) :
    (run Append.step ops s).isHalted = false := by
  induction ops generalizing s with
  | nil => exact hrunning
  | cons op ops ih =>
    obtain ⟨hop, hops⟩ := List.forall_mem_cons.mp hreadable
    obtain ⟨hquiet, hrest⟩ := always_cons.mp hnever
    obtain ⟨hnext, hhalted⟩ := step_guarded hs hop
    refine ih hnext hops ?_ hrest
    rw [Bool.eq_false_iff, ne_eq, hhalted, hrunning]
    exact fun h => h.elim Bool.false_ne_true hquiet

theorem returned_of_raises {ops : List Append} (h : Always Append.step Raises ops s) :
    returned ops s = 0 := by
  induction ops generalizing s with
  | nil => rfl
  | cons op ops ih =>
    obtain ⟨⟨e, he⟩, hops⟩ := always_cons.mp h
    rw [returned, he, ih hops]

theorem returned_le {ops : List Append} (hs : Guarded floor before s) (hreadable : Readable ops)
    (hlow : StaysBelow floor ops) :
    returned ops s ≤ FREE_SPACE_CHECK_EVERY - 1 - s.appendsSinceSpaceCheck := by
  induction ops generalizing s with
  | nil => exact Nat.zero_le _
  | cons op ops ih =>
    obtain ⟨hop, hops⟩ := List.forall_mem_cons.mp hreadable
    obtain ⟨hoplow, hopslow⟩ := List.forall_mem_cons.mp hlow
    obtain ⟨free, hfree⟩ := Option.ne_none_iff_exists'.mp hop
    have hbelow := hoplow free hfree
    have hnext := (step_guarded hs hop).1
    have hstep := floorStep_append hs.floor hfree
    rw [returned]
    unfold Append.step at hnext ⊢
    generalize s.append op.event op.env = result at hstep hnext
    cases hstep with
    | refused htype => simpa using ih hs hops hopslow
    | latched hhalted hgaps =>
      have hrest := returned_of_raises (halted_run hnext (isHalted_iff hhalted) hops).2
      simp [hrest]
    | unsampled hrunning hdue hgoes =>
      have hrest := ih hnext hops hopslow
      dsimp only at hrest ⊢
      rw [hgoes.since] at hrest
      omega
    | enough hrunning hfree hgoes => omega
    | halts hrunning hfree hreason hfloor hkind hgaps =>
      have hrest := returned_of_raises (halted_run hnext (isHalted_iff hreason) hops).2
      simp [hrest]

theorem guarded_init (db : Db) (maxEvents : Option ℤ) {minFreeBytes : ℤ} (h : minFreeBytes ≠ 0) :
    Guarded minFreeBytes db.coverageGaps (init db maxEvents (some minFreeBytes)) where
  floor := by simp [init, orNone, h]
  running := fun _ => rfl
  halted := fun hhalted => nomatch hhalted

/-- From the append on that raises `StorageHalted` first, the handle stays halted and every append
raises, and the halt is on record once. -/
theorem latched_run {floor : ℤ} {gaps : List CoverageGap} {s : EventStore}
    (hs : Guarded floor gaps s) {before after : List Append} {op : Append}
    (hreadable : Readable (before ++ op :: after))
    (hhalts : RaisesHalted (run Append.step before s) op) :
    Visits Append.step (fun s => s.isHalted = true) after (run Append.step (before ++ [op]) s) ∧
      Always Append.step Raises after (run Append.step (before ++ [op]) s) ∧
      ∃ gap : CoverageGap, gap.kind = str "storage_halted" ∧
        (run Append.step (before ++ op :: after) s).db.coverageGaps = gaps ++ [gap] := by
  obtain ⟨hbefore, hrest⟩ := List.forall_mem_append.mp hreadable
  obtain ⟨hop, hafter⟩ := List.forall_mem_cons.mp hrest
  obtain ⟨hnext, hhalted⟩ := step_guarded (guarded_run hs hbefore) hop
  have hrun : run Append.step (before ++ [op]) s = op.step (run Append.step before s) :=
    run_append _ _ _ _
  have hnow := hhalted.mpr (.inr hhalts)
  rw [hrun]
  obtain ⟨hvisits, hraises⟩ := halted_run hnext hnow hafter
  have hlast := guarded_run hnext hafter
  have hstays := hvisits after [] (List.append_nil _).symm
  have hend : run Append.step after (op.step (run Append.step before s)) =
      run Append.step (before ++ op :: after) s := by
    rw [run_append, run_cons]
  rw [hend] at hlast hstays
  exact ⟨hvisits, hraises, hlast.halted hstays⟩

def fullDisk : EventStore := init Db.empty none (some (10 ^ 18))

def firstAppend : Append := ⟨.plain (str "EVT-1") (by decide), envWithFree (some 0)⟩

/-- The second of them comes when there is room again. -/
def laterAppends : List Append :=
  [⟨.plain (str "EVT-2") Event.strip_evt2, envWithFree (some 0)⟩,
    ⟨.plain (str "EVT-3") (by decide), envWithFree (some (10 ^ 19))⟩]

end Ebabf.EventStore
