import Ebabf.Runner.Handle

/-!
# One sweep

A sweep asks every collector for its events and handles them in order. A collector that raises is
named as failed, and the events it had yielded are gone with the list they were gathered in.
-/

namespace Ebabf

open Py (Str str Exc Fault Proc Ran)

/-- `list(collector.collect())`: what was yielded before an exception is not kept. -/
def Collected.list (c : Collected) : Except Fault (List Observation) :=
  match c.fault with
  | some fault => .error fault
  | none => .ok c.observations

/-- What a sweep produced, less its timing. -/
structure SweepResult where
  collected : ℕ := 0
  stored : ℕ := 0
  enforced : ℕ := 0
  failedCollectors : List (Str × Str) := []

/-- Events collected but not stored. -/
def SweepResult.dropped (result : SweepResult) : ℕ := result.collected - result.stored

namespace AgentRunner

variable {σ : Type}

/-- The loop over one collector's events. -/
def handleAll (runner : AgentRunner) (store : Store σ) :
    List Observation → SweepResult → Proc Action σ SweepResult
  | [], result => return result
  | o :: rest, result => do
    let (wasStored, wasEnforced) ← runner.handle store o
    runner.handleAll store rest { result with
      collected := result.collected + 1
      stored := result.stored + wasStored.toNat
      enforced := result.enforced + wasEnforced.toNat }

/-- The loop over the collectors in the given sweep. -/
def sweepCollectors (runner : AgentRunner) (store : Store σ) (sweep : ℕ) :
    List Collector → SweepResult → Proc Action σ SweepResult
  | [], result => return result
  | collector :: rest, result =>
    match (collector.collect sweep).list with
    | .error fault => do
      let description ← Proc.lift fault.describe
      runner.sweepCollectors store sweep rest { result with
        failedCollectors := result.failedCollectors ++ [(collector.name, description)] }
    | .ok events => do
      let result ← runner.handleAll store events result
      runner.sweepCollectors store sweep rest result

def sweepOnce (runner : AgentRunner) (store : Store σ) (sweep : ℕ) : Proc Action σ SweepResult :=
  runner.sweepCollectors store sweep runner.collectors {}

/-- The trace is that of the observations, each taken through both engines and appended, in
order. -/
inductive Handled (runner : AgentRunner) : List Observation → List Action → Prop
  | nil : Handled runner [] []
  | cons {o : Observation} {result : EnforcementResult} {final : Event}
      {rest : List Observation} {trace : List Action}
      (process : (runner.process o ()).outcome = .ok (result, final))
      (answer : Except Exc Event) (tail : Handled runner rest trace) :
      Handled runner (o :: rest) ((runner.process o ()).trace ++ .append final answer :: trace)

theorem Handled.append {runner : AgentRunner} {os os' : List Observation} {t t' : List Action}
    (h : runner.Handled os t) (h' : runner.Handled os' t') :
    runner.Handled (os ++ os') (t ++ t') := by
  induction h with
  | nil => exact h'
  | cons process answer _ ih =>
    rw [List.append_assoc, List.cons_append]
    exact .cons process answer ih

theorem Handled.split {runner : AgentRunner} {os os' : List Observation} {t : List Action}
    (h : runner.Handled (os ++ os') t) :
    ∃ t₁ t₂, t = t₁ ++ t₂ ∧ runner.Handled os t₁ ∧ runner.Handled os' t₂ := by
  induction os generalizing t with
  | nil => exact ⟨[], t, rfl, .nil, h⟩
  | cons o os ih =>
    obtain _ | ⟨process, answer, tail⟩ := h
    obtain ⟨t₁, t₂, rfl, h₁, h₂⟩ := ih tail
    exact ⟨_, t₂, by rw [List.append_assoc, List.cons_append], .cons process answer h₁, h₂⟩

def isAppend : Action → Bool
  | .append _ _ => true
  | _ => false

theorem Handled.countP_isAppend {runner : AgentRunner} {os : List Observation} {t : List Action}
    (h : runner.Handled os t) : t.countP isAppend = os.length := by
  induction h with
  | nil => rfl
  | @cons o result final rest trace _ answer _ ih =>
    have hengines : (runner.process o ()).trace.countP isAppend = 0 := by
      rw [List.countP_eq_zero]
      intro action haction
      rcases runner.process_trace o action haction with ⟨engaged, rfl⟩ | ⟨outcome, answer, rfl⟩
      · exact Bool.false_ne_true
      · exact Bool.false_ne_true
    rw [List.countP_append, hengines, List.countP_cons_of_pos (by rfl), ih, List.length_cons]
    omega

variable {runner : AgentRunner} (store : Store σ)

theorem handleAll_of_clean {os : List Observation} (h : ∀ o ∈ os, ¬runner.Poisoned o)
    (result : SweepResult) (s : σ) : ∃ result',
      (runner.handleAll store os result s).outcome = .ok result' ∧
      result'.collected = result.collected + os.length ∧
      result'.failedCollectors = result.failedCollectors ∧
      runner.Handled os (runner.handleAll store os result s).trace := by
  induction os generalizing result s with
  | nil => exact ⟨result, rfl, rfl, rfl, .nil⟩
  | cons o os ih =>
    rw [List.forall_mem_cons] at h
    obtain ⟨enforcement, final, hprocess, -⟩ := process_of_not_poisoned h.1
    have hhandle := handle_of_ok store hprocess s
    rw [handleAll, Proc.bind_of_ok (congrArg Ran.outcome hhandle), hhandle]
    obtain ⟨result', houtcome, hcollected, hfailed, hhandled⟩ := ih h.2 _ _
    refine ⟨result', houtcome, ?_, hfailed, ?_⟩
    · rw [hcollected, List.length_cons]
      dsimp only
      omega
    · rw [List.append_assoc]
      exact .cons hprocess _ hhandled

theorem clean_of_handleAll {os : List Observation} {result result' : SweepResult} {s : σ}
    (h : (runner.handleAll store os result s).outcome = .ok result') :
    ∀ o ∈ os, ¬runner.Poisoned o := by
  induction os generalizing result s with
  | nil => simp
  | cons o os ih =>
    have hclean : ¬runner.Poisoned o := by
      intro hpoisoned
      obtain ⟨e, he, -⟩ := handle_of_poisoned store hpoisoned s
      rw [handleAll, Proc.bind_of_error he] at h
      cases h
    obtain ⟨enforcement, final, hprocess, -⟩ := process_of_not_poisoned hclean
    rw [handleAll, Proc.bind_of_ok (congrArg Ran.outcome (handle_of_ok store hprocess s))] at h
    exact List.forall_mem_cons.mpr ⟨hclean, ih h⟩

/-- What the collectors yielded, up to an exception or to the end. -/
def yielded (sweep : ℕ) (collectors : List Collector) : List Observation :=
  collectors.flatMap fun c => (c.collect sweep).observations

/-- What is left of that once the exceptions are caught. -/
def kept (sweep : ℕ) (collectors : List Collector) : List Observation :=
  collectors.flatMap fun c => if (c.collect sweep).fault.isSome then []
    else (c.collect sweep).observations

/-- The collectors that raised. -/
def raised (sweep : ℕ) (collectors : List Collector) : List Collector :=
  collectors.filter fun c => (c.collect sweep).fault.isSome

/-- Nothing the collector does in this sweep makes it raise. -/
def Survivable (runner : AgentRunner) (sweep : ℕ) (c : Collector) : Prop :=
  (∀ fault ∈ (c.collect sweep).fault, fault.text ≠ none) ∧
    ((c.collect sweep).fault = none →
      ∀ o ∈ (c.collect sweep).observations, ¬runner.Poisoned o)

theorem sweepCollectors_of_survivable {sweep : ℕ} {collectors : List Collector}
    (h : ∀ c ∈ collectors, runner.Survivable sweep c) (result : SweepResult) (s : σ) :
    ∃ result', (runner.sweepCollectors store sweep collectors result s).outcome = .ok result' ∧
      result'.collected = result.collected + (kept sweep collectors).length ∧
      result'.failedCollectors.map Prod.fst =
        result.failedCollectors.map Prod.fst ++ (raised sweep collectors).map Collector.name ∧
      runner.Handled (kept sweep collectors)
        (runner.sweepCollectors store sweep collectors result s).trace := by
  induction collectors generalizing result s with
  | nil => exact ⟨result, rfl, rfl, (List.append_nil _).symm, .nil⟩
  | cons c collectors ih =>
    rw [List.forall_mem_cons] at h
    obtain ⟨⟨htext, hclean⟩, hrest⟩ := h
    cases hfault : (c.collect sweep).fault with
    | some fault =>
      obtain ⟨description, hdescription⟩ := fault.describe_ok_iff.mpr (htext fault hfault)
      have hkept : kept sweep (c :: collectors) = kept sweep collectors := by
        simp [kept, hfault]
      have hraised : raised sweep (c :: collectors) = c :: raised sweep collectors := by
        simp [raised, hfault]
      have hrun : ∀ s, runner.sweepCollectors store sweep (c :: collectors) result s =
          runner.sweepCollectors store sweep collectors { result with
            failedCollectors := result.failedCollectors ++ [(c.name, description)] } s := by
        intro s
        rw [sweepCollectors, Collected.list, hfault]
        exact Proc.bind_of_ok hdescription
      rw [hrun, hkept, hraised]
      obtain ⟨result', houtcome, hcollected, hfailed, hhandled⟩ := ih hrest _ s
      refine ⟨result', houtcome, hcollected, ?_, hhandled⟩
      rw [hfailed]
      simp
    | none =>
      have hkept : kept sweep (c :: collectors) =
          (c.collect sweep).observations ++ kept sweep collectors := by
        simp [kept, hfault]
      have hraised : raised sweep (c :: collectors) = raised sweep collectors := by
        simp [raised, hfault]
      obtain ⟨between, hbetween, hcollected, hfailed, hhandled⟩ :=
        handleAll_of_clean store (hclean hfault) result s
      rw [sweepCollectors, Collected.list, hfault]
      dsimp only
      rw [Proc.bind_of_ok hbetween, hkept, hraised]
      obtain ⟨result', houtcome, hcollected', hfailed', hhandled'⟩ := ih hrest between _
      refine ⟨result', houtcome, ?_, ?_, hhandled.append hhandled'⟩
      · rw [hcollected', hcollected, List.length_append]
        omega
      · rw [hfailed', hfailed]

theorem survivable_of_sweepCollectors {sweep : ℕ} {collectors : List Collector}
    {result result' : SweepResult} {s : σ}
    (h : (runner.sweepCollectors store sweep collectors result s).outcome = .ok result') :
    ∀ c ∈ collectors, runner.Survivable sweep c := by
  induction collectors generalizing result s with
  | nil => simp
  | cons c collectors ih =>
    rw [List.forall_mem_cons]
    rw [sweepCollectors, Collected.list] at h
    cases hfault : (c.collect sweep).fault with
    | some fault =>
      rw [hfault] at h
      dsimp only at h
      cases hdescribe : fault.describe with
      | error e =>
        rw [Proc.bind_of_error hdescribe] at h
        cases h
      | ok description =>
        rw [Proc.bind_of_ok hdescribe] at h
        refine ⟨⟨?_, fun hnone => ?_⟩, ih h⟩
        · intro fault' hfault'
          rw [hfault] at hfault'
          cases hfault'
          exact fault.describe_ok_iff.mp ⟨description, hdescribe⟩
        · rw [hfault] at hnone
          cases hnone
    | none =>
      rw [hfault] at h
      dsimp only at h
      rcases Proc.bind_cases (runner.handleAll store (c.collect sweep).observations result)
        (runner.sweepCollectors store sweep collectors) s with ⟨e, -, hbind⟩ | ⟨between, hok, hbind⟩
      · rw [hbind] at h
        cases h
      · rw [hbind] at h
        refine ⟨⟨fun fault' hfault' => ?_, fun _ => clean_of_handleAll store hok⟩, ih h⟩
        rw [hfault] at hfault'
        cases hfault'

/-- The sweep returns, has taken every yielded event through the engines to the store in order,
counts them all and names the collectors that raised; whatever such a collector did, the events of
the others were handled before and after its own. -/
structure LosesNothing (runner : AgentRunner) (sweep : ℕ) (ran : Ran Action σ SweepResult) :
    Prop where
  handled : runner.Handled (yielded sweep runner.collectors) ran.trace
  returns : ∃ result, ran.outcome = .ok result ∧
    result.collected = (yielded sweep runner.collectors).length ∧
    result.failedCollectors.map Prod.fst = (raised sweep runner.collectors).map Collector.name
  separate : ∀ before c after, runner.collectors = before ++ c :: after →
    (c.collect sweep).fault ≠ none → ∃ t own t', ran.trace = t ++ (own ++ t') ∧
      runner.Handled (yielded sweep before) t ∧
      runner.Handled (c.collect sweep).observations own ∧
      runner.Handled (yielded sweep after) t'

/-- A collector that raises does so at once, with an exception that has a text, and no event
yielded is poisoned. -/
def Lossless (runner : AgentRunner) (sweep : ℕ) (c : Collector) : Prop :=
  (∀ fault ∈ (c.collect sweep).fault, fault.text ≠ none ∧ (c.collect sweep).observations = []) ∧
    ∀ o ∈ (c.collect sweep).observations, ¬runner.Poisoned o

theorem kept_length_le (sweep : ℕ) (collectors : List Collector) :
    (kept sweep collectors).length ≤ (yielded sweep collectors).length := by
  induction collectors with
  | nil => exact le_rfl
  | cons c collectors ih =>
    simp only [kept, yielded, List.flatMap_cons, List.length_append] at ih ⊢
    split
    · rw [List.length_nil]
      omega
    · omega

/-- If as much is kept as was yielded, collectors that raised had yielded nothing. -/
theorem observations_eq_nil_of_kept {sweep : ℕ} {collectors : List Collector}
    (h : (kept sweep collectors).length = (yielded sweep collectors).length) :
    ∀ c ∈ collectors, (c.collect sweep).fault ≠ none → (c.collect sweep).observations = [] := by
  induction collectors with
  | nil => simp
  | cons c collectors ih =>
    have hle := kept_length_le sweep collectors
    simp only [kept, yielded, List.flatMap_cons, List.length_append] at h hle ih
    rw [List.forall_mem_cons]
    cases hfault : (c.collect sweep).fault with
    | some fault =>
      simp only [hfault, Option.isSome_some, ↓reduceIte, List.length_nil] at h
      exact ⟨fun _ => List.eq_nil_of_length_eq_zero (by omega), ih (by omega)⟩
    | none =>
      simp only [hfault, Option.isSome_none, Bool.false_eq_true, ↓reduceIte] at h
      exact ⟨fun hne => absurd rfl hne, ih (by omega)⟩

theorem lossless_of_losesNothing {sweep : ℕ} {s : σ}
    (h : runner.LosesNothing sweep (runner.sweepOnce store sweep s)) :
    ∀ c ∈ runner.collectors, runner.Lossless sweep c := by
  obtain ⟨result, hok, -⟩ := h.returns
  have hsurvivable := survivable_of_sweepCollectors store hok
  obtain ⟨-, -, -, -, hkept⟩ :=
    sweepCollectors_of_survivable store hsurvivable {} s
  have hnil := observations_eq_nil_of_kept
    (hkept.countP_isAppend.symm.trans h.handled.countP_isAppend)
  intro c hc
  obtain ⟨htext, hclean⟩ := hsurvivable c hc
  refine ⟨fun fault hfault => ⟨htext fault hfault, hnil c hc ?_⟩, ?_⟩
  · rw [hfault]
    exact Option.some_ne_none fault
  · cases hfault : (c.collect sweep).fault with
    | none => exact hclean hfault
    | some fault =>
      rw [hnil c hc (by rw [hfault]; exact Option.some_ne_none fault)]
      simp

theorem kept_eq_yielded {sweep : ℕ} {collectors : List Collector}
    (h : ∀ c ∈ collectors, runner.Lossless sweep c) :
    kept sweep collectors = yielded sweep collectors := by
  refine List.flatMap_congr fun c hc => ?_
  cases hfault : (c.collect sweep).fault with
  | none => rfl
  | some fault => exact ((h c hc).1 fault hfault).2.symm

/-- A sweep loses no observation exactly when every collector that raises does so before its first
event, with an exception that has a text, and no event yielded is poisoned. -/
theorem sweepOnce_losesNothing_iff (runner : AgentRunner) (store : Store σ) (sweep : ℕ) (s : σ) :
    runner.LosesNothing sweep (runner.sweepOnce store sweep s) ↔
      ∀ c ∈ runner.collectors, runner.Lossless sweep c := by
  constructor
  · exact lossless_of_losesNothing store
  · intro h
    have hsurvivable : ∀ c ∈ runner.collectors, runner.Survivable sweep c := fun c hc =>
      ⟨fun fault hfault => ((h c hc).1 fault hfault).1, fun _ => (h c hc).2⟩
    obtain ⟨result, hok, hcollected, hfailed, hhandled⟩ :=
      sweepCollectors_of_survivable store hsurvivable {} s
    rw [kept_eq_yielded h] at hcollected hhandled
    refine ⟨hhandled, ⟨result, hok, hcollected.trans (Nat.zero_add _), hfailed⟩, ?_⟩
    intro before c after hcollectors _
    have hsplit : yielded sweep runner.collectors = yielded sweep before ++
        ((c.collect sweep).observations ++ yielded sweep after) := by
      simp [yielded, hcollectors]
    rw [hsplit] at hhandled
    obtain ⟨t, rest, htrace, hbefore, hrest⟩ := hhandled.split
    obtain ⟨own, t', rfl, hown, hafter⟩ := hrest.split
    exact ⟨t, own, t', htrace, hbefore, hown, hafter⟩

/-- A plain observation, handled by the placeholder engines on a host without a sentinel. -/
def plainObservation (eventId : Str) (h : Py.strip eventId ≠ []) : Observation :=
  { event := .plain eventId h
    around :=
      { decideHook := PassThroughDecisionEngine.decideHook
        enforceHook := NoOpEnforcementEngine.enforceHook
        view := KillSwitch.rootView (.error (.other []))
        recursionLimit := 1 } }

/-- It yields one event and then raises. -/
def halfwayCollector : Collector :=
  { name := str "network"
    collect := fun _ =>
      { observations := [plainObservation (str "a") Event.strip_a]
        fault := some ⟨.other (str "OSError"), some (str "interface went down")⟩ } }

/-- An event yielded before its collector raises is lost. -/
theorem sweepOnce_loses_observation : ¬∀ (σ : Type) (runner : AgentRunner) (store : Store σ)
    (sweep : ℕ) (s : σ), runner.LosesNothing sweep (runner.sweepOnce store sweep s) := by
  intro h
  have hlossless := lossless_of_losesNothing _ (h Unit
    { rootRunner with collectors := [halfwayCollector] }
    ⟨fun event _ => (.ok event, ()), fun _ => (.ok (), ())⟩ 0 ())
  cases ((hlossless halfwayCollector (List.mem_singleton.mpr rfl)).1 _ rfl).2

end AgentRunner
end Ebabf
