import Mathlib.Data.List.Basic
import Mathlib.Tactic

/-!
# Runs

A run of a deterministic system is a list of steps taken from a state. A property of single steps
holds always when it holds of every step of the run, at the state the run has reached by then; it
is proved from an invariant that the steps preserve. A path is a run of a labelled system, whose
steps relate states.
-/

namespace Transition

variable {σ α : Type} (step : α → σ → σ)

/-- The state after the steps, the first one first. -/
def run (ops : List α) (s : σ) : σ := ops.foldl (fun s op => step op s) s

/-- Every step of the run satisfies `P`, with the state it is taken from. -/
def Always (P : σ → α → Prop) (ops : List α) (s : σ) : Prop :=
  ∀ before op after, ops = before ++ op :: after → P (run step before s) op

/-- Every state of the run satisfies `P`, the first one and the last one included. -/
def Visits (P : σ → Prop) (ops : List α) (s : σ) : Prop :=
  ∀ before after, ops = before ++ after → P (run step before s)

@[simp] theorem run_nil (s : σ) : run step [] s = s := rfl

@[simp] theorem run_cons (op : α) (ops : List α) (s : σ) :
    run step (op :: ops) s = run step ops (step op s) := rfl

theorem run_append (before after : List α) (s : σ) :
    run step (before ++ after) s = run step after (run step before s) :=
  List.foldl_append

variable {step}

theorem always_nil (P : σ → α → Prop) (s : σ) : Always step P [] s := by
  intro before op after h
  simp at h

theorem always_cons {P : σ → α → Prop} {op : α} {ops : List α} {s : σ} :
    Always step P (op :: ops) s ↔ P s op ∧ Always step P ops (step op s) := by
  constructor
  · intro h
    refine ⟨h [] op ops rfl, fun before op' after hops => ?_⟩
    exact h (op :: before) op' after (by rw [hops, List.cons_append])
  · rintro ⟨hop, hops⟩ before op' after h
    cases before with
    | nil =>
      rw [List.nil_append, List.cons.injEq] at h
      rw [← h.1]
      exact hop
    | cons b before =>
      rw [List.cons_append, List.cons.injEq] at h
      rw [← h.1]
      exact hops before op' after h.2

instance decidableAlways (P : σ → α → Prop) [∀ s op, Decidable (P s op)] :
    (ops : List α) → (s : σ) → Decidable (Always step P ops s)
  | [], s => isTrue (always_nil P s)
  | op :: ops, s =>
    have := decidableAlways P ops (step op s)
    decidable_of_iff _ always_cons.symm

/-- What every step preserves holds after the run. -/
theorem run_invariant {I : σ → Prop} (hstep : ∀ op s, I s → I (step op s)) (ops : List α) {s : σ}
    (hs : I s) : I (run step ops s) := by
  induction ops generalizing s with
  | nil => exact hs
  | cons op ops ih => exact ih (hstep op s hs)

/-- What relates two systems after each step and its image relates them after a run. -/
theorem run_map {τ β : Type} {step' : β → τ → τ} {R : σ → τ → Prop} {f : α → β}
    (hstep : ∀ op s s', R s s' → R (step op s) (step' (f op) s')) (ops : List α) {s : σ} {s' : τ}
    (hs : R s s') : R (run step ops s) (run step' (ops.map f) s') := by
  induction ops generalizing s s' with
  | nil => exact hs
  | cons op ops ih => exact ih (hstep op s s' hs)

theorem Always.of_invariant {I : σ → Prop} {P Q : σ → α → Prop}
    (hstep : ∀ op s, I s → Q s op → I (step op s) ∧ P s op) {ops : List α} {s : σ} (hs : I s)
    (hQ : Always step Q ops s) : Always step P ops s := by
  induction ops generalizing s with
  | nil => exact always_nil P s
  | cons op ops ih =>
    rw [always_cons] at hQ ⊢
    obtain ⟨hI, hP⟩ := hstep op s hs hQ.1
    exact ⟨hP, ih hI hQ.2⟩

theorem Always.run_invariant {I : σ → Prop} {Q : σ → α → Prop}
    (hstep : ∀ op s, I s → Q s op → I (step op s)) {ops : List α} {s : σ} (hs : I s)
    (hQ : Always step Q ops s) : I (run step ops s) := by
  induction ops generalizing s with
  | nil => exact hs
  | cons op ops ih =>
    rw [always_cons] at hQ
    exact ih (hstep op s hs hQ.1) hQ.2

theorem Always.prefix {P : σ → α → Prop} {before after : List α} {s : σ}
    (h : Always step P (before ++ after) s) : Always step P before s := by
  intro before' op after' hbefore
  exact h before' op (after' ++ after) (by rw [hbefore, List.append_assoc, List.cons_append])

theorem Always.mono {P Q : σ → α → Prop} (h : ∀ s op, P s op → Q s op) {ops : List α} {s : σ}
    (hP : Always step P ops s) : Always step Q ops s :=
  fun before op after hops => h _ _ (hP before op after hops)

theorem visits_cons {P : σ → Prop} {op : α} {ops : List α} {s : σ} :
    Visits step P (op :: ops) s ↔ P s ∧ Visits step P ops (step op s) := by
  constructor
  · intro h
    refine ⟨h [] (op :: ops) rfl, fun before after hops => ?_⟩
    exact h (op :: before) after (by rw [hops, List.cons_append])
  · intro h before after hops
    cases before with
    | nil => exact h.1
    | cons b before =>
      rw [List.cons_append, List.cons.injEq] at hops
      rw [← hops.1]
      exact h.2 before after hops.2

theorem visits_of_invariant {P : σ → Prop} (hstep : ∀ op s, P s → P (step op s)) (ops : List α)
    {s : σ} (hs : P s) : Visits step P ops s :=
  fun before _ _ => run_invariant hstep before hs

/-- Where steps leave `P` intact exactly when they satisfy `Q`, a run keeps `P` exactly when all
its steps satisfy `Q`. -/
theorem visits_iff_always {P : σ → Prop} {Q : σ → α → Prop}
    (hstep : ∀ op s, P s → (P (step op s) ↔ Q s op)) {ops : List α} {s : σ} (hs : P s) :
    Visits step P ops s ↔ Always step Q ops s := by
  induction ops generalizing s with
  | nil =>
    constructor
    · intro _
      exact always_nil Q s
    · intro _ before after hops
      rw [(List.append_eq_nil_iff.mp hops.symm).1]
      exact hs
  | cons op ops ih =>
    rw [visits_cons, always_cons]
    constructor
    · intro h
      have hnext : P (step op s) := h.2 [] ops rfl
      exact ⟨(hstep op s hs).mp hnext, (ih hnext).mp h.2⟩
    · intro h
      have hnext : P (step op s) := (hstep op s hs).mpr h.1
      exact ⟨hs, (ih hnext).mpr h.2⟩

/-- The labels lead from one state to the other. -/
inductive Path (rel : α → σ → σ → Prop) : σ → List α → σ → Prop
  | nil (s : σ) : Path rel s [] s
  | cons {a : α} {as : List α} {s s' s'' : σ} (head : rel a s s') (tail : Path rel s' as s'') :
      Path rel s (a :: as) s''

variable {rel : α → σ → σ → Prop}

theorem Path.single {a : α} {s s' : σ} (h : rel a s s') : Path rel s [a] s' := .cons h (.nil s')

theorem Path.stationary {as : List α} {s : σ} (h : ∀ a ∈ as, rel a s s) : Path rel s as s := by
  induction as with
  | nil => exact .nil s
  | cons a as ih =>
    rw [List.forall_mem_cons] at h
    exact .cons h.1 (ih h.2)

theorem Path.append {before after : List α} {s s' s'' : σ} (hbefore : Path rel s before s')
    (hafter : Path rel s' after s'') : Path rel s (before ++ after) s'' := by
  induction hbefore with
  | nil s => exact hafter
  | cons head _ ih => exact .cons head (ih hafter)

/-- Where a label determines the next state, a path ends in one state only. -/
theorem Path.unique (hrel : ∀ a s s' s'', rel a s s' → rel a s s'' → s' = s'') {as : List α}
    {s s' s'' : σ} (h : Path rel s as s') (h' : Path rel s as s'') : s' = s'' := by
  induction h with
  | nil s =>
    cases h'
    rfl
  | cons head _ ih =>
    obtain _ | ⟨head', tail'⟩ := h'
    cases hrel _ _ _ _ head head'
    exact ih tail'

theorem Path.invariant {I : σ → Prop} (hstep : ∀ a s s', rel a s s' → I s → I s') {as : List α}
    {s s' : σ} (h : Path rel s as s') (hs : I s) : I s' := by
  induction h with
  | nil s => exact hs
  | cons head _ ih => exact ih (hstep _ _ _ head hs)

/-- Steps that are partial functions lead along the path on which they are all defined. -/
theorem path_of_foldlM {step : α → σ → Option σ} {as : List α} {s s' : σ}
    (h : as.foldlM (fun s a => step a s) s = some s') :
    Path (fun a s s' => step a s = some s') s as s' := by
  induction as generalizing s with
  | nil =>
    cases h
    exact .nil _
  | cons a as ih =>
    rw [List.foldlM_cons] at h
    obtain ⟨next, hnext, hrest⟩ := Option.bind_eq_some_iff.mp h
    exact .cons hnext (ih hrest)

/-- Every label is met in a state that satisfies `P` with it. -/
def Throughout (rel : α → σ → σ → Prop) (P : σ → α → Prop) (as : List α) (s : σ) : Prop :=
  ∀ before a after s', as = before ++ a :: after → Path rel s before s' → P s' a

theorem Path.split {before after : List α} {s s'' : σ} (h : Path rel s (before ++ after) s'') :
    ∃ s', Path rel s before s' ∧ Path rel s' after s'' := by
  induction before generalizing s with
  | nil => exact ⟨s, .nil s, h⟩
  | cons a before ih =>
    obtain _ | ⟨head, tail⟩ := h
    obtain ⟨s', hbefore, hafter⟩ := ih tail
    exact ⟨s', .cons head hbefore, hafter⟩

theorem Throughout.tail {P : σ → α → Prop} {a : α} {as : List α} {s s' : σ}
    (h : Throughout rel P (a :: as) s) (hhead : rel a s s') : Throughout rel P as s' := by
  intro before b after t has hbefore
  exact h (a :: before) b after t (by rw [has, List.cons_append]) (.cons hhead hbefore)

/-- What steps from states that satisfy `P` preserve holds at the end of a path of such steps. -/
theorem Path.invariant_of_throughout {I : σ → Prop} {P : σ → α → Prop}
    (hstep : ∀ a s s', rel a s s' → P s a → I s → I s') {as : List α} {s s' : σ}
    (h : Path rel s as s') (hP : Throughout rel P as s) (hs : I s) : I s' := by
  induction h with
  | nil s => exact hs
  | cons head _ ih =>
    have hhere := hP [] _ _ _ rfl (.nil _)
    exact ih (hP.tail head) (hstep _ _ _ head hhere hs)

/-- Where every step is matched by one of a deterministic system, between related states, a path
is matched by a run. -/
theorem Path.refines {τ : Type} {R : σ → τ → Prop} {next : α → τ → τ}
    (hstep : ∀ a s s' t, rel a s s' → R s t → R s' (next a t)) {as : List α} {s s' : σ} {t : τ}
    (h : Path rel s as s') (hR : R s t) : R s' (run next as t) := by
  induction h generalizing t with
  | nil s => exact hR
  | cons head _ ih => exact ih (hstep _ _ _ _ head hR)

end Transition
