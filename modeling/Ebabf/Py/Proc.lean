import Ebabf.Py.Text
import Ebabf.Transition

/-!
# Procedures

A Python procedure run from a state returns or raises, leaves a trace of the calls it made, and a
state. `try` is `attempt`. Some properties are closed under sequencing and are proved of a
procedure part by part: what it raises, which events its trace has, that the trace leads from its
first state to its last, and that another procedure does the same.
-/

namespace Py

/-- An exception as its handler meets it: the class, and `str(exc)` unless `__str__` returns no
string. -/
structure Fault where
  type : ExcType
  text : Option Str
deriving DecidableEq

namespace Fault

/-- `f"{type(exc).__name__}: {exc}"` -/
def describe (f : Fault) : Except Exc Str :=
  match f.text with
  | some text => .ok (Exc.describe ⟨f.type, text⟩)
  | none => .error ⟨.typeError, str "__str__ returned non-string"⟩

theorem describe_ok_iff (f : Fault) : (∃ text, f.describe = .ok text) ↔ f.text ≠ none := by
  unfold describe
  cases f.text <;> simp

theorem type_of_describe_error {f : Fault} {e : Exc} (h : f.describe = .error e) :
    e.type = .typeError := by
  unfold describe at h
  split at h
  · cases h
  · cases h
    rfl

end Fault

def Exc.toFault (e : Exc) : Fault := ⟨e.type, some e.message⟩

/-- What a procedure did. -/
structure Ran (ε σ α : Type) where
  outcome : Except Exc α
  trace : List ε
  state : σ

def Proc (ε σ α : Type) : Type := σ → Ran ε σ α

namespace Proc

variable {ε σ α β : Type}

instance : Monad (Proc ε σ) where
  pure a := fun s => ⟨.ok a, [], s⟩
  bind p f := fun s =>
    match (p s).outcome with
    | .error e => ⟨.error e, (p s).trace, (p s).state⟩
    | .ok a =>
      let rest := f a (p s).state
      ⟨rest.outcome, (p s).trace ++ rest.trace, rest.state⟩

/-- A computation that makes no call. -/
def lift (r : Except Exc α) : Proc ε σ α := fun s => ⟨r, [], s⟩

def emit (event : ε) : Proc ε σ Unit := fun s => ⟨.ok (), [event], s⟩

/-- The state as it is. -/
def read : Proc ε σ σ := fun s => ⟨.ok s, [], s⟩

/-- `try: p except Exception` with both ways out as values. -/
def attempt (p : Proc ε σ α) : Proc ε σ (Except Exc α) :=
  fun s => ⟨.ok (p s).outcome, (p s).trace, (p s).state⟩

/-- A procedure without a state, run where there is one. -/
def anywhere (p : Proc ε Unit α) : Proc ε σ α := fun s => ⟨(p ()).outcome, (p ()).trace, s⟩

@[simp] theorem pure_apply (a : α) (s : σ) : (pure a : Proc ε σ α) s = ⟨.ok a, [], s⟩ := rfl

@[simp] theorem lift_apply (r : Except Exc α) (s : σ) : (lift r : Proc ε σ α) s = ⟨r, [], s⟩ := rfl

@[simp] theorem emit_apply (event : ε) (s : σ) :
    (emit event : Proc ε σ Unit) s = ⟨.ok (), [event], s⟩ := rfl

@[simp] theorem attempt_apply (p : Proc ε σ α) (s : σ) :
    p.attempt s = ⟨.ok (p s).outcome, (p s).trace, (p s).state⟩ := rfl

@[simp] theorem anywhere_apply (p : Proc ε Unit α) (s : σ) :
    (p.anywhere : Proc ε σ α) s = ⟨(p ()).outcome, (p ()).trace, s⟩ := rfl

@[simp] theorem lift_ok_bind (a : α) (f : α → Proc ε σ β) (s : σ) :
    (lift (.ok a) >>= f) s = f a s := rfl

@[simp] theorem lift_error_bind (e : Exc) (f : α → Proc ε σ β) (s : σ) :
    (lift (.error e) >>= f) s = ⟨.error e, [], s⟩ := rfl

@[simp] theorem read_bind (f : σ → Proc ε σ β) (s : σ) : (read >>= f) s = f s s := rfl

variable {p : Proc ε σ α} {f : α → Proc ε σ β}

theorem bind_of_ok {s : σ} {a : α} (h : (p s).outcome = .ok a) :
    (p >>= f) s = ⟨(f a (p s).state).outcome, (p s).trace ++ (f a (p s).state).trace,
      (f a (p s).state).state⟩ := by
  simp only [bind, h]

theorem bind_of_error {s : σ} {e : Exc} (h : (p s).outcome = .error e) :
    (p >>= f) s = ⟨.error e, (p s).trace, (p s).state⟩ := by
  simp only [bind, h]

theorem bind_cases (p : Proc ε σ α) (f : α → Proc ε σ β) (s : σ) :
    (∃ e, (p s).outcome = .error e ∧ (p >>= f) s = ⟨.error e, (p s).trace, (p s).state⟩) ∨
      ∃ a, (p s).outcome = .ok a ∧ (p >>= f) s = ⟨(f a (p s).state).outcome,
        (p s).trace ++ (f a (p s).state).trace, (f a (p s).state).state⟩ := by
  cases h : (p s).outcome with
  | error e => exact .inl ⟨e, rfl, bind_of_error h⟩
  | ok a => exact .inr ⟨a, rfl, bind_of_ok h⟩

theorem mem_trace_bind_left {s : σ} {event : ε} (h : event ∈ (p s).trace) :
    event ∈ ((p >>= f) s).trace := by
  rcases bind_cases p f s with ⟨e, -, hbind⟩ | ⟨a, -, hbind⟩
  · rw [hbind]
    exact h
  · rw [hbind]
    exact List.mem_append_left _ h

theorem mem_trace_bind_right {s : σ} {a : α} {event : ε} (ha : (p s).outcome = .ok a)
    (h : event ∈ (f a (p s).state).trace) : event ∈ ((p >>= f) s).trace := by
  rw [bind_of_ok ha]
  exact List.mem_append_right _ h

/-- Everything it raises satisfies `P`. -/
def RaisesOnly (P : Exc → Prop) (p : Proc ε σ α) : Prop := ∀ s e, (p s).outcome = .error e → P e

variable {P : Exc → Prop}

theorem raisesOnly_pure (a : α) : RaisesOnly P (pure a : Proc ε σ α) :=
  fun _ _ h => nomatch h

theorem raisesOnly_emit (event : ε) : RaisesOnly P (emit event : Proc ε σ Unit) :=
  fun _ _ h => nomatch h

theorem raisesOnly_attempt (p : Proc ε σ α) : RaisesOnly P p.attempt :=
  fun _ _ h => nomatch h

theorem raisesOnly_lift {r : Except Exc α} (h : ∀ e, r = .error e → P e) :
    RaisesOnly P (lift r : Proc ε σ α) :=
  fun _ e he => h e he

theorem RaisesOnly.anywhere {p : Proc ε Unit α} (h : RaisesOnly P p) :
    RaisesOnly P (p.anywhere : Proc ε σ α) :=
  fun _ e he => h () e he

theorem RaisesOnly.bind (hp : RaisesOnly P p) (hf : ∀ a, RaisesOnly P (f a)) :
    RaisesOnly P (p >>= f) := by
  intro s e h
  rcases bind_cases p f s with ⟨e', he', hbind⟩ | ⟨a, -, hbind⟩
  · rw [hbind] at h
    cases h
    exact hp s e he'
  · rw [hbind] at h
    exact hf a _ e h

theorem RaisesOnly.attempt_bind {f : Except Exc α → Proc ε σ β} (hp : RaisesOnly P p)
    (hok : ∀ a, RaisesOnly P (f (.ok a))) (herror : ∀ e, P e → RaisesOnly P (f (.error e))) :
    RaisesOnly P (p.attempt >>= f) := by
  intro s e h
  rw [bind_of_ok (congrArg Ran.outcome (attempt_apply p s))] at h
  cases hs : (p s).outcome with
  | ok a =>
    rw [hs] at h
    exact hok a _ e h
  | error e' =>
    rw [hs] at h
    exact herror e' (hp s e' hs) _ e h

/-- Every call it makes satisfies `Q`. -/
def Emits (Q : ε → Prop) (p : Proc ε σ α) : Prop := ∀ s, ∀ event ∈ (p s).trace, Q event

variable {Q : ε → Prop}

theorem emits_pure (a : α) : Emits Q (pure a : Proc ε σ α) := fun _ _ h => nomatch h

theorem emits_lift (r : Except Exc α) : Emits Q (lift r : Proc ε σ α) := fun _ _ h => nomatch h

theorem emits_emit {event : ε} (h : Q event) : Emits Q (emit event : Proc ε σ Unit) := by
  intro s event' hevent'
  rw [emit_apply, List.mem_singleton] at hevent'
  rw [hevent']
  exact h

theorem Emits.attempt (h : Emits Q p) : Emits Q p.attempt := h

theorem Emits.bind (hp : Emits Q p) (hf : ∀ a, Emits Q (f a)) : Emits Q (p >>= f) := by
  intro s event hevent
  rcases bind_cases p f s with ⟨e, -, hbind⟩ | ⟨a, -, hbind⟩
  · rw [hbind] at hevent
    exact hp s event hevent
  · rw [hbind] at hevent
    rcases List.mem_append.mp hevent with hfirst | hrest
    · exact hp s event hfirst
    · exact hf a _ event hrest

section Couples

variable {ε' σ' κ κ' : Type} {T : ε → ε' → Prop} {R : σ → σ' → Prop}

/-- From related states the two procedures both return the same or both raise the same, leave
traces that are related event by event, and end in related states. -/
def Couples (T : ε → ε' → Prop) (R : σ → σ' → Prop) (p : Proc ε σ α) (p' : Proc ε' σ' α) : Prop :=
  ∀ s s', R s s' → (p' s').outcome = (p s).outcome ∧
    List.Forall₂ T (p s).trace (p' s').trace ∧ R (p s).state (p' s').state

theorem couples_pure (a : α) : Couples T R (pure a : Proc ε σ α) (pure a : Proc ε' σ' α) :=
  fun _ _ h => ⟨rfl, .nil, h⟩

theorem couples_emit {event : ε} {event' : ε'} (h : T event event') :
    Couples T R (emit event : Proc ε σ Unit) (emit event' : Proc ε' σ' Unit) :=
  fun _ _ hs => ⟨rfl, .cons h .nil, hs⟩

theorem Couples.bind {p' : Proc ε' σ' α} {f' : α → Proc ε' σ' β} (hp : Couples T R p p')
    (hf : ∀ a, Couples T R (f a) (f' a)) : Couples T R (p >>= f) (p' >>= f') := by
  intro s s' hs
  obtain ⟨houtcome, htrace, hstate⟩ := hp s s' hs
  cases hran : (p s).outcome with
  | error e =>
    rw [hran] at houtcome
    rw [bind_of_error hran, bind_of_error houtcome]
    exact ⟨rfl, htrace, hstate⟩
  | ok a =>
    rw [hran] at houtcome
    rw [bind_of_ok hran, bind_of_ok houtcome]
    obtain ⟨hrest, hrestTrace, hrestState⟩ := hf a _ _ hstate
    exact ⟨hrest, List.rel_append htrace hrestTrace, hrestState⟩

/-- How a procedure ends on one input after the other, and what it leaves as its trace, each time
from the state it left the time before. -/
def runs (p : κ → Proc ε σ α) : List κ → σ → List (Except Exc α × List ε)
  | [], _ => []
  | input :: inputs, s =>
    ((p input s).outcome, (p input s).trace) :: runs p inputs (p input s).state

theorem Couples.runs {p : κ → Proc ε σ α} {p' : κ' → Proc ε' σ' α} {S : κ → κ' → Prop}
    (h : ∀ input input', S input input' → Couples T R (p input) (p' input')) {inputs : List κ}
    {inputs' : List κ'} (hinputs : List.Forall₂ S inputs inputs') {s : σ} {s' : σ'} (hs : R s s') :
    List.Forall₂ (fun ran ran' => ran'.1 = ran.1 ∧ List.Forall₂ T ran.2 ran'.2)
      (Proc.runs p inputs s) (Proc.runs p' inputs' s') := by
  induction hinputs generalizing s s' with
  | nil => exact .nil
  | cons hinput _ ih =>
    obtain ⟨houtcome, htrace, hstate⟩ := h _ _ hinput s s' hs
    exact .cons ⟨houtcome, htrace⟩ (ih hstate)

theorem Couples.runs_map {p : κ → Proc ε σ α} {p' : κ' → Proc ε σ' α} {f : κ → κ'}
    (h : ∀ input, Couples Eq R (p input) (p' (f input))) (inputs : List κ) {s : σ} {s' : σ'}
    (hs : R s s') : Proc.runs p' (inputs.map f) s' = Proc.runs p inputs s := by
  have hinputs : List.Forall₂ (fun input input' => input' = f input) inputs (inputs.map f) := by
    rw [List.forall₂_map_right_iff]
    exact List.forall₂_same.mpr fun _ _ => rfl
  have hruns := Couples.runs (fun input input' hinput => hinput ▸ h input) hinputs hs
  have hsame : List.Forall₂ Eq (Proc.runs p inputs s) (Proc.runs p' (inputs.map f) s') := by
    refine hruns.imp fun ran ran' hran => Prod.ext hran.1.symm ?_
    rw [← List.forall₂_eq_eq_eq]
    exact hran.2
  rw [List.forall₂_eq_eq_eq] at hsame
  exact hsame.symm

end Couples

/-- The trace leads from the state before to the state after. -/
def Follows (rel : ε → σ → σ → Prop) (p : Proc ε σ α) : Prop :=
  ∀ s, Transition.Path rel s (p s).trace (p s).state

variable {rel : ε → σ → σ → Prop}

theorem follows_pure (a : α) : Follows rel (pure a : Proc ε σ α) := fun s => .nil s

theorem follows_lift (r : Except Exc α) : Follows rel (lift r : Proc ε σ α) := fun s => .nil s

theorem follows_emit {event : ε} (h : ∀ s, rel event s s) :
    Follows rel (emit event : Proc ε σ Unit) :=
  fun s => .single (h s)

theorem Follows.attempt (h : Follows rel p) : Follows rel p.attempt := h

theorem follows_anywhere {p : Proc ε Unit α} (h : ∀ event ∈ (p ()).trace, ∀ s, rel event s s) :
    Follows rel (p.anywhere : Proc ε σ α) :=
  fun s => .stationary fun event hevent => h event hevent s

theorem Follows.bind (hp : Follows rel p) (hf : ∀ a, Follows rel (f a)) :
    Follows rel (p >>= f) := by
  intro s
  rcases bind_cases p f s with ⟨e, -, hbind⟩ | ⟨a, -, hbind⟩
  · rw [hbind]
    exact hp s
  · rw [hbind]
    exact (hp s).append (hf a _)

end Proc
end Py
