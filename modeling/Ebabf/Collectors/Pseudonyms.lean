import Ebabf.Collectors.Base
import Ebabf.Storage.Pseudonymizer

/-!
# Where a context's pseudonyms come from

A collector's context answers from a map and a supply of pseudonyms to mint. Behind it is a tenant's
pseudonymizer over the identity store, which draws uuids, writes rows, and reloads its map when the
agent starts again. Whatever it answers, a context could have answered.
-/

namespace Ebabf

open Py (Str str Exc Datetime Dict)

variable {τ : Type} {fernet : Fernet τ}

namespace Agent

/-- `pseudonymize`, when no other thread takes a step before it returns. -/
def pseudonymize (fernet : Fernet τ) (tenantId subject uuid : Str) (nonce : ℕ) (now : Datetime)
    (s : Agent τ) : Agent τ :=
  Transition.run (step fernet)
    (.call 0 tenantId subject :: List.replicate 6 (.advance 0 uuid nonce now)) s

/-- The pseudonymizer of the tenant holds a map, and nobody is inside a call. -/
structure Idle (tenantId : Str) (forward : Dict Str) (s : Agent τ) : Prop where
  pseudonymizer : s.pseudonymizers tenantId = some ⟨forward, none⟩
  calls : ∀ thread, s.calls thread = none

section

variable {s : Agent τ} {tenantId subject uuid : Str} {nonce : ℕ} {now : Datetime}
  {forward : Dict Str} {thread : ℕ} {call : PseudonymizeCall} {stage : Stage}
  {p : TenantPseudonymizer}

theorem step_call (h : s.Idle tenantId forward) (hsubject : subject ≠ []) :
    s.step fernet (.call 0 tenantId subject) =
      s.proceed 0 ⟨tenantId, subject, .unlockedLookup⟩ .unlockedLookup ⟨forward, none⟩ := by
  have hsame : Function.update s.pseudonymizers tenantId (some ⟨forward, none⟩) =
      s.pseudonymizers := by rw [← h.pseudonymizer, Function.update_eq_self]
  simp only [step, hsubject, h.calls, h.pseudonymizer, Option.isSome_none, Option.isNone_some,
    Bool.false_eq_true, or_self, ↓reduceIte, proceed, hsame]

theorem step_proceed :
    (s.proceed thread call stage p).step fernet (.advance thread uuid nonce now) =
      (s.proceed thread call stage p).advance fernet uuid nonce now thread
        { call with stage } p := by
  simp only [step, proceed, Function.update_self]

theorem step_finish {result : Option Str} :
    (s.finish thread call result p).step fernet (.advance thread uuid nonce now) =
      s.finish thread call result p := by
  simp only [step, finish, Function.update_self]

theorem proceed_proceed {stage' : Stage} {p' : TenantPseudonymizer} {store : IdentityStore τ} :
    { s.proceed thread call stage p with store }.proceed thread { call with stage } stage' p' =
      { s with store }.proceed thread call stage' p' := by
  simp only [proceed, Function.update_idem]

theorem finish_proceed {result : Option Str} {p' : TenantPseudonymizer} :
    (s.proceed thread call stage p).finish thread { call with stage } result p' =
      s.finish thread call result p' := by
  simp only [proceed, finish, Function.update_idem]

theorem step_unlock {result : Option Str} :
    (s.proceed thread call (.unlock result) ⟨forward, some thread⟩).step fernet
        (.advance thread uuid nonce now) =
      s.finish thread call result ⟨forward, none⟩ := by
  rw [step_proceed]
  simp only [advance]
  exact finish_proceed

theorem run_of_known {pseudonym : Str} (hknown : forward.get? call.subject = some pseudonym) :
    Transition.run (step fernet) (List.replicate 6 (.advance thread uuid nonce now))
        (s.proceed thread call .unlockedLookup ⟨forward, none⟩) =
      s.finish thread call (some pseudonym) ⟨forward, none⟩ := by
  have hlookup : (s.proceed thread call .unlockedLookup ⟨forward, none⟩).step fernet
      (.advance thread uuid nonce now) =
        s.finish thread call (some pseudonym) ⟨forward, none⟩ := by
    rw [step_proceed]
    simp only [advance, hknown]
    exact finish_proceed
  simp only [List.replicate, Transition.run_cons, Transition.run_nil, hlookup, step_finish]

/-- For any other subject the thread takes the lock and mints; then it caches what it has minted, if
the store has not refused it, and lets go of the lock. -/
theorem run_of_unknown (hunknown : forward.get? call.subject = none) :
    Transition.run (step fernet) (List.replicate 6 (.advance thread uuid nonce now))
        (s.proceed thread call .unlockedLookup ⟨forward, none⟩) =
      match s.store.mintPseudonym fernet call.tenantId call.subject uuid nonce now with
      | (.ok pseudonym, store) => { s with store }.finish thread call (some pseudonym)
          ⟨forward.set call.subject pseudonym, none⟩
      | (.error _, store) => { s with store }.finish thread call none ⟨forward, none⟩ := by
  have hlookup : (s.proceed thread call .unlockedLookup ⟨forward, none⟩).step fernet
      (.advance thread uuid nonce now) = s.proceed thread call .lock ⟨forward, none⟩ := by
    rw [step_proceed]
    simp only [advance, hunknown]
    exact proceed_proceed
  have hlock : (s.proceed thread call .lock ⟨forward, none⟩).step fernet
      (.advance thread uuid nonce now) =
        s.proceed thread call .secondLookup ⟨forward, some thread⟩ := by
    rw [step_proceed]
    simp only [advance]
    exact proceed_proceed
  have hsecond : (s.proceed thread call .secondLookup ⟨forward, some thread⟩).step fernet
      (.advance thread uuid nonce now) = s.proceed thread call .mint ⟨forward, some thread⟩ := by
    rw [step_proceed]
    simp only [advance, hunknown]
    exact proceed_proceed
  rcases hmint : s.store.mintPseudonym fernet call.tenantId call.subject uuid nonce now with
    ⟨outcome, store⟩
  have hstore : (s.proceed thread call .mint ⟨forward, some thread⟩).store = s.store := rfl
  cases outcome with
  | error e =>
    have hminted : (s.proceed thread call .mint ⟨forward, some thread⟩).step fernet
        (.advance thread uuid nonce now) =
          { s with store }.proceed thread call (.unlock none) ⟨forward, some thread⟩ := by
      rw [step_proceed]
      simp only [advance, hstore, hmint]
      exact proceed_proceed
    simp only [List.replicate, Transition.run_cons, Transition.run_nil, hlookup, hlock, hsecond,
      hminted, step_unlock, step_finish]
  | ok pseudonym =>
    have hminted : (s.proceed thread call .mint ⟨forward, some thread⟩).step fernet
        (.advance thread uuid nonce now) =
          { s with store }.proceed thread call (.cache pseudonym) ⟨forward, some thread⟩ := by
      rw [step_proceed]
      simp only [advance, hstore, hmint]
      exact proceed_proceed
    have hcache : ({ s with store }.proceed thread call (.cache pseudonym)
        ⟨forward, some thread⟩).step fernet (.advance thread uuid nonce now) =
          { s with store }.proceed thread call (.unlock (some pseudonym))
            ⟨forward.set call.subject pseudonym, some thread⟩ := by
      rw [step_proceed]
      simp only [advance]
      exact proceed_proceed
    simp only [List.replicate, Transition.run_cons, Transition.run_nil, hlookup, hlock, hsecond,
      hminted, hcache, step_unlock]

theorem Idle.finish (h : ∀ thread, s.calls thread = none) (subject : Str) (result : Option Str)
    (forward : Dict Str) : (s.finish 0 ⟨tenantId, subject, stage⟩ result ⟨forward, none⟩).Idle
      tenantId forward := by
  constructor
  · exact Function.update_self _ _ _
  · intro thread
    show Function.update s.calls 0 none thread = none
    by_cases hthread : thread = 0
    · rw [hthread, Function.update_self]
    · rw [Function.update_of_ne hthread, h]

theorem pseudonym_of_mintPseudonym {pseudonym : Str} {store store' : IdentityStore τ}
    (h : store.mintPseudonym fernet tenantId subject uuid nonce now = (.ok pseudonym, store')) :
    pseudonym = str "USR-" ++ uuid := by
  unfold IdentityStore.mintPseudonym at h
  split_ifs at h
  · cases h
  · dsimp only at h
    split at h
    · cases h
    · split_ifs at h
      · cases h
      · split at h
        · cases h
        · cases h
          rfl

theorem pseudonymize_cases (fernet : Fernet τ) (h : s.Idle tenantId forward) (subject uuid : Str)
    (nonce : ℕ) (now : Datetime) :
    (subject ≠ [] ∧ ∃ pseudonym, forward.get? subject = some pseudonym ∧
        (s.pseudonymize fernet tenantId subject uuid nonce now).Idle tenantId forward ∧
        (s.pseudonymize fernet tenantId subject uuid nonce now).returned =
          s.returned ++ [⟨tenantId, subject, pseudonym⟩]) ∨
      (subject ≠ [] ∧ forward.get? subject = none ∧
        (s.pseudonymize fernet tenantId subject uuid nonce now).Idle tenantId
          (forward.set subject (str "USR-" ++ uuid)) ∧
        (s.pseudonymize fernet tenantId subject uuid nonce now).returned =
          s.returned ++ [⟨tenantId, subject, str "USR-" ++ uuid⟩]) ∨
      ((s.pseudonymize fernet tenantId subject uuid nonce now).Idle tenantId forward ∧
        (s.pseudonymize fernet tenantId subject uuid nonce now).returned = s.returned) := by
  by_cases hsubject : subject = []
  · have hadvance : s.step fernet (.advance 0 uuid nonce now) = s := by
      simp only [step, h.calls]
    have hcall : s.step fernet (.call 0 tenantId subject) = s := by
      simp only [step, hsubject, true_or, ↓reduceIte]
    have hsame : s.pseudonymize fernet tenantId subject uuid nonce now = s := by
      simp only [pseudonymize, List.replicate, Transition.run_cons, Transition.run_nil, hcall,
        hadvance]
    rw [hsame]
    exact .inr (.inr ⟨h, rfl⟩)
  · unfold pseudonymize
    rw [Transition.run_cons, step_call h hsubject]
    cases hlookup : forward.get? subject with
    | some pseudonym =>
      rw [run_of_known hlookup]
      exact .inl ⟨hsubject, pseudonym, rfl, .finish h.calls _ _ _, rfl⟩
    | none =>
      rw [run_of_unknown hlookup]
      cases hmint : s.store.mintPseudonym fernet tenantId subject uuid nonce now with
      | mk outcome store =>
        cases outcome with
        | error e =>
          refine .inr (.inr ⟨.finish (s := { s with store }) h.calls _ _ _, ?_⟩)
          exact List.append_nil _
        | ok pseudonym =>
          rw [pseudonym_of_mintPseudonym hmint]
          exact .inr (.inl ⟨hsubject, rfl, .finish (s := { s with store }) h.calls _ _ _, rfl⟩)

end

end Agent

/-- What a collector's sweep asks of the pseudonymizer, and the agent starting again. -/
inductive SubjectOp
  | pseudonymize (subject uuid : Str) (nonce : ℕ) (now : Datetime)
  | restart

namespace SubjectOp

def step (fernet : Fernet τ) (tenantId : Str) : SubjectOp → Agent τ → Agent τ
  | .pseudonymize subject uuid nonce now, s =>
    s.pseudonymize fernet tenantId subject uuid nonce now
  | .restart, s => Transition.run (Agent.step fernet) [.crash, .start tenantId] s

/-- The subjects that are asked for, in order. -/
def asked : List SubjectOp → List Str
  | [] => []
  | .pseudonymize subject _ _ _ :: ops => subject :: asked ops
  | .restart :: ops => asked ops

/-- The uuids that are drawn, whether they are used or not. -/
def drawn : List SubjectOp → List Str
  | [] => []
  | .pseudonymize _ uuid _ _ :: ops => uuid :: drawn ops
  | .restart :: ops => drawn ops

end SubjectOp

/-- What a context answers when it is asked for one subject after the other. -/
def CollectorContext.answers : List Str → CollectorContext → List (Except Exc Str)
  | [], _ => []
  | subject :: subjects, c =>
    (pseudonymize subject c).outcome :: answers subjects (pseudonymize subject c).state

theorem CollectorContext.answers_known {c : CollectorContext} {subject pseudonym : Str}
    (hsubject : subject ≠ []) (hknown : c.forward.get? subject = some pseudonym)
    (subjects : List Str) :
    c.answers (subject :: subjects) = .ok pseudonym :: c.answers subjects := by
  have hran : CollectorContext.pseudonymize subject c = ⟨.ok pseudonym, [], c⟩ := by
    simp only [CollectorContext.pseudonymize, hsubject, ↓reduceIte, hknown]
  simp only [answers, hran]

theorem CollectorContext.answers_new {c : CollectorContext} {subject : Str}
    (hsubject : subject ≠ []) (hunknown : c.forward.get? subject = none) (subjects : List Str) :
    c.answers (subject :: subjects) = .ok (c.mints 0) ::
      CollectorContext.answers subjects { c with
        mints := fun n => c.mints (n + 1)
        forward := c.forward.set subject (c.mints 0) } := by
  have hran : CollectorContext.pseudonymize subject c = ⟨.ok (c.mints 0), [], { c with
      mints := fun n => c.mints (n + 1)
      forward := c.forward.set subject (c.mints 0) }⟩ := by
    simp only [CollectorContext.pseudonymize, hsubject, ↓reduceIte, hunknown]
  simp only [answers, hran]

/-- A supply with one more pseudonym in front. -/
def mintFirst (first : Str) (rest : ℕ → Str) : ℕ → Str
  | 0 => first
  | n + 1 => rest n

namespace Agent

variable {tenantId : Str} {s : Agent τ} {forward : Dict Str}

theorem load_of_consistent {store : IdentityStore τ} (h : store.Consistent fernet)
    (tenantId : Str) : ∃ forward, loadForwardMapInternal fernet tenantId store = .ok forward := by
  obtain ⟨pairs, hpairs⟩ : ∃ pairs, (store.identityMap.rows.filter fun row =>
      row.tenantId = tenantId).mapM (fun row =>
        (IdentityCipher.decrypt fernet row.subjectCiphertext).map fun subject =>
          (subject, row.pseudonym)) = .ok pairs := by
    cases hrows : (store.identityMap.rows.filter fun row => row.tenantId = tenantId).mapM
        (fun row => (IdentityCipher.decrypt fernet row.subjectCiphertext).map fun subject =>
          (subject, row.pseudonym)) with
    | ok pairs => exact ⟨pairs, rfl⟩
    | error e =>
      obtain ⟨row, hrow, herror⟩ := Py.exists_of_mapM_error hrows
      obtain ⟨subject, hsubject⟩ := h.decrypts row (List.mem_of_mem_filter hrow)
      rw [hsubject] at herror
      cases herror
  exact ⟨_, Py.bind_eq_ok.mpr ⟨pairs, hpairs, rfl⟩⟩

/-- An agent that starts again knows for its tenant what the store knows. -/
theorem idle_of_restart (h : s.Coherent fernet) (htenant : tenantId ≠ []) : ∃ forward,
    (Transition.run (step fernet) [.crash, .start tenantId] s).Idle tenantId forward ∧
      (Transition.run (step fernet) [.crash, .start tenantId] s).returned = s.returned ∧
      ∀ subject pseudonym, forward.get? subject = some pseudonym ↔
        Named fernet s.store tenantId subject pseudonym := by
  obtain ⟨forward, hload⟩ := load_of_consistent h.store tenantId
  refine ⟨forward, ?_, ?_, get?_loadForwardMapInternal h.store hload⟩
  · simp only [Transition.run_cons, Transition.run_nil, step, htenant, ↓reduceIte, hload]
    refine ⟨?_, fun _ => rfl⟩
    dsimp only
    rw [Function.update_self]
  · simp only [Transition.run_cons, Transition.run_nil, step, htenant, ↓reduceIte, hload]

theorem Idle.get?_iff (h : s.Idle tenantId forward) (hs : s.Coherent fernet)
    (subject pseudonym : Str) : forward.get? subject = some pseudonym ↔
      Named fernet s.store tenantId subject pseudonym := by
  constructor
  · exact hs.sound tenantId _ h.pseudonymizer subject pseudonym
  · intro hnamed
    rcases hs.complete tenantId _ h.pseudonymizer subject pseudonym hnamed with
      hget | ⟨thread, hlock, -⟩
    · exact hget
    · cases hlock

theorem Coherent.subjectOp (hfernet : fernet.Inverts) (hs : s.Coherent fernet) (op : SubjectOp) :
    (op.step fernet tenantId s).Coherent fernet := by
  have hstep : ∀ next (s : Agent τ), s.Coherent fernet → (s.step fernet next).Coherent fernet :=
    fun next s hs => hs.step hfernet next s
  cases op with
  | pseudonymize subject uuid nonce now => exact Transition.run_invariant hstep _ hs
  | restart => exact Transition.run_invariant hstep _ hs

theorem idle_step (htenant : tenantId ≠ []) (hs : s.Coherent fernet) (h : s.Idle tenantId forward)
    (op : SubjectOp) :
    (∃ forward', (op.step fernet tenantId s).Idle tenantId forward') ∧
      (op.step fernet tenantId s).returned.length ≤
        s.returned.length + (SubjectOp.asked [op]).length := by
  cases op with
  | restart =>
    obtain ⟨forward', hidle, hreturned, -⟩ := idle_of_restart hs htenant
    exact ⟨⟨forward', hidle⟩, (congrArg List.length hreturned).le⟩
  | pseudonymize subject uuid nonce now =>
    simp only [SubjectOp.step, SubjectOp.asked, List.length_singleton]
    rcases pseudonymize_cases fernet h subject uuid nonce now with
      ⟨-, pseudonym, -, hidle, hreturned⟩ | ⟨-, -, hidle, hreturned⟩ | ⟨hidle, hreturned⟩
    · exact ⟨⟨_, hidle⟩, by rw [hreturned, List.length_append, List.length_singleton]⟩
    · exact ⟨⟨_, hidle⟩, by rw [hreturned, List.length_append, List.length_singleton]⟩
    · exact ⟨⟨_, hidle⟩, by rw [hreturned]; exact Nat.le_succ _⟩

theorem length_asked_cons (op : SubjectOp) (ops : List SubjectOp) :
    (SubjectOp.asked (op :: ops)).length =
      (SubjectOp.asked [op]).length + (SubjectOp.asked ops).length := by
  cases op with
  | pseudonymize => exact Nat.add_comm _ _
  | restart => exact (Nat.zero_add _).symm

theorem length_returned_run (hfernet : fernet.Inverts) (htenant : tenantId ≠ [])
    (hs : s.Coherent fernet) (h : s.Idle tenantId forward) (ops : List SubjectOp) :
    (Transition.run (SubjectOp.step fernet tenantId) ops s).returned.length ≤
      s.returned.length + (SubjectOp.asked ops).length := by
  induction ops generalizing s forward with
  | nil => exact le_rfl
  | cons op ops ih =>
    obtain ⟨⟨forward', hidle⟩, hone⟩ := idle_step htenant hs h op
    have hrest := ih (hs.subjectOp hfernet op) hidle
    rw [Transition.run_cons, length_asked_cons]
    omega

/-- The answers of an agent that refuses none are those of a context that starts with the same map
and has the uuids it uses to mint from. -/
theorem answers_of_run (hfernet : fernet.Inverts) (htenant : tenantId ≠ []) (fallback : Str)
    (hs : s.Coherent fernet) (h : s.Idle tenantId forward) (ops : List SubjectOp)
    (hall : (Transition.run (SubjectOp.step fernet tenantId) ops s).returned.length =
      s.returned.length + (SubjectOp.asked ops).length) :
    ∃ (answered : List Returned) (mints : ℕ → Str),
      (Transition.run (SubjectOp.step fernet tenantId) ops s).returned = s.returned ++ answered ∧
      (∀ n, mints n = fallback ∨ ∃ uuid ∈ SubjectOp.drawn ops, mints n = str "USR-" ++ uuid) ∧
      ∀ c : CollectorContext, (∀ subject, c.forward.get? subject = forward.get? subject) →
        c.mints = mints →
          c.answers (SubjectOp.asked ops) = answered.map fun r => .ok r.pseudonym := by
  induction ops generalizing s forward with
  | nil =>
    exact ⟨[], fun _ => fallback, (List.append_nil _).symm, fun _ => .inl rfl, fun _ _ _ => rfl⟩
  | cons op ops ih =>
    obtain ⟨⟨forward', hidle'⟩, hone⟩ := idle_step htenant hs h op
    have hcoherent : (op.step fernet tenantId s).Coherent fernet := hs.subjectOp hfernet op
    have hrest := length_returned_run hfernet htenant hcoherent hidle' ops
    rw [Transition.run_cons, length_asked_cons] at hall
    rw [Transition.run_cons]
    cases op with
    | restart =>
      obtain ⟨reloaded, hidle, hreturned, hnames⟩ := idle_of_restart hs htenant
      have hsame : ∀ subject, reloaded.get? subject = forward.get? subject := fun subject =>
        Option.ext fun pseudonym =>
          (hnames subject pseudonym).trans (h.get?_iff hs subject pseudonym).symm
      obtain ⟨answered, mints, hafter, hmints, hanswers⟩ := ih hcoherent hidle (by
        simp only [SubjectOp.asked, List.length_nil] at hall hone
        omega)
      refine ⟨answered, mints, ?_, hmints, fun c hforward hc => ?_⟩
      · rw [hafter]
        exact congrArg (· ++ answered) hreturned
      · exact hanswers c (fun subject => (hforward subject).trans (hsame subject).symm) hc
    | pseudonymize subject uuid nonce now =>
      simp only [SubjectOp.asked, List.length_singleton] at hall hone
      have hanswered : ((SubjectOp.pseudonymize subject uuid nonce now).step fernet tenantId
          s).returned.length = s.returned.length + 1 := by omega
      rcases pseudonymize_cases fernet h subject uuid nonce now with
        ⟨hsubject, pseudonym, hknown, hidle, hreturned⟩ |
        ⟨hsubject, hunknown, hidle, hreturned⟩ | ⟨-, hreturned⟩
      · obtain ⟨answered, mints, hafter, hmints, hanswers⟩ := ih hcoherent hidle (by omega)
        refine ⟨⟨tenantId, subject, pseudonym⟩ :: answered, mints, ?_, ?_, fun c hforward hc => ?_⟩
        · rw [hafter]
          simp only [SubjectOp.step, hreturned, List.append_assoc, List.singleton_append]
        · intro n
          exact (hmints n).imp_right fun ⟨uuid', hdrawn, heq⟩ =>
            ⟨uuid', List.mem_cons_of_mem _ hdrawn, heq⟩
        · rw [SubjectOp.asked, CollectorContext.answers_known hsubject
            ((hforward subject).trans hknown), hanswers c hforward hc]
          rfl
      · obtain ⟨answered, mints, hafter, hmints, hanswers⟩ := ih hcoherent hidle (by omega)
        refine ⟨⟨tenantId, subject, str "USR-" ++ uuid⟩ :: answered,
          mintFirst (str "USR-" ++ uuid) mints, ?_, ?_, fun c hforward hc => ?_⟩
        · rw [hafter]
          simp only [SubjectOp.step, hreturned, List.append_assoc, List.singleton_append]
        · intro n
          cases n with
          | zero => exact .inr ⟨uuid, List.mem_cons_self, rfl⟩
          | succ n => exact (hmints n).imp_right fun ⟨uuid', hdrawn, heq⟩ =>
              ⟨uuid', List.mem_cons_of_mem _ hdrawn, heq⟩
        · have hfirst : c.mints 0 = str "USR-" ++ uuid := by rw [hc, mintFirst]
          rw [SubjectOp.asked, CollectorContext.answers_new hsubject
            ((hforward subject).trans hunknown), hfirst,
            hanswers _ (fun other => ?_) (by rw [hc]; rfl)]
          · rfl
          · rw [Dict.get?_set, Dict.get?_set, hforward]
      · rw [SubjectOp.step, hreturned] at hanswered
        omega

/-- Whatever has happened to the identity store before, and however often the agent starts again in
between: what a tenant's pseudonymizer answers to the collectors, if it refuses nothing, is what a
context answers whose map has the names in the store and which mints from the uuids drawn. -/
theorem answers_refine_context (hfernet : fernet.Inverts) (history : List AgentStep)
    {tenantId : Str} (htenant : tenantId ≠ []) (fallback : Str) (ops : List SubjectOp) :
    let s := Transition.run (step fernet) (history ++ [.crash, .start tenantId]) init
    let s' := Transition.run (SubjectOp.step fernet tenantId) ops s
    s'.returned.length = s.returned.length + (SubjectOp.asked ops).length →
      ∃ (forward : Dict Str) (mints : ℕ → Str) (answered : List Returned),
        (∀ subject pseudonym, forward.get? subject = some pseudonym ↔
          Named fernet s.store tenantId subject pseudonym) ∧
        (∀ n, mints n = fallback ∨ ∃ uuid ∈ SubjectOp.drawn ops, mints n = str "USR-" ++ uuid) ∧
        s'.returned = s.returned ++ answered ∧
        ∀ c : CollectorContext, c.forward = forward → c.mints = mints →
          c.answers (SubjectOp.asked ops) = answered.map fun r => .ok r.pseudonym := by
  intro s s' hall
  have hbefore : (Transition.run (step fernet) history init).Coherent fernet :=
    Transition.run_invariant (fun next s hs => hs.step hfernet next s) history coherent_init
  have hs : s.Coherent fernet :=
    Transition.run_invariant (fun next s hs => hs.step hfernet next s) _ coherent_init
  obtain ⟨forward, hidle, -⟩ := idle_of_restart hbefore htenant
  rw [← Transition.run_append] at hidle
  obtain ⟨answered, mints, hafter, hmints, hanswers⟩ :=
    answers_of_run hfernet htenant fallback hs hidle ops hall
  refine ⟨forward, mints, answered, hidle.get?_iff hs, hmints, hafter, fun c hforward hc => ?_⟩
  exact hanswers c (fun subject => by rw [hforward]) hc

/-- A subject is asked for before and after the agent starts again. -/
def askedTwice : List SubjectOp :=
  [.pseudonymize (str "u") (str "0") 0 .epoch, .restart,
    .pseudonymize (str "u") (str "1") 0 .epoch]

theorem answers_refine_context_twice :
    ∃ (forward : Dict Str) (mints : ℕ → Str) (answered : List Returned), answered.length = 2 ∧
      ∀ c : CollectorContext, c.forward = forward → c.mints = mints →
        c.answers [str "u", str "u"] = answered.map fun r => .ok r.pseudonym := by
  have hanswered : (Transition.run (SubjectOp.step Fernet.transparent (str "t")) askedTwice
      (Transition.run (step Fernet.transparent) ([] ++ [.crash, .start (str "t")])
        init)).returned.length = 2 := by
    decide
  obtain ⟨forward, mints, answered, -, -, hafter, hanswers⟩ :=
    answers_refine_context Fernet.inverts_transparent [] (by decide : str "t" ≠ []) []
      askedTwice hanswered
  refine ⟨forward, mints, answered, ?_, hanswers⟩
  have hlength := congrArg List.length hafter
  rw [hanswered, List.length_append] at hlength
  exact (Nat.zero_add _).symm.trans hlength.symm

end Agent
end Ebabf
