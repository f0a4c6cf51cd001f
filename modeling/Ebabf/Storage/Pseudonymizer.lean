import Ebabf.Storage.IdentityStore
import Mathlib.Logic.Function.Basic

/-!
# The pseudonymizer

One pseudonymizer per tenant, each with its map in memory and its lock, over one identity store on
disk. Threads call `pseudonymize` and advance one step at a time, in any order; a crash loses the
memory and the calls, and a pseudonymizer that is started again reloads its map from the store.
-/

namespace Ebabf

open Py (Str str Exc Datetime Dict)

variable {τ : Type}

/-- Where a call of `pseudonymize` stands: what it does next. -/
inductive Stage
  | unlockedLookup
  | lock
  | secondLookup
  | mint
  | cache (pseudonym : Str)
  /-- leave the `with` block, with a value to return unless minting raised -/
  | unlock (result : Option Str)

structure PseudonymizeCall where
  tenantId : Str
  subject : Str
  stage : Stage

/-- The map in memory, and the thread that holds the lock. -/
structure TenantPseudonymizer where
  forward : Dict Str
  lock : Option ℕ

/-- A value that `pseudonymize` has returned. -/
structure Returned where
  tenantId : Str
  subject : Str
  pseudonym : Str

/-- The store on disk, the pseudonymizers of the tenants and the calls of the threads in memory,
and what has been returned so far. -/
structure Agent (τ : Type) where
  store : IdentityStore τ
  pseudonymizers : Str → Option TenantPseudonymizer
  calls : ℕ → Option PseudonymizeCall
  returned : List Returned

/-- What can happen next. A step that mints draws a uuid, the cipher's bytes and the time. -/
inductive AgentStep
  | start (tenantId : Str)
  | call (thread : ℕ) (tenantId subject : Str)
  | advance (thread : ℕ) (uuid : Str) (nonce : ℕ) (now : Datetime)
  | crash

/-- `load_forward_map_internal` -/
def loadForwardMapInternal (fernet : Fernet τ) (tenantId : Str) (store : IdentityStore τ) :
    Except Exc (Dict Str) := do
  let rows := store.identityMap.rows.filter fun row => row.tenantId = tenantId
  let pairs ← rows.mapM fun row =>
    (IdentityCipher.decrypt fernet row.subjectCiphertext).map fun subject =>
      (subject, row.pseudonym)
  return Dict.ofPairs pairs

namespace Agent

def init : Agent τ := ⟨.empty, fun _ => none, fun _ => none, []⟩

/-- The call of a thread goes on, and the pseudonymizer of its tenant becomes `p`. -/
def proceed (thread : ℕ) (call : PseudonymizeCall) (stage : Stage) (p : TenantPseudonymizer)
    (s : Agent τ) : Agent τ :=
  { s with
    pseudonymizers := Function.update s.pseudonymizers call.tenantId (some p)
    calls := Function.update s.calls thread (some { call with stage }) }

/-- The call of a thread returns a value, or raises. -/
def finish (thread : ℕ) (call : PseudonymizeCall) (result : Option Str) (p : TenantPseudonymizer)
    (s : Agent τ) : Agent τ :=
  { s with
    pseudonymizers := Function.update s.pseudonymizers call.tenantId (some p)
    calls := Function.update s.calls thread none
    returned := s.returned ++ (result.map fun pseudonym =>
      (⟨call.tenantId, call.subject, pseudonym⟩ : Returned)).toList }

/-- The next step of `pseudonymize`. A thread that finds the lock taken waits. -/
def advance (fernet : Fernet τ) (uuid : Str) (nonce : ℕ) (now : Datetime) (thread : ℕ)
    (call : PseudonymizeCall) (p : TenantPseudonymizer) (s : Agent τ) : Agent τ :=
  match call.stage with
  | .unlockedLookup =>
    match p.forward.get? call.subject with
    | some pseudonym => s.finish thread call (some pseudonym) p
    | none => s.proceed thread call .lock p
  | .lock =>
    match p.lock with
    | some _ => s
    | none => s.proceed thread call .secondLookup { p with lock := some thread }
  | .secondLookup =>
    match p.forward.get? call.subject with
    | some pseudonym => s.proceed thread call (.unlock (some pseudonym)) p
    | none => s.proceed thread call .mint p
  | .mint =>
    match s.store.mintPseudonym fernet call.tenantId call.subject uuid nonce now with
    | (.ok pseudonym, store) => { s with store }.proceed thread call (.cache pseudonym) p
    | (.error _, store) => { s with store }.proceed thread call (.unlock none) p
  | .cache pseudonym =>
    s.proceed thread call (.unlock (some pseudonym))
      { p with forward := p.forward.set call.subject pseudonym }
  | .unlock result => s.finish thread call result { p with lock := none }

def step (fernet : Fernet τ) (next : AgentStep) (s : Agent τ) : Agent τ :=
  match next with
  | .start tenantId =>
    if tenantId = [] then s
    else
      match s.pseudonymizers tenantId with
      | some _ => s
      | none =>
        match loadForwardMapInternal fernet tenantId s.store with
        | .error _ => s
        | .ok forward =>
          { s with
            pseudonymizers := Function.update s.pseudonymizers tenantId (some ⟨forward, none⟩) }
  | .call thread tenantId subject =>
    if subject = [] ∨ (s.calls thread).isSome ∨ (s.pseudonymizers tenantId).isNone then s
    else
      { s with
        calls := Function.update s.calls thread (some ⟨tenantId, subject, .unlockedLookup⟩) }
  | .advance thread uuid nonce now =>
    match s.calls thread with
    | none => s
    | some call =>
      match s.pseudonymizers call.tenantId with
      | none => s
      | some p => s.advance fernet uuid nonce now thread call p
  | .crash => { s with pseudonymizers := fun _ => none, calls := fun _ => none }

end Agent

/-- The store has the pseudonym for a subject of a tenant. -/
def Named (fernet : Fernet τ) (store : IdentityStore τ) (tenantId subject pseudonym : Str) : Prop :=
  ∃ row ∈ store.identityMap.rows, row.tenantId = tenantId ∧
    IdentityCipher.decrypt fernet row.subjectCiphertext = .ok subject ∧ row.pseudonym = pseudonym

def SamePair (fernet : Fernet τ) (row row' : IdentityRow τ) : Prop :=
  row.tenantId = row'.tenantId ∧ IdentityCipher.decrypt fernet row.subjectCiphertext =
    IdentityCipher.decrypt fernet row'.subjectCiphertext

instance (fernet : Fernet τ) : Std.Symm fun row row' => ¬SamePair fernet row row' :=
  ⟨fun _ _ h hsame => h ⟨hsame.1.symm, hsame.2.symm⟩⟩

/-- No two rows of the store are for one tenant and subject, and every row can be decrypted. -/
structure IdentityStore.Consistent (fernet : Fernet τ) (store : IdentityStore τ) : Prop where
  decrypts : ∀ row ∈ store.identityMap.rows, ∃ subject,
    IdentityCipher.decrypt fernet row.subjectCiphertext = .ok subject
  one_row : store.identityMap.rows.Pairwise fun row row' => ¬SamePair fernet row row'

/-- What a thread inside a call can rely on. -/
def PseudonymizeCall.Justified (fernet : Fernet τ) (call : PseudonymizeCall) (thread : ℕ)
    (p : TenantPseudonymizer) (store : IdentityStore τ) : Prop :=
  match call.stage with
  | .unlockedLookup | .lock => True
  | .secondLookup => p.lock = some thread
  | .mint => p.lock = some thread ∧ p.forward.get? call.subject = none
  | .cache pseudonym =>
    p.lock = some thread ∧ Named fernet store call.tenantId call.subject pseudonym
  | .unlock result => p.lock = some thread ∧
      ∀ pseudonym ∈ result, Named fernet store call.tenantId call.subject pseudonym

/-- The maps in memory agree with the store, except for a row that the holder of the lock has
inserted and not yet cached. -/
structure Agent.Coherent (fernet : Fernet τ) (s : Agent τ) : Prop where
  store : s.store.Consistent fernet
  sound : ∀ tenantId p, s.pseudonymizers tenantId = some p → ∀ subject pseudonym,
    p.forward.get? subject = some pseudonym → Named fernet s.store tenantId subject pseudonym
  complete : ∀ tenantId p, s.pseudonymizers tenantId = some p → ∀ subject pseudonym,
    Named fernet s.store tenantId subject pseudonym →
      p.forward.get? subject = some pseudonym ∨
        ∃ thread, p.lock = some thread ∧
          s.calls thread = some ⟨tenantId, subject, .cache pseudonym⟩
  calls : ∀ thread call, s.calls thread = some call →
    ∃ p, s.pseudonymizers call.tenantId = some p ∧ call.Justified fernet thread p s.store
  returned : ∀ r ∈ s.returned, Named fernet s.store r.tenantId r.subject r.pseudonym

section

variable {fernet : Fernet τ}

theorem Named.unique {store : IdentityStore τ} (hstore : store.Consistent fernet)
    {tenantId subject pseudonym pseudonym' : Str} (h : Named fernet store tenantId subject pseudonym)
    (h' : Named fernet store tenantId subject pseudonym') : pseudonym = pseudonym' := by
  obtain ⟨row, hrow, htenant, hdecrypt, rfl⟩ := h
  obtain ⟨row', hrow', htenant', hdecrypt', rfl⟩ := h'
  by_contra hne
  have hrows : row ≠ row' := by
    rintro rfl
    exact hne rfl
  apply hstore.one_row.forall hrow hrow' hrows
  exact ⟨htenant.trans htenant'.symm, hdecrypt.trans hdecrypt'.symm⟩

/-- A pseudonym stands for one tenant and subject. -/
theorem Named.injective {store : IdentityStore τ} {tenantId subject tenantId' subject' pseudonym : Str}
    (h : Named fernet store tenantId subject pseudonym)
    (h' : Named fernet store tenantId' subject' pseudonym) :
    tenantId = tenantId' ∧ subject = subject' := by
  obtain ⟨row, hrow, htenant, hdecrypt, hname⟩ := h
  obtain ⟨row', hrow', htenant', hdecrypt', hname'⟩ := h'
  have hrows : row = row' :=
    List.inj_on_of_nodup_map store.identityMap.distinct hrow hrow' (hname.trans hname'.symm)
  subst hrows
  rw [hdecrypt] at hdecrypt'
  exact ⟨htenant.symm.trans htenant', Except.ok.inj hdecrypt'⟩

theorem mintPseudonym_ok (hfernet : fernet.Inverts) {tenantId subject uuid pseudonym : Str}
    {nonce : ℕ} {now : Datetime} {store store' : IdentityStore τ}
    (h : store.mintPseudonym fernet tenantId subject uuid nonce now = (.ok pseudonym, store')) :
    ∃ row : IdentityRow τ, store'.identityMap.rows = store.identityMap.rows ++ [row] ∧
      row.tenantId = tenantId ∧ row.pseudonym = pseudonym ∧
      IdentityCipher.decrypt fernet row.subjectCiphertext = .ok subject := by
  unfold IdentityStore.mintPseudonym at h
  split_ifs at h with hempty
  · cases h
  · dsimp only at h
    split at h
    · cases h
    · rename_i token htoken
      split_ifs at h with hencode
      · cases h
      · split at h
        · cases h
        · rename_i identityMap hinsert
          cases h
          refine ⟨_, Sql.Table.rows_insert hinsert, rfl, rfl, ?_⟩
          exact IdentityCipher.decrypt_of_encrypt hfernet htoken

theorem mintPseudonym_error {tenantId subject uuid : Str} {nonce : ℕ} {now : Datetime} {e : Exc}
    {store store' : IdentityStore τ}
    (h : store.mintPseudonym fernet tenantId subject uuid nonce now = (.error e, store')) :
    store' = store := by
  unfold IdentityStore.mintPseudonym at h
  split_ifs at h with hempty
  · cases h
    rfl
  · dsimp only at h
    split at h
    · cases h
      rfl
    · split_ifs at h with hencode
      · cases h
        rfl
      · split at h
        · cases h
          rfl
        · cases h

theorem named_append {store store' : IdentityStore τ} {row : IdentityRow τ} {subject : Str}
    (hrows : store'.identityMap.rows = store.identityMap.rows ++ [row])
    (hdecrypt : IdentityCipher.decrypt fernet row.subjectCiphertext = .ok subject)
    {tenantId other pseudonym : Str} : Named fernet store' tenantId other pseudonym ↔
      Named fernet store tenantId other pseudonym ∨
        tenantId = row.tenantId ∧ other = subject ∧ pseudonym = row.pseudonym := by
  unfold Named
  rw [hrows]
  constructor
  · rintro ⟨row', hrow', htenant, hdecrypt', hname⟩
    rcases List.mem_append.mp hrow' with hold | hnew
    · exact .inl ⟨row', hold, htenant, hdecrypt', hname⟩
    · rw [List.mem_singleton.mp hnew] at htenant hdecrypt' hname
      rw [hdecrypt] at hdecrypt'
      exact .inr ⟨htenant.symm, (Except.ok.inj hdecrypt').symm, hname.symm⟩
  · rintro (⟨row', hrow', hrest⟩ | ⟨rfl, rfl, rfl⟩)
    · exact ⟨row', List.mem_append_left _ hrow', hrest⟩
    · exact ⟨row, List.mem_append_right _ (List.mem_singleton_self row), rfl, hdecrypt, rfl⟩

theorem consistent_append {store store' : IdentityStore τ} {row : IdentityRow τ} {subject : Str}
    (h : store.Consistent fernet)
    (hrows : store'.identityMap.rows = store.identityMap.rows ++ [row])
    (hdecrypt : IdentityCipher.decrypt fernet row.subjectCiphertext = .ok subject)
    (hnew : ∀ pseudonym, ¬Named fernet store row.tenantId subject pseudonym) :
    store'.Consistent fernet := by
  constructor
  · rw [hrows]
    intro row' hrow'
    rcases List.mem_append.mp hrow' with hold | hlast
    · exact h.decrypts row' hold
    · rw [List.mem_singleton.mp hlast]
      exact ⟨subject, hdecrypt⟩
  · rw [hrows, List.pairwise_append]
    refine ⟨h.one_row, List.pairwise_singleton _ _, ?_⟩
    intro row' hrow' last hlast hsame
    rw [List.mem_singleton.mp hlast] at hsame
    exact hnew row'.pseudonym ⟨row', hrow', hsame.1, hsame.2.trans hdecrypt, rfl⟩

theorem mapM_of_forall_ok {α β : Type} {f : α → Except Exc β} {g : α → β} {xs : List α}
    (h : ∀ x ∈ xs, f x = .ok (g x)) : xs.mapM f = .ok (xs.map g) := by
  induction xs with
  | nil => rfl
  | cons x xs ih =>
    obtain ⟨hx, hxs⟩ := List.forall_mem_cons.mp h
    rw [List.mapM_cons, hx, ih hxs]
    rfl

theorem get?_loadForwardMapInternal {store : IdentityStore τ} (hstore : store.Consistent fernet)
    {tenantId : Str} {forward : Dict Str}
    (h : loadForwardMapInternal fernet tenantId store = .ok forward) (subject pseudonym : Str) :
    forward.get? subject = some pseudonym ↔ Named fernet store tenantId subject pseudonym := by
  let rows := store.identityMap.rows.filter fun row => row.tenantId = tenantId
  let subjectOf : IdentityRow τ → Str := fun row =>
    (IdentityCipher.decrypt fernet row.subjectCiphertext).toOption.getD []
  have hmem : ∀ row, row ∈ rows ↔ row ∈ store.identityMap.rows ∧ row.tenantId = tenantId := by
    intro row
    simp [rows]
  have hsubject : ∀ row ∈ rows,
      IdentityCipher.decrypt fernet row.subjectCiphertext = .ok (subjectOf row) := by
    intro row hrow
    obtain ⟨x, hx⟩ := hstore.decrypts row ((hmem row).mp hrow).1
    simp [subjectOf, hx, Except.toOption]
  have hpairs : rows.mapM (fun row =>
      (IdentityCipher.decrypt fernet row.subjectCiphertext).map fun x => (x, row.pseudonym)) =
        .ok (rows.map fun row => (subjectOf row, row.pseudonym)) := by
    apply mapM_of_forall_ok
    intro row hrow
    rw [hsubject row hrow]
    rfl
  have hnodup : ((rows.map fun row => (subjectOf row, row.pseudonym)).map Prod.fst).Nodup := by
    have hrows : rows.Nodup := (store.identityMap.distinct.of_map).filter _
    rw [List.map_map]
    refine hrows.map_on fun row hrow row' hrow' heq => ?_
    by_contra hne
    apply hstore.one_row.forall ((hmem row).mp hrow).1 ((hmem row').mp hrow').1 hne
    refine ⟨((hmem row).mp hrow).2.trans ((hmem row').mp hrow').2.symm, ?_⟩
    rw [hsubject row hrow, hsubject row' hrow']
    exact congrArg Except.ok heq
  have hforward : forward = Dict.ofPairs (rows.map fun row => (subjectOf row, row.pseudonym)) := by
    have hload : loadForwardMapInternal fernet tenantId store =
        (rows.mapM fun row => (IdentityCipher.decrypt fernet row.subjectCiphertext).map fun x =>
          (x, row.pseudonym)).bind fun pairs => .ok (Dict.ofPairs pairs) := rfl
    rw [hload, hpairs] at h
    exact (Except.ok.inj h).symm
  rw [hforward, Dict.get?_eq_some, Dict.entries_ofPairs, Py.dictOf_of_nodup hnodup, List.mem_map]
  constructor
  · rintro ⟨row, hrow, heq⟩
    obtain ⟨rfl, rfl⟩ := Prod.mk.inj heq
    exact ⟨row, ((hmem row).mp hrow).1, ((hmem row).mp hrow).2, hsubject row hrow, rfl⟩
  · rintro ⟨row, hrow, htenant, hdecrypt, rfl⟩
    have hrow' := (hmem row).mpr ⟨hrow, htenant⟩
    refine ⟨row, hrow', Prod.ext ?_ rfl⟩
    exact Except.ok.inj ((hsubject row hrow').symm.trans hdecrypt)

theorem PseudonymizeCall.Justified.mono {call : PseudonymizeCall} {thread : ℕ}
    {p p' : TenantPseudonymizer} {store store' : IdentityStore τ}
    (h : call.Justified fernet thread p store)
    (hkeep : p.lock = some thread → p'.lock = some thread ∧ p'.forward = p.forward)
    (hgrow : ∀ tenantId subject pseudonym, Named fernet store tenantId subject pseudonym →
      Named fernet store' tenantId subject pseudonym) :
    call.Justified fernet thread p' store' := by
  unfold PseudonymizeCall.Justified at h ⊢
  cases hstage : call.stage with
  | unlockedLookup => trivial
  | lock => trivial
  | secondLookup =>
    rw [hstage] at h
    exact (hkeep h).1
  | mint =>
    rw [hstage] at h
    exact ⟨(hkeep h.1).1, (hkeep h.1).2 ▸ h.2⟩
  | cache pseudonym =>
    rw [hstage] at h
    exact ⟨(hkeep h.1).1, hgrow _ _ _ h.2⟩
  | unlock result =>
    rw [hstage] at h
    exact ⟨(hkeep h.1).1, fun pseudonym hp => hgrow _ _ _ (h.2 pseudonym hp)⟩

namespace Agent

/-- A step of one call. Whatever it does to its own tenant's map and to the store, the calls of
other threads and the maps of other tenants stay right, if it leaves the map and the lock alone
while another thread holds it. -/
theorem Coherent.of_call {s : Agent τ} (h : s.Coherent fernet) {thread : ℕ}
    {call : PseudonymizeCall} {p p' : TenantPseudonymizer} {store' : IdentityStore τ}
    {next : Option PseudonymizeCall} {returned' : List Returned}
    (hcall : s.calls thread = some call) (hp : s.pseudonymizers call.tenantId = some p)
    (hstore : store'.Consistent fernet)
    (hgrow : ∀ tenantId subject pseudonym, Named fernet s.store tenantId subject pseudonym →
      Named fernet store' tenantId subject pseudonym)
    (hothers : ∀ tenantId subject pseudonym, tenantId ≠ call.tenantId →
      Named fernet store' tenantId subject pseudonym →
        Named fernet s.store tenantId subject pseudonym)
    (hkeep : ∀ other, other ≠ thread → p.lock = some other →
      p'.lock = some other ∧ p'.forward = p.forward)
    (hsound : ∀ subject pseudonym, p'.forward.get? subject = some pseudonym →
      Named fernet store' call.tenantId subject pseudonym)
    (hcomplete : ∀ subject pseudonym, Named fernet store' call.tenantId subject pseudonym →
      p'.forward.get? subject = some pseudonym ∨ ∃ other, p'.lock = some other ∧
        Function.update s.calls thread next other =
          some ⟨call.tenantId, subject, .cache pseudonym⟩)
    (hnext : ∀ call' ∈ next, call'.tenantId = call.tenantId ∧
      call'.Justified fernet thread p' store')
    (hreturned : ∀ r ∈ returned', Named fernet store' r.tenantId r.subject r.pseudonym) :
    Coherent fernet
      { store := store'
        pseudonymizers := Function.update s.pseudonymizers call.tenantId (some p')
        calls := Function.update s.calls thread next
        returned := returned' } := by
  constructor
  · exact hstore
  · intro tenantId q hq subject pseudonym hget
    dsimp only at hq ⊢
    by_cases htenant : tenantId = call.tenantId
    · subst htenant
      rw [Function.update_self] at hq
      cases hq
      exact hsound subject pseudonym hget
    · rw [Function.update_of_ne htenant] at hq
      exact hgrow _ _ _ (h.sound tenantId q hq subject pseudonym hget)
  · intro tenantId q hq subject pseudonym hnamed
    dsimp only at hq ⊢
    by_cases htenant : tenantId = call.tenantId
    · subst htenant
      rw [Function.update_self] at hq
      cases hq
      exact hcomplete subject pseudonym hnamed
    · rw [Function.update_of_ne htenant] at hq
      rcases h.complete tenantId q hq subject pseudonym (hothers _ _ _ htenant hnamed) with
        hget | ⟨other, hlock, hother⟩
      · exact .inl hget
      · have hne : other ≠ thread := by
          rintro rfl
          rw [hcall] at hother
          cases hother
          exact htenant rfl
        exact .inr ⟨other, hlock, by rw [Function.update_of_ne hne, hother]⟩
  · intro other call' hcall'
    dsimp only at hcall' ⊢
    by_cases hother : other = thread
    · subst hother
      rw [Function.update_self] at hcall'
      obtain ⟨htenant, hjustified⟩ := hnext call' hcall'
      exact ⟨p', by rw [htenant, Function.update_self], hjustified⟩
    · rw [Function.update_of_ne hother] at hcall'
      obtain ⟨q, hq, hjustified⟩ := h.calls other call' hcall'
      by_cases htenant : call'.tenantId = call.tenantId
      · rw [htenant, hp] at hq
        cases hq
        refine ⟨p', by rw [htenant, Function.update_self], ?_⟩
        exact hjustified.mono (hkeep other hother) hgrow
      · refine ⟨q, by rw [Function.update_of_ne htenant, hq], ?_⟩
        exact hjustified.mono (fun hlock => ⟨hlock, rfl⟩) hgrow
  · exact hreturned

theorem Coherent.complete_of_stage {s : Agent τ} (h : s.Coherent fernet) {thread : ℕ}
    {call : PseudonymizeCall} {p p' : TenantPseudonymizer} {next : Option PseudonymizeCall}
    (hcall : s.calls thread = some call) (hp : s.pseudonymizers call.tenantId = some p)
    (hstage : ∀ pseudonym, call.stage ≠ .cache pseudonym) (hforward : p'.forward = p.forward)
    (hlock : ∀ other, other ≠ thread → p.lock = some other → p'.lock = some other)
    {subject pseudonym : Str} (hnamed : Named fernet s.store call.tenantId subject pseudonym) :
    p'.forward.get? subject = some pseudonym ∨ ∃ other, p'.lock = some other ∧
      Function.update s.calls thread next other =
        some ⟨call.tenantId, subject, .cache pseudonym⟩ := by
  rcases h.complete _ p hp subject pseudonym hnamed with hget | ⟨other, hother, hcached⟩
  · exact .inl (hforward ▸ hget)
  · have hne : other ≠ thread := by
      rintro rfl
      rw [hcall] at hcached
      exact hstage pseudonym (congrArg PseudonymizeCall.stage (Option.some.inj hcached))
    exact .inr ⟨other, hlock other hne hother, by rw [Function.update_of_ne hne, hcached]⟩

theorem Coherent.justified {s : Agent τ} (h : s.Coherent fernet) {thread : ℕ}
    {call : PseudonymizeCall} {p : TenantPseudonymizer} (hcall : s.calls thread = some call)
    (hp : s.pseudonymizers call.tenantId = some p) : call.Justified fernet thread p s.store := by
  obtain ⟨q, hq, hjustified⟩ := h.calls thread call hcall
  rw [hp] at hq
  cases hq
  exact hjustified

theorem Coherent.returned_append {s : Agent τ} (h : s.Coherent fernet) {call : PseudonymizeCall}
    {result : Option Str}
    (hresult : ∀ pseudonym ∈ result, Named fernet s.store call.tenantId call.subject pseudonym) :
    ∀ r ∈ s.returned ++ (result.map fun pseudonym =>
      (⟨call.tenantId, call.subject, pseudonym⟩ : Returned)).toList,
      Named fernet s.store r.tenantId r.subject r.pseudonym := by
  intro r hr
  rcases List.mem_append.mp hr with hold | hnew
  · exact h.returned r hold
  · cases result with
    | none => cases hnew
    | some pseudonym =>
      rw [Option.map_some, Option.toList_some, List.mem_singleton] at hnew
      rw [hnew]
      exact hresult pseudonym rfl

theorem Coherent.of_kept {s : Agent τ} (h : s.Coherent fernet) {thread : ℕ}
    {call : PseudonymizeCall} {p p' : TenantPseudonymizer} {next : Option PseudonymizeCall}
    {returned' : List Returned}
    (hcall : s.calls thread = some call) (hp : s.pseudonymizers call.tenantId = some p)
    (hstage : ∀ pseudonym, call.stage ≠ .cache pseudonym) (hforward : p'.forward = p.forward)
    (hlock : ∀ other, other ≠ thread → p.lock = some other → p'.lock = some other)
    (hnext : ∀ call' ∈ next, call'.tenantId = call.tenantId ∧
      call'.Justified fernet thread p' s.store)
    (hreturned : ∀ r ∈ returned', Named fernet s.store r.tenantId r.subject r.pseudonym) :
    Coherent fernet
      { s with
        pseudonymizers := Function.update s.pseudonymizers call.tenantId (some p')
        calls := Function.update s.calls thread next
        returned := returned' } := by
  refine h.of_call hcall hp h.store (fun _ _ _ hnamed => hnamed) (fun _ _ _ _ hnamed => hnamed)
    ?_ ?_ ?_ hnext hreturned
  · intro other hne hother
    exact ⟨hlock other hne hother, hforward⟩
  · intro subject pseudonym hget
    rw [hforward] at hget
    exact h.sound _ p hp subject pseudonym hget
  · intro subject pseudonym hnamed
    exact h.complete_of_stage hcall hp hstage hforward hlock hnamed

theorem Coherent.proceed {s : Agent τ} (h : s.Coherent fernet) {thread : ℕ}
    {call : PseudonymizeCall} {p p' : TenantPseudonymizer} {stage : Stage}
    (hcall : s.calls thread = some call) (hp : s.pseudonymizers call.tenantId = some p)
    (hstage : ∀ pseudonym, call.stage ≠ .cache pseudonym) (hforward : p'.forward = p.forward)
    (hlock : ∀ other, other ≠ thread → p.lock = some other → p'.lock = some other)
    (hnext : PseudonymizeCall.Justified fernet { call with stage } thread p' s.store) :
    (s.proceed thread call stage p').Coherent fernet := by
  refine h.of_kept hcall hp hstage hforward hlock ?_ h.returned
  intro call' hcall'
  cases hcall'
  exact ⟨rfl, hnext⟩

theorem Coherent.finish {s : Agent τ} (h : s.Coherent fernet) {thread : ℕ}
    {call : PseudonymizeCall} {p p' : TenantPseudonymizer} {result : Option Str}
    (hcall : s.calls thread = some call) (hp : s.pseudonymizers call.tenantId = some p)
    (hstage : ∀ pseudonym, call.stage ≠ .cache pseudonym) (hforward : p'.forward = p.forward)
    (hlock : ∀ other, other ≠ thread → p.lock = some other → p'.lock = some other)
    (hresult : ∀ pseudonym ∈ result, Named fernet s.store call.tenantId call.subject pseudonym) :
    (s.finish thread call result p').Coherent fernet := by
  refine h.of_kept hcall hp hstage hforward hlock ?_ (h.returned_append hresult)
  intro call' hcall'
  cases hcall'

theorem Coherent.mint (hfernet : fernet.Inverts) {s : Agent τ} (h : s.Coherent fernet)
    {thread : ℕ} {call : PseudonymizeCall} {p : TenantPseudonymizer} {uuid pseudonym : Str}
    {nonce : ℕ} {now : Datetime} {store' : IdentityStore τ}
    (hcall : s.calls thread = some call) (hp : s.pseudonymizers call.tenantId = some p)
    (hstage : call.stage = .mint)
    (hmint : s.store.mintPseudonym fernet call.tenantId call.subject uuid nonce now =
      (.ok pseudonym, store')) :
    (Agent.proceed thread call (.cache pseudonym) p { s with store := store' }).Coherent fernet := by
  obtain ⟨hlock, hmissing⟩ : p.lock = some thread ∧ p.forward.get? call.subject = none := by
    have hjustified := h.justified hcall hp
    unfold PseudonymizeCall.Justified at hjustified
    rwa [hstage] at hjustified
  obtain ⟨row, hrows, htenant, hname, hdecrypt⟩ := mintPseudonym_ok hfernet hmint
  have hnotCache : ∀ name, call.stage ≠ .cache name := by
    intro name hcache
    rw [hstage] at hcache
    cases hcache
  have hnew : ∀ name, ¬Named fernet s.store row.tenantId call.subject name := by
    intro name hnamed
    rw [htenant] at hnamed
    rcases h.complete _ p hp _ name hnamed with hget | ⟨other, hother, hcached⟩
    · rw [hmissing] at hget
      cases hget
    · rw [hlock] at hother
      cases hother
      rw [hcall] at hcached
      exact hnotCache name (congrArg PseudonymizeCall.stage (Option.some.inj hcached))
  have hnamed : Named fernet store' call.tenantId call.subject pseudonym :=
    (named_append hrows hdecrypt).mpr (.inr ⟨htenant.symm, rfl, hname.symm⟩)
  have hgrow : ∀ tenantId subject name, Named fernet s.store tenantId subject name →
      Named fernet store' tenantId subject name :=
    fun _ _ _ hold => (named_append hrows hdecrypt).mpr (.inl hold)
  refine h.of_call hcall hp (consistent_append h.store hrows hdecrypt hnew) hgrow ?_ ?_ ?_ ?_ ?_ ?_
  · intro tenantId subject name hne hnamed'
    rcases (named_append hrows hdecrypt).mp hnamed' with hold | ⟨heq, -⟩
    · exact hold
    · exact absurd (heq.trans htenant) hne
  · intro other _ hother
    exact ⟨hother, rfl⟩
  · intro subject name hget
    exact hgrow _ _ _ (h.sound _ p hp subject name hget)
  · intro subject name hnamed'
    rcases (named_append hrows hdecrypt).mp hnamed' with hold | ⟨-, rfl, rfl⟩
    · exact h.complete_of_stage hcall hp hnotCache rfl (fun _ _ hother => hother) hold
    · refine .inr ⟨thread, hlock, ?_⟩
      rw [Function.update_self, hname]
  · intro call' hcall'
    cases hcall'
    exact ⟨rfl, hlock, hnamed⟩
  · intro r hr
    exact hgrow _ _ _ (h.returned r hr)

theorem Coherent.cache {s : Agent τ} (h : s.Coherent fernet) {thread : ℕ}
    {call : PseudonymizeCall} {p : TenantPseudonymizer} {pseudonym : Str}
    (hcall : s.calls thread = some call) (hp : s.pseudonymizers call.tenantId = some p)
    (hstage : call.stage = .cache pseudonym) :
    (s.proceed thread call (.unlock (some pseudonym))
      { p with forward := p.forward.set call.subject pseudonym }).Coherent fernet := by
  obtain ⟨hlock, hnamed⟩ : p.lock = some thread ∧
      Named fernet s.store call.tenantId call.subject pseudonym := by
    have hjustified := h.justified hcall hp
    unfold PseudonymizeCall.Justified at hjustified
    rwa [hstage] at hjustified
  refine h.of_call hcall hp h.store (fun _ _ _ hold => hold) (fun _ _ _ _ hold => hold)
    ?_ ?_ ?_ ?_ h.returned
  · intro other hne hother
    rw [hlock] at hother
    cases hother
    exact absurd rfl hne
  · intro subject name hget
    rw [Dict.get?_set] at hget
    split_ifs at hget with hsubject
    · cases hget
      rw [hsubject]
      exact hnamed
    · exact h.sound _ p hp subject name hget
  · intro subject name hnamed'
    left
    rw [Dict.get?_set]
    split_ifs with hsubject
    · rw [hsubject] at hnamed'
      rw [hnamed.unique h.store hnamed']
    · rcases h.complete _ p hp subject name hnamed' with hget | ⟨other, hother, hcached⟩
      · exact hget
      · rw [hlock] at hother
        cases hother
        rw [hcall] at hcached
        exact absurd (congrArg PseudonymizeCall.subject (Option.some.inj hcached)).symm hsubject
  · intro call' hcall'
    cases hcall'
    refine ⟨rfl, hlock, ?_⟩
    intro name hname
    cases hname
    exact hnamed

/-- Every step of every call keeps the maps coherent with the store. -/
theorem Coherent.advance (hfernet : fernet.Inverts) {s : Agent τ} (h : s.Coherent fernet)
    {thread : ℕ} {call : PseudonymizeCall} {p : TenantPseudonymizer}
    (hcall : s.calls thread = some call) (hp : s.pseudonymizers call.tenantId = some p)
    (uuid : Str) (nonce : ℕ) (now : Datetime) :
    (s.advance fernet uuid nonce now thread call p).Coherent fernet := by
  have hjustified := h.justified hcall hp
  unfold PseudonymizeCall.Justified at hjustified
  have hsame : ∀ other, other ≠ thread → p.lock = some other → p.lock = some other :=
    fun _ _ hother => hother
  unfold Agent.advance
  cases hstage : call.stage with
  | unlockedLookup =>
    have hnotCache : ∀ name, call.stage ≠ .cache name := by simp [hstage]
    cases hget : p.forward.get? call.subject with
    | none => exact h.proceed hcall hp hnotCache rfl hsame trivial
    | some pseudonym =>
      refine h.finish hcall hp hnotCache rfl hsame ?_
      intro name hname
      cases hname
      exact h.sound _ p hp _ _ hget
  | lock =>
    have hnotCache : ∀ name, call.stage ≠ .cache name := by simp [hstage]
    cases hlock : p.lock with
    | some other => exact h
    | none =>
      refine h.proceed hcall hp hnotCache rfl ?_ rfl
      intro other _ hother
      rw [hlock] at hother
      cases hother
  | secondLookup =>
    have hnotCache : ∀ name, call.stage ≠ .cache name := by simp [hstage]
    rw [hstage] at hjustified
    cases hget : p.forward.get? call.subject with
    | none => exact h.proceed hcall hp hnotCache rfl hsame ⟨hjustified, hget⟩
    | some pseudonym =>
      refine h.proceed hcall hp hnotCache rfl hsame ⟨hjustified, ?_⟩
      intro name hname
      cases hname
      exact h.sound _ p hp _ _ hget
  | mint =>
    have hnotCache : ∀ name, call.stage ≠ .cache name := by simp [hstage]
    rw [hstage] at hjustified
    dsimp only
    split
    · rename_i pseudonym store' hmint
      exact h.mint hfernet hcall hp hstage hmint
    · rename_i e store' hmint
      cases mintPseudonym_error hmint
      refine h.proceed hcall hp hnotCache rfl hsame ⟨hjustified.1, ?_⟩
      intro name hname
      cases hname
  | cache pseudonym => exact h.cache hcall hp hstage
  | unlock result =>
    have hnotCache : ∀ name, call.stage ≠ .cache name := by simp [hstage]
    rw [hstage] at hjustified
    refine h.finish hcall hp hnotCache rfl ?_ hjustified.2
    intro other hne hother
    rw [hjustified.1] at hother
    cases hother
    exact absurd rfl hne

theorem Coherent.start {s : Agent τ} (h : s.Coherent fernet) {tenantId : Str} {forward : Dict Str}
    (hnone : s.pseudonymizers tenantId = none)
    (hload : loadForwardMapInternal fernet tenantId s.store = .ok forward) :
    Coherent fernet
      { s with pseudonymizers := Function.update s.pseudonymizers tenantId (some ⟨forward, none⟩) } := by
  constructor
  · exact h.store
  · intro tenantId' q hq subject pseudonym hget
    dsimp only at hq ⊢
    by_cases htenant : tenantId' = tenantId
    · subst htenant
      rw [Function.update_self] at hq
      cases hq
      exact (get?_loadForwardMapInternal h.store hload subject pseudonym).mp hget
    · rw [Function.update_of_ne htenant] at hq
      exact h.sound tenantId' q hq subject pseudonym hget
  · intro tenantId' q hq subject pseudonym hnamed
    dsimp only at hq ⊢
    by_cases htenant : tenantId' = tenantId
    · subst htenant
      rw [Function.update_self] at hq
      cases hq
      exact .inl ((get?_loadForwardMapInternal h.store hload subject pseudonym).mpr hnamed)
    · rw [Function.update_of_ne htenant] at hq
      exact h.complete tenantId' q hq subject pseudonym hnamed
  · intro thread call hcall
    obtain ⟨q, hq, hjustified⟩ := h.calls thread call hcall
    have htenant : call.tenantId ≠ tenantId := by
      intro heq
      rw [heq, hnone] at hq
      cases hq
    exact ⟨q, (Function.update_of_ne htenant _ _).trans hq, hjustified⟩
  · exact h.returned

theorem Coherent.call {s : Agent τ} (h : s.Coherent fernet) {thread : ℕ} {tenantId subject : Str}
    {p : TenantPseudonymizer} (hfree : s.calls thread = none)
    (hp : s.pseudonymizers tenantId = some p) :
    Coherent fernet
      { s with
        calls := Function.update s.calls thread (some ⟨tenantId, subject, .unlockedLookup⟩) } := by
  constructor
  · exact h.store
  · exact h.sound
  · intro tenantId' q hq subject' pseudonym hnamed
    rcases h.complete tenantId' q hq subject' pseudonym hnamed with hget | ⟨other, hlock, hother⟩
    · exact .inl hget
    · have hne : other ≠ thread := by
        rintro rfl
        rw [hfree] at hother
        cases hother
      exact .inr ⟨other, hlock, (Function.update_of_ne hne _ _).trans hother⟩
  · intro other call hcall
    dsimp only at hcall ⊢
    by_cases hother : other = thread
    · subst hother
      rw [Function.update_self] at hcall
      cases hcall
      exact ⟨p, hp, trivial⟩
    · rw [Function.update_of_ne hother] at hcall
      exact h.calls other call hcall
  · exact h.returned

theorem Coherent.crash {s : Agent τ} (h : s.Coherent fernet) :
    Coherent fernet { s with pseudonymizers := fun _ => none, calls := fun _ => none } := by
  constructor
  · exact h.store
  · intro tenantId p hp
    cases hp
  · intro tenantId p hp
    cases hp
  · intro thread call hcall
    cases hcall
  · exact h.returned

theorem Coherent.step (hfernet : fernet.Inverts) (next : AgentStep) (s : Agent τ)
    (h : s.Coherent fernet) : (s.step fernet next).Coherent fernet := by
  unfold Agent.step
  cases next with
  | start tenantId =>
    dsimp only
    split_ifs
    · exact h
    · split
      · exact h
      · rename_i hnone
        split
        · exact h
        · rename_i forward hload
          exact h.start hnone hload
  | call thread tenantId subject =>
    dsimp only
    split_ifs with hblocked
    · exact h
    · rw [not_or, not_or, Option.not_isSome_iff_eq_none, Option.isNone_iff_eq_none] at hblocked
      obtain ⟨p, hp⟩ := Option.ne_none_iff_exists'.mp hblocked.2.2
      exact h.call hblocked.2.1 hp
  | advance thread uuid nonce now =>
    dsimp only
    split
    · exact h
    · rename_i call hcall
      split
      · exact h
      · rename_i p hp
        exact h.advance hfernet hcall hp uuid nonce now
  | crash => exact h.crash

theorem coherent_init : (Agent.init : Agent τ).Coherent fernet := by
  constructor
  · constructor
    · intro row hrow
      cases hrow
    · exact List.Pairwise.nil
  · intro tenantId p hp
    cases hp
  · intro tenantId p hp
    cases hp
  · intro thread call hcall
    cases hcall
  · intro r hr
    cases hr

/-- Whatever the threads do in whatever order, and whenever the process crashes and starts again:
the values returned for one tenant and subject are equal, those for different pairs are different,
and no pair has two rows. -/
theorem pseudonymize_stable (hfernet : fernet.Inverts) (steps : List AgentStep) :
    let s := Transition.run (Agent.step fernet) steps Agent.init
    (∀ r ∈ s.returned, ∀ r' ∈ s.returned,
      (r.tenantId = r'.tenantId ∧ r.subject = r'.subject) ↔ r.pseudonym = r'.pseudonym) ∧
    s.store.identityMap.rows.Pairwise fun row row' => ¬SamePair fernet row row' := by
  intro s
  have h : s.Coherent fernet :=
    Transition.run_invariant (fun next s hs => hs.step hfernet next s) steps coherent_init
  refine ⟨?_, h.store.one_row⟩
  intro r hr r' hr'
  have hnamed := h.returned r hr
  have hnamed' := h.returned r' hr'
  constructor
  · rintro ⟨htenant, hsubject⟩
    rw [htenant, hsubject] at hnamed
    exact hnamed.unique h.store hnamed'
  · intro hpseudonym
    rw [hpseudonym] at hnamed
    exact hnamed.injective hnamed'

/-- Two threads mint for one subject at the same time, before and after a crash. -/
theorem pseudonymize_stable_race :
    let mint : ℕ → List AgentStep := fun thread =>
      List.replicate 6 (.advance thread (str "0") 0 .epoch)
    let s := Transition.run (Agent.step Fernet.transparent)
      ([.start (str "t"), .call 0 (str "t") (str "u"), .call 1 (str "t") (str "u"),
        .advance 1 (str "1") 0 .epoch] ++ mint 0 ++ mint 1 ++
        [.crash, .start (str "t"), .call 0 (str "t") (str "u")] ++ mint 0) Agent.init
    (∀ r ∈ s.returned, ∀ r' ∈ s.returned,
      (r.tenantId = r'.tenantId ∧ r.subject = r'.subject) ↔ r.pseudonym = r'.pseudonym) ∧
    s.store.identityMap.rows.Pairwise fun row row' =>
      ¬SamePair Fernet.transparent row row' :=
  pseudonymize_stable Fernet.inverts_transparent _

end Agent

end

end Ebabf
