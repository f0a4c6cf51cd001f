import Ebabf.Storage.Pseudonymizer
import Ebabf.Storage.Reading

/-!
# The bridge

The single join between the two stores. A disclosure is asked for with a reason and two names,
granted for an event that can be read and is severe enough, and recorded before anything is
decrypted.
-/

namespace Ebabf

open Py (Str str strip Exc ExcType Datetime Proc Encodes)

variable {τ : Type}

/-- Both stores. -/
structure Stores (τ : Type) where
  events : EventStore
  identities : IdentityStore τ

/-- A procedure of the identity store. -/
def Stores.onIdentities {α : Type} (p : Proc IdentityAction (IdentityStore τ) α) :
    Proc IdentityAction (Stores τ) α := fun s =>
  ⟨(p s.identities).outcome, (p s.identities).trace,
    { s with identities := (p s.identities).state }⟩

def breakGlassDenied : ExcType := .other (str "BreakGlassDenied")

/-- The arguments of a request for disclosure. -/
structure DisclosureRequest where
  eventId : Str
  actor : Str
  secondApprover : Str
  reason : Str

namespace DisclosureRequest

/-- The preconditions on the arguments alone. -/
def check (request : DisclosureRequest) : Except Exc Unit :=
  if strip request.reason = [] then
    .error ⟨breakGlassDenied, str "a written reason is required"⟩
  else if strip request.actor = [] then
    .error ⟨breakGlassDenied, str "a named requester is required"⟩
  else if strip request.secondApprover = [] then
    .error ⟨breakGlassDenied, str "a second approver is required"⟩
  else if strip request.actor = strip request.secondApprover then
    .error ⟨breakGlassDenied, str "two-person rule: the approver cannot be the requester"⟩
  else .ok ()

/-- What the identity store is asked for. -/
def accessTo (event : Event) (request : DisclosureRequest) : AccessRequest where
  pseudonym := event.fields.subjectPseudonym
  eventId := some request.eventId
  actor := request.actor
  secondApprover := request.secondApprover
  reason := request.reason

end DisclosureRequest

/-- The severity gate: an event without a level passes. -/
def checkLevel (level : Option RiskLevel) : Except Exc Unit :=
  if level ≠ none ∧ level ≠ some .critical then
    .error ⟨breakGlassDenied, str "level below critical threshold"⟩
  else .ok ()

/-- `resolve_subject_for_event` -/
def resolveSubjectForEvent (fernet : Fernet τ) (limit : ℕ) (request : DisclosureRequest)
    (requestedAt : Datetime) : Proc IdentityAction (Stores τ) Str := do
  Proc.lift request.check
  let stores ← Proc.read
  match ← Proc.lift (stores.events.get limit request.eventId) with
  | none => Proc.lift (.error ⟨breakGlassDenied, str "no such event: " ++ request.eventId⟩)
  | some event =>
    Proc.lift (checkLevel event.fields.level)
    let grant ← Stores.onIdentities
      (IdentityStore.beginBreakGlassAccess (request.accessTo event) requestedAt)
    Stores.onIdentities (IdentityStore.resolveSubjectWithGrant fernet grant)

/-- A request that gets past every precondition, and the event it is for. -/
structure DisclosureRequest.Passes (limit : ℕ) (request : DisclosureRequest) (s : Stores τ)
    (event : Event) : Prop where
  reason : strip request.reason ≠ []
  actor : strip request.actor ≠ []
  second_approver : strip request.secondApprover ≠ []
  two_persons : strip request.actor ≠ strip request.secondApprover
  found : s.events.get limit request.eventId = .ok (some event)
  level : event.fields.level = none ∨ event.fields.level = some .critical

theorem DisclosureRequest.check_ok_iff {request : DisclosureRequest} : request.check = .ok () ↔
    strip request.reason ≠ [] ∧ strip request.actor ≠ [] ∧ strip request.secondApprover ≠ [] ∧
      strip request.actor ≠ strip request.secondApprover := by
  unfold DisclosureRequest.check
  split_ifs <;> simp_all

theorem checkLevel_ok_iff {level : Option RiskLevel} :
    checkLevel level = .ok () ↔ level = none ∨ level = some .critical := by
  unfold checkLevel
  split_ifs with h
  · simp only [false_iff, not_or]
    exact h
  · simp only [true_iff]
    tauto

/-- The two calls on the identity store. -/
def disclose (fernet : Fernet τ) (request : AccessRequest) (requestedAt : Datetime) :
    Proc IdentityAction (Stores τ) Str := do
  let grant ← Stores.onIdentities (IdentityStore.beginBreakGlassAccess request requestedAt)
  Stores.onIdentities (IdentityStore.resolveSubjectWithGrant fernet grant)

/-- A request passes and comes to the two calls on the identity store, or it raises and nothing
happens. -/
theorem resolveSubjectForEvent_cases (fernet : Fernet τ) (limit : ℕ) (request : DisclosureRequest)
    (requestedAt : Datetime) (s : Stores τ) :
    (∃ event, request.Passes limit s event ∧ resolveSubjectForEvent fernet limit request requestedAt s =
      disclose fernet (request.accessTo event) requestedAt s) ∨
    ((∀ event, ¬request.Passes limit s event) ∧
      ∃ e, resolveSubjectForEvent fernet limit request requestedAt s = ⟨.error e, [], s⟩) := by
  unfold resolveSubjectForEvent
  cases hcheck : request.check with
  | error e =>
    refine .inr ⟨?_, e, rfl⟩
    intro event h
    have hok := DisclosureRequest.check_ok_iff.mpr
      ⟨h.reason, h.actor, h.second_approver, h.two_persons⟩
    rw [hcheck] at hok
    cases hok
  | ok u =>
    obtain ⟨hreason, hactor, happrover, hpersons⟩ := DisclosureRequest.check_ok_iff.mp hcheck
    rw [Proc.lift_ok_bind, Proc.read_bind]
    cases hget : s.events.get limit request.eventId with
    | error e =>
      refine .inr ⟨?_, e, rfl⟩
      intro event h
      rw [h.found] at hget
      cases hget
    | ok found =>
      rw [Proc.lift_ok_bind]
      cases found with
      | none =>
        refine .inr ⟨?_, _, rfl⟩
        intro event h
        rw [h.found] at hget
        cases hget
      | some event =>
        dsimp only
        cases hlevel : checkLevel event.fields.level with
        | error e =>
          refine .inr ⟨?_, e, rfl⟩
          intro event' h
          rw [h.found] at hget
          cases hget
          have hok := checkLevel_ok_iff.mpr h.level
          rw [hlevel] at hok
          cases hok
        | ok u =>
          have hpasses := checkLevel_ok_iff.mp hlevel
          exact .inl ⟨event, ⟨hreason, hactor, happrover, hpersons, hget, hpasses⟩, rfl⟩

/-- The audit row of a request made now. -/
def Stores.auditRow (request : AccessRequest) (requestedAt : Datetime) (s : Stores τ) : AccessRow :=
  request.toRow (s.identities.accessLog.sequence + 1) requestedAt

/-- The stores with the audit row of a request. -/
def Stores.recorded (request : AccessRequest) (requestedAt : Datetime) (s : Stores τ) : Stores τ :=
  { s with identities := { s.identities with
    accessLog := s.identities.accessLog.insert request requestedAt } }

/-- Either the audit row is written first and at most one ciphertext is decrypted after it, or the
row cannot be written and nothing happens. -/
theorem disclose_cases (fernet : Fernet τ) (request : AccessRequest) (requestedAt : Datetime)
    (s : Stores τ) :
    (IdentityStore.Recordable request s.identities ∧ ∃ outcome decrypted,
      disclose fernet request requestedAt s =
        ⟨outcome, .audit (s.auditRow request requestedAt) :: decrypted,
          s.recorded request requestedAt⟩ ∧
      (decrypted = [] ∨ decrypted = [.decrypt request.pseudonym]) ∧
      (∀ subject, outcome = .ok subject → ∃ row ∈ s.identities.identityMap.rows,
        row.pseudonym = request.pseudonym ∧
          IdentityCipher.decrypt fernet row.subjectCiphertext = .ok subject) ∧
      ∀ e, outcome = .error e → e.type ≠ breakGlassDenied) ∨
    (¬IdentityStore.Recordable request s.identities ∧
      ∃ e, disclose fernet request requestedAt s = ⟨.error e, [], s⟩ ∧
        e.type ≠ breakGlassDenied) := by
  rcases IdentityStore.beginBreakGlassAccess_cases request requestedAt s.identities with
    ⟨hrecordable, hbegin⟩ | ⟨hrecordable, e, hbegin, htype⟩
  · refine .inl ⟨hrecordable, ?_⟩
    let grant : AccessGrant := ⟨s.identities.accessLog.sequence + 1, request.pseudonym⟩
    let store := (s.recorded request requestedAt).identities
    let ran := IdentityStore.resolveSubjectWithGrant fernet grant store
    obtain ⟨hstate, htrace⟩ := IdentityStore.resolveSubjectWithGrant_frame fernet grant store
    refine ⟨ran.outcome, ran.trace, ?_, htrace, ?_, ?_⟩
    · have hgrant : (Stores.onIdentities (IdentityStore.beginBreakGlassAccess request requestedAt)
          s).outcome = .ok grant := by
        rw [Stores.onIdentities, hbegin]
      unfold disclose
      rw [Proc.bind_of_ok hgrant]
      simp only [Stores.onIdentities, hbegin]
      show Py.Ran.mk ran.outcome (.audit (s.auditRow request requestedAt) :: ran.trace)
        { s with identities := ran.state } = _
      rw [hstate]
      rfl
    · intro subject hsubject
      exact (IdentityStore.rows_of_resolve hsubject).2
    · intro e he heq
      have hmem := IdentityStore.type_of_resolve_error he
      rw [heq] at hmem
      exact absurd hmem (by decide)
  · refine .inr ⟨hrecordable, e, ?_, ?_⟩
    · have herror : (Stores.onIdentities (IdentityStore.beginBreakGlassAccess request requestedAt)
          s).outcome = .error e := by
        rw [Stores.onIdentities, hbegin]
      unfold disclose
      rw [Proc.bind_of_error herror, Stores.onIdentities, hbegin]
    · intro heq
      rw [heq] at htype
      exact absurd htype (by decide)

theorem eventId_of_freeze {event frozen : Event} {raw extracted explanation : Py.Json}
    {layers rules : List Py.Json}
    (h : event.freeze raw extracted explanation layers rules = .ok frozen) :
    frozen.fields.eventId = event.fields.eventId := by
  unfold Event.freeze at h
  simp only [Py.bind_eq_ok] at h
  obtain ⟨raw, -, extracted, -, explanation, -, layers, -, rules, -, h⟩ := h
  cases h
  rfl

theorem eventId_of_toEvent {limit : ℕ} {row : EventRow} {event : Event}
    (h : toEvent limit row = .ok event) : event.fields.eventId = row.eventId := by
  unfold toEvent at h
  simp only [Py.bind_eq_ok] at h
  obtain ⟨raw, -, extracted, -, explanation, -, layersText, -, layers, -, rulesText, -, rules, -,
    timestamp, -, source, -, level, -, decision, -, reason, -, ingestedAt, -, made, hmake, h⟩ := h
  rw [eventId_of_freeze h, Event.fields_of_make hmake]

theorem EventStore.eventId_of_get {limit : ℕ} {eventId : Str} {s : EventStore} {event : Event}
    (h : s.get limit eventId = .ok (some event)) :
    event.fields.eventId = eventId ∧ Encodes eventId := by
  unfold EventStore.get at h
  split_ifs at h with hencodes
  split at h
  · cases h
  · rename_i row hfind
    cases hevent : toEvent limit row with
    | error e =>
      rw [hevent] at h
      cases h
    | ok event' =>
      rw [hevent] at h
      obtain rfl := Option.some.inj (Except.ok.inj h)
      have hid := List.find?_some hfind
      exact ⟨(eventId_of_toEvent hevent).trans (of_decide_eq_true hid),
        Py.encodeUtf8_isNone_iff.mp (Bool.not_eq_true _ ▸ hencodes)⟩

/-- What happens to the two stores. A step draws what it needs from outside: the time of a request
and how deep the decoder may still recurse, or what minting draws. -/
inductive BridgeOp
  | resolve (request : DisclosureRequest) (requestedAt : Datetime) (limit : ℕ)
  | append (event : Event) (env : AppendEnv)
  | mint (tenantId subject uuid : Str) (nonce : ℕ) (now : Datetime)

/-- The stores, and the pseudonyms minted so far with the subjects they were minted for. -/
structure BridgeRun (τ : Type) where
  stores : Stores τ
  minted : List (Str × Str)

namespace BridgeRun

def step (fernet : Fernet τ) (op : BridgeOp) (run : BridgeRun τ) : BridgeRun τ :=
  match op with
  | .resolve request requestedAt limit =>
    { run with
      stores := (resolveSubjectForEvent fernet limit request requestedAt run.stores).state }
  | .append event env =>
    { run with stores := { run.stores with events := (run.stores.events.append event env).2 } }
  | .mint tenantId subject uuid nonce now =>
    match run.stores.identities.mintPseudonym fernet tenantId subject uuid nonce now with
    | (.ok pseudonym, identities) =>
      ⟨{ run.stores with identities }, run.minted ++ [(pseudonym, subject)]⟩
    | (.error _, identities) => { run with stores := { run.stores with identities } }

/-- The store has a row of the pseudonym that decrypts to the subject, and whoever the pseudonym
was minted for is that subject: in this run, or when the row was written. -/
structure MintedFor (fernet : Fernet τ) (run : BridgeRun τ) (pseudonym subject : Str) : Prop where
  row : ∃ row ∈ run.stores.identities.identityMap.rows, row.pseudonym = pseudonym ∧
    IdentityCipher.decrypt fernet row.subjectCiphertext = .ok subject
  in_run : ∀ subject', (pseudonym, subject') ∈ run.minted → subject' = subject
  at_rest : ∀ row ∈ run.stores.identities.identityMap.rows, row.pseudonym = pseudonym →
    ∀ nonce subject', IdentityCipher.encrypt fernet nonce subject' = .ok row.subjectCiphertext →
      subject' = subject

/-- Every mint of the run has its row in the store. -/
def MintsStored (fernet : Fernet τ) (run : BridgeRun τ) : Prop :=
  ∀ minted ∈ run.minted, ∃ row ∈ run.stores.identities.identityMap.rows,
    row.pseudonym = minted.1 ∧ IdentityCipher.decrypt fernet row.subjectCiphertext = .ok minted.2

/-- The audit row can be written: SQLite can bind what the caller wrote, and has an id left. -/
structure CanRecord (request : DisclosureRequest) (run : BridgeRun τ) : Prop where
  actor : Encodes request.actor
  second_approver : Encodes request.secondApprover
  reason : Encodes request.reason
  id_left : Sql.FitsInteger (run.stores.identities.accessLog.sequence + 1)

/-- The call writes one audit row, which names the event and the request, and only then decrypts. -/
def Audited (fernet : Fernet τ) (limit : ℕ) (request : DisclosureRequest) (requestedAt : Datetime)
    (run : BridgeRun τ) (event : Event) : Prop :=
  let ran := resolveSubjectForEvent fernet limit request requestedAt run.stores
  ∃ row decrypted, ran.trace = .audit row :: decrypted ∧
    (∀ action ∈ decrypted, ∃ pseudonym, action = .decrypt pseudonym) ∧
    ran.state.identities.accessLog.rows = run.stores.identities.accessLog.rows ++ [row] ∧
    row.eventId = some event.fields.eventId ∧ row.pseudonym = event.fields.subjectPseudonym ∧
    row.actor = request.actor ∧ row.secondApprover = request.secondApprover ∧
    row.reason = request.reason

/-- What a step of a run keeps to. -/
def Upheld (fernet : Fernet τ) (run : BridgeRun τ) : BridgeOp → Prop
  | .resolve request requestedAt limit =>
    let ran := resolveSubjectForEvent fernet limit request requestedAt run.stores
    (∀ subject, ran.outcome = .ok subject → ∃ event, request.Passes limit run.stores event ∧
      run.MintedFor fernet event.fields.subjectPseudonym subject) ∧
    (∀ event, request.Passes limit run.stores event → run.CanRecord request →
      run.Audited fernet limit request requestedAt event) ∧
    (∀ event, request.Passes limit run.stores event → ¬run.CanRecord request →
      ∃ e, ran = ⟨.error e, [], run.stores⟩) ∧
    ∀ e, ran.outcome = .error e → e.type = breakGlassDenied → ran = ⟨.error e, [], run.stores⟩
  | .append .. => True
  | .mint .. => True

section

variable {fernet : Fernet τ} {run : BridgeRun τ}

theorem recordable_iff {limit : ℕ} {request : DisclosureRequest} {event : Event}
    (h : request.Passes limit run.stores event) :
    IdentityStore.Recordable (request.accessTo event) run.stores.identities ↔
      run.CanRecord request := by
  have heventId := (EventStore.eventId_of_get h.found).2
  have hpseudonym := encodes_pseudonym event.admissible.subject_pseudonym
  unfold IdentityStore.Recordable AccessRequest.textParameters DisclosureRequest.accessTo
  simp only [Option.toList_some, List.cons_append, List.nil_append, List.forall_mem_cons,
    List.not_mem_nil, false_imp_iff, implies_true, heventId, hpseudonym, and_true, true_and]
  constructor
  · intro h
    exact ⟨h.1.1, h.1.2.1, h.1.2.2, h.2⟩
  · intro h
    exact ⟨⟨h.actor, h.second_approver, h.reason⟩, h.id_left⟩

theorem subject_unique (hstored : run.MintsStored fernet) (hfernet : fernet.Inverts)
    {pseudonym subject : Str}
    (h : ∃ row ∈ run.stores.identities.identityMap.rows, row.pseudonym = pseudonym ∧
      IdentityCipher.decrypt fernet row.subjectCiphertext = .ok subject) :
    run.MintedFor fernet pseudonym subject := by
  obtain ⟨row, hrow, hname, hdecrypt⟩ := h
  have hone : ∀ row' ∈ run.stores.identities.identityMap.rows, row'.pseudonym = pseudonym →
      row' = row := by
    intro row' hrow' hname'
    exact List.inj_on_of_nodup_map run.stores.identities.identityMap.distinct hrow' hrow
      (hname'.trans hname.symm)
  refine ⟨⟨row, hrow, hname, hdecrypt⟩, ?_, ?_⟩
  · intro subject' hminted
    obtain ⟨row', hrow', hname', hdecrypt'⟩ := hstored _ hminted
    rw [hone row' hrow' hname', hdecrypt] at hdecrypt'
    exact (Except.ok.inj hdecrypt').symm
  · intro row' hrow' hname' nonce subject' hencrypt
    have hdecrypt' := IdentityCipher.decrypt_of_encrypt hfernet hencrypt
    rw [hone row' hrow' hname', hdecrypt] at hdecrypt'
    exact (Except.ok.inj hdecrypt').symm

theorem upheld_of_refused {request : DisclosureRequest} {requestedAt : Datetime} {limit : ℕ}
    {e : Exc}
    (hran : resolveSubjectForEvent fernet limit request requestedAt run.stores =
      ⟨.error e, [], run.stores⟩)
    (hcannot : ∀ event, request.Passes limit run.stores event → ¬run.CanRecord request) :
    run.Upheld fernet (.resolve request requestedAt limit) := by
  unfold Upheld Audited
  dsimp only
  rw [hran]
  refine ⟨?_, ?_, ?_, ?_⟩
  · intro subject hok
    cases hok
  · intro event hpasses hcan
    exact absurd hcan (hcannot event hpasses)
  · intro event _ _
    exact ⟨e, rfl⟩
  · intro e' he' _
    cases he'
    rfl

theorem upheld (hfernet : fernet.Inverts) (hstored : run.MintsStored fernet) (op : BridgeOp) :
    run.Upheld fernet op := by
  cases op with
  | append event env => trivial
  | mint tenantId subject uuid nonce now => trivial
  | resolve request requestedAt limit =>
    rcases resolveSubjectForEvent_cases fernet limit request requestedAt run.stores with
      ⟨event, hpasses, hran⟩ | ⟨hfails, e, hran⟩
    · have honly : ∀ event', request.Passes limit run.stores event' → event' = event := by
        intro event' hpasses'
        have hfound := hpasses'.found
        rw [hpasses.found] at hfound
        exact (Option.some.inj (Except.ok.inj hfound)).symm
      rcases disclose_cases fernet (request.accessTo event) requestedAt run.stores with
        ⟨hrecordable, outcome, decrypted, hdisclose, hdecrypted, hsubject, herror⟩ |
        ⟨hrecordable, e, hdisclose, htype⟩
      · unfold Upheld Audited
        dsimp only
        rw [hran, hdisclose]
        refine ⟨?_, ?_, ?_, ?_⟩
        · intro subject hok
          exact ⟨event, hpasses, subject_unique hstored hfernet (hsubject subject hok)⟩
        · intro event' hpasses' _
          obtain rfl := honly event' hpasses'
          refine ⟨_, decrypted, rfl, ?_, rfl, ?_, rfl, rfl, rfl, rfl⟩
          · intro action haction
            rcases hdecrypted with hnone | hone
            · rw [hnone] at haction
              cases haction
            · rw [hone] at haction
              exact ⟨_, List.mem_singleton.mp haction⟩
          · exact congrArg some (EventStore.eventId_of_get hpasses.found).1.symm
        · intro event' hpasses' hcannot
          exact absurd ((recordable_iff hpasses).mp hrecordable) hcannot
        · intro e he htype
          exact absurd htype (herror e he)
      · exact upheld_of_refused (hran.trans hdisclose) fun event' hpasses' hcan =>
          hrecordable ((recordable_iff hpasses).mpr hcan)
    · exact upheld_of_refused hran fun event hpasses => absurd hpasses (hfails event)

/-- Asking for a disclosure leaves the mapping alone, and adds to the log at most. -/
theorem resolveSubjectForEvent_frame (fernet : Fernet τ) (limit : ℕ) (request : DisclosureRequest)
    (requestedAt : Datetime) (s : Stores τ) :
    let ran := resolveSubjectForEvent fernet limit request requestedAt s
    ran.state.events = s.events ∧ ran.state.identities.identityMap = s.identities.identityMap ∧
      s.identities.accessLog.rows <+: ran.state.identities.accessLog.rows := by
  intro ran
  rcases resolveSubjectForEvent_cases fernet limit request requestedAt s with
    ⟨event, -, hran⟩ | ⟨-, e, hran⟩
  · rcases disclose_cases fernet (request.accessTo event) requestedAt s with
      ⟨-, outcome, decrypted, hdisclose, -⟩ | ⟨-, e, hdisclose, -⟩
    · simp only [ran, hran, hdisclose]
      exact ⟨rfl, rfl, List.prefix_append _ _⟩
    · simp only [ran, hran, hdisclose]
      exact ⟨trivial, trivial, List.prefix_refl _⟩
  · simp only [ran, hran]
    exact ⟨trivial, trivial, List.prefix_refl _⟩

theorem log_step (fernet : Fernet τ) (op : BridgeOp) (run : BridgeRun τ) :
    run.stores.identities.accessLog.rows <+:
      (run.step fernet op).stores.identities.accessLog.rows := by
  cases op with
  | append event env => exact List.prefix_refl _
  | resolve request requestedAt limit =>
    exact (resolveSubjectForEvent_frame fernet limit request requestedAt run.stores).2.2
  | mint tenantId subject uuid nonce now =>
    have hlog := run.stores.identities.mintPseudonym_accessLog fernet tenantId subject uuid nonce now
    unfold step
    dsimp only
    split
    · rename_i pseudonym identities hmint
      rw [hmint] at hlog
      rw [hlog]
    · rename_i e identities hmint
      rw [hmint] at hlog
      rw [hlog]

theorem MintsStored.step (hfernet : fernet.Inverts) (op : BridgeOp)
    (h : run.MintsStored fernet) : (run.step fernet op).MintsStored fernet := by
  cases op with
  | append event env => exact h
  | resolve request requestedAt limit =>
    obtain ⟨-, hmap, -⟩ :=
      resolveSubjectForEvent_frame fernet limit request requestedAt run.stores
    intro minted hminted
    have hrow := h minted hminted
    rw [← hmap] at hrow
    exact hrow
  | mint tenantId subject uuid nonce now =>
    unfold BridgeRun.step
    dsimp only
    split
    · rename_i pseudonym identities hmint
      obtain ⟨row, hrows, -, hname, hdecrypt⟩ := mintPseudonym_ok hfernet hmint
      intro minted hminted
      rw [hrows]
      rcases List.mem_append.mp hminted with hold | hnew
      · obtain ⟨row', hrow', hrest⟩ := h minted hold
        exact ⟨row', List.mem_append_left _ hrow', hrest⟩
      · rw [List.mem_singleton.mp hnew]
        exact ⟨row, List.mem_append_right _ (List.mem_singleton_self row), hname, hdecrypt⟩
    · rename_i e identities hmint
      cases mintPseudonym_error hmint
      exact h

theorem log_run (fernet : Fernet τ) (ops : List BridgeOp) (run : BridgeRun τ) :
    run.stores.identities.accessLog.rows <+:
      (Transition.run (step fernet) ops run).stores.identities.accessLog.rows := by
  induction ops generalizing run with
  | nil => exact List.prefix_refl _
  | cons op ops ih => exact (log_step fernet op run).trans (ih _)

end

/-- Whatever is asked for, appended and minted in whatever order, on whatever the two stores hold:
every request keeps to the policy, and no audit row is ever removed or altered. -/
theorem break_glass {fernet : Fernet τ} (hfernet : fernet.Inverts) (stores : Stores τ)
    (ops : List BridgeOp) :
    Transition.Always (step fernet) (Upheld fernet) ops ⟨stores, []⟩ ∧
    ∀ before after, ops = before ++ after →
      (Transition.run (step fernet) before ⟨stores, []⟩).stores.identities.accessLog.rows <+:
        (Transition.run (step fernet) ops ⟨stores, []⟩).stores.identities.accessLog.rows := by
  constructor
  · refine Transition.Always.of_invariant (Q := fun _ _ => True) ?_
      (I := fun run => run.MintsStored fernet) ?_ fun _ _ _ _ => trivial
    · intro op run hstored _
      exact ⟨hstored.step hfernet op, upheld hfernet hstored op⟩
    · intro minted hminted
      cases hminted
  · intro before after hops
    rw [hops, Transition.run_append]
    exact log_run fernet after _

/-- A new identity store beside an event store with one event. -/
def oneEvent : BridgeRun ByteArray where
  stores :=
    { events := EventStore.init
        { Db.empty with events := ⟨[EventStore.storedRow (str "EVT-1")], by decide⟩ } none none
      identities := .empty }
  minted := []

/-- The pseudonym of the event is minted for alice, and another event is appended. -/
def minting : List BridgeOp :=
  [.mint (str "t") (str "alice") (str "0123456789abcdef0123456789abcdef") 0 .epoch,
    .append (.plain (str "EVT-2") Event.strip_evt2) (EventStore.envWithFree none)]

def afterMinting : BridgeRun ByteArray := Transition.run (step .transparent) minting oneEvent

def plainRequest : DisclosureRequest := ⟨str "EVT-1", str "a", str "b", str "r"⟩

/-- A request for the event returns alice, for whom its pseudonym was minted. -/
theorem break_glass_alice :
    (resolveSubjectForEvent .transparent 1 plainRequest .epoch afterMinting.stores).outcome =
        .ok (str "alice") ∧
      ∃ event, plainRequest.Passes 1 afterMinting.stores event ∧
        afterMinting.MintedFor .transparent event.fields.subjectPseudonym (str "alice") := by
  have houtcome : (resolveSubjectForEvent .transparent 1 plainRequest .epoch
      afterMinting.stores).outcome = .ok (str "alice") := by
    have hsome : (resolveSubjectForEvent .transparent 1 plainRequest .epoch
        afterMinting.stores).outcome.toOption = some (str "alice") := by decide +kernel
    cases hran : (resolveSubjectForEvent .transparent 1 plainRequest .epoch
        afterMinting.stores).outcome with
    | error e =>
      rw [hran] at hsome
      cases hsome
    | ok subject =>
      rw [hran] at hsome
      exact congrArg Except.ok (Option.some.inj hsome)
  have hupheld := (break_glass Fernet.inverts_transparent oneEvent.stores
    (minting ++ [.resolve plainRequest .epoch 1])).1 minting (.resolve plainRequest .epoch 1) [] rfl
  exact ⟨houtcome, hupheld.1 _ houtcome⟩

theorem get_storedRow : ∃ event,
    oneEvent.stores.events.get 1 (str "EVT-1") = .ok (some event) ∧
      afterMinting.stores.events.get 1 (str "EVT-1") = .ok (some event) ∧
      event.fields.level = none ∧
      event.fields.subjectPseudonym = str "USR-0123456789abcdef0123456789abcdef" := by
  obtain ⟨utc, hutc, -, hoffset⟩ := Datetime.astimezoneUtc_ok (d := .epoch) (by decide)
  have hempty : Mapping.Readable 0 ∅ := fun entry hentry => nomatch hentry
  have hread := @toEvent_writtenRow 0 (EventStore.storedPlain (str "EVT-1") (by decide)) .epoch
    (str "\x7b\x7d") (str "\x7b\x7d") (str "\x7b\x7d") rfl rfl rfl rfl ⟨hempty, hempty, hempty⟩
    utc utc hoffset hoffset hutc hutc
  have hfirst : oneEvent.stores.events.get 1 (str "EVT-1") =
      (toEvent 1 (EventStore.storedRow (str "EVT-1"))).map some := rfl
  have hminted : afterMinting.stores.events.get 1 (str "EVT-1") =
      (toEvent 1 (EventStore.storedRow (str "EVT-1"))).map some := rfl
  rw [hfirst, hminted]
  exact ⟨inUtc (EventStore.storedPlain (str "EVT-1") (by decide)) utc utc hoffset hoffset,
    congrArg (Except.map some) hread, congrArg (Except.map some) hread, rfl, rfl⟩

/-- A request whose reason is a lone surrogate. -/
def surrogateReason : DisclosureRequest :=
  ⟨str "EVT-1", str "a", str "b", [⟨0xDC80, EventStore.surrogate_valid⟩]⟩

/-- It passes, and nothing is recorded. -/
theorem not_audited_surrogate : ¬∀ (τ : Type) (fernet : Fernet τ), fernet.Inverts →
    ∀ (stores : Stores τ) (ops : List BridgeOp), Transition.Always (step fernet)
      (fun run op => ∀ request requestedAt limit, op = .resolve request requestedAt limit →
        ∀ event, request.Passes limit run.stores event →
          run.Audited fernet limit request requestedAt event) ops ⟨stores, []⟩ := by
  intro h
  obtain ⟨event, hget, -, hlevel, -⟩ := get_storedRow
  have hpasses : surrogateReason.Passes 1 oneEvent.stores event :=
    ⟨by decide, by decide, by decide, by decide, hget, .inl hlevel⟩
  have hcannot : ¬oneEvent.CanRecord surrogateReason := by
    intro hcan
    exact absurd hcan.reason (by decide)
  have hstored : oneEvent.MintsStored Fernet.transparent := by
    intro minted hminted
    cases hminted
  obtain ⟨-, -, hraises, -⟩ := upheld Fernet.inverts_transparent hstored
    (.resolve surrogateReason .epoch 1)
  obtain ⟨e, hran⟩ := hraises event hpasses hcannot
  have haudited := h ByteArray .transparent Fernet.inverts_transparent oneEvent.stores
    [.resolve surrogateReason .epoch 1] [] _ [] rfl surrogateReason .epoch 1 rfl event hpasses
  obtain ⟨row, decrypted, htrace, -⟩ := haudited
  rw [Transition.run_nil] at htrace
  have hnone : (resolveSubjectForEvent Fernet.transparent 1 surrogateReason .epoch
      oneEvent.stores).trace = [] := by rw [hran]
  exact List.cons_ne_nil _ _ (htrace.symm.trans hnone)

end BridgeRun

end Ebabf
