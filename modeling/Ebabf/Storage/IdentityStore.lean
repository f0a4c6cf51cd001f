import Ebabf.Py.Datetime
import Ebabf.Py.Json
import Ebabf.Py.Proc
import Ebabf.Py.Utf8
import Ebabf.Sql.Table
import Ebabf.Transition

/-!
# identity.db

The pseudonym-to-subject mapping and the log of disclosures. A disclosure is in two calls: the
first writes the audit row and returns a grant that names it, the second takes a grant and
decrypts. What the two do to the outside is the trace: audit rows written, ciphertexts decrypted.
-/

namespace Ebabf

open Py (Str str Exc ExcType valueError Datetime Proc encodeUtf8 decodeUtf8)

/-- Fernet under the store's key. A token depends on the moment and the bytes drawn for it. -/
structure Fernet (τ : Type) where
  encrypt : ℕ → ByteArray → τ
  decrypt : τ → Option ByteArray

/-- Decryption inverts encryption. -/
def Fernet.Inverts {τ : Type} (fernet : Fernet τ) : Prop :=
  ∀ nonce data, fernet.decrypt (fernet.encrypt nonce data) = some data

/-- A cipher that leaves its data as they are. -/
def Fernet.transparent : Fernet ByteArray := ⟨fun _ data => data, some⟩

theorem Fernet.inverts_transparent : transparent.Inverts := fun _ _ => rfl

def unicodeEncodeError : Exc :=
  ⟨.unicodeEncodeError, str "'utf-8' codec can't encode: surrogates not allowed"⟩

def unicodeDecodeError : Exc := ⟨.other (str "UnicodeDecodeError"), str "invalid utf-8"⟩

namespace IdentityCipher

variable {τ : Type}

def encrypt (fernet : Fernet τ) (nonce : ℕ) (subject : Str) : Except Exc τ :=
  if subject = [] then .error (valueError (str "subject must be a non-empty string"))
  else
    match encodeUtf8 subject with
    | none => .error unicodeEncodeError
    | some data => .ok (fernet.encrypt nonce data)

def decrypt (fernet : Fernet τ) (token : τ) : Except Exc Str :=
  match fernet.decrypt token with
  | none => .error (valueError (str "identity ciphertext failed authentication"))
  | some data =>
    match decodeUtf8 data with
    | none => .error unicodeDecodeError
    | some subject => .ok subject

theorem decrypt_token {fernet : Fernet τ} (hfernet : fernet.Inverts) {subject : Str}
    {data : ByteArray} (h : encodeUtf8 subject = some data) (nonce : ℕ) :
    decrypt fernet (fernet.encrypt nonce data) = .ok subject := by
  rw [decrypt, hfernet nonce data]
  dsimp only
  rw [Py.decodeUtf8_encodeUtf8 h]

theorem decrypt_of_encrypt {fernet : Fernet τ} (hfernet : fernet.Inverts) {nonce : ℕ}
    {subject : Str} {token : τ} (h : encrypt fernet nonce subject = .ok token) :
    decrypt fernet token = .ok subject := by
  unfold encrypt at h
  split_ifs at h with hempty
  cases hdata : encodeUtf8 subject with
  | none =>
    rw [hdata] at h
    cases h
  | some data =>
    rw [hdata] at h
    cases h
    exact decrypt_token hfernet hdata nonce

end IdentityCipher

structure IdentityRow (τ : Type) where
  pseudonym : Str
  tenantId : Str
  subjectCiphertext : τ
  createdAt : Str

structure AccessRow where
  accessId : ℤ
  pseudonym : Str
  eventId : Option Str
  actor : Str
  secondApprover : Str
  reason : Str
  requestedAt : Str
deriving DecidableEq

/-- `identity_access_log`: its rows, and the largest id `AUTOINCREMENT` has given out. -/
structure AccessLog where
  rows : List AccessRow
  sequence : ℤ
  bounded : ∀ row ∈ rows, row.accessId ≤ sequence
  distinct : (rows.map AccessRow.accessId).Nodup

/-- What a caller states when it asks for a disclosure. -/
structure AccessRequest where
  pseudonym : Str
  eventId : Option Str
  actor : Str
  secondApprover : Str
  reason : Str

namespace AccessRequest

def textParameters (request : AccessRequest) : List Str :=
  [request.pseudonym] ++ request.eventId.toList ++
    [request.actor, request.secondApprover, request.reason]

/-- The row that records a request. -/
def toRow (request : AccessRequest) (accessId : ℤ) (requestedAt : Datetime) : AccessRow where
  accessId
  pseudonym := request.pseudonym
  eventId := request.eventId
  actor := request.actor
  secondApprover := request.secondApprover
  reason := request.reason
  requestedAt := requestedAt.isoformat

end AccessRequest

namespace AccessLog

def empty : AccessLog where
  rows := []
  sequence := 0
  bounded := fun _ h => nomatch h
  distinct := List.nodup_nil

/-- `INSERT INTO identity_access_log` -/
def insert (request : AccessRequest) (requestedAt : Datetime) (log : AccessLog) : AccessLog where
  rows := log.rows ++ [request.toRow (log.sequence + 1) requestedAt]
  sequence := log.sequence + 1
  bounded := by
    intro row hrow
    rcases List.mem_append.mp hrow with h | h
    · exact (log.bounded row h).trans (by omega)
    · rw [List.mem_singleton.mp h]
      exact le_refl _
  distinct := by
    rw [List.map_append]
    refine log.distinct.append (List.nodup_singleton _) ?_
    intro accessId h hnew
    obtain ⟨row, hrow, rfl⟩ := List.mem_map.mp h
    have hle := log.bounded row hrow
    have heq : row.accessId = log.sequence + 1 := List.mem_singleton.mp hnew
    omega

end AccessLog

structure IdentityStore (τ : Type) where
  identityMap : Sql.Table (IdentityRow τ) IdentityRow.pseudonym
  accessLog : AccessLog

/-- The row id of an audit entry, and the pseudonym it is to disclose. -/
structure AccessGrant where
  accessId : ℤ
  pseudonym : Str
deriving DecidableEq

/-- What the store does that an observer of the database and of the key can tell. -/
inductive IdentityAction
  | audit (row : AccessRow)
  | decrypt (pseudonym : Str)
deriving DecidableEq

namespace IdentityStore

variable {τ : Type}

def empty : IdentityStore τ := ⟨∅, .empty⟩

def permissionError (message : Str) : Exc := ⟨.other (str "PermissionError"), message⟩

/-- `PseudonymNotFound(pseudonym)` -/
def pseudonymNotFound (pseudonym : Str) : Exc := ⟨.other (str "PseudonymNotFound"), pseudonym⟩

/-- `mint_pseudonym`, given the bytes and the readings it draws. -/
def mintPseudonym (fernet : Fernet τ) (tenantId subject uuid : Str) (nonce : ℕ) (now : Datetime)
    (s : IdentityStore τ) : Except Exc Str × IdentityStore τ :=
  if tenantId = [] ∨ subject = [] then
    (.error (valueError (str "tenant_id and subject are required")), s)
  else
    let pseudonym := str "USR-" ++ uuid
    match IdentityCipher.encrypt fernet nonce subject with
    | .error e => (.error e, s)
    | .ok token =>
      if (encodeUtf8 pseudonym).isNone ∨ (encodeUtf8 tenantId).isNone then
        (.error unicodeEncodeError, s)
      else
        match s.identityMap.insert ⟨pseudonym, tenantId, token, now.isoformat⟩ with
        | none =>
          (.error ⟨.other (str "IntegrityError"),
            str "UNIQUE constraint failed: identity_map.pseudonym"⟩, s)
        | some identityMap => (.ok pseudonym, { s with identityMap })

/-- `begin_break_glass_access` -/
def beginBreakGlassAccess (request : AccessRequest) (requestedAt : Datetime) :
    Proc IdentityAction (IdentityStore τ) AccessGrant := fun s =>
  if request.textParameters.any fun text => (encodeUtf8 text).isNone then
    ⟨.error unicodeEncodeError, [], s⟩
  else if ¬Sql.FitsInteger (s.accessLog.sequence + 1) then
    ⟨.error ⟨.other (str "OperationalError"), str "database or disk is full"⟩, [], s⟩
  else
    let accessId := s.accessLog.sequence + 1
    ⟨.ok ⟨accessId, request.pseudonym⟩, [.audit (request.toRow accessId requestedAt)],
      { s with accessLog := s.accessLog.insert request requestedAt }⟩

/-- `resolve_subject_with_grant` -/
def resolveSubjectWithGrant (fernet : Fernet τ) (grant : AccessGrant) :
    Proc IdentityAction (IdentityStore τ) Str := fun s =>
  if ¬Sql.FitsInteger grant.accessId then
    ⟨.error ⟨.other (str "OverflowError"),
      str "Python int too large to convert to SQLite INTEGER"⟩, [], s⟩
  else
    match s.accessLog.rows.find? fun row => row.accessId = grant.accessId with
    | none =>
      ⟨.error (permissionError (str "access grant " ++ Py.Json.intText grant.accessId ++
        str " has no audit record; refusing disclosure")), [], s⟩
    | some auditRow =>
      if auditRow.pseudonym ≠ grant.pseudonym then
        ⟨.error (permissionError (str
          "access grant does not match its audit record; refusing disclosure")), [], s⟩
      else
        match s.identityMap.rows.find? fun row => row.pseudonym = grant.pseudonym with
        | none => ⟨.error (pseudonymNotFound grant.pseudonym), [], s⟩
        | some row =>
          ⟨IdentityCipher.decrypt fernet row.subjectCiphertext, [.decrypt grant.pseudonym], s⟩

theorem mintPseudonym_accessLog (fernet : Fernet τ) (tenantId subject uuid : Str) (nonce : ℕ)
    (now : Datetime) (s : IdentityStore τ) :
    (s.mintPseudonym fernet tenantId subject uuid nonce now).2.accessLog = s.accessLog := by
  unfold mintPseudonym
  split_ifs
  · rfl
  · dsimp only
    cases IdentityCipher.encrypt fernet nonce subject with
    | error e => rfl
    | ok token =>
      dsimp only
      split_ifs
      · rfl
      · split <;> rfl

/-- SQLite can bind the texts of the request, and there is an id left for its row. -/
def Recordable (request : AccessRequest) (s : IdentityStore τ) : Prop :=
  (∀ t ∈ request.textParameters, Py.Encodes t) ∧ Sql.FitsInteger (s.accessLog.sequence + 1)

/-- A request is recorded and granted, or it raises and nothing happens. -/
theorem beginBreakGlassAccess_cases (request : AccessRequest) (requestedAt : Datetime)
    (s : IdentityStore τ) :
    (Recordable request s ∧ beginBreakGlassAccess request requestedAt s =
      ⟨.ok ⟨s.accessLog.sequence + 1, request.pseudonym⟩,
        [.audit (request.toRow (s.accessLog.sequence + 1) requestedAt)],
        { s with accessLog := s.accessLog.insert request requestedAt }⟩) ∨
    (¬Recordable request s ∧ ∃ e, beginBreakGlassAccess request requestedAt s = ⟨.error e, [], s⟩ ∧
      (e.type = .unicodeEncodeError ∨ e.type = .other (str "OperationalError"))) := by
  have htexts : (request.textParameters.any fun text => (encodeUtf8 text).isNone) = false ↔
      ∀ t ∈ request.textParameters, Py.Encodes t := by
    simp only [List.any_eq_false, Bool.not_eq_true, Py.encodeUtf8_isNone_iff]
  unfold Recordable beginBreakGlassAccess
  rw [← htexts]
  cases request.textParameters.any fun text => (encodeUtf8 text).isNone with
  | true =>
    refine .inr ⟨fun h => Bool.noConfusion h.1, unicodeEncodeError, rfl, .inl rfl⟩
  | false =>
    by_cases hfits : Sql.FitsInteger (s.accessLog.sequence + 1)
    · refine .inl ⟨⟨rfl, hfits⟩, ?_⟩
      rw [if_neg Bool.false_ne_true, if_neg (not_not_intro hfits)]
    · rw [if_neg Bool.false_ne_true, if_pos hfits]
      exact .inr ⟨fun h => hfits h.2, _, rfl, .inr rfl⟩

/-- A disclosure leaves the store as it was, and decrypts at most once. -/
theorem resolveSubjectWithGrant_frame (fernet : Fernet τ) (grant : AccessGrant)
    (s : IdentityStore τ) :
    (resolveSubjectWithGrant fernet grant s).state = s ∧
      ((resolveSubjectWithGrant fernet grant s).trace = [] ∨
        (resolveSubjectWithGrant fernet grant s).trace = [.decrypt grant.pseudonym]) := by
  unfold resolveSubjectWithGrant
  by_cases hfits : Sql.FitsInteger grant.accessId
  · rw [if_neg (not_not_intro hfits)]
    split
    · exact ⟨rfl, .inl rfl⟩
    · rename_i auditRow hfind
      by_cases hname : auditRow.pseudonym = grant.pseudonym
      · rw [if_neg (not_not_intro hname)]
        split
        · exact ⟨rfl, .inl rfl⟩
        · exact ⟨rfl, .inr rfl⟩
      · rw [if_pos hname]
        exact ⟨rfl, .inl rfl⟩
  · rw [if_pos hfits]
    exact ⟨rfl, .inl rfl⟩

/-- A disclosure needs the audit row its grant names and the mapping row of its pseudonym. -/
theorem rows_of_resolve {fernet : Fernet τ} {grant : AccessGrant} {s : IdentityStore τ}
    {subject : Str} (h : (resolveSubjectWithGrant fernet grant s).outcome = .ok subject) :
    (∃ row ∈ s.accessLog.rows, row.accessId = grant.accessId ∧ row.pseudonym = grant.pseudonym) ∧
      ∃ row ∈ s.identityMap.rows, row.pseudonym = grant.pseudonym ∧
        IdentityCipher.decrypt fernet row.subjectCiphertext = .ok subject := by
  unfold resolveSubjectWithGrant at h
  split_ifs at h with hfits
  split at h
  · cases h
  · rename_i auditRow hfind
    split_ifs at h with hpseudonym
    split at h
    · cases h
    · rename_i row hrow
      have hid := List.find?_some hfind
      have hname := List.find?_some hrow
      exact ⟨⟨auditRow, List.mem_of_find?_eq_some hfind, of_decide_eq_true hid,
        not_not.mp hpseudonym⟩, row, List.mem_of_find?_eq_some hrow, of_decide_eq_true hname, h⟩

theorem type_of_decrypt_error {fernet : Fernet τ} {token : τ} {e : Exc}
    (h : IdentityCipher.decrypt fernet token = .error e) :
    e.type = .valueError ∨ e.type = .other (str "UnicodeDecodeError") := by
  unfold IdentityCipher.decrypt at h
  split at h
  · cases h
    exact .inl rfl
  · split at h
    · cases h
      exact .inr rfl
    · cases h

/-- What a disclosure raises is not a denial. -/
theorem type_of_resolve_error {fernet : Fernet τ} {grant : AccessGrant} {s : IdentityStore τ}
    {e : Exc} (h : (resolveSubjectWithGrant fernet grant s).outcome = .error e) :
    e.type ∈ [ExcType.other (str "OverflowError"), .other (str "PermissionError"),
      .other (str "PseudonymNotFound"), .valueError, .other (str "UnicodeDecodeError")] := by
  unfold resolveSubjectWithGrant at h
  by_cases hfits : Sql.FitsInteger grant.accessId
  · rw [if_neg (not_not_intro hfits)] at h
    split at h
    · cases h
      simp [permissionError]
    · rename_i auditRow hfind
      by_cases hname : auditRow.pseudonym = grant.pseudonym
      · rw [if_neg (not_not_intro hname)] at h
        split at h
        · cases h
          simp [pseudonymNotFound]
        · rcases type_of_decrypt_error h with hvalue | hdecode
          · simp [hvalue]
          · simp [hdecode]
      · rw [if_pos hname] at h
        cases h
        simp [permissionError]
  · rw [if_pos hfits] at h
    cases h
    simp

end IdentityStore

/-- A call on the restricted interface, with any grant. -/
inductive AccessCall
  | beginAccess (request : AccessRequest) (requestedAt : Datetime)
  | resolve (grant : AccessGrant)

/-- A store, and the grants of the calls that have returned a plaintext. -/
structure DisclosureRun (τ : Type) where
  store : IdentityStore τ
  disclosed : List AccessGrant

namespace DisclosureRun

variable {τ : Type}

def step (fernet : Fernet τ) (call : AccessCall) (run : DisclosureRun τ) : DisclosureRun τ :=
  match call with
  | .beginAccess request requestedAt =>
    { run with store := (run.store |> IdentityStore.beginBreakGlassAccess request requestedAt).state }
  | .resolve grant =>
    let ran := IdentityStore.resolveSubjectWithGrant fernet grant run.store
    match ran.outcome with
    | .error _ => { run with store := ran.state }
    | .ok _ => ⟨ran.state, run.disclosed ++ [grant]⟩

/-- No pseudonym has been disclosed more often than the log has rows that name it. -/
def Recorded (run : DisclosureRun τ) : Prop :=
  ∀ pseudonym, (run.disclosed.filter fun grant => grant.pseudonym = pseudonym).length ≤
    (run.store.accessLog.rows.filter fun row => row.pseudonym = pseudonym).length

/-- A call does not present the id of an audit row that has already disclosed. -/
def NotReplayed (run : DisclosureRun τ) : AccessCall → Prop
  | .beginAccess .. => True
  | .resolve grant => ∀ earlier ∈ run.disclosed, earlier.accessId ≠ grant.accessId

/-- Every disclosure has an audit row of its own. -/
structure Backed (run : DisclosureRun τ) : Prop where
  distinct : (run.disclosed.map AccessGrant.accessId).Nodup
  rows : ∀ grant ∈ run.disclosed, ∃ row ∈ run.store.accessLog.rows,
    row.accessId = grant.accessId ∧ row.pseudonym = grant.pseudonym

theorem Backed.recorded {run : DisclosureRun τ} (h : run.Backed) : run.Recorded := by
  intro pseudonym
  have hnodup : ((run.disclosed.filter fun grant => grant.pseudonym = pseudonym).map
      AccessGrant.accessId).Nodup :=
    h.distinct.sublist (List.filter_sublist.map _)
  have hsubset : (run.disclosed.filter fun grant => grant.pseudonym = pseudonym).map
      AccessGrant.accessId ⊆ (run.store.accessLog.rows.filter fun row =>
        row.pseudonym = pseudonym).map AccessRow.accessId := by
    intro accessId hmem
    obtain ⟨grant, hgrant, rfl⟩ := List.mem_map.mp hmem
    obtain ⟨hdisclosed, hpseudonym⟩ := List.mem_filter.mp hgrant
    obtain ⟨row, hrow, hid, hname⟩ := h.rows grant hdisclosed
    rw [← hid]
    refine List.mem_map_of_mem (List.mem_filter.mpr ⟨hrow, decide_eq_true ?_⟩)
    exact hname.trans (of_decide_eq_true hpseudonym)
  have hlength := (hnodup.subperm hsubset).length_le
  rwa [List.length_map, List.length_map] at hlength

theorem Backed.step {fernet : Fernet τ} {call : AccessCall} {run : DisclosureRun τ}
    (h : run.Backed) (hcall : run.NotReplayed call) : (run.step fernet call).Backed := by
  cases call with
  | beginAccess request requestedAt =>
    refine ⟨h.distinct, ?_⟩
    intro grant hgrant
    obtain ⟨row, hrow, hnames⟩ := h.rows grant hgrant
    refine ⟨row, ?_, hnames⟩
    unfold DisclosureRun.step IdentityStore.beginBreakGlassAccess
    dsimp only
    split_ifs
    · exact hrow
    · exact List.mem_append_left _ hrow
    · exact hrow
  | resolve grant =>
    have hstate := (IdentityStore.resolveSubjectWithGrant_frame fernet grant run.store).1
    unfold DisclosureRun.step
    dsimp only
    rw [hstate]
    cases hrun : (IdentityStore.resolveSubjectWithGrant fernet grant run.store).outcome with
    | error e => exact h
    | ok subject =>
      obtain ⟨haudit, -⟩ := IdentityStore.rows_of_resolve hrun
      constructor
      · rw [List.map_append]
        refine h.distinct.append (List.nodup_singleton _) ?_
        intro accessId hmem hnew
        obtain ⟨earlier, hearlier, rfl⟩ := List.mem_map.mp hmem
        exact hcall earlier hearlier (List.mem_singleton.mp hnew)
      · intro grant' hgrant'
        rcases List.mem_append.mp hgrant' with hold | hnew
        · exact h.rows grant' hold
        · rw [List.mem_singleton.mp hnew]
          exact haudit

/-- In any run of the two calls, with any grants, no pseudonym is disclosed more often than it is
recorded, as long as no audit row that has disclosed is presented again. -/
theorem recorded_run (fernet : Fernet τ) (store : IdentityStore τ) (calls : List AccessCall)
    (h : Transition.Always (step fernet) NotReplayed calls ⟨store, []⟩) (before after : List AccessCall)
    (hcalls : calls = before ++ after) :
    (Transition.run (step fernet) before ⟨store, []⟩).Recorded := by
  rw [hcalls] at h
  have hinit : Backed (⟨store, []⟩ : DisclosureRun τ) := by
    constructor
    · exact List.nodup_nil
    · intro grant hgrant
      cases hgrant
  have hbefore := Transition.Always.prefix h
  exact (hbefore.run_invariant (fun call run hrun hcall => hrun.step hcall) hinit).recorded

/-- A store that knows the subject `u` by the pseudonym `p`. -/
def knowing (data : ByteArray) : IdentityStore ByteArray :=
  ⟨⟨[⟨str "p", str "t", Fernet.transparent.encrypt 0 data, Datetime.epoch.isoformat⟩],
    List.nodup_singleton _⟩, .empty⟩

def plainRequest : AccessRequest := ⟨str "p", none, str "a", str "b", str "r"⟩

/-- After one request, the grant `⟨1, p⟩` discloses every time it is presented. -/
theorem step_resolve_knowing {data : ByteArray} (hdata : encodeUtf8 (str "u") = some data)
    (disclosed : List AccessGrant) :
    let store := (IdentityStore.beginBreakGlassAccess plainRequest .epoch (knowing data)).state
    step Fernet.transparent (.resolve ⟨1, str "p"⟩) ⟨store, disclosed⟩ =
      ⟨store, disclosed ++ [⟨1, str "p"⟩]⟩ := by
  intro store
  have hresolve : IdentityStore.resolveSubjectWithGrant .transparent ⟨1, str "p"⟩ store =
      ⟨IdentityCipher.decrypt .transparent (Fernet.transparent.encrypt 0 data), [.decrypt (str "p")],
        store⟩ := rfl
  rw [step, hresolve, IdentityCipher.decrypt_token Fernet.inverts_transparent hdata]

/-- One audit row, and the grant it was issued with presented twice. -/
theorem not_recorded_replayed : ¬∀ (τ : Type) (fernet : Fernet τ) (store : IdentityStore τ)
    (calls : List AccessCall), fernet.Inverts →
      (Transition.run (step fernet) calls ⟨store, []⟩).Recorded := by
  intro h
  obtain ⟨data, hdata⟩ : ∃ data, encodeUtf8 (str "u") = some data := ⟨_, rfl⟩
  have hrecorded := h ByteArray .transparent (knowing data)
    [.beginAccess plainRequest .epoch, .resolve ⟨1, str "p"⟩, .resolve ⟨1, str "p"⟩]
    Fernet.inverts_transparent (str "p")
  rw [Transition.run_cons, Transition.run_cons, Transition.run_cons, Transition.run_nil] at hrecorded
  have hbegin : step Fernet.transparent (.beginAccess plainRequest .epoch) ⟨knowing data, []⟩ =
      ⟨(IdentityStore.beginBreakGlassAccess plainRequest .epoch (knowing data)).state, []⟩ := rfl
  rw [hbegin, step_resolve_knowing hdata, step_resolve_knowing hdata] at hrecorded
  exact absurd hrecorded (show ¬2 ≤ 1 by decide)

/-- One audit row, and its grant presented once. -/
theorem recorded_run_once : (Transition.run (step Fernet.transparent)
    [.beginAccess plainRequest .epoch, .resolve ⟨1, str "p"⟩]
    ⟨knowing "u".toUTF8, []⟩).Recorded := by
  refine recorded_run .transparent (knowing "u".toUTF8)
    [.beginAccess plainRequest .epoch, .resolve ⟨1, str "p"⟩] ?_ _ [] rfl
  rw [Transition.always_cons, Transition.always_cons]
  refine ⟨trivial, ?_, Transition.always_nil _ _⟩
  intro earlier hearlier
  cases hearlier

end DisclosureRun
end Ebabf
