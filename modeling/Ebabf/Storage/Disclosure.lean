import Ebabf.Storage.Bridge

/-!
# When a disclosure comes through

A request that passes the policy and can be recorded returns the subject its pseudonym was minted
for: the grant it is issued names the row just written, and no mapping row is ever lost.
-/

namespace Ebabf

open Py (Str str Exc Datetime Proc Encodes)

variable {τ : Type}

namespace IdentityStore

theorem find?_insert (log : AccessLog) (request : AccessRequest) (requestedAt : Datetime) :
    (log.insert request requestedAt).rows.find? (fun row => row.accessId = log.sequence + 1) =
      some (request.toRow (log.sequence + 1) requestedAt) := by
  have hold : log.rows.find? (fun row => row.accessId = log.sequence + 1) = none := by
    refine List.find?_eq_none.mpr fun row hrow => ?_
    have hle := log.bounded row hrow
    rw [decide_eq_true_eq]
    omega
  have hnew : decide ((request.toRow (log.sequence + 1) requestedAt).accessId =
      log.sequence + 1) = true := decide_eq_true rfl
  show (log.rows ++ [request.toRow (log.sequence + 1) requestedAt]).find? _ = _
  rw [List.find?_append, hold, Option.none_or]
  exact List.find?_cons_of_pos hnew

theorem resolve_recorded (fernet : Fernet τ) {request : AccessRequest} {requestedAt : Datetime}
    {s : IdentityStore τ} (hfits : Sql.FitsInteger (s.accessLog.sequence + 1))
    {row : IdentityRow τ} (hrow : row ∈ s.identityMap.rows)
    (hname : row.pseudonym = request.pseudonym) :
    (resolveSubjectWithGrant fernet ⟨s.accessLog.sequence + 1, request.pseudonym⟩
      { s with accessLog := s.accessLog.insert request requestedAt }).outcome =
        IdentityCipher.decrypt fernet row.subjectCiphertext := by
  have haudit := find?_insert s.accessLog request requestedAt
  have hmapped := Sql.Table.find?_key hrow
  rw [hname] at hmapped
  unfold resolveSubjectWithGrant
  rw [if_neg (not_not_intro hfits)]
  simp only [haudit, AccessRequest.toRow, ne_eq, not_true_eq_false, ↓reduceIte, hmapped]

end IdentityStore

namespace BridgeRun

variable {fernet : Fernet τ} {run : BridgeRun τ}

theorem outcome_disclose {request : AccessRequest} {requestedAt : Datetime} {s : Stores τ}
    (hrecordable : IdentityStore.Recordable request s.identities) {row : IdentityRow τ}
    (hrow : row ∈ s.identities.identityMap.rows) (hname : row.pseudonym = request.pseudonym) :
    (disclose fernet request requestedAt s).outcome =
      IdentityCipher.decrypt fernet row.subjectCiphertext := by
  rcases IdentityStore.beginBreakGlassAccess_cases request requestedAt s.identities with
    ⟨-, hbegin⟩ | ⟨hnot, -⟩
  · have hgrant : (Stores.onIdentities (IdentityStore.beginBreakGlassAccess request requestedAt)
        s).outcome = .ok ⟨s.identities.accessLog.sequence + 1, request.pseudonym⟩ := by
      rw [Stores.onIdentities, hbegin]
    unfold disclose
    rw [Proc.bind_of_ok hgrant]
    simp only [Stores.onIdentities, hbegin]
    exact IdentityStore.resolve_recorded fernet hrecordable.2 hrow hname
  · exact absurd hrecordable hnot

/-- A request returns a subject exactly when it passes, can be recorded, and the mapping has a row
of the event's pseudonym that decrypts to that subject. -/
theorem resolve_ok_iff {request : DisclosureRequest} {requestedAt : Datetime} {limit : ℕ}
    {subject : Str} :
    (resolveSubjectForEvent fernet limit request requestedAt run.stores).outcome = .ok subject ↔
      ∃ event, request.Passes limit run.stores event ∧ run.CanRecord request ∧
        ∃ row ∈ run.stores.identities.identityMap.rows,
          row.pseudonym = event.fields.subjectPseudonym ∧
          IdentityCipher.decrypt fernet row.subjectCiphertext = .ok subject := by
  constructor
  · intro h
    rcases resolveSubjectForEvent_cases fernet limit request requestedAt run.stores with
      ⟨event, hpasses, hran⟩ | ⟨-, e, hran⟩
    · refine ⟨event, hpasses, ?_⟩
      rw [hran] at h
      rcases disclose_cases fernet (request.accessTo event) requestedAt run.stores with
        ⟨hrecordable, outcome, decrypted, hdisclose, -, hsubject, -⟩ | ⟨-, e, hdisclose, -⟩
      · rw [hdisclose] at h
        exact ⟨(recordable_iff hpasses).mp hrecordable, hsubject subject h⟩
      · rw [hdisclose] at h
        cases h
    · rw [hran] at h
      cases h
  · rintro ⟨event, hpasses, hcan, row, hrow, hname, hdecrypt⟩
    rcases resolveSubjectForEvent_cases fernet limit request requestedAt run.stores with
      ⟨event', hpasses', hran⟩ | ⟨hfails, -⟩
    · have hfound := hpasses'.found
      rw [hpasses.found] at hfound
      obtain rfl := Option.some.inj (Except.ok.inj hfound)
      rw [hran, outcome_disclose ((recordable_iff hpasses).mpr hcan) hrow hname, hdecrypt]
    · exact absurd hpasses (hfails event)

/-- A request for an event whose pseudonym was minted in the run returns the subject it was minted
for, if it passes and can be recorded. -/
def Discloses (fernet : Fernet τ) (run : BridgeRun τ) : BridgeOp → Prop
  | .resolve request requestedAt limit => ∀ event subject,
    request.Passes limit run.stores event → run.CanRecord request →
    (event.fields.subjectPseudonym, subject) ∈ run.minted →
    (resolveSubjectForEvent fernet limit request requestedAt run.stores).outcome = .ok subject
  | .append .. => True
  | .mint .. => True

theorem discloses_of_mintsStored (hstored : run.MintsStored fernet) (op : BridgeOp) :
    run.Discloses fernet op := by
  cases op with
  | append event env => trivial
  | mint tenantId subject uuid nonce now => trivial
  | resolve request requestedAt limit =>
    intro event subject hpasses hcan hminted
    exact resolve_ok_iff.mpr ⟨event, hpasses, hcan, hstored _ hminted⟩

/-- Whatever has been asked for, appended and minted before, no request of a run is refused the
subject of a pseudonym minted in it that it is entitled to. -/
theorem discloses_minted {fernet : Fernet τ} (hfernet : fernet.Inverts) (stores : Stores τ)
    (ops : List BridgeOp) :
    Transition.Always (step fernet) (Discloses fernet) ops ⟨stores, []⟩ := by
  refine Transition.Always.of_invariant (Q := fun _ _ => True)
    (I := fun run => run.MintsStored fernet) ?_ ?_ fun _ _ _ _ => trivial
  · intro op run hstored _
    exact ⟨hstored.step hfernet op, discloses_of_mintsStored hstored op⟩
  · intro minted hminted
    cases hminted

/-- The request of one who is entitled to it returns alice. -/
theorem discloses_minted_alice :
    (resolveSubjectForEvent .transparent 1 plainRequest .epoch afterMinting.stores).outcome =
      .ok (str "alice") := by
  obtain ⟨event, -, hget, hlevel, hname⟩ := get_storedRow
  have hpasses : plainRequest.Passes 1 afterMinting.stores event :=
    ⟨by decide, by decide, by decide, by decide, hget, .inl hlevel⟩
  have hcan : afterMinting.CanRecord plainRequest :=
    ⟨by decide, by decide, by decide, by decide⟩
  have hminted : (event.fields.subjectPseudonym, str "alice") ∈ afterMinting.minted := by
    rw [hname]
    exact List.mem_singleton_self _
  exact discloses_minted Fernet.inverts_transparent oneEvent.stores
    (minting ++ [.resolve plainRequest .epoch 1]) minting (.resolve plainRequest .epoch 1) [] rfl
    event (str "alice") hpasses hcan hminted

end BridgeRun

end Ebabf
