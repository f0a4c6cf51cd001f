import Ebabf.Storage.KeyFile
import Ebabf.Storage.Pseudonymizer

/-!
# Identities and their key

Every start reads the key file and makes a key where there is none; between starts the file may be
lost, replaced or brought back. A tenant whose rows the key at hand does not decrypt keeps the agent
from starting, so nobody gets a second pseudonym under a second key.
-/

namespace Ebabf

open Py (Str str Exc Datetime Dict)
open KeyPath (emptyDirectory createdKey zeroKey calmKeyEnv defaultPath)

variable {κ τ : Type}

/-- What `Fernet(key)` makes of the bytes of a key, and the cipher under each key. -/
structure FernetKeys (κ τ : Type) where
  construct : List UInt8 → Except Exc κ
  cipher : κ → Fernet τ

/-- A token is decrypted under the key it was made with, and no other key authenticates it. -/
structure FernetKeys.Authentic (keys : FernetKeys κ τ) : Prop where
  inverts : ∀ key, (keys.cipher key).Inverts
  refuses : ∀ key other nonce data, key ≠ other →
    (keys.cipher other).decrypt ((keys.cipher key).encrypt nonce data) = none

/-- The key file, the key of the process that runs, if one does, and what it works on. -/
structure Installation (κ τ : Type) where
  files : KeyFs
  running : Option κ
  agent : Agent τ

/-- A boot draws the bytes of a new key, should it need one. Between any two steps somebody may do
something to the files. -/
inductive InstallationStep
  | boot (tenantId : Str) (generated : List UInt8) (env : KeyEnv)
  | work (next : AgentStep)
  | stop
  | tamper (files : KeyFs)

namespace Installation

def init (files : KeyFs) : Installation κ τ := ⟨files, none, .init⟩

/-- `build_agent` up to the pseudonymizer; whatever raises ends the process. -/
def boot (keys : FernetKeys κ τ) (p : KeyPath) (tenantId : Str) (generated : List UInt8)
    (env : KeyEnv) (s : Installation κ τ) : Installation κ τ :=
  match p.loadKey generated true env s.files with
  | (.error _, files) => { s with files }
  | (.ok bytes, files) =>
    match keys.construct bytes with
    | .error _ => { s with files }
    | .ok key =>
      let agent := s.agent.step (keys.cipher key) (.start tenantId)
      if (agent.pseudonymizers tenantId).isSome then ⟨files, some key, agent⟩
      else { s with files }

def step (keys : FernetKeys κ τ) (p : KeyPath) (next : InstallationStep) (s : Installation κ τ) :
    Installation κ τ :=
  match next, s.running with
  | .boot tenantId generated env, none => s.boot keys p tenantId generated env
  | .boot .., some _ => s
  | .work next, some key => { s with agent := s.agent.step (keys.cipher key) next }
  | .work _, none => s
  | .stop, some key => { s with running := none, agent := s.agent.step (keys.cipher key) .crash }
  | .stop, none => s
  | .tamper files, _ => { s with files }

end Installation

namespace FernetKeys

variable {keys : FernetKeys κ τ} {row : IdentityRow τ} {store : IdentityStore τ}

/-- The row was written under the key. -/
def Made (keys : FernetKeys κ τ) (key : κ) (row : IdentityRow τ) : Prop :=
  ∃ nonce data, row.subjectCiphertext = (keys.cipher key).encrypt nonce data

open Classical in
/-- What a token decrypts to under whichever key authenticates it. -/
noncomputable def decryptAny (keys : FernetKeys κ τ) (token : τ) : Option ByteArray :=
  if h : ∃ data key, (keys.cipher key).decrypt token = some data then some h.choose else none

/-- Encryption under one key, decryption under any. -/
noncomputable def any (keys : FernetKeys κ τ) (key : κ) : Fernet τ :=
  ⟨(keys.cipher key).encrypt, keys.decryptAny⟩

theorem Authentic.key_eq (hkeys : keys.Authentic) {key other : κ} {nonce : ℕ}
    {data data' : ByteArray}
    (h : (keys.cipher other).decrypt ((keys.cipher key).encrypt nonce data) = some data') :
    other = key ∧ data' = data := by
  by_cases hkey : key = other
  · subst hkey
    rw [hkeys.inverts] at h
    exact ⟨rfl, (Option.some.inj h).symm⟩
  · rw [hkeys.refuses key other nonce data hkey] at h
    cases h

theorem Authentic.decryptAny_encrypt (hkeys : keys.Authentic) (key : κ) (nonce : ℕ)
    (data : ByteArray) : keys.decryptAny ((keys.cipher key).encrypt nonce data) = some data := by
  have h : ∃ data' other,
      (keys.cipher other).decrypt ((keys.cipher key).encrypt nonce data) = some data' :=
    ⟨data, key, hkeys.inverts key nonce data⟩
  obtain ⟨other, hother⟩ := h.choose_spec
  rw [decryptAny, dif_pos h, (hkeys.key_eq hother).2]

theorem Authentic.any_inverts (hkeys : keys.Authentic) (key : κ) : (keys.any key).Inverts :=
  fun nonce data => hkeys.decryptAny_encrypt key nonce data

/-- The key a row was written under decrypts it to what any key does. -/
theorem Authentic.decrypt_any (hkeys : keys.Authentic) {key : κ} (hmade : keys.Made key row)
    (other : κ) : IdentityCipher.decrypt (keys.any other) row.subjectCiphertext =
      IdentityCipher.decrypt (keys.cipher key) row.subjectCiphertext := by
  obtain ⟨nonce, data, htoken⟩ := hmade
  have hany : (keys.any other).decrypt ((keys.cipher key).encrypt nonce data) = some data :=
    hkeys.decryptAny_encrypt key nonce data
  rw [htoken, IdentityCipher.decrypt, IdentityCipher.decrypt, hkeys.inverts, hany]

theorem Authentic.eq_of_decrypt (hkeys : keys.Authentic) {key maker : κ}
    (hmade : keys.Made maker row) {subject : Str}
    (h : IdentityCipher.decrypt (keys.cipher key) row.subjectCiphertext = .ok subject) :
    key = maker := by
  obtain ⟨nonce, data, htoken⟩ := hmade
  rw [htoken] at h
  cases hdecrypt : (keys.cipher key).decrypt ((keys.cipher maker).encrypt nonce data) with
  | none =>
    rw [IdentityCipher.decrypt, hdecrypt] at h
    cases h
  | some data' => exact (hkeys.key_eq hdecrypt).1

theorem Authentic.load (hkeys : keys.Authentic)
    (hmade : ∀ row ∈ store.identityMap.rows, ∃ key, keys.Made key row) {key : κ} {tenantId : Str}
    {forward : Dict Str}
    (h : loadForwardMapInternal (keys.cipher key) tenantId store = .ok forward) :
    (∀ row ∈ store.identityMap.rows, row.tenantId = tenantId → keys.Made key row) ∧
      ∀ other, loadForwardMapInternal (keys.any other) tenantId store = .ok forward := by
  unfold loadForwardMapInternal at h ⊢
  obtain ⟨pairs, hpairs, hforward⟩ := Py.bind_eq_ok.mp h
  have hrows := Py.mapM_eq_ok_iff.mp hpairs
  have hdecrypts : ∀ row ∈ store.identityMap.rows, row.tenantId = tenantId → ∃ subject,
      IdentityCipher.decrypt (keys.cipher key) row.subjectCiphertext = .ok subject := by
    intro row hrow htenant
    have hmem : row ∈ store.identityMap.rows.filter fun row => row.tenantId = tenantId :=
      List.mem_filter.mpr ⟨hrow, decide_eq_true htenant⟩
    obtain ⟨pair, -, hpair⟩ := Py.exists_mem_of_forall₂ hrows hmem
    cases hdecrypt : IdentityCipher.decrypt (keys.cipher key) row.subjectCiphertext with
    | ok subject => exact ⟨subject, rfl⟩
    | error e =>
      rw [hdecrypt] at hpair
      cases hpair
  have hmine : ∀ row ∈ store.identityMap.rows, row.tenantId = tenantId → keys.Made key row := by
    intro row hrow htenant
    obtain ⟨maker, hmaker⟩ := hmade row hrow
    obtain ⟨subject, hsubject⟩ := hdecrypts row hrow htenant
    rwa [hkeys.eq_of_decrypt hmaker hsubject]
  refine ⟨hmine, fun other => Py.bind_eq_ok.mpr ⟨pairs, ?_, hforward⟩⟩
  have hsame : ∀ row ∈ store.identityMap.rows.filter fun row => row.tenantId = tenantId,
      IdentityCipher.decrypt (keys.any other) row.subjectCiphertext =
        IdentityCipher.decrypt (keys.cipher key) row.subjectCiphertext := by
    intro row hrow
    obtain ⟨hrow, htenant⟩ := List.mem_filter.mp hrow
    exact hkeys.decrypt_any (hmine row hrow (of_decide_eq_true htenant)) other
  refine Py.mapM_eq_ok_iff.mpr (((List.forall₂_and_left _ _).mpr ⟨hsame, hrows⟩).imp ?_)
  rintro row pair ⟨hdecrypt, hpair⟩
  rw [hdecrypt]
  exact hpair

end FernetKeys

section

variable {fernet : Fernet τ}

theorem token_of_mintPseudonym {tenantId subject uuid pseudonym : Str} {nonce : ℕ}
    {now : Datetime} {store store' : IdentityStore τ}
    (h : store.mintPseudonym fernet tenantId subject uuid nonce now = (.ok pseudonym, store')) :
    ∃ row : IdentityRow τ, store'.identityMap.rows = store.identityMap.rows ++ [row] ∧
      row.tenantId = tenantId ∧ ∃ data, row.subjectCiphertext = fernet.encrypt nonce data := by
  unfold IdentityStore.mintPseudonym at h
  split_ifs at h with hempty
  · cases h
  · dsimp only at h
    split at h
    · cases h
    · rename_i token htoken
      split_ifs at h with hencode
      · cases h
      · split at h
        · cases h
        · rename_i identityMap hinsert
          cases h
          refine ⟨_, Sql.Table.rows_insert hinsert, rfl, ?_⟩
          unfold IdentityCipher.encrypt at htoken
          split_ifs at htoken with hsubject
          split at htoken
          · cases htoken
          · rename_i data hdata
            cases htoken
            exact ⟨data, rfl⟩

namespace Agent

/-- The row that a step of a call may write, and the pseudonymizers it may not start. -/
structure Writes (fernet : Fernet τ) (s s' : Agent τ) : Prop where
  started : ∀ tenantId, s.pseudonymizers tenantId = none → s'.pseudonymizers tenantId = none
  rows : s'.store.identityMap.rows = s.store.identityMap.rows ∨
    ∃ row : IdentityRow τ, s'.store.identityMap.rows = s.store.identityMap.rows ++ [row] ∧
      s.pseudonymizers row.tenantId ≠ none ∧
      ∃ nonce data, row.subjectCiphertext = fernet.encrypt nonce data

theorem writes_advance {s : Agent τ} {thread : ℕ} {call : PseudonymizeCall}
    {p : TenantPseudonymizer} (hp : s.pseudonymizers call.tenantId = some p) (uuid : Str)
    (nonce : ℕ) (now : Datetime) :
    Writes fernet s (s.advance fernet uuid nonce now thread call p) := by
  have hupdate : ∀ (q : TenantPseudonymizer) (tenantId : Str), s.pseudonymizers tenantId = none →
      Function.update s.pseudonymizers call.tenantId (some q) tenantId = none := by
    intro q tenantId hnone
    have hne : tenantId ≠ call.tenantId := by
      rintro rfl
      rw [hp] at hnone
      cases hnone
    rwa [Function.update_of_ne hne]
  unfold Agent.advance
  cases call.stage with
  | unlockedLookup =>
    dsimp only
    split
    · exact ⟨hupdate _, .inl rfl⟩
    · exact ⟨hupdate _, .inl rfl⟩
  | lock =>
    dsimp only
    split
    · exact ⟨fun _ h => h, .inl rfl⟩
    · exact ⟨hupdate _, .inl rfl⟩
  | secondLookup =>
    dsimp only
    split
    · exact ⟨hupdate _, .inl rfl⟩
    · exact ⟨hupdate _, .inl rfl⟩
  | mint =>
    dsimp only
    split
    · rename_i pseudonym store' hmint
      obtain ⟨row, hrows, htenant, data, htoken⟩ := token_of_mintPseudonym hmint
      refine ⟨hupdate _, .inr ⟨row, hrows, ?_, nonce, data, htoken⟩⟩
      rw [htenant, hp]
      exact Option.some_ne_none p
    · rename_i e store' hmint
      cases mintPseudonym_error hmint
      exact ⟨hupdate _, .inl rfl⟩
  | cache pseudonym => exact ⟨hupdate _, .inl rfl⟩
  | unlock result => exact ⟨hupdate _, .inl rfl⟩

theorem writes_step {next : AgentStep} (hnext : ∀ tenantId, next ≠ .start tenantId)
    (s : Agent τ) : Writes fernet s (s.step fernet next) := by
  cases next with
  | start tenantId => exact absurd rfl (hnext tenantId)
  | call thread tenantId subject =>
    unfold Agent.step
    dsimp only
    split_ifs
    · exact ⟨fun _ h => h, .inl rfl⟩
    · exact ⟨fun _ h => h, .inl rfl⟩
  | advance thread uuid nonce now =>
    unfold Agent.step
    dsimp only
    split
    · exact ⟨fun _ h => h, .inl rfl⟩
    · split
      · exact ⟨fun _ h => h, .inl rfl⟩
      · rename_i p hp
        exact writes_advance hp uuid nonce now
  | crash => exact ⟨fun _ _ => rfl, .inl rfl⟩

/-- A start leaves everything as it was, or loads the map of its tenant. -/
theorem start_cases (fernet : Fernet τ) (tenantId : Str) (s : Agent τ) :
    s.step fernet (.start tenantId) = s ∨ ∃ forward, tenantId ≠ [] ∧
      s.pseudonymizers tenantId = none ∧
      loadForwardMapInternal fernet tenantId s.store = .ok forward ∧
      s.step fernet (.start tenantId) = { s with
        pseudonymizers := Function.update s.pseudonymizers tenantId (some ⟨forward, none⟩) } := by
  unfold Agent.step
  dsimp only
  split_ifs with hempty
  · exact .inl rfl
  · split
    · exact .inl rfl
    · rename_i hnone
      split
      · exact .inl rfl
      · rename_i forward hload
        exact .inr ⟨forward, hempty, hnone, hload, rfl⟩

theorem Coherent.congr {other : Fernet τ} {s : Agent τ} (h : s.Coherent fernet)
    (hdecrypt : fernet.decrypt = other.decrypt) : s.Coherent other := by
  obtain ⟨encrypt, decrypt⟩ := fernet
  obtain ⟨encrypt', decrypt'⟩ := other
  cases hdecrypt
  exact ⟨⟨h.store.decrypts, h.store.one_row⟩, h.sound, h.complete, h.calls, h.returned⟩

end Agent

end

/-- What is in memory was loaded under the key that runs, and the rows of a tenant were all written
under one key. -/
structure Agent.Keyed (keys : FernetKeys κ τ) (running : Option κ) (s : Agent τ) : Prop where
  keyed : s.returned = [] ∨ Nonempty κ
  coherent : ∀ key, s.Coherent (keys.any key)
  made : ∀ row ∈ s.store.identityMap.rows, ∃ key, keys.Made key row
  awake : ∀ tenantId, s.pseudonymizers tenantId ≠ none → ∃ key, running = some key ∧
    ∀ row ∈ s.store.identityMap.rows, row.tenantId = tenantId → keys.Made key row
  one_key : ∀ row ∈ s.store.identityMap.rows, ∀ row' ∈ s.store.identityMap.rows,
    row.tenantId = row'.tenantId → ∃ key, keys.Made key row ∧ keys.Made key row'

namespace Agent.Keyed

variable {keys : FernetKeys κ τ} {key : κ} {s : Agent τ}

theorem init (running : Option κ) : (Agent.init : Agent τ).Keyed keys running where
  keyed := .inl rfl
  coherent := fun _ => coherent_init
  made := fun _ hrow => nomatch hrow
  awake := fun _ h => absurd rfl h
  one_key := fun _ hrow => nomatch hrow

theorem wake (h : s.Keyed keys none) (key : κ) : s.Keyed keys (some key) where
  keyed := h.keyed
  coherent := h.coherent
  made := h.made
  awake := by
    intro tenantId hne
    obtain ⟨_, hnone, -⟩ := h.awake tenantId hne
    cases hnone
  one_key := h.one_key

theorem crash {running : Option κ} (h : s.Keyed keys running) (fernet : Fernet τ) :
    (s.step fernet .crash).Keyed keys none where
  keyed := h.keyed
  coherent := fun key => (h.coherent key).crash
  made := h.made
  awake := fun _ hne => absurd rfl hne
  one_key := h.one_key

theorem start (hkeys : keys.Authentic) (h : s.Keyed keys (some key)) (tenantId : Str) :
    (s.step (keys.cipher key) (.start tenantId)).Keyed keys (some key) := by
  rcases Agent.start_cases (keys.cipher key) tenantId s with hsame |
    ⟨forward, -, hnone, hload, hstarted⟩
  · rw [hsame]
    exact h
  · obtain ⟨hrows, hany⟩ := hkeys.load h.made hload
    rw [hstarted]
    refine ⟨h.keyed, fun other => (h.coherent other).start hnone (hany other), h.made, ?_,
      h.one_key⟩
    intro tenantId' hne
    by_cases htenant : tenantId' = tenantId
    · subst htenant
      exact ⟨key, rfl, hrows⟩
    · exact h.awake tenantId' fun hnone' => hne ((Function.update_of_ne htenant _ _).trans hnone')

theorem step_any {next : AgentStep} (hnext : ∀ tenantId, next ≠ .start tenantId) :
    s.step (keys.cipher key) next = s.step (keys.any key) next := by
  cases next with
  | start tenantId => exact absurd rfl (hnext tenantId)
  | call thread tenantId subject => rfl
  | advance thread uuid nonce now => rfl
  | crash => rfl

/-- A row that is written joins rows of its tenant written under the key that runs. -/
theorem write (h : s.Keyed keys (some key)) {s' : Agent τ}
    (hcoherent : ∀ other, s'.Coherent (keys.any other))
    (hwrites : Agent.Writes (keys.cipher key) s s') : s'.Keyed keys (some key) := by
  have hstarted : ∀ tenantId, s'.pseudonymizers tenantId ≠ none →
      s.pseudonymizers tenantId ≠ none := fun tenantId hne hnone =>
    hne (hwrites.started tenantId hnone)
  have hmine : ∀ tenantId, s.pseudonymizers tenantId ≠ none →
      ∀ row ∈ s.store.identityMap.rows, row.tenantId = tenantId → keys.Made key row := by
    intro tenantId hne
    obtain ⟨key', hkey, hrows⟩ := h.awake tenantId hne
    cases hkey
    exact hrows
  rcases hwrites.rows with hrows | ⟨row, hrows, hrunning, nonce, data, htoken⟩
  · refine ⟨.inr ⟨key⟩, hcoherent, ?_, ?_, ?_⟩
    · rw [hrows]
      exact h.made
    · rw [hrows]
      exact fun tenantId hne => ⟨key, rfl, hmine tenantId (hstarted tenantId hne)⟩
    · rw [hrows]
      exact h.one_key
  · have hnew : keys.Made key row := ⟨nonce, data, htoken⟩
    refine ⟨.inr ⟨key⟩, hcoherent, ?_, ?_, ?_⟩
    · rw [hrows]
      exact List.forall_mem_append.mpr ⟨h.made, List.forall_mem_singleton.mpr ⟨key, hnew⟩⟩
    · rw [hrows]
      refine fun tenantId hne => ⟨key, rfl, List.forall_mem_append.mpr
        ⟨hmine tenantId (hstarted tenantId hne), List.forall_mem_singleton.mpr fun _ => hnew⟩⟩
    · rw [hrows]
      intro r hr r' hr' htenant
      have hold : ∀ r ∈ s.store.identityMap.rows, r.tenantId = row.tenantId → keys.Made key r :=
        hmine _ hrunning
      rcases List.mem_append.mp hr with hr | hr <;> rcases List.mem_append.mp hr' with hr' | hr'
      · exact h.one_key r hr r' hr' htenant
      · rw [List.mem_singleton.mp hr'] at htenant ⊢
        exact ⟨key, hold r hr htenant, hnew⟩
      · rw [List.mem_singleton.mp hr] at htenant ⊢
        exact ⟨key, hnew, hold r' hr' htenant.symm⟩
      · rw [List.mem_singleton.mp hr, List.mem_singleton.mp hr']
        exact ⟨key, hnew, hnew⟩

theorem work (hkeys : keys.Authentic) (h : s.Keyed keys (some key)) (next : AgentStep) :
    (s.step (keys.cipher key) next).Keyed keys (some key) := by
  by_cases hnext : ∀ tenantId, next ≠ .start tenantId
  · refine h.write (fun other => ?_) (Agent.writes_step hnext s)
    rw [step_any hnext]
    exact ((h.coherent key).step (hkeys.any_inverts key) next s).congr rfl
  · obtain ⟨tenantId, hstart⟩ := not_forall.mp hnext
    rw [not_not.mp hstart]
    exact h.start hkeys tenantId

end Agent.Keyed

/-- Steps of the installation keep to it, whatever becomes of the key file. -/
theorem Installation.keyed_step {keys : FernetKeys κ τ} (hkeys : keys.Authentic) (p : KeyPath)
    (next : InstallationStep) (s : Installation κ τ) (h : s.agent.Keyed keys s.running) :
    (s.step keys p next).agent.Keyed keys (s.step keys p next).running := by
  obtain ⟨files, running, agent⟩ := s
  cases next with
  | tamper files' => exact h
  | boot tenantId generated env =>
    cases running with
    | some key => exact h
    | none =>
      show ((Installation.mk files none agent).boot keys p tenantId generated env).agent.Keyed keys
        ((Installation.mk files none agent).boot keys p tenantId generated env).running
      unfold Installation.boot
      split
      · exact h
      · dsimp only
        split
        · exact h
        · rename_i key hkey
          split_ifs
          · exact (h.wake key).start hkeys tenantId
          · exact h
  | work next =>
    cases running with
    | some key => exact h.work hkeys next
    | none => exact h
  | stop =>
    cases running with
    | some key => exact h.crash (keys.cipher key)
    | none => exact h

namespace Installation

/-- However often the agent is started and stopped, and whatever happens to its key file in
between: the pseudonyms returned for one tenant and subject are equal and those for different pairs
are different, and a key that decrypts one row of a tenant decrypts them all. -/
theorem identities_survive {keys : FernetKeys κ τ} (hkeys : keys.Authentic) (p : KeyPath)
    (files : KeyFs) (steps : List InstallationStep) :
    let s := Transition.run (step keys p) steps (init files)
    (∀ r ∈ s.agent.returned, ∀ r' ∈ s.agent.returned,
      (r.tenantId = r'.tenantId ∧ r.subject = r'.subject) ↔ r.pseudonym = r'.pseudonym) ∧
    ∀ row ∈ s.agent.store.identityMap.rows, ∀ row' ∈ s.agent.store.identityMap.rows,
      row.tenantId = row'.tenantId → ∀ key subject,
        IdentityCipher.decrypt (keys.cipher key) row.subjectCiphertext = .ok subject →
        ∃ subject', IdentityCipher.decrypt (keys.cipher key) row'.subjectCiphertext =
          .ok subject' := by
  intro s
  have h : s.agent.Keyed keys s.running :=
    Transition.run_invariant (I := fun s : Installation κ τ => s.agent.Keyed keys s.running)
      (keyed_step hkeys p) steps (Agent.Keyed.init none)
  constructor
  · intro r hr r' hr'
    obtain ⟨key⟩ := h.keyed.resolve_left (List.ne_nil_of_mem hr)
    have hnamed := (h.coherent key).returned r hr
    have hnamed' := (h.coherent key).returned r' hr'
    constructor
    · rintro ⟨htenant, hsubject⟩
      rw [htenant, hsubject] at hnamed
      exact hnamed.unique (h.coherent key).store hnamed'
    · intro hpseudonym
      rw [hpseudonym] at hnamed
      exact hnamed.injective hnamed'
  · intro row hrow row' hrow' htenant key subject hsubject
    obtain ⟨maker, hmaker, hmaker'⟩ := h.one_key row hrow row' hrow' htenant
    obtain rfl := hkeys.eq_of_decrypt hmaker hsubject
    obtain ⟨subject', hsubject'⟩ := (h.coherent key).store.decrypts row' hrow'
    rw [hkeys.decrypt_any hmaker' key] at hsubject'
    exact ⟨subject', hsubject'⟩

/-- Tokens that carry their key. -/
def signedKeys : FernetKeys (List UInt8) (List UInt8 × ByteArray) where
  construct := .ok
  cipher := fun key =>
    { encrypt := fun _ data => (key, data)
      decrypt := fun token => if token.1 = key then some token.2 else none }

theorem authentic_signedKeys : signedKeys.Authentic where
  inverts := fun _ _ _ => if_pos rfl
  refuses := fun _ _ _ _ hne => if_neg hne

/-- A key is made, used, lost, made anew and brought back. -/
theorem identities_survive_loss :
    let lost : KeyFs := emptyDirectory 0o700
    let kept : KeyFs := ⟨lost.directory, some (createdKey 0 zeroKey)⟩
    let mint : List InstallationStep := .work (.call 0 (str "t") (str "u")) ::
      List.replicate 6 (.work (.advance 0 (str "0") 0 .epoch))
    let boot : List UInt8 → InstallationStep := fun generated =>
      .boot (str "t") generated calmKeyEnv
    let s := Transition.run (step signedKeys defaultPath)
      ([boot zeroKey] ++ mint ++ [.stop, .tamper lost, boot [66], .tamper kept, boot zeroKey] ++
        mint) (init lost)
    (∀ r ∈ s.agent.returned, ∀ r' ∈ s.agent.returned,
      (r.tenantId = r'.tenantId ∧ r.subject = r'.subject) ↔ r.pseudonym = r'.pseudonym) ∧
    ∀ row ∈ s.agent.store.identityMap.rows, ∀ row' ∈ s.agent.store.identityMap.rows,
      row.tenantId = row'.tenantId → ∀ key subject,
        IdentityCipher.decrypt (signedKeys.cipher key) row.subjectCiphertext = .ok subject →
        ∃ subject', IdentityCipher.decrypt (signedKeys.cipher key) row'.subjectCiphertext =
          .ok subject' :=
  identities_survive authentic_signedKeys _ _ _

end Installation

end Ebabf
