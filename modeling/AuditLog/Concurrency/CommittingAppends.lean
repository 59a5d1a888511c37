import AuditLog.Concurrency.Idempotency
import AuditLog.Concurrency.StoredRows

/-!
# Appends about to be committed

A session holds the append lock until it commits, so what it has found is still so then. One
uninterrupted `create_audit_event` at the moment of the commit, or of the lookup that answers a
repeated request, finds the same rows, writes the same row and gives the same answer
(`createAuditEvent_of_recorded`, `createAuditEvent_of_lookup`).
-/

namespace AuditLog

variable {sha256 : Bytes → PyStr} {settings : Settings}

/-! ## A row about to be committed -/

variable {w w' : World settings} {action : Action settings}

/-- No committed row has the hash of a row that an append has staged. -/
def FreshHashes (w : World settings) : Prop :=
  ∀ c req phase event, w.Appending c req phase → phase.staged? = some event →
    ∀ e ∈ w.db.auditEvents, e.eventHash ≠ event.eventHash

/-- A row is staged under the lock. -/
theorem AppendPhase.holdsLock_of_staged {phase : AppendPhase} {event : AuditEvent}
    (h : phase.staged? = some event) : phase.HoldsLock := by
  cases phase with
  | flushed event => trivial
  | recorded event record => trivial
  | _ => cases h

/-- What an append stages has been checked against the rows. -/
theorem AppendMove.freshHash {db : Database} {lock : Option Nat} {c : Nat}
    {req : CreateRequest settings} {phase : AppendPhase} {s : AppendStep}
    (h : AppendMove sha256 db lock c req phase s)
    (hphase : ∀ event, phase.staged? = some event → ∀ e ∈ db.auditEvents, e.eventHash ≠ event.eventHash)
    {event : AuditEvent} (hstaged : s.phase.staged? = some event) :
    ∀ e ∈ s.db.auditEvents, e.eventHash ≠ event.eventHash := by
  cases h with
  | flush hstage =>
    cases hstaged
    obtain ⟨rfl, ⟨err, herr⟩ | ⟨hok, hfresh⟩⟩ := Repo.insertEvent_cases hstage
    · cases herr
    · cases hok
      exact hfresh
  | record hrecord => exact hphase event hstaged
  | _ => cases hstaged

/-- Rewriting rows changes no hash. -/
theorem FreshHashes.of_rewritten (h : FreshHashes w) (hre : Rewritten w.db w'.db)
    (hcalls : ∀ {c req phase}, w'.Appending c req phase → phase.HoldsLock → w.Appending c req phase) :
    FreshHashes w' := by
  intro c req phase event happending hstaged e he
  obtain ⟨a, ha, hae⟩ := HashChain.exists_of_forall₂_right hre.rows he
  rw [hae.eventHash]
  exact h c req phase event (hcalls happending (AppendPhase.holdsLock_of_staged hstaged)) hstaged a ha

/-- A step keeps staged hashes fresh: only the holder of the lock commits. -/
theorem FreshHashes.step (h : FreshHashes w) (hd : Disciplined sha256 w)
    (hstep : Transition sha256 w action w') : FreshHashes w' := by
  cases hstep with
  | create req =>
    refine h.of_rewritten (.refl w.db) fun happending hholds => ?_
    rcases appending_of_concat rfl (fun _ _ h => by cases h; rfl) happending with rfl | hw
    · exact hholds.elim
    · exact hw
  | redact req =>
    refine h.of_rewritten (.refl w.db) fun happending hholds => ?_
    rcases appending_of_concat rfl (fun _ _ h => by cases h) happending with rfl | hw
    · exact hholds.elim
    · exact hw
  | @append c now call req phase s hcall happend hmove =>
    have hown : w.Appending c req phase := ⟨call, hcall, happend⟩
    intro d req' phase' event happending hstaged
    rcases appending_of_set hcall rfl happending with ⟨rfl, hresume⟩ | ⟨hne, hw⟩
    · obtain ⟨rfl, rfl⟩ := Call.append?_resume happend hresume
      exact hmove.freshHash (fun event hs => h _ _ _ event hown hs) hstaged
    · -- The other call holds the lock, so nothing is committed in this step.
      have hlock := hd.lock hw (AppendPhase.holdsLock_of_staged hstaged)
      rcases hmove.effect (hd.phase hown) with ⟨hrows, -⟩ | ⟨row, record, rfl, -⟩
      · rw [hrows]
        exact h d req' phase' event hw hstaged
      · rw [hd.lock hown trivial] at hlock
        exact absurd (Option.some.inj hlock).symm hne
  | redaction hcall hmove =>
    refine h.of_rewritten hmove.rewritten fun happending hholds => ?_
    rcases appending_of_set hcall rfl happending with ⟨rfl, hnew⟩ | ⟨-, hw⟩
    · rw [hmove.append?_eq_start hnew] at hholds
      exact hholds.elim
    · exact hw
  | rollback statement hcall hrunning =>
    refine h.of_rewritten (.refl w.db) fun happending hholds => ?_
    rcases appending_of_set hcall rfl happending with ⟨rfl, hnew⟩ | ⟨-, hw⟩
    · rw [Call.append?_raised hnew] at hholds
      exact hholds.elim
    · exact hw
  | retention days now archiveNow =>
    exact h.of_rewritten (.applyRetention w.db days now archiveNow) fun happending _ => happending

theorem freshHashes_of_reaches {ok : World settings → Action settings → Prop}
    (h : Machine.Reaches (AuditLog.step sha256) ok (.init .empty) w) : FreshHashes w :=
  h.invariant (fun _ _ _ _ ⟨_, hcall, _⟩ => by cases hcall) fun _ _ _ run _ hstep hf =>
    hf.step (disciplined_of_reaches run) (step_cases hstep)

/-! ## The serial call -/

section SerialCall

variable {db : Database} {req : CreateRequest settings}

/-- The lookup finds nothing for an unused key. -/
theorem replayOrConflict_of_unused (h : Unused db.idempotencyKeys req) :
    replayOrConflict sha256 noFailure db req = .ok none := by
  unfold replayOrConflict
  cases hkey : req.idempotencyKey with
  | none => rfl
  | some key =>
    simp only [noFailure, Bool.false_eq_true, if_false]
    cases hfound : Repo.getIdempotencyRecord db req.requestedBy key with
    | none => rfl
    | some r =>
      obtain ⟨hr, hused⟩ := getIdempotencyRecord_eq_some hkey hfound
      exact absurd hused (h r hr)

/-- The idempotency row of a request with an unused key can be staged. -/
theorem stageIdempotencyKey_of_unused {event : AuditEvent} (h : Unused db.idempotencyKeys req)
    (huser : req.idempotencyKey ≠ none → recordFor sha256 req event ≠ none) :
    stageIdempotencyKey sha256 noFailure db req event = .ok (recordFor sha256 req event) := by
  unfold stageIdempotencyKey Repo.recordIdempotencyKey
  unfold recordFor CreateRequest.key? at huser ⊢
  cases hkey : req.idempotencyKey with
  | none => cases req.requestedBy <;> rfl
  | some key =>
    cases hrequested : req.requestedBy with
    | none =>
      rw [hkey, hrequested] at huser
      exact absurd rfl (huser (Option.some_ne_none key))
    | some username =>
      simp only [noFailure, Bool.false_eq_true, if_false]
      cases hfound : Repo.getIdempotencyRecord db (some username) key with
      | none => rfl
      | some r =>
        rw [← hrequested] at hfound
        obtain ⟨hr, hused⟩ := getIdempotencyRecord_eq_some hkey hfound
        exact absurd hused (h r hr)

/-- A request with an unused key, for a row whose hash is new, is appended. -/
theorem createAuditEvent_of_unused {now : DateTime} (hunused : Unused db.idempotencyKeys req)
    (huser : req.idempotencyKey ≠ none →
      recordFor sha256 req (appendedEvent sha256 db req now) ≠ none)
    (hfresh : ∀ e ∈ db.auditEvents, e.eventHash ≠ (appendedEvent sha256 db req now).eventHash) :
    ∃ db', createAuditEvent sha256 noFailure db req now =
        (.ok (appendedEvent sha256 db req now), db') ∧
      db'.auditEvents = db.auditEvents ++ [appendedEvent sha256 db req now] ∧
      db'.idempotencyKeys = db.idempotencyKeys ++
        (recordFor sha256 req (appendedEvent sha256 db req now)).toList := by
  have hstage : stageEvent sha256 noFailure db req (Repo.lastHash db) now =
      (.ok (appendedEvent sha256 db req now), db.drawEventId) := by
    unfold stageEvent Repo.insertEvent
    simp only [noFailure, Bool.false_eq_true, if_false]
    rw [if_neg]
    · rfl
    · rintro ⟨e, he, heq⟩
      exact hfresh e he heq
  have hrecord : stageIdempotencyKey sha256 noFailure db.drawEventId req
      (appendedEvent sha256 db req now) = .ok (recordFor sha256 req (appendedEvent sha256 db req now)) :=
    stageIdempotencyKey_of_unused hunused huser
  have hlast : ∀ e ∈ db.drawEventId.auditEvents, e.id < (appendedEvent sha256 db req now).id :=
    fun e he => db.sequenceAhead e he
  have hdrawn : (appendedEvent sha256 db req now).id < db.drawEventId.nextEventId := by
    show db.nextEventId < db.nextEventId + 1
    omega
  obtain ⟨db', hcommit⟩ : ∃ db', Repo.commitAppend noFailure db.drawEventId
      (appendedEvent sha256 db req now) (recordFor sha256 req (appendedEvent sha256 db req now)) =
        .ok db' := Repo.commitAppend_ok _ rfl hdrawn hlast
  refine ⟨db', ?_, (Repo.commitAppend_cases hlast hcommit).1, (Repo.commitAppend_cases hlast hcommit).2.1⟩
  unfold createAuditEvent
  rw [replayOrConflict_of_unused hunused, hstage]
  dsimp only
  rw [hrecord]
  dsimp only
  rw [hcommit]
  rfl

end SerialCall

/-- What is staged is the row that the serial call would append to the same rows. -/
theorem Staged.eq_appendedEvent {req : CreateRequest settings} {event : AuditEvent} {db db' : Database}
    (h : Staged sha256 db req event) (hpristine : event.Pristine)
    (hrows : db'.auditEvents = db.auditEvents) (hnext : db'.nextEventId = event.id) :
    appendedEvent sha256 db' req event.timestamp = event := by
  have hlast : Repo.lastHash db' = Repo.lastHash db := by
    unfold Repo.lastHash Repo.getLastEvent
    rw [hrows]
  have hhash : computeEventHash sha256 event.toEventContent = event.eventHash := h.hash.symm
  unfold appendedEvent
  dsimp only
  rw [hlast, ← h.content, hhash, hnext]
  exact hpristine.symm

/-- **The serial call at the moment of the commit** finds what the session has found, writes
what it has staged and gives its answer. -/
theorem createAuditEvent_of_recorded {req : CreateRequest settings} {event : AuditEvent}
    {record : Option IdempotencyKey} {db db' : Database} (hstaged : Staged sha256 w.db req event)
    (hpristine : event.Pristine) (hfresh : ∀ e ∈ w.db.auditEvents, e.eventHash ≠ event.eventHash)
    (hfree : KeyFree sha256 w.db.idempotencyKeys req (.recorded event record))
    (hrows : db.auditEvents = w.db.auditEvents) (hkeys : db.idempotencyKeys = w.db.idempotencyKeys)
    (hnext : db.nextEventId = event.id)
    (hcommit : Repo.commitAppend noFailure w.db event record = .ok db') :
    ∃ db₁, createAuditEvent sha256 noFailure db req event.timestamp = (.ok event, db₁) ∧
      db₁.auditEvents = db'.auditEvents ∧ db₁.idempotencyKeys = db'.idempotencyKeys := by
  obtain ⟨hunused, hrecord, huser⟩ := hfree
  have hevent := hstaged.eq_appendedEvent hpristine hrows hnext
  obtain ⟨hrows', hkeys', -⟩ := Repo.commitAppend_cases hstaged.last hcommit
  have hunused' : Unused db.idempotencyKeys req := by
    rw [hkeys]
    exact hunused
  have huser' : req.idempotencyKey ≠ none →
      recordFor sha256 req (appendedEvent sha256 db req event.timestamp) ≠ none := by
    rw [hevent, ← hrecord]
    exact huser
  have hfresh' : ∀ e ∈ db.auditEvents,
      e.eventHash ≠ (appendedEvent sha256 db req event.timestamp).eventHash := by
    rw [hevent, hrows]
    exact hfresh
  obtain ⟨db₁, hcall, hrows₁, hkeys₁⟩ := createAuditEvent_of_unused hunused' huser' hfresh'
  rw [hevent] at hcall hrows₁ hkeys₁
  refine ⟨db₁, hcall, ?_, ?_⟩
  · rw [hrows₁, hrows, hrows']
  · rw [hkeys₁, hkeys, hkeys', hrecord]

/-- The lookup reads the two tables alone. -/
theorem replayOrConflict_congr {db db' : Database} {req : CreateRequest settings}
    (hrows : db'.auditEvents = db.auditEvents) (hkeys : db'.idempotencyKeys = db.idempotencyKeys) :
    replayOrConflict sha256 noFailure db' req = replayOrConflict sha256 noFailure db req := by
  unfold replayOrConflict Repo.getIdempotencyRecord Repo.getEvent
  rw [hrows, hkeys]

/-- What the lookup raises is what the service declares. -/
theorem declared_of_replayOrConflict {db : Database} {req : CreateRequest settings}
    {err : ServiceError} (h : replayOrConflict sha256 noFailure db req = .error err) :
    err.Declared := by
  unfold replayOrConflict at h
  simp only [noFailure, Bool.false_eq_true, if_false] at h
  split at h
  · cases h
  · split at h
    · cases h
    · split at h
      · cases h
        trivial
      · cases h

/-- What the lookup answers is what the serial call answers. -/
theorem createAuditEvent_of_lookup {db : Database} {req : CreateRequest settings} {now : DateTime}
    {outcome : Except ServiceError AuditEvent}
    (h : (∃ err, replayOrConflict sha256 noFailure db req = .error err ∧ outcome = .error err) ∨
      ∃ row, replayOrConflict sha256 noFailure db req = .ok (some row) ∧ outcome = .ok row) :
    createAuditEvent sha256 noFailure db req now = (outcome, db) := by
  unfold createAuditEvent
  rcases h with ⟨err, hlookup, rfl⟩ | ⟨row, hlookup, rfl⟩
  · rw [hlookup]
    rfl
  · rw [hlookup]
    rfl

end AuditLog
