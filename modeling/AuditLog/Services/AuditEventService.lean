import AuditLog.Repository
import AuditLog.Schemas

/-!
# `audit_event_service`

`create_audit_event` as one transaction. The steps are functions of their own
(`replayOrConflict`, `stageEvent`, `stageIdempotencyKey`, `Repo.commitAppend`),
so that the concurrent model can interleave exactly these steps.
-/

namespace AuditLog

/-! ## Errors -/

/-- What the services raise. -/
inductive ServiceError where
  | idempotencyKeyConflict (idempotencyKey : PyStr)
  | eventNotFound (eventId : Int)
  | noRedactableFields (fields : List PyStr)
  | validation (errors : List FieldError)
  | database (error : DbError)
deriving DecidableEq

/-- The exceptions a service declares itself. -/
def ServiceError.Declared : ServiceError → Prop
  | .idempotencyKeyConflict _ => True
  | .eventNotFound _ => True
  | .noRedactableFields _ => True
  | .validation _ => False
  | .database _ => False

instance : DecidablePred ServiceError.Declared := fun e => by
  cases e <;> unfold ServiceError.Declared <;> infer_instance

/-- `str(exc)` of the declared exceptions. -/
def ServiceError.message : ServiceError → Option FString
  | .idempotencyKeyConflict key =>
    some [.text "Idempotency key ", .repr key,
      .text " was already used with different request content"]
  | .eventNotFound eventId => some [.text "Audit event ", .int eventId, .text " not found"]
  | .noRedactableFields fields =>
    some [.text "None of ", .reprList fields, .text " are present, redactable payload fields"]
  | .validation _ => none
  | .database _ => none

/-! ## Requests -/

/-- The arguments of `create_audit_event`. -/
structure CreateRequest (settings : Settings) where
  eventIn : AuditEventCreate settings
  tenantId : PyStr
  idempotencyKey : Option PyStr := none
  requestedBy : Option PyStr := none
deriving DecidableEq

namespace CreateRequest

variable {settings : Settings}

def content (req : CreateRequest settings) : RequestContent where
  tenantId := req.tenantId
  eventType := req.eventIn.eventType
  actorId := req.eventIn.actorId
  resourceType := req.eventIn.resourceType
  resourceId := req.eventIn.resourceId
  payload := req.eventIn.payload

/-- The content of the event to append. -/
def eventContent (req : CreateRequest settings) (timestamp : DateTime) (previousHash : PyStr) :
    EventContent where
  toRequestContent := req.content
  timestamp := timestamp
  previousHash := previousHash

end CreateRequest

/-! ## The steps -/

section Steps

variable (sha256 : Bytes → PyStr) {settings : Settings}

/-- The idempotency lookup of `create_audit_event` (`_replay_or_conflict`): the
event to replay, if any. Without a key there is nothing to look up. -/
def replayOrConflict (fails : Failures) (db : Database) (req : CreateRequest settings) :
    Except ServiceError (Option AuditEvent) :=
  match req.idempotencyKey with
  | none => .ok none
  | some key =>
    if fails .getIdempotencyRecord then .error (.database (.driver .getIdempotencyRecord))
    else
      match Repo.getIdempotencyRecord db req.requestedBy key with
      | none => .ok none
      | some existing =>
        if existing.requestFingerprint ≠ computeRequestFingerprint sha256 req.content then
          .error (.idempotencyKeyConflict key)
        else if fails .getEvent then .error (.database (.driver .getEvent))
        else .ok (Repo.getEvent db existing.eventId)

/-- Compute the new row's hash and flush it. -/
def stageEvent (fails : Failures) (db : Database) (req : CreateRequest settings)
    (previousHash : PyStr) (timestamp : DateTime) : Except DbError AuditEvent × Database :=
  let content := req.eventContent timestamp previousHash
  Repo.insertEvent fails db content (computeEventHash sha256 content)

/-- Stage the idempotency row, when there is a key. -/
def stageIdempotencyKey (fails : Failures) (db : Database) (req : CreateRequest settings)
    (event : AuditEvent) : Except DbError (Option IdempotencyKey) :=
  match req.idempotencyKey with
  | none => .ok none
  | some key =>
    match Repo.recordIdempotencyKey fails db req.requestedBy key
        (computeRequestFingerprint sha256 req.content) event.id event.timestamp with
    | .error err => .error err
    | .ok record => .ok (some record)

/-- `create_audit_event`. An exception ends the session, which rolls back. -/
def createAuditEvent (fails : Failures) (db : Database) (req : CreateRequest settings)
    (now : DateTime) : Except ServiceError AuditEvent × Database :=
  if fails .lockForAppend then (.error (.database (.driver .lockForAppend)), db)
  else
    -- The lookup runs under the lock: a retry sees the outcome of the request it repeats.
    match replayOrConflict sha256 fails db req with
    | .error err => (.error err, db)
    | .ok (some replay) => (.ok replay, db)
    | .ok none =>
      if fails .getLastEvent then (.error (.database (.driver .getLastEvent)), db)
      else
        match stageEvent sha256 fails db req (Repo.lastHash db) now with
        | (.error err, db) => (.error (.database err), db)
        | (.ok event, db) =>
          -- Both rows are staged; nothing is visible before the one commit.
          match stageIdempotencyKey sha256 fails db req event with
          | .error err => (.error (.database err), db)
          | .ok record =>
            match Repo.commitAppend fails db event record with
            | .error err => (.error (.database err), db)
            | .ok db =>
              -- An error from here on reports a failure of an append that took place.
              if fails .refresh then (.error (.database (.driver .refresh)), db)
              else (.ok event, db)

/-! ## What the steps do -/

/-- The row `create_audit_event` appends to a committed state. -/
def appendedEvent (db : Database) (req : CreateRequest settings) (now : DateTime) : AuditEvent :=
  let content := req.eventContent now (Repo.lastHash db)
  { toEventContent := content, id := db.nextEventId, eventHash := computeEventHash sha256 content }

variable {sha256}

/-- A replay is a committed event, and needs a key. -/
theorem replayOrConflict_ok {fails : Failures} {db : Database} {req : CreateRequest settings}
    {event : AuditEvent} (h : replayOrConflict sha256 fails db req = .ok (some event)) :
    event ∈ db.auditEvents ∧ req.idempotencyKey ≠ none := by
  unfold replayOrConflict at h
  split at h
  · cases h
  · rename_i key hkey
    refine ⟨?_, by rw [hkey]; exact Option.some_ne_none key⟩
    split at h
    · cases h
    · split at h
      · cases h
      · split at h
        · cases h
        · split at h
          · cases h
          · exact ((Repo.getEvent_eq_some_iff db _ event).mp (Except.ok.inj h)).1

/-- Without a key the lookup raises nothing at all. -/
theorem replayOrConflict_error {fails : Failures} {db : Database} {req : CreateRequest settings}
    {err : ServiceError} (h : replayOrConflict sha256 fails db req = .error err) :
    req.idempotencyKey ≠ none := by
  intro hkey
  unfold replayOrConflict at h
  rw [hkey] at h
  cases h

theorem stageEvent_cases {fails : Failures} {db db' : Database} {req : CreateRequest settings}
    {now : DateTime} {r : Except DbError AuditEvent}
    (h : stageEvent sha256 fails db req (Repo.lastHash db) now = (r, db')) :
    db' = db.drawEventId ∧
      ((∃ err, r = .error err) ∨ r = .ok (appendedEvent sha256 db req now)) := by
  rcases Repo.insertEvent_cases h with ⟨hdb, herr | ⟨hok, -⟩⟩
  · exact ⟨hdb, Or.inl herr⟩
  · exact ⟨hdb, Or.inr hok⟩

/-- **What a call of `create_audit_event` can do.** It leaves the events as they
were and raises or replays one of them, or it appends exactly one row and
returns it (or raises on the way back). -/
theorem createAuditEvent_cases {fails : Failures} {db db' : Database}
    {req : CreateRequest settings} {now : DateTime} {r : Except ServiceError AuditEvent}
    (h : createAuditEvent sha256 fails db req now = (r, db')) :
    (db'.auditEvents = db.auditEvents ∧
        ((∃ err, r = .error err ∧ (err.Declared → req.idempotencyKey ≠ none)) ∨
          req.idempotencyKey ≠ none ∧ ∃ replay ∈ db.auditEvents, r = .ok replay)) ∨
      (db'.auditEvents = db.auditEvents ++ [appendedEvent sha256 db req now] ∧
        (r = .ok (appendedEvent sha256 db req now) ∨
          r = .error (.database (.driver .refresh)))) := by
  unfold createAuditEvent at h
  split at h
  · cases h
    exact Or.inl ⟨rfl, Or.inl ⟨_, rfl, False.elim⟩⟩
  · split at h
    · rename_i err hreplay
      cases h
      exact Or.inl ⟨rfl, Or.inl ⟨_, rfl, fun _ => replayOrConflict_error hreplay⟩⟩
    · rename_i replay hreplay
      cases h
      rcases replayOrConflict_ok hreplay with ⟨hmem, hkey⟩
      exact Or.inl ⟨rfl, Or.inr ⟨hkey, replay, hmem, rfl⟩⟩
    · split at h
      · cases h
        exact Or.inl ⟨rfl, Or.inl ⟨_, rfl, False.elim⟩⟩
      · split at h
        · rename_i hstage
          cases h
          rcases stageEvent_cases hstage with ⟨rfl, -⟩
          exact Or.inl ⟨rfl, Or.inl ⟨_, rfl, False.elim⟩⟩
        · rename_i event staged hstage
          rcases stageEvent_cases hstage with ⟨rfl, ⟨err, herr⟩ | hok⟩
          · cases herr
          · cases hok
            split at h
            · cases h
              exact Or.inl ⟨rfl, Or.inl ⟨_, rfl, False.elim⟩⟩
            · split at h
              · cases h
                exact Or.inl ⟨rfl, Or.inl ⟨_, rfl, False.elim⟩⟩
              · rename_i hcommit
                have hlast : ∀ e ∈ db.drawEventId.auditEvents,
                    e.id < (appendedEvent sha256 db req now).id :=
                  fun e he => db.sequenceAhead e he
                have hrows := (Repo.commitAppend_cases hlast hcommit).1
                -- Committed: what is left to happen is the refresh.
                right
                split at h
                · cases h
                  exact ⟨hrows, Or.inr rfl⟩
                · cases h
                  exact ⟨hrows, Or.inl rfl⟩

end Steps

end AuditLog
