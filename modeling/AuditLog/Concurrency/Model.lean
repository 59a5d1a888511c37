import AuditLog.Library.Machine
import AuditLog.Services.RedactionService
import AuditLog.Services.RetentionService

/-!
# Concurrent sessions

`create_audit_event` and `redact_event_fields` as calls that interleave. A step
of a call is one statement or commit of its session; every step reads the rows
committed so far. The append lock is held from `lock_for_append` to the end of
the transaction, and a session may roll back between any two steps: an id that
its flush has drawn is gone then.

The steps are the functions that the sequential services are made of: a call that runs
alone is the call of the service (`Concurrency.Solo`). A step either rewrites rows in place or
commits the one row that the holder of the lock has staged (`Transition.effect`), and from this
come the invariants of every run:

* the lock discipline (`disciplined_of_reaches`) and the linear chain of all rows that were
  committed (`historyOk_of_reaches`);
* where each stored row comes from (`stored_of_reaches`), and what the calls of an idempotency
  key have been told (`bookkept_of_reaches`);
* a serial system that gives the same answers (`Concurrency.SerialAppends`);
* what becomes of redactions that overlap (`Concurrency.LostRedaction`), and what
  `verify_chain` finds while one is under way (`Concurrency.RedactionWindow`);
* what a session can raise (`Concurrency.SessionErrors`).

Left out: the SQL and the identity map of the ORM, row locks (two `UPDATE`s of a row are one
after the other), and failures of the database itself: what is committed stays. The ORM does
not write a payload that an `UPDATE` leaves as the session has read it; here it is written.
-/

namespace AuditLog

/-! ## Calls -/

/-- How far a call of `create_audit_event` has got. -/
inductive AppendPhase where
  | start
  | locked
  | unanswered
  | linking (previousHash : PyStr)
  | flushed (event : AuditEvent)
  | recorded (event : AuditEvent) (record : Option IdempotencyKey)
  | committed (event : AuditEvent)
  | ended (outcome : Except ServiceError AuditEvent)
deriving DecidableEq

/-- Between `lock_for_append` and the end of the transaction. -/
def AppendPhase.HoldsLock : AppendPhase → Prop
  | .start | .committed _ | .ended _ => False
  | .locked | .unanswered | .linking _ | .flushed _ | .recorded _ _ => True

/-- How far a call of `redact_event_fields` has got. `event` is the row as the call
read it, `updated` the row as it refreshed it. -/
inductive RedactPhase (settings : Settings) where
  | reading
  | redacting (event : AuditEvent)
  | refreshing (event : AuditEvent)
  | appending (event updated : AuditEvent) (body : AuditEventCreate settings) (phase : AppendPhase)
  | ended (outcome : Except ServiceError RedactionResult)
deriving DecidableEq

/-- The redaction after a step of its append. -/
def RedactPhase.afterAppend {settings : Settings} (sha256 : Bytes → PyStr) (req : RedactRequest)
    (event updated : AuditEvent) (body : AuditEventCreate settings) :
    AppendPhase → RedactPhase settings
  | .ended (.ok redactionEvent) =>
    let fields := fieldsToRedact event req.fields
    .ended (.ok ⟨updated, fields, redactedContentHash sha256 event fields, redactionEvent⟩)
  | .ended (.error err) => .ended (.error err)
  | phase => .appending event updated body phase

inductive Call (settings : Settings) where
  | create (req : CreateRequest settings) (phase : AppendPhase)
  | redact (req : RedactRequest) (phase : RedactPhase settings)
deriving DecidableEq

namespace Call

variable {settings : Settings}

/-- The append that the call is in, and how far it has got. -/
def append? : Call settings → Option (CreateRequest settings × AppendPhase)
  | .create req phase => some (req, phase)
  | .redact _ (.appending event _ body phase) =>
    some ({ eventIn := body, tenantId := event.tenantId }, phase)
  | .redact _ _ => none

/-- The call after a step of its append. -/
def resume (sha256 : Bytes → PyStr) (call : Call settings) (phase : AppendPhase) : Call settings :=
  match call with
  | .create req _ => .create req phase
  | .redact req (.appending event updated body _) =>
    .redact req (.afterAppend sha256 req event updated body phase)
  | call => call

/-- The call after its session has rolled back. -/
def raised (err : ServiceError) : Call settings → Call settings
  | .create req _ => .create req (.ended (.error err))
  | .redact req _ => .redact req (.ended (.error err))

/-- The call has returned or raised. -/
def isEnded : Call settings → Bool
  | .create _ (.ended _) => true
  | .redact _ (.ended _) => true
  | _ => false

end Call

/-! ## States -/

/-- An event as the call with index `call` committed it. -/
structure Appended where
  call : Nat
  event : AuditEvent
deriving DecidableEq

/-- The committed state, the holder of the append lock and every call made so
far. No call reads `log`: it keeps the events as they were committed. -/
structure World (settings : Settings) where
  db : Database
  lock : Option Nat := none
  calls : List (Call settings) := []
  log : List Appended := []
deriving DecidableEq

inductive Action (settings : Settings) where
  | startCreate (req : CreateRequest settings)
  | startRedact (req : RedactRequest)
  | advance (c : Nat) (now : DateTime)
  | rollback (c : Nat) (call : DbCall)
  | applyRetention (retentionWindowDays : Int) (now archiveNow : DateTime)
deriving DecidableEq

/-! ## Steps -/

/-- What a step of an append leaves behind. -/
structure AppendStep where
  db : Database
  lock : Option Nat
  phase : AppendPhase
  appended : Option AuditEvent := none

section Steps

variable (sha256 : Bytes → PyStr) {settings : Settings}

/-- One step of `create_audit_event` in the session of call `c`. -/
def stepAppend (db : Database) (lock : Option Nat) (c : Nat) (req : CreateRequest settings)
    (now : DateTime) : AppendPhase → Option AppendStep
  -- `pg_advisory_xact_lock` waits: there is no step while another session holds it.
  | .start => if lock = none then some { db, lock := some c, phase := .locked } else none
  -- A conflict or a replay ends the session, which gives the lock back.
  | .locked =>
    match replayOrConflict sha256 noFailure db req with
    | .error err => some { db, lock := none, phase := .ended (.error err) }
    | .ok (some replay) => some { db, lock := none, phase := .ended (.ok replay) }
    | .ok none => some { db, lock, phase := .unanswered }
  | .unanswered => some { db, lock, phase := .linking (Repo.lastHash db) }
  -- The flush draws the id, also where it then fails.
  | .linking previousHash =>
    match stageEvent sha256 noFailure db req previousHash now with
    | (.error err, db) => some { db, lock := none, phase := .ended (.error (.database err)) }
    | (.ok event, db) => some { db, lock, phase := .flushed event }
  | .flushed event =>
    match stageIdempotencyKey sha256 noFailure db req event with
    | .error err => some { db, lock := none, phase := .ended (.error (.database err)) }
    | .ok record => some { db, lock, phase := .recorded event record }
  -- The transaction ends here, and the lock with it.
  | .recorded event record =>
    match Repo.commitAppend noFailure db event record with
    | .error err => some { db, lock := none, phase := .ended (.error (.database err)) }
    | .ok db => some { db, lock := none, phase := .committed event, appended := some event }
  | .committed event =>
    match Repo.getEvent db event.id with
    | none => some { db, lock, phase := .ended (.error (.database (.driver .refresh))) }
    | some row => some { db, lock, phase := .ended (.ok row) }
  | .ended _ => none

/-- One step of `redact_event_fields` before its append. -/
def stepRedact (db : Database) (req : RedactRequest) :
    RedactPhase settings → Option (Database × RedactPhase settings)
  | .reading =>
    match Repo.getEvent db req.eventId with
    | none => some (db, .ended (.error (.eventNotFound req.eventId)))
    | some event =>
      if fieldsToRedact event req.fields = [] then
        some (db, .ended (.error (.noRedactableFields req.fields)))
      else some (db, .redacting event)
  -- The `UPDATE` writes what was computed from the row as the call read it.
  | .redacting event =>
    some (Repo.redactEventFields db req.eventId
      (redactionUpdate sha256 event (fieldsToRedact event req.fields) req.now), .refreshing event)
  | .refreshing event =>
    match Repo.getEvent db req.eventId with
    | none => some (db, .ended (.error (.database (.driver .refresh))))
    | some updated =>
      let fields := fieldsToRedact event req.fields
      -- A companion that the schema rejects leaves the committed payload behind.
      match companionBody settings req fields (redactedContentHash sha256 event fields) with
      | .error errors => some (db, .ended (.error (.validation errors)))
      | .ok body => some (db, .appending event updated body .start)
  | .appending _ _ _ _ => none
  | .ended _ => none

/-- One step of the whole system. -/
def step (action : Action settings) (w : World settings) : Option (World settings) :=
  match action with
  | .startCreate req => some { w with calls := w.calls ++ [.create req .start] }
  | .startRedact req => some { w with calls := w.calls ++ [.redact req .reading] }
  | .advance c now =>
    match w.calls[c]? with
    | none => none
    | some call =>
      match call.append? with
      | some (req, phase) =>
        (stepAppend sha256 w.db w.lock c req now phase).map fun s =>
          { db := s.db
            lock := s.lock
            calls := w.calls.set c (call.resume sha256 s.phase)
            log := w.log ++ s.appended.toList.map (⟨c, ·⟩) }
      | none =>
        match call with
        | .create _ _ => none
        | .redact req phase =>
          (stepRedact sha256 w.db req phase).map fun s =>
            { w with db := s.1, calls := w.calls.set c (.redact req s.2) }
  | .rollback c call =>
    match w.calls[c]? with
    | none => none
    | some running =>
      if running.isEnded then none
      else
        -- What is staged goes with the session; a drawn id and a committed payload stay.
        some { w with
          lock := if w.lock = some c then none else w.lock
          calls := w.calls.set c (running.raised (.database (.driver call))) }
  | .applyRetention days now archiveNow =>
    some { w with db := (applyRetention w.db days now archiveNow).2 }

end Steps

end AuditLog
