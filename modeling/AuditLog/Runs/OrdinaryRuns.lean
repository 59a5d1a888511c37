import AuditLog.Verification.Preservation

/-!
# Ordinary runs

Sequential runs from the empty tables: events of any type but the redaction
type, redactions of ordinary events, retention; each call returns or raises one
of the errors its service declares. No such run makes `verify_chain` complain.
-/

namespace AuditLog

/-- The call returned, or raised an error its service declares. -/
def ReturnsOrDeclares {α : Type} (r : Except ServiceError α) : Prop :=
  ∀ err, r = .error err → err.Declared

inductive OrdinaryRun (sha256 : Bytes → PyStr) (settings : Settings) : Database → Prop where
  | empty : OrdinaryRun sha256 settings .empty
  | create {db db' : Database} {fails : Failures} {req : CreateRequest settings} {now : DateTime}
      {r : Except ServiceError AuditEvent} (run : OrdinaryRun sha256 settings db)
      (ordinary : req.eventIn.eventType ≠ REDACTION_EVENT_TYPE)
      (call : createAuditEvent sha256 fails db req now = (r, db')) (outcome : ReturnsOrDeclares r) :
      OrdinaryRun sha256 settings db'
  | redact {db db' : Database} {payloadFails companionFails : Failures} {req : RedactRequest}
      {companionNow : DateTime} {r : Except ServiceError RedactionResult}
      (run : OrdinaryRun sha256 settings db)
      (ordinary : ∀ event, Repo.getEvent db req.eventId = some event →
        event.eventType ≠ REDACTION_EVENT_TYPE)
      (call : redactEventFields sha256 settings payloadFails companionFails db req companionNow =
        (r, db'))
      (outcome : ReturnsOrDeclares r) :
      OrdinaryRun sha256 settings db'
  | retention {db db' : Database} {days : Int} {now archiveNow : DateTime}
      {r : Option RetentionResult} (run : OrdinaryRun sha256 settings db)
      (call : applyRetention db days now archiveNow = (r, db')) :
      OrdinaryRun sha256 settings db'

variable {sha256 : Bytes → PyStr} {settings : Settings}

/-- A redaction of an ordinary event that does not stop half-way keeps it intact. -/
theorem chainOk_redactEventFields {payloadFails companionFails : Failures} {db db' : Database}
    {req : RedactRequest} {companionNow : DateTime} {r : Except ServiceError RedactionResult}
    (hok : ChainOk sha256 db.auditEvents)
    (hordinary : ∀ event, Repo.getEvent db req.eventId = some event →
      event.eventType ≠ REDACTION_EVENT_TYPE)
    (hcall : redactEventFields sha256 settings payloadFails companionFails db req companionNow =
      (r, db'))
    (houtcome : ReturnsOrDeclares r) : ChainOk sha256 db'.auditEvents := by
  rcases redactEventFields_cases hcall with
    ⟨rfl, -⟩ | ⟨event, hredacts, ⟨-, err, hr, hdeclared⟩ | ⟨body, hbody, hrows, -⟩⟩
  · exact hok
  · -- It stopped half-way, with an error that no service declares.
    exact absurd (houtcome err hr) hdeclared
  · rw [hrows]
    exact chainOk_redaction hok hredacts.found (hordinary event hredacts.found)
      (isCompanionFor_appendedEvent hbody event.tenantId companionNow _)
      (appendedEvent_linked _ _ companionNow)

/-- The run lemma: every state of an ordinary run is an intact chain. -/
theorem OrdinaryRun.chainOk {db : Database} (run : OrdinaryRun sha256 settings db) :
    ChainOk sha256 db.auditEvents := by
  induction run with
  | empty => exact ⟨by simp [Database.empty], by simp [Database.empty], trivial⟩
  | create run ordinary call outcome ih => exact chainOk_createAuditEvent ih ordinary call
  | redact run ordinary call outcome ih => exact chainOk_redactEventFields ih ordinary call outcome
  | retention run call ih => exact (chainOk_applyRetention call).mpr ih

/-- **No false alarm over ordinary runs.** -/
theorem verifyChain_of_ordinaryRun {db : Database} (run : OrdinaryRun sha256 settings db) :
    verifyChain sha256 db = .ok ⟨true, db.auditEvents.length, none⟩ :=
  verifyChain_of_chainOk run.chainOk

theorem returnsOrDeclares_of_isOk {α : Type} {r : Except ServiceError α} (h : r.isOk = true) :
    ReturnsOrDeclares r := by
  intro err hr
  rw [hr] at h
  cases h

/-- Creating an event and redacting it is an ordinary run. -/
theorem ordinaryRun_redactedTable : OrdinaryRun Sha256.hexdigest {} redactedTable := by
  have hcreated : createAuditEvent Sha256.hexdigest noFailure .empty (createRequest .sample) .sample =
      (.ok (appendedEvent Sha256.hexdigest .empty (createRequest .sample) .sample), createdTable) := rfl
  have hcreate : OrdinaryRun Sha256.hexdigest {} createdTable :=
    OrdinaryRun.empty.create (by decide) hcreated (returnsOrDeclares_of_isOk rfl)
  obtain ⟨result, hredacted⟩ := redactEventFields_createdTable
  exact hcreate.redact (fun _ => eventType_of_createdTable) hredacted (returnsOrDeclares_of_isOk rfl)

theorem verifyChain_of_ordinaryRun_redacted :
    verifyChain Sha256.hexdigest redactedTable =
      .ok ⟨true, redactedTable.auditEvents.length, none⟩ :=
  verifyChain_of_ordinaryRun ordinaryRun_redactedTable

end AuditLog
