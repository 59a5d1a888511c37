import AuditLog.Verification.Preservation

/-!
# Redactions that fail, and redactions of companions

`redact_event_fields` commits the tombstone before it builds the companion, and
companions are rows like any other. The two results of this file say exactly
when a call that raises leaves a trace, and exactly when redacting a companion
leaves the chain intact.
-/

namespace AuditLog

variable {sha256 : Bytes → PyStr} {settings : Settings}

/-! ## Calls that raise -/

/-- What makes an append without an idempotency key raise: a failing call, or a
digest that is in the table already. -/
def AppendFails (sha256 : Bytes → PyStr) (fails : Failures) (db : Database)
    (req : CreateRequest settings) (now : DateTime) : Prop :=
  fails .lockForAppend ∨ fails .getLastEvent ∨ fails .insertEvent ∨
    (∃ e ∈ db.auditEvents,
      e.eventHash = computeEventHash sha256 (req.eventContent now (Repo.lastHash db))) ∨
    fails .commit ∨ fails .refresh

theorem createAuditEvent_raises_iff {fails : Failures} {db : Database}
    {req : CreateRequest settings} {now : DateTime} (hkey : req.idempotencyKey = none) :
    (∃ err, (createAuditEvent sha256 fails db req now).1 = .error err) ↔
      AppendFails sha256 fails db req now := by
  -- The flushed row has the id just drawn, so its commit can only fail with the driver.
  have hcommit : ∀ event : AuditEvent, event.id = db.nextEventId →
      fails .commit = false →
      ∃ db', Repo.commitAppend fails db.drawEventId event none = .ok db' := by
    intro event hid hfails
    refine Repo.commitAppend_ok none hfails ?_ ?_
    · rw [hid]
      exact Int.lt_succ db.nextEventId
    · intro e he
      rw [hid]
      exact db.sequenceAhead e he
  unfold AppendFails createAuditEvent replayOrConflict stageEvent stageIdempotencyKey Repo.insertEvent
  rw [hkey]
  cases hlock : fails .lockForAppend
  · cases hlast : fails .getLastEvent
    · cases hinsert : fails .insertEvent
      · by_cases hdup : ∃ e ∈ db.auditEvents,
            e.eventHash = computeEventHash sha256 (req.eventContent now (Repo.lastHash db))
        · simp [hdup]
        · cases hfails : fails .commit
          · rcases hcommit (appendedEvent sha256 db req now) rfl hfails with ⟨db', hdb'⟩
            unfold appendedEvent at hdb'
            cases hrefresh : fails .refresh <;> simp [hdup, hdb']
          · simp [hdup, Repo.commitAppend, hfails]
      · simp
    · simp
  · simp

/-- What makes a redaction raise once its tombstone is committed. -/
def CompanionFails (sha256 : Bytes → PyStr) (settings : Settings)
    (payloadFails companionFails : Failures) (db : Database) (req : RedactRequest)
    (event : AuditEvent) (companionNow : DateTime) : Prop :=
  payloadFails .refresh = true ∨
    match companionBody settings req (fieldsToRedact event req.fields)
      (redactedContentHash sha256 event (fieldsToRedact event req.fields)) with
    | .error _ => True
    | .ok body => AppendFails sha256 companionFails (tombstoned sha256 db req event)
        { eventIn := body, tenantId := event.tenantId } companionNow

theorem appendCompanion_raises_iff {payloadFails companionFails : Failures} {db : Database}
    {req : RedactRequest} {event : AuditEvent} {companionNow : DateTime} :
    (∃ err, (appendCompanion sha256 settings payloadFails companionFails
        (tombstoned sha256 db req event) req event (fieldsToRedact event req.fields)
        companionNow).1 = .error err) ↔
      CompanionFails sha256 settings payloadFails companionFails db req event companionNow := by
  unfold appendCompanion CompanionFails
  cases hrefresh : payloadFails .refresh
  · cases hbody : companionBody settings req (fieldsToRedact event req.fields)
        (redactedContentHash sha256 event (fieldsToRedact event req.fields)) with
    | error errors => simp [hbody]
    | ok body =>
      simp only [Bool.false_eq_true, if_false, hbody, false_or]
      rw [← createAuditEvent_raises_iff rfl]
      rcases createAuditEvent sha256 companionFails (tombstoned sha256 db req event)
        { eventIn := body, tenantId := event.tenantId } companionNow with ⟨err | created, db'⟩
      · simp
      · simp
  · simp

/-- The call gets past its own checks and past the tombstone's commit, and then
the rest of it fails. -/
def StopsHalfway (sha256 : Bytes → PyStr) (settings : Settings)
    (payloadFails companionFails : Failures) (db : Database) (req : RedactRequest)
    (companionNow : DateTime) : Prop :=
  ∃ event, Redacts db req event ∧ payloadFails .getEvent = false ∧ payloadFails .commit = false ∧
    CompanionFails sha256 settings payloadFails companionFails db req event companionNow

/-- The tombstone always changes the table: the row lists one more field. -/
theorem tombstoned_ne {db : Database} {req : RedactRequest} {event : AuditEvent}
    (h : Redacts db req event) (rest : List AuditEvent) :
    (tombstoned sha256 db req event).auditEvents ++ rest ≠ db.auditEvents := by
  intro heq
  rcases List.exists_mem_of_ne_nil _ h.fresh with ⟨f, hf⟩
  have hrow : redactedRow sha256 req event ∈ db.auditEvents := by
    rw [← heq]
    exact List.mem_append_left _ ((mem_tombstoned h.found).mpr (Or.inr rfl))
  rcases (Repo.getEvent_eq_some_iff db req.eventId event).mp h.found with ⟨hmem, -⟩
  have hsame : redactedRow sha256 req event = event := db.eq_of_id_eq hrow hmem rfl
  have hlisted : f ∈ alreadyRedacted (redactedRow sha256 req event) :=
    mem_alreadyRedacted_redactionUpdate.mpr (Or.inr hf)
  rw [hsame] at hlisted
  exact (mem_fieldsToRedact.mp hf).2.2 hlisted

/-- A call that stops half-way raises, with the table changed. -/
theorem StopsHalfway.trace {payloadFails companionFails : Failures} {db db' : Database}
    {req : RedactRequest} {companionNow : DateTime} {r : Except ServiceError RedactionResult}
    (h : StopsHalfway sha256 settings payloadFails companionFails db req companionNow)
    (hcall : redactEventFields sha256 settings payloadFails companionFails db req companionNow =
      (r, db')) :
    (∃ err, r = .error err) ∧ db'.auditEvents ≠ db.auditEvents := by
  rcases h with ⟨event, hredacts, hget, hcommit, hfails⟩
  rw [redactEventFields_of_redacts hredacts hget hcommit] at hcall
  have hraises := appendCompanion_raises_iff.mpr hfails
  rw [hcall] at hraises
  refine ⟨hraises, ?_⟩
  rcases appendCompanion_cases hcall with ⟨hrows, -⟩ | ⟨body, -, hrows, -⟩
  · rw [hrows, ← List.append_nil (tombstoned sha256 db req event).auditEvents]
    exact tombstoned_ne hredacts []
  · rw [hrows]
    exact tombstoned_ne hredacts _

/-- **Failed redactions, exactly.** A call leaves no trace when it raises, and
`verify_chain` answers as before, if and only if it does not stop half-way. -/
theorem failed_redaction_leaves_no_trace_iff {payloadFails companionFails : Failures}
    {db db' : Database} {req : RedactRequest} {companionNow : DateTime}
    {r : Except ServiceError RedactionResult}
    (hcall : redactEventFields sha256 settings payloadFails companionFails db req companionNow =
      (r, db')) :
    ((∃ err, r = .error err) →
        db'.auditEvents = db.auditEvents ∧ verifyChain sha256 db' = verifyChain sha256 db) ↔
      ¬ StopsHalfway sha256 settings payloadFails companionFails db req companionNow := by
  constructor
  · intro hsame hstops
    rcases hstops.trace hcall with ⟨herr, hne⟩
    exact hne (hsame herr).1
  · -- A call that raises without stopping half-way has raised before its first commit.
    intro hnot herr
    suffices hrows : db' = db by
      rw [hrows]
      exact ⟨rfl, rfl⟩
    refine (redactEventFields_of_not_redacts ?_ hcall).1
    intro event hredacts
    by_contra hneither
    rw [not_or, Bool.not_eq_true, Bool.not_eq_true] at hneither
    rw [redactEventFields_of_redacts hredacts hneither.1 hneither.2] at hcall
    refine hnot ⟨event, hredacts, hneither.1, hneither.2, appendCompanion_raises_iff.mp ?_⟩
    rw [hcall]
    exact herr

/-- A redaction of a field that is not there raises and stops nowhere. -/
theorem failed_redaction_leaves_no_trace_iff_unknown :
    ((∃ err, (redactEventFields Sha256.hexdigest {} noFailure noFailure createdTable
        { sampleRedact with fields := ["y"] } .sample).1 = .error err) →
      (redactEventFields Sha256.hexdigest {} noFailure noFailure createdTable
        { sampleRedact with fields := ["y"] } .sample).2.auditEvents = createdTable.auditEvents ∧
      verifyChain Sha256.hexdigest (redactEventFields Sha256.hexdigest {} noFailure noFailure
        createdTable { sampleRedact with fields := ["y"] } .sample).2 =
        verifyChain Sha256.hexdigest createdTable) ↔
      ¬ StopsHalfway Sha256.hexdigest {} noFailure noFailure createdTable
        { sampleRedact with fields := ["y"] } .sample :=
  failed_redaction_leaves_no_trace_iff Prod.mk.eta.symm

/-- A redaction whose reason is too long for a companion payload. -/
def overlongReason : RedactRequest :=
  { sampleRedact with reason := some (PyStr.ofChars (List.replicate 2001 'r')) }

/-- **A rejected companion leaves the tombstone behind**: the call raises a
validation error, the payload of event 1 is gone, and the chain is broken. -/
theorem rejected_companion_leaves_tombstone :
    ∃ (db : Database) (req : RedactRequest), req.fields ≠ [] ∧
      ReportsIntact Sha256.hexdigest db ∧
      (redactEventFields Sha256.hexdigest {} noFailure noFailure db req .sample).1.isOk = false ∧
      (redactEventFields Sha256.hexdigest {} noFailure noFailure db req .sample).2.auditEvents ≠
        db.auditEvents ∧
      ¬ ReportsIntact Sha256.hexdigest
        (redactEventFields Sha256.hexdigest {} noFailure noFailure db req .sample).2 := by
  refine ⟨createdTable, overlongReason, by decide, createdTable_intact, ?_⟩
  decide +kernel

/-! ## Companions -/

/-- A row that `redact_event_fields` appended as a companion with content
`original`; redactions and retention may have changed it since. -/
inductive CompanionRow (sha256 : Bytes → PyStr) (original : EventContent) : AuditEvent → Prop where
  | appended {settings : Settings} {db : Database} {req : RedactRequest} {fields : List PyStr}
      {hash tenantId : PyStr} {body : AuditEventCreate settings} {now : DateTime} {event : AuditEvent}
      (hbody : companionBody settings req fields hash = .ok body)
      (hevent : event = appendedEvent sha256 db { eventIn := body, tenantId } now)
      (horiginal : original = event.toEventContent) : CompanionRow sha256 original event
  | redacted {event : AuditEvent} (req : RedactRequest) (h : CompanionRow sha256 original event) :
      CompanionRow sha256 original (redactedRow sha256 req event)
  | archived {event : AuditEvent} (now : DateTime) (h : CompanionRow sha256 original event) :
      CompanionRow sha256 original { event with archivedAt := some now }

/-- What survives of a companion: its type, its hash over the original content,
and every field that was not redacted. -/
structure KeepsOriginal (sha256 : Bytes → PyStr) (original : EventContent) (event : AuditEvent) :
    Prop where
  type : event.eventType = REDACTION_EVENT_TYPE
  hash : event.eventHash = computeEventHash sha256 original
  field : ∀ f, f ∉ alreadyRedacted event → event.payload.get? f = original.payload.get? f

theorem CompanionRow.keepsOriginal {original : EventContent} {event : AuditEvent}
    (h : CompanionRow sha256 original event) : KeepsOriginal sha256 original event := by
  induction h with
  | appended hbody hevent horiginal =>
    subst hevent horiginal
    exact ⟨(companionBody_ok hbody).1, rfl, fun f _ => rfl⟩
  | redacted req h ih =>
    refine ⟨ih.type, ih.hash, ?_⟩
    intro f hf
    rw [redactedRow, mem_alreadyRedacted_redactionUpdate, not_or] at hf
    show (redactedPayload _ _).get? f = _
    rw [get?_redactedPayload, if_neg hf.2]
    exact ih.field f hf.1
  | archived now h ih => exact ⟨ih.type, ih.hash, ih.field⟩

/-- Every newly redacted field holds the marker already. -/
def AlreadyMarked (event : AuditEvent) (fields : List PyStr) : Prop :=
  ∀ f ∈ fieldsToRedact event fields, event.payload.get? f = some (.str REDACTED_MARKER)

/-- A companion that is still trusted after a redaction had nothing to lose. -/
theorem alreadyMarked_of_trusted {original : EventContent} {event : AuditEvent} {req : RedactRequest}
    (h : KeepsOriginal sha256 original event)
    (hsha : CollisionFree sha256
      {original.canonical, (redactedContent event (fieldsToRedact event req.fields)).canonical})
    (htrusted : Trusted sha256 (redactedRow sha256 req event)) :
    AlreadyMarked event req.fields := by
  have hhash : sha256 (redactedContent event (fieldsToRedact event req.fields)).canonical =
      sha256 original.canonical := htrusted.2.trans h.hash
  have hcanonical := hsha (Or.inr rfl) (Or.inl rfl) hhash
  have hsame := same_of_canonicalize_eq
    ((EventContent.canonical_eq_iff _ _).mp hcanonical).2.2.2.2.2.1
  intro f hf
  -- The redacted field reads as the marker, so the original one did too.
  have hmarked : (redactedPayload event (fieldsToRedact event req.fields)).get? f =
      some (.str REDACTED_MARKER) := by
    rw [get?_redactedPayload, if_pos hf]
  have horiginal := Payload.get?_same hsame f
  rw [show (redactedContent event (fieldsToRedact event req.fields)).payload.get? f =
    some (.str REDACTED_MARKER) from hmarked] at horiginal
  rcases horiginal with ⟨value, hvalue, hsame⟩
  rw [h.field f (mem_fieldsToRedact.mp hf).2.2, hvalue, Json.same_str_left hsame]

/-- A row with nothing to lose commits to what it did before. -/
theorem AlreadyMarked.commitmentOf {event : AuditEvent} {req : RedactRequest}
    (h : AlreadyMarked event req.fields) :
    commitmentOf sha256 (redactedRow sha256 req event) = commitmentOf sha256 event := by
  have hpayload : (redactedRow sha256 req event).payload = event.payload :=
    redactedPayload_of_marked h
  have hcontent : (redactedRow sha256 req event).toEventContent = event.toEventContent := by
    show { event.toEventContent with
      payload := redactedPayload event (fieldsToRedact event req.fields) } = event.toEventContent
    rw [redactedPayload_of_marked h]
  have htrusted : Trusted sha256 (redactedRow sha256 req event) ↔ Trusted sha256 event := by
    unfold Trusted contentHash
    rw [hcontent]
    rfl
  unfold AuditLog.commitmentOf
  rw [hpayload]
  exact if_congr (and_congr_left' htrusted) rfl rfl

/-- A row replaced by one that commits to nothing might as well not be there. -/
theorem lastCommitment_replace_untrusted {rows : List AuditEvent} {id : Int} {row : AuditEvent}
    {key : HashKey} (h : commitmentFor sha256 row key = none) :
    lastCommitment sha256 (Table.replace AuditEvent.id rows id row) key =
      lastCommitment sha256 (rows.filter (·.id ≠ id)) key := by
  unfold Table.replace
  induction rows with
  | nil => rfl
  | cons e rows ih =>
    rw [List.map_cons, lastCommitment, ih]
    by_cases hid : e.id = id
    · rw [if_pos hid, h, Option.or_none, List.filter_cons_of_neg (by simpa using hid)]
    · rw [if_neg hid, List.filter_cons_of_pos (by simpa using hid), lastCommitment]

/-- Every other redacted row is backed by rows other than the one with this id. -/
def BackedByOthers (sha256 : Bytes → PyStr) (db : Database) (id : Int) : Prop :=
  ∀ q ∈ db.auditEvents, q.id ≠ id → q.redactedAt ≠ none →
    lastCommitment sha256 (db.auditEvents.filter (·.id ≠ id)) (.int q.id) =
      some (.str (contentHash sha256 q))

section Companion

variable {db : Database} {req : RedactRequest} {event companion : AuditEvent}

/-- Redacting a row with nothing to lose keeps an intact chain intact. -/
theorem chainOk_redaction_of_marked (hok : ChainOk sha256 db.auditEvents)
    (hfound : Repo.getEvent db req.eventId = some event)
    (hcompanion : IsCompanionFor sha256 req event companion)
    (hlink : companion.previousHash = HashChain.tip AuditEvent.eventHash GENESIS_HASH
      (tombstoned sha256 db req event).auditEvents)
    (hmarked : AlreadyMarked event req.fields) :
    ChainOk sha256 ((tombstoned sha256 db req event).auditEvents ++ [companion]) := by
  have hmem := ((Repo.getEvent_eq_some_iff db req.eventId event).mp hfound).1
  have hsame : ∀ key, commitmentFor sha256 (redactedRow sha256 req event) key =
      commitmentFor sha256 event key := by
    intro key
    unfold commitmentFor
    rw [hmarked.commitmentOf]
  rw [chainOk_redaction_iff hok hfound hcompanion hlink]
  constructor
  · unfold HashableTarget
    rw [hmarked.commitmentOf]
    exact hok.hashable event hmem
  · intro q hq hne hredacted
    rw [lastCommitment_tombstoned hfound (hsame _)]
    exact (contentOk_redacted hredacted _).mp (hok.content q hq)

/-- Redacting a row that is not trusted afterwards keeps the chain intact exactly
when the others do without it. -/
theorem chainOk_redaction_iff_of_untrusted (hok : ChainOk sha256 db.auditEvents)
    (hfound : Repo.getEvent db req.eventId = some event)
    (hcompanion : IsCompanionFor sha256 req event companion)
    (hlink : companion.previousHash = HashChain.tip AuditEvent.eventHash GENESIS_HASH
      (tombstoned sha256 db req event).auditEvents)
    (huntrusted : ¬ Trusted sha256 (redactedRow sha256 req event)) :
    ChainOk sha256 ((tombstoned sha256 db req event).auditEvents ++ [companion]) ↔
      BackedByOthers sha256 db event.id := by
  have hlast : ∀ key, lastCommitment sha256 (tombstoned sha256 db req event).auditEvents key =
      lastCommitment sha256 (db.auditEvents.filter (·.id ≠ event.id)) key := by
    intro key
    rw [tombstoned_auditEvents hfound]
    exact lastCommitment_replace_untrusted (commitmentFor_of_not_trusted huntrusted key)
  rw [chainOk_redaction_iff hok hfound hcompanion hlink]
  constructor
  · rintro ⟨-, hbacked⟩ q hq hne hredacted
    rw [← hlast]
    exact hbacked q hq hne hredacted
  · intro hbacked
    constructor
    · rw [hashableTarget_iff]
      intro htrusted
      exact absurd htrusted huntrusted
    · intro q hq hne hredacted
      rw [hlast]
      exact hbacked q hq hne hredacted

end Companion

/-- **Redacting a companion, exactly.** After a redaction of a companion that
returns, an intact chain is intact again if and only if nothing of the companion
was overwritten or no redacted row depends on it. -/
theorem intact_after_companion_redaction_iff {payloadFails companionFails : Failures}
    {db db' : Database} {req : RedactRequest} {companionNow : DateTime} {result : RedactionResult}
    {original : EventContent} {companion : AuditEvent}
    (hintact : ReportsIntact sha256 db)
    (hfound : Repo.getEvent db req.eventId = some companion)
    (hcompanion : CompanionRow sha256 original companion)
    (hcall : redactEventFields sha256 settings payloadFails companionFails db req companionNow =
      (.ok result, db'))
    (hsha : CollisionFree sha256
      {original.canonical,
        (redactedContent companion (fieldsToRedact companion req.fields)).canonical}) :
    ReportsIntact sha256 db' ↔
      AlreadyMarked companion req.fields ∨ BackedByOthers sha256 db companion.id := by
  have hok := (reportsIntact_iff db).mp hintact
  obtain ⟨event, body, hredacts, hbody, hrows⟩ := redactEventFields_of_ok hcall
  have hevent : event = companion := Option.some.inj (hredacts.found.symm.trans hfound)
  subst hevent
  have hnext := isCompanionFor_appendedEvent hbody event.tenantId companionNow
    (tombstoned sha256 db req event)
  have hlink : (appendedEvent sha256 (tombstoned sha256 db req event)
      { eventIn := body, tenantId := event.tenantId } companionNow).previousHash =
        HashChain.tip AuditEvent.eventHash GENESIS_HASH (tombstoned sha256 db req event).auditEvents :=
    appendedEvent_linked _ _ companionNow
  rw [reportsIntact_iff, hrows]
  by_cases hmarked : AlreadyMarked event req.fields
  · have hintact' := chainOk_redaction_of_marked hok hfound hnext hlink hmarked
    exact iff_of_true hintact' (Or.inl hmarked)
  · -- A field was overwritten, so the companion no longer matches its hash.
    have huntrusted : ¬ Trusted sha256 (redactedRow sha256 req event) := by
      intro htrusted
      exact hmarked (alreadyMarked_of_trusted hcompanion.keepsOriginal hsha htrusted)
    rw [chainOk_redaction_iff_of_untrusted hok hfound hnext hlink huntrusted]
    constructor
    · intro hbacked
      exact Or.inr hbacked
    · rintro (h | hbacked)
      · exact absurd h hmarked
      · exact hbacked

/-- A call that redacts the sample event leaves its companion in row 2. -/
theorem redactedTable_companion : ∃ companion : AuditEvent,
    Repo.getEvent redactedTable 2 = some companion ∧
      CompanionRow Sha256.hexdigest companion.toEventContent companion := by
  obtain ⟨result, hcall⟩ := redactEventFields_createdTable
  obtain ⟨event, body, hredacts, hbody, hrows⟩ := redactEventFields_of_ok hcall
  refine ⟨appendedEvent Sha256.hexdigest
    (tombstoned Sha256.hexdigest createdTable sampleRedact event)
    { eventIn := body, tenantId := event.tenantId } .sample, ?_, .appended hbody rfl rfl⟩
  rw [Repo.getEvent_eq_some_iff, hrows]
  exact ⟨List.mem_append_right _ List.mem_cons_self, rfl⟩

/-- A request to redact the commitment of that companion. -/
def redactCommitment : RedactRequest :=
  { sampleRedact with eventId := 2, fields := ["redactedContentHash"] }

/-- The table after that redaction. -/
def companionRedactedTable : Database :=
  (redactEventFields Sha256.hexdigest {} noFailure noFailure redactedTable redactCommitment .sample).2

/-- Redacting the only commitment of a companion that event 1 depends on. -/
theorem intact_after_companion_redaction_iff_commitment :
    ∃ companion : AuditEvent, Repo.getEvent redactedTable 2 = some companion ∧
      (ReportsIntact Sha256.hexdigest companionRedactedTable ↔
        AlreadyMarked companion redactCommitment.fields ∨
          BackedByOthers Sha256.hexdigest redactedTable companion.id) := by
  rcases redactedTable_companion with ⟨companion, hfound, hcompanion⟩
  have hfacts : (redactEventFields Sha256.hexdigest {} noFailure noFailure redactedTable
      redactCommitment .sample).1.isOk = true ∧
      ∀ e ∈ redactedTable.auditEvents, e.id = 2 → Sha256.hexdigest e.toEventContent.canonical ≠
        Sha256.hexdigest (redactedContent e (fieldsToRedact e redactCommitment.fields)).canonical := by
    decide +kernel
  obtain ⟨hok, hdistinct⟩ := hfacts
  obtain ⟨result, hcall⟩ := exists_result_of_isOk hok
  refine ⟨companion, hfound, ?_⟩
  rw [companionRedactedTable]
  refine intact_after_companion_redaction_iff redactedTable_intact hfound hcompanion hcall ?_
  obtain ⟨hmem, hid⟩ := (Repo.getEvent_eq_some_iff _ _ _).mp hfound
  have hne := hdistinct companion hmem hid
  rintro a (rfl | rfl) b (rfl | rfl) hab
  · rfl
  · exact absurd hab hne
  · exact absurd hab.symm hne
  · rfl

/-- **Redacting a companion can break its target**: the call succeeds, and event 1
is no longer backed by a commitment. -/
theorem companion_redaction_breaks_target :
    ∃ (db : Database) (req : RedactRequest) (companion : AuditEvent),
      ReportsIntact Sha256.hexdigest db ∧ Repo.getEvent db req.eventId = some companion ∧
      CompanionRow Sha256.hexdigest companion.toEventContent companion ∧
      (redactEventFields Sha256.hexdigest {} noFailure noFailure db req .sample).1.isOk = true ∧
      ¬ ReportsIntact Sha256.hexdigest
        (redactEventFields Sha256.hexdigest {} noFailure noFailure db req .sample).2 := by
  rcases redactedTable_companion with ⟨companion, hfound, hcompanion⟩
  refine ⟨redactedTable, redactCommitment, companion, redactedTable_intact, hfound, hcompanion, ?_⟩
  decide +kernel

end AuditLog
