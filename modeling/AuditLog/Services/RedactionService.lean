import AuditLog.Services.AuditEventService
import Mathlib.Data.List.Dedup

/-!
# `redaction_service`

`redact_event_fields` commits twice: first the tombstoned payload with its
metadata, then, through `create_audit_event`, the companion event that carries
the commitment to the new content. What the call computes from the row it read
is a function of its own for each part, shared with the concurrent model.
-/

namespace AuditLog

def REDACTED_MARKER : PyStr := "[REDACTED]"

def REDACTION_EVENT_TYPE : PyStr := "AUDIT_EVENT_REDACTED"

def REDACTION_RESOURCE_TYPE : PyStr := "AUDIT_EVENT"

/-- The arguments of `redact_event_fields`; `now` is the reference time. -/
structure RedactRequest where
  eventId : Int
  fields : List PyStr
  actorId : PyStr
  reason : Option PyStr := none
  now : DateTime
deriving DecidableEq

structure RedactionResult where
  event : AuditEvent
  newlyRedactedFields : List PyStr
  redactedContentHash : PyStr
  redactionEvent : AuditEvent
deriving DecidableEq

/-! ## What is computed from the row -/

/-- `set(event.redacted_fields or [])`. -/
def alreadyRedacted (event : AuditEvent) : List PyStr := event.redactedFields.getD []

/-- The requested fields that are there and not redacted yet, repetitions included. -/
def fieldsToRedact (event : AuditEvent) (fields : List PyStr) : List PyStr :=
  fields.filter fun f => event.payload.contains f ∧ f ∉ alreadyRedacted event

/-- `new_payload`. -/
def redactedPayload (event : AuditEvent) (fields : List PyStr) : Payload :=
  fields.foldl (fun payload f => payload.setStr f REDACTED_MARKER) event.payload

def redactedContent (event : AuditEvent) (fields : List PyStr) : EventContent :=
  { event.toEventContent with payload := redactedPayload event fields }

/-- `if reason: redaction_payload["reason"] = reason`. -/
def reasonField : Option PyStr → List (PyStr × Json)
  | some reason => if reason.len = 0 then [] else [("reason", .str reason)]
  | none => []

/-- The payload of the companion event. -/
def companionPayload (req : RedactRequest) (fields : List PyStr) (contentHash : PyStr) : Payload where
  fields :=
    ("targetEventId", .int req.eventId) :: ("redactedFields", .arr (fields.map .str)) ::
      ("redactedContentHash", .str contentHash) :: reasonField req.reason
  unique := by
    have harr : Json.uniqueKeysList (fields.map .str) = true := by
      induction fields with
      | nil => rfl
      | cons f fields ih => simpa [Json.uniqueKeysList, Json.uniqueKeys] using ih
    have hreason : reasonField req.reason = [] ∨
        ∃ reason : PyStr, reasonField req.reason = [(("reason" : PyStr), Json.str reason)] := by
      unfold reasonField
      split
      · split
        · exact Or.inl rfl
        · exact Or.inr ⟨_, rfl⟩
      · exact Or.inl rfl
    have hkeys : ([("targetEventId" : PyStr), "redactedFields", "redactedContentHash"]).Nodup ∧
        ([("targetEventId" : PyStr), "redactedFields", "redactedContentHash", "reason"]).Nodup := by
      decide
    simp only [Json.uniqueKeys, Bool.and_eq_true, decide_eq_true_eq, Json.uniqueKeysMembers]
    rcases hreason with h | ⟨reason, h⟩
    · rw [h]
      exact ⟨hkeys.1, trivial, harr, trivial, rfl⟩
    · rw [h]
      exact ⟨hkeys.2, trivial, harr, trivial, rfl⟩

/-- A companion's payload has two levels. -/
theorem walkFrames_companionPayload (generator : Nat) (req : RedactRequest) (fields : List PyStr)
    (contentHash : PyStr) :
    (companionPayload req fields contentHash).toJson.walkFrames generator ≤ 3 + 2 * generator := by
  have hfields : Json.walkFramesList generator (fields.map .str) ≤ 1 := by
    induction fields with
    | nil => exact Nat.zero_le 1
    | cons f fields ih => exact Nat.max_le.mpr ⟨Nat.le_refl 1, ih⟩
  have hreason : Json.walkFramesMembers generator (reasonField req.reason) ≤ 1 := by
    unfold reasonField
    split
    · split
      · exact Nat.zero_le 1
      · exact Nat.le_refl 1
    · exact Nat.zero_le 1
  simp only [Payload.toJson, companionPayload, Json.walkFrames, Json.walkFramesMembers]
  omega

section Service

variable (sha256 : Bytes → PyStr)

/-- `redacted_content_hash`: the commitment to the content after the redaction. -/
def redactedContentHash (event : AuditEvent) (fields : List PyStr) : PyStr :=
  computeEventHash sha256 (redactedContent event fields)

/-- `new_field_hashes`. -/
def newFieldHashes (event : AuditEvent) (fields : List PyStr) : List (PyStr × PyStr) :=
  fields.foldl (fun d f => Dict.set d f (hashFieldValue sha256 (event.payload.get f))) []

/-- What `repo.redact_event_fields` is told to write. -/
def redactionUpdate (event : AuditEvent) (fields : List PyStr) (now : DateTime) :
    Repo.RedactionUpdate where
  payload := redactedPayload event fields
  redactedFields := sortedStr (alreadyRedacted event ++ fields).dedup
  redactedFieldHashes :=
    Dict.update (event.redactedFieldHashes.getD []) (newFieldHashes sha256 event fields)
  now := now

/-- The companion's body, validated like any other. Its payload has two levels, so no walker
runs out of frames. -/
def companionBody (settings : Settings) (req : RedactRequest) (fields : List PyStr)
    (contentHash : PyStr) : Except (List FieldError) (AuditEventCreate settings) :=
  (AuditEventCreate.validate {} settings REDACTION_EVENT_TYPE req.actorId REDACTION_RESOURCE_TYPE
    (PyStr.ofChars (intText req.eventId)) (companionPayload req fields contentHash)).get
      (AuditEventCreate.validate_isSome_of_fits
        (Nat.le_trans (walkFrames_companionPayload 1 req fields contentHash) (by decide)))

/-- The rest of `redact_event_fields` once the tombstone is committed: refresh the
row, validate the companion and append it. `db` is the state after the commit. -/
def appendCompanion (settings : Settings) (payloadFails companionFails : Failures) (db : Database)
    (req : RedactRequest) (event : AuditEvent) (fields : List PyStr) (companionNow : DateTime) :
    Except ServiceError RedactionResult × Database :=
  let contentHash := redactedContentHash sha256 event fields
  -- The tombstone is committed: no error below takes it back.
  if payloadFails .refresh then (.error (.database (.driver .refresh)), db)
  else
    match companionBody settings req fields contentHash with
    | .error errors => (.error (.validation errors), db)
    | .ok body =>
      match createAuditEvent sha256 companionFails db
          { eventIn := body, tenantId := event.tenantId } companionNow with
      | (.error err, db) => (.error err, db)
      | (.ok redactionEvent, db) =>
        (.ok ⟨(redactionUpdate sha256 event fields req.now).apply event, fields, contentHash,
          redactionEvent⟩, db)

/-- `redact_event_fields`, with the failures of its two transactions. -/
def redactEventFields (settings : Settings) (payloadFails companionFails : Failures) (db : Database)
    (req : RedactRequest) (companionNow : DateTime) :
    Except ServiceError RedactionResult × Database :=
  if payloadFails .getEvent then (.error (.database (.driver .getEvent)), db)
  else
    match Repo.getEvent db req.eventId with
    | none => (.error (.eventNotFound req.eventId), db)
    | some event =>
      let fields := fieldsToRedact event req.fields
      -- The row is read without a lock; nothing checks it again before the commit.
      if fields = [] then (.error (.noRedactableFields req.fields), db)
      else if payloadFails .commit then (.error (.database (.driver .commit)), db)
      else
        appendCompanion sha256 settings payloadFails companionFails
          (Repo.redactEventFields db req.eventId (redactionUpdate sha256 event fields req.now))
          req event fields companionNow

/-! ## The payload after a redaction -/

theorem get?_foldl_setStr (p : Payload) (fields : List PyStr) (f : PyStr) :
    (fields.foldl (fun payload f => payload.setStr f REDACTED_MARKER) p).get? f =
      if f ∈ fields then some (.str REDACTED_MARKER) else p.get? f := by
  induction fields generalizing p with
  | nil => simp
  | cons f₀ fields ih =>
    rw [List.foldl_cons, ih, Payload.get?_setStr]
    by_cases hmem : f ∈ fields
    · simp [hmem]
    · by_cases hf : f₀ = f
      · simp [hf]
      · simp [hmem, hf, Ne.symm hf]

/-- A redacted field reads as the marker, every other one as before. -/
theorem get?_redactedPayload (event : AuditEvent) (fields : List PyStr) (f : PyStr) :
    (redactedPayload event fields).get? f =
      if f ∈ fields then some (.str REDACTED_MARKER) else event.payload.get? f :=
  get?_foldl_setStr event.payload fields f

/-- Redacting fields that hold the marker already changes nothing. -/
theorem redactedPayload_of_marked {event : AuditEvent} {fields : List PyStr}
    (h : ∀ f ∈ fields, event.payload.get? f = some (.str REDACTED_MARKER)) :
    redactedPayload event fields = event.payload := by
  have hstep : ∀ (p : Payload), (∀ f ∈ fields, p.get? f = some (.str REDACTED_MARKER)) →
      fields.foldl (fun payload f => payload.setStr f REDACTED_MARKER) p = p := by
    clear h
    intro p h
    induction fields with
    | nil => rfl
    | cons f fields ih =>
      have hsame : p.setStr f REDACTED_MARKER = p := by
        have hset := Dict.set_of_get (h f List.mem_cons_self)
        rcases p with ⟨kvs, hu⟩
        simp only [Payload.setStr, Payload.mk.injEq]
        exact hset
      rw [List.foldl_cons, hsame]
      exact ih fun f' hf' => h f' (List.mem_cons_of_mem _ hf')
  exact hstep event.payload h

theorem mem_fieldsToRedact {event : AuditEvent} {fields : List PyStr} {f : PyStr} :
    f ∈ fieldsToRedact event fields ↔
      f ∈ fields ∧ event.payload.contains f = true ∧ f ∉ alreadyRedacted event := by
  simp [fieldsToRedact]

variable {sha256}

/-- After the payload commit the row lists the fields its writer read and redacted. -/
theorem mem_alreadyRedacted_redactionUpdate {event row : AuditEvent} {fields : List PyStr}
    {now : DateTime} {f : PyStr} :
    f ∈ alreadyRedacted ((redactionUpdate sha256 event fields now).apply row) ↔
      f ∈ alreadyRedacted event ∨ f ∈ fields := by
  show f ∈ sortedStr _ ↔ _
  rw [sortedStr, List.mem_insertionSort, List.mem_dedup, List.mem_append]

/-- A newly redacted field is listed with the hash of the value that was read, every
other one as it was read. -/
theorem get_redactedFieldHashes (event row : AuditEvent) (fields : List PyStr) (now : DateTime)
    (f : PyStr) :
    Dict.get (((redactionUpdate sha256 event fields now).apply row).redactedFieldHashes.getD []) f =
      if f ∈ fields then some (hashFieldValue sha256 (event.payload.get f))
      else Dict.get (event.redactedFieldHashes.getD []) f := by
  have hunique : (Dict.keys (newFieldHashes sha256 event fields)).Nodup :=
    Dict.nodup_keys_foldl_set (by simp) fields _
  show Dict.get (Dict.update _ (newFieldHashes sha256 event fields)) f = _
  rw [Dict.get_update _ hunique, newFieldHashes, Dict.get_foldl_set]
  split <;> rfl

/-! ## The companion -/

theorem companionPayload_target (req : RedactRequest) (fields : List PyStr) (hash : PyStr) :
    (companionPayload req fields hash).get "targetEventId" = .int req.eventId := rfl

theorem companionPayload_commitment (req : RedactRequest) (fields : List PyStr) (hash : PyStr) :
    (companionPayload req fields hash).get "redactedContentHash" = .str hash := rfl

/-- The companion's body is what it was built from. -/
theorem companionBody_fields {settings : Settings} {req : RedactRequest} {fields : List PyStr}
    {hash : PyStr} {body : AuditEventCreate settings}
    (h : companionBody settings req fields hash = .ok body) :
    body.eventType = REDACTION_EVENT_TYPE ∧ body.actorId = req.actorId ∧
      body.resourceType = REDACTION_RESOURCE_TYPE ∧
      body.resourceId = PyStr.ofChars (intText req.eventId) ∧
      body.payload = companionPayload req fields hash := by
  apply AuditEventCreate.validate_ok
  rw [← h]
  exact (Option.some_get _).symm

theorem companionBody_ok {settings : Settings} {req : RedactRequest} {fields : List PyStr}
    {hash : PyStr} {body : AuditEventCreate settings}
    (h : companionBody settings req fields hash = .ok body) :
    body.eventType = REDACTION_EVENT_TYPE ∧ body.payload = companionPayload req fields hash := by
  rcases companionBody_fields h with ⟨htype, -, -, -, hpayload⟩
  exact ⟨htype, hpayload⟩

/-! ## What a call can do -/

/-- The state between the two commits of a redaction. -/
def tombstoned (sha256 : Bytes → PyStr) (db : Database) (req : RedactRequest)
    (event : AuditEvent) : Database :=
  Repo.redactEventFields db req.eventId
    (redactionUpdate sha256 event (fieldsToRedact event req.fields) req.now)

/-- The call finds the row and fields of it that are still to redact. -/
structure Redacts (db : Database) (req : RedactRequest) (event : AuditEvent) : Prop where
  found : Repo.getEvent db req.eventId = some event
  fresh : fieldsToRedact event req.fields ≠ []

variable {settings : Settings} {payloadFails companionFails : Failures} {db db' : Database}
  {req : RedactRequest} {companionNow : DateTime} {r : Except ServiceError RedactionResult}

/-- A call that gets past its checks and the first commit goes on from the tombstone. -/
theorem redactEventFields_of_redacts {event : AuditEvent} (h : Redacts db req event)
    (hget : payloadFails .getEvent = false) (hcommit : payloadFails .commit = false) :
    redactEventFields sha256 settings payloadFails companionFails db req companionNow =
      appendCompanion sha256 settings payloadFails companionFails (tombstoned sha256 db req event)
        req event (fieldsToRedact event req.fields) companionNow := by
  unfold redactEventFields
  simp only [hget, h.found, h.fresh, hcommit, Bool.false_eq_true, if_false]
  rfl

/-- Every other call raises and leaves the state as it was. -/
theorem redactEventFields_of_not_redacts
    (h : ∀ event, Redacts db req event → payloadFails .getEvent = true ∨ payloadFails .commit = true)
    (hcall : redactEventFields sha256 settings payloadFails companionFails db req companionNow =
      (r, db')) :
    db' = db ∧ ∃ err, r = .error err := by
  unfold redactEventFields at hcall
  split at hcall
  · cases hcall
    exact ⟨rfl, _, rfl⟩
  · rename_i hget
    split at hcall
    · cases hcall
      exact ⟨rfl, _, rfl⟩
    · rename_i event hfound
      dsimp only at hcall
      split at hcall
      · cases hcall
        exact ⟨rfl, _, rfl⟩
      · rename_i hfresh
        split at hcall
        · cases hcall
          exact ⟨rfl, _, rfl⟩
        · rename_i hcommit
          exact absurd (h event ⟨hfound, hfresh⟩) (not_or.mpr ⟨hget, hcommit⟩)

/-- After the tombstone a call appends the companion, or it raises something its
service does not declare. -/
theorem appendCompanion_cases {event : AuditEvent} {fields : List PyStr}
    (h : appendCompanion sha256 settings payloadFails companionFails db req event fields
      companionNow = (r, db')) :
    (db'.auditEvents = db.auditEvents ∧ ∃ err, r = .error err ∧ ¬ err.Declared) ∨
      ∃ body, companionBody settings req fields (redactedContentHash sha256 event fields) = .ok body ∧
        db'.auditEvents = db.auditEvents ++
          [appendedEvent sha256 db { eventIn := body, tenantId := event.tenantId } companionNow] ∧
        ((∃ result, r = .ok result) ∨ r = .error (.database (.driver .refresh))) := by
  unfold appendCompanion at h
  dsimp only at h
  split at h
  · cases h
    exact Or.inl ⟨rfl, _, rfl, id⟩
  · split at h
    · cases h
      exact Or.inl ⟨rfl, _, rfl, id⟩
    · rename_i body hbody
      split at h
      · rename_i err db₂ hcreate
        cases h
        rcases createAuditEvent_cases hcreate with
          ⟨hrows, ⟨err', herr, hkey⟩ | ⟨-, replay, -, hr⟩⟩ | ⟨hrows, hr | hr⟩
        · -- The companion has no idempotency key, so no declared error can stop it.
          cases herr
          exact Or.inl ⟨hrows, _, rfl, fun hdeclared => hkey hdeclared rfl⟩
        · cases hr
        · cases hr
        · cases hr
          exact Or.inr ⟨body, hbody, hrows, Or.inr rfl⟩
      · rename_i redactionEvent db₂ hcreate
        cases h
        rcases createAuditEvent_cases hcreate with
          ⟨-, ⟨err, herr, -⟩ | ⟨hkey, -⟩⟩ | ⟨hrows, -⟩
        · cases herr
        · exact absurd rfl hkey
        · exact Or.inr ⟨body, hbody, hrows, Or.inl ⟨_, rfl⟩⟩

/-- **What a call of `redact_event_fields` can do.** It raises and leaves the
events as they were; or it commits the tombstone and raises; or it commits the
tombstone and then appends the companion. -/
theorem redactEventFields_cases
    (h : redactEventFields sha256 settings payloadFails companionFails db req companionNow = (r, db')) :
    (db' = db ∧ ∃ err, r = .error err) ∨
      ∃ event, Redacts db req event ∧
        ((db'.auditEvents = (tombstoned sha256 db req event).auditEvents ∧
            ∃ err, r = .error err ∧ ¬ err.Declared) ∨
          ∃ body, companionBody settings req (fieldsToRedact event req.fields)
              (redactedContentHash sha256 event (fieldsToRedact event req.fields)) = .ok body ∧
            db'.auditEvents = (tombstoned sha256 db req event).auditEvents ++
              [appendedEvent sha256 (tombstoned sha256 db req event)
                { eventIn := body, tenantId := event.tenantId } companionNow] ∧
            ((∃ result, r = .ok result) ∨ r = .error (.database (.driver .refresh)))) := by
  by_cases hreach : ∃ event, Redacts db req event ∧
      payloadFails .getEvent = false ∧ payloadFails .commit = false
  · rcases hreach with ⟨event, hredacts, hget, hcommit⟩
    rw [redactEventFields_of_redacts hredacts hget hcommit] at h
    exact Or.inr ⟨event, hredacts, appendCompanion_cases h⟩
  · refine Or.inl (redactEventFields_of_not_redacts ?_ h)
    intro event hredacts
    by_contra hneither
    rw [not_or, Bool.not_eq_true, Bool.not_eq_true] at hneither
    exact hreach ⟨event, hredacts, hneither⟩

/-- A call that returns has committed the tombstone and appended the companion. -/
theorem redactEventFields_of_ok {result : RedactionResult}
    (h : redactEventFields sha256 settings payloadFails companionFails db req companionNow =
      (.ok result, db')) :
    ∃ event body, Redacts db req event ∧
      companionBody settings req (fieldsToRedact event req.fields)
        (redactedContentHash sha256 event (fieldsToRedact event req.fields)) = .ok body ∧
      db'.auditEvents = (tombstoned sha256 db req event).auditEvents ++
        [appendedEvent sha256 (tombstoned sha256 db req event)
          { eventIn := body, tenantId := event.tenantId } companionNow] := by
  rcases redactEventFields_cases h with
    ⟨-, err, herr⟩ | ⟨event, hredacts, ⟨-, err, herr, -⟩ | ⟨body, hbody, hrows, -⟩⟩
  · cases herr
  · cases herr
  · exact ⟨event, body, hredacts, hbody, hrows⟩

end Service

end AuditLog
