import AuditLog.Verification.Spec
import AuditLog.Services.RetentionService
import AuditLog.Python.Sha256

/-!
# What the writers do to an intact chain

How each committed change acts on `ChainOk`: updating columns that are not
hashed, appending a row that vouches for itself, and the two commits of a
redaction. The claims about runs are assembled from these step lemmas.
-/

namespace AuditLog

variable {sha256 : Bytes → PyStr}

/-! ## Commitments of rows and of lists of rows -/

/-- When a row commits to a hash for a target, field by field. -/
theorem commitmentFor_eq_some_iff {event : AuditEvent} {key : HashKey} {commitment : Json} :
    commitmentFor sha256 event key = some commitment ↔
      Trusted sha256 event ∧ event.payload.get "targetEventId" ≠ .null ∧
        hashKey (event.payload.get "targetEventId") = some key ∧
        event.payload.get "redactedContentHash" = commitment ∧ commitment ≠ .null := by
  unfold commitmentFor commitmentOf
  split
  · rename_i target c hsome
    split at hsome
    · rename_i hall
      rcases Prod.mk.inj (Option.some.inj hsome) with ⟨rfl, rfl⟩
      split
      · rename_i hkey
        constructor
        · intro h
          exact ⟨hall.1, hall.2.1, hkey, Option.some.inj h, Option.some.inj h ▸ hall.2.2⟩
        · rintro ⟨-, -, -, rfl, -⟩
          rfl
      · rename_i hkey
        constructor
        · intro h
          cases h
        · rintro ⟨-, -, h, -, -⟩
          exact absurd h hkey
    · cases hsome
  · rename_i hnone
    split at hnone
    · cases hnone
    · rename_i hall
      constructor
      · intro h
        cases h
      · rintro ⟨htrusted, htarget, -, rfl, hcommitment⟩
        exact absurd ⟨htrusted, htarget, hcommitment⟩ hall

/-- Only a trusted row that names a target and a hash can stop the scan. -/
theorem hashableTarget_iff {event : AuditEvent} :
    HashableTarget sha256 event ↔
      (Trusted sha256 event → event.payload.get "targetEventId" ≠ .null →
        event.payload.get "redactedContentHash" ≠ .null →
        hashKey (event.payload.get "targetEventId") ≠ none) := by
  unfold HashableTarget commitmentOf
  split
  · rename_i hall
    simp [hall]
  · rename_i hall
    simp only [Option.mem_def, reduceCtorEq, false_implies, implies_true, true_iff]
    exact fun h1 h2 h3 => absurd ⟨h1, h2, h3⟩ hall

/-- Rows of other types commit to nothing. -/
theorem commitmentFor_of_type_ne {event : AuditEvent} (h : event.eventType ≠ REDACTION_EVENT_TYPE)
    (key : HashKey) : commitmentFor sha256 event key = none := by
  rw [Option.eq_none_iff_forall_not_mem]
  intro c hc
  exact h (commitmentFor_eq_some_iff.mp hc).1.1

/-- Rows of other types cannot stop the scan. -/
theorem hashableTarget_of_type_ne {event : AuditEvent}
    (h : event.eventType ≠ REDACTION_EVENT_TYPE) : HashableTarget sha256 event :=
  hashableTarget_iff.mpr fun htrusted => absurd htrusted.1 h

/-- A row whose content does not match its hash commits to nothing. -/
theorem commitmentFor_of_not_trusted {event : AuditEvent} (h : ¬ Trusted sha256 event)
    (key : HashKey) : commitmentFor sha256 event key = none := by
  rw [Option.eq_none_iff_forall_not_mem]
  intro c hc
  exact h (commitmentFor_eq_some_iff.mp hc).1

/-- Later rows overrule earlier ones. -/
theorem lastCommitment_append (xs ys : List AuditEvent) (key : HashKey) :
    lastCommitment sha256 (xs ++ ys) key =
      (lastCommitment sha256 ys key).or (lastCommitment sha256 xs key) := by
  induction xs with
  | nil => simp [lastCommitment]
  | cons x xs ih => rw [List.cons_append, lastCommitment, ih, lastCommitment, Option.or_assoc]

theorem lastCommitment_concat (xs : List AuditEvent) (event : AuditEvent) (key : HashKey) :
    lastCommitment sha256 (xs ++ [event]) key =
      (commitmentFor sha256 event key).or (lastCommitment sha256 xs key) := by
  rw [lastCommitment_append]
  rfl

/-- Only the rows' own commitments matter. -/
theorem lastCommitment_map (f : AuditEvent → AuditEvent) {xs : List AuditEvent} {key : HashKey}
    (h : ∀ e ∈ xs, commitmentFor sha256 (f e) key = commitmentFor sha256 e key) :
    lastCommitment sha256 (xs.map f) key = lastCommitment sha256 xs key := by
  induction xs with
  | nil => rfl
  | cons x xs ih =>
    rw [List.map_cons, lastCommitment, lastCommitment, h x List.mem_cons_self,
      ih fun e he => h e (List.mem_cons_of_mem _ he)]

/-- A row replaced by one that commits to the same leaves the last commitment. -/
theorem lastCommitment_replace {db : Database} {row row' : AuditEvent} {key : HashKey}
    (hmem : row ∈ db.auditEvents)
    (h : commitmentFor sha256 row' key = commitmentFor sha256 row key) :
    lastCommitment sha256 (Table.replace AuditEvent.id db.auditEvents row.id row') key =
      lastCommitment sha256 db.auditEvents key := by
  apply lastCommitment_map
  intro e he
  split
  · rename_i hid
    rw [db.eq_of_id_eq he hmem hid]
    exact h
  · rfl

/-- The last commitment is the commitment of some row. -/
theorem exists_of_lastCommitment {xs : List AuditEvent} {key : HashKey} {commitment : Json}
    (h : lastCommitment sha256 xs key = some commitment) :
    ∃ e ∈ xs, commitmentFor sha256 e key = some commitment := by
  induction xs with
  | nil => cases h
  | cons x xs ih =>
    rw [lastCommitment] at h
    rcases Option.or_eq_some_iff.mp h with h | ⟨-, h⟩
    · rcases ih h with ⟨e, he, hc⟩
      exact ⟨e, List.mem_cons_of_mem _ he, hc⟩
    · exact ⟨x, List.mem_cons_self, h⟩

/-- The content of a row that is not redacted is checked against its own hash. -/
theorem contentOk_unredacted {event : AuditEvent} (h : event.redactedAt = none)
    (commitment : Option Json) :
    ContentOk sha256 commitment event ↔ contentHash sha256 event = event.eventHash := by
  unfold ContentOk
  rw [if_pos h]

/-- The content of a redacted row is checked against the commitment. -/
theorem contentOk_redacted {event : AuditEvent} (h : event.redactedAt ≠ none)
    (commitment : Option Json) :
    ContentOk sha256 commitment event ↔ commitment = some (.str (contentHash sha256 event)) := by
  unfold ContentOk
  rw [if_neg h]

/-- Only a redacted row depends on a commitment. -/
theorem ContentOk.congr {event : AuditEvent} {commitment commitment' : Option Json}
    (hok : ContentOk sha256 commitment event)
    (h : event.redactedAt ≠ none → commitment' = commitment) :
    ContentOk sha256 commitment' event := by
  by_cases hredacted : event.redactedAt = none
  · rw [contentOk_unredacted hredacted] at hok ⊢
    exact hok
  · rw [h hredacted]
    exact hok

/-! ## Columns outside the hashed content -/

/-- An update that touches neither the hashed content nor the redaction flag. -/
structure KeepsVerified (f : AuditEvent → AuditEvent) : Prop where
  content : ∀ e, (f e).toEventContent = e.toEventContent
  id : ∀ e, (f e).id = e.id
  eventHash : ∀ e, (f e).eventHash = e.eventHash
  redactedAt : ∀ e, (f e).redactedAt = none ↔ e.redactedAt = none

namespace KeepsVerified

variable {f : AuditEvent → AuditEvent}

theorem contentHash (hf : KeepsVerified f) (e : AuditEvent) :
    AuditLog.contentHash sha256 (f e) = AuditLog.contentHash sha256 e := by
  unfold AuditLog.contentHash
  rw [hf.content]

theorem commitmentOf (hf : KeepsVerified f) (e : AuditEvent) :
    AuditLog.commitmentOf sha256 (f e) = AuditLog.commitmentOf sha256 e := by
  have htype : (f e).eventType = e.eventType :=
    congrArg (fun c => c.toRequestContent.eventType) (hf.content e)
  have hpayload : (f e).payload = e.payload :=
    congrArg (fun c => c.toRequestContent.payload) (hf.content e)
  have htrusted : Trusted sha256 (f e) ↔ Trusted sha256 e := by
    unfold Trusted
    rw [htype, hf.contentHash, hf.eventHash]
  unfold AuditLog.commitmentOf
  rw [hpayload]
  exact if_congr (and_congr_left' htrusted) rfl rfl

theorem commitmentFor (hf : KeepsVerified f) (e : AuditEvent) (key : HashKey) :
    AuditLog.commitmentFor sha256 (f e) key = AuditLog.commitmentFor sha256 e key := by
  unfold AuditLog.commitmentFor
  rw [hf.commitmentOf]

theorem contentOk (hf : KeepsVerified f) (e : AuditEvent) (commitment : Option Json) :
    ContentOk sha256 commitment (f e) ↔ ContentOk sha256 commitment e := by
  unfold ContentOk
  simp only [hf.contentHash, hf.eventHash, hf.redactedAt]

/-- Verification does not see the update. -/
theorem chainOk_map (hf : KeepsVerified f) (events : List AuditEvent) :
    ChainOk sha256 (events.map f) ↔ ChainOk sha256 events := by
  -- Each of the three parts of `ChainOk` reads only what the update keeps.
  have hlast : ∀ key, lastCommitment sha256 (events.map f) key = lastCommitment sha256 events key :=
    fun key => lastCommitment_map f fun e _ => hf.commitmentFor e key
  have hlinked : LinkedFrom GENESIS_HASH (events.map f) ↔ LinkedFrom GENESIS_HASH events :=
    HashChain.linked_map _ _ _ _ f _ _
      (fun e _ => congrArg EventContent.previousHash (hf.content e)) fun e _ => hf.eventHash e
  have hhash : ∀ e, HashableTarget sha256 (f e) ↔ HashableTarget sha256 e := by
    intro e
    unfold HashableTarget
    rw [hf.commitmentOf]
  constructor
  · intro h
    refine ⟨?_, ?_, hlinked.mp h.linked⟩
    · intro e he
      exact (hhash e).mp (h.hashable (f e) (List.mem_map_of_mem he))
    · intro e he
      have hc := h.content (f e) (List.mem_map_of_mem he)
      rwa [hlast, hf.contentOk, hf.id] at hc
  · intro h
    refine ⟨?_, ?_, hlinked.mpr h.linked⟩
    · intro e he
      rcases List.mem_map.mp he with ⟨a, ha, rfl⟩
      exact (hhash a).mpr (h.hashable a ha)
    · intro e he
      rcases List.mem_map.mp he with ⟨a, ha, rfl⟩
      rw [hlast, hf.contentOk, hf.id]
      exact h.content a ha

/-- The scan for commitments does not see the update. -/
theorem latestRedactionCommitments_map (hf : KeepsVerified f) (events : List AuditEvent) :
    latestRedactionCommitments sha256 (events.map f) = latestRedactionCommitments sha256 events := by
  have hstep : ∀ commitments e,
      recordCommitment sha256 commitments (f e) = recordCommitment sha256 commitments e := by
    intro commitments e
    have htype : (f e).eventType = e.eventType :=
      congrArg (fun c => c.toRequestContent.eventType) (hf.content e)
    have hpayload : (f e).payload = e.payload :=
      congrArg (fun c => c.toRequestContent.payload) (hf.content e)
    unfold recordCommitment
    rw [htype, hpayload, hf.contentHash, hf.eventHash]
  unfold latestRedactionCommitments
  rw [List.foldlM_map]
  simp only [hstep]

/-- The content check does not see the update. -/
theorem contentViolation_map (hf : KeepsVerified f) (commitments : Commitments) (e : AuditEvent) :
    contentViolation sha256 commitments (f e) = contentViolation sha256 commitments e := by
  unfold contentViolation
  simp only [hf.contentHash, hf.eventHash, hf.id, hf.redactedAt]

/-- The link check does not see the update. -/
theorem linkViolation_map (hf : KeepsVerified f) (expected : PyStr) (e : AuditEvent) :
    linkViolation expected (f e) = linkViolation expected e := by
  have hprevious : (f e).previousHash = e.previousHash :=
    congrArg EventContent.previousHash (hf.content e)
  unfold linkViolation
  rw [hprevious, hf.id]

/-- The walk over the rows does not see the update. -/
theorem verifyFrom_map (hf : KeepsVerified f) (commitments : Commitments) (expected : PyStr)
    (index : Nat) (events : List AuditEvent) :
    verifyFrom sha256 commitments expected index (events.map f) =
      verifyFrom sha256 commitments expected index events := by
  induction events generalizing expected index with
  | nil => rfl
  | cons e events ih =>
    rw [List.map_cons, verifyFrom, verifyFrom, hf.contentViolation_map, hf.linkViolation_map,
      hf.eventHash, ih]

/-- **The report is the same**, whatever it says. -/
theorem verifyChain_map (hf : KeepsVerified f) (db : Database) (hid : ∀ e, (f e).id = e.id) :
    verifyChain sha256 (db.mapEvents f hid) = verifyChain sha256 db := by
  unfold verifyChain Repo.listAllEvents
  rw [Database.mapEvents_auditEvents, hf.latestRedactionCommitments_map]
  simp only [hf.verifyFrom_map]

end KeepsVerified

/-- Archiving touches neither. -/
theorem keepsVerified_archive (cutoff now : DateTime) :
    KeepsVerified fun e : AuditEvent =>
      if e.archivedAt = none ∧ e.timestamp < cutoff then { e with archivedAt := some now } else e where
  content := fun e => by split <;> rfl
  id := fun e => by split <;> rfl
  eventHash := fun e => by split <;> rfl
  redactedAt := fun e => by split <;> rfl

/-- Retention keeps the chain as it is. -/
theorem chainOk_applyRetention {db db' : Database} {days : Int} {now archiveNow : DateTime}
    {r : Option RetentionResult} (h : applyRetention db days now archiveNow = (r, db')) :
    ChainOk sha256 db'.auditEvents ↔ ChainOk sha256 db.auditEvents := by
  unfold applyRetention at h
  split at h
  · cases h
    rfl
  · cases h
    exact (keepsVerified_archive _ _).chainOk_map db.auditEvents

/-! ## Appending a row that vouches for itself -/

/-- An unredacted row whose hash is the hash of its content. -/
structure SelfVouching (sha256 : Bytes → PyStr) (event : AuditEvent) : Prop where
  hash : contentHash sha256 event = event.eventHash
  unredacted : event.redactedAt = none

theorem SelfVouching.contentOk {event : AuditEvent} (h : SelfVouching sha256 event)
    (commitment : Option Json) : ContentOk sha256 commitment event :=
  (contentOk_unredacted h.unredacted commitment).mpr h.hash

/-- The row that `create_audit_event` builds vouches for itself. -/
theorem selfVouching_appendedEvent {settings : Settings} (db : Database)
    (req : CreateRequest settings) (now : DateTime) :
    SelfVouching sha256 (appendedEvent sha256 db req now) := ⟨rfl, rfl⟩

/-- The row that `create_audit_event` builds links to the last one. -/
theorem appendedEvent_linked {settings : Settings} (db : Database)
    (req : CreateRequest settings) (now : DateTime) :
    (appendedEvent sha256 db req now).previousHash =
      HashChain.tip AuditEvent.eventHash GENESIS_HASH db.auditEvents :=
  Repo.lastHash_eq_tip db

/-- What an appended row must not do: name no dict key, or overrule a commitment
that some redacted row depends on. -/
structure Harmless (sha256 : Bytes → PyStr) (events : List AuditEvent) (event : AuditEvent) :
    Prop where
  hashable : HashableTarget sha256 event
  agrees : ∀ r ∈ events, r.redactedAt ≠ none →
    ∀ c ∈ commitmentFor sha256 event (.int r.id), c = .str (contentHash sha256 r)

/-- **The append step.** A self-vouching row linked to the tip keeps the chain
intact exactly when it is harmless. -/
theorem chainOk_concat_iff {events : List AuditEvent} {event : AuditEvent}
    (hok : ChainOk sha256 events) (hself : SelfVouching sha256 event)
    (hlink : event.previousHash = HashChain.tip AuditEvent.eventHash GENESIS_HASH events) :
    ChainOk sha256 (events ++ [event]) ↔ Harmless sha256 events event := by
  constructor
  · intro h
    refine ⟨h.hashable event (by simp), ?_⟩
    intro r hr hredacted c hc
    have hcontent := h.content r (by simp [hr])
    rw [lastCommitment_concat, hc, Option.some_or, contentOk_redacted hredacted] at hcontent
    exact Option.some.inj hcontent
  · intro h
    refine ⟨?_, ?_, ?_⟩
    · exact List.forall_mem_append.mpr ⟨hok.hashable, List.forall_mem_singleton.mpr h.hashable⟩
    · refine List.forall_mem_append.mpr ⟨?_, List.forall_mem_singleton.mpr (hself.contentOk _)⟩
      intro e he
      refine (hok.content e he).congr ?_
      intro hredacted
      have hcontent := (contentOk_redacted hredacted _).mp (hok.content e he)
      rw [lastCommitment_concat]
      -- The new row either says nothing about `e`, or it repeats what holds of `e`.
      cases hc : commitmentFor sha256 event (.int e.id) with
      | none => rw [Option.none_or]
      | some c => rw [Option.some_or, hcontent, h.agrees e he hredacted c hc]
    · exact (HashChain.linked_concat _ _ _ _ _).mpr ⟨hok.linked, hlink⟩

/-- Rows of any type but the redaction type are harmless. -/
theorem harmless_of_type_ne {events : List AuditEvent} {event : AuditEvent}
    (h : event.eventType ≠ REDACTION_EVENT_TYPE) : Harmless sha256 events event where
  hashable := hashableTarget_of_type_ne h
  agrees := by
    intro r _ _ c hc
    rw [commitmentFor_of_type_ne h] at hc
    cases hc

/-- Creating an ordinary event keeps the chain intact, whatever the call returns. -/
theorem chainOk_createAuditEvent {settings : Settings} {fails : Failures}
    {db db' : Database}
    {req : CreateRequest settings} {now : DateTime} {r : Except ServiceError AuditEvent}
    (hok : ChainOk sha256 db.auditEvents)
    (hordinary : req.eventIn.eventType ≠ REDACTION_EVENT_TYPE)
    (hcall : createAuditEvent sha256 fails db req now = (r, db')) :
    ChainOk sha256 db'.auditEvents := by
  rcases createAuditEvent_cases hcall with ⟨hsame, -⟩ | ⟨hrows, -⟩
  · rw [hsame]
    exact hok
  · rw [hrows, chainOk_concat_iff hok (selfVouching_appendedEvent db req now)
      (appendedEvent_linked db req now)]
    exact harmless_of_type_ne hordinary

/-! ## The two commits of a redaction -/

section Redaction

variable {db : Database} {req : RedactRequest} {event : AuditEvent}

/-- The row as the payload commit leaves it. -/
def redactedRow (sha256 : Bytes → PyStr) (req : RedactRequest) (event : AuditEvent) : AuditEvent :=
  (redactionUpdate sha256 event (fieldsToRedact event req.fields) req.now).apply event

theorem tombstoned_auditEvents (hfound : Repo.getEvent db req.eventId = some event) :
    (tombstoned sha256 db req event).auditEvents =
      Table.replace AuditEvent.id db.auditEvents event.id (redactedRow sha256 req event) := by
  have hid : event.id = req.eventId := ((Repo.getEvent_eq_some_iff db req.eventId event).mp hfound).2
  rw [hid]
  exact Repo.redactEventFields_auditEvents _ hfound

theorem mem_tombstoned (hfound : Repo.getEvent db req.eventId = some event) {e : AuditEvent} :
    e ∈ (tombstoned sha256 db req event).auditEvents ↔
      (e ∈ db.auditEvents ∧ e.id ≠ event.id) ∨ e = redactedRow sha256 req event := by
  have hmem : event ∈ db.auditEvents :=
    ((Repo.getEvent_eq_some_iff db req.eventId event).mp hfound).1
  have hid : (redactedRow sha256 req event).id = event.id := rfl
  rw [tombstoned_auditEvents hfound]
  exact Table.mem_replace_iff AuditEvent.id hmem rfl hid

/-- The payload commit keeps links and names. -/
theorem linked_redactEventFields {eventId : Int} {u : Repo.RedactionUpdate} :
    LinkedFrom GENESIS_HASH (Repo.redactEventFields db eventId u).auditEvents ↔
      LinkedFrom GENESIS_HASH db.auditEvents := by
  unfold Repo.redactEventFields
  rw [Database.mapEvents_auditEvents]
  apply HashChain.linked_map
  · intro e _
    split <;> rfl
  · intro e _
    split <;> rfl

theorem lastCommitment_tombstoned (hfound : Repo.getEvent db req.eventId = some event)
    {key : HashKey}
    (h : commitmentFor sha256 (redactedRow sha256 req event) key = commitmentFor sha256 event key) :
    lastCommitment sha256 (tombstoned sha256 db req event).auditEvents key =
      lastCommitment sha256 db.auditEvents key := by
  have hmem : event ∈ db.auditEvents :=
    ((Repo.getEvent_eq_some_iff db req.eventId event).mp hfound).1
  rw [tombstoned_auditEvents hfound]
  exact lastCommitment_replace hmem h

/-- A companion of the redaction: a self-vouching row that names the target and
commits to its content after the payload commit. -/
structure IsCompanionFor (sha256 : Bytes → PyStr) (req : RedactRequest) (event : AuditEvent)
    (companion : AuditEvent) : Prop where
  self : SelfVouching sha256 companion
  type : companion.eventType = REDACTION_EVENT_TYPE
  target : companion.payload.get "targetEventId" = .int req.eventId
  commitment : companion.payload.get "redactedContentHash" =
    .str (contentHash sha256 (redactedRow sha256 req event))

theorem IsCompanionFor.commitmentFor {companion : AuditEvent}
    (h : IsCompanionFor sha256 req event companion) (key : HashKey) :
    commitmentFor sha256 companion key =
      if key = .int req.eventId then some (.str (contentHash sha256 (redactedRow sha256 req event)))
      else none := by
  split
  · rename_i hkey
    rw [commitmentFor_eq_some_iff]
    refine ⟨⟨h.type, h.self.hash⟩, ?_, ?_, h.commitment, Json.noConfusion⟩
    · rw [h.target]
      exact Json.noConfusion
    · rw [h.target, hkey]
      rfl
  · rename_i hkey
    rw [Option.eq_none_iff_forall_not_mem]
    intro c hc
    have hk := (commitmentFor_eq_some_iff.mp hc).2.2.1
    rw [h.target] at hk
    exact hkey (Option.some.inj hk).symm

theorem IsCompanionFor.hashableTarget {companion : AuditEvent}
    (h : IsCompanionFor sha256 req event companion) : HashableTarget sha256 companion := by
  rw [hashableTarget_iff, h.target]
  exact fun _ _ _ => Option.some_ne_none _

/-- The companion that `redact_event_fields` appends. -/
theorem isCompanionFor_appendedEvent {settings : Settings} {body : AuditEventCreate settings}
    (hbody : companionBody settings req (fieldsToRedact event req.fields)
      (redactedContentHash sha256 event (fieldsToRedact event req.fields)) = .ok body)
    (tenantId : PyStr) (now : DateTime) (db : Database) :
    IsCompanionFor sha256 req event
      (appendedEvent sha256 db { eventIn := body, tenantId } now) := by
  rcases companionBody_ok hbody with ⟨htype, hpayload⟩
  refine ⟨selfVouching_appendedEvent db _ now, htype, ?_, ?_⟩
  · show body.payload.get "targetEventId" = _
    rw [hpayload]
    exact companionPayload_target req _ _
  · show body.payload.get "redactedContentHash" = _
    rw [hpayload]
    exact companionPayload_commitment req _ _

/-- **The redaction step.** After both commits the chain is intact exactly when
the redacted row breaks no commitment that another redacted row depends on. -/
theorem chainOk_redaction_iff (hok : ChainOk sha256 db.auditEvents)
    (hfound : Repo.getEvent db req.eventId = some event) {companion : AuditEvent}
    (hcompanion : IsCompanionFor sha256 req event companion)
    (hlink : companion.previousHash = HashChain.tip AuditEvent.eventHash GENESIS_HASH
      (tombstoned sha256 db req event).auditEvents) :
    ChainOk sha256 ((tombstoned sha256 db req event).auditEvents ++ [companion]) ↔
      HashableTarget sha256 (redactedRow sha256 req event) ∧
        ∀ q ∈ db.auditEvents, q.id ≠ event.id → q.redactedAt ≠ none →
          lastCommitment sha256 (tombstoned sha256 db req event).auditEvents (.int q.id) =
            some (.str (contentHash sha256 q)) := by
  rcases (Repo.getEvent_eq_some_iff db req.eventId event).mp hfound with ⟨hmem, hid⟩
  have hother : ∀ q : AuditEvent, q.id ≠ event.id →
      lastCommitment sha256 ((tombstoned sha256 db req event).auditEvents ++ [companion]) (.int q.id) =
        lastCommitment sha256 (tombstoned sha256 db req event).auditEvents (.int q.id) := by
    intro q hq
    have hkey : (HashKey.int q.id) ≠ .int req.eventId := by
      rw [← hid]
      exact fun h => hq (HashKey.int.inj h)
    rw [lastCommitment_concat, hcompanion.commitmentFor, if_neg hkey, Option.none_or]
  constructor
  · intro h
    refine ⟨h.hashable _ ?_, ?_⟩
    · simp [mem_tombstoned hfound]
    · intro q hq hne hredacted
      have hc := h.content q (by simp [mem_tombstoned hfound, hq, hne])
      rwa [hother q hne, contentOk_redacted hredacted] at hc
  · rintro ⟨hhash, hcontent⟩
    refine ⟨?_, ?_, ?_⟩
    · refine List.forall_mem_append.mpr ⟨?_, List.forall_mem_singleton.mpr hcompanion.hashableTarget⟩
      intro e he
      rcases (mem_tombstoned hfound).mp he with ⟨he, -⟩ | rfl
      · exact hok.hashable e he
      · exact hhash
    · refine List.forall_mem_append.mpr
        ⟨?_, List.forall_mem_singleton.mpr (hcompanion.self.contentOk _)⟩
      intro e he
      rcases (mem_tombstoned hfound).mp he with ⟨he, hne⟩ | rfl
      · refine (hok.content e he).congr ?_
        intro hredacted
        rw [hother e hne, hcontent e he hne hredacted]
        exact ((contentOk_redacted hredacted _).mp (hok.content e he)).symm
      · -- The redacted row itself: its last commitment is the companion's.
        have hkey : (redactedRow sha256 req event).id = req.eventId := hid
        have hredacted : (redactedRow sha256 req event).redactedAt ≠ none :=
          Option.some_ne_none req.now
        rw [hkey, lastCommitment_concat, hcompanion.commitmentFor, if_pos rfl,
          contentOk_redacted hredacted]
        rfl
    · exact (HashChain.linked_concat _ _ _ _ _).mpr
        ⟨linked_redactEventFields.mpr hok.linked, hlink⟩

/-- Redacting an ordinary event keeps the chain intact. -/
theorem chainOk_redaction (hok : ChainOk sha256 db.auditEvents)
    (hfound : Repo.getEvent db req.eventId = some event)
    (htype : event.eventType ≠ REDACTION_EVENT_TYPE) {companion : AuditEvent}
    (hcompanion : IsCompanionFor sha256 req event companion)
    (hlink : companion.previousHash = HashChain.tip AuditEvent.eventHash GENESIS_HASH
      (tombstoned sha256 db req event).auditEvents) :
    ChainOk sha256 ((tombstoned sha256 db req event).auditEvents ++ [companion]) := by
  have htype' : (redactedRow sha256 req event).eventType ≠ REDACTION_EVENT_TYPE := htype
  rw [chainOk_redaction_iff hok hfound hcompanion hlink]
  refine ⟨hashableTarget_of_type_ne htype', ?_⟩
  intro q hq hne hredacted
  -- Neither the old row nor the new one commits to anything.
  have hsame : commitmentFor sha256 (redactedRow sha256 req event) (.int q.id) =
      commitmentFor sha256 event (.int q.id) := by
    rw [commitmentFor_of_type_ne htype', commitmentFor_of_type_ne htype]
  rw [lastCommitment_tombstoned hfound hsame]
  exact (contentOk_redacted hredacted _).mp (hok.content q hq)

end Redaction

/-! ## Small tables -/

/-- A request to append an event with the given body. -/
def createRequest (body : AuditEventCreate {}) : CreateRequest {} :=
  { eventIn := body, tenantId := "t" }

/-- The table with one event. -/
def eventTable (body : AuditEventCreate {}) : Database :=
  (createAuditEvent Sha256.hexdigest noFailure .empty (createRequest body) .sample).2

theorem eventTable_auditEvents (body : AuditEventCreate {}) : (eventTable body).auditEvents =
    [appendedEvent Sha256.hexdigest .empty (createRequest body) .sample] := rfl

theorem chainOk_nil : ChainOk sha256 [] := ⟨by simp, by simp, trivial⟩

theorem eventTable_intact {body : AuditEventCreate {}} (h : body.eventType ≠ REDACTION_EVENT_TYPE) :
    ReportsIntact Sha256.hexdigest (eventTable body) := by
  rw [reportsIntact_iff, eventTable_auditEvents]
  exact (chainOk_concat_iff chainOk_nil (selfVouching_appendedEvent _ _ _) rfl).mpr
    (harmless_of_type_ne h)

/-- The table with the sample event. -/
def createdTable : Database := eventTable .sample

theorem createdTable_intact : ReportsIntact Sha256.hexdigest createdTable :=
  eventTable_intact (by decide)

/-- The table with the sample event twice. -/
def createdTwiceTable : Database :=
  (createAuditEvent Sha256.hexdigest noFailure createdTable (createRequest .sample) .sample).2

theorem createdTwiceTable_intact : ReportsIntact Sha256.hexdigest createdTwiceTable := by
  rw [reportsIntact_iff, createdTwiceTable]
  exact chainOk_createAuditEvent ((reportsIntact_iff _).mp createdTable_intact) (by decide)
    Prod.mk.eta.symm

/-- A request to redact the sample event's only field. -/
def sampleRedact : RedactRequest :=
  { eventId := 1, fields := ["x"], actorId := "z", now := .sample }

/-- The table with the sample event redacted, and its companion. -/
def redactedTable : Database :=
  (redactEventFields Sha256.hexdigest {} noFailure noFailure createdTable sampleRedact .sample).2

theorem exists_result_of_isOk {ε α β : Type} {p : Except ε α × β} (h : p.1.isOk = true) :
    ∃ result, p = (.ok result, p.2) := by
  rcases p with ⟨err | result, db⟩
  · cases h
  · exact ⟨result, rfl⟩

theorem redactEventFields_createdTable : ∃ result, redactEventFields Sha256.hexdigest {} noFailure
    noFailure createdTable sampleRedact .sample = (.ok result, redactedTable) := by
  rw [redactedTable]
  exact exists_result_of_isOk (by decide +kernel)

theorem eventType_of_createdTable {event : AuditEvent} {id : Int}
    (h : Repo.getEvent createdTable id = some event) : event.eventType ≠ REDACTION_EVENT_TYPE := by
  have hmem := ((Repo.getEvent_eq_some_iff _ _ _).mp h).1
  rw [createdTable, eventTable_auditEvents, List.mem_singleton] at hmem
  rw [hmem]
  decide

theorem redactedTable_intact : ReportsIntact Sha256.hexdigest redactedTable := by
  obtain ⟨result, hcall⟩ := redactEventFields_createdTable
  obtain ⟨event, body, hredacts, hbody, hrows⟩ := redactEventFields_of_ok hcall
  rw [reportsIntact_iff, hrows]
  exact chainOk_redaction ((reportsIntact_iff _).mp createdTable_intact) hredacts.found
    (eventType_of_createdTable hredacts.found) (isCompanionFor_appendedEvent hbody _ _ _)
    (appendedEvent_linked _ _ _)

end AuditLog
