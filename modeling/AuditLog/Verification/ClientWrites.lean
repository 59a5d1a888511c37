import AuditLog.Verification.Preservation

/-!
# Client writes and the verdict

`POST /audit/events` accepts every event type, the redaction type included, and
`verify_chain` reads commitments out of every such row. This file says exactly
which accepted bodies leave an intact chain intact.
-/

namespace AuditLog

variable {sha256 : Bytes → PyStr} {settings : Settings}

/-- Bodies that contribute no commitment, or one that repeats the current
content hash of every redacted row it names. -/
def NeutralBody (sha256 : Bytes → PyStr) (db : Database) (body : AuditEventCreate settings) : Prop :=
  body.eventType ≠ REDACTION_EVENT_TYPE ∨
    body.payload.get "targetEventId" = .null ∨
    body.payload.get "redactedContentHash" = .null ∨
    ∃ key, hashKey (body.payload.get "targetEventId") = some key ∧
      ∀ r ∈ db.auditEvents, r.redactedAt ≠ none → key = .int r.id →
        body.payload.get "redactedContentHash" = .str (contentHash sha256 r)

/-- For the row that `create_audit_event` appends, harmless means a neutral body. -/
theorem harmless_appendedEvent_iff (db : Database) (req : CreateRequest settings) (now : DateTime) :
    Harmless sha256 db.auditEvents (appendedEvent sha256 db req now) ↔
      NeutralBody sha256 db req.eventIn := by
  -- The row is self-vouching, so only its type and its two fields matter.
  have htrusted : Trusted sha256 (appendedEvent sha256 db req now) ↔
      req.eventIn.eventType = REDACTION_EVENT_TYPE :=
    ⟨fun h => h.1, fun h => ⟨h, rfl⟩⟩
  constructor
  · intro h
    by_cases htype : req.eventIn.eventType = REDACTION_EVENT_TYPE
    · by_cases htarget : req.eventIn.payload.get "targetEventId" = .null
      · exact Or.inr (Or.inl htarget)
      · by_cases hcommitment : req.eventIn.payload.get "redactedContentHash" = .null
        · exact Or.inr (Or.inr (Or.inl hcommitment))
        · right; right; right
          have hkey := hashableTarget_iff.mp h.hashable (htrusted.mpr htype) htarget hcommitment
          rcases Option.ne_none_iff_exists'.mp hkey with ⟨key, hkey⟩
          refine ⟨key, hkey, ?_⟩
          intro r hr hredacted hrid
          exact h.agrees r hr hredacted _ (commitmentFor_eq_some_iff.mpr
            ⟨htrusted.mpr htype, htarget, hrid ▸ hkey, rfl, hcommitment⟩)
    · exact Or.inl htype
  · intro h
    constructor
    · rw [hashableTarget_iff]
      intro hself htarget hcommitment
      rcases h with htype | hnull | hnull | ⟨key, hkey, -⟩
      · exact absurd (htrusted.mp hself) htype
      · exact absurd hnull htarget
      · exact absurd hnull hcommitment
      · show hashKey (req.eventIn.payload.get "targetEventId") ≠ none
        rw [hkey]
        exact Option.some_ne_none key
    · intro r hr hredacted c hc
      rcases commitmentFor_eq_some_iff.mp hc with ⟨hself, htarget, hkey', hc, hcommitment⟩
      rcases h with htype | hnull | hnull | ⟨key, hkey, hagrees⟩
      · exact absurd (htrusted.mp hself) htype
      · exact absurd hnull htarget
      · exact absurd (hc.symm.trans hnull) hcommitment
      · have hsame : some key = some (.int r.id) := hkey.symm.trans hkey'
        exact hc.symm.trans (hagrees r hr hredacted (Option.some.inj hsame))

/-- A call of `create_audit_event` that lengthened the table appended its row. -/
theorem appendedEvent_of_append {fails : Failures} {db db' : Database}
    {req : CreateRequest settings} {now : DateTime} {event row : AuditEvent}
    (hcreate : createAuditEvent sha256 fails db req now = (.ok event, db'))
    (happend : db'.auditEvents = db.auditEvents ++ [row]) :
    row = appendedEvent sha256 db req now := by
  rcases createAuditEvent_cases hcreate with ⟨hsame, -⟩ | ⟨hrows, -⟩
  · rw [hsame] at happend
    have hlen := congrArg List.length happend
    simp at hlen
  · rw [happend] at hrows
    exact List.singleton_inj.mp (List.append_cancel_left hrows)

/-- **Neutrality of client writes, exactly.** On an intact table, after an
accepted body was appended, verification reports intact with one more record if
and only if the body is neutral. -/
theorem verify_after_client_write_iff {fails : Failures} {db db' : Database}
    {req : CreateRequest settings} {now : DateTime} {event : AuditEvent}
    (hintact : ReportsIntact sha256 db)
    (hcreate : createAuditEvent sha256 fails db req now = (.ok event, db'))
    (happend : db'.auditEvents = db.auditEvents ++ [event]) :
    verifyChain sha256 db' = .ok ⟨true, db.auditEvents.length + 1, none⟩ ↔
      NeutralBody sha256 db req.eventIn := by
  have hevent := appendedEvent_of_append hcreate happend
  have hstep : ChainOk sha256 db'.auditEvents ↔ NeutralBody sha256 db req.eventIn := by
    rw [happend, hevent, ← harmless_appendedEvent_iff db req now]
    exact chainOk_concat_iff ((reportsIntact_iff db).mp hintact)
      (selfVouching_appendedEvent db req now) (appendedEvent_linked db req now)
  rw [← hstep]
  constructor
  · intro h
    exact (reportsIntact_iff db').mp ⟨_, h, rfl⟩
  · intro h
    rw [verifyChain_of_chainOk h, happend, List.length_append]
    rfl

/-- A body of the redaction type that repeats what the companion of event 1 commits to. -/
def repeatingBody : AuditEventCreate {} :=
  ⟨REDACTION_EVENT_TYPE, "b", "c", "d",
    ⟨[("targetEventId", .int 1), ("redactedContentHash",
      .str "eeccbf8649bcf3fdb511b87450eacd9851d20fb372d7513467dd9d5ee43c6cd4")], by decide⟩,
    by decide +kernel⟩

/-- A third record, posted by a client, vouches for the redacted first one again. -/
theorem verify_after_client_write_iff_repeatedCommitment :
    verifyChain Sha256.hexdigest (createAuditEvent Sha256.hexdigest noFailure redactedTable
        (createRequest repeatingBody) .sample).2 = .ok ⟨true, 3, none⟩ ∧
      NeutralBody Sha256.hexdigest redactedTable repeatingBody := by
  have hcreate : (createAuditEvent Sha256.hexdigest noFailure redactedTable
      (createRequest repeatingBody) .sample).1 =
        .ok (appendedEvent Sha256.hexdigest redactedTable (createRequest repeatingBody) .sample) ∧
      (createAuditEvent Sha256.hexdigest noFailure redactedTable
        (createRequest repeatingBody) .sample).2.auditEvents = redactedTable.auditEvents ++
          [appendedEvent Sha256.hexdigest redactedTable (createRequest repeatingBody) .sample] := by
    decide +kernel
  have hagrees : ∀ r ∈ redactedTable.auditEvents, r.redactedAt ≠ none → HashKey.int 1 = .int r.id →
      repeatingBody.payload.get "redactedContentHash" = .str (contentHash Sha256.hexdigest r) := by
    decide +kernel
  have hneutral : NeutralBody Sha256.hexdigest redactedTable repeatingBody :=
    Or.inr (Or.inr (Or.inr ⟨.int 1, rfl, hagrees⟩))
  have hlength : redactedTable.auditEvents.length = 2 := by decide +kernel
  generalize hcall : createAuditEvent Sha256.hexdigest noFailure redactedTable
    (createRequest repeatingBody) .sample = result at hcreate ⊢
  obtain ⟨outcome, db⟩ := result
  obtain ⟨rfl, happend⟩ := hcreate
  have hverified := (verify_after_client_write_iff redactedTable_intact hcall happend).mpr hneutral
  rw [hlength] at hverified
  exact ⟨hverified, hneutral⟩

/-- A body of the redaction type that names event 1 with a commitment of its own. -/
def forgingBody : AuditEventCreate {} :=
  ⟨REDACTION_EVENT_TYPE, "b", "c", "d",
    ⟨[("targetEventId", .int 1), ("redactedContentHash", .str "0")], by decide⟩, by decide +kernel⟩

/-- **A client write can break the verdict on an earlier record.** The forged
commitment overrules the companion of the redacted event 1. -/
theorem client_write_breaks_redacted_record :
    ∃ (db : Database) (req : CreateRequest {}) (event : AuditEvent),
      ReportsIntact Sha256.hexdigest db ∧
        (createAuditEvent Sha256.hexdigest noFailure db req .sample).1 = .ok event ∧
        (createAuditEvent Sha256.hexdigest noFailure db req .sample).2.auditEvents =
          db.auditEvents ++ [event] ∧
        ¬ ReportsIntact Sha256.hexdigest
          (createAuditEvent Sha256.hexdigest noFailure db req .sample).2 := by
  let req : CreateRequest {} := createRequest forgingBody
  refine ⟨redactedTable, req, appendedEvent Sha256.hexdigest redactedTable req .sample,
    redactedTable_intact, ?_⟩
  decide +kernel

end AuditLog
