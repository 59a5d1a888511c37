import AuditLog.Concurrency.ForgedRedaction
import AuditLog.Concurrency.StoredRows
import AuditLog.Services.ExportService

/-!
# Exported bundles

The offline recipe compares the content of every record with the hash it was created
with, also that of a redacted one. A bundle of a reachable table passes the recipe
exactly when no redaction has changed a value of an exported record.
-/

namespace AuditLog

variable {sha256 : Bytes → PyStr} {settings : Settings}

/-- The row had the marker in every field that has been redacted since, already when it
was created. -/
def MarkedWhenCreated (w : World settings) (row : AuditEvent) : Prop :=
  ∀ created ∈ w.history, created.id = row.id →
    ∀ f ∈ alreadyRedacted row, created.payload.get? f = some (.str REDACTED_MARKER)

/-- Redactions have changed nothing in the payload exactly when they wrote the marker over
the marker. -/
theorem RedactedFrom.same_payload_iff {created row : AuditEvent} (h : RedactedFrom sha256 created row)
    (hpristine : created.Pristine) :
    Json.Same row.payload.toJson created.payload.toJson ↔
      ∀ f ∈ alreadyRedacted row, created.payload.get? f = some (.str REDACTED_MARKER) := by
  have hpayload : ∀ f, row.payload.get? f =
      if f ∈ alreadyRedacted row then some (.str REDACTED_MARKER) else created.payload.get? f := by
    intro f
    have hrow := h.payload f
    rw [hpristine.alreadyRedacted] at hrow
    simpa using hrow
  constructor
  · intro hsame f hf
    have hfound := Payload.get?_same hsame f
    rw [hpayload f, if_pos hf] at hfound
    obtain ⟨v, hv, hmarker⟩ := hfound
    rw [hv, Json.same_str_left hmarker]
  · intro hmarked
    refine Payload.same_of_get?_eq fun f => ?_
    rw [hpayload f]
    split
    · rename_i hf
      exact (hmarked f hf).symm
    · rfl

/-- Rewriting a row in place can only change the payload part of its content. -/
theorem Retouched.canonical_eq_iff {created row : AuditEvent} (h : Retouched created row) :
    row.toEventContent.canonical = created.toEventContent.canonical ↔
      canonicalize row.payload.toJson = canonicalize created.payload.toJson := by
  rw [h, EventContent.canonical_eq_iff]
  simp

/-- The per-record check of a stored row looks for the content it was created with. -/
theorem RedactedFrom.recordVerifies_iff {created row : AuditEvent}
    (h : RedactedFrom sha256 created row) (hpristine : created.Pristine)
    (hhash : created.eventHash = contentHash sha256 created) :
    ((∀ f ∈ alreadyRedacted row, created.payload.get? f = some (.str REDACTED_MARKER)) →
        RecordVerifies sha256 row.out) ∧
      (CollisionFree sha256 {row.toEventContent.canonical, created.toEventContent.canonical} →
        RecordVerifies sha256 row.out →
        ∀ f ∈ alreadyRedacted row, created.payload.get? f = some (.str REDACTED_MARKER)) := by
  have hverifies : RecordVerifies sha256 row.out ↔
      sha256 row.toEventContent.canonical = sha256 created.toEventContent.canonical := by
    show contentHash sha256 row = row.eventHash ↔ _
    rw [h.retouched.eventHash, hhash]
    rfl
  have hcontent : row.toEventContent.canonical = created.toEventContent.canonical ↔
      ∀ f ∈ alreadyRedacted row, created.payload.get? f = some (.str REDACTED_MARKER) := by
    rw [h.retouched.canonical_eq_iff]
    have hsame := canonicalize_eq_iff_same row.payload.unique created.payload.unique
    exact hsame.trans (h.same_payload_iff hpristine)
  rw [hverifies, ← hcontent]
  constructor
  · intro hcanonical
    rw [hcanonical]
  · intro hsha hdigest
    exact hsha (Set.mem_insert _ _) (Set.mem_insert_of_mem _ rfl) hdigest

/-- **When exported bundles verify.** In every reachable state and for every filter, the
bundle passes the manifest check; it passes the whole recipe exactly when every record in
it had the marker, already when it was created, in the fields redacted since. -/
theorem exported_bundle_verifies_iff {w : World settings}
    (h : Machine.Reaches (step sha256) (fun _ _ => True) (.init .empty) w)
    (actorId resourceId : Option PyStr) (now : DateTime) :
    let bundle := exportEvents sha256 w.db actorId resourceId now
    manifestHashOf sha256 bundle.out.records = bundle.out.manifestHash ∧
      ((∀ row ∈ bundle.records, MarkedWhenCreated w row) → BundleVerifies sha256 bundle.out) ∧
      (CollisionFree sha256 (hashInputs w.history ∪ hashInputs w.db.auditEvents) →
        BundleVerifies sha256 bundle.out → ∀ row ∈ bundle.records, MarkedWhenCreated w row) := by
  intro bundle
  have hstored := stored_of_reaches h
  have hhistory := historyOk_of_reaches h
  have hmanifest := manifestHashOf_exportEvents sha256 w.db actorId resourceId now
  have hexported : ∀ row ∈ bundle.records, row ∈ w.db.auditEvents := by
    intro row hrow
    have hfiltered : row ∈ Repo.listEventsIncludingArchived w.db { actorId, resourceId } := hrow
    rw [Repo.listEventsIncludingArchived_eq] at hfiltered
    exact (List.mem_filter.mp hfiltered).1
  have hrecord : ∀ row ∈ bundle.records, ∃ created ∈ w.history, created.id = row.id ∧
      RedactedFrom sha256 created row := by
    intro row hrow
    obtain ⟨created, hcreated, hway⟩ :=
      HashChain.exists_of_forall₂_right hstored.rows (hexported row hrow)
    exact ⟨created, hcreated, hway.retouched.id.symm, hway⟩
  refine ⟨hmanifest, ?_, ?_⟩
  · intro hmarked
    refine ⟨?_, hmanifest⟩
    intro record hmem
    obtain ⟨row, hrow, rfl⟩ := List.mem_map.mp hmem
    obtain ⟨created, hcreated, hid, hway⟩ := hrecord row hrow
    have hiff := hway.recordVerifies_iff (hstored.created created hcreated)
      (hhistory.hashed created hcreated)
    exact hiff.1 (hmarked row hrow created hcreated hid)
  · intro hsha hverifies row hrow created hcreated hid
    obtain ⟨created', hcreated', hid', hway⟩ := hrecord row hrow
    -- The created row is determined by its id.
    obtain rfl := hstored.eq_of_id_eq hcreated' hcreated (hid'.trans hid.symm)
    have hiff := hway.recordVerifies_iff (hstored.created created' hcreated)
      (hhistory.hashed created' hcreated)
    refine hiff.2 (hsha.mono ?_) (hverifies.records _ (List.mem_map_of_mem hrow))
    rintro input (rfl | rfl)
    · exact Or.inr (canonical_mem_hashInputs (hexported row hrow))
    · exact Or.inl (canonical_mem_hashInputs hcreated)

/-! ## An export after a redaction -/

/-- A call of `redact_event_fields`, from start to end. -/
def redactAlone (c : Nat) (req : RedactRequest) : List (Action {}) :=
  .startRedact req :: List.replicate 10 (.advance c .sample)

/-- **A redacted record fails the recipe**, although `verify_chain` finds the table intact. -/
theorem redacted_record_fails_recipe :
    ∃ w : World {}, Machine.Reaches (step Sha256.hexdigest) (fun _ _ => True) (.init .empty) w ∧
      ReportsIntact Sha256.hexdigest w.db ∧
      ¬ BundleVerifies Sha256.hexdigest
        (exportEvents Sha256.hexdigest w.db (some "b") none .sample).out := by
  have hrun : ∃ w ∈ Machine.schedule (step Sha256.hexdigest) (fun _ _ => True)
      (createAlone 0 .sample ++ redactAlone 1 sampleRedact) (.init .empty),
        ReportsIntact Sha256.hexdigest w.db ∧
          ¬ ∀ record ∈ (exportEvents Sha256.hexdigest w.db (some "b") none .sample).out.records,
            RecordVerifies Sha256.hexdigest record := by
    decide +kernel
  obtain ⟨w, hw, hintact, hfails⟩ := hrun
  exact ⟨w, Machine.reaches_of_schedule hw, hintact, fun hverifies => hfails hverifies.records⟩

/-- A body that holds the marker in a field that nobody has redacted. -/
def markedBody : AuditEventCreate {} :=
  ⟨"A", "b", "c", "d", ⟨[("x", .str REDACTED_MARKER), ("y", .int 1)], by decide⟩, by decide +kernel⟩

/-- The record of such a body verifies with its redaction on it, beside one without a redaction. -/
theorem exported_bundle_verifies_iff_marked :
    ∃ w : World {}, Machine.schedule (step Sha256.hexdigest) (fun _ _ => True)
        (createAlone 0 markedBody ++ createAlone 1 .sample ++ redactAlone 2 sampleRedact)
        (.init .empty) = some w ∧
      (exportEvents Sha256.hexdigest w.db (some "b") none .sample).records.map alreadyRedacted =
        [[("x" : PyStr)], []] ∧
      BundleVerifies Sha256.hexdigest
        (exportEvents Sha256.hexdigest w.db (some "b") none .sample).out := by
  have hrun : ∃ w ∈ Machine.schedule (step Sha256.hexdigest) (fun _ _ => True)
      (createAlone 0 markedBody ++ createAlone 1 .sample ++ redactAlone 2 sampleRedact)
      (.init .empty),
        (exportEvents Sha256.hexdigest w.db (some "b") none .sample).records.map alreadyRedacted =
          [[("x" : PyStr)], []] ∧
        ∀ row ∈ (exportEvents Sha256.hexdigest w.db (some "b") none .sample).records,
          ∀ created ∈ w.history, created.id = row.id → ∀ f ∈ alreadyRedacted row,
            created.payload.get? f = some (.str REDACTED_MARKER) := by
    decide +kernel
  obtain ⟨w, hw, hredacted, hmarked⟩ := hrun
  refine ⟨w, hw, hredacted, ?_⟩
  exact (exported_bundle_verifies_iff (Machine.reaches_of_schedule hw) _ _ _).2.1 hmarked

end AuditLog
