import AuditLog.Repository

/-!
# `export_service`

The bundle of all records of an actor or a resource, archived ones included, as
they are stored. The records are committed to by a manifest hash over their ids and
event hashes, in order.
-/

namespace AuditLog

/-- `AuditEventOut`: what a response says about an event. -/
structure AuditEventOut extends EventContent where
  id : Int
  eventHash : PyStr
  archivedAt : Option DateTime
  redactedAt : Option DateTime
  redactedFields : Option (List PyStr)
deriving DecidableEq

/-- `AuditEventOut.model_validate(event)`. -/
def AuditEvent.out (event : AuditEvent) : AuditEventOut where
  toEventContent := event.toEventContent
  id := event.id
  eventHash := event.eventHash
  archivedAt := event.archivedAt
  redactedAt := event.redactedAt
  redactedFields := event.redactedFields

structure ExportBundle where
  exportedAt : DateTime
  actorId : Option PyStr
  resourceId : Option PyStr
  records : List AuditEvent
  manifestHash : PyStr
deriving DecidableEq

/-- `ExportFilterOut`. -/
structure ExportFilterOut where
  actorId : Option PyStr
  resourceId : Option PyStr
deriving DecidableEq

/-- `ExportBundleOut`: the bundle as a recipient gets it. -/
structure ExportBundleOut where
  exportedAt : DateTime
  filter : ExportFilterOut
  recordCount : Nat
  records : List AuditEventOut
  manifestHash : PyStr
deriving DecidableEq

/-- The response that `GET /audit/export` makes of a bundle. -/
def ExportBundle.out (bundle : ExportBundle) : ExportBundleOut where
  exportedAt := bundle.exportedAt
  filter := ⟨bundle.actorId, bundle.resourceId⟩
  recordCount := bundle.records.length
  records := bundle.records.map AuditEvent.out
  manifestHash := bundle.manifestHash

/-- `{"id": record.id, "eventHash": record.event_hash}`. -/
def manifestEntry (id : Int) (eventHash : PyStr) : Payload where
  fields := [("id", .int id), ("eventHash", .str eventHash)]
  unique := by
    have hkeys : ([("id" : PyStr), "eventHash"]).Nodup := by decide
    simp only [Json.uniqueKeys, Json.uniqueKeysMembers, Bool.and_true, decide_eq_true_eq]
    exact hkeys

section Service

variable (sha256 : Bytes → PyStr)

/-- `export_events`. -/
def exportEvents (db : Database) (actorId resourceId : Option PyStr) (now : DateTime) :
    ExportBundle :=
  let records := Repo.listEventsIncludingArchived db { actorId, resourceId }
  { exportedAt := now
    actorId
    resourceId
    records
    manifestHash := computeManifestHash sha256 (records.map fun r => manifestEntry r.id r.eventHash) }

/-! ## The offline recipe -/

/-- The per-record check: the hash of the record's own fields is its `eventHash`. -/
def RecordVerifies (record : AuditEventOut) : Prop :=
  computeEventHash sha256 record.toEventContent = record.eventHash

instance (record : AuditEventOut) : Decidable (RecordVerifies sha256 record) :=
  inferInstanceAs (Decidable (_ = _))

instance (records : List AuditEventOut) :
    Decidable (∀ record ∈ records, RecordVerifies sha256 record) :=
  List.decidableBAll _ records

/-- The hash over the ids and event hashes of the records, in order. -/
def manifestHashOf (records : List AuditEventOut) : PyStr :=
  computeManifestHash sha256 (records.map fun r => manifestEntry r.id r.eventHash)

/-- The recipe: every record passes its check, and the bundle check finds the manifest hash. -/
structure BundleVerifies (bundle : ExportBundleOut) : Prop where
  records : ∀ record ∈ bundle.records, RecordVerifies sha256 record
  manifest : manifestHashOf sha256 bundle.records = bundle.manifestHash

/-- What the service exports passes the bundle check. -/
theorem manifestHashOf_exportEvents (db : Database) (actorId resourceId : Option PyStr)
    (now : DateTime) :
    manifestHashOf sha256 (exportEvents sha256 db actorId resourceId now).out.records =
      (exportEvents sha256 db actorId resourceId now).out.manifestHash := by
  show computeManifestHash sha256 ((List.map AuditEvent.out _).map _) = computeManifestHash sha256 _
  rw [List.map_map]
  rfl

end Service

end AuditLog
