import AuditLog.Hashing
import AuditLog.Library.Table

/-!
# Tables

The `audit_events` and `audit_event_idempotency_keys` tables and the id
sequence. A `Database` is a committed state: the primary key keeps the events in
strict id order, and the sequence is ahead of every id it has handed out; both
facts are fields, so a state that breaks them cannot be built.
-/

namespace AuditLog

/-- A row of `audit_events`: the hashed columns, and those that are not hashed. -/
structure AuditEvent extends EventContent where
  id : Int
  eventHash : PyStr
  archivedAt : Option DateTime := none
  redactedAt : Option DateTime := none
  redactedFields : Option (List PyStr) := none
  redactedFieldHashes : Option (List (PyStr × PyStr)) := none
deriving DecidableEq

/-- A row of `audit_event_idempotency_keys`. -/
structure IdempotencyKey where
  username : PyStr
  idempotencyKey : PyStr
  requestFingerprint : PyStr
  eventId : Int
  createdAt : DateTime
deriving DecidableEq

structure Database where
  auditEvents : List AuditEvent
  idempotencyKeys : List IdempotencyKey
  nextEventId : Int
  ordered : auditEvents.Pairwise fun a b => a.id < b.id
  sequenceAhead : ∀ e ∈ auditEvents, e.id < nextEventId
deriving DecidableEq

namespace Database

/-- The empty tables, with a sequence that starts at 1. -/
def empty : Database := ⟨[], [], 1, List.Pairwise.nil, by simp⟩

/-- Events with the same id are the same event. -/
theorem eq_of_id_eq (db : Database) {a b : AuditEvent} (ha : a ∈ db.auditEvents)
    (hb : b ∈ db.auditEvents) (h : a.id = b.id) : a = b :=
  Table.eq_of_key_eq db.ordered ha hb h

/-- Advance the id sequence; no rollback takes this back. -/
def drawEventId (db : Database) : Database where
  auditEvents := db.auditEvents
  idempotencyKeys := db.idempotencyKeys
  nextEventId := db.nextEventId + 1
  ordered := db.ordered
  sequenceAhead := fun e he => by
    have := db.sequenceAhead e he
    omega

/-- Update columns other than the primary key, row by row. -/
def mapEvents (db : Database) (f : AuditEvent → AuditEvent) (hid : ∀ e, (f e).id = e.id) :
    Database where
  auditEvents := db.auditEvents.map f
  idempotencyKeys := db.idempotencyKeys
  nextEventId := db.nextEventId
  ordered := by
    rw [List.pairwise_map]
    exact db.ordered.imp fun {a b} h => by rw [hid a, hid b]; exact h
  sequenceAhead := by
    intro e he
    rcases List.mem_map.mp he with ⟨a, ha, rfl⟩
    rw [hid a]
    exact db.sequenceAhead a ha

/-- Insert a row at its place in id order: nothing in the schema makes sessions
commit in the order of their ids. -/
def insertEvent (db : Database) (e : AuditEvent) (h : e.id < db.nextEventId) : Database where
  auditEvents := db.auditEvents.filter (·.id < e.id) ++ e :: db.auditEvents.filter (e.id < ·.id)
  idempotencyKeys := db.idempotencyKeys
  nextEventId := db.nextEventId
  ordered := by
    rw [List.pairwise_append, List.pairwise_cons]
    refine ⟨db.ordered.filter _, ⟨?_, db.ordered.filter _⟩, ?_⟩
    · intro b hb
      simpa using (List.mem_filter.mp hb).2
    · intro a ha b hb
      have hlt : a.id < e.id := by simpa using (List.mem_filter.mp ha).2
      rcases List.mem_cons.mp hb with rfl | hb
      · exact hlt
      · have hgt : e.id < b.id := by simpa using (List.mem_filter.mp hb).2
        omega
  sequenceAhead := by
    intro a ha
    rcases List.mem_append.mp ha with ha | ha
    · exact db.sequenceAhead a (List.mem_filter.mp ha).1
    · rcases List.mem_cons.mp ha with rfl | ha
      · exact h
      · exact db.sequenceAhead a (List.mem_filter.mp ha).1

/-- A row with a fresh largest id goes to the end. -/
theorem insertEvent_auditEvents (db : Database) (e : AuditEvent) (h : e.id < db.nextEventId)
    (hlast : ∀ a ∈ db.auditEvents, a.id < e.id) :
    (db.insertEvent e h).auditEvents = db.auditEvents ++ [e] := by
  have hbefore : db.auditEvents.filter (·.id < e.id) = db.auditEvents := by
    rw [List.filter_eq_self]
    intro a ha
    simpa using hlast a ha
  have hafter : db.auditEvents.filter (e.id < ·.id) = [] := by
    rw [List.filter_eq_nil_iff]
    intro a ha
    have := hlast a ha
    simp only [decide_eq_true_eq]
    omega
  show db.auditEvents.filter (·.id < e.id) ++ e :: db.auditEvents.filter (e.id < ·.id) = _
  rw [hbefore, hafter]

@[simp] theorem drawEventId_auditEvents (db : Database) :
    db.drawEventId.auditEvents = db.auditEvents := rfl

@[simp] theorem drawEventId_idempotencyKeys (db : Database) :
    db.drawEventId.idempotencyKeys = db.idempotencyKeys := rfl

@[simp] theorem drawEventId_nextEventId (db : Database) :
    db.drawEventId.nextEventId = db.nextEventId + 1 := rfl

@[simp] theorem mapEvents_auditEvents (db : Database) (f : AuditEvent → AuditEvent)
    (hid : ∀ e, (f e).id = e.id) : (db.mapEvents f hid).auditEvents = db.auditEvents.map f := rfl

@[simp] theorem mapEvents_idempotencyKeys (db : Database) (f : AuditEvent → AuditEvent)
    (hid : ∀ e, (f e).id = e.id) : (db.mapEvents f hid).idempotencyKeys = db.idempotencyKeys := rfl

@[simp] theorem mapEvents_nextEventId (db : Database) (f : AuditEvent → AuditEvent)
    (hid : ∀ e, (f e).id = e.id) : (db.mapEvents f hid).nextEventId = db.nextEventId := rfl

end Database

/-! ## Content hashes of rows -/

/-- The bytes whose digests the rows of a table are checked against. -/
def hashInputs (events : List AuditEvent) : Set Bytes :=
  {input | ∃ e ∈ events, input = e.toEventContent.canonical}

theorem canonical_mem_hashInputs {events : List AuditEvent} {e : AuditEvent} (h : e ∈ events) :
    e.toEventContent.canonical ∈ hashInputs events := ⟨e, h, rfl⟩

section ContentHash

variable (sha256 : Bytes → PyStr)

/-- `_content_hash`: the hash of a row's current content. -/
def contentHash (event : AuditEvent) : PyStr := computeEventHash sha256 event.toEventContent

/-- Rows with distinct content hashes leave no collision among their contents. -/
theorem collisionFree_of_contentHashes {events : List AuditEvent}
    (h : (events.map (contentHash sha256)).Nodup) : CollisionFree sha256 (hashInputs events) := by
  rintro a ⟨e, he, rfl⟩ b ⟨f, hf, rfl⟩ heq
  rw [List.inj_on_of_nodup_map h he hf heq]

end ContentHash

end AuditLog
