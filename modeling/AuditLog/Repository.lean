import AuditLog.Library.HashChain
import AuditLog.Models

/-!
# The repository layer

The queries and statements of `audit_event_repository`. A function that only
reads takes the committed state and returns rows; one that stages a row returns
what the flush produced, and `commitAppend` makes it visible. Every call to the
database can fail for reasons outside the model (`DbError.driver`).
-/

namespace AuditLog

/-! ## Failures -/

/-- The points at which a service talks to the database. -/
inductive DbCall where
  | lockForAppend
  | getIdempotencyRecord
  | getEvent
  | getLastEvent
  | insertEvent
  | recordIdempotencyKey
  | commit
  | refresh
deriving DecidableEq

inductive DbError where
  | driver (call : DbCall)
  | integrity (constraint : String)
deriving DecidableEq

/-- Which calls fail for a reason outside the model: a lost connection, a
timeout, a value the column does not take. -/
abbrev Failures := DbCall → Bool

/-- Every call reaches the database. -/
def noFailure : Failures := fun _ => false

namespace Repo

/-! ## Queries -/

/-- `list_all_events`. -/
def listAllEvents (db : Database) : List AuditEvent := db.auditEvents

/-- `get_last_event`: the row with the largest id, archived ones included. -/
def getLastEvent (db : Database) : Option AuditEvent := db.auditEvents.getLast?

/-- `get_event`. -/
def getEvent (db : Database) (eventId : Int) : Option AuditEvent :=
  db.auditEvents.find? (·.id = eventId)

/-- `get_idempotency_record`: a missing username matches no row. -/
def getIdempotencyRecord (db : Database) (username : Option PyStr) (idempotencyKey : PyStr) :
    Option IdempotencyKey :=
  db.idempotencyKeys.find? fun k => some k.username = username ∧ k.idempotencyKey = idempotencyKey

/-- `if value is not None: query = query.filter(p value)`. -/
def narrow {α : Type} (value : Option α) (p : α → AuditEvent → Bool) (query : List AuditEvent) :
    List AuditEvent :=
  match value with
  | none => query
  | some v => query.filter (p v)

/-- The filters of both list queries. -/
structure EventFilter where
  actorId : Option PyStr := none
  resourceType : Option PyStr := none
  resourceId : Option PyStr := none
  startTime : Option DateTime := none
  endTime : Option DateTime := none
deriving DecidableEq

/-- `list_events`: archived rows are left out. -/
def listEvents (db : Database) (tenantId eventType : Option PyStr) (filter : EventFilter)
    (limit offset : Nat) : List AuditEvent :=
  let query := db.auditEvents.filter fun e => e.archivedAt = none
  let query := narrow tenantId (fun v e => e.tenantId = v) query
  let query := narrow filter.actorId (fun v e => e.actorId = v) query
  let query := narrow eventType (fun v e => e.eventType = v) query
  let query := narrow filter.resourceType (fun v e => e.resourceType = v) query
  let query := narrow filter.resourceId (fun v e => e.resourceId = v) query
  let query := narrow filter.startTime (fun v e => v ≤ e.timestamp) query
  let query := narrow filter.endTime (fun v e => e.timestamp ≤ v) query
  -- The rows are in id order already; pages are cut from what is left.
  (query.drop offset).take limit

/-- `list_events_including_archived`. -/
def listEventsIncludingArchived (db : Database) (filter : EventFilter) : List AuditEvent :=
  let query := db.auditEvents
  let query := narrow filter.actorId (fun v e => e.actorId = v) query
  let query := narrow filter.resourceType (fun v e => e.resourceType = v) query
  let query := narrow filter.resourceId (fun v e => e.resourceId = v) query
  let query := narrow filter.startTime (fun v e => v ≤ e.timestamp) query
  narrow filter.endTime (fun v e => e.timestamp ≤ v) query

/-! ## Statements -/

/-- `insert_event`: the flush draws an id and checks the unique `event_hash`. A
failed flush keeps the id that was drawn. -/
def insertEvent (fails : Failures) (db : Database) (content : EventContent) (eventHash : PyStr) :
    Except DbError AuditEvent × Database :=
  -- The id comes from the sequence, which no failure and no rollback sets back.
  if fails .insertEvent then (.error (.driver .insertEvent), db.drawEventId)
  else if ∃ e ∈ db.auditEvents, e.eventHash = eventHash then
    (.error (.integrity "audit_events_event_hash_key"), db.drawEventId)
  else (.ok { toEventContent := content, id := db.nextEventId, eventHash }, db.drawEventId)

/-- `record_idempotency_key`: `username` is not nullable, and the pair is unique. -/
def recordIdempotencyKey (fails : Failures) (db : Database) (username : Option PyStr)
    (idempotencyKey requestFingerprint : PyStr) (eventId : Int) (now : DateTime) :
    Except DbError IdempotencyKey :=
  if fails .recordIdempotencyKey then .error (.driver .recordIdempotencyKey)
  else
    match username with
    -- A key without a user passes the lookup and fails here.
    | none => .error (.integrity "username")
    | some username =>
      if (getIdempotencyRecord db (some username) idempotencyKey).isSome then
        .error (.integrity "uq_idempotency_username_key")
      else .ok ⟨username, idempotencyKey, requestFingerprint, eventId, now⟩

/-- The commit of an append: the staged rows become visible together. -/
def commitAppend (fails : Failures) (db : Database) (event : AuditEvent)
    (record : Option IdempotencyKey) : Except DbError Database :=
  if fails .commit then .error (.driver .commit)
  -- The flush has reserved the id, so the primary key holds; the check keeps it total.
  else if h : event.id < db.nextEventId ∧ ∀ e ∈ db.auditEvents, e.id ≠ event.id then
    .ok { db.insertEvent event h.1 with idempotencyKeys := db.idempotencyKeys ++ record.toList }
  else .error (.integrity "audit_events_pkey")

/-- `archive_events_older_than`: one `UPDATE`; returns the number of rows archived. -/
def archiveEventsOlderThan (db : Database) (cutoff now : DateTime) : Nat × Database :=
  (db.auditEvents.countP fun e => e.archivedAt = none ∧ e.timestamp < cutoff,
    db.mapEvents (fun e =>
      if e.archivedAt = none ∧ e.timestamp < cutoff then { e with archivedAt := some now } else e)
      fun e => by split <;> rfl)

/-- The four columns `redact_event_fields` sets. -/
structure RedactionUpdate where
  payload : Payload
  redactedFields : List PyStr
  redactedFieldHashes : List (PyStr × PyStr)
  now : DateTime
deriving DecidableEq

def RedactionUpdate.apply (u : RedactionUpdate) (e : AuditEvent) : AuditEvent :=
  { e with
    payload := u.payload
    redactedFields := some u.redactedFields
    redactedFieldHashes := some u.redactedFieldHashes
    redactedAt := some u.now }

/-- `redact_event_fields`: sets the four columns of the row with the given id. The ORM leaves a
payload that is as the session has read it out of the `UPDATE`; here it is written all the same,
which differs only if another redaction has come between the read and the `UPDATE`. -/
def redactEventFields (db : Database) (eventId : Int) (u : RedactionUpdate) : Database :=
  db.mapEvents (fun e => if e.id = eventId then u.apply e else e)
    fun e => by split <;> rfl

/-! ## What the queries return -/

theorem getEvent_eq_some_iff (db : Database) (eventId : Int) (e : AuditEvent) :
    getEvent db eventId = some e ↔ e ∈ db.auditEvents ∧ e.id = eventId := by
  constructor
  · intro h
    exact ⟨List.mem_of_find?_eq_some h, by simpa using List.find?_some h⟩
  · rintro ⟨hmem, hid⟩
    cases hf : getEvent db eventId with
    | none =>
      unfold getEvent at hf
      rw [List.find?_eq_none] at hf
      exact absurd (decide_eq_true hid) (hf e hmem)
    | some e' =>
      -- What was found has the same id, so it is the same row.
      have hid' : e'.id = eventId := by simpa using List.find?_some hf
      rw [db.eq_of_id_eq (List.mem_of_find?_eq_some hf) hmem (by rw [hid', hid])]

theorem narrow_eq_filter {α : Type} (value : Option α) (p : α → AuditEvent → Bool)
    (query : List AuditEvent) : narrow value p query = query.filter fun e => value.all (p · e) := by
  cases value with
  | none => simp [narrow]
  | some v => rfl

/-- The row passes every filter that is given. -/
def EventFilter.matches (filter : EventFilter) (e : AuditEvent) : Bool :=
  filter.actorId.all (e.actorId = ·) && filter.resourceType.all (e.resourceType = ·) &&
    filter.resourceId.all (e.resourceId = ·) && filter.startTime.all (· ≤ e.timestamp) &&
    filter.endTime.all (e.timestamp ≤ ·)

/-- One pass over the rows instead of five. -/
theorem listEventsIncludingArchived_eq (db : Database) (filter : EventFilter) :
    listEventsIncludingArchived db filter = db.auditEvents.filter filter.matches := by
  unfold listEventsIncludingArchived EventFilter.matches
  simp only [narrow_eq_filter, List.filter_filter]
  congr 1
  funext e
  ac_rfl

/-- The two list queries agree but for archived rows: on one page that holds them all,
`list_events` without a tenant and an event type shows what is not archived. -/
theorem listEvents_eq_filter (db : Database) (filter : EventFilter) {limit : Nat}
    (hlimit : db.auditEvents.length ≤ limit) :
    listEvents db none none filter limit 0 =
      (listEventsIncludingArchived db filter).filter fun e => e.archivedAt = none := by
  have hquery : listEvents db none none filter limit 0 = List.take limit
      ((db.auditEvents.filter filter.matches).filter fun e => e.archivedAt = none) := by
    unfold listEvents EventFilter.matches
    simp only [narrow_eq_filter, List.filter_filter, List.drop_zero, Option.all_none, Bool.true_and]
    congr 2
    funext e
    ac_rfl
  have hlength : ((db.auditEvents.filter filter.matches).filter fun e => e.archivedAt = none).length ≤
      limit := by
    have hfirst := List.length_filter_le filter.matches db.auditEvents
    have hsecond := List.length_filter_le (fun e : AuditEvent => decide (e.archivedAt = none))
      (db.auditEvents.filter filter.matches)
    omega
  rw [hquery, List.take_of_length_le hlength, listEventsIncludingArchived_eq]

/-- What an append reads: the last row's hash, or the genesis value. -/
def lastHash (db : Database) : PyStr :=
  match getLastEvent db with
  | some lastEvent => lastEvent.eventHash
  | none => GENESIS_HASH

/-- An append links to the tip of the chain. -/
theorem lastHash_eq_tip (db : Database) :
    lastHash db = HashChain.tip AuditEvent.eventHash GENESIS_HASH db.auditEvents := by
  rw [HashChain.tip_eq_getLast?]
  unfold lastHash getLastEvent
  cases db.auditEvents.getLast? <;> rfl

/-! ## What the statements do -/

/-- The update puts the row it writes in the place of the one that is there. -/
theorem redactEventFields_auditEvents {db : Database} {eventId : Int} {row : AuditEvent}
    (u : RedactionUpdate) (h : getEvent db eventId = some row) :
    (redactEventFields db eventId u).auditEvents =
      Table.replace AuditEvent.id db.auditEvents eventId (u.apply row) := by
  rcases (getEvent_eq_some_iff db eventId row).mp h with ⟨hmem, hid⟩
  exact Table.map_update_eq_replace db.ordered hmem hid u.apply

theorem getEvent_of_auditEvents_eq {db db' : Database} (h : db'.auditEvents = db.auditEvents)
    (eventId : Int) : getEvent db' eventId = getEvent db eventId := by
  unfold getEvent
  rw [h]

/-- The row that a redaction wrote. -/
theorem getEvent_redactEventFields {db : Database} {eventId : Int} {row : AuditEvent}
    (u : RedactionUpdate) (h : getEvent db eventId = some row) :
    getEvent (redactEventFields db eventId u) eventId = some (u.apply row) := by
  rw [getEvent_eq_some_iff, redactEventFields_auditEvents u h]
  rcases (getEvent_eq_some_iff db eventId row).mp h with ⟨hmem, hid⟩
  have hkey : (u.apply row).id = eventId := hid
  exact ⟨(Table.mem_replace_iff AuditEvent.id hmem hid hkey).mpr (Or.inr rfl), hkey⟩

/-- An append leaves the rows that are there where they are. -/
theorem getEvent_of_concat {db db' : Database} {eventId : Int} {row event : AuditEvent}
    (hrows : db'.auditEvents = db.auditEvents ++ [event]) (h : getEvent db eventId = some row) :
    getEvent db' eventId = some row := by
  rw [getEvent_eq_some_iff] at h ⊢
  rw [hrows]
  exact ⟨List.mem_append_left _ h.1, h.2⟩

/-- A flush stages a row with the next id, or fails; the committed rows stay. -/
theorem insertEvent_cases {fails : Failures} {db db' : Database} {content : EventContent}
    {eventHash : PyStr} {r : Except DbError AuditEvent}
    (h : insertEvent fails db content eventHash = (r, db')) :
    db' = db.drawEventId ∧ ((∃ err, r = .error err) ∨
      (r = .ok { toEventContent := content, id := db.nextEventId, eventHash } ∧
        ∀ e ∈ db.auditEvents, e.eventHash ≠ eventHash)) := by
  unfold insertEvent at h
  split at h
  · cases h
    exact ⟨rfl, Or.inl ⟨_, rfl⟩⟩
  · split at h
    · cases h
      exact ⟨rfl, Or.inl ⟨_, rfl⟩⟩
    · rename_i hfresh
      cases h
      exact ⟨rfl, Or.inr ⟨rfl, fun e he heq => hfresh ⟨e, he, heq⟩⟩⟩

/-- A commit appends the staged row when its id is the largest. -/
theorem commitAppend_cases {fails : Failures} {db db' : Database} {event : AuditEvent}
    {record : Option IdempotencyKey} (hlast : ∀ e ∈ db.auditEvents, e.id < event.id)
    (h : commitAppend fails db event record = .ok db') :
    db'.auditEvents = db.auditEvents ++ [event] ∧
      db'.idempotencyKeys = db.idempotencyKeys ++ record.toList ∧
      db'.nextEventId = db.nextEventId := by
  unfold commitAppend at h
  split at h
  · cases h
  · split at h
    · rename_i hid
      cases h
      exact ⟨db.insertEvent_auditEvents event hid.1 hlast, rfl, rfl⟩
    · cases h

/-- Nothing but a failing connection stops the commit of a staged row. -/
theorem commitAppend_ok {fails : Failures} {db : Database} {event : AuditEvent}
    (record : Option IdempotencyKey) (hfails : fails .commit = false)
    (hdrawn : event.id < db.nextEventId) (hlast : ∀ e ∈ db.auditEvents, e.id < event.id) :
    ∃ db', commitAppend fails db event record = .ok db' := by
  have hid : event.id < db.nextEventId ∧ ∀ e ∈ db.auditEvents, e.id ≠ event.id := by
    refine ⟨hdrawn, ?_⟩
    intro e he
    have := hlast e he
    omega
  unfold commitAppend
  rw [hfails, if_neg Bool.false_ne_true, dif_pos hid]
  exact ⟨_, rfl⟩

end Repo

end AuditLog
