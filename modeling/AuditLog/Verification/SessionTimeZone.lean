import AuditLog.HashedContent
import AuditLog.Verification.Preservation

/-!
# Rows read in a session time zone

A `timestamptz` column keeps the instant alone. What comes back is an aware datetime
at the offset of the session that reads, and the text that is hashed shows that
offset: a row keeps its hash only in sessions at the offset it was hashed at.
-/

namespace AuditLog

/-- The UTC offset of a session, in seconds. -/
structure UtcOffset where
  seconds : Int
  inRange : -86400 < seconds ∧ seconds < 86400

/-- What a `timestamptz` column that holds `t` reads as. -/
def DateTime.readAt (t : DateTime) (offset : UtcOffset) : Option DateTime :=
  DateTime.ofInstant t.instant offset.seconds offset.inRange

/-- What a nullable `timestamptz` column reads as. -/
def readColumnAt (column : Option DateTime) (offset : UtcOffset) : Option (Option DateTime) :=
  match column with
  | none => some none
  | some t => (t.readAt offset).map some

/-- The row as a session reads it; `none` when one of its datetimes cannot be represented. -/
def AuditEvent.readAt (event : AuditEvent) (offset : UtcOffset) : Option AuditEvent :=
  match event.timestamp.readAt offset, readColumnAt event.archivedAt offset,
      readColumnAt event.redactedAt offset with
  | some timestamp, some archivedAt, some redactedAt =>
    some { event with timestamp := timestamp, archivedAt := archivedAt, redactedAt := redactedAt }
  | _, _, _ => none

theorem DateTime.readAt_eq_some_iff {t u : DateTime} {offset : UtcOffset} :
    t.readAt offset = some u ↔ u.instant = t.instant ∧ u.utcoffset = offset.seconds :=
  DateTime.ofInstant_eq_some_iff

/-- The content under another timestamp. -/
def EventContent.stamped (c : EventContent) (timestamp : DateTime) : EventContent :=
  { c with timestamp := timestamp }

/-- Reading a row changes the offsets of its datetimes, and of its content nothing else. -/
theorem AuditEvent.readAt_content {event row : AuditEvent} {offset : UtcOffset}
    (h : event.readAt offset = some row) : ∃ timestamp,
      timestamp.instant = event.timestamp.instant ∧ timestamp.utcoffset = offset.seconds ∧
        row.toEventContent = event.toEventContent.stamped timestamp ∧
        row.eventHash = event.eventHash := by
  unfold AuditEvent.readAt at h
  split at h
  · rename_i htimestamp _ _
    cases h
    rcases DateTime.readAt_eq_some_iff.mp htimestamp with ⟨hinstant, hoffset⟩
    exact ⟨_, hinstant, hoffset, rfl, rfl⟩
  · cases h

variable {sha256 : Bytes → PyStr}

/-- **One instant, two offsets.** Contents under two timestamps of one instant have the same
hash exactly when the offsets are equal. -/
theorem computeEventHash_stamped (c : EventContent) {s t : DateTime}
    (hinstant : s.instant = t.instant) :
    (s.utcoffset = t.utcoffset →
        computeEventHash sha256 (c.stamped s) = computeEventHash sha256 (c.stamped t)) ∧
      (CollisionFree sha256 {(c.stamped s).canonical, (c.stamped t).canonical} →
        computeEventHash sha256 (c.stamped s) = computeEventHash sha256 (c.stamped t) →
        s.utcoffset = t.utcoffset) := by
  constructor
  · intro hoffset
    rw [DateTime.eq_of_instant_eq hinstant hoffset]
  · intro hfree hhash
    have hcanonical := hfree (Set.mem_insert _ _) (Set.mem_insert_of_mem _ rfl) hhash
    have htext := ((EventContent.canonical_eq_iff _ _).mp hcanonical).2.2.2.2.2.2.1
    have htime : s = t := DateTime.isoformat_injective htext
    rw [htime]

/-- The row a call of `create_audit_event` adds to the table. -/
theorem createAuditEvent_new_row {settings : Settings} {fails : Failures} {db db' : Database}
    {req : CreateRequest settings} {now : DateTime} {r : Except ServiceError AuditEvent}
    (h : createAuditEvent sha256 fails db req now = (r, db')) {event : AuditEvent}
    (hmem : event ∈ db'.auditEvents) (hnew : event ∉ db.auditEvents) :
    event = appendedEvent sha256 db req now := by
  rcases createAuditEvent_cases h with ⟨hsame, -⟩ | ⟨happend, -⟩
  · rw [hsame] at hmem
    exact absurd hmem hnew
  · rw [happend] at hmem
    rcases List.mem_append.mp hmem with hold | hlast
    · exact absurd hold hnew
    · exact List.mem_singleton.mp hlast

/-- **Hashes survive storage in sessions at UTC only.** An event is hashed with a UTC
timestamp; read back in a session, it has the hash it was stored with exactly when the
offset of the session is zero. -/
theorem hash_survives_session_iff {settings : Settings} {fails : Failures} {db db' : Database}
    {req : CreateRequest settings} {now : DateTime} {r : Except ServiceError AuditEvent}
    (hcall : createAuditEvent sha256 fails db req now = (r, db')) (hutc : now.utcoffset = 0)
    {event row : AuditEvent} (hmem : event ∈ db'.auditEvents) (hnew : event ∉ db.auditEvents)
    {offset : UtcOffset} (hread : event.readAt offset = some row) :
    ((offset.seconds = 0 → contentHash sha256 row = event.eventHash) ∧
      (CollisionFree sha256 {event.toEventContent.canonical, row.toEventContent.canonical} →
        contentHash sha256 row = event.eventHash → offset.seconds = 0)) ∧
    ∀ (c : EventContent) (s t : DateTime), s.instant = t.instant →
      (s.utcoffset = t.utcoffset →
        computeEventHash sha256 (c.stamped s) = computeEventHash sha256 (c.stamped t)) ∧
      (CollisionFree sha256 {(c.stamped s).canonical, (c.stamped t).canonical} →
        computeEventHash sha256 (c.stamped s) = computeEventHash sha256 (c.stamped t) →
        s.utcoffset = t.utcoffset) := by
  refine ⟨?_, fun c s t hinstant => computeEventHash_stamped c hinstant⟩
  rcases AuditEvent.readAt_content hread with ⟨timestamp, hinstant, hoffset, hcontent, -⟩
  have hevent := createAuditEvent_new_row hcall hmem hnew
  -- The stored hash is that of the content under the time of the append.
  have hhash : event.eventHash =
      computeEventHash sha256 (event.toEventContent.stamped event.timestamp) := by
    rw [hevent]
    rfl
  have hwritten : event.timestamp.utcoffset = 0 := by
    rw [hevent]
    exact hutc
  have hboth := @computeEventHash_stamped sha256 event.toEventContent _ _ hinstant.symm
  rw [hwritten, hoffset] at hboth
  rw [contentHash, hcontent, hhash]
  constructor
  · intro hzero
    exact (hboth.1 hzero.symm).symm
  · intro hfree heq
    exact (hboth.2 hfree heq.symm).symm

/-- Five hours and a half east of UTC. -/
def halfPastFive : UtcOffset := ⟨19800, by decide⟩

/-- The first event of a table, as `create_audit_event` returns it. -/
def firstEvent : AuditEvent := appendedEvent Sha256.hexdigest .empty (createRequest .sample) .sample

theorem firstEvent_created :
    createAuditEvent Sha256.hexdigest noFailure .empty (createRequest .sample) .sample =
      (.ok firstEvent, createdTable) := rfl

/-- In a session east of UTC the first event of a table does not have its own hash. -/
theorem hash_lost_in_session : ∃ row, firstEvent.readAt halfPastFive = some row ∧
    row.timestamp.instant = firstEvent.timestamp.instant ∧
    contentHash Sha256.hexdigest row ≠ firstEvent.eventHash := by
  refine ⟨_, rfl, by decide, ?_⟩
  decide +kernel

/-- A session at UTC. -/
def utc : UtcOffset := ⟨0, utc_inRange⟩

/-- There it has. -/
theorem hash_survives_session_utc : ∃ row, firstEvent.readAt utc = some row ∧
    contentHash Sha256.hexdigest row = firstEvent.eventHash := by
  have htime : firstEvent.timestamp.readAt utc = some firstEvent.timestamp :=
    DateTime.readAt_eq_some_iff.mpr ⟨rfl, rfl⟩
  have hread : firstEvent.readAt utc = some firstEvent := by
    rw [AuditEvent.readAt, htime]
    rfl
  have hmem : firstEvent ∈ createdTable.auditEvents := List.mem_cons_self
  have hnew : firstEvent ∉ Database.empty.auditEvents := List.not_mem_nil
  exact ⟨firstEvent, hread, (hash_survives_session_iff firstEvent_created rfl hmem hnew hread).1.1 rfl⟩

end AuditLog
