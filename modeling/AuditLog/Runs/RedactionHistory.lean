import AuditLog.Concurrency.RedactionRuns
import AuditLog.Library.History

/-!
# The redaction history of one record

A sequential run of `redact_event_fields` calls on one event, from the state it was created
in. The original values are gone from the table after the run; what the row says about them
is related here to the event as it was.
-/

namespace AuditLog

/-- One call on the record: its arguments, and what fails in its two transactions. -/
structure RedactCall where
  fields : List PyStr
  actorId : PyStr
  reason : Option PyStr := none
  now : DateTime
  companionNow : DateTime
  payloadFails : Failures := noFailure
  companionFails : Failures := noFailure

/-- The call as a request for the event. -/
def RedactCall.request (call : RedactCall) (eventId : Int) : RedactRequest :=
  { eventId, fields := call.fields, actorId := call.actorId, reason := call.reason, now := call.now }

section Run

variable (sha256 : Bytes → PyStr) (settings : Settings) (eventId : Int)

/-- `redact_event_fields` for the event, on the table as it is. -/
def RedactCall.run (call : RedactCall) (db : Database) : Except ServiceError RedactionResult × Database :=
  redactEventFields sha256 settings call.payloadFails call.companionFails db (call.request eventId)
    call.companionNow

/-- The calls one after the other, whether they return or raise. -/
def redactAll (db : Database) (calls : List RedactCall) : Database :=
  calls.foldl (fun db call => (call.run sha256 settings eventId db).2) db

/-- The call gets past the check for redactable fields. -/
def PastCheck (db : Database) (call : RedactCall) : Prop :=
  call.payloadFails .getEvent = false ∧ ∃ event, Redacts db (call.request eventId) event

/-- The call gets past the check, and its payload commit goes through. -/
def Committed (db : Database) (call : RedactCall) : Prop :=
  PastCheck eventId db call ∧ call.payloadFails .commit = false

end Run

/-- An event that no redaction has touched. -/
structure AsCreated (event : AuditEvent) : Prop where
  redactedFields : event.redactedFields = none
  redactedFieldHashes : event.redactedFieldHashes = none
  redactedAt : event.redactedAt = none

/-- What the four redaction columns of `row` say about the event as it was created, after
calls that have asked for the fields in `asked`. -/
structure RedactionHistory (sha256 : Bytes → PyStr) (event : AuditEvent) (asked : PyStr → Prop)
    (row : AuditEvent) : Prop where
  keys : Dict.keys row.payload.fields = Dict.keys event.payload.fields
  fields : ∀ f, f ∈ alreadyRedacted row ↔ event.payload.contains f = true ∧ asked f
  marked : ∀ f ∈ alreadyRedacted row, row.payload.get? f = some (.str REDACTED_MARKER)
  hashes : ∀ f ∈ alreadyRedacted row,
    Dict.get (row.redactedFieldHashes.getD []) f = some (hashFieldValue sha256 (event.payload.get f))
  others : ∀ f, f ∉ alreadyRedacted row → row.payload.get? f = event.payload.get? f
  sorted : (alreadyRedacted row).Pairwise PyStr.le
  nodup : (alreadyRedacted row).Nodup
  hashKeys : ∀ f, f ∈ Dict.keys (row.redactedFieldHashes.getD []) ↔ f ∈ alreadyRedacted row
  redactedAt : row.redactedAt ≠ none ↔ alreadyRedacted row ≠ []
  archivedAt : row.archivedAt = event.archivedAt
  /-- `id`, `event_hash`, `previous_hash` and the other columns of the content. -/
  retouched : Retouched event row

variable {sha256 : Bytes → PyStr} {settings : Settings}

/-- Before the first call: nothing has been asked for, nothing is marked. -/
theorem RedactionHistory.of_asCreated {event : AuditEvent} (h : AsCreated event) {asked : PyStr → Prop}
    (hasked : ∀ f, ¬asked f) : RedactionHistory sha256 event asked event := by
  have hnone : alreadyRedacted event = [] := by
    unfold alreadyRedacted
    rw [h.redactedFields, Option.getD_none]
  constructor
  case keys => rfl
  case fields => simp [hnone, hasked]
  case marked => simp [hnone]
  case hashes => simp [hnone]
  case others => exact fun _ _ => rfl
  case sorted => simp [hnone]
  case nodup => simp [hnone]
  case hashKeys => simp [hnone, h.redactedFieldHashes]
  case redactedAt => simp [hnone, h.redactedAt]
  case archivedAt => rfl
  case retouched => exact Retouched.refl event

/-! ## One redaction -/

/-- `k in payload` is membership in the keys. -/
theorem contains_iff_mem_keys {p : Payload} {f : PyStr} :
    p.contains f = true ↔ f ∈ Dict.keys p.fields :=
  Dict.get_isSome_iff p.fields f

/-- Marking fields, as writes to the dict of the payload. -/
theorem fields_foldl_setStr (p : Payload) (fields : List PyStr) :
    (fields.foldl (fun payload f => payload.setStr f REDACTED_MARKER) p).fields =
      fields.foldl (fun d f => Dict.set d f (.str REDACTED_MARKER)) p.fields := by
  induction fields generalizing p with
  | nil => rfl
  | cons f fields ih => exact ih (p.setStr f REDACTED_MARKER)

/-- Redacting fields that are there keeps the keys. -/
theorem keys_redactedPayload {event : AuditEvent} {fields : List PyStr}
    (h : ∀ f ∈ fields, event.payload.contains f = true) :
    Dict.keys (redactedPayload event fields).fields = Dict.keys event.payload.fields := by
  unfold redactedPayload
  rw [fields_foldl_setStr]
  exact Dict.keys_foldl_set_of_mem (fun f hf => contains_iff_mem_keys.mp (h f hf)) _

namespace RedactionHistory

variable {event row : AuditEvent} {asked : PyStr → Prop}

/-- A field the row still lists as unredacted has its original value. -/
theorem get_of_fieldsToRedact (h : RedactionHistory sha256 event asked row) {fields : List PyStr}
    {f : PyStr} (hf : f ∈ fieldsToRedact row fields) : row.payload.get f = event.payload.get f := by
  unfold Payload.get
  rw [h.others f (mem_fieldsToRedact.mp hf).2.2]

/-- The payload has the keys it was created with. -/
theorem contains_iff (h : RedactionHistory sha256 event asked row) {f : PyStr} :
    row.payload.contains f = true ↔ event.payload.contains f = true := by
  rw [contains_iff_mem_keys, contains_iff_mem_keys, h.keys]

/-- **One more redaction**: it marks and hashes the fields that still had their original
values, and leaves what earlier calls did. -/
theorem redact (h : RedactionHistory sha256 event asked row) {req : RedactRequest}
    (hfresh : fieldsToRedact row req.fields ≠ []) :
    RedactionHistory sha256 event (fun f => asked f ∨ f ∈ req.fields) (redactedRow sha256 req row) := by
  -- The three columns after the redaction, in terms of those before it.
  have hmem : ∀ f, f ∈ alreadyRedacted (redactedRow sha256 req row) ↔
      f ∈ alreadyRedacted row ∨ f ∈ fieldsToRedact row req.fields :=
    fun f => mem_alreadyRedacted_redactionUpdate
  have hpayload : ∀ f, (redactedRow sha256 req row).payload.get? f =
      if f ∈ fieldsToRedact row req.fields then some (.str REDACTED_MARKER) else row.payload.get? f :=
    get?_redactedPayload row _
  have hhashes : ∀ f, Dict.get ((redactedRow sha256 req row).redactedFieldHashes.getD []) f =
      if f ∈ fieldsToRedact row req.fields then some (hashFieldValue sha256 (row.payload.get f))
      else Dict.get (row.redactedFieldHashes.getD []) f :=
    get_redactedFieldHashes row row _ req.now
  constructor
  case keys =>
    exact (keys_redactedPayload fun f hf => (mem_fieldsToRedact.mp hf).2.1).trans h.keys
  case fields =>
    intro f
    rw [hmem, h.fields, mem_fieldsToRedact, h.contains_iff, h.fields]
    by_cases hasked : asked f <;> by_cases hkey : event.payload.contains f = true <;>
      simp [hasked, hkey]
  case marked =>
    intro f hf
    rw [hpayload]
    split
    · rfl
    · rename_i hold
      exact h.marked f (((hmem f).mp hf).resolve_right hold)
  -- A field that is hashed now still had its original value; earlier hashes are kept.
  case hashes =>
    intro f hf
    refine (hhashes f).trans ?_
    split
    · rename_i hnew
      rw [h.get_of_fieldsToRedact hnew]
    · rename_i hold
      exact h.hashes f (((hmem f).mp hf).resolve_right hold)
  case others =>
    intro f hf
    have hboth := not_or.mp (fun hor => hf ((hmem f).mpr hor))
    rw [hpayload, if_neg hboth.2]
    exact h.others f hboth.1
  case sorted => exact List.pairwise_insertionSort _ _
  case nodup =>
    exact (List.perm_insertionSort _ _).nodup_iff.mpr (List.nodup_dedup _)
  case hashKeys =>
    intro f
    rw [← Dict.get_isSome_iff, hmem, ← h.hashKeys, ← Dict.get_isSome_iff]
    rw [hhashes]
    split
    · rename_i hnew
      simp [hnew]
    · rename_i hold
      simp [hold]
  case redactedAt =>
    obtain ⟨f, hf⟩ := List.exists_mem_of_ne_nil _ hfresh
    have hlisted := (hmem f).mpr (Or.inr hf)
    exact iff_of_true (Option.some_ne_none _) (List.ne_nil_of_mem hlisted)
  case archivedAt => exact h.archivedAt
  case retouched => exact h.retouched.trans rfl

end RedactionHistory

/-! ## Runs -/

section Run

variable {event row : AuditEvent} {db : Database}

/-- The last call runs on what the earlier ones have left. -/
theorem redactAll_concat (eventId : Int) (calls : List RedactCall) (call : RedactCall) :
    redactAll sha256 settings eventId db (calls ++ [call]) =
      (call.run sha256 settings eventId (redactAll sha256 settings eventId db calls)).2 := by
  unfold redactAll
  rw [List.foldl_append]
  rfl

/-- A call that does not commit leaves the table as it is. -/
theorem RedactCall.run_of_not_committed {eventId : Int} {call : RedactCall}
    (h : ¬Committed eventId db call) : (call.run sha256 settings eventId db).2 = db := by
  refine (redactEventFields_of_not_redacts ?_ Prod.mk.eta.symm).1
  intro event hredacts
  by_contra hneither
  rw [not_or, Bool.not_eq_true, Bool.not_eq_true] at hneither
  exact h ⟨⟨hneither.1, event, hredacts⟩, hneither.2⟩

variable (sha256 settings) in
/-- A call that commits rewrites the row, and appends at most a companion. -/
theorem RedactCall.run_of_committed {eventId : Int} {call : RedactCall}
    (h : Committed eventId db call) (hfound : Repo.getEvent db eventId = some row) :
    fieldsToRedact row call.fields ≠ [] ∧ ∃ companions,
      (call.run sha256 settings eventId db).2.auditEvents =
        (tombstoned sha256 db (call.request eventId) row).auditEvents ++ companions := by
  obtain ⟨⟨hget, row', hredacts⟩, hcommit⟩ := h
  obtain rfl : row' = row := Option.some.inj (hredacts.found.symm.trans hfound)
  refine ⟨hredacts.fresh, ?_⟩
  unfold RedactCall.run
  rw [redactEventFields_of_redacts hredacts hget hcommit]
  rcases appendCompanion_cases Prod.mk.eta.symm with ⟨hrows, -⟩ | ⟨body, -, hrows, -⟩
  · exact ⟨[], hrows.trans (List.append_nil _).symm⟩
  · exact ⟨_, hrows⟩

/-- The rows of the table: those before the event, the event's row, those after it. -/
theorem getEvent_of_split {before after : List AuditEvent}
    (hrows : db.auditEvents = before ++ row :: after) : Repo.getEvent db row.id = some row := by
  rw [Repo.getEvent_eq_some_iff, hrows]
  exact ⟨List.mem_append_right _ List.mem_cons_self, rfl⟩

/-- The payload commit replaces the row at its place. -/
theorem tombstoned_split {before after : List AuditEvent} {req : RedactRequest}
    (hrows : db.auditEvents = before ++ row :: after) (hid : req.eventId = row.id) :
    (tombstoned sha256 db req row).auditEvents =
      before ++ redactedRow sha256 req row :: after := by
  have hordered := db.ordered
  rw [hrows] at hordered
  rw [tombstoned_auditEvents (hid ▸ getEvent_of_split hrows), hrows]
  exact Table.replace_split hordered rfl

/-- **The history invariant**: wherever the run stands, the row is at its place with the
history of the calls so far, the other rows are untouched, and companions follow. -/
theorem redactAll_history (sha256 : Bytes → PyStr) (settings : Settings) (hcreated : AsCreated event)
    {before after : List AuditEvent} (hrows : db.auditEvents = before ++ event :: after)
    (calls : List RedactCall) :
    ∃ row companions,
      (redactAll sha256 settings event.id db calls).auditEvents =
        before ++ row :: (after ++ companions) ∧
      RedactionHistory sha256 event (fun f => History.ForSome (fun earlier call =>
        Committed event.id (redactAll sha256 settings event.id db earlier) call ∧
          f ∈ call.fields) calls) row := by
  -- By induction on the calls from the end: the last one commits, or changes nothing.
  induction calls using List.reverseRecOn with
  | nil =>
    refine ⟨event, [], by rw [List.append_nil]; exact hrows, ?_⟩
    exact RedactionHistory.of_asCreated hcreated fun f => History.not_forSome_nil
  | append_singleton calls call ih =>
    obtain ⟨row, companions, hsplit, hhistory⟩ := ih
    have hid : row.id = event.id := hhistory.retouched.id
    rw [redactAll_concat]
    by_cases hcommitted : Committed event.id (redactAll sha256 settings event.id db calls) call
    · obtain ⟨hfresh, companion, hafter⟩ :=
        RedactCall.run_of_committed sha256 settings hcommitted (hid ▸ getEvent_of_split hsplit)
      rw [tombstoned_split hsplit hid.symm] at hafter
      refine ⟨redactedRow sha256 (call.request event.id) row, companions ++ companion, ?_, ?_⟩
      · rw [hafter]
        simp only [List.append_assoc, List.cons_append]
      · simp only [History.forSome_concat, hcommitted, true_and]
        have hreq : fieldsToRedact row (call.request event.id).fields ≠ [] := hfresh
        exact hhistory.redact hreq
    · rw [RedactCall.run_of_not_committed hcommitted]
      refine ⟨row, companions, hsplit, ?_⟩
      simp only [History.forSome_concat, hcommitted, false_and, or_false]
      exact hhistory

/-- **The redaction history of one record**: whatever calls a sequential run makes, the row
of the event says which fields were asked for by a call whose payload commit went through,
and holds the hash of what each of them was when the event was created. -/
theorem redaction_history (sha256 : Bytes → PyStr) (settings : Settings) (hmem : event ∈ db.auditEvents)
    (hcreated : AsCreated event) (calls : List RedactCall) :
    ∃ before row after companions,
      db.auditEvents = before ++ event :: after ∧
      (redactAll sha256 settings event.id db calls).auditEvents =
        before ++ row :: (after ++ companions) ∧
      RedactionHistory sha256 event (fun f => History.ForSome (fun earlier call =>
        Committed event.id (redactAll sha256 settings event.id db earlier) call ∧
          f ∈ call.fields) calls) row := by
  obtain ⟨before, after, hrows⟩ := List.append_of_mem hmem
  obtain ⟨row, companions, hsplit, hhistory⟩ :=
    redactAll_history sha256 settings hcreated hrows calls
  exact ⟨before, row, after, companions, hrows, hsplit, hhistory⟩

end Run

/-! ## A small run -/

/-- The event of the table with one event. -/
def createdEvent : AuditEvent := appendedEvent Sha256.hexdigest .empty (createRequest .sample) .sample

theorem createdEvent_mem : createdEvent ∈ createdTable.auditEvents := by
  rw [createdTable, eventTable_auditEvents]
  exact List.mem_singleton_self _

theorem createdEvent_asCreated : AsCreated createdEvent := ⟨rfl, rfl, rfl⟩

/-- A request for the sample event's field, for an unknown one, and for the field again. -/
def sampleCall : RedactCall :=
  { fields := ["x", "unknown", "x"], actorId := "z", now := .sample, companionNow := .sample }

/-- The same field twice in one request, and once more in another one. -/
theorem redaction_history_repeated :
    ∃ before row after companions,
      createdTable.auditEvents = before ++ createdEvent :: after ∧
      (redactAll Sha256.hexdigest {} createdEvent.id createdTable [sampleCall, sampleCall]).auditEvents =
        before ++ row :: (after ++ companions) ∧
      RedactionHistory Sha256.hexdigest createdEvent (fun f => History.ForSome (fun earlier call =>
        Committed createdEvent.id
          (redactAll Sha256.hexdigest {} createdEvent.id createdTable earlier) call ∧
          f ∈ call.fields) [sampleCall, sampleCall]) row :=
  redaction_history Sha256.hexdigest {} createdEvent_mem createdEvent_asCreated _

/-- A call that gets past the check has asked for its fields, but when the commit of the
payload raises, none of them is redacted. -/
theorem redaction_lost_with_commit :
    ¬∀ (db : Database) (event : AuditEvent) (calls : List RedactCall), event ∈ db.auditEvents →
      AsCreated event →
      ∃ row ∈ (redactAll Sha256.hexdigest {} event.id db calls).auditEvents, row.id = event.id ∧
        ∀ f, f ∈ alreadyRedacted row ↔ event.payload.contains f = true ∧
          History.ForSome (fun earlier call =>
            PastCheck event.id (redactAll Sha256.hexdigest {} event.id db earlier) call ∧
              f ∈ call.fields) calls := by
  intro hclaim
  let call : RedactCall := { sampleCall with payloadFails := (· = .commit) }
  have hrun : redactAll Sha256.hexdigest {} createdEvent.id createdTable [call] = createdTable :=
    RedactCall.run_of_not_committed fun h => Bool.true_eq_false_eq_False h.2
  obtain ⟨row, hrow, -, hfields⟩ := hclaim createdTable createdEvent [call] createdEvent_mem
    createdEvent_asCreated
  rw [hrun, createdTable, eventTable_auditEvents, List.mem_singleton] at hrow
  have hpast : PastCheck createdEvent.id createdTable call := by
    refine ⟨rfl, createdEvent, ?_, by decide +kernel⟩
    exact (Repo.getEvent_eq_some_iff _ _ _).mpr ⟨createdEvent_mem, rfl⟩
  have hredacted := (hfields "x").mpr ⟨by decide +kernel, [], call, [], rfl, hpast, by decide⟩
  rw [hrow] at hredacted
  cases hredacted

end AuditLog
