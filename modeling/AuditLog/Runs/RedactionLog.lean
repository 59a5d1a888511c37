import AuditLog.Runs.RedactionHistory

/-!
# The redaction log of one record

What was redacted is recorded twice: in the row's own `redacted_fields`, a sorted set, and in
the `redactedFields` lists of the companion events, which repeat what a request repeats.
-/

namespace AuditLog

/-- The names in a companion's `redactedFields`. -/
def companionFields (event : AuditEvent) : List PyStr :=
  match event.payload.get "redactedFields" with
  | .arr names => names.filterMap fun
    | .str f => some f
    | _ => none
  | _ => []

/-- The lists of the companions that a run from `db` to `db'` has appended, one after the other. -/
def redactionLog (db db' : Database) : List PyStr :=
  (db'.auditEvents.drop db.auditEvents.length).flatMap companionFields

/-- The `redacted_fields` of the record. -/
def redactedFieldsOf (db : Database) (eventId : Int) : List PyStr :=
  ((Repo.getEvent db eventId).map alreadyRedacted).getD []

/-- The call returned, or raised `NoRedactableFieldsError`. -/
def Answered (r : Except ServiceError RedactionResult) : Prop :=
  (∃ result, r = .ok result) ∨ ∃ fields, r = .error (.noRedactableFields fields)

instance : (r : Except ServiceError RedactionResult) → Decidable (Answered r)
  | .ok result => isTrue (Or.inl ⟨result, rfl⟩)
  | .error (.noRedactableFields fields) => isTrue (Or.inr ⟨fields, rfl⟩)
  | .error (.idempotencyKeyConflict _) | .error (.eventNotFound _) | .error (.validation _)
  | .error (.database _) => isFalse (by rintro (⟨_, ⟨⟩⟩ | ⟨_, ⟨⟩⟩))

/-- The call repeats no payload key that it is the first to name. -/
def NamesOnce (event : AuditEvent) (earlier : List RedactCall) (call : RedactCall) : Prop :=
  ∀ f, event.payload.contains f = true → (∀ c ∈ earlier, f ∉ c.fields) → call.fields.count f ≤ 1

variable {sha256 : Bytes → PyStr} {settings : Settings}

/-! ## One call -/

theorem companionFields_companion {req : RedactRequest} {fields : List PyStr} {hash : PyStr}
    {body : AuditEventCreate settings} (h : companionBody settings req fields hash = .ok body)
    (db : Database) (tenantId : PyStr) (now : DateTime) :
    companionFields (appendedEvent sha256 db { eventIn := body, tenantId } now) = fields := by
  have hpayload : (appendedEvent sha256 db { eventIn := body, tenantId } now).payload =
      companionPayload req fields hash := (companionBody_ok h).2
  have hlist : (companionPayload req fields hash).get "redactedFields" = .arr (fields.map .str) := rfl
  unfold companionFields
  rw [hpayload, hlist]
  simp [List.filterMap_map]

section Service

variable {payloadFails companionFails : Failures} {db db' : Database} {req : RedactRequest}
  {event : AuditEvent} {companionNow : DateTime}

/-- What follows the tombstone returns the list it was given. -/
theorem newlyRedactedFields_of_ok {fields : List PyStr} {result : RedactionResult}
    (h : appendCompanion sha256 settings payloadFails companionFails db req event fields
      companionNow = (.ok result, db')) : result.newlyRedactedFields = fields := by
  unfold appendCompanion at h
  dsimp only at h
  split at h
  · cases h
  · split at h
    · cases h
    · split at h
      · cases h
      · cases h
        rfl

/-- `NoRedactableFieldsError` is raised only when nothing is left to redact. -/
theorem fieldsToRedact_of_noRedactable {fields : List PyStr}
    (h : redactEventFields sha256 settings payloadFails companionFails db req companionNow =
      (.error (.noRedactableFields fields), db'))
    (hfound : Repo.getEvent db req.eventId = some event) : fieldsToRedact event req.fields = [] := by
  by_contra hfresh
  unfold redactEventFields at h
  simp only [hfound, hfresh, if_false] at h
  split at h
  · cases h
  · split at h
    · cases h
    · rcases appendCompanion_cases h with ⟨-, err, herr, hdeclared⟩ | ⟨-, -, -, ⟨result, hok⟩ | herr⟩
      · cases herr
        exact hdeclared trivial
      · cases hok
      · cases herr

theorem newlyRedactedFields_eq {result : RedactionResult}
    (h : redactEventFields sha256 settings payloadFails companionFails db req companionNow =
      (.ok result, db'))
    (hfound : Repo.getEvent db req.eventId = some event) :
    result.newlyRedactedFields = fieldsToRedact event req.fields := by
  unfold redactEventFields at h
  simp only [hfound] at h
  split at h
  · cases h
  · split at h
    · cases h
    · split at h
      · cases h
      · exact newlyRedactedFields_of_ok h

end Service

section Call

variable {db : Database} {eventId : Int} {call : RedactCall} {row : AuditEvent}

variable (sha256 settings) in
/-- An answered call on a stored record: nothing was left to redact and nothing happened, or
it redacted what was left and its companion lists that as it was requested. -/
theorem RedactCall.run_answered (hfound : Repo.getEvent db eventId = some row)
    (h : Answered (call.run sha256 settings eventId db).1) :
    (fieldsToRedact row call.fields = [] ∧ (call.run sha256 settings eventId db).2 = db ∧
        ∀ result, (call.run sha256 settings eventId db).1 ≠ .ok result) ∨
      (fieldsToRedact row call.fields ≠ [] ∧ ∃ result companion,
        (call.run sha256 settings eventId db).1 = .ok result ∧
        result.newlyRedactedFields = fieldsToRedact row call.fields ∧
        companionFields companion = fieldsToRedact row call.fields ∧
        (call.run sha256 settings eventId db).2.auditEvents =
          (tombstoned sha256 db (call.request eventId) row).auditEvents ++ [companion]) := by
  have hfound' : Repo.getEvent db (call.request eventId).eventId = some row := hfound
  rcases hrun : call.run sha256 settings eventId db with ⟨r, db'⟩
  rw [hrun] at h
  unfold RedactCall.run at hrun
  rcases h with ⟨result, hok⟩ | ⟨fields, herr⟩
  · cases hok
    obtain ⟨event, body, hredacts, hbody, hrows⟩ := redactEventFields_of_ok hrun
    obtain rfl : event = row := Option.some.inj (hredacts.found.symm.trans hfound')
    exact Or.inr ⟨hredacts.fresh, result, _, rfl, newlyRedactedFields_eq hrun hfound',
      companionFields_companion hbody _ _ _, hrows⟩
  · cases herr
    have hnothing := fieldsToRedact_of_noRedactable hrun hfound'
    have hnone : ∀ event, ¬Redacts db (call.request eventId) event := by
      intro event hredacts
      obtain rfl : event = row := Option.some.inj (hredacts.found.symm.trans hfound')
      exact hredacts.fresh hnothing
    obtain ⟨hsame, -⟩ :=
      redactEventFields_of_not_redacts (fun event hredacts => absurd hredacts (hnone event)) hrun
    exact Or.inl ⟨hnothing, hsame, fun result hok => by cases hok⟩

end Call

/-! ## Runs -/

/-- Some call has named the field. -/
def Named (calls : List RedactCall) (f : PyStr) : Prop := ∃ call ∈ calls, f ∈ call.fields

theorem named_concat {calls : List RedactCall} {call : RedactCall} {f : PyStr} :
    Named (calls ++ [call]) f ↔ Named calls f ∨ f ∈ call.fields := by
  simp [Named, or_and_right, exists_or]

section Run

variable {event row : AuditEvent} {db : Database} {calls : List RedactCall}

theorem RedactionHistory.asked_congr {asked asked' : PyStr → Prop}
    (h : RedactionHistory sha256 event asked row)
    (hasked : ∀ f, event.payload.contains f = true → (asked f ↔ asked' f)) :
    RedactionHistory sha256 event asked' row where
  __ := h
  fields := fun f => (h.fields f).trans (and_congr_right (hasked f))

/-- A call that finds nothing to redact has named only what was named before. -/
theorem RedactionHistory.of_nothing {fields : List PyStr} {asked : PyStr → Prop}
    (h : RedactionHistory sha256 event asked row) (hnothing : fieldsToRedact row fields = []) :
    RedactionHistory sha256 event (fun f => asked f ∨ f ∈ fields) row := by
  refine h.asked_congr fun f hkey => ⟨Or.inl, ?_⟩
  rintro (hasked | hf)
  · exact hasked
  · by_contra hasked
    have hmem : f ∈ fieldsToRedact row fields :=
      mem_fieldsToRedact.mpr ⟨hf, h.contains_iff.mpr hkey, fun hold => hasked ((h.fields f).mp hold).2⟩
    rw [hnothing] at hmem
    cases hmem

/-- The fields of a call are listed once each exactly if none of those still to redact is
named twice. -/
theorem RedactionHistory.nodup_fieldsToRedact_iff (h : RedactionHistory sha256 event (Named calls) row)
    (call : RedactCall) :
    (fieldsToRedact row call.fields).Nodup ↔ NamesOnce event calls call := by
  have hlisted : ∀ {f}, event.payload.contains f = true →
      (f ∉ alreadyRedacted row ↔ ∀ c ∈ calls, f ∉ c.fields) := by
    intro f hkey
    rw [h.fields]
    simp [Named, hkey]
  rw [List.nodup_iff_count_le_one]
  constructor
  · intro hcount f hkey hunnamed
    have hfresh := (hlisted hkey).mpr hunnamed
    have hf := hcount f
    unfold fieldsToRedact at hf
    rw [List.count_filter (by simp [h.contains_iff.mpr hkey, hfresh])] at hf
    exact hf
  · intro honce f
    by_cases hf : f ∈ fieldsToRedact row call.fields
    · obtain ⟨-, hkey, hfresh⟩ := mem_fieldsToRedact.mp hf
      have hkey' := h.contains_iff.mp hkey
      unfold fieldsToRedact
      rw [List.count_filter (by simp [hkey, hfresh])]
      exact honce f hkey' ((hlisted hkey').mp hfresh)
    · rw [List.count_eq_zero_of_not_mem hf]
      exact Nat.zero_le 1

theorem redactedFieldsOf_split {before after : List AuditEvent}
    (hrows : db.auditEvents = before ++ row :: after) (hid : row.id = event.id) :
    redactedFieldsOf db event.id = alreadyRedacted row := by
  unfold redactedFieldsOf
  rw [← hid, getEvent_of_split hrows]
  rfl

variable (sha256 settings) in
/-- The call of a run, answered, lists what its own step adds to the row. -/
def ListsItsStep (event : AuditEvent) (db : Database) (earlier : List RedactCall) (call : RedactCall) :
    Prop :=
  let before := redactAll sha256 settings event.id db earlier
  ∀ result, (call.run sha256 settings event.id before).1 = .ok result →
    result.newlyRedactedFields.Nodup ∧
      ∀ f, f ∈ result.newlyRedactedFields ↔
        f ∈ redactedFieldsOf (call.run sha256 settings event.id before).2 event.id ∧
          f ∉ redactedFieldsOf before event.id

/-- What a run of answered calls leaves: the row's history, the companions' lists, and when
these repeat nothing. -/
structure LogState (sha256 : Bytes → PyStr) (event row : AuditEvent) (calls : List RedactCall)
    (log : List PyStr) : Prop where
  history : RedactionHistory sha256 event (Named calls) row
  logged : ∀ f, f ∈ log ↔ f ∈ alreadyRedacted row
  nodup : log.Nodup ↔ History.ForEach (NamesOnce event) calls

theorem LogState.of_nothing {log : List PyStr} (h : LogState sha256 event row calls log)
    {call : RedactCall} (hnothing : fieldsToRedact row call.fields = []) :
    LogState sha256 event row (calls ++ [call]) log where
  history := (h.history.of_nothing hnothing).asked_congr fun _ _ => named_concat.symm
  logged := h.logged
  nodup := by
    have honce : NamesOnce event calls call :=
      (h.history.nodup_fieldsToRedact_iff call).mp (hnothing ▸ List.nodup_nil)
    rw [History.forEach_concat, h.nodup]
    exact (and_iff_left honce).symm

theorem LogState.redact {log : List PyStr} (h : LogState sha256 event row calls log)
    {call : RedactCall} (hfresh : fieldsToRedact row (call.request event.id).fields ≠ []) :
    LogState sha256 event (redactedRow sha256 (call.request event.id) row) (calls ++ [call])
      (log ++ fieldsToRedact row call.fields) where
  history := (h.history.redact hfresh).asked_congr fun _ _ => named_concat.symm
  logged := by
    intro f
    rw [List.mem_append, h.logged]
    exact mem_alreadyRedacted_redactionUpdate.symm
  nodup := by
    -- What is redacted now was not in the log.
    have hdisjoint : ∀ a ∈ log, ∀ b ∈ fieldsToRedact row call.fields, a ≠ b := by
      rintro a ha b hb rfl
      exact (mem_fieldsToRedact.mp hb).2.2 ((h.logged a).mp ha)
    rw [List.nodup_append, History.forEach_concat, h.nodup, h.history.nodup_fieldsToRedact_iff]
    exact ⟨fun hall => ⟨hall.1, hall.2.1⟩, fun hall => ⟨hall.1, hall.2, hdisjoint⟩⟩

/-- A call that names no field to redact twice lists what its own step adds to the row. -/
theorem LogState.listed {log : List PyStr} (h : LogState sha256 event row calls log)
    {call : RedactCall} (honce : NamesOnce event calls call) :
    (fieldsToRedact row call.fields).Nodup ∧ ∀ f, f ∈ fieldsToRedact row call.fields ↔
      f ∈ alreadyRedacted (redactedRow sha256 (call.request event.id) row) ∧
        f ∉ alreadyRedacted row := by
  refine ⟨(h.history.nodup_fieldsToRedact_iff call).mpr honce, fun f => ?_⟩
  have hmem : f ∈ alreadyRedacted (redactedRow sha256 (call.request event.id) row) ↔
      f ∈ alreadyRedacted row ∨ f ∈ fieldsToRedact row call.fields :=
    mem_alreadyRedacted_redactionUpdate
  rw [hmem]
  constructor
  · intro hf
    exact ⟨Or.inr hf, (mem_fieldsToRedact.mp hf).2.2⟩
  · rintro ⟨hor, hnew⟩
    exact hor.resolve_left hnew

/-- **The log invariant** of a run whose calls are all answered. -/
theorem redactAll_log (hcreated : AsCreated event) {before after : List AuditEvent}
    (hrows : db.auditEvents = before ++ event :: after)
    (hanswered : History.ForEach (fun earlier call => Answered
      (call.run sha256 settings event.id (redactAll sha256 settings event.id db earlier)).1) calls) :
    ∃ row companions,
      (redactAll sha256 settings event.id db calls).auditEvents =
        before ++ row :: (after ++ companions) ∧
      LogState sha256 event row calls (companions.flatMap companionFields) ∧
      (History.ForEach (NamesOnce event) calls →
        History.ForEach (ListsItsStep sha256 settings event db) calls) := by
  induction calls using List.reverseRecOn with
  | nil =>
    refine ⟨event, [], by rw [List.append_nil]; exact hrows, ?_, fun _ => History.forEach_nil⟩
    have hempty : alreadyRedacted event = [] := by
      unfold alreadyRedacted
      rw [hcreated.redactedFields, Option.getD_none]
    constructor
    · exact RedactionHistory.of_asCreated hcreated (by simp [Named])
    · simp [hempty]
    · simp
  | append_singleton calls call ih =>
    rw [History.forEach_concat] at hanswered
    obtain ⟨row, companions, hsplit, hstate, hlists⟩ := ih hanswered.1
    have hid : row.id = event.id := hstate.history.retouched.id
    rw [redactAll_concat]
    rcases call.run_answered sha256 settings (hid ▸ getEvent_of_split hsplit) hanswered.2 with
      ⟨hnothing, hsame, hraised⟩ | ⟨hfresh, result, companion, hok, hlist, hcompanion, hafter⟩
    · rw [hsame]
      refine ⟨row, companions, hsplit, hstate.of_nothing hnothing, fun honce => ?_⟩
      rw [History.forEach_concat] at honce ⊢
      exact ⟨hlists honce.1, fun result hok => absurd hok (hraised result)⟩
    · have hreq : fieldsToRedact row (call.request event.id).fields ≠ [] := hfresh
      rw [tombstoned_split hsplit hid.symm, List.append_assoc, List.cons_append,
        List.append_assoc] at hafter
      refine ⟨_, companions ++ [companion], hafter, ?_, fun honce => ?_⟩
      · rw [List.flatMap_append, List.flatMap_singleton, hcompanion]
        exact hstate.redact hreq
      · rw [History.forEach_concat] at honce ⊢
        refine ⟨hlists honce.1, ?_⟩
        intro result' hok'
        obtain rfl : result = result' := Except.ok.inj (hok.symm.trans hok')
        rw [hlist, redactedFieldsOf_split hafter hid, redactedFieldsOf_split hsplit hid]
        exact hstate.listed honce.2

/-- **The redaction log accounts for each field once** exactly if no call repeats a payload
key that it is the first to name. -/
theorem redaction_log_once_iff (hmem : event ∈ db.auditEvents) (hcreated : AsCreated event)
    (hanswered : History.ForEach (fun earlier call => Answered
      (call.run sha256 settings event.id (redactAll sha256 settings event.id db earlier)).1) calls) :
    let db' := redactAll sha256 settings event.id db calls
    ((redactionLog db db').Nodup ∧
        (∀ f, f ∈ redactionLog db db' ↔ f ∈ redactedFieldsOf db' event.id) ∧
        History.ForEach (ListsItsStep sha256 settings event db) calls) ↔
      History.ForEach (NamesOnce event) calls := by
  obtain ⟨before, after, hrows⟩ := List.append_of_mem hmem
  obtain ⟨row, companions, hsplit, hstate, hlists⟩ := redactAll_log hcreated hrows hanswered
  have hlog : redactionLog db (redactAll sha256 settings event.id db calls) =
      companions.flatMap companionFields := by
    have hlength : db.auditEvents.length = (before ++ row :: after).length := by
      rw [hrows, List.length_append, List.length_append, List.length_cons, List.length_cons]
    unfold redactionLog
    rw [hsplit, hlength, ← List.cons_append, ← List.append_assoc, List.drop_left]
  dsimp only
  rw [hlog, redactedFieldsOf_split hsplit hstate.history.retouched.id, hstate.nodup]
  exact ⟨fun hall => hall.1, fun honce => ⟨honce, hstate.logged, hlists honce⟩⟩

end Run

/-- A field named once, and then twice in one request when nothing of it is left to redact. -/
def onceThenTwice : List RedactCall :=
  [{ sampleCall with fields := ["unknown", "x"] }, { sampleCall with fields := ["x", "x"] }]

theorem redaction_log_once_repeated_later :
    let db' := redactAll Sha256.hexdigest {} createdEvent.id createdTable onceThenTwice
    (redactionLog createdTable db').Nodup ∧
      (∀ f, f ∈ redactionLog createdTable db' ↔ f ∈ redactedFieldsOf db' createdEvent.id) ∧
      History.ForEach (ListsItsStep Sha256.hexdigest {} createdEvent createdTable) onceThenTwice := by
  have hcalls : onceThenTwice = ([] ++ [{ sampleCall with fields := ["unknown", "x"] }]) ++
    [{ sampleCall with fields := ["x", "x"] }] := rfl
  refine (redaction_log_once_iff createdEvent_mem createdEvent_asCreated ?_).mpr ?_
  · rw [hcalls, History.forEach_concat, History.forEach_concat]
    exact ⟨⟨History.forEach_nil, by decide +kernel⟩, by decide +kernel⟩
  · rw [hcalls, History.forEach_concat, History.forEach_concat]
    refine ⟨⟨History.forEach_nil, fun f _ _ => ?_⟩, fun f _ hunnamed => ?_⟩
    · exact List.nodup_iff_count_le_one.mp (by decide) f
    · have hx : f ≠ "x" := fun hx => hunnamed _ (List.mem_singleton_self _) (by rw [hx]; decide)
      rw [List.count_eq_zero_of_not_mem (by simp [hx])]
      exact Nat.zero_le 1

/-- **A name repeated in one request is logged twice**: the companion and the result list it
as it was requested, the row lists it once. -/
theorem redaction_log_repeats :
    ¬∀ (db : Database) (event : AuditEvent) (calls : List RedactCall), event ∈ db.auditEvents →
      AsCreated event →
      History.ForEach (fun earlier call => Answered (call.run Sha256.hexdigest {} event.id
        (redactAll Sha256.hexdigest {} event.id db earlier)).1) calls →
      (redactionLog db (redactAll Sha256.hexdigest {} event.id db calls)).Nodup ∧
        (∀ f, f ∈ redactionLog db (redactAll Sha256.hexdigest {} event.id db calls) ↔
          f ∈ redactedFieldsOf (redactAll Sha256.hexdigest {} event.id db calls) event.id) ∧
        History.ForEach (ListsItsStep Sha256.hexdigest {} event db) calls := by
  intro hclaim
  have hanswered : History.ForEach (fun earlier call => Answered (call.run Sha256.hexdigest {}
      createdEvent.id (redactAll Sha256.hexdigest {} createdEvent.id createdTable earlier)).1)
      ([] ++ [sampleCall]) :=
    History.forEach_concat.mpr ⟨History.forEach_nil, by decide +kernel⟩
  have hnodup := (hclaim createdTable createdEvent _ createdEvent_mem createdEvent_asCreated
    hanswered).1
  exact absurd hnodup (by decide +kernel)

end AuditLog
