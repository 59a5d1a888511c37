import AuditLog.Library.Machine
import AuditLog.Services.RedactionService
import AuditLog.Services.RetentionService

/-!
# The serial system

Calls one at a time. `create_audit_event` is one uninterrupted step, retention runs are one
step each. A redaction is three steps: the read of the row with the check of the fields, the
`UPDATE` that is computed from what was read, and the append of the companion. One after the
other they are the call of the sequential service (`redactEventFields_of_serial`); others may
come between them, and two redactions of one record may both read it first.
-/

namespace AuditLog

variable {sha256 : Bytes → PyStr} {settings : Settings}

/-! ## Steps -/

/-- What a call of `create_audit_event` was answered. -/
structure Answer (settings : Settings) where
  call : Nat
  req : CreateRequest settings
  outcome : Except ServiceError AuditEvent
deriving DecidableEq

/-- What a redaction has read, or why it goes no further. -/
structure Reading where
  call : Nat
  req : RedactRequest
  outcome : Except ServiceError AuditEvent
deriving DecidableEq

/-- The committed state, every reading of a redaction, the redactions whose `UPDATE` is
committed, and every answer so far. -/
structure Serial (settings : Settings) where
  db : Database
  readings : List Reading := []
  written : List Nat := []
  answers : List (Answer settings) := []
deriving DecidableEq

/-- The call has read nothing for a redaction. -/
def Unread (readings : List Reading) (c : Nat) : Prop := ∀ r ∈ readings, r.call ≠ c

/-- The call has had no append. -/
def Unanswered (answers : List (Answer settings)) (c : Nat) : Prop := ∀ a ∈ answers, a.call ≠ c

instance (readings : List Reading) (c : Nat) : Decidable (Unread readings c) :=
  inferInstanceAs (Decidable (∀ r ∈ readings, r.call ≠ c))

instance (answers : List (Answer settings)) (c : Nat) : Decidable (Unanswered answers c) :=
  inferInstanceAs (Decidable (∀ a ∈ answers, a.call ≠ c))

/-- The tables with the sequence at a value that is ahead of them: what rolled-back sessions
have drawn is skipped. -/
def Database.atEventId (db : Database) (eventId : Int) (h : ∀ e ∈ db.auditEvents, e.id < eventId) :
    Database where
  auditEvents := db.auditEvents
  idempotencyKeys := db.idempotencyKeys
  nextEventId := eventId
  ordered := db.ordered
  sequenceAhead := h

/-- The row as a redaction reads it, if there is one with a field to redact. -/
def eventToRedact (db : Database) (req : RedactRequest) : Except ServiceError AuditEvent :=
  match Repo.getEvent db req.eventId with
  | none => .error (.eventNotFound req.eventId)
  | some event =>
    if fieldsToRedact event req.fields = [] then .error (.noRedactableFields req.fields)
    else .ok event

inductive SerialAction (settings : Settings) where
  | create (c : Nat) (req : CreateRequest settings) (now : DateTime) (eventId : Int)
  | read (c : Nat) (req : RedactRequest)
  | write (c : Nat) (req : RedactRequest) (event : AuditEvent)
  | companion (c : Nat) (req : RedactRequest) (event : AuditEvent) (now : DateTime) (eventId : Int)
  | applyRetention (retentionWindowDays : Int) (now archiveNow : DateTime)
deriving DecidableEq

/-- The call that the action is a part of. -/
def SerialAction.call? : SerialAction settings → Option Nat
  | .create c _ _ _ | .read c _ | .write c _ _ | .companion c _ _ _ _ => some c
  | .applyRetention _ _ _ => none

section Steps

variable (sha256)

/-- One uninterrupted `create_audit_event` for a call that has had none. -/
def Serial.append (s : Serial settings) (c : Nat) (req : CreateRequest settings) (now : DateTime)
    (eventId : Int) : Option (Serial settings) :=
  if h : (∀ e ∈ s.db.auditEvents, e.id < eventId) ∧ Unanswered s.answers c then
    let (outcome, db) := createAuditEvent sha256 noFailure (s.db.atEventId eventId h.1) req now
    some { s with db, answers := s.answers ++ [⟨c, req, outcome⟩] }
  else none

/-- A call of the sequential service, or one of the three steps of a redaction, in their order. -/
def serialStep (action : SerialAction settings) (s : Serial settings) : Option (Serial settings) :=
  match action with
  | .create c req now eventId => s.append sha256 c req now eventId
  | .read c req =>
    if Unread s.readings c then
      some { s with readings := s.readings ++ [⟨c, req, eventToRedact s.db req⟩] }
    else none
  -- The columns are computed from what this redaction has read, which may be stale by now.
  | .write c req event =>
    if ⟨c, req, .ok event⟩ ∈ s.readings ∧ c ∉ s.written then
      some { s with
        db := Repo.redactEventFields s.db req.eventId
          (redactionUpdate sha256 event (fieldsToRedact event req.fields) req.now)
        written := s.written ++ [c] }
    else none
  | .companion c req event now eventId =>
    if ⟨c, req, .ok event⟩ ∈ s.readings ∧ c ∈ s.written then
      match companionBody settings req (fieldsToRedact event req.fields)
          (redactedContentHash sha256 event (fieldsToRedact event req.fields)) with
      | .error _ => none
      | .ok body =>
        s.append sha256 c { eventIn := body, tenantId := event.tenantId } now eventId
    else none
  | .applyRetention days now archiveNow =>
    some { s with db := (applyRetention s.db days now archiveNow).2 }

end Steps

/-! ## What a step adds -/

variable {s s' : Serial settings} {serialAction : SerialAction settings}

variable (sha256) in
/-- What a serial step can do. -/
inductive SerialMove (s : Serial settings) :
    SerialAction settings → Serial settings → Prop where
  | create {c : Nat} {req : CreateRequest settings} {now : DateTime} {eventId : Int}
      {outcome : Except ServiceError AuditEvent} {db : Database}
      (hopen : Unanswered s.answers c) (hids : ∀ e ∈ s.db.auditEvents, e.id < eventId)
      (h : createAuditEvent sha256 noFailure (s.db.atEventId eventId hids) req now =
        (outcome, db)) :
      SerialMove s (.create c req now eventId)
        { s with db, answers := s.answers ++ [⟨c, req, outcome⟩] }
  | read {c : Nat} {req : RedactRequest} (hopen : Unread s.readings c) :
      SerialMove s (.read c req)
        { s with readings := s.readings ++ [⟨c, req, eventToRedact s.db req⟩] }
  | write {c : Nat} {req : RedactRequest} {event : AuditEvent}
      (hread : ⟨c, req, .ok event⟩ ∈ s.readings) (hopen : c ∉ s.written) :
      SerialMove s (.write c req event)
        { s with
          db := Repo.redactEventFields s.db req.eventId
            (redactionUpdate sha256 event (fieldsToRedact event req.fields) req.now)
          written := s.written ++ [c] }
  | companion {c : Nat} {req : RedactRequest} {event : AuditEvent} {now : DateTime} {eventId : Int}
      {body : AuditEventCreate settings} {outcome : Except ServiceError AuditEvent} {db : Database}
      (hread : ⟨c, req, .ok event⟩ ∈ s.readings) (hwritten : c ∈ s.written)
      (hbody : companionBody settings req (fieldsToRedact event req.fields)
        (redactedContentHash sha256 event (fieldsToRedact event req.fields)) = .ok body)
      (hopen : Unanswered s.answers c) (hids : ∀ e ∈ s.db.auditEvents, e.id < eventId)
      (h : createAuditEvent sha256 noFailure (s.db.atEventId eventId hids)
        { eventIn := body, tenantId := event.tenantId } now = (outcome, db)) :
      SerialMove s (.companion c req event now eventId)
        { s with
          db
          answers := s.answers ++ [⟨c, { eventIn := body, tenantId := event.tenantId }, outcome⟩] }
  | applyRetention {days : Int} {now archiveNow : DateTime} :
      SerialMove s (.applyRetention days now archiveNow)
        { s with db := (applyRetention s.db days now archiveNow).2 }

theorem Serial.append_cases {c : Nat} {req : CreateRequest settings} {now : DateTime}
    {eventId : Int} (h : s.append sha256 c req now eventId = some s') :
    Unanswered s.answers c ∧ ∃ (hids : ∀ e ∈ s.db.auditEvents, e.id < eventId) (outcome : _) (db : _),
      createAuditEvent sha256 noFailure (s.db.atEventId eventId hids) req now = (outcome, db) ∧
        s' = { s with db, answers := s.answers ++ [⟨c, req, outcome⟩] } := by
  unfold append at h
  split at h
  · rename_i hopen
    cases h
    exact ⟨hopen.2, hopen.1, _, _, rfl, rfl⟩
  · cases h

/-- **A serial step is one of these moves.** -/
theorem serialStep_cases (h : serialStep sha256 serialAction s = some s') :
    SerialMove sha256 s serialAction s' := by
  unfold serialStep at h
  split at h
  · obtain ⟨hopen, hids, outcome, db, hcreate, rfl⟩ := Serial.append_cases h
    exact .create hopen hids hcreate
  · split at h
    · cases h
      exact .read ‹_›
    · cases h
  · split at h
    · rename_i hread
      cases h
      exact .write hread.1 hread.2
    · cases h
  · split at h
    · rename_i hread
      split at h
      · cases h
      · obtain ⟨hopen, hids, outcome, db, hcreate, rfl⟩ := Serial.append_cases h
        exact .companion hread.1 hread.2 ‹_› hopen hids hcreate
    · cases h
  · cases h
    exact .applyRetention

/-- Each call has read, written and been answered at most once. -/
structure Serial.Once (s : Serial settings) : Prop where
  readings : (s.readings.map Reading.call).Nodup
  written : s.written.Nodup
  answers : (s.answers.map Answer.call).Nodup

theorem nodup_map_concat {α β : Type} {f : α → β} {l : List α} {a : α} (h : (l.map f).Nodup)
    (hnew : ∀ b ∈ l, f b ≠ f a) : ((l ++ [a]).map f).Nodup := by
  rw [List.map_append, List.nodup_append]
  refine ⟨h, List.nodup_singleton _, ?_⟩
  intro b hb a' ha' heq
  obtain ⟨d, hd, rfl⟩ := List.mem_map.mp hb
  exact hnew d hd (heq.trans (List.mem_singleton.mp ha'))

theorem Serial.Once.step (h : s.Once) (hstep : SerialMove sha256 s serialAction s') : s'.Once := by
  cases hstep with
  | create hopen | companion _ _ _ hopen =>
    exact ⟨h.readings, h.written, nodup_map_concat h.answers hopen⟩
  | read hopen => exact ⟨nodup_map_concat h.readings hopen, h.written, h.answers⟩
  | write hread hopen =>
    refine ⟨h.readings, List.nodup_append.mpr ⟨h.written, List.nodup_singleton _, ?_⟩, h.answers⟩
    rintro d hd d' hd' rfl
    rw [List.mem_singleton.mp hd'] at hd
    exact hopen hd
  | applyRetention => exact ⟨h.readings, h.written, h.answers⟩

/-- No call is repeated in a serial run. -/
theorem once_of_reaches {ok : Serial settings → SerialAction settings → Prop}
    (h : Machine.Reaches (serialStep sha256) ok { db := .empty } s) : s.Once :=
  h.invariant ⟨List.nodup_nil, List.nodup_nil, List.nodup_nil⟩ fun _ _ _ _ _ hstep hs =>
    hs.step (serialStep_cases hstep)

/-- The second state has gone on from the first one, with nothing done for the call. -/
structure Serial.Elsewhere (s s' : Serial settings) (c : Nat) : Prop where
  readings : s.readings ⊆ s'.readings
  written : s.written ⊆ s'.written
  answers : s.answers ⊆ s'.answers
  unread : Unread s.readings c → Unread s'.readings c
  unwritten : c ∉ s.written → c ∉ s'.written
  unanswered : Unanswered s.answers c → Unanswered s'.answers c

theorem elsewhere_refl (s : Serial settings) (c : Nat) : s.Elsewhere s c :=
  ⟨fun _ => id, fun _ => id, fun _ => id, id, id, id⟩

theorem Unanswered.concat {answers : List (Answer settings)} {c : Nat} {a : Answer settings}
    (h : Unanswered answers c) (hother : a.call ≠ c) : Unanswered (answers ++ [a]) c :=
  List.forall_mem_append.mpr ⟨h, List.forall_mem_singleton.mpr hother⟩

/-- A step for one call does nothing for another. -/
theorem SerialMove.elsewhere {c : Nat} (h : SerialMove sha256 s serialAction s')
    (hother : serialAction.call? ≠ some c) : s.Elsewhere s' c := by
  have hrest := elsewhere_refl s c
  have hne : ∀ {d : Nat}, serialAction.call? = some d → d ≠ c := by
    rintro d hd rfl
    exact hother hd
  cases h with
  | create hopen | companion _ _ _ hopen =>
    exact { hrest with
      answers := List.subset_append_left _ _
      unanswered := fun h => h.concat (hne rfl) }
  | read hopen =>
    exact { hrest with
      readings := List.subset_append_left _ _
      unread := fun h => List.forall_mem_append.mpr ⟨h, List.forall_mem_singleton.mpr (hne rfl)⟩ }
  | write hread hopen =>
    refine { hrest with written := List.subset_append_left _ _, unwritten := fun h hwritten => ?_ }
    rcases List.mem_append.mp hwritten with hwritten | hwritten
    · exact h hwritten
    · exact hne rfl (List.mem_singleton.mp hwritten).symm
  | applyRetention => exact { hrest with }

/-! ## The three steps of a redaction -/

/-- The append of a call that has had none, as the sequential service carries it out. -/
theorem Serial.append_eq_some {c : Nat} {req : CreateRequest settings} {now : DateTime}
    {eventId : Int} {outcome : Except ServiceError AuditEvent} {db : Database}
    (hids : ∀ e ∈ s.db.auditEvents, e.id < eventId) (hopen : Unanswered s.answers c)
    (h : createAuditEvent sha256 noFailure (s.db.atEventId eventId hids) req now = (outcome, db)) :
    s.append sha256 c req now eventId =
      some { s with db, answers := s.answers ++ [⟨c, req, outcome⟩] } := by
  unfold append
  rw [dif_pos ⟨hids, hopen⟩, h]

/-- A redaction goes on only with a row that has a field to redact. -/
theorem eventToRedact_eq_ok {db : Database} {req : RedactRequest} {event : AuditEvent}
    (h : eventToRedact db req = .ok event) :
    Repo.getEvent db req.eventId = some event ∧ fieldsToRedact event req.fields ≠ [] := by
  unfold eventToRedact at h
  split at h
  · cases h
  · rename_i event' hfound
    split at h
    · cases h
    · rename_i hsome
      cases h
      exact ⟨hfound, hsome⟩

/-- **With nothing in between, the three steps are one call of `redact_event_fields`.** -/
theorem redactEventFields_of_serial {c : Nat} {req : RedactRequest} {event : AuditEvent}
    {now : DateTime} {eventId : Int} {s₁ s₂ s₃ : Serial settings}
    (hread : serialStep sha256 (.read c req) s = some s₁)
    (hwrite : serialStep sha256 (.write c req event) s₁ = some s₂)
    (happend : serialStep sha256 (.companion c req event now eventId) s₂ = some s₃) :
    ∃ hids creq outcome, ⟨c, creq, outcome⟩ ∈ s₃.answers ∧
      redactEventFields sha256 settings noFailure noFailure (s.db.atEventId eventId hids) req now =
        (outcome.map fun redactionEvent =>
          ⟨(redactionUpdate sha256 event (fieldsToRedact event req.fields) req.now).apply event,
            fieldsToRedact event req.fields,
            redactedContentHash sha256 event (fieldsToRedact event req.fields), redactionEvent⟩,
          s₃.db) := by
  cases serialStep_cases hread with
  | read hunread =>
    cases serialStep_cases hwrite with
    | write hreading hunwritten =>
      cases serialStep_cases happend with
      | @companion _ _ _ _ _ body outcome db _ _ hbody hopen hids hcreate =>
        -- The only reading of the call is the one that was just made.
        have hevent : eventToRedact s.db req = .ok event := by
          rcases List.mem_append.mp hreading with hold | hnew
          · exact absurd rfl (hunread _ hold)
          · rw [List.mem_singleton, Reading.mk.injEq] at hnew
            exact hnew.2.2.symm
        obtain ⟨hfound, hsome⟩ := eventToRedact_eq_ok hevent
        have hids₀ : ∀ e ∈ s.db.auditEvents, e.id < eventId := by
          intro e he
          have hlt := hids _ (List.mem_map_of_mem he)
          split at hlt <;> exact hlt
        refine ⟨hids₀, _, outcome, List.mem_append_right _ List.mem_cons_self, ?_⟩
        have hredacts : Redacts (s.db.atEventId eventId hids₀) req event := ⟨hfound, hsome⟩
        rw [redactEventFields_of_redacts hredacts rfl rfl]
        unfold appendCompanion
        dsimp only
        rw [hbody, if_neg (show ¬ noFailure DbCall.refresh = true from Bool.false_ne_true)]
        have hcreate' : createAuditEvent sha256 noFailure
            (tombstoned sha256 (s.db.atEventId eventId hids₀) req event)
            { eventIn := body, tenantId := event.tenantId } now = (outcome, db) := hcreate
        dsimp only
        rw [hcreate']
        cases outcome <;> rfl

end AuditLog
