import AuditLog.Concurrency.AppendLock

/-!
# Calls that run alone

A call whose steps nobody interrupts does what the sequential service does: the
steps of the concurrent system are the steps of `create_audit_event` and of
`redact_event_fields`, no more and no less.
-/

namespace AuditLog

variable {sha256 : Bytes → PyStr} {settings : Settings}

/-- The only action of the run. -/
def Only (action : Action settings) : World settings → Action settings → Prop := fun _ a => a = action

namespace Call

variable {call : Call settings} {req : CreateRequest settings} {phase next : AppendPhase}

theorem append?_resume_of_running (h : call.append? = some (req, phase))
    (hrunning : ∀ outcome, next ≠ .ended outcome) :
    (call.resume sha256 next).append? = some (req, next) := by
  rcases call with ⟨req₀, phase₀⟩ | ⟨req₀, phase₀⟩
  · cases h
    rfl
  · cases phase₀ with
    | appending event updated body phase₀ =>
      cases h
      cases next with
      | ended outcome => exact absurd rfl (hrunning outcome)
      | _ => rfl
    | _ => cases h

/-- A call remembers nothing of its append but the phase it is in. -/
theorem resume_resume (h : call.append? = some (req, phase))
    (hrunning : ∀ outcome, next ≠ .ended outcome) (last : AppendPhase) :
    (call.resume sha256 next).resume sha256 last = call.resume sha256 last := by
  rcases call with ⟨req₀, phase₀⟩ | ⟨req₀, phase₀⟩
  · rfl
  · cases phase₀ with
    | appending event updated body phase₀ =>
      cases next with
      | ended outcome => exact absurd rfl (hrunning outcome)
      | _ => rfl
    | _ => cases h

theorem resume_self (h : call.append? = some (req, .start)) : call.resume sha256 .start = call := by
  rcases call with ⟨req₀, phase₀⟩ | ⟨req₀, phase₀⟩
  · cases h
    rfl
  · cases phase₀ with
    | appending event updated body phase₀ =>
      cases h
      rfl
    | _ => cases h

end Call

/-- The system with call `c` of `w` in the given phase of its append. -/
def World.withAppend (sha256 : Bytes → PyStr) (w : World settings) (c : Nat) (call : Call settings)
    (db : Database) (lock : Option Nat) (phase : AppendPhase) (log : List Appended) :
    World settings :=
  ⟨db, lock, w.calls.set c (call.resume sha256 phase), log⟩

/-- From the given phase on, call `c` of `w` alone ends with the given outcome. -/
def EndsAlone (sha256 : Bytes → PyStr) (w : World settings) (c : Nat) (call : Call settings)
    (now : DateTime) (db : Database) (lock : Option Nat) (phase : AppendPhase)
    (outcome : Except ServiceError AuditEvent × Database) : Prop :=
  ∀ log, ∃ log', Machine.Reaches (step sha256) (Only (.advance c now))
    (w.withAppend sha256 c call db lock phase log)
    (w.withAppend sha256 c call outcome.2 none (.ended outcome.1) log')

section Append

variable {w : World settings} {c : Nat} {call : Call settings} {req : CreateRequest settings}
  {now : DateTime} {db : Database} {lock : Option Nat}

theorem EndsAlone.refl (r : Except ServiceError AuditEvent) :
    EndsAlone sha256 w c call now db none (.ended r) (r, db) := fun log => ⟨log, .refl⟩

/-- One step of the append, and on from there. -/
theorem EndsAlone.step {phase : AppendPhase} {s : AppendStep}
    {outcome : Except ServiceError AuditEvent × Database} (hcall : w.calls[c]? = some call)
    (happend : call.append? = some (req, .start)) (hrunning : ∀ r, phase ≠ .ended r)
    (hs : stepAppend sha256 db lock c req now phase = some s)
    (hrest : EndsAlone sha256 w c call now s.db s.lock s.phase outcome) :
    EndsAlone sha256 w c call now db lock phase outcome := by
  intro log
  -- The step of the system is this step of the call; the others stay where they are.
  rcases hrest (log ++ s.appended.toList.map (⟨c, ·⟩)) with ⟨log', hrun⟩
  refine ⟨log', Machine.Reaches.head rfl ?_ hrun⟩
  have hat : (w.withAppend sha256 c call db lock phase log).calls[c]? =
      some (call.resume sha256 phase) :=
    (getElem?_set_some hcall).mpr (Or.inl ⟨rfl, rfl⟩)
  unfold AuditLog.step
  simp only [hat, Call.append?_resume_of_running happend hrunning]
  show Option.map _ (stepAppend sha256 db lock c req now phase) = _
  rw [hs, Option.map_some]
  unfold World.withAppend
  simp only [List.set_set, Call.resume_resume happend hrunning]

/-- A row that was just committed is there to refresh. -/
theorem getEvent_of_commitAppend {db' : Database} {event : AuditEvent}
    {record : Option IdempotencyKey} (hlast : ∀ e ∈ db.auditEvents, e.id < event.id)
    (h : Repo.commitAppend noFailure db event record = .ok db') :
    Repo.getEvent db' event.id = some event := by
  rw [Repo.getEvent_eq_some_iff, (Repo.commitAppend_cases hlast h).1]
  exact ⟨List.mem_append_right _ List.mem_cons_self, rfl⟩

/-- The rest of an append whose row is staged. -/
theorem endsAlone_flushed (hcall : w.calls[c]? = some call)
    (happend : call.append? = some (req, .start)) {event : AuditEvent}
    (hlast : ∀ e ∈ db.auditEvents, e.id < event.id) :
    EndsAlone sha256 w c call now db (some c) (.flushed event)
      (match stageIdempotencyKey sha256 noFailure db req event with
        | .error err => (.error (.database err), db)
        | .ok record =>
          match Repo.commitAppend noFailure db event record with
          | .error err => (.error (.database err), db)
          | .ok db => (.ok event, db)) := by
  cases hrecord : stageIdempotencyKey sha256 noFailure db req event with
  | error err =>
    exact .step hcall happend (fun _ h => by cases h) (by rw [stepAppend, hrecord]) (.refl _)
  | ok record =>
    refine .step hcall happend (fun _ h => by cases h) (by rw [stepAppend, hrecord]) ?_
    dsimp only
    cases hcommit : Repo.commitAppend noFailure db event record with
    | error err =>
      exact .step hcall happend (fun _ h => by cases h) (by rw [stepAppend, hcommit]) (.refl _)
    | ok db' =>
      refine .step hcall happend (fun _ h => by cases h) (by rw [stepAppend, hcommit]) ?_
      have hrefresh := getEvent_of_commitAppend hlast hcommit
      exact .step hcall happend (fun _ h => by cases h) (by rw [stepAppend, hrefresh]) (.refl _)

/-- **An append that runs alone** ends as `create_audit_event` does. -/
theorem endsAlone_start (hcall : w.calls[c]? = some call)
    (happend : call.append? = some (req, .start)) :
    EndsAlone sha256 w c call now db none .start (createAuditEvent sha256 noFailure db req now) := by
  refine .step hcall happend (fun _ h => by cases h) (by rw [stepAppend, if_pos rfl]) ?_
  unfold createAuditEvent
  simp only [noFailure, Bool.false_eq_true, if_false]
  cases hreplay : replayOrConflict sha256 noFailure db req with
  | error err =>
    exact .step hcall happend (fun _ h => by cases h) (by rw [stepAppend, hreplay]) (.refl _)
  | ok replay =>
    cases replay with
    | some event =>
      exact .step hcall happend (fun _ h => by cases h) (by rw [stepAppend, hreplay]) (.refl _)
    | none =>
      refine .step hcall happend (fun _ h => by cases h) (by rw [stepAppend, hreplay]) ?_
      refine .step hcall happend (fun _ h => by cases h) rfl ?_
      dsimp only
      rcases hstage : stageEvent sha256 noFailure db req (Repo.lastHash db) now with ⟨r, db'⟩
      rcases stageEvent_cases hstage with ⟨rfl, ⟨err, rfl⟩ | rfl⟩
      · exact .step hcall happend (fun _ h => by cases h) (by rw [stepAppend, hstage]) (.refl _)
      · refine .step hcall happend (fun _ h => by cases h) (by rw [stepAppend, hstage]) ?_
        exact endsAlone_flushed hcall happend fun e he => db.sequenceAhead e he

end Append

/-! ## The two services -/

section Services

variable {w : World settings} {c : Nat} {now : DateTime}

theorem set_self_of_getElem? {α : Type} {as : List α} {a : α} (h : as[c]? = some a) :
    as.set c a = as := by
  rcases List.getElem?_eq_some_iff.mp h with ⟨hlt, rfl⟩
  exact List.set_getElem_self hlt

/-- `create_audit_event`, alone. -/
theorem createAuditEvent_solo {req : CreateRequest settings} (hlock : w.lock = none)
    (hcall : w.calls[c]? = some (.create req .start)) :
    ∃ log, Machine.Reaches (step sha256) (Only (.advance c now)) w
      ⟨(createAuditEvent sha256 noFailure w.db req now).2, none,
        w.calls.set c (.create req (.ended (createAuditEvent sha256 noFailure w.db req now).1)),
        log⟩ := by
  have hself : w.withAppend sha256 c (.create req .start) w.db none .start w.log = w := by
    unfold World.withAppend
    rw [Call.resume_self rfl, set_self_of_getElem? hcall, ← hlock]
  have hends : EndsAlone sha256 w c (.create req .start) now w.db none .start
      (createAuditEvent sha256 noFailure w.db req now) := endsAlone_start hcall rfl
  rcases hends w.log with ⟨log, hrun⟩
  rw [hself] at hrun
  exact ⟨log, hrun⟩

/-- The system with call `c` of `w` in the given phase of its redaction. -/
def World.withRedact (w : World settings) (c : Nat) (req : RedactRequest) (db : Database)
    (phase : RedactPhase settings) : World settings :=
  { w with db, calls := w.calls.set c (.redact req phase) }

variable {req : RedactRequest} {first : RedactPhase settings} {goal : World settings}

/-- One step of the redaction before its append, and on from there. -/
theorem reaches_of_stepRedact {db db' : Database} {phase phase' : RedactPhase settings}
    (hcall : w.calls[c]? = some (.redact req first))
    (happend : (Call.redact req phase).append? = none)
    (hs : stepRedact sha256 db req phase = some (db', phase'))
    (hrest : Machine.Reaches (step sha256) (Only (.advance c now)) (w.withRedact c req db' phase')
      goal) :
    Machine.Reaches (step sha256) (Only (.advance c now)) (w.withRedact c req db phase) goal := by
  refine Machine.Reaches.head rfl ?_ hrest
  have hat : (w.withRedact c req db phase).calls[c]? = some (.redact req phase) :=
    (getElem?_set_some hcall).mpr (Or.inl ⟨rfl, rfl⟩)
  unfold step
  simp only [hat, happend]
  show Option.map _ (stepRedact sha256 db req phase) = _
  rw [hs, Option.map_some]
  unfold World.withRedact
  simp only [List.set_set]

variable (now) in
/-- The rest of a redaction whose tombstone is committed. -/
theorem appendCompanion_solo {db : Database} {event row : AuditEvent} (hlock : w.lock = none)
    (hcall : w.calls[c]? = some (.redact req first))
    (hrow : Repo.getEvent db req.eventId = some row)
    (hsame : row = (redactionUpdate sha256 event (fieldsToRedact event req.fields) req.now).apply event) :
    ∃ log, Machine.Reaches (step sha256) (Only (.advance c now))
      (w.withRedact c req db (.refreshing event))
      ⟨(appendCompanion sha256 settings noFailure noFailure db req event
          (fieldsToRedact event req.fields) now).2, none,
        w.calls.set c (.redact req (.ended (appendCompanion sha256 settings noFailure noFailure db req
          event (fieldsToRedact event req.fields) now).1)), log⟩ := by
  unfold appendCompanion
  simp only [noFailure, Bool.false_eq_true, if_false, ← hsame]
  cases hbody : companionBody settings req (fieldsToRedact event req.fields)
      (redactedContentHash sha256 event (fieldsToRedact event req.fields)) with
  | error errors =>
    refine ⟨w.log, reaches_of_stepRedact hcall rfl (by rw [stepRedact, hrow]; simp only [hbody]; rfl) ?_⟩
    rw [← hlock]
    exact .refl
  | ok body =>
    have hrefresh : stepRedact sha256 db req (.refreshing event) =
        some (db, .appending event row body .start) := by
      rw [stepRedact, hrow]
      simp only [hbody]
    -- The companion's append starts from the state after the refresh.
    let start := w.withRedact c req db (.appending event row body .start)
    have hat : start.calls[c]? = some (.redact req (.appending event row body .start)) :=
      (getElem?_set_some hcall).mpr (Or.inl ⟨rfl, rfl⟩)
    have hself : start.withAppend sha256 c (.redact req (.appending event row body .start)) db none
        .start w.log = start := by
      unfold World.withAppend
      rw [Call.resume_self rfl, set_self_of_getElem? hat, ← hlock]
      rfl
    have hends : EndsAlone sha256 start c (.redact req (.appending event row body .start)) now db none
        .start (createAuditEvent sha256 noFailure db { eventIn := body, tenantId := event.tenantId }
          now) := endsAlone_start hat rfl
    rcases hends w.log with ⟨log, hrun⟩
    rw [hself] at hrun
    refine ⟨log, reaches_of_stepRedact hcall rfl hrefresh ?_⟩
    dsimp only
    simp only [World.withAppend, start, World.withRedact, List.set_set] at hrun
    rcases hcreate : createAuditEvent sha256 noFailure db
      { eventIn := body, tenantId := event.tenantId } now with ⟨err | redactionEvent, db'⟩
    · rw [hcreate] at hrun
      exact hrun
    · rw [hcreate] at hrun
      exact hrun

/-- `redact_event_fields`, alone. -/
theorem redactEventFields_solo (hlock : w.lock = none)
    (hcall : w.calls[c]? = some (.redact req .reading)) :
    ∃ log, Machine.Reaches (step sha256) (Only (.advance c now)) w
      ⟨(redactEventFields sha256 settings noFailure noFailure w.db req now).2, none,
        w.calls.set c (.redact req
          (.ended (redactEventFields sha256 settings noFailure noFailure w.db req now).1)),
        log⟩ := by
  have hself : w.withRedact c req w.db .reading = w := by
    unfold World.withRedact
    rw [set_self_of_getElem? hcall]
  suffices hrun : ∃ log, Machine.Reaches (step sha256) (Only (.advance c now))
      (w.withRedact c req w.db .reading)
      ⟨(redactEventFields sha256 settings noFailure noFailure w.db req now).2, none,
        w.calls.set c (.redact req
          (.ended (redactEventFields sha256 settings noFailure noFailure w.db req now).1)), log⟩ by
    rw [hself] at hrun
    exact hrun
  by_cases hredacts : ∃ event, Redacts w.db req event
  · rcases hredacts with ⟨event, hredacts⟩
    rw [redactEventFields_of_redacts hredacts rfl rfl]
    rcases appendCompanion_solo now hlock hcall
      (Repo.getEvent_redactEventFields
        (redactionUpdate sha256 event (fieldsToRedact event req.fields) req.now) hredacts.found)
      rfl with ⟨log, hrun⟩
    have hread : stepRedact sha256 w.db req (.reading : RedactPhase settings) =
        some (w.db, .redacting event) := by
      simp only [stepRedact, hredacts.found, if_neg hredacts.fresh]
    have hwrite : stepRedact sha256 w.db req (.redacting event : RedactPhase settings) =
        some (tombstoned sha256 w.db req event, .refreshing event) := rfl
    exact ⟨log, reaches_of_stepRedact hcall rfl hread (reaches_of_stepRedact hcall rfl hwrite hrun)⟩
  · unfold redactEventFields
    simp only [noFailure, Bool.false_eq_true, if_false]
    cases hfound : Repo.getEvent w.db req.eventId with
    | none =>
      refine ⟨w.log, reaches_of_stepRedact hcall rfl (by rw [stepRedact, hfound]) ?_⟩
      rw [← hlock]
      exact .refl
    | some event =>
      have hnone : fieldsToRedact event req.fields = [] := by
        by_contra hfresh
        exact hredacts ⟨event, hfound, hfresh⟩
      have hs : stepRedact sha256 w.db req (.reading : RedactPhase settings) =
          some (w.db, .ended (.error (.noRedactableFields req.fields))) := by
        simp only [stepRedact, hfound, if_pos hnone]
      refine ⟨w.log, reaches_of_stepRedact hcall rfl hs ?_⟩
      dsimp only
      rw [if_pos hnone, ← hlock]
      exact .refl

end Services

end AuditLog
