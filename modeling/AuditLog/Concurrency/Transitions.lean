import AuditLog.Concurrency.Model

/-!
# What one step can do

`step_cases` inverts a step of the system, `stepAppend_cases` a step of an
append; a step moves one call and leaves the others where they are.
-/

namespace AuditLog

variable {sha256 : Bytes → PyStr} {settings : Settings}

/-! ## Inversion -/

section Inversion

variable (sha256)

/-- The steps of an append. -/
inductive AppendMove (db : Database) (lock : Option Nat) (c : Nat) (req : CreateRequest settings) :
    AppendPhase → AppendStep → Prop where
  | acquire (free : lock = none) :
      AppendMove db lock c req .start ⟨db, some c, .locked, none⟩
  | refuse {err : ServiceError} (h : replayOrConflict sha256 noFailure db req = .error err) :
      AppendMove db lock c req .locked ⟨db, none, .ended (.error err), none⟩
  | replay {event : AuditEvent} (h : replayOrConflict sha256 noFailure db req = .ok (some event)) :
      AppendMove db lock c req .locked ⟨db, none, .ended (.ok event), none⟩
  | lookup (h : replayOrConflict sha256 noFailure db req = .ok none) :
      AppendMove db lock c req .locked ⟨db, lock, .unanswered, none⟩
  | link : AppendMove db lock c req .unanswered ⟨db, lock, .linking (Repo.lastHash db), none⟩
  | flush {previousHash : PyStr} {now : DateTime} {event : AuditEvent} {db' : Database}
      (h : stageEvent sha256 noFailure db req previousHash now = (.ok event, db')) :
      AppendMove db lock c req (.linking previousHash) ⟨db', lock, .flushed event, none⟩
  | flushFails {previousHash : PyStr} {now : DateTime} {err : DbError} {db' : Database}
      (h : stageEvent sha256 noFailure db req previousHash now = (.error err, db')) :
      AppendMove db lock c req (.linking previousHash)
        ⟨db', none, .ended (.error (.database err)), none⟩
  | record {event : AuditEvent} {record : Option IdempotencyKey}
      (h : stageIdempotencyKey sha256 noFailure db req event = .ok record) :
      AppendMove db lock c req (.flushed event) ⟨db, lock, .recorded event record, none⟩
  | recordFails {event : AuditEvent} {err : DbError}
      (h : stageIdempotencyKey sha256 noFailure db req event = .error err) :
      AppendMove db lock c req (.flushed event) ⟨db, none, .ended (.error (.database err)), none⟩
  | commit {event : AuditEvent} {record : Option IdempotencyKey} {db' : Database}
      (h : Repo.commitAppend noFailure db event record = .ok db') :
      AppendMove db lock c req (.recorded event record) ⟨db', none, .committed event, some event⟩
  | commitFails {event : AuditEvent} {record : Option IdempotencyKey} {err : DbError}
      (h : Repo.commitAppend noFailure db event record = .error err) :
      AppendMove db lock c req (.recorded event record)
        ⟨db, none, .ended (.error (.database err)), none⟩
  | refresh {event row : AuditEvent} (h : Repo.getEvent db event.id = some row) :
      AppendMove db lock c req (.committed event) ⟨db, lock, .ended (.ok row), none⟩
  | refreshFails {event : AuditEvent} (h : Repo.getEvent db event.id = none) :
      AppendMove db lock c req (.committed event)
        ⟨db, lock, .ended (.error (.database (.driver .refresh))), none⟩

/-- The steps of a redaction before its append. -/
inductive RedactMove (db : Database) (req : RedactRequest) :
    RedactPhase settings → Database → RedactPhase settings → Prop where
  | missing (h : Repo.getEvent db req.eventId = none) :
      RedactMove db req .reading db (.ended (.error (.eventNotFound req.eventId)))
  | nothing {event : AuditEvent} (h : Repo.getEvent db req.eventId = some event)
      (hnone : fieldsToRedact event req.fields = []) :
      RedactMove db req .reading db (.ended (.error (.noRedactableFields req.fields)))
  | read {event : AuditEvent} (h : Repo.getEvent db req.eventId = some event)
      (hsome : fieldsToRedact event req.fields ≠ []) :
      RedactMove db req .reading db (.redacting event)
  | write {event : AuditEvent} :
      RedactMove db req (.redacting event)
        (Repo.redactEventFields db req.eventId
          (redactionUpdate sha256 event (fieldsToRedact event req.fields) req.now))
        (.refreshing event)
  | refreshFails {event : AuditEvent} (h : Repo.getEvent db req.eventId = none) :
      RedactMove db req (.refreshing event) db (.ended (.error (.database (.driver .refresh))))
  | reject {event updated : AuditEvent} {errors : List FieldError}
      (h : Repo.getEvent db req.eventId = some updated)
      (hbody : companionBody settings req (fieldsToRedact event req.fields)
        (redactedContentHash sha256 event (fieldsToRedact event req.fields)) = .error errors) :
      RedactMove db req (.refreshing event) db (.ended (.error (.validation errors)))
  | refresh {event updated : AuditEvent} {body : AuditEventCreate settings}
      (h : Repo.getEvent db req.eventId = some updated)
      (hbody : companionBody settings req (fieldsToRedact event req.fields)
        (redactedContentHash sha256 event (fieldsToRedact event req.fields)) = .ok body) :
      RedactMove db req (.refreshing event) db (.appending event updated body .start)

/-- The steps of the system. -/
inductive Transition (w : World settings) : Action settings → World settings → Prop where
  | create (req : CreateRequest settings) :
      Transition w (.startCreate req) { w with calls := w.calls ++ [.create req .start] }
  | redact (req : RedactRequest) :
      Transition w (.startRedact req) { w with calls := w.calls ++ [.redact req .reading] }
  | append {c : Nat} {now : DateTime} {call : Call settings} {req : CreateRequest settings}
      {phase : AppendPhase} {s : AppendStep} (hcall : w.calls[c]? = some call)
      (happend : call.append? = some (req, phase))
      (hmove : AppendMove sha256 w.db w.lock c req phase s) :
      Transition w (.advance c now)
        { db := s.db
          lock := s.lock
          calls := w.calls.set c (call.resume sha256 s.phase)
          log := w.log ++ s.appended.toList.map (⟨c, ·⟩) }
  | redaction {c : Nat} {now : DateTime} {req : RedactRequest} {phase phase' : RedactPhase settings}
      {db' : Database}
      (hcall : w.calls[c]? = some (.redact req phase))
      (hmove : RedactMove sha256 w.db req phase db' phase') :
      Transition w (.advance c now) { w with db := db', calls := w.calls.set c (.redact req phase') }
  | rollback {c : Nat} {call : Call settings} (statement : DbCall)
      (hcall : w.calls[c]? = some call) (hrunning : call.isEnded = false) :
      Transition w (.rollback c statement)
        { w with
          lock := if w.lock = some c then none else w.lock
          calls := w.calls.set c (call.raised (.database (.driver statement))) }
  | retention (days : Int) (now archiveNow : DateTime) :
      Transition w (.applyRetention days now archiveNow)
        { w with db := (applyRetention w.db days now archiveNow).2 }

end Inversion

/-- A step of an append is one of its moves. -/
theorem stepAppend_cases {db : Database} {lock : Option Nat} {c : Nat} {req : CreateRequest settings}
    {now : DateTime} {phase : AppendPhase} {s : AppendStep}
    (h : stepAppend sha256 db lock c req now phase = some s) :
    AppendMove sha256 db lock c req phase s := by
  unfold stepAppend at h
  split at h
  · split at h
    · cases h
      exact .acquire ‹_›
    · cases h
  · split at h
    · cases h
      exact .refuse ‹_›
    · cases h
      exact .replay ‹_›
    · cases h
      exact .lookup ‹_›
  · cases h
    exact .link
  · split at h
    · cases h
      exact .flushFails ‹_›
    · cases h
      exact .flush ‹_›
  · split at h
    · cases h
      exact .recordFails ‹_›
    · cases h
      exact .record ‹_›
  · split at h
    · cases h
      exact .commitFails ‹_›
    · cases h
      exact .commit ‹_›
  · split at h
    · cases h
      exact .refreshFails ‹_›
    · cases h
      exact .refresh ‹_›
  · cases h

/-- A step of a redaction before its append is one of its moves. -/
theorem stepRedact_cases {db db' : Database} {req : RedactRequest}
    {phase phase' : RedactPhase settings} (h : stepRedact sha256 db req phase = some (db', phase')) :
    RedactMove sha256 db req phase db' phase' := by
  unfold stepRedact at h
  split at h
  · split at h
    · cases h
      exact .missing ‹_›
    · rename_i hfound
      split at h
      · cases h
        exact .nothing hfound ‹_›
      · cases h
        exact .read hfound ‹_›
  · cases h
    exact .write
  · split at h
    · cases h
      exact .refreshFails ‹_›
    · rename_i hfound
      dsimp only at h
      split at h
      · cases h
        exact .reject hfound ‹_›
      · cases h
        exact .refresh hfound ‹_›
  · cases h
  · cases h

/-- A step of the system is one of its transitions. -/
theorem step_cases {action : Action settings} {w w' : World settings}
    (h : step sha256 action w = some w') : Transition sha256 w action w' := by
  unfold step at h
  split at h
  · cases h
    exact .create _
  · cases h
    exact .redact _
  · split at h
    · cases h
    · rename_i call hcall
      split at h
      · rename_i req phase happend
        rcases Option.map_eq_some_iff.mp h with ⟨s, hs, rfl⟩
        exact .append hcall happend (stepAppend_cases hs)
      · -- A create is in its append from the start, so this is a redaction.
        split at h
        · cases h
        · rcases Option.map_eq_some_iff.mp h with ⟨⟨db', phase'⟩, hs, rfl⟩
          exact .redaction hcall (stepRedact_cases hs)
  · split at h
    · cases h
    · rename_i call hcall
      split at h
      · cases h
      · rename_i hrunning
        cases h
        exact .rollback _ hcall (by simpa using hrunning)
  · cases h
    exact .retention _ _ _

/-! ## One call moves -/

/-- The calls after one of them has moved. -/
theorem getElem?_set_some {α : Type} {as : List α} {c d : Nat} {a old b : α}
    (hold : as[c]? = some old) :
    (as.set c a)[d]? = some b ↔ (d = c ∧ b = a) ∨ (d ≠ c ∧ as[d]? = some b) := by
  have hlt : c < as.length := (List.getElem?_eq_some_iff.mp hold).1
  rw [List.getElem?_set]
  by_cases hcd : c = d
  · subst hcd
    simp [hlt, eq_comm]
  · simp [hcd, Ne.symm hcd]

theorem mem_set_self {α : Type} {as : List α} {c : Nat} {old : α} (hold : as[c]? = some old) (new : α) :
    new ∈ as.set c new :=
  List.mem_iff_getElem?.mpr ⟨c, (getElem?_set_some hold).mpr (Or.inl ⟨rfl, rfl⟩)⟩

theorem mem_set_of_ne {α : Type} {as : List α} {c d : Nat} {a old : α} (hold : as[c]? = some old)
    (hne : d ≠ c) (ha : as[d]? = some a) (new : α) : a ∈ as.set c new :=
  List.mem_iff_getElem?.mpr ⟨d, (getElem?_set_some hold).mpr (Or.inr ⟨hne, ha⟩)⟩

/-- The calls after one has started. -/
theorem getElem?_concat_some {α : Type} {as : List α} {d : Nat} {a b : α} :
    (as ++ [a])[d]? = some b ↔ as[d]? = some b ∨ (d = as.length ∧ b = a) := by
  rcases Nat.lt_trichotomy d as.length with hd | rfl | hd
  · rw [List.getElem?_append_left hd]
    simp [Nat.ne_of_lt hd]
  · simp [eq_comm]
  · rw [List.getElem?_eq_none (by rw [List.length_append]; exact hd),
      List.getElem?_eq_none (Nat.le_of_lt hd)]
    simp [Nat.ne_of_gt hd]

variable (sha256) in
/-- How the call with index `d` has come to be what it is after a step. -/
inductive CallStep (w : World settings) (d : Nat) : Call settings → Prop where
  | stays {call : Call settings} (hcall : w.calls[d]? = some call) : CallStep w d call
  | create (req : CreateRequest settings) : CallStep w d (.create req .start)
  | redact (req : RedactRequest) : CallStep w d (.redact req .reading)
  | append {call : Call settings} {req : CreateRequest settings} {phase : AppendPhase} {s : AppendStep}
      (hcall : w.calls[d]? = some call) (happend : call.append? = some (req, phase))
      (hmove : AppendMove sha256 w.db w.lock d req phase s) : CallStep w d (call.resume sha256 s.phase)
  | redaction {req : RedactRequest} {phase phase' : RedactPhase settings} {db' : Database}
      (hcall : w.calls[d]? = some (.redact req phase))
      (hmove : RedactMove sha256 w.db req phase db' phase') : CallStep w d (.redact req phase')
  | rollback {call : Call settings} (err : ServiceError) (hcall : w.calls[d]? = some call) :
      CallStep w d (call.raised err)

/-- A call after a step has stayed as it was, has started, or has moved itself. -/
theorem Transition.callStep {w w' : World settings} {action : Action settings}
    (h : Transition sha256 w action w') {d : Nat} {call : Call settings}
    (hcall : w'.calls[d]? = some call) : CallStep sha256 w d call := by
  cases h with
  | create req =>
    rcases getElem?_concat_some.mp hcall with hcall | ⟨-, rfl⟩
    · exact .stays hcall
    · exact .create req
  | redact req =>
    rcases getElem?_concat_some.mp hcall with hcall | ⟨-, rfl⟩
    · exact .stays hcall
    · exact .redact req
  | append hold happend hmove =>
    rcases (getElem?_set_some hold).mp hcall with ⟨rfl, rfl⟩ | ⟨-, hcall⟩
    · exact .append hold happend hmove
    · exact .stays hcall
  | redaction hold hmove =>
    rcases (getElem?_set_some hold).mp hcall with ⟨rfl, rfl⟩ | ⟨-, hcall⟩
    · exact .redaction hold hmove
    · exact .stays hcall
  | rollback statement hold hrunning =>
    rcases (getElem?_set_some hold).mp hcall with ⟨rfl, rfl⟩ | ⟨-, hcall⟩
    · exact .rollback _ hold
    · exact .stays hcall
  | retention days now archiveNow => exact .stays hcall

/-- Calls stay where they are and keep what no step of theirs changes. -/
theorem Transition.keeps {w w' : World settings} {action : Action settings}
    (h : Transition sha256 w action w') {β : Type} (f : Call settings → β)
    (hresume : ∀ call phase, f (call.resume sha256 phase) = f call)
    (hphase : ∀ req phase phase', f (.redact req phase) = f (.redact req phase'))
    (hraised : ∀ call err, f (call.raised err) = f call) {c : Nat} {call : Call settings}
    (hcall : w.calls[c]? = some call) : ∃ call', w'.calls[c]? = some call' ∧ f call' = f call := by
  have hset : ∀ {d : Nat} {old new : Call settings}, w.calls[d]? = some old → f new = f old →
      ∃ call', (w.calls.set d new)[c]? = some call' ∧ f call' = f call := by
    intro d old new hold hsame
    by_cases hcd : c = d
    · subst hcd
      rw [hcall] at hold
      cases hold
      exact ⟨new, (getElem?_set_some hcall).mpr (Or.inl ⟨rfl, rfl⟩), hsame⟩
    · exact ⟨call, (getElem?_set_some hold).mpr (Or.inr ⟨hcd, hcall⟩), rfl⟩
  cases h with
  | create req => exact ⟨call, getElem?_concat_some.mpr (Or.inl hcall), rfl⟩
  | redact req => exact ⟨call, getElem?_concat_some.mpr (Or.inl hcall), rfl⟩
  | append hold happend hmove => exact hset hold (hresume _ _)
  | redaction hold hmove => exact hset hold (hphase _ _ _)
  | rollback statement hold hrunning => exact hset hold (hraised _ _)
  | retention days now archiveNow => exact ⟨call, hcall, rfl⟩

/-- A call that has ended takes no further step. -/
theorem Transition.getElem?_of_isEnded {w w' : World settings} {action : Action settings}
    (h : Transition sha256 w action w') {c : Nat} {call : Call settings}
    (hcall : w.calls[c]? = some call) (hended : call.isEnded = true) : w'.calls[c]? = some call := by
  have hset : ∀ {d : Nat} {old : Call settings} (new : Call settings), w.calls[d]? = some old →
      old.isEnded = false → (w.calls.set d new)[c]? = some call := by
    intro d old new hold hrunning
    -- The call that moves has not ended, so it is another one.
    have hne : c ≠ d := by
      rintro rfl
      rw [hcall] at hold
      cases hold
      rw [hended] at hrunning
      cases hrunning
    exact (getElem?_set_some hold).mpr (Or.inr ⟨hne, hcall⟩)
  cases h with
  | create req => exact getElem?_concat_some.mpr (Or.inl hcall)
  | redact req => exact getElem?_concat_some.mpr (Or.inl hcall)
  | @append c now old req phase s hold happend hmove =>
    refine hset _ hold ?_
    rcases old with ⟨req₀, phase₀⟩ | ⟨req₀, phase₀⟩
    · cases happend
      cases hmove <;> rfl
    · cases phase₀ with
      | ended outcome => cases happend
      | _ => rfl
  | redaction hold hmove =>
    refine hset _ hold ?_
    cases hmove <;> rfl
  | rollback statement hold hrunning => exact hset _ hold hrunning
  | retention days now archiveNow => exact hcall

/-- The call with index `c` is in an append of `req`. -/
def World.Appending (w : World settings) (c : Nat) (req : CreateRequest settings)
    (phase : AppendPhase) : Prop :=
  ∃ call, w.calls[c]? = some call ∧ call.append? = some (req, phase)

namespace Call

theorem append?_resume {call : Call settings} {req req' : CreateRequest settings}
    {phase next phase' : AppendPhase} (h : call.append? = some (req, phase))
    (h' : (call.resume sha256 next).append? = some (req', phase')) : req' = req ∧ phase' = next := by
  rcases call with ⟨req₀, phase₀⟩ | ⟨redact, phase₀⟩
  · cases h
    cases h'
    exact ⟨rfl, rfl⟩
  · cases phase₀ with
    | appending event updated body phase₁ =>
      cases h
      cases next with
      | ended outcome => rcases outcome with err | redactionEvent <;> cases h'
      | _ =>
        cases h'
        exact ⟨rfl, rfl⟩
    | _ => cases h

/-- A call that has rolled back holds no lock. -/
theorem append?_raised {call : Call settings} {err : ServiceError} {req : CreateRequest settings}
    {phase : AppendPhase} (h : (call.raised err).append? = some (req, phase)) :
    phase = .ended (.error err) := by
  rcases call with ⟨req₀, phase₀⟩ | ⟨redact, phase₀⟩
  · cases h
    rfl
  · cases h

end Call

/-- A redaction before its append at most starts one. -/
theorem RedactMove.append?_eq_start {db db' : Database} {req : RedactRequest}
    {phase phase' : RedactPhase settings} (h : RedactMove sha256 db req phase db' phase')
    {create : CreateRequest settings} {append : AppendPhase}
    (happend : (Call.redact req phase').append? = some (create, append)) : append = .start := by
  cases h with
  | refresh h hbody =>
    cases happend
    rfl
  | _ => cases happend

end AuditLog
