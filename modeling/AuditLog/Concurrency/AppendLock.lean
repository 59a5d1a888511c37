import AuditLog.Concurrency.Transitions

/-!
# The append lock

At most one call is between `lock_for_append` and the end of its transaction, so
what that call has read of the chain stays true until it commits. A step either
rewrites rows in place, which no append can tell, or commits the one staged row.
-/

namespace AuditLog

variable {sha256 : Bytes → PyStr} {settings : Settings}

/-! ## Rows rewritten in place -/

/-- `b` is `a` with another payload, redaction metadata or archival. -/
def Retouched (a b : AuditEvent) : Prop :=
  b = { a with
    payload := b.payload
    archivedAt := b.archivedAt
    redactedAt := b.redactedAt
    redactedFields := b.redactedFields
    redactedFieldHashes := b.redactedFieldHashes }

namespace Retouched

theorem refl (a : AuditEvent) : Retouched a a := rfl

theorem trans {a b c : AuditEvent} (h : Retouched a b) (h' : Retouched b c) : Retouched a c := by
  unfold Retouched at h h'
  rw [h] at h'
  exact h'

variable {a b : AuditEvent}

theorem id (h : Retouched a b) : b.id = a.id := (congrArg AuditEvent.id h :)

theorem eventHash (h : Retouched a b) : b.eventHash = a.eventHash :=
  (congrArg AuditEvent.eventHash h :)

theorem previousHash (h : Retouched a b) : b.previousHash = a.previousHash :=
  (congrArg (fun e : AuditEvent => e.previousHash) h :)

theorem tenantId (h : Retouched a b) : b.tenantId = a.tenantId :=
  (congrArg (fun e : AuditEvent => e.tenantId) h :)

theorem eventType (h : Retouched a b) : b.eventType = a.eventType :=
  (congrArg (fun e : AuditEvent => e.eventType) h :)

end Retouched

/-- Nothing but rewrites in place, and ids drawn from the sequence. -/
structure Rewritten (db db' : Database) : Prop where
  rows : List.Forall₂ Retouched db.auditEvents db'.auditEvents
  drawn : db.nextEventId ≤ db'.nextEventId

namespace Rewritten

theorem refl (db : Database) : Rewritten db db :=
  ⟨List.forall₂_same.mpr fun e _ => Retouched.refl e, le_refl _⟩

/-- A drawn id leaves the rows alone, also when its transaction is rolled back. -/
theorem drawEventId (db : Database) : Rewritten db db.drawEventId :=
  ⟨List.forall₂_same.mpr fun e _ => Retouched.refl e, by
    rw [Database.drawEventId_nextEventId]
    omega⟩

/-- An update that keeps the ids and retouches every row. -/
theorem mapEvents (db : Database) {f : AuditEvent → AuditEvent} (hid : ∀ e, (f e).id = e.id)
    (hf : ∀ e, Retouched e (f e)) : Rewritten db (db.mapEvents f hid) := by
  refine ⟨?_, le_refl _⟩
  rw [Database.mapEvents_auditEvents, List.forall₂_map_right_iff]
  exact List.forall₂_same.mpr fun e _ => hf e

/-- The `UPDATE` of a redaction sets the payload and the redaction metadata of one row. -/
theorem redactEventFields (db : Database) (eventId : Int) (u : Repo.RedactionUpdate) :
    Rewritten db (Repo.redactEventFields db eventId u) := by
  refine mapEvents db (fun e => by split <;> rfl) ?_
  intro e
  split <;> rfl

/-- The retention sweep sets `archived_at` and nothing else. -/
theorem applyRetention (db : Database) (days : Int) (now archiveNow : DateTime) :
    Rewritten db (AuditLog.applyRetention db days now archiveNow).2 := by
  unfold AuditLog.applyRetention
  split
  · exact refl db
  · refine mapEvents db (fun e => by split <;> rfl) ?_
    intro e
    split <;> rfl

variable {db db' : Database}

/-- Rewriting rows moves no tip. -/
theorem lastHash (h : Rewritten db db') : Repo.lastHash db' = Repo.lastHash db := by
  -- The tip depends on the hashes alone, and those stay.
  rw [Repo.lastHash_eq_tip, Repo.lastHash_eq_tip]
  exact HashChain.tip_of_forall₂ GENESIS_HASH (h.rows.imp fun _ _ hab => hab.eventHash)

/-- An id beyond all rows stays beyond them. -/
theorem id_lt (h : Rewritten db db') {id : Int} (hlt : ∀ e ∈ db.auditEvents, e.id < id) :
    ∀ e ∈ db'.auditEvents, e.id < id := by
  intro e he
  rcases HashChain.exists_of_forall₂_right h.rows he with ⟨a, ha, hae⟩
  rw [hae.id]
  exact hlt a ha

end Rewritten

/-! ## What an append knows -/

/-- A row that is flushed and waits for its commit: it links to the tip, and its
id is the largest. -/
structure Staged (sha256 : Bytes → PyStr) (db : Database) (req : CreateRequest settings)
    (event : AuditEvent) : Prop where
  content : event.toEventContent = req.eventContent event.timestamp (Repo.lastHash db)
  hash : event.eventHash = contentHash sha256 event
  unredacted : event.redactedAt = none
  last : ∀ e ∈ db.auditEvents, e.id < event.id
  drawn : event.id < db.nextEventId

section Staged

variable {db : Database} {req : CreateRequest settings} {event : AuditEvent}

theorem Staged.previousHash (h : Staged sha256 db req event) :
    event.previousHash = Repo.lastHash db :=
  congrArg EventContent.previousHash h.content

/-- The staged row continues the chain. -/
theorem Staged.linked (h : Staged sha256 db req event) :
    event.previousHash = HashChain.tip AuditEvent.eventHash GENESIS_HASH db.auditEvents :=
  h.previousHash.trans (Repo.lastHash_eq_tip db)

/-- The staged row stores what was asked for. -/
theorem Staged.request (h : Staged sha256 db req event) : event.toRequestContent = req.content :=
  congrArg EventContent.toRequestContent h.content

theorem Staged.tenantId (h : Staged sha256 db req event) : event.tenantId = req.tenantId :=
  congrArg RequestContent.tenantId h.request

theorem Staged.eventType (h : Staged sha256 db req event) :
    event.eventType = req.eventIn.eventType :=
  congrArg RequestContent.eventType h.request

theorem Staged.payload (h : Staged sha256 db req event) : event.payload = req.eventIn.payload :=
  congrArg RequestContent.payload h.request

end Staged

/-- A flush that follows the read of the tip stages a row that continues the chain. -/
theorem staged_of_flush {db db' : Database} {req : CreateRequest settings} {now : DateTime}
    {event : AuditEvent}
    (h : stageEvent sha256 noFailure db req (Repo.lastHash db) now = (.ok event, db')) :
    Staged sha256 db' req event ∧ db'.auditEvents = db.auditEvents ∧ Rewritten db db' := by
  rcases stageEvent_cases h with ⟨rfl, ⟨err, herr⟩ | hok⟩
  · cases herr
  · cases hok
    refine ⟨⟨rfl, rfl, rfl, fun e he => db.sequenceAhead e he, ?_⟩, rfl, .drawEventId db⟩
    show db.nextEventId < db.nextEventId + 1
    omega

/-- What the append knows of the committed state in each phase. -/
def PhaseOk (sha256 : Bytes → PyStr) (db : Database) (req : CreateRequest settings) :
    AppendPhase → Prop
  | .linking previousHash => previousHash = Repo.lastHash db
  | .flushed event => Staged sha256 db req event
  | .recorded event _ => Staged sha256 db req event
  | _ => True

/-- A staged row stays so while others are rewritten: no hash and no id changes. -/
theorem Staged.of_rewritten {db db' : Database} {req : CreateRequest settings} {event : AuditEvent}
    (h : Staged sha256 db req event) (hre : Rewritten db db') : Staged sha256 db' req event where
  content := by
    rw [hre.lastHash]
    exact h.content
  hash := h.hash
  unredacted := h.unredacted
  last := hre.id_lt h.last
  drawn := lt_of_lt_of_le h.drawn hre.drawn

/-- Rewriting rows takes nothing from what an append knows. -/
theorem PhaseOk.of_rewritten {db db' : Database} {req : CreateRequest settings} {phase : AppendPhase}
    (h : PhaseOk sha256 db req phase) (hre : Rewritten db db') : PhaseOk sha256 db' req phase := by
  cases phase with
  | linking previousHash => exact Eq.trans h hre.lastHash.symm
  | flushed event => exact Staged.of_rewritten h hre
  | recorded event record => exact Staged.of_rewritten h hre
  | _ => trivial

/-- Outside its transaction a call relies on nothing. -/
theorem phaseOk_of_not_holdsLock {db : Database} {req : CreateRequest settings} {phase : AppendPhase}
    (h : ¬ phase.HoldsLock) : PhaseOk sha256 db req phase := by
  cases phase with
  | linking previousHash => exact absurd trivial h
  | flushed event => exact absurd trivial h
  | recorded event record => exact absurd trivial h
  | _ => trivial

/-! ## The lock discipline -/

/-- A call in its transaction holds the lock, and what it knows is true. -/
structure Disciplined (sha256 : Bytes → PyStr) (w : World settings) : Prop where
  lock : ∀ {c req phase}, w.Appending c req phase → phase.HoldsLock → w.lock = some c
  phase : ∀ {c req phase}, w.Appending c req phase → PhaseOk sha256 w.db req phase

/-- How one step of an append changes the shared state. -/
theorem AppendMove.effect {db : Database} {lock : Option Nat} {c : Nat} {req : CreateRequest settings}
    {phase : AppendPhase} {s : AppendStep} (h : AppendMove sha256 db lock c req phase s)
    (hphase : PhaseOk sha256 db req phase) :
    (s.db.auditEvents = db.auditEvents ∧ Rewritten db s.db ∧ s.appended = none ∧
        PhaseOk sha256 s.db req s.phase) ∨
      ∃ event record, phase = .recorded event record ∧ s.phase = .committed event ∧
        Repo.commitAppend noFailure db event record = .ok s.db ∧ s.appended = some event := by
  cases h with
  | acquire free => exact Or.inl ⟨rfl, .refl db, rfl, trivial⟩
  | refuse h => exact Or.inl ⟨rfl, .refl db, rfl, trivial⟩
  | replay h => exact Or.inl ⟨rfl, .refl db, rfl, trivial⟩
  | lookup h => exact Or.inl ⟨rfl, .refl db, rfl, trivial⟩
  -- The tip is read under the lock: from here on `PhaseOk` says something.
  | link => exact Or.inl ⟨rfl, .refl db, rfl, rfl⟩
  | flush h =>
    cases (hphase : _ = Repo.lastHash db)
    rcases staged_of_flush h with ⟨hstaged, hrows, hre⟩
    exact Or.inl ⟨hrows, hre, rfl, hstaged⟩
  | flushFails h =>
    cases (hphase : _ = Repo.lastHash db)
    rcases stageEvent_cases h with ⟨rfl, -⟩
    exact Or.inl ⟨rfl, .drawEventId db, rfl, trivial⟩
  | record h => exact Or.inl ⟨rfl, .refl db, rfl, hphase⟩
  | recordFails h => exact Or.inl ⟨rfl, .refl db, rfl, trivial⟩
  -- The only step that adds a row.
  | commit h => exact Or.inr ⟨_, _, rfl, rfl, h, rfl⟩
  | commitFails h => exact Or.inl ⟨rfl, .refl db, rfl, trivial⟩
  | refresh h => exact Or.inl ⟨rfl, .refl db, rfl, trivial⟩
  | refreshFails h => exact Or.inl ⟨rfl, .refl db, rfl, trivial⟩

/-- A step of an append takes the lock, keeps it or gives it back. -/
theorem AppendMove.lock_cases {db : Database} {lock : Option Nat} {c : Nat}
    {req : CreateRequest settings} {phase : AppendPhase} {s : AppendStep}
    (h : AppendMove sha256 db lock c req phase s) :
    (lock = none ∧ s.lock = some c) ∨
      (s.lock = lock ∧ (s.phase.HoldsLock → phase.HoldsLock)) ∨
      (phase.HoldsLock ∧ ¬ s.phase.HoldsLock ∧ s.lock = none) := by
  cases h with
  | acquire free => exact Or.inl ⟨free, rfl⟩
  | lookup h => exact Or.inr (Or.inl ⟨rfl, fun _ => trivial⟩)
  | link => exact Or.inr (Or.inl ⟨rfl, fun _ => trivial⟩)
  | flush h => exact Or.inr (Or.inl ⟨rfl, fun _ => trivial⟩)
  | record h => exact Or.inr (Or.inl ⟨rfl, fun _ => trivial⟩)
  | refresh h => exact Or.inr (Or.inl ⟨rfl, False.elim⟩)
  | refreshFails h => exact Or.inr (Or.inl ⟨rfl, False.elim⟩)
  -- Every end of the transaction gives the lock back, a refusal and a failure included.
  | _ => exact Or.inr (Or.inr ⟨trivial, not_false, rfl⟩)

/-- A redaction before its append writes no more than one `UPDATE`. -/
theorem RedactMove.rewritten {db db' : Database} {req : RedactRequest}
    {phase phase' : RedactPhase settings} (h : RedactMove sha256 db req phase db' phase') :
    Rewritten db db' := by
  cases h with
  | write => exact .redactEventFields db _ _
  | _ => exact .refl db

/-- **How one step changes the committed state**: it rewrites rows in place, or it
commits the row that a call in its transaction has staged. -/
theorem Transition.effect {w w' : World settings} {action : Action settings}
    (hd : Disciplined sha256 w) (h : Transition sha256 w action w') :
    (Rewritten w.db w'.db ∧ w'.log = w.log) ∨
      ∃ c req event record, w.Appending c req (.recorded event record) ∧
        Repo.commitAppend noFailure w.db event record = .ok w'.db ∧
        w'.log = w.log ++ [⟨c, event⟩] := by
  cases h with
  | create req => exact Or.inl ⟨.refl w.db, rfl⟩
  | redact req => exact Or.inl ⟨.refl w.db, rfl⟩
  | @append c now call req phase s hcall happend hmove =>
    have happending : w.Appending c req phase := ⟨call, hcall, happend⟩
    rcases hmove.effect (hd.phase happending) with
      ⟨-, hre, hnone, -⟩ | ⟨event, record, rfl, -, hcommit, hsome⟩
    · refine Or.inl ⟨hre, ?_⟩
      rw [hnone]
      exact List.append_nil w.log
    · refine Or.inr ⟨c, req, event, record, happending, hcommit, ?_⟩
      rw [hsome]
      rfl
  | redaction hcall hmove => exact Or.inl ⟨hmove.rewritten, rfl⟩
  | rollback statement hcall hrunning => exact Or.inl ⟨.refl w.db, rfl⟩
  | retention days now archiveNow => exact Or.inl ⟨.applyRetention w.db days now archiveNow, rfl⟩

/-- An event in the log after a step was there before it, or is the row that a call had
staged. -/
theorem Transition.mem_log {w w' : World settings} {action : Action settings}
    (hd : Disciplined sha256 w) (h : Transition sha256 w action w') {a : Appended}
    (ha : a ∈ w'.log) :
    a ∈ w.log ∨ ∃ call req record, w.calls[a.call]? = some call ∧
      call.append? = some (req, .recorded a.event record) ∧ Staged sha256 w.db req a.event := by
  rcases h.effect hd with ⟨-, hlog⟩ | ⟨c, req, event, record, happending, -, hlog⟩
  · rw [hlog] at ha
    exact Or.inl ha
  · rw [hlog] at ha
    rcases List.mem_append.mp ha with ha | ha
    · exact Or.inl ha
    · rw [List.mem_singleton.mp ha]
      have hstaged : Staged sha256 w.db req event := hd.phase happending
      obtain ⟨call, hcall, happend⟩ := happending
      exact Or.inr ⟨call, req, record, hcall, happend, hstaged⟩

/-- After a step of call `c`, every other call is in the append it was in. -/
theorem appending_of_set {w w' : World settings} {c d : Nat} {old new : Call settings}
    {req : CreateRequest settings} {phase : AppendPhase} (hold : w.calls[c]? = some old)
    (hcalls : w'.calls = w.calls.set c new) (h : w'.Appending d req phase) :
    (d = c ∧ new.append? = some (req, phase)) ∨ (d ≠ c ∧ w.Appending d req phase) := by
  rcases h with ⟨call, hcall, happend⟩
  rw [hcalls, getElem?_set_some hold] at hcall
  rcases hcall with ⟨hd, rfl⟩ | ⟨hd, hcall⟩
  · exact Or.inl ⟨hd, happend⟩
  · exact Or.inr ⟨hd, call, hcall, happend⟩

/-- A call that starts is in no transaction yet. -/
theorem appending_of_concat {w w' : World settings} {d : Nat} {new : Call settings}
    {req : CreateRequest settings} {phase : AppendPhase} (hcalls : w'.calls = w.calls ++ [new])
    (hnew : ∀ req phase, new.append? = some (req, phase) → phase = .start)
    (h : w'.Appending d req phase) : phase = .start ∨ w.Appending d req phase := by
  rcases h with ⟨call, hcall, happend⟩
  rw [hcalls, getElem?_concat_some] at hcall
  rcases hcall with hcall | ⟨-, rfl⟩
  · exact Or.inr ⟨call, hcall, happend⟩
  · exact Or.inl (hnew _ _ happend)

/-- A state whose calls are as disciplined, over rows rewritten in place. -/
theorem Disciplined.of_appending {w w' : World settings} (hd : Disciplined sha256 w)
    (hre : Rewritten w.db w'.db)
    (hcalls : ∀ {c req phase}, w'.Appending c req phase → ¬ phase.HoldsLock ∨
      (w.Appending c req phase ∧ (w.lock = some c → w'.lock = some c))) :
    Disciplined sha256 w' where
  lock := by
    intro c req phase h hholds
    rcases hcalls h with hnot | ⟨hw, hlock⟩
    · exact absurd hholds hnot
    · exact hlock (hd.lock hw hholds)
  phase := by
    intro c req phase h
    rcases hcalls h with hnot | ⟨hw, -⟩
    · exact phaseOk_of_not_holdsLock hnot
    · exact (hd.phase hw).of_rewritten hre

/-- A step of an append keeps the discipline, for its own call and for every other one. -/
theorem Disciplined.append {w : World settings} (hd : Disciplined sha256 w) {c : Nat}
    {call : Call settings} {req : CreateRequest settings} {phase : AppendPhase} {s : AppendStep}
    (hcall : w.calls[c]? = some call) (happend : call.append? = some (req, phase))
    (hmove : AppendMove sha256 w.db w.lock c req phase s) (log : List Appended) :
    Disciplined sha256 (⟨s.db, s.lock, w.calls.set c (call.resume sha256 s.phase), log⟩ :
      World settings) := by
  have happending : w.Appending c req phase := ⟨call, hcall, happend⟩
  constructor
  · intro d req' phase' h hholds
    rcases appending_of_set hcall rfl h with ⟨rfl, hresume⟩ | ⟨hne, hw⟩
    · -- The call itself has just taken the lock, has kept it or is done with it.
      rcases Call.append?_resume happend hresume with ⟨rfl, rfl⟩
      rcases hmove.lock_cases with ⟨-, htaken⟩ | ⟨hsame, hheld⟩ | ⟨-, hnot, -⟩
      · exact htaken
      · exact hsame.trans (hd.lock happending (hheld hholds))
      · exact absurd hholds hnot
    · -- Another call holds the lock, so this one neither takes it nor gives it back.
      have hlock := hd.lock hw hholds
      rcases hmove.lock_cases with ⟨hfree, -⟩ | ⟨hsame, -⟩ | ⟨hheld, -, -⟩
      · rw [hfree] at hlock
        cases hlock
      · exact hsame.trans hlock
      · rw [hd.lock happending hheld] at hlock
        exact absurd (Option.some.inj hlock).symm hne
  · intro d req' phase' h
    rcases appending_of_set hcall rfl h with ⟨rfl, hresume⟩ | ⟨hne, hw⟩
    -- What the call knew, or has just read, is true after its own step.
    · rcases Call.append?_resume happend hresume with ⟨rfl, rfl⟩
      rcases hmove.effect (hd.phase happending) with
        ⟨-, -, -, hphase⟩ | ⟨event, record, -, hcommitted, -⟩
      · exact hphase
      · rw [hcommitted]
        trivial
    -- A step that commits nothing takes nothing from the others either.
    · rcases hmove.effect (hd.phase happending) with
        ⟨-, hre, -, -⟩ | ⟨event, record, rfl, -⟩
      · exact (hd.phase hw).of_rewritten hre
      · -- The committing call holds the lock, so the other one does not.
        refine phaseOk_of_not_holdsLock fun hholds => hne ?_
        have hlock := hd.lock hw hholds
        rw [hd.lock happending trivial] at hlock
        exact (Option.some.inj hlock).symm

/-- Every step keeps the lock discipline. -/
theorem Disciplined.step {w w' : World settings} {action : Action settings}
    (hd : Disciplined sha256 w) (h : Transition sha256 w action w') : Disciplined sha256 w' := by
  cases h with
  | create req =>
    refine hd.of_appending (.refl w.db) ?_
    intro c req phase h
    -- A new call has not asked for the lock yet.
    rcases appending_of_concat rfl (fun _ _ h => by cases h; rfl) h with rfl | hw
    · exact Or.inl not_false
    · exact Or.inr ⟨hw, id⟩
  | redact req =>
    refine hd.of_appending (.refl w.db) ?_
    intro c req phase h
    rcases appending_of_concat rfl (fun _ _ h => by cases h) h with rfl | hw
    · exact Or.inl not_false
    · exact Or.inr ⟨hw, id⟩
  | append hcall happend hmove => exact hd.append hcall happend hmove _
  | redaction hcall hmove =>
    refine hd.of_appending hmove.rewritten ?_
    intro c req phase h
    rcases appending_of_set hcall rfl h with ⟨rfl, hnew⟩ | ⟨-, hw⟩
    · rw [hmove.append?_eq_start hnew]
      exact Or.inl not_false
    · exact Or.inr ⟨hw, id⟩
  | rollback statement hcall hrunning =>
    refine hd.of_appending (.refl w.db) ?_
    intro c req phase h
    rcases appending_of_set hcall rfl h with ⟨rfl, hnew⟩ | ⟨hne, hw⟩
    · rw [Call.append?_raised hnew]
      exact Or.inl not_false
    · -- A rollback gives back no lock but its own.
      refine Or.inr ⟨hw, ?_⟩
      intro hlock
      show (if w.lock = some _ then none else w.lock) = _
      rw [hlock, if_neg fun h => hne (Option.some.inj h)]
  | retention days now archiveNow =>
    exact hd.of_appending (.applyRetention w.db days now archiveNow) fun h => Or.inr ⟨h, id⟩

/-- No call is under way. -/
def World.init (db : Database) : World settings := { db }

theorem disciplined_init (db : Database) : Disciplined sha256 (World.init db : World settings) where
  lock := fun ⟨_, hcall, _⟩ => by cases hcall
  phase := fun ⟨_, hcall, _⟩ => by cases hcall

/-- **The append lock works**: every reachable state is disciplined. -/
theorem disciplined_of_reaches {ok : World settings → Action settings → Prop} {db : Database}
    {w : World settings} (h : Machine.Reaches (step sha256) ok (.init db) w) :
    Disciplined sha256 w :=
  h.invariant (disciplined_init db) fun _ _ _ _ _ hstep hd => hd.step (step_cases hstep)

/-! ## Companions under way -/

theorem RedactPhase.afterAppend_eq_appending {req : RedactRequest}
    {event updated event' updated' : AuditEvent} {body body' : AuditEventCreate settings}
    {phase phase' : AppendPhase}
    (h : afterAppend sha256 req event updated body phase = .appending event' updated' body' phase') :
    event' = event ∧ updated' = updated ∧ body' = body ∧ phase' = phase := by
  cases phase with
  | ended outcome => rcases outcome with err | redactionEvent <;> cases h
  | _ =>
    cases h
    exact ⟨rfl, rfl, rfl, rfl⟩

/-- Every companion under way is the one that its call built from the row it read. -/
def Bodied (sha256 : Bytes → PyStr) (w : World settings) : Prop :=
  ∀ (c : Nat) (req : RedactRequest) (event updated : AuditEvent) (body : AuditEventCreate settings)
    (phase : AppendPhase),
    w.calls[c]? = some (.redact req (.appending event updated body phase)) →
    companionBody settings req (fieldsToRedact event req.fields)
      (redactedContentHash sha256 event (fieldsToRedact event req.fields)) = .ok body

theorem Bodied.step {w w' : World settings} {action : Action settings} (h : Bodied sha256 w)
    (hstep : Transition sha256 w action w') : Bodied sha256 w' := by
  intro c req event updated body phase hcall
  generalize hnew : Call.redact req (.appending event updated body phase) = call at hcall
  cases hstep.callStep hcall with
  | stays hcall =>
    subst hnew
    exact h c req event updated body phase hcall
  | create req' => cases hnew
  | redact req' => cases hnew
  | @append old req' phase' s hold happend hmove =>
    rcases old with ⟨req₀, phase₀⟩ | ⟨req₀, phase₀⟩
    · cases hnew
    · cases phase₀ with
      | appending event₀ updated₀ body₀ phase₀ =>
        rcases Call.redact.inj hnew with ⟨rfl, hphase⟩
        rcases RedactPhase.afterAppend_eq_appending hphase.symm with ⟨rfl, rfl, rfl, rfl⟩
        exact h _ _ _ _ _ _ hold
      | _ => cases happend
  | redaction hold hmove =>
    rcases Call.redact.inj hnew with ⟨rfl, rfl⟩
    cases hmove with
    | refresh hfound hbody => exact hbody
  | @rollback old err hold => cases old <;> cases hnew

theorem bodied_of_reaches {ok : World settings → Action settings → Prop} {db : Database}
    {w : World settings} (h : Machine.Reaches (step sha256) ok (.init db) w) : Bodied sha256 w :=
  h.invariant (fun _ _ _ _ _ _ hcall => by cases hcall) fun _ _ _ _ _ hstep hb =>
    hb.step (step_cases hstep)

end AuditLog
