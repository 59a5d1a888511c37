import AuditLog.Concurrency.PendingCommitments
import AuditLog.Concurrency.RetentionRuns

/-!
# Between the two commits of a redaction

One redaction of an ordinary event runs beside ordinary appends and retention, and may
stop anywhere. The table is intact before its payload commit and after the commit of
its companion. In between the record is flagged and nothing commits to its content,
unless the chain did so before the call.
-/

namespace AuditLog

variable {sha256 : Bytes → PyStr} {settings : Settings}

/-! ## One redaction -/

/-- What may happen beside the redaction `req`: ordinary appends and retention. -/
def Beside (req : RedactRequest) (w : World settings) : Action settings → Prop
  | .startCreate create => create.eventIn.eventType ≠ REDACTION_EVENT_TYPE
  | .startRedact other => other = req ∧ ∀ call ∈ w.calls, call.redactRequest? = none
  | .advance _ _ | .rollback _ _ | .applyRetention _ _ _ => True

instance (req : RedactRequest) (w : World settings) : (action : Action settings) →
    Decidable (Beside req w action)
  | .startCreate _ => inferInstanceAs (Decidable (_ ≠ _))
  | .startRedact _ => inferInstanceAs (Decidable (_ ∧ _))
  | .advance _ _ | .rollback _ _ | .applyRetention _ _ _ => isTrue trivial

/-- How far the redaction has got in the table. -/
inductive RedactionStage where
  | untouched
  | written
  | completed
deriving DecidableEq

/-- The record at a stage, but for its archival. -/
def RedactionStage.row (sha256 : Bytes → PyStr) (req : RedactRequest) (event : AuditEvent) :
    RedactionStage → AuditEvent
  | .untouched => event
  | .written | .completed => redactedRow sha256 req event

/-- What the chain commits the record to at a stage. -/
def RedactionStage.commitment (sha256 : Bytes → PyStr) (req : RedactRequest) (event : AuditEvent)
    (before : Option Json) : RedactionStage → Option Json
  | .untouched | .written => before
  | .completed => some (.str (contentHash sha256 (redactedRow sha256 req event)))

/-- The phases of the call at a stage. -/
inductive RedactPhase.At (event : AuditEvent) : RedactionStage → RedactPhase settings → Prop where
  | reading : At event .untouched .reading
  | redacting {read : AuditEvent} (h : read.unarchived = event.unarchived) :
      At event .untouched (.redacting read)
  | refreshing {read : AuditEvent} (h : read.unarchived = event.unarchived) :
      At event .written (.refreshing read)
  | appending {read updated : AuditEvent} {body : AuditEventCreate settings} {phase : AppendPhase}
      (h : read.unarchived = event.unarchived)
      (hphase : ∀ companion, phase ≠ .committed companion) :
      At event .written (.appending read updated body phase)
  | committed {read updated companion : AuditEvent} {body : AuditEventCreate settings} :
      At event .completed (.appending read updated body (.committed companion))
  | ended {stage : RedactionStage} {outcome : Except ServiceError RedactionResult} :
      At event stage (.ended outcome)

/-- Every call is an ordinary append, or the redaction, which has the index `c`. -/
def Call.At (req : RedactRequest) (event : AuditEvent) (c : Nat) (stage : RedactionStage) (d : Nat) :
    Call settings → Prop
  | .create request _ => request.eventIn.eventType ≠ REDACTION_EVENT_TYPE
  | .redact other phase => d = c ∧ other = req ∧ phase.At event stage

/-- A companion of the redaction, by its type and target. -/
def NamesTarget (req : RedactRequest) (event : AuditEvent) : Prop :=
  event.eventType = REDACTION_EVENT_TYPE ∧ event.payload.get "targetEventId" = .int req.eventId

instance (req : RedactRequest) (event : AuditEvent) : Decidable (NamesTarget req event) :=
  inferInstanceAs (Decidable (_ ∧ _))

/-- The table while the redaction runs: intact but for the record, which is at its stage. -/
structure Watched (sha256 : Bytes → PyStr) (req : RedactRequest) (event : AuditEvent)
    (before : Option Json) (c : Nat) (stage : RedactionStage) (row : AuditEvent)
    (w : World settings) : Prop where
  chain : ChainOkExcept sha256 req.eventId w.db.auditEvents
  found : Repo.getEvent w.db req.eventId = some row
  row : row.unarchived = (stage.row sha256 req event).unarchived
  commitment : lastCommitment sha256 w.db.auditEvents (.int req.eventId) =
    stage.commitment sha256 req event before
  logged : (∃ a ∈ w.log, NamesTarget req a.event) ↔ stage = .completed
  calls : ∀ (d : Nat) (call : Call settings), w.calls[d]? = some call →
    call.At req event c stage d
  started : stage ≠ .untouched → ∃ call ∈ w.calls, call.redactRequest? ≠ none

section Steps

variable {req : RedactRequest} {event row : AuditEvent} {before : Option Json} {c : Nat}
  {stage : RedactionStage} {w w' : World settings}

theorem Watched.type_ne (h : Watched sha256 req event before c stage row w)
    (htype : event.eventType ≠ REDACTION_EVENT_TYPE) : row.eventType ≠ REDACTION_EVENT_TYPE := by
  have hsame := congrArg (fun e : AuditEvent => e.eventType) h.row
  have hrow : row.eventType = (stage.row sha256 req event).eventType := hsame
  rw [hrow]
  cases stage <;> exact htype

/-- A call moves while the table and the log stay as they are. -/
theorem Watched.of_set (h : Watched sha256 req event before c stage row w) {d : Nat}
    {old new : Call settings} (hold : w.calls[d]? = some old)
    (hrows : w'.db.auditEvents = w.db.auditEvents) (hlog : w'.log = w.log)
    (hcalls : w'.calls = w.calls.set d new) (hsame : new.redactRequest? = old.redactRequest?)
    (hnew : new.At req event c stage d) : Watched sha256 req event before c stage row w' where
  chain := by
    rw [hrows]
    exact h.chain
  found := by
    rw [Repo.getEvent_of_auditEvents_eq hrows]
    exact h.found
  row := h.row
  commitment := by
    rw [hrows]
    exact h.commitment
  logged := by
    rw [hlog]
    exact h.logged
  calls := by
    intro d' call hcall
    rw [hcalls, getElem?_set_some hold] at hcall
    rcases hcall with ⟨rfl, rfl⟩ | ⟨-, hcall⟩
    · exact hnew
    · exact h.calls d' call hcall
  started := by
    intro hstage
    obtain ⟨call, hcall, hredact⟩ := h.started hstage
    obtain ⟨d', hd'⟩ := List.mem_iff_getElem?.mp hcall
    rw [hcalls]
    by_cases hdd : d' = d
    · subst hdd
      rw [hold] at hd'
      cases hd'
      exact ⟨new, mem_set_self hold new, by rwa [hsame]⟩
    · exact ⟨call, mem_set_of_ne hold hdd hd' new, hredact⟩

/-! ## Rows up to archival -/

/-- The call computes the same from a row that differs by its archival. -/
theorem redactedRow_unarchived {read : AuditEvent} (h : read.unarchived = event.unarchived) :
    (redactedRow sha256 req read).unarchived = (redactedRow sha256 req event).unarchived := by
  have hsame := congrArg (fun e => (redactedRow sha256 req e).unarchived) h
  exact hsame

theorem writtenRow_unarchived {read : AuditEvent} (hread : read.unarchived = event.unarchived)
    (hrow : row.unarchived = event.unarchived) :
    (writtenRow sha256 req read row).unarchived = (redactedRow sha256 req event).unarchived := by
  have hfirst := congrArg (fun e => (writtenRow sha256 req e row).unarchived) hread
  have hsecond := congrArg (fun e => (writtenRow sha256 req event e).unarchived) hrow
  exact hfirst.trans hsecond

theorem contentHash_of_unarchived {a b : AuditEvent} (h : a.unarchived = b.unarchived) :
    contentHash sha256 a = contentHash sha256 b := by
  have hsame := congrArg (contentHash sha256) h
  exact hsame

/-! ## Steps of the calls -/

/-- A step of the companion's append that does not commit. -/
theorem RedactPhase.At.resume {db : Database} {lock : Option Nat} {d : Nat}
    {create : CreateRequest settings} {phase : AppendPhase} {s : AppendStep}
    {read updated : AuditEvent} {body : AuditEventCreate settings}
    (h : (RedactPhase.appending read updated body phase).At event stage)
    (hmove : AppendMove sha256 db lock d create phase s) (hnone : s.appended = none) :
    (RedactPhase.afterAppend sha256 req read updated body s.phase).At event stage := by
  have hended : ∀ outcome,
      (RedactPhase.afterAppend sha256 req read updated body (.ended outcome)).At event stage := by
    intro outcome
    cases outcome <;> exact .ended
  cases h with
  | appending hread hphase =>
    cases hmove with
    | acquire | lookup | link | flush | record => exact .appending hread (by rintro companion ⟨⟩)
    | commit => cases hnone
    | refresh | refreshFails => exact absurd rfl (hphase _)
    | _ => exact hended _
  | committed =>
    cases hmove with
    | _ => exact hended _

/-- The commit of a row. -/
theorem Watched.of_concat (h : Watched sha256 req event before c stage row w) {d : Nat}
    {old new : Call settings} {appended : AuditEvent} {stage' : RedactionStage}
    (hold : w.calls[d]? = some old) (hchain : ChainOkExcept sha256 req.eventId w'.db.auditEvents)
    (hrows : w'.db.auditEvents = w.db.auditEvents ++ [appended])
    (hcalls : w'.calls = w.calls.set d new) (hlog : w'.log = w.log ++ [⟨d, appended⟩])
    (hrow : stage'.row sha256 req event = stage.row sha256 req event)
    (hcommitment : lastCommitment sha256 (w.db.auditEvents ++ [appended]) (.int req.eventId) =
      stage'.commitment sha256 req event before)
    (hlogged : ((∃ a ∈ w.log, NamesTarget req a.event) ∨ NamesTarget req appended) ↔
      stage' = .completed)
    (hothers : ∀ (d' : Nat) (call : Call settings), d' ≠ d → w.calls[d']? = some call →
      call.At req event c stage' d')
    (hnew : new.At req event c stage' d)
    (hstarted : stage' ≠ .untouched → ∃ call ∈ w'.calls, call.redactRequest? ≠ none) :
    Watched sha256 req event before c stage' row w' where
  chain := hchain
  found := Repo.getEvent_of_concat hrows h.found
  row := by
    rw [hrow]
    exact h.row
  commitment := by
    rw [hrows]
    exact hcommitment
  logged := by
    rw [← hlogged, hlog]
    simp only [List.mem_append, List.mem_singleton, or_and_right, exists_or, exists_eq_left]
  calls := by
    intro d' call hcall
    rw [hcalls, getElem?_set_some hold] at hcall
    rcases hcall with ⟨rfl, rfl⟩ | ⟨hne, hcall⟩
    · exact hnew
    · exact hothers d' call hne hcall
  started := hstarted

/-- The commit of an ordinary row, which commits to nothing. -/
theorem Watched.ordinary (h : Watched sha256 req event before c stage row w) {d : Nat}
    {create : CreateRequest settings} {phase phase' : AppendPhase} {appended : AuditEvent}
    (hcall : w.calls[d]? = some (.create create phase)) (hstaged : Staged sha256 w.db create appended)
    (hrows : w'.db.auditEvents = w.db.auditEvents ++ [appended])
    (hcalls : w'.calls = w.calls.set d (.create create phase'))
    (hlog : w'.log = w.log ++ [⟨d, appended⟩]) :
    Watched sha256 req event before c stage row w' := by
  have hat : create.eventIn.eventType ≠ REDACTION_EVENT_TYPE := h.calls d _ hcall
  have htype : appended.eventType ≠ REDACTION_EVENT_TYPE := by
    rw [hstaged.eventType]
    exact hat
  refine h.of_concat hcall ?_ hrows hcalls hlog rfl ?_ ?_ ?_ hat ?_
  · rw [hrows]
    exact h.chain.concat hstaged.selfVouching (hashableTarget_of_type_ne htype)
      (fun q _ _ => commitmentFor_of_type_ne htype _) hstaged.linked
  · rw [lastCommitment_concat, commitmentFor_of_type_ne htype, Option.none_or]
    exact h.commitment
  · rw [h.logged]
    simp [NamesTarget, htype]
  · exact fun d' call _ hcall' => h.calls d' call hcall'
  · intro hstage
    obtain ⟨call, hmem, hredact⟩ := h.started hstage
    obtain ⟨d', hd'⟩ := List.mem_iff_getElem?.mp hmem
    have hne : d' ≠ d := by
      rintro rfl
      rw [hcall] at hd'
      cases hd'
      exact hredact rfl
    rw [hcalls]
    exact ⟨call, mem_set_of_ne hcall hne hd' _, hredact⟩

/-- The commit of the companion, which commits to the record as it was written. -/
theorem Watched.companion (h : Watched sha256 req event before c .written row w) {d : Nat}
    {read updated companion : AuditEvent} {body : AuditEventCreate settings} {phase : AppendPhase}
    (hcall : w.calls[d]? = some (.redact req (.appending read updated body phase))) (hd : d = c)
    (hread : read.unarchived = event.unarchived)
    (hstaged : Staged sha256 w.db { eventIn := body, tenantId := read.tenantId } companion)
    (hcompanion : IsCompanionFor sha256 req read companion)
    (hrows : w'.db.auditEvents = w.db.auditEvents ++ [companion])
    (hcalls : w'.calls =
      w.calls.set d (.redact req (.appending read updated body (.committed companion))))
    (hlog : w'.log = w.log ++ [⟨d, companion⟩]) :
    Watched sha256 req event before c .completed row w' := by
  have hhash : contentHash sha256 (redactedRow sha256 req read) =
      contentHash sha256 (redactedRow sha256 req event) :=
    contentHash_of_unarchived (redactedRow_unarchived hread)
  refine h.of_concat hcall ?_ hrows hcalls hlog rfl ?_ ?_ ?_ ⟨hd, rfl, .committed⟩ ?_
  · rw [hrows]
    refine h.chain.concat hstaged.selfVouching hcompanion.hashableTarget ?_ hstaged.linked
    intro q hq hne
    rw [hcompanion.commitmentFor, if_neg fun hkey => hne (HashKey.int.inj hkey)]
  · rw [lastCommitment_concat, hcompanion.commitmentFor, if_pos rfl, hhash]
    rfl
  · exact iff_of_true (Or.inr ⟨hcompanion.type, hcompanion.target⟩) rfl
  · intro d' call hne hcall'
    have hother := h.calls d' call hcall'
    cases call with
    | create request phase => exact hother
    | redact other phase => exact absurd (hother.1.trans hd.symm) hne
  · intro _
    rw [hcalls]
    exact ⟨_, mem_set_self hcall _, Option.some_ne_none _⟩

theorem Watched.append (h : Watched sha256 req event before c stage row w) {d : Nat}
    (hd : Disciplined sha256 w) (hb : Bodied sha256 w) {call : Call settings}
    {create : CreateRequest settings} {phase : AppendPhase} {s : AppendStep}
    (hcall : w.calls[d]? = some call) (happend : call.append? = some (create, phase))
    (hmove : AppendMove sha256 w.db w.lock d create phase s) (hdb : w'.db = s.db)
    (hcalls : w'.calls = w.calls.set d (call.resume sha256 s.phase))
    (hlog : w'.log = w.log ++ s.appended.toList.map (⟨d, ·⟩)) :
    ∃ stage', Watched sha256 req event before c stage' row w' := by
  have hat := h.calls d call hcall
  have happending : w.Appending d create phase := ⟨call, hcall, happend⟩
  rcases hmove.effect (hd.phase happending) with
    ⟨hrows, -, hnone, -⟩ | ⟨appended, record, rfl, hcommitted, hcommit, hsome⟩
  · -- Nothing is committed.
    refine ⟨stage, h.of_set hcall (by rw [hdb, hrows]) ?_ hcalls (by simp) ?_⟩
    · rw [hlog, hnone]
      exact List.append_nil _
    · rcases call with ⟨request, append⟩ | ⟨other, redact⟩
      · exact hat
      · cases redact with
        | appending read updated body append =>
          cases happend
          exact ⟨hat.1, hat.2.1, hat.2.2.resume hmove hnone⟩
        | _ => cases happend
  · have hstaged : Staged sha256 w.db create appended := hd.phase happending
    have hrows : w'.db.auditEvents = w.db.auditEvents ++ [appended] := by
      rw [hdb]
      exact (Repo.commitAppend_cases hstaged.last hcommit).1
    have hlogged : w'.log = w.log ++ [⟨d, appended⟩] := by
      rw [hlog, hsome]
      rfl
    rw [hcommitted] at hcalls
    rcases call with ⟨request, append⟩ | ⟨other, redact⟩
    · cases happend
      exact ⟨stage, h.ordinary hcall hstaged hrows hcalls hlogged⟩
    · cases redact with
      | appending read updated body append =>
        cases happend
        obtain ⟨hdc, rfl, hphase⟩ := hat
        cases hphase with
        | appending hread hphase =>
          have hcompanion := isCompanionFor_staged hstaged (hb _ _ _ _ _ _ hcall)
          exact ⟨.completed, h.companion hcall hdc hread hstaged hcompanion hrows hcalls hlogged⟩
      | _ => cases happend

/-- The payload commit. -/
theorem Watched.write (h : Watched sha256 req event before c .untouched row w)
    (htype : event.eventType ≠ REDACTION_EVENT_TYPE) {d : Nat} {read : AuditEvent}
    (hcall : w.calls[d]? = some (.redact req (.redacting read)))
    (hread : read.unarchived = event.unarchived) (hd : d = c) :
    Watched sha256 req event before c .written (writtenRow sha256 req read row)
      { w with
        db := Repo.redactEventFields w.db req.eventId
          (redactionUpdate sha256 read (fieldsToRedact read req.fields) req.now)
        calls := w.calls.set d (.redact req (.refreshing read)) } := by
  have hrow := h.type_ne htype
  have hrow' : (writtenRow sha256 req read row).eventType ≠ REDACTION_EVENT_TYPE := hrow
  -- Neither the old row nor the new one commits to anything.
  have hlast : ∀ key, lastCommitment sha256 (Repo.redactEventFields w.db req.eventId
      (redactionUpdate sha256 read (fieldsToRedact read req.fields) req.now)).auditEvents key =
        lastCommitment sha256 w.db.auditEvents key := by
    intro key
    obtain ⟨hmem, hid⟩ := (Repo.getEvent_eq_some_iff _ _ _).mp h.found
    rw [Repo.redactEventFields_auditEvents _ h.found, ← hid]
    apply lastCommitment_replace hmem
    rw [commitmentFor_of_type_ne hrow]
    exact commitmentFor_of_type_ne hrow' key
  have hchain := h.chain.redactEventFields h.found (hashableTarget_of_type_ne hrow')
    fun q _ _ _ => hlast (.int q.id)
  refine ⟨hchain, Repo.getEvent_redactEventFields _ h.found, ?_, ?_, ?_, ?_, ?_⟩
  · exact writtenRow_unarchived hread h.row
  · rw [hlast]
    exact h.commitment
  · exact h.logged.trans (iff_of_false RedactionStage.noConfusion RedactionStage.noConfusion)
  · intro d' call hcall'
    rcases (getElem?_set_some hcall).mp hcall' with ⟨rfl, rfl⟩ | ⟨hne, hcall'⟩
    · exact ⟨hd, rfl, .refreshing hread⟩
    · have hother := h.calls d' call hcall'
      cases call with
      | create request phase => exact hother
      | redact other phase => exact absurd (hother.1.trans hd.symm) hne
  · intro _
    exact ⟨_, mem_set_self hcall _, Option.some_ne_none _⟩

theorem Watched.redaction (h : Watched sha256 req event before c stage row w)
    (htype : event.eventType ≠ REDACTION_EVENT_TYPE) {d : Nat} {other : RedactRequest}
    {phase phase' : RedactPhase settings} {db' : Database}
    (hcall : w.calls[d]? = some (.redact other phase))
    (hmove : RedactMove sha256 w.db other phase db' phase') :
    ∃ stage' row', Watched sha256 req event before c stage' row'
      { w with db := db', calls := w.calls.set d (.redact other phase') } := by
  obtain ⟨hd, rfl, hphase⟩ := h.calls d _ hcall
  have hset : ∀ {phase' : RedactPhase settings}, phase'.At event stage →
      Watched sha256 other event before c stage row
        { w with calls := w.calls.set d (.redact other phase') } := by
    intro phase' hphase'
    exact h.of_set hcall rfl rfl rfl rfl ⟨hd, rfl, hphase'⟩
  cases hmove with
  | missing | nothing | refreshFails | reject => exact ⟨stage, row, hset .ended⟩
  | read hfound hsome =>
    cases hphase
    rw [h.found] at hfound
    cases hfound
    exact ⟨.untouched, row, hset (.redacting h.row)⟩
  | write =>
    cases hphase with
    | redacting hread => exact ⟨.written, _, h.write htype hcall hread hd⟩
  | refresh hfound hbody =>
    cases hphase with
    | refreshing hread => exact ⟨.written, row, hset (.appending hread (by rintro companion ⟨⟩))⟩

/-- An update of `archived_at` alone. -/
theorem Watched.mapEvents (h : Watched sha256 req event before c stage row w)
    {f : AuditEvent → AuditEvent} (hf : KeepsVerified f)
    (harchived : ∀ e, (f e).unarchived = e.unarchived) :
    Watched sha256 req event before c stage (f row) { w with db := w.db.mapEvents f hf.id } where
  chain := h.chain.map hf
  found := by
    rw [Repo.getEvent_eq_some_iff, hf.id]
    obtain ⟨hmem, hid⟩ := (Repo.getEvent_eq_some_iff _ _ _).mp h.found
    exact ⟨List.mem_map_of_mem hmem, hid⟩
  row := (harchived row).trans h.row
  commitment := by
    rw [← h.commitment]
    exact lastCommitment_map f fun e _ => hf.commitmentFor e _
  logged := h.logged
  calls := h.calls
  started := h.started

/-- **Every step beside the redaction keeps the table watched**, at some stage. -/
theorem Watched.step {action : Action settings} (h : Watched sha256 req event before c stage row w)
    (htype : event.eventType ≠ REDACTION_EVENT_TYPE) (hd : Disciplined sha256 w)
    (hb : Bodied sha256 w) (hbeside : Beside req w action)
    (hstep : Transition sha256 w action w') :
    ∃ c' stage' row', Watched sha256 req event before c' stage' row' w' := by
  cases hstep with
  | create create =>
    refine ⟨c, stage, row, h.chain, h.found, h.row, h.commitment, h.logged, ?_, ?_⟩
    · intro d call hcall
      rcases getElem?_concat_some.mp hcall with hcall | ⟨-, rfl⟩
      · exact h.calls d call hcall
      · exact hbeside
    · intro hstage
      obtain ⟨call, hcall, hredact⟩ := h.started hstage
      exact ⟨call, List.mem_append_left _ hcall, hredact⟩
  | redact other =>
    obtain ⟨rfl, hfirst⟩ := hbeside
    -- There was no redaction before, so the table is untouched.
    have hstage : stage = .untouched := by
      by_contra hstage
      obtain ⟨call, hcall, hredact⟩ := h.started hstage
      exact hredact (hfirst call hcall)
    subst hstage
    refine ⟨w.calls.length, .untouched, row, h.chain, h.found, h.row, h.commitment, h.logged, ?_,
      fun hstage => absurd rfl hstage⟩
    intro d call hcall
    rcases getElem?_concat_some.mp hcall with hcall | ⟨rfl, rfl⟩
    · have hother := h.calls d call hcall
      cases call with
      | create request phase => exact hother
      | redact other' phase => cases hfirst _ (List.mem_of_getElem? hcall)
    · exact ⟨rfl, rfl, .reading⟩
  | @append d now call create phase s hcall happend hmove =>
    have hafter : ∃ stage', Watched sha256 req event before c stage' row
        { db := s.db
          lock := s.lock
          calls := w.calls.set d (call.resume sha256 s.phase)
          log := w.log ++ s.appended.toList.map (⟨d, ·⟩) } :=
      h.append hd hb hcall happend hmove rfl rfl rfl
    obtain ⟨stage', hw'⟩ := hafter
    exact ⟨c, stage', row, hw'⟩
  | redaction hcall hmove => exact ⟨c, h.redaction htype hcall hmove⟩
  | @rollback d call statement hcall hrunning =>
    refine ⟨c, stage, row, h.of_set hcall rfl rfl rfl (Call.redactRequest?_raised call _) ?_⟩
    have hat := h.calls d call hcall
    cases call with
    | create request phase => exact hat
    | redact other phase => exact ⟨hat.1, hat.2.1, .ended⟩
  | retention days now archiveNow =>
    refine ⟨c, stage, ?_⟩
    show ∃ row', Watched sha256 req event before c stage row'
      { w with db := (applyRetention w.db days now archiveNow).2 }
    unfold applyRetention
    split
    · exact ⟨row, h⟩
    · rename_i cutoff hcutoff
      refine ⟨_, h.mapEvents (keepsVerified_archive cutoff archiveNow) fun e => ?_⟩
      split <;> rfl

theorem watched_init {db : Database} (hok : ChainOk sha256 db.auditEvents)
    (hfound : Repo.getEvent db req.eventId = some event) :
    Watched sha256 req event (lastCommitment sha256 db.auditEvents (.int req.eventId)) 0 .untouched
      event (World.init db : World settings) where
  chain := .of_chainOk hok
  found := hfound
  row := rfl
  commitment := rfl
  logged := iff_of_false (by rintro ⟨a, ⟨⟩, -⟩) RedactionStage.noConfusion
  calls := fun d call hcall => by cases hcall
  started := fun hstage => absurd rfl hstage

/-- The run lemma: the table is watched in every state that the redaction and what runs
beside it reach. -/
theorem watched_of_reaches {db : Database} (hok : ChainOk sha256 db.auditEvents)
    (hfound : Repo.getEvent db req.eventId = some event)
    (htype : event.eventType ≠ REDACTION_EVENT_TYPE)
    (h : Machine.Reaches (AuditLog.step sha256) (Beside req) (.init db) w) :
    ∃ c stage row, Watched sha256 req event
      (lastCommitment sha256 db.auditEvents (.int req.eventId)) c stage row w := by
  refine h.invariant (P := fun w => ∃ c stage row, Watched sha256 req event
    (lastCommitment sha256 db.auditEvents (.int req.eventId)) c stage row w)
    ⟨0, .untouched, event, watched_init hok hfound⟩ ?_
  rintro t u action run hbeside hstep ⟨c, stage, row, ht⟩
  exact ht.step htype (disciplined_of_reaches run) (bodied_of_reaches run) hbeside
    (step_cases hstep)

/-! ## What `verify_chain` reports -/

/-- The payload commit is done and the companion's is not. -/
def BetweenCommits (req : RedactRequest) (event : AuditEvent) (w : World settings) : Prop :=
  (∃ row ∈ w.db.auditEvents, row.id = req.eventId ∧
      ∀ f ∈ fieldsToRedact event req.fields, f ∈ alreadyRedacted row) ∧
    ∀ a ∈ w.log, ¬ NamesTarget req a.event

/-- The record is unredacted, or the last commitment in the chain is to its content. -/
def CommittedTo (sha256 : Bytes → PyStr) (db : Database) (eventId : Int) : Prop :=
  ∀ row ∈ Repo.getEvent db eventId, row.redactedAt ≠ none →
    lastCommitment sha256 db.auditEvents (.int eventId) = some (.str (contentHash sha256 row))

theorem Watched.betweenCommits_iff (h : Watched sha256 req event before c stage row w)
    (hfresh : fieldsToRedact event req.fields ≠ []) :
    BetweenCommits req event w ↔ stage = .written := by
  obtain ⟨hmem, hid⟩ := (Repo.getEvent_eq_some_iff _ _ _).mp h.found
  have hlisted : alreadyRedacted row = alreadyRedacted (stage.row sha256 req event) := by
    have hsame := congrArg alreadyRedacted h.row
    exact hsame
  have hlogged := h.logged
  constructor
  · rintro ⟨⟨row', hmem', hid', hall⟩, hnone⟩
    rw [w.db.eq_of_id_eq hmem' hmem (hid'.trans hid.symm), hlisted] at hall
    cases stage with
    | untouched =>
      -- A fresh field is not listed yet.
      obtain ⟨f, hf⟩ := List.exists_mem_of_ne_nil _ hfresh
      exact absurd (hall f hf) (mem_fieldsToRedact.mp hf).2.2
    | written => rfl
    | completed =>
      obtain ⟨a, ha, hnames⟩ := hlogged.mpr rfl
      exact absurd hnames (hnone a ha)
  · rintro rfl
    refine ⟨⟨row, hmem, hid, ?_⟩, ?_⟩
    · intro f hf
      rw [hlisted]
      exact mem_alreadyRedacted_redactionUpdate.mpr (Or.inr hf)
    · intro a ha hnames
      cases hlogged.mp ⟨a, ha, hnames⟩

/-- The content check of the watched row, by stages. -/
theorem Watched.contentOk_iff {db : Database} (h : Watched sha256 req event
      (lastCommitment sha256 db.auditEvents (.int req.eventId)) c stage row w)
    (hok : ChainOk sha256 db.auditEvents) (hfound : Repo.getEvent db req.eventId = some event) :
    ContentOk sha256 (lastCommitment sha256 w.db.auditEvents (.int req.eventId)) row ↔
      (stage = .written → lastCommitment sha256 db.auditEvents (.int req.eventId) =
        some (.str (contentHash sha256 (redactedRow sha256 req event)))) := by
  have hsame := congrArg
    (ContentOk sha256 (lastCommitment sha256 w.db.auditEvents (.int req.eventId))) h.row
  have hrow : ContentOk sha256 (lastCommitment sha256 w.db.auditEvents (.int req.eventId)) row =
      ContentOk sha256 (lastCommitment sha256 w.db.auditEvents (.int req.eventId))
        (stage.row sha256 req event) := hsame
  have hredacted : (redactedRow sha256 req event).redactedAt ≠ none := Option.some_ne_none req.now
  rw [hrow, h.commitment]
  cases stage with
  | untouched =>
    obtain ⟨hmem, hid⟩ := (Repo.getEvent_eq_some_iff _ _ _).mp hfound
    have hcontent := hok.content event hmem
    rw [hid] at hcontent
    exact iff_of_true hcontent (by rintro ⟨⟩)
  | written =>
    show ContentOk sha256 (lastCommitment sha256 db.auditEvents _) (redactedRow sha256 req event) ↔ _
    rw [contentOk_redacted hredacted]
    constructor
    · exact fun hcommitted _ => hcommitted
    · exact fun hcommitted => hcommitted rfl
  | completed =>
    refine iff_of_true ?_ (by rintro ⟨⟩)
    exact (contentOk_redacted hredacted _).mpr rfl

/-- The record's content is right exactly when it is unredacted or committed to. -/
theorem Watched.committedTo_iff {db : Database} (h : Watched sha256 req event
      (lastCommitment sha256 db.auditEvents (.int req.eventId)) c stage row w)
    (hok : ChainOk sha256 db.auditEvents) (hfound : Repo.getEvent db req.eventId = some event) :
    CommittedTo sha256 w.db req.eventId ↔
      ContentOk sha256 (lastCommitment sha256 w.db.auditEvents (.int req.eventId)) row := by
  unfold CommittedTo
  rw [h.found]
  constructor
  · intro hcommitted
    by_cases hredacted : row.redactedAt = none
    · -- After the payload commit the row is flagged.
      have hsame := congrArg AuditEvent.redactedAt h.row
      have hrow : row.redactedAt = (stage.row sha256 req event).redactedAt := hsame
      rw [h.contentOk_iff hok hfound]
      rintro rfl
      rw [hredacted] at hrow
      cases hrow
    · exact (contentOk_redacted hredacted _).mpr (hcommitted row rfl hredacted)
  · rintro hcontent row' ⟨⟩ hredacted
    exact (contentOk_redacted hredacted _).mp hcontent

/-- **When verification is quiet during a redaction.** On an intact table one redaction of
an ordinary event runs beside ordinary appends and retention. A read reports intact, and
finds the record committed to, exactly when it does not fall between the two commits, or
the chain committed to the new content already before the call. -/
theorem verification_quiet_iff {db : Database} (hintact : ReportsIntact sha256 db)
    (hfound : Repo.getEvent db req.eventId = some event)
    (htype : event.eventType ≠ REDACTION_EVENT_TYPE)
    (hfresh : fieldsToRedact event req.fields ≠ [])
    (h : Machine.Reaches (AuditLog.step sha256) (Beside req) (.init db) w) :
    (ReportsIntact sha256 w.db ↔ ¬ BetweenCommits req event w ∨
      lastCommitment sha256 db.auditEvents (.int req.eventId) =
        some (.str (redactedContentHash sha256 event (fieldsToRedact event req.fields)))) ∧
    (CommittedTo sha256 w.db req.eventId ↔ ¬ BetweenCommits req event w ∨
      lastCommitment sha256 db.auditEvents (.int req.eventId) =
        some (.str (redactedContentHash sha256 event (fieldsToRedact event req.fields)))) := by
  have hok := (reportsIntact_iff db).mp hintact
  obtain ⟨c, stage, row, hwatched⟩ := watched_of_reaches hok hfound htype h
  have hcontent := hwatched.contentOk_iff hok hfound
  have hcondition : (¬ BetweenCommits req event w ∨
      lastCommitment sha256 db.auditEvents (.int req.eventId) =
        some (.str (redactedContentHash sha256 event (fieldsToRedact event req.fields)))) ↔
      ContentOk sha256 (lastCommitment sha256 w.db.auditEvents (.int req.eventId)) row := by
    rw [hcontent, hwatched.betweenCommits_iff hfresh]
    exact imp_iff_not_or.symm
  rw [hcondition, reportsIntact_iff]
  exact ⟨hwatched.chain.chainOk_iff hwatched.found, hwatched.committedTo_iff hok hfound⟩

end Steps

/-! ## A read between the commits -/

/-- The redaction of the sample event, up to its payload commit. -/
def payloadCommitted : List (Action {}) :=
  [.startRedact sampleRedact, .advance 0 .sample, .advance 0 .sample]

/-- The sample event has a fresh field to redact and is no companion. -/
def sampleFresh (event : AuditEvent) : Prop :=
  event.eventType ≠ REDACTION_EVENT_TYPE ∧ fieldsToRedact event sampleRedact.fields ≠ []

instance (event : AuditEvent) : Decidable (sampleFresh event) :=
  inferInstanceAs (Decidable (_ ≠ _ ∧ _ ≠ _))

theorem exists_sampleFresh : ∃ event, Repo.getEvent createdTable sampleRedact.eventId = some event ∧
    sampleFresh event := by
  have hfresh : ∃ event ∈ Repo.getEvent createdTable sampleRedact.eventId, sampleFresh event := by
    decide +kernel
  exact hfresh

/-- **Between the commits `verify_chain` reports a violation**, on a table that was intact. -/
theorem read_between_commits_not_intact :
    ∃ (w : World {}) (event : AuditEvent), ReportsIntact Sha256.hexdigest createdTable ∧
      Repo.getEvent createdTable sampleRedact.eventId = some event ∧ sampleFresh event ∧
      Machine.Reaches (step Sha256.hexdigest) (Beside sampleRedact) (.init createdTable) w ∧
      ¬ ReportsIntact Sha256.hexdigest w.db := by
  obtain ⟨event, hfound, hfresh⟩ := exists_sampleFresh
  have hrun : ∃ w ∈ Machine.schedule (step Sha256.hexdigest) (Beside sampleRedact)
      payloadCommitted (.init createdTable), ¬ ReportsIntact Sha256.hexdigest w.db := by
    decide +kernel
  obtain ⟨w, hw, hreported⟩ := hrun
  exact ⟨w, event, createdTable_intact, hfound, hfresh, Machine.reaches_of_schedule hw, hreported⟩

/-- The same redaction to its end, beside an ordinary append. -/
def completedBeside : List (Action {}) :=
  payloadCommitted ++ createAlone 1 .sample ++ List.replicate 8 (.advance 0 .sample)

theorem verification_quiet_iff_completed :
    ∃ w : World {}, Machine.schedule (step Sha256.hexdigest) (Beside sampleRedact)
        completedBeside (.init createdTable) = some w ∧
      w.db.auditEvents.length = 3 ∧ ReportsIntact Sha256.hexdigest w.db ∧
      CommittedTo Sha256.hexdigest w.db sampleRedact.eventId := by
  obtain ⟨event, hfound, htype, hfresh⟩ := exists_sampleFresh
  have hrun : ∃ w ∈ Machine.schedule (step Sha256.hexdigest) (Beside sampleRedact)
      completedBeside (.init createdTable), w.db.auditEvents.length = 3 ∧
        ∃ a ∈ w.log, NamesTarget sampleRedact a.event := by
    decide +kernel
  obtain ⟨w, hw, hlength, a, ha, hnames⟩ := hrun
  have houtside : ¬ BetweenCommits sampleRedact event w := fun hbetween => hbetween.2 a ha hnames
  obtain ⟨hreports, hcommitted⟩ := verification_quiet_iff createdTable_intact hfound htype hfresh
    (Machine.reaches_of_schedule hw)
  exact ⟨w, hw, hlength, hreports.mpr (Or.inl houtside), hcommitted.mpr (Or.inl houtside)⟩

end AuditLog
