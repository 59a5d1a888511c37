import AuditLog.Concurrency.AppendLock
import AuditLog.Verification.Preservation

/-!
# Concurrent redactions of one record

Every call computes the new columns from the row it read. Whatever it read is
the original row with some fields redacted, and so is whatever it writes; fields
that were redacted in between are lost when the writer has not seen them. Runs
in which no write drops a listed field keep everything that was redacted.
-/

namespace AuditLog

variable {sha256 : Bytes → PyStr} {settings : Settings}

/-! ## Rows on their way -/

/-- `row` is `original` with further fields redacted: they hold the marker, and the
hash of their original value is on record. -/
structure RedactedFrom (sha256 : Bytes → PyStr) (original row : AuditEvent) : Prop where
  retouched : Retouched original row
  kept : ∀ f ∈ alreadyRedacted original, f ∈ alreadyRedacted row
  payload : ∀ f, row.payload.get? f =
    if f ∈ alreadyRedacted row ∧ f ∉ alreadyRedacted original then some (.str REDACTED_MARKER)
    else original.payload.get? f
  hashes : ∀ f ∈ alreadyRedacted row, f ∉ alreadyRedacted original →
    Dict.get (row.redactedFieldHashes.getD []) f =
      some (hashFieldValue sha256 (original.payload.get f))

theorem RedactedFrom.refl (original : AuditEvent) : RedactedFrom sha256 original original where
  retouched := Retouched.refl original
  kept := fun _ hf => hf
  payload := fun f => by rw [if_neg fun h => h.2 h.1]
  hashes := fun _ hf hnot => absurd hf hnot

/-- **The write of a redaction**: computed from any row on its way, over any row on
its way, it leaves a row on its way. -/
theorem RedactedFrom.write {original event row : AuditEvent} (hevent : RedactedFrom sha256 original event)
    (hrow : Retouched original row) (fields : List PyStr) (now : DateTime) :
    RedactedFrom sha256 original
      ((redactionUpdate sha256 event (fieldsToRedact event fields) now).apply row) where
  retouched := hrow.trans rfl
  kept := fun f hf => mem_alreadyRedacted_redactionUpdate.mpr (Or.inl (hevent.kept f hf))
  payload := by
    intro f
    show (redactedPayload event (fieldsToRedact event fields)).get? f = _
    rw [get?_redactedPayload, hevent.payload]
    by_cases hnew : f ∈ fieldsToRedact event fields
    · have hfresh : f ∉ alreadyRedacted original := fun h =>
        (mem_fieldsToRedact.mp hnew).2.2 (hevent.kept f h)
      rw [if_pos hnew, if_pos ⟨mem_alreadyRedacted_redactionUpdate.mpr (Or.inr hnew), hfresh⟩]
    · simp only [mem_alreadyRedacted_redactionUpdate, hnew, or_false, if_false]
  hashes := by
    intro f hf hfresh
    rw [get_redactedFieldHashes]
    by_cases hnew : f ∈ fieldsToRedact event fields
    · -- The field still had its original value when the call read it.
      have hunread : event.payload.get? f = original.payload.get? f := by
        rw [hevent.payload, if_neg fun h => (mem_fieldsToRedact.mp hnew).2.2 h.1]
      rw [if_pos hnew, Payload.get, hunread]
      rfl
    · rw [if_neg hnew]
      rcases mem_alreadyRedacted_redactionUpdate.mp hf with hread | hin
      · exact hevent.hashes f hread hfresh
      · exact absurd hin hnew

/-! ## What a call has done -/

namespace RedactPhase

/-- The row the call read, while it still computes from it. -/
def read? : RedactPhase settings → Option AuditEvent
  | .redacting event => some event
  | .refreshing event => some event
  | .appending event _ _ _ => some event
  | _ => none

/-- The fields whose redaction the call has committed, and has not raised since. -/
def written (req : RedactRequest) : RedactPhase settings → List PyStr
  | .refreshing event => fieldsToRedact event req.fields
  | .appending event _ _ _ => fieldsToRedact event req.fields
  | .ended (.ok result) => result.newlyRedactedFields
  | _ => []

theorem read?_afterAppend {req : RedactRequest} {event updated read : AuditEvent}
    {body : AuditEventCreate settings} {phase : AppendPhase}
    (h : (afterAppend sha256 req event updated body phase).read? = some read) : read = event := by
  cases phase with
  | ended outcome => rcases outcome with err | redactionEvent <;> cases h
  | _ =>
    cases h
    rfl

theorem written_afterAppend {req : RedactRequest} {event updated : AuditEvent}
    {body : AuditEventCreate settings} {phase : AppendPhase} {f : PyStr}
    (h : f ∈ (afterAppend sha256 req event updated body phase).written req) :
    f ∈ fieldsToRedact event req.fields := by
  cases phase with
  | ended outcome =>
    rcases outcome with err | redactionEvent
    · cases h
    · exact h
  | _ => exact h

end RedactPhase

/-! ## Runs on one record -/

/-- Only redactions of this record are started. -/
def OnRecord (eventId : Int) : Action settings → Prop
  | .startRedact req => req.eventId = eventId
  | .advance _ _ => True
  | .rollback _ _ => True
  | .startCreate _ => False
  | .applyRetention _ _ _ => False

instance (eventId : Int) : (action : Action settings) → Decidable (OnRecord eventId action)
  | .startRedact req => inferInstanceAs (Decidable (req.eventId = eventId))
  | .advance _ _ | .rollback _ _ => isTrue trivial
  | .startCreate _ | .applyRetention _ _ _ => isFalse id

/-- The payload commit that the call is about to make drops no listed field. -/
def DropsNothing (w : World settings) (c : Nat) : Prop :=
  match w.calls[c]? with
  | some (.redact req (.redacting event)) =>
    ∀ row ∈ Repo.getEvent w.db req.eventId, ∀ f ∈ alreadyRedacted row,
      f ∈ alreadyRedacted event ∨ f ∈ fieldsToRedact event req.fields
  | _ => True

instance (w : World settings) (c : Nat) : Decidable (DropsNothing w c) := by
  unfold DropsNothing
  rcases w.calls[c]? with _ | ⟨_, _⟩ | ⟨_, _ | _ | _ | _ | _⟩ <;> infer_instance

/-- A call of the run: it read a row on its way, and what it wrote is still listed. -/
structure CallOk (sha256 : Bytes → PyStr) (original row : AuditEvent) (req : RedactRequest)
    (phase : RedactPhase settings) : Prop where
  target : req.eventId = original.id
  read : ∀ event, phase.read? = some event → RedactedFrom sha256 original event
  written : ∀ f ∈ phase.written req, f ∈ alreadyRedacted row ∧ f ∉ alreadyRedacted original

/-- The stored row and the calls of a run of redactions of `original`. -/
structure Redacting (sha256 : Bytes → PyStr) (original row : AuditEvent) (w : World settings) :
    Prop where
  found : Repo.getEvent w.db original.id = some row
  shape : RedactedFrom sha256 original row
  calls : ∀ call ∈ w.calls, ∃ req phase, call = .redact req phase ∧
    CallOk sha256 original row req phase

theorem redacting_init {db : Database} {original : AuditEvent}
    (h : Repo.getEvent db original.id = some original) :
    Redacting sha256 original original (World.init db : World settings) where
  found := h
  shape := RedactedFrom.refl original
  calls := fun _ hcall => by cases hcall

variable {original row : AuditEvent} {w w' : World settings}

theorem CallOk.mono {row' : AuditEvent} {req : RedactRequest} {phase : RedactPhase settings}
    (h : CallOk sha256 original row req phase)
    (hkept : ∀ f ∈ alreadyRedacted row, f ∈ alreadyRedacted row') :
    CallOk sha256 original row' req phase :=
  ⟨h.target, h.read, fun f hf => ⟨hkept f (h.written f hf).1, (h.written f hf).2⟩⟩

/-- A call that has read nothing yet, or has raised. -/
theorem callOk_idle {req : RedactRequest} {phase : RedactPhase settings}
    (htarget : req.eventId = original.id) (hread : phase.read? = none)
    (hwritten : phase.written req = []) : CallOk sha256 original row req phase where
  target := htarget
  read := by
    intro event h
    rw [hread] at h
    cases h
  written := by
    intro f h
    rw [hwritten] at h
    cases h

theorem CallOk.afterAppend {req : RedactRequest} {event updated : AuditEvent}
    {body : AuditEventCreate settings} {phase : AppendPhase}
    (h : CallOk sha256 original row req (.appending event updated body phase)) (next : AppendPhase) :
    CallOk sha256 original row req (.afterAppend sha256 req event updated body next) where
  target := h.target
  read := by
    intro _ hread
    rw [RedactPhase.read?_afterAppend hread]
    exact h.read event rfl
  written := fun f hf => h.written f (RedactPhase.written_afterAppend hf)

/-- One call moves, the row stays: what has to be shown is about that call. -/
theorem Redacting.of_set {c : Nat} {req : RedactRequest} {phase : RedactPhase settings}
    (h : Redacting sha256 original row w) (hfound : Repo.getEvent w'.db original.id = some row)
    (hcalls : w'.calls = w.calls.set c (.redact req phase))
    (hok : CallOk sha256 original row req phase) : Redacting sha256 original row w' where
  found := hfound
  shape := h.shape
  calls := by
    intro call hcall
    rw [hcalls] at hcall
    rcases List.mem_or_eq_of_mem_set hcall with hcall | rfl
    · exact h.calls call hcall
    · exact ⟨req, phase, rfl, hok⟩

theorem Redacting.callOk (h : Redacting sha256 original row w) {c : Nat} {req : RedactRequest}
    {phase : RedactPhase settings} (hcall : w.calls[c]? = some (.redact req phase)) :
    CallOk sha256 original row req phase := by
  rcases h.calls _ (List.mem_of_getElem? hcall) with ⟨req', phase', heq, hok⟩
  rcases Call.redact.inj heq with ⟨rfl, rfl⟩
  exact hok

/-- In such a run every append is a companion's. -/
theorem Redacting.appending (h : Redacting sha256 original row w) {c : Nat} {call : Call settings}
    {create : CreateRequest settings} {phase : AppendPhase} (hcall : w.calls[c]? = some call)
    (happend : call.append? = some (create, phase)) :
    ∃ req event updated body, call = .redact req (.appending event updated body phase) ∧
      create = { eventIn := body, tenantId := event.tenantId } := by
  rcases h.calls call (List.mem_of_getElem? hcall) with ⟨req, phase', rfl, -⟩
  cases phase' with
  | appending event updated body phase' =>
    cases happend
    exact ⟨req, event, updated, body, rfl, rfl⟩
  | _ => cases happend

/-- A step of an append leaves the record alone. -/
theorem Redacting.append (h : Redacting sha256 original row w) (hd : Disciplined sha256 w) {c : Nat}
    {call : Call settings} {create : CreateRequest settings} {phase : AppendPhase} {s : AppendStep}
    (hcall : w.calls[c]? = some call) (happend : call.append? = some (create, phase))
    (hmove : AppendMove sha256 w.db w.lock c create phase s) (log : List Appended) :
    Redacting sha256 original row
      (⟨s.db, s.lock, w.calls.set c (call.resume sha256 s.phase), log⟩ : World settings) := by
  have happending : w.Appending c create phase := ⟨call, hcall, happend⟩
  rcases h.appending hcall happend with ⟨req, event, updated, body, rfl, -⟩
  refine h.of_set ?_ rfl ((h.callOk hcall).afterAppend s.phase)
  -- An append adds a row behind the record, if it changes the rows at all.
  rcases hmove.effect (hd.phase happending) with
    ⟨hrows, -⟩ | ⟨staged, record, rfl, -, hcommit, -⟩
  · exact (Repo.getEvent_of_auditEvents_eq hrows _).trans h.found
  · have hstaged : Staged sha256 w.db create staged := hd.phase happending
    exact Repo.getEvent_of_concat (Repo.commitAppend_cases hstaged.last hcommit).1 h.found

/-- The row after the payload commit of a call that read `event`. -/
def writtenRow (sha256 : Bytes → PyStr) (req : RedactRequest) (event row : AuditEvent) : AuditEvent :=
  (redactionUpdate sha256 event (fieldsToRedact event req.fields) req.now).apply row

/-- A payload commit that drops no listed field. -/
theorem Redacting.write (h : Redacting sha256 original row w) {c : Nat} {req : RedactRequest}
    {event : AuditEvent} (hcall : w.calls[c]? = some (.redact req (.redacting event)))
    (hdrops : DropsNothing w c) :
    Redacting sha256 original (writtenRow sha256 req event row)
      { w with
        db := Repo.redactEventFields w.db req.eventId
          (redactionUpdate sha256 event (fieldsToRedact event req.fields) req.now)
        calls := w.calls.set c (.redact req (.refreshing event)) } := by
  have hok := h.callOk hcall
  have hread := hok.read event rfl
  unfold DropsNothing at hdrops
  rw [hcall] at hdrops
  have hkept : ∀ f ∈ alreadyRedacted row, f ∈ alreadyRedacted (writtenRow sha256 req event row) := by
    intro f hf
    rw [writtenRow, mem_alreadyRedacted_redactionUpdate]
    exact hdrops row (by rw [hok.target]; exact h.found) f hf
  refine ⟨?_, hread.write h.shape.retouched req.fields req.now, ?_⟩
  · show Repo.getEvent (Repo.redactEventFields w.db req.eventId _) original.id = _
    rw [hok.target]
    exact Repo.getEvent_redactEventFields _ h.found
  · intro call hmem
    rcases List.mem_or_eq_of_mem_set hmem with hmem | rfl
    · rcases h.calls call hmem with ⟨req', phase', rfl, hok'⟩
      exact ⟨req', phase', rfl, hok'.mono hkept⟩
    · refine ⟨req, _, rfl, hok.target, ?_, ?_⟩
      · intro _ heq
        cases heq
        exact hread
      · intro f hf
        constructor
        · exact mem_alreadyRedacted_redactionUpdate.mpr (Or.inr hf)
        · intro horiginal
          exact (mem_fieldsToRedact.mp hf).2.2 (hread.kept f horiginal)

/-- The steps of a redaction before its append leave a row that nothing is lost from. -/
theorem Redacting.redaction (h : Redacting sha256 original row w) {c : Nat} {req : RedactRequest}
    {phase phase' : RedactPhase settings} {db' : Database}
    (hcall : w.calls[c]? = some (.redact req phase)) (hdrops : DropsNothing w c)
    (hmove : RedactMove sha256 w.db req phase db' phase') :
    ∃ row', Redacting sha256 original row'
      { w with db := db', calls := w.calls.set c (.redact req phase') } := by
  have hok := h.callOk hcall
  cases hmove with
  | write => exact ⟨_, h.write hcall hdrops⟩
  | read hread hsome =>
    -- What the call reads is the stored row, which is on its way.
    rw [hok.target, h.found] at hread
    cases hread
    refine ⟨row, h.of_set h.found rfl ⟨hok.target, ?_, ?_⟩⟩
    · intro event heq
      cases heq
      exact h.shape
    · intro f hf
      cases hf
  | refresh hread hbody => exact ⟨row, h.of_set h.found rfl ⟨hok.target, hok.read, hok.written⟩⟩
  | _ => exact ⟨row, h.of_set h.found rfl (callOk_idle hok.target rfl rfl)⟩

/-- **Nothing is lost in a step** of a run on one record in which no payload commit
drops a listed field. -/
theorem Redacting.step {action : Action settings} (h : Redacting sha256 original row w)
    (hd : Disciplined sha256 w) (hon : OnRecord original.id action)
    (hdrops : ∀ c now, action = .advance c now → DropsNothing w c)
    (hstep : Transition sha256 w action w') : ∃ row', Redacting sha256 original row' w' := by
  cases hstep with
  | create req => exact absurd hon id
  | redact req =>
    refine ⟨row, h.found, h.shape, ?_⟩
    intro call hcall
    rcases List.mem_append.mp hcall with hcall | hcall
    · exact h.calls call hcall
    · rw [List.mem_singleton.mp hcall]
      exact ⟨req, _, rfl, callOk_idle hon rfl rfl⟩
  | append hcall happend hmove => exact ⟨row, h.append hd hcall happend hmove _⟩
  | redaction hcall hmove => exact h.redaction hcall (hdrops _ _ rfl) hmove
  | rollback statement hcall hrunning =>
    rcases h.calls _ (List.mem_of_getElem? hcall) with ⟨req, phase, rfl, hok⟩
    exact ⟨row, h.of_set h.found rfl (callOk_idle hok.target rfl rfl)⟩
  | retention days now archiveNow => exact absurd hon id

end AuditLog
