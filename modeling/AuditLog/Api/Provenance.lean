import AuditLog.Api.TenantIsolation
import AuditLog.Concurrency.StoredPayloads

/-!
# Where the rows come from

A row was committed by a call, with the content that the call was asked to store, or as
the companion of its redaction. It has kept this content but for the fields that calls
were asked to redact, whatever has been interleaved since.
-/

namespace AuditLog

variable {sha256 : Bytes → PyStr} {settings : Settings} {w w' : World settings}
  {action : Action settings}

/-! ## What a call commits -/

/-- The companion of a redaction: it names the record, and fields that were asked for. -/
structure IsCompanion (req : RedactRequest) (event : AuditEvent) : Prop where
  eventType : event.eventType = REDACTION_EVENT_TYPE
  actorId : event.actorId = req.actorId
  resourceType : event.resourceType = REDACTION_RESOURCE_TYPE
  resourceId : event.resourceId = PyStr.ofChars (intText req.eventId)
  payload : ∃ fields hash, (∀ f ∈ fields, f ∈ req.fields) ∧
    event.payload = companionPayload req fields hash

/-- What a call that was asked this commits. -/
def Commits (event : AuditEvent) : CreateRequest settings ⊕ RedactRequest → Prop
  | .inl req => event.toRequestContent = req.content
  | .inr req => IsCompanion req event

/-- What an append is about to commit is what its call was asked for. -/
theorem Bodied.commits (hb : Bodied sha256 w) {c : Nat} {call : Call settings}
    {create : CreateRequest settings} {phase : AppendPhase} {event : AuditEvent}
    (hcall : w.calls[c]? = some call) (happend : call.append? = some (create, phase))
    (hstaged : Staged sha256 w.db create event) : Commits event call.request := by
  rcases call with ⟨req, append⟩ | ⟨req, redact⟩
  · cases happend
    exact hstaged.request
  · cases redact with
    | appending read updated body append =>
      cases happend
      obtain ⟨htype, hactor, hresource, hid, hpayload⟩ :=
        companionBody_fields (hb _ _ _ _ _ _ hcall)
      have hcontent := hstaged.request
      refine ⟨?_, ?_, ?_, ?_, fieldsToRedact read req.fields,
        redactedContentHash sha256 read (fieldsToRedact read req.fields), ?_, ?_⟩
      · exact (congrArg RequestContent.eventType hcontent).trans htype
      · exact (congrArg RequestContent.actorId hcontent).trans hactor
      · exact (congrArg RequestContent.resourceType hcontent).trans hresource
      · exact (congrArg RequestContent.resourceId hcontent).trans hid
      · exact fun f hf => (mem_fieldsToRedact.mp hf).1
      · exact (congrArg RequestContent.payload hcontent).trans hpayload
    | _ => cases happend

/-- Every event was committed by a call that was asked for it. -/
def CommittedAsAsked (w : World settings) : Prop :=
  ∀ a ∈ w.log, ∃ call, w.calls[a.call]? = some call ∧ Commits a.event call.request

theorem Transition.keepsRequest (h : Transition sha256 w action w') {c : Nat} {call : Call settings}
    (hcall : w.calls[c]? = some call) :
    ∃ call', w'.calls[c]? = some call' ∧ call'.request = call.request :=
  h.keeps Call.request Call.request_resume (fun _ _ _ => rfl) Call.request_raised hcall

theorem CommittedAsAsked.step (h : CommittedAsAsked w) (hd : Disciplined sha256 w)
    (hb : Bodied sha256 w) (hstep : Transition sha256 w action w') : CommittedAsAsked w' := by
  intro a ha
  have hbefore : ∃ call, w.calls[a.call]? = some call ∧ Commits a.event call.request := by
    rcases hstep.mem_log hd ha with ha | ⟨call, create, record, hcall, happend, hstaged⟩
    · exact h a ha
    · exact ⟨call, hcall, hb.commits hcall happend hstaged⟩
  obtain ⟨call, hcall, hcommits⟩ := hbefore
  obtain ⟨call', hcall', hsame⟩ := hstep.keepsRequest hcall
  refine ⟨call', hcall', ?_⟩
  rw [hsame]
  exact hcommits

theorem committedAsAsked_of_reaches {ok : World settings → Action settings → Prop}
    (h : Machine.Reaches (step sha256) ok (.init .empty) w) : CommittedAsAsked w :=
  h.invariant (fun a ha => by cases ha) fun _ _ _ run _ hstep ht =>
    ht.step (disciplined_of_reaches run) (bodied_of_reaches run) (step_cases hstep)

/-! ## What calls were asked to redact -/

/-- A call was asked to redact the record. -/
def RedactionRequested (w : World settings) (eventId : Int) (req : RedactRequest) : Prop :=
  .inr req ∈ w.calls.map Call.request ∧ req.eventId = eventId

/-- A call was asked to redact the field of the record. -/
def FieldRequested (w : World settings) (eventId : Int) (f : PyStr) : Prop :=
  ∃ req, RedactionRequested w eventId req ∧ f ∈ req.fields

theorem RedactionRequested.step {eventId : Int} {req : RedactRequest}
    (h : RedactionRequested w eventId req) (hstep : Transition sha256 w action w') :
    RedactionRequested w' eventId req := by
  refine ⟨?_, h.2⟩
  rw [hstep.requests]
  exact List.mem_append_left _ h.1

theorem FieldRequested.step {eventId : Int} {f : PyStr} (h : FieldRequested w eventId f)
    (hstep : Transition sha256 w action w') : FieldRequested w' eventId f :=
  h.imp fun _ hreq => ⟨hreq.1.step hstep, hreq.2⟩

theorem InHand.requested {req : RedactRequest} {event : AuditEvent} (h : InHand w req event) :
    RedactionRequested w req.eventId req := by
  obtain ⟨phase, hmem, -⟩ := h
  exact ⟨List.mem_map.mpr ⟨_, hmem, rfl⟩, rfl⟩

/-- Nothing is redacted that no call was asked to redact, in the table or in hand. -/
structure RedactedAsAsked (w : World settings) : Prop where
  rows : ∀ e ∈ w.db.auditEvents, ∀ f ∈ alreadyRedacted e, FieldRequested w e.id f
  marked : ∀ e ∈ w.db.auditEvents, e.redactedAt ≠ none → ∃ req, RedactionRequested w e.id req
  inHand : ∀ req event, InHand w req event →
    ∀ f ∈ alreadyRedacted event, FieldRequested w req.eventId f

/-- What a redaction writes was asked for: by its own call, or before. -/
theorem RedactedAsAsked.written (h : RedactedAsAsked w) {req : RedactRequest} {event : AuditEvent}
    (hhand : InHand w req event) {row : AuditEvent} :
    ∀ f ∈ alreadyRedacted (writtenRow sha256 req event row), FieldRequested w req.eventId f := by
  intro f hf
  unfold writtenRow at hf
  rcases mem_alreadyRedacted_redactionUpdate.mp hf with hold | hnew
  · exact h.inHand req event hhand f hold
  · exact ⟨req, hhand.requested, (mem_fieldsToRedact.mp hnew).1⟩

theorem RedactedAsAsked.step (h : RedactedAsAsked w) (hd : Disciplined sha256 w)
    (hs : Stored sha256 w) (hstep : Transition sha256 w action w') : RedactedAsAsked w' where
  rows := by
    intro e he f hf
    have hbefore : FieldRequested w e.id f := by
      rcases hstep.mem_rows hd he with
        he | ⟨req, event, hhand, row, hrow, hid, rfl⟩ | ⟨row, hrow, archivedAt, rfl⟩ |
          ⟨c, req, record, call, hcall, happend⟩
      · exact h.rows e he f hf
      · have hrequested := h.written hhand f hf
        rw [← hid] at hrequested
        exact hrequested
      · exact h.rows row hrow f hf
      · have hpristine := (hs.calls call (List.mem_of_getElem? hcall)).staged req _ e happend rfl
        rw [hpristine.alreadyRedacted] at hf
        cases hf
    exact hbefore.step hstep
  marked := by
    intro e he hmarked
    have hbefore : ∃ req, RedactionRequested w e.id req := by
      rcases hstep.mem_rows hd he with
        he | ⟨req, event, hhand, row, hrow, hid, rfl⟩ | ⟨row, hrow, archivedAt, rfl⟩ |
          ⟨c, req, record, happending⟩
      · exact h.marked e he hmarked
      · exact ⟨req, hhand.requested.1, hid.symm⟩
      · exact h.marked row hrow hmarked
      · have hstaged : Staged sha256 w.db req e := hd.phase happending
        exact absurd hstaged.unredacted hmarked
    obtain ⟨req, hreq⟩ := hbefore
    exact ⟨req, hreq.step hstep⟩
  inHand := by
    intro req event hhand f hf
    rcases hstep.inHand hhand with hhand | hfound
    · exact (h.inHand req event hhand f hf).step hstep
    · obtain ⟨hmem, hid⟩ := (Repo.getEvent_eq_some_iff _ _ _).mp hfound
      rw [← hid]
      exact (h.rows event hmem f hf).step hstep

theorem redactedAsAsked_of_reaches {ok : World settings → Action settings → Prop}
    (h : Machine.Reaches (step sha256) ok (.init .empty) w) : RedactedAsAsked w := by
  refine h.invariant ⟨?_, ?_, ?_⟩ fun t u action run _ hstep ht =>
    ht.step (disciplined_of_reaches run) (stored_of_reaches run) (step_cases hstep)
  · intro e he
    cases he
  · intro e he
    cases he
  · rintro req event ⟨phase, hmem, -⟩
    cases hmem

/-! ## What a row says -/

/-- The row is what the call has committed, but for its archival and for fields that calls were
asked to redact. -/
structure TracesTo (w : World settings) (a : Appended) (call : Call settings) (e : AuditEvent) :
    Prop where
  id : a.event.id = e.id
  committed : Commits a.event call.request
  content : e.toEventContent = { a.event.toEventContent with payload := e.payload }
  eventHash : e.eventHash = a.event.eventHash
  payload : ∀ f, e.payload.get? f =
    if f ∈ alreadyRedacted e then some (.str REDACTED_MARKER) else a.event.payload.get? f
  redacted : ∀ f ∈ alreadyRedacted e, FieldRequested w e.id f
  marked : e.redactedAt ≠ none → ∃ req, RedactionRequested w e.id req

/-- **Rows say what calls were asked to store.** In every state that interleaved sessions reach,
each row was committed by a call with the content it was asked for, or as the companion of
the redaction it was asked for, and has kept this content but for the markers of fields that
calls were asked to redact of it. -/
theorem rows_explained {ok : World settings → Action settings → Prop}
    (h : Machine.Reaches (step sha256) ok (.init .empty) w) :
    ∀ e ∈ w.db.auditEvents, ∃ a ∈ w.log, ∃ call, w.calls[a.call]? = some call ∧
      TracesTo w a call e := by
  intro e he
  have hstored := stored_of_reaches h
  have hasked := redactedAsAsked_of_reaches h
  obtain ⟨event, hevent, hrow⟩ := HashChain.exists_of_forall₂_right hstored.rows he
  obtain ⟨a, ha, rfl⟩ := List.mem_map.mp hevent
  obtain ⟨call, hcall, hcommits⟩ := committedAsAsked_of_reaches h a ha
  have hpristine := (hstored.created a.event hevent).alreadyRedacted
  have hretouched := hrow.retouched
  refine ⟨a, ha, call, hcall, ?_⟩
  constructor
  · exact hretouched.id.symm
  · exact hcommits
  · unfold Retouched at hretouched
    rw [hretouched]
  · exact hretouched.eventHash
  · intro f
    rw [hrow.payload f, hpristine]
    simp
  · exact hasked.rows e he
  · exact hasked.marked e he

/-- A session appends the sample event, and another one redacts it. -/
def appendedAndRedacted : List (Action {}) :=
  .startCreate { eventIn := .sample, tenantId := "t" } ::
    (List.replicate 7 (.advance 0 .sample) ++
      .startRedact { eventId := 1, fields := ["x"], actorId := "a", now := .sample } ::
        List.replicate 10 (.advance 1 .sample))

/-- The record and the companion of its redaction. -/
theorem rows_explained_appendedAndRedacted :
    ∃ w ∈ Machine.schedule (step Sha256.hexdigest) (fun _ _ => True) appendedAndRedacted
        (.init .empty), w.db.auditEvents.map alreadyRedacted = [[("x" : PyStr)], []] ∧
      ∀ e ∈ w.db.auditEvents, ∃ a ∈ w.log, ∃ call, w.calls[a.call]? = some call ∧
        TracesTo w a call e := by
  have hrun : ∃ w ∈ Machine.schedule (step Sha256.hexdigest) (fun _ _ => True) appendedAndRedacted
      (.init .empty), w.db.auditEvents.map alreadyRedacted = [[("x" : PyStr)], []] := by
    decide +kernel
  obtain ⟨w, hw, hfields⟩ := hrun
  exact ⟨w, hw, hfields, rows_explained (Machine.reaches_of_schedule hw)⟩

end AuditLog
