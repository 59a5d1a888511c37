import AuditLog.Concurrency.LinearChain

/-!
# Forged redaction flags

A commitment is only taken from a row whose content is the one it was committed
with, so it was written by a client or by a call of `redact_event_fields`. When
no client has posted the commitment, a redaction flag that no call has completed
is found out.
-/

namespace AuditLog

variable {sha256 : Bytes → PyStr} {settings : Settings}

/-! ## Who wrote a commitment -/

namespace Call

/-- The request of a redaction; no step changes it. -/
def redactRequest? : Call settings → Option RedactRequest
  | .create _ _ => none
  | .redact req _ => some req

/-- A redaction of the record has returned. -/
def CompletedRedaction (eventId : Int) : Call settings → Prop
  | .redact req (.ended (.ok _)) => req.eventId = eventId
  | _ => False

instance (eventId : Int) (call : Call settings) : Decidable (call.CompletedRedaction eventId) := by
  unfold CompletedRedaction
  split <;> infer_instance

/-- A call that may post a commitment for the record without completing a
redaction of it: any create, and a redaction of the record that has not returned. -/
def MayForge (eventId : Int) : Call settings → Prop
  | .create _ _ => True
  | .redact req phase => req.eventId = eventId ∧ ¬ (redact req phase).CompletedRedaction eventId

end Call

@[simp] theorem Call.redactRequest?_resume (call : Call settings) (phase : AppendPhase) :
    (call.resume sha256 phase).redactRequest? = call.redactRequest? := by
  rcases call with ⟨req, p⟩ | ⟨req, p⟩
  · rfl
  · cases p <;> rfl

@[simp] theorem Call.redactRequest?_raised (call : Call settings) (err : ServiceError) :
    (call.raised err).redactRequest? = call.redactRequest? := by
  cases call <;> rfl

/-- Calls stay where they are and keep their request. -/
theorem Transition.redactRequest {w w' : World settings} {action : Action settings}
    (h : Transition sha256 w action w') {c : Nat} {call : Call settings} (hcall : w.calls[c]? = some call) :
    ∃ call', w'.calls[c]? = some call' ∧ call'.redactRequest? = call.redactRequest? :=
  h.keeps _ Call.redactRequest?_resume (fun _ _ _ => rfl) Call.redactRequest?_raised hcall

/-- A redaction has appended nothing but companions of its own target. -/
def Authored (w : World settings) : Prop :=
  ∀ a ∈ w.log, ∃ call, w.calls[a.call]? = some call ∧
    ∀ req, call.redactRequest? = some req →
      ∃ fields hash, a.event.payload = companionPayload req fields hash

/-- What a redaction is about to append is a companion of its target. -/
theorem Bodied.payload {w : World settings} (h : Bodied sha256 w) {c : Nat} {call : Call settings}
    {create : CreateRequest settings} {phase : AppendPhase} (hcall : w.calls[c]? = some call)
    (happend : call.append? = some (create, phase)) {req : RedactRequest}
    (hreq : call.redactRequest? = some req) :
    ∃ fields hash, create.eventIn.payload = companionPayload req fields hash := by
  rcases call with ⟨req₀, phase₀⟩ | ⟨req₀, phase₀⟩
  · cases hreq
  · cases phase₀ with
    | appending event updated body phase₀ =>
      cases hreq
      cases happend
      exact ⟨_, _, (companionBody_ok (h _ _ _ _ _ _ hcall)).2⟩
    | _ => cases happend

theorem Authored.step {w w' : World settings} {action : Action settings}
    (hd : Disciplined sha256 w) (hbodied : Bodied sha256 w) (h : Authored w)
    (hstep : Transition sha256 w action w') : Authored w' := by
  intro a ha
  -- A call keeps its place and its request, so its author is known before the step.
  suffices hbefore : ∃ call, w.calls[a.call]? = some call ∧
      ∀ req, call.redactRequest? = some req →
        ∃ fields hash, a.event.payload = companionPayload req fields hash by
    rcases hbefore with ⟨call, hcall, hpayload⟩
    rcases hstep.redactRequest hcall with ⟨call', hcall', hsame⟩
    exact ⟨call', hcall', fun req hreq => hpayload req (hsame ▸ hreq)⟩
  rcases hstep.mem_log hd ha with ha | ⟨call, create, record, hcall, happend, hstaged⟩
  · exact h a ha
  · refine ⟨call, hcall, ?_⟩
    intro req hreq
    rw [hstaged.payload]
    exact hbodied.payload hcall happend hreq

theorem authored_of_reaches {ok : World settings → Action settings → Prop} {db : Database}
    {w : World settings} (h : Machine.Reaches (step sha256) ok (.init db) w) : Authored w := by
  refine h.invariant (fun a ha => by cases ha) ?_
  intro t u action run _ hstep ht
  exact ht.step (disciplined_of_reaches run) (bodied_of_reaches run) (step_cases hstep)

/-! ## Forged flags -/

/-- Someone who has not completed a redaction of the record has posted the
commitment `hash` for it. -/
def CommitmentPosted (w : World settings) (eventId : Int) (hash : PyStr) : Prop :=
  ∃ a ∈ w.log, a.event.eventType = REDACTION_EVENT_TYPE ∧
    hashKey (a.event.payload.get "targetEventId") = some (.int eventId) ∧
    a.event.payload.get "redactedContentHash" = .str hash ∧
    ∃ call, w.calls[a.call]? = some call ∧ call.MayForge eventId

/-- A row after a direct change of `redacted_at` and `payload`. -/
def AuditEvent.flagged (e : AuditEvent) (redactedAt : DateTime) (payload : Payload) : AuditEvent :=
  { e with redactedAt := some redactedAt, payload }

/-- The table after that change of the row with the given id. -/
def Database.flag (db : Database) (eventId : Int) (redactedAt : DateTime) (payload : Payload) :
    Database :=
  db.mapEvents (fun e => if e.id = eventId then e.flagged redactedAt payload else e)
    fun e => by split <;> rfl

theorem retouched_flag (db : Database) (eventId : Int) (redactedAt : DateTime) (payload : Payload) :
    List.Forall₂ Retouched db.auditEvents (db.flag eventId redactedAt payload).auditEvents := by
  refine (Rewritten.mapEvents db (fun e => by split <;> rfl) ?_).rows
  intro e
  split <;> rfl

/-- Values that are the same up to member order hash to the same key. -/
theorem hashKey_same {a b : Json} (h : Json.Same a b) : hashKey a = hashKey b := by
  cases a <;> cases b <;> simp_all [Json.Same, hashKey]

/-- Same payloads, same commitment. -/
theorem get_same {p q : Payload} (h : Json.Same p.toJson q.toJson) {k : PyStr}
    (hk : p.get k ≠ .null) : Json.Same (p.get k) (q.get k) := by
  have hsame := Payload.get?_same h k
  unfold Payload.get at hk ⊢
  cases hp : p.get? k with
  | none =>
    rw [hp] at hk
    exact absurd rfl hk
  | some v =>
    rw [hp] at hsame
    rcases hsame with ⟨w, hw, hvw⟩
    rw [hw]
    exact hvw

/-- A trusted row still says what it said when it was committed. -/
theorem HistoryOk.commitment_posted {w : World settings} (h : HistoryOk sha256 w)
    {rows : List AuditEvent} (hrows : List.Forall₂ Retouched w.history rows)
    (hsha : CollisionFree sha256 (hashInputs w.history ∪ hashInputs rows)) {e : AuditEvent}
    (he : e ∈ rows) {key : HashKey} {hash : PyStr}
    (hcommitment : commitmentFor sha256 e key = some (.str hash)) :
    ∃ a ∈ w.log, a.event.eventType = REDACTION_EVENT_TYPE ∧
      hashKey (a.event.payload.get "targetEventId") = some key ∧
      a.event.payload.get "redactedContentHash" = .str hash := by
  rcases commitmentFor_eq_some_iff.mp hcommitment with ⟨⟨htype, htrusted⟩, hnull, hkey, hhash, -⟩
  rcases HashChain.exists_of_forall₂_right hrows he with ⟨event, hevent, hretouched⟩
  rcases List.mem_map.mp hevent with ⟨a, ha, rfl⟩
  have hcontent : sha256 e.toEventContent.canonical = sha256 a.event.toEventContent.canonical :=
    htrusted.trans (hretouched.eventHash.trans (h.hashed a.event hevent))
  have hcanonical := hsha (Or.inr (canonical_mem_hashInputs he))
    (Or.inl (canonical_mem_hashInputs hevent)) hcontent
  have hsame := same_of_canonicalize_eq ((EventContent.canonical_eq_iff _ _).mp hcanonical).2.2.2.2.2.1
  refine ⟨a, ha, hretouched.eventType.symm.trans htype, ?_, ?_⟩
  · rw [← hashKey_same (get_same hsame hnull)]
    exact hkey
  · have hstr := get_same hsame (k := "redactedContentHash") (by rw [hhash]; exact Json.noConfusion)
    rw [hhash] at hstr
    exact Json.same_str_left hstr

/-- **Forged flags are found out.** In every state that calls reach, when no
redaction of `r` has completed and nobody has posted the commitment to the new
content, setting `redacted_at` and `payload` of `r` is reported. -/
theorem forged_redaction_reported {w : World settings}
    (h : Machine.Reaches (step sha256) (fun _ _ => True) (.init .empty) w) {r : AuditEvent}
    (hr : r ∈ w.db.auditEvents) (hnever : ∀ call ∈ w.calls, ¬ call.CompletedRedaction r.id)
    {redactedAt : DateTime} {payload : Payload}
    (hsha : CollisionFree sha256
      (hashInputs w.history ∪ hashInputs (w.db.flag r.id redactedAt payload).auditEvents))
    (hposted : ¬ CommitmentPosted w r.id (contentHash sha256 (r.flagged redactedAt payload))) :
    ¬ ReportsIntact sha256 (w.db.flag r.id redactedAt payload) := by
  intro hintact
  have hchain := (reportsIntact_iff _).mp hintact
  have hhistory := historyOk_of_reaches h
  have hrows := forall₂_retouched_trans hhistory.rows (retouched_flag w.db r.id redactedAt payload)
  have hflagged : r.flagged redactedAt payload ∈ (w.db.flag r.id redactedAt payload).auditEvents :=
    List.mem_map.mpr ⟨r, hr, if_pos rfl⟩
  have hcommitted := hchain.content _ hflagged
  rw [contentOk_redacted (Option.some_ne_none redactedAt)] at hcommitted
  rcases exists_of_lastCommitment hcommitted with ⟨e, he, hcommitment⟩
  -- The row that commits to the new content says what it said when it was committed.
  rcases hhistory.commitment_posted hrows hsha he hcommitment with ⟨a, ha, htype, hkey, hhash⟩
  rcases authored_of_reaches h a ha with ⟨call, hcall, hauthor⟩
  refine hposted ⟨a, ha, htype, hkey, hhash, call, hcall, ?_⟩
  have hmem : call ∈ w.calls := List.mem_of_getElem? hcall
  cases call with
  | create req phase => trivial
  | redact req phase =>
    -- A companion names the target of its own redaction.
    rcases hauthor req rfl with ⟨fields, hash, hpayload⟩
    rw [hpayload, companionPayload_target] at hkey
    exact ⟨HashKey.int.inj (Option.some.inj hkey), hnever _ hmem⟩

/-! ## A forged commitment -/

/-- A client's call of `create_audit_event`, from start to end. -/
def createAlone (c : Nat) (body : AuditEventCreate {}) : List (Action {}) :=
  .startCreate (createRequest body) :: List.replicate 7 (.advance c .sample)

/-- The payload that is to replace the sample event's. -/
def forgedPayload : Payload := ⟨[("x", .int 2)], by decide⟩

/-- A body that commits event 1 to that payload. -/
def commitmentBody : AuditEventCreate {} :=
  ⟨REDACTION_EVENT_TYPE, "b", "c", "d",
    ⟨[("targetEventId", .int 1), ("redactedContentHash",
      .str "506d2233b088febb2163d27aeb43881aab47fa3ff73e4ce7a23c1dfd5b6f47ee")], by decide⟩,
    by decide +kernel⟩

/-- The contents that are hashed when the table is flagged and verified have
distinct digests. -/
def DistinctContents (w : World {}) (r : AuditEvent) (redactedAt : DateTime) (payload : Payload) :
    Prop :=
  ((w.history ++ [r.flagged redactedAt payload]).map (contentHash Sha256.hexdigest)).Nodup ∧
    ∀ e ∈ (w.db.flag r.id redactedAt payload).auditEvents,
      e.toEventContent ∈ (w.history ++ [r.flagged redactedAt payload]).map (·.toEventContent)

instance (w : World {}) (r : AuditEvent) (redactedAt : DateTime) (payload : Payload) :
    Decidable (DistinctContents w r redactedAt payload) :=
  inferInstanceAs (Decidable (_ ∧ _))

theorem DistinctContents.collisionFree {w : World {}} {r : AuditEvent} {redactedAt : DateTime}
    {payload : Payload} (h : DistinctContents w r redactedAt payload) :
    CollisionFree Sha256.hexdigest
      (hashInputs w.history ∪ hashInputs (w.db.flag r.id redactedAt payload).auditEvents) := by
  refine (collisionFree_of_contentHashes _ h.1).mono ?_
  rintro input (⟨e, he, rfl⟩ | ⟨e, he, rfl⟩)
  · exact canonical_mem_hashInputs (List.mem_append_left _ he)
  · rcases List.mem_map.mp (h.2 e he) with ⟨a, ha, hae⟩
    rw [← hae]
    exact canonical_mem_hashInputs ha

/-- A body that commits event 2 to what `commitmentBody` commits event 1 to. -/
def otherIdBody : AuditEventCreate {} :=
  ⟨REDACTION_EVENT_TYPE, "b", "c", "d",
    ⟨[("targetEventId", .int 2), ("redactedContentHash",
      .str "506d2233b088febb2163d27aeb43881aab47fa3ff73e4ce7a23c1dfd5b6f47ee")], by decide⟩,
    by decide +kernel⟩

/-- A body that commits event 1 to some other content. -/
def otherHashBody : AuditEventCreate {} :=
  ⟨REDACTION_EVENT_TYPE, "b", "c", "d",
    ⟨[("targetEventId", .int 1), ("redactedContentHash", .str "other")], by decide⟩, by decide +kernel⟩

/-- A flag on the first event. Of two posted commitments one names another event, the other one
another hash. -/
theorem forged_redaction_reported_unposted :
    ∃ w : World {}, Machine.schedule (step Sha256.hexdigest) (fun _ _ => True)
        (createAlone 0 .sample ++ createAlone 1 otherIdBody ++ createAlone 2 otherHashBody)
        (.init .empty) = some w ∧
      w.db.auditEvents.map (fun e => e.eventType) =
        [("A" : PyStr), REDACTION_EVENT_TYPE, REDACTION_EVENT_TYPE] ∧
      ∃ r ∈ w.db.auditEvents, r.id = 1 ∧
        ¬ ReportsIntact Sha256.hexdigest (w.db.flag r.id .sample forgedPayload) := by
  have hrun : ∃ w ∈ Machine.schedule (step Sha256.hexdigest) (fun _ _ => True)
      (createAlone 0 .sample ++ createAlone 1 otherIdBody ++ createAlone 2 otherHashBody)
      (.init .empty),
        w.db.auditEvents.map (fun e => e.eventType) =
          [("A" : PyStr), REDACTION_EVENT_TYPE, REDACTION_EVENT_TYPE] ∧
        ∃ r ∈ w.db.auditEvents, r.id = 1 ∧ (∀ call ∈ w.calls, ¬ call.CompletedRedaction r.id) ∧
          DistinctContents w r .sample forgedPayload ∧
          ∀ a ∈ w.log, hashKey (a.event.payload.get "targetEventId") = some (.int r.id) →
            a.event.payload.get "redactedContentHash" ≠
              .str (contentHash Sha256.hexdigest (r.flagged .sample forgedPayload)) := by
    decide +kernel
  obtain ⟨w, hw, htypes, r, hr, hid, hnever, hdistinct, hothers⟩ := hrun
  exact ⟨w, hw, htypes, r, hr, hid, forged_redaction_reported (Machine.reaches_of_schedule hw) hr
    hnever hdistinct.collisionFree fun ⟨a, ha, _, hkey, hhash, _⟩ => hothers a ha hkey hhash⟩

/-- **A client can vouch for a forged flag**: no redaction was ever called, and
`verify_chain` accepts the replaced payload. -/
theorem client_vouches_for_forged_redaction :
    ∃ (w : World {}) (r : AuditEvent) (payload : Payload),
      Machine.Reaches (step Sha256.hexdigest) (fun _ _ => True) (.init .empty) w ∧
      r ∈ w.db.auditEvents ∧ (∀ call ∈ w.calls, ¬ call.CompletedRedaction r.id) ∧
      canonicalize payload.toJson ≠ canonicalize r.payload.toJson ∧
      CollisionFree Sha256.hexdigest
        (hashInputs w.history ∪ hashInputs (w.db.flag r.id .sample payload).auditEvents) ∧
      ReportsIntact Sha256.hexdigest (w.db.flag r.id .sample payload) := by
  have hrun : ∃ w ∈ Machine.schedule (step Sha256.hexdigest) (fun _ _ => True)
      (createAlone 0 .sample ++ createAlone 1 commitmentBody) (.init .empty),
        ∃ r ∈ w.db.auditEvents, (∀ call ∈ w.calls, ¬ call.CompletedRedaction r.id) ∧
          canonicalize forgedPayload.toJson ≠ canonicalize r.payload.toJson ∧
          DistinctContents w r .sample forgedPayload ∧
          ReportsIntact Sha256.hexdigest (w.db.flag r.id .sample forgedPayload) := by
    decide +kernel
  obtain ⟨w, hw, r, hr, hnever, hne, hdistinct, hintact⟩ := hrun
  exact ⟨w, r, forgedPayload, Machine.reaches_of_schedule hw, hr, hnever, hne,
    hdistinct.collisionFree, hintact⟩

end AuditLog
