import AuditLog.Concurrency.PendingCommitments

/-!
# No lost redaction, when nothing is overwritten

The payload commit of a redaction is a read-modify-write without the append
lock, and companions are appended in any order. The result of this file says
which steps do no harm: payload commits that drop no listed field, and companion
commits after which the row's content is committed to, or still will be.
-/

namespace AuditLog

variable {sha256 : Bytes → PyStr} {settings : Settings}

/-! ## Calls that raise -/

/-- The call has raised. -/
def Call.HasRaised : Call settings → Prop
  | .create _ (.ended (.error _)) => True
  | .redact _ (.ended (.error _)) => True
  | _ => False

/-- The call has returned normally. -/
def Call.Returned : Call settings → Prop
  | .create _ (.ended (.ok _)) => True
  | .redact _ (.ended (.ok _)) => True
  | _ => False

instance (call : Call settings) : Decidable call.Returned := by
  unfold Call.Returned
  rcases call with ⟨_, phase⟩ | ⟨_, phase⟩
  · rcases phase with _ | _ | _ | _ | _ | _ | _ | (_ | _) <;> infer_instance
  · rcases phase with _ | _ | _ | _ | (_ | _) <;> infer_instance

/-- A call that has raised has not returned. -/
theorem Call.HasRaised.not_returned {call : Call settings} (h : call.HasRaised) :
    ¬ call.Returned := by
  unfold HasRaised at h
  split at h
  · exact id
  · exact id
  · exact h.elim

/-- A call that has raised is over. -/
theorem Call.HasRaised.isEnded {call : Call settings} (h : call.HasRaised) :
    call.isEnded = true := by
  unfold HasRaised at h
  split at h
  · rfl
  · rfl
  · exact h.elim

/-- Some call has raised. -/
def World.Raised (w : World settings) : Prop := ∃ call ∈ w.calls, call.HasRaised

/-- What has been raised stays raised. -/
theorem World.Raised.step {w w' : World settings} {action : Action settings} (h : w.Raised)
    (hstep : Transition sha256 w action w') : w'.Raised := by
  rcases h with ⟨call, hcall, hraised⟩
  rcases List.mem_iff_getElem?.mp hcall with ⟨c, hc⟩
  exact ⟨call, List.mem_of_getElem? (hstep.getElem?_of_isEnded hc hraised.isEnded), hraised⟩

/-! ## Steps and runs -/

/-- The steps that do no harm. -/
def KeepsRedactions (sha256 : Bytes → PyStr) (w : World settings) : Action settings → Prop
  | .advance c _ => DropsNothing w c ∧ LeavesCommitment sha256 w c
  | _ => True

instance (w : World settings) (action : Action settings) :
    Decidable (KeepsRedactions sha256 w action) := by
  unfold KeepsRedactions
  split <;> infer_instance

variable {original row : AuditEvent} {w w' : World settings}

/-- A step of the append of a companion. -/
theorem Verified.append (h : Verified sha256 original row w) (hr : Redacting sha256 original row w)
    (hd : Disciplined sha256 w) (hb : Bodied sha256 w) {c : Nat} {call : Call settings}
    {create : CreateRequest settings} {phase : AppendPhase} {s : AppendStep}
    (hcall : w.calls[c]? = some call) (happend : call.append? = some (create, phase))
    (hleaves : LeavesCommitment sha256 w c) (hmove : AppendMove sha256 w.db w.lock c create phase s)
    (log : List Appended) :
    let w' : World settings := ⟨s.db, s.lock, w.calls.set c (call.resume sha256 s.phase), log⟩
    w'.Raised ∨ Verified sha256 original row w' := by
  intro w'
  have happending : w.Appending c create phase := ⟨call, hcall, happend⟩
  rcases hr.appending hcall happend with ⟨req, event, updated, body, rfl, rfl⟩
  -- The append raises, commits its row, or prepares it and leaves the table alone.
  rcases hmove.pending rfl with ⟨err, hraised⟩ | ⟨companion, record, rfl, hcommitted⟩ | ⟨hne, hsame⟩
  · refine Or.inl ⟨_, mem_set_self hcall _, ?_⟩
    rw [hraised]
    trivial
  · right
    cases hmove with
    | commit hcommit => exact h.commit hr hd hb hcall hleaves hcommit _ _
    | commitFails hfails => cases hcommitted
  · right
    rcases hmove.effect (hd.phase happending) with ⟨hrows, -⟩ | ⟨companion, record, hphase, -⟩
    · exact h.of_set hcall hrows rfl (hsame req event updated body)
    · exact absurd hphase (hne companion record)

/-- A statement of the redaction itself. -/
theorem Verified.redaction (h : Verified sha256 original row w) (hr : Redacting sha256 original row w)
    {c : Nat} {req : RedactRequest} {phase phase' : RedactPhase settings} {db' : Database}
    (hcall : w.calls[c]? = some (.redact req phase))
    (hmove : RedactMove sha256 w.db req phase db' phase') :
    let w' : World settings := { w with db := db', calls := w.calls.set c (.redact req phase') }
    w'.Raised ∨ ∃ row', Repo.getEvent w'.db original.id = some row' ∧
      Verified sha256 original row' w' := by
  intro w'
  cases hmove with
  | write =>
    refine Or.inr ⟨_, ?_, h.write hr hcall⟩
    show Repo.getEvent (Repo.redactEventFields w.db req.eventId _) original.id = _
    rw [(hr.callOk hcall).target]
    exact Repo.getEvent_redactEventFields _ hr.found
  | read hread hsome => exact Or.inr ⟨row, hr.found, h.of_set hcall rfl rfl rfl⟩
  | refresh hread hbody => exact Or.inr ⟨row, hr.found, h.of_set hcall rfl rfl rfl⟩
  | _ => exact Or.inl ⟨_, mem_set_self hcall _, trivial⟩

/-- **A harmless step** keeps the chain as good as it was, or some call raises. -/
theorem Verified.step {action : Action settings} (h : Verified sha256 original row w)
    (hr : Redacting sha256 original row w) (hd : Disciplined sha256 w) (hb : Bodied sha256 w)
    (hon : OnRecord original.id action) (hkeeps : KeepsRedactions sha256 w action)
    (hstep : Transition sha256 w action w') :
    w'.Raised ∨ ∃ row', Repo.getEvent w'.db original.id = some row' ∧
      Verified sha256 original row' w' := by
  cases hstep with
  | create req => exact absurd hon id
  | redact req =>
    refine Or.inr ⟨row, hr.found, h.of_same rfl ?_ ?_⟩
    · intro call hcall
      exact ⟨call, List.mem_append_left _ hcall, rfl⟩
    · intro call' hcall'
      rcases List.mem_append.mp hcall' with hcall' | hcall'
      · exact Or.inr ⟨call', hcall', rfl⟩
      · rw [List.mem_singleton.mp hcall']
        exact Or.inl rfl
  | append hcall happend hmove =>
    rcases h.append hr hd hb hcall happend hkeeps.2 hmove _ with hraised | hverified
    · exact Or.inl hraised
    · exact Or.inr ⟨row, (hr.append hd hcall happend hmove _).found, hverified⟩
  | redaction hcall hmove => exact h.redaction hr hcall hmove
  -- A lost connection raises out of its call.
  | @rollback c call statement hcall hrunning =>
    refine Or.inl ⟨_, mem_set_self hcall _, ?_⟩
    cases call <;> trivial
  | retention days now archiveNow => exact absurd hon id

/-- The run lemma: the record is on its way, and unless a call has raised the chain
is as good as it was. -/
theorem redacting_of_reaches {db : Database} (hok : ChainOk sha256 db.auditEvents)
    (hfound : Repo.getEvent db original.id = some original) (hrelied : NotRelied sha256 db original)
    (hrun : Machine.Reaches (step sha256)
      (fun w action => OnRecord original.id action ∧ KeepsRedactions sha256 w action) (.init db) w) :
    ∃ row, Redacting sha256 original row w ∧ (w.Raised ∨ Verified sha256 original row w) := by
  refine hrun.invariant
    (P := fun w => ∃ row, Redacting sha256 original row w ∧
      (w.Raised ∨ Verified sha256 original row w))
    ⟨original, redacting_init hfound, Or.inr (verified_init hok hfound hrelied)⟩ ?_
  rintro t u action run ⟨hon, hkeeps⟩ hstep ⟨row, hr, hv⟩
  have htransition := step_cases hstep
  have hd := disciplined_of_reaches run
  have hdrops : ∀ c now, action = .advance c now → DropsNothing t c := by
    rintro c now rfl
    exact hkeeps.1
  rcases hr.step hd hon hdrops htransition with ⟨row', hr'⟩
  refine ⟨row', hr', ?_⟩
  -- Once a call has raised there is nothing more to keep.
  rcases hv with hraised | hv
  · exact Or.inl (hraised.step htransition)
  · rcases hv.step hr hd (bodied_of_reaches run) hon hkeeps htransition with
      hraised | ⟨row'', hfound', hverified⟩
    · exact Or.inl hraised
    · rw [hr'.found] at hfound'
      cases hfound'
      exact Or.inr hverified

/-- A call that has returned owes the chain no companion. -/
theorem Call.pending?_of_returned {call : Call settings} (h : call.Returned) :
    call.pending? sha256 = none := by
  unfold Returned at h
  split at h
  · rfl
  · rfl
  · exact h.elim

/-- The fields that the call has reported as newly redacted. -/
def Call.newlyRedactedFields : Call settings → List PyStr
  | .redact _ (.ended (.ok result)) => result.newlyRedactedFields
  | _ => []

/-- The fields that a call reports are redacted in the row, and were not before the run. -/
theorem Redacting.reported (h : Redacting sha256 original row w) {call : Call settings}
    (hcall : call ∈ w.calls) {f : PyStr} (hf : f ∈ call.newlyRedactedFields) :
    f ∈ alreadyRedacted row ∧ f ∉ alreadyRedacted original := by
  rcases h.calls call hcall with ⟨req, phase, rfl, hok⟩
  unfold Call.newlyRedactedFields at hf
  split at hf
  · rename_i heq
    cases heq
    exact hok.written f hf
  · cases hf

/-- **No lost redaction.** After any run of redactions of one record in which no
payload commit drops a listed field and no companion commit leaves the content
uncommitted, when all calls have returned every reported field is redacted with
the hash of its original value, and the chain is intact. -/
theorem redactions_kept {db : Database} (hintact : ReportsIntact sha256 db)
    (hfound : Repo.getEvent db original.id = some original) (hrelied : NotRelied sha256 db original)
    (hrun : Machine.Reaches (step sha256)
      (fun w action => OnRecord original.id action ∧ KeepsRedactions sha256 w action) (.init db) w)
    (hdone : ∀ call ∈ w.calls, call.Returned) :
    (∃ row, Repo.getEvent w.db original.id = some row ∧
      ∀ call ∈ w.calls, ∀ f ∈ call.newlyRedactedFields,
        row.payload.get? f = some (.str REDACTED_MARKER) ∧ f ∈ alreadyRedacted row ∧
          Dict.get (row.redactedFieldHashes.getD []) f =
            some (hashFieldValue sha256 (original.payload.get f))) ∧
      ReportsIntact sha256 w.db := by
  rcases redacting_of_reaches ((reportsIntact_iff db).mp hintact) hfound hrelied hrun with
    ⟨row, hr, hraised | hverified⟩
  · -- A call that has raised never returns.
    rcases hraised with ⟨call, hcall, hraised⟩
    exact absurd (hdone call hcall) hraised.not_returned
  · constructor
    · refine ⟨row, hr.found, ?_⟩
      intro call hcall f hf
      rcases hr.reported hcall hf with ⟨hlisted, hfresh⟩
      refine ⟨?_, hlisted, hr.shape.hashes f hlisted hfresh⟩
      rw [hr.shape.payload, if_pos ⟨hlisted, hfresh⟩]
    · rw [reportsIntact_iff]
      exact hverified.chainOk hr.found fun call hcall => Call.pending?_of_returned (hdone call hcall)

/-! ## Two redactions at a time -/

/-- A body with two fields. -/
def twoFieldBody : AuditEventCreate {} :=
  ⟨"A", "b", "c", "d", ⟨[("x", .int 1), ("y", .int 2)], by decide⟩, by decide +kernel⟩

/-- The event in the table with that body. -/
def twoFieldEvent : AuditEvent :=
  appendedEvent Sha256.hexdigest .empty (createRequest twoFieldBody) .sample

theorem getEvent_twoFieldEvent :
    Repo.getEvent (eventTable twoFieldBody) twoFieldEvent.id = some twoFieldEvent := by
  rw [Repo.getEvent_eq_some_iff, eventTable_auditEvents]
  exact ⟨List.mem_cons_self, rfl⟩

/-- Steps of two redactions, of field `x` by call 0 and of field `y` by call 1. -/
def twoRedactions (steps : List Nat) : List (Action {}) :=
  .startRedact sampleRedact :: .startRedact { sampleRedact with fields := ["y"] } ::
    steps.map fun c => .advance c .sample

/-- Call 1 reads what call 0 has written, and appends after it. -/
theorem redactions_kept_inOrder :
    ∃ w : World {}, Machine.schedule (step Sha256.hexdigest)
        (fun w action => OnRecord twoFieldEvent.id action ∧ KeepsRedactions Sha256.hexdigest w action)
        (twoRedactions [0, 0, 1, 1, 0, 1, 0, 0, 0, 0, 0, 0, 0, 1, 1, 1, 1, 1, 1, 1])
        (.init (eventTable twoFieldBody)) = some w ∧
      (∃ row, Repo.getEvent w.db twoFieldEvent.id = some row ∧
        ∀ call ∈ w.calls, ∀ f ∈ call.newlyRedactedFields,
          row.payload.get? f = some (.str REDACTED_MARKER) ∧ f ∈ alreadyRedacted row ∧
            Dict.get (row.redactedFieldHashes.getD []) f =
              some (hashFieldValue Sha256.hexdigest (twoFieldEvent.payload.get f))) ∧
      ReportsIntact Sha256.hexdigest w.db := by
  have hrun : ∃ w ∈ Machine.schedule (step Sha256.hexdigest)
      (fun w action => OnRecord twoFieldEvent.id action ∧ KeepsRedactions Sha256.hexdigest w action)
      (twoRedactions [0, 0, 1, 1, 0, 1, 0, 0, 0, 0, 0, 0, 0, 1, 1, 1, 1, 1, 1, 1])
      (.init (eventTable twoFieldBody)), ∀ call ∈ w.calls, call.Returned := by
    decide +kernel
  have hrelied : NotRelied Sha256.hexdigest (eventTable twoFieldBody) twoFieldEvent := by
    intro htype
    exact absurd htype (by decide)
  obtain ⟨w, hw, hdone⟩ := hrun
  exact ⟨w, hw, redactions_kept (eventTable_intact (by decide)) getEvent_twoFieldEvent hrelied
    (Machine.reaches_of_schedule hw) hdone⟩

/-- **A redaction can be lost**: both calls read the event before either writes it,
both return, and the field that call 0 reported is back in the clear. -/
theorem concurrent_redaction_lost :
    ∃ (db : Database) (original : AuditEvent) (w : World {}),
      ReportsIntact Sha256.hexdigest db ∧ Repo.getEvent db original.id = some original ∧
      Machine.Reaches (step Sha256.hexdigest) (fun _ action => OnRecord original.id action)
        (.init db) w ∧
      (∀ call ∈ w.calls, call.Returned) ∧
      ∃ call ∈ w.calls, ∃ f ∈ call.newlyRedactedFields, ∀ row ∈ Repo.getEvent w.db original.id,
        f ∉ alreadyRedacted row ∧ row.payload.get? f = original.payload.get? f := by
  have hrun : ∃ w ∈ Machine.schedule (step Sha256.hexdigest)
      (fun _ action => OnRecord twoFieldEvent.id action)
      (twoRedactions [0, 1, 0, 1, 0, 1, 0, 0, 0, 0, 0, 0, 0, 1, 1, 1, 1, 1, 1, 1])
      (.init (eventTable twoFieldBody)), (∀ call ∈ w.calls, call.Returned) ∧
        ∃ call ∈ w.calls, ∃ f ∈ call.newlyRedactedFields,
          ∀ row ∈ Repo.getEvent w.db twoFieldEvent.id,
            f ∉ alreadyRedacted row ∧ row.payload.get? f = twoFieldEvent.payload.get? f := by
    decide +kernel
  obtain ⟨w, hw, hlost⟩ := hrun
  exact ⟨eventTable twoFieldBody, twoFieldEvent, w, eventTable_intact (by decide),
    getEvent_twoFieldEvent, Machine.reaches_of_schedule hw, hlost⟩

end AuditLog
