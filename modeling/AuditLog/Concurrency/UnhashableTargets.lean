import AuditLog.Concurrency.ForgedRedaction

/-!
# When `verify_chain` has an answer

`_latest_redaction_commitments` uses whatever a companion has under `targetEventId`
as a dict key, and any writer can post an event of the companions' type. A list or
an object there raises. In a run, the step that commits such a row is the one
that takes the answer away.
-/

namespace AuditLog

variable {sha256 : Bytes → PyStr} {settings : Settings}

/-! ## Rows that raise -/

/-- A companion's type, a target that is no dict key, and a commitment. -/
def UnhashableCompanion (eventType : PyStr) (payload : Payload) : Prop :=
  eventType = REDACTION_EVENT_TYPE ∧ hashKey (payload.get "targetEventId") = none ∧
    payload.get "redactedContentHash" ≠ .null

instance (eventType : PyStr) (payload : Payload) : Decidable (UnhashableCompanion eventType payload) :=
  inferInstanceAs (Decidable (_ ∧ _ ∧ _))

/-- The rows that the commitment loop raises on: it looks only at rows that vouch for
their own content. -/
theorem not_hashableTarget_iff {event : AuditEvent} :
    ¬ HashableTarget sha256 event ↔ UnhashableCompanion event.eventType event.payload ∧
      contentHash sha256 event = event.eventHash := by
  rw [hashableTarget_iff]
  constructor
  · intro h
    push Not at h
    obtain ⟨⟨htype, htrusted⟩, -, hcommitment, hkey⟩ := h
    exact ⟨⟨htype, hkey, hcommitment⟩, htrusted⟩
  · rintro ⟨⟨htype, hkey, hcommitment⟩, htrusted⟩ h
    have htarget : event.payload.get "targetEventId" ≠ .null := by
      intro hnull
      rw [hnull] at hkey
      cases hkey
    exact h ⟨htype, htrusted⟩ htarget hcommitment hkey

/-! ## Steps that commit one -/

namespace Call

/-- The request whose row the next step of the call commits. -/
def commitsAppend? (call : Call settings) : Option (CreateRequest settings) :=
  match call.append? with
  | some (req, .recorded _ _) => some req
  | _ => none

/-- The row that the next step of the call writes, in the place of `row`. -/
def commitsPayload? (sha256 : Bytes → PyStr) (row : AuditEvent) : Call settings → Option AuditEvent
  | .redact req (.redacting event) =>
    if row.id = req.eventId then
      some ((redactionUpdate sha256 event (fieldsToRedact event req.fields) req.now).apply row)
    else none
  | _ => none

/-- The row as the payload commit of the redaction leaves it. -/
theorem commitsPayload?_redacting (row event : AuditEvent) (req : RedactRequest) :
    (redact req (.redacting event) : Call settings).commitsPayload? sha256 row =
      if row.id = req.eventId then
        some ((redactionUpdate sha256 event (fieldsToRedact event req.fields) req.now).apply row)
      else none := rfl

end Call

/-- The step commits a row that the commitment loop raises on: the row of a client's
request, or a redacted row that still vouches for itself. -/
def CommitsUnhashable (sha256 : Bytes → PyStr) (w : World settings) : Action settings → Prop
  | .advance c _ => ∃ call ∈ w.calls[c]?,
      (∃ req ∈ call.commitsAppend?,
        UnhashableCompanion req.eventIn.eventType req.eventIn.payload) ∨
      ∃ row ∈ w.db.auditEvents, ∃ written ∈ call.commitsPayload? sha256 row,
        UnhashableCompanion written.eventType written.payload ∧
          contentHash sha256 written = written.eventHash
  | _ => False

instance (w : World settings) : (action : Action settings) →
    Decidable (CommitsUnhashable sha256 w action)
  | .advance c _ => inferInstanceAs (Decidable (∃ call ∈ w.calls[c]?, _ ∨ _))
  | .startCreate _ | .startRedact _ | .rollback _ _ | .applyRetention _ _ _ => isFalse id

/-- Every row can be digested. -/
def Answerable (sha256 : Bytes → PyStr) (db : Database) : Prop :=
  ∀ e ∈ db.auditEvents, HashableTarget sha256 e

/-- One row that cannot be digested makes `verify_chain` raise. -/
theorem verifyChain_error_of_not_answerable {db : Database} (h : ¬ Answerable sha256 db) :
    ∃ err, verifyChain sha256 db = .error err := by
  cases hresult : verifyChain sha256 db with
  | ok result => exact absurd ((verifyChain_answers_iff db).mp ⟨result, hresult⟩) h
  | error err => exact ⟨err, rfl⟩

/-- The row that a client's append commits vouches for itself. -/
theorem Staged.hashableTarget_iff {db : Database} {req : CreateRequest settings} {event : AuditEvent}
    (h : Staged sha256 db req event) : HashableTarget sha256 event ↔
      ¬ UnhashableCompanion req.eventIn.eventType req.eventIn.payload := by
  have hnot : ¬ HashableTarget sha256 event ↔ _ := not_hashableTarget_iff
  rw [h.eventType, h.payload] at hnot
  constructor
  · intro hhashable hbad
    exact hnot.mpr ⟨hbad, h.hash.symm⟩ hhashable
  · intro hgood
    by_contra hbad
    exact hgood (hnot.mp hbad).1

/-- Updates outside the hashed content do not matter. -/
theorem answerable_of_keepsVerified {f : AuditEvent → AuditEvent} (hf : KeepsVerified f)
    {db : Database} (hid : ∀ e, (f e).id = e.id) :
    Answerable sha256 (db.mapEvents f hid) ↔ Answerable sha256 db := by
  have hhashable : ∀ e, HashableTarget sha256 (f e) ↔ HashableTarget sha256 e := by
    intro e
    unfold HashableTarget
    rw [hf.commitmentOf]
  show (∀ e ∈ db.auditEvents.map f, _) ↔ _
  rw [List.forall_mem_map]
  exact forall₂_congr fun e _ => hhashable e

/-! ## Step by step -/

variable {w w' : World settings}

/-- A commit of an append does not fail: the flush has reserved the id. -/
theorem AppendMove.appended_of_recorded {db : Database} {lock : Option Nat} {c : Nat}
    {req : CreateRequest settings} {event : AuditEvent} {record : Option IdempotencyKey}
    {s : AppendStep} (h : AppendMove sha256 db lock c req (.recorded event record) s)
    (hstaged : Staged sha256 db req event) : s.db.auditEvents = db.auditEvents ++ [event] := by
  cases h with
  | commit hcommit => exact (Repo.commitAppend_cases hstaged.last hcommit).1
  | commitFails hfails =>
    have hok : ∃ db', Repo.commitAppend noFailure db event record = .ok db' :=
      Repo.commitAppend_ok record rfl hstaged.drawn hstaged.last
    obtain ⟨db', hcommit⟩ := hok
    rw [hcommit] at hfails
    cases hfails

/-- A step of an append. -/
theorem answerable_append_iff (hd : Disciplined sha256 w) (h : Answerable sha256 w.db) {c : Nat}
    {call : Call settings} {req : CreateRequest settings} {phase : AppendPhase} {s : AppendStep}
    (hcall : w.calls[c]? = some call) (happend : call.append? = some (req, phase))
    (hmove : AppendMove sha256 w.db w.lock c req phase s) :
    Answerable sha256 s.db ↔ ∀ create ∈ call.commitsAppend?,
      ¬ UnhashableCompanion create.eventIn.eventType create.eventIn.payload := by
  have happending : w.Appending c req phase := ⟨call, hcall, happend⟩
  -- Only the commit of the recorded row adds one.
  by_cases hrecorded : ∃ event record, phase = .recorded event record
  · obtain ⟨event, record, rfl⟩ := hrecorded
    have hstaged : Staged sha256 w.db req event := hd.phase happending
    have hcommits : call.commitsAppend? = some req := by
      unfold Call.commitsAppend?
      rw [happend]
    unfold Answerable
    rw [hcommits, hmove.appended_of_recorded hstaged]
    constructor
    · rintro hrows create ⟨⟩
      exact hstaged.hashableTarget_iff.mp (hrows event List.mem_concat_self)
    · intro hgood e he
      rcases List.mem_append.mp he with he | he
      · exact h e he
      · rw [List.mem_singleton.mp he]
        exact hstaged.hashableTarget_iff.mpr (hgood req rfl)
  · -- Before its commit an append leaves the rows as they are.
    have hrows : s.db.auditEvents = w.db.auditEvents := by
      rcases hmove.effect (hd.phase happending) with ⟨hrows, -⟩ | ⟨event, record, hphase, -⟩
      · exact hrows
      · exact absurd ⟨event, record, hphase⟩ hrecorded
    have hcommits : call.commitsAppend? = none := by
      unfold Call.commitsAppend?
      rw [happend]
      split
      · rename_i heq
        cases heq
        exact absurd ⟨_, _, rfl⟩ hrecorded
      · rfl
    unfold Answerable
    rw [hcommits, hrows]
    exact iff_of_true h fun _ hnone => by cases hnone

/-- The payload commit of a redaction. -/
theorem answerable_write_iff (h : Answerable sha256 w.db) {req : RedactRequest} {event : AuditEvent} :
    Answerable sha256 (Repo.redactEventFields w.db req.eventId
        (redactionUpdate sha256 event (fieldsToRedact event req.fields) req.now)) ↔
      ∀ row ∈ w.db.auditEvents,
        ∀ written ∈ (.redact req (.redacting event) : Call settings).commitsPayload? sha256 row,
          HashableTarget sha256 written := by
  show (∀ e ∈ w.db.auditEvents.map _, _) ↔ _
  rw [List.forall_mem_map]
  refine forall₂_congr fun row hrow => ?_
  rw [Call.commitsPayload?_redacting]
  by_cases hid : row.id = req.eventId
  · simp only [hid, if_true, Option.mem_def, Option.some.injEq, forall_eq']
  · simp only [hid, if_false, Option.mem_def, reduceCtorEq, false_implies, implies_true, iff_true]
    exact h row hrow

/-- What a session is about to commit, in terms of the rows themselves. -/
theorem commitsUnhashable_advance_iff {c : Nat} {now : DateTime} {call : Call settings}
    (hcall : w.calls[c]? = some call) : CommitsUnhashable sha256 w (.advance c now) ↔
      (∃ req ∈ call.commitsAppend?,
        UnhashableCompanion req.eventIn.eventType req.eventIn.payload) ∨
      ∃ row ∈ w.db.auditEvents, ∃ written ∈ call.commitsPayload? sha256 row,
        ¬ HashableTarget sha256 written := by
  simp only [CommitsUnhashable, hcall, Option.mem_def, Option.some.injEq, exists_eq_left',
    not_hashableTarget_iff]

/-- **The step that takes the answer away** is the one that commits an unhashable
companion. -/
theorem Transition.answerable_iff {action : Action settings} (hstep : Transition sha256 w action w')
    (hd : Disciplined sha256 w) (h : Answerable sha256 w.db) :
    Answerable sha256 w'.db ↔ ¬ CommitsUnhashable sha256 w action := by
  cases hstep with
  | create req => exact iff_of_true h id
  | redact req => exact iff_of_true h id
  | rollback statement hcall hrunning => exact iff_of_true h id
  | retention days now archiveNow =>
    refine iff_of_true ?_ id
    show Answerable sha256 (applyRetention w.db days now archiveNow).2
    unfold applyRetention
    split
    · exact h
    · rename_i cutoff hcutoff
      have hkeeps := keepsVerified_archive cutoff archiveNow
      exact (answerable_of_keepsVerified hkeeps hkeeps.id).mpr h
  | @append c now call req phase s hcall happend hmove =>
    rw [answerable_append_iff hd h hcall happend hmove, commitsUnhashable_advance_iff hcall]
    -- An append writes no payload.
    have hnone : ∀ row, call.commitsPayload? sha256 row = none := by
      intro row
      unfold Call.commitsPayload?
      split
      · cases happend
      · rfl
    simp [hnone]
  | @redaction c now req phase phase' db' hcall hmove =>
    rw [commitsUnhashable_advance_iff hcall]
    have hnone : (Call.redact req phase).commitsAppend? = none := by
      unfold Call.commitsAppend?
      cases hmove <;> rfl
    -- Of the statements of a redaction, only the `UPDATE` writes a payload.
    have hothers : (∀ event, phase ≠ .redacting event) → ∀ row,
        (Call.redact req phase).commitsPayload? sha256 row = none := by
      intro hphase row
      unfold Call.commitsPayload?
      split
      · rename_i heq
        cases heq
        exact absurd rfl (hphase _)
      · rfl
    cases hmove with
    | write =>
      rw [answerable_write_iff h, hnone]
      simp
    | _ =>
      have hquiet := hothers (by rintro event ⟨⟩)
      simp only [hnone, hquiet]
      exact iff_of_true h (by simp)

/-- **While no unhashable companion is committed, `verify_chain` answers**, in every
state that a run reaches; the step that commits one leaves a table on which it raises. -/
theorem verifyChain_answers_unless_unhashable (sha256 : Bytes → PyStr) (settings : Settings) :
    (∀ w : World settings,
      Machine.Reaches (step sha256) (fun w action => ¬ CommitsUnhashable sha256 w action)
        (.init .empty) w →
      ∃ result, verifyChain sha256 w.db = .ok result) ∧
    ∀ (w w' : World settings) (action : Action settings),
      Machine.Reaches (step sha256) (fun w action => ¬ CommitsUnhashable sha256 w action)
        (.init .empty) w →
      step sha256 action w = some w' → CommitsUnhashable sha256 w action →
      ∃ err, verifyChain sha256 w'.db = .error err := by
  have hanswers : ∀ w : World settings,
      Machine.Reaches (step sha256) (fun w action => ¬ CommitsUnhashable sha256 w action)
        (.init .empty) w → Answerable sha256 w.db := by
    intro w hw
    refine hw.invariant (P := fun w => Answerable sha256 w.db) (by rintro e ⟨⟩) ?_
    intro t u action run hok hstep ht
    exact ((step_cases hstep).answerable_iff (disciplined_of_reaches run) ht).mpr hok
  constructor
  · intro w hw
    exact (verifyChain_answers_iff w.db).mpr (hanswers w hw)
  · intro w w' action hw hstep hcommits
    refine verifyChain_error_of_not_answerable fun hafter => ?_
    exact ((step_cases hstep).answerable_iff (disciplined_of_reaches hw) (hanswers w hw)).mp hafter
      hcommits

/-! ## A list as a target -/

/-- A body whose target is a list. -/
def listTargetBody : AuditEventCreate {} :=
  ⟨REDACTION_EVENT_TYPE, "b", "c", "d",
    ⟨[("targetEventId", .arr []), ("redactedContentHash", .str "e")], by decide⟩, by decide +kernel⟩

/-- **One such event, and `verify_chain` raises.** -/
theorem list_target_stops_verifyChain :
    ∃ w : World {}, Machine.Reaches (step Sha256.hexdigest) (fun _ _ => True) (.init .empty) w ∧
      ¬ ∃ result, verifyChain Sha256.hexdigest w.db = .ok result := by
  have hrun : ∃ w ∈ Machine.schedule (step Sha256.hexdigest) (fun _ _ => True)
      (createAlone 0 listTargetBody) (.init .empty),
        verifyChain Sha256.hexdigest w.db = .error ⟨.arr []⟩ := by
    decide +kernel
  obtain ⟨w, hw, hraises⟩ := hrun
  refine ⟨w, Machine.reaches_of_schedule hw, ?_⟩
  rw [hraises]
  rintro ⟨result, ⟨⟩⟩

/-- An ordinary event first, and the list as a target up to its commit. -/
theorem verifyChain_answers_unless_unhashable_list :
    ∃ w w' : World {}, Machine.schedule (step Sha256.hexdigest)
        (fun w action => ¬ CommitsUnhashable Sha256.hexdigest w action)
        (createAlone 0 .sample ++ (createAlone 1 listTargetBody).take 6) (.init .empty) = some w ∧
      step Sha256.hexdigest (.advance 1 .sample) w = some w' ∧
      (∃ result, verifyChain Sha256.hexdigest w.db = .ok result) ∧
      ∃ err, verifyChain Sha256.hexdigest w'.db = .error err := by
  have hrun : ∃ w ∈ Machine.schedule (step Sha256.hexdigest)
      (fun w action => ¬ CommitsUnhashable Sha256.hexdigest w action)
      (createAlone 0 .sample ++ (createAlone 1 listTargetBody).take 6) (.init .empty),
        CommitsUnhashable Sha256.hexdigest w (.advance 1 .sample) ∧
          (step Sha256.hexdigest (.advance 1 .sample) w).isSome = true := by
    decide +kernel
  obtain ⟨w, hw, hcommits, hstep⟩ := hrun
  obtain ⟨w', hstep⟩ := Option.isSome_iff_exists.mp hstep
  obtain ⟨hanswers, hraises⟩ := verifyChain_answers_unless_unhashable Sha256.hexdigest {}
  have hreached := Machine.reaches_of_schedule hw
  exact ⟨w, w', hw, hstep, hanswers w hreached, hraises w w' _ hreached hstep hcommits⟩

end AuditLog
