import AuditLog.Concurrency.StoredPayloads

/-!
# Versions of a row

Every copy of a row that the table holds, or that a call has returned, is a version of the
row as it was committed: the same columns and the same keys of the payload, with some
fields redacted. In the table a version is followed by versions that stay archived and
stay marked as redacted, and new rows come after all others.
-/

namespace AuditLog

variable {sha256 : Bytes → PyStr} {settings : Settings} {w w' : World settings}
  {action : Action settings}

/-! ## Keys -/

/-- The payloads have the same keys. -/
def SameKeys (a b : AuditEvent) : Prop := ∀ f, b.payload.contains f = a.payload.contains f

/-- Payloads that answer every lookup alike have the same keys. -/
theorem sameKeys_of_payload {a b : AuditEvent} (h : ∀ f, b.payload.get? f = a.payload.get? f) :
    SameKeys a b := by
  intro f
  unfold Payload.contains
  rw [h f]

/-- A redaction writes to keys that are there. -/
theorem SameKeys.written {created event row : AuditEvent} {req : RedactRequest}
    (h : SameKeys created event) : SameKeys created (writtenRow sha256 req event row) := by
  intro f
  rw [← h f]
  show ((redactedPayload event (fieldsToRedact event req.fields)).get? f).isSome = _
  rw [get?_redactedPayload]
  split
  · rename_i hf
    exact (mem_fieldsToRedact.mp hf).2.1.symm
  · rfl

/-- The keys of every stored row, and of every row in hand, are those it was created with. -/
structure KeysKept (w : World settings) : Prop where
  rows : ∀ e ∈ w.db.auditEvents, ∃ created ∈ w.history, created.id = e.id ∧ SameKeys created e
  inHand : ∀ req event, InHand w req event →
    ∃ created ∈ w.history, created.id = req.eventId ∧ SameKeys created event

/-- One step keeps the keys: a redaction writes to the keys of the row that it has read. -/
theorem KeysKept.step (h : KeysKept w) (hd : Disciplined sha256 w) (hs : Stored sha256 w)
    (hstep : Transition sha256 w action w') : KeysKept w' where
  rows := by
    intro e he
    -- A row of the next state was there, or was redacted, archived or committed just now.
    rcases hstep.mem_rows hd he with
      hold | ⟨req, event, hhand, row, hrow, hid, rfl⟩ | ⟨row, hrow, archivedAt, rfl⟩ |
        ⟨c, req, record, call, hcall, happend⟩
    · exact (h.rows e hold).imp fun _ hcreated => ⟨hstep.history_subset hcreated.1, hcreated.2⟩
    · obtain ⟨created, hcreated, hcreatedId, hkeys⟩ := h.inHand req event hhand
      exact ⟨created, hstep.history_subset hcreated, hcreatedId.trans hid.symm, hkeys.written⟩
    · exact (h.rows row hrow).imp fun _ hcreated => ⟨hstep.history_subset hcreated.1, hcreated.2⟩
    · -- The row has just been committed: nothing of it is redacted.
      have hpristine := (hs.calls call (List.mem_of_getElem? hcall)).staged req _ e happend rfl
      obtain ⟨created, hcreated, hrow⟩ :=
        HashChain.exists_of_forall₂_right (hs.rows_step hd hstep) he
      refine ⟨created, hcreated, hrow.retouched.id.symm, sameKeys_of_payload fun f => ?_⟩
      rw [hrow.payload f, hpristine.alreadyRedacted]
      simp
  inHand := by
    intro req event hhand
    -- A row in hand was there before, or has just been read from the table.
    have hbefore : ∃ created ∈ w.history, created.id = req.eventId ∧ SameKeys created event := by
      rcases hstep.inHand hhand with hhand | hfound
      · exact h.inHand req event hhand
      · obtain ⟨hmem, hid⟩ := (Repo.getEvent_eq_some_iff _ _ _).mp hfound
        rw [← hid]
        exact h.rows event hmem
    exact hbefore.imp fun _ hcreated => ⟨hstep.history_subset hcreated.1, hcreated.2⟩

/-- In every state reached the keys are those of the creation. -/
theorem keysKept_of_reaches {ok : World settings → Action settings → Prop}
    (h : Machine.Reaches (step sha256) ok (.init .empty) w) : KeysKept w := by
  refine h.invariant (P := KeysKept) ⟨?_, ?_⟩ fun t u action run _ hstep ht =>
    ht.step (disciplined_of_reaches run) (stored_of_reaches run) (step_cases hstep)
  · intro e he
    cases he
  · rintro req event ⟨phase, hmem, -⟩
    cases hmem

/-! ## Versions -/

/-- The row is a version of one that was committed. -/
def IsVersion (sha256 : Bytes → PyStr) (w : World settings) (e : AuditEvent) : Prop :=
  ∃ created ∈ w.history, RedactedFrom sha256 created e ∧ SameKeys created e

/-- A version stays one: the history only grows. -/
theorem IsVersion.step {e : AuditEvent} (h : IsVersion sha256 w e)
    (hstep : Transition sha256 w action w') : IsVersion sha256 w' e :=
  h.imp fun _ hcreated => ⟨hstep.history_subset hcreated.1, hcreated.2⟩

/-- The rows of the table are versions. -/
theorem isVersion_of_reaches {ok : World settings → Action settings → Prop}
    (h : Machine.Reaches (step sha256) ok (.init .empty) w) {e : AuditEvent}
    (he : e ∈ w.db.auditEvents) : IsVersion sha256 w e := by
  have hstored := stored_of_reaches h
  obtain ⟨created, hcreated, hrow⟩ := HashChain.exists_of_forall₂_right hstored.rows he
  obtain ⟨created', hcreated', hid, hkeys⟩ := (keysKept_of_reaches h).rows e he
  -- Both creations have the id of the row, so they are one.
  obtain rfl := hstored.eq_of_id_eq hcreated' hcreated (hid.trans hrow.retouched.id)
  exact ⟨created', hcreated, hrow, hkeys⟩

/-- What a create has returned is a version. -/
def ReturnsVersions (sha256 : Bytes → PyStr) (w : World settings) : Prop :=
  ∀ req e, Call.create req (.ended (.ok e)) ∈ w.calls → IsVersion sha256 w e

/-- One step: a create that ends returns a row of the table. -/
theorem ReturnsVersions.step (h : ReturnsVersions sha256 w)
    (hrows : ∀ e ∈ w.db.auditEvents, IsVersion sha256 w e)
    (hstep : Transition sha256 w action w') : ReturnsVersions sha256 w' := by
  intro req e hmem
  refine IsVersion.step ?_ hstep
  obtain ⟨d, hcall⟩ := List.mem_iff_getElem?.mp hmem
  generalize hnew : Call.create req (.ended (.ok e)) = call at hcall
  cases hstep.callStep hcall with
  | stays hold =>
    subst hnew
    exact h req e (List.mem_of_getElem? hold)
  | create req' => cases hnew
  | redact req' => cases hnew
  | @append old req' phase s hold happend hmove =>
    rcases old with ⟨req₀, phase₀⟩ | ⟨req₀, phase₀⟩
    · obtain ⟨-, hphase⟩ := Call.create.inj hnew
      -- The call ends with a replay, or with its row as it reads it again.
      cases hmove with
      | replay hreplay =>
        cases hphase
        exact hrows e (replayOrConflict_ok hreplay).1
      | refresh hfound =>
        cases hphase
        exact hrows e ((Repo.getEvent_eq_some_iff _ _ _).mp hfound).1
      | _ => cases hphase
    · cases phase₀ <;> cases hnew
  | redaction hold hmove => cases hnew
  | @rollback old err hold => cases old <;> cases hnew

/-- In every state reached, what the creates have returned are versions. -/
theorem returnsVersions_of_reaches {ok : World settings → Action settings → Prop}
    (h : Machine.Reaches (step sha256) ok (.init .empty) w) : ReturnsVersions sha256 w := by
  refine h.invariant (P := ReturnsVersions sha256) ?_ fun t u action run _ hstep ht =>
    ht.step (fun e he => isVersion_of_reaches run he) (step_cases hstep)
  intro req e hmem
  cases hmem

/-! ## The table over time -/

/-- The row at a later time. -/
structure Continues (a b : AuditEvent) : Prop where
  retouched : Retouched a b
  archivedAt : a.archivedAt ≠ none → b.archivedAt = a.archivedAt
  redactedAt : a.redactedAt ≠ none → b.redactedAt ≠ none
  redactedFields : a.redactedFields ≠ none → b.redactedFields ≠ none

theorem Continues.refl (e : AuditEvent) : Continues e e := ⟨Retouched.refl e, fun _ => rfl, id, id⟩

/-- What was archived or redacted once stays so along a chain of later rows. -/
theorem Continues.trans {a b c : AuditEvent} (h : Continues a b) (h' : Continues b c) :
    Continues a c where
  retouched := h.retouched.trans h'.retouched
  archivedAt := fun ha => by
    have hb := h.archivedAt ha
    rw [h'.archivedAt (by rwa [hb]), hb]
  redactedAt := fun ha => h'.redactedAt (h.redactedAt ha)
  redactedFields := fun ha => h'.redactedFields (h.redactedFields ha)

theorem continues_refl (events : List AuditEvent) : List.Forall₂ Continues events events :=
  List.forall₂_same.mpr fun e _ => Continues.refl e

/-- A redaction marks its row and leaves the others. -/
theorem continues_redactEventFields (db : Database) (eventId : Int) (u : Repo.RedactionUpdate) :
    List.Forall₂ Continues db.auditEvents (Repo.redactEventFields db eventId u).auditEvents := by
  show List.Forall₂ _ _ (List.map _ _)
  rw [List.forall₂_map_right_iff]
  refine List.forall₂_same.mpr fun e _ => ?_
  split
  · exact ⟨rfl, fun _ => rfl, fun _ => Option.some_ne_none _, fun _ => Option.some_ne_none _⟩
  · exact Continues.refl e

/-- Retention archives rows that were not archived. -/
theorem continues_applyRetention (db : Database) (days : Int) (now archiveNow : DateTime) :
    List.Forall₂ Continues db.auditEvents (applyRetention db days now archiveNow).2.auditEvents := by
  unfold applyRetention
  split
  · exact continues_refl _
  · show List.Forall₂ _ _ (List.map _ _)
    rw [List.forall₂_map_right_iff]
    refine List.forall₂_same.mpr fun e _ => ?_
    split
    · rename_i hactive
      exact ⟨rfl, fun harchived => absurd hactive.1 harchived, id, id⟩
    · exact Continues.refl e

/-- **What a step leaves of the rows**: each one in its place, archived or marked as redacted if it
was, and new rows behind them. -/
theorem Transition.continues (hd : Disciplined sha256 w) (h : Transition sha256 w action w') :
    ∃ kept added, w'.db.auditEvents = kept ++ added ∧
      List.Forall₂ Continues w.db.auditEvents kept := by
  -- Most statements leave the table as it is.
  have hsame : ∃ kept added, w.db.auditEvents = kept ++ added ∧
      List.Forall₂ Continues w.db.auditEvents kept :=
    ⟨_, [], (List.append_nil _).symm, continues_refl _⟩
  cases h with
  | create req => exact hsame
  | redact req => exact hsame
  | @append c now call req phase s hcall happend hmove =>
    have happending : w.Appending c req phase := ⟨call, hcall, happend⟩
    rcases hmove.effect (hd.phase happending) with
      ⟨hrows, -⟩ | ⟨event, record, rfl, -, hcommit, -⟩
    · rw [hrows]
      exact hsame
    · have hstaged : Staged sha256 w.db req event := hd.phase happending
      exact ⟨_, [event], (Repo.commitAppend_cases hstaged.last hcommit).1, continues_refl _⟩
  | redaction hcall hmove =>
    cases hmove with
    | write =>
      exact ⟨_, [], (List.append_nil _).symm, continues_redactEventFields w.db _ _⟩
    | _ => exact hsame
  | rollback statement hcall hrunning => exact hsame
  | retention days now archiveNow =>
    exact ⟨_, [], (List.append_nil _).symm, continues_applyRetention w.db days now archiveNow⟩

end AuditLog
