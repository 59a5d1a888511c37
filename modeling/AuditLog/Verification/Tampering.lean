import AuditLog.Verification.Preservation

/-!
# Tampering with one row

What `verify_chain` reports when one row of an intact table was edited directly
in the database, every other row left alone.
-/

namespace AuditLog

variable {sha256 : Bytes → PyStr}

/-- What the content check reports about a row. -/
theorem contentViolation_some {commitments : Commitments} {event : AuditEvent}
    {violation : ChainViolation} (h : contentViolation sha256 commitments event = some violation) :
    violation.recordId = event.id ∧
      violation.violationType =
        if event.redactedAt = none then .eventHashMismatch
        else if Dict.get commitments (.int event.id) = none then .redactionCommitmentMissing
        else .redactedContentMismatch := by
  unfold contentViolation at h
  by_cases hredacted : event.redactedAt = none
  · rw [if_pos hredacted] at h ⊢
    split at h
    · cases h
      exact ⟨rfl, rfl⟩
    · cases h
  · rw [if_neg hredacted] at h ⊢
    cases hget : Dict.get commitments (.int event.id) with
    | none =>
      rw [hget] at h
      cases h
      exact ⟨rfl, rfl⟩
    | some commitment =>
      rw [hget] at h
      dsimp only at h
      split at h
      · cases h
        exact ⟨rfl, rfl⟩
      · cases h

/-- `db'` is `db` with the row `r`, between `before` and `after`, replaced by `r'`. -/
structure RowReplaced (db db' : Database) (before : List AuditEvent) (r r' : AuditEvent)
    (after : List AuditEvent) : Prop where
  rows : db.auditEvents = before ++ r :: after
  rows' : db'.auditEvents = before ++ r' :: after
  id : r'.id = r.id

/-- An edit of hashed columns: the hashed content changes, the hash and the
redaction flag stay. -/
structure ContentTampered (db db' : Database) (before : List AuditEvent) (r r' : AuditEvent)
    (after : List AuditEvent) : Prop extends RowReplaced db db' before r r' after where
  eventHash : r'.eventHash = r.eventHash
  redactedAt : r'.redactedAt = r.redactedAt
  changed : r'.toEventContent.canonical ≠ r.toEventContent.canonical

section Content

variable {db db' : Database} {before after : List AuditEvent} {r r' : AuditEvent}

/-- The edited row no longer has the hash of the row before the edit. -/
theorem ContentTampered.contentHash_ne (h : ContentTampered db db' before r r' after)
    (hsha : CollisionFree sha256 (hashInputs db.auditEvents ∪ hashInputs db'.auditEvents)) :
    contentHash sha256 r' ≠ contentHash sha256 r := by
  intro heq
  have hr : r ∈ db.auditEvents := by simp [h.rows]
  have hr' : r' ∈ db'.auditEvents := by simp [h.rows']
  exact h.changed (hsha (Or.inr (canonical_mem_hashInputs hr'))
    (Or.inl (canonical_mem_hashInputs hr)) heq)

/-- An edit of an unredacted row is never overlooked. -/
theorem ContentTampered.not_intact_of_unredacted (h : ContentTampered db db' before r r' after)
    (hintact : ReportsIntact sha256 db)
    (hsha : CollisionFree sha256 (hashInputs db.auditEvents ∪ hashInputs db'.auditEvents))
    (hredacted : r.redactedAt = none) : ¬ ReportsIntact sha256 db' := by
  intro hintact'
  have hok := (reportsIntact_iff db).mp hintact
  have hok' := (reportsIntact_iff db').mp hintact'
  have hr := hok.content r (by simp [h.rows])
  have hr' := hok'.content r' (by simp [h.rows'])
  rw [contentOk_unredacted hredacted] at hr
  rw [contentOk_unredacted (h.redactedAt.trans hredacted), h.eventHash, ← hr] at hr'
  exact h.contentHash_ne hsha hr'

/-- Replacing a row that commits to nothing by another one changes no commitment. -/
theorem lastCommitment_replaced (h : RowReplaced db db' before r r' after)
    (htype : r.eventType ≠ REDACTION_EVENT_TYPE) (htype' : r'.eventType ≠ REDACTION_EVENT_TYPE)
    (key : HashKey) :
    lastCommitment sha256 db'.auditEvents key = lastCommitment sha256 db.auditEvents key := by
  rw [h.rows, h.rows', lastCommitment_append, lastCommitment_append, lastCommitment,
    lastCommitment, commitmentFor_of_type_ne htype, commitmentFor_of_type_ne htype']

/-- An edit of an ordinary row is reported at exactly this row. -/
theorem ContentTampered.reported (h : ContentTampered db db' before r r' after)
    (hintact : ReportsIntact sha256 db)
    (hsha : CollisionFree sha256 (hashInputs db.auditEvents ∪ hashInputs db'.auditEvents))
    (htype : r.eventType ≠ REDACTION_EVENT_TYPE) (htype' : r'.eventType ≠ REDACTION_EVENT_TYPE) :
    ∃ violation, verifyChain sha256 db' = .ok ⟨false, before.length + 1, some violation⟩ ∧
      violation.recordId = r.id ∧
      violation.violationType =
        if r.redactedAt = none then .eventHashMismatch else .redactedContentMismatch := by
  have hok := (reportsIntact_iff db).mp hintact
  have hlast : ∀ key, lastCommitment sha256 db'.auditEvents key =
      lastCommitment sha256 db.auditEvents key :=
    lastCommitment_replaced h.toRowReplaced htype htype'
  have hrow : ∀ e ∈ before, e ∈ db.auditEvents := fun e he => by simp [h.rows, he]
  have hr := hok.content r (by simp [h.rows])
  have hne := h.contentHash_ne hsha
  have hhashable : ∀ e ∈ db'.auditEvents, HashableTarget sha256 e := by
    intro e he
    rw [h.rows'] at he
    rcases List.mem_append.mp he with he | he
    · exact hok.hashable e (hrow e he)
    · rcases List.mem_cons.mp he with rfl | he
      · exact hashableTarget_of_type_ne htype'
      · exact hok.hashable e (by simp [h.rows, he])
  have hbad : ¬ ContentOk sha256 (lastCommitment sha256 db'.auditEvents (.int r'.id)) r' := by
    rw [hlast, h.id]
    by_cases hredacted : r.redactedAt = none
    · rw [contentOk_unredacted hredacted] at hr
      rw [contentOk_unredacted (h.redactedAt.trans hredacted), h.eventHash, ← hr]
      exact hne
    · rw [contentOk_redacted hredacted] at hr
      rw [contentOk_redacted (by rw [h.redactedAt]; exact hredacted), hr]
      exact fun heq => hne (Json.str.inj (Option.some.inj heq)).symm
  have hlinked : LinkedFrom GENESIS_HASH before := by
    have hl := hok.linked
    rw [h.rows] at hl
    exact ((HashChain.linked_append _ _ _ _ _).mp hl).1
  -- The rows before `r` pass as they did, so `r` is the first to fail.
  rcases verifyChain_first_bad h.rows' hhashable
      (fun e he => by rw [hlast]; exact hok.content e (hrow e he)) hlinked hbad with
    ⟨commitments, violation, hget, hviolation, hreport⟩
  rcases contentViolation_some hviolation with ⟨hid, htype⟩
  refine ⟨violation, hreport, hid.trans h.id, ?_⟩
  rw [htype, h.redactedAt, h.id, hget, hlast]
  by_cases hredacted : r.redactedAt = none
  · rw [if_pos hredacted, if_pos hredacted]
  · rw [contentOk_redacted hredacted] at hr
    rw [if_neg hredacted, if_neg hredacted, hr, if_neg (Option.some_ne_none _)]

/-- A changed `event_hash` breaks the content check or the successor's link. -/
theorem not_intact_of_eventHash_replaced {newHash : PyStr}
    (h : RowReplaced db db' before r { r with eventHash := newHash } after)
    (hintact : ReportsIntact sha256 db) (hne : newHash ≠ r.eventHash)
    (hwhere : r.redactedAt = none ∨ after ≠ []) : ¬ ReportsIntact sha256 db' := by
  intro hintact'
  have hok := (reportsIntact_iff db).mp hintact
  have hok' := (reportsIntact_iff db').mp hintact'
  rcases hwhere with hredacted | hafter
  · have hr := hok.content r (by simp [h.rows])
    have hredacted' : ({ r with eventHash := newHash } : AuditEvent).redactedAt = none := hredacted
    have hr' := hok'.content _ (show { r with eventHash := newHash } ∈ db'.auditEvents by
      simp [h.rows'])
    rw [contentOk_unredacted hredacted] at hr
    rw [contentOk_unredacted hredacted'] at hr'
    exact hne (hr'.symm.trans hr)
  · -- The successor cannot link to both hashes.
    cases after with
    | nil => exact hafter rfl
    | cons next after =>
      have hl := hok.linked
      have hl' := hok'.linked
      rw [h.rows] at hl
      rw [h.rows'] at hl'
      have hnext := ((HashChain.linked_append _ _ _ _ _).mp hl).2.2.1
      have hnext' := ((HashChain.linked_append _ _ _ _ _).mp hl').2.2.1
      exact hne (hnext'.symm.trans hnext)

end Content

/-- **Single-row tampering.** On an intact table: (a) an edit of the hashed
content of an ordinary row that stays ordinary is reported at that row, with the
type of its content check; (b) an edit of an unredacted row that is or becomes a
companion is never reported intact; (c) neither is a change of `event_hash`
alone, on an unredacted row or on a row with a successor. -/
theorem single_row_tampering {db : Database} {before after : List AuditEvent} {r : AuditEvent}
    (hintact : ReportsIntact sha256 db) :
    (∀ (db' : Database) (r' : AuditEvent), ContentTampered db db' before r r' after →
        CollisionFree sha256 (hashInputs db.auditEvents ∪ hashInputs db'.auditEvents) →
        (r.eventType ≠ REDACTION_EVENT_TYPE → r'.eventType ≠ REDACTION_EVENT_TYPE →
          ∃ violation, verifyChain sha256 db' = .ok ⟨false, before.length + 1, some violation⟩ ∧
            violation.recordId = r.id ∧
            violation.violationType =
              if r.redactedAt = none then .eventHashMismatch else .redactedContentMismatch) ∧
        (r.redactedAt = none →
          r.eventType = REDACTION_EVENT_TYPE ∨ r'.eventType = REDACTION_EVENT_TYPE →
          ¬ ReportsIntact sha256 db')) ∧
      (∀ (db' : Database) (newHash : PyStr),
        RowReplaced db db' before r { r with eventHash := newHash } after →
        newHash ≠ r.eventHash → r.redactedAt = none ∨ after ≠ [] →
        ¬ ReportsIntact sha256 db') := by
  constructor
  · intro db' r' htampered hsha
    constructor
    · exact htampered.reported hintact hsha
    · intro hredacted _
      exact htampered.not_intact_of_unredacted hintact hsha hredacted
  · intro db' newHash hreplaced hne hwhere
    exact not_intact_of_eventHash_replaced hreplaced hintact hne hwhere

/-! ## One edit of three rows -/

/-- The redacted event, its companion, and another event. -/
def mixedTable : Database :=
  (createAuditEvent Sha256.hexdigest noFailure redactedTable (createRequest .sample) .sample).2

theorem mixedTable_intact : ReportsIntact Sha256.hexdigest mixedTable := by
  rw [reportsIntact_iff, mixedTable]
  exact chainOk_createAuditEvent ((reportsIntact_iff _).mp redactedTable_intact) (by decide)
    Prod.mk.eta.symm

/-- The table with another actor in the row with the given id. -/
def Database.editActor (db : Database) (id : Int) (actorId : PyStr) : Database :=
  db.mapEvents (fun e => if e.id = id then { e with actorId } else e) fun e => by split <;> rfl

theorem editActor_auditEvents {db : Database} {before after : List AuditEvent} {r : AuditEvent}
    {actorId : PyStr} (hrows : db.auditEvents = before ++ r :: after) :
    (db.editActor r.id actorId).auditEvents = before ++ { r with actorId } :: after := by
  have hordered := db.ordered
  rw [hrows, List.pairwise_append, List.pairwise_cons] at hordered
  obtain ⟨-, ⟨hafter, -⟩, hbefore⟩ := hordered
  have hkeep : ∀ rows : List AuditEvent, (∀ e ∈ rows, e.id ≠ r.id) →
      rows.map (fun e => if e.id = r.id then { e with actorId } else e) = rows := by
    intro rows hothers
    rw [List.map_congr_left fun e he => if_neg (hothers e he), List.map_id']
  show db.auditEvents.map _ = _
  rw [hrows, List.map_append, List.map_cons, if_pos rfl,
    hkeep before fun e he => ne_of_lt (hbefore e he r List.mem_cons_self),
    hkeep after fun e he => (ne_of_lt (hafter e he)).symm]

/-- An edit of the actor, when the rows and the row after the edit have distinct hashes. -/
theorem contentTampered_editActor {db : Database} {before after : List AuditEvent} {r : AuditEvent}
    {actorId : PyStr} (hrows : db.auditEvents = before ++ r :: after)
    (hdistinct : ((db.auditEvents ++ [{ r with actorId }]).map (contentHash sha256)).Nodup) :
    ContentTampered db (db.editActor r.id actorId) before r { r with actorId } after ∧
      CollisionFree sha256
        (hashInputs db.auditEvents ∪ hashInputs (db.editActor r.id actorId).auditEvents) := by
  have hmem : r ∈ db.auditEvents := by
    rw [hrows]
    exact List.mem_append_right _ List.mem_cons_self
  constructor
  · refine { rows := hrows, rows' := editActor_auditEvents hrows, id := rfl, eventHash := rfl
             redactedAt := rfl, changed := fun heq => ?_ }
    rw [List.map_append, List.nodup_append] at hdistinct
    exact hdistinct.2.2 _ (List.mem_map_of_mem hmem) _ List.mem_cons_self
      (congrArg sha256 heq.symm)
  · refine (collisionFree_of_contentHashes _ hdistinct).mono ?_
    rintro input (⟨e, he, rfl⟩ | ⟨e, he, rfl⟩)
    · exact canonical_mem_hashInputs (List.mem_append_left _ he)
    · -- What the edit leaves alone is hashed before it as well.
      rw [editActor_auditEvents hrows] at he
      refine canonical_mem_hashInputs ?_
      rw [hrows]
      simp only [List.mem_append, List.mem_cons, List.not_mem_nil, or_false] at he ⊢
      tauto

/-- An edit of the redacted event, and one of the event after its companion. -/
theorem single_row_tampering_actor :
    (∃ violation, verifyChain Sha256.hexdigest (mixedTable.editActor 1 "q") =
        .ok ⟨false, 1, some violation⟩ ∧
      violation.recordId = 1 ∧ violation.violationType = .redactedContentMismatch) ∧
    ∃ violation, verifyChain Sha256.hexdigest (mixedTable.editActor 3 "q") =
        .ok ⟨false, 3, some violation⟩ ∧
      violation.recordId = 3 ∧ violation.violationType = .eventHashMismatch := by
  have hfacts : mixedTable.auditEvents.map (fun e =>
      (e.id, decide (e.eventType = REDACTION_EVENT_TYPE), decide (e.redactedAt = none))) =
        [(1, false, false), (2, true, true), (3, false, true)] := by
    decide +kernel
  have hdistinct : ∀ r ∈ mixedTable.auditEvents, ((mixedTable.auditEvents ++
      [{ r with actorId := "q" }]).map (contentHash Sha256.hexdigest)).Nodup := by
    decide +kernel
  obtain ⟨r₁, r₂, r₃, hrows⟩ : ∃ r₁ r₂ r₃, mixedTable.auditEvents = [r₁, r₂, r₃] :=
    List.length_eq_three.mp (by rw [← List.length_map, hfacts]; rfl)
  have hintact : ReportsIntact Sha256.hexdigest mixedTable := mixedTable_intact
  generalize mixedTable = db at hfacts hdistinct hrows hintact
  rw [hrows] at hfacts
  simp only [List.map_cons, List.map_nil, List.cons.injEq, Prod.mk.injEq, decide_eq_false_iff_not,
    decide_eq_true_eq, and_true] at hfacts
  obtain ⟨⟨hid₁, htype₁, hredacted₁⟩, -, hid₃, htype₃, hredacted₃⟩ := hfacts
  constructor
  · have hfirst : db.auditEvents = [] ++ r₁ :: [r₂, r₃] := hrows
    obtain ⟨htampered, hsha⟩ := contentTampered_editActor hfirst (hdistinct r₁ (by simp [hrows]))
    obtain ⟨violation, hverified, hid, htype⟩ :=
      ((single_row_tampering hintact).1 _ _ htampered hsha).1 htype₁ htype₁
    rw [hid₁] at hverified hid
    rw [if_neg hredacted₁] at htype
    exact ⟨violation, hverified, hid, htype⟩
  · have hlast : db.auditEvents = [r₁, r₂] ++ r₃ :: [] := hrows
    obtain ⟨htampered, hsha⟩ := contentTampered_editActor hlast (hdistinct r₃ (by simp [hrows]))
    obtain ⟨violation, hverified, hid, htype⟩ :=
      ((single_row_tampering hintact).1 _ _ htampered hsha).1 htype₃ htype₃
    rw [hid₃] at hverified hid
    rw [if_pos hredacted₃] at htype
    exact ⟨violation, hverified, hid, htype⟩

end AuditLog
