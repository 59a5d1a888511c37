import AuditLog.Concurrency.LinearChain
import AuditLog.Concurrency.RedactionRuns

/-!
# The rows of a reachable table

A row is inserted without archival or redaction columns. From then on it is the row
as it was created with some fields redacted, and so is every copy of it that a call
computes from: redactions that do not see each other may undo each other, but none
of them writes anything else.
-/

namespace AuditLog

variable {sha256 : Bytes → PyStr} {settings : Settings}

/-! ## New rows -/

/-- The row as an append inserts it: the columns of archival and redaction are null. -/
def AuditEvent.Pristine (e : AuditEvent) : Prop :=
  e = { toEventContent := e.toEventContent, id := e.id, eventHash := e.eventHash }

theorem AuditEvent.Pristine.alreadyRedacted {e : AuditEvent} (h : e.Pristine) :
    alreadyRedacted e = [] := by
  rw [h]
  rfl

theorem AuditEvent.Pristine.archivedAt {e : AuditEvent} (h : e.Pristine) : e.archivedAt = none := by
  rw [h]

/-- The row that an append has flushed and not committed yet. -/
def AppendPhase.staged? : AppendPhase → Option AuditEvent
  | .flushed event => some event
  | .recorded event _ => some event
  | _ => none

/-- What an append stages is new. -/
theorem AppendMove.pristine {db : Database} {lock : Option Nat} {c : Nat} {req : CreateRequest settings}
    {phase : AppendPhase} {s : AppendStep} (h : AppendMove sha256 db lock c req phase s)
    (hphase : ∀ event, phase.staged? = some event → event.Pristine) :
    ∀ event, s.phase.staged? = some event → event.Pristine := by
  intro event hsome
  cases h with
  | flush hstage =>
    cases hsome
    rcases (Repo.insertEvent_cases hstage).2 with ⟨err, herr⟩ | ⟨hok, -⟩
    · cases herr
    · rw [Except.ok.inj hok]
      rfl
  | record hrecord => exact hphase event hsome
  | _ => cases hsome

/-- A step stages nothing but new rows. -/
theorem Transition.staged {w w' : World settings} {action : Action settings}
    (hstep : Transition sha256 w action w')
    (h : ∀ call ∈ w.calls, ∀ req phase event, call.append? = some (req, phase) →
      phase.staged? = some event → event.Pristine) :
    ∀ call ∈ w'.calls, ∀ req phase event, call.append? = some (req, phase) →
      phase.staged? = some event → event.Pristine := by
  intro call hmem req phase event happend hstaged
  obtain ⟨d, hcall⟩ := List.mem_iff_getElem?.mp hmem
  cases hstep.callStep hcall with
  | stays hold => exact h call (List.mem_of_getElem? hold) req phase event happend hstaged
  | create req' =>
    cases happend
    cases hstaged
  | redact req' => cases happend
  | @append old req' phase' s hold hbefore hmove =>
    rw [(Call.append?_resume hbefore happend).2] at hstaged
    have hnew := h old (List.mem_of_getElem? hold) req' phase'
    exact hmove.pristine (fun event => hnew event hbefore) event hstaged
  | redaction hold hmove =>
    rw [hmove.append?_eq_start happend] at hstaged
    cases hstaged
  | rollback err hold =>
    rw [Call.append?_raised happend] at hstaged
    cases hstaged

/-! ## Rows in hand -/

/-- A redaction of `req` has the row in hand. -/
def InHand (w : World settings) (req : RedactRequest) (event : AuditEvent) : Prop :=
  ∃ phase, Call.redact req phase ∈ w.calls ∧ phase.read? = some event

/-- A row in hand after a step was in hand before it, or has just been read. -/
theorem Transition.inHand {w w' : World settings} {action : Action settings}
    (h : Transition sha256 w action w') {req : RedactRequest} {event : AuditEvent}
    (hhand : InHand w' req event) :
    InHand w req event ∨ Repo.getEvent w.db req.eventId = some event := by
  obtain ⟨phase, hmem, hread⟩ := hhand
  obtain ⟨d, hcall⟩ := List.mem_iff_getElem?.mp hmem
  generalize hnew : Call.redact req phase = call at hcall
  cases h.callStep hcall with
  | stays hold =>
    subst hnew
    exact Or.inl ⟨phase, List.mem_of_getElem? hold, hread⟩
  | create req' => cases hnew
  | redact req' =>
    cases hnew
    cases hread
  | @append old req' phase' s hold happend hmove =>
    rcases old with ⟨req₀, phase₀⟩ | ⟨req₀, phase₀⟩
    · cases hnew
    · cases phase₀ with
      | appending read updated body append =>
        cases hnew
        rw [RedactPhase.read?_afterAppend hread]
        exact Or.inl ⟨_, List.mem_of_getElem? hold, rfl⟩
      | _ => cases happend
  | redaction hold hmove =>
    cases hnew
    -- The call reads the row, or goes on with the one that it has read.
    cases hmove with
    | read hfound hsome =>
      cases hread
      exact Or.inr hfound
    | write =>
      cases hread
      exact Or.inl ⟨_, List.mem_of_getElem? hold, rfl⟩
    | refresh hfound hbody =>
      cases hread
      exact Or.inl ⟨_, List.mem_of_getElem? hold, rfl⟩
    | _ => cases hread
  | @rollback old err hold =>
    cases old <;> cases hnew
    cases hread

/-! ## Rows on their way -/

/-- Columns that no redaction writes do not matter. -/
theorem RedactedFrom.of_same {original row row' : AuditEvent} (h : RedactedFrom sha256 original row)
    (hretouched : Retouched row row') (hpayload : row'.payload = row.payload)
    (hfields : row'.redactedFields = row.redactedFields)
    (hhashes : row'.redactedFieldHashes = row.redactedFieldHashes) :
    RedactedFrom sha256 original row' := by
  have hlisted : AuditLog.alreadyRedacted row' = AuditLog.alreadyRedacted row := by
    rw [AuditLog.alreadyRedacted, AuditLog.alreadyRedacted, hfields]
  refine ⟨h.retouched.trans hretouched, ?_, ?_, ?_⟩
  · rw [hlisted]
    exact h.kept
  · rw [hlisted, hpayload]
    exact h.payload
  · rw [hlisted, hhashes]
    exact h.hashes

/-- What a call knows of the rows: a staged row is new, and a row that was read is a
created row on its way. -/
structure CallStored (sha256 : Bytes → PyStr) (history : List AuditEvent) (call : Call settings) :
    Prop where
  staged : ∀ req phase event, call.append? = some (req, phase) → phase.staged? = some event →
    event.Pristine
  read : ∀ req phase event, call = .redact req phase → phase.read? = some event →
    ∃ created ∈ history, created.id = req.eventId ∧ RedactedFrom sha256 created event

/-- The rows of the table and of the calls are created rows on their way. -/
structure Stored (sha256 : Bytes → PyStr) (w : World settings) : Prop where
  created : ∀ e ∈ w.history, e.Pristine
  rows : List.Forall₂ (RedactedFrom sha256) w.history w.db.auditEvents
  calls : ∀ call ∈ w.calls, CallStored sha256 w.history call

variable {w w' : World settings}

/-- Created rows with the same id are the same row. -/
theorem Stored.eq_of_id_eq (h : Stored sha256 w) {a b : AuditEvent} (ha : a ∈ w.history)
    (hb : b ∈ w.history) (hid : a.id = b.id) : a = b := by
  have hids : w.db.auditEvents.map AuditEvent.id = w.history.map AuditEvent.id :=
    map_eq_of_retouched _ Retouched.id (h.rows.imp fun _ _ hrow => hrow.retouched)
  have hordered : (w.history.map AuditEvent.id).Pairwise (· < ·) := by
    rw [← hids, List.pairwise_map]
    exact w.db.ordered
  exact Table.eq_of_key_eq (List.pairwise_map.mp hordered) ha hb hid

/-- The rows after an update of one row, on its way before and after. -/
theorem Stored.write (h : Stored sha256 w) {created event : AuditEvent} {req : RedactRequest}
    (hcreated : created ∈ w.history) (hid : created.id = req.eventId)
    (hevent : RedactedFrom sha256 created event) :
    List.Forall₂ (RedactedFrom sha256) w.history
      (Repo.redactEventFields w.db req.eventId
        (redactionUpdate sha256 event (fieldsToRedact event req.fields) req.now)).auditEvents := by
  show List.Forall₂ _ _ (List.map _ _)
  rw [List.forall₂_map_right_iff, List.forall₂_iff_zip]
  obtain ⟨hlength, hpairs⟩ := List.forall₂_iff_zip.mp h.rows
  refine ⟨hlength, ?_⟩
  intro original row hpair
  have hrow := hpairs hpair
  split
  · -- The row that is written was created as the row that was read.
    rename_i htarget
    have hsame : original = created := by
      refine h.eq_of_id_eq (List.of_mem_zip hpair).1 hcreated ?_
      rw [hid, ← hrow.retouched.id, htarget]
    rw [hsame] at hrow ⊢
    exact hevent.write hrow.retouched req.fields req.now
  · exact hrow

theorem redactedFrom_applyRetention {history : List AuditEvent} {db : Database}
    (h : List.Forall₂ (RedactedFrom sha256) history db.auditEvents) (days : Int)
    (now archiveNow : DateTime) :
    List.Forall₂ (RedactedFrom sha256) history (applyRetention db days now archiveNow).2.auditEvents := by
  unfold applyRetention
  split
  · exact h
  · show List.Forall₂ _ _ (List.map _ _)
    rw [List.forall₂_map_right_iff]
    refine h.imp fun original row hrow => ?_
    split
    · exact hrow.of_same rfl rfl rfl rfl
    · exact hrow

/-- What a call reads of the table is on its way. -/
theorem Stored.getEvent (h : Stored sha256 w) {eventId : Int} {event : AuditEvent}
    (hfound : Repo.getEvent w.db eventId = some event) :
    ∃ created ∈ w.history, created.id = eventId ∧ RedactedFrom sha256 created event := by
  obtain ⟨hmem, hid⟩ := (Repo.getEvent_eq_some_iff _ _ _).mp hfound
  obtain ⟨created, hcreated, hrow⟩ := HashChain.exists_of_forall₂_right h.rows hmem
  exact ⟨created, hcreated, by rw [← hrow.retouched.id, hid], hrow⟩

/-- The rows after a step are created rows on their way. -/
theorem Stored.rows_step {action : Action settings} (h : Stored sha256 w) (hd : Disciplined sha256 w)
    (hstep : Transition sha256 w action w') :
    List.Forall₂ (RedactedFrom sha256) w'.history w'.db.auditEvents := by
  cases hstep with
  | create req => exact h.rows
  | redact req => exact h.rows
  | @append c now call req phase s hcall happend hmove =>
    have happending : w.Appending c req phase := ⟨call, hcall, happend⟩
    unfold World.history
    rw [List.map_append]
    rcases hmove.effect (hd.phase happending) with
      ⟨hrows, -, hnone, -⟩ | ⟨event, record, rfl, -, hcommit, hsome⟩
    · rw [hrows, hnone, Option.toList_none, List.map_nil, List.map_nil, List.append_nil]
      exact h.rows
    · have hstaged : Staged sha256 w.db req event := hd.phase happending
      rw [(Repo.commitAppend_cases hstaged.last hcommit).1, hsome]
      exact List.rel_append h.rows (List.Forall₂.cons (RedactedFrom.refl event) List.Forall₂.nil)
  | redaction hcall hmove =>
    cases hmove with
    | @write event =>
      obtain ⟨created, hcreated, hid, hrow⟩ :=
        (h.calls _ (List.mem_of_getElem? hcall)).read _ _ event rfl rfl
      exact h.write hcreated hid hrow
    | _ => exact h.rows
  | rollback statement hcall hrunning => exact h.rows
  | retention days now archiveNow => exact redactedFrom_applyRetention h.rows days now archiveNow

/-- What is committed in a step is new. -/
theorem Stored.created_step {action : Action settings} (h : Stored sha256 w)
    (hd : Disciplined sha256 w) (hstep : Transition sha256 w action w') :
    ∀ e ∈ w'.history, e.Pristine := by
  intro e he
  obtain ⟨a, ha, rfl⟩ := List.mem_map.mp he
  rcases hstep.mem_log hd ha with ha | ⟨call, req, record, hcall, happend, -⟩
  · exact h.created a.event (List.mem_map_of_mem ha)
  · exact (h.calls call (List.mem_of_getElem? hcall)).staged req _ a.event happend rfl

/-- Every step keeps the rows on their way. -/
theorem Stored.step {action : Action settings} (h : Stored sha256 w) (hd : Disciplined sha256 w)
    (hstep : Transition sha256 w action w') : Stored sha256 w' := by
  refine ⟨h.created_step hd hstep, h.rows_step hd hstep, fun call hmem => ⟨?_, ?_⟩⟩
  · exact hstep.staged (fun call hcall => (h.calls call hcall).staged) call hmem
  · rintro req phase event rfl hread
    have hrow : ∃ created ∈ w.history, created.id = req.eventId ∧
        RedactedFrom sha256 created event := by
      rcases hstep.inHand ⟨phase, hmem, hread⟩ with ⟨phase', hcall, hread'⟩ | hfound
      · exact (h.calls _ hcall).read req phase' event rfl hread'
      · exact h.getEvent hfound
    obtain ⟨created, hmember, hfacts⟩ := hrow
    exact ⟨created, hstep.history_subset hmember, hfacts⟩

theorem stored_init : Stored sha256 (World.init .empty : World settings) where
  created := fun _ he => by cases he
  rows := List.Forall₂.nil
  calls := fun _ hcall => by cases hcall

/-- The run lemma: in every reachable state the rows are created rows on their way. -/
theorem stored_of_reaches {ok : World settings → Action settings → Prop}
    (h : Machine.Reaches (AuditLog.step sha256) ok (.init .empty) w) : Stored sha256 w :=
  h.invariant stored_init fun _ _ _ run _ hstep hs =>
    hs.step (disciplined_of_reaches run) (step_cases hstep)

end AuditLog
