import AuditLog.Services.ChainVerificationService

/-!
# What `verify_chain` checks

The dict of commitments and the early exits of the walk, put as statements about
the list of rows: which commitment counts for a row (`lastCommitment`), when a
row's content is right (`ContentOk`), and that the report is intact exactly when
every row's content is right and the rows are linked (`ChainOk`).
-/

namespace AuditLog

section Spec

variable (sha256 : Bytes → PyStr)

/-! ## Declarative statements -/

/-- A companion row that vouches for its own content. -/
def Trusted (event : AuditEvent) : Prop :=
  event.eventType = REDACTION_EVENT_TYPE ∧ contentHash sha256 event = event.eventHash

instance (event : AuditEvent) : Decidable (Trusted sha256 event) :=
  inferInstanceAs (Decidable (_ ∧ _))

/-- The target and commitment a row contributes, when it is trusted and has both. -/
def commitmentOf (event : AuditEvent) : Option (Json × Json) :=
  if Trusted sha256 event ∧ event.payload.get "targetEventId" ≠ .null ∧
      event.payload.get "redactedContentHash" ≠ .null then
    some (event.payload.get "targetEventId", event.payload.get "redactedContentHash")
  else none

/-- What a row commits to for the dict key `key`. -/
def commitmentFor (event : AuditEvent) (key : HashKey) : Option Json :=
  match commitmentOf sha256 event with
  | some (target, commitment) => if hashKey target = some key then some commitment else none
  | none => none

/-- The last commitment for `key` in id order. -/
def lastCommitment (events : List AuditEvent) (key : HashKey) : Option Json :=
  match events with
  | [] => none
  | event :: events => (lastCommitment events key).or (commitmentFor sha256 event key)

/-- The row's target, if it contributes one, can be a dict key. -/
def HashableTarget (event : AuditEvent) : Prop :=
  ∀ c ∈ commitmentOf sha256 event, hashKey c.1 ≠ none

/-- The content check of one row passes, given the commitment for its id. -/
def ContentOk (commitment : Option Json) (event : AuditEvent) : Prop :=
  if event.redactedAt = none then contentHash sha256 event = event.eventHash
  else commitment = some (.str (contentHash sha256 event))

/-- Links between rows, from `expected` on. -/
abbrev LinkedFrom (expected : PyStr) (events : List AuditEvent) : Prop :=
  HashChain.Linked (fun e : AuditEvent => e.previousHash) AuditEvent.eventHash expected events

/-- The declarative content of an intact report. -/
structure ChainOk (events : List AuditEvent) : Prop where
  hashable : ∀ e ∈ events, HashableTarget sha256 e
  content : ∀ e ∈ events, ContentOk sha256 (lastCommitment sha256 events (.int e.id)) e
  linked : LinkedFrom GENESIS_HASH events

/-! ## The commitments dict -/

variable {sha256}

/-- One round of the loop stores what the row commits to. -/
theorem recordCommitment_ok {event : AuditEvent} (h : HashableTarget sha256 event)
    (commitments : Commitments) :
    ∃ commitments', recordCommitment sha256 commitments event = .ok commitments' ∧
      ∀ key, Dict.get commitments' key =
        (commitmentFor sha256 event key).or (Dict.get commitments key) := by
  unfold recordCommitment commitmentFor
  unfold HashableTarget at h
  unfold commitmentOf Trusted at *
  by_cases htrusted : event.eventType = REDACTION_EVENT_TYPE ∧
      contentHash sha256 event = event.eventHash
  · -- A trusted row stores something only if both members are there.
    by_cases hboth : event.payload.get "targetEventId" ≠ .null ∧
        event.payload.get "redactedContentHash" ≠ .null
    · simp only [htrusted, hboth, and_self, if_true, ne_eq, not_false_eq_true] at h ⊢
      cases hkey : hashKey (event.payload.get "targetEventId") with
      | none => exact absurd hkey (h _ rfl)
      | some key =>
        refine ⟨_, rfl, ?_⟩
        intro key'
        rw [Dict.get_set]
        by_cases hk : key = key' <;> simp [hk]
    · simp only [htrusted, hboth, and_self, if_true, true_and, if_false]
      exact ⟨commitments, rfl, fun key => rfl⟩
  · simp only [htrusted, false_and, if_false]
    exact ⟨commitments, rfl, fun key => rfl⟩

/-- An unhashable target stops the loop. -/
theorem recordCommitment_error {event : AuditEvent} (h : ¬ HashableTarget sha256 event)
    (commitments : Commitments) : ∃ err, recordCommitment sha256 commitments event = .error err := by
  unfold HashableTarget at h
  push Not at h
  rcases h with ⟨c, hc, hkey⟩
  unfold commitmentOf Trusted at hc
  split at hc
  · rename_i hall
    rw [Option.mem_def, Option.some.injEq] at hc
    subst hc
    unfold recordCommitment
    simp only [hall, and_self, if_true, ne_eq, not_false_eq_true, hkey]
    exact ⟨_, rfl⟩
  · cases hc

theorem foldlM_recordCommitment {events : List AuditEvent}
    (h : ∀ e ∈ events, HashableTarget sha256 e) (commitments : Commitments) :
    ∃ commitments', events.foldlM (recordCommitment sha256) commitments = .ok commitments' ∧
      ∀ key, Dict.get commitments' key =
        (lastCommitment sha256 events key).or (Dict.get commitments key) := by
  induction events generalizing commitments with
  | nil => exact ⟨commitments, rfl, fun key => rfl⟩
  | cons event events ih =>
    rcases recordCommitment_ok (h event List.mem_cons_self) commitments with ⟨next, hnext, hget⟩
    rcases ih (fun e he => h e (List.mem_cons_of_mem _ he)) next with ⟨final, hfinal, hget'⟩
    refine ⟨final, ?_, ?_⟩
    · rw [List.foldlM_cons, hnext]
      exact hfinal
    · intro key
      rw [hget', hget, lastCommitment, Option.or_assoc]

/-- The dict holds the last commitment of every key. -/
theorem latestRedactionCommitments_ok {events : List AuditEvent}
    (h : ∀ e ∈ events, HashableTarget sha256 e) :
    ∃ commitments, latestRedactionCommitments sha256 events = .ok commitments ∧
      ∀ key, Dict.get commitments key = lastCommitment sha256 events key := by
  rcases foldlM_recordCommitment h [] with ⟨commitments, hok, hget⟩
  exact ⟨commitments, hok, fun key => by rw [hget, Dict.get_nil, Option.or_none]⟩

theorem latestRedactionCommitments_error {events : List AuditEvent} {event : AuditEvent}
    (hmem : event ∈ events) (h : ¬ HashableTarget sha256 event) :
    ∃ err, latestRedactionCommitments sha256 events = .error err := by
  -- The error comes at the row itself, or an earlier row has raised one already.
  have hfrom : ∀ (events : List AuditEvent) (commitments : Commitments), event ∈ events →
      ∃ err, events.foldlM (recordCommitment sha256) commitments = .error err := by
    intro events
    induction events with
    | nil => intro _ hmem; exact absurd hmem List.not_mem_nil
    | cons e events ih =>
      intro commitments hmem
      rw [List.foldlM_cons]
      cases hstep : recordCommitment sha256 commitments e with
      | error err => exact ⟨err, rfl⟩
      | ok next =>
        rcases List.mem_cons.mp hmem with rfl | hmem
        · rcases recordCommitment_error h commitments with ⟨err, herr⟩
          rw [herr] at hstep
          cases hstep
        · exact ih next hmem
  exact hfrom events [] hmem

/-! ## The walk -/

theorem contentViolation_eq_none_iff (commitments : Commitments) (event : AuditEvent) :
    contentViolation sha256 commitments event = none ↔
      ContentOk sha256 (Dict.get commitments (.int event.id)) event := by
  unfold contentViolation ContentOk
  by_cases hredacted : event.redactedAt = none
  · simp [hredacted]
  · cases Dict.get commitments (.int event.id) with
    | none => simp [hredacted]
    | some commitment => simp [hredacted, eq_comm]

theorem linkViolation_eq_none_iff (expected : PyStr) (event : AuditEvent) :
    linkViolation expected event = none ↔ event.previousHash = expected := by
  unfold linkViolation
  split <;> simp_all

/-- The rows before the first violation are walked through. -/
theorem verifyFrom_append (commitments : Commitments) (expected : PyStr) (index : Nat)
    {before : List AuditEvent} (rest : List AuditEvent)
    (hcontent : ∀ e ∈ before, ContentOk sha256 (Dict.get commitments (.int e.id)) e)
    (hlinked : LinkedFrom expected before) :
    verifyFrom sha256 commitments expected index (before ++ rest) =
      verifyFrom sha256 commitments (HashChain.tip AuditEvent.eventHash expected before)
        (index + before.length) rest := by
  induction before generalizing expected index with
  | nil => rfl
  | cons event before ih =>
    have hok := (contentViolation_eq_none_iff commitments event).mpr
      (hcontent event List.mem_cons_self)
    have hlink := (linkViolation_eq_none_iff expected event).mpr hlinked.1
    rw [List.cons_append, verifyFrom, hok]
    simp only [hlink]
    rw [ih event.eventHash (index + 1) (fun e he => hcontent e (List.mem_cons_of_mem _ he)) hlinked.2,
      HashChain.tip_cons, List.length_cons]
    congr 1
    omega

/-- The walk reports intact exactly when every content is right and all links hold. -/
theorem verifyFrom_intact_iff (commitments : Commitments) (expected : PyStr) (index : Nat)
    (events : List AuditEvent) :
    (verifyFrom sha256 commitments expected index events).intact = true ↔
      (∀ e ∈ events, ContentOk sha256 (Dict.get commitments (.int e.id)) e) ∧
        LinkedFrom expected events := by
  induction events generalizing expected index with
  | nil => simp [verifyFrom]
  | cons event events ih =>
    rw [verifyFrom]
    cases hcontent : contentViolation sha256 commitments event with
    | some violation =>
      have hbad : ¬ ContentOk sha256 (Dict.get commitments (.int event.id)) event := by
        rw [← contentViolation_eq_none_iff, hcontent]
        exact Option.some_ne_none violation
      simp only [Bool.false_eq_true, false_iff]
      exact fun h => hbad (h.1 event List.mem_cons_self)
    | none =>
      have hgood := (contentViolation_eq_none_iff commitments event).mp hcontent
      cases hlink : linkViolation expected event with
      | some violation =>
        have hbad : event.previousHash ≠ expected := by
          rw [ne_eq, ← linkViolation_eq_none_iff, hlink]
          exact Option.some_ne_none violation
        simp only [Bool.false_eq_true, false_iff]
        exact fun h => hbad h.2.1
      | none =>
        have hprev := (linkViolation_eq_none_iff expected event).mp hlink
        simp only [ih, List.forall_mem_cons, HashChain.linked_cons, hgood, hprev, true_and]

/-- A walk that passes every check counts the rows. -/
theorem verifyFrom_ok {commitments : Commitments} {expected : PyStr} {events : List AuditEvent}
    (index : Nat) (hcontent : ∀ e ∈ events, ContentOk sha256 (Dict.get commitments (.int e.id)) e)
    (hlinked : LinkedFrom expected events) :
    verifyFrom sha256 commitments expected index events = ⟨true, index + events.length, none⟩ := by
  have h := verifyFrom_append commitments expected index [] hcontent hlinked
  rwa [List.append_nil, verifyFrom] at h

/-! ## The report -/

theorem verifyChain_of_chainOk {db : Database} (h : ChainOk sha256 db.auditEvents) :
    verifyChain sha256 db = .ok ⟨true, db.auditEvents.length, none⟩ := by
  rcases latestRedactionCommitments_ok h.hashable with ⟨commitments, hok, hget⟩
  have hcontent : ∀ e ∈ db.auditEvents,
      ContentOk sha256 (Dict.get commitments (.int e.id)) e := by
    intro e he
    rw [hget]
    exact h.content e he
  have hwalk := verifyFrom_ok 0 hcontent h.linked
  rw [Nat.zero_add] at hwalk
  unfold verifyChain Repo.listAllEvents
  rw [hok]
  simp only [hwalk]

/-- There is a report at all exactly when the commitment loop meets no unhashable target. -/
theorem verifyChain_answers_iff (db : Database) :
    (∃ result, verifyChain sha256 db = .ok result) ↔
      ∀ e ∈ db.auditEvents, HashableTarget sha256 e := by
  constructor
  · rintro ⟨result, hresult⟩
    by_contra hbad
    push Not at hbad
    rcases hbad with ⟨e, he, hbad⟩
    rcases latestRedactionCommitments_error he hbad with ⟨err, herr⟩
    unfold verifyChain Repo.listAllEvents at hresult
    rw [herr] at hresult
    cases hresult
  · intro hhashable
    rcases latestRedactionCommitments_ok hhashable with ⟨commitments, hok, hget⟩
    unfold verifyChain Repo.listAllEvents
    rw [hok]
    exact ⟨_, rfl⟩

/-- **An intact report, declaratively.** -/
theorem reportsIntact_iff (db : Database) :
    ReportsIntact sha256 db ↔ ChainOk sha256 db.auditEvents := by
  constructor
  · rintro ⟨result, hresult, hintact⟩
    have hhashable := (verifyChain_answers_iff db).mp ⟨result, hresult⟩
    rcases latestRedactionCommitments_ok hhashable with ⟨commitments, hok, hget⟩
    unfold verifyChain Repo.listAllEvents at hresult
    rw [hok] at hresult
    cases hresult
    rcases (verifyFrom_intact_iff _ _ _ _).mp hintact with ⟨hcontent, hlinked⟩
    refine ⟨hhashable, ?_, hlinked⟩
    intro e he
    rw [← hget]
    exact hcontent e he
  · intro h
    exact ⟨_, verifyChain_of_chainOk h, rfl⟩

/-- An intact report counts every row and names no violation. -/
theorem reportsIntact_iff_eq (db : Database) :
    ReportsIntact sha256 db ↔ verifyChain sha256 db = .ok ⟨true, db.auditEvents.length, none⟩ := by
  constructor
  · intro h
    exact verifyChain_of_chainOk ((reportsIntact_iff db).mp h)
  · intro h
    exact ⟨_, h, rfl⟩

instance (db : Database) : Decidable (ReportsIntact sha256 db) :=
  decidable_of_iff _ (reportsIntact_iff_eq db).symm

/-- The first row whose content is wrong is the one reported. -/
theorem verifyChain_first_bad {db : Database} {before after : List AuditEvent} {event : AuditEvent}
    (hsplit : db.auditEvents = before ++ event :: after)
    (hhashable : ∀ e ∈ db.auditEvents, HashableTarget sha256 e)
    (hcontent : ∀ e ∈ before,
      ContentOk sha256 (lastCommitment sha256 db.auditEvents (.int e.id)) e)
    (hlinked : LinkedFrom GENESIS_HASH before)
    (hbad : ¬ ContentOk sha256 (lastCommitment sha256 db.auditEvents (.int event.id)) event) :
    ∃ commitments violation,
      (∀ key, Dict.get commitments key = lastCommitment sha256 db.auditEvents key) ∧
        contentViolation sha256 commitments event = some violation ∧
        verifyChain sha256 db = .ok ⟨false, before.length + 1, some violation⟩ := by
  rcases latestRedactionCommitments_ok hhashable with ⟨commitments, hok, hget⟩
  have hviolation : contentViolation sha256 commitments event ≠ none := by
    rw [ne_eq, contentViolation_eq_none_iff, hget]
    exact hbad
  rcases Option.ne_none_iff_exists'.mp hviolation with ⟨violation, hviolation⟩
  refine ⟨commitments, violation, hget, hviolation, ?_⟩
  have hwalk := verifyFrom_append commitments GENESIS_HASH 0 (event :: after)
    (fun e he => by rw [hget]; exact hcontent e he) hlinked
  rw [← hsplit, verifyFrom, hviolation, Nat.zero_add] at hwalk
  unfold verifyChain Repo.listAllEvents
  rw [hok]
  simp only [hwalk]

end Spec

end AuditLog
