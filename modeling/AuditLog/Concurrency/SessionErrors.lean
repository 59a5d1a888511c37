import AuditLog.Concurrency.RowVersions
import AuditLog.Concurrency.CommittingAppends

/-!
# What sessions raise

A session raises what its service declares, or has lost its connection, or redacts a record
whose companion the schema rejects. No constraint of the tables fires unless SHA-256
collides or an idempotency key comes without a user, and no row that a session has written
is missing when it reads it again.
-/

namespace AuditLog

variable {sha256 : Bytes → PyStr} {settings : Settings} {w w' : World settings}
  {action : Action settings}

/-! ## Hashes of the table -/

/-- The committed rows have distinct hashes. -/
def DistinctHashes (w : World settings) : Prop := (w.history.map AuditEvent.eventHash).Nodup

theorem DistinctHashes.step (h : DistinctHashes w) (hd : Disciplined sha256 w)
    (hh : HistoryOk sha256 w) (hf : FreshHashes w) (hstep : Transition sha256 w action w') :
    DistinctHashes w' := by
  unfold DistinctHashes
  rcases hstep.effect hd with ⟨-, hlog⟩ | ⟨c, req, event, record, happending, -, hlog⟩
  · rw [show w'.history = w.history from congrArg (List.map Appended.event) hlog]
    exact h
  · rw [World.history_concat hlog, List.map_append, List.map_singleton]
    refine List.nodup_append.mpr ⟨h, List.nodup_singleton _, ?_⟩
    -- The row that is committed has been checked against the table.
    intro a ha b hb hab
    rw [List.mem_singleton] at hb
    obtain ⟨e, he, rfl⟩ := List.mem_map.mp ha
    obtain ⟨row, hrow, hsame⟩ := HashChain.exists_of_forall₂_right hh.rows.flip he
    have hretouched : Retouched e row := hsame
    refine hf c req _ event happending rfl row hrow ?_
    rw [hretouched.eventHash, hab, hb]

theorem distinctHashes_of_reaches {ok : World settings → Action settings → Prop}
    (h : Machine.Reaches (step sha256) ok (.init .empty) w) : DistinctHashes w :=
  h.invariant List.nodup_nil fun _ _ _ run _ hstep ht =>
    ht.step (disciplined_of_reaches run) (historyOk_of_reaches run) (freshHashes_of_reaches run)
      (step_cases hstep)

/-- The content has the hash of another content that was committed, or a committed content
has the genesis hash. -/
def Collides (sha256 : Bytes → PyStr) (committed : List AuditEvent) (content : EventContent) : Prop :=
  (∃ e ∈ committed, e.toEventContent.canonical ≠ content.canonical ∧
    sha256 e.toEventContent.canonical = sha256 content.canonical) ∨
  ∃ e ∈ committed, sha256 e.toEventContent.canonical = GENESIS_HASH

theorem Collides.mono {committed committed' : List AuditEvent} {content : EventContent}
    (h : Collides sha256 committed content) (hsub : committed ⊆ committed') :
    Collides sha256 committed' content :=
  h.imp (Exists.imp fun _ he => ⟨hsub he.1, he.2⟩) (Exists.imp fun _ he => ⟨hsub he.1, he.2⟩)

/-- **The unique hash is a backstop**: a new row has the hash of a stored one only by a collision. -/
theorem collides_of_duplicate (hh : HistoryOk sha256 w) (hnd : DistinctHashes w)
    {content : EventContent} (hlink : content.previousHash = Repo.lastHash w.db)
    {e : AuditEvent} (he : e ∈ w.db.auditEvents)
    (hsame : e.eventHash = computeEventHash sha256 content) : Collides sha256 w.history content := by
  by_contra hfree
  unfold Collides at hfree
  push Not at hfree
  obtain ⟨hfree, hgenesis⟩ := hfree
  obtain ⟨a, ha, hrow⟩ := HashChain.exists_of_forall₂_right hh.rows he
  have hhash : sha256 a.toEventContent.canonical = sha256 content.canonical := by
    rw [← show e.eventHash = sha256 content.canonical from hsame, hrow.eventHash, hh.hashed a ha]
    rfl
  have hcanonical : a.toEventContent.canonical = content.canonical := by
    by_contra hne
    exact hfree a ha hne hhash
  -- Equal contents have equal links, and no committed row links to the last one.
  have hprev : a.previousHash = HashChain.tip AuditEvent.eventHash GENESIS_HASH w.history := by
    rw [((EventContent.canonical_eq_iff _ _).mp hcanonical).2.2.2.2.2.2.2, hlink, hh.tip]
  have hstart : GENESIS_HASH ∉ w.history.map AuditEvent.eventHash := by
    intro hmem
    obtain ⟨b, hb, hgen⟩ := List.mem_map.mp hmem
    rw [hh.hashed b hb] at hgen
    exact hgenesis b hb hgen
  exact HashChain.prev_ne_tip (List.nodup_cons.mpr ⟨hstart, hnd⟩) hh.linked ha hprev

/-! ## Statements that fail -/

section Statements

variable {db db' : Database} {req : CreateRequest settings}

theorem stageEvent_error {previousHash : PyStr} {now : DateTime} {err : DbError}
    (h : stageEvent sha256 noFailure db req previousHash now = (.error err, db')) :
    err = .integrity "audit_events_event_hash_key" ∧ ∃ e ∈ db.auditEvents,
      e.eventHash = computeEventHash sha256 (req.eventContent now previousHash) := by
  unfold stageEvent Repo.insertEvent at h
  simp only [noFailure, Bool.false_eq_true, if_false] at h
  split at h
  · rename_i hduplicate
    cases h
    exact ⟨rfl, hduplicate⟩
  · cases h

/-- With an unused key, only a key without a user is refused. -/
theorem stageIdempotencyKey_error {event : AuditEvent} {err : DbError}
    (hunused : Unused db.idempotencyKeys req)
    (h : stageIdempotencyKey sha256 noFailure db req event = .error err) :
    err = .integrity "username" ∧ req.idempotencyKey ≠ none ∧ req.requestedBy = none := by
  unfold stageIdempotencyKey Repo.recordIdempotencyKey at h
  simp only [noFailure, Bool.false_eq_true, if_false] at h
  split at h
  · cases h
  · rename_i key hkey
    cases huser : req.requestedBy with
    | none =>
      rw [huser] at h
      cases h
      exact ⟨rfl, by rw [hkey]; exact Option.some_ne_none key, rfl⟩
    | some username =>
      rw [huser] at h
      simp only at h
      cases hfound : Repo.getIdempotencyRecord db (some username) key with
      | none =>
        rw [hfound] at h
        cases h
      | some r =>
        rw [← huser] at hfound
        obtain ⟨hr, hused⟩ := getIdempotencyRecord_eq_some hkey hfound
        exact absurd hused (hunused r hr)

end Statements

/-! ## Rows that sessions rely on -/

/-- A row with this id is there. -/
def Present (w : World settings) (id : Int) : Prop := ∃ row ∈ w.db.auditEvents, row.id = id

theorem Present.getEvent_ne_none {id : Int} (h : Present w id) : Repo.getEvent w.db id ≠ none := by
  obtain ⟨row, hrow, hid⟩ := h
  rw [(Repo.getEvent_eq_some_iff _ _ _).mpr ⟨hrow, hid⟩]
  exact Option.some_ne_none row

/-- What was committed is there. -/
theorem HistoryOk.present (h : HistoryOk sha256 w) {e : AuditEvent} (he : e ∈ w.history) :
    Present w e.id := by
  obtain ⟨row, hrow, hsame⟩ := HashChain.exists_of_forall₂_right h.rows.flip he
  have hretouched : Retouched e row := hsame
  exact ⟨row, hrow, hretouched.id⟩

/-- An append that has committed has its row in the history. -/
def CommitsRecorded (w : World settings) : Prop :=
  ∀ c req event, w.Appending c req (.committed event) → event ∈ w.history

theorem CommitsRecorded.step (h : CommitsRecorded w) (hstep : Transition sha256 w action w') :
    CommitsRecorded w' := by
  intro d req event happending
  have hkept : w.Appending d req (.committed event) → event ∈ w'.history := fun hw =>
    hstep.history_subset (h d req event hw)
  cases hstep with
  | create req =>
    rcases appending_of_concat rfl (fun _ _ h => by cases h; rfl) happending with hstart | hw
    · cases hstart
    · exact hkept hw
  | redact req =>
    rcases appending_of_concat rfl (fun _ _ h => by cases h) happending with hstart | hw
    · cases hstart
    · exact hkept hw
  | @append c now call req phase s hcall happend hmove =>
    rcases appending_of_set hcall rfl happending with ⟨rfl, hresume⟩ | ⟨-, hw⟩
    · obtain ⟨rfl, hphase⟩ := Call.append?_resume happend hresume
      cases hmove with
      | commit hcommit =>
        cases hphase
        exact List.mem_map.mpr ⟨_, List.mem_append_right _ (List.mem_singleton_self _), rfl⟩
      | _ => cases hphase
    · exact hkept hw
  | redaction hcall hmove =>
    rcases appending_of_set hcall rfl happending with ⟨rfl, hnew⟩ | ⟨-, hw⟩
    · cases hmove.append?_eq_start hnew
    · exact hkept hw
  | rollback statement hcall hrunning =>
    rcases appending_of_set hcall rfl happending with ⟨rfl, hnew⟩ | ⟨-, hw⟩
    · cases Call.append?_raised hnew
    · exact hkept hw
  | retention days now archiveNow => exact hkept happending

theorem commitsRecorded_of_reaches {ok : World settings → Action settings → Prop}
    (h : Machine.Reaches (step sha256) ok (.init .empty) w) : CommitsRecorded w :=
  h.invariant (fun _ _ _ ⟨_, hcall, _⟩ => by cases hcall) fun _ _ _ _ _ hstep ht =>
    ht.step (step_cases hstep)

/-! ## What a session raises -/

namespace Call

/-- The error that the call has raised. -/
def error? : Call settings → Option ServiceError
  | .create _ (.ended (.error err)) => some err
  | .redact _ (.ended (.error err)) => some err
  | _ => none

/-- An append ends its call with its own error. -/
theorem error?_resume {call : Call settings} {req : CreateRequest settings}
    {phase next : AppendPhase} {err : ServiceError} (h : call.append? = some (req, phase))
    (herr : (call.resume sha256 next).error? = some err) : next = .ended (.error err) := by
  rcases call with ⟨req₀, phase₀⟩ | ⟨redact, phase₀⟩
  · cases next with
    | ended outcome =>
      rcases outcome with err' | event
      · exact congrArg (fun e => AppendPhase.ended (.error e)) (Option.some.inj herr)
      · cases herr
    | _ => cases herr
  · cases phase₀ with
    | appending event updated body phase₁ =>
      cases next with
      | ended outcome =>
        rcases outcome with err' | redactionEvent
        · exact congrArg (fun e => AppendPhase.ended (.error e)) (Option.some.inj herr)
        · cases herr
      | _ => cases herr
    | _ => cases h

end Call

/-- The sessions that an action takes the connection from. -/
def Action.lost : Action settings → List (Nat × DbCall)
  | .rollback c statement => [(c, statement)]
  | _ => []

/-- The redaction has read the record, in one of its versions. -/
def HasRead (sha256 : Bytes → PyStr) (w : World settings) (req : RedactRequest) (event : AuditEvent) :
    Prop :=
  ∃ created ∈ w.history, created.id = req.eventId ∧ RedactedFrom sha256 created event

/-- The append that the call stands for: the one it was asked for, or that of its companion. -/
inductive Appends (sha256 : Bytes → PyStr) (w : World settings) :
    Call settings → CreateRequest settings → Prop where
  | create (req : CreateRequest settings) (phase : AppendPhase) :
      Appends sha256 w (.create req phase) req
  | companion {req : RedactRequest} {phase : RedactPhase settings} {event : AuditEvent}
      {body : AuditEventCreate settings} (hread : HasRead sha256 w req event)
      (hbody : companionBody settings req (fieldsToRedact event req.fields)
        (redactedContentHash sha256 event (fieldsToRedact event req.fields)) = .ok body) :
      Appends sha256 w (.redact req phase) { eventIn := body, tenantId := event.tenantId }

/-- The schema of new events rejects the companion. -/
def Rejected (sha256 : Bytes → PyStr) (w : World settings) (req : RedactRequest)
    (errors : List FieldError) : Prop :=
  ∃ event, HasRead sha256 w req event ∧ companionBody settings req (fieldsToRedact event req.fields)
    (redactedContentHash sha256 event (fieldsToRedact event req.fields)) = .error errors

/-- At some time, what the call appends collides, linked to a committed event or to none. -/
def AppendCollides (sha256 : Bytes → PyStr) (w : World settings) (call : Call settings) : Prop :=
  ∃ req now, Appends sha256 w call req ∧
    ∃ previousHash ∈ GENESIS_HASH :: w.history.map AuditEvent.eventHash,
      Collides sha256 w.history (req.eventContent now previousHash)

/-- Why the call with index `c` has raised, where the connections in `lost` were lost. -/
inductive Failed (sha256 : Bytes → PyStr) (w : World settings) (lost : List (Nat × DbCall))
    (c : Nat) : Call settings → ServiceError → Prop where
  | declared {call : Call settings} {err : ServiceError} (h : err.Declared) :
      Failed sha256 w lost c call err
  | disconnected {call : Call settings} {statement : DbCall} (h : (c, statement) ∈ lost) :
      Failed sha256 w lost c call (.database (.driver statement))
  | rejected {req : RedactRequest} {phase : RedactPhase settings} {errors : List FieldError}
      (h : Rejected sha256 w req errors) :
      Failed sha256 w lost c (.redact req phase) (.validation errors)
  | nameless {req : CreateRequest settings} {phase : AppendPhase} (hkey : req.idempotencyKey ≠ none)
      (huser : req.requestedBy = none) :
      Failed sha256 w lost c (.create req phase) (.database (.integrity "username"))
  | collision {call : Call settings} (h : AppendCollides sha256 w call) :
      Failed sha256 w lost c call (.database (.integrity "audit_events_event_hash_key"))

section Mono

variable (hhistory : w.history ⊆ w'.history)

include hhistory

theorem HasRead.mono {req : RedactRequest} {event : AuditEvent} (h : HasRead sha256 w req event) :
    HasRead sha256 w' req event :=
  h.imp fun _ hcreated => ⟨hhistory hcreated.1, hcreated.2⟩

theorem AppendCollides.mono {call : Call settings} (h : AppendCollides sha256 w call) :
    AppendCollides sha256 w' call := by
  obtain ⟨req, now, happends, previousHash, hlink, hcollides⟩ := h
  refine ⟨req, now, ?_, previousHash, ?_, hcollides.mono hhistory⟩
  · cases happends with
    | create req phase => exact .create req phase
    | companion hread hbody => exact .companion (hread.mono hhistory) hbody
  · exact List.cons_subset_cons _ (List.map_subset _ hhistory) hlink

theorem Failed.mono {lost lost' : List (Nat × DbCall)} {c : Nat} {call : Call settings}
    {err : ServiceError} (h : Failed sha256 w lost c call err) (hlost : lost ⊆ lost') :
    Failed sha256 w' lost' c call err := by
  cases h with
  | declared h => exact .declared h
  | disconnected h => exact .disconnected (hlost h)
  | rejected h => exact .rejected (h.imp fun _ hrejected => ⟨hrejected.1.mono hhistory, hrejected.2⟩)
  | nameless hkey huser => exact .nameless hkey huser
  | collision h => exact .collision (h.mono hhistory)

end Mono

/-- Every error of a session is explained. -/
def ErrorsExplained (sha256 : Bytes → PyStr) (w : World settings) (lost : List (Nat × DbCall)) :
    Prop :=
  ∀ c call err, w.calls[c]? = some call → call.error? = some err → Failed sha256 w lost c call err

/-- What the explanation of the next step rests on. -/
structure Consistent (sha256 : Bytes → PyStr) (w : World settings) : Prop where
  disciplined : Disciplined sha256 w
  history : HistoryOk sha256 w
  distinct : DistinctHashes w
  kept : Bookkept sha256 w
  recorded : CommitsRecorded w
  stored : Stored sha256 w
  bodied : Bodied sha256 w

theorem consistent_of_reaches {ok : World settings → Action settings → Prop}
    (h : Machine.Reaches (step sha256) ok (.init .empty) w) : Consistent sha256 w where
  disciplined := disciplined_of_reaches h
  history := historyOk_of_reaches h
  distinct := distinctHashes_of_reaches h
  kept := bookkept_of_reaches h
  recorded := commitsRecorded_of_reaches h
  stored := stored_of_reaches h
  bodied := bodied_of_reaches h

/-- What a redaction has in hand is a version of its record. -/
theorem Consistent.hasRead (h : Consistent sha256 w) {req : RedactRequest}
    {phase : RedactPhase settings} {event : AuditEvent} (hcall : .redact req phase ∈ w.calls)
    (hread : phase.read? = some event) : HasRead sha256 w req event :=
  (h.stored.calls _ hcall).read req phase event rfl hread

theorem HistoryOk.present_of_hasRead (h : HistoryOk sha256 w) {req : RedactRequest} {event : AuditEvent}
    (hread : HasRead sha256 w req event) : Present w req.eventId := by
  obtain ⟨created, hcreated, hid, -⟩ := hread
  rw [← hid]
  exact h.present hcreated

/-- A step of an append leaves what its call appends. -/
theorem Consistent.appends (h : Consistent sha256 w) {c : Nat} {call : Call settings}
    {req : CreateRequest settings} {phase : AppendPhase} (hcall : w.calls[c]? = some call)
    (happend : call.append? = some (req, phase)) (next : AppendPhase) :
    Appends sha256 w (call.resume sha256 next) req := by
  rcases call with ⟨own, phase₀⟩ | ⟨own, phase₀⟩
  · cases happend
    exact .create req next
  · cases phase₀ with
    | appending event updated body phase₁ =>
      cases happend
      exact .companion (h.hasRead (List.mem_of_getElem? hcall) rfl) (h.bodied _ _ _ _ _ _ hcall)
    | _ => cases happend

theorem HistoryOk.lastHash_mem (h : HistoryOk sha256 w) :
    Repo.lastHash w.db ∈ GENESIS_HASH :: w.history.map AuditEvent.eventHash := by
  rw [← h.tip]
  by_cases hempty : w.history = []
  · rw [hempty]
    exact List.mem_cons_self
  · obtain ⟨e, he, htip⟩ := HashChain.tip_mem AuditEvent.eventHash GENESIS_HASH hempty
    rw [htip]
    exact List.mem_cons_of_mem _ (List.mem_map_of_mem he)

/-- A step of an append that raises. -/
theorem Consistent.failed_append (h : Consistent sha256 w) {lost : List (Nat × DbCall)} {c : Nat}
    {call : Call settings} {req : CreateRequest settings} {phase : AppendPhase} {s : AppendStep}
    {err : ServiceError} (hcall : w.calls[c]? = some call) (happend : call.append? = some (req, phase))
    (hmove : AppendMove sha256 w.db w.lock c req phase s) (hphase : s.phase = .ended (.error err)) :
    Failed sha256 w lost c (call.resume sha256 s.phase) err := by
  have happending : w.Appending c req phase := ⟨call, hcall, happend⟩
  have hok := h.disciplined.phase happending
  have hfree := (h.kept.calls c call hcall).free req phase happend
  cases hmove with
  | refuse hrefuse =>
    cases hphase
    exact .declared (declared_of_replayOrConflict hrefuse)
  | flushFails hflush =>
    cases hphase
    obtain ⟨rfl, e, he, hsame⟩ := stageEvent_error hflush
    have hlink : _ = Repo.lastHash w.db := hok
    exact .collision ⟨req, _, h.appends hcall happend _, _, hlink ▸ h.history.lastHash_mem,
      collides_of_duplicate h.history h.distinct hlink he hsame⟩
  | recordFails hrecord =>
    cases hphase
    obtain ⟨rfl, hkey, huser⟩ := stageIdempotencyKey_error hfree hrecord
    -- Only a client's request comes with a key.
    rcases call with ⟨req₀, phase₀⟩ | ⟨redact, phase₀⟩
    · cases happend
      exact .nameless hkey huser
    · cases phase₀ with
      | appending event updated body phase₁ =>
        cases happend
        exact absurd rfl hkey
      | _ => cases happend
  | @commitFails event record _ hcommit =>
    -- The flush has drawn the id, and the lock keeps other rows out.
    have hstaged : Staged sha256 w.db req event := hok
    have hcommits : ∃ db', Repo.commitAppend noFailure w.db event record = .ok db' :=
      Repo.commitAppend_ok record rfl hstaged.drawn hstaged.last
    obtain ⟨db', hcommits⟩ := hcommits
    rw [hcommits] at hcommit
    cases hcommit
  | refreshFails hmissing =>
    -- No statement deletes a row.
    have hpresent := h.history.present (h.recorded c req _ happending)
    exact absurd hmissing hpresent.getEvent_ne_none
  | _ => cases hphase

/-- A step of a redaction that raises. -/
theorem Consistent.failed_redaction (h : Consistent sha256 w) {lost : List (Nat × DbCall)} {c : Nat}
    {req : RedactRequest} {phase phase' : RedactPhase settings} {db' : Database} {err : ServiceError}
    (hcall : w.calls[c]? = some (.redact req phase))
    (hmove : RedactMove sha256 w.db req phase db' phase')
    (herr : (Call.redact req phase').error? = some err) :
    Failed sha256 w lost c (.redact req phase') err := by
  cases hmove with
  | missing hmissing =>
    cases herr
    exact .declared trivial
  | nothing hfound hnone =>
    cases herr
    exact .declared trivial
  | refreshFails hmissing =>
    have hread := h.hasRead (List.mem_of_getElem? hcall) rfl
    exact absurd hmissing (h.history.present_of_hasRead hread).getEvent_ne_none
  | reject hfound hbody =>
    cases herr
    exact .rejected ⟨_, h.hasRead (List.mem_of_getElem? hcall) rfl, hbody⟩
  | _ => cases herr

theorem ErrorsExplained.step {lost : List (Nat × DbCall)} (h : ErrorsExplained sha256 w lost)
    (hs : Consistent sha256 w) (hstep : Transition sha256 w action w') :
    ErrorsExplained sha256 w' (lost ++ action.lost) := by
  intro d call err hcall herr
  have hhistory := hstep.history_subset
  have hmono : Failed sha256 w lost d call err → Failed sha256 w' (lost ++ action.lost) d call err :=
    fun hfailed => hfailed.mono hhistory (List.subset_append_left _ _)
  have hold : w.calls[d]? = some call → Failed sha256 w' (lost ++ action.lost) d call err :=
    fun hold => hmono (h d call err hold herr)
  cases hstep with
  | create req =>
    rcases getElem?_concat_some.mp hcall with hcall | ⟨-, rfl⟩
    · exact hold hcall
    · cases herr
  | redact req =>
    rcases getElem?_concat_some.mp hcall with hcall | ⟨-, rfl⟩
    · exact hold hcall
    · cases herr
  | append hbefore happend hmove =>
    rcases (getElem?_set_some hbefore).mp hcall with ⟨rfl, rfl⟩ | ⟨-, hcall⟩
    · exact hmono (hs.failed_append hbefore happend hmove (Call.error?_resume happend herr))
    · exact hold hcall
  | redaction hbefore hmove =>
    rcases (getElem?_set_some hbefore).mp hcall with ⟨rfl, rfl⟩ | ⟨-, hcall⟩
    · exact hmono (hs.failed_redaction hbefore hmove herr)
    · exact hold hcall
  | @rollback c running statement hbefore hrunning =>
    rcases (getElem?_set_some hbefore).mp hcall with ⟨rfl, rfl⟩ | ⟨-, hcall⟩
    · have hraised : err = .database (.driver statement) := by
        cases running <;> exact (Option.some.inj herr).symm
      rw [hraised]
      exact .disconnected (List.mem_append_right _ (List.mem_singleton_self _))
    · exact hold hcall
  | retention days now archiveNow => exact hold hcall

/-! ## Marks of redactions -/

/-- The row with this id is there and marked as redacted. -/
def Marked (w : World settings) (id : Int) : Prop :=
  ∃ row ∈ w.db.auditEvents, row.id = id ∧ row.redactedFields ≠ none ∧ row.redactedAt ≠ none

theorem Marked.step {id : Int} (h : Marked w id) (hd : Disciplined sha256 w)
    (hstep : Transition sha256 w action w') : Marked w' id := by
  obtain ⟨row, hrow, hid, hfields, hat⟩ := h
  obtain ⟨kept, added, hrows, hkept⟩ := hstep.continues hd
  obtain ⟨row', hrow', hsame⟩ := HashChain.exists_of_forall₂_right hkept.flip hrow
  have hcontinues : Continues row row' := hsame
  refine ⟨row', ?_, hcontinues.retouched.id.trans hid, hcontinues.redactedFields hfields,
    hcontinues.redactedAt hat⟩
  rw [hrows]
  exact List.mem_append_left _ hrow'

/-- The `UPDATE` of the redaction has been committed. -/
def RedactPhase.Written : RedactPhase settings → Prop
  | .refreshing _ | .appending .. | .ended (.ok _) => True
  | .reading | .redacting _ | .ended (.error _) => False

theorem marked_redactEventFields {db : Database} {eventId : Int} {u : Repo.RedactionUpdate}
    (h : ∃ row ∈ db.auditEvents, row.id = eventId) :
    ∃ row ∈ (Repo.redactEventFields db eventId u).auditEvents,
      row.id = eventId ∧ row.redactedFields ≠ none ∧ row.redactedAt ≠ none := by
  obtain ⟨row, hrow, hid⟩ := h
  refine ⟨u.apply row, List.mem_map.mpr ⟨row, hrow, if_pos hid⟩, hid, ?_, ?_⟩ <;>
    exact Option.some_ne_none _

/-- Where a redaction has written, the record is marked. -/
def RedactionsMarked (w : World settings) : Prop :=
  ∀ (c : Nat) (req : RedactRequest) (phase : RedactPhase settings),
    w.calls[c]? = some (.redact req phase) → phase.Written → Marked w req.eventId

theorem RedactionsMarked.step (h : RedactionsMarked w) (hs : Consistent sha256 w)
    (hstep : Transition sha256 w action w') : RedactionsMarked w' := by
  intro d req phase hcall hwritten
  have hkept : Marked w req.eventId → Marked w' req.eventId := fun hm => hm.step hs.disciplined hstep
  cases hstep with
  | create req' =>
    rcases getElem?_concat_some.mp hcall with hcall | ⟨-, hnew⟩
    · exact hkept (h d req phase hcall hwritten)
    · cases hnew
  | redact req' =>
    rcases getElem?_concat_some.mp hcall with hcall | ⟨-, hnew⟩
    · exact hkept (h d req phase hcall hwritten)
    · cases hnew
      exact hwritten.elim
  | @append c now old req' phase' s hold happend hmove =>
    rcases (getElem?_set_some hold).mp hcall with ⟨rfl, hnew⟩ | ⟨-, hcall⟩
    · rcases old with ⟨req₀, phase₀⟩ | ⟨req₀, phase₀⟩
      · cases hnew
      · cases phase₀ with
        | appending event updated body phase₁ =>
          cases hnew
          exact hkept (h d _ _ hold trivial)
        | _ => cases happend
    · exact hkept (h d req phase hcall hwritten)
  | @redaction c now req' phase' phase'' db' hold hmove =>
    rcases (getElem?_set_some hold).mp hcall with ⟨rfl, hnew⟩ | ⟨-, hcall⟩
    · cases hnew
      cases hmove with
      | write => 
        have hread := hs.hasRead (List.mem_of_getElem? hold) rfl
        exact marked_redactEventFields (hs.history.present_of_hasRead hread)
      | refresh hfound hbody => exact hkept (h d _ _ hold trivial)
      | _ => exact hwritten.elim
    · exact hkept (h d req phase hcall hwritten)
  | @rollback c running statement hold hrunning =>
    rcases (getElem?_set_some hold).mp hcall with ⟨rfl, hnew⟩ | ⟨-, hcall⟩
    · cases running with
      | create req' phase' => cases hnew
      | redact req' phase' =>
        cases hnew
        exact hwritten.elim
    · exact hkept (h d req phase hcall hwritten)
  | retention days now archiveNow => exact hkept (h d req phase hcall hwritten)

theorem redactionsMarked_of_reaches {ok : World settings → Action settings → Prop}
    (h : Machine.Reaches (step sha256) ok (.init .empty) w) : RedactionsMarked w :=
  h.invariant (fun _ _ _ hcall => by cases hcall) fun _ _ _ run _ hstep ht =>
    ht.step (consistent_of_reaches run) (step_cases hstep)

end AuditLog
