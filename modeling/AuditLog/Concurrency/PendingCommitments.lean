import AuditLog.Concurrency.RedactionRuns

/-!
# Commitments under way

Between the two commits of a redaction the record has a content that nothing in
the table commits to yet. The invariant of this file says that the chain is
intact but for that, and that the companion which will make it intact is under
way; it is kept by every payload commit, and by every companion commit that
leaves the content committed to.
-/

namespace AuditLog

variable {sha256 : Bytes → PyStr} {settings : Settings}

/-! ## What a call is about to commit -/

/-- The commitment that the call has written the row for and not appended yet. -/
def RedactPhase.pending? (sha256 : Bytes → PyStr) (req : RedactRequest) :
    RedactPhase settings → Option PyStr
  | .refreshing event => some (redactedContentHash sha256 event (fieldsToRedact event req.fields))
  | .appending _ _ _ (.committed _) => none
  | .appending _ _ _ (.ended _) => none
  | .appending event _ _ _ =>
    some (redactedContentHash sha256 event (fieldsToRedact event req.fields))
  | _ => none

def Call.pending? (sha256 : Bytes → PyStr) : Call settings → Option PyStr
  | .create _ _ => none
  | .redact req phase => phase.pending? sha256 req

/-- The companion that the call is about to commit commits to the row's content, or
another call has a companion under way that does. -/
def LeavesCommitment (sha256 : Bytes → PyStr) (w : World settings) (c : Nat) : Prop :=
  match w.calls[c]? with
  | some (.redact req (.appending event _ _ (.recorded _ _))) =>
    ∀ row ∈ Repo.getEvent w.db req.eventId,
      redactedContentHash sha256 event (fieldsToRedact event req.fields) = contentHash sha256 row ∨
        ∃ d < w.calls.length, d ≠ c ∧
          w.calls[d]?.bind (Call.pending? sha256) = some (contentHash sha256 row)
  | _ => True

instance (w : World settings) (c : Nat) : Decidable (LeavesCommitment sha256 w c) := by
  unfold LeavesCommitment
  split <;> infer_instance

/-- A companion's append raises, commits its row, or is as far from it as before. -/
theorem AppendMove.pending {db : Database} {lock : Option Nat} {c : Nat}
    {create : CreateRequest settings} {phase : AppendPhase} {s : AppendStep}
    (h : AppendMove sha256 db lock c create phase s) (hkey : create.idempotencyKey = none) :
    (∃ err, s.phase = .ended (.error err)) ∨
      (∃ event record, phase = .recorded event record ∧ s.phase = .committed event) ∨
      ((∀ event record, phase ≠ .recorded event record) ∧
        ∀ (req : RedactRequest) (event updated : AuditEvent) (body : AuditEventCreate settings),
          (RedactPhase.afterAppend sha256 req event updated body s.phase).pending? sha256 req =
            (RedactPhase.appending event updated body phase).pending? sha256 req) := by
  cases h with
  -- Without a key there is no lookup, hence no replay and no conflict.
  | replay h => exact absurd hkey (replayOrConflict_ok h).2
  | refuse h => exact absurd hkey (replayOrConflict_error h)
  | commit h => exact Or.inr (Or.inl ⟨_, _, rfl, rfl⟩)
  | flushFails h => exact Or.inl ⟨_, rfl⟩
  | recordFails h => exact Or.inl ⟨_, rfl⟩
  | commitFails h => exact Or.inl ⟨_, rfl⟩
  | refreshFails h => exact Or.inl ⟨_, rfl⟩
  | _ =>
    refine Or.inr (Or.inr ⟨?_, fun _ _ _ _ => rfl⟩)
    intro _ _ h
    cases h

/-! ## What the record itself commits to -/

/-- The commitments for `key` do not depend on what the record says: it does not name
`key`, or a later row overrules it. -/
def Spare (sha256 : Bytes → PyStr) (db : Database) (original : AuditEvent) (key : HashKey) : Prop :=
  hashKey (original.payload.get "targetEventId") ≠ some key ∨
    ∃ e ∈ db.auditEvents, original.id < e.id ∧ (commitmentFor sha256 e key).isSome

/-- No redacted row relies on a commitment in the record. -/
def NotRelied (sha256 : Bytes → PyStr) (db : Database) (original : AuditEvent) : Prop :=
  original.eventType = REDACTION_EVENT_TYPE →
    hashKey (original.payload.get "targetEventId") ≠ none ∧
      ∀ q ∈ db.auditEvents, q.id ≠ original.id → q.redactedAt ≠ none →
        Spare sha256 db original (.int q.id)

/-- A row on its way names what the original named, or the marker. -/
theorem RedactedFrom.target {original row : AuditEvent} (h : RedactedFrom sha256 original row) :
    row.payload.get "targetEventId" = original.payload.get "targetEventId" ∨
      row.payload.get "targetEventId" = .str REDACTED_MARKER := by
  unfold Payload.get
  rw [h.payload]
  split
  · exact Or.inr rfl
  · exact Or.inl rfl

theorem RedactedFrom.hashableTarget {db : Database} {original row : AuditEvent}
    (h : RedactedFrom sha256 original row) (hrelied : NotRelied sha256 db original) :
    HashableTarget sha256 row := by
  rw [hashableTarget_iff]
  intro htrusted _ _
  have htype : original.eventType = REDACTION_EVENT_TYPE :=
    h.retouched.eventType.symm.trans htrusted.1
  rcases h.target with htarget | htarget
  · rw [htarget]
    exact (hrelied htype).1
  · rw [htarget]
    exact Option.some_ne_none _

/-- What does not depend on the original does not depend on any row on its way. -/
theorem RedactedFrom.commitmentFor_eq_none {original row : AuditEvent}
    (h : RedactedFrom sha256 original row) {id : Int}
    (hname : original.eventType = REDACTION_EVENT_TYPE →
      hashKey (original.payload.get "targetEventId") ≠ some (.int id)) :
    commitmentFor sha256 row (.int id) = none := by
  rw [Option.eq_none_iff_forall_not_mem]
  intro c hc
  rcases commitmentFor_eq_some_iff.mp hc with ⟨htrusted, -, hkey, -⟩
  rcases h.target with htarget | htarget
  · rw [htarget] at hkey
    exact hname (h.retouched.eventType.symm.trans htrusted.1) hkey
  · rw [htarget] at hkey
    cases hkey

theorem lastCommitment_isSome {rows : List AuditEvent} {e : AuditEvent} {key : HashKey}
    (he : e ∈ rows) (h : (commitmentFor sha256 e key).isSome) :
    (lastCommitment sha256 rows key).isSome := by
  induction rows with
  | nil => cases he
  | cons a rows ih =>
    rw [lastCommitment, Option.isSome_or, Bool.or_eq_true]
    rcases List.mem_cons.mp he with rfl | he
    · exact Or.inr h
    · exact Or.inl (ih he)

/-- A row that a later one overrules can say anything. -/
theorem lastCommitment_replace_overruled {rows : List AuditEvent} {id : Int} {row : AuditEvent}
    {key : HashKey} (hordered : rows.Pairwise fun a b => a.id < b.id) {e : AuditEvent}
    (he : e ∈ rows) (hlater : id < e.id) (h : (commitmentFor sha256 e key).isSome) :
    lastCommitment sha256 (Table.replace AuditEvent.id rows id row) key =
      lastCommitment sha256 rows key := by
  induction rows with
  | nil => cases he
  | cons a rows ih =>
    rcases List.pairwise_cons.mp hordered with ⟨hfirst, hordered⟩
    rcases List.mem_cons.mp he with rfl | he
    · -- All rows from here on are behind the replaced one.
      have hbehind : ∀ b ∈ e :: rows, id < b.id := by
        intro b hb
        rcases List.mem_cons.mp hb with rfl | hb
        · exact hlater
        · have := hfirst b hb
          omega
      rw [Table.replace_of_forall_lt hbehind]
    · have hrest := ih hordered he
      unfold Table.replace at hrest ⊢
      rw [List.map_cons, lastCommitment, lastCommitment, hrest]
      rcases Option.isSome_iff_exists.mp (lastCommitment_isSome he h) with ⟨c, hc⟩
      rw [hc, Option.some_or, Option.some_or]

/-- Nothing comes to rely on the record when no row is redacted and none is lost. -/
theorem NotRelied.mono {db db' : Database} {original : AuditEvent} (h : NotRelied sha256 db original)
    (hold : ∀ q ∈ db'.auditEvents, q.id ≠ original.id → q.redactedAt ≠ none → q ∈ db.auditEvents)
    (hkept : ∀ e ∈ db.auditEvents, e.id ≠ original.id → e ∈ db'.auditEvents) :
    NotRelied sha256 db' original := by
  intro htype
  rcases h htype with ⟨hkey, hspare⟩
  refine ⟨hkey, ?_⟩
  intro q hq hne hredacted
  rcases hspare q (hold q hq hne hredacted) hne hredacted with hname | ⟨e, he, hlater, hsome⟩
  · exact Or.inl hname
  · have hother : e.id ≠ original.id := by omega
    exact Or.inr ⟨e, hkept e he hother, hlater, hsome⟩

/-! ## Intact but for one row -/

/-- Everything that `ChainOk` asks for except the content of the row with the given id. -/
structure ChainOkExcept (sha256 : Bytes → PyStr) (id : Int) (events : List AuditEvent) : Prop where
  hashable : ∀ e ∈ events, HashableTarget sha256 e
  others : ∀ q ∈ events, q.id ≠ id → ContentOk sha256 (lastCommitment sha256 events (.int q.id)) q
  linked : LinkedFrom GENESIS_HASH events

namespace ChainOkExcept

variable {id : Int} {events : List AuditEvent}

theorem of_chainOk (h : ChainOk sha256 events) : ChainOkExcept sha256 id events where
  hashable := h.hashable
  others := fun q hq _ => h.content q hq
  linked := h.linked

/-- With the row, the chain is intact exactly when the row's content is right. -/
theorem chainOk_iff {db : Database} {row : AuditEvent} (h : ChainOkExcept sha256 id db.auditEvents)
    (hfound : Repo.getEvent db id = some row) : ChainOk sha256 db.auditEvents ↔
      ContentOk sha256 (lastCommitment sha256 db.auditEvents (.int id)) row := by
  obtain ⟨hmem, hid⟩ := (Repo.getEvent_eq_some_iff _ _ _).mp hfound
  constructor
  · intro hok
    rw [← hid]
    exact hok.content row hmem
  · intro hrow
    refine ⟨h.hashable, ?_, h.linked⟩
    intro e he
    by_cases heid : e.id = id
    · rw [db.eq_of_id_eq he hmem (heid.trans hid.symm), hid]
      exact hrow
    · exact h.others e he heid

/-- A row that says nothing about the others joins them. -/
theorem concat (h : ChainOkExcept sha256 id events) {event : AuditEvent}
    (hself : SelfVouching sha256 event) (hhashable : HashableTarget sha256 event)
    (hsilent : ∀ q ∈ events, q.id ≠ id → commitmentFor sha256 event (.int q.id) = none)
    (hlink : event.previousHash = HashChain.tip AuditEvent.eventHash GENESIS_HASH events) :
    ChainOkExcept sha256 id (events ++ [event]) where
  hashable := List.forall_mem_append.mpr ⟨h.hashable, List.forall_mem_singleton.mpr hhashable⟩
  others := by
    intro q hq hne
    rcases List.mem_append.mp hq with hq | hq
    · rw [lastCommitment_concat, hsilent q hq hne, Option.none_or]
      exact h.others q hq hne
    · rw [List.mem_singleton.mp hq]
      exact hself.contentOk _
  linked := (HashChain.linked_concat _ _ _ _ _).mpr ⟨h.linked, hlink⟩

/-- An update of columns that verification does not look at. -/
theorem map {f : AuditEvent → AuditEvent} (hf : KeepsVerified f)
    (h : ChainOkExcept sha256 id events) : ChainOkExcept sha256 id (events.map f) where
  hashable := by
    intro e he
    obtain ⟨a, ha, rfl⟩ := List.mem_map.mp he
    unfold HashableTarget
    rw [hf.commitmentOf]
    exact h.hashable a ha
  others := by
    intro q hq hne
    obtain ⟨a, ha, rfl⟩ := List.mem_map.mp hq
    rw [hf.id] at hne ⊢
    rw [lastCommitment_map f fun e _ => hf.commitmentFor e _, hf.contentOk]
    exact h.others a ha hne
  linked := (HashChain.linked_map _ _ _ _ f _ _
    (fun e _ => congrArg EventContent.previousHash (hf.content e))
    fun e _ => hf.eventHash e).mpr h.linked

/-- A payload commit that moves no commitment of another redacted row. -/
theorem redactEventFields {db : Database} {row : AuditEvent} {u : Repo.RedactionUpdate}
    (h : ChainOkExcept sha256 id db.auditEvents) (hfound : Repo.getEvent db id = some row)
    (hhashable : HashableTarget sha256 (u.apply row))
    (hlast : ∀ q ∈ db.auditEvents, q.id ≠ id → q.redactedAt ≠ none →
      lastCommitment sha256 (Repo.redactEventFields db id u).auditEvents (.int q.id) =
        lastCommitment sha256 db.auditEvents (.int q.id)) :
    ChainOkExcept sha256 id (Repo.redactEventFields db id u).auditEvents := by
  obtain ⟨hmem, hid⟩ := (Repo.getEvent_eq_some_iff _ _ _).mp hfound
  have hrows := Repo.redactEventFields_auditEvents u hfound
  have hid' : (u.apply row).id = id := hid
  refine ⟨?_, ?_, linked_redactEventFields.mpr h.linked⟩
  · intro e he
    rw [hrows] at he
    rcases (Table.mem_replace_iff AuditEvent.id hmem hid hid').mp he with ⟨he, -⟩ | rfl
    · exact h.hashable e he
    · exact hhashable
  · intro q hq hne
    have hold : q ∈ db.auditEvents := by
      rw [hrows] at hq
      exact (Table.mem_replace_of_ne AuditEvent.id hid' hne).mp hq
    exact (h.others q hold hne).congr (hlast q hold hne)

end ChainOkExcept

/-! ## The chain while redactions run -/

/-- The chain is intact but for the record, whose content is committed to or has a
companion under way. -/
structure Verified (sha256 : Bytes → PyStr) (original row : AuditEvent) (w : World settings) :
    Prop where
  linked : LinkedFrom GENESIS_HASH w.db.auditEvents
  hashable : ∀ e ∈ w.db.auditEvents, HashableTarget sha256 e
  others : ∀ q ∈ w.db.auditEvents, q.id ≠ original.id →
    ContentOk sha256 (lastCommitment sha256 w.db.auditEvents (.int q.id)) q
  relied : NotRelied sha256 w.db original
  target : ContentOk sha256 (lastCommitment sha256 w.db.auditEvents (.int original.id)) row ∨
    (row.redactedAt ≠ none ∧
      ∃ call ∈ w.calls, call.pending? sha256 = some (contentHash sha256 row))
  flagged : ∀ call ∈ w.calls, call.pending? sha256 ≠ none → row.redactedAt ≠ none

variable {original row : AuditEvent} {w w' : World settings}

theorem verified_init {db : Database} (hok : ChainOk sha256 db.auditEvents)
    (hfound : Repo.getEvent db original.id = some original)
    (hrelied : NotRelied sha256 db original) :
    Verified sha256 original original (World.init db : World settings) where
  linked := hok.linked
  hashable := hok.hashable
  others := fun q hq _ => hok.content q hq
  relied := hrelied
  target := Or.inl (hok.content original ((Repo.getEvent_eq_some_iff _ _ _).mp hfound).1)
  flagged := fun _ hcall => by cases hcall

theorem Verified.chainOkExcept (h : Verified sha256 original row w) :
    ChainOkExcept sha256 original.id w.db.auditEvents :=
  ⟨h.hashable, h.others, h.linked⟩

/-- With nothing under way the chain is intact. -/
theorem Verified.chainOk (h : Verified sha256 original row w)
    (hfound : Repo.getEvent w.db original.id = some row)
    (hquiet : ∀ call ∈ w.calls, call.pending? sha256 = none) : ChainOk sha256 w.db.auditEvents := by
  rw [h.chainOkExcept.chainOk_iff hfound]
  rcases h.target with htarget | ⟨-, call, hcall, hpending⟩
  · exact htarget
  · rw [hquiet call hcall] at hpending
    cases hpending

/-- A step that leaves the rows and what is under way. -/
theorem Verified.of_same (h : Verified sha256 original row w)
    (hrows : w'.db.auditEvents = w.db.auditEvents)
    (hkept : ∀ call ∈ w.calls, ∃ call' ∈ w'.calls, call'.pending? sha256 = call.pending? sha256)
    (hnew : ∀ call' ∈ w'.calls, call'.pending? sha256 = none ∨
      ∃ call ∈ w.calls, call'.pending? sha256 = call.pending? sha256) :
    Verified sha256 original row w' where
  linked := by
    rw [hrows]
    exact h.linked
  hashable := by
    rw [hrows]
    exact h.hashable
  others := by
    rw [hrows]
    exact h.others
  relied := by
    refine h.relied.mono ?_ ?_
    · rw [hrows]
      exact fun q hq _ _ => hq
    · rw [hrows]
      exact fun e he _ => he
  target := by
    rw [hrows]
    rcases h.target with htarget | ⟨hred, call, hcall, hpending⟩
    · exact Or.inl htarget
    · rcases hkept call hcall with ⟨call', hcall', hsame⟩
      exact Or.inr ⟨hred, call', hcall', hsame.trans hpending⟩
  flagged := by
    intro call' hcall' hpending
    rcases hnew call' hcall' with hnone | ⟨call, hcall, hsame⟩
    · exact absurd hnone hpending
    · rw [hsame] at hpending
      exact h.flagged call hcall hpending

/-- A call moves on with the same commitment under way. -/
theorem Verified.of_set {c : Nat} {old new : Call settings} (h : Verified sha256 original row w)
    (hold : w.calls[c]? = some old) (hrows : w'.db.auditEvents = w.db.auditEvents)
    (hcalls : w'.calls = w.calls.set c new)
    (hsame : new.pending? sha256 = old.pending? sha256) : Verified sha256 original row w' := by
  refine h.of_same hrows ?_ ?_
  · intro call hcall
    rw [hcalls]
    rcases List.mem_iff_getElem?.mp hcall with ⟨d, hd⟩
    by_cases hdc : d = c
    · subst hdc
      rw [hd] at hold
      cases hold
      exact ⟨new, mem_set_self hd new, hsame⟩
    · exact ⟨call, mem_set_of_ne hold hdc hd new, rfl⟩
  · intro call' hcall'
    rw [hcalls] at hcall'
    rcases List.mem_or_eq_of_mem_set hcall' with hcall' | rfl
    · exact Or.inr ⟨call', hcall', rfl⟩
    · exact Or.inr ⟨old, List.mem_of_getElem? hold, hsame⟩

/-! ## The payload commit -/

/-- The row that is written has the content its writer commits to. -/
theorem contentHash_writtenRow {event : AuditEvent} (hevent : Retouched original event)
    (hrow : Retouched original row) (req : RedactRequest) :
    contentHash sha256 (writtenRow sha256 req event row) =
      redactedContentHash sha256 event (fieldsToRedact event req.fields) := by
  have hcontent : ∀ {a : AuditEvent} (p : Payload), Retouched original a →
      { a.toEventContent with payload := p } = { original.toEventContent with payload := p } :=
    fun p h => (congrArg (fun e : AuditEvent => { e.toEventContent with payload := p }) h :)
  show computeEventHash sha256 { row.toEventContent with payload := _ } =
    computeEventHash sha256 { event.toEventContent with payload := _ }
  rw [hcontent _ hrow, hcontent _ hevent]
  rfl

/-- Writing the record moves no commitment that another redacted row relies on. -/
theorem NotRelied.lastCommitment_replace {db : Database} (h : NotRelied sha256 db original)
    {row' : AuditEvent} (hfound : Repo.getEvent db original.id = some row)
    (hrow : RedactedFrom sha256 original row) (hrow' : RedactedFrom sha256 original row')
    {q : AuditEvent} (hq : q ∈ db.auditEvents) (hne : q.id ≠ original.id)
    (hredacted : q.redactedAt ≠ none) :
    lastCommitment sha256 (Table.replace AuditEvent.id db.auditEvents original.id row') (.int q.id) =
      lastCommitment sha256 db.auditEvents (.int q.id) := by
  rcases (Repo.getEvent_eq_some_iff _ _ _).mp hfound with ⟨hmem, hid⟩
  -- A record that does not name `q` commits to nothing for it, before and after.
  have hunnamed : (original.eventType = REDACTION_EVENT_TYPE →
      hashKey (original.payload.get "targetEventId") ≠ some (.int q.id)) →
      lastCommitment sha256 (Table.replace AuditEvent.id db.auditEvents original.id row')
          (.int q.id) =
        lastCommitment sha256 db.auditEvents (.int q.id) := by
    intro hname
    rw [← hid]
    apply AuditLog.lastCommitment_replace hmem
    rw [hrow.commitmentFor_eq_none hname, hrow'.commitmentFor_eq_none hname]
  by_cases htype : original.eventType = REDACTION_EVENT_TYPE
  · rcases (h htype).2 q hq hne hredacted with hname | ⟨e, he, hlater, hsome⟩
    · exact hunnamed fun _ => hname
    · exact lastCommitment_replace_overruled db.ordered he hlater hsome
  · exact hunnamed fun h => absurd h htype

/-- **The payload commit** of a call: the row's new content is the one the call is
about to commit to. -/
theorem Verified.write (h : Verified sha256 original row w) (hr : Redacting sha256 original row w)
    {c : Nat} {req : RedactRequest} {event : AuditEvent}
    (hcall : w.calls[c]? = some (.redact req (.redacting event))) :
    Verified sha256 original (writtenRow sha256 req event row)
      { w with
        db := Repo.redactEventFields w.db req.eventId
          (redactionUpdate sha256 event (fieldsToRedact event req.fields) req.now)
        calls := w.calls.set c (.redact req (.refreshing event)) } := by
  have hok := hr.callOk hcall
  have hread := hok.read event rfl
  have hshape : RedactedFrom sha256 original (writtenRow sha256 req event row) :=
    hread.write hr.shape.retouched req.fields req.now
  have hrows : (Repo.redactEventFields w.db req.eventId
      (redactionUpdate sha256 event (fieldsToRedact event req.fields) req.now)).auditEvents =
      Table.replace AuditEvent.id w.db.auditEvents original.id (writtenRow sha256 req event row) := by
    rw [hok.target]
    exact Repo.redactEventFields_auditEvents _ hr.found
  have hid : (writtenRow sha256 req event row).id = original.id := hshape.retouched.id
  have hrow := (Repo.getEvent_eq_some_iff _ _ _).mp hr.found
  have hmem : ∀ {q : AuditEvent}, q.id ≠ original.id →
      (q ∈ Table.replace AuditEvent.id w.db.auditEvents original.id (writtenRow sha256 req event row) ↔
        q ∈ w.db.auditEvents) := fun hq => Table.mem_replace_of_ne AuditEvent.id hid hq
  have hchain : ChainOkExcept sha256 original.id (Repo.redactEventFields w.db req.eventId
      (redactionUpdate sha256 event (fieldsToRedact event req.fields) req.now)).auditEvents := by
    rw [hok.target]
    refine h.chainOkExcept.redactEventFields hr.found (hshape.hashableTarget h.relied) ?_
    intro q hq hne hredacted
    rw [Repo.redactEventFields_auditEvents _ hr.found]
    exact h.relied.lastCommitment_replace hr.found hr.shape hshape hq hne hredacted
  refine ⟨hchain.linked, hchain.hashable, hchain.others, ?_, ?_, ?_⟩
  · refine h.relied.mono ?_ ?_
    · intro q hq hne _
      rw [hrows] at hq
      exact (hmem hne).mp hq
    · intro e he hne
      rw [hrows]
      exact (hmem hne).mpr he
  · -- The call's own companion is under way from now on.
    refine Or.inr ⟨Option.some_ne_none _, .redact req (.refreshing event), ?_, ?_⟩
    · exact mem_set_self hcall _
    · exact congrArg some (contentHash_writtenRow hread.retouched hr.shape.retouched req).symm
  · intro _ _ _
    exact Option.some_ne_none _

/-! ## The companion's commit -/

theorem Staged.selfVouching {db : Database} {req : CreateRequest settings} {event : AuditEvent}
    (h : Staged sha256 db req event) : SelfVouching sha256 event :=
  ⟨h.hash.symm, h.unredacted⟩

/-- A staged companion is a companion of the row its call read. -/
theorem isCompanionFor_staged {db : Database} {req : RedactRequest} {event companion : AuditEvent}
    {body : AuditEventCreate settings}
    (hstaged : Staged sha256 db { eventIn := body, tenantId := event.tenantId } companion)
    (hbody : companionBody settings req (fieldsToRedact event req.fields)
      (redactedContentHash sha256 event (fieldsToRedact event req.fields)) = .ok body) :
    IsCompanionFor sha256 req event companion := by
  rcases companionBody_ok hbody with ⟨htype, hpayload⟩
  have hcompanion := hstaged.payload.trans hpayload
  refine ⟨hstaged.selfVouching, hstaged.eventType.trans htype, ?_, ?_⟩
  · rw [hcompanion]
    exact companionPayload_target req _ _
  · rw [hcompanion]
    exact companionPayload_commitment req _ _

/-- **The companion's commit** of a call: it commits to the row as it is, or some
other call is about to. -/
theorem Verified.commit (h : Verified sha256 original row w) (hr : Redacting sha256 original row w)
    (hd : Disciplined sha256 w) (hb : Bodied sha256 w) {c : Nat} {req : RedactRequest}
    {event updated companion : AuditEvent} {body : AuditEventCreate settings}
    {record : Option IdempotencyKey} {db' : Database}
    (hcall : w.calls[c]? =
      some (.redact req (.appending event updated body (.recorded companion record))))
    (hleaves : LeavesCommitment sha256 w c)
    (hcommit : Repo.commitAppend noFailure w.db companion record = .ok db') (lock : Option Nat)
    (log : List Appended) :
    Verified sha256 original row
      (⟨db', lock, w.calls.set c (.redact req (.appending event updated body (.committed companion))),
        log⟩ : World settings) := by
  have htarget : req.eventId = original.id := (hr.callOk hcall).target
  have hstaged : Staged sha256 w.db { eventIn := body, tenantId := event.tenantId } companion :=
    hd.phase ⟨_, hcall, rfl⟩
  have hcompanion := isCompanionFor_staged hstaged (hb _ _ _ _ _ _ hcall)
  have hrows := (Repo.commitAppend_cases hstaged.last hcommit).1
  have hchain : ChainOkExcept sha256 original.id db'.auditEvents := by
    rw [hrows]
    refine h.chainOkExcept.concat hcompanion.self hcompanion.hashableTarget ?_ hstaged.linked
    -- The companion names the record, so the other rows keep their commitments.
    intro q _ hne
    rw [hcompanion.commitmentFor, htarget, if_neg fun hkey => hne (HashKey.int.inj hkey)]
  refine ⟨hchain.linked, hchain.hashable, hchain.others, ?_, ?_, ?_⟩
  · refine h.relied.mono ?_ ?_
    · intro q hq _ hredacted
      rw [hrows] at hq
      rcases List.mem_append.mp hq with hq | hq
      · exact hq
      · rw [List.mem_singleton.mp hq] at hredacted
        exact absurd hcompanion.self.unredacted hredacted
    · intro e he _
      rw [hrows]
      exact List.mem_append_left _ he
  · have hredacted : row.redactedAt ≠ none :=
      h.flagged _ (List.mem_of_getElem? hcall) (Option.some_ne_none _)
    unfold LeavesCommitment at hleaves
    rw [hcall] at hleaves
    rcases hleaves row (by rw [htarget]; exact hr.found) with hcurrent | ⟨d, -, hdc, hpending⟩
    · left
      rw [contentOk_redacted hredacted, hrows, lastCommitment_concat, hcompanion.commitmentFor,
        htarget, if_pos rfl]
      exact congrArg (fun hash => some (Json.str hash)) hcurrent
    · right
      rcases Option.bind_eq_some_iff.mp hpending with ⟨call, hd, hcommitment⟩
      exact ⟨hredacted, call, mem_set_of_ne hcall hdc hd _, hcommitment⟩
  · intro call hmem hpending
    rcases List.mem_or_eq_of_mem_set hmem with hmem | rfl
    · exact h.flagged call hmem hpending
    · exact absurd rfl hpending

end AuditLog
