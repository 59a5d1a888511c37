import AuditLog.Concurrency.CommittingAppends
import AuditLog.Concurrency.SerialSystem

/-!
# One append at a time

The sessions interleave statement by statement, and their appends are still those of the
sequential service. Each append is put where its call commits, or where the lookup answers
it: `create_audit_event` as one uninterrupted step there finds the same rows, writes the same
row and gives the same answer (`appends_serializable`). A redaction reads, writes and appends its
companion where its session does; as a whole it is not serial, since what others do in between
stays there.
-/

namespace AuditLog

variable {sha256 : Bytes → PyStr} {settings : Settings} {s s' : Serial settings}
  {serialAction : SerialAction settings}

/-! ## What has been done for a call -/

/-- Nothing has been done for the call. -/
structure Serial.Untouched (s : Serial settings) (c : Nat) : Prop where
  unread : Unread s.readings c
  unwritten : c ∉ s.written
  unanswered : Unanswered s.answers c

theorem Serial.Elsewhere.untouched {c : Nat} (h : s.Elsewhere s' c) (hs : s.Untouched c) :
    s'.Untouched c :=
  ⟨h.unread hs.unread, h.unwritten hs.unwritten, h.unanswered hs.unanswered⟩

/-- All three steps of the redaction have been made. -/
structure Serial.Documented (sha256 : Bytes → PyStr) (s : Serial settings) (c : Nat)
    (req : RedactRequest) (event companion : AuditEvent) : Prop where
  read : ⟨c, req, .ok event⟩ ∈ s.readings
  written : c ∈ s.written
  appended : ∃ body, companionBody settings req (fieldsToRedact event req.fields)
      (redactedContentHash sha256 event (fieldsToRedact event req.fields)) = .ok body ∧
    ⟨c, { eventIn := body, tenantId := event.tenantId }, .ok companion⟩ ∈ s.answers

/-- An append and what the serial system has answered it. -/
def AppendPhase.Answered (answers : List (Answer settings)) (log : List Appended) (c : Nat)
    (req : CreateRequest settings) : AppendPhase → Prop
  | .committed event => ⟨c, req, .ok event⟩ ∈ answers ∧ ⟨c, event⟩ ∈ log
  -- The row that is returned was read again: others may have redacted or archived it.
  | .ended (.ok row) => ∃ event, ⟨c, req, .ok event⟩ ∈ answers ∧ Retouched event row
  -- A session that has lost its connection has appended its row or has not.
  | .ended (.error err) =>
    (err.Declared → ⟨c, req, .error err⟩ ∈ answers) ∧
      (¬ err.Declared → Unanswered answers c ∨ ∃ event, ⟨c, req, .ok event⟩ ∈ answers)
  | _ => Unanswered answers c

/-- A call and what the serial system has done for it: it is where its session is, and has
given the answer that the session gives. -/
def Call.Followed (sha256 : Bytes → PyStr) (s : Serial settings) (log : List Appended) (c : Nat) :
    Call settings → Prop
  | .create req phase =>
    Unread s.readings c ∧ c ∉ s.written ∧ phase.Answered s.answers log c req
  | .redact _ .reading => s.Untouched c
  | .redact req (.redacting event) =>
    ⟨c, req, .ok event⟩ ∈ s.readings ∧ c ∉ s.written ∧ Unanswered s.answers c
  | .redact req (.refreshing event) =>
    ⟨c, req, .ok event⟩ ∈ s.readings ∧ c ∈ s.written ∧ Unanswered s.answers c
  | .redact req (.appending event updated body phase) =>
    ⟨c, req, .ok event⟩ ∈ s.readings ∧ c ∈ s.written ∧ Retouched event updated ∧
      -- An append that ends is followed by the end of the redaction.
      (∀ outcome, phase ≠ .ended outcome) ∧
      phase.Answered s.answers log c { eventIn := body, tenantId := event.tenantId }
  -- The rows that are returned were read again as well.
  | .redact req (.ended (.ok result)) =>
    ∃ event companion, s.Documented sha256 c req event companion ∧
      result.newlyRedactedFields = fieldsToRedact event req.fields ∧
      result.redactedContentHash =
        redactedContentHash sha256 event (fieldsToRedact event req.fields) ∧
      Retouched event result.event ∧ Retouched companion result.redactionEvent
  | .redact req (.ended (.error err)) =>
    (err.Declared → ⟨c, req, .error err⟩ ∈ s.readings ∧ c ∉ s.written ∧ Unanswered s.answers c) ∧
      (¬ err.Declared → s.Untouched c ∨ ∃ event, ⟨c, req, .ok event⟩ ∈ s.readings ∧
        (Unanswered s.answers c ∨ ∃ companion, s.Documented sha256 c req event companion))

/-- The serial system has the same tables, and has done for each call what its session has
done. -/
structure Follows (sha256 : Bytes → PyStr) (w : World settings) (s : Serial settings) : Prop where
  rows : s.db.auditEvents = w.db.auditEvents
  keys : s.db.idempotencyKeys = w.db.idempotencyKeys
  calls : ∀ (c : Nat) (call : Call settings), w.calls[c]? = some call →
    call.Followed sha256 s w.log c
  uncalled : ∀ c, w.calls.length ≤ c → s.Untouched c

theorem follows_init : Follows sha256 (World.init .empty : World settings) { db := .empty } where
  rows := rfl
  keys := rfl
  calls := fun _ _ hcall => by cases hcall
  uncalled := fun _ _ => ⟨List.forall_mem_nil _, List.not_mem_nil, List.forall_mem_nil _⟩

section Followed

variable {log log' : List Appended} {c : Nat}

theorem AppendPhase.Answered.mono {answers answers' : List (Answer settings)}
    {req : CreateRequest settings} {phase : AppendPhase} (h : phase.Answered answers log c req)
    (hanswers : answers ⊆ answers') (hopen : Unanswered answers c → Unanswered answers' c)
    (hlog : log ⊆ log') : phase.Answered answers' log' c req := by
  cases phase with
  | committed event => exact ⟨hanswers h.1, hlog h.2⟩
  | ended outcome =>
    rcases outcome with err | row
    · refine ⟨fun hdeclared => hanswers (h.1 hdeclared), fun hother => ?_⟩
      exact (h.2 hother).imp hopen fun ⟨event, hevent⟩ => ⟨event, hanswers hevent⟩
    · obtain ⟨event, hevent, hretouched⟩ := h
      exact ⟨event, hanswers hevent, hretouched⟩
  | _ => exact hopen h

theorem Serial.Documented.mono {req : RedactRequest} {event companion : AuditEvent}
    (h : s.Documented sha256 c req event companion) (helsewhere : s.Elsewhere s' c) :
    s'.Documented sha256 c req event companion := by
  obtain ⟨body, hbody, hanswer⟩ := h.appended
  exact ⟨helsewhere.readings h.read, helsewhere.written h.written, body, hbody,
    helsewhere.answers hanswer⟩

/-- What is done for other calls changes nothing for a call that stays where it is. -/
theorem Call.Followed.mono {call : Call settings} (h : call.Followed sha256 s log c)
    (helsewhere : s.Elsewhere s' c) (hlog : log ⊆ log') : call.Followed sha256 s' log' c := by
  have hphase : ∀ {req : CreateRequest settings} {phase : AppendPhase},
      phase.Answered s.answers log c req → phase.Answered s'.answers log' c req :=
    fun hphase => hphase.mono helsewhere.answers helsewhere.unanswered hlog
  rcases call with ⟨req, phase⟩ | ⟨req, phase⟩
  · exact ⟨helsewhere.unread h.1, helsewhere.unwritten h.2.1, hphase h.2.2⟩
  · cases phase with
    | reading => exact helsewhere.untouched h
    | redacting event =>
      exact ⟨helsewhere.readings h.1, helsewhere.unwritten h.2.1, helsewhere.unanswered h.2.2⟩
    | refreshing event =>
      exact ⟨helsewhere.readings h.1, helsewhere.written h.2.1, helsewhere.unanswered h.2.2⟩
    | appending event updated body phase =>
      obtain ⟨hread, hwritten, hretouched, hrunning, hanswered⟩ := h
      exact ⟨helsewhere.readings hread, helsewhere.written hwritten, hretouched, hrunning,
        hphase hanswered⟩
    | ended outcome =>
      rcases outcome with err | result
      · refine ⟨fun hdeclared => ?_, fun hother => (h.2 hother).imp helsewhere.untouched ?_⟩
        · obtain ⟨hread, hunwritten, hopen⟩ := h.1 hdeclared
          exact ⟨helsewhere.readings hread, helsewhere.unwritten hunwritten,
            helsewhere.unanswered hopen⟩
        · rintro ⟨event, hread, hstage⟩
          exact ⟨event, helsewhere.readings hread, hstage.imp helsewhere.unanswered
            fun ⟨companion, hdone⟩ => ⟨companion, hdone.mono helsewhere⟩⟩
      · obtain ⟨event, companion, hdone, hresult⟩ := h
        exact ⟨event, companion, hdone.mono helsewhere, hresult⟩

/-- The append that a followed call is in has been answered as far as it has got. -/
theorem Call.Followed.append {call : Call settings} {req : CreateRequest settings}
    {phase : AppendPhase} (h : call.Followed sha256 s log c)
    (happend : call.append? = some (req, phase)) : phase.Answered s.answers log c req := by
  rcases call with ⟨req₀, phase₀⟩ | ⟨req₀, phase₀⟩
  · cases happend
    exact h.2.2
  · cases phase₀ with
    | appending event updated body phase₀ =>
      cases happend
      exact h.2.2.2.2
    | _ => cases happend

/-- A session that rolls back has had its append, or has had nothing. -/
theorem AppendPhase.Answered.raised {answers : List (Answer settings)}
    {req : CreateRequest settings} {phase : AppendPhase} (h : phase.Answered answers log c req)
    (hrunning : ∀ outcome, phase ≠ .ended outcome) :
    Unanswered answers c ∨ ∃ event, ⟨c, req, .ok event⟩ ∈ answers := by
  cases phase with
  | committed event => exact Or.inr ⟨event, h.1⟩
  | ended outcome => exact absurd rfl (hrunning outcome)
  | _ => exact Or.inl h

/-- A call whose session rolls back keeps what has been done for it. -/
theorem Call.Followed.raised {call : Call settings} {err : ServiceError}
    (h : call.Followed sha256 s log c) (hbodied : ∀ req event updated body phase,
      call = .redact req (.appending event updated body phase) →
        companionBody settings req (fieldsToRedact event req.fields)
          (redactedContentHash sha256 event (fieldsToRedact event req.fields)) = .ok body)
    (hrunning : call.isEnded = false) (hother : ¬ err.Declared) :
    (call.raised err).Followed sha256 s log c := by
  rcases call with ⟨req, phase⟩ | ⟨req, phase⟩
  · refine ⟨h.1, h.2.1, fun hdeclared => absurd hdeclared hother, fun _ => h.2.2.raised ?_⟩
    rintro outcome rfl
    cases hrunning
  · refine ⟨fun hdeclared => absurd hdeclared hother, fun _ => ?_⟩
    cases phase with
    | reading => exact Or.inl h
    | redacting event => exact Or.inr ⟨event, h.1, Or.inl h.2.2⟩
    | refreshing event => exact Or.inr ⟨event, h.1, Or.inl h.2.2⟩
    | appending event updated body phase =>
      obtain ⟨hread, hwritten, -, hphase, hanswered⟩ := h
      refine Or.inr ⟨event, hread, (hanswered.raised hphase).imp id ?_⟩
      rintro ⟨companion, hcompanion⟩
      exact ⟨companion, hread, hwritten, body, hbodied _ _ _ _ _ rfl, hcompanion⟩
    | ended outcome => cases hrunning

/-- What an append has been answered is what its call has been answered. -/
theorem Call.Followed.resume {call : Call settings} {req : CreateRequest settings}
    {phase next : AppendPhase} (h : call.Followed sha256 s log c) (hcall : w.calls[c]? = some call)
    (hbodied : Bodied sha256 w) (happend : call.append? = some (req, phase))
    (hreadings : s'.readings = s.readings) (hwritten : s'.written = s.written)
    (hnext : next.Answered s'.answers log' c req)
    (hdeclared : ∀ err, next = .ended (.error err) → err.Declared → req.idempotencyKey ≠ none) :
    (call.resume sha256 next).Followed sha256 s' log' c := by
  rcases call with ⟨req₀, phase₀⟩ | ⟨req₀, phase₀⟩
  · cases happend
    unfold Call.resume Call.Followed
    rw [hreadings, hwritten]
    exact ⟨h.1, h.2.1, hnext⟩
  · cases phase₀ with
    | appending event updated body phase₀ =>
      cases happend
      obtain ⟨hread, hwrote, hretouched, -, -⟩ := h
      rw [← hreadings] at hread
      rw [← hwritten] at hwrote
      have hbody := hbodied c req₀ event updated body _ hcall
      have hdone : ∀ {companion : AuditEvent},
          ⟨c, { eventIn := body, tenantId := event.tenantId }, .ok companion⟩ ∈ s'.answers →
          s'.Documented sha256 c req₀ event companion :=
        fun hcompanion => ⟨hread, hwrote, body, hbody, hcompanion⟩
      cases next with
      | ended outcome =>
        rcases outcome with err | row
        · -- A companion has no key, so its append raises nothing that the service declares.
          refine ⟨fun hown => absurd rfl (hdeclared err rfl hown), fun hother => ?_⟩
          exact Or.inr ⟨event, hread, (hnext.2 hother).imp id fun ⟨companion, hcompanion⟩ =>
            ⟨companion, hdone hcompanion⟩⟩
        · obtain ⟨companion, hcompanion, hsame⟩ := hnext
          exact ⟨event, companion, hdone hcompanion, rfl, rfl, hretouched, hsame⟩
      | _ => exact ⟨hread, hwrote, hretouched, (fun _ h => by cases h), hnext⟩
    | _ => cases happend

end Followed

/-! ## One step -/

variable {w w' : World settings} {action : Action settings} {c : Nat}

/-- The serial system waits, or makes a step for the call that moves. -/
theorem Follows.go {call call' : Call settings} (h : Follows sha256 w s)
    (hcall : w.calls[c]? = some call) (hcalls : w'.calls = w.calls.set c call')
    (hothers : ∀ d, d ≠ c → s.Elsewhere s' d)
    (hrows : s'.db.auditEvents = w'.db.auditEvents)
    (hkeys : s'.db.idempotencyKeys = w'.db.idempotencyKeys) (hlog : w.log ⊆ w'.log)
    (hself : call'.Followed sha256 s' w'.log c) : Follows sha256 w' s' where
  rows := hrows
  keys := hkeys
  calls := by
    intro d other hother
    rw [hcalls] at hother
    rcases (getElem?_set_some hcall).mp hother with ⟨rfl, rfl⟩ | ⟨hne, hother⟩
    · exact hself
    · exact (h.calls d other hother).mono (hothers d hne) hlog
  uncalled := by
    intro d hd
    rw [hcalls, List.length_set] at hd
    have hlt : c < w.calls.length := (List.getElem?_eq_some_iff.mp hcall).1
    exact (hothers d (by omega)).untouched (h.uncalled d hd)

/-- The serial system waits while a call moves for which there is nothing to do. -/
theorem Follows.wait {call call' : Call settings} (h : Follows sha256 w s)
    (hcall : w.calls[c]? = some call) (hcalls : w'.calls = w.calls.set c call')
    (hrows : w'.db.auditEvents = w.db.auditEvents)
    (hkeys : w'.db.idempotencyKeys = w.db.idempotencyKeys) (hlog : w'.log = w.log)
    (hself : call'.Followed sha256 s w.log c) : Follows sha256 w' s := by
  refine h.go hcall hcalls (fun d _ => elsewhere_refl s d) (h.rows.trans hrows.symm)
    (h.keys.trans hkeys.symm) ?_ ?_
  · rw [hlog]
    exact fun _ => id
  · rw [hlog]
    exact hself

/-- A serial step for a call. -/
theorem Follows.goWith {call call' : Call settings} (h : Follows sha256 w s)
    (hstep : serialStep sha256 serialAction s = some s') (hown : serialAction.call? = some c)
    (hcall : w.calls[c]? = some call) (hcalls : w'.calls = w.calls.set c call')
    (hrows : s'.db.auditEvents = w'.db.auditEvents)
    (hkeys : s'.db.idempotencyKeys = w'.db.idempotencyKeys) (hlog : w.log ⊆ w'.log)
    (hself : call'.Followed sha256 s' w'.log c) :
    ∃ s', Machine.Reaches (serialStep sha256) (fun _ _ => True) s s' ∧ Follows sha256 w' s' := by
  refine ⟨s', Machine.Reaches.refl.tail trivial hstep,
    h.go hcall hcalls (fun d hd => (serialStep_cases hstep).elsewhere ?_) hrows hkeys hlog hself⟩
  rw [hown]
  exact fun heq => hd (Option.some.inj heq).symm

/-- The serial append of a call: its own one, or that of its companion. -/
theorem Call.Followed.exists_append {call : Call settings} {req : CreateRequest settings}
    {phase : AppendPhase} {now : DateTime} {eventId : Int} {outcome : Except ServiceError AuditEvent}
    {db : Database} (h : call.Followed sha256 s w.log c) (hcall : w.calls[c]? = some call)
    (hbodied : Bodied sha256 w) (happend : call.append? = some (req, phase))
    (hopen : Unanswered s.answers c) (hids : ∀ e ∈ s.db.auditEvents, e.id < eventId)
    (hserial : createAuditEvent sha256 noFailure (s.db.atEventId eventId hids) req now =
      (outcome, db)) :
    ∃ serialAction : SerialAction settings, serialAction.call? = some c ∧
      serialStep sha256 serialAction s =
        some { s with db, answers := s.answers ++ [⟨c, req, outcome⟩] } := by
  have hstep := Serial.append_eq_some hids hopen hserial
  rcases call with ⟨req₀, phase₀⟩ | ⟨req₀, phase₀⟩
  · cases happend
    exact ⟨.create c _ now eventId, rfl, hstep⟩
  · cases phase₀ with
    | appending event updated body phase₀ =>
      cases happend
      refine ⟨.companion c req₀ event now eventId, rfl, ?_⟩
      unfold serialStep
      dsimp only
      rw [if_pos ⟨h.1, h.2.1⟩, hbodied c req₀ event updated body _ hcall]
      exact hstep
    | _ => cases happend

/-- What the invariants say about a state of the sessions. -/
structure Sound (sha256 : Bytes → PyStr) (w : World settings) : Prop where
  disciplined : Disciplined sha256 w
  history : HistoryOk sha256 w
  stored : Stored sha256 w
  bookkept : Bookkept sha256 w
  bodied : Bodied sha256 w
  fresh : FreshHashes w

theorem sound_of_reaches {ok : World settings → Action settings → Prop}
    (h : Machine.Reaches (AuditLog.step sha256) ok (.init .empty) w) : Sound sha256 w :=
  ⟨disciplined_of_reaches h, historyOk_of_reaches h, stored_of_reaches h, bookkept_of_reaches h,
    bodied_of_reaches h, freshHashes_of_reaches h⟩

/-- The row that a refresh reads is the committed one, retouched. -/
theorem HistoryOk.retouched_of_getEvent (h : HistoryOk sha256 w) {created : AuditEvent}
    (hcreated : created ∈ w.history) {row : AuditEvent}
    (hrow : Repo.getEvent w.db created.id = some row) : Retouched created row := by
  obtain ⟨hmem, hid⟩ := (Repo.getEvent_eq_some_iff _ _ _).mp hrow
  obtain ⟨stored, hstored, hretouched⟩ := HashChain.exists_of_forall₂_right h.rows.flip hcreated
  have hsame : Retouched created stored := hretouched
  rw [w.db.eq_of_id_eq hmem hstored (hid.trans hsame.id.symm)]
  exact hsame

/-- A redaction refreshes the row that it has read. -/
theorem Sound.retouched_of_read (h : Sound sha256 w) {req : RedactRequest} {event updated : AuditEvent}
    (hcall : w.calls[c]? = some (.redact req (.refreshing event)))
    (hrow : Repo.getEvent w.db req.eventId = some updated) : Retouched event updated := by
  obtain ⟨created, hcreated, hid, hread⟩ :=
    (h.stored.calls _ (List.mem_of_getElem? hcall)).read req _ event rfl rfl
  rw [← hid] at hrow
  have hupdated := h.history.retouched_of_getEvent hcreated hrow
  have hevent := hread.retouched
  unfold Retouched at hevent hupdated ⊢
  rw [hevent, hupdated]

/-- The serial system follows a step of an append. -/
theorem Follows.append {call : Call settings} {req : CreateRequest settings} {phase : AppendPhase}
    {m : AppendStep} (h : Follows sha256 w s) (hw : Sound sha256 w) (hcall : w.calls[c]? = some call)
    (happend : call.append? = some (req, phase))
    (hmove : AppendMove sha256 w.db w.lock c req phase m) :
    ∃ s', Machine.Reaches (serialStep sha256) (fun _ _ => True) s s' ∧
      Follows sha256 ⟨m.db, m.lock, w.calls.set c (call.resume sha256 m.phase),
        w.log ++ m.appended.toList.map (⟨c, ·⟩)⟩ s' := by
  have hown : w.Appending c req phase := ⟨call, hcall, happend⟩
  have hfollowed := h.calls c call hcall
  have hbefore := hfollowed.append happend
  have hids : ∀ e ∈ s.db.auditEvents, e.id < w.db.nextEventId := by
    rw [h.rows]
    exact w.db.sequenceAhead
  -- The steps that commit nothing and answer nothing.
  have hwait : m.db.auditEvents = w.db.auditEvents → m.db.idempotencyKeys = w.db.idempotencyKeys →
      m.appended = none → m.phase.Answered s.answers w.log c req →
      (∀ err, m.phase = .ended (.error err) → ¬ err.Declared) →
      ∃ s', Machine.Reaches (serialStep sha256) (fun _ _ => True) s s' ∧
        Follows sha256 ⟨m.db, m.lock, w.calls.set c (call.resume sha256 m.phase),
          w.log ++ m.appended.toList.map (⟨c, ·⟩)⟩ s' := by
    intro hrows hkeys hnone hself hraised
    refine ⟨s, .refl, h.wait hcall rfl hrows hkeys ?_ (hfollowed.resume hcall hw.bodied happend rfl
      rfl hself fun err he hdeclared => absurd hdeclared (hraised err he))⟩
    rw [hnone]
    exact List.append_nil _
  -- The steps that the serial system answers, with one uninterrupted call.
  have hanswer : ∀ {eventId : Int} {now : DateTime} {outcome : Except ServiceError AuditEvent}
      {db : Database} (hids : ∀ e ∈ s.db.auditEvents, e.id < eventId), Unanswered s.answers c →
      createAuditEvent sha256 noFailure (s.db.atEventId eventId hids) req now = (outcome, db) →
      db.auditEvents = m.db.auditEvents → db.idempotencyKeys = m.db.idempotencyKeys →
      (∀ {answers log}, ⟨c, req, outcome⟩ ∈ answers →
        m.appended.toList.map (Appended.mk c) ⊆ log → m.phase.Answered answers log c req) →
      (∀ err, m.phase = .ended (.error err) → req.idempotencyKey ≠ none) →
      ∃ s', Machine.Reaches (serialStep sha256) (fun _ _ => True) s s' ∧
        Follows sha256 ⟨m.db, m.lock, w.calls.set c (call.resume sha256 m.phase),
          w.log ++ m.appended.toList.map (⟨c, ·⟩)⟩ s' := by
    intro eventId now outcome db hids hopen hserial hrows hkeys hself hkeyed
    obtain ⟨serialAction, hactor, hstep⟩ :=
      hfollowed.exists_append hcall hw.bodied happend hopen hids hserial
    refine h.goWith hstep hactor hcall rfl hrows hkeys (List.subset_append_left _ _) ?_
    exact hfollowed.resume hcall hw.bodied happend rfl rfl
      (hself (List.mem_append_right _ List.mem_cons_self) (List.subset_append_right _ _))
      fun err he _ => hkeyed err he
  cases hmove with
  | acquire free => exact hwait rfl rfl rfl hbefore fun _ he => by cases he
  | lookup hlookup => exact hwait rfl rfl rfl hbefore fun _ he => by cases he
  | link => exact hwait rfl rfl rfl hbefore fun _ he => by cases he
  | record hrecord => exact hwait rfl rfl rfl hbefore fun _ he => by cases he
  | flush hstage =>
    obtain ⟨rfl, -⟩ := Repo.insertEvent_cases hstage
    exact hwait rfl rfl rfl hbefore fun _ he => by cases he
  | flushFails hstage =>
    obtain ⟨rfl, -⟩ := Repo.insertEvent_cases hstage
    exact hwait rfl rfl rfl ⟨False.elim, fun _ => Or.inl hbefore⟩ fun _ he => by cases he; exact id
  | recordFails hrecord =>
    exact hwait rfl rfl rfl ⟨False.elim, fun _ => Or.inl hbefore⟩ fun _ he => by cases he; exact id
  | commitFails hcommit =>
    exact hwait rfl rfl rfl ⟨False.elim, fun _ => Or.inl hbefore⟩ fun _ he => by cases he; exact id
  | @refreshFails event hrow =>
    exact hwait rfl rfl rfl ⟨False.elim, fun _ => Or.inr ⟨event, hbefore.1⟩⟩ fun _ he => by
      cases he
      exact id
  | @refresh event row hrow =>
    obtain ⟨hanswer, hlogged⟩ := hbefore
    have hcreated : event ∈ w.history := List.mem_map_of_mem hlogged
    exact hwait rfl rfl rfl ⟨event, hanswer, hw.history.retouched_of_getEvent hcreated hrow⟩
      fun _ he => by cases he
  | @refuse err hlookup =>
    have hlookup' : replayOrConflict sha256 noFailure (s.db.atEventId _ hids) req = .error err :=
      (replayOrConflict_congr h.rows h.keys).trans hlookup
    have hserial : createAuditEvent sha256 noFailure (s.db.atEventId _ hids) req .sample =
        (.error err, s.db.atEventId _ hids) := createAuditEvent_of_lookup (Or.inl ⟨err, hlookup', rfl⟩)
    exact hanswer hids hbefore hserial h.rows h.keys
      (fun hmem _ => ⟨fun _ => hmem, fun hother => absurd (declared_of_replayOrConflict hlookup) hother⟩)
      fun _ _ => replayOrConflict_error hlookup
  | @replay row hlookup =>
    have hlookup' : replayOrConflict sha256 noFailure (s.db.atEventId _ hids) req = .ok (some row) :=
      (replayOrConflict_congr h.rows h.keys).trans hlookup
    have hserial : createAuditEvent sha256 noFailure (s.db.atEventId _ hids) req .sample =
        (.ok row, s.db.atEventId _ hids) := createAuditEvent_of_lookup (Or.inr ⟨row, hlookup', rfl⟩)
    exact hanswer hids hbefore hserial h.rows h.keys
      (fun hmem _ => ⟨row, hmem, Retouched.refl row⟩) fun _ he => by cases he
  -- The serial call is made here: the lock has kept everything that the session has found.
  | @commit event record db' hcommit =>
    have hstaged : Staged sha256 w.db req event := hw.disciplined.phase hown
    have hids' : ∀ e ∈ s.db.auditEvents, e.id < event.id := by
      rw [h.rows]
      exact hstaged.last
    have hpristine : event.Pristine :=
      (hw.stored.calls call (List.mem_of_getElem? hcall)).staged req _ event happend rfl
    obtain ⟨db₁, hserial, hrows, hkeys⟩ : ∃ db₁, createAuditEvent sha256 noFailure
        (s.db.atEventId event.id hids') req event.timestamp = (.ok event, db₁) ∧
          db₁.auditEvents = db'.auditEvents ∧ db₁.idempotencyKeys = db'.idempotencyKeys :=
      createAuditEvent_of_recorded hstaged hpristine (hw.fresh c req _ event hown rfl)
        ((hw.bookkept.calls c call hcall).free req _ happend) h.rows h.keys rfl hcommit
    exact hanswer hids' hbefore hserial hrows hkeys
      (fun hmem hlog => ⟨hmem, hlog List.mem_cons_self⟩) fun _ he => by cases he

/-- For a call that starts nothing has been done. -/
theorem Follows.start {call : Call settings} (h : Follows sha256 w s)
    (hself : ∀ {c : Nat}, s.Untouched c → call.Followed sha256 s w.log c) :
    Follows sha256 { w with calls := w.calls ++ [call] } s where
  rows := h.rows
  keys := h.keys
  calls := by
    intro c other hother
    rcases getElem?_concat_some.mp hother with hother | ⟨rfl, rfl⟩
    · exact h.calls c other hother
    · exact hself (h.uncalled _ (Nat.le_refl _))
  uncalled := by
    intro c hc
    rw [List.length_append] at hc
    exact h.uncalled c (Nat.le_of_add_right_le hc)

/-- The serial system follows a step of a redaction. -/
theorem Follows.redaction {req : RedactRequest} {phase phase' : RedactPhase settings} {db' : Database}
    (h : Follows sha256 w s) (hw : Sound sha256 w) (hcall : w.calls[c]? = some (.redact req phase))
    (hmove : RedactMove sha256 w.db req phase db' phase') :
    ∃ s', Machine.Reaches (serialStep sha256) (fun _ _ => True) s s' ∧
      Follows sha256 { w with db := db', calls := w.calls.set c (.redact req phase') } s' := by
  have hbefore := h.calls c _ hcall
  have hsame : Repo.getEvent s.db req.eventId = Repo.getEvent w.db req.eventId := by
    unfold Repo.getEvent
    rw [h.rows]
  -- The read of the row, with what it finds.
  have hread : ∀ {outcome : Except ServiceError AuditEvent} {next : RedactPhase settings},
      phase = .reading → eventToRedact s.db req = outcome →
      (∀ s' : Serial settings, ⟨c, req, outcome⟩ ∈ s'.readings → c ∉ s'.written →
        Unanswered s'.answers c → (Call.redact req next).Followed sha256 s' w.log c) →
      ∃ s', Machine.Reaches (serialStep sha256) (fun _ _ => True) s s' ∧
        Follows sha256 { w with calls := w.calls.set c (.redact req next) } s' := by
    rintro outcome next rfl rfl hself
    have huntouched : s.Untouched c := hbefore
    have hserial : serialStep sha256 (.read c req) s = some _ := if_pos huntouched.unread
    exact h.goWith hserial rfl hcall rfl h.rows h.keys (fun _ => id)
      (hself _ (List.mem_append_right _ List.mem_cons_self) huntouched.unwritten
        huntouched.unanswered)
  cases hmove with
  | missing hrow =>
    have houtcome : eventToRedact s.db req = .error (.eventNotFound req.eventId) := by
      unfold eventToRedact
      rw [hsame, hrow]
    exact hread rfl houtcome fun s' hreading hunwritten hopen =>
      ⟨fun _ => ⟨hreading, hunwritten, hopen⟩, fun hother => absurd trivial hother⟩
  | nothing hrow hnone =>
    have houtcome : eventToRedact s.db req = .error (.noRedactableFields req.fields) := by
      unfold eventToRedact
      rw [hsame, hrow]
      exact if_pos hnone
    exact hread rfl houtcome fun s' hreading hunwritten hopen =>
      ⟨fun _ => ⟨hreading, hunwritten, hopen⟩, fun hother => absurd trivial hother⟩
  | @read event hrow hsome =>
    have houtcome : eventToRedact s.db req = .ok event := by
      unfold eventToRedact
      rw [hsame, hrow]
      exact if_neg hsome
    exact hread rfl houtcome fun s' hreading hunwritten hopen => ⟨hreading, hunwritten, hopen⟩
  -- The serial `UPDATE` is computed from the same reading, so it writes the same columns.
  | @write event =>
    obtain ⟨hreading, hunwritten, hopen⟩ := hbefore
    have hserial : serialStep sha256 (.write c req event) s = some _ :=
      if_pos ⟨hreading, hunwritten⟩
    refine h.goWith hserial rfl hcall rfl ?_ h.keys (fun _ => id)
      ⟨hreading, List.mem_append_right _ List.mem_cons_self, hopen⟩
    show List.map _ s.db.auditEvents = List.map _ w.db.auditEvents
    rw [h.rows]
  | @refreshFails event hrow =>
    obtain ⟨hreading, -, hopen⟩ := hbefore
    exact ⟨s, .refl, h.wait hcall rfl rfl rfl rfl
      ⟨False.elim, fun _ => Or.inr ⟨event, hreading, Or.inl hopen⟩⟩⟩
  | @reject event updated errors hrow hbody =>
    obtain ⟨hreading, -, hopen⟩ := hbefore
    exact ⟨s, .refl, h.wait hcall rfl rfl rfl rfl
      ⟨False.elim, fun _ => Or.inr ⟨event, hreading, Or.inl hopen⟩⟩⟩
  | refresh hrow hbody =>
    obtain ⟨hreading, hwritten, hopen⟩ := hbefore
    exact ⟨s, .refl, h.wait hcall rfl rfl rfl rfl
      ⟨hreading, hwritten, hw.retouched_of_read hcall hrow, (fun _ h => by cases h), hopen⟩⟩

/-- **One step of the sessions** is followed by the serial system. -/
theorem Follows.step (h : Follows sha256 w s) (hw : Sound sha256 w)
    (hstep : Transition sha256 w action w') :
    ∃ s', Machine.Reaches (serialStep sha256) (fun _ _ => True) s s' ∧ Follows sha256 w' s' := by
  cases hstep with
  | create req =>
    exact ⟨s, .refl, h.start fun hs => ⟨hs.unread, hs.unwritten, hs.unanswered⟩⟩
  | redact req => exact ⟨s, .refl, h.start id⟩
  | append hcall happend hmove => exact h.append hw hcall happend hmove
  | redaction hcall hmove => exact h.redaction hw hcall hmove
  -- What has been committed for the call stays, and the serial system has done just that.
  | @rollback c call statement hcall hrunning =>
    refine ⟨s, .refl, h.wait hcall rfl rfl rfl rfl ((h.calls c call hcall).raised ?_ hrunning id)⟩
    rintro req event updated body phase rfl
    exact hw.bodied c req event updated body phase hcall
  | retention days now archiveNow =>
    have hmove : SerialMove sha256 s (.applyRetention days now archiveNow)
        { s with db := (applyRetention s.db days now archiveNow).2 } := .applyRetention
    have helsewhere : ∀ c, s.Elsewhere { s with db := (applyRetention s.db days now archiveNow).2 } c :=
      fun c => hmove.elsewhere nofun
    refine ⟨_, Machine.Reaches.refl.tail (a := .applyRetention days now archiveNow) trivial rfl,
      ?_, ?_, fun c call hcall => (h.calls c call hcall).mono (helsewhere c) fun _ => id,
      fun c hc => (helsewhere c).untouched (h.uncalled c hc)⟩
    · show (applyRetention s.db days now archiveNow).2.auditEvents = _
      unfold applyRetention
      split
      · exact h.rows
      · show List.map _ s.db.auditEvents = List.map _ w.db.auditEvents
        rw [h.rows]
    · show (applyRetention s.db days now archiveNow).2.idempotencyKeys =
        (applyRetention w.db days now archiveNow).2.idempotencyKeys
      unfold applyRetention
      split <;> exact h.keys

/-! ## Runs -/

/-- The answers of a serial run are kept, in their order. -/
theorem answers_prefix {ok : Serial settings → SerialAction settings → Prop}
    (h : Machine.Reaches (serialStep sha256) ok s s') : s.answers <+: s'.answers := by
  refine h.invariant (P := fun t => s.answers <+: t.answers) List.prefix_rfl ?_
  intro t u a _ _ hstep hprefix
  cases serialStep_cases hstep with
  | create | companion => exact hprefix.trans (List.prefix_append _ _)
  | _ => exact hprefix

end AuditLog
