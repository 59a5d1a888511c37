import AuditLog.Concurrency.LinearChain

/-!
# Idempotent appends

The idempotency lookup, the insert of the event and the insert of its
idempotency row share one transaction under the append lock. The table of
idempotency keys is therefore determined by what was committed: one row for each
event that a call with a key has appended. Replays and conflicts only read it.
-/

namespace AuditLog

variable {sha256 : Bytes → PyStr} {settings : Settings}

/-! ## Keys and their rows -/

/-- The pair that the table of idempotency keys is unique for. -/
def IdempotencyKey.key (r : IdempotencyKey) : PyStr × PyStr := (r.username, r.idempotencyKey)

/-- The pair a request is looked up under; without a user no row can be found. -/
def CreateRequest.key? (req : CreateRequest settings) : Option (PyStr × PyStr) :=
  match req.requestedBy, req.idempotencyKey with
  | some username, some idempotencyKey => some (username, idempotencyKey)
  | _, _ => none

/-- The idempotency row of an event that the request has appended. -/
def recordFor (sha256 : Bytes → PyStr) (req : CreateRequest settings) (event : AuditEvent) :
    Option IdempotencyKey :=
  req.key?.map fun key =>
    ⟨key.1, key.2, computeRequestFingerprint sha256 req.content, event.id, event.timestamp⟩

theorem CreateRequest.key?_eq_some_iff {req : CreateRequest settings} {key : PyStr × PyStr} :
    req.key? = some key ↔ req.requestedBy = some key.1 ∧ req.idempotencyKey = some key.2 := by
  unfold key?
  rcases req.requestedBy with _ | username <;> rcases req.idempotencyKey with _ | idempotencyKey <;>
    simp [Prod.ext_iff]

theorem recordFor_eq_some {req : CreateRequest settings} {event : AuditEvent} {r : IdempotencyKey}
    (h : recordFor sha256 req event = some r) :
    req.key? = some r.key ∧ r.requestFingerprint = computeRequestFingerprint sha256 req.content ∧
      r.eventId = event.id := by
  rcases Option.map_eq_some_iff.mp h with ⟨key, hkey, rfl⟩
  exact ⟨hkey, rfl, rfl⟩

/-- No row has been recorded under the key of the request. -/
def Unused (keys : List IdempotencyKey) (req : CreateRequest settings) : Prop :=
  ∀ r ∈ keys, req.key? ≠ some r.key

/-- What the lookup finds is recorded under the key of the request. -/
theorem getIdempotencyRecord_eq_some {db : Database} {req : CreateRequest settings} {key : PyStr}
    {r : IdempotencyKey} (hkey : req.idempotencyKey = some key)
    (h : Repo.getIdempotencyRecord db req.requestedBy key = some r) :
    r ∈ db.idempotencyKeys ∧ req.key? = some r.key := by
  have hfound : some r.username = req.requestedBy ∧ r.idempotencyKey = key := by
    simpa using List.find?_some h
  refine ⟨List.mem_of_find?_eq_some h, CreateRequest.key?_eq_some_iff.mpr ⟨hfound.1.symm, ?_⟩⟩
  rw [hkey, ← hfound.2]
  rfl

theorem unused_of_getIdempotencyRecord_eq_none {db : Database} {req : CreateRequest settings}
    {key : PyStr} (hkey : req.idempotencyKey = some key)
    (h : Repo.getIdempotencyRecord db req.requestedBy key = none) :
    Unused db.idempotencyKeys req := by
  intro r hr hused
  rcases CreateRequest.key?_eq_some_iff.mp hused with ⟨huser, hsame⟩
  rw [hkey] at hsame
  have hmiss := List.find?_eq_none.mp h r hr
  rw [decide_eq_true_eq] at hmiss
  exact hmiss ⟨huser.symm, (Option.some.inj hsame).symm⟩

/-! ## What the lookup answers -/

/-- The row that a replay of the request answers with. -/
def ReplaysTo (sha256 : Bytes → PyStr) (keys : List IdempotencyKey) (req : CreateRequest settings)
    (eventId : Int) : Prop :=
  ∃ r ∈ keys, req.key? = some r.key ∧
    r.requestFingerprint = computeRequestFingerprint sha256 req.content ∧ r.eventId = eventId

/-- The key of the request is recorded with another fingerprint. -/
def ConflictsWith (sha256 : Bytes → PyStr) (keys : List IdempotencyKey)
    (req : CreateRequest settings) : Prop :=
  ∃ r ∈ keys, req.key? = some r.key ∧
    r.requestFingerprint ≠ computeRequestFingerprint sha256 req.content

/-- The three answers of the lookup, when every recorded event is there. -/
theorem replayOrConflict_cases {db : Database} {req : CreateRequest settings}
    (hrefs : ∀ r ∈ db.idempotencyKeys, ∃ e ∈ db.auditEvents, e.id = r.eventId) :
    (replayOrConflict sha256 noFailure db req = .ok none ∧ Unused db.idempotencyKeys req) ∨
      (∃ row, replayOrConflict sha256 noFailure db req = .ok (some row) ∧
        ReplaysTo sha256 db.idempotencyKeys req row.id) ∨
      (∃ key, replayOrConflict sha256 noFailure db req = .error (.idempotencyKeyConflict key) ∧
        ConflictsWith sha256 db.idempotencyKeys req) := by
  unfold replayOrConflict
  cases hkey : req.idempotencyKey with
  | none =>
    refine Or.inl ⟨rfl, ?_⟩
    intro r _ hused
    rw [(CreateRequest.key?_eq_some_iff.mp hused).2] at hkey
    cases hkey
  | some key =>
    simp only [noFailure, Bool.false_eq_true, if_false]
    cases hfound : Repo.getIdempotencyRecord db req.requestedBy key with
    | none => exact Or.inl ⟨rfl, unused_of_getIdempotencyRecord_eq_none hkey hfound⟩
    | some r =>
      rcases getIdempotencyRecord_eq_some hkey hfound with ⟨hr, hused⟩
      dsimp only
      split
      · rename_i hother
        exact Or.inr (Or.inr ⟨key, rfl, r, hr, hused, hother⟩)
      · rename_i hsame
        rcases hrefs r hr with ⟨row, hrow, hid⟩
        rw [(Repo.getEvent_eq_some_iff db r.eventId row).mpr ⟨hrow, hid⟩]
        exact Or.inr (Or.inl ⟨row, rfl, r, hr, hused, not_not.mp hsame, hid.symm⟩)

/-- What is staged is the row that belongs to the event; a key without a user stages none. -/
theorem stageIdempotencyKey_ok {db : Database} {req : CreateRequest settings} {event : AuditEvent}
    {record : Option IdempotencyKey}
    (h : stageIdempotencyKey sha256 noFailure db req event = .ok record) :
    record = recordFor sha256 req event ∧ (req.idempotencyKey ≠ none → record ≠ none) := by
  unfold stageIdempotencyKey Repo.recordIdempotencyKey at h
  unfold recordFor CreateRequest.key?
  cases hkey : req.idempotencyKey with
  | none =>
    rw [hkey] at h
    cases h
    refine ⟨?_, fun hne => absurd rfl hne⟩
    cases req.requestedBy <;> rfl
  | some key =>
    rw [hkey] at h
    cases huser : req.requestedBy with
    | none =>
      rw [huser] at h
      cases h
    | some username =>
      rw [huser] at h
      simp only [noFailure, Bool.false_eq_true, if_false] at h
      split at h
      · cases h
      · rename_i r hr
        split at hr
        · cases hr
        · cases hr
          cases h
          exact ⟨rfl, fun _ => Option.some_ne_none _⟩

/-! ## Who appended what -/

/-- The request of a create; no step changes it. -/
def Call.createRequest? : Call settings → Option (CreateRequest settings)
  | .create req _ => some req
  | .redact _ _ => none

theorem Call.createRequest?_resume (call : Call settings) (phase : AppendPhase) :
    (call.resume sha256 phase).createRequest? = call.createRequest? := by
  rcases call with ⟨req, p⟩ | ⟨req, p⟩
  · rfl
  · cases p <;> rfl

theorem Call.createRequest?_raised (call : Call settings) (err : ServiceError) :
    (call.raised err).createRequest? = call.createRequest? := by
  cases call <;> rfl

theorem Transition.createRequest {w w' : World settings} {action : Action settings}
    (h : Transition sha256 w action w') {c : Nat} {call : Call settings} (hcall : w.calls[c]? = some call) :
    ∃ call', w'.calls[c]? = some call' ∧ call'.createRequest? = call.createRequest? :=
  h.keeps _ Call.createRequest?_resume (fun _ _ _ => rfl) Call.createRequest?_raised hcall

/-- The idempotency row that belongs to a committed event. -/
def World.recordOf (sha256 : Bytes → PyStr) (w : World settings) (a : Appended) :
    Option IdempotencyKey :=
  (w.calls[a.call]?.bind Call.createRequest?).bind fun req => recordFor sha256 req a.event

theorem Transition.recordOf {w w' : World settings} {action : Action settings}
    (h : Transition sha256 w action w') {a : Appended} {call : Call settings}
    (hcall : w.calls[a.call]? = some call) : w'.recordOf sha256 a = w.recordOf sha256 a := by
  rcases h.createRequest hcall with ⟨call', hcall', hsame⟩
  unfold World.recordOf
  rw [hcall, hcall', Option.bind_some, Option.bind_some, hsame]

/-- The call has committed no event. -/
def Silent (log : List Appended) (c : Nat) : Prop := ∀ a ∈ log, a.call ≠ c

/-- **What a step adds**: nothing to the keys and the log, or the rows that a call has
staged. -/
theorem Transition.bookkeeping {w w' : World settings} {action : Action settings}
    (h : Transition sha256 w action w') :
    (w'.db.idempotencyKeys = w.db.idempotencyKeys ∧ w'.log = w.log) ∨
      ∃ c req event record, w.Appending c req (.recorded event record) ∧
        Repo.commitAppend noFailure w.db event record = .ok w'.db ∧
        w'.log = w.log ++ [⟨c, event⟩] := by
  cases h with
  | create req => exact Or.inl ⟨rfl, rfl⟩
  | redact req => exact Or.inl ⟨rfl, rfl⟩
  | @append c now call req phase s hcall happend hmove =>
    cases hmove with
    | commit hcommit => exact Or.inr ⟨c, req, _, _, ⟨call, hcall, happend⟩, hcommit, rfl⟩
    | flush hstage =>
      rw [(Repo.insertEvent_cases hstage).1]
      exact Or.inl ⟨rfl, List.append_nil w.log⟩
    | flushFails hstage =>
      rw [(Repo.insertEvent_cases hstage).1]
      exact Or.inl ⟨rfl, List.append_nil w.log⟩
    | _ => exact Or.inl ⟨rfl, List.append_nil w.log⟩
  | redaction hcall hmove =>
    cases hmove <;> exact Or.inl ⟨rfl, rfl⟩
  | rollback statement hcall hrunning => exact Or.inl ⟨rfl, rfl⟩
  | retention days now archiveNow =>
    refine Or.inl ⟨?_, rfl⟩
    show (applyRetention w.db days now archiveNow).2.idempotencyKeys = _
    unfold applyRetention
    split <;> rfl

/-- A call that has ended silently stays silent. -/
theorem Silent.step {w w' : World settings} {action : Action settings} {c : Nat} {call : Call settings}
    (h : Silent w.log c) (hcall : w.calls[c]? = some call) (hended : call.isEnded = true)
    (hstep : Transition sha256 w action w') : Silent w'.log c := by
  rcases hstep.bookkeeping with ⟨-, hlog⟩ | ⟨d, req, event, record, happending, -, hlog⟩
  · rw [hlog]
    exact h
  · rw [hlog]
    intro a ha
    rcases List.mem_append.mp ha with ha | ha
    · exact h a ha
    · rw [List.mem_singleton.mp ha]
      -- The committing call is in its append, so it has not ended.
      rintro rfl
      rcases happending with ⟨call', hcall', happend⟩
      rw [hcall] at hcall'
      cases hcall'
      rcases call with ⟨req₀, phase₀⟩ | ⟨req₀, phase₀⟩
      · cases happend
        cases hended
      · cases phase₀ with
        | appending event updated body phase => cases hended
        | _ => cases happend

theorem silent_of_reaches {ok : World settings → Action settings → Prop} {w w' : World settings}
    {c : Nat} {call : Call settings} (h : Silent w.log c) (hcall : w.calls[c]? = some call)
    (hended : call.isEnded = true) (hrun : Machine.Reaches (step sha256) ok w w') :
    Silent w'.log c := by
  refine (hrun.invariant (P := fun w => w.calls[c]? = some call ∧ Silent w.log c)
    ⟨hcall, h⟩ ?_).2
  rintro t u action - - hstep ⟨hcall, hsilent⟩
  have htransition := step_cases hstep
  exact ⟨htransition.getElem?_of_isEnded hcall hended, hsilent.step hcall hended htransition⟩

/-! ## The invariant -/

/-- What an append in its transaction knows of the idempotency keys. -/
def KeyFree (sha256 : Bytes → PyStr) (keys : List IdempotencyKey) (req : CreateRequest settings) :
    AppendPhase → Prop
  | .unanswered | .linking _ | .flushed _ => Unused keys req
  | .recorded event record =>
    Unused keys req ∧ record = recordFor sha256 req event ∧ (req.idempotencyKey ≠ none → record ≠ none)
  | _ => True

/-- What has become of a create: it has appended its event, it has been answered with
a recorded one, or it has left no trace. -/
def Accounted (sha256 : Bytes → PyStr) (keys : List IdempotencyKey) (log : List Appended) (c : Nat)
    (req : CreateRequest settings) : AppendPhase → Prop
  | .committed event => ⟨c, event⟩ ∈ log
  | .ended (.ok row) =>
    (∃ event, (⟨c, event⟩ : Appended) ∈ log ∧ event.id = row.id) ∨
      (Silent log c ∧ ReplaysTo sha256 keys req row.id)
  | .ended (.error (.idempotencyKeyConflict _)) => Silent log c ∧ ConflictsWith sha256 keys req
  | .ended (.error _) => True
  | _ => Silent log c

structure CallKept (sha256 : Bytes → PyStr) (keys : List IdempotencyKey) (log : List Appended)
    (c : Nat) (call : Call settings) : Prop where
  free : ∀ req phase, call.append? = some (req, phase) → KeyFree sha256 keys req phase
  accounted : ∀ req phase, call = .create req phase → Accounted sha256 keys log c req phase

/-- The table of idempotency keys is the record of the log. -/
structure Bookkept (sha256 : Bytes → PyStr) (w : World settings) : Prop where
  records : w.db.idempotencyKeys = w.log.filterMap (w.recordOf sha256)
  unique : (w.db.idempotencyKeys.map IdempotencyKey.key).Nodup
  authors : ∀ a ∈ w.log, ∃ call, w.calls[a.call]? = some call ∧
    ∀ req, call.createRequest? = some req →
      a.event.toRequestContent = req.content ∧ (req.idempotencyKey ≠ none → req.key? ≠ none)
  calls : ∀ c call, w.calls[c]? = some call → CallKept sha256 w.db.idempotencyKeys w.log c call

variable {w w' : World settings}

/-- Every idempotency row was written with the event of a call. -/
theorem Bookkept.entry (h : Bookkept sha256 w) {r : IdempotencyKey} (hr : r ∈ w.db.idempotencyKeys) :
    ∃ a ∈ w.log, ∃ call req, w.calls[a.call]? = some call ∧ call.createRequest? = some req ∧
      recordFor sha256 req a.event = some r := by
  rw [h.records] at hr
  rcases List.mem_filterMap.mp hr with ⟨a, ha, hrecord⟩
  rcases Option.bind_eq_some_iff.mp hrecord with ⟨req, hreq, hfor⟩
  rcases Option.bind_eq_some_iff.mp hreq with ⟨call, hcall, hcreate⟩
  exact ⟨a, ha, call, req, hcall, hcreate, hfor⟩

/-- The row of a committed event is still in the table. -/
theorem HistoryOk.row (h : HistoryOk sha256 w) {a : Appended} (ha : a ∈ w.log) :
    ∃ row ∈ w.db.auditEvents, row.id = a.event.id := by
  rcases HashChain.exists_of_forall₂_right h.rows.flip (List.mem_map_of_mem ha) with
    ⟨row, hrow, hretouched⟩
  exact ⟨row, hrow, Retouched.id hretouched⟩

/-- The foreign key holds: every recorded event is there. -/
theorem Bookkept.refs (h : Bookkept sha256 w) (hh : HistoryOk sha256 w) :
    ∀ r ∈ w.db.idempotencyKeys, ∃ e ∈ w.db.auditEvents, e.id = r.eventId := by
  intro r hr
  rcases h.entry hr with ⟨a, ha, call, req, -, -, hrecord⟩
  rcases hh.row ha with ⟨row, hrow, hid⟩
  exact ⟨row, hrow, hid.trans (recordFor_eq_some hrecord).2.2.symm⟩

theorem keyFree_of_not_holdsLock {keys : List IdempotencyKey} {req : CreateRequest settings}
    {phase : AppendPhase} (h : ¬ phase.HoldsLock) : KeyFree sha256 keys req phase := by
  cases phase with
  | unanswered => exact absurd trivial h
  | linking previousHash => exact absurd trivial h
  | flushed event => exact absurd trivial h
  | recorded event record => exact absurd trivial h
  | _ => trivial

/-- A commit of another call takes nothing away. -/
theorem Accounted.mono {keys keys' : List IdempotencyKey} {log : List Appended} {c : Nat}
    {req : CreateRequest settings} {phase : AppendPhase} (h : Accounted sha256 keys log c req phase)
    (hkeys : keys ⊆ keys') {a : Appended} (hother : a.call ≠ c) :
    Accounted sha256 keys' (log ++ [a]) c req phase := by
  have hsilent : Silent log c → Silent (log ++ [a]) c := fun hs =>
    List.forall_mem_append.mpr ⟨hs, List.forall_mem_singleton.mpr hother⟩
  cases phase with
  | committed event => exact List.mem_append_left _ h
  | ended outcome =>
    rcases outcome with err | row
    · cases err with
      | idempotencyKeyConflict key =>
        rcases h with ⟨hs, r, hr, hconflict⟩
        exact ⟨hsilent hs, r, hkeys hr, hconflict⟩
      | _ => trivial
    · rcases h with ⟨event, hevent, hid⟩ | ⟨hs, r, hr, hreplay⟩
      · exact Or.inl ⟨event, List.mem_append_left _ hevent, hid⟩
      · exact Or.inr ⟨hsilent hs, r, hkeys hr, hreplay⟩
  | _ => exact hsilent h

section Append

variable {db : Database} {lock : Option Nat} {c : Nat} {req : CreateRequest settings}
  {phase : AppendPhase} {s : AppendStep}

/-- From the lookup on, an append knows that its key is free. -/
theorem AppendMove.keyFree (h : AppendMove sha256 db lock c req phase s)
    (hrefs : ∀ r ∈ db.idempotencyKeys, ∃ e ∈ db.auditEvents, e.id = r.eventId)
    (hfree : KeyFree sha256 db.idempotencyKeys req phase) :
    KeyFree sha256 s.db.idempotencyKeys req s.phase := by
  cases h with
  | lookup hlookup =>
    rcases @replayOrConflict_cases sha256 settings db req hrefs with
      ⟨-, hunused⟩ | ⟨row, hrow, -⟩ | ⟨key, herr, -⟩
    · exact hunused
    · rw [hrow] at hlookup
      cases hlookup
    · rw [herr] at hlookup
      cases hlookup
  | link => exact hfree
  | flush hstage =>
    rw [(Repo.insertEvent_cases hstage).1]
    exact hfree
  | record hrecord => exact ⟨hfree, stageIdempotencyKey_ok hrecord⟩
  | _ => trivial

/-- A step of a create that commits nothing keeps its account. -/
theorem AppendMove.accounted (h : AppendMove sha256 db lock c req phase s)
    (hrefs : ∀ r ∈ db.idempotencyKeys, ∃ e ∈ db.auditEvents, e.id = r.eventId) {log : List Appended}
    (hacc : Accounted sha256 db.idempotencyKeys log c req phase) (hnone : s.appended = none) :
    Accounted sha256 db.idempotencyKeys log c req s.phase := by
  cases h with
  | refuse hlookup =>
    rcases @replayOrConflict_cases sha256 settings db req hrefs with
      ⟨hok, -⟩ | ⟨row, hrow, -⟩ | ⟨key, herr, hconflict⟩
    · rw [hok] at hlookup
      cases hlookup
    · rw [hrow] at hlookup
      cases hlookup
    · rw [herr] at hlookup
      cases hlookup
      exact ⟨hacc, hconflict⟩
  | replay hlookup =>
    rcases @replayOrConflict_cases sha256 settings db req hrefs with
      ⟨hok, -⟩ | ⟨row, hrow, hreplay⟩ | ⟨key, herr, -⟩
    · rw [hok] at hlookup
      cases hlookup
    · rw [hrow] at hlookup
      cases hlookup
      exact Or.inr ⟨hacc, hreplay⟩
    · rw [herr] at hlookup
      cases hlookup
  | commit hcommit => cases hnone
  | refresh hrow => exact Or.inl ⟨_, hacc, ((Repo.getEvent_eq_some_iff db _ _).mp hrow).2.symm⟩
  | flushFails hstage => trivial
  | recordFails hstage => trivial
  | commitFails hstage => trivial
  | refreshFails hrow => trivial
  | _ => exact hacc

end Append

/-! ## Steps and runs -/

/-- The append of a call is that of its own request, or a companion's, which has no key. -/
theorem Call.createRequest?_of_append {call : Call settings} {req : CreateRequest settings}
    {phase : AppendPhase} (h : call.append? = some (req, phase)) :
    call.createRequest? = some req ∨ (call.createRequest? = none ∧ req.key? = none) := by
  rcases call with ⟨req₀, phase₀⟩ | ⟨req₀, phase₀⟩
  · cases h
    exact Or.inl rfl
  · cases phase₀ with
    | appending event updated body phase₀ =>
      cases h
      exact Or.inr ⟨rfl, rfl⟩
    | _ => cases h

/-- A step changes nobody's request, so the rows of the log stay the same. -/
theorem Bookkept.records_step {action : Action settings} (h : Bookkept sha256 w)
    (hstep : Transition sha256 w action w') :
    w.db.idempotencyKeys = w.log.filterMap (w'.recordOf sha256) := by
  rw [h.records]
  refine List.filterMap_congr ?_
  intro a ha
  rcases h.authors a ha with ⟨call, hcall, -⟩
  exact (hstep.recordOf hcall).symm

theorem Bookkept.authors_step {action : Action settings} (h : Bookkept sha256 w)
    (hstep : Transition sha256 w action w') {a : Appended} (ha : a ∈ w.log) :
    ∃ call, w'.calls[a.call]? = some call ∧ ∀ req, call.createRequest? = some req →
      a.event.toRequestContent = req.content ∧ (req.idempotencyKey ≠ none → req.key? ≠ none) := by
  rcases h.authors a ha with ⟨call, hcall, hauthor⟩
  rcases hstep.createRequest hcall with ⟨call', hcall', hsame⟩
  refine ⟨call', hcall', ?_⟩
  rw [hsame]
  exact hauthor

/-- A step that adds no row: what has to be shown is about the call that moves. -/
theorem Bookkept.of_quiet {action : Action settings} (h : Bookkept sha256 w)
    (hstep : Transition sha256 w action w') (hkeys : w'.db.idempotencyKeys = w.db.idempotencyKeys)
    (hlog : w'.log = w.log)
    (hcalls : ∀ c call, w'.calls[c]? = some call →
      w.calls[c]? = some call ∨ CallKept sha256 w.db.idempotencyKeys w.log c call) :
    Bookkept sha256 w' where
  records := by
    rw [hkeys, hlog]
    exact h.records_step hstep
  unique := by
    rw [hkeys]
    exact h.unique
  authors := by
    rw [hlog]
    exact fun _ => h.authors_step hstep
  calls := by
    rw [hkeys, hlog]
    intro c call hcall
    rcases hcalls c call hcall with hold | hkept
    · exact h.calls c call hold
    · exact hkept

/-- A row under an unused key keeps the keys unique. -/
theorem nodup_key_append {keys : List IdempotencyKey} {req : CreateRequest settings}
    {event : AuditEvent} (hunique : (keys.map IdempotencyKey.key).Nodup) (hunused : Unused keys req) :
    ((keys ++ (recordFor sha256 req event).toList).map IdempotencyKey.key).Nodup := by
  rw [List.map_append, List.nodup_append]
  refine ⟨hunique, ?_, ?_⟩
  · cases recordFor sha256 req event <;> simp
  · intro key hold key' hadded heq
    rcases List.mem_map.mp hold with ⟨r, hr, rfl⟩
    rcases List.mem_map.mp hadded with ⟨r', hr', rfl⟩
    rw [Option.mem_toList] at hr'
    exact hunused r hr (heq ▸ (recordFor_eq_some hr').1)

section CallKept

variable {keys : List IdempotencyKey} {log : List Appended} {c : Nat}

/-- A redaction has nothing to account for. -/
theorem CallKept.of_redact {req : RedactRequest} {phase : RedactPhase settings}
    (hfree : ∀ req' append, (Call.redact req phase).append? = some (req', append) →
      KeyFree sha256 keys req' append) : CallKept sha256 keys log c (.redact req phase) := by
  refine ⟨hfree, ?_⟩
  intro req' phase' heq
  cases heq

theorem CallKept.of_raised {call : Call settings} (err : ServiceError)
    (hacc : ∀ req : CreateRequest settings, Accounted sha256 keys log c req (.ended (.error err))) :
    CallKept sha256 keys log c (call.raised err) := by
  constructor
  · intro req phase happend
    rw [Call.append?_raised happend]
    trivial
  · intro req phase heq
    cases call <;> cases heq
    exact hacc _

/-- The call that has just committed its event. -/
theorem CallKept.of_committed {call : Call settings} {req : CreateRequest settings}
    {phase : AppendPhase} {event : AuditEvent} (happend : call.append? = some (req, phase)) :
    CallKept sha256 keys (log ++ [⟨c, event⟩]) c (call.resume sha256 (.committed event)) := by
  constructor
  · intro req' phase' happend'
    rw [(Call.append?_resume happend happend').2]
    trivial
  · rintro req' phase' heq
    rcases call with ⟨req₀, phase₀⟩ | ⟨req₀, phase₀⟩
    · cases heq
      exact List.mem_append_right _ List.mem_cons_self
    · cases phase₀ <;> cases heq

/-- A call beside the one that commits: it is in no transaction, as the other holds the lock. -/
theorem CallKept.of_other {call : Call settings} (h : CallKept sha256 w.db.idempotencyKeys log c call)
    (hd : Disciplined sha256 w) (hcall : w.calls[c]? = some call) {a : Appended}
    (hlock : w.lock = some a.call) (hne : c ≠ a.call) (hkeys : w.db.idempotencyKeys ⊆ keys) :
    CallKept sha256 keys (log ++ [a]) c call := by
  constructor
  · intro req phase happend
    apply keyFree_of_not_holdsLock
    intro hholds
    have hheld := hd.lock ⟨call, hcall, happend⟩ hholds
    rw [hlock] at hheld
    exact hne (Option.some.inj hheld).symm
  · intro req phase heq
    exact (h.accounted req phase heq).mono hkeys (Ne.symm hne)

end CallKept

/-- **The commit of an append**: the event and its idempotency row come together. -/
theorem Bookkept.commit {action : Action settings} (h : Bookkept sha256 w) (hd : Disciplined sha256 w)
    (hstep : Transition sha256 w action w') {c : Nat} {call : Call settings}
    {req : CreateRequest settings} {event : AuditEvent} {record : Option IdempotencyKey}
    (hcall : w.calls[c]? = some call) (happend : call.append? = some (req, .recorded event record))
    (hcommit : Repo.commitAppend noFailure w.db event record = .ok w'.db)
    (hlog : w'.log = w.log ++ [⟨c, event⟩])
    (hcalls : w'.calls = w.calls.set c (call.resume sha256 (.committed event))) :
    Bookkept sha256 w' := by
  have happending : w.Appending c req (.recorded event record) := ⟨call, hcall, happend⟩
  have hstaged : Staged sha256 w.db req event := hd.phase happending
  rcases (h.calls c call hcall).free req _ happend with ⟨hunused, hrecord, hkeyed⟩
  have hkeys := (Repo.commitAppend_cases hstaged.last hcommit).2.1
  have hnew : w'.calls[c]? = some (call.resume sha256 (.committed event)) := by
    rw [hcalls]
    exact (getElem?_set_some hcall).mpr (Or.inl ⟨rfl, rfl⟩)
  have hrequest : (call.resume sha256 (.committed event)).createRequest? = call.createRequest? :=
    Call.createRequest?_resume call _
  refine ⟨?_, ?_, ?_, ?_⟩
  · -- The new row is the one that belongs to the new event.
    have hof : w'.recordOf sha256 ⟨c, event⟩ = record := by
      unfold World.recordOf
      rw [hnew, Option.bind_some, hrequest, hrecord]
      rcases Call.createRequest?_of_append happend with hcreate | ⟨hcreate, hnokey⟩
      · rw [hcreate, Option.bind_some]
      · rw [hcreate, Option.bind_none, recordFor, hnokey, Option.map_none]
    rw [hkeys, hlog, List.filterMap_append, ← h.records_step hstep, List.filterMap_cons, hof]
    cases record <;> rfl
  · rw [hkeys, hrecord]
    exact nodup_key_append h.unique hunused
  · rw [hlog]
    refine List.forall_mem_append.mpr ⟨?_, List.forall_mem_singleton.mpr ?_⟩
    · exact fun _ => h.authors_step hstep
    · refine ⟨_, hnew, ?_⟩
      rw [hrequest]
      intro req' hreq'
      rcases Call.createRequest?_of_append happend with hcreate | ⟨hcreate, -⟩
      · rw [hcreate] at hreq'
        cases hreq'
        refine ⟨hstaged.request, ?_⟩
        intro hkey hnone
        refine hkeyed hkey ?_
        rw [hrecord, recordFor, hnone, Option.map_none]
      · rw [hcreate] at hreq'
        cases hreq'
  · intro d call' hcall'
    rw [hcalls, getElem?_set_some hcall] at hcall'
    rw [hkeys, hlog]
    rcases hcall' with ⟨rfl, rfl⟩ | ⟨hne, hcall'⟩
    · exact .of_committed happend
    · exact (h.calls d call' hcall').of_other hd hcall' (hd.lock happending trivial) hne
        (List.subset_append_left _ _)

/-- Every step keeps the books. -/
theorem Bookkept.step {action : Action settings} (h : Bookkept sha256 w) (hd : Disciplined sha256 w)
    (hh : HistoryOk sha256 w) (hstep : Transition sha256 w action w') : Bookkept sha256 w' := by
  have hrefs := h.refs hh
  have htransition := hstep
  cases hstep with
  | create req =>
    refine h.of_quiet htransition rfl rfl ?_
    intro c call hcall
    rcases getElem?_concat_some.mp hcall with hcall | ⟨rfl, rfl⟩
    · exact Or.inl hcall
    · refine Or.inr ⟨?_, ?_⟩
      · intro req' phase' happend
        cases happend
        trivial
      · intro req' phase' heq
        cases heq
        -- The log only names calls that have started.
        rintro a ha heq
        rcases h.authors a ha with ⟨call, hcall', -⟩
        rw [heq, List.getElem?_eq_none (le_refl _)] at hcall'
        cases hcall'
  | redact req =>
    refine h.of_quiet htransition rfl rfl ?_
    intro c call hcall
    rcases getElem?_concat_some.mp hcall with hcall | ⟨rfl, rfl⟩
    · exact Or.inl hcall
    · exact Or.inr (.of_redact fun _ _ happend => by cases happend)
  | @append c now call req phase s hcall happend hmove =>
    have hkept := h.calls c call hcall
    have hfree := hmove.keyFree hrefs (hkept.free req phase happend)
    by_cases hnone : s.appended = none
    · rcases htransition.bookkeeping with ⟨hkeys, hlog⟩ | ⟨d, req', event, record, -, -, hlog⟩
      · refine h.of_quiet htransition hkeys hlog ?_
        intro d call' hcall'
        rcases (getElem?_set_some hcall).mp hcall' with ⟨rfl, rfl⟩ | ⟨-, hold⟩
        · refine Or.inr ⟨?_, ?_⟩
          · intro req' phase' happend'
            rcases Call.append?_resume happend happend' with ⟨rfl, rfl⟩
            rw [← hkeys]
            exact hfree
          · intro req' phase' heq
            rcases call with ⟨req₀, phase₀⟩ | ⟨req₀, phase₀⟩
            · cases happend
              cases heq
              exact hmove.accounted hrefs (hkept.accounted _ _ rfl) hnone
            · cases phase₀ <;> cases heq
        · exact Or.inl hold
      · -- A step that stages nothing for the log does not extend it.
        rw [hnone] at hlog
        exact absurd hlog (by simp)
    · cases hmove with
      | commit hcommit => exact h.commit hd htransition hcall happend hcommit rfl rfl
      | _ => exact absurd rfl hnone
  | @redaction c now req phase phase' db' hcall hmove =>
    rcases htransition.bookkeeping with ⟨hkeys, hlog⟩ | ⟨d, req', event, record, -, -, hlog⟩
    · refine h.of_quiet htransition hkeys hlog ?_
      intro d call' hcall'
      rcases (getElem?_set_some hcall).mp hcall' with ⟨rfl, rfl⟩ | ⟨-, hold⟩
      · refine Or.inr (.of_redact fun req' append happend => ?_)
        rw [hmove.append?_eq_start happend]
        trivial
      · exact Or.inl hold
    · exact absurd hlog (by simp)
  | @rollback c call statement hcall hrunning =>
    refine h.of_quiet htransition rfl rfl ?_
    intro d call' hcall'
    rcases (getElem?_set_some hcall).mp hcall' with ⟨rfl, rfl⟩ | ⟨-, hold⟩
    · exact Or.inr (.of_raised _ fun _ => trivial)
    · exact Or.inl hold
  | retention days now archiveNow =>
    rcases htransition.bookkeeping with ⟨hkeys, hlog⟩ | ⟨d, req', event, record, -, -, hlog⟩
    · exact h.of_quiet htransition hkeys hlog fun _ _ hcall => Or.inl hcall
    · exact absurd hlog (by simp)

theorem bookkept_init : Bookkept sha256 (World.init .empty : World settings) where
  records := rfl
  unique := List.nodup_nil
  authors := fun _ ha => by cases ha
  calls := fun _ _ hcall => by cases hcall

/-- The run lemma: every reachable state keeps the books. -/
theorem bookkept_of_reaches {ok : World settings → Action settings → Prop}
    (h : Machine.Reaches (step sha256) ok (.init .empty) w) : Bookkept sha256 w :=
  h.invariant bookkept_init fun _ _ _ run _ hstep hb =>
    hb.step (disciplined_of_reaches run) (historyOk_of_reaches run) (step_cases hstep)

/-! ## What keyed calls can rely on -/

/-- The call has not committed, and has not ended. -/
def AppendPhase.BeforeCommit : AppendPhase → Prop
  | .committed _ | .ended _ => False
  | _ => True

/-- A create that ends before its commit, by a conflict, a replay, an error or a
rollback, leaves both tables as they are. -/
theorem Transition.ends_before_commit {action : Action settings} (h : Transition sha256 w action w')
    {c : Nat} {req : CreateRequest settings} {phase : AppendPhase}
    {outcome : Except ServiceError AuditEvent} (hcall : w.calls[c]? = some (.create req phase))
    (hphase : phase.BeforeCommit) (hended : w'.calls[c]? = some (.create req (.ended outcome))) :
    w'.db.auditEvents = w.db.auditEvents ∧ w'.db.idempotencyKeys = w.db.idempotencyKeys ∧
      w'.log = w.log := by
  have hopen : w.calls[c]? ≠ some (.create req (.ended outcome)) := by
    intro hsame
    rw [hcall] at hsame
    cases hsame
    exact hphase
  -- The step is the call's own: no other step moves it.
  have hother : ∀ {d : Nat} {old new : Call settings}, w.calls[d]? = some old →
      (w.calls.set d new)[c]? = some (.create req (.ended outcome)) →
      c = d ∧ old = .create req phase ∧ new = .create req (.ended outcome) := by
    intro d old new hold hnew
    rcases (getElem?_set_some hold).mp hnew with ⟨rfl, heq⟩ | ⟨-, hsame⟩
    · rw [hcall] at hold
      exact ⟨rfl, (Option.some.inj hold).symm, heq.symm⟩
    · exact absurd hsame hopen
  cases h with
  | create req' =>
    rcases getElem?_concat_some.mp hended with hsame | ⟨rfl, heq⟩
    · exact absurd hsame hopen
    · cases heq
  | redact req' =>
    rcases getElem?_concat_some.mp hended with hsame | ⟨rfl, heq⟩
    · exact absurd hsame hopen
    · cases heq
  | append hold happend hmove =>
    rcases hother hold hended with ⟨rfl, rfl, heq⟩
    cases happend
    cases hmove with
    | flushFails hstage =>
      rw [(Repo.insertEvent_cases hstage).1]
      exact ⟨rfl, rfl, List.append_nil w.log⟩
    | refuse hlookup => exact ⟨rfl, rfl, List.append_nil w.log⟩
    | replay hlookup => exact ⟨rfl, rfl, List.append_nil w.log⟩
    | recordFails hrecord => exact ⟨rfl, rfl, List.append_nil w.log⟩
    | commitFails hcommit => exact ⟨rfl, rfl, List.append_nil w.log⟩
    | refresh hrow => exact hphase.elim
    | refreshFails hrow => exact hphase.elim
    | _ => cases heq
  | redaction hold hmove =>
    rcases hother hold hended with ⟨-, heq, -⟩
    cases heq
  | rollback statement hold hrunning => exact ⟨rfl, rfl, rfl⟩
  | retention days now archiveNow => exact absurd hended hopen

/-- The event was appended by a create under the key. -/
def World.AppendedUnder (w : World settings) (key : PyStr × PyStr) (a : Appended) : Prop :=
  a ∈ w.log ∧ ∃ req phase, w.calls[a.call]? = some (.create req phase) ∧ req.key? = some key

/-- What a state of the system says about calls with an idempotency key. -/
structure IdempotentAppends (sha256 : Bytes → PyStr) (w : World settings) : Prop where
  /-- There is at most one row per user and key. -/
  unique : (w.db.idempotencyKeys.map IdempotencyKey.key).Nodup
  /-- A row points to a committed event, created with content of the stored fingerprint. -/
  created : ∀ r ∈ w.db.idempotencyKeys, (∃ row ∈ w.db.auditEvents, row.id = r.eventId) ∧
    ∃ a, w.AppendedUnder r.key a ∧ a.event.id = r.eventId ∧
      computeRequestFingerprint sha256 a.event.toRequestContent = r.requestFingerprint
  /-- Whoever is answered under a key is answered with its event, for the same content. -/
  answered : ∀ (c : Nat) (req : CreateRequest settings) (row : AuditEvent),
    w.calls[c]? = some (.create req (.ended (.ok row))) → req.idempotencyKey ≠ none →
    ∃ r ∈ w.db.idempotencyKeys, req.key? = some r.key ∧ row.id = r.eventId ∧
      computeRequestFingerprint sha256 req.content = r.requestFingerprint
  /-- A conflict has appended nothing, and the same user has used the key before. -/
  conflicted : ∀ (c : Nat) (req : CreateRequest settings) (key : PyStr),
    w.calls[c]? = some (.create req (.ended (.error (.idempotencyKeyConflict key)))) →
    Silent w.log c ∧ ∃ a, (∃ k, req.key? = some k ∧ w.AppendedUnder k a) ∧
      computeRequestFingerprint sha256 a.event.toRequestContent ≠
        computeRequestFingerprint sha256 req.content
  /-- What a call returns it has appended itself, or the same user has under the same key. -/
  replayed : ∀ (c : Nat) (req : CreateRequest settings) (row : AuditEvent),
    w.calls[c]? = some (.create req (.ended (.ok row))) →
    (∃ event, (⟨c, event⟩ : Appended) ∈ w.log ∧ event.id = row.id) ∨
      (Silent w.log c ∧ ∃ a, (∃ k, req.key? = some k ∧ w.AppendedUnder k a) ∧ a.event.id = row.id)
  /-- A create that ends before its commit adds no row, then or later. -/
  silent : ∀ (c : Nat) (req : CreateRequest settings) (phase : AppendPhase)
    (outcome : Except ServiceError AuditEvent) (action : Action settings) (w' : World settings),
    w.calls[c]? = some (.create req phase) → phase.BeforeCommit → step sha256 action w = some w' →
    w'.calls[c]? = some (.create req (.ended outcome)) →
    w'.db.auditEvents = w.db.auditEvents ∧ w'.db.idempotencyKeys = w.db.idempotencyKeys ∧
      ∀ w'', Machine.Reaches (step sha256) (fun _ _ => True) w' w'' → Silent w''.log c
  /-- The rows of the event table are the committed events. -/
  rows : w.db.auditEvents.map AuditEvent.id = w.log.map fun a => a.event.id
  /-- Every event of a call with a key has one row. -/
  recorded : ∀ a ∈ w.log, ∀ (req : CreateRequest settings) (phase : AppendPhase),
    w.calls[a.call]? = some (.create req phase) → req.idempotencyKey ≠ none →
    ∃! r, r ∈ w.db.idempotencyKeys ∧ r.eventId = a.event.id
  /-- Every row has one event. -/
  inserted : ∀ r ∈ w.db.idempotencyKeys, ∃! a, a ∈ w.log ∧ a.event.id = r.eventId

/-- The committed events keep their ids. -/
theorem HistoryOk.ids (h : HistoryOk sha256 w) :
    w.db.auditEvents.map AuditEvent.id = w.log.map fun a => a.event.id := by
  rw [map_eq_of_retouched _ Retouched.id h.rows]
  exact List.map_map

/-- No two committed events have the same id. -/
theorem HistoryOk.eq_of_id_eq (h : HistoryOk sha256 w) {a b : Appended} (ha : a ∈ w.log)
    (hb : b ∈ w.log) (hid : a.event.id = b.event.id) : a = b := by
  have hnodup : (w.log.map fun a => a.event.id).Nodup := by
    rw [← h.ids, List.nodup_map_iff_inj_on (w.db.ordered.imp fun hlt heq => by rw [heq] at hlt; omega)]
    exact fun e he f hf hef => w.db.eq_of_id_eq he hf hef
  exact List.inj_on_of_nodup_map hnodup ha hb hid

theorem Call.eq_create {call : Call settings} {req : CreateRequest settings}
    (h : call.createRequest? = some req) : ∃ phase, call = .create req phase := by
  cases call with
  | create req' phase =>
    cases h
    exact ⟨phase, rfl⟩
  | redact req' phase => cases h

/-- The event of an idempotency row, with the call that appended both. -/
theorem Bookkept.appendedUnder (h : Bookkept sha256 w) {r : IdempotencyKey}
    (hr : r ∈ w.db.idempotencyKeys) : ∃ a, w.AppendedUnder r.key a ∧ a.event.id = r.eventId ∧
      computeRequestFingerprint sha256 a.event.toRequestContent = r.requestFingerprint := by
  rcases h.entry hr with ⟨a, ha, call, req, hcall, hreq, hrecord⟩
  rcases recordFor_eq_some hrecord with ⟨hkey, hfingerprint, hid⟩
  rcases h.authors a ha with ⟨call', hcall', hauthor⟩
  rw [hcall] at hcall'
  cases hcall'
  rcases Call.eq_create hreq with ⟨phase, rfl⟩
  refine ⟨a, ⟨ha, req, phase, hcall, hkey⟩, hid.symm, ?_⟩
  rw [(hauthor req hreq).1, hfingerprint]

/-- The idempotency row of an event that a call with a key has appended. -/
theorem Bookkept.recordOf_mem (h : Bookkept sha256 w) {a : Appended} (ha : a ∈ w.log)
    {req : CreateRequest settings} {phase : AppendPhase}
    (hcall : w.calls[a.call]? = some (.create req phase)) (hkey : req.idempotencyKey ≠ none) :
    ∃ r ∈ w.db.idempotencyKeys, recordFor sha256 req a.event = some r := by
  rcases h.authors a ha with ⟨call, hcall', hauthor⟩
  rw [hcall] at hcall'
  cases hcall'
  rcases Option.ne_none_iff_exists'.mp ((hauthor req rfl).2 hkey) with ⟨key, hsome⟩
  have hrecord : recordFor sha256 req a.event = some
      ⟨key.1, key.2, computeRequestFingerprint sha256 req.content, a.event.id, a.event.timestamp⟩ := by
    rw [recordFor, hsome, Option.map_some]
  refine ⟨_, ?_, hrecord⟩
  rw [h.records]
  refine List.mem_filterMap.mpr ⟨a, ha, ?_⟩
  unfold World.recordOf
  rw [hcall]
  exact hrecord

/-- **Idempotent appends.** In every state that concurrent calls reach, with
rollbacks anywhere, a key stands for one event of one user, and whoever repeats the
request is answered with it. -/
theorem appends_are_idempotent
    (h : Machine.Reaches (step sha256) (fun _ _ => True) (.init .empty) w) :
    IdempotentAppends sha256 w := by
  have hb := bookkept_of_reaches h
  have hh := historyOk_of_reaches h
  have hacc : ∀ c req phase, w.calls[c]? = some (.create req phase) →
      Accounted sha256 w.db.idempotencyKeys w.log c req phase := fun c req phase hcall =>
    (hb.calls c _ hcall).accounted req phase rfl
  refine ⟨hb.unique, ?_, ?_, ?_, ?_, ?_, hh.ids, ?_, ?_⟩
  · intro r hr
    exact ⟨hb.refs hh r hr, hb.appendedUnder hr⟩
  · intro c req row hcall hkey
    rcases hacc c req _ hcall with ⟨event, hevent, hid⟩ | ⟨-, r, hr, hsame, hfingerprint, hid⟩
    · rcases hb.recordOf_mem hevent hcall hkey with ⟨r, hr, hrecord⟩
      rcases recordFor_eq_some hrecord with ⟨hsame, hfingerprint, hid'⟩
      exact ⟨r, hr, hsame, hid.symm.trans hid'.symm, hfingerprint.symm⟩
    · exact ⟨r, hr, hsame, hid.symm, hfingerprint.symm⟩
  · intro c req key hcall
    rcases hacc c req _ hcall with ⟨hsilent, r, hr, hsame, hfingerprint⟩
    rcases hb.appendedUnder hr with ⟨a, ha, -, hcontent⟩
    exact ⟨hsilent, a, ⟨r.key, hsame, ha⟩, by rw [hcontent]; exact hfingerprint⟩
  · intro c req row hcall
    rcases hacc c req _ hcall with hown | ⟨hsilent, r, hr, hsame, -, hid⟩
    · exact Or.inl hown
    · rcases hb.appendedUnder hr with ⟨a, ha, hevent, -⟩
      exact Or.inr ⟨hsilent, a, ⟨r.key, hsame, ha⟩, hevent.trans hid⟩
  · intro c req phase outcome action w' hcall hphase hstep hended
    rcases (step_cases hstep).ends_before_commit hcall hphase hended with ⟨hrows, hkeys, hlog⟩
    refine ⟨hrows, hkeys, fun w'' hrun => silent_of_reaches ?_ hended rfl hrun⟩
    rw [hlog]
    have hsilent := hacc c req phase hcall
    cases phase with
    | committed event => exact hphase.elim
    | ended outcome => exact hphase.elim
    | _ => exact hsilent
  · intro a ha req phase hcall hkey
    rcases hb.recordOf_mem ha hcall hkey with ⟨r, hr, hrecord⟩
    refine ⟨r, ⟨hr, (recordFor_eq_some hrecord).2.2⟩, ?_⟩
    rintro r' ⟨hr', hid'⟩
    -- The other row's event is the same one, and so is its call.
    rcases hb.entry hr' with ⟨a', ha', call', req', hcall', hreq', hrecord'⟩
    have hsame : a' = a :=
      hh.eq_of_id_eq ha' ha ((recordFor_eq_some hrecord').2.2.symm.trans hid')
    rw [hsame, hcall] at hcall'
    cases hcall'
    cases hreq'
    rw [hsame, hrecord] at hrecord'
    exact (Option.some.inj hrecord').symm
  · intro r hr
    rcases hb.appendedUnder hr with ⟨a, ⟨ha, -⟩, hid, -⟩
    exact ⟨a, ⟨ha, hid⟩, fun a' ⟨ha', hid'⟩ => hh.eq_of_id_eq ha' ha (hid'.trans hid.symm)⟩

/-! ## A retry, a conflict and another user -/

/-- The sample event, posted by a user of a tenant under the key `k`. -/
def keyedRequest (username tenantId : PyStr) : CreateRequest {} :=
  { eventIn := .sample, tenantId, idempotencyKey := some "k", requestedBy := some username }

/-- Call 0 flushes and rolls back, its retry 1 commits, 2 repeats the request, 3 asks
for something else, and 4 is another user's. -/
def keyedCalls : List (Action {}) :=
  [.startCreate (keyedRequest "u" "t"), .startCreate (keyedRequest "u" "t"),
    .startCreate (keyedRequest "u" "t"), .startCreate (keyedRequest "u" "s"),
    .startCreate (keyedRequest "v" "t")] ++
  List.replicate 4 (.advance 0 .sample) ++ [.rollback 0 .commit] ++
  List.replicate 7 (.advance 1 .sample) ++ List.replicate 2 (.advance 2 .sample) ++
  List.replicate 2 (.advance 3 .sample) ++ List.replicate 7 (.advance 4 .sample)

theorem appends_are_idempotent_keyedCalls :
    ∃ w : World {}, Machine.schedule (step Sha256.hexdigest) (fun _ _ => True) keyedCalls
        (.init .empty) = some w ∧
      w.db.idempotencyKeys.map (fun r => r.username) = ["u", "v"] ∧
      IdempotentAppends Sha256.hexdigest w := by
  have hrun : ∃ w ∈ Machine.schedule (step Sha256.hexdigest) (fun _ _ => True) keyedCalls
      (.init .empty), w.db.idempotencyKeys.map (fun r => r.username) = ["u", "v"] := by
    decide +kernel
  obtain ⟨w, hw, hkeys⟩ := hrun
  exact ⟨w, hw, hkeys, appends_are_idempotent (Machine.reaches_of_schedule hw)⟩

end AuditLog
