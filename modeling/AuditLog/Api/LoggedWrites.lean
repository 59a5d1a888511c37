import AuditLog.Api.SecurityTrail
import AuditLog.Concurrency.Idempotency

/-!
# What the log says of writes

Over any history, restarts included: the log has the logins that took place, in their order;
it reports a redaction once, for the admin who asked for it, and only when its companion is
stored; and the rows that it says were archived are no more than there are, and just as many
if no process has stopped between a sweep and its line.
-/

namespace AuditLog

variable {τ : Type} {settings : Settings} {sha256 : Bytes → PyStr} {retentionWindowDays : Int}
  {jwt : Jwt} {hasher : PasswordHasher}

/-! ## Redactions that have returned -/

section World

variable {w w' : World settings} {action : Action settings}

/-- A redaction that has committed its companion has it on the log, also when it has returned
with the row that it has read again. -/
def Call.Settled (log : List Appended) (c : Nat) : Call settings → Prop
  | .redact _ (.appending _ _ _ (.committed event)) => ⟨c, event⟩ ∈ log
  | .redact _ (.ended (.ok result)) =>
    ∃ event, (⟨c, event⟩ : Appended) ∈ log ∧ event.id = result.redactionEvent.id
  | _ => True

/-- The log only grows. -/
theorem Call.Settled.mono {log log' : List Appended} {c : Nat} {call : Call settings}
    (h : call.Settled log c) (hlog : log ⊆ log') : call.Settled log' c := by
  unfold Call.Settled at h ⊢
  split at h
  · exact hlog h
  · exact h.imp fun _ hevent => ⟨hlog hevent.1, hevent.2⟩
  · trivial

/-- The append of a redaction asks for no replay. -/
theorem replayOrConflict_of_no_key {db : Database} {req : CreateRequest settings}
    (h : req.idempotencyKey = none) : replayOrConflict sha256 noFailure db req = .ok none := by
  unfold replayOrConflict
  rw [h]

/-- No step takes an append from the log. -/
theorem Transition.log_subset (h : Transition sha256 w action w') : w.log ⊆ w'.log := by
  cases h with
  | append => exact List.subset_append_left _ _
  | _ => exact List.Subset.refl _

/-- What a step of the append makes of its redaction. -/
theorem returned_resume {c : Nat} {req : RedactRequest} {event updated : AuditEvent}
    {body : AuditEventCreate settings} {phase : AppendPhase} {s : AppendStep}
    (h : Call.Settled w.log c (.redact req (.appending event updated body phase)))
    (hmove : AppendMove sha256 w.db w.lock c { eventIn := body, tenantId := event.tenantId } phase s) :
    (Call.resume sha256 (.redact req (.appending event updated body phase)) s.phase).Settled
      (w.log ++ s.appended.toList.map (⟨c, ·⟩)) c := by
  cases hmove with
  | replay hreplay =>
    rw [replayOrConflict_of_no_key rfl] at hreplay
    cases hreplay
  | commit hcommit => exact List.mem_append_right _ (List.mem_singleton_self _)
  | refresh hrow =>
    obtain ⟨-, hid⟩ := (Repo.getEvent_eq_some_iff _ _ _).mp hrow
    exact ⟨_, List.mem_append_left _ h, hid.symm⟩
  | _ => trivial

/-- Every redaction that has committed its companion has it on the log. -/
def RedactionsSettled (w : World settings) : Prop :=
  ∀ (c : Nat) (call : Call settings), w.calls[c]? = some call → call.Settled w.log c

/-- One step: the commit of a companion puts it on the log. -/
theorem RedactionsSettled.step (h : RedactionsSettled w) (hstep : Transition sha256 w action w') :
    RedactionsSettled w' := by
  have hgrows := hstep.log_subset
  intro d call hcall
  cases hstep with
  | create req =>
    rcases getElem?_concat_some.mp hcall with hcall | ⟨-, rfl⟩
    · exact h d call hcall
    · trivial
  | redact req =>
    rcases getElem?_concat_some.mp hcall with hcall | ⟨-, rfl⟩
    · exact h d call hcall
    · trivial
  | @append c now old req phase s hold happend hmove =>
    rcases (getElem?_set_some hold).mp hcall with ⟨rfl, rfl⟩ | ⟨-, hcall⟩
    · rcases old with ⟨req₀, phase₀⟩ | ⟨req₀, phase₀⟩
      · trivial
      · cases phase₀ with
        | appending event updated body phase₁ =>
          cases happend
          exact returned_resume (h d _ hold) hmove
        | _ => cases happend
    · exact (h d call hcall).mono hgrows
  | @redaction c now req phase phase' db' hold hmove =>
    rcases (getElem?_set_some hold).mp hcall with ⟨rfl, rfl⟩ | ⟨-, hcall⟩
    · cases hmove <;> trivial
    · exact h d call hcall
  | @rollback c old statement hold hrunning =>
    rcases (getElem?_set_some hold).mp hcall with ⟨rfl, rfl⟩ | ⟨-, hcall⟩
    · cases old <;> trivial
    · exact h d call hcall
  | retention days now archiveNow => exact h d call hcall

/-- The run lemma. -/
theorem redactionsSettled_of_reaches {ok : World settings → Action settings → Prop}
    (h : Machine.Reaches (AuditLog.step sha256) ok (.init .empty) w) : RedactionsSettled w :=
  h.invariant (fun _ _ hcall => by cases hcall) fun _ _ _ _ _ hstep ht => ht.step (step_cases hstep)

end World

/-! ## What a line reports -/

namespace SecurityEvent

/-- The user who has logged in. -/
def login? : SecurityEvent → Option (PyStr × Role)
  | loginSuccess username role => some (username, role)
  | _ => none

/-- The event that documents a redaction. -/
def companion? : SecurityEvent → Option Int
  | redactionApplied _ _ _ redactionEventId => some redactionEventId
  | _ => none

/-- The rows that a sweep has archived. -/
def archived? : SecurityEvent → Option Nat
  | retentionApplied _ archivedCount _ _ => some archivedCount
  | _ => none

/-- The event reports no login, no redaction and no sweep. -/
structure Plain (event : SecurityEvent) : Prop where
  login? : event.login? = none
  companion? : event.companion? = none
  archived? : event.archived? = none

/-- The lines of the reading routes report none of these. -/
theorem IsReading.plain {event : SecurityEvent} (h : event.IsReading) : event.Plain := by
  cases event <;> first | exact h.elim | exact ⟨rfl, rfl, rfl⟩

end SecurityEvent

/-- What the lines report of one kind. -/
def reported {β : Type} (read : SecurityEvent → Option β) (lines : List Line) : List β :=
  lines.filterMap fun line => read line.event

section Moves

variable {shared : Shared settings τ} {call : ServerCall τ} {tick : Tick τ}
  {handled : Handled settings τ}

theorem reported_append {β : Type} (read : SecurityEvent → Option β) (lines lines' : List Line) :
    reported read (lines ++ lines') = reported read lines ++ reported read lines' :=
  List.filterMap_append

/-- A line for an exception reports nothing. -/
theorem reported_logged {β : Type} {read : SecurityEvent → Option β}
    (hread : ∀ path method exc, read (.unhandledException path method exc) = none) :
    reported read (call.logged tick handled) = handled.events.filterMap read := by
  unfold reported ServerCall.logged
  rw [List.filterMap_append, List.filterMap_map]
  have hexception : (if handled.next = .raised then
      [(call.leave .internalError).line tick.now (some call.correlationId)
        (.unhandledException call.request.path call.request.endpoint.method tick.exc)]
      else []).filterMap (fun line => read line.event) = [] := by
    split
    · exact List.filterMap_eq_nil_iff.mpr fun line hline => by
        rw [List.mem_singleton.mp hline]
        exact hread _ _ _
    · rfl
  rw [hexception, List.append_nil]
  rfl

/-- A line that is no exception is an event of the step. -/
theorem mem_events_of_mem_logged {line : Line} (h : line ∈ call.logged tick handled)
    (hother : ∀ path method exc, line.event ≠ .unhandledException path method exc) :
    line.event ∈ handled.events := by
  unfold ServerCall.logged at h
  rcases List.mem_append.mp h with h | h
  · obtain ⟨event, hevent, rfl⟩ := List.mem_map.mp h
    exact hevent
  · split at h
    · rw [List.mem_singleton.mp h] at hother
      exact absurd rfl (hother _ _ _)
    · cases h

variable [AddCommGroup τ] [LinearOrder τ]

/-- **What a step reports**: nothing, or a login that it puts on record, or the redaction of the
session that it was waiting for, or the sweep that it has made. -/
theorem Moves.reports (h : Moves sha256 retentionWindowDays jwt hasher shared call tick handled) :
    (handled.shared.logins = shared.logins ∧ ∀ event ∈ handled.events, event.Plain) ∨
    (∃ login : Login, handled.shared.logins = shared.logins ++ [login] ∧
      handled.events = [.loginSuccess login.issued.user.username login.issued.user.role]) ∨
    (handled.shared.logins = shared.logins ∧ ∃ user session req result,
      call.phase = .serving user session ∧
      shared.api.world.calls[session]? = some (.redact req (.ended (.ok result))) ∧
      handled.events = [redactionEvent user req.eventId result] ∧ handled.next.Ends) ∨
    (handled.shared.logins = shared.logins ∧ ∃ user result, call.phase = .applied user result ∧
      handled.events = [.retentionApplied user.username result.archivedCount result.cutoff
        retentionWindowDays] ∧ handled.next.Ends) := by
  cases h with
  | checkLogin =>
    left
    rcases enforceLogin_cases shared call.request tick with ⟨-, h⟩ | ⟨-, h⟩ <;> rw [h] <;>
      exact ⟨rfl, fun _ hevent => by cases hevent⟩
  | authorize hphase h =>
    left
    refine ⟨congrArg Shared.logins (authorize_shared h), ?_⟩
    unfold AuditLog.authorize at h
    split at h
    · cases h
      exact fun _ hevent => by cases hevent
    · obtain ⟨user, -, rfl⟩ := Option.map_eq_some_iff.mp h
      split
      · intro event hevent
        rw [List.mem_singleton.mp hevent]
        exact ⟨rfl, rfl, rfl⟩
      · exact fun _ hevent => by cases hevent
  | login =>
    unfold AuditLog.login
    dsimp only
    split
    · exact Or.inl ⟨rfl, fun _ hevent => by cases hevent⟩
    · refine Or.inl ⟨rfl, fun event hevent => ?_⟩
      rw [List.mem_singleton.mp hevent]
      exact ⟨rfl, rfl, rfl⟩
    · split
      · exact Or.inl ⟨rfl, fun _ hevent => by cases hevent⟩
      · exact Or.inr (Or.inl ⟨_, rfl, rfl⟩)
  | @checkSensitive user =>
    left
    rcases enforceSensitive_cases shared call.request tick user with
      ⟨-, h⟩ | ⟨-, -, h⟩ | ⟨-, -, h⟩ <;> rw [h] <;> exact ⟨rfl, fun _ hevent => by cases hevent⟩
  | answer _ hevents => exact Or.inl ⟨rfl, fun event hevent => (hevents event hevent).plain⟩
  | redacted hphase hsession hends =>
    exact Or.inr (Or.inr (Or.inl ⟨rfl, _, _, _, _, hphase, hsession, rfl, hends⟩))
  | retained hphase =>
    exact Or.inr (Or.inr (Or.inr ⟨rfl, _, _, hphase, rfl, Next.ends_respond _⟩))
  | _ => exact Or.inl ⟨rfl, fun _ hevent => by cases hevent⟩

end Moves

/-! ## Sessions -/

/-- The session that the request waits for. -/
def ServerCall.session? (call : ServerCall τ) : Option Nat :=
  match call.phase with
  | .serving _ session => some session
  | _ => none

/-- The rows that the request has archived, when it has not said so yet. -/
def ServerCall.applied? (call : ServerCall τ) : Option Nat :=
  match call.phase with
  | .applied _ result => some result.archivedCount
  | _ => none

/-- Sessions are never taken back: they keep their callers and what they were asked for, and
what they have committed stays on the log. -/
structure ApiState.Grows (api api' : ApiState settings) : Prop where
  length : api.world.calls.length ≤ api'.world.calls.length
  callers : ∀ (session : Nat) (user : CurrentUser),
    api.callers[session]? = some user → api'.callers[session]? = some user
  log : api.world.log ⊆ api'.world.log
  requests : ∀ (c : Nat) (call : Call settings), api.world.calls[c]? = some call →
    ∃ call', api'.world.calls[c]? = some call' ∧ call'.request = call.request

theorem ApiState.Grows.refl (api : ApiState settings) : api.Grows api :=
  ⟨Nat.le_refl _, fun _ _ h => h, List.Subset.refl _, fun _ call h => ⟨call, h, rfl⟩⟩

/-- One step takes no session back. -/
theorem grows_of_apiStep {action : ApiAction settings} {api api' : ApiState settings}
    (h : apiStep sha256 retentionWindowDays action api = some api') : api.Grows api' := by
  rcases apiStep_cases h with rfl | ⟨started, callers, -, hstep, hcallers⟩
  · exact .refl _
  · have htransition := step_cases hstep
    have hrequests := congrArg List.length htransition.requests
    rw [List.length_append, List.length_map, List.length_map] at hrequests
    constructor
    · omega
    · intro session user huser
      rw [hcallers, List.getElem?_append_left (List.getElem?_eq_some_iff.mp huser).1]
      exact huser
    · exact htransition.log_subset
    · exact fun c call hcall => htransition.keepsRequest hcall

/-- A session that is started comes last, and is the user's. -/
theorem ApiAction.Starts.started {user : CurrentUser} {endpoint : Endpoint}
    {action : ApiAction settings} {api api' : ApiState settings} (h : action.Starts user endpoint)
    (hrole : user.role ∈ endpoint.requiredRoles)
    (hlength : api.callers.length = api.world.calls.length)
    (hstep : apiStep sha256 retentionWindowDays action api = some api') :
    api'.world.calls.length = api.world.calls.length + 1 ∧
      api'.callers[api.world.calls.length]? = some user := by
  have haccepted : ∃ started, action.accepted retentionWindowDays = .ok (started, [user]) ∧
      started.requests.length = 1 := by
    cases h with
    | create hroute => exact ⟨_, map_eq_ok_iff.mpr ⟨_, hroute, rfl⟩, rfl⟩
    | redact eventId request now =>
      have hadmitted : requireRoles [.admin] user = .ok user :=
        Routes.requireRoles_ok_iff.mpr ⟨rfl, hrole⟩
      have hroute : ∃ req, Routes.redactAuditEvent user eventId request now = .ok req :=
        ⟨_, bind_eq_ok_iff.mpr ⟨user, hadmitted, rfl⟩⟩
      obtain ⟨req, hroute⟩ := hroute
      exact ⟨_, map_eq_ok_iff.mpr ⟨req, hroute, rfl⟩, rfl⟩
  obtain ⟨started, hok, hone⟩ := haccepted
  unfold apiStep at hstep
  rw [hok] at hstep
  obtain ⟨world, hworld, rfl⟩ := Option.map_eq_some_iff.mp hstep
  have hrequests := congrArg List.length (step_cases hworld).requests
  rw [List.length_append, List.length_map, List.length_map, hone] at hrequests
  refine ⟨hrequests, ?_⟩
  show (api.callers ++ [user])[api.world.calls.length]? = some user
  rw [← hlength, List.getElem?_concat_length]

/-- Sessions that are all different, of those started so far. -/
structure Apart (sessions : List Nat) (started : Nat) : Prop where
  distinct : sessions.Nodup
  lt : ∀ session ∈ sessions, session < started

/-- Fewer sessions, and more that have been started. -/
theorem Apart.of_subperm {sessions sessions' : List Nat} {started started' : Nat}
    (h : Apart sessions started) (hsub : sessions'.Subperm sessions) (hle : started ≤ started') :
    Apart sessions' started' := by
  obtain ⟨kept, hperm, hkept⟩ := hsub
  constructor
  · exact hperm.nodup_iff.mp (h.distinct.sublist hkept)
  · intro session hsession
    exact (h.lt session (hkept.subset (hperm.mem_iff.mpr hsession))).trans_le hle

/-- A session that has just been started is none of those before it. -/
theorem Apart.next {sessions : List Nat} {started : Nat} (h : Apart sessions started) :
    Apart (sessions ++ [started]) (started + 1) := by
  constructor
  · rw [List.nodup_append]
    refine ⟨h.distinct, List.nodup_singleton _, fun session hsession other hother => ?_⟩
    rw [List.mem_singleton.mp hother]
    exact Nat.ne_of_lt (h.lt session hsession)
  · intro session hsession
    rcases List.mem_append.mp hsession with hsession | hsession
    · exact Nat.lt_succ_of_lt (h.lt session hsession)
    · rw [List.mem_singleton.mp hsession]
      exact Nat.lt_succ_self _

section Moves

variable [AddCommGroup τ] [LinearOrder τ] {shared : Shared settings τ} {call : ServerCall τ}
  {tick : Tick τ} {handled : Handled settings τ}

/-- No step of a request takes a session back. -/
theorem Moves.grows (h : Moves sha256 retentionWindowDays jwt hasher shared call tick handled) :
    shared.api.Grows handled.shared.api := by
  rcases h.api with hsame | ⟨action, hstep, -⟩
  · rw [hsame]
    exact .refl _
  · exact grows_of_apiStep hstep

/-- After a step a request waits for no session, or for the same one, or for a new one of its
user. -/
theorem Moves.session (h : Moves sha256 retentionWindowDays jwt hasher shared call tick handled)
    (hcall : call.Regular) (hlength : shared.api.callers.length = shared.api.world.calls.length) :
    (call.after tick handled).session? = none ∨
    (∃ user session, call.phase = .serving user session ∧
      (call.after tick handled).phase = .serving user session) ∨
    (∃ user, call.session? = none ∧
      (call.after tick handled).phase = .serving user shared.api.world.calls.length ∧
      handled.shared.api.world.calls.length = shared.api.world.calls.length + 1 ∧
      handled.shared.api.callers[shared.api.world.calls.length]? = some user) := by
  have hended : handled.next.Ends → (call.after tick handled).session? = none := by
    intro hends
    obtain ⟨response, hanswered⟩ : ∃ response, (call.after tick handled).phase = .answered response :=
      ServerCall.phase_after_of_ends hends
    unfold ServerCall.session?
    rw [hanswered]
  cases h with
  | checkLogin =>
    left
    rcases enforceLogin_cases shared call.request tick with ⟨-, h⟩ | ⟨-, h⟩ <;> rw [h] <;> rfl
  | authorize hphase h =>
    left
    cases hnext : handled.next with
    | goOn phase =>
      obtain ⟨user, token, identity, rfl, -⟩ := authorize_goOn h hnext
      unfold ServerCall.session?
      rw [ServerCall.phase_after_of_goOn hnext]
    | respond response => exact hended (by simp [hnext])
    | raised => exact hended (by simp [hnext])
  | login => exact Or.inl (hended (login_ends _ _ _ _))
  | @checkSensitive user =>
    left
    rcases enforceSensitive_cases shared call.request tick user with
      ⟨-, h⟩ | ⟨-, -, h⟩ | ⟨-, -, h⟩ <;> rw [h] <;> rfl
  | answer _ _ _ hends => exact Or.inl (hended hends)
  | @start user action api hphase haction hstep =>
    unfold ServerCall.Regular at hcall
    rw [hphase] at hcall
    obtain ⟨hlast, hcaller⟩ := haction.started hcall.2.1 hlength hstep
    refine Or.inr (Or.inr ⟨user, ?_, rfl, hlast, hcaller⟩)
    unfold ServerCall.session?
    rw [hphase]
  | retain => exact Or.inl rfl
  | advance hphase hstep => exact Or.inr (Or.inl ⟨_, _, hphase, rfl⟩)
  | returned _ hends => exact Or.inl (hended hends)
  | redacted _ _ hends => exact Or.inl (hended hends)
  | retained => exact Or.inl rfl

end Moves

/-! ## Reports of redactions -/

section Run

variable [AddCommGroup τ] [LinearOrder τ] {s s' : Server settings τ} {action : ServerAction τ}

/-- The companion is the one that the session has committed. -/
def CommittedBy (api : ApiState settings) (companionId : Int) (session : Nat) : Prop :=
  ∃ event, (⟨session, event⟩ : Appended) ∈ api.world.log ∧ event.id = companionId

/-- The log reports redactions of these sessions, which nobody waits for any more. -/
structure Reports (s : Server settings τ) (sessions : List Nat) : Prop where
  apart : Apart (sessions ++ s.calls.filterMap ServerCall.session?) s.shared.api.world.calls.length
  companions : List.Forall₂ (CommittedBy s.shared.api) (reported SecurityEvent.companion? s.lines)
    sessions

/-- What a session has committed stays committed. -/
theorem CommittedBy.mono {api api' : ApiState settings} {companionId : Int} {session : Nat}
    (h : CommittedBy api companionId session) (hgrows : api.Grows api') :
    CommittedBy api' companionId session :=
  h.imp fun _ hevent => ⟨hgrows.log hevent.1, hevent.2⟩

omit [AddCommGroup τ] [LinearOrder τ] in
/-- A request that comes in waits for no session. -/
theorem session?_enter (config : ServerSettings τ) (request : HttpRequest) (uuid : PyStr) :
    (enter config request uuid).session? = none := by
  unfold enter
  dsimp only
  split <;> rfl

/-- A step of a request that reports no redaction. -/
theorem Reports.move {sessions : List Nat} {i : Nat} {call : ServerCall τ} {tick : Tick τ}
    {handled : Handled settings τ} (h : Reports s sessions) (hcall : s.calls[i]? = some call)
    (hmove : Moves sha256 retentionWindowDays jwt hasher s.shared call tick handled)
    (hregular : call.Regular)
    (hlength : s.shared.api.callers.length = s.shared.api.world.calls.length)
    (hsilent : handled.events.filterMap SecurityEvent.companion? = []) :
    Reports (s.conclude i call tick handled) sessions := by
  have hgrows := hmove.grows
  have hlines : reported SecurityEvent.companion? (s.conclude i call tick handled).lines =
      reported SecurityEvent.companion? s.lines := by
    show reported _ (s.lines ++ _) = _
    rw [reported_append, reported_logged fun _ _ _ => rfl, hsilent, List.append_nil]
  have hcompanions : List.Forall₂ (CommittedBy handled.shared.api)
      (reported SecurityEvent.companion? (s.conclude i call tick handled).lines) sessions := by
    rw [hlines]
    exact h.companions.imp fun _ _ hcommitted => hcommitted.mono hgrows
  have hperm := Slots.filterMap_set_perm hcall ServerCall.session? (call.after tick handled)
  refine ⟨?_, hcompanions⟩
  show Apart (sessions ++ (s.calls.set i _).filterMap _) handled.shared.api.world.calls.length
  -- The request gives its session up, keeps it, or has just been given a new one.
  rcases hmove.session hregular hlength with hnone | ⟨user, session, hphase, hafter⟩ |
    ⟨user, hnone, hafter, hlast, -⟩
  · rw [hnone, Option.toList_none, List.nil_append] at hperm
    refine h.apart.of_subperm ((List.subperm_append_left _).mpr ?_) hgrows.length
    exact (List.sublist_append_right _ _).subperm.trans hperm.subperm
  · have hsame : (call.after tick handled).session? = call.session? := by
      unfold ServerCall.session?
      rw [hphase, hafter]
    have hwaiting := Slots.filterMap_set_perm_of_eq hcall hsame
    exact h.apart.of_subperm ((List.subperm_append_left _).mpr hwaiting.subperm) hgrows.length
  · have hnew : (call.after tick handled).session? = some s.shared.api.world.calls.length := by
      unfold ServerCall.session?
      rw [hafter]
    have hwaiting := Slots.filterMap_set_perm_of_none hcall hnone (call.after tick handled)
    rw [hnew] at hwaiting
    refine h.apart.next.of_subperm ?_ hlast.ge
    rw [List.append_assoc]
    exact (List.subperm_append_left _).mpr hwaiting.subperm

/-- A step of a request that reports the redaction it has waited for. -/
theorem Reports.redacted {sessions : List Nat} {i : Nat} {call : ServerCall τ} {tick : Tick τ}
    {handled : Handled settings τ} (h : Reports s sessions) (hcall : s.calls[i]? = some call)
    (hmove : Moves sha256 retentionWindowDays jwt hasher s.shared call tick handled)
    {user : CurrentUser} {session : Nat} {req : RedactRequest} {result : RedactionResult}
    (hphase : call.phase = .serving user session)
    (hsession : s.shared.api.world.calls[session]? = some (.redact req (.ended (.ok result))))
    (hevents : handled.events = [redactionEvent user req.eventId result])
    (hends : handled.next.Ends) (hsettled : RedactionsSettled s.shared.api.world) :
    Reports (s.conclude i call tick handled) (sessions ++ [session]) := by
  have hgrows := hmove.grows
  have hwaited : call.session? = some session := by
    unfold ServerCall.session?
    rw [hphase]
  have hanswered : (call.after tick handled).session? = none := by
    obtain ⟨response, hanswered⟩ : ∃ response, (call.after tick handled).phase = .answered response :=
      ServerCall.phase_after_of_ends hends
    unfold ServerCall.session?
    rw [hanswered]
  have hperm := Slots.filterMap_set_perm hcall ServerCall.session? (call.after tick handled)
  -- The session moves from those waited for to those reported.
  rw [hwaited, hanswered, Option.toList_none, List.nil_append] at hperm
  constructor
  · show Apart (sessions ++ [session] ++ (s.calls.set i _).filterMap _)
      handled.shared.api.world.calls.length
    refine h.apart.of_subperm ?_ hgrows.length
    rw [List.append_assoc]
    exact (List.subperm_append_left _).mpr hperm.subperm
  · show List.Forall₂ _ (reported _ (s.lines ++ _)) _
    rw [reported_append, reported_logged fun _ _ _ => rfl, hevents]
    have hcommitted : CommittedBy handled.shared.api result.redactionEvent.id session :=
      CommittedBy.mono (hsettled session _ hsession) hgrows
    exact List.rel_append (h.companions.imp fun _ _ hold => hold.mono hgrows)
      (.cons hcommitted .nil)

/-- **One step of the process** reports no redaction again. -/
theorem Reports.step {sessions : List Nat} (h : Reports s sessions) (hcalls : Orderly s)
    (hlength : s.shared.api.callers.length = s.shared.api.world.calls.length)
    (hsettled : RedactionsSettled s.shared.api.world)
    (hstep : ServerTransition sha256 retentionWindowDays jwt hasher s action s') :
    ∃ sessions', Reports s' sessions' := by
  cases hstep with
  | boot config =>
    refine ⟨sessions, ?_, h.companions⟩
    refine h.apart.of_subperm ((List.subperm_append_left _).mpr ?_) (Nat.le_refl _)
    exact (List.nil_sublist _).subperm
  | receive request uuid =>
    refine ⟨sessions, ?_, h.companions⟩
    show Apart (sessions ++ (s.calls ++ [_]).filterMap _) _
    rw [List.filterMap_append, List.filterMap_cons_none (session?_enter _ _ _), List.filterMap_nil,
      List.append_nil]
    exact h.apart
  | @move i call tick handled _ haction hcall hmove =>
    have hregular := hcalls.regular call (List.mem_of_getElem? hcall)
    rcases hmove.reports with ⟨-, hplain⟩ | ⟨login, -, hevents⟩ |
      ⟨-, user, session, req, result, hphase, hsession, hevents, hends⟩ |
      ⟨-, user, result, hphase, hevents, hends⟩
    · refine ⟨sessions, h.move hcall hmove hregular hlength ?_⟩
      exact List.filterMap_eq_nil_iff.mpr fun event hevent => (hplain event hevent).companion?
    · exact ⟨sessions, h.move hcall hmove hregular hlength (by rw [hevents]; rfl)⟩
    · exact ⟨_, h.redacted hcall hmove hphase hsession hevents hends hsettled⟩
    · exact ⟨sessions, h.move hcall hmove hregular hlength (by rw [hevents]; rfl)⟩
  | disconnect hrollback =>
    have hgrows := grows_of_apiStep hrollback
    exact ⟨sessions, h.apart.of_subperm (List.Subperm.refl _) hgrows.length,
      h.companions.imp fun _ _ hcommitted => hcommitted.mono hgrows⟩

/-- The admin has asked for the redaction that the companion documents. -/
def Documented (api : ApiState settings) (username : PyStr) (eventId companionId : Int) : Prop :=
  ∃ a ∈ api.world.log, a.event.id = companionId ∧ ∃ call req, api.world.calls[a.call]? = some call ∧
    call.request = .inr req ∧ IsCompanion req a.event ∧ req.eventId = eventId ∧
    req.actorId = username

/-- A documented redaction stays documented. -/
theorem Documented.mono {api api' : ApiState settings} {username : PyStr} {eventId companionId : Int}
    (h : Documented api username eventId companionId) (hgrows : api.Grows api') :
    Documented api' username eventId companionId := by
  obtain ⟨a, ha, hid, call, req, hcall, hrequest, hrest⟩ := h
  obtain ⟨call', hcall', hsame⟩ := hgrows.requests a.call call hcall
  exact ⟨a, hgrows.log ha, hid, call', req, hcall', hsame.trans hrequest, hrest⟩

/-- The logins that are logged are those on record, in their order, and a reported redaction
is documented; who is served waits for a session of their own. -/
structure Truthful (s : Server settings τ) : Prop where
  serving : ∀ call ∈ s.calls, ∀ user session, call.phase = .serving user session →
    s.shared.api.callers[session]? = some user
  logins : reported SecurityEvent.login? s.lines = s.shared.logins.map fun login =>
    (login.issued.user.username, login.issued.user.role)
  redactions : ∀ line ∈ s.lines, ∀ username eventId fields companionId,
    line.event = .redactionApplied username eventId fields companionId →
      Documented s.shared.api username eventId companionId

/-- What the session of a request has returned was asked for by the user of the request. -/
theorem documented_of_returned {api : ApiState settings}
    (hrun : Machine.Reaches (apiStep sha256 retentionWindowDays) (fun _ _ => True) .init api)
    {user : CurrentUser} {session : Nat} {req : RedactRequest} {result : RedactionResult}
    (hcaller : api.callers[session]? = some user)
    (hsession : api.world.calls[session]? = some (.redact req (.ended (.ok result)))) :
    Documented api user.username req.eventId result.redactionEvent.id := by
  have hworld := reaches_world hrun
  obtain ⟨event, hlogged, hid⟩ := redactionsSettled_of_reaches hworld session _ hsession
  obtain ⟨call, hcall, hcommits⟩ := committedAsAsked_of_reaches hworld _ hlogged
  rw [hsession] at hcall
  cases hcall
  have hrequest : (api.world.calls.map Call.request)[session]? = some (.inr req) := by
    rw [List.getElem?_map, hsession]
    rfl
  obtain ⟨user', huser', hactor, -⟩ := exists_of_forall₂_getElem? (admitted_of_reaches hrun) hrequest
  rw [hcaller] at huser'
  cases huser'
  exact ⟨_, hlogged, hid, _, req, hsession, rfl, hcommits, rfl, hactor⟩

/-- One step keeps the log truthful. -/
theorem Truthful.step (h : Truthful s) (hcalls : Orderly s)
    (hrun : Machine.Reaches (apiStep sha256 retentionWindowDays) (fun _ _ => True) .init s.shared.api)
    (hstep : ServerTransition sha256 retentionWindowDays jwt hasher s action s') : Truthful s' := by
  have hlength : s.shared.api.callers.length = s.shared.api.world.calls.length := by
    have hforall := (admitted_of_reaches hrun).length_eq
    rw [List.length_map] at hforall
    exact hforall.symm
  cases hstep with
  | boot config =>
    refine ⟨?_, h.logins, h.redactions⟩
    intro call hcall
    cases hcall
  | receive request uuid =>
    refine ⟨fun call hcall user session hphase => ?_, h.logins, h.redactions⟩
    rcases List.mem_append.mp hcall with hcall | hcall
    · exact h.serving call hcall user session hphase
    · have hnone := session?_enter s.shared.config request uuid
      rw [← List.mem_singleton.mp hcall] at hnone
      unfold ServerCall.session? at hnone
      rw [hphase] at hnone
      cases hnone
  | @move i call tick handled _ haction hcall hmove =>
    have hmem := List.mem_of_getElem? hcall
    have hgrows := hmove.grows
    constructor
    · intro call' hcall' user session hphase
      rcases List.mem_or_eq_of_mem_set hcall' with hcall' | rfl
      · exact hgrows.callers _ _ (h.serving call' hcall' user session hphase)
      · rcases hmove.session (hcalls.regular call hmem) hlength with hnone |
          ⟨user', session', hbefore, hafter⟩ | ⟨user', -, hafter, -, hcaller⟩
        · unfold ServerCall.session? at hnone
          rw [hphase] at hnone
          cases hnone
        · rw [hphase] at hafter
          cases hafter
          exact hgrows.callers _ _ (h.serving call hmem user session hbefore)
        · rw [hphase] at hafter
          cases hafter
          exact hcaller
    -- A step logs a login exactly if it puts one on record.
    · show reported _ (s.lines ++ _) = handled.shared.logins.map _
      rw [reported_append, reported_logged fun _ _ _ => rfl, h.logins]
      rcases hmove.reports with ⟨hsame, hplain⟩ | ⟨login, hnew, hevents⟩ |
        ⟨hsame, user, session, req, result, -, -, hevents, -⟩ | ⟨hsame, user, result, -, hevents, -⟩
      · have hsilent : handled.events.filterMap SecurityEvent.login? = [] :=
          List.filterMap_eq_nil_iff.mpr fun event hevent => (hplain event hevent).login?
        rw [hsame, hsilent, List.append_nil]
      · rw [hnew, hevents, List.map_append]
        rfl
      · rw [hsame, hevents]
        exact List.append_nil _
      · rw [hsame, hevents]
        exact List.append_nil _
    · intro line hline username eventId fields companionId hevent
      rcases List.mem_append.mp hline with hline | hline
      · exact (h.redactions line hline username eventId fields companionId hevent).mono hgrows
      · have hmember := mem_events_of_mem_logged hline (by rw [hevent]; rintro path method exc ⟨⟩)
        rw [hevent] at hmember
        rcases hmove.reports with ⟨-, hplain⟩ | ⟨login, -, hevents⟩ |
          ⟨-, user, session, req, result, hphase, hsession, hevents, -⟩ |
          ⟨-, user, result, -, hevents, -⟩
        · cases (hplain _ hmember).companion?
        · rw [hevents] at hmember
          cases List.mem_singleton.mp hmember
        · rw [hevents] at hmember
          cases List.mem_singleton.mp hmember
          exact (documented_of_returned hrun (h.serving call hmem _ _ hphase) hsession).mono hgrows
        · rw [hevents] at hmember
          cases List.mem_singleton.mp hmember
  | disconnect hrollback =>
    have hgrows := grows_of_apiStep hrollback
    exact ⟨fun call hcall user session hphase =>
        hgrows.callers _ _ (h.serving call hcall user session hphase), h.logins,
      fun line hline username eventId fields companionId hevent =>
        (h.redactions line hline username eventId fields companionId hevent).mono hgrows⟩

/-- The run lemma. -/
theorem truthful_of_reaches {ok : Server settings τ → ServerAction τ → Prop}
    {config : ServerSettings τ}
    (h : Machine.Reaches (serverStep sha256 retentionWindowDays jwt hasher) ok (.init config) s) :
    Truthful s ∧ ∃ sessions, Reports s sessions := by
  refine h.invariant (P := fun s => Truthful s ∧ ∃ sessions, Reports s sessions)
    ⟨⟨?_, rfl, ?_⟩, [], ⟨⟨List.nodup_nil, ?_⟩, .nil⟩⟩ ?_
  · intro call hcall
    cases hcall
  · intro line hline
    cases hline
  · intro session hsession
    cases hsession
  · rintro t u action run - hstep ⟨htruthful, sessions, hreports⟩
    have hrun := reaches_api run
    have hcalls := orderly_of_reaches run
    have hlength := (admitted_of_reaches hrun).length_eq
    rw [List.length_map] at hlength
    refine ⟨htruthful.step hcalls hrun (serverStep_cases hstep), ?_⟩
    exact hreports.step hcalls hlength.symm (redactionsSettled_of_reaches (reaches_world hrun))
      (serverStep_cases hstep)

omit [AddCommGroup τ] [LinearOrder τ] in
/-- Companions of different sessions are different. -/
theorem nodup_of_committedBy {api : ApiState settings} (hhistory : HistoryOk sha256 api.world)
    {ids : List Int} {sessions : List Nat} (h : List.Forall₂ (CommittedBy api) ids sessions)
    (hdistinct : sessions.Nodup) : ids.Nodup := by
  induction h with
  | nil => exact List.nodup_nil
  | @cons id session ids sessions hcommitted hrest ih =>
    rw [List.nodup_cons] at hdistinct ⊢
    refine ⟨fun hagain => ?_, ih hdistinct.2⟩
    obtain ⟨session', hsession', event', hlogged', hid'⟩ :=
      HashChain.exists_of_forall₂_right hrest.flip hagain
    obtain ⟨event, hlogged, hid⟩ := hcommitted
    -- One event has one call.
    cases hhistory.eq_of_id_eq hlogged hlogged' (hid.trans hid'.symm)
    exact hdistinct.1 hsession'

/-- **The log tells of writes that took place, once.** Over any history, restarts included, the
logged logins are those on record, each of which took place; no redaction is reported
twice, and a reported one has left its companion in the table, under the name of the admin
who asked for it. -/
theorem logged_writes_took_place {ok : Server settings τ → ServerAction τ → Prop}
    {config : ServerSettings τ}
    (h : Machine.Reaches (serverStep sha256 retentionWindowDays jwt hasher) ok (.init config) s) :
    reported SecurityEvent.login? s.lines =
        s.shared.logins.map (fun login => (login.issued.user.username, login.issued.user.role)) ∧
      (∀ login ∈ s.shared.logins, login.TookPlace jwt hasher) ∧
      (reported SecurityEvent.companion? s.lines).Nodup ∧
      ∀ line ∈ s.lines, ∀ username eventId fields companionId,
        line.event = .redactionApplied username eventId fields companionId →
          ∃ row ∈ s.shared.api.world.db.auditEvents, row.id = companionId ∧
            row.eventType = REDACTION_EVENT_TYPE ∧ row.actorId = username ∧
            row.resourceId = PyStr.ofChars (intText eventId) := by
  have hworld := reaches_world (reaches_api h)
  have hhistory := historyOk_of_reaches hworld
  obtain ⟨htruthful, sessions, hreports⟩ := truthful_of_reaches h
  refine ⟨htruthful.logins, ?_, ?_, ?_⟩
  · refine h.invariant (P := fun s => ∀ login ∈ s.shared.logins, login.TookPlace jwt hasher) ?_ ?_
    · intro login hlogin
      cases hlogin
    · intro t u action _ _ hstep ht login hlogin
      exact ((serverStep_cases hstep).logins.2 login hlogin).elim (ht login) id
  · have hdistinct := hreports.apart.distinct
    exact nodup_of_committedBy hhistory hreports.companions (List.nodup_append.mp hdistinct).1
  · intro line hline username eventId fields companionId hevent
    obtain ⟨a, ha, rfl, call, req, -, -, hcompanion, rfl, rfl⟩ :=
      htruthful.redactions line hline username eventId fields companionId hevent
    obtain ⟨row, hrow, hretouched⟩ :=
      HashChain.exists_of_forall₂_right hhistory.rows.flip (List.mem_map_of_mem ha)
    have hrowOf : row = { a.event with
        payload := row.payload
        archivedAt := row.archivedAt
        redactedAt := row.redactedAt
        redactedFields := row.redactedFields
        redactedFieldHashes := row.redactedFieldHashes } := hretouched
    refine ⟨row, hrow, ?_, ?_, ?_, ?_⟩ <;> rw [hrowOf]
    · exact hcompanion.eventType
    · exact hcompanion.actorId
    · exact hcompanion.resourceId

end Run

/-- The login, and the redaction that the second row documents. -/
theorem logged_writes_took_place_writtenAndMistyped :
    ∃ s ∈ Machine.schedule (serverStep Sha256.hexdigest 30 graceJwt sampleHasher) TokensOnRecord
        writtenAndMistyped (.init graceConfig),
      reported SecurityEvent.companion? s.lines = [2] ∧
      reported SecurityEvent.login? s.lines =
        s.shared.logins.map (fun login => (login.issued.user.username, login.issued.user.role)) ∧
      (reported SecurityEvent.companion? s.lines).Nodup := by
  have hrun : ∃ s ∈ Machine.schedule (serverStep Sha256.hexdigest 30 graceJwt sampleHasher)
      TokensOnRecord writtenAndMistyped (.init graceConfig),
        reported SecurityEvent.companion? s.lines = [2] := by
    decide +kernel
  obtain ⟨s, hs, hcompanions⟩ := hrun
  obtain ⟨hlogins, -, hdistinct, -⟩ := logged_writes_took_place (Machine.reaches_of_schedule hs)
  exact ⟨s, hs, hcompanions, hlogins, hdistinct⟩

end AuditLog
