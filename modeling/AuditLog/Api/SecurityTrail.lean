import AuditLog.Api.RequestBudgets

/-!
# The security trail

What the service tells a request, the log says as well: no token, no export, report,
redaction or retention result, no broken chain, no wrong password, no refused role and no
internal error is answered without its line. Each line belongs to one request and carries
the id of this request, also where the handler of unexpected exceptions writes it.
-/

namespace AuditLog

variable {τ : Type} {settings : Settings} {sha256 : Bytes → PyStr} {retentionWindowDays : Int}
  {jwt : Jwt} {hasher : PasswordHasher}

/-! ## What an answer says in the log -/

/-- A wrong password is logged, and a role that the route does not admit. -/
structure RefusalAnnounced (call : ServerCall τ) (logged : SecurityEvent → Prop) (err : HttpError) :
    Prop where
  password : ∀ username password detail, call.request.endpoint = .login username password →
    err = .httpException 401 detail → logged (.loginFailure username)
  role : ∀ detail, call.user = none → err = .httpException 403 detail →
    ∃ username role, role ∉ call.request.endpoint.requiredRoles ∧
      logged (.authzDenied username role call.request.endpoint.requiredRoles call.request.path
        call.request.endpoint.method)

variable (retentionWindowDays) in
/-- What is logged for the request says what it is answered. -/
def Announced (logins : List Login) (call : ServerCall τ) (logged : SecurityEvent → Prop) :
    Response → Prop
  | .token token => ∃ login ∈ logins, login.issued.token = token ∧
      logged (.loginSuccess login.issued.user.username login.issued.user.role)
  | .verification result => result.intact = false → ∀ violation ∈ result.violation,
      ∃ user, call.user = some user ∧ logged (.verificationFailed user.username violation.recordId
        violation.violationType result.recordsChecked)
  | .bundle bundle => ∃ user actorId resourceId, call.user = some user ∧
      call.request.endpoint = .exportAuditEvents actorId resourceId ∧
      logged (.exportPerformed user.username actorId resourceId bundle.recordCount)
  | .report report => ∃ user query, call.user = some user ∧
      call.request.endpoint = .getAccountAccessReport query ∧
      logged (.reportAccessed user.username query.actorId query.resourceId report.recordCount)
  | .redaction result => ∃ user, call.user = some user ∧
      logged (.redactionApplied user.username result.eventId result.newlyRedactedFields
        result.redactionEventId)
  | .retention result => ∃ user, call.user = some user ∧
      logged (.retentionApplied user.username result.archivedCount result.cutoff retentionWindowDays)
  | .refused err => RefusalAnnounced call logged err
  | .internalError => ∃ exc,
      logged (.unhandledException call.request.path call.request.endpoint.method exc)
  | .event _ | .events _ => True

variable {shared : Shared settings τ} {call call' : ServerCall τ} {tick : Tick τ}
  {handled : Handled settings τ} {logins logins' : List Login} {logged logged' : SecurityEvent → Prop}

/-- What has been announced stays announced. -/
theorem Announced.mono {response : Response}
    (h : Announced retentionWindowDays logins call logged response) (hlogins : logins ⊆ logins')
    (hlogged : ∀ event, logged event → logged' event) (hrequest : call'.request = call.request)
    (huser : call'.user = call.user) :
    Announced retentionWindowDays logins' call' logged' response := by
  cases response with
  | token token => exact h.imp fun login hlogin => ⟨hlogins hlogin.1, hlogin.2.1, hlogged _ hlogin.2.2⟩
  | verification result =>
    intro hbroken violation hviolation
    rw [huser]
    exact (h hbroken violation hviolation).imp fun _ h => ⟨h.1, hlogged _ h.2⟩
  | bundle bundle =>
    obtain ⟨user, actorId, resourceId, hof, hendpoint, hline⟩ := h
    exact ⟨user, actorId, resourceId, huser.trans hof, by rw [hrequest, hendpoint], hlogged _ hline⟩
  | report report =>
    obtain ⟨user, query, hof, hendpoint, hline⟩ := h
    exact ⟨user, query, huser.trans hof, by rw [hrequest, hendpoint], hlogged _ hline⟩
  | redaction result => exact h.imp fun _ h => ⟨huser.trans h.1, hlogged _ h.2⟩
  | retention result => exact h.imp fun _ h => ⟨huser.trans h.1, hlogged _ h.2⟩
  | refused err =>
    constructor
    · intro username password detail hendpoint herr
      rw [hrequest] at hendpoint
      exact hlogged _ (h.password username password detail hendpoint herr)
    · intro detail hnobody herr
      rw [huser] at hnobody
      rw [hrequest]
      obtain ⟨username, role, hrole, hline⟩ := h.role detail hnobody herr
      exact ⟨username, role, hrole, hlogged _ hline⟩
  | internalError =>
    obtain ⟨exc, hline⟩ := h
    rw [← hrequest] at hline
    exact ⟨exc, hlogged _ hline⟩
  | event event => trivial
  | events events => trivial

/-- Other refusals need no line. -/
theorem announced_refused {statusCode : Nat} {detail : FString} (h401 : statusCode ≠ 401)
    (h403 : statusCode ≠ 403) : RefusalAnnounced call logged (.httpException statusCode detail) := by
  constructor
  · intro _ _ _ _ herr
    cases herr
    exact absurd rfl h401
  · intro _ _ herr
    cases herr
    exact absurd rfl h403

/-- Nor does a refusal of somebody whom `require_roles` has let pass. -/
theorem RefusalAnnounced.of_user {user : CurrentUser} (huser : call.user = some user)
    (hrole : user.role ∈ call.request.endpoint.requiredRoles) (err : HttpError) :
    RefusalAnnounced call logged err := by
  constructor
  · intro username password detail hendpoint
    rw [hendpoint] at hrole
    cases hrole
  · intro detail hnobody
    rw [huser] at hnobody
    cases hnobody

/-! ## Steps -/

section Steps

/-- What the step answers is announced by what it logs. -/
def Handled.Announces (retentionWindowDays : Int) (call : ServerCall τ) (handled : Handled settings τ) :
    Prop :=
  ∀ response, handled.next = .respond response →
    Announced retentionWindowDays handled.shared.logins call (fun event => event ∈ handled.events) response

/-- A step that goes on answers nothing. -/
theorem announces_goOn {events : List SecurityEvent} {effects : List Effect} {checkedAt : Option τ}
    {phase : Phase} : Handled.Announces retentionWindowDays call
      { shared, events, effects, checkedAt, next := .goOn phase } := by
  rintro response ⟨⟩

/-- A step that raises answers nothing itself: the catch-all does. -/
theorem announces_raised {events : List SecurityEvent} {effects : List Effect} {checkedAt : Option τ} :
    Handled.Announces retentionWindowDays call
      { shared, events, effects, checkedAt, next := .raised } := by
  rintro response ⟨⟩

/-- A step that answers with an error. -/
theorem announces_ofError {events : List SecurityEvent} {effects : List Effect} {checkedAt : Option τ}
    {err : HttpError} (h : RefusalAnnounced call (fun event => event ∈ events) err) :
    Handled.Announces retentionWindowDays call
      { shared, events, effects, checkedAt, next := .ofError err } := by
  intro response hnext
  dsimp only at hnext
  unfold Next.ofError at hnext
  split at hnext
  · cases hnext
  · cases hnext
    exact h

/-- Whatever is wrong with a token, the refusal is a 401. -/
theorem authenticate_error {auth : AuthSettings} {bearer : Option PyStr} {now : DateTime}
    {err : HttpError} (h : authenticate jwt auth bearer now = .error err) :
    ∃ detail, err = .httpException 401 detail := by
  unfold authenticate at h
  split at h
  · cases h
    exact ⟨_, rfl⟩
  · unfold getCurrentUser at h
    split at h
    · cases h
      exact ⟨_, rfl⟩
    · unfold identityOf at h
      dsimp only at h
      split at h
      · cases h
        exact ⟨_, rfl⟩
      · split at h
        · cases h
          exact ⟨_, rfl⟩
        · cases h

/-- A refusal for the role is logged as such; a 401 for the token is not. -/
theorem authorize_announces (hplain : call.request.endpoint.isLogin = false)
    (h : authorize jwt shared call.request tick = some handled) :
    handled.Announces retentionWindowDays call := by
  have hnologin : ∀ username password, call.request.endpoint ≠ .login username password := by
    rintro username password hendpoint
    rw [hendpoint] at hplain
    cases hplain
  unfold authorize at h
  split at h
  · rename_i err herr
    cases h
    obtain ⟨detail, rfl⟩ := authenticate_error herr
    apply announces_ofError
    constructor
    · exact fun username password _ hendpoint => absurd hendpoint (hnologin username password)
    · rintro _ _ ⟨⟩
  · obtain ⟨user, -, rfl⟩ := Option.map_eq_some_iff.mp h
    split
    · rename_i err hrefused
      apply announces_ofError
      constructor
      · exact fun username password _ hendpoint => absurd hendpoint (hnologin username password)
      · intro _ _ _
        refine ⟨user.username, user.role, ?_, List.mem_singleton_self _⟩
        intro hrole
        unfold requireRoles at hrefused
        rw [if_neg (not_not.mpr hrole)] at hrefused
        cases hrefused
    · exact announces_goOn

/-- Both ways a login ends are logged. -/
theorem login_announces {username password : PyStr}
    (hendpoint : call.request.endpoint = .login username password) :
    (login jwt hasher shared tick username password).Announces retentionWindowDays call := by
  unfold login
  dsimp only
  split
  · exact announces_raised
  · rintro response ⟨⟩
    constructor
    · intro _ _ _ hother _
      rw [hendpoint] at hother
      cases hother
      exact List.mem_singleton_self _
    · rintro _ _ ⟨⟩
  · split
    · exact announces_raised
    · rintro response ⟨⟩
      exact ⟨_, List.mem_append_right _ (List.mem_singleton_self _), rfl, List.mem_singleton_self _⟩

section Limited

variable [AddCommGroup τ] [LinearOrder τ]

theorem enforceLogin_announces :
    (enforceLogin shared call.request tick).Announces retentionWindowDays call := by
  rcases enforceLogin_cases shared call.request tick with ⟨-, h⟩ | ⟨-, h⟩ <;> rw [h]
  · exact announces_goOn
  · rintro response ⟨⟩
    exact announced_refused (by decide) (by decide)

theorem enforceSensitive_announces (user : CurrentUser) :
    (enforceSensitive shared call.request tick user).Announces retentionWindowDays call := by
  rcases enforceSensitive_cases shared call.request tick user with
    ⟨-, h⟩ | ⟨-, -, h⟩ | ⟨-, -, h⟩ <;> rw [h]
  · exact announces_goOn
  · exact announces_goOn
  · rintro response ⟨⟩
    exact announced_refused (by decide) (by decide)

end Limited

variable {user : CurrentUser}

theorem startSession_announces {action : ApiAction settings}
    (h : startSession sha256 retentionWindowDays shared user action = some handled) :
    handled.Announces retentionWindowDays call := by
  obtain ⟨api, -, rfl⟩ := Option.map_eq_some_iff.mp h
  exact announces_goOn

/-- The routes log what they answer with success; the refusals left are announced by their kind. -/
theorem route_announces (huser : call.user = some user)
    (hrole : user.role ∈ call.request.endpoint.requiredRoles)
    (h : route sha256 retentionWindowDays shared call.request tick user = some handled) :
    handled.Announces retentionWindowDays call := by
  have hrefused : ∀ {err : HttpError}, Handled.Announces retentionWindowDays call
      { shared, next := .ofError err } := announces_ofError (.of_user huser hrole _)
  unfold route at h
  split at h
  · cases h
  · split at h
    · cases h
      exact announces_raised
    · cases h
      exact hrefused
    · split at h
      · cases h
        exact hrefused
      · exact startSession_announces h
  · exact startSession_announces h
  · split at h
    · cases h
      exact announces_raised
    · obtain ⟨api, -, rfl⟩ := Option.map_eq_some_iff.mp h
      exact announces_goOn
  · split at h <;> cases h
    · exact hrefused
    · rintro response ⟨⟩
      trivial
  · split at h <;> cases h
    · exact announces_raised
    · rintro response ⟨⟩ hbroken violation hviolation
      refine ⟨user, huser, ?_⟩
      show _ ∈ Routes.verificationEvents _ _
      unfold Routes.verificationEvents
      rw [hbroken]
      exact List.mem_map.mpr ⟨violation, Option.mem_toList.mpr hviolation, rfl⟩
  · rename_i hendpoint
    split at h <;> cases h
    · exact hrefused
    · rintro response ⟨⟩
      exact ⟨user, _, _, huser, hendpoint, List.mem_singleton_self _⟩
  · rename_i hendpoint
    split at h <;> cases h
    · exact hrefused
    · rintro response ⟨⟩
      exact ⟨user, _, huser, hendpoint, List.mem_singleton_self _⟩

/-- A session that is over is answered, and a redaction is logged. -/
theorem resume_announces {session : Nat} (huser : call.user = some user)
    (hrole : user.role ∈ call.request.endpoint.requiredRoles)
    (h : resume sha256 retentionWindowDays shared tick user session = some handled) :
    handled.Announces retentionWindowDays call := by
  have hfailed : ∀ err : ServiceError, Handled.Announces retentionWindowDays call
      { shared, next := .ofServiceError err } := by
    intro err response hnext
    cases err <;> cases hnext <;> exact .of_user huser hrole _
  unfold resume at h
  split at h
  · cases h
    rintro response ⟨⟩
    trivial
  · cases h
    exact hfailed _
  · cases h
    intro response hnext
    dsimp only at hnext
    unfold redactionResponse at hnext
    split at hnext
    · cases hnext
    · rename_i event hevent
      obtain ⟨-, hid⟩ := (Repo.getEvent_eq_some_iff _ _ _).mp hevent
      split at hnext <;> cases hnext
      refine ⟨user, huser, ?_⟩
      rw [hid]
      exact List.mem_singleton_self _
  · cases h
    exact hfailed _
  · obtain ⟨api, -, rfl⟩ := Option.map_eq_some_iff.mp h
    exact announces_goOn

/-- **What a step answers, it logs.** -/
theorem handle_announces [AddCommGroup τ] [LinearOrder τ] (hcall : call.Regular)
    (h : handle sha256 retentionWindowDays jwt hasher shared call.request tick call.phase =
      some handled) : handled.Announces retentionWindowDays call := by
  unfold ServerCall.Regular at hcall
  unfold handle at h
  split at h
  · split at h
    · cases h
      exact enforceLogin_announces
    · rename_i hother
      refine authorize_announces ?_ h
      by_contra hlogin
      obtain ⟨username, password, hendpoint⟩ :=
        Endpoint.isLogin_eq_true_iff.mp (Bool.not_eq_false _ ▸ hlogin)
      exact hother username password hendpoint
  · split at h
    · rename_i hendpoint
      cases h
      exact login_announces hendpoint
    · cases h
  · cases h
    exact enforceSensitive_announces _
  · rename_i hphase
    rw [hphase] at hcall
    exact route_announces hcall.1 hcall.2.1 h
  · rename_i hphase
    rw [hphase] at hcall
    exact resume_announces hcall.1 hcall.2.1 h
  · rename_i hphase
    rw [hphase] at hcall
    cases h
    rintro response ⟨⟩
    exact ⟨_, hcall.1, List.mem_singleton_self _⟩
  · cases h

end Steps

/-! ## Lines -/

/-- The id of a request is the one it was sent with, or a fresh one; the context variable has it
until the request is answered. -/
structure ServerCall.InContext (call : ServerCall τ) : Prop where
  adopted : ∃ uuid, call.correlationId = adoptRequestId call.request.requestId uuid
  context : (∀ response, call.phase ≠ .answered response) → call.context = some call.correlationId

theorem inContext_enter (config : ServerSettings τ) (request : HttpRequest) (uuid : PyStr) :
    (enter config request uuid).InContext := by
  unfold enter
  dsimp only
  split
  · exact ⟨⟨uuid, rfl⟩, fun h => absurd rfl (h _)⟩
  · exact ⟨⟨uuid, rfl⟩, fun _ => rfl⟩

theorem ServerCall.InContext.after (h : call.InContext)
    (hrunning : ∀ response, call.phase ≠ .answered response) : (call.after tick handled).InContext := by
  constructor
  · rw [request_after, correlationId_after]
    exact h.adopted
  · intro hstill
    cases hnext : handled.next with
    | goOn phase =>
      unfold ServerCall.after
      rw [hnext]
      exact h.context hrunning
    | respond response =>
      obtain ⟨response, hanswered⟩ := phase_after_of_ends (by rw [hnext]; simp)
      exact absurd hanswered (hstill response)
    | raised =>
      obtain ⟨response, hanswered⟩ := phase_after_of_ends (by rw [hnext]; simp)
      exact absurd hanswered (hstill response)

/-- Each line of a request in its context has its id. -/
theorem ServerCall.InContext.of_mem_logged (h : call.InContext)
    (hrunning : ∀ response, call.phase ≠ .answered response) :
    ∀ line ∈ call.logged tick handled,
      line.request = call.request ∧ line.correlationId = some call.correlationId := by
  intro line hline
  unfold ServerCall.logged at hline
  rcases List.mem_append.mp hline with hline | hline
  · obtain ⟨event, -, rfl⟩ := List.mem_map.mp hline
    exact ⟨rfl, h.context hrunning⟩
  · split at hline
    · rw [List.mem_singleton.mp hline]
      exact ⟨rfl, rfl⟩
    · cases hline

/-- Every event of a step has its line. -/
theorem exists_line_of_mem_events {event : SecurityEvent} (h : event ∈ handled.events) :
    ∃ line ∈ call.logged tick handled, line.event = event :=
  ⟨_, List.mem_append_left _ (List.mem_map_of_mem h), rfl⟩

/-- The exception that a step raises has its line. -/
theorem exists_line_of_raised (h : handled.next = .raised) : ∃ line ∈ call.logged tick handled,
    line.event = .unhandledException call.request.path call.request.endpoint.method tick.exc := by
  unfold ServerCall.logged
  rw [if_pos h]
  exact ⟨_, List.mem_append_right _ (List.mem_singleton_self _), rfl⟩

/-- A request that comes in is refused for its size, or not answered at all. -/
theorem enter_answered {config : ServerSettings τ} {request : HttpRequest} {uuid : PyStr}
    {response : Response} (h : (enter config request uuid).phase = .answered response)
    (logins : List Login) : Announced retentionWindowDays logins (enter config request uuid) logged
      response := by
  unfold enter at h ⊢
  dsimp only at h ⊢
  split at h
  · rename_i err herr
    cases h
    obtain ⟨text, n, -, -, -, rfl⟩ := checkBodySize_error_iff.mp herr
    exact announced_refused (by decide) (by decide)
  · cases h

@[simp] theorem lines_enter (config : ServerSettings τ) (request : HttpRequest) (uuid : PyStr) :
    (enter config request uuid).lines = [] := by
  unfold enter
  dsimp only
  split <;> rfl

/-! ## The invariant -/

section Run

variable [AddCommGroup τ] [LinearOrder τ]

/-- A request that has been answered does not move. -/
theorem Moves.running (h : Moves sha256 retentionWindowDays jwt hasher shared call tick handled) :
    ∀ response, call.phase ≠ .answered response := by
  intro response hanswered
  cases h <;> simp_all

omit [AddCommGroup τ] [LinearOrder τ] in
/-- A driver that raises is answered by the catch-all. -/
theorem raised_of_handleFailure (h : handleFailure shared call.request call.phase = some handled) :
    handled.next = .raised := by
  unfold handleFailure at h
  split at h
  · split at h <;> cases h
    rfl
  · split at h <;> cases h
    rfl
  · cases h

/-- A request that goes on has not been answered. -/
theorem Moves.not_answered
    (h : Moves sha256 retentionWindowDays jwt hasher shared call tick handled) (response : Response) :
    handled.next ≠ .goOn (.answered response) := by
  intro hnext
  cases h with
  | checkLogin =>
    rcases enforceLogin_cases shared call.request tick with ⟨-, h⟩ | ⟨-, h⟩ <;> rw [h] at hnext <;>
      cases hnext
  | authorize _ h =>
    obtain ⟨user, token, identity, hphase, -⟩ := authorize_goOn h hnext
    cases hphase
  | login => exact login_ends _ _ _ _ _ hnext
  | @checkSensitive user =>
    rcases enforceSensitive_cases shared call.request tick user with
      ⟨-, h⟩ | ⟨-, -, h⟩ | ⟨-, -, h⟩ <;> rw [h] at hnext <;> cases hnext
  | answer _ _ _ hends => exact hends _ hnext
  | returned _ hends => exact hends _ hnext
  | redacted _ _ hends => exact hends _ hnext
  | _ => cases hnext

/-- Answers are announced; every line belongs to one request of this process, or was logged by
an earlier one, and has the id of its request. -/
structure Trail (retentionWindowDays : Int) (s : Server settings τ) : Prop where
  answers : ∀ call ∈ s.calls, ∀ response, call.phase = .answered response →
    Announced retentionWindowDays s.shared.logins call
      (fun event => ∃ line ∈ call.lines, line.event = event) response
  attributed : ∃ earlier current, s.lines = earlier ++ current ∧
    current.Perm (s.calls.flatMap ServerCall.lines)
  carried : ∀ call ∈ s.calls, ∀ line ∈ call.lines,
    line.request = call.request ∧ line.correlationId = some call.correlationId
  adopted : ∀ line ∈ s.lines, ∃ uuid,
    line.correlationId = some (adoptRequestId line.request.requestId uuid)

/-- What holds of the requests of a process besides. -/
structure Orderly (s : Server settings τ) : Prop where
  regular : ∀ call ∈ s.calls, call.Regular
  inContext : ∀ call ∈ s.calls, call.InContext

variable {s s' : Server settings τ} {action : ServerAction τ}

/-- One step keeps the requests in order. -/
theorem Orderly.step (hs : Orderly s)
    (hstep : ServerTransition sha256 retentionWindowDays jwt hasher s action s') : Orderly s' := by
  constructor
  · intro call hcall
    rcases hstep.mem_calls hcall with hcall | ⟨request, uuid, rfl⟩ |
      ⟨i, old, tick, handled, -, hold, hmove, rfl⟩
    · exact hs.regular call hcall
    · exact regular_enter _ _ _
    · exact hmove.regular (hs.regular old (List.mem_of_getElem? hold))
  · intro call hcall
    rcases hstep.mem_calls hcall with hcall | ⟨request, uuid, rfl⟩ |
      ⟨i, old, tick, handled, -, hold, hmove, rfl⟩
    · exact hs.inContext call hcall
    · exact inContext_enter _ _ _
    · exact (hs.inContext old (List.mem_of_getElem? hold)).after hmove.running

/-- In every state reached the requests are in order. -/
theorem orderly_of_reaches {ok : Server settings τ → ServerAction τ → Prop}
    {config : ServerSettings τ}
    (h : Machine.Reaches (serverStep sha256 retentionWindowDays jwt hasher) ok (.init config) s) :
    Orderly s := by
  refine h.invariant ⟨?_, ?_⟩ fun _ _ _ _ _ hstep ht => ht.step (serverStep_cases hstep)
  · intro call hcall
    cases hcall
  · intro call hcall
    cases hcall

/-- The answer that a step gives is announced by the lines of the request. -/
theorem Moves.announced (hregular : call.Regular)
    (hhandled : handle sha256 retentionWindowDays jwt hasher shared call.request tick call.phase =
      some handled ∨ handleFailure shared call.request call.phase = some handled)
    (hmove : Moves sha256 retentionWindowDays jwt hasher shared call tick handled)
    {response : Response} (hanswered : (call.after tick handled).phase = .answered response) :
    Announced retentionWindowDays handled.shared.logins (call.after tick handled)
      (fun event => ∃ line ∈ (call.after tick handled).lines, line.event = event) response := by
  have hlines : ∀ line ∈ call.logged tick handled, line ∈ (call.after tick handled).lines := by
    intro line hline
    rw [ServerCall.lines_after]
    exact List.mem_append_right _ hline
  cases hnext : handled.next with
  | goOn phase =>
    rw [ServerCall.phase_after_of_goOn hnext] at hanswered
    rw [hanswered] at hnext
    exact absurd hnext (hmove.not_answered response)
  | respond response' =>
    have hsame : (call.after tick handled).phase = .answered response' := by
      unfold ServerCall.after
      rw [hnext]
      rfl
    rw [hsame] at hanswered
    cases hanswered
    have hannounced : Announced retentionWindowDays handled.shared.logins call
        (fun event => event ∈ handled.events) response := by
      rcases hhandled with hhandle | hfailed
      · exact handle_announces hregular hhandle response hnext
      · rw [raised_of_handleFailure hfailed] at hnext
        cases hnext
    refine hannounced.mono (List.Subset.refl _) ?_ ServerCall.request_after
      (ServerCall.user_after_of_ends (by simp [hnext]))
    intro event hevent
    obtain ⟨line, hline, heq⟩ := exists_line_of_mem_events hevent
    exact ⟨line, hlines line hline, heq⟩
  | raised =>
    have hsame : (call.after tick handled).phase = .answered .internalError := by
      unfold ServerCall.after
      rw [hnext]
      rfl
    rw [hsame] at hanswered
    cases hanswered
    obtain ⟨line, hline, heq⟩ := exists_line_of_raised hnext
    refine ⟨tick.exc, line, hlines line hline, ?_⟩
    rw [ServerCall.request_after]
    exact heq

/-- One step keeps the trail: only the request that moves gets lines and an answer. -/
theorem Trail.step (hs : Trail retentionWindowDays s) (hcalls : Orderly s)
    (hstep : ServerTransition sha256 retentionWindowDays jwt hasher s action s') :
    Trail retentionWindowDays s' := by
  cases hstep with
  -- The lines of the process that is gone are those of earlier ones.
  | boot config =>
    refine ⟨?_, ⟨s.lines, [], (List.append_nil _).symm, .refl _⟩, ?_, hs.adopted⟩
    · intro call hcall
      cases hcall
    · intro call hcall
      cases hcall
  -- A request that comes in has no lines yet.
  | receive request uuid =>
    obtain ⟨earlier, current, hlines, hperm⟩ := hs.attributed
    constructor
    · intro call hcall response hanswered
      rcases List.mem_append.mp hcall with hcall | hcall
      · exact hs.answers call hcall response hanswered
      · rw [List.mem_singleton.mp hcall] at hanswered ⊢
        exact enter_answered hanswered _
    · refine ⟨earlier, current, hlines, ?_⟩
      show current.Perm ((s.calls ++ [_]).flatMap ServerCall.lines)
      rw [List.flatMap_append, List.flatMap_singleton, lines_enter, List.append_nil]
      exact hperm
    · intro call hcall line hline
      rcases List.mem_append.mp hcall with hcall | hcall
      · exact hs.carried call hcall line hline
      · rw [List.mem_singleton.mp hcall, lines_enter] at hline
        cases hline
    · exact hs.adopted
  -- The lines of the step go to the end of the log, and to the request that moves.
  | @move i call tick handled action haction hcall hmove hhandled =>
    obtain ⟨earlier, current, hlines, hperm⟩ := hs.attributed
    have hmem := List.mem_of_getElem? hcall
    have hinContext := hcalls.inContext call hmem
    have hlogins : s.shared.logins ⊆ handled.shared.logins := by
      rcases hmove.logins with hsame | ⟨login, -, hnew⟩
      · rw [hsame]
        exact List.Subset.refl _
      · rw [hnew]
        exact List.subset_append_left _ _
    constructor
    · intro call' hcall' response hanswered
      rcases List.mem_or_eq_of_mem_set hcall' with hcall' | rfl
      · exact (hs.answers call' hcall' response hanswered).mono hlogins (fun _ h => h) rfl rfl
      · exact hmove.announced (hcalls.regular call hmem) hhandled hanswered
    · refine ⟨earlier, current ++ call.logged tick handled, ?_, ?_⟩
      · show s.lines ++ _ = _
        rw [hlines, List.append_assoc]
      · exact (hperm.append_right _).trans
          (Slots.flatMap_set_perm_append hcall ServerCall.lines_after).symm
    · intro call' hcall' line hline
      rcases List.mem_or_eq_of_mem_set hcall' with hcall' | rfl
      · exact hs.carried call' hcall' line hline
      · rw [ServerCall.request_after, ServerCall.correlationId_after]
        rw [ServerCall.lines_after] at hline
        rcases List.mem_append.mp hline with hline | hline
        · exact hs.carried call hmem line hline
        · exact hinContext.of_mem_logged hmove.running line hline
    · intro line hline
      rcases List.mem_append.mp hline with hline | hline
      · exact hs.adopted line hline
      · obtain ⟨hrequest, hid⟩ := hinContext.of_mem_logged hmove.running line hline
        rw [hrequest, hid]
        exact hinContext.adopted.imp fun uuid h => congrArg some h
  | disconnect hrollback => exact ⟨hs.answers, hs.attributed, hs.carried, hs.adopted⟩

/-- **Nothing that matters is answered without its line.** In every state that a service reaches,
each answer of the kinds that are logged has its line, which names the user that was let pass
and what was answered; each line belongs to one request, and carries its id. -/
theorem answers_are_on_record {ok : Server settings τ → ServerAction τ → Prop}
    {config : ServerSettings τ}
    (h : Machine.Reaches (serverStep sha256 retentionWindowDays jwt hasher) ok (.init config) s) :
    Trail retentionWindowDays s := by
  refine h.invariant ⟨?_, ⟨[], [], rfl, .refl _⟩, ?_, ?_⟩ fun _ _ _ run _ hstep ht =>
    ht.step (orderly_of_reaches run) (serverStep_cases hstep)
  · intro call hcall
    cases hcall
  · intro call hcall
    cases hcall
  · intro line hline
    cases hline

end Run

/-- After the login, the post and the redaction, somebody tries another password. -/
def writtenAndMistyped : List (ServerAction Int) :=
  loggedInAndWritten ++
    .receive { endpoint := .login "grace" "q", path := "/auth/token" } "x" ::
      List.replicate 2 (.advance 3 sampleTick)

theorem answers_are_on_record_writtenAndMistyped :
    ∃ s ∈ Machine.schedule (serverStep Sha256.hexdigest 30 graceJwt sampleHasher) TokensOnRecord
        writtenAndMistyped (.init graceConfig),
      s.lines.map (fun line => (line.event.name, line.correlationId)) =
        [("auth.login.success", some ("u" : PyStr)), ("redaction.applied", some ("w" : PyStr)),
          ("auth.login.failure", some ("x" : PyStr))] ∧ Trail 30 s := by
  have hrun : ∃ s ∈ Machine.schedule (serverStep Sha256.hexdigest 30 graceJwt sampleHasher)
      TokensOnRecord writtenAndMistyped (.init graceConfig),
      s.lines.map (fun line => (line.event.name, line.correlationId)) =
        [("auth.login.success", some ("u" : PyStr)), ("redaction.applied", some ("w" : PyStr)),
          ("auth.login.failure", some ("x" : PyStr))] := by
    decide +kernel
  obtain ⟨s, hs, hlines⟩ := hrun
  exact ⟨s, hs, hlines, answers_are_on_record (Machine.reaches_of_schedule hs)⟩

end AuditLog
