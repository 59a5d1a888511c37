import AuditLog.Api.Server

/-!
# Steps of the service

A step of a request is one of a few moves, by what it does to what requests share; a step
of the process is such a move, a request that comes in, a process that starts or a session
that loses its connection. The sessions below run as the system of requests and sessions
does.
-/

namespace AuditLog

variable {τ : Type} {settings : Settings}

/-! ## What a step can do -/

/-- An event that says nothing about what is stored or issued. -/
def SecurityEvent.IsReading : SecurityEvent → Prop
  | .verificationFailed .. | .exportPerformed .. | .reportAccessed .. => True
  | _ => False

/-- The step ends the request. -/
def Next.Ends (next : Next) : Prop := ∀ phase, next ≠ .goOn phase

/-- A response ends the request. -/
@[simp] theorem Next.ends_respond (response : Response) : (Next.respond response).Ends := by
  rintro phase ⟨⟩

@[simp] theorem Next.ends_raised : Next.raised.Ends := by rintro phase ⟨⟩

/-- A refused request is over, whether or not the code catches the refusal. -/
@[simp] theorem Next.ends_ofError (err : HttpError) : (Next.ofError err).Ends := by
  unfold Next.ofError
  split <;> simp

@[simp] theorem Next.ends_ofServiceError (err : ServiceError) : (Next.ofServiceError err).Ends := by
  cases err <;> simp [Next.ofServiceError]

/-- A redaction that has returned is answered, or fails over its row. -/
@[simp] theorem ends_redactionResponse (db : Database) (eventId : Int) (result : RedactionResult) :
    (redactionResponse db eventId result).Ends := by
  unfold redactionResponse
  split
  · simp
  · split <;> simp

/-- The action that a request of the user starts a session with. -/
inductive ApiAction.Starts (user : CurrentUser) : Endpoint → ApiAction settings → Prop where
  | create {body : EventBody} {eventIn : AuditEventCreate settings} {idempotencyKey : Option PyStr}
      {req : CreateRequest settings}
      (hroute : Routes.createAuditEvent user eventIn idempotencyKey = .ok req) :
      Starts user (.createAuditEvent body idempotencyKey)
        (.createAuditEvent user eventIn idempotencyKey)
  | redact (eventId : Int) (request : RedactionRequest) (now : DateTime) :
      Starts user (.redactAuditEvent eventId request) (.redactAuditEvent user eventId request now)

section Functions

variable {jwt : Jwt} {hasher : PasswordHasher}
variable (shared : Shared settings τ) (request : HttpRequest) (tick : Tick τ)

section Limited

variable [AddCommGroup τ] [LinearOrder τ]

/-- The refusal of both limiters. -/
def tooManyRequests : Response := .refused (.httpException 429 [.text RATE_LIMIT_ERROR_DETAIL])

/-- The refusal says nothing of the key or of the time that is left. -/
theorem enforceLimit_fst {κ : Type} [DecidableEq κ] (limiter : InMemoryRateLimiter κ τ) (key : κ)
    (now : τ) : (enforceLimit limiter key now).1 =
      if (limiter.check key now).1 then .ok ()
      else .error (.httpException 429 [.text RATE_LIMIT_ERROR_DETAIL]) := by
  unfold enforceLimit
  rcases hcheck : limiter.check key now with ⟨_ | _, limiter'⟩ <;> rfl

/-- A login is checked, and goes on if it is allowed. -/
theorem enforceLogin_cases :
    ((shared.loginLimiter.1.check (request.clientHost.getD "unknown") tick.monotonic).1 = true ∧
        enforceLogin shared request tick =
          { shared := shared.checkLogin request tick, checkedAt := some tick.monotonic
            next := .goOn .verifying }) ∨
      ((shared.loginLimiter.1.check (request.clientHost.getD "unknown") tick.monotonic).1 = false ∧
        enforceLogin shared request tick =
          { shared := shared.checkLogin request tick, next := .respond tooManyRequests }) := by
  unfold enforceLogin enforceLoginRateLimit
  rw [enforceLimit_fst]
  cases (shared.loginLimiter.1.check (request.clientHost.getD "unknown") tick.monotonic).1 with
  | true => exact Or.inl ⟨rfl, rfl⟩
  | false => exact Or.inr ⟨rfl, rfl⟩

/-- A request for a sensitive endpoint is checked, and goes on if it is allowed. -/
theorem enforceSensitive_cases (user : CurrentUser) :
    (request.endpoint.isSensitive = false ∧ enforceSensitive shared request tick user =
        { shared, next := .goOn (.allowed user) }) ∨
      (request.endpoint.isSensitive = true ∧
        (shared.sensitiveLimiter.1.check user.username tick.monotonic).1 = true ∧
        enforceSensitive shared request tick user =
          { shared := shared.checkSensitive tick user, checkedAt := some tick.monotonic
            next := .goOn (.allowed user) }) ∨
      (request.endpoint.isSensitive = true ∧
        (shared.sensitiveLimiter.1.check user.username tick.monotonic).1 = false ∧
        enforceSensitive shared request tick user =
          { shared := shared.checkSensitive tick user, next := .respond tooManyRequests }) := by
  unfold enforceSensitive enforceSensitiveEndpointRateLimit
  rw [enforceLimit_fst]
  cases request.endpoint.isSensitive with
  | false => exact Or.inl ⟨rfl, rfl⟩
  | true =>
    cases (shared.sensitiveLimiter.1.check user.username tick.monotonic).1 with
    | true => exact Or.inr (Or.inl ⟨rfl, rfl, rfl⟩)
    | false => exact Or.inr (Or.inr ⟨rfl, rfl, rfl⟩)

end Limited

variable {shared request tick}

/-- A token is checked against the settings alone: it changes nothing that is shared. -/
theorem authorize_shared {handled : Handled settings τ}
    (h : authorize jwt shared request tick = some handled) : handled.shared = shared := by
  unfold authorize at h
  split at h
  · cases h
    rfl
  · obtain ⟨user, -, rfl⟩ := Option.map_eq_some_iff.mp h
    split <;> rfl

/-- A login touches no table. -/
theorem login_api (username password : PyStr) :
    (login jwt hasher shared tick username password).shared.api = shared.api := by
  unfold login
  dsimp only
  split
  · rfl
  · rfl
  · split <;> rfl

end Functions

/-- The user that the action is taken for. -/
def ApiAction.user? : ApiAction settings → Option CurrentUser
  | .createAuditEvent user _ _ | .redactAuditEvent user _ _ _ | .applyRetention user _ _ => some user
  | .advance _ _ | .rollback _ _ => none

/-- A session is started for the user of the request and nobody else. -/
theorem ApiAction.Starts.user? {user : CurrentUser} {endpoint : Endpoint}
    {action : ApiAction settings} (h : action.Starts user endpoint) : action.user? = some user := by
  cases h <;> rfl

section Moves

variable [AddCommGroup τ] [LinearOrder τ]
variable (sha256 : Bytes → PyStr) (retentionWindowDays : Int) (jwt : Jwt) (hasher : PasswordHasher)
variable (shared : Shared settings τ) (call : ServerCall τ) (tick : Tick τ)

/-- A step of a request, by what it does to what requests share. -/
inductive Moves : Handled settings τ → Prop where
  | checkLogin {username password : PyStr} (hphase : call.phase = .arrived)
      (hendpoint : call.request.endpoint = .login username password) :
      Moves (enforceLogin shared call.request tick)
  | authorize {handled : Handled settings τ} (hphase : call.phase = .arrived)
      (h : AuditLog.authorize jwt shared call.request tick = some handled) : Moves handled
  | login {username password : PyStr} (hphase : call.phase = .verifying)
      (hendpoint : call.request.endpoint = .login username password) :
      Moves (AuditLog.login jwt hasher shared tick username password)
  | checkSensitive {user : CurrentUser} (hphase : call.phase = .authorized user) :
      Moves (enforceSensitive shared call.request tick user)
  | answer {user : CurrentUser} {events : List SecurityEvent} {effects : List Effect} {next : Next}
      (hphase : call.phase = .allowed user) (hevents : ∀ event ∈ events, event.IsReading)
      (heffects : effects = [] ∨ effects = [.readTable]) (hnext : next.Ends) :
      Moves { shared, events, effects, next }
  | start {user : CurrentUser} {action : ApiAction settings} {api : ApiState settings}
      (hphase : call.phase = .allowed user) (haction : action.Starts user call.request.endpoint)
      (hstep : apiStep sha256 retentionWindowDays action shared.api = some api) :
      Moves { shared := { shared with api }
              next := .goOn (.serving user shared.api.world.calls.length) }
  | retain {user : CurrentUser} {result : RetentionResult} {api : ApiState settings}
      (hphase : call.phase = .allowed user) (hendpoint : call.request.endpoint = .applyRetention)
      (hresult : (AuditLog.applyRetention shared.api.world.db retentionWindowDays
        tick.now tick.archiveNow).1 = some result)
      (hstep : apiStep sha256 retentionWindowDays
        (.applyRetention user tick.now tick.archiveNow) shared.api = some api) :
      Moves { shared := { shared with api }, next := .goOn (.applied user result) }
  | advance {user : CurrentUser} {session : Nat} {api : ApiState settings}
      (hphase : call.phase = .serving user session)
      (hstep : apiStep sha256 retentionWindowDays (.advance session tick.now)
        shared.api = some api) :
      Moves { shared := { shared with api }, next := .goOn (.serving user session) }
  | returned {user : CurrentUser} {session : Nat} {next : Next}
      (hphase : call.phase = .serving user session)
      (hnext : next.Ends) : Moves { shared, next }
  | redacted {user : CurrentUser} {session : Nat} {req : RedactRequest} {result : RedactionResult}
      {next : Next} (hphase : call.phase = .serving user session)
      (hcall : shared.api.world.calls[session]? = some (.redact req (.ended (.ok result))))
      (hnext : next.Ends) :
      Moves { shared, events := [redactionEvent user req.eventId result], next }
  | retained {user : CurrentUser} {result : RetentionResult}
      (hphase : call.phase = .applied user result) :
      Moves (finishRetention retentionWindowDays shared user result)

variable {sha256 retentionWindowDays jwt hasher shared call tick} {handled : Handled settings τ}

/-- What is logged of a verification is a reading. -/
theorem isReading_verificationEvents (requestedBy : PyStr) (result : ChainVerificationResult) :
    ∀ event ∈ Routes.verificationEvents requestedBy result, event.IsReading := by
  unfold Routes.verificationEvents
  split
  · simp
  · intro event hevent
    obtain ⟨violation, -, rfl⟩ := List.mem_map.mp hevent
    trivial

/-- A route that may run answers, starts a session, or applies the retention policy. -/
theorem moves_of_route {user : CurrentUser} (hphase : call.phase = .allowed user)
    (h : route sha256 retentionWindowDays shared call.request tick user = some handled) :
    Moves sha256 retentionWindowDays jwt hasher shared call tick handled := by
  -- Every route refuses in the same way.
  have hrefused : ∀ err : HttpError, Moves sha256 retentionWindowDays jwt hasher shared call tick
      { shared, next := .ofError err } := fun err =>
    .answer hphase (by simp) (by simp) (Next.ends_ofError err)
  unfold route at h
  split at h
  · cases h
  · split at h
    · cases h
      exact .answer hphase (by simp) (by simp) Next.ends_raised
    · cases h
      exact hrefused _
    · split at h
      · cases h
        exact hrefused _
      · rename_i hendpoint _ _ _ _ req hroute
        obtain ⟨api, hstep, rfl⟩ := Option.map_eq_some_iff.mp h
        exact .start hphase (by rw [hendpoint]; exact .create hroute) hstep
  · rename_i hendpoint
    obtain ⟨api, hstep, rfl⟩ := Option.map_eq_some_iff.mp h
    exact .start hphase (by rw [hendpoint]; exact .redact _ _ _) hstep
  · split at h
    · cases h
      exact .answer hphase (by simp) (by simp) Next.ends_raised
    -- The sweep is committed in this step, its answer and its log line are a step of their own.
    · rename_i hendpoint _ result hresult
      obtain ⟨api, hstep, rfl⟩ := Option.map_eq_some_iff.mp h
      exact .retain hphase hendpoint hresult hstep
  · split at h <;> cases h
    · exact hrefused _
    · exact .answer hphase (by simp) (by simp) (Next.ends_respond _)
  · split at h <;> cases h
    · exact .answer hphase (by simp) (by simp) Next.ends_raised
    · exact .answer hphase (isReading_verificationEvents _ _) (by simp) (Next.ends_respond _)
  · split at h <;> cases h
    · exact hrefused _
    · exact .answer hphase (by simp [SecurityEvent.IsReading]) (by simp) (Next.ends_respond _)
  · split at h <;> cases h
    · exact hrefused _
    · exact .answer hphase (by simp [SecurityEvent.IsReading]) (by simp) (Next.ends_respond _)

/-- A request whose session is running lets it go on, and answers when it has returned. -/
theorem moves_of_resume {user : CurrentUser} {session : Nat}
    (hphase : call.phase = .serving user session)
    (h : resume sha256 retentionWindowDays shared tick user session = some handled) :
    Moves sha256 retentionWindowDays jwt hasher shared call tick handled := by
  unfold resume at h
  split at h
  · cases h
    exact .returned hphase (Next.ends_respond _)
  · cases h
    exact .returned hphase (Next.ends_ofServiceError _)
  · rename_i hcall
    cases h
    exact .redacted hphase hcall (ends_redactionResponse _ _ _)
  · cases h
    exact .returned hphase (Next.ends_ofServiceError _)
  · obtain ⟨api, hstep, rfl⟩ := Option.map_eq_some_iff.mp h
    exact .advance hphase hstep

/-- **A step of a request is one of these moves.** -/
theorem moves_of_handle (h : handle sha256 retentionWindowDays jwt hasher shared call.request tick
    call.phase = some handled) :
    Moves sha256 retentionWindowDays jwt hasher shared call tick handled := by
  unfold handle at h
  split at h
  · rename_i hphase
    split at h
    -- A login is met by its limiter, every other request by the check of its token.
    · rename_i hendpoint
      cases h
      exact .checkLogin hphase hendpoint
    · exact .authorize hphase h
  · rename_i hphase
    split at h
    · rename_i hendpoint
      cases h
      exact .login hphase hendpoint
    · cases h
  · rename_i hphase
    cases h
    exact .checkSensitive hphase
  · rename_i hphase
    exact moves_of_route hphase h
  · rename_i hphase
    exact moves_of_resume hphase h
  · rename_i hphase
    cases h
    exact .retained hphase
  · cases h

/-- A statement that fails ends the request. Only a redaction that has returned is logged first. -/
theorem moves_of_handleFailure (h : handleFailure shared call.request call.phase = some handled) :
    Moves sha256 retentionWindowDays jwt hasher shared call tick handled := by
  unfold handleFailure at h
  split at h
  · rename_i hphase
    split at h
    · cases h
      exact .answer hphase (by simp) (by simp) Next.ends_raised
    · cases h
  · rename_i hphase
    split at h
    · rename_i hcall
      cases h
      exact .redacted hphase hcall Next.ends_raised
    · cases h
  · cases h

/-- What a step does to the sessions is a step of the system of requests and sessions, taken
for the user of the request; it takes no session's connection. -/
theorem Moves.api (h : Moves sha256 retentionWindowDays jwt hasher shared call tick handled) :
    handled.shared.api = shared.api ∨ ∃ action,
      apiStep sha256 retentionWindowDays action shared.api = some handled.shared.api ∧
        (∀ user, action.user? = some user → call.phase.user? = some user) ∧
        ∀ session statement, action ≠ .rollback session statement := by
  cases h with
  -- Three moves are steps of the sessions. The first two are taken for the user of the request.
  | start hphase haction hstep =>
    refine Or.inr ⟨_, hstep, fun user huser => ?_, ?_⟩
    · rw [haction.user?] at huser
      rw [hphase]
      exact huser
    · rintro session statement rfl
      cases haction.user?
  | retain hphase hendpoint hresult hstep =>
    refine Or.inr ⟨_, hstep, fun user huser => ?_, ?_⟩
    · rw [hphase]
      exact huser
    · rintro session statement ⟨⟩
  -- The step of a session that is under way names no user.
  | advance hphase hstep =>
    refine Or.inr ⟨_, hstep, ?_, ?_⟩
    · rintro user ⟨⟩
    · rintro session statement ⟨⟩
  | checkLogin =>
    rcases enforceLogin_cases shared call.request tick with ⟨-, h⟩ | ⟨-, h⟩ <;>
      exact Or.inl (congrArg (fun handled => handled.shared.api) h)
  | authorize _ h => exact Or.inl (congrArg Shared.api (authorize_shared h))
  | login => exact Or.inl (login_api _ _)
  | @checkSensitive user =>
    rcases enforceSensitive_cases shared call.request tick user with ⟨-, h⟩ | ⟨-, -, h⟩ | ⟨-, -, h⟩ <;>
      exact Or.inl (congrArg (fun handled => handled.shared.api) h)
  | _ => exact Or.inl rfl

end Moves

/-! ## The request after a step -/

section After

variable {call : ServerCall τ} {tick : Tick τ} {handled : Handled settings τ}

/-- A request that goes on is in the phase that its step says. -/
theorem ServerCall.phase_after_of_goOn {phase : Phase} (h : handled.next = .goOn phase) :
    (call.after tick handled).phase = phase := by
  unfold after
  rw [h]

/-- A request that ends has been answered. -/
theorem ServerCall.phase_after_of_ends (h : handled.next.Ends) :
    ∃ response, (call.after tick handled).phase = .answered response := by
  unfold after
  cases hnext : handled.next with
  | goOn phase => exact absurd hnext (h phase)
  | respond response => exact ⟨response, rfl⟩
  | raised => exact ⟨.internalError, rfl⟩

theorem ServerCall.user_after_of_goOn {phase : Phase} (h : handled.next = .goOn phase) :
    (call.after tick handled).user = phase.user? := by
  unfold after
  rw [h]

/-- Who was let pass is kept when the request ends. -/
theorem ServerCall.user_after_of_ends (h : handled.next.Ends) :
    (call.after tick handled).user = call.user := by
  unfold after
  cases hnext : handled.next with
  | goOn phase => exact absurd hnext (h phase)
  | respond response => rfl
  | raised => rfl

@[simp] theorem ServerCall.request_after : (call.after tick handled).request = call.request := by
  unfold after
  cases handled.next <;> rfl

@[simp] theorem ServerCall.correlationId_after :
    (call.after tick handled).correlationId = call.correlationId := by
  unfold after
  cases handled.next <;> rfl

/-- The pass of a request is the last one that it has had. -/
@[simp] theorem ServerCall.checkedAt_after :
    (call.after tick handled).checkedAt = handled.checkedAt.or call.checkedAt := by
  unfold after
  cases handled.next <;> rfl

@[simp] theorem ServerCall.effects_after :
    (call.after tick handled).effects = call.effects ++ handled.effects := by
  unfold after
  cases handled.next <;> rfl

@[simp] theorem ServerCall.lines_after :
    (call.after tick handled).lines = call.lines ++ call.logged tick handled := by
  unfold after
  cases handled.next <;> rfl

/-- Nobody is let pass on the way in. -/
@[simp] theorem enter_user? (config : ServerSettings τ) (request : HttpRequest) (uuid : PyStr) :
    (enter config request uuid).phase.user? = none := by
  unfold enter
  dsimp only
  split <;> rfl

end After

/-! ## Runs of the process -/

section Runs

variable [AddCommGroup τ] [LinearOrder τ]
variable (sha256 : Bytes → PyStr) (retentionWindowDays : Int) (jwt : Jwt) (hasher : PasswordHasher)

/-- A step of the process. -/
inductive ServerTransition (s : Server settings τ) : ServerAction τ → Server settings τ → Prop where
  | boot (config : ServerSettings τ) :
      ServerTransition s (.boot config) (.boot config s.shared.api s.shared.logins s.lines)
  | receive (request : HttpRequest) (uuid : PyStr) :
      ServerTransition s (.receive request uuid)
        { s with calls := s.calls ++ [enter s.shared.config request uuid] }
  | move {i : Nat} {call : ServerCall τ} {tick : Tick τ} {handled : Handled settings τ}
      {action : ServerAction τ} (haction : action = .advance i tick ∨ action = .fail i tick)
      (hcall : s.calls[i]? = some call)
      (hmove : Moves sha256 retentionWindowDays jwt hasher s.shared call tick handled)
      (hhandled : handle sha256 retentionWindowDays jwt hasher s.shared call.request tick call.phase =
          some handled ∨ handleFailure s.shared call.request call.phase = some handled) :
      ServerTransition s action (s.conclude i call tick handled)
  | disconnect {session : Nat} {statement : DbCall} {api : ApiState settings}
      (hstep : apiStep sha256 retentionWindowDays (.rollback session statement) s.shared.api =
        some api) :
      ServerTransition s (.disconnect session statement) { s with shared := { s.shared with api } }

variable {sha256 retentionWindowDays jwt hasher} {s s' : Server settings τ}

/-- **A step of the process is one of these transitions.** -/
theorem serverStep_cases {action : ServerAction τ}
    (h : serverStep sha256 retentionWindowDays jwt hasher action s = some s') :
    ServerTransition sha256 retentionWindowDays jwt hasher s action s' := by
  cases action with
  | boot config =>
    cases h
    exact .boot config
  | receive request uuid =>
    cases h
    exact .receive request uuid
  | advance i tick =>
    obtain ⟨call, hcall, h⟩ := Option.bind_eq_some_iff.mp h
    obtain ⟨handled, hhandle, rfl⟩ := Option.map_eq_some_iff.mp h
    exact .move (Or.inl rfl) hcall (moves_of_handle hhandle) (Or.inl hhandle)
  | fail i tick =>
    obtain ⟨call, hcall, h⟩ := Option.bind_eq_some_iff.mp h
    -- A statement that fails moves the request like any other step.
    obtain ⟨handled, hhandle, rfl⟩ := Option.map_eq_some_iff.mp h
    exact .move (Or.inr rfl) hcall (moves_of_handleFailure hhandle) (Or.inr hhandle)
  | disconnect session statement =>
    obtain ⟨api, hstep, rfl⟩ := Option.map_eq_some_iff.mp h
    exact .disconnect hstep

/-- A request of somebody, after a step: an old one, one that has come in, or the one that has
moved. -/
theorem ServerTransition.mem_calls {action : ServerAction τ}
    (h : ServerTransition sha256 retentionWindowDays jwt hasher s action s') {call : ServerCall τ}
    (hcall : call ∈ s'.calls) : call ∈ s.calls ∨
      (∃ request uuid, call = enter s.shared.config request uuid) ∨
      ∃ i old tick handled, (action = .advance i tick ∨ action = .fail i tick) ∧
        s.calls[i]? = some old ∧
        Moves sha256 retentionWindowDays jwt hasher s.shared old tick handled ∧
        call = old.after tick handled := by
  cases h with
  | boot config => cases hcall
  | receive request uuid =>
    rcases List.mem_append.mp hcall with hcall | hcall
    · exact Or.inl hcall
    · exact Or.inr (Or.inl ⟨request, uuid, List.mem_singleton.mp hcall⟩)
  | @move i old tick handled _ haction hold hmove =>
    rcases List.mem_or_eq_of_mem_set hcall with hcall | rfl
    · exact Or.inl hcall
    · exact Or.inr (Or.inr ⟨i, old, tick, handled, haction, hold, hmove, rfl⟩)
  | disconnect hstep => exact Or.inl hcall

/-- The sessions of the process are a run of the system of requests and sessions. -/
theorem reaches_api {ok : Server settings τ → ServerAction τ → Prop} {config : ServerSettings τ}
    (h : Machine.Reaches (serverStep sha256 retentionWindowDays jwt hasher) ok (.init config) s) :
    Machine.Reaches (apiStep sha256 retentionWindowDays) (fun _ _ => True) .init s.shared.api := by
  refine h.simulate (fun s => s.shared.api) fun s t action _ hstep => ?_
  cases serverStep_cases hstep with
  | boot config => exact Or.inl rfl
  | receive request uuid => exact Or.inl rfl
  | move _ _ hmove =>
    -- A move that leaves the sessions alone is no step there.
    exact hmove.api.imp_right fun ⟨action, hstep, _, _⟩ => ⟨action, trivial, hstep⟩
  | disconnect hrollback => exact Or.inr ⟨_, trivial, hrollback⟩

end Runs

end AuditLog
