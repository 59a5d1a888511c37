import AuditLog.Api.Compliance
import AuditLog.Api.TenantIsolation
import AuditLog.Core.BodySizeLimit
import AuditLog.Core.Passwords
import AuditLog.Core.RateLimit
import AuditLog.Core.SecurityLogging

/-!
# The service

Requests as they pass the middleware, the dependencies and the body of their route, over
the sessions of the database. Each step of a request is one access to what requests share:
a limiter, the issued tokens, one step of its session, or one read of the table; requests
interleave between any two steps. A process can stop and another one start: what it kept in
memory is gone, what it stored, issued and logged stays.

Every step is one of a few moves (`moves_of_handle`, `serverStep_cases`), and its sessions run
as the system of requests and sessions does (`reaches_api`). On these rest the results about
whole histories:

* who has written a row, and who has asked for what it hides (`Api.Authorship`);
* how much a limiter lets through in a window of one process (`Api.RequestBudgets`);
* what the log says of answers, writes and sweeps (`Api.SecurityTrail`, `Api.LoggedWrites`,
  `Api.LoggedSweeps`), and that its lines can be read back (`Api.LogLines`);
* that any two answers agree on the records that both show (`Api.AgreeingAnswers`);
* why an answer is an internal error (`Api.InternalErrors`).

Left out: the framework's own work (the routing of paths, the parsing of bodies and headers,
the rendering of responses), the CORS middleware and the health routes. One process serves at
a time; a deployment of several has a limiter in each. A step reads the clocks and the frames
that are left on the stack from its `Tick`, and no two of them need be related.
-/

namespace AuditLog

/-! ## Settings -/

/-- The settings that a process starts with. The payload limits and the retention window are
parameters of the whole history. -/
structure ServerSettings (τ : Type) where
  auth : AuthSettings
  maxRequestBodyBytes : Int := 32768
  loginRateLimitMaxAttempts : Int := 5
  loginRateLimitWindowSeconds : τ
  sensitiveRateLimitMaxRequests : Int := 10
  sensitiveRateLimitWindowSeconds : τ
deriving DecidableEq

/-! ## Requests -/

/-- The fields of a posted event, before they are validated. -/
structure EventBody where
  eventType : PyStr
  actorId : PyStr
  resourceType : PyStr
  resourceId : PyStr
  payload : Payload
deriving DecidableEq

/-- The routes, with the arguments that their parameters and bodies give. -/
inductive Endpoint where
  | login (username password : PyStr)
  | createAuditEvent (eventIn : EventBody) (idempotencyKey : Option PyStr)
  | listAuditEvents (query : ListQuery)
  | verifyAuditChain
  | exportAuditEvents (actorId resourceId : Option PyStr)
  | getAccountAccessReport (query : ComplianceQuery)
  | redactAuditEvent (eventId : Int) (request : RedactionRequest)
  | applyRetention
deriving DecidableEq

namespace Endpoint

def method : Endpoint → String
  | login .. | createAuditEvent .. | redactAuditEvent .. | applyRetention => "POST"
  | listAuditEvents _ | verifyAuditChain | exportAuditEvents .. | getAccountAccessReport _ => "GET"

/-- What the route passes to `require_roles`; `login` has no such dependency. -/
def requiredRoles : Endpoint → List Role
  | login .. => []
  | createAuditEvent .. => [.writer, .admin]
  | listAuditEvents _ => [.reader, .auditor, .admin]
  | verifyAuditChain | exportAuditEvents .. | getAccountAccessReport _ => [.auditor, .admin]
  | redactAuditEvent .. | applyRetention => [.admin]

/-- The route depends on `enforce_sensitive_endpoint_rate_limit`. -/
def isSensitive : Endpoint → Bool
  | verifyAuditChain | exportAuditEvents .. | getAccountAccessReport _ => true
  | login .. | createAuditEvent .. | listAuditEvents _ | redactAuditEvent .. | applyRetention => false

/-- The body of the route talks to the database without a session of its own. -/
def isImmediate : Endpoint → Bool
  | listAuditEvents _ | verifyAuditChain | exportAuditEvents .. | getAccountAccessReport _
  | applyRetention => true
  | login .. | createAuditEvent .. | redactAuditEvent .. => false

end Endpoint

structure HttpRequest where
  endpoint : Endpoint
  path : PyStr
  clientHost : Option PyStr := none
  /-- The token of the `Authorization` header. -/
  bearer : Option PyStr := none
  /-- The `X-Request-ID` header. -/
  requestId : Option PyStr := none
  contentLength : Option (List Char) := none
deriving DecidableEq

/-! ## Responses -/

/-- `RedactionResultOut`. -/
structure RedactionResultOut where
  eventId : Int
  newlyRedactedFields : List PyStr
  redactedFields : List PyStr
  redactedAt : DateTime
  redactedContentHash : PyStr
  redactionEventId : Int
deriving DecidableEq

inductive Response where
  | token (accessToken : PyStr)
  | event (event : AuditEventOut)
  | events (events : List AuditEventOut)
  | verification (result : ChainVerificationResult)
  | bundle (bundle : ExportBundleOut)
  | report (report : ComplianceReportOut)
  | redaction (result : RedactionResultOut)
  | retention (result : RetentionResult)
  | refused (err : HttpError)
  /-- `handle_unexpected_exception`. -/
  | internalError
deriving DecidableEq

/-! ## Authentication -/

/-- `oauth2_scheme` and `get_current_user`. -/
def authenticate (jwt : Jwt) (settings : AuthSettings) (bearer : Option PyStr) (now : DateTime) :
    Except HttpError Identity :=
  match bearer with
  | none => .error (.httpException 401 [.text "Not authenticated"])
  | some token => getCurrentUser jwt settings token now

/-- The identity as a user, when its claims have the types that this service signs. -/
def Identity.user? (identity : Identity) : Option CurrentUser :=
  match identity.username, identity.tenantId with
  | .str username, .str tenantId =>
    some { username, role := identity.role, tenantId := some tenantId }
  | .str username, .null => some { username, role := identity.role, tenantId := none }
  | _, _ => none

theorem Identity.user?_identity (user : CurrentUser) : user.identity.user? = some user := by
  rcases user with ⟨username, role, _ | tenantId⟩ <;> rfl

/-- A successful login: the password that was given, and the token that was issued. -/
structure Login where
  password : PyStr
  issued : IssuedToken
deriving DecidableEq

/-! ## One request -/

/-- How far a request has got. -/
inductive Phase where
  | arrived
  /-- A login that the limiter lets pass. -/
  | verifying
  | authorized (user : CurrentUser)
  /-- Past the limiter, where the route has one. -/
  | allowed (user : CurrentUser)
  | serving (user : CurrentUser) (session : Nat)
  | applied (user : CurrentUser) (result : RetentionResult)
  | answered (response : Response)
deriving DecidableEq

/-- The user a request has been authenticated as. -/
def Phase.user? : Phase → Option CurrentUser
  | .authorized user | .allowed user | .serving user _ | .applied user _ => some user
  | .arrived | .verifying | .answered _ => none

/-- What a request has done to the resources that the limiters protect. -/
inductive Effect where
  | verifiedPassword (passwordHash : PyStr)
  | readTable
deriving DecidableEq

/-- A line of the log, with the request that it was logged for. -/
structure Line where
  request : HttpRequest
  created : DateTime
  correlationId : Option PyStr
  event : SecurityEvent
deriving DecidableEq

structure ServerCall (τ : Type) where
  request : HttpRequest
  /-- `request.state.correlation_id`. -/
  correlationId : PyStr
  /-- The context variable, as the code of this request reads it. -/
  context : Option PyStr
  phase : Phase
  /-- The user whom `require_roles` has let pass. -/
  user : Option CurrentUser := none
  /-- The clock reading with which a limiter has let the request pass. -/
  checkedAt : Option τ := none
  effects : List Effect := []
  /-- What has been logged for it. -/
  lines : List Line := []
deriving DecidableEq

/-- What a step reads from outside: its clocks, what is left of the interpreter's stack, and
what there is to say about the exception, where it raises one. -/
structure Tick (τ : Type) where
  now : DateTime
  archiveNow : DateTime
  monotonic : τ
  stack : Stack := {}
  exc : ExcInfo
deriving DecidableEq

variable {τ : Type} {settings : Settings}

namespace ServerCall

/-- `log_security_event`: an id that is passed goes before the context variable. -/
def line (call : ServerCall τ) (created : DateTime) (correlationId : Option PyStr)
    (event : SecurityEvent) : Line where
  request := call.request
  created
  correlationId := correlationId.or call.context
  event

/-- `CorrelationIdMiddleware.dispatch` is left: the context variable is reset. -/
def leave (call : ServerCall τ) (response : Response) : ServerCall τ :=
  { call with context := none, phase := .answered response }

end ServerCall

/-- `incoming if incoming else str(uuid.uuid4())`. -/
def adoptRequestId (incoming : Option PyStr) (uuid : PyStr) : PyStr :=
  match incoming with
  | none => uuid
  | some requestId => if requestId.len = 0 then uuid else requestId

/-- `CorrelationIdMiddleware` and `MaxBodySizeMiddleware`, on the way in. -/
def enter (config : ServerSettings τ) (request : HttpRequest) (uuid : PyStr) : ServerCall τ :=
  let correlationId := adoptRequestId request.requestId uuid
  let call : ServerCall τ :=
    { request, correlationId, context := some correlationId, phase := .arrived }
  match checkBodySize config.maxRequestBodyBytes request.contentLength with
  | .error err => call.leave (.refused err)
  | .ok () => call

/-! ## What requests share -/

/-- What requests share; `logins` keeps every token that was issued. -/
structure Shared (settings : Settings) (τ : Type) where
  config : ServerSettings τ
  api : ApiState settings := .init
  logins : List Login := []
  loginLimiter : Limited PyStr τ
  sensitiveLimiter : Limited PyStr τ

/-- `login_rate_limiter` and `sensitive_endpoint_rate_limiter` as the process creates them. -/
def loginRateLimiter (config : ServerSettings τ) : InMemoryRateLimiter PyStr τ where
  maxRequests := config.loginRateLimitMaxAttempts
  windowSeconds := config.loginRateLimitWindowSeconds

def sensitiveEndpointRateLimiter (config : ServerSettings τ) : InMemoryRateLimiter PyStr τ where
  maxRequests := config.sensitiveRateLimitMaxRequests
  windowSeconds := config.sensitiveRateLimitWindowSeconds

/-- What comes of a step of a request. -/
inductive Next where
  | goOn (phase : Phase)
  | respond (response : Response)
  | raised
deriving DecidableEq

/-- A refusal, or an exception that no route catches. -/
def Next.ofError (err : HttpError) : Next :=
  if err = .overflowError then .raised else .respond (.refused err)

structure Handled (settings : Settings) (τ : Type) where
  shared : Shared settings τ
  /-- What is logged, in order. -/
  events : List SecurityEvent := []
  effects : List Effect := []
  checkedAt : Option τ := none
  next : Next

/-! ## Routes that only read -/

namespace Routes

/-- `export_audit_events`, past its dependencies. -/
def exportAuditEvents (sha256 : Bytes → PyStr) (db : Database) (actorId resourceId : Option PyStr)
    (now : DateTime) : Except HttpError ExportBundleOut := do
  checkParams (minLengthParam "actorId" actorId ++ minLengthParam "resourceId" resourceId)
  if actorId.all (·.len = 0) ∧ resourceId.all (·.len = 0) then
    .error (.httpException 422 [.text "Provide at least one of 'actorId' or 'resourceId' to export."])
  else .ok (exportEvents sha256 db actorId resourceId now).out

/-- What `verify_audit_chain` logs. -/
def verificationEvents (requestedBy : PyStr) (result : ChainVerificationResult) :
    List SecurityEvent :=
  if result.intact then []
  else
    result.violation.toList.map fun violation =>
      .verificationFailed requestedBy violation.recordId violation.violationType result.recordsChecked

end Routes

/-! ## The steps of a request -/

section Steps

variable [AddCommGroup τ] [LinearOrder τ]
variable (sha256 : Bytes → PyStr) (retentionWindowDays : Int) (jwt : Jwt) (hasher : PasswordHasher)
variable (shared : Shared settings τ) (request : HttpRequest) (tick : Tick τ)

/-- The call of `check` for the host that a login comes from. -/
def Shared.checkLogin : Shared settings τ :=
  { shared with
    loginLimiter := checkNext shared.loginLimiter (request.clientHost.getD "unknown") tick.monotonic }

/-- The call of `check` for the user of a request. -/
def Shared.checkSensitive (user : CurrentUser) : Shared settings τ :=
  { shared with
    sensitiveLimiter := checkNext shared.sensitiveLimiter user.username tick.monotonic }

/-- `enforce_login_rate_limit`. -/
def enforceLogin : Handled settings τ :=
  match (enforceLoginRateLimit shared.loginLimiter.1 request.clientHost tick.monotonic).1 with
  | .error err => { shared := shared.checkLogin request tick, next := .ofError err }
  | .ok () =>
    { shared := shared.checkLogin request tick
      checkedAt := some tick.monotonic
      next := .goOn .verifying }

/-- `login`, past its dependencies. -/
def login (username password : PyStr) : Handled settings τ :=
  let effects := [.verifiedPassword (attemptedHash hasher shared.config.auth username)]
  match authenticateUser hasher shared.config.auth username password with
  | none => { shared, effects, next := .raised }
  | some none =>
    { shared, effects, events := [.loginFailure username]
      next := .respond (.refused (.httpException 401 [.text "Incorrect username or password"])) }
  | some (some user) =>
    match createAccessToken jwt shared.config.auth user tick.now with
    -- `OverflowError`, where the expiry is past the year 9999.
    | none => { shared, effects, next := .raised }
    | some token =>
      { shared := { shared with logins := shared.logins ++ [⟨password,
          { settings := shared.config.auth, user, issuedAt := tick.now, token }⟩] }
        effects
        events := [.loginSuccess user.username user.role]
        next := .respond (.token token) }

/-- `require_roles` and what it depends on; a token whose claims are of other types than the
ones this service signs is left out. -/
def authorize : Option (Handled settings τ) :=
  match authenticate jwt shared.config.auth request.bearer tick.now with
  | .error err => some { shared, next := .ofError err }
  | .ok identity =>
    identity.user?.map fun user =>
      match requireRoles request.endpoint.requiredRoles user with
      | .error err =>
        { shared
          events := [.authzDenied user.username user.role request.endpoint.requiredRoles
            request.path request.endpoint.method]
          next := .ofError err }
      | .ok user => { shared, next := .goOn (.authorized user) }

/-- `enforce_sensitive_endpoint_rate_limit`, where the route depends on it. -/
def enforceSensitive (user : CurrentUser) : Handled settings τ :=
  if request.endpoint.isSensitive then
    match (enforceSensitiveEndpointRateLimit shared.sensitiveLimiter.1 user tick.monotonic).1 with
    | .error err => { shared := shared.checkSensitive tick user, next := .ofError err }
    | .ok () =>
      { shared := shared.checkSensitive tick user
        checkedAt := some tick.monotonic
        next := .goOn (.allowed user) }
  else { shared, next := .goOn (.allowed user) }

/-- A session is started for a request that the route has accepted. -/
def startSession (user : CurrentUser) (action : ApiAction settings) : Option (Handled settings τ) :=
  (apiStep sha256 retentionWindowDays action shared.api).map fun api =>
    { shared := { shared with api }
      next := .goOn (.serving user shared.api.world.calls.length) }

/-- The body of the route, up to the first statement of a session. -/
def route (user : CurrentUser) : Option (Handled settings τ) :=
  match request.endpoint with
  | .login .. => none
  | .createAuditEvent body idempotencyKey =>
    match AuditEventCreate.validate tick.stack settings body.eventType body.actorId
        body.resourceType body.resourceId body.payload with
    -- A `RecursionError` is no validation error.
    | none => some { shared, next := .raised }
    | some (.error errors) =>
      some { shared, next := .ofError (.requestValidation (idempotencyKeyParam idempotencyKey ++
        errors.map fun e => ⟨e.loc, .string e.kind⟩)) }
    | some (.ok eventIn) =>
      match Routes.createAuditEvent user eventIn idempotencyKey with
      | .error err => some { shared, next := .ofError err }
      | .ok _ =>
        startSession sha256 retentionWindowDays shared user
          (.createAuditEvent user eventIn idempotencyKey)
  | .redactAuditEvent eventId body =>
    startSession sha256 retentionWindowDays shared user (.redactAuditEvent user eventId body tick.now)
  | .applyRetention =>
    match (AuditLog.applyRetention shared.api.world.db retentionWindowDays tick.now
        tick.archiveNow).1 with
    | none => some { shared, next := .raised }
    | some result =>
      (apiStep sha256 retentionWindowDays
        (.applyRetention user tick.now tick.archiveNow) shared.api).map fun api =>
          { shared := { shared with api }, next := .goOn (.applied user result) }
  | .listAuditEvents query =>
    match Routes.listAuditEvents shared.api.world.db user query with
    | .error err => some { shared, next := .ofError err }
    | .ok events => some { shared, effects := [.readTable], next := .respond (.events events) }
  | .verifyAuditChain =>
    match verifyChain sha256 shared.api.world.db with
    | .error _ => some { shared, effects := [.readTable], next := .raised }
    | .ok result =>
      some
        { shared
          effects := [.readTable]
          events := Routes.verificationEvents user.username result
          next := .respond (.verification result) }
  | .exportAuditEvents actorId resourceId =>
    match Routes.exportAuditEvents sha256 shared.api.world.db actorId resourceId tick.now with
    | .error err => some { shared, next := .ofError err }
    | .ok bundle =>
      some
        { shared
          effects := [.readTable]
          events := [.exportPerformed user.username actorId resourceId bundle.recordCount]
          next := .respond (.bundle bundle) }
  | .getAccountAccessReport query =>
    match Routes.getAccountAccessReport shared.api.world.db user (.ok ()) query with
    | .error err => some { shared, next := .ofError err }
    | .ok report =>
      some
        { shared
          effects := [.readTable]
          events := [.reportAccessed user.username query.actorId query.resourceId report.recordCount]
          next := .respond (.report report) }

/-- What a route makes of an exception of its service. -/
def Next.ofServiceError (err : ServiceError) : Next :=
  match err with
  | .idempotencyKeyConflict _ => .respond (.refused (.httpException 409 (err.message.getD [])))
  | .eventNotFound _ => .respond (.refused (.httpException 404 (err.message.getD [])))
  | .noRedactableFields _ => .respond (.refused (.httpException 422 (err.message.getD [])))
  | .validation _ => .raised
  | .database _ => .raised

/-- What `redact_audit_event` logs of a result. -/
def redactionEvent (user : CurrentUser) (eventId : Int) (result : RedactionResult) : SecurityEvent :=
  .redactionApplied user.username eventId result.newlyRedactedFields result.redactionEvent.id

/-- The response of `redact_audit_event`: the companion's commit has expired the record, which
is read once more. -/
def redactionResponse (db : Database) (eventId : Int) (result : RedactionResult) : Next :=
  match Repo.getEvent db eventId with
  | none => .raised
  | some event =>
    match event.redactedFields, event.redactedAt with
    | some redactedFields, some redactedAt =>
      .respond (.redaction
        { eventId := event.id
          newlyRedactedFields := result.newlyRedactedFields
          redactedFields
          redactedAt
          redactedContentHash := result.redactedContentHash
          redactionEventId := result.redactionEvent.id })
    | _, _ => .raised

/-- The session goes on, or the route answers with what it has returned. -/
def resume (user : CurrentUser) (session : Nat) : Option (Handled settings τ) :=
  match shared.api.world.calls[session]? with
  | some (.create _ (.ended (.ok event))) => some { shared, next := .respond (.event event.out) }
  | some (.create _ (.ended (.error err))) => some { shared, next := .ofServiceError err }
  | some (.redact req (.ended (.ok result))) =>
    some
      { shared
        events := [redactionEvent user req.eventId result]
        next := redactionResponse shared.api.world.db req.eventId result }
  | some (.redact _ (.ended (.error err))) => some { shared, next := .ofServiceError err }
  | _ =>
    (apiStep sha256 retentionWindowDays (.advance session tick.now) shared.api).map
      fun api => { shared := { shared with api }, next := .goOn (.serving user session) }

/-- `apply_retention`, once the service has returned. -/
def finishRetention (user : CurrentUser) (result : RetentionResult) : Handled settings τ where
  shared
  events := [.retentionApplied user.username result.archivedCount result.cutoff
    retentionWindowDays]
  next := .respond (.retention result)

/-- The next step of a request. -/
def handle (phase : Phase) : Option (Handled settings τ) :=
  match phase with
  | .arrived =>
    match request.endpoint with
    | .login .. => some (enforceLogin shared request tick)
    | _ => authorize jwt shared request tick
  | .verifying =>
    match request.endpoint with
    | .login username password => some (login jwt hasher shared tick username password)
    | _ => none
  | .authorized user => some (enforceSensitive shared request tick user)
  | .allowed user => route sha256 retentionWindowDays shared request tick user
  | .serving user session => resume sha256 retentionWindowDays shared tick user session
  | .applied user result => some (finishRetention retentionWindowDays shared user result)
  | .answered _ => none

/-- The driver raises in a statement that belongs to no session of the sessions' model. -/
def handleFailure (phase : Phase) : Option (Handled settings τ) :=
  match phase with
  | .allowed _ => if request.endpoint.isImmediate then some { shared, next := .raised } else none
  | .serving user session =>
    match shared.api.world.calls[session]? with
    -- The record is read for the response, after the event is logged.
    | some (.redact req (.ended (.ok result))) =>
      some { shared, events := [redactionEvent user req.eventId result], next := .raised }
    | _ => none
  | _ => none

end Steps

/-! ## The process -/

structure Server (settings : Settings) (τ : Type) where
  shared : Shared settings τ
  calls : List (ServerCall τ) := []
  lines : List Line := []

inductive ServerAction (τ : Type) where
  /-- Another process starts in place of this one. -/
  | boot (config : ServerSettings τ)
  | receive (request : HttpRequest) (uuid : PyStr)
  | advance (i : Nat) (tick : Tick τ)
  | fail (i : Nat) (tick : Tick τ)
  /-- A session loses its connection. -/
  | disconnect (session : Nat) (call : DbCall)
deriving DecidableEq

namespace ServerCall

/-- What a step logs; the handler of unexpected exceptions runs after the context variable has
been reset, and passes the id on. -/
def logged (call : ServerCall τ) (tick : Tick τ) (handled : Handled settings τ) : List Line :=
  handled.events.map (call.line tick.now none) ++
    if handled.next = .raised then
      [(call.leave .internalError).line tick.now (some call.correlationId)
        (.unhandledException call.request.path call.request.endpoint.method tick.exc)]
    else []

/-- The call after a step. -/
def after (call : ServerCall τ) (tick : Tick τ) (handled : Handled settings τ) : ServerCall τ :=
  let call := { call with
    checkedAt := handled.checkedAt.or call.checkedAt
    effects := call.effects ++ handled.effects
    lines := call.lines ++ call.logged tick handled }
  match handled.next with
  | .goOn phase => { call with phase, user := phase.user? }
  | .respond response => call.leave response
  | .raised => call.leave .internalError

end ServerCall

namespace Server

/-- A process of these settings, over what is stored, issued and logged. -/
def boot (config : ServerSettings τ) (api : ApiState settings) (logins : List Login)
    (lines : List Line) : Server settings τ where
  shared :=
    { config, api, logins, loginLimiter := (loginRateLimiter config, [])
      sensitiveLimiter := (sensitiveEndpointRateLimiter config, []) }
  lines

/-- The first process, over an empty database. -/
def init (config : ServerSettings τ) : Server settings τ := boot config .init [] []

/-- The state after a step of a request. -/
def conclude (s : Server settings τ) (i : Nat) (call : ServerCall τ) (tick : Tick τ)
    (handled : Handled settings τ) : Server settings τ where
  shared := handled.shared
  calls := s.calls.set i (call.after tick handled)
  lines := s.lines ++ call.logged tick handled

end Server

section Step

variable [AddCommGroup τ] [LinearOrder τ]
variable (sha256 : Bytes → PyStr) (retentionWindowDays : Int) (jwt : Jwt) (hasher : PasswordHasher)

def serverStep (action : ServerAction τ) (s : Server settings τ) : Option (Server settings τ) :=
  match action with
  | .boot config => some (.boot config s.shared.api s.shared.logins s.lines)
  | .receive request uuid =>
    some { s with calls := s.calls ++ [enter s.shared.config request uuid] }
  | .advance i tick =>
    s.calls[i]?.bind fun call =>
      (handle sha256 retentionWindowDays jwt hasher s.shared call.request tick call.phase).map
        (s.conclude i call tick)
  | .fail i tick =>
    s.calls[i]?.bind fun call =>
      (handleFailure s.shared call.request call.phase).map (s.conclude i call tick)
  | .disconnect session call =>
    (apiStep sha256 retentionWindowDays (.rollback session call) s.shared.api).map
      fun api => { s with shared := { s.shared with api } }

end Step

end AuditLog
