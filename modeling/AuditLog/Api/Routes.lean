import AuditLog.Services.ExportService
import AuditLog.Services.RedactionService

/-!
# The routes

What the HTTP layer checks before it calls a service: the caller's role, the query and
header parameters, the time range, and the tenant that a write is attributed to or a
reader is restricted to. Each route is given as the arguments it passes on.
-/

namespace AuditLog

/-! ## Callers -/

inductive Role where
  | writer
  | reader
  | auditor
  | admin
deriving DecidableEq

def Role.value : Role → String
  | .writer => "writer"
  | .reader => "reader"
  | .auditor => "auditor"
  | .admin => "admin"

/-- The identity that authentication has established. -/
structure CurrentUser where
  username : PyStr
  role : Role
  tenantId : Option PyStr
deriving DecidableEq

/-! ## Errors -/

inductive ParamErrorKind where
  | string (kind : FieldErrorKind)
  | greaterThanEqual (ge : Int)
  | lessThanEqual (le : Int)
deriving DecidableEq

structure ParamError where
  loc : String
  kind : ParamErrorKind
deriving DecidableEq

/-- What a request is refused with; an `OverflowError` is caught by no route. -/
inductive HttpError where
  | requestValidation (errors : List ParamError)
  | httpException (statusCode : Nat) (detail : FString)
  | overflowError
deriving DecidableEq

/-- `require_roles(*allowed_roles)`. -/
def requireRoles (allowedRoles : List Role) (user : CurrentUser) : Except HttpError CurrentUser :=
  if user.role ∉ allowedRoles then
    .error (.httpException 403 [.text "Role '", .text user.role.value,
      .text "' is not permitted to perform this operation."])
  else .ok user

/-! ## Parameters -/

def DEFAULT_LIMIT : Int := 50

def MAX_LIMIT : Int := 200

/-- `Query(ge=lower, le=upper)` on an integer. -/
def intParam (loc : String) (lower : Int) (upper : Option Int) (n : Int) : List ParamError :=
  if n < lower then [⟨loc, .greaterThanEqual lower⟩]
  else
    match upper with
    | none => []
    | some upper => if upper < n then [⟨loc, .lessThanEqual upper⟩] else []

/-- `Header(min_length=1, max_length=255)`, when the header is there. -/
def idempotencyKeyParam : Option PyStr → List ParamError
  | none => []
  | some key => (stringField "Idempotency-Key" 255 key).map fun e => ⟨e.loc, .string e.kind⟩

/-- Parameters are checked together, and refused with all their errors. -/
def checkParams (errors : List ParamError) : Except HttpError Unit :=
  if errors = [] then .ok () else .error (.requestValidation errors)

/-! ## Time ranges -/

/-- A `datetime` as the query parser delivers it. -/
inductive QueryTime where
  | naive
  | aware (t : DateTime)
deriving DecidableEq

/-- `value.astimezone(timezone.utc)`; `none` stands for `OverflowError`. -/
def DateTime.astimezoneUtc (t : DateTime) : Option DateTime :=
  DateTime.ofInstant t.instant 0 utc_inRange

/-- `require_utc`. -/
def requireUtc (value : Option QueryTime) (fieldName : String) : Except HttpError (Option DateTime) :=
  match value with
  | none => .ok none
  | some .naive => .error (.httpException 422 [.text "'", .text fieldName,
      .text "' must include timezone information (e.g. a 'Z' or '+00:00' offset)"])
  | some (.aware t) =>
    match t.astimezoneUtc with
    | some utc => .ok (some utc)
    -- Near the years 1 and 9999 the instant has no UTC clock.
    | none => .error .overflowError

/-- `validate_range`. -/
def validateRange (startTime endTime : Option DateTime) : Except HttpError Unit :=
  match startTime, endTime with
  | some s, some e =>
    if e < s then .error (.httpException 422 [.text "'from' must not be later than 'to'"]) else .ok ()
  | _, _ => .ok ()

/-! ## The routes -/

/-- `RedactionRequest`. -/
structure RedactionRequest where
  fields : List PyStr
  reason : Option PyStr := none
  nonempty : fields ≠ []
deriving DecidableEq

/-- The query parameters of `GET /audit/events`. -/
structure ListQuery where
  actorId : Option PyStr := none
  eventType : Option PyStr := none
  resourceType : Option PyStr := none
  resourceId : Option PyStr := none
  startTime : Option QueryTime := none
  endTime : Option QueryTime := none
  limit : Int := DEFAULT_LIMIT
  offset : Int := 0
deriving DecidableEq

/-- The arguments of `list_events`. -/
structure ListArguments where
  tenantId : Option PyStr
  eventType : Option PyStr
  filter : Repo.EventFilter
  limit : Nat
  offset : Nat
deriving DecidableEq

/-! ## Results in sequence -/

theorem bind_eq_ok_iff {ε α β : Type} {x : Except ε α} {f : α → Except ε β} {b : β} :
    x >>= f = .ok b ↔ ∃ a, x = .ok a ∧ f a = .ok b := by
  cases x with
  | error err =>
    constructor
    · rintro ⟨⟩
    · rintro ⟨a, ⟨⟩, -⟩
  | ok a =>
    constructor
    · exact fun h => ⟨a, rfl, h⟩
    · rintro ⟨a', ⟨⟩, h⟩
      exact h

theorem map_eq_ok_iff {ε α β : Type} {x : Except ε α} {f : α → β} {b : β} :
    x.map f = .ok b ↔ ∃ a, x = .ok a ∧ f a = b := by
  cases x with
  | error err =>
    constructor
    · rintro ⟨⟩
    · rintro ⟨a, ⟨⟩, -⟩
  | ok a =>
    constructor
    · exact fun h => ⟨a, rfl, Except.ok.inj h⟩
    · rintro ⟨a', ⟨⟩, rfl⟩
      rfl

namespace Routes

variable {settings : Settings}

/-- `create_audit_event`: the request that goes to the service. -/
def createAuditEvent (currentUser : CurrentUser) (eventIn : AuditEventCreate settings)
    (idempotencyKey : Option PyStr) : Except HttpError (CreateRequest settings) := do
  let currentUser ← requireRoles [.writer, .admin] currentUser
  checkParams (idempotencyKeyParam idempotencyKey)
  match currentUser.tenantId with
  | none => .error (.httpException 422
      [.text "Authenticated user has no tenant configured; cannot create audit events."])
  -- The tenant is the caller's, whatever the body says.
  | some tenantId => .ok { eventIn, tenantId, idempotencyKey, requestedBy := currentUser.username }

/-- `redact_audit_event`: the request that goes to the service. -/
def redactAuditEvent (currentUser : CurrentUser) (eventId : Int) (request : RedactionRequest)
    (now : DateTime) : Except HttpError RedactRequest := do
  let currentUser ← requireRoles [.admin] currentUser
  .ok { eventId, fields := request.fields, actorId := currentUser.username
        reason := request.reason, now }

/-- `apply_retention`: only the role is checked. -/
def applyRetention (currentUser : CurrentUser) : Except HttpError CurrentUser :=
  requireRoles [.admin] currentUser

/-- The tenant that `list_audit_events` restricts the caller to. -/
def readTenant (currentUser : CurrentUser) : Except HttpError (Option PyStr) :=
  if currentUser.role = .reader then
    match currentUser.tenantId with
    | none => .error (.httpException 403
        [.text "Reader has no tenant configured; cannot query audit events."])
    | some tenantId => .ok (some tenantId)
  -- Auditors and admins see every tenant.
  else .ok none

/-- `list_audit_events`: the arguments that go to the repository. -/
def listArguments (currentUser : CurrentUser) (query : ListQuery) : Except HttpError ListArguments := do
  let currentUser ← requireRoles [.reader, .auditor, .admin] currentUser
  checkParams (intParam "limit" 1 (some MAX_LIMIT) query.limit ++
    intParam "offset" 0 none query.offset)
  let startTime ← requireUtc query.startTime "from"
  let endTime ← requireUtc query.endTime "to"
  validateRange startTime endTime
  let tenantId ← readTenant currentUser
  .ok
    { tenantId
      eventType := query.eventType
      filter :=
        { actorId := query.actorId, resourceType := query.resourceType
          resourceId := query.resourceId, startTime, endTime }
      limit := query.limit.toNat
      offset := query.offset.toNat }

/-- `list_audit_events`. -/
def listAuditEvents (db : Database) (currentUser : CurrentUser) (query : ListQuery) :
    Except HttpError (List AuditEventOut) :=
  (listArguments currentUser query).map fun arguments =>
    (Repo.listEvents db arguments.tenantId arguments.eventType arguments.filter arguments.limit
      arguments.offset).map AuditEvent.out

/-! ## What the routes pass on -/

theorem requireRoles_ok_iff {allowedRoles : List Role} {user user' : CurrentUser} :
    requireRoles allowedRoles user = .ok user' ↔ user' = user ∧ user.role ∈ allowedRoles := by
  unfold requireRoles
  split
  · rename_i hrefused
    exact iff_of_false (by rintro ⟨⟩) fun h => hrefused h.2
  · rename_i hallowed
    rw [Except.ok.injEq, eq_comm]
    exact (and_iff_left (not_not.mp hallowed)).symm

/-- What is written is attributed to the caller and to the caller's tenant. -/
theorem createAuditEvent_ok {user : CurrentUser} {eventIn : AuditEventCreate settings}
    {idempotencyKey : Option PyStr} {req : CreateRequest settings}
    (h : createAuditEvent user eventIn idempotencyKey = .ok req) :
    user.tenantId = some req.tenantId ∧ req.requestedBy = some user.username ∧
      user.role ∈ [Role.writer, .admin] := by
  obtain ⟨user', hrole, hchecked⟩ := bind_eq_ok_iff.mp h
  obtain ⟨rfl, hallowed⟩ := requireRoles_ok_iff.mp hrole
  obtain ⟨-, -, hwritten⟩ := bind_eq_ok_iff.mp hchecked
  split at hwritten
  · cases hwritten
  · rename_i tenantId htenant
    cases hwritten
    exact ⟨htenant, rfl, hallowed⟩

theorem redactAuditEvent_ok {user : CurrentUser} {eventId : Int} {request : RedactionRequest}
    {now : DateTime} {req : RedactRequest}
    (h : redactAuditEvent user eventId request now = .ok req) :
    req.eventId = eventId ∧ req.actorId = user.username ∧ user.role = .admin := by
  obtain ⟨user', hrole, hpassed⟩ := bind_eq_ok_iff.mp h
  obtain ⟨rfl, hallowed⟩ := requireRoles_ok_iff.mp hrole
  cases hpassed
  exact ⟨rfl, rfl, List.mem_singleton.mp hallowed⟩

/-- A reader's query is restricted to the reader's tenant, whatever its filters are. -/
theorem listArguments_reader {user : CurrentUser} {query : ListQuery} {arguments : ListArguments}
    (h : listArguments user query = .ok arguments) (hreader : user.role = .reader) :
    arguments.tenantId = user.tenantId := by
  obtain ⟨user', hrole, hallowed⟩ := bind_eq_ok_iff.mp h
  obtain ⟨rfl, -⟩ := requireRoles_ok_iff.mp hrole
  obtain ⟨-, -, hpage⟩ := bind_eq_ok_iff.mp hallowed
  obtain ⟨startTime, -, hstart⟩ := bind_eq_ok_iff.mp hpage
  obtain ⟨endTime, -, hend⟩ := bind_eq_ok_iff.mp hstart
  obtain ⟨-, -, hrange⟩ := bind_eq_ok_iff.mp hend
  obtain ⟨tenantId, htenant, hpassed⟩ := bind_eq_ok_iff.mp hrange
  cases hpassed
  unfold readTenant at htenant
  rw [if_pos hreader] at htenant
  split at htenant
  · cases htenant
  · rename_i tenantId' hsome
    cases htenant
    exact hsome.symm

end Routes

/-! ## What a reader sees -/

/-- The page of a tenant is cut from the rows of the tenant. -/
theorem listEvents_tenant (db : Database) (tenantId : PyStr) (eventType : Option PyStr)
    (filter : Repo.EventFilter) (limit offset : Nat) :
    Repo.listEvents db (some tenantId) eventType filter limit offset =
      (((db.auditEvents.filter fun e => e.tenantId = tenantId).filter fun e =>
        decide (e.archivedAt = none) && (eventType.all (e.eventType = ·) && filter.matches e)).drop
          offset).take limit := by
  unfold Repo.listEvents Repo.EventFilter.matches
  simp only [Repo.narrow_eq_filter, List.filter_filter, Option.all_some]
  congr 3
  funext e
  ac_rfl

end AuditLog
