import AuditLog.Api.AgreeingAnswers
import AuditLog.Api.TimeRange
import AuditLog.Concurrency.SessionErrors
import AuditLog.Concurrency.UnhashableTargets

/-!
# Internal errors

When the service answers with an internal error: the driver has failed, or the request is one
of the few that the code does not expect. Nothing else leads to one, however requests
interleave; the unique constraints of the tables do not, unless SHA-256 collides.
-/

namespace AuditLog

variable {τ : Type} {settings : Settings} {sha256 : Bytes → PyStr} {retentionWindowDays : Int}
  {jwt : Jwt} {hasher : PasswordHasher}

/-! ## Results in sequence -/

/-- A sequence of checks fails with the error of the first one that fails. -/
theorem bind_eq_error_iff {ε α β : Type} {x : Except ε α} {f : α → Except ε β} {err : ε} :
    x >>= f = .error err ↔ x = .error err ∨ ∃ a, x = .ok a ∧ f a = .error err := by
  cases x with
  | error err' =>
    show Except.error err' = .error err ↔ _
    constructor
    · intro h
      cases h
      exact Or.inl rfl
    · rintro (h | ⟨a, h, -⟩)
      · cases h
        rfl
      · cases h
  | ok a =>
    show f a = .error err ↔ _
    constructor
    · exact fun h => Or.inr ⟨a, rfl, h⟩
    · rintro (h | ⟨a', h, herror⟩)
      · cases h
      · cases h
        exact herror

theorem map_eq_error_iff {ε α β : Type} {x : Except ε α} {f : α → β} {err : ε} :
    x.map f = .error err ↔ x = .error err := by
  cases x with
  | error err' => simp [Except.map]
  | ok a => simp [Except.map]

/-! ## Time ranges that raise -/

/-- The bound has no UTC datetime. -/
def OutOfRange (value : Option QueryTime) : Prop := ∃ t, value = some (.aware t) ∧ ¬InUtcYears t

/-- A bound of the range has no UTC datetime, and is reached: a naive `from` is refused before
`to` is looked at. -/
def RangeRaises (startTime endTime : Option QueryTime) : Prop :=
  OutOfRange startTime ∨ startTime ≠ some .naive ∧ OutOfRange endTime

/-- `astimezone` overflows exactly for a bound without a UTC datetime. -/
theorem requireUtc_overflow_iff (value : Option QueryTime) (fieldName : String) :
    requireUtc value fieldName = .error .overflowError ↔ OutOfRange value := by
  unfold OutOfRange
  rcases value with _ | _ | t
  · simp [requireUtc]
  · simp [requireUtc]
  · have hnone : t.astimezoneUtc = none ↔ ¬InUtcYears t := by
      rw [← astimezoneUtc_isSome_iff, Option.not_isSome_iff_eq_none]
    simp only [Option.some.injEq, QueryTime.aware.injEq, exists_eq_left', ← hnone]
    simp only [requireUtc]
    cases t.astimezoneUtc <;> simp

/-- A bound is let through if it is absent, or aware with a UTC datetime. -/
theorem exists_requireUtc_ok_iff (value : Option QueryTime) (fieldName : String) :
    (∃ utc, requireUtc value fieldName = .ok utc) ↔ value ≠ some .naive ∧ ¬OutOfRange value := by
  rw [← requireUtc_overflow_iff value fieldName]
  rcases value with _ | _ | t
  · simp [requireUtc]
  · simp [requireUtc]
  · simp only [requireUtc]
    cases t.astimezoneUtc <;> simp

/-- A refused role is no overflow, and neither are the refusals below. -/
@[simp] theorem requireRoles_ne_overflow (allowedRoles : List Role) (user : CurrentUser) :
    requireRoles allowedRoles user ≠ .error .overflowError := by
  unfold requireRoles
  split <;> simp

@[simp] theorem checkParams_ne_overflow (errors : List ParamError) :
    checkParams errors ≠ .error .overflowError := by
  unfold checkParams
  split <;> simp

@[simp] theorem validateRange_ne_overflow (startTime endTime : Option DateTime) :
    validateRange startTime endTime ≠ .error .overflowError := by
  unfold validateRange
  split
  · split <;> simp
  · simp

/-- Parameters are in order when no check of them has an error to report. -/
theorem checkParams_ok_iff {errors : List ParamError} : checkParams errors = .ok () ↔ errors = [] := by
  unfold checkParams
  split
  · rename_i hnone
    exact iff_of_true rfl hnone
  · rename_i hsome
    exact iff_of_false (by rintro ⟨⟩) hsome

/-- The parameters of a range are reached when the others are in order. -/
theorem range_overflow_iff {α : Type} {errors : List ParamError} {startTime endTime : Option QueryTime}
    {f : Option DateTime → Option DateTime → Except HttpError α}
    (hf : ∀ startTime endTime, f startTime endTime ≠ .error .overflowError) :
    (do
      checkParams errors
      let startTime ← requireUtc startTime "from"
      let endTime ← requireUtc endTime "to"
      validateRange startTime endTime
      f startTime endTime) = .error .overflowError ↔
      errors = [] ∧ RangeRaises startTime endTime := by
  have hend : ∀ startTime : Option DateTime, (do
      let endTime ← requireUtc endTime "to"
      validateRange startTime endTime
      f startTime endTime) = .error .overflowError ↔ OutOfRange endTime := by
    intro startTime
    simp [bind_eq_error_iff, requireUtc_overflow_iff, hf]
  rw [bind_eq_error_iff, or_iff_right (checkParams_ne_overflow errors)]
  constructor
  · rintro ⟨⟨⟩, hparams, hrange⟩
    refine ⟨checkParams_ok_iff.mp hparams, ?_⟩
    rcases bind_eq_error_iff.mp hrange with hstart | ⟨utc, hstart, hrest⟩
    · exact Or.inl ((requireUtc_overflow_iff _ _).mp hstart)
    · exact Or.inr ⟨((exists_requireUtc_ok_iff _ _).mp ⟨utc, hstart⟩).1, (hend utc).mp hrest⟩
  · rintro ⟨hparams, hrange⟩
    refine ⟨(), checkParams_ok_iff.mpr hparams, bind_eq_error_iff.mpr ?_⟩
    by_cases hout : OutOfRange startTime
    · exact Or.inl ((requireUtc_overflow_iff _ _).mpr hout)
    · obtain ⟨haware, hlater⟩ := hrange.resolve_left hout
      obtain ⟨utc, hstart⟩ := (exists_requireUtc_ok_iff startTime "from").mpr ⟨haware, hout⟩
      exact Or.inr ⟨utc, hstart, (hend utc).mpr hlater⟩

/-! ## Routes that raise -/

/-- Nothing else is wrong with the parameters of the page. -/
def ListQuery.PageInOrder (query : ListQuery) : Prop :=
  1 ≤ query.limit ∧ query.limit ≤ MAX_LIMIT ∧ 0 ≤ query.offset

/-- The `Query` constraints of the page, as they are declared for `limit` and `offset`. -/
theorem listParams_eq_nil_iff (query : ListQuery) :
    intParam "limit" 1 (some MAX_LIMIT) query.limit ++ intParam "offset" 0 none query.offset = [] ↔
      query.PageInOrder := by
  unfold ListQuery.PageInOrder intParam
  rw [List.append_eq_nil_iff]
  dsimp only
  split <;> split <;> simp <;> omega

/-- The `min_length` of a filter of the report. -/
theorem minLengthParam_eq_nil_iff (loc : String) (value : Option PyStr) :
    minLengthParam loc value = [] ↔ ∀ s ∈ value, s.len ≠ 0 := by
  cases value with
  | none => simp [minLengthParam]
  | some s =>
    simp only [minLengthParam, Option.mem_def, Option.some.injEq, forall_eq']
    split <;> simp <;> omega

theorem readTenant_ne_overflow (user : CurrentUser) :
    Routes.readTenant user ≠ .error .overflowError := by
  unfold Routes.readTenant
  split
  · split <;> simp
  · simp

/-- A page raises over its range, and over nothing else. -/
theorem listAuditEvents_overflow_iff (db : Database) (query : ListQuery) {user : CurrentUser}
    (hrole : user.role ∈ [Role.reader, .auditor, .admin]) :
    Routes.listAuditEvents db user query = .error .overflowError ↔
      query.PageInOrder ∧ RangeRaises query.startTime query.endTime := by
  unfold Routes.listAuditEvents Routes.listArguments
  rw [map_eq_error_iff, ok_bind (requireRoles_of_mem hrole), ← listParams_eq_nil_iff]
  apply range_overflow_iff
  intro startTime endTime
  rw [Ne, bind_eq_error_iff, or_iff_right (readTenant_ne_overflow user)]
  rintro ⟨tenantId, -, ⟨⟩⟩

/-- A report raises over its range, and over nothing else. -/
theorem getAccountAccessReport_overflow_iff (db : Database) (query : ComplianceQuery)
    {user : CurrentUser} (hrole : user.role ∈ [Role.auditor, .admin]) :
    Routes.getAccountAccessReport db user (.ok ()) query = .error .overflowError ↔
      ((∀ s ∈ query.actorId, s.len ≠ 0) ∧ ∀ s ∈ query.resourceId, s.len ≠ 0) ∧
        RangeRaises query.startTime query.endTime := by
  unfold Routes.getAccountAccessReport
  rw [ok_bind (requireRoles_of_mem hrole), ok_bind rfl, ← minLengthParam_eq_nil_iff "actorId",
    ← minLengthParam_eq_nil_iff "resourceId", ← List.append_eq_nil_iff]
  apply range_overflow_iff
  rintro startTime endTime ⟨⟩

/-- An export has no range to raise over. -/
theorem exportAuditEvents_ne_overflow {db : Database} {actorId resourceId : Option PyStr}
    {now : DateTime} :
    Routes.exportAuditEvents sha256 db actorId resourceId now ≠ .error .overflowError := by
  unfold Routes.exportAuditEvents
  rw [Ne, bind_eq_error_iff, or_iff_right (checkParams_ne_overflow _)]
  rintro ⟨-, -, h⟩
  split at h <;> cases h

/-- A valid body is refused or handed to the service. -/
theorem createAuditEvent_ne_overflow {user : CurrentUser} {eventIn : AuditEventCreate settings}
    {idempotencyKey : Option PyStr} :
    Routes.createAuditEvent user eventIn idempotencyKey ≠ .error .overflowError := by
  unfold Routes.createAuditEvent
  rw [Ne, bind_eq_error_iff, or_iff_right (requireRoles_ne_overflow _ _)]
  rintro ⟨user', -, h⟩
  obtain ⟨-, -, h⟩ := (bind_eq_error_iff.mp h).resolve_left (checkParams_ne_overflow _)
  split at h <;> cases h

/-! ## Steps that raise -/

/-- The step ends in an internal error. -/
def Next.Fails (next : Next) : Prop := next = .raised ∨ next = .respond .internalError

@[simp] theorem Next.fails_raised : Next.raised.Fails := Or.inl rfl

@[simp] theorem Next.not_fails_goOn (phase : Phase) : ¬(Next.goOn phase).Fails := by
  rintro (h | h) <;> cases h

@[simp] theorem Next.fails_respond_iff (response : Response) :
    (Next.respond response).Fails ↔ response = .internalError := by
  simp [Next.Fails]

/-- Of what a route raises, only the overflow is no `HTTPException`. -/
@[simp] theorem Next.fails_ofError_iff (err : HttpError) :
    (Next.ofError err).Fails ↔ err = .overflowError := by
  unfold Next.ofError
  split
  · rename_i hoverflow
    exact iff_of_true fails_raised hoverflow
  · rename_i hrefused
    exact iff_of_false (by simp) hrefused

/-- The routes catch what the services declare. -/
@[simp] theorem Next.fails_ofServiceError_iff (err : ServiceError) :
    (Next.ofServiceError err).Fails ↔ ¬err.Declared := by
  cases err <;> simp [Next.ofServiceError, ServiceError.Declared]

/-- A step can be taken, and ends in an internal error. -/
def Fails (handled? : Option (Handled settings τ)) : Prop :=
  ∃ handled, handled? = some handled ∧ handled.next.Fails

@[simp] theorem fails_some_iff (handled : Handled settings τ) :
    Fails (some handled) ↔ handled.next.Fails := by
  simp [Fails]

@[simp] theorem not_fails_none : ¬Fails (none : Option (Handled settings τ)) := by
  simp [Fails]

/-- A request that has a session goes on. -/
@[simp] theorem not_fails_map_goOn {api? : Option (ApiState settings)} {shared : Shared settings τ}
    {phase : Phase} : ¬Fails (api?.map fun api =>
      ({ shared := { shared with api }, next := .goOn phase } : Handled settings τ)) := by
  rintro ⟨handled, h, hfails⟩
  obtain ⟨api, -, rfl⟩ := Option.map_eq_some_iff.mp h
  exact Next.not_fails_goOn phase hfails

section Steps

variable (shared : Shared settings τ) (request : HttpRequest) (tick : Tick τ)

/-- `authenticate_user` raises exactly where the hash that is tried cannot be verified. -/
theorem authenticateUser_eq_none_iff {auth : AuthSettings} {username password : PyStr} :
    authenticateUser hasher auth username password = none ↔
      hasher.verify (attemptedHash hasher auth username) password = .verificationError := by
  unfold authenticateUser attemptedHash
  cases userNamed auth username with
  | none =>
    simp only [Option.map_eq_none_iff, Option.elim_none, verifyPassword]
    split <;> simp_all
  | some user =>
    simp only [Option.map_eq_none_iff, Option.elim_some, verifyPassword]
    split <;> simp_all

/-- A login raises on a hash that cannot be verified, or for an expiry past the last year. -/
theorem login_fails_iff {username password : PyStr} :
    (login jwt hasher shared tick username password).next.Fails ↔
      hasher.verify (attemptedHash hasher shared.config.auth username) password =
          .verificationError ∨
        (∃ user, authenticateUser hasher shared.config.auth username password = some (some user)) ∧
          tick.now.addMinutes shared.config.auth.accessTokenExpireMinutes = none := by
  rw [← authenticateUser_eq_none_iff]
  unfold login createAccessToken accessClaims
  rcases authenticateUser hasher shared.config.auth username password with _ | _ | user
  · simp
  · simp
  · cases hexp : tick.now.addMinutes shared.config.auth.accessTokenExpireMinutes <;> simp

/-- A token that does not hold is a 401, a role that is not allowed a 403: neither is internal. -/
theorem authorize_not_fails : ¬Fails (authorize jwt shared request tick) := by
  unfold authorize
  split
  · rename_i err hrefused
    obtain ⟨detail, rfl⟩ := authenticate_error hrefused
    simp
  · rename_i identity _
    cases identity.user? with
    | none => exact not_fails_none
    | some user =>
      rw [Option.map_some, fails_some_iff]
      split
      · rename_i err hrefused
        rw [Next.fails_ofError_iff]
        rintro rfl
        exact requireRoles_ne_overflow _ _ hrefused
      · exact Next.not_fails_goOn _

/-- A verification raises where a companion's target cannot be the key of a dict. -/
theorem verifyChain_error_iff (db : Database) : (∃ err, verifyChain sha256 db = .error err) ↔
    ∃ e ∈ db.auditEvents, UnhashableCompanion e.eventType e.payload ∧
      contentHash sha256 e = e.eventHash := by
  have hraises : (∃ err, verifyChain sha256 db = .error err) ↔ ¬Answerable sha256 db := by
    constructor
    · rintro ⟨err, herr⟩ hanswers
      obtain ⟨result, hresult⟩ := (verifyChain_answers_iff db).mpr hanswers
      rw [hresult] at herr
      cases herr
    · exact verifyChain_error_of_not_answerable
  rw [hraises]
  unfold Answerable
  push Not
  exact exists_congr fun e => and_congr_right fun _ => not_hashableTarget_iff

/-- A sweep raises before it has touched a row. -/
theorem applyRetention_eq_none_iff (db : Database) (now archiveNow : DateTime) :
    (applyRetention db retentionWindowDays now archiveNow).1 = none ↔
      now.subDays retentionWindowDays = none := by
  unfold applyRetention
  split
  · rename_i hcutoff
    exact iff_of_true rfl hcutoff
  · rename_i hcutoff
    rw [hcutoff]
    exact iff_of_false (by rintro ⟨⟩) (by rintro ⟨⟩)

variable (settings sha256 retentionWindowDays) in
/-- Why the body of a route raises, before it has a session or without one. -/
def RouteRaises (db : Database) (tick : Tick τ) : Endpoint → Prop
  -- A payload that no limit refuses in time nests deeper than the stack allows.
  | .createAuditEvent body _ => PayloadRaises tick.stack settings body.payload
  | .listAuditEvents query => query.PageInOrder ∧ RangeRaises query.startTime query.endTime
  | .getAccountAccessReport query =>
    ((∀ s ∈ query.actorId, s.len ≠ 0) ∧ ∀ s ∈ query.resourceId, s.len ≠ 0) ∧
      RangeRaises query.startTime query.endTime
  -- A companion that vouches for itself has a target that is no dict key.
  | .verifyAuditChain => ∃ e ∈ db.auditEvents, UnhashableCompanion e.eventType e.payload ∧
      contentHash sha256 e = e.eventHash
  -- The cutoff is in no year that a datetime has.
  | .applyRetention => tick.now.subDays retentionWindowDays = none
  | .login .. | .exportAuditEvents .. | .redactAuditEvent .. => False

/-- **A route raises for its own reasons only**, one per endpoint. -/
theorem route_fails_iff {user : CurrentUser} (hrole : user.role ∈ request.endpoint.requiredRoles) :
    Fails (route sha256 retentionWindowDays shared request tick user) ↔
      RouteRaises settings sha256 retentionWindowDays shared.api.world.db tick request.endpoint := by
  unfold route
  generalize request.endpoint = endpoint at hrole
  cases endpoint with
  | login username password => exact iff_of_false not_fails_none id
  | createAuditEvent body idempotencyKey =>
    dsimp only [RouteRaises]
    rw [← enforcePayloadLimits_eq_none_iff]
    have hraises : AuditEventCreate.validate tick.stack settings body.eventType body.actorId
        body.resourceType body.resourceId body.payload = none ↔
          enforcePayloadLimits tick.stack settings body.payload = none :=
      AuditEventCreate.validate_eq_none_iff
    rw [← hraises]
    split
    -- The walkers have run out of frames, the schema refuses the body, or it is valid.
    · rename_i hnone
      exact iff_of_true (by simp) hnone
    · rename_i herrors
      exact iff_of_false (by simp) (by simp [herrors])
    · rename_i hbody
      refine iff_of_false ?_ (by simp [hbody])
      split
      · rename_i hrefused
        rw [fails_some_iff, Next.fails_ofError_iff]
        rintro rfl
        exact createAuditEvent_ne_overflow hrefused
      · exact not_fails_map_goOn
  | redactAuditEvent eventId body => exact iff_of_false not_fails_map_goOn id
  | applyRetention =>
    dsimp only [RouteRaises]
    rw [← applyRetention_eq_none_iff shared.api.world.db tick.now tick.archiveNow]
    cases (applyRetention shared.api.world.db retentionWindowDays tick.now tick.archiveNow).1 with
    | none => simp
    | some result => exact iff_of_false not_fails_map_goOn (by rintro ⟨⟩)
  | listAuditEvents query =>
    dsimp only [RouteRaises]
    rw [← listAuditEvents_overflow_iff shared.api.world.db query hrole]
    cases Routes.listAuditEvents shared.api.world.db user query <;> simp
  | verifyAuditChain =>
    dsimp only [RouteRaises]
    rw [← verifyChain_error_iff shared.api.world.db]
    cases verifyChain sha256 shared.api.world.db <;> simp
  | exportAuditEvents actorId resourceId =>
    refine iff_of_false ?_ id
    dsimp only
    split
    · rename_i hrefused
      rw [fails_some_iff, Next.fails_ofError_iff]
      rintro rfl
      exact exportAuditEvents_ne_overflow hrefused
    · simp
  | getAccountAccessReport query =>
    dsimp only [RouteRaises]
    rw [← getAccountAccessReport_overflow_iff shared.api.world.db query hrole]
    cases Routes.getAccountAccessReport shared.api.world.db user (.ok ()) query <;> simp

end Steps

/-! ## Sessions that raise -/

section Sessions

variable (sha256) in
/-- Why the session raises what no route catches. -/
inductive SessionRaises (w : World settings) (lost : List (Nat × DbCall)) (session : Nat) : Prop where
  | disconnected {call : Call settings} {statement : DbCall} (hcall : w.calls[session]? = some call)
      (herr : call.error? = some (.database (.driver statement)))
      (hlost : (session, statement) ∈ lost)
  | rejected {req : RedactRequest} {errors : List FieldError}
      (hcall : w.calls[session]? = some (.redact req (.ended (.error (.validation errors)))))
      (hrejected : Rejected sha256 w req errors)
  | collision {call : Call settings} (hcall : w.calls[session]? = some call)
      (herr : call.error? = some (.database (.integrity "audit_events_event_hash_key")))
      (hcollides : AppendCollides sha256 w call)

/-- Every create carries the name of its caller. -/
def KeysNamed (w : World settings) : Prop :=
  ∀ req, Sum.inl req ∈ w.calls.map Call.request → req.requestedBy ≠ none

/-- The routes create events for the user whom they have let pass. -/
theorem keysNamed_of_reaches {s : ApiState settings}
    (h : Machine.Reaches (apiStep sha256 retentionWindowDays) (fun _ _ => True) .init s) :
    KeysNamed s.world := by
  intro req hreq
  obtain ⟨user, hadmitted⟩ := HashChain.exists_of_forall₂_right (admitted_of_reaches h).flip hreq
  have hnamed : Admitted (.inl req) user := hadmitted.2
  rw [hnamed.2.1]
  exact Option.some_ne_none _

variable {shared : Shared settings τ} {tick : Tick τ} {user : CurrentUser} {session : Nat}
  {lost : List (Nat × DbCall)}

/-- Each of the three has left the session with an error that no route catches. -/
theorem SessionRaises.exists_error {w : World settings} (h : SessionRaises sha256 w lost session) :
    ∃ call err, w.calls[session]? = some call ∧ call.error? = some err ∧ ¬err.Declared := by
  cases h with
  | disconnected hcall herr hlost => exact ⟨_, _, hcall, herr, id⟩
  | rejected hcall hrejected => exact ⟨_, _, hcall, rfl, id⟩
  | collision hcall herr hcollides => exact ⟨_, _, hcall, herr, id⟩

/-- Such an error is one of the three: no other constraint fires and no row is missing. -/
theorem sessionRaises_of_error {w : World settings} (hexplained : ErrorsExplained sha256 w lost)
    (hnamed : KeysNamed w) {call : Call settings} {err : ServiceError}
    (hcall : w.calls[session]? = some call) (herr : call.error? = some err) (hnot : ¬err.Declared) :
    SessionRaises sha256 w lost session := by
  cases hexplained session call err hcall herr with
  | declared hdeclared => exact absurd hdeclared hnot
  | disconnected hlost => exact .disconnected hcall herr hlost
  | @rejected req phase errors hrejected =>
    cases phase with
    | ended outcome =>
      rcases outcome with err' | result
      · cases herr
        exact .rejected hcall hrejected
      · cases herr
    | _ => cases herr
  | @nameless req phase hkey huser =>
    -- The routes pass the caller on.
    have hrequest : Sum.inl req ∈ w.calls.map Call.request :=
      List.mem_map.mpr ⟨_, List.mem_of_getElem? hcall, rfl⟩
    exact absurd huser (hnamed req hrequest)
  | collision hcollides => exact .collision hcall herr hcollides

/-- Where a redaction has written, its response can be built. -/
theorem redactionResponse_not_fails {w : World settings} {eventId : Int} (hmarked : Marked w eventId)
    (result : RedactionResult) : ¬(redactionResponse w.db eventId result).Fails := by
  obtain ⟨row, hrow, hid, hfields, hat⟩ := hmarked
  obtain ⟨redactedFields, hfields⟩ := Option.ne_none_iff_exists'.mp hfields
  obtain ⟨redactedAt, hat⟩ := Option.ne_none_iff_exists'.mp hat
  have hfound : Repo.getEvent w.db eventId = some row :=
    (Repo.getEvent_eq_some_iff _ _ _).mpr ⟨hrow, hid⟩
  unfold redactionResponse
  simp [hfound, hfields, hat]

/-- A session that has raised is answered with its error. -/
theorem resume_of_error {call : Call settings} {err : ServiceError}
    (hcall : shared.api.world.calls[session]? = some call) (herr : call.error? = some err) :
    resume sha256 retentionWindowDays shared tick user session =
      some { shared, next := .ofServiceError err } := by
  unfold resume
  rw [hcall]
  rcases call with ⟨req, phase⟩ | ⟨req, phase⟩ <;> cases phase with
  | ended outcome =>
    rcases outcome with err' | result
    · cases herr
      rfl
    · cases herr
  | _ => cases herr

/-- A request that waits for its session fails as the session has failed. -/
theorem resume_fails_iff (hexplained : ErrorsExplained sha256 shared.api.world lost)
    (hnamed : KeysNamed shared.api.world) (hmarked : RedactionsMarked shared.api.world) :
    Fails (resume sha256 retentionWindowDays shared tick user session) ↔
      SessionRaises sha256 shared.api.world lost session := by
  constructor
  · intro h
    unfold resume at h
    split at h
    · simp at h
    · rename_i hcall
      rw [fails_some_iff, Next.fails_ofServiceError_iff] at h
      exact sessionRaises_of_error hexplained hnamed hcall rfl h
    · -- The record is read again after the companion's commit.
      rename_i hcall
      rw [fails_some_iff] at h
      exact absurd h (redactionResponse_not_fails (hmarked _ _ _ hcall trivial) _)
    · rename_i hcall
      rw [fails_some_iff, Next.fails_ofServiceError_iff] at h
      exact sessionRaises_of_error hexplained hnamed hcall rfl h
    · exact absurd h not_fails_map_goOn
  · intro h
    obtain ⟨call, err, hcall, herr, hnot⟩ := h.exists_error
    rw [resume_of_error hcall herr, fails_some_iff, Next.fails_ofServiceError_iff]
    exact hnot

end Sessions

/-! ## Requests that raise -/

section Requests

variable (sha256 retentionWindowDays hasher) in
/-- Why the next step of the request raises. -/
def Raises (shared : Shared settings τ) (lost : List (Nat × DbCall)) (call : ServerCall τ)
    (tick : Tick τ) : Prop :=
  match call.phase, call.request.endpoint with
  -- The stored hash cannot be verified, or the token would expire past the last year.
  | .verifying, .login username password =>
    hasher.verify (attemptedHash hasher shared.config.auth username) password =
        .verificationError ∨
      (∃ user, authenticateUser hasher shared.config.auth username password = some (some user)) ∧
        tick.now.addMinutes shared.config.auth.accessTokenExpireMinutes = none
  | .allowed _, endpoint => RouteRaises settings sha256 retentionWindowDays shared.api.world.db tick endpoint
  | .serving _ session, _ => SessionRaises sha256 shared.api.world lost session
  | _, _ => False

/-- The answer is an internal error exactly if the step fails. -/
theorem response?_after_iff {call : ServerCall τ} {tick : Tick τ} {handled : Handled settings τ}
    (hgo : ∀ response, handled.next ≠ .goOn (.answered response)) :
    (call.after tick handled).phase.response? = some .internalError ↔ handled.next.Fails := by
  unfold ServerCall.after Next.Fails
  cases hnext : handled.next with
  | goOn phase =>
    cases phase with
    | answered response => exact absurd hnext (hgo response)
    | _ => exact iff_of_false (by rintro ⟨⟩) (by simp)
  | respond response => simp [Phase.response?, ServerCall.leave]
  | raised => simp [Phase.response?, ServerCall.leave]

variable [AddCommGroup τ] [LinearOrder τ] {shared : Shared settings τ} {call : ServerCall τ}
  {tick : Tick τ} {lost : List (Nat × DbCall)}

/-- **A step of a request fails for one of the reasons of its phase.** -/
theorem handle_fails_iff (hregular : call.Regular)
    (hexplained : ErrorsExplained sha256 shared.api.world lost)
    (hnamed : KeysNamed shared.api.world) (hmarked : RedactionsMarked shared.api.world) :
    Fails (handle sha256 retentionWindowDays jwt hasher shared call.request tick call.phase) ↔
      Raises sha256 retentionWindowDays hasher shared lost call tick := by
  unfold ServerCall.Regular at hregular
  unfold handle Raises
  cases hphase : call.phase with
  -- Neither the limiter of the login nor the check of the token can fail.
  | arrived =>
    refine iff_of_false ?_ id
    dsimp only
    split
    · rename_i hendpoint
      rw [fails_some_iff]
      rcases enforceLogin_cases shared call.request tick with ⟨-, h⟩ | ⟨-, h⟩ <;> rw [h] <;>
        simp [tooManyRequests]
    · exact authorize_not_fails shared call.request tick
  | verifying =>
    cases call.request.endpoint with
    | login username password =>
      dsimp only
      rw [fails_some_iff, login_fails_iff]
    | _ => exact iff_of_false not_fails_none id
  | authorized user =>
    refine iff_of_false ?_ id
    rw [fails_some_iff]
    rcases enforceSensitive_cases shared call.request tick user with
      ⟨-, h⟩ | ⟨-, -, h⟩ | ⟨-, -, h⟩ <;> rw [h] <;> simp [tooManyRequests]
  | allowed user =>
    -- The role has been checked, so the parameters are reached.
    rw [hphase] at hregular
    exact route_fails_iff shared call.request tick hregular.2.1
  | serving user session => exact resume_fails_iff hexplained hnamed hmarked
  -- The sweep is committed: what is left is its log line and its answer.
  | applied user result => exact iff_of_false (by simp [finishRetention]) id
  | answered response => exact iff_of_false not_fails_none id

end Requests

/-! ## The internal errors of a history -/

section Run

/-- The sessions that the action takes the connection from. -/
def ServerAction.lost : ServerAction τ → List (Nat × DbCall)
  | .disconnect session statement => [(session, statement)]
  | _ => []

variable [AddCommGroup τ] [LinearOrder τ] {s s' : Server settings τ} {action : ServerAction τ}
  {lost : List (Nat × DbCall)}

variable (sha256 retentionWindowDays hasher) in
/-- The action makes a request fail, where the connections in `lost` have been lost. -/
def ServerAction.Fails (s : Server settings τ) (lost : List (Nat × DbCall)) : ServerAction τ → Prop
  | .advance i tick => ∃ call, s.calls[i]? = some call ∧
      Raises sha256 retentionWindowDays hasher s.shared lost call tick
  -- The driver raises in a statement of the route.
  | .fail i _ => ∃ call, s.calls[i]? = some call ∧
      (handleFailure s.shared call.request call.phase).isSome
  | .boot _ | .receive _ _ | .disconnect _ _ => False

/-- A request that takes a step is answered with an internal error where the step fails. -/
theorem mem_answersGiven_iff (i : Nat) (tick : Tick τ)
    {f : ServerCall τ → Option (Handled settings τ)} (hi : action.call? s = some i)
    (hstep : serverStep sha256 retentionWindowDays jwt hasher action s =
      s.calls[i]?.bind fun call => (f call).map (s.conclude i call tick))
    (hgo : ∀ call handled, f call = some handled → ∀ response,
      handled.next ≠ .goOn (.answered response)) :
    .internalError ∈ answersGiven sha256 retentionWindowDays jwt hasher s action ↔
      ∃ call, s.calls[i]? = some call ∧ Fails (f call) := by
  unfold answersGiven
  rw [hstep, hi]
  cases hcall : s.calls[i]? with
  | none => simp
  | some call =>
    cases hhandled : f call with
    | none => simp [hhandled]
    | some handled =>
      have hafter : (s.conclude i call tick handled).calls[i]? = some (call.after tick handled) :=
        (getElem?_set_some hcall).mpr (Or.inl ⟨rfl, rfl⟩)
      simp only [Option.bind_some, hhandled, Option.map_some, hafter, Option.mem_toList,
        Option.some.injEq, exists_eq_left', fails_some_iff]
      exact response?_after_iff (hgo call handled hhandled)

/-- What a step fails for is what the action is explained by. -/
theorem ServerAction.fails_iff (hregular : ∀ call ∈ s.calls, call.Regular)
    (hexplained : ErrorsExplained sha256 s.shared.api.world lost)
    (hnamed : KeysNamed s.shared.api.world) (hmarked : RedactionsMarked s.shared.api.world) :
    .internalError ∈ answersGiven sha256 retentionWindowDays jwt hasher s action ↔
      action.Fails sha256 retentionWindowDays hasher s lost := by
  have hnobody : action.call? s = none →
      .internalError ∉ answersGiven sha256 retentionWindowDays jwt hasher s action := by
    intro hi h
    unfold answersGiven at h
    cases hstep : serverStep sha256 retentionWindowDays jwt hasher action s <;> simp [hstep, hi] at h
  cases action with
  | boot config => exact iff_of_false (hnobody rfl) id
  | receive request uuid =>
    refine iff_of_false ?_ id
    unfold answersGiven serverStep ServerAction.call?
    simp only [Option.bind_some, List.getElem?_concat_length]
    unfold enter
    dsimp only
    split <;> simp [Phase.response?, ServerCall.leave]
  | advance i tick =>
    rw [mem_answersGiven_iff i tick rfl rfl fun call handled h => (moves_of_handle h).not_answered]
    refine exists_congr fun call => and_congr_right fun hcall => ?_
    exact handle_fails_iff (hregular call (List.mem_of_getElem? hcall)) hexplained hnamed hmarked
  | fail i tick =>
    have hgo : ∀ (call : ServerCall τ) (handled : Handled settings τ),
        handleFailure s.shared call.request call.phase = some handled →
        ∀ response, handled.next ≠ .goOn (.answered response) := by
      intro call handled h response
      rw [raised_of_handleFailure h]
      rintro ⟨⟩
    rw [mem_answersGiven_iff i tick rfl rfl hgo]
    refine exists_congr fun call => and_congr_right fun _ => ?_
    cases hhandled : handleFailure s.shared call.request call.phase with
    | none => simp
    | some handled => simp [raised_of_handleFailure hhandled]
  | disconnect session statement => exact iff_of_false (hnobody rfl) id

/-- No request takes a session's connection. -/
theorem ApiAction.lost_accepted {action : ApiAction settings} {started : Action settings}
    {callers : List CurrentUser} (h : action.accepted retentionWindowDays = .ok (started, callers))
    (hkept : ∀ session statement, action ≠ .rollback session statement) : started.lost = [] := by
  cases action with
  | createAuditEvent user eventIn idempotencyKey =>
    obtain ⟨req, -, heq⟩ := map_eq_ok_iff.mp h
    cases heq
    rfl
  | redactAuditEvent user eventId request now =>
    obtain ⟨req, -, heq⟩ := map_eq_ok_iff.mp h
    cases heq
    rfl
  | applyRetention user now archiveNow =>
    obtain ⟨_, -, heq⟩ := map_eq_ok_iff.mp h
    cases heq
    rfl
  | advance c now =>
    cases h
    rfl
  | rollback c call => exact absurd rfl (hkept c call)

/-- A step does nothing to the sessions, or one step of theirs, which loses the connections that it
loses. -/
theorem ServerTransition.sessions
    (h : ServerTransition sha256 retentionWindowDays jwt hasher s action s') :
    s'.shared.api.world = s.shared.api.world ∨ ∃ started, started.lost = action.lost ∧
      Transition sha256 s.shared.api.world started s'.shared.api.world := by
  cases h with
  | boot config => exact Or.inl rfl
  | receive request uuid => exact Or.inl rfl
  | move haction hcall hmove =>
    have hquiet : action.lost = [] := by rcases haction with rfl | rfl <;> rfl
    rcases hmove.api with hsame | ⟨taken, hstep, -, hkept⟩
    · exact Or.inl (congrArg ApiState.world hsame)
    · rcases apiStep_cases hstep with hsame | ⟨started, callers, haccepted, hstep, -⟩
      · exact Or.inl (congrArg ApiState.world hsame)
      · refine Or.inr ⟨started, ?_, step_cases hstep⟩
        rw [hquiet, ApiAction.lost_accepted haccepted hkept]
  | disconnect hrollback =>
    rcases apiStep_cases hrollback with rfl | ⟨started, callers, haccepted, hstep, -⟩
    · exact Or.inl rfl
    · cases haccepted
      exact Or.inr ⟨_, rfl, step_cases hstep⟩

end Run

/-! ## Three internal errors -/

/-- The user posts a companion with a list as its target and asks for a verification; the session of
another event loses its connection; a third event is about to be validated. -/
def listTargetVerified : List (ServerAction Int) :=
  let post : HttpRequest :=
    { endpoint := .createAuditEvent ⟨"A", "b", "c", "d", AuditEventCreate.sample.payload⟩ none
      path := "/audit/events", bearer := some "token" }
  .receive { endpoint := .login "grace" "p", path := "/auth/token" } "u" ::
    List.replicate 2 (.advance 0 sampleTick) ++
  .receive
    { endpoint := .createAuditEvent ⟨REDACTION_EVENT_TYPE, "b", "c", "d", listTargetBody.payload⟩ none
      path := "/audit/events", bearer := some "token" } "v" ::
    List.replicate 11 (.advance 1 sampleTick) ++
  .receive { endpoint := .verifyAuditChain, path := "/audit/verify", bearer := some "token" } "w" ::
    List.replicate 2 (.advance 2 sampleTick) ++
  .receive post "x" :: List.replicate 5 (.advance 3 sampleTick) ++
  .disconnect 1 .insertEvent :: .receive post "y" :: List.replicate 2 (.advance 4 sampleTick)

/-- The verification, the session without a connection, and the validation on a stack that is
nearly used up. -/
def failingSteps : List (ServerAction Int) :=
  [.advance 2 sampleTick, .advance 3 sampleTick,
    .advance 4 { sampleTick with stack := { frames := 2 } }]

end AuditLog
