import AuditLog.Api.Provenance
import AuditLog.Api.ServerSteps
import AuditLog.Concurrency.RetentionRuns

/-!
# Who writes

In a service whose tokens nobody forges, every row, every redacted field and every archival
goes back to a login: a configured user gave the password, was issued a token, and had the
role that the route asks for. The user may have left the configuration since.
-/

namespace AuditLog

variable {τ : Type} {settings : Settings} {sha256 : Bytes → PyStr} {retentionWindowDays : Int}
  {jwt : Jwt} {hasher : PasswordHasher}

/-! ## Logins -/

/-- The user the token stands for. -/
def Login.user (login : Login) : CurrentUser where
  username := login.issued.user.username
  role := login.issued.user.role
  tenantId := login.issued.user.tenantId

/-- The login took place: a configured user gave the password and was issued the token. -/
structure Login.TookPlace (jwt : Jwt) (hasher : PasswordHasher) (login : Login) : Prop where
  configured : login.issued.user ∈ login.issued.settings.authUsers
  verified : hasher.verify login.issued.user.passwordHash login.password = .verified
  issued : createAccessToken jwt login.issued.settings login.issued.user login.issued.issuedAt =
    some login.issued.token

/-- The JWT library signs the token as documented. -/
def Login.Signed (jwt : Jwt) (login : Login) : Prop :=
  ∀ claims, accessClaims login.issued.settings login.issued.user login.issued.issuedAt = some claims →
    jwt.Signs claims login.issued.settings.secretKey

/-- The user is that of a login on record. -/
def LoggedIn (logins : List Login) (user : CurrentUser) : Prop := ∃ login ∈ logins, user = login.user

theorem LoggedIn.mono {logins logins' : List Login} {user : CurrentUser} (h : LoggedIn logins user)
    (hsub : logins ⊆ logins') : LoggedIn logins' user :=
  h.imp fun _ hlogin => ⟨hsub hlogin.1, hlogin.2⟩

/-- No request gets through with a token that the service has not issued. -/
def NoForgery (jwt : Jwt) (s : Server settings τ) : ServerAction τ → Prop
  | .advance i tick | .fail i tick =>
    ∀ call ∈ s.calls[i]?, ∀ token ∈ call.request.bearer, ∀ identity,
      getCurrentUser jwt s.shared.config.auth token tick.now = .ok identity →
        ∃ login ∈ s.shared.logins, login.issued.token = token
  | _ => True

/-- An issued token is refused, or stands for the user it was issued to. -/
theorem getCurrentUser_issued {login : Login} (hplace : login.TookPlace jwt hasher)
    (hsigned : login.Signed jwt) {auth : AuthSettings} {now : DateTime} {identity : Identity}
    (h : getCurrentUser jwt auth login.issued.token now = .ok identity) :
    identity = login.user.identity := by
  by_cases haccepted : login.issued.Accepted auth now
  · have hanswer := getCurrentUser_of_accepted hplace.issued hsigned haccepted
    rw [hanswer] at h
    exact (Except.ok.inj h).symm
  · have hrefused := getCurrentUser_of_not_accepted hplace.issued hsigned haccepted
    rw [hrefused] at h
    cases h

/-! ## Steps -/

/-- Who gets past `require_roles` has sent a token that was accepted, and has the role. -/
theorem authorize_goOn {shared : Shared settings τ} {request : HttpRequest} {tick : Tick τ}
    {handled : Handled settings τ} {phase : Phase}
    (h : authorize jwt shared request tick = some handled) (hnext : handled.next = .goOn phase) :
    ∃ user token identity, phase = .authorized user ∧ request.bearer = some token ∧
      getCurrentUser jwt shared.config.auth token tick.now = .ok identity ∧
      identity.user? = some user ∧ user.role ∈ request.endpoint.requiredRoles := by
  unfold authorize at h
  split at h
  · cases h
    exact absurd hnext (Next.ends_ofError _ _)
  · rename_i identity hauthenticated
    obtain ⟨user, huser, rfl⟩ := Option.map_eq_some_iff.mp h
    split at hnext
    · exact absurd hnext (Next.ends_ofError _ _)
    · rename_i user' hrole
      obtain ⟨rfl, hallowed⟩ := Routes.requireRoles_ok_iff.mp hrole
      cases hnext
      unfold authenticate at hauthenticated
      split at hauthenticated
      · cases hauthenticated
      · rename_i token hbearer
        exact ⟨_, token, identity, rfl, hbearer, hauthenticated, huser, hallowed⟩

/-- A login attempt puts at most one login on record, and that one took place. -/
theorem login_logins (shared : Shared settings τ) (tick : Tick τ) (username password : PyStr) :
    (login jwt hasher shared tick username password).shared.logins = shared.logins ∨
      ∃ l : Login, l.TookPlace jwt hasher ∧
        (login jwt hasher shared tick username password).shared.logins = shared.logins ++ [l] := by
  unfold login
  dsimp only
  split
  · exact Or.inl rfl
  · exact Or.inl rfl
  · rename_i user huser
    split
    · exact Or.inl rfl
    · rename_i token htoken
      obtain ⟨hnamed, hverified⟩ := authenticateUser_eq_some huser
      exact Or.inr ⟨_, ⟨(userNamed_eq_some hnamed).1, hverified, htoken⟩, rfl⟩

/-- A login attempt is over after one step. -/
theorem login_ends (shared : Shared settings τ) (tick : Tick τ) (username password : PyStr) :
    (login jwt hasher shared tick username password).next.Ends := by
  unfold login
  dsimp only
  split
  · simp
  · simp
  · split <;> simp

/-- A call is started for the user of the request. -/
theorem ApiAction.user?_of_accepted {action : ApiAction settings} {started : Action settings}
    {callers : List CurrentUser} (h : action.accepted retentionWindowDays = .ok (started, callers)) :
    ∀ user ∈ callers, action.user? = some user := by
  cases action with
  | createAuditEvent user eventIn idempotencyKey =>
    obtain ⟨req, -, heq⟩ := map_eq_ok_iff.mp h
    cases heq
    simp [ApiAction.user?]
  | redactAuditEvent user eventId request now =>
    obtain ⟨req, -, heq⟩ := map_eq_ok_iff.mp h
    cases heq
    simp [ApiAction.user?]
  | applyRetention user now archiveNow =>
    obtain ⟨_, -, heq⟩ := map_eq_ok_iff.mp h
    cases heq
    simp
  | advance c now =>
    cases h
    simp
  | rollback c call =>
    cases h
    simp

/-- The callers of sessions were callers before, or have just been served. -/
theorem mem_callers_of_apiStep {action : ApiAction settings} {api api' : ApiState settings}
    (h : apiStep sha256 retentionWindowDays action api = some api') {user : CurrentUser}
    (huser : user ∈ api'.callers) : user ∈ api.callers ∨ action.user? = some user := by
  rcases apiStep_cases h with rfl | ⟨started, callers, haccepted, -, hcallers⟩
  · exact Or.inl huser
  · rw [hcallers] at huser
    exact (List.mem_append.mp huser).imp_right (ApiAction.user?_of_accepted haccepted user)

/-- A row that is archived was archived before, or it has been by a retention run of an admin. -/
theorem archived_of_apiStep {action : ApiAction settings} {api api' : ApiState settings}
    (h : apiStep sha256 retentionWindowDays action api = some api')
    (hrun : Machine.Reaches (apiStep sha256 retentionWindowDays) (fun _ _ => True) .init api)
    {e : AuditEvent} (he : e ∈ api'.world.db.auditEvents) (harchived : e.archivedAt ≠ none) :
    (∃ row ∈ api.world.db.auditEvents, row.archivedAt ≠ none) ∨
      ∃ user, action.user? = some user ∧ user.role = .admin := by
  -- A row is archived by a sweep only, and only the retention route starts one.
  rcases apiStep_cases h with rfl | ⟨started, callers, haccepted, hstep, -⟩
  · exact Or.inl ⟨e, he, harchived⟩
  · have hworld := reaches_world hrun
    have htransition := step_cases hstep
    rcases htransition.archival (disciplined_of_reaches hworld) (stored_of_reaches hworld) with
      ⟨-, hsame⟩ | ⟨-, event, hnew, -, hrows⟩ | ⟨cutoff, now, -, hswept⟩
    · obtain ⟨row, hrow, hkept⟩ := HashChain.exists_of_forall₂_right hsame he
      exact Or.inl ⟨row, hrow, by rw [← hkept.2.2]; exact harchived⟩
    · rw [hrows] at he
      rcases List.mem_append.mp he with he | he
      · exact Or.inl ⟨e, he, harchived⟩
      · rw [List.mem_singleton.mp he] at harchived
        exact absurd hnew harchived
    · cases action with
      | applyRetention user now archiveNow =>
        obtain ⟨user', hrole, -⟩ := map_eq_ok_iff.mp haccepted
        obtain ⟨rfl, hadmin⟩ := Routes.requireRoles_ok_iff.mp hrole
        exact Or.inr ⟨_, rfl, List.mem_singleton.mp hadmin⟩
      | createAuditEvent user eventIn idempotencyKey =>
        obtain ⟨req, -, heq⟩ := map_eq_ok_iff.mp haccepted
        cases heq
        cases hswept
      | redactAuditEvent user eventId request now =>
        obtain ⟨req, -, heq⟩ := map_eq_ok_iff.mp haccepted
        cases heq
        cases hswept
      | advance c now =>
        cases haccepted
        cases hswept
      | rollback c call =>
        cases haccepted
        cases hswept

/-! ## The invariant -/

/-- Who is served, who has started a call, and who has archived rows, has logged in. -/
structure Authenticated (jwt : Jwt) (hasher : PasswordHasher) (s : Server settings τ) : Prop where
  logins : ∀ login ∈ s.shared.logins, login.TookPlace jwt hasher
  calls : ∀ call ∈ s.calls, ∀ user, call.phase.user? = some user → LoggedIn s.shared.logins user
  callers : ∀ user ∈ s.shared.api.callers, LoggedIn s.shared.logins user
  archived : ∀ e ∈ s.shared.api.world.db.auditEvents, e.archivedAt ≠ none →
    ∃ login ∈ s.shared.logins, login.user.role = .admin

section Step

variable [AddCommGroup τ] [LinearOrder τ] {s s' : Server settings τ}

/-- Issued tokens stay on record. -/
theorem Moves.logins {shared : Shared settings τ} {call : ServerCall τ} {tick : Tick τ}
    {handled : Handled settings τ}
    (h : Moves sha256 retentionWindowDays jwt hasher shared call tick handled) :
    handled.shared.logins = shared.logins ∨
      ∃ l : Login, l.TookPlace jwt hasher ∧ handled.shared.logins = shared.logins ++ [l] := by
  cases h with
  | checkLogin =>
    rcases enforceLogin_cases shared call.request tick with ⟨-, h⟩ | ⟨-, h⟩ <;>
      exact Or.inl (congrArg (fun handled => handled.shared.logins) h)
  | authorize _ h => exact Or.inl (congrArg Shared.logins (authorize_shared h))
  | login => exact login_logins _ _ _ _
  | @checkSensitive user =>
    rcases enforceSensitive_cases shared call.request tick user with ⟨-, h⟩ | ⟨-, -, h⟩ | ⟨-, -, h⟩ <;>
      exact Or.inl (congrArg (fun handled => handled.shared.logins) h)
  | _ => exact Or.inl rfl

/-- The user of a request after a step was its user before, or has just been authenticated. -/
theorem Moves.user {shared : Shared settings τ} {call : ServerCall τ} {tick : Tick τ}
    {handled : Handled settings τ}
    (h : Moves sha256 retentionWindowDays jwt hasher shared call tick handled) {user : CurrentUser}
    (huser : (call.after tick handled).phase.user? = some user) :
    call.phase.user? = some user ∨
      ∃ token identity, call.request.bearer = some token ∧
        getCurrentUser jwt shared.config.auth token tick.now = .ok identity ∧
        identity.user? = some user := by
  have hends : ¬ handled.next.Ends := by
    intro hends
    obtain ⟨response, hanswered⟩ : ∃ response, (call.after tick handled).phase = .answered response :=
      ServerCall.phase_after_of_ends hends
    rw [hanswered] at huser
    cases huser
  cases h with
  | checkLogin =>
    rcases enforceLogin_cases shared call.request tick with ⟨-, h⟩ | ⟨-, h⟩ <;> rw [h] at huser <;>
      cases huser
  | authorize hphase h =>
    cases hnext : handled.next with
    | goOn phase =>
      obtain ⟨user', token, identity, rfl, hbearer, haccepted, hidentity, -⟩ := authorize_goOn h hnext
      rw [ServerCall.phase_after_of_goOn hnext] at huser
      cases huser
      exact Or.inr ⟨token, identity, hbearer, haccepted, hidentity⟩
    | respond response => exact absurd (by simp [hnext]) hends
    | raised => exact absurd (by simp [hnext]) hends
  | login => exact absurd (login_ends _ _ _ _) hends
  | @checkSensitive user' hphase =>
    left
    rw [hphase]
    rcases enforceSensitive_cases shared call.request tick user' with
      ⟨-, h⟩ | ⟨-, -, h⟩ | ⟨-, -, h⟩ <;> rw [h] at huser
    · exact huser
    · exact huser
    · cases huser
  | start hphase haction hstep =>
    left
    rw [hphase]
    exact huser
  | retain hphase hendpoint hresult hstep =>
    left
    rw [hphase]
    exact huser
  | advance hphase hstep =>
    left
    rw [hphase]
    exact huser
  | answer _ _ _ hnext => exact absurd hnext hends
  | returned _ hnext => exact absurd hnext hends
  | redacted _ _ hnext => exact absurd hnext hends
  | retained => cases huser

/-- What is on record of logins grows. -/
theorem ServerTransition.logins {action : ServerAction τ}
    (h : ServerTransition sha256 retentionWindowDays jwt hasher s action s') :
    s.shared.logins ⊆ s'.shared.logins ∧ ∀ login ∈ s'.shared.logins, login ∈ s.shared.logins ∨
      login.TookPlace jwt hasher := by
  cases h with
  | move haction hcall hmove =>
    rcases hmove.logins with hsame | ⟨l, hplace, hnew⟩
    · unfold Server.conclude
      rw [hsame]
      exact ⟨List.Subset.refl _, fun login hlogin => Or.inl hlogin⟩
    · unfold Server.conclude
      rw [hnew]
      refine ⟨List.subset_append_left _ _, fun login hlogin => ?_⟩
      rcases List.mem_append.mp hlogin with hlogin | hlogin
      · exact Or.inl hlogin
      · rw [List.mem_singleton.mp hlogin]
        exact Or.inr hplace
  | _ => exact ⟨List.Subset.refl _, fun login hlogin => Or.inl hlogin⟩

/-- What a step does to the sessions is done for nobody, or for a user who has logged in. -/
theorem ServerTransition.api {action : ServerAction τ}
    (h : ServerTransition sha256 retentionWindowDays jwt hasher s action s')
    (hs : Authenticated jwt hasher s) : s'.shared.api = s.shared.api ∨
      ∃ action, apiStep sha256 retentionWindowDays action s.shared.api = some s'.shared.api ∧
        ∀ user, action.user? = some user → LoggedIn s.shared.logins user := by
  cases h with
  | boot config => exact Or.inl rfl
  | receive request uuid => exact Or.inl rfl
  | move haction hcall hmove =>
    refine hmove.api.imp_right fun ⟨action, hstep, huser, _⟩ => ⟨action, hstep, fun user hfor => ?_⟩
    exact hs.calls _ (List.mem_of_getElem? hcall) user (huser user hfor)
  | disconnect hstep => exact Or.inr ⟨_, hstep, fun user hfor => by cases hfor⟩

/-- One step of a service whose tokens nobody forges. -/
theorem Authenticated.step {action : ServerAction τ} (hs : Authenticated jwt hasher s)
    (hrun : Machine.Reaches (apiStep sha256 retentionWindowDays) (fun _ _ => True) .init s.shared.api)
    (hforged : NoForgery jwt s action)
    (hstep : ServerTransition sha256 retentionWindowDays jwt hasher s action s')
    (hsigned : ∀ login ∈ s'.shared.logins, login.Signed jwt) : Authenticated jwt hasher s' := by
  obtain ⟨hsub, hnew⟩ := hstep.logins
  constructor
  · intro login hlogin
    exact (hnew login hlogin).elim (hs.logins login) id
  · intro call hcall user huser
    rcases hstep.mem_calls hcall with hcall | ⟨request, uuid, rfl⟩ |
      ⟨i, old, tick, handled, haction, hold, hmove, rfl⟩
    · exact (hs.calls call hcall user huser).mono hsub
    · rw [enter_user?] at huser
      cases huser
    -- Who has just been authenticated has shown a token that was issued at a login.
    · rcases hmove.user huser with hbefore | ⟨token, identity, hbearer, haccepted, hidentity⟩
      · exact (hs.calls old (List.mem_of_getElem? hold) user hbefore).mono hsub
      · have hissued : ∃ login ∈ s.shared.logins, login.issued.token = token := by
          rcases haction with rfl | rfl <;> exact hforged old hold token hbearer identity haccepted
        obtain ⟨login, hlogin, rfl⟩ := hissued
        have hstands := getCurrentUser_issued (hs.logins login hlogin) (hsigned login (hsub hlogin))
          haccepted
        rw [hstands, Identity.user?_identity] at hidentity
        exact ⟨login, hsub hlogin, (Option.some.inj hidentity).symm⟩
  · intro user huser
    rcases hstep.api hs with hsame | ⟨action, happlied, hfor⟩
    · rw [hsame] at huser
      exact (hs.callers user huser).mono hsub
    · rcases mem_callers_of_apiStep happlied huser with hold | hnew
      · exact (hs.callers user hold).mono hsub
      · exact (hfor user hnew).mono hsub
  · intro e he harchived
    have hbefore : (∃ row ∈ s.shared.api.world.db.auditEvents, row.archivedAt ≠ none) ∨
        ∃ user, LoggedIn s.shared.logins user ∧ user.role = .admin := by
      rcases hstep.api hs with hsame | ⟨action, happlied, hfor⟩
      · rw [hsame] at he
        exact Or.inl ⟨e, he, harchived⟩
      · exact (archived_of_apiStep happlied hrun he harchived).imp_right fun ⟨user, huser, hadmin⟩ =>
          ⟨user, hfor user huser, hadmin⟩
    rcases hbefore with ⟨row, hrow, hthere⟩ | ⟨user, ⟨login, hlogin, rfl⟩, hadmin⟩
    · obtain ⟨login, hlogin, hadmin⟩ := hs.archived row hrow hthere
      exact ⟨login, hsub hlogin, hadmin⟩
    · exact ⟨login, hsub hlogin, hadmin⟩

/-- The run lemma, for a library that signs every token on record as documented. -/
theorem authenticated_of_reaches {config : ServerSettings τ}
    (h : Machine.Reaches (serverStep sha256 retentionWindowDays jwt hasher) (NoForgery jwt)
      (.init config) s)
    (hsigned : ∀ login ∈ s.shared.logins, login.Signed jwt) : Authenticated jwt hasher s := by
  refine h.invariant (P := fun s => (∀ login ∈ s.shared.logins, login.Signed jwt) →
    Authenticated jwt hasher s) (fun _ => ⟨?_, ?_, ?_, ?_⟩) ?_ hsigned
  · intro login hlogin
    cases hlogin
  · intro call hcall
    cases hcall
  · intro user huser
    cases huser
  · intro e he
    cases he
  · intro t u action run hforged hstep ht hsigned
    have htransition := serverStep_cases hstep
    have hbefore := ht fun login hlogin => hsigned login (htransition.logins.1 hlogin)
    exact hbefore.step (reaches_api run) hforged htransition hsigned

end Step

/-! ## Who wrote what -/

/-- The payload is the one that was given, but for markers in fields that calls were asked to
redact. -/
def KeptPayload (w : World settings) (e : AuditEvent) (given : Payload) : Prop :=
  ∀ f, e.payload.get? f = given.get? f ∨
    e.payload.get? f = some (.str REDACTED_MARKER) ∧ FieldRequested w e.id f

/-- The user of the login posted the row, with the content and the payload that it has, as
somebody who may write for its tenant; or asked for the redaction that it documents, as an
admin. -/
inductive Wrote (w : World settings) (login : Login) (e : AuditEvent) : Prop where
  | posted (req : CreateRequest settings) (hrequest : .inl req ∈ w.calls.map Call.request)
      (hposted : req.requestedBy = some login.user.username)
      (hrole : login.user.role ∈ [Role.writer, .admin])
      (htenant : login.user.tenantId = some e.tenantId)
      (hcontent : e.toRequestContent = { req.content with payload := e.payload })
      (hpayload : KeptPayload w e req.content.payload)
  | redacted (req : RedactRequest) (hrequest : .inr req ∈ w.calls.map Call.request)
      (hrole : login.user.role = .admin) (htype : e.eventType = REDACTION_EVENT_TYPE)
      (hactor : e.actorId = login.user.username)
      (hresource : e.resourceId = PyStr.ofChars (intText req.eventId))
      (hpayload : ∃ fields hash, (∀ f ∈ fields, f ∈ req.fields) ∧
        KeptPayload w e (companionPayload req fields hash))

/-- The user of the login asked to redact the field of the row. -/
def AskedToRedact (w : World settings) (login : Login) (e : AuditEvent) (f : PyStr) : Prop :=
  login.user.role = .admin ∧
    ∃ req, RedactionRequested w e.id req ∧ req.actorId = login.user.username ∧ f ∈ req.fields

section Runs

variable [AddCommGroup τ] [LinearOrder τ] {s : Server settings τ}

omit [AddCommGroup τ] [LinearOrder τ] in
/-- The caller of a call has logged in, and the route has admitted the request. -/
theorem Authenticated.caller (h : Authenticated jwt hasher s)
    (hrun : Machine.Reaches (apiStep sha256 retentionWindowDays) (fun _ _ => True) .init s.shared.api)
    {c : Nat} {request : CreateRequest settings ⊕ RedactRequest}
    (hcall : (s.shared.api.world.calls.map Call.request)[c]? = some request) :
    ∃ login ∈ s.shared.logins, Admitted request login.user := by
  obtain ⟨user, huser, hadmitted⟩ := exists_of_forall₂_getElem? (admitted_of_reaches hrun) hcall
  obtain ⟨login, hlogin, rfl⟩ := h.callers user (List.mem_of_getElem? huser)
  exact ⟨login, hlogin, hadmitted⟩

/-- A row keeps the payload that its call has committed. -/
theorem TracesTo.keptPayload {w : World settings} {a : Appended} {call : Call settings}
    {e : AuditEvent} (h : TracesTo w a call e) : KeptPayload w e a.event.payload := by
  intro f
  rw [h.payload f]
  split
  · rename_i hredacted
    exact Or.inr ⟨rfl, h.redacted f hredacted⟩
  · exact Or.inl rfl

/-- **Every write goes back to a login.** When nobody forges a token, each row was posted by the
user of a login that took place, who may write for its tenant, with the content and payload
that it has but for redacted fields, or documents a redaction that an admin who logged in
asked for; each redacted field was asked for by an admin who logged in, and
no row is archived unless an admin did. -/
theorem writes_go_back_to_logins {config : ServerSettings τ}
    (h : Machine.Reaches (serverStep sha256 retentionWindowDays jwt hasher) (NoForgery jwt)
      (.init config) s)
    (hsigned : ∀ login ∈ s.shared.logins, login.Signed jwt) :
    (∀ login ∈ s.shared.logins, login.TookPlace jwt hasher) ∧
    ∀ e ∈ s.shared.api.world.db.auditEvents,
      (∃ login ∈ s.shared.logins, Wrote s.shared.api.world login e) ∧
      (∀ f ∈ alreadyRedacted e, ∃ login ∈ s.shared.logins,
        AskedToRedact s.shared.api.world login e f) ∧
      (e.archivedAt ≠ none → ∃ login ∈ s.shared.logins, login.user.role = .admin) := by
  have hauth := authenticated_of_reaches h hsigned
  have hrun := reaches_api h
  refine ⟨hauth.logins, fun e he => ⟨?_, ?_, hauth.archived e he⟩⟩
  · obtain ⟨a, -, call, hcall, htraced⟩ := rows_explained (reaches_world hrun) e he
    have hrequest : (s.shared.api.world.calls.map Call.request)[a.call]? = some call.request := by
      rw [List.getElem?_map, hcall]
      rfl
    have hmem := List.mem_of_getElem? hrequest
    obtain ⟨login, hlogin, hadmitted⟩ := hauth.caller hrun hrequest
    have hcommitted := htraced.committed
    have hcontent := congrArg EventContent.toRequestContent htraced.content
    have hkept := htraced.keptPayload
    refine ⟨login, hlogin, ?_⟩
    -- The call that has committed the row is a create, or the redaction that the row documents.
    generalize call.request = request at hmem hadmitted hcommitted
    cases request with
    | inl req =>
      obtain ⟨htenant, hposted, hrole⟩ := hadmitted
      have hasked : a.event.toRequestContent = req.content := hcommitted
      have hsame : e.toRequestContent = { req.content with payload := e.payload } := by
        rw [hcontent, ← hasked]
      rw [congrArg RequestContent.payload hasked] at hkept
      refine .posted req hmem hposted hrole ?_ hsame hkept
      rw [htenant, congrArg RequestContent.tenantId hsame]
      rfl
    | inr req =>
      obtain ⟨hactor, hrole⟩ := hadmitted
      have hcompanion : IsCompanion req a.event := hcommitted
      obtain ⟨fields, hash, hsub, hpayload⟩ := hcompanion.payload
      rw [hpayload] at hkept
      refine .redacted req hmem hrole ?_ ?_ ?_ ⟨fields, hash, hsub, hkept⟩
      · exact (congrArg RequestContent.eventType hcontent).trans hcompanion.eventType
      · exact ((congrArg RequestContent.actorId hcontent).trans hcompanion.actorId).trans hactor
      · exact (congrArg RequestContent.resourceId hcontent).trans hcompanion.resourceId
  · intro f hf
    obtain ⟨req, hrequested, hfield⟩ := (redactedAsAsked_of_reaches (reaches_world hrun)).rows e he f hf
    obtain ⟨c, hcall⟩ := List.mem_iff_getElem?.mp hrequested.1
    obtain ⟨login, hlogin, hactor, hrole⟩ := hauth.caller hrun hcall
    exact ⟨login, hlogin, hrole, req, hrequested, hactor, hfield⟩

end Runs

/-! ## A login, a post and a redaction -/

section Sample

def sampleTick : Tick Int where
  now := .sample
  archiveNow := .sample
  monotonic := 0
  exc := { typeName := [], message := [], traceback := [] }

/-- An admin of tenant `t`. -/
def grace : UserRecord :=
  { username := "grace", passwordHash := "h", role := .admin, tenantId := some "t" }

def graceAuth : AuthSettings :=
  { secretKey := "0123456789abcdef0123456789abcdef", authUsers := [grace] }

def graceConfig : ServerSettings Int where
  auth := graceAuth
  loginRateLimitWindowSeconds := 60
  sensitiveRateLimitWindowSeconds := 60

def graceClaims : Claims := (accessClaims graceAuth grace .sample).getD []

/-- A library that knows one token. -/
def graceJwt : Jwt where
  encode := fun _ _ => "token"
  decode := fun _ key issuer audience now =>
    if key = graceAuth.secretKey ∧ ValidClaims graceClaims issuer audience now then
      some (graceClaims.map fun claim => (claim.1, claim.2.decoded))
    else none

/-- A library that knows one password. -/
def sampleHasher : PasswordHasher where
  verify := fun hash password => if hash = "h" ∧ password = "p" then .verified else .verifyMismatch
  dummyHash := "d"

def graceLogin : Login where
  password := "p"
  issued := { settings := graceAuth, user := grace, issuedAt := .sample, token := "token" }

theorem graceLogin_signed : graceLogin.Signed graceJwt := by
  intro claims h
  have hclaims : claims = graceClaims := (congrArg (fun c => Option.getD c []) h).symm
  subst hclaims
  constructor
  · intro issuer audience now hvalid
    exact if_pos ⟨rfl, hvalid⟩
  · intro key issuer audience now hrefused
    exact if_neg hrefused

/-- The requests that are served show tokens that are on record. -/
def TokensOnRecord (s : Server {} Int) : ServerAction Int → Prop
  | .advance i _ | .fail i _ =>
    ∀ call ∈ s.calls[i]?, ∀ token ∈ call.request.bearer,
      ∃ login ∈ s.shared.logins, login.issued.token = token
  | _ => True

instance (s : Server {} Int) : ∀ action, Decidable (TokensOnRecord s action)
  | .advance i _ | .fail i _ =>
    inferInstanceAs (Decidable (∀ call ∈ s.calls[i]?, ∀ token ∈ call.request.bearer,
      ∃ login ∈ s.shared.logins, login.issued.token = token))
  | .boot _ | .receive _ _ | .disconnect _ _ => inferInstanceAs (Decidable True)

/-- Tokens on record are not forged. -/
theorem TokensOnRecord.noForgery {s : Server {} Int} {action : ServerAction Int}
    (h : TokensOnRecord s action) : NoForgery graceJwt s action := by
  cases action with
  | advance i tick => exact fun call hcall token htoken _ _ => h call hcall token htoken
  | fail i tick => exact fun call hcall token htoken _ _ => h call hcall token htoken
  | _ => trivial

/-- The user logs in, posts an event and redacts it. -/
def loggedInAndWritten : List (ServerAction Int) :=
  .receive { endpoint := .login "grace" "p", path := "/auth/token" } "u" ::
    List.replicate 2 (.advance 0 sampleTick) ++
  .receive
    { endpoint := .createAuditEvent ⟨"A", "b", "c", "d", AuditEventCreate.sample.payload⟩ none
      path := "/audit/events", bearer := some "token" } "v" ::
    List.replicate 11 (.advance 1 sampleTick) ++
  .receive
    { endpoint := .redactAuditEvent 1 { fields := ["x", "y"], nonempty := by decide }
      path := "/audit/events/1/redact", bearer := some "token" } "w" ::
    List.replicate 14 (.advance 2 sampleTick)

/-- The posted row, which is redacted, and the companion of the redaction. -/
theorem writes_go_back_to_logins_loggedInAndWritten :
    ∃ s ∈ Machine.schedule (serverStep Sha256.hexdigest 30 graceJwt sampleHasher) TokensOnRecord
        loggedInAndWritten (.init graceConfig),
      s.shared.api.world.db.auditEvents.map alreadyRedacted = [[("x" : PyStr)], []] ∧
      (∀ login ∈ s.shared.logins, login.TookPlace graceJwt sampleHasher) ∧
      ∀ e ∈ s.shared.api.world.db.auditEvents,
        (∃ login ∈ s.shared.logins, Wrote s.shared.api.world login e) ∧
        (∀ f ∈ alreadyRedacted e, ∃ login ∈ s.shared.logins,
          AskedToRedact s.shared.api.world login e f) ∧
        (e.archivedAt ≠ none → ∃ login ∈ s.shared.logins, login.user.role = .admin) := by
  have hrun : ∃ s ∈ Machine.schedule (serverStep Sha256.hexdigest 30 graceJwt sampleHasher)
      TokensOnRecord loggedInAndWritten (.init graceConfig), s.shared.logins = [graceLogin] ∧
        s.shared.api.world.db.auditEvents.map alreadyRedacted = [[("x" : PyStr)], []] := by
    decide +kernel
  obtain ⟨s, hs, hlogins, hfields⟩ := hrun
  have hreached := (Machine.reaches_of_schedule hs).mono fun _ _ hok => TokensOnRecord.noForgery hok
  refine ⟨s, hs, hfields, writes_go_back_to_logins hreached ?_⟩
  intro login hlogin
  rw [hlogins] at hlogin
  rw [List.mem_singleton.mp hlogin]
  exact graceLogin_signed

end Sample

end AuditLog
