import AuditLog.Api.Routes
import AuditLog.Library.Machine

/-!
# Access tokens

`create_access_token` signs a user's name, role and tenant; `get_current_user` takes them from
the decoded token. The store of configured users can change between the two. What the JWT
library does is a parameter.
-/

namespace AuditLog

/-- `UserRecord`. -/
structure UserRecord where
  username : PyStr
  passwordHash : PyStr
  role : Role
  tenantId : Option PyStr := none
deriving DecidableEq

/-- The settings that authentication reads. -/
structure AuthSettings where
  secretKey : PyStr
  accessTokenExpireMinutes : Int := 30
  jwtIssuer : PyStr := "audit-log-service"
  jwtAudience : PyStr := "audit-log-service-clients"
  authUsers : List UserRecord
deriving DecidableEq

/-- `Role(value)`; `none` stands for `ValueError`. -/
def Role.ofValue (value : Json) : Option Role :=
  [Role.writer, .reader, .auditor, .admin].find? fun role => value = .str role.value

/-- The value of a role is read back as the role. -/
theorem Role.ofValue_value (role : Role) : Role.ofValue (.str role.value) = some role := by
  cases role <;> decide

/-! ## The JWT library -/

/-- A claim as it is handed to `jwt.encode`. -/
inductive ClaimValue where
  | null
  | str (s : PyStr)
  | time (t : DateTime)
deriving DecidableEq

/-- Microseconds from `0001-01-01` to the epoch. -/
def epochMicros : Int := 62135596800 * 1000000

/-- `timegm(t.utctimetuple())`. -/
def DateTime.timegm (t : DateTime) : Int := (t.instant - epochMicros) / 1000000

/-- The claim in the decoded token. -/
def ClaimValue.decoded : ClaimValue → Json
  | .null => .null
  | .str s => .str s
  | .time t => .int t.timegm

/-- The claims of a token, in the order in which they are built. -/
abbrev Claims := List (PyStr × ClaimValue)

/-- `jwt.encode(payload, key, algorithm)` and `jwt.decode(token, key, algorithms, issuer,
audience)` at a time; `none` stands for `InvalidTokenError`. -/
structure Jwt where
  encode : Claims → PyStr → PyStr
  decode : PyStr → PyStr → PyStr → PyStr → DateTime → Option (List (PyStr × Json))

/-- A registered claim that is a time. -/
def claimTime (claims : Claims) (name : PyStr) : Option DateTime :=
  match Dict.get claims name with
  | some (.time t) => some t
  | _ => none

/-- The registered claims are those of this service, and the token is valid at the time. -/
def ValidClaims (claims : Claims) (issuer audience : PyStr) (now : DateTime) : Prop :=
  Dict.get claims "iss" = some (.str issuer) ∧ Dict.get claims "aud" = some (.str audience) ∧
    (∀ iat ∈ claimTime claims "iat", iat.timegm * 1000000 + epochMicros ≤ now.instant) ∧
    ∀ exp ∈ claimTime claims "exp", now.instant < exp.timegm * 1000000 + epochMicros

instance (claims : Claims) (issuer audience : PyStr) (now : DateTime) :
    Decidable (ValidClaims claims issuer audience now) :=
  inferInstanceAs (Decidable (_ ∧ _ ∧ _ ∧ _))

/-- The documented behaviour of `decode` on a token that `encode` signed: the claims for the
same key while the token is valid, an error otherwise. -/
structure Jwt.Signs (jwt : Jwt) (claims : Claims) (key : PyStr) : Prop where
  accepts : ∀ issuer audience now, ValidClaims claims issuer audience now →
    jwt.decode (jwt.encode claims key) key issuer audience now =
      some (claims.map fun claim => (claim.1, claim.2.decoded))
  rejects : ∀ key' issuer audience now, ¬(key' = key ∧ ValidClaims claims issuer audience now) →
    jwt.decode (jwt.encode claims key) key' issuer audience now = none

/-! ## Tokens -/

/-- `t + timedelta(minutes=minutes)`; `none` stands for `OverflowError`. -/
def DateTime.addMinutes (t : DateTime) (minutes : Int) : Option DateTime :=
  let micros : Int := t.micros + minutes * 60000000
  if h : 0 ≤ micros ∧ micros < maxOrdinal * microsPerDay then
    some ⟨micros.toNat, t.utcoffset, by omega, t.offsetInRange⟩
  else none

/-- The payload that `create_access_token` signs. -/
def accessClaims (settings : AuthSettings) (user : UserRecord) (now : DateTime) : Option Claims :=
  (now.addMinutes settings.accessTokenExpireMinutes).map fun exp =>
    [("sub", .str user.username), ("role", .str user.role.value),
      ("tenantId", user.tenantId.elim .null .str), ("iss", .str settings.jwtIssuer),
      ("aud", .str settings.jwtAudience), ("iat", .time now), ("exp", .time exp)]

/-- `create_access_token`. -/
def createAccessToken (jwt : Jwt) (settings : AuthSettings) (user : UserRecord) (now : DateTime) :
    Option PyStr :=
  (accessClaims settings user now).map fun claims => jwt.encode claims settings.secretKey

/-- The one error for whatever is wrong with a token. -/
def CREDENTIALS_ERROR : HttpError := .httpException 401 [.text "Could not validate credentials"]

/-- The `CurrentUser` that `get_current_user` builds: the types of the claims are not checked. -/
structure Identity where
  username : Json
  role : Role
  tenantId : Json
deriving DecidableEq

/-- A user whose claims have the types that `create_access_token` gives them. -/
def CurrentUser.identity (user : CurrentUser) : Identity where
  username := .str user.username
  role := user.role
  tenantId := user.tenantId.elim .null .str

/-- What `get_current_user` makes of the decoded payload. -/
def identityOf (payload : List (PyStr × Json)) : Except HttpError Identity :=
  let username := (Dict.get payload "sub").getD .null
  let roleValue := (Dict.get payload "role").getD .null
  if username = .null ∨ roleValue = .null then .error CREDENTIALS_ERROR
  else
    match Role.ofValue roleValue with
    | none => .error CREDENTIALS_ERROR
    | some role => .ok { username, role, tenantId := (Dict.get payload "tenantId").getD .null }

/-- `get_current_user`; the configured users are not looked at. -/
def getCurrentUser (jwt : Jwt) (settings : AuthSettings) (token : PyStr) (now : DateTime) :
    Except HttpError Identity :=
  match jwt.decode token settings.secretKey settings.jwtIssuer settings.jwtAudience now with
  | none => .error CREDENTIALS_ERROR
  | some payload => identityOf payload

/-- A payload with the three claims that `get_current_user` reads. -/
theorem identityOf_ok {payload : List (PyStr × Json)} {username : PyStr} {role : Role}
    {tenantId : Json} (hsub : Dict.get payload "sub" = some (.str username))
    (hrole : Dict.get payload "role" = some (.str role.value))
    (htenant : Dict.get payload "tenantId" = some tenantId) :
    identityOf payload = .ok { username := .str username, role, tenantId } := by
  unfold identityOf
  simp [hsub, hrole, htenant, Role.ofValue_value]

/-- The claims of a user are read back as that user. -/
theorem identityOf_accessClaims {settings : AuthSettings} {user : UserRecord} {now : DateTime}
    {claims : Claims} (h : accessClaims settings user now = some claims) :
    identityOf (claims.map fun claim => (claim.1, claim.2.decoded)) = .ok (CurrentUser.identity
      { username := user.username, role := user.role, tenantId := user.tenantId }) := by
  have htenant : ClaimValue.decoded (user.tenantId.elim .null .str) =
      user.tenantId.elim .null .str := by
    cases user.tenantId <;> rfl
  unfold accessClaims at h
  obtain ⟨exp, -, rfl⟩ := Option.map_eq_some_iff.mp h
  exact identityOf_ok rfl rfl (congrArg some htenant)

/-! ## Histories of user stores -/

/-- A token, with what it was issued from. -/
structure IssuedToken where
  settings : AuthSettings
  user : UserRecord
  issuedAt : DateTime
  token : PyStr
deriving DecidableEq

/-- The settings in force, and every token issued so far. -/
structure AuthState where
  settings : AuthSettings
  issued : List IssuedToken := []
deriving DecidableEq

/-- What happens to the store: new settings, or a token for one of its users. -/
inductive AuthAction where
  | configure (settings : AuthSettings)
  | issue (user : UserRecord) (now : DateTime)

/-- The settings change, or a configured user is issued a token. -/
def authStep (jwt : Jwt) (a : AuthAction) (s : AuthState) : Option AuthState :=
  match a with
  | .configure settings => some { s with settings }
  | .issue user now =>
    if user ∈ s.settings.authUsers then
      (createAccessToken jwt s.settings user now).map fun token =>
        { s with issued := s.issued ++ [{ settings := s.settings, user, issuedAt := now, token }] }
    else none

/-- The user of the name is configured. -/
def Configured (settings : AuthSettings) (username : PyStr) : Prop :=
  ∃ user ∈ settings.authUsers, user.username = username

/-- Under these settings and at this time the JWT library accepts the token. -/
def IssuedToken.Accepted (t : IssuedToken) (settings : AuthSettings) (now : DateTime) : Prop :=
  settings.secretKey = t.settings.secretKey ∧
    ∃ claims, accessClaims t.settings t.user t.issuedAt = some claims ∧
      ValidClaims claims settings.jwtIssuer settings.jwtAudience now

/-- The token is refused with the generic error, or stands for a user who is still configured,
with the role and tenant it was issued with; that of a removed user is refused. -/
structure IssuedToken.MapsToConfigured (jwt : Jwt) (t : IssuedToken) (settings : AuthSettings)
    (now : DateTime) : Prop where
  answer : getCurrentUser jwt settings t.token now = .error CREDENTIALS_ERROR ∨
    ∃ user : CurrentUser, getCurrentUser jwt settings t.token now = .ok user.identity ∧
      Configured settings user.username ∧ user.role = t.user.role ∧ user.tenantId = t.user.tenantId
  removed : ¬Configured settings t.user.username →
    getCurrentUser jwt settings t.token now = .error CREDENTIALS_ERROR

variable {jwt : Jwt}

/-- Every token on record was issued to a user of the store in force at the time. -/
theorem issued_of_reaches {initial : AuthSettings} {s : AuthState}
    (hrun : Machine.Reaches (authStep jwt) (fun _ _ => True) { settings := initial } s) :
    ∀ t ∈ s.issued, t.user ∈ t.settings.authUsers ∧
      createAccessToken jwt t.settings t.user t.issuedAt = some t.token := by
  apply hrun.invariant
  · intro t ht
    cases ht
  · intro s s' a _ _ hstep ih t ht
    cases a with
    | configure settings =>
      cases hstep
      exact ih t ht
    | issue user now =>
      unfold authStep at hstep
      dsimp only at hstep
      split at hstep
      · rename_i hconfigured
        obtain ⟨token, htoken, rfl⟩ := Option.map_eq_some_iff.mp hstep
        rcases List.mem_append.mp ht with ht | ht
        · exact ih t ht
        · cases List.mem_singleton.mp ht
          exact ⟨hconfigured, htoken⟩
      · cases hstep

/-- An accepted token stands for the user it was issued to. -/
theorem getCurrentUser_of_accepted {t : IssuedToken} {settings : AuthSettings} {now : DateTime}
    (hissued : createAccessToken jwt t.settings t.user t.issuedAt = some t.token)
    (hjwt : ∀ claims, accessClaims t.settings t.user t.issuedAt = some claims →
      jwt.Signs claims t.settings.secretKey)
    (haccepted : t.Accepted settings now) :
    getCurrentUser jwt settings t.token now = .ok (CurrentUser.identity
      { username := t.user.username, role := t.user.role, tenantId := t.user.tenantId }) := by
  obtain ⟨hkey, claims, hclaims, hvalid⟩ := haccepted
  have hdecode := (hjwt claims hclaims).accepts _ _ _ hvalid
  have htoken : jwt.encode claims t.settings.secretKey = t.token := by
    unfold createAccessToken at hissued
    rw [hclaims] at hissued
    exact Option.some.inj hissued
  unfold getCurrentUser
  rw [hkey, ← htoken, hdecode]
  exact identityOf_accessClaims hclaims

/-- A token that the library does not accept is refused. -/
theorem getCurrentUser_of_not_accepted {t : IssuedToken} {settings : AuthSettings} {now : DateTime}
    (hissued : createAccessToken jwt t.settings t.user t.issuedAt = some t.token)
    (hjwt : ∀ claims, accessClaims t.settings t.user t.issuedAt = some claims →
      jwt.Signs claims t.settings.secretKey)
    (hrefused : ¬t.Accepted settings now) :
    getCurrentUser jwt settings t.token now = .error CREDENTIALS_ERROR := by
  unfold createAccessToken at hissued
  obtain ⟨claims, hclaims, htoken⟩ := Option.map_eq_some_iff.mp hissued
  have hdecode := (hjwt claims hclaims).rejects settings.secretKey settings.jwtIssuer
    settings.jwtAudience now fun h => hrefused ⟨h.1, claims, hclaims, h.2⟩
  unfold getCurrentUser
  rw [← htoken, hdecode]

/-- **Tokens map to configured users** exactly where the JWT library refuses the token or its
user is still configured. -/
theorem token_maps_to_configured_iff {initial : AuthSettings} {s : AuthState}
    (hrun : Machine.Reaches (authStep jwt) (fun _ _ => True) { settings := initial } s)
    {t : IssuedToken} (ht : t ∈ s.issued)
    (hjwt : ∀ claims, accessClaims t.settings t.user t.issuedAt = some claims →
      jwt.Signs claims t.settings.secretKey) (now : DateTime) :
    t.MapsToConfigured jwt s.settings now ↔
      ¬t.Accepted s.settings now ∨ Configured s.settings t.user.username := by
  obtain ⟨-, hissued⟩ := issued_of_reaches hrun t ht
  -- An accepted token stands for its user whether configured or not; any other is refused.
  by_cases haccepted : t.Accepted s.settings now
  · have hanswer := getCurrentUser_of_accepted hissued hjwt haccepted
    constructor
    · intro h
      right
      by_contra hremoved
      have hrefused := h.removed hremoved
      rw [hanswer] at hrefused
      cases hrefused
    · rintro (hnot | hconfigured)
      · exact absurd haccepted hnot
      · exact ⟨Or.inr ⟨_, hanswer, hconfigured, rfl, rfl⟩, fun hremoved => absurd hconfigured hremoved⟩
  · have hrefused := getCurrentUser_of_not_accepted hissued hjwt haccepted
    exact iff_of_true ⟨Or.inl hrefused, fun _ => hrefused⟩ (Or.inl haccepted)

/-! ## A user who is removed -/

section Sample

def sampleUser : UserRecord := { username := "ada", passwordHash := "", role := .admin }

def sampleAuth : AuthSettings :=
  { secretKey := "0123456789abcdef0123456789abcdef", authUsers := [sampleUser] }

def sampleClaims : Claims := (accessClaims sampleAuth sampleUser .sample).getD []

/-- A library that knows one token. -/
def sampleJwt : Jwt where
  encode := fun _ _ => "token"
  decode := fun _ key issuer audience now =>
    if key = sampleAuth.secretKey ∧ ValidClaims sampleClaims issuer audience now then
      some (sampleClaims.map fun claim => (claim.1, claim.2.decoded))
    else none

def sampleToken : IssuedToken :=
  { settings := sampleAuth, user := sampleUser, issuedAt := .sample, token := "token" }

theorem sampleJwt_signs (claims : Claims)
    (h : accessClaims sampleToken.settings sampleToken.user sampleToken.issuedAt = some claims) :
    sampleJwt.Signs claims sampleToken.settings.secretKey := by
  have hclaims : claims = sampleClaims := (congrArg (fun c => Option.getD c []) h).symm
  subst hclaims
  constructor
  · intro issuer audience now hvalid
    exact if_pos ⟨rfl, hvalid⟩
  · intro key issuer audience now hrefused
    exact if_neg hrefused

theorem createAccessToken_sample :
    createAccessToken sampleJwt sampleAuth sampleUser .sample = some "token" := by
  decide +kernel

/-- The user is issued a token. -/
theorem sampleAuth_reaches : Machine.Reaches (authStep sampleJwt) (fun _ _ => True)
    { settings := sampleAuth } { settings := sampleAuth, issued := [sampleToken] } := by
  have hissue : authStep sampleJwt (.issue sampleUser .sample) { settings := sampleAuth } =
      some { settings := sampleAuth, issued := [sampleToken] } := by decide +kernel
  exact Machine.Reaches.refl.tail trivial hissue

/-- Somebody else has come, and the user has been given another role and another password. -/
def laterAuth : AuthSettings :=
  { sampleAuth with
    authUsers := [{ username := "bob", passwordHash := "b", role := .writer },
      { sampleUser with passwordHash := "c", role := .reader }] }

/-- The store changes and keeps the user. -/
theorem laterAuth_reaches : Machine.Reaches (authStep sampleJwt) (fun _ _ => True)
    { settings := sampleAuth } { settings := laterAuth, issued := [sampleToken] } :=
  have hconfigure : authStep sampleJwt (.configure laterAuth)
      { settings := sampleAuth, issued := [sampleToken] } =
        some { settings := laterAuth, issued := [sampleToken] } := rfl
  sampleAuth_reaches.tail trivial hconfigure

/-- While the user is configured the token stands for that user. -/
theorem token_maps_to_configured_sample :
    sampleToken.MapsToConfigured sampleJwt laterAuth .sample :=
  (token_maps_to_configured_iff laterAuth_reaches (List.mem_singleton_self _) sampleJwt_signs
    .sample).mpr (Or.inr ⟨_, List.mem_cons_of_mem _ (List.mem_singleton_self _), rfl⟩)

/-- **A removed user is admitted** until the token expires. -/
theorem removed_user_admitted :
    ¬∀ (jwt : Jwt) (initial : AuthSettings) (s : AuthState) (t : IssuedToken) (now : DateTime),
      Machine.Reaches (authStep jwt) (fun _ _ => True) { settings := initial } s → t ∈ s.issued →
      (∀ claims, accessClaims t.settings t.user t.issuedAt = some claims →
        jwt.Signs claims t.settings.secretKey) →
      t.MapsToConfigured jwt s.settings now := by
  intro hclaim
  let removed : AuthSettings := { sampleAuth with authUsers := [] }
  have hconfigure : authStep sampleJwt (.configure removed)
      { settings := sampleAuth, issued := [sampleToken] } =
        some { settings := removed, issued := [sampleToken] } := rfl
  have hmaps := hclaim sampleJwt sampleAuth _ sampleToken .sample
    (sampleAuth_reaches.tail trivial hconfigure) (List.mem_singleton_self _) sampleJwt_signs
  have hnot : ¬Configured removed sampleToken.user.username := by
    rintro ⟨user, huser, -⟩
    cases huser
  have haccepted : sampleToken.Accepted removed .sample := by
    refine ⟨rfl, sampleClaims, by decide +kernel, ?_⟩
    have hvalid : ValidClaims sampleClaims sampleAuth.jwtIssuer sampleAuth.jwtAudience .sample := by
      decide +kernel
    exact hvalid
  have hrefused := hmaps.removed hnot
  have hadmitted := getCurrentUser_of_accepted createAccessToken_sample sampleJwt_signs haccepted
  rw [hadmitted] at hrefused
  cases hrefused

end Sample

end AuditLog
