import AuditLog.Api.Authorship
import AuditLog.Library.Slots

/-!
# Request budgets

The limiters stand before the expensive work: the verification of a password, and a read of
the whole table. Within one process, whatever requests are interleaved, the passes of any
window let one host have at most so many passwords verified, and one user read the table
through the sensitive routes at most so often, whichever routes these are
(`effects_within_budgets`). The limiters are in memory: a process that starts in place of
another one begins with fresh budgets. A pass carries the clock reading of its check, and the
work that it allows may be done later.
-/

namespace AuditLog

variable {τ : Type} {settings : Settings} {sha256 : Bytes → PyStr} {retentionWindowDays : Int}
  {jwt : Jwt} {hasher : PasswordHasher}

/-! ## Passes -/

/-- `POST /auth/token`, the one route behind `enforce_login_rate_limit`. -/
def Endpoint.isLogin : Endpoint → Bool
  | .login .. => true
  | .createAuditEvent .. | .listAuditEvents _ | .verifyAuditChain | .exportAuditEvents ..
  | .getAccountAccessReport _ | .redactAuditEvent .. | .applyRetention => false

theorem Endpoint.isLogin_eq_true_iff {endpoint : Endpoint} :
    endpoint.isLogin = true ↔ ∃ username password, endpoint = .login username password := by
  cases endpoint <;> simp [isLogin]

/-- The login route is no sensitive one. -/
theorem Endpoint.isSensitive_login {endpoint : Endpoint} (h : endpoint.isLogin = true) :
    endpoint.isSensitive = false := by
  obtain ⟨username, password, rfl⟩ := isLogin_eq_true_iff.mp h
  rfl

/-- A login asks for no token. -/
theorem Endpoint.requiredRoles_login {endpoint : Endpoint} (h : endpoint.isLogin = true) :
    endpoint.requiredRoles = [] := by
  obtain ⟨username, password, rfl⟩ := isLogin_eq_true_iff.mp h
  rfl

/-- The host that a request is counted under. -/
def HttpRequest.host (request : HttpRequest) : PyStr := request.clientHost.getD "unknown"

namespace ServerCall

/-- The key and the clock reading with which the login limiter has let the request pass. -/
def loginPass? (call : ServerCall τ) : Option (PyStr × τ) :=
  if call.request.endpoint.isLogin then call.checkedAt.map fun t => (call.request.host, t) else none

/-- The same of the limiter of the sensitive routes. -/
def sensitivePass? (call : ServerCall τ) : Option (PyStr × τ) :=
  if call.request.endpoint.isSensitive then
    call.user.bind fun user => call.checkedAt.map fun t => (user.username, t)
  else none

end ServerCall

/-- The pass is one for the key, with a clock reading in the window. -/
def passWithin [LinearOrder τ] (key : PyStr) (start stop : τ) (pass : PyStr × τ) : Bool :=
  decide (pass.1 = key ∧ start ≤ pass.2 ∧ pass.2 ≤ stop)

/-- What requests of the process have done by passes for the key whose clock reading is in the
window, whenever they have done it. -/
def effectsWithin [LinearOrder τ] (pass? : ServerCall τ → Option (PyStr × τ))
    (calls : List (ServerCall τ)) (key : PyStr) (start stop : τ) : List Effect :=
  (calls.filter fun call => (pass? call).any (passWithin key start stop)).flatMap ServerCall.effects

/-! ## Requests one at a time -/

/-- What holds of a request in each phase. -/
def ServerCall.Regular (call : ServerCall τ) : Prop :=
  match call.phase with
  | .arrived => call.user = none ∧ call.checkedAt = none ∧ call.effects = []
  | .verifying => call.checkedAt ≠ none ∧ call.effects = []
  | .authorized user =>
    call.user = some user ∧ user.role ∈ call.request.endpoint.requiredRoles ∧
      call.checkedAt = none ∧ call.effects = []
  | .allowed user | .serving user _ | .applied user _ =>
    call.user = some user ∧ user.role ∈ call.request.endpoint.requiredRoles ∧
      (call.request.endpoint.isSensitive = true → call.checkedAt ≠ none) ∧ call.effects = []
  | .answered _ =>
    call.effects.length ≤ 1 ∧ (call.effects ≠ [] →
      (call.request.endpoint.isLogin = true → call.checkedAt ≠ none) ∧
      (call.request.endpoint.isSensitive = true → call.checkedAt ≠ none ∧
        ∃ user, call.user = some user ∧ user.role ∈ call.request.endpoint.requiredRoles))

/-- A request comes in regular. -/
theorem regular_enter (config : ServerSettings τ) (request : HttpRequest) (uuid : PyStr) :
    (enter config request uuid).Regular := by
  unfold enter
  dsimp only
  split
  · exact ⟨Nat.zero_le _, fun h => absurd rfl h⟩
  · exact ⟨rfl, rfl, rfl⟩


section Steps

variable {shared : Shared settings τ} {call : ServerCall τ} {tick : Tick τ}
  {handled : Handled settings τ}

/-- Authorization does nothing that is counted. -/
theorem authorize_effects (h : authorize jwt shared call.request tick = some handled) :
    handled.effects = [] ∧ handled.checkedAt = none := by
  unfold authorize at h
  split at h
  · cases h
    exact ⟨rfl, rfl⟩
  · obtain ⟨user, -, rfl⟩ := Option.map_eq_some_iff.mp h
    split <;> exact ⟨rfl, rfl⟩

/-- A login attempt verifies one password. -/
theorem login_effects (username password : PyStr) :
    ∃ hash, (login jwt hasher shared tick username password).effects = [.verifiedPassword hash] := by
  unfold login
  dsimp only
  split
  · exact ⟨_, rfl⟩
  · exact ⟨_, rfl⟩
  · split <;> exact ⟨_, rfl⟩

/-- A request that ends after at most one effect, for which it has passed its limiter. -/
theorem ServerCall.Regular.of_ends (hends : handled.next.Ends)
    (hone : (call.effects ++ handled.effects).length ≤ 1)
    (hpaid : call.effects ++ handled.effects ≠ [] →
      (call.request.endpoint.isLogin = true → handled.checkedAt.or call.checkedAt ≠ none) ∧
      (call.request.endpoint.isSensitive = true → handled.checkedAt.or call.checkedAt ≠ none ∧
        ∃ user, call.user = some user ∧ user.role ∈ call.request.endpoint.requiredRoles)) :
    (call.after tick handled).Regular := by
  obtain ⟨response, hanswered⟩ : ∃ response, (call.after tick handled).phase = .answered response :=
    phase_after_of_ends hends
  unfold Regular
  rw [hanswered]
  dsimp only
  rw [effects_after, request_after, checkedAt_after, user_after_of_ends hends]
  exact ⟨hone, hpaid⟩

/-- A request that ends before it has done anything. -/
theorem ServerCall.Regular.of_idle (hends : handled.next.Ends) (hcall : call.effects = [])
    (hhandled : handled.effects = []) : (call.after tick handled).Regular := by
  apply of_ends hends <;> rw [hcall, hhandled]
  · exact Nat.zero_le _
  · exact fun hne => absurd rfl hne

/-- A step without a check leaves the pass as it is. -/
theorem loginPass?_after (hchecked : handled.checkedAt = none) :
    (call.after tick handled).loginPass? = call.loginPass? := by
  unfold ServerCall.loginPass?
  rw [ServerCall.request_after, ServerCall.checkedAt_after, hchecked, Option.none_or]

theorem sensitivePass?_after (hchecked : handled.checkedAt = none)
    (huser : (call.after tick handled).user = call.user) :
    (call.after tick handled).sensitivePass? = call.sensitivePass? := by
  unfold ServerCall.sensitivePass?
  rw [ServerCall.request_after, ServerCall.checkedAt_after, hchecked, Option.none_or, huser]

/-- Without a check there is no pass. -/
theorem sensitivePass?_of_unchecked (h : call.checkedAt = none) : call.sensitivePass? = none := by
  unfold ServerCall.sensitivePass?
  rw [h]
  split <;> simp

/-- A login touches what is on record of logins only. -/
theorem login_only (username password : PyStr) :
    (login jwt hasher shared tick username password).checkedAt = none ∧
      (login jwt hasher shared tick username password).shared.loginLimiter = shared.loginLimiter ∧
      (login jwt hasher shared tick username password).shared.sensitiveLimiter =
        shared.sensitiveLimiter ∧
      (login jwt hasher shared tick username password).shared.config = shared.config := by
  unfold login
  dsimp only
  split
  · exact ⟨rfl, rfl, rfl, rfl⟩
  · exact ⟨rfl, rfl, rfl, rfl⟩
  · split <;> exact ⟨rfl, rfl, rfl, rfl⟩

variable [AddCommGroup τ] [LinearOrder τ]

/-- One step keeps a request regular. -/
theorem Moves.regular (h : Moves sha256 retentionWindowDays jwt hasher shared call tick handled)
    (hcall : call.Regular) : (call.after tick handled).Regular := by
  unfold ServerCall.Regular at hcall
  cases h with
  | checkLogin hphase hendpoint =>
    rw [hphase] at hcall
    obtain ⟨-, hunchecked, hidle⟩ := hcall
    rcases enforceLogin_cases shared call.request tick with ⟨-, h⟩ | ⟨-, h⟩ <;> rw [h]
    · exact ⟨by simp, by simp [hidle]⟩
    · exact .of_idle (Next.ends_respond _) hidle rfl
  | authorize hphase h =>
    rw [hphase] at hcall
    obtain ⟨-, hunchecked, hidle⟩ := hcall
    obtain ⟨heffects, hchecked⟩ := authorize_effects h
    cases hnext : handled.next with
    | goOn phase =>
      obtain ⟨user, token, identity, rfl, -, -, -, hrole⟩ := authorize_goOn h hnext
      unfold ServerCall.Regular
      rw [ServerCall.phase_after_of_goOn hnext]
      dsimp only
      rw [ServerCall.user_after_of_goOn hnext, ServerCall.request_after, ServerCall.checkedAt_after,
        ServerCall.effects_after, heffects, hchecked, hunchecked, hidle]
      exact ⟨rfl, hrole, rfl, rfl⟩
    | respond response => exact .of_idle (by simp [hnext]) hidle heffects
    | raised => exact .of_idle (by simp [hnext]) hidle heffects
  -- The password is verified behind the limiter, so the request has its pass.
  | @login username password hphase hendpoint =>
    rw [hphase] at hcall
    obtain ⟨hchecked, hidle⟩ := hcall
    obtain ⟨hash, heffects⟩ : ∃ hash, (AuditLog.login jwt hasher shared tick username password).effects =
        [.verifiedPassword hash] := login_effects username password
    apply ServerCall.Regular.of_ends (login_ends _ _ _ _)
    · rw [hidle, heffects]
      exact Nat.le_refl 1
    · refine fun _ => ⟨fun _ hnone => hchecked (Option.or_eq_none_iff.mp hnone).2, fun hsensitive => ?_⟩
      rw [hendpoint] at hsensitive
      cases hsensitive
  | @checkSensitive user hphase =>
    rw [hphase] at hcall
    obtain ⟨huser, hrole, hunchecked, hidle⟩ := hcall
    rcases enforceSensitive_cases shared call.request tick user with
      ⟨hplain, h⟩ | ⟨hsensitive, -, h⟩ | ⟨-, -, h⟩ <;> rw [h]
    · exact ⟨rfl, hrole, by simp [hplain], by simp [hidle]⟩
    · exact ⟨rfl, hrole, by simp, by simp [hidle]⟩
    · exact .of_idle (Next.ends_respond _) hidle rfl
  -- A route that reads the table is open to users with the role only, so it is no login.
  | answer hphase hevents heffects hnext =>
    rw [hphase] at hcall
    obtain ⟨huser, hrole, hchecked, hidle⟩ := hcall
    apply ServerCall.Regular.of_ends hnext
    · rw [hidle]
      rcases heffects with rfl | rfl <;> simp
    · refine fun _ => ⟨fun hlogin => ?_, fun hsensitive => ⟨hchecked hsensitive, _, huser, hrole⟩⟩
      rw [Endpoint.requiredRoles_login hlogin] at hrole
      cases hrole
  | start hphase haction hstep =>
    rw [hphase] at hcall
    obtain ⟨huser, hrole, hchecked, hidle⟩ := hcall
    exact ⟨rfl, hrole, hchecked, by simp [hidle]⟩
  | retain hphase hendpoint hresult hstep =>
    rw [hphase] at hcall
    obtain ⟨huser, hrole, hchecked, hidle⟩ := hcall
    exact ⟨rfl, hrole, hchecked, by simp [hidle]⟩
  | advance hphase hstep =>
    rw [hphase] at hcall
    obtain ⟨huser, hrole, hchecked, hidle⟩ := hcall
    exact ⟨rfl, hrole, hchecked, by simp [hidle]⟩
  | returned hphase hnext =>
    rw [hphase] at hcall
    exact .of_idle hnext hcall.2.2.2 rfl
  | redacted hphase _ hnext =>
    rw [hphase] at hcall
    exact .of_idle hnext hcall.2.2.2 rfl
  | retained hphase =>
    rw [hphase] at hcall
    exact .of_idle (Next.ends_respond _) hcall.2.2.2 rfl

/-! ## What a step does to the limiters -/

/-- The step leaves the limiter and the pass of the request alone, or it is the one call of
`check` that the request makes, and gives it its pass where the limiter allows it. -/
def Asks (limiter limiter' : Limited PyStr τ) (pass pass' : Option (PyStr × τ))
    (asked : PyStr → τ → Prop) : Prop :=
  (limiter' = limiter ∧ pass' = pass) ∨
    ∃ key now, asked key now ∧ pass = none ∧ limiter' = checkNext limiter key now ∧
      pass' = if (limiter.1.check key now).1 then some (key, now) else none

/-- The call of the login limiter that a request is about to make. -/
def AsksLogin (call : ServerCall τ) (tick : Tick τ) (key : PyStr) (now : τ) : Prop :=
  call.phase = .arrived ∧ call.request.endpoint.isLogin = true ∧ key = call.request.host ∧
    now = tick.monotonic

/-- The same for the sensitive limiter. -/
def AsksSensitive (call : ServerCall τ) (tick : Tick τ) (key : PyStr) (now : τ) : Prop :=
  ∃ user, call.phase = .authorized user ∧ call.request.endpoint.isSensitive = true ∧
    key = user.username ∧ now = tick.monotonic

/-- How a step uses the login limiter. -/
theorem Moves.asks_login (h : Moves sha256 retentionWindowDays jwt hasher shared call tick handled)
    (hcall : call.Regular) : Asks shared.loginLimiter handled.shared.loginLimiter call.loginPass?
      (call.after tick handled).loginPass? (AsksLogin call tick) := by
  cases h with
  | checkLogin hphase hendpoint =>
    unfold ServerCall.Regular at hcall
    rw [hphase] at hcall
    obtain ⟨-, hunchecked, -⟩ := hcall
    have hlogin : call.request.endpoint.isLogin = true := Endpoint.isLogin_eq_true_iff.mpr ⟨_, _, hendpoint⟩
    refine Or.inr ⟨_, _, ⟨hphase, hlogin, rfl, rfl⟩, ?_, ?_, ?_⟩
    · unfold ServerCall.loginPass?
      rw [if_pos hlogin, hunchecked]
      rfl
    · rcases enforceLogin_cases shared call.request tick with ⟨-, h⟩ | ⟨-, h⟩ <;> rw [h] <;> rfl
    · unfold ServerCall.loginPass? HttpRequest.host
      rcases enforceLogin_cases shared call.request tick with ⟨hallowed, h⟩ | ⟨hallowed, h⟩ <;>
        rw [h, ServerCall.request_after, ServerCall.checkedAt_after, if_pos hlogin, hallowed]
      · rfl
      · rw [hunchecked]
        rfl
  | authorize hphase h =>
    refine Or.inl ⟨?_, loginPass?_after (authorize_effects h).2⟩
    rw [authorize_shared h]
  | login => exact Or.inl ⟨(login_only _ _).2.1, loginPass?_after (login_only _ _).1⟩
  | @checkSensitive user hphase =>
    left
    rcases enforceSensitive_cases shared call.request tick user with
      ⟨-, h⟩ | ⟨hsensitive, -, h⟩ | ⟨-, -, h⟩ <;> rw [h]
    · exact ⟨rfl, loginPass?_after rfl⟩
    · refine ⟨rfl, ?_⟩
      have hplain : call.request.endpoint.isLogin = false := by
        by_contra hlogin
        rw [Endpoint.isSensitive_login (Bool.not_eq_false _ ▸ hlogin)] at hsensitive
        cases hsensitive
      unfold ServerCall.loginPass?
      rw [ServerCall.request_after, hplain]
      rfl
    · exact ⟨rfl, loginPass?_after rfl⟩
  | _ => exact Or.inl ⟨rfl, loginPass?_after rfl⟩

/-- How a step uses the limiter of the sensitive routes. -/
theorem Moves.asks_sensitive
    (h : Moves sha256 retentionWindowDays jwt hasher shared call tick handled)
    (hcall : call.Regular) : Asks shared.sensitiveLimiter handled.shared.sensitiveLimiter
      call.sensitivePass? (call.after tick handled).sensitivePass? (AsksSensitive call tick) := by
  unfold ServerCall.Regular at hcall
  cases h with
  | checkLogin hphase hendpoint =>
    rw [hphase] at hcall
    have hplain : call.request.endpoint.isSensitive = false :=
      Endpoint.isSensitive_login (Endpoint.isLogin_eq_true_iff.mpr ⟨_, _, hendpoint⟩)
    left
    constructor
    · rcases enforceLogin_cases shared call.request tick with ⟨-, h⟩ | ⟨-, h⟩ <;> rw [h] <;> rfl
    · unfold ServerCall.sensitivePass?
      rw [ServerCall.request_after, hplain]
      rfl
  | authorize hphase h =>
    rw [hphase] at hcall
    left
    rw [authorize_shared h, sensitivePass?_of_unchecked hcall.2.1, sensitivePass?_of_unchecked]
    · exact ⟨rfl, rfl⟩
    · rw [ServerCall.checkedAt_after, (authorize_effects h).2, hcall.2.1]
      rfl
  | login hphase hendpoint =>
    exact Or.inl ⟨(login_only _ _).2.2.1, sensitivePass?_after (login_only _ _).1
      (ServerCall.user_after_of_ends (login_ends _ _ _ _))⟩
  | @checkSensitive user hphase =>
    rw [hphase] at hcall
    obtain ⟨huser, -, hunchecked, -⟩ := hcall
    rcases enforceSensitive_cases shared call.request tick user with
      ⟨-, h⟩ | ⟨hsensitive, hallowed, h⟩ | ⟨hsensitive, hallowed, h⟩ <;> rw [h]
    · exact Or.inl ⟨rfl, sensitivePass?_after rfl huser.symm⟩
    · refine Or.inr ⟨_, _, ⟨user, hphase, hsensitive, rfl, rfl⟩, sensitivePass?_of_unchecked hunchecked,
        rfl, ?_⟩
      unfold ServerCall.sensitivePass?
      rw [ServerCall.request_after, ServerCall.checkedAt_after, if_pos hsensitive, hallowed]
      rfl
    · refine Or.inr ⟨_, _, ⟨user, hphase, hsensitive, rfl, rfl⟩, sensitivePass?_of_unchecked hunchecked,
        rfl, ?_⟩
      rw [hallowed]
      exact sensitivePass?_of_unchecked hunchecked
  | answer hphase _ _ hnext =>
    exact Or.inl ⟨rfl, sensitivePass?_after rfl (ServerCall.user_after_of_ends hnext)⟩
  | start hphase =>
    rw [hphase] at hcall
    exact Or.inl ⟨rfl, sensitivePass?_after rfl hcall.1.symm⟩
  | retain hphase =>
    rw [hphase] at hcall
    exact Or.inl ⟨rfl, sensitivePass?_after rfl hcall.1.symm⟩
  | advance hphase =>
    rw [hphase] at hcall
    exact Or.inl ⟨rfl, sensitivePass?_after rfl hcall.1.symm⟩
  | returned hphase hnext =>
    exact Or.inl ⟨rfl, sensitivePass?_after rfl (ServerCall.user_after_of_ends hnext)⟩
  | redacted hphase _ hnext =>
    exact Or.inl ⟨rfl, sensitivePass?_after rfl (ServerCall.user_after_of_ends hnext)⟩
  | retained hphase =>
    exact Or.inl ⟨rfl, sensitivePass?_after rfl (ServerCall.user_after_of_ends (Next.ends_respond _))⟩

/-- Who has been let pass stays with the request. -/
theorem Moves.user_kept (h : Moves sha256 retentionWindowDays jwt hasher shared call tick handled)
    (hcall : call.Regular) {user : CurrentUser} (huser : call.user = some user) :
    (call.after tick handled).user = some user := by
  by_cases hends : handled.next.Ends
  · rw [ServerCall.user_after_of_ends hends]
    exact huser
  · unfold ServerCall.Regular at hcall
    cases h with
    | checkLogin hphase =>
      rw [hphase, huser] at hcall
      cases hcall.1
    | authorize hphase =>
      rw [hphase, huser] at hcall
      cases hcall.1
    | login => exact absurd (login_ends _ _ _ _) hends
    | @checkSensitive user' hphase =>
      rw [hphase, huser] at hcall
      cases hcall.1
      rcases enforceSensitive_cases shared call.request tick user with
        ⟨-, h⟩ | ⟨-, -, h⟩ | ⟨-, -, h⟩ <;> rw [h]
      · rfl
      · rfl
      · exact huser
    | start hphase =>
      rw [hphase, huser] at hcall
      exact hcall.1.symm ▸ rfl
    | retain hphase =>
      rw [hphase, huser] at hcall
      exact hcall.1.symm ▸ rfl
    | advance hphase =>
      rw [hphase, huser] at hcall
      exact hcall.1.symm ▸ rfl
    | answer _ _ _ hnext => exact absurd hnext hends
    | returned _ hnext => exact absurd hnext hends
    | redacted _ _ hnext => exact absurd hnext hends
    | retained => exact absurd (Next.ends_respond _) hends

/-- No step changes the settings. -/
theorem Moves.config (h : Moves sha256 retentionWindowDays jwt hasher shared call tick handled) :
    handled.shared.config = shared.config := by
  cases h with
  | checkLogin =>
    rcases enforceLogin_cases shared call.request tick with ⟨-, h⟩ | ⟨-, h⟩ <;>
      exact congrArg (fun handled => handled.shared.config) h
  | authorize _ h => exact congrArg Shared.config (authorize_shared h)
  | login => exact (login_only _ _).2.2.2
  | @checkSensitive user =>
    rcases enforceSensitive_cases shared call.request tick user with ⟨-, h⟩ | ⟨-, -, h⟩ | ⟨-, -, h⟩ <;>
      exact congrArg (fun handled => handled.shared.config) h
  | _ => rfl

end Steps

/-! ## A limiter and the passes it has given -/

section Metered

variable [AddCommGroup τ] [LinearOrder τ]

/-- The calls of `check` that were accepted. -/
def accepted (log : List (Checked PyStr τ)) : List (PyStr × τ) :=
  (log.filter Checked.allowed).map fun c => (c.key, c.now)

omit [AddCommGroup τ] in
theorem countP_accepted (log : List (Checked PyStr τ)) (key : PyStr) (start stop : τ) :
    (accepted log).countP (passWithin key start stop) =
      SlidingWindow.count (acceptedTimes log key) start stop := by
  unfold accepted acceptedTimes SlidingWindow.count
  rw [List.countP_map, List.countP_filter, List.countP_map, List.countP_filter]
  congr 1
  funext c
  by_cases hkey : c.key = key <;> simp [passWithin, hkey]

/-- No accepted time within a window's width of the reading has been dropped from the deque. -/
def InOrder (limiter : Limited PyStr τ) (key : PyStr) (now : τ) : Prop :=
  ∀ u ∈ droppedTimes limiter key,
    ¬(now - limiter.1.windowSeconds ≤ u ∧ u ≤ now + limiter.1.windowSeconds)

instance (limiter : Limited PyStr τ) (key : PyStr) (now : τ) : Decidable (InOrder limiter key now) :=
  inferInstanceAs (Decidable (∀ u ∈ droppedTimes limiter key, _))

/-- The limiter of a process: its settings, its deques in step with what it has accepted, no
window with too many, and a request for each call that was accepted. -/
structure Metered (maxRequests : Int) (windowSeconds : τ) (limiter : Limited PyStr τ)
    (passes : List (PyStr × τ)) : Prop where
  maxRequests_eq : limiter.1.maxRequests = maxRequests
  windowSeconds_eq : limiter.1.windowSeconds = windowSeconds
  tracks : ∀ key, Tracks limiter key
  within : ∀ key, WithinLimit maxRequests windowSeconds limiter.2 key
  passes : passes.Perm (accepted limiter.2)

/-- A limiter that has just been made. -/
theorem Metered.fresh (maxRequests : Int) (windowSeconds : τ) :
    Metered maxRequests windowSeconds ({ maxRequests, windowSeconds }, []) [] where
  maxRequests_eq := rfl
  windowSeconds_eq := rfl
  tracks := tracks_checkAll { maxRequests, windowSeconds } [] rfl
  within := fun _ _ => Nat.zero_le _
  passes := .refl _

variable {maxRequests : Int} {windowSeconds : τ} {limiter limiter' : Limited PyStr τ}

/-- No window has more passes than the limiter allows. -/
theorem Metered.countP_le {passes : List (PyStr × τ)}
    (h : Metered maxRequests windowSeconds limiter passes) (key : PyStr) (start : τ) :
    passes.countP (passWithin key start (start + windowSeconds)) ≤ maxRequests.toNat := by
  rw [h.passes.countP_eq, countP_accepted]
  exact h.within key start

variable {calls : List (ServerCall τ)} {pass? : ServerCall τ → Option (PyStr × τ)} {i : Nat}
  {call call' : ServerCall τ} {asked : PyStr → τ → Prop}

/-- One step of a request keeps the account of passes. -/
theorem Metered.step [IsOrderedAddMonoid τ]
    (h : Metered maxRequests windowSeconds limiter (calls.filterMap pass?))
    (hcall : calls[i]? = some call) (hasks : Asks limiter limiter' (pass? call) (pass? call') asked)
    (horder : ∀ key now, asked key now → InOrder limiter key now) :
    Metered maxRequests windowSeconds limiter' ((calls.set i call').filterMap pass?) := by
  rcases hasks with ⟨rfl, hsame⟩ | ⟨key, now, hasked, hnone, rfl, hpass⟩
  · have hperm := Slots.filterMap_set_perm_of_eq hcall hsame
    exact { h with passes := hperm.trans h.passes }
  · have hsettings := checkNext_settings limiter key now
    have hperm := Slots.filterMap_set_perm_of_none hcall hnone call'
    constructor
    · exact hsettings.1.trans h.maxRequests_eq
    · exact hsettings.2.trans h.windowSeconds_eq
    · exact fun k => (h.tracks k).step key now
    · intro k
      have hwithin := h.within k
      rw [← h.maxRequests_eq, ← h.windowSeconds_eq] at hwithin ⊢
      exact hwithin.step (h.tracks k) key now (horder key now hasked)
    · have haccepted : accepted (checkNext limiter key now).2 =
          accepted limiter.2 ++ (pass? call').toList := by
        rw [hpass]
        unfold accepted checkNext
        rw [List.filter_append, List.map_append]
        cases (limiter.1.check key now).1 <;> rfl
      rw [haccepted]
      exact hperm.trans (h.passes.append_right _)

omit [AddCommGroup τ] in
/-- Requests that do one thing each do no more than they have passes. -/
theorem length_effectsWithin_le (hone : ∀ call ∈ calls, call.effects.length ≤ 1) (key : PyStr)
    (start stop : τ) : (effectsWithin pass? calls key start stop).length ≤
      (calls.filterMap pass?).countP (passWithin key start stop) := by
  induction calls with
  | nil => exact Nat.le_refl 0
  | cons call calls ih =>
    rw [List.forall_mem_cons] at hone
    have hrest := ih hone.2
    have hfirst := hone.1
    unfold effectsWithin at hrest ⊢
    rw [List.filter_cons, List.filterMap_cons]
    cases hpass : pass? call with
    | none => simpa using hrest
    | some pass =>
      by_cases hin : passWithin key start stop pass = true
      · simp only [Option.any_some, hin, if_true, List.flatMap_cons, List.length_append,
          List.countP_cons]
        omega
      · simp only [Option.any_some, hin, Bool.false_eq_true, if_false, List.countP_cons,
          Nat.add_zero]
        exact hrest

end Metered

/-! ## The invariant -/

section Run

variable [AddCommGroup τ] [LinearOrder τ]

/-- The limiter that a request is about to ask sees its clock readings in order. -/
def Phase.ChecksInOrder (shared : Shared settings τ) (request : HttpRequest) (now : τ) : Phase → Prop
  | .arrived => request.endpoint.isLogin = true → InOrder shared.loginLimiter request.host now
  | .authorized user =>
    request.endpoint.isSensitive = true → InOrder shared.sensitiveLimiter user.username now
  | .verifying | .allowed _ | .serving _ _ | .applied _ _ | .answered _ => True

instance (shared : Shared settings τ) (request : HttpRequest) (now : τ) :
    ∀ phase : Phase, Decidable (phase.ChecksInOrder shared request now)
  | .arrived => inferInstanceAs (Decidable (_ → _))
  | .authorized _ => inferInstanceAs (Decidable (_ → _))
  | .verifying | .allowed _ | .serving _ _ | .applied _ _ | .answered _ =>
    inferInstanceAs (Decidable True)

/-- The step is no call of `check` that later readings of its key have overtaken. -/
def ChecksInOrder (s : Server settings τ) : ServerAction τ → Prop
  | .advance i tick | .fail i tick =>
    ∀ call ∈ s.calls[i]?, call.phase.ChecksInOrder s.shared call.request tick.monotonic
  | .boot _ | .receive _ _ | .disconnect _ _ => True

instance (s : Server settings τ) : ∀ action, Decidable (ChecksInOrder s action)
  | .advance i tick | .fail i tick =>
    inferInstanceAs (Decidable (∀ call ∈ s.calls[i]?,
      call.phase.ChecksInOrder s.shared call.request tick.monotonic))
  | .boot _ | .receive _ _ | .disconnect _ _ => inferInstanceAs (Decidable True)

/-- The request is one for a sensitive route, by the user of the name, with a role that the
route lets pass. -/
def ServerCall.AskedBy (call : ServerCall τ) (username : PyStr) : Prop :=
  call.request.endpoint.isSensitive = true ∧ ∃ user, call.user = some user ∧
    user.username = username ∧ user.role ∈ call.request.endpoint.requiredRoles

/-- Requests are regular, the limiters are those of the process, and only users with the role
have asked the sensitive one. -/
structure Paced (s : Server settings τ) : Prop where
  calls : ∀ call ∈ s.calls, call.Regular
  logins : Metered s.shared.config.loginRateLimitMaxAttempts
    s.shared.config.loginRateLimitWindowSeconds s.shared.loginLimiter
    (s.calls.filterMap ServerCall.loginPass?)
  reads : Metered s.shared.config.sensitiveRateLimitMaxRequests
    s.shared.config.sensitiveRateLimitWindowSeconds s.shared.sensitiveLimiter
    (s.calls.filterMap ServerCall.sensitivePass?)
  asked : ∀ c ∈ s.shared.sensitiveLimiter.2, ∃ call ∈ s.calls, call.AskedBy c.key

/-- A process that starts has fresh limiters and no requests. -/
theorem Paced.boot (config : ServerSettings τ) (api : ApiState settings) (logins : List Login)
    (lines : List Line) : Paced (.boot config api logins lines : Server settings τ) where
  calls := by simp [Server.boot]
  logins := .fresh _ _
  reads := .fresh _ _
  asked := by simp [Server.boot]

omit [AddCommGroup τ] [LinearOrder τ] in
/-- A request does one thing at most. -/
theorem ServerCall.Regular.length_effects_le {call : ServerCall τ} (h : call.Regular) :
    call.effects.length ≤ 1 := by
  unfold Regular at h
  split at h
  · simp [h.2.2]
  · simp [h.2]
  · simp [h.2.2.2]
  · simp [h.2.2.2]
  · simp [h.2.2.2]
  · simp [h.2.2.2]
  · exact h.1

variable {s s' : Server settings τ}

omit [AddCommGroup τ] [LinearOrder τ] in
/-- A request that comes in has no pass. -/
theorem enter_passes (config : ServerSettings τ) (request : HttpRequest) (uuid : PyStr) :
    (enter config request uuid).loginPass? = none ∧
      (enter config request uuid).sensitivePass? = none := by
  have hunchecked : (enter config request uuid).checkedAt = none := by
    unfold enter
    dsimp only
    split <;> rfl
  refine ⟨?_, sensitivePass?_of_unchecked hunchecked⟩
  unfold ServerCall.loginPass?
  rw [hunchecked]
  split <;> rfl

/-- One step, whose check no later reading has overtaken. -/
theorem Paced.step [IsOrderedAddMonoid τ] {action : ServerAction τ} (hs : Paced s)
    (horder : ChecksInOrder s action)
    (hstep : ServerTransition sha256 retentionWindowDays jwt hasher s action s') : Paced s' := by
  cases hstep with
  | boot config => exact .boot _ _ _ _
  | receive request uuid =>
    obtain ⟨hlogin, hsensitive⟩ := enter_passes s.shared.config request uuid
    constructor
    · intro call hcall
      rcases List.mem_append.mp hcall with hcall | hcall
      · exact hs.calls call hcall
      · rw [List.mem_singleton.mp hcall]
        exact regular_enter _ _ _
    · simpa [hlogin] using hs.logins
    · simpa [hsensitive] using hs.reads
    · intro c hc
      obtain ⟨call, hcall, hasked⟩ := hs.asked c hc
      exact ⟨call, List.mem_append_left _ hcall, hasked⟩
  | @move i call tick handled action haction hcall hmove =>
    have hregular := hs.calls call (List.mem_of_getElem? hcall)
    -- What is assumed of the step is what the limiter that it asks needs.
    have hinorder : call.phase.ChecksInOrder s.shared call.request tick.monotonic := by
      rcases haction with rfl | rfl <;> exact horder call hcall
    have hlogins : ∀ key now, AsksLogin call tick key now → InOrder s.shared.loginLimiter key now := by
      rintro key now ⟨hphase, hlogin, rfl, rfl⟩
      rw [hphase] at hinorder
      exact hinorder hlogin
    have hreads : ∀ key now, AsksSensitive call tick key now →
        InOrder s.shared.sensitiveLimiter key now := by
      rintro key now ⟨user, hphase, hsensitive, rfl, rfl⟩
      rw [hphase] at hinorder
      exact hinorder hsensitive
    have hkept : ∀ username, call.AskedBy username → (call.after tick handled).AskedBy username := by
      rintro username ⟨hsensitive, user, huser, hrest⟩
      exact ⟨by rwa [ServerCall.request_after], user, hmove.user_kept hregular huser,
        by rwa [ServerCall.request_after]⟩
    constructor
    · intro call' hcall'
      rcases List.mem_or_eq_of_mem_set hcall' with hcall' | rfl
      · exact hs.calls call' hcall'
      · exact hmove.regular hregular
    · show Metered handled.shared.config.loginRateLimitMaxAttempts
        handled.shared.config.loginRateLimitWindowSeconds _ _
      rw [hmove.config]
      exact hs.logins.step hcall (hmove.asks_login hregular) hlogins
    · show Metered handled.shared.config.sensitiveRateLimitMaxRequests
        handled.shared.config.sensitiveRateLimitWindowSeconds _ _
      rw [hmove.config]
      exact hs.reads.step hcall (hmove.asks_sensitive hregular) hreads
    -- A call of the sensitive limiter is an earlier one, or the one this request has just made.
    · intro c hc
      have hbefore : (∃ old ∈ s.calls, old.AskedBy c.key) ∨ (call.after tick handled).AskedBy c.key := by
        change c ∈ handled.shared.sensitiveLimiter.2 at hc
        rcases hmove.asks_sensitive hregular with ⟨hsame, -⟩ | ⟨key, now, ⟨user, hphase, hsensitive,
          rfl, rfl⟩, -, hnext, -⟩
        · rw [hsame] at hc
          exact Or.inl (hs.asked c hc)
        · rw [hnext] at hc
          rcases List.mem_append.mp hc with hc | hc
          · exact Or.inl (hs.asked c hc)
          · rw [List.mem_singleton.mp hc]
            unfold ServerCall.Regular at hregular
            rw [hphase] at hregular
            exact Or.inr (hkept _ ⟨hsensitive, user, hregular.1, rfl, hregular.2.1⟩)
      rcases hbefore with ⟨old, hold, hasked⟩ | hasked
      · obtain ⟨j, hj⟩ := List.mem_iff_getElem?.mp hold
        by_cases hij : j = i
        · subst hij
          rw [hcall] at hj
          cases hj
          exact ⟨_, mem_set_self hcall _, hkept _ hasked⟩
        · exact ⟨old, mem_set_of_ne hcall hij hj _, hasked⟩
      · exact ⟨_, mem_set_self hcall _, hasked⟩
  | disconnect hrollback => exact ⟨hs.calls, hs.logins, hs.reads, hs.asked⟩

/-- The run lemma. -/
theorem paced_of_reaches [IsOrderedAddMonoid τ] {config : ServerSettings τ}
    (h : Machine.Reaches (serverStep sha256 retentionWindowDays jwt hasher) ChecksInOrder
      (.init config) s) : Paced s :=
  h.invariant (.boot _ _ _ _) fun _ _ _ _ horder hstep ht => ht.step horder (serverStep_cases hstep)

omit [AddCommGroup τ] [LinearOrder τ] in
/-- Whoever has done something through a limited route has passed its limiter. -/
theorem ServerCall.Regular.passed {call : ServerCall τ} (h : call.Regular) (hdone : call.effects ≠ []) :
    (call.request.endpoint.isLogin = true → ∃ t, call.loginPass? = some (call.request.host, t)) ∧
    (call.request.endpoint.isSensitive = true → ∃ user t, call.user = some user ∧
      user.role ∈ call.request.endpoint.requiredRoles ∧
      call.sensitivePass? = some (user.username, t)) := by
  unfold Regular at h
  split at h
  · exact absurd h.2.2 hdone
  · exact absurd h.2 hdone
  · exact absurd h.2.2.2 hdone
  · exact absurd h.2.2.2 hdone
  · exact absurd h.2.2.2 hdone
  · exact absurd h.2.2.2 hdone
  · obtain ⟨hlogin, hsensitive⟩ := h.2 hdone
    constructor
    · intro his
      obtain ⟨t, ht⟩ := Option.ne_none_iff_exists'.mp (hlogin his)
      exact ⟨t, by simp [loginPass?, his, ht]⟩
    · intro his
      obtain ⟨hchecked, user, huser, hrole⟩ := hsensitive his
      obtain ⟨t, ht⟩ := Option.ne_none_iff_exists'.mp hchecked
      exact ⟨user, t, huser, hrole, by simp [sensitivePass?, his, ht, huser]⟩

/-- **Budgets hold whatever is interleaved.** As long as no check is overtaken, the passes of one
process in any window allow no more password verifications for one host, and no more reads of
the table through the sensitive routes for one user, than its settings say. Nothing is verified
or read there without a pass, and only users with the role use up a budget. -/
theorem effects_within_budgets [IsOrderedAddMonoid τ] {config : ServerSettings τ}
    (h : Machine.Reaches (serverStep sha256 retentionWindowDays jwt hasher) ChecksInOrder
      (.init config) s) :
    (∀ host start, (effectsWithin ServerCall.loginPass? s.calls host start
        (start + s.shared.config.loginRateLimitWindowSeconds)).length ≤
      s.shared.config.loginRateLimitMaxAttempts.toNat) ∧
    (∀ username start, (effectsWithin ServerCall.sensitivePass? s.calls username start
        (start + s.shared.config.sensitiveRateLimitWindowSeconds)).length ≤
      s.shared.config.sensitiveRateLimitMaxRequests.toNat) ∧
    (∀ call ∈ s.calls, call.effects ≠ [] →
      (call.request.endpoint.isLogin = true → ∃ t, call.loginPass? = some (call.request.host, t)) ∧
      (call.request.endpoint.isSensitive = true → ∃ user t, call.user = some user ∧
        user.role ∈ call.request.endpoint.requiredRoles ∧
        call.sensitivePass? = some (user.username, t))) ∧
    ∀ c ∈ s.shared.sensitiveLimiter.2, ∃ call ∈ s.calls, call.AskedBy c.key := by
  have hpaced := paced_of_reaches h
  have hone : ∀ call ∈ s.calls, call.effects.length ≤ 1 := fun call hcall =>
    (hpaced.calls call hcall).length_effects_le
  refine ⟨fun host start => ?_, fun username start => ?_, fun call hcall => ?_, hpaced.asked⟩
  · exact (length_effectsWithin_le hone host start _).trans (hpaced.logins.countP_le host start)
  · exact (length_effectsWithin_le hone username start _).trans (hpaced.reads.countP_le username start)
  · exact (hpaced.calls call hcall).passed

end Run

/-! ## Two windows -/

section Sample

/-- One login, and one sensitive request, in ten seconds. -/
def strictConfig : ServerSettings Int :=
  { graceConfig with
    loginRateLimitMaxAttempts := 1
    loginRateLimitWindowSeconds := 10
    sensitiveRateLimitMaxRequests := 1
    sensitiveRateLimitWindowSeconds := 10 }

def tickAt (monotonic : Int) : Tick Int := { sampleTick with monotonic }

/-- Logins at 0, at 5, where the first one still counts, and at 20; then a verification of the
chain, and an export that finds the budget used up. -/
def pacedRequests : List (ServerAction Int) :=
  let login : HttpRequest := { endpoint := .login "grace" "p", path := "/auth/token" }
  [.receive login "a", .advance 0 (tickAt 0), .advance 0 (tickAt 1),
    .receive login "b", .advance 1 (tickAt 5),
    .receive login "c", .advance 2 (tickAt 20), .advance 2 (tickAt 21),
    .receive
      { endpoint := .verifyAuditChain, path := "/audit/verify", bearer := some "token" } "d",
    .advance 3 (tickAt 22), .advance 3 (tickAt 23), .advance 3 (tickAt 24),
    .receive
      { endpoint := .exportAuditEvents (some "b") none, path := "/audit/export"
        bearer := some "token" } "e",
    .advance 4 (tickAt 25), .advance 4 (tickAt 26)]

/-- Which of them have done something. -/
theorem effects_within_budgets_pacedRequests :
    ∃ s : Server {} Int, s ∈ Machine.schedule (serverStep Sha256.hexdigest 30 graceJwt sampleHasher)
        ChecksInOrder pacedRequests (.init strictConfig) ∧
      s.calls.map (fun call => call.effects.length) = [1, 0, 1, 1, 0] ∧
      (∀ host start, (effectsWithin ServerCall.loginPass? s.calls host start
          (start + s.shared.config.loginRateLimitWindowSeconds)).length ≤
        s.shared.config.loginRateLimitMaxAttempts.toNat) ∧
      (∀ username start, (effectsWithin ServerCall.sensitivePass? s.calls username start
          (start + s.shared.config.sensitiveRateLimitWindowSeconds)).length ≤
        s.shared.config.sensitiveRateLimitMaxRequests.toNat) := by
  have hrun : ∃ s : Server {} Int,
      s ∈ Machine.schedule (serverStep Sha256.hexdigest 30 graceJwt sampleHasher) ChecksInOrder
        pacedRequests (.init strictConfig) ∧ s.calls.map (fun call => call.effects.length) = [1, 0, 1, 1, 0] := by
    decide +kernel
  obtain ⟨s, hs, heffects⟩ := hrun
  obtain ⟨hlogins, hreads, -⟩ := effects_within_budgets (Machine.reaches_of_schedule hs)
  exact ⟨s, hs, heffects, hlogins, hreads⟩

end Sample

end AuditLog
