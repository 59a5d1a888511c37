import AuditLog.Api.LoggedWrites

/-!
# What the log says of sweeps

A sweep archives its rows in one step of its request, and is logged in a later one. The rows
that the log has counted, with those that a request is about to count, are no more than
the archived rows of the table; only a process that stops between the two steps leaves
rows that nothing has counted.
-/

namespace AuditLog

variable {τ : Type} {settings : Settings} {sha256 : Bytes → PyStr} {retentionWindowDays : Int}
  {jwt : Jwt} {hasher : PasswordHasher}

/-! ## Archived rows -/

/-- The archived rows among these. -/
def archivedRows (events : List AuditEvent) : Nat := events.countP fun e => e.archivedAt.isSome

/-- Rows that keep their archival are counted as before. -/
theorem archivedRows_of_sameArchival {events events' : List AuditEvent}
    (h : List.Forall₂ SameArchival events events') : archivedRows events' = archivedRows events := by
  unfold archivedRows
  induction h with
  | nil => rfl
  | cons hab _ ih => simp only [List.countP_cons, ih, hab.2.2]

/-- A step of the sessions archives what is seen of it. -/
theorem Transition.archivedRows {w w' : World settings} {action : Action settings}
    (h : Transition sha256 w action w') (hd : Disciplined sha256 w) (hs : Stored sha256 w) :
    AuditLog.archivedRows w'.db.auditEvents = AuditLog.archivedRows w.db.auditEvents +
      ((observeSweep w action).map Sweep.archivedCount).sum := by
  rcases h.archival hd hs with ⟨hsweep, hsame⟩ | ⟨hsweep, event, hnew, -, hrows⟩ |
    ⟨cutoff, now, hdb, hsweep⟩
  · rw [hsweep, archivedRows_of_sameArchival hsame]
    rfl
  · rw [hsweep, hrows]
    unfold AuditLog.archivedRows
    rw [List.countP_append, List.countP_singleton, hnew]
    rfl
  · rw [hsweep, hdb]
    unfold AuditLog.archivedRows
    rw [countP_archiveEventsOlderThan]
    rfl

section Api

variable {api api' : ApiState settings}

/-- Only retention archives. -/
theorem archivedRows_of_apiStep {action : ApiAction settings}
    (hrun : Machine.Reaches (apiStep sha256 retentionWindowDays) (fun _ _ => True) .init api)
    (h : apiStep sha256 retentionWindowDays action api = some api')
    (hother : ∀ user now archiveNow, action ≠ .applyRetention user now archiveNow) :
    archivedRows api'.world.db.auditEvents = archivedRows api.world.db.auditEvents := by
  rcases apiStep_cases h with rfl | ⟨started, callers, haccepted, hstep, -⟩
  · rfl
  · have hworld := reaches_world hrun
    have hcount := (step_cases hstep).archivedRows (disciplined_of_reaches hworld)
      (stored_of_reaches hworld)
    have hsweep : observeSweep api.world started = [] := by
      cases action with
      | applyRetention user now archiveNow => exact absurd rfl (hother _ _ _)
      | createAuditEvent user eventIn idempotencyKey =>
        obtain ⟨req, -, heq⟩ := map_eq_ok_iff.mp haccepted
        cases heq
        rfl
      | redactAuditEvent user eventId request now =>
        obtain ⟨req, -, heq⟩ := map_eq_ok_iff.mp haccepted
        cases heq
        rfl
      | advance c now =>
        cases haccepted
        rfl
      | rollback c call =>
        cases haccepted
        rfl
    rw [hsweep] at hcount
    exact hcount

/-- The routes that start a session start no sweep. -/
theorem ApiAction.Starts.ne_applyRetention {user : CurrentUser} {endpoint : Endpoint}
    {action : ApiAction settings} (h : action.Starts user endpoint) (user' : CurrentUser)
    (now archiveNow : DateTime) : action ≠ .applyRetention user' now archiveNow := by
  rintro rfl
  cases h

/-- The retention run of an admin archives what its result says. -/
theorem archivedRows_of_applyRetention
    (hrun : Machine.Reaches (apiStep sha256 retentionWindowDays) (fun _ _ => True) .init api)
    {user : CurrentUser} (hrole : user.role = .admin) {now archiveNow : DateTime}
    {result : RetentionResult}
    (hresult : (applyRetention api.world.db retentionWindowDays now archiveNow).1 = some result)
    (h : apiStep sha256 retentionWindowDays (.applyRetention user now archiveNow) api = some api') :
    archivedRows api'.world.db.auditEvents =
      archivedRows api.world.db.auditEvents + result.archivedCount := by
  have hadmitted : Routes.applyRetention user = .ok user :=
    Routes.requireRoles_ok_iff.mpr ⟨rfl, by rw [hrole]; exact List.mem_singleton_self _⟩
  have haccepted : (ApiAction.applyRetention user now archiveNow : ApiAction settings).accepted
      retentionWindowDays = .ok (.applyRetention retentionWindowDays now archiveNow, []) :=
    map_eq_ok_iff.mpr ⟨user, hadmitted, rfl⟩
  unfold apiStep at h
  rw [haccepted] at h
  obtain ⟨world, hstep, rfl⟩ := Option.map_eq_some_iff.mp h
  have hworld := reaches_world hrun
  have hcount := (step_cases hstep).archivedRows (disciplined_of_reaches hworld)
    (stored_of_reaches hworld)
  have hsweep : observeSweep api.world (.applyRetention retentionWindowDays now archiveNow) =
      [⟨result.cutoff, api.world.db.auditEvents.map AuditEvent.id, result.archivedCount⟩] := by
    simp only [observeSweep, hresult]
  rw [hsweep] at hcount
  exact hcount

end Api

/-! ## Accounts -/

section Run

variable [AddCommGroup τ] [LinearOrder τ]

/-- The rows that lines of the log have counted. -/
def loggedRows (s : Server settings τ) : Nat := (reported SecurityEvent.archived? s.lines).sum

/-- The rows that requests have archived and are about to count. -/
def unloggedRows (s : Server settings τ) : Nat := (s.calls.filterMap ServerCall.applied?).sum

omit [AddCommGroup τ] [LinearOrder τ] in
theorem applied?_enter (config : ServerSettings τ) (request : HttpRequest) (uuid : PyStr) :
    (enter config request uuid).applied? = none := by
  unfold enter
  dsimp only
  split <;> rfl

section Moves

variable {shared : Shared settings τ} {call : ServerCall τ} {tick : Tick τ}
  {handled : Handled settings τ}

omit [AddCommGroup τ] [LinearOrder τ] in
/-- Only a request in the phase after its sweep has something to count. -/
theorem applied?_of_phase {phase : Phase} (hphase : call.phase = phase)
    (hother : ∀ user result, phase ≠ .applied user result) : call.applied? = none := by
  unfold ServerCall.applied?
  rw [hphase]
  cases phase with
  | applied user result => exact absurd rfl (hother user result)
  | _ => rfl

omit [AddCommGroup τ] [LinearOrder τ] in
/-- A request that has ended has nothing left to count. -/
theorem applied?_after_of_ends (hends : handled.next.Ends) :
    (call.after tick handled).applied? = none := by
  obtain ⟨response, hanswered⟩ : ∃ response, (call.after tick handled).phase = .answered response :=
    ServerCall.phase_after_of_ends hends
  exact applied?_of_phase hanswered (by rintro _ _ ⟨⟩)

/-- A request that has nothing to count counts nothing. -/
theorem Moves.uncounted (h : Moves sha256 retentionWindowDays jwt hasher shared call tick handled)
    (hnone : call.applied? = none) : handled.events.filterMap SecurityEvent.archived? = [] := by
  rcases h.reports with ⟨-, hplain⟩ | ⟨login, -, hevents⟩ |
    ⟨-, user, session, req, result, -, -, hevents, -⟩ | ⟨-, user, result, hphase, -, -⟩
  · exact List.filterMap_eq_nil_iff.mpr fun event hevent => (hplain event hevent).archived?
  · rw [hevents]
    rfl
  · rw [hevents]
    rfl
  · unfold ServerCall.applied? at hnone
    rw [hphase] at hnone
    cases hnone

/-- **What a step archives, the request is about to count**; what it was about to count, the step
counts. -/
theorem Moves.swept (h : Moves sha256 retentionWindowDays jwt hasher shared call tick handled)
    (hcall : call.Regular)
    (hrun : Machine.Reaches (apiStep sha256 retentionWindowDays) (fun _ _ => True) .init shared.api) :
    (call.after tick handled).applied?.toList.sum +
        (handled.events.filterMap SecurityEvent.archived?).sum +
        archivedRows shared.api.world.db.auditEvents =
      call.applied?.toList.sum + archivedRows handled.shared.api.world.db.auditEvents := by
  -- All steps but the sweep and its line: nothing archived, nothing counted.
  have hquiet : call.applied? = none → (call.after tick handled).applied? = none →
      archivedRows handled.shared.api.world.db.auditEvents =
        archivedRows shared.api.world.db.auditEvents →
      (call.after tick handled).applied?.toList.sum +
          (handled.events.filterMap SecurityEvent.archived?).sum +
          archivedRows shared.api.world.db.auditEvents =
        call.applied?.toList.sum + archivedRows handled.shared.api.world.db.auditEvents := by
    intro hnone hafter hrows
    rw [h.uncounted hnone, hnone, hafter, hrows]
    rfl
  have hapi : handled.shared.api = shared.api → archivedRows handled.shared.api.world.db.auditEvents =
      archivedRows shared.api.world.db.auditEvents := fun hsame => by rw [hsame]
  unfold ServerCall.Regular at hcall
  cases h with
  | checkLogin hphase =>
    refine hquiet (applied?_of_phase hphase (by rintro _ _ ⟨⟩)) ?_ (hapi ?_) <;>
      rcases enforceLogin_cases shared call.request tick with ⟨-, h⟩ | ⟨-, h⟩ <;> rw [h] <;> rfl
  | authorize hphase h =>
    refine hquiet (applied?_of_phase hphase (by rintro _ _ ⟨⟩)) ?_
      (hapi (congrArg Shared.api (authorize_shared h)))
    cases hnext : handled.next with
    | goOn phase =>
      obtain ⟨user, token, identity, rfl, -⟩ := authorize_goOn h hnext
      exact applied?_of_phase (ServerCall.phase_after_of_goOn hnext) (by rintro _ _ ⟨⟩)
    | respond response => exact applied?_after_of_ends (by simp [hnext])
    | raised => exact applied?_after_of_ends (by simp [hnext])
  | login hphase =>
    exact hquiet (applied?_of_phase hphase (by rintro _ _ ⟨⟩))
      (applied?_after_of_ends (login_ends _ _ _ _)) (hapi (login_api _ _))
  | @checkSensitive user hphase =>
    refine hquiet (applied?_of_phase hphase (by rintro _ _ ⟨⟩)) ?_ (hapi ?_) <;>
      rcases enforceSensitive_cases shared call.request tick user with
        ⟨-, h⟩ | ⟨-, -, h⟩ | ⟨-, -, h⟩ <;> rw [h] <;> rfl
  | answer hphase _ _ hends =>
    exact hquiet (applied?_of_phase hphase (by rintro _ _ ⟨⟩)) (applied?_after_of_ends hends) rfl
  | start hphase haction hstep =>
    exact hquiet (applied?_of_phase hphase (by rintro _ _ ⟨⟩)) rfl
      (archivedRows_of_apiStep hrun hstep haction.ne_applyRetention)
  | @retain user result api hphase hendpoint hresult hstep =>
    rw [hphase] at hcall
    have hrole : user.role = .admin := by
      have hallowed := hcall.2.1
      rw [hendpoint] at hallowed
      exact List.mem_singleton.mp hallowed
    -- The sweep: the rows that it archives are what the request is about to count.
    have hrows := archivedRows_of_applyRetention hrun hrole hresult hstep
    rw [applied?_of_phase hphase (by rintro _ _ ⟨⟩), hrows]
    show [result.archivedCount].sum + [].sum + _ = [].sum + (_ + _)
    rw [List.sum_singleton, List.sum_nil]
    omega
  | advance hphase hstep =>
    refine hquiet (applied?_of_phase hphase (by rintro _ _ ⟨⟩)) rfl
      (archivedRows_of_apiStep hrun hstep ?_)
    rintro user now archiveNow ⟨⟩
  | returned hphase hends =>
    exact hquiet (applied?_of_phase hphase (by rintro _ _ ⟨⟩)) (applied?_after_of_ends hends) rfl
  | redacted hphase _ hends =>
    exact hquiet (applied?_of_phase hphase (by rintro _ _ ⟨⟩)) (applied?_after_of_ends hends) rfl
  -- The line: it counts what the request was about to count.
  | @retained user result hphase =>
    have hafter : (call.after tick (finishRetention retentionWindowDays shared user result)).applied? =
        none := applied?_after_of_ends (Next.ends_respond _)
    rw [hafter]
    unfold ServerCall.applied?
    rw [hphase]
    show [].sum + [result.archivedCount].sum + _ = [result.archivedCount].sum + _
    rw [List.sum_nil, Nat.zero_add]
    rfl

end Moves

/-! ## Runs -/

variable {s s' : Server settings τ} {action : ServerAction τ}

/-- No process stops between a sweep and its line. -/
def KeepsSweeps (s : Server settings τ) : ServerAction τ → Prop
  | .boot _ => s.calls.filterMap ServerCall.applied? = []
  | .receive _ _ | .advance _ _ | .fail _ _ | .disconnect _ _ => True

instance (s : Server settings τ) : ∀ action, Decidable (KeepsSweeps s action)
  | .boot _ => inferInstanceAs (Decidable (s.calls.filterMap ServerCall.applied? = []))
  | .receive _ _ | .advance _ _ | .fail _ _ | .disconnect _ _ => inferInstanceAs (Decidable True)

/-- **One step keeps the accounts**: what is counted and about to be counted grows as the archived
rows do, unless a process stops. -/
theorem ServerTransition.swept
    (h : ServerTransition sha256 retentionWindowDays jwt hasher s action s') (hcalls : Orderly s)
    (hrun : Machine.Reaches (apiStep sha256 retentionWindowDays) (fun _ _ => True) .init s.shared.api) :
    loggedRows s' + unloggedRows s' + archivedRows s.shared.api.world.db.auditEvents ≤
        loggedRows s + unloggedRows s + archivedRows s'.shared.api.world.db.auditEvents ∧
      (KeepsSweeps s action →
        loggedRows s' + unloggedRows s' + archivedRows s.shared.api.world.db.auditEvents =
          loggedRows s + unloggedRows s + archivedRows s'.shared.api.world.db.auditEvents) := by
  cases h with
  | boot config =>
    -- The sweeps that the old process has not logged are counted by nobody.
    have hlogged : loggedRows (.boot config s.shared.api s.shared.logins s.lines : Server settings τ) =
        loggedRows s := rfl
    have hunlogged : unloggedRows
        (.boot config s.shared.api s.shared.logins s.lines : Server settings τ) = 0 := rfl
    rw [hlogged, hunlogged]
    refine ⟨Nat.add_le_add_right (Nat.add_le_add_left (Nat.zero_le _) _) _, fun hkept => ?_⟩
    have hnothing : s.calls.filterMap ServerCall.applied? = [] := hkept
    unfold unloggedRows
    rw [hnothing]
    rfl
  | receive request uuid =>
    have hunlogged : unloggedRows { s with calls := s.calls ++ [enter s.shared.config request uuid] } =
        unloggedRows s := by
      unfold unloggedRows
      rw [List.filterMap_append, List.filterMap_cons_none (applied?_enter _ _ _), List.filterMap_nil,
        List.append_nil]
    rw [hunlogged]
    exact ⟨Nat.le_refl _, fun _ => rfl⟩
  | @move i call tick handled _ haction hcall hmove =>
    have hswept := hmove.swept (hcalls.regular call (List.mem_of_getElem? hcall)) hrun
    -- Only the request that moves has other rows to count than before.
    have hperm := Slots.filterMap_set_perm hcall ServerCall.applied? (call.after tick handled)
    have hsum := hperm.sum_nat
    rw [List.sum_append, List.sum_append] at hsum
    have hlogged : loggedRows (s.conclude i call tick handled) =
        loggedRows s + (handled.events.filterMap SecurityEvent.archived?).sum := by
      show (reported _ (s.lines ++ _)).sum = _
      rw [reported_append, reported_logged fun _ _ _ => rfl, List.sum_append]
      rfl
    have hunlogged : unloggedRows (s.conclude i call tick handled) =
        ((s.calls.set i (call.after tick handled)).filterMap ServerCall.applied?).sum := rfl
    have hbefore : unloggedRows s = (s.calls.filterMap ServerCall.applied?).sum := rfl
    have hrows : archivedRows (s.conclude i call tick handled).shared.api.world.db.auditEvents =
        archivedRows handled.shared.api.world.db.auditEvents := rfl
    rw [hlogged, hunlogged, hbefore, hrows]
    exact ⟨by omega, fun _ => by omega⟩
  | @disconnect session statement api hrollback =>
    have hrows := archivedRows_of_apiStep hrun hrollback (by rintro user now archiveNow ⟨⟩)
    have hsame : loggedRows { s with shared := { s.shared with api } } +
        unloggedRows { s with shared := { s.shared with api } } = loggedRows s + unloggedRows s := rfl
    rw [hsame, hrows]
    exact ⟨Nat.le_refl _, fun _ => rfl⟩

end Run

/-! ## A sweep after forty days -/

section Sample

/-- Forty days after the sample instant. -/
def lateInstant : DateTime := ⟨63850336497000120, 0, by decide, utc_inRange⟩

def lateTick : Tick Int := { sampleTick with now := lateInstant, archiveNow := lateInstant }

def lateClaims : Claims := (accessClaims graceAuth grace lateInstant).getD []

/-- A library that knows two tokens. -/
def twoTokens : Jwt where
  encode := fun claims _ => if claims = graceClaims then "token" else "late"
  decode := fun token key issuer audience now =>
    let claims := if token = "token" then graceClaims else lateClaims
    if key = graceAuth.secretKey ∧ ValidClaims claims issuer audience now then
      some (claims.map fun claim => (claim.1, claim.2.decoded))
    else none

/-- The user logs in again, and applies retention to the two rows. -/
def writtenAndSwept : List (ServerAction Int) :=
  loggedInAndWritten ++
    .receive { endpoint := .login "grace" "p", path := "/auth/token" } "x" ::
      List.replicate 2 (.advance 3 lateTick) ++
    .receive
      { endpoint := .applyRetention, path := "/audit/retention/apply", bearer := some "late" }
      "y" :: List.replicate 4 (.advance 4 lateTick)

end Sample

end AuditLog
