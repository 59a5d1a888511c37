import AuditLog.Api.Routes
import AuditLog.Concurrency.ForgedRedaction
import AuditLog.Concurrency.StoredRows

/-!
# Tenants

The system as its callers see it: requests of authenticated users, refused or handed to
a session. Every row belongs to the tenant of the user who posted it, or to the tenant
of the record whose redaction it documents; and what a reader is shown is determined by
the rows of the reader's tenant.
-/

namespace AuditLog

variable {sha256 : Bytes → PyStr} {settings : Settings}

/-! ## Requests of callers -/

/-- The state with the user behind every call. -/
structure ApiState (settings : Settings) where
  world : World settings
  callers : List CurrentUser := []
deriving DecidableEq

def ApiState.init : ApiState settings := { world := .init .empty }

/-- A request, or a step that the session of an earlier one takes. -/
inductive ApiAction (settings : Settings) where
  | createAuditEvent (user : CurrentUser) (eventIn : AuditEventCreate settings)
      (idempotencyKey : Option PyStr)
  | redactAuditEvent (user : CurrentUser) (eventId : Int) (request : RedactionRequest) (now : DateTime)
  | applyRetention (user : CurrentUser) (now archiveNow : DateTime)
  | advance (c : Nat) (now : DateTime)
  | rollback (c : Nat) (call : DbCall)
deriving DecidableEq

section Step

variable (sha256) (retentionWindowDays : Int)

/-- The action of the sessions that an accepted request starts, with its caller. -/
def ApiAction.accepted : ApiAction settings → Except HttpError (Action settings × List CurrentUser)
  | .createAuditEvent user eventIn idempotencyKey =>
    (Routes.createAuditEvent user eventIn idempotencyKey).map fun req => (.startCreate req, [user])
  | .redactAuditEvent user eventId request now =>
    (Routes.redactAuditEvent user eventId request now).map fun req => (.startRedact req, [user])
  | .applyRetention user now archiveNow =>
    (Routes.applyRetention user).map fun _ =>
      (.applyRetention retentionWindowDays now archiveNow, [])
  | .advance c now => .ok (.advance c now, [])
  | .rollback c call => .ok (.rollback c call, [])

/-- One step; a refused request changes nothing. -/
def apiStep (action : ApiAction settings) (s : ApiState settings) : Option (ApiState settings) :=
  match action.accepted retentionWindowDays with
  | .error _ => some s
  | .ok (started, callers) =>
    (step sha256 started s.world).map fun world => { world, callers := s.callers ++ callers }

end Step

variable {retentionWindowDays : Int} {s s' : ApiState settings}

theorem apiStep_cases {action : ApiAction settings}
    (h : apiStep sha256 retentionWindowDays action s = some s') :
    s' = s ∨ ∃ started callers, action.accepted retentionWindowDays = .ok (started, callers) ∧
      step sha256 started s.world = some s'.world ∧ s'.callers = s.callers ++ callers := by
  unfold apiStep at h
  split at h
  · exact Or.inl (Option.some.inj h).symm
  · rename_i started callers haccepted
    obtain ⟨world, hstep, rfl⟩ := Option.map_eq_some_iff.mp h
    exact Or.inr ⟨started, callers, haccepted, hstep, rfl⟩

/-- The sessions of the system are a run of the sessions. -/
theorem reaches_world
    (h : Machine.Reaches (apiStep sha256 retentionWindowDays) (fun _ _ => True) .init s) :
    Machine.Reaches (step sha256) (fun _ _ => True) (.init .empty) s.world := by
  refine h.simulate ApiState.world fun s t action _ hstep => ?_
  rcases apiStep_cases hstep with rfl | ⟨started, callers, -, hstep, -⟩
  · exact Or.inl rfl
  · exact Or.inr ⟨started, trivial, hstep⟩

/-! ## Who asked -/

/-- What the call was asked to do; no step changes it. -/
def Call.request : Call settings → CreateRequest settings ⊕ RedactRequest
  | .create req _ => .inl req
  | .redact req _ => .inr req

/-- The requests that the action starts a call for. -/
def Action.requests : Action settings → List (CreateRequest settings ⊕ RedactRequest)
  | .startCreate req => [.inl req]
  | .startRedact req => [.inr req]
  | _ => []

/-- The route has accepted the request of this user. -/
def Admitted : CreateRequest settings ⊕ RedactRequest → CurrentUser → Prop
  | .inl req, user => user.tenantId = some req.tenantId ∧ req.requestedBy = some user.username ∧
      user.role ∈ [Role.writer, .admin]
  | .inr req, user => req.actorId = user.username ∧ user.role = .admin

theorem Call.request_resume (call : Call settings) (phase : AppendPhase) :
    (call.resume sha256 phase).request = call.request := by
  rcases call with ⟨req, p⟩ | ⟨req, p⟩
  · rfl
  · cases p <;> rfl

theorem Call.request_raised (call : Call settings) (err : ServiceError) :
    (call.raised err).request = call.request := by
  cases call <;> rfl

theorem map_set_of_eq {α β : Type} (f : α → β) {as : List α} {c : Nat} {old new : α}
    (hold : as[c]? = some old) (h : f new = f old) : (as.set c new).map f = as.map f := by
  rw [List.map_set, h]
  refine List.ext_getElem? fun d => ?_
  by_cases hdc : d = c
  · subst hdc
    rw [List.getElem?_map, hold]
    exact (getElem?_set_some (by rw [List.getElem?_map, hold]; rfl)).mpr (Or.inl ⟨rfl, rfl⟩)
  · rw [List.getElem?_set_ne (Ne.symm hdc)]

/-- The calls keep their requests, and new calls come last. -/
theorem Transition.requests {w w' : World settings} {action : Action settings}
    (h : Transition sha256 w action w') :
    w'.calls.map Call.request = w.calls.map Call.request ++ action.requests := by
  cases h with
  | create req => exact List.map_append
  | redact req => exact List.map_append
  | append hcall happend hmove =>
    rw [show (Action.advance _ _ : Action settings).requests = [] from rfl, List.append_nil]
    exact map_set_of_eq _ hcall (Call.request_resume _ _)
  | redaction hcall hmove =>
    rw [show (Action.advance _ _ : Action settings).requests = [] from rfl, List.append_nil]
    exact map_set_of_eq _ hcall rfl
  | rollback statement hcall hrunning =>
    rw [show (Action.rollback _ _ : Action settings).requests = [] from rfl, List.append_nil]
    exact map_set_of_eq _ hcall (Call.request_raised _ _)
  | retention days now archiveNow => exact (List.append_nil _).symm

/-- An accepted request is admitted for its caller. -/
theorem ApiAction.admitted {action : ApiAction settings} {started : Action settings}
    {callers : List CurrentUser} (h : action.accepted retentionWindowDays = .ok (started, callers)) :
    List.Forall₂ Admitted started.requests callers := by
  cases action with
  | createAuditEvent user eventIn idempotencyKey =>
    obtain ⟨req, hreq, heq⟩ := map_eq_ok_iff.mp h
    cases heq
    exact .cons (Routes.createAuditEvent_ok hreq) .nil
  | redactAuditEvent user eventId request now =>
    obtain ⟨req, hreq, heq⟩ := map_eq_ok_iff.mp h
    cases heq
    exact .cons (Routes.redactAuditEvent_ok hreq).2 .nil
  | applyRetention user now archiveNow =>
    obtain ⟨_, -, heq⟩ := map_eq_ok_iff.mp h
    cases heq
    exact .nil
  | advance c now =>
    cases h
    exact .nil
  | rollback c call =>
    cases h
    exact .nil

/-- Every call of the system was admitted for its caller. -/
theorem admitted_of_reaches
    (h : Machine.Reaches (apiStep sha256 retentionWindowDays) (fun _ _ => True) .init s) :
    List.Forall₂ Admitted (s.world.calls.map Call.request) s.callers := by
  refine h.invariant (P := fun s => List.Forall₂ Admitted (s.world.calls.map Call.request) s.callers)
    .nil fun t u action run _ hstep ht => ?_
  rcases apiStep_cases hstep with rfl | ⟨started, callers, haccepted, hstep, hcallers⟩
  · exact ht
  · rw [(step_cases hstep).requests, hcallers]
    exact List.rel_append ht (ApiAction.admitted haccepted)

/-! ## The tenant of a row -/

/-- The tenant that the request writes for: its own, or that of the record it redacts. -/
def WritesFor (history : List AuditEvent) (tenantId : PyStr) :
    CreateRequest settings ⊕ RedactRequest → Prop
  | .inl req => req.tenantId = tenantId
  | .inr req => ∃ target ∈ history, target.id = req.eventId ∧ target.tenantId = tenantId

theorem WritesFor.mono {history history' : List AuditEvent} {tenantId : PyStr}
    {request : CreateRequest settings ⊕ RedactRequest} (h : WritesFor history tenantId request)
    (hsub : history ⊆ history') : WritesFor history' tenantId request := by
  cases request with
  | inl req => exact h
  | inr req =>
    obtain ⟨target, htarget, hfor⟩ := h
    exact ⟨target, hsub htarget, hfor⟩

/-- Every event was committed for the tenant that its call writes for. -/
def TenantsOk (w : World settings) : Prop :=
  ∀ a ∈ w.log, ∃ call, w.calls[a.call]? = some call ∧
    WritesFor w.history a.event.tenantId call.request

/-- What an append is about to write is for the tenant that its call writes for. -/
theorem Stored.writesFor {w : World settings} (h : Stored sha256 w) {c : Nat} {call : Call settings}
    {create : CreateRequest settings} {phase : AppendPhase} (hcall : w.calls[c]? = some call)
    (happend : call.append? = some (create, phase)) :
    WritesFor w.history create.tenantId call.request := by
  rcases call with ⟨req, append⟩ | ⟨req, redact⟩
  · cases happend
    rfl
  · cases redact with
    | appending event updated body append =>
      cases happend
      -- The companion takes the tenant of the row that the call read.
      obtain ⟨created, hcreated, hid, hrow⟩ :=
        (h.calls _ (List.mem_of_getElem? hcall)).read req _ event rfl rfl
      exact ⟨created, hcreated, hid, hrow.retouched.tenantId.symm⟩
    | _ => cases happend

theorem TenantsOk.step {w w' : World settings} {action : Action settings} (h : TenantsOk w)
    (hd : Disciplined sha256 w) (hs : Stored sha256 w) (hstep : Transition sha256 w action w') :
    TenantsOk w' := by
  have hkeeps : ∀ {c : Nat} {call : Call settings}, w.calls[c]? = some call →
      ∃ call', w'.calls[c]? = some call' ∧ call'.request = call.request := fun hcall =>
    hstep.keeps Call.request Call.request_resume (fun _ _ _ => rfl) Call.request_raised hcall
  intro a ha
  have hbefore : ∃ call, w.calls[a.call]? = some call ∧
      WritesFor w.history a.event.tenantId call.request := by
    rcases hstep.mem_log hd ha with ha | ⟨call, create, record, hcall, happend, hstaged⟩
    · exact h a ha
    · refine ⟨call, hcall, ?_⟩
      rw [hstaged.tenantId]
      exact hs.writesFor hcall happend
  obtain ⟨call, hcall, hfor⟩ := hbefore
  obtain ⟨call', hcall', hsame⟩ := hkeeps hcall
  refine ⟨call', hcall', ?_⟩
  rw [hsame]
  exact hfor.mono hstep.history_subset

theorem tenantsOk_of_reaches {w : World settings}
    (h : Machine.Reaches (AuditLog.step sha256) (fun _ _ => True) (.init .empty) w) : TenantsOk w :=
  h.invariant (fun a ha => by cases ha) fun _ _ _ run _ hstep ht =>
    ht.step (disciplined_of_reaches run) (stored_of_reaches run) (step_cases hstep)

/-! ## Isolation -/

/-- The row was appended by a `POST` of a user whose tenant it has. -/
def PostedByTenant (s : ApiState settings) (e : AuditEvent) : Prop :=
  ∃ a ∈ s.world.log, a.event.id = e.id ∧ ∃ req phase user,
    s.world.calls[a.call]? = some (.create req phase) ∧ s.callers[a.call]? = some user ∧
      user.tenantId = some e.tenantId

/-- The row was appended by a redaction, and has the tenant of the record it targets. -/
def CompanionOfTenant (s : ApiState settings) (e : AuditEvent) : Prop :=
  ∃ a ∈ s.world.log, a.event.id = e.id ∧ ∃ req phase,
    s.world.calls[a.call]? = some (.redact req phase) ∧
      ∃ target ∈ s.world.db.auditEvents, target.id = req.eventId ∧ target.tenantId = e.tenantId

theorem exists_of_forall₂_getElem? {α β : Type} {R : α → β → Prop} {as : List α} {bs : List β}
    (h : List.Forall₂ R as bs) {i : Nat} {a : α} (ha : as[i]? = some a) :
    ∃ b, bs[i]? = some b ∧ R a b := by
  induction h generalizing i with
  | nil => cases ha
  | cons hab _ ih =>
    cases i with
    | zero =>
      cases ha
      exact ⟨_, rfl, hab⟩
    | succ i => exact ih ha

/-- **Rows have the tenant of their author.** -/
theorem posted_or_companion
    (h : Machine.Reaches (apiStep sha256 retentionWindowDays) (fun _ _ => True) .init s)
    {e : AuditEvent} (he : e ∈ s.world.db.auditEvents) :
    PostedByTenant s e ∨ CompanionOfTenant s e := by
  have hworld := reaches_world h
  have hrows := (historyOk_of_reaches hworld).rows
  obtain ⟨event, hevent, hretouched⟩ := HashChain.exists_of_forall₂_right hrows he
  obtain ⟨a, ha, rfl⟩ := List.mem_map.mp hevent
  obtain ⟨call, hcall, hfor⟩ := tenantsOk_of_reaches hworld a ha
  rw [← hretouched.tenantId] at hfor
  cases call with
  | create req phase =>
    have hrequest : (s.world.calls.map Call.request)[a.call]? = some (.inl req) := by
      rw [List.getElem?_map, hcall]
      rfl
    obtain ⟨user, huser, htenant, -⟩ :=
      exists_of_forall₂_getElem? (admitted_of_reaches h) hrequest
    refine Or.inl ⟨a, ha, hretouched.id.symm, req, phase, user, hcall, huser, ?_⟩
    rw [htenant]
    exact congrArg some hfor
  | redact req phase =>
    -- The record is still there, with the tenant it was created with.
    obtain ⟨created, hcreated, hid, htenant⟩ := hfor
    obtain ⟨target, htarget, hsame⟩ := HashChain.exists_of_forall₂_right hrows.flip hcreated
    have hkept : Retouched created target := hsame
    exact Or.inr ⟨a, ha, hretouched.id.symm, req, phase, hcall, target, htarget,
      hkept.id.trans hid, hkept.tenantId.trans htenant⟩

/-- **Other tenants do not show.** Databases with the same rows of a tenant give its
readers the same answer. -/
theorem listAuditEvents_eq_of_same_tenant {tenantId : PyStr} {db db' : Database}
    (hrows : ∀ e : AuditEvent, e.tenantId = tenantId → (e ∈ db.auditEvents ↔ e ∈ db'.auditEvents))
    {user : CurrentUser} (hreader : user.role = .reader) (htenant : user.tenantId = some tenantId)
    (query : ListQuery) : Routes.listAuditEvents db user query = Routes.listAuditEvents db' user query := by
  have hsame : (db.auditEvents.filter fun e => e.tenantId = tenantId) =
      db'.auditEvents.filter fun e => e.tenantId = tenantId := by
    refine Table.eq_of_mem_iff (db.ordered.filter _) (db'.ordered.filter _) fun e => ?_
    simp only [List.mem_filter, decide_eq_true_eq]
    exact and_congr_left (hrows e)
  unfold Routes.listAuditEvents
  cases harguments : Routes.listArguments user query with
  | error err => rfl
  | ok arguments =>
    have hrestricted := Routes.listArguments_reader harguments hreader
    rw [htenant] at hrestricted
    have hpage : Repo.listEvents db arguments.tenantId arguments.eventType arguments.filter
          arguments.limit arguments.offset =
        Repo.listEvents db' arguments.tenantId arguments.eventType arguments.filter
          arguments.limit arguments.offset := by
      rw [hrestricted, listEvents_tenant, listEvents_tenant, hsame]
    exact congrArg (fun page => Except.ok (page.map AuditEvent.out)) hpage

/-- What a reader is shown is the reader's. -/
theorem tenantId_of_mem_listAuditEvents {tenantId : PyStr} {db : Database} {user : CurrentUser}
    (hreader : user.role = .reader) (htenant : user.tenantId = some tenantId) {query : ListQuery}
    {events : List AuditEventOut} (h : Routes.listAuditEvents db user query = .ok events) :
    ∀ event ∈ events, event.tenantId = tenantId := by
  obtain ⟨arguments, harguments, rfl⟩ := map_eq_ok_iff.mp h
  have hrestricted := Routes.listArguments_reader harguments hreader
  rw [htenant] at hrestricted
  intro event hevent
  obtain ⟨e, he, rfl⟩ := List.mem_map.mp hevent
  rw [hrestricted, listEvents_tenant] at he
  have hfiltered := List.mem_filter.mp (List.mem_of_mem_drop (List.mem_of_mem_take he))
  have howned := (List.mem_filter.mp hfiltered.1).2
  exact of_decide_eq_true howned

/-- **Tenant isolation.** In every state that requests reach, each row has the tenant of
the user who posted it, or, appended by a redaction, of the record it targets; and a
reader's answer is determined by the rows of the reader's tenant, and shows only these. -/
theorem tenants_isolated (sha256 : Bytes → PyStr) (settings : Settings) (retentionWindowDays : Int) :
    (∀ s : ApiState settings,
      Machine.Reaches (apiStep sha256 retentionWindowDays) (fun _ _ => True) .init s →
        ∀ e ∈ s.world.db.auditEvents, PostedByTenant s e ∨ CompanionOfTenant s e) ∧
    ∀ (tenantId : PyStr) (db db' : Database),
      (∀ e : AuditEvent, e.tenantId = tenantId → (e ∈ db.auditEvents ↔ e ∈ db'.auditEvents)) →
      ∀ user : CurrentUser, user.role = .reader → user.tenantId = some tenantId →
        ∀ query : ListQuery,
          Routes.listAuditEvents db user query = Routes.listAuditEvents db' user query ∧
          ∀ events, Routes.listAuditEvents db user query = .ok events →
            ∀ event ∈ events, event.tenantId = tenantId := by
  constructor
  · intro s hs e he
    exact posted_or_companion hs he
  · intro tenantId db db' hrows user hreader htenant query
    exact ⟨listAuditEvents_eq_of_same_tenant hrows hreader htenant query,
      fun events hevents => tenantId_of_mem_listAuditEvents hreader htenant hevents⟩

/-- An admin of tenant `t` posts the sample event and redacts it; a reader may not. -/
def postedAndRedacted : List (ApiAction {}) :=
  .createAuditEvent ⟨"a", .admin, some "t"⟩ .sample none ::
    (List.replicate 7 (.advance 0 .sample) ++
      .redactAuditEvent ⟨"r", .reader, some "t"⟩ 1 { fields := ["x"], nonempty := by decide } .sample ::
      .redactAuditEvent ⟨"a", .admin, none⟩ 1 { fields := ["x"], nonempty := by decide } .sample ::
        List.replicate 10 (.advance 1 .sample))

/-- A reader of tenant `u` cannot tell the table with these rows from the empty one. -/
theorem tenants_isolated_postedAndRedacted :
    ∃ s : ApiState {}, Machine.schedule (apiStep Sha256.hexdigest 30) (fun _ _ => True)
        postedAndRedacted .init = some s ∧ s.world.db.auditEvents.length = 2 ∧
      (∀ e ∈ s.world.db.auditEvents, PostedByTenant s e ∨ CompanionOfTenant s e) ∧
      Routes.listAuditEvents s.world.db ⟨"r", .reader, some "u"⟩ {} =
        Routes.listAuditEvents .empty ⟨"r", .reader, some "u"⟩ {} := by
  have hrun : ∃ s ∈ Machine.schedule (apiStep Sha256.hexdigest 30) (fun _ _ => True)
      postedAndRedacted .init, s.world.db.auditEvents.length = 2 ∧
        ∀ e ∈ s.world.db.auditEvents, e.tenantId ≠ "u" := by
    decide +kernel
  obtain ⟨s, hs, hlength, hothers⟩ := hrun
  obtain ⟨hauthors, hreaders⟩ := tenants_isolated Sha256.hexdigest {} 30
  refine ⟨s, hs, hlength, hauthors s (Machine.reaches_of_schedule hs), ?_⟩
  refine (hreaders "u" s.world.db .empty ?_ _ rfl rfl {}).1
  intro e htenant
  exact iff_of_false (fun he => hothers e he htenant) List.not_mem_nil

end AuditLog
