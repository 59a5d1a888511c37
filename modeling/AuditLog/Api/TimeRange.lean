import AuditLog.Api.Compliance

/-!
# Time-range filters

Both endpoints that take a `from`/`to` range normalise the two datetimes to UTC, check their
order, and select by instant. The normalisation itself fails where an instant has no UTC clock
in the years 1 to 9999.
-/

namespace AuditLog

/-! ## Normalisation -/

/-- The years 1 to 9999, on the UTC clock. -/
def InUtcYears (t : DateTime) : Prop := 0 ≤ t.instant ∧ t.instant < maxOrdinal * microsPerDay

instance (t : DateTime) : Decidable (InUtcYears t) := inferInstanceAs (Decidable (_ ∧ _))

/-- `astimezone` keeps the instant. -/
theorem astimezoneUtc_eq_some_iff {t utc : DateTime} :
    t.astimezoneUtc = some utc ↔ utc.instant = t.instant ∧ utc.utcoffset = 0 :=
  DateTime.ofInstant_eq_some_iff

/-- It fails outside the years that a `datetime` has. -/
theorem astimezoneUtc_isSome_iff {t : DateTime} : t.astimezoneUtc.isSome ↔ InUtcYears t := by
  have hclock : t.instant + 0 * 1000000 = t.instant := by omega
  unfold DateTime.astimezoneUtc DateTime.ofInstant InUtcYears
  dsimp only
  split
  · rename_i hrange
    rw [hclock] at hrange
    exact iff_of_true rfl hrange
  · rename_i hrange
    rw [hclock] at hrange
    exact iff_of_false Bool.false_ne_true hrange

/-- Only the instant matters. -/
theorem astimezoneUtc_congr {t t' : DateTime} (h : t.instant = t'.instant) :
    t.astimezoneUtc = t'.astimezoneUtc := by
  unfold DateTime.astimezoneUtc
  rw [h]

/-- Two optional datetimes that denote the same instant, if any. -/
def SameInstant (t t' : Option DateTime) : Prop := t.map DateTime.instant = t'.map DateTime.instant

/-- The parameter as the query parser delivers it. -/
def queryTime (t : Option DateTime) : Option QueryTime := t.map .aware

/-- Two spellings of one instant are normalised alike. -/
theorem requireUtc_congr {t t' : Option DateTime} (h : SameInstant t t') (fieldName : String) :
    requireUtc (queryTime t) fieldName = requireUtc (queryTime t') fieldName := by
  unfold SameInstant at h
  cases t with
  | none =>
    cases t' with
    | none => rfl
    | some t' => cases h
  | some t =>
    cases t' with
    | none => cases h
    | some t' =>
      have hutc := astimezoneUtc_congr (Option.some.inj h)
      unfold requireUtc queryTime
      simp only [Option.map_some, hutc]

/-- An instant that has a UTC clock passes as it is; any other one raises `OverflowError`. -/
theorem requireUtc_cases (t : Option DateTime) (fieldName : String) :
    ((∀ s ∈ t, InUtcYears s) ∧
        ∃ utc, requireUtc (queryTime t) fieldName = .ok utc ∧ SameInstant utc t) ∨
      ((∃ s ∈ t, ¬InUtcYears s) ∧
        requireUtc (queryTime t) fieldName = .error .overflowError) := by
  cases t with
  | none => exact Or.inl ⟨by simp, none, rfl, rfl⟩
  | some s =>
    unfold requireUtc queryTime
    simp only [Option.map_some]
    rcases hutc : s.astimezoneUtc with _ | utc
    · have hyears : ¬InUtcYears s := by
        rw [← astimezoneUtc_isSome_iff, hutc]
        exact Bool.false_ne_true
      exact Or.inr ⟨⟨s, rfl, hyears⟩, rfl⟩
    · have hyears : InUtcYears s := by
        rw [← astimezoneUtc_isSome_iff, hutc]
        rfl
      refine Or.inl ⟨by simpa using hyears, some utc, rfl, ?_⟩
      exact congrArg some (astimezoneUtc_eq_some_iff.mp hutc).1

/-! ## Refusals -/

/-- The response code; what no handler expects is answered with 500. -/
def HttpError.statusCode : HttpError → Nat
  | .requestValidation _ => 422
  | .httpException statusCode _ => statusCode
  | .overflowError => 500

/-- The request is refused with 422. -/
def Refused422 {α : Type} (r : Except HttpError α) : Prop := ∃ err, r = .error err ∧ err.statusCode = 422

/-- What follows a refusal is not run. -/
theorem Refused422.bind {α β : Type} {x : Except HttpError α} (h : Refused422 x)
    (f : α → Except HttpError β) : Refused422 (x >>= f) := by
  obtain ⟨err, rfl, hcode⟩ := h
  exact ⟨err, rfl, hcode⟩

theorem Refused422.map {α β : Type} {x : Except HttpError α} (h : Refused422 x) (f : α → β) :
    Refused422 (x.map f) := by
  obtain ⟨err, rfl, hcode⟩ := h
  exact ⟨err, rfl, hcode⟩

theorem ok_bind {ε α β : Type} {x : Except ε α} {a : α} (h : x = .ok a) (f : α → Except ε β) :
    x >>= f = f a := by
  rw [h]
  rfl

/-! ## The order of the bounds -/

/-- A range in the wrong order is refused with 422. -/
theorem validateRange_cases (startTime endTime : Option DateTime) :
    validateRange startTime endTime = .ok () ∨ Refused422 (validateRange startTime endTime) := by
  unfold validateRange
  split
  · split
    · exact Or.inr ⟨_, rfl, rfl⟩
    · exact Or.inl rfl
  · exact Or.inl rfl

/-! ## What is selected -/

/-- The row's instant lies in the closed interval of the bounds that are given. -/
def InInterval (startTime endTime : Option DateTime) (e : AuditEvent) : Bool :=
  startTime.all (fun t => t.instant ≤ e.timestamp.instant) &&
    endTime.all (fun t => e.timestamp.instant ≤ t.instant)

/-- The interval depends on the instants of its bounds only. -/
theorem inInterval_congr {s s' t t' : Option DateTime} (hs : SameInstant s s') (ht : SameInstant t t')
    (e : AuditEvent) : InInterval s t e = InInterval s' t' e := by
  have hall : ∀ {u u' : Option DateTime} (p : Int → Bool), SameInstant u u' →
      (u.all fun t => p t.instant) = u'.all fun t => p t.instant := by
    intro u u' p h
    have hmap : (u.map DateTime.instant).all p = (u'.map DateTime.instant).all p := by rw [h]
    simpa only [Option.all_map] using hmap
  unfold InInterval
  rw [hall (fun i => decide (i ≤ e.timestamp.instant)) hs,
    hall (fun i => decide (e.timestamp.instant ≤ i)) ht]

/-- What a reader is restricted to; auditors and admins see every tenant. -/
def tenantScope (user : CurrentUser) : Option PyStr :=
  if user.role = .reader then user.tenantId else none

/-- The row meets the other filters of `GET /audit/events`. -/
def MeetsListFilters (user : CurrentUser) (query : ListQuery) (e : AuditEvent) : Bool :=
  decide (e.archivedAt = none) && (tenantScope user).all (e.tenantId = ·) &&
    query.actorId.all (e.actorId = ·) && query.eventType.all (e.eventType = ·) &&
    query.resourceType.all (e.resourceType = ·) && query.resourceId.all (e.resourceId = ·)

/-- The row meets the other filters of the report. -/
def MeetsReportFilters (query : ComplianceQuery) (e : AuditEvent) : Bool :=
  query.actorId.all (e.actorId = ·) && decide (e.resourceType = ACCOUNT_RESOURCE_TYPE) &&
    query.resourceId.all (e.resourceId = ·)

theorem listEvents_eq_page (db : Database) (tenantId eventType : Option PyStr)
    (filter : Repo.EventFilter) (limit offset : Nat) :
    Repo.listEvents db tenantId eventType filter limit offset =
      ((db.auditEvents.filter fun e => decide (e.archivedAt = none) &&
        tenantId.all (e.tenantId = ·) && eventType.all (e.eventType = ·) &&
          filter.matches e).drop offset).take limit := by
  unfold Repo.listEvents Repo.EventFilter.matches
  simp only [Repo.narrow_eq_filter, List.filter_filter]
  congr 3
  funext e
  ac_rfl

/-! ## The two endpoints -/

/-- The query with this time range. -/
def ListQuery.between (query : ListQuery) (startTime endTime : Option DateTime) : ListQuery :=
  { query with startTime := queryTime startTime, endTime := queryTime endTime }

/-- The query with this time range. -/
def ComplianceQuery.between (query : ComplianceQuery) (startTime endTime : Option DateTime) :
    ComplianceQuery :=
  { query with startTime := queryTime startTime, endTime := queryTime endTime }

/-- The caller may read events: the role permits it, and a reader has a tenant. -/
def ReadsEvents (user : CurrentUser) : Prop :=
  user.role ∈ [Role.reader, .auditor, .admin] ∧ (user.role = .reader → user.tenantId ≠ none)

/-- What the endpoints owe a time range: 422, or the rows whose instants lie in the closed
interval, and the same outcome however the two instants are written. -/
structure RangeHandled (startTime endTime : Option DateTime) : Prop where
  list : ∀ (db : Database) (user : CurrentUser) (query : ListQuery), ReadsEvents user →
    let r := Routes.listAuditEvents db user (query.between startTime endTime)
    Refused422 r ∨ r = .ok ((((db.auditEvents.filter fun e =>
      MeetsListFilters user query e && InInterval startTime endTime e).drop query.offset.toNat).take
        query.limit.toNat).map AuditEvent.out)
  report : ∀ (db : Database) (user : CurrentUser) (query : ComplianceQuery),
    user.role ∈ [Role.auditor, .admin] →
    let r := Routes.getAccountAccessReport db user (.ok ()) (query.between startTime endTime)
    Refused422 r ∨ ∃ report, r = .ok report ∧ report.records = (db.auditEvents.filter fun e =>
      MeetsReportFilters query e && InInterval startTime endTime e).map AuditEvent.out
  offsets : ∀ startTime' endTime', SameInstant startTime startTime' → SameInstant endTime endTime' →
    ∀ (db : Database) (user : CurrentUser),
      (∀ query : ListQuery, Routes.listAuditEvents db user (query.between startTime endTime) =
        Routes.listAuditEvents db user (query.between startTime' endTime')) ∧
      ∀ (query : ComplianceQuery) (rateLimit : Except HttpError Unit),
        Routes.getAccountAccessReport db user rateLimit (query.between startTime endTime) =
          Routes.getAccountAccessReport db user rateLimit (query.between startTime' endTime')

/-- Parameters that fail their checks are refused with 422. -/
theorem checkParams_cases (errors : List ParamError) :
    checkParams errors = .ok () ∨ Refused422 (checkParams errors) := by
  unfold checkParams
  split
  · exact Or.inl rfl
  · exact Or.inr ⟨_, rfl, rfl⟩

theorem requireRoles_of_mem {allowedRoles : List Role} {user : CurrentUser}
    (h : user.role ∈ allowedRoles) : requireRoles allowedRoles user = .ok user :=
  if_neg (not_not.mpr h)

/-- The tenant filter is there for a reader, and only for a reader. -/
theorem readTenant_of_readsEvents {user : CurrentUser} (h : ReadsEvents user) :
    Routes.readTenant user = .ok (tenantScope user) := by
  unfold Routes.readTenant tenantScope
  split
  · rename_i hreader
    obtain ⟨tenantId, htenant⟩ := Option.ne_none_iff_exists'.mp (h.2 hreader)
    rw [htenant]
  · rfl

section Endpoints

variable {startTime endTime : Option DateTime}

/-- The other filters and the interval, as one filter of the repository. -/
theorem matches_eq_inInterval (actorId resourceType resourceId : Option PyStr) (e : AuditEvent) :
    Repo.EventFilter.matches { actorId, resourceType, resourceId, startTime, endTime } e =
      (actorId.all (e.actorId = ·) && resourceType.all (e.resourceType = ·) &&
        resourceId.all (e.resourceId = ·) && InInterval startTime endTime e) := by
  unfold Repo.EventFilter.matches InInterval
  rw [← Bool.and_assoc]
  rfl

/-- Within these years the normalisation succeeds. -/
theorem requireUtc_of_inUtcYears {t : Option DateTime} (h : ∀ s ∈ t, InUtcYears s) (fieldName : String) :
    ∃ utc, requireUtc (queryTime t) fieldName = .ok utc ∧ SameInstant utc t := by
  rcases requireUtc_cases t fieldName with ⟨-, hutc⟩ | ⟨⟨s, hs, hnot⟩, -⟩
  · exact hutc
  · exact absurd (h s hs) hnot

/-- The part that both endpoints share: normalise, check the order, go on. -/
theorem range_bind {α : Type} (hstart : ∀ t ∈ startTime, InUtcYears t)
    (hend : ∀ t ∈ endTime, InUtcYears t) (f : Option DateTime → Option DateTime → Except HttpError α) :
    let r := do
      let startTime ← requireUtc (queryTime startTime) "from"
      let endTime ← requireUtc (queryTime endTime) "to"
      validateRange startTime endTime
      f startTime endTime
    Refused422 r ∨ ∃ utcStart utcEnd, SameInstant utcStart startTime ∧ SameInstant utcEnd endTime ∧
      r = f utcStart utcEnd := by
  obtain ⟨utcStart, hutcStart, hsameStart⟩ := requireUtc_of_inUtcYears hstart "from"
  obtain ⟨utcEnd, hutcEnd, hsameEnd⟩ := requireUtc_of_inUtcYears hend "to"
  dsimp only
  rw [ok_bind hutcStart, ok_bind hutcEnd]
  rcases validateRange_cases utcStart utcEnd with hvalid | hrefused
  · exact Or.inr ⟨utcStart, utcEnd, hsameStart, hsameEnd, ok_bind hvalid _⟩
  · exact Or.inl (hrefused.bind _)

theorem listAuditEvents_handled (hstart : ∀ t ∈ startTime, InUtcYears t)
    (hend : ∀ t ∈ endTime, InUtcYears t) (db : Database) {user : CurrentUser} (query : ListQuery)
    (hreads : ReadsEvents user) :
    Refused422 (Routes.listAuditEvents db user (query.between startTime endTime)) ∨
      Routes.listAuditEvents db user (query.between startTime endTime) =
        .ok ((((db.auditEvents.filter fun e =>
          MeetsListFilters user query e && InInterval startTime endTime e).drop
            query.offset.toNat).take query.limit.toNat).map AuditEvent.out) := by
  unfold Routes.listAuditEvents Routes.listArguments ListQuery.between
  rw [ok_bind (requireRoles_of_mem hreads.1)]
  rcases checkParams_cases (intParam "limit" 1 (some MAX_LIMIT) query.limit ++
    intParam "offset" 0 none query.offset) with hparams | hrefused
  · dsimp only
    rw [ok_bind hparams]
    rcases range_bind hstart hend (fun startTime endTime => do
      let tenantId ← Routes.readTenant user
      .ok
        { tenantId
          eventType := query.eventType
          filter :=
            { actorId := query.actorId, resourceType := query.resourceType
              resourceId := query.resourceId, startTime, endTime }
          limit := query.limit.toNat
          offset := query.offset.toNat : ListArguments }) with
      hrefused | ⟨utcStart, utcEnd, hsameStart, hsameEnd, hpassed⟩
    · exact Or.inl (hrefused.map _)
    · right
      -- The query selects by the normalised bounds, which denote the same instants.
      rw [hpassed, ok_bind (readTenant_of_readsEvents hreads)]
      show Except.ok (List.map AuditEvent.out (Repo.listEvents _ _ _ _ _ _)) = _
      rw [listEvents_eq_page]
      congr 5
      funext e
      rw [matches_eq_inInterval, inInterval_congr hsameStart hsameEnd]
      unfold MeetsListFilters
      ac_rfl
  · exact Or.inl ((hrefused.bind _).map _)

theorem getAccountAccessReport_handled (hstart : ∀ t ∈ startTime, InUtcYears t)
    (hend : ∀ t ∈ endTime, InUtcYears t) (db : Database) {user : CurrentUser}
    (query : ComplianceQuery) (hrole : user.role ∈ [Role.auditor, .admin]) :
    Refused422 (Routes.getAccountAccessReport db user (.ok ()) (query.between startTime endTime)) ∨
      ∃ report, Routes.getAccountAccessReport db user (.ok ()) (query.between startTime endTime) =
        .ok report ∧ report.records = (db.auditEvents.filter fun e =>
          MeetsReportFilters query e && InInterval startTime endTime e).map AuditEvent.out := by
  unfold Routes.getAccountAccessReport ComplianceQuery.between
  rw [ok_bind (requireRoles_of_mem hrole), ok_bind rfl]
  rcases checkParams_cases (minLengthParam "actorId" query.actorId ++
    minLengthParam "resourceId" query.resourceId) with hparams | hrefused
  · dsimp only
    rw [ok_bind hparams]
    rcases range_bind hstart hend (fun startTime endTime => .ok (complianceReportOut query.actorId
      query.resourceId startTime endTime
        (accountAccessReport db query.actorId query.resourceId startTime endTime))) with
      hrefused | ⟨utcStart, utcEnd, hsameStart, hsameEnd, hpassed⟩
    · exact Or.inl hrefused
    · refine Or.inr ⟨_, hpassed, ?_⟩
      unfold complianceReportOut accountAccessReport
      rw [Repo.listEventsIncludingArchived_eq]
      dsimp only
      congr 2
      funext e
      rw [matches_eq_inInterval, inInterval_congr hsameStart hsameEnd]
      unfold MeetsReportFilters
      rw [Option.all_some]
  · exact Or.inl (hrefused.bind _)

/-- However the instants are written, the requests are answered alike. -/
theorem range_offsets {startTime' endTime' : Option DateTime}
    (hstart : SameInstant startTime startTime') (hend : SameInstant endTime endTime') (db : Database)
    (user : CurrentUser) :
    (∀ query : ListQuery, Routes.listAuditEvents db user (query.between startTime endTime) =
        Routes.listAuditEvents db user (query.between startTime' endTime')) ∧
      ∀ (query : ComplianceQuery) (rateLimit : Except HttpError Unit),
        Routes.getAccountAccessReport db user rateLimit (query.between startTime endTime) =
          Routes.getAccountAccessReport db user rateLimit (query.between startTime' endTime') := by
  constructor
  · intro query
    unfold Routes.listAuditEvents Routes.listArguments ListQuery.between
    dsimp only
    rw [requireUtc_congr hstart, requireUtc_congr hend]
  · intro query rateLimit
    unfold Routes.getAccountAccessReport ComplianceQuery.between
    dsimp only
    rw [requireUtc_congr hstart, requireUtc_congr hend]

/-- **Time ranges are handled exactly where the UTC clock stays within the years 1 to 9999**:
there every request is answered with 422 or with the rows of the closed interval, and elsewhere
an `OverflowError` escapes. -/
theorem range_handled_iff (startTime endTime : Option DateTime) :
    RangeHandled startTime endTime ↔
      (∀ t ∈ startTime, InUtcYears t) ∧ ∀ t ∈ endTime, InUtcYears t := by
  constructor
  · intro h
    -- An admin's query without other filters reaches both normalisations.
    have hlist := h.list .empty { username := "a", role := .admin, tenantId := none } {}
      ⟨by decide, by simp⟩
    have hoverflow : Routes.listAuditEvents .empty
        { username := "a", role := .admin, tenantId := none }
        (ListQuery.between {} startTime endTime) ≠ .error .overflowError := by
      intro hescapes
      rw [hescapes] at hlist
      rcases hlist with ⟨err, herr, hcode⟩ | hok
      · cases herr
        cases hcode
      · cases hok
    rcases requireUtc_cases startTime "from" with ⟨hstart, utcStart, hutcStart, -⟩ | ⟨-, hstart⟩
    · rcases requireUtc_cases endTime "to" with ⟨hend, -⟩ | ⟨-, hend⟩
      · exact ⟨hstart, hend⟩
      · refine absurd ?_ hoverflow
        unfold Routes.listAuditEvents Routes.listArguments ListQuery.between
        dsimp only
        rw [hutcStart, hend]
        rfl
    · refine absurd ?_ hoverflow
      unfold Routes.listAuditEvents Routes.listArguments ListQuery.between
      dsimp only
      rw [hstart]
      rfl
  · rintro ⟨hstart, hend⟩
    constructor
    case list => exact fun db _ query hreads => listAuditEvents_handled hstart hend db query hreads
    case report =>
      exact fun db _ query hrole => getAccountAccessReport_handled hstart hend db query hrole
    case offsets => exact fun _ _ hs ht db user => range_offsets hs ht db user

end Endpoints

/-- Midnight of `0001-01-01` east of Greenwich has no UTC clock. -/
theorem range_not_handled : ¬∀ startTime endTime, RangeHandled startTime endTime := by
  intro hclaim
  let start : DateTime := ⟨0, 3600, by decide, by decide⟩
  rcases (hclaim (some start) none).list .empty
    { username := "a", role := .admin, tenantId := none } {} ⟨by decide, by simp⟩ with
    ⟨err, herr, hcode⟩ | hok
  · cases herr
    cases hcode
  · cases hok

end AuditLog
