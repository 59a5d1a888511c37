import AuditLog.Api.Paging
import AuditLog.Api.SecurityTrail
import AuditLog.Concurrency.RowVersions

/-!
# Answers that agree

Whatever clients are told about a record, they are told the same: two answers of one
history, however far apart, show the same hash, the same content and the same payload keys of
it, and the same value of each field unless one of them shows the marker there
(`answers_agree`). Archival and what is said about redactions may differ. An export or a
report is the beginning of every later one with the same filter, so an old manifest can be
checked against a new export.
-/

namespace AuditLog

variable {τ : Type} {settings : Settings} {sha256 : Bytes → PyStr} {retentionWindowDays : Int}
  {jwt : Jwt} {hasher : PasswordHasher}

/-! ## What an answer shows -/

/-- The record shows the marker of redacted fields in the field. -/
def AuditEventOut.Hides (record : AuditEventOut) (f : PyStr) : Prop :=
  record.payload.get? f = some (.str REDACTED_MARKER)

namespace Response

/-- The records that an answer shows. -/
def records : Response → List AuditEventOut
  | .event record => [record]
  | .events page => page
  | .bundle exported => exported.records
  | .report found => found.records
  | .token _ | .verification _ | .redaction _ | .retention _ | .refused _ | .internalError => []

/-- The filter of an answer that shows archived records as well, and what it shows. -/
def fullHistory? : Response → Option (Repo.EventFilter × List AuditEventOut)
  | .bundle exported =>
    some ({ actorId := exported.filter.actorId
            resourceId := exported.filter.resourceId }, exported.records)
  | .report found =>
    some ({ actorId := found.filter.actorId
            resourceType := some found.resourceType
            resourceId := found.filter.resourceId
            startTime := found.filter.startTime
            endTime := found.filter.endTime }, found.records)
  | _ => none

end Response

/-- Both are showings of one record. -/
structure SameOut (a b : AuditEventOut) : Prop where
  eventHash : b.eventHash = a.eventHash
  content : b.toEventContent = { a.toEventContent with payload := b.payload }
  keys : ∀ f, b.payload.contains f = a.payload.contains f
  payload : ∀ f, ¬ a.Hides f → ¬ b.Hides f → b.payload.get? f = a.payload.get? f

/-- The later showing of the record is still archived, and still marked as redacted. -/
structure ShownAgain (a b : AuditEventOut) : Prop extends SameOut a b where
  id : b.id = a.id
  archivedAt : a.archivedAt ≠ none → b.archivedAt = a.archivedAt
  redactedAt : a.redactedAt ≠ none → b.redactedAt ≠ none

variable (sha256) in
/-- What an answer says of the records, and what a later one says of them. -/
structure Response.Agrees (earlier later : Response) : Prop where
  records : ∀ a ∈ earlier.records, ∀ b ∈ later.records, b.id = a.id → SameOut a b
  history : ∀ filter as bs, earlier.fullHistory? = some (filter, as) →
    later.fullHistory? = some (filter, bs) → List.Forall₂ ShownAgain as (bs.take as.length)
  manifest : ∀ bundle bundle', earlier = .bundle bundle → later = .bundle bundle' →
    bundle'.filter = bundle.filter →
    manifestHashOf sha256 (bundle'.records.take bundle.recordCount) = bundle.manifestHash

/-! ## Answers and the table -/

section World

variable {w w' : World settings} {action : Action settings}

variable (sha256) in
/-- What the response shows has just been read, or is what a create has returned. -/
structure Response.ReadFrom (w : World settings) (response : Response) : Prop where
  records : ∀ record ∈ response.records, ∃ e, record = e.out ∧
    (e ∈ w.db.auditEvents ∨ ∃ req, Call.create req (.ended (.ok e)) ∈ w.calls)
  history : ∀ filter records, response.fullHistory? = some (filter, records) →
    records = (w.db.auditEvents.filter filter.matches).map AuditEvent.out
  manifest : ∀ bundle, response = .bundle bundle → bundle.recordCount = bundle.records.length ∧
    manifestHashOf sha256 bundle.records = bundle.manifestHash

/-- An answer that shows no records. -/
theorem readFrom_of_no_records {response : Response} (hrecords : response.records = [])
    (hhistory : response.fullHistory? = none) : response.ReadFrom sha256 w where
  records := fun record hrecord => by
    rw [hrecords] at hrecord
    cases hrecord
  history := fun filter records h => by
    rw [hhistory] at h
    cases h
  manifest := by
    rintro bundle rfl
    cases hhistory

/-- The record shows a version of the committed row. -/
structure Shows (created : AuditEvent) (record : AuditEventOut) : Prop where
  id : record.id = created.id
  eventHash : record.eventHash = created.eventHash
  content : record.toEventContent = { created.toEventContent with payload := record.payload }
  keys : ∀ f, record.payload.contains f = created.payload.contains f
  payload : ∀ f, ¬ record.Hides f → record.payload.get? f = created.payload.get? f

/-- Two showings of one committed row are showings of one record. -/
theorem Shows.sameRecord {created : AuditEvent} {a b : AuditEventOut} (ha : Shows created a)
    (hb : Shows created b) : SameOut a b where
  eventHash := hb.eventHash.trans ha.eventHash.symm
  content := by rw [hb.content, ha.content]
  keys := fun f => (hb.keys f).trans (ha.keys f).symm
  payload := fun f hfa hfb => (hb.payload f hfb).trans (ha.payload f hfa).symm

/-- A version of a row is shown as a showing of the row. -/
theorem shows_out {created e : AuditEvent} (h : RedactedFrom sha256 created e)
    (hkeys : SameKeys created e) : Shows created e.out where
  id := h.retouched.id
  eventHash := h.retouched.eventHash
  content := by
    have hretouched := h.retouched
    unfold Retouched at hretouched
    show e.toEventContent = { created.toEventContent with payload := e.payload }
    rw [hretouched]
  keys := hkeys
  payload := fun f hf => by
    have hvalue := h.payload f
    split at hvalue
    · exact absurd hvalue hf
    · exact hvalue

/-- A record that was shown, and the row that is there now. -/
def StillThere (record : AuditEventOut) (row : AuditEvent) : Prop :=
  ∃ e : AuditEvent, record = e.out ∧ Continues e row

/-- The row as it is now shows the record again. -/
theorem StillThere.shownAgain {record : AuditEventOut} {row : AuditEvent} (h : StillThere record row)
    (hsame : SameOut record row.out) : ShownAgain record row.out := by
  obtain ⟨e, rfl, hrow⟩ := h
  exact { hsame with
    id := hrow.retouched.id, archivedAt := hrow.archivedAt, redactedAt := hrow.redactedAt }

/-- No filter looks at what changes. -/
theorem matches_of_retouched (filter : Repo.EventFilter) {a b : AuditEvent} (h : Retouched a b) :
    filter.matches b = filter.matches a := by
  unfold Retouched at h
  rw [h]
  rfl

variable (sha256) in
/-- What was shown is what was committed; the rows of an export or a report are still there,
before all others that meet its filter; the answers agree. -/
structure Attested (w : World settings) (given : List Response) : Prop where
  shown : ∀ response ∈ given, ∀ record ∈ response.records, ∃ created ∈ w.history, Shows created record
  kept : ∀ response ∈ given, ∀ filter records, response.fullHistory? = some (filter, records) →
    List.Forall₂ StillThere records
      ((w.db.auditEvents.filter filter.matches).take records.length)
  manifest : ∀ bundle, Response.bundle bundle ∈ given → bundle.recordCount = bundle.records.length ∧
    manifestHashOf sha256 bundle.records = bundle.manifestHash
  agree : given.Pairwise (Response.Agrees sha256)

/-- The rows at the beginning of a query stay at its beginning. -/
theorem StillThere.step {records : List AuditEventOut} {filter : Repo.EventFilter}
    (h : List.Forall₂ StillThere records
      ((w.db.auditEvents.filter filter.matches).take records.length))
    (hd : Disciplined sha256 w) (hstep : Transition sha256 w action w') :
    List.Forall₂ StillThere records
      ((w'.db.auditEvents.filter filter.matches).take records.length) := by
  -- The rows that a filter has found continue in their places, and new ones come behind them.
  obtain ⟨kept, added, hrows, hkept⟩ := hstep.continues hd
  have hquery : List.Forall₂ Continues (w.db.auditEvents.filter filter.matches)
      (kept.filter filter.matches) :=
    List.rel_filter (fun a b hab => by
      show filter.matches a = true ↔ filter.matches b = true
      rw [matches_of_retouched filter hab.retouched]) hkept
  have hlength : records.length ≤ (kept.filter filter.matches).length := by
    have hall := h.length_eq
    rw [List.length_take] at hall
    rw [← hquery.length_eq]
    omega
  rw [hrows, List.filter_append, List.take_append_of_le_length hlength]
  have hnow := List.forall₂_take records.length hquery
  -- One showing after the other: the row continues, and so does what was shown of it.
  rw [List.forall₂_iff_get] at h hnow ⊢
  refine ⟨h.1.trans hnow.1, fun i hi hi' => ?_⟩
  have hmiddle : i < ((w.db.auditEvents.filter filter.matches).take records.length).length :=
    h.1 ▸ hi
  obtain ⟨e, he, hcontinues⟩ := h.2 i hi hmiddle
  exact ⟨e, he, hcontinues.trans (hnow.2 i hmiddle hi')⟩

/-- One step of the sessions: what was shown is still there. -/
theorem Attested.step {given : List Response} (h : Attested sha256 w given)
    (hd : Disciplined sha256 w) (hstep : Transition sha256 w action w') :
    Attested sha256 w' given where
  shown := fun response hresponse record hrecord =>
    (h.shown response hresponse record hrecord).imp fun _ hcreated =>
      ⟨hstep.history_subset hcreated.1, hcreated.2⟩
  kept := fun response hresponse filter records hrecords =>
    StillThere.step (h.kept response hresponse filter records hrecords) hd hstep
  manifest := h.manifest
  agree := h.agree

/-- The records of an export or a report are all that it shows. -/
theorem Response.records_of_fullHistory {response : Response} {filter : Repo.EventFilter}
    {records : List AuditEventOut} (h : response.fullHistory? = some (filter, records)) :
    response.records = records := by
  cases response <;> cases h <;> rfl

/-- The manifest hashes ids and event hashes, which no redaction changes. -/
theorem manifestHashOf_congr {as bs : List AuditEventOut} (h : List.Forall₂ ShownAgain as bs) :
    manifestHashOf sha256 bs = manifestHashOf sha256 as := by
  have hentries : bs.map (fun r => manifestEntry r.id r.eventHash) =
      as.map fun r => manifestEntry r.id r.eventHash := by
    induction h with
    | nil => rfl
    | cons hab _ ih => rw [List.map_cons, List.map_cons, ih, hab.id, hab.eventHash]
  unfold manifestHashOf
  rw [hentries]

/-- **A new answer agrees with the earlier ones.** -/
theorem Attested.agrees {given : List Response} (h : Attested sha256 w given)
    (hs : Stored sha256 w) {response : Response} (hread : response.ReadFrom sha256 w)
    (hshown : ∀ record ∈ response.records, ∃ created ∈ w.history, Shows created record)
    {earlier : Response} (hearlier : earlier ∈ given) : earlier.Agrees sha256 response := by
  have hrecords : ∀ a ∈ earlier.records, ∀ b ∈ response.records, b.id = a.id → SameOut a b := by
    intro a ha b hb hid
    obtain ⟨created, hcreated, hshows⟩ := h.shown earlier hearlier a ha
    obtain ⟨created', hcreated', hshows'⟩ := hshown b hb
    obtain rfl := hs.eq_of_id_eq hcreated' hcreated (by rw [← hshows'.id, hid, hshows.id])
    exact hshows.sameRecord hshows'
  have hhistory : ∀ filter as bs, earlier.fullHistory? = some (filter, as) →
      response.fullHistory? = some (filter, bs) →
      List.Forall₂ ShownAgain as (bs.take as.length) := by
    intro filter as bs has hbs
    have hkept := h.kept earlier hearlier filter as has
    rw [hread.history filter bs hbs, ← List.map_take, List.forall₂_map_right_iff]
    rw [List.forall₂_iff_zip] at hkept ⊢
    refine ⟨hkept.1, fun {a row} hpair => ?_⟩
    have hthere : StillThere a row := hkept.2 hpair
    refine hthere.shownAgain (hrecords a ?_ row.out ?_ ?_)
    · rw [Response.records_of_fullHistory has]
      exact (List.of_mem_zip hpair).1
    · rw [Response.records_of_fullHistory hbs, hread.history filter bs hbs]
      exact List.mem_map_of_mem (List.mem_of_mem_take (List.of_mem_zip hpair).2)
    · obtain ⟨e, rfl, hrow⟩ := hthere
      exact hrow.retouched.id
  refine ⟨hrecords, hhistory, ?_⟩
  rintro bundle bundle' rfl rfl hfilter
  obtain ⟨hcount, hmanifest⟩ := h.manifest bundle hearlier
  have hsame := hhistory _ bundle.records bundle'.records rfl (by rw [← hfilter]; rfl)
  rw [hcount, manifestHashOf_congr hsame, hmanifest]

/-- One more answer, which shows the table as it is. -/
theorem Attested.answer {given : List Response} (h : Attested sha256 w given)
    {ok : World settings → Action settings → Prop}
    (hw : Machine.Reaches (AuditLog.step sha256) ok (.init .empty) w) {response : Response}
    (hread : response.ReadFrom sha256 w) : Attested sha256 w (given ++ [response]) := by
  have hshown : ∀ record ∈ response.records, ∃ created ∈ w.history, Shows created record := by
    intro record hrecord
    -- Read from the table or returned by a create, the row is a version of a committed one.
    obtain ⟨e, rfl, hread⟩ := hread.records record hrecord
    have hversion : IsVersion sha256 w e := by
      rcases hread with hrow | ⟨req, hcall⟩
      · exact isVersion_of_reaches hw hrow
      · exact returnsVersions_of_reaches hw req e hcall
    exact hversion.imp fun _ hcreated => ⟨hcreated.1, shows_out hcreated.2.1 hcreated.2.2⟩
  constructor
  · intro r hr
    rcases List.mem_append.mp hr with hr | hr
    · exact h.shown r hr
    · rw [List.mem_singleton.mp hr]
      exact hshown
  · intro r hr filter records hrecords
    rcases List.mem_append.mp hr with hr | hr
    · exact h.kept r hr filter records hrecords
    · rw [List.mem_singleton.mp hr] at hrecords
      rw [hread.history filter records hrecords, List.length_map, List.take_length,
        List.forall₂_map_left_iff]
      exact List.forall₂_same.mpr fun e _ => ⟨e, rfl, Continues.refl e⟩
  · intro bundle hbundle
    rcases List.mem_append.mp hbundle with hbundle | hbundle
    · exact h.manifest bundle hbundle
    · exact hread.manifest bundle (List.mem_singleton.mp hbundle).symm
  -- The earlier answers agree with each other, and the new one with each of them.
  · refine List.pairwise_append.mpr ⟨h.agree, List.pairwise_singleton _ _, ?_⟩
    intro earlier hearlier later hlater
    rw [List.mem_singleton.mp hlater]
    exact h.agrees (stored_of_reaches hw) hread hshown hearlier

end World

/-! ## What a request is answered -/

section Steps

variable {shared : Shared settings τ} {request : HttpRequest} {tick : Tick τ}
  {handled : Handled settings τ} {user : CurrentUser}

variable (sha256) in
/-- What the step answers, it has read from the world. -/
def Handled.ReadsFrom (w : World settings) (handled : Handled settings τ) : Prop :=
  ∀ response, handled.next = .respond response → response.ReadFrom sha256 w

/-- A step that goes on answers nothing. -/
theorem readsFrom_goOn {w : World settings} {events : List SecurityEvent} {effects : List Effect}
    {checkedAt : Option τ} {phase : Phase} : Handled.ReadsFrom sha256 w
      { shared, events, effects, checkedAt, next := .goOn phase } := by
  rintro response ⟨⟩

/-- A step that raises answers nothing itself. -/
theorem readsFrom_raised {w : World settings} {events : List SecurityEvent} {effects : List Effect} :
    Handled.ReadsFrom sha256 w { shared, events, effects, next := .raised } := by
  rintro response ⟨⟩

/-- A refusal shows no records. -/
theorem readsFrom_ofError {w : World settings} {events : List SecurityEvent} {effects : List Effect}
    {err : HttpError} :
    Handled.ReadsFrom sha256 w { shared, events, effects, next := .ofError err } := by
  intro response hnext
  dsimp only at hnext
  unfold Next.ofError at hnext
  split at hnext <;> cases hnext
  exact readFrom_of_no_records rfl rfl

theorem readsFrom_ofServiceError {w : World settings} {err : ServiceError} :
    Handled.ReadsFrom sha256 w { shared, next := .ofServiceError err } := by
  intro response hnext
  cases err <;> cases hnext <;> exact readFrom_of_no_records rfl rfl

theorem login_readsFrom {w : World settings} {username password : PyStr} :
    (login jwt hasher shared tick username password).ReadsFrom sha256 w := by
  unfold login
  dsimp only
  split
  · exact readsFrom_raised
  · rintro response ⟨⟩
    exact readFrom_of_no_records rfl rfl
  · split
    · exact readsFrom_raised
    · rintro response ⟨⟩
      exact readFrom_of_no_records rfl rfl

theorem authorize_readsFrom {w : World settings}
    (h : authorize jwt shared request tick = some handled) : handled.ReadsFrom sha256 w := by
  unfold authorize at h
  split at h
  · cases h
    exact readsFrom_ofError
  · obtain ⟨user, -, rfl⟩ := Option.map_eq_some_iff.mp h
    split
    · exact readsFrom_ofError
    · exact readsFrom_goOn

/-- An export shows what its query finds, under its manifest. -/
theorem exportAuditEvents_readFrom {w : World settings} {actorId resourceId : Option PyStr}
    {now : DateTime} {bundle : ExportBundleOut}
    (h : Routes.exportAuditEvents sha256 w.db actorId resourceId now = .ok bundle) :
    (Response.bundle bundle).ReadFrom sha256 w := by
  obtain ⟨-, -, h⟩ := bind_eq_ok_iff.mp h
  split at h
  · cases h
  · cases h
    have hquery := Repo.listEventsIncludingArchived_eq w.db { actorId, resourceId }
    constructor
    · intro record hrecord
      obtain ⟨e, he, rfl⟩ := List.mem_map.mp hrecord
      refine ⟨e, rfl, Or.inl ?_⟩
      change e ∈ Repo.listEventsIncludingArchived w.db { actorId, resourceId } at he
      rw [hquery] at he
      exact List.mem_of_mem_filter he
    · rintro filter records ⟨⟩
      exact congrArg (List.map AuditEvent.out) hquery
    · rintro bundle ⟨⟩
      exact ⟨(List.length_map _).symm, manifestHashOf_exportEvents sha256 w.db actorId resourceId now⟩

/-- A report shows what its query finds. -/
theorem getAccountAccessReport_readFrom {w : World settings} {query : ComplianceQuery}
    {rateLimit : Except HttpError Unit} {report : ComplianceReportOut}
    (h : Routes.getAccountAccessReport w.db user rateLimit query = .ok report) :
    (Response.report report).ReadFrom sha256 w := by
  obtain ⟨-, -, h⟩ := bind_eq_ok_iff.mp h
  obtain ⟨-, -, h⟩ := bind_eq_ok_iff.mp h
  obtain ⟨-, -, h⟩ := bind_eq_ok_iff.mp h
  obtain ⟨startTime, -, h⟩ := bind_eq_ok_iff.mp h
  obtain ⟨endTime, -, h⟩ := bind_eq_ok_iff.mp h
  obtain ⟨-, -, h⟩ := bind_eq_ok_iff.mp h
  cases h
  have hquery := Repo.listEventsIncludingArchived_eq w.db
    { actorId := query.actorId, resourceType := some ACCOUNT_RESOURCE_TYPE
      resourceId := query.resourceId, startTime, endTime }
  constructor
  · intro record hrecord
    obtain ⟨e, he, rfl⟩ := List.mem_map.mp hrecord
    refine ⟨e, rfl, Or.inl ?_⟩
    unfold accountAccessReport at he
    rw [hquery] at he
    exact List.mem_of_mem_filter he
  · rintro filter records ⟨⟩
    exact congrArg (List.map AuditEvent.out) hquery
  · rintro bundle ⟨⟩

/-- A page shows rows of the table. -/
theorem listAuditEvents_readFrom {w : World settings} {query : ListQuery}
    {page : List AuditEventOut} (h : Routes.listAuditEvents w.db user query = .ok page) :
    (Response.events page).ReadFrom sha256 w := by
  constructor
  · intro record hrecord
    rw [show (Response.events page).records = page from rfl, listAuditEvents_ok h] at hrecord
    obtain ⟨e, he, rfl⟩ := List.mem_map.mp hrecord
    exact ⟨e, rfl, Or.inl (List.mem_of_mem_filter (List.mem_of_mem_drop (List.mem_of_mem_take he)))⟩
  · rintro filter records ⟨⟩
  · rintro bundle ⟨⟩

theorem startSession_readsFrom {w : World settings} {action : ApiAction settings}
    (h : startSession sha256 retentionWindowDays shared user action = some handled) :
    handled.ReadsFrom sha256 w := by
  obtain ⟨api, -, rfl⟩ := Option.map_eq_some_iff.mp h
  exact readsFrom_goOn

/-- What a route answers, it has read from the table. -/
theorem route_readsFrom
    (h : route sha256 retentionWindowDays shared request tick user = some handled) :
    handled.ReadsFrom sha256 shared.api.world := by
  unfold route at h
  split at h
  · cases h
  · split at h
    · cases h
      exact readsFrom_raised
    · cases h
      exact readsFrom_ofError
    · split at h
      · cases h
        exact readsFrom_ofError
      · exact startSession_readsFrom h
  · exact startSession_readsFrom h
  · split at h
    · cases h
      exact readsFrom_raised
    · obtain ⟨api, -, rfl⟩ := Option.map_eq_some_iff.mp h
      exact readsFrom_goOn
  · split at h <;> cases h
    · exact readsFrom_ofError
    · rintro response ⟨⟩
      exact listAuditEvents_readFrom ‹_›
  · split at h <;> cases h
    · exact readsFrom_raised
    · rintro response ⟨⟩
      exact readFrom_of_no_records rfl rfl
  · split at h <;> cases h
    · exact readsFrom_ofError
    · rintro response ⟨⟩
      exact exportAuditEvents_readFrom ‹_›
  · split at h <;> cases h
    · exact readsFrom_ofError
    · rintro response ⟨⟩
      exact getAccountAccessReport_readFrom ‹_›

/-- What a session is answered with is the row that it has returned. -/
theorem resume_readsFrom {session : Nat}
    (h : resume sha256 retentionWindowDays shared tick user session = some handled) :
    handled.ReadsFrom sha256 shared.api.world := by
  unfold resume at h
  split at h
  · rename_i req event hcall
    cases h
    rintro response ⟨⟩
    constructor
    · intro record hrecord
      rw [List.mem_singleton.mp hrecord]
      exact ⟨event, rfl, Or.inr ⟨req, List.mem_of_getElem? hcall⟩⟩
    · rintro filter records ⟨⟩
    · rintro bundle ⟨⟩
  · cases h
    exact readsFrom_ofServiceError
  · cases h
    intro response hnext
    dsimp only at hnext
    unfold redactionResponse at hnext
    split at hnext
    · cases hnext
    · split at hnext <;> cases hnext
      exact readFrom_of_no_records rfl rfl
  · cases h
    exact readsFrom_ofServiceError
  · obtain ⟨api, -, rfl⟩ := Option.map_eq_some_iff.mp h
    exact readsFrom_goOn

/-- **What a step answers, it has read**: rows of the table as they are, or the row that its
session has returned. -/
theorem handle_readsFrom [AddCommGroup τ] [LinearOrder τ] {phase : Phase}
    (h : handle sha256 retentionWindowDays jwt hasher shared request tick phase = some handled) :
    handled.ReadsFrom sha256 shared.api.world := by
  unfold handle at h
  split at h
  · split at h
    · cases h
      rcases enforceLogin_cases shared request tick with ⟨-, h⟩ | ⟨-, h⟩ <;> rw [h]
      · exact readsFrom_goOn
      · rintro response ⟨⟩
        exact readFrom_of_no_records rfl rfl
    · exact authorize_readsFrom h
  · split at h
    · cases h
      exact login_readsFrom
    · cases h
  · rename_i user
    cases h
    rcases enforceSensitive_cases shared request tick user with
      ⟨-, h⟩ | ⟨-, -, h⟩ | ⟨-, -, h⟩ <;> rw [h]
    · exact readsFrom_goOn
    · exact readsFrom_goOn
    · rintro response ⟨⟩
      exact readFrom_of_no_records rfl rfl
  · exact route_readsFrom h
  · exact resume_readsFrom h
  · cases h
    rintro response ⟨⟩
    exact readFrom_of_no_records rfl rfl
  · cases h

end Steps

/-! ## The answers of a history -/

/-- The answer of a request that has one. -/
def Phase.response? : Phase → Option Response
  | .answered response => some response
  | _ => none

/-- The request that the action lets in, or lets take a step. -/
def ServerAction.call? (s : Server settings τ) : ServerAction τ → Option Nat
  | .receive _ _ => some s.calls.length
  | .advance i _ | .fail i _ => some i
  | .boot _ | .disconnect _ _ => none

section Run

variable [AddCommGroup τ] [LinearOrder τ]

variable (sha256 retentionWindowDays jwt hasher) in
/-- What the action answers its request, if it does. -/
def answersGiven (s : Server settings τ) (action : ServerAction τ) : List Response :=
  ((serverStep sha256 retentionWindowDays jwt hasher action s).bind fun s' =>
    (action.call? s).bind fun i => s'.calls[i]?.bind fun call => call.phase.response?).toList

variable {s s' : Server settings τ} {action : ServerAction τ}

/-- A step does nothing to the sessions, or one step of theirs. -/
theorem ServerTransition.world
    (h : ServerTransition sha256 retentionWindowDays jwt hasher s action s') :
    s'.shared.api.world = s.shared.api.world ∨ ∃ action,
      Transition sha256 s.shared.api.world action s'.shared.api.world := by
  have hsessions : ∀ {action : ApiAction settings} {api : ApiState settings},
      apiStep sha256 retentionWindowDays action s.shared.api = some api →
      api.world = s.shared.api.world ∨ ∃ action, Transition sha256 s.shared.api.world action api.world := by
    intro action api hstep
    rcases apiStep_cases hstep with rfl | ⟨started, callers, -, hstep, -⟩
    · exact Or.inl rfl
    · exact Or.inr ⟨started, step_cases hstep⟩
  cases h with
  | boot config => exact Or.inl rfl
  | receive request uuid => exact Or.inl rfl
  | move _ _ hmove =>
    rcases hmove.api with hsame | ⟨action, hstep, -⟩
    · exact Or.inl (congrArg ApiState.world hsame)
    · exact hsessions hstep
  | disconnect hrollback => exact hsessions hrollback

omit [AddCommGroup τ] [LinearOrder τ] in
/-- A request that has come in is answered with a refusal, if at all. -/
theorem response?_enter {config : ServerSettings τ} {request : HttpRequest} {uuid : PyStr}
    {w : World settings} : ∀ response ∈ (enter config request uuid).phase.response?,
      response.ReadFrom sha256 w := by
  unfold enter
  dsimp only
  split
  · rintro response ⟨⟩
    exact readFrom_of_no_records rfl rfl
  · rintro response ⟨⟩

/-- A request that has moved is answered with what the step has read, if at all. -/
theorem response?_after {call : ServerCall τ} {tick : Tick τ} {handled : Handled settings τ}
    (hmove : Moves sha256 retentionWindowDays jwt hasher s.shared call tick handled)
    (hhandled : handle sha256 retentionWindowDays jwt hasher s.shared call.request tick call.phase =
      some handled ∨ handleFailure s.shared call.request call.phase = some handled) :
    ∀ response ∈ (call.after tick handled).phase.response?,
      response.ReadFrom sha256 s.shared.api.world := by
  intro response hresponse
  cases hnext : handled.next with
  | goOn phase =>
    rw [ServerCall.phase_after_of_goOn hnext] at hresponse
    cases phase with
    | answered other => exact absurd hnext (hmove.not_answered other)
    | _ => cases hresponse
  | respond given =>
    have hgiven : (call.after tick handled).phase = .answered given := by
      unfold ServerCall.after
      rw [hnext]
      rfl
    rw [hgiven] at hresponse
    cases hresponse
    rcases hhandled with hhandle | hfailed
    · exact handle_readsFrom hhandle response hnext
    · rw [raised_of_handleFailure hfailed] at hnext
      cases hnext
  | raised =>
    have hgiven : (call.after tick handled).phase = .answered .internalError := by
      unfold ServerCall.after
      rw [hnext]
      rfl
    rw [hgiven] at hresponse
    cases hresponse
    exact readFrom_of_no_records rfl rfl

/-- A step answers at most one request, with what it has read. -/
theorem answersGiven_cases
    (h : serverStep sha256 retentionWindowDays jwt hasher action s = some s') :
    answersGiven sha256 retentionWindowDays jwt hasher s action = [] ∨
      ∃ response : Response, response.ReadFrom sha256 s.shared.api.world ∧
        answersGiven sha256 retentionWindowDays jwt hasher s action = [response] := by
  have hgiven : ∀ {i : Nat} {call : ServerCall τ}, action.call? s = some i → s'.calls[i]? = some call →
      (∀ response ∈ call.phase.response?, response.ReadFrom sha256 s.shared.api.world) →
      answersGiven sha256 retentionWindowDays jwt hasher s action = [] ∨
        ∃ response : Response, response.ReadFrom sha256 s.shared.api.world ∧
          answersGiven sha256 retentionWindowDays jwt hasher s action = [response] := by
    intro i call hi hcall hread
    unfold answersGiven
    rw [h, Option.bind_some, hi, Option.bind_some, hcall, Option.bind_some]
    cases hresponse : call.phase.response? with
    | none => exact Or.inl rfl
    | some response => exact Or.inr ⟨response, hread response hresponse, rfl⟩
  have hnobody : action.call? s = none →
      answersGiven sha256 retentionWindowDays jwt hasher s action = [] := by
    intro hi
    unfold answersGiven
    rw [h, Option.bind_some, hi]
    rfl
  cases serverStep_cases h with
  | boot config => exact Or.inl (hnobody rfl)
  | receive request uuid => exact hgiven rfl List.getElem?_concat_length response?_enter
  | @move i call tick handled _ haction hcall hmove hhandled =>
    refine hgiven (i := i) ?_ ((getElem?_set_some hcall).mpr (Or.inl ⟨rfl, rfl⟩))
      (response?_after hmove hhandled)
    rcases haction with rfl | rfl <;> rfl
  | disconnect hrollback => exact Or.inl (hnobody rfl)

/-- **Clients are told one history.** In every history of the service, restarts included, any two
answers agree on the records that both show, in each field that neither shows the marker in,
and every export or report is the beginning of each later one with its filter. -/
theorem answers_agree {ok : Server settings τ × List Response → ServerAction τ → Prop}
    {config : ServerSettings τ} {given : List Response}
    (h : Machine.Reaches (Machine.observed (serverStep sha256 retentionWindowDays jwt hasher)
      (answersGiven sha256 retentionWindowDays jwt hasher)) ok (.init config, []) (s, given)) :
    given.Pairwise (Response.Agrees sha256) := by
  have hattested : Attested sha256 s.shared.api.world given := by
    refine h.invariant (P := fun t => Attested sha256 t.1.shared.api.world t.2)
      ⟨?_, ?_, ?_, List.Pairwise.nil⟩ ?_
    · intro response hresponse
      cases hresponse
    · intro response hresponse
      cases hresponse
    · intro bundle hbundle
      cases hbundle
    · rintro ⟨t, told⟩ ⟨u, told'⟩ action run - hstep ht
      obtain ⟨hmoved, hlog⟩ := Machine.observed_eq_some_iff.mp hstep
      dsimp only at hmoved hlog
      have hrun : Machine.Reaches (serverStep sha256 retentionWindowDays jwt hasher)
          (fun _ _ => True) (.init config) t := run.of_observed fun _ _ _ => trivial
      have hworld := reaches_world (reaches_api hrun)
      have htold : Attested sha256 t.shared.api.world told' := by
        rcases answersGiven_cases hmoved with hsilent | ⟨response, hread, hone⟩
        · rw [hlog, hsilent, List.append_nil]
          exact ht
        · rw [hlog, hone]
          exact ht.answer hworld hread
      rcases (serverStep_cases hmoved).world with hsame | ⟨started, htransition⟩
      · show Attested sha256 u.shared.api.world told'
        rw [hsame]
        exact htold
      · exact htold.step (disciplined_of_reaches hworld) htransition
  exact hattested.agree

end Run

/-! ## Two exports -/

/-- The user posts an event, exports the records of the user, redacts the event and exports
them again. -/
def exportedTwice : List (ServerAction Int) :=
  let exports : HttpRequest :=
    { endpoint := .exportAuditEvents (some "grace") none
      path := "/audit/export", bearer := some "token" }
  .receive { endpoint := .login "grace" "p", path := "/auth/token" } "u" ::
    List.replicate 2 (.advance 0 sampleTick) ++
  .receive
    { endpoint := .createAuditEvent ⟨"A", "grace", "c", "d", AuditEventCreate.sample.payload⟩ none
      path := "/audit/events", bearer := some "token" } "v" ::
    List.replicate 11 (.advance 1 sampleTick) ++
  .receive exports "w" :: List.replicate 3 (.advance 2 sampleTick) ++
  .receive
    { endpoint := .redactAuditEvent 1 { fields := ["x", "n"], nonempty := by decide }
      path := "/audit/events/1/redact", bearer := some "token" } "x" ::
    List.replicate 14 (.advance 3 sampleTick) ++
  .receive exports "y" :: List.replicate 3 (.advance 4 sampleTick)

theorem answers_agree_exportedTwice :
    ∃ s : Server {} Int × List Response,
      s ∈ Machine.schedule (Machine.observed (serverStep Sha256.hexdigest 30 graceJwt sampleHasher)
        (answersGiven Sha256.hexdigest 30 graceJwt sampleHasher)) (fun _ _ => True) exportedTwice
        (.init graceConfig, []) ∧
      s.2.map (fun response => response.records.map fun record =>
          (record.id, decide (record.payload.get? "x" = some (.str REDACTED_MARKER)))) =
        [[], [(1, false)], [(1, false)], [], [(1, true), (2, false)]] ∧
      s.2.Pairwise (Response.Agrees Sha256.hexdigest) := by
  have hrun : ∃ s : Server {} Int × List Response,
      s ∈ Machine.schedule (Machine.observed (serverStep Sha256.hexdigest 30 graceJwt sampleHasher)
        (answersGiven Sha256.hexdigest 30 graceJwt sampleHasher)) (fun _ _ => True) exportedTwice
        (.init graceConfig, []) ∧
      s.2.map (fun response => response.records.map fun record =>
          (record.id, decide (record.payload.get? "x" = some (.str REDACTED_MARKER)))) =
        [[], [(1, false)], [(1, false)], [], [(1, true), (2, false)]] := by
    decide +kernel
  obtain ⟨s, hs, hanswers⟩ := hrun
  exact ⟨s, hs, hanswers, answers_agree (Machine.reaches_of_schedule hs)⟩

end AuditLog
