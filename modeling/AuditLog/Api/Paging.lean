import AuditLog.Api.TimeRange
import AuditLog.Concurrency.RetentionRuns
import AuditLog.Library.Paging

/-!
# Paging through a table that changes

A client asks `GET /audit/events` for the pages at offsets `0`, `limit`, `2 * limit`, …
until a page is short, while other sessions append, redact and archive. Offsets are
positions among the rows that are listed at the time, so a retention run between two
requests moves the later rows to the front, past the offset that comes next.
-/

namespace AuditLog

variable {sha256 : Bytes → PyStr} {settings : Settings}

/-! ## What a request lists -/

/-- The instant that a bound denotes; a naive time denotes none. -/
def QueryTime.instant? : QueryTime → Option Int
  | .naive => none
  | .aware t => some t.instant

/-- The row is unarchived, in the scope of the caller, and meets every filter of the query. -/
def Listed (user : CurrentUser) (query : ListQuery) (e : AuditEvent) : Bool :=
  MeetsListFilters user query e &&
    query.startTime.all (fun t => t.instant?.any (· ≤ e.timestamp.instant)) &&
    query.endTime.all (fun t => t.instant?.any (e.timestamp.instant ≤ ·))

/-- A bound that passes keeps its instant. -/
theorem requireUtc_ok {value : Option QueryTime} {fieldName : String} {utc : Option DateTime}
    (h : requireUtc value fieldName = .ok utc) (p : Int → Bool) :
    (value.all fun t => t.instant?.any p) = utc.all fun t => p t.instant := by
  unfold requireUtc at h
  split at h
  · cases h
    rfl
  · cases h
  · split at h
    · rename_i t u hutc
      cases h
      rw [Option.all_some, Option.all_some, (astimezoneUtc_eq_some_iff.mp hutc).1]
      rfl
    · cases h

/-- A caller reads within the scope of their role. -/
theorem readTenant_ok {user : CurrentUser} {tenantId : Option PyStr}
    (h : Routes.readTenant user = .ok tenantId) : tenantId = tenantScope user := by
  unfold Routes.readTenant at h
  unfold tenantScope
  split at h
  · rename_i hreader
    rw [if_pos hreader]
    split at h
    · cases h
    · rename_i tenantId' hsome
      cases h
      exact hsome.symm
  · rename_i hscope
    rw [if_neg hscope]
    cases h
    rfl

/-- A page is cut from the rows that the request lists. -/
theorem listAuditEvents_ok {db : Database} {user : CurrentUser} {query : ListQuery}
    {page : List AuditEventOut} (h : Routes.listAuditEvents db user query = .ok page) :
    page = (((db.auditEvents.filter (Listed user query)).drop query.offset.toNat).take
      query.limit.toNat).map AuditEvent.out := by
  -- The checks of the route in their order; each has been passed.
  obtain ⟨arguments, harguments, rfl⟩ := map_eq_ok_iff.mp h
  obtain ⟨user', hrole, hallowed⟩ := bind_eq_ok_iff.mp harguments
  obtain ⟨rfl, -⟩ := Routes.requireRoles_ok_iff.mp hrole
  obtain ⟨-, -, hparams⟩ := bind_eq_ok_iff.mp hallowed
  obtain ⟨startTime, hstart, hfrom⟩ := bind_eq_ok_iff.mp hparams
  obtain ⟨endTime, hend, hto⟩ := bind_eq_ok_iff.mp hfrom
  obtain ⟨-, -, hrange⟩ := bind_eq_ok_iff.mp hto
  obtain ⟨tenantId, htenant, hpassed⟩ := bind_eq_ok_iff.mp hrange
  cases hpassed
  rw [listEvents_eq_page, readTenant_ok htenant]
  congr 4
  funext e
  rw [matches_eq_inInterval]
  unfold Listed MeetsListFilters InInterval
  rw [requireUtc_ok hstart fun i => decide (i ≤ e.timestamp.instant),
    requireUtc_ok hend fun i => decide (e.timestamp.instant ≤ i)]
  ac_rfl

/-! ## Pages of ids -/

/-- The request for page `k`. -/
def ListQuery.page (query : ListQuery) (limit k : Nat) : ListQuery :=
  { query with limit := limit, offset := (k * limit : Nat) }

variable {user : CurrentUser} {query : ListQuery}

/-- The ids of the rows that are listed, in order. -/
def listedIds (user : CurrentUser) (query : ListQuery) (events : List AuditEvent) : List Int :=
  (events.filter (Listed user query)).map AuditEvent.id

/-- How many of the listed rows come before the record. -/
def listedBefore (user : CurrentUser) (query : ListQuery) (w : World settings) (id : Int) : Nat :=
  w.db.auditEvents.countP fun e => Listed user query e && decide (e.id < id)

theorem mem_listedIds {events : List AuditEvent} {id : Int} :
    id ∈ listedIds user query events ↔ ∃ e ∈ events, e.id = id ∧ Listed user query e := by
  unfold listedIds
  simp only [List.mem_map, List.mem_filter]
  constructor
  · rintro ⟨e, ⟨he, hlisted⟩, hid⟩
    exact ⟨e, he, hid, hlisted⟩
  · rintro ⟨e, he, hid, hlisted⟩
    exact ⟨e, ⟨he, hlisted⟩, hid⟩

/-- The table is ordered by id, so the ids of the listed rows increase. -/
theorem listedIds_increase (user : CurrentUser) (query : ListQuery) (db : Database) :
    (listedIds user query db.auditEvents).Pairwise (· < ·) := by
  unfold listedIds
  rw [List.pairwise_map]
  exact db.ordered.filter _

/-- The position of a record is the number of listed rows before it. -/
theorem position_listedIds (w : World settings) (id : Int) :
    Paging.position id (listedIds user query w.db.auditEvents) = listedBefore user query w id := by
  unfold Paging.position listedIds listedBefore
  rw [List.countP_map, List.countP_filter]
  congr 1
  funext e
  exact Bool.and_comm _ _

/-- The ids on a page are a page of the listed ids. -/
theorem ids_of_listAuditEvents {db : Database} {limit k : Nat} {page : List AuditEventOut}
    (h : Routes.listAuditEvents db user (query.page limit k) = .ok page) :
    page.map AuditEventOut.id = Paging.page limit k (listedIds user query db.auditEvents) := by
  have hpage : page = (Paging.page limit k (db.auditEvents.filter (Listed user query))).map
      AuditEvent.out := listAuditEvents_ok h
  rw [hpage, List.map_map]
  exact Paging.map_page AuditEvent.id limit k _

/-! ## How the listed rows change -/

/-- Every row is still there, retouched, and the new rows have larger ids. -/
structure Grown (events events' : List AuditEvent) : Prop where
  kept : ∀ e ∈ events, ∃ e' ∈ events', Retouched e e'
  new : ∀ e' ∈ events', (∃ e ∈ events, Retouched e e') ∨ ∀ e ∈ events, e.id < e'.id

namespace Grown

theorem refl (events : List AuditEvent) : Grown events events where
  kept := fun e he => ⟨e, he, .refl e⟩
  new := fun e he => Or.inl ⟨e, he, .refl e⟩

theorem trans {events events' events'' : List AuditEvent} (h : Grown events events')
    (h' : Grown events' events'') : Grown events events'' where
  kept := by
    intro e he
    obtain ⟨e', he', hre⟩ := h.kept e he
    obtain ⟨e'', he'', hre'⟩ := h'.kept e' he'
    exact ⟨e'', he'', hre.trans hre'⟩
  new := by
    intro e'' he''
    rcases h'.new e'' he'' with ⟨e', he', hre'⟩ | hlarger
    · rcases h.new e' he' with ⟨e, he, hre⟩ | hlarger
      · exact Or.inl ⟨e, he, hre.trans hre'⟩
      · right
        intro e he
        rw [hre'.id]
        exact hlarger e he
    · right
      intro e he
      obtain ⟨e', he', hre⟩ := h.kept e he
      rw [← hre.id]
      exact hlarger e' he'

end Grown

variable {w w' : World settings}

/-- One step keeps the rows, and a new row has the largest id. -/
theorem Transition.grown {action : Action settings} (h : Transition sha256 w action w')
    (hd : Disciplined sha256 w) : Grown w.db.auditEvents w'.db.auditEvents := by
  -- A step retouches rows in their places, or commits one row behind them.
  rcases h.effect hd with ⟨hre, -⟩ | ⟨c, req, event, record, happending, hcommit, -⟩
  · constructor
    · intro e he
      obtain ⟨e', he', hretouched⟩ := HashChain.exists_of_forall₂_right hre.rows.flip he
      exact ⟨e', he', hretouched⟩
    · intro e' he'
      exact Or.inl (HashChain.exists_of_forall₂_right hre.rows he')
  · have hstaged : Staged sha256 w.db req event := hd.phase happending
    rw [(Repo.commitAppend_cases hstaged.last hcommit).1]
    constructor
    · intro e he
      exact ⟨e, List.mem_append_left _ he, .refl e⟩
    · intro e' he'
      rcases List.mem_append.mp he' with he' | he'
      · exact Or.inl ⟨e', he', .refl e'⟩
      · rw [List.mem_singleton.mp he']
        exact Or.inr hstaged.last

/-- The run lemma. -/
theorem grown_of_reaches {ok : World settings → Action settings → Prop}
    (hw : Machine.Reaches (step sha256) (fun _ _ => True) (.init .empty) w)
    (h : Machine.Reaches (step sha256) ok w w') : Grown w.db.auditEvents w'.db.auditEvents := by
  refine h.invariant (P := fun t => Grown w.db.auditEvents t.db.auditEvents) (.refl _) ?_
  intro t u action run _ hstep hgrown
  have hreached := hw.trans (run.mono fun _ _ _ => trivial)
  exact hgrown.trans ((step_cases hstep).grown (disciplined_of_reaches hreached))

/-- Apart from its archival, a row is listed as it was. -/
theorem listed_of_retouched {a b : AuditEvent} (h : Retouched a b) (ha : a.archivedAt = none)
    (hb : b.archivedAt = none) : Listed user query b = Listed user query a := by
  unfold Retouched at h
  rw [hb] at h
  rw [h]
  unfold Listed MeetsListFilters
  rw [ha]

/-- No archived row is listed. -/
theorem archivedAt_of_listed {e : AuditEvent} (h : Listed user query e) : e.archivedAt = none := by
  unfold Listed MeetsListFilters at h
  simp only [Bool.and_eq_true, decide_eq_true_eq] at h
  exact h.1.1.1.1.1.1.1

/-- **How the listed rows change**: rows leave, and those that come have larger ids. -/
theorem later_of_reaches {ok : World settings → Action settings → Prop}
    (hw : Machine.Reaches (step sha256) (fun _ _ => True) (.init .empty) w)
    (h : Machine.Reaches (step sha256) ok w w') :
    Paging.Later (listedIds user query w.db.auditEvents) (listedIds user query w'.db.auditEvents) := by
  have hkeeps := keepsArchived_of_reaches hw (h.mono fun _ _ _ => trivial)
  intro id hid
  obtain ⟨e', he', rfl, hlisted⟩ := mem_listedIds.mp hid
  rcases (grown_of_reaches hw h).new e' he' with ⟨e, he, hre⟩ | hlarger
  · -- The row was there unarchived: an archived row stays archived.
    have hnone : e.archivedAt = none := by
      by_contra harchived
      obtain ⟨e'', he'', hid'', hat⟩ := hkeeps e he harchived
      obtain rfl : e'' = e' := w'.db.eq_of_id_eq he'' he' (hid''.trans hre.id.symm)
      exact harchived (hat.symm.trans (archivedAt_of_listed hlisted))
    rw [listed_of_retouched hre hnone (archivedAt_of_listed hlisted)] at hlisted
    exact Or.inl (mem_listedIds.mpr ⟨e, he, hre.id.symm, hlisted⟩)
  · right
    intro id hid
    obtain ⟨e, he, rfl, -⟩ := mem_listedIds.mp hid
    exact hlarger e he

/-! ## Only retention moves rows to the front -/

/-- No retention call finds a listed row behind its cutoff. -/
def SparesListed (user : CurrentUser) (query : ListQuery) (w : World settings)
    (action : Action settings) : Prop :=
  ∀ s ∈ observeSweep w action, ∀ e ∈ w.db.auditEvents, Listed user query e → ¬ e.timestamp < s.cutoff

/-- Rows that keep their archival are listed as before. -/
theorem listedIds_eq_of_same {events events' : List AuditEvent}
    (hre : List.Forall₂ Retouched events events') (hsame : List.Forall₂ SameArchival events events') :
    listedIds user query events' = listedIds user query events := by
  induction hre with
  | nil => rfl
  | @cons a b _ _ hab _ ih =>
    cases hsame with
    | cons hsameab hrest =>
      -- An archived row is listed neither before nor after.
      have hlisted : Listed user query b = Listed user query a := by
        by_cases ha : a.archivedAt = none
        · exact listed_of_retouched hab ha (hsameab.2.2.trans ha)
        · have hnot : ∀ {e : AuditEvent}, e.archivedAt ≠ none → Listed user query e = false :=
            fun harchived => Bool.eq_false_iff.mpr fun h => harchived (archivedAt_of_listed h)
          rw [hnot ha, hnot (hsameab.2.2 ▸ ha)]
      unfold listedIds at ih ⊢
      rw [List.filter_cons, List.filter_cons, hlisted]
      split
      · rw [List.map_cons, List.map_cons, hab.id, ih hrest]
      · exact ih hrest

/-- A sweep that spares the listed rows leaves the list as it is. -/
theorem listedIds_sweep {db : Database} {cutoff now : DateTime}
    (hspares : ∀ e ∈ db.auditEvents, Listed user query e → ¬ e.timestamp < cutoff) :
    listedIds user query (Repo.archiveEventsOlderThan db cutoff now).2.auditEvents =
      listedIds user query db.auditEvents := by
  unfold listedIds Repo.archiveEventsOlderThan
  rw [Database.mapEvents_auditEvents, List.filter_map, List.map_map]
  refine congr (congrArg List.map (funext fun e => ?_)) (List.filter_congr fun e he => ?_)
  · show (ite _ _ _ : AuditEvent).id = e.id
    split <;> rfl
  · show Listed user query (ite _ _ _) = _
    split
    · -- A row that is archived now was not listed before.
      rename_i hswept
      have hbefore : Listed user query e = false :=
        Bool.eq_false_iff.mpr fun hlisted => hspares e he hlisted hswept.2
      rw [hbefore]
      exact Bool.eq_false_iff.mpr fun hlisted => by cases archivedAt_of_listed hlisted
    · rfl

/-- Every other step leaves the listed rows in their places. -/
theorem Transition.listed_grows {action : Action settings} (h : Transition sha256 w action w')
    (hd : Disciplined sha256 w) (hs : Stored sha256 w) (hspares : SparesListed user query w action) :
    listedIds user query w.db.auditEvents <+: listedIds user query w'.db.auditEvents := by
  rcases h.archival hd hs with ⟨-, hsame⟩ | ⟨-, event, -, -, hrows⟩ | ⟨cutoff, now, hdb, hseen⟩
  · rcases h.effect hd with ⟨hre, -⟩ | ⟨c, req, event, record, happending, hcommit, -⟩
    · exact ⟨[], by rw [List.append_nil, listedIds_eq_of_same hre.rows hsame]⟩
    · -- A commit adds a row, so it is not this case.
      have hstaged : Staged sha256 w.db req event := hd.phase happending
      have hlength := hsame.length_eq
      rw [(Repo.commitAppend_cases hstaged.last hcommit).1, List.length_append,
        List.length_singleton] at hlength
      omega
  · unfold listedIds
    rw [hrows, List.filter_append, List.map_append]
    exact List.prefix_append _ _
  · have hcutoff := hspares _ (hseen ▸ List.mem_singleton_self _)
    exact ⟨[], by rw [List.append_nil, hdb, listedIds_sweep hcutoff]⟩

/-- The run lemma: while sweeps spare the listed rows, the list only grows at its end. -/
theorem listed_grows_of_reaches
    (hw : Machine.Reaches (step sha256) (fun _ _ => True) (.init .empty) w)
    (h : Machine.Reaches (step sha256) (SparesListed user query) w w') :
    listedIds user query w.db.auditEvents <+: listedIds user query w'.db.auditEvents := by
  refine h.invariant (P := fun t => listedIds user query w.db.auditEvents <+:
    listedIds user query t.db.auditEvents) (List.prefix_refl _) ?_
  intro t u action run hspares hstep hgrown
  have hreached := hw.trans (run.mono fun _ _ _ => trivial)
  exact hgrown.trans ((step_cases hstep).listed_grows (disciplined_of_reaches hreached)
    (stored_of_reaches hreached) hspares)

/-! ## Reading all pages -/

/-- A client reads page after page until one is short; between two requests the system
takes steps that meet `ok`. Page `k` is answered in the state `w k`. -/
structure PagingRun (sha256 : Bytes → PyStr) (ok : World settings → Action settings → Prop)
    (user : CurrentUser) (query : ListQuery) (limit n : Nat) (w : Nat → World settings)
    (pages : Nat → List AuditEventOut) : Prop where
  reached : Machine.Reaches (step sha256) (fun _ _ => True) (.init .empty) (w 0)
  between : ∀ k < n, Machine.Reaches (step sha256) ok (w k) (w (k + 1))
  answered : ∀ k ≤ n, Routes.listAuditEvents (w k).db user (query.page limit k) = .ok (pages k)
  full : ∀ k < n, limit ≤ (pages k).length
  short : (pages n).length < limit

/-- The record matches and is unarchived from the first request to the last. -/
def Stays (user : CurrentUser) (query : ListQuery) (n : Nat) (w : Nat → World settings) (id : Int) :
    Prop :=
  ∀ k ≤ n, ∃ e ∈ (w k).db.auditEvents, e.id = id ∧ Listed user query e

variable {ok : World settings → Action settings → Prop} {limit n : Nat} {states : Nat → World settings}
  {pages : Nat → List AuditEventOut}

namespace PagingRun

/-- From each request to each later one. -/
theorem reaches (run : PagingRun sha256 ok user query limit n states pages) {k m : Nat} (hkm : k ≤ m)
    (hm : m ≤ n) : Machine.Reaches (step sha256) ok (states k) (states m) := by
  induction m, hkm using Nat.le_induction with
  | base => exact .refl
  | succ m _ ih => exact (ih (by omega)).trans (run.between m hm)

theorem reachable (run : PagingRun sha256 ok user query limit n states pages) {k : Nat} (hk : k ≤ n) :
    Machine.Reaches (step sha256) (fun _ _ => True) (.init .empty) (states k) :=
  run.reached.trans ((run.reaches k.zero_le hk).mono fun _ _ _ => trivial)

/-- Between two requests rows leave, and those that come have larger ids. -/
theorem later (run : PagingRun sha256 ok user query limit n states pages) (k m : Nat) (hkm : k < m)
    (hm : m ≤ n) : Paging.Later (listedIds user query (states k).db.auditEvents)
      (listedIds user query (states m).db.auditEvents) :=
  later_of_reaches (run.reachable (hkm.le.trans hm)) (run.reaches hkm.le hm)

/-- The ids on page `k` are those of the state that has answered it. -/
theorem ids (run : PagingRun sha256 ok user query limit n states pages) {k : Nat} (hk : k ≤ n) :
    (pages k).map AuditEventOut.id =
      Paging.page limit k (listedIds user query (states k).db.auditEvents) :=
  ids_of_listAuditEvents (run.answered k hk)

/-- A record that stays is on exactly one page if and only if it stays ahead of the reader. -/
theorem existsUnique_page_iff (run : PagingRun sha256 ok user query limit n states pages) {id : Int}
    (hstays : Stays user query n states id) :
    (∃! k, k ≤ n ∧ id ∈ (pages k).map AuditEventOut.id) ↔
      Paging.StaysAhead limit n (fun k => listedIds user query (states k).db.auditEvents) id := by
  have hids : ∀ k, (k ≤ n ∧ id ∈ (pages k).map AuditEventOut.id) ↔
      (k ≤ n ∧ id ∈ Paging.page limit k (listedIds user query (states k).db.auditEvents)) :=
    fun k => and_congr_right fun hk => by rw [run.ids hk]
  have hlast : (Paging.page limit n (listedIds user query (states n).db.auditEvents)).length < limit := by
    rw [← run.ids le_rfl, List.length_map]
    exact run.short
  rw [existsUnique_congr hids]
  exact Paging.existsUnique_page_iff (fun k _ => listedIds_increase user query (states k).db)
    run.later hlast fun k hk => mem_listedIds.mpr (hstays k hk)

end PagingRun

/-- **Paging repeats nothing, and misses a record exactly where it falls behind.** The ids
increase along the pages. A matching record that stays unarchived is on exactly one page if and
only if, wherever the rows before it fill the pages read so far, they still do at the next
request. -/
theorem paged_exactly_once_iff (run : PagingRun sha256 ok user query limit n states pages) :
    ((List.range (n + 1)).flatMap fun k => (pages k).map AuditEventOut.id).Pairwise (· < ·) ∧
      ∀ id, Stays user query n states id →
        ((∃! k, k ≤ n ∧ id ∈ (pages k).map AuditEventOut.id) ↔
          ∀ k < n, (k + 1) * limit ≤ listedBefore user query (states k) id →
            (k + 1) * limit ≤ listedBefore user query (states (k + 1)) id) := by
  constructor
  · have hpages : ((List.range (n + 1)).flatMap fun k => (pages k).map AuditEventOut.id) =
        (List.range (n + 1)).flatMap fun k =>
          Paging.page limit k (listedIds user query (states k).db.auditEvents) :=
      List.flatMap_congr fun k hk => run.ids (Nat.lt_succ_iff.mp (List.mem_range.mp hk))
    rw [hpages]
    exact Paging.pages_increase (fun k _ => listedIds_increase user query (states k).db) run.later
  · intro id hstays
    rw [run.existsUnique_page_iff hstays]
    unfold Paging.StaysAhead
    simp only [position_listedIds]

/-- **Appends, redactions and retention of other rows lose nothing.** -/
theorem paged_exactly_once_of_sparesListed
    (run : PagingRun sha256 (SparesListed user query) user query limit n states pages) {id : Int}
    (hstays : Stays user query n states id) : ∃! k, k ≤ n ∧ id ∈ (pages k).map AuditEventOut.id :=
  (run.existsUnique_page_iff hstays).mpr <| Paging.staysAhead_of_prefix
    (fun k _ => listedIds_increase user query (states k).db)
    (fun k hk => listed_grows_of_reaches (run.reachable hk.le) (run.between k hk))
    fun k hk => mem_listedIds.mpr (hstays k hk)

/-! ## Two requests -/

/-- Two pages that are answered with these ids, the second one short. -/
theorem pagingRun_two {w w' : World settings} {first second : List Int}
    (hw : Machine.Reaches (step sha256) (fun _ _ => True) (.init .empty) w)
    (hbetween : Machine.Reaches (step sha256) ok w w')
    (hfirst : (Routes.listAuditEvents w.db user (query.page limit 0)).map
      (·.map AuditEventOut.id) = .ok first)
    (hsecond : (Routes.listAuditEvents w'.db user (query.page limit 1)).map
      (·.map AuditEventOut.id) = .ok second)
    (hfull : limit ≤ first.length) (hshort : second.length < limit) :
    ∃ pages, PagingRun sha256 ok user query limit 1 (fun k => if k = 0 then w else w') pages ∧
      (pages 0).map AuditEventOut.id = first ∧ (pages 1).map AuditEventOut.id = second := by
  obtain ⟨page, hpage, rfl⟩ := map_eq_ok_iff.mp hfirst
  obtain ⟨page', hpage', rfl⟩ := map_eq_ok_iff.mp hsecond
  rw [List.length_map] at hfull hshort
  refine ⟨fun k => if k = 0 then page else page', ⟨hw, ?_, ?_, ?_, hshort⟩, rfl, rfl⟩
  · intro k hk
    obtain rfl : k = 0 := Nat.lt_one_iff.mp hk
    exact hbetween
  · intro k hk
    rcases Nat.le_one_iff_eq_zero_or_eq_one.mp hk with rfl | rfl
    · exact hpage
    · exact hpage'
  · intro k hk
    obtain rfl : k = 0 := Nat.lt_one_iff.mp hk
    exact hfull

theorem stays_two {w w' : World settings} {id : Int}
    (hw : ∃ e ∈ w.db.auditEvents, e.id = id ∧ Listed user query e)
    (hw' : ∃ e ∈ w'.db.auditEvents, e.id = id ∧ Listed user query e) :
    Stays user query 1 (fun k => if k = 0 then w else w') id := by
  intro k hk
  rcases Nat.le_one_iff_eq_zero_or_eq_one.mp hk with rfl | rfl
  · exact hw
  · exact hw'

def sampleAdmin : CurrentUser := { username := "a", role := .admin, tenantId := none }

/-- The sample event once more, two days later. -/
def createLater (c : Nat) : List (Action {}) :=
  .startCreate (createRequest .sample) :: List.replicate 7 (.advance c afterTwoDays)

/-- Event 1 is redacted between the two requests, and event 3 is on the second page. -/
theorem paged_exactly_once_iff_redaction : ∃ (states : Nat → World {}) (pages : Nat → _),
    PagingRun Sha256.hexdigest (fun _ _ => True) sampleAdmin {} 2 1 states pages ∧
      Stays sampleAdmin {} 1 states 3 ∧ ∃! k, k ≤ 1 ∧ 3 ∈ (pages k).map AuditEventOut.id := by
  have hrun : ∃ w ∈ Machine.schedule (step Sha256.hexdigest) (fun _ _ => True)
      (createAlone 0 .sample ++ createAlone 1 .sample ++ createLater 2) (.init .empty),
      ∃ w' ∈ Machine.schedule (step Sha256.hexdigest) (fun _ _ => True)
        [.startRedact sampleRedact, .advance 3 .sample, .advance 3 .sample] w,
        (Routes.listAuditEvents w.db sampleAdmin (ListQuery.page {} 2 0)).map
            (·.map AuditEventOut.id) = .ok [1, 2] ∧
          (Routes.listAuditEvents w'.db sampleAdmin (ListQuery.page {} 2 1)).map
            (·.map AuditEventOut.id) = .ok [3] ∧
          (∃ e ∈ w.db.auditEvents, e.id = 3 ∧ Listed sampleAdmin {} e) ∧
          (∃ e ∈ w'.db.auditEvents, e.id = 3 ∧ Listed sampleAdmin {} e) ∧
          listedBefore sampleAdmin {} w' 3 = 2 := by
    decide +kernel
  obtain ⟨w, hw, w', hw', hfirst, hsecond, hlisted, hlisted', hbefore⟩ := hrun
  obtain ⟨pages, run, -, -⟩ := pagingRun_two (Machine.reaches_of_schedule hw)
    (Machine.reaches_of_schedule hw') hfirst hsecond (by decide) (by decide)
  have hstays := stays_two hlisted hlisted'
  refine ⟨_, pages, run, hstays, ((paged_exactly_once_iff run).2 3 hstays).mpr ?_⟩
  intro k hk _
  obtain rfl : k = 0 := Nat.lt_one_iff.mp hk
  exact hbefore.ge

/-- Event 1 is archived between the two requests, and event 2 is on no page. -/
theorem archived_row_hides_next : ∃ (states : Nat → World {}) (pages : Nat → _),
    PagingRun Sha256.hexdigest (fun _ _ => True) sampleAdmin {} 1 1 states pages ∧
      Stays sampleAdmin {} 1 states 2 ∧
      (∀ k ≤ 1, 2 ∉ (pages k).map AuditEventOut.id) := by
  have hrun : ∃ w ∈ Machine.schedule (step Sha256.hexdigest) (fun _ _ => True)
      (createAlone 0 .sample ++ createLater 1) (.init .empty),
      ∃ w' ∈ Machine.schedule (step Sha256.hexdigest) (fun _ _ => True)
        [.applyRetention 1 afterTwoDays afterTwoDays] w,
        (Routes.listAuditEvents w.db sampleAdmin (ListQuery.page {} 1 0)).map
            (·.map AuditEventOut.id) = .ok [1] ∧
          (Routes.listAuditEvents w'.db sampleAdmin (ListQuery.page {} 1 1)).map
            (·.map AuditEventOut.id) = .ok [] ∧
          (∃ e ∈ w.db.auditEvents, e.id = 2 ∧ Listed sampleAdmin {} e) ∧
          ∃ e ∈ w'.db.auditEvents, e.id = 2 ∧ Listed sampleAdmin {} e := by
    decide +kernel
  obtain ⟨w, hw, w', hw', hfirst, hsecond, hlisted, hlisted'⟩ := hrun
  obtain ⟨pages, run, hids, hids'⟩ := pagingRun_two (Machine.reaches_of_schedule hw)
    (Machine.reaches_of_schedule hw') hfirst hsecond (by decide) (by decide)
  refine ⟨_, pages, run, stays_two hlisted hlisted', ?_⟩
  intro k hk
  rcases Nat.le_one_iff_eq_zero_or_eq_one.mp hk with rfl | rfl
  · rw [hids]
    decide
  · rw [hids']
    decide

end AuditLog
