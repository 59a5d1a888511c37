import AuditLog.Concurrency.ForgedRedaction
import AuditLog.Concurrency.StoredRows
import AuditLog.Services.ExportService
import Mathlib.Algebra.GroupWithZero.Nat

/-!
# Retention

A retention call sets `archived_at` of the rows behind its cutoff and nothing else:
neither `verify_chain` nor an export can tell. Over a run, the archived rows are
those that some call found behind its cutoff, and each one was counted once.
-/

namespace AuditLog

variable {sha256 : Bytes → PyStr} {settings : Settings}

/-! ## One call -/

theorem applyRetention_of_cutoff {db : Database} {days : Int} {now archiveNow cutoff : DateTime}
    (h : now.subDays days = some cutoff) : applyRetention db days now archiveNow =
      (some ⟨cutoff, (Repo.archiveEventsOlderThan db cutoff archiveNow).1⟩,
        (Repo.archiveEventsOlderThan db cutoff archiveNow).2) := by
  unfold applyRetention
  rw [h]

/-- The row without its archival. -/
def AuditEvent.unarchived (e : AuditEvent) : AuditEvent := { e with archivedAt := none }

/-- The same bundle apart from `archived_at`. -/
structure ExportBundle.SameButArchival (a b : ExportBundle) : Prop where
  exportedAt : a.exportedAt = b.exportedAt
  actorId : a.actorId = b.actorId
  resourceId : a.resourceId = b.resourceId
  records : a.records.map AuditEvent.unarchived = b.records.map AuditEvent.unarchived
  manifestHash : a.manifestHash = b.manifestHash

/-- An update of `archived_at` alone goes through the list query. -/
theorem listEventsIncludingArchived_mapEvents {f : AuditEvent → AuditEvent}
    (hf : ∀ e, (f e).unarchived = e.unarchived) (db : Database) (hid : ∀ e, (f e).id = e.id)
    (filter : Repo.EventFilter) :
    Repo.listEventsIncludingArchived (db.mapEvents f hid) filter =
      (Repo.listEventsIncludingArchived db filter).map f := by
  have hmatches : ∀ e, filter.matches (f e) = filter.matches e := by
    intro e
    have hcolumns : filter.matches (f e).unarchived = filter.matches e.unarchived := by
      rw [hf]
    exact hcolumns
  rw [Repo.listEventsIncludingArchived_eq, Repo.listEventsIncludingArchived_eq,
    Database.mapEvents_auditEvents, List.filter_map]
  congr 1
  exact List.filter_congr fun e _ => hmatches e

/-- **Exports do not see retention**, apart from `archived_at`. -/
theorem exportEvents_mapEvents {f : AuditEvent → AuditEvent}
    (hf : ∀ e, (f e).unarchived = e.unarchived) (db : Database) (hid : ∀ e, (f e).id = e.id)
    (actorId resourceId : Option PyStr) (now : DateTime) :
    (exportEvents sha256 (db.mapEvents f hid) actorId resourceId now).SameButArchival
      (exportEvents sha256 db actorId resourceId now) := by
  have hrecords := listEventsIncludingArchived_mapEvents hf db hid { actorId, resourceId }
  have hhash : ∀ e, (f e).eventHash = e.eventHash := by
    intro e
    have hcolumn := congrArg AuditEvent.eventHash (hf e)
    exact hcolumn
  refine ⟨rfl, rfl, rfl, ?_, ?_⟩
  · show (Repo.listEventsIncludingArchived _ { actorId, resourceId }).map _ =
      (Repo.listEventsIncludingArchived _ { actorId, resourceId }).map _
    rw [hrecords, List.map_map]
    exact List.map_congr_left fun e _ => hf e
  · show computeManifestHash sha256
        ((Repo.listEventsIncludingArchived _ { actorId, resourceId }).map _) =
      computeManifestHash sha256
        ((Repo.listEventsIncludingArchived _ { actorId, resourceId }).map _)
    rw [hrecords, List.map_map]
    congr 1
    refine List.map_congr_left fun e _ => ?_
    show manifestEntry (f e).id (f e).eventHash = manifestEntry e.id e.eventHash
    rw [hid, hhash]

/-! ## The ledger of a run -/

/-- A retention call that has run: its cutoff, the rows that were there, its result. -/
structure Sweep where
  cutoff : DateTime
  present : List Int
  archivedCount : Nat
deriving DecidableEq

/-- What is seen of retention in a step. -/
def observeSweep (w : World settings) : Action settings → List Sweep
  | .applyRetention days now archiveNow =>
    match (applyRetention w.db days now archiveNow).1 with
    | none => []
    | some result => [⟨result.cutoff, w.db.auditEvents.map AuditEvent.id, result.archivedCount⟩]
  | _ => []

/-- A run from the empty table reaches `w`, and `sweeps` are its retention calls. -/
def ObservedRun (sha256 : Bytes → PyStr) (w : World settings) (sweeps : List Sweep) : Prop :=
  Machine.Reaches (Machine.observed (step sha256) observeSweep) (fun _ _ => True)
    (.init .empty, []) (w, sweeps)

/-- The same row for retention. -/
def SameArchival (a b : AuditEvent) : Prop :=
  b.id = a.id ∧ b.timestamp = a.timestamp ∧ b.archivedAt = a.archivedAt

theorem forall₂_sameArchival_refl (events : List AuditEvent) :
    List.Forall₂ SameArchival events events :=
  List.forall₂_same.mpr fun _ _ => ⟨rfl, rfl, rfl⟩

theorem sameArchival_redactEventFields (db : Database) (eventId : Int) (u : Repo.RedactionUpdate) :
    List.Forall₂ SameArchival db.auditEvents (Repo.redactEventFields db eventId u).auditEvents := by
  show List.Forall₂ _ _ (List.map _ _)
  rw [List.forall₂_map_right_iff]
  refine List.forall₂_same.mpr fun e _ => ?_
  split <;> exact ⟨rfl, rfl, rfl⟩

/-- **What a step does to the archival columns**: nothing, or it adds an unarchived row, or
it is a retention call with a cutoff. -/
theorem Transition.archival {w w' : World settings} {action : Action settings}
    (h : Transition sha256 w action w') (hd : Disciplined sha256 w) (hs : Stored sha256 w) :
    (observeSweep w action = [] ∧ List.Forall₂ SameArchival w.db.auditEvents w'.db.auditEvents) ∨
      (observeSweep w action = [] ∧ ∃ event : AuditEvent, event.archivedAt = none ∧
        (∀ e ∈ w.db.auditEvents, e.id < event.id) ∧
        w'.db.auditEvents = w.db.auditEvents ++ [event]) ∨
      ∃ cutoff now, w'.db = (Repo.archiveEventsOlderThan w.db cutoff now).2 ∧
        observeSweep w action = [⟨cutoff, w.db.auditEvents.map AuditEvent.id,
          (Repo.archiveEventsOlderThan w.db cutoff now).1⟩] := by
  have hsame := forall₂_sameArchival_refl w.db.auditEvents
  cases h with
  | create req => exact Or.inl ⟨rfl, hsame⟩
  | redact req => exact Or.inl ⟨rfl, hsame⟩
  | @append c now call req phase s hcall happend hmove =>
    have happending : w.Appending c req phase := ⟨call, hcall, happend⟩
    rcases hmove.effect (hd.phase happending) with
      ⟨hrows, -⟩ | ⟨event, record, rfl, -, hcommit, -⟩
    · refine Or.inl ⟨rfl, ?_⟩
      rw [hrows]
      exact hsame
    · have hstaged : Staged sha256 w.db req event := hd.phase happending
      have hstored := hs.calls call (List.mem_of_getElem? hcall)
      have hnew := hstored.staged req _ event happend rfl
      exact Or.inr (Or.inl ⟨rfl, event, hnew.archivedAt, hstaged.last,
        (Repo.commitAppend_cases hstaged.last hcommit).1⟩)
  | redaction hcall hmove =>
    refine Or.inl ⟨rfl, ?_⟩
    cases hmove with
    | write => exact sameArchival_redactEventFields w.db _ _
    | _ => exact hsame
  | rollback statement hcall hrunning => exact Or.inl ⟨rfl, hsame⟩
  | retention days now archiveNow =>
    cases hcutoff : now.subDays days with
    | none =>
      refine Or.inl ?_
      simp only [observeSweep, applyRetention, hcutoff]
      exact ⟨trivial, hsame⟩
    | some cutoff =>
      refine Or.inr (Or.inr ⟨cutoff, archiveNow, ?_, ?_⟩)
      · rw [applyRetention_of_cutoff hcutoff]
      · simp only [observeSweep, applyRetention_of_cutoff hcutoff]

/-- The archived rows are those that a sweep found behind its cutoff, each counted once. -/
structure Ledger (events : List AuditEvent) (sweeps : List Sweep) : Prop where
  archived : ∀ e ∈ events,
    e.archivedAt ≠ none ↔ ∃ s ∈ sweeps, e.id ∈ s.present ∧ e.timestamp < s.cutoff
  counted : (sweeps.map Sweep.archivedCount).sum = events.countP fun e => e.archivedAt.isSome
  known : ∀ s ∈ sweeps, ∀ id ∈ s.present, ∃ e ∈ events, e.id = id

variable {events events' : List AuditEvent} {sweeps : List Sweep}

theorem Ledger.of_same (h : Ledger events sweeps) (hsame : List.Forall₂ SameArchival events events') :
    Ledger events' sweeps where
  archived := by
    intro e he
    obtain ⟨a, ha, hid, htime, harchived⟩ := HashChain.exists_of_forall₂_right hsame he
    rw [hid, htime, harchived]
    exact h.archived a ha
  counted := by
    rw [h.counted]
    clear h
    induction hsame with
    | nil => rfl
    | cons hab _ ih => simp only [List.countP_cons, ih, hab.2.2]
  known := by
    intro s hs id hid
    obtain ⟨a, ha, rfl⟩ := h.known s hs id hid
    obtain ⟨e, he, hae⟩ := HashChain.exists_of_forall₂_right hsame.flip ha
    exact ⟨e, he, hae.1⟩

theorem Ledger.of_append (h : Ledger events sweeps) {event : AuditEvent}
    (hnew : event.archivedAt = none) (hlast : ∀ e ∈ events, e.id < event.id) :
    Ledger (events ++ [event]) sweeps where
  archived := by
    intro e he
    rcases List.mem_append.mp he with he | he
    · exact h.archived e he
    · rw [List.mem_singleton.mp he]
      -- No sweep has found the new row: those it found have smaller ids.
      refine iff_of_false (not_not.mpr hnew) ?_
      rintro ⟨s, hs, hpresent, -⟩
      obtain ⟨a, ha, hid⟩ := h.known s hs _ hpresent
      have hlt := hlast a ha
      omega
  counted := by
    rw [h.counted, List.countP_append]
    simp [hnew]
  known := by
    intro s hs id hid
    obtain ⟨e, he, hide⟩ := h.known s hs id hid
    exact ⟨e, List.mem_append_left _ he, hide⟩

/-- The rows that are archived after a sweep were archived before or are counted by it. -/
theorem countP_archiveEventsOlderThan (db : Database) (cutoff now : DateTime) :
    (Repo.archiveEventsOlderThan db cutoff now).2.auditEvents.countP (fun e => e.archivedAt.isSome) =
      db.auditEvents.countP (fun e => e.archivedAt.isSome) +
        (Repo.archiveEventsOlderThan db cutoff now).1 := by
  show List.countP _ (List.map _ _) = _ + List.countP _ _
  generalize db.auditEvents = events
  induction events with
  | nil => rfl
  | cons e events ih =>
    simp only [List.map_cons, List.countP_cons, ih]
    by_cases harchived : e.archivedAt = none
    · by_cases hold : e.timestamp < cutoff
      · simp [harchived, hold]
        omega
      · simp [harchived, hold]
    · simp [harchived]
      omega

theorem Ledger.of_sweep {db : Database} (h : Ledger db.auditEvents sweeps) (cutoff now : DateTime) :
    Ledger (Repo.archiveEventsOlderThan db cutoff now).2.auditEvents
      (sweeps ++ [⟨cutoff, db.auditEvents.map AuditEvent.id,
        (Repo.archiveEventsOlderThan db cutoff now).1⟩]) where
  archived := by
    intro e he
    obtain ⟨a, ha, rfl⟩ := List.mem_map.mp he
    have hpresent : a.id ∈ db.auditEvents.map AuditEvent.id := List.mem_map_of_mem ha
    have hbefore := h.archived a ha
    split
    · -- Archived by this sweep, which found the row.
      rename_i hswept
      refine iff_of_true (Option.some_ne_none now) ?_
      exact ⟨_, List.mem_append_right _ List.mem_cons_self, hpresent, hswept.2⟩
    · rename_i hkept
      rw [hbefore]
      constructor
      · rintro ⟨s, hs, hfound⟩
        exact ⟨s, List.mem_append_left _ hs, hfound⟩
      · rintro ⟨s, hs, hfound⟩
        rcases List.mem_append.mp hs with hs | hs
        · exact ⟨s, hs, hfound⟩
        · rw [List.mem_singleton.mp hs] at hfound
          rw [← hbefore]
          exact fun hnone => hkept ⟨hnone, hfound.2⟩
  counted := by
    rw [List.map_append, List.sum_append, h.counted, countP_archiveEventsOlderThan]
    simp
  known := by
    intro s hs id hid
    have hrow : ∃ a ∈ db.auditEvents, a.id = id := by
      rcases List.mem_append.mp hs with hs | hs
      · exact h.known s hs id hid
      · rw [List.mem_singleton.mp hs] at hid
        exact List.mem_map.mp hid
    obtain ⟨a, ha, rfl⟩ := hrow
    refine ⟨_, List.mem_map_of_mem ha, ?_⟩
    split <;> rfl

variable {w w' : World settings}

/-- Every step keeps the ledger, with what it adds to the sweeps. -/
theorem Ledger.step {action : Action settings} (h : Ledger w.db.auditEvents sweeps)
    (hd : Disciplined sha256 w) (hs : Stored sha256 w) (hstep : Transition sha256 w action w') :
    Ledger w'.db.auditEvents (sweeps ++ observeSweep w action) := by
  rcases hstep.archival hd hs with
    ⟨hseen, hsame⟩ | ⟨hseen, event, hnew, hlast, hrows⟩ | ⟨cutoff, now, hdb, hseen⟩
  · rw [hseen, List.append_nil]
    exact h.of_same hsame
  · rw [hseen, List.append_nil, hrows]
    exact h.of_append hnew hlast
  · rw [hseen, hdb]
    exact h.of_sweep cutoff now

theorem ObservedRun.reaches (h : ObservedRun sha256 w sweeps) :
    Machine.Reaches (AuditLog.step sha256) (fun _ _ => True) (.init .empty) w :=
  Machine.Reaches.of_observed h fun _ _ hok => hok

/-- The run lemma: the ledger is right in every reachable state. -/
theorem ObservedRun.ledger (h : ObservedRun sha256 w sweeps) : Ledger w.db.auditEvents sweeps := by
  have hledger := Machine.Reaches.invariant
    (P := fun s : World settings × List Sweep => Ledger s.1.db.auditEvents s.2) h ?_ ?_
  · exact hledger
  · exact ⟨by rintro _ ⟨⟩, rfl, by rintro _ ⟨⟩⟩
  · rintro ⟨t, log⟩ ⟨u, log'⟩ action run - hstep hbefore
    obtain ⟨hstep, hlog⟩ := Machine.observed_eq_some_iff.mp hstep
    have hreached := ObservedRun.reaches run
    obtain rfl : log' = log ++ observeSweep t action := hlog
    exact hbefore.step (disciplined_of_reaches hreached) (stored_of_reaches hreached)
      (step_cases hstep)

/-! ## Archived rows stay archived -/

/-- The archived rows are there with the same `archived_at`. -/
def KeepsArchived (events events' : List AuditEvent) : Prop :=
  ∀ e ∈ events, e.archivedAt ≠ none →
    ∃ e' ∈ events', e'.id = e.id ∧ e'.archivedAt = e.archivedAt

theorem KeepsArchived.trans {events'' : List AuditEvent} (h : KeepsArchived events events')
    (h' : KeepsArchived events' events'') : KeepsArchived events events'' := by
  intro e he harchived
  obtain ⟨e', he', hid, hat⟩ := h e he harchived
  obtain ⟨e'', he'', hid', hat'⟩ := h' e' he' (by rw [hat]; exact harchived)
  exact ⟨e'', he'', hid'.trans hid, hat'.trans hat⟩

theorem Transition.keepsArchived {action : Action settings} (h : Transition sha256 w action w')
    (hd : Disciplined sha256 w) (hs : Stored sha256 w) :
    KeepsArchived w.db.auditEvents w'.db.auditEvents := by
  intro e he harchived
  rcases h.archival hd hs with ⟨-, hsame⟩ | ⟨-, event, -, -, hrows⟩ | ⟨cutoff, now, hdb, -⟩
  · obtain ⟨e', he', hsame'⟩ := HashChain.exists_of_forall₂_right hsame.flip he
    exact ⟨e', he', hsame'.1, hsame'.2.2⟩
  · rw [hrows]
    exact ⟨e, List.mem_append_left _ he, rfl, rfl⟩
  · -- The `UPDATE` skips rows that are archived already.
    have hskipped : ¬ (e.archivedAt = none ∧ e.timestamp < cutoff) := fun hswept =>
      harchived hswept.1
    have hmem := List.mem_map_of_mem (f := fun e : AuditEvent =>
      if e.archivedAt = none ∧ e.timestamp < cutoff then { e with archivedAt := some now } else e) he
    rw [if_neg hskipped] at hmem
    rw [hdb]
    exact ⟨e, hmem, rfl, rfl⟩

theorem keepsArchived_of_reaches {ok : World settings → Action settings → Prop}
    (hw : Machine.Reaches (AuditLog.step sha256) ok (.init .empty) w)
    (h : Machine.Reaches (AuditLog.step sha256) ok w w') :
    KeepsArchived w.db.auditEvents w'.db.auditEvents := by
  refine h.invariant (P := fun t => KeepsArchived w.db.auditEvents t.db.auditEvents)
    (fun e he _ => ⟨e, he, rfl, rfl⟩) ?_
  intro t u action run hok hstep hkept
  have hreached := hw.trans run
  exact hkept.trans ((step_cases hstep).keepsArchived (disciplined_of_reaches hreached)
    (stored_of_reaches hreached))

/-! ## Retention and its readers -/

/-- **Retention changes visibility only.** No call changes the answer of `verify_chain` or,
apart from `archived_at`, an export, on any table. In every run the archived rows are
those that a sweep found behind its cutoff, each counted once, and they stay archived as
they are. `list_events` leaves them out, and leaves nothing else out. -/
theorem retention_changes_visibility_only (sha256 : Bytes → PyStr) (settings : Settings) :
    (∀ (db : Database) (days : Int) (now archiveNow cutoff : DateTime),
      now.subDays days = some cutoff →
        let db' := (applyRetention db days now archiveNow).2
        verifyChain sha256 db' = verifyChain sha256 db ∧
          ∀ actorId resourceId exportedAt,
            (exportEvents sha256 db' actorId resourceId exportedAt).SameButArchival
              (exportEvents sha256 db actorId resourceId exportedAt)) ∧
    (∀ w : World settings, Machine.Reaches (step sha256) (fun _ _ => True) (.init .empty) w →
      (∃ sweeps, ObservedRun sha256 w sweeps) ∧
      (∀ sweeps, ObservedRun sha256 w sweeps →
        (∀ e ∈ w.db.auditEvents,
          e.archivedAt ≠ none ↔ ∃ s ∈ sweeps, e.id ∈ s.present ∧ e.timestamp < s.cutoff) ∧
        (sweeps.map Sweep.archivedCount).sum =
          w.db.auditEvents.countP fun e => e.archivedAt.isSome) ∧
      (∀ w', Machine.Reaches (step sha256) (fun _ _ => True) w w' →
        ∀ e ∈ w.db.auditEvents, e.archivedAt ≠ none →
          ∃ e' ∈ w'.db.auditEvents, e'.id = e.id ∧ e'.archivedAt = e.archivedAt) ∧
      ∀ (filter : Repo.EventFilter) (limit : Nat), w.db.auditEvents.length ≤ limit →
        Repo.listEvents w.db none none filter limit 0 =
          (Repo.listEventsIncludingArchived w.db filter).filter fun e => e.archivedAt = none) := by
  constructor
  · intro db days now archiveNow cutoff hcutoff
    rw [applyRetention_of_cutoff hcutoff]
    have hkeeps := keepsVerified_archive cutoff archiveNow
    constructor
    · exact hkeeps.verifyChain_map db hkeeps.id
    · intro actorId resourceId exportedAt
      refine exportEvents_mapEvents (fun e => ?_) db hkeeps.id actorId resourceId exportedAt
      split <;> rfl
  · intro w hw
    refine ⟨?_, ?_, ?_, ?_⟩
    · exact hw.exists_observed []
    · intro sweeps hrun
      exact ⟨hrun.ledger.archived, hrun.ledger.counted⟩
    · intro w' hw'
      exact keepsArchived_of_reaches hw hw'
    · intro filter limit hlimit
      exact Repo.listEvents_eq_filter w.db filter hlimit

/-- Two days after the sample event was created. -/
def afterTwoDays : DateTime := (DateTime.sample.subDays (-2)).getD .sample

/-- A sweep two days later archives the sample event. -/
theorem retention_changes_visibility_only_swept :
    ∃ w w' : World {}, Machine.schedule (step Sha256.hexdigest) (fun _ _ => True)
        (createAlone 0 .sample) (.init .empty) = some w ∧
      step Sha256.hexdigest (.applyRetention 1 afterTwoDays afterTwoDays) w = some w' ∧
      w'.db.auditEvents.map AuditEvent.archivedAt = [some afterTwoDays] ∧
      verifyChain Sha256.hexdigest w'.db = verifyChain Sha256.hexdigest w.db ∧
      (∃ sweeps, ObservedRun Sha256.hexdigest w' sweeps ∧
        (sweeps.map Sweep.archivedCount).sum = 1) ∧
      Repo.listEvents w'.db none none {} 1 0 = [] := by
  have hrun : ∃ w ∈ Machine.schedule (step Sha256.hexdigest) (fun _ _ => True)
      (createAlone 0 .sample) (.init .empty),
        (applyRetention w.db 1 afterTwoDays afterTwoDays).2.auditEvents.map AuditEvent.archivedAt =
          [some afterTwoDays] := by
    decide +kernel
  have hcutoff : (afterTwoDays.subDays 1).isSome = true := by
    decide +kernel
  obtain ⟨cutoff, hcutoff⟩ := Option.isSome_iff_exists.mp hcutoff
  obtain ⟨w, hw, harchived⟩ := hrun
  have hreached := Machine.reaches_of_schedule hw
  have hswept : Machine.Reaches (step Sha256.hexdigest) (fun _ _ => True) (.init .empty)
      { w with db := (applyRetention w.db 1 afterTwoDays afterTwoDays).2 } :=
    hreached.tail (a := .applyRetention 1 afterTwoDays afterTwoDays) trivial rfl
  obtain ⟨hframe, hruns⟩ := retention_changes_visibility_only Sha256.hexdigest {}
  obtain ⟨⟨sweeps, hobserved⟩, hledger, -, hqueries⟩ := hruns _ hswept
  have hlength := congrArg List.length harchived
  rw [List.length_map] at hlength
  refine ⟨w, _, hw, rfl, harchived, ?_, ⟨sweeps, hobserved, ?_⟩, ?_⟩
  · exact (hframe w.db 1 afterTwoDays afterTwoDays cutoff hcutoff).1
  · rw [(hledger sweeps hobserved).2]
    have hcount := congrArg (List.countP Option.isSome) harchived
    rw [List.countP_map] at hcount
    exact hcount
  · rw [hqueries {} 1 hlength.le]
    refine List.filter_eq_nil_iff.mpr fun e he => ?_
    rw [Repo.listEventsIncludingArchived_eq] at he
    have hmem := List.mem_map_of_mem (f := AuditEvent.archivedAt) (List.mem_filter.mp he).1
    rw [harchived, List.mem_singleton] at hmem
    simp [hmem]

end AuditLog
