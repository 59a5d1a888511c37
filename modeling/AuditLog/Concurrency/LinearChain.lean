import AuditLog.Concurrency.AppendLock
import AuditLog.Verification.Preservation

/-!
# One linear chain

Whatever the sessions do, the committed rows in id order are one chain from the
genesis hash. The invariant follows the rows as they were committed: these are
linked and self-hashed, and the table holds them retouched.
-/

namespace AuditLog

variable {sha256 : Bytes → PyStr} {settings : Settings}

/-- The events as they were committed, in the order of their commits. -/
def World.history (w : World settings) : List AuditEvent := w.log.map Appended.event

theorem World.history_concat {w w' : World settings} {a : Appended} (h : w'.log = w.log ++ [a]) :
    w'.history = w.history ++ [a.event] := by
  unfold World.history
  rw [h, List.map_append]
  rfl

/-- Nothing is taken from the history. -/
theorem Transition.history_subset {w w' : World settings} {action : Action settings}
    (h : Transition sha256 w action w') : w.history ⊆ w'.history := by
  cases h with
  | append hcall happend hmove =>
    unfold World.history
    rw [List.map_append]
    exact List.subset_append_left _ _
  | _ => exact List.Subset.refl _

/-- The table holds the history, retouched; the history is a hash chain. -/
structure HistoryOk (sha256 : Bytes → PyStr) (w : World settings) : Prop where
  rows : List.Forall₂ Retouched w.history w.db.auditEvents
  linked : LinkedFrom GENESIS_HASH w.history
  hashed : ∀ e ∈ w.history, e.eventHash = contentHash sha256 e

theorem historyOk_init : HistoryOk sha256 (World.init .empty : World settings) where
  rows := List.Forall₂.nil
  linked := trivial
  hashed := fun _ he => by cases he

theorem forall₂_retouched_trans {as bs cs : List AuditEvent} (h : List.Forall₂ Retouched as bs)
    (h' : List.Forall₂ Retouched bs cs) : List.Forall₂ Retouched as cs := by
  induction h generalizing cs with
  | nil => exact h'
  | cons hab _ ih =>
    cases h' with
    | cons hbc hrest => exact List.Forall₂.cons (hab.trans hbc) (ih hrest)

/-- The tip of the history is what the next append reads. -/
theorem HistoryOk.tip {w : World settings} (h : HistoryOk sha256 w) :
    HashChain.tip AuditEvent.eventHash GENESIS_HASH w.history = Repo.lastHash w.db := by
  rw [Repo.lastHash_eq_tip]
  exact (HashChain.tip_of_forall₂ _ (h.rows.imp fun _ _ hab => hab.eventHash)).symm

/-- Every step of a disciplined system keeps the history. -/
theorem HistoryOk.step {w w' : World settings} {action : Action settings} (hd : Disciplined sha256 w)
    (h : HistoryOk sha256 w) (hstep : Transition sha256 w action w') : HistoryOk sha256 w' := by
  rcases hstep.effect hd with ⟨hre, hlog⟩ | ⟨c, req, event, record, happending, hcommit, hlog⟩
  · -- Rows are rewritten in place; nothing is committed.
    have hhistory : w'.history = w.history := congrArg (List.map Appended.event) hlog
    refine ⟨?_, ?_, ?_⟩
    · rw [hhistory]
      exact forall₂_retouched_trans h.rows hre.rows
    · rw [hhistory]
      exact h.linked
    · rw [hhistory]
      exact h.hashed
  · -- The staged row goes to the end of the table and of the history.
    have hstaged : Staged sha256 w.db req event := hd.phase happending
    have hhistory : w'.history = w.history ++ [event] := World.history_concat hlog
    refine ⟨?_, ?_, ?_⟩
    · rw [hhistory, (Repo.commitAppend_cases hstaged.last hcommit).1]
      exact List.rel_append h.rows (List.Forall₂.cons (Retouched.refl event) List.Forall₂.nil)
    · rw [hhistory]
      refine (HashChain.linked_concat _ _ _ _ _).mpr ⟨h.linked, ?_⟩
      rw [h.tip]
      exact hstaged.previousHash
    · rw [hhistory]
      intro e he
      rcases List.mem_append.mp he with he | he
      · exact h.hashed e he
      · rw [List.mem_singleton.mp he]
        exact hstaged.hash

/-- The run lemma: every reachable state keeps its history. -/
theorem historyOk_of_reaches {ok : World settings → Action settings → Prop} {w : World settings}
    (h : Machine.Reaches (step sha256) ok (.init .empty) w) : HistoryOk sha256 w :=
  h.invariant historyOk_init fun _ _ _ run _ hstep hh =>
    hh.step (disciplined_of_reaches run) (step_cases hstep)

/-! ## No fork -/

theorem HistoryOk.linked_rows {w : World settings} (h : HistoryOk sha256 w) :
    LinkedFrom GENESIS_HASH w.db.auditEvents :=
  HashChain.linked_of_forall₂ (h.rows.imp fun _ _ hab => ⟨hab.previousHash, hab.eventHash⟩) h.linked

/-- Retouching keeps the column of a row that it does not set. -/
theorem map_eq_of_retouched {β : Type} (column : AuditEvent → β) {as bs : List AuditEvent}
    (hcolumn : ∀ {a b}, Retouched a b → column b = column a) (h : List.Forall₂ Retouched as bs) :
    bs.map column = as.map column := by
  induction h with
  | nil => rfl
  | cons hab _ ih => rw [List.map_cons, List.map_cons, hcolumn hab, ih]

/-- In a hash chain without collisions the names are distinct, and so are the links. -/
theorem HistoryOk.nodup {w : World settings} (h : HistoryOk sha256 w)
    (hsha : CollisionFree sha256 (hashInputs w.history))
    (hgenesis : ∀ e ∈ w.history, sha256 e.toEventContent.canonical ≠ GENESIS_HASH) :
    (w.history.map AuditEvent.eventHash).Nodup ∧
      (w.history.map fun e => e.previousHash).Nodup := by
  have hstart : ∀ e ∈ w.history, e.eventHash ≠ GENESIS_HASH := by
    intro e he
    rw [h.hashed e he]
    exact hgenesis e he
  -- Equal names come from equal contents, which have equal links.
  have hbind : ∀ a ∈ w.history, ∀ b ∈ w.history, a.eventHash = b.eventHash →
      a.previousHash = b.previousHash := by
    intro a ha b hb hab
    rw [h.hashed a ha, h.hashed b hb] at hab
    have hcanonical := hsha (canonical_mem_hashInputs ha) (canonical_mem_hashInputs hb) hab
    exact ((EventContent.canonical_eq_iff _ _).mp hcanonical).2.2.2.2.2.2.2
  have hnames := HashChain.hashes_nodup hbind hstart h.linked
  exact ⟨hnames, HashChain.prevs_nodup hnames hstart h.linked⟩

/-- **One linear chain.** In every state that concurrent creates, redactions and
retention reach, with rollbacks anywhere, the committed rows in id order form one
chain; without collisions no two of them share a link or a name. -/
theorem committed_rows_form_linear_chain {w : World settings}
    (h : Machine.Reaches (step sha256) (fun _ _ => True) (.init .empty) w) :
    LinkedFrom GENESIS_HASH (Repo.listAllEvents w.db) ∧
      (CollisionFree sha256 (hashInputs w.history) →
        (∀ e ∈ w.history, sha256 e.toEventContent.canonical ≠ GENESIS_HASH) →
        ((Repo.listAllEvents w.db).map fun e => e.previousHash).Nodup ∧
          ((Repo.listAllEvents w.db).map AuditEvent.eventHash).Nodup) := by
  have hok := historyOk_of_reaches h
  refine ⟨hok.linked_rows, ?_⟩
  intro hsha hgenesis
  rcases hok.nodup hsha hgenesis with ⟨hnames, hlinks⟩
  unfold Repo.listAllEvents
  rw [map_eq_of_retouched _ Retouched.previousHash hok.rows,
    map_eq_of_retouched _ Retouched.eventHash hok.rows]
  exact ⟨hlinks, hnames⟩

/-! ## A run of three sessions -/

/-- Two creates and a redaction in turn: call 0 rolls back after its flush, call 1
commits with the next id while call 2 waits for the lock. -/
def threeSessions : List (Action {}) :=
  [.startCreate (createRequest .sample), .startCreate (createRequest .sample),
    .startCreate (createRequest .sample), .advance 0 .sample, .advance 0 .sample, .advance 0 .sample,
    .advance 0 .sample, .rollback 0 .commit, .advance 1 .sample, .advance 1 .sample,
    .advance 1 .sample, .advance 1 .sample, .advance 1 .sample, .advance 1 .sample,
    .advance 2 .sample, .advance 2 .sample, .advance 2 .sample, .advance 2 .sample,
    .startRedact { sampleRedact with eventId := 2 }, .advance 3 .sample, .advance 3 .sample,
    .advance 2 .sample, .advance 2 .sample, .advance 2 .sample, .advance 1 .sample]

theorem committed_rows_form_linear_chain_threeSessions :
    ∃ w : World {}, Machine.schedule (step Sha256.hexdigest) (fun _ _ => True) threeSessions
        (.init .empty) = some w ∧
      LinkedFrom GENESIS_HASH (Repo.listAllEvents w.db) ∧
      ((Repo.listAllEvents w.db).map fun e => e.previousHash).Nodup ∧
      ((Repo.listAllEvents w.db).map AuditEvent.eventHash).Nodup := by
  have hrun : ∃ w ∈ Machine.schedule (step Sha256.hexdigest) (fun _ _ => True) threeSessions
      (.init .empty), (w.history.map (contentHash Sha256.hexdigest)).Nodup ∧
        ∀ e ∈ w.history, Sha256.hexdigest e.toEventContent.canonical ≠ GENESIS_HASH := by
    decide +kernel
  obtain ⟨w, hw, hnd, hgenesis⟩ := hrun
  rcases committed_rows_form_linear_chain (Machine.reaches_of_schedule hw) with ⟨hlinked, hnofork⟩
  exact ⟨w, hw, hlinked, hnofork (collisionFree_of_contentHashes _ hnd) hgenesis⟩

end AuditLog
