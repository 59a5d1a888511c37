import AuditLog.Verification.Preservation

/-!
# What the chain binds

Two results about whole tables that the links and hashes force: the last hash of
an unredacted table determines every record, and an intact table made of rows of
another one is a prefix of it.
-/

namespace AuditLog

variable {sha256 : Bytes → PyStr}

/-! ## The head binds all records -/

/-- Agreement in every hashed column, the payload up to key order and the
timestamp as text, and in both hashes. -/
structure SameRecord (a b : AuditEvent) : Prop where
  eventHash : a.eventHash = b.eventHash
  previousHash : a.previousHash = b.previousHash
  tenantId : a.tenantId = b.tenantId
  eventType : a.eventType = b.eventType
  actorId : a.actorId = b.actorId
  resourceType : a.resourceType = b.resourceType
  resourceId : a.resourceId = b.resourceId
  payload : Json.Same a.payload.toJson b.payload.toJson
  timestamp : a.timestamp.isoformat = b.timestamp.isoformat

/-- Verified unredacted rows with the same hash are the same record. -/
theorem sameRecord_of_eventHash_eq {a b : AuditEvent}
    (ha : contentHash sha256 a = a.eventHash) (hb : contentHash sha256 b = b.eventHash)
    {inputs : Set Bytes} (hsha : CollisionFree sha256 inputs)
    (hina : a.toEventContent.canonical ∈ inputs) (hinb : b.toEventContent.canonical ∈ inputs)
    (h : a.eventHash = b.eventHash) : SameRecord a b := by
  have hhash : contentHash sha256 a = contentHash sha256 b := by rw [ha, hb, h]
  have hcanonical : a.toEventContent.canonical = b.toEventContent.canonical :=
    hsha hina hinb hhash
  rcases (EventContent.canonical_eq_iff _ _).mp hcanonical with
    ⟨htenant, htype, hactor, hrtype, hrid, hpayload, htime, hprev⟩
  exact ⟨h, hprev, htenant, htype, hactor, hrtype, hrid, same_of_canonicalize_eq hpayload, htime⟩

/-- **Head binding.** Two intact tables without redacted rows whose last rows
have the same `event_hash` have the same records, row by row. -/
theorem head_binds_records {db₁ db₂ : Database}
    (hintact₁ : ReportsIntact sha256 db₁) (hintact₂ : ReportsIntact sha256 db₂)
    (hunredacted₁ : ∀ e ∈ db₁.auditEvents, e.redactedAt = none)
    (hunredacted₂ : ∀ e ∈ db₂.auditEvents, e.redactedAt = none)
    (hsha : CollisionFree sha256 (hashInputs db₁.auditEvents ∪ hashInputs db₂.auditEvents))
    (hgenesis : ∀ input ∈ hashInputs db₁.auditEvents ∪ hashInputs db₂.auditEvents,
      sha256 input ≠ GENESIS_HASH)
    {last₁ last₂ : AuditEvent} (hlast₁ : Repo.getLastEvent db₁ = some last₁)
    (hlast₂ : Repo.getLastEvent db₂ = some last₂) (hhead : last₁.eventHash = last₂.eventHash) :
    List.Forall₂ SameRecord db₁.auditEvents db₂.auditEvents := by
  have hok₁ := (reportsIntact_iff db₁).mp hintact₁
  have hok₂ := (reportsIntact_iff db₂).mp hintact₂
  have hhash₁ : ∀ e ∈ db₁.auditEvents, contentHash sha256 e = e.eventHash := fun e he =>
    (contentOk_unredacted (hunredacted₁ e he) _).mp (hok₁.content e he)
  have hhash₂ : ∀ e ∈ db₂.auditEvents, contentHash sha256 e = e.eventHash := fun e he =>
    (contentOk_unredacted (hunredacted₂ e he) _).mp (hok₂.content e he)
  have hsame : ∀ a ∈ db₁.auditEvents, ∀ b ∈ db₂.auditEvents, a.eventHash = b.eventHash →
      SameRecord a b := fun a ha b hb h =>
    sameRecord_of_eventHash_eq (hhash₁ a ha) (hhash₂ b hb) hsha
      (Or.inl (canonical_mem_hashInputs ha)) (Or.inr (canonical_mem_hashInputs hb)) h
  -- The last rows name the tips; from there on it is a fact about hash chains.
  have htip : HashChain.tip AuditEvent.eventHash GENESIS_HASH db₁.auditEvents =
      HashChain.tip AuditEvent.eventHash GENESIS_HASH db₂.auditEvents := by
    rw [← Repo.lastHash_eq_tip, ← Repo.lastHash_eq_tip, Repo.lastHash, Repo.lastHash, hlast₁, hlast₂]
    exact hhead
  have hnames := HashChain.hashes_eq_of_tip_eq
    (fun a ha b hb h => (hsame a ha b hb h).previousHash)
    (fun a ha => hhash₁ a ha ▸ hgenesis _ (Or.inl (canonical_mem_hashInputs ha)))
    (fun b hb => hhash₂ b hb ▸ hgenesis _ (Or.inr (canonical_mem_hashInputs hb)))
    hok₁.linked hok₂.linked htip
  exact HashChain.forall₂_of_hashes_eq hnames hsame

/-- A body with two payload keys, in either order. -/
def twoKeyBody (flip : Bool) : AuditEventCreate {} :=
  ⟨"A", "b", "c", "d", if flip then ⟨[("y", .null), ("x", .int 1)], by decide⟩
    else ⟨[("x", .int 1), ("y", .null)], by decide⟩, by cases flip <;> decide +kernel⟩

/-- Two events, the first one with its payload keys in either order. -/
def twoKeyTable (flip : Bool) : Database :=
  (createAuditEvent Sha256.hexdigest noFailure (eventTable (twoKeyBody flip)) (createRequest .sample)
    .sample).2

theorem twoKeyTable_intact (flip : Bool) : ReportsIntact Sha256.hexdigest (twoKeyTable flip) := by
  rw [reportsIntact_iff, twoKeyTable]
  exact chainOk_createAuditEvent ((reportsIntact_iff _).mp (eventTable_intact (by cases flip <;> decide)))
    (by decide) Prod.mk.eta.symm

/-- What the events hash to, in either order of the keys. -/
theorem twoKeyTable_inputs (flip : Bool) :
    (twoKeyTable flip).auditEvents.map (fun e => e.toEventContent.canonical) =
      (twoKeyTable false).auditEvents.map fun e => e.toEventContent.canonical := by
  cases flip
  · rfl
  · decide +kernel

/-- Two tables that differ in key order only. -/
theorem head_binds_records_twoKeys :
    (twoKeyTable false).auditEvents ≠ (twoKeyTable true).auditEvents ∧
      (twoKeyTable false).auditEvents.length = 2 ∧
      List.Forall₂ SameRecord (twoKeyTable false).auditEvents (twoKeyTable true).auditEvents := by
  have hunredacted : ∀ flip, ∀ e ∈ (twoKeyTable flip).auditEvents, e.redactedAt = none := by
    decide +kernel
  have hdistinct : (((twoKeyTable false).auditEvents.map fun e => e.toEventContent.canonical).map
      Sha256.hexdigest).Nodup ∧ ∀ input ∈ (twoKeyTable false).auditEvents.map
        (fun e => e.toEventContent.canonical), Sha256.hexdigest input ≠ GENESIS_HASH := by
    decide +kernel
  have hinputs : ∀ input ∈ hashInputs (twoKeyTable false).auditEvents ∪
      hashInputs (twoKeyTable true).auditEvents,
      input ∈ (twoKeyTable false).auditEvents.map fun e => e.toEventContent.canonical := by
    rintro input (⟨e, he, rfl⟩ | ⟨e, he, rfl⟩)
    · exact List.mem_map_of_mem he
    · rw [← twoKeyTable_inputs true]
      exact List.mem_map_of_mem he
  have hheads : (Repo.getLastEvent (twoKeyTable false)).map AuditEvent.eventHash =
      (Repo.getLastEvent (twoKeyTable true)).map AuditEvent.eventHash ∧
        (Repo.getLastEvent (twoKeyTable false)).isSome = true := by
    decide +kernel
  obtain ⟨hheads, hsome⟩ := hheads
  obtain ⟨last₁, hlast₁⟩ := Option.isSome_iff_exists.mp hsome
  rw [hlast₁, Option.map_some, eq_comm, Option.map_eq_some_iff] at hheads
  obtain ⟨last₂, hlast₂, hhead⟩ := hheads
  refine ⟨by decide +kernel, by decide +kernel, ?_⟩
  refine head_binds_records (twoKeyTable_intact false) (twoKeyTable_intact true) (hunredacted false)
    (hunredacted true) ?_ ?_ hlast₁ hlast₂ hhead.symm
  · intro a ha b hb hab
    exact List.inj_on_of_nodup_map hdistinct.1 (hinputs a ha) (hinputs b hb) hab
  · exact fun input hinput => hdistinct.2 input (hinputs input hinput)

/-! ## Selections of rows -/

/-- The same row under a possibly different id. -/
def CopyOf (b a : AuditEvent) : Prop := b = { a with id := b.id }

/-- **Deletion and reordering.** If an intact table is made of rows of another
intact table, in any order and under any ids, and of rows with new hashes, then
the former are a prefix of that table, in its order, before all new rows. -/
theorem selected_rows_form_prefix {db db' : Database}
    (hintact : ReportsIntact sha256 db)
    (hunique : (db.auditEvents.map AuditEvent.eventHash).Nodup)
    (hgenesis : ∀ e ∈ db.auditEvents, e.eventHash ≠ GENESIS_HASH)
    (hrows : ∀ b ∈ db'.auditEvents, (∃ a ∈ db.auditEvents, CopyOf b a) ∨
      (b.eventHash ∉ db.auditEvents.map AuditEvent.eventHash ∧ b.eventHash ≠ GENESIS_HASH))
    (hintact' : ReportsIntact sha256 db') :
    ∃ n, List.Forall₂ CopyOf (db'.auditEvents.take n) (db.auditEvents.take n) ∧
      ∀ b ∈ db'.auditEvents.drop n, b.eventHash ∉ db.auditEvents.map AuditEvent.eventHash := by
  have hlinked := ((reportsIntact_iff db).mp hintact).linked
  have hlinked' := ((reportsIntact_iff db').mp hintact').linked
  refine HashChain.fragment_prefix hunique hgenesis hlinked hlinked' ?_ hrows
  intro b _ a hcopy
  rw [show b = { a with id := b.id } from hcopy]
  exact ⟨rfl, rfl⟩

/-- The first of two events, under another id. -/
def cutTable : Database where
  auditEvents := [{ appendedEvent Sha256.hexdigest .empty (createRequest .sample) .sample with id := 7 }]
  idempotencyKeys := []
  nextEventId := 8
  ordered := List.pairwise_singleton _ _
  sequenceAhead := by simp

theorem selected_rows_form_prefix_cut :
    ∃ n, List.Forall₂ CopyOf (cutTable.auditEvents.take n) (createdTwiceTable.auditEvents.take n) ∧
      ∀ b ∈ cutTable.auditEvents.drop n,
        b.eventHash ∉ createdTwiceTable.auditEvents.map AuditEvent.eventHash := by
  have hunique : (createdTwiceTable.auditEvents.map AuditEvent.eventHash).Nodup ∧
      ∀ e ∈ createdTwiceTable.auditEvents, e.eventHash ≠ GENESIS_HASH := by
    decide +kernel
  have hfirst : appendedEvent Sha256.hexdigest .empty (createRequest .sample) .sample ∈
      createdTwiceTable.auditEvents := by
    decide +kernel
  have hintact : ReportsIntact Sha256.hexdigest cutTable := by
    rw [reportsIntact_iff]
    exact (chainOk_concat_iff chainOk_nil ⟨rfl, rfl⟩ rfl).mpr (harmless_of_type_ne (by decide))
  refine selected_rows_form_prefix createdTwiceTable_intact hunique.1 hunique.2 ?_ hintact
  intro b hb
  rw [List.mem_singleton.mp hb]
  exact Or.inl ⟨_, hfirst, rfl⟩

end AuditLog
