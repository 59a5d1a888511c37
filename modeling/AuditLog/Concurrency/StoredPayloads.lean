import AuditLog.Concurrency.StoredRows

/-!
# Stored payloads

A row of the table was inserted by an append, or written by a redaction from a row that
a call had read, or archived. A property that each of these keeps holds of every stored
row (`RowRule`). The payload limits are one: a redaction puts a short string for a value
under a key that stays.
-/

namespace AuditLog

variable {sha256 : Bytes → PyStr} {settings : Settings} {w w' : World settings}
  {action : Action settings}

/-! ## Where a row comes from -/

/-- A stored row after a step is as it was before, or it has just been redacted, archived
or committed. -/
theorem Transition.mem_rows (hd : Disciplined sha256 w) (h : Transition sha256 w action w')
    {e : AuditEvent} (he : e ∈ w'.db.auditEvents) :
    e ∈ w.db.auditEvents ∨
      (∃ req event, InHand w req event ∧ ∃ row ∈ w.db.auditEvents, row.id = req.eventId ∧
        e = writtenRow sha256 req event row) ∨
      (∃ row ∈ w.db.auditEvents, ∃ archivedAt, e = { row with archivedAt }) ∨
      ∃ c req record, w.Appending c req (.recorded e record) := by
  cases h with
  | create req => exact Or.inl he
  | redact req => exact Or.inl he
  | @append c now call req phase s hcall happend hmove =>
    have happending : w.Appending c req phase := ⟨call, hcall, happend⟩
    rcases hmove.effect (hd.phase happending) with
      ⟨hrows, -⟩ | ⟨event, record, rfl, -, hcommit, -⟩
    · rw [hrows] at he
      exact Or.inl he
    · have hstaged : Staged sha256 w.db req event := hd.phase happending
      rw [(Repo.commitAppend_cases hstaged.last hcommit).1] at he
      rcases List.mem_append.mp he with he | he
      · exact Or.inl he
      · rw [List.mem_singleton.mp he]
        exact Or.inr (Or.inr (Or.inr ⟨c, req, record, happending⟩))
  | redaction hcall hmove =>
    cases hmove with
    | @write event =>
      obtain ⟨row, hrow, rfl⟩ := List.mem_map.mp he
      split
      · rename_i hid
        exact Or.inr (Or.inl ⟨_, event, ⟨_, List.mem_of_getElem? hcall, rfl⟩, row, hrow, hid, rfl⟩)
      · exact Or.inl hrow
    | _ => exact Or.inl he
  | rollback statement hcall hrunning => exact Or.inl he
  | retention days now archiveNow =>
    change e ∈ (applyRetention w.db days now archiveNow).2.auditEvents at he
    unfold applyRetention at he
    split at he
    · exact Or.inl he
    · obtain ⟨row, hrow, rfl⟩ := List.mem_map.mp he
      split
      · exact Or.inr (Or.inr (Or.inl ⟨row, hrow, _, rfl⟩))
      · exact Or.inl hrow

/-! ## Row rules -/

/-- A property of rows that nothing breaks which stores one. -/
structure RowRule (sha256 : Bytes → PyStr) (settings : Settings) (P : AuditEvent → Prop) : Prop where
  inserted : ∀ (body : AuditEventCreate settings) (e : AuditEvent), e.Pristine →
    e.payload = body.payload → P e
  redacted : ∀ req event row, P event → P row → P (writtenRow sha256 req event row)
  archived : ∀ row archivedAt, P row → P { row with archivedAt }

/-- The property holds of the stored rows and of those in hand. -/
structure RowsKeep (P : AuditEvent → Prop) (w : World settings) : Prop where
  rows : ∀ e ∈ w.db.auditEvents, P e
  inHand : ∀ req event, InHand w req event → P event

theorem RowsKeep.step {P : AuditEvent → Prop} (rule : RowRule sha256 settings P) (h : RowsKeep P w)
    (hd : Disciplined sha256 w) (hs : Stored sha256 w) (hstep : Transition sha256 w action w') :
    RowsKeep P w' where
  rows := by
    intro e he
    rcases hstep.mem_rows hd he with
      he | ⟨req, event, hhand, row, hrow, -, rfl⟩ | ⟨row, hrow, archivedAt, rfl⟩ |
        ⟨c, req, record, happending⟩
    · exact h.rows e he
    · exact rule.redacted req event row (h.inHand req event hhand) (h.rows row hrow)
    · exact rule.archived row archivedAt (h.rows row hrow)
    · have hstaged : Staged sha256 w.db req e := hd.phase happending
      obtain ⟨call, hcall, happend⟩ := happending
      exact rule.inserted req.eventIn e
        ((hs.calls call (List.mem_of_getElem? hcall)).staged req _ e happend rfl) hstaged.payload
  inHand := by
    intro req event hhand
    rcases hstep.inHand hhand with hhand | hfound
    · exact h.inHand req event hhand
    · exact h.rows event ((Repo.getEvent_eq_some_iff _ _ _).mp hfound).1

/-- **The rule for stored rows**: what inserts, redactions and archivals keep holds of every
row of a reachable table. -/
theorem RowRule.rows {P : AuditEvent → Prop} (rule : RowRule sha256 settings P)
    {ok : World settings → Action settings → Prop}
    (h : Machine.Reaches (step sha256) ok (.init .empty) w) : ∀ e ∈ w.db.auditEvents, P e := by
  have hkeep : RowsKeep P w := by
    refine h.invariant (P := RowsKeep P) ⟨?_, ?_⟩ ?_
    · intro e he
      cases he
    · rintro req event ⟨phase, hmem, -⟩
      cases hmem
    · intro t u action run _ hstep ht
      exact ht.step rule (disciplined_of_reaches run) (stored_of_reaches run) (step_cases hstep)
  exact hkeep.rows

/-! ## The limits -/

/-- The payload is no deeper than allowed, and every string of it is short enough, but for
the marker under a redacted field. -/
structure KeepsLimits (settings : Settings) (e : AuditEvent) : Prop where
  depth : e.payload.toJson.depth ≤ settings.maxPayloadDepth
  members : ∀ k v, e.payload.get? k = some v →
    k.len ≤ settings.maxPayloadStringLength ∧
      (v.hasOverlong settings.maxPayloadStringLength = false ∨
        k ∈ alreadyRedacted e ∧ v = .str REDACTED_MARKER)

/-- A payload within the limits, member by member. -/
theorem WithinPayloadLimits.members {p : Payload} (h : WithinPayloadLimits settings p.toJson)
    {k : PyStr} {v : Json} (hk : p.get? k = some v) :
    k.len ≤ settings.maxPayloadStringLength ∧
      v.hasOverlong settings.maxPayloadStringLength = false := by
  have hmem := Dict.mem_of_get hk
  have hshort := ((withinPayloadLimits_iff settings _).mp h).2
  rw [← Bool.not_eq_true, hasOverlong_step, not_or] at hshort
  constructor
  · have hkey := h.strings [] p.toJson rfl k (List.mem_map_of_mem hmem)
    exact hkey
  · rw [← Bool.not_eq_true]
    intro hlong
    exact hshort.2 ⟨v, List.mem_map_of_mem hmem, hlong⟩

theorem depth_redactedPayload_le {event : AuditEvent} {fields : List PyStr}
    (h : ∀ f ∈ fields, event.payload.contains f = true) :
    (redactedPayload event fields).toJson.depth ≤ event.payload.toJson.depth := by
  unfold redactedPayload
  generalize event.payload = p at h
  induction fields generalizing p with
  | nil => exact Nat.le_refl _
  | cons f fields ih =>
    have hset := depth_setStr_le (h f List.mem_cons_self) REDACTED_MARKER
    refine Nat.le_trans (ih _ fun f' hf' => ?_) hset
    have hthere := h f' (List.mem_cons_of_mem _ hf')
    unfold Payload.contains at hthere ⊢
    rw [Payload.get?_setStr]
    split
    · rfl
    · exact hthere

/-- **The limits are kept**: inserts are checked, a redaction replaces values under keys that
stay, an archival does not touch the payload. -/
theorem keepsLimits_rule (sha256 : Bytes → PyStr) (settings : Settings) :
    RowRule sha256 settings (KeepsLimits settings) where
  inserted := by
    intro body e _ hpayload
    have hwithin := body.withinPayloadLimits
    rw [← hpayload] at hwithin
    refine ⟨((withinPayloadLimits_iff settings _).mp hwithin).1, fun k v hk => ?_⟩
    obtain ⟨hkey, hvalue⟩ := hwithin.members hk
    exact ⟨hkey, Or.inl hvalue⟩
  redacted := by
    intro req event row hevent _
    constructor
    · exact Nat.le_trans (depth_redactedPayload_le fun f hf =>
        (mem_fieldsToRedact.mp hf).2.1) hevent.depth
    · intro k v hk
      change (redactedPayload event (fieldsToRedact event req.fields)).get? k = some v at hk
      rw [get?_redactedPayload] at hk
      unfold writtenRow
      rw [mem_alreadyRedacted_redactionUpdate]
      by_cases hnew : k ∈ fieldsToRedact event req.fields
      · rw [if_pos hnew, Option.some.injEq] at hk
        obtain ⟨old, hold⟩ := Option.isSome_iff_exists.mp (mem_fieldsToRedact.mp hnew).2.1
        exact ⟨(hevent.members k old hold).1, Or.inr ⟨Or.inr hnew, hk.symm⟩⟩
      · rw [if_neg hnew] at hk
        obtain ⟨hkey, hvalue⟩ := hevent.members k v hk
        exact ⟨hkey, hvalue.imp_right fun hmarked => ⟨Or.inl hmarked.1, hmarked.2⟩⟩
  archived := fun row _ hrow => ⟨hrow.depth, hrow.members⟩

/-- The limits at every position of the stored payload. -/
theorem KeepsLimits.strings {e : AuditEvent} (h : KeepsLimits settings e) {p : List Nat} {v : Json}
    (hv : Json.tree.at? e.payload.toJson p = some v) {s : PyStr} (hs : s ∈ v.ownStrings) :
    s.len ≤ settings.maxPayloadStringLength ∨ alreadyRedacted e ≠ [] ∧ s = REDACTED_MARKER := by
  cases p with
  | nil =>
    cases hv
    obtain ⟨⟨k, x⟩, hmem, rfl⟩ := List.mem_map.mp hs
    exact Or.inl (h.members k x (Dict.get_of_mem e.payload.keys_nodup hmem)).1
  | cons i p =>
    obtain ⟨c, hc, hat⟩ := Branching.at?_cons_eq_some_iff.mp hv
    obtain ⟨⟨k, x⟩, hmem, rfl⟩ := List.mem_map.mp (List.mem_of_getElem? hc)
    rcases (h.members k x (Dict.get_of_mem e.payload.keys_nodup hmem)).2 with
      hshort | ⟨hlisted, rfl⟩
    · rw [← Bool.not_eq_true, hasOverlong_iff] at hshort
      refine Or.inl (Nat.le_of_not_lt fun hlong => hshort ⟨p, v, hat, s, hs, hlong⟩)
    · -- Nothing stands below the marker.
      have hroot : v = .str REDACTED_MARKER := by
        cases p with
        | nil => exact (Option.some.inj hat).symm
        | cons j p =>
          obtain ⟨d, hd, -⟩ := Branching.at?_cons_eq_some_iff.mp hat
          cases List.mem_of_getElem? hd
      rw [hroot] at hs
      exact Or.inr ⟨List.ne_nil_of_mem hlisted, List.mem_singleton.mp hs⟩

end AuditLog
