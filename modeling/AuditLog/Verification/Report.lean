import AuditLog.Verification.Preservation

/-!
# What a report means

`verify_chain` against a statement without loops: a row is good when its content
check passes and it links to the row before it. The dict that later companions
overwrite becomes the last row that commits for an id; the two early exits become
the first row that is not good, with the content check taking precedence.
-/

namespace AuditLog

/-! ## Good rows -/

section Good

variable (sha256 : Bytes → PyStr)

/-- The row vouches for its own content, names the id and commits to something. -/
def CommitsFor (event : AuditEvent) (id : Int) : Prop :=
  Trusted sha256 event ∧ hashKey (event.payload.get "targetEventId") = some (.int id) ∧
    event.payload.get "redactedContentHash" ≠ .null

/-- The last row in id order that commits for the id. -/
def LastFor (events : List AuditEvent) (id : Int) (companion : AuditEvent) : Prop :=
  ∃ before after, events = before ++ companion :: after ∧ CommitsFor sha256 companion id ∧
    ∀ e ∈ after, ¬ CommitsFor sha256 e id

/-- The content check passes. -/
def GoodContent (events : List AuditEvent) (row : AuditEvent) : Prop :=
  if row.redactedAt = none then contentHash sha256 row = row.eventHash
  else ∃ companion, LastFor sha256 events row.id companion ∧
    companion.payload.get "redactedContentHash" = .str (contentHash sha256 row)

/-- The row links to the last one before it, the first row to the genesis hash. -/
def GoodLink (before : List AuditEvent) (row : AuditEvent) : Prop :=
  match before.getLast? with
  | none => row.previousHash = GENESIS_HASH
  | some previous => row.previousHash = previous.eventHash

/-- The row of the table that stands behind `before` is good. -/
def Good (events before : List AuditEvent) (row : AuditEvent) : Prop :=
  GoodContent sha256 events row ∧ GoodLink before row

/-- Every row of `rows`, the first rows of the table, is good. -/
def AllGood (events rows : List AuditEvent) : Prop :=
  ∀ before row after, rows = before ++ row :: after → Good sha256 events before row

/-- What is wrong with the row when a violation of the type is reported. -/
def Explains (events before : List AuditEvent) (row : AuditEvent) : ChainViolationType → Prop
  | .eventHashMismatch => row.redactedAt = none ∧ contentHash sha256 row ≠ row.eventHash
  | .redactionCommitmentMissing => row.redactedAt ≠ none ∧ ∀ e ∈ events, ¬ CommitsFor sha256 e row.id
  | .redactedContentMismatch => row.redactedAt ≠ none ∧ ∃ companion,
    LastFor sha256 events row.id companion ∧
      companion.payload.get "redactedContentHash" ≠ .str (contentHash sha256 row)
  | .previousHashMismatch => GoodContent sha256 events row ∧ ¬ GoodLink before row

end Good

variable {sha256 : Bytes → PyStr}

/-! ## The last commitment -/

theorem commitmentFor_eq_some_iff_commitsFor {event : AuditEvent} {id : Int} {commitment : Json} :
    commitmentFor sha256 event (.int id) = some commitment ↔
      CommitsFor sha256 event id ∧ event.payload.get "redactedContentHash" = commitment := by
  rw [commitmentFor_eq_some_iff]
  constructor
  · rintro ⟨htrusted, -, hkey, hhash, hnull⟩
    exact ⟨⟨htrusted, hkey, hhash ▸ hnull⟩, hhash⟩
  · rintro ⟨⟨htrusted, hkey, hnull⟩, rfl⟩
    refine ⟨htrusted, ?_, hkey, rfl, hnull⟩
    intro htarget
    rw [htarget] at hkey
    cases hkey

theorem commitmentFor_eq_none_iff_not_commitsFor {event : AuditEvent} {id : Int} :
    commitmentFor sha256 event (.int id) = none ↔ ¬ CommitsFor sha256 event id := by
  constructor
  · intro hnone hcommits
    rw [commitmentFor_eq_some_iff_commitsFor.mpr ⟨hcommits, rfl⟩] at hnone
    cases hnone
  · intro hnot
    rw [Option.eq_none_iff_forall_not_mem]
    exact fun c hc => hnot (commitmentFor_eq_some_iff_commitsFor.mp hc).1

theorem lastCommitment_eq_none_iff {events : List AuditEvent} {id : Int} :
    lastCommitment sha256 events (.int id) = none ↔ ∀ e ∈ events, ¬ CommitsFor sha256 e id := by
  induction events with
  | nil => simp [lastCommitment]
  | cons e events ih =>
    rw [lastCommitment, Option.or_eq_none_iff, ih, commitmentFor_eq_none_iff_not_commitsFor,
      List.forall_mem_cons, and_comm]

/-- The overwritten dict entry is the commitment of the last row that commits. -/
theorem lastCommitment_eq_some_iff {events : List AuditEvent} {id : Int} {commitment : Json} :
    lastCommitment sha256 events (.int id) = some commitment ↔
      ∃ companion, LastFor sha256 events id companion ∧
        companion.payload.get "redactedContentHash" = commitment := by
  constructor
  · intro h
    induction events with
    | nil => cases h
    | cons e events ih =>
      rw [lastCommitment] at h
      rcases Option.or_eq_some_iff.mp h with h | ⟨hnone, h⟩
      · rcases ih h with ⟨companion, ⟨before, after, hsplit, hcommits⟩, hhash⟩
        exact ⟨companion, ⟨e :: before, after, by rw [hsplit, List.cons_append], hcommits⟩, hhash⟩
      · rcases commitmentFor_eq_some_iff_commitsFor.mp h with ⟨hcommits, hhash⟩
        exact ⟨e, ⟨[], events, rfl, hcommits, lastCommitment_eq_none_iff.mp hnone⟩, hhash⟩
  · rintro ⟨companion, ⟨before, after, rfl, hcommits, hafter⟩, hhash⟩
    rw [lastCommitment_append, lastCommitment, lastCommitment_eq_none_iff.mpr hafter, Option.none_or,
      commitmentFor_eq_some_iff_commitsFor.mpr ⟨hcommits, hhash⟩, Option.some_or]

/-- The content check of the walk is the quantified one. -/
theorem contentOk_iff_goodContent {events : List AuditEvent} {row : AuditEvent} :
    ContentOk sha256 (lastCommitment sha256 events (.int row.id)) row ↔
      GoodContent sha256 events row := by
  unfold ContentOk GoodContent
  rw [lastCommitment_eq_some_iff]

/-! ## The walk -/

theorem goodLink_iff_tip {before : List AuditEvent} {row : AuditEvent} :
    GoodLink before row ↔
      row.previousHash = HashChain.tip AuditEvent.eventHash GENESIS_HASH before := by
  unfold GoodLink
  rw [HashChain.tip_eq_getLast?]
  cases before.getLast? <;> rfl

theorem allGood_nil (events : List AuditEvent) : AllGood sha256 events [] := by
  intro before row after h
  cases before <;> cases h

theorem allGood_concat {events rows : List AuditEvent} {row : AuditEvent} :
    AllGood sha256 events (rows ++ [row]) ↔ AllGood sha256 events rows ∧ Good sha256 events rows row := by
  constructor
  · intro h
    refine ⟨?_, h rows row [] rfl⟩
    rintro before row' after rfl
    exact h before row' (after ++ [row]) (by simp)
  · rintro ⟨hrows, hrow⟩ before row' after hsplit
    rcases List.eq_nil_or_concat after with rfl | ⟨after, last, rfl⟩
    · rcases List.append_inj' hsplit rfl with ⟨rfl, heq⟩
      cases heq
      exact hrow
    · refine hrows before row' after ?_
      have hsplit' : rows ++ [row] = (before ++ row' :: after) ++ [last] := by
        rw [hsplit]
        simp
      exact (List.append_inj' hsplit' rfl).1

/-- A failed content check is explained by the row's content. -/
theorem explains_of_contentViolation (before : List AuditEvent) {events : List AuditEvent}
    {row : AuditEvent} {commitments : Commitments} {violation : ChainViolation}
    (hget : ∀ key, Dict.get commitments key = lastCommitment sha256 events key)
    (h : contentViolation sha256 commitments row = some violation) :
    violation.recordId = row.id ∧ Explains sha256 events before row violation.violationType := by
  unfold contentViolation at h
  dsimp only at h
  split at h
  · rename_i hredacted
    split at h
    · rename_i hhash
      cases h
      exact ⟨rfl, hredacted, hhash⟩
    · cases h
  · rename_i hredacted
    rw [hget] at h
    split at h
    · rename_i hnone
      cases h
      exact ⟨rfl, hredacted, lastCommitment_eq_none_iff.mp hnone⟩
    · rename_i commitment hsome
      split at h
      · rename_i hother
        cases h
        rcases lastCommitment_eq_some_iff.mp hsome with ⟨companion, hlast, rfl⟩
        exact ⟨rfl, hredacted, companion, hlast, Ne.symm hother⟩
      · cases h

theorem explains_of_linkViolation {events before : List AuditEvent} {row : AuditEvent}
    {violation : ChainViolation} (hcontent : GoodContent sha256 events row)
    (h : linkViolation (HashChain.tip AuditEvent.eventHash GENESIS_HASH before) row = some violation) :
    violation.recordId = row.id ∧ Explains sha256 events before row violation.violationType := by
  unfold linkViolation at h
  split at h
  · rename_i hlink
    cases h
    exact ⟨rfl, hcontent, fun hgood => hlink (goodLink_iff_tip.mp hgood)⟩
  · cases h

/-- The report names the first row that is not good. -/
structure ReportsFirstBad (sha256 : Bytes → PyStr) (events : List AuditEvent)
    (result : ChainVerificationResult) (before : List AuditEvent) (row : AuditEvent)
    (violation : ChainViolation) : Prop where
  position : result.recordsChecked = before.length + 1
  reported : result.violation = some violation
  recordId : violation.recordId = row.id
  good : AllGood sha256 events before
  bad : ¬ Good sha256 events before row
  explains : Explains sha256 events before row violation.violationType

/-- An explained violation is one: the row is not good. -/
theorem Explains.not_good {events before : List AuditEvent} {row : AuditEvent}
    {type : ChainViolationType} (h : Explains sha256 events before row type) :
    ¬ Good sha256 events before row := by
  rintro ⟨hcontent, hlink⟩
  rw [← contentOk_iff_goodContent] at hcontent
  cases type with
  | eventHashMismatch => exact h.2 ((contentOk_unredacted h.1 _).mp hcontent)
  | redactionCommitmentMissing =>
    rw [contentOk_redacted h.1, lastCommitment_eq_none_iff.mpr h.2] at hcontent
    cases hcontent
  | redactedContentMismatch =>
    rcases h.2 with ⟨companion, hlast, hother⟩
    rw [contentOk_redacted h.1, lastCommitment_eq_some_iff.mpr ⟨companion, hlast, rfl⟩] at hcontent
    exact hother (Option.some.inj hcontent)
  | previousHashMismatch => exact h.2 hlink

/-- **The walk from any row on**: with everything before it good, it ends at the end of
the table, or at the first row that is not good. -/
theorem verifyFrom_refines {events : List AuditEvent} {commitments : Commitments}
    (hget : ∀ key, Dict.get commitments key = lastCommitment sha256 events key)
    {before : List AuditEvent} (rest : List AuditEvent) (hbefore : AllGood sha256 events before) :
    let result := verifyFrom sha256 commitments
      (HashChain.tip AuditEvent.eventHash GENESIS_HASH before) before.length rest
    (result = ⟨true, (before ++ rest).length, none⟩ ∧ AllGood sha256 events (before ++ rest)) ∨
      (result.intact = false ∧ ∃ good row after violation, before ++ rest = good ++ row :: after ∧
        ReportsFirstBad sha256 events result good row violation) := by
  induction rest generalizing before with
  | nil =>
    refine Or.inl ⟨?_, ?_⟩
    · rw [List.append_nil]
      rfl
    · rw [List.append_nil]
      exact hbefore
  | cons row rest ih =>
    intro result
    have hstop : ∀ violation, result = ⟨false, before.length + 1, some violation⟩ →
        violation.recordId = row.id →
        Explains sha256 events before row violation.violationType →
        result.intact = false ∧ ∃ good row' after violation,
          before ++ row :: rest = good ++ row' :: after ∧
            ReportsFirstBad sha256 events result good row' violation := by
      intro violation hresult hid hexplains
      rw [hresult]
      exact ⟨rfl, before, row, rest, violation, rfl, rfl, rfl, hid, hbefore, hexplains.not_good,
        hexplains⟩
    cases hcontent : contentViolation sha256 commitments row with
    | some violation =>
      rcases explains_of_contentViolation before hget hcontent with ⟨hid, hexplains⟩
      refine Or.inr (hstop violation ?_ hid hexplains)
      show verifyFrom sha256 commitments _ before.length (row :: rest) = _
      rw [verifyFrom, hcontent]
    | none =>
      have hgood : GoodContent sha256 events row := by
        rw [contentViolation_eq_none_iff, hget] at hcontent
        exact contentOk_iff_goodContent.mp hcontent
      cases hlink : linkViolation (HashChain.tip AuditEvent.eventHash GENESIS_HASH before) row with
      | some violation =>
        rcases explains_of_linkViolation hgood hlink with ⟨hid, hexplains⟩
        refine Or.inr (hstop violation ?_ hid hexplains)
        show verifyFrom sha256 commitments _ before.length (row :: rest) = _
        rw [verifyFrom, hcontent]
        simp only [hlink]
      | none =>
        -- The row passes both checks, and the walk goes on behind it.
        have hlinked := goodLink_iff_tip.mpr ((linkViolation_eq_none_iff _ _).mp hlink)
        have hnext := ih (allGood_concat.mpr ⟨hbefore, hgood, hlinked⟩)
        have hresult : result = verifyFrom sha256 commitments
            (HashChain.tip AuditEvent.eventHash GENESIS_HASH (before ++ [row]))
            (before ++ [row]).length rest := by
          show verifyFrom sha256 commitments _ before.length (row :: rest) = _
          rw [verifyFrom, hcontent, HashChain.tip_append, List.length_append]
          simp only [hlink]
          rfl
        rw [hresult]
        rw [List.append_assoc] at hnext
        exact hnext

/-! ## The report -/

/-- **The report refines its specification.** A report is intact exactly when every row
is good, and then counts the rows; any other report names the first row that is not
good, with the reason, the content check before the link. -/
theorem verifyChain_refines {db : Database} {result : ChainVerificationResult}
    (h : verifyChain sha256 db = .ok result) :
    (result.intact = true ↔ AllGood sha256 db.auditEvents db.auditEvents) ∧
      (result.intact = true →
        result.recordsChecked = db.auditEvents.length ∧ result.violation = none) ∧
      (result.intact = false → ∃ before row after violation,
        db.auditEvents = before ++ row :: after ∧
          ReportsFirstBad sha256 db.auditEvents result before row violation) := by
  have hhashable := (verifyChain_answers_iff db).mp ⟨result, h⟩
  rcases latestRedactionCommitments_ok hhashable with ⟨commitments, hok, hget⟩
  unfold verifyChain Repo.listAllEvents at h
  rw [hok] at h
  have hresult : verifyFrom sha256 commitments GENESIS_HASH 0 db.auditEvents = result := Except.ok.inj h
  have hwalk := verifyFrom_refines hget db.auditEvents (allGood_nil db.auditEvents)
  simp only [HashChain.tip_nil, List.length_nil, List.nil_append, hresult] at hwalk
  rcases hwalk with ⟨rfl, hgood⟩ | ⟨hintact, before, row, after, violation, hsplit, hreport⟩
  · exact ⟨iff_of_true rfl hgood, fun _ => ⟨rfl, rfl⟩, fun hfalse => Bool.noConfusion hfalse⟩
  · have hnot : ¬ AllGood sha256 db.auditEvents db.auditEvents := by
      intro hall
      exact hreport.bad (hall before row after hsplit)
    have hfalse : ¬ result.intact = true := by
      rw [hintact]
      exact Bool.false_ne_true
    exact ⟨iff_of_false hfalse hnot, fun htrue => absurd htrue hfalse,
      fun _ => ⟨before, row, after, violation, hsplit, hreport⟩⟩

/-- The specification at a table with a redacted row and its companion. -/
theorem verifyChain_refines_redacted :
    AllGood Sha256.hexdigest redactedTable.auditEvents redactedTable.auditEvents := by
  have hresult := (reportsIntact_iff_eq redactedTable).mp redactedTable_intact
  exact (verifyChain_refines hresult).1.mp rfl

end AuditLog
