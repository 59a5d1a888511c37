import AuditLog.Services.RedactionService

/-!
# `chain_verification_service`

`verify_chain`: collect the redaction commitments, then walk the rows in id
order and stop at the first one that fails a check. Commitments are kept in a
Python dict keyed by whatever JSON value stands under `targetEventId`: equal
numbers are one key, and a list or dict is no key at all (`TypeError`).
-/

namespace AuditLog

/-! ## Dict keys -/

/-- JSON values as dict keys: `True == 1 == 1.0`. -/
inductive HashKey where
  | none
  | int (n : Int)
  | float (x : PyFloat)
  | str (s : PyStr)
deriving DecidableEq

/-- The key a value hashes to; lists and dicts are unhashable. -/
def hashKey : Json → Option HashKey
  | .null => some .none
  | .bool b => some (.int (if b then 1 else 0))
  | .int n => some (.int n)
  | .float x =>
    match x.toInt? with
    | some n => some (.int n)
    | none => some (.float x)
  | .str s => some (.str s)
  | .arr _ => none
  | .obj _ => none

/-- `TypeError: unhashable type`, for the given target. -/
structure UnhashableError where
  target : Json
deriving DecidableEq

/-! ## Results -/

inductive ChainViolationType where
  | eventHashMismatch
  | previousHashMismatch
  | redactedContentMismatch
  | redactionCommitmentMissing
deriving DecidableEq

structure ChainViolation where
  recordId : Int
  violationType : ChainViolationType
  detail : FString
deriving DecidableEq

structure ChainVerificationResult where
  intact : Bool
  recordsChecked : Nat
  violation : Option ChainViolation
deriving DecidableEq

section Verify

variable (sha256 : Bytes → PyStr)

/-! ## Commitments -/

abbrev Commitments := List (HashKey × Json)

/-- One row of the loop in `_latest_redaction_commitments`. -/
def recordCommitment (commitments : Commitments) (event : AuditEvent) :
    Except UnhashableError Commitments :=
  -- Any writer can post this event type; only the row's own hash is checked.
  if event.eventType = REDACTION_EVENT_TYPE ∧ contentHash sha256 event = event.eventHash then
    let targetId := event.payload.get "targetEventId"
    let commitment := event.payload.get "redactedContentHash"
    if targetId ≠ .null ∧ commitment ≠ .null then
      match hashKey targetId with
      -- A later row overwrites what an earlier one has committed to.
      | some key => .ok (Dict.set commitments key commitment)
      | none => .error ⟨targetId⟩
    else .ok commitments
  else .ok commitments

/-- `_latest_redaction_commitments`. -/
def latestRedactionCommitments (events : List AuditEvent) : Except UnhashableError Commitments :=
  events.foldlM (recordCommitment sha256) []

/-! ## The walk -/

/-- The content check of one row. -/
def contentViolation (commitments : Commitments) (event : AuditEvent) : Option ChainViolation :=
  let recomputedHash := contentHash sha256 event
  if event.redactedAt = none then
    if recomputedHash ≠ event.eventHash then
      some ⟨event.id, .eventHashMismatch,
        [.text "Recomputed hash ", .repr recomputedHash, .text " does not match the stored event_hash ",
          .repr event.eventHash, .text " for record ", .int event.id, .text "."]⟩
    else none
  else
    match Dict.get commitments (.int event.id) with
    | none =>
      some ⟨event.id, .redactionCommitmentMissing,
        [.text "Record ", .int event.id,
          .text " is marked redacted (redacted_at is set) but no ",
          .text "companion AUDIT_EVENT_REDACTED event with a matching commitment ",
          .text "was found in the chain."]⟩
    | some commitment =>
      if .str recomputedHash ≠ commitment then
        some ⟨event.id, .redactedContentMismatch,
          [.text "Record ", .int event.id, .text "'s current content hashes to ",
            .repr recomputedHash,
            .text ", which does not match the approved ", .text "post-redaction commitment ",
            .reprJson commitment, .text " recorded at redaction ",
            .text "time - a field outside the authorized redaction was changed."]⟩
      else none

/-- The link check of one row. -/
def linkViolation (expectedPreviousHash : PyStr) (event : AuditEvent) : Option ChainViolation :=
  if event.previousHash ≠ expectedPreviousHash then
    some ⟨event.id, .previousHashMismatch,
      [.text "Record ", .int event.id, .text "'s stored previous_hash ", .repr event.previousHash,
        .text " does not match the expected value ", .repr expectedPreviousHash,
        .text " (the prior record's event_hash, or the genesis value for the first record)."]⟩
  else none

/-- The loop of `verify_chain`, from the row at position `index` on. -/
def verifyFrom (commitments : Commitments) :
    PyStr → Nat → List AuditEvent → ChainVerificationResult
  | _, index, [] => ⟨true, index, none⟩
  | expectedPreviousHash, index, event :: events =>
    -- The content comes first: a row that fails both checks is reported for its content.
    match contentViolation sha256 commitments event with
    | some violation => ⟨false, index + 1, some violation⟩
    | none =>
      match linkViolation expectedPreviousHash event with
      | some violation => ⟨false, index + 1, some violation⟩
      | none => verifyFrom commitments event.eventHash (index + 1) events

/-- `verify_chain`. -/
def verifyChain (db : Database) : Except UnhashableError ChainVerificationResult :=
  match latestRedactionCommitments sha256 (Repo.listAllEvents db) with
  | .error err => .error err
  | .ok commitments => .ok (verifyFrom sha256 commitments GENESIS_HASH 0 (Repo.listAllEvents db))

/-- `verify_chain` reports intact. -/
def ReportsIntact (db : Database) : Prop :=
  ∃ result, verifyChain sha256 db = .ok result ∧ result.intact = true

end Verify

end AuditLog
