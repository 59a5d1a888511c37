import AuditLog.Repository

/-!
# `retention_service`
-/

namespace AuditLog

structure RetentionResult where
  cutoff : DateTime
  archivedCount : Nat
deriving DecidableEq

/-- `apply_retention`; `none` stands for the `OverflowError` of a cutoff before
the year 1. `archiveNow` is the clock reading of the `UPDATE`. -/
def applyRetention (db : Database) (retentionWindowDays : Int) (now archiveNow : DateTime) :
    Option RetentionResult × Database :=
  match now.subDays retentionWindowDays with
  | none => (none, db)
  | some cutoff =>
    let (archivedCount, db) := Repo.archiveEventsOlderThan db cutoff archiveNow
    (some ⟨cutoff, archivedCount⟩, db)

end AuditLog
