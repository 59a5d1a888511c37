import AuditLog.Api.Routes

/-!
# The account-access report

`GET /audit/compliance/account-access` and the service behind it. Archived and redacted
records stay in the report.
-/

namespace AuditLog

def ACCOUNT_RESOURCE_TYPE : PyStr := "ACCOUNT"

/-- `compliance_service.get_account_access_report`. -/
def accountAccessReport (db : Database) (actorId resourceId : Option PyStr)
    (startTime endTime : Option DateTime) : List AuditEvent :=
  Repo.listEventsIncludingArchived db
    { actorId, resourceType := some ACCOUNT_RESOURCE_TYPE, resourceId, startTime, endTime }

/-- The query parameters of the report. -/
structure ComplianceQuery where
  actorId : Option PyStr := none
  resourceId : Option PyStr := none
  startTime : Option QueryTime := none
  endTime : Option QueryTime := none
deriving DecidableEq

structure ComplianceReportFilterOut where
  actorId : Option PyStr
  resourceId : Option PyStr
  startTime : Option DateTime
  endTime : Option DateTime
deriving DecidableEq

structure ComplianceReportOut where
  resourceType : PyStr
  filter : ComplianceReportFilterOut
  recordCount : Nat
  records : List AuditEventOut
deriving DecidableEq

/-- `Query(min_length=1)`, when the parameter is there. -/
def minLengthParam (loc : String) : Option PyStr → List ParamError
  | none => []
  | some s => if s.len < 1 then [⟨loc, .string (.stringTooShort 1)⟩] else []

/-- The response for the records that were found. -/
def complianceReportOut (actorId resourceId : Option PyStr) (startTime endTime : Option DateTime)
    (records : List AuditEvent) : ComplianceReportOut where
  resourceType := ACCOUNT_RESOURCE_TYPE
  filter := { actorId, resourceId, startTime, endTime }
  recordCount := records.length
  records := records.map AuditEvent.out

/-- `get_account_access_report`; `rateLimit` is what the limiter answers this caller. -/
def Routes.getAccountAccessReport (db : Database) (currentUser : CurrentUser)
    (rateLimit : Except HttpError Unit) (query : ComplianceQuery) :
    Except HttpError ComplianceReportOut := do
  let _ ← requireRoles [.auditor, .admin] currentUser
  rateLimit
  checkParams (minLengthParam "actorId" query.actorId ++ minLengthParam "resourceId" query.resourceId)
  let startTime ← requireUtc query.startTime "from"
  let endTime ← requireUtc query.endTime "to"
  validateRange startTime endTime
  .ok (complianceReportOut query.actorId query.resourceId startTime endTime
    (accountAccessReport db query.actorId query.resourceId startTime endTime))

end AuditLog
