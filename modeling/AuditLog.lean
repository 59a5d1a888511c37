import AuditLog.Library.Branching
import AuditLog.Library.Dict
import AuditLog.Library.HashChain
import AuditLog.Library.History
import AuditLog.Library.Decoding
import AuditLog.Library.Machine
import AuditLog.Library.Paging
import AuditLog.Library.SlidingWindow
import AuditLog.Library.Table
import AuditLog.Python.Text
import AuditLog.Python.Number
import AuditLog.Python.Json
import AuditLog.Python.JsonTree
import AuditLog.Python.Dumps
import AuditLog.Python.Sha256
import AuditLog.Python.DateTime
import AuditLog.Python.Isoformat
import AuditLog.Hashing
import AuditLog.HashedContent
import AuditLog.Models
import AuditLog.Repository
import AuditLog.Schemas
import AuditLog.Services.AuditEventService
import AuditLog.Services.RedactionService
import AuditLog.Services.RetentionService
import AuditLog.Services.ChainVerificationService
import AuditLog.Services.ExportService
import AuditLog.Verification.Spec
import AuditLog.Verification.Preservation
import AuditLog.Verification.ClientWrites
import AuditLog.Verification.Tampering
import AuditLog.Verification.ChainBinding
import AuditLog.Verification.Redactions
import AuditLog.Verification.Report
import AuditLog.Verification.SessionTimeZone
import AuditLog.Verification.Manifest
import AuditLog.Runs.OrdinaryRuns
import AuditLog.Concurrency.Model
import AuditLog.Concurrency.Transitions
import AuditLog.Concurrency.AppendLock
import AuditLog.Concurrency.Solo
import AuditLog.Concurrency.LinearChain
import AuditLog.Concurrency.ForgedRedaction
import AuditLog.Concurrency.RedactionRuns
import AuditLog.Concurrency.PendingCommitments
import AuditLog.Runs.RedactionHistory
import AuditLog.Runs.RedactionLog
import AuditLog.Concurrency.LostRedaction
import AuditLog.Concurrency.Idempotency
import AuditLog.Concurrency.StoredRows
import AuditLog.Concurrency.StoredPayloads
import AuditLog.Concurrency.ExportedBundles
import AuditLog.Concurrency.RetentionRuns
import AuditLog.Concurrency.UnhashableTargets
import AuditLog.Concurrency.RedactionWindow
import AuditLog.Concurrency.CommittingAppends
import AuditLog.Concurrency.SerialSystem
import AuditLog.Concurrency.SerialAppends
import AuditLog.Api.Routes
import AuditLog.Api.Compliance
import AuditLog.Api.TimeRange
import AuditLog.Api.Paging
import AuditLog.Api.TenantIsolation
import AuditLog.Api.PostedPayloads
import AuditLog.Core.RateLimit
import AuditLog.Core.RateLimitThreads
import AuditLog.Core.Security
import AuditLog.Core.LogSanitizer
import AuditLog.Core.LoggingConfig
import AuditLog.Core.PayloadLimits
import AuditLog.Core.PayloadWalkers
import AuditLog.Python.IntLiteral
import AuditLog.Core.BodySizeLimit
import AuditLog.Core.SecurityLogging
import AuditLog.Core.Passwords
import AuditLog.Api.Server
import AuditLog.Api.ServerSteps
import AuditLog.Api.Provenance
import AuditLog.Api.Authorship
import AuditLog.Library.Slots
import AuditLog.Api.RequestBudgets
import AuditLog.Api.SecurityTrail
import AuditLog.Api.LoggedWrites
import AuditLog.Api.LoggedSweeps
import AuditLog.Concurrency.RowVersions
import AuditLog.Api.AgreeingAnswers
import AuditLog.Python.LoadsUnique
import AuditLog.Python.LoadsDumps
import AuditLog.Api.LogLines
import AuditLog.Concurrency.SessionErrors
import AuditLog.Api.InternalErrors
