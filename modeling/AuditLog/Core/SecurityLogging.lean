import AuditLog.Api.Routes
import AuditLog.Core.LoggingConfig
import AuditLog.Python.IntLiteral
import AuditLog.Services.ChainVerificationService

/-!
# Security events (`security_logging.py`)

The events that the service logs, each with its level and its fields, and the record that
`log_security_event` makes of one. The signing key, which the settings only accept when it
is long, is in no line as it is read, whatever the fields and the traceback say
(`security_log_hides_secrets`). That is for a key without characters beyond the first plane: a
traceback with the surrogates of such a character is not recognised.
-/

namespace AuditLog

/-! ## Events -/

/-- The levels that the service logs at. -/
inductive LogLevel where
  | info
  | warning
  | error
deriving DecidableEq

def LogLevel.levelname : LogLevel → String
  | .info => "INFO"
  | .warning => "WARNING"
  | .error => "ERROR"

/-- `LOGGER_NAME`. -/
def LOGGER_NAME : String := "audit_log_service"

/-- What is logged of an exception: its type, its `str` and its formatted traceback. -/
structure ExcInfo where
  typeName : PyText
  message : PyText
  traceback : PyText
deriving DecidableEq

/-- The values of the enumeration. -/
def ChainViolationType.value : ChainViolationType → String
  | .eventHashMismatch => "EVENT_HASH_MISMATCH"
  | .previousHashMismatch => "PREVIOUS_HASH_MISMATCH"
  | .redactedContentMismatch => "REDACTED_CONTENT_MISMATCH"
  | .redactionCommitmentMissing => "REDACTION_COMMITMENT_MISSING"

/-- The calls of `log_security_event`, with the fields they pass. -/
inductive SecurityEvent where
  | authzDenied (username : PyStr) (role : Role) (requiredRoles : List Role) (path : PyStr)
      (method : String)
  | loginFailure (username : PyStr)
  | loginSuccess (username : PyStr) (role : Role)
  | redactionApplied (redactedBy : PyStr) (eventId : Int) (newlyRedactedFields : List PyStr)
      (redactionEventId : Int)
  | retentionApplied (requestedBy : PyStr) (archivedCount : Nat) (cutoff : DateTime)
      (retentionWindowDays : Int)
  | exportPerformed (requestedBy : PyStr) (actorId resourceId : Option PyStr) (recordCount : Nat)
  | reportAccessed (requestedBy : PyStr) (actorId resourceId : Option PyStr) (recordCount : Nat)
  | verificationFailed (requestedBy : PyStr) (recordId : Int) (violationType : ChainViolationType)
      (recordsChecked : Nat)
  | unhandledException (path : PyStr) (method : String) (exc : ExcInfo)
deriving DecidableEq

namespace SecurityEvent

def name : SecurityEvent → String
  | authzDenied .. => "authz.denied"
  | loginFailure .. => "auth.login.failure"
  | loginSuccess .. => "auth.login.success"
  | redactionApplied .. => "redaction.applied"
  | retentionApplied .. => "retention.applied"
  | exportPerformed .. => "export.performed"
  | reportAccessed .. => "compliance.report_accessed"
  | verificationFailed .. => "chain.verification_failed"
  | unhandledException .. => "unhandled_exception"

def level : SecurityEvent → LogLevel
  | authzDenied .. | loginFailure .. => .warning
  | verificationFailed .. | unhandledException .. => .error
  | _ => .info

/-- The traceback, for the event that is logged with `exc_info`. -/
def excInfo : SecurityEvent → Option PyText
  | unhandledException _ _ exc => some exc.traceback
  | _ => none

end SecurityEvent

/-- A Python string as a logged value. -/
def strField (s : PyStr) : PyValue := .str s.codePoints

/-- An optional string as a logged value; `None` is logged as `null`. -/
def optionalField (s : Option PyStr) : PyValue := s.elim .null strField

/-- `**fields`. -/
def SecurityEvent.fields : SecurityEvent → List (PyText × PyValue)
  | authzDenied username role requiredRoles path method =>
    [(pyText "username", strField username), (pyText "role", .str (pyText role.value)),
      (pyText "required_roles", .list (requiredRoles.map fun role => .str (pyText role.value))),
      (pyText "path", strField path), (pyText "method", .str (pyText method))]
  | loginFailure username => [(pyText "username", strField username)]
  | loginSuccess username role =>
    [(pyText "username", strField username), (pyText "role", .str (pyText role.value))]
  | redactionApplied redactedBy eventId newlyRedactedFields redactionEventId =>
    [(pyText "redacted_by", strField redactedBy), (pyText "event_id", .int eventId),
      (pyText "newly_redacted_fields", .list (newlyRedactedFields.map strField)),
      (pyText "redaction_event_id", .int redactionEventId)]
  | retentionApplied requestedBy archivedCount cutoff retentionWindowDays =>
    [(pyText "requested_by", strField requestedBy), (pyText "archived_count", .int archivedCount),
      (pyText "cutoff", strField cutoff.isoformat),
      (pyText "retention_window_days", .int retentionWindowDays)]
  | exportPerformed requestedBy actorId resourceId recordCount
  | reportAccessed requestedBy actorId resourceId recordCount =>
    [(pyText "requested_by", strField requestedBy), (pyText "actor_id", optionalField actorId),
      (pyText "resource_id", optionalField resourceId), (pyText "record_count", .int recordCount)]
  | verificationFailed requestedBy recordId violationType recordsChecked =>
    [(pyText "requested_by", strField requestedBy), (pyText "record_id", .int recordId),
      (pyText "violation_type", .str (pyText violationType.value)),
      (pyText "records_checked", .int recordsChecked)]
  | unhandledException path method exc =>
    [(pyText "path", strField path), (pyText "method", .str (pyText method)),
      (pyText "exception_type", .str exc.typeName), (pyText "exception_message", .str exc.message)]

/-- `log_security_event`: the record it logs with this correlation id. -/
def logSecurityEvent (created : DateTime) (correlationId : Option PyStr) (event : SecurityEvent) :
    LogRecord where
  created
  levelname := pyText event.level.levelname
  name := pyText LOGGER_NAME
  message := pyText event.name
  extra := (pyText "event", .str (pyText event.name)) ::
    (pyText "correlation_id", optionalField correlationId) :: event.fields
  exception := event.excInfo

/-! ## The signing key -/

/-- What `str.isspace` holds for. -/
def isStrSpace (c : CodePoint) : Bool :=
  decide (9 ≤ c.val ∧ c.val ≤ 13) || decide (28 ≤ c.val ∧ c.val ≤ 32) || decide (c.val ∈ wideSpaces)

/-- `_WEAK_SECRET_KEYS`. -/
def WEAK_SECRET_KEYS : List String :=
  ["change-me-to-a-random-secret", "changeme", "change-me", "secret", "password", "your-secret-key",
    "your-secret-key-here", "test", "testing", "insecure", "default", "example", "12345678",
    "secretkey"]

/-- `MIN_SECRET_KEY_LENGTH`. -/
def MIN_SECRET_KEY_LENGTH : Nat := 32

/-- `Settings._reject_weak_secret_key`; the error is the text of the `ValueError`. -/
def rejectWeakSecretKey (lower : PyText → PyText) (value : PyText) : Except String PyText :=
  if lower (strip isStrSpace value) ∈ WEAK_SECRET_KEYS.map pyText then
    .error ("SECRET_KEY is a known placeholder/default value. Generate a real random " ++
      "secret, e.g.: python -c \"import secrets; print(secrets.token_hex(32))\"")
  else if value.length < MIN_SECRET_KEY_LENGTH then
    .error "SECRET_KEY must be at least 32 characters long."
  else .ok value

/-- An accepted key is long. -/
theorem rejectWeakSecretKey_ok {lower : PyText → PyText} {value key : PyText}
    (h : rejectWeakSecretKey lower value = .ok key) : value = key ∧ 32 ≤ key.length := by
  unfold rejectWeakSecretKey at h
  split at h
  · cases h
  · split at h
    · cases h
    · rename_i hlength
      cases h
      exact ⟨rfl, Nat.le_of_not_lt hlength⟩

/-- The signing key and the database password are known secrets if they are long enough. -/
theorem mem_knownSecretValues {secretKey : PyText} {dbPassword : Option PyText} {secret : PyText}
    (h : secret = secretKey ∨ dbPassword = some secret) (hlong : minKnownSecretLength ≤ secret.length) :
    secret ∈ knownSecretValues secretKey dbPassword := by
  have hne : secret ≠ [] := List.ne_nil_of_length_pos (Nat.lt_of_lt_of_le (by decide) hlong)
  unfold knownSecretValues filterKnownSecrets
  rw [List.mem_filter, List.mem_filterMap]
  refine ⟨⟨some secret, ?_, rfl⟩, by simp [hne, hlong]⟩
  rcases h with rfl | rfl
  · split <;> simp
  · simp [hne]

/-! ## What a line shows -/

/-- The keys of the fields. -/
def fieldKeys : List PyText :=
  ["username", "role", "required_roles", "path", "method", "redacted_by", "event_id",
    "newly_redacted_fields", "redaction_event_id", "requested_by", "archived_count", "cutoff",
    "retention_window_days", "actor_id", "resource_id", "record_count", "record_id",
    "violation_type", "records_checked", "exception_type", "exception_message"].map pyText

/-- Every key of a line. -/
def logKeys : List PyText := envelopeKeys ++ fieldKeys

section Shows

variable {lower : PyText → PyText}

/-- The value shows nothing that the sanitizer does not look at. -/
def ScannedOnly (lower : PyText → PyText) (v : PyValue) : Prop := ∀ s, Shown.asIs s ∉ shown lower v

theorem scannedOnly_str (s : PyText) : ScannedOnly lower (.str s) := by simp [ScannedOnly, shown]

theorem scannedOnly_int (n : Int) : ScannedOnly lower (.int n) := by simp [ScannedOnly, shown]

theorem scannedOnly_null : ScannedOnly lower .null := by simp [ScannedOnly, shown]

theorem scannedOnly_optionalField (s : Option PyStr) : ScannedOnly lower (optionalField s) := by
  cases s with
  | none => exact scannedOnly_null
  | some s => exact scannedOnly_str _

/-- A list shows what its elements show. -/
theorem scannedOnly_list {xs : List PyValue} (h : ∀ x ∈ xs, ScannedOnly lower x) :
    ScannedOnly lower (.list xs) := by
  intro s
  rw [shown]
  induction xs with
  | nil => simp [shownList]
  | cons x xs ih =>
    rw [shownList, List.mem_append, not_or]
    exact ⟨h x List.mem_cons_self s, ih fun y hy => h y (List.mem_cons_of_mem _ hy)⟩

/-- Outside the values only keys are shown as they are. -/
theorem asIs_mem_shownMembers {kvs : List (PyText × PyValue)}
    (h : ∀ e ∈ kvs, ScannedOnly lower e.2) {s : PyText} (hs : .asIs s ∈ shownMembers lower kvs) :
    s ∈ Dict.keys kvs := by
  induction kvs with
  | nil => simp [shownMembers] at hs
  | cons e kvs ih =>
    obtain ⟨k, v⟩ := e
    rw [shownMembers, List.mem_cons, List.mem_append] at hs
    rcases hs with hkey | hvalue | hrest
    · cases hkey
      exact List.mem_cons_self
    · split at hvalue
      · simp at hvalue
      · exact absurd hvalue (h _ List.mem_cons_self s)
    · exact List.mem_cons_of_mem _ (ih (fun e he => h e (List.mem_cons_of_mem _ he)) hrest)

/-- The events pass no fields under other names. -/
theorem SecurityEvent.keys_fields (event : SecurityEvent) :
    ∀ k ∈ Dict.keys event.fields, k ∈ fieldKeys := by
  cases event <;> simp [SecurityEvent.fields, fieldKeys]

/-- The fields are strings, integers and lists of strings. -/
theorem SecurityEvent.scannedOnly_fields (event : SecurityEvent) :
    ∀ e ∈ event.fields, ScannedOnly lower e.2 := by
  have hlist : ∀ {α : Type} (f : α → PyText) (xs : List α),
      ScannedOnly lower (.list (xs.map fun x => .str (f x))) := by
    intro α f xs
    apply scannedOnly_list
    rintro _ hv
    obtain ⟨x, -, rfl⟩ := List.mem_map.mp hv
    exact scannedOnly_str _
  have hfields : ∀ xs : List PyStr, ScannedOnly lower (.list (xs.map strField)) :=
    hlist PyStr.codePoints
  cases event <;>
    simp [SecurityEvent.fields, strField, scannedOnly_str, scannedOnly_int,
      scannedOnly_optionalField, hlist, hfields]

/-- The payload of a line has the keys of the envelope and of the fields, and no object that
is written as it is. -/
theorem mem_logPayload (created : DateTime) (correlationId : Option PyStr) (event : SecurityEvent) :
    ∀ e ∈ logPayload (logSecurityEvent created correlationId event),
      e.1 ∈ logKeys ∧ ScannedOnly lower e.2 := by
  let r := logSecurityEvent created correlationId event
  have hextra : ∀ e ∈ r.extra, ScannedOnly lower e.2 := by
    intro e he
    rcases List.mem_cons.mp he with rfl | he
    · exact scannedOnly_str _
    · rcases List.mem_cons.mp he with rfl | he
      · exact scannedOnly_optionalField _
      · exact event.scannedOnly_fields e he
  -- `event` and `correlation_id` are taken out of the fields; the others are added.
  have hpopped : ∀ (k : PyText) (default : PyValue), ScannedOnly lower default →
      ScannedOnly lower ((Dict.get r.extra k).getD default) := by
    intro k default hdefault
    cases hget : Dict.get r.extra k with
    | none => exact hdefault
    | some v => exact hextra _ (Dict.mem_of_get hget)
  have hfiltered : ∀ e ∈ r.extra.filter (fun e => e.1 ≠ pyText "event" ∧ e.1 ≠ pyText "correlation_id"),
      e.1 ∈ logKeys ∧ ScannedOnly lower e.2 := by
    intro e he
    obtain ⟨hmem, hnot⟩ := List.mem_filter.mp he
    refine ⟨?_, hextra e hmem⟩
    have hkeys := of_decide_eq_true hnot
    rcases List.mem_cons.mp hmem with rfl | hmem
    · exact absurd rfl hkeys.1
    · rcases List.mem_cons.mp hmem with rfl | hmem
      · exact absurd rfl hkeys.2
      · exact List.mem_append_right _ (event.keys_fields _ (List.mem_map_of_mem hmem))
  have hbase : ∀ e ∈ [(pyText "timestamp", PyValue.str r.timestamp), (pyText "level", .str r.levelname),
      (pyText "logger", .str r.name),
      (pyText "event", (Dict.get r.extra (pyText "event")).getD (.str r.message)),
      (pyText "correlationId", (Dict.get r.extra (pyText "correlation_id")).getD .null)],
      e.1 ∈ logKeys ∧ ScannedOnly lower e.2 := by
    simp [logKeys, envelopeKeys, scannedOnly_str, hpopped, scannedOnly_null]
  intro e he
  have hupdated : e ∈ Dict.update _ _ → e.1 ∈ logKeys ∧ ScannedOnly lower e.2 := fun he =>
    (Dict.mem_of_mem_update he).elim (hbase e) (hfiltered e)
  unfold logPayload at he
  split at he
  · exact hupdated he
  · rcases Dict.mem_of_mem_set he with rfl | he
    · exact ⟨by simp [logKeys, envelopeKeys], scannedOnly_str _⟩
    · exact hupdated he

/-- In the keys there are no pairs to join. -/
theorem joinPairs_logKeys : ∀ k ∈ logKeys, joinPairs k = k := by decide +kernel

/-- A known secret of the first plane is in no line, unless a key or the replacement has it. -/
theorem lineStrings_hide {formatter : JSONLogFormatter} {secret : PyText}
    (hknown : secret ∈ formatter.knownSecrets) (hplane : ∀ c ∈ secret, c.val < 0x10000)
    (hfixed : ∀ s ∈ redactedValue :: logKeys, ¬ secret <:+: s) (created : DateTime)
    (correlationId : Option PyStr) (event : SecurityEvent) :
    ∀ s ∈ formatter.lineStrings lower (logSecurityEvent created correlationId event),
      ¬ secret <:+: s := by
  have hpayload : ∀ e ∈ logPayload (logSecurityEvent created correlationId event),
      e.1 ∈ logKeys ∧ ScannedOnly lower e.2 := mem_logPayload created correlationId event
  rw [JSONLogFormatter.lineStrings_eq]
  intro s hs hread
  obtain ⟨x, hx, rfl⟩ := List.mem_map.mp hs
  -- Reading brings in characters that the secret does not have.
  have hinside : secret <:+: x.text formatter.knownSecrets := infix_of_joinPairs hplane hread
  cases x with
  | asIs s =>
    obtain ⟨e, he, rfl⟩ := List.mem_map.mp (asIs_mem_shownMembers (fun e he => (hpayload e he).2) hx)
    exact hfixed _ (List.mem_cons_of_mem _ (hpayload e he).1) hinside
  | scanned s =>
    rw [Shown.text] at hinside
    split at hinside
    · exact hfixed _ List.mem_cons_self hinside
    · rename_i hnot
      exact hnot ((credential_iff _ _).mpr (Or.inr ⟨secret, hknown, hinside⟩))
  | replaced => exact hfixed _ List.mem_cons_self hinside

/-- The keys of the payload are in the line. -/
theorem mem_lineStrings_of_key {formatter : JSONLogFormatter} {r : LogRecord} {k : PyText}
    (hjoined : joinPairs k = k) (h : k ∈ Dict.keys (logPayload r)) :
    k ∈ formatter.lineStrings lower r := by
  have hkeys : k ∈ Dict.keys (sanitizeLogFields lower formatter.knownSecrets (logPayload r)) := by
    rw [keys_sanitizeLogFields]
    exact h
  obtain ⟨e, he, rfl⟩ := List.mem_map.mp hkeys
  exact List.mem_map.mpr ⟨e.1, mem_stringsMembers_iff.mpr ⟨e, he, Or.inl rfl⟩, hjoined⟩

/-- One event of each kind. -/
def sampleEvents : List SecurityEvent :=
  [.authzDenied "u" .reader [.admin] "/" "GET", .redactionApplied "u" 1 [] 2,
    .retentionApplied "u" 0 .sample 30, .exportPerformed "u" none none 0,
    .verificationFailed "u" 1 .eventHashMismatch 1, .unhandledException "/" "GET" ⟨[], [], []⟩]

/-- Each key stands in a line of one of these events. -/
theorem exists_event_of_mem_logKeys : ∀ k ∈ logKeys, ∃ event ∈ sampleEvents,
    k ∈ Dict.keys (logPayload (logSecurityEvent .sample none event)) := by
  decide +kernel

/-- A failed login under the name of a known secret is logged with the replacement. -/
theorem redactedValue_mem_lineStrings {formatter : JSONLogFormatter} {secret : PyStr}
    (hknown : secret.codePoints ∈ formatter.knownSecrets) :
    redactedValue ∈ formatter.lineStrings lower (logSecurityEvent .sample none (.loginFailure secret)) := by
  have hfield : Dict.get (logPayload (logSecurityEvent .sample none (.loginFailure secret)))
      (pyText "username") = some (strField secret) := rfl
  have hreplaced : sanitizeMember lower formatter.knownSecrets (pyText "username") (strField secret) =
      .str redactedValue := by
    have hcredential := (credential_iff formatter.knownSecrets secret.codePoints).mpr
      (Or.inr ⟨_, hknown, List.infix_refl _⟩)
    unfold sanitizeMember strField
    rw [sanitizeValue, if_pos hcredential, ite_self]
  have hline := get_sanitizeLogFields lower formatter.knownSecrets
    (logPayload (logSecurityEvent .sample none (.loginFailure secret))) (pyText "username")
  rw [hfield, Option.map_some, hreplaced] at hline
  have hwritten := mem_stringsMembers_iff.mpr
    ⟨_, Dict.mem_of_get hline, Or.inr (by rw [PyValue.strings, List.mem_singleton])⟩
  exact List.mem_map.mpr ⟨redactedValue, hwritten, JSONLogFormatter.joinPairs_redactedValue⟩

end Shows

/-- **Secrets stay out of the log.** The signing key of a service that has started is in no
line that it logs; a database password of eight characters or more stays out of every line
exactly if it is in none of the keys and not in the replacement. Both are about secrets of the
first plane: the surrogates of any other character are read as that character. -/
theorem security_log_hides_secrets (lower : PyText → PyText) {secretKey key : PyText}
    (hkey : rejectWeakSecretKey lower secretKey = .ok key) (dbPassword : Option PyStr) :
    ((∀ c ∈ key, c.val < 0x10000) →
      ∀ created correlationId event, ∀ s ∈ (JSONLogFormatter.init key
        (dbPassword.map PyStr.codePoints)).lineStrings lower
          (logSecurityEvent created correlationId event), ¬ key <:+: s) ∧
    ∀ password, dbPassword = some password → minKnownSecretLength ≤ password.len →
      (∀ c ∈ password.codePoints, c.val < 0x10000) →
      ((∀ created correlationId event, ∀ s ∈ (JSONLogFormatter.init key
          (dbPassword.map PyStr.codePoints)).lineStrings lower
            (logSecurityEvent created correlationId event), ¬ password.codePoints <:+: s) ↔
        ∀ s ∈ redactedValue :: logKeys, ¬ password.codePoints <:+: s) := by
  have hlength : 32 ≤ key.length := (rejectWeakSecretKey_ok hkey).2
  constructor
  · intro hplane
    apply lineStrings_hide _ hplane
    · intro s hs hinside
      -- An accepted key is longer than everything that a line has besides the scanned texts.
      have hshort : ∀ s ∈ redactedValue :: logKeys, s.length < 32 := by decide +kernel
      have hle := hinside.length_le
      have hlt := hshort s hs
      omega
    · exact mem_knownSecretValues (Or.inl rfl) (Nat.le_trans (by decide) hlength)
  · rintro password rfl hlong hplane
    have hknown : password.codePoints ∈
        knownSecretValues key (Option.map PyStr.codePoints (some password)) :=
      mem_knownSecretValues (Or.inr rfl) hlong
    constructor
    · intro hhidden s hs
      rcases List.mem_cons.mp hs with rfl | hs
      · exact hhidden .sample none (.loginFailure password) _ (redactedValue_mem_lineStrings hknown)
      · obtain ⟨event, -, hevent⟩ := exists_event_of_mem_logKeys s hs
        exact hhidden .sample none event s (mem_lineStrings_of_key (joinPairs_logKeys s hs) hevent)
    · exact fun hfixed => lineStrings_hide hknown hplane hfixed

/-- A random key is in no line; the database password `username` is one of the keys. -/
theorem security_log_hides_secrets_username :
    let key := pyText "0123456789abcdef0123456789abcdef"
    let formatter := JSONLogFormatter.init key (some (pyText "username"))
    (∀ created correlationId event, ∀ s ∈ formatter.lineStrings asciiLower
      (logSecurityEvent created correlationId event), ¬ key <:+: s) ∧
    ¬∀ created correlationId event, ∀ s ∈ formatter.lineStrings asciiLower
      (logSecurityEvent created correlationId event), ¬ pyText "username" <:+: s := by
  have haccepted : rejectWeakSecretKey asciiLower (pyText "0123456789abcdef0123456789abcdef") =
      .ok (pyText "0123456789abcdef0123456789abcdef") := rfl
  obtain ⟨hkey, hpassword⟩ := security_log_hides_secrets asciiLower haccepted (some "username")
  refine ⟨hkey (List.all_iff_forall_prop.mp (by decide +kernel)), fun hhidden => ?_⟩
  have hfixed := (hpassword "username" rfl (by decide +kernel)
    (List.all_iff_forall_prop.mp (by decide +kernel))).mp hhidden
  exact hfixed (pyText "username") (by decide +kernel) (List.infix_refl _)

end AuditLog
