import AuditLog.Core.LogSanitizer
import AuditLog.Python.DateTime
import AuditLog.Python.LoadsDumps

/-!
# Log lines (`logging_config.py`)

The formatter puts a record's fields into one dict, sanitizes it and serializes
the result with `default=str`. A credential can occur in a string value, which
the sanitizer looks at, in a dict key, which it copies, or in the `str` of an
object, which does not exist before the serializer calls it. It can also appear
only when the line is read: the serializer escapes a character beyond the first
plane as a surrogate pair, so a pair that a string has as two characters is read
as that one character. The main result, `format_hides_iff`, says exactly which
records keep a credential out of their line.
-/

namespace AuditLog

/-! ## Records -/

/-- What the formatter reads of a `LogRecord`. -/
structure LogRecord where
  /-- `datetime.fromtimestamp(record.created, tz=timezone.utc)`. -/
  created : DateTime
  levelname : PyText
  name : PyText
  /-- `record.getMessage()`. -/
  message : PyText
  /-- The attributes that are no standard ones. -/
  extra : List (PyText × PyValue)
  /-- `formatException(record.exc_info)`, when there is an exception. -/
  exception : Option PyText

namespace LogRecord

def timestamp (r : LogRecord) : PyText := r.created.isoformat.codePoints

/-- Every string in the record, at any depth of its extra fields. -/
def strings (r : LogRecord) : List PyText :=
  r.timestamp :: r.levelname :: r.name :: r.message ::
    (PyValue.stringsMembers r.extra ++ r.exception.toList)

end LogRecord

/-- The keys the formatter writes on its own. -/
def envelopeKeys : List PyText :=
  [pyText "timestamp", pyText "level", pyText "logger", pyText "event", pyText "correlationId",
    pyText "exception"]

/-- The dict a record is logged as, before it is sanitized. -/
def logPayload (r : LogRecord) : List (PyText × PyValue) :=
  let event := (Dict.get r.extra (pyText "event")).getD (.str r.message)
  let correlationId := (Dict.get r.extra (pyText "correlation_id")).getD .null
  -- Both were popped, so they are not written once more.
  let extra := r.extra.filter fun e => e.1 ≠ pyText "event" ∧ e.1 ≠ pyText "correlation_id"
  let payload := Dict.update
    [(pyText "timestamp", .str r.timestamp), (pyText "level", .str r.levelname),
      (pyText "logger", .str r.name), (pyText "event", event),
      (pyText "correlationId", correlationId)] extra
  match r.exception with
  | none => payload
  | some text => Dict.set payload (pyText "exception") (.str text)

/-! ## The formatter -/

theorem minKnownSecretLength_le {values : List (Option PyText)} {secret : PyText}
    (h : secret ∈ filterKnownSecrets values) : minKnownSecretLength ≤ secret.length := by
  simp only [filterKnownSecrets, List.mem_filter, Bool.and_eq_true, decide_eq_true_eq] at h
  exact h.2.2

/-- `_known_secret_values`: the signing key and the database password, if there is one. -/
def knownSecretValues (secretKey : PyText) (dbPassword : Option PyText) : List PyText :=
  filterKnownSecrets
    (if (dbPassword.getD []).isEmpty then [some secretKey] else [some secretKey, dbPassword])

structure JSONLogFormatter where
  knownSecrets : List PyText
  long : ∀ secret ∈ knownSecrets, minKnownSecretLength ≤ secret.length

namespace JSONLogFormatter

/-- `JSONLogFormatter.__init__`. -/
def init (secretKey : PyText) (dbPassword : Option PyText) : JSONLogFormatter where
  knownSecrets := knownSecretValues secretKey dbPassword
  long := fun _ => minKnownSecretLength_le

variable (lower : PyText → PyText) (formatter : JSONLogFormatter) (r : LogRecord)

def sanitized : PyValue := .dict (sanitizeLogFields lower formatter.knownSecrets (logPayload r))

/-- `JSONLogFormatter.format`. -/
def format : List Char := (formatter.sanitized lower r).dumps

/-- The strings of the line as they are read, keys included. -/
def lineStrings : List PyText := (formatter.sanitized lower r).strings.map joinPairs

/-- Each string literal of the line spells a string of the line. -/
theorem literals_format :
    List.Forall₂ (fun body s => SpellsStr ('"' :: (body ++ ['"'])) s)
      (literals (formatter.format lower r)) (formatter.lineStrings lower r) := by
  rw [format, PyValue.literals_dumps, lineStrings, List.forall₂_map_left_iff,
    List.forall₂_map_right_iff, List.forall₂_same]
  exact fun s _ => spellsStr_literal s

end JSONLogFormatter

/-! ## What a sanitized value shows -/

/-- What the sanitizer does about a string it comes to. -/
inductive Shown where
  /-- A dict key, or the `str` of an object: written as it is. -/
  | asIs (s : PyText)
  /-- A string value: written unless it is a credential. -/
  | scanned (s : PyText)
  /-- The value of a sensitive key. -/
  | replaced

/-- What is written. -/
def Shown.text (knownSecrets : List PyText) : Shown → PyText
  | .asIs s => s
  | .scanned s =>
    if matchesJwtLikePattern s || containsAKnownSecret s knownSecrets then redactedValue else s
  | .replaced => redactedValue

section Shown

variable (lower : PyText → PyText)

mutual
/-- What a value shows once it is sanitized: all but what stands under a sensitive key. -/
def shown : PyValue → List Shown
  | .str s => [.scanned s]
  | .other s => [.asIs s]
  | .list xs => shownList xs
  | .tuple xs => shownList xs
  | .dict kvs => shownMembers kvs
  | _ => []

def shownList : List PyValue → List Shown
  | [] => []
  | x :: xs => shown x ++ shownList xs

def shownMembers : List (PyText × PyValue) → List Shown
  | [] => []
  | (k, v) :: kvs =>
    .asIs k :: ((if isSensitiveKey lower k then [.replaced] else shown v) ++ shownMembers kvs)
end

variable (knownSecrets : List PyText)

mutual
/-- **The strings of a sanitized value are what it shows, each one written by its rule.** -/
theorem strings_sanitizeValue : ∀ v : PyValue,
    (sanitizeValue lower knownSecrets v).strings = (shown lower v).map (Shown.text knownSecrets)
  | .str s => by
    simp only [sanitizeValue, shown, List.map_cons, List.map_nil, Shown.text]
    split <;> rfl
  | .other s => by simp [sanitizeValue, shown, PyValue.strings, Shown.text]
  | .list xs => by
    simp only [sanitizeValue, PyValue.strings, shown]
    exact stringsList_sanitizeValues xs
  | .tuple xs => by
    simp only [sanitizeValue, PyValue.strings, shown]
    exact stringsList_sanitizeValues xs
  | .dict kvs => by
    simp only [sanitizeValue, PyValue.strings, shown]
    exact stringsMembers_sanitizeLogFields kvs
  | .null => by simp [sanitizeValue, shown, PyValue.strings]
  | .bool _ => by simp [sanitizeValue, shown, PyValue.strings]
  | .int _ => by simp [sanitizeValue, shown, PyValue.strings]
  | .float _ => by simp [sanitizeValue, shown, PyValue.strings]
  | .nonFinite _ => by simp [sanitizeValue, shown, PyValue.strings]

theorem stringsList_sanitizeValues : ∀ xs : List PyValue,
    PyValue.stringsList (sanitizeValues lower knownSecrets xs) =
      (shownList lower xs).map (Shown.text knownSecrets)
  | [] => by simp [sanitizeValues, PyValue.stringsList, shownList]
  | x :: xs => by
    simp only [sanitizeValues, PyValue.stringsList, shownList, List.map_append]
    rw [strings_sanitizeValue x, stringsList_sanitizeValues xs]

theorem stringsMembers_sanitizeLogFields : ∀ kvs : List (PyText × PyValue),
    PyValue.stringsMembers (sanitizeLogFields lower knownSecrets kvs) =
      (shownMembers lower kvs).map (Shown.text knownSecrets)
  | [] => by simp [sanitizeLogFields, PyValue.stringsMembers, shownMembers]
  | (k, v) :: kvs => by
    simp only [sanitizeLogFields, PyValue.stringsMembers, shownMembers, List.map_cons,
      List.map_append]
    rw [stringsMembers_sanitizeLogFields kvs]
    by_cases h : isSensitiveKey lower k = true
    · simp [h, PyValue.strings, Shown.text]
    · simp only [if_neg h]
      rw [strings_sanitizeValue v]
      rfl
end

/-- The string of the value that is shown, if it is one of its own. -/
def Shown.Of (x : Shown) (s : PyText) : Prop := x = .asIs s ∨ x = .scanned s

mutual
/-- Nothing is shown that is not in the value. -/
theorem mem_strings_of_shown {s : PyText} {x : Shown} (hx : x.Of s) :
    ∀ v : PyValue, x ∈ shown lower v → s ∈ v.strings
  | .str t, h => by
    simp only [shown, List.mem_singleton] at h
    rcases hx with rfl | rfl <;> simp_all [PyValue.strings]
  | .other t, h => by
    simp only [shown, List.mem_singleton] at h
    rcases hx with rfl | rfl <;> simp_all [PyValue.strings]
  | .list xs, h => by
    simp only [shown] at h
    simpa only [PyValue.strings] using mem_stringsList_of_shown hx xs h
  | .tuple xs, h => by
    simp only [shown] at h
    simpa only [PyValue.strings] using mem_stringsList_of_shown hx xs h
  | .dict kvs, h => by
    simp only [shown] at h
    simpa only [PyValue.strings] using mem_stringsMembers_of_shown hx kvs h
  | .null, h => by simp [shown] at h
  | .bool _, h => by simp [shown] at h
  | .int _, h => by simp [shown] at h
  | .float _, h => by simp [shown] at h
  | .nonFinite _, h => by simp [shown] at h

theorem mem_stringsList_of_shown {s : PyText} {x : Shown} (hx : x.Of s) :
    ∀ xs : List PyValue, x ∈ shownList lower xs → s ∈ PyValue.stringsList xs
  | [], h => by simp [shownList] at h
  | y :: ys, h => by
    simp only [shownList, List.mem_append] at h
    simp only [PyValue.stringsList, List.mem_append]
    exact h.imp (mem_strings_of_shown hx y) (mem_stringsList_of_shown hx ys)

theorem mem_stringsMembers_of_shown {s : PyText} {x : Shown} (hx : x.Of s) :
    ∀ kvs : List (PyText × PyValue), x ∈ shownMembers lower kvs → s ∈ PyValue.stringsMembers kvs
  | [], h => by simp [shownMembers] at h
  | (k, v) :: kvs, h => by
    simp only [shownMembers, List.mem_cons, List.mem_append] at h
    simp only [PyValue.stringsMembers, List.mem_cons, List.mem_append]
    rcases h with rfl | h | h
    · rcases hx with hx | hx <;> simp_all
    · right
      left
      split at h
      · rcases hx with rfl | rfl <;> simp at h
      · exact mem_strings_of_shown hx v h
    · exact Or.inr (Or.inr (mem_stringsMembers_of_shown hx kvs h))
end

end Shown

/-! ## The strings of the payload -/

theorem mem_stringsMembers_iff {s : PyText} {kvs : List (PyText × PyValue)} :
    s ∈ PyValue.stringsMembers kvs ↔ ∃ e ∈ kvs, s = e.1 ∨ s ∈ e.2.strings := by
  rw [PyValue.stringsMembers_eq]
  simp only [List.mem_flatten, List.mem_map]
  constructor
  · rintro ⟨ss, ⟨e, he, rfl⟩, hs⟩
    exact ⟨e, he, List.mem_cons.mp hs⟩
  · rintro ⟨e, he, hs⟩
    exact ⟨_, ⟨e, he, rfl⟩, List.mem_cons.mpr hs⟩

/-- A popped field, or its default. -/
theorem strings_getD {r : LogRecord} {k s : PyText} {default : PyValue}
    (h : s ∈ ((Dict.get r.extra k).getD default).strings)
    (hdefault : s ∈ default.strings → s ∈ r.strings) : s ∈ r.strings := by
  cases hget : Dict.get r.extra k with
  | none =>
    rw [hget] at h
    exact hdefault h
  | some v =>
    rw [hget] at h
    have hextra : s ∈ PyValue.stringsMembers r.extra :=
      mem_stringsMembers_iff.mpr ⟨_, Dict.mem_of_get hget, Or.inr h⟩
    simp [LogRecord.strings, hextra]

/-- The payload has the strings of the record, and the keys of the envelope. -/
theorem strings_logPayload {r : LogRecord} {s : PyText}
    (h : s ∈ PyValue.stringsMembers (logPayload r)) : s ∈ envelopeKeys ∨ s ∈ r.strings := by
  obtain ⟨e, he, hs⟩ := mem_stringsMembers_iff.mp h
  have hupdate : ∀ {d : List (PyText × PyValue)},
      e ∈ Dict.update d (r.extra.filter fun e =>
        e.1 ≠ pyText "event" ∧ e.1 ≠ pyText "correlation_id") → e ∈ d ∨ s ∈ r.strings := by
    intro d he
    refine (Dict.mem_of_mem_update he).imp_right fun he => ?_
    have hextra : s ∈ PyValue.stringsMembers r.extra :=
      mem_stringsMembers_iff.mpr ⟨e, List.mem_of_mem_filter he, hs⟩
    simp [LogRecord.strings, hextra]
  have hexception : ∀ text, r.exception = some text → e = (pyText "exception", .str text) →
      s ∈ envelopeKeys ∨ s ∈ r.strings := by
    rintro text htext rfl
    rcases hs with rfl | hs
    · exact Or.inl (by simp [envelopeKeys])
    · obtain rfl : s = text := by simpa [PyValue.strings] using hs
      exact Or.inr (by simp [LogRecord.strings, htext])
  have hbase : e ∈ Dict.update
      [(pyText "timestamp", PyValue.str r.timestamp), (pyText "level", .str r.levelname),
        (pyText "logger", .str r.name),
        (pyText "event", (Dict.get r.extra (pyText "event")).getD (.str r.message)),
        (pyText "correlationId", (Dict.get r.extra (pyText "correlation_id")).getD .null)]
      (r.extra.filter fun e => e.1 ≠ pyText "event" ∧ e.1 ≠ pyText "correlation_id") →
      s ∈ envelopeKeys ∨ s ∈ r.strings := by
    intro he
    rcases hupdate he with he | hs'
    · simp only [List.mem_cons, List.not_mem_nil, or_false] at he
      rcases hs with hs | hs
      · left
        rcases he with rfl | rfl | rfl | rfl | rfl <;> simp [hs, envelopeKeys]
      · right
        rcases he with rfl | rfl | rfl | rfl | rfl
        · simp_all [PyValue.strings, LogRecord.strings]
        · simp_all [PyValue.strings, LogRecord.strings]
        · simp_all [PyValue.strings, LogRecord.strings]
        · exact strings_getD hs fun hs => by simp_all [PyValue.strings, LogRecord.strings]
        · exact strings_getD hs fun hs => by simp [PyValue.strings] at hs
    · exact Or.inr hs'
  unfold logPayload at he
  cases hexc : r.exception with
  | none =>
    rw [hexc] at he
    exact hbase he
  | some text =>
    rw [hexc] at he
    rcases Dict.mem_of_mem_set he with he | he
    · exact hexception text hexc he
    · exact hbase he

/-! ## Credentials and lines -/

/-- A JWT is ASCII, so it is in a string as it is read exactly if it is in the string. -/
theorem IsJwt.infix_joinPairs_iff {jwt : PyText} (h : IsJwt jwt) (s : PyText) :
    jwt <:+: joinPairs s ↔ jwt <:+: s := by
  have hascii := h.ascii
  constructor
  · apply infix_of_joinPairs
    intro c hc
    have hlt := hascii c hc
    omega
  · apply infix_joinPairs
    intro c hc
    have hlt := hascii c hc
    unfold CodePoint.IsSurrogate CodePoint.IsHighSurrogate CodePoint.IsLowSurrogate
    omega

namespace JSONLogFormatter

variable (lower : PyText → PyText) (formatter : JSONLogFormatter) (r : LogRecord)

/-- A credential in the record is in no string of its line. -/
def Hides (credential : PyText) : Prop :=
  (∃ s ∈ r.strings, credential <:+: s) →
    ∀ s ∈ formatter.lineStrings lower r, ¬ credential <:+: s

instance (credential : PyText) : Decidable (formatter.Hides lower r credential) :=
  inferInstanceAs (Decidable (_ → _))

variable {lower formatter r}

/-- A line shows what the sanitizer leaves, each string as it is read. -/
theorem lineStrings_eq : formatter.lineStrings lower r =
    (shownMembers lower (logPayload r)).map fun x => joinPairs (x.text formatter.knownSecrets) := by
  rw [lineStrings, sanitized, PyValue.strings, stringsMembers_sanitizeLogFields, List.map_map]
  rfl

theorem joinPairs_redactedValue : joinPairs redactedValue = redactedValue := by decide +kernel

/-- Which credentials stay out of a line that is made of a record with them. -/
theorem hides_iff {credential : PyText} (hredacted : ¬ credential <:+: redactedValue) :
    formatter.Hides lower r credential ↔
      ((∃ s ∈ r.strings, credential <:+: s) →
        (∀ s, .asIs s ∈ shownMembers lower (logPayload r) → ¬ credential <:+: joinPairs s) ∧
          ∀ s, .scanned s ∈ shownMembers lower (logPayload r) → credential <:+: joinPairs s →
            IsCredential formatter.knownSecrets s) := by
  unfold Hides
  rw [lineStrings_eq]
  simp only [List.forall_mem_map]
  refine imp_congr_right fun _ => ?_
  constructor
  · intro hhides
    refine ⟨fun s hs => hhides _ hs, fun s hs hinside => ?_⟩
    by_contra hnot
    apply hhides _ hs
    rwa [Shown.text, if_neg (by rwa [credential_iff])]
  · rintro ⟨hasIs, hscanned⟩ x hx hinside
    cases x with
    | asIs s => exact hasIs s hx hinside
    | scanned s =>
      rw [Shown.text] at hinside
      split at hinside
      · exact hredacted (joinPairs_redactedValue ▸ hinside)
      · rename_i hnot
        exact hnot ((credential_iff _ _).mpr (hscanned s hx hinside))
    | replaced => exact hredacted (joinPairs_redactedValue ▸ hinside)

/-- A credential that is shown and in no key of the envelope comes out of the record. -/
theorem mem_strings_of_shownMembers {credential s : PyText} {x : Shown}
    (hkeys : ∀ k ∈ envelopeKeys, ¬ credential <:+: k)
    (hx : x ∈ shownMembers lower (logPayload r)) (hof : x.Of s) (hinside : credential <:+: s) :
    ∃ s ∈ r.strings, credential <:+: s := by
  rcases strings_logPayload (mem_stringsMembers_of_shown lower hof _ hx) with hkey | hmem
  · exact absurd hinside (hkeys s hkey)
  · exact ⟨s, hmem, hinside⟩

end JSONLogFormatter

/-- **Which credentials stay out of a log line.** A record with a known secret keeps it out
exactly if no dict key and no object's `str` outside the sensitive keys is read with the secret
in it, and every string value there that is has a credential as it stands. For a JWT, which has
no surrogates, reading changes nothing. -/
theorem format_hides_iff (lower : PyText → PyText) (formatter : JSONLogFormatter) (r : LogRecord) :
    (∀ secret ∈ formatter.knownSecrets, ¬ secret <:+: redactedValue →
      (formatter.Hides lower r secret ↔
        ((∃ s ∈ r.strings, secret <:+: s) →
          (∀ s, .asIs s ∈ shownMembers lower (logPayload r) → ¬ secret <:+: joinPairs s) ∧
            ∀ s, .scanned s ∈ shownMembers lower (logPayload r) → secret <:+: joinPairs s →
              IsCredential formatter.knownSecrets s))) ∧
    ∀ jwt, IsJwt jwt →
      (formatter.Hides lower r jwt ↔
        (∀ s, .asIs s ∈ shownMembers lower (logPayload r) → ¬ jwt <:+: s) ∧
          ∀ s, .scanned s ∈ shownMembers lower (logPayload r) → jwt <:+: s →
            IsCredential formatter.knownSecrets s) := by
  constructor
  · exact fun secret _ hredacted => JSONLogFormatter.hides_iff hredacted
  · intro jwt hjwt
    have hshort : ∀ k ∈ envelopeKeys, k.length ≤ 25 := by decide +kernel
    have hkeys : ∀ k ∈ envelopeKeys, ¬ jwt <:+: k := fun k hk => hjwt.not_within (hshort k hk)
    rw [JSONLogFormatter.hides_iff (hjwt.not_within (by decide +kernel))]
    simp only [hjwt.infix_joinPairs_iff]
    constructor
    · intro hhides
      refine ⟨fun s hs hinside => ?_, fun s hs hinside => ?_⟩
      · exact (hhides (JSONLogFormatter.mem_strings_of_shownMembers hkeys hs (Or.inl rfl) hinside)).1
          s hs hinside
      · exact (hhides (JSONLogFormatter.mem_strings_of_shownMembers hkeys hs (Or.inr rfl) hinside)).2
          s hs hinside
    · exact fun hcondition _ => hcondition

/-! ### One deployment -/

abbrev signingKey : PyText := pyText "super-secret-key-of-32-characters"

abbrev jwtShaped : PyText := pyText "aaaaaaaa.bbbbbbbb.cccccccc"

def sampleFormatter : JSONLogFormatter := JSONLogFormatter.init signingKey none

def sampleRecord (message : PyText) (extra : List (PyText × PyValue)) : LogRecord where
  created := ⟨0, 0, by decide, utc_inRange⟩
  levelname := pyText "INFO"
  name := pyText "audit_log_service"
  message := message
  extra := extra
  exception := none

/-- The signing key in an error message, and a token on its own. -/
def quietRecord : LogRecord :=
  sampleRecord (pyText "bad key: super-secret-key-of-32-characters")
    [(pyText "note", .str jwtShaped)]

theorem format_hides_iff_quiet :
    sampleFormatter.Hides asciiLower quietRecord signingKey ∧
      sampleFormatter.Hides asciiLower quietRecord jwtShaped := by
  have hchecked : ((shownMembers asciiLower (logPayload quietRecord)).all fun x => match x with
      | .asIs s => !decide (signingKey <:+: joinPairs s) && !decide (jwtShaped <:+: s)
      | .scanned s =>
        (!decide (signingKey <:+: joinPairs s) ||
          containsAKnownSecret s sampleFormatter.knownSecrets) &&
        (!decide (jwtShaped <:+: s) || matchesJwtLikePattern s)
      | .replaced => true) = true := by decide +kernel
  rw [List.all_eq_true] at hchecked
  have hasIs : ∀ s, .asIs s ∈ shownMembers asciiLower (logPayload quietRecord) →
      ¬ signingKey <:+: joinPairs s ∧ ¬ jwtShaped <:+: s := by
    intro s hs
    simpa only [Bool.and_eq_true, Bool.not_eq_true', decide_eq_false_iff_not] using hchecked _ hs
  have hscanned : ∀ s, .scanned s ∈ shownMembers asciiLower (logPayload quietRecord) →
      (signingKey <:+: joinPairs s → IsCredential sampleFormatter.knownSecrets s) ∧
        (jwtShaped <:+: s → IsCredential sampleFormatter.knownSecrets s) := by
    intro s hs
    have hs := hchecked _ hs
    simp only [Bool.and_eq_true, Bool.or_eq_true, Bool.not_eq_true', decide_eq_false_iff_not] at hs
    simp only [← credential_iff, Bool.or_eq_true]
    exact ⟨fun hinside => Or.inr (hs.1.resolve_left fun hnot => hnot hinside),
      fun hinside => Or.inl (hs.2.resolve_left fun hnot => hnot hinside)⟩
  obtain ⟨hsecrets, hjwts⟩ := format_hides_iff asciiLower sampleFormatter quietRecord
  constructor
  · refine (hsecrets signingKey (by decide +kernel) (by decide +kernel)).mpr fun _ => ⟨?_, ?_⟩
    · exact fun s hs => (hasIs s hs).1
    · exact fun s hs => (hscanned s hs).1
  · refine (hjwts jwtShaped ((hasThreeSegments_iff _).mp (by decide +kernel))).mpr ⟨?_, ?_⟩
    · exact fun s hs => (hasIs s hs).2
    · exact fun s hs => (hscanned s hs).2

/-- A key with a character beyond the first plane. -/
abbrev astralKey : PyText := pyText "super-secret-key-of-😀-characters"

/-- The same key with that character split into its surrogates. -/
abbrev splitKey : PyText :=
  pyText "super-secret-key-of-" ++ [⟨0xd83d, by decide⟩, ⟨0xde00, by decide⟩] ++
    pyText "-characters"

/-- A token behind `Bearer`, the signing key in an object that is written through `str`, the
signing key as the key of a dict, and a signing key in a message beside its split form: each one
is in the line. -/
theorem format_leaks_credentials :
    (IsJwt jwtShaped ∧
      ¬ sampleFormatter.Hides asciiLower
        (sampleRecord (pyText "Bearer aaaaaaaa.bbbbbbbb.cccccccc") []) jwtShaped) ∧
    (signingKey ∈ sampleFormatter.knownSecrets ∧ ¬ signingKey <:+: redactedValue ∧
      (∀ s ∈ envelopeKeys ++ [(sampleRecord [] []).timestamp, (sampleRecord [] []).levelname,
        (sampleRecord [] []).name], ¬ signingKey <:+: s) ∧
      ¬ sampleFormatter.Hides asciiLower (sampleRecord []
        [(pyText "error", .other (pyText "bad key: super-secret-key-of-32-characters"))]) signingKey ∧
      ¬ sampleFormatter.Hides asciiLower
        (sampleRecord [] [(pyText "seen", .dict [(signingKey, .int 1)])]) signingKey) ∧
    (astralKey ∈ (JSONLogFormatter.init astralKey none).knownSecrets ∧
      ¬ astralKey <:+: redactedValue ∧
      (∀ s ∈ envelopeKeys ++ [(sampleRecord [] []).timestamp, (sampleRecord [] []).levelname,
        (sampleRecord [] []).name], ¬ astralKey <:+: s) ∧
      ¬ (JSONLogFormatter.init astralKey none).Hides asciiLower
        (sampleRecord astralKey [(pyText "note", .str splitKey)]) astralKey) := by
  refine ⟨⟨(hasThreeSegments_iff _).mp ?_, ?_⟩, ⟨?_, ?_, ?_, ?_, ?_⟩, ?_, ?_, ?_, ?_⟩
  all_goals decide +kernel

end AuditLog
