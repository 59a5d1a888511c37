import AuditLog.Python.Value
import Mathlib.Data.List.Infix

/-!
# Redacting log fields (`log_sanitizer.py`)

`sanitize_log_fields` walks a tree of dicts, lists and tuples: the value of a key
that suggests a credential is replaced as a whole, a string that is shaped like a
JWT or contains a known secret is replaced wherever it stands. `str.lower` is a
parameter, so the results hold for every table of case mappings.

The specification speaks of paths: what stands in the result at a path that meets
no sensitive key, in terms of what stood there before.
-/

namespace AuditLog

/-- `REDACTED_VALUE`. -/
def redactedValue : PyText := pyText "[REDACTED]"

/-! ## Sensitive keys -/

/-- `_SENSITIVE_KEY_MARKERS`. -/
def sensitiveKeyMarkers : List PyText :=
  [pyText "password", pyText "secret", pyText "token", pyText "jwt", pyText "authorization",
    pyText "signing_key", pyText "api_key", pyText "credential"]

section Sanitizer

-- `str.lower`.
variable (lower : PyText → PyText)

/-- `_is_sensitive_key`. -/
def isSensitiveKey (key : PyText) : Bool :=
  sensitiveKeyMarkers.any fun marker => decide (marker <:+: lower key)

/-- The lower-cased name contains a marker. -/
def SensitiveKey (key : PyText) : Prop := ∃ marker ∈ sensitiveKeyMarkers, marker <:+: lower key

theorem isSensitiveKey_iff (key : PyText) :
    isSensitiveKey lower key = true ↔ SensitiveKey lower key := by
  simp [isSensitiveKey, SensitiveKey]

instance (key : PyText) : Decidable (SensitiveKey lower key) :=
  decidable_of_iff _ (isSensitiveKey_iff lower key)

/-! ## JWT-shaped strings -/

/-- The character class `[A-Za-z0-9_-]`. -/
def isBase64Url (c : CodePoint) : Bool :=
  decide ('A'.toNat ≤ c.val ∧ c.val ≤ 'Z'.toNat) || decide ('a'.toNat ≤ c.val ∧ c.val ≤ 'z'.toNat) ||
    decide ('0'.toNat ≤ c.val ∧ c.val ≤ '9'.toNat) || decide (c.val = '_'.toNat) ||
    decide (c.val = '-'.toNat)

/-- `[A-Za-z0-9_-]{8,}`. -/
def isSegment (s : PyText) : Bool := decide (8 ≤ s.length) && s.all isBase64Url

abbrev dot : CodePoint := CodePoint.ofChar '.'

abbrev lineFeed : CodePoint := CodePoint.ofChar '\n'

/-- Three segments and two dots between them. -/
def hasThreeSegments (s : PyText) : Bool :=
  match s.splitOn dot with
  | [a, b, c] => isSegment a && isSegment b && isSegment c
  | _ => false

/-- `_JWT_LIKE_PATTERN.match(value)`: `$` matches at the end and in front of a last line feed. -/
def matchesJwtLikePattern (s : PyText) : Bool :=
  hasThreeSegments s || (decide (s.getLast? = some lineFeed) && hasThreeSegments s.dropLast)

/-- Three dot-separated base64url segments of at least 8 characters. -/
def IsJwt (s : PyText) : Prop :=
  ∃ a b c, isSegment a = true ∧ isSegment b = true ∧ isSegment c = true ∧
    s = a ++ dot :: (b ++ dot :: c)

/-- What the pattern matches. -/
def JwtLike (s : PyText) : Prop := IsJwt s ∨ ∃ jwt, IsJwt jwt ∧ s = jwt ++ [lineFeed]

/-- A segment has no dot, so a text splits into its segments in one way. -/
theorem dot_notMem_segment {s : PyText} (hs : isSegment s = true) : dot ∉ s := by
  intro hmem
  simp only [isSegment, Bool.and_eq_true, List.all_eq_true] at hs
  exact absurd (hs.2 dot hmem) (by decide)

/-- Splitting at the dots finds the three segments. -/
theorem hasThreeSegments_iff (s : PyText) : hasThreeSegments s = true ↔ IsJwt s := by
  constructor
  · intro h
    unfold hasThreeSegments at h
    split at h
    · rename_i a b c hsplit
      have hjoin : [dot].intercalate (s.splitOn dot) = s := List.intercalate_splitOn dot
      rw [hsplit] at hjoin
      simp only [Bool.and_eq_true] at h
      refine ⟨a, b, c, h.1.1, h.1.2, h.2, ?_⟩
      rw [← hjoin]
      simp [List.intercalate]
    · exact absurd h Bool.false_ne_true
  · rintro ⟨a, b, c, ha, hb, hc, rfl⟩
    unfold hasThreeSegments
    rw [List.splitOn_append_cons_self_of_not_mem (dot_notMem_segment ha),
      List.splitOn_append_cons_self_of_not_mem (dot_notMem_segment hb),
      List.splitOn_eq_singleton (dot_notMem_segment hc)]
    simp [ha, hb, hc]

theorem matchesJwtLikePattern_iff (s : PyText) : matchesJwtLikePattern s = true ↔ JwtLike s := by
  simp only [matchesJwtLikePattern, Bool.or_eq_true, Bool.and_eq_true, decide_eq_true_eq,
    hasThreeSegments_iff, JwtLike]
  refine or_congr_right ?_
  constructor
  · rintro ⟨hlast, hjwt⟩
    refine ⟨_, hjwt, ?_⟩
    rw [List.dropLast_append_getLast? lineFeed hlast]
  · rintro ⟨jwt, hjwt, rfl⟩
    simp [hjwt]

/-- Three times eight characters and two dots. -/
theorem IsJwt.length_le {s : PyText} (h : IsJwt s) : 26 ≤ s.length := by
  obtain ⟨a, b, c, ha, hb, hc, rfl⟩ := h
  simp only [isSegment, Bool.and_eq_true, decide_eq_true_eq] at ha hb hc
  simp only [List.length_append, List.length_cons]
  omega

/-- A JWT is longer than any text of at most 25 characters. -/
theorem IsJwt.not_within {s t : PyText} (h : IsJwt s) (ht : t.length ≤ 25) : ¬ s <:+: t := by
  intro hinside
  have hle := hinside.length_le
  have hlong := h.length_le
  omega

/-- The class is one of ASCII characters. -/
theorem isBase64Url_ascii {c : CodePoint} (h : isBase64Url c = true) : c.val < 0x80 := by
  have hlimits : 'Z'.toNat < 0x80 ∧ 'z'.toNat < 0x80 ∧ '9'.toNat < 0x80 ∧ '_'.toNat < 0x80 ∧
      '-'.toNat < 0x80 := by decide
  simp only [isBase64Url, Bool.or_eq_true, decide_eq_true_eq] at h
  omega

theorem IsJwt.ascii {s : PyText} (h : IsJwt s) : ∀ c ∈ s, c.val < 0x80 := by
  obtain ⟨a, b, c, ha, hb, hc, rfl⟩ := h
  have hsegment : ∀ {t : PyText}, isSegment t = true → ∀ d ∈ t, d.val < 0x80 := by
    intro t ht d hd
    simp only [isSegment, Bool.and_eq_true, List.all_eq_true] at ht
    exact isBase64Url_ascii (ht.2 d hd)
  have hdot : dot.val < 0x80 := by decide
  intro d hd
  simp only [List.mem_append, List.mem_cons] at hd
  rcases hd with hd | rfl | hd | rfl | hd
  · exact hsegment ha d hd
  · exact hdot
  · exact hsegment hb d hd
  · exact hdot
  · exact hsegment hc d hd

/-! ## Sanitizing -/

/-- `_contains_a_known_secret`. -/
def containsAKnownSecret (value : PyText) (knownSecrets : List PyText) : Bool :=
  knownSecrets.any fun secret => decide (secret <:+: value)

/-- The string is replaced. -/
def IsCredential (knownSecrets : List PyText) (s : PyText) : Prop :=
  JwtLike s ∨ ∃ secret ∈ knownSecrets, secret <:+: s

theorem credential_iff (knownSecrets : List PyText) (s : PyText) :
    (matchesJwtLikePattern s || containsAKnownSecret s knownSecrets) = true ↔
      IsCredential knownSecrets s := by
  simp [IsCredential, containsAKnownSecret, matchesJwtLikePattern_iff]

/-- `_MIN_KNOWN_SECRET_LENGTH`. -/
def minKnownSecretLength : Nat := 8

/-- `filter_known_secrets`. -/
def filterKnownSecrets (values : List (Option PyText)) : List PyText :=
  (values.filterMap id).filter fun v => !v.isEmpty && decide (minKnownSecretLength ≤ v.length)

variable (knownSecrets : List PyText)

mutual
/-- `_sanitize_value`. -/
def sanitizeValue : PyValue → PyValue
  | .str s =>
    if matchesJwtLikePattern s || containsAKnownSecret s knownSecrets then .str redactedValue
    else .str s
  | .dict kvs => .dict (sanitizeLogFields kvs)
  | .list xs => .list (sanitizeValues xs)
  | .tuple xs => .list (sanitizeValues xs)
  | v => v

def sanitizeValues : List PyValue → List PyValue
  | [] => []
  | x :: xs => sanitizeValue x :: sanitizeValues xs

/-- `sanitize_log_fields`; the keys of a dict are distinct, so each one is set once. -/
def sanitizeLogFields : List (PyText × PyValue) → List (PyText × PyValue)
  | [] => []
  | (key, value) :: fields =>
    (key, if isSensitiveKey lower key then .str redactedValue else sanitizeValue value) ::
      sanitizeLogFields fields
end

/-- What a key's value is replaced by. -/
def sanitizeMember (key : PyText) (value : PyValue) : PyValue :=
  if isSensitiveKey lower key then .str redactedValue else sanitizeValue lower knownSecrets value

theorem sanitizeValues_eq (xs : List PyValue) :
    sanitizeValues lower knownSecrets xs = xs.map (sanitizeValue lower knownSecrets) := by
  induction xs with
  | nil => simp [sanitizeValues]
  | cons x xs ih => simp [sanitizeValues, ih]

theorem sanitizeLogFields_eq (fields : List (PyText × PyValue)) :
    sanitizeLogFields lower knownSecrets fields =
      fields.map fun e => (e.1, sanitizeMember lower knownSecrets e.1 e.2) := by
  induction fields with
  | nil => simp [sanitizeLogFields]
  | cons e fields ih =>
    rcases e with ⟨key, value⟩
    simp [sanitizeLogFields, sanitizeMember, ih]

/-- Keys stay, sensitive or not. -/
theorem keys_sanitizeLogFields (fields : List (PyText × PyValue)) :
    Dict.keys (sanitizeLogFields lower knownSecrets fields) = Dict.keys fields := by
  simp [sanitizeLogFields_eq, Dict.keys]

/-- What a key leads to in the result. -/
theorem get_sanitizeLogFields (fields : List (PyText × PyValue)) (key : PyText) :
    Dict.get (sanitizeLogFields lower knownSecrets fields) key =
      (Dict.get fields key).map (sanitizeMember lower knownSecrets key) := by
  induction fields with
  | nil => simp [sanitizeLogFields]
  | cons e fields ih =>
    rcases e with ⟨key', value⟩
    by_cases h : key' = key
    · subst h
      simp [sanitizeLogFields, Dict.get, sanitizeMember]
    · simp [sanitizeLogFields, Dict.get, h, ih]

/-! ## Once more -/

mutual
/-- Neither the replacement nor a text that was kept is changed by a second pass. -/
theorem sanitizeValue_idem : ∀ v : PyValue,
    sanitizeValue lower knownSecrets (sanitizeValue lower knownSecrets v) =
      sanitizeValue lower knownSecrets v
  | .str s => by
    by_cases h : (matchesJwtLikePattern s || containsAKnownSecret s knownSecrets) = true
    · simp only [sanitizeValue, if_pos h]
      split <;> simp
    · simp only [sanitizeValue, if_neg h]
  | .dict kvs => by
    simp only [sanitizeValue]
    rw [sanitizeLogFields_idem kvs]
  | .list xs => by
    simp only [sanitizeValue]
    rw [sanitizeValues_idem xs]
  | .tuple xs => by
    simp only [sanitizeValue]
    rw [sanitizeValues_idem xs]
  | .null => by simp [sanitizeValue]
  | .bool _ => by simp [sanitizeValue]
  | .int _ => by simp [sanitizeValue]
  | .float _ => by simp [sanitizeValue]
  | .nonFinite _ => by simp [sanitizeValue]
  | .other _ => by simp [sanitizeValue]

theorem sanitizeValues_idem : ∀ xs : List PyValue,
    sanitizeValues lower knownSecrets (sanitizeValues lower knownSecrets xs) =
      sanitizeValues lower knownSecrets xs
  | [] => by simp [sanitizeValues]
  | x :: xs => by
    simp only [sanitizeValues]
    rw [sanitizeValue_idem x, sanitizeValues_idem xs]

/-- A key stays what it is, so a value that was replaced is replaced again by the same text. -/
theorem sanitizeLogFields_idem : ∀ fields : List (PyText × PyValue),
    sanitizeLogFields lower knownSecrets (sanitizeLogFields lower knownSecrets fields) =
      sanitizeLogFields lower knownSecrets fields
  | [] => by simp [sanitizeLogFields]
  | (key, value) :: fields => by
    simp only [sanitizeLogFields]
    rw [sanitizeLogFields_idem fields]
    by_cases h : isSensitiveKey lower key = true
    · simp only [if_pos h]
    · simp only [if_neg h]
      rw [sanitizeValue_idem value]
end

/-! ## Paths -/

/-- A step into a dict or into a list or tuple. -/
inductive PathStep where
  | key (key : PyText)
  | index (i : Nat)
deriving DecidableEq

/-- The value at a path, if the path leads anywhere. -/
def valueAt : PyValue → List PathStep → Option PyValue
  | v, [] => some v
  | .dict kvs, .key k :: path => (Dict.get kvs k).bind fun v => valueAt v path
  | .list xs, .index i :: path => xs[i]?.bind fun v => valueAt v path
  | .tuple xs, .index i :: path => xs[i]?.bind fun v => valueAt v path
  | _, _ :: _ => none

/-- The path goes through no sensitive key. -/
def ClearPath (path : List PathStep) : Prop := ∀ k, .key k ∈ path → ¬ SensitiveKey lower k

/-- A last step into a dict. -/
theorem valueAt_concat_key (v : PyValue) (path : List PathStep) (k : PyText) :
    valueAt v (path ++ [.key k]) =
      (valueAt v path).bind fun w => match w with
        | .dict kvs => Dict.get kvs k
        | _ => none := by
  induction path generalizing v with
  | nil => cases v <;> simp [valueAt]
  | cons step path ih =>
    have hbind : ∀ o : Option PyValue,
        (o.bind fun w => valueAt w (path ++ [.key k])) =
          (o.bind fun w => valueAt w path).bind fun w => match w with
            | .dict kvs => Dict.get kvs k
            | _ => none := by
      intro o
      cases o with
      | none => simp
      | some w => simpa using ih w
    cases v <;> cases step <;> simp only [List.cons_append, valueAt, Option.bind_none] <;>
      exact hbind _

/-- **The value at a clear path of the result is the sanitized value at that path.** -/
theorem valueAt_sanitizeValue {path : List PathStep} (hclear : ClearPath lower path) (v : PyValue) :
    valueAt (sanitizeValue lower knownSecrets v) path =
      (valueAt v path).map (sanitizeValue lower knownSecrets) := by
  induction path generalizing v with
  | nil => simp [valueAt]
  | cons step path ih =>
    have hrest : ClearPath lower path := fun k hk => hclear k (List.mem_cons_of_mem _ hk)
    have hbind : ∀ o : Option PyValue,
        ((o.map (sanitizeValue lower knownSecrets)).bind fun w => valueAt w path) =
          (o.bind fun w => valueAt w path).map (sanitizeValue lower knownSecrets) := by
      intro o
      cases o with
      | none => simp
      | some w => simpa using ih hrest w
    cases v with
    -- A step of the wrong kind leads nowhere, before and after.
    | dict kvs =>
      cases step with
      | index i => simp [sanitizeValue, valueAt]
      | key k =>
        -- The key is not sensitive, so its value is sanitized and not replaced.
        have hk : isSensitiveKey lower k = false := by
          have hne := hclear k List.mem_cons_self
          rwa [← isSensitiveKey_iff, Bool.not_eq_true] at hne
        have hmember : sanitizeMember lower knownSecrets k = sanitizeValue lower knownSecrets := by
          funext value
          simp [sanitizeMember, hk]
        simp only [sanitizeValue, valueAt, get_sanitizeLogFields, hmember]
        exact hbind _
    | list xs =>
      cases step with
      | key k => simp [sanitizeValue, valueAt]
      | index i =>
        simp only [sanitizeValue, valueAt, sanitizeValues_eq, List.getElem?_map]
        exact hbind _
    | tuple xs =>
      cases step with
      | key k => simp [sanitizeValue, valueAt]
      | index i =>
        simp only [sanitizeValue, valueAt, sanitizeValues_eq, List.getElem?_map]
        exact hbind _
    | str s =>
      simp only [sanitizeValue]
      split <;> simp [valueAt]
    | _ => simp [sanitizeValue, valueAt]

/-- What stands in the result in place of a value, on a path with no sensitive key. -/
def SanitizedAs : PyValue → PyValue → Prop
  | .dict kvs, w => ∃ kvs', w = .dict kvs' ∧ Dict.keys kvs' = Dict.keys kvs
  | .list xs, w => ∃ ys, w = .list ys ∧ ys.length = xs.length
  | .tuple xs, w => ∃ ys, w = .list ys ∧ ys.length = xs.length
  | .str s, w =>
    (IsCredential knownSecrets s → w = .str redactedValue) ∧
      (¬ IsCredential knownSecrets s → w = .str s)
  | v, w => w = v

/-- The sanitized value is what the specification asks for. -/
theorem sanitizedAs_sanitizeValue (v : PyValue) :
    SanitizedAs knownSecrets v (sanitizeValue lower knownSecrets v) := by
  cases v with
  | dict kvs =>
    simp only [SanitizedAs, sanitizeValue]
    exact ⟨_, rfl, keys_sanitizeLogFields lower knownSecrets kvs⟩
  | list xs =>
    simp only [SanitizedAs, sanitizeValue]
    exact ⟨_, rfl, by rw [sanitizeValues_eq, List.length_map]⟩
  | tuple xs =>
    simp only [SanitizedAs, sanitizeValue]
    exact ⟨_, rfl, by rw [sanitizeValues_eq, List.length_map]⟩
  | str s =>
    simp only [SanitizedAs, sanitizeValue, ← credential_iff]
    constructor
    · intro h
      rw [if_pos h]
    · intro h
      rw [if_neg h]
  | _ => simp [SanitizedAs, sanitizeValue]

/-- **Sanitizing is exact and idempotent.** Along paths with no sensitive key nothing is added,
dicts keep their keys and lists their lengths, a string is replaced exactly if it is a
credential, and all else stays; what stands under a sensitive key is replaced; and a second
pass changes nothing. -/
theorem sanitizeLogFields_exact (fields : List (PyText × PyValue)) :
    (∀ path, ClearPath lower path →
      (valueAt (.dict fields) path = none →
        valueAt (.dict (sanitizeLogFields lower knownSecrets fields)) path = none) ∧
      (∀ v, valueAt (.dict fields) path = some v →
        ∃ w, valueAt (.dict (sanitizeLogFields lower knownSecrets fields)) path = some w ∧
          SanitizedAs knownSecrets v w) ∧
      ∀ k, SensitiveKey lower k → (valueAt (.dict fields) (path ++ [.key k])).isSome →
        valueAt (.dict (sanitizeLogFields lower knownSecrets fields)) (path ++ [.key k]) =
          some (.str redactedValue)) ∧
    sanitizeLogFields lower knownSecrets (sanitizeLogFields lower knownSecrets fields) =
      sanitizeLogFields lower knownSecrets fields := by
  refine ⟨fun path hclear => ?_, sanitizeLogFields_idem lower knownSecrets fields⟩
  have hat : valueAt (.dict (sanitizeLogFields lower knownSecrets fields)) path =
      (valueAt (.dict fields) path).map (sanitizeValue lower knownSecrets) := by
    simpa only [sanitizeValue] using
      valueAt_sanitizeValue lower knownSecrets hclear (.dict fields)
  refine ⟨?_, ?_, ?_⟩
  · intro hnone
    rw [hat, hnone, Option.map_none]
  · intro v hv
    exact ⟨_, by rw [hat, hv, Option.map_some], sanitizedAs_sanitizeValue lower knownSecrets v⟩
  · intro k hk hsome
    have hk' : isSensitiveKey lower k = true := (isSensitiveKey_iff lower k).mpr hk
    rw [valueAt_concat_key] at hsome ⊢
    rw [hat]
    cases hv : valueAt (.dict fields) path with
    | none => simp [hv] at hsome
    | some v =>
      rw [hv] at hsome
      cases v with
      | dict kvs =>
        simp only [Option.bind_some] at hsome
        simp only [Option.map_some, Option.bind_some, sanitizeValue, get_sanitizeLogFields]
        obtain ⟨value, hvalue⟩ := Option.isSome_iff_exists.mp hsome
        rw [hvalue]
        simp [sanitizeMember, hk']
      | _ => simp at hsome

end Sanitizer

/-- `str.lower` on ASCII texts. -/
def asciiLower (s : PyText) : PyText :=
  s.map fun c => if h : 'A'.toNat ≤ c.val ∧ c.val ≤ 'Z'.toNat then
    ⟨c.val + 32, Nat.lt_of_le_of_lt (Nat.add_le_add_right h.2 32) (by decide)⟩ else c

/-- A password in a nested dict, and a JWT in a list. -/
def nestedFields : List (PyText × PyValue) :=
  [(pyText "context", .dict [(pyText "PASSWORD", .str (pyText "hunter2")), (pyText "user", .null)]),
    (pyText "items", .list [.str (pyText "aaaaaaaa.bbbbbbbb.cccccccc"), .str (pyText "plain")])]

/-- The path into the nested dict is clear, and the password stands at its end. -/
theorem sanitizeLogFields_exact_nested :
    valueAt (.dict (sanitizeLogFields asciiLower [] nestedFields))
        [.key (pyText "context"), .key (pyText "PASSWORD")] = some (.str redactedValue) ∧
      sanitizeLogFields asciiLower [] (sanitizeLogFields asciiLower [] nestedFields) =
        sanitizeLogFields asciiLower [] nestedFields := by
  have hclear : ClearPath asciiLower [.key (pyText "context")] := by
    intro k hk
    obtain rfl : k = pyText "context" := by simpa using hk
    decide +kernel
  obtain ⟨hpaths, hidem⟩ := sanitizeLogFields_exact asciiLower [] nestedFields
  exact ⟨(hpaths _ hclear).2.2 (pyText "PASSWORD") (by decide +kernel)
    (by decide +kernel), hidem⟩

end AuditLog
