import AuditLog.Core.PayloadWalkers
import AuditLog.Python.Dumps

/-!
# Request schemas

The configured payload limits and `AuditEventCreate`, the validated body of an
event to append. A value of `AuditEventCreate settings` meets every check;
`AuditEventCreate.validate` is the only way the code builds one. A payload that is
nested too deep for the recursion of the walkers is neither accepted nor refused:
the validator raises a `RecursionError`, which is no validation error.
-/

namespace AuditLog

/-! ## f-strings -/

/-- A piece of an f-string: text, `{n}`, `{s!r}` and its variants. -/
inductive Piece where
  | text (s : String)
  | int (n : Int)
  | repr (s : PyStr)
  | reprList (xs : List PyStr)
  | reprJson (j : Json)
deriving DecidableEq

abbrev FString := List Piece

/-! ## Settings -/

theorem defaultBytes_pos : 0 < 16384 := by decide

theorem defaultDepth_pos : 0 < 10 := by decide

theorem defaultStringLength_pos : 0 < 2000 := by decide

/-- The payload limits of `Settings`, each `gt=0`; every default passes its check. -/
structure Settings where
  maxPayloadBytes : Nat := 16384
  maxPayloadDepth : Nat := 10
  maxPayloadStringLength : Nat := 2000
  bytes_pos : 0 < maxPayloadBytes := by first | exact defaultBytes_pos | decide
  depth_pos : 0 < maxPayloadDepth := by first | exact defaultDepth_pos | decide
  stringLength_pos : 0 < maxPayloadStringLength := by first | exact defaultStringLength_pos | decide

/-! ## Payload limits -/

/-- `compute_payload_byte_size`. -/
def computePayloadByteSize (payload : Payload) : Nat :=
  (utf8 payload.toJson.dumps).length

/-- `AuditEventCreate._enforce_payload_limits`; the error is the `ValueError` text, `none` the
`RecursionError` of a walker. -/
def enforcePayloadLimits (stack : Stack) (settings : Settings) (value : Payload) :
    Option (Except FString Payload) :=
  -- Size, then depth, then string length: the first limit exceeded is the one reported.
  let byteSize := computePayloadByteSize value
  if settings.maxPayloadBytes < byteSize then
    some (.error [.text "payload is ", .int byteSize, .text " bytes, which exceeds the maximum of ",
      .int settings.maxPayloadBytes, .text " bytes."])
  else
    (computePayloadDepth stack value.toJson).bind fun depth =>
      if settings.maxPayloadDepth < depth then
        some (.error [.text "payload is nested ", .int depth,
          .text " levels deep, which exceeds the maximum of ", .int settings.maxPayloadDepth,
          .text " levels."])
      else
        (payloadHasOverlongString settings.maxPayloadStringLength stack value.toJson).map
          fun overlong =>
            if overlong then
              .error [.text "payload contains a string value longer than the maximum of ",
                .int settings.maxPayloadStringLength, .text " characters."]
            else .ok value

/-- Both limits hold at every position of the value. -/
structure WithinPayloadLimits (settings : Settings) (v : Json) : Prop where
  depth : ∀ p w, Json.tree.at? v p = some w →
    (Json.tree.trail v p).countP Json.isNonEmptyContainer ≤ settings.maxPayloadDepth
  strings : ∀ p w, Json.tree.at? v p = some w → ∀ s ∈ w.ownStrings,
    s.len ≤ settings.maxPayloadStringLength

theorem withinPayloadLimits_iff (settings : Settings) (v : Json) :
    WithinPayloadLimits settings v ↔
      v.depth ≤ settings.maxPayloadDepth ∧
        v.hasOverlong settings.maxPayloadStringLength = false := by
  rw [depth_le_iff, ← Bool.not_eq_true, hasOverlong_iff]
  constructor
  · rintro ⟨hdepth, hstrings⟩
    refine ⟨hdepth, ?_⟩
    rintro ⟨p, w, hw, s, hs, hlong⟩
    exact absurd (hstrings p w hw s hs) (Nat.not_le_of_lt hlong)
  · rintro ⟨hdepth, hnone⟩
    refine ⟨hdepth, fun p w hw s hs => ?_⟩
    by_contra hlong
    exact hnone ⟨p, w, hw, s, hs, Nat.lt_of_not_le hlong⟩

/-- A payload that is not too large nests deeper than the first walker gets, or the second one
runs out of frames before it has found an overlong string. -/
def PayloadRaises (stack : Stack) (settings : Settings) (payload : Payload) : Prop :=
  computePayloadByteSize payload ≤ settings.maxPayloadBytes ∧
    (stack.frames < Json.depthFrames stack.generator payload.toJson.depth ∨
      payload.toJson.depth ≤ settings.maxPayloadDepth ∧
        payloadHasOverlongString settings.maxPayloadStringLength stack payload.toJson = none)

section Limits

variable {stack : Stack} {settings : Settings} {payload : Payload}

/-- The validator accepts a payload that the walkers see all of and that meets every limit. -/
theorem enforcePayloadLimits_ok_iff {value : Payload} :
    enforcePayloadLimits stack settings payload = some (.ok value) ↔
      value = payload ∧ computePayloadByteSize payload ≤ settings.maxPayloadBytes ∧
        payload.toJson.depth ≤ settings.maxPayloadDepth ∧
        payload.toJson.hasOverlong settings.maxPayloadStringLength = false ∧
        payload.toJson.walkFrames stack.generator ≤ stack.frames := by
  unfold enforcePayloadLimits
  dsimp only
  constructor
  · intro h
    split at h
    · cases h
    · rename_i hsize
      obtain ⟨depth, hdepth, h⟩ := Option.bind_eq_some_iff.mp h
      obtain ⟨-, rfl⟩ := computePayloadDepth_eq_some_iff.mp hdepth
      split at h
      · cases h
      · rename_i hdeep
        obtain ⟨overlong, hoverlong, h⟩ := Option.map_eq_some_iff.mp h
        obtain ⟨rfl, hwalked⟩ := searched_payloadHasOverlongString _ overlong hoverlong
        split at h
        · cases h
        · rename_i hshort
          cases h
          rw [Bool.not_eq_true] at hshort
          exact ⟨rfl, Nat.le_of_not_lt hsize, Nat.le_of_not_lt hdeep, hshort, hwalked hshort⟩
  · rintro ⟨rfl, hsize, hdepth, hshort, hfits⟩
    have hdeep := Json.depthFrames_le_walkFrames stack.generator value.toJson
    rw [if_neg (Nat.not_lt.mpr hsize), computePayloadDepth_eq_some_iff.mpr
      ⟨Nat.le_trans hdeep hfits, rfl⟩, Option.bind_some, if_neg (Nat.not_lt.mpr hdepth),
      payloadHasOverlongString_of_fits hfits, Option.map_some, hshort]
    rfl

theorem enforcePayloadLimits_eq_none_iff :
    enforcePayloadLimits stack settings payload = none ↔
      PayloadRaises stack settings payload := by
  unfold enforcePayloadLimits PayloadRaises
  dsimp only
  by_cases hsize : settings.maxPayloadBytes < computePayloadByteSize payload
  · simp [hsize]
  · rw [if_neg hsize]
    by_cases hroom : Json.depthFrames stack.generator payload.toJson.depth ≤ stack.frames
    · rw [computePayloadDepth_eq_some_iff.mpr ⟨hroom, rfl⟩, Option.bind_some]
      by_cases hdeep : settings.maxPayloadDepth < payload.toJson.depth
      · simp [hdeep, Nat.not_lt.mpr hroom]
      · simp [hdeep, Nat.not_lt.mpr hroom, Nat.le_of_not_lt hsize, Nat.le_of_not_lt hdeep]
    · have hraised : computePayloadDepth stack payload.toJson = none :=
        Option.eq_none_iff_forall_ne_some.mpr fun d hd =>
          hroom (computePayloadDepth_eq_some_iff.mp hd).1
      simp [hraised, Nat.le_of_not_lt hsize, Nat.lt_of_not_le hroom]

end Limits

/-! ## `AuditEventCreate` -/

inductive FieldErrorKind where
  | stringUnicode
  | stringTooShort (minLength : Nat)
  | stringTooLong (maxLength : Nat)
  | valueError (message : FString)
deriving DecidableEq

structure FieldError where
  loc : String
  kind : FieldErrorKind
deriving DecidableEq

/-- `Field(alias=loc, min_length=1, max_length=maxLength)` on a string. -/
def stringField (loc : String) (maxLength : Nat) (s : PyStr) : List FieldError :=
  -- A string whose length is bounded is read as Unicode first.
  if s.HasSurrogate then [⟨loc, .stringUnicode⟩]
  else if s.len < 1 then [⟨loc, .stringTooShort 1⟩]
  else if maxLength < s.len then [⟨loc, .stringTooLong maxLength⟩]
  else []

def payloadField (stack : Stack) (settings : Settings) (payload : Payload) :
    Option (List FieldError) :=
  (enforcePayloadLimits stack settings payload).map fun
    | .error message => [⟨"payload", .valueError message⟩]
    | .ok _ => []

/-- All errors of a body, in the order of the fields, unless the validator of the payload raises. -/
def fieldErrors (stack : Stack) (settings : Settings)
    (eventType actorId resourceType resourceId : PyStr) (payload : Payload) :
    Option (List FieldError) :=
  (payloadField stack settings payload).map fun errors =>
    stringField "eventType" 100 eventType ++ stringField "actorId" 255 actorId ++
      stringField "resourceType" 100 resourceType ++ stringField "resourceId" 255 resourceId ++
      errors

/-- A string without surrogates, within the bounds of its column. -/
def AcceptableText (maxLength : Nat) (s : PyStr) : Prop :=
  ¬ s.HasSurrogate ∧ 1 ≤ s.len ∧ s.len ≤ maxLength

instance (maxLength : Nat) (s : PyStr) : Decidable (AcceptableText maxLength s) :=
  inferInstanceAs (Decidable (_ ∧ _))

/-- Four strings that their columns take, and a payload within the configured limits. -/
def Acceptable (settings : Settings) (eventType actorId resourceType resourceId : PyStr)
    (payload : Payload) : Prop :=
  AcceptableText 100 eventType ∧ AcceptableText 255 actorId ∧ AcceptableText 100 resourceType ∧
    AcceptableText 255 resourceId ∧
    computePayloadByteSize payload ≤ settings.maxPayloadBytes ∧
    payload.toJson.depth ≤ settings.maxPayloadDepth ∧
    payload.toJson.hasOverlong settings.maxPayloadStringLength = false

instance (settings : Settings) (eventType actorId resourceType resourceId : PyStr)
    (payload : Payload) :
    Decidable (Acceptable settings eventType actorId resourceType resourceId payload) :=
  inferInstanceAs (Decidable (_ ∧ _))

/-! ### What is accepted -/

section Accepted

variable {stack : Stack} {settings : Settings} {eventType actorId resourceType resourceId : PyStr}
  {payload : Payload}

theorem stringField_eq_nil_iff (loc : String) (maxLength : Nat) (s : PyStr) :
    stringField loc maxLength s = [] ↔ AcceptableText maxLength s := by
  unfold stringField AcceptableText
  split
  · rename_i hsurrogate
    simp [hsurrogate]
  · rename_i hunicode
    rw [and_iff_right hunicode]
    split
    · simp
      omega
    · split
      · simp
        omega
      · simp
        omega

theorem payloadField_eq_some_nil_iff :
    payloadField stack settings payload = some [] ↔
      computePayloadByteSize payload ≤ settings.maxPayloadBytes ∧
        payload.toJson.depth ≤ settings.maxPayloadDepth ∧
        payload.toJson.hasOverlong settings.maxPayloadStringLength = false ∧
        payload.toJson.walkFrames stack.generator ≤ stack.frames := by
  have haccepted : payloadField stack settings payload = some [] ↔
      ∃ value, enforcePayloadLimits stack settings payload = some (.ok value) := by
    unfold payloadField
    rcases enforcePayloadLimits stack settings payload with _ | _ | _ <;> simp
  simp only [haccepted, enforcePayloadLimits_ok_iff, exists_eq_left]

/-- **What the schema accepts**: a body within every bound, on a stack that takes the walk over
its payload. -/
theorem fieldErrors_eq_some_nil_iff :
    fieldErrors stack settings eventType actorId resourceType resourceId payload = some [] ↔
      Acceptable settings eventType actorId resourceType resourceId payload ∧
        payload.toJson.walkFrames stack.generator ≤ stack.frames := by
  unfold fieldErrors Acceptable
  rw [Option.map_eq_some_iff]
  simp only [List.append_eq_nil_iff, stringField_eq_nil_iff]
  constructor
  · rintro ⟨_, hpayload, ⟨⟨⟨hevent, hactor⟩, htype⟩, hid⟩, rfl⟩
    obtain ⟨hsize, hdepth, hshort, hfits⟩ := payloadField_eq_some_nil_iff.mp hpayload
    exact ⟨⟨hevent, hactor, htype, hid, hsize, hdepth, hshort⟩, hfits⟩
  · rintro ⟨⟨hevent, hactor, htype, hid, hsize, hdepth, hshort⟩, hfits⟩
    have hpayload := payloadField_eq_some_nil_iff.mpr ⟨hsize, hdepth, hshort, hfits⟩
    exact ⟨[], hpayload, ⟨⟨⟨hevent, hactor⟩, htype⟩, hid⟩, rfl⟩

theorem fieldErrors_eq_none_iff :
    fieldErrors stack settings eventType actorId resourceType resourceId payload = none ↔
      enforcePayloadLimits stack settings payload = none := by
  unfold fieldErrors payloadField
  rw [Option.map_eq_none_iff, Option.map_eq_none_iff]

end Accepted

structure AuditEventCreate (settings : Settings) where
  eventType : PyStr
  actorId : PyStr
  resourceType : PyStr
  resourceId : PyStr
  payload : Payload
  valid : Acceptable settings eventType actorId resourceType resourceId payload
deriving DecidableEq

namespace AuditEventCreate

variable {settings : Settings}

/-- `AuditEventCreate(...)`; the error is the `ValidationError`, `none` a `RecursionError`. -/
def validate (stack : Stack) (settings : Settings)
    (eventType actorId resourceType resourceId : PyStr) (payload : Payload) :
    Option (Except (List FieldError) (AuditEventCreate settings)) :=
  match h : fieldErrors stack settings eventType actorId resourceType resourceId payload with
  | none => none
  | some [] =>
    some (.ok ⟨eventType, actorId, resourceType, resourceId, payload,
      (fieldErrors_eq_some_nil_iff.mp h).1⟩)
  | some (e :: errors) => some (.error (e :: errors))

/-- A small body for concrete instances. -/
def sample : AuditEventCreate {} :=
  ⟨"A", "b", "c", "d", ⟨[("x", .int 1)], by decide⟩, by decide +kernel⟩

section Validated

variable {stack : Stack} {eventType actorId resourceType resourceId : PyStr} {payload : Payload}

/-- A validated body is the body that was given. -/
theorem validate_ok {body : AuditEventCreate settings}
    (h : validate stack settings eventType actorId resourceType resourceId payload =
      some (.ok body)) :
    body.eventType = eventType ∧ body.actorId = actorId ∧ body.resourceType = resourceType ∧
      body.resourceId = resourceId ∧ body.payload = payload := by
  unfold validate at h
  split at h
  · cases h
  · cases h
    exact ⟨rfl, rfl, rfl, rfl, rfl⟩
  · cases h

theorem validate_eq_none_iff :
    validate stack settings eventType actorId resourceType resourceId payload = none ↔
      enforcePayloadLimits stack settings payload = none := by
  have hraises : fieldErrors stack settings eventType actorId resourceType resourceId payload =
      none ↔ enforcePayloadLimits stack settings payload = none := fieldErrors_eq_none_iff
  rw [← hraises]
  unfold validate
  split <;> rename_i h <;> simp [h]

/-- No walker raises where the stack takes the walk over the payload. -/
theorem validate_isSome_of_fits (h : payload.toJson.walkFrames stack.generator ≤ stack.frames) :
    (validate stack settings eventType actorId resourceType resourceId payload).isSome := by
  rw [Option.isSome_iff_ne_none, ne_eq, validate_eq_none_iff, enforcePayloadLimits_eq_none_iff]
  rintro ⟨-, hdeep | ⟨-, hraised⟩⟩
  · have hpart := Json.depthFrames_le_walkFrames stack.generator payload.toJson
    omega
  · rw [payloadHasOverlongString_of_fits h] at hraised
    cases hraised

/-- What is accepted is within the limits. -/
theorem withinPayloadLimits (body : AuditEventCreate settings) :
    WithinPayloadLimits settings body.payload.toJson :=
  (withinPayloadLimits_iff settings _).mpr body.valid.2.2.2.2.2

end Validated

theorem loc_of_mem_stringField {loc : String} {maxLength : Nat} {s : PyStr} {e : FieldError}
    (h : e ∈ stringField loc maxLength s) : e.loc = loc := by
  unfold stringField at h
  split at h
  · rw [List.mem_singleton.mp h]
  · split at h
    · rw [List.mem_singleton.mp h]
    · split at h
      · rw [List.mem_singleton.mp h]
      · exact absurd h List.not_mem_nil

theorem loc_of_mem_payloadField {stack : Stack} {payload : Payload} {errors : List FieldError}
    (h : payloadField stack settings payload = some errors) : ∀ e ∈ errors, e.loc = "payload" := by
  unfold payloadField at h
  rcases hlimits : enforcePayloadLimits stack settings payload with _ | message | value <;>
    rw [hlimits] at h <;> cases h <;> simp

/-- Every error names a field of the body. -/
theorem loc_of_mem_fieldErrors {stack : Stack}
    {eventType actorId resourceType resourceId : PyStr} {payload : Payload}
    {errors : List FieldError}
    (h : fieldErrors stack settings eventType actorId resourceType resourceId payload =
      some errors) :
    ∀ e ∈ errors, e.loc ∈ ["eventType", "actorId", "resourceType", "resourceId", "payload"] := by
  obtain ⟨payloadErrors, hpayload, rfl⟩ := Option.map_eq_some_iff.mp h
  intro e he
  simp only [List.mem_append] at he
  rcases he with (((he | he) | he) | he) | he
  · rw [loc_of_mem_stringField he]
    simp
  · rw [loc_of_mem_stringField he]
    simp
  · rw [loc_of_mem_stringField he]
    simp
  · rw [loc_of_mem_stringField he]
    simp
  · rw [loc_of_mem_payloadField hpayload e he]
    simp

end AuditEventCreate

end AuditLog
