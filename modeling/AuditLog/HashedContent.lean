import AuditLog.Hashing
import AuditLog.Python.Isoformat
import AuditLog.Python.Sha256

/-!
# What is hashed

The four hash functions all digest the canonical form of a dict. The dicts of
different functions never have the same canonical form, and those of one function
only when its arguments are the same, payloads and field values up to the order of
dict members.
-/

namespace AuditLog

/-! ## The same arguments -/

/-- The same request content, the payload up to member order. -/
def RequestContent.SameAs (c d : RequestContent) : Prop :=
  c.tenantId = d.tenantId ∧ c.eventType = d.eventType ∧ c.actorId = d.actorId ∧
    c.resourceType = d.resourceType ∧ c.resourceId = d.resourceId ∧
    Json.Same c.payload.toJson d.payload.toJson

/-- The same event content, the payload up to member order. -/
def EventContent.SameAs (c d : EventContent) : Prop :=
  c.toRequestContent.SameAs d.toRequestContent ∧ c.timestamp = d.timestamp ∧
    c.previousHash = d.previousHash

/-- What one of the four hash functions is called with. -/
inductive HashedContent where
  | event (content : EventContent)
  | request (content : RequestContent)
  | fieldValue (value : Json) (unique : value.uniqueKeys = true)
  | manifest (entries : List Payload)

namespace HashedContent

/-- The hash function that is called. -/
inductive Kind where
  | event
  | request
  | fieldValue
  | manifest
deriving DecidableEq

def kind : HashedContent → Kind
  | .event _ => .event
  | .request _ => .request
  | .fieldValue _ _ => .fieldValue
  | .manifest _ => .manifest

/-- The hash that is computed. -/
def digest (sha256 : Bytes → PyStr) : HashedContent → PyStr
  | .event content => computeEventHash sha256 content
  | .request content => computeRequestFingerprint sha256 content
  | .fieldValue value _ => hashFieldValue sha256 value
  | .manifest entries => computeManifestHash sha256 entries

/-- The members of the dict that is canonicalized. -/
def fields : HashedContent → List (PyStr × Json)
  | .event content => content.fields
  | .request content => content.fields
  | .fieldValue value _ => [("value", value)]
  | .manifest entries => [("entries", .arr (entries.map Payload.toJson))]

/-- The bytes that are digested. -/
def input (x : HashedContent) : Bytes := canonicalize (.obj x.fields)

/-- The same function, called with the same arguments. -/
def SameAs : HashedContent → HashedContent → Prop
  | .event c, .event d => c.SameAs d
  | .request c, .request d => c.SameAs d
  | .fieldValue v _, .fieldValue w _ => Json.Same v w
  | .manifest es, .manifest fs => List.Forall₂ (fun e f => Json.Same e.toJson f.toJson) es fs
  | _, _ => False

theorem digest_eq (sha256 : Bytes → PyStr) (x : HashedContent) : x.digest sha256 = sha256 x.input := by
  cases x <;> rfl

/-! ## Which dicts are the same -/

/-- The keys that each function writes, in its order. -/
def Kind.keys : Kind → List PyStr
  | .event => ["tenantId", "eventType", "actorId", "resourceType", "resourceId", "payload",
    "timestamp", "previousHash"]
  | .request => ["tenantId", "eventType", "actorId", "resourceType", "resourceId", "payload"]
  | .fieldValue => ["value"]
  | .manifest => ["entries"]

theorem Kind.nodup_keys (k : Kind) : k.keys.Nodup := by
  cases k <;> decide

/-- The number of keys tells all kinds apart but two, whose keys differ. -/
theorem Kind.eq_of_keys {k l : Kind} (hlength : k.keys.length = l.keys.length)
    (hsub : ∀ key ∈ k.keys, key ∈ l.keys) : k = l := by
  revert hlength hsub
  cases k <;> cases l <;> decide

theorem keys_fields (x : HashedContent) : Dict.keys x.fields = x.kind.keys := by
  cases x <;> rfl

theorem nodup_keys_fields (x : HashedContent) : (Dict.keys x.fields).Nodup := by
  rw [keys_fields]
  exact x.kind.nodup_keys

theorem uniqueKeysList_toJson (entries : List Payload) :
    Json.uniqueKeysList (entries.map Payload.toJson) = true := by
  induction entries with
  | nil => rfl
  | cons p entries ih =>
    rw [List.map_cons, Json.uniqueKeysList, ih, Bool.and_true]
    exact p.unique

/-- Every dict that is hashed has distinct keys, at every level. -/
theorem unique (x : HashedContent) : (Json.obj x.fields).uniqueKeys = true := by
  simp only [Json.uniqueKeys, Bool.and_eq_true, decide_eq_true_eq]
  refine ⟨x.nodup_keys_fields, ?_⟩
  have hpayload : ∀ p : Payload, p.toJson.uniqueKeys = true := fun p => p.unique
  cases x with
  | event c =>
    simp [fields, EventContent.fields, RequestContent.fields, Json.uniqueKeysMembers, Json.uniqueKeys,
      hpayload]
  | request c =>
    simp [fields, RequestContent.fields, Json.uniqueKeysMembers, Json.uniqueKeys, hpayload]
  | fieldValue v hv => simp [fields, Json.uniqueKeysMembers, hv]
  | manifest entries =>
    simp [fields, Json.uniqueKeysMembers, Json.uniqueKeys, uniqueKeysList_toJson]

/-- **Contents of different functions have different keys.** -/
theorem kind_eq_of_same {x y : HashedContent} (h : Json.Same (.obj x.fields) (.obj y.fields)) :
    x.kind = y.kind := by
  apply Kind.eq_of_keys
  · have hlength := h.1
    rw [← keys_fields, ← keys_fields, Dict.keys, Dict.keys, List.length_map, List.length_map]
    exact hlength
  · intro key hkey
    rw [← keys_fields] at hkey ⊢
    exact Json.mem_keys_of_same h hkey

theorem sameList_toJson_iff (es fs : List Payload) :
    Json.SameList (es.map Payload.toJson) (fs.map Payload.toJson) ↔
      List.Forall₂ (fun e f => Json.Same e.toJson f.toJson) es fs := by
  induction es generalizing fs with
  | nil => cases fs <;> simp [Json.SameList]
  | cons e es ih =>
    cases fs with
    | nil => simp [Json.SameList]
    | cons f fs => simp [Json.SameList, ih]

theorem SameAs.kind_eq {x y : HashedContent} (h : x.SameAs y) : x.kind = y.kind := by
  cases x <;> cases y <;> first | rfl | exact h.elim

/-- **Within one kind, member by member**: the same dict means the same arguments. -/
theorem same_fields_iff (x y : HashedContent) :
    Json.Same (.obj x.fields) (.obj y.fields) ↔ x.SameAs y := by
  by_cases hkind : x.kind = y.kind
  · have hkeys : Dict.keys x.fields = Dict.keys y.fields := by
      rw [keys_fields, keys_fields, hkind]
    rw [Json.same_obj_iff_of_keys_eq hkeys x.nodup_keys_fields]
    cases x with
    | event c =>
      cases y with
      | event d =>
        simp [fields, EventContent.fields, RequestContent.fields, SameAs, EventContent.SameAs,
          RequestContent.SameAs, Json.Same, DateTime.isoformat_injective.eq_iff, and_assoc]
      | _ => cases hkind
    | request c =>
      cases y with
      | request d => simp [fields, RequestContent.fields, SameAs, RequestContent.SameAs, Json.Same]
      | _ => cases hkind
    | fieldValue v hv =>
      cases y with
      | fieldValue w hw => simp [fields, SameAs]
      | _ => cases hkind
    | manifest es =>
      cases y with
      | manifest fs => simp [fields, SameAs, Json.Same, sameList_toJson_iff]
      | _ => cases hkind
  · exact iff_of_false (fun h => hkind (kind_eq_of_same h)) fun h => hkind h.kind_eq

/-- **The bytes determine what is hashed**, and conversely. -/
theorem input_eq_iff (x y : HashedContent) : x.input = y.input ↔ x.SameAs y := by
  rw [input, input, canonicalize_eq_iff_same x.unique y.unique, same_fields_iff]

end HashedContent

/-! ## No two contents share their bytes -/

/-- **`canonicalize` is unambiguous**: two values have the same bytes exactly when they are
equal up to member order. The contents of the four hash functions never coincide across
functions, and within one only for the same arguments. -/
theorem canonicalize_unambiguous (sha256 : Bytes → PyStr) :
    (∀ a b : Json, a.uniqueKeys = true → b.uniqueKeys = true →
      (canonicalize a = canonicalize b ↔ Json.Same a b)) ∧
    ∀ x y : HashedContent, x.digest sha256 = sha256 x.input ∧
      (x.input = y.input → x.kind = y.kind) ∧ (x.input = y.input ↔ x.SameAs y) := by
  refine ⟨fun a b ha hb => canonicalize_eq_iff_same ha hb, fun x y => ?_⟩
  have hinput := HashedContent.input_eq_iff x y
  exact ⟨x.digest_eq sha256, fun h => (hinput.mp h).kind_eq, hinput⟩

/-- The order of the members of a dict does not show in its bytes. -/
theorem canonicalize_unambiguous_swapped :
    canonicalize (.obj [("a", .int 1), ("b", .null)]) =
      canonicalize (.obj [("b", .null), ("a", .int 1)]) := by
  refine ((canonicalize_unambiguous Sha256.hexdigest).1 _ _ (by decide) (by decide)).mpr ?_
  rw [Json.Same, Json.sameMembers_iff]
  refine ⟨rfl, fun k v h => ⟨v, ?_, ?_⟩⟩
  · simp only [List.mem_cons, List.not_mem_nil, or_false] at h ⊢
    exact h.symm
  · rcases List.mem_cons.mp h with h | h
    · rw [(Prod.mk.inj h).2, Json.Same]
    · rw [(Prod.mk.inj (List.mem_singleton.mp h)).2]
      trivial

end AuditLog
