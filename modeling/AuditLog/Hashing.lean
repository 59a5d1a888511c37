import AuditLog.Python.DateTime
import AuditLog.Python.Dumps
import Mathlib.Data.Set.Function

/-!
# Content hashes

`canonicalize` and the hashes built on it. SHA-256 is the parameter `sha256`
(`hashlib.sha256(data).hexdigest()`): the results that need it to be
collision-free say so, on the inputs they are about.

The canonical bytes of an event's content determine every hashed column, the
payload up to the order of dict members.
-/

namespace AuditLog

/-! ## The canonical form -/

/-- `json.dumps(data, sort_keys=True, …).encode("utf-8")`. -/
def canonicalize (data : Json) : Bytes := utf8 data.sortKeys.dumps

theorem canonicalize_eq_iff (a b : Json) :
    canonicalize a = canonicalize b ↔ a.sortKeys = b.sortKeys := by
  constructor
  · intro h
    exact Json.dumps_injective (utf8_injective h)
  · intro h
    rw [canonicalize, canonicalize, h]

/-- Values with the same canonical form are the same up to member order. -/
theorem same_of_canonicalize_eq {a b : Json} (h : canonicalize a = canonicalize b) :
    Json.Same a b :=
  Json.same_of_sortKeys_eq a b ((canonicalize_eq_iff a b).mp h)

/-- **The canonical form is an unambiguous encoding** of values without repeated keys, up to
member order. -/
theorem canonicalize_eq_iff_same {a b : Json} (ha : a.uniqueKeys = true) (hb : b.uniqueKeys = true) :
    canonicalize a = canonicalize b ↔ Json.Same a b := by
  constructor
  · exact same_of_canonicalize_eq
  · intro h
    rw [canonicalize_eq_iff]
    exact Json.sortKeys_eq_of_same a b ha hb h

/-- Sorted alike, two dicts without repeated keys hold sorted-alike values. -/
theorem get_of_sortKeys_eq {kvs kvs' : List (PyStr × Json)} (hnd : (Dict.keys kvs).Nodup)
    (hnd' : (Dict.keys kvs').Nodup) (h : (Json.obj kvs).sortKeys = (Json.obj kvs').sortKeys)
    (k : PyStr) : (Dict.get kvs k).map Json.sortKeys = (Dict.get kvs' k).map Json.sortKeys := by
  have hperm : (kvs.map fun e => (e.1, e.2.sortKeys)).Perm (kvs'.map fun e => (e.1, e.2.sortKeys)) := by
    simp only [Json.sortKeys, Json.obj.injEq, Json.sortKeysMembers_eq] at h
    exact (List.perm_insertionSort Json.memberLe _).symm.trans
      (h ▸ List.perm_insertionSort Json.memberLe _)
  -- A stored value has a sorted-alike entry on the other side, which its key finds.
  have hfind : ∀ (d d' : List (PyStr × Json)), (Dict.keys d').Nodup →
      (d.map fun e => (e.1, e.2.sortKeys)).Perm (d'.map fun e => (e.1, e.2.sortKeys)) →
      ∀ v, Dict.get d k = some v → (Dict.get d' k).map Json.sortKeys = some v.sortKeys := by
    intro d d' hnd' hperm v hv
    have hmem : (k, v.sortKeys) ∈ d'.map fun e => (e.1, e.2.sortKeys) :=
      hperm.mem_iff.mp (List.mem_map.mpr ⟨(k, v), Dict.mem_of_get hv, rfl⟩)
    rcases List.mem_map.mp hmem with ⟨⟨k', w⟩, hw, heq⟩
    rcases Prod.mk.inj heq with ⟨rfl, hval⟩
    rw [Dict.get_of_mem hnd' hw, Option.map_some, hval]
  cases hk : Dict.get kvs k with
  | some v => rw [hfind kvs kvs' hnd' hperm v hk, Option.map_some]
  | none =>
    cases hk' : Dict.get kvs' k with
    | none => rfl
    | some v =>
      have hback := hfind kvs' kvs hnd hperm.symm v hk'
      rw [hk] at hback
      exact absurd hback (by simp)

/-! ## Event content -/

/-- The caller-controlled content of an event, which the request fingerprint covers. -/
structure RequestContent where
  tenantId : PyStr
  eventType : PyStr
  actorId : PyStr
  resourceType : PyStr
  resourceId : PyStr
  payload : Payload
deriving DecidableEq

/-- The hashed content of an event. -/
structure EventContent extends RequestContent where
  timestamp : DateTime
  previousHash : PyStr
deriving DecidableEq

def RequestContent.fields (c : RequestContent) : List (PyStr × Json) :=
  [("tenantId", .str c.tenantId), ("eventType", .str c.eventType), ("actorId", .str c.actorId),
    ("resourceType", .str c.resourceType), ("resourceId", .str c.resourceId),
    ("payload", c.payload.toJson)]

namespace EventContent

def fields (c : EventContent) : List (PyStr × Json) :=
  c.toRequestContent.fields ++
    ([("timestamp", .str c.timestamp.isoformat), ("previousHash", .str c.previousHash)] :
      List (PyStr × Json))

/-- The bytes that `compute_event_hash` feeds to SHA-256. -/
def canonical (c : EventContent) : Bytes := canonicalize (.obj c.fields)

theorem keys_fields_nodup (c : EventContent) : (Dict.keys c.fields).Nodup := by
  have hkeys : Dict.keys c.fields = (["tenantId", "eventType", "actorId", "resourceType",
      "resourceId", "payload", "timestamp", "previousHash"] : List String).map PyStr.ofString := rfl
  rw [hkeys]
  decide

/-- **The canonical content is an unambiguous encoding of the hashed columns.** -/
theorem canonical_eq_iff (c d : EventContent) :
    c.canonical = d.canonical ↔
      c.tenantId = d.tenantId ∧ c.eventType = d.eventType ∧ c.actorId = d.actorId ∧
        c.resourceType = d.resourceType ∧ c.resourceId = d.resourceId ∧
        canonicalize c.payload.toJson = canonicalize d.payload.toJson ∧
        c.timestamp.isoformat = d.timestamp.isoformat ∧ c.previousHash = d.previousHash := by
  constructor
  · intro h
    -- The sorted dicts agree, so they agree under each of the eight keys.
    have hget := get_of_sortKeys_eq c.keys_fields_nodup d.keys_fields_nodup
      ((canonicalize_eq_iff _ _).mp h)
    have hstr : ∀ {s t : PyStr}, some (Json.sortKeys (.str s)) = some (Json.sortKeys (.str t)) →
        s = t := by
      intro s t hst
      simpa [Json.sortKeys] using hst
    refine ⟨hstr (hget "tenantId"), hstr (hget "eventType"), hstr (hget "actorId"),
      hstr (hget "resourceType"), hstr (hget "resourceId"), ?_, hstr (hget "timestamp"),
      hstr (hget "previousHash")⟩
    exact (canonicalize_eq_iff _ _).mpr (Option.some.inj (hget "payload"))
  · -- Member by member: only the payload is compared after sorting.
    rintro ⟨ht, he, ha, hrt, hri, hp, hts, hprev⟩
    rw [canonical, canonical, canonicalize_eq_iff]
    rw [canonicalize_eq_iff] at hp
    simp only [fields, RequestContent.fields, Json.sortKeys, Json.sortKeysMembers_eq, List.map_append,
      List.map_cons, List.map_nil, ht, he, ha, hrt, hri, hp, hts, hprev]

end EventContent

/-! ## The hashes -/

/-- `GENESIS_HASH = "0" * 64`. -/
def GENESIS_HASH : PyStr := PyStr.ofChars (List.replicate 64 '0')

variable (sha256 : Bytes → PyStr)

/-- The digest has no collision among the given inputs. -/
def CollisionFree (inputs : Set Bytes) : Prop := Set.InjOn sha256 inputs

variable {sha256} in
theorem CollisionFree.mono {inputs inputs' : Set Bytes} (h : CollisionFree sha256 inputs')
    (hsub : inputs ⊆ inputs') : CollisionFree sha256 inputs := Set.InjOn.mono hsub h

/-- `compute_event_hash`. -/
def computeEventHash (c : EventContent) : PyStr := sha256 c.canonical

/-- `hash_field_value`. -/
def hashFieldValue (value : Json) : PyStr := sha256 (canonicalize (.obj [("value", value)]))

/-- `compute_request_fingerprint`. -/
def computeRequestFingerprint (c : RequestContent) : PyStr :=
  sha256 (canonicalize (.obj c.fields))

/-- `compute_manifest_hash`, for a list of dicts. -/
def computeManifestHash (entries : List Payload) : PyStr :=
  sha256 (canonicalize (.obj [("entries", .arr (entries.map Payload.toJson))]))

end AuditLog
