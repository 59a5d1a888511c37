import AuditLog.HashedContent
import AuditLog.Services.ExportService
import AuditLog.Verification.ChainBinding

/-!
# What a manifest hash binds

The manifest hash binds the ids and the event hashes of a bundle, in order, and each
event hash binds the content of its record. Two bundles that pass the recipe under
one manifest hash therefore hold the same records.
-/

namespace AuditLog

variable {sha256 : Bytes → PyStr}

/-- What the bundle check hashes. -/
def manifestContent (records : List AuditEventOut) : HashedContent :=
  .manifest (records.map fun r => manifestEntry r.id r.eventHash)

/-- The bytes that the recipe digests. -/
def recipeInputs (records : List AuditEventOut) : Set Bytes :=
  insert (manifestContent records).input {input | ∃ r ∈ records, input = r.toEventContent.canonical}

theorem canonical_mem_recipeInputs {records : List AuditEventOut} {r : AuditEventOut}
    (h : r ∈ records) : r.toEventContent.canonical ∈ recipeInputs records :=
  Set.mem_insert_of_mem _ ⟨r, h, rfl⟩

/-- The same record in everything that the recipe covers. -/
structure AuditEventOut.SameAs (r s : AuditEventOut) : Prop where
  id : r.id = s.id
  eventHash : r.eventHash = s.eventHash
  content : r.toEventContent.SameAs s.toEventContent

theorem same_manifestEntry_iff {i j : Int} {h g : PyStr} :
    Json.Same (manifestEntry i h).toJson (manifestEntry j g).toJson ↔ i = j ∧ h = g := by
  have hkeys : Dict.keys (manifestEntry i h).fields = Dict.keys (manifestEntry j g).fields := rfl
  rw [Payload.toJson, Payload.toJson,
    Json.same_obj_iff_of_keys_eq hkeys (manifestEntry i h).keys_nodup]
  simp [manifestEntry, Json.Same]

/-- One record under the per-record check: its event hash binds its content. -/
theorem RecordVerifies.sameAs {r s : AuditEventOut} (hr : RecordVerifies sha256 r)
    (hs : RecordVerifies sha256 s) {inputs : Set Bytes} (hsha : CollisionFree sha256 inputs)
    (hrin : r.toEventContent.canonical ∈ inputs) (hsin : s.toEventContent.canonical ∈ inputs)
    (hhash : r.eventHash = s.eventHash) : r.toEventContent.SameAs s.toEventContent := by
  have hdigest : sha256 r.toEventContent.canonical = sha256 s.toEventContent.canonical :=
    hr.trans (hhash.trans hs.symm)
  have hinput := hsha hrin hsin hdigest
  exact (HashedContent.input_eq_iff (.event r.toEventContent) (.event s.toEventContent)).mp hinput

/-- **The manifest hash binds the bundle.** Two bundles that pass the recipe under one
manifest hash have the same records, position by position. -/
theorem manifest_hash_binds_records {bundle₁ bundle₂ : ExportBundleOut}
    (h₁ : BundleVerifies sha256 bundle₁) (h₂ : BundleVerifies sha256 bundle₂)
    (hmanifest : bundle₁.manifestHash = bundle₂.manifestHash)
    (hsha : CollisionFree sha256 (recipeInputs bundle₁.records ∪ recipeInputs bundle₂.records)) :
    bundle₁.records.length = bundle₂.records.length ∧
      List.Forall₂ AuditEventOut.SameAs bundle₁.records bundle₂.records := by
  have hdigest : sha256 (manifestContent bundle₁.records).input =
      sha256 (manifestContent bundle₂.records).input :=
    h₁.manifest.trans (hmanifest.trans h₂.manifest.symm)
  have hinput := hsha (Or.inl (Set.mem_insert _ _)) (Or.inr (Set.mem_insert _ _)) hdigest
  -- The entries agree in order, so the records agree on what they commit to.
  have hentries : List.Forall₂ (fun r s : AuditEventOut => r.id = s.id ∧ r.eventHash = s.eventHash)
      bundle₁.records bundle₂.records := by
    have hsame := (HashedContent.input_eq_iff _ _).mp hinput
    simp only [manifestContent, HashedContent.SameAs, List.forall₂_map_left_iff,
      List.forall₂_map_right_iff] at hsame
    exact hsame.imp fun r s h => same_manifestEntry_iff.mp h
  obtain ⟨hlength, hpairs⟩ := List.forall₂_iff_zip.mp hentries
  refine ⟨hlength, List.forall₂_iff_zip.mpr ⟨hlength, ?_⟩⟩
  intro r s hpair
  obtain ⟨hid, hhash⟩ := hpairs hpair
  obtain ⟨hr, hs⟩ := List.of_mem_zip hpair
  have hcontent := RecordVerifies.sameAs (h₁.records r hr) (h₂.records s hs) hsha
    (Or.inl (canonical_mem_recipeInputs hr)) (Or.inr (canonical_mem_recipeInputs hs)) hhash
  exact ⟨hid, hhash, hcontent⟩

/-! ## Bundles that differ in key order only -/

/-- The export of the table with two events, the payload keys of the first one in either order. -/
def twoKeyBundle (flip : Bool) : ExportBundleOut :=
  (exportEvents Sha256.hexdigest (twoKeyTable flip) none none .sample).out

theorem twoKeyBundle_verifies (flip : Bool) : BundleVerifies Sha256.hexdigest (twoKeyBundle flip) where
  records := by cases flip <;> decide +kernel
  manifest := manifestHashOf_exportEvents _ _ _ _ _

/-- The texts that the recipe hashes for either bundle. -/
def twoKeyInputs (flip : Bool) : List Bytes :=
  (manifestContent (twoKeyBundle flip).records).input ::
    (twoKeyBundle flip).records.map fun r => r.toEventContent.canonical

theorem mem_twoKeyInputs {flip : Bool} {input : Bytes}
    (h : input ∈ recipeInputs (twoKeyBundle flip).records) : input ∈ twoKeyInputs false := by
  have hsame : twoKeyInputs flip = twoKeyInputs false := by
    cases flip
    · rfl
    · decide +kernel
  rw [← hsame]
  rcases h with rfl | ⟨r, hr, rfl⟩
  · exact List.mem_cons_self
  · exact List.mem_cons_of_mem _ (List.mem_map_of_mem hr)

/-- The same two records either way, in spite of the order of the keys. -/
theorem manifest_hash_binds_records_twoKeys :
    (twoKeyBundle false).records ≠ (twoKeyBundle true).records ∧
      (twoKeyBundle false).records.length = 2 ∧
      List.Forall₂ AuditEventOut.SameAs (twoKeyBundle false).records (twoKeyBundle true).records := by
  have hmanifest : (twoKeyBundle false).manifestHash = (twoKeyBundle true).manifestHash := by
    decide +kernel
  have hdistinct : ((twoKeyInputs false).map Sha256.hexdigest).Nodup := by
    decide +kernel
  have hmem : ∀ input ∈ recipeInputs (twoKeyBundle false).records ∪
      recipeInputs (twoKeyBundle true).records, input ∈ twoKeyInputs false := by
    rintro input (h | h)
    · exact mem_twoKeyInputs h
    · exact mem_twoKeyInputs h
  have hsha : CollisionFree Sha256.hexdigest
      (recipeInputs (twoKeyBundle false).records ∪ recipeInputs (twoKeyBundle true).records) := by
    intro a ha b hb hab
    exact List.inj_on_of_nodup_map hdistinct (hmem a ha) (hmem b hb) hab
  refine ⟨by decide +kernel, by decide +kernel, ?_⟩
  exact (manifest_hash_binds_records (twoKeyBundle_verifies false) (twoKeyBundle_verifies true)
    hmanifest hsha).2

end AuditLog
