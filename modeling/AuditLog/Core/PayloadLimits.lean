import AuditLog.Python.LeastBytes
import AuditLog.Schemas

/-!
# The payload size check (`payload_limits.py`)

`compute_payload_byte_size` serializes the parsed payload again and counts the bytes.
The result is meant as a lower bound on the size of any request body with that
payload; it is one exactly if no string and no float of the payload has a spelling
shorter than the one `json.dumps` chooses.
-/

namespace AuditLog

/-- `compute_payload_byte_size`, for whatever `json.loads` returns as a payload, floats that
are not finite included. -/
def computePayloadByteSizeOf (payload : List (PyText × PyValue)) : Nat :=
  (utf8 (PyValue.dict payload).dumps).length

/-- On payloads without such floats it is the size the schema checks. -/
theorem computePayloadByteSizeOf_ofJson (payload : Payload) :
    computePayloadByteSizeOf (PyValue.ofJsonMembers payload.fields) =
      computePayloadByteSize payload := by
  have hdumps := PyValue.dumps_ofJson payload.toJson
  simp only [Payload.toJson, PyValue.ofJson] at hdumps
  rw [computePayloadByteSizeOf, computePayloadByteSize, hdumps]
  rfl

/-- **When the size check does not over-count**: the size of a payload is at most that of every
text it is read off exactly if all characters of its strings and keys are ASCII below `0x7f`
or lone surrogates, and no float in it has a numeral shorter than the one `json.dumps` writes. -/
theorem size_le_every_text_iff (float : FloatReader) (payload : List (PyText × PyValue))
    (hparsed : ∃ text, Loads float text (.dict payload)) :
    (∀ text, Loads float text (.dict payload) →
      computePayloadByteSizeOf payload ≤ (utf8 text).length) ↔
    (∀ s ∈ (PyValue.dict payload).strings, ∀ c ∈ s, c.val < 0x7f ∨ c.IsSurrogate) ∧
      ∀ x ∈ (PyValue.dict payload).floats, ∀ numeral, SpellsFloat float numeral x →
        x.text.length ≤ (utf8 numeral).length := by
  obtain ⟨text₀, mark₀, t₀, -, hreads₀, rfl⟩ := hparsed
  have hfloats : ∀ x ∈ (PyValue.dict payload).floats, SpellsFloat float x.text x :=
    spellsFloat_text_of_reads hreads₀
  have htight := tight_dumps float (.dict payload) hfloats
  have hsize : computePayloadByteSizeOf payload ≤ leastBytes float (.dict payload) ↔ _ :=
    htight.le_iff
  refine Iff.trans ?_ hsize
  constructor
  · -- The payload has a text of the least size.
    intro h
    obtain ⟨t, ht, hbytes⟩ := attained_of_reads float hreads₀
    rw [← hbytes]
    exact h t ⟨[], t, Or.inl rfl, ht.unpadded, rfl⟩
  · rintro hle text ⟨mark, t, -, ht, rfl⟩
    have hleast := leastBytes_le_of_reads float ht
    have happend := byteLength_append mark t
    simp only [Parsed.leastBytes] at hleast
    unfold byteLength at happend hleast
    omega

/-! ### Two payloads -/

/-- Characters that need no escape spell themselves. -/
theorem spellsStr_raw {s : String} (h : ∀ c ∈ s.toList, 0x20 ≤ c.toNat ∧ c ≠ '"' ∧ c ≠ '\\') :
    SpellsStr ('"' :: (s.toList ++ ['"'])) (pyText s) := by
  refine ⟨s.toList, PyStr.ofString s, ?_, rfl, rfl⟩
  unfold PyStr.ofString PyStr.ofChars
  simp only
  generalize s.toList = cs at h
  induction cs with
  | nil => exact ReadsUnits.nil
  | cons c cs ih =>
    obtain ⟨hcontrol, hquote, hslash⟩ := h c List.mem_cons_self
    exact ReadsUnits.raw hcontrol hquote hslash (ih fun d hd => h d (List.mem_cons_of_mem _ hd))

theorem length_le_of_floatNumeral {t : List Char} (h : FloatNumeral t) : 3 ≤ t.length := by
  obtain ⟨negative, ds, fraction, exponent, ⟨⟨hds, -⟩, -⟩, hfraction, hexponent, hmarked, rfl⟩ := h
  have hwhole := List.length_pos_iff.mpr hds
  simp only [List.length_append]
  rcases hfraction with rfl | ⟨fs, ⟨hfs, -⟩, rfl⟩
  · rcases hexponent with rfl | ⟨e, sign, es, -, -, ⟨hes, -⟩, rfl⟩
    · exact absurd ⟨rfl, rfl⟩ hmarked
    · have hexp := List.length_pos_iff.mpr hes
      simp only [List.length_cons, List.length_append]
      omega
  · have hfrac := List.length_pos_iff.mpr hfs
    simp only [List.length_cons]
    omega

/-- Reads `0.5`. -/
def halfReader : FloatReader where
  read t := if t = "0.5".toList then .finite half else .nonFinite .infinity
  read_repr t x h := by
    have hrepr : half.repr = "0.5".toList := by decide
    split at h
    · obtain rfl : half = x := by simpa using h
      rw [if_pos hrepr]
    · cases h

/-- `{"k":0.5}`. -/
theorem size_le_every_text_iff_half :
    (∃ text, Loads halfReader text (.dict [(pyText "k", .float half)])) ∧
      ∀ text, Loads halfReader text (.dict [(pyText "k", .float half)]) →
        computePayloadByteSizeOf [(pyText "k", .float half)] ≤ (utf8 text).length := by
  have hnumeral : SpellsFloat halfReader half.repr (.finite half) :=
    Or.inl ⟨floatNumeral_repr half, by decide⟩
  have hkey : SpellsStr _ (pyText "k") := spellsStr_raw (by simp)
  have hmember := Reads.member whitespace_nil whitespace_nil hkey (Reads.float hnumeral).unpadded
  have hparsed : ∃ text, Loads halfReader text (.dict [(pyText "k", .float half)]) :=
    ⟨_, [], _, Or.inl rfl, (Reads.dict (Reads.lastMember hmember)).unpadded, rfl⟩
  refine ⟨hparsed, (size_le_every_text_iff halfReader _ hparsed).mpr ⟨?_, ?_⟩⟩
  · simp [PyValue.strings, PyValue.stringsMembers, pyText, PyStr.ofString, PyStr.ofChars,
      CodePoint.ofChar]
  · intro x hx numeral hspells
    obtain rfl : x = .finite half := by
      simpa [PyValue.floats, PyValue.floatsMembers] using hx
    have hthree : (FloatValue.finite half).text.length = 3 := by decide
    rcases hspells with ⟨hfloat, -⟩ | ⟨y, hy, -⟩
    · have hlength := length_le_of_floatNumeral hfloat
      have hbytes := length_le_byteLength numeral
      unfold byteLength at hbytes
      omega
    · cases hy

/-- `{"k":"é"}` has ten bytes; its payload is measured as fourteen. -/
theorem raw_character_overcounted :
    Loads halfReader "\x7b\"k\":\"é\"\x7d".toList (.dict [(pyText "k", .str (pyText "é"))]) ∧
      (utf8 "\x7b\"k\":\"é\"\x7d".toList).length = 10 ∧
      computePayloadByteSizeOf [(pyText "k", .str (pyText "é"))] = 14 := by
  have hkey : SpellsStr _ (pyText "k") := spellsStr_raw (by simp)
  have hvalue : SpellsStr _ (pyText "é") := spellsStr_raw (by simp)
  have hread : Reads halfReader _ (.value (.str (pyText "é"))) := Reads.str hvalue
  have hmember := Reads.member whitespace_nil whitespace_nil hkey hread.unpadded
  refine ⟨⟨[], _, Or.inl rfl, (Reads.dict (Reads.lastMember hmember)).unpadded, ?_⟩, ?_, ?_⟩
  · decide
  · decide
  · decide +kernel

end AuditLog
