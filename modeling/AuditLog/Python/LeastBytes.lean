import AuditLog.Python.Spelling
import Mathlib.Order.Lattice.Nat

/-!
# The fewest bytes that spell a value

For every value that `json.loads` can return there is a shortest text it is read
off: shortest literals and numerals, no whitespace and no repeated key. `leastBytes`
counts the bytes of that text: no text has fewer (`leastBytes_le_of_reads`), one has
as many (`attained_of_reads`), and `tight_dumps` says when `json.dumps` writes one.
-/

namespace AuditLog

open Decoding

/-! ## Values -/

section Values

variable (float : FloatReader)

/-- The fewest bytes for a float: those of a shortest numeral it is read off. -/
noncomputable def floatBytes (x : FloatValue) : Nat :=
  sInf {n | ∃ t, SpellsFloat float t x ∧ byteLength t = n}

theorem floatBytes_le {t : List Char} {x : FloatValue} (h : SpellsFloat float t x) :
    floatBytes float x ≤ byteLength t :=
  Nat.sInf_le ⟨t, h, rfl⟩

/-- A float that is spelled at all has a shortest numeral. -/
theorem exists_spellsFloat {t : List Char} {x : FloatValue} (h : SpellsFloat float t x) :
    ∃ t', SpellsFloat float t' x ∧ byteLength t' = floatBytes float x :=
  Nat.sInf_mem (s := {n | ∃ t, SpellsFloat float t x ∧ byteLength t = n}) ⟨_, t, h, rfl⟩

mutual
/-- The bytes of the shortest text for a value. -/
noncomputable def leastBytes : PyValue → Nat
  | .null => 4
  | .bool true => 4
  | .bool false => 5
  | .int n => (intText n).length
  | .float x => floatBytes float (.finite x)
  | .nonFinite x => floatBytes float (.nonFinite x)
  | .str s => strBytes s
  | .list xs => 2 + joinBytes (leastBytesList xs)
  | .tuple xs => 2 + joinBytes (leastBytesList xs)
  | .dict kvs => 2 + joinBytes (leastBytesMembers kvs)
  | .other s => strBytes s

noncomputable def leastBytesList : List PyValue → List Nat
  | [] => []
  | x :: xs => leastBytes x :: leastBytesList xs

noncomputable def leastBytesMembers : List (PyText × PyValue) → List Nat
  | [] => []
  | (k, v) :: kvs => (strBytes k + 1 + leastBytes v) :: leastBytesMembers kvs
end

/-- A member is its key, a colon and its value. -/
noncomputable def memberBytes (e : PyText × PyValue) : Nat := strBytes e.1 + 1 + leastBytes float e.2

theorem leastBytesList_eq (xs : List PyValue) :
    leastBytesList float xs = xs.map (leastBytes float) := by
  induction xs with
  | nil => simp [leastBytesList]
  | cons x xs ih => simp [leastBytesList, ih]

theorem leastBytesMembers_eq (kvs : List (PyText × PyValue)) :
    leastBytesMembers float kvs = kvs.map (memberBytes float) := by
  induction kvs with
  | nil => simp [leastBytesMembers]
  | cons e kvs ih =>
    rcases e with ⟨k, v⟩
    simp [leastBytesMembers, memberBytes, ih]

theorem leastBytes_toValue (x : FloatValue) : leastBytes float x.toValue = floatBytes float x := by
  cases x <;> simp [FloatValue.toValue, leastBytes]

namespace Parsed

noncomputable def leastBytes : Parsed → Nat
  | .value v => AuditLog.leastBytes float v
  | .padded v => AuditLog.leastBytes float v
  | .elements xs => joinBytes (xs.map (AuditLog.leastBytes float))
  | .member e => memberBytes float e
  | .members kvs => joinBytes (kvs.map (memberBytes float))

end Parsed

/-- The two bytes of a pair of brackets. -/
theorem byteLength_bracketed {a b : Char} (ha : a.utf8Size = 1) (hb : b.utf8Size = 1)
    (t : List Char) : byteLength (a :: (t ++ [b])) = 2 + byteLength t := by
  simp only [byteLength_cons, byteLength_append, byteLength_nil, ha, hb]
  omega

/-- The byte of a comma. -/
theorem byteLength_comma (t u : List Char) :
    byteLength (t ++ ',' :: u) = byteLength t + 1 + byteLength u := by
  have hcomma : (',').utf8Size = 1 := by decide
  simp only [byteLength_append, byteLength_cons, hcomma]
  omega

/-- Repeated keys only make a text longer. -/
theorem joinBytes_update_le (f : PyText × PyValue → Nat) (kvs : List (PyText × PyValue)) :
    joinBytes ((Dict.update [] kvs).map f) ≤ joinBytes (kvs.map f) := by
  have hsum := Dict.sum_map_update_le f [] kvs
  have hlength := Dict.length_update_le [] kvs
  simp only [joinBytes, List.length_map, List.map_nil, List.sum_nil, List.length_nil] at *
  omega

/-- **No text of a value is shorter than `leastBytes`.** -/
theorem leastBytes_le_of_reads {t : List Char} {p : Parsed} (h : Reads float t p) :
    p.leastBytes float ≤ byteLength t := by
  induction h with
  | null =>
    simp only [Parsed.leastBytes, leastBytes]
    exact length_le_byteLength "null".toList
  | yes =>
    simp only [Parsed.leastBytes, leastBytes]
    exact length_le_byteLength "true".toList
  | no =>
    simp only [Parsed.leastBytes, leastBytes]
    exact length_le_byteLength "false".toList
  | int h =>
    simp only [Parsed.leastBytes, leastBytes]
    exact intText_le h
  | float h =>
    simp only [Parsed.leastBytes, leastBytes_toValue]
    exact floatBytes_le float h
  | str h =>
    simp only [Parsed.leastBytes, leastBytes]
    exact strBytes_le h
  | emptyList =>
    rw [byteLength_bracketed (by decide) (by decide)]
    simp [Parsed.leastBytes, leastBytes, leastBytesList, joinBytes]
  | list _ ih =>
    rw [byteLength_bracketed (by decide) (by decide)]
    simp only [Parsed.leastBytes, leastBytes, leastBytesList_eq] at ih ⊢
    omega
  | emptyDict =>
    rw [byteLength_bracketed (by decide) (by decide)]
    simp [Parsed.leastBytes, leastBytes, leastBytesMembers, joinBytes]
  | dict _ ih =>
    rename_i t kvs _
    rw [byteLength_bracketed (by decide) (by decide)]
    -- The text has all members, the dict that is read off it the last one of each key.
    have hle := joinBytes_update_le (memberBytes float) kvs
    simp only [Parsed.leastBytes, leastBytes, leastBytesMembers_eq] at ih ⊢
    omega
  -- Whitespace only adds bytes.
  | padded _ _ _ ih =>
    simp only [byteLength_append]
    exact Nat.le_trans ih (by omega)
  | element _ ih => simpa [Parsed.leastBytes, joinBytes] using ih
  | elements _ hs ih ihs =>
    rw [byteLength_comma]
    simp only [Parsed.leastBytes, List.map_cons] at ih ihs ⊢
    rw [joinBytes_cons _ (List.map_eq_nil_iff.not.mpr hs.elements_ne_nil)]
    omega
  | member _ _ hk _ ih =>
    have hkey := strBytes_le hk
    have hcolon : (':').utf8Size = 1 := by decide
    simp only [Parsed.leastBytes, memberBytes, byteLength_append, byteLength_cons, hcolon] at ih ⊢
    omega
  | lastMember _ ih => simpa [Parsed.leastBytes, joinBytes] using ih
  | members _ hs ih ihs =>
    rw [byteLength_comma]
    simp only [Parsed.leastBytes, List.map_cons] at ih ihs ⊢
    rw [joinBytes_cons _ (List.map_eq_nil_iff.not.mpr hs.members_ne_nil)]
    omega

/-! ### A shortest text -/

/-- Something is read as `p` off a text of the least length. Of the members of an object, each
one is: some may be overwritten. -/
def Parsed.Attained : Parsed → Prop
  | .value v => ∃ t, Reads float t (.value v) ∧ byteLength t = AuditLog.leastBytes float v
  | .padded v => ∃ t, Reads float t (.value v) ∧ byteLength t = AuditLog.leastBytes float v
  | .elements xs => ∃ t, Reads float t (.elements xs) ∧
      byteLength t = joinBytes (xs.map (AuditLog.leastBytes float))
  | .member e => ∃ t, Reads float t (.member e) ∧ byteLength t = memberBytes float e
  | .members kvs => kvs ≠ [] ∧
      ∀ e ∈ kvs, ∃ t, Reads float t (.member e) ∧ byteLength t = memberBytes float e

variable {float} in
theorem Reads.unpadded {t : List Char} {v : PyValue} (h : Reads float t (.value v)) :
    Reads float t (.padded v) := by
  simpa using Reads.padded whitespace_nil whitespace_nil h

/-- Shortest members make a shortest object. -/
theorem exists_members {kvs : List (PyText × PyValue)} (hne : kvs ≠ [])
    (h : ∀ e ∈ kvs, ∃ t, Reads float t (.member e) ∧ byteLength t = memberBytes float e) :
    ∃ t, Reads float t (.members kvs) ∧ byteLength t = joinBytes (kvs.map (memberBytes float)) := by
  induction kvs with
  | nil => exact absurd rfl hne
  | cons e kvs ih =>
    obtain ⟨t, ht, hbytes⟩ := h e List.mem_cons_self
    by_cases hkvs : kvs = []
    · subst hkvs
      exact ⟨t, Reads.lastMember ht, by simp [hbytes, joinBytes]⟩
    · obtain ⟨u, hu, hbytes'⟩ := ih hkvs fun e' he' => h e' (List.mem_cons_of_mem _ he')
      refine ⟨_, Reads.members ht hu, ?_⟩
      rw [byteLength_comma, List.map_cons, joinBytes_cons _ (by simpa using hkvs), hbytes, hbytes']

/-- **Every value that is read off some text is read off one of `leastBytes` bytes.** -/
theorem attained_of_reads {t : List Char} {p : Parsed} (h : Reads float t p) : p.Attained float := by
  induction h with
  | null => exact ⟨_, Reads.null, by simp [leastBytes, byteLength_ascii]⟩
  | yes => exact ⟨_, Reads.yes, by simp [leastBytes, byteLength_ascii]⟩
  | no => exact ⟨_, Reads.no, by simp [leastBytes, byteLength_ascii]⟩
  | int h =>
    rename_i n
    refine ⟨_, Reads.int (spellsInt_intText n), ?_⟩
    simp only [leastBytes]
    exact byteLength_ascii fun c hc => numberChar_ascii (Json.intText_numberChar hc)
  | float h =>
    obtain ⟨t', ht', hbytes⟩ := exists_spellsFloat float h
    exact ⟨t', Reads.float ht', by rw [leastBytes_toValue, hbytes]⟩
  | str h =>
    obtain ⟨t', ht', hbytes⟩ := exists_spellsStr h
    exact ⟨t', Reads.str ht', by simp only [leastBytes, hbytes]⟩
  | emptyList =>
    refine ⟨_, Reads.emptyList whitespace_nil, ?_⟩
    rw [byteLength_bracketed (by decide) (by decide)]
    simp [leastBytes, leastBytesList, joinBytes]
  | list _ ih =>
    obtain ⟨t', ht', hbytes⟩ := ih
    refine ⟨_, Reads.list ht', ?_⟩
    rw [byteLength_bracketed (by decide) (by decide), hbytes]
    simp only [leastBytes, leastBytesList_eq]
  | emptyDict =>
    refine ⟨_, Reads.emptyDict whitespace_nil, ?_⟩
    rw [byteLength_bracketed (by decide) (by decide)]
    simp [leastBytes, leastBytesMembers, joinBytes]
  | dict _ ih =>
    -- The members that are left, in the dict's own order and without repeated keys.
    rename_i t kvs _
    obtain ⟨hne, hmembers⟩ := ih
    have hupdated : Dict.update [] kvs ≠ [] := by
      cases kvs with
      | nil => exact absurd rfl hne
      | cons e kvs => exact Dict.update_ne_nil e kvs
    obtain ⟨t', ht', hbytes⟩ := exists_members float hupdated fun e he => by
      rcases Dict.mem_of_mem_update he with he | he
      · exact absurd he List.not_mem_nil
      · exact hmembers e he
    have hagain : Dict.update [] (Dict.update [] kvs) = Dict.update [] kvs :=
      Dict.update_of_notMem (Dict.nodup_keys_update List.nodup_nil) fun _ _ => List.not_mem_nil
    refine ⟨_, hagain ▸ Reads.dict ht', ?_⟩
    rw [byteLength_bracketed (by decide) (by decide), hbytes]
    simp only [leastBytes, leastBytesMembers_eq]
  | padded _ _ _ ih => exact ih
  | element _ ih =>
    obtain ⟨t', ht', hbytes⟩ := ih
    exact ⟨t', Reads.element ht'.unpadded, by simp [hbytes, joinBytes]⟩
  | elements _ hs ih ihs =>
    obtain ⟨t', ht', hbytes⟩ := ih
    obtain ⟨u', hu', hbytes'⟩ := ihs
    refine ⟨_, Reads.elements ht'.unpadded hu', ?_⟩
    rw [byteLength_comma, List.map_cons,
      joinBytes_cons _ (List.map_eq_nil_iff.not.mpr hs.elements_ne_nil), hbytes, hbytes']
  | member _ _ hk _ ih =>
    obtain ⟨k', hk', hkbytes⟩ := exists_spellsStr hk
    obtain ⟨t', ht', hbytes⟩ := ih
    have hcolon : (':').utf8Size = 1 := by decide
    refine ⟨_, Reads.member whitespace_nil whitespace_nil hk' ht'.unpadded, ?_⟩
    simp only [memberBytes, List.nil_append, byteLength_append, byteLength_cons, hcolon, hkbytes,
      hbytes]
    omega
  | lastMember _ ih =>
    refine ⟨List.cons_ne_nil _ _, fun e he => ?_⟩
    rw [List.mem_singleton.mp he]
    exact ih
  | members _ _ ih ihs =>
    refine ⟨List.cons_ne_nil _ _, fun e he => ?_⟩
    rcases List.mem_cons.mp he with rfl | he
    · exact ih
    · exact ihs.2 e he

end Values

/-! ## What `json.dumps` writes -/

namespace PyValue

mutual
/-- Every float in the value. -/
def floats : PyValue → List FloatValue
  | .float x => [.finite x]
  | .nonFinite x => [.nonFinite x]
  | .list xs => floatsList xs
  | .tuple xs => floatsList xs
  | .dict kvs => floatsMembers kvs
  | _ => []

def floatsList : List PyValue → List FloatValue
  | [] => []
  | x :: xs => floats x ++ floatsList xs

def floatsMembers : List (PyText × PyValue) → List FloatValue
  | [] => []
  | (_, v) :: kvs => floats v ++ floatsMembers kvs
end

/-- A float of a dict is a float of one of its values: no key is one. -/
theorem mem_floatsMembers {x : FloatValue} {kvs : List (PyText × PyValue)} :
    x ∈ floatsMembers kvs ↔ ∃ e ∈ kvs, x ∈ floats e.2 := by
  induction kvs with
  | nil => simp [floatsMembers]
  | cons e kvs ih =>
    rcases e with ⟨k, v⟩
    simp [floatsMembers, ih]

end PyValue

def Parsed.floats : Parsed → List FloatValue
  | .value v => v.floats
  | .padded v => v.floats
  | .elements xs => PyValue.floatsList xs
  | .member e => e.2.floats
  | .members kvs => PyValue.floatsMembers kvs

/-- The floats that were read are read off their own text as well. -/
theorem spellsFloat_text_of_reads {float : FloatReader} {t : List Char} {p : Parsed}
    (h : Reads float t p) : ∀ x ∈ p.floats, SpellsFloat float x.text x := by
  induction h with
  | float h =>
    rename_i t x
    intro y hy
    obtain rfl : y = x := by cases x <;> simpa [Parsed.floats, FloatValue.toValue,
      PyValue.floats] using hy
    cases y with
    | finite y =>
      -- A finite float reads back from its own `repr`, whatever numeral it came from.
      rcases h with ⟨-, hread⟩ | ⟨z, hz, -⟩
      · exact Or.inl ⟨floatNumeral_repr y, float.read_repr t y hread⟩
      · cases hz
    | nonFinite y => exact Or.inr ⟨y, rfl, rfl⟩
  | list _ ih => exact ih
  | dict _ ih =>
    intro x hx
    obtain ⟨e, he, hxe⟩ := PyValue.mem_floatsMembers.mp hx
    rcases Dict.mem_of_mem_update he with he | he
    · exact absurd he List.not_mem_nil
    · exact ih x (PyValue.mem_floatsMembers.mpr ⟨e, he, hxe⟩)
  | padded _ _ _ ih => exact ih
  | element _ ih => simpa [Parsed.floats, PyValue.floatsList] using ih
  | elements _ _ ih ihs =>
    intro x hx
    exact (List.mem_append.mp hx).elim (ih x) (ihs x)
  | member _ _ _ _ ih => exact ih
  | lastMember _ ih => simpa [Parsed.floats, PyValue.floatsMembers] using ih
  | members _ _ ih ihs =>
    intro x hx
    exact (List.mem_append.mp hx).elim (ih x) (ihs x)
  | _ =>
    intro x hx
    simp [Parsed.floats, PyValue.floats, PyValue.floatsList, PyValue.floatsMembers] at hx

/-- What is written is no shorter than the least, and as short exactly if `P` holds. -/
structure Tight (written least : Nat) (P : Prop) : Prop where
  least_le : least ≤ written
  le_iff : written ≤ least ↔ P

namespace Tight

variable {m n l k : Nat} {P Q : Prop}

/-- What can be written in one way is as short as can be. -/
theorem const (n : Nat) : Tight n n True := ⟨Nat.le_refl n, by simp⟩

/-- Parts that are written side by side. -/
theorem add (h : Tight m l P) (h' : Tight n k Q) : Tight (m + n) (l + k) (P ∧ Q) := by
  obtain ⟨hle, hiff⟩ := h
  obtain ⟨hle', hiff'⟩ := h'
  refine ⟨by omega, ?_⟩
  rw [← hiff, ← hiff']
  omega

theorem congr (h : Tight m l P) (hPQ : P ↔ Q) : Tight m l Q := ⟨h.least_le, h.le_iff.trans hPQ⟩

end Tight

/-- An escape is ASCII, so that its bytes are its characters. -/
theorem escaped_ascii {c : CodePoint} : ∀ ch ∈ escaped c, ch.toNat < 0x80 := by
  have htable : ∀ f ∈ shortEscapes, f.2.toNat < 0x80 := by decide
  intro ch hch
  obtain ⟨u, -, hch⟩ := List.mem_flatMap.mp hch
  unfold escapeUnit at hch
  cases hshort : shortEscape u with
  | some e =>
    simp only [hshort, List.mem_cons, List.not_mem_nil, or_false] at hch
    rcases hch with rfl | rfl
    · decide
    · exact htable _ (Dict.mem_of_get hshort)
  | none =>
    simp only [hshort] at hch
    split at hch
    -- Neither a short escape nor printable: a backslash, a `u` and four digits.
    · rename_i hp
      rw [List.mem_singleton.mp hch, printable_toNat hp]
      omega
    · rcases List.mem_cons.mp hch with rfl | hch
      · decide
      · rcases List.mem_cons.mp hch with rfl | hch
        · decide
        · exact hex4_ascii hch

/-- A string is written short exactly if each of its characters is. -/
theorem tight_literal (s : PyText) :
    Tight (byteLength (literal s)) (strBytes s) (∀ c ∈ s, PlainChar c) := by
  have hbody : Tight (byteLength (literalBody s)) (s.map charBytes).sum (∀ c ∈ s, PlainChar c) := by
    induction s with
    | nil => exact (Tight.const 0).congr (by simp)
    | cons c s ih =>
      have hchar : Tight (byteLength (escaped c)) (charBytes c) (PlainChar c) := by
        rw [byteLength_ascii escaped_ascii]
        exact ⟨(charBytes_escaped c).1, (charBytes_escaped c).2⟩
      have hcons : literalBody (c :: s) = escaped c ++ literalBody s := by
        simp [literalBody, escaped]
      rw [hcons, byteLength_append, List.map_cons, List.sum_cons]
      exact (hchar.add ih).congr (by simp)
  rw [literal, byteLength_quoted, strBytes]
  exact ((Tight.const 2).add hbody).congr (by simp)

section Dumps

variable (float : FloatReader)

/-- No numeral of the float is shorter than what is written. -/
def ShortestText (x : FloatValue) : Prop := ∀ t, SpellsFloat float t x → x.text.length ≤ byteLength t

/-- Nothing in the value has a shorter spelling than `json.dumps` gives it. -/
def WrittenShort (ss : List PyText) (xs : List FloatValue) : Prop :=
  (∀ s ∈ ss, ∀ c ∈ s, PlainChar c) ∧ ∀ x ∈ xs, ShortestText float x

/-- Two parts have no shorter spelling exactly if neither has one. -/
theorem writtenShort_append (ss ss' : List PyText) (xs xs' : List FloatValue) :
    WrittenShort float (ss ++ ss') (xs ++ xs') ↔ WrittenShort float ss xs ∧ WrittenShort float ss' xs' := by
  unfold WrittenShort
  simp only [List.forall_mem_append]
  tauto

/-- The text of a float is ASCII, that of an infinity included. -/
theorem floatText_ascii (x : FloatValue) : byteLength x.text = x.text.length := by
  cases x with
  | finite x => exact byteLength_ascii fun c hc => numberChar_ascii (PyFloat.repr_chars hc)
  | nonFinite x => cases x <;> decide

/-- A float is written short exactly if `float.__repr__` gives a shortest numeral. -/
theorem tight_float {x : FloatValue} (h : SpellsFloat float x.text x) :
    Tight (byteLength x.text) (floatBytes float x) (ShortestText float x) := by
  refine ⟨floatBytes_le float h, ?_⟩
  obtain ⟨t', ht', hbytes⟩ := exists_spellsFloat float h
  rw [floatText_ascii]
  constructor
  · intro hle t ht
    exact Nat.le_trans hle (floatBytes_le float ht)
  · intro hshort
    rw [← hbytes]
    exact hshort t' ht'

/-- Brackets and separators are the same in every text of the list. -/
theorem tight_separated {sep close : Char} (hsep : sep.utf8Size = 1) (hclose : close.utf8Size = 1)
    {ts : List (List Char)} {ns : List Nat} {P : Prop} (hlength : ts.length = ns.length)
    (h : Tight (ts.map byteLength).sum ns.sum P) :
    Tight (1 + byteLength (separated id sep close ts)) (2 + joinBytes ns) P := by
  obtain ⟨hle, hiff⟩ := h
  rw [byteLength_separated hsep hclose]
  simp only [joinBytes, List.length_map, hlength]
  exact ⟨by omega, by rw [← hiff]; omega⟩

mutual
/-- **What `json.dumps` writes is as short as can be exactly if nothing in the value has a
shorter spelling.** -/
theorem tight_dumps : ∀ v : PyValue, (∀ x ∈ v.floats, SpellsFloat float x.text x) →
    Tight (byteLength v.dumps) (leastBytes float v) (WrittenShort float v.strings v.floats)
  | .null, _ => by
    simp only [leastBytes, PyValue.strings, PyValue.floats]
    exact (Tight.const 4).congr (by simp [WrittenShort])
  | .bool true, _ => by
    simp only [leastBytes, PyValue.strings, PyValue.floats]
    exact (Tight.const 4).congr (by simp [WrittenShort])
  | .bool false, _ => by
    simp only [leastBytes, PyValue.strings, PyValue.floats]
    exact (Tight.const 5).congr (by simp [WrittenShort])
  | .int n, _ => by
    simp only [leastBytes, PyValue.strings, PyValue.floats, PyValue.dumps]
    rw [byteLength_ascii fun c hc => numberChar_ascii (Json.intText_numberChar hc)]
    exact (Tight.const _).congr (by simp [WrittenShort])
  | .float x, h => by
    simp only [leastBytes, PyValue.strings, PyValue.floats, PyValue.dumps] at h ⊢
    exact (tight_float float (h _ List.mem_cons_self)).congr (by simp [WrittenShort])
  | .nonFinite x, h => by
    simp only [leastBytes, PyValue.strings, PyValue.floats, PyValue.dumps] at h ⊢
    exact (tight_float float (h _ List.mem_cons_self)).congr (by simp [WrittenShort])
  | .str s, _ => by
    simp only [leastBytes, PyValue.strings, PyValue.floats, PyValue.dumps]
    exact (tight_literal s).congr (by simp [WrittenShort])
  | .other s, _ => by
    simp only [leastBytes, PyValue.strings, PyValue.floats, PyValue.dumps]
    exact (tight_literal s).congr (by simp [WrittenShort])
  | .list xs, h => by
    simp only [leastBytes, PyValue.strings, PyValue.floats, PyValue.dumps, byteLength_cons] at h ⊢
    obtain ⟨hlength, htight⟩ := tight_dumpsList xs h
    exact tight_separated (by decide) (by decide) hlength htight
  | .tuple xs, h => by
    simp only [leastBytes, PyValue.strings, PyValue.floats, PyValue.dumps, byteLength_cons] at h ⊢
    obtain ⟨hlength, htight⟩ := tight_dumpsList xs h
    exact tight_separated (by decide) (by decide) hlength htight
  | .dict kvs, h => by
    simp only [leastBytes, PyValue.strings, PyValue.floats, PyValue.dumps, byteLength_cons] at h ⊢
    obtain ⟨hlength, htight⟩ := tight_dumpsMembers kvs h
    exact tight_separated (by decide) (by decide) hlength htight

/-- Its items, one by one. -/
theorem tight_dumpsList : ∀ xs : List PyValue,
    (∀ x ∈ PyValue.floatsList xs, SpellsFloat float x.text x) →
    (PyValue.dumpsList xs).length = (leastBytesList float xs).length ∧
      Tight ((PyValue.dumpsList xs).map byteLength).sum (leastBytesList float xs).sum
        (WrittenShort float (PyValue.stringsList xs) (PyValue.floatsList xs))
  | [], _ => by
    simp only [PyValue.dumpsList, leastBytesList, PyValue.stringsList, PyValue.floatsList]
    exact ⟨rfl, (Tight.const 0).congr (by simp [WrittenShort])⟩
  | x :: xs, h => by
    simp only [PyValue.floatsList, List.forall_mem_append] at h
    obtain ⟨hlength, htight⟩ := tight_dumpsList xs h.2
    have hx := tight_dumps x h.1
    simp only [PyValue.dumpsList, leastBytesList, PyValue.stringsList, PyValue.floatsList,
      List.length_cons, List.map_cons, List.sum_cons, hlength, true_and]
    exact (hx.add htight).congr (writtenShort_append float _ _ _ _).symm

/-- Its members, each one with the colon after its key. -/
theorem tight_dumpsMembers : ∀ kvs : List (PyText × PyValue),
    (∀ x ∈ PyValue.floatsMembers kvs, SpellsFloat float x.text x) →
    (PyValue.dumpsMembers kvs).length = (leastBytesMembers float kvs).length ∧
      Tight ((PyValue.dumpsMembers kvs).map byteLength).sum (leastBytesMembers float kvs).sum
        (WrittenShort float (PyValue.stringsMembers kvs) (PyValue.floatsMembers kvs))
  | [], _ => by
    simp only [PyValue.dumpsMembers, leastBytesMembers, PyValue.stringsMembers,
      PyValue.floatsMembers]
    exact ⟨rfl, (Tight.const 0).congr (by simp [WrittenShort])⟩
  | (k, v) :: kvs, h => by
    simp only [PyValue.floatsMembers, List.forall_mem_append] at h
    obtain ⟨hlength, htight⟩ := tight_dumpsMembers kvs h.2
    have hk : Tight (byteLength (literal k)) (strBytes k) (WrittenShort float [k] []) :=
      (tight_literal k).congr (by simp [WrittenShort])
    have hmember : Tight (byteLength (literal k ++ ':' :: v.dumps))
        (strBytes k + 1 + leastBytes float v)
        (WrittenShort float ([k] ++ v.strings) ([] ++ v.floats)) := by
      have hcolon : (':').utf8Size = 1 := by decide
      rw [byteLength_append, byteLength_cons, hcolon, ← Nat.add_assoc]
      -- The colon is there in every text, so it decides nothing.
      refine ((hk.add (Tight.const 1)).add (tight_dumps v h.1)).congr ?_
      rw [writtenShort_append, and_true]
    simp only [PyValue.dumpsMembers, leastBytesMembers, List.length_cons, List.map_cons,
      List.sum_cons, hlength, true_and]
    refine (hmember.add htight).congr ?_
    rw [← writtenShort_append]
    simp [PyValue.stringsMembers, PyValue.floatsMembers]
end

end Dumps

end AuditLog
