import AuditLog.Python.LeastBytes
import AuditLog.Python.LoadsUnique
import Mathlib.Data.Bool.AllAny

/-!
# `json.loads(json.dumps(value, default=str))`

What `json.dumps` writes is read as one value: the one that was written, with tuples as
lists, other objects as their `str`, escaped surrogate pairs joined, and keys that have
become the same overwritten.
-/

namespace AuditLog

open Decoding

/-! ## Joined pairs -/

/-- The character that a surrogate pair stands for. -/
def joinPair (high low : CodePoint) (h : high.IsHighSurrogate ∧ low.IsLowSurrogate) : CodePoint :=
  ⟨0x10000 + (high.val - 0xd800) * 0x400 + (low.val - 0xdc00), by
    unfold CodePoint.IsHighSurrogate CodePoint.IsLowSurrogate at h
    omega⟩

/-- The text with every high surrogate that a low one follows joined with it. -/
def joinPairs : PyText → PyText
  | [] => []
  | [c] => [c]
  | c :: d :: cs =>
    if h : c.IsHighSurrogate ∧ d.IsLowSurrogate then joinPair c d h :: joinPairs cs
    else c :: joinPairs (d :: cs)

theorem joinPairs_pair {c d : CodePoint} (h : c.IsHighSurrogate ∧ d.IsLowSurrogate) (cs : PyText) :
    joinPairs (c :: d :: cs) = joinPair c d h :: joinPairs cs := by
  rw [joinPairs, dif_pos h]

theorem joinPairs_cons {c d : CodePoint} (h : ¬ (c.IsHighSurrogate ∧ d.IsLowSurrogate))
    (cs : PyText) : joinPairs (c :: d :: cs) = c :: joinPairs (d :: cs) := by
  rw [joinPairs, dif_neg h]

/-- A joined pair has the code units of its halves. -/
theorem utf16_joinPair {high low : CodePoint} (h : high.IsHighSurrogate ∧ low.IsLowSurrogate) :
    utf16 (joinPair high low h) = utf16 high ++ utf16 low := by
  have hpair := h
  unfold CodePoint.IsHighSurrogate CodePoint.IsLowSurrogate at hpair
  have hbmp : ¬ (joinPair high low h).val < 0x10000 := by
    show ¬ 0x10000 + (high.val - 0xd800) * 0x400 + (low.val - 0xdc00) < 0x10000
    omega
  rw [utf16_of_lt (c := high) (by omega), utf16_of_lt (c := low) (by omega), utf16, dif_neg hbmp]
  simp only [List.cons_append, List.nil_append, List.cons.injEq, Fin.mk.injEq, and_true]
  show 0xd800 + (0x10000 + (high.val - 0xd800) * 0x400 + (low.val - 0xdc00) - 0x10000) / 0x400 = _ ∧
    0xdc00 + (0x10000 + (high.val - 0xd800) * 0x400 + (low.val - 0xdc00) - 0x10000) % 0x400 = _
  omega

/-- Joining changes nothing about the code units. -/
theorem flatMap_utf16_joinPairs (s : PyText) : (joinPairs s).flatMap utf16 = s.flatMap utf16 := by
  induction s using joinPairs.induct with
  | case1 => rfl
  | case2 c => rfl
  | case3 c d cs h ih =>
    rw [joinPairs_pair h, List.flatMap_cons, utf16_joinPair, ih, List.flatMap_cons,
      List.flatMap_cons, List.append_assoc]
  | case4 c d cs h ih =>
    rw [joinPairs_cons h, List.flatMap_cons, ih, ← List.flatMap_cons]

/-- A joined pair is a character beyond the first plane. -/
theorem joinPair_astral {high low : CodePoint} (h : high.IsHighSurrogate ∧ low.IsLowSurrogate) :
    0x10000 ≤ (joinPair high low h).val := by
  show 0x10000 ≤ 0x10000 + (high.val - 0xd800) * 0x400 + (low.val - 0xdc00)
  omega

/-- A joined pair is no surrogate. -/
theorem joinPair_not_surrogate {high low : CodePoint}
    (h : high.IsHighSurrogate ∧ low.IsLowSurrogate) : ¬ (joinPair high low h).IsSurrogate := by
  have hval := joinPair_astral h
  unfold CodePoint.IsSurrogate CodePoint.IsHighSurrogate CodePoint.IsLowSurrogate
  omega

/-- A low surrogate at the beginning was there before. -/
theorem head?_joinPairs (s : PyText) :
    ∀ c ∈ (joinPairs s).head?, c.IsLowSurrogate → s.head? = some c := by
  intro c hc hlow
  cases s using joinPairs.induct with
  | case1 => cases hc
  | case2 d => exact hc
  | case3 d e cs h =>
    rw [joinPairs_pair h, List.head?_cons, Option.mem_some_iff] at hc
    exact absurd (Or.inr (hc ▸ hlow)) (joinPair_not_surrogate h)
  | case4 d e cs h =>
    rw [joinPairs_cons h] at hc
    exact hc

/-- Nothing is left to join. -/
theorem isChain_joinPairs (s : PyText) : (joinPairs s).IsChain Unsplit := by
  induction s using joinPairs.induct with
  | case1 => exact List.IsChain.nil
  | case2 c => exact List.IsChain.singleton c
  | case3 c d cs h ih =>
    rw [joinPairs_pair h]
    exact isChain_unsplit_cons (fun hhigh => joinPair_not_surrogate h (Or.inl hhigh)) ih
  | case4 c d cs h ih =>
    rw [joinPairs_cons h]
    refine List.isChain_cons.mpr ⟨fun e he hpair => h ⟨hpair.1, ?_⟩, ih⟩
    have hsame := head?_joinPairs (d :: cs) e he hpair.2
    rw [List.head?_cons, Option.some.injEq] at hsame
    exact hsame ▸ hpair.2

/-! ### What joining brings in

A text without characters beyond the first plane is in a joined text only if it was there
before, and one without surrogates is still there if it was.
-/

/-- A text of the first plane that begins a joined text began it before. -/
theorem prefix_of_joinPairs {t : PyText} (ht : ∀ c ∈ t, c.val < 0x10000) {s : PyText} :
    t <+: joinPairs s → t <+: s := by
  induction s using joinPairs.induct generalizing t with
  | case1 => exact id
  | case2 c => exact id
  | case3 c d cs h _ =>
    rw [joinPairs_pair h, List.prefix_cons_iff]
    rintro (rfl | ⟨t, rfl, -⟩)
    · exact List.nil_prefix
    · have hbmp := ht _ List.mem_cons_self
      have hastral := joinPair_astral h
      omega
  | case4 c d cs h ih =>
    rw [joinPairs_cons h, List.prefix_cons_iff]
    rintro (rfl | ⟨t, rfl, hprefix⟩)
    · exact List.nil_prefix
    · exact List.cons_prefix_cons.mpr ⟨rfl, ih (fun e he => ht e (List.mem_cons_of_mem _ he)) hprefix⟩

/-- A text of the first plane that is in a joined text was in it before. -/
theorem infix_of_joinPairs {t : PyText} (ht : ∀ c ∈ t, c.val < 0x10000) {s : PyText}
    (h : t <:+: joinPairs s) : t <:+: s := by
  induction s using joinPairs.induct with
  | case1 => exact h
  | case2 c => exact h
  | case3 c d cs hpair ih =>
    rw [joinPairs_pair hpair] at h
    rcases List.infix_cons_iff.mp h with hprefix | hinfix
    · rw [← joinPairs_pair hpair] at hprefix
      exact (prefix_of_joinPairs ht hprefix).isInfix
    · exact List.infix_cons (List.infix_cons (ih hinfix))
  | case4 c d cs hpair ih =>
    rw [joinPairs_cons hpair] at h
    rcases List.infix_cons_iff.mp h with hprefix | hinfix
    · rw [← joinPairs_cons hpair] at hprefix
      exact (prefix_of_joinPairs ht hprefix).isInfix
    · exact List.infix_cons (ih hinfix)

/-- A text without surrogates that begins a text still begins the joined one. -/
theorem prefix_joinPairs {t : PyText} (ht : ∀ c ∈ t, ¬ c.IsSurrogate) {s : PyText} :
    t <+: s → t <+: joinPairs s := by
  induction s using joinPairs.induct generalizing t with
  | case1 => exact id
  | case2 c => exact id
  | case3 c d cs h _ =>
    rw [List.prefix_cons_iff]
    rintro (rfl | ⟨t, rfl, -⟩)
    · exact List.nil_prefix
    · exact absurd (Or.inl h.1) (ht c List.mem_cons_self)
  | case4 c d cs h ih =>
    rw [joinPairs_cons h, List.prefix_cons_iff]
    rintro (rfl | ⟨t, rfl, hprefix⟩)
    · exact List.nil_prefix
    · exact List.cons_prefix_cons.mpr ⟨rfl, ih (fun e he => ht e (List.mem_cons_of_mem _ he)) hprefix⟩

/-- A text without surrogates that is in a text is still in the joined one. -/
theorem infix_joinPairs {t : PyText} (ht : ∀ c ∈ t, ¬ c.IsSurrogate) {s : PyText} :
    t <:+: s → t <:+: joinPairs s := by
  -- Nothing without surrogates begins at one, so it is behind the pair.
  have hbehind : ∀ {c : CodePoint} {cs : PyText}, c.IsSurrogate → t <:+: c :: cs → t <:+: cs := by
    intro c cs hc hinfix
    rcases List.infix_cons_iff.mp hinfix with hprefix | hinfix
    · rcases List.prefix_cons_iff.mp hprefix with rfl | ⟨t, rfl, -⟩
      · exact List.nil_infix
      · exact absurd hc (ht c List.mem_cons_self)
    · exact hinfix
  induction s using joinPairs.induct with
  | case1 => exact id
  | case2 c => exact id
  | case3 c d cs h ih =>
    intro hinfix
    rw [joinPairs_pair h]
    exact List.infix_cons (ih (hbehind (Or.inr h.2) (hbehind (Or.inl h.1) hinfix)))
  | case4 c d cs h ih =>
    intro hinfix
    rcases List.infix_cons_iff.mp hinfix with hprefix | hinfix
    · exact (prefix_joinPairs ht hprefix).isInfix
    · rw [joinPairs_cons h]
      exact List.infix_cons (ih hinfix)

/-! ## Literals -/

/-- What `json.dumps` writes of code units is read as these. -/
theorem readsUnits_escapeUnits (us : List CodeUnit) : ReadsUnits (us.flatMap escapeUnit) us := by
  induction us with
  | nil => exact ReadsUnits.nil
  | cons u us ih =>
    rw [List.flatMap_cons]
    unfold escapeUnit
    cases hshort : shortEscape u with
    | some e => exact ReadsUnits.short (List.mem_cons_of_mem _ (Dict.mem_of_get hshort)) ih
    | none =>
      simp only
      split
      -- Printable ASCII stands for itself, all else is escaped in hex.
      · rename_i hprintable
        have hvalue := printable_toNat hprintable
        have hunit : utf16 (CodePoint.ofChar (Char.ofNat u.val)) = [u] := by
          have hcode : CodePoint.ofChar (Char.ofNat u.val) = CodePoint.ofUnit u := Fin.ext hvalue
          rw [hcode, utf16_ofUnit]
        have hraw := ReadsUnits.raw (by omega) (literal_ne hshort hprintable (Or.inr rfl))
          (literal_ne hshort hprintable (Or.inl rfl)) ih
        rw [hunit] at hraw
        exact hraw
      · exact ReadsUnits.hex4 u ih

/-- A literal of `json.dumps` spells its string with the pairs joined. -/
theorem spellsStr_literal (s : PyText) : SpellsStr (literal s) (joinPairs s) := by
  refine ⟨literalBody s, ⟨joinPairs s, isChain_joinPairs s⟩, ?_, rfl, rfl⟩
  rw [flatMap_utf16_joinPairs]
  exact readsUnits_escapeUnits _

/-! ## Values -/

namespace PyValue

mutual
/-- What `json.loads` makes of the text of a value. -/
def reread : PyValue → PyValue
  | .null => .null
  | .bool b => .bool b
  | .int n => .int n
  | .float x => .float x
  | .nonFinite x => .nonFinite x
  | .str s => .str (joinPairs s)
  | .list xs => .list (rereadList xs)
  | .tuple xs => .list (rereadList xs)
  | .dict kvs => .dict (Dict.update [] (rereadMembers kvs))
  | .other s => .str (joinPairs s)

def rereadList : List PyValue → List PyValue
  | [] => []
  | x :: xs => reread x :: rereadList xs

def rereadMembers : List (PyText × PyValue) → List (PyText × PyValue)
  | [] => []
  | (k, v) :: kvs => (joinPairs k, reread v) :: rereadMembers kvs
end

variable {float : FloatReader}

/-- The text of an array, from those of its elements. -/
theorem reads_array {ts : List (List Char)} {vs : List PyValue}
    (h : List.Forall₂ (fun t v => Reads float t (.value v)) ts vs) :
    Reads float ('[' :: separated id ',' ']' ts) (.value (.list vs)) := by
  have htail : ∀ {ts : List (List Char)} {vs : List PyValue} {t : List Char} {v : PyValue},
      Reads float t (.value v) → List.Forall₂ (fun t v => Reads float t (.value v)) ts vs →
      ∃ u, t ++ separatedTail id ',' ']' ts = u ++ [']'] ∧ Reads float u (.elements (v :: vs)) := by
    intro ts vs t v ht hts
    induction hts generalizing t v with
    | nil => exact ⟨t, rfl, .element ht.unpadded⟩
    | cons hfirst _ ih =>
      obtain ⟨u, heq, hu⟩ := ih hfirst
      exact ⟨t ++ ',' :: u, by simp [separatedTail, heq], .elements ht.unpadded hu⟩
  cases h with
  | nil => exact Reads.emptyList whitespace_nil
  | cons ht hts =>
    obtain ⟨u, heq, hu⟩ := htail ht hts
    rw [separated, id_eq, heq]
    exact .list hu

/-- The text of an object, from those of its members. -/
theorem reads_object {ts : List (List Char)} {kvs : List (PyText × PyValue)}
    (h : List.Forall₂ (fun t e => Reads float t (.member e)) ts kvs) :
    Reads float ('\x7b' :: separated id ',' '\x7d' ts) (.value (.dict (Dict.update [] kvs))) := by
  have htail : ∀ {ts : List (List Char)} {kvs : List (PyText × PyValue)} {t : List Char}
      {e : PyText × PyValue}, Reads float t (.member e) →
      List.Forall₂ (fun t e => Reads float t (.member e)) ts kvs →
      ∃ u, t ++ separatedTail id ',' '\x7d' ts = u ++ ['\x7d'] ∧
        Reads float u (.members (e :: kvs)) := by
    intro ts kvs t e ht hts
    induction hts generalizing t e with
    | nil => exact ⟨t, rfl, .lastMember ht⟩
    | cons hfirst _ ih =>
      obtain ⟨u, heq, hu⟩ := ih hfirst
      exact ⟨t ++ ',' :: u, by simp [separatedTail, heq], .members ht hu⟩
  cases h with
  | nil => exact Reads.emptyDict whitespace_nil
  | cons ht hts =>
    obtain ⟨u, heq, hu⟩ := htail ht hts
    rw [separated, id_eq, heq]
    exact .dict hu

mutual
/-- The text of a value is read as what `reread` says. -/
theorem reads_dumps : ∀ v : PyValue, (∀ x ∈ v.floats, SpellsFloat float x.text x) →
    Reads float v.dumps (.value v.reread)
  | .null, _ => .null
  | .bool b, _ => by
    cases b
    · exact .no
    · exact .yes
  | .int n, _ => .int (spellsInt_intText n)
  | .float x, h => Reads.float (h (.finite x) (List.mem_singleton_self _))
  | .nonFinite x, h => Reads.float (h (.nonFinite x) (List.mem_singleton_self _))
  | .str s, _ => .str (spellsStr_literal s)
  | .other s, _ => .str (spellsStr_literal s)
  | .list xs, h => reads_array (reads_dumpsList xs h)
  | .tuple xs, h => reads_array (reads_dumpsList xs h)
  | .dict kvs, h => reads_object (reads_dumpsMembers kvs h)

theorem reads_dumpsList : ∀ xs : List PyValue, (∀ x ∈ floatsList xs, SpellsFloat float x.text x) →
    List.Forall₂ (fun t v => Reads float t (.value v)) (dumpsList xs) (rereadList xs)
  | [], _ => .nil
  | x :: xs, h =>
    .cons (reads_dumps x fun y hy => h y (List.mem_append_left _ hy))
      (reads_dumpsList xs fun y hy => h y (List.mem_append_right _ hy))

theorem reads_dumpsMembers : ∀ kvs : List (PyText × PyValue),
    (∀ x ∈ floatsMembers kvs, SpellsFloat float x.text x) →
    List.Forall₂ (fun t e => Reads float t (.member e)) (dumpsMembers kvs) (rereadMembers kvs)
  | [], _ => .nil
  | (k, v) :: kvs, h => by
    refine .cons ?_ (reads_dumpsMembers kvs fun y hy => h y (List.mem_append_right _ hy))
    have hv := (reads_dumps v fun y hy => h y (List.mem_append_left _ hy)).unpadded
    exact Reads.member whitespace_nil whitespace_nil (spellsStr_literal k) hv
end

/-- **The round trip**: the text of a value is read as one value. -/
theorem loads_dumps_iff {v w : PyValue} (h : ∀ x ∈ v.floats, SpellsFloat float x.text x) :
    Loads float v.dumps w ↔ w = v.reread := by
  have hloads : Loads float v.dumps v.reread :=
    ⟨[], v.dumps, Or.inl rfl, (reads_dumps v h).unpadded, rfl⟩
  constructor
  · exact fun hw => loads_unique hloads hw
  · rintro rfl
    exact hloads

end PyValue

/-! ## Characters -/

/-- The printable characters of ASCII. -/
def Printable (c : Char) : Prop := 0x20 ≤ c.toNat ∧ c.toNat ≤ 0x7e

instance (c : Char) : Decidable (Printable c) := inferInstanceAs (Decidable (_ ∧ _))

theorem printable_numberChar {c : Char} (h : NumberChar c) : Printable c := by
  rcases h with h | rfl | rfl | rfl | rfl
  · obtain ⟨hge, hle⟩ := Char.isDigit_iff_toNat.mp h
    exact ⟨Nat.le_trans (by decide) hge, Nat.le_trans hle (by decide)⟩
  all_goals decide

/-- Escapes are printable, whatever they escape. -/
theorem printable_escapeUnit {u : CodeUnit} : ∀ c ∈ escapeUnit u, Printable c := by
  have htable : ∀ e ∈ shortEscapes, Printable e.2 := by decide
  have hdigit : ∀ d : Fin 16, Printable (Nat.digitChar d.val) := by decide
  intro c hc
  unfold escapeUnit at hc
  cases hshort : shortEscape u with
  | some e =>
    simp only [hshort, List.mem_cons, List.not_mem_nil, or_false] at hc
    rcases hc with rfl | rfl
    · decide
    · exact htable _ (Dict.mem_of_get hshort)
  | none =>
    simp only [hshort] at hc
    split at hc
    · rename_i hraw
      rw [List.mem_singleton.mp hc]
      unfold Printable
      rwa [printable_toNat hraw]
    · simp only [hex4, List.mem_cons, List.not_mem_nil, or_false] at hc
      rcases hc with rfl | rfl | rfl | rfl | rfl | rfl
      · decide
      · decide
      all_goals exact hdigit ⟨_, by omega⟩

theorem printable_literal (s : PyText) : ∀ c ∈ literal s, Printable c := by
  intro c hc
  rw [literal, List.mem_cons, List.mem_append, List.mem_singleton] at hc
  rcases hc with rfl | hbody | rfl
  · decide
  · obtain ⟨u, -, hu⟩ := List.mem_flatMap.mp hbody
    exact printable_escapeUnit c hu
  · decide

/-- Printable elements between printable separators. -/
theorem printable_separated {sep close : Char} (hsep : Printable sep) (hclose : Printable close)
    {ts : List (List Char)} (h : ∀ t ∈ ts, ∀ c ∈ t, Printable c) :
    ∀ c ∈ separated id sep close ts, Printable c := by
  have htail : ∀ {ts : List (List Char)}, (∀ t ∈ ts, ∀ c ∈ t, Printable c) →
      ∀ c ∈ separatedTail id sep close ts, Printable c := by
    intro ts h
    induction ts with
    | nil => simpa [separatedTail] using hclose
    | cons t ts ih =>
      rw [List.forall_mem_cons] at h
      rw [separatedTail, List.forall_mem_cons, List.forall_mem_append]
      exact ⟨hsep, h.1, ih h.2⟩
  cases ts with
  | nil => simpa [separated] using hclose
  | cons t ts =>
    rw [List.forall_mem_cons] at h
    rw [separated, List.forall_mem_append]
    exact ⟨h.1, htail h.2⟩

namespace PyValue

mutual
/-- `json.dumps` writes printable ASCII, so there is no line break in what it writes. -/
theorem printable_dumps : ∀ v : PyValue, ∀ c ∈ v.dumps, Printable c
  | .null => List.all_iff_forall_prop.mp (by decide)
  | .bool true => List.all_iff_forall_prop.mp (by decide)
  | .bool false => List.all_iff_forall_prop.mp (by decide)
  | .int _ => fun _ hc => printable_numberChar (Json.intText_numberChar hc)
  | .float _ => fun _ hc => printable_numberChar (PyFloat.repr_chars hc)
  | .nonFinite x => by cases x <;> exact List.all_iff_forall_prop.mp (by decide)
  | .str s => printable_literal s
  | .other s => printable_literal s
  | .list xs => by
    rw [dumps, List.forall_mem_cons]
    exact ⟨by decide, printable_separated (by decide) (by decide) (printable_dumpsList xs)⟩
  | .tuple xs => by
    rw [dumps, List.forall_mem_cons]
    exact ⟨by decide, printable_separated (by decide) (by decide) (printable_dumpsList xs)⟩
  | .dict kvs => by
    rw [dumps, List.forall_mem_cons]
    exact ⟨by decide, printable_separated (by decide) (by decide) (printable_dumpsMembers kvs)⟩

theorem printable_dumpsList : ∀ xs : List PyValue, ∀ t ∈ dumpsList xs, ∀ c ∈ t, Printable c
  | [] => fun _ ht => absurd ht List.not_mem_nil
  | x :: xs => by
    rw [dumpsList, List.forall_mem_cons]
    exact ⟨printable_dumps x, printable_dumpsList xs⟩

theorem printable_dumpsMembers :
    ∀ kvs : List (PyText × PyValue), ∀ t ∈ dumpsMembers kvs, ∀ c ∈ t, Printable c
  | [] => fun _ ht => absurd ht List.not_mem_nil
  | (k, v) :: kvs => by
    rw [dumpsMembers, List.forall_mem_cons, List.forall_mem_append, List.forall_mem_cons]
    exact ⟨⟨printable_literal k, by decide, printable_dumps v⟩, printable_dumpsMembers kvs⟩
end

end PyValue

end AuditLog
