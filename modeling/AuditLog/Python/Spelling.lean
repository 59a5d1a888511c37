import AuditLog.Python.Loads

/-!
# The fewest bytes that spell a string or a number

A string literal is shortest when every character stands raw that may; only the
surrogates have to be escaped although they are no ASCII characters. An integer has
no numeral shorter than its decimal. Both bounds are attained. The `repr` of a float
is a numeral, but not always a shortest one.
-/

namespace AuditLog

open Decoding

/-! ## Bytes -/

/-- `len(text.encode("utf-8"))`. -/
def byteLength (t : List Char) : Nat := (utf8 t).length

@[simp] theorem byteLength_nil : byteLength [] = 0 := rfl

@[simp] theorem byteLength_cons (c : Char) (t : List Char) :
    byteLength (c :: t) = c.utf8Size + byteLength t := by
  simp [byteLength, utf8]

@[simp] theorem byteLength_append (t u : List Char) :
    byteLength (t ++ u) = byteLength t + byteLength u := by
  simp [byteLength, utf8]

/-- The ranges of UTF-8, in bytes a character. -/
theorem utf8Size_toNat (c : Char) : c.utf8Size =
    if c.toNat < 0x80 then 1 else if c.toNat < 0x800 then 2 else if c.toNat < 0x10000 then 3 else 4 := by
  have hle : ∀ n : UInt32, c.val ≤ n ↔ c.toNat ≤ n.toNat := fun n => UInt32.le_iff_toNat_le
  simp only [Char.utf8Size, hle]
  simp only [UInt32.toNat_ofNatLT]
  split_ifs <;> omega

theorem length_le_byteLength (t : List Char) : t.length ≤ byteLength t := by
  induction t with
  | nil => exact Nat.le_refl _
  | cons c t ih =>
    have hpos := c.utf8Size_pos
    rw [byteLength_cons, List.length_cons]
    omega

/-- ASCII takes one byte a character. -/
theorem byteLength_ascii {t : List Char} (ht : ∀ c ∈ t, c.toNat < 0x80) :
    byteLength t = t.length := by
  induction t with
  | nil => rfl
  | cons c t ih =>
    have hc : c.utf8Size = 1 := by rw [utf8Size_toNat, if_pos (ht c List.mem_cons_self)]
    rw [byteLength_cons, List.length_cons, ih fun d hd => ht d (List.mem_cons_of_mem _ hd), hc]
    omega

theorem toNat_le_of_isDigit {c : Char} (h : c.isDigit = true) : c.toNat ≤ '9'.toNat := by
  simp only [Char.isDigit, Bool.and_eq_true, decide_eq_true_eq] at h
  exact UInt32.le_iff_toNat_le.mp h.2

theorem numberChar_ascii {c : Char} (h : NumberChar c) : c.toNat < 0x80 := by
  rcases h with h | rfl | rfl | rfl | rfl
  · exact Nat.lt_of_le_of_lt (toNat_le_of_isDigit h) (by decide)
  all_goals decide

/-- The bytes of texts between brackets and commas, the brackets left out. -/
def joinBytes (ns : List Nat) : Nat := ns.sum + (ns.length - 1)

theorem joinBytes_cons (n : Nat) {ns : List Nat} (hns : ns ≠ []) :
    joinBytes (n :: ns) = n + 1 + joinBytes ns := by
  have hlength := List.length_pos_iff.mpr hns
  simp only [joinBytes, List.sum_cons, List.length_cons]
  omega

/-- The bytes of elements with their separators and closing bracket. -/
theorem byteLength_separated {sep close : Char} (hsep : sep.utf8Size = 1)
    (hclose : close.utf8Size = 1) (ts : List (List Char)) :
    byteLength (separated id sep close ts) = joinBytes (ts.map byteLength) + 1 := by
  have htail : ∀ ts : List (List Char), byteLength (separatedTail id sep close ts) =
      (ts.map byteLength).sum + ts.length + 1 := by
    intro ts
    induction ts with
    | nil => simp [separatedTail, hclose]
    | cons t ts ih =>
      simp only [separatedTail, byteLength_cons, byteLength_append, ih, hsep, id, List.map_cons,
        List.sum_cons, List.length_cons]
      omega
  cases ts with
  | nil => simp [separated, joinBytes, hclose]
  | cons t ts =>
    simp only [separated, byteLength_append, htail, id, joinBytes, List.map_cons, List.sum_cons,
      List.length_cons, List.length_map]
    omega

/-! ## Characters -/

/-- A code point inside a literal of `json.dumps`. -/
def escaped (c : CodePoint) : List Char := (utf16 c).flatMap escapeUnit

/-- The fewest bytes for a code point inside a literal: only a surrogate has to be escaped
though it is no ASCII character. -/
def charBytes (c : CodePoint) : Nat :=
  if c.IsSurrogate then 6
  else if c.val < 0x7f then (escaped c).length
  else if c.val < 0x80 then 1
  else if c.val < 0x800 then 2
  else if c.val < 0x10000 then 3
  else 4

/-- The code points that no spelling makes shorter than `json.dumps` does. -/
def PlainChar (c : CodePoint) : Prop := c.val < 0x7f ∨ c.IsSurrogate

theorem utf16_of_lt {c : CodePoint} (h : c.val < 0x10000) : utf16 c = [⟨c.val, h⟩] := by
  rw [utf16, dif_pos h]

/-- Only code units up to the backslash have a short escape. -/
theorem shortEscape_eq_none {u : CodeUnit} (h : 0x5d ≤ u.val) : shortEscape u = none := by
  have htable : ∀ k ∈ Dict.keys shortEscapes, k ≤ 0x5c := by decide
  rw [shortEscape, Dict.get_eq_none_iff]
  intro hmem
  have hle := htable _ hmem
  omega

theorem length_hex4 (u : CodeUnit) : (hex4 u).length = 4 := rfl

/-- No escape of a code unit is longer than six characters. -/
theorem length_escapeUnit_le (u : CodeUnit) : (escapeUnit u).length ≤ 6 := by
  unfold escapeUnit
  split
  · simp
  · split <;> simp [length_hex4]

/-- From DEL on every code unit is escaped in six characters. -/
theorem length_escapeUnit_of_ge {u : CodeUnit} (h : 0x7f ≤ u.val) : (escapeUnit u).length = 6 := by
  have hprintable : ¬ (0x20 ≤ u.val ∧ u.val ≤ 0x7e) := by omega
  rw [escapeUnit, shortEscape_eq_none (by omega)]
  simp only [if_neg hprintable, List.length_cons, length_hex4]

/-- `json.dumps` spells the plain code points as short as possible, and no others. -/
theorem charBytes_escaped (c : CodePoint) :
    charBytes c ≤ (escaped c).length ∧ ((escaped c).length ≤ charBytes c ↔ PlainChar c) := by
  have hsurrogate : c.IsSurrogate → c.val < 0x10000 ∧ 0x7f ≤ c.val := by
    unfold CodePoint.IsSurrogate CodePoint.IsHighSurrogate CodePoint.IsLowSurrogate
    omega
  have hbasic : c.val < 0x10000 → 0x7f ≤ c.val → (escaped c).length = 6 := by
    intro hlt hge
    rw [escaped, utf16_of_lt hlt, List.flatMap_singleton, length_escapeUnit_of_ge hge]
  have hastral : ¬ c.val < 0x10000 → (escaped c).length = 12 := by
    intro hge
    rw [escaped, utf16, dif_neg hge, List.flatMap_cons, List.flatMap_singleton, List.length_append,
      length_escapeUnit_of_ge (by simp only; omega), length_escapeUnit_of_ge (by simp only; omega)]
  by_cases hs : c.IsSurrogate
  · have hlength := hbasic (hsurrogate hs).1 (hsurrogate hs).2
    simp [charBytes, PlainChar, hs, hlength]
  · by_cases hlt : c.val < 0x7f
    · simp [charBytes, PlainChar, hs, hlt]
    · have hplain : ¬ PlainChar c := by simp [PlainChar, hs, hlt]
      simp only [charBytes, if_neg hs, if_neg hlt, hplain, iff_false]
      by_cases hbmp : c.val < 0x10000
      · have hlength := hbasic hbmp (by omega)
        split_ifs <;> omega
      · have hlength := hastral hbmp
        split_ifs <;> omega

/-- A single code unit can be escaped in six bytes. -/
theorem charBytes_le_six {c : CodePoint} (h : c.val < 0x10000) : charBytes c ≤ 6 := by
  have hle := (charBytes_escaped c).1
  rw [escaped, utf16_of_lt h, List.flatMap_singleton] at hle
  have hsix := length_escapeUnit_le ⟨c.val, h⟩
  omega

/-- Beyond the first plane a raw character is shortest. -/
theorem charBytes_of_ge {c : CodePoint} (h : ¬ c.val < 0x10000) : charBytes c = 4 := by
  have hsurrogate : ¬ c.IsSurrogate := by
    simp only [CodePoint.IsSurrogate, CodePoint.IsHighSurrogate, CodePoint.IsLowSurrogate]
    omega
  rw [charBytes, if_neg hsurrogate]
  split_ifs <;> omega

/-- A short escape saves nothing on the shortest spelling. -/
theorem charBytes_short {u : CodeUnit} {e : Char} (h : (u.val, e) ∈ readEscapes)
    {c : CodePoint} (hc : c.val = u.val) : charBytes c ≤ 2 := by
  have htable : ∀ f ∈ readEscapes, ∀ n : Fin 0x80, n.val = f.1 →
      charBytes ⟨n.val, Nat.lt_trans n.isLt (by decide)⟩ ≤ 2 := by decide +kernel
  have hsmall : ∀ f ∈ readEscapes, f.1 < 0x80 := by decide
  have hlt : u.val < 0x80 := hsmall _ h
  have hcu : c = ⟨u.val, by omega⟩ := Fin.ext hc
  rw [hcu]
  exact htable _ h ⟨u.val, hlt⟩ rfl

theorem ofChar_not_surrogate (c : Char) : ¬ (CodePoint.ofChar c).IsSurrogate := by
  have hvalid : c.toNat < 0xd800 ∨ 0xdfff < c.toNat := by
    rcases c.valid with h | h
    · exact Or.inl h
    · exact Or.inr h.1
  simp only [CodePoint.IsSurrogate, CodePoint.IsHighSurrogate, CodePoint.IsLowSurrogate,
    CodePoint.ofChar]
  omega

/-- Characters that stand raw in a literal are their own shortest spelling. -/
theorem charBytes_raw {c : Char} (hcontrol : 0x20 ≤ c.toNat) (hquote : c ≠ '"')
    (hslash : c ≠ '\\') : charBytes (CodePoint.ofChar c) = c.utf8Size := by
  have hval : (CodePoint.ofChar c).val = c.toNat := rfl
  rw [charBytes, if_neg (ofChar_not_surrogate c), utf8Size_toNat, hval]
  by_cases hlt : c.toNat < 0x7f
  · have hnone : shortEscape ⟨c.toNat, by omega⟩ = none := by
      rw [shortEscape, Dict.get_eq_none_iff]
      have hne : c.toNat ≠ 0x5c ∧ c.toNat ≠ 0x22 := by
        constructor
        · intro h
          exact hslash (Char.toNat_inj.mp h)
        · intro h
          exact hquote (Char.toNat_inj.mp h)
      simp only [shortEscapes, Dict.keys_cons, Dict.keys_nil, List.mem_cons, List.not_mem_nil,
        or_false]
      omega
    have hone : (escaped (CodePoint.ofChar c)).length = 1 := by
      rw [escaped, utf16_of_lt (by omega), List.flatMap_singleton, escapeUnit]
      simp only [hval, hnone]
      rw [if_pos (by omega), List.length_singleton]
    rw [if_pos hlt, if_pos (by omega), hone]
  · rw [if_neg hlt]

/-! ## String literals -/

/-- The fewest bytes for a string literal, quotes included. -/
def strBytes (s : PyText) : Nat := 2 + (s.map charBytes).sum

/-- A code unit on its own. -/
def CodePoint.ofUnit (u : CodeUnit) : CodePoint := ⟨u.val, by omega⟩

@[simp] theorem CodePoint.val_ofUnit (u : CodeUnit) : (CodePoint.ofUnit u).val = u.val := rfl

theorem utf16_ofUnit (u : CodeUnit) : utf16 (CodePoint.ofUnit u) = [u] := utf16_of_lt u.isLt

/-- The halves of a surrogate pair. -/
theorem utf16_of_ge {c : CodePoint} (h : ¬ c.val < 0x10000) : ∃ high low : CodeUnit,
    utf16 c = [high, low] ∧ high.val = 0xd800 + (c.val - 0x10000) / 0x400 ∧
      low.val = 0xdc00 + (c.val - 0x10000) % 0x400 := by
  rw [utf16, dif_neg h]
  exact ⟨_, _, rfl, rfl, rfl⟩

/-- The first code unit of a text is its first code point, or the first half of it. -/
theorem flatMap_utf16_cons {s : PyText} {u : CodeUnit} {us : List CodeUnit}
    (h : s.flatMap utf16 = u :: us) :
    (∃ s', s = CodePoint.ofUnit u :: s' ∧ s'.flatMap utf16 = us) ∨
      ∃ c s' low, s = c :: s' ∧ ¬ c.val < 0x10000 ∧ utf16 c = [u, low] ∧
        u.val = 0xd800 + (c.val - 0x10000) / 0x400 ∧
        low.val = 0xdc00 + (c.val - 0x10000) % 0x400 ∧ us = low :: s'.flatMap utf16 := by
  cases s with
  | nil => simp at h
  | cons c s' =>
    rw [List.flatMap_cons] at h
    by_cases hc : c.val < 0x10000
    · rw [utf16_of_lt hc, List.singleton_append, List.cons.injEq] at h
      exact Or.inl ⟨s', by rw [← h.1]; rfl, h.2⟩
    · obtain ⟨high, low, hpair, hhigh, hlow⟩ := utf16_of_ge hc
      rw [hpair] at h
      simp only [List.cons_append, List.nil_append, List.cons.injEq] at h
      obtain ⟨rfl, rfl⟩ := h
      exact Or.inr ⟨c, s', low, rfl, hc, hpair, hhigh, hlow, rfl⟩

/-- In front of a character that is no surrogate there is nothing to join. -/
theorem flatMap_utf16_char {s : PyText} (hs : s.IsChain Unsplit) {c : CodePoint}
    (hc : ¬ c.IsSurrogate) {us : List CodeUnit} (h : s.flatMap utf16 = utf16 c ++ us) :
    ∃ s', s = c :: s' ∧ s'.flatMap utf16 = us := by
  simp only [CodePoint.IsSurrogate, CodePoint.IsHighSurrogate, CodePoint.IsLowSurrogate] at hc
  by_cases hbmp : c.val < 0x10000
  · rw [utf16_of_lt hbmp, List.singleton_append] at h
    rcases flatMap_utf16_cons h with ⟨s', rfl, hus⟩ | ⟨d, s', low, rfl, hd, -, hhigh, -, -⟩
    · exact ⟨s', rfl, hus⟩
    · simp only at hhigh
      omega
  · obtain ⟨high, low, hpair, hhigh, hlow⟩ := utf16_of_ge hbmp
    rw [hpair, List.cons_append, List.singleton_append] at h
    rcases flatMap_utf16_cons h with ⟨s', rfl, hus⟩ | ⟨d, s', low', rfl, hd, -, hhigh', hlow', hus⟩
    · -- A lone high surrogate: the low one would come right behind it.
      exfalso
      rcases flatMap_utf16_cons hus with ⟨s'', rfl, -⟩ | ⟨e, s'', low', rfl, he, -, hhigh', -, -⟩
      · apply (List.isChain_cons_cons.mp hs).1
        simp only [CodePoint.IsHighSurrogate, CodePoint.IsLowSurrogate, CodePoint.val_ofUnit]
        omega
      · omega
    · obtain ⟨rfl, rfl⟩ := List.cons.inj hus
      exact ⟨s', by rw [show d = c from Fin.ext (by omega)], rfl⟩

/-- Nothing is split in front of a text but a high surrogate. -/
theorem isChain_unsplit_cons {c : CodePoint} {s : PyText} (hc : ¬ c.IsHighSurrogate)
    (hs : s.IsChain Unsplit) : (c :: s).IsChain Unsplit := by
  cases s with
  | nil => exact List.IsChain.singleton _
  | cons d s => exact List.isChain_cons_cons.mpr ⟨fun hpair => hc hpair.1, hs⟩

/-- No literal of a string has fewer bytes. -/
theorem charBytes_le_of_readsUnits {t : List Char} {us : List CodeUnit} (h : ReadsUnits t us)
    {s : PyText} (hs : s.IsChain Unsplit) (hus : s.flatMap utf16 = us) :
    (s.map charBytes).sum ≤ byteLength t := by
  induction h generalizing s with
  | nil =>
    cases s with
    | nil => exact Nat.le_refl _
    | cons c s =>
      rw [List.flatMap_cons] at hus
      unfold utf16 at hus
      split at hus <;> simp at hus
  | raw hcontrol hquote hslash _ ih =>
    obtain ⟨s', rfl, hs'⟩ := flatMap_utf16_char hs (ofChar_not_surrogate _) hus
    have hrest := ih hs.of_cons hs'
    have hchar := charBytes_raw hcontrol hquote hslash
    rw [List.map_cons, List.sum_cons, byteLength_cons]
    omega
  | short hescape _ ih =>
    rename_i u e t us _
    have htable : ∀ f ∈ readEscapes, f.1 < 0x80 := by decide
    have hu : u.val < 0x80 := htable _ hescape
    rcases flatMap_utf16_cons hus with ⟨s', rfl, hs'⟩ | ⟨c, s', low, rfl, hc, -, hhigh, -, -⟩
    · have hrest := ih hs.of_cons hs'
      have hchar := charBytes_short hescape (CodePoint.val_ofUnit u)
      have hpos := e.utf8Size_pos
      have hslash : ('\\').utf8Size = 1 := by decide
      rw [List.map_cons, List.sum_cons, byteLength_cons, byteLength_cons]
      omega
    · omega
  | hex hunit _ ih =>
    rename_i u a b c d t us _
    have hsix : 6 + byteLength t ≤ byteLength ('\\' :: 'u' :: a :: b :: c :: d :: t) := by
      have hlength := length_le_byteLength ['\\', 'u', a, b, c, d]
      have happend := byteLength_append ['\\', 'u', a, b, c, d] t
      simp only [List.cons_append, List.nil_append, List.length_cons, List.length_nil] at *
      omega
    rcases flatMap_utf16_cons hus with
      ⟨s', rfl, hs'⟩ | ⟨e, s', low, rfl, he, -, hhigh, hlow, hs'⟩
    · have hrest := ih hs.of_cons hs'
      have hchar : charBytes (CodePoint.ofUnit u) ≤ 6 := charBytes_le_six u.isLt
      rw [List.map_cons, List.sum_cons]
      omega
    · -- An escaped pair: the low half on its own would need six bytes as well.
      have hsurrogate : (CodePoint.ofUnit low).IsSurrogate := by
        simp only [CodePoint.IsSurrogate, CodePoint.IsLowSurrogate, CodePoint.val_ofUnit]
        omega
      have hnot : ¬ (CodePoint.ofUnit low).IsHighSurrogate := by
        simp only [CodePoint.IsHighSurrogate, CodePoint.val_ofUnit]
        omega
      have hrest := ih (isChain_unsplit_cons hnot hs.of_cons)
        (by rw [List.flatMap_cons, utf16_ofUnit, hs']; rfl)
      rw [List.map_cons, List.sum_cons, charBytes, if_pos hsurrogate] at hrest
      rw [List.map_cons, List.sum_cons, charBytes_of_ge he]
      omega

/-- The hex digits that are printed are read back. -/
theorem hexDigit?_digitChar : ∀ d : Fin 16, hexDigit? (Nat.digitChar d.val) = some d := by
  decide +kernel

/-- The digits of `hex4` read back as the code unit. -/
theorem ReadsUnits.hex4 {t : List Char} {us : List CodeUnit} (u : CodeUnit) (h : ReadsUnits t us) :
    ReadsUnits ('\\' :: 'u' :: (AuditLog.hex4 u ++ t)) (u :: us) := by
  have hdigit : ∀ n, (hn : n < 16) → hexDigit? (Nat.digitChar n) = some ⟨n, hn⟩ :=
    fun n hn => hexDigit?_digitChar ⟨n, hn⟩
  refine ReadsUnits.hex ?_ h
  rw [codeUnit?, hdigit _ (by omega), hdigit _ (by omega), hdigit _ (by omega),
    hdigit _ (by omega)]
  simp only [Option.bind_eq_bind, Option.bind_some, Option.some.injEq, Fin.ext_iff]
  omega

theorem hex4_ascii {u : CodeUnit} {c : Char} (h : c ∈ hex4 u) : c.toNat < 0x80 := by
  have hdigit : ∀ d : Fin 16, (Nat.digitChar d.val).toNat < 0x80 := by decide
  simp only [hex4, List.mem_cons, List.not_mem_nil, or_false] at h
  rcases h with rfl | rfl | rfl | rfl
  all_goals exact hdigit ⟨_, by omega⟩

/-- A hex escape is six bytes. -/
theorem byteLength_hex4 (u : CodeUnit) (t : List Char) :
    byteLength ('\\' :: 'u' :: (hex4 u ++ t)) = 6 + byteLength t := by
  have hmark : ('\\').utf8Size = 1 ∧ ('u').utf8Size = 1 := by decide
  rw [byteLength_cons, byteLength_cons, byteLength_append, byteLength_ascii fun _ => hex4_ascii,
    length_hex4, hmark.1, hmark.2]
  omega

/-- A code unit that `json.dumps` escapes, in as many bytes. -/
theorem ReadsUnits.escape {t : List Char} {us : List CodeUnit} (h : ReadsUnits t us) {u : CodeUnit}
    (hescaped : shortEscape u = none → ¬ (0x20 ≤ u.val ∧ u.val ≤ 0x7e)) :
    ∃ t', ReadsUnits t' (u :: us) ∧ byteLength t' = (escapeUnit u).length + byteLength t := by
  unfold escapeUnit
  cases hshort : shortEscape u with
  | some e =>
    have hmem : (u.val, e) ∈ shortEscapes := Dict.mem_of_get hshort
    refine ⟨'\\' :: e :: t, ReadsUnits.short (List.mem_cons_of_mem _ hmem) h, ?_⟩
    have htable : ∀ f ∈ shortEscapes, f.2.utf8Size = 1 := by decide
    have hslash : ('\\').utf8Size = 1 := by decide
    rw [byteLength_cons, byteLength_cons, htable _ hmem, hslash]
    simp only [List.length_cons, List.length_nil]
    omega
  | none =>
    refine ⟨_, h.hex4 u, ?_⟩
    rw [byteLength_hex4]
    simp only [if_neg (hescaped hshort), List.length_cons, length_hex4]

/-- The character of a code point that is no surrogate. -/
theorem exists_ofChar {c : CodePoint} (hc : ¬ c.IsSurrogate) : ∃ ch, CodePoint.ofChar ch = c := by
  simp only [CodePoint.IsSurrogate, CodePoint.IsHighSurrogate, CodePoint.IsLowSurrogate] at hc
  have hvalid : c.val.isValidChar := by
    unfold Nat.isValidChar
    omega
  refine ⟨Char.ofNat c.val, Fin.ext ?_⟩
  rw [Char.ofNat, dif_pos hvalid]
  rfl

/-- One more code point in front of a literal's body, as short as it can be. -/
theorem exists_readsUnits_cons (c : CodePoint) {t : List Char} {us : List CodeUnit}
    (h : ReadsUnits t us) :
    ∃ t', ReadsUnits t' (utf16 c ++ us) ∧ byteLength t' = charBytes c + byteLength t := by
  by_cases hsurrogate : c.IsSurrogate
  · have hbmp : c.val < 0x10000 := by
      simp only [CodePoint.IsSurrogate, CodePoint.IsHighSurrogate, CodePoint.IsLowSurrogate]
        at hsurrogate
      omega
    rw [utf16_of_lt hbmp]
    refine ⟨_, h.hex4 ⟨c.val, hbmp⟩, ?_⟩
    rw [byteLength_hex4, charBytes, if_pos hsurrogate]
  · obtain ⟨ch, rfl⟩ := exists_ofChar hsurrogate
    have hval : (CodePoint.ofChar ch).val = ch.toNat := rfl
    by_cases hraw : 0x20 ≤ ch.toNat ∧ ch ≠ '"' ∧ ch ≠ '\\'
    · refine ⟨ch :: t, ReadsUnits.raw hraw.1 hraw.2.1 hraw.2.2 h, ?_⟩
      rw [byteLength_cons, charBytes_raw hraw.1 hraw.2.1 hraw.2.2]
    · -- The rest is ASCII and escaped, by `json.dumps` as by everyone.
      have hsmall : ch.toNat < 0x60 := by
        by_contra hge
        apply hraw
        refine ⟨by omega, ?_, ?_⟩
        · rintro rfl
          exact hge (by decide)
        · rintro rfl
          exact hge (by decide)
      have hbmp : (CodePoint.ofChar ch).val < 0x10000 := by omega
      have hbytes : charBytes (CodePoint.ofChar ch) =
          (escapeUnit ⟨(CodePoint.ofChar ch).val, hbmp⟩).length := by
        rw [charBytes, if_neg hsurrogate, if_pos (by omega), escaped, utf16_of_lt hbmp,
          List.flatMap_singleton]
      rw [utf16_of_lt hbmp, hbytes]
      refine h.escape fun hshort hprintable => hraw ⟨hprintable.1, ?_, ?_⟩
      · rintro rfl
        exact (Dict.get_eq_none_iff _ _).mp hshort (show 0x22 ∈ Dict.keys shortEscapes by decide)
      · rintro rfl
        exact (Dict.get_eq_none_iff _ _).mp hshort (show 0x5c ∈ Dict.keys shortEscapes by decide)

/-- A literal body that spells a text in the fewest bytes. -/
theorem exists_readsUnits (s : PyText) :
    ∃ t, ReadsUnits t (s.flatMap utf16) ∧ byteLength t = (s.map charBytes).sum := by
  induction s with
  | nil => exact ⟨[], ReadsUnits.nil, rfl⟩
  | cons c s ih =>
    obtain ⟨t, ht, hbytes⟩ := ih
    obtain ⟨t', ht', hbytes'⟩ := exists_readsUnits_cons c ht
    refine ⟨t', by rwa [List.flatMap_cons], ?_⟩
    rw [hbytes', hbytes, List.map_cons, List.sum_cons]

theorem byteLength_quoted (t : List Char) : byteLength ('"' :: (t ++ ['"'])) = 2 + byteLength t := by
  have hquote : ('"').utf8Size = 1 := by decide
  simp only [byteLength_cons, byteLength_append, byteLength_nil, hquote]
  omega

/-- `strBytes` bounds every literal of a string from below. -/
theorem strBytes_le {t : List Char} {s : PyText} (h : SpellsStr t s) : strBytes s ≤ byteLength t := by
  obtain ⟨body, str, hreads, rfl, rfl⟩ := h
  have hle := charBytes_le_of_readsUnits hreads str.unsplit rfl
  rw [byteLength_quoted, strBytes]
  omega

/-- Some literal of a string has `strBytes` bytes. -/
theorem exists_spellsStr {t : List Char} {s : PyText} (h : SpellsStr t s) :
    ∃ t', SpellsStr t' s ∧ byteLength t' = strBytes s := by
  obtain ⟨body, str, -, -, rfl⟩ := h
  obtain ⟨t', hreads, hbytes⟩ := exists_readsUnits str.codePoints
  refine ⟨_, ⟨t', str, hreads, rfl, rfl⟩, ?_⟩
  rw [byteLength_quoted, hbytes, strBytes]

/-! ## Numerals -/

/-- The value of so many digits is below that power of ten. -/
theorem ofDigitChars_lt {ds : List Char} (hds : ∀ c ∈ ds, c.isDigit = true) :
    Nat.ofDigitChars 10 ds 0 < 10 ^ ds.length := by
  have hgeneral : ∀ init, Nat.ofDigitChars 10 ds init < (init + 1) * 10 ^ ds.length := by
    induction ds with
    | nil => simp
    | cons c ds ih =>
      intro init
      have hrest := ih (fun d hd => hds d (List.mem_cons_of_mem _ hd))
        (10 * init + (c.toNat - '0'.toNat))
      have hc : c.toNat - '0'.toNat ≤ 9 := by
        have hle := toNat_le_of_isDigit (hds c List.mem_cons_self)
        have hnine : '9'.toNat = 57 := rfl
        have hzero : '0'.toNat = 48 := rfl
        omega
      rw [Nat.ofDigitChars_cons]
      refine Nat.lt_of_lt_of_le hrest ?_
      rw [List.length_cons, Nat.pow_succ, Nat.mul_comm (10 ^ _) 10, ← Nat.mul_assoc]
      exact Nat.mul_le_mul_right _ (by omega)
  simpa using hgeneral 0

/-- No numeral of an integer is shorter than its own. -/
theorem length_toDigits_le {ds : List Char} (hds : Digits ds) :
    (Nat.toDigits 10 (Nat.ofDigitChars 10 ds 0)).length ≤ ds.length := by
  have hpos : 0 < ds.length := List.length_pos_iff.mpr hds.1
  exact (Nat.length_toDigits_le_iff (by decide) hpos).mpr (ofDigitChars_lt hds.2)

/-- No numeral of an integer is shorter than its `int.__repr__`. -/
theorem intText_le {t : List Char} {n : Int} (h : SpellsInt t n) :
    (intText n).length ≤ byteLength t := by
  obtain ⟨negative, ds, hwhole, rfl, rfl⟩ := h
  have hle := length_toDigits_le hwhole.1
  have hbytes := length_le_byteLength (minus negative ++ ds)
  rw [List.length_append] at hbytes
  unfold intText
  cases negative with
  | false =>
    rw [if_neg (by simp)]
    simp only [Bool.false_eq_true, if_false, Int.natAbs_natCast] at *
    omega
  | true =>
    have hminus : (minus true).length = 1 := rfl
    simp only [if_true, Int.natAbs_neg, Int.natAbs_natCast] at *
    split
    · rw [List.length_cons]
      omega
    · omega

/-- Decimals have no leading zero. -/
theorem wholePart_toDigits (n : Nat) : WholePart (Nat.toDigits 10 n) := by
  refine ⟨⟨Nat.toDigits_ne_nil, fun c hc => isDigit_of_mem_toDigits hc⟩, ?_⟩
  intro hhead
  cases hds : Nat.toDigits 10 n with
  | nil => exact absurd hds Nat.toDigits_ne_nil
  | cons d ds =>
    rw [hds, List.head?_cons, Option.some.injEq] at hhead
    subst hhead
    -- Without the zero, the digits would have the same value and be fewer.
    cases ds with
    | nil => rfl
    | cons d ds =>
      exfalso
      have hdigits : Digits (d :: ds) := by
        refine ⟨List.cons_ne_nil _ _, fun c hc => isDigit_of_mem_toDigits (n := n) ?_⟩
        rw [hds]
        exact List.mem_cons_of_mem _ hc
      have hvalue : Nat.ofDigitChars 10 (d :: ds) 0 = n := by
        have h := Nat.ofDigitChars_ten_toDigits (n := n)
        rw [hds, Nat.ofDigitChars_cons] at h
        exact h
      have hle := length_toDigits_le hdigits
      rw [hvalue, hds] at hle
      simp only [List.length_cons] at hle
      omega

/-- `int.__repr__` is a numeral of the integer. -/
theorem spellsInt_intText (n : Int) : SpellsInt (intText n) n := by
  refine ⟨decide (n < 0), Nat.toDigits 10 n.natAbs, wholePart_toDigits _, ?_, ?_⟩
  · unfold intText minus
    by_cases h : n < 0 <;> simp [h]
  · rw [Nat.ofDigitChars_ten_toDigits]
    by_cases h : n < 0
    · rw [decide_eq_true h, if_pos rfl]
      omega
    · rw [decide_eq_false h, if_neg Bool.false_ne_true]
      omega

theorem digits_digitText {ds : List (Fin 10)} (h : ds ≠ []) : Digits (PyFloat.digitText ds) :=
  ⟨by simpa [PyFloat.digitText] using h, fun _ => PyFloat.digitText_isDigit⟩

/-- The digits in front of the point have no leading zero. -/
theorem layout_whole_head (x : PyFloat) : x.layout.whole.head? = some 0 → x.layout.whole = [0] := by
  have hdigits : x.digits.head? = some 0 → x.digits = [0] ∧ x.decpt = 1 := by
    intro hhead
    rcases x.shortest with h | ⟨-, hne, -⟩
    · exact h
    · exact absurd hhead hne
  unfold PyFloat.layout
  split
  · split
    · exact fun _ => rfl
    · split
      · rename_i hpos hlt
        intro hhead
        simp only [List.head?_take] at hhead
        obtain ⟨hd, hp⟩ := hdigits (by split at hhead <;> simp_all)
        rw [hd, hp] at hlt
        simp at hlt
      · intro hhead
        cases hds : x.digits with
        | nil =>
          rcases x.shortest with ⟨h, -⟩ | ⟨h, -⟩
          · rw [hds] at h
            exact absurd h (by simp)
          · exact absurd hds h
        | cons d ds =>
          simp only [hds, List.cons_append, List.head?_cons, Option.some.injEq] at hhead
          obtain ⟨hd, hp⟩ := hdigits (by rw [hds, hhead]; rfl)
          rw [hds] at hd
          simp [hd, hp]
  · intro hhead
    cases hds : x.digits with
    | nil => simp [hds] at hhead
    | cons d ds => simpa [hds] using hhead

/-- The exponent that `repr` prints is one that JSON reads. -/
theorem exponentPart_exponentSuffix (e : Option Int) : ExponentPart (PyFloat.exponentSuffix e) := by
  cases e with
  | none => exact Or.inl rfl
  | some e =>
    right
    have hdigits : Digits (if e.natAbs < 10 then '0' :: Nat.toDigits 10 e.natAbs
        else Nat.toDigits 10 e.natAbs) := by
      split
      · refine ⟨List.cons_ne_nil _ _, ?_⟩
        intro c hc
        rcases List.mem_cons.mp hc with rfl | hc
        · decide
        · exact isDigit_of_mem_toDigits hc
      · exact ⟨Nat.toDigits_ne_nil, fun _ => isDigit_of_mem_toDigits⟩
    refine ⟨'e', [if e < 0 then '-' else '+'], _, Or.inl rfl, ?_, hdigits, rfl⟩
    by_cases h : e < 0 <;> simp [h]

/-- What `float.__repr__` prints is a numeral with a fraction or an exponent. -/
theorem floatNumeral_repr (x : PyFloat) : FloatNumeral x.repr := by
  have hfraction : FractionPart (PyFloat.fractionText x.layout.fraction) := by
    unfold PyFloat.fractionText
    split
    · exact Or.inl rfl
    · rename_i h
      exact Or.inr ⟨_, digits_digitText h, rfl⟩
  refine ⟨x.negative, PyFloat.digitText x.layout.whole, _, _, ⟨?_, ?_⟩, hfraction,
    exponentPart_exponentSuffix x.layout.exponent, ?_, ?_⟩
  · exact digits_digitText x.layout_whole_ne_nil
  · intro hhead
    have hzero : x.layout.whole.head? = some 0 := by
      simp only [PyFloat.digitText, List.head?_map, Option.map_eq_some_iff] at hhead
      obtain ⟨d, hd, hchar⟩ := hhead
      rw [hd, PyFloat.digitChar_injective d 0 hchar]
    rw [layout_whole_head x hzero]
    rfl
  · rintro ⟨hnone, hnone'⟩
    have hmark := x.layout_marked
    unfold PyFloat.Layout.text at hmark
    rw [hnone, hnone', List.append_nil, List.append_nil] at hmark
    rcases hmark with h | h
    · exact absurd (PyFloat.digitText_isDigit h) (by decide)
    · exact absurd (PyFloat.digitText_isDigit h) (by decide)
  · unfold PyFloat.repr minus PyFloat.Layout.text
    cases x.negative <;> rfl

end AuditLog
