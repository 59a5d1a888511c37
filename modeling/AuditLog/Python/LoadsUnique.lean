import AuditLog.Python.Spelling
import Mathlib.Data.Bool.AllAny

/-!
# A text is read as one value

The grammar of `json.loads` is unambiguous: no text spells two values. Every piece of a
text ends where the character behind it says so, and says with its first character of
which kind it is; the induction follows the grammar, with what may come behind each
piece as its side condition.
-/

namespace AuditLog

open Decoding

/-! ## String literals -/

theorem codeUnit?_unique {a b c d : Char} {u v : CodeUnit} (hu : codeUnit? a b c d = some u)
    (hv : codeUnit? a b c d = some v) : u = v := Option.some.inj (hu.symm.trans hv)

/-- The text between the quotes ends at the first quote that is not escaped, and spells one
sequence of code units. -/
theorem readsUnits_unique {t t' r r' : List Char} {us us' : List CodeUnit} (h : ReadsUnits t us)
    (h' : ReadsUnits t' us') (heq : t ++ '"' :: r = t' ++ '"' :: r') :
    us' = us ∧ r' = r := by
  have htable : ∀ e ∈ readEscapes, ∀ f ∈ readEscapes, e.2 = f.2 → e.1 = f.1 := by decide
  have hnoU : ∀ e ∈ readEscapes, e.2 ≠ 'u' := by decide
  induction h generalizing t' us' with
  | nil =>
    cases h' with
    | nil => exact ⟨rfl, (List.cons.inj heq).2.symm⟩
    | raw _ hquote _ _ => exact absurd (List.cons.inj heq).1.symm hquote
    | short _ _ => exact absurd (List.cons.inj heq).1 (by decide)
    | hex _ _ => exact absurd (List.cons.inj heq).1 (by decide)
  | raw hcontrol hquote hslash h ih =>
    cases h' with
    | nil => exact absurd (List.cons.inj heq).1 hquote
    | raw _ _ _ h' =>
      obtain ⟨rfl, hrest⟩ := List.cons.inj heq
      obtain ⟨rfl, rfl⟩ := ih h' hrest
      exact ⟨rfl, rfl⟩
    | short _ _ => exact absurd (List.cons.inj heq).1 hslash
    | hex _ _ => exact absurd (List.cons.inj heq).1 hslash
  | short hescape h ih =>
    cases h' with
    | nil => exact absurd (List.cons.inj heq).1.symm (by decide)
    | raw _ _ hslash _ => exact absurd (List.cons.inj heq).1.symm hslash
    | short hescape' h' =>
      simp only [List.cons_append, List.cons.injEq, true_and] at heq
      obtain ⟨rfl, hrest⟩ := heq
      obtain ⟨rfl, rfl⟩ := ih h' hrest
      exact ⟨by rw [Fin.ext (htable _ hescape _ hescape' rfl)], rfl⟩
    | hex _ _ =>
      obtain ⟨-, hrest⟩ := List.cons.inj heq
      exact absurd (List.cons.inj hrest).1 (hnoU _ hescape)
  | hex hunit h ih =>
    cases h' with
    | nil => exact absurd (List.cons.inj heq).1.symm (by decide)
    | raw _ _ hslash _ => exact absurd (List.cons.inj heq).1.symm hslash
    | short hescape _ =>
      obtain ⟨-, hrest⟩ := List.cons.inj heq
      exact absurd (List.cons.inj hrest).1.symm (hnoU _ hescape)
    | hex hunit' h' =>
      simp only [List.cons_append, List.cons.injEq, true_and] at heq
      obtain ⟨rfl, rfl, rfl, rfl, hrest⟩ := heq
      obtain ⟨rfl, rfl⟩ := ih h' hrest
      exact ⟨by rw [codeUnit?_unique hunit hunit'], rfl⟩

/-- A literal ends at its closing quote, and spells one string. -/
theorem spellsStr_unique {t t' r r' : List Char} {s s' : PyText} (h : SpellsStr t s)
    (h' : SpellsStr t' s') (heq : t ++ r = t' ++ r') : s' = s ∧ r' = r := by
  obtain ⟨body, str, hreads, rfl, rfl⟩ := h
  obtain ⟨body', str', hreads', rfl, rfl⟩ := h'
  simp only [List.cons_append, List.append_assoc, List.nil_append, List.cons.injEq, true_and] at heq
  obtain ⟨hunits, hrest⟩ := readsUnits_unique hreads hreads' heq
  exact ⟨utf16_injective str'.unsplit str.unsplit hunits, hrest⟩

/-! ## Numerals -/

/-- The characters of numerals and of the constants. -/
def TokenChar (c : Char) : Prop := c.isDigit = true ∨ c ∈ "-+.eENaInfity".toList

instance (c : Char) : Decidable (TokenChar c) := inferInstanceAs (Decidable (_ ∨ _))

theorem minus_chars {negative : Bool} {c : Char} (h : c ∈ minus negative) : c = '-' := by
  cases negative with
  | true => exact List.mem_singleton.mp h
  | false => cases h

/-- An integer numeral has digits and at most a sign. -/
theorem spellsInt_chars {t : List Char} {n : Int} (h : SpellsInt t n) {c : Char} (hc : c ∈ t) :
    c.isDigit = true ∨ c = '-' := by
  obtain ⟨negative, ds, hds, rfl, -⟩ := h
  rcases List.mem_append.mp hc with hc | hc
  · exact Or.inr (minus_chars hc)
  · exact Or.inl (hds.1.2 c hc)

/-- The numeral of a float may have a point and an exponent as well. -/
theorem floatNumeral_chars {t : List Char} (h : FloatNumeral t) {c : Char} (hc : c ∈ t) :
    c.isDigit = true ∨ c ∈ "-+.eE".toList := by
  obtain ⟨negative, ds, fraction, exponent, hds, hfraction, hexponent, -, rfl⟩ := h
  simp only [List.mem_append] at hc
  rcases hc with hc | hc | hc | hc
  · exact Or.inr (minus_chars hc ▸ by decide)
  · exact Or.inl (hds.1.2 c hc)
  · rcases hfraction with rfl | ⟨ds, hds, rfl⟩
    · cases hc
    · rcases List.mem_cons.mp hc with rfl | hc
      · exact Or.inr (by decide)
      · exact Or.inl (hds.2 c hc)
  · rcases hexponent with rfl | ⟨e, sign, ds, he, hsign, hds, rfl⟩
    · cases hc
    · rcases List.mem_cons.mp hc with rfl | hc
      · rcases he with rfl | rfl <;> exact Or.inr (by decide)
      · rcases List.mem_append.mp hc with hc | hc
        · right
          rcases hsign with rfl | rfl | rfl
          · cases hc
          · rw [List.mem_singleton.mp hc]
            decide
          · rw [List.mem_singleton.mp hc]
            decide
        · exact Or.inl (hds.2 c hc)

/-- A numeral of a float has a point or an exponent. -/
theorem floatNumeral_marked {t : List Char} (h : FloatNumeral t) :
    ∃ c ∈ t, c ∈ ".eE".toList := by
  obtain ⟨negative, ds, fraction, exponent, -, hfraction, hexponent, hmarked, rfl⟩ := h
  rcases hfraction with rfl | ⟨ds', -, rfl⟩
  · rcases hexponent with rfl | ⟨e, sign, ds', he, -, -, rfl⟩
    · exact absurd ⟨rfl, rfl⟩ hmarked
    · exact ⟨e, by simp, by rcases he with rfl | rfl <;> decide⟩
  · exact ⟨'.', by simp, by decide⟩

theorem digit_ne_mark {c : Char} (h : c.isDigit = true ∨ c = '-') : c ∉ ".eENI".toList := by
  have hmark : ∀ d ∈ ".eENI".toList, ¬ (d.isDigit = true ∨ d = '-') :=
    List.all_iff_forall_prop.mp (by decide)
  exact fun hc => hmark c hc h

/-- An integer numeral spells one integer. -/
theorem spellsInt_unique {t : List Char} {n m : Int} (h : SpellsInt t n) (h' : SpellsInt t m) :
    m = n := by
  obtain ⟨negative, ds, hds, rfl, rfl⟩ := h
  obtain ⟨negative', ds', hds', heq, rfl⟩ := h'
  have hdigit : ∀ {ds us : List Char}, WholePart ds → ds ≠ '-' :: us := by
    rintro ds us hds rfl
    exact absurd (hds.1.2 '-' List.mem_cons_self) (by decide)
  -- Equal signs: the digits decide. A sign is no digit.
  cases negative <;> cases negative' <;>
    simp only [minus, if_true, Bool.false_eq_true, if_false, List.nil_append, List.cons_append,
      List.cons.injEq, true_and] at heq ⊢
  · rw [heq]
  · exact absurd heq (hdigit hds)
  · exact absurd heq.symm (hdigit hds')
  · rw [heq]

/-- The constants consist of token characters, and have a letter that no numeral has. -/
theorem nonFinite_text (x : NonFinite) : (∀ c ∈ x.text, TokenChar c) ∧ ∃ c ∈ x.text, c ∈ "NI".toList := by
  cases x <;>
    exact ⟨List.all_iff_forall_prop.mp (by decide), List.any_iff_exists_prop.mp (by decide)⟩

section Grammar

variable {float : FloatReader}

/-- What a token spells: an integer, or a float. -/
inductive SpellsNumber (float : FloatReader) (t : List Char) : PyValue → Prop where
  | int {n : Int} (h : SpellsInt t n) : SpellsNumber float t (.int n)
  | float {x : FloatValue} (h : SpellsFloat float t x) : SpellsNumber float t x.toValue

/-- A number consists of token characters, so it ends at the first other one. -/
theorem SpellsNumber.chars {t : List Char} {v : PyValue} (h : SpellsNumber float t v) :
    ∀ c ∈ t, TokenChar c := by
  intro c hc
  cases h with
  | int h =>
    rcases spellsInt_chars h hc with hdigit | rfl
    · exact Or.inl hdigit
    · exact Or.inr (by decide)
  | float h =>
    rcases h with ⟨h, -⟩ | ⟨y, -, rfl⟩
    · have hsub : ∀ c ∈ "-+.eE".toList, c ∈ "-+.eENaInfity".toList :=
        List.all_iff_forall_prop.mp (by decide)
      exact (floatNumeral_chars h hc).imp_right (hsub c)
    · exact (nonFinite_text y).1 c hc

/-- A numeral is no constant, and has one value. -/
theorem spellsFloat_unique {t : List Char} {x y : FloatValue} (h : SpellsFloat float t x)
    (h' : SpellsFloat float t y) : y = x := by
  have hconstant : ∀ z : NonFinite, ¬ FloatNumeral z.text := by
    intro z hz
    obtain ⟨c, hc, hletter⟩ := (nonFinite_text z).2
    have hmark : ∀ d ∈ "NI".toList, ¬ (d.isDigit = true ∨ d ∈ "-+.eE".toList) :=
      List.all_iff_forall_prop.mp (by decide)
    exact hmark c hletter (floatNumeral_chars hz hc)
  rcases h with ⟨hnumeral, rfl⟩ | ⟨z, rfl, rfl⟩
  · rcases h' with ⟨-, rfl⟩ | ⟨z', rfl, rfl⟩
    · rfl
    · exact absurd hnumeral (hconstant z')
  · rcases h' with ⟨hnumeral, -⟩ | ⟨z', rfl, heq⟩
    · exact absurd hnumeral (hconstant z)
    · cases z <;> cases z' <;> first | rfl | exact absurd heq (by decide)

/-- A token spells one number. -/
theorem SpellsNumber.unique {t : List Char} {v w : PyValue} (h : SpellsNumber float t v)
    (h' : SpellsNumber float t w) : w = v := by
  have hmarked : ∀ {x : FloatValue}, SpellsFloat float t x → ∃ c ∈ t, c ∈ ".eENI".toList := by
    intro x hx
    rcases hx with ⟨hx, -⟩ | ⟨y, -, rfl⟩
    · have hsub : ∀ c ∈ ".eE".toList, c ∈ ".eENI".toList := List.all_iff_forall_prop.mp (by decide)
      exact (floatNumeral_marked hx).imp fun c hc => ⟨hc.1, hsub c hc.2⟩
    · have hsub : ∀ c ∈ "NI".toList, c ∈ ".eENI".toList := List.all_iff_forall_prop.mp (by decide)
      exact (nonFinite_text y).2.imp fun c hc => ⟨hc.1, hsub c hc.2⟩
  -- The mark of a float is in no integer, so the token is of one sort.
  have hclash : ∀ {x : FloatValue} {n : Int}, SpellsFloat float t x → ¬ SpellsInt t n := by
    intro x n hx hn
    obtain ⟨c, hc, hmark⟩ := hmarked hx
    exact digit_ne_mark (spellsInt_chars hn hc) hmark
  cases h with
  | int h =>
    cases h' with
    | int h' => rw [spellsInt_unique h h']
    | float h' => exact absurd h (hclash h')
  | float h =>
    cases h' with
    | int h' => exact absurd h' (hclash h)
    | float h' => rw [spellsFloat_unique h h']

/-! ## Values -/

/-- What the first character of a text announces. -/
def PyValue.shape : PyValue → Json.Shape
  | .null => .null
  | .bool true => .yes
  | .bool false => .no
  | .int _ | .float _ | .nonFinite _ => .number
  | .str _ | .other _ => .str
  | .list _ | .tuple _ => .arr
  | .dict _ => .obj

theorem shape_toValue (x : FloatValue) : x.toValue.shape = .number := by cases x <;> rfl

/-- The characters that a value starts with. -/
def StartChar (c : Char) : Prop := c.isDigit = true ∨ c ∈ "-NIntf\"[\x7b".toList

instance (c : Char) : Decidable (StartChar c) := inferInstanceAs (Decidable (_ ∨ _))

/-- Whitespace of the grammar. -/
def Blank (c : Char) : Prop := c = ' ' ∨ c = '\t' ∨ c = '\n' ∨ c = '\r'

instance (c : Char) : Decidable (Blank c) := inferInstanceAs (Decidable (_ ∨ _))

theorem StartChar.not_blank {c : Char} (h : StartChar c) : ¬ Blank c := by
  rintro (rfl | rfl | rfl | rfl) <;> exact absurd h (by decide)

/-- A number starts with a digit, a sign or the letter of a constant. -/
theorem SpellsNumber.head {t : List Char} {v : PyValue} (h : SpellsNumber float t v) :
    ∃ c cs, t = c :: cs ∧ StartChar c ∧ Json.shapeOfChar c = .number := by
  have hsigned : ∀ {negative : Bool} {ds us : List Char}, WholePart ds →
      ∃ c cs, minus negative ++ (ds ++ us) = c :: cs ∧ StartChar c ∧ Json.shapeOfChar c = .number := by
    rintro (_ | _) ds us ⟨⟨hne, hdigits⟩, -⟩
    · cases ds with
      | nil => exact absurd rfl hne
      | cons d ds =>
        have hd := hdigits d List.mem_cons_self
        exact ⟨d, ds ++ us, rfl, Or.inl hd, Json.shapeOfChar_number (Or.inl hd)⟩
    · exact ⟨'-', ds ++ us, rfl, by decide, rfl⟩
  cases h with
  | int h =>
    obtain ⟨negative, ds, hds, rfl, -⟩ := h
    rw [← List.append_nil ds]
    exact hsigned hds
  | float h =>
    rcases h with ⟨⟨negative, ds, fraction, exponent, hds, -, -, -, rfl⟩, -⟩ | ⟨y, -, rfl⟩
    · exact hsigned hds
    · cases y
      · exact ⟨'N', "aN".toList, rfl, by decide, rfl⟩
      · exact ⟨'I', "nfinity".toList, rfl, by decide, rfl⟩
      · exact ⟨'-', "Infinity".toList, rfl, by decide, rfl⟩

variable {t t' r r' : List Char} {v w : PyValue}

/-- The first character of a text announces the value. -/
theorem Reads.head (h : Reads float t (.value v)) :
    ∃ c cs, t = c :: cs ∧ StartChar c ∧ Json.shapeOfChar c = v.shape := by
  generalize hp : Parsed.value v = p at h
  cases h with
  | null =>
    cases hp
    exact ⟨'n', "ull".toList, rfl, by decide, rfl⟩
  | yes =>
    cases hp
    exact ⟨'t', "rue".toList, rfl, by decide, rfl⟩
  | no =>
    cases hp
    exact ⟨'f', "alse".toList, rfl, by decide, rfl⟩
  | int h =>
    cases hp
    exact (SpellsNumber.int h : SpellsNumber float t _).head
  | float h =>
    obtain rfl := Parsed.value.inj hp
    rw [shape_toValue]
    exact (SpellsNumber.float h).head
  | str h =>
    cases hp
    obtain ⟨body, str, -, rfl, -⟩ := h
    exact ⟨'"', _, rfl, by decide, rfl⟩
  | emptyList hw =>
    cases hp
    exact ⟨'[', _, rfl, by decide, rfl⟩
  | list h =>
    cases hp
    exact ⟨'[', _, rfl, by decide, rfl⟩
  | emptyDict hw =>
    cases hp
    exact ⟨'\x7b', _, rfl, by decide, rfl⟩
  | dict h =>
    cases hp
    exact ⟨'\x7b', _, rfl, by decide, rfl⟩
  | _ => cases hp

/-- Values that one text begins with have one shape. -/
theorem shape_eq_of_reads (h : Reads float t (.value v)) (h' : Reads float t' (.value w))
    (heq : t ++ r = t' ++ r') : w.shape = v.shape := by
  obtain ⟨c, cs, rfl, -, hc⟩ := h.head
  obtain ⟨d, ds, rfl, -, hd⟩ := h'.head
  rw [← hc, ← hd, (List.cons.inj heq).1]

/-- What the text of a value of each shape looks like. -/
theorem Reads.inversion (h : Reads float t (.value v)) :
    match v.shape with
    | .null => v = .null ∧ t = "null".toList
    | .yes => v = .bool true ∧ t = "true".toList
    | .no => v = .bool false ∧ t = "false".toList
    | .number => SpellsNumber float t v
    | .str => ∃ s, v = .str s ∧ SpellsStr t s
    | .arr => ∃ xs u, v = .list xs ∧ t = '[' :: (u ++ [']']) ∧
        ((Whitespace u ∧ xs = []) ∨ Reads float u (.elements xs))
    | .obj => ∃ kvs u, v = .dict (Dict.update [] kvs) ∧ t = '\x7b' :: (u ++ ['\x7d']) ∧
        ((Whitespace u ∧ kvs = []) ∨ Reads float u (.members kvs)) := by
  generalize hp : Parsed.value v = p at h
  cases h with
  | null =>
    cases hp
    exact ⟨rfl, rfl⟩
  | yes =>
    cases hp
    exact ⟨rfl, rfl⟩
  | no =>
    cases hp
    exact ⟨rfl, rfl⟩
  | int h =>
    cases hp
    exact .int h
  | float h =>
    obtain rfl := Parsed.value.inj hp
    rw [shape_toValue]
    exact .float h
  | str h =>
    cases hp
    exact ⟨_, rfl, h⟩
  | emptyList hw =>
    cases hp
    exact ⟨_, _, rfl, rfl, Or.inl ⟨hw, rfl⟩⟩
  | list h =>
    cases hp
    exact ⟨_, _, rfl, rfl, Or.inr h⟩
  | emptyDict hw =>
    cases hp
    exact ⟨[], _, rfl, rfl, Or.inl ⟨hw, rfl⟩⟩
  | dict h =>
    cases hp
    exact ⟨_, _, rfl, rfl, Or.inr h⟩
  | _ => cases hp

/-! ## Pieces of a text -/

namespace Parsed

/-- The sorts of pieces. -/
inductive Kind where
  | value | padded | elements | member | members

def kind : Parsed → Kind
  | .value _ => .value
  | .padded _ => .padded
  | .elements _ => .elements
  | .member _ => .member
  | .members _ => .members

/-- What a piece may be followed by. -/
def EndsAt (r : List Char) : Parsed → Prop
  | .value _ => EndsToken TokenChar r
  | .padded _ | .member _ => EndsToken (fun c => TokenChar c ∨ Blank c) r
  | .elements _ => r.head? = some ']'
  | .members _ => r.head? = some '\x7d'

end Parsed

theorem endsToken_cons {P : Char → Prop} {c : Char} (hc : ¬ P c) (cs : List Char) :
    EndsToken P (c :: cs) := by
  intro d hd
  rw [List.head?_cons, Option.mem_def, Option.some.injEq] at hd
  exact hd ▸ hc

theorem endsToken_of_head? {P : Char → Prop} {c : Char} (hc : ¬ P c) (hr : r.head? = some c) :
    EndsToken P r := by
  intro d hd
  rw [hr, Option.mem_def, Option.some.injEq] at hd
  exact hd ▸ hc

theorem EndsToken.mono {P Q : Char → Prop} (h : EndsToken P r) (hsub : ∀ c, Q c → P c) :
    EndsToken Q r := fun c hc hq => h c hc (hsub c hq)

/-- Whitespace ends where a value starts. -/
theorem Reads.endsToken_blank (h : Reads float t (.value v)) (r : List Char) :
    EndsToken Blank (t ++ r) := by
  obtain ⟨c, cs, rfl, hc, -⟩ := h.head
  exact endsToken_cons hc.not_blank _

/-- Behind its whitespace a list of elements starts with a value. -/
theorem Reads.elements_start {xs : List PyValue} (h : Reads float t (.elements xs)) :
    ∃ w c cs, Whitespace w ∧ StartChar c ∧ t = w ++ c :: cs := by
  have hpadded : ∀ {t : List Char} {v : PyValue}, Reads float t (.padded v) → ∀ u : List Char,
      ∃ w c cs, Whitespace w ∧ StartChar c ∧ t ++ u = w ++ c :: cs := by
    intro t v h u
    cases h with
    | @padded w w' t v hw hw' h =>
      obtain ⟨c, cs, rfl, hc, -⟩ := h.head
      exact ⟨w, c, cs ++ (w' ++ u), hw, hc, by simp⟩
  cases h with
  | element h =>
    rw [← List.append_nil t]
    exact hpadded h []
  | elements h hs => exact hpadded h _

theorem SpellsStr.head {s : PyText} (h : SpellsStr t s) : ∃ cs, t = '"' :: cs := by
  obtain ⟨body, str, -, rfl, -⟩ := h
  exact ⟨_, rfl⟩

/-- Behind its whitespace a list of members starts with a quote. -/
theorem Reads.members_start {kvs : List (PyText × PyValue)} (h : Reads float t (.members kvs)) :
    ∃ w c cs, Whitespace w ∧ StartChar c ∧ t = w ++ c :: cs := by
  have hmember : ∀ {t : List Char} {e : PyText × PyValue}, Reads float t (.member e) →
      ∀ u : List Char, ∃ w c cs, Whitespace w ∧ StartChar c ∧ t ++ u = w ++ c :: cs := by
    intro t e h u
    cases h with
    | @member w w' k t key v hw hw' hk h =>
      obtain ⟨cs, rfl⟩ := hk.head
      exact ⟨w, '"', cs ++ (w' ++ ':' :: (t ++ u)), hw, by decide, by simp⟩
  cases h with
  | lastMember h =>
    rw [← List.append_nil t]
    exact hmember h []
  | members h hs => exact hmember h _

/-- No bracket closes where a value starts. -/
theorem not_closed_of_start {u w cs : List Char} {c close : Char} (hclose : ¬ Blank close)
    (hstart : ¬ StartChar close) (hu : Whitespace u) (hw : Whitespace w) (hc : StartChar c) :
    u ++ close :: r ≠ (w ++ c :: cs) ++ r' := by
  intro heq
  rw [List.append_assoc, List.cons_append] at heq
  have hsame := (token_unique hu hw (endsToken_cons hclose r)
    (endsToken_cons hc.not_blank _) heq).2
  exact hstart ((List.cons.inj hsame).1 ▸ hc)

/-- A text that starts with a value of the shape spells a value of it. -/
theorem Reads.inversion_of_eq (h : Reads float t (.value v)) {p : Parsed} (hkind : p.kind = .value)
    (h' : Reads float t' p) (heq : t ++ r = t' ++ r') :
    ∃ w, p = .value w ∧ w.shape = v.shape ∧ Reads float t' (.value w) := by
  cases p with
  | value w => exact ⟨w, rfl, shape_eq_of_reads h h' heq, h'⟩
  | _ => cases hkind

variable (float) in
/-- The piece is read in one way, wherever it ends. -/
def ReadOnce (t : List Char) (p : Parsed) : Prop :=
  ∀ {p' : Parsed} {t' r r' : List Char}, Reads float t' p' → p'.kind = p.kind → p.EndsAt r →
    p'.EndsAt r' → t ++ r = t' ++ r' → p' = p ∧ r' = r

/-- Everything but arrays and objects. -/
theorem readOnce_scalar (h : Reads float t (.value v)) (harr : v.shape ≠ .arr)
    (hobj : v.shape ≠ .obj) : ReadOnce float t (.value v) := by
  intro p' t' r r' h' hkind hr hr' heq
  obtain ⟨w, rfl, hshape, h'⟩ := h.inversion_of_eq hkind h' heq
  have hinv := h.inversion
  have hinv' := h'.inversion
  rw [hshape] at hinv'
  generalize v.shape = shape at hinv hinv' harr hobj
  cases shape with
  | null =>
    obtain ⟨rfl, rfl⟩ := hinv
    obtain ⟨rfl, rfl⟩ := hinv'
    exact ⟨rfl, (List.append_cancel_left heq).symm⟩
  | yes =>
    obtain ⟨rfl, rfl⟩ := hinv
    obtain ⟨rfl, rfl⟩ := hinv'
    exact ⟨rfl, (List.append_cancel_left heq).symm⟩
  | no =>
    obtain ⟨rfl, rfl⟩ := hinv
    obtain ⟨rfl, rfl⟩ := hinv'
    exact ⟨rfl, (List.append_cancel_left heq).symm⟩
  | number =>
    obtain ⟨rfl, rfl⟩ := token_unique (SpellsNumber.chars hinv) (SpellsNumber.chars hinv') hr hr' heq
    exact ⟨by rw [SpellsNumber.unique hinv hinv'], rfl⟩
  | str =>
    obtain ⟨s, rfl, hs⟩ := hinv
    obtain ⟨s', rfl, hs'⟩ := hinv'
    obtain ⟨rfl, rfl⟩ := spellsStr_unique hs hs' heq
    exact ⟨rfl, rfl⟩
  | arr => exact absurd rfl harr
  | obj => exact absurd rfl hobj

/-- An array: blank, or elements that are read once. -/
theorem readOnce_list {xs : List PyValue} {u : List Char}
    (h : Reads float ('[' :: (u ++ [']'])) (.value (.list xs)))
    (hu : (Whitespace u ∧ xs = []) ∨
      Reads float u (.elements xs) ∧ ReadOnce float u (.elements xs)) :
    ReadOnce float ('[' :: (u ++ [']'])) (.value (.list xs)) := by
  intro p' t' r r' h' hkind hr hr' heq
  obtain ⟨w, rfl, hshape, h'⟩ := h.inversion_of_eq hkind h' heq
  have hinv := h'.inversion
  rw [hshape] at hinv
  obtain ⟨ys, u', rfl, rfl, hu'⟩ := hinv
  simp only [List.cons_append, List.append_assoc, List.nil_append, List.cons.injEq, true_and] at heq
  -- Blank or not, the readings agree: where an element starts, no bracket closes.
  rcases hu with ⟨hblank, rfl⟩ | ⟨hread, honce⟩ <;> rcases hu' with ⟨hblank', rfl⟩ | hread'
  · have hsame := (token_unique hblank hblank' (endsToken_cons (by decide) r)
      (endsToken_cons (by decide) r') heq).2
    exact ⟨rfl, (List.cons.inj hsame).2.symm⟩
  · obtain ⟨w, c, cs, hw, hc, rfl⟩ := hread'.elements_start
    exact absurd heq (not_closed_of_start (by decide) (by decide) hblank hw hc)
  · obtain ⟨w, c, cs, hw, hc, rfl⟩ := hread.elements_start
    exact absurd heq.symm (not_closed_of_start (by decide) (by decide) hblank' hw hc)
  · have hclose : ∀ zs s, (Parsed.elements zs).EndsAt (']' :: s) := fun _ _ => rfl
    obtain ⟨hsame, hrest⟩ := honce hread' rfl (hclose xs r) (hclose ys r') heq
    cases hsame
    exact ⟨rfl, (List.cons.inj hrest).2⟩

/-- An object: blank, or members that are read once. -/
theorem readOnce_dict {kvs : List (PyText × PyValue)} {u : List Char}
    (h : Reads float ('\x7b' :: (u ++ ['\x7d'])) (.value (.dict (Dict.update [] kvs))))
    (hu : (Whitespace u ∧ kvs = []) ∨
      Reads float u (.members kvs) ∧ ReadOnce float u (.members kvs)) :
    ReadOnce float ('\x7b' :: (u ++ ['\x7d'])) (.value (.dict (Dict.update [] kvs))) := by
  intro p' t' r r' h' hkind hr hr' heq
  obtain ⟨w, rfl, hshape, h'⟩ := h.inversion_of_eq hkind h' heq
  have hinv := h'.inversion
  rw [hshape] at hinv
  obtain ⟨kvs', u', rfl, rfl, hu'⟩ := hinv
  simp only [List.cons_append, List.append_assoc, List.nil_append, List.cons.injEq, true_and] at heq
  -- The same for members.
  rcases hu with ⟨hblank, rfl⟩ | ⟨hread, honce⟩ <;> rcases hu' with ⟨hblank', rfl⟩ | hread'
  · have hsame := (token_unique hblank hblank' (endsToken_cons (by decide) r)
      (endsToken_cons (by decide) r') heq).2
    exact ⟨rfl, (List.cons.inj hsame).2.symm⟩
  · obtain ⟨w, c, cs, hw, hc, rfl⟩ := hread'.members_start
    exact absurd heq (not_closed_of_start (by decide) (by decide) hblank hw hc)
  · obtain ⟨w, c, cs, hw, hc, rfl⟩ := hread.members_start
    exact absurd heq.symm (not_closed_of_start (by decide) (by decide) hblank' hw hc)
  · have hclose : ∀ es s, (Parsed.members es).EndsAt ('\x7d' :: s) := fun _ _ => rfl
    obtain ⟨hsame, hrest⟩ := honce hread' rfl (hclose kvs r) (hclose kvs' r') heq
    cases hsame
    exact ⟨rfl, (List.cons.inj hrest).2⟩

/-- Whitespace ends where the value starts, and again behind the value. -/
theorem readOnce_padded {u u' : List Char} (hu : Whitespace u) (hu' : Whitespace u')
    (h : Reads float t (.value v)) (honce : ReadOnce float t (.value v)) :
    ReadOnce float (u ++ (t ++ u')) (.padded v) := by
  intro p' t' r r' h' hkind hr hr' heq
  have hends : ∀ {u r : List Char}, Whitespace u →
      EndsToken (fun c => TokenChar c ∨ Blank c) r → EndsToken TokenChar (u ++ r) := by
    intro u r hu hr
    cases u with
    | nil => exact EndsToken.mono hr fun _ h => Or.inl h
    | cons c u =>
      refine endsToken_cons ?_ _
      rcases hu c List.mem_cons_self with rfl | rfl | rfl | rfl <;> decide
  cases h' with
  | padded hw hw' h' =>
    simp only [List.append_assoc] at heq
    obtain ⟨rfl, hrest⟩ := token_unique hu hw (h.endsToken_blank _) (h'.endsToken_blank _) heq
    obtain ⟨hsame, hrest⟩ := honce h' rfl (hends hu' hr) (hends hw' hr') hrest
    cases hsame
    have hblank : ∀ c, Blank c → TokenChar c ∨ Blank c := fun _ => Or.inr
    exact ⟨rfl, (token_unique hw' hu' (EndsToken.mono hr' hblank) (EndsToken.mono hr hblank) hrest).2⟩
  | _ => cases hkind

theorem endsAt_padded_of_head? {c : Char} (hc : ¬ (TokenChar c ∨ Blank c)) (hr : r.head? = some c) :
    (Parsed.padded v).EndsAt r := endsToken_of_head? hc hr

/-- The last element: no comma follows it. -/
theorem readOnce_element (honce : ReadOnce float t (.padded v)) :
    ReadOnce float t (.elements [v]) := by
  intro p' t' r r' h' hkind hr hr' heq
  have hend := endsAt_padded_of_head? (v := v) (by decide) hr
  cases h' with
  | element h' =>
    obtain ⟨hsame, hrest⟩ := honce h' rfl hend (endsAt_padded_of_head? (v := v) (by decide) hr') heq
    cases hsame
    exact ⟨rfl, hrest⟩
  | elements h' hs' =>
    simp only [List.append_assoc, List.cons_append] at heq
    obtain ⟨-, rfl⟩ := honce h' rfl hend (endsToken_cons (by decide) _) heq
    cases hr
  | _ => cases hkind

/-- An element and those behind it: the comma tells that there are more. -/
theorem readOnce_elements {u : List Char} {xs : List PyValue} (honce : ReadOnce float t (.padded v))
    (honces : ReadOnce float u (.elements xs)) : ReadOnce float (t ++ ',' :: u) (.elements (v :: xs)) := by
  intro p' t' r r' h' hkind hr hr' heq
  simp only [List.append_assoc, List.cons_append] at heq
  cases h' with
  | element h' =>
    obtain ⟨-, rfl⟩ := honce h' rfl (endsToken_cons (by decide) _)
      (endsAt_padded_of_head? (v := v) (by decide) hr') heq
    cases hr'
  | elements h' hs' =>
    simp only [List.append_assoc, List.cons_append] at heq
    obtain ⟨hsame, hrest⟩ := honce h' rfl (endsToken_cons (by decide) _)
      (endsToken_cons (by decide) _) heq
    cases hsame
    obtain ⟨hsame, hrest⟩ := honces hs' rfl hr hr' (List.cons.inj hrest).2.symm
    cases hsame
    exact ⟨rfl, hrest⟩
  | _ => cases hkind

/-- A member: the key ends at its quote, the colon is found, the value is read once. -/
theorem readOnce_member {u u' k : List Char} {key : PyText} (hu : Whitespace u)
    (hu' : Whitespace u') (hk : SpellsStr k key) (honce : ReadOnce float t (.padded v)) :
    ReadOnce float (u ++ (k ++ (u' ++ ':' :: t))) (.member (key, v)) := by
  intro p' t' r r' h' hkind hr hr' heq
  have hquote : ∀ {k : List Char} {key : PyText}, SpellsStr k key → ∀ r : List Char,
      EndsToken Blank (k ++ r) := by
    intro k key hk r
    obtain ⟨cs, rfl⟩ := hk.head
    exact endsToken_cons (by decide) _
  cases h' with
  | member hw hw' hk' h' =>
    simp only [List.append_assoc, List.cons_append] at heq
    obtain ⟨rfl, hrest⟩ := token_unique hu hw (hquote hk _) (hquote hk' _) heq
    obtain ⟨rfl, hrest⟩ := spellsStr_unique hk hk' hrest
    have hcolon := (token_unique hu' hw' (endsToken_cons (by decide) _)
      (endsToken_cons (by decide) _) hrest.symm).2
    obtain ⟨hsame, hrest⟩ := honce h' rfl hr hr' (List.cons.inj hcolon).2
    cases hsame
    exact ⟨rfl, hrest⟩
  | _ => cases hkind

theorem endsAt_member_of_head? {e : PyText × PyValue} {c : Char} (hc : ¬ (TokenChar c ∨ Blank c))
    (hr : r.head? = some c) : (Parsed.member e).EndsAt r := endsToken_of_head? hc hr

/-- The last member: no comma follows it. -/
theorem readOnce_lastMember {e : PyText × PyValue} (honce : ReadOnce float t (.member e)) :
    ReadOnce float t (.members [e]) := by
  intro p' t' r r' h' hkind hr hr' heq
  have hend := endsAt_member_of_head? (e := e) (by decide) hr
  cases h' with
  | lastMember h' =>
    obtain ⟨hsame, hrest⟩ := honce h' rfl hend (endsAt_member_of_head? (e := e) (by decide) hr') heq
    cases hsame
    exact ⟨rfl, hrest⟩
  | members h' hs' =>
    simp only [List.append_assoc, List.cons_append] at heq
    obtain ⟨-, rfl⟩ := honce h' rfl hend (endsToken_cons (by decide) _) heq
    cases hr
  | _ => cases hkind

/-- A member and those behind it. -/
theorem readOnce_members {u : List Char} {e : PyText × PyValue} {kvs : List (PyText × PyValue)}
    (honce : ReadOnce float t (.member e)) (honces : ReadOnce float u (.members kvs)) :
    ReadOnce float (t ++ ',' :: u) (.members (e :: kvs)) := by
  intro p' t' r r' h' hkind hr hr' heq
  simp only [List.append_assoc, List.cons_append] at heq
  cases h' with
  | lastMember h' =>
    obtain ⟨-, rfl⟩ := honce h' rfl (endsToken_cons (by decide) _)
      (endsAt_member_of_head? (e := e) (by decide) hr') heq
    cases hr'
  | members h' hs' =>
    simp only [List.append_assoc, List.cons_append] at heq
    obtain ⟨hsame, hrest⟩ := honce h' rfl (endsToken_cons (by decide) _)
      (endsToken_cons (by decide) _) heq
    cases hsame
    obtain ⟨hsame, hrest⟩ := honces hs' rfl hr hr' (List.cons.inj hrest).2.symm
    cases hsame
    exact ⟨rfl, hrest⟩
  | _ => cases hkind

/-- **Every piece of a text is read in one way**, wherever it ends. -/
theorem readOnce_of_reads {p : Parsed} (h : Reads float t p) : ReadOnce float t p := by
  induction h with
  | null => exact readOnce_scalar .null (by decide) (by decide)
  | yes => exact readOnce_scalar .yes (by decide) (by decide)
  | no => exact readOnce_scalar .no (by decide) (by decide)
  | int h => exact readOnce_scalar (.int h) (by simp [PyValue.shape]) (by simp [PyValue.shape])
  | float h =>
    exact readOnce_scalar (.float h) (by simp [shape_toValue]) (by simp [shape_toValue])
  | str h => exact readOnce_scalar (.str h) (by simp [PyValue.shape]) (by simp [PyValue.shape])
  | emptyList hw => exact readOnce_list (.emptyList hw) (Or.inl ⟨hw, rfl⟩)
  | list h ih => exact readOnce_list (.list h) (Or.inr ⟨h, ih⟩)
  | emptyDict hw => exact readOnce_dict (.emptyDict hw) (Or.inl ⟨hw, rfl⟩)
  | dict h ih => exact readOnce_dict (.dict h) (Or.inr ⟨h, ih⟩)
  | padded hw hw' h ih => exact readOnce_padded hw hw' h ih
  | element h ih => exact readOnce_element ih
  | elements h hs ih ihs => exact readOnce_elements ih ihs
  | member hw hw' hk h ih => exact readOnce_member hw hw' hk ih
  | lastMember h ih => exact readOnce_lastMember ih
  | members h hs ih ihs => exact readOnce_members ih ihs

/-- No text starts with the mark that `json.loads` skips. -/
theorem Reads.unmarked (h : Reads float ('\ufeff' :: t) (.padded v)) : False := by
  generalize hu : '\ufeff' :: t = u at h
  cases h with
  | @padded w w' t' v hw hw' h =>
    obtain ⟨c, cs, rfl, hc, -⟩ := h.head
    cases w with
    | nil =>
      rw [(List.cons.inj hu).1.symm] at hc
      exact absurd hc (by decide)
    | cons b w =>
      rw [(List.cons.inj hu).1.symm] at hw
      exact absurd (hw _ List.mem_cons_self) (by decide)

/-- **A text is read as one value.** -/
theorem loads_unique (h : Loads float t v) (h' : Loads float t w) : w = v := by
  obtain ⟨mark, u, hmark, hread, rfl⟩ := h
  obtain ⟨mark', u', hmark', hread', heq⟩ := h'
  have hbody : u = u' := by
    rcases hmark with rfl | rfl <;> rcases hmark' with rfl | rfl
    · exact heq
    · have hmarked : u = '\ufeff' :: u' := heq
      rw [hmarked] at hread
      exact hread.unmarked.elim
    · have hmarked : u' = '\ufeff' :: u := heq.symm
      rw [hmarked] at hread'
      exact hread'.unmarked.elim
    · exact (List.cons.inj heq).2
  subst hbody
  have hend : EndsToken (fun c => TokenChar c ∨ Blank c) [] := fun c hc => by cases hc
  have hsame := (readOnce_of_reads hread hread' rfl hend hend rfl).1
  cases hsame
  rfl

end Grammar

end AuditLog
