import AuditLog.Library.Decoding
import AuditLog.Python.Json

/-!
# `json.dumps(value, separators=(",", ":"), ensure_ascii=True)`

The text of a JSON value with compact separators, every character outside the
printable ASCII range escaped. The main result is that the text can be read
back: in front of anything that does not continue a number, the text of a value
is the text of no other value.
-/

namespace AuditLog

open Decoding

/-! ## Strings -/

/-- A UTF-16 code unit, which is what one `\u` escape writes. -/
abbrev CodeUnit := Fin 0x10000

/-- The code units of a code point: a surrogate pair above `0xffff`. -/
def utf16 (c : CodePoint) : List CodeUnit :=
  if h : c.val < 0x10000 then [⟨c.val, h⟩]
  else
    [⟨0xd800 + (c.val - 0x10000) / 0x400, by omega⟩,
      ⟨0xdc00 + (c.val - 0x10000) % 0x400, by omega⟩]

/-- The two-character escapes: code unit and character behind the backslash. -/
def shortEscapes : List (Nat × Char) :=
  [(0x5c, '\\'), (0x22, '"'), (0x08, 'b'), (0x0c, 'f'), (0x0a, 'n'), (0x0d, 'r'), (0x09, 't')]

def shortEscape (u : CodeUnit) : Option Char := Dict.get shortEscapes u.val

/-- Four lower-case hexadecimal digits. -/
def hex4 (u : CodeUnit) : List Char :=
  [Nat.digitChar (u.val / 0x1000), Nat.digitChar (u.val / 0x100 % 0x10),
    Nat.digitChar (u.val / 0x10 % 0x10), Nat.digitChar (u.val % 0x10)]

/-- A code unit inside a string literal. -/
def escapeUnit (u : CodeUnit) : List Char :=
  match shortEscape u with
  | some c => ['\\', c]
  | none =>
    if 0x20 ≤ u.val ∧ u.val ≤ 0x7e then [Char.ofNat u.val] else '\\' :: 'u' :: hex4 u

/-- A string literal. -/
def strText (s : PyStr) : List Char :=
  '"' :: ((s.codePoints.flatMap utf16).flatMap escapeUnit ++ ['"'])

theorem hex4_injective : Function.Injective hex4 := by
  have hdigit : ∀ a b : Fin 16, Nat.digitChar a.val = Nat.digitChar b.val → a = b := by decide
  have hdigit' : ∀ a b : Nat, a < 16 → b < 16 → Nat.digitChar a = Nat.digitChar b → a = b := by
    intro a b ha hb h
    exact congrArg Fin.val (hdigit ⟨a, ha⟩ ⟨b, hb⟩ h)
  intro u v h
  simp only [hex4, List.cons.injEq, and_true] at h
  rcases h with ⟨h3, h2, h1, h0⟩
  have h3' := hdigit' _ _ (by omega) (by omega) h3
  have h2' := hdigit' _ _ (by omega) (by omega) h2
  have h1' := hdigit' _ _ (by omega) (by omega) h1
  have h0' := hdigit' _ _ (by omega) (by omega) h0
  exact Fin.ext (by omega)

theorem shortEscape_inj {u v : CodeUnit} {c : Char} (hu : shortEscape u = some c)
    (hv : shortEscape v = some c) : u = v := by
  have htable : ∀ e ∈ shortEscapes, ∀ f ∈ shortEscapes, e.2 = f.2 → e.1 = f.1 := by decide
  exact Fin.ext (htable _ (Dict.mem_of_get hu) _ (Dict.mem_of_get hv) rfl)

theorem shortEscape_ne_u (u : CodeUnit) : shortEscape u ≠ some 'u' := by
  intro hu
  have htable : ∀ e ∈ shortEscapes, e.2 ≠ 'u' := by decide
  exact htable _ (Dict.mem_of_get hu) rfl

/-- Printable code units are the values of their characters. -/
theorem printable_toNat {u : CodeUnit} (h : 0x20 ≤ u.val ∧ u.val ≤ 0x7e) :
    (Char.ofNat u.val).toNat = u.val := by
  have hascii : ∀ n : Fin 0x80, (Char.ofNat n.val).toNat = n.val := by decide
  exact hascii ⟨u.val, by omega⟩

/-- A literal character is neither a backslash nor a quote: those have short escapes. -/
theorem literal_ne {u : CodeUnit} (hs : shortEscape u = none)
    (hp : 0x20 ≤ u.val ∧ u.val ≤ 0x7e) {c : Char} (hc : c = '\\' ∨ c = '"') :
    Char.ofNat u.val ≠ c := by
  intro h
  have hval : c.toNat = u.val := by rw [← h, printable_toNat hp]
  rw [shortEscape, Dict.get_eq_none_iff] at hs
  apply hs
  rw [← hval]
  rcases hc with rfl | rfl <;> decide

/-- Escaped code units form a prefix code. -/
theorem escapeUnit_prefixCode : PrefixCode escapeUnit := by
  intro u v r s _ _ h
  unfold escapeUnit at h
  -- Three kinds of escapes: the short ones start with a backslash, a literal character
  -- does not, and `u` behind the backslash is no short escape.
  cases hu : shortEscape u with
  | some c =>
    cases hv : shortEscape v with
    | some d =>
      simp only [hu, hv, List.cons_append, List.nil_append, List.cons.injEq, true_and] at h
      rcases h with ⟨rfl, rfl⟩
      exact ⟨shortEscape_inj hu hv, rfl⟩
    | none =>
      simp only [hu, hv] at h
      split at h
      · rename_i hp
        exact absurd (List.cons.inj h).1.symm (literal_ne hv hp (Or.inl rfl))
      · have hc : c = 'u' := (List.cons.inj (List.cons.inj h).2).1
        exact absurd (hc ▸ hu) (shortEscape_ne_u u)
  | none =>
    cases hv : shortEscape v with
    | some d =>
      simp only [hu, hv] at h
      split at h
      · rename_i hp
        exact absurd (List.cons.inj h).1 (literal_ne hu hp (Or.inl rfl))
      · have hd : 'u' = d := (List.cons.inj (List.cons.inj h).2).1
        exact absurd (hd ▸ hv) (shortEscape_ne_u v)
    | none =>
      simp only [hu, hv] at h
      split at h <;> split at h
      · rename_i hp hq
        rcases List.cons.inj h with ⟨hchar, hrest⟩
        refine ⟨Fin.ext ?_, hrest⟩
        rw [← printable_toNat hp, hchar, printable_toNat hq]
      · rename_i hp _
        exact absurd (List.cons.inj h).1 (literal_ne hu hp (Or.inl rfl))
      · rename_i _ hq
        exact absurd (List.cons.inj h).1.symm (literal_ne hv hq (Or.inl rfl))
      · have hhex := (List.cons.inj (List.cons.inj h).2).2
        rcases List.append_inj hhex rfl with ⟨huv, hrest⟩
        exact ⟨hex4_injective huv, hrest⟩

theorem escapeUnit_ne_nil (u : CodeUnit) : escapeUnit u ≠ [] := by
  unfold escapeUnit
  split
  · exact List.cons_ne_nil _ _
  · split <;> exact List.cons_ne_nil _ _

/-- No escaped code unit starts with the closing quote. -/
theorem escapeUnit_head (u : CodeUnit) : (escapeUnit u).head? ≠ some '"' := by
  unfold escapeUnit
  cases hu : shortEscape u with
  | some c => simp
  | none =>
    simp only
    split
    · rename_i hp
      simpa using literal_ne hu hp (Or.inr rfl)
    · simp

/-- The code units of a string without split pairs determine the string. -/
theorem utf16_injective {cs ds : List CodePoint} (hcs : cs.IsChain Unsplit)
    (hds : ds.IsChain Unsplit) (h : cs.flatMap utf16 = ds.flatMap utf16) : cs = ds := by
  -- A character of the basic plane cannot stand where the other string has a pair:
  -- it would be the pair's high surrogate, directly followed by its low one.
  have hclash : ∀ (c d : CodePoint) (cs : List CodePoint) (us : List CodeUnit),
      (c :: cs).IsChain Unsplit → c.val < 0x10000 → ¬ d.val < 0x10000 →
      utf16 c ++ cs.flatMap utf16 ≠ utf16 d ++ us := by
    intro c d cs us hchain hc hd heq
    simp only [utf16, dif_pos hc, dif_neg hd, List.cons_append, List.nil_append,
      List.cons.injEq, Fin.mk.injEq] at heq
    rcases heq with ⟨hhigh, hrest⟩
    cases cs with
    | nil => simp at hrest
    | cons e es =>
      rw [List.isChain_cons_cons] at hchain
      rw [List.flatMap_cons] at hrest
      by_cases he : e.val < 0x10000
      · simp only [utf16, dif_pos he, List.cons_append, List.nil_append, List.cons.injEq,
          Fin.mk.injEq] at hrest
        apply hchain.1
        unfold CodePoint.IsHighSurrogate CodePoint.IsLowSurrogate
        omega
      · simp only [utf16, dif_neg he, List.cons_append, List.nil_append, List.cons.injEq,
          Fin.mk.injEq] at hrest
        omega
  induction cs generalizing ds with
  | nil =>
    cases ds with
    | nil => rfl
    | cons d ds =>
      exfalso
      rw [List.flatMap_nil, List.flatMap_cons] at h
      unfold utf16 at h
      split at h <;> simp at h
  | cons c cs ih =>
    cases ds with
    | nil =>
      exfalso
      rw [List.flatMap_nil, List.flatMap_cons] at h
      unfold utf16 at h
      split at h <;> simp at h
    | cons d ds =>
      rw [List.flatMap_cons, List.flatMap_cons] at h
      by_cases hc : c.val < 0x10000 <;> by_cases hd : d.val < 0x10000
      · simp only [utf16, dif_pos hc, dif_pos hd, List.cons_append, List.nil_append,
          List.cons.injEq, Fin.mk.injEq] at h
        rw [Fin.ext h.1, ih hcs.of_cons hds.of_cons h.2]
      · exact absurd h (hclash c d cs _ hcs hc hd)
      · exact absurd h.symm (hclash d c ds _ hds hd hc)
      · simp only [utf16, dif_neg hc, dif_neg hd, List.cons_append, List.nil_append,
          List.cons.injEq, Fin.mk.injEq] at h
        have hval : c.val = d.val := by omega
        rw [Fin.ext hval, ih hcs.of_cons hds.of_cons h.2.2]

/-- String literals can be read back. -/
theorem strText_prefixCode : PrefixCode strText := by
  intro s t r r' _ _ h
  unfold strText at h
  simp only [List.cons_append, List.append_assoc, List.nil_append, List.cons.injEq,
    true_and] at h
  rcases flatMap_terminated escapeUnit_prefixCode escapeUnit_ne_nil escapeUnit_head h with
    ⟨hunits, hrest⟩
  exact ⟨PyStr.ext (utf16_injective s.unsplit t.unsplit hunits), hrest⟩

/-! ## Values -/

namespace Json

mutual
/-- `json.dumps` with compact separators and `ensure_ascii`. -/
def dumps : Json → List Char
  | .null => "null".toList
  | .bool true => "true".toList
  | .bool false => "false".toList
  | .int n => intText n
  | .float x => x.repr
  | .str s => strText s
  | .arr xs => '[' :: separated id ',' ']' (dumpsList xs)
  | .obj kvs => '{' :: separated id ',' '}' (dumpsMembers kvs)

def dumpsList : List Json → List (List Char)
  | [] => []
  | x :: xs => dumps x :: dumpsList xs

def dumpsMembers : List (PyStr × Json) → List (List Char)
  | [] => []
  | (k, v) :: kvs => (strText k ++ ':' :: dumps v) :: dumpsMembers kvs
end

def memberText (e : PyStr × Json) : List Char := strText e.1 ++ ':' :: dumps e.2

theorem dumpsList_eq (xs : List Json) : dumpsList xs = xs.map dumps := by
  induction xs with
  | nil => rfl
  | cons x xs ih => simp [dumpsList, ih]

theorem dumpsMembers_eq (kvs : List (PyStr × Json)) : dumpsMembers kvs = kvs.map memberText := by
  induction kvs with
  | nil => rfl
  | cons e kvs ih =>
    rcases e with ⟨k, v⟩
    simp [dumpsMembers, memberText, ih]

/-! ### Reading a value back -/

/-- What the first character of a text announces. -/
inductive Shape where
  | null | yes | no | number | str | arr | obj
deriving DecidableEq

def shape : Json → Shape
  | .null => .null
  | .bool true => .yes
  | .bool false => .no
  | .int _ => .number
  | .float _ => .number
  | .str _ => .str
  | .arr _ => .arr
  | .obj _ => .obj

def shapeOfChar (c : Char) : Shape :=
  if c = 'n' then .null
  else if c = 't' then .yes
  else if c = 'f' then .no
  else if c = '"' then .str
  else if c = '[' then .arr
  else if c = '\x7b' then .obj
  else .number

theorem shapeOfChar_number {c : Char} (h : NumberChar c) : shapeOfChar c = .number := by
  unfold shapeOfChar
  rcases h with h | rfl | rfl | rfl | rfl
  · have hne : ∀ d : Char, d.isDigit = false → c ≠ d := by
      intro d hd heq
      rw [heq, hd] at h
      exact Bool.false_ne_true h
    simp [hne _ (show ('n').isDigit = false by decide), hne _ (show ('t').isDigit = false by decide),
      hne _ (show ('f').isDigit = false by decide), hne _ (show ('"').isDigit = false by decide),
      hne _ (show ('[').isDigit = false by decide), hne _ (show ('\x7b').isDigit = false by decide)]
  all_goals decide

/-- A text is not empty, and its first character announces the shape of the value. -/
theorem dumps_head (j : Json) : ∃ c cs, j.dumps = c :: cs ∧ shapeOfChar c = j.shape := by
  have hnumber : ∀ cs : List Char, cs ≠ [] → (∀ c ∈ cs, NumberChar c) →
      ∃ c cs', cs = c :: cs' ∧ shapeOfChar c = .number := by
    intro cs hne hchars
    cases cs with
    | nil => exact absurd rfl hne
    | cons c cs => exact ⟨c, cs, rfl, shapeOfChar_number (hchars c List.mem_cons_self)⟩
  cases j with
  | null => exact ⟨'n', "ull".toList, by decide⟩
  | bool b =>
    cases b with
    | true => exact ⟨'t', "rue".toList, by decide⟩
    | false => exact ⟨'f', "alse".toList, by decide⟩
  | int n =>
    refine hnumber (intText n) (intText_ne_nil n) ?_
    intro c hc
    rcases intText_chars hc with h | h
    · exact Or.inl h
    · exact Or.inr (Or.inl h)
  | float x => exact hnumber x.repr x.repr_ne_nil fun c hc => PyFloat.repr_chars hc
  | str s => exact ⟨'"', _, rfl, rfl⟩
  | arr xs => exact ⟨'[', _, rfl, rfl⟩
  | obj kvs => exact ⟨'\x7b', _, rfl, rfl⟩

theorem shape_eq_of_dumps {a b : Json} {r s : List Char} (h : a.dumps ++ r = b.dumps ++ s) :
    a.shape = b.shape := by
  rcases dumps_head a with ⟨c, cs, ha, hca⟩
  rcases dumps_head b with ⟨d, ds, hb, hdb⟩
  rw [ha, hb] at h
  rw [← hca, ← hdb, (List.cons.inj h).1]

/-- What a value's text may be followed by. -/
abbrev EndsValue : List Char → Prop := EndsToken NumberChar

theorem endsValue_cons {c : Char} (hc : ¬ NumberChar c) (cs : List Char) : EndsValue (c :: cs) := by
  intro d hd
  rw [List.head?_cons, Option.mem_def, Option.some.injEq] at hd
  exact hd ▸ hc

theorem intText_numberChar {n : Int} {c : Char} (h : c ∈ intText n) : NumberChar c := by
  rcases intText_chars h with h | h
  · exact Or.inl h
  · exact Or.inr (Or.inl h)

theorem dumps_ne_nil (j : Json) : j.dumps ≠ [] := by
  rcases dumps_head j with ⟨c, cs, h, -⟩
  rw [h]
  exact List.cons_ne_nil _ _

/-- No value's text starts with a closing bracket. -/
theorem dumps_head_ne (j : Json) : j.dumps.head? ≠ some ']' := by
  intro h
  rcases dumps_head j with ⟨c, cs, hj, hc⟩
  rw [hj, List.head?_cons, Option.some.injEq] at h
  subst h
  -- Only a number could: no other character announces this shape.
  cases j with
  | int n =>
    have hmem : ']' ∈ intText n := by
      have hj' : intText n = ']' :: cs := hj
      rw [hj']
      exact List.mem_cons_self
    exact absurd (intText_numberChar hmem) (by decide)
  | float x =>
    have hmem : ']' ∈ x.repr := by
      have hj' : x.repr = ']' :: cs := hj
      rw [hj']
      exact List.mem_cons_self
    exact absurd (PyFloat.repr_chars hmem) (by decide)
  | bool b => cases b <;> exact absurd hc (by decide)
  | null => exact absurd hc (by decide)
  | str s => exact Shape.noConfusion hc
  | arr xs => exact Shape.noConfusion hc
  | obj kvs => exact Shape.noConfusion hc

theorem separated_id {α : Type*} (enc : α → List Char) (sep close : Char) (xs : List α) :
    separated id sep close (xs.map enc) = separated enc sep close xs := by
  have htail : ∀ ys : List α,
      separatedTail id sep close (ys.map enc) = separatedTail enc sep close ys := by
    intro ys
    induction ys with
    | nil => rfl
    | cons y ys ih => simp [separatedTail, ih]
  cases xs with
  | nil => rfl
  | cons x xs => simp [separated, htail]

/-- A member is readable when its value is. -/
theorem memberText_readable {e : PyStr × Json} (h : ReadableAt dumps EndsValue e.2) :
    ReadableAt memberText EndsValue e := by
  rintro ⟨k', v'⟩ r s hr hs heq
  rcases e with ⟨k, v⟩
  simp only [memberText, List.append_assoc, List.cons_append] at heq
  rcases strText_prefixCode k k' _ _ trivial trivial heq with ⟨hk, hrest⟩
  rcases h v' r s hr hs (List.cons.inj hrest).2 with ⟨hv, hrs⟩
  have hv' : v = v' := hv
  exact ⟨by rw [hk, hv'], hrs⟩

mutual
/-- The text of a value can be read back wherever no number goes on. -/
theorem dumps_readable : ∀ a : Json, ReadableAt dumps EndsValue a
  | .null => by
    intro b r s _ _ h
    have hshape := shape_eq_of_dumps h
    cases b with
    | null => exact ⟨rfl, List.append_cancel_left h⟩
    | bool b => cases b <;> simp [shape] at hshape
    | _ => simp [shape] at hshape
  | .bool v => by
    intro b r s _ _ h
    have hshape := shape_eq_of_dumps h
    cases b with
    | bool w => cases v <;> cases w <;> simp [shape] at hshape <;>
        exact ⟨rfl, List.append_cancel_left h⟩
    | _ => cases v <;> simp [shape] at hshape
  | .int n => by
    intro b r s hr hs h
    -- The shape leaves ints and floats; a float has a point or an exponent.
    have hshape := shape_eq_of_dumps h
    cases b with
    | int m =>
      simp only [dumps] at h
      rcases token_unique (fun _ => intText_numberChar) (fun _ => intText_numberChar) hr hs h with
        ⟨htext, hrs⟩
      exact ⟨by rw [intText_injective htext], hrs⟩
    | float x =>
      simp only [dumps] at h
      rcases token_unique (fun _ => intText_numberChar) (fun _ => PyFloat.repr_chars) hr hs h with
        ⟨htext, -⟩
      exact absurd htext.symm (x.repr_ne_intText n)
    | bool b => cases b <;> simp [shape] at hshape
    | _ => simp [shape] at hshape
  | .float x => by
    intro b r s hr hs h
    have hshape := shape_eq_of_dumps h
    cases b with
    | int m =>
      simp only [dumps] at h
      rcases token_unique (fun _ => PyFloat.repr_chars) (fun _ => intText_numberChar) hr hs h with
        ⟨htext, -⟩
      exact absurd htext (x.repr_ne_intText m)
    | float y =>
      simp only [dumps] at h
      rcases token_unique (fun _ => PyFloat.repr_chars) (fun _ => PyFloat.repr_chars) hr hs h with
        ⟨htext, hrs⟩
      exact ⟨by rw [PyFloat.repr_injective htext], hrs⟩
    | bool b => cases b <;> simp [shape] at hshape
    | _ => simp [shape] at hshape
  | .str t => by
    intro b r s _ _ h
    have hshape := shape_eq_of_dumps h
    cases b with
    | str u =>
      simp only [dumps] at h
      rcases strText_prefixCode t u r s trivial trivial h with ⟨htu, hrs⟩
      exact ⟨by rw [htu], hrs⟩
    | bool b => cases b <;> simp [shape] at hshape
    | _ => simp [shape] at hshape
  | .arr xs => by
    intro b r s _ _ h
    have hshape := shape_eq_of_dumps h
    cases b with
    | arr ys =>
      simp only [dumps, dumpsList_eq, separated_id, List.cons_append, List.cons.injEq,
        true_and] at h
      rcases separated_unique (by decide) (endsValue_cons (by decide)) (endsValue_cons (by decide))
        dumps_ne_nil dumps_head_ne (dumpsList_readable xs) h with ⟨hxs, hrs⟩
      exact ⟨by rw [hxs], hrs⟩
    | bool b => cases b <;> simp [shape] at hshape
    | _ => simp [shape] at hshape
  | .obj kvs => by
    intro b r s _ _ h
    have hshape := shape_eq_of_dumps h
    cases b with
    | obj kvs' =>
      simp only [dumps, dumpsMembers_eq, separated_id, List.cons_append, List.cons.injEq,
        true_and] at h
      rcases separated_unique (by decide) (endsValue_cons (by decide)) (endsValue_cons (by decide))
        (fun e => by simp [memberText, strText]) (fun e => by simp [memberText, strText])
        (fun e he => memberText_readable (dumpsMembers_readable kvs e he)) h with ⟨hkvs, hrs⟩
      exact ⟨by rw [hkvs], hrs⟩
    | bool b => cases b <;> simp [shape] at hshape
    | _ => simp [shape] at hshape

theorem dumpsList_readable : ∀ xs : List Json, ∀ x ∈ xs, ReadableAt dumps EndsValue x
  | [], x, hx => absurd hx List.not_mem_nil
  | y :: ys, x, hx => by
    rcases List.mem_cons.mp hx with heq | hx
    · exact heq ▸ dumps_readable y
    · exact dumpsList_readable ys x hx

theorem dumpsMembers_readable :
    ∀ kvs : List (PyStr × Json), ∀ e ∈ kvs, ReadableAt dumps EndsValue e.2
  | [], e, he => absurd he List.not_mem_nil
  | (k, v) :: kvs, e, he => by
    rcases List.mem_cons.mp he with heq | he
    · exact heq ▸ dumps_readable v
    · exact dumpsMembers_readable kvs e he
end

/-- Different values have different texts. -/
theorem dumps_injective : Function.Injective dumps := fun a _ h =>
  (dumps_readable a).inj (fun _ hc => by simp at hc) h

example : (Json.obj [("a", .arr [.int (-1), .bool true]), ("é", .str "\n")]).dumps =
    "\x7b\"a\":[-1,true],\"\\u00e9\":\"\\n\"\x7d".toList := by
  decide

end Json

end AuditLog
