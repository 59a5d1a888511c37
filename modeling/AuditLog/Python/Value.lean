import AuditLog.Python.Dumps

/-!
# Python values as `json.dumps` writes them

Whatever a log record or a parsed request body can hold: any `str`, lone
surrogates and split pairs included, floats that are not finite, tuples, and
objects that are no JSON at all and are written through `default=str`.
`strings` lists every string a value is written with, and `literals_dumps` says
that these are the string literals of the text, in this order.
-/

namespace AuditLog

open Decoding

/-! ## Texts -/

/-- Any Python `str`: its code points. -/
abbrev PyText := List CodePoint

/-- The Python string of a literal. -/
def pyText (s : String) : PyText := (PyStr.ofString s).codePoints

/-- What a string literal has between its quotes. -/
def literalBody (cs : PyText) : List Char := (cs.flatMap utf16).flatMap escapeUnit

/-- A string literal. -/
def literal (cs : PyText) : List Char := '"' :: (literalBody cs ++ ['"'])

/-- The literal of a JSON string is that of its code points. -/
theorem strText_eq_literal (s : PyStr) : strText s = literal s.codePoints := rfl

/-- The floats that are no numbers. -/
inductive NonFinite where
  | nan | infinity | negInfinity
deriving DecidableEq

/-- How `json.dumps` writes them, which is no JSON. -/
def NonFinite.text : NonFinite → List Char
  | .nan => "NaN".toList
  | .infinity => "Infinity".toList
  | .negInfinity => "-Infinity".toList

/-! ## Values -/

/-- A Python value, by how `json.dumps` treats it. -/
inductive PyValue where
  | null
  | bool (b : Bool)
  | int (n : Int)
  | float (x : PyFloat)
  | nonFinite (x : NonFinite)
  | str (s : PyText)
  | list (xs : List PyValue)
  | tuple (xs : List PyValue)
  | dict (kvs : List (PyText × PyValue))
  /-- Any other object, with its `str`. -/
  | other (str : PyText)

namespace PyValue

mutual
/-- `json.dumps(value, separators=(",", ":"), default=str)`. -/
def dumps : PyValue → List Char
  | .null => "null".toList
  | .bool true => "true".toList
  | .bool false => "false".toList
  | .int n => intText n
  | .float x => x.repr
  | .nonFinite x => x.text
  | .str s => literal s
  | .list xs => '[' :: separated id ',' ']' (dumpsList xs)
  | .tuple xs => '[' :: separated id ',' ']' (dumpsList xs)
  | .dict kvs => '\x7b' :: separated id ',' '\x7d' (dumpsMembers kvs)
  | .other s => literal s

def dumpsList : List PyValue → List (List Char)
  | [] => []
  | x :: xs => dumps x :: dumpsList xs

def dumpsMembers : List (PyText × PyValue) → List (List Char)
  | [] => []
  | (k, v) :: kvs => (literal k ++ ':' :: dumps v) :: dumpsMembers kvs
end

mutual
/-- Every string in the value: dict keys, string values, and the `str` of other objects. -/
def strings : PyValue → List PyText
  | .str s => [s]
  | .other s => [s]
  | .list xs => stringsList xs
  | .tuple xs => stringsList xs
  | .dict kvs => stringsMembers kvs
  | _ => []

def stringsList : List PyValue → List PyText
  | [] => []
  | x :: xs => strings x ++ stringsList xs

def stringsMembers : List (PyText × PyValue) → List PyText
  | [] => []
  | (k, v) :: kvs => k :: (strings v ++ stringsMembers kvs)
end

/-! ### JSON values -/

mutual
/-- A JSON value as a Python value. -/
def ofJson : Json → PyValue
  | .null => .null
  | .bool b => .bool b
  | .int n => .int n
  | .float x => .float x
  | .str s => .str s.codePoints
  | .arr xs => .list (ofJsonList xs)
  | .obj kvs => .dict (ofJsonMembers kvs)

def ofJsonList : List Json → List PyValue
  | [] => []
  | x :: xs => ofJson x :: ofJsonList xs

def ofJsonMembers : List (PyStr × Json) → List (PyText × PyValue)
  | [] => []
  | (k, v) :: kvs => (k.codePoints, ofJson v) :: ofJsonMembers kvs
end

mutual
/-- Both serializers write a JSON value alike. -/
theorem dumps_ofJson : ∀ j : Json, (ofJson j).dumps = j.dumps
  | .null => rfl
  | .bool b => by cases b <;> rfl
  | .int _ => rfl
  | .float _ => rfl
  | .str _ => rfl
  | .arr xs => by
    simp only [ofJson, dumps, Json.dumps]
    rw [dumpsList_ofJson xs]
  | .obj kvs => by
    simp only [ofJson, dumps, Json.dumps]
    rw [dumpsMembers_ofJson kvs]

theorem dumpsList_ofJson : ∀ xs : List Json, dumpsList (ofJsonList xs) = Json.dumpsList xs
  | [] => rfl
  | x :: xs => by
    simp only [ofJsonList, dumpsList, Json.dumpsList]
    rw [dumps_ofJson x, dumpsList_ofJson xs]

theorem dumpsMembers_ofJson :
    ∀ kvs : List (PyStr × Json), dumpsMembers (ofJsonMembers kvs) = Json.dumpsMembers kvs
  | [] => rfl
  | (k, v) :: kvs => by
    simp only [ofJsonMembers, dumpsMembers, Json.dumpsMembers]
    rw [dumps_ofJson v, dumpsMembers_ofJson kvs, strText_eq_literal]
end

end PyValue

/-! ## The string literals of a text -/

mutual
/-- What the string literals of a JSON text have between their quotes. -/
def literals : List Char → List (List Char)
  | [] => []
  | c :: cs => if c = '"' then literalsInside [] cs else literals cs

/-- Inside a literal whose characters so far are `body`, last one first. -/
def literalsInside (body : List Char) : List Char → List (List Char)
  | [] => []
  | '\\' :: c :: cs => literalsInside (c :: '\\' :: body) cs
  | c :: cs => if c = '"' then body.reverse :: literals cs else literalsInside (c :: body) cs
end

/-- Text without quotes contributes no literal. -/
theorem literals_append {t : List Char} (ht : '"' ∉ t) (r : List Char) :
    literals (t ++ r) = literals r := by
  induction t with
  | nil => rfl
  | cons c t ih =>
    simp only [List.mem_cons, not_or] at ht
    rw [List.cons_append, literals, if_neg (Ne.symm ht.1), ih ht.2]

/-- Inside a literal an ordinary character is passed over. -/
theorem literalsInside_plain {c : Char} (hquote : c ≠ '"') (hslash : c ≠ '\\')
    (body r : List Char) : literalsInside body (c :: r) = literalsInside (c :: body) r := by
  rw [literalsInside, if_neg hquote]
  intro d ds heq
  exact absurd heq hslash

/-- The reader passes over an escaped code unit without taking it for the closing quote. -/
theorem literalsInside_escapeUnit (u : CodeUnit) (body r : List Char) :
    literalsInside body (escapeUnit u ++ r) = literalsInside ((escapeUnit u).reverse ++ body) r := by
  have hdigit : ∀ d : Fin 16, Nat.digitChar d.val ≠ '"' ∧ Nat.digitChar d.val ≠ '\\' := by decide
  have hplain : ∀ n, n < 16 → ∀ body r : List Char,
      literalsInside body (Nat.digitChar n :: r) = literalsInside (Nat.digitChar n :: body) r :=
    fun n hn body r => literalsInside_plain (hdigit ⟨n, hn⟩).1 (hdigit ⟨n, hn⟩).2 body r
  unfold escapeUnit
  cases hu : shortEscape u with
  | some c => simp [literalsInside]
  | none =>
    simp only
    split
    · rename_i hp
      exact literalsInside_plain (literal_ne hu hp (Or.inr rfl)) (literal_ne hu hp (Or.inl rfl)) _ _
    · simp only [hex4, List.cons_append, List.nil_append, literalsInside]
      rw [hplain _ (by omega), hplain _ (by omega), hplain _ (by omega), hplain _ (by omega)]
      simp

/-- Inside a literal the reader comes to the quote that closes it. -/
theorem literalsInside_body (us : List CodeUnit) (body r : List Char) :
    literalsInside body (us.flatMap escapeUnit ++ '"' :: r) =
      (body.reverse ++ us.flatMap escapeUnit) :: literals r := by
  induction us generalizing body with
  | nil =>
    rw [List.flatMap_nil, List.nil_append, List.append_nil, literalsInside, if_pos rfl]
    intro d ds heq
    exact absurd heq (by decide)
  | cons u us ih =>
    rw [List.flatMap_cons, List.append_assoc, literalsInside_escapeUnit, ih]
    simp

/-- A literal contributes its body. -/
theorem literals_literal (s : PyText) (r : List Char) :
    literals (literal s ++ r) = literalBody s :: literals r := by
  rw [literal, List.cons_append, literals, if_pos rfl, List.append_assoc]
  exact literalsInside_body _ [] r

namespace PyValue

/-- What a text contributes to the literals of a line it stands in. -/
def Writes (t : List Char) (ss : List PyText) : Prop :=
  ∀ r, literals (t ++ r) = ss.map literalBody ++ literals r

theorem Writes.plain {t : List Char} (ht : '"' ∉ t) : Writes t [] := fun r => literals_append ht r

theorem Writes.literal (s : PyText) : Writes (literal s) [s] := fun r => literals_literal s r

/-- Texts one behind the other contribute their strings in order. -/
theorem Writes.append {t u : List Char} {ss ss' : List PyText} (ht : Writes t ss)
    (hu : Writes u ss') : Writes (t ++ u) (ss ++ ss') := by
  intro r
  rw [List.append_assoc, ht, hu, List.map_append, List.append_assoc]

theorem Writes.cons {c : Char} (hc : c ≠ '"') {t : List Char} {ss : List PyText}
    (ht : Writes t ss) : Writes (c :: t) ss := by
  have hchar : Writes [c] [] := Writes.plain (by simpa using Ne.symm hc)
  exact hchar.append ht

/-- Elements between separators that are no quotes. -/
theorem Writes.separated {sep close : Char} (hsep : sep ≠ '"') (hclose : close ≠ '"')
    {ts : List (List Char)} {sss : List (List PyText)} (h : List.Forall₂ Writes ts sss) :
    Writes (separated id sep close ts) sss.flatten := by
  have hend : Writes [close] [] := Writes.plain (by simpa using Ne.symm hclose)
  have htail : ∀ ts sss, List.Forall₂ Writes ts sss →
      Writes (separatedTail id sep close ts) sss.flatten := by
    intro ts sss h
    induction h with
    | nil => exact hend
    | cons ht _ ih => exact Writes.cons hsep (ht.append ih)
  cases h with
  | nil => exact hend
  | cons ht hts => exact ht.append (htail _ _ hts)

theorem quote_notMem_of_numberChar {t : List Char} (ht : ∀ c ∈ t, NumberChar c) : '"' ∉ t := by
  intro h
  exact absurd (ht _ h) (by decide)

/-- The strings of a list are those of its elements. -/
theorem stringsList_eq (xs : List PyValue) : stringsList xs = (xs.map strings).flatten := by
  induction xs with
  | nil => rfl
  | cons x xs ih => simp [stringsList, ih]

/-- The strings of a dict are its keys and those of its values. -/
theorem stringsMembers_eq (kvs : List (PyText × PyValue)) :
    stringsMembers kvs = (kvs.map fun e => e.1 :: strings e.2).flatten := by
  induction kvs with
  | nil => rfl
  | cons e kvs ih =>
    rcases e with ⟨k, v⟩
    simp [stringsMembers, ih]

mutual
/-- The literals of a value's text are those of its strings, in order. -/
theorem writes_dumps : ∀ v : PyValue, Writes v.dumps v.strings
  | .null => Writes.plain (by decide)
  | .bool b => by cases b <;> exact Writes.plain (by decide)
  | .int n => Writes.plain (quote_notMem_of_numberChar fun _ => Json.intText_numberChar)
  | .float x => Writes.plain (quote_notMem_of_numberChar fun _ => PyFloat.repr_chars)
  | .nonFinite x => by cases x <;> exact Writes.plain (by decide)
  | .str s => Writes.literal s
  | .other s => Writes.literal s
  | .list xs => by
    simp only [dumps, strings, stringsList_eq]
    exact Writes.cons (by decide) (Writes.separated (by decide) (by decide) (writes_dumpsList xs))
  | .tuple xs => by
    simp only [dumps, strings, stringsList_eq]
    exact Writes.cons (by decide) (Writes.separated (by decide) (by decide) (writes_dumpsList xs))
  | .dict kvs => by
    simp only [dumps, strings, stringsMembers_eq]
    exact Writes.cons (by decide)
      (Writes.separated (by decide) (by decide) (writes_dumpsMembers kvs))

theorem writes_dumpsList :
    ∀ xs : List PyValue, List.Forall₂ Writes (dumpsList xs) (xs.map strings)
  | [] => List.Forall₂.nil
  | x :: xs => List.Forall₂.cons (writes_dumps x) (writes_dumpsList xs)

theorem writes_dumpsMembers : ∀ kvs : List (PyText × PyValue),
    List.Forall₂ Writes (dumpsMembers kvs) (kvs.map fun e => e.1 :: strings e.2)
  | [] => List.Forall₂.nil
  | (k, v) :: kvs => by
    refine List.Forall₂.cons ?_ (writes_dumpsMembers kvs)
    exact (Writes.literal k).append (Writes.cons (by decide) (writes_dumps v))
end

/-- **The strings of a value are the strings its text spells.** -/
theorem literals_dumps (v : PyValue) : literals v.dumps = v.strings.map literalBody := by
  have h := writes_dumps v []
  rwa [List.append_nil, literals, List.append_nil] at h

end PyValue

end AuditLog
