import AuditLog.Python.Value

/-!
# What `json.loads` reads

The texts `json.loads` accepts and the value it reads off each of them, as a
grammar: whitespace between tokens, the escapes of a string literal, integer and
float numerals, the constants that are no JSON, and objects whose repeated keys
are overwritten. A text is a list of characters, and what is sent is its UTF-8.

`float(text)` is a parameter; all that is asked of it is that the `repr` of a float
it returned reads back as that float.
-/

namespace AuditLog

/-! ## Floats -/

/-- What `float(text)` returns for a numeral. -/
inductive FloatValue where
  | finite (x : PyFloat)
  | nonFinite (x : NonFinite)
deriving DecidableEq

def FloatValue.toValue : FloatValue → PyValue
  | .finite x => .float x
  | .nonFinite x => .nonFinite x

/-- How `json.dumps` writes it. -/
def FloatValue.text : FloatValue → List Char
  | .finite x => x.repr
  | .nonFinite x => x.text

/-- `float(text)`: what it returns is printed so that it reads back. -/
structure FloatReader where
  read : List Char → FloatValue
  read_repr : ∀ t x, read t = .finite x → read x.repr = .finite x

/-! ## Numerals -/

def Digits (ds : List Char) : Prop := ds ≠ [] ∧ ∀ c ∈ ds, c.isDigit = true

/-- `0|[1-9][0-9]*`. -/
def WholePart (ds : List Char) : Prop := Digits ds ∧ (ds.head? = some '0' → ds = ['0'])

/-- `(\.[0-9]+)?`. -/
def FractionPart (t : List Char) : Prop := t = [] ∨ ∃ ds, Digits ds ∧ t = '.' :: ds

/-- `([eE][-+]?[0-9]+)?`. -/
def ExponentPart (t : List Char) : Prop :=
  t = [] ∨ ∃ e sign ds, (e = 'e' ∨ e = 'E') ∧ (sign = [] ∨ sign = ['-'] ∨ sign = ['+']) ∧
    Digits ds ∧ t = e :: (sign ++ ds)

def minus (negative : Bool) : List Char := if negative then ['-'] else []

/-- A numeral without fraction and exponent, and its `int`. -/
def SpellsInt (t : List Char) (n : Int) : Prop :=
  ∃ negative ds, WholePart ds ∧ t = minus negative ++ ds ∧
    n = if negative then -(Nat.ofDigitChars 10 ds 0 : Int) else Nat.ofDigitChars 10 ds 0

/-- A numeral with a fraction or an exponent. -/
def FloatNumeral (t : List Char) : Prop :=
  ∃ negative ds fraction exponent, WholePart ds ∧ FractionPart fraction ∧ ExponentPart exponent ∧
    ¬ (fraction = [] ∧ exponent = []) ∧ t = minus negative ++ (ds ++ (fraction ++ exponent))

/-- A numeral that `float` reads as `x`, or one of the constants. -/
def SpellsFloat (float : FloatReader) (t : List Char) (x : FloatValue) : Prop :=
  (FloatNumeral t ∧ float.read t = x) ∨ ∃ y, x = .nonFinite y ∧ t = y.text

/-! ## String literals -/

/-- The value of a hexadecimal digit of either case. -/
def hexDigit? (c : Char) : Option (Fin 16) :=
  (List.finRange 16).find? fun d =>
    c = Nat.digitChar d.val || c = (Nat.digitChar d.val).toUpper

/-- The code unit of a `\u` escape. -/
def codeUnit? (a b c d : Char) : Option CodeUnit := do
  let a ← hexDigit? a
  let b ← hexDigit? b
  let c ← hexDigit? c
  let d ← hexDigit? d
  some ⟨((a.val * 16 + b.val) * 16 + c.val) * 16 + d.val, by omega⟩

/-- The escapes `json.loads` knows; `json.dumps` never uses the one for the slash. -/
def readEscapes : List (Nat × Char) := (0x2f, '/') :: shortEscapes

/-- The code units between the quotes of a literal. -/
inductive ReadsUnits : List Char → List CodeUnit → Prop where
  | nil : ReadsUnits [] []
  | raw {c : Char} {t : List Char} {us : List CodeUnit} (hcontrol : 0x20 ≤ c.toNat)
      (hquote : c ≠ '"') (hslash : c ≠ '\\') (h : ReadsUnits t us) :
      ReadsUnits (c :: t) (utf16 (CodePoint.ofChar c) ++ us)
  | short {u : CodeUnit} {c : Char} {t : List Char} {us : List CodeUnit}
      (hescape : (u.val, c) ∈ readEscapes) (h : ReadsUnits t us) :
      ReadsUnits ('\\' :: c :: t) (u :: us)
  | hex {u : CodeUnit} {a b c d : Char} {t : List Char} {us : List CodeUnit}
      (hunit : codeUnit? a b c d = some u) (h : ReadsUnits t us) :
      ReadsUnits ('\\' :: 'u' :: a :: b :: c :: d :: t) (u :: us)

/-- A literal and its string: the one whose code units were read, with every escaped surrogate
pair joined into one character. -/
def SpellsStr (t : List Char) (s : PyText) : Prop :=
  ∃ (body : List Char) (str : PyStr), ReadsUnits body (str.codePoints.flatMap utf16) ∧
    t = '"' :: (body ++ ['"']) ∧ s = str.codePoints

/-! ## Values -/

/-- `[ \t\n\r]*`. -/
def Whitespace (w : List Char) : Prop := ∀ c ∈ w, c = ' ' ∨ c = '\t' ∨ c = '\n' ∨ c = '\r'

theorem whitespace_nil : Whitespace [] := fun _ hc => absurd hc List.not_mem_nil

/-- What a piece of text is read as. -/
inductive Parsed where
  | value (v : PyValue)
  /-- A value with whitespace around it. -/
  | padded (v : PyValue)
  /-- The elements of an array that is not empty. -/
  | elements (xs : List PyValue)
  | member (e : PyText × PyValue)
  /-- The members of an object that is not empty. -/
  | members (kvs : List (PyText × PyValue))

section Grammar

variable (float : FloatReader)

inductive Reads : List Char → Parsed → Prop where
  | null : Reads "null".toList (.value .null)
  | yes : Reads "true".toList (.value (.bool true))
  | no : Reads "false".toList (.value (.bool false))
  | int {t : List Char} {n : Int} (h : SpellsInt t n) : Reads t (.value (.int n))
  | float {t : List Char} {x : FloatValue} (h : SpellsFloat float t x) : Reads t (.value x.toValue)
  | str {t : List Char} {s : PyText} (h : SpellsStr t s) : Reads t (.value (.str s))
  | emptyList {w : List Char} (hw : Whitespace w) : Reads ('[' :: (w ++ [']'])) (.value (.list []))
  | list {t : List Char} {xs : List PyValue} (h : Reads t (.elements xs)) :
      Reads ('[' :: (t ++ [']'])) (.value (.list xs))
  | emptyDict {w : List Char} (hw : Whitespace w) :
      Reads ('\x7b' :: (w ++ ['\x7d'])) (.value (.dict []))
  -- A repeated key keeps its first place and its last value.
  | dict {t : List Char} {kvs : List (PyText × PyValue)} (h : Reads t (.members kvs)) :
      Reads ('\x7b' :: (t ++ ['\x7d'])) (.value (.dict (Dict.update [] kvs)))
  | padded {w w' t : List Char} {v : PyValue} (hw : Whitespace w) (hw' : Whitespace w')
      (h : Reads t (.value v)) : Reads (w ++ (t ++ w')) (.padded v)
  | element {t : List Char} {v : PyValue} (h : Reads t (.padded v)) : Reads t (.elements [v])
  | elements {t u : List Char} {v : PyValue} {xs : List PyValue} (h : Reads t (.padded v))
      (hs : Reads u (.elements xs)) : Reads (t ++ ',' :: u) (.elements (v :: xs))
  | member {w w' k t : List Char} {key : PyText} {v : PyValue} (hw : Whitespace w)
      (hw' : Whitespace w') (hk : SpellsStr k key) (h : Reads t (.padded v)) :
      Reads (w ++ (k ++ (w' ++ ':' :: t))) (.member (key, v))
  | lastMember {t : List Char} {e : PyText × PyValue} (h : Reads t (.member e)) :
      Reads t (.members [e])
  | members {t u : List Char} {e : PyText × PyValue} {kvs : List (PyText × PyValue)}
      (h : Reads t (.member e)) (hs : Reads u (.members kvs)) :
      Reads (t ++ ',' :: u) (.members (e :: kvs))

variable {float} in
theorem Reads.elements_ne_nil {t : List Char} {xs : List PyValue} (h : Reads float t (.elements xs)) :
    xs ≠ [] := by
  rintro rfl
  cases h

variable {float} in
theorem Reads.members_ne_nil {t : List Char} {kvs : List (PyText × PyValue)}
    (h : Reads float t (.members kvs)) : kvs ≠ [] := by
  rintro rfl
  cases h

/-- `json.loads(text.encode("utf-8"))`, which skips a byte order mark. -/
def Loads (text : List Char) (v : PyValue) : Prop :=
  ∃ mark t, (mark = [] ∨ mark = ['\ufeff']) ∧ Reads float t (.padded v) ∧ text = mark ++ t

end Grammar

end AuditLog
