import AuditLog.Library.Decoding
import Mathlib.Algebra.Group.Nat.Defs
import Mathlib.Data.List.DropRight
import Mathlib.Data.List.Basic

/-!
# Number texts: `int.__repr__` and `float.__repr__`

Integers are Lean integers. A finite float is represented by the digits Python
prints for it: since `float.__repr__` gives the shortest decimal that reads back
as the same float, sign, digits and decimal point determine the float. The
layout of these digits (fixed notation up to `1e16`, exponents otherwise) is
what this file models; that it can be read back is proved, not assumed.
-/

namespace AuditLog

open Decoding

/-! ## Integers -/

/-- `int.__repr__`. -/
def intText (n : Int) : List Char :=
  if n < 0 then '-' :: Nat.toDigits 10 n.natAbs else Nat.toDigits 10 n.natAbs

/-- The characters a number text is made of. -/
def NumberChar (c : Char) : Prop := c.isDigit ∨ c = '-' ∨ c = '+' ∨ c = '.' ∨ c = 'e'

instance (c : Char) : Decidable (NumberChar c) :=
  inferInstanceAs (Decidable (_ ∨ _ ∨ _ ∨ _ ∨ _))

/-- A decimal consists of digits. -/
theorem isDigit_of_mem_toDigits {n : Nat} {c : Char} (h : c ∈ Nat.toDigits 10 n) :
    c.isDigit = true :=
  Nat.isDigit_of_mem_toDigits (by decide) (by decide) h

/-- A decimal determines its value. -/
theorem toDigits_inj {m n : Nat} (h : Nat.toDigits 10 m = Nat.toDigits 10 n) : m = n := by
  rw [← Nat.ofDigitChars_ten_toDigits (n := m), h, Nat.ofDigitChars_ten_toDigits]

/-- The first character of a decimal is a digit, so it is not a minus sign. -/
theorem toDigits_ne_minus_cons (n : Nat) (cs : List Char) : Nat.toDigits 10 n ≠ '-' :: cs := by
  intro h
  have hd := isDigit_of_mem_toDigits (n := n) (c := '-') (by rw [h]; exact List.mem_cons_self)
  exact absurd hd (by decide)

/-- Different integers print differently. -/
theorem intText_injective : Function.Injective intText := by
  intro m n h
  unfold intText at h
  split at h <;> split at h
  · -- Equal signs: the digits decide. Different signs cannot print alike.
    have habs := toDigits_inj (List.cons.inj h).2
    omega
  · exact absurd h.symm (toDigits_ne_minus_cons _ _)
  · exact absurd h (toDigits_ne_minus_cons _ _)
  · have habs := toDigits_inj h
    omega

theorem intText_ne_nil (n : Int) : intText n ≠ [] := by
  unfold intText
  split
  · exact List.cons_ne_nil _ _
  · exact Nat.toDigits_ne_nil

/-- Integer texts have digits and at most a sign, no point and no exponent. -/
theorem intText_chars {n : Int} {c : Char} (h : c ∈ intText n) : c.isDigit = true ∨ c = '-' := by
  unfold intText at h
  split at h
  · rcases List.mem_cons.mp h with rfl | h
    · exact Or.inr rfl
    · exact Or.inl (isDigit_of_mem_toDigits h)
  · exact Or.inl (isDigit_of_mem_toDigits h)

/-! ## Floats -/

/-- Significant digits as `float.__repr__` finds them: `[0]` for zero, otherwise
without leading or trailing zeros. -/
def Shortest (digits : List (Fin 10)) (decpt : Int) : Prop :=
  (digits = [0] ∧ decpt = 1) ∨
    (digits ≠ [] ∧ digits.head? ≠ some 0 ∧ digits.getLast? ≠ some 0)

instance (digits : List (Fin 10)) (decpt : Int) : Decidable (Shortest digits decpt) :=
  inferInstanceAs (Decidable (_ ∨ _))

/-- A finite float: its value is `0.d₁d₂… * 10 ^ decpt`, negated when `negative`. -/
structure PyFloat where
  negative : Bool
  digits : List (Fin 10)
  decpt : Int
  shortest : Shortest digits decpt
deriving DecidableEq

namespace PyFloat

/-- What the layout prints: digits before the point, digits after it, exponent. -/
structure Layout where
  whole : List (Fin 10)
  fraction : List (Fin 10)
  exponent : Option Int

/-- The layout `repr` chooses: exponent notation outside `1e-4 <= x < 1e16`. -/
def layout (x : PyFloat) : Layout :=
  if -4 < x.decpt ∧ x.decpt ≤ 16 then
    if x.decpt ≤ 0 then
      -- `0.000ddd`
      ⟨[0], List.replicate (-x.decpt).toNat 0 ++ x.digits, none⟩
    else if x.decpt < x.digits.length then
      -- `dd.dd`
      ⟨x.digits.take x.decpt.toNat, x.digits.drop x.decpt.toNat, none⟩
    else
      -- `ddd000.0`
      ⟨x.digits ++ List.replicate (x.decpt.toNat - x.digits.length) 0, [0], none⟩
  else
    -- `d.ddde+16`, or `de+16` for a single digit
    ⟨x.digits.take 1, x.digits.drop 1, some (x.decpt - 1)⟩

/-- The digits as characters. -/
def digitText (ds : List (Fin 10)) : List Char := ds.map fun d => Nat.digitChar d.val

/-- The exponent: a sign and at least two digits. -/
def exponentText (e : Int) : List Char :=
  (if e < 0 then '-' else '+') ::
    (if e.natAbs < 10 then '0' :: Nat.toDigits 10 e.natAbs else Nat.toDigits 10 e.natAbs)

/-- The digits behind the point, when there are any. -/
def fractionText (ds : List (Fin 10)) : List Char :=
  if ds = [] then [] else '.' :: digitText ds

/-- The exponent with its `e`, when there is one. -/
def exponentSuffix : Option Int → List Char
  | none => []
  | some e => 'e' :: exponentText e

/-- The text of a layout, without the sign. -/
def Layout.text (l : Layout) : List Char :=
  digitText l.whole ++ (fractionText l.fraction ++ exponentSuffix l.exponent)

/-- `float.__repr__`. -/
def repr (x : PyFloat) : List Char :=
  if x.negative then '-' :: x.layout.text else x.layout.text

/-- The integer a float is equal to, if any (`x == int(x)`); exact for the
magnitudes of row ids, which is what float keys are compared with. -/
def toInt? (x : PyFloat) : Option Int :=
  if x.digits.length ≤ x.decpt then
    let n := Nat.ofDigitChars 10 (digitText x.digits) 0 * 10 ^ (x.decpt.toNat - x.digits.length)
    some (if x.negative then -n else n)
  else none

/-! ### Reading a layout back -/

theorem digitChar_isDigit : ∀ d : Fin 10, (Nat.digitChar d.val).isDigit = true := by decide

theorem digitChar_injective :
    ∀ d e : Fin 10, Nat.digitChar d.val = Nat.digitChar e.val → d = e := by decide

theorem digitText_isDigit {ds : List (Fin 10)} {c : Char} (h : c ∈ digitText ds) :
    c.isDigit = true := by
  obtain ⟨d, -, rfl⟩ := List.mem_map.mp h
  exact digitChar_isDigit d

theorem digitText_injective : Function.Injective digitText :=
  List.map_injective_iff.mpr digitChar_injective

/-- Sign and digits of an exponent determine it. -/
theorem exponentText_injective : Function.Injective exponentText := by
  -- A leading zero does not change the value of the digits.
  have hvalue : ∀ k : Nat, Nat.ofDigitChars 10
      (if k < 10 then '0' :: Nat.toDigits 10 k else Nat.toDigits 10 k) 0 = k := by
    intro k
    split
    · rw [Nat.ofDigitChars_cons]
      exact Nat.ofDigitChars_ten_toDigits
    · exact Nat.ofDigitChars_ten_toDigits
  intro e f h
  rcases List.cons.inj h with ⟨hsign, hdigits⟩
  have habs : e.natAbs = f.natAbs := by
    have h' := congrArg (fun cs => Nat.ofDigitChars 10 cs 0) hdigits
    simpa only [hvalue] using h'
  have hneg : e < 0 ↔ f < 0 := by
    by_cases he : e < 0 <;> by_cases hf : f < 0 <;> simp [he, hf] at hsign ⊢
  omega

/-- The text does not go on with a digit. -/
abbrev EndsDigits : List Char → Prop := EndsToken fun c => c.isDigit = true

/-- Neither an exponent nor the end of the text goes on with a digit. -/
theorem exponentSuffix_ends (e : Option Int) : EndsDigits (exponentSuffix e) := by
  intro c hc
  cases e with
  | none => simp [exponentSuffix] at hc
  | some e =>
    simp only [exponentSuffix, List.head?_cons, Option.mem_def, Option.some.injEq] at hc
    subst hc
    decide

/-- A fraction, an exponent or the end does not go on with a digit. -/
theorem fractionText_ends (ds : List (Fin 10)) (e : Option Int) :
    EndsDigits (fractionText ds ++ exponentSuffix e) := by
  unfold fractionText
  split
  · exact exponentSuffix_ends e
  · intro c hc
    simp only [List.cons_append, List.head?_cons, Option.mem_def, Option.some.injEq] at hc
    subst hc
    decide

theorem exponentSuffix_injective : Function.Injective exponentSuffix := by
  intro e f h
  cases e <;> cases f <;> simp only [exponentSuffix, reduceCtorEq, List.cons.injEq] at h
  · rfl
  · rw [exponentText_injective h.2]

theorem exponentSuffix_ne_point (e : Option Int) (cs : List Char) :
    exponentSuffix e ≠ '.' :: cs := by
  cases e <;> simp [exponentSuffix]

/-- Digits up to the first character that is none are read in one way. -/
theorem digits_unique {ds es : List (Fin 10)} {r s : List Char} (hr : EndsDigits r)
    (hs : EndsDigits s) (h : digitText ds ++ r = digitText es ++ s) : ds = es ∧ r = s := by
  rcases token_unique (fun _ => digitText_isDigit) (fun _ => digitText_isDigit) hr hs h with
    ⟨hd, hrs⟩
  exact ⟨digitText_injective hd, hrs⟩

/-- The three parts of a layout are separated by `.` and `e`, which are no digits. -/
theorem Layout.text_injective : Function.Injective Layout.text := by
  rintro ⟨w, f, e⟩ ⟨w', f', e'⟩ h
  unfold Layout.text at h
  rcases digits_unique (fractionText_ends f e) (fractionText_ends f' e') h with ⟨hw, hrest⟩
  have hparts : f = f' ∧ e = e' := by
    unfold fractionText at hrest
    split at hrest <;> split at hrest
    · rename_i hf hf'
      exact ⟨by rw [hf, hf'], exponentSuffix_injective hrest⟩
    · exact absurd hrest (exponentSuffix_ne_point e _)
    · exact absurd hrest.symm (exponentSuffix_ne_point e' _)
    · rcases digits_unique (exponentSuffix_ends e) (exponentSuffix_ends e')
        (List.cons.inj hrest).2 with ⟨hf, he⟩
      exact ⟨hf, exponentSuffix_injective he⟩
  rcases hparts with ⟨rfl, rfl⟩
  rw [show w = w' from hw]

/-- The significant digits and the decimal point, read back off a layout. -/
def Layout.recover (l : Layout) : List (Fin 10) × Int :=
  match l.exponent with
  | some e => (l.whole ++ l.fraction, e + 1)
  | none =>
    let all := l.whole ++ l.fraction
    let significant := (all.dropWhile (· = 0)).rdropWhile (· = 0)
    if significant = [] then ([0], 1)
    else (significant, l.whole.length - (all.takeWhile (· = 0)).length)

/-- Zeros in front of digits that do not begin with one are dropped, and counted. -/
theorem dropWhile_zeros (m : Nat) {ds : List (Fin 10)} (h : ds.head? ≠ some 0) :
    (List.replicate m 0 ++ ds).dropWhile (· = 0) = ds ∧
      ((List.replicate m 0 ++ ds).takeWhile (· = 0)).length = m := by
  have hds : ds.dropWhile (· = 0) = ds ∧ ds.takeWhile (· = 0) = [] := by
    cases ds with
    | nil => exact ⟨rfl, rfl⟩
    | cons d ds =>
      have hd : d ≠ 0 := by simpa using h
      simp [hd]
  induction m with
  | zero => simpa using hds
  | succ m ih => simpa [List.replicate_succ] using ih

/-- Zeros behind digits that do not end with one are dropped. -/
theorem rdropWhile_zeros (m : Nat) {ds : List (Fin 10)} (h : ds.getLast? ≠ some 0) :
    (ds ++ List.replicate m 0).rdropWhile (· = 0) = ds := by
  induction m with
  | zero =>
    rw [List.replicate_zero, List.append_nil, List.rdropWhile_eq_self_iff]
    intro hne hlast
    exact h (by rw [List.getLast?_eq_some_getLast hne]; simpa using hlast)
  | succ m ih =>
    rw [List.replicate_succ', ← List.append_assoc, List.rdropWhile_concat_pos _ _ _ (by simp)]
    exact ih

/-- Padding with zeros on both sides does not hide the significant digits. -/
theorem recover_padded {ds : List (Fin 10)} (hne : ds ≠ []) (hhead : ds.head? ≠ some 0)
    (hlast : ds.getLast? ≠ some 0) (w f : List (Fin 10)) (m k : Nat)
    (h : w ++ f = List.replicate m 0 ++ (ds ++ List.replicate k 0)) :
    Layout.recover ⟨w, f, none⟩ = (ds, (w.length : Int) - m) := by
  have hhead' : (ds ++ List.replicate k 0).head? ≠ some 0 := by
    cases ds with
    | nil => exact absurd rfl hne
    | cons d ds => simpa using hhead
  rcases dropWhile_zeros m hhead' with ⟨hdrop, htake⟩
  simp only [Layout.recover, h, hdrop, htake, rdropWhile_zeros k hlast, if_neg hne]

/-- The layout determines the digits and the decimal point. -/
theorem recover_layout (x : PyFloat) : x.layout.recover = (x.digits, x.decpt) := by
  rcases x with ⟨neg, ds, p, hs⟩
  unfold layout
  simp only
  split
  · rcases hs with ⟨rfl, rfl⟩ | ⟨hne, hhead, hlast⟩
    · decide
    · have hlen : 0 < ds.length := List.length_pos_iff.mpr hne
      split
      · -- `0.000ddd`
        rename_i hp
        have h := recover_padded hne hhead hlast [0] (List.replicate (-p).toNat 0 ++ ds)
          ((-p).toNat + 1) 0 (by simp [List.replicate_succ])
        rw [h]
        simp only [List.length_singleton, Prod.mk.injEq, true_and]
        omega
      · split
        · -- `dd.dd`
          rename_i hp hlt
          have h := recover_padded hne hhead hlast (ds.take p.toNat) (ds.drop p.toNat) 0 0 (by simp)
          rw [h]
          simp only [List.length_take, Prod.mk.injEq, true_and]
          omega
        · -- `ddd000.0`
          rename_i hp hge
          have h := recover_padded hne hhead hlast
            (ds ++ List.replicate (p.toNat - ds.length) 0) [0] 0 (p.toNat - ds.length + 1)
            (by simp [List.replicate_succ'])
          rw [h]
          simp only [List.length_append, List.length_replicate, Prod.mk.injEq, true_and]
          omega
  · simp [Layout.recover, -List.drop_one]

/-- There is a digit in front of the point. -/
theorem layout_whole_ne_nil (x : PyFloat) : x.layout.whole ≠ [] := by
  have hne : x.digits ≠ [] := by
    rcases x.shortest with ⟨h, -⟩ | ⟨h, -⟩
    · rw [h]
      exact List.cons_ne_nil _ _
    · exact h
  unfold layout
  split
  · split
    · exact List.cons_ne_nil _ _
    · split
      · rename_i hp _
        simp only [ne_eq, List.take_eq_nil_iff, hne, or_false]
        omega
      · simp [hne]
  · simp [hne]

/-- A layout has no sign: a minus in front is that of the float. -/
theorem layout_text_ne_minus (x : PyFloat) (cs : List Char) : x.layout.text ≠ '-' :: cs := by
  intro h
  unfold Layout.text at h
  cases hw : x.layout.whole with
  | nil => exact layout_whole_ne_nil x hw
  | cons d ds =>
    rw [hw] at h
    have hminus : Nat.digitChar d.val = '-' := (List.cons.inj h).1
    have hd := digitChar_isDigit d
    rw [hminus] at hd
    exact absurd hd (by decide)

/-- Different floats print differently. -/
theorem repr_injective : Function.Injective repr := by
  intro x y h
  -- The sign first; behind it the layouts agree, and each is read back.
  have hsign : x.negative = y.negative ∧ x.layout.text = y.layout.text := by
    unfold repr at h
    split at h <;> split at h
    · rename_i hx hy
      exact ⟨by rw [hx, hy], (List.cons.inj h).2⟩
    · exact absurd h.symm (layout_text_ne_minus y _)
    · exact absurd h (layout_text_ne_minus x _)
    · rename_i hx hy
      exact ⟨by simp [hx, hy], h⟩
  have hparts : (x.digits, x.decpt) = (y.digits, y.decpt) := by
    rw [← recover_layout x, ← recover_layout y, Layout.text_injective hsign.2]
  rcases x with ⟨neg, ds, p, hs⟩
  rcases y with ⟨neg', ds', p', hs'⟩
  simp only [Prod.mk.injEq] at hparts hsign
  simp [hsign.1, hparts.1, hparts.2]

theorem exponentText_chars {e : Int} {c : Char} (h : c ∈ exponentText e) : NumberChar c := by
  unfold exponentText at h
  rcases List.mem_cons.mp h with rfl | h
  · split <;> decide
  · left
    split at h
    · rcases List.mem_cons.mp h with rfl | h
      · decide
      · exact isDigit_of_mem_toDigits h
    · exact isDigit_of_mem_toDigits h

theorem layout_text_chars {l : Layout} {c : Char} (h : c ∈ l.text) : NumberChar c := by
  unfold Layout.text fractionText at h
  rcases List.mem_append.mp h with h | h
  · exact Or.inl (digitText_isDigit h)
  · rcases List.mem_append.mp h with h | h
    · split at h
      · simp at h
      · rcases List.mem_cons.mp h with rfl | h
        · decide
        · exact Or.inl (digitText_isDigit h)
    · cases hl : l.exponent with
      | none => simp [hl, exponentSuffix] at h
      | some e =>
        rw [hl] at h
        rcases List.mem_cons.mp h with rfl | h
        · decide
        · exact exponentText_chars h

/-- Float texts are made of number characters. -/
theorem repr_chars {x : PyFloat} {c : Char} (h : c ∈ x.repr) : NumberChar c := by
  unfold repr at h
  split at h
  · rcases List.mem_cons.mp h with rfl | h
    · decide
    · exact layout_text_chars h
  · exact layout_text_chars h

theorem repr_ne_nil (x : PyFloat) : x.repr ≠ [] := by
  unfold repr Layout.text
  have hw := layout_whole_ne_nil x
  split
  · exact List.cons_ne_nil _ _
  · simp [digitText, hw]

/-- A float text has a point or an exponent. -/
theorem layout_marked (x : PyFloat) : '.' ∈ x.layout.text ∨ 'e' ∈ x.layout.text := by
  unfold Layout.text
  by_cases hf : x.layout.fraction = []
  · right
    cases he : x.layout.exponent with
    | some e => simp [exponentSuffix]
    | none =>
      -- Without exponent the notation is fixed, which always has a fraction.
      exfalso
      unfold layout at hf he
      split at hf
      · rename_i hrange
        simp only [if_pos hrange] at he
        split at hf
        · rcases List.append_eq_nil_iff.mp hf with ⟨-, hd⟩
          rcases x.shortest with ⟨h, -⟩ | ⟨h, -⟩
          · simp [h] at hd
          · exact h hd
        · split at hf
          · rename_i hlt
            have hdrop := List.drop_eq_nil_iff.mp hf
            omega
          · simp at hf
      · rename_i hrange
        simp [if_neg hrange] at he
  · left
    simp [fractionText, hf]

/-- No float prints like an integer. -/
theorem repr_ne_intText (x : PyFloat) (n : Int) : x.repr ≠ intText n := by
  intro h
  have hmark : '.' ∈ x.repr ∨ 'e' ∈ x.repr := by
    unfold repr
    split
    · exact (layout_marked x).imp (List.mem_cons_of_mem _) (List.mem_cons_of_mem _)
    · exact layout_marked x
  rw [h] at hmark
  rcases hmark with h | h
  · exact absurd (intText_chars h) (by decide)
  · exact absurd (intText_chars h) (by decide)

end PyFloat

/-- `0.5`, for concrete instances. -/
def half : PyFloat := ⟨false, [5], 0, by decide⟩

end AuditLog
