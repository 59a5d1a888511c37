import Mathlib.Data.List.Lex
import Mathlib.Data.List.Sort
import Mathlib.Order.Fin.Basic

/-!
# Python strings

A Python `str` is a sequence of code points, surrogates included. The strings
this service handles come out of UTF-8 database columns or out of `json.loads`,
and neither ever yields a high surrogate directly followed by a low one
(`json.loads` joins an escaped pair into one character), so `PyStr` carries that
fact as a field.
-/

namespace AuditLog

/-- A Unicode code point, surrogates included. -/
abbrev CodePoint := Fin 0x110000

namespace CodePoint

def IsHighSurrogate (c : CodePoint) : Prop := 0xd800 ≤ c.val ∧ c.val ≤ 0xdbff

def IsLowSurrogate (c : CodePoint) : Prop := 0xdc00 ≤ c.val ∧ c.val ≤ 0xdfff

def IsSurrogate (c : CodePoint) : Prop := c.IsHighSurrogate ∨ c.IsLowSurrogate

instance (c : CodePoint) : Decidable c.IsHighSurrogate := inferInstanceAs (Decidable (_ ∧ _))

instance (c : CodePoint) : Decidable c.IsLowSurrogate := inferInstanceAs (Decidable (_ ∧ _))

instance (c : CodePoint) : Decidable c.IsSurrogate := inferInstanceAs (Decidable (_ ∨ _))

/-- The code point of a Lean character, which is never a surrogate. -/
def ofChar (c : Char) : CodePoint :=
  ⟨c.toNat, by
    rcases c.valid with h | h
    · exact Nat.lt_trans h (by decide)
    · exact h.2⟩

theorem ofChar_not_high (c : Char) : ¬ (ofChar c).IsHighSurrogate := by
  rintro ⟨hlo, hhi⟩
  have h : c.toNat < 0xd800 ∨ 0xdfff < c.toNat := by
    rcases c.valid with h | h
    · exact Or.inl h
    · exact Or.inr h.1
  simp only [ofChar] at hlo hhi
  omega

end CodePoint

/-- No code point pair that `json.loads` would have joined. -/
def Unsplit (a b : CodePoint) : Prop := ¬ (a.IsHighSurrogate ∧ b.IsLowSurrogate)

instance (a b : CodePoint) : Decidable (Unsplit a b) := inferInstanceAs (Decidable (¬ _))

structure PyStr where
  codePoints : List CodePoint
  unsplit : codePoints.IsChain Unsplit
deriving DecidableEq

namespace PyStr

@[ext] theorem ext {s t : PyStr} (h : s.codePoints = t.codePoints) : s = t := by
  cases s
  cases t
  cases h
  rfl

/-- `len(s)`. -/
def len (s : PyStr) : Nat := s.codePoints.length

/-- The string is no Unicode text: it cannot be encoded. -/
def HasSurrogate (s : PyStr) : Prop := ∃ c ∈ s.codePoints, c.IsSurrogate

instance (s : PyStr) : Decidable s.HasSurrogate := List.decidableBEx _ _

/-- The Python string with the given (non-surrogate) characters. -/
def ofChars (cs : List Char) : PyStr where
  codePoints := cs.map CodePoint.ofChar
  unsplit := by
    apply List.Pairwise.isChain
    rw [List.pairwise_map]
    exact List.pairwise_of_forall fun c _ h => CodePoint.ofChar_not_high c h.1

theorem ofChars_injective : Function.Injective ofChars := by
  have hchar : Function.Injective CodePoint.ofChar := by
    intro c d h
    have hval : (CodePoint.ofChar c).val = (CodePoint.ofChar d).val := by rw [h]
    exact Char.toNat_inj.mp hval
  intro cs ds h
  exact List.map_injective_iff.mpr hchar (congrArg PyStr.codePoints h)

def ofString (s : String) : PyStr := ofChars s.toList

instance : Coe String PyStr := ⟨ofString⟩

/-- `a <= b`: Python compares strings code point by code point. -/
def le (a b : PyStr) : Prop := a.codePoints ≤ b.codePoints

instance (a b : PyStr) : Decidable (le a b) := inferInstanceAs (Decidable (_ ≤ _))

instance : Std.Total le := ⟨fun a b => le_total a.codePoints b.codePoints⟩

instance : IsTrans PyStr le := ⟨fun _ _ _ hab hbc => le_trans (α := List CodePoint) hab hbc⟩

instance : Std.Antisymm le := ⟨fun _ _ hab hba => ext (le_antisymm hab hba)⟩

end PyStr

/-! ## Bytes -/

abbrev Bytes := List UInt8

/-- `text.encode("utf-8")`, for a text without surrogates. -/
def utf8 (text : List Char) : Bytes := text.flatMap String.utf8EncodeChar

theorem utf8_injective : Function.Injective utf8 := by
  intro s t h
  apply String.ofList_inj.mp
  apply String.toByteArray_inj.mp
  rw [String.toByteArray_ofList, String.toByteArray_ofList]
  exact congrArg List.toByteArray h

/-! ## Sorting -/

/-- `sorted(xs)` on a list of strings. -/
def sortedStr (xs : List PyStr) : List PyStr := xs.insertionSort PyStr.le

end AuditLog
