import AuditLog.Api.Routes
import AuditLog.Python.IntLiteral

/-!
# The body size limit (`body_size_limit.py`)

A request is refused by its `Content-Length` header, before its body is read. A header that
`int` does not read lets the request pass, and so does one of too many digits.
-/

namespace AuditLog

/-- The response to a body of that size. -/
def bodyTooLarge (maxRequestBodyBytes declaredSize : Int) : HttpError :=
  .httpException 413 [.text "Request body of ", .int declaredSize,
    .text " bytes exceeds the maximum of ", .int maxRequestBodyBytes, .text " bytes."]

/-- `MaxBodySizeMiddleware.dispatch`, up to `call_next`. -/
def checkBodySize (maxRequestBodyBytes : Int) (contentLength : Option (List Char)) :
    Except HttpError Unit :=
  match contentLength.bind pyInt with
  | some declaredSize =>
    if maxRequestBodyBytes < declaredSize then
      .error (bodyTooLarge maxRequestBodyBytes declaredSize)
    else .ok ()
  | none => .ok ()

theorem checkBodySize_error_iff {maxRequestBodyBytes : Int} {contentLength : Option (List Char)}
    {err : HttpError} : checkBodySize maxRequestBodyBytes contentLength = .error err ↔
      ∃ text n, contentLength = some text ∧ pyInt text = some n ∧ maxRequestBodyBytes < n ∧
        err = bodyTooLarge maxRequestBodyBytes n := by
  unfold checkBodySize
  cases hread : contentLength.bind pyInt with
  | none =>
    refine iff_of_false (by rintro ⟨⟩) ?_
    rintro ⟨text, n, rfl, hn, -⟩
    rw [Option.bind_some, hn] at hread
    cases hread
  | some declaredSize =>
    obtain ⟨text, rfl, htext⟩ := Option.bind_eq_some_iff.mp hread
    dsimp only
    split
    · rename_i hlarge
      constructor
      · intro h
        cases h
        exact ⟨text, declaredSize, rfl, htext, hlarge, rfl⟩
      · rintro ⟨text', n, heq, hn, -, rfl⟩
        cases heq
        rw [htext] at hn
        cases hn
        rfl
    · rename_i hsmall
      refine iff_of_false (by rintro ⟨⟩) ?_
      rintro ⟨text', n, heq, hn, hlarge, -⟩
      cases heq
      rw [htext] at hn
      cases hn
      exact hsmall hlarge

/-- A text of digits is read, unless there are too many. -/
theorem pyInt_digits {ds : List Char} (h : Digits ds) : pyInt ds =
    if maxStrDigits < ds.length then none else some (Nat.ofDigitChars 10 ds 0 : Int) := by
  have hgroups : digitGroups ds = some ds :=
    digitGroups_eq_some_iff.mpr ⟨[ds], by simp, by simpa using h, by simp, by simp⟩
  have hunsigned : unsignedInt ds =
      if maxStrDigits < ds.length then none else some (Nat.ofDigitChars 10 ds 0) := by
    unfold unsignedInt
    rw [hgroups, Option.bind_some]
  have hstrip : strip isIntSpace ds = ds := by
    have hends : ∀ c ∈ ds, isIntSpace c = false := fun c hc => isIntSpace_digit (h.2 c hc)
    have hcore : strip isIntSpace ([] ++ ds ++ []) = ds :=
      strip_eq (by simp) (by simp) h.1 (fun c hc => hends c (List.mem_of_head? hc))
        fun c hc => hends c (List.mem_of_getLast? hc)
    rwa [List.nil_append, List.append_nil] at hcore
  have hsign : ∀ c cs, c.isDigit = false → ds ≠ c :: cs := by
    rintro c cs hc rfl
    exact absurd (h.2 c List.mem_cons_self) (by simp [hc])
  unfold pyInt
  rw [hstrip]
  split
  · exact absurd rfl (hsign _ _ (by decide))
  · exact absurd rfl (hsign _ _ (by decide))
  · rw [hunsigned]
    split <;> rfl

/-- **The body size limit.** A request is refused exactly if its `Content-Length` spells a
number over the limit for `int`; for a plain decimal these are the numbers over the limit
that have no more than 4300 digits. -/
theorem bodySize_refused_iff (maxRequestBodyBytes : Int) :
    (∀ contentLength err, checkBodySize maxRequestBodyBytes contentLength = .error err ↔
      ∃ text n, contentLength = some text ∧ SpellsPyInt text n ∧ maxRequestBodyBytes < n ∧
        err = bodyTooLarge maxRequestBodyBytes n) ∧
    ∀ n : Nat, checkBodySize maxRequestBodyBytes (some (Nat.toDigits 10 n)) = .ok () ↔
      (n : Int) ≤ maxRequestBodyBytes ∨ 10 ^ maxStrDigits ≤ n := by
  constructor
  · intro contentLength err
    simp only [checkBodySize_error_iff, pyInt_eq_some_iff]
  · intro n
    have hlength : maxStrDigits < (Nat.toDigits 10 n).length ↔ 10 ^ maxStrDigits ≤ n := by
      rw [← Nat.not_le, Nat.length_toDigits_le_iff (by decide) (by decide : 0 < maxStrDigits),
        Nat.not_lt]
    have hread : pyInt (Nat.toDigits 10 n) =
        if 10 ^ maxStrDigits ≤ n then none else some (n : Int) := by
      rw [pyInt_digits (wholePart_toDigits n).1, Nat.ofDigitChars_ten_toDigits]
      exact if_congr hlength rfl rfl
    by_cases hlong : 10 ^ maxStrDigits ≤ n
    · refine iff_of_true ?_ (Or.inr hlong)
      unfold checkBodySize
      rw [Option.bind_some, hread, if_pos hlong]
    · rw [or_iff_left hlong]
      unfold checkBodySize
      rw [Option.bind_some, hread, if_neg hlong]
      dsimp only
      split
      · rename_i hlarge
        exact iff_of_false (by rintro ⟨⟩) (Int.not_le.mpr hlarge)
      · rename_i hsmall
        exact iff_of_true rfl (Int.not_lt.mp hsmall)

end AuditLog
