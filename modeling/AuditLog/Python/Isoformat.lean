import AuditLog.Library.Decoding
import AuditLog.Python.DateTime
import AuditLog.Python.Number

/-!
# Reading an ISO text back

`isoformat` prints every field between characters that are no digits, so the text
determines the fields; the fields of the date determine the day. Two datetimes
with one text show the same clock and have the same offset.
-/

namespace AuditLog

open Decoding

/-! ## Days and dates -/

theorem le_monthDay_fst (year fuel month day : Nat) : month ≤ (monthDay year fuel month day).1 := by
  induction fuel generalizing month day with
  | zero => exact Nat.le_refl month
  | succ fuel ih =>
    unfold monthDay
    split
    · exact Nat.le_refl month
    · exact Nat.le_trans (Nat.le_succ month) (ih (month + 1) _)

/-- Within a year, the month and the day of the month determine the day. -/
theorem monthDay_injective (year fuel month : Nat) :
    Function.Injective (monthDay year fuel month) := by
  induction fuel generalizing month with
  | zero =>
    intro a b h
    simpa [monthDay] using h
  | succ fuel ih =>
    intro a b h
    unfold monthDay at h
    have hlater := fun day => le_monthDay_fst year fuel (month + 1) day
    -- One day in this month and the other in a later one print different months.
    split at h <;> split at h
    · simpa using h
    · have hfst := congrArg Prod.fst h
      have hge := hlater (b - daysInMonth year month)
      omega
    · have hfst := congrArg Prod.fst h
      have hge := hlater (a - daysInMonth year month)
      omega
    · have hrest := ih (month + 1) h
      omega

/-- The day by the cycles it lies in, each count smaller than its cycle. -/
theorem dateOfDays_cycles (days : Nat) : ∃ n400 n100 n4 n1 day : Nat,
    n100 ≤ 3 ∧ n4 ≤ 24 ∧ n1 ≤ 3 ∧
      days = n400 * 146097 + n100 * 36524 + n4 * 1461 + n1 * 365 + day ∧
      dateOfDays days = (n400 * 400 + n100 * 100 + n4 * 4 + n1 + 1,
        monthDay (n400 * 400 + n100 * 100 + n4 * 4 + n1 + 1) 11 1 day) := by
  refine ⟨_, _, _, _, _, ?_, ?_, ?_, ?_, rfl⟩
  · exact Nat.min_le_right _ _
  · omega
  · exact Nat.min_le_right _ _
  · omega

/-- **The date determines the day.** -/
theorem dateOfDays_injective : Function.Injective dateOfDays := by
  intro a b h
  rcases dateOfDays_cycles a with ⟨a400, a100, a4, a1, aday, ha100, ha4, ha1, ha, hadate⟩
  rcases dateOfDays_cycles b with ⟨b400, b100, b4, b1, bday, hb100, hb4, hb1, hb, hbdate⟩
  rw [hadate, hbdate] at h
  rcases Prod.mk.inj h with ⟨hyear, hday⟩
  rw [hyear] at hday
  have hrest := monthDay_injective _ _ _ hday
  -- Read in mixed radix, the year gives the four counts.
  obtain rfl : a400 = b400 := by omega
  obtain rfl : a100 = b100 := by omega
  obtain rfl : a4 = b4 := by omega
  omega

/-! ## Fields -/

namespace DateTime

/-- The text goes on with something that is no digit. -/
abbrev EndsField (r : List Char) : Prop := EndsToken (fun c : Char => c.isDigit = true) r

theorem padded_isDigit {width n : Nat} {c : Char} (h : c ∈ padded width n) : c.isDigit = true := by
  unfold padded List.leftpad at h
  rcases List.mem_append.mp h with h | h
  · rw [List.eq_of_mem_replicate h]
    decide
  · exact isDigit_of_mem_toDigits h

/-- The zeros in front do not change the number. -/
theorem padded_injective (width : Nat) : Function.Injective (padded width) := by
  have hvalue : ∀ n, Nat.ofDigitChars 10 (padded width n) 0 = n := by
    intro n
    unfold padded List.leftpad
    rw [Nat.ofDigitChars_append, Nat.ofDigitChars_replicate_zero, Nat.mul_zero,
      Nat.ofDigitChars_ten_toDigits]
  intro m n h
  rw [← hvalue m, h, hvalue n]

/-- A number can be read off the text in front of anything that is no digit. -/
theorem padded_unique {width m n : Nat} {r s : List Char} (hr : EndsField r) (hs : EndsField s)
    (h : padded width m ++ r = padded width n ++ s) : m = n ∧ r = s := by
  have htoken := token_unique (fun c => padded_isDigit) (fun c => padded_isDigit) hr hs h
  exact ⟨padded_injective width htoken.1, htoken.2⟩

theorem endsField_nil : EndsField [] := by
  intro c hc
  cases hc

theorem endsField_cons {c : Char} (hc : c.isDigit = false) (r : List Char) : EndsField (c :: r) := by
  intro d hd
  cases hd
  intro hdigit
  rw [hc] at hdigit
  cases hdigit

/-- A number behind a separator. -/
theorem padded_cons_unique {width m n : Nat} {c : Char} (hc : c.isDigit = false) {r s : List Char}
    (h : padded width m ++ c :: r = padded width n ++ c :: s) : m = n ∧ r = s := by
  have hfield := padded_unique (endsField_cons hc r) (endsField_cons hc s) h
  exact ⟨hfield.1, (List.cons.inj hfield.2).2⟩

/-- **The offset can be read off its text.** -/
theorem offsetText_injective : Function.Injective offsetText := by
  intro a b h
  simp only [offsetText, List.append_assoc, List.cons_append, List.cons.injEq] at h
  rcases h with ⟨hsign, htext⟩
  rcases padded_cons_unique (by decide) htext with ⟨hhours, htext⟩
  have hends : ∀ s : Nat, EndsField (if s % 60 = 0 then [] else ':' :: padded 2 (s % 60)) := by
    intro s
    split
    · exact endsField_nil
    · exact endsField_cons (by decide) _
  rcases padded_unique (hends _) (hends _) htext with ⟨hminutes, htext⟩
  have hseconds : a.natAbs % 60 = b.natAbs % 60 := by
    split at htext <;> split at htext
    · omega
    · cases htext
    · cases htext
    · exact padded_injective 2 (List.cons.inj htext).2
  have hnegative : a < 0 ↔ b < 0 := by
    split at hsign <;> split at hsign
    · omega
    · exact absurd hsign (by decide)
    · exact absurd hsign (by decide)
    · omega
  omega

theorem offsetText_head (seconds : Int) :
    ∃ c cs, offsetText seconds = c :: cs ∧ (c = '-' ∨ c = '+') := by
  refine ⟨_, _, rfl, ?_⟩
  split
  · exact Or.inl rfl
  · exact Or.inr rfl

theorem endsField_offsetText (seconds : Int) : EndsField (offsetText seconds) := by
  rcases offsetText_head seconds with ⟨c, cs, htext, hc⟩
  rw [htext]
  rcases hc with rfl | rfl
  · exact endsField_cons (by decide) cs
  · exact endsField_cons (by decide) cs

/-- The fraction of a second and the offset, which is signed and never starts with a point. -/
theorem fraction_unique {m n : Nat} {a b : Int}
    (h : (if m = 0 then [] else '.' :: padded 6 m) ++ offsetText a =
      (if n = 0 then [] else '.' :: padded 6 n) ++ offsetText b) : m = n ∧ a = b := by
  have hpoint : ∀ (seconds : Int) (cs : List Char), offsetText seconds ≠ '.' :: cs := by
    intro seconds cs htext
    rcases offsetText_head seconds with ⟨c, cs', htext', hc⟩
    rw [htext'] at htext
    rw [(List.cons.inj htext).1] at hc
    revert hc
    decide
  split at h <;> split at h
  · have htext : offsetText a = offsetText b := h
    exact ⟨by omega, offsetText_injective htext⟩
  · exact absurd h (hpoint a _)
  · exact absurd h.symm (hpoint b _)
  · have htext := (List.cons.inj h).2
    have hfield := padded_unique (endsField_offsetText a) (endsField_offsetText b) htext
    exact ⟨hfield.1, offsetText_injective hfield.2⟩

/-! ## The text -/

/-- The day and the fields of the clock give the microsecond. -/
theorem micros_unique {m n : Nat} (hdays : m / microsPerDay = n / microsPerDay)
    (hhours : m % microsPerDay / 3600000000 = n % microsPerDay / 3600000000)
    (hminutes : m % microsPerDay / 60000000 % 60 = n % microsPerDay / 60000000 % 60)
    (hseconds : m % microsPerDay / 1000000 % 60 = n % microsPerDay / 1000000 % 60)
    (hfraction : m % microsPerDay % 1000000 = n % microsPerDay % 1000000) : m = n := by
  simp only [microsPerDay] at *
  omega

/-- **The text determines the datetime**: its clock and its offset. -/
theorem isoformat_injective : Function.Injective isoformat := by
  intro s t h
  have htext := PyStr.ofChars_injective h
  simp only [List.append_assoc, List.cons_append] at htext
  rcases padded_cons_unique (by decide) htext with ⟨hyear, htext⟩
  rcases padded_cons_unique (by decide) htext with ⟨hmonth, htext⟩
  rcases padded_cons_unique (by decide) htext with ⟨hday, htext⟩
  rcases padded_cons_unique (by decide) htext with ⟨hhours, htext⟩
  rcases padded_cons_unique (by decide) htext with ⟨hminutes, htext⟩
  have hends : ∀ (n : Nat) (a : Int),
      EndsField ((if n = 0 then [] else '.' :: padded 6 n) ++ offsetText a) := by
    intro n a
    split
    · exact endsField_offsetText a
    · exact endsField_cons (by decide) _
  rcases padded_unique (hends _ _) (hends _ _) htext with ⟨hseconds, htext⟩
  rcases fraction_unique htext with ⟨hfraction, hoffset⟩
  have hdate : dateOfDays (s.micros / microsPerDay) = dateOfDays (t.micros / microsPerDay) :=
    Prod.ext hyear (Prod.ext hmonth hday)
  have hmicros := micros_unique (dateOfDays_injective hdate) hhours hminutes hseconds hfraction
  cases s
  cases t
  cases hmicros
  cases hoffset
  rfl

end DateTime

end AuditLog
