import AuditLog.Python.Text

/-!
# Aware datetimes

A `datetime` with a fixed UTC offset: the microseconds its own clock shows since
`0001-01-01T00:00:00`, and the offset in seconds. Aware datetimes compare by the
instant they denote, but `isoformat` prints the clock and the offset, so equal
instants can have different texts.
-/

namespace AuditLog

/-- Days from `0001-01-01` to the end of `9999-12-31`. -/
abbrev maxOrdinal : Nat := 3652059

abbrev microsPerDay : Nat := 86400000000

structure DateTime where
  micros : Nat
  utcoffset : Int
  inRange : micros < maxOrdinal * microsPerDay
  offsetInRange : -86400 < utcoffset ∧ utcoffset < 86400
deriving DecidableEq

theorem utc_inRange : -86400 < (0 : Int) ∧ (0 : Int) < 86400 := by decide

/-! ## The calendar -/

def isLeap (year : Nat) : Bool := year % 4 = 0 && (year % 100 ≠ 0 || year % 400 = 0)

def daysInMonth (year month : Nat) : Nat :=
  if month = 2 ∧ isLeap year then 29
  else [31, 28, 31, 30, 31, 30, 31, 31, 30, 31, 30, 31].getD (month - 1) 0

/-- Month and day of the `day`-th day (from 0) counted from a month on. -/
def monthDay (year : Nat) : Nat → Nat → Nat → Nat × Nat
  | 0, month, day => (month, day + 1)
  | fuel + 1, month, day =>
    if day < daysInMonth year month then (month, day + 1)
    else monthDay year fuel (month + 1) (day - daysInMonth year month)

/-- The date `days` days after `0001-01-01`, by cycles of 400, 100, 4 and 1 years. -/
def dateOfDays (days : Nat) : Nat × Nat × Nat :=
  let n400 := days / 146097
  let r400 := days % 146097
  -- The last day of a leap cycle belongs to its last year, not to the next one.
  let n100 := min (r400 / 36524) 3
  let r100 := r400 - n100 * 36524
  let n4 := r100 / 1461
  let r4 := r100 % 1461
  let n1 := min (r4 / 365) 3
  let year := n400 * 400 + n100 * 100 + n4 * 4 + n1 + 1
  (year, monthDay year 11 1 (r4 - n1 * 365))

namespace DateTime

/-- What aware datetimes compare by. -/
def instant (t : DateTime) : Int := t.micros - t.utcoffset * 1000000

instance : LT DateTime := ⟨fun s t => s.instant < t.instant⟩

instance (s t : DateTime) : Decidable (s < t) := inferInstanceAs (Decidable (s.instant < t.instant))

instance : LE DateTime := ⟨fun s t => s.instant ≤ t.instant⟩

instance (s t : DateTime) : Decidable (s ≤ t) := inferInstanceAs (Decidable (s.instant ≤ t.instant))

/-- `t - timedelta(days=days)`; `none` stands for `OverflowError`. -/
def subDays (t : DateTime) (days : Int) : Option DateTime :=
  let micros : Int := t.micros - days * microsPerDay
  if h : 0 ≤ micros ∧ micros < maxOrdinal * microsPerDay then
    some ⟨micros.toNat, t.utcoffset, by omega, t.offsetInRange⟩
  else none

/-- The datetime that denotes the instant at an offset; `none` when its clock would leave
the representable years. -/
def ofInstant (instant offset : Int) (hoffset : -86400 < offset ∧ offset < 86400) :
    Option DateTime :=
  let micros : Int := instant + offset * 1000000
  if h : 0 ≤ micros ∧ micros < maxOrdinal * microsPerDay then
    some ⟨micros.toNat, offset, by omega, hoffset⟩
  else none

theorem ofInstant_eq_some_iff {instant offset : Int} {hoffset : -86400 < offset ∧ offset < 86400}
    {t : DateTime} :
    ofInstant instant offset hoffset = some t ↔ t.instant = instant ∧ t.utcoffset = offset := by
  unfold ofInstant
  dsimp only
  constructor
  · intro h
    split at h
    · rename_i hrange
      cases h
      refine ⟨?_, rfl⟩
      show ((instant + offset * 1000000).toNat : Int) - offset * 1000000 = instant
      rw [Int.toNat_of_nonneg hrange.1]
      omega
    · cases h
  · rintro ⟨rfl, rfl⟩
    have hclock : t.instant + t.utcoffset * 1000000 = t.micros := by
      unfold DateTime.instant
      omega
    have hrange := t.inRange
    rw [dif_pos (by rw [hclock]; omega)]
    cases t
    simp only [hclock, Int.toNat_natCast]

/-- Datetimes that denote one instant at one offset are equal. -/
theorem eq_of_instant_eq {s t : DateTime} (hinstant : s.instant = t.instant)
    (hoffset : s.utcoffset = t.utcoffset) : s = t := by
  have hs : ofInstant t.instant t.utcoffset t.offsetInRange = some s :=
    ofInstant_eq_some_iff.mpr ⟨hinstant, hoffset⟩
  have ht : ofInstant t.instant t.utcoffset t.offsetInRange = some t :=
    ofInstant_eq_some_iff.mpr ⟨rfl, rfl⟩
  exact Option.some.inj (hs.symm.trans ht)

/-- A number padded with zeros, as `"%0*d"` prints it. -/
def padded (width n : Nat) : List Char := (Nat.toDigits 10 n).leftpad width '0'

/-- `+HH:MM`, with `:SS` when the offset has seconds. -/
def offsetText (seconds : Int) : List Char :=
  let s := seconds.natAbs
  (if seconds < 0 then '-' else '+') :: (padded 2 (s / 3600) ++ ':' :: padded 2 (s / 60 % 60) ++
    if s % 60 = 0 then [] else ':' :: padded 2 (s % 60))

/-- `t.isoformat()`. -/
def isoformat (t : DateTime) : PyStr :=
  let (year, month, day) := dateOfDays (t.micros / microsPerDay)
  let us := t.micros % microsPerDay
  let fraction := us % 1000000
  PyStr.ofChars (padded 4 year ++ '-' :: padded 2 month ++ '-' :: padded 2 day ++
    'T' :: padded 2 (us / 3600000000) ++ ':' :: padded 2 (us / 60000000 % 60) ++
    ':' :: padded 2 (us / 1000000 % 60) ++
    (if fraction = 0 then [] else '.' :: padded 6 fraction) ++ offsetText t.utcoffset)

/-- An instant for concrete instances. -/
def sample : DateTime := ⟨63846880497000120, 0, by decide, utc_inRange⟩

example : sample.isoformat = "2024-03-24T12:34:57.000120+00:00" := by
  decide +kernel

end DateTime

end AuditLog
