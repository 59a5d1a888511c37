import AuditLog.Python.Spelling

/-!
# `int(text)`

A decimal integer as Python reads it: whitespace around it, a sign, and digits in groups
between single underscores. Texts of more than 4300 digits are refused like texts that are
no number.
-/

namespace AuditLog

/-- What `str.isspace` holds for beyond ASCII. -/
def wideSpaces : List Nat :=
  [0x85, 0xa0, 0x1680, 0x2000, 0x2001, 0x2002, 0x2003, 0x2004, 0x2005, 0x2006, 0x2007, 0x2008,
    0x2009, 0x200a, 0x2028, 0x2029, 0x202f, 0x205f, 0x3000]

/-- What `int` skips at both ends; the separators from `0x1c` to `0x1f` are no space to it. -/
def isIntSpace (c : Char) : Bool :=
  decide (9 ≤ c.toNat ∧ c.toNat ≤ 13) || c = ' ' || decide (c.toNat ∈ wideSpaces)

/-- What is left of a text when the spaces at both ends are gone. -/
def strip {χ : Type} (isSpace : χ → Bool) (text : List χ) : List χ :=
  (text.dropWhile isSpace).rdropWhile isSpace

/-- `sys.int_info.default_max_str_digits`. -/
def maxStrDigits : Nat := 4300

/-- The digits between the underscores; none where an underscore does not stand between two. -/
def digitGroups (text : List Char) : Option (List Char) :=
  let groups := text.splitOn '_'
  if groups.all (fun g => !g.isEmpty && g.all Char.isDigit) then some groups.flatten else none

/-- The number, without its sign. -/
def unsignedInt (text : List Char) : Option Nat :=
  (digitGroups text).bind fun ds =>
    if maxStrDigits < ds.length then none else some (Nat.ofDigitChars 10 ds 0)

/-- `int(text)`; `none` stands for `ValueError`. -/
def pyInt (text : List Char) : Option Int :=
  match strip isIntSpace text with
  | '-' :: ds => (unsignedInt ds).map fun n : Nat => -(n : Int)
  | '+' :: ds => (unsignedInt ds).map Int.ofNat
  | ds => (unsignedInt ds).map Int.ofNat

example : pyInt "  +1_000\t".toList = some 1000 := by decide

/-! ## Spaces -/

section Strip

variable {χ : Type} {isSpace : χ → Bool}

variable (isSpace) in
/-- Only spaces are stripped. -/
theorem exists_strip (text : List χ) : ∃ before after, (∀ c ∈ before, isSpace c = true) ∧
    (∀ c ∈ after, isSpace c = true) ∧ text = before ++ strip isSpace text ++ after := by
  refine ⟨text.takeWhile isSpace, (text.dropWhile isSpace).rtakeWhile isSpace, ?_, ?_, ?_⟩
  · exact fun c hc => List.mem_takeWhile_imp hc
  · exact fun c hc => List.mem_rtakeWhile_imp hc
  · unfold strip
    rw [List.append_assoc, List.rdropWhile_append_rtakeWhile, List.takeWhile_append_dropWhile]

/-- All spaces are stripped. -/
theorem strip_eq {before core after : List χ} (hbefore : ∀ c ∈ before, isSpace c = true)
    (hafter : ∀ c ∈ after, isSpace c = true) (hne : core ≠ [])
    (hhead : ∀ c ∈ core.head?, isSpace c = false) (hlast : ∀ c ∈ core.getLast?, isSpace c = false) :
    strip isSpace (before ++ core ++ after) = core := by
  have hfront : (before ++ core ++ after).dropWhile isSpace = core ++ after := by
    rw [List.append_assoc, List.dropWhile_append_of_pos hbefore]
    cases core with
    | nil => exact absurd rfl hne
    | cons c cs => exact List.dropWhile_cons_of_neg (by simp [hhead c rfl])
  have hback : (after.reverse ++ core.reverse).dropWhile isSpace = core.reverse := by
    rw [List.dropWhile_append_of_pos fun c hc => hafter c (List.mem_reverse.mp hc)]
    cases hreverse : core.reverse with
    | nil => rfl
    | cons c cs =>
      have hc : c ∈ core.getLast? := by
        rw [← List.head?_reverse, hreverse]
        rfl
      exact List.dropWhile_cons_of_neg (by simp [hlast c hc])
  unfold strip List.rdropWhile
  rw [hfront, List.reverse_append, hback, List.reverse_reverse]

end Strip

theorem isIntSpace_digit {c : Char} (h : c.isDigit = true) : isIntSpace c = false := by
  have hle := toNat_le_of_isDigit h
  have hge : '0'.toNat ≤ c.toNat := by
    simp only [Char.isDigit, Bool.and_eq_true, decide_eq_true_eq] at h
    exact UInt32.le_iff_toNat_le.mp h.1
  have hwide : ∀ n ∈ wideSpaces, '9'.toNat < n := by decide
  have hspace : c ≠ ' ' := by
    rintro rfl
    exact absurd hge (by decide)
  have hnot : c.toNat ∉ wideSpaces := fun hmem => absurd (hwide _ hmem) (by omega)
  have hzero : '0'.toNat = 48 := by decide
  simp only [isIntSpace, hnot, hspace, decide_false, Bool.or_false, decide_eq_false_iff_not]
  omega

/-! ## Groups of digits -/

theorem digitGroups_eq_some_iff {text ds : List Char} : digitGroups text = some ds ↔
    ∃ groups, groups ≠ [] ∧ (∀ g ∈ groups, Digits g) ∧ text = ['_'].intercalate groups ∧
      ds = groups.flatten := by
  have hall : ∀ groups : List (List Char),
      (groups.all fun g => !g.isEmpty && g.all Char.isDigit) = true ↔ ∀ g ∈ groups, Digits g := by
    intro groups
    simp [Digits]
  unfold digitGroups
  constructor
  · intro h
    dsimp only at h
    split at h
    · rename_i hdigits
      cases h
      exact ⟨_, List.splitOn_ne_nil _ _, (hall _).mp hdigits, (List.intercalate_splitOn _).symm, rfl⟩
    · cases h
  · rintro ⟨groups, hne, hdigits, rfl, rfl⟩
    have hplain : ∀ g ∈ groups, '_' ∉ g := by
      intro g hg hmem
      exact absurd ((hdigits g hg).2 _ hmem) (by decide)
    have hsplit : (['_'].intercalate groups).splitOn '_' = groups :=
      List.splitOn_intercalate '_' hplain hne
    dsimp only
    rw [hsplit, if_pos ((hall _).mpr hdigits)]

/-- Groups of digits begin and end with a digit. -/
theorem intercalate_ends {groups : List (List Char)} (hne : groups ≠ [])
    (hdigits : ∀ g ∈ groups, Digits g) :
    ∃ d mid, ['_'].intercalate groups = d :: mid ∧ d.isDigit = true ∧
      ∀ c ∈ (d :: mid).getLast?, c.isDigit = true := by
  induction groups with
  | nil => exact absurd rfl hne
  | cons g groups ih =>
    obtain ⟨hg, hgdigits⟩ := hdigits g List.mem_cons_self
    obtain ⟨d, ds, rfl⟩ := List.exists_cons_of_ne_nil hg
    by_cases hrest : groups = []
    · subst hrest
      refine ⟨d, ds, List.intercalate_singleton, hgdigits d List.mem_cons_self, ?_⟩
      exact fun c hc => hgdigits c (List.mem_of_getLast? hc)
    · obtain ⟨e, mid, hjoin, -, hlast⟩ := ih hrest fun g hg => hdigits g (List.mem_cons_of_mem _ hg)
      refine ⟨d, ds ++ '_' :: e :: mid, ?_, hgdigits d List.mem_cons_self, ?_⟩
      · rw [List.intercalate_cons_of_ne_nil hrest, hjoin]
        simp
      · intro c hc
        apply hlast c
        rwa [← List.cons_append, List.getLast?_append_of_ne_nil _ (List.cons_ne_nil _ _),
          List.getLast?_cons_cons] at hc

theorem unsignedInt_eq_some_iff {text : List Char} {n : Nat} : unsignedInt text = some n ↔
    ∃ groups, groups ≠ [] ∧ (∀ g ∈ groups, Digits g) ∧ groups.flatten.length ≤ maxStrDigits ∧
      text = ['_'].intercalate groups ∧ n = Nat.ofDigitChars 10 groups.flatten 0 := by
  unfold unsignedInt
  rw [Option.bind_eq_some_iff]
  constructor
  · rintro ⟨ds, hds, h⟩
    obtain ⟨groups, hne, hdigits, rfl, rfl⟩ := digitGroups_eq_some_iff.mp hds
    split at h
    · cases h
    · rename_i hlength
      cases h
      exact ⟨groups, hne, hdigits, Nat.le_of_not_lt hlength, rfl, rfl⟩
  · rintro ⟨groups, hne, hdigits, hlength, rfl, rfl⟩
    refine ⟨_, digitGroups_eq_some_iff.mpr ⟨groups, hne, hdigits, rfl, rfl⟩, ?_⟩
    rw [if_neg (Nat.not_lt.mpr hlength)]

/-! ## The grammar -/

/-- The sign of a number and how it is written. -/
inductive SpellsSign : List Char → (Nat → Int) → Prop where
  | none : SpellsSign [] Int.ofNat
  | plus : SpellsSign ['+'] Int.ofNat
  | minus : SpellsSign ['-'] fun n : Nat => -(n : Int)

/-- The texts that `int` accepts, and what it reads. -/
def SpellsPyInt (text : List Char) (n : Int) : Prop :=
  ∃ before after sign apply groups, (∀ c ∈ before, isIntSpace c = true) ∧
    (∀ c ∈ after, isIntSpace c = true) ∧ SpellsSign sign apply ∧ groups ≠ [] ∧
    (∀ g ∈ groups, Digits g) ∧ groups.flatten.length ≤ maxStrDigits ∧
    text = before ++ (sign ++ ['_'].intercalate groups) ++ after ∧
    n = apply (Nat.ofDigitChars 10 groups.flatten 0)

/-- **What `int` reads.** -/
theorem pyInt_eq_some_iff {text : List Char} {n : Int} : pyInt text = some n ↔ SpellsPyInt text n := by
  constructor
  · intro h
    obtain ⟨before, after, hbefore, hafter, htext⟩ := exists_strip isIntSpace text
    have hsigned : ∀ (sign ds : List Char) (apply : Nat → Int), SpellsSign sign apply →
        strip isIntSpace text = sign ++ ds → (unsignedInt ds).map apply = some n →
        SpellsPyInt text n := by
      intro sign ds apply hsign hstrip hread
      obtain ⟨m, hm, rfl⟩ := Option.map_eq_some_iff.mp hread
      obtain ⟨groups, hne, hdigits, hlength, rfl, rfl⟩ := unsignedInt_eq_some_iff.mp hm
      rw [hstrip] at htext
      exact ⟨before, after, sign, apply, groups, hbefore, hafter, hsign, hne, hdigits, hlength,
        htext, rfl⟩
    unfold pyInt at h
    split at h
    · rename_i ds hstrip
      exact hsigned ['-'] ds _ .minus hstrip h
    · rename_i ds hstrip
      exact hsigned ['+'] ds _ .plus hstrip h
    · exact hsigned [] _ _ .none rfl h
  · rintro ⟨before, after, sign, apply, groups, hbefore, hafter, hsign, hne, hdigits, hlength, rfl,
      rfl⟩
    obtain ⟨d, mid, hjoin, hd, hlast⟩ := intercalate_ends hne hdigits
    have hread : unsignedInt (d :: mid) = some (Nat.ofDigitChars 10 groups.flatten 0) := by
      rw [← hjoin]
      exact unsignedInt_eq_some_iff.mpr ⟨groups, hne, hdigits, hlength, rfl, rfl⟩
    have hends : ∀ c ∈ (sign ++ d :: mid).getLast?, isIntSpace c = false := by
      intro c hc
      rw [List.getLast?_append_of_ne_nil _ (List.cons_ne_nil _ _)] at hc
      exact isIntSpace_digit (hlast c hc)
    have hne' : sign ++ d :: mid ≠ [] := List.append_ne_nil_of_right_ne_nil _ (List.cons_ne_nil _ _)
    have hcore : strip isIntSpace (before ++ (sign ++ ['_'].intercalate groups) ++ after) =
        sign ++ d :: mid := by
      rw [hjoin]
      refine strip_eq hbefore hafter hne' ?_ hends
      intro c hc
      cases hsign with
      | none =>
        cases hc
        exact isIntSpace_digit hd
      | plus =>
        cases hc
        decide
      | minus =>
        cases hc
        decide
    unfold pyInt
    rw [hcore]
    cases hsign with
    | plus => exact congrArg (Option.map Int.ofNat) hread
    | minus => exact congrArg (Option.map fun n : Nat => -(n : Int)) hread
    | none =>
      rw [List.nil_append]
      split
      · rename_i ds heq
        cases heq
        exact absurd hd (by decide)
      · rename_i ds heq
        cases heq
        exact absurd hd (by decide)
      · rw [hread]
        rfl

end AuditLog
