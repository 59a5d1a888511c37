import Mathlib.Data.List.Basic

/-!
# Entries and the entries before them

Statements about a list in which every entry is judged by what came before it.
-/

namespace History

variable {α : Type*} (P : List α → α → Prop)

/-- Every entry satisfies `P` after the entries before it. -/
def ForEach (xs : List α) : Prop := ∀ earlier a later, xs = earlier ++ a :: later → P earlier a

/-- Some entry satisfies `P` after the entries before it. -/
def ForSome (xs : List α) : Prop := ∃ earlier a later, xs = earlier ++ a :: later ∧ P earlier a

variable {P} {xs : List α} {x : α}

theorem eq_split_concat_iff {earlier later : List α} {a : α} :
    xs ++ [x] = earlier ++ a :: later ↔
      (later = [] ∧ xs = earlier ∧ x = a) ∨
        ∃ later', later = later' ++ [x] ∧ xs = earlier ++ a :: later' := by
  rcases List.eq_nil_or_concat later with rfl | ⟨later', last, rfl⟩
  · constructor
    · intro h
      obtain ⟨hxs, hx⟩ := List.append_inj' h rfl
      exact Or.inl ⟨rfl, hxs, List.singleton_inj.mp hx⟩
    · rintro (⟨-, rfl, rfl⟩ | ⟨later', hnil, -⟩)
      · rfl
      · simp at hnil
  · rw [List.concat_eq_append]
    constructor
    · intro h
      rw [← List.cons_append, ← List.append_assoc] at h
      obtain ⟨hxs, hx⟩ := List.append_inj' h rfl
      exact Or.inr ⟨later', by rw [List.singleton_inj.mp hx], hxs⟩
    · rintro (⟨hnil, -⟩ | ⟨later'', hlater, rfl⟩)
      · simp at hnil
      · rw [hlater, List.append_assoc, List.cons_append]

@[simp] theorem forEach_nil : ForEach P [] := by
  intro earlier a later h
  simp at h

@[simp] theorem not_forSome_nil : ¬ForSome P [] := by
  rintro ⟨earlier, a, later, h, -⟩
  simp at h

theorem forEach_concat : ForEach P (xs ++ [x]) ↔ ForEach P xs ∧ P xs x := by
  constructor
  · intro h
    refine ⟨fun earlier a later hxs => h earlier a (later ++ [x]) ?_, h xs x [] rfl⟩
    exact eq_split_concat_iff.mpr (Or.inr ⟨later, rfl, hxs⟩)
  · rintro ⟨hxs, hx⟩ earlier a later h
    rcases eq_split_concat_iff.mp h with ⟨-, rfl, rfl⟩ | ⟨later', -, hsplit⟩
    · exact hx
    · exact hxs earlier a later' hsplit

theorem forSome_concat : ForSome P (xs ++ [x]) ↔ ForSome P xs ∨ P xs x := by
  constructor
  · rintro ⟨earlier, a, later, h, hP⟩
    rcases eq_split_concat_iff.mp h with ⟨-, rfl, rfl⟩ | ⟨later', -, hsplit⟩
    · exact Or.inr hP
    · exact Or.inl ⟨earlier, a, later', hsplit, hP⟩
  · rintro (⟨earlier, a, later, hxs, hP⟩ | hP)
    · exact ⟨earlier, a, later ++ [x], eq_split_concat_iff.mpr (Or.inr ⟨later, rfl, hxs⟩), hP⟩
    · exact ⟨xs, x, [], rfl, hP⟩

end History
