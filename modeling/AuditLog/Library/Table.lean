import Mathlib.Data.List.Nodup
import Mathlib.Order.Basic

/-!
# Rows with a key

A table is a list of rows in strict order of their keys. One row is updated in
place; the other rows keep their places and their keys.
-/

namespace Table

variable {α κ : Type*} {key : α → κ} {rows : List α} {old row : α} {k : κ}

/-- Rows with the same key are the same row. -/
theorem eq_of_key_eq [Preorder κ] (hordered : rows.Pairwise fun a b => key a < key b) {a b : α} (ha : a ∈ rows)
    (hb : b ∈ rows) (h : key a = key b) : a = b := by
  have hnodup : (rows.map key).Nodup := by
    rw [List.Nodup, List.pairwise_map]
    exact hordered.imp ne_of_lt
  exact List.inj_on_of_nodup_map hnodup ha hb h

/-- A table is determined by the rows in it. -/
theorem eq_of_mem_iff [Preorder κ] {rows' : List α} (hordered : rows.Pairwise fun a b => key a < key b)
    (hordered' : rows'.Pairwise fun a b => key a < key b) (h : ∀ a, a ∈ rows ↔ a ∈ rows') :
    rows = rows' := by
  have hnodup : ∀ {as : List α}, as.Pairwise (fun a b => key a < key b) → as.Nodup := by
    intro as has
    refine has.imp fun {a b} hab heq => ?_
    rw [heq] at hab
    exact lt_irrefl _ hab
  have hperm := (List.perm_ext_iff_of_nodup (hnodup hordered) (hnodup hordered')).mpr h
  exact hperm.eq_of_pairwise (fun a b _ _ hab hba => absurd hba (lt_asymm hab)) hordered hordered'

variable [DecidableEq κ]

/-- The rows, with another row in the place of the one with the given key. -/
def replace (key : α → κ) (rows : List α) (k : κ) (row : α) : List α :=
  rows.map fun a => if key a = k then row else a

/-- An update of the row with the given key puts the updated row in its place. -/
theorem map_update_eq_replace [Preorder κ] (hordered : rows.Pairwise fun a b => key a < key b)
    (hold : old ∈ rows) (hkey : key old = k) (f : α → α) :
    (rows.map fun a => if key a = k then f a else a) = replace key rows k (f old) := by
  apply List.map_congr_left
  intro a ha
  by_cases hak : key a = k
  · have hsame : a = old := eq_of_key_eq hordered ha hold (hak.trans hkey.symm)
    rw [if_pos hak, if_pos hak, hsame]
  · rw [if_neg hak, if_neg hak]

/-- The other rows are there as before. -/
theorem mem_replace_of_ne (key : α → κ) (hrow : key row = k) {a : α} (ha : key a ≠ k) :
    a ∈ replace key rows k row ↔ a ∈ rows := by
  unfold replace
  rw [List.mem_map]
  constructor
  · rintro ⟨b, hb, rfl⟩
    split at ha
    · exact absurd hrow ha
    · rename_i hbk
      rw [if_neg hbk]
      exact hb
  · intro hmem
    exact ⟨a, hmem, if_neg ha⟩

theorem mem_replace_iff (key : α → κ) (hold : old ∈ rows) (hkey : key old = k)
    (hrow : key row = k) {a : α} :
    a ∈ replace key rows k row ↔ (a ∈ rows ∧ key a ≠ k) ∨ a = row := by
  by_cases hak : key a = k
  · constructor
    · intro ha
      rcases List.mem_map.mp ha with ⟨b, -, hba⟩
      split at hba
      · exact Or.inr hba.symm
      · rename_i hbk
        exact absurd (hba ▸ hak) hbk
    · rintro (⟨-, hne⟩ | rfl)
      · exact absurd hak hne
      · exact List.mem_map.mpr ⟨old, hold, if_pos hkey⟩
  · rw [mem_replace_of_ne key hrow hak]
    constructor
    · intro ha
      exact Or.inl ⟨ha, hak⟩
    · rintro (⟨ha, -⟩ | rfl)
      · exact ha
      · exact absurd hrow hak

/-- Where all keys are larger there is nothing to replace. -/
theorem replace_of_forall_lt [Preorder κ] (h : ∀ a ∈ rows, k < key a) : replace key rows k row = rows := by
  have hid : replace key rows k row = rows.map id := by
    apply List.map_congr_left
    intro a ha
    exact if_neg (ne_of_gt (h a ha))
  rw [hid, List.map_id]

/-- The replaced row stands where the old one stood. -/
theorem replace_split [Preorder κ] {before after : List α}
    (hordered : (before ++ old :: after).Pairwise fun a b => key a < key b) (hkey : key old = k) :
    replace key (before ++ old :: after) k row = before ++ row :: after := by
  obtain ⟨-, hrest, hbefore⟩ := List.pairwise_append.mp hordered
  have hlt : ∀ a ∈ before, key a ≠ k := fun a ha heq => by
    have := hbefore a ha old List.mem_cons_self
    rw [heq, hkey] at this
    exact lt_irrefl _ this
  have hsame : before.map (fun a => if key a = k then row else a) = before :=
    (List.map_congr_left fun a ha => if_neg (hlt a ha)).trans (List.map_id _)
  unfold replace
  rw [List.map_append, List.map_cons, hsame, if_pos hkey]
  congr 2
  refine (List.map_congr_left fun a ha => if_neg ?_).trans (List.map_id _)
  have hgt := (List.pairwise_cons.mp hrest).1 a ha
  rw [hkey] at hgt
  exact ne_of_gt hgt

end Table
