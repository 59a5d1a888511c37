import Mathlib.Data.List.Perm.Basic

/-!
# Slots

A list of slots, one of which is refilled; what is read off the slots changes by what the
old and the new content give.
-/

namespace Slots

variable {α β : Type*} {slots : List α} {i : Nat} {old : α}

/-- One slot is refilled: its old readings go and the new ones come. -/
theorem flatMap_set_perm (h : slots[i]? = some old) (read : α → List β) (new : α) :
    (read old ++ (slots.set i new).flatMap read).Perm (read new ++ slots.flatMap read) := by
  obtain ⟨hi, rfl⟩ := List.getElem?_eq_some_iff.mp h
  have hslots : slots = slots.take i ++ slots[i] :: slots.drop (i + 1) := by
    rw [← List.drop_eq_getElem_cons hi, List.take_append_drop]
  have hset : slots.set i new = slots.take i ++ new :: slots.drop (i + 1) := by
    rw [List.set_eq_take_append_cons_drop, if_pos hi]
  conv_rhs => rw [hslots]
  rw [hset, List.flatMap_append, List.flatMap_append, List.flatMap_cons, List.flatMap_cons]
  -- The two readings pass the slots in front, change places, and go back.
  refine (List.perm_append_comm_assoc _ _ _).trans (.trans ?_ (List.perm_append_comm_assoc _ _ _))
  exact (List.perm_append_comm_assoc _ _ _).append_left _

/-- A slot is refilled with what gives more. -/
theorem flatMap_set_perm_append (h : slots[i]? = some old) {read : α → List β} {new : α}
    {more : List β} (hmore : read new = read old ++ more) :
    ((slots.set i new).flatMap read).Perm (slots.flatMap read ++ more) := by
  have hperm := flatMap_set_perm h read new
  rw [hmore, List.append_assoc] at hperm
  exact ((List.perm_append_left_iff _).mp hperm).trans List.perm_append_comm

/-- The same for a reading that a slot need not give. -/
theorem filterMap_set_perm (h : slots[i]? = some old) (read : α → Option β) (new : α) :
    ((read old).toList ++ (slots.set i new).filterMap read).Perm
      ((read new).toList ++ slots.filterMap read) := by
  rw [List.filterMap_eq_flatMap_toList, List.filterMap_eq_flatMap_toList]
  exact flatMap_set_perm h (fun a => (read a).toList) new

/-- A slot that gives nothing is refilled. -/
theorem filterMap_set_perm_of_none (h : slots[i]? = some old) {read : α → Option β}
    (hold : read old = none) (new : α) :
    ((slots.set i new).filterMap read).Perm (slots.filterMap read ++ (read new).toList) := by
  have hperm := filterMap_set_perm h read new
  rw [hold] at hperm
  exact hperm.trans List.perm_append_comm

/-- A slot is refilled with what gives the same. -/
theorem filterMap_set_perm_of_eq (h : slots[i]? = some old) {read : α → Option β} {new : α}
    (hsame : read new = read old) : ((slots.set i new).filterMap read).Perm (slots.filterMap read) := by
  have hperm := filterMap_set_perm h read new
  rw [hsame] at hperm
  exact (List.perm_append_left_iff _).mp hperm

end Slots
