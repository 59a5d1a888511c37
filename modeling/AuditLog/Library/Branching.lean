import Mathlib.Order.WellFounded

/-!
# Trees over any type

A type whose values have children, finitely deep: positions are lists of child indices.
A function that recurses over the children is matched to the positions: a height bounds
the branching nodes on every path from the root, a search finds what stands at some
position, and replacing a subtree by one of no greater height raises no height.
-/

/-- A type of trees: the children of a value, and the value with another child in one place. -/
structure Branching (α : Type*) where
  children : α → List α
  setChild : α → ℕ → α → α
  children_setChild : ∀ v i c, children (setChild v i c) = (children v).set i c
  wellFounded : WellFounded fun c v => c ∈ children v

namespace Branching

variable {α : Type*} (B : Branching α)

/-! ## Positions -/

/-- The value at a position, if there is one. -/
def at? : α → List ℕ → Option α
  | v, [] => some v
  | v, i :: p => (B.children v)[i]?.bind fun c => at? c p

/-- The values that the path to a position passes through, from the root on. -/
def trail : α → List ℕ → List α
  | v, [] => [v]
  | v, i :: p => v :: (B.children v)[i]?.elim [] fun c => trail c p

/-- The tree with another value at a position. -/
def replaceAt : α → List ℕ → α → α
  | _, [], new => new
  | v, i :: p, new => (B.children v)[i]?.elim v fun c => B.setChild v i (replaceAt c p new)

/-- The value has a child. -/
def branches (v : α) : Bool := !(B.children v).isEmpty

variable {B} {v w c old new : α} {i d : ℕ} {p : List ℕ}

@[simp] theorem at?_nil : B.at? v [] = some v := rfl

theorem at?_cons_eq_some_iff :
    B.at? v (i :: p) = some w ↔ ∃ c, (B.children v)[i]? = some c ∧ B.at? c p = some w :=
  Option.bind_eq_some_iff

@[simp] theorem trail_nil : B.trail v [] = [v] := rfl

theorem trail_cons (hc : (B.children v)[i]? = some c) : B.trail v (i :: p) = v :: B.trail c p := by
  rw [trail, hc]
  rfl

theorem replaceAt_cons (hc : (B.children v)[i]? = some c) :
    B.replaceAt v (i :: p) new = B.setChild v i (B.replaceAt c p new) := by
  rw [replaceAt, hc]
  rfl

theorem branches_iff : B.branches v = true ↔ ∃ c, c ∈ B.children v := by
  cases h : B.children v <;> simp [branches, h]

theorem branches_of_getElem? (hc : (B.children v)[i]? = some c) : B.branches v = true :=
  branches_iff.mpr ⟨c, List.mem_of_getElem? hc⟩

/-- What was put there is found there. -/
theorem at?_replaceAt (h : B.at? v p = some old) : B.at? (B.replaceAt v p new) p = some new := by
  induction p generalizing v with
  | nil => rfl
  | cons i p ih =>
    obtain ⟨c, hc, hold⟩ := at?_cons_eq_some_iff.mp h
    rw [replaceAt_cons hc, at?_cons_eq_some_iff, B.children_setChild]
    exact ⟨_, List.getElem?_set_self (List.getElem?_eq_some_iff.mp hc).1, ih hold⟩

/-! ## Heights -/

variable (B) in
/-- A height is above that of every child, and no larger than it has to be. -/
def IsHeight (height : α → ℕ) : Prop :=
  ∀ v d, height v ≤ d ↔ ∀ c ∈ B.children v, height c < d

/-- **The height bounds the paths**: it is at most `d` exactly if every path from the root
passes through at most `d` values that have children. -/
theorem IsHeight.le_iff {height : α → ℕ} (h : B.IsHeight height) (v : α) (d : ℕ) :
    height v ≤ d ↔
      ∀ p w, B.at? v p = some w → (B.trail v p).countP B.branches ≤ d := by
  constructor
  · intro hle p w hw
    induction p generalizing v d with
    | nil =>
      rw [trail_nil, List.countP_singleton]
      split
      · rename_i hbranches
        obtain ⟨c, hc⟩ := branches_iff.mp hbranches
        have hlt := (h v d).mp hle c hc
        omega
      · exact Nat.zero_le d
    | cons i p ih =>
      obtain ⟨c, hc, hwc⟩ := at?_cons_eq_some_iff.mp hw
      have hlt := (h v d).mp hle c (List.mem_of_getElem? hc)
      have hrest := ih c (d - 1) (by omega) hwc
      rw [trail_cons hc, List.countP_cons, if_pos (branches_of_getElem? hc)]
      omega
  · -- The paths of a child, with the root in front of them.
    induction v using B.wellFounded.induction generalizing d with
    | _ v ih =>
      intro hpaths
      rw [h v d]
      intro c hmem
      obtain ⟨i, hc⟩ := List.getElem?_of_mem hmem
      have hlonger : ∀ p w, B.at? c p = some w →
          (B.trail c p).countP B.branches + 1 ≤ d := by
        intro p w hw
        have hcount := hpaths (i :: p) w (at?_cons_eq_some_iff.mpr ⟨c, hc, hw⟩)
        rwa [trail_cons hc, List.countP_cons, if_pos (branches_of_getElem? hc)] at hcount
      have hroot := hlonger [] c at?_nil
      have hle := ih c hmem (d - 1) fun p w hw => by
        have hcount := hlonger p w hw
        omega
      omega

/-- A subtree replaced by one of no greater height leaves the whole no higher. -/
theorem IsHeight.replaceAt_le {height : α → ℕ} (h : B.IsHeight height)
    (hold : B.at? v p = some old) (hle : height new ≤ height old) :
    height (B.replaceAt v p new) ≤ height v := by
  induction p generalizing v with
  | nil =>
    cases hold
    exact hle
  | cons i p ih =>
    obtain ⟨c, hc, holdc⟩ := at?_cons_eq_some_iff.mp hold
    have hbelow := (h v (height v)).mp (Nat.le_refl _)
    rw [replaceAt_cons hc, h]
    intro u hu
    rw [B.children_setChild] at hu
    rcases List.mem_or_eq_of_mem_set hu with hu | rfl
    · exact hbelow u hu
    · exact Nat.lt_of_le_of_lt (ih holdc) (hbelow c (List.mem_of_getElem? hc))

/-! ## Searches -/

/-- **A search finds what is there**: looking at the root and searching the children is
looking at every position. -/
theorem search_iff {found own : α → Prop}
    (h : ∀ v, found v ↔ own v ∨ ∃ c ∈ B.children v, found c) (v : α) :
    found v ↔ ∃ p w, B.at? v p = some w ∧ own w := by
  constructor
  · induction v using B.wellFounded.induction with
    | _ v ih =>
      intro hfound
      rcases (h v).mp hfound with hown | ⟨c, hmem, hc⟩
      · exact ⟨[], v, at?_nil, hown⟩
      · obtain ⟨i, hi⟩ := List.getElem?_of_mem hmem
        obtain ⟨p, w, hw, hown⟩ := ih c hmem hc
        exact ⟨i :: p, w, at?_cons_eq_some_iff.mpr ⟨c, hi, hw⟩, hown⟩
  · rintro ⟨p, w, hw, hown⟩
    induction p generalizing v with
    | nil =>
      cases hw
      exact (h _).mpr (Or.inl hown)
    | cons i p ih =>
      obtain ⟨c, hc, hwc⟩ := at?_cons_eq_some_iff.mp hw
      exact (h v).mpr (Or.inr ⟨c, List.mem_of_getElem? hc, ih c hwc⟩)

end Branching
