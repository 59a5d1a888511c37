import Mathlib.Data.List.Forall2
import Mathlib.Data.List.Induction
import Mathlib.Data.List.Nodup

/-!
# Hash-linked lists

A row carries a link `prev` and a name `hash`. A list of rows is *linked* from
`g` when the first row links to `g` and every other row links to the name of
the row before it. The facts below need no hash function: they say what the
links alone force once names determine links or names are distinct.
-/

namespace HashChain

variable {α β D : Type*} (prev hash : α → D)

/-- Every row links to the name of the row before it, the first one to `g`. -/
def Linked : D → List α → Prop
  | _, [] => True
  | g, a :: as => prev a = g ∧ Linked (hash a) as

/-- The name a row appended to the list has to link to. -/
def tip : D → List α → D
  | g, [] => g
  | _, a :: as => tip (hash a) as

@[simp] theorem linked_nil (g : D) : Linked prev hash g [] := trivial

@[simp] theorem linked_cons (g : D) (a : α) (as : List α) :
    Linked prev hash g (a :: as) ↔ prev a = g ∧ Linked prev hash (hash a) as := Iff.rfl

@[simp] theorem tip_nil (g : D) : tip hash g [] = g := rfl

@[simp] theorem tip_cons (g : D) (a : α) (as : List α) :
    tip hash g (a :: as) = tip hash (hash a) as := rfl

theorem tip_append (g : D) (as bs : List α) :
    tip hash g (as ++ bs) = tip hash (tip hash g as) bs := by
  induction as generalizing g with
  | nil => rfl
  | cons a as ih => exact ih (hash a)

/-- The tip is the name of the last row. -/
theorem tip_eq_getLast? (g : D) (as : List α) :
    tip hash g as = (as.getLast?.map hash).getD g := by
  induction as generalizing g with
  | nil => rfl
  | cons a as ih =>
    rw [tip_cons, ih (hash a), List.getLast?_cons]
    cases as.getLast? <;> rfl

/-- Linked lists compose at the tip. -/
theorem linked_append (g : D) (as bs : List α) :
    Linked prev hash g (as ++ bs) ↔
      Linked prev hash g as ∧ Linked prev hash (tip hash g as) bs := by
  induction as generalizing g with
  | nil => simp
  | cons a as ih => simp [ih (hash a), and_assoc]

/-- Appending one row keeps the list linked when the row links to the tip. -/
theorem linked_concat (g : D) (as : List α) (a : α) :
    Linked prev hash g (as ++ [a]) ↔ Linked prev hash g as ∧ prev a = tip hash g as := by
  simp [linked_append]

/-- Only the links and the names matter. -/
theorem linked_map (prev' hash' : β → D) (f : α → β) (g : D) (as : List α)
    (hprev : ∀ a ∈ as, prev' (f a) = prev a) (hhash : ∀ a ∈ as, hash' (f a) = hash a) :
    Linked prev' hash' g (as.map f) ↔ Linked prev hash g as := by
  induction as generalizing g with
  | nil => simp
  | cons a as ih =>
    have hp := hprev a List.mem_cons_self
    have hh := hhash a List.mem_cons_self
    have ih' := ih (hash a) (fun b hb => hprev b (List.mem_cons_of_mem _ hb))
      (fun b hb => hhash b (List.mem_cons_of_mem _ hb))
    simp [hp, hh, ih']

/-- Lists that agree name by name have the same tip. -/
theorem tip_of_forall₂ {hash : α → D} {hash' : β → D} (g : D) {as : List α} {bs : List β}
    (h : List.Forall₂ (fun a b => hash' b = hash a) as bs) : tip hash' g bs = tip hash g as := by
  induction h generalizing g with
  | nil => rfl
  | cons hab _ ih => rw [tip_cons, tip_cons, hab, ih]

/-- Lists that agree link by link and name by name are linked alike. -/
theorem linked_of_forall₂ {prev hash : α → D} {prev' hash' : β → D} {g : D} {as : List α}
    {bs : List β} (h : List.Forall₂ (fun a b => prev' b = prev a ∧ hash' b = hash a) as bs)
    (hlinked : Linked prev hash g as) : Linked prev' hash' g bs := by
  induction h generalizing g with
  | nil => trivial
  | cons hab _ ih =>
    refine ⟨hab.1.trans hlinked.1, ?_⟩
    rw [hab.2]
    exact ih hlinked.2

theorem exists_of_forall₂_right {R : α → β → Prop} {as : List α} {bs : List β}
    (h : List.Forall₂ R as bs) {b : β} (hb : b ∈ bs) : ∃ a ∈ as, R a b := by
  induction h with
  | nil => cases hb
  | @cons a b' as bs hab _ ih =>
    rcases List.mem_cons.mp hb with rfl | hb
    · exact ⟨a, List.mem_cons_self, hab⟩
    · rcases ih hb with ⟨a', ha', hab'⟩
      exact ⟨a', List.mem_cons_of_mem _ ha', hab'⟩

/-- In a linked list every link is `g` or the name of an earlier row. -/
theorem prev_of_linked {g : D} {as bs : List α} {a : α}
    (h : Linked prev hash g (as ++ a :: bs)) : prev a = tip hash g as :=
  ((linked_append prev hash g as (a :: bs)).mp h).2.1

/-! ## Names that bind their links -/

section Binding

variable {prev hash}

/-- The tip of a non-empty list is the name of one of its rows. -/
theorem tip_mem (hash : α → D) (g : D) {as : List α} (h : as ≠ []) :
    ∃ a ∈ as, tip hash g as = hash a := by
  induction as generalizing g with
  | nil => exact absurd rfl h
  | cons a as ih =>
    by_cases has : as = []
    · subst has
      exact ⟨a, List.mem_cons_self, rfl⟩
    · rcases ih (hash a) has with ⟨b, hb, htip⟩
      exact ⟨b, List.mem_cons_of_mem _ hb, htip⟩

/-- **Head binding.** Two linked lists over the same start with the same tip
agree name by name, when names bind links and none of them is the start. -/
theorem hashes_eq_of_tip_eq {g : D} {as : List α} {bs : List β} {prev' hash' : β → D}
    (hbind : ∀ a ∈ as, ∀ b ∈ bs, hash a = hash' b → prev a = prev' b)
    (hstartA : ∀ a ∈ as, hash a ≠ g) (hstartB : ∀ b ∈ bs, hash' b ≠ g)
    (hA : Linked prev hash g as) (hB : Linked prev' hash' g bs)
    (htip : tip hash g as = tip hash' g bs) :
    as.map hash = bs.map hash' := by
  -- Induction from the tip down: equal last names give equal last links, which
  -- are the tips of the two lists without their last rows.
  induction as using List.reverseRec generalizing bs with
  | nil =>
    by_cases hbs : bs = []
    · simp [hbs]
    · -- The tip of the empty list is the start, which names no row.
      rcases tip_mem hash' g hbs with ⟨b, hb, hbt⟩
      rw [tip_nil, hbt] at htip
      exact absurd htip.symm (hstartB b hb)
  | append_singleton as a ih =>
    cases bs using List.reverseRec with
    | nil =>
      rw [tip_append] at htip
      exact absurd htip (hstartA a (by simp))
    | append_singleton bs b =>
      rw [linked_concat] at hA hB
      rw [tip_append, tip_append] at htip
      have hname : hash a = hash' b := htip
      have hlink : prev a = prev' b := hbind a (by simp) b (by simp) hname
      have hrec : as.map hash = bs.map hash' := by
        refine ih (fun x hx y hy => hbind x (by simp [hx]) y (by simp [hy]))
          (fun x hx => hstartA x (by simp [hx])) (fun y hy => hstartB y (by simp [hy]))
          hA.1 hB.1 ?_
        rw [← hA.2, ← hB.2, hlink]
      simp [hrec, hname]

/-- Lists with the same names correspond row by row in whatever equal names force. -/
theorem forall₂_of_hashes_eq {as : List α} {bs : List β} {hash' : β → D} {R : α → β → Prop}
    (h : as.map hash = bs.map hash') (hR : ∀ a ∈ as, ∀ b ∈ bs, hash a = hash' b → R a b) :
    List.Forall₂ R as bs := by
  induction as generalizing bs with
  | nil =>
    cases bs with
    | nil => exact List.Forall₂.nil
    | cons b bs => cases h
  | cons a as ih =>
    cases bs with
    | nil => cases h
    | cons b bs =>
      rcases List.cons.inj h with ⟨hname, hrest⟩
      exact List.Forall₂.cons (hR a List.mem_cons_self b List.mem_cons_self hname)
        (ih hrest fun x hx y hy => hR x (List.mem_cons_of_mem _ hx) y (List.mem_cons_of_mem _ hy))

/-- Names that bind links are distinct along a linked list that never returns
to its start: equal names would descend to a row named like the start. -/
theorem hashes_nodup {g : D} {as : List α}
    (hbind : ∀ a ∈ as, ∀ b ∈ as, hash a = hash b → prev a = prev b)
    (hstart : ∀ a ∈ as, hash a ≠ g) (h : Linked prev hash g as) :
    (as.map hash).Nodup := by
  -- Two equal names cut the list into two prefixes with the same tip; by head
  -- binding the prefixes are equally long.
  rw [List.nodup_iff_injective_getElem]
  intro i j hij
  have hlen : ∀ k (hk : k < (as.map hash).length),
      tip hash g (as.take (k + 1)) = (as.map hash)[k] := by
    intro k hk
    have hk' : k < as.length := by simpa using hk
    rw [List.take_succ_eq_append_getElem hk', tip_append]
    simp
  have htip : tip hash g (as.take (i.1 + 1)) = tip hash g (as.take (j.1 + 1)) := by
    rw [hlen i.1 i.2, hlen j.1 j.2]
    exact hij
  have hpre : ∀ k, Linked prev hash g (as.take k) := by
    intro k
    have hsplit := (List.take_append_drop k as).symm
    rw [hsplit, linked_append] at h
    exact h.1
  have heq := hashes_eq_of_tip_eq
    (fun a ha b hb => hbind a (List.mem_of_mem_take ha) b (List.mem_of_mem_take hb))
    (fun a ha => hstart a (List.mem_of_mem_take ha))
    (fun b hb => hstart b (List.mem_of_mem_take hb)) (hpre (i.1 + 1)) (hpre (j.1 + 1)) htip
  have hsize := congrArg List.length heq
  have hi : i.1 < as.length := by simpa using i.2
  have hj : j.1 < as.length := by simpa using j.2
  simp only [List.length_map, List.length_take] at hsize
  exact Fin.ext (by omega)

/-- Distinct names that differ from the start give distinct links. -/
theorem prevs_nodup {g : D} {as : List α} (hnd : (as.map hash).Nodup)
    (hstart : ∀ a ∈ as, hash a ≠ g) (h : Linked prev hash g as) :
    (as.map prev).Nodup := by
  -- The links are the start followed by all names but the last one.
  have hprevs : ∀ (as : List α) (g : D), Linked prev hash g as →
      as.map prev <+: g :: as.map hash := by
    intro as
    induction as with
    | nil => intro g _; exact List.nil_prefix
    | cons a as ih =>
      intro g h
      rw [List.map_cons, List.map_cons, h.1]
      exact (List.prefix_cons_inj g).mpr (ih (hash a) h.2)
  have hall : (g :: as.map hash).Nodup := by
    rw [List.nodup_cons]
    refine ⟨?_, hnd⟩
    intro hg
    rcases List.mem_map.mp hg with ⟨a, ha, hga⟩
    exact hstart a ha hga
  exact hall.sublist (hprevs as g h).sublist

end Binding

/-! ## Fragments of a linked list -/

section Fragments

variable {prev hash} {prev' hash' : β → D}

/-- The tip of a prefix, as an entry of the start followed by all names. -/
theorem getElem?_tip (hash : α → D) (g : D) (as bs : List α) :
    (g :: (as ++ bs).map hash)[as.length]? = some (tip hash g as) := by
  induction as generalizing g with
  | nil => rfl
  | cons a as ih => simpa using ih (hash a)

/-- With distinct names, a prefix is determined by its tip. -/
theorem prefix_eq_of_tip_eq {g : D} {as bs cs ds : List α}
    (hnd : (g :: (as ++ bs).map hash).Nodup) (hsplit : as ++ bs = cs ++ ds)
    (htip : tip hash g as = tip hash g cs) : as = cs := by
  have ha := getElem?_tip hash g as bs
  have hc := getElem?_tip hash g cs ds
  rw [← hsplit] at hc
  have hlen : as.length < (g :: (as ++ bs).map hash).length := by
    simp only [List.length_cons, List.length_map, List.length_append]
    omega
  have heq : as.length = cs.length :=
    (List.getElem?_inj hlen hnd).mp (by rw [ha, hc, htip])
  exact (List.append_inj hsplit heq).1

/-- With distinct names, no row links to the tip. -/
theorem prev_ne_tip {g : D} {as : List α} (hnd : (g :: as.map hash).Nodup)
    (h : Linked prev hash g as) {a : α} (ha : a ∈ as) : prev a ≠ tip hash g as := by
  intro hprev
  obtain ⟨bs, cs, rfl⟩ := List.append_of_mem ha
  have hlink : prev a = tip hash g bs := prev_of_linked prev hash h
  have heq : bs = bs ++ a :: cs :=
    prefix_eq_of_tip_eq hnd (List.append_nil _).symm (hlink.symm.trans hprev)
  simp at heq

/-- Copies of rows of `T`, and rows whose names are new to it. -/
def CopyOrForeign (hash : α → D) (hash' : β → D) (copy : β → α → Prop) (g : D)
    (T : List α) (b : β) : Prop :=
  (∃ a ∈ T, copy b a) ∨ (hash' b ∉ T.map hash ∧ hash' b ≠ g)

/-- After a foreign row no copy can stand: a copy links to `g` or to a name of `T`. -/
theorem foreign_of_foreign_link {g e : D} {T : List α} {T' : List β}
    {copy : β → α → Prop} (hT : Linked prev hash g T)
    (hcopy : ∀ b ∈ T', ∀ a, copy b a → prev' b = prev a ∧ hash' b = hash a)
    (hrows : ∀ b ∈ T', CopyOrForeign hash hash' copy g T b)
    (he : e ∉ T.map hash ∧ e ≠ g) (hT' : Linked prev' hash' e T') :
    ∀ b ∈ T', hash' b ∉ T.map hash := by
  induction T' generalizing e with
  | nil => simp
  | cons b T' ih =>
    have hb : hash' b ∉ T.map hash ∧ hash' b ≠ g := by
      rcases hrows b List.mem_cons_self with ⟨a, ha, hba⟩ | hforeign
      · -- A copy would make the foreign name `e` the tip of a prefix of `T`.
        rcases List.append_of_mem ha with ⟨as, bs, rfl⟩
        have hlink : e = tip hash g as := by
          rw [← hT'.1, (hcopy b List.mem_cons_self a hba).1]
          exact prev_of_linked prev hash hT
        by_cases has : as = []
        · subst has
          exact absurd hlink he.2
        · rcases tip_mem hash g has with ⟨x, hx, hxt⟩
          exact absurd (List.mem_map.mpr ⟨x, by simp [hx], by rw [hlink, hxt]⟩) he.1
      · exact hforeign
    intro x hx
    rcases List.mem_cons.mp hx with rfl | hx
    · exact hb.1
    · exact ih (fun y hy => hcopy y (List.mem_cons_of_mem _ hy))
        (fun y hy => hrows y (List.mem_cons_of_mem _ hy)) hb hT'.2 x hx

/-- The step of `fragment_prefix`: what follows the first rows `done` of `T`. -/
theorem fragment_prefix_from {g : D} (done todo : List α) {T' : List β}
    {copy : β → α → Prop} (hnd : (g :: (done ++ todo).map hash).Nodup)
    (hT : Linked prev hash g (done ++ todo))
    (hcopy : ∀ b ∈ T', ∀ a, copy b a → prev' b = prev a ∧ hash' b = hash a)
    (hrows : ∀ b ∈ T', CopyOrForeign hash hash' copy g (done ++ todo) b)
    (hT' : Linked prev' hash' (tip hash g done) T') :
    ∃ n, List.Forall₂ copy (T'.take n) (todo.take n) ∧
      ∀ b ∈ T'.drop n, hash' b ∉ (done ++ todo).map hash := by
  induction T' generalizing done todo with
  | nil => exact ⟨0, by simp⟩
  | cons b T' ih =>
    have htail : ∀ x ∈ T', x ∈ b :: T' := fun x hx => List.mem_cons_of_mem _ hx
    rcases hrows b List.mem_cons_self with ⟨a, ha, hba⟩ | hforeign
    · -- A copy links to the row before its original, so the original is next.
      rcases List.append_of_mem ha with ⟨as, bs, hsplit⟩
      have hlink : tip hash g done = tip hash g as := by
        rw [← hT'.1, (hcopy b List.mem_cons_self a hba).1]
        rw [hsplit] at hT
        exact prev_of_linked prev hash hT
      have hdone : done = as := prefix_eq_of_tip_eq hnd hsplit hlink
      subst hdone
      have htodo : todo = a :: bs := List.append_cancel_left hsplit
      subst htodo
      have hcons : done ++ a :: bs = (done ++ [a]) ++ bs := by simp
      have htip : tip hash g (done ++ [a]) = hash' b := by
        rw [tip_append, (hcopy b List.mem_cons_self a hba).2]
        rfl
      rcases ih (done ++ [a]) bs (hcons ▸ hnd) (hcons ▸ hT)
        (fun x hx => hcopy x (htail x hx)) (fun x hx => hcons ▸ hrows x (htail x hx))
        (htip ▸ hT'.2) with ⟨n, hfor, hnew⟩
      exact ⟨n + 1, List.Forall₂.cons hba hfor, fun x hx => hcons ▸ hnew x hx⟩
    · -- A foreign row, and with it everything behind it.
      refine ⟨0, by simp, ?_⟩
      intro x hx
      rcases List.mem_cons.mp hx with rfl | hx
      · exact hforeign.1
      · exact foreign_of_foreign_link hT (fun y hy => hcopy y (htail y hy))
          (fun y hy => hrows y (htail y hy)) hforeign hT'.2 x hx

/-- **Fragments are prefixes.** Let `T` be linked from `g` with distinct names,
none of them `g`, and let `T'` be linked from `g` too, made of copies of rows of
`T` (same link, same name) and of foreign rows whose names are new and not `g`.
Then `T'` is a copy of a prefix of `T` followed by foreign rows. -/
theorem fragment_prefix {g : D} {T : List α} {T' : List β} {copy : β → α → Prop}
    (hnd : (T.map hash).Nodup) (hstart : ∀ a ∈ T, hash a ≠ g)
    (hT : Linked prev hash g T) (hT' : Linked prev' hash' g T')
    (hcopy : ∀ b ∈ T', ∀ a, copy b a → prev' b = prev a ∧ hash' b = hash a)
    (hrows : ∀ b ∈ T', CopyOrForeign hash hash' copy g T b) :
    ∃ n, List.Forall₂ copy (T'.take n) (T.take n) ∧
      ∀ b ∈ T'.drop n, hash' b ∉ T.map hash := by
  have hall : (g :: T.map hash).Nodup := by
    rw [List.nodup_cons]
    refine ⟨?_, hnd⟩
    intro hg
    rcases List.mem_map.mp hg with ⟨a, ha, hga⟩
    exact hstart a ha hga
  exact fragment_prefix_from [] T hall hT hcopy hrows hT'

end Fragments

end HashChain
