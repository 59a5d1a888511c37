import Mathlib.Data.List.Basic

/-!
# Unique readability of encodings

An encoding `enc : α → List χ` is *readable* at `a` when no text that starts
with `enc a` can start with the encoding of anything else. Encodings that need
a delimiter (numbers, for instance) are readable only in front of certain tails,
so readability is relative to a predicate `R` on what follows.
-/

namespace Decoding

variable {α χ : Type*}

/-- `enc a` can be read back off every text that goes on with a tail in `R`. -/
def ReadableAt (enc : α → List χ) (R : List χ → Prop) (a : α) : Prop :=
  ∀ b r s, R r → R s → enc a ++ r = enc b ++ s → a = b ∧ r = s

/-- Encodings that are readable at the end of the text are injective. -/
theorem ReadableAt.inj {enc : α → List χ} {R : List χ → Prop} {a b : α}
    (h : ReadableAt enc R a) (hR : R []) (heq : enc a = enc b) : a = b :=
  (h b [] [] hR hR (by rw [heq])).1

/-- A prefix code needs nothing of its tails. -/
def PrefixCode (enc : α → List χ) : Prop := ∀ a, ReadableAt enc (fun _ => True) a

/-! ## Tokens: maximal runs of characters of one class -/

/-- The text does not go on with a character of the class `P`. -/
def EndsToken (P : χ → Prop) (r : List χ) : Prop := ∀ c ∈ r.head?, ¬ P c

/-- Two runs of class characters that stop at the same class boundary are equal. -/
theorem token_unique {P : χ → Prop} {u v r s : List χ} (hu : ∀ c ∈ u, P c)
    (hv : ∀ c ∈ v, P c) (hr : EndsToken P r) (hs : EndsToken P s)
    (h : u ++ r = v ++ s) : u = v ∧ r = s := by
  -- Where one run stops and the other goes on, the next character would both be
  -- of the class and not be of it.
  induction u generalizing v with
  | nil =>
    cases v with
    | nil => exact ⟨rfl, h⟩
    | cons d v =>
      rw [List.nil_append] at h
      exact absurd (hv d List.mem_cons_self) (hr d (by simp [h]))
  | cons c u ih =>
    cases v with
    | nil =>
      rw [List.nil_append] at h
      exact absurd (hu c List.mem_cons_self) (hs c (by simp [← h]))
    | cons d v =>
      rcases List.cons.inj h with ⟨hcd, hrest⟩
      rcases ih (fun x hx => hu x (List.mem_cons_of_mem _ hx))
        (fun x hx => hv x (List.mem_cons_of_mem _ hx)) hrest with
        ⟨huv, hrs⟩
      exact ⟨by rw [hcd, huv], hrs⟩

/-! ## Terminated runs of codewords -/

/-- A run of codewords of a prefix code, closed by a character no codeword
starts with, determines the run. -/
theorem flatMap_terminated {enc : α → List χ} {stop : χ} (hcode : PrefixCode enc)
    (hne : ∀ a, enc a ≠ []) (hstop : ∀ a, (enc a).head? ≠ some stop) {xs ys : List α}
    {r s : List χ} (h : xs.flatMap enc ++ stop :: r = ys.flatMap enc ++ stop :: s) :
    xs = ys ∧ r = s := by
  -- A codeword in front of the closing character would start with it.
  have hclash : ∀ (a : α) (as : List α) (t u : List χ),
      (a :: as).flatMap enc ++ t ≠ stop :: u := by
    intro a as t u heq
    rw [List.flatMap_cons, List.append_assoc] at heq
    cases ha : enc a with
    | nil => exact hne a ha
    | cons c w =>
      rw [ha, List.cons_append] at heq
      exact hstop a (by rw [ha, (List.cons.inj heq).1]; rfl)
  induction xs generalizing ys with
  | nil =>
    cases ys with
    | nil => exact ⟨rfl, (List.cons.inj h).2⟩
    | cons b ys => exact absurd h.symm (hclash b ys _ _)
  | cons a xs ih =>
    cases ys with
    | nil => exact absurd h (hclash a xs _ _)
    | cons b ys =>
      rw [List.flatMap_cons, List.flatMap_cons, List.append_assoc, List.append_assoc] at h
      rcases hcode a b _ _ trivial trivial h with ⟨hab, hrest⟩
      rcases ih hrest with ⟨hxs, hrs⟩
      exact ⟨by rw [hab, hxs], hrs⟩

/-! ## Separated lists -/

/-- The elements after the first one, each behind a separator, and the close. -/
def separatedTail (enc : α → List χ) (sep close : χ) : List α → List χ
  | [] => [close]
  | x :: xs => sep :: (enc x ++ separatedTail enc sep close xs)

/-- The elements joined by a separator, and the closing character. -/
def separated (enc : α → List χ) (sep close : χ) : List α → List χ
  | [] => [close]
  | x :: xs => enc x ++ separatedTail enc sep close xs

section Separated

variable {enc : α → List χ} {sep close : χ} {R : List χ → Prop}

/-- A separated tail starts with the separator or with the close. -/
theorem separatedTail_append (hsep : ∀ t, R (sep :: t)) (hclose : ∀ t, R (close :: t))
    (xs : List α) (r : List χ) : R (separatedTail enc sep close xs ++ r) := by
  cases xs with
  | nil => exact hclose r
  | cons x xs => exact hsep _

theorem separatedTail_unique (hne : sep ≠ close) (hsep : ∀ t, R (sep :: t))
    (hclose : ∀ t, R (close :: t)) {xs ys : List α} (hxs : ∀ x ∈ xs, ReadableAt enc R x)
    {r s : List χ} (h : separatedTail enc sep close xs ++ r = separatedTail enc sep close ys ++ s) :
    xs = ys ∧ r = s := by
  induction xs generalizing ys with
  | nil =>
    cases ys with
    | nil => exact ⟨rfl, (List.cons.inj h).2⟩
    | cons y ys => exact absurd (List.cons.inj h).1.symm hne
  | cons x xs ih =>
    cases ys with
    | nil => exact absurd (List.cons.inj h).1 hne
    | cons y ys =>
      simp only [separatedTail, List.cons_append, List.append_assoc] at h
      rcases hxs x List.mem_cons_self y _ _
        (separatedTail_append hsep hclose xs r) (separatedTail_append hsep hclose ys s)
        (List.cons.inj h).2 with
        ⟨hxy, hrest⟩
      rcases ih (fun z hz => hxs z (List.mem_cons_of_mem _ hz)) hrest with ⟨hxs', hrs⟩
      exact ⟨by rw [hxy, hxs'], hrs⟩

/-- A separated list is readable when its elements are and none of them starts
with the closing character. -/
theorem separated_unique (hne : sep ≠ close) (hsep : ∀ t, R (sep :: t))
    (hclose : ∀ t, R (close :: t)) (hempty : ∀ x, enc x ≠ [])
    (hstart : ∀ x, (enc x).head? ≠ some close) {xs ys : List α}
    (hxs : ∀ x ∈ xs, ReadableAt enc R x) {r s : List χ}
    (h : separated enc sep close xs ++ r = separated enc sep close ys ++ s) :
    xs = ys ∧ r = s := by
  -- An element in place of the closing character would start with it.
  have hclash : ∀ (x : α) (t u : List χ), enc x ++ t ≠ close :: u := by
    intro x t u heq
    cases hx : enc x with
    | nil => exact hempty x hx
    | cons c w =>
      rw [hx, List.cons_append] at heq
      exact hstart x (by rw [hx, (List.cons.inj heq).1]; rfl)
  cases xs with
  | nil =>
    cases ys with
    | nil => exact ⟨rfl, (List.cons.inj h).2⟩
    | cons y ys =>
      simp only [separated, List.append_assoc] at h
      exact absurd h.symm (hclash y _ _)
  | cons x xs =>
    cases ys with
    | nil =>
      simp only [separated, List.append_assoc] at h
      exact absurd h (hclash x _ _)
    | cons y ys =>
      simp only [separated, List.append_assoc] at h
      rcases hxs x List.mem_cons_self y _ _
        (separatedTail_append hsep hclose xs r) (separatedTail_append hsep hclose ys s) h with
        ⟨hxy, hrest⟩
      rcases separatedTail_unique hne hsep hclose
        (fun z hz => hxs z (List.mem_cons_of_mem _ hz)) hrest with
        ⟨hxs', hrs⟩
      exact ⟨by rw [hxy, hxs'], hrs⟩

end Separated

/-! ## Terminated lines -/

/-- Lines, each one with the character that closes it. -/
def terminated (stop : χ) (xs : List (List χ)) : List χ := xs.flatMap (· ++ [stop])

theorem terminated_cons (stop : χ) (x : List χ) (xs : List (List χ)) :
    terminated stop (x :: xs) = x ++ stop :: terminated stop xs := by
  simp [terminated]

/-- Where the closing character occurs in no line, what a text of lines begins with is
the text of the first ones. -/
theorem terminated_prefix_iff {stop : χ} {xs ys : List (List χ)} (hxs : ∀ x ∈ xs, stop ∉ x)
    (hys : ∀ y ∈ ys, stop ∉ y) : terminated stop xs <+: terminated stop ys ↔ xs <+: ys := by
  constructor
  · intro h
    induction xs generalizing ys with
    | nil => exact List.nil_prefix
    | cons x xs ih =>
      obtain ⟨rest, hrest⟩ := h
      rw [terminated_cons, List.append_assoc, List.cons_append] at hrest
      cases ys with
      | nil => simp [terminated] at hrest
      | cons y ys =>
        rw [terminated_cons] at hrest
        -- Up to the closing character both texts are one token.
        have hends : ∀ t, EndsToken (· ≠ stop) (stop :: t) := by simp [EndsToken]
        obtain ⟨rfl, htails⟩ := token_unique
          (fun _ hc => ne_of_mem_of_not_mem hc (hxs x List.mem_cons_self))
          (fun _ hc => ne_of_mem_of_not_mem hc (hys y List.mem_cons_self)) (hends _) (hends _) hrest
        exact List.cons_prefix_cons.mpr ⟨rfl, ih (fun z hz => hxs z (List.mem_cons_of_mem _ hz))
          (fun z hz => hys z (List.mem_cons_of_mem _ hz)) ⟨rest, (List.cons.inj htails).2⟩⟩
  · rintro ⟨zs, rfl⟩
    exact ⟨terminated stop zs, by simp [terminated]⟩

end Decoding
