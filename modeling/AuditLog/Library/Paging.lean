import Mathlib.Data.List.Perm.Subperm
import Mathlib.Data.Nat.Find
import Mathlib.Order.Lattice

/-!
# Pages at fixed offsets of a changing list

A reader asks for page `k` of a strictly increasing list, for `k = 0, 1, 2, …`, and the
list may have changed in between: elements are gone, and larger ones have come. What has
been read increases, so nothing is read twice. An element is missed exactly where its
position falls below an offset that the reader has passed.
-/

namespace Paging

variable {α : Type*} {limit k m n : ℕ} {a b : α}

/-- Page `k`: at most `limit` elements from position `k * limit`. -/
def page (limit k : ℕ) (rows : List α) : List α := (rows.drop (k * limit)).take limit

theorem page_sublist (limit k : ℕ) (rows : List α) : (page limit k rows).Sublist rows :=
  (List.take_sublist _ _).trans (List.drop_sublist _ _)

theorem map_page {β : Type*} (f : α → β) (limit k : ℕ) (rows : List α) :
    (page limit k rows).map f = page limit k (rows.map f) := by
  unfold page
  rw [List.map_take, List.map_drop]

/-- A short page is the end of the list. -/
theorem length_lt_of_page_short {rows : List α} (h : (page limit k rows).length < limit) :
    rows.length < (k + 1) * limit := by
  unfold page at h
  rw [List.length_take, List.length_drop] at h
  rw [Nat.succ_mul]
  omega

theorem mem_page_iff_getElem? {rows : List α} :
    a ∈ page limit k rows ↔ ∃ i, k * limit ≤ i ∧ i < (k + 1) * limit ∧ rows[i]? = some a := by
  unfold page
  rw [List.mem_iff_getElem?, Nat.succ_mul]
  constructor
  · rintro ⟨j, hj⟩
    rw [List.getElem?_take] at hj
    split at hj
    · rw [List.getElem?_drop] at hj
      exact ⟨k * limit + j, by omega, by omega, hj⟩
    · cases hj
  · rintro ⟨i, hstart, hstop, hi⟩
    refine ⟨i - k * limit, ?_⟩
    rw [List.getElem?_take, if_pos (by omega), List.getElem?_drop, Nat.add_sub_cancel' hstart]
    exact hi

/-! ## Positions -/

variable [LinearOrder α] {rows rows' : List α}

/-- How many elements are smaller. -/
def position (a : α) (rows : List α) : ℕ := rows.countP fun b => decide (b < a)

theorem position_of_getElem? {i : ℕ} (hrows : rows.Pairwise (· < ·)) (h : rows[i]? = some a) :
    position a rows = i := by
  induction rows generalizing i with
  | nil => cases h
  | cons b rows ih =>
    obtain ⟨hb, hrest⟩ := List.pairwise_cons.mp hrows
    unfold position
    rw [List.countP_cons]
    cases i with
    | zero =>
      obtain rfl : b = a := Option.some.inj h
      have hnone : rows.countP (fun c => decide (c < b)) = 0 := by
        rw [List.countP_eq_zero]
        intro c hc
        simpa using (hb c hc).le
      rw [hnone, if_neg (by simp)]
    | succ i =>
      rw [List.getElem?_cons_succ] at h
      have hlt : b < a := hb a (List.mem_of_getElem? h)
      rw [if_pos (by simpa using hlt)]
      exact congrArg (· + 1) (ih hrest h)

/-- An element is on the page that its position falls on. -/
theorem mem_page_iff (hrows : rows.Pairwise (· < ·)) :
    a ∈ page limit k rows ↔
      a ∈ rows ∧ k * limit ≤ position a rows ∧ position a rows < (k + 1) * limit := by
  rw [mem_page_iff_getElem?]
  constructor
  · rintro ⟨i, hstart, hstop, hi⟩
    rw [position_of_getElem? hrows hi]
    exact ⟨List.mem_of_getElem? hi, hstart, hstop⟩
  · rintro ⟨hmem, hstart, hstop⟩
    obtain ⟨i, hi⟩ := List.mem_iff_getElem?.mp hmem
    rw [position_of_getElem? hrows hi] at hstart hstop
    exact ⟨i, hstart, hstop, hi⟩

theorem position_lt_length (hrows : rows.Pairwise (· < ·)) (ha : a ∈ rows) :
    position a rows < rows.length := by
  obtain ⟨i, hi⟩ := List.mem_iff_getElem?.mp ha
  rw [position_of_getElem? hrows hi]
  exact (List.getElem?_eq_some_iff.mp hi).1

theorem position_mono (rows : List α) (h : a ≤ b) : position a rows ≤ position b rows := by
  refine List.countP_mono_left fun c _ hc => ?_
  simp only [decide_eq_true_eq] at hc ⊢
  exact lt_of_lt_of_le hc h

/-! ## A list that changes -/

/-- What is there now was there before, or is larger than all that was. -/
def Later (rows rows' : List α) : Prop := ∀ b ∈ rows', b ∈ rows ∨ ∀ a ∈ rows, a < b

/-- Elements come at the end, so an element only moves to the front. -/
theorem Later.position_le (h : Later rows rows') (hrows' : rows'.Pairwise (· < ·)) (ha : a ∈ rows) :
    position a rows' ≤ position a rows := by
  unfold position
  rw [List.countP_eq_length_filter, List.countP_eq_length_filter]
  have hnodup : (rows'.filter fun b => decide (b < a)).Nodup :=
    (hrows'.filter _).imp fun {_ _} hlt => hlt.ne
  refine (hnodup.subperm ?_).length_le
  intro b hb
  obtain ⟨hmem, hlt⟩ := List.mem_filter.mp hb
  rcases h b hmem with hold | hlarger
  · exact List.mem_filter.mpr ⟨hold, hlt⟩
  · exact absurd (hlarger a ha) (lt_asymm (of_decide_eq_true hlt))

/-- What is on a later page is larger. -/
theorem Later.lt_of_mem_page (h : Later rows rows') (hrows : rows.Pairwise (· < ·))
    (hrows' : rows'.Pairwise (· < ·)) (hkm : k < m) (ha : a ∈ page limit k rows)
    (hb : b ∈ page limit m rows') : a < b := by
  obtain ⟨hamem, -, hastop⟩ := (mem_page_iff hrows).mp ha
  obtain ⟨hbmem, hbstart, -⟩ := (mem_page_iff hrows').mp hb
  rcases h b hbmem with hold | hlarger
  · -- Otherwise `b` has been in front of `a`, on a page that was read before.
    by_contra hle
    have hmoved := h.position_le hrows' hold
    have hfront := position_mono rows (not_lt.mp hle)
    have hoffset : (k + 1) * limit ≤ m * limit := Nat.mul_le_mul_right limit hkm
    omega
  · exact hlarger a hamem

section Reading

variable {rowsAt : ℕ → List α}

/-- **What has been read increases.** -/
theorem pages_increase (hrows : ∀ k ≤ n, (rowsAt k).Pairwise (· < ·))
    (hlater : ∀ k m, k < m → m ≤ n → Later (rowsAt k) (rowsAt m)) :
    ((List.range (n + 1)).flatMap fun k => page limit k (rowsAt k)).Pairwise (· < ·) := by
  have hle : ∀ {k}, k ∈ List.range (n + 1) → k ≤ n := fun hk =>
    Nat.lt_succ_iff.mp (List.mem_range.mp hk)
  rw [List.pairwise_flatMap]
  constructor
  · intro k hk
    exact (hrows k (hle hk)).sublist (page_sublist limit k _)
  · refine List.pairwise_lt_range.imp_of_mem ?_
    intro k m hk hm hkm a ha b hb
    exact (hlater k m hkm (hle hm)).lt_of_mem_page (hrows k (hle hk)) (hrows m (hle hm)) hkm ha hb

/-- No offset that has been read is jumped over by the element. -/
def StaysAhead (limit n : ℕ) (rowsAt : ℕ → List α) (a : α) : Prop :=
  ∀ k < n, (k + 1) * limit ≤ position a (rowsAt k) → (k + 1) * limit ≤ position a (rowsAt (k + 1))

/-- **When an element is read.** An element that is there throughout is on exactly one page
up to the end of the list if and only if its position falls below no offset that has been
reached. -/
theorem existsUnique_page_iff (hrows : ∀ k ≤ n, (rowsAt k).Pairwise (· < ·))
    (hlater : ∀ k m, k < m → m ≤ n → Later (rowsAt k) (rowsAt m))
    (hlast : (page limit n (rowsAt n)).length < limit) (ha : ∀ k ≤ n, a ∈ rowsAt k) :
    (∃! k, k ≤ n ∧ a ∈ page limit k (rowsAt k)) ↔ StaysAhead limit n rowsAt a := by
  have hmoves : ∀ {k m}, k ≤ m → m ≤ n → position a (rowsAt m) ≤ position a (rowsAt k) := by
    intro k m hkm hm
    rcases Nat.eq_or_lt_of_le hkm with rfl | hlt
    · exact le_rfl
    · exact (hlater k m hlt hm).position_le (hrows m hm) (ha k (hkm.trans hm))
  constructor
  · rintro ⟨j, ⟨hj, hmem⟩, -⟩ k hk hbehind
    obtain ⟨-, hstart, hstop⟩ := (mem_page_iff (hrows j hj)).mp hmem
    rcases Nat.lt_or_ge k j with hkj | hjk
    · -- The page is still to come, and the element has not passed its offset.
      have hoffset : (k + 1) * limit ≤ j * limit := Nat.mul_le_mul_right limit hkj
      have hmoved := hmoves (m := j) (k := k + 1) hkj hj
      omega
    · have hoffset : (j + 1) * limit ≤ (k + 1) * limit :=
        Nat.mul_le_mul_right limit (Nat.succ_le_succ hjk)
      have hmoved := hmoves hjk hk.le
      omega
  · intro hahead
    have hend : position a (rowsAt n) < (n + 1) * limit :=
      (position_lt_length (hrows n le_rfl) (ha n le_rfl)).trans (length_lt_of_page_short hlast)
    -- The first page whose end is behind the element.
    have hexists : ∃ k, position a (rowsAt k) < (k + 1) * limit := ⟨n, hend⟩
    obtain ⟨j, hstop, hfirst⟩ : ∃ j, position a (rowsAt j) < (j + 1) * limit ∧
        ∀ k < j, (k + 1) * limit ≤ position a (rowsAt k) :=
      ⟨Nat.find hexists, Nat.find_spec hexists, fun k hk => not_lt.mp (Nat.find_min hexists hk)⟩
    have hj : j ≤ n := by
      by_contra hgt
      have hbehind := hfirst n (not_le.mp hgt)
      omega
    have hstart : j * limit ≤ position a (rowsAt j) := by
      cases j with
      | zero =>
        rw [Nat.zero_mul]
        exact Nat.zero_le _
      | succ k => exact hahead k hj (hfirst k (Nat.lt_succ_self k))
    refine ⟨j, ⟨hj, (mem_page_iff (hrows j hj)).mpr ⟨ha j hj, hstart, hstop⟩⟩, ?_⟩
    rintro m ⟨hm, hmem⟩
    rcases Nat.lt_trichotomy m j with hlt | rfl | hgt
    · obtain ⟨-, -, hbefore⟩ := (mem_page_iff (hrows m hm)).mp hmem
      have hbehind := hfirst m hlt
      omega
    · rfl
    · obtain ⟨-, hafter, -⟩ := (mem_page_iff (hrows m hm)).mp hmem
      have hmoved := hmoves hgt.le hm
      have hoffset : (j + 1) * limit ≤ m * limit := Nat.mul_le_mul_right limit hgt
      omega

/-- Where the list only grows at its end, no element is missed. -/
theorem staysAhead_of_prefix (hrows : ∀ k ≤ n, (rowsAt k).Pairwise (· < ·))
    (hgrows : ∀ k < n, rowsAt k <+: rowsAt (k + 1)) (ha : ∀ k ≤ n, a ∈ rowsAt k) :
    StaysAhead limit n rowsAt a := by
  intro k hk hbehind
  obtain ⟨i, hi⟩ := List.mem_iff_getElem?.mp (ha k hk.le)
  have hsame : (rowsAt (k + 1))[i]? = some a := by
    obtain ⟨new, hnew⟩ := hgrows k hk
    rw [← hnew]
    exact (List.getElem?_append_left (List.getElem?_eq_some_iff.mp hi).1).trans hi
  rw [position_of_getElem? (hrows k hk.le) hi] at hbehind
  rwa [position_of_getElem? (hrows (k + 1) hk) hsame]

end Reading

end Paging
