import Mathlib.Algebra.GroupWithZero.Nat
import Mathlib.Data.List.Nodup

/-!
# Dictionaries as association lists

An insertion-ordered dictionary over an arbitrary key type: `get` reads the
first entry of a key, `set` overwrites it in place or appends a new entry.
Nothing here depends on what the keys or the values are.
-/

namespace Dict

variable {κ ν : Type*} [DecidableEq κ]

/-- The value stored under `k`, if any. -/
def get : List (κ × ν) → κ → Option ν
  | [], _ => none
  | (k', v) :: d, k => if k' = k then some v else get d k

/-- Store `v` under `k`: an existing entry keeps its position. -/
def set : List (κ × ν) → κ → ν → List (κ × ν)
  | [], k, v => [(k, v)]
  | (k', v') :: d, k, v => if k' = k then (k', v) :: d else (k', v') :: set d k v

/-- Store all entries of `d'`, in order (`{**d, **d'}`). -/
def update (d d' : List (κ × ν)) : List (κ × ν) := d'.foldl (fun d e => set d e.1 e.2) d

/-- The keys, in insertion order. -/
def keys (d : List (κ × ν)) : List κ := d.map Prod.fst

@[simp] theorem get_nil (k : κ) : get ([] : List (κ × ν)) k = none := rfl

omit [DecidableEq κ] in
@[simp] theorem keys_nil : keys ([] : List (κ × ν)) = [] := rfl

omit [DecidableEq κ] in
@[simp] theorem keys_cons (e : κ × ν) (d : List (κ × ν)) : keys (e :: d) = e.1 :: keys d := rfl

/-- Reading back a stored entry. -/
theorem get_set (d : List (κ × ν)) (k k' : κ) (v : ν) :
    get (set d k v) k' = if k = k' then some v else get d k' := by
  induction d with
  | nil => simp [set, get]
  | cons e d ih =>
    rcases e with ⟨k₀, v₀⟩
    by_cases h₀ : k₀ = k
    · subst h₀
      by_cases h : k₀ = k' <;> simp [set, get, h]
    · by_cases h : k₀ = k'
      · subst h
        simp [set, get, h₀, Ne.symm h₀]
      · simp [set, get, h₀, h, ih]

theorem get_eq_none_iff (d : List (κ × ν)) (k : κ) : get d k = none ↔ k ∉ keys d := by
  induction d with
  | nil => simp
  | cons e d ih =>
    rcases e with ⟨k₀, v₀⟩
    by_cases h : k₀ = k
    · simp [get, h]
    · simp [get, h, ih, Ne.symm h]

theorem get_isSome_iff (d : List (κ × ν)) (k : κ) : (get d k).isSome ↔ k ∈ keys d := by
  rw [← not_iff_not, ← get_eq_none_iff, Bool.not_eq_true, Option.isSome_eq_false_iff,
    Option.isNone_iff_eq_none]

/-- A stored value is one of the entries. -/
theorem mem_of_get {d : List (κ × ν)} {k : κ} {v : ν} (h : get d k = some v) : (k, v) ∈ d := by
  induction d with
  | nil => simp at h
  | cons e d ih =>
    rcases e with ⟨k₀, v₀⟩
    by_cases h₀ : k₀ = k
    · subst h₀
      simp only [get, if_pos, Option.some.injEq] at h
      simp [h]
    · simp only [get, if_neg h₀] at h
      exact List.mem_cons_of_mem _ (ih h)

/-- With distinct keys, every entry is the value stored under its key. -/
theorem get_of_mem {d : List (κ × ν)} (hd : (keys d).Nodup) {k : κ} {v : ν}
    (h : (k, v) ∈ d) : get d k = some v := by
  induction d with
  | nil => simp at h
  | cons e d ih =>
    rcases e with ⟨k₀, v₀⟩
    rw [keys_cons, List.nodup_cons] at hd
    rcases List.mem_cons.mp h with heq | hmem
    · rcases Prod.mk.inj heq with ⟨rfl, rfl⟩
      simp [get]
    · have hk : k ∈ keys d := List.mem_map.mpr ⟨_, hmem, rfl⟩
      have hne : k₀ ≠ k := fun he => hd.1 (he ▸ hk)
      simp [get, hne, ih hd.2 hmem]

theorem mem_keys_set (d : List (κ × ν)) (k k' : κ) (v : ν) :
    k' ∈ keys (set d k v) ↔ k' = k ∨ k' ∈ keys d := by
  rw [← get_isSome_iff, ← get_isSome_iff, get_set]
  by_cases h : k = k'
  · simp [h]
  · simp [h, Ne.symm h]

theorem nodup_keys_set {d : List (κ × ν)} (hd : (keys d).Nodup) (k : κ) (v : ν) :
    (keys (set d k v)).Nodup := by
  induction d with
  | nil => simp [set]
  | cons e d ih =>
    rcases e with ⟨k₀, v₀⟩
    rw [keys_cons, List.nodup_cons] at hd
    by_cases h₀ : k₀ = k
    · simpa [set, h₀] using h₀ ▸ hd
    · simp only [set, if_neg h₀, keys_cons, List.nodup_cons, mem_keys_set, not_or]
      exact ⟨⟨h₀, hd.1⟩, ih hd.2⟩

/-- The entries of the second dictionary win. -/
theorem get_update (d : List (κ × ν)) {d' : List (κ × ν)} (hd' : (keys d').Nodup) (k : κ) :
    get (update d d') k = (get d' k).or (get d k) := by
  induction d' generalizing d with
  | nil => rfl
  | cons e d' ih =>
    rcases e with ⟨k₀, v₀⟩
    rw [keys_cons, List.nodup_cons] at hd'
    -- The first entry is stored before the others, none of which has its key.
    have hstep : update d ((k₀, v₀) :: d') = update (set d k₀ v₀) d' := rfl
    rw [hstep, ih (set d k₀ v₀) hd'.2, get_set]
    by_cases h : k₀ = k
    · subst h
      have hnone : get d' k₀ = none := (get_eq_none_iff d' k₀).mpr hd'.1
      simp [get, hnone]
    · simp [get, h]

/-- Storing `f k` under every `k` of a list. -/
theorem get_foldl_set (d : List (κ × ν)) (ks : List κ) (f : κ → ν) (k : κ) :
    get (ks.foldl (fun d k => set d k (f k)) d) k = if k ∈ ks then some (f k) else get d k := by
  induction ks generalizing d with
  | nil => simp
  | cons k₀ ks ih =>
    rw [List.foldl_cons, ih, get_set]
    by_cases hmem : k ∈ ks
    · simp [hmem]
    · by_cases h₀ : k₀ = k
      · simp [h₀]
      · simp [hmem, h₀, Ne.symm h₀]

theorem nodup_keys_foldl_set {d : List (κ × ν)} (hd : (keys d).Nodup) (ks : List κ) (f : κ → ν) :
    (keys (ks.foldl (fun d k => set d k (f k)) d)).Nodup := by
  induction ks generalizing d with
  | nil => exact hd
  | cons k₀ ks ih => exact ih (nodup_keys_set hd k₀ (f k₀))

/-- Overwriting an entry leaves the keys as they are. -/
theorem keys_set_of_mem {d : List (κ × ν)} {k : κ} (hk : k ∈ keys d) (v : ν) :
    keys (set d k v) = keys d := by
  induction d with
  | nil => simp at hk
  | cons e d ih =>
    rcases e with ⟨k₀, v₀⟩
    by_cases h₀ : k₀ = k
    · simp [set, h₀]
    · have hd : k ∈ keys d := by
        rcases List.mem_cons.mp hk with heq | hd
        · exact absurd heq.symm h₀
        · exact hd
      simp [set, h₀, ih hd]

theorem keys_foldl_set_of_mem {d : List (κ × ν)} {ks : List κ} (hks : ∀ k ∈ ks, k ∈ keys d)
    (f : κ → ν) : keys (ks.foldl (fun d k => set d k (f k)) d) = keys d := by
  induction ks generalizing d with
  | nil => rfl
  | cons k ks ih =>
    have hset := keys_set_of_mem (hks k List.mem_cons_self) (f k)
    rw [List.foldl_cons, ih fun k' hk' => ?_, hset]
    rw [hset]
    exact hks k' (List.mem_cons_of_mem _ hk')

/-- An entry after storing is the stored one or one of those before. -/
theorem mem_of_mem_set {d : List (κ × ν)} {k : κ} {v : ν} {e : κ × ν} (h : e ∈ set d k v) :
    e = (k, v) ∨ e ∈ d := by
  induction d with
  | nil => exact Or.inl (by simpa [set] using h)
  | cons e₀ d ih =>
    rcases e₀ with ⟨k₀, v₀⟩
    by_cases h₀ : k₀ = k
    · rw [set, if_pos h₀, h₀] at h
      rcases List.mem_cons.mp h with rfl | h
      · exact Or.inl rfl
      · exact Or.inr (List.mem_cons_of_mem _ h)
    · rw [set, if_neg h₀] at h
      rcases List.mem_cons.mp h with rfl | h
      · exact Or.inr List.mem_cons_self
      · exact (ih h).imp_right (List.mem_cons_of_mem _)

theorem mem_of_mem_update {d d' : List (κ × ν)} {e : κ × ν} (h : e ∈ update d d') :
    e ∈ d ∨ e ∈ d' := by
  induction d' generalizing d with
  | nil => exact Or.inl h
  | cons e₀ d' ih =>
    rcases ih h with h | h
    · rcases mem_of_mem_set h with rfl | h
      · exact Or.inr List.mem_cons_self
      · exact Or.inl h
    · exact Or.inr (List.mem_cons_of_mem _ h)

theorem update_ne_nil (e : κ × ν) (d' : List (κ × ν)) : update [] (e :: d') ≠ [] := by
  have hkeys : ∀ d : List (κ × ν), d ≠ [] → update d d' ≠ [] := by
    induction d' with
    | nil => exact fun d hd => hd
    | cons e' d' ih =>
      intro d hd
      refine ih (set d e'.1 e'.2) ?_
      intro hnil
      have hmem := (mem_keys_set d e'.1 e'.1 e'.2).mpr (Or.inl rfl)
      rw [hnil] at hmem
      exact List.not_mem_nil hmem
  exact hkeys [(e.1, e.2)] (List.cons_ne_nil _ _)

theorem nodup_keys_update {d d' : List (κ × ν)} (hd : (keys d).Nodup) :
    (keys (update d d')).Nodup := by
  induction d' generalizing d with
  | nil => exact hd
  | cons e d' ih => exact ih (nodup_keys_set hd e.1 e.2)

/-- A new key comes last. -/
theorem set_of_notMem {d : List (κ × ν)} {k : κ} (hk : k ∉ keys d) (v : ν) :
    set d k v = d ++ [(k, v)] := by
  induction d with
  | nil => rfl
  | cons e d ih =>
    rcases e with ⟨k₀, v₀⟩
    rw [keys_cons, List.mem_cons, not_or] at hk
    simp [set, Ne.symm hk.1, ih hk.2]

/-- Entries with new and distinct keys are appended as they are. -/
theorem update_of_notMem {d d' : List (κ × ν)} (hd' : (keys d').Nodup)
    (hnew : ∀ k ∈ keys d', k ∉ keys d) : update d d' = d ++ d' := by
  induction d' generalizing d with
  | nil => exact (List.append_nil d).symm
  | cons e d' ih =>
    rw [keys_cons, List.nodup_cons] at hd'
    have hset : set d e.1 e.2 = d ++ [e] := set_of_notMem (hnew e.1 List.mem_cons_self) e.2
    have hstep : update d (e :: d') = update (set d e.1 e.2) d' := rfl
    rw [hstep, hset, ih hd'.2 ?_, List.append_assoc, List.singleton_append]
    intro k hk
    simp only [keys, List.map_append, List.map_cons, List.map_nil, List.mem_append,
      List.mem_singleton, not_or]
    refine ⟨hnew k (List.mem_cons_of_mem _ hk), ?_⟩
    rintro rfl
    exact hd'.1 hk

/-- Storing an entry adds at most its weight. -/
theorem sum_map_set_le (f : κ × ν → Nat) (d : List (κ × ν)) (k : κ) (v : ν) :
    ((set d k v).map f).sum ≤ (d.map f).sum + f (k, v) := by
  induction d with
  | nil => simp [set]
  | cons e d ih =>
    rcases e with ⟨k₀, v₀⟩
    by_cases h₀ : k₀ = k
    · subst h₀
      simp only [set, if_true, List.map_cons, List.sum_cons]
      omega
    · simp only [set, if_neg h₀, List.map_cons, List.sum_cons]
      omega

theorem sum_map_update_le (f : κ × ν → Nat) (d d' : List (κ × ν)) :
    ((update d d').map f).sum ≤ (d.map f).sum + (d'.map f).sum := by
  induction d' generalizing d with
  | nil => simp [update]
  | cons e d' ih =>
    rcases e with ⟨k, v⟩
    have hrest := ih (set d k v)
    have hset := sum_map_set_le f d k v
    have hstep : update d ((k, v) :: d') = update (set d k v) d' := rfl
    rw [hstep, List.map_cons, List.sum_cons]
    omega

theorem length_update_le (d d' : List (κ × ν)) : (update d d').length ≤ d.length + d'.length := by
  simpa using sum_map_update_le (fun _ => 1) d d'

/-- Writing back the value that is already stored changes nothing. -/
theorem set_of_get {d : List (κ × ν)} {k : κ} {v : ν} (h : get d k = some v) :
    set d k v = d := by
  induction d with
  | nil => simp at h
  | cons e d ih =>
    rcases e with ⟨k₀, v₀⟩
    by_cases h₀ : k₀ = k
    · simp only [get, if_pos h₀, Option.some.injEq] at h
      simp [set, h₀, h]
    · simp only [get, if_neg h₀] at h
      simp [set, h₀, ih h]

/-- Storing under a key that is there changes one entry in its place. -/
theorem exists_set_eq_modify {d : List (κ × ν)} {k : κ} {old : ν} (h : get d k = some old) (v : ν) :
    ∃ i, d[i]? = some (k, old) ∧ set d k v = d.modify i fun e => (e.1, v) := by
  induction d with
  | nil => simp at h
  | cons e d ih =>
    rcases e with ⟨k₀, v₀⟩
    by_cases h₀ : k₀ = k
    · subst h₀
      simp only [get, if_pos, Option.some.injEq] at h
      exact ⟨0, by simp [h], by simp [set]⟩
    · simp only [get, if_neg h₀] at h
      obtain ⟨i, hi, hset⟩ := ih h
      exact ⟨i + 1, by simpa using hi, by simp [set, h₀, hset]⟩

end Dict
