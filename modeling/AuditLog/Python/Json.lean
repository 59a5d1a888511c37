import AuditLog.Library.Dict
import AuditLog.Python.Number
import AuditLog.Python.Text

/-!
# JSON values as `json.loads` builds them

`null`, booleans, unbounded integers, finite floats, strings, lists and dicts.
A dict is an insertion-ordered list of members; `uniqueKeys` says that no dict
in the value repeats a key, and `Payload` is a top-level dict with that
property. `Same` is equality of values up to the order of dict members.
-/

namespace AuditLog

/-- A JSON value; the members of an `obj` stand in insertion order. -/
inductive Json where
  | null
  | bool (b : Bool)
  | int (n : Int)
  | float (x : PyFloat)
  | str (s : PyStr)
  | arr (xs : List Json)
  | obj (kvs : List (PyStr × Json))

namespace Json

/-! ## Decidable equality -/

mutual
def beq : Json → Json → Bool
  | .null, .null => true
  | .bool a, .bool b => a == b
  | .int m, .int n => m == n
  | .float x, .float y => x == y
  | .str s, .str t => s == t
  | .arr xs, .arr ys => beqList xs ys
  | .obj kvs, .obj kvs' => beqMembers kvs kvs'
  | _, _ => false

def beqList : List Json → List Json → Bool
  | [], [] => true
  | x :: xs, y :: ys => beq x y && beqList xs ys
  | _, _ => false

def beqMembers : List (PyStr × Json) → List (PyStr × Json) → Bool
  | [], [] => true
  | (k, v) :: kvs, (k', v') :: kvs' => k == k' && beq v v' && beqMembers kvs kvs'
  | _, _ => false
end

mutual
theorem beq_iff : ∀ a b : Json, beq a b = true ↔ a = b
  | .null, b => by cases b <;> simp [beq]
  | .bool _, b => by cases b <;> simp [beq]
  | .int _, b => by cases b <;> simp [beq]
  | .float _, b => by cases b <;> simp [beq]
  | .str _, b => by cases b <;> simp [beq]
  | .arr xs, b => by
    cases b <;> simp [beq]
    exact beqList_iff xs _
  | .obj kvs, b => by
    cases b <;> simp [beq]
    exact beqMembers_iff kvs _

theorem beqList_iff : ∀ xs ys : List Json, beqList xs ys = true ↔ xs = ys
  | [], ys => by cases ys <;> simp [beqList]
  | x :: xs, ys => by
    cases ys with
    | nil => simp [beqList]
    | cons y ys => simp [beqList, beq_iff x y, beqList_iff xs ys]

theorem beqMembers_iff : ∀ kvs kvs' : List (PyStr × Json), beqMembers kvs kvs' = true ↔ kvs = kvs'
  | [], kvs' => by cases kvs' <;> simp [beqMembers]
  | (k, v) :: kvs, kvs' => by
    cases kvs' with
    | nil => simp [beqMembers]
    | cons e kvs' =>
      rcases e with ⟨k', v'⟩
      simp [beqMembers, beq_iff v v', beqMembers_iff kvs kvs', and_assoc]
end

instance : DecidableEq Json := fun a b => decidable_of_iff _ (beq_iff a b)

/-! ## Values without repeated keys -/

mutual
/-- No dict in the value has two members with the same key. -/
def uniqueKeys : Json → Bool
  | .arr xs => uniqueKeysList xs
  | .obj kvs => decide (Dict.keys kvs).Nodup && uniqueKeysMembers kvs
  | _ => true

def uniqueKeysList : List Json → Bool
  | [] => true
  | x :: xs => uniqueKeys x && uniqueKeysList xs

def uniqueKeysMembers : List (PyStr × Json) → Bool
  | [] => true
  | (_, v) :: kvs => uniqueKeys v && uniqueKeysMembers kvs
end

/-- The recursion over members, as a statement about each of them. -/
theorem uniqueKeysMembers_iff (kvs : List (PyStr × Json)) :
    uniqueKeysMembers kvs = true ↔ ∀ e ∈ kvs, uniqueKeys e.2 = true := by
  induction kvs with
  | nil => simp [uniqueKeysMembers]
  | cons e kvs ih =>
    rcases e with ⟨k, v⟩
    simp [uniqueKeysMembers, ih]

/-! ## Equality up to the order of dict members -/

mutual
/-- The same value up to the order of dict members, at every level. -/
def Same : Json → Json → Prop
  | .null, .null => True
  | .bool a, .bool b => a = b
  | .int m, .int n => m = n
  | .float x, .float y => x = y
  | .str s, .str t => s = t
  | .arr xs, .arr ys => SameList xs ys
  | .obj kvs, .obj kvs' => kvs.length = kvs'.length ∧ SameMembers kvs kvs'
  | _, _ => False

def SameList : List Json → List Json → Prop
  | [], [] => True
  | x :: xs, y :: ys => Same x y ∧ SameList xs ys
  | _, _ => False

/-- Every member on the left has a member with the same key and value on the right. -/
def SameMembers : List (PyStr × Json) → List (PyStr × Json) → Prop
  | [], _ => True
  | (k, v) :: kvs, kvs' => (∃ w, (k, w) ∈ kvs' ∧ Same v w) ∧ SameMembers kvs kvs'
end

theorem sameMembers_mem {kvs kvs' : List (PyStr × Json)} (h : SameMembers kvs kvs') {k : PyStr}
    {v : Json} (hmem : (k, v) ∈ kvs) : ∃ w, (k, w) ∈ kvs' ∧ Same v w := by
  induction kvs with
  | nil => simp at hmem
  | cons e kvs ih =>
    rcases e with ⟨k₀, v₀⟩
    rcases List.mem_cons.mp hmem with heq | hmem
    · rcases Prod.mk.inj heq with ⟨rfl, rfl⟩
      exact h.1
    · exact ih h.2 hmem

/-- `SameMembers` without its recursion: every member finds its partner. -/
theorem sameMembers_iff {kvs kvs' : List (PyStr × Json)} :
    SameMembers kvs kvs' ↔ ∀ k v, (k, v) ∈ kvs → ∃ w, (k, w) ∈ kvs' ∧ Same v w := by
  constructor
  · intro h k v hmem
    exact sameMembers_mem h hmem
  · intro h
    induction kvs with
    | nil => trivial
    | cons e kvs ih =>
      rcases e with ⟨k, v⟩
      exact ⟨h k v List.mem_cons_self, ih fun k' v' hmem => h k' v' (List.mem_cons_of_mem _ hmem)⟩

/-- Dicts with the same keys in the same order are the same member by member. -/
theorem same_obj_iff_of_keys_eq {kvs kvs' : List (PyStr × Json)} (hkeys : Dict.keys kvs = Dict.keys kvs')
    (hnd : (Dict.keys kvs).Nodup) :
    Same (.obj kvs) (.obj kvs') ↔ List.Forall₂ (fun e f => Same e.2 f.2) kvs kvs' := by
  have hlength : kvs.length = kvs'.length := by
    simpa [Dict.keys] using congrArg List.length hkeys
  simp only [Same, hlength, true_and]
  clear hlength
  induction kvs generalizing kvs' with
  | nil =>
    cases kvs' with
    | nil => simp [SameMembers]
    | cons f kvs' => cases hkeys
  | cons e kvs ih =>
    cases kvs' with
    | nil => cases hkeys
    | cons f kvs' =>
      rcases e with ⟨k, v⟩
      rcases f with ⟨k', w⟩
      simp only [Dict.keys_cons, List.cons.injEq, List.nodup_cons] at hkeys hnd
      rcases hkeys with ⟨rfl, hkeys⟩
      -- The head key occurs in neither tail.
      have hhead : ∀ u, (k, u) ∈ (k, w) :: kvs' → u = w := by
        intro u hu
        rcases List.mem_cons.mp hu with heq | hu
        · exact (Prod.mk.inj heq).2
        · exact absurd (hkeys ▸ List.mem_map_of_mem hu) hnd.1
      have htail : SameMembers kvs ((k, w) :: kvs') ↔ SameMembers kvs kvs' := by
        rw [sameMembers_iff, sameMembers_iff]
        refine forall₃_congr fun k' v' hmem => exists_congr fun u => and_congr_left' ?_
        have hne : k' ≠ k := by
          rintro rfl
          exact hnd.1 (List.mem_map_of_mem hmem)
        simp [hne]
      have hrest : SameMembers kvs kvs' ↔ List.Forall₂ (fun e f => Same e.2 f.2) kvs kvs' :=
        ih hkeys hnd.2
      rw [SameMembers, htail, hrest, List.forall₂_cons]
      refine and_congr_left' ?_
      constructor
      · rintro ⟨u, hu, hsame⟩
        rw [hhead u hu] at hsame
        exact hsame
      · intro hsame
        exact ⟨w, List.mem_cons_self, hsame⟩

/-- A key that one of two same dicts has, the other has as well. -/
theorem mem_keys_of_same {kvs kvs' : List (PyStr × Json)} (h : Same (.obj kvs) (.obj kvs')) {k : PyStr}
    (hk : k ∈ Dict.keys kvs) : k ∈ Dict.keys kvs' := by
  rcases List.mem_map.mp hk with ⟨⟨k', v⟩, hmem, rfl⟩
  rcases sameMembers_mem h.2 hmem with ⟨w, hw, -⟩
  exact List.mem_map.mpr ⟨(k', w), hw, rfl⟩

theorem same_str_left {s : PyStr} {j : Json} (h : Same (.str s) j) : j = .str s := by
  cases j <;> simp [Same] at h
  rw [h]

/-! ## Sorting keys -/

/-- Members are sorted by key. -/
def memberLe (e f : PyStr × Json) : Prop := PyStr.le e.1 f.1

instance (e f : PyStr × Json) : Decidable (memberLe e f) := inferInstanceAs (Decidable (PyStr.le _ _))

mutual
/-- The value with the members of every dict in key order. -/
def sortKeys : Json → Json
  | .arr xs => .arr (sortKeysList xs)
  | .obj kvs => .obj ((sortKeysMembers kvs).insertionSort memberLe)
  | j => j

def sortKeysList : List Json → List Json
  | [] => []
  | x :: xs => sortKeys x :: sortKeysList xs

def sortKeysMembers : List (PyStr × Json) → List (PyStr × Json)
  | [] => []
  | (k, v) :: kvs => (k, sortKeys v) :: sortKeysMembers kvs
end

/-- Sorting acts on the values of a dict one by one, before the members are sorted. -/
theorem sortKeysMembers_eq (kvs : List (PyStr × Json)) :
    sortKeysMembers kvs = kvs.map fun e => (e.1, sortKeys e.2) := by
  induction kvs with
  | nil => rfl
  | cons e kvs ih =>
    rcases e with ⟨k, v⟩
    simp [sortKeysMembers, ih]

mutual
/-- Values that sort to the same value are the same up to member order. -/
theorem same_of_sortKeys_eq : ∀ a b : Json, sortKeys a = sortKeys b → Same a b
  | .null, b, h => by cases b <;> simp [sortKeys, Same] at h ⊢
  | .bool _, b, h => by cases b <;> simp [sortKeys, Same] at h ⊢; exact h
  | .int _, b, h => by cases b <;> simp [sortKeys, Same] at h ⊢; exact h
  | .float _, b, h => by cases b <;> simp [sortKeys, Same] at h ⊢; exact h
  | .str _, b, h => by cases b <;> simp [sortKeys, Same] at h ⊢; exact h
  | .arr xs, b, h => by
    cases b <;> simp [sortKeys, Same] at h ⊢
    exact sameList_of_sortKeysList_eq xs _ h
  | .obj kvs, b, h => by
    cases b <;> simp [sortKeys, Same] at h ⊢
    rename_i kvs'
    -- Sorting permutes the members, so each one has its partner on the other side.
    have hperm : (sortKeysMembers kvs).Perm (sortKeysMembers kvs') :=
      (List.perm_insertionSort memberLe _).symm.trans
        (h ▸ List.perm_insertionSort memberLe _)
    constructor
    · simpa [sortKeysMembers_eq] using hperm.length_eq
    · exact sameMembers_of_sortKeysMembers_subset kvs kvs' fun e he => hperm.mem_iff.mp he

theorem sameList_of_sortKeysList_eq :
    ∀ xs ys : List Json, sortKeysList xs = sortKeysList ys → SameList xs ys
  | [], ys, h => by cases ys <;> simp [sortKeysList, SameList] at h ⊢
  | x :: xs, ys, h => by
    cases ys with
    | nil => simp [sortKeysList] at h
    | cons y ys =>
      simp only [sortKeysList, List.cons.injEq] at h
      exact ⟨same_of_sortKeys_eq x y h.1, sameList_of_sortKeysList_eq xs ys h.2⟩

theorem sameMembers_of_sortKeysMembers_subset :
    ∀ kvs kvs' : List (PyStr × Json),
      (∀ e ∈ sortKeysMembers kvs, e ∈ sortKeysMembers kvs') → SameMembers kvs kvs'
  | [], _, _ => trivial
  | (k, v) :: kvs, kvs', h => by
    constructor
    · have hmem := h (k, sortKeys v) (by simp [sortKeysMembers])
      rw [sortKeysMembers_eq, List.mem_map] at hmem
      rcases hmem with ⟨⟨k', w⟩, hw, heq⟩
      rcases Prod.mk.inj heq with ⟨rfl, hval⟩
      exact ⟨w, hw, same_of_sortKeys_eq v w hval.symm⟩
    · exact sameMembers_of_sortKeysMembers_subset kvs kvs' fun e he =>
        h e (by simp [sortKeysMembers, he])
end

instance : Std.Total memberLe := ⟨fun e f => Std.Total.total e.1 f.1⟩

instance : IsTrans (PyStr × Json) memberLe := ⟨fun e f g => IsTrans.trans e.1 f.1 g.1⟩

/-- The sorted members of dicts without repeated keys, as many on both sides, each one
with its partner on the other side. -/
theorem insertionSort_eq_of_subset {ms ms' : List (PyStr × Json)} (hnd : (Dict.keys ms).Nodup)
    (hnd' : (Dict.keys ms').Nodup) (hlength : ms.length = ms'.length) (hsub : ∀ e ∈ ms, e ∈ ms') :
    ms.insertionSort memberLe = ms'.insertionSort memberLe := by
  have hperm : ms.Perm ms' := by
    have hsubperm := List.subperm_of_subset (List.Nodup.of_map Prod.fst hnd) hsub
    exact hsubperm.perm_of_length_le (Nat.le_of_eq hlength.symm)
  have hsorted := List.pairwise_insertionSort memberLe ms
  have hsorted' := List.pairwise_insertionSort memberLe ms'
  have hpermSorted : (ms.insertionSort memberLe).Perm (ms'.insertionSort memberLe) :=
    (List.perm_insertionSort memberLe ms).trans
      (hperm.trans (List.perm_insertionSort memberLe ms').symm)
  refine List.Perm.eq_of_pairwise ?_ hsorted hsorted' hpermSorted
  -- Members that sort at the same place have one key, and no key occurs twice.
  intro a b ha hb hab hba
  have hkey : a.1 = b.1 := Std.Antisymm.antisymm a.1 b.1 hab hba
  have ha' : a ∈ ms' := hsub a ((List.perm_insertionSort memberLe ms).mem_iff.mp ha)
  have hb' : b ∈ ms' := (List.perm_insertionSort memberLe ms').mem_iff.mp hb
  exact List.inj_on_of_nodup_map hnd' ha' hb' hkey

/-- The members keep their keys while their values are sorted. -/
theorem keys_sortKeysMembers (kvs : List (PyStr × Json)) :
    Dict.keys (sortKeysMembers kvs) = Dict.keys kvs := by
  rw [sortKeysMembers_eq, Dict.keys, List.map_map]
  rfl

mutual
/-- Values without repeated keys that are the same up to member order sort to the same value. -/
theorem sortKeys_eq_of_same : ∀ a b : Json, a.uniqueKeys = true → b.uniqueKeys = true →
    Same a b → sortKeys a = sortKeys b
  | .null, b, _, _, h => by cases b <;> simp [Same] at h ⊢
  | .bool _, b, _, _, h => by cases b <;> simp [sortKeys, Same] at h ⊢; exact h
  | .int _, b, _, _, h => by cases b <;> simp [sortKeys, Same] at h ⊢; exact h
  | .float _, b, _, _, h => by cases b <;> simp [sortKeys, Same] at h ⊢; exact h
  | .str _, b, _, _, h => by cases b <;> simp [sortKeys, Same] at h ⊢; exact h
  | .arr xs, b, ha, hb, h => by
    cases b <;> simp [sortKeys, Same] at h ⊢
    exact sortKeysList_eq_of_sameList xs _ ha hb h
  | .obj kvs, b, ha, hb, h => by
    cases b <;> simp [sortKeys, Same] at h ⊢
    rename_i kvs'
    simp only [uniqueKeys, Bool.and_eq_true, decide_eq_true_eq] at ha hb
    refine insertionSort_eq_of_subset ?_ ?_ ?_ ?_
    · rw [keys_sortKeysMembers]
      exact ha.1
    · rw [keys_sortKeysMembers]
      exact hb.1
    · rw [sortKeysMembers_eq, sortKeysMembers_eq, List.length_map, List.length_map]
      exact h.1
    · exact sortKeysMembers_subset_of_sameMembers kvs kvs' ha.2 hb.2 h.2

theorem sortKeysList_eq_of_sameList : ∀ xs ys : List Json, uniqueKeysList xs = true →
    uniqueKeysList ys = true → SameList xs ys → sortKeysList xs = sortKeysList ys
  | [], ys, _, _, h => by cases ys <;> simp [SameList] at h ⊢
  | x :: xs, ys, hxs, hys, h => by
    cases ys with
    | nil => simp [SameList] at h
    | cons y ys =>
      simp only [uniqueKeysList, Bool.and_eq_true] at hxs hys
      simp only [sortKeysList, List.cons.injEq]
      exact ⟨sortKeys_eq_of_same x y hxs.1 hys.1 h.1,
        sortKeysList_eq_of_sameList xs ys hxs.2 hys.2 h.2⟩

theorem sortKeysMembers_subset_of_sameMembers :
    ∀ kvs kvs' : List (PyStr × Json), uniqueKeysMembers kvs = true → uniqueKeysMembers kvs' = true →
      SameMembers kvs kvs' → ∀ e ∈ sortKeysMembers kvs, e ∈ sortKeysMembers kvs'
  | [], _, _, _, _ => by simp [sortKeysMembers]
  | (k, v) :: kvs, kvs', hkvs, hkvs', h => by
    simp only [uniqueKeysMembers, Bool.and_eq_true] at hkvs
    intro e he
    rcases List.mem_cons.mp he with rfl | he
    · rcases h.1 with ⟨w, hw, hsame⟩
      have hw' := (uniqueKeysMembers_iff kvs').mp hkvs' _ hw
      rw [sortKeysMembers_eq, List.mem_map]
      exact ⟨(k, w), hw, by rw [sortKeys_eq_of_same v w hkvs.1 hw' hsame]⟩
    · exact sortKeysMembers_subset_of_sameMembers kvs kvs' hkvs.2 hkvs' h.2 e he
end

end Json

/-! ## Payloads -/

/-- A `dict[str, Any]` that came out of `json.loads`. -/
structure Payload where
  fields : List (PyStr × Json)
  unique : (Json.obj fields).uniqueKeys = true
deriving DecidableEq

namespace Payload

/-- The payload as a JSON value. -/
def toJson (p : Payload) : Json := .obj p.fields

/-- A payload has no key twice at its top level. -/
theorem keys_nodup (p : Payload) : (Dict.keys p.fields).Nodup := by
  have h := p.unique
  simp only [Json.uniqueKeys, Bool.and_eq_true, decide_eq_true_eq] at h
  exact h.1

/-- No value of a payload has a key twice. -/
theorem members_unique (p : Payload) : ∀ e ∈ p.fields, e.2.uniqueKeys = true := by
  have h := p.unique
  simp only [Json.uniqueKeys, Bool.and_eq_true] at h
  exact (Json.uniqueKeysMembers_iff p.fields).mp h.2

/-- `payload[k]`, when present. -/
def get? (p : Payload) (k : PyStr) : Option Json := Dict.get p.fields k

/-- `payload.get(k)`: a missing key reads as `None`. -/
def get (p : Payload) (k : PyStr) : Json := (p.get? k).getD .null

/-- `k in payload`. -/
def contains (p : Payload) (k : PyStr) : Bool := (p.get? k).isSome

/-- `payload[k] = s` for a string `s`. -/
def setStr (p : Payload) (k s : PyStr) : Payload where
  fields := Dict.set p.fields k (.str s)
  unique := by
    simp only [Json.uniqueKeys, Bool.and_eq_true, decide_eq_true_eq]
    constructor
    · exact Dict.nodup_keys_set p.keys_nodup k _
    · rw [Json.uniqueKeysMembers_iff]
      intro e he
      have hget := Dict.get_of_mem (Dict.nodup_keys_set p.keys_nodup k (.str s)) he
      rw [Dict.get_set] at hget
      -- Either the string that was just stored, or a member that was there.
      split at hget
      · rw [← Option.some.inj hget]
        rfl
      · exact p.members_unique _ (Dict.mem_of_get hget)

/-- What a lookup gives after `payload[k] = s`. -/
theorem get?_setStr (p : Payload) (k s k' : PyStr) :
    (p.setStr k s).get? k' = if k = k' then some (.str s) else p.get? k' :=
  Dict.get_set p.fields k k' (.str s)

/-- Payloads that are the same up to member order answer every lookup alike. -/
theorem get?_same {p q : Payload} (h : Json.Same p.toJson q.toJson) (k : PyStr) :
    match p.get? k with
    | none => True
    | some v => ∃ w, q.get? k = some w ∧ Json.Same v w := by
  cases hp : p.get? k with
  | none => trivial
  | some v =>
    rcases Json.sameMembers_mem h.2 (Dict.mem_of_get hp) with ⟨w, hw, hvw⟩
    exact ⟨w, Dict.get_of_mem q.keys_nodup hw, hvw⟩

/-- Payloads that answer every lookup alike are the same up to member order. -/
theorem same_of_get?_eq {p q : Payload} (h : ∀ k, p.get? k = q.get? k) :
    Json.Same p.toJson q.toJson := by
  have hmem : ∀ e, e ∈ p.fields ↔ e ∈ q.fields := by
    intro e
    constructor
    · intro he
      exact Dict.mem_of_get ((h e.1).symm.trans (Dict.get_of_mem p.keys_nodup he))
    · intro he
      exact Dict.mem_of_get ((h e.1).trans (Dict.get_of_mem q.keys_nodup he))
  have hperm : p.fields.Perm q.fields :=
    (List.perm_ext_iff_of_nodup (List.Nodup.of_map Prod.fst p.keys_nodup)
      (List.Nodup.of_map Prod.fst q.keys_nodup)).mpr hmem
  refine ⟨hperm.length_eq, Json.sameMembers_iff.mpr fun k v hv => ⟨v, (hmem _).mp hv, ?_⟩⟩
  exact Json.same_of_sortKeys_eq v v rfl

end Payload

end AuditLog
