import AuditLog.Library.Branching
import AuditLog.Python.Json

/-!
# Positions in a JSON value

The children of a list are its elements, those of a dict the values of its members in
their order; a position counts them from the root. Storing a value under a key that is
there replaces what stands at one position.
-/

namespace AuditLog

namespace Json

/-! ## Children -/

def children : Json → List Json
  | .arr xs => xs
  | .obj kvs => kvs.map Prod.snd
  | _ => []

/-- Another value for one element, or for one member under its key. -/
def setChild : Json → Nat → Json → Json
  | .arr xs, i, c => .arr (xs.set i c)
  | .obj kvs, i, c => .obj (kvs.modify i fun e => (e.1, c))
  | v, _, _ => v

theorem map_snd_modify (kvs : List (PyStr × Json)) (i : Nat) (c : Json) :
    (kvs.modify i fun e => (e.1, c)).map Prod.snd = (kvs.map Prod.snd).set i c := by
  induction kvs generalizing i with
  | nil => simp
  | cons e kvs ih =>
    cases i with
    | zero => simp
    | succ i => simp [ih]

theorem children_setChild (v : Json) (i : Nat) (c : Json) :
    (v.setChild i c).children = v.children.set i c := by
  cases v with
  | obj kvs => exact map_snd_modify kvs i c
  | _ => rfl

theorem sizeOf_lt_of_mem_children {c v : Json} (h : c ∈ v.children) : sizeOf c < sizeOf v := by
  cases v with
  | arr xs =>
    have hlt : sizeOf c < sizeOf xs := List.sizeOf_lt_of_mem h
    rw [Json.arr.sizeOf_spec]
    omega
  | obj kvs =>
    obtain ⟨⟨k, w⟩, hmem, rfl⟩ := List.mem_map.mp h
    have hlt := List.sizeOf_lt_of_mem hmem
    rw [Prod.mk.sizeOf_spec] at hlt
    show sizeOf w < _
    rw [Json.obj.sizeOf_spec]
    omega
  | _ => cases h

/-- JSON values as trees. -/
def tree : Branching Json where
  children := children
  setChild := setChild
  children_setChild := children_setChild
  wellFounded := Subrelation.wf sizeOf_lt_of_mem_children (measure sizeOf).wf

/-! ## What stands at a position -/

/-- A dict or list with something in it. -/
def isNonEmptyContainer : Json → Bool
  | .obj (_ :: _) => true
  | .arr (_ :: _) => true
  | _ => false

theorem branches_eq : tree.branches = isNonEmptyContainer := by
  funext v
  cases v with
  | arr xs => cases xs <;> rfl
  | obj kvs => cases kvs <;> rfl
  | _ => rfl

/-- The strings that a value has itself: the string it is, or the keys of the dict it is. -/
def ownStrings : Json → List PyStr
  | .str s => [s]
  | .obj kvs => Dict.keys kvs
  | _ => []

end Json

/-- `payload[k] = s` for a key that is there, as a replacement at a position. -/
theorem Payload.exists_setStr_eq_replaceAt {p : Payload} {k : PyStr} (hk : p.contains k = true)
    (s : PyStr) : ∃ i old, Json.tree.at? p.toJson [i] = some old ∧
      (p.setStr k s).toJson = Json.tree.replaceAt p.toJson [i] (.str s) := by
  obtain ⟨old, hold⟩ := Option.isSome_iff_exists.mp hk
  obtain ⟨i, hi, hset⟩ := Dict.exists_set_eq_modify hold (.str s)
  have hchild : (Json.tree.children p.toJson)[i]? = some old := by
    show (p.fields.map Prod.snd)[i]? = some old
    rw [List.getElem?_map, hi]
    rfl
  refine ⟨i, old, Branching.at?_cons_eq_some_iff.mpr ⟨old, hchild, rfl⟩, ?_⟩
  rw [Branching.replaceAt_cons hchild]
  exact congrArg Json.obj hset

end AuditLog
