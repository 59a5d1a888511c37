import AuditLog.Python.JsonTree

/-!
# The payload walkers (`payload_limits.py`)

`compute_payload_depth` and `payload_has_overlong_string` recurse over dicts and lists. Each
level takes a frame for the call and what the interpreter counts for a generator, and a value
that is nested deeper than the recursion limit allows ends in a `RecursionError` instead of an
answer. Below that limit both are exact (`walkersExact_iff`): the first is the height of the
tree of non-empty containers, so it bounds the containers on every path; the second looks at
every string of the value, keys included.
-/

namespace AuditLog

/-! ## The recursion limit -/

/-- What the interpreter grants a call. -/
structure Stack where
  /-- The frames that are left. -/
  frames : Nat := 1000
  /-- What `max` or `any` takes for a generator: one frame, and one more where the interpreter
  counts the calls of builtins as well. -/
  generator : Nat := 1
deriving DecidableEq

/-- The stack below `n` more frames, unless that is a `RecursionError`. -/
def Stack.push (stack : Stack) (n : Nat) : Option Stack :=
  if n ≤ stack.frames then some { stack with frames := stack.frames - n } else none

theorem Stack.push_eq_some_iff {stack inner : Stack} {n : Nat} :
    stack.push n = some inner ↔
      inner.frames + n = stack.frames ∧ inner.generator = stack.generator := by
  rcases inner with ⟨frames, generator⟩
  unfold push
  split
  · rw [Option.some.injEq, Stack.mk.injEq]
    dsimp only
    omega
  · simp only [reduceCtorEq, false_iff]
    omega

theorem Stack.push_of_le {stack : Stack} {n : Nat} (h : n ≤ stack.frames) :
    stack.push n = some { stack with frames := stack.frames - n } := if_pos h

/-- Python's `or` of two answers, where the second one is only asked for after a `False`. -/
def pyOr (a b : Option Bool) : Option Bool := a.bind fun answer => if answer then some true else b

theorem pyOr_eq_some_iff {a b : Option Bool} {r : Bool} :
    pyOr a b = some r ↔ a = some true ∧ r = true ∨ a = some false ∧ b = some r := by
  rcases a with _ | _ | _ <;> simp [pyOr, eq_comm]

@[simp] theorem pyOr_some (a b : Bool) : pyOr (some a) (some b) = some (a || b) := by
  cases a <;> rfl

/-! ## The walkers -/

mutual
/-- `compute_payload_depth`; `none` stands for a `RecursionError`. -/
def computePayloadDepth (stack : Stack) : Json → Option Nat
  | .obj (e :: kvs) =>
    (stack.push (1 + stack.generator)).bind fun inner =>
      (maxDepthMembers inner (e :: kvs)).map (1 + ·)
  | .arr (x :: xs) =>
    (stack.push (1 + stack.generator)).bind fun inner =>
      (maxDepthList inner (x :: xs)).map (1 + ·)
  | _ => (stack.push 1).map fun _ => 0

/-- `max` over the elements of a list. -/
def maxDepthList (stack : Stack) : List Json → Option Nat
  | [] => some 0
  | x :: xs =>
    (computePayloadDepth stack x).bind fun depth => (maxDepthList stack xs).map (max depth)

/-- `max` over the values of a dict. -/
def maxDepthMembers (stack : Stack) : List (PyStr × Json) → Option Nat
  | [] => some 0
  | (_, v) :: kvs =>
    (computePayloadDepth stack v).bind fun depth => (maxDepthMembers stack kvs).map (max depth)
end

/-- The call for a string, which every key is. -/
def isOverlongString (maxLength : Nat) (stack : Stack) (s : PyStr) : Option Bool :=
  (stack.push 1).map fun _ => decide (maxLength < s.len)

mutual
/-- `payload_has_overlong_string`; `any` stops at the first `True`. -/
def payloadHasOverlongString (maxLength : Nat) (stack : Stack) : Json → Option Bool
  | .str s => isOverlongString maxLength stack s
  | .obj kvs =>
    (stack.push (1 + stack.generator)).bind fun inner => anyOverlongMember maxLength inner kvs
  | .arr xs => (stack.push (1 + stack.generator)).bind fun inner => anyOverlong maxLength inner xs
  | _ => (stack.push 1).map fun _ => false

/-- `any` over the elements of a list. -/
def anyOverlong (maxLength : Nat) (stack : Stack) : List Json → Option Bool
  | [] => some false
  | x :: xs =>
    pyOr (payloadHasOverlongString maxLength stack x) (anyOverlong maxLength stack xs)

/-- `any` over the members of a dict; a key is looked at before its value. -/
def anyOverlongMember (maxLength : Nat) (stack : Stack) : List (PyStr × Json) → Option Bool
  | [] => some false
  | (k, v) :: kvs =>
    pyOr (pyOr (isOverlongString maxLength stack k) (payloadHasOverlongString maxLength stack v))
      (anyOverlongMember maxLength stack kvs)
end

/-! ## What they answer -/

namespace Json

mutual
/-- The levels of non-empty dicts and lists. -/
def depth : Json → Nat
  | .obj (e :: kvs) => 1 + depthMembers (e :: kvs)
  | .arr (x :: xs) => 1 + depthList (x :: xs)
  | _ => 0

def depthList : List Json → Nat
  | [] => 0
  | x :: xs => max (depth x) (depthList xs)

def depthMembers : List (PyStr × Json) → Nat
  | [] => 0
  | (_, v) :: kvs => max (depth v) (depthMembers kvs)
end

mutual
/-- There is a string longer than the bound, as a value, an element or a key. -/
def hasOverlong (maxLength : Nat) : Json → Bool
  | .str s => maxLength < s.len
  | .obj kvs => hasOverlongMember maxLength kvs
  | .arr xs => hasOverlongElement maxLength xs
  | _ => false

def hasOverlongElement (maxLength : Nat) : List Json → Bool
  | [] => false
  | x :: xs => hasOverlong maxLength x || hasOverlongElement maxLength xs

def hasOverlongMember (maxLength : Nat) : List (PyStr × Json) → Bool
  | [] => false
  | (k, v) :: kvs =>
    (maxLength < k.len || hasOverlong maxLength v) || hasOverlongMember maxLength kvs
end

mutual
/-- The frames of a walk over all of the value. -/
def walkFrames (generator : Nat) : Json → Nat
  | .obj kvs => 1 + generator + walkFramesMembers generator kvs
  | .arr xs => 1 + generator + walkFramesList generator xs
  | _ => 1

def walkFramesList (generator : Nat) : List Json → Nat
  | [] => 0
  | x :: xs => max (walkFrames generator x) (walkFramesList generator xs)

def walkFramesMembers (generator : Nat) : List (PyStr × Json) → Nat
  | [] => 0
  | (_, v) :: kvs => max (walkFrames generator v) (walkFramesMembers generator kvs)
end

/-- The frames of a walk to this depth. -/
def depthFrames (generator depth : Nat) : Nat := 1 + (1 + generator) * depth

theorem depthFrames_succ (generator depth : Nat) :
    depthFrames generator (1 + depth) = 1 + generator + depthFrames generator depth := by
  unfold depthFrames
  rw [Nat.mul_add]
  omega

theorem depthFrames_max (generator a b : Nat) :
    depthFrames generator (max a b) =
      max (depthFrames generator a) (depthFrames generator b) := by
  unfold depthFrames
  rw [← Nat.mul_max_mul_left, Nat.add_max_add_left]

theorem depthFrames_mono (generator : Nat) {a b : Nat} (h : a ≤ b) :
    depthFrames generator a ≤ depthFrames generator b :=
  Nat.add_le_add_left (Nat.mul_le_mul_left _ h) 1

theorem walkFrames_pos (generator : Nat) (v : Json) : 0 < v.walkFrames generator := by
  cases v <;> simp only [walkFrames] <;> omega

mutual
/-- The walk to the depth of a value is part of the walk over all of it. -/
theorem depthFrames_le_walkFrames (generator : Nat) :
    ∀ v : Json, depthFrames generator v.depth ≤ v.walkFrames generator
  | .obj [] => by simp [depth, depthFrames, walkFrames, walkFramesMembers]
  | .arr [] => by simp [depth, depthFrames, walkFrames, walkFramesList]
  | .obj ((k, v) :: kvs) => by
    have hle := depthFrames_le_walkFramesMembers generator ((k, v) :: kvs)
    have hpos := v.walkFrames_pos generator
    rw [depth, walkFrames, depthFrames_succ]
    rw [walkFramesMembers] at hle ⊢
    omega
  | .arr (x :: xs) => by
    have hle := depthFrames_le_walkFramesList generator (x :: xs)
    have hpos := x.walkFrames_pos generator
    rw [depth, walkFrames, depthFrames_succ]
    rw [walkFramesList] at hle ⊢
    omega
  | .null => Nat.le_refl _
  | .bool _ => Nat.le_refl _
  | .int _ => Nat.le_refl _
  | .float _ => Nat.le_refl _
  | .str _ => Nat.le_refl _

/-- The depth of no elements is 0, and a walk to depth 0 still takes a frame. -/
theorem depthFrames_le_walkFramesList (generator : Nat) : ∀ xs : List Json,
    depthFrames generator (depthList xs) ≤ max 1 (walkFramesList generator xs)
  | [] => Nat.le_max_left _ _
  | x :: xs => by
    have hfirst := depthFrames_le_walkFrames generator x
    have hrest := depthFrames_le_walkFramesList generator xs
    rw [depthList, walkFramesList, depthFrames_max]
    omega

theorem depthFrames_le_walkFramesMembers (generator : Nat) : ∀ kvs : List (PyStr × Json),
    depthFrames generator (depthMembers kvs) ≤ max 1 (walkFramesMembers generator kvs)
  | [] => Nat.le_max_left _ _
  | (_, v) :: kvs => by
    have hfirst := depthFrames_le_walkFrames generator v
    have hrest := depthFrames_le_walkFramesMembers generator kvs
    rw [depthMembers, walkFramesMembers, depthFrames_max]
    omega
end

end Json

/-! ## When they answer -/

section Answers

open Json

/-- A level takes the call and the generator. -/
theorem level_eq_some_iff {stack : Stack} {walk : Stack → Option Nat} {deepest d : Nat}
    (h : ∀ inner d, inner.generator = stack.generator → (walk inner = some d ↔
      depthFrames stack.generator deepest ≤ inner.frames ∧ d = deepest)) :
    ((stack.push (1 + stack.generator)).bind fun inner => (walk inner).map (1 + ·)) = some d ↔
      depthFrames stack.generator (1 + deepest) ≤ stack.frames ∧ d = 1 + deepest := by
  rw [depthFrames_succ, Option.bind_eq_some_iff]
  constructor
  · rintro ⟨inner, hpush, hwalk⟩
    obtain ⟨hframes, hgenerator⟩ := Stack.push_eq_some_iff.mp hpush
    obtain ⟨d, hd, rfl⟩ := Option.map_eq_some_iff.mp hwalk
    obtain ⟨hfits, rfl⟩ := (h inner d hgenerator).mp hd
    exact ⟨by omega, rfl⟩
  · rintro ⟨hfits, rfl⟩
    have hpush : stack.push (1 + stack.generator) =
        some { stack with frames := stack.frames - (1 + stack.generator) } :=
      Stack.push_of_le (by omega)
    have hwalk := (h { stack with frames := stack.frames - (1 + stack.generator) } deepest rfl).mpr
      ⟨by dsimp only; omega, rfl⟩
    exact ⟨_, hpush, by rw [hwalk, Option.map_some]⟩

/-- The maximum of a first depth and of those that follow, if there are any. -/
theorem max_eq_some_iff {generator frames first rest d : Nat} {a b : Option Nat} {more : Prop}
    (ha : ∀ d, a = some d ↔ depthFrames generator first ≤ frames ∧ d = first)
    (hb : ∀ d, b = some d ↔ (more → depthFrames generator rest ≤ frames) ∧ d = rest)
    (hnone : ¬ more → rest = 0) :
    (a.bind fun depth => b.map (max depth)) = some d ↔
      depthFrames generator (max first rest) ≤ frames ∧ d = max first rest := by
  rw [depthFrames_max, Option.bind_eq_some_iff]
  constructor
  · rintro ⟨x, hx, hmax⟩
    obtain ⟨y, hy, rfl⟩ := Option.map_eq_some_iff.mp hmax
    obtain ⟨hfirst, rfl⟩ := (ha x).mp hx
    obtain ⟨hrest, rfl⟩ := (hb y).mp hy
    refine ⟨Nat.max_le.mpr ⟨hfirst, ?_⟩, rfl⟩
    -- Without further values the second depth is 0, which fits as the first one does.
    by_cases hmore : more
    · exact hrest hmore
    · rw [hnone hmore]
      exact Nat.le_trans (Nat.le_add_right 1 _) hfirst
  · rintro ⟨hfits, rfl⟩
    obtain ⟨hfirst, hrest⟩ := Nat.max_le.mp hfits
    refine ⟨first, (ha first).mpr ⟨hfirst, rfl⟩, ?_⟩
    rw [(hb rest).mpr ⟨fun _ => hrest, rfl⟩, Option.map_some]

mutual
/-- `compute_payload_depth` answers if the stack takes the walk to the depth of the value. -/
theorem computePayloadDepth_eq_some_iff {stack : Stack} {d : Nat} : ∀ {v : Json},
    computePayloadDepth stack v = some d ↔
      depthFrames stack.generator v.depth ≤ stack.frames ∧ d = v.depth
  | .obj [] | .arr [] | .null | .bool _ | .int _ | .float _ | .str _ => by
    simp only [computePayloadDepth, depth, depthFrames, Option.map_eq_some_iff,
      Stack.push_eq_some_iff]
    constructor
    · rintro ⟨inner, ⟨hframes, -⟩, rfl⟩
      omega
    · rintro ⟨hframes, rfl⟩
      exact ⟨{ stack with frames := stack.frames - 1 }, ⟨by dsimp only; omega, rfl⟩, rfl⟩
  | .obj (e :: kvs) => by
    rw [computePayloadDepth, depth]
    refine level_eq_some_iff fun inner d hgenerator => ?_
    rw [maxDepthMembers_eq_some_iff, hgenerator]
    simp
  | .arr (x :: xs) => by
    rw [computePayloadDepth, depth]
    refine level_eq_some_iff fun inner d hgenerator => ?_
    rw [maxDepthList_eq_some_iff, hgenerator]
    simp

/-- Without elements there is nothing to call. -/
theorem maxDepthList_eq_some_iff {stack : Stack} {d : Nat} : ∀ {xs : List Json},
    maxDepthList stack xs = some d ↔
      (xs ≠ [] → depthFrames stack.generator (depthList xs) ≤ stack.frames) ∧ d = depthList xs
  | [] => by simp [maxDepthList, depthList, eq_comm]
  | x :: xs => by
    rw [maxDepthList, depthList, max_eq_some_iff (fun _ => computePayloadDepth_eq_some_iff)
      (fun _ => maxDepthList_eq_some_iff) (fun hnil => by rw [not_not.mp hnil]; rfl)]
    simp

theorem maxDepthMembers_eq_some_iff {stack : Stack} {d : Nat} : ∀ {kvs : List (PyStr × Json)},
    maxDepthMembers stack kvs = some d ↔
      (kvs ≠ [] → depthFrames stack.generator (depthMembers kvs) ≤ stack.frames) ∧
        d = depthMembers kvs
  | [] => by simp [maxDepthMembers, depthMembers, eq_comm]
  | (k, v) :: kvs => by
    rw [maxDepthMembers, depthMembers, max_eq_some_iff (fun _ => computePayloadDepth_eq_some_iff)
      (fun _ => maxDepthMembers_eq_some_iff) (fun hnil => by rw [not_not.mp hnil]; rfl)]
    simp
end

/-- What an answer of the walker says: it is the right one, and after a `False` all of the value
has been walked over. -/
def Searched (answer : Option Bool) (found : Bool) (needed frames : Nat) : Prop :=
  ∀ b, answer = some b → b = found ∧ (b = false → needed ≤ frames)

/-- A call that goes no deeper takes one frame. -/
theorem searched_push {stack : Stack} {found : Bool} :
    Searched ((stack.push 1).map fun _ => found) found 1 stack.frames := by
  intro b hb
  obtain ⟨inner, hpush, rfl⟩ := Option.map_eq_some_iff.mp hb
  have hframes := (Stack.push_eq_some_iff.mp hpush).1
  exact ⟨rfl, fun _ => by omega⟩

/-- A container takes a level more than what is in it. -/
theorem Searched.level {stack : Stack} {walk : Stack → Option Bool} {found : Bool} {needed : Nat}
    (h : ∀ inner : Stack, inner.generator = stack.generator →
      Searched (walk inner) found needed inner.frames) :
    Searched ((stack.push (1 + stack.generator)).bind walk) found (1 + stack.generator + needed)
      stack.frames := by
  intro b hb
  obtain ⟨inner, hpush, hwalk⟩ := Option.bind_eq_some_iff.mp hb
  obtain ⟨hframes, hgenerator⟩ := Stack.push_eq_some_iff.mp hpush
  obtain ⟨hfound, hneeded⟩ := h inner hgenerator b hwalk
  refine ⟨hfound, fun hb => ?_⟩
  have hbelow := hneeded hb
  omega

/-- After a `False` on both sides both have been walked over. -/
theorem Searched.or {a b : Option Bool} {foundA foundB : Bool} {neededA neededB frames : Nat}
    (ha : Searched a foundA neededA frames) (hb : Searched b foundB neededB frames) :
    Searched (pyOr a b) (foundA || foundB) (max neededA neededB) frames := by
  intro r hr
  rcases pyOr_eq_some_iff.mp hr with ⟨hfirst, rfl⟩ | ⟨hfirst, hsecond⟩
  · obtain ⟨rfl, -⟩ := ha true hfirst
    exact ⟨rfl, by simp⟩
  · obtain ⟨rfl, hwalked⟩ := ha false hfirst
    obtain ⟨rfl, hrest⟩ := hb r hsecond
    exact ⟨rfl, fun hr => Nat.max_le.mpr ⟨hwalked rfl, hrest hr⟩⟩

mutual
/-- What `payload_has_overlong_string` answers is right. -/
theorem searched_payloadHasOverlongString {maxLength : Nat} {stack : Stack} : ∀ v : Json,
    Searched (payloadHasOverlongString maxLength stack v) (v.hasOverlong maxLength)
      (v.walkFrames stack.generator) stack.frames
  | .null | .bool _ | .int _ | .float _ | .str _ => searched_push
  | .obj kvs => by
    rw [payloadHasOverlongString, hasOverlong, walkFrames]
    refine Searched.level fun inner hgenerator => ?_
    rw [← hgenerator]
    exact searched_anyOverlongMember kvs
  | .arr xs => by
    rw [payloadHasOverlongString, hasOverlong, walkFrames]
    refine Searched.level fun inner hgenerator => ?_
    rw [← hgenerator]
    exact searched_anyOverlong xs

theorem searched_anyOverlong {maxLength : Nat} {stack : Stack} : ∀ xs : List Json,
    Searched (anyOverlong maxLength stack xs) (hasOverlongElement maxLength xs)
      (walkFramesList stack.generator xs) stack.frames
  | [] => by
    rintro b ⟨⟩
    exact ⟨rfl, fun _ => Nat.zero_le _⟩
  | x :: xs => (searched_payloadHasOverlongString x).or (searched_anyOverlong xs)

theorem searched_anyOverlongMember {maxLength : Nat} {stack : Stack} :
    ∀ kvs : List (PyStr × Json),
    Searched (anyOverlongMember maxLength stack kvs) (hasOverlongMember maxLength kvs)
      (walkFramesMembers stack.generator kvs) stack.frames
  | [] => by
    rintro b ⟨⟩
    exact ⟨rfl, fun _ => Nat.zero_le _⟩
  | (k, v) :: kvs => by
    have hkey : Searched (isOverlongString maxLength stack k) (decide (maxLength < k.len)) 1
        stack.frames := searched_push
    have hvalue : Searched (payloadHasOverlongString maxLength stack v) (v.hasOverlong maxLength)
        (v.walkFrames stack.generator) stack.frames := searched_payloadHasOverlongString v
    have hmember := hkey.or hvalue
    -- The frame of the call for the key is no more than those for its value.
    rw [Nat.max_eq_right (v.walkFrames_pos stack.generator)] at hmember
    exact hmember.or (searched_anyOverlongMember kvs)
end

mutual
/-- `payload_has_overlong_string` answers if the stack takes the walk over all of the value. -/
theorem payloadHasOverlongString_of_fits {maxLength : Nat} {stack : Stack} : ∀ {v : Json},
    v.walkFrames stack.generator ≤ stack.frames →
      payloadHasOverlongString maxLength stack v = some (v.hasOverlong maxLength)
  | .null, h | .bool _, h | .int _, h | .float _, h | .str _, h => by
    have hframe : 1 ≤ stack.frames := h
    simp only [payloadHasOverlongString, isOverlongString, Stack.push_of_le hframe,
      Option.map_some, hasOverlong]
  | .obj kvs, h => by
    rw [walkFrames] at h
    rw [payloadHasOverlongString, hasOverlong, Stack.push_of_le (by omega), Option.bind_some]
    exact anyOverlongMember_of_fits (by dsimp only; omega)
  | .arr xs, h => by
    rw [walkFrames] at h
    rw [payloadHasOverlongString, hasOverlong, Stack.push_of_le (by omega), Option.bind_some]
    exact anyOverlong_of_fits (by dsimp only; omega)

theorem anyOverlong_of_fits {maxLength : Nat} {stack : Stack} : ∀ {xs : List Json},
    walkFramesList stack.generator xs ≤ stack.frames →
      anyOverlong maxLength stack xs = some (hasOverlongElement maxLength xs)
  | [], _ => rfl
  | x :: xs, h => by
    rw [walkFramesList, Nat.max_le] at h
    rw [anyOverlong, payloadHasOverlongString_of_fits h.1, anyOverlong_of_fits h.2, pyOr_some,
      hasOverlongElement]

theorem anyOverlongMember_of_fits {maxLength : Nat} {stack : Stack} :
    ∀ {kvs : List (PyStr × Json)}, walkFramesMembers stack.generator kvs ≤ stack.frames →
      anyOverlongMember maxLength stack kvs = some (hasOverlongMember maxLength kvs)
  | [], _ => rfl
  | (k, v) :: kvs, h => by
    rw [walkFramesMembers, Nat.max_le] at h
    have hkey : isOverlongString maxLength stack k = some (decide (maxLength < k.len)) := by
      rw [isOverlongString,
        Stack.push_of_le (Nat.le_trans (v.walkFrames_pos stack.generator) h.1), Option.map_some]
    rw [anyOverlongMember, hkey, payloadHasOverlongString_of_fits h.1,
      anyOverlongMember_of_fits h.2, pyOr_some, pyOr_some, hasOverlongMember]
end

end Answers

/-! ## Depth -/

/-- A list is as deep as its deepest element. -/
theorem depthList_le_iff (xs : List Json) (d : Nat) :
    Json.depthList xs ≤ d ↔ ∀ x ∈ xs, x.depth ≤ d := by
  induction xs with
  | nil => simp [Json.depthList]
  | cons x xs ih => simp [Json.depthList, ih]

/-- A dict is as deep as its deepest value; keys have no depth. -/
theorem depthMembers_le_iff (kvs : List (PyStr × Json)) (d : Nat) :
    Json.depthMembers kvs ≤ d ↔ ∀ x ∈ kvs.map Prod.snd, x.depth ≤ d := by
  induction kvs with
  | nil => simp [Json.depthMembers]
  | cons e kvs ih =>
    rcases e with ⟨k, v⟩
    simp [Json.depthMembers, ih]

/-- A non-empty container is one deeper than the deepest value in it. -/
theorem one_add_deepest_le_iff {x : Json} {xs : List Json} {deepest d : Nat}
    (h : ∀ d, deepest ≤ d ↔ ∀ c ∈ x :: xs, c.depth ≤ d) :
    1 + deepest ≤ d ↔ ∀ c ∈ x :: xs, c.depth < d := by
  constructor
  · intro hle c hc
    have hbelow := (h (d - 1)).mp (by omega) c hc
    omega
  · intro hbelow
    have hroot := hbelow x List.mem_cons_self
    have hle := (h (d - 1)).mpr fun c hc => by
      have hlt := hbelow c hc
      omega
    omega

/-- The depth is the height of the value. -/
theorem isHeight_depth : Json.tree.IsHeight Json.depth := by
  intro v d
  have hleaf : ∀ {w : Json}, w.depth = 0 → w.children = [] →
      (w.depth ≤ d ↔ ∀ c ∈ w.children, c.depth < d) := by
    intro w hdepth hchildren
    rw [hdepth, hchildren]
    exact iff_of_true (Nat.zero_le d) fun c hc => absurd hc List.not_mem_nil
  cases v with
  | arr xs =>
    cases xs with
    | nil => exact hleaf rfl rfl
    | cons x xs => exact one_add_deepest_le_iff (depthList_le_iff (x :: xs))
  | obj kvs =>
    cases kvs with
    | nil => exact hleaf rfl rfl
    | cons e kvs => exact one_add_deepest_le_iff (depthMembers_le_iff (e :: kvs))
  | _ => exact hleaf rfl rfl

/-- **Depth, path by path**: at most `d` exactly if every path from the root passes through
at most `d` non-empty dicts or lists. -/
theorem depth_le_iff (v : Json) (d : Nat) :
    v.depth ≤ d ↔
      ∀ p w, Json.tree.at? v p = some w →
        (Json.tree.trail v p).countP Json.isNonEmptyContainer ≤ d := by
  rw [← Json.branches_eq]
  exact isHeight_depth.le_iff v d

/-- Storing a string under a key that is there adds no depth. -/
theorem depth_setStr_le {p : Payload} {k : PyStr} (hk : p.contains k = true) (s : PyStr) :
    (p.setStr k s).toJson.depth ≤ p.toJson.depth := by
  obtain ⟨i, old, hold, hset⟩ := Payload.exists_setStr_eq_replaceAt hk s
  rw [hset]
  exact isHeight_depth.replaceAt_le hold (Nat.zero_le _)

/-! ## Strings -/

theorem hasOverlongElement_iff (maxLength : Nat) (xs : List Json) :
    Json.hasOverlongElement maxLength xs = true ↔ ∃ x ∈ xs, x.hasOverlong maxLength = true := by
  induction xs with
  | nil => simp [Json.hasOverlongElement]
  | cons x xs ih => simp [Json.hasOverlongElement, ih]

theorem hasOverlongMember_iff (maxLength : Nat) (kvs : List (PyStr × Json)) :
    Json.hasOverlongMember maxLength kvs = true ↔
      (∃ k ∈ Dict.keys kvs, maxLength < k.len) ∨
        ∃ x ∈ kvs.map Prod.snd, x.hasOverlong maxLength = true := by
  induction kvs with
  | nil => simp [Json.hasOverlongMember]
  | cons e kvs ih =>
    rcases e with ⟨k, v⟩
    simp only [Json.hasOverlongMember, Bool.or_eq_true, decide_eq_true_eq, ih, Dict.keys_cons,
      List.map_cons, List.exists_mem_cons_iff]
    exact or_or_or_comm

/-- An overlong string is one of the value itself, or one of its children has it. -/
theorem hasOverlong_step (maxLength : Nat) (v : Json) :
    v.hasOverlong maxLength = true ↔
      (∃ s ∈ v.ownStrings, maxLength < s.len) ∨
        ∃ c ∈ Json.tree.children v, c.hasOverlong maxLength = true := by
  cases v with
  | str s => simp [Json.hasOverlong, Json.ownStrings, Json.tree, Json.children]
  | arr xs =>
    simp [Json.hasOverlong, hasOverlongElement_iff, Json.ownStrings, Json.tree, Json.children]
  | obj kvs => exact hasOverlongMember_iff maxLength kvs
  | _ => simp [Json.hasOverlong, Json.ownStrings, Json.tree, Json.children]

/-- **Every string is looked at**: there is an overlong string exactly if some string in the
value, a key or not, is longer than the bound. -/
theorem hasOverlong_iff (maxLength : Nat) (v : Json) :
    v.hasOverlong maxLength = true ↔
      ∃ p w, Json.tree.at? v p = some w ∧ ∃ s ∈ w.ownStrings, maxLength < s.len :=
  Branching.search_iff (hasOverlong_step maxLength) v

/-- A longer bound is exceeded by fewer strings. -/
theorem hasOverlong_anti {maxLength maxLength' : Nat} (hle : maxLength ≤ maxLength') {v : Json}
    (h : v.hasOverlong maxLength = false) : v.hasOverlong maxLength' = false := by
  rw [← Bool.not_eq_true, hasOverlong_iff] at h ⊢
  rintro ⟨p, w, hw, s, hs, hlong⟩
  exact h ⟨p, w, hw, s, hs, Nat.lt_of_le_of_lt hle hlong⟩

/-- Finitely many things that are each within some bound are within a common one. -/
theorem exists_common_bound {α : Type} {P : Nat → α → Prop}
    (hmono : ∀ m m' x, m ≤ m' → P m x → P m' x) {xs : List α}
    (h : ∀ x ∈ xs, ∃ m, P m x) : ∃ m, ∀ x ∈ xs, P m x := by
  induction xs with
  | nil => exact ⟨0, fun _ hx => absurd hx List.not_mem_nil⟩
  | cons x xs ih =>
    rw [List.forall_mem_cons] at h
    obtain ⟨m, hm⟩ := h.1
    obtain ⟨m', hm'⟩ := ih h.2
    refine ⟨max m m', List.forall_mem_cons.mpr ⟨?_, fun y hy => ?_⟩⟩
    · exact hmono _ _ _ (Nat.le_max_left _ _) hm
    · exact hmono _ _ _ (Nat.le_max_right _ _) (hm' y hy)

/-- No value has strings of every length. -/
theorem exists_not_hasOverlong (v : Json) : ∃ maxLength, v.hasOverlong maxLength = false := by
  induction v using Json.tree.wellFounded.induction with
  | _ v ih =>
    have hchildren : ∃ m, ∀ c ∈ Json.tree.children v, c.hasOverlong m = false :=
      exists_common_bound (P := fun m (c : Json) => c.hasOverlong m = false)
        (fun _ _ _ hle h => hasOverlong_anti hle h) ih
    have hown : ∃ m, ∀ s ∈ v.ownStrings, s.len ≤ m :=
      exists_common_bound (P := fun m (s : PyStr) => s.len ≤ m)
        (fun _ _ _ hle h => Nat.le_trans h hle) fun s _ => ⟨s.len, Nat.le_refl _⟩
    obtain ⟨m, hm⟩ := hchildren
    obtain ⟨m', hm'⟩ := hown
    refine ⟨max m m', ?_⟩
    rw [← Bool.not_eq_true, hasOverlong_step]
    rintro (⟨s, hs, hlong⟩ | ⟨c, hc, hlong⟩)
    -- The common bound is exceeded neither by the value's own strings nor in its children.
    · exact absurd (Nat.le_trans (hm' s hs) (Nat.le_max_right m m')) (Nat.not_le_of_lt hlong)
    · rw [hasOverlong_anti (Nat.le_max_left m m') (hm c hc)] at hlong
      cases hlong

/-! ## Exactness -/

/-- The two walkers answer for the value, whatever the bounds, and their answers are right. -/
structure WalkersExact (stack : Stack) (v : Json) : Prop where
  depth : ∃ depth, computePayloadDepth stack v = some depth ∧ ∀ d, depth ≤ d ↔
    ∀ p w, Json.tree.at? v p = some w →
      (Json.tree.trail v p).countP Json.isNonEmptyContainer ≤ d
  strings : ∀ maxLength, ∃ found, payloadHasOverlongString maxLength stack v = some found ∧
    (found = true ↔ ∃ p w, Json.tree.at? v p = some w ∧ ∃ s ∈ w.ownStrings, maxLength < s.len)

/-- **The walkers are exact up to the recursion limit**, and not beyond it. -/
theorem walkersExact_iff (stack : Stack) (v : Json) :
    WalkersExact stack v ↔ v.walkFrames stack.generator ≤ stack.frames := by
  constructor
  · rintro ⟨-, hstrings⟩
    -- Nothing is longer than this bound, so the walker has to see all of the value.
    obtain ⟨maxLength, hshort⟩ := exists_not_hasOverlong v
    obtain ⟨found, hanswer, -⟩ := hstrings maxLength
    obtain ⟨hfound, hwalked⟩ := searched_payloadHasOverlongString v found hanswer
    exact hwalked (hfound.trans hshort)
  · intro hfits
    refine ⟨⟨v.depth, ?_, depth_le_iff v⟩, fun maxLength => ?_⟩
    · have hdepth := Json.depthFrames_le_walkFrames stack.generator v
      exact computePayloadDepth_eq_some_iff.mpr ⟨Nat.le_trans hdepth hfits, rfl⟩
    · exact ⟨v.hasOverlong maxLength, payloadHasOverlongString_of_fits hfits,
        hasOverlong_iff maxLength v⟩

end AuditLog
