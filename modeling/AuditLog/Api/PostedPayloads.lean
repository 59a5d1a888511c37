import AuditLog.Api.TenantIsolation
import AuditLog.Concurrency.StoredPayloads

/-!
# Posted payloads

What `POST /audit/events` stores has passed the payload limits, and the walkers that check
them are exact where they answer; so the limits hold at every position of every payload that
was stored, and go on holding while fields of it are redacted. They answer up to the recursion
limit of the interpreter (`payload_walkers_exact_iff`): a payload of a kilobyte is enough to
go past it, and gets neither stored nor refused for its depth (`deep_payload_raises`).
-/

namespace AuditLog

variable {sha256 : Bytes → PyStr} {settings : Settings}

/-- Every event was committed with the payload of a validated body. -/
theorem validated_of_reaches {ok : World settings → Action settings → Prop} {w : World settings}
    (h : Machine.Reaches (step sha256) ok (.init .empty) w) :
    ∀ a ∈ w.log, ∃ body : AuditEventCreate settings, a.event.payload = body.payload := by
  refine h.invariant (P := fun w => ∀ a ∈ w.log, ∃ body : AuditEventCreate settings,
    a.event.payload = body.payload) (fun a ha => by cases ha) ?_
  intro t u action run _ hstep ht a ha
  rcases (step_cases hstep).mem_log (disciplined_of_reaches run) ha with
    ha | ⟨call, req, record, -, -, hstaged⟩
  · exact ht a ha
  · exact ⟨req.eventIn, hstaged.payload⟩

/-- The walkers answer for a value that has come in the place of one no deeper. -/
theorem computePayloadDepth_replaceAt {stack : Stack} {v old new : Json} {p : List Nat}
    {depth oldDepth newDepth : Nat} (hold : Json.tree.at? v p = some old)
    (hdepth : computePayloadDepth stack v = some depth)
    (holdDepth : computePayloadDepth stack old = some oldDepth)
    (hnewDepth : computePayloadDepth stack new = some newDepth) (hle : newDepth ≤ oldDepth) :
    ∃ depth', computePayloadDepth stack (Json.tree.replaceAt v p new) = some depth' ∧
      depth' ≤ depth := by
  obtain ⟨hfits, rfl⟩ := computePayloadDepth_eq_some_iff.mp hdepth
  obtain ⟨-, rfl⟩ := computePayloadDepth_eq_some_iff.mp holdDepth
  obtain ⟨-, rfl⟩ := computePayloadDepth_eq_some_iff.mp hnewDepth
  have hlower : (Json.tree.replaceAt v p new).depth ≤ v.depth := isHeight_depth.replaceAt_le hold hle
  refine ⟨_, computePayloadDepth_eq_some_iff.mpr ⟨Nat.le_trans ?_ hfits, rfl⟩, hlower⟩
  exact Json.depthFrames_mono _ hlower

/-- **The payload walkers are exact up to the recursion limit.** They answer for a value, and say
how deep it is path by path and whether there is an overlong string in it, exactly if the stack
takes the walk over all of it. Every event, as it was committed, is within both limits at
every position, and stays there but for the markers of redacted fields; and a value replaced by
one of no greater depth leaves the whole no deeper. -/
theorem payload_walkers_exact_iff (sha256 : Bytes → PyStr) (settings : Settings)
    (retentionWindowDays : Int) (stack : Stack) :
    (∀ v : Json, WalkersExact stack v ↔ v.walkFrames stack.generator ≤ stack.frames) ∧
    (∀ state : ApiState settings,
      Machine.Reaches (apiStep sha256 retentionWindowDays) (fun _ _ => True) .init state →
        (∀ a ∈ state.world.log, WithinPayloadLimits settings a.event.payload.toJson) ∧
        ∀ e ∈ state.world.db.auditEvents, ∀ p w, Json.tree.at? e.payload.toJson p = some w →
          (Json.tree.trail e.payload.toJson p).countP Json.isNonEmptyContainer ≤
            settings.maxPayloadDepth ∧
          ∀ s ∈ w.ownStrings, s.len ≤ settings.maxPayloadStringLength ∨
            alreadyRedacted e ≠ [] ∧ s = REDACTED_MARKER) ∧
    ∀ (v : Json) (p : List Nat) (old new : Json) (depth oldDepth newDepth : Nat),
      Json.tree.at? v p = some old → computePayloadDepth stack v = some depth →
      computePayloadDepth stack old = some oldDepth →
      computePayloadDepth stack new = some newDepth → newDepth ≤ oldDepth →
        Json.tree.at? (Json.tree.replaceAt v p new) p = some new ∧
          ∃ depth', computePayloadDepth stack (Json.tree.replaceAt v p new) = some depth' ∧
            depth' ≤ depth := by
  refine ⟨walkersExact_iff stack, ?_, ?_⟩
  · intro state hstate
    have hworld := reaches_world hstate
    constructor
    · intro a ha
      obtain ⟨body, hpayload⟩ := validated_of_reaches hworld a ha
      rw [hpayload]
      exact body.withinPayloadLimits
    · intro e he p w hw
      have hkeeps := (keepsLimits_rule sha256 settings).rows hworld e he
      exact ⟨(depth_le_iff _ _).mp hkeeps.depth p w hw, fun s hs => hkeeps.strings hw hs⟩
  · intro v p old new depth oldDepth newDepth hold hdepth holdDepth hnewDepth hle
    exact ⟨Branching.at?_replaceAt hold,
      computePayloadDepth_replaceAt hold hdepth holdDepth hnewDepth hle⟩

/-- An admin posts the sample event, and the session runs to its end. -/
def posted : List (ApiAction {}) :=
  .createAuditEvent ⟨"a", .admin, some "t"⟩ .sample none :: List.replicate 7 (.advance 0 .sample)

/-- `[1, [2, [3]]]`. -/
def nestedList : Json := .arr [.int 1, .arr [.int 2, .arr [.int 3]]]

/-- The posted payload is within the limits, the walkers are exact about `[1, [2, [3]]]`, and
`[1, {}]` is no deeper. -/
theorem payload_walkers_exact_iff_posted :
    ∃ state : ApiState {}, Machine.schedule (apiStep Sha256.hexdigest 30) (fun _ _ => True)
        posted .init = some state ∧ state.world.log.length = 1 ∧
      (∀ a ∈ state.world.log, WithinPayloadLimits {} a.event.payload.toJson) ∧
      WalkersExact { frames := 7 } nestedList ∧
      Json.tree.replaceAt nestedList [1] (.obj []) = .arr [.int 1, .obj []] ∧
      ∃ depth', computePayloadDepth { frames := 7 } (Json.tree.replaceAt nestedList [1] (.obj [])) =
        some depth' ∧ depth' ≤ 3 := by
  have hrun : ∃ state ∈ Machine.schedule (apiStep Sha256.hexdigest 30) (fun _ _ => True)
      posted .init, state.world.log.length = 1 := by
    decide +kernel
  obtain ⟨state, hstate, hlength⟩ := hrun
  obtain ⟨hexact, hstored, hreplaced⟩ :=
    payload_walkers_exact_iff Sha256.hexdigest {} 30 { frames := 7 }
  refine ⟨state, hstate, hlength, (hstored state (Machine.reaches_of_schedule hstate)).1,
    (hexact nestedList).mpr (by decide), rfl, ?_⟩
  exact (hreplaced nestedList [1] (.arr [.int 2, .arr [.int 3]]) (.obj []) 3 2 0 rfl (by decide)
    (by decide) (by decide) (by decide)).2

/-! ## A payload that is too deep -/

/-- A number in that many lists. -/
def nestedLists : Nat → Json
  | 0 => .int 0
  | n + 1 => .arr [nestedLists n]

theorem depth_nestedLists (n : Nat) : (nestedLists n).depth = n := by
  induction n with
  | zero => rfl
  | succ n ih => simp only [nestedLists, Json.depth, Json.depthList, ih, Nat.max_zero, Nat.add_comm]

theorem uniqueKeys_nestedLists (n : Nat) : (nestedLists n).uniqueKeys = true := by
  induction n with
  | zero => rfl
  | succ n ih => simp [nestedLists, Json.uniqueKeys, Json.uniqueKeysList, ih]

theorem length_utf8_append (s t : List Char) :
    (utf8 (s ++ t)).length = (utf8 s).length + (utf8 t).length := by
  rw [utf8, List.flatMap_append, List.length_append]
  rfl

theorem length_utf8_nestedLists (n : Nat) : (utf8 (nestedLists n).dumps).length = 2 * n + 1 := by
  induction n with
  | zero => decide
  | succ n ih =>
    have hopen : (utf8 ['[']).length = 1 := by decide
    have hclose : (utf8 [']']).length = 1 := by decide
    have htext : (nestedLists (n + 1)).dumps = ['['] ++ ((nestedLists n).dumps ++ [']']) := rfl
    rw [htext, length_utf8_append, length_utf8_append, hopen, ih, hclose]
    omega

/-- `{"k": [[...[0]...]]}` with 500 lists. -/
def deepPayload : Payload where
  fields := [("k", nestedLists 500)]
  unique := by
    simp [Json.uniqueKeys, Json.uniqueKeysMembers, uniqueKeys_nestedLists]

theorem depth_deepPayload : deepPayload.toJson.depth = 501 := by
  simp only [deepPayload, Payload.toJson, Json.depth, Json.depthMembers, depth_nestedLists]
  rfl

theorem computePayloadByteSize_deepPayload : computePayloadByteSize deepPayload = 1007 := by
  have hopen : (utf8 ('\x7b' :: strText "k" ++ [':'])).length = 5 := by decide
  have hclose : (utf8 ['\x7d']).length = 1 := by decide
  have htext : deepPayload.toJson.dumps =
      ('\x7b' :: strText "k" ++ [':']) ++ ((nestedLists 500).dumps ++ ['\x7d']) := by
    simp [deepPayload, Payload.toJson, Json.dumps, Json.dumpsMembers, Decoding.separated,
      Decoding.separatedTail]
  rw [computePayloadByteSize, htext, length_utf8_append ('\x7b' :: strText "k" ++ [':']),
    length_utf8_append (nestedLists 500).dumps, hopen, length_utf8_nestedLists, hclose]

/-- **A kilobyte is enough.** With all of the 1000 frames that the interpreter grants by default,
a payload of 500 lists gets no answer of the walkers, and its body is neither accepted nor
refused. -/
theorem deep_payload_raises :
    (¬∀ v : Json, WalkersExact {} v) ∧ computePayloadByteSize deepPayload = 1007 ∧
      AuditEventCreate.validate {} {} "A" "b" "c" "d" deepPayload = none := by
  have hdeep : (1000 : Nat) < Json.depthFrames 1 deepPayload.toJson.depth := by
    rw [depth_deepPayload]
    decide
  refine ⟨fun hexact => ?_, computePayloadByteSize_deepPayload, ?_⟩
  · obtain ⟨depth, hdepth, -⟩ := (hexact deepPayload.toJson).depth
    exact absurd (computePayloadDepth_eq_some_iff.mp hdepth).1 (Nat.not_le_of_lt hdeep)
  · rw [AuditEventCreate.validate_eq_none_iff, enforcePayloadLimits_eq_none_iff]
    exact ⟨by rw [computePayloadByteSize_deepPayload]; decide, Or.inl hdeep⟩

end AuditLog
