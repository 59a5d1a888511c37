import AuditLog.Api.Routes
import AuditLog.Library.History
import AuditLog.Library.SlidingWindow
import Mathlib.Algebra.Order.Group.Defs
import Mathlib.Algebra.Order.Group.Int

/-!
# The rate limiter

`InMemoryRateLimiter` keeps, for each key, a deque of the times it accepted and drops
old ones lazily from its head. The specification looks at every call ever made. Both
give the same answers to calls that run one at a time under a clock that never goes back.
-/

namespace AuditLog

variable {κ τ : Type} [DecidableEq κ] [AddCommGroup τ] [LinearOrder τ]

/-- `InMemoryRateLimiter`: its two settings, and the deque of every key seen so far. -/
structure InMemoryRateLimiter (κ τ : Type) where
  maxRequests : Int
  windowSeconds : τ
  hits : List (κ × List τ) := []

namespace InMemoryRateLimiter

/-- `self._hits.setdefault(key, deque())`. -/
def hitsOf (limiter : InMemoryRateLimiter κ τ) (key : κ) : List τ :=
  (Dict.get limiter.hits key).getD []

/-- `check` with the clock reading `now`: the answer, and the limiter afterwards. -/
def check (limiter : InMemoryRateLimiter κ τ) (key : κ) (now : τ) :
    Bool × InMemoryRateLimiter κ τ :=
  let cutoff := now - limiter.windowSeconds
  let hits := SlidingWindow.expire cutoff (limiter.hitsOf key)
  if limiter.maxRequests ≤ hits.length then
    (false, { limiter with hits := Dict.set limiter.hits key hits })
  else (true, { limiter with hits := Dict.set limiter.hits key (hits ++ [now]) })

end InMemoryRateLimiter

def RATE_LIMIT_ERROR_DETAIL : String :=
  "Too many requests. Please wait before trying again."

/-- What the two dependencies do with the answer of `check`. -/
def enforceLimit (limiter : InMemoryRateLimiter κ τ) (key : κ) (now : τ) :
    Except HttpError Unit × InMemoryRateLimiter κ τ :=
  match limiter.check key now with
  | (true, limiter) => (.ok (), limiter)
  | (false, limiter) => (.error (.httpException 429 [.text RATE_LIMIT_ERROR_DETAIL]), limiter)

/-- `enforce_login_rate_limit`, for a request from the client host, when it is known. -/
def enforceLoginRateLimit (limiter : InMemoryRateLimiter PyStr τ) (clientHost : Option PyStr)
    (now : τ) : Except HttpError Unit × InMemoryRateLimiter PyStr τ :=
  enforceLimit limiter (clientHost.getD "unknown") now

/-- `enforce_sensitive_endpoint_rate_limit`. -/
def enforceSensitiveEndpointRateLimit (limiter : InMemoryRateLimiter PyStr τ)
    (currentUser : CurrentUser) (now : τ) : Except HttpError Unit × InMemoryRateLimiter PyStr τ :=
  enforceLimit limiter currentUser.username now

/-! ## Calls in sequence -/

/-- A call of `check` and its answer. -/
structure Checked (κ τ : Type) where
  key : κ
  now : τ
  allowed : Bool
deriving DecidableEq

/-- The times at which calls for the key were accepted, in the order of the calls. -/
def acceptedTimes (log : List (Checked κ τ)) (key : κ) : List τ :=
  (log.filter fun c => decide (c.key = key) && c.allowed).map Checked.now

/-- The limiter, and every call it has answered. -/
abbrev Limited (κ τ : Type) := InMemoryRateLimiter κ τ × List (Checked κ τ)

/-- One more call. -/
def checkNext (s : Limited κ τ) (key : κ) (now : τ) : Limited κ τ :=
  ((s.1.check key now).2, s.2 ++ [⟨key, now, (s.1.check key now).1⟩])

/-- The calls, one at a time. -/
def checkAll (limiter : InMemoryRateLimiter κ τ) (calls : List (κ × τ)) : Limited κ τ :=
  calls.foldl (fun s call => checkNext s call.1 call.2) (limiter, [])

/-- What the limiter is for: an answer that looks at every call ever made. -/
def allows (maxRequests : Int) (windowSeconds : τ) (log : List (Checked κ τ)) (key : κ) (now : τ) :
    Prop :=
  (SlidingWindow.count (acceptedTimes log key) (now - windowSeconds) now : Int) < maxRequests

/-! ## One call -/

namespace InMemoryRateLimiter

variable (limiter : InMemoryRateLimiter κ τ) (key : κ) (now : τ)

/-- What is left of the key's deque once a call at `now` has dropped what is out of the window. -/
def recent : List τ := SlidingWindow.expire (now - limiter.windowSeconds) (limiter.hitsOf key)

/-- A call is refused when the window is full and recorded when it is not. -/
theorem check_cases :
    (limiter.maxRequests ≤ (limiter.recent key now).length ∧ limiter.check key now =
        (false, { limiter with hits := Dict.set limiter.hits key (limiter.recent key now) })) ∨
      (((limiter.recent key now).length : Int) < limiter.maxRequests ∧ limiter.check key now =
        (true, { limiter with
          hits := Dict.set limiter.hits key (limiter.recent key now ++ [now]) })) := by
  by_cases hfull : limiter.maxRequests ≤ (limiter.recent key now).length
  · exact Or.inl ⟨hfull, if_pos hfull⟩
  · exact Or.inr ⟨not_le.mp hfull, if_neg hfull⟩

theorem check_allowed_iff :
    (limiter.check key now).1 = true ↔
      ((limiter.recent key now).length : Int) < limiter.maxRequests := by
  rcases limiter.check_cases key now with ⟨hfull, hcheck⟩ | ⟨hroom, hcheck⟩
  · rw [hcheck]
    exact iff_of_false Bool.false_ne_true (not_lt.mpr hfull)
  · rw [hcheck]
    exact iff_of_true rfl hroom

@[simp] theorem check_maxRequests : (limiter.check key now).2.maxRequests = limiter.maxRequests := by
  rcases limiter.check_cases key now with ⟨-, hcheck⟩ | ⟨-, hcheck⟩ <;> rw [hcheck]

@[simp] theorem check_windowSeconds :
    (limiter.check key now).2.windowSeconds = limiter.windowSeconds := by
  rcases limiter.check_cases key now with ⟨-, hcheck⟩ | ⟨-, hcheck⟩ <;> rw [hcheck]

/-- The deque of the key loses what is out of the window and gains an accepted call. -/
theorem check_hitsOf_self :
    (limiter.check key now).2.hitsOf key =
      limiter.recent key now ++ if (limiter.check key now).1 then [now] else [] := by
  rcases limiter.check_cases key now with ⟨-, hcheck⟩ | ⟨-, hcheck⟩ <;> rw [hcheck] <;>
    simp [hitsOf, Dict.get_set]

theorem check_hitsOf_of_ne {key' : κ} (hne : key ≠ key') :
    (limiter.check key now).2.hitsOf key' = limiter.hitsOf key' := by
  rcases limiter.check_cases key now with ⟨-, hcheck⟩ | ⟨-, hcheck⟩ <;> rw [hcheck] <;>
    simp [hitsOf, Dict.get_set, hne]

/-- The answer is read off the settings and the key's own deque. -/
theorem check_allowed_congr {limiter' : InMemoryRateLimiter κ τ}
    (hmax : limiter.maxRequests = limiter'.maxRequests)
    (hwindow : limiter.windowSeconds = limiter'.windowSeconds)
    (hhits : limiter.hitsOf key = limiter'.hitsOf key) :
    (limiter.check key now).1 = (limiter'.check key now).1 := by
  rw [Bool.eq_iff_iff, check_allowed_iff, check_allowed_iff]
  unfold recent
  rw [hmax, hwindow, hhits]

end InMemoryRateLimiter

/-! ## What was accepted -/

section Accepted

variable (log : List (Checked κ τ)) (key : κ)

omit [AddCommGroup τ] [LinearOrder τ] in
theorem acceptedTimes_append (log' : List (Checked κ τ)) :
    acceptedTimes (log ++ log') key = acceptedTimes log key ++ acceptedTimes log' key := by
  simp [acceptedTimes]

omit [AddCommGroup τ] [LinearOrder τ] in
theorem acceptedTimes_snoc_self (now : τ) (allowed : Bool) :
    acceptedTimes (log ++ [⟨key, now, allowed⟩]) key =
      acceptedTimes log key ++ if allowed then [now] else [] := by
  rw [acceptedTimes_append]
  cases allowed <;> simp [acceptedTimes]

omit [AddCommGroup τ] [LinearOrder τ] in
theorem acceptedTimes_snoc_of_ne {key' : κ} (hne : key' ≠ key) (now : τ) (allowed : Bool) :
    acceptedTimes (log ++ [⟨key', now, allowed⟩]) key = acceptedTimes log key := by
  rw [acceptedTimes_append]
  simp [acceptedTimes, hne]

end Accepted

/-! ## The deque and the history -/

theorem checkNext_settings (s : Limited κ τ) (key : κ) (now : τ) :
    (checkNext s key now).1.maxRequests = s.1.maxRequests ∧
      (checkNext s key now).1.windowSeconds = s.1.windowSeconds :=
  ⟨s.1.check_maxRequests key now, s.1.check_windowSeconds key now⟩

/-- The accepted times that the key's deque no longer holds. -/
def droppedTimes (s : Limited κ τ) (key : κ) : List τ :=
  (acceptedTimes s.2 key).take ((acceptedTimes s.2 key).length - (s.1.hitsOf key).length)

/-- The deque is the end of the list of accepted times; what is missing from it was out
of the window of some call for the key. -/
structure Tracks (s : Limited κ τ) (key : κ) : Prop where
  split : acceptedTimes s.2 key = droppedTimes s key ++ s.1.hitsOf key
  expired : ∀ u ∈ droppedTimes s key, ∃ c ∈ s.2, c.key = key ∧ u < c.now - s.1.windowSeconds

theorem Tracks.of_append {s : Limited κ τ} {key : κ} (dropped : List τ)
    (hsplit : acceptedTimes s.2 key = dropped ++ s.1.hitsOf key)
    (hexpired : ∀ u ∈ dropped, ∃ c ∈ s.2, c.key = key ∧ u < c.now - s.1.windowSeconds) :
    Tracks s key := by
  have hdropped : droppedTimes s key = dropped := by
    unfold droppedTimes
    rw [hsplit, List.length_append, Nat.add_sub_cancel, List.take_left']
    rfl
  constructor
  · rw [hdropped]
    exact hsplit
  · rw [hdropped]
    exact hexpired

/-- Whatever the order of the clock readings, one more call keeps the two in step. -/
theorem Tracks.step {s : Limited κ τ} {k : κ} (h : Tracks s k) (key : κ) (now : τ) :
    Tracks (checkNext s key now) k := by
  have hwindow := (checkNext_settings s key now).2
  have hold : ∀ u ∈ droppedTimes s k, ∃ c ∈ (checkNext s key now).2,
      c.key = k ∧ u < c.now - (checkNext s key now).1.windowSeconds := by
    intro u hu
    obtain ⟨c, hc, hkey, hlt⟩ := h.expired u hu
    rw [hwindow]
    exact ⟨c, List.mem_append_left _ hc, hkey, hlt⟩
  by_cases hkey : key = k
  · subst hkey
    -- What this call drops comes after everything dropped before.
    let expired := SlidingWindow.expired (now - s.1.windowSeconds) (s.1.hitsOf key)
    have hhits : s.1.hitsOf key = expired ++ s.1.recent key now :=
      (SlidingWindow.expired_append_expire _ _).symm
    apply Tracks.of_append (droppedTimes s key ++ expired)
    · calc acceptedTimes (checkNext s key now).2 key
          = acceptedTimes s.2 key ++ (if (s.1.check key now).1 then [now] else []) :=
            acceptedTimes_snoc_self s.2 key now _
        _ = droppedTimes s key ++ (expired ++ s.1.recent key now) ++
              (if (s.1.check key now).1 then [now] else []) := by rw [h.split, ← hhits]
        _ = droppedTimes s key ++ expired ++
              (s.1.recent key now ++ if (s.1.check key now).1 then [now] else []) := by
            simp only [List.append_assoc]
        _ = droppedTimes s key ++ expired ++ (checkNext s key now).1.hitsOf key := by
            rw [← s.1.check_hitsOf_self key now]
            rfl
    · intro u hu
      rcases List.mem_append.mp hu with hu | hu
      · exact hold u hu
      · rw [hwindow]
        exact ⟨_, List.mem_append_right _ (List.mem_singleton_self _), rfl,
          SlidingWindow.lt_of_mem_expired hu⟩
  · apply Tracks.of_append (droppedTimes s k)
    · calc acceptedTimes (checkNext s key now).2 k
          = acceptedTimes s.2 k := acceptedTimes_snoc_of_ne s.2 k hkey now _
        _ = droppedTimes s k ++ s.1.hitsOf k := h.split
        _ = droppedTimes s k ++ (checkNext s key now).1.hitsOf k := by
            rw [← s.1.check_hitsOf_of_ne key now hkey]
            rfl
    · exact hold

/-! ## The limit over every window -/

/-- No closed window of the limiter's width holds more accepted calls for the key than
the limit. -/
def WithinLimit (maxRequests : Int) (windowSeconds : τ) (log : List (Checked κ τ)) (key : κ) : Prop :=
  ∀ start, SlidingWindow.count (acceptedTimes log key) start (start + windowSeconds) ≤
    maxRequests.toNat

variable [IsOrderedAddMonoid τ]

/-- **One call keeps the limit** when no accepted time within a window's width of its clock
reading has been dropped before. -/
theorem WithinLimit.step {s : Limited κ τ} {k : κ}
    (h : WithinLimit s.1.maxRequests s.1.windowSeconds s.2 k) (htracks : Tracks s k)
    (key : κ) (now : τ)
    (hkept : ∀ u ∈ droppedTimes s key,
      ¬(now - s.1.windowSeconds ≤ u ∧ u ≤ now + s.1.windowSeconds)) :
    WithinLimit s.1.maxRequests s.1.windowSeconds (checkNext s key now).2 k := by
  intro start
  by_cases hkey : key = k
  · subst hkey
    have haccepted : acceptedTimes (checkNext s key now).2 key =
        acceptedTimes s.2 key ++ if (s.1.check key now).1 then [now] else [] :=
      acceptedTimes_snoc_self s.2 key now _
    rw [haccepted, SlidingWindow.count_append]
    by_cases hnew : (s.1.check key now).1 = true ∧ start ≤ now ∧ now ≤ start + s.1.windowSeconds
    · obtain ⟨hallowed, hstart, hstop⟩ := hnew
      have hcutoff : now - s.1.windowSeconds ≤ start := sub_le_iff_le_add.mpr hstop
      -- The window that holds the new time sees the deque only.
      have hdropped : SlidingWindow.count (droppedTimes s key) start (start + s.1.windowSeconds) = 0 := by
        apply SlidingWindow.count_eq_zero
        rintro u hu ⟨hle, hge⟩
        exact hkept u hu ⟨hcutoff.trans hle, hge.trans (add_le_add_left hstart _)⟩
      have hrecent : SlidingWindow.count (s.1.hitsOf key) start (start + s.1.windowSeconds) ≤
          (s.1.recent key now).length := by
        rw [← SlidingWindow.count_expire hcutoff]
        exact SlidingWindow.count_le_length _ _ _
      have hroom := (s.1.check_allowed_iff key now).mp hallowed
      rw [if_pos hallowed, htracks.split, SlidingWindow.count_append, hdropped,
        SlidingWindow.count_singleton, if_pos ⟨hstart, hstop⟩]
      omega
    · have hnone : SlidingWindow.count (if (s.1.check key now).1 then [now] else []) start
          (start + s.1.windowSeconds) = 0 := by
        apply SlidingWindow.count_eq_zero
        intro u hu hin
        split at hu
        · rename_i hallowed
          rw [List.mem_singleton.mp hu] at hin
          exact hnew ⟨hallowed, hin⟩
        · cases hu
      rw [hnone]
      exact h start
  · have haccepted : acceptedTimes (checkNext s key now).2 k = acceptedTimes s.2 k :=
      acceptedTimes_snoc_of_ne s.2 k hkey now _
    rw [haccepted]
    exact h start

/-! ## Runs -/

section Runs

variable (limiter : InMemoryRateLimiter κ τ) (calls : List (κ × τ))

omit [IsOrderedAddMonoid τ] in
theorem checkAll_snoc (call : κ × τ) :
    checkAll limiter (calls ++ [call]) = checkNext (checkAll limiter calls) call.1 call.2 := by
  simp [checkAll, List.foldl_append]

omit [IsOrderedAddMonoid τ] in
theorem checkAll_settings : (checkAll limiter calls).1.maxRequests = limiter.maxRequests ∧
    (checkAll limiter calls).1.windowSeconds = limiter.windowSeconds := by
  induction calls using List.reverseRecOn with
  | nil => exact ⟨rfl, rfl⟩
  | append_singleton calls call ih =>
    have hnext := checkNext_settings (checkAll limiter calls) call.1 call.2
    rw [checkAll_snoc]
    exact ⟨hnext.1.trans ih.1, hnext.2.trans ih.2⟩

omit [IsOrderedAddMonoid τ] in
/-- The log has the calls in their order. -/
theorem checkAll_log :
    (checkAll limiter calls).2.map (fun c => (c.key, c.now)) = calls := by
  induction calls using List.reverseRecOn with
  | nil => rfl
  | append_singleton calls call ih =>
    rw [checkAll_snoc]
    unfold checkNext
    rw [List.map_append, ih]
    rfl

omit [IsOrderedAddMonoid τ] in
theorem tracks_checkAll (hempty : limiter.hits = []) (key : κ) :
    Tracks (checkAll limiter calls) key := by
  induction calls using List.reverseRecOn with
  | nil =>
    apply Tracks.of_append []
    · simp [checkAll, acceptedTimes, InMemoryRateLimiter.hitsOf, hempty]
    · intro u hu
      cases hu
  | append_singleton calls call ih =>
    rw [checkAll_snoc]
    exact ih.step call.1 call.2

variable {limiter calls}

omit [IsOrderedAddMonoid τ] in
/-- Accepted times are clock readings. -/
theorem acceptedTimes_checkAll_sublist (key : κ) :
    (acceptedTimes (checkAll limiter calls).2 key).Sublist (calls.map Prod.snd) := by
  have hnow : (checkAll limiter calls).2.map Checked.now = calls.map Prod.snd := by
    conv_rhs => rw [← checkAll_log limiter calls]
    simp
  rw [← hnow]
  exact List.filter_sublist.map _

/-- Under a clock that never goes back what the deque has lost stays out of every later window. -/
theorem lt_of_mem_droppedTimes {key : κ} {now u : τ} (htracks : Tracks (checkAll limiter calls) key)
    (hnow : ∀ call ∈ calls, call.2 ≤ now)
    (hu : u ∈ droppedTimes (checkAll limiter calls) key) : u < now - limiter.windowSeconds := by
  obtain ⟨c, hc, -, hlt⟩ := htracks.expired u hu
  have hcall : (c.key, c.now) ∈ calls := by
    rw [← checkAll_log limiter calls]
    exact List.mem_map.mpr ⟨c, hc, rfl⟩
  rw [(checkAll_settings limiter calls).2] at hlt
  exact hlt.trans_le (sub_le_sub_right (hnow _ hcall) _)

omit [DecidableEq κ] [AddCommGroup τ] [IsOrderedAddMonoid τ] in
theorem clock_of_snoc {call : κ × τ}
    (hclock : ((calls ++ [call]).map Prod.snd).Pairwise (· ≤ ·)) :
    (calls.map Prod.snd).Pairwise (· ≤ ·) ∧ ∀ earlier ∈ calls, earlier.2 ≤ call.2 := by
  rw [List.map_append, List.pairwise_append] at hclock
  obtain ⟨hcalls, -, hlast⟩ := hclock
  refine ⟨hcalls, fun earlier hearlier => ?_⟩
  exact hlast _ (List.mem_map_of_mem hearlier) _ (List.mem_singleton_self _)

omit [IsOrderedAddMonoid τ] in
/-- The deque is sorted, and holds clock readings. -/
theorem hitsOf_checkAll (hempty : limiter.hits = [])
    (hclock : (calls.map Prod.snd).Pairwise (· ≤ ·)) (key : κ) :
    ((checkAll limiter calls).1.hitsOf key).Pairwise (· ≤ ·) ∧
      ∀ u ∈ (checkAll limiter calls).1.hitsOf key, u ∈ calls.map Prod.snd := by
  have hsuffix : ((checkAll limiter calls).1.hitsOf key).Sublist (calls.map Prod.snd) := by
    have haccepted : (acceptedTimes (checkAll limiter calls).2 key).Sublist (calls.map Prod.snd) :=
      acceptedTimes_checkAll_sublist key
    rw [(tracks_checkAll limiter calls hempty key).split] at haccepted
    exact (List.sublist_append_right _ _).trans haccepted
  exact ⟨hclock.sublist hsuffix, fun u hu => hsuffix.subset hu⟩

/-- **One call, against the whole history**: under a clock that never goes back, pruning the
deque lazily from its head answers as counting over every call ever made does. -/
theorem check_allowed_iff_allows (hempty : limiter.hits = []) {key : κ} {now : τ}
    (hclock : ((calls ++ [(key, now)]).map Prod.snd).Pairwise (· ≤ ·)) :
    ((checkAll limiter calls).1.check key now).1 = true ↔
      allows limiter.maxRequests limiter.windowSeconds (checkAll limiter calls).2 key now := by
  obtain ⟨hcalls, hnow⟩ := clock_of_snoc hclock
  have htracks := tracks_checkAll limiter calls hempty key
  have hhits := hitsOf_checkAll hempty hcalls key
  have hdropped : SlidingWindow.count (droppedTimes (checkAll limiter calls) key)
      (now - limiter.windowSeconds) now = 0 := by
    apply SlidingWindow.count_eq_zero
    rintro u hu ⟨hle, -⟩
    exact absurd hle (not_le.mpr (lt_of_mem_droppedTimes htracks hnow hu))
  have hrecent : SlidingWindow.count ((checkAll limiter calls).1.hitsOf key)
      (now - limiter.windowSeconds) now = ((checkAll limiter calls).1.recent key now).length := by
    unfold InMemoryRateLimiter.recent
    rw [(checkAll_settings limiter calls).2, ← SlidingWindow.count_expire le_rfl]
    apply SlidingWindow.count_eq_length
    intro u hu
    have hmem := hhits.2 u ((SlidingWindow.expire_sublist _ _).subset hu)
    obtain ⟨call, hcall, rfl⟩ := List.mem_map.mp hmem
    exact ⟨SlidingWindow.le_of_mem_expire hhits.1 hu, hnow call hcall⟩
  unfold allows
  rw [InMemoryRateLimiter.check_allowed_iff, (checkAll_settings limiter calls).1, htracks.split,
    SlidingWindow.count_append, hdropped, hrecent, Nat.zero_add]

omit [IsOrderedAddMonoid τ] in
/-- No deque outgrows the limit. -/
theorem length_hitsOf_checkAll (hempty : limiter.hits = []) (key : κ) :
    ((checkAll limiter calls).1.hitsOf key).length ≤ limiter.maxRequests.toNat := by
  induction calls using List.reverseRecOn with
  | nil => simp [checkAll, InMemoryRateLimiter.hitsOf, hempty]
  | append_singleton calls call ih =>
    rw [checkAll_snoc]
    by_cases hkey : call.1 = key
    · subst hkey
      show (((checkAll limiter calls).1.check call.1 call.2).2.hitsOf call.1).length ≤ _
      have hrecent : ((checkAll limiter calls).1.recent call.1 call.2).length ≤
          ((checkAll limiter calls).1.hitsOf call.1).length :=
        (SlidingWindow.expire_sublist _ _).length_le
      rw [InMemoryRateLimiter.check_hitsOf_self, List.length_append]
      split
      · rename_i hallowed
        rw [InMemoryRateLimiter.check_allowed_iff, (checkAll_settings limiter calls).1] at hallowed
        rw [List.length_singleton]
        omega
      · rw [List.length_nil]
        omega
    · have hsame := (checkAll limiter calls).1.check_hitsOf_of_ne call.1 call.2 hkey
      show (((checkAll limiter calls).1.check call.1 call.2).2.hitsOf key).length ≤ _
      rw [hsame]
      exact ih

theorem withinLimit_checkAll (hempty : limiter.hits = [])
    (hclock : (calls.map Prod.snd).Pairwise (· ≤ ·)) (key : κ) :
    WithinLimit limiter.maxRequests limiter.windowSeconds (checkAll limiter calls).2 key := by
  induction calls using List.reverseRecOn with
  | nil =>
    intro start
    exact Nat.zero_le _
  | append_singleton calls call ih =>
    obtain ⟨hcalls, hnow⟩ := clock_of_snoc hclock
    obtain ⟨hmax, hwindow⟩ := checkAll_settings limiter calls
    have hstep := WithinLimit.step (s := checkAll limiter calls) (k := key)
    rw [hmax, hwindow] at hstep
    rw [checkAll_snoc]
    apply hstep (ih hcalls) (tracks_checkAll limiter calls hempty key)
    rintro u hu ⟨hle, -⟩
    have htracks := tracks_checkAll limiter calls hempty call.1
    exact absurd hle (not_le.mpr (lt_of_mem_droppedTimes htracks hnow hu))

omit [IsOrderedAddMonoid τ] in
/-- Every logged call was answered by the limiter that the calls before it had left. -/
theorem checkAll_split {earlier later : List (Checked κ τ)} {c : Checked κ τ}
    (h : (checkAll limiter calls).2 = earlier ++ c :: later) :
    ∃ before after, calls = before ++ (c.key, c.now) :: after ∧
      (checkAll limiter before).2 = earlier ∧
      ((checkAll limiter before).1.check c.key c.now).1 = c.allowed := by
  induction calls using List.reverseRecOn generalizing later with
  | nil => simp [checkAll] at h
  | append_singleton calls call ih =>
    rw [checkAll_snoc] at h
    change _ ++ [_] = _ at h
    rcases History.eq_split_concat_iff.mp h with ⟨rfl, hlog, rfl⟩ | ⟨later, rfl, hlog⟩
    · exact ⟨calls, [], rfl, hlog, rfl⟩
    · obtain ⟨before, after, rfl, hrest⟩ := ih hlog
      exact ⟨before, after ++ [call], by rw [List.append_assoc, List.cons_append], hrest⟩

omit [IsOrderedAddMonoid τ] in
/-- Calls for other keys leave the key's deque and its answers as they are. -/
theorem checkAll_filter (key : κ) :
    (checkAll limiter (calls.filter fun call => call.1 = key)).1.hitsOf key =
        (checkAll limiter calls).1.hitsOf key ∧
      (checkAll limiter (calls.filter fun call => call.1 = key)).2 =
        (checkAll limiter calls).2.filter fun c => c.key = key := by
  induction calls using List.reverseRecOn with
  | nil => exact ⟨rfl, rfl⟩
  | append_singleton calls call ih =>
    rw [List.filter_append, checkAll_snoc]
    by_cases hkey : call.1 = key
    · subst hkey
      have hcall : [call].filter (fun c => decide (c.1 = call.1)) = [call] := by simp
      have hsettings := checkAll_settings limiter calls
      have hsettings' := checkAll_settings limiter (calls.filter fun c => c.1 = call.1)
      have hanswer := InMemoryRateLimiter.check_allowed_congr
        (checkAll limiter (calls.filter fun c => c.1 = call.1)).1 call.1 call.2
        (hsettings'.1.trans hsettings.1.symm) (hsettings'.2.trans hsettings.2.symm) ih.1
      rw [hcall, checkAll_snoc]
      constructor
      · show InMemoryRateLimiter.hitsOf (InMemoryRateLimiter.check _ _ _).2 _ =
          InMemoryRateLimiter.hitsOf (InMemoryRateLimiter.check _ _ _).2 _
        rw [InMemoryRateLimiter.check_hitsOf_self, InMemoryRateLimiter.check_hitsOf_self, hanswer]
        unfold InMemoryRateLimiter.recent
        rw [ih.1, hsettings.2, hsettings'.2]
      · unfold checkNext
        rw [hanswer, ih.2, List.filter_append]
        simp
    · have hcall : [call].filter (fun c => decide (c.1 = key)) = [] := by simp [hkey]
      rw [hcall, List.append_nil]
      constructor
      · rw [ih.1]
        exact ((checkAll limiter calls).1.check_hitsOf_of_ne call.1 call.2 hkey).symm
      · unfold checkNext
        rw [ih.2, List.filter_append]
        simp [hkey]

end Runs

/-- **The rate limiter equals its unbounded-history specification**: a call is accepted
exactly if fewer than `maxRequests` earlier calls for its key were accepted in the closed
window that ends with it. So no window holds more, the deques are sorted and no longer than
the limit, and the answers to one key's calls are those of a limiter that sees no others. -/
theorem check_refines_history {maxRequests : Int} (hmax : 0 < maxRequests) (windowSeconds : τ)
    (calls : List (κ × τ)) (hclock : (calls.map Prod.snd).Pairwise (· ≤ ·)) :
    (checkAll { maxRequests, windowSeconds } calls).2.map (fun c => (c.key, c.now)) = calls ∧
      (∀ earlier c later,
        (checkAll { maxRequests, windowSeconds } calls).2 = earlier ++ c :: later →
          (c.allowed = true ↔ allows maxRequests windowSeconds earlier c.key c.now)) ∧
      (∀ key start,
        (SlidingWindow.count (acceptedTimes (checkAll { maxRequests, windowSeconds } calls).2 key)
          start (start + windowSeconds) : Int) ≤ maxRequests) ∧
      (∀ key hits,
        Dict.get (checkAll { maxRequests, windowSeconds } calls).1.hits key = some hits →
          hits.Pairwise (· ≤ ·) ∧ (hits.length : Int) ≤ maxRequests) ∧
      ∀ key, (checkAll { maxRequests, windowSeconds } (calls.filter fun call => call.1 = key)).2 =
        (checkAll { maxRequests, windowSeconds } calls).2.filter fun c => c.key = key := by
  have hempty : ({ maxRequests, windowSeconds } : InMemoryRateLimiter κ τ).hits = [] := rfl
  refine ⟨checkAll_log _ calls, ?_, ?_, ?_, fun key => (checkAll_filter key).2⟩
  · intro earlier c later hlog
    obtain ⟨before, after, rfl, rfl, hanswer⟩ := checkAll_split hlog
    have hprefix : ((before ++ [(c.key, c.now)]).map Prod.snd).Pairwise (· ≤ ·) := by
      rw [← List.singleton_append, ← List.append_assoc, List.map_append] at hclock
      exact (List.pairwise_append.mp hclock).1
    rw [← hanswer]
    exact check_allowed_iff_allows hempty hprefix
  · intro key start
    have hlimit := withinLimit_checkAll hempty hclock key start
    dsimp only at hlimit
    omega
  · intro key hits hget
    have hhits : (checkAll { maxRequests, windowSeconds } calls).1.hitsOf key = hits := by
      unfold InMemoryRateLimiter.hitsOf
      rw [hget, Option.getD_some]
    have hlength : ((checkAll { maxRequests, windowSeconds } calls).1.hitsOf key).length ≤
        maxRequests.toNat := length_hitsOf_checkAll hempty key
    rw [← hhits]
    exact ⟨(hitsOf_checkAll hempty hclock key).1, by omega⟩

/-- Six calls on two keys, against a limit of two in ten. -/
theorem check_refines_history_interleaved :
    let s := checkAll ({ maxRequests := 2, windowSeconds := 10 } : InMemoryRateLimiter Nat Int)
      [(1, 0), (2, 3), (1, 5), (1, 9), (1, 10), (1, 11)]
    (s.2.map Checked.allowed = [true, true, true, false, false, true]) ∧
      ∀ key start, (SlidingWindow.count (acceptedTimes s.2 key) start (start + 10) : Int) ≤ 2 :=
  ⟨by decide, (check_refines_history (by decide) 10 _ (by decide)).2.2.1⟩

end AuditLog
