import AuditLog.Core.RateLimit
import AuditLog.Library.Machine
import Mathlib.Logic.Function.Basic

/-!
# The rate limiter under threads

`check` reads the clock before it takes the lock, so a thread may wait for the lock with an
old reading while later readings go first. A state has the limiter, every call that has run
its locked section, the shared clock, and what each thread waits with.
-/

namespace AuditLog

variable {ι κ τ : Type} [DecidableEq ι] [DecidableEq κ] [AddCommGroup τ] [LinearOrder τ]

structure LimiterThreads (ι κ τ : Type) where
  limited : Limited κ τ
  clock : τ
  waiting : ι → Option (κ × τ)

/-- The two halves of `check`. -/
inductive ThreadAction (ι κ τ : Type) where
  | readClock (thread : ι) (key : κ) (now : τ)
  | lockedSection (thread : ι)

/-- The clock never goes back; a thread runs its locked section with the reading it has. -/
def threadStep (a : ThreadAction ι κ τ) (s : LimiterThreads ι κ τ) :
    Option (LimiterThreads ι κ τ) :=
  match a with
  | .readClock thread key now =>
    if s.clock ≤ now ∧ (s.waiting thread).isNone then
      some { s with
        clock := now
        waiting := Function.update s.waiting thread (some (key, now)) }
    else none
  | .lockedSection thread =>
    match s.waiting thread with
    | none => none
    | some (key, now) =>
      some { s with
        limited := checkNext s.limited key now
        waiting := Function.update s.waiting thread none }

/-- A fresh limiter, and no thread in a call. -/
def LimiterThreads.start (maxRequests : Int) (windowSeconds clock : τ) : LimiterThreads ι κ τ where
  limited := ({ maxRequests, windowSeconds }, [])
  clock := clock
  waiting := fun _ => none

/-- The step does not run a locked section whose window reaches back to an accepted time
that another call has dropped from the deque already. -/
def NotOvertaken (s : LimiterThreads ι κ τ) : ThreadAction ι κ τ → Prop
  | .readClock _ _ _ => True
  | .lockedSection thread =>
    ∀ call ∈ s.waiting thread, ∀ u ∈ droppedTimes s.limited call.1,
      ¬(call.2 - s.limited.1.windowSeconds ≤ u ∧ u ≤ call.2 + s.limited.1.windowSeconds)

instance (s : LimiterThreads ι κ τ) (a : ThreadAction ι κ τ) : Decidable (NotOvertaken s a) :=
  match a with
  | .readClock _ _ _ => inferInstanceAs (Decidable True)
  | .lockedSection thread => inferInstanceAs (Decidable (∀ call ∈ s.waiting thread, _))

/-- What an interleaving keeps: the settings, and each deque in step with its history. -/
structure ThreadsOk (maxRequests : Int) (windowSeconds : τ) (s : LimiterThreads ι κ τ) : Prop where
  maxRequests_eq : s.limited.1.maxRequests = maxRequests
  windowSeconds_eq : s.limited.1.windowSeconds = windowSeconds
  tracks : ∀ key, Tracks s.limited key

omit [DecidableEq ι] in
theorem ThreadsOk.start (maxRequests : Int) (windowSeconds clock : τ) :
    ThreadsOk maxRequests windowSeconds (LimiterThreads.start maxRequests windowSeconds clock :
      LimiterThreads ι κ τ) where
  maxRequests_eq := rfl
  windowSeconds_eq := rfl
  tracks key := tracks_checkAll { maxRequests, windowSeconds } [] rfl key

/-- A step reads the clock, or makes one call with the reading that its thread has. -/
theorem threadStep_cases {a : ThreadAction ι κ τ} {s t : LimiterThreads ι κ τ}
    (h : threadStep a s = some t) :
    t.limited = s.limited ∨
      ∃ thread key now, a = .lockedSection thread ∧ s.waiting thread = some (key, now) ∧
        t.limited = checkNext s.limited key now := by
  cases a with
  | readClock thread key now =>
    unfold threadStep at h
    dsimp only at h
    split at h
    · cases h
      exact Or.inl rfl
    · cases h
  | lockedSection thread =>
    unfold threadStep at h
    dsimp only at h
    split at h
    · cases h
    · rename_i key now hwaiting
      cases h
      exact Or.inr ⟨thread, key, now, rfl, hwaiting, rfl⟩

theorem ThreadsOk.step {maxRequests : Int} {windowSeconds : τ} {a : ThreadAction ι κ τ}
    {s t : LimiterThreads ι κ τ} (hok : ThreadsOk maxRequests windowSeconds s)
    (h : threadStep a s = some t) : ThreadsOk maxRequests windowSeconds t := by
  rcases threadStep_cases h with hsame | ⟨thread, key, now, -, -, hnext⟩
  · constructor <;> rw [hsame]
    exacts [hok.maxRequests_eq, hok.windowSeconds_eq, hok.tracks]
  · have hsettings := checkNext_settings s.limited key now
    constructor
    · rw [hnext, hsettings.1]
      exact hok.maxRequests_eq
    · rw [hnext, hsettings.2]
      exact hok.windowSeconds_eq
    · intro k
      rw [hnext]
      exact (hok.tracks k).step key now

variable [IsOrderedAddMonoid τ]

omit [DecidableEq ι] in
/-- A call that no later reading of its key has gone ahead of is not overtaken. -/
theorem notOvertaken_of_latest {maxRequests : Int} {windowSeconds : τ} {s : LimiterThreads ι κ τ}
    (hok : ThreadsOk maxRequests windowSeconds s) {thread : ι}
    (hlatest : ∀ call ∈ s.waiting thread, ∀ c ∈ s.limited.2, c.key = call.1 → c.now ≤ call.2) :
    NotOvertaken s (.lockedSection thread) := by
  rintro call hcall u hu ⟨hle, -⟩
  obtain ⟨c, hc, hkey, hlt⟩ := (hok.tracks call.1).expired u hu
  have hnow := hlatest call hcall c hc hkey
  exact absurd hle (not_le.mpr (hlt.trans_le (sub_le_sub_right hnow _)))

/-- **The limit holds across threads as long as no call is overtaken**: in every interleaving
of any number of threads, no closed window of the limiter's width has more accepted readings
of one key than the limit. -/
theorem threads_within_limit (maxRequests : Int) (windowSeconds clock : τ)
    {s : LimiterThreads ι κ τ}
    (hrun : Machine.Reaches threadStep NotOvertaken
      (LimiterThreads.start maxRequests windowSeconds clock) s) (key : κ) (start : τ) :
    SlidingWindow.count (acceptedTimes s.limited.2 key) start (start + windowSeconds) ≤
      maxRequests.toNat := by
  have hinv : ThreadsOk maxRequests windowSeconds s ∧
      WithinLimit maxRequests windowSeconds s.limited.2 key := by
    apply hrun.invariant
    · exact ⟨ThreadsOk.start maxRequests windowSeconds clock, fun _ => Nat.zero_le _⟩
    · rintro s t a - hnot hstep ⟨hok, hlimit⟩
      refine ⟨hok.step hstep, ?_⟩
      rcases threadStep_cases hstep with hsame | ⟨thread, k, now, rfl, hwaiting, hnext⟩
      · rw [hsame]
        exact hlimit
      · rw [← hok.maxRequests_eq, ← hok.windowSeconds_eq] at hlimit
        rw [hnext, ← hok.maxRequests_eq, ← hok.windowSeconds_eq]
        exact hlimit.step (hok.tracks key) k now (hnot (k, now) hwaiting)
  exact hinv.2 start

/-- Two threads take their locks in the other order than their readings, a third one finds the
limit reached, and a fourth one comes when both have expired. -/
theorem threads_within_limit_swapped :
    ∃ s : LimiterThreads Nat Nat Int,
      Machine.Reaches threadStep NotOvertaken (LimiterThreads.start 2 10 0) s ∧
        s.limited.2.map (fun c => (c.now, c.allowed)) =
          [(7, true), (5, true), (8, false), (20, true)] ∧
        ∀ key start, SlidingWindow.count (acceptedTimes s.limited.2 key) start (start + 10) ≤ 2 := by
  have hrun : ∃ s ∈ Machine.schedule threadStep NotOvertaken
      [.readClock 0 0 5, .readClock 1 0 7, .lockedSection 1, .readClock 2 0 8, .lockedSection 0,
        .lockedSection 2, .readClock 3 0 20, .lockedSection 3]
      (LimiterThreads.start 2 10 0 : LimiterThreads Nat Nat Int),
      s.limited.2.map (fun c => (c.now, c.allowed)) =
        [(7, true), (5, true), (8, false), (20, true)] := by decide +kernel
  obtain ⟨s, hs, hanswers⟩ := hrun
  have hreaches := Machine.reaches_of_schedule hs
  exact ⟨s, hreaches, hanswers, threads_within_limit 2 10 0 hreaches⟩

/-- **A thread overtaken between its clock reading and its lock exceeds the limit**: the call
at 16 drops both accepted times from the deque before the call at 15 counts what is left. -/
theorem threads_exceed_limit :
    ¬∀ (maxRequests : Int) (windowSeconds clock : Int) (s : LimiterThreads Nat Nat Int),
      Machine.Reaches threadStep (fun _ _ => True)
        (LimiterThreads.start maxRequests windowSeconds clock) s →
      ∀ key start, SlidingWindow.count (acceptedTimes s.limited.2 key) start
        (start + windowSeconds) ≤ maxRequests.toNat := by
  intro hclaim
  have hrun : ∃ s ∈ Machine.schedule threadStep (fun _ _ => True)
      [.readClock 0 0 5, .lockedSection 0, .readClock 1 0 5, .lockedSection 1,
        .readClock 2 0 15, .readClock 3 0 16, .lockedSection 3, .lockedSection 2]
      (LimiterThreads.start 2 10 0 : LimiterThreads Nat Nat Int),
      SlidingWindow.count (acceptedTimes s.limited.2 0) 5 15 = 3 := by decide +kernel
  obtain ⟨s, hs, hcount⟩ := hrun
  have hlimit := hclaim 2 10 0 s (Machine.reaches_of_schedule hs) 0 5
  have hbound : SlidingWindow.count (acceptedTimes s.limited.2 0) 5 15 ≤ 2 := hlimit
  omega

end AuditLog
