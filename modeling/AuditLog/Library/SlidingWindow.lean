import Mathlib.Order.Lattice
import Mathlib.Data.List.Pairwise

/-!
# Sliding windows over a list of times

The times that fall into a closed window, a bound on every window of one width, and
expiry from the front of a list.
-/

namespace SlidingWindow

variable {τ : Type*} [LinearOrder τ]

/-- How many of the times lie in `[start, stop]`. -/
def count (times : List τ) (start stop : τ) : Nat :=
  times.countP fun u => decide (start ≤ u ∧ u ≤ stop)

/-- Drop times from the front while they are older than the cutoff. -/
def expire (cutoff : τ) (times : List τ) : List τ := times.dropWhile fun u => decide (u < cutoff)

/-- What `expire` drops. -/
def expired (cutoff : τ) (times : List τ) : List τ := times.takeWhile fun u => decide (u < cutoff)

variable {times times' : List τ} {cutoff start stop u : τ}

@[simp] theorem count_nil (start stop : τ) : count ([] : List τ) start stop = 0 := rfl

theorem count_append (times times' : List τ) (start stop : τ) :
    count (times ++ times') start stop = count times start stop + count times' start stop :=
  List.countP_append

theorem count_singleton (u start stop : τ) :
    count [u] start stop = if start ≤ u ∧ u ≤ stop then 1 else 0 := by
  simp [count, List.countP_singleton]

theorem count_eq_zero (h : ∀ u ∈ times, ¬(start ≤ u ∧ u ≤ stop)) : count times start stop = 0 := by
  unfold count
  rw [List.countP_eq_zero]
  intro u hu hin
  exact h u hu (of_decide_eq_true hin)

theorem count_eq_length (h : ∀ u ∈ times, start ≤ u ∧ u ≤ stop) :
    count times start stop = times.length := by
  unfold count
  rw [List.countP_eq_length]
  intro u hu
  exact decide_eq_true (h u hu)

theorem count_le_length (times : List τ) (start stop : τ) : count times start stop ≤ times.length :=
  List.countP_le_length

theorem expired_append_expire (cutoff : τ) (times : List τ) :
    expired cutoff times ++ expire cutoff times = times :=
  List.takeWhile_append_dropWhile

theorem lt_of_mem_expired (h : u ∈ expired cutoff times) : u < cutoff :=
  of_decide_eq_true (List.all_eq_true.mp List.all_takeWhile u h)

theorem expire_sublist (cutoff : τ) (times : List τ) : (expire cutoff times).Sublist times :=
  List.dropWhile_sublist _

/-- In a sorted list nothing older than the cutoff is left behind. -/
theorem le_of_mem_expire (hsorted : times.Pairwise (· ≤ ·)) (h : u ∈ expire cutoff times) :
    cutoff ≤ u := by
  induction times with
  | nil => cases h
  | cons v times ih =>
    rw [List.pairwise_cons] at hsorted
    unfold expire at h
    by_cases hv : v < cutoff
    · rw [List.dropWhile_cons_of_pos (by simpa using hv)] at h
      exact ih hsorted.2 h
    · rw [List.dropWhile_cons_of_neg (by simpa using hv)] at h
      have hcutoff : cutoff ≤ v := not_lt.mp hv
      rcases List.mem_cons.mp h with rfl | hu
      · exact hcutoff
      · exact hcutoff.trans (hsorted.1 u hu)

/-- A window that starts at the cutoff or later does not see what was dropped. -/
theorem count_expire (hstart : cutoff ≤ start) :
    count (expire cutoff times) start stop = count times start stop := by
  have hdropped : count (expired cutoff times) start stop = 0 := by
    apply count_eq_zero
    intro u hu hin
    exact absurd (hstart.trans hin.1) (not_le.mpr (lt_of_mem_expired hu))
  calc count (expire cutoff times) start stop
      = count (expired cutoff times) start stop + count (expire cutoff times) start stop := by
        rw [hdropped, Nat.zero_add]
    _ = count times start stop := by rw [← count_append, expired_append_expire]

end SlidingWindow
