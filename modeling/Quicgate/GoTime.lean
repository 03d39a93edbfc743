import Mathlib.Algebra.Ring.Int.Defs
import Mathlib.Algebra.Ring.Nat
import Mathlib.Data.List.Basic
import Mathlib.Order.Lattice
import Mathlib.Tactic.Basic

/-!
# Durations and trails of times

`time.Duration` is a 64-bit number of nanoseconds, and multiplying one wraps.  A trail is a
list of times in order, and a window keeps the times of a trail after its cutoff.

`seconds_of_lt` says up to where a number of seconds is carried, and `seconds_lt` that what comes
of any other is still a number of 64 bits.  The lifetimes of `CacheControl` and the bans of
`BanManager` rest on the two.
-/

namespace Quicgate.GoTime

/-- `time.Duration(n) * time.Second`, in nanoseconds of 64 bits. -/
def seconds (n : Int) : Int := (n * 1000000000).bmod (2 ^ 64)

theorem seconds_of_lt {n : Nat} (h : n * 1000000000 < 2 ^ 63) : seconds n = n * 1000000000 := by
  unfold seconds
  apply Int.bmod_eq_of_le_mul_two <;> omega

/-- However many seconds, the result is one of 64 bits. -/
theorem seconds_lt (n : Int) : seconds n < 2 ^ 63 := by
  have hlt := Int.bmod_lt (x := n * 1000000000) (m := 2 ^ 64) (by decide)
  exact hlt

/-! ### Windows over a trail

A trail may be pruned early and in any number of rounds, as long as the cutoffs only grow. -/

variable {τ : Type} [LinearOrder τ]

/-- The times after the cutoff. -/
def keep (cutoff : τ) (trail : List τ) : List τ := trail.filter (cutoff < ·)

@[simp] theorem keep_nil (cutoff : τ) : keep cutoff [] = [] := rfl

theorem mem_keep {cutoff t : τ} {trail : List τ} :
    t ∈ keep cutoff trail ↔ t ∈ trail ∧ cutoff < t := by
  simp [keep]

theorem keep_append (cutoff : τ) (trail later : List τ) :
    keep cutoff (trail ++ later) = keep cutoff trail ++ keep cutoff later := List.filter_append ..

/-- Pruning with an earlier cutoff first makes no difference. -/
theorem keep_keep {c c' : τ} (h : c' ≤ c) (trail : List τ) :
    keep c (keep c' trail) = keep c trail := by
  rw [keep, keep, List.filter_filter, keep]
  apply List.filter_congr
  intro t _
  have himp : c < t → c' < t := fun hlt => lt_of_le_of_lt h hlt
  by_cases hlt : c < t
  · simp [hlt, himp hlt]
  · simp [hlt]

/-- Nothing is kept of a trail whose last time is not after the cutoff. -/
theorem keep_eq_nil {cutoff last : τ} {trail : List τ} (hsorted : trail.Pairwise (· ≤ ·))
    (hlast : trail.getLast? = some last) (h : last ≤ cutoff) : keep cutoff trail = [] := by
  obtain ⟨front, rfl⟩ := List.getLast?_eq_some_iff.mp hlast
  have hfront := (List.pairwise_append.mp hsorted).2.2
  apply List.filter_eq_nil_iff.mpr
  intro t ht
  have hle : t ≤ last := by
    rcases List.mem_append.mp ht with hin | hin
    · exact hfront t hin last List.mem_cons_self
    · exact le_of_eq (List.mem_singleton.mp hin)
  simpa using le_trans hle h

/-- A time that is not before any other comes last. -/
theorem pairwise_concat {t : τ} {trail : List τ} (hsorted : trail.Pairwise (· ≤ ·))
    (h : ∀ u ∈ trail, u ≤ t) : (trail ++ [t]).Pairwise (· ≤ ·) := by
  apply List.pairwise_append.mpr
  refine ⟨hsorted, List.pairwise_singleton _ t, ?_⟩
  intro u hu v hv
  obtain rfl := List.mem_singleton.mp hv
  exact h u hu

theorem pairwise_keep {cutoff : τ} {trail : List τ} (h : trail.Pairwise (· ≤ ·)) :
    (keep cutoff trail).Pairwise (· ≤ ·) := h.filter _

end Quicgate.GoTime
