import Mathlib.Tactic.Basic
import Mathlib.Data.Nat.ModEq

/-!
# A counter that wraps, reduced to a shorter cycle

A round robin over `n` places often draws its turns from one counter of a machine word: the
counter goes round modulo `M`, the place is its value modulo `n`.  When `n` does not divide
`M`, the places do not follow each other at the wrap, and a window of `n` turns across it may
leave one out.  A window of `2 * n - 1` turns leaves none out, wherever it starts
(`exists_place`).  `Balancer` draws from such a counter.
-/

namespace Quicgate.Rotation

variable {M n r c : Nat}

/-- The place of the turn that `c` stands for. -/
def place (M n c : Nat) : Nat := c % M % n

/-- A whole cycle of turns has every place. -/
theorem exists_shift (hr : r < n) (c : Nat) : ∃ k < n, (c + k) % n = r := by
  have hlt : c % n < n := Nat.mod_lt _ (Nat.zero_lt_of_lt hr)
  refine ⟨(r + n - c % n) % n, Nat.mod_lt _ (Nat.zero_lt_of_lt hr), ?_⟩
  calc (c + (r + n - c % n) % n) % n = (c % n + (r + n - c % n)) % n := by simp [Nat.add_mod]
    _ = (r + n) % n := by
      congr 1
      omega
    _ = r := by
      rw [Nat.add_mod_right]
      exact Nat.mod_eq_of_lt hr

/-- As long as the counter does not wrap, every window of `n` turns has every place. -/
theorem exists_place_of_no_wrap (hr : r < n) (hroom : c % M + n ≤ M) :
    ∃ k < n, place M n (c + k) = r := by
  obtain ⟨k, hk, hshift⟩ := exists_shift hr (c % M)
  have hstay : (c + k) % M = c % M + k := by
    rw [Nat.add_mod, Nat.mod_eq_of_lt (show k < M by omega)]
    exact Nat.mod_eq_of_lt (by omega)
  exact ⟨k, hk, by rw [place, hstay, hshift]⟩

/-- Wherever it starts, a window of `2 * n - 1` turns has every place. -/
theorem exists_place (hr : r < n) (hM : n ≤ M) (c : Nat) :
    ∃ k < 2 * n - 1, place M n (c + k) = r := by
  by_cases hroom : c % M + n ≤ M
  · obtain ⟨k, hk, hplace⟩ := exists_place_of_no_wrap hr hroom
    exact ⟨k, by omega, hplace⟩
  · -- the wrap comes after fewer than `n` turns, and the counter starts again from 0
    have hc : c % M < M := Nat.mod_lt _ (by omega)
    let turns := M - c % M
    have hwrap : (c + turns) % M = 0 := by
      have : c % M + turns = M := by omega
      rw [← Nat.mod_add_mod, this, Nat.mod_self]
    have hplace : place M n (c + (turns + r)) = r := by
      rw [place, ← Nat.add_assoc, Nat.add_mod, hwrap, Nat.zero_add, Nat.mod_mod,
        Nat.mod_eq_of_lt (show r < M by omega), Nat.mod_eq_of_lt hr]
    exact ⟨turns + r, by omega, hplace⟩

end Quicgate.Rotation
