import Mathlib.Algebra.BigOperators.Group.List.Basic
import Mathlib.Tactic.Basic

/-!
# Sums over a window of time

Records with a time and a value, added up over the times of a window.  A record may be
filed under the beginning of its interval: a window that consists of whole intervals
does not tell the difference (`windowSum_floorTo`).

The roll-up of the traffic history files records twice, under five minutes and under
an hour; both times the sum over a window of hours stays what it was.
-/

namespace Quicgate.WindowSums

variable {α β M : Type} [AddCommMonoid M] {time : α → Nat} {value : α → M} {a b : Nat}

def windowSum (time : α → Nat) (value : α → M) (a b : Nat) (xs : List α) : M :=
  ((xs.filter fun x => a ≤ time x ∧ time x < b).map value).sum

@[simp]
theorem windowSum_nil : windowSum time value a b [] = 0 := rfl

theorem windowSum_cons (x : α) (xs : List α) : windowSum time value a b (x :: xs) =
    (if a ≤ time x ∧ time x < b then value x else 0) + windowSum time value a b xs := by
  unfold windowSum
  by_cases hx : a ≤ time x ∧ time x < b
  · simp [hx]
  · simp [hx]

@[simp]
theorem windowSum_singleton (x : α) : windowSum time value a b [x] =
    if a ≤ time x ∧ time x < b then value x else 0 := by
  rw [windowSum_cons, windowSum_nil, add_zero]

@[simp]
theorem windowSum_append (xs ys : List α) : windowSum time value a b (xs ++ ys) =
    windowSum time value a b xs + windowSum time value a b ys := by
  simp [windowSum]

/-- Records are replaced by records of the same time and value. -/
theorem windowSum_map {time' : β → Nat} {value' : β → M} {f : α → β} {xs : List α}
    (htime : ∀ x ∈ xs, time' (f x) = time x) (hvalue : ∀ x ∈ xs, value' (f x) = value x) :
    windowSum time' value' a b (xs.map f) = windowSum time value a b xs := by
  induction xs with
  | nil => rfl
  | cons x xs ih =>
    rw [List.map_cons, windowSum_cons, windowSum_cons, htime x List.mem_cons_self,
      hvalue x List.mem_cons_self,
      ih (fun y hy => htime y (List.mem_cons_of_mem x hy))
        fun y hy => hvalue y (List.mem_cons_of_mem x hy)]

/-- A window that ends behind all records holds those from its beginning on. -/
theorem windowSum_eq_sum {xs : List α} (h : ∀ x ∈ xs, time x < b) :
    windowSum time value 0 b xs = (xs.map value).sum := by
  have hall : ∀ x ∈ xs, decide (0 ≤ time x ∧ time x < b) = true := by
    intro x hx
    simpa using h x hx
  rw [windowSum, List.filter_eq_self.mpr hall]

/-! ### Intervals

`floorTo` is the beginning of the interval that a time lies in, and a border is a time that is its
own beginning. -/

def floorTo (step t : Nat) : Nat := t - t % step

theorem dvd_floorTo (step t : Nat) : step ∣ floorTo step t := Nat.dvd_sub_mod t

theorem floorTo_le (step t : Nat) : floorTo step t ≤ t := Nat.sub_le _ _

/-- A border of an interval is passed by a time and by the beginning of its interval. -/
theorem le_floorTo_iff {step t c : Nat} (hc : step ∣ c) : c ≤ floorTo step t ↔ c ≤ t := by
  constructor
  · intro h
    exact Nat.le_trans h (floorTo_le step t)
  · intro h
    obtain ⟨k, rfl⟩ := hc
    have hfloor : floorTo step t = step * (t / step) := by
      unfold floorTo
      have := Nat.div_add_mod t step
      omega
    rw [hfloor]
    rcases Nat.eq_zero_or_pos step with rfl | hstep
    · simp
    · exact Nat.mul_le_mul_left step ((Nat.le_div_iff_mul_le hstep).mpr (by rwa [Nat.mul_comm]))

/-- A window of whole intervals does not tell a record from one at the beginning of its
interval. -/
theorem windowSum_floorTo {step t : Nat} (ha : step ∣ a) (hb : step ∣ b) {x : α}
    (htime : time x = floorTo step t) :
    windowSum time value a b [x] = if a ≤ t ∧ t < b then value x else 0 := by
  have hmem : (a ≤ time x ∧ time x < b) ↔ (a ≤ t ∧ t < b) := by
    rw [htime, ← Nat.not_le, ← Nat.not_le, le_floorTo_iff ha, le_floorTo_iff hb]
  simp only [windowSum_singleton, hmem]

/-- Times at borders of intervals that increase are an interval apart. -/
theorem length_mul_le {step lo hi : Nat} {ts : List Nat} (hincreasing : ts.Pairwise (· < ·))
    (hborder : ∀ t ∈ ts, step ∣ t) (hlo : ∀ t ∈ ts, lo ≤ t) (hhi : ∀ t ∈ ts, t < hi)
    (hend : step ∣ hi) (hle : lo ≤ hi) : lo + ts.length * step ≤ hi := by
  induction ts generalizing lo with
  | nil => simpa using hle
  | cons t ts ih =>
    have ht := hborder t List.mem_cons_self
    have hnext : ∀ u, step ∣ u → t < u → t + step ≤ u := by
      intro u hu htu
      exact Nat.add_le_of_le_sub' (Nat.le_of_lt htu)
        (Nat.le_of_dvd (Nat.sub_pos_of_lt htu) (Nat.dvd_sub hu ht))
    rw [List.pairwise_cons] at hincreasing
    have hrest := ih hincreasing.2 (fun u hu => hborder u (List.mem_cons_of_mem t hu))
      (fun u hu => hnext u (hborder u (List.mem_cons_of_mem t hu)) (hincreasing.1 u hu))
      (fun u hu => hhi u (List.mem_cons_of_mem t hu)) (hnext hi hend (hhi t List.mem_cons_self))
    have hfirst := hlo t List.mem_cons_self
    rw [List.length_cons, Nat.succ_mul]
    omega

/-- Some border lies behind all times. -/
theorem exists_border {step : Nat} (hstep : 0 < step) (ts : List Nat) :
    ∃ b, step ∣ b ∧ ∀ t ∈ ts, t < b := by
  induction ts with
  | nil => exact ⟨0, Nat.dvd_zero step, nofun⟩
  | cons t ts ih =>
    obtain ⟨b, hb, hlt⟩ := ih
    have ht : t + 1 ≤ step * (t + 1) := Nat.le_mul_of_pos_left _ hstep
    refine ⟨b + step * (t + 1), Nat.dvd_add hb (Nat.dvd_mul_right _ _), ?_⟩
    intro u hu
    rcases List.mem_cons.mp hu with rfl | hu
    · omega
    · have := hlt u hu
      omega

end Quicgate.WindowSums
