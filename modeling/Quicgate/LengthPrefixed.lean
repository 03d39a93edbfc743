import Mathlib.Data.List.Basic
import Mathlib.Tactic.Basic

/-!
# Sequences of length-prefixed records

A record is a header of a fixed size, which gives a type and the length of what
follows, and its content.  A sequence of records is read from the front, so the first
record of a type is found by stepping over the ones before it.

`find` is that walk; `Located` says which record it finds and where the record ends.
The end is what counts when a sequence is declared to be shorter than the bytes at
hand: `located_take` says that the shorter sequence has the same first record exactly
if that record ends within it.

The extensions of a ClientHello and the names in one of them are such sequences
(`ServerNames`).
-/

namespace Quicgate.LengthPrefixed

universe u v

variable {α : Type u} {τ : Type v}

structure Format (α : Type u) (τ : Type v) where
  size : Nat
  size_pos : 0 < size
  /-- The type and the length of the content, of `size` items. -/
  decode : List α → τ × Nat

variable [DecidableEq τ] (f : Format α τ) (wanted : τ)

/-- The content of the first record of a type, when the records up to it are complete. -/
def find (p : List α) : Option (List α) :=
  if f.size ≤ p.length then
    let rest := p.drop f.size
    let n := (f.decode (p.take f.size)).2
    if rest.length < n then none
    else if (f.decode (p.take f.size)).1 = wanted then some (rest.take n)
    else find (rest.drop n)
  else none
termination_by p.length
decreasing_by
  have := f.size_pos
  simp only [List.length_drop]
  omega

/-! ### Which record the walk finds

The constructors are those of the walk: the record in front has the type, or it is stepped over. -/

/-- The first record of a type has the content `c` and ends after `stop` items. -/
inductive Located : List α → Nat → List α → Prop
  | here {p n} (hsize : f.size ≤ p.length) (hdecode : f.decode (p.take f.size) = (wanted, n))
      (hlen : n ≤ (p.drop f.size).length) : Located p (f.size + n) ((p.drop f.size).take n)
  | later {p t n stop c} (hsize : f.size ≤ p.length)
      (hdecode : f.decode (p.take f.size) = (t, n)) (hne : t ≠ wanted)
      (hlen : n ≤ (p.drop f.size).length)
      (hrest : Located ((p.drop f.size).drop n) stop c) : Located p (f.size + n + stop) c

variable {f wanted} {p : List α} {k stop : Nat} {c : List α}

omit [DecidableEq τ] in
theorem Located.stop_le (h : Located f wanted p stop c) : stop ≤ p.length := by
  induction h with
  | here hsize hdecode hlen =>
      rw [List.length_drop] at hlen
      omega
  | later hsize hdecode hne hlen hrest ih =>
      simp only [List.length_drop] at hlen ih
      omega

omit [DecidableEq τ] in
/-- A walk finds one record. -/
theorem Located.unique {stop' : Nat} {c' : List α} (h : Located f wanted p stop c)
    (h' : Located f wanted p stop' c') : stop = stop' ∧ c = c' := by
  induction h generalizing stop' c' with
  | here hsize hdecode hlen =>
      cases h' with
      | here hsize' hdecode' hlen' =>
          rw [hdecode] at hdecode'
          obtain ⟨-, rfl⟩ := Prod.mk.inj hdecode'
          exact ⟨rfl, rfl⟩
      | later hsize' hdecode' hne' =>
          rw [hdecode] at hdecode'
          exact absurd (Prod.mk.inj hdecode').1.symm hne'
  | later hsize hdecode hne hlen hrest ih =>
      cases h' with
      | here hsize' hdecode' hlen' =>
          rw [hdecode] at hdecode'
          exact absurd (Prod.mk.inj hdecode').1 hne
      | later hsize' hdecode' hne' hlen' hrest' =>
          rw [hdecode] at hdecode'
          obtain ⟨rfl, rfl⟩ := Prod.mk.inj hdecode'
          obtain ⟨rfl, rfl⟩ := ih hrest'
          exact ⟨rfl, rfl⟩

theorem find_eq_some : find f wanted p = some c ↔ ∃ stop, Located f wanted p stop c := by
  constructor
  · intro h
    induction p using find.induct f wanted with
    | case1 p hsize rest n hshort =>
        rw [find, if_pos hsize] at h
        simp only [rest, n] at hshort
        rw [if_pos hshort] at h
        cases h
    | case2 p hsize rest n hlen hwanted =>
        rw [find, if_pos hsize] at h
        simp only [rest, n] at hlen
        rw [if_neg hlen, if_pos hwanted] at h
        obtain rfl := Option.some.inj h
        exact ⟨_, .here hsize (Prod.ext hwanted rfl) (Nat.le_of_not_lt hlen)⟩
    | case3 p hsize rest n hlen hwanted ih =>
        rw [find, if_pos hsize] at h
        simp only [rest, n] at hlen ih
        rw [if_neg hlen, if_neg hwanted] at h
        obtain ⟨stop, hstop⟩ := ih h
        exact ⟨_, .later hsize rfl hwanted (Nat.le_of_not_lt hlen) hstop⟩
    | case4 p hshort =>
        rw [find, if_neg hshort] at h
        cases h
  · rintro ⟨stop, h⟩
    induction h with
    | here hsize hdecode hlen =>
        rw [find, if_pos hsize]
        simp only [hdecode, if_true]
        rw [if_neg (Nat.not_lt.mpr hlen)]
    | later hsize hdecode hne hlen hrest ih =>
        rw [find, if_pos hsize]
        simp only [hdecode, hne, if_false]
        rw [if_neg (Nat.not_lt.mpr hlen), ih]

omit [DecidableEq τ] in
/-- What comes after the sequence does not change its first record. -/
theorem Located.append (h : Located f wanted p stop c) (q : List α) :
    Located f wanted (p ++ q) stop c := by
  induction h with
  | @here p n hsize hdecode hlen =>
      have hdrop : (p ++ q).drop f.size = p.drop f.size ++ q := List.drop_append_of_le_length hsize
      have htake : (p.drop f.size ++ q).take n = (p.drop f.size).take n :=
        List.take_append_of_le_length hlen
      rw [← htake, ← hdrop]
      refine .here ?_ ?_ ?_
      · rw [List.length_append]
        omega
      · rwa [List.take_append_of_le_length hsize]
      · rw [hdrop, List.length_append]
        omega
  | @later p t n stop c hsize hdecode hne hlen hrest ih =>
      have hdrop : (p ++ q).drop f.size = p.drop f.size ++ q := List.drop_append_of_le_length hsize
      refine .later (t := t) ?_ ?_ hne ?_ ?_
      · rw [List.length_append]
        omega
      · rwa [List.take_append_of_le_length hsize]
      · rw [hdrop, List.length_append]
        omega
      · rwa [hdrop, List.drop_append_of_le_length hlen]

omit [DecidableEq τ] in
/-- What comes after a record does not take part in finding it. -/
theorem Located.take (h : Located f wanted p stop c) (hk : stop ≤ k) :
    Located f wanted (p.take k) stop c := by
  induction h generalizing k with
  | @here p n hsize hdecode hlen =>
      have hcontent : ((p.take k).drop f.size).take n = (p.drop f.size).take n := by
        rw [List.drop_take, List.take_take, Nat.min_eq_left (by omega)]
      rw [← hcontent]
      refine .here ?_ ?_ ?_
      · rw [List.length_take]
        omega
      · rwa [List.take_take, Nat.min_eq_left (by omega)]
      · rw [List.drop_take, List.length_take]
        omega
  | @later p t n stop c hsize hdecode hne hlen hrest ih =>
      have hdrop : ((p.take k).drop f.size).drop n =
          ((p.drop f.size).drop n).take (k - f.size - n) := by
        rw [List.drop_take, List.drop_take]
      refine .later (t := t) ?_ ?_ hne ?_ ?_
      · rw [List.length_take]
        omega
      · rwa [List.take_take, Nat.min_eq_left (by omega)]
      · rw [List.drop_take, List.length_take]
        omega
      · rw [hdrop]
        exact ih (by omega)

omit [DecidableEq τ] in
/-- The first `k` items have the first record of a type that the whole has, when it ends
within them, and no other. -/
theorem located_take :
    Located f wanted (p.take k) stop c ↔ Located f wanted p stop c ∧ stop ≤ k := by
  constructor
  · intro h
    have hstop := h.stop_le
    rw [List.length_take] at hstop
    have happend := h.append (p.drop k)
    rw [List.take_append_drop] at happend
    exact ⟨happend, by omega⟩
  · rintro ⟨h, hk⟩
    exact h.take hk

end Quicgate.LengthPrefixed
