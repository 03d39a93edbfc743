import Mathlib.Data.List.Nodup
import Mathlib.Tactic.Basic

/-!
# Lists in the order of last use

The uses of a set of keys are a list, the latest first, and a key is as old as the number
of uses since its last one.  A list of keys is in order of last use if their ages grow
along it.  Moving a key to the front at each use keeps that order, and so does leaving
keys out; the last key of such a list is the least recently used.

`ResponseCache` evicts from the end of its list.
-/

namespace Quicgate.Recency

universe u

variable {κ : Type u} [DecidableEq κ]

/-- The uses since the last use of `k`. -/
def age (uses : List κ) (k : κ) : Nat := uses.idxOf k

/-- The keys were used, and each more recently than those behind it. -/
structure InOrder (uses keys : List κ) : Prop where
  used : ∀ k ∈ keys, k ∈ uses
  ordered : keys.Pairwise fun a b => age uses a < age uses b

variable {uses keys keys' : List κ} {k : κ}

@[simp] theorem age_cons_self : age (k :: uses) k = 0 := List.idxOf_cons_self

theorem age_cons_of_ne {a : κ} (hne : a ≠ k) : age (k :: uses) a = age uses a + 1 :=
  List.idxOf_cons_ne uses hne.symm

theorem InOrder.nil : InOrder uses ([] : List κ) := by
  constructor <;> simp

theorem InOrder.nodup (h : InOrder uses keys) : keys.Nodup := by
  apply h.ordered.imp
  intro a b hlt heq
  rw [heq] at hlt
  exact Nat.lt_irrefl _ hlt

theorem InOrder.sublist (h : InOrder uses keys) (hsub : keys'.Sublist keys) :
    InOrder uses keys' := by
  constructor
  · intro k hk
    exact h.used k (hsub.subset hk)
  · exact h.ordered.sublist hsub

/-- A key that is used goes to the front of those that are not. -/
theorem InOrder.use (h : InOrder uses keys) (hk : k ∉ keys) : InOrder (k :: uses) (k :: keys) := by
  have hne : ∀ a ∈ keys, a ≠ k := fun a ha heq => hk (heq ▸ ha)
  constructor
  · intro a ha
    rcases List.mem_cons.mp ha with rfl | ha
    · exact List.mem_cons_self
    · exact List.mem_cons_of_mem k (h.used a ha)
  · apply List.pairwise_cons.mpr
    constructor
    · intro a ha
      rw [age_cons_self, age_cons_of_ne (hne a ha)]
      exact Nat.succ_pos _
    · apply h.ordered.imp_of_mem
      intro a b ha hb hlt
      rw [age_cons_of_ne (hne a ha), age_cons_of_ne (hne b hb)]
      exact Nat.succ_lt_succ hlt

/-- Every other key of the list was used more recently than the last. -/
theorem InOrder.age_lt_last {front : List κ} (h : InOrder uses (front ++ [k])) {a : κ}
    (ha : a ∈ front) : age uses a < age uses k :=
  (List.pairwise_append.mp h.ordered).2.2 a ha k (List.mem_singleton.mpr rfl)

end Quicgate.Recency
