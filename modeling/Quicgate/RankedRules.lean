import Mathlib.Data.List.Sort
import Mathlib.Tactic.Basic

/-!
# The most specific rule that applies

Rules with a rank are sorted once, the highest rank first and rules of one rank
in the order they were entered, and the first that applies decides.  `best_eq_some`
says which rule that is without mention of the sort: it applies, no rule entered
before it that applies has its rank, and none at all has a higher one.

`Decides` names that condition.  At most one rule meets it, and it is stable under
leaving rules out and under asking another question, as long as the rule that
decides stays and answers: what the comparison of two hosts and the independence
of the order in `PathRules` need.
-/

namespace Quicgate.RankedRules

universe u

variable {α : Type u} (rank : α → Nat) (applies : α → Bool)

/-- Highest rank first; the sort is stable. -/
def ranked (rules : List α) : List α := rules.insertionSort fun a b => rank b ≤ rank a

/-- The first of the sorted rules that applies. -/
def best (rules : List α) : Option α := (ranked rank rules).find? applies

variable {rank applies}

/-! ### The sorted rules

The sort inserts a rule before those that do not outrank it, which keeps the order of entry
among equals. -/

theorem pairwise_ranked (rules : List α) :
    (ranked rank rules).Pairwise fun a b => rank b ≤ rank a := by
  have htotal : Std.Total fun a b : α => rank b ≤ rank a := ⟨fun a b => Nat.le_total _ _⟩
  have htrans : IsTrans α fun a b => rank b ≤ rank a := ⟨fun _ _ _ hab hbc => hbc.trans hab⟩
  exact List.pairwise_insertionSort _ rules

/-- Into sorted rules, a rule goes before those that do not outrank it. -/
theorem find?_orderedInsert {sorted : List α} (hsorted : sorted.Pairwise fun a b => rank b ≤ rank a)
    (a : α) : (sorted.orderedInsert (fun a b => rank b ≤ rank a) a).find? applies =
      if applies a = true then
        match sorted.find? applies with
        | none => some a
        | some b => if rank b ≤ rank a then some a else some b
      else sorted.find? applies := by
  induction sorted with
  | nil => by_cases ha : applies a = true <;> simp [ha]
  | cons b rest ih =>
      obtain ⟨hhead, hrest⟩ := List.pairwise_cons.mp hsorted
      rw [List.orderedInsert_cons]
      by_cases hle : rank b ≤ rank a
      · rw [if_pos hle]
        by_cases ha : applies a = true
        · rw [if_pos ha, List.find?_cons_of_pos ha]
          cases hfind : (b :: rest).find? applies with
          | none => rfl
          | some c =>
              have hc : rank c ≤ rank b := by
                rcases List.mem_cons.mp (List.mem_of_find?_eq_some hfind) with rfl | hmem
                · exact Nat.le_refl _
                · exact hhead c hmem
              simp [hc.trans hle]
        · rw [if_neg ha, List.find?_cons_of_neg ha]
      · rw [if_neg hle]
        by_cases hb : applies b = true
        · rw [List.find?_cons_of_pos hb, List.find?_cons_of_pos hb]
          simp [hle]
        · rw [List.find?_cons_of_neg hb, List.find?_cons_of_neg hb, ih hrest]

theorem best_nil : best rank applies ([] : List α) = none := rfl

theorem best_cons (a : α) (rules : List α) : best rank applies (a :: rules) =
    if applies a = true then
      match best rank applies rules with
      | none => some a
      | some b => if rank b ≤ rank a then some a else some b
    else best rank applies rules :=
  find?_orderedInsert (pairwise_ranked rules) a

theorem best_eq_none {rules : List α} :
    best rank applies rules = none ↔ ∀ a ∈ rules, applies a = false := by
  unfold best ranked
  rw [List.find?_eq_none]
  simp

/-! ### The rule that decides

`Decides` has no sort in it: it says of a place in the entered rules what makes its rule the
one. -/

structure Decides (rank : α → Nat) (applies : α → Bool) (rules : List α) (a : α) : Prop where
  intro ::
  split : ∃ before after, rules = before ++ a :: after ∧
    (∀ b ∈ before, applies b = true → rank b < rank a) ∧
    (∀ b ∈ after, applies b = true → rank b ≤ rank a)
  applies : applies a = true

theorem Decides.mem {rules : List α} {a : α} (h : Decides rank applies rules a) : a ∈ rules := by
  obtain ⟨before, after, rfl, -, -⟩ := h.split
  simp

theorem Decides.rank_le {rules : List α} {a b : α} (h : Decides rank applies rules a)
    (hb : b ∈ rules) (happlies : applies b = true) : rank b ≤ rank a := by
  obtain ⟨before, after, rfl, hbefore, hafter⟩ := h.split
  rcases List.mem_append.mp hb with hb | hb
  · exact (hbefore b hb happlies).le
  · rcases List.mem_cons.mp hb with rfl | hb
    · exact Nat.le_refl _
    · exact hafter b hb happlies

theorem decides_of_best {rules : List α} {a : α} (h : best rank applies rules = some a) :
    Decides rank applies rules a := by
  induction rules generalizing a with
  | nil => simp [best_nil] at h
  | cons c rest ih =>
      rw [best_cons] at h
      by_cases hc : applies c = true
      · rw [if_pos hc] at h
        cases hbest : best rank applies rest with
        | none =>
            simp only [hbest, Option.some.injEq] at h
            subst h
            refine ⟨⟨[], rest, rfl, by simp, ?_⟩, hc⟩
            intro b hb happlies
            simp [best_eq_none.mp hbest b hb] at happlies
        | some d =>
            have hd := ih hbest
            simp only [hbest] at h
            split_ifs at h with hle
            · obtain rfl : c = a := by simpa using h
              refine ⟨⟨[], rest, rfl, by simp, ?_⟩, hc⟩
              intro b hb happlies
              exact (hd.rank_le hb happlies).trans hle
            · obtain rfl : d = a := by simpa using h
              obtain ⟨before, after, rfl, hbefore, hafter⟩ := hd.split
              refine ⟨⟨c :: before, after, rfl, ?_, hafter⟩, hd.applies⟩
              intro b hb happlies
              rcases List.mem_cons.mp hb with rfl | hb
              · exact Nat.lt_of_not_le hle
              · exact hbefore b hb happlies
      · rw [if_neg hc] at h
        have ha := ih h
        obtain ⟨before, after, rfl, hbefore, hafter⟩ := ha.split
        refine ⟨⟨c :: before, after, rfl, ?_, hafter⟩, ha.applies⟩
        intro b hb happlies
        rcases List.mem_cons.mp hb with rfl | hb
        · exact absurd happlies hc
        · exact hbefore b hb happlies

/-- Two rules that decide stand at the same place. -/
theorem Decides.unique {rules : List α} {a b : α} (ha : Decides rank applies rules a)
    (hb : Decides rank applies rules b) : a = b := by
  have hle := ha.rank_le hb.mem hb.applies
  have hge := hb.rank_le ha.mem ha.applies
  obtain ⟨before, after, rfl, hbefore, -⟩ := ha.split
  obtain ⟨before', after', heq, hbefore', -⟩ := hb.split
  rcases List.append_eq_append_iff.mp heq with ⟨mid, rfl, htail⟩ | ⟨mid, rfl, htail⟩
  · cases mid with
    | nil => exact (List.cons.inj htail).1
    | cons c mid =>
        obtain ⟨rfl, -⟩ := List.cons.inj htail
        have hlt := hbefore' a (by simp) ha.applies
        omega
  · cases mid with
    | nil => exact (List.cons.inj htail).1.symm
    | cons c mid =>
        obtain ⟨rfl, -⟩ := List.cons.inj htail
        have hlt := hbefore b (by simp) hb.applies
        omega

theorem best_eq_some {rules : List α} {a : α} :
    best rank applies rules = some a ↔ Decides rank applies rules a := by
  constructor
  · exact decides_of_best
  · intro ha
    cases hbest : best rank applies rules with
    | none =>
        have hsilent := best_eq_none.mp hbest a ha.mem
        simp [ha.applies] at hsilent
    | some b => rw [ha.unique (decides_of_best hbest)]

/-- Leaving rules out, and asking another question, does not change the decision if
the rule that decides stays and answers, and the others that answer did so
before. -/
theorem Decides.filter {rules : List α} {a : α} (h : Decides rank applies rules a)
    {keep applies' : α → Bool} (hkeep : keep a = true) (hanswers : applies' a = true)
    (hothers : ∀ b ∈ rules, keep b = true → applies' b = true → applies b = true) :
    Decides rank applies' (rules.filter keep) a := by
  obtain ⟨before, after, rfl, hbefore, hafter⟩ := h.split
  refine ⟨⟨before.filter keep, after.filter keep, by simp [hkeep], ?_, ?_⟩, hanswers⟩
  · intro b hb happlies
    obtain ⟨hb, hkept⟩ := List.mem_filter.mp hb
    exact hbefore b hb (hothers b (by simp [hb]) hkept happlies)
  · intro b hb happlies
    obtain ⟨hb, hkept⟩ := List.mem_filter.mp hb
    exact hafter b hb (hothers b (by simp [hb]) hkept happlies)

theorem best_congr {rules : List α} {keep applies' : α → Bool}
    (h : ∀ b ∈ rules, applies b = (keep b && applies' b)) :
    best rank applies rules = best rank applies' (rules.filter keep) := by
  cases hbest : best rank applies rules with
  | none =>
      symm
      rw [best_eq_none] at hbest ⊢
      intro b hb
      obtain ⟨hb, hkept⟩ := List.mem_filter.mp hb
      have hfalse := (h b hb).symm.trans (hbest b hb)
      simpa [hkept] using hfalse
  | some a =>
      symm
      rw [best_eq_some] at hbest ⊢
      have ha : keep a = true ∧ applies' a = true := by
        simpa [hbest.applies] using (h a hbest.mem).symm
      refine hbest.filter ha.1 ha.2 ?_
      intro b hb hkept happlies
      rw [h b hb, hkept, happlies]
      rfl

end Quicgate.RankedRules
