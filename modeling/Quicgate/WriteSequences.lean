import Mathlib.Tactic.Basic

/-!
# Writes without a transaction

Writes that run one after another until one of them fails.  What the earlier ones wrote
stays, so a failure leaves the state unchanged exactly when the writes before it left no
trace.

`attempt` is such a sequence and `Leaves` one of which every write goes through.
`unchanged_iff` is the rule for any relation that says what counts as unchanged;
`first_or_none_iff` is for writes of which each leaves a trace.
-/

namespace Quicgate.WriteSequences

universe u v

variable {σ : Type u} {ε : Type v}

/-- The error of the first write that fails, if one does, and the state that is left. -/
def attempt : σ → List (σ → Except ε σ) → Option ε × σ
  | s, [] => (none, s)
  | s, w :: ws =>
      match w s with
      | .error e => (some e, s)
      | .ok t => attempt t ws

/-- Every write of the sequence goes through. -/
inductive Leaves : σ → List (σ → Except ε σ) → σ → Prop where
  | nil (s : σ) : Leaves s [] s
  | cons {s t r : σ} {w : σ → Except ε σ} {ws : List (σ → Except ε σ)} :
      w s = .ok t → Leaves t ws r → Leaves s (w :: ws) r

variable {s t : σ} {ws : List (σ → Except ε σ)} {e : ε}

theorem attempt_eq_none : attempt s ws = (none, t) ↔ Leaves s ws t := by
  induction ws generalizing s with
  | nil =>
      constructor
      · intro h
        obtain rfl : s = t := congrArg Prod.snd h
        exact .nil s
      · rintro ⟨⟩
        rfl
  | cons w ws ih =>
      rw [attempt]
      constructor
      · intro h
        cases hw : w s with
        | error e => simp [hw] at h
        | ok r =>
            simp only [hw] at h
            exact .cons hw (ih.mp h)
      · intro h
        cases h with
        | cons hw hrest =>
            simp only [hw]
            exact ih.mpr hrest

theorem attempt_eq_some :
    attempt s ws = (some e, t) ↔
      ∃ before w after, ws = before ++ w :: after ∧ Leaves s before t ∧ w t = .error e := by
  induction ws generalizing s with
  | nil => simp [attempt]
  | cons first ws ih =>
      rw [attempt]
      cases hfirst : first s with
      | error why =>
          constructor
          · intro h
            obtain ⟨rfl, rfl⟩ : why = e ∧ s = t := by simpa using h
            exact ⟨[], first, ws, rfl, .nil s, hfirst⟩
          · rintro ⟨before, w, after, heq, hleaves, hw⟩
            cases hleaves with
            | nil =>
                obtain ⟨rfl, -⟩ := List.cons.inj heq
                obtain rfl : why = e := Except.error.inj (hfirst.symm.trans hw)
                rfl
            | cons hok hrest =>
                obtain ⟨rfl, -⟩ := List.cons.inj heq
                rw [hfirst] at hok
                cases hok
      | ok r =>
          simp only
          rw [ih]
          constructor
          · rintro ⟨before, w, after, rfl, hleaves, hw⟩
            exact ⟨first :: before, w, after, rfl, .cons hfirst hleaves, hw⟩
          · rintro ⟨before, w, after, heq, hleaves, hw⟩
            cases hleaves with
            | nil =>
                obtain ⟨rfl, -⟩ := List.cons.inj heq
                rw [hfirst] at hw
                cases hw
            | @cons _ r' _ _ before hok hrest =>
                obtain ⟨rfl, rfl⟩ := List.cons.inj heq
                obtain rfl : r = r' := Except.ok.inj (hfirst.symm.trans hok)
                exact ⟨before, w, after, rfl, hrest, hw⟩

/-- A failure leaves what `Same` compares exactly when no trace is left before one. -/
theorem unchanged_iff (Same : σ → σ → Prop) :
    (∀ e, (attempt s ws).1 = some e → Same s (attempt s ws).2) ↔
      ∀ before w after t e, ws = before ++ w :: after → Leaves s before t → w t = .error e →
        Same s t := by
  constructor
  · intro h before w after t e hws hleaves hw
    have hattempt := attempt_eq_some.mpr ⟨before, w, after, hws, hleaves, hw⟩
    have hsame := h e (by rw [hattempt])
    rwa [hattempt] at hsame
  · intro h e he
    obtain ⟨before, w, after, hws, hleaves, hw⟩ :=
      attempt_eq_some.mp (Prod.ext he rfl : attempt s ws = (some e, (attempt s ws).2))
    exact h before w after _ e hws hleaves hw

/-- Nothing goes before a write that fails exactly when all go through or the first one fails. -/
theorem first_or_none_iff :
    (∀ before w after t e, ws = before ++ w :: after → Leaves s before t → w t = .error e →
      before = []) ↔
      (∃ w rest e, ws = w :: rest ∧ w s = .error e) ∨ ∃ t, Leaves s ws t := by
  constructor
  · intro h
    rcases hattempt : attempt s ws with ⟨_ | e, t⟩
    · exact Or.inr ⟨t, attempt_eq_none.mp hattempt⟩
    · obtain ⟨before, w, after, rfl, hleaves, hw⟩ := attempt_eq_some.mp hattempt
      obtain rfl := h before w after t e rfl hleaves hw
      cases hleaves
      exact Or.inl ⟨w, after, e, rfl, hw⟩
  · rintro (⟨first, rest, e, rfl, hfirst⟩ | ⟨t, hall⟩) before w after t' e' hws hleaves hw
    · cases hleaves with
      | nil => rfl
      | cons hok _ =>
          obtain rfl := (List.cons.inj hws).1
          rw [hfirst] at hok
          cases hok
    · have hnone := attempt_eq_none.mpr hall
      rw [attempt_eq_some.mpr ⟨before, w, after, hws, hleaves, hw⟩] at hnone
      cases hnone

/-- Where every write adds one to a size, the writes can be counted. -/
theorem Leaves.size_eq {size : σ → Nat} (h : Leaves s ws t)
    (hgrows : ∀ w ∈ ws, ∀ a b, w a = .ok b → size b = size a + 1) :
    size t = size s + ws.length := by
  induction h with
  | nil s => rfl
  | @cons s t r w ws hw hrest ih =>
      have hone := hgrows w List.mem_cons_self s t hw
      have hmore := ih fun w' hw' => hgrows w' (List.mem_cons_of_mem w hw')
      rw [hmore, hone, List.length_cons]
      omega

end Quicgate.WriteSequences
