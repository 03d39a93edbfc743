import Mathlib.Data.List.Forall2
import Mathlib.Tactic.Basic

/-!
# Checks that refuse with a text

A check takes a value in and gives back the value to keep, or refuses with the
text of the error.  Checks run one after the other, and the first refusal ends
them.  `bind_eq_ok` and its companions take a passed check apart into the checks
it consists of, and `foldlM_invariant` and `foldEach_invariant` are the rules for loops of
checks.

Validation in `internal/store` corrects the record it checks; here a check hands
the corrected record on.
-/

namespace Quicgate.Checks

universe u v

abbrev Check (α : Type u) := Except String α

variable {α : Type u} {β : Type u}

/-- `if bad { return errors.New(why) }`. -/
def refuseIf (bad : Prop) [Decidable bad] (why : String) : Check Unit :=
  if bad then .error why else .ok ()

/-- The refusal of an inner check, reported with the place it is about. -/
def within (place : String) : Check α → Check α
  | .ok a => .ok a
  | .error why => .error (place ++ why)

def each (f : Nat → α → Check β) : Nat → List α → Check (List β)
  | _, [] => .ok []
  | n, a :: rest => do
      let b ← f n a
      let bs ← each f (n + 1) rest
      return b :: bs

/-- A loop that works on a state, over entries numbered from `n`. -/
def foldEach {σ : Type u} (f : Nat → σ → α → Check σ) : Nat → σ → List α → Check σ
  | _, s, [] => .ok s
  | n, s, a :: rest => do
      let s ← f n s a
      foldEach f (n + 1) s rest

/-- A loop of checks that keeps nothing. -/
def forEach (f : α → Check Unit) : List α → Check Unit
  | [] => .ok ()
  | a :: rest => do
      f a
      forEach f rest

theorem bind_eq_ok {x : Check α} {f : α → Check β} {b : β} :
    (x >>= f) = .ok b ↔ ∃ a, x = .ok a ∧ f a = .ok b := by
  cases x with
  | error why => simp [bind, Except.bind]
  | ok a => simp [bind, Except.bind]

@[simp] theorem pure_eq_ok {a b : α} : (pure a : Check α) = .ok b ↔ a = b := by
  simp [pure, Except.pure]

@[simp] theorem refuseIf_eq_ok {bad : Prop} [Decidable bad] {why : String} {u : Unit} :
    refuseIf bad why = .ok u ↔ ¬ bad := by
  unfold refuseIf
  split <;> simp_all

@[simp] theorem within_eq_ok {place : String} {x : Check α} {a : α} :
    within place x = .ok a ↔ x = .ok a := by
  cases x with
  | error why => simp [within]
  | ok b => simp [within]

/-- A check that was evaluated. -/
theorem exists_ok_of_map {x : Check α} {f : α → β} {b : β} (h : x.toOption.map f = some b) :
    ∃ a, x = .ok a ∧ f a = b := by
  cases x with
  | error why => simp [Except.toOption] at h
  | ok a => exact ⟨a, rfl, by simpa [Except.toOption] using h⟩

/-- What a list of checks keeps came entry by entry from the list. -/
theorem each_eq_ok {f : Nat → α → Check β} {n : Nat} {as : List α} {bs : List β}
    (h : each f n as = .ok bs) : List.Forall₂ (fun a b => ∃ i, f i a = .ok b) as bs := by
  induction as generalizing n bs with
  | nil =>
      simp only [each, Except.ok.injEq] at h
      subst h
      exact .nil
  | cons a rest ih =>
      simp only [each, bind_eq_ok, pure_eq_ok] at h
      obtain ⟨b, hb, bs', hbs, rfl⟩ := h
      exact .cons ⟨n, hb⟩ (ih hbs)

theorem forEach_eq_ok {f : α → Check Unit} {as : List α} {u : Unit} :
    forEach f as = .ok u ↔ ∀ a ∈ as, f a = .ok () := by
  induction as with
  | nil => simp [forEach]
  | cons a rest ih =>
      simp only [forEach, bind_eq_ok, ih, List.forall_mem_cons]
      constructor
      · rintro ⟨_, ha, hrest⟩
        exact ⟨ha, hrest⟩
      · rintro ⟨ha, hrest⟩
        exact ⟨(), ha, hrest⟩

/-- What every turn of a loop keeps, the loop keeps. -/
theorem foldEach_invariant {σ : Type u} {f : Nat → σ → α → Check σ} {P : σ → Prop} {n : Nat}
    {as : List α} {s t : σ} (hstep : ∀ n s a t, a ∈ as → P s → f n s a = .ok t → P t)
    (hs : P s) (h : foldEach f n s as = .ok t) : P t := by
  induction as generalizing n s with
  | nil =>
      simp only [foldEach, Except.ok.injEq] at h
      exact h ▸ hs
  | cons a rest ih =>
      simp only [foldEach, bind_eq_ok] at h
      obtain ⟨s', hfirst, hrest⟩ := h
      have hs' := hstep n s a s' List.mem_cons_self hs hfirst
      exact ih (fun n s b t hb => hstep n s b t (List.mem_cons_of_mem a hb)) hs' hrest

/-- Two sides that are related entry by entry hold the same where the relation
does. -/
theorem exists_of_forall₂_left {R : α → β → Prop} {as : List α} {bs : List β}
    (h : List.Forall₂ R as bs) {a : α} (ha : a ∈ as) : ∃ b ∈ bs, R a b := by
  induction h with
  | nil => simp at ha
  | cons hab _ ih =>
      rcases List.mem_cons.mp ha with rfl | ha
      · exact ⟨_, List.mem_cons_self, hab⟩
      · obtain ⟨b, hb, hab'⟩ := ih ha
        exact ⟨b, List.mem_cons_of_mem _ hb, hab'⟩

theorem exists_of_forall₂_right {R : α → β → Prop} {as : List α} {bs : List β}
    (h : List.Forall₂ R as bs) {b : β} (hb : b ∈ bs) : ∃ a ∈ as, R a b :=
  exists_of_forall₂_left h.flip hb

/-- A loop keeps what each of its turns keeps. -/
theorem foldlM_invariant {σ : Type u} {f : σ → α → Check σ} {P : σ → Prop} {as : List α} {s t : σ}
    (hstep : ∀ s a t, a ∈ as → P s → f s a = .ok t → P t) (hs : P s)
    (h : as.foldlM f s = .ok t) : P t := by
  induction as generalizing s with
  | nil =>
      obtain rfl : s = t := by simpa [pure, Except.pure] using h
      exact hs
  | cons a rest ih =>
      rw [List.foldlM_cons, bind_eq_ok] at h
      obtain ⟨next, hnext, hrest⟩ := h
      exact ih (fun s b t hb => hstep s b t (List.mem_cons_of_mem a hb))
        (hstep s a next List.mem_cons_self hs hnext) hrest

end Quicgate.Checks
