import Mathlib.Data.List.Basic
import Mathlib.Tactic.Basic

/-!
# Runs of a partial step function

A component with interleaved parties is a state and a partial step function.
The label of a step names the party that moves and carries every answer of the
environment, so a run is a list of labels and the step function stays
computable.  A label whose guard does not hold has no successor.

The module packages the inductions that the safety results of this
development use:

* `Reachable.invariant`: an invariant of every step holds in every reachable
  state, and `RunMeets.invariant`: an invariant of the steps that meet a side
  condition holds along every run that meets it throughout;
* `RunMeets.iff_of_step` and `RunMeets.iff_throughout`: a side condition that is
  exact for one step is exact for a whole run;
* `run_history`, `run_along` and `run_trace`: the same for what is known of a
  state together with the labels, the states or the steps that led to it;
* `exists_step_of_lost`: a property that is lost somewhere along a run is lost
  at one particular step of it.

Nothing here names the gateway.  A component's module instantiates `step` and
proves one step lemma; the rule used by name then gives the statement about runs.
-/

namespace Quicgate.TransitionSystem

universe u v

variable {State : Type u} {Label : Type v}

/-- The state a run of `labels` ends in, when every step of it is enabled. -/
def run (step : State → Label → Option State) : State → List Label → Option State
  | s, [] => some s
  | s, label :: labels => (step s label).bind fun next => run step next labels

/-- `s` is the end of some run that starts in `init`. -/
def Reachable (step : State → Label → Option State) (init s : State) : Prop :=
  ∃ labels, run step init labels = some s

/-- Every step of the run meets `allowed` in the state it is taken in. -/
def RunMeets (step : State → Label → Option State) (allowed : State → Label → Prop) :
    State → List Label → Prop
  | _, [] => True
  | s, label :: labels =>
      allowed s label ∧ ∀ next, step s label = some next →
        RunMeets step allowed next labels

variable {step : State → Label → Option State} {s t : State}

/-! ### Runs, label by label

A run takes one label after the other, so it comes apart at any place. -/

@[simp] theorem run_nil : run step s [] = some s := rfl

theorem run_cons_eq_some {label : Label} {labels : List Label} :
    run step s (label :: labels) = some t ↔
      ∃ next, step s label = some next ∧ run step next labels = some t := by
  simp [run, Option.bind_eq_some_iff]

theorem run_append_eq_some {first second : List Label} :
    run step s (first ++ second) = some t ↔
      ∃ middle, run step s first = some middle ∧ run step middle second = some t := by
  induction first generalizing s with
  | nil => simp
  | cons label labels ih =>
      simp only [List.cons_append, run_cons_eq_some]
      constructor
      · rintro ⟨next, hstep, hrest⟩
        obtain ⟨middle, hfirst, hsecond⟩ := ih.mp hrest
        exact ⟨middle, ⟨next, hstep, hfirst⟩, hsecond⟩
      · rintro ⟨middle, ⟨next, hstep, hfirst⟩, hsecond⟩
        exact ⟨next, hstep, ih.mpr ⟨middle, hfirst, hsecond⟩⟩

/-- What every step preserves, every run preserves. -/
theorem run_preserves {P : State → Prop}
    (hstep : ∀ s label next, P s → step s label = some next → P next)
    {labels : List Label} (hs : P s) (hrun : run step s labels = some t) : P t := by
  induction labels generalizing s with
  | nil =>
      obtain rfl : s = t := by simpa using hrun
      exact hs
  | cons label labels ih =>
      obtain ⟨next, hnext, hrest⟩ := run_cons_eq_some.mp hrun
      exact ih (hstep s label next hs hnext) hrest

/-- The invariant rule: a property of the initial state that every step
preserves holds in every reachable state. -/
theorem Reachable.invariant {P : State → Prop} {init : State}
    (hreach : Reachable step init s) (hinit : P init)
    (hstep : ∀ s label next, P s → step s label = some next → P next) : P s := by
  obtain ⟨labels, hrun⟩ := hreach
  exact run_preserves hstep hinit hrun

theorem Reachable.trans {init : State} {labels : List Label}
    (hreach : Reachable step init s) (hrun : run step s labels = some t) :
    Reachable step init t := by
  obtain ⟨before, hbefore⟩ := hreach
  exact ⟨before ++ labels, run_append_eq_some.mpr ⟨s, hbefore, hrun⟩⟩

theorem RunMeets.of_forall {allowed : State → Label → Prop} {labels : List Label}
    (h : ∀ label ∈ labels, ∀ s, allowed s label) : RunMeets step allowed s labels := by
  induction labels generalizing s with
  | nil => trivial
  | cons label labels ih =>
      exact ⟨h label List.mem_cons_self s,
        fun _ _ => ih fun label' hlabel' => h label' (List.mem_cons_of_mem _ hlabel')⟩

/-- The steps that come after a first part of the run. -/
theorem RunMeets.of_append {allowed : State → Label → Prop} {first second : List Label}
    (hmeets : RunMeets step allowed s (first ++ second)) (hrun : run step s first = some t) :
    RunMeets step allowed t second := by
  induction first generalizing s with
  | nil =>
      obtain rfl : s = t := by simpa using hrun
      exact hmeets
  | cons label labels ih =>
      obtain ⟨next, hnext, hrest⟩ := run_cons_eq_some.mp hrun
      exact ih (hmeets.2 next hnext) hrest

theorem RunMeets.append {allowed : State → Label → Prop} {first second : List Label}
    (hmeets : RunMeets step allowed s first) (hrun : run step s first = some t)
    (hsecond : RunMeets step allowed t second) : RunMeets step allowed s (first ++ second) := by
  induction first generalizing s with
  | nil =>
      obtain rfl : s = t := by simpa using hrun
      exact hsecond
  | cons label labels ih =>
      obtain ⟨next, hnext, hrest⟩ := run_cons_eq_some.mp hrun
      refine ⟨hmeets.1, ?_⟩
      intro next' hnext'
      obtain rfl : next = next' := Option.some.inj (hnext.symm.trans hnext')
      exact ih (hmeets.2 next hnext) hrest

/-- A run with one more step. -/
theorem RunMeets.concat {allowed : State → Label → Prop} {labels : List Label} {label : Label}
    (hmeets : RunMeets step allowed s labels) (hrun : run step s labels = some t)
    (hlabel : allowed t label) : RunMeets step allowed s (labels ++ [label]) :=
  hmeets.append hrun ⟨hlabel, fun _ _ => trivial⟩

theorem RunMeets.left {allowed : State → Label → Prop} {first second : List Label}
    (hmeets : RunMeets step allowed s (first ++ second)) : RunMeets step allowed s first := by
  induction first generalizing s with
  | nil => trivial
  | cons label labels ih => exact ⟨hmeets.1, fun next hnext => ih (hmeets.2 next hnext)⟩

instance decidableRunMeets {allowed : State → Label → Prop}
    [∀ s label, Decidable (allowed s label)] :
    ∀ (s : State) (labels : List Label), Decidable (RunMeets step allowed s labels)
  | _, [] => isTrue trivial
  | s, label :: labels =>
      have : Decidable (∀ next, step s label = some next → RunMeets step allowed next labels) :=
        match step s label with
        | none => isTrue fun _ hnext => nomatch hnext
        | some next =>
            have : Decidable (RunMeets step allowed next labels) := decidableRunMeets next labels
            decidable_of_iff (RunMeets step allowed next labels)
              ⟨fun hmeets _ hnext => Option.some.inj hnext ▸ hmeets, fun hall => hall next rfl⟩
      inferInstanceAs (Decidable (_ ∧ _))

/-- The invariant rule for runs whose steps all meet a side condition. -/
theorem RunMeets.invariant {P : State → Prop} {allowed : State → Label → Prop}
    (hstep : ∀ s label next, P s → allowed s label → step s label = some next → P next)
    {labels : List Label} (hmeets : RunMeets step allowed s labels) (hs : P s)
    (hrun : run step s labels = some t) : P t := by
  induction labels generalizing s with
  | nil =>
      obtain rfl : s = t := by simpa using hrun
      exact hs
  | cons label labels ih =>
      obtain ⟨next, hnext, hrest⟩ := run_cons_eq_some.mp hrun
      obtain ⟨hallowed, htail⟩ := hmeets
      exact ih (htail next hnext) (hstep s label next hs hallowed hnext) hrest

/-! ### Conditions that are exact

A side condition may be exact for one step: the step keeps the property if and only if it
meets the condition.  The two rules carry the equivalence over to runs, the first for the end
of a run and the second for all of its states. -/

/-- When a step keeps a property exactly if it meets the side condition, a run
keeps it exactly if all its steps do. `Inv` holds along the run anyway. -/
theorem RunMeets.iff_of_step {P Inv : State → Prop} {allowed : State → Label → Prop}
    {given : Label → Prop}
    (hinv : ∀ s label next, Inv s → given label → step s label = some next → Inv next)
    (hstep : ∀ s label next, Inv s → given label → step s label = some next →
      (P next ↔ P s ∧ allowed s label))
    {labels : List Label} (hgiven : ∀ label ∈ labels, given label) (hs : Inv s)
    (hrun : run step s labels = some t) : P t ↔ P s ∧ RunMeets step allowed s labels := by
  induction labels generalizing s with
  | nil =>
      obtain rfl : s = t := by simpa using hrun
      simp [RunMeets]
  | cons label labels ih =>
      obtain ⟨next, hnext, hrest⟩ := run_cons_eq_some.mp hrun
      have hlabel := hgiven label List.mem_cons_self
      have htail := ih (fun l hl => hgiven l (List.mem_cons_of_mem label hl))
        (hinv s label next hs hlabel hnext) hrest
      rw [htail, hstep s label next hs hlabel hnext, and_assoc]
      simp [RunMeets, hnext]

/-- When a step from where the property holds keeps it exactly if it meets the side condition,
the property holds all along a run exactly if all steps meet it.  A label without a successor
must meet it: it loses nothing. -/
theorem RunMeets.iff_throughout {P Inv : State → Prop} {allowed : State → Label → Prop}
    (hdisabled : ∀ s label, step s label = none → allowed s label)
    (hinv : ∀ s label next, Inv s → step s label = some next → Inv next)
    (hstep : ∀ s label next, Inv s → P s → step s label = some next → (P next ↔ allowed s label))
    (labels : List Label) (hs : Inv s) (hP : P s) :
    (∀ before after t, labels = before ++ after → run step s before = some t → P t) ↔
      RunMeets step allowed s labels := by
  induction labels generalizing s with
  | nil =>
      simp only [RunMeets, iff_true]
      intro before after t hsplit hrun
      obtain ⟨rfl, -⟩ := List.append_eq_nil_iff.mp hsplit.symm
      obtain rfl : s = t := by simpa using hrun
      exact hP
  | cons label labels ih =>
      constructor
      · intro hall
        have hnext : ∀ next, step s label = some next → P next := by
          intro next hnext
          exact hall [label] labels next rfl (run_cons_eq_some.mpr ⟨next, hnext, rfl⟩)
        constructor
        · cases hstuck : step s label with
          | none => exact hdisabled s label hstuck
          | some next => exact (hstep s label next hs hP hstuck).mp (hnext next hstuck)
        · intro next hs'
          refine (ih (hinv s label next hs hs') (hnext next hs')).mp ?_
          rintro before after t rfl hrun
          exact hall (label :: before) after t rfl (run_cons_eq_some.mpr ⟨next, hs', hrun⟩)
      · rintro ⟨hallowed, htail⟩ before after t hsplit hrun
        cases before with
        | nil =>
            obtain rfl : s = t := by simpa using hrun
            exact hP
        | cons first before =>
            obtain ⟨rfl, rfl⟩ := List.cons.inj hsplit
            obtain ⟨next, hnext, hrest⟩ := run_cons_eq_some.mp hrun
            have hP' := (hstep s label next hs hP hnext).mpr hallowed
            exact (ih (hinv s label next hs hnext) hP').mpr (htail next hnext) before after t
              rfl hrest

/-- The invariant rule for properties of a state and the steps that led to it. -/
theorem run_history {P : List Label → State → Prop}
    (hstep : ∀ past s label next, P past s → step s label = some next → P (past ++ [label]) next)
    {labels : List Label} (hs : P [] s) (hrun : run step s labels = some t) : P labels t := by
  suffices h : ∀ past s, P past s → run step s labels = some t → P (past ++ labels) t from
    h [] s hs hrun
  clear hs hrun
  induction labels with
  | nil =>
      intro past s hs hrun
      obtain rfl : s = t := by simpa using hrun
      simpa using hs
  | cons label labels ih =>
      intro past s hs hrun
      obtain ⟨next, hnext, hrest⟩ := run_cons_eq_some.mp hrun
      have h := ih (past ++ [label]) next (hstep past s label next hs hnext) hrest
      rwa [List.append_assoc] at h

/-- A property that holds at the start of a run and not at its end is lost at
one step of it. -/
theorem exists_step_of_lost {P : State → Prop} {labels : List Label} (hs : P s)
    (ht : ¬ P t) (hrun : run step s labels = some t) :
    ∃ before label after a b, labels = before ++ label :: after ∧
      run step s before = some a ∧ step a label = some b ∧
      run step b after = some t ∧ P a ∧ ¬ P b := by
  induction labels generalizing s with
  | nil =>
      obtain rfl : s = t := by simpa using hrun
      exact absurd hs ht
  | cons label labels ih =>
      obtain ⟨next, hnext, hrest⟩ := run_cons_eq_some.mp hrun
      by_cases hP : P next
      · obtain ⟨before, lost, after, a, b, rfl, hbefore, hlost, hafter, ha, hb⟩ :=
          ih hP hrest
        exact ⟨label :: before, lost, after, a, b, rfl,
          run_cons_eq_some.mpr ⟨next, hnext, hbefore⟩, hlost, hafter, ha, hb⟩
      · exact ⟨[], label, labels, s, next, rfl, rfl, hnext, hrest, hs, hP⟩

/-! ### The states of a run

`Once step Q s labels` says that some state of the run meets `Q`.  What a step leaves behind
may depend on the states before it, which the final state has forgotten; `run_along` carries
such a fact through the induction. -/

def Once (step : State → Label → Option State) (Q : State → Prop) (s : State)
    (labels : List Label) : Prop :=
  ∃ before after u, labels = before ++ after ∧ run step s before = some u ∧ Q u

/-- The last state of a run is one of its states. -/
theorem Once.last {Q : State → Prop} {labels : List Label} (hrun : run step s labels = some t)
    (ht : Q t) : Once step Q s labels :=
  ⟨labels, [], t, (List.append_nil labels).symm, hrun, ht⟩

/-- A longer run passes through the same states. -/
theorem Once.append {Q : State → Prop} {labels : List Label} (h : Once step Q s labels)
    (more : List Label) : Once step Q s (labels ++ more) := by
  obtain ⟨before, after, u, rfl, hbefore, hu⟩ := h
  exact ⟨before, after ++ more, u, List.append_assoc before after more, hbefore, hu⟩

/-- The run rule for what is known of a state together with the run that led to it. -/
theorem run_along {P : List Label → State → Prop}
    (hstep : ∀ past u label next, run step s past = some u → P past u →
      step u label = some next → P (past ++ [label]) next)
    {labels : List Label} (hs : P [] s) (hrun : run step s labels = some t) : P labels t := by
  have h : run step s labels = some t ∧ P labels t := by
    apply run_history (P := fun past u => run step s past = some u ∧ P past u) _ ⟨rfl, hs⟩ hrun
    intro past u label next hpast hnext
    constructor
    · exact run_append_eq_some.mpr ⟨u, hpast.1, run_cons_eq_some.mpr ⟨next, hnext, rfl⟩⟩
    · exact hstep past u label next hpast.1 hpast.2 hnext
  exact h.2

/-! ### The steps of a run

What a party was given, and when, is a fact about the steps of the run and the states they
were taken in; the state itself need not remember it. -/

/-- The steps of a run, each with the state it is taken in. -/
def trace (step : State → Label → Option State) : State → List Label → List (State × Label)
  | _, [] => []
  | s, label :: labels =>
      (s, label) ::
        match step s label with
        | some next => trace step next labels
        | none => []

theorem label_mem_of_mem_trace {label : Label} {labels : List Label}
    (h : (t, label) ∈ trace step s labels) : label ∈ labels := by
  induction labels generalizing s with
  | nil => cases h
  | cons first labels ih =>
      rcases List.mem_cons.mp h with heq | hrest
      · obtain ⟨-, rfl⟩ := Prod.mk.inj heq
        exact List.mem_cons_self
      · apply List.mem_cons_of_mem
        split at hrest
        · exact ih hrest
        · cases hrest

/-- The run rule for what is known of a state together with the steps that led to it. -/
theorem run_trace {P : List (State × Label) → State → Prop}
    (hstep : ∀ past u label next, P past u → step u label = some next →
      P (past ++ [(u, label)]) next)
    {labels : List Label} (hs : P [] s) (hrun : run step s labels = some t) :
    P (trace step s labels) t := by
  suffices h : ∀ past u, P past u → run step u labels = some t →
    P (past ++ trace step u labels) t from
    h [] s hs hrun
  clear hs hrun
  induction labels with
  | nil =>
      intro past u hu hrun
      obtain rfl : u = t := by simpa using hrun
      simpa [trace] using hu
  | cons label labels ih =>
      intro past u hu hrun
      obtain ⟨next, hnext, hrest⟩ := run_cons_eq_some.mp hrun
      have h := ih (past ++ [(u, label)]) next (hstep past u label next hu hnext) hrest
      rw [List.append_assoc] at h
      simpa [trace, hnext] using h

/-! ### Parties in a list

A state that holds any number of parties holds them in a list, and a step of
one of them sets its place. -/

theorem getElem?_set_eq_some {α : Type u} {parties : List α} {i j : Nat} {a b : α}
    (h : (parties.set i a)[j]? = some b) :
    (j = i ∧ b = a) ∨ (j ≠ i ∧ parties[j]? = some b) := by
  rw [List.getElem?_set] at h
  split_ifs at h with heq
  · exact Or.inl ⟨heq.symm, (Option.some.inj h).symm⟩
  · exact Or.inr ⟨fun heq' => heq heq'.symm, h⟩

theorem getElem?_concat_eq_some {α : Type u} {parties : List α} {j : Nat} {a b : α}
    (h : (parties ++ [a])[j]? = some b) :
    (j = parties.length ∧ b = a) ∨ parties[j]? = some b := by
  rw [List.getElem?_append] at h
  split_ifs at h with hlt
  · exact Or.inr h
  · have hj : j = parties.length := by
      have hlt' := (List.getElem?_eq_some_iff.mp h).1
      simp only [List.length_singleton] at hlt'
      omega
    subst hj
    exact Or.inl ⟨rfl, by simpa using h.symm⟩

/-- What is counted before a step is counted after it, but for the party that moved. -/
theorem countP_set_add {α : Type u} {parties : List α} {i : Nat} {p : α}
    (hp : parties[i]? = some p) (p' : α) (f : α → Bool) :
    (parties.set i p').countP f + (f p).toNat = parties.countP f + (f p').toNat := by
  obtain ⟨hi, rfl⟩ := List.getElem?_eq_some_iff.mp hp
  have hle := List.boole_getElem_le_countP (p := f) hi
  rw [List.countP_set hi]
  cases hfi : f parties[i] with
  | false => cases f p' <;> simp
  | true =>
      rw [if_pos hfi] at hle
      cases f p' <;> simp only [Bool.toNat_true, Bool.toNat_false, if_true, Bool.false_eq_true,
        if_false] <;> omega

end Quicgate.TransitionSystem
