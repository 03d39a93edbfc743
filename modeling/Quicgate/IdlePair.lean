import Mathlib.Data.List.TakeWhile
import Quicgate.TransitionSystem

/-!
# The idle rule of a spliced connection

`idlePair.copy` of `internal/engine/streams.go`, run for the two directions of one
connection.  A direction whose period passed without a byte marks itself quiet and
ends when it finds the other one quiet too; the mark of a direction is only taken back
at its own next deadline.  The events are the bytes that a direction moves and the read
deadlines it runs into, in any order of the two directions; the log keeps them, the last
one first.

`idle_only_when_quiet` holds of runs in which every mark that is found is fresh, and
`stale_mark_ends_download` is a run in which one is not.
-/

namespace Quicgate.IdlePair

open Quicgate.TransitionSystem

/-! ### The two directions

A direction goes on, or has returned with or without the idle error. -/

/-- Direction 0 is from the client to the backend, direction 1 the way back. -/
inductive Dir where
  | up
  | down
deriving DecidableEq, Repr

def Dir.other : Dir → Dir
  | .up => .down
  | .down => .up

inductive Event where
  | byte (d : Dir)
  | deadline (d : Dir)
  | finish (d : Dir) -- the source ended, or a copy failed
deriving DecidableEq, Repr

inductive Status where
  | copying
  | finished
  | idle -- it returned through the rule that both are quiet
deriving DecidableEq, Repr

/-- A direction. `n` counts the bytes of the running `io.Copy`. -/
structure Side where
  quiet : Bool
  n : Nat
  status : Status
deriving DecidableEq, Repr

/-- `idlePair`, with what has happened so far, the last event first. -/
structure Pair where
  side : Dir → Side
  log : List Event

def start : Pair := ⟨fun _ => ⟨false, 0, .copying⟩, []⟩

def Pair.set (s : Pair) (d : Dir) (side : Side) (event : Event) : Pair :=
  ⟨Function.update s.side d side, event :: s.log⟩

@[simp] theorem Pair.side_set_self (s : Pair) (d : Dir) (side : Side) (event : Event) :
    (s.set d side event).side d = side := by
  simp [Pair.set]

theorem Pair.side_set_of_ne (s : Pair) {d e : Dir} (h : e ≠ d) (side : Side) (event : Event) :
    (s.set d side event).side e = s.side e := by
  simp [Pair.set, Function.update_of_ne h]

@[simp] theorem Pair.log_set (s : Pair) (d : Dir) (side : Side) (event : Event) :
    (s.set d side event).log = event :: s.log := rfl

def step (s : Pair) : Event → Option Pair
  | .byte d =>
      let side := s.side d
      if side.status = .copying then some (s.set d { side with n := side.n + 1 } (.byte d))
      else none
  | .deadline d =>
      let side := s.side d
      if side.status = .copying then
        if side.n > 0 then some (s.set d { side with quiet := false, n := 0 } (.deadline d))
        else if (s.side d.other).quiet then
          some (s.set d { side with quiet := true, status := .idle } (.deadline d))
        else some (s.set d { side with quiet := true } (.deadline d))
      else none
  | .finish d =>
      let side := s.side d
      if side.status = .copying then some (s.set d { side with status := .finished } (.finish d))
      else none

/-! ### Periods

A period of a direction is what happened since its last deadline.  A mark is about the period
before. -/

def period (d : Dir) (log : List Event) : List Event := log.takeWhile (· ≠ .deadline d)

def before (d : Dir) (log : List Event) : List Event := (log.dropWhile (· ≠ .deadline d)).tail

/-- The mark of the other direction is fresh: it has moved nothing since it set the mark, and its
quiet period began before the period of this direction. -/
def Fresh (s : Pair) : Event → Prop
  | .deadline d => (s.side d.other).quiet = true → (s.side d).n = 0 →
      (s.side d.other).n = 0 ∧ (period d s.log).count (.deadline d.other) ≤ 1
  | _ => True

instance (s : Pair) (event : Event) : Decidable (Fresh s event) :=
  match event with
  | .deadline _ => inferInstanceAs (Decidable (_ → _ → _))
  | .byte _ => inferInstanceAs (Decidable True)
  | .finish _ => inferInstanceAs (Decidable True)

section Log

variable {d e : Dir} {log : List Event}

theorem period_cons_deadline (d : Dir) (log : List Event) : period d (.deadline d :: log) = [] := by
  simp [period]

theorem period_cons {event : Event} (h : event ≠ .deadline d) :
    period d (event :: log) = event :: period d log := by
  simp [period, h]

theorem before_cons_deadline (d : Dir) (log : List Event) :
    before d (.deadline d :: log) = log := by
  simp [before]

theorem before_cons {event : Event} (h : event ≠ .deadline d) :
    before d (event :: log) = before d log := by
  simp [before, h]

/-- The events from the last deadline but one of a direction on. -/
theorem mem_of_prefix {front : List Event} (hfront : front <+: log)
    (hcount : front.count (.deadline d) ≤ 1) {event : Event} (hevent : event ∈ front) :
    event ∈ period d log ∨ event = .deadline d ∨ event ∈ period d (before d log) := by
  have hfirst : ∀ {front log : List Event}, front <+: log → .deadline d ∉ front →
      ∀ event ∈ front, event ∈ period d log := by
    intro front log hfront hnot
    induction front generalizing log with
    | nil => simp
    | cons first rest ih =>
        obtain ⟨tail, rfl⟩ := hfront
        rw [List.mem_cons, not_or] at hnot
        rw [List.cons_append, period_cons (Ne.symm hnot.1)]
        intro event hevent
        rcases List.mem_cons.mp hevent with rfl | hrest
        · exact List.mem_cons_self
        · exact List.mem_cons_of_mem _ (ih (List.prefix_append rest tail) hnot.2 event hrest)
  induction front generalizing log with
  | nil => cases hevent
  | cons first rest ih =>
      obtain ⟨tail, rfl⟩ := hfront
      by_cases hsame : first = .deadline d
      · -- the one deadline of the front: what is below it is in the period before
        subst hsame
        rw [List.cons_append, period_cons_deadline, before_cons_deadline]
        rcases List.mem_cons.mp hevent with rfl | hrest
        · exact Or.inr (Or.inl rfl)
        · rw [List.count_cons_self] at hcount
          have hnone : .deadline d ∉ rest := List.count_eq_zero.mp (by omega)
          exact Or.inr (Or.inr (hfirst (List.prefix_append rest tail) hnone event hrest))
      · rw [List.cons_append, period_cons hsame, before_cons hsame]
        rcases List.mem_cons.mp hevent with rfl | hrest
        · exact Or.inl List.mem_cons_self
        · rw [List.count_cons_of_ne hsame] at hcount
          rcases ih (List.prefix_append rest tail) hcount hrest with hin | heq | hin
          · exact Or.inl (List.mem_cons_of_mem _ hin)
          · exact Or.inr (Or.inl heq)
          · exact Or.inr (Or.inr hin)

end Log

/-! ### Runs

The invariant reads the counters and marks off the log. -/

/-- The counters and the marks, against the log. -/
structure Inv (s : Pair) : Prop where
  counted : ∀ d, (s.side d).n = 0 → .byte d ∉ period d s.log
  marked : ∀ d, (s.side d).quiet = true → .byte d ∉ period d (before d s.log)

theorem inv_start : Inv start where
  counted d _ := by simp [start, period]
  marked d h := by simp [start] at h

section Steps

variable {s t : Pair} {d e : Dir}

/-- A byte of a direction. -/
theorem Inv.byte (h : Inv s) (d : Dir) :
    Inv (s.set d { s.side d with n := (s.side d).n + 1 } (.byte d)) := by
  have hne : ∀ e, Event.byte d ≠ .deadline e := by simp
  constructor
  · intro e hn
    by_cases heq : e = d
    · subst heq
      simp at hn
    · rw [s.side_set_of_ne heq] at hn
      rw [Pair.log_set, period_cons (hne e), List.mem_cons]
      rintro (hbyte | hin)
      · exact heq (Event.byte.inj hbyte)
      · exact h.counted e hn hin
  · intro e hquiet
    rw [Pair.log_set, before_cons (hne e)]
    refine h.marked e ?_
    by_cases heq : e = d
    · subst heq
      simpa using hquiet
    · rw [s.side_set_of_ne heq] at hquiet
      exact hquiet

/-- A deadline of a direction, which is marked only when it has moved nothing. -/
theorem Inv.deadline (h : Inv s) {side : Side} (hquiet : side.quiet = true → (s.side d).n = 0) :
    Inv (s.set d side (.deadline d)) := by
  have hne : ∀ e, e ≠ d → Event.deadline d ≠ .deadline e :=
    fun e heq h => heq (Event.deadline.inj h).symm
  constructor
  · intro e hn
    by_cases heq : e = d
    · subst heq
      rw [Pair.log_set, period_cons_deadline]
      simp
    · rw [s.side_set_of_ne heq] at hn
      simpa [period_cons (hne e heq)] using h.counted e hn
  · intro e hmark
    by_cases heq : e = d
    · subst heq
      rw [s.side_set_self] at hmark
      rw [Pair.log_set, before_cons_deadline]
      exact h.counted e (hquiet hmark)
    · rw [s.side_set_of_ne heq] at hmark
      rw [Pair.log_set, before_cons (hne e heq)]
      exact h.marked e hmark

theorem Inv.finish (h : Inv s) (d : Dir) :
    Inv (s.set d { s.side d with status := .finished } (.finish d)) := by
  have hne : ∀ e, Event.finish d ≠ .deadline e := by simp
  have hside : ∀ e, ((s.set d { s.side d with status := .finished } (.finish d)).side e).n =
      (s.side e).n ∧ ((s.set d { s.side d with status := .finished } (.finish d)).side e).quiet =
      (s.side e).quiet := by
    intro e
    by_cases heq : e = d
    · subst heq
      simp
    · rw [s.side_set_of_ne heq]
      exact ⟨rfl, rfl⟩
  constructor
  · intro e hn
    rw [(hside e).1] at hn
    simpa [period_cons (hne e)] using h.counted e hn
  · intro e hquiet
    rw [(hside e).2] at hquiet
    rw [Pair.log_set, before_cons (hne e)]
    exact h.marked e hquiet

/-- What a deadline can do. -/
theorem step_deadline (h : step s (.deadline d) = some t) :
    ((s.side d).n > 0 ∧ t = s.set d { s.side d with quiet := false, n := 0 } (.deadline d)) ∨
    ((s.side d).n = 0 ∧ (s.side d.other).quiet = true ∧
      t = s.set d { s.side d with quiet := true, status := .idle } (.deadline d)) ∨
    ((s.side d).n = 0 ∧ (s.side d.other).quiet = false ∧ (s.side d).status = .copying ∧
      t = s.set d { s.side d with quiet := true } (.deadline d)) := by
  simp only [step] at h
  split at h
  · rename_i hcopying
    split at h
    · rename_i hn
      exact Or.inl ⟨hn, (Option.some.inj h).symm⟩
    · rename_i hn
      split at h
      · rename_i hquiet
        exact Or.inr (Or.inl ⟨by omega, hquiet, (Option.some.inj h).symm⟩)
      · rename_i hquiet
        exact Or.inr (Or.inr ⟨by omega, by simpa using hquiet, hcopying, (Option.some.inj h).symm⟩)
  · cases h

theorem Inv.step {event : Event} (h : Inv s) (hstep : step s event = some t) : Inv t := by
  cases event with
  | byte d =>
      simp only [IdlePair.step] at hstep
      split at hstep
      · obtain rfl := Option.some.inj hstep
        exact h.byte d
      · cases hstep
  | deadline d =>
      obtain ⟨-, rfl⟩ | ⟨hn, -, rfl⟩ | ⟨hn, -, -, rfl⟩ := step_deadline hstep
      · exact h.deadline (by simp)
      · exact h.deadline fun _ => hn
      · exact h.deadline fun _ => hn
  | finish d =>
      simp only [IdlePair.step] at hstep
      split at hstep
      · obtain rfl := Option.some.inj hstep
        exact h.finish d
      · cases hstep

/-- A direction that returns on a fresh mark. -/
theorem Inv.quiet_period (h : Inv s) (hstep : IdlePair.step s (.deadline d) = some t)
    (hfresh : Fresh s (.deadline d)) (hcopying : (s.side d).status = .copying)
    (hidle : (t.side d).status = .idle) : ∀ e, .byte e ∉ period d s.log := by
  obtain ⟨-, rfl⟩ | ⟨hn, hother, rfl⟩ | ⟨-, -, -, rfl⟩ := step_deadline hstep
  · simp [hcopying] at hidle
  · obtain ⟨hotherN, hcount⟩ := hfresh hother hn
    have hothers : .byte d.other ∉ period d s.log := by
      intro hin
      rcases mem_of_prefix (List.takeWhile_prefix _) hcount hin with hlast | heq | hmarked
      · exact h.counted d.other hotherN hlast
      · cases heq
      · exact h.marked d.other hother hmarked
    intro e
    cases e with
    | up =>
        cases d with
        | up => exact h.counted .up hn
        | down => exact hothers
    | down =>
        cases d with
        | up => exact hothers
        | down => exact h.counted .down hn
  · simp [hcopying] at hidle

end Steps

/-- In a run in which every mark that is found is fresh, a direction that returns because both are
quiet ends a period in which neither direction moved a byte. -/
theorem idle_only_when_quiet (labels : List Event) {d : Dir} {s t : Pair}
    (hrun : run step start labels = some s)
    (hfresh : RunMeets step Fresh start (labels ++ [.deadline d]))
    (hstep : step s (.deadline d) = some t) (hidle : (t.side d).status = .idle) :
    ∀ e, .byte e ∉ period d s.log := by
  have hinv : Inv s := run_preserves (fun _ _ _ hs h => Inv.step hs h) inv_start hrun
  have hcopying : (s.side d).status = .copying := by
    by_contra hnot
    simp [step, hnot] at hstep
  exact hinv.quiet_period hstep (hfresh.of_append hrun).1 hcopying hidle

/-- Both directions say nothing for a period. -/
theorem idle_only_when_quiet_silent : ∃ s t,
    run step start [.byte .up, .deadline .up, .deadline .down] = some s ∧
      step s (.deadline .up) = some t ∧ (t.side .up).status = .idle ∧
      ∀ e, .byte e ∉ period .up s.log :=
  ⟨_, _, rfl, rfl, by decide, idle_only_when_quiet [.byte .up, .deadline .up, .deadline .down] rfl
    (by decide) rfl (by decide)⟩

/-- The backend has nothing to say for a period and then sends a byte; the client's period, in which
the byte was sent, ends the connection. -/
theorem stale_mark_ends_download : ∃ s t,
    run step start [.byte .up, .deadline .up, .deadline .down, .byte .down] = some s ∧
      step s (.deadline .up) = some t ∧ (t.side .up).status = .idle ∧
        .byte .down ∈ period .up s.log :=
  ⟨_, _, rfl, rfl, by decide, by decide⟩

end Quicgate.IdlePair
