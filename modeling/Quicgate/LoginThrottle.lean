import Quicgate.AdminAccounts
import Quicgate.TransitionSystem

/-!
# Counting wrong codes

The counters of `internal/admin/throttle.go`, and the requests that guess at one
account's second factor: sign-ins and break-glass creations, any number of them
at once, each of them in its own place between `codes.allow`, `verifyTOTP` and
`codes.fail`.

A counter *stands* while its window or its lockout lasts.  `guesses` counts the
wrong codes that were evaluated since the standing counter was opened, the one
that opened it included; nothing in the code reads it.

`guesses_bounded` certifies the gate of the sign-ins for the runs of `Orderly` steps, in which
nothing slips between the gate and the count.  `break_glass_guesses_unbounded` is a run of the
break-glass endpoint, which never asks the gate.
-/

namespace Quicgate.Admin

open Quicgate.GoMaps Quicgate.TransitionSystem

def loginMaxFails : Nat := 10

def loginWindow : Nat := 15 * minute

def loginLockout : Nat := 15 * minute

def loginSweepEvery : Nat := 500

def loginMaxTracked : Nat := 65536

/-! ### The counters

A counter is looked at with the time of the call.  `allow` drops one that no longer stands, and
`fail` makes room for a new one and sweeps every so many writes; the map may be gone through in
any order. -/

structure FailCounter where
  count : Nat
  first : Nat
  lockedUntil : Option Nat
  deriving DecidableEq

namespace FailCounter

def locked (f : FailCounter) (now : Nat) : Bool :=
  match f.lockedUntil with
  | some stop => now < stop
  | none => false

/-- The window has not passed, or a lockout has not. -/
def stands (f : FailCounter) (now : Nat) : Bool :=
  !(decide (loginWindow < now - f.first) && !f.locked now)

def opened (now : Nat) : FailCounter := ⟨1, now, none⟩

/-- One more failure. -/
def again (f : FailCounter) (max now : Nat) : FailCounter :=
  { f with
    count := f.count + 1
    lockedUntil := if max ≤ f.count + 1 then some (now + loginLockout) else f.lockedUntil }

end FailCounter

structure Throttle where
  max : Nat
  fails : GoMap String FailCounter
  writes : Nat

def newLoginThrottle : Throttle := ⟨loginMaxFails, ∅, 0⟩

namespace Throttle

/-- `allow`: a counter that no longer stands is dropped on the way. -/
def allow (t : Throttle) (key : String) (now : Nat) : Throttle × Bool :=
  match t.fails.lookup key with
  | none => (t, true)
  | some f =>
      if f.locked now then (t, false)
      else if loginWindow < now - f.first then ({ t with fails := t.fails.erase key }, true)
      else (t, true)

/-- The loop of `makeRoom`: the last entry that is not locked out, or the
first one whose window has passed. -/
def victim (now : Nat) : List (String × FailCounter) → String → String
  | [], found => found
  | (key, f) :: rest, found =>
      if f.locked now then victim now rest found
      else if loginWindow < now - f.first then key
      else victim now rest key

/-- `makeRoom`: the table with room for one more, when there is any. -/
def makeRoom (range : Range String FailCounter) (fails : GoMap String FailCounter) (now : Nat) :
    Option (GoMap String FailCounter) :=
  if fails.entries.length < loginMaxTracked then some fails
  else
    let found := victim now (range.order fails) ""
    if found = "" then none else some (fails.erase found)

/-- The end of `fail`: every so many writes the counters that no longer stand
go. -/
def recorded (t : Throttle) (fails : GoMap String FailCounter) (now : Nat) : Throttle :=
  { t with
    writes := t.writes + 1
    fails :=
      if (t.writes + 1) % loginSweepEvery = 0 then
        GoMap.eraseAll fails ((fails.pairs.filter fun entry => !entry.2.stands now).map Prod.fst)
      else fails }

def fail (range : Range String FailCounter) (t : Throttle) (key : String) (now : Nat) : Throttle :=
  match t.fails.lookup key with
  | some f =>
      if f.stands now then t.recorded (t.fails.insert key (f.again t.max now)) now
      else t.recorded (t.fails.insert key (.opened now)) now
  | none =>
      match makeRoom range t.fails now with
      | none => t
      | some fails => t.recorded (fails.insert key (.opened now)) now

/-- `succeed`. -/
def succeed (t : Throttle) (key : String) : Throttle := { t with fails := t.fails.erase key }

/-- The counter of a key, while it stands. -/
def counter (t : Throttle) (key : String) (now : Nat) : Option FailCounter :=
  (t.fails.lookup key).filter fun f => f.stands now

end Throttle

/-! ### What the operations do to a standing counter

A key's standing counter is its own: other keys, the sweep and the eviction leave it, and a
failure counts in it. -/

theorem FailCounter.stands_of_le {f : FailCounter} {now later : Nat} (hle : now ≤ later)
    (h : f.stands later = true) : f.stands now = true := by
  unfold FailCounter.stands FailCounter.locked at *
  cases hlock : f.lockedUntil with
  | none => simp [hlock] at h ⊢; omega
  | some stop => simp [hlock] at h ⊢; omega

theorem FailCounter.stands_again {f : FailCounter} {max now : Nat} (h : f.stands now = true) :
    (f.again max now).stands now = true := by
  unfold FailCounter.stands FailCounter.locked FailCounter.again at *
  by_cases hmax : max ≤ f.count + 1
  · simp [hmax, loginLockout, minute, second]
  · simpa [hmax] using h

namespace Throttle

theorem counter_eq_some {t : Throttle} {key : String} {now : Nat} {f : FailCounter} :
    t.counter key now = some f ↔ t.fails.lookup key = some f ∧ f.stands now = true := by
  unfold counter
  rw [Option.filter_eq_some_iff]

/-- A counter that stands has stood before. -/
theorem counter_of_le {t : Throttle} {key : String} {now later : Nat} {f : FailCounter}
    (hle : now ≤ later) (h : t.counter key later = some f) : t.counter key now = some f := by
  rw [counter_eq_some] at h ⊢
  exact ⟨h.1, FailCounter.stands_of_le hle h.2⟩

theorem counter_allow {t : Throttle} {key : String} {now : Nat} {f : FailCounter}
    (h : (t.allow key now).1.counter key now = some f) : t.counter key now = some f := by
  unfold allow at h
  cases hlook : t.fails.lookup key with
  | none => simpa [hlook] using h
  | some f' =>
      simp only [hlook] at h
      split_ifs at h with hlocked hwindow
      · exact h
      · rw [counter_eq_some] at h
        simp at h
      · exact h

theorem not_counter_succeed {t : Throttle} {key : String} {now : Nat} :
    (t.succeed key).counter key now = none := by
  simp [succeed, counter]

/-- The sweep takes no standing counter, and makes none. -/
theorem counter_recorded (t : Throttle) (fails : GoMap String FailCounter) (key : String)
    (now : Nat) : (t.recorded fails now).counter key now =
      (fails.lookup key).filter fun f => f.stands now := by
  unfold counter recorded
  dsimp only
  split_ifs with hsweep
  · rw [GoMap.lookup_eraseAll]
    split_ifs with hmem
    · obtain ⟨⟨key', f⟩, hentry, rfl⟩ := List.mem_map.mp hmem
      obtain ⟨hpair, hstands⟩ := List.mem_filter.mp hentry
      have hfalse : f.stands now = false := by simpa using hstands
      rw [GoMap.mem_pairs.mp hpair]
      simp [Option.filter, hfalse]
    · rfl
  · rfl

theorem counter_fail_of_stands {range : Range String FailCounter} {t : Throttle} {key : String}
    {now : Nat} {f : FailCounter}
    (h : t.counter key now = some f) :
    (t.fail range key now).counter key now = some (f.again t.max now) := by
  obtain ⟨hlook, hstands⟩ := counter_eq_some.mp h
  have hagain := @FailCounter.stands_again _ t.max _ hstands
  unfold fail
  simp only [hlook, hstands, if_true]
  rw [counter_recorded, AList.lookup_insert, Option.filter_eq_some_iff]
  exact ⟨rfl, hagain⟩

theorem counter_fail_of_not {range : Range String FailCounter} {t : Throttle} {key : String}
    {now : Nat}
    (h : t.counter key now = none) {f : FailCounter}
    (hafter : (t.fail range key now).counter key now = some f) : f = .opened now := by
  unfold fail at hafter
  cases hlook : t.fails.lookup key with
  | some f' =>
      have hstands : f'.stands now = false := by
        by_contra hstands
        have hcounter := counter_eq_some.mpr ⟨hlook, Bool.of_not_eq_false hstands⟩
        rw [h] at hcounter
        cases hcounter
      simp only [hlook, hstands] at hafter
      rw [if_neg (by decide), counter_recorded, AList.lookup_insert,
        Option.filter_eq_some_iff] at hafter
      exact (Option.some.inj hafter.1).symm
  | none =>
      simp only [hlook] at hafter
      cases hroom : makeRoom range t.fails now with
      | none =>
          rw [hroom] at hafter
          rw [h] at hafter
          cases hafter
      | some fails =>
          simp only [hroom] at hafter
          rw [counter_recorded, AList.lookup_insert, Option.filter_eq_some_iff] at hafter
          exact (Option.some.inj hafter.1).symm

theorem max_allow (t : Throttle) (key : String) (now : Nat) : (t.allow key now).1.max = t.max := by
  unfold allow
  cases t.fails.lookup key with
  | none => rfl
  | some f =>
      dsimp only
      split_ifs <;> rfl

theorem max_fail (range : Range String FailCounter) (t : Throttle) (key : String) (now : Nat) :
    (t.fail range key now).max = t.max := by
  unfold fail
  cases t.fails.lookup key with
  | some f =>
      dsimp only
      split_ifs <;> rfl
  | none =>
      dsimp only
      cases makeRoom range t.fails now with
      | none => rfl
      | some fails => rfl

end Throttle

/-! ### Requests that guess

The password of the request has matched.  A sign-in asks `codes.allow` before the code is looked
at, a break-glass creation does not (`Guess.mayVerify`). -/

inductive Endpoint
  | login
  | breakGlass
  deriving DecidableEq

/-- Where a request stands.  The password has matched in every one of them. -/
inductive GuessPhase
  /-- The account is read; a sign-in has `codes.allow` before it, a break-glass
  creation has not. -/
  | verified
  | allowed
  | wrong
  | right
  | done
  deriving DecidableEq

structure Guess where
  endpoint : Endpoint
  user : User
  code : String
  phase : GuessPhase
  deriving DecidableEq

structure GuessState where
  now : Nat
  users : Users
  codes : Throttle
  requests : List Guess
  guesses : Nat

inductive GuessStep
  /-- A request arrives, and reads the account. -/
  | arrive (endpoint : Endpoint) (code : String)
  /-- `codes.allow`, in `handleLogin` only. -/
  | allow (i : Nat)
  | verify (i : Nat)
  | fail (i : Nat)
  /-- The session starts, or does not; a break-glass creation starts none. -/
  | finish (i : Nat) (started : Bool)
  | wait (duration : Nat)
  deriving DecidableEq

section

variable (range : Range String FailCounter) (cred : Credentials) (box : Box) (address key : String)

/-- The requests that have had a wrong code evaluated and not counted yet. -/
def uncounted (requests : List Guess) : Nat := requests.countP fun r => r.phase = .wrong

def GuessState.put (s : GuessState) (i : Nat) (r : Guess) (phase : GuessPhase) : GuessState :=
  { s with requests := s.requests.set i { r with phase := phase } }

/-- Whether `verifyTOTP` comes next: after `codes.allow` in a sign-in, at once
in a break-glass creation. -/
def Guess.mayVerify (r : Guess) : Bool :=
  match r.endpoint with
  | .login => r.phase = .allowed
  | .breakGlass => r.phase = .verified

def stepAllow (s : GuessState) (i : Nat) (r : Guess) : Option GuessState :=
  if r.endpoint = .login ∧ r.phase = .verified then
    let (codes, ok) := s.codes.allow key s.now
    some ({ s with codes := codes }.put i r (if ok then .allowed else .done))
  else none

def stepVerify (s : GuessState) (i : Nat) (r : Guess) : Option GuessState :=
  if r.mayVerify then
    match verifyTOTP cred s.users r.user.id r.user.totpLast r.user.totpSecret r.code s.now with
    | (users, true) => some ({ s with users := users }.put i r .right)
    | (users, false) =>
        some ({ s with
          users := users
          guesses := if (s.codes.counter key s.now).isSome then s.guesses + 1 else s.guesses
          }.put i r .wrong)
  else none

def stepFail (s : GuessState) (i : Nat) (r : Guess) : Option GuessState :=
  if r.phase = .wrong then
    some ({ s with
      codes := s.codes.fail range key s.now
      guesses := if (s.codes.counter key s.now).isSome then s.guesses else 1 }.put i r .done)
  else none

def stepFinish (s : GuessState) (i : Nat) (r : Guess) (started : Bool) : Option GuessState :=
  if r.phase = .right then
    if r.endpoint = .login ∧ started then
      some ({ s with codes := s.codes.succeed key }.put i r .done)
    else some (s.put i r .done)
  else none

/-- The requests of one account, whose address is `address` and whose throttle
key is `key`. -/
def guessStep (s : GuessState) : GuessStep → Option GuessState
  | .arrive endpoint code =>
      match getUserByEmail cred.caseTable box s.users address with
      | .error _ => none
      | .ok user =>
          -- An empty code asks for one instead of evaluating it.
          if user.totpSecret = "" ∨ (endpoint = .login ∧ code = "") then none
          else some { s with requests := s.requests ++ [⟨endpoint, user, code, .verified⟩] }
  | .allow i => s.requests[i]?.bind (stepAllow key s i)
  | .verify i => s.requests[i]?.bind (stepVerify cred key s i)
  | .fail i => s.requests[i]?.bind (stepFail range key s i)
  | .finish i started => s.requests[i]?.bind fun r => stepFinish key s i r started
  | .wait duration => some { s with now := s.now + duration }

/-- No request is under way, and no counter of the account stands. -/
def GuessState.Quiet (s : GuessState) : Prop :=
  s.requests = [] ∧ s.codes.counter key s.now = none ∧ s.codes.max = loginMaxFails

/-- While the counter stands, no more wrong codes were evaluated than the
threshold. -/
def GuessState.Bounded (s : GuessState) : Prop :=
  (s.codes.counter key s.now).isSome → s.guesses ≤ loginMaxFails

/-- A sign-in has passed `codes.allow` and has its code still to be evaluated. -/
def GuessState.Admitting (s : GuessState) : Prop := ∃ r ∈ s.requests, r.phase = .allowed

instance (s : GuessState) : Decidable s.Admitting :=
  inferInstanceAs (Decidable (∃ r ∈ s.requests, r.phase = .allowed))

/-! ### Where the gate is enough

`codes.allow` is asked by sign-ins only, and in a critical section of its own.
It keeps the bound where nothing comes between the sections, and where the
endpoint that does not ask finds the account open. -/

/-- While the counter stands, a wrong code is evaluated with no other one still
to be counted, and by a break-glass creation only when `codes.allow` would let
it through.  The failure that locks the account out is counted with no sign-in
between its gate and its code, and not at the instant that opened the counter. -/
def Orderly (s : GuessState) : GuessStep → Prop
  | .verify i => ∀ r ∈ s.requests[i]?, ∀ _f ∈ s.codes.counter key s.now,
      (verifyTOTP cred s.users r.user.id r.user.totpLast r.user.totpSecret r.code s.now).2 = false →
        uncounted s.requests = 0 ∧ (r.endpoint = .breakGlass → (s.codes.allow key s.now).2 = true)
  | .fail _ => ∀ f ∈ s.codes.counter key s.now, loginMaxFails ≤ f.count + 1 →
      ¬ s.Admitting ∧ f.first < s.now
  | _ => True

instance decidableOrderly (s : GuessState) : ∀ label, Decidable (Orderly cred key s label)
  | .verify i => inferInstanceAs (Decidable (∀ r ∈ s.requests[i]?, ∀ _f ∈ s.codes.counter key s.now,
      _ = false → uncounted s.requests = 0 ∧ (_ → (s.codes.allow key s.now).2 = true)))
  | .fail _ => inferInstanceAs (Decidable (∀ f ∈ s.codes.counter key s.now,
      loginMaxFails ≤ f.count + 1 → ¬ s.Admitting ∧ f.first < s.now))
  | .arrive _ _ | .allow _ | .finish _ _ | .wait _ => isTrue trivial

/-- What orderly steps preserve.  The wrong codes of a standing counter are in
the counter or on their way into it; a full counter is locked for longer than
its window; and a sign-in that has passed the gate finds the counter not full. -/
structure GuessInv (s : GuessState) : Prop where
  max_eq : s.codes.max = loginMaxFails
  bounded : s.Bounded key
  counted : ∀ f, s.codes.counter key s.now = some f → s.guesses ≤ f.count + uncounted s.requests
  locks : ∀ f, s.codes.counter key s.now = some f → loginMaxFails ≤ f.count →
    ∃ stop, f.lockedUntil = some stop ∧ f.first + loginWindow < stop
  gated : s.Admitting → ∀ f, s.codes.counter key s.now = some f → f.count < loginMaxFails

variable {range cred box address key} {s next : GuessState} {i : Nat} {r : Guess}

theorem GuessState.Quiet.inv (h : s.Quiet key) : GuessInv key s := by
  obtain ⟨-, hcounter, hmax⟩ := h
  have hnone : ∀ {P : FailCounter → Prop} f, s.codes.counter key s.now = some f → P f := by
    intro P f hf
    rw [hcounter] at hf
    cases hf
  refine ⟨hmax, ?_, hnone, hnone, fun _ => hnone⟩
  intro hsome
  simp [hcounter] at hsome

/-- The gate at work: a full counter that stands is locked, so a counter that
lets someone through is not full. -/
theorem GuessInv.count_lt_of_allow (h : GuessInv key s) {f : FailCounter}
    (hf : s.codes.counter key s.now = some f) (hallow : (s.codes.allow key s.now).2 = true) :
    f.count < loginMaxFails := by
  by_contra hfull
  obtain ⟨stop, hstop, hlate⟩ := h.locks f hf (Nat.not_lt.mp hfull)
  obtain ⟨hlook, hstands⟩ := Throttle.counter_eq_some.mp hf
  have hopen : f.locked s.now = false := by
    by_contra hlocked
    rw [Bool.not_eq_false] at hlocked
    simp [Throttle.allow, hlook, hlocked] at hallow
  have hover : stop ≤ s.now := by simpa [FailCounter.locked, hstop] using hopen
  have hwindow : loginWindow < s.now - f.first := by omega
  simp [FailCounter.stands, hopen, hwindow] at hstands

/-! ### The steps of a request

Counting and evaluating are the two steps that matter; all others leave the numbers that the
invariant compares. -/

/-- Nothing is to show of a step that neither counts nor evaluates: its counter
stood before with as many failures in it. -/
theorem GuessInv.of_counter (h : GuessInv key s) (hmax : next.codes.max = s.codes.max)
    (hguesses : next.guesses = s.guesses)
    (huncounted : uncounted s.requests ≤ uncounted next.requests)
    (hcounter : ∀ f, next.codes.counter key next.now = some f → s.codes.counter key s.now = some f)
    (hadmitting : next.Admitting → s.Admitting ∨ (s.codes.allow key s.now).2 = true) :
    GuessInv key next := by
  refine ⟨hmax.trans h.max_eq, ?_, ?_, fun f hf => h.locks f (hcounter f hf), ?_⟩
  · intro hsome
    obtain ⟨f, hf⟩ := Option.isSome_iff_exists.mp hsome
    rw [hguesses]
    exact h.bounded (Option.isSome_iff_exists.mpr ⟨f, hcounter f hf⟩)
  · intro f hf
    rw [hguesses]
    exact Nat.le_trans (h.counted f (hcounter f hf)) (Nat.add_le_add_left huncounted _)
  · intro hnext f hf
    rcases hadmitting hnext with hbefore | hallow
    · exact h.gated hbefore f (hcounter f hf)
    · exact h.count_lt_of_allow (hcounter f hf) hallow

theorem uncounted_set (hr : s.requests[i]? = some r) (phase : GuessPhase) :
    uncounted (s.requests.set i { r with phase := phase }) + (decide (r.phase = .wrong)).toNat =
      uncounted s.requests + (decide (phase = .wrong)).toNat :=
  countP_set_add hr _ _

/-- A request that moves to another phase than `allowed` adds nobody who has
passed the gate. -/
theorem GuessState.Admitting.of_put {phase : GuessPhase} (h : (s.put i r phase).Admitting)
    (hphase : phase ≠ .allowed) : s.Admitting := by
  obtain ⟨r', hmem, hallowed⟩ := h
  rcases List.mem_or_eq_of_mem_set hmem with hold | rfl
  · exact ⟨r', hold, hallowed⟩
  · exact absurd hallowed hphase

theorem GuessInv.stepAllow (h : GuessInv key s) (hr : s.requests[i]? = some r)
    (hstep : stepAllow key s i r = some next) : GuessInv key next := by
  obtain ⟨hguard, hstep⟩ := Option.ite_none_right_eq_some.mp hstep
  change some ({ s with codes := (s.codes.allow key s.now).1 }.put i r
    (if (s.codes.allow key s.now).2 then .allowed else .done)) = some next at hstep
  obtain rfl := Option.some.inj hstep
  have hcount := uncounted_set hr (if (s.codes.allow key s.now).2 then .allowed else .done)
  have hphase : (if (s.codes.allow key s.now).2 then GuessPhase.allowed else .done) ≠ .wrong := by
    split <;> decide
  simp only [hguard.2, hphase, decide_false, Bool.toNat_false, reduceCtorEq] at hcount
  refine h.of_counter (Throttle.max_allow _ _ _) rfl (Nat.le_of_eq hcount.symm)
    (fun f hf => Throttle.counter_allow hf) ?_
  intro hadmitting
  cases hallow : (s.codes.allow key s.now).2 with
  | true => exact Or.inr rfl
  | false =>
      left
      apply GuessState.Admitting.of_put hadmitting
      simp [hallow]

theorem GuessInv.stepFinish {started : Bool} (h : GuessInv key s) (hr : s.requests[i]? = some r)
    (hstep : stepFinish key s i r started = some next) : GuessInv key next := by
  unfold Admin.stepFinish at hstep
  have hcount := uncounted_set hr .done
  split_ifs at hstep with hright hlogin
  · obtain rfl := Option.some.inj hstep
    refine h.of_counter rfl rfl
      (by simpa [GuessState.put, hright] using Nat.le_of_eq hcount.symm) ?_
      fun hadmitting => Or.inl (GuessState.Admitting.of_put hadmitting (by simp))
    intro f hf
    simp only [GuessState.put, Throttle.not_counter_succeed] at hf
    cases hf
  · obtain rfl := Option.some.inj hstep
    exact h.of_counter rfl rfl (by simpa [GuessState.put, hright] using Nat.le_of_eq hcount.symm)
      (fun f hf => hf) fun hadmitting => Or.inl (hadmitting.of_put (by simp))

/-- Counting moves a wrong code into the counter, or opens the counter with it;
the failure that fills the counter locks it, with nobody past the gate. -/
theorem GuessInv.stepFail (h : GuessInv key s) (hr : s.requests[i]? = some r)
    (horderly : Orderly cred key s (.fail i)) (hstep : stepFail range key s i r = some next) :
    GuessInv key next := by
  obtain ⟨hwrong, hstep⟩ := Option.ite_none_right_eq_some.mp hstep
  obtain rfl := Option.some.inj hstep
  have hcount := uncounted_set hr .done
  simp only [hwrong, decide_true, Bool.toNat_true, reduceCtorEq, decide_false, Bool.toNat_false,
    Nat.add_zero] at hcount
  have hmax : (s.codes.fail range key s.now).max = loginMaxFails :=
    (Throttle.max_fail _ _ _ _).trans h.max_eq
  cases hcounter : s.codes.counter key s.now with
  | none =>
      have hopened : ∀ f, (s.codes.fail range key s.now).counter key s.now = some f →
          f = .opened s.now := fun _ => Throttle.counter_fail_of_not hcounter
      refine ⟨hmax, ?_, ?_, ?_, ?_⟩
      · intro _
        simp [GuessState.put, loginMaxFails]
      · intro f hf
        simp only [GuessState.put] at hf ⊢
        rw [hopened f hf]
        simp [FailCounter.opened]
      · intro f hf hfull
        rw [hopened f hf] at hfull
        exact absurd (show loginMaxFails ≤ 1 from hfull) (by decide)
      · intro _ f hf
        rw [hopened f hf]
        exact (by decide : 1 < loginMaxFails)
  | some f =>
      have hagain : (s.codes.fail range key s.now).counter key s.now =
          some (f.again s.codes.max s.now) := Throttle.counter_fail_of_stands hcounter
      rw [h.max_eq] at hagain
      have hbounded := h.bounded (by simp [hcounter])
      have hcounted := h.counted f hcounter
      have hsame : ∀ f', (s.codes.fail range key s.now).counter key s.now = some f' →
          f' = f.again loginMaxFails s.now := fun f' hf' => Option.some.inj (hf'.symm.trans hagain)
      refine ⟨hmax, ?_, ?_, ?_, ?_⟩
      · intro _
        simpa [GuessState.put, hcounter] using hbounded
      · intro f' hf'
        rw [hsame f' hf']
        simp only [GuessState.put, Option.isSome_some, if_true, FailCounter.again]
        omega
      · intro f' hf' hfull
        rw [hsame f' hf'] at hfull ⊢
        have hlate := (horderly f hcounter hfull).2
        refine ⟨s.now + loginLockout, if_pos hfull, ?_⟩
        show f.first + loginWindow < s.now + loginLockout
        have hequal : loginWindow = loginLockout := rfl
        omega
      · intro hadmitting f' hf'
        rw [hsame f' hf']
        by_contra hfull
        exact (horderly f hcounter (Nat.not_lt.mp hfull)).1
          (GuessState.Admitting.of_put hadmitting (by simp))

/-- A wrong code is evaluated with room for it in the counter: of a sign-in
because it has passed the gate, of a break-glass creation because it would. -/
theorem GuessInv.stepVerify (h : GuessInv key s) (hr : s.requests[i]? = some r)
    (horderly : Orderly cred key s (.verify i))
    (hstep : stepVerify cred key s i r = some next) : GuessInv key next := by
  obtain ⟨hmay, hstep⟩ := Option.ite_none_right_eq_some.mp hstep
  have hphase : r.phase ≠ .wrong := by
    intro hwrong
    unfold Guess.mayVerify at hmay
    cases hend : r.endpoint <;> simp [hend, hwrong] at hmay
  have hroom := horderly r hr
  cases hverify : verifyTOTP cred s.users r.user.id r.user.totpLast r.user.totpSecret r.code
    s.now with
  | mk users ok =>
    rw [hverify] at hstep hroom
    cases ok with
    | true =>
        obtain rfl := Option.some.inj hstep
        have hcount := uncounted_set hr .right
        exact h.of_counter rfl rfl
          (by simpa [GuessState.put, hphase] using Nat.le_of_eq hcount.symm)
          (fun f hf => hf) fun hadmitting =>
            Or.inl (GuessState.Admitting.of_put hadmitting (by simp))
    | false =>
        obtain rfl := Option.some.inj hstep
        have hcount := uncounted_set hr .wrong
        simp only [hphase, decide_false, Bool.toNat_false, decide_true, Bool.toNat_true,
          Nat.add_zero] at hcount
        refine ⟨h.max_eq, ?_, ?_, h.locks,
          fun hadmitting => h.gated (GuessState.Admitting.of_put hadmitting (by simp))⟩
        · intro hsome
          obtain ⟨f, hf⟩ := Option.isSome_iff_exists.mp hsome
          have hf : s.codes.counter key s.now = some f := hf
          obtain ⟨hnone, hgate⟩ := hroom f hf rfl
          have hlt : f.count < loginMaxFails := by
            unfold Guess.mayVerify at hmay
            cases hend : r.endpoint with
            | login =>
                have hallowed : r.phase = .allowed := by simpa [hend] using hmay
                exact h.gated ⟨r, List.mem_of_getElem? hr, hallowed⟩ f hf
            | breakGlass => exact h.count_lt_of_allow hf (hgate hend)
          have hcounted := h.counted f hf
          simp only [GuessState.put, hf, Option.isSome_some, if_true]
          omega
        · intro f hf
          have hf : s.codes.counter key s.now = some f := hf
          have hcounted := h.counted f hf
          simp only [GuessState.put, hf, Option.isSome_some, if_true]
          omega

theorem GuessInv.step {label : GuessStep} (h : GuessInv key s) (horderly : Orderly cred key s label)
    (hstep : guessStep range cred box address key s label = some next) : GuessInv key next := by
  cases label with
  | arrive endpoint code =>
      simp only [guessStep] at hstep
      split at hstep
      · cases hstep
      · split_ifs at hstep
        obtain rfl := Option.some.inj hstep
        refine h.of_counter rfl rfl (by simp [uncounted]) (fun f hf => hf) ?_
        rintro ⟨r, hmem, hallowed⟩
        rcases List.mem_append.mp hmem with hold | hnew
        · exact Or.inl ⟨r, hold, hallowed⟩
        · obtain rfl := List.mem_singleton.mp hnew
          cases hallowed
  | allow i =>
      obtain ⟨r, hr, hstep⟩ := Option.bind_eq_some_iff.mp hstep
      exact h.stepAllow hr hstep
  | verify i =>
      obtain ⟨r, hr, hstep⟩ := Option.bind_eq_some_iff.mp hstep
      exact h.stepVerify hr horderly hstep
  | fail i =>
      obtain ⟨r, hr, hstep⟩ := Option.bind_eq_some_iff.mp hstep
      exact h.stepFail hr horderly hstep
  | finish i started =>
      obtain ⟨r, hr, hstep⟩ := Option.bind_eq_some_iff.mp hstep
      exact h.stepFinish hr hstep
  | wait duration =>
      obtain rfl := Option.some.inj hstep
      refine h.of_counter rfl rfl (Nat.le_refl _) ?_ Or.inl
      intro f hf
      exact Throttle.counter_of_le (Nat.le_add_right _ _) hf

/-- **Guesses are bounded where the gate is enough.** In a run of orderly steps a
standing counter has seen no more wrong codes than the threshold: `codes.allow`
turns the sign-ins away that come when it is full, and no request slips past. -/
theorem guesses_bounded {labels : List GuessStep} (hquiet : s.Quiet key)
    (hmeets : RunMeets (guessStep range cred box address key) (Orderly cred key) s labels)
    (hrun : run (guessStep range cred box address key) s labels = some next) :
    next.Bounded key := by
  have hinv : GuessInv key next :=
    hmeets.invariant (fun _ _ _ h horderly hstep => h.step horderly hstep) hquiet.inv hrun
  exact hinv.bounded

end

/-! ### An account that is guessed at

An account with a second factor whose code is never the one that is given. -/

section

/-- Codes are the time step in decimal, and a hash is its password. -/
def plainCredentials : Credentials where
  caseTable := ⟨id, id⟩
  bcryptCompare hash password := hash = password
  hotpValid code step _ := code = toString step

def emptyBox : Box := ⟨∅, fun _ _ _ => none⟩

def guessedUsers : Users where
  rows := [⟨1, "admin@example.com", "correct horse", false, "JBSWY3DPEHPK3PXP", 0⟩]
  idsUnique := by decide
  emailsUnique := by decide

def guessedState : GuessState := ⟨0, guessedUsers, newLoginThrottle, [], 0⟩

/-- Break-glass creations one after the other, each with a wrong code. -/
def breakGlassGuesses (n : Nat) : List GuessStep :=
  (List.range n).flatMap fun i =>
    [.arrive .breakGlass "wrong", .verify i, .fail i, .wait second]

theorem guessedState_quiet : guessedState.Quiet "admin@example.com" := by
  refine ⟨rfl, ?_, rfl⟩
  decide

def guessedStep : GuessState → GuessStep → Option GuessState :=
  guessStep (Range.listed String FailCounter) plainCredentials emptyBox "admin@example.com"
    "admin@example.com"

/-- Two sign-ins with wrong codes at once and a break-glass creation; sign-ins
one after the other until the account is locked out; and one that comes then. -/
def guessesUntilLocked : List GuessStep :=
  [.arrive .login "wrong", .arrive .login "wrong", .allow 0, .allow 1, .verify 0, .verify 1,
    .fail 1, .arrive .breakGlass "wrong", .fail 0, .verify 2, .wait minute, .fail 2] ++
  ((List.range 7).flatMap fun i =>
    [.arrive .login "wrong", .allow (i + 3), .verify (i + 3), .fail (i + 3), .wait second]) ++
  [.arrive .login "wrong", .allow 10]

theorem guesses_bounded_untilLocked :
    ∃ next, run guessedStep guessedState guessesUntilLocked = some next ∧
      (next.codes.counter "admin@example.com" next.now).map FailCounter.count = some 10 ∧
      (next.requests[10]?).map Guess.phase = some .done ∧ next.Bounded "admin@example.com" := by
  have hrun : ((run guessedStep guessedState guessesUntilLocked).map fun s =>
      ((s.codes.counter "admin@example.com" s.now).map FailCounter.count,
        (s.requests[10]?).map Guess.phase)) = some (some 10, some .done) := by
    decide +kernel
  have hmeets : RunMeets guessedStep (Orderly plainCredentials "admin@example.com") guessedState
      guessesUntilLocked := by
    decide +kernel
  obtain ⟨next, hnext, hend⟩ := Option.map_eq_some_iff.mp hrun
  obtain ⟨hcount, hrefused⟩ := Prod.mk.inj hend
  exact ⟨next, hnext, hcount, hrefused, guesses_bounded guessedState_quiet hmeets hnext⟩

/-- Nothing stops the twelfth wrong code at the break-glass endpoint. -/
theorem break_glass_guesses_unbounded :
    ¬ ∀ (range : Range String FailCounter) (cred : Credentials) (box : Box) (address key : String)
      (s next : GuessState) (labels : List GuessStep), s.Quiet key →
      run (guessStep range cred box address key) s labels = some next → next.Bounded key := by
  intro h
  have hrun : ((run guessedStep guessedState (breakGlassGuesses 12)).map fun s =>
      ((s.codes.counter "admin@example.com" s.now).isSome, s.guesses)) = some (true, 12) := by
    decide +kernel
  obtain ⟨next, hnext, heq⟩ := Option.map_eq_some_iff.mp hrun
  obtain ⟨hstands, hguesses⟩ := Prod.mk.inj heq
  have hbound := h _ _ _ _ _ _ _ _ guessedState_quiet hnext hstands
  rw [hguesses] at hbound
  exact absurd hbound (by decide)

/-- Nor do eleven sign-ins at once meet it: each has passed the gate before the
first failure is counted. -/
example : ((run guessedStep guessedState
    ([.arrive .login "wrong", .allow 0, .verify 0] ++
      (List.range 11).flatMap (fun i => [.arrive .login "wrong", .allow (i + 1)]) ++ [.fail 0] ++
      (List.range 11).map fun i => .verify (i + 1))).map fun s => s.guesses) = some 12 := by
  decide +kernel

end

end Quicgate.Admin
