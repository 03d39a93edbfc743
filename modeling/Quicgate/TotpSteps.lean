import Quicgate.LoginThrottle

/-!
# One-time codes of one account

The requests that have a code checked by `verifyTOTP` (`internal/admin/totp.go`): sign-ins,
break-glass creations and activations of the second factor, any number of them at once.
Each of them reads its account, finds the step of the code and uses it up, and the accounts
may change between any two of these.  The log keeps what `verifyTOTP` accepted, in the order
in which the steps were recorded.

`step_opens_once` is the result.  It rests on one statement of the store: `UseTOTPCounter`
checks and writes the last step at once, and no other statement takes a step back (`Later`).
-/

namespace Quicgate.TotpSteps

open Quicgate.Admin Quicgate.GoStrings Quicgate.TransitionSystem

/-! ### Requests

A request holds the account as it read it, so the secret it checks the code with may have been
replaced since. -/

/-- What a code is for. An activation confirms the secret that setup has bound to its
session, which the account does not have yet. -/
inductive Purpose where
  | signIn
  | breakGlass
  | enable (pending : String)
deriving DecidableEq, Repr

def Purpose.secret (purpose : Purpose) (u : User) : Option String :=
  let secret := match purpose with
    | .signIn | .breakGlass => u.totpSecret
    | .enable pending => pending
  if secret = "" then none else some secret

inductive Phase where
  | read -- the account
  | found (step : Int) (now : Nat)
  | done
deriving DecidableEq, Repr

structure Request where
  user : User
  secret : String
  code : String
  phase : Phase
deriving DecidableEq

/-- A step that was accepted for an account, and the clock it was checked at. -/
structure Accepted where
  id : Int
  step : Int
  now : Nat
deriving DecidableEq, Repr

structure State where
  users : Users
  requests : List Request
  log : List Accepted

/-- Nothing is going on, and nothing is in the log. -/
def start (users : Users) : State := ⟨users, [], []⟩

def State.put (s : State) (i : Nat) (r : Request) (phase : Phase) : State :=
  { s with requests := s.requests.set i { r with phase := phase } }

/-! ### Steps

The label of a step names the request that moves, or the statement that changes the accounts in
between. -/

inductive Label where
  | read (purpose : Purpose) (email code : String)
  | totpStep (i : Nat) (now : Nat)
  | use (i : Nat) (written reported : Bool) -- whether the statement ran, and the store says so
  | setSecret (id : Int) (sealed : String)
  | setPassword (id : Int) (hash : String)
  | setEmail (id : Int) (raw : String)
  | createUser (id : Int) (email hash : String)
deriving DecidableEq, Repr

def setTOTPSecret (users : Users) (id : Int) (sealed : String) : Users :=
  users.update (fun row => if row.id = id then { row with totpSecret := sealed } else row)
    (fun row => by split <;> rfl) (fun row => by split <;> rfl)

/-- `CreateUser`, with the key that the table gives it. -/
def createUser (users : Users) (id : Int) (email hash : String) : Option Users :=
  if h : (∀ row ∈ users.rows, row.id ≠ id) ∧ ∀ row ∈ users.rows, row.email ≠ email then
    some
      { rows := ⟨id, email, hash, true, "", 0⟩ :: users.rows
        idsUnique := by
          rw [List.map_cons, List.nodup_cons]
          refine ⟨?_, users.idsUnique⟩
          intro hmem
          obtain ⟨row, hrow, heq⟩ := List.mem_map.mp hmem
          exact h.1 row hrow heq
        emailsUnique := by
          rw [List.map_cons, List.nodup_cons]
          refine ⟨?_, users.emailsUnique⟩
          intro hmem
          obtain ⟨row, hrow, heq⟩ := List.mem_map.mp hmem
          exact h.2 row hrow heq }
  else none

section Steps

variable (cred : Credentials) (box : Box)

def step (s : State) : Label → Option State
  | .read purpose email code =>
      match getUserByEmail cred.caseTable box s.users email with
      | .error _ => none
      | .ok u => (purpose.secret u).map fun secret =>
          { s with requests := s.requests ++ [⟨u, secret, code, .read⟩] }
  | .totpStep i now =>
      (s.requests[i]?).bind fun r =>
        if r.phase = .read then
          match totpStep cred r.code r.secret now with
          | none => some (s.put i r .done)
          | some found =>
              some (s.put i r (if found ≤ r.user.totpLast then .done else .found found now))
        else none
  | .use i written reported =>
      (s.requests[i]?).bind fun r =>
        match r.phase with
        | .found found now =>
            if written then
              let (users, used) := useTOTPCounter s.users r.user.id found
              some { ({ s with users := users }).put i r .done with
                log := if used && reported then s.log ++ [⟨r.user.id, found, now⟩] else s.log }
            else some (s.put i r .done) -- an error, and so a refusal
        | _ => none
  | .setSecret id sealed => some { s with users := setTOTPSecret s.users id sealed }
  | .setPassword id hash => some { s with users := setPassword s.users id hash }
  | .setEmail id raw =>
      match setUserEmail cred.caseTable s.users id raw with
      | .ok users => some { s with users := users }
      | .error _ => none
  | .createUser id email hash =>
      (createUser s.users id (toLower cred.caseTable email) hash).map fun users =>
        { s with users := users }

/-- Taken at once, the two steps of a request are `verifyTOTP`. -/
theorem verifyTOTP_eq (users : Users) (u : User) (secret code : String) (now : Nat) :
    verifyTOTP cred users u.id u.totpLast secret code now =
      match (totpStep cred code secret now).filter fun found => u.totpLast < found with
      | none => (users, false)
      | some found => useTOTPCounter users u.id found := by
  unfold verifyTOTP
  cases totpStep cred code secret now with
  | none => rfl
  | some found =>
      rw [Option.filter_some]
      by_cases hle : found ≤ u.totpLast
      · have hnot : ¬ u.totpLast < found := by omega
        simp [hle, hnot]
      · have hlt : u.totpLast < found := by omega
        simp [hle, hlt]

end Steps

/-! ### Accounts only move on

`Later` is an order on the tables: what the steps of this module do to an account only goes up. -/

/-- No account of `a` is gone in `b`, and none has forgotten a step. -/
structure Later (a b : Users) : Prop where
  kept : ∀ row ∈ a.rows, ∃ row' ∈ b.rows, row'.id = row.id
  grown : ∀ row ∈ a.rows, ∀ row' ∈ b.rows, row'.id = row.id → row.totpLast ≤ row'.totpLast

theorem Later.refl (users : Users) : Later users users where
  kept row hrow := ⟨row, hrow, rfl⟩
  grown row hrow row' hrow' hid := by
    exact Int.le_of_eq (congrArg UserRow.totpLast (Users.eq_of_id hrow' hrow hid).symm)

/-- An `UPDATE` of every row, none of which loses its id or goes back. -/
theorem Later.of_map {a b : Users} {f : UserRow → UserRow} (hrows : b.rows = a.rows.map f)
    (hid : ∀ row, (f row).id = row.id) (hlast : ∀ row, row.totpLast ≤ (f row).totpLast) :
    Later a b where
  kept row hrow := by
    refine ⟨f row, ?_, hid row⟩
    rw [hrows]
    exact List.mem_map_of_mem hrow
  grown row hrow row' hrow' heq := by
    rw [hrows] at hrow'
    obtain ⟨row₀, hrow₀, rfl⟩ := List.mem_map.mp hrow'
    have hsame : row₀ = row := by
      apply Users.eq_of_id hrow₀ hrow
      rw [← heq, hid]
    rw [← hsame]
    exact hlast row₀

theorem later_useTOTPCounter (users : Users) (id counter : Int) :
    Later users (useTOTPCounter users id counter).1 := by
  apply Later.of_map rfl
  · intro row
    split <;> rfl
  · intro row
    split
    · next h => exact Int.le_of_lt h.2
    · exact Int.le_refl _

theorem later_setTOTPSecret (users : Users) (id : Int) (sealed : String) :
    Later users (setTOTPSecret users id sealed) := by
  apply Later.of_map rfl
  · intro row
    split <;> rfl
  · intro row
    split <;> exact Int.le_refl _

theorem later_setPassword (users : Users) (id : Int) (hash : String) :
    Later users (setPassword users id hash) := by
  apply Later.of_map rfl
  · intro row
    split <;> rfl
  · intro row
    split <;> exact Int.le_refl _

theorem later_setUserEmail {table : CaseTable} {users users' : Users} {id : Int} {raw : String}
    (h : setUserEmail table users id raw = .ok users') : Later users users' := by
  unfold setUserEmail at h
  dsimp only at h
  split at h
  · split_ifs at h
    obtain rfl := Except.ok.inj h
    exact Later.refl users
  · split_ifs at h
    obtain rfl := Except.ok.inj h
    apply Later.of_map rfl
    · intro row
      split <;> rfl
    · intro row
      split <;> exact Int.le_refl _

/-- The key of a new account is nobody's, so it takes no steps over. -/
theorem later_createUser {users users' : Users} {id : Int} {email hash : String}
    (h : createUser users id email hash = some users') : Later users users' := by
  unfold createUser at h
  split_ifs at h with hfree
  obtain rfl := Option.some.inj h
  constructor
  · intro row hrow
    exact ⟨row, List.mem_cons_of_mem _ hrow, rfl⟩
  · intro row hrow row' hrow' hid
    rcases List.mem_cons.mp hrow' with rfl | hold
    · exact absurd hid.symm (hfree.1 row hrow)
    · exact Int.le_of_eq (congrArg UserRow.totpLast (Users.eq_of_id hold hrow hid).symm)

/-- A step that is used up was after every earlier one, and is recorded. -/
theorem used_useTOTPCounter {users : Users} {id counter : Int}
    (hused : (useTOTPCounter users id counter).2 = true) :
    ∃ row ∈ users.rows, row.id = id ∧ row.totpLast < counter := by
  obtain ⟨row, hrow, hset⟩ := List.any_eq_true.mp hused
  exact ⟨row, hrow, of_decide_eq_true hset⟩

theorem recorded_useTOTPCounter {users : Users} {id counter : Int} {row : UserRow}
    (hrow : row ∈ (useTOTPCounter users id counter).1.rows) (hid : row.id = id) :
    counter ≤ row.totpLast := by
  obtain ⟨row₀, hrow₀, rfl⟩ := List.mem_map.mp hrow
  split_ifs at hid ⊢ with hset
  · exact Int.le_refl _
  · by_contra hlt
    exact hset ⟨hid, Int.not_le.mp hlt⟩

/-! ### What is accepted

The steps that were accepted for an account are a strictly increasing list below the one that
its row has recorded. -/

/-- The steps accepted for an account, in the order in which they were recorded. -/
def accepted (s : State) (id : Int) : List Int :=
  (s.log.filter fun e => e.id = id).map Accepted.step

/-- The step is the clock's own or one next to it. -/
def Near (step : Int) (now : Nat) : Prop :=
  ((now / second / totpPeriod : Nat) : Int) - 1 ≤ step ∧
    step ≤ ((now / second / totpPeriod : Nat) : Int) + 1

theorem near_of_totpStep {cred : Credentials} {code secret : String} {now : Nat} {found : Int}
    (h : totpStep cred code secret now = some found) : Near found now := by
  have hmem := List.mem_of_find?_eq_some h
  simp only [List.mem_cons, List.not_mem_nil, or_false] at hmem
  constructor <;> omega

/-- Every step that was accepted is recorded in its account's row, or a later one is. -/
structure Recorded (users : Users) (log : List Accepted) : Prop where
  rows : ∀ e ∈ log, ∃ row ∈ users.rows, row.id = e.id
  last : ∀ e ∈ log, ∀ row ∈ users.rows, row.id = e.id → e.step ≤ row.totpLast

theorem Recorded.mono {a b : Users} {log : List Accepted} (h : Recorded a log)
    (hlater : Later a b) :
    Recorded b log where
  rows e he := by
    obtain ⟨row, hrow, hid⟩ := h.rows e he
    obtain ⟨row', hrow', hid'⟩ := hlater.kept row hrow
    exact ⟨row', hrow', hid'.trans hid⟩
  last e he row' hrow' hid' := by
    obtain ⟨row, hrow, hid⟩ := h.rows e he
    calc e.step ≤ row.totpLast := h.last e he row hrow hid
      _ ≤ row'.totpLast := hlater.grown row hrow row' hrow' (hid'.trans hid.symm)

structure Inv (s : State) : Prop where
  recorded : Recorded s.users s.log
  increasing : ∀ id, (accepted s id).Pairwise (· < ·)
  near : ∀ e ∈ s.log, Near e.step e.now
  found : ∀ r ∈ s.requests, ∀ n now, r.phase = .found n now → Near n now

theorem inv_start (users : Users) : Inv (start users) := by
  constructor
  · constructor <;> simp [start]
  · simp [accepted, start]
  · simp [start]
  · simp [start]

/-- Whatever moves the accounts on and accepts nothing. -/
theorem Inv.later {s : State} {users : Users} (h : Inv s) (hlater : Later s.users users) :
    Inv { s with users := users } :=
  ⟨h.recorded.mono hlater, h.increasing, h.near, h.found⟩

theorem Inv.put {s : State} (h : Inv s) (i : Nat) (r : Request) {phase : Phase}
    (hphase : ∀ n now, phase = .found n now → Near n now) : Inv (s.put i r phase) := by
  refine ⟨h.recorded, h.increasing, h.near, ?_⟩
  intro r' hr' n now hfound
  rcases List.mem_or_eq_of_mem_set hr' with hold | rfl
  · exact h.found r' hold n now hfound
  · exact hphase n now hfound

/-- An accepted step joins the log, after all the steps of its account. -/
theorem Inv.accept {s : State} {id counter : Int} {now : Nat} (h : Inv s) (hnear : Near counter now)
    (hused : (useTOTPCounter s.users id counter).2 = true) :
    Inv { s with
      users := (useTOTPCounter s.users id counter).1
      log := s.log ++ [⟨id, counter, now⟩] } := by
  obtain ⟨row, hrow, hid, hlt⟩ := used_useTOTPCounter hused
  have hlater := later_useTOTPCounter s.users id counter
  have hmoved := h.recorded.mono hlater
  constructor
  · constructor
    · intro e he
      rcases List.mem_append.mp he with hold | hnew
      · exact hmoved.rows e hold
      · obtain rfl := List.mem_singleton.mp hnew
        obtain ⟨row', hrow', hid'⟩ := hlater.kept row hrow
        exact ⟨row', hrow', hid'.trans hid⟩
    · intro e he row' hrow' hid'
      rcases List.mem_append.mp he with hold | hnew
      · exact hmoved.last e hold row' hrow' hid'
      · obtain rfl := List.mem_singleton.mp hnew
        exact recorded_useTOTPCounter hrow' hid'
  · intro other
    unfold accepted
    rw [List.filter_append, List.map_append, List.pairwise_append]
    refine ⟨h.increasing other, ?_, ?_⟩
    · apply List.Pairwise.map Accepted.step (fun _ _ hlt => hlt)
      exact List.Pairwise.filter _ (List.pairwise_singleton _ _)
    · intro a ha b hb
      obtain ⟨e, he, rfl⟩ := List.mem_map.mp ha
      obtain ⟨e', he', rfl⟩ := List.mem_map.mp hb
      obtain ⟨hmem, hother⟩ := List.mem_filter.mp he
      obtain ⟨hmem', hother'⟩ := List.mem_filter.mp he'
      obtain rfl := List.mem_singleton.mp hmem'
      -- both are of the account whose row was before the new step
      have hsame : row.id = e.id := by
        rw [hid, of_decide_eq_true hother]
        exact of_decide_eq_true hother'
      calc e.step ≤ row.totpLast := h.recorded.last e hmem row hrow hsame
        _ < counter := hlt
  · intro e he
    rcases List.mem_append.mp he with hold | hnew
    · exact h.near e hold
    · obtain rfl := List.mem_singleton.mp hnew
      exact hnear
  · exact h.found

section Runs

variable {cred : Credentials} {box : Box}

theorem Inv.step {s s' : State} {label : Label} (h : Inv s)
    (hstep : step cred box s label = some s') : Inv s' := by
  cases label with
  | read purpose email code =>
      simp only [TotpSteps.step] at hstep
      split at hstep
      · cases hstep
      · next u hu =>
        obtain ⟨secret, -, rfl⟩ := Option.map_eq_some_iff.mp hstep
        refine ⟨h.recorded, h.increasing, h.near, ?_⟩
        intro r hr n now hfound
        rcases List.mem_append.mp hr with hold | hnew
        · exact h.found r hold n now hfound
        · obtain rfl := List.mem_singleton.mp hnew
          cases hfound
  | totpStep i now =>
      obtain ⟨r, hr, hnext⟩ := Option.bind_eq_some_iff.mp hstep
      split_ifs at hnext with hread
      split at hnext
      · obtain rfl := Option.some.inj hnext
        apply h.put
        intro n now' hphase
        cases hphase
      · next found hfound =>
        obtain rfl := Option.some.inj hnext
        apply h.put
        intro n now' hphase
        split_ifs at hphase with hle
        obtain ⟨rfl, rfl⟩ := Phase.found.inj hphase
        exact near_of_totpStep hfound
  | use i written reported =>
      obtain ⟨r, hr, hnext⟩ := Option.bind_eq_some_iff.mp hstep
      have hmem : r ∈ s.requests := List.mem_of_getElem? hr
      have hdone : ∀ n now, Phase.done = .found n now → Near n now := by
        intro n now hphase
        cases hphase
      split at hnext
      · next found now hphase =>
        split_ifs at hnext with hwritten
        · obtain rfl := Option.some.inj hnext
          change Inv
            (State.mk _ _ (if ((useTOTPCounter s.users r.user.id found).2 && reported) = true
            then _ else _))
          split_ifs with hused
          · have hnear := h.found r hmem found now hphase
            exact (h.accept hnear (Bool.and_eq_true_iff.mp hused).1).put i r hdone
          · exact (h.later (later_useTOTPCounter s.users r.user.id found)).put i r hdone
        · obtain rfl := Option.some.inj hnext
          exact h.put i r hdone
      · cases hnext
  | setSecret id sealed =>
      obtain rfl := Option.some.inj hstep
      exact h.later (later_setTOTPSecret s.users id sealed)
  | setPassword id hash =>
      obtain rfl := Option.some.inj hstep
      exact h.later (later_setPassword s.users id hash)
  | setEmail id raw =>
      simp only [TotpSteps.step] at hstep
      split at hstep
      · next users husers =>
        obtain rfl := Option.some.inj hstep
        exact h.later (later_setUserEmail husers)
      · cases hstep
  | createUser id email hash =>
      obtain ⟨users, husers, rfl⟩ := Option.map_eq_some_iff.mp hstep
      exact h.later (later_createUser husers)

/-- However the requests interleave, the steps that open an account go up, none of them
opens it twice, and each is next to the clock it was checked at. -/
theorem step_opens_once {users : Users} {labels : List Label} {s : State}
    (hrun : run (step cred box) (start users) labels = some s) :
    (∀ id, (accepted s id).Pairwise (· < ·) ∧ (accepted s id).Nodup) ∧
      ∀ e ∈ s.log, Near e.step e.now := by
  have hinv : Inv s := run_preserves (fun _ _ _ h hstep => h.step hstep) (inv_start users) hrun
  constructor
  · intro id
    exact ⟨hinv.increasing id, (hinv.increasing id).imp fun hlt => Int.ne_of_lt hlt⟩
  · exact hinv.near

end Runs

/-! ### One code at three places -/

section Race

def owner : Users where
  rows := [⟨1, "admin@example.com", "hash", false, "JBSWY3DPEHPK3PXP", 0⟩]
  idsUnique := List.nodup_singleton _
  emailsUnique := List.nodup_singleton _

/-- Two sign-ins and a break-glass creation present one code at once, and the code of the next
step then confirms another secret.  A sign-in with that secret finds its step used up. -/
def raceForOneCode : List Label :=
  [.read .signIn "admin@example.com" "2", .read .breakGlass "admin@example.com" "2",
    .read .signIn "admin@example.com" "2", .totpStep 0 (60 * second), .totpStep 1 (60 * second),
    .totpStep 2 (90 * second), .use 1 true true, .use 0 true true, .use 2 true true,
    .read (.enable "KRSXG5BAONSWG4TF") "admin@example.com" "3", .totpStep 3 (70 * second),
    .use 3 true true, .setSecret 1 "KRSXG5BAONSWG4TF",
    .read .signIn "admin@example.com" "3", .totpStep 4 (100 * second)]

theorem step_opens_once_race :
    ∃ s, run (step plainCredentials emptyBox) (start owner) raceForOneCode = some s ∧
      accepted s 1 = [2, 3] ∧
      (∀ id, (accepted s id).Pairwise (· < ·) ∧ (accepted s id).Nodup) ∧
      ∀ e ∈ s.log, Near e.step e.now := by
  have hrun : ((run (step plainCredentials emptyBox) (start owner) raceForOneCode).map fun s =>
      accepted s 1) = some [2, 3] := by
    decide +kernel
  obtain ⟨s, hs, hsteps⟩ := Option.map_eq_some_iff.mp hrun
  exact ⟨s, hs, hsteps, step_opens_once hs⟩

end Race

end Quicgate.TotpSteps
