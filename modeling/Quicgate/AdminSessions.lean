import Quicgate.AdminAccounts
import Quicgate.TransitionSystem

/-!
# Changed passwords and the sessions they end

Sign-ins, password changes, address changes and restores as requests that take
their steps one at a time, in any order (`internal/admin/admin.go`).  Only a sign-in asks under
the sessions lock whether the hash it compared with is still the account's; a change of the
password or the address writes, revokes and starts its session without looking
again.

`log` keeps the statements that wrote hashes, oldest first, and `startedBy` the
request behind each session; nothing in the code reads them.  `Undisturbed` says when the
steps of a change come as close together as it needs, and `sessions_ended` what
then holds of every interleaving: an answered change has ended what the old password
opened.  `stale_change_takes_effect` is an interleaving that is disturbed.
-/

namespace Quicgate.Admin

open Quicgate.GoMaps Quicgate.GoStrings Quicgate.TransitionSystem

/-! ### Requests -/

inductive ReqKind
  /-- `handleLogin`, by the local password. -/
  | login (email password code : String)
  /-- `handlePassword`, under a session cookie. -/
  | password (cookie current new : String)
  /-- `handleEmail`, with the address that `accountEmail` made of the body's. -/
  | email (cookie address password : String)
  /-- `handleRestore`, with the users table of the snapshot. -/
  | restore (table : Users)
  deriving DecidableEq

inductive ReqPhase
  | arrived
  /-- The session is looked up. -/
  | signedIn
  /-- The account is read. -/
  | read
  /-- The password has matched the hash that was read. -/
  | compared
  /-- The second factor has been passed. -/
  | coded
  /-- The store is written. -/
  | wrote
  /-- The sessions are revoked. -/
  | revoked
  | answered
  /-- Answered before anything was done. -/
  | refused
  deriving DecidableEq

structure Req where
  kind : ReqKind
  phase : ReqPhase
  sess : Session
  user : User
  /-- How many writes of hashes there had been when the account was read. -/
  readAt : Nat
  /-- How many there had been when this request wrote. -/
  wroteAt : Nat
  deriving DecidableEq

def Req.arriving (kind : ReqKind) : Req := ⟨kind, .arrived, ⟨0, "", 0⟩, .zero, 0, 0⟩

/-- A statement that wrote hashes. -/
inductive HashWrite
  | password (id : Int) (hash : String)
  | restore (rows : List UserRow)
  deriving DecidableEq

namespace HashWrite

/-- Whether the hash of the account was written. -/
def concerns (id : Int) : HashWrite → Prop
  | .password id' _ => id' = id
  | .restore _ => True

/-- Whether the account has this hash after the statement, by it. -/
def stores (id : Int) (hash : String) : HashWrite → Prop
  | .password id' hash' => id' = id ∧ hash' = hash
  | .restore rows => ∃ row ∈ rows, row.id = id ∧ row.hash = hash

/-- Whether the statement put something else in the place of this hash. -/
def replaces (id : Int) (hash : String) (w : HashWrite) : Prop :=
  w.concerns id ∧ ¬ w.stores id hash

instance (id : Int) : (w : HashWrite) → Decidable (w.concerns id)
  | .password id' _ => inferInstanceAs (Decidable (id' = id))
  | .restore _ => isTrue trivial

instance (id : Int) (hash : String) : (w : HashWrite) → Decidable (w.stores id hash)
  | .password id' hash' => inferInstanceAs (Decidable (id' = id ∧ hash' = hash))
  | .restore rows => inferInstanceAs (Decidable (∃ row ∈ rows, row.id = id ∧ row.hash = hash))

instance (id : Int) (hash : String) (w : HashWrite) : Decidable (w.replaces id hash) :=
  inferInstanceAs (Decidable (w.concerns id ∧ ¬ w.stores id hash))

end HashWrite

structure SignState where
  users : Users
  sessions : GoMap String Session
  requests : List Req
  log : List HashWrite
  startedBy : GoMap String Nat

/-- A server that has just started: sessions live in memory. -/
def SignState.fresh (users : Users) : SignState := ⟨users, ∅, [], [], ∅⟩

/-- One step of the request with the given number, with what the environment
answers in it. -/
inductive SignStep
  | arrive (kind : ReqKind)
  | lookup (i now : Nat)
  | read (i : Nat)
  /-- `admitted`: the throttle lets the attempt through. -/
  | compare (i : Nat) (admitted : Bool)
  | code (i now : Nat) (admitted : Bool)
  /-- `hash`: what bcrypt makes of the new password; `ok`: the store answers. -/
  | write (i : Nat) (hash : String) (ok : Bool)
  | revoke (i : Nat)
  /-- `id`: what `newSessionID` returns. -/
  | start (i now : Nat) (id : Option String)

section

variable (range : Range String Session) (cred : Credentials) (box : Box)

def SignState.put (s : SignState) (i : Nat) (r : Req) : SignState :=
  { s with requests := s.requests.set i r }

def sessionOf (sessions : GoMap String Session) (cookie : String) (now : Nat) :
    GoMap String Session × Option Session :=
  match sessions.lookup cookie with
  | none => (sessions, none)
  | some sess => if sess.expires < now then (sessions.erase cookie, none) else (sessions, some sess)

def passwordChangeRequired (users : Users) (sess : Session) : Bool :=
  sess.email ≠ "api-token" && sess.userID ≠ 0 &&
    match getUserByEmail cred.caseTable box users sess.email with
    | .ok u => u.mustChange
    | .error _ => false

/-! ### The steps of a request

One definition for each place of a request: the lookup of its session, the reading of the account
(`GetUserByEmail` in `handleLogin` and in `reauthenticate`), the comparison, the second factor,
and the session it starts.  `reqStep` goes from one place to the next. -/

def stepLookup (s : SignState) (i now : Nat) (r : Req) (cookie : String) (admits : Session → Bool) :
    SignState :=
  let (sessions, found) := sessionOf s.sessions cookie now
  { s with sessions := sessions }.put i
    (match found with
      | some sess =>
          if admits sess then { r with sess := sess, phase := .signedIn }
          else { r with phase := .refused }
      | none => { r with phase := .refused })

def stepRead (s : SignState) (i : Nat) (r : Req) (email : String) : SignState :=
  s.put i (match getUserByEmail cred.caseTable box s.users email with
    | .ok u => { r with user := u, readAt := s.log.length, phase := .read }
    | .error _ => { r with phase := .refused })

/-- The comparison with the hash that was read. -/
def stepCompare (s : SignState) (i : Nat) (r : Req) (password : String) (admitted : Bool) :
    SignState :=
  s.put i { r with
    phase :=
      if admitted ∧ password.utf8ByteSize ≤ 72 ∧ cred.bcryptCompare r.user.hash password then
        .compared
      else .refused }

def stepCode (s : SignState) (i now : Nat) (r : Req) (code : String) (admitted : Bool) :
    SignState :=
  if r.user.totpSecret = "" then s.put i { r with phase := .coded }
  else if code = "" ∨ !admitted then s.put i { r with phase := .refused }
  else
    let (users, ok) := verifyTOTP cred s.users r.user.id r.user.totpLast r.user.totpSecret code now
    { s with users := users }.put i { r with phase := if ok then .coded else .refused }

/-- `startSession` for the identity, by the request with number `i`. -/
def SignState.startSession (s : SignState) (i now : Nat) (id : String) (userID : Int)
    (email : String) :
    SignState :=
  { s with
    sessions := storeSessionLocked range now id ⟨userID, email, now + sessionTTL⟩ s.sessions
    startedBy := s.startedBy.insert id i }

def stepStart (s : SignState) (i now : Nat) (r : Req) (id : Option String) (userID : Int)
    (email : String) (recheck : Bool) : Option SignState :=
  match id with
  | none => some (s.put i { r with phase := if recheck then .refused else .answered })
  | some id =>
      -- A session id has 32 bytes in hexadecimal.
      if id.length ≠ 64 then none
      else if recheck ∧ !credentialsUnchanged cred.caseTable box s.users r.user then
        some (s.put i { r with phase := .refused })
      else some ((s.startSession range i now id userID email).put i { r with phase := .answered })

def reqStep (s : SignState) (i : Nat) (r : Req) : SignStep → Option SignState
  | .arrive _ => none
  | .lookup _ now =>
      match r.kind, r.phase with
      | .password cookie _ new, .arrived =>
          some (stepLookup s i now r cookie fun _ =>
            8 ≤ new.utf8ByteSize && new.utf8ByteSize ≤ 72)
      | .email cookie _ _, .arrived =>
          some (stepLookup s i now r cookie fun sess => !passwordChangeRequired cred box
            s.users sess)
      | _, _ => none
  | .read _ =>
      match r.kind, r.phase with
      | .login email _ _, .arrived => some (stepRead cred box s i r email)
      | .password _ _ _, .signedIn => some (stepRead cred box s i r r.sess.email)
      | .email _ _ _, .signedIn => some (stepRead cred box s i r r.sess.email)
      | _, _ => none
  | .compare _ admitted =>
      match r.kind, r.phase with
      | .login _ password _, .read => some (stepCompare cred s i r password admitted)
      | .password _ current _, .read =>
          some (stepCompare cred s i r current (admitted && current ≠ ""))
      | .email _ _ password, .read =>
          some (stepCompare cred s i r password (admitted && password ≠ ""))
      | _, _ => none
  | .code _ now admitted =>
      match r.kind, r.phase with
      | .login _ _ code, .compared => some (stepCode cred s i now r code admitted)
      | _, _ => none
  | .write _ hash ok =>
      match r.kind, r.phase with
      | .password _ _ _, .compared =>
          if ok then
            some ({ s with
              users := setPassword s.users r.user.id hash
              log := s.log ++ [HashWrite.password r.user.id hash] }.put i
                { r with wroteAt := s.log.length, phase := .wrote })
          else some (s.put i { r with phase := .refused })
      | .email _ address _, .compared =>
          match ok, setUserEmail cred.caseTable s.users r.user.id address with
          | true, .ok users =>
              some ({ s with users := users }.put i
                { r with wroteAt := s.log.length, phase := .wrote })
          | _, _ => some (s.put i { r with phase := .refused })
      | .restore table, .arrived =>
          if ok then
            some ({ s with users := table, log := s.log ++ [HashWrite.restore table.rows] }.put i
                { r with wroteAt := s.log.length, phase := .wrote })
          else some (s.put i { r with phase := .refused })
      | _, _ => none
  | .revoke _ =>
      match r.kind, r.phase with
      | .restore _, .wrote =>
          some ({ s with sessions := revokeSessions (fun _ => true) "" s.sessions }.put i
            { r with phase := .answered })
      | .password _ _ _, .wrote | .email _ _ _, .wrote =>
          some ({ s with sessions := revokeSessions (sameIdentity r.sess) "" s.sessions }.put i
            { r with phase := .revoked })
      | _, _ => none
  | .start _ now id =>
      match r.kind, r.phase with
      | .login _ _ _, .coded => stepStart range cred box s i now r id r.user.id r.user.email true
      | .password _ _ _, .revoked =>
          stepStart range cred box s i now r id r.sess.userID r.sess.email false
      | .email _ address _, .revoked =>
          stepStart range cred box s i now r id r.user.id address false
      | _, _ => none

def SignStep.party : SignStep → Nat
  | .arrive _ => 0
  | .lookup i _ | .read i | .compare i _ | .code i _ _ | .write i _ _ | .revoke i
      | .start i _ _ => i

def signStep (s : SignState) (label : SignStep) : Option SignState :=
  match label with
  | .arrive kind => some { s with requests := s.requests ++ [.arriving kind] }
  | _ => s.requests[label.party]?.bind fun r => reqStep range cred box s label.party r label

/-! ### What changes promise

The promise is about the hash a session rests on: it was stored at or after every change of the
account that was answered.  A sign-in makes sure of that itself; a change has it only while
nothing comes between its own steps. -/

namespace Req

/-- A change that ends what the old password opened. -/
def endsSessions (r : Req) : Prop :=
  match r.kind with
  | .password _ _ _ | .restore _ => True
  | .login _ _ _ | .email _ _ _ => False

def isChange (r : Req) : Prop :=
  match r.kind with
  | .password _ _ _ | .email _ _ _ => True
  | .login _ _ _ | .restore _ => False

def readsAccount (r : Req) : Prop :=
  match r.kind with
  | .restore _ => False
  | .login _ _ _ | .password _ _ _ | .email _ _ _ => True

/-- The accounts whose sessions the change ends. -/
def concerns (r : Req) (id : Int) : Prop :=
  match r.kind with
  | .restore _ => True
  | _ => r.user.id = id

/-- Whether the account has been read, and not only to refuse. -/
def hasRead (r : Req) : Prop :=
  r.readsAccount ∧ r.phase ∈ [.read, .compared, .coded, .wrote, .revoked, .answered]

def hasWritten (r : Req) : Prop := r.phase ∈ [.wrote, .revoked, .answered]

def hasRevoked (r : Req) : Prop := r.phase ∈ [.revoked, .answered]

instance : (r : Req) → Decidable r.endsSessions
  | ⟨.password _ _ _, _, _, _, _, _⟩ | ⟨.restore _, _, _, _, _, _⟩ => isTrue trivial
  | ⟨.login _ _ _, _, _, _, _, _⟩ | ⟨.email _ _ _, _, _, _, _, _⟩ => isFalse id

instance : (r : Req) → Decidable r.isChange
  | ⟨.password _ _ _, _, _, _, _, _⟩ | ⟨.email _ _ _, _, _, _, _, _⟩ => isTrue trivial
  | ⟨.login _ _ _, _, _, _, _, _⟩ | ⟨.restore _, _, _, _, _, _⟩ => isFalse id

instance (r : Req) : Decidable r.hasRevoked :=
  inferInstanceAs (Decidable (r.phase ∈ [.revoked, .answered]))

end Req

def StoredSince (log : List HashWrite) (k : Nat) (id : Int) (hash : String) : Prop :=
  ∃ j w, k ≤ j ∧ log[j]? = some w ∧ w.stores id hash

/-- The session was started by the request `i`, or by one that compared with a
hash stored by one of the writes from the `k`-th on. -/
def SignState.Justified (s : SignState) (k i : Nat) (id : String) : Prop :=
  ∃ j, s.startedBy.lookup id = some j ∧
    (j = i ∨ ∃ r, s.requests[j]? = some r ∧ StoredSince s.log k r.user.id r.user.hash)

/-- Once a password change or a restore has answered, the sessions of the
account are its own or rest on a hash stored at or after it. -/
def SignState.OldSessionsEnded (s : SignState) : Prop :=
  ∀ (i : Nat) (r : Req), s.requests[i]? = some r → r.endsSessions → r.phase = .answered →
    ∀ id sess, s.sessions.lookup id = some sess → r.concerns sess.userID →
      s.Justified r.wroteAt i id

/-- No change was written on a comparison with a hash that had been replaced. -/
def SignState.ChangesCurrent (s : SignState) : Prop :=
  ∀ (i : Nat) (r : Req), s.requests[i]? = some r → r.isChange → r.hasWritten →
    ∀ (j : Nat) (w : HashWrite), r.readAt ≤ j → j < r.wroteAt → s.log[j]? = some w →
      ¬ w.replaces r.user.id r.user.hash

/-- Another change replaced the hash that `r` compared with, since `r` read it,
and has ended the account's sessions. -/
def SignState.Superseded (s : SignState) (r other : Req) : Prop :=
  other.endsSessions ∧ other.hasRevoked ∧ r.readAt ≤ other.wroteAt ∧
    ∃ w ∈ s.log[other.wroteAt]?, w.replaces r.user.id r.user.hash

instance (s : SignState) (r other : Req) : Decidable (s.Superseded r other) :=
  inferInstanceAs
    (Decidable (_ ∧ _ ∧ _ ∧ ∃ w ∈ s.log[other.wroteAt]?, w.replaces r.user.id r.user.hash))

/-- Nothing comes between the steps of a change: the account that its session's
address leads to is the session's, no hash of the account is written between its
read and its write, and no other change that replaced the hash it read has ended
the account's sessions when its own session starts. -/
def Undisturbed (cred : Credentials) (box : Box) (s : SignState) : SignStep → Prop
  | .read i => ∀ r ∈ s.requests[i]?, r.isChange →
      ∀ u ∈ (getUserByEmail cred.caseTable box s.users r.sess.email).toOption,
        u.id = r.sess.userID ∧ r.sess.userID ≠ 0
  | .write i _ _ => ∀ r ∈ s.requests[i]?, r.isChange →
      ∀ w ∈ s.log.drop r.readAt, ¬ w.concerns r.user.id
  | .start i _ _ => ∀ r ∈ s.requests[i]?, r.isChange →
      ∀ k < s.requests.length, k ≠ i → ∀ other ∈ s.requests[k]?, ¬ s.Superseded r other
  | _ => True

instance decidableUndisturbed (cred : Credentials) (box : Box) (s : SignState) :
    ∀ label, Decidable (Undisturbed cred box s label)
  | .read i => inferInstanceAs (Decidable (∀ r ∈ s.requests[i]?, r.isChange →
      ∀ u ∈ (getUserByEmail cred.caseTable box s.users r.sess.email).toOption,
        u.id = r.sess.userID ∧ r.sess.userID ≠ 0))
  | .write i _ _ => inferInstanceAs (Decidable (∀ r ∈ s.requests[i]?, r.isChange →
      ∀ w ∈ s.log.drop r.readAt, ¬ w.concerns r.user.id))
  | .start i _ _ => inferInstanceAs (Decidable (∀ r ∈ s.requests[i]?, r.isChange →
      ∀ k < s.requests.length, k ≠ i → ∀ other ∈ s.requests[k]?, ¬ s.Superseded r other))
  | .arrive _ | .lookup _ _ | .compare _ _ | .code _ _ _ | .revoke _ => isTrue trivial

/-! ### The invariant

`ReqOk` is kept of every request and `SignInv` of the whole: the log explains the rows, and every
session rests on a hash that its request has read. -/

/-- What is kept of every request. -/
structure ReqOk (log : List HashWrite) (r : Req) : Prop where
  readAt_le : r.hasRead → r.readAt ≤ log.length
  wroteAt_le : r.isChange → r.hasWritten → r.wroteAt ≤ log.length
  /-- The hash that was read was the account's: stored since each write before. -/
  readStored : r.hasRead → ∀ (k : Nat) (w : HashWrite), k < r.readAt → log[k]? = some w →
    w.concerns r.user.id → StoredSince log k r.user.id r.user.hash
  /-- A change is made by a session of the account. -/
  own : r.isChange → r.hasRead → r.user.id = r.sess.userID ∧ r.sess.userID ≠ 0
  /-- A change that ends sessions is in the log. -/
  logged : r.endsSessions → r.hasWritten → ∃ w, log[r.wroteAt]? = some w ∧
    ∀ id, r.concerns id → w.concerns id
  current : r.isChange → r.hasWritten → ∀ (j : Nat) (w : HashWrite), r.readAt ≤ j → j < r.wroteAt →
    log[j]? = some w → ¬ w.replaces r.user.id r.user.hash

structure SignInv (s : SignState) : Prop where
  requests : ∀ r ∈ s.requests, ReqOk s.log r
  /-- The hash of an account was stored since each write that concerned it. -/
  stored : ∀ (k : Nat) (w : HashWrite), s.log[k]? = some w →
    ∀ row ∈ s.users.rows, w.concerns row.id →
    StoredSince s.log k row.id row.hash
  /-- Whoever started a session is done. -/
  started : ∀ id j, s.startedBy.lookup id = some j → ∃ r, s.requests[j]? = some r ∧
    r.phase = .answered
  named : s.sessions.lookup "" = none
  ended : ∀ (i : Nat) (r : Req), s.requests[i]? = some r → r.endsSessions → r.hasRevoked →
    ∀ id sess, s.sessions.lookup id = some sess → r.concerns sess.userID →
      s.Justified r.wroteAt i id

theorem SignInv.fresh (users : Users) : SignInv (SignState.fresh users) where
  requests := by simp [SignState.fresh]
  stored := by simp [SignState.fresh]
  started := by simp [SignState.fresh]
  named := rfl
  ended := by simp [SignState.fresh]

theorem StoredSince.append {log : List HashWrite} {k : Nat} {id : Int} {hash : String}
    (h : StoredSince log k id hash) (more : List HashWrite) :
    StoredSince (log ++ more) k id hash := by
  obtain ⟨j, w, hj, hw, hstores⟩ := h
  have hlt := (List.getElem?_eq_some_iff.mp hw).1
  exact ⟨j, w, hj, by rw [List.getElem?_append_left hlt]; exact hw, hstores⟩

theorem ReqOk.append {log : List HashWrite} {r : Req} (h : ReqOk log r) (w : HashWrite) :
    ReqOk (log ++ [w]) r where
  readAt_le hread := Nat.le_trans (h.readAt_le hread) (by simp)
  wroteAt_le hchange hwritten := Nat.le_trans (h.wroteAt_le hchange hwritten) (by simp)
  readStored := by
    intro hread k w' hk hw' hconcerns
    have hlt := Nat.lt_of_lt_of_le hk (h.readAt_le hread)
    rw [List.getElem?_append_left hlt] at hw'
    exact (h.readStored hread k w' hk hw' hconcerns).append [w]
  own := h.own
  logged := by
    intro hends hwritten
    obtain ⟨w', hw', hconcerns⟩ := h.logged hends hwritten
    have hlt := (List.getElem?_eq_some_iff.mp hw').1
    exact ⟨w', by rw [List.getElem?_append_left hlt]; exact hw', hconcerns⟩
  current := by
    intro hchange hwritten j w' hj hlt hw'
    have hlt' := Nat.lt_of_lt_of_le hlt (h.wroteAt_le hchange hwritten)
    rw [List.getElem?_append_left hlt'] at hw'
    exact h.current hchange hwritten j w' hj hlt hw'

/-- A request that has neither read nor written promises nothing yet. -/
theorem ReqOk.of_early {log : List HashWrite} {r : Req}
    (hphase : r.phase ∉ [.read, .compared, .coded, .wrote, .revoked, .answered]) : ReqOk log r := by
  have hread : ¬ r.hasRead := fun h => hphase h.2
  have hwritten : ¬ r.hasWritten := by
    intro h
    apply hphase
    simp only [Req.hasWritten, List.mem_cons] at h ⊢
    tauto
  constructor <;> intros <;> contradiction

/-- Moving on without reading or writing. -/
theorem ReqOk.withPhase {log : List HashWrite} {r : Req} (h : ReqOk log r) {phase : ReqPhase}
    (hread : r.hasRead)
    (hwritten : r.isChange ∨ r.endsSessions → { r with phase := phase }.hasWritten → r.hasWritten) :
    ReqOk log { r with phase := phase } where
  readAt_le _ := h.readAt_le hread
  wroteAt_le hchange hw := h.wroteAt_le hchange (hwritten (Or.inl hchange) hw)
  readStored _ := h.readStored hread
  own hchange _ := h.own hchange hread
  logged hends hw := h.logged hends (hwritten (Or.inr hends) hw)
  current hchange hw := h.current hchange (hwritten (Or.inl hchange) hw)

variable {range} {s t : SignState} {i : Nat} {r r' : Req}

/-- A request that started a session is not the one that moves. -/
theorem SignInv.started_ne (h : SignInv s) (hr : s.requests[i]? = some r)
    (hopen : r.phase ≠ .answered)
    {id : String} {j : Nat} (hj : s.startedBy.lookup id = some j) : i ≠ j := by
  intro heq
  subst heq
  obtain ⟨r₀, hr₀, hanswered⟩ := h.started id i hj
  rw [hr] at hr₀
  obtain rfl := Option.some.inj hr₀
  exact hopen hanswered

theorem SignState.Justified.mono {k m : Nat} {id : String} (hj : s.Justified k m id) (h : SignInv s)
    (hr : s.requests[i]? = some r) (hopen : r.phase ≠ .answered)
    (hrequests : t.requests = s.requests.set i r') {more : List HashWrite}
    (hlog : t.log = s.log ++ more) (hstarted : t.startedBy.lookup id = s.startedBy.lookup id) :
    t.Justified k m id := by
  obtain ⟨j, hlookup, hwhy⟩ := hj
  refine ⟨j, hstarted.trans hlookup, ?_⟩
  rcases hwhy with rfl | ⟨r₀, hr₀, hstored⟩
  · exact Or.inl rfl
  · right
    refine ⟨r₀, ?_, ?_⟩
    · rw [hrequests, List.getElem?_set_ne (h.started_ne hr hopen hlookup)]
      exact hr₀
    · rw [hlog]
      exact hstored.append more

theorem SignInv.started_set (h : SignInv s) (hr : s.requests[i]? = some r)
    (hopen : r.phase ≠ .answered) (hrequests : t.requests = s.requests.set i r') {id : String}
    {j : Nat}
    (hj : s.startedBy.lookup id = some j) :
    ∃ r₀, t.requests[j]? = some r₀ ∧ r₀.phase = .answered := by
  obtain ⟨r₀, hr₀, hanswered⟩ := h.started id j hj
  refine ⟨r₀, ?_, hanswered⟩
  rw [hrequests, List.getElem?_set_ne (h.started_ne hr hopen hj)]
  exact hr₀

/-! ### Three kinds of steps

A step writes a hash, starts a session, or does neither.  Each of the three has one lemma, and
the steps of a request below are cases of them. -/

/-- A step that writes no hash and starts no session. -/
theorem SignInv.advance (h : SignInv s) (hr : s.requests[i]? = some r) (hopen : r.phase ≠ .answered)
    (hrequests : t.requests = s.requests.set i r') (hlog : t.log = s.log)
    (hstarted : t.startedBy = s.startedBy)
    (hrows : ∀ row ∈ t.users.rows, ∃ row₀ ∈ s.users.rows, row₀.id = row.id ∧ row₀.hash = row.hash)
    (hsessions : ∀ id sess, t.sessions.lookup id = some sess → s.sessions.lookup id = some sess)
    (hok : ReqOk s.log r')
    (hrevoked : r'.endsSessions → r'.hasRevoked → ∀ id sess, t.sessions.lookup id = some sess →
      r'.concerns sess.userID → s.Justified r'.wroteAt i id) : SignInv t where
  requests := by
    intro q hq
    rw [hrequests] at hq
    rw [hlog]
    rcases List.mem_or_eq_of_mem_set hq with hq | rfl
    · exact h.requests q hq
    · exact hok
  stored := by
    rw [hlog]
    intro k w hw row hrow hconcerns
    obtain ⟨row₀, hrow₀, hid, hhash⟩ := hrows row hrow
    rw [← hid, ← hhash]
    exact h.stored k w hw row₀ hrow₀ (hid ▸ hconcerns)
  started := by
    rw [hstarted]
    intro id j hj
    exact h.started_set hr hopen hrequests hj
  named := by
    cases hlookup : t.sessions.lookup "" with
    | none => rfl
    | some sess =>
        have hold := hsessions "" sess hlookup
        rw [h.named] at hold
        cases hold
  ended := by
    intro m q hq hends hrev id sess hlookup hconcerns
    rw [hrequests] at hq
    have hjust : s.Justified q.wroteAt m id := by
      rcases getElem?_set_eq_some hq with ⟨rfl, rfl⟩ | ⟨-, hold⟩
      · exact hrevoked hends hrev id sess hlookup hconcerns
      · exact h.ended m q hold hends hrev id sess (hsessions id sess hlookup) hconcerns
    exact SignState.Justified.mono hjust h hr hopen hrequests (m := m)
      (by rw [hlog, List.append_nil])
      (by rw [hstarted])

/-- A step that writes hashes: every row has the one that was written, or is
none of those the statement concerned. -/
theorem SignInv.write (h : SignInv s) (hr : s.requests[i]? = some r) (hopen : r.phase ≠ .answered)
    (hrequests : t.requests = s.requests.set i r') {w : HashWrite} (hlog : t.log = s.log ++ [w])
    (hstarted : t.startedBy = s.startedBy) (hsessions : t.sessions = s.sessions)
    (hrows : ∀ row ∈ t.users.rows, w.stores row.id row.hash ∨ ¬ w.concerns row.id ∧
      ∃ row₀ ∈ s.users.rows, row₀.id = row.id ∧ row₀.hash = row.hash)
    (hok : ReqOk (s.log ++ [w]) r') (hphase : ¬ r'.hasRevoked) : SignInv t where
  requests := by
    intro q hq
    rw [hrequests] at hq
    rw [hlog]
    rcases List.mem_or_eq_of_mem_set hq with hq | rfl
    · exact (h.requests q hq).append w
    · exact hok
  stored := by
    rw [hlog]
    intro k w' hw' row hrow hconcerns
    rcases hrows row hrow with hstores | ⟨hnot, row₀, hrow₀, hid, hhash⟩
    · have hk : k ≤ s.log.length := by
        have hlt := (List.getElem?_eq_some_iff.mp hw').1
        rw [List.length_append, List.length_singleton] at hlt
        omega
      exact ⟨s.log.length, w, hk, by simp, hstores⟩
    · rcases getElem?_concat_eq_some hw' with ⟨-, rfl⟩ | hold
      · exact absurd hconcerns hnot
      · rw [← hid, ← hhash]
        exact (h.stored k w' hold row₀ hrow₀ (hid ▸ hconcerns)).append [w]
  started := by
    rw [hstarted]
    intro id j hj
    exact h.started_set hr hopen hrequests hj
  named := by rw [hsessions]; exact h.named
  ended := by
    rw [hsessions]
    intro m q hq hends hrev id sess hlookup hconcerns
    rw [hrequests] at hq
    rcases getElem?_set_eq_some hq with ⟨rfl, rfl⟩ | ⟨-, hold⟩
    · exact absurd hrev hphase
    · have hjust := h.ended m q hold hends hrev id sess hlookup hconcerns
      exact hjust.mono h hr hopen hrequests hlog (by rw [hstarted])

/-- A step that starts a session.  What it rests on was stored at or after every
other change of the account that has revoked. -/
theorem SignInv.start (h : SignInv s) (hr : s.requests[i]? = some r) (hopen : r.phase ≠ .answered)
    {now : Nat} {id : String} (hid : id ≠ "") {sess : Session}
    (ht : t = { s with
      sessions := storeSessionLocked range now id sess s.sessions
      startedBy := s.startedBy.insert id i
      requests := s.requests.set i { r with phase := .answered } })
    (hok : ReqOk s.log { r with phase := .answered })
    (hrevoked : r.endsSessions → r.hasRevoked)
    (hsince : ∀ (k : Nat) (q : Req), k ≠ i → s.requests[k]? = some q → q.endsSessions →
      q.hasRevoked →
      q.concerns sess.userID → StoredSince s.log q.wroteAt r.user.id r.user.hash) : SignInv t := by
  subst ht
  have hi : i < s.requests.length := (List.getElem?_eq_some_iff.mp hr).1
  constructor
  case requests =>
    intro q hq
    rcases List.mem_or_eq_of_mem_set hq with hq | rfl
    · exact h.requests q hq
    · exact hok
  case stored => exact h.stored
  case started =>
    intro id' j hj
    by_cases heq : id' = id
    · subst heq
      rw [AList.lookup_insert] at hj
      obtain rfl := Option.some.inj hj
      exact ⟨_, List.getElem?_set_self hi, rfl⟩
    · rw [AList.lookup_insert_ne heq] at hj
      exact h.started_set hr hopen rfl hj
  case named =>
    cases hlookup : (storeSessionLocked range now id sess s.sessions).lookup "" with
    | none => rfl
    | some sess' =>
        rcases of_lookup_storeSessionLocked hlookup with ⟨heq, -⟩ | ⟨-, hold⟩
        · exact absurd heq.symm hid
        · rw [h.named] at hold
          cases hold
  case ended =>
    intro m q hq hends hrev id' sess' hlookup hconcerns
    rcases of_lookup_storeSessionLocked hlookup with ⟨rfl, rfl⟩ | ⟨hne, hold⟩
    · -- the session that starts
      refine ⟨i, AList.lookup_insert _, ?_⟩
      rcases getElem?_set_eq_some hq with ⟨rfl, -⟩ | ⟨hmi, hq⟩
      · exact Or.inl rfl
      · exact Or.inr ⟨_, List.getElem?_set_self hi, hsince m q hmi hq hends hrev hconcerns⟩
    · have hjust : s.Justified q.wroteAt m id' := by
        rcases getElem?_set_eq_some hq with ⟨rfl, rfl⟩ | ⟨-, hq⟩
        · exact h.ended m r hr hends (hrevoked hends) id' sess' hold hconcerns
        · exact h.ended m q hq hends hrev id' sess' hold hconcerns
      exact hjust.mono h hr hopen rfl (List.append_nil _).symm (AList.lookup_insert_ne hne)

/-! ### Rows after a statement

Each statement of the store is looked at once, for what becomes of a row's hash and address. -/

theorem of_mem_setPassword {users : Users} {id : Int} {hash : String} {row : UserRow}
    (h : row ∈ (setPassword users id hash).rows) :
    (id = row.id ∧ hash = row.hash) ∨ (id ≠ row.id ∧ row ∈ users.rows) := by
  obtain ⟨row₀, hrow₀, rfl⟩ := List.mem_map.mp h
  by_cases hid : row₀.id = id
  · exact Or.inl (by simp [hid])
  · exact Or.inr (by simp [hid, hrow₀, Ne.symm hid])

theorem of_mem_verifyTOTP {users : Users} {id last : Int} {secret code : String} {now : Nat}
    {row : UserRow} (h : row ∈ (verifyTOTP cred users id last secret code now).1.rows) :
    ∃ row₀ ∈ users.rows, row₀.id = row.id ∧ row₀.hash = row.hash := by
  unfold verifyTOTP at h
  split at h
  · exact ⟨row, h, rfl, rfl⟩
  · split_ifs at h
    · exact ⟨row, h, rfl, rfl⟩
    · obtain ⟨row₀, hrow₀, rfl⟩ := List.mem_map.mp h
      exact ⟨row₀, hrow₀, by split <;> exact ⟨rfl, rfl⟩⟩

theorem of_mem_setUserEmail {table : CaseTable} {users users' : Users} {id : Int} {email : String}
    (h : setUserEmail table users id email = .ok users') {row : UserRow}
    (hrow : row ∈ users'.rows) :
    ∃ row₀ ∈ users.rows, row₀.id = row.id ∧ row₀.hash = row.hash := by
  unfold setUserEmail at h
  dsimp only at h
  split at h
  · split_ifs at h
    obtain rfl := Except.ok.inj h
    exact ⟨row, hrow, rfl, rfl⟩
  · split_ifs at h
    obtain rfl := Except.ok.inj h
    obtain ⟨row₀, hrow₀, rfl⟩ := List.mem_map.mp hrow
    exact ⟨row₀, hrow₀, by split <;> exact ⟨rfl, rfl⟩⟩

theorem row_of_getUserByEmail {table : CaseTable} {users : Users} {email : String} {u : User}
    (h : getUserByEmail table box users email = .ok u) :
    ∃ row ∈ users.rows, row.id = u.id ∧ row.hash = u.hash := by
  obtain ⟨row, hrow, -, hopen⟩ := getUserByEmail_eq_ok h
  obtain ⟨hid, -, hhash, -⟩ := openRow_eq_ok hopen
  exact ⟨row, hrow, hid.symm, hhash.symm⟩

theorem row_of_credentialsUnchanged {table : CaseTable} {users : Users} {u : User}
    (h : credentialsUnchanged table box users u = true) :
    ∃ row ∈ users.rows, row.id = u.id ∧ row.hash = u.hash := by
  unfold credentialsUnchanged at h
  cases hlookup : getUserByEmail table box users u.email with
  | error e => simp [hlookup] at h
  | ok cur =>
      obtain ⟨row, hrow, hid, hhash⟩ := row_of_getUserByEmail box hlookup
      simp only [hlookup, decide_eq_true_eq] at h
      exact ⟨row, hrow, hid.trans h.1, hhash.trans h.2.1⟩

/-! ### The steps

One lemma for each step; those that write a hash and those that start a session carry the argument,
the others move a request on. -/

variable {cred box}

theorem of_lookup_sessionOf {sessions : GoMap String Session} {cookie id : String} {now : Nat}
    {sess : Session} (h : (sessionOf sessions cookie now).1.lookup id = some sess) :
    sessions.lookup id = some sess := by
  unfold sessionOf at h
  split at h
  · exact h
  · split_ifs at h
    · by_cases hid : id = cookie
      · subst hid
        rw [AList.lookup_erase] at h
        cases h
      · rwa [AList.lookup_erase_ne hid] at h
    · exact h

theorem SignInv.stepLookup (h : SignInv s) (hr : s.requests[i]? = some r)
    (hphase : r.phase = .arrived)
    {now : Nat} {cookie : String} {admits : Session → Bool}
    (ht : t = stepLookup s i now r cookie admits) : SignInv t := by
  subst ht
  refine h.advance hr (by simp [hphase]) rfl rfl rfl (fun row hrow => ⟨row, hrow, rfl, rfl⟩)
    (fun id sess hlookup => of_lookup_sessionOf hlookup) ?_ ?_
  · apply ReqOk.of_early
    split
    · split <;> simp
    · simp
  · intro _ hrev
    split at hrev
    · split at hrev <;> simp [Req.hasRevoked] at hrev
    · simp [Req.hasRevoked] at hrev

/-- Reading the account: the hash is the one stored last, and a change reads
the account of its session. -/
theorem SignInv.stepRead (h : SignInv s) (hr : s.requests[i]? = some r)
    (hopen : r.phase ≠ .answered)
    {email : String}
    (hown : r.isChange → ∀ u, getUserByEmail cred.caseTable box s.users email = .ok u →
      u.id = r.sess.userID ∧ r.sess.userID ≠ 0)
    (ht : t = stepRead cred box s i r email) : SignInv t := by
  subst ht
  unfold Admin.stepRead
  cases hlookup : getUserByEmail cred.caseTable box s.users email with
  | error e =>
      refine h.advance hr hopen rfl rfl rfl (fun row hrow => ⟨row, hrow, rfl, rfl⟩)
        (fun id sess hsess => hsess) (ReqOk.of_early (by simp)) ?_
      intro _ hrev
      simp [Req.hasRevoked] at hrev
  | ok u =>
      obtain ⟨row, hrow, hid, hhash⟩ := row_of_getUserByEmail box hlookup
      refine h.advance hr hopen rfl rfl rfl (fun row hrow => ⟨row, hrow, rfl, rfl⟩)
        (fun id sess hsess => hsess) ?_ ?_
      · constructor
        case readAt_le => exact fun _ => Nat.le_refl _
        case readStored =>
          intro _ k w _ hw hconcerns
          have hstored := h.stored k w hw row hrow (hid ▸ hconcerns)
          rwa [hid, hhash] at hstored
        case own => exact fun hchange _ => hown hchange u hlookup
        all_goals
          intro _ hwritten
          simp [Req.hasWritten] at hwritten
      · intro _ hrev
        simp [Req.hasRevoked] at hrev

/-- A step of a request that has read and not written: the password, the second
factor, or a refusal. -/
theorem SignInv.stepPhase (h : SignInv s) (hr : s.requests[i]? = some r) (hread : r.hasRead)
    (hopen : r.phase ≠ .answered) {phase : ReqPhase}
    (hphase : phase ∉ [.wrote, .revoked, .answered])
    {users : Users}
    (hrows : ∀ row ∈ users.rows, ∃ row₀ ∈ s.users.rows, row₀.id = row.id ∧ row₀.hash = row.hash)
    (ht : t = { s with users := users }.put i { r with phase := phase }) : SignInv t := by
  subst ht
  have hnot : ¬ { r with phase := phase }.hasWritten := hphase
  refine h.advance hr hopen rfl rfl rfl hrows (fun id sess hsess => hsess)
    ((h.requests r (List.mem_of_getElem? hr)).withPhase hread ?_) ?_
  · intro _ hwritten
    exact absurd hwritten hnot
  · intro _ hrev
    have hwritten : { r with phase := phase }.hasWritten := List.mem_cons_of_mem _ hrev
    exact absurd hwritten hnot

theorem SignInv.stepCompare (h : SignInv s) (hr : s.requests[i]? = some r) (hreads : r.readsAccount)
    (hphase : r.phase = .read) {password : String} {admitted : Bool}
    (ht : t = stepCompare cred s i r password admitted) : SignInv t := by
  refine h.stepPhase hr ⟨hreads, by simp [hphase]⟩ (by simp [hphase]) ?_
    (fun row hrow => ⟨row, hrow, rfl, rfl⟩) ht
  split <;> decide

theorem SignInv.stepCode (h : SignInv s) (hr : s.requests[i]? = some r) (hreads : r.readsAccount)
    (hphase : r.phase = .compared) {now : Nat} {code : String} {admitted : Bool}
    (ht : t = stepCode cred s i now r code admitted) : SignInv t := by
  have hread : r.hasRead := ⟨hreads, by simp [hphase]⟩
  have hopen : r.phase ≠ .answered := by simp [hphase]
  have hsame : ∀ row ∈ s.users.rows, ∃ row₀ ∈ s.users.rows, row₀.id = row.id ∧
    row₀.hash = row.hash :=
    fun row hrow => ⟨row, hrow, rfl, rfl⟩
  unfold Admin.stepCode at ht
  split_ifs at ht
  · exact h.stepPhase hr hread hopen (by decide) hsame ht
  · exact h.stepPhase hr hread hopen (by decide) hsame ht
  · have hphases : ∀ ok : Bool, (if ok then ReqPhase.coded else .refused) ∉
        [ReqPhase.wrote, .revoked, .answered] := by decide
    exact h.stepPhase hr hread hopen (hphases _) (fun row hrow => of_mem_verifyTOTP cred hrow) ht

theorem SignInv.refuse (h : SignInv s) (hr : s.requests[i]? = some r) (hopen : r.phase ≠ .answered)
    (ht : t = s.put i { r with phase := .refused }) : SignInv t := by
  subst ht
  refine h.advance hr hopen rfl rfl rfl (fun row hrow => ⟨row, hrow, rfl, rfl⟩)
    (fun id sess hsess => hsess) (ReqOk.of_early (by simp)) ?_
  intro _ hrev
  simp [Req.hasRevoked] at hrev

/-! ### Writing and revoking

A write puts a hash into the log; from then on sessions that rest on older hashes of the
account have to go, and the revocation ends them. -/

/-- A password is written for a comparison that still holds. -/
theorem SignInv.writePassword (h : SignInv s) (hr : s.requests[i]? = some r)
    {cookie old new : String} (hkind : r.kind = .password cookie old new)
    (hphase : r.phase = .compared)
    (hcurrent : ∀ (j : Nat) (w : HashWrite), r.readAt ≤ j → s.log[j]? = some w →
      ¬ w.replaces r.user.id r.user.hash) {hash : String}
    (ht : t = { s with
      users := setPassword s.users r.user.id hash
      log := s.log ++ [HashWrite.password r.user.id hash] }.put i
        { r with wroteAt := s.log.length, phase := .wrote }) : SignInv t := by
  subst ht
  have hread : r.hasRead := by simp [Req.hasRead, Req.readsAccount, hkind, hphase]
  have hok := h.requests r (List.mem_of_getElem? hr)
  refine h.write hr (by simp [hphase]) rfl rfl rfl rfl ?_ ?_ (by simp [Req.hasRevoked])
  · intro row hrow
    rcases of_mem_setPassword hrow with hnew | ⟨hne, hold⟩
    · exact Or.inl hnew
    · exact Or.inr ⟨hne, row, hold, rfl, rfl⟩
  · constructor
    case readAt_le =>
      intro _
      exact Nat.le_trans (hok.readAt_le hread) (by simp)
    case wroteAt_le => simp
    case readStored => exact fun _ => (hok.append _).readStored hread
    case own => exact fun hchange _ => hok.own hchange hread
    case logged =>
      intro _ _
      refine ⟨.password r.user.id hash, by simp, ?_⟩
      intro id hconcerns
      simpa [Req.concerns, hkind, HashWrite.concerns] using hconcerns
    case current =>
      intro _ _ j w hj hlt hw
      rw [List.getElem?_append_left hlt] at hw
      exact hcurrent j w hj hw

/-- An address is written for a comparison that still holds. -/
theorem SignInv.writeEmail (h : SignInv s) (hr : s.requests[i]? = some r)
    {cookie address password : String} (hkind : r.kind = .email cookie address password)
    (hphase : r.phase = .compared)
    (hcurrent : ∀ (j : Nat) (w : HashWrite), r.readAt ≤ j → s.log[j]? = some w →
      ¬ w.replaces r.user.id r.user.hash) {users : Users}
    (hwrite : setUserEmail cred.caseTable s.users r.user.id address = .ok users)
    (ht : t = { s with users := users }.put i { r with wroteAt := s.log.length, phase := .wrote }) :
    SignInv t := by
  subst ht
  have hread : r.hasRead := by simp [Req.hasRead, Req.readsAccount, hkind, hphase]
  have hok := h.requests r (List.mem_of_getElem? hr)
  refine h.advance hr (by simp [hphase]) rfl rfl rfl
    (fun row hrow => of_mem_setUserEmail hwrite hrow)
    (fun id sess hsess => hsess) ?_ ?_
  · constructor
    case readAt_le => exact fun _ => hok.readAt_le hread
    case wroteAt_le => exact fun _ _ => Nat.le_refl _
    case readStored => exact fun _ => hok.readStored hread
    case own => exact fun hchange _ => hok.own hchange hread
    case logged =>
      intro hends
      simp [Req.endsSessions, hkind] at hends
    case current => exact fun _ _ j w hj _ hw => hcurrent j w hj hw
  · intro hends
    simp [Req.endsSessions, hkind] at hends

/-- A restore stores every hash of its table. -/
theorem SignInv.writeRestore (h : SignInv s) (hr : s.requests[i]? = some r) {table : Users}
    (hkind : r.kind = .restore table) (hphase : r.phase = .arrived)
    (ht : t = { s with users := table, log := s.log ++ [HashWrite.restore table.rows] }.put i
      { r with wroteAt := s.log.length, phase := .wrote }) : SignInv t := by
  subst ht
  refine h.write hr (by simp [hphase]) rfl rfl rfl rfl ?_ ?_ (by simp [Req.hasRevoked])
  · intro row hrow
    exact Or.inl ⟨row, hrow, rfl, rfl⟩
  · constructor
    case logged =>
      intro _ _
      exact ⟨.restore table.rows, by simp, fun _ _ => trivial⟩
    all_goals
      intro hneeds
      simp [Req.isChange, Req.hasRead, Req.readsAccount, hkind] at hneeds

/-- A password or address change revokes the sessions of its account. -/
theorem SignInv.revokeChange (h : SignInv s) (hr : s.requests[i]? = some r) (hchange : r.isChange)
    (hphase : r.phase = .wrote)
    (ht : t = { s with sessions := revokeSessions (sameIdentity r.sess) "" s.sessions }.put i
      { r with phase := .revoked }) : SignInv t := by
  subst ht
  have hreads : r.readsAccount := by
    unfold Req.isChange at hchange
    unfold Req.readsAccount
    cases hkind : r.kind <;> simp [hkind] at hchange ⊢
  have hread : r.hasRead := ⟨hreads, by simp [hphase]⟩
  have hok := h.requests r (List.mem_of_getElem? hr)
  obtain ⟨hown, hne⟩ := hok.own hchange hread
  refine h.advance hr (by simp [hphase]) rfl rfl rfl (fun row hrow => ⟨row, hrow, rfl, rfl⟩)
    (fun id sess hsess => (of_lookup_revokeSessions hsess).1)
    (hok.withPhase hread (fun _ _ => by simp [Req.hasWritten, hphase])) ?_
  intro _ _ id sess hsess hconcerns
  obtain ⟨hlookup, hkept⟩ := of_lookup_revokeSessions hsess
  have hid : id ≠ "" := by
    rintro rfl
    rw [h.named] at hlookup
    cases hlookup
  have hsame : r.user.id = sess.userID := by
    unfold Req.isChange at hchange
    unfold Req.concerns at hconcerns
    cases hkind : r.kind <;> simp [hkind] at hchange hconcerns <;> exact hconcerns
  have hnot := hkept hid
  rw [sameIdentity, if_pos hne, decide_eq_false_iff_not] at hnot
  exact absurd (hsame.symm.trans hown) hnot

/-- A restore revokes every session. -/
theorem SignInv.revokeAll (h : SignInv s) (hr : s.requests[i]? = some r) {table : Users}
    (hkind : r.kind = .restore table) (hphase : r.phase = .wrote)
    (ht : t = { s with sessions := revokeSessions (fun _ => true) "" s.sessions }.put i
      { r with phase := .answered }) : SignInv t := by
  subst ht
  have hok := h.requests r (List.mem_of_getElem? hr)
  have hwritten : r.hasWritten := by simp [Req.hasWritten, hphase]
  refine h.advance hr (by simp [hphase]) rfl rfl rfl (fun row hrow => ⟨row, hrow, rfl, rfl⟩)
    (fun id sess hsess => (of_lookup_revokeSessions hsess).1) ?_ ?_
  · constructor
    case logged => exact fun hends _ => hok.logged hends hwritten
    all_goals
      intro hneeds
      simp [Req.isChange, Req.hasRead, Req.readsAccount, hkind] at hneeds
  · intro _ _ id sess hsess _
    obtain ⟨hlookup, hkept⟩ := of_lookup_revokeSessions hsess
    have hid : id ≠ "" := by
      rintro rfl
      rw [h.named] at hlookup
      cases hlookup
    exact absurd (hkept hid) (by decide)

/-! ### What a new session rests on

A sign-in has looked again, so its hash is the account's now.  A change has not, and relies on
nothing having come between. -/

/-- What a sign-in rests on was stored at or after every change there has been:
it is the account's hash now. -/
theorem SignInv.since_of_unchanged (h : SignInv s)
    (hunchanged : credentialsUnchanged cred.caseTable box s.users r.user = true) {k : Nat} {q : Req}
    (hq : s.requests[k]? = some q) (hends : q.endsSessions) (hrev : q.hasRevoked)
    (hconcerns : q.concerns r.user.id) : StoredSince s.log q.wroteAt r.user.id r.user.hash := by
  obtain ⟨row, hrow, hid, hhash⟩ := row_of_credentialsUnchanged box hunchanged
  have hwritten : q.hasWritten := List.mem_cons_of_mem _ hrev
  obtain ⟨w, hw, hall⟩ := (h.requests q (List.mem_of_getElem? hq)).logged hends hwritten
  have hstored := h.stored q.wroteAt w hw row hrow (hid ▸ hall _ hconcerns)
  rwa [hid, hhash] at hstored

/-- What a change rests on was stored at or after every other change that has
revoked, when none of these replaced it since it was read. -/
theorem SignInv.since_of_undisturbed (h : SignInv s) (hr : s.requests[i]? = some r)
    (hread : r.hasRead)
    {k : Nat} {q : Req} (hq : s.requests[k]? = some q) (hends : q.endsSessions)
    (hrev : q.hasRevoked)
    (hconcerns : q.concerns r.user.id)
    (hkept : r.readAt ≤ q.wroteAt → ∀ w, s.log[q.wroteAt]? = some w →
      ¬ w.replaces r.user.id r.user.hash) :
    StoredSince s.log q.wroteAt r.user.id r.user.hash := by
  have hwritten : q.hasWritten := List.mem_cons_of_mem _ hrev
  obtain ⟨w, hw, hall⟩ := (h.requests q (List.mem_of_getElem? hq)).logged hends hwritten
  by_cases hlt : q.wroteAt < r.readAt
  · exact (h.requests r (List.mem_of_getElem? hr)).readStored hread q.wroteAt w hlt hw
      (hall _ hconcerns)
  · have hnot := hkept (Nat.le_of_not_lt hlt) w hw
    have hstores : w.stores r.user.id r.user.hash := by
      by_contra hno
      exact hnot ⟨hall _ hconcerns, hno⟩
    exact ⟨q.wroteAt, w, Nat.le_refl _, hw, hstores⟩

/-- The last step of a sign-in or a change, with a new session or without. -/
theorem SignInv.stepStart (h : SignInv s) (hr : s.requests[i]? = some r) (hread : r.hasRead)
    (hopen : r.phase ≠ .answered) {now : Nat} {id : Option String} {userID : Int} {email : String}
    {recheck : Bool} (hwritten : r.isChange ∨ r.endsSessions → r.hasWritten)
    (hrevoked : r.endsSessions → r.hasRevoked)
    (hsince : (recheck = true → credentialsUnchanged cred.caseTable box s.users r.user = true) →
      ∀ (k : Nat) (q : Req), k ≠ i → s.requests[k]? = some q → q.endsSessions → q.hasRevoked →
        q.concerns userID → StoredSince s.log q.wroteAt r.user.id r.user.hash)
    (hstep : stepStart range cred box s i now r id userID email recheck = some t) : SignInv t := by
  have hok := h.requests r (List.mem_of_getElem? hr)
  have hanswered : ReqOk s.log { r with phase := .answered } :=
    hok.withPhase hread fun hneeds _ => hwritten hneeds
  unfold Admin.stepStart at hstep
  cases id with
  | none =>
      have ht := (Option.some.inj hstep).symm
      cases recheck with
      | true => exact h.refuse hr hopen ht
      | false =>
          subst ht
          refine h.advance hr hopen rfl rfl rfl (fun row hrow => ⟨row, hrow, rfl, rfl⟩)
            (fun id sess hsess => hsess) hanswered ?_
          intro hends _ id sess hsess hconcerns
          exact h.ended i r hr hends (hrevoked hends) id sess hsess hconcerns
  | some id =>
      simp only [ne_eq, Bool.not_eq_eq_eq_not, Bool.not_true] at hstep
      split_ifs at hstep with hlength hchanged
      · exact h.refuse hr hopen (Option.some.inj hstep).symm
      · have hid : id ≠ "" := by
          rintro rfl
          exact absurd hlength (by decide)
        refine h.start hr hopen hid (Option.some.inj hstep).symm hanswered hrevoked (hsince ?_)
        intro hrecheck
        by_contra hno
        exact hchanged ⟨hrecheck, (Bool.not_eq_true _).mp hno⟩

/-! ### Every step, every run -/

theorem SignInv.arrive (h : SignInv s) (kind : ReqKind)
    (ht : t = { s with requests := s.requests ++ [.arriving kind] }) : SignInv t := by
  subst ht
  constructor
  case requests =>
    intro r hr
    rcases List.mem_append.mp hr with hr | hr
    · exact h.requests r hr
    · obtain rfl := List.mem_singleton.mp hr
      exact ReqOk.of_early (by simp [Req.arriving])
  case stored => exact h.stored
  case started =>
    intro id j hj
    obtain ⟨r, hr, hanswered⟩ := h.started id j hj
    have hlt := (List.getElem?_eq_some_iff.mp hr).1
    exact ⟨r, by rw [List.getElem?_append_left hlt]; exact hr, hanswered⟩
  case named => exact h.named
  case ended =>
    intro i r hr hends hrev id sess hsess hconcerns
    rcases getElem?_concat_eq_some hr with ⟨-, rfl⟩ | hold
    · simp [Req.hasRevoked, Req.arriving] at hrev
    · obtain ⟨j, hj, hwhy⟩ := h.ended i r hold hends hrev id sess hsess hconcerns
      refine ⟨j, hj, ?_⟩
      rcases hwhy with heq | ⟨q, hq, hstored⟩
      · exact Or.inl heq
      · have hlt := (List.getElem?_eq_some_iff.mp hq).1
        exact Or.inr ⟨q, by rw [List.getElem?_append_left hlt]; exact hq, hstored⟩

theorem SignInv.reqStep {label : SignStep} (h : SignInv s) (hr : s.requests[label.party]? = some r)
    (hundisturbed : Undisturbed cred box s label)
    (hstep : reqStep range cred box s label.party r label = some t) : SignInv t := by
  cases label with
  | arrive kind => cases hstep
  | lookup i now =>
      simp only [Admin.reqStep] at hstep
      split at hstep
      · exact h.stepLookup hr ‹_› (Option.some.inj hstep).symm
      · exact h.stepLookup hr ‹_› (Option.some.inj hstep).symm
      · cases hstep
  | read i =>
      have hown : r.isChange → ∀ u, getUserByEmail cred.caseTable box s.users r.sess.email = .ok u →
          u.id = r.sess.userID ∧ r.sess.userID ≠ 0 := by
        intro hchange u hu
        exact hundisturbed r hr hchange u (by rw [hu]; rfl)
      simp only [Admin.reqStep] at hstep
      split at hstep
      · rename_i hkind hphase
        refine h.stepRead hr (by simp [hphase]) ?_ (Option.some.inj hstep).symm
        intro hchange
        simp [Req.isChange, hkind] at hchange
      · rename_i hkind hphase
        exact h.stepRead hr (by simp [hphase]) hown (Option.some.inj hstep).symm
      · rename_i hkind hphase
        exact h.stepRead hr (by simp [hphase]) hown (Option.some.inj hstep).symm
      · cases hstep
  | compare i admitted =>
      simp only [Admin.reqStep] at hstep
      split at hstep
      · rename_i hkind hphase
        exact h.stepCompare hr (by simp [Req.readsAccount, hkind]) hphase
          (Option.some.inj hstep).symm
      · rename_i hkind hphase
        exact h.stepCompare hr (by simp [Req.readsAccount, hkind]) hphase
          (Option.some.inj hstep).symm
      · rename_i hkind hphase
        exact h.stepCompare hr (by simp [Req.readsAccount, hkind]) hphase
          (Option.some.inj hstep).symm
      · cases hstep
  | code i now admitted =>
      simp only [Admin.reqStep] at hstep
      split at hstep
      · rename_i hkind hphase
        exact h.stepCode hr (by simp [Req.readsAccount, hkind]) hphase (Option.some.inj hstep).symm
      · cases hstep
  | write i hash ok =>
      have hcurrent : r.isChange → ∀ (j : Nat) (w : HashWrite), r.readAt ≤ j → s.log[j]? = some w →
          ¬ w.replaces r.user.id r.user.hash := by
        intro hchange j w hj hw hreplaces
        have hmem : w ∈ s.log.drop r.readAt := by
          apply List.mem_of_getElem? (i := j - r.readAt)
          rw [List.getElem?_drop, Nat.add_sub_cancel' hj]
          exact hw
        exact hundisturbed r hr hchange w hmem hreplaces.1
      simp only [Admin.reqStep] at hstep
      split at hstep
      · rename_i hkind hphase
        split_ifs at hstep
        · exact h.writePassword hr hkind hphase (hcurrent (by simp [Req.isChange, hkind]))
            (Option.some.inj hstep).symm
        · exact h.refuse hr (by simp [hphase]) (Option.some.inj hstep).symm
      · rename_i hkind hphase
        split at hstep
        · rename_i hwrite
          exact h.writeEmail hr hkind hphase (hcurrent (by simp [Req.isChange, hkind])) hwrite
            (Option.some.inj hstep).symm
        · exact h.refuse hr (by simp [hphase]) (Option.some.inj hstep).symm
      · rename_i hkind hphase
        split_ifs at hstep
        · exact h.writeRestore hr hkind hphase (Option.some.inj hstep).symm
        · exact h.refuse hr (by simp [hphase]) (Option.some.inj hstep).symm
      · cases hstep
  | revoke i =>
      simp only [Admin.reqStep] at hstep
      split at hstep
      · rename_i hkind hphase
        exact h.revokeAll hr hkind hphase (Option.some.inj hstep).symm
      · rename_i hkind hphase
        exact h.revokeChange hr (by simp [Req.isChange, hkind]) hphase (Option.some.inj hstep).symm
      · rename_i hkind hphase
        exact h.revokeChange hr (by simp [Req.isChange, hkind]) hphase (Option.some.inj hstep).symm
      · cases hstep
  | start i now id =>
      have hkept : r.isChange → ∀ (k : Nat) (other : Req), k ≠ i → s.requests[k]? = some other →
          other.endsSessions → other.hasRevoked → r.readAt ≤ other.wroteAt →
          ∀ w, s.log[other.wroteAt]? = some w → ¬ w.replaces r.user.id r.user.hash := by
        intro hchange k other hne hother hends hrev hle w hw hreplaces
        exact hundisturbed r hr hchange k (List.getElem?_eq_some_iff.mp hother).1 hne other hother
          ⟨hends, hrev, hle, w, hw, hreplaces⟩
      have hok := h.requests r (List.mem_of_getElem? hr)
      simp only [Admin.reqStep] at hstep
      split at hstep
      · rename_i hkind hphase
        have hread : r.hasRead := ⟨by simp [Req.readsAccount, hkind], by simp [hphase]⟩
        refine h.stepStart hr hread (by simp [hphase]) ?_ ?_ ?_ hstep
        · intro hneeds
          simp [Req.isChange, Req.endsSessions, hkind] at hneeds
        · intro hends
          simp [Req.endsSessions, hkind] at hends
        · intro hunchanged k q _ hq hends hrev hconcerns
          exact h.since_of_unchanged (hunchanged rfl) hq hends hrev hconcerns
      · rename_i hkind hphase
        have hchange : r.isChange := by simp [Req.isChange, hkind]
        have hread : r.hasRead := ⟨by simp [Req.readsAccount, hkind], by simp [hphase]⟩
        refine h.stepStart hr hread (by simp [hphase]) (fun _ => by simp [Req.hasWritten, hphase])
          (fun _ => by simp [Req.hasRevoked, hphase]) ?_ hstep
        intro _ k q hne hq hends hrev hconcerns
        rw [← (hok.own hchange hread).1] at hconcerns
        exact h.since_of_undisturbed hr hread hq hends hrev hconcerns
          (hkept hchange k q hne hq hends hrev)
      · rename_i hkind hphase
        have hchange : r.isChange := by simp [Req.isChange, hkind]
        have hread : r.hasRead := ⟨by simp [Req.readsAccount, hkind], by simp [hphase]⟩
        refine h.stepStart hr hread (by simp [hphase]) (fun _ => by simp [Req.hasWritten, hphase])
          (fun _ => by simp [Req.hasRevoked, hphase]) ?_ hstep
        intro _ k q hne hq hends hrev hconcerns
        exact h.since_of_undisturbed hr hread hq hends hrev hconcerns
          (hkept hchange k q hne hq hends hrev)
      · cases hstep

theorem SignInv.step {label : SignStep} (h : SignInv s)
    (hundisturbed : Undisturbed cred box s label)
    (hstep : signStep range cred box s label = some t) : SignInv t := by
  unfold signStep at hstep
  split at hstep
  · exact h.arrive _ (Option.some.inj hstep).symm
  · obtain ⟨r, hr, hstep⟩ := Option.bind_eq_some_iff.mp hstep
    exact h.reqStep hr hundisturbed hstep

/-- In every interleaving that leaves the changes undisturbed, an answered
password change or restore has ended what the old password opened, and no change
was written on a hash that had been replaced. -/
theorem sessions_ended {users : Users} {labels : List SignStep}
    (hmeets : RunMeets (signStep range cred box) (Undisturbed cred box) (.fresh users) labels)
    (hrun : run (signStep range cred box) (.fresh users) labels = some t) :
    t.OldSessionsEnded ∧ t.ChangesCurrent := by
  have hinv : SignInv t :=
    hmeets.invariant (fun _ _ _ h hundisturbed hstep => h.step hundisturbed hstep)
      (SignInv.fresh users) hrun
  constructor
  · intro i r hr hends hanswered
    exact hinv.ended i r hr hends (by simp [Req.hasRevoked, hanswered])
  · intro i r hr hchange hwritten
    exact (hinv.requests r (List.mem_of_getElem? hr)).current hchange hwritten

end

/-! ### Two changes at once -/

section

/-- A hash is its password; no second factor is set. -/
def openCredentials : Credentials where
  caseTable := ⟨id, id⟩
  bcryptCompare hash password := hash = password
  hotpValid _ _ _ := false

def keylessBox : Box := ⟨∅, fun _ _ _ => none⟩

def oneAdmin : Users where
  rows := [⟨1, "admin@example.com", "leaked", false, "", 0⟩]
  idsUnique := by decide
  emailsUnique := by decide

def sessionName (c : Char) : String := String.ofList (List.replicate 64 c)

/-- Two sign-ins with the leaked password, the thief's and the owner's. -/
def signInTwice : List SignStep :=
  [.arrive (.login "admin@example.com" "leaked" ""), .read 0, .compare 0 true, .code 0 0 true,
    .start 0 0 (some (sessionName 'a')),
    .arrive (.login "admin@example.com" "leaked" ""), .read 1, .compare 1 true, .code 1 0 true,
    .start 1 0 (some (sessionName 'b'))]

/-- The owner's change of the password, from beginning to end. -/
def ownerChanges (i : Nat) : List SignStep :=
  [.lookup i 0, .read i, .compare i true, .write i "fresh and long" true, .revoke i,
    .start i 0 (some (sessionName 'c'))]

theorem sessions_ended_alone :
    ∃ t, run (signStep (.listed String Session) openCredentials keylessBox) (.fresh oneAdmin)
        (signInTwice ++ .arrive (.password (sessionName 'b') "leaked" "fresh and long") ::
          ownerChanges 2) = some t ∧
      t.sessions.pairs = [(sessionName 'c', ⟨1, "admin@example.com", sessionTTL⟩)] ∧
      t.OldSessionsEnded ∧ t.ChangesCurrent := by
  have hrun : ((run (signStep (.listed String Session) openCredentials keylessBox) (.fresh oneAdmin)
      (signInTwice ++ .arrive (.password (sessionName 'b') "leaked" "fresh and long") ::
        ownerChanges 2)).map fun t => t.sessions.pairs) =
      some [(sessionName 'c', ⟨1, "admin@example.com", sessionTTL⟩)] := by
    decide +kernel
  obtain ⟨t, ht, hsessions⟩ := Option.map_eq_some_iff.mp hrun
  have hmeets : RunMeets (signStep (.listed String Session) openCredentials keylessBox)
      (Undisturbed openCredentials keylessBox) (.fresh oneAdmin)
      (signInTwice ++ .arrive (.password (sessionName 'b') "leaked" "fresh and long") ::
        ownerChanges 2) := by
    decide +kernel
  exact ⟨t, ht, hsessions, sessions_ended hmeets ht⟩

/-- The thief's change has compared with the leaked password when the owner's
goes through from beginning to end, and is written after it. -/
def staleChange : List SignStep :=
  signInTwice ++
    [.arrive (.password (sessionName 'a') "leaked" "the thief's own"), .lookup 2 0, .read 2,
      .compare 2 true, .arrive (.password (sessionName 'b') "leaked" "fresh and long")] ++
    ownerChanges 3 ++
      [.write 2 "the thief's own" true, .revoke 2, .start 2 0 (some (sessionName 'd'))]

/-- The owner's change is answered, and the thief has the account: a session
that rests on the leaked password, and a password of his own. -/
theorem stale_change_takes_effect :
    ∃ t, run (signStep (.listed String Session) openCredentials keylessBox) (.fresh oneAdmin)
      staleChange = some t ∧
      ¬ t.OldSessionsEnded ∧ ¬ t.ChangesCurrent := by
  have hrun : ((run (signStep (.listed String Session) openCredentials keylessBox) (.fresh oneAdmin)
    staleChange).map fun t =>
      (t.requests.drop 2, t.log, t.sessions.lookup (sessionName 'd'),
        t.startedBy.lookup (sessionName 'd'))) =
      some ([⟨.password (sessionName 'a') "leaked" "the thief's own", .answered,
            ⟨1, "admin@example.com", sessionTTL⟩, ⟨1, "admin@example.com", "leaked", false, "",
              0⟩, 0, 1⟩,
          ⟨.password (sessionName 'b') "leaked" "fresh and long", .answered,
            ⟨1, "admin@example.com", sessionTTL⟩, ⟨1, "admin@example.com", "leaked", false, "",
              0⟩, 0, 0⟩],
        [.password 1 "fresh and long", .password 1 "the thief's own"],
        some ⟨1, "admin@example.com", sessionTTL⟩, some 2) := by
    decide +kernel
  obtain ⟨t, ht, heq⟩ := Option.map_eq_some_iff.mp hrun
  simp only [Prod.mk.injEq] at heq
  obtain ⟨hrequests, hlog, hsession, hstarted⟩ := heq
  have hthief : (t.requests.drop 2)[0]? = t.requests[2 + 0]? := List.getElem?_drop
  have howner : (t.requests.drop 2)[1]? = t.requests[2 + 1]? := List.getElem?_drop
  rw [hrequests] at hthief howner
  refine ⟨t, ht, ?_, ?_⟩
  · intro hended
    obtain ⟨j, hj, hwhy⟩ := hended 3 _ howner.symm trivial rfl _ _ hsession rfl
    rw [hstarted] at hj
    obtain rfl := Option.some.inj hj
    rcases hwhy with heq | ⟨r, hr, k, w, -, hw, hstores⟩
    · exact absurd heq (by decide)
    · rw [← hthief] at hr
      obtain rfl := Option.some.inj hr
      have hnone : ∀ w ∈ [HashWrite.password 1 "fresh and long", .password 1 "the thief's own"],
          ¬ w.stores 1 "leaked" := by decide
      exact hnone w (hlog ▸ List.mem_of_getElem? hw) hstores
  · intro hcurrent
    have hw : t.log[0]? = some (.password 1 "fresh and long") := by rw [hlog]; rfl
    have hnot := hcurrent 2 _ hthief.symm trivial (by simp [Req.hasWritten]) 0 _
      (Nat.le_refl _) (by decide) hw
    exact hnot (by decide)

end

end Quicgate.Admin
