import Quicgate.GoMaps
import Quicgate.GoStrings

/-!
# Administrator accounts, their second factor and their sessions

The rows of the `users` table and the statements the store runs on them, the
opening of a sealed column, the check of a second-factor code, and the table of
sessions that lives in memory.  Instants are nanoseconds.

What is not in the repository comes in through `Credentials`: bcrypt, the
one-time codes and the part of the case mapping outside ASCII.

The statements are those of `internal/store/store.go`, the checks and the session
table those of `internal/admin`.  `AdminLogin`, `AdminSessions`, `TotpSteps` and
`AdminSso` run them, each with what may come between two of them.
-/

namespace Quicgate.Admin

open Quicgate.GoMaps Quicgate.GoStrings

def second : Nat := 1000000000

def minute : Nat := 60 * second

/-- `bcrypt.CompareHashAndPassword`, `hotp.ValidateCustom` with the options
that `totpStep` gives it, and `unicode.ToLower`. -/
structure Credentials where
  caseTable : CaseTable
  bcryptCompare : (hash password : String) → Bool
  hotpValid : (code : String) → (step : Int) → (secret : String) → Bool

/-! ### Sealed columns

Which key opens a sealed value, and whether one does, is the box's; a value without the prefix is
not sealed and is returned as it is. -/

/-- The keys of `seal.Box`, and what decoding and opening a sealed body with one
of them gives.  A box that is `nil` opens what an empty one does. -/
structure Box where
  keys : GoMap String String
  aeadOpen : (key body aad : String) → Option String

def sealPrefix : String := "qgs1."

def isSealed (value : String) : Bool := sealPrefix.toList.isPrefixOf value.toList

/-- `Box.Open`. -/
def Box.unseal (box : Box) (value aad : String) : Option String :=
  if isSealed value then
    match cut '.' (value.toList.drop sealPrefix.length) with
    | (id, body, true) =>
        (box.keys.lookup (String.ofList id)).bind fun key =>
          box.aeadOpen key (String.ofList body) aad
    | (_, _, false) => none
  else some value

/-! ### The users table

An address is unique as it is stored.  `setPassword`, `useTOTPCounter` and `setUserEmail` are one
statement or one transaction each; an `UPDATE` whose id has no row is not an error. -/

structure UserRow where
  id : Int
  email : String
  hash : String
  mustChange : Bool
  totpSecret : String
  totpLast : Int
  deriving DecidableEq

/-- The `users` table: `id` is its primary key and `email` is unique. -/
structure Users where
  rows : List UserRow
  idsUnique : (rows.map UserRow.id).Nodup
  emailsUnique : (rows.map UserRow.email).Nodup
  deriving DecidableEq

/-- `store.User`: a row with its second factor opened. -/
structure User where
  id : Int
  email : String
  hash : String
  mustChange : Bool
  totpSecret : String
  totpLast : Int
  deriving DecidableEq

/-- `User{}`, what a failed lookup returns. -/
def User.zero : User := ⟨0, "", "", false, "", 0⟩

def userTOTPAAD (id : Int) : String := "users/totp_secret/" ++ toString id

/-- Why `GetUserByEmail` returns no account. -/
inductive LookupError
  | noRows
  | unreadable
  deriving DecidableEq

/-- The row an address has, and what it becomes when its second factor is
opened. -/
def openRow (box : Box) (row : UserRow) : Except LookupError User :=
  match box.unseal row.totpSecret (userTOTPAAD row.id) with
  | some secret => .ok ⟨row.id, row.email, row.hash, row.mustChange, secret, row.totpLast⟩
  | none => .error .unreadable

/-- `GetUserByEmail`: the address is lower-cased and not trimmed. -/
def getUserByEmail (table : CaseTable) (box : Box) (users : Users) (email : String) :
    Except LookupError User :=
  match users.rows.find? fun row => row.email = toLower table email with
  | none => .error .noRows
  | some row => openRow box row

def credentialsUnchanged (table : CaseTable) (box : Box) (users : Users) (u : User) : Bool :=
  match getUserByEmail table box users u.email with
  | .ok cur => cur.id = u.id ∧ cur.hash = u.hash ∧ cur.totpSecret = u.totpSecret
  | .error _ => false

def Users.update (users : Users) (f : UserRow → UserRow) (hid : ∀ row, (f row).id = row.id)
    (hemail : ∀ row, (f row).email = row.email) : Users where
  rows := users.rows.map f
  idsUnique := by
    have hids : (users.rows.map f).map UserRow.id = users.rows.map UserRow.id := by
      simp [Function.comp_def, hid]
    rw [hids]
    exact users.idsUnique
  emailsUnique := by
    have hemails : (users.rows.map f).map UserRow.email = users.rows.map UserRow.email := by
      simp [Function.comp_def, hemail]
    rw [hemails]
    exact users.emailsUnique

/-- `SetPassword`. -/
def setPassword (users : Users) (id : Int) (hash : String) : Users :=
  users.update
    (fun row => if row.id = id then { row with hash := hash, mustChange := false } else row)
    (fun row => by split <;> rfl) (fun row => by split <;> rfl)

/-- `UseTOTPCounter`: the check and the write are one statement. -/
def useTOTPCounter (users : Users) (id counter : Int) : Users × Bool :=
  (users.update
      (fun row =>
        if row.id = id ∧ row.totpLast < counter then { row with totpLast := counter } else row)
      (fun row => by split <;> rfl) (fun row => by split <;> rfl),
    users.rows.any fun row => row.id = id ∧ row.totpLast < counter)

/-- The rows after `UPDATE users SET email=? WHERE id=?`. -/
def writeEmail (rows : List UserRow) (id : Int) (email : String) : List UserRow :=
  rows.map fun row => if row.id = id then { row with email := email } else row

theorem ids_writeEmail (rows : List UserRow) (id : Int) (email : String) :
    (writeEmail rows id email).map UserRow.id = rows.map UserRow.id := by
  simp only [writeEmail, List.map_map]
  refine List.map_congr_left fun row _ => ?_
  simp only [Function.comp_apply]
  split <;> rfl

/-- Writing a new address to one row keeps the addresses apart. -/
theorem nodup_emails_writeEmail {rows : List UserRow} (hids : (rows.map UserRow.id).Nodup)
    (hemails : (rows.map UserRow.email).Nodup) {id : Int} {email : String}
    (hnew : ∀ row ∈ rows, row.email ≠ email) :
    ((writeEmail rows id email).map UserRow.email).Nodup := by
  induction rows with
  | nil => exact List.nodup_nil
  | cons row rest ih =>
      rw [List.map_cons, List.nodup_cons] at hids hemails
      have hrest := ih hids.2 hemails.2 fun r hr => hnew r (List.mem_cons_of_mem row hr)
      simp only [writeEmail, List.map_cons, List.nodup_cons]
      refine ⟨?_, hrest⟩
      intro hmem
      simp only [List.map_map, List.mem_map, Function.comp_apply] at hmem
      obtain ⟨other, hother, heq⟩ := hmem
      have hne : other.email ≠ row.email := by
        intro h
        exact hemails.1 (List.mem_map.mpr ⟨other, hother, h⟩)
      have hidne : other.id ≠ row.id := by
        intro h
        exact hids.1 (List.mem_map.mpr ⟨other, hother, h⟩)
      by_cases hrow : row.id = id
      · have hid : other.id ≠ id := fun h => hidne (h.trans hrow.symm)
        simp only [hrow, hid, if_true, if_false] at heq
        exact hnew other (List.mem_cons_of_mem row hother) heq
      · by_cases hid : other.id = id
        · simp only [hrow, hid, if_true, if_false] at heq
          exact hnew row List.mem_cons_self heq.symm
        · simp only [hrow, hid, if_false] at heq
          exact hne heq

inductive SetEmailError
  | emailTaken
  | noRows
  deriving DecidableEq

/-- `SetUserEmail`, one transaction. -/
def setUserEmail (table : CaseTable) (users : Users) (id : Int) (raw : String) :
    Except SetEmailError Users :=
  let email := toLower table raw
  match hfind : users.rows.find? fun row => row.email = email with
  | some other => if other.id = id then .ok users else .error .emailTaken
  | none =>
      if users.rows.any fun row => row.id = id then
        .ok {
          rows := writeEmail users.rows id email
          idsUnique := by rw [ids_writeEmail]; exact users.idsUnique
          emailsUnique :=
            nodup_emails_writeEmail users.idsUnique users.emailsUnique fun row hrow => by
            simpa using List.find?_eq_none.mp hfind row hrow }
      else .error .noRows

/-! ### The second factor

A code is good for the clock's own time step and its two neighbours, and every step opens the
account once. -/

def totpPeriod : Nat := 30

/-- `totpStep`: the time step the code is valid for, within one step of `now`. -/
def totpStep (cred : Credentials) (code secret : String) (now : Nat) : Option Int :=
  let t : Int := (now / second / totpPeriod : Nat)
  [t, t + 1, t - 1].find? fun step => cred.hotpValid code step secret

/-- `verifyTOTP`: the code is of a step the account has not used, and the step
is recorded. -/
def verifyTOTP (cred : Credentials) (users : Users) (userID last : Int) (secret code : String)
    (now : Nat) : Users × Bool :=
  match totpStep cred code secret now with
  | none => (users, false)
  | some step => if step ≤ last then (users, false) else useTOTPCounter users userID step

/-! ### Sessions

An account keeps at most `maxSessionsPerAccount` sessions: a new one ends the oldest. -/

def maxSessionsPerAccount : Nat := 32

def sessionTTL : Nat := 12 * 60 * minute

structure Session where
  userID : Int
  email : String
  expires : Nat
  deriving DecidableEq

def sameIdentity (sess o : Session) : Bool :=
  if sess.userID ≠ 0 then o.userID = sess.userID else o.email = sess.email

/-- The oldest of the sessions that `same` accepts, in the order of the
range: a later one is taken only when it expires before the one kept. -/
def oldestSession (range : Range String Session) (same : Session → Bool)
    (sessions : GoMap String Session) : Option (String × Session) :=
  (range.order sessions).foldl (fun oldest entry =>
    if same entry.2 then
      match oldest with
      | none => some entry
      | some kept => if entry.2.expires < kept.2.expires then some entry else some kept
    else oldest) none

def endOldest (range : Range String Session) (same : Session → Bool) :
    Nat → GoMap String Session → GoMap String Session
  | 0, sessions => sessions
  | rounds + 1, sessions =>
      endOldest range same rounds
        (sessions.erase (match oldestSession range same sessions with
          | some entry => entry.1
          | none => ""))

/-- `storeSessionLocked`: expired sessions go, and at the cap the oldest ones
of the account go too. -/
def storeSessionLocked (range : Range String Session) (now : Nat) (id : String) (sess : Session)
    (sessions : GoMap String Session) : GoMap String Session :=
  let expired := (sessions.pairs.filter fun entry => entry.2.expires < now).map Prod.fst
  let swept := GoMap.eraseAll sessions expired
  let live := (swept.pairs.filter fun entry => sameIdentity sess entry.2).length
  (endOldest range (sameIdentity sess) (live + 1 - maxSessionsPerAccount) swept).insert id sess

def revokeSessions (accepts : Session → Bool) (keep : String) (sessions : GoMap String Session) :
    GoMap String Session :=
  GoMap.eraseAll sessions
    ((sessions.pairs.filter fun entry => entry.1 ≠ keep ∧ accepts entry.2).map Prod.fst)

/-! ### Lookups after a statement -/

theorem openRow_eq_ok {box : Box} {row : UserRow} {u : User} (h : openRow box row = .ok u) :
    u.id = row.id ∧ u.email = row.email ∧ u.hash = row.hash ∧
      box.unseal row.totpSecret (userTOTPAAD row.id) = some u.totpSecret := by
  unfold openRow at h
  cases hopen : box.unseal row.totpSecret (userTOTPAAD row.id) with
  | none => simp [hopen] at h
  | some secret =>
      rw [hopen] at h
      obtain rfl := Except.ok.inj h
      exact ⟨rfl, rfl, rfl, rfl⟩

theorem getUserByEmail_eq_ok {table : CaseTable} {box : Box} {users : Users} {email : String}
    {u : User} (h : getUserByEmail table box users email = .ok u) :
    ∃ row ∈ users.rows, row.email = toLower table email ∧ openRow box row = .ok u := by
  unfold getUserByEmail at h
  cases hfind : users.rows.find? fun row => row.email = toLower table email with
  | none => simp [hfind] at h
  | some row =>
      rw [hfind] at h
      exact ⟨row, List.mem_of_find?_eq_some hfind, by simpa using List.find?_some hfind, h⟩

/-- The row of an address is the only one. -/
theorem Users.eq_of_email {users : Users} {row row' : UserRow} (hrow : row ∈ users.rows)
    (hrow' : row' ∈ users.rows) (h : row.email = row'.email) : row = row' :=
  List.inj_on_of_nodup_map users.emailsUnique hrow hrow' h

theorem Users.eq_of_id {users : Users} {row row' : UserRow} (hrow : row ∈ users.rows)
    (hrow' : row' ∈ users.rows) (h : row.id = row'.id) : row = row' :=
  List.inj_on_of_nodup_map users.idsUnique hrow hrow' h

theorem getUserByEmail_of_mem {table : CaseTable} {box : Box} {users : Users} {email : String}
    {row : UserRow} (hrow : row ∈ users.rows) (hemail : row.email = toLower table email) :
    getUserByEmail table box users email = openRow box row := by
  unfold getUserByEmail
  cases hfind : users.rows.find? fun row => row.email = toLower table email with
  | none => exact absurd hemail (by simpa using List.find?_eq_none.mp hfind row hrow)
  | some found =>
      have hfound : found.email = toLower table email := by simpa using List.find?_some hfind
      have heq :=
        users.eq_of_email (List.mem_of_find?_eq_some hfind) hrow (hfound.trans hemail.symm)
      rw [heq]

/-- A session that is stored or survives the storing was there before. -/
theorem of_lookup_endOldest {range : Range String Session} {same : Session → Bool} {rounds : Nat}
    {sessions : GoMap String Session} {id : String} {sess : Session}
    (h : (endOldest range same rounds sessions).lookup id = some sess) :
    sessions.lookup id = some sess := by
  induction rounds generalizing sessions with
  | zero => exact h
  | succ rounds ih =>
      have herase := ih h
      by_cases hid : id = (match oldestSession range same sessions with
          | some entry => entry.1
          | none => "")
      · rw [hid, AList.lookup_erase] at herase
        cases herase
      · rwa [AList.lookup_erase_ne hid] at herase

theorem of_lookup_storeSessionLocked {range : Range String Session} {now : Nat} {id id' : String}
    {sess sess' : Session}
    {sessions : GoMap String Session}
    (h : (storeSessionLocked range now id sess sessions).lookup id' = some sess') :
    (id' = id ∧ sess' = sess) ∨ (id' ≠ id ∧ sessions.lookup id' = some sess') := by
  unfold storeSessionLocked at h
  by_cases hid : id' = id
  · subst hid
    rw [AList.lookup_insert] at h
    exact Or.inl ⟨rfl, (Option.some.inj h).symm⟩
  · rw [AList.lookup_insert_ne hid] at h
    have hswept := of_lookup_endOldest h
    rw [GoMap.lookup_eraseAll] at hswept
    split_ifs at hswept
    exact Or.inr ⟨hid, hswept⟩

theorem of_lookup_revokeSessions {accepts : Session → Bool} {id : String} {sess : Session}
    {sessions : GoMap String Session}
    (h : (revokeSessions accepts "" sessions).lookup id = some sess) :
    sessions.lookup id = some sess ∧ (id ≠ "" → accepts sess = false) := by
  unfold revokeSessions at h
  rw [GoMap.lookup_eraseAll] at h
  split_ifs at h with hmem
  refine ⟨h, ?_⟩
  intro hid
  by_contra haccepts
  apply hmem
  refine List.mem_map.mpr ⟨(id, sess), ?_, rfl⟩
  rw [List.mem_filter]
  exact ⟨GoMap.mem_pairs.mpr h, by simpa [hid] using haccepts⟩

end Quicgate.Admin
