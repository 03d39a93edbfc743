import Quicgate.LoginThrottle

/-!
# Signing in to the admin API

`handleLogin` (`internal/admin/admin.go`) with its two ways in, the local password and the
directory, and the second factor behind both.  The submitted address is normalised three ways
on the path: the account lookup lower-cases it, the allow-list of the directory
and the throttle trim it as well, and the directory gets it as it was typed.

`second_factor_kept_iff` says for which requests no session starts without a
code of the account they name.  A blank before the address is enough for the others
(`blank_passes_second_factor`).
-/

namespace Quicgate.Admin

open Quicgate.GoMaps Quicgate.GoStrings

def maxPasswordBytes : Nat := 72

def dummyHash : String := "$2a$10$xdkJ2A3AZdI8mnsuddX1OeiSoCJ0F6eq0gM2PHRE5HB8YpxZ4y7ca"

def accountKey (table : CaseTable) (email : String) : String :=
  toLower table (String.ofList (trimSpace email.toList))

/-- Dialling a directory and binding as the name put into the template. -/
abbrev Directory := (url bindDN username password : String) → Bool

/-! ### The handler

The handler in the order of the source: the throttle of the client's network, the lookup, the two
ways in, the second factor, and the session.  One bcrypt compare is made on every path, against a
stand-in where there is no account.  Of a setting that is not a secret `getSetting` gives the
text. -/

/-- What the login handler reads and writes of the server. -/
structure LoginServer where
  users : Users
  box : Box
  settings : GoMap String String
  sessions : GoMap String Session
  logins : Throttle
  codes : Throttle

structure LoginRequest where
  /-- The client's network, from `throttleKey`. -/
  ip : String
  email : String
  password : String
  code : String
  now : Nat
  /-- What `newSessionID` returns, unless the system is out of entropy. -/
  sessionID : Option String

/-- The answer, and what a session was started on: the account and the secret a
code was accepted for in this request. -/
structure LoginResult where
  server : LoginServer
  status : Nat
  message : String
  accepted : Option (Int × String)
  session : Option Session

section

variable (range : Ranges String) (cred : Credentials) (directory : Directory)

def LoginServer.getSetting (srv : LoginServer) (key : String) : String :=
  (srv.settings.lookup key).getD ""

def LoginServer.getUserByEmail (srv : LoginServer) (email : String) : Except LookupError User :=
  Admin.getUserByEmail cred.caseTable srv.box srv.users email

def emailAllowed (table : CaseTable) (email allowedCSV : String) : Bool :=
  accountKey table email ≠ "" &&
    (allowedCSV.toList.splitOn ',').any fun a =>
      accountKey table (String.ofList a) = accountKey table email

def ldapAuth (srv : LoginServer) (username password : String) : Bool :=
  let url := String.ofList (trimSpace (srv.getSetting "ldap_url").toList)
  let bindDN := srv.getSetting "ldap_bind_dn_template"
  srv.getSetting "ldap_enabled" = "1" && url ≠ "" && bindDN ≠ "" && password ≠ "" &&
    "ldaps://".toList.isPrefixOf (toLower cred.caseTable url).toList &&
    directory url bindDN username password

def ldapIdentityApproved (srv : LoginServer) (username : String) : Bool :=
  (srv.getUserByEmail cred username).isOk ||
    emailAllowed cred.caseTable username (srv.getSetting "ldap_allowed_users")

/-- The directory's way in. -/
def directoryOK (srv : LoginServer) (req : LoginRequest) : Bool :=
  ldapAuth cred directory srv req.email req.password && ldapIdentityApproved cred srv req.email

/-- The one bcrypt compare of every path, against the account's hash or the
stand-in. -/
def localOK (srv : LoginServer) (req : LoginRequest) : Bool :=
  match srv.getUserByEmail cred req.email with
  | .ok u => cred.bcryptCompare u.hash req.password
  | .error _ => cred.bcryptCompare dummyHash req.password && false

/-- `u` after both ways in: a directory user without a local record gets a
marked address. -/
def loginIdentity (srv : LoginServer) (req : LoginRequest) : User :=
  match srv.getUserByEmail cred req.email with
  | .ok u => if localOK cred srv req ∨
      u.email ≠ "" then u else { u with email := "ldap:" ++ req.email }
  | .error _ => { User.zero with email := "ldap:" ++ req.email }

/-- What `startSessionIfUnchanged` compares. -/
def unchanged (srv : LoginServer) (u : User) : Bool :=
  credentialsUnchanged cred.caseTable srv.box srv.users u

def LoginServer.fail (srv : LoginServer) (req : LoginRequest) (message : String) : LoginResult :=
  ⟨{ srv with logins := srv.logins.fail (range FailCounter) req.ip req.now }, 401, message,
    none, none⟩

/-- The end of `handleLogin`: the session starts, through
`startSessionIfUnchanged` when the local password opened the way. -/
def openSession (srv : LoginServer) (req : LoginRequest) (u : User) (isLocal : Bool)
    (accepted : Option (Int × String)) : LoginResult :=
  match req.sessionID with
  | none => ⟨srv, 500, "entropy failure", accepted, none⟩
  | some id =>
      if isLocal ∧ !unchanged cred srv u then
        ⟨srv, 401, "the account's credentials changed while signing in, sign in again", accepted,
          none⟩
      else
        let sess : Session := ⟨u.id, u.email, req.now + sessionTTL⟩
        ⟨{ srv with
            sessions := storeSessionLocked (range Session) req.now id sess srv.sessions
            logins := srv.logins.succeed req.ip
            codes := srv.codes.succeed (accountKey cred.caseTable req.email) },
          200, u.email, accepted, some sess⟩

/-- The second factor of `handleLogin`. -/
def secondFactor (srv : LoginServer) (req : LoginRequest) (u : User) (isLocal : Bool) :
    LoginResult :=
  if u.totpSecret = "" then openSession range cred srv req u isLocal none
  else if req.code = "" then ⟨srv, 200, "totpRequired", none, none⟩
  else
    let account := accountKey cred.caseTable req.email
    let (codes, allowed) := srv.codes.allow account req.now
    let srv := { srv with codes := codes }
    if !allowed then
      ⟨srv, 429, "too many wrong codes for this account, try again later", none, none⟩
    else
      match verifyTOTP cred srv.users u.id u.totpLast u.totpSecret req.code req.now with
      | (users, false) =>
          let srv :=
            { srv with users := users, codes := codes.fail (range FailCounter) account req.now }
          srv.fail range req "invalid authentication code"
      | (users, true) =>
          openSession range cred { srv with users := users } req u isLocal
            (some (u.id, u.totpSecret))

def handleLogin (srv : LoginServer) (req : LoginRequest) : LoginResult :=
  let (logins, allowed) := srv.logins.allow req.ip req.now
  let srv := { srv with logins := logins }
  if !allowed then ⟨srv, 429, "too many failed logins, try again later", none, none⟩
  else if maxPasswordBytes < req.password.utf8ByteSize then
    ⟨srv, 400, "the password is longer than 72 bytes, which no account can have", none, none⟩
  else if localOK cred srv req || directoryOK cred directory srv req then
    secondFactor range cred srv req (loginIdentity cred srv req) (localOK cred srv req)
  else srv.fail range req "invalid credentials"

/-! ### What the second factor depends on

The statement is about one row of the table and any request: also one that names the row only
after its address is trimmed, and also a row whose secret does not open. -/

/-- The session that starts, if one does, starts on a code that was accepted for
the account's own secret. -/
def SecondFactorKept (box : Box) (account : UserRow) (res : LoginResult) : Prop :=
  res.session.isSome →
    ∃ secret, box.unseal account.totpSecret (userTOTPAAD account.id) = some secret ∧
    res.accepted = some (account.id, secret)

/-- The lookup finds the account itself, with its second factor open. -/
def FindsAccount (srv : LoginServer) (account : UserRow) (req : LoginRequest) : Prop :=
  account.email = toLower cred.caseTable req.email ∧
    ∃ secret, srv.box.unseal account.totpSecret (userTOTPAAD account.id) = some secret ∧ secret ≠ ""

/-- A code of `u` is asked for and none is accepted. -/
def CodeRefused (srv : LoginServer) (req : LoginRequest) (u : User) : Prop :=
  u.totpSecret ≠ "" ∧
    (req.code = "" ∨
      (srv.codes.allow (accountKey cred.caseTable req.email) req.now).2 = false ∨
      (verifyTOTP cred srv.users u.id u.totpLast u.totpSecret req.code req.now).2 = false)

/-- Why a request is refused whose address the lookup does not take to the
account: before any lookup, by the directory when nobody was found, or by the
checks of whoever was found. -/
def RefusedOtherwise (srv : LoginServer) (req : LoginRequest) : Prop :=
  (srv.logins.allow req.ip req.now).2 = false ∨ maxPasswordBytes < req.password.utf8ByteSize ∨
    req.sessionID = none ∨
    match srv.getUserByEmail cred req.email with
    | .error _ =>
        ldapAuth cred directory srv req.email req.password = false ∨
          emailAllowed cred.caseTable req.email (srv.getSetting "ldap_allowed_users") = false
    | .ok u =>
        (cred.bcryptCompare u.hash req.password = false ∧
            ldapAuth cred directory srv req.email req.password = false) ∨
          CodeRefused cred srv req u ∨
          (cred.bcryptCompare u.hash req.password = true ∧ unchanged cred srv u = false)

/-! ### Recording a code leaves the credentials alone

`verifyTOTP` writes the last step only, so the account that was looked up is the one that
`startSessionIfUnchanged` compares with. -/

/-- What `startSessionIfUnchanged` looks at of an account. -/
def User.credentials (u : User) : Int × String × String := (u.id, u.hash, u.totpSecret)

theorem openRow_credentials {box : Box} {row row' : UserRow} (hid : row'.id = row.id)
    (hhash : row'.hash = row.hash) (htotp : row'.totpSecret = row.totpSecret) :
    (openRow box row').map User.credentials = (openRow box row).map User.credentials := by
  unfold openRow
  rw [hid, hhash, htotp]
  cases box.unseal row.totpSecret (userTOTPAAD row.id) <;> rfl

theorem getUserByEmail_verifyTOTP {table : CaseTable} {box : Box} {users : Users} {id last : Int}
    {secret code : String} {now : Nat} {email : String} :
    (Admin.getUserByEmail table box (verifyTOTP cred users id last secret code now).1 email).map
        User.credentials =
      (Admin.getUserByEmail table box users email).map User.credentials := by
  have hcounter (step : Int) :
      (Admin.getUserByEmail table box (useTOTPCounter users id step).1 email).map User.credentials =
        (Admin.getUserByEmail table box users email).map User.credentials := by
    unfold Admin.getUserByEmail useTOTPCounter Users.update
    dsimp only
    rw [List.find?_map]
    have hsame : ((fun row : UserRow => decide (row.email = toLower table email)) ∘ fun row =>
        if row.id = id ∧ row.totpLast < step then { row with totpLast := step } else row) =
          fun row => decide (row.email = toLower table email) := by
      funext row
      simp only [Function.comp_apply]
      split <;> rfl
    rw [hsame]
    cases users.rows.find? fun row => row.email = toLower table email with
    | none => rfl
    | some row =>
        simp only [Option.map_some]
        split
        · exact openRow_credentials rfl rfl rfl
        · rfl
  unfold verifyTOTP
  cases totpStep cred code secret now with
  | none => rfl
  | some step =>
      dsimp only
      split
      · rfl
      · exact hcounter step

variable {range cred directory}

theorem unchanged_eq {srv : LoginServer} {u : User} :
    unchanged cred srv u = true ↔
      (srv.getUserByEmail cred u.email).map User.credentials = .ok u.credentials := by
  unfold unchanged credentialsUnchanged LoginServer.getUserByEmail
  cases Admin.getUserByEmail cred.caseTable srv.box srv.users u.email with
  | error e => simp [Except.map]
  | ok cur => simp [Except.map, User.credentials]

theorem unchanged_verifyTOTP {srv : LoginServer} {u : User} {id last : Int} {secret code : String}
    {now : Nat} {codes : Throttle} :
    unchanged cred { srv with
        codes := codes, users := (verifyTOTP cred srv.users id last secret code now).1 } u =
      unchanged cred srv u := by
  rw [Bool.eq_iff_iff, unchanged_eq, unchanged_eq]
  unfold LoginServer.getUserByEmail
  rw [getUserByEmail_verifyTOTP]

/-! ### When a session starts

The path of a request is cut in two at the second factor: what it passes before it, and what the
second factor makes of it. -/

variable {srv : LoginServer} {req : LoginRequest} {u : User} {isLocal : Bool}
  {accepted : Option (Int × String)}

theorem openSession_accepted :
    (openSession range cred srv req u isLocal accepted).accepted = accepted := by
  unfold openSession
  cases req.sessionID with
  | none => rfl
  | some id => dsimp only; split <;> rfl

theorem openSession_session_isSome :
    (openSession range cred srv req u isLocal accepted).session.isSome ↔
      req.sessionID ≠ none ∧ ¬ (isLocal = true ∧ unchanged cred srv u = false) := by
  unfold openSession
  cases req.sessionID with
  | none => simp
  | some id => cases isLocal <;> cases unchanged cred srv u <;> simp

/-- What the second factor lets through. -/
theorem secondFactor_session_isSome :
    (secondFactor range cred srv req u isLocal).session.isSome ↔
      req.sessionID ≠ none ∧ ¬ CodeRefused cred srv req u ∧
        ¬ (isLocal = true ∧ unchanged cred srv u = false) := by
  unfold secondFactor CodeRefused
  by_cases hsecret : u.totpSecret = ""
  · simp [hsecret, openSession_session_isSome]
  · by_cases hcode : req.code = ""
    · simp [hsecret, hcode]
    · cases hallow : (srv.codes.allow (accountKey cred.caseTable req.email) req.now).2 with
      | false => simp [hsecret, hcode, hallow]
      | true =>
          have hkept :=
            @unchanged_verifyTOTP cred srv u u.id u.totpLast u.totpSecret req.code req.now
            (srv.codes.allow (accountKey cred.caseTable req.email) req.now).1
          cases hverify : verifyTOTP cred srv.users u.id u.totpLast u.totpSecret req.code
            req.now with
          | mk users ok =>
            rw [hverify] at hkept
            cases ok with
            | false => simp [hsecret, hcode, hallow, hverify, LoginServer.fail]
            | true => simp [hsecret, hcode, hallow, hverify, openSession_session_isSome, hkept]

/-- A session behind the second factor of `u` started on a code of `u`. -/
theorem secondFactor_accepted (h : (secondFactor range cred srv req u isLocal).session.isSome) :
    (secondFactor range cred srv req u isLocal).accepted =
      if u.totpSecret = "" then none else some (u.id, u.totpSecret) := by
  unfold secondFactor at h ⊢
  by_cases hsecret : u.totpSecret = ""
  · simp [hsecret, openSession_accepted]
  · by_cases hcode : req.code = ""
    · simp [hsecret, hcode] at h
    · cases hallow : (srv.codes.allow (accountKey cred.caseTable req.email) req.now).2 with
      | false => simp [hsecret, hcode, hallow] at h
      | true =>
          cases hverify : verifyTOTP cred srv.users u.id u.totpLast u.totpSecret req.code
            req.now with
          | mk users ok =>
            cases ok with
            | false => simp [hsecret, hcode, hallow, hverify, LoginServer.fail] at h
            | true => simp [hsecret, hcode, hallow, hverify, openSession_accepted]

/-- The server once the client's network was let through. -/
def LoginServer.admitted (srv : LoginServer) (req : LoginRequest) : LoginServer :=
  { srv with logins := (srv.logins.allow req.ip req.now).1 }

/-- What a request passes before its second factor. -/
def ReachesSecondFactor (cred : Credentials) (directory : Directory) (srv : LoginServer)
    (req : LoginRequest) : Prop :=
  (srv.logins.allow req.ip req.now).2 = true ∧ req.password.utf8ByteSize ≤ maxPasswordBytes ∧
    (localOK cred srv req = true ∨ directoryOK cred directory srv req = true)

theorem handleLogin_of_reaches (h : ReachesSecondFactor cred directory srv req) :
    handleLogin range cred directory srv req =
      secondFactor range cred (srv.admitted req) req (loginIdentity cred srv req)
        (localOK cred srv req) := by
  obtain ⟨hallow, hshort, hway⟩ := h
  have hway' : (localOK cred (srv.admitted req) req ||
      directoryOK cred directory (srv.admitted req) req) = true := Bool.or_eq_true_iff.mpr hway
  unfold handleLogin
  dsimp only
  rw [hallow, if_neg (by decide), if_neg (Nat.not_lt.mpr hshort)]
  exact if_pos hway'

theorem handleLogin_session_of_not_reaches (h : ¬ ReachesSecondFactor cred directory srv req) :
    (handleLogin range cred directory srv req).session = none := by
  unfold handleLogin
  dsimp only
  split
  · rfl
  · rename_i hallow
    split
    · rfl
    · rename_i hshort
      split
      · rename_i hway
        exact absurd ⟨by simpa using hallow, Nat.not_lt.mp hshort, Bool.or_eq_true_iff.mp hway⟩ h
      · rfl

theorem handleLogin_session_isSome :
    (handleLogin range cred directory srv req).session.isSome ↔
      ReachesSecondFactor cred directory srv req ∧
        req.sessionID ≠ none ∧ ¬ CodeRefused cred srv req (loginIdentity cred srv req) ∧
        ¬ (localOK cred srv req = true ∧
          unchanged cred srv (loginIdentity cred srv req) = false) := by
  by_cases hreaches : ReachesSecondFactor cred directory srv req
  · rw [handleLogin_of_reaches hreaches, secondFactor_session_isSome]
    simp only [hreaches, true_and]
    rfl
  · rw [handleLogin_session_of_not_reaches hreaches]
    simp [hreaches]

theorem handleLogin_accepted (h : (handleLogin range cred directory srv req).session.isSome) :
    (handleLogin range cred directory srv req).accepted =
      if (loginIdentity cred srv req).totpSecret = "" then none
      else some ((loginIdentity cred srv req).id, (loginIdentity cred srv req).totpSecret) := by
  have hreaches := (handleLogin_session_isSome.mp h).1
  rw [handleLogin_of_reaches hreaches] at h ⊢
  exact secondFactor_accepted h

/-- A session starts exactly when nothing refuses the request. -/
theorem session_isSome_iff_not_refused :
    (handleLogin range cred directory srv req).session.isSome ↔
      ¬ RefusedOtherwise cred directory srv req := by
  rw [handleLogin_session_isSome]
  unfold ReachesSecondFactor RefusedOtherwise directoryOK ldapIdentityApproved loginIdentity localOK
  cases hlookup : srv.getUserByEmail cred req.email with
  | error e =>
      have hcode : ¬ CodeRefused cred srv req { User.zero with email := "ldap:" ++ req.email } := by
        intro h
        exact h.1 rfl
      simp only [hcode, Except.isOk, Except.toBool]
      cases (srv.logins.allow req.ip req.now).2 <;>
        cases ldapAuth cred directory srv req.email req.password <;>
        cases emailAllowed cred.caseTable req.email (srv.getSetting "ldap_allowed_users") <;>
        simp
  | ok u =>
      have hcode : CodeRefused cred srv req (if cred.bcryptCompare u.hash req.password = true ∨
          u.email ≠ "" then u else { u with email := "ldap:" ++ req.email }) ↔
            CodeRefused cred srv req u := by
        split <;> rfl
      simp only [hcode, Except.isOk, Except.toBool]
      by_cases hmatch : cred.bcryptCompare u.hash req.password = true
      · simp only [hmatch]
        cases (srv.logins.allow req.ip req.now).2 <;> simp
      · simp only [hmatch]
        cases (srv.logins.allow req.ip req.now).2 <;>
          cases ldapAuth cred directory srv req.email req.password <;> simp

theorem FindsAccount.lookup {account : UserRow} (haccount : account ∈ srv.users.rows)
    (h : FindsAccount cred srv account req) :
    ∃ u, srv.getUserByEmail cred req.email = .ok u ∧ u.id = account.id ∧ u.totpSecret ≠ "" ∧
      srv.box.unseal account.totpSecret (userTOTPAAD account.id) = some u.totpSecret := by
  obtain ⟨hemail, secret, hopen, hne⟩ := h
  have hlookup := @getUserByEmail_of_mem _ srv.box _ _ _ haccount hemail
  refine ⟨⟨account.id, account.email, account.hash, account.mustChange, secret, account.totpLast⟩,
    ?_, rfl, hne, hopen⟩
  unfold LoginServer.getUserByEmail
  rw [hlookup]
  simp [openRow, hopen]

/-- Whoever the lookup found with the account's id and a second factor is the
account itself. -/
theorem FindsAccount.of_lookup {account : UserRow} (haccount : account ∈ srv.users.rows)
    (hlookup : srv.getUserByEmail cred req.email = .ok u) (hid : u.id = account.id)
    (hsecret : u.totpSecret ≠ "") : FindsAccount cred srv account req := by
  obtain ⟨row, hrow, hemail, hopen⟩ := getUserByEmail_eq_ok hlookup
  obtain ⟨hrowid, -, -, hunseal⟩ := openRow_eq_ok hopen
  have heq : row = account := Users.eq_of_id hrow haccount (hrowid.symm.trans hid)
  subst heq
  exact ⟨hemail, u.totpSecret, hunseal, hsecret⟩

theorem loginIdentity_of_ok (hlookup : srv.getUserByEmail cred req.email = .ok u) :
    (loginIdentity cred srv req).id = u.id ∧
      (loginIdentity cred srv req).totpSecret = u.totpSecret := by
  unfold loginIdentity
  rw [hlookup]
  dsimp only
  split <;> exact ⟨rfl, rfl⟩

theorem loginIdentity_of_error {e : LookupError}
    (hlookup : srv.getUserByEmail cred req.email = .error e) :
    (loginIdentity cred srv req).totpSecret = "" := by
  unfold loginIdentity
  rw [hlookup]
  rfl

/-- A request never passes by the second factor of `account` exactly when the
lookup takes its address to the account with the secret open, or something else
refuses it.  `account` is any row, so also one that the address names only
after it is trimmed, and one whose secret does not open. -/
theorem second_factor_kept_iff {account : UserRow} (haccount : account ∈ srv.users.rows) :
    SecondFactorKept srv.box account (handleLogin range cred directory srv req) ↔
      FindsAccount cred srv account req ∨ RefusedOtherwise cred directory srv req := by
  unfold SecondFactorKept
  rw [session_isSome_iff_not_refused]
  by_cases hrefused : RefusedOtherwise cred directory srv req
  · simp [hrefused]
  · have hstarts : (handleLogin range cred directory srv req).session.isSome :=
      session_isSome_iff_not_refused.mpr hrefused
    have haccepted := handleLogin_accepted hstarts
    simp only [hrefused, not_false_eq_true, forall_true_left, or_false]
    rw [haccepted]
    constructor
    · rintro ⟨secret, hopen, hsome⟩
      split_ifs at hsome with hempty
      obtain ⟨hid, hsecret⟩ := Prod.mk.inj (Option.some.inj hsome)
      cases hlookup : srv.getUserByEmail cred req.email with
      | error e => exact absurd (loginIdentity_of_error hlookup) hempty
      | ok u =>
          obtain ⟨hid', hsecret'⟩ := loginIdentity_of_ok hlookup
          exact FindsAccount.of_lookup haccount hlookup (hid'.symm.trans hid) (hsecret' ▸ hempty)
    · intro hfinds
      obtain ⟨u, hlookup, hid, hne, hopen⟩ := hfinds.lookup haccount
      obtain ⟨hid', hsecret'⟩ := loginIdentity_of_ok hlookup
      refine ⟨u.totpSecret, hopen, ?_⟩
      rw [hid', hsecret', if_neg hne, hid]

end

/-! ### A directory that knows the administrator too

Blanks around a name mean nothing to this directory. -/

def directoryServer : LoginServer where
  users := guessedUsers
  box := emptyBox
  settings := GoMap.insertAll ∅
    [("ldap_enabled", "1"), ("ldap_url", "ldaps://ldap.example.com:636"),
      ("ldap_bind_dn_template", "uid=%s,ou=people,dc=example,dc=com"),
      ("ldap_allowed_users", "admin@example.com")]
  sessions := ∅
  logins := newLoginThrottle
  codes := newLoginThrottle

def trimmingDirectory : Directory := fun _ _ username password =>
  trimSpace username.toList = "admin@example.com".toList ∧ password = "hunter22"

def adminRow : UserRow := ⟨1, "admin@example.com", "correct horse", false, "JBSWY3DPEHPK3PXP", 0⟩

def codelessRequest (email : String) : LoginRequest :=
  ⟨"192.0.2.1", email, "hunter22", "", 0, some "5f3a"⟩

theorem adminRow_mem : adminRow ∈ directoryServer.users.rows := List.mem_singleton.mpr rfl

/-- Under its own address the account is asked for a code. -/
theorem second_factor_kept_own_address :
    accountKey plainCredentials.caseTable "Admin@Example.com" = adminRow.email ∧
      SecondFactorKept directoryServer.box adminRow
        (handleLogin (.listed String) plainCredentials trimmingDirectory directoryServer
          (codelessRequest "Admin@Example.com")) := by
  have hfinds : FindsAccount plainCredentials directoryServer adminRow
      (codelessRequest "Admin@Example.com") :=
    ⟨by decide, "JBSWY3DPEHPK3PXP", by decide, by decide⟩
  exact ⟨by decide, (second_factor_kept_iff adminRow_mem).mpr (Or.inl hfinds)⟩

/-- A blank before the address, and the directory's way in asks for no code. -/
theorem blank_passes_second_factor :
    ¬ ∀ (range : Ranges String) (cred : Credentials) (directory : Directory) (srv : LoginServer)
      (req : LoginRequest) (account : UserRow), account ∈ srv.users.rows → account.totpSecret ≠ "" →
      accountKey cred.caseTable req.email = account.email →
      SecondFactorKept srv.box account (handleLogin range cred directory srv req) := by
  intro h
  have hkept := h (.listed String) plainCredentials trimmingDirectory directoryServer
    (codelessRequest " admin@example.com") adminRow adminRow_mem (by decide) (by decide)
  have hsession : ((handleLogin (.listed String) plainCredentials trimmingDirectory directoryServer
      (codelessRequest " admin@example.com")).session.isSome,
        (handleLogin (.listed String) plainCredentials trimmingDirectory directoryServer
          (codelessRequest " admin@example.com")).accepted) = (true, none) := by
    decide +kernel
  obtain ⟨hstarted, hnone⟩ := Prod.mk.inj hsession
  obtain ⟨secret, -, haccepted⟩ := hkept hstarted
  rw [hnone] at haccepted
  cases haccepted

end Quicgate.Admin
