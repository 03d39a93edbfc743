import Quicgate.AdminLogin
import Quicgate.TransitionSystem

/-!
# Signing in to the admin API at an identity provider

`internal/admin/oidc.go`: a sign-in that is started leaves an entry in the table of
pending sign-ins and sends the browser to the provider with the entry's state, nonce and
challenge; the first callback that presents the state takes the entry, exchanges its
code, and starts a session for the identity that the provider vouches for.

Starts and callbacks take their steps one at a time, in any order, while settings,
accounts and sessions change and people sign in at the provider.  A step is one statement
of the source: the configuration is read setting by setting, and may change in between.

* `sso_sessions_earned` certifies `handleOIDCCallback`: a session rests on what its
  callback was given at its own steps, on the clock, the settings, the accounts and the
  answer of the provider as they stood there.
* `sso_signins_kept` certifies the table: whoever is signing in can finish.
* `ConfigRead.oidcConfig_of_undisturbed` certifies the statements of `oidcConfig`
  against the configuration of one moment.

`start` of an entry and `expires` of a redirect say which sign-in is which; nothing in the
code reads them.
-/

namespace Quicgate.Admin

open Quicgate.GoMaps Quicgate.GoStrings Quicgate.TransitionSystem

def adminOIDCLoginTTL : Nat := 5 * minute

def adminOIDCMaxPending : Nat := 1024

def oidcStartMax : Nat := 30

/-! ### The configuration

`oidcConfig` makes one statement after another.  `ConfigRead` is where it stands, under the
name of what it asks for next and with what it holds already; `OIDCSetup.oidcConfig` is what
the statements come to when nobody writes a setting between them. -/

structure OIDCProvider where
  id : Int
  issuer : String
  clientID : String
  clientSecret : String
  scopes : List String
  deriving DecidableEq

/-- What sign-ins are configured by. `providers` is `none` while the list of providers
cannot be read. -/
structure OIDCSetup where
  settings : GoMap String String
  providers : Option (List OIDCProvider)
  deriving DecidableEq

structure OIDCClient where
  issuer : String
  clientID : String
  clientSecret : String
  scopes : List String
  deriving DecidableEq

structure OIDCConfig where
  issuer : String
  clientID : String
  clientSecret : String
  redirectURL : String
  scopes : List String
  deriving DecidableEq

inductive ConfigError
  | unreadable
  /-- The selected provider no longer exists. -/
  | gone (id : String)
  /-- Discovery of the issuer failed. -/
  | undiscovered (issuer : String)
  deriving DecidableEq

def OIDCClient.config (client : OIDCClient) (redirectURL : String) : OIDCConfig :=
  ⟨client.issuer, client.clientID, client.clientSecret, redirectURL, client.scopes⟩

def defaultScopes : List String := ["openid", "email", "profile"]

namespace OIDCSetup

def setting (set : OIDCSetup) (key : String) : String := (set.settings.lookup key).getD ""

def oidcEnabled (set : OIDCSetup) : Bool :=
  set.setting "oidc_enabled" = "1" || set.setting "admin_oidc_provider_id" ≠ ""

/-- The client of the selected provider, by `adminOIDCProvider`. -/
def adminOIDCProvider (set : OIDCSetup) (id : String) : Except ConfigError OIDCClient :=
  match set.providers with
  | none => .error .unreadable
  | some list =>
      match list.find? fun p => toString p.id = id with
      | none => .error (.gone id)
      | some p =>
          .ok ⟨p.issuer, p.clientID, p.clientSecret,
            if p.scopes = [] then defaultScopes else p.scopes⟩

def client (set : OIDCSetup) : Except ConfigError OIDCClient :=
  if set.setting "admin_oidc_provider_id" = "" then
    .ok ⟨set.setting "oidc_issuer", set.setting "oidc_client_id", set.setting "oidc_client_secret",
      defaultScopes⟩
  else set.adminOIDCProvider (set.setting "admin_oidc_provider_id")

/-- The callback that the provider is told: the one that is set, or this listener's own. -/
def redirectURL (set : OIDCSetup) (host scheme : String) : String :=
  if set.setting "oidc_redirect_url" = "" ∧
    host ≠ "" then scheme ++ "://" ++ host ++ "/api/oidc/callback"
  else set.setting "oidc_redirect_url"

/-- The configuration of one moment. `discovered`: the issuer answers, or did within the
last hour. -/
def oidcConfig (set : OIDCSetup) (host scheme : String) (discovered : Bool) :
    Except ConfigError (Option OIDCConfig) :=
  if !set.oidcEnabled then .ok none
  else
    match set.client with
    | .error e => .error e
    | .ok client =>
        let redirect := set.redirectURL host scheme
        if client.issuer = "" ∨ client.clientID = "" ∨ redirect = "" then .ok none
        else if discovered then .ok (some (client.config redirect))
        else .error (.undiscovered client.issuer)

end OIDCSetup

/-- Where `oidcConfig` stands: what it asks for next, and what it has been told. -/
inductive ConfigRead
  /-- `oidcEnabled` asks for the switch and, where that is off, for a selected provider. -/
  | switch
  | selected
  | inlineIssuer
  | inlineClientID (issuer : String)
  | inlineSecret (issuer clientID : String)
  | providerID (issuer clientID clientSecret : String)
  | providers (id : String)
  | redirectURL (client : OIDCClient)
  | discovery (config : OIDCConfig)
  | done (answer : Except ConfigError (Option OIDCConfig))
  deriving DecidableEq

namespace ConfigRead

/-- One statement of `oidcConfig` for a request to `host` by `scheme`, with the settings and
the providers as they stand. -/
def next (set : OIDCSetup) (host scheme : String) (discovered : Bool) : ConfigRead → ConfigRead
  | .switch => if set.setting "oidc_enabled" = "1" then .inlineIssuer else .selected
  | .selected =>
      if set.setting "admin_oidc_provider_id" = "" then .done (.ok none) else .inlineIssuer
  | .inlineIssuer => .inlineClientID (set.setting "oidc_issuer")
  | .inlineClientID issuer => .inlineSecret issuer (set.setting "oidc_client_id")
  | .inlineSecret issuer clientID => .providerID issuer clientID (set.setting "oidc_client_secret")
  | .providerID issuer clientID clientSecret =>
      let id := set.setting "admin_oidc_provider_id"
      if id = "" then .redirectURL ⟨issuer, clientID, clientSecret, defaultScopes⟩
      else .providers id
  | .providers id =>
      match set.adminOIDCProvider id with
      | .error e => .done (.error e)
      | .ok client => .redirectURL client
  | .redirectURL client =>
      let redirect := set.redirectURL host scheme
      if client.issuer = "" ∨ client.clientID = "" ∨ redirect = "" then .done (.ok none)
      else .discovery (client.config redirect)
  | .discovery config =>
      .done (if discovered then .ok (some config) else .error (.undiscovered config.issuer))
  | .done answer => .done answer

/-- Where `oidcConfig` stands after some statements, each with the setup it was made in and
what discovery would have answered there. -/
def after (host scheme : String) (reads : List (OIDCSetup × Bool)) : ConfigRead :=
  reads.foldl (fun read answer => read.next answer.1 host scheme answer.2) .switch

theorem after_concat {host scheme : String} {reads : List (OIDCSetup × Bool)} {set : OIDCSetup}
    {discovered : Bool} :
    after host scheme (reads ++ [(set, discovered)]) =
      (after host scheme reads).next set host scheme discovered := by
  simp [after]

/-- What `oidcConfig` holds is what the setup says. -/
def Agrees (set : OIDCSetup) (host scheme : String) : ConfigRead → Prop
  | .switch => True
  | .selected => set.setting "oidc_enabled" ≠ "1"
  | .inlineIssuer => set.oidcEnabled = true
  | .inlineClientID issuer => set.oidcEnabled = true ∧ issuer = set.setting "oidc_issuer"
  | .inlineSecret issuer clientID =>
      set.oidcEnabled = true ∧ issuer = set.setting "oidc_issuer" ∧
        clientID = set.setting "oidc_client_id"
  | .providerID issuer clientID clientSecret =>
      set.oidcEnabled = true ∧ issuer = set.setting "oidc_issuer" ∧
        clientID = set.setting "oidc_client_id" ∧ clientSecret = set.setting "oidc_client_secret"
  | .providers id => set.oidcEnabled = true ∧ set.client = set.adminOIDCProvider id
  | .redirectURL client => set.oidcEnabled = true ∧ set.client = .ok client
  | .discovery config => ∀ discovered, set.oidcConfig host scheme discovered =
      if discovered then .ok (some config) else .error (.undiscovered config.issuer)
  | .done answer => ∃ discovered, set.oidcConfig host scheme discovered = answer

theorem Agrees.next {set : OIDCSetup} {host scheme : String} {read : ConfigRead}
    (h : read.Agrees set host scheme) (discovered : Bool) :
    (read.next set host scheme discovered).Agrees set host scheme := by
  cases read with
  | switch =>
      simp only [ConfigRead.next]
      split_ifs with hon
      · simp [Agrees, OIDCSetup.oidcEnabled, hon]
      · exact hon
  | selected =>
      simp only [ConfigRead.next]
      split_ifs with hblank
      · refine ⟨true, ?_⟩
        have hoff : set.setting "oidc_enabled" ≠ "1" := h
        simp [OIDCSetup.oidcConfig, OIDCSetup.oidcEnabled, hoff, hblank]
      · simp [Agrees, OIDCSetup.oidcEnabled, hblank]
  | inlineIssuer => exact ⟨h, rfl⟩
  | inlineClientID issuer => exact ⟨h.1, h.2, rfl⟩
  | inlineSecret issuer clientID => exact ⟨h.1, h.2.1, h.2.2, rfl⟩
  | providerID issuer clientID clientSecret =>
      obtain ⟨henabled, rfl, rfl, rfl⟩ := h
      simp only [ConfigRead.next]
      split_ifs with hinline
      · exact ⟨henabled, by rw [OIDCSetup.client, if_pos hinline]⟩
      · exact ⟨henabled, by rw [OIDCSetup.client, if_neg hinline]⟩
  | providers id =>
      obtain ⟨henabled, hclient⟩ := h
      cases hprovider : set.adminOIDCProvider id with
      | error e =>
          simp only [ConfigRead.next, hprovider]
          refine ⟨true, ?_⟩
          rw [OIDCSetup.oidcConfig, henabled, hclient, hprovider]
          rfl
      | ok client =>
          simp only [ConfigRead.next, hprovider]
          exact ⟨henabled, hclient.trans hprovider⟩
  | redirectURL client =>
      obtain ⟨henabled, hclient⟩ := h
      simp only [ConfigRead.next]
      split_ifs with hblank
      · refine ⟨true, ?_⟩
        rw [OIDCSetup.oidcConfig, henabled, hclient]
        exact if_pos hblank
      · intro discovered
        rw [OIDCSetup.oidcConfig, henabled, hclient]
        exact if_neg hblank
  | discovery config => exact ⟨discovered, h discovered⟩
  | done answer => exact h

/-- Read while nobody writes a setting or a provider, it is the configuration of one moment. -/
theorem oidcConfig_of_undisturbed {set : OIDCSetup} {host scheme : String}
    {reads : List (OIDCSetup × Bool)} {answer : Except ConfigError (Option OIDCConfig)}
    (hreads : ∀ read ∈ reads, read.1 = set) (hdone : after host scheme reads = .done answer) :
    ∃ discovered, set.oidcConfig host scheme discovered = answer := by
  have hagrees : (after host scheme reads).Agrees set host scheme := by
    clear hdone
    induction reads using List.reverseRecOn with
    | nil => trivial
    | append_singleton reads read ih =>
        obtain ⟨set', discovered⟩ := read
        obtain rfl : set' = set := hreads (set', discovered) (by simp)
        rw [after_concat]
        exact (ih fun read hread => hreads read (List.mem_append_left _ hread)).next discovered
  rw [hdone] at hagrees
  exact hagrees

end ConfigRead

/-! ### Requests

A request stands where the handler of its kind stands between two statements. -/

structure AdminOIDCLogin where
  nonce : String
  verifier : String
  expires : Nat
  /-- The start that made the entry. -/
  start : Nat
  deriving DecidableEq

/-- What a start answers: the authorisation URL and the cookie, which is the state. -/
structure Redirect where
  config : OIDCConfig
  state : String
  nonce : String
  challenge : String
  expires : Nat
  deriving DecidableEq

inductive StartPhase
  | arrived
  | admitted
  | configuring (read : ConfigRead)
  | configured (config : OIDCConfig)
  /-- State, nonce and verifier are drawn. -/
  | drawn (config : OIDCConfig) (state : String) (login : AdminOIDCLogin)
  | answered (redirect : Redirect)
  | refused (status : Nat)
  deriving DecidableEq

structure Start where
  ip : String
  host : String
  scheme : String
  phase : StartPhase
  deriving DecidableEq

/-- Someone has signed in at the provider, following an authorisation URL; the code that
the browser brings back, and what the ID token behind it says. -/
structure Authorisation where
  code : String
  issuer : String
  clientID : String
  nonce : String
  challenge : String
  email : String
  verified : Option Bool
  deriving DecidableEq

inductive Exchange
  | failed
  | noIDToken
  | unverifiable
  /-- `readable`: its claims can be read. -/
  | token (a : Authorisation) (readable : Bool)
  deriving DecidableEq

inductive CallbackPhase
  | arrived
  /-- The state matched the cookie; the entry, if there was one, is taken. -/
  | consumed
  | configuring (read : ConfigRead)
  | configured (config : OIDCConfig)
  | vouched (config : OIDCConfig) (a : Authorisation)
  | looked (config : OIDCConfig) (a : Authorisation) (account : Option User)
  | admitted (config : OIDCConfig) (a : Authorisation) (userID : Int) (email : String)
  | answered (config : OIDCConfig) (a : Authorisation) (id : String) (sess : Session)
  | refused (status : Nat)
  deriving DecidableEq

structure Callback where
  state : String
  cookie : Option String
  code : String
  host : String
  scheme : String
  /-- The entry that was taken from the table. -/
  login : Option AdminOIDCLogin
  phase : CallbackPhase
  deriving DecidableEq

structure SsoState where
  now : Nat
  setup : OIDCSetup
  users : Users
  sessions : GoMap String Session
  oidcStarts : Throttle
  oidcLogins : GoMap String AdminOIDCLogin
  starts : List Start
  callbacks : List Callback
  /-- The sign-ins at providers. -/
  authorised : List Authorisation

def SsoState.fresh (setup : OIDCSetup) (users : Users) : SsoState :=
  ⟨0, setup, users, ∅, ⟨oidcStartMax, ∅, 0⟩, ∅, [], [], []⟩

/-! ### Steps

The first half of the steps is the world around: time, the API's other handlers, people at
their providers.  The rest move the start `i` or the callback `j` on by one statement. -/

inductive SsoStep
  | tick (elapsed : Nat)
  | setUp (setup : OIDCSetup)
  | setUsers (users : Users)
  | signIn (id : String) (sess : Session)
  | revoke (id : String)
  | authorise (a : Authorisation)
  | arriveStart (ip host scheme : String)
  | allow (i : Nat)
  | count (i : Nat)
  /-- A statement of `oidcConfig`; `discovered`: what discovery would answer. -/
  | configure (i : Nat) (discovered : Bool)
  /-- What `newSessionID` returns twice, and `GenerateVerifier`. -/
  | draw (i : Nat) (state nonce : Option String) (verifier : String)
  | register (i : Nat)
  | arriveCallback (state : String) (cookie : Option String) (code host scheme : String)
  | consume (j : Nat)
  | expiry (j : Nat)
  | reconfigure (j : Nat) (discovered : Bool)
  | exchange (j : Nat) (answer : Exchange)
  | lookup (j : Nat)
  | permit (j : Nat)
  /-- `id`: what `newSessionID` returns. -/
  | start (j : Nat) (id : Option String)
  deriving DecidableEq

section

variable (range : Ranges String) (table : CaseTable) (box : Box) (s256 : String → String)

def SsoState.putStart (s : SsoState) (i : Nat) (st : Start) (phase : StartPhase) : SsoState :=
  { s with starts := s.starts.set i { st with phase } }

def SsoState.put (s : SsoState) (j : Nat) (c : Callback) : SsoState :=
  { s with callbacks := s.callbacks.set j c }

def SsoState.pending (s : SsoState) : GoMap String AdminOIDCLogin :=
  s.oidcLogins.eraseAll
    ((s.oidcLogins.pairs.filter fun entry => entry.2.expires < s.now).map Prod.fst)

def SsoState.register (s : SsoState) (i : Nat) (st : Start) (config : OIDCConfig) (state : String)
    (login : AdminOIDCLogin) : SsoState :=
  if adminOIDCMaxPending ≤ s.pending.len then
    { s with oidcLogins := s.pending }.putStart i st (.refused 503)
  else
    { s with oidcLogins := s.pending.insert state login }.putStart i st
      (.answered ⟨config, state, login.nonce, s256 login.verifier, login.expires⟩)

def ConfigRead.startPhase : ConfigRead → StartPhase
  | .done (.error _) => .refused 502
  | .done (.ok none) => .refused 404
  | .done (.ok (some config)) => .configured config
  | read => .configuring read

def startStep (s : SsoState) (i : Nat) (st : Start) : SsoStep → Option SsoState
  | .allow _ =>
      match st.phase with
      | .arrived =>
          let (starts, allowed) := s.oidcStarts.allow st.ip s.now
          some ({ s with oidcStarts := starts }.putStart i st
            (if allowed then .admitted else .refused 429))
      | _ => none
  | .count _ =>
      match st.phase with
      | .admitted =>
          let oidcStarts := s.oidcStarts.fail (range FailCounter) st.ip s.now
          some ({ s with oidcStarts }.putStart i st (.configuring .switch))
      | _ => none
  | .configure _ discovered =>
      match st.phase with
      | .configuring read =>
          some (s.putStart i st (read.next s.setup st.host st.scheme discovered).startPhase)
      | _ => none
  | .draw _ state nonce verifier =>
      match st.phase with
      | .configured config =>
          some (s.putStart i st (match state, nonce with
            | some state, some nonce =>
                .drawn config state ⟨nonce, verifier, s.now + adminOIDCLoginTTL, i⟩
            | _, _ => .refused 500))
      | _ => none
  | .register _ =>
      match st.phase with
      | .drawn config state login => some (s.register s256 i st config state login)
      | _ => none
  | _ => none

/-- The entry is taken, whatever happens next. -/
def SsoState.consume (s : SsoState) (j : Nat) (c : Callback) : SsoState :=
  if c.cookie = some c.state ∧ c.state ≠ "" then
    { s with oidcLogins := s.oidcLogins.erase c.state }.put j
      { c with login := s.oidcLogins.lookup c.state, phase := .consumed }
  else s.put j { c with phase := .refused 400 }

def ConfigRead.callbackPhase : ConfigRead → CallbackPhase
  | .done (.ok (some config)) => .configured config
  | .done _ => .refused 502
  | read => .configuring read

/-- What becomes of a callback with an answer of the provider; a token is one that the
provider gave for a sign-in, to the holder of its code and verifier. -/
def exchangePhase (s : SsoState) (c : Callback) (login : AdminOIDCLogin) (config : OIDCConfig) :
    Exchange → Option CallbackPhase
  | .failed => some (.refused 400)
  | .noIDToken => some (.refused 400)
  | .unverifiable => some (.refused 401)
  | .token a readable =>
      if a ∈ s.authorised ∧ a.code = c.code ∧ a.challenge = s256 login.verifier ∧
          a.issuer = config.issuer ∧ a.clientID = config.clientID then
        some (if a.nonce ≠ login.nonce then .refused 401
          else if !readable then .refused 400
          else if a.verified = some false then .refused 403
          else .vouched config a)
      else none

/-- Who gets in, and under which name. -/
def admitPhase (s : SsoState) (config : OIDCConfig) (a : Authorisation) :
    Option User → CallbackPhase
  | some u => .admitted config a u.id u.email
  | none =>
      if emailAllowed table a.email (s.setup.setting "oidc_allowed_emails") then
        .admitted config a User.zero.id ("oidc:" ++ accountKey table a.email)
      else .refused 403

def callbackStep (s : SsoState) (j : Nat) (c : Callback) : SsoStep → Option SsoState
  | .consume _ =>
      match c.phase with
      | .arrived => some (s.consume j c)
      | _ => none
  | .expiry _ =>
      match c.phase, c.login with
      | .consumed, none => some (s.put j { c with phase := .refused 400 })
      | .consumed, some login =>
          some (s.put j { c with
            phase := if login.expires < s.now then .refused 400 else .configuring .switch })
      | _, _ => none
  | .reconfigure _ discovered =>
      match c.phase with
      | .configuring read =>
          some (s.put j { c with
            phase := (read.next s.setup c.host c.scheme discovered).callbackPhase })
      | _ => none
  | .exchange _ answer =>
      match c.phase, c.login with
      | .configured config, some login =>
          (exchangePhase s256 s c login config answer).map fun phase => s.put j { c with phase }
      | _, _ => none
  | .lookup _ =>
      match c.phase with
      | .vouched config a =>
          some (s.put j { c with
            phase := .looked config a (getUserByEmail table box s.users a.email).toOption })
      | _ => none
  | .permit _ =>
      match c.phase with
      | .looked config a account =>
          some (s.put j { c with phase := admitPhase table s config a account })
      | _ => none
  | .start _ id =>
      match c.phase with
      | .admitted config a userID email =>
          match id with
          | none => some (s.put j { c with phase := .refused 500 })
          | some id =>
              let sess : Session := ⟨userID, email, s.now + sessionTTL⟩
              let sessions := storeSessionLocked (range Session) s.now id sess s.sessions
              some ({ s with sessions }.put j { c with phase := .answered config a id sess })
      | _ => none
  | _ => none

def ssoStep (s : SsoState) (label : SsoStep) : Option SsoState :=
  match label with
  | .tick elapsed => some { s with now := s.now + elapsed }
  | .setUp setup => some { s with setup }
  | .setUsers users => some { s with users }
  | .signIn id sess =>
      some { s with sessions := storeSessionLocked (range Session) s.now id sess s.sessions }
  | .revoke id => some { s with sessions := s.sessions.erase id }
  | .authorise a => some { s with authorised := a :: s.authorised }
  | .arriveStart ip host scheme =>
      some { s with starts := s.starts ++ [⟨ip, host, scheme, .arrived⟩] }
  | .arriveCallback state cookie code host scheme =>
      some { s with callbacks := s.callbacks ++
        [⟨state, cookie, code, host, scheme, none, .arrived⟩] }
  | .allow i | .count i | .configure i _ | .draw i _ _ _ | .register i =>
      (s.starts[i]?).bind fun st => startStep range s256 s i st label
  | .consume j | .expiry j | .reconfigure j _ | .exchange j _ | .lookup j | .permit j
      | .start j _ =>
      (s.callbacks[j]?).bind fun c => callbackStep range table box s256 s j c label

end

/-! ### What a session rests on

`steps` are the steps of the run so far, each with the state it was taken in.  What a
callback was told is told by its own steps: it takes each of them once, but for those of
`oidcConfig`, which follow one another. -/

abbrev SsoSteps := List (SsoState × SsoStep)

/-- The statements of `oidcConfig` that the callback has made: the setup each was made in,
and what discovery would have answered. -/
def SsoSteps.readsOf (steps : SsoSteps) (j : Nat) : List (OIDCSetup × Bool) :=
  steps.filterMap fun step =>
    match step.2 with
    | .reconfigure j' discovered => if j' = j then some (step.1.setup, discovered) else none
    | _ => none

section

variable (table : CaseTable) (box : Box) (s256 : String → String)

/-- The entry was made by a start that sent its browser away with the key as the state. -/
def Registered (s : SsoState) (key : String) (login : AdminOIDCLogin) : Prop :=
  ∃ st r, s.starts[login.start]? = some st ∧ st.phase = .answered r ∧ r.state = key ∧
    r.nonce = login.nonce ∧ r.challenge = s256 login.verifier ∧ r.expires = login.expires

namespace Callback

def Unexpired (steps : SsoSteps) (j : Nat) (taken : Option AdminOIDCLogin) : Prop :=
  ∃ login u, taken = some login ∧ (u, .expiry j) ∈ steps ∧ u.now ≤ login.expires

/-- The callback's own statements have come this far. -/
def ReadTo (steps : SsoSteps) (j : Nat) (c : Callback) (read : ConfigRead) : Prop :=
  ConfigRead.after c.host c.scheme (steps.readsOf j) = read

/-- The provider answered the exchange with the token of a sign-in at the configured
provider, which had followed the URL of the entry's start. -/
structure Vouched (steps : SsoSteps) (j : Nat) (code : String) (taken : Option AdminOIDCLogin)
    (config : OIDCConfig) (a : Authorisation) : Prop where
  authorised : ∃ u, (u, .exchange j (.token a true)) ∈ steps ∧ a ∈ u.authorised
  code : a.code = code
  issuer : a.issuer = config.issuer
  clientID : a.clientID = config.clientID
  bound : ∃ login, taken = some login ∧ a.nonce = login.nonce ∧ a.challenge = s256 login.verifier
  verified : a.verified ≠ some false

/-- What the callback's lookup of the address gave. -/
def LookedUp (steps : SsoSteps) (j : Nat) (a : Authorisation) (account : Option User) : Prop :=
  ∃ u, (u, .lookup j) ∈ steps ∧ (getUserByEmail table box u.users a.email).toOption = account

/-- The identity is the account of the address, or the address itself, where the lookup
found no account and the list had the address when it was asked. -/
def Entitled (steps : SsoSteps) (j : Nat) (a : Authorisation) (userID : Int)
    (email : String) : Prop :=
  (∃ user, LookedUp table box steps j a (some user) ∧ userID = user.id ∧ email = user.email) ∨
    (LookedUp table box steps j a none ∧
      (∃ u, (u, .permit j) ∈ steps ∧
        emailAllowed table a.email (u.setup.setting "oidc_allowed_emails") = true) ∧
      userID = 0 ∧ email = "oidc:" ++ accountKey table a.email)

/-- What a callback has seen to when it comes to a phase. -/
def PhaseSound (steps : SsoSteps) (j : Nat) (c : Callback) : CallbackPhase → Prop
  | .arrived => c.login = none ∧ c.ReadTo steps j .switch
  | .consumed => c.ReadTo steps j .switch
  | .refused _ => True
  | .configuring read => Unexpired steps j c.login ∧ c.ReadTo steps j read
  | .configured config => Unexpired steps j c.login ∧ c.ReadTo steps j (.done (.ok (some config)))
  | .vouched config a =>
      Unexpired steps j c.login ∧ c.ReadTo steps j (.done (.ok (some config))) ∧
        Vouched s256 steps j c.code c.login config a
  | .looked config a account =>
      Unexpired steps j c.login ∧ c.ReadTo steps j (.done (.ok (some config))) ∧
        Vouched s256 steps j c.code c.login config a ∧ LookedUp table box steps j a account
  | .admitted config a userID email =>
      Unexpired steps j c.login ∧ c.ReadTo steps j (.done (.ok (some config))) ∧
        Vouched s256 steps j c.code c.login config a ∧ Entitled table box steps j a userID email
  | .answered config a _ sess =>
      Unexpired steps j c.login ∧ c.ReadTo steps j (.done (.ok (some config))) ∧
        Vouched s256 steps j c.code c.login config a ∧
        Entitled table box steps j a sess.userID sess.email

/-- The entry that a callback took was registered under the state it presented. -/
def TookSound (s : SsoState) (c : Callback) : Prop :=
  ∀ login, c.login = some login →
    Registered s256 s c.state login ∧ c.cookie = some c.state ∧ c.state ≠ ""

end Callback

end

/-! ### What stays

Answered starts stay as they are, and so does what a callback was told at steps it has
behind it, whoever moves next. -/

section

variable {table : CaseTable} {box : Box} {s256 : String → String} {s s' : SsoState}
  {steps steps' : SsoSteps} {j : Nat}

/-- Whether the step is a statement of `oidcConfig` in the callback. -/
def SsoStep.ReadBy (label : SsoStep) (j : Nat) : Prop :=
  ∃ discovered, label = .reconfigure j discovered

theorem SsoSteps.readsOf_concat {label : SsoStep} (h : ¬ label.ReadBy j) :
    SsoSteps.readsOf (steps ++ [(s, label)]) j = steps.readsOf j := by
  have hnone : SsoSteps.readsOf [(s, label)] j = [] := by
    cases label with
    | reconfigure j' discovered =>
        have hne : j' ≠ j := by
          rintro rfl
          exact h ⟨discovered, rfl⟩
        simp [SsoSteps.readsOf, hne]
    | _ => rfl
  rw [SsoSteps.readsOf, List.filterMap_append]
  exact (congrArg (_ ++ ·) hnone).trans (List.append_nil _)

theorem SsoSteps.readsOf_concat_self {discovered : Bool} :
    SsoSteps.readsOf (steps ++ [(s, .reconfigure j discovered)]) j =
      steps.readsOf j ++ [(s.setup, discovered)] := by
  simp [SsoSteps.readsOf]

/-- What one state has of another that came before it. -/
def SsoState.Grown (s s' : SsoState) : Prop :=
  ∀ (i : Nat) (st : Start) (r : Redirect), s.starts[i]? = some st → st.phase = .answered r →
    s'.starts[i]? = some st

theorem Registered.mono {key : String} {login : AdminOIDCLogin} (h : Registered s256 s key login)
    (hgrown : s.Grown s') : Registered s256 s' key login := by
  obtain ⟨st, r, hst, hphase, hrest⟩ := h
  exact ⟨st, r, hgrown _ st r hst hphase, hphase, hrest⟩

namespace Callback

variable {c : Callback} {config : OIDCConfig} {a : Authorisation}

theorem Unexpired.mono {taken : Option AdminOIDCLogin} (h : Unexpired steps j taken)
    (hsub : steps ⊆ steps') : Unexpired steps' j taken := by
  obtain ⟨login, u, hlogin, hu, hnow⟩ := h
  exact ⟨login, u, hlogin, hsub hu, hnow⟩

theorem Vouched.mono {code : String} {taken : Option AdminOIDCLogin}
    (h : Vouched s256 steps j code taken config a) (hsub : steps ⊆ steps') :
    Vouched s256 steps' j code taken config a := by
  obtain ⟨u, hu, hauthorised⟩ := h.authorised
  exact { h with authorised := ⟨u, hsub hu, hauthorised⟩ }

theorem LookedUp.mono {account : Option User} (h : LookedUp table box steps j a account)
    (hsub : steps ⊆ steps') : LookedUp table box steps' j a account := by
  obtain ⟨u, hu, hlooked⟩ := h
  exact ⟨u, hsub hu, hlooked⟩

theorem Entitled.mono {userID : Int} {email : String}
    (h : Entitled table box steps j a userID email)
    (hsub : steps ⊆ steps') : Entitled table box steps' j a userID email := by
  rcases h with ⟨user, hlooked, hid, hemail⟩ | ⟨hlooked, ⟨u, hu, hallowed⟩, hid, hemail⟩
  · exact Or.inl ⟨user, hlooked.mono hsub, hid, hemail⟩
  · exact Or.inr ⟨hlooked.mono hsub, ⟨u, hsub hu, hallowed⟩, hid, hemail⟩

/-- A phase stays sound while the callback makes no statement of `oidcConfig`. -/
theorem PhaseSound.mono {phase : CallbackPhase} (h : c.PhaseSound table box s256 steps j phase)
    (hsub : steps ⊆ steps') (hreads : steps'.readsOf j = steps.readsOf j) :
    c.PhaseSound table box s256 steps' j phase := by
  have hread : ∀ {read}, c.ReadTo steps j read → c.ReadTo steps' j read := by
    intro read hread
    rw [ReadTo, hreads]
    exact hread
  cases phase with
  | refused => trivial
  | arrived => exact ⟨h.1, hread h.2⟩
  | consumed => exact hread h
  | configuring read => exact ⟨h.1.mono hsub, hread h.2⟩
  | configured config => exact ⟨h.1.mono hsub, hread h.2⟩
  | vouched config a => exact ⟨h.1.mono hsub, hread h.2.1, h.2.2.mono hsub⟩
  | looked config a account =>
      exact ⟨h.1.mono hsub, hread h.2.1, h.2.2.1.mono hsub, h.2.2.2.mono hsub⟩
  | admitted config a userID email =>
      exact ⟨h.1.mono hsub, hread h.2.1, h.2.2.1.mono hsub, h.2.2.2.mono hsub⟩
  | answered config a id sess =>
      exact ⟨h.1.mono hsub, hread h.2.1, h.2.2.1.mono hsub, h.2.2.2.mono hsub⟩

theorem PhaseSound.concat {phase : CallbackPhase} {label : SsoStep}
    (h : c.PhaseSound table box s256 steps j phase) (hlabel : ¬ label.ReadBy j) :
    c.PhaseSound table box s256 (steps ++ [(s, label)]) j phase :=
  h.mono (List.subset_append_left _ _) (SsoSteps.readsOf_concat hlabel)

theorem TookSound.mono (h : c.TookSound s256 s) (hgrown : s.Grown s') : c.TookSound s256 s' := by
  intro login hlogin
  obtain ⟨hregistered, hrest⟩ := h login hlogin
  exact ⟨hregistered.mono hgrown, hrest⟩

end Callback

end

/-! ### What a step can do

A step of a callback takes the entry, or keeps what the callback took and moves it on, or
starts its session at last; a step of a start moves it on, or ends it with its entry in the
table, or without, the table being full.  The proofs below know no more of the steps. -/

section

variable {range : Ranges String} {table : CaseTable} {box : Box} {s256 : String → String}
  {s s' : SsoState} {steps : SsoSteps} {label : SsoStep} {j : Nat} {c : Callback}

/-- The callback that the step moves. -/
def SsoStep.callback : SsoStep → Option Nat
  | .consume j | .expiry j | .reconfigure j _ | .exchange j _ | .lookup j | .permit j
      | .start j _ => some j
  | _ => none

theorem SsoStep.not_readBy (h : label.callback ≠ some j) : ¬ label.ReadBy j := by
  rintro ⟨discovered, rfl⟩
  exact h rfl

/-- The request the callback is of. -/
def Callback.SameRequest (c c' : Callback) : Prop :=
  c'.state = c.state ∧ c'.cookie = c.cookie ∧ c'.code = c.code ∧ c'.host = c.host ∧
    c'.scheme = c.scheme

inductive CallbackCases (range : Ranges String) (table : CaseTable) (box : Box)
    (s256 : String → String)
    (steps : SsoSteps) (s : SsoState) (j : Nat) (c : Callback) : SsoState → Prop where
  | took (harrived : c.phase = .arrived) (hcookie : c.cookie = some c.state) (hstate : c.state ≠ "")
      (hread : c.ReadTo steps j .switch) :
      CallbackCases range table box s256 steps s j c
        ({ s with oidcLogins := s.oidcLogins.erase c.state }.put j
          { c with login := s.oidcLogins.lookup c.state, phase := .consumed })
  | moved {c' : Callback} (hsame : c.SameRequest c') (hlogin : c'.login = c.login)
      (hphase : c'.PhaseSound table box s256 steps j c'.phase)
      (hopen : ∀ config a id sess, c.phase ≠ .answered config a id sess) :
      CallbackCases range table box s256 steps s j c (s.put j c')
  | started {config : OIDCConfig} {a : Authorisation} {id : String} {sess : Session}
      (hphase : c.PhaseSound table box s256 steps j (.answered config a id sess))
      (hopen : ∀ config a id sess, c.phase ≠ .answered config a id sess) :
      CallbackCases range table box s256 steps s j c
        ({ s with sessions := storeSessionLocked (range Session) s.now id sess s.sessions }.put j
          { c with phase := .answered config a id sess })

theorem callbackPhase_sound {read : ConfigRead} (hunexpired : Callback.Unexpired steps j c.login)
    (hread : c.ReadTo steps j read) :
    c.PhaseSound table box s256 steps j read.callbackPhase := by
  unfold ConfigRead.callbackPhase
  split
  · exact ⟨hunexpired, hread⟩
  · trivial
  · exact ⟨hunexpired, hread⟩

theorem exchangePhase_sound {login : AdminOIDCLogin} {config : OIDCConfig} {answer : Exchange}
    {phase : CallbackPhase} (h : exchangePhase s256 s c login config answer = some phase)
    (hlogin : c.login = some login) (hunexpired : Callback.Unexpired steps j c.login)
    (hread : c.ReadTo steps j (.done (.ok (some config))))
    (hstep : (s, .exchange j answer) ∈ steps) :
    c.PhaseSound table box s256 steps j phase := by
  cases answer with
  | failed | noIDToken | unverifiable =>
      obtain rfl := Option.some.inj h
      trivial
  | token a readable =>
      simp only [exchangePhase, Option.ite_none_right_eq_some, Option.some.injEq] at h
      obtain ⟨⟨hauthorised, hcode, hchallenge, hissuer, hclient⟩, rfl⟩ := h
      split_ifs with hnonce hreadable hverified
      · trivial
      · trivial
      · trivial
      · have hreads : readable = true := by simpa using hreadable
        subst hreads
        exact ⟨hunexpired, hread,
          { authorised := ⟨s, hstep, hauthorised⟩
            code := hcode
            issuer := hissuer
            clientID := hclient
            bound := ⟨login, hlogin, not_not.mp hnonce, hchallenge⟩
            verified := hverified }⟩

theorem admitPhase_sound {config : OIDCConfig} {a : Authorisation} {account : Option User}
    (hsound : c.PhaseSound table box s256 steps j (.looked config a account))
    (hstep : (s, .permit j) ∈ steps) :
    c.PhaseSound table box s256 steps j (admitPhase table s config a account) := by
  obtain ⟨hunexpired, hread, hvouched, hlooked⟩ := hsound
  cases account with
  | some user => exact ⟨hunexpired, hread, hvouched, Or.inl ⟨user, hlooked, rfl, rfl⟩⟩
  | none =>
      rw [admitPhase]
      cases hallowed : emailAllowed table a.email (s.setup.setting "oidc_allowed_emails") with
      | true =>
          exact ⟨hunexpired, hread, hvouched, Or.inr ⟨hlooked, ⟨s, hstep, hallowed⟩, rfl, rfl⟩⟩
      | false => trivial

theorem callbackStep_cases (h : callbackStep range table box s256 s j c label = some s')
    (hj : label.callback = some j) (hsound : c.PhaseSound table box s256 steps j c.phase) :
    CallbackCases range table box s256 (steps ++ [(s, label)]) s j c s' := by
  have hsame : ∀ {phase : CallbackPhase}, c.SameRequest { c with phase } :=
    ⟨rfl, rfl, rfl, rfl, rfl⟩
  have hlast : (s, label) ∈ steps ++ [(s, label)] :=
    List.mem_append_right _ (List.mem_singleton_self _)
  have hkept := fun hlabel =>
    @Callback.PhaseSound.concat table box s256 s steps j c c.phase label hsound hlabel
  cases label with
  | consume j' =>
      obtain rfl : j' = j := Option.some.inj hj
      have hsound := hkept (by rintro ⟨_, h⟩; cases h)
      simp only [callbackStep] at h
      split at h
      · rename_i harrived
        obtain rfl := Option.some.inj h
        rw [harrived] at hsound
        unfold SsoState.consume
        split_ifs with hcookie
        · exact .took harrived hcookie.1 hcookie.2 hsound.2
        · exact .moved hsame rfl trivial (by simp [harrived])
      · cases h
  | expiry j' =>
      obtain rfl : j' = j := Option.some.inj hj
      have hsound := hkept (by rintro ⟨_, h⟩; cases h)
      simp only [callbackStep] at h
      split at h
      · rename_i hphase hlogin
        obtain rfl := Option.some.inj h
        exact .moved hsame rfl trivial (by simp [hphase])
      · rename_i login hphase hlogin
        obtain rfl := Option.some.inj h
        rw [hphase] at hsound
        refine .moved hsame rfl ?_ (by simp [hphase])
        dsimp only
        split_ifs with hexpired
        · trivial
        · exact ⟨⟨login, s, hlogin, hlast, Nat.not_lt.mp hexpired⟩, hsound⟩
      · cases h
  | reconfigure j' discovered =>
      obtain rfl : j' = j := Option.some.inj hj
      simp only [callbackStep] at h
      split at h
      · rename_i read hphase
        obtain rfl := Option.some.inj h
        rw [hphase] at hsound
        refine .moved hsame rfl ?_ (by simp [hphase])
        refine callbackPhase_sound (hsound.1.mono (List.subset_append_left _ _)) ?_
        rw [Callback.ReadTo, SsoSteps.readsOf_concat_self, ConfigRead.after_concat]
        exact congrArg _ hsound.2
      · cases h
  | exchange j' answer =>
      obtain rfl : j' = j := Option.some.inj hj
      have hsound := hkept (by rintro ⟨_, h⟩; cases h)
      simp only [callbackStep] at h
      split at h
      · rename_i config login hphase hlogin
        obtain ⟨phase, hexchange, rfl⟩ := Option.map_eq_some_iff.mp h
        rw [hphase] at hsound
        refine .moved hsame rfl ?_ (by simp [hphase])
        exact exchangePhase_sound hexchange hlogin hsound.1 hsound.2 hlast
      · cases h
  | lookup j' =>
      obtain rfl : j' = j := Option.some.inj hj
      have hsound := hkept (by rintro ⟨_, h⟩; cases h)
      simp only [callbackStep] at h
      split at h
      · rename_i config a hphase
        obtain rfl := Option.some.inj h
        rw [hphase] at hsound
        refine .moved hsame rfl ?_ (by simp [hphase])
        exact ⟨hsound.1, hsound.2.1, hsound.2.2, s, hlast, rfl⟩
      · cases h
  | permit j' =>
      obtain rfl : j' = j := Option.some.inj hj
      have hsound := hkept (by rintro ⟨_, h⟩; cases h)
      simp only [callbackStep] at h
      split at h
      · rename_i config a account hphase
        obtain rfl := Option.some.inj h
        rw [hphase] at hsound
        refine .moved hsame rfl ?_ (by simp [hphase])
        exact admitPhase_sound hsound hlast
      · cases h
  | start j' id =>
      have hsound := hkept (by rintro ⟨_, h⟩; cases h)
      simp only [callbackStep] at h
      split at h
      · rename_i config a userID email hphase
        rw [hphase] at hsound
        cases id with
        | none =>
            obtain rfl := Option.some.inj h
            exact .moved hsame rfl trivial (by simp [hphase])
        | some id =>
            obtain rfl := Option.some.inj h
            exact .started hsound (by simp [hphase])
      · cases h
  | _ => cases h

inductive StartCases (s256 : String → String) (s : SsoState) (i : Nat) (st : Start) :
    SsoState → Prop where
  | moved {oidcStarts : Throttle} {phase : StartPhase} (hopen : ∀ r, st.phase ≠ .answered r)
      (hphase : ∀ r, phase ≠ .answered r)
      (hdrawn : ∀ config state login, phase = .drawn config state login → login.start = i) :
      StartCases s256 s i st ({ s with oidcStarts }.putStart i st phase)
  | full {config : OIDCConfig} {state : String} {login : AdminOIDCLogin}
      (hphase : st.phase = .drawn config state login) :
      StartCases s256 s i st ({ s with oidcLogins := s.pending }.putStart i st (.refused 503))
  | registered {config : OIDCConfig} {state : String} {login : AdminOIDCLogin}
      (hphase : st.phase = .drawn config state login)
        (hroom : s.pending.len < adminOIDCMaxPending) :
      StartCases s256 s i st ({ s with oidcLogins := s.pending.insert state login }.putStart i st
        (.answered ⟨config, state, login.nonce, s256 login.verifier, login.expires⟩))

theorem startStep_cases {i : Nat} {st : Start} (h : startStep range s256 s i st label = some s') :
    StartCases s256 s i st s' := by
  cases label with
  | allow _ =>
      simp only [startStep] at h
      split at h
      · rename_i hphase
        obtain rfl := Option.some.inj h
        refine .moved (by simp [hphase]) ?_ ?_
        · intro r
          split <;> simp
        · intro config state login
          split <;> simp
      · cases h
  | count _ =>
      simp only [startStep] at h
      split at h
      · rename_i hphase
        obtain rfl := Option.some.inj h
        exact .moved (by simp [hphase]) (by simp) (by simp)
      · cases h
  | configure _ discovered =>
      simp only [startStep] at h
      split at h
      · rename_i hphase
        obtain rfl := Option.some.inj h
        refine @StartCases.moved s256 s i st s.oidcStarts _ (by simp [hphase]) ?_ ?_
        · intro r
          unfold ConfigRead.startPhase
          split <;> simp
        · intro config state login
          unfold ConfigRead.startPhase
          split <;> simp
      · cases h
  | draw _ state nonce verifier =>
      simp only [startStep] at h
      split at h
      · rename_i config hphase
        obtain rfl := Option.some.inj h
        refine @StartCases.moved s256 s i st s.oidcStarts _ (by simp [hphase]) ?_ ?_
        · intro r
          split <;> simp
        · intro config' state' login hdrawn
          split at hdrawn
          · simp only [StartPhase.drawn.injEq] at hdrawn
            rw [← hdrawn.2.2]
          · cases hdrawn
      · cases h
  | register _ =>
      simp only [startStep] at h
      split at h
      · rename_i config state login hphase
        obtain rfl := Option.some.inj h
        unfold SsoState.register
        split_ifs with hfull
        · exact .full hphase
        · exact .registered hphase (Nat.not_le.mp hfull)
      · cases h
  | _ => cases h

/-! ### The invariant -/

/-- An entry that is not swept away is one of the table. -/
theorem lookup_pending {key : String} {login : AdminOIDCLogin} :
    s.pending.lookup key = some login ↔
      s.oidcLogins.lookup key = some login ∧ s.now ≤ login.expires := by
  unfold SsoState.pending
  rw [GoMap.lookup_eraseAll_filter, Option.filter_eq_some_iff]
  simp

/-- Every session that a callback started rests on its own start and on a sign-in at the
provider; no entry is taken twice. -/
structure SsoInv (table : CaseTable) (box : Box) (s256 : String → String) (steps : SsoSteps)
    (s : SsoState) : Prop where
  room : s.oidcLogins.len ≤ adminOIDCMaxPending
  drawn : ∀ {i : Nat} {st : Start} {config state} {login : AdminOIDCLogin}, s.starts[i]? = some st →
    st.phase = .drawn config state login → login.start = i
  entries : ∀ {key login}, s.oidcLogins.lookup key = some login → Registered s256 s key login
  apart : ∀ {key key'} {login login' : AdminOIDCLogin}, s.oidcLogins.lookup key = some login →
    s.oidcLogins.lookup key' = some login' → login.start = login'.start → key = key'
  takes : ∀ {j : Nat} {c : Callback}, s.callbacks[j]? = some c → c.TookSound s256 s
  phases : ∀ {j : Nat} {c : Callback}, s.callbacks[j]? = some c →
    c.PhaseSound table box s256 steps j c.phase
  unread : ∀ {j : Nat}, s.callbacks.length ≤ j → steps.readsOf j = []
  taken : ∀ {j : Nat} {c : Callback} {login key} {login' : AdminOIDCLogin},
    s.callbacks[j]? = some c →
    c.login = some login → s.oidcLogins.lookup key = some login' → login'.start ≠ login.start
  once : ∀ {j j' : Nat} {c c' : Callback} {login login' : AdminOIDCLogin},
    s.callbacks[j]? = some c → s.callbacks[j']? = some c' → c.login = some login →
    c'.login = some login' → login.start = login'.start → j = j'
  sessions : ∀ {id sess}, s.sessions.lookup id = some sess → (∃ u, (u, .signIn id sess) ∈ steps) ∨
    ∃ (j : Nat) (c : Callback) (config : OIDCConfig) (a : Authorisation),
      s.callbacks[j]? = some c ∧ c.phase = .answered config a id sess

theorem SsoInv.fresh (setup : OIDCSetup) (users : Users) :
    SsoInv table box s256 [] (SsoState.fresh setup users) where
  room := Nat.zero_le _
  drawn := by simp [SsoState.fresh]
  entries := by simp [SsoState.fresh]
  apart := by simp [SsoState.fresh]
  takes := by simp [SsoState.fresh]
  phases := by simp [SsoState.fresh]
  unread := fun _ => rfl
  taken := by simp [SsoState.fresh]
  once := by simp [SsoState.fresh]
  sessions := by simp [SsoState.fresh]

/-- What is known of the sessions outlasts a step that starts none of its own. -/
theorem SsoInv.sessions_concat (h : SsoInv table box s256 steps s) {id : String} {sess : Session}
    (hlookup : s.sessions.lookup id = some sess) :
    (∃ u, (u, SsoStep.signIn id sess) ∈ steps ++ [(s, label)]) ∨
      ∃ (j : Nat) (c : Callback) (config : OIDCConfig) (a : Authorisation),
        s.callbacks[j]? = some c ∧ c.phase = .answered config a id sess := by
  refine (h.sessions hlookup).imp_left ?_
  rintro ⟨u, hu⟩
  exact ⟨u, List.mem_append_left _ hu⟩

/-- A change of the world around. -/
theorem SsoInv.world (h : SsoInv table box s256 steps s) (hlabel : label.callback = none)
    (hlogins : s'.oidcLogins = s.oidcLogins) (hstarts : s'.starts = s.starts)
    (hcallbacks : s'.callbacks = s.callbacks)
    (hsessions : ∀ {id sess}, s'.sessions.lookup id = some sess →
      label = .signIn id sess ∨ s.sessions.lookup id = some sess) :
    SsoInv table box s256 (steps ++ [(s, label)]) s' := by
  have hgrown : s.Grown s' := by
    intro i st r hst _
    rw [hstarts]
    exact hst
  have hunread : ∀ {j : Nat}, ¬ label.ReadBy j := fun {j} => SsoStep.not_readBy (by simp [hlabel])
  refine ⟨?_, ?_, ?_, ?_, ?_, ?_, ?_, ?_, ?_, ?_⟩
  · rw [hlogins]
    exact h.room
  · rw [hstarts]
    exact h.drawn
  · rw [hlogins]
    exact fun hlookup => (h.entries hlookup).mono hgrown
  · rw [hlogins]
    exact h.apart
  · rw [hcallbacks]
    exact fun hc => (h.takes hc).mono hgrown
  · rw [hcallbacks]
    exact fun hc => (h.phases hc).concat hunread
  · rw [hcallbacks]
    exact fun hj => (SsoSteps.readsOf_concat hunread).trans (h.unread hj)
  · rw [hlogins, hcallbacks]
    exact h.taken
  · rw [hcallbacks]
    exact h.once
  · intro id sess hlookup
    rw [hcallbacks]
    rcases hsessions hlookup with rfl | hold
    · exact Or.inl ⟨s, List.mem_append_right _ (List.mem_singleton_self _)⟩
    · exact h.sessions_concat hold

/-- A start that is not answered yet may change. -/
theorem SsoState.Grown.putStart {i : Nat} {st : Start} (hst : s.starts[i]? = some st)
    (hopen : ∀ r, st.phase ≠ .answered r) (oidcStarts : Throttle)
    (oidcLogins : GoMap String AdminOIDCLogin) (phase : StartPhase) :
    s.Grown ({ s with oidcStarts, oidcLogins }.putStart i st phase) := by
  intro i' st' r hst' hphase
  have hne : i ≠ i' := by
    rintro rfl
    obtain rfl := Option.some.inj (hst.symm.trans hst')
    exact hopen r hphase
  exact (List.getElem?_set_ne hne).trans hst'

/-! ### Steps of starts

A start may sweep away entries that have expired and add its own; what callbacks have taken is
not in the table any more. -/

/-- A start that moves without an entry of its own; entries may be swept away. -/
theorem SsoInv.startMoved (h : SsoInv table box s256 steps s) (hlabel : label.callback = none)
    {i : Nat}
    {st : Start} (hst : s.starts[i]? = some st) (hopen : ∀ r, st.phase ≠ .answered r)
    {oidcStarts : Throttle} {oidcLogins : GoMap String AdminOIDCLogin} {phase : StartPhase}
    (hdrawn : ∀ config state login, phase = .drawn config state login → login.start = i)
    (hkept : ∀ {key login}, oidcLogins.lookup key = some login →
      s.oidcLogins.lookup key = some login)
    (hroom : oidcLogins.len ≤ adminOIDCMaxPending) :
    SsoInv table box s256 (steps ++ [(s, label)])
      ({ s with oidcStarts, oidcLogins }.putStart i st phase) := by
  have hgrown := SsoState.Grown.putStart hst hopen oidcStarts oidcLogins phase
  have hunread : ∀ {j : Nat}, ¬ label.ReadBy j := fun {j} => SsoStep.not_readBy (by simp [hlabel])
  refine ⟨hroom, ?_, ?_, ?_, ?_, ?_, ?_, ?_, h.once, h.sessions_concat⟩
  · intro i' st' config state login hst' hphase
    rcases getElem?_set_eq_some hst' with ⟨rfl, rfl⟩ | ⟨-, hst'⟩
    · exact hdrawn config state login hphase
    · exact h.drawn hst' hphase
  · exact fun hlookup => (h.entries (hkept hlookup)).mono hgrown
  · exact fun hlookup hlookup' => h.apart (hkept hlookup) (hkept hlookup')
  · exact fun hc => (h.takes hc).mono hgrown
  · exact fun hc => (h.phases hc).concat hunread
  · exact fun hj => (SsoSteps.readsOf_concat hunread).trans (h.unread hj)
  · exact fun hc hlogin hlookup => h.taken hc hlogin (hkept hlookup)

theorem len_pending_le (s : SsoState) : s.pending.len ≤ s.oidcLogins.len :=
  GoMap.len_eraseAll_le _ _

/-- A start whose entry goes into the table. -/
theorem SsoInv.registered (h : SsoInv table box s256 steps s) (hlabel : label.callback = none)
    {i : Nat}
    {st : Start} (hst : s.starts[i]? = some st) {config : OIDCConfig} {state : String}
    {login : AdminOIDCLogin} (hphase : st.phase = .drawn config state login)
    (hroom : s.pending.len < adminOIDCMaxPending) :
    SsoInv table box s256 (steps ++ [(s, label)])
      ({ s with oidcLogins := s.pending.insert state login }.putStart i st
        (.answered ⟨config, state, login.nonce, s256 login.verifier, login.expires⟩)) := by
  obtain rfl := h.drawn hst hphase
  have hopen : ∀ r, st.phase ≠ .answered r := by simp [hphase]
  have hgrown := SsoState.Grown.putStart hst hopen s.oidcStarts (s.pending.insert state login)
    (.answered ⟨config, state, login.nonce, s256 login.verifier, login.expires⟩)
  have hunread : ∀ {j : Nat}, ¬ label.ReadBy j := fun {j} => SsoStep.not_readBy (by simp [hlabel])
  -- no entry was made by this start before
  have hnew : ∀ {key : String} {login' : AdminOIDCLogin}, Registered s256 s key login' →
      login'.start ≠ login.start := by
    rintro key login' ⟨st', r, hst', hphase', -⟩ heq
    rw [heq] at hst'
    obtain rfl := Option.some.inj (hst.symm.trans hst')
    exact hopen r hphase'
  have hold : ∀ {key login'}, (s.pending.insert state login).lookup key = some login' →
      (key = state ∧ login' = login) ∨ s.oidcLogins.lookup key = some login' := by
    intro key login' hlookup
    by_cases hkey : key = state
    · subst hkey
      rw [AList.lookup_insert] at hlookup
      exact Or.inl ⟨rfl, (Option.some.inj hlookup).symm⟩
    · rw [AList.lookup_insert_ne hkey] at hlookup
      exact Or.inr (lookup_pending.mp hlookup).1
  refine ⟨?_, ?_, ?_, ?_, ?_, ?_, ?_, ?_, h.once, h.sessions_concat⟩
  · have hlen := GoMap.len_insert s.pending state login
    have hle := GoMap.len_erase_le s.pending state
    simp only [SsoState.putStart]
    omega
  · intro i' st' config' state' login' hst' hphase'
    rcases getElem?_set_eq_some hst' with ⟨-, rfl⟩ | ⟨-, hst'⟩
    · cases hphase'
    · exact h.drawn hst' hphase'
  · intro key login' hlookup
    rcases hold hlookup with ⟨rfl, rfl⟩ | hlookup
    · have hlt := (List.getElem?_eq_some_iff.mp hst).1
      exact ⟨_, _, List.getElem?_set_self hlt, rfl, rfl, rfl, rfl, rfl⟩
    · exact (h.entries hlookup).mono hgrown
  · intro key key' login₁ login₂ hlookup hlookup' heq
    rcases hold hlookup with ⟨rfl, rfl⟩ | hold₁
    · rcases hold hlookup' with ⟨rfl, rfl⟩ | hold₂
      · rfl
      · exact absurd heq.symm (hnew (h.entries hold₂))
    · rcases hold hlookup' with ⟨rfl, rfl⟩ | hold₂
      · exact absurd heq (hnew (h.entries hold₁))
      · exact h.apart hold₁ hold₂ heq
  · exact fun hc => (h.takes hc).mono hgrown
  · exact fun hc => (h.phases hc).concat hunread
  · exact fun hj => (SsoSteps.readsOf_concat hunread).trans (h.unread hj)
  · intro j c taken key login' hc hlogin hlookup
    rcases hold hlookup with ⟨rfl, rfl⟩ | hlookup
    · intro heq
      exact hnew (h.takes hc taken hlogin).1 heq.symm
    · exact h.taken hc hlogin hlookup

theorem SsoInv.startStep (h : SsoInv table box s256 steps s) (hlabel : label.callback = none)
    {i : Nat}
    {st : Start} (hst : s.starts[i]? = some st)
    (hstep : startStep range s256 s i st label = some s') :
    SsoInv table box s256 (steps ++ [(s, label)]) s' := by
  cases startStep_cases hstep with
  | moved hopen hphase hdrawn => exact h.startMoved hlabel hst hopen hdrawn (fun hl => hl) h.room
  | full hphase =>
      refine h.startMoved hlabel hst (by simp [hphase]) (by simp)
        (fun hl => (lookup_pending.mp hl).1) ?_
      exact (len_pending_le s).trans h.room
  | registered hphase hroom => exact h.registered hlabel hst hphase hroom

/-! ### Steps of callbacks

Only the callback that moves has anything new to show.  Taking an entry is the one step that
brings a callback and a start together. -/

/-- Callbacks that do not move stay sound. -/
theorem SsoInv.phases_of_ne (h : SsoInv table box s256 steps s) (hj : label.callback = some j)
    {c' : Callback} {j' : Nat} {d : Callback}
    (hphase : c'.PhaseSound table box s256 (steps ++ [(s, label)]) j c'.phase)
    (hd : (s.callbacks.set j c')[j']? = some d) :
    d.PhaseSound table box s256 (steps ++ [(s, label)]) j' d.phase := by
  rcases getElem?_set_eq_some hd with ⟨rfl, rfl⟩ | ⟨hne, hold⟩
  · exact hphase
  · exact (h.phases hold).concat (SsoStep.not_readBy (by simpa [hj] using hne.symm))

theorem SsoInv.unread_of_lt (h : SsoInv table box s256 steps s) (hj : label.callback = some j)
    (hlt : j < s.callbacks.length) {c' : Callback} {j' : Nat}
    (hj' : (s.callbacks.set j c').length ≤ j') :
    SsoSteps.readsOf (steps ++ [(s, label)]) j' = [] := by
  rw [List.length_set] at hj'
  have hne : label.callback ≠ some j' := by
    rw [hj]
    simp only [ne_eq, Option.some.injEq]
    omega
  exact (SsoSteps.readsOf_concat (SsoStep.not_readBy hne)).trans (h.unread hj')

/-- A callback that takes the entry of its state. -/
theorem SsoInv.took (h : SsoInv table box s256 steps s) (hj : label.callback = some j)
    (hc : s.callbacks[j]? = some c) (harrived : c.phase = .arrived)
    (hcookie : c.cookie = some c.state)
    (hstate : c.state ≠ "") (hread : c.ReadTo (steps ++ [(s, label)]) j .switch) :
    SsoInv table box s256 (steps ++ [(s, label)])
      ({ s with oidcLogins := s.oidcLogins.erase c.state }.put j
        { c with login := s.oidcLogins.lookup c.state, phase := .consumed }) := by
  have hgrown : s.Grown ({ s with oidcLogins := s.oidcLogins.erase c.state }.put j
      { c with login := s.oidcLogins.lookup c.state, phase := .consumed }) := fun _ _ _ hst _ => hst
  have hkept : ∀ {key login}, (s.oidcLogins.erase c.state).lookup key = some login →
      key ≠ c.state ∧ s.oidcLogins.lookup key = some login := by
    intro key login hlookup
    by_cases hkey : key = c.state
    · rw [hkey, AList.lookup_erase] at hlookup
      cases hlookup
    · rw [AList.lookup_erase_ne hkey] at hlookup
      exact ⟨hkey, hlookup⟩
  refine ⟨?_, h.drawn, ?_, ?_, ?_, ?_, ?_, ?_, ?_, ?_⟩
  · exact (GoMap.len_erase_le s.oidcLogins c.state).trans h.room
  · exact fun hlookup => (h.entries (hkept hlookup).2).mono hgrown
  · exact fun hlookup hlookup' => h.apart (hkept hlookup).2 (hkept hlookup').2
  · intro j' c' hc'
    rcases getElem?_set_eq_some hc' with ⟨-, rfl⟩ | ⟨-, hc'⟩
    · intro login hlogin
      exact ⟨(h.entries hlogin).mono hgrown, hcookie, hstate⟩
    · exact (h.takes hc').mono hgrown
  · exact h.phases_of_ne hj hread
  · exact h.unread_of_lt hj (List.getElem?_eq_some_iff.mp hc).1
  · intro j' c' login key login' hc' hlogin hlookup heq
    obtain ⟨hne, hlookup⟩ := hkept hlookup
    rcases getElem?_set_eq_some hc' with ⟨-, rfl⟩ | ⟨-, hc'⟩
    · exact hne (h.apart hlookup hlogin heq)
    · exact h.taken hc' hlogin hlookup heq
  · intro j₁ j₂ c₁ c₂ login₁ login₂ hc₁ hc₂ hlogin₁ hlogin₂ heq
    rcases getElem?_set_eq_some hc₁ with ⟨rfl, rfl⟩ | ⟨hne₁, hold₁⟩
    · rcases getElem?_set_eq_some hc₂ with ⟨rfl, rfl⟩ | ⟨hne₂, hold₂⟩
      · rfl
      · exact absurd heq (h.taken hold₂ hlogin₂ hlogin₁)
    · rcases getElem?_set_eq_some hc₂ with ⟨rfl, rfl⟩ | ⟨hne₂, hold₂⟩
      · exact absurd heq.symm (h.taken hold₁ hlogin₁ hlogin₂)
      · exact h.once hold₁ hold₂ hlogin₁ hlogin₂ heq
  · intro id sess hlookup
    rcases h.sessions_concat hlookup with helse | ⟨j', c', config, a, hc', hphase⟩
    · exact Or.inl helse
    · refine Or.inr ⟨j', c', config, a, ?_, hphase⟩
      have hne : j ≠ j' := by
        rintro rfl
        obtain rfl := Option.some.inj (hc.symm.trans hc')
        rw [harrived] at hphase
        cases hphase
      exact (List.getElem?_set_ne hne).trans hc'

/-- A callback that keeps what it took. -/
theorem SsoInv.callbackMoved (h : SsoInv table box s256 steps s) (hj : label.callback = some j)
    {c' : Callback} (hc : s.callbacks[j]? = some c) (hsame : c.SameRequest c')
    (hlogin : c'.login = c.login)
    (hphase : c'.PhaseSound table box s256 (steps ++ [(s, label)]) j c'.phase)
    (hopen : ∀ config a id sess, c.phase ≠ .answered config a id sess)
    {sessions : GoMap String Session}
    (hsessions : ∀ {id sess}, sessions.lookup id = some sess →
      (∃ config a, c'.phase = .answered config a id sess) ∨ s.sessions.lookup id = some sess) :
    SsoInv table box s256 (steps ++ [(s, label)]) ({ s with sessions }.put j c') := by
  have hgrown : s.Grown ({ s with sessions }.put j c') := fun _ _ _ hst _ => hst
  have hlt := (List.getElem?_eq_some_iff.mp hc).1
  -- a callback has the entry it had before
  have hbefore : ∀ {j' : Nat} {d : Callback},
    ({ s with sessions }.put j c').callbacks[j']? = some d →
      ∃ d', s.callbacks[j']? = some d' ∧ d'.login = d.login := by
    intro j' d hd
    rcases getElem?_set_eq_some hd with ⟨rfl, rfl⟩ | ⟨-, hold⟩
    · exact ⟨c, hc, hlogin.symm⟩
    · exact ⟨d, hold, rfl⟩
  refine ⟨h.room, h.drawn, ?_, h.apart, ?_, ?_, ?_, ?_, ?_, ?_⟩
  · exact fun hlookup => (h.entries hlookup).mono hgrown
  · intro j' d hd
    rcases getElem?_set_eq_some hd with ⟨-, rfl⟩ | ⟨-, hold⟩
    · intro login hd'
      obtain ⟨hregistered, hcookie, hne⟩ := h.takes hc login (hlogin ▸ hd')
      obtain ⟨hstate, hcookie', -⟩ := hsame
      rw [hstate, hcookie']
      exact ⟨hregistered.mono hgrown, hcookie, hne⟩
    · exact (h.takes hold).mono hgrown
  · exact h.phases_of_ne hj hphase
  · exact h.unread_of_lt hj hlt
  · intro j' d login key login' hd hlogin' hlookup
    obtain ⟨d', hd', hsame'⟩ := hbefore hd
    exact h.taken hd' (hsame'.trans hlogin') hlookup
  · intro j₁ j₂ d₁ d₂ login₁ login₂ hd₁ hd₂ hlogin₁ hlogin₂ heq
    obtain ⟨d₁', hd₁', hsame₁⟩ := hbefore hd₁
    obtain ⟨d₂', hd₂', hsame₂⟩ := hbefore hd₂
    exact h.once hd₁' hd₂' (hsame₁.trans hlogin₁) (hsame₂.trans hlogin₂) heq
  · intro id sess hlookup
    rcases hsessions hlookup with ⟨config, a, hanswered⟩ | hold
    · exact Or.inr ⟨j, c', config, a, List.getElem?_set_self hlt, hanswered⟩
    · rcases h.sessions_concat hold with helse | ⟨j', d, config, a, hd, hanswered⟩
      · exact Or.inl helse
      · refine Or.inr ⟨j', d, config, a, ?_, hanswered⟩
        have hne : j ≠ j' := by
          rintro rfl
          obtain rfl := Option.some.inj (hc.symm.trans hd)
          exact hopen config a id sess hanswered
        exact (List.getElem?_set_ne hne).trans hd

theorem SsoInv.callbackStep (h : SsoInv table box s256 steps s) (hj : label.callback = some j)
    (hc : s.callbacks[j]? = some c)
    (hstep : callbackStep range table box s256 s j c label = some s') :
    SsoInv table box s256 (steps ++ [(s, label)]) s' := by
  cases callbackStep_cases hstep hj (h.phases hc) with
  | took harrived hcookie hstate hread => exact h.took hj hc harrived hcookie hstate hread
  | moved hsame hlogin hphase hopen =>
      exact h.callbackMoved hj hc hsame hlogin hphase hopen fun hlookup => Or.inr hlookup
  | @started config a id sess hphase hopen =>
      have hmoved := @SsoInv.callbackMoved table box s256 s steps label j c h hj
        { c with phase := .answered config a id sess } hc ⟨rfl, rfl, rfl, rfl, rfl⟩ rfl hphase hopen
      apply hmoved
      intro id' sess' hlookup
      rcases of_lookup_storeSessionLocked hlookup with ⟨rfl, rfl⟩ | ⟨-, hold⟩
      · exact Or.inl ⟨config, a, rfl⟩
      · exact Or.inr hold

theorem SsoInv.arrivedStart (h : SsoInv table box s256 steps s) (hlabel : label.callback = none)
    {st : Start} (hphase : st.phase = .arrived) :
    SsoInv table box s256 (steps ++ [(s, label)]) { s with starts := s.starts ++ [st] } := by
  have hgrown : s.Grown { s with starts := s.starts ++ [st] } := by
    intro i st' r hst' _
    have hlt := (List.getElem?_eq_some_iff.mp hst').1
    exact (List.getElem?_append_left hlt).trans hst'
  have hunread : ∀ {j : Nat}, ¬ label.ReadBy j := fun {j} => SsoStep.not_readBy (by simp [hlabel])
  refine ⟨h.room, ?_, ?_, h.apart, ?_, ?_, ?_, h.taken, h.once, h.sessions_concat⟩
  · intro i st' config state login hst' hdrawn
    rcases getElem?_concat_eq_some hst' with ⟨-, rfl⟩ | hold
    · rw [hphase] at hdrawn
      cases hdrawn
    · exact h.drawn hold hdrawn
  · exact fun hlookup => (h.entries hlookup).mono hgrown
  · exact fun hc => (h.takes hc).mono hgrown
  · exact fun hc => (h.phases hc).concat hunread
  · exact fun hj => (SsoSteps.readsOf_concat hunread).trans (h.unread hj)

theorem SsoInv.arrivedCallback (h : SsoInv table box s256 steps s) (hlabel : label.callback = none)
    (hlogin : c.login = none) (hphase : c.phase = .arrived) :
    SsoInv table box s256 (steps ++ [(s, label)]) { s with callbacks := s.callbacks ++ [c] } := by
  have hgrown : s.Grown { s with callbacks := s.callbacks ++ [c] } := fun _ _ _ hst _ => hst
  have hunread : ∀ {j : Nat}, ¬ label.ReadBy j := fun {j} => SsoStep.not_readBy (by simp [hlabel])
  have htaken : ∀ {j : Nat} {d : Callback} {login}, (s.callbacks ++ [c])[j]? = some d →
      d.login = some login → s.callbacks[j]? = some d := by
    intro j d login hd hsome
    rcases getElem?_concat_eq_some hd with ⟨-, rfl⟩ | hold
    · rw [hlogin] at hsome
      cases hsome
    · exact hold
  refine ⟨h.room, h.drawn, ?_, h.apart, ?_, ?_, ?_, ?_, ?_, ?_⟩
  · exact fun hlookup => (h.entries hlookup).mono hgrown
  · exact fun hd login hsome => ((h.takes (htaken hd hsome)).mono hgrown) login hsome
  · intro j d hd
    rcases getElem?_concat_eq_some hd with ⟨rfl, rfl⟩ | hold
    · rw [hphase]
      refine ⟨hlogin, ?_⟩
      rw [Callback.ReadTo, SsoSteps.readsOf_concat hunread, h.unread (Nat.le_refl _)]
      rfl
    · exact (h.phases hold).concat hunread
  · intro j hj
    rw [List.length_append] at hj
    exact (SsoSteps.readsOf_concat hunread).trans (h.unread (Nat.le_of_add_right_le hj))
  · exact fun hd hsome hlookup => h.taken (htaken hd hsome) hsome hlookup
  · exact fun hd hd' hsome hsome' heq =>
      h.once (htaken hd hsome) (htaken hd' hsome') hsome hsome' heq
  · intro id sess hlookup
    rcases h.sessions_concat hlookup with helse | ⟨j, d, config, a, hd, hanswered⟩
    · exact Or.inl helse
    · have hlt := (List.getElem?_eq_some_iff.mp hd).1
      exact Or.inr ⟨j, d, config, a, (List.getElem?_append_left hlt).trans hd, hanswered⟩

theorem SsoInv.step (h : SsoInv table box s256 steps s)
    (hstep : ssoStep range table box s256 s label = some s') :
    SsoInv table box s256 (steps ++ [(s, label)]) s' := by
  cases label with
  | tick | setUp | setUsers | authorise =>
      obtain rfl := Option.some.inj hstep
      exact h.world rfl rfl rfl rfl Or.inr
  | signIn id sess =>
      obtain rfl := Option.some.inj hstep
      refine h.world rfl rfl rfl rfl ?_
      intro id' sess' hlookup
      rcases of_lookup_storeSessionLocked hlookup with ⟨rfl, rfl⟩ | ⟨-, hold⟩
      · exact Or.inl rfl
      · exact Or.inr hold
  | revoke id =>
      obtain rfl := Option.some.inj hstep
      refine h.world rfl rfl rfl rfl ?_
      intro id' sess' hlookup
      by_cases hid : id' = id
      · subst hid
        rw [AList.lookup_erase] at hlookup
        cases hlookup
      · rw [AList.lookup_erase_ne hid] at hlookup
        exact Or.inr hlookup
  | arriveStart ip host scheme =>
      obtain rfl := Option.some.inj hstep
      exact h.arrivedStart rfl rfl
  | arriveCallback state cookie code host scheme =>
      obtain rfl := Option.some.inj hstep
      exact h.arrivedCallback rfl rfl rfl
  | allow i | count i | configure i | draw i | register i =>
      obtain ⟨st, hst, hmove⟩ := Option.bind_eq_some_iff.mp hstep
      exact h.startStep rfl hst hmove
  | consume j | expiry j | reconfigure j | exchange j | lookup j | permit j | start j =>
      obtain ⟨c, hc, hmove⟩ := Option.bind_eq_some_iff.mp hstep
      exact h.callbackStep rfl hc hmove

/-! ### Sessions are earned

Of a session that no other way to sign in has started, `Earned` says which redirect, which
configuration and which sign-in at the provider are behind it, and when each was asked for.
-/

/-- What a session that callback `j` started rests on: a redirect, whose state came back in
the query and in the cookie and had not expired when the callback looked at the clock; the
configuration that its own reads made up, each with the setup in force there; a sign-in at
that provider that followed the redirect; and the accounts and the list as they stood when
the callback asked for them. -/
structure Earned (table : CaseTable) (box : Box) (steps : SsoSteps) (j : Nat) (c : Callback)
    (r : Redirect) (config : OIDCConfig) (a : Authorisation) (sess : Session) : Prop where
  state : c.state = r.state
  cookie : c.cookie = some r.state
  checked : ∃ u, (u, .expiry j) ∈ steps ∧ u.now ≤ r.expires
  configured : ConfigRead.after c.host c.scheme (steps.readsOf j) = .done (.ok (some config))
  authorised : ∃ u, (u, .exchange j (.token a true)) ∈ steps ∧ a ∈ u.authorised
  code : a.code = c.code
  issuer : a.issuer = config.issuer
  clientID : a.clientID = config.clientID
  nonce : a.nonce = r.nonce
  challenge : a.challenge = r.challenge
  verified : a.verified ≠ some false
  entitled : Callback.Entitled table box steps j a sess.userID sess.email

def SsoState.startOf (s : SsoState) (j : Nat) : Option Nat :=
  ((s.callbacks[j]?).bind Callback.login).map AdminOIDCLogin.start

theorem SsoInv.earned (h : SsoInv table box s256 steps s) {config : OIDCConfig} {a : Authorisation}
    {id : String} {sess : Session} (hc : s.callbacks[j]? = some c)
    (hphase : c.phase = .answered config a id sess) :
    ∃ i st r, s.startOf j = some i ∧ s.starts[i]? = some st ∧ st.phase = .answered r ∧
      Earned table box steps j c r config a sess := by
  have hsound := h.phases hc
  rw [hphase] at hsound
  obtain ⟨⟨login, u, hlogin, hu, hnow⟩, hread, hvouched, hentitled⟩ := hsound
  obtain ⟨⟨st, r, hst, hanswered, hstate, hnonce, hchallenge, hexpires⟩, hcookie, -⟩ :=
    h.takes hc login hlogin
  obtain ⟨login', hlogin', hnonce', hchallenge'⟩ := hvouched.bound
  obtain rfl := Option.some.inj (hlogin.symm.trans hlogin')
  refine ⟨login.start, st, r, ?_, hst, hanswered, ?_⟩
  · simp [SsoState.startOf, hc, hlogin]
  · exact
      { state := hstate.symm
        cookie := by rw [hstate, hcookie]
        checked := ⟨u, hu, by rw [hexpires]; exact hnow⟩
        configured := hread
        authorised := hvouched.authorised
        code := hvouched.code
        issuer := hvouched.issuer
        clientID := hvouched.clientID
        nonce := by rw [hnonce', hnonce]
        challenge := by rw [hchallenge', hchallenge]
        verified := hvouched.verified
        entitled := hentitled }

/-- **Sessions are earned.** In every run of starts, callbacks and whatever else goes on: a
session that no other way to sign in has started was started by a callback that earned it
by its own steps, with a start of its own behind it; and there are never more than
`adminOIDCMaxPending` pending sign-ins. -/
theorem sso_sessions_earned (range : Ranges String) (table : CaseTable) (box : Box)
    (s256 : String → String) (setup : OIDCSetup) (users : Users) (labels : List SsoStep)
    (s : SsoState)
    (hrun : run (ssoStep range table box s256) (.fresh setup users) labels = some s) :
    (∀ id sess, s.sessions.lookup id = some sess → .signIn id sess ∈ labels ∨
      ∃ (j i : Nat) (c : Callback) (st : Start) (r : Redirect) (config : OIDCConfig)
        (a : Authorisation), s.callbacks[j]? = some c ∧ c.phase = .answered config a id sess ∧
          s.startOf j = some i ∧ s.starts[i]? = some st ∧ st.phase = .answered r ∧
          Earned table box (trace (ssoStep range table box s256) (.fresh setup users) labels) j c r
            config a sess) ∧
    (∀ j j' i, s.startOf j = some i → s.startOf j' = some i → j = j') ∧
    s.oidcLogins.len ≤ adminOIDCMaxPending := by
  have hinv : SsoInv table box s256
    (trace (ssoStep range table box s256) (.fresh setup users) labels) s :=
    run_trace (fun _ _ _ _ h hstep => h.step hstep) (SsoInv.fresh setup users) hrun
  refine ⟨?_, ?_, hinv.room⟩
  · intro id sess hlookup
    rcases hinv.sessions hlookup with ⟨u, hu⟩ | ⟨j, c, config, a, hc, hphase⟩
    · exact Or.inl (label_mem_of_mem_trace hu)
    · obtain ⟨i, st, r, hi, hst, hanswered, hearned⟩ := hinv.earned hc hphase
      exact Or.inr ⟨j, i, c, st, r, config, a, hc, hphase, hi, hst, hanswered, hearned⟩
  · intro j j' i hj hj'
    simp only [SsoState.startOf, Option.map_eq_some_iff, Option.bind_eq_some_iff] at hj hj'
    obtain ⟨login, ⟨c, hc, hlogin⟩, rfl⟩ := hj
    obtain ⟨login', ⟨c', hc', hlogin'⟩, heq⟩ := hj'
    exact hinv.once hc hc' hlogin hlogin' heq.symm

/-! ### Whoever is signing in can finish -/

def Start.drawnState (st : Start) : Option String :=
  match st.phase with
  | .drawn _ state _ => some state
  | _ => none

/-- A state that is registered is not that of a pending sign-in. -/
def StateFresh (s : SsoState) : SsoStep → Prop
  | .register i => ∀ st ∈ s.starts[i]?, ∀ state ∈ st.drawnState, s.oidcLogins.lookup state = none
  | _ => True

instance (s : SsoState) : ∀ label, Decidable (StateFresh s label)
  | .register i =>
      inferInstanceAs (Decidable (∀ st ∈ s.starts[i]?, ∀ state ∈ st.drawnState,
        s.oidcLogins.lookup state = none))
  | .tick _ | .setUp _ | .setUsers _ | .signIn .. | .revoke _ | .authorise _ | .arriveStart ..
  | .allow _ | .count _ | .configure .. | .draw .. | .arriveCallback .. | .consume _ | .expiry _
  | .reconfigure .. | .exchange .. | .lookup _ | .permit _ | .start .. => isTrue trivial

/-- A sign-in that has not expired is pending, or a callback took it. -/
def SignInsKept (s : SsoState) : Prop :=
  ∀ (i : Nat) (st : Start) (r : Redirect), s.starts[i]? = some st → st.phase = .answered r →
    s.now ≤ r.expires →
    (∃ login, s.oidcLogins.lookup r.state = some login ∧ login.start = i) ∨
    ∃ j, s.startOf j = some i

theorem startOf_eq_some {j i : Nat} : s.startOf j = some i ↔
    ∃ c login, s.callbacks[j]? = some c ∧ c.login = some login ∧ login.start = i := by
  simp only [SsoState.startOf, Option.map_eq_some_iff, Option.bind_eq_some_iff]
  constructor
  · rintro ⟨login, ⟨c, hc, hlogin⟩, hi⟩
    exact ⟨c, login, hc, hlogin, hi⟩
  · rintro ⟨c, login, hc, hlogin, hi⟩
    exact ⟨login, ⟨c, hc, hlogin⟩, hi⟩

/-- The entry of a sign-in that has not expired is not swept away. -/
theorem SsoInv.lookup_pending_of (h : SsoInv table box s256 steps s) {st : Start} {r : Redirect}
    {login : AdminOIDCLogin} (hst : s.starts[login.start]? = some st)
    (hphase : st.phase = .answered r)
    (hnow : s.now ≤ r.expires) {key : String} (hlookup : s.oidcLogins.lookup key = some login) :
    s.pending.lookup key = some login := by
  obtain ⟨st', r', hst', hphase', -, -, -, hexpires⟩ := h.entries hlookup
  obtain rfl := Option.some.inj (hst.symm.trans hst')
  obtain rfl := StartPhase.answered.inj (hphase.symm.trans hphase')
  exact lookup_pending.mpr ⟨hlookup, hexpires ▸ hnow⟩

theorem SignInsKept.startStep (hkept : SignInsKept s) (h : SsoInv table box s256 steps s) {i : Nat}
    {st : Start} (hst : s.starts[i]? = some st)
    (hstep : startStep range s256 s i st label = some s')
    (hfresh : ∀ config state login, st.phase = .drawn config state login →
      s.oidcLogins.lookup state = none) : SignInsKept s' := by
  -- a start that was answered before is another one
  have hother : ∀ {phase : StartPhase} {i' : Nat} {st' : Start} {r : Redirect},
      (s.starts.set i { st with phase })[i']? = some st' → st'.phase = .answered r →
      (i' = i ∧ phase = .answered r) ∨ s.starts[i']? = some st' := by
    intro phase i' st' r hst' hphase'
    rcases getElem?_set_eq_some hst' with ⟨rfl, rfl⟩ | ⟨-, hold⟩
    · exact Or.inl ⟨rfl, hphase'⟩
    · exact Or.inr hold
  cases startStep_cases hstep with
  | moved hopen hphase hdrawn =>
      intro i' st' r hst' hphase' hnow
      rcases hother hst' hphase' with ⟨-, heq⟩ | hold
      · exact absurd heq (hphase r)
      · exact hkept i' st' r hold hphase' hnow
  | full hphase =>
      intro i' st' r hst' hphase' hnow
      rcases hother hst' hphase' with ⟨-, heq⟩ | hold
      · cases heq
      · refine (hkept i' st' r hold hphase' hnow).imp_left ?_
        rintro ⟨login, hlookup, rfl⟩
        exact ⟨login, h.lookup_pending_of hold hphase' hnow hlookup, rfl⟩
  | @registered config state login hphase hroom =>
      intro i' st' r hst' hphase' hnow
      rcases hother hst' hphase' with ⟨rfl, heq⟩ | hold
      · obtain rfl := StartPhase.answered.inj heq
        exact Or.inl ⟨login, AList.lookup_insert _, h.drawn hst hphase⟩
      · refine (hkept i' st' r hold hphase' hnow).imp_left ?_
        rintro ⟨login', hlookup, rfl⟩
        refine ⟨login', ?_, rfl⟩
        have hne : r.state ≠ state := by
          rintro rfl
          rw [hfresh config r.state login hphase] at hlookup
          cases hlookup
        exact (AList.lookup_insert_ne hne).trans (h.lookup_pending_of hold hphase' hnow hlookup)

theorem SignInsKept.callbackStep (hkept : SignInsKept s) (h : SsoInv table box s256 steps s)
    (hj : label.callback = some j) (hc : s.callbacks[j]? = some c)
    (hstep : callbackStep range table box s256 s j c label = some s') : SignInsKept s' := by
  have hlt := (List.getElem?_eq_some_iff.mp hc).1
  -- what another callback, or this one, has taken, it has taken still
  have htaken : ∀ {c' : Callback}, (∀ login, c.login = some login → c'.login = some login) →
      ∀ {j' i : Nat}, s.startOf j' = some i →
      ∃ d login, (s.callbacks.set j c')[j']? = some d ∧ d.login = some login ∧ login.start = i := by
    intro c' hlogin j' i hj'
    obtain ⟨d, login, hd, hd', hi⟩ := startOf_eq_some.mp hj'
    by_cases heq : j = j'
    · subst heq
      obtain rfl := Option.some.inj (hc.symm.trans hd)
      exact ⟨c', login, List.getElem?_set_self hlt, hlogin login hd', hi⟩
    · exact ⟨d, login, (List.getElem?_set_ne heq).trans hd, hd', hi⟩
  cases callbackStep_cases hstep hj (h.phases hc) with
  | took harrived hcookie hstate hread =>
      have hnone : c.login = none := by
        have hsound := h.phases hc
        rw [harrived] at hsound
        exact hsound.1
      intro i st r hst hphase hnow
      rcases hkept i st r hst hphase hnow with ⟨login, hlookup, rfl⟩ | ⟨j', hj'⟩
      · by_cases hkey : r.state = c.state
        · refine Or.inr ⟨j, startOf_eq_some.mpr ⟨_, login, List.getElem?_set_self hlt, ?_, rfl⟩⟩
          exact hkey ▸ hlookup
        · exact Or.inl ⟨login, (AList.lookup_erase_ne hkey).trans hlookup, rfl⟩
      · exact Or.inr ⟨j', startOf_eq_some.mpr (htaken (by simp [hnone]) hj')⟩
  | moved hsame hlogin hphase hopen =>
      intro i st r hst hanswered hnow
      refine (hkept i st r hst hanswered hnow).imp_right ?_
      rintro ⟨j', hj'⟩
      exact ⟨j', startOf_eq_some.mpr (htaken (fun login hc' => hlogin.trans hc') hj')⟩
  | @started config a id sess hphase hopen =>
      intro i st r hst hanswered hnow
      refine (hkept i st r hst hanswered hnow).imp_right ?_
      rintro ⟨j', hj'⟩
      have hd :=
        @htaken { c with phase := .answered config a id sess } (fun login hc' => hc') j' i hj'
      exact ⟨j', startOf_eq_some.mpr hd⟩

theorem SignInsKept.step (hkept : SignInsKept s) (h : SsoInv table box s256 steps s)
    (hfresh : StateFresh s label) (hstep : ssoStep range table box s256 s label = some s') :
    SignInsKept s' := by
  cases label with
  | tick elapsed =>
      obtain rfl := Option.some.inj hstep
      exact fun i st r hst hphase hnow => hkept i st r hst hphase (Nat.le_of_add_right_le hnow)
  | setUp | setUsers | signIn | revoke | authorise =>
      obtain rfl := Option.some.inj hstep
      exact hkept
  | arriveStart ip host scheme =>
      obtain rfl := Option.some.inj hstep
      intro i st r hst hphase hnow
      rcases getElem?_concat_eq_some hst with ⟨-, rfl⟩ | hold
      · cases hphase
      · exact hkept i st r hold hphase hnow
  | arriveCallback state cookie code host scheme =>
      obtain rfl := Option.some.inj hstep
      intro i st r hst hphase hnow
      refine (hkept i st r hst hphase hnow).imp_right ?_
      rintro ⟨j, hj⟩
      obtain ⟨c, login, hc, hrest⟩ := startOf_eq_some.mp hj
      have hlt := (List.getElem?_eq_some_iff.mp hc).1
      exact ⟨j, startOf_eq_some.mpr ⟨c, login, (List.getElem?_append_left hlt).trans hc, hrest⟩⟩
  | register i =>
      obtain ⟨st, hst, hmove⟩ := Option.bind_eq_some_iff.mp hstep
      refine hkept.startStep h hst hmove ?_
      intro config state login hphase
      exact hfresh st hst state (by simp [Start.drawnState, hphase])
  | allow i | count i | configure i | draw i =>
      obtain ⟨st, hst, hmove⟩ := Option.bind_eq_some_iff.mp hstep
      refine hkept.startStep h hst hmove ?_
      intro config state login hphase
      simp [Admin.startStep, hphase] at hmove
  | consume j | expiry j | reconfigure j | exchange j | lookup j | permit j | start j =>
      obtain ⟨c, hc, hmove⟩ := Option.bind_eq_some_iff.mp hstep
      exact hkept.callbackStep h rfl hc hmove

/-- In every run that never draws the state of a pending sign-in again: a sign-in that was
started and has not expired is pending, however many were started after it, or the first
callback that presented its state has taken it. -/
theorem sso_signins_kept (range : Ranges String) (table : CaseTable) (box : Box)
    (s256 : String → String) (setup : OIDCSetup) (users : Users) (labels : List SsoStep)
    (s : SsoState)
    (hrun : run (ssoStep range table box s256) (.fresh setup users) labels = some s)
    (hfresh : RunMeets (ssoStep range table box s256) StateFresh (.fresh setup users) labels) :
    ∀ (i : Nat) (st : Start) (r : Redirect), s.starts[i]? = some st → st.phase = .answered r →
      s.now ≤ r.expires →
      (∃ login, s.oidcLogins.lookup r.state = some login ∧ login.start = i ∧ login.nonce = r.nonce ∧
        s256 login.verifier = r.challenge) ∨
      ∃ j c, s.startOf j = some i ∧ s.callbacks[j]? = some c ∧ c.state = r.state ∧
        c.cookie = some r.state := by
  have hboth : (∃ steps, SsoInv table box s256 steps s) ∧ SignInsKept s := by
    refine hfresh.invariant (P := fun s => (∃ steps, SsoInv table box s256 steps s) ∧
      SignInsKept s) ?_
      ?_ hrun
    · rintro s label next ⟨⟨steps, h⟩, hkept⟩ hlabel hstep
      exact ⟨⟨_, h.step hstep⟩, hkept.step h hlabel hstep⟩
    · exact ⟨⟨[], SsoInv.fresh setup users⟩, by simp [SignInsKept, SsoState.fresh]⟩
  obtain ⟨⟨steps, hinv⟩, hkept⟩ := hboth
  intro i st r hst hphase hnow
  have hsame : ∀ {key login}, Registered s256 s key login → login.start = i →
      r.state = key ∧ r.nonce = login.nonce ∧ r.challenge = s256 login.verifier := by
    rintro key login ⟨st', r', hst', hphase', hstate, hnonce, hchallenge, -⟩ rfl
    obtain rfl := Option.some.inj (hst.symm.trans hst')
    obtain rfl := StartPhase.answered.inj (hphase.symm.trans hphase')
    exact ⟨hstate, hnonce, hchallenge⟩
  rcases hkept i st r hst hphase hnow with ⟨login, hlookup, hi⟩ | ⟨j, hj⟩
  · obtain ⟨-, hnonce, hchallenge⟩ := hsame (hinv.entries hlookup) hi
    exact Or.inl ⟨login, hlookup, hi, hnonce.symm, hchallenge.symm⟩
  · obtain ⟨c, login, hc, hlogin, hi⟩ := startOf_eq_some.mp hj
    obtain ⟨hregistered, hcookie, -⟩ := hinv.takes hc login hlogin
    obtain ⟨hstate, -⟩ := hsame hregistered hi
    refine Or.inr ⟨j, c, hj, hc, hstate.symm, ?_⟩
    rw [hstate]
    exact hcookie

end

/-! ### One sign-in

The allow-list changes while the browser is at the provider; the callback goes by the list
that stands when it asks. -/

def staffSetup (allowed : String) : OIDCSetup where
  settings := AList.insert "oidc_enabled" "1" (AList.insert "oidc_issuer" "https://idp.example"
    (AList.insert "oidc_client_id" "admin" (AList.insert "oidc_allowed_emails" allowed ∅)))
  providers := some []

def bossSignsIn : Authorisation :=
  ⟨"c1", "https://idp.example", "admin", "n1", "v1", "boss@example.com", none⟩

/-- One browser signs in, and is put on the list meanwhile; another presents its callback
URL again. -/
def bossRun : List SsoStep :=
  [.arriveStart "192.0.2.7" "admin.example" "https", .allow 0, .count 0] ++
    List.replicate 7 (.configure 0 true) ++
    [.draw 0 (some "s1") (some "n1") "v1", .register 0, .authorise bossSignsIn,
      .setUp (staffSetup "Boss@example.com"),
      .arriveCallback "s1" (some "s1") "c1" "admin.example" "https",
      .arriveCallback "s1" (some "s1") "c1" "admin.example" "https", .consume 0, .consume 1,
      .expiry 0, .expiry 1] ++
    List.replicate 7 (.reconfigure 0 true) ++
    [.exchange 0 (.token bossSignsIn true), .lookup 0, .permit 0, .start 0 (some "q1")]

def plainCase : CaseTable := ⟨id, id⟩

def bossStep : SsoState → SsoStep → Option SsoState :=
  ssoStep (.listed String) plainCase emptyBox id

def bossStart : SsoState := .fresh (staffSetup "") ⟨[], by decide, by decide⟩

theorem sso_sessions_earned_boss :
    ∃ s c r config, run bossStep bossStart bossRun = some s ∧
      s.sessions.lookup "q1" = some ⟨0, "oidc:boss@example.com", sessionTTL⟩ ∧
      (s.callbacks[1]?).map Callback.phase = some (.refused 400) ∧
      Earned plainCase emptyBox (trace bossStep bossStart bossRun) 0 c r config bossSignsIn
        ⟨0, "oidc:boss@example.com", sessionTTL⟩ := by
  have hend : (run bossStep bossStart bossRun).map
    (fun s => (s.sessions.lookup "q1", s.callbacks.map
      fun c => c.phase)) =
      some (some ⟨0, "oidc:boss@example.com", sessionTTL⟩,
        [.answered ⟨"https://idp.example", "admin", "", "https://admin.example/api/oidc/callback",
          defaultScopes⟩ bossSignsIn "q1" ⟨0, "oidc:boss@example.com", sessionTTL⟩,
            .refused 400]) := by
    decide +kernel
  obtain ⟨s, hrun, hs⟩ := Option.map_eq_some_iff.mp hend
  obtain ⟨hsession, hphases⟩ := Prod.mk.inj hs
  have hphase : ∀ j : Nat,
    (s.callbacks[j]?).map Callback.phase = (s.callbacks.map Callback.phase)[j]? :=
    fun j => List.getElem?_map.symm
  rcases (sso_sessions_earned (.listed String) plainCase emptyBox id (staffSetup "") _ bossRun s
    hrun).1 "q1" _ hsession
      with hother | ⟨j, i, c, st, r, config, a, hc, hanswered, -, -, -, hearned⟩
  · exact absurd hother (by decide)
  · have hj := hphase j
    rw [hc, hphases] at hj
    match j with
    | 0 =>
        simp only [Option.map_some, List.getElem?_cons_zero, Option.some.injEq, hanswered,
          CallbackPhase.answered.injEq] at hj
        obtain ⟨-, rfl, -⟩ := hj
        exact ⟨s, c, r, config, hrun, hsession, by rw [hphase, hphases]; rfl, hearned⟩
    | 1 => simp [hanswered] at hj
    | _ + 2 => simp at hj

theorem sso_signins_kept_boss :
    ∃ s, run bossStep bossStart (bossRun.take 13 ++ [.tick adminOIDCLoginTTL]) = some s ∧
      s.now = adminOIDCLoginTTL ∧
      ∃ login, s.oidcLogins.lookup "s1" = some login ∧ login.start = 0 := by
  have hend : (run bossStep bossStart (bossRun.take 13 ++ [.tick adminOIDCLoginTTL])).map
        (fun s => (s.now, s.starts, s.callbacks)) =
      some (adminOIDCLoginTTL, [⟨"192.0.2.7", "admin.example", "https", .answered
        ⟨⟨"https://idp.example", "admin", "", "https://admin.example/api/oidc/callback",
          ["openid", "email", "profile"]⟩, "s1", "n1", "v1", adminOIDCLoginTTL⟩⟩], []) := by
    decide +kernel
  obtain ⟨s, hrun, hs⟩ := Option.map_eq_some_iff.mp hend
  obtain ⟨hnow, hrest⟩ := Prod.mk.inj hs
  obtain ⟨hstarts, hcallbacks⟩ := Prod.mk.inj hrest
  refine ⟨s, hrun, hnow, ?_⟩
  rcases sso_signins_kept (.listed String) plainCase emptyBox id (staffSetup "") _ _ s hrun
    (by decide +kernel) 0 _ _ (by rw [hstarts]; rfl) rfl hnow.le with
    ⟨login, hlookup, hi, -⟩ | ⟨j, c, -, hc, -⟩
  · exact ⟨login, hlookup, hi⟩
  · rw [hcallbacks] at hc
    cases hc

end Quicgate.Admin
