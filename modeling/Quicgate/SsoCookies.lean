import Quicgate.PathAuth
import Quicgate.TransitionSystem

/-!
# The cookies of the single sign-on

The gate in front of a host (`internal/engine/oidcauth.go`): it starts a login at the
identity provider, finishes it on the callback path that all gates of a host share, and
keeps the result in a signed cookie.  The login state, the session and the portal's
transaction are signed with one key, so the name of the cookie is signed with them.

The MAC is ideal: a tag is the key and the string it was computed on.  What stands for
JSON is the object, not its text; a field that an object lacks reads as zero, and one that
a structure lacks is skipped.

`cookies_stay_put` is about every run of an instance and its visitors, who may present what
they have seen in any place: a gate hands a request on only for a session that was minted for
its host and provider and that satisfies its own policy.
-/

namespace Quicgate.Sso

open Quicgate.GoStrings Quicgate.GoNet Quicgate.Store Quicgate.TransitionSystem

/-! ### Payloads

`Session`, `LoginState` and `PortalTx` are `oidcSession`, `oidcState` and `portalTx`; `marshal` and
`unmarshal` are what `encoding/json` makes of them, where empty groups and a false `u` are left
out. -/

/-- The values that the payloads hold. -/
inductive Json where
  | str (s : String)
  | int (n : Int)
  | bool (b : Bool)
  | strs (l : List String)
deriving DecidableEq, Repr

abbrev Payload := List (String × Json)

structure Session where
  email : String
  groups : List String
  host : String
  expiry : Int
  prov : Int
  unverified : Bool
deriving DecidableEq, Repr

structure LoginState where
  return_ : String
  state : String
  nonce : String
  verifier : String
  host : String
  expiry : Int
  prov : Int
  gate : String
deriving DecidableEq, Repr

structure PortalTx where
  state : String
  nonce : String
  verifier : String
  host : String
  expiry : Int
deriving DecidableEq, Repr

def Session.marshal (s : Session) : Payload :=
  [("e", .str s.email)] ++ (if s.groups = [] then [] else [("g", .strs s.groups)]) ++
    [("h", .str s.host), ("x", .int s.expiry), ("p", .int s.prov)] ++
    (if s.unverified then [("u", .bool true)] else [])

def LoginState.marshal (st : LoginState) : Payload :=
  [("r", .str st.return_), ("s", .str st.state), ("n", .str st.nonce), ("v", .str st.verifier),
    ("h", .str st.host), ("x", .int st.expiry), ("p", .int st.prov), ("k", .str st.gate)]

def PortalTx.marshal (tx : PortalTx) : Payload :=
  [("s", .str tx.state), ("n", .str tx.nonce), ("v", .str tx.verifier), ("h", .str tx.host),
    ("x", .int tx.expiry)]

/-- A field of a structure: zero without one in the object, an error for another type. -/
def Payload.str (p : Payload) (key : String) : Option String :=
  match p.lookup key with
  | none => some ""
  | some (.str s) => some s
  | some _ => none

def Payload.int (p : Payload) (key : String) : Option Int :=
  match p.lookup key with
  | none => some 0
  | some (.int n) => some n
  | some _ => none

def Payload.bool (p : Payload) (key : String) : Option Bool :=
  match p.lookup key with
  | none => some false
  | some (.bool b) => some b
  | some _ => none

def Payload.strs (p : Payload) (key : String) : Option (List String) :=
  match p.lookup key with
  | none => some []
  | some (.strs l) => some l
  | some _ => none

def Session.unmarshal (p : Payload) : Option Session := do
  return ⟨← p.str "e", ← p.strs "g", ← p.str "h", ← p.int "x", ← p.int "p", ← p.bool "u"⟩

def LoginState.unmarshal (p : Payload) : Option LoginState := do
  return ⟨← p.str "r", ← p.str "s", ← p.str "n", ← p.str "v", ← p.str "h", ← p.int "x", ← p.int "p",
    ← p.str "k"⟩

theorem Session.unmarshal_marshal (s : Session) : Session.unmarshal s.marshal = some s := by
  obtain ⟨email, groups, host, expiry, prov, unverified⟩ := s
  cases groups with
  | nil => cases unverified <;> rfl
  | cons g groups => cases unverified <;> rfl

theorem LoginState.unmarshal_marshal (st : LoginState) :
    LoginState.unmarshal st.marshal = some st := rfl

/-! ### Signed values

`sign` and `verify` are the functions of the source under these names; what is signed is the
purpose, a zero byte and the object. -/

/-- The signed string: the bytes of the purpose, a zero, and the text of the object. -/
abbrev Message := List (UInt8 ⊕ Payload)

/-- A MAC: the key and what it was computed on. -/
structure Tag where
  key : List UInt8
  message : Message
deriving DecidableEq

/-- The value of a cookie. A tag that nobody computed is `none`. -/
structure Value where
  payload : Payload
  tag : Option Tag
deriving DecidableEq

def message (purpose : String) (payload : Payload) : Message :=
  (utf8 purpose).map .inl ++ [.inl 0, .inr payload]

def oidcSessionName : String := "qg_id"
def oidcStateName : String := "qg_oidc_state"
def portalTxCookie : String := "qg_vpn_tx"

def sign (secret : Option (List UInt8)) (purpose : String) (payload : Payload) : Option Value :=
  secret.map fun key => ⟨payload, some ⟨key, message purpose payload⟩⟩

/-- `verify`, up to the reading of the payload. -/
def verify (secret : Option (List UInt8)) (purpose : String) (v : Value) : Option Payload :=
  match secret with
  | none => none
  | some key => if v.tag = some ⟨key, message purpose v.payload⟩ then some v.payload else none

/-! ### Gates

The methods of `oidcGate` under their names: `session`, `startLogin`, `handleCallback` and `wrap`,
with `allowed` for the policy.  The answers of the identity provider and the values that a login
draws are the environment's. -/

/-- What a gate takes from outside: the Unicode case table, and the first eight bytes of
a policy's SHA-256 in hex. -/
structure Lib where
  table : CaseTable
  digest : OIDCAuth → String

/-- The fields of `OIDCProvider` that a gate reads beside its client's. -/
structure Provider where
  id : Int
  groupsClaim : String
  sessionHours : Int
deriving DecidableEq, Repr

/-- `oidcGate`. A provider that does not exist leaves the zero provider behind. -/
structure Gate where
  provider : Provider
  auth : OIDCAuth
  devNoTLS : Bool
  resolved : provider.id = auth.providerID ∨ provider.id = 0
deriving DecidableEq

variable (lib : Lib)

def oidcGateKey (auth : OIDCAuth) : String := toString auth.providerID ++ ":" ++ lib.digest auth

def Gate.key (g : Gate) : String := oidcGateKey lib g.auth

/-- The domain of an address, behind its last at sign. -/
def domainOf (email : String) : Option String :=
  let (_, domain, found) := cutLast '@' email.toList
  if found then some (String.ofList domain) else none

def Gate.allowed (g : Gate) (email : String) (groups : List String) (emailTrusted : Bool) : Bool :=
  if g.auth.allowedEmails.isEmpty && g.auth.allowedDomains.isEmpty && g.auth.allowedGroups.isEmpty
  then true
  else
    (emailTrusted && (g.auth.allowedEmails.contains (toLower lib.table email) ||
      (domainOf (toLower lib.table email)).any fun d => g.auth.allowedDomains.contains d)) ||
    g.auth.allowedGroups.any fun want => groups.contains want

def requestHostname (host : String) : String :=
  let host := (toLower lib.table host).toList
  let (before, _, found) := cutLast ':' host
  if found && !before.isEmpty && host.getLast? != some ']' then String.ofList before
  else String.ofList host

/-- A request as a gate reads it, with the two cookies as they are presented. -/
structure Visit where
  method : String
  host : String
  path : Path
  uri : String
  encrypted : Bool
  preflight : Bool
  session : Option Value
  login : Option Value
  stateParam : String
  errorParam : String
  now : Int

inductive Claim where
  | bool (b : Bool)
  | str (s : String)
  | other
deriving DecidableEq, Repr

def claimIsTrue : Claim → Bool
  | .bool b => b
  | .str s => toLower lib.table s == "true"
  | .other => false

/-- The claims of an ID token that the callback reads. A value that is no string is `none`. -/
structure Claims where
  email : Option String
  preferredUsername : Option String
  emailVerified : Option Claim
  groups : String → Option (List (Option String))

/-- What the identity provider answers to a callback. -/
inductive Answer where
  | unreachable
  | exchangeFailed
  | noIdToken
  | badIdToken
  | idToken (nonce : String) (claims : Option Claims)

/-- The values that a login draws. -/
structure Drawn where
  state : String
  nonce : String
  verifier : String

inductive Outcome where
  | next
  | toHTTPS
  | httpsOnly
  | loggedOut
  | notConfigured
  | notPermitted (email : String)
  | unavailable
  | unreachable
  | loginStarted (st : LoginState) (v : Value)
  | loginExpired
  | stateMismatch
  | noLongerUsed
  | loginRefused (code : String)
  | loginFailed
  | loggedIn (g : Gate) (st : LoginState) (s : Session) (v : Value)

def Gate.session (g : Gate) (secret : Option (List UInt8)) (r : Visit) : Option Session := do
  let v ← r.session
  let p ← verify secret oidcSessionName v
  let s ← Session.unmarshal p
  if s.host ≠ requestHostname lib r.host ∨ s.prov ≠ g.provider.id ∨ s.expiry < r.now then none
  else some s

def Gate.startLogin (g : Gate) (secret : Option (List UInt8)) (r : Visit) (drawn : Drawn)
    (reachable : Bool) : Outcome :=
  let st : LoginState :=
    { return_ := r.uri, state := drawn.state, nonce := drawn.nonce, verifier := drawn.verifier
      host := requestHostname lib r.host, expiry := r.now + 300, prov := g.provider.id
      gate := g.key lib }
  match sign secret oidcStateName st.marshal with
  | none => .unavailable
  | some v => if reachable then .loginStarted st v else .unreachable

/-- The seconds a session lasts. -/
def Provider.ttl (p : Provider) : Int :=
  let hours := if p.sessionHours ≤ 0 then 12 else p.sessionHours
  min hours 720 * 3600

/-- The identity that the claims give: the address, the groups, and whether the address is only
a user name that nobody vouches for. -/
def identity (g : Gate) (c : Claims) : Option (String × List String × Bool) :=
  let fromUsername := c.email.getD "" == ""
  let email := if fromUsername then c.preferredUsername.getD "" else c.email.getD ""
  if email == "" then none
  else if c.emailVerified.any (fun v => !claimIsTrue lib v) then none
  else
    let unverified := fromUsername && !(c.emailVerified.any (claimIsTrue lib))
    some (email, ((c.groups g.provider.groupsClaim).getD []).filterMap id, unverified)

/-- `handleCallback` from where the gate is found on. -/
def Gate.finish (g : Gate) (secret : Option (List UInt8)) (r : Visit) (st : LoginState)
    (answer : Answer) : Outcome :=
  if r.errorParam ≠ "" then .loginRefused r.errorParam
  else match answer with
    | .unreachable => .unreachable
    | .exchangeFailed | .noIdToken | .badIdToken => .loginFailed
    | .idToken nonce claims =>
        if nonce ≠ st.nonce then .loginFailed
        else match claims.bind (identity lib g) with
          | none => .loginFailed
          | some (email, groups, unverified) =>
              if g.allowed lib email groups (!unverified) = false then .notPermitted email
              else
                let s : Session :=
                  { email := toLower lib.table email, groups := groups, unverified := unverified
                    host := requestHostname lib r.host, prov := g.provider.id
                    expiry := r.now + g.provider.ttl }
                match sign secret oidcSessionName s.marshal with
                | none => .unavailable
                | some v => .loggedIn g st s v

/-- The checks of `handleCallback` on the login state. -/
def checkState (secret : Option (List UInt8)) (r : Visit) : Except Outcome LoginState :=
  match r.login with
  | none => .error .loginExpired
  | some v =>
      match (verify secret oidcStateName v).bind LoginState.unmarshal with
      | none => .error .stateMismatch
      | some st =>
          if st.host ≠ requestHostname lib r.host ∨ st.expiry < r.now ∨ r.stateParam ≠ st.state
          then .error .stateMismatch else .ok st

/-- `handleCallback`. The gate that started the login finishes it; it makes the same checks once
more, with the same result. -/
def Gate.handleCallback (g : Gate) (siblings : List Gate) (secret : Option (List UInt8)) (r : Visit)
    (answer : Answer) : Outcome :=
  match checkState lib secret r with
  | .error outcome => outcome
  | .ok st =>
      if st.gate = g.key lib then g.finish lib secret r st answer
      else match siblings.find? fun other => other.key lib == st.gate with
        | some other => other.finish lib secret r st answer
        | none => .noLongerUsed

/-- `wrap`, without its handler. -/
def Gate.wrap (g : Gate) (siblings : List Gate) (secret : Option (List UInt8)) (r : Visit)
    (drawn : Drawn) (reachable : Bool) (answer : Answer) : Outcome :=
  if !r.encrypted && !g.devNoTLS then
    if r.method = "GET" ∨ r.method = "HEAD" then .toHTTPS else .httpsOnly
  else if r.path = oidcCallbackPath then g.handleCallback lib siblings secret r answer
  else if r.path = oidcLogoutPath then .loggedOut
  else if r.preflight then .next
  else if g.provider.id = 0 then .notConfigured
  else match g.session lib secret r with
    | some s =>
        if g.allowed lib s.email s.groups (!s.unverified) then .next else .notPermitted s.email
    | none => g.startLogin lib secret r drawn reachable

/-! ### An instance and its visitors

The world keeps what was handed out, each cookie with how it came to be (`Mint`), and what was
handed on. -/

/-- A cookie that was minted, by whom and for what. The gate of a session is the one that
finished the login, `st` the state it carried. -/
inductive Mint where
  | login (g : Gate) (st : LoginState) (v : Value)
  | session (g : Gate) (st : LoginState) (s : Session) (v : Value)
  | portal (tx : PortalTx) (v : Value)

def Mint.value : Mint → Value
  | .login _ _ v | .session _ _ _ v | .portal _ v => v

structure Served where
  gate : Gate
  visit : Visit

/-- The signing key, every cookie that was handed out and every request that was handed on. -/
structure World where
  secret : Option (List UInt8)
  minted : List Mint
  served : List Served

def init : World := ⟨none, [], []⟩

inductive Label where
  | reload (secret : Option (List UInt8))
  | visit (g : Gate) (siblings : List Gate) (r : Visit) (drawn : Drawn) (reachable : Bool)
      (answer : Answer)
  | portalLogin (tx : PortalTx)

/-- Visitors present any payload, with a tag they have seen or one that nobody computed. -/
def World.presentable (w : World) (v : Value) : Bool :=
  v.tag.all fun t => w.minted.any fun m => m.value.tag == some t

def World.settle (w : World) (g : Gate) (r : Visit) : Outcome → World
  | .next => if r.preflight then w else { w with served := w.served ++ [⟨g, r⟩] }
  | .loginStarted st v => { w with minted := w.minted ++ [.login g st v] }
  | .loggedIn g' st s v => { w with minted := w.minted ++ [.session g' st s v] }
  | _ => w

def step (w : World) : Label → Option World
  | .reload secret => some { w with secret := secret }
  | .visit g siblings r drawn reachable answer =>
      if r.session.all w.presentable && r.login.all w.presentable then
        some (w.settle g r (g.wrap lib siblings w.secret r drawn reachable answer))
      else none
  | .portalLogin tx =>
      match sign w.secret portalTxCookie tx.marshal with
      | none => some w
      | some v => some { w with minted := w.minted ++ [.portal tx v] }

/-! ### Policies

The meaning of a policy, apart from the code that evaluates it. -/

/-- The policy admits the identity. An address that nobody vouches for satisfies no rule about
addresses. -/
def Admits (auth : OIDCAuth) (address : String) (groups : List String) (unverified : Bool) : Prop :=
  (auth.allowedEmails = [] ∧ auth.allowedDomains = [] ∧ auth.allowedGroups = []) ∨
    (unverified = false ∧ (address ∈ auth.allowedEmails ∨
      ∃ d ∈ auth.allowedDomains, domainOf address = some d)) ∨
    ∃ want ∈ auth.allowedGroups, want ∈ groups

variable {lib}

theorem Gate.allowed_eq_true {g : Gate} {email : String} {groups : List String}
    {unverified : Bool} :
    g.allowed lib email groups (!unverified) = true ↔
      Admits g.auth (toLower lib.table email) groups unverified := by
  have hopen : (g.auth.allowedEmails.isEmpty && g.auth.allowedDomains.isEmpty &&
      g.auth.allowedGroups.isEmpty) = true ↔ g.auth.allowedEmails = [] ∧
        g.auth.allowedDomains = [] ∧ g.auth.allowedGroups = [] := by
    simp [and_assoc]
  have hdomain : ((domainOf (toLower lib.table email)).any
      fun d => g.auth.allowedDomains.contains d) = true ↔
        ∃ d ∈ g.auth.allowedDomains, domainOf (toLower lib.table email) = some d := by
    cases domainOf (toLower lib.table email) with
    | none => simp
    | some d => simp
  have hgroups : (g.auth.allowedGroups.any fun want => groups.contains want) = true ↔
      ∃ want ∈ g.auth.allowedGroups, want ∈ groups := by
    simp
  unfold Gate.allowed Admits
  by_cases h : (g.auth.allowedEmails.isEmpty && g.auth.allowedDomains.isEmpty &&
      g.auth.allowedGroups.isEmpty) = true
  · rw [if_pos h]
    exact ⟨fun _ => Or.inl (hopen.mp h), fun _ => rfl⟩
  · rw [if_neg h, Bool.or_eq_true, Bool.and_eq_true, Bool.or_eq_true, hdomain, hgroups,
      List.contains_iff_mem, Bool.not_eq_true']
    exact ⟨Or.inr, fun hadmits => hadmits.resolve_left fun ho => h (hopen.mpr ho)⟩

/-! ### Tags

What was signed for one purpose verifies for no other, since the purpose ends at the zero byte. -/

theorem message_inj {purpose purpose' : String} {p p' : Payload}
    (h : message purpose p = message purpose' p') : utf8 purpose = utf8 purpose' ∧ p = p' := by
  obtain ⟨hpurpose, hrest⟩ := List.append_inj' h rfl
  refine ⟨?_, by simpa using hrest⟩
  exact List.map_injective_iff.mpr Sum.inl_injective hpurpose

theorem verify_eq_some {secret : Option (List UInt8)} {purpose : String} {v : Value} {p : Payload}
    (h : verify secret purpose v = some p) :
    p = v.payload ∧ ∃ key, v.tag = some ⟨key, message purpose v.payload⟩ := by
  unfold verify at h
  split at h
  · cases h
  · rename_i key
    split_ifs at h with htag
    exact ⟨(Option.some.inj h).symm, key, htag⟩

theorem sign_eq_some {secret : Option (List UInt8)} {purpose : String} {p : Payload} {v : Value}
    (h : sign secret purpose p = some v) :
    ∃ key, v = ⟨p, some ⟨key, message purpose p⟩⟩ := by
  obtain ⟨key, -, rfl⟩ := Option.map_eq_some_iff.mp h
  exact ⟨key, rfl⟩

/-! ### What a gate does

`Grounded` has one case for each outcome of a request: what it rests on, in terms of the cookies
that were presented and verified. -/

/-- A session that a gate may have minted after a login under `st`. -/
structure Grants (lib : Lib) (g : Gate) (st : LoginState) (s : Session) (v : Value) : Prop where
  signed : ∃ key, v = ⟨s.marshal, some ⟨key, message oidcSessionName s.marshal⟩⟩
  gate : st.gate = g.key lib
  host : st.host = s.host
  prov : s.prov = g.provider.id
  admits : Admits g.auth s.email s.groups s.unverified

/-- What the outcome of a request rests on. -/
def Grounded (lib : Lib) (secret : Option (List UInt8)) (g : Gate) (r : Visit) : Outcome → Prop
  | .next => r.preflight = false → ∃ s, g.session lib secret r = some s ∧
      Admits g.auth (toLower lib.table s.email) s.groups s.unverified
  | .loginStarted st v => st.gate = g.key lib ∧
      ∃ key, v = ⟨st.marshal, some ⟨key, message oidcStateName st.marshal⟩⟩
  | .loggedIn g' st s v => checkState lib secret r = .ok st ∧ Grants lib g' st s v
  | _ => True

section Outcomes

variable {secret : Option (List UInt8)} {g : Gate} {r : Visit} {st : LoginState}

theorem session_eq_some {s : Session} (h : g.session lib secret r = some s) :
    ∃ v p, r.session = some v ∧ verify secret oidcSessionName v = some p ∧
      Session.unmarshal p = some s ∧ s.host = requestHostname lib r.host ∧
      s.prov = g.provider.id ∧ r.now ≤ s.expiry := by
  unfold Gate.session at h
  simp only [Option.bind_eq_bind, Option.bind_eq_some_iff] at h
  obtain ⟨v, hv, p, hp, s', hs', h⟩ := h
  split_ifs at h with hfit
  obtain rfl := Option.some.inj h
  push Not at hfit
  exact ⟨v, p, hv, hp, hs', hfit⟩

theorem checkState_eq_ok (h : checkState lib secret r = .ok st) :
    ∃ v p, r.login = some v ∧ verify secret oidcStateName v = some p ∧
      LoginState.unmarshal p = some st ∧ st.host = requestHostname lib r.host := by
  unfold checkState at h
  split at h
  · cases h
  · rename_i v hv
    split at h
    · cases h
    · rename_i st' hst
      split_ifs at h with hfit
      obtain rfl := Except.ok.inj h
      push Not at hfit
      obtain ⟨p, hp, hread⟩ := Option.bind_eq_some_iff.mp hst
      exact ⟨v, p, hv, hp, hread, hfit.1⟩

theorem grounded_of_checkState_error {outcome : Outcome}
    (h : checkState lib secret r = .error outcome) : Grounded lib secret g r outcome := by
  unfold checkState at h
  split at h
  · cases h
    trivial
  · split at h
    · cases h
      trivial
    · split_ifs at h with hfit
      cases h
      trivial

theorem grounded_startLogin (drawn : Drawn) (reachable : Bool) :
    Grounded lib secret g r (g.startLogin lib secret r drawn reachable) := by
  unfold Gate.startLogin
  simp only
  split
  · trivial
  · rename_i v hv
    split
    · exact ⟨rfl, sign_eq_some hv⟩
    · trivial

/-- The gate that the login state names finishes the login, under its own policy. -/
theorem grounded_finish {other : Gate} (hst : checkState lib secret r = .ok st)
    (hgate : st.gate = other.key lib) (answer : Answer) :
    Grounded lib secret g r (other.finish lib secret r st answer) := by
  unfold Gate.finish
  split_ifs
  · trivial
  split
  · trivial
  · trivial
  · trivial
  · trivial
  · split_ifs
    · trivial
    split
    · trivial
    · rename_i email groups unverified hidentity
      split_ifs with hallowed
      · trivial
      · simp only
        split
        · trivial
        · rename_i v hv
          obtain ⟨-, -, -, -, -, hhost⟩ := checkState_eq_ok hst
          refine ⟨hst, sign_eq_some hv, hgate, hhost, rfl, ?_⟩
          exact Gate.allowed_eq_true.mp (by simpa using hallowed)

theorem grounded_wrap (siblings : List Gate) (drawn : Drawn) (reachable : Bool) (answer : Answer) :
    Grounded lib secret g r (g.wrap lib siblings secret r drawn reachable answer) := by
  unfold Gate.wrap
  split_ifs with hplain hget hcallback hlogout hpreflight hprovider
  · trivial
  · trivial
  · -- the callback
    unfold Gate.handleCallback
    split
    · rename_i outcome herror
      exact grounded_of_checkState_error herror
    · rename_i st hst
      split_ifs with hgate
      · exact grounded_finish hst hgate answer
      · split
        · rename_i other hother
          have hkey := List.find?_some hother
          exact grounded_finish hst (by simpa using (beq_iff_eq.mp hkey).symm) answer
        · trivial
  · trivial
  · intro hnot
    rw [hpreflight] at hnot
    cases hnot
  · trivial
  · split
    · rename_i s hs
      split_ifs with hallowed
      · intro _
        exact ⟨s, hs, Gate.allowed_eq_true.mp hallowed⟩
      · trivial
    · exact grounded_startLogin drawn reachable

end Outcomes

/-! ### Every run

The invariant says of every mint how it was made, and of every served request the session behind
it. -/

def Mint.Made (lib : Lib) : Mint → Prop
  | .login g st v => st.gate = g.key lib ∧
      ∃ key, v = ⟨st.marshal, some ⟨key, message oidcStateName st.marshal⟩⟩
  | .session g st s v => Grants lib g st s v
  | .portal tx v => ∃ key, v = ⟨tx.marshal, some ⟨key, message portalTxCookie tx.marshal⟩⟩

/-- A request was handed on because of a session that was minted for its host and the
gate's provider, is not over, and satisfies the policy of this very gate. -/
def Entitled (lib : Lib) (minted : List Mint) (e : Served) : Prop :=
  ∃ g st s v, e.visit.session = some v ∧ Mint.session g st s v ∈ minted ∧
    s.host = requestHostname lib e.visit.host ∧ s.prov = e.gate.provider.id ∧
    e.visit.now ≤ s.expiry ∧
    Admits e.gate.auth (toLower lib.table s.email) s.groups s.unverified

def Started (lib : Lib) (minted : List Mint) : Mint → Prop
  | .session g st _ _ => ∃ g' v', Mint.login g' st v' ∈ minted ∧ g'.key lib = g.key lib
  | _ => True

structure Inv (lib : Lib) (w : World) : Prop where
  made : ∀ m ∈ w.minted, m.Made lib
  started : ∀ m ∈ w.minted, Started lib w.minted m
  served : ∀ e ∈ w.served, Entitled lib w.minted e

theorem Inv.init : Inv lib init where
  made := by simp [Sso.init]
  started := by simp [Sso.init]
  served := by simp [Sso.init]

theorem Entitled.mono {minted minted' : List Mint} (hsub : ∀ m ∈ minted, m ∈ minted') {e : Served}
    (h : Entitled lib minted e) : Entitled lib minted' e := by
  obtain ⟨g, st, s, v, hv, hm, hrest⟩ := h
  exact ⟨g, st, s, v, hv, hsub _ hm, hrest⟩

theorem Started.mono {minted minted' : List Mint} (hsub : ∀ m ∈ minted, m ∈ minted') {m : Mint}
    (h : Started lib minted m) : Started lib minted' m := by
  cases m with
  | login g st v => trivial
  | portal tx v => trivial
  | session g st s v =>
    obtain ⟨g', v', hm, hkey⟩ := h
    exact ⟨g', v', hsub _ hm, hkey⟩

theorem Inv.mint {w : World} (h : Inv lib w) {m : Mint} (hmade : m.Made lib)
    (hstarted : Started lib w.minted m) : Inv lib { w with minted := w.minted ++ [m] } := by
  have hsub : ∀ x ∈ w.minted, x ∈ w.minted ++ [m] := fun x hx => List.mem_append_left _ hx
  refine ⟨?_, ?_, fun e he => (h.served e he).mono hsub⟩
  · intro x hx
    rcases List.mem_append.mp hx with hx | hx
    · exact h.made x hx
    · rw [List.mem_singleton.mp hx]
      exact hmade
  · intro x hx
    rcases List.mem_append.mp hx with hx | hx
    · exact (h.started x hx).mono hsub
    · rw [List.mem_singleton.mp hx]
      exact hstarted.mono hsub

/-- A presented value that verifies for a purpose is a minted one, with the tag and the payload it
was minted with. -/
theorem exists_mint {w : World} {v : Value} (hv : w.presentable v = true)
    {secret : Option (List UInt8)} {purpose : String} {p : Payload}
    (hverify : verify secret purpose v = some p) : ∃ m ∈ w.minted, ∃ key,
      m.value.tag = some ⟨key, message purpose p⟩ ∧ v = ⟨p, some ⟨key, message purpose p⟩⟩ := by
  obtain ⟨hp, key, htag⟩ := verify_eq_some hverify
  subst hp
  unfold World.presentable at hv
  rw [htag, Option.all_some, List.any_eq_true] at hv
  obtain ⟨m, hm, heq⟩ := hv
  refine ⟨m, hm, key, beq_iff_eq.mp heq, ?_⟩
  rw [← htag]

/-- Behind the session's cookie stands a session. -/
theorem Inv.exists_session {w : World} (h : Inv lib w) {v : Value} (hv : w.presentable v = true)
    {secret : Option (List UInt8)} {p : Payload}
    (hverify : verify secret oidcSessionName v = some p) :
    ∃ g st s, Mint.session g st s v ∈ w.minted ∧ p = s.marshal := by
  obtain ⟨m, hm, key, htag, hvalue⟩ := exists_mint hv hverify
  have hmade := h.made m hm
  cases m with
  | login g st v' =>
    obtain ⟨-, key', rfl⟩ := hmade
    have hmessage := congrArg Tag.message (Option.some.inj htag)
    exact absurd (message_inj hmessage).1 (by decide)
  | portal tx v' =>
    obtain ⟨key', rfl⟩ := hmade
    have hmessage := congrArg Tag.message (Option.some.inj htag)
    exact absurd (message_inj hmessage).1 (by decide)
  | session g st s v' =>
    obtain ⟨key', hsigned⟩ := hmade.signed
    have hsame : v = v' := by
      rw [hsigned] at htag ⊢
      have hp := (message_inj (congrArg Tag.message (Option.some.inj htag))).2
      rw [hvalue, ← htag, ← hp]
      rfl
    subst hsame
    exact ⟨g, st, s, hm, by rw [hsigned] at hvalue; exact (congrArg Value.payload hvalue).symm⟩

/-- Behind the state's cookie stands a login. -/
theorem Inv.exists_login {w : World} (h : Inv lib w) {v : Value} (hv : w.presentable v = true)
    {secret : Option (List UInt8)} {p : Payload}
    (hverify : verify secret oidcStateName v = some p) :
    ∃ g st, Mint.login g st v ∈ w.minted ∧ p = st.marshal := by
  obtain ⟨m, hm, key, htag, hvalue⟩ := exists_mint hv hverify
  have hmade := h.made m hm
  cases m with
  | session g st s v' =>
    obtain ⟨key', hsigned⟩ := hmade.signed
    subst hsigned
    have hmessage := congrArg Tag.message (Option.some.inj htag)
    exact absurd (message_inj hmessage).1 (by decide)
  | portal tx v' =>
    obtain ⟨key', rfl⟩ := hmade
    have hmessage := congrArg Tag.message (Option.some.inj htag)
    exact absurd (message_inj hmessage).1 (by decide)
  | login g st v' =>
    obtain ⟨hgate, key', hsigned⟩ := hmade
    have hsame : v = v' := by
      rw [hsigned] at htag ⊢
      have hp := (message_inj (congrArg Tag.message (Option.some.inj htag))).2
      rw [hvalue, ← htag, ← hp]
      rfl
    subst hsame
    exact ⟨g, st, hm, by rw [hsigned] at hvalue; exact (congrArg Value.payload hvalue).symm⟩

theorem Inv.settle {w : World} (h : Inv lib w) {g : Gate} {r : Visit}
    (hsession : r.session.all w.presentable = true) (hlogin : r.login.all w.presentable = true)
    {outcome : Outcome} (hgrounded : Grounded lib w.secret g r outcome) :
    Inv lib (w.settle g r outcome) := by
  unfold World.settle
  split
  · -- the request is handed on
    split_ifs with hpreflight
    · exact h
    · obtain ⟨s, hs, hadmits⟩ := hgrounded (by simpa using hpreflight)
      obtain ⟨v, p, hv, hp, hread, hfits⟩ := session_eq_some hs
      rw [hv, Option.all_some] at hsession
      obtain ⟨g', st, s', hm, rfl⟩ := h.exists_session hsession hp
      obtain rfl := Option.some.inj ((Session.unmarshal_marshal s').symm.trans hread)
      refine ⟨h.made, h.started, ?_⟩
      intro e he
      rcases List.mem_append.mp he with he | he
      · exact h.served e he
      · rw [List.mem_singleton.mp he]
        exact ⟨g', st, s', v, hv, hm, hfits.1, hfits.2.1, hfits.2.2, hadmits⟩
  · exact h.mint hgrounded trivial
  · -- a login is finished
    rename_i g' st s v
    obtain ⟨hst, hgrants⟩ := hgrounded
    obtain ⟨v', p, hv', hp, hread, -⟩ := checkState_eq_ok hst
    rw [hv', Option.all_some] at hlogin
    obtain ⟨g'', st', hm, rfl⟩ := h.exists_login hlogin hp
    obtain rfl := Option.some.inj ((LoginState.unmarshal_marshal st').symm.trans hread)
    refine h.mint hgrants ⟨g'', v', hm, ?_⟩
    have hmade : st'.gate = g''.key lib ∧ _ := h.made _ hm
    exact hmade.1.symm.trans hgrants.gate
  · exact h

theorem Inv.step {w w' : World} {label : Label} (hstep : step lib w label = some w')
    (h : Inv lib w) : Inv lib w' := by
  cases label with
  | reload secret =>
    obtain rfl := Option.some.inj hstep
    exact ⟨h.made, h.started, h.served⟩
  | visit g siblings r drawn reachable answer =>
    unfold Sso.step at hstep
    simp only at hstep
    split_ifs at hstep with hpresent
    obtain rfl := Option.some.inj hstep
    rw [Bool.and_eq_true] at hpresent
    exact h.settle hpresent.1 hpresent.2 (grounded_wrap siblings drawn reachable answer)
  | portalLogin tx =>
    unfold Sso.step at hstep
    simp only at hstep
    split at hstep
    · obtain rfl := Option.some.inj hstep
      exact h
    · rename_i v hv
      obtain rfl := Option.some.inj hstep
      exact h.mint (sign_eq_some hv) trivial

theorem inv_run {labels : List Label} {w : World} (hrun : run (step lib) Sso.init labels = some w) :
    Inv lib w :=
  Reachable.invariant ⟨labels, hrun⟩ Inv.init fun _ _ _ h hstep => h.step hstep

/-- **The cookies of the single sign-on cannot be moved.** Whatever cookies are presented, under
whichever name, host and path: what a gate hands on carries a session that was minted for
this host and provider, is not over, and satisfies the gate's own policy; and a session
was minted under the policy of the gate that its login state names. -/
theorem cookies_stay_put {labels : List Label} {w : World}
    (hrun : run (step lib) Sso.init labels = some w) :
    (∀ e ∈ w.served, Entitled lib w.minted e) ∧
      ∀ g st s v, Mint.session g st s v ∈ w.minted → Admits g.auth s.email s.groups s.unverified ∧
        ∃ g' v', Mint.login g' st v' ∈ w.minted ∧ st.gate = g.key lib ∧ g'.key lib = g.key lib ∧
          (Function.Injective (oidcGateKey lib) → g'.auth = g.auth) := by
  have hinv := inv_run hrun
  refine ⟨hinv.served, ?_⟩
  intro g st s v hm
  have hmade : Grants lib g st s v := hinv.made _ hm
  obtain ⟨g', v', hlogin, hkey⟩ := hinv.started _ hm
  exact ⟨hmade.admits, g', v', hlogin, hmade.gate, hkey, fun hinj => hinj hkey⟩

def staffGate : Gate where
  provider := ⟨1, "groups", 12⟩
  auth := ⟨1, [], [], ["staff"], false⟩
  devNoTLS := false
  resolved := Or.inl rfl

def asciiLib : Lib := ⟨⟨id, id⟩, fun _ => "81b78dbfd7461e5e"⟩

/-- A request for a page, with the session and the login state it carries. -/
def page (path : String) (now : Int) (session login : Option Value) : Visit :=
  ⟨"GET", "app.example", utf8 path, path, true, false, session, login, "s1", "", now⟩

def staffState : LoginState :=
  ⟨"/", "s1", "n1", "v1", "app.example", 400, 1, "1:81b78dbfd7461e5e"⟩

def staffSession : Session := ⟨"ann@corp.example", ["staff"], "app.example", 43310, 1, false⟩

/-- A login from the first request to the page behind it. -/
def loginRun : List Label :=
  let drawn : Drawn := ⟨"s1", "n1", "v1"⟩
  let signed (purpose : String) (p : Payload) : Value := ⟨p, some ⟨[7], message purpose p⟩⟩
  [.reload (some [7]),
    .visit staffGate [] (page "/" 100 none none) drawn true .unreachable,
    .visit staffGate [] (page "/.qg/oidc/callback" 110 none
      (some (signed oidcStateName staffState.marshal))) drawn true
      (.idToken "n1" (some ⟨some "ann@corp.example", none, none, fun _ => some [some "staff"]⟩)),
    .visit staffGate [] (page "/" 120 (some (signed oidcSessionName staffSession.marshal)) none)
      drawn true .unreachable]

theorem cookies_stay_put_loginRun : ∃ w, run (step asciiLib) Sso.init loginRun = some w ∧
    w.served.length = 1 ∧ ∀ e ∈ w.served, Entitled asciiLib w.minted e := by
  have hserved : (run (step asciiLib) Sso.init loginRun).map (fun w => w.served.length) =
    some 1 := by
    decide +kernel
  obtain ⟨w, hrun, hlen⟩ := Option.map_eq_some_iff.mp hserved
  exact ⟨w, hrun, hlen, (cookies_stay_put hrun).1⟩

end Quicgate.Sso
