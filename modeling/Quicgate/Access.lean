import Quicgate.FirstMatch
import Quicgate.Routing
import Quicgate.WgPolicy

/-!
# Access lists

Compilation and evaluation of an access list (`internal/engine/access.go`): the
ordered address, hostname, country and VPN rules, the basic-auth users, and the
gate that HTTP requests and raw connections pass.

A compiled list is a first-match list (`Quicgate.FirstMatch`): `ruleAnswer` is
the body of the rule loop and `evaluate` the loop.  What a hostname resolves to
and what the GeoIP database says is the environment's; the password comparison
is bcrypt's.

The module is the model alone; what the gate guarantees is in
`Quicgate.AccessVerdicts`.
-/

namespace Quicgate.Access

open Quicgate.GoMaps Quicgate.GoStrings Quicgate.GoNet Quicgate.Routing Quicgate.WgPolicy
open Quicgate.FirstMatch (firstMatch)

/-! ### The store's access list -/

structure VPNSubject where
  kind : String -- any | site | device | peer | user | group | any-user
  peer : String
  provider : Int
  sub : String
  group : String
deriving DecidableEq, Repr

structure AccessRule where
  action : String -- allow | deny
  cidr : String
  host : String
  country : String
  methods : List String
  vpn : Option VPNSubject
deriving DecidableEq, Repr

structure AccessUser where
  username : String
  hash : String
deriving DecidableEq, Repr

structure AccessList where
  name : String
  satisfy : String -- any | all
  passAuth : Bool
  rules : List AccessRule
  users : List AccessUser
deriving DecidableEq, Repr

/-! ### Hostname rules and the DNS cache

A reload resolves the hostnames of a list one by one, and an answer that fails may be replaced
by one that is not older than `dnsLastKnownGoodMaxAge`.  `answers` threads the cache through the
rules in their order. -/

def dnsLastKnownGoodMaxAge : Int := 24 * 3600 * 1000000000

structure DnsEntry where
  ips : List IP
  at_ : Int

/-- The resolver with its memory. `lookup` and `now` are what the resolver and the
clock answer to the n-th call, `none` being an error; a nil cache remembers
nothing. -/
structure DnsCache where
  lookup : Nat → String → Option (List IP)
  now : Nat → Int
  calls : Nat
  entries : GoMap String DnsEntry
  remembers : Bool

/-- `dnsCache.resolve`: the addresses (none means unresolved), whether they are an
older answer, and the cache afterwards. -/
def DnsCache.resolve (table : CaseTable) (d : DnsCache) (host : String) :
    List IP × Bool × DnsCache :=
  let answer := (d.lookup d.calls host).filter (· ≠ [])
  let next := { d with calls := d.calls + 1 }
  if !d.remembers then (answer.getD [], false, next)
  else
    let key := toLower table host
    let now := d.now d.calls
    match answer with
    | some ips => (ips, false, { next with entries := d.entries.insert key ⟨ips, now⟩ })
    | none =>
        match d.entries.lookup key with
        | some e =>
            if now - e.at_ ≤ dnsLastKnownGoodMaxAge then (e.ips, true, next)
            else ([], false, { next with entries := d.entries.erase key })
        | none => ([], false, next)

/-- The rule is a hostname rule: neither a VPN subject nor a CIDR takes precedence. -/
def AccessRule.isHost (r : AccessRule) : Bool :=
  r.vpn.isNone && r.cidr == "" && r.host != ""

def DnsCache.ask (table : CaseTable) (d : DnsCache) (r : AccessRule) : List IP × DnsCache :=
  if r.isHost then ((d.resolve table r.host).1, (d.resolve table r.host).2.2) else ([], d)

def answers (table : CaseTable) : DnsCache → List AccessRule → List (List IP)
  | _, [] => []
  | d, r :: rest => (d.ask table r).1 :: answers table (d.ask table r).2 rest

/-! ### Compilation

One rule gives one compiled rule, or one for each address of its hostname; a hostname that does
not resolve gives a rule that is closed. -/

structure CompiledRule where
  allow : Bool
  net : Option IPNet
  country : String
  methods : Option (List String) -- none = all
  vpn : Option VPNSubject
  unresolved : Bool
deriving DecidableEq

structure CompiledAccess where
  name : String
  satisfy : String
  passAuth : Bool
  rules : List CompiledRule
  restricted : Bool
  denyAll : Bool
  users : GoMap String String -- username to bcrypt hash
  geo : Option (IP → String) -- the database's country of an address, when loaded
  ban : Bool
  allowsAllIPv4 : Bool
  allowsAllIPv6 : Bool
  vpnMatch : Option (VPNSubject → Peer → Bool)

/-- The verbs a rule is scoped to. HEAD is GET without the body. -/
def compileMethods (table : CaseTable) (methods : List String) : Option (List String) :=
  if methods = [] then none
  else
    let upper := methods.map (toUpper table)
    some (if "GET" ∈ upper then "HEAD" :: upper else upper)

def compileRule (table : CaseTable) (r : AccessRule) (ips : List IP) : List CompiledRule :=
  let rule : CompiledRule := {
    allow := r.action == "allow", net := none, country := "",
    methods := compileMethods table r.methods, vpn := none, unresolved := false }
  let closed : CompiledRule := { rule with unresolved := true }
  match r.vpn with
  | some subject => [{ rule with vpn := some subject }]
  | none =>
      if r.cidr ≠ "" then
        match parseCIDR r.cidr.toList with
        | some ipnet => [{ rule with net := some ipnet }]
        | none => [closed]
      else if r.host ≠ "" then
        if ips = [] then [closed]
        else ips.map fun ip => { rule with net := some (hostNet ip) }
      else if r.country ≠ "" then [{ rule with country := r.country }]
      else []

def AccessRule.isNetwork (r : AccessRule) : Bool :=
  r.vpn.isSome || r.cidr != "" || r.host != "" || r.country != ""

/-- The list opens to every address of the family with `bits` bits. -/
def allowsAll (bits : Nat) (rules : List CompiledRule) : Bool :=
  rules.any fun r => r.allow && r.net.any fun n => n.ones == 0 && n.bits == bits

def compileRules (table : CaseTable) (dns : DnsCache) (rules : List AccessRule) :
    List CompiledRule :=
  (List.zipWith (compileRule table) rules (answers table dns rules)).flatten

def compileAccess (table : CaseTable) (a : AccessList) (geo : Option (IP → String))
    (ban : Bool) (dns : DnsCache) : CompiledAccess :=
  let rules := compileRules table dns a.rules
  { name := a.name
    satisfy := a.satisfy
    passAuth := a.passAuth
    rules := rules
    restricted := a.rules.any (·.isNetwork)
    denyAll := false
    users := a.users.foldl (fun m u => m.insert u.username u.hash) ∅
    geo := geo
    ban := ban
    allowsAllIPv4 := allowsAll 32 rules
    allowsAllIPv6 := allowsAll 128 rules
    vpnMatch := none }

/-- A list as a reload installs it, with the engine's VPN matcher. -/
def reloadAccess (table : CaseTable) (a : AccessList) (geo : Option (IP → String))
    (ban : Bool) (dns : DnsCache) (vpnMatch : VPNSubject → Peer → Bool) : CompiledAccess :=
  { compileAccess table a geo ban dns with vpnMatch := some vpnMatch }

/-- The gate of a host or path whose access list does not exist. -/
def deniedAccess (name : String) : CompiledAccess :=
  { name := name, satisfy := "", passAuth := false, rules := [], restricted := true,
    denyAll := true, users := ∅, geo := none, ban := false, allowsAllIPv4 := false,
    allowsAllIPv6 := false, vpnMatch := none }

/-! ### VPN subjects

A device is matched through the table of owners of the last reload, whose groups are those of
the owner's last renewal. -/

structure VpnOwner where
  provider : Int
  sub : String
  groups : List String
deriving DecidableEq, Repr

/-- `vpnSubjectMatches`. `owners` is the table of the last reload, by device. -/
def vpnSubjectMatches (owners : Option (List (Int × VpnOwner))) (s : VPNSubject)
    (p : Peer) : Bool :=
  if s.kind = "any" then true
  else if s.kind = "site" then p.site
  else if s.kind = "device" then !p.site
  else if s.kind = "peer" then s.peer == p.key
  else if p.site then false
  else match owners.bind fun table => table.lookup p.id with
    | none => false
    | some o =>
        if o.provider ≠ s.provider then false
        else if s.kind = "any-user" then true
        else if s.kind = "user" then o.sub == s.sub
        else if s.kind = "group" then o.groups.contains s.group
        else false

/-! ### Evaluation

`allowedFor` is the network half of a list and `authOK` its users; `wrap` joins them as
`satisfy` says and decides what becomes of a request.  A `Request` carries who is at the other
end when it came through the tunnel. -/

/-- The rule is passed over because of the methods it is scoped to. A raw connection
has no method: a scoped allow cannot open it, a scoped deny still closes it. -/
def CompiledRule.skips (r : CompiledRule) (method : String) (l4 : Bool) : Bool :=
  r.methods.any fun ms => if l4 then r.allow else !ms.contains method

def CompiledRule.closedAnswer (r : CompiledRule) : Option Bool :=
  if r.allow then none else some false

def addressAnswer (geo : Option (IP → String)) (ip : IP) (r : CompiledRule) : Option Bool :=
  if r.unresolved then r.closedAnswer
  else if r.country ≠ "" then
    match geo with
    | none => r.closedAnswer
    | some country => if country ip = r.country then some r.allow else none
  else if r.net.any (·.contains ip) then some r.allow
  else none

def vpnAnswer (vpnMatch : Option (VPNSubject → Peer → Bool)) (peer : Option Peer)
    (r : CompiledRule) (subject : VPNSubject) : Option Bool :=
  match peer, vpnMatch with
  | some p, some vpnMatch => if vpnMatch subject p then some r.allow else none
  | _, _ => none

/-- The body of the rule loop: a verdict, or nothing when the loop goes on. -/
def ruleAnswer (c : CompiledAccess) (ip : IP) (method : String) (l4 : Bool)
    (peer : Option Peer) (r : CompiledRule) : Option Bool :=
  if r.skips method l4 then none
  else match r.vpn with
    | some subject => vpnAnswer c.vpnMatch peer r subject
    | none => if peer.isSome then none else addressAnswer c.geo ip r

/-- The address a socket address text names. -/
def clientIP (remoteAddr : String) : Option IP :=
  match splitHostPort remoteAddr.toList with
  | some (host, _) => parseIP host
  | none => parseIP remoteAddr.toList

def evaluate (c : CompiledAccess) (remoteAddr method : String) (l4 : Bool)
    (peer : Option Peer) : Bool :=
  if c.denyAll then false
  else if !c.restricted then true
  else match clientIP remoteAddr with
    | none => false
    | some ip => firstMatch (ruleAnswer c ip method l4 peer) c.rules

structure Request where
  method : String
  remoteAddr : String
  host : String
  header : Header
  peer : Option Peer

def allowedFor (c : CompiledAccess) (r : Request) (method : String) : Bool :=
  evaluate c r.remoteAddr method false r.peer

def hasUsers (c : CompiledAccess) : Bool := !c.users.entries.isEmpty

def l4Allowed (c : CompiledAccess) (remoteAddr : String) : Bool :=
  if hasUsers c && (c.satisfy != "any" || !c.restricted) then false
  else evaluate c remoteAddr "" true none

/-- What the gate takes from outside: the Unicode case table and bcrypt. -/
structure Env where
  table : CaseTable
  compareHash : String → List UInt8 → Bool

def authOK (env : Env) (c : CompiledAccess) (r : Request) : Bool :=
  if !hasUsers c then true
  else match parseBasicAuth (r.header.get "Authorization") with
    | none => false
    | some (user, pass) =>
        match c.users.entries.find? fun e => utf8 e.1 == user with
        | none => false
        | some entry => env.compareHash entry.2 pass

def isCORSPreflight (r : Request) : Bool :=
  r.method == "OPTIONS" && r.header.get "Access-Control-Request-Method" != ""

/-- Why a list refused, as the auto-ban list shows it. `sent` says whether
credentials came with the request ("wrong" against "no credentials"). -/
inductive RefusalReason where
  | address (list : String)
  | credentials (sent : Bool) (list : String)
  | both (sent : Bool) (list : String)
deriving DecidableEq, Repr

def refusalReason (c : CompiledAccess) (r : Request) (ipOK authOK : Bool) : RefusalReason :=
  let sent := r.header.get "Authorization" != ""
  if !hasUsers c || authOK then .address c.name
  else if ipOK then .credentials sent c.name
  else .both sent c.name

def crossSiteFetch (env : Env) (r : Request) : Bool :=
  let site := String.ofList (trimSpace (r.header.get "Sec-Fetch-Site").toList)
  toLower env.table site == "cross-site" || toLower env.table site == "same-site"

def clientIsIPv6 (r : Request) : Bool :=
  (clientIP r.remoteAddr).any fun ip => (to4 ip).isNone

def countsTowardBan (env : Env) (c : CompiledAccess) (r : Request) (ipOK authOK : Bool) :
    Bool :=
  if (parseBasicAuth (r.header.get "Authorization")).isSome && hasUsers c && !authOK then true
  else if ipOK then false
  else if crossSiteFetch env r then false
  else if c.allowsAllIPv4 && !c.allowsAllIPv6 && clientIsIPv6 r then false
  else true

structure BanRecord where
  remoteAddr : String
  name : String
  reason : RefusalReason
deriving DecidableEq, Repr

/-- What the gate does with a request: it hands it on, or answers it. -/
inductive Outcome where
  | next (r : Request) (identified : Bool)
  | refused (status : Nat) (authenticate : Option String) (blocked : Bool)
      (ban : Option BanRecord)

def Outcome.admits : Outcome → Bool
  | .next _ _ => true
  | .refused _ _ _ _ => false

def credentialsSuffice (c : CompiledAccess) : Bool :=
  c.satisfy == "any" && c.restricted && hasUsers c

/-- The method the request after a preflight will use. -/
def announced (env : Env) (r : Request) : String :=
  toUpper env.table
    (String.ofList (trimSpace (r.header.get "Access-Control-Request-Method").toList))

/-- The answer to a request that is not let through. The first 401 to a client
without credentials is a login prompt: it is neither counted as blocked nor toward a
ban. A refusal inside the tunnel never bans. -/
def refuse (env : Env) (c : CompiledAccess) (r : Request) (ipOK authOK : Bool) : Outcome :=
  let challenge := hasUsers c && r.header.get "Authorization" == "" &&
    (ipOK || (c.satisfy == "any" && c.restricted))
  let ban := if !challenge && c.ban && r.peer.isNone && countsTowardBan env c r ipOK authOK
    then some ⟨r.remoteAddr, routeName env.table r.host, refusalReason c r ipOK authOK⟩
    else none
  if hasUsers c && !authOK then
    .refused 401 (some ("Basic realm=\"" ++ c.name ++ "\"")) (!challenge) ban
  else .refused 403 none (!challenge) ban

/-- The request handed on. A credential that the list consumed is stripped, unless
the list passes it to the host. -/
def handOn (c : CompiledAccess) (r : Request) (authOK : Bool) : Outcome :=
  if hasUsers c && authOK then
    .next (if c.passAuth then r
      else { r with header := r.header.filter (·.1 != "Authorization") }) true
  else .next r false

def wrap (env : Env) (c : CompiledAccess) (r : Request) : Outcome :=
  if isCORSPreflight r then
    if allowedFor c r (announced env r) || (credentialsSuffice c && !c.denyAll) then .next r false
    else .refused 403 none true none
  else
    let ipOK := allowedFor c r r.method
    let authOK := authOK env c r
    let allowed := if credentialsSuffice c then ipOK || authOK else ipOK && authOK
    if !allowed then refuse env c r ipOK authOK else handOn c r authOK

end Quicgate.Access
