import Quicgate.StoreConfig

/-!
# The validation of a host

`Host.Validate` and what it is made of (`internal/store/store.go`).  The source
corrects the record in place and returns an error; here a check gives the
corrected record back.

`validate_kept` says what every later argument needs: which fields go through as they came,
and what becomes of the others.  Import, adoption and the admin API all write hosts that
passed this check, so `StoreImport`, `StoreMachine` and `NormalForms` start from it.
-/

namespace Quicgate.Store

open Quicgate.GoStrings Quicgate.GoNet Quicgate.Access Quicgate.Checks

variable (lib : Lib)

/-- The methods a rule is scoped to, in capitals; blank entries are dropped. -/
def normalizeMethods (place : String) : List String → Check (List String)
  | [] => .ok []
  | m :: rest =>
      let name := toUpper lib.caseTable (trim m)
      if name = "" then normalizeMethods place rest
      else do
        refuseIf (name ∉ validHTTPMethods) (place ++ "unknown HTTP method " ++ lib.quote name)
        let names ← normalizeMethods place rest
        return name :: names

def validateSubject (identityOnly : Bool) (s : VPNSubject) : Check VPNSubject := do
  let s := { s with peer := trim s.peer, sub := trim s.sub, group := trim s.group }
  if s.kind = "any" ∨ s.kind = "site" ∨ s.kind = "device" then
    refuseIf identityOnly
      ("subject kind " ++ lib.quote s.kind ++
        " does not name a person: use group, user or any-user")
    return { s with peer := "", provider := 0, sub := "", group := "" }
  else if s.kind = "peer" then
    refuseIf identityOnly
      "subject kind \"peer\" does not name a person: use group, user or any-user"
    let (kind, id, found) := cut ':' s.peer.toList
    refuseIf (found = false ∨ parseInt64 id = none ∨
        (kind ≠ "site".toList ∧ kind ≠ "device".toList))
      ("peer " ++ lib.quote s.peer ++ ": want site:<id> or device:<id>")
    return { s with provider := 0, sub := "", group := "" }
  else if s.kind = "user" then
    refuseIf (s.provider ≤ 0 ∨ s.sub = "")
      "a user subject needs its identity provider and the user's subject id"
    return { s with peer := "", group := "" }
  else if s.kind = "group" then
    refuseIf (s.provider ≤ 0 ∨ s.group = "")
      "a group subject needs its identity provider and the group's name"
    return { s with peer := "", sub := "" }
  else if s.kind = "any-user" then
    refuseIf (s.provider ≤ 0) "an any-user subject needs its identity provider"
    return { s with peer := "", sub := "", group := "" }
  else .error ("unknown subject kind " ++ lib.quote s.kind)

def validatePortal (p : PortalOptions) : Check PortalOptions := do
  refuseIf (p.providerID ≤ 0) "the portal needs an identity provider"
  refuseIf (p.claimsSource ∉ ["", "id_token", "userinfo"])
    "claimsSource must be id_token or userinfo"
  refuseIf (p.enrol = [])
    "say who may enrol devices: a group, a user, or every user of the provider"
  let enrol ← each (fun _ s => do
    let s ← validateSubject lib true s
    refuseIf (s.provider ≠ p.providerID)
      "an enrolment subject must belong to the portal's identity provider"
    return s) 1 p.enrol
  return { p with
    claimsSource := if p.claimsSource = "" then "id_token" else p.claimsSource, enrol }

def validateOIDC (o : OIDCAuth) : Check OIDCAuth := do
  refuseIf (o.providerID ≤ 0) "oidc: a provider is required"
  let norm (lower : Bool) (values : List String) : List String :=
    (values.map fun v => if lower then toLower lib.caseTable (trim v) else trim v).filter (· ≠ "")
  let domains := norm true o.allowedDomains
  forEach (fun (d : String) => refuseIf ('@' ∈ d.toList ∨ ' ' ∈ d.toList)
    ("oidc: " ++ lib.quote d ++ " is not a bare domain")) domains
  return { o with
    allowedEmails := norm true o.allowedEmails, allowedDomains := domains,
    allowedGroups := norm false o.allowedGroups }

/-! ### The host's own fields

A host is a proxy, a redirect, a static page or a portal; `validateKind` switches on it, and every
kind checks the fields it uses. -/

def validateDomain (d : String) : Check String := do
  let d := toLower lib.caseTable (trim d)
  refuseIf (matchesDomainRe d = false) ("invalid domain " ++ lib.quote d)
  refuseIf (domainTooLong d = true)
    ("domain " ++ lib.quote d ++ " is too long: labels are at most 63 characters, a name 253")
  return d

def validateUpstream (u : Upstream) : Check Unit := do
  refuseIf (u.scheme ≠ "http" ∧ u.scheme ≠ "https")
    ("upstream scheme must be http or https, got " ++ lib.quote u.scheme)
  refuseIf (trim u.host = "") "upstream host is required"
  refuseIf (validHostName u.host = false)
    ("upstream host " ++ lib.quote u.host ++
      " must be an IP address or a hostname (no scheme, port or path)")
  refuseIf (u.port < 1 ∨ 65535 < u.port) ("upstream port " ++ printInt u.port ++ " out of range")

def validateRewrite : Option PathRewrite → Check Unit
  | none => .ok ()
  | some pr =>
      if pr.regex = "" then .ok ()
      else match lib.regexpError pr.regex with
        | some why => .error ("invalid path-rewrite regex: " ++ why)
        | none => .ok ()

def startsWithSlash (path : String) : Bool := path.toList.head? == some '/'

def validateProxy (h : Host) : Check Host := do
  validateUpstream lib h.upstream
  let _ ← each (fun i u => do
    within s!"pool upstream {i}: " (validateUpstream lib u)
    refuseIf (u.scheme ≠ h.upstream.scheme) "all pool upstreams must share the primary's scheme")
    1 h.upstreams
  let _ ← each (fun i loc => do
    refuseIf (startsWithSlash loc.path = false) s!"location {i}: path must start with /"
    within s!"location {i}: " (validateUpstream lib loc.upstream)
    within s!"location {i}: " (validateRewrite lib loc.pathRewrite)) 1 h.locations
  validateRewrite lib h.options.pathRewrite
  return { h with redirect := none, staticRoot := "" }

def validatePortalHost (h : Host) : Check Host := do
  refuseIf h.options.vpnOnly
    "the portal must be reachable without the VPN: that is where people log in to get it back"
  match h.options.portal with
  | none => .error "a VPN portal needs its identity provider and who may enrol"
  | some p => do
      let p ← validatePortal lib p
      return { h with
        redirect := none, upstream := .zero, upstreams := [], locations := [], staticRoot := "",
        options := { h.options with portal := some p } }

def validateStatic (h : Host) : Check Host := do
  let root := trim h.staticRoot
  refuseIf (root = "") "static host needs a root directory"
  refuseIf (startsWithSlash root = false)
    ("static root " ++ lib.quote root ++ " must be an absolute path")
  return { h with
    redirect := none, upstream := .zero, upstreams := [], staticRoot := cleanPath root }

def validateRedirect (h : Host) : Check Host :=
  match h.redirect with
  | none => .error "redirect host needs a redirect target"
  | some r => do
      refuseIf (r.httpCode ∉ [0, 300, 301, 302, 307, 308])
        ("redirect code must be 300/301/302/307/308, got " ++ printInt r.httpCode)
      refuseIf (r.targetScheme ∉ ["", "auto", "http", "https"])
        ("redirect scheme must be auto, http or https, got " ++ lib.quote r.targetScheme)
      let target := trim r.targetHost
      refuseIf (target = "") "redirect target host is required"
      refuseIf (validHostOptionalPort target = false)
        ("redirect target host " ++ lib.quote target ++
          " must be a hostname or IP address, with an optional port (the scheme is a separate setting)")
      return { h with
        upstream := .zero
        redirect := some { r with
          httpCode := if r.httpCode = 0 then 301 else r.httpCode
          targetScheme := if r.targetScheme = "" then "auto" else r.targetScheme
          targetHost := target } }

def validateKind (h : Host) : Check Host :=
  if h.type = "proxy" then validateProxy lib h
  else if h.type = "vpn-portal" then validatePortalHost lib h
  else if h.type = "static" then validateStatic lib h
  else if h.type = "redirect" then validateRedirect lib h
  else .ok { h with upstream := .zero, upstreams := [], redirect := none, staticRoot := "" }

def validateRateLimit : Option RateLimit → Check (Option RateLimit)
  | none => .ok none
  | some rl => do
      refuseIf (rl.rps ≤ 0) "rate limit rps must be positive"
      return some (if rl.burst < 1 then { rl with burst := max 1 rl.rps.floor } else rl)

/-- The certificate fields: a certificate is named exactly in mode `custom`, and a
host without TLS cannot force it or ask for client certificates. -/
def validateCert (h : Host) : Check Host := do
  let certMode := if h.certMode = "" then "auto" else h.certMode
  refuseIf (certMode ∉ ["auto", "none", "custom"])
    ("certMode must be auto, none or custom, got " ++ lib.quote certMode)
  refuseIf (certMode = "custom" ∧ h.certID = none) "certMode custom requires a certificate"
  refuseIf (certMode = "none" ∧ h.forceSSL = true) "forceSsl requires TLS"
  refuseIf (certMode = "none" ∧ h.options.clientCert.isSome = true)
    "client certificates require TLS; certMode none serves plain HTTP only"
  return { h with certMode, certID := if certMode = "custom" then h.certID else none }

/-! ### The options

The auth rules come last and are checked against the corrected options: a rule may only name a
gate that is set up. -/

def validateHeaderRule (r : HeaderRule) : Check HeaderRule := do
  refuseIf (r.op ∉ ["set", "add", "remove"])
    ("header rule op must be set, add or remove, got " ++ lib.quote r.op)
  let name := trim r.name
  refuseIf (name = "") "header rule name is required"
  refuseIf (validHeaderToken name = false)
    ("header rule name " ++ lib.quote name ++ " is not a valid header name")
  refuseIf (toLower lib.caseTable name ∈ protocolHeaders)
    ("header " ++ name ++
      " carries the connection or the message framing and cannot be changed by a rule")
  return { r with name }

/-- A blank URL is left as it is. -/
def validateForwardAuth : Option ForwardAuth → Check (Option ForwardAuth)
  | none => .ok none
  | some fa =>
      let url := trim fa.url
      if url = "" then .ok (some fa)
      else do
        refuseIf ((lib.parseURL url).any (fun (scheme, host) =>
            (scheme == "http" || scheme == "https") && host != "") = false)
          ("forwardAuth.url " ++ lib.quote url ++ " must be an http:// or https:// URL")
        return some { fa with url }

def validateClientCert : Option ClientCert → Check (Option ClientCert)
  | none => .ok none
  | some cc => do
      refuseIf (cc.mode ∉ ["", "require", "request"])
        ("clientCert mode must be require or request, got " ++ lib.quote cc.mode)
      refuseIf (lib.appendCertsFromPEM cc.caPEM = false)
        "clientCert needs a PEM bundle with at least one valid CA certificate"
      return some { cc with mode := if cc.mode = "" then "require" else cc.mode }

def validateHSTS (hsts : HSTS) : Check HSTS := do
  let maxAge := if hsts.enabled = true ∧ hsts.maxAge ≤ 0 then 15552000 else hsts.maxAge
  refuseIf (2 * 365 * 24 * 3600 < maxAge)
    ("hsts.maxAge " ++ printInt maxAge ++
      " is more than two years (63072000 seconds), which is what preload lists ask for at most")
  return { hsts with maxAge }

def validateHostOIDC : Option OIDCAuth → Check (Option OIDCAuth)
  | none => .ok none
  | some o => do
      let o ← validateOIDC lib o
      return some o

/-- The gate an auth rule names: its mode decides which references stay. -/
def validateRuleMode (o : Options) (i : Nat) (r : AuthRule) : Check AuthRule :=
  if r.mode = "public" then .ok { r with accessListID := none, oidc := none }
  else if r.mode = "forwardAuth" then do
    refuseIf (o.forwardAuth.all (fun fa => trim fa.url == "") = true)
      s!"auth rule {i}: mode forwardAuth needs forward authentication configured on this host"
    return { r with accessListID := none, oidc := none }
  else if r.mode = "oidc" then do
    let oidc ← within s!"auth rule {i}: " (validateHostOIDC lib r.oidc)
    refuseIf (oidc = none ∧ o.oidc = none)
      s!"auth rule {i}: mode oidc needs an identity provider on the rule or OIDC SSO on this host"
    return { r with accessListID := none, oidc }
  else if r.mode = "accessList" then do
    refuseIf (r.accessListID = none) s!"auth rule {i}: mode accessList needs an access list"
    return { r with oidc := none }
  else .error (s!"auth rule {i}: mode must be public, accessList, forwardAuth or oidc, got " ++
    lib.quote r.mode)

def validateAuthRule (o : Options) (i : Nat) (r : AuthRule) : Check AuthRule := do
  let r := { r with path := trim r.path }
  refuseIf (startsWithSlash r.path = false) s!"auth rule {i}: path must start with /"
  let r ← validateRuleMode lib o i r
  let methods ← normalizeMethods lib s!"auth rule {i}: " r.methods
  return { r with methods }

/-- None may be negative; a limit of 0 is none. -/
def validateBound (name : String) (v limit : Int) : Check Unit := do
  refuseIf (v < 0) (name ++ " cannot be negative")
  refuseIf (0 < limit ∧ limit < v)
    (name ++ " is at most " ++ printInt limit ++ ", got " ++ printInt v)

def validateBounds (o : Options) : Check Unit := do
  validateBound "dialTimeoutSec" o.dialTimeoutSec 3600
  validateBound "responseHeaderTimeoutSec" o.responseHeaderTimeoutSec 3600
  validateBound "idleTimeoutSec" o.idleTimeoutSec 3600
  validateBound "maxIdleConnsPerHost" o.maxIdleConnsPerHost 0
  validateBound "maxBodyMb" o.maxBodyMB 10240
  validateBound "cacheSec" o.cacheSec (30 * 24 * 3600)

/-- `Options.validate`. -/
def validateOptions (o : Options) : Check Options := do
  let requestHeaders ← each (fun _ => validateHeaderRule lib) 1 o.requestHeaders
  let responseHeaders ← each (fun _ => validateHeaderRule lib) 1 o.responseHeaders
  let forwardAuth ← validateForwardAuth lib o.forwardAuth
  refuseIf (o.minTLSVersion ∉ ["", "1.2", "1.3"])
    ("minTlsVersion must be 1.2 or 1.3, got " ++ lib.quote o.minTLSVersion)
  let clientCert ← validateClientCert lib o.clientCert
  let hsts ← validateHSTS o.hsts
  let oidc ← validateHostOIDC lib o.oidc
  let o := { o with requestHeaders, responseHeaders, forwardAuth, clientCert, hsts, oidc }
  let authRules ← each (validateAuthRule lib o) 1 o.authRules
  validateBounds o
  return { o with authRules }

def Host.validate (h : Host) : Check Host := do
  let h := { h with type := if h.type = "" then "proxy" else h.type }
  refuseIf (h.type ∉ ["proxy", "redirect", "dead", "static", "vpn-portal"])
    ("unsupported host type " ++ lib.quote h.type)
  refuseIf (h.domains = []) "at least one domain is required"
  let domains ← each (fun _ => validateDomain lib) 1 h.domains
  let h ← validateKind lib { h with domains }
  let rateLimit ← validateRateLimit h.options.rateLimit
  let h ← validateCert lib { h with options := { h.options with rateLimit } }
  let options ← validateOptions lib h.options
  return { h with options }

/-! ### What a validated host keeps

`HostKept` relates the host that came in to the one that is stored, and `SameGates` is what is
common to both for whoever asks about protections only. -/

/-- The protections a host has, and its names, that no check of another field
changes. -/
structure SameGates (h h' : Host) : Prop where
  type : h'.type = h.type
  domains : h'.domains = h.domains
  certMode : h'.certMode = h.certMode
  forceSSL : h'.forceSSL = h.forceSSL
  accessListID : h'.accessListID = h.accessListID
  vpnOnly : h'.options.vpnOnly = h.options.vpnOnly
  forwardAuth : h'.options.forwardAuth = h.options.forwardAuth
  oidc : h'.options.oidc = h.options.oidc
  authRules : h'.options.authRules = h.options.authRules
  clientCert : h'.options.clientCert = h.options.clientCert
  minTLSVersion : h'.options.minTLSVersion = h.options.minTLSVersion

structure RuleKept (r r' : AuthRule) : Prop where
  path : r'.path = trim r.path
  slash : startsWithSlash r'.path = true
  exact : r'.exact = r.exact
  mode : r'.mode = r.mode
  modeKnown : r.mode ∈ ["public", "forwardAuth", "oidc", "accessList"]
  methods : r'.methods = (r.methods.map fun m => toUpper lib.caseTable (trim m)).filter (· ≠ "")
  methodsKnown : ∀ m ∈ r'.methods, m ∈ validHTTPMethods
  oidc : r.mode = "oidc" → r'.oidc.isSome = r.oidc.isSome

/-- Forward authentication is set up with an address. -/
def Options.hasForwardAuth (o : Options) : Bool := o.forwardAuth.any (·.url != "")

/-- The mode a client-certificate setting takes effect with, `clientCertMode`. -/
def clientCertMode : Option ClientCert → String
  | none => "none"
  | some cc => if cc.mode = "" then "require" else cc.mode

structure OptionsKept (o o' : Options) : Prop where
  vpnOnly : o'.vpnOnly = o.vpnOnly
  forwardAuth : o'.hasForwardAuth = o.hasForwardAuth
  oidc : o'.oidc.isSome = o.oidc.isSome
  authRules : List.Forall₂ (RuleKept lib) o.authRules o'.authRules
  clientCert : o'.clientCert.isSome = o.clientCert.isSome
  clientCertMode : clientCertMode o'.clientCert = clientCertMode o.clientCert
  minTLSVersion : o'.minTLSVersion = o.minTLSVersion

structure HostKept (h h' : Host) : Prop where
  type : h'.type = if h.type = "" then "proxy" else h.type
  domains : h'.domains = h.domains.map fun d => toLower lib.caseTable (trim d)
  domainsValid : ∀ d ∈ h'.domains, matchesDomainRe d = true
  domainsNe : h'.domains ≠ []
  certMode : h'.certMode = if h.certMode = "" then "auto" else h.certMode
  forceSSL : h'.forceSSL = h.forceSSL
  accessListID : h'.accessListID = h.accessListID
  options : OptionsKept lib h.options h'.options

variable {lib}

/-! ### The checks, taken apart

Each check is taken apart where it is used: what it refuses, and what it makes of the field it
is about. -/

theorem normalizeMethods_eq_ok {place : String} {methods names : List String}
    (h : normalizeMethods lib place methods = .ok names) :
    names = (methods.map fun m => toUpper lib.caseTable (trim m)).filter (· ≠ "") ∧
      ∀ m ∈ names, m ∈ validHTTPMethods := by
  induction methods generalizing names with
  | nil =>
      simp only [normalizeMethods, Except.ok.injEq] at h
      subst h
      simp
  | cons m rest ih =>
      simp only [normalizeMethods] at h
      by_cases hblank : toUpper lib.caseTable (trim m) = ""
      · rw [if_pos hblank] at h
        simpa [hblank] using ih h
      · rw [if_neg hblank] at h
        simp only [bind_eq_ok, refuseIf_eq_ok, pure_eq_ok, not_not] at h
        obtain ⟨-, hknown, names', hrest, rfl⟩ := h
        obtain ⟨heq, hall⟩ := ih hrest
        constructor
        · simp [hblank, heq]
        · intro name hname
          rcases List.mem_cons.mp hname with rfl | hname
          · exact hknown
          · exact hall name hname

theorem isSome_of_validateHostOIDC {o o' : Option OIDCAuth} (h : validateHostOIDC lib o = .ok o') :
    o'.isSome = o.isSome := by
  cases o with
  | none =>
      simp only [validateHostOIDC, Except.ok.injEq] at h
      rw [← h]
  | some o =>
      simp only [validateHostOIDC, bind_eq_ok, pure_eq_ok] at h
      obtain ⟨o'', -, rfl⟩ := h
      rfl

/-- The mode's branch touches the references of a rule only. -/
theorem validateRuleMode_eq_ok {o : Options} {i : Nat} {r r' : AuthRule}
    (h : validateRuleMode lib o i r = .ok r') :
    r.mode ∈ ["public", "forwardAuth", "oidc", "accessList"] ∧
      r' = { r with accessListID := r'.accessListID, oidc := r'.oidc } ∧
      (r.mode = "oidc" → r'.oidc.isSome = r.oidc.isSome) := by
  unfold validateRuleMode at h
  split_ifs at h with hpublic hforward hoidc hlist
  · simp only [Except.ok.injEq] at h
    subst h
    simp [hpublic]
  · simp only [bind_eq_ok, pure_eq_ok] at h
    obtain ⟨-, -, rfl⟩ := h
    simp [hforward]
  · simp only [bind_eq_ok, pure_eq_ok, within_eq_ok] at h
    obtain ⟨oidc, hvalid, -, -, rfl⟩ := h
    simp [hoidc, isSome_of_validateHostOIDC hvalid]
  · simp only [bind_eq_ok, pure_eq_ok] at h
    obtain ⟨-, -, rfl⟩ := h
    simp [hlist]

theorem validateAuthRule_kept {o : Options} {i : Nat} {r r' : AuthRule}
    (h : validateAuthRule lib o i r = .ok r') : RuleKept lib r r' := by
  simp only [validateAuthRule, bind_eq_ok, refuseIf_eq_ok, pure_eq_ok] at h
  obtain ⟨-, hslash, r'', hmode, methods, hmethods, rfl⟩ := h
  obtain ⟨hknown, hsame, hoidc⟩ := validateRuleMode_eq_ok hmode
  have hpath : r''.path = trim r.path := by rw [hsame]
  have hold : r''.methods = r.methods := by rw [hsame]
  obtain ⟨heq, hall⟩ := normalizeMethods_eq_ok hmethods
  exact {
    path := hpath
    slash := by rw [hpath]; simpa using hslash
    exact := by rw [hsame]
    mode := by rw [hsame]
    modeKnown := hknown
    methods := by rw [heq, hold]
    methodsKnown := hall
    oidc := hoidc }

theorem hasForwardAuth_of_validate {fa fa' : Option ForwardAuth}
    (h : validateForwardAuth lib fa = .ok fa') : fa'.any (·.url != "") = fa.any (·.url != "") := by
  cases fa with
  | none =>
      simp only [validateForwardAuth, Except.ok.injEq] at h
      rw [← h]
  | some fa =>
      simp only [validateForwardAuth] at h
      split_ifs at h with hblank
      · simp only [Except.ok.injEq] at h
        rw [← h]
      · simp only [bind_eq_ok, pure_eq_ok] at h
        obtain ⟨-, -, rfl⟩ := h
        -- an address that is not blank is not empty either
        have hne : fa.url ≠ "" := by
          intro hempty
          exact hblank (by rw [hempty]; decide)
        simp only [Option.any_some]
        rw [bne_iff_ne.mpr hblank, bne_iff_ne.mpr hne]

theorem clientCert_of_validate {cc cc' : Option ClientCert}
    (h : validateClientCert lib cc = .ok cc') :
    cc'.isSome = cc.isSome ∧ clientCertMode cc' = clientCertMode cc := by
  cases cc with
  | none =>
      simp only [validateClientCert, Except.ok.injEq] at h
      subst h
      exact ⟨rfl, rfl⟩
  | some cc =>
      simp only [validateClientCert, bind_eq_ok, pure_eq_ok] at h
      obtain ⟨-, -, -, -, rfl⟩ := h
      refine ⟨rfl, ?_⟩
      by_cases hmode : cc.mode = ""
      · simp [clientCertMode, hmode]
      · simp [clientCertMode, hmode]

theorem validateOptions_kept {o o' : Options} (h : validateOptions lib o = .ok o') :
    OptionsKept lib o o' := by
  simp only [validateOptions, bind_eq_ok, refuseIf_eq_ok, pure_eq_ok] at h
  obtain ⟨_, -, _, -, fa, hfa, -, -, cc, hcc, _, -, oidc, hoidc, rules, hrules, -, -, rfl⟩ := h
  obtain ⟨hsome, hmode⟩ := clientCert_of_validate hcc
  exact {
    vpnOnly := rfl
    forwardAuth := hasForwardAuth_of_validate hfa
    oidc := isSome_of_validateHostOIDC hoidc
    authRules := (each_eq_ok hrules).imp fun _ _ hrule => hrule.elim fun _ => validateAuthRule_kept
    clientCert := hsome
    clientCertMode := hmode
    minTLSVersion := rfl }

theorem validateKind_same {h h' : Host} (hk : validateKind lib h = .ok h') : SameGates h h' := by
  unfold validateKind at hk
  split_ifs at hk
  · simp only [validateProxy, bind_eq_ok, pure_eq_ok] at hk
    obtain ⟨-, -, -, -, -, -, -, -, rfl⟩ := hk
    constructor <;> rfl
  · simp only [validatePortalHost, bind_eq_ok] at hk
    obtain ⟨-, -, hk⟩ := hk
    cases hportal : h.options.portal with
    | none => simp [hportal] at hk
    | some p =>
        simp only [hportal, bind_eq_ok, pure_eq_ok] at hk
        obtain ⟨p', -, rfl⟩ := hk
        constructor <;> rfl
  · simp only [validateStatic, bind_eq_ok, pure_eq_ok] at hk
    obtain ⟨-, -, -, -, rfl⟩ := hk
    constructor <;> rfl
  · unfold validateRedirect at hk
    cases hredirect : h.redirect with
    | none => simp [hredirect] at hk
    | some r =>
        simp only [hredirect, bind_eq_ok, pure_eq_ok] at hk
        obtain ⟨-, -, -, -, -, -, -, -, rfl⟩ := hk
        constructor <;> rfl
  · simp only [Except.ok.injEq] at hk
    subst hk
    constructor <;> rfl

theorem validateDomain_eq_ok {d d' : String} (h : validateDomain lib d = .ok d') :
    d' = toLower lib.caseTable (trim d) ∧ matchesDomainRe d' = true := by
  simp only [validateDomain, bind_eq_ok, refuseIf_eq_ok, pure_eq_ok] at h
  obtain ⟨-, hmatch, -, -, rfl⟩ := h
  exact ⟨rfl, by simpa using hmatch⟩

/-- What is written to the table, beside what came in. -/
theorem Host.validate_kept {h h' : Host} (hv : h.validate lib = .ok h') : HostKept lib h h' := by
  simp only [Host.validate, bind_eq_ok, refuseIf_eq_ok, pure_eq_ok] at hv
  obtain ⟨-, -, -, hne, domains, hdomains, hk, hkind, rl, -, hc, hcert, o, hopts, rfl⟩ := hv
  have hsame := validateKind_same hkind
  simp only [validateCert, bind_eq_ok, pure_eq_ok] at hcert
  obtain ⟨-, -, -, -, -, -, -, -, rfl⟩ := hcert
  have hopts := validateOptions_kept hopts
  have hpairs := (each_eq_ok hdomains).imp fun _ _ hd => hd.elim fun _ => validateDomain_eq_ok
  have hmap : domains = h.domains.map fun d => toLower lib.caseTable (trim d) := by
    have hall := hpairs.imp fun _ _ hd => hd.1
    rw [List.forall₂_iff_get] at hall
    apply List.ext_get
    · simpa using hall.1.symm
    · intro i hi hi'
      simpa using hall.2 i (by simpa using hi') hi
  exact {
    type := hsame.type
    domains := hsame.domains.trans hmap
    domainsValid := by
      intro d hd
      have hd' : d ∈ domains := by simpa [hsame.domains] using hd
      obtain ⟨_, -, -, hmatch⟩ := exists_of_forall₂_right hpairs hd'
      exact hmatch
    domainsNe := by
      rw [hsame.domains]
      simpa [hmap] using hne
    certMode := by simp only [hsame.certMode]
    forceSSL := hsame.forceSSL
    accessListID := hsame.accessListID
    options := {
      vpnOnly := hopts.vpnOnly.trans hsame.vpnOnly
      forwardAuth := by
        rw [hopts.forwardAuth]
        simp only [Options.hasForwardAuth, hsame.forwardAuth]
      oidc := hopts.oidc.trans (by simp only [hsame.oidc])
      authRules := by simpa only [hsame.authRules] using hopts.authRules
      clientCert := hopts.clientCert.trans (by simp only [hsame.clientCert])
      clientCertMode := hopts.clientCertMode.trans (by simp only [hsame.clientCert])
      minTLSVersion := hopts.minTLSVersion.trans hsame.minTLSVersion } }

/-- A proxy keeps its upstream as it came. -/
theorem upstream_of_validateKind {h h' : Host} (hk : validateKind lib h = .ok h')
    (htype : h.type = "proxy") : h'.upstream = h.upstream := by
  rw [validateKind, if_pos htype] at hk
  simp only [validateProxy, bind_eq_ok, pure_eq_ok] at hk
  obtain ⟨-, -, -, -, -, -, -, -, rfl⟩ := hk
  rfl

theorem Host.upstream_of_validate {h h' : Host} (hv : h.validate lib = .ok h')
    (htype : h.type = "proxy") : h'.upstream = h.upstream := by
  simp only [Host.validate, bind_eq_ok, refuseIf_eq_ok, pure_eq_ok] at hv
  obtain ⟨-, -, -, -, domains, -, hk, hkind, rl, -, hc, hcert, o, -, rfl⟩ := hv
  simp only [validateCert, bind_eq_ok, pure_eq_ok] at hcert
  obtain ⟨-, -, -, -, -, -, -, -, rfl⟩ := hcert
  have hkept := upstream_of_validateKind hkind (by simp [htype])
  exact hkept

end Quicgate.Store
