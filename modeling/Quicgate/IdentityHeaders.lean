import Quicgate.PathSafe
import Quicgate.SsoCookies

/-!
# Identity headers

The middleware of a host around its gates (`wrapCommon`, `stripHeaders`, `forwardAuth` and
the path rules): the headers that an upstream takes an identity from are removed before
any gate runs, in every spelling, and only a gate puts them back.

A gate is a function of the request that its environment completes: the auth server, the
signing key, the access lists.  `Chain` is what comes of a request: the decisions of the
gates it met, and the request as the inner handler gets it, if it does.

`identity_cannot_be_forged` has the two halves of this: what a client writes into lines with a
trusted name changes nothing, and the lines that the inner handler gets were set by gates
that admitted the request.
-/

namespace Quicgate.Identity

open Quicgate.GoStrings Quicgate.GoNet Quicgate.Store

/-- A request. `taken` are the cookies that `stripHeaders` put into its context. -/
structure Request extends Access.Request where
  path : Path
  uri : String
  query : String → String
  tls : Bool
  viaTrustedProxy : Bool
  taken : Option (List (String × String))

/-! ### Header names

A header is a list of lines; `del` and `set` are the methods of `http.Header`, which know one
spelling of a name only. -/

def canonicalHeaderKey (name : String) : String :=
  if validHeaderToken name then String.ofList (go true name.toList) else name
where
  go (upper : Bool) : List Char → List Char
    | [] => []
    | c :: rest => (if upper then c.toUpper else c.toLower) :: go (c == '-') rest

def del (h : Header) (name : String) : Header :=
  h.filter fun line => line.1 != canonicalHeaderKey name

def set (h : Header) (name value : String) : Header :=
  del h name ++ [(canonicalHeaderKey name, value)]

def normalizeHeaderName (table : CaseTable) (name : String) : String :=
  String.ofList ((toLower table name).toList.map fun c => if c = '_' then '-' else c)

/-! ### Stripping

The names are those that some gate of the host hands on, and the cookies those of the login.
`stripHeaders` keeps the login's cookies for the gates. -/

def identityHeaders : List String := ["Remote-User", "Remote-Email", "Remote-Groups"]

def forwardOf (o : Options) : Option ForwardAuth := o.forwardAuth.filter fun fa => fa.url != ""

def trustedIdentityHeaders (o : Options) : List String :=
  let identity := o.oidc.isSome || (forwardOf o).isSome ||
    o.authRules.any fun r => r.mode == "oidc" || r.mode == "forwardAuth"
  (if identity then identityHeaders else []) ++
    match forwardOf o with
    | some fa =>
        (fa.responseHeaders.map fun h => String.ofList (trimSpace h.toList)).filter (· != "")
    | none => []

/-- The name is one of the trusted ones, in whichever spelling. -/
def trusts (table : CaseTable) (o : Options) (name : String) : Bool :=
  ((trustedIdentityHeaders o).map (normalizeHeaderName table)).contains
    (normalizeHeaderName table name)

def ssoCookieNames : List String := [Sso.oidcSessionName, Sso.oidcStateName]

/-- The parts of a `Cookie` line: each with its name and its value. -/
def cookieParts (line : String) : List (String × String × String) :=
  ((line.toList.splitOn ';').map trimSpace).filterMap fun part =>
    if part = [] then none
    else
      let (name, value, _) := cut '=' part
      some (String.ofList part, String.ofList name, String.ofList value)

/-- `takeCookies`: the cookies that were taken, and the header without them. -/
def takeCookies (h : Header) (names : List String) : List (String × String) × Header :=
  let lines := h.filter fun line => line.1 == "Cookie"
  let taken := (lines.flatMap fun line => cookieParts line.2).filterMap fun part =>
    if names.contains part.2.1 then some part.2 else none
  if taken = [] then ([], h)
  else (taken, h.filterMap fun line =>
    if line.1 == "Cookie" then
      let keep := ((cookieParts line.2).filter fun part => !names.contains part.2.1).map (·.1)
      if keep = [] then none else some (line.1, String.intercalate "; " keep)
    else some line)

/-- `stripHeaders`, as far as the request goes. -/
def stripHeaders (table : CaseTable) (o : Options) (r : Request) : Request :=
  if trustedIdentityHeaders o = [] then r
  else
    let (taken, header) := takeCookies (r.header.filter fun line => !trusts table o line.1)
      ssoCookieNames
    { r with header := header, taken := if taken = [] then r.taken else some taken }

/-! ### Gates

Forward auth, single sign-on and access lists, each as what it decides and which lines it sets.  A
host has some of them and a path rule one; the login's own paths have the gate behind them. -/

/-- What forward auth asks the auth server (`copyForwardAuthHeaders`). -/
structure SubRequest where
  method : String
  proto : String
  host : String
  uri : String
  for_ : String
  cookie : String
  authorization : String

inductive AuthAnswer where
  | misconfigured
  | unreachable
  | response (status : Nat) (header : Header)

/-- What the gates take from outside. `readCookie` is `Request.Cookie`, `parseValue` takes
the base64 of a cookie's value apart, and `filters` are the controls against abuse in
front of the gates: the rate limit, the bad bots and the exploits. -/
structure Env where
  table : CaseTable
  folds : Char → Char → Bool
  access : Access.Env
  sso : Sso.Lib
  acls : Int → Option Access.CompiledAccess
  newGate : OIDCAuth → Sso.Gate
  siblings : List Sso.Gate
  authServer : ForwardAuth → SubRequest → AuthAnswer
  secret : Option (List UInt8)
  now : Int
  drawn : Sso.Drawn
  reachable : Bool
  answer : Sso.Answer
  parseValue : String → Sso.Value
  readCookie : Header → String → Option String
  filters : Request → Bool

/-- What a gate did: what it answered, or that it admitted the request, with the lines it set. -/
inductive Decision where
  | access (answer : Option Access.Outcome)
  | forwardAuth (answer : Option AuthAnswer) (sets : Header)
  | sso (answer : Option Sso.Outcome) (sets : Header)
  | closed

def Decision.admits : Decision → Bool
  | .access answer => answer.isNone
  | .forwardAuth answer _ => answer.isNone
  | .sso answer _ => answer.isNone
  | .closed => false

def Decision.sets : Decision → Header
  | .forwardAuth _ sets | .sso _ sets => sets
  | .access _ | .closed => []

inductive Gate where
  | access (c : Access.CompiledAccess)
  | forward (fa : ForwardAuth)
  | sso (g : Sso.Gate)
  | closed

def connectionEncrypted (folds : Char → Char → Bool) (r : Request) : Bool :=
  r.tls || (r.viaTrustedProxy && foldEqual folds (r.header.get "X-Forwarded-Proto") "https")

/-- The lines that a loop of `Header.Set` leaves behind. -/
def setAll (h : Header) (sets : List (String × String)) : Header :=
  sets.foldl (fun h line => set h line.1 line.2) h

/-- The lines as they stand in the header. -/
def canonicalLines (sets : List (String × String)) : Header :=
  sets.map fun line => (canonicalHeaderKey line.1, line.2)

def clientIP (remoteAddr : String) : String :=
  match splitHostPort remoteAddr.toList with
  | some (host, _) => String.ofList host
  | none => remoteAddr

def subRequest (folds : Char → Char → Bool) (r : Request) : SubRequest where
  method := r.method
  proto := if connectionEncrypted folds r then "https" else "http"
  host := r.host
  uri := r.uri
  for_ := clientIP r.remoteAddr
  cookie := r.header.get "Cookie"
  authorization := r.header.get "Authorization"

def forwardAuth (env : Env) (fa : ForwardAuth) (r : Request) : Decision × Option Request :=
  let r := { r with header := fa.responseHeaders.foldl del r.header }
  match env.authServer fa (subRequest env.folds r) with
  | .response status header =>
      if 200 ≤ status ∧ status < 300 then
        let sets := fa.responseHeaders.filterMap fun h =>
          let v := header.get (canonicalHeaderKey h)
          if v = "" then none else some (h, v)
        (.forwardAuth none (canonicalLines sets), some { r with header := setAll r.header sets })
      else (.forwardAuth (some (.response status header)) [], none)
  | answer => (.forwardAuth (some answer) [], none)

def ssoCookie (env : Env) (r : Request) (name : String) : Option Sso.Value :=
  (match r.taken with
    | some taken => taken.lookup name
    | none => env.readCookie r.header name).map env.parseValue

/-- `encodeListItem`, of which the encoded characters are of one byte. -/
def encodeListItem (v : String) : String :=
  String.ofList (v.toList.flatMap fun c =>
    if c = ',' ∨ c = '%' ∨ c.toNat < 0x20 ∨ c.toNat = 0x7f then
      ['%', (Nat.digitChar (c.toNat / 16)).toUpper, (Nat.digitChar (c.toNat % 16)).toUpper]
    else [c])

def headerList (values : List String) : String := String.intercalate "," (values.map encodeListItem)

def visitOf (env : Env) (r : Request) : Sso.Visit where
  method := r.method
  host := r.host
  path := r.path
  uri := r.uri
  encrypted := connectionEncrypted env.folds r
  preflight := Access.isCORSPreflight r.toRequest
  session := ssoCookie env r Sso.oidcSessionName
  login := ssoCookie env r Sso.oidcStateName
  stateParam := r.query "state"
  errorParam := r.query "error"
  now := env.now

def identityOf (env : Env) (g : Sso.Gate) (r : Request) : List (String × String) :=
  match Access.isCORSPreflight r.toRequest, g.session env.sso env.secret (visitOf env r) with
  | false, some s =>
      if g.auth.passIdentity then
        [("Remote-User", s.email), ("Remote-Email", s.email),
          ("Remote-Groups", headerList s.groups)]
      else []
  | _, _ => []

def ssoGate (env : Env) (g : Sso.Gate) (r : Request) : Decision × Option Request :=
  match g.wrap env.sso env.siblings env.secret (visitOf env r) env.drawn env.reachable
    env.answer with
  | .next =>
      let sets := identityOf env g r
      (.sso none (canonicalLines sets), some { r with header := setAll r.header sets })
  | outcome => (.sso (some outcome) [], none)

def accessGate (env : Env) (c : Access.CompiledAccess) (r : Request) : Decision × Option Request :=
  match Access.wrap env.access c r.toRequest with
  | .next r' _ => (.access none, some { r with toRequest := r' })
  | outcome => (.access (some outcome), none)

def Gate.decide (env : Env) : Gate → Request → Decision × Option Request
  | .access c => accessGate env c
  | .forward fa => forwardAuth env fa
  | .sso g => ssoGate env g
  | .closed => fun _ => (.closed, none)

/-- What comes of a request: the decisions of the gates it met, and the request as the inner handler
gets it. -/
structure Chain where
  decisions : List Decision
  reached : Option Request

def runGates (env : Env) : List Gate → Request → Chain
  | [], r => ⟨[], some r⟩
  | g :: gates, r =>
      match g.decide env r with
      | (d, none) => ⟨[d], none⟩
      | (d, some r') =>
          let rest := runGates env gates r'
          ⟨d :: rest.decisions, rest.reached⟩

/-- `hostGate`, outermost first. -/
def hostGates (o : Options) (acl : Option Access.CompiledAccess) (sso : Option Sso.Gate) :
    List Gate :=
  acl.toList.map .access ++ (forwardOf o).toList.map .forward ++ sso.toList.map .sso

/-- The gate of a path rule in `buildPathAuth`. -/
def ruleGates (env : Env) (o : Options) (sso : Option Sso.Gate) (rule : AuthRule) : List Gate :=
  if rule.mode = "public" then []
  else if rule.mode = "forwardAuth" then [((forwardOf o).map .forward).getD .closed]
  else if rule.mode = "oidc" then
    [(((rule.oidc.map env.newGate).orElse fun _ => sso).map .sso).getD .closed]
  else if rule.mode = "accessList" then
    [((rule.accessListID.bind env.acls).map .access).getD .closed]
  else [.closed]

/-- The gate behind the login's own paths: the host's, else that of the first rule with one. -/
def reservedGate (env : Env) (o : Options) (sso : Option Sso.Gate) : Option Sso.Gate :=
  sso.orElse fun _ => (o.authRules.findSome? fun r =>
    if r.mode = "oidc" then r.oidc else none).map env.newGate

/-- The gates in front of a path, `none` where it is refused. -/
def gatesOf (env : Env) (o : Options) (acl : Option Access.CompiledAccess) (sso : Option Sso.Gate)
    (r : Request) : Option (List Gate) :=
  if o.authRules = [] then some (hostGates o acl sso)
  else if hasAmbiguousSegment r.path then none
  else match reservedGate env o sso,
    decide (r.path = oidcCallbackPath ∨ r.path = oidcLogoutPath) with
    | some g, true => some [.sso g]
    | _, _ =>
        match (sortGates o.authRules).find? (AuthRule.matchesRequest r.method r.path) with
        | some rule => some (ruleGates env o sso rule)
        | none => some (hostGates o acl sso)

def wrapCommon (env : Env) (o : Options) (acl : Option Access.CompiledAccess)
    (sso : Option Sso.Gate) (r : Request) : Chain :=
  if hasDotSegment r.path = true ∨ env.filters r = false then ⟨[], none⟩
  else
    let r := stripHeaders env.table o r
    match gatesOf env o acl sso r with
    | none => ⟨[], none⟩
    | some gates => runGates env gates r

/-! ### Forgeries

The first half compares two requests before and after stripping, the second follows the lines
through the gates one by one. -/

/-- The options have a gate that hands an identity on. -/
def HasIdentityGate (o : Options) : Prop :=
  o.oidc.isSome = true ∨ (forwardOf o).isSome = true ∨
    ∃ r ∈ o.authRules, r.mode = "oidc" ∨ r.mode = "forwardAuth"

/-- The requests differ at most in lines with a trusted name. -/
def SameBut (table : CaseTable) (o : Options) (r r' : Request) : Prop :=
  (∃ header, r' = { r with header := header }) ∧
    (r.header.filter fun line => !trusts table o line.1) =
      r'.header.filter fun line => !trusts table o line.1

theorem HasIdentityGate.trusted {o : Options} (h : HasIdentityGate o) :
    trustedIdentityHeaders o ≠ [] := by
  have hidentity : (o.oidc.isSome || (forwardOf o).isSome ||
      o.authRules.any fun r => r.mode == "oidc" || r.mode == "forwardAuth") = true := by
    rw [Bool.or_eq_true, Bool.or_eq_true, List.any_eq_true]
    rcases h with h | h | ⟨r, hr, hmode⟩
    · exact Or.inl (Or.inl h)
    · exact Or.inl (Or.inr h)
    · exact Or.inr ⟨r, hr, by simpa using hmode⟩
  unfold trustedIdentityHeaders
  simp only [hidentity, if_true]
  exact List.cons_ne_nil _ _

theorem stripHeaders_eq {table : CaseTable} {o : Options} (ho : trustedIdentityHeaders o ≠ [])
    {r r' : Request} (h : SameBut table o r r') :
    stripHeaders table o r = stripHeaders table o r' := by
  obtain ⟨⟨header, rfl⟩, hfilter⟩ := h
  unfold stripHeaders
  rw [if_neg ho, if_neg ho]
  simp only at hfilter ⊢
  rw [hfilter]

/-- The lines with a trusted name were set by gates that admitted the request. -/
def Attributed (table : CaseTable) (o : Options) (decisions : List Decision) (h : Header) : Prop :=
  ∀ line ∈ h, trusts table o line.1 = true → ∃ d ∈ decisions, d.admits = true ∧ line ∈ d.sets

/-! ### The lines of a request on its way

Stripping leaves no line with a trusted name, an access list only takes lines away, and every
other gate adds lines when it admits the request. -/

theorem mem_takeCookies {h : Header} {names : List String} {line : String × String}
    (hline : line ∈ (takeCookies h names).2) : ∃ line' ∈ h, line'.1 = line.1 := by
  unfold takeCookies at hline
  simp only at hline
  split_ifs at hline
  · exact ⟨line, hline, rfl⟩
  · obtain ⟨line', hline', heq⟩ := List.mem_filterMap.mp hline
    refine ⟨line', hline', ?_⟩
    split_ifs at heq with hcookie hkeep
    · rw [← Option.some.inj heq]
    · rw [Option.some.inj heq]

theorem attributed_stripHeaders {table : CaseTable} {o : Options}
    (ho : trustedIdentityHeaders o ≠ []) (r : Request) :
    Attributed table o [] (stripHeaders table o r).header := by
  intro line hline htrusted
  unfold stripHeaders at hline
  rw [if_neg ho] at hline
  obtain ⟨line', hline', hname⟩ := mem_takeCookies hline
  have hkept := (List.mem_filter.mp hline').2
  rw [hname, htrusted] at hkept
  cases hkept

theorem mem_setAll {sets : List (String × String)} {h : Header} {line : String × String}
    (hline : line ∈ setAll h sets) : line ∈ h ∨ line ∈ canonicalLines sets := by
  induction sets generalizing h with
  | nil => exact Or.inl hline
  | cons x sets ih =>
    rcases ih hline with hold | hset
    · rcases List.mem_append.mp hold with hold | hnew
      · exact Or.inl (List.mem_of_mem_filter hold)
      · rw [List.mem_singleton.mp hnew]
        exact Or.inr List.mem_cons_self
    · exact Or.inr (List.mem_cons_of_mem _ hset)

theorem mem_foldl_del {names : List String} {h : Header} {line : String × String}
    (hline : line ∈ names.foldl del h) : line ∈ h := by
  induction names generalizing h with
  | nil => exact hline
  | cons name names ih => exact List.mem_of_mem_filter (ih hline)

theorem mem_header_of_handOn {c : Access.CompiledAccess} {r r' : Access.Request}
    {authOK identified : Bool} (h : Access.handOn c r authOK = .next r' identified)
    {line : String × String} (hline : line ∈ r'.header) : line ∈ r.header := by
  unfold Access.handOn at h
  split_ifs at h
  · cases h
    exact hline
  · cases h
    exact List.mem_of_mem_filter hline
  · cases h
    exact hline

theorem refuse_ne_next {env : Access.Env} {c : Access.CompiledAccess} {r r' : Access.Request}
    {ipOK authOK identified : Bool} : Access.refuse env c r ipOK authOK ≠ .next r' identified := by
  unfold Access.refuse
  simp only
  split_ifs
  all_goals exact nofun

/-- An access list only takes lines away. -/
theorem mem_header_of_wrap {env : Access.Env} {c : Access.CompiledAccess} {r r' : Access.Request}
    {identified : Bool} (h : Access.wrap env c r = .next r' identified) {line : String × String}
    (hline : line ∈ r'.header) : line ∈ r.header := by
  unfold Access.wrap at h
  by_cases hpreflight : Access.isCORSPreflight r = true
  · rw [if_pos hpreflight] at h
    split_ifs at h
    cases h
    exact hline
  · rw [if_neg hpreflight] at h
    simp only at h
    generalize (if Access.credentialsSuffice c = true then _ else _) = allowed at h
    cases allowed with
    | false => exact absurd h refuse_ne_next
    | true => exact mem_header_of_handOn h hline

theorem accessGate_spec {env : Env} {c : Access.CompiledAccess} {r r' : Request} {d : Decision}
    (h : accessGate env c r = (d, some r')) :
    d.admits = true ∧ ∀ line ∈ r'.header, line ∈ r.header ∨ line ∈ d.sets := by
  unfold accessGate at h
  cases hwrap : Access.wrap env.access c r.toRequest with
  | next r'' identified =>
    rw [hwrap] at h
    cases h
    exact ⟨rfl, fun line hline => Or.inl (mem_header_of_wrap hwrap hline)⟩
  | refused status authenticate blocked ban =>
    rw [hwrap] at h
    cases h

theorem forwardAuth_spec {env : Env} {fa : ForwardAuth} {r r' : Request} {d : Decision}
    (h : forwardAuth env fa r = (d, some r')) :
    d.admits = true ∧ ∀ line ∈ r'.header, line ∈ r.header ∨ line ∈ d.sets := by
  unfold forwardAuth at h
  simp only at h
  split at h
  · split at h
    · cases h
      refine ⟨rfl, ?_⟩
      intro line hline
      exact (mem_setAll hline).imp_left mem_foldl_del
    · cases h
  · cases h

theorem ssoGate_spec {env : Env} {g : Sso.Gate} {r r' : Request} {d : Decision}
    (h : ssoGate env g r = (d, some r')) :
    d.admits = true ∧ ∀ line ∈ r'.header, line ∈ r.header ∨ line ∈ d.sets := by
  unfold ssoGate at h
  split at h
  · cases h
    exact ⟨rfl, fun line hline => mem_setAll hline⟩
  · cases h

/-- A gate that hands a request on admitted it, and answers for the lines it adds. -/
theorem Gate.decide_spec {env : Env} {g : Gate} {r r' : Request} {d : Decision}
    (h : g.decide env r = (d, some r')) :
    d.admits = true ∧ ∀ line ∈ r'.header, line ∈ r.header ∨ line ∈ d.sets := by
  cases g with
  | closed => cases h
  | access c => exact accessGate_spec h
  | forward fa => exact forwardAuth_spec h
  | sso g => exact ssoGate_spec h

theorem runGates_attributed {env : Env} {o : Options} {gates : List Gate} {r inner : Request}
    {before : List Decision} (hr : Attributed env.table o before r.header)
    (hreached : (runGates env gates r).reached = some inner) :
    Attributed env.table o (before ++ (runGates env gates r).decisions) inner.header := by
  induction gates generalizing r before with
  | nil =>
    obtain rfl := Option.some.inj hreached
    rw [runGates, List.append_nil]
    exact hr
  | cons g gates ih =>
    rw [runGates] at hreached ⊢
    cases hdecide : g.decide env r with
    | mk d next =>
      rw [hdecide] at hreached
      cases next with
      | none => cases hreached
      | some r' =>
        obtain ⟨hadmits, hlines⟩ := Gate.decide_spec hdecide
        have hr' : Attributed env.table o (before ++ [d]) r'.header := by
          intro line hline htrusted
          rcases hlines line hline with hold | hset
          · obtain ⟨d', hd', hrest⟩ := hr line hold htrusted
            exact ⟨d', List.mem_append_left _ hd', hrest⟩
          · exact ⟨d, List.mem_append_right _ (List.mem_singleton_self d), hadmits, hset⟩
        have hrest := ih hr' hreached
        rw [List.append_assoc] at hrest
        exact hrest

/-- **Identity headers cannot be forged.** Lines with a trusted name, in whichever spelling, change
neither what the gates get nor what the inner handler gets; and the identity that it gets
was set by a gate that admitted the request. The controls against abuse run before, on
the request as it came. -/
theorem identity_cannot_be_forged (env : Env) {o : Options} (ho : HasIdentityGate o)
    (acl : Option Access.CompiledAccess) (sso : Option Sso.Gate) {r r' : Request}
    (hsame : SameBut env.table o r r') :
    stripHeaders env.table o r = stripHeaders env.table o r' ∧
      (env.filters r = env.filters r' →
        wrapCommon env o acl sso r = wrapCommon env o acl sso r') ∧
      ∀ inner, (wrapCommon env o acl sso r).reached = some inner →
        Attributed env.table o (wrapCommon env o acl sso r).decisions inner.header := by
  refine ⟨stripHeaders_eq ho.trusted hsame, ?_, ?_⟩
  · intro hfilters
    have hpath : r'.path = r.path := by
      obtain ⟨⟨header, rfl⟩, -⟩ := hsame
      rfl
    unfold wrapCommon
    rw [hpath, hfilters, stripHeaders_eq ho.trusted hsame]
  · intro inner hinner
    unfold wrapCommon at hinner ⊢
    by_cases hrefused : hasDotSegment r.path = true ∨ env.filters r = false
    · rw [if_pos hrefused] at hinner
      cases hinner
    · rw [if_neg hrefused] at hinner ⊢
      simp only at hinner ⊢
      cases hgates : gatesOf env o acl sso (stripHeaders env.table o r) with
      | none =>
        rw [hgates] at hinner
        cases hinner
      | some gates =>
        rw [hgates] at hinner
        exact runGates_attributed (attributed_stripHeaders ho.trusted r) hinner

/-- Forward auth in front of a host, of which the server calls everybody `ann`. -/
def annOptions : Options :=
  { Options.zero with forwardAuth := some ⟨"http://auth.example", ["Remote-User"], false⟩ }

def annEnv : Env where
  table := ⟨Char.toUpper, Char.toLower⟩
  folds := fun _ _ => false
  access := ⟨⟨Char.toUpper, Char.toLower⟩, fun _ _ => false⟩
  sso := ⟨⟨Char.toUpper, Char.toLower⟩, fun _ => ""⟩
  acls := fun _ => none
  newGate := fun auth => ⟨⟨0, "", 0⟩, auth, false, Or.inr rfl⟩
  siblings := []
  authServer := fun _ _ => .response 200 [("Remote-User", "ann")]
  secret := none
  now := 0
  drawn := ⟨"", "", ""⟩
  reachable := false
  answer := .unreachable
  parseValue := fun _ => ⟨[], none⟩
  readCookie := fun _ _ => none
  filters := fun _ => true

def annRequest (header : Header) : Request where
  method := "GET"
  remoteAddr := "203.0.113.9:4711"
  host := "app.example"
  header := header
  peer := none
  path := utf8 "/"
  uri := "/"
  query := fun _ => ""
  tls := true
  viaTrustedProxy := false
  taken := none

/-- The lines of an honest request, and the same with an identity in two spellings. -/
def honestLines : Header := [("Accept", "*/*")]
def forgedLines : Header := honestLines ++ [("Remote_user", "root"), ("Remote-Groups", "admins")]

theorem identity_cannot_be_forged_ann :
    wrapCommon annEnv annOptions none none (annRequest forgedLines) =
      wrapCommon annEnv annOptions none none (annRequest honestLines) := by
  have hlines : (forgedLines.filter fun line => !trusts annEnv.table annOptions line.1) =
      honestLines.filter fun line => !trusts annEnv.table annOptions line.1 := by
    decide +kernel
  have hsame : SameBut annEnv.table annOptions (annRequest forgedLines) (annRequest honestLines) :=
    ⟨⟨honestLines, rfl⟩, hlines⟩
  have hgate : HasIdentityGate annOptions := Or.inr (Or.inl (by decide +kernel))
  exact (identity_cannot_be_forged annEnv hgate none none hsame).2.1 rfl

end Quicgate.Identity
