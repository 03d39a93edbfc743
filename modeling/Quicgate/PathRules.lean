import Quicgate.PathSafe

/-!
# The handlers of path-scoped authentication

`buildPathAuth` and `pathAuth.ServeHTTP` (`internal/engine/pathauth.go`): every auth rule
gets its own middleware around the same inner handler, the gates are sorted once, and a
request goes to the first that matches it.

`mostSpecific_decides` is the order the file promises: the longest matching path, exact
before prefix, in whatever order the rules were entered, and a rule whose gate cannot be
built closes its path.  `buildPathAuth_of_refused` and `buildPathAuth_of_free` connect these
handlers with the decisions by which `PathAuth` compares hosts.
-/

namespace Quicgate.PathRules

open Quicgate.GoNet Quicgate.Store Quicgate.RankedRules

/-! ### Handlers and gates

A handler gives an answer to a request, a middleware a handler around another one.  A closed
path refuses whatever comes. -/

/-- What a handler sees of a request, next to the method and the decoded path. -/
structure Request (ρ : Type) where
  method : String
  path : Path -- r.URL.Path
  rest : ρ

/-- The `blockReason`s that path rules mark an answer with. -/
inductive BlockReason where
  | accessList
  | exploit
  | sso
  | forwardAuth
deriving DecidableEq, Repr

/-- What becomes of a request: `markBlocked` with `http.Error`, or what some other handler
does with it. -/
inductive Answer (ω : Type) where
  | error (reason : BlockReason) (text : String) (code : Nat)
  | served (effect : ω)
deriving DecidableEq, Repr

abbrev Handler (ρ ω : Type) := Request ρ → Answer ω

abbrev Middleware (ρ ω : Type) := Handler ρ ω → Handler ρ ω

def closedPath {ρ ω : Type} (reason : BlockReason) : Handler ρ ω :=
  fun _ => .error reason "forbidden" 403

structure PathGate (ρ ω : Type) where
  path : Path
  exact : Bool
  methods : List String -- the keys of the map, none for every method
  handler : Handler ρ ω

def PathGate.matchesRequest {ρ ω : Type} (g : PathGate ρ ω) (r : Request ρ) : Bool :=
  if !g.methods.isEmpty && !g.methods.contains r.method then false
  else if g.exact then r.path == g.path
  else pathWithin r.path g.path

structure PathAuth (ρ ω : Type) where
  gates : List (PathGate ρ ω)
  fallback : Handler ρ ω
  reserved : Option (Handler ρ ω)

/-- The gate at which the loop of `pathAuth.ServeHTTP` stops. -/
def PathAuth.gateFor {ρ ω : Type} (p : PathAuth ρ ω) (r : Request ρ) :
    Option (PathGate ρ ω) :=
  p.gates.find? fun g => g.matchesRequest r

/-- The path is one of the two that the login answers itself. -/
def isReservedPath (p : Path) : Bool := p == oidcCallbackPath || p == oidcLogoutPath

def PathAuth.serveHTTP {ρ ω : Type} (p : PathAuth ρ ω) : Handler ρ ω := fun r =>
  match (if isReservedPath r.path then p.reserved else none) with
  | some login => login r
  | none =>
      match p.gateFor r with
      | some g => g.handler r
      | none => p.fallback r

/-! ### Building the dispatcher

`Surroundings` is what the function is given besides the rules.  For each rule it looks for
the gate that the mode names; `gateBefore` is the order in which the gates are sorted. -/

/-- What `buildPathAuth` is given next to the rules. An access list and an SSO gate are
known by their `wrap`. -/
structure Surroundings (ρ ω : Type) where
  o : Options
  acls : Int → Option (Middleware ρ ω)
  sso : Option (Middleware ρ ω)
  ssoFor : OIDCAuth → Option (Middleware ρ ω)
  forwardAuth : ForwardAuth → Middleware ρ ω

section Build

variable {ρ ω : Type} (s : Surroundings ρ ω) (inner fallback : Handler ρ ω)

def Surroundings.ruleGate (r : AuthRule) : Option (Middleware ρ ω) :=
  match r.oidc with
  | some auth => s.ssoFor auth
  | none => s.sso

def Surroundings.ruleAcl (r : AuthRule) : Option (Middleware ρ ω) :=
  match r.accessListID with
  | some id => s.acls id
  | none => none

/-- The switch of `buildPathAuth` over a rule's mode. -/
def Surroundings.ruleHandler (r : AuthRule) : Handler ρ ω :=
  if r.mode = "public" then inner
  else if r.mode = "forwardAuth" then
    match s.o.forwardAuth with
    | none => closedPath .forwardAuth
    | some fa => if fa.url = "" then closedPath .forwardAuth else s.forwardAuth fa inner
  else if r.mode = "oidc" then
    match s.ruleGate r with
    | none => closedPath .sso
    | some wrap => wrap inner
  else if r.mode = "accessList" then
    match s.ruleAcl r with
    | none => closedPath .accessList
    | some wrap => wrap inner
  else closedPath .accessList

def Surroundings.gate (r : AuthRule) : PathGate ρ ω :=
  { path := utf8 r.path, exact := r.exact, methods := r.methods, handler := s.ruleHandler inner r }

def gateBefore (a b : PathGate ρ ω) : Bool :=
  if a.path.length ≠ b.path.length then b.path.length < a.path.length
  else a.exact && !b.exact

/-- The SSO gate that answers the login's own paths: the host's, or the first that a rule
names. -/
def Surroundings.loginGate (rules : List AuthRule) : Option (Middleware ρ ω) :=
  match s.sso with
  | some wrap => some wrap
  | none =>
      match rules.find? fun r => r.mode == "oidc" && r.oidc.isSome with
      | some r => r.oidc.bind s.ssoFor
      | none => none

def Surroundings.pathAuth (rules : List AuthRule) : PathAuth ρ ω :=
  { gates := (rules.map (s.gate inner)).insertionSort fun a b => gateBefore b a = false
    fallback
    reserved := (s.loginGate rules).map fun wrap => wrap inner }

/-- `buildPathAuth`: the dispatcher behind the filter of ambiguous paths. -/
def Surroundings.buildPathAuth (rules : List AuthRule) : Handler ρ ω := fun r =>
  let next := fun _ : Path => some ((s.pathAuth inner fallback rules).serveHTTP r)
  match rejectAmbiguousPaths next r.path with
  | some answer => answer
  | none => .error .exploit "bad request" 400

end Build

/-! ### Gates that cannot be built

A gate that does not exist any more does not leave its path open. -/

section Closed

variable {ρ ω : Type} {s : Surroundings ρ ω}

/-- The gate a rule names does not exist: forward authentication or single sign-on that
nothing configures, a deleted access list, an unknown mode. -/
inductive Surroundings.LacksGate (s : Surroundings ρ ω) (r : AuthRule) : Prop
  | forwardAuth (mode : r.mode = "forwardAuth") (absent : s.o.hasForwardAuth = false)
  | hostSSO (mode : r.mode = "oidc") (plain : r.oidc = none) (absent : s.sso = none)
  | ruleSSO (auth : OIDCAuth) (mode : r.mode = "oidc") (named : r.oidc = some auth)
      (absent : s.ssoFor auth = none)
  | accessList (mode : r.mode = "accessList")
      (absent : ∀ id, r.accessListID = some id → s.acls id = none)
  | unknown (mode : r.mode ∉ ["public", "forwardAuth", "oidc", "accessList"])

/-- A rule without a gate is closed, whatever stands behind it. -/
theorem ruleHandler_of_lacksGate {r : AuthRule} (h : s.LacksGate r) :
    ∃ reason, ∀ inner, s.ruleHandler inner r = closedPath reason := by
  cases h with
  | forwardAuth mode absent =>
      refine ⟨.forwardAuth, fun inner => ?_⟩
      cases hfa : s.o.forwardAuth with
      | none => simp [Surroundings.ruleHandler, mode, hfa]
      | some fa =>
          have hurl : fa.url = "" := by simpa [Options.hasForwardAuth, hfa] using absent
          simp [Surroundings.ruleHandler, mode, hfa, hurl]
  | hostSSO mode plain absent =>
      refine ⟨.sso, fun inner => ?_⟩
      simp [Surroundings.ruleHandler, mode, Surroundings.ruleGate, plain, absent]
  | ruleSSO auth mode named absent =>
      refine ⟨.sso, fun inner => ?_⟩
      simp [Surroundings.ruleHandler, mode, Surroundings.ruleGate, named, absent]
  | accessList mode absent =>
      refine ⟨.accessList, fun inner => ?_⟩
      have hacl : s.ruleAcl r = none := by
        unfold Surroundings.ruleAcl
        cases hid : r.accessListID with
        | none => rfl
        | some id => exact absent id hid
      simp [Surroundings.ruleHandler, mode, hacl]
  | unknown mode =>
      refine ⟨.accessList, fun inner => ?_⟩
      simp only [List.mem_cons, List.not_mem_nil, or_false, not_or] at mode
      simp [Surroundings.ruleHandler, mode]

end Closed

/-! ### Which gate is run

The loop stops at the gate of the rule that `RankedRules.best` picks. -/

section Dispatch

variable {ρ ω : Type} {s : Surroundings ρ ω} {inner fallback : Handler ρ ω}
  {rules : List AuthRule} {req : Request ρ}

theorem matchesRequest_gate (r : AuthRule) :
    (s.gate inner r).matchesRequest req = r.matchesRequest req.method req.path := by
  unfold PathGate.matchesRequest AuthRule.matchesRequest AuthRule.matchesPath Surroundings.gate
  cases hall : r.methods.isEmpty <;> cases hone : r.methods.contains req.method <;> simp_all

theorem gateBefore_gate (a b : AuthRule) :
    gateBefore (s.gate inner a) (s.gate inner b) = sortsBefore a b := rfl

/-- The gates of the sorted rules are the sorted gates. -/
theorem gates_pathAuth :
    (s.pathAuth inner fallback rules).gates = (sortGates rules).map (s.gate inner) := by
  symm
  apply List.map_insertionSort
  intro a _ b _
  rw [gateBefore_gate]

/-- The gate that is run is the gate of the best rule. -/
theorem gateFor_pathAuth : (s.pathAuth inner fallback rules).gateFor req =
    (pick rules req.method req.path).map (s.gate inner) := by
  unfold PathAuth.gateFor
  rw [gates_pathAuth, List.find?_map, ← find?_sortGates]
  congr 2
  funext r
  exact matchesRequest_gate r

theorem serveHTTP_eq (p : PathAuth ρ ω) (hpath : isReservedPath req.path = false) :
    p.serveHTTP req = match p.gateFor req with
      | some g => g.handler req
      | none => p.fallback req := by
  unfold PathAuth.serveHTTP
  rw [if_neg (by simp [hpath])]

/-- `r` is the most specific of the rules that match the request. -/
structure MostSpecific (rules : List AuthRule) (req : Request ρ) (r : AuthRule) : Prop where
  mem : r ∈ rules
  matched : r.matchesRequest req.method req.path = true
  longest : ∀ a ∈ rules, a.matchesRequest req.method req.path = true →
    (utf8 a.path).length < (utf8 r.path).length ∨
      ((utf8 a.path).length = (utf8 r.path).length ∧ (a.exact = true → r.exact = true))

theorem rank_le_iff {a r : AuthRule} : a.rank ≤ r.rank ↔
    (utf8 a.path).length < (utf8 r.path).length ∨
      ((utf8 a.path).length = (utf8 r.path).length ∧ (a.exact = true → r.exact = true)) := by
  unfold AuthRule.rank
  cases a.exact <;> cases r.exact <;> simp <;> omega

theorem mostSpecific_of_pick {r : AuthRule} (h : pick rules req.method req.path = some r) :
    MostSpecific rules req r := by
  have hdecides := best_eq_some.mp h
  constructor
  · exact hdecides.mem
  · exact hdecides.applies
  · intro a ha happlies
    exact rank_le_iff.mp (hdecides.rank_le ha happlies)

theorem unmatched_of_pick (h : pick rules req.method req.path = none) :
    ∀ r ∈ rules, r.matchesRequest req.method req.path = false := best_eq_none.mp h

/-! ### The order of entry

Rules of one rank that match one path are spelled alike, so they differ by their methods only. -/

theorem utf8_injective {a b : String} (h : utf8 a = utf8 b) : a = b := by
  unfold utf8 String.toUTF8 at h
  apply String.toByteArray_inj.mp
  apply ByteArray.ext
  exact Array.toList_inj.mp h

/-- Two rules share the path, the exactness and a method. -/
def Overlap (a b : AuthRule) : Prop :=
  a.path = b.path ∧ a.exact = b.exact ∧
    ∃ method : String, (a.methods.isEmpty || a.methods.contains method) = true ∧
      (b.methods.isEmpty || b.methods.contains method) = true

theorem Overlap.symm {a b : AuthRule} (h : Overlap a b) : Overlap b a := by
  obtain ⟨hpath, hexact, method, ha, hb⟩ := h
  exact ⟨hpath.symm, hexact.symm, method, hb, ha⟩

/-- Of one length, two rules that match one path are spelled alike. -/
theorem path_eq_of_matchesPath {a b : AuthRule} {p : Path} (ha : a.matchesPath p = true)
    (hb : b.matchesPath p = true)
    (hlen : (utf8 a.path).length = (utf8 b.path).length) : a.path = b.path := by
  apply utf8_injective
  have hbegins : ∀ {r : AuthRule}, r.matchesPath p = true → utf8 r.path <+: p := by
    intro r hr
    unfold AuthRule.matchesPath at hr
    split_ifs at hr with hplain
    · rw [beq_iff_eq.mp hr]
    · simp only [pathWithin, Bool.and_eq_true, List.isPrefixOf_iff_prefix] at hr
      exact hr.1
  exact List.IsPrefix.eq_of_length
    (List.prefix_of_prefix_length_le (hbegins ha) (hbegins hb) hlen.le) hlen

/-- The most specific rule is one rule if no two overlap. -/
theorem MostSpecific.unique {a b : AuthRule} (hdistinct : rules.Pairwise fun a b => ¬ Overlap a b)
    (ha : MostSpecific rules req a) (hb : MostSpecific rules req b) : a = b := by
  have hle := rank_le_iff.mpr (ha.longest b hb.mem hb.matched)
  have hge := rank_le_iff.mpr (hb.longest a ha.mem ha.matched)
  obtain ⟨hmethodA, hpathA⟩ := AuthRule.matchesRequest_iff.mp ha.matched
  obtain ⟨hmethodB, hpathB⟩ := AuthRule.matchesRequest_iff.mp hb.matched
  have hexact : a.exact = b.exact := by
    unfold AuthRule.rank at hle hge
    cases hea : a.exact <;> cases heb : b.exact <;> simp [hea, heb] at hle hge ⊢ <;> omega
  have hlen : (utf8 a.path).length = (utf8 b.path).length := by
    unfold AuthRule.rank at hle hge
    rw [hexact] at hle hge
    omega
  have hoverlap : Overlap a b :=
    ⟨path_eq_of_matchesPath hpathA hpathB hlen, hexact, req.method, hmethodA, hmethodB⟩
  by_contra hne
  have hsymm : Std.Symm fun a b : AuthRule => ¬ Overlap a b := ⟨fun _ _ h h' => h h'.symm⟩
  exact hdistinct.forall ha.mem hb.mem hne hoverlap

theorem MostSpecific.perm {rules' : List AuthRule} {r : AuthRule} (hperm : rules'.Perm rules)
    (h : MostSpecific rules' req r) : MostSpecific rules req r := by
  constructor
  · exact hperm.mem_iff.mp h.mem
  · exact h.matched
  · intro a ha
    exact h.longest a (hperm.mem_iff.mpr ha)

/-- The order of entry decides nothing between rules that do not overlap. -/
theorem pick_perm {rules' : List AuthRule} (hperm : rules'.Perm rules)
    (hdistinct : rules.Pairwise fun a b => ¬ Overlap a b) :
    pick rules' req.method req.path = pick rules req.method req.path := by
  cases hpick : pick rules req.method req.path with
  | none =>
      apply best_eq_none.mpr
      intro r hr
      exact unmatched_of_pick hpick r (hperm.mem_iff.mp hr)
  | some r =>
      cases hpick' : pick rules' req.method req.path with
      | none =>
          have hr := best_eq_some.mp hpick
          have hsilent := unmatched_of_pick hpick' r (hperm.mem_iff.mpr hr.mem)
          simp [hr.applies] at hsilent
      | some r' =>
          have hr' := (mostSpecific_of_pick hpick').perm hperm
          rw [hr'.unique hdistinct (mostSpecific_of_pick hpick)]

/-! ### The dispatch of a host

The handlers of this module and the decisions of `PathAuth` are one dispatch. -/

theorem loginGate_of_not_reserves {h : Host} (hsso : s.sso.isSome = true → h.ssoGate = true)
    (hres : h.reserves = false) : s.loginGate h.options.authRules = none := by
  simp only [Host.reserves, Bool.or_eq_false_iff] at hres
  have hnone : s.sso = none := by
    cases hsome : s.sso with
    | none => rfl
    | some wrap => simp [hres.1] at hsso; simp [hsso] at hsome
  have hfind : (h.options.authRules.find? fun r => r.mode == "oidc" && r.oidc.isSome) = none := by
    rw [List.find?_eq_none]
    intro r hr hlogin
    exact absurd (List.any_eq_true.mpr ⟨r, hr, hlogin⟩) (by rw [hres.2]; simp)
  simp only [Surroundings.loginGate, hnone, hfind]

/-- What the comparison of hosts calls refused is refused. -/
theorem buildPathAuth_of_refused {h : Host} (href : h.dispatch req.method req.path = .refused) :
    s.buildPathAuth inner fallback h.options.authRules req = .error .exploit "bad request" 400 := by
  have hamb : hasAmbiguousSegment req.path = true := by
    by_contra hclear
    unfold Host.dispatch at href
    split_ifs at href with hrules hres
    · exact h.ownGate_ne_refused href
    · rw [find?_sortGates] at href
      exact h.decision_ne_refused href
  simp [Surroundings.buildPathAuth, rejectAmbiguousPaths, hamb]

/-- What the comparison of hosts calls free reaches the inner handler as it is. -/
theorem buildPathAuth_of_free {h : Host} (hrules : h.options.authRules ≠ [])
    (hsso : s.sso.isSome = true → h.ssoGate = true)
    (hfallback : h.hostGated = false → fallback = inner)
    (hfree : h.dispatch req.method req.path = .free) :
    s.buildPathAuth inner fallback h.options.authRules req = inner req := by
  unfold Host.dispatch at hfree
  rw [if_neg hrules] at hfree
  split_ifs at hfree with hamb hres
  rw [find?_sortGates] at hfree
  -- the login answers neither this path nor, where it has no gate, any other
  have hlogin : (if isReservedPath req.path then
      (s.pathAuth inner fallback h.options.authRules).reserved else none) = none := by
    split_ifs with hpath
    · have hnot : h.reserves = false := by
        rw [Bool.eq_false_iff]
        intro hreserves
        apply hres
        refine ⟨hreserves, ?_⟩
        simpa [isReservedPath] using hpath
      simp [Surroundings.pathAuth, loginGate_of_not_reserves hsso hnot]
    · rfl
  have hserve : s.buildPathAuth inner fallback h.options.authRules req =
      (s.pathAuth inner fallback h.options.authRules).serveHTTP req := by
    simp [Surroundings.buildPathAuth, rejectAmbiguousPaths, hamb]
  rw [hserve, PathAuth.serveHTTP, hlogin]
  simp only [gateFor_pathAuth]
  cases hpick : pick h.options.authRules req.method req.path with
  | some r =>
      have hpublic : r.mode = "public" := by simpa [hpick, AuthRule.handling] using hfree
      simp [Surroundings.gate, Surroundings.ruleHandler, hpublic]
  | none =>
      have hopen : h.hostGated = false := by simpa [hpick, Host.ownGate] using hfree
      simp [Surroundings.pathAuth, hfallback hopen]

/-! ### Subtrees

A prefix stands for whole segments: `/admin` does not cover `/administrator`. -/

/-- A prefix rule covers its path and what lies below it, segment by segment. -/
theorem matchesPath_prefix {r : AuthRule} {p : Path} (hplain : r.exact = false)
    (hlast : (utf8 r.path).getLast? ≠ some slash) : r.matchesPath p = true ↔
      p = utf8 r.path ∨ ∃ rest, p = utf8 r.path ++ slash :: rest := by
  simp only [AuthRule.matchesPath, hplain, Bool.false_eq_true, if_false]
  constructor
  · intro hwithin
    rcases eq_or_slashed_of_pathWithin hwithin with heq | ⟨rest, heq⟩
    · exact Or.inl heq
    · right
      refine ⟨rest, ?_⟩
      rw [heq, slashed, if_neg hlast, List.append_assoc]
      rfl
  · rintro (rfl | ⟨rest, rfl⟩)
    · simp [pathWithin]
    · simp [pathWithin]

/-- **The most specific path rule decides.** Off the paths of the login, a request is
answered by the gate of the matching rule whose path is longest, exact before prefix, and by
the host's own handler where no rule matches; by the same gate in whatever order rules that
do not overlap were entered; by a refusal, whatever is behind it, where that rule's gate
cannot be built; and a prefix rule matches its path and the paths below it. -/
theorem mostSpecific_decides (s : Surroundings ρ ω) (rules : List AuthRule) :
    (∀ inner fallback (req : Request ρ), isReservedPath req.path = false →
      let pa := s.pathAuth inner fallback rules
      (∃ r, MostSpecific rules req r ∧ pa.gateFor req = some (s.gate inner r) ∧
        pa.serveHTTP req = s.ruleHandler inner r req) ∨
      ((∀ r ∈ rules, r.matchesRequest req.method req.path = false) ∧
        pa.gateFor req = none ∧ pa.serveHTTP req = fallback req)) ∧
    ((rules.Pairwise fun a b => ¬ Overlap a b) → ∀ rules' : List AuthRule, rules'.Perm rules →
      ∀ inner fallback (req : Request ρ), isReservedPath req.path = false →
        (s.pathAuth inner fallback rules').gateFor req =
            (s.pathAuth inner fallback rules).gateFor req ∧
          (s.pathAuth inner fallback rules').serveHTTP req =
            (s.pathAuth inner fallback rules).serveHTTP req) ∧
    (∀ r, s.LacksGate r → ∃ reason, ∀ inner fallback (req : Request ρ),
      isReservedPath req.path = false →
      (s.pathAuth inner fallback rules).gateFor req = some (s.gate inner r) →
        (s.pathAuth inner fallback rules).serveHTTP req = .error reason "forbidden" 403) ∧
    (∀ r inner (req : Request ρ), r.exact = false → (utf8 r.path).getLast? ≠ some slash →
      ((s.gate inner r).matchesRequest req = true ↔
        (r.methods = [] ∨ req.method ∈ r.methods) ∧
          (req.path = utf8 r.path ∨ ∃ rest, req.path = utf8 r.path ++ slash :: rest))) := by
  refine ⟨?_, ?_, ?_, ?_⟩
  · intro inner fallback req hpath pa
    have hgate : pa.gateFor req = _ := gateFor_pathAuth
    have hserve := serveHTTP_eq pa hpath
    cases hpick : pick rules req.method req.path with
    | none =>
        rw [hpick] at hgate
        rw [hgate] at hserve
        exact Or.inr ⟨unmatched_of_pick hpick, hgate, hserve⟩
    | some r =>
        rw [hpick] at hgate
        rw [hgate] at hserve
        exact Or.inl ⟨r, mostSpecific_of_pick hpick, hgate, hserve⟩
  · intro hdistinct rules' hperm inner fallback req hpath
    have hgate : (s.pathAuth inner fallback rules').gateFor req =
        (s.pathAuth inner fallback rules).gateFor req := by
      rw [gateFor_pathAuth, gateFor_pathAuth, pick_perm hperm hdistinct]
    refine ⟨hgate, ?_⟩
    rw [serveHTTP_eq _ hpath, serveHTTP_eq _ hpath, hgate]
    rfl
  · intro r hlacks
    obtain ⟨reason, hclosed⟩ := ruleHandler_of_lacksGate hlacks
    refine ⟨reason, ?_⟩
    intro inner fallback req hpath hgate
    rw [serveHTTP_eq _ hpath, hgate]
    exact congrFun (hclosed inner) req
  · intro r inner req hplain hlast
    rw [matchesRequest_gate, AuthRule.matchesRequest_iff, matchesPath_prefix hplain hlast]
    simp

end Dispatch

def bareSurroundings : Surroundings Unit String :=
  ⟨Options.zero, fun _ => none, none, fun _ => none, fun _ inner => inner⟩

/-- A public part below a path behind a login that cannot be built. -/
theorem mostSpecific_decides_site :
    let login : AuthRule := ⟨"/app", false, "oidc", none, none, []⟩
    let site : AuthRule := ⟨"/app/site", false, "public", none, none, []⟩
    let inner : Handler Unit String := fun _ => .served "inner"
    let fallback : Handler Unit String := fun _ => .served "host"
    let at_ := fun path => (⟨"GET", utf8 path, ()⟩ : Request Unit)
    let serve := (bareSurroundings.pathAuth inner fallback [login, site]).serveHTTP
    (∃ r, MostSpecific [login, site] (at_ "/app/site/x") r ∧
        serve (at_ "/app/site/x") = bareSurroundings.ruleHandler inner r (at_ "/app/site/x")) ∧
      serve (at_ "/other") = .served "host" ∧
      (bareSurroundings.pathAuth inner fallback [site, login]).serveHTTP (at_ "/app/site/x") =
        serve (at_ "/app/site/x") ∧
      (∃ reason, serve (at_ "/app/x") = .error reason "forbidden" 403) ∧
      (bareSurroundings.gate inner site).matchesRequest (at_ "/app/site/x") = true := by
  intro login site inner fallback at_ serve
  obtain ⟨hdecides, hperm, hlacks, hbelow⟩ :=
    mostSpecific_decides bareSurroundings [login, site]
  have hgate : (bareSurroundings.pathAuth inner fallback [login, site]).gateFor (at_ "/app/x") =
      some (bareSurroundings.gate inner login) := by
    rw [gateFor_pathAuth, show pick [login, site] (at_ "/app/x").method (at_ "/app/x").path =
      some login by decide +kernel]
    rfl
  refine ⟨?_, ?_, ?_, ?_, ?_⟩
  · rcases hdecides inner fallback (at_ "/app/site/x") (by decide +kernel) with
      ⟨r, hr, -, hserve⟩ | ⟨hnone, -⟩
    · exact ⟨r, hr, hserve⟩
    · exact absurd (hnone site (by simp)) (by decide +kernel)
  · rcases hdecides inner fallback (at_ "/other") (by decide +kernel) with
      ⟨r, hr, -, hserve⟩ | ⟨-, -, hserve⟩
    · have hunmatched : ∀ a ∈ [login, site],
          a.matchesRequest (at_ "/other").method (at_ "/other").path = false := by decide +kernel
      exact absurd hr.matched (by simp [hunmatched r hr.mem])
    · exact hserve
  · exact (hperm (by simp [Overlap, login, site]) [site, login] (.swap _ _ _) inner fallback
      (at_ "/app/site/x")
      (by decide +kernel)).2
  · obtain ⟨reason, hclosed⟩ := hlacks login (.hostSSO rfl rfl rfl)
    exact ⟨reason, hclosed inner fallback (at_ "/app/x") (by decide +kernel) hgate⟩
  · exact (hbelow site inner (at_ "/app/site/x") rfl (by decide +kernel)).mpr
      ⟨Or.inl rfl, Or.inr ⟨utf8 "x", by decide +kernel⟩⟩

end Quicgate.PathRules
