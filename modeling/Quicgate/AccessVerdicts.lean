import Quicgate.Access

/-!
# What access lists decide

Three relations between the verdicts of access lists.

* A failure only narrows access (`degraded_admits_healthy`): a list whose
  hostnames do not resolve, or whose GeoIP database is missing, admits nothing
  that the same list admits not with DNS and the database at work.
* A raw connection is admitted only where every HTTP request is
  (`l4Allowed_admits_http`).
* The two listeners read two vocabularies (`verdict_eq_of_same_vocabulary`):
  outside the tunnel the VPN rules say nothing, inside it the address rules.

Each is a comparison of first-match lists, rule by rule.
-/

namespace Quicgate.Access

open Quicgate.GoStrings Quicgate.GoNet Quicgate.WgPolicy Quicgate.FirstMatch

/-! ### The rule loop

A rule that answers gives its own verdict, and which answers it can give at all depends on the
side of the listener: inside the tunnel only VPN rules answer, outside it only the others. -/

section RuleAnswer

variable {c c' : CompiledAccess} {ip ip' : IP} {method : String} {l4 : Bool}
  {peer : Option Peer} {r : CompiledRule} {b : Bool}

theorem closedAnswer_eq_some (h : r.closedAnswer = some b) : b = r.allow := by
  unfold CompiledRule.closedAnswer at h
  split_ifs at h with hallow
  simp_all

theorem addressAnswer_eq_some {geo : Option (IP → String)}
    (h : addressAnswer geo ip r = some b) : b = r.allow := by
  unfold addressAnswer at h
  split_ifs at h
  · exact closedAnswer_eq_some h
  · cases geo with
    | none => exact closedAnswer_eq_some h
    | some country =>
        simp only at h
        split_ifs at h
        simpa using h.symm
  · simpa using h.symm

/-- A rule that answers gives its own verdict. -/
theorem ruleAnswer_eq_some (h : ruleAnswer c ip method l4 peer r = some b) :
    b = r.allow := by
  cases hskip : r.skips method l4 with
  | true => simp [ruleAnswer, hskip] at h
  | false =>
      cases hvpn : r.vpn with
      | some subject =>
          simp only [ruleAnswer, hskip, hvpn, vpnAnswer] at h
          split at h
          · simp at h
          · split at h
            · split_ifs at h
              simpa using h.symm
            · simp at h
      | none =>
          cases hpeer : peer.isSome with
          | true => simp [ruleAnswer, hskip, hvpn, hpeer] at h
          | false =>
              have haddress : addressAnswer c.geo ip r = some b := by
                simpa [ruleAnswer, hskip, hvpn, hpeer] using h
              exact addressAnswer_eq_some haddress

theorem ruleAnswer_ne_false (h : r.allow = true) :
    ruleAnswer c ip method l4 peer r ≠ some false := by
  intro hanswer
  simpa [h] using ruleAnswer_eq_some hanswer

/-- The rule loop looks at the list only for its VPN matcher and its GeoIP
database. -/
theorem ruleAnswer_congr (hgeo : c.geo = c'.geo) (hmatch : c.vpnMatch = c'.vpnMatch) :
    ruleAnswer c ip method l4 peer r = ruleAnswer c' ip method l4 peer r := by
  simp only [ruleAnswer, hgeo, hmatch]

/-- Inside the tunnel only VPN rules answer. -/
theorem ruleAnswer_tunnel_address {p : Peer} (hvpn : r.vpn = none) :
    ruleAnswer c ip method l4 (some p) r = none := by
  simp [ruleAnswer, hvpn]

/-- Inside the tunnel neither the address nor the database counts. -/
theorem ruleAnswer_tunnel {p : Peer} (hmatch : c.vpnMatch = c'.vpnMatch) :
    ruleAnswer c ip method l4 (some p) r = ruleAnswer c' ip' method l4 (some p) r := by
  simp [ruleAnswer, hmatch]

/-- Outside the tunnel the VPN matcher does not count. -/
theorem ruleAnswer_outside (hgeo : c.geo = c'.geo) :
    ruleAnswer c ip method l4 none r = ruleAnswer c' ip method l4 none r := by
  simp [ruleAnswer, vpnAnswer, hgeo]

/-- Outside the tunnel VPN rules are silent. -/
theorem ruleAnswer_outside_vpn (hvpn : r.vpn.isSome = true) :
    ruleAnswer c ip method l4 none r = none := by
  obtain ⟨subject, hsubject⟩ := Option.isSome_iff_exists.mp hvpn
  simp [ruleAnswer, vpnAnswer, hsubject]

end RuleAnswer

/-! ### The gate

`wrap` is monotone in its network half, and reads the credentials of a list only through its
users and its `satisfy`.  The three results need no more of it. -/

@[simp] theorem admits_refuse (env : Env) (c : CompiledAccess) (r : Request)
    (ipOK auth : Bool) : (refuse env c r ipOK auth).admits = false := by
  simp only [refuse]
  split <;> rfl

@[simp] theorem admits_handOn (c : CompiledAccess) (r : Request) (auth : Bool) :
    (handOn c r auth).admits = true := by
  unfold handOn
  split <;> rfl

theorem wrap_admits (env : Env) (c : CompiledAccess) (r : Request) :
    (wrap env c r).admits =
      if isCORSPreflight r then
        allowedFor c r (announced env r) || (credentialsSuffice c && !c.denyAll)
      else if credentialsSuffice c then allowedFor c r r.method || authOK env c r
      else allowedFor c r r.method && authOK env c r := by
  have hite : ∀ (b : Bool) (x y : Outcome),
      (if b = true then x else y).admits = if b = true then x.admits else y.admits := by
    intro b x y
    cases b <;> rfl
  simp only [wrap, hite, admits_refuse, admits_handOn]
  split
  · cases allowedFor c r (announced env r) || (credentialsSuffice c && !c.denyAll) <;> rfl
  · split <;> cases allowedFor c r r.method <;> cases authOK env c r <;> rfl

/-- Two compiled lists whose credential half is the same. -/
structure SameCredentials (c c' : CompiledAccess) : Prop where
  satisfy : c.satisfy = c'.satisfy
  restricted : c.restricted = c'.restricted
  users : c.users = c'.users
  denyAll : c.denyAll = c'.denyAll

namespace SameCredentials

variable {c c' : CompiledAccess} (h : SameCredentials c c')

include h

theorem hasUsers_eq : hasUsers c = hasUsers c' := by
  rw [hasUsers, hasUsers, h.users]

theorem credentialsSuffice_eq : credentialsSuffice c = credentialsSuffice c' := by
  rw [credentialsSuffice, credentialsSuffice, h.satisfy, h.restricted, h.hasUsers_eq]

theorem authOK_eq (env : Env) {r r' : Request}
    (hauth : r.header.get "Authorization" = r'.header.get "Authorization") :
    authOK env c r = authOK env c' r' := by
  rw [authOK, authOK, h.hasUsers_eq, h.users, hauth]

/-- The gate admits more when the network half does. -/
theorem wrap_admits_mono (env : Env) (r : Request)
    (hnet : ∀ method, allowedFor c r method = true → allowedFor c' r method = true)
    (hadmits : (wrap env c r).admits = true) : (wrap env c' r).admits = true := by
  rw [wrap_admits] at hadmits ⊢
  rw [← h.credentialsSuffice_eq, ← h.denyAll, ← h.authOK_eq env rfl]
  split_ifs at hadmits ⊢
  · rcases Bool.or_eq_true_iff.mp hadmits with hip | hcred
    · simp [hnet _ hip]
    · simp [hcred]
  · rcases Bool.or_eq_true_iff.mp hadmits with hip | hauth
    · simp [hnet _ hip]
    · simp [hauth]
  · obtain ⟨hip, hauth⟩ := Bool.and_eq_true_iff.mp hadmits
    simp [hnet _ hip, hauth]

end SameCredentials

/-! ### A failure only narrows access

The degraded list is compared with the healthy one block by block: a rule that cannot be
evaluated compiles to a closed rule, which narrows whatever it stands in for. -/

section Degraded

variable {c c' : CompiledAccess} {ip : IP} {method : String} {l4 : Bool} {peer : Option Peer}

/-- A rule that cannot be evaluated narrows any rules it stands in for. -/
theorem narrower_of_closed {r : CompiledRule} {block : List CompiledRule}
    (hanswer : addressAnswer c.geo ip r = r.closedAnswer) (hvpn : r.vpn = none)
    (hblock : ∀ r' ∈ block, r'.allow = r.allow ∧ r'.methods = r.methods ∧ r'.vpn = none) :
    Narrower (ruleAnswer c ip method l4 peer r)
      (block.findSome? (ruleAnswer c' ip method l4 peer)) := by
  -- where the closed rule is passed over, so are the rules it stands in for
  have hpassed : r.skips method l4 = true ∨ peer.isSome = true →
      block.findSome? (ruleAnswer c' ip method l4 peer) = none := by
    intro hpass
    rw [List.findSome?_eq_none_iff]
    intro r' hr'
    obtain ⟨hallow, hmethods, hvpn'⟩ := hblock r' hr'
    have hskips : r'.skips method l4 = r.skips method l4 := by
      simp [CompiledRule.skips, hallow, hmethods]
    rcases hpass with hskip | hpeer
    · simp [ruleAnswer, hskips, hskip]
    · simp [ruleAnswer, hvpn', hpeer]
  by_cases hpass : r.skips method l4 = true ∨ peer.isSome = true
  · have hself : ruleAnswer c ip method l4 peer r = none := by
      rcases hpass with hskip | hpeer
      · simp [ruleAnswer, hskip]
      · simp [ruleAnswer, hvpn, hpeer]
    rw [hself, hpassed hpass]
  · have hself : ruleAnswer c ip method l4 peer r = r.closedAnswer := by
      simp only [not_or, Bool.not_eq_true] at hpass
      simp [ruleAnswer, hvpn, hpass.1, hpass.2, hanswer]
    rw [hself]
    cases hallow : r.allow with
    | false =>
        rw [CompiledRule.closedAnswer, hallow]
        exact Narrower.of_refusal _
    | true =>
        rw [CompiledRule.closedAnswer, hallow]
        refine Narrower.none_of_ne_false fun hfalse => ?_
        obtain ⟨r', hr', hanswer'⟩ := List.exists_of_findSome?_eq_some hfalse
        exact ruleAnswer_ne_false ((hblock r' hr').1.trans hallow) hanswer'

/-- One rule compiled with an answer of the resolver and without one. -/
theorem narrower_compileRule (table : CaseTable) (r : AccessRule) {ips ips' : List IP}
    (hips : ips = ips' ∨ ips = []) (hgeo : c.geo = c'.geo ∨ c.geo = none)
    (hmatch : c.vpnMatch = c'.vpnMatch) :
    Narrower ((compileRule table r ips).findSome? (ruleAnswer c ip method l4 peer))
      ((compileRule table r ips').findSome? (ruleAnswer c' ip method l4 peer)) := by
  unfold compileRule
  cases hvpn : r.vpn with
  | some subject =>
      have hsame : ∀ rule : CompiledRule, rule.vpn = some subject →
          ruleAnswer c ip method l4 peer rule = ruleAnswer c' ip method l4 peer rule := by
        intro rule hrule
        simp [ruleAnswer, hrule, hmatch]
      simp only [List.findSome?_singleton, hsame]
      exact Narrower.refl _
  | none =>
      -- an address rule reads the database only for its country
      have hsame : ∀ rule : CompiledRule, rule.vpn = none → rule.country = "" →
          ruleAnswer c ip method l4 peer rule = ruleAnswer c' ip method l4 peer rule := by
        intro rule hrule hcountry
        simp [ruleAnswer, hrule, addressAnswer, hcountry]
      simp only
      split_ifs with hcidr hhost hempty hempty' hempty' hcountry
      · split
        · simp only [List.findSome?_singleton, hsame]
          exact Narrower.refl _
        · simp only [List.findSome?_singleton, hsame]
          exact Narrower.refl _
      · simp only [List.findSome?_singleton, hsame]
        exact Narrower.refl _
      · rw [List.findSome?_singleton]
        refine narrower_of_closed (by simp [addressAnswer]) rfl ?_
        intro r' hr'
        obtain ⟨ip', -, rfl⟩ := List.mem_map.mp hr'
        exact ⟨rfl, rfl, rfl⟩
      · exact absurd (hips.resolve_right hempty) (fun heq => hempty (heq.trans hempty'))
      · rw [hips.resolve_right hempty]
        apply narrower_findSome?_of_forall
        intro r' hr'
        obtain ⟨ip', -, rfl⟩ := List.mem_map.mp hr'
        rw [hsame _ rfl rfl]
      · rw [List.findSome?_singleton]
        rcases hgeo with hgeo | hgeo
        · rw [List.findSome?_singleton, ruleAnswer_congr hgeo hmatch]
        · refine narrower_of_closed (by simp [addressAnswer, hcountry, hgeo]) rfl ?_
          simp
      · exact Narrower.refl _

/-- The compiled rules of a degraded list narrow those of the healthy one. -/
theorem narrower_compileRules (table : CaseTable) {rules : List AccessRule}
    {dns dns' : DnsCache}
    (hdns : List.Forall₂ (fun d h => d = h ∨ d = [])
      (answers table dns rules) (answers table dns' rules))
    (hgeo : c.geo = c'.geo ∨ c.geo = none) (hmatch : c.vpnMatch = c'.vpnMatch) :
    Narrower ((compileRules table dns rules).findSome? (ruleAnswer c ip method l4 peer))
      ((compileRules table dns' rules).findSome? (ruleAnswer c' ip method l4 peer)) := by
  apply narrower_findSome?_flatten
  generalize answers table dns rules = found at hdns
  generalize answers table dns' rules = found' at hdns
  induction hdns generalizing rules with
  | nil => simp
  | cons hhead _ ih =>
      cases rules with
      | nil => simp
      | cons r rest =>
          exact List.Forall₂.cons (narrower_compileRule table r hhead hgeo hmatch) ih

theorem evaluate_mono {remoteAddr method' : String} {l4' : Bool}
    (hdeny : c.denyAll = c'.denyAll) (hrestricted : c.restricted = c'.restricted)
    (hnarrower : ∀ ip, Narrower (c.rules.findSome? (ruleAnswer c ip method l4 peer))
      (c'.rules.findSome? (ruleAnswer c' ip method' l4' peer)))
    (h : evaluate c remoteAddr method l4 peer = true) :
    evaluate c' remoteAddr method' l4' peer = true := by
  unfold evaluate at h ⊢
  rw [← hdeny, ← hrestricted]
  split_ifs at h ⊢
  · rfl
  · split at h
    · simp at h
    · exact (hnarrower _).getD h

end Degraded

/-- **A failure only narrows access.** `degraded` is compiled from the list with some
of the hostname rules left unresolved, the others with the addresses they have in
`healthy`, or evaluated with the GeoIP database missing. -/
theorem degraded_admits_healthy (env : Env) (a : AccessList) (ban : Bool)
    (vpnMatch : VPNSubject → Peer → Bool) (geo geo' : Option (IP → String))
    (dns dns' : DnsCache)
    (hdns : List.Forall₂ (fun d h => d = h ∨ d = [])
      (answers env.table dns a.rules) (answers env.table dns' a.rules))
    (hgeo : geo = geo' ∨ geo = none) :
    let degraded := reloadAccess env.table a geo ban dns vpnMatch
    let healthy := reloadAccess env.table a geo' ban dns' vpnMatch
    (∀ r, (wrap env degraded r).admits = true → (wrap env healthy r).admits = true) ∧
      (∀ r method, allowedFor degraded r method = true → allowedFor healthy r method = true) ∧
      ∀ remoteAddr, l4Allowed degraded remoteAddr = true → l4Allowed healthy remoteAddr = true := by
  intro degraded healthy
  have hsame : SameCredentials degraded healthy := ⟨rfl, rfl, rfl, rfl⟩
  have hevaluate : ∀ remoteAddr method l4 peer,
      evaluate degraded remoteAddr method l4 peer = true →
      evaluate healthy remoteAddr method l4 peer = true := by
    intro remoteAddr method l4 peer
    exact evaluate_mono rfl rfl fun ip => narrower_compileRules env.table hdns hgeo rfl
  refine ⟨fun r => hsame.wrap_admits_mono env r fun method => hevaluate _ _ _ _,
    fun r method => hevaluate _ _ _ _, ?_⟩
  intro remoteAddr hl4
  unfold l4Allowed at hl4 ⊢
  rw [← hsame.hasUsers_eq, ← hsame.satisfy, ← hsame.restricted]
  split_ifs at hl4 ⊢
  exact hevaluate _ _ _ _ hl4

/-- An environment for ASCII texts in which no password fits. -/
def asciiEnv : Env where
  table := ⟨id, id⟩
  compareHash _ _ := false

def knows (names : List (String × List IP)) : DnsCache where
  lookup _ host := names.lookup host
  now _ := 0
  calls := 0
  entries := ∅
  remembers := false

def homeList : AccessList where
  name := "home"
  satisfy := "any"
  passAuth := false
  rules := [
    ⟨"allow", "10.0.0.0/8", "", "", [], none⟩,
    ⟨"deny", "", "", "XX", ["POST"], none⟩,
    ⟨"allow", "", "home.example", "", [], none⟩,
    ⟨"allow", "", "", "", [], some ⟨"device", "", 0, "", ""⟩⟩]
  users := [⟨"ann", "$2a$10$"⟩]

def getFrom (remoteAddr : String) (peer : Option Peer) : Request where
  method := "GET"
  remoteAddr := remoteAddr
  host := "app.example"
  header := []
  peer := peer

theorem degraded_admits_healthy_home :
    (wrap asciiEnv (reloadAccess asciiEnv.table homeList none false (knows []) fun _ _ => false)
      (getFrom "10.1.2.3:4000" none)).admits = true ∧
    (wrap asciiEnv (reloadAccess asciiEnv.table homeList (some fun _ => "NL") false
      (knows [("home.example", [mapped 0xcb007105#32])]) fun _ _ => false)
      (getFrom "10.1.2.3:4000" none)).admits = true :=
  have hdegraded : (wrap asciiEnv (reloadAccess asciiEnv.table homeList none false (knows [])
      fun _ _ => false) (getFrom "10.1.2.3:4000" none)).admits = true := by decide
  ⟨hdegraded, (degraded_admits_healthy asciiEnv homeList false (fun _ _ => false) none
    (some fun _ => "NL") (knows []) (knows [("home.example", [mapped 0xcb007105#32])])
    (by decide) (Or.inr rfl)).1 _ hdegraded⟩

/-! ### Raw connections

A connection has no method, so a rule that is scoped to methods answers it only when it closes. -/

/-- What a rule answers a raw connection narrows what it answers a request. -/
theorem narrower_l4 (c : CompiledAccess) (ip : IP) (method : String) (r : CompiledRule) :
    Narrower (ruleAnswer c ip "" true none r) (ruleAnswer c ip method false none r) := by
  cases hvpn : r.vpn with
  | some subject => simp [ruleAnswer, hvpn, vpnAnswer, Narrower]
  | none =>
      cases hmethods : r.methods with
      | none => simp [ruleAnswer, CompiledRule.skips, hmethods, Narrower.refl]
      | some ms =>
          cases hallow : r.allow with
          | true =>
              -- a scoped allow is silent at this layer
              have hl4 : ruleAnswer c ip "" true none r = none := by
                simp [ruleAnswer, CompiledRule.skips, hmethods, hallow]
              rw [hl4]
              exact Narrower.none_of_ne_false (ruleAnswer_ne_false hallow)
          | false =>
              have hl4 : ruleAnswer c ip "" true none r = addressAnswer c.geo ip r := by
                simp [ruleAnswer, CompiledRule.skips, hmethods, hallow, hvpn]
              rw [hl4]
              cases hanswer : addressAnswer c.geo ip r with
              | none => simp [ruleAnswer, hvpn, hanswer, Narrower]
              | some b =>
                  rw [addressAnswer_eq_some hanswer, hallow]
                  exact Narrower.of_refusal _

/-- **A raw connection is admitted only where HTTP is.** An address that the list
admits without a method and without credentials is admitted with every request:
whatever its method, with or without credentials, preflights included. -/
theorem l4Allowed_admits_http (env : Env) (c : CompiledAccess) (remoteAddr : String)
    (hl4 : l4Allowed c remoteAddr = true) (r : Request) (haddr : r.remoteAddr = remoteAddr)
    (houtside : r.peer = none) : (wrap env c r).admits = true := by
  unfold l4Allowed at hl4
  split_ifs at hl4 with hneeds
  have hnet : ∀ method, allowedFor c r method = true := by
    intro method
    rw [allowedFor, haddr, houtside]
    exact evaluate_mono rfl rfl
      (fun ip => narrower_findSome?_of_forall fun rule _ => narrower_l4 c ip method rule) hl4
  -- a list that asks for credentials lets the address stand in for them
  have hcredentials : credentialsSuffice c = true ∨ authOK env c r = true := by
    cases husers : hasUsers c with
    | false => right; simp [authOK, husers]
    | true => left; simpa [credentialsSuffice, husers] using hneeds
  rw [wrap_admits]
  split_ifs with hpreflight hsuffice
  · simp [hnet]
  · simp [hnet]
  · simp [hnet, hcredentials.resolve_left hsuffice]

theorem l4Allowed_admits_http_home :
    (wrap asciiEnv (compileAccess asciiEnv.table homeList none false (knows []))
      { getFrom "10.1.2.3:4000" none with method := "DELETE" }).admits = true :=
  l4Allowed_admits_http asciiEnv _ "10.1.2.3:4000" (by decide) _ rfl rfl

/-! ### Two vocabularies

Both halves are one congruence: a reader that passes over one kind of rule reads the list
without them, and asks the resolver no question of theirs. -/

def AccessRule.isAddress (r : AccessRule) : Bool :=
  r.vpn.isNone && r.isNetwork

theorem compileRules_cons (table : CaseTable) (dns : DnsCache) (r : AccessRule)
    (rest : List AccessRule) :
    compileRules table dns (r :: rest) =
      compileRule table r (dns.ask table r).1 ++ compileRules table (dns.ask table r).2 rest :=
  rfl

theorem compileRule_vpn_none {table : CaseTable} {r : AccessRule} {ips : List IP}
    (hvpn : r.vpn = none) : ∀ rule ∈ compileRule table r ips, rule.vpn = none := by
  intro rule hrule
  simp only [compileRule, hvpn] at hrule
  split_ifs at hrule
  · split at hrule <;> simp_all
  · simp_all
  · obtain ⟨ip, -, rfl⟩ := List.mem_map.mp hrule
    rfl
  · simp_all
  · simp at hrule

@[simp] theorem reloadAccess_rules (table : CaseTable) (a : AccessList)
    (geo : Option (IP → String)) (ban : Bool) (dns : DnsCache)
    (vpnMatch : VPNSubject → Peer → Bool) :
    (reloadAccess table a geo ban dns vpnMatch).rules = compileRules table dns a.rules :=
  rfl

section Vocabulary

variable (table : CaseTable) {f : CompiledRule → Option Bool}

/-- A reader that passes over the VPN rules reads the address rules only, and has
their hostnames resolved by the same questions. -/
theorem findSome?_compileRules_outside (hsilent : ∀ rule, rule.vpn.isSome = true → f rule = none)
    (dns : DnsCache) (rules : List AccessRule) :
    (compileRules table dns rules).findSome? f =
      (compileRules table dns (rules.filter (·.isAddress))).findSome? f := by
  induction rules generalizing dns with
  | nil => rfl
  | cons r rest ih =>
      cases haddress : r.isAddress with
      | true =>
          simp only [List.filter_cons, haddress, if_true, compileRules_cons,
            List.findSome?_append, ih]
      | false =>
          have hhost : r.isHost = false := by
            simp only [AccessRule.isAddress, AccessRule.isNetwork] at haddress
            cases hvpn : r.vpn with
            | some subject => simp [AccessRule.isHost, hvpn]
            | none => simp_all [AccessRule.isHost]
          have hask : dns.ask table r = ([], dns) := by simp [DnsCache.ask, hhost]
          have hrule : (compileRule table r []).findSome? f = none := by
            simp only [AccessRule.isAddress, AccessRule.isNetwork] at haddress
            cases hvpn : r.vpn with
            | some subject => simp [compileRule, hvpn, hsilent]
            | none => simp_all [compileRule]
          simp only [List.filter_cons, haddress, Bool.false_eq_true, if_false,
            compileRules_cons, List.findSome?_append, hask, hrule, Option.none_or, ih]

/-- A reader that passes over the address rules reads the VPN rules only, and none of
the resolver's answers. -/
theorem findSome?_compileRules_tunnel (hsilent : ∀ rule, rule.vpn = none → f rule = none)
    (dns : DnsCache) (rules : List AccessRule) :
    (compileRules table dns rules).findSome? f =
      (rules.filter (·.vpn.isSome)).findSome? fun r => (compileRule table r []).findSome? f := by
  induction rules generalizing dns with
  | nil => rfl
  | cons r rest ih =>
      rw [compileRules_cons, List.findSome?_append, ih]
      cases hvpn : r.vpn with
      | some subject =>
          have hrule : compileRule table r (dns.ask table r).1 = compileRule table r [] := by
            simp only [compileRule, hvpn]
          simp only [List.filter_cons, hvpn, Option.isSome_some, if_true,
            List.findSome?_cons, hrule]
          cases (compileRule table r []).findSome? f <;> rfl
      | none =>
          have hrule : (compileRule table r (dns.ask table r).1).findSome? f = none := by
            rw [List.findSome?_eq_none_iff]
            exact fun rule hmem => hsilent rule (compileRule_vpn_none hvpn rule hmem)
          simp [hvpn, hrule]

end Vocabulary

theorem evaluate_congr {c c' : CompiledAccess} {addr addr' method : String} {l4 : Bool}
    {peer : Option Peer} (hdeny : c.denyAll = c'.denyAll)
    (hrestricted : c.restricted = c'.restricted)
    (haddr : (clientIP addr).isSome = (clientIP addr').isSome)
    (hrules : ∀ ip ip', clientIP addr = some ip → clientIP addr' = some ip' →
      c.rules.findSome? (ruleAnswer c ip method l4 peer) =
        c'.rules.findSome? (ruleAnswer c' ip' method l4 peer)) :
    evaluate c addr method l4 peer = evaluate c' addr' method l4 peer := by
  unfold evaluate
  rw [← hdeny, ← hrestricted]
  cases hip : clientIP addr with
  | none =>
      have hip' : clientIP addr' = none := by simpa [hip] using haddr.symm
      rw [hip']
  | some ip =>
      obtain ⟨ip', hip'⟩ := Option.isSome_iff_exists.mp (haddr.symm.trans (by simp [hip]))
      simp only [hip', firstMatch, hrules ip ip' hip hip']

/-- Equal network halves and equal credentials give equal verdicts. -/
theorem SameCredentials.wrap_admits_eq {c c' : CompiledAccess} (h : SameCredentials c c')
    (env : Env) {r r' : Request} (hmethod : r.method = r'.method) (hheader : r.header = r'.header)
    (hnet : ∀ method, allowedFor c r method = allowedFor c' r' method) :
    (wrap env c r).admits = (wrap env c' r').admits := by
  have hpreflight : isCORSPreflight r = isCORSPreflight r' := by
    simp only [isCORSPreflight, hmethod, hheader]
  have hannounced : announced env r = announced env r' := by
    simp only [announced, hheader]
  rw [wrap_admits, wrap_admits, hpreflight, hannounced, h.credentialsSuffice_eq, h.denyAll,
    h.authOK_eq env (congrArg (Header.get · "Authorization") hheader), hmethod]
  simp only [hnet]

/-- **Two listeners, two vocabularies.** Lists with a network rule that agree on their
address rules, users and `satisfy` give the same verdict to every request from outside
the tunnel; lists that agree on their VPN rules, users and `satisfy` give the same
verdict to every request from the tunnel, from whatever address the peer has there and
whatever DNS and GeoIP answer. -/
theorem verdict_eq_of_same_vocabulary (env : Env) (a b : AccessList) (ban ban' : Bool)
    (ha : a.rules.any (·.isNetwork) = true) (hb : b.rules.any (·.isNetwork) = true)
    (husers : a.users = b.users) (hsatisfy : a.satisfy = b.satisfy) :
    (a.rules.filter (·.isAddress) = b.rules.filter (·.isAddress) →
      ∀ geo dns vpnMatch vpnMatch' (r : Request), r.peer = none →
        (wrap env (reloadAccess env.table a geo ban dns vpnMatch) r).admits =
          (wrap env (reloadAccess env.table b geo ban' dns vpnMatch') r).admits) ∧
      (a.rules.filter (·.vpn.isSome) = b.rules.filter (·.vpn.isSome) →
        ∀ geo geo' dns dns' vpnMatch (r : Request) (p : Peer) (addr' : String),
          r.peer = some p → (clientIP r.remoteAddr).isSome = (clientIP addr').isSome →
          (wrap env (reloadAccess env.table a geo ban dns vpnMatch) r).admits =
            (wrap env (reloadAccess env.table b geo' ban' dns' vpnMatch)
              { r with remoteAddr := addr' }).admits) := by
  have hsame : ∀ geo geo' dns dns' vpnMatch vpnMatch', SameCredentials
      (reloadAccess env.table a geo ban dns vpnMatch)
      (reloadAccess env.table b geo' ban' dns' vpnMatch') := by
    intro geo geo' dns dns' vpnMatch vpnMatch'
    constructor <;> simp [reloadAccess, compileAccess, hsatisfy, husers, ha, hb]
  constructor
  · intro hrules geo dns vpnMatch vpnMatch' r houtside
    refine (hsame geo geo dns dns vpnMatch vpnMatch').wrap_admits_eq env rfl rfl fun method => ?_
    rw [allowedFor, allowedFor, houtside]
    refine evaluate_congr rfl (by simp [reloadAccess, compileAccess, ha, hb]) rfl ?_
    intro ip ip' hip hip'
    obtain rfl : ip = ip' := by simpa [hip] using hip'
    have hrule : ruleAnswer (reloadAccess env.table a geo ban dns vpnMatch) ip method false none =
        ruleAnswer (reloadAccess env.table b geo ban' dns vpnMatch') ip method false none :=
      funext fun rule => ruleAnswer_outside rfl
    simp only [reloadAccess_rules, hrule]
    rw [findSome?_compileRules_outside _ fun rule => ruleAnswer_outside_vpn, hrules,
      ← findSome?_compileRules_outside _ fun rule => ruleAnswer_outside_vpn]
  · intro hrules geo geo' dns dns' vpnMatch r p addr' hpeer haddr
    refine (hsame geo geo' dns dns' vpnMatch vpnMatch).wrap_admits_eq env rfl rfl fun method => ?_
    rw [allowedFor, allowedFor, hpeer]
    refine evaluate_congr rfl (by simp [reloadAccess, compileAccess, ha, hb]) haddr ?_
    intro ip ip' _ _
    have hrule : ruleAnswer (reloadAccess env.table a geo ban dns vpnMatch) ip method false
        (some p) = ruleAnswer (reloadAccess env.table b geo' ban' dns' vpnMatch) ip' method false
        (some p) :=
      funext fun rule => ruleAnswer_tunnel rfl
    simp only [reloadAccess_rules, hrule]
    rw [findSome?_compileRules_tunnel _ fun rule => ruleAnswer_tunnel_address, hrules,
      ← findSome?_compileRules_tunnel _ fun rule => ruleAnswer_tunnel_address]

def laptopList : AccessList where
  name := "laptop"
  satisfy := "any"
  passAuth := true
  rules := [
    ⟨"allow", "", "", "", [], some ⟨"device", "", 0, "", ""⟩⟩,
    ⟨"deny", "0.0.0.0/0", "", "", [], none⟩]
  users := [⟨"ann", "$2a$10$"⟩]

theorem verdict_eq_of_same_vocabulary_laptop :
    (wrap asciiEnv (reloadAccess asciiEnv.table homeList none false (knows []) fun _ _ => true)
      (getFrom "203.0.113.5:4000" none)).admits =
    (wrap asciiEnv (reloadAccess asciiEnv.table
        { homeList with rules := homeList.rules.filter (·.isAddress) } none false (knows [])
        fun _ _ => false) (getFrom "203.0.113.5:4000" none)).admits ∧
    (wrap asciiEnv (reloadAccess asciiEnv.table homeList none false (knows [])
        (vpnSubjectMatches none))
      (getFrom "10.90.0.7:4000" (some ⟨"device:7", false, 7, "laptop", "", []⟩))).admits =
    (wrap asciiEnv (reloadAccess asciiEnv.table laptopList (some fun _ => "XX") false (knows [])
        (vpnSubjectMatches none))
      (getFrom "10.90.0.8:4001" (some ⟨"device:7", false, 7, "laptop", "", []⟩))).admits :=
  ⟨(verdict_eq_of_same_vocabulary asciiEnv homeList
      { homeList with rules := homeList.rules.filter (·.isAddress) } false false (by decide)
      (by decide) rfl rfl).1 (by decide) none (knows []) _ _ (getFrom "203.0.113.5:4000" none) rfl,
    (verdict_eq_of_same_vocabulary asciiEnv homeList laptopList false false (by decide)
      (by decide) rfl rfl).2 (by decide) none (some fun _ => "XX") (knows []) (knows []) _
      (getFrom "10.90.0.7:4000" (some ⟨"device:7", false, 7, "laptop", "", []⟩)) _
      "10.90.0.8:4001" rfl (by decide)⟩

end Quicgate.Access
