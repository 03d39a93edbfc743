import Quicgate.Routing
import Quicgate.StoreConfig
import Quicgate.TransitionSystem

/-!
# Client certificates

The three places of `internal/engine/engine.go` that a host's client-certificate
option goes through: the handshake, which asks for a certificate by the server name
and the table of that moment (`GetConfigForClient`); the routing of a request by its
Host header and the table of the moment it arrives; and the check of the request
(`clientCertOK`), against the table it was routed by.

Connections stay open over reloads and carry requests for any host, so the three
choices are independent.  A step of the machine is a reload, a handshake, a request
that arrives, or the check of a request that has arrived, in any order.  A route is a
place in its table, as the source compares routes by address.  Parsing a bundle and
verifying a chain are parameters; verifying also depends on the time.

`served_iff_admitted` is exact for every run: a handler runs for just those requests that the
options of the table they were routed by admit.
-/

namespace Quicgate.ClientCerts

open Quicgate.GoMaps Quicgate.GoStrings Quicgate.GoNet Quicgate.Routing Quicgate.TransitionSystem

structure X509 (Cert Pool : Type) where
  /-- `AppendCertsFromPEM` on an empty pool. -/
  appendCertsFromPEM : String → Option Pool
  /-- `Verify` at a time, for client authentication: roots, intermediates, leaf. -/
  verify : Nat → Pool → List Cert → Cert → Bool

structure Host where
  vpnOnly : Bool
  forceSSL : Bool
  minTLSVersion : String -- "" | 1.2 | 1.3
  clientCert : Option Store.ClientCert
deriving DecidableEq

structure RoutingTable where
  routes : List Host
  exact : GoMap String (Fin routes.length)
  wildcard : GoMap String (Fin routes.length)

namespace RoutingTable

/-- The address of a route of the table. -/
abbrev Ref (t : RoutingTable) : Type := Fin t.routes.length

def host (t : RoutingTable) (rt : t.Ref) : Host := t.routes.get rt

def lookup (t : RoutingTable) (table : CaseTable) (hostport : String) : Option t.Ref :=
  let name := routeName table hostport
  match t.exact.lookup name with
  | some rt => some rt
  | none => (parentName name).bind t.wildcard.lookup

end RoutingTable

variable {Cert Pool : Type}

/-- `caPoolCache`: what was parsed before, with the bundles that did not parse. -/
abbrev Cache (Pool : Type) := GoMap String (Option Pool)

def clientCAPool (x : X509 Cert Pool) (cache : Cache Pool) (pem : String) :
    Option Pool × Cache Pool :=
  if pem = "" then (none, cache)
  else
    match cache.lookup pem with
    | some pool => (pool, cache)
    | none => (x.appendCertsFromPEM pem, cache.insert pem (x.appendCertsFromPEM pem))

/-! ### The handshake

A server that asks for no certificate is sent none; one that requires it ends the handshake
without. -/

inductive ClientAuth (Pool : Type) where
  | noClientCert
  | verifyClientCertIfGiven (pool : Pool)
  | requireAndVerifyClientCert (pool : Pool)

structure Config (Pool : Type) where
  minVersion13 : Bool
  clientAuth : ClientAuth Pool

/-- `GetConfigForClient`, with the base configuration for `nil`; none for the error that
ends the handshake. -/
def getConfigForClient (x : X509 Cert Pool) (table : CaseTable) (t : RoutingTable)
    (cache : Cache Pool) (tunnel : Bool) (serverName : String) :
    Option (Config Pool) × Cache Pool :=
  match t.lookup table serverName with
  | none => (some ⟨false, .noClientCert⟩, cache)
  | some rt =>
      let o := t.host rt
      if o.vpnOnly && !tunnel then (none, cache)
      else
        let tls13 := o.minTLSVersion == "1.3"
        match o.clientCert with
        | none => (some ⟨tls13, .noClientCert⟩, cache)
        | some policy =>
            match clientCAPool x cache policy.caPEM with
            | (none, cache) => (some ⟨tls13, .noClientCert⟩, cache)
            | (some pool, cache) =>
                let auth := if policy.mode = "request" then .verifyClientCertIfGiven pool
                  else .requireAndVerifyClientCert pool
                (some ⟨tls13, auth⟩, cache)

/-- The chain the server keeps of what a client offers; none when it ends the handshake. -/
def ClientAuth.accept (x : X509 Cert Pool) (now : Nat) (offered : List Cert) :
    ClientAuth Pool → Option (List Cert)
  | .noClientCert => some []
  | .verifyClientCertIfGiven pool =>
      match offered with
      | [] => some []
      | leaf :: rest => if x.verify now pool rest leaf then some offered else none
  | .requireAndVerifyClientCert pool =>
      match offered with
      | [] => none
      | leaf :: rest => if x.verify now pool rest leaf then some offered else none

/-- A TLS or QUIC connection: `r.TLS` of its requests. -/
structure Conn (Cert : Type) where
  tunnel : Bool
  serverName : String
  peerCertificates : List Cert

/-! ### A request

`clientCertOK` is the check of the handler behind TLS and QUIC; plain HTTP never serves a host
with an option. -/

structure Refusal where
  code : Nat
  text : String
deriving DecidableEq

def certRequired : Refusal := ⟨403, "client certificate required"⟩
def misdirected : Refusal :=
  ⟨421, "misdirected request: the TLS server name does not match this host"⟩
def policyUnavailable : Refusal := ⟨403, "client certificate policy unavailable"⟩
def notAccepted : Refusal := ⟨403, "client certificate not accepted"⟩

/-- `clientCertOK`: none when the request may go on. -/
def clientCertOK (x : X509 Cert Pool) (table : CaseTable) (now : Nat) (t : RoutingTable)
    (cache : Cache Pool) (tls : Option (Conn Cert)) (rt : t.Ref) : Option Refusal × Cache Pool :=
  let policy := (t.host rt).clientCert
  match tls with
  | none => (if policy.isNone then none else some certRequired, cache)
  | some conn =>
      let sni := t.lookup table conn.serverName
      if sni ≠ some rt ∧ (policy.isSome || sni.any fun r => (t.host r).clientCert.isSome) then
        (some misdirected, cache)
      else
        match policy with
        | none => (none, cache)
        | some policy =>
            match clientCAPool x cache policy.caPEM with
            | (none, cache) => (some policyUnavailable, cache)
            | (some pool, cache) =>
                match conn.peerCertificates with
                | [] => (if policy.mode = "request" then none else some certRequired, cache)
                | leaf :: rest =>
                    (if x.verify now pool rest leaf then none else some notAccepted, cache)

def joinHostPort (host port : List Char) : List Char :=
  if ':' ∈ host then '[' :: (host ++ ']' :: ':' :: port) else host ++ ':' :: port

/-- Where plain HTTP sends a request on to; the port is the HTTPS listener's, 0 for none. -/
def redirectTarget (httpsPort : Nat) (host uri : String) : String :=
  let host := match splitHostPort host.toList with
    | some (h, _) => h
    | none => host.toList
  let host :=
    if 0 < httpsPort ∧ httpsPort ≠ 443 then joinHostPort host (itoa httpsPort)
    else if ':' ∈ host ∧ host.head? ≠ some '[' then '[' :: (host ++ [']'])
    else host
  "https://" ++ String.ofList host ++ uri

structure Request where
  method : String
  host : String
  uri : String

/-- What becomes of a request that was routed by the table `t`. -/
inductive Outcome (t : RoutingTable) where
  | unmatched
  | redirect (code : Nat) (target : String)
  | refused (r : Refusal)
  | served (rt : t.Ref) -- the handler of the route runs
deriving DecidableEq

def serveHTTPS (x : X509 Cert Pool) (table : CaseTable) (now : Nat) (t : RoutingTable)
    (cache : Cache Pool) (viaVPN : Bool) (tls : Option (Conn Cert)) (r : Request) :
    Outcome t × Cache Pool :=
  match t.lookup table r.host with
  | none => (.unmatched, cache)
  | some rt =>
      if (t.host rt).vpnOnly && !viaVPN then (.unmatched, cache)
      else
        match clientCertOK x table now t cache tls rt with
        | (some refusal, cache) => (.refused refusal, cache)
        | (none, cache) => (.served rt, cache)

def serveHTTP (table : CaseTable) (httpsPort : Nat) (t : RoutingTable) (viaVPN : Bool)
    (r : Request) : Outcome t :=
  match t.lookup table r.host with
  | none => .unmatched
  | some rt =>
      if (t.host rt).vpnOnly && !viaVPN then .unmatched
      else if (t.host rt).forceSSL || (t.host rt).clientCert.isSome then
        let code := if r.method ≠ "GET" ∧ r.method ≠ "HEAD" then 308 else 301
        .redirect code (redirectTarget httpsPort r.host r.uri)
      else .served rt

/-! ### The engine

The state has the table, the cache of parsed bundles, the open connections and the requests
that have loaded a table. -/

structure Pending (Cert : Type) where
  table : RoutingTable
  port80 : Bool
  viaVPN : Bool
  tls : Option (Conn Cert)
  request : Request

structure Entry (Cert : Type) extends Pending Cert where
  now : Nat
  outcome : Outcome table

structure State (Cert Pool : Type) where
  table : RoutingTable
  cache : Cache Pool
  conns : List (Conn Cert)
  pending : List (Pending Cert)
  log : List (Entry Cert)

def init (t : RoutingTable) : State Cert Pool := ⟨t, ∅, [], [], []⟩

inductive Label (Cert : Type) where
  | reload (t : RoutingTable)
  | parse (pem : String) -- for the warnings of a reload
  | connect (tunnel : Bool) (serverName : String) (tls13 : Bool) (offered : List Cert) (now : Nat)
  /-- A client takes up the session of a connection, with the chain of then. -/
  | resume (i : Nat) (serverName : String) (tls13 : Bool)
  | arriveHTTP (viaVPN : Bool) (request : Request)
  /-- Over a connection; the handler can be reached without one in tests only. -/
  | arriveHTTPS (i : Option Nat) (viaVPN : Bool) (request : Request)
  | serve (k : Nat) (now : Nat)

section Step

variable (x : X509 Cert Pool) (table : CaseTable) (httpsPort : Nat)

/-- What becomes of a request, and the bundles parsed by then. -/
def Pending.serve (cache : Cache Pool) (now : Nat) (p : Pending Cert) :
    Outcome p.table × Cache Pool :=
  if p.port80 then (serveHTTP table httpsPort p.table p.viaVPN p.request, cache)
  else serveHTTPS x table now p.table cache p.viaVPN p.tls p.request

def step (s : State Cert Pool) : Label Cert → Option (State Cert Pool)
  | .reload t => some { s with table := t }
  | .parse pem => some { s with cache := (clientCAPool x s.cache pem).2 }
  | .connect tunnel serverName tls13 offered now =>
      match getConfigForClient x table s.table s.cache tunnel serverName with
      | (none, _) => none
      | (some config, cache) =>
          if config.minVersion13 && !tls13 then none
          else (config.clientAuth.accept x now offered).map fun chain =>
            { s with cache, conns := s.conns ++ [⟨tunnel, serverName, chain⟩] }
  | .resume i serverName tls13 =>
      match s.conns[i]? with
      | none => none
      | some conn =>
          match getConfigForClient x table s.table s.cache conn.tunnel serverName with
          | (none, _) => none
          | (some config, cache) =>
              if config.minVersion13 && !tls13 then none
              else some { s with cache, conns := s.conns ++ [{ conn with serverName }] }
  | .arriveHTTP viaVPN request =>
      some { s with pending := s.pending ++ [⟨s.table, true, viaVPN, none, request⟩] }
  | .arriveHTTPS none viaVPN request =>
      some { s with pending := s.pending ++ [⟨s.table, false, viaVPN, none, request⟩] }
  | .arriveHTTPS (some i) _ request =>
      s.conns[i]?.map fun conn =>
        { s with pending := s.pending ++ [⟨s.table, false, conn.tunnel, some conn, request⟩] }
  | .serve k now =>
      s.pending[k]?.map fun p =>
        { s with
          cache := (p.serve x table httpsPort s.cache now).2
          log := s.log ++ [⟨p, now, (p.serve x table httpsPort s.cache now).1⟩] }

end Step

/-! ### What the option asks for

`Admitted` is the meaning of the option, without a cache and without the order of the checks. -/

section Admitted

variable (x : X509 Cert Pool) (table : CaseTable) (now : Nat) (t : RoutingTable)

def usablePool (pem : String) : Option Pool := if pem = "" then none else x.appendCertsFromPEM pem

/-- The chain verifies against the bundle of the policy; only `request` takes none. -/
def ChainOk (policy : Store.ClientCert) (pool : Pool) : List Cert → Prop
  | [] => policy.mode = "request"
  | leaf :: rest => x.verify now pool rest leaf = true

/-- The client-certificate options of the table let the request through to the route: with
an option, it came over TLS under a server name that selects the same route, and its
chain satisfies the policy; without, its server name selects no route with one. -/
def Admitted (tls : Option (Conn Cert)) (rt : t.Ref) : Prop :=
  match (t.host rt).clientCert with
  | some policy => ∃ conn, tls = some conn ∧ t.lookup table conn.serverName = some rt ∧
      ∃ pool, usablePool x policy.caPEM = some pool ∧
        ChainOk x now policy pool conn.peerCertificates
  | none => ∀ conn, tls = some conn → ∀ other, t.lookup table conn.serverName = some other →
      (t.host other).clientCert = none

end Admitted

section Checks

variable {x : X509 Cert Pool} {table : CaseTable} {now httpsPort : Nat} {t : RoutingTable}
  {cache : Cache Pool}

def Coherent (x : X509 Cert Pool) (cache : Cache Pool) : Prop :=
  ∀ pem pool, cache.lookup pem = some pool → pool = x.appendCertsFromPEM pem

theorem clientCAPool_eq (h : Coherent x cache) (pem : String) :
    (clientCAPool x cache pem).1 = usablePool x pem ∧ Coherent x (clientCAPool x cache pem).2 := by
  unfold clientCAPool usablePool
  split_ifs with hempty
  · exact ⟨rfl, h⟩
  · cases hlookup : cache.lookup pem with
    | some pool => exact ⟨h pem pool hlookup, h⟩
    | none =>
        refine ⟨rfl, fun pem' pool hpool => ?_⟩
        by_cases heq : pem' = pem
        · subst heq
          rw [AList.lookup_insert] at hpool
          exact (Option.some.inj hpool).symm
        · rw [AList.lookup_insert_ne heq] at hpool
          exact h pem' pool hpool

/-- A server name that selects no route with an option is no obstacle to a host without. -/
theorem misdirected_iff_of_none {rt : t.Ref} (hpolicy : (t.host rt).clientCert = none)
    (sni : Option t.Ref) :
    (sni ≠ some rt ∧ (sni.any fun r => (t.host r).clientCert.isSome) = true) ↔
      ¬ ∀ other, sni = some other → (t.host other).clientCert = none := by
  constructor
  · rintro ⟨-, hany⟩ hall
    cases sni with
    | none => cases hany
    | some other =>
        rw [Option.any_some, hall other rfl] at hany
        cases hany
  · intro hnot
    push Not at hnot
    obtain ⟨other, rfl, hsome⟩ := hnot
    refine ⟨fun heq => hsome (Option.some.inj heq ▸ hpolicy), ?_⟩
    exact Option.isSome_iff_ne_none.mpr hsome

variable (table now) in
/-- The check lets a request through exactly when the options do. -/
theorem clientCertOK_iff (h : Coherent x cache) (tls : Option (Conn Cert)) (rt : t.Ref) :
    (clientCertOK x table now t cache tls rt).1 = none ↔ Admitted x table now t tls rt := by
  unfold clientCertOK Admitted
  cases tls with
  | none => cases hpolicy : (t.host rt).clientCert <;> simp
  | some conn =>
      cases hpolicy : (t.host rt).clientCert with
      | none =>
          have hiff := misdirected_iff_of_none hpolicy (t.lookup table conn.serverName)
          simp only [Option.isSome_none, Bool.false_or, hiff, Option.some.injEq, forall_eq']
          split_ifs with hmis
          · exact iff_of_true rfl hmis
          · exact iff_of_false nofun hmis
      | some policy =>
          simp only [Option.isSome_some, Bool.true_or, and_true, Option.some.injEq,
            exists_eq_left']
          by_cases hsni : t.lookup table conn.serverName = some rt
          · rw [if_neg (not_not.mpr hsni), ← (clientCAPool_eq h policy.caPEM).1]
            cases clientCAPool x cache policy.caPEM with
            | mk pool cache' =>
                cases pool with
                | none => simp
                | some pool => cases conn.peerCertificates <;> simp [hsni, ChainOk]
          · rw [if_pos hsni]
            exact iff_of_false nofun fun hadmitted => hsni hadmitted.1

variable (table now) in
theorem clientCertOK_coherent (h : Coherent x cache) (tls : Option (Conn Cert)) (rt : t.Ref) :
    Coherent x (clientCertOK x table now t cache tls rt).2 := by
  unfold clientCertOK
  cases tls with
  | none => exact h
  | some conn =>
      simp only
      split_ifs
      · exact h
      · cases (t.host rt).clientCert with
        | none => exact h
        | some policy =>
            have hcoherent := (clientCAPool_eq h policy.caPEM).2
            simp only
            cases hca : clientCAPool x cache policy.caPEM with
            | mk pool cache' =>
                rw [hca] at hcoherent
                cases pool with
                | none => exact hcoherent
                | some pool => cases conn.peerCertificates <;> exact hcoherent

variable (table t) in
theorem getConfigForClient_coherent (h : Coherent x cache) (tunnel : Bool) (serverName : String) :
    Coherent x (getConfigForClient x table t cache tunnel serverName).2 := by
  unfold getConfigForClient
  cases t.lookup table serverName with
  | none => exact h
  | some rt =>
      simp only
      split_ifs
      · exact h
      · cases (t.host rt).clientCert with
        | none => exact h
        | some policy =>
            have hcoherent := (clientCAPool_eq h policy.caPEM).2
            simp only
            cases hca : clientCAPool x cache policy.caPEM with
            | mk pool cache' =>
                rw [hca] at hcoherent
                cases pool <;> exact hcoherent

/-- A VPN-only route is visible through the tunnel. -/
theorem visible_iff {vpnOnly viaVPN : Bool} :
    (vpnOnly && !viaVPN) = false ↔ (vpnOnly = true → viaVPN = true) := by
  cases vpnOnly <;> simp

/-- The handler behind TLS and QUIC runs for a visible route that the options admit to. -/
theorem serveHTTPS_iff (h : Coherent x cache) (viaVPN : Bool) (tls : Option (Conn Cert))
    (r : Request) (rt : t.Ref) :
    (serveHTTPS x table now t cache viaVPN tls r).1 = .served rt ↔
      t.lookup table r.host = some rt ∧ ((t.host rt).vpnOnly = true → viaVPN = true) ∧
        Admitted x table now t tls rt := by
  unfold serveHTTPS
  cases hfound : t.lookup table r.host with
  | none => simp
  | some found =>
      have hok := clientCertOK_iff table now h tls found
      rw [← visible_iff]
      simp only [Option.some.injEq]
      split_ifs with hhidden
      · refine iff_of_false nofun ?_
        rintro ⟨rfl, hvisible, -⟩
        rw [hhidden] at hvisible
        cases hvisible
      · rw [Bool.not_eq_true] at hhidden
        cases hcheck : clientCertOK x table now t cache tls found with
        | mk refusal cache' =>
            rw [hcheck] at hok
            cases refusal with
            | none =>
                constructor
                · intro heq
                  obtain rfl := Outcome.served.inj heq
                  exact ⟨rfl, hhidden, hok.mp rfl⟩
                · rintro ⟨rfl, -, -⟩
                  rfl
            | some refusal =>
                refine iff_of_false nofun ?_
                rintro ⟨rfl, -, hadmitted⟩
                exact absurd (hok.mpr hadmitted) nofun

variable (table now t) in
theorem serveHTTPS_coherent (h : Coherent x cache) (viaVPN : Bool) (tls : Option (Conn Cert))
    (r : Request) : Coherent x (serveHTTPS x table now t cache viaVPN tls r).2 := by
  unfold serveHTTPS
  cases t.lookup table r.host with
  | none => exact h
  | some found =>
      have hcoherent := clientCertOK_coherent table now h tls found
      simp only
      split_ifs
      · exact h
      · cases hcheck : clientCertOK x table now t cache tls found with
        | mk refusal cache' =>
            rw [hcheck] at hcoherent
            cases refusal <;> exact hcoherent

/-- The handler behind plain HTTP runs for a visible route without an option. -/
theorem serveHTTP_iff (viaVPN : Bool) (r : Request) (rt : t.Ref) :
    serveHTTP table httpsPort t viaVPN r = .served rt ↔
      t.lookup table r.host = some rt ∧ ((t.host rt).vpnOnly = true → viaVPN = true) ∧
        (t.host rt).forceSSL = false ∧ (t.host rt).clientCert = none := by
  unfold serveHTTP
  cases hfound : t.lookup table r.host with
  | none => simp
  | some found =>
      rw [← visible_iff]
      simp only [Option.some.injEq]
      split_ifs with hhidden hsecure
      · refine iff_of_false nofun ?_
        rintro ⟨rfl, hvisible, -⟩
        rw [hhidden] at hvisible
        cases hvisible
      · refine iff_of_false nofun ?_
        rintro ⟨rfl, -, hssl, hnone⟩
        simp [hssl, hnone] at hsecure
      · rw [Bool.not_eq_true] at hhidden
        simp only [Bool.or_eq_true, not_or, Bool.not_eq_true, Option.isSome_eq_false_iff,
          Option.isNone_iff_eq_none] at hsecure
        constructor
        · intro heq
          obtain rfl := Outcome.served.inj heq
          exact ⟨rfl, hhidden, hsecure⟩
        · rintro ⟨rfl, -, -⟩
          rfl

end Checks

/-! ### Every run

The invariant is about the cache alone; each request is compared with the options as it is
served. -/

section Run

variable {x : X509 Cert Pool} {table : CaseTable} {httpsPort : Nat}

/-- When the handler of a route runs for a request. -/
def Served (x : X509 Cert Pool) (table : CaseTable) (now : Nat) (p : Pending Cert)
    (rt : p.table.Ref) : Prop :=
  p.table.lookup table p.request.host = some rt ∧
    ((p.table.host rt).vpnOnly = true → p.viaVPN = true) ∧
    (p.port80 = true → (p.table.host rt).forceSSL = false) ∧
    Admitted x table now p.table p.tls rt

variable (table httpsPort) in
theorem Pending.serve_iff {cache : Cache Pool} (h : Coherent x cache) (now : Nat) {p : Pending Cert}
    (hplain : p.port80 = true → p.tls = none) (rt : p.table.Ref) :
    (p.serve x table httpsPort cache now).1 = .served rt ↔ Served x table now p rt := by
  unfold Pending.serve Served
  cases hport : p.port80 with
  | true =>
      have hadmitted : Admitted x table now p.table p.tls rt ↔
          (p.table.host rt).clientCert = none := by
        rw [hplain hport]
        unfold Admitted
        cases (p.table.host rt).clientCert <;> simp
      rw [if_pos rfl, serveHTTP_iff, hadmitted]
      simp
  | false =>
      rw [if_neg Bool.false_ne_true, serveHTTPS_iff h]
      simp

variable (table httpsPort) in
theorem Pending.serve_coherent {cache : Cache Pool} (h : Coherent x cache) (now : Nat)
    (p : Pending Cert) : Coherent x (p.serve x table httpsPort cache now).2 := by
  unfold Pending.serve
  split_ifs
  · exact h
  · exact serveHTTPS_coherent table now p.table h p.viaVPN p.tls p.request

structure Inv (x : X509 Cert Pool) (table : CaseTable) (s : State Cert Pool) : Prop where
  coherent : Coherent x s.cache
  plain : ∀ p ∈ s.pending, p.port80 = true → p.tls = none
  log : ∀ e ∈ s.log, ∀ rt, e.outcome = .served rt ↔ Served x table e.now e.toPending rt

theorem inv_init (t : RoutingTable) : Inv x table (init t) where
  coherent := by
    intro pem pool h
    simp [init] at h
  plain := nofun
  log := nofun

/-- A request that arrives. -/
theorem Inv.arrive {s : State Cert Pool} (hs : Inv x table s) {p : Pending Cert}
    (hp : p.port80 = true → p.tls = none) :
    Inv x table { s with pending := s.pending ++ [p] } where
  coherent := hs.coherent
  plain := by
    intro q hq
    rcases List.mem_append.mp hq with hq | hq
    · exact hs.plain q hq
    · rwa [List.mem_singleton.mp hq]
  log := hs.log

theorem Inv.step {s s' : State Cert Pool} {label : Label Cert} (hs : Inv x table s)
    (h : step x table httpsPort s label = some s') : Inv x table s' := by
  cases label with
  | reload t =>
      obtain rfl := Option.some.inj h
      exact ⟨hs.coherent, hs.plain, hs.log⟩
  | parse pem =>
      obtain rfl := Option.some.inj h
      exact ⟨(clientCAPool_eq hs.coherent pem).2, hs.plain, hs.log⟩
  | connect tunnel serverName tls13 offered now =>
      have hcoherent :=
        getConfigForClient_coherent table s.table hs.coherent tunnel serverName
      simp only [ClientCerts.step] at h
      split at h
      case h_1 => cases h
      case h_2 config cache hconfig =>
        rw [hconfig] at hcoherent
        split_ifs at h
        obtain ⟨chain, -, rfl⟩ := Option.map_eq_some_iff.mp h
        exact ⟨hcoherent, hs.plain, hs.log⟩
  | resume i serverName tls13 =>
      simp only [ClientCerts.step] at h
      split at h
      case h_1 => cases h
      case h_2 conn hconn =>
        have hcoherent := getConfigForClient_coherent table s.table hs.coherent
          conn.tunnel serverName
        split at h
        case h_1 => cases h
        case h_2 config cache hconfig =>
          rw [hconfig] at hcoherent
          split_ifs at h
          obtain rfl := Option.some.inj h
          exact ⟨hcoherent, hs.plain, hs.log⟩
  | arriveHTTP viaVPN request =>
      obtain rfl := Option.some.inj h
      exact hs.arrive fun _ => rfl
  | arriveHTTPS i viaVPN request =>
      cases i with
      | none =>
          obtain rfl := Option.some.inj h
          exact hs.arrive nofun
      | some i =>
          obtain ⟨conn, -, rfl⟩ := Option.map_eq_some_iff.mp h
          exact hs.arrive nofun
  | serve k now =>
      obtain ⟨p, hp, rfl⟩ := Option.map_eq_some_iff.mp h
      refine ⟨p.serve_coherent table httpsPort hs.coherent now, hs.plain, ?_⟩
      intro e he rt
      rcases List.mem_append.mp he with he | he
      · exact hs.log e he rt
      · obtain rfl := List.mem_singleton.mp he
        exact p.serve_iff table httpsPort hs.coherent now
          (hs.plain p (List.mem_of_getElem? hp)) rt

/-- A verified chain, or none where none is asked for, is what a handshake leaves. -/
theorem chainOk_of_accept {now : Nat} {policy : Store.ClientCert} {pool : Pool}
    {offered chain : List Cert}
    (h : (if policy.mode = "request" then ClientAuth.verifyClientCertIfGiven pool
      else .requireAndVerifyClientCert pool).accept x now offered = some chain) :
    ChainOk x now policy pool chain := by
  split_ifs at h with hmode
  · cases offered with
    | nil =>
        obtain rfl := Option.some.inj h
        exact hmode
    | cons leaf rest =>
        simp only [ClientAuth.accept] at h
        split_ifs at h with hverify
        obtain rfl := Option.some.inj h
        exact hverify
  · cases offered with
    | nil => cases h
    | cons leaf rest =>
        simp only [ClientAuth.accept] at h
        split_ifs at h with hverify
        obtain rfl := Option.some.inj h
        exact hverify

/-- The handshake asks for what the check asks for: a connection that was made under the
table a request is routed by, for the same host and at the same time, is admitted, unless
the bundle does not parse. -/
theorem admitted_of_handshake {cache cache' : Cache Pool} {t : RoutingTable} {now : Nat}
    {tunnel : Bool} {serverName : String} {config : Config Pool} {offered chain : List Cert}
    {rt : t.Ref} (hcoherent : Coherent x cache) (hfound : t.lookup table serverName = some rt)
    (hconfig : getConfigForClient x table t cache tunnel serverName = (some config, cache'))
    (haccept : config.clientAuth.accept x now offered = some chain)
    (husable : ∀ policy, (t.host rt).clientCert = some policy →
      (usablePool x policy.caPEM).isSome = true) :
    Admitted x table now t (some ⟨tunnel, serverName, chain⟩) rt := by
  unfold getConfigForClient at hconfig
  unfold Admitted
  simp only [hfound] at hconfig
  split_ifs at hconfig with hhidden
  · cases hconfig
  · cases hpolicy : (t.host rt).clientCert with
    | none =>
        intro conn hconn other hother
        obtain rfl := Option.some.inj hconn
        rw [hfound] at hother
        obtain rfl := Option.some.inj hother
        exact hpolicy
    | some policy =>
        obtain ⟨pool, hpool⟩ := Option.isSome_iff_exists.mp (husable policy hpolicy)
        refine ⟨_, rfl, hfound, pool, hpool, ?_⟩
        have hca := (clientCAPool_eq hcoherent policy.caPEM).1.trans hpool
        rw [hpolicy] at hconfig
        simp only at hconfig
        cases hcall : clientCAPool x cache policy.caPEM with
        | mk found cache'' =>
            rw [hcall] at hca hconfig
            obtain rfl : found = some pool := hca
            obtain ⟨hsome, -⟩ := Prod.mk.inj hconfig
            obtain rfl := Option.some.inj hsome
            exact chainOk_of_accept haccept

/-- **Client certificates.**  In every run of reloads, handshakes and requests, the
handler of a route runs for a request exactly when the table it was routed by finds the
route under its Host header, the route is visible and not reserved to HTTPS, and the
client-certificate options of that table admit the request: a host with the option is
served over TLS only, under a server name that selects the same route, to a chain that
verifies against its bundle at that moment; a host without, not under the server name of
a host with it. -/
theorem served_iff_admitted (x : X509 Cert Pool) (table : CaseTable) (httpsPort : Nat)
    (t : RoutingTable) {s : State Cert Pool}
    (hreach : Reachable (step x table httpsPort) (init t) s) {e : Entry Cert} (he : e ∈ s.log)
    (rt : e.table.Ref) :
    e.outcome = .served rt ↔
      e.table.lookup table e.request.host = some rt ∧
        ((e.table.host rt).vpnOnly = true → e.viaVPN = true) ∧
        (e.port80 = true → (e.table.host rt).forceSSL = false) ∧
        Admitted x table e.now e.table e.tls rt :=
  (hreach.invariant (inv_init t) fun _ _ _ hs h => hs.step h).log e he rt

end Run

/-! One run: a certificate is asked for and verified, the same connection is turned away
from another host, and after a reload with another bundle it is turned away from its own. -/

/-- Pools are named by their bundle; a certificate is the name of its issuer. -/
def nameX509 : X509 String String where
  appendCertsFromPEM pem := if pem = "garbage" then none else some pem
  verify _ pool _ leaf := leaf == pool

def tableOf (ca : String) : RoutingTable where
  routes := [⟨false, true, "", some ⟨"require", ca⟩⟩, ⟨false, true, "", none⟩]
  exact := (AList.insert "secure.test" (0 : Fin 2) ∅).insert "public.test" (1 : Fin 2)
  wildcard := ∅

def twoHosts : List (Label String) :=
  [.connect false "secure.test" true ["ca"] 0,
    .arriveHTTPS (some 0) false ⟨"GET", "secure.test", "/"⟩,
    .arriveHTTPS (some 0) false ⟨"GET", "public.test", "/"⟩, .reload (tableOf "other"),
    .arriveHTTPS (some 0) false ⟨"GET", "Secure.Test:443", "/"⟩,
    .arriveHTTP false ⟨"GET", "secure.test", "/"⟩, .serve 0 1, .serve 1 1, .serve 2 2, .serve 3 2]

/-- The refusal or redirection, or the route. -/
def Entry.code (e : Entry String) : Nat :=
  match e.outcome with
  | .unmatched => 404
  | .redirect code _ => code
  | .refused r => r.code
  | .served rt => rt.val

theorem served_iff_admitted_twoHosts :
    ∃ s, run (step nameX509 ⟨id, id⟩ 443) (init (tableOf "ca")) twoHosts = some s ∧
      s.log.map Entry.code = [0, 421, 403, 301] ∧
      ∀ e ∈ s.log, ∀ rt : e.table.Ref, e.outcome = .served rt ↔
        e.table.lookup ⟨id, id⟩ e.request.host = some rt ∧
          ((e.table.host rt).vpnOnly = true → e.viaVPN = true) ∧
          (e.port80 = true → (e.table.host rt).forceSSL = false) ∧
          Admitted nameX509 ⟨id, id⟩ e.now e.table e.tls rt := by
  have hend : (run (step nameX509 ⟨id, id⟩ 443) (init (tableOf "ca")) twoHosts).map
      (fun s => s.log.map Entry.code) = some [0, 421, 403, 301] := by decide +kernel
  obtain ⟨s, hrun, hlog⟩ := Option.map_eq_some_iff.mp hend
  exact ⟨s, hrun, hlog, fun e he rt =>
    served_iff_admitted nameX509 ⟨id, id⟩ 443 (tableOf "ca") ⟨twoHosts, hrun⟩ he rt⟩

end Quicgate.ClientCerts
