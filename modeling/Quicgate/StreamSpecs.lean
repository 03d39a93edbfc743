import Quicgate.AccessVerdicts
import Quicgate.NormalForms
import Quicgate.SavedBans
import Quicgate.StreamPorts

/-!
# What a stream listener is built from

`buildStreamSpec` and `compiledAccess.fingerprint` of `internal/engine/streams.go`: the
specification of the listeners of a stream, with the signature by which a running listener is
told from the one that is wanted.  The signature is one text that all the values are printed
into; the module says when two specifications of one text decide alike.

`l4Allowed_of_fingerprint` is about access lists and `sameDecisions_of_sig` about whole
specifications.  The signature has only a trace of the chains and prints the server names
without quotes (`ToldApart`); for names as DNS has them the latter makes no difference
(`routes_told_of_names`).  `StreamSync` reconciles listeners by these signatures.
-/

namespace Quicgate.StreamSpecs

open Quicgate.Access Quicgate.AddrText Quicgate.Checks Quicgate.GoMaps Quicgate.GoNet
open Quicgate.GoStrings Quicgate.Netip Quicgate.Store
open Quicgate.FirstMatch (firstMatch)
open Quicgate.Routing (routeName)
open Quicgate.SavedBans (joinHostPort)

/-! ### What is printed

The verbs `%v` and `%s` of `fmt` on the values of a specification. -/

def printBool (b : Bool) : List Char := if b then "true".toList else "false".toList

def printList (words : List (List Char)) : List Char := '[' :: joinSpace words ++ "]".toList

/-- `IPNet.String`, of no network also. A mask of four bytes fits no IPv6 address. -/
def printNet (n : Option IPNet) : List Char :=
  match n with
  | none => "<nil>".toList
  | some n =>
      match to4 n.ip with
      | some _ => ipText n.ip ++ '/' :: itoa (if n.bits = 32 then n.ones else n.ones - 96)
      | none => if n.bits = 128 then ipText n.ip ++ '/' :: itoa n.ones else "<nil>".toList

/-- The verb `%v` on the set of methods, a map that is printed in the order of its keys. -/
def printMethods (methods : Option (List String)) : List Char :=
  let keys := (methods.getD []).dedup.mergeSort fun a b => decide (a ≤ b)
  "map[".toList ++ joinSpace (keys.map fun m => m.toList ++ ":true".toList) ++ "]".toList

def ruleText (r : CompiledRule) : List Char :=
  printBool r.allow ++ '/' :: printNet r.net ++ '/' :: r.country.toList ++ '/' ::
    printBool r.unresolved ++ '/' :: printMethods r.methods

def fingerprint (c : CompiledAccess) : List Char :=
  c.name.toList ++ '|' :: c.satisfy.toList ++ '|' :: ('r' :: printBool c.restricted) ++
    '|' :: ('d' :: printBool c.denyAll) ++ '|' :: ('u' :: itoa (GoMap.len c.users)) ++
    '|' :: c.rules.flatMap fun r => ruleText r ++ [';']

def hostPort (host : String) (port : Int) : String :=
  String.ofList (joinHostPort host.toList (printInt port).toList)

def routeText (r : SNIRoute) : List Char :=
  '{' :: r.host.toList ++ ' ' :: r.forwardHost.toList ++ ' ' :: (printInt r.forwardPort).toList ++
    ['}']

/-! ### The specification

What a stream's references come to when it is reconciled: its filter, its trusted peers, its
chain and its routes. -/

/-- The bytes of a certificate, and a certificate with those it is served with. -/
abbrev Certificate := List UInt8

abbrev Chain := List Certificate

structure TcpOpts where
  sendProxy : String -- "" | v1 | v2
  acceptProxy : Bool
  trusted : List IPNet
  tlsCert : Option Chain
  sniRoutes : GoMap String String
  defaultDest : String

structure StreamSpec where
  id : Int
  listenPort : Int
  target : String
  acl : Option CompiledAccess
  nets : List IPNet
  filtered : Bool
  sig : List Char
  tcp : TcpOpts
  failure : Option String
  via : Int

/-- What a reconciliation resolves the references of streams with. Either may be nil. -/
structure Loaders where
  loadCert : Option (Int → Option Chain)
  resolveACL : Option (Int → Option CompiledAccess)

structure Env where
  lib : Lib
  sum256 : List UInt8 → List UInt8

structure SourceFilter where
  acl : Option CompiledAccess
  nets : List IPNet
  filtered : Bool
  srcSig : List Char
  failure : Option String

def listFilter (resolveACL : Option (Int → Option CompiledAccess)) (id : Int) : SourceFilter :=
  let name := "access list " ++ printInt id
  match resolveACL.bind (· id) with
  | some acl => ⟨some acl, [], true, "acl:".toList ++ fingerprint acl, none⟩
  | none =>
      ⟨some (deniedAccess name), [], true, "acl:".toList ++ fingerprint (deniedAccess name),
        some (name ++ " does not exist")⟩

def parseNets (cidrs : List String) : List IPNet := cidrs.filterMap fun c => parseCIDR c.toList

def cidrFilter (cidrs : List String) : SourceFilter :=
  ⟨none, parseNets cidrs, true, printList (cidrs.map String.toList),
    if parseNets cidrs = [] then
      some "none of the source CIDRs parse, so no client could be admitted"
    else none⟩

def sourceFilter (resolveACL : Option (Int → Option CompiledAccess)) (s : Stream) : SourceFilter :=
  match s.accessListID with
  | some id => listFilter resolveACL id
  | none => if s.allowedCIDRs = [] then ⟨none, [], false, [], none⟩ else cidrFilter s.allowedCIDRs

def trustedNets (s : Stream) : List IPNet :=
  if s.acceptProxyProtocol then parseNets s.trustedProxies else []

def trustedFailure (s : Stream) : Option String :=
  if s.acceptProxyProtocol = true ∧ trustedNets s = [] then
    some "accepting PROXY protocol needs at least one trusted proxy address"
  else none

def hexEncode (bytes : List UInt8) : List Char :=
  bytes.flatMap fun b => [Nat.digitChar (b.toNat / 16), Nat.digitChar (b.toNat % 16)]

/-- What the signature has of a chain: eight bytes of the digest of its first certificate. -/
def leafDigest (sum256 : List UInt8 → List UInt8) : Chain → List Char
  | [] => []
  | leaf :: _ => hexEncode ((sum256 leaf).take 8)

/-- The chain of the certificate with that id, as far as it can be served. -/
def usable (loadCert : Option (Int → Option Chain)) (id : Int) : Option Chain :=
  (loadCert.bind (· id)).filter (· ≠ [])

/-- The chain a stream's clients are served, if it terminates TLS. -/
def servedChain (loadCert : Option (Int → Option Chain)) (s : Stream) : Option Chain :=
  if s.terminateTLS then s.certID.bind (usable loadCert) else none

def certFailure (loadCert : Option (Int → Option Chain)) (s : Stream) : Option String :=
  if s.terminateTLS = false then none
  else match s.certID with
    | none => some "TLS termination has no certificate"
    | some id =>
        if (usable loadCert id).isNone then some
          ("TLS certificate " ++ printInt id ++ " is unavailable")
        else none

/-- The targets by server name; of two routes for one name the later one counts. -/
def routeTable (env : Env) (routes : List SNIRoute) : GoMap String String :=
  GoMap.insertAll ∅ (routes.map fun r =>
    (routeName env.lib.caseTable r.host, hostPort r.forwardHost r.forwardPort))

def proxyText (s : Stream) : List Char :=
  "pp:".toList ++ s.sendProxyProtocol.toList ++ '/' :: printBool s.acceptProxyProtocol ++
    '/' :: printList (s.trustedProxies.map String.toList)

def tlsText (env : Env) (loadCert : Option (Int → Option Chain)) (s : Stream) : List Char :=
  "tls:".toList ++ printBool s.terminateTLS ++ '/' :: (s.certID.elim "-" printInt).toList ++
    '/' :: (servedChain loadCert s).elim [] (leafDigest env.sum256)

def sniText (s : Stream) : List Char := "sni:".toList ++ printList (s.sniRoutes.map routeText)

def viaText (s : Stream) : List Char := "via:".toList ++ (printInt s.via).toList

/-- `buildStreamSpec`, with the site that `Sync` adds. Of several failures the first is kept. -/
def buildStreamSpec (env : Env) (l : Loaders) (id : Int) (s : Stream) : StreamSpec :=
  let target := hostPort s.forwardHost s.forwardPort
  let source := sourceFilter l.resolveACL s
  { id, listenPort := s.listenPort, target, acl := source.acl, nets := source.nets,
    filtered := source.filtered,
    sig := target.toList ++ '|' :: source.srcSig ++ '|' :: proxyText s ++
      '|' :: tlsText env l.loadCert s ++ '|' :: sniText s ++ '|' :: viaText s
    tcp :=
      { sendProxy := s.sendProxyProtocol, acceptProxy := s.acceptProxyProtocol,
        trusted := trustedNets s, tlsCert := servedChain l.loadCert s,
        sniRoutes := routeTable env s.sniRoutes, defaultDest := target }
    failure := (source.failure.or (trustedFailure s)).or (certFailure l.loadCert s)
    via := s.via }

/-! ### The listeners of a stream

A stream has one listener for each port and protocol. -/

def portText (s : Stream) (port : Int) : List Char :=
  'p' :: (printInt port).toList ++
    '-' :: '>' :: (hostPort s.forwardHost (s.forwardPortFor port)).toList

def fromText (s : Stream) : List Char := "from".toList ++ (printInt s.listenPort).toList

/-- The specification of one port of a stream. A range forwards each port to its own. -/
def portSpec (spec : StreamSpec) (s : Stream) (port : Int) : StreamSpec :=
  if s.rangeEnd = s.listenPort then spec
  else
    let target := hostPort s.forwardHost (s.forwardPortFor port)
    { spec with
      target, tcp := { spec.tcp with defaultDest := target }
      sig := spec.sig ++ '|' :: portText s port ++ '|' :: fromText s }

def listenerKey (proto : String) (port : Int) : String := proto ++ ":" ++ printInt port

def protos (s : Stream) : List String :=
  if s.protocol = "both" then ["tcp", "udp"] else [s.protocol]

def ports (s : Stream) : List Int :=
  (List.range (s.rangeEnd - s.listenPort + 1).toNat).map fun n => s.listenPort + n

def portKeys (s : Stream) : List (Int × String) :=
  (ports s).flatMap fun port => (protos s).map fun proto => (port, listenerKey proto port)

def streamSpecs (env : Env) (l : Loaders) (id : Int) (s : Stream) : List (String × StreamSpec) :=
  (portKeys s).map fun place => (place.2, portSpec (buildStreamSpec env l id s) s place.1)

/-! ### What a listener decides

Two specifications are compared by what their listeners do with a client. -/

def among (nets : List IPNet) (addr : String) : Bool :=
  match splitHostPort addr.toList with
  | some (host, _) => (parseIP host).any fun ip => nets.any (·.contains ip)
  | none => false

def StreamSpec.allowed (geo : Option (IP → String)) (sp : StreamSpec) (addr : String) : Bool :=
  match sp.acl with
  | some acl => l4Allowed { acl with geo } addr
  | none => if sp.filtered then among sp.nets addr else true

def StreamSpec.trustedPeer (sp : StreamSpec) (addr : String) : Bool := among sp.tcp.trusted addr

/-- The listeners of the two specifications treat every client alike. -/
structure SameDecisions (sp sp' : StreamSpec) : Prop where
  target : sp.target = sp'.target
  defaultDest : sp.tcp.defaultDest = sp'.tcp.defaultDest
  sniRoutes : ∀ name, sp.tcp.sniRoutes.lookup name = sp'.tcp.sniRoutes.lookup name
  source : ∀ geo addr, sp.allowed geo addr = sp'.allowed geo addr
  sendProxy : sp.tcp.sendProxy = sp'.tcp.sendProxy
  acceptProxy : sp.tcp.acceptProxy = sp'.tcp.acceptProxy
  trusted : ∀ addr, sp.trustedPeer addr = sp'.trustedPeer addr
  via : sp.via = sp'.via
  tlsCert : sp.tcp.tlsCert = sp'.tcp.tlsCert

/-! ### Texts without a separator

A printed list comes apart where none of its words has the separator. -/

theorem not_mem_printBool {sep : Char} (h : sep ∉ "truefals".toList) (b : Bool) :
    sep ∉ printBool b := by
  intro hmem
  apply h
  cases b <;> simp [printBool] at hmem ⊢ <;> tauto

theorem printBool_injective {b b' : Bool} (h : printBool b = printBool b') : b = b' := by
  cases b <;> cases b' <;> first | rfl | exact absurd h (by decide)

theorem not_mem_itoa {sep : Char} (hdigit : sep.isDigit = false) (n : Nat) : sep ∉ itoa n := by
  intro hmem
  rw [isDigit_of_mem_itoa hmem] at hdigit
  cases hdigit

theorem not_mem_printInt {sep : Char} (hdash : sep ≠ '-') (hdigit : sep.isDigit = false) (n : Int) :
    sep ∉ (printInt n).toList := by
  intro hmem
  rcases mem_printInt hmem with hc | hc
  · exact hdash hc
  · rw [hc] at hdigit
    cases hdigit

theorem not_mem_joinSpace {sep : Char} (hspace : sep ≠ ' ') {words : List (List Char)}
    (h : ∀ word ∈ words, sep ∉ word) : sep ∉ joinSpace words := by
  intro hmem
  rcases mem_of_mem_intercalate hmem with hc | ⟨word, hword, hc⟩
  · exact hspace hc
  · exact h word hword hc

theorem joinSpace_ne_nil {word : List Char} {words : List (List Char)} (hword : word ≠ []) :
    joinSpace (word :: words) ≠ [] := by
  cases words with
  | nil => simpa [joinSpace] using hword
  | cons next rest => simp [joinSpace, List.intercalate_cons_cons]

/-- Words come apart at the spaces between them. -/
theorem joinSpace_injective {words words' : List (List Char)} (h : ∀ word ∈ words, ' ' ∉ word)
    (h' : ∀ word ∈ words', ' ' ∉ word) (hhead : words.head? ≠ some [])
    (hhead' : words'.head? ≠ some [])
    (heq : joinSpace words = joinSpace words') : words = words' := by
  cases words with
  | nil =>
      cases words' with
      | nil => rfl
      | cons word rest => exact absurd heq.symm (joinSpace_ne_nil (by simpa using hhead'))
  | cons word rest =>
      cases words' with
      | nil => exact absurd heq (joinSpace_ne_nil (by simpa using hhead))
      | cons word' rest' =>
          have hsplit := congrArg (List.splitOn ' ') heq
          rw [joinSpace, joinSpace, List.splitOn_intercalate ' ' h (by simp),
            List.splitOn_intercalate ' ' h' (by simp)] at hsplit
          exact hsplit

theorem not_mem_printNet {sep : Char} (hdigit : hexDigit sep = none)
    (h : sep ∉ ":./<nil>".toList) (n : Option IPNet) : sep ∉ printNet n := by
  have hnil : sep ∉ "<nil>".toList := fun hmem => h (by simp at hmem ⊢; tauto)
  have htext : ∀ ip ones, sep ∉ ipText ip ++ '/' :: itoa ones := by
    intro ip ones
    have hdecimal : sep.isDigit = false := by
      by_contra hd
      rw [hexDigit, if_pos (by simpa using hd)] at hdigit
      cases hdigit
    simp only [List.mem_append, List.mem_cons, not_or]
    refine ⟨not_mem_ipText hdigit ?_ ?_, ?_, not_mem_itoa hdecimal ones⟩
    all_goals
      rintro rfl
      exact h (by decide)
  unfold printNet
  split
  · exact hnil
  · split
    · exact htext _ _
    · split
      · exact htext _ _
      · exact hnil

/-! ### Access lists by their fingerprint

Rules of stored lists are printed so that everything a connection asks of them can be read off. -/

def covers (x : IP) (ones : Nat) (ip : IP) : Bool :=
  match to4 x, to4 ip with
  | some nn, some y => agree ones nn y
  | none, none => agree ones x ip
  | _, _ => false

/-- A network is printed with everything that it decides by. -/
theorem printNet_cases (n : Option IPNet) :
    (printNet n = "<nil>".toList ∧ ∀ ip, n.any (·.contains ip) = false) ∨
      ∃ x ones, printNet n = ipText x ++ '/' :: itoa ones ∧
        ∀ ip, n.any (·.contains ip) = covers x ones ip := by
  cases n with
  | none => exact Or.inl ⟨rfl, fun _ => rfl⟩
  | some n =>
      cases hfour : to4 n.ip with
      | some nn =>
          right
          refine ⟨n.ip, _, by simp only [printNet, hfour]; rfl, fun ip => ?_⟩
          rw [Option.any_some, IPNet.contains, covers, hfour]
          cases to4 ip <;> rfl
      | none =>
          by_cases hbits : n.bits = 128
          · right
            refine ⟨n.ip, n.ones, by simp only [printNet, hfour, if_pos hbits], fun ip => ?_⟩
            rw [Option.any_some, IPNet.contains, covers, hfour]
            cases to4 ip <;> simp [hbits]
          · left
            refine ⟨by simp only [printNet, hfour, if_neg hbits], fun ip => ?_⟩
            rw [Option.any_some, IPNet.contains, hfour]
            cases to4 ip <;> simp [hbits]

theorem contains_of_printNet {n n' : Option IPNet} (h : printNet n = printNet n') (ip : IP) :
    n.any (·.contains ip) = n'.any (·.contains ip) := by
  have hnil : '/' ∉ "<nil>".toList := by decide
  rcases printNet_cases n with ⟨ht, hc⟩ | ⟨x, ones, ht, hc⟩
  · rcases printNet_cases n' with ⟨-, hc'⟩ | ⟨x', ones', ht', -⟩
    · rw [hc, hc']
    · rw [ht, ht'] at h
      exact absurd (h ▸ by simp : '/' ∈ "<nil>".toList) hnil
  · rcases printNet_cases n' with ⟨ht', -⟩ | ⟨x', ones', ht', hc'⟩
    · rw [ht, ht'] at h
      exact absurd (h ▸ by simp : '/' ∈ "<nil>".toList) hnil
    · rw [ht, ht'] at h
      have hslash : ∀ ip, '/' ∉ ipText ip := fun ip =>
        not_mem_ipText (by decide) (by decide) (by decide)
      obtain ⟨hx, hones⟩ := eq_of_first (hslash x) (hslash x') h
      rw [hc, hc', ipText_injective hx, itoa_injective hones]

/-- A compiled rule of a stored list: countries and methods are capital letters, and a rule about
the tunnel is about nothing else. -/
structure RulePlain (r : CompiledRule) : Prop where
  country : ∀ c ∈ r.country.toList, 'A' ≤ c ∧ c ≤ 'Z'
  methods : ∀ ms, r.methods = some ms → ms ≠ [] ∧ ∀ m ∈ ms, ∀ c ∈ m.toList, 'A' ≤ c ∧ c ≤ 'Z'
  vpn : r.vpn.isSome = true → r.net = none ∧ r.country = "" ∧ r.unresolved = false

theorem not_mem_of_capitals {sep : Char} (hsep : ¬ ('A' ≤ sep ∧ sep ≤ 'Z')) {s : List Char}
    (h : ∀ c ∈ s, 'A' ≤ c ∧ c ≤ 'Z') : sep ∉ s := fun hmem => hsep (h sep hmem)

variable {r r' : CompiledRule}

theorem mem_keys_of_methods {ms : List String} {m : String} :
    m ∈ ms.dedup.mergeSort (fun a b => decide (a ≤ b)) ↔ m ∈ ms := by
  rw [(List.mergeSort_perm _ _).mem_iff, List.mem_dedup]

theorem not_mem_printMethods {sep : Char} (hr : RulePlain r) (hsep : ¬ ('A' ≤ sep ∧ sep ≤ 'Z'))
    (htext : sep ∉ "map[]: true".toList) : sep ∉ printMethods r.methods := by
  have hpart : ∀ part : List Char, part ⊆ "map[]: true".toList → sep ∉ part :=
    fun part hsub hmem => htext (hsub hmem)
  simp only [printMethods, List.mem_append, not_or]
  refine ⟨⟨hpart _ (by decide), not_mem_joinSpace ?_ ?_⟩, hpart _ (by decide)⟩
  · rintro rfl
    exact htext (by decide)
  · intro word hword hmem
    obtain ⟨m, hm, rfl⟩ := List.mem_map.mp hword
    rw [mem_keys_of_methods] at hm
    rcases List.mem_append.mp hmem with hc | hc
    · cases hms : r.methods with
      | none => simp [hms] at hm
      | some ms =>
          rw [hms] at hm
          exact hsep ((hr.methods ms hms).2 m hm sep hc)
    · exact hpart _ (by decide) hc

/-- Whether a rule is scoped to methods is printed. -/
theorem isSome_of_printMethods (hr : RulePlain r) (hr' : RulePlain r')
    (h : printMethods r.methods = printMethods r'.methods) :
    r.methods.isSome = r'.methods.isSome := by
  have hkeys : ∀ {r : CompiledRule}, RulePlain r → r.methods.isSome = true →
      printMethods r.methods ≠ printMethods none := by
    intro r hr hsome heq
    obtain ⟨ms, hms⟩ := Option.isSome_iff_exists.mp hsome
    obtain ⟨m, hm⟩ := List.exists_mem_of_ne_nil _ (hr.methods ms hms).1
    rw [← mem_keys_of_methods] at hm
    simp only [printMethods, hms, Option.getD_some, Option.getD_none, List.append_cancel_right_eq,
      List.append_cancel_left_eq] at heq
    cases hsorted : ms.dedup.mergeSort fun a b => decide (a ≤ b) with
    | nil => simp [hsorted] at hm
    | cons key rest =>
        rw [hsorted, List.map_cons] at heq
        have hword : key.toList ++ ":true".toList ≠ [] := by simp
        exact joinSpace_ne_nil hword (heq.trans (by simp [joinSpace]))
  cases hm : r.methods with
  | none =>
      cases hm' : r'.methods with
      | none => rfl
      | some ms' => exact absurd (hm ▸ h.symm) (hkeys hr' (by simp [hm']))
  | some ms =>
      cases hm' : r'.methods with
      | none => exact absurd (hm' ▸ h) (hkeys hr (by simp [hm]))
      | some ms' => rfl

theorem not_mem_ruleText {sep : Char} (hr : RulePlain r) (hsep : sep = '|' ∨ sep = ';') :
    sep ∉ ruleText r := by
  have hbool : ∀ b, sep ∉ printBool b := by
    intro b
    apply not_mem_printBool
    rcases hsep with rfl | rfl <;> decide
  have hcap : ¬ ('A' ≤ sep ∧ sep ≤ 'Z') := by rcases hsep with rfl | rfl <;> decide
  have hslash : sep ≠ '/' := by rcases hsep with rfl | rfl <;> decide
  have hnet : sep ∉ printNet r.net := by
    apply not_mem_printNet
    all_goals rcases hsep with rfl | rfl <;> decide
  have hmethods : sep ∉ printMethods r.methods := by
    apply not_mem_printMethods hr hcap
    rcases hsep with rfl | rfl <;> decide
  simp only [ruleText, List.mem_append, List.mem_cons, not_or]
  exact ⟨⟨⟨⟨hbool _, hslash, hnet⟩, hslash, not_mem_of_capitals hcap hr.country⟩, hslash, hbool _⟩,
    hslash, hmethods⟩

/-- The rules print alike, in everything that a stream asks them. -/
structure SameRule (r r' : CompiledRule) : Prop where
  allow : r.allow = r'.allow
  net : ∀ ip, r.net.any (·.contains ip) = r'.net.any (·.contains ip)
  country : r.country = r'.country
  unresolved : r.unresolved = r'.unresolved
  methods : r.methods.isSome = r'.methods.isSome

theorem sameRule_of_ruleText (hr : RulePlain r) (hr' : RulePlain r')
    (h : ruleText r = ruleText r') : SameRule r r' := by
  have hbool : ∀ b, '/' ∉ printBool b := not_mem_printBool (by decide)
  have hcountry : ∀ {r : CompiledRule}, RulePlain r → '/' ∉ r.country.toList :=
    fun hr => not_mem_of_capitals (by decide) hr.country
  have hmethods : ∀ {r : CompiledRule}, RulePlain r → '/' ∉ printMethods r.methods :=
    fun hr => not_mem_printMethods hr (by decide) (by decide)
  obtain ⟨h, hms⟩ := eq_of_last (hmethods hr) (hmethods hr') h
  obtain ⟨h, hunresolved⟩ := eq_of_last (hbool _) (hbool _) h
  obtain ⟨h, hc⟩ := eq_of_last (hcountry hr) (hcountry hr') h
  obtain ⟨hallow, hnet⟩ := eq_of_first (hbool _) (hbool _) h
  exact ⟨printBool_injective hallow, contains_of_printNet hnet, String.toList_inj.mp hc,
    printBool_injective hunresolved, isSome_of_printMethods hr hr' hms⟩

variable {env : Env}

/-! ### Lists of the store

Validation and compilation leave rules of which every part is printed so that it can be told
apart. -/

/-- The list is one that `AccessList.Validate` lets into the store. -/
def StoredList (env : Env) (a : AccessList) : Prop :=
  ∃ (salt : Nat → Salt) (prev : List AccessUser) (input : AccessListInput),
    input.validate env.lib salt prev = .ok a

/-- A stored list as a reload compiled it. -/
def Compiled (env : Env) (c : CompiledAccess) : Prop :=
  ∃ a geo ban dns vpnMatch, StoredList env a ∧
    c = reloadAccess env.lib.caseTable a geo ban dns vpnMatch

theorem capitals_of_method {m : String} (h : m ∈ validHTTPMethods) :
    ∀ c ∈ m.toList, 'A' ≤ c ∧ c ≤ 'Z' := by
  have hall : (validHTTPMethods.all fun m => m.toList.all fun c => 'A' ≤ c && c ≤ 'Z') = true := by
    decide
  intro c hc
  have hchar := List.all_eq_true.mp (List.all_eq_true.mp hall m h) c hc
  simpa using hchar

theorem mem_compileMethods {table : CaseTable} {methods ms : List String} {m : String}
    (hknown : ∀ m ∈ methods, m ∈ validHTTPMethods) (h : compileMethods table methods = some ms)
    (hm : m ∈ ms) : m ∈ validHTTPMethods := by
  have hupper : methods.map (toUpper table) = methods := by
    conv_rhs => rw [← List.map_id methods]
    exact List.map_congr_left fun m hm => (normal_of_method (hknown m hm)).2
  unfold compileMethods at h
  split at h
  · cases h
  · simp only [hupper, Option.some.injEq] at h
    subst h
    split at hm
    · rcases List.mem_cons.mp hm with rfl | hm
      · decide
      · exact hknown m hm
    · exact hknown m hm

theorem rulePlain_of_compileRule {table : CaseTable} {a : AccessRule} {ips : List IP}
    (hcountry : a.country = "" ∨ isCountryCode a.country = true)
    (hknown : ∀ m ∈ a.methods, m ∈ validHTTPMethods) :
    ∀ r ∈ compileRule table a ips, RulePlain r := by
  have hmethods : ∀ ms, compileMethods table a.methods = some ms →
      ms ≠ [] ∧ ∀ m ∈ ms, ∀ c ∈ m.toList, 'A' ≤ c ∧ c ≤ 'Z' := by
    intro ms hms
    refine ⟨?_, fun m hm => capitals_of_method (mem_compileMethods hknown hms hm)⟩
    rintro rfl
    unfold compileMethods at hms
    split at hms
    · cases hms
    · rename_i hne
      have hnil := Option.some.inj hms
      split at hnil
      · cases hnil
      · exact hne (List.map_eq_nil_iff.mp hnil)
  have hletters : ∀ c ∈ a.country.toList, 'A' ≤ c ∧ c ≤ 'Z' := by
    intro c hc
    rcases hcountry with hblank | hcode
    · simp [hblank] at hc
    · unfold isCountryCode at hcode
      simpa using List.all_eq_true.mp (Bool.and_eq_true_iff.mp hcode).2 c hc
  intro r hr
  unfold compileRule at hr
  split at hr
  · obtain rfl := List.mem_singleton.mp hr
    exact ⟨by simp, hmethods, fun _ => ⟨rfl, rfl, rfl⟩⟩
  · split at hr
    · split at hr
      all_goals
        obtain rfl := List.mem_singleton.mp hr
        exact ⟨by simp, hmethods, fun hvpn => by cases hvpn⟩
    · split at hr
      · split at hr
        · obtain rfl := List.mem_singleton.mp hr
          exact ⟨by simp, hmethods, fun hvpn => by cases hvpn⟩
        · obtain ⟨ip, -, rfl⟩ := List.mem_map.mp hr
          exact ⟨by simp, hmethods, fun hvpn => by cases hvpn⟩
      · split at hr
        · obtain rfl := List.mem_singleton.mp hr
          exact ⟨hletters, hmethods, fun hvpn => by cases hvpn⟩
        · cases hr

theorem mem_compileRules {table : CaseTable} {dns : DnsCache} {rules : List AccessRule}
    (h : r ∈ compileRules table dns rules) : ∃ a ∈ rules, ∃ ips, r ∈ compileRule table a ips := by
  induction rules generalizing dns with
  | nil => simp [compileRules, answers] at h
  | cons a rest ih =>
      rw [compileRules_cons] at h
      rcases List.mem_append.mp h with h | h
      · exact ⟨a, List.mem_cons_self, _, h⟩
      · obtain ⟨a', ha', ips, hr⟩ := ih h
        exact ⟨a', List.mem_cons_of_mem _ ha', ips, hr⟩

/-- A compiled list that came from the store. -/
structure ListPlain (c : CompiledAccess) : Prop where
  satisfy : '|' ∉ c.satisfy.toList
  rules : ∀ r ∈ c.rules, RulePlain r

theorem Compiled.plain {c : CompiledAccess} (h : Compiled env c) : ListPlain c := by
  obtain ⟨a, geo, ban, dns, vpnMatch, ⟨salt, prev, input, hstored⟩, rfl⟩ := h
  obtain ⟨rules, users, -, hsatisfy, -, hrules, -, rfl⟩ := validate_eq_ok.mp hstored
  constructor
  · change '|' ∉ (satisfyOf input.satisfy).toList
    by_cases hany : satisfyOf input.satisfy = "any"
    · rw [hany]
      decide
    · have hall : satisfyOf input.satisfy = "all" := by
        by_contra hnot
        exact hsatisfy ⟨hany, hnot⟩
      rw [hall]
      decide
  · intro r hr
    obtain ⟨a, ha, ips, hcompiled⟩ := mem_compileRules hr
    obtain ⟨b, -, i, hrule⟩ := exists_of_forall₂_right (each_eq_ok hrules) ha
    obtain ⟨vpn, methods, -, -, -, -, hcountry, hmethods, rfl⟩ := validateRule_eq_ok.mp hrule
    apply rulePlain_of_compileRule ?_ (normalizeMethods_eq_ok hmethods).2 r hcompiled
    by_cases hblank : b.country = ""
    · exact Or.inl (if_pos hblank)
    · right
      rw [show given (capitals env.lib) b.country = capitals env.lib b.country from if_neg hblank]
      by_contra hnot
      exact hcountry ⟨hblank, by simpa using hnot⟩

/-- Texts that end with the same character come apart. -/
theorem forall₂_of_flatMap {α β : Type} {f : α → List Char} {g : β → List Char} {stop : Char}
    {R : α → β → Prop} {as : List α} {bs : List β} (ha : ∀ a ∈ as, stop ∉ f a)
    (hb : ∀ b ∈ bs, stop ∉ g b) (hR : ∀ a ∈ as, ∀ b ∈ bs, f a = g b → R a b)
    (h : (as.flatMap fun a => f a ++ [stop]) = bs.flatMap fun b => g b ++ [stop]) :
    List.Forall₂ R as bs := by
  induction as generalizing bs with
  | nil =>
      cases bs with
      | nil => exact .nil
      | cons b bs => simp at h
  | cons a as ih =>
      cases bs with
      | nil => simp at h
      | cons b bs =>
          simp only [List.flatMap_cons, List.append_assoc, List.singleton_append] at h
          obtain ⟨hhead, hrest⟩ :=
            eq_of_first (ha a List.mem_cons_self) (hb b List.mem_cons_self) h
          apply List.Forall₂.cons (hR a List.mem_cons_self b List.mem_cons_self hhead)
          exact ih (fun a h => ha a (List.mem_cons_of_mem _ h))
            (fun b h => hb b (List.mem_cons_of_mem _ h))
            (fun a h b h' => hR a (List.mem_cons_of_mem _ h) b (List.mem_cons_of_mem _ h')) hrest

/-- What a stream asks of two rules that print alike. -/
theorem SameRule.answer (h : SameRule r r') (hr : RulePlain r) (hr' : RulePlain r')
    {c c' : CompiledAccess} (hgeo : c.geo = c'.geo) (ip : IP) :
    ruleAnswer c ip "" true none r = ruleAnswer c' ip "" true none r' := by
  have hvpn : ∀ {c : CompiledAccess} {r : CompiledRule}, RulePlain r →
      ruleAnswer c ip "" true none r =
        if r.methods.isSome && r.allow then none else addressAnswer c.geo ip r := by
    intro c r hr
    have hskips : r.skips "" true = (r.methods.isSome && r.allow) := by
      cases hm : r.methods <;> simp [CompiledRule.skips, hm]
    rw [ruleAnswer, hskips]
    cases hv : r.vpn with
    | none => simp
    | some subject =>
        obtain ⟨hnet, hcountry, hunresolved⟩ := hr.vpn (by simp [hv])
        simp [vpnAnswer, addressAnswer, hnet, hcountry, hunresolved]
  rw [hvpn hr, hvpn hr', h.methods, h.allow, hgeo]
  simp only [addressAnswer, CompiledRule.closedAnswer, h.allow, h.unresolved, h.country, h.net]

theorem findSome?_of_forall₂ {α β γ : Type} {f : α → Option γ} {g : β → Option γ} {as : List α}
    {bs : List β} (h : List.Forall₂ (fun a b => f a = g b) as bs) :
    as.findSome? f = bs.findSome? g := by
  induction h with
  | nil => rfl
  | cons hab _ ih => rw [List.findSome?_cons, List.findSome?_cons, hab, ih]

theorem hasUsers_eq (c : CompiledAccess) (geo : Option (IP → String)) :
    hasUsers { c with geo } = decide (0 < GoMap.len c.users) := by
  rw [hasUsers, GoMap.len, GoMap.pairs, List.length_map]
  cases c.users.entries <;> simp

/-- **The fingerprint of a list decides its verdicts**, whatever the database says. -/
theorem l4Allowed_of_fingerprint {c c' : CompiledAccess} (hc : ListPlain c) (hc' : ListPlain c')
    (h : fingerprint c = fingerprint c') (geo : Option (IP → String)) (addr : String) :
    l4Allowed { c with geo } addr = l4Allowed { c' with geo } addr := by
  have hrules : ∀ {c : CompiledAccess}, ListPlain c →
      '|' ∉ c.rules.flatMap fun r => ruleText r ++ [';'] := by
    intro c hc hmem
    obtain ⟨r, hr, hmem⟩ := List.mem_flatMap.mp hmem
    rcases List.mem_append.mp hmem with hmem | hmem
    · exact not_mem_ruleText (hc.rules r hr) (Or.inl rfl) hmem
    · exact absurd hmem (by decide)
  have hbool : ∀ (c : Char) b, c ≠ '|' → '|' ∉ c :: printBool b := by
    intro c b hne
    rw [List.mem_cons, not_or]
    exact ⟨hne.symm, not_mem_printBool (by decide) b⟩
  have hcount : ∀ n, '|' ∉ 'u' :: itoa n := by
    intro n
    rw [List.mem_cons, not_or]
    exact ⟨by decide, not_mem_itoa (by decide) n⟩
  -- the name may have separators: the text is read from its end
  obtain ⟨h, htext⟩ := eq_of_last (hrules hc) (hrules hc') h
  obtain ⟨h, husers⟩ := eq_of_last (hcount _) (hcount _) h
  obtain ⟨h, hdeny⟩ := eq_of_last (hbool 'd' _ (by decide)) (hbool 'd' _ (by decide)) h
  obtain ⟨h, hrestricted⟩ := eq_of_last (hbool 'r' _ (by decide)) (hbool 'r' _ (by decide)) h
  obtain ⟨-, hsatisfy⟩ := eq_of_last hc.satisfy hc'.satisfy h
  have hsat : c.satisfy = c'.satisfy := String.toList_inj.mp hsatisfy
  have hre : c.restricted = c'.restricted := printBool_injective (List.cons.inj hrestricted).2
  have hhas : hasUsers { c with geo } = hasUsers { c' with geo } := by
    rw [hasUsers_eq, hasUsers_eq, itoa_injective (List.cons.inj husers).2]
  have hrule : ∀ ip, ∀ r ∈ c.rules, ∀ r' ∈ c'.rules, ruleText r = ruleText r' →
      ruleAnswer { c with geo } ip "" true none r = ruleAnswer { c' with geo } ip "" true none
        r' := by
    intro ip r hr r' hr' heq
    have hplain := hc.rules r hr
    have hplain' := hc'.rules r' hr'
    exact (sameRule_of_ruleText hplain hplain' heq).answer hplain hplain' rfl ip
  have hevaluate : evaluate { c with geo } addr "" true none =
      evaluate { c' with geo } addr "" true none := by
    refine evaluate_congr (printBool_injective (List.cons.inj hdeny).2) hre rfl ?_
    intro ip ip' hip hip'
    obtain rfl := Option.some.inj (hip.symm.trans hip')
    apply findSome?_of_forall₂
    exact forall₂_of_flatMap (fun r hr => not_mem_ruleText (hc.rules r hr) (Or.inr rfl))
      (fun r hr => not_mem_ruleText (hc'.rules r hr) (Or.inr rfl)) (hrule ip) htext
  rw [l4Allowed, l4Allowed, hhas, hevaluate]
  simp only [hsat, hre]

/-! ### What a stored stream is printed with

What validation lets into the store has no blanks and bars in it. -/

section

variable {sep : Char} (hdigit : hexDigit sep = none) (hcolon : sep ≠ ':') (hdot : sep ≠ '.')
include hdigit hcolon hdot

theorem not_mem_of_validHostName (hhost : isHostChar sep = false) {s : String}
    (h : validHostName s = true) : sep ∉ s.toList := by
  unfold validHostName at h
  simp only [Bool.and_eq_true, Bool.or_eq_true] at h
  rcases h.2 with hip | hlabels
  · obtain ⟨ip, hip⟩ := Option.isSome_iff_exists.mp hip
    unfold parseIP at hip
    split at hip
    · rename_i x hparsed
      exact not_mem_of_parseAddr hdigit hcolon hdot hparsed rfl
    · rename_i x zone hparsed
      split at hip
      · rename_i hzone
        exact not_mem_of_parseAddr hdigit hcolon hdot hparsed hzone
      · cases hip
    · cases hip
  · have hname : ∀ name : List Char, ((name.splitOn '.').all fun label =>
        label ≠ [] && label.length ≤ 63 && label.head? ≠ some '-' && label.getLast? ≠ some '-' &&
          label.all isHostChar) = true → sep ∉ name := by
      intro name hall hmem
      have hjoin : ['.'].intercalate (name.splitOn '.') = name := List.intercalate_splitOn '.'
      rw [← hjoin] at hmem
      rcases mem_of_mem_intercalate hmem with hc | ⟨label, hlabel, hc⟩
      · exact hdot hc
      · have hchars := (Bool.and_eq_true_iff.mp (List.all_eq_true.mp hall label hlabel)).2
        rw [List.all_eq_true.mp hchars sep hc] at hhost
        cases hhost
    have hnot := hname _ hlabels
    split at hnot
    · rename_i hlast
      intro hmem
      rw [← List.dropLast_append_getLast? '.' hlast] at hmem
      rcases List.mem_append.mp hmem with hc | hc
      · exact hnot hc
      · exact hdot (List.mem_singleton.mp hc)
    · exact hnot

theorem not_mem_of_parseCIDR (hslash : sep ≠ '/') {s : List Char}
    (h : (parseCIDR s).isSome = true) :
    sep ∉ s := by
  obtain ⟨n, h⟩ := Option.isSome_iff_exists.mp h
  unfold parseCIDR at h
  split at h
  · rename_i text mask hcut
    split at h
    · rename_i a haddr
      simp only at h
      split at h
      · rename_i hok
        obtain ⟨hzone, -, hmask, -⟩ := hok
        have hdecimal : sep ∉ mask := by
          intro hmem
          rw [hexDigit, if_pos (List.all_eq_true.mp hmask sep hmem)] at hdigit
          cases hdigit
        rw [cut_true hcut]
        simp only [List.mem_append, List.mem_cons, not_or]
        exact ⟨not_mem_of_parseAddr hdigit hcolon hdot haddr hzone, hslash, hdecimal⟩
      · cases h
    · cases h
  · cases h

end

/-- The words of a list are printed so that they come apart, and a bar ends them. -/
def Words (words : List String) : Prop :=
  ∀ w ∈ words, w.toList ≠ [] ∧ ' ' ∉ w.toList ∧ '|' ∉ w.toList

theorem Words.eq_of_printList {words words' : List String} (h : Words words) (h' : Words words')
    (heq : printList (words.map String.toList) = printList (words'.map String.toList)) :
    words = words' := by
  have hwords : ∀ {words : List String}, Words words →
      (∀ w ∈ words.map String.toList, ' ' ∉ w) ∧ (words.map String.toList).head? ≠ some [] := by
    intro words h
    constructor
    · intro w hw
      obtain ⟨s, hs, rfl⟩ := List.mem_map.mp hw
      exact (h s hs).2.1
    · intro hhead
      obtain ⟨s, hs, hnil⟩ := List.mem_map.mp (List.mem_of_head? hhead)
      exact (h s hs).1 hnil
  have hjoin := List.append_cancel_right (List.cons.inj heq).2
  exact (List.map_injective_iff.mpr fun _ _ => String.toList_inj.mp)
    (joinSpace_injective (hwords h).1 (hwords h').1 (hwords h).2 (hwords h').2 hjoin)

theorem Words.not_mem {words : List String} (h : Words words) :
    '|' ∉ printList (words.map String.toList) := by
  have hjoin : '|' ∉ joinSpace (words.map String.toList) := by
    apply not_mem_joinSpace (by decide)
    intro w hw
    obtain ⟨s, hs, rfl⟩ := List.mem_map.mp hw
    exact (h s hs).2.2
  simp only [printList, List.mem_append, List.mem_cons, not_or]
  exact ⟨⟨by decide, hjoin⟩, by decide⟩

theorem words_of_parseCIDR {words : List String}
    (h : ∀ w ∈ words, (parseCIDR w.toList).isSome = true) : Words words := by
  intro w hw
  refine ⟨?_, not_mem_of_parseCIDR (by decide) (by decide) (by decide) (by decide) (h w hw),
    not_mem_of_parseCIDR (by decide) (by decide) (by decide) (by decide) (h w hw)⟩
  intro hnil
  have hw := h w hw
  rw [hnil] at hw
  exact absurd hw (by decide)

/-- The texts of a stored stream, beside its server names, which may be any. -/
structure StreamPlain (s : Stream) : Prop where
  host : '|' ∉ s.forwardHost.toList ∧ '>' ∉ s.forwardHost.toList
  sendProxy : s.sendProxyProtocol ∈ ["", "v1", "v2"]
  trusted : Words s.trustedProxies
  allowed : Words s.allowedCIDRs
  routes : ∀ r ∈ s.sniRoutes, ' ' ∉ r.forwardHost.toList ∧ '|' ∉ r.forwardHost.toList

variable {lib : Lib}

theorem words_of_validateNet {what : String} {cidrs stored : List String}
    (h : each (validateNet lib what) 1 cidrs = .ok stored) : Words stored := by
  apply words_of_parseCIDR
  intro w hw
  obtain ⟨c, -, i, hnet⟩ := exists_of_forall₂_right (each_eq_ok h) hw
  simp only [validateNet, bind_eq_ok, refuseIf_eq_ok, pure_eq_ok] at hnet
  obtain ⟨-, hparses, rfl⟩ := hnet
  by_contra hnot
  exact hparses (if_neg hnot)

theorem streamPlain_of_checkFields {reserved : List Int} {st st' : Stream}
    (h : st.checkFields lib reserved = .ok st') : StreamPlain st' := by
  simp only [Stream.checkFields, validateForward, bind_eq_ok, refuseIf_eq_ok, pure_eq_ok,
    not_not] at h
  obtain ⟨-, -, _, -, -, ⟨-, -, -, hhost, -, -, -, -, -, -, -, hsend, -⟩, tp, htrusted, -, -,
    sni, hsni,
    cidrs, hcidrs, rfl⟩ := h
  refine ⟨?_, hsend, ?_, words_of_validateNet hcidrs, ?_⟩
  · by_cases hblank : trim st.forwardHost = ""
    · simp [hblank]
    · have hvalid : validHostName (trim st.forwardHost) = true := by
        by_contra hnot
        exact hhost ⟨hblank, by simpa using hnot⟩
      exact ⟨not_mem_of_validHostName (by decide) (by decide) (by decide) (by decide) hvalid,
        not_mem_of_validHostName (by decide) (by decide) (by decide) (by decide) hvalid⟩
  · unfold validateTrusted at htrusted
    split at htrusted
    · simp only [bind_eq_ok] at htrusted
      obtain ⟨_, -, heach⟩ := htrusted
      exact words_of_validateNet heach
    · obtain rfl := Except.ok.inj htrusted
      intro w hw
      cases hw
  · intro r hr
    obtain ⟨sr, -, i, hroute⟩ := exists_of_forall₂_right (each_eq_ok hsni) hr
    simp only [validateSNIRoute, bind_eq_ok, refuseIf_eq_ok, pure_eq_ok,
      Bool.not_eq_false] at hroute
    obtain ⟨-, -, -, -, -, hvalid, rfl⟩ := hroute
    exact ⟨not_mem_of_validHostName (by decide) (by decide) (by decide) (by decide) hvalid,
      not_mem_of_validHostName (by decide) (by decide) (by decide) (by decide) hvalid⟩

def StoredStream (env : Env) (s : Stream) : Prop :=
  ∃ others reserved id input, Stream.validate env.lib others reserved id input = .ok s

theorem StoredStream.plain {s : Stream} (h : StoredStream env s) : StreamPlain s := by
  obtain ⟨others, reserved, id, input, hvalid⟩ := h
  simp only [Stream.validate, bind_eq_ok, pure_eq_ok] at hvalid
  obtain ⟨st, hfields, -, -, rfl⟩ := hvalid
  exact streamPlain_of_checkFields hfields

theorem not_mem_hostPort {sep : Char} {host : String} (hhost : sep ∉ host.toList)
    (h : sep ∉ "[]:-".toList) (hdigit : sep.isDigit = false) (port : Int) :
    sep ∉ (hostPort host port).toList := by
  have hport : sep ∉ (printInt port).toList := by
    apply not_mem_printInt ?_ hdigit
    rintro rfl
    exact h (by decide)
  have hmarks : sep ≠ '[' ∧ sep ≠ ']' ∧ sep ≠ ':' := by
    refine ⟨?_, ?_, ?_⟩
    all_goals
      rintro rfl
      exact h (by decide)
  rw [hostPort, String.toList_ofList, joinHostPort]
  split <;> simp [hhost, hport, hmarks]

theorem not_mem_hexEncode {sep : Char} (h : sep ∉ "0123456789abcdef".toList) (bytes : List UInt8) :
    sep ∉ hexEncode bytes := by
  have hdigit : ∀ n < 16, Nat.digitChar n ∈ "0123456789abcdef".toList := by decide
  intro hmem
  obtain ⟨b, -, hb⟩ := List.mem_flatMap.mp hmem
  have hlt := b.toNat_lt
  simp only [List.mem_cons, List.not_mem_nil, or_false] at hb
  rcases hb with rfl | rfl
  · exact h (hdigit _ (by omega))
  · exact h (hdigit _ (by omega))

theorem not_mem_leafDigest {sep : Char} (h : sep ∉ "0123456789abcdef".toList)
    (sum256 : List UInt8 → List UInt8) (c : Chain) : sep ∉ leafDigest sum256 c := by
  cases c with
  | nil => simp [leafDigest]
  | cons leaf rest => exact not_mem_hexEncode h _

theorem not_mem_certID {sep : Char} (hdash : sep ≠ '-') (hdigit : sep.isDigit = false)
    (certID : Option Int) : sep ∉ (certID.elim "-" printInt).toList := by
  cases certID with
  | none =>
      intro hmem
      exact hdash (List.mem_singleton.mp hmem)
  | some id => exact not_mem_printInt hdash hdigit id

theorem certID_injective {certID certID' : Option Int}
    (h : certID.elim "-" printInt = certID'.elim "-" printInt) : certID = certID' := by
  have hdash : ∀ n, printInt n ≠ "-" := by
    intro n heq
    have hlist := congrArg String.toList heq
    rw [printInt, String.toList_ofList] at hlist
    split at hlist
    · exact itoa_ne_nil _ (List.cons.inj hlist).2
    · have hmem : '-' ∈ itoa n.natAbs := by
        rw [hlist]
        decide
      exact absurd (isDigit_of_mem_itoa hmem) (by decide)
  cases certID with
  | none =>
      cases certID' with
      | none => rfl
      | some id' => exact absurd h.symm (hdash id')
  | some id =>
      cases certID' with
      | none => exact absurd h (hdash id)
      | some id' => exact congrArg some (printInt_injective h)

/-! ### Signatures

The parts of a signature are told apart by the marks between them, which the parts themselves
do not have. -/

variable {l l' : Loaders} {id id' : Int} {s s' : Stream}

/-- The parts of the two signatures that say what they stand for agree. -/
structure Alike (s s' : Stream) : Prop where
  target : hostPort s.forwardHost s.forwardPort = hostPort s'.forwardHost s'.forwardPort
  sendProxy : s.sendProxyProtocol = s'.sendProxyProtocol
  acceptProxy : s.acceptProxyProtocol = s'.acceptProxyProtocol
  trustedProxies : s.trustedProxies = s'.trustedProxies
  terminateTLS : s.terminateTLS = s'.terminateTLS
  certID : s.certID = s'.certID
  sniRoutes : s.sniRoutes = s'.sniRoutes
  via : s.via = s'.via

/-- What the signature has only a trace of does not differ behind it: server names that are
printed without quotes, and the certificates after the first. -/
structure ToldApart (env : Env) (l l' : Loaders) (s s' : Stream) : Prop where
  routes : s.via = s'.via → s.sniRoutes = s'.sniRoutes ∨
    ¬ '|' :: sniText s <:+ '|' :: sniText s' ∧ ¬ '|' :: sniText s' <:+ '|' :: sniText s
  chain : Alike s s' → ∀ c c', servedChain l.loadCert s = some c →
    servedChain l'.loadCert s' = some c' → leafDigest env.sum256 c = leafDigest env.sum256 c' →
      c = c'

theorem not_mem_target (hs : StreamPlain s) (port : Int) :
    '|' ∉ (hostPort s.forwardHost port).toList ∧ '>' ∉ (hostPort s.forwardHost port).toList :=
  ⟨not_mem_hostPort hs.host.1 (by decide) (by decide) port,
    not_mem_hostPort hs.host.2 (by decide) (by decide) port⟩

theorem slash_not_mem_sendProxy (hs : StreamPlain s) : '/' ∉ s.sendProxyProtocol.toList := by
  have hall : ∀ v ∈ ["", "v1", "v2"], '/' ∉ v.toList := by decide
  exact hall _ hs.sendProxy

theorem bar_not_mem_proxyText (hs : StreamPlain s) : '|' ∉ proxyText s := by
  have hall : ∀ v ∈ ["", "v1", "v2"], '|' ∉ v.toList := by decide
  simp only [proxyText, List.mem_append, List.mem_cons, not_or]
  exact ⟨⟨⟨by decide, hall _ hs.sendProxy⟩, by decide, not_mem_printBool (by decide) _⟩, by decide,
    hs.trusted.not_mem⟩

theorem proxyText_inj (hs : StreamPlain s) (hs' : StreamPlain s') (h : proxyText s = proxyText s') :
    s.sendProxyProtocol = s'.sendProxyProtocol ∧ s.acceptProxyProtocol = s'.acceptProxyProtocol ∧
      s.trustedProxies = s'.trustedProxies := by
  have hbool : ∀ b, '/' ∉ printBool b := not_mem_printBool (by decide)
  simp only [proxyText, List.append_assoc, List.cons_append] at h
  obtain ⟨hsend, h⟩ :=
    eq_of_first (slash_not_mem_sendProxy hs) (slash_not_mem_sendProxy hs')
      (List.append_cancel_left h)
  obtain ⟨haccept, htrusted⟩ := eq_of_first (hbool _) (hbool _) h
  exact ⟨String.toList_inj.mp hsend, printBool_injective haccept,
    hs.trusted.eq_of_printList hs'.trusted htrusted⟩

def digestText (env : Env) (loadCert : Option (Int → Option Chain)) (s : Stream) : List Char :=
  (servedChain loadCert s).elim [] (leafDigest env.sum256)

theorem not_mem_digestText {sep : Char} (h : sep ∉ "0123456789abcdef".toList)
    (loadCert : Option (Int → Option Chain)) (s : Stream) : sep ∉ digestText env loadCert s := by
  unfold digestText
  cases servedChain loadCert s with
  | none => simp
  | some c => exact not_mem_leafDigest h _ c

theorem bar_not_mem_tlsText (loadCert : Option (Int → Option Chain)) (s : Stream) :
    '|' ∉ tlsText env loadCert s := by
  simp only [tlsText, List.mem_append, List.mem_cons, not_or]
  exact ⟨⟨⟨by decide, not_mem_printBool (by decide) _⟩, by decide,
    not_mem_certID (by decide) (by decide) _⟩, by decide, not_mem_digestText (by decide) loadCert s⟩

theorem tlsText_inj {loadCert loadCert' : Option (Int → Option Chain)}
    (h : tlsText env loadCert s = tlsText env loadCert' s') :
    s.terminateTLS = s'.terminateTLS ∧ s.certID = s'.certID ∧
      digestText env loadCert s = digestText env loadCert' s' := by
  obtain ⟨h, hdigest⟩ := eq_of_last (not_mem_digestText (by decide) _ _)
    (not_mem_digestText (by decide) _ _) h
  obtain ⟨h, hid⟩ := eq_of_last (not_mem_certID (by decide) (by decide) _)
    (not_mem_certID (by decide) (by decide) _) h
  exact ⟨printBool_injective (List.append_cancel_left h),
    certID_injective (String.toList_inj.mp hid),
    hdigest⟩

theorem bar_not_mem_viaText (s : Stream) : '|' ∉ viaText s := by
  simp only [viaText, List.mem_append, not_or]
  exact ⟨by decide, not_mem_printInt (by decide) (by decide) _⟩

/-- What two equal signatures say, when the server names are told apart. -/
theorem alike_of_sig (hs : StreamPlain s) (hs' : StreamPlain s')
    (htold : s.via = s'.via → s.sniRoutes = s'.sniRoutes ∨
      ¬ '|' :: sniText s <:+ '|' :: sniText s' ∧ ¬ '|' :: sniText s' <:+ '|' :: sniText s)
    (h : (buildStreamSpec env l id s).sig = (buildStreamSpec env l' id' s').sig) :
    Alike s s' ∧ (sourceFilter l.resolveACL s).srcSig = (sourceFilter l'.resolveACL s').srcSig ∧
      digestText env l.loadCert s = digestText env l'.loadCert s' := by
  obtain ⟨h, hvia⟩ := eq_of_last (bar_not_mem_viaText s) (bar_not_mem_viaText s') h
  have hvia : s.via = s'.via :=
    printInt_injective (String.toList_inj.mp (List.append_cancel_left hvia))
  have hroutes : s.sniRoutes = s'.sniRoutes := by
    rcases htold hvia with hroutes | ⟨hnot, hnot'⟩
    · exact hroutes
    · -- one text of routes would end the other
      rcases List.suffix_or_suffix_of_suffix ⟨_, h⟩ ⟨_, rfl⟩ with hsuffix | hsuffix
      · exact absurd hsuffix hnot
      · exact absurd hsuffix hnot'
  rw [show sniText s = sniText s' by rw [sniText, sniText, hroutes]] at h
  have h := List.append_cancel_right h
  obtain ⟨h, htls⟩ := eq_of_last (bar_not_mem_tlsText _ s) (bar_not_mem_tlsText _ s') h
  obtain ⟨h, hproxy⟩ := eq_of_last (bar_not_mem_proxyText hs) (bar_not_mem_proxyText hs') h
  obtain ⟨htarget, hsrc⟩ := eq_of_first (not_mem_target hs _).1 (not_mem_target hs' _).1 h
  obtain ⟨hsend, haccept, htrusted⟩ := proxyText_inj hs hs' hproxy
  obtain ⟨hterminate, hid, hdigest⟩ := tlsText_inj htls
  exact ⟨⟨String.toList_inj.mp htarget, hsend, haccept, htrusted, hterminate, hid, hroutes, hvia⟩,
    hsrc, hdigest⟩

/-- The loaders give compiled lists of the store. -/
def Loaders.FromStore (env : Env) (l : Loaders) : Prop :=
  ∀ resolve id c, l.resolveACL = some resolve → resolve id = some c → Compiled env c

/-! ### What equal signatures decide

A filter is none, a list of networks, or an access list; each is told by its part of the
signature. -/

/-- A source filter that has not failed is one of three. -/
theorem sourceFilter_cases (hl : l.FromStore env) (hs : StreamPlain s)
    (hok : (sourceFilter l.resolveACL s).failure = none) :
    (∃ acl, ListPlain acl ∧
      sourceFilter l.resolveACL s = ⟨some acl, [], true, "acl:".toList ++ fingerprint acl, none⟩) ∨
    (∃ cidrs, Words cidrs ∧
      sourceFilter l.resolveACL s =
        ⟨none, parseNets cidrs, true, printList (cidrs.map String.toList), none⟩) ∨
    sourceFilter l.resolveACL s = ⟨none, [], false, [], none⟩ := by
  unfold sourceFilter at hok ⊢
  cases hlist : s.accessListID with
  | some id =>
      left
      simp only [hlist, listFilter] at hok ⊢
      cases hfound : l.resolveACL.bind (· id) with
      | none => simp [hfound] at hok
      | some acl =>
          obtain ⟨resolve, hresolve, hacl⟩ := Option.bind_eq_some_iff.mp hfound
          exact ⟨acl, (hl resolve id acl hresolve hacl).plain, rfl⟩
  | none =>
      right
      simp only [hlist] at hok ⊢
      by_cases hempty : s.allowedCIDRs = []
      · right
        rw [if_pos hempty]
      · left
        rw [if_neg hempty] at hok ⊢
        refine ⟨s.allowedCIDRs, hs.allowed, ?_⟩
        unfold cidrFilter at hok ⊢
        simp only at hok
        rw [hok]

theorem allowed_of_srcSig (hl : l.FromStore env) (hl' : l'.FromStore env) (hs : StreamPlain s)
    (hs' : StreamPlain s') (hok : (sourceFilter l.resolveACL s).failure = none)
    (hok' : (sourceFilter l'.resolveACL s').failure = none)
    (h : (sourceFilter l.resolveACL s).srcSig = (sourceFilter l'.resolveACL s').srcSig)
    (id id' : Int) (geo : Option (IP → String)) (addr : String) :
    (buildStreamSpec env l id s).allowed geo addr = (buildStreamSpec env l' id' s').allowed geo
    addr := by
  have hne : ∀ (fp : List Char) (words : List (List Char)), "acl:".toList ++
    fp ≠ printList words := by
    intro fp words heq
    have hhead : some 'a' = some '[' := congrArg List.head? heq
    exact absurd hhead (by decide)
  unfold StreamSpec.allowed buildStreamSpec
  simp only
  rcases sourceFilter_cases hl hs hok with ⟨acl, hacl, heq⟩ | ⟨cidrs, hwords, heq⟩ | heq
  all_goals
    rcases sourceFilter_cases hl' hs' hok' with ⟨acl', hacl', heq'⟩ | ⟨cidrs', hwords', heq'⟩ | heq'
    all_goals
      simp only [heq, heq'] at h ⊢
  · exact l4Allowed_of_fingerprint hacl hacl' (List.append_cancel_left h) geo addr
  · exact absurd h (hne _ _)
  · cases h
  · exact absurd h.symm (hne _ _)
  · rw [hwords.eq_of_printList hwords' h]
  · cases h
  · cases h
  · cases h

def portSuffix (s : Stream) (port : Int) : List Char :=
  if s.rangeEnd = s.listenPort then [] else '|' :: portText s port ++ '|' :: fromText s

/-- The specification of a port is that of its stream with the port's own target. -/
theorem portSpec_buildStreamSpec (env : Env) (l : Loaders) (id : Int) (s : Stream) (port : Int) :
    portSpec (buildStreamSpec env l id s) s port =
      { buildStreamSpec env l id s with
        target := hostPort s.forwardHost (s.forwardPortFor port)
        tcp :=
          { (buildStreamSpec env l id s).tcp with
            defaultDest := hostPort s.forwardHost (s.forwardPortFor port) }
        sig := (buildStreamSpec env l id s).sig ++ portSuffix s port } := by
  unfold portSpec portSuffix
  by_cases hsingle : s.rangeEnd = s.listenPort
  · simp [hsingle, Stream.forwardPortFor, buildStreamSpec]
  · simp [hsingle]

/-- A port's own target is told by its signature. -/
theorem base_of_portSig (hs : StreamPlain s) (hs' : StreamPlain s') {port port' : Int}
    (h : (portSpec (buildStreamSpec env l id s) s port).sig =
      (portSpec (buildStreamSpec env l' id' s') s' port').sig) :
    (buildStreamSpec env l id s).sig = (buildStreamSpec env l' id' s').sig ∧
      (Alike s s' → hostPort s.forwardHost (s.forwardPortFor port) =
        hostPort s'.forwardHost (s'.forwardPortFor port')) := by
  have hfrom : ∀ s, '|' ∉ fromText s := by
    intro s
    simp only [fromText, List.mem_append, not_or]
    exact ⟨by decide, not_mem_printInt (by decide) (by decide) _⟩
  have hport : ∀ {s : Stream} {port : Int}, StreamPlain s → '|' ∉ portText s port := by
    intro s port hs
    simp only [portText, List.mem_append, List.mem_cons, not_or]
    exact ⟨⟨by decide, not_mem_printInt (by decide) (by decide) _⟩, by decide, by decide,
      (not_mem_target hs _).1⟩
  -- a single port's signature ends with its site, that of a range with its first port
  have hmixed : ∀ {env : Env} {l l' : Loaders} {id id' : Int} {s s' : Stream} {port : Int},
      (buildStreamSpec env l id s).sig ≠
        (buildStreamSpec env l' id' s').sig ++ '|' :: portText s' port ++ '|' :: fromText s' := by
    intro env l l' id id' s s' port h
    obtain ⟨-, hend⟩ := eq_of_last (bar_not_mem_viaText s) (hfrom s') h
    have hhead : some 'v' = some 'f' := congrArg List.head? hend
    exact absurd hhead (by decide)
  rw [portSpec_buildStreamSpec, portSpec_buildStreamSpec] at h
  simp only [portSuffix] at h
  split_ifs at h with hsingle hsingle' hsingle'
  · rw [List.append_nil, List.append_nil] at h
    refine ⟨h, fun halike => ?_⟩
    simpa [Stream.forwardPortFor, hsingle, hsingle'] using halike.target
  · rw [List.append_nil, ← List.append_assoc] at h
    exact absurd h hmixed
  · rw [List.append_nil, ← List.append_assoc] at h
    exact absurd h.symm hmixed
  · rw [← List.append_assoc, ← List.append_assoc] at h
    obtain ⟨h, -⟩ := eq_of_last (hfrom s) (hfrom s') h
    obtain ⟨h, hp⟩ := eq_of_last (hport hs) (hport hs') h
    refine ⟨h, fun _ => ?_⟩
    have hp' : ('p' :: (printInt port).toList ++ ['-']) ++
          '>' :: (hostPort s.forwardHost (s.forwardPortFor port)).toList =
        ('p' :: (printInt port').toList ++ ['-']) ++
          '>' :: (hostPort s'.forwardHost (s'.forwardPortFor port')).toList := by
      simpa [portText] using hp
    obtain ⟨-, htarget⟩ := eq_of_last (not_mem_target hs _).2 (not_mem_target hs' _).2 hp'
    exact String.toList_inj.mp htarget

/-- A stream that terminates TLS and has not failed serves a chain. -/
theorem exists_servedChain {loadCert : Option (Int → Option Chain)}
    (hok : certFailure loadCert s = none) (hterminate : s.terminateTLS = true) :
    ∃ c, servedChain loadCert s = some c := by
  unfold certFailure at hok
  rw [if_neg (by simp [hterminate])] at hok
  unfold servedChain
  rw [if_pos hterminate]
  cases hid : s.certID with
  | none => simp [hid] at hok
  | some id =>
      cases hc : usable loadCert id with
      | none => simp [hid, hc] at hok
      | some c => exact ⟨c, hc⟩

/-- **Signatures decide.** Two listeners of stored streams, neither of which has failed, treat
every client alike when their signatures are the same text, as far as the signature tells the
server names and the chains apart. -/
theorem sameDecisions_of_sig (hs : StoredStream env s) (hs' : StoredStream env s')
    (hl : l.FromStore env) (hl' : l'.FromStore env) (htold : ToldApart env l l' s s')
    {port port' : Int}
    (hok : (portSpec (buildStreamSpec env l id s) s port).failure = none)
    (hok' : (portSpec (buildStreamSpec env l' id' s') s' port').failure = none)
    (hsig : (portSpec (buildStreamSpec env l id s) s port).sig =
      (portSpec (buildStreamSpec env l' id' s') s' port').sig) :
    SameDecisions (portSpec (buildStreamSpec env l id s) s port)
      (portSpec (buildStreamSpec env l' id' s') s' port') := by
  obtain ⟨hbase, htarget⟩ := base_of_portSig hs.plain hs'.plain hsig
  obtain ⟨halike, hsrc, hdigest⟩ := alike_of_sig hs.plain hs'.plain htold.routes hbase
  rw [portSpec_buildStreamSpec] at hok hok' ⊢
  rw [portSpec_buildStreamSpec]
  simp only [buildStreamSpec, Option.or_eq_none_iff] at hok hok'
  have hchain : servedChain l.loadCert s = servedChain l'.loadCert s' := by
    cases hterminate : s.terminateTLS with
    | false =>
        have hterminate' : s'.terminateTLS = false := halike.terminateTLS.symm.trans hterminate
        simp [servedChain, hterminate, hterminate']
    | true =>
        have hterminate' : s'.terminateTLS = true := halike.terminateTLS.symm.trans hterminate
        obtain ⟨c, hc⟩ := exists_servedChain hok.2 hterminate
        obtain ⟨c', hc'⟩ := exists_servedChain hok'.2 hterminate'
        rw [digestText, digestText, hc, hc'] at hdigest
        rw [hc, hc', htold.chain halike c c' hc hc' hdigest]
  have htrusted : trustedNets s = trustedNets s' := by
    rw [trustedNets, trustedNets, halike.acceptProxy, halike.trustedProxies]
  exact
    { target := htarget halike
      defaultDest := htarget halike
      sniRoutes := by
        intro name
        simp only [buildStreamSpec, halike.sniRoutes]
      source := allowed_of_srcSig hl hl' hs.plain hs'.plain hok.1.1 hok'.1.1 hsrc id id'
      sendProxy := halike.sendProxy
      acceptProxy := halike.acceptProxy
      trusted := by
        intro addr
        simp only [StreamSpec.trustedPeer, buildStreamSpec, htrusted]
      via := halike.via
      tlsCert := hchain }

/-! ### Server names

A server name is any text; only one with a blank or a bar can be taken for something else. -/

def routeWords (r : SNIRoute) : List (List Char) :=
  ['{' :: r.host.toList, r.forwardHost.toList, (printInt r.forwardPort).toList ++ ['}']]

theorem joinSpace_routes (routes : List SNIRoute) :
    joinSpace (routes.map routeText) = joinSpace (routes.flatMap routeWords) := by
  have hcons : ∀ (r : SNIRoute) (words : List (List Char)), words ≠ [] →
      joinSpace (routeWords r ++ words) = routeText r ++ ' ' :: joinSpace words := by
    intro r words hne
    obtain ⟨word, rest, rfl⟩ := List.exists_cons_of_ne_nil hne
    simp [joinSpace, routeWords, routeText, List.intercalate_cons_cons]
  induction routes with
  | nil => rfl
  | cons r rest ih =>
      cases rest with
      | nil => simp [joinSpace, routeWords, routeText, List.intercalate_cons_cons]
      | cons next rest =>
          rw [List.flatMap_cons, hcons r _ (by simp [routeWords]), ← ih]
          simp [joinSpace, List.intercalate_cons_cons]

theorem routes_of_words {routes routes' : List SNIRoute}
    (h : routes.flatMap routeWords = routes'.flatMap routeWords) : routes = routes' := by
  induction routes generalizing routes' with
  | nil =>
      cases routes' with
      | nil => rfl
      | cons r' rest' => simp [routeWords] at h
  | cons r rest ih =>
      cases routes' with
      | nil => simp [routeWords] at h
      | cons r' rest' =>
          simp only [List.flatMap_cons, routeWords, List.cons_append, List.nil_append,
            List.cons.injEq,
            true_and] at h
          obtain ⟨hhost, hforward, hport, hrest⟩ := h
          have hp : r.forwardPort = r'.forwardPort :=
            printInt_injective (String.toList_inj.mp (List.append_cancel_right hport))
          rw [ih hrest]
          cases r
          cases r'
          simp only [String.toList_inj] at hhost hforward hp
          rw [hhost, hforward, hp]

/-- Server names without a space or a bar, as DNS names are, are told apart. -/
theorem routes_told_of_names (hs : StreamPlain s) (hs' : StreamPlain s')
    (hnames : ∀ r ∈ s.sniRoutes, ' ' ∉ r.host.toList ∧ '|' ∉ r.host.toList)
    (hnames' : ∀ r ∈ s'.sniRoutes, ' ' ∉ r.host.toList ∧ '|' ∉ r.host.toList) :
    s.sniRoutes = s'.sniRoutes ∨
      ¬ '|' :: sniText s <:+ '|' :: sniText s' ∧ ¬ '|' :: sniText s' <:+ '|' :: sniText s := by
  have hbar : ∀ {s : Stream}, StreamPlain s →
      (∀ r ∈ s.sniRoutes, ' ' ∉ r.host.toList ∧ '|' ∉ r.host.toList) → '|' ∉ sniText s := by
    intro s hs hnames
    have hroutes : '|' ∉ joinSpace (s.sniRoutes.map routeText) := by
      apply not_mem_joinSpace (by decide)
      intro word hword
      obtain ⟨r, hr, rfl⟩ := List.mem_map.mp hword
      simp only [routeText, List.mem_append, List.mem_cons, not_or]
      exact ⟨⟨⟨⟨by decide, (hnames r hr).2⟩, by decide, (hs.routes r hr).2⟩, by decide,
        not_mem_printInt (by decide) (by decide) _⟩, by decide⟩
    simp only [sniText, printList, List.mem_append, List.mem_cons, not_or]
    exact ⟨by decide, ⟨by decide, hroutes⟩, by decide⟩
  have hspace : ∀ {s : Stream}, StreamPlain s →
      (∀ r ∈ s.sniRoutes, ' ' ∉ r.host.toList ∧ '|' ∉ r.host.toList) →
      ∀ word ∈ s.sniRoutes.flatMap routeWords, ' ' ∉ word := by
    intro s hs hnames word hword
    obtain ⟨r, hr, hword⟩ := List.mem_flatMap.mp hword
    simp only [routeWords, List.mem_cons, List.not_mem_nil, or_false] at hword
    rcases hword with rfl | rfl | rfl
    · rw [List.mem_cons, not_or]
      exact ⟨by decide, (hnames r hr).1⟩
    · exact (hs.routes r hr).1
    · rw [List.mem_append, not_or]
      exact ⟨not_mem_printInt (by decide) (by decide) _, by decide⟩
  -- a text that ends another from a bar on is the other
  have hsame : ∀ {t t' : List Char}, '|' ∉ t' → '|' :: t <:+ '|' :: t' → t = t' := by
    intro t t' hnot hsuffix
    rcases List.suffix_cons_iff.mp hsuffix with heq | hsuffix
    · exact (List.cons.inj heq).2
    · exact absurd (hsuffix.subset List.mem_cons_self) hnot
  by_cases htext : sniText s = sniText s'
  · left
    have hjoin := List.append_cancel_right (List.cons.inj (List.append_cancel_left htext)).2
    rw [joinSpace_routes, joinSpace_routes] at hjoin
    have hhead : ∀ routes : List SNIRoute, (routes.flatMap routeWords).head? ≠ some [] := by
      intro routes
      cases routes <;> simp [routeWords]
    exact routes_of_words
      (joinSpace_injective (hspace hs hnames) (hspace hs' hnames') (hhead _) (hhead _) hjoin)
  · right
    exact ⟨fun h => htext (hsame (hbar hs' hnames') h),
      fun h => htext (hsame (hbar hs hnames) h).symm⟩

example : sniText
  { Stream.zero with sniRoutes := [⟨"a.example", "one", 1⟩, ⟨"b.example", "two", 2⟩] } =
    sniText { Stream.zero
      with sniRoutes := [⟨"a.example one 1\x7d \x7bb.example", "two", 2⟩] } := by
  decide +kernel

end Quicgate.StreamSpecs
