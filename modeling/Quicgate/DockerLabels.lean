import Quicgate.DockerProvider
import Quicgate.GoMaps

/-!
# The labels of a container

`internal/docker/derive.go` reads the labels of one container and what the daemon says
of its ports, and makes of them a proxy host, a set of raw forwards, and the warnings
that say why a part is missing.  The provider does this for every container that opted
in (`DockerProvider`).

Two steps can go wrong without anybody noticing: a label that asks for a restriction
is dropped, or a port is reached that the container does not publish.  The first is
about the order of the exits of `derive`, the second about the loop over the entries
of the streams label, whose invariant relates each forward to the entry it was made
from.

`derive_asAsked` is the result, for any labels, ports and access lists and any order of the
daemon's maps; `blank_name_publishes` shows the two cases that it leaves out.
-/

namespace Quicgate.DockerLabels

open Quicgate.GoStrings Quicgate.GoMaps Quicgate.Access Quicgate.Checks Quicgate.Store

variable (lib : Lib)

/-! ### Texts

The functions of `strconv` and `strings` that the file uses, and its own readers of lists. -/

def atoi (s : String) : Option Int := parseInt64 s.toList

def splitComma (s : String) : List String := (s.toList.splitOn ',').map String.ofList

/-- `splitCSV`. -/
def splitCSV (s : String) : List String := ((splitComma s).map trim).filter (· ≠ "")

/-- `parsePortList`: the ports the result maps to true. -/
def parsePortList (s : String) : List Int := (splitComma s).filterMap fun part => atoi (trim part)

def truthy (s : String) : Bool :=
  toLower lib.caseTable (trim s) ∈ ["1", "true", "yes", "on", "enable", "enabled"]

def isOff (s : String) : Bool :=
  toLower lib.caseTable (trim s) ∈ ["0", "false", "no", "off", "disable", "disabled"]

def trimStart (c : Char) (s : String) : String :=
  if s.toList.head? = some c then String.ofList s.toList.tail else s

def joinAnd (parts : List String) : String :=
  String.ofList (List.intercalate " and ".toList (parts.map String.toList))

def printInts (ns : List Int) : String :=
  "[" ++ String.ofList (joinSpace (ns.map fun n => (printInt n).toList)) ++ "]"

/-! ### What the daemon says of a container

The declared ports and the published ones, each from a map of the daemon's answer. -/

structure PortBinding where
  hostIP : String
  hostPort : String
deriving DecidableEq

/-- `containerInspect`, less the health and the networks, which `derive` does not
read. -/
structure ContainerInspect where
  id : String -- hexadecimal
  name : String
  labels : GoMap String String
  exposedPorts : GoMap String Unit
  running : Bool
  networkMode : String
  ports : GoMap String (List PortBinding)

def ContainerInspect.nameOf (c : ContainerInspect) : String :=
  let n := trimStart '/' c.name
  if n ≠ "" then n
  else if 12 < c.id.toList.length then String.ofList (c.id.toList.take 12) else c.id

structure PortKey where
  port : Int
  proto : String
deriving DecidableEq

/-- `n < 1 || n > 65535` is refused wherever a port is read. -/
def IsPort (n : Int) : Prop := 1 ≤ n ∧ n ≤ 65535

instance (n : Int) : Decidable (IsPort n) := inferInstanceAs (Decidable (_ ∧ _))

def parsePortKey (key : String) : Option PortKey :=
  let parts := cut '/' key.toList
  let proto := if parts.2.2 then toLower lib.caseTable (String.ofList parts.2.1) else "tcp"
  if proto ≠ "tcp" ∧ proto ≠ "udp" then none
  else (atoi (String.ofList parts.1)).bind fun n => if IsPort n then some ⟨n, proto⟩ else none

def parseExposed (m : GoMap String Unit) : List Int :=
  (GoMap.pairs m).filterMap fun (k, _) =>
    (parsePortKey lib k).bind fun pk => if pk.proto = "tcp" then some pk.port else none

/-- One binding of `parsePublished`: the first one with a number stays. -/
def addBinding (pk : PortKey) (out : GoMap PortKey Int) (b : PortBinding) : GoMap PortKey Int :=
  match atoi b.hostPort with
  | none => out
  | some hp => if out.lookup pk = none then out.insert pk hp else out

def addPublished (out : GoMap PortKey Int) (entry : String × List PortBinding) :
    GoMap PortKey Int :=
  match parsePortKey lib entry.1 with
  | none => out
  | some pk => entry.2.foldl (addBinding pk) out

/-- Each published container port with its first published host port. -/
def parsePublished (range : Range String (List PortBinding))
    (m : GoMap String (List PortBinding)) : GoMap PortKey Int :=
  (range.order m).foldl (addPublished lib) ∅

/-- `reachPlan`: how the ports of a container are reached. -/
structure ReachPlan where
  host : String
  candidates : List Int
  portFor : Int → String → Option Int

def resolvePlan (range : Range String (List PortBinding)) (c : ContainerInspect)
    (address : String) : ReachPlan :=
  let published := parsePublished lib range c.ports
  let cands := (GoMap.pairs published).filterMap fun (k, _) =>
    if k.proto = "tcp" then some k.port else none
  if c.networkMode = "host" then
    let exposed := parseExposed lib c.exposedPorts
    ⟨address, if exposed = [] then cands else exposed, fun cp _ => some cp⟩
  else ⟨address, cands, fun cp proto => published.lookup ⟨cp, proto⟩⟩

/-! ### Unknown labels

An unknown key under the prefix is worth a warning, with the known key that is closest to it. -/

def knownLabels : List String :=
  ["enable", "host", "port", "exclude-ports", "scheme", "tls", "tls-skip-verify", "access-list",
    "streams"]

/-- One row of the table of `editDistance`: `left` is the number before it, and the
list is the row above. -/
def editRow (x : UInt8) : List UInt8 → List Nat → Nat → List Nat
  | y :: ys, p :: q :: above, left =>
      let here := min (min (q + 1) (left + 1)) (p + if x = y then 0 else 1)
      here :: editRow x ys (q :: above) here
  | _, _, _ => []

def editRows (b : List UInt8) : List UInt8 → Nat → List Nat → List Nat
  | [], _, above => above
  | x :: a, i, above => editRows b a (i + 1) (i :: editRow x b above i)

def editDistance (a b : String) : Nat :=
  let bytes := b.toUTF8.data.toList
  (editRows bytes a.toUTF8.data.toList 1 (List.range (bytes.length + 1))).getLastD 0

/-- The known key closest to an unknown one, or `""`. -/
def suggestLabel (short : String) : String :=
  let norm := (toLower lib.caseTable short).map fun c => if c = '_' then '-' else c
  (knownLabels.foldl (fun (best : String × Nat) k =>
    if editDistance norm k < best.2 then (k, editDistance norm k) else best) ("", 3)).1

def shortOf (pfx key : String) : String := String.ofList (key.toList.drop pfx.toList.length)

def unknownKeys (labels : GoMap String String) (pfx : String) : List String :=
  ((labels.keys.filter fun k => pfx.toList.isPrefixOf k.toList).insertionSort (· ≤ ·)).filter
    fun k => shortOf pfx k ∉ knownLabels

def unknownLabels (labels : GoMap String String) (pfx : String) : List String :=
  (unknownKeys labels pfx).map fun k =>
    let s := suggestLabel lib (shortOf pfx k)
    "unknown label " ++ k ++ if s ≠ "" then "; did you mean " ++ pfx ++ s ++ "?" else ""

/-! ### Streams

An entry is `[listen:]container[/proto]`.  The loop gathers forwards, warnings, and the ports
that were claimed. -/

structure Entry where
  listen : Int
  container : Int
  proto : String -- tcp | udp | both
deriving DecidableEq, Repr

def portOf (v : String) : Check Int :=
  match atoi (trim v) with
  | none => .error ("invalid port " ++ lib.quote v)
  | some n => if IsPort n then .ok n else .error ("invalid port " ++ lib.quote v)

def parsePorts (proto s : String) : Check Entry :=
  let parts := cut ':' s.toList
  if parts.2.2 then do
    let listen ← portOf lib (String.ofList parts.1)
    let container ← portOf lib (String.ofList parts.2.1)
    return ⟨listen, container, proto⟩
  else do
    let container ← portOf lib s
    return ⟨container, container, proto⟩

def parseStreamEntry (s : String) : Check Entry := do
  let parts := cutLast '/' s.toList
  let proto := if parts.2.2 then toLower lib.caseTable (trim (String.ofList parts.2.1)) else "tcp"
  refuseIf (proto ∉ ["tcp", "udp", "both"]) "protocol must be tcp, udp or both"
  parsePorts lib proto (if parts.2.2 then String.ofList parts.1 else s)

structure Reach where
  rport : Int
  missing : List String
  warns : List String

/-- One protocol of a stream. `-1` is no host port yet, `-2` two different ones. -/
def askPort (plan : ReachPlan) (part : String) (container : Int) (r : Reach) (proto : String) :
    Reach :=
  match plan.portFor container proto with
  | none => { r with missing := r.missing ++ [printInt container ++ "/" ++ proto] }
  | some hp =>
      if r.rport = -1 then { r with rport := hp }
      else if hp ≠ r.rport then
        { r with
          rport := -2
          warns := r.warns ++ ["stream " ++ lib.quote part ++ ": container port " ++
            printInt container ++ " is published on host port " ++ printInt r.rport ++
            " for tcp and " ++ printInt hp ++ " for udp; a both stream forwards both " ++
            "protocols to one port, so publish them on the same host port"] }
      else r

def protosOf (proto : String) : List String := if proto = "both" then ["tcp", "udp"] else [proto]

def reach (plan : ReachPlan) (part : String) (e : Entry) : Reach :=
  (protosOf e.proto).foldl (askPort lib plan part e.container) ⟨-1, [], []⟩

/-- What the loop over the entries has gathered; `claimed` and `listenSeen` hold the keys
of the two maps. -/
structure Streams where
  streams : List Store.Stream
  warns : List String
  claimed : List Int
  listenSeen : List Int

def forwardTo (plan : ReachPlan) (acl : Option Int) (e : Entry) (rport : Int) : Store.Stream :=
  { Stream.zero with
    listenPort := e.listen, protocol := e.proto, forwardHost := plan.host, forwardPort := rport,
    accessListID := acl, enabled := true }

def addEntry (plan : ReachPlan) (acl : Option Int) (part : String) (acc : Streams) (e : Entry) :
    Streams :=
  let r := reach lib plan part e
  let warns := acc.warns ++ r.warns
  if r.missing ≠ [] then
    { acc with
      warns := warns ++ ["stream " ++ lib.quote part ++ ": container port " ++ joinAnd r.missing ++
        " is not published on " ++ plan.host] }
  else if r.rport < 0 then { acc with warns }
  else if e.listen ∈ acc.listenSeen then
    { acc with
      warns := warns ++ ["stream " ++ lib.quote part ++ ": listen port " ++ printInt e.listen ++
        " is used more than once"] }
  else
    { streams := acc.streams ++ [forwardTo plan acl e r.rport]
      warns
      claimed := e.container :: acc.claimed
      listenSeen := e.listen :: acc.listenSeen }

def addPart (plan : ReachPlan) (acl : Option Int) (acc : Streams) (part : String) : Streams :=
  if trim part = "" then acc
  else
    match parseStreamEntry lib (trim part) with
    | .error why =>
        { acc with warns := acc.warns ++ ["stream " ++ lib.quote (trim part) ++ ": " ++ why] }
    | .ok e => addEntry lib plan acl (trim part) acc e

def deriveStreams (spec : String) (plan : ReachPlan) (acl : Option Int) : Streams :=
  (splitComma spec).foldl (addPart lib plan acl) ⟨[], [], [], []⟩

/-! ### The proxy host

The port to route to is the one of the label, or the only candidate. -/

def choosePort (candidates exclude : List Int) (explicit : String) : Check Int :=
  if explicit ≠ "" then
    match atoi (trim explicit) with
    | none => .error ("invalid quicgate.port " ++ lib.quote explicit)
    | some n => if IsPort n then .ok n else .error ("invalid quicgate.port " ++ lib.quote explicit)
  else
    let filtered := (candidates.filter (· ∉ exclude)).insertionSort (· ≤ ·)
    match filtered with
    | [] => .error "no published port to route to (set quicgate.port, or publish the port)"
    | [port] => .ok port
    | _ =>
        .error (printInt filtered.length ++ " candidate ports " ++ printInts filtered ++
          ", set quicgate.port to choose")

/-- `buildHost`, less the option to skip the verification of the upstream's certificate. -/
def buildHost (lbl : String → String) (domains : List String) (host : String) (port : Int)
    (acl : Option Int) : Store.Host :=
  let off := isOff lib (lbl "tls")
  { Host.zero with
    type := "proxy"
    domains
    upstream :=
      { Upstream.zero with
        scheme := if equalFold lib (lbl "scheme") "https" then "https" else "http"
        host, port }
    enabled := true
    options :=
      { Options.zero with
        other := if truthy lib (lbl "tls-skip-verify") then "skipTlsVerify" else "" }
    accessListID := acl
    certMode := if off then "none" else "auto"
    forceSSL := !off }

/-! ### The whole derivation

The switch of `derive`, in the order of its exits. -/

/-- The options and the settings hook of a provider. -/
structure Provider where
  labelPrefix : String
  defaultDomain : String
  setting : Option (String → String → String)

namespace Provider

def labelNamespace (p : Provider) : String :=
  if p.labelPrefix ≠ "" then p.labelPrefix else "quicgate"

def pfx (p : Provider) : String := p.labelNamespace ++ "."

def get (p : Provider) (key dflt : String) : String :=
  match p.setting with
  | none => dflt
  | some setting => setting key dflt

def domainOf (p : Provider) : String := trim (p.get "docker_default_domain" p.defaultDomain)

end Provider

def lbl (p : Provider) (c : ContainerInspect) (k : String) : String :=
  trim ((c.labels.lookup (p.pfx ++ k)).getD "")

/-- `ResolveACL`, over the access lists as the store lists them or fails to. -/
def resolveACL (lists : Option (List (Int × AccessList))) (name : String) : Option Int :=
  (lists.getD []).findSome? fun l => if equalFold lib l.2.name name then some l.1 else none

structure Derived where
  container : String
  id : String
  enabled : Bool
  host : Option Store.Host
  streams : List Store.Stream
  warnings : List String

def domainsOf (p : Provider) (c : ContainerInspect) : List String :=
  let domains := splitCSV (lbl p c "host")
  if domains = [] then
    if p.domainOf ≠ "" then [c.nameOf ++ "." ++ trimStart '.' p.domainOf] else []
  else domains

/-- The switch of `derive`: the proxy host and the warning that says why there is none. -/
def deriveHost (p : Provider) (c : ContainerInspect) (address : String) (plan : ReachPlan)
    (acl : Option Int) (exclude : List Int) (noStreams : Bool) : Option Store.Host × List String :=
  let wantHTTP := lbl p c "host" ≠ "" ∨ lbl p c "port" ≠ ""
  match choosePort lib plan.candidates exclude (lbl p c "port") with
  | .ok cport =>
      if domainsOf p c ≠ [] then
        match plan.portFor cport "tcp" with
        | none =>
            (none, ["port " ++ printInt cport ++ "/tcp is not published on " ++ address ++
              " (publish it to route)"])
        | some rport =>
            match (buildHost lib (lbl p c) (domainsOf p c) plan.host rport acl).validate lib with
            | .error why => (none, ["invalid: " ++ why])
            | .ok h => (some h, [])
      else if wantHTTP then (none, ["no quicgate.host set and no default-domain configured"])
      else (none, [])
  | .error why =>
      if wantHTTP then (none, [why])
      else if domainsOf p c ≠ [] ∧ noStreams = true then (none, [why])
      else (none, [])

/-- The rest of `derive`, once it is known which access list is asked for. -/
def deriveRoutes (range : Range String (List PortBinding)) (p : Provider) (c : ContainerInspect)
    (address : String) (acl : Option Int) : Derived :=
  let plan := resolvePlan lib range c address
  let s := deriveStreams lib (lbl p c "streams") plan acl
  let exclude := parsePortList (lbl p c "exclude-ports") ++ s.claimed
  let http := deriveHost lib p c address plan acl exclude s.streams.isEmpty
  let warnings := s.warns ++ http.2
  { container := c.nameOf, id := c.id, enabled := true, host := http.1, streams := s.streams
    warnings :=
      if http.1 = none ∧ s.streams = [] ∧ warnings = [] then
        ["quicgate.enable is set but nothing to route (add quicgate.host/quicgate.port or " ++
          "quicgate.streams)"]
      else warnings }

def derive (range : Range String (List PortBinding)) (p : Provider)
    (lists : Option (List (Int × AccessList))) (c : ContainerInspect) (address : String) :
    Derived :=
  let d : Derived := ⟨c.nameOf, c.id, true, none, [], []⟩
  let unknown := unknownLabels lib c.labels p.pfx
  let al := lbl p c "access-list"
  if truthy lib (lbl p c "enable") = false then { d with enabled := false }
  else if unknown ≠ [] then
    { d with
      warnings :=
        unknown ++ ["the container is not routed while it carries a label quicgate does not know"] }
  else if c.running = false then { d with warnings := ["container is not running"] }
  else if al = "" then deriveRoutes lib range p c address none
  else
    match resolveACL lib lists al with
    | none =>
        { d with
          warnings := ["access list " ++ lib.quote al ++
            " does not exist, so the container is not routed"] }
    | some id => deriveRoutes lib range p c address (some id)

/-! ### What the daemon publishes

The meaning of what the daemon says: which port is reached where. -/

def publication (k : PortKey) (entry : String × List PortBinding) : Option Int :=
  if parsePortKey lib entry.1 = some k then entry.2.findSome? fun b => atoi b.hostPort else none

/-- The container port is published on the host port, for the protocol. -/
def Published (c : ContainerInspect) (cp : Int) (proto : String) (hp : Int) : Prop :=
  ∃ key binds, c.ports.lookup key = some binds ∧
    publication lib ⟨cp, proto⟩ (key, binds) = some hp

/-- The container port is reached at the host port: where it is published, or at the port
itself under host networking. -/
def Reached (c : ContainerInspect) (cp : Int) (proto : String) (hp : Int) : Prop :=
  if c.networkMode = "host" then hp = cp else Published lib c cp proto hp

def Exposed (c : ContainerInspect) (cp : Int) : Prop :=
  ∃ key ∈ c.exposedPorts, parsePortKey lib key = some ⟨cp, "tcp"⟩

/-- The TCP ports that can be the container's HTTP port. Under host networking they are the
declared ones, if any is declared. -/
def Candidate (c : ContainerInspect) (cp : Int) : Prop :=
  if c.networkMode = "host" then
    Exposed lib c cp ∨ (∀ q, ¬ Exposed lib c q) ∧ ∃ hp, Published lib c cp "tcp" hp
  else ∃ hp, Published lib c cp "tcp" hp

variable {lib} {range : Range String (List PortBinding)}

theorem lookup_addBindings (pk k : PortKey) (binds : List PortBinding) (out : GoMap PortKey Int) :
    (binds.foldl (addBinding pk) out).lookup k =
      if k = pk then (out.lookup pk).or (binds.findSome? fun b => atoi b.hostPort)
      else out.lookup k := by
  induction binds generalizing out with
  | nil =>
      by_cases hk : k = pk
      · subst hk
        simp
      · simp [hk]
  | cons b binds ih =>
      rw [List.foldl_cons, ih, List.findSome?_cons]
      cases hb : atoi b.hostPort with
      | none => simp [addBinding, hb]
      | some hp =>
          cases hout : out.lookup pk with
          | some old => simp [addBinding, hb, hout]
          | none =>
              by_cases hk : k = pk
              · subst hk
                simp [addBinding, hb, hout]
              · simp [addBinding, hb, hout, hk, AList.lookup_insert_ne hk]

theorem lookup_addPublished (k : PortKey) (out : GoMap PortKey Int)
    (entry : String × List PortBinding) :
    (addPublished lib out entry).lookup k = (out.lookup k).or (publication lib k entry) := by
  unfold addPublished publication
  cases hkey : parsePortKey lib entry.1 with
  | none => simp
  | some pk =>
      simp only [lookup_addBindings, Option.some.injEq]
      by_cases hk : k = pk
      · subst hk
        simp
      · simp [hk, Ne.symm hk]

theorem lookup_parsePublished (m : GoMap String (List PortBinding)) (k : PortKey) :
    (parsePublished lib range m).lookup k = (range.order m).findSome? (publication lib k) := by
  have hfold : ∀ (entries : List (String × List PortBinding)) (out : GoMap PortKey Int),
      (entries.foldl (addPublished lib) out).lookup k =
        (out.lookup k).or (entries.findSome? (publication lib k)) := by
    intro entries
    induction entries with
    | nil => simp
    | cons entry entries ih =>
        intro out
        rw [List.foldl_cons, ih, lookup_addPublished, List.findSome?_cons, Option.or_assoc]
        cases publication lib k entry with
        | none => simp
        | some hp => simp
  rw [parsePublished, hfold, AList.lookup_empty, Option.none_or]

theorem published_of_lookup {c : ContainerInspect} {cp hp : Int} {proto : String}
    (h : (parsePublished lib range c.ports).lookup ⟨cp, proto⟩ = some hp) :
    Published lib c cp proto hp := by
  rw [lookup_parsePublished] at h
  obtain ⟨⟨key, binds⟩, hmem, hpub⟩ := List.exists_of_findSome?_eq_some h
  exact ⟨key, binds, range.mem_order.mp hmem, hpub⟩

/-- Which of two publications of one port is kept is left to the order of the map; one of
them is. -/
theorem exists_lookup_of_published {c : ContainerInspect} {cp hp : Int} {proto : String}
    (h : Published lib c cp proto hp) :
    ∃ kept, (parsePublished lib range c.ports).lookup ⟨cp, proto⟩ = some kept := by
  obtain ⟨key, binds, hlookup, hpub⟩ := h
  rw [lookup_parsePublished, ← Option.isSome_iff_exists, List.findSome?_isSome_iff]
  exact ⟨(key, binds), range.mem_order.mpr hlookup, by simp [hpub]⟩

theorem mem_parseExposed {c : ContainerInspect} {cp : Int} :
    cp ∈ parseExposed lib c.exposedPorts ↔ Exposed lib c cp := by
  simp only [parseExposed, List.mem_filterMap, Prod.exists, GoMap.mem_pairs,
    Option.bind_eq_some_iff]
  constructor
  · rintro ⟨key, u, hmem, ⟨port, proto⟩, hkey, hport⟩
    split_ifs at hport with hproto
    obtain rfl := Option.some.inj hport
    obtain rfl : proto = "tcp" := hproto
    exact ⟨key, AList.lookup_isSome.mp (by simp [hmem]), hkey⟩
  · rintro ⟨key, hmem, hkey⟩
    obtain ⟨u, hu⟩ := Option.isSome_iff_exists.mp (AList.lookup_isSome.mpr hmem)
    exact ⟨key, u, hu, ⟨cp, "tcp"⟩, hkey, by simp⟩

theorem mem_publishedTcp {c : ContainerInspect} {cp : Int} :
    cp ∈ (GoMap.pairs (parsePublished lib range c.ports)).filterMap (fun (k, _) =>
      if k.proto = "tcp" then some k.port else none) ↔ ∃ hp, Published lib c cp "tcp" hp := by
  simp only [List.mem_filterMap, Prod.exists, GoMap.mem_pairs]
  constructor
  · rintro ⟨⟨port, proto⟩, hp, hlookup, hport⟩
    split_ifs at hport with hproto
    obtain rfl := Option.some.inj hport
    obtain rfl : proto = "tcp" := hproto
    exact ⟨hp, published_of_lookup hlookup⟩
  · rintro ⟨hp, hpub⟩
    obtain ⟨kept, hkept⟩ := exists_lookup_of_published hpub
    exact ⟨⟨cp, "tcp"⟩, kept, hkept, by simp⟩

theorem mem_candidates {c : ContainerInspect} {address : String} {cp : Int} :
    cp ∈ (resolvePlan lib range c address).candidates ↔ Candidate lib c cp := by
  unfold resolvePlan Candidate
  by_cases hmode : c.networkMode = "host"
  · simp only [hmode, if_true]
    by_cases hexposed : parseExposed lib c.exposedPorts = []
    · have hnone : ∀ q, ¬ Exposed lib c q := by
        intro q hq
        rw [← mem_parseExposed, hexposed] at hq
        exact absurd hq List.not_mem_nil
      simp only [hexposed, if_true, hnone, false_or, not_false_eq_true, implies_true, true_and]
      exact mem_publishedTcp
    · obtain ⟨q, hq⟩ := List.exists_mem_of_ne_nil _ hexposed
      have hsome : ¬ ∀ q, ¬ Exposed lib c q := fun hnone => hnone q (mem_parseExposed.mp hq)
      simp only [hexposed, if_false, hsome, false_and, or_false]
      exact mem_parseExposed
  · simp only [hmode, if_false]
    exact mem_publishedTcp

theorem reached_of_portFor {c : ContainerInspect} {address : String} {cp hp : Int} {proto : String}
    (h : (resolvePlan lib range c address).portFor cp proto = some hp) :
    Reached lib c cp proto hp := by
  unfold resolvePlan at h
  unfold Reached
  by_cases hmode : c.networkMode = "host"
  · simp only [hmode, if_true, Option.some.injEq] at h ⊢
    exact h.symm
  · simp only [hmode, if_false] at h ⊢
    exact published_of_lookup h

/-! ### The loop over the streams

`Gathered` is the invariant: what was gathered are the forwards of the entries kept so far. -/

def entriesOf (lib : Lib) (spec : String) : List Entry :=
  (splitComma spec).filterMap fun part => (parseStreamEntry lib (trim part)).toOption

/-- The host port an entry is forwarded to. For both protocols it is the one both are
published on; a TCP publication on `-1`, the number that stands for none, is passed over. -/
def Plans (plan : ReachPlan) (e : Entry) (rport : Int) : Prop :=
  if e.proto = "both" then
    plan.portFor e.container "udp" = some rport ∧
      (plan.portFor e.container "tcp" = some rport ∨ plan.portFor e.container "tcp" = some (-1))
  else plan.portFor e.container e.proto = some rport

/-- The forward made from an entry. -/
structure Made (plan : ReachPlan) (acl : Option Int) (e : Entry) (st : Store.Stream) : Prop where
  forward : st = forwardTo plan acl e st.forwardPort
  listen : IsPort e.listen
  plans : Plans plan e st.forwardPort

/-- What the loop has gathered from the entries it has been through, of which it kept
`entries`. -/
structure Gathered (plan : ReachPlan) (acl : Option Int) (seen entries : List Entry)
    (acc : Streams) : Prop where
  kept : entries.Sublist seen
  made : List.Forall₂ (Made plan acl) entries acc.streams
  claimed : ∀ q, q ∈ acc.claimed ↔ ∃ e ∈ entries, e.container = q
  listens : ∀ q, q ∈ acc.listenSeen ↔ q ∈ acc.streams.map (·.listenPort)
  nodup : (acc.streams.map (·.listenPort)).Nodup

theorem portOf_eq_ok {v : String} {n : Int} (h : portOf lib v = .ok n) : IsPort n := by
  unfold portOf at h
  cases hv : atoi (trim v) with
  | none => simp [hv] at h
  | some m =>
      simp only [hv] at h
      split_ifs at h with hport
      rwa [← Except.ok.inj h]

theorem listen_of_parsePorts {proto s : String} {e : Entry} (h : parsePorts lib proto s = .ok e) :
    IsPort e.listen := by
  unfold parsePorts at h
  by_cases hcolon : (cut ':' s.toList).2.2 = true
  · simp only [hcolon, if_true, bind_eq_ok, pure_eq_ok] at h
    obtain ⟨listen, hlisten, container, -, rfl⟩ := h
    exact portOf_eq_ok hlisten
  · simp only [hcolon, Bool.false_eq_true, if_false, bind_eq_ok, pure_eq_ok] at h
    obtain ⟨container, hcontainer, rfl⟩ := h
    exact portOf_eq_ok hcontainer

theorem listen_of_parseStreamEntry {s : String} {e : Entry} (h : parseStreamEntry lib s = .ok e) :
    IsPort e.listen := by
  simp only [parseStreamEntry, bind_eq_ok] at h
  obtain ⟨-, -, hports⟩ := h
  exact listen_of_parsePorts hports

/-- A blank part is not an entry. -/
theorem parseStreamEntry_blank (lib : Lib) : (parseStreamEntry lib "").toOption = none := by
  have hport : portOf lib "" = .error ("invalid port " ++ lib.quote "") := rfl
  simp [parseStreamEntry, parsePorts, cutLast, cut, hport, refuseIf, bind, Except.bind,
    Except.toOption]

theorem missing_askPort {plan : ReachPlan} {part proto : String} {cp : Int} {r : Reach} :
    (askPort lib plan part cp r proto).missing = [] ↔
      r.missing = [] ∧ ∃ hp, plan.portFor cp proto = some hp := by
  unfold askPort
  cases hport : plan.portFor cp proto with
  | none => simp
  | some hp =>
      simp only [Option.some.injEq, exists_eq', and_true]
      split_ifs <;> rfl

theorem rport_askPort {plan : ReachPlan} {part proto : String} {cp hp : Int} (r : Reach)
    (hport : plan.portFor cp proto = some hp) :
    (askPort lib plan part cp r proto).rport =
      if r.rport = -1 then hp else if hp ≠ r.rport then -2 else r.rport := by
  unfold askPort
  simp only [hport]
  split_ifs <;> rfl

theorem plans_of_reach {plan : ReachPlan} {part : String} {e : Entry}
    (hmissing : (reach lib plan part e).missing = []) (hrport : 0 ≤ (reach lib plan part e).rport) :
    Plans plan e (reach lib plan part e).rport := by
  unfold reach protosOf at *
  unfold Plans
  by_cases hboth : e.proto = "both"
  · simp only [hboth, if_true, List.foldl_cons, List.foldl_nil] at hmissing hrport ⊢
    obtain ⟨hfirst, hp', hudp⟩ := missing_askPort.mp hmissing
    obtain ⟨-, hp, htcp⟩ := missing_askPort.mp hfirst
    simp only [rport_askPort _ hudp, rport_askPort _ htcp, if_true] at hrport ⊢
    -- the two host ports agree, or the first one looked like none at all
    split_ifs at hrport ⊢ with hnone hdiffer
    · exact ⟨hudp, Or.inr (hnone ▸ htcp)⟩
    · exact absurd hrport (by decide)
    · rw [not_not.mp hdiffer] at hudp
      exact ⟨hudp, Or.inl htcp⟩
  · simp only [hboth, if_false, List.foldl_cons, List.foldl_nil] at hmissing hrport ⊢
    obtain ⟨-, hp, hport⟩ := missing_askPort.mp hmissing
    simp only [rport_askPort _ hport, if_true]
    exact hport

theorem Gathered.addEntry {plan : ReachPlan} {acl : Option Int} {seen entries : List Entry}
    {acc : Streams} (h : Gathered plan acl seen entries acc) (part : String) {e : Entry}
    (hlisten : IsPort e.listen) :
    ∃ entries', Gathered plan acl (seen ++ [e]) entries' (addEntry lib plan acl part acc e) := by
  have hsame : ∀ warns, Gathered plan acl (seen ++ [e]) entries { acc with warns } := fun warns =>
    ⟨h.kept.trans (List.sublist_append_left seen [e]), h.made, h.claimed, h.listens, h.nodup⟩
  simp only [DockerLabels.addEntry]
  split_ifs with hmissing hrport hseen
  · exact ⟨entries, hsame _⟩
  · exact ⟨entries, hsame _⟩
  · exact ⟨entries, hsame _⟩
  · have hplans := plans_of_reach (not_not.mp hmissing) (not_lt.mp hrport)
    refine ⟨entries ++ [e], ?_⟩
    constructor
    case kept => exact h.kept.append_right [e]
    case made => exact List.rel_append h.made (.cons ⟨rfl, hlisten, hplans⟩ .nil)
    case claimed =>
      intro q
      simp [h.claimed, or_comm, eq_comm]
    case listens =>
      intro q
      simp [h.listens, or_comm, forwardTo]
    case nodup =>
      have hnew : e.listen ∉ acc.streams.map (·.listenPort) := fun hmem =>
        hseen ((h.listens _).mpr hmem)
      simp only [List.map_append, List.map_cons, List.map_nil, forwardTo]
      exact h.nodup.append (List.nodup_singleton _) (by simpa using hnew)

theorem Gathered.addPart {plan : ReachPlan} {acl : Option Int} {seen entries : List Entry}
    {acc : Streams} (h : Gathered plan acl seen entries acc) (part : String) :
    ∃ entries', Gathered plan acl (seen ++ (parseStreamEntry lib (trim part)).toOption.toList)
      entries'
      (addPart lib plan acl acc part) := by
  unfold DockerLabels.addPart
  by_cases hblank : trim part = ""
  · rw [if_pos hblank, hblank, parseStreamEntry_blank]
    exact ⟨entries, by simpa using h⟩
  · rw [if_neg hblank]
    cases hparse : parseStreamEntry lib (trim part) with
    | error why =>
        refine ⟨entries, ?_, h.made, h.claimed, h.listens, h.nodup⟩
        simpa [Except.toOption] using h.kept
    | ok e => exact h.addEntry (trim part) (listen_of_parseStreamEntry hparse)

theorem gathered_deriveStreams (lib : Lib) (spec : String) (plan : ReachPlan) (acl : Option Int) :
    ∃ entries,
      Gathered plan acl (entriesOf lib spec) entries (deriveStreams lib spec plan acl) := by
  have hfold : ∀ (parts : List String) (seen entries : List Entry) (acc : Streams),
      Gathered plan acl seen entries acc →
      ∃ entries', Gathered plan acl
        (seen ++ parts.filterMap fun part => (parseStreamEntry lib (trim part)).toOption) entries'
        (parts.foldl (addPart lib plan acl) acc) := by
    intro parts
    induction parts with
    | nil => exact fun seen entries acc h => ⟨entries, by simpa using h⟩
    | cons part parts ih =>
        intro seen entries acc h
        obtain ⟨entries', h'⟩ := @Gathered.addPart lib plan acl seen entries acc h part
        obtain ⟨last, hlast⟩ := ih _ entries' _ h'
        refine ⟨last, ?_⟩
        rw [List.filterMap_cons]
        cases hparse : (parseStreamEntry lib (trim part)).toOption with
        | none => simpa [hparse] using hlast
        | some e => simpa [hparse] using hlast
  exact hfold (splitComma spec) [] [] ⟨[], [], [], []⟩ ⟨.refl _, .nil, by simp, by simp, by simp⟩

/-! ### The proxy host of a container

A chosen port is a candidate and is reached by the plan. -/

theorem choosePort_explicit {candidates exclude : List Int} {explicit : String} {port : Int}
    (h : choosePort lib candidates exclude explicit = .ok port) (hne : explicit ≠ "") :
    atoi (trim explicit) = some port ∧ IsPort port := by
  rw [choosePort, if_pos hne] at h
  cases hport : atoi (trim explicit) with
  | none => simp [hport] at h
  | some n =>
      simp only [hport] at h
      split_ifs at h with hrange
      rw [← Except.ok.inj h]
      exact ⟨rfl, hrange⟩

theorem choosePort_auto {candidates exclude : List Int} {port : Int}
    (h : choosePort lib candidates exclude "" = .ok port) :
    candidates.filter (· ∉ exclude) = [port] := by
  rw [choosePort, if_neg (by simp)] at h
  have hperm := List.perm_insertionSort (· ≤ ·) (candidates.filter (· ∉ exclude))
  cases hsorted : (candidates.filter (· ∉ exclude)).insertionSort (· ≤ ·) with
  | nil =>
      simp only [hsorted] at h
      cases h
  | cons first rest =>
      cases rest with
      | nil =>
          simp only [hsorted, Except.ok.injEq] at h
          rw [hsorted, h] at hperm
          exact List.perm_singleton.mp hperm.symm
      | cons second rest =>
          simp only [hsorted] at h
          cases h

/-- A proxy host comes from a port that was chosen, and that the plan reaches. -/
theorem deriveHost_eq_some {p : Provider} {c : ContainerInspect} {address : String}
    {plan : ReachPlan} {acl : Option Int} {exclude : List Int} {noStreams : Bool} {h : Store.Host}
    (hhost : (deriveHost lib p c address plan acl exclude noStreams).1 = some h) :
    ∃ cport rport, choosePort lib plan.candidates exclude (lbl p c "port") = .ok cport ∧
      plan.portFor cport "tcp" = some rport ∧
      (buildHost lib (lbl p c) (domainsOf p c) plan.host rport acl).validate lib = .ok h := by
  unfold deriveHost at hhost
  cases hport : choosePort lib plan.candidates exclude (lbl p c "port") with
  | error why =>
      simp only [hport] at hhost
      split_ifs at hhost
  | ok cport =>
      simp only [hport] at hhost
      split_ifs at hhost with hdomains
      · cases hreach : plan.portFor cport "tcp" with
        | none => simp [hreach] at hhost
        | some rport =>
            simp only [hreach] at hhost
            cases hvalid : (buildHost lib (lbl p c) (domainsOf p c) plan.host rport acl).validate
              lib with
            | error why => simp [hvalid] at hhost
            | ok h' =>
                simp only [hvalid, Option.some.injEq] at hhost
                exact ⟨cport, rport, rfl, hreach, hhost ▸ hvalid⟩

/-! ### What a container asks for

`AsAsked` is what the labels ask for, told without the code. -/

def Nothing (d : Derived) : Prop := d.host = none ∧ d.streams = []

/-- Every part carries the access list of the name, which exists. -/
def Restricted (lib : Lib) (lists : Option (List (Int × AccessList))) (name : String)
    (d : Derived) :
    Prop :=
  ∃ id, resolveACL lib lists name = some id ∧
    (∀ h ∈ d.host, h.accessListID = some id) ∧ ∀ st ∈ d.streams, st.accessListID = some id

/-- The forward is the one the entry asks for. -/
structure Forwards (lib : Lib) (c : ContainerInspect) (e : Entry) (st : Store.Stream) : Prop where
  listen : st.listenPort = e.listen
  protocol : st.protocol = e.proto
  one : e.proto ≠ "both" → Reached lib c e.container e.proto st.forwardPort
  both : e.proto = "both" → ¬ Published lib c e.container "tcp" (-1) →
    Reached lib c e.container "tcp" st.forwardPort ∧ Reached lib c e.container "udp" st.forwardPort

/-- The container port behind the proxy host: the one of the port label, or the only
candidate that is neither excluded nor claimed by one of the entries. -/
def HttpPort (lib : Lib) (p : Provider) (c : ContainerInspect) (entries : List Entry) (cp : Int) :
    Prop :=
  if lbl p c "port" ≠ "" then atoi (lbl p c "port") = some cp ∧ IsPort cp
  else ∀ q, (Candidate lib c q ∧ q ∉ parsePortList (lbl p c "exclude-ports") ∧
    ∀ e ∈ entries, e.container ≠ q) ↔ q = cp

/-- What is derived stays within what the labels ask for and what the daemon publishes. -/
structure AsAsked (lib : Lib) (p : Provider) (lists : Option (List (Int × AccessList)))
    (c : ContainerInspect) (d : Derived) : Prop where
  restricted : ∀ value, c.labels.lookup (p.pfx ++ "access-list") = some value → trim value ≠ "" →
    Restricted lib lists (trim value) d ∨ Nothing d
  known : (∃ key ∈ c.labels, p.pfx.toList <+: key.toList ∧ ∀ k ∈ knownLabels, key ≠ p.pfx ++ k) →
    Nothing d
  listens : ∀ st ∈ d.streams, IsPort st.listenPort
  nodup : (d.streams.map (·.listenPort)).Nodup
  routes : ∃ entries, entries.Sublist (entriesOf lib (lbl p c "streams")) ∧
    List.Forall₂ (Forwards lib c) entries d.streams ∧
    ∀ h ∈ d.host, ∃ cp, HttpPort lib p c entries cp ∧ Reached lib c cp "tcp" h.upstream.port

theorem Nothing.asAsked {p : Provider} {lists : Option (List (Int × AccessList))}
    {c : ContainerInspect} {d : Derived} (h : Nothing d) : AsAsked lib p lists c d where
  restricted := fun _ _ _ => Or.inr h
  known := fun _ => h
  listens := by simp [h.2]
  nodup := by simp [h.2]
  routes := ⟨[], List.nil_sublist _, by simp [h.2], by simp [h.1]⟩

theorem Made.forwards {c : ContainerInspect} {address : String} {acl : Option Int} {e : Entry}
    {st : Store.Stream} (h : Made (resolvePlan lib range c address) acl e st) :
    Forwards lib c e st := by
  have hst := h.forward
  have hplans := h.plans
  unfold Plans at hplans
  constructor
  case listen => rw [hst, forwardTo]
  case protocol => rw [hst, forwardTo]
  case one =>
    intro hone
    rw [if_neg hone] at hplans
    exact reached_of_portFor hplans
  case both =>
    intro hboth hpublished
    rw [if_pos hboth] at hplans
    obtain ⟨hudp, htcp | htcp⟩ := hplans
    · exact ⟨reached_of_portFor htcp, reached_of_portFor hudp⟩
    · have hudp := reached_of_portFor hudp
      have htcp := reached_of_portFor htcp
      unfold Reached at hudp htcp ⊢
      by_cases hmode : c.networkMode = "host"
      · simp only [hmode, if_true] at hudp ⊢
        exact ⟨hudp, hudp⟩
      · simp only [hmode, if_false] at htcp
        exact absurd htcp hpublished

theorem eq_append_iff {pfx key k : String} (h : pfx.toList <+: key.toList) :
    key = pfx ++ k ↔ shortOf pfx key = k := by
  obtain ⟨rest, hrest⟩ := h
  rw [← String.toList_inj, shortOf, ← hrest, List.drop_left, String.toList_append,
    List.append_cancel_left_eq, ← String.toList_inj, String.toList_ofList]

theorem mem_unknownKeys {labels : GoMap String String} {pfx key : String} :
    key ∈ unknownKeys labels pfx ↔
      key ∈ labels ∧ pfx.toList <+: key.toList ∧ ∀ k ∈ knownLabels, key ≠ pfx ++ k := by
  simp only [unknownKeys, List.mem_filter, List.mem_insertionSort, List.isPrefixOf_iff_prefix,
    decide_eq_true_eq, and_assoc, AList.mem_keys]
  refine and_congr_right fun _ => and_congr_right fun hpfx => ?_
  constructor
  · intro hshort k hk heq
    rw [(eq_append_iff hpfx).mp heq] at hshort
    exact hshort hk
  · intro hne hshort
    exact hne _ hshort ((eq_append_iff hpfx).mpr rfl)

/-! ### Every derivation

`derive` goes through its exits in order; after the last one that routes nothing, all that is
derived carries the access list. -/

/-- `derive` routes nothing, or goes on with the access list that was asked for. -/
theorem derive_cases (range : Range String (List PortBinding)) (p : Provider)
    (lists : Option (List (Int × AccessList))) (c : ContainerInspect) (address : String) :
    Nothing (derive lib range p lists c address) ∨
      unknownKeys c.labels p.pfx = [] ∧
        ∃ acl, derive lib range p lists c address = deriveRoutes lib range p c address acl ∧
          (lbl p c "access-list" ≠ "" →
            ∃ id, resolveACL lib lists (lbl p c "access-list") = some id ∧ acl = some id) := by
  simp only [derive]
  split_ifs with henable hunknown hrunning hlist
  · exact Or.inl ⟨rfl, rfl⟩
  · exact Or.inl ⟨rfl, rfl⟩
  · exact Or.inl ⟨rfl, rfl⟩
  · exact Or.inr ⟨by simpa [unknownLabels] using hunknown, none, rfl, fun hne => absurd hlist hne⟩
  · cases hacl : resolveACL lib lists (lbl p c "access-list") with
    | none => exact Or.inl ⟨rfl, rfl⟩
    | some id =>
        exact Or.inr
          ⟨by simpa [unknownLabels] using hunknown, some id, rfl, fun _ => ⟨id, rfl, rfl⟩⟩

theorem trim_lbl (p : Provider) (c : ContainerInspect) (k : String) :
    trim (lbl p c k) = lbl p c k :=
  trim_trim _

/-- The container port of a proxy host. -/
theorem httpPort_of_choosePort {p : Provider} {c : ContainerInspect} {address : String}
    {claimed : List Int} {entries : List Entry} {cport : Int}
    (hclaimed : ∀ q, q ∈ claimed ↔ ∃ e ∈ entries, e.container = q)
    (h : choosePort lib (resolvePlan lib range c address).candidates
      (parsePortList (lbl p c "exclude-ports") ++ claimed) (lbl p c "port") = .ok cport) :
    HttpPort lib p c entries cport := by
  unfold HttpPort
  split_ifs with hport
  · have hchosen := choosePort_explicit h hport
    rwa [trim_lbl] at hchosen
  · rw [not_not.mp hport] at h
    have honly := choosePort_auto h
    intro q
    rw [← List.mem_singleton, ← honly, List.mem_filter, mem_candidates]
    simp [hclaimed, not_or]

/-- A forward that was made carries the access list. -/
theorem acl_of_made {plan : ReachPlan} {acl : Option Int} {entries : List Entry}
    {streams : List Store.Stream} (h : List.Forall₂ (Made plan acl) entries streams)
    {st : Store.Stream} (hst : st ∈ streams) : st.accessListID = acl ∧ IsPort st.listenPort := by
  obtain ⟨e, -, hmade⟩ := exists_of_forall₂_right h hst
  rw [hmade.forward]
  exact ⟨rfl, hmade.listen⟩

theorem deriveRoutes_asAsked {p : Provider} {lists : Option (List (Int × AccessList))}
    {c : ContainerInspect} {address : String} {acl : Option Int}
    (hunknown : unknownKeys c.labels p.pfx = [])
    (hacl : lbl p c "access-list" ≠ "" →
      ∃ id, resolveACL lib lists (lbl p c "access-list") = some id ∧ acl = some id) :
    AsAsked lib p lists c (deriveRoutes lib range p c address acl) := by
  obtain ⟨entries, hgathered⟩ := gathered_deriveStreams lib (lbl p c "streams")
    (resolvePlan lib range c address) acl
  have hforwards := hgathered.made.imp fun _ _ hmade => hmade.forwards
  have hstreams : (deriveRoutes lib range p c address acl).streams =
      (deriveStreams lib (lbl p c "streams") (resolvePlan lib range c address) acl).streams := by
    simp only [deriveRoutes]
  have hstream : ∀ st ∈ (deriveRoutes lib range p c address acl).streams,
      st.accessListID = acl ∧ IsPort st.listenPort := by
    intro st hst
    rw [hstreams] at hst
    exact acl_of_made hgathered.made hst
  have hhost : ∀ h ∈ (deriveRoutes lib range p c address acl).host, h.accessListID = acl ∧
      ∃ cp, HttpPort lib p c entries cp ∧ Reached lib c cp "tcp" h.upstream.port := by
    intro h hh
    simp only [deriveRoutes, Option.mem_def] at hh
    obtain ⟨cport, rport, hport, hreach, hvalid⟩ := deriveHost_eq_some hh
    have hupstream := Host.upstream_of_validate hvalid rfl
    refine ⟨(Host.validate_kept hvalid).accessListID, cport,
      httpPort_of_choosePort hgathered.claimed hport, ?_⟩
    rw [hupstream]
    exact reached_of_portFor hreach
  constructor
  case restricted =>
    intro value hvalue hne
    have hlbl : lbl p c "access-list" = trim value := by rw [lbl, hvalue, Option.getD_some]
    obtain ⟨id, hresolved, rfl⟩ := hacl (hlbl ▸ hne)
    exact Or.inl
      ⟨id, hlbl ▸ hresolved, fun h hh => (hhost h hh).1, fun st hst => (hstream st hst).1⟩
  case known =>
    rintro ⟨key, hkey⟩
    have hmem := mem_unknownKeys.mpr hkey
    rw [hunknown] at hmem
    exact absurd hmem List.not_mem_nil
  case listens => exact fun st hst => (hstream st hst).2
  case nodup =>
    rw [hstreams]
    exact hgathered.nodup
  case routes =>
    rw [hstreams]
    exact ⟨entries, hgathered.kept, hforwards, fun h hh => (hhost h hh).2⟩

/-- Whatever the labels, the ports and the access lists are. -/
theorem derive_asAsked (lib : Lib) (range : Range String (List PortBinding)) (p : Provider)
    (lists : Option (List (Int × AccessList))) (c : ContainerInspect) (address : String) :
    AsAsked lib p lists c (derive lib range p lists c address) := by
  rcases derive_cases range p lists c address with hnothing | ⟨hunknown, acl, hroutes, hacl⟩
  · exact hnothing.asAsked
  · rw [hroutes]
    exact deriveRoutes_asAsked hunknown hacl

/-- A container of the default provider with labels under its prefix, and with the host
ports the daemon publishes. -/
def labelled (labels ports : List (String × String)) : ContainerInspect where
  id := "deadbeefcafe"
  name := "/app"
  labels := GoMap.insertAll ∅ (labels.map fun l => ("quicgate." ++ l.1, l.2))
  exposedPorts := ∅
  running := true
  networkMode := "bridge"
  ports := GoMap.insertAll ∅ (ports.map fun b => (b.1, [⟨"0.0.0.0", b.2⟩]))

def plainProvider : Provider := ⟨"", "", none⟩

def blankList : ContainerInspect :=
  labelled [("enable", "true"), ("host", "app.example.com"), ("access-list", " ")]
    [("8080/tcp", "8080")]

def minusOne : ContainerInspect :=
  labelled [("enable", "true"), ("streams", "53/both")] [("53/tcp", "-1"), ("53/udp", "5353")]

theorem not_reached_minusOne (cp : Int) : ¬ Reached asciiLib minusOne cp "tcp" 5353 := by
  rintro ⟨key, binds, hlookup, hpub⟩
  have hpairs : GoMap.pairs minusOne.ports =
      [("53/udp", [⟨"0.0.0.0", "5353"⟩]), ("53/tcp", [⟨"0.0.0.0", "-1"⟩])] := by decide +kernel
  have hmem := GoMap.mem_pairs.mpr hlookup
  have hudp : parsePortKey asciiLib "53/udp" = some ⟨53, "udp"⟩ := by decide +kernel
  have hnumber : atoi "-1" = some (-1) := by decide +kernel
  rw [hpairs, List.mem_cons, List.mem_singleton] at hmem
  rcases hmem with hmem | hmem
  · obtain ⟨rfl, rfl⟩ := Prod.mk.inj hmem
    simp [publication, hudp] at hpub
  · obtain ⟨rfl, rfl⟩ := Prod.mk.inj hmem
    simp [publication, hnumber] at hpub

/-- A blank name is dropped and the container published without a list; and a TCP
publication on `-1` is passed over in a forward of both protocols. -/
theorem blank_name_publishes :
    (∃ value, blankList.labels.lookup (plainProvider.pfx ++ "access-list") = some value ∧
      ¬ (Restricted asciiLib (some []) value
            (derive asciiLib (.listed _ _) plainProvider (some []) blankList "127.0.0.1") ∨
          Restricted asciiLib (some []) (trim value)
            (derive asciiLib (.listed _ _) plainProvider (some []) blankList "127.0.0.1") ∨
          Nothing (derive asciiLib (.listed _ _) plainProvider (some []) blankList "127.0.0.1"))) ∧
      ∃ st ∈ (derive asciiLib (.listed _ _) plainProvider (some []) minusOne "127.0.0.1").streams,
        st.protocol = "both" ∧ ∀ cp, ¬ Reached asciiLib minusOne cp "tcp" st.forwardPort := by
  constructor
  · refine ⟨" ", by decide +kernel, ?_⟩
    have hhost : (derive asciiLib (.listed _ _) plainProvider (some []) blankList
      "127.0.0.1").host.isSome = true := by
      decide +kernel
    rintro (⟨id, hid, -⟩ | ⟨id, hid, -⟩ | ⟨hnone, -⟩)
    · cases hid
    · cases hid
    · rw [hnone] at hhost
      cases hhost
  · have hstreams :
      (derive asciiLib (.listed _ _) plainProvider (some []) minusOne "127.0.0.1").streams =
        [{ Stream.zero with
          listenPort := 53, protocol := "both", forwardHost := "127.0.0.1", forwardPort := 5353,
          enabled := true }] := by
      decide +kernel
    rw [hstreams]
    exact ⟨_, List.mem_singleton_self _, rfl, not_reached_minusOne⟩

/-! ### What the provider is told

The provider merges the names of a derivation as it is given them. -/

def namesOf (domains : List String) : List Docker.Name :=
  domains.filterMap fun d => if h : matchesDomainRe d = true then some ⟨d, h⟩ else none

/-- What `reconcileEndpoint` keeps of a derivation, beside the warnings. -/
def Derived.kept (d : Derived) : Docker.Derived where
  container := d.container
  enabled := d.enabled
  host := d.host.map fun h =>
    { domains := namesOf h.domains, scheme := h.upstream.scheme, host := h.upstream.host
      port := h.upstream.port, certMode := h.certMode, forceSSL := h.forceSSL
      accessListID := h.accessListID, skipTLSVerify := h.options.other == "skipTlsVerify" }
  streams := d.streams.map fun st =>
    { listenPort := st.listenPort, protocol := st.protocol, forwardHost := st.forwardHost
      forwardPort := st.forwardPort, accessListID := st.accessListID }

theorem map_namesOf {domains : List String} (h : ∀ d ∈ domains, matchesDomainRe d = true) :
    (namesOf domains).map (·.1) = domains := by
  induction domains with
  | nil => rfl
  | cons d domains ih =>
      have hd := h d List.mem_cons_self
      have hrest := ih fun x hx => h x (List.mem_cons_of_mem d hx)
      rw [namesOf, List.filterMap_cons, dif_pos hd, ← namesOf, List.map_cons, hrest]

/-- The provider merges every name the container was validated under. -/
theorem names_kept (lib : Lib) (range : Range String (List PortBinding)) (p : Provider)
    (lists : Option (List (Int × AccessList))) (c : ContainerInspect) (address : String) :
    (derive lib range p lists c address).kept.host.map (fun h => h.domains.map (·.1)) =
      (derive lib range p lists c address).host.map (·.domains) := by
  rw [Derived.kept, Option.map_map]
  apply Option.map_congr
  intro h hh
  rcases derive_cases range p lists c address with hnothing | ⟨-, acl, hroutes, -⟩
  · rw [hnothing.1] at hh
    cases hh
  · rw [hroutes] at hh
    simp only [deriveRoutes] at hh
    obtain ⟨cport, rport, -, -, hvalid⟩ := deriveHost_eq_some hh
    exact map_namesOf (Host.validate_kept hvalid).domainsValid

end Quicgate.DockerLabels
