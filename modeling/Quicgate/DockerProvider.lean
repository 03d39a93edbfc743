import Quicgate.HostNames
import Quicgate.JsonText
import Quicgate.TransitionSystem

/-!
# The routes of Docker containers

`internal/docker/provider.go`: every Docker host has a goroutine that derives routes
from the labels of its containers and keeps what it derived last, under a lock of its
own.  An aggregation, which holds the provider's lock, reads the names and ports of
the manual configuration and then one endpoint after the other, merges what it read,
and hands the result to the engine when it is not what the engine has.

The endpoints report, fail and come back between any two reads of an aggregation, and
the manual configuration changes at any moment, so each read has its own label.  What
an aggregation hands over is a function of what it read: the last successful
derivation of every endpoint at the moment it was read, in the order of the
endpoints, and the manual configuration.  The engine has that set afterwards because
the signature that decides whether it is handed over again tells sets apart
(`DockerAggregation`).  `DockerLabels` has the derivation.
-/

namespace Quicgate.Docker

open Quicgate.GoStrings Quicgate.Store Quicgate.JsonText Quicgate.TransitionSystem

/-! ### What a container asks for

Of `store.Host` and `store.Stream` the model has the fields that a container's labels set. -/

/-- A domain that passed the validation of hosts. -/
abbrev Name := {d : String // matchesDomainRe d = true}

structure Host where
  domains : List Name
  scheme : String
  host : String
  port : Int
  certMode : String -- auto | none
  forceSSL : Bool
  accessListID : Option Int
  skipTLSVerify : Bool
deriving DecidableEq

structure Stream where
  listenPort : Int
  protocol : String -- tcp | udp | both
  forwardHost : String
  forwardPort : Int
  accessListID : Option Int
deriving DecidableEq

structure Derived where
  container : String
  enabled : Bool
  host : Option Host
  streams : List Stream
deriving DecidableEq

/-- One container's derivation before conflicts are resolved. -/
structure RawDerived where
  name : String
  host : Option Host
  streams : List Stream
deriving DecidableEq

/-- A container of the listing: its name there, and what inspecting and deriving it gave. -/
abbrev Inspected := String × Except String Derived

/-- The loop of `reconcileEndpoint` over the containers. -/
def rawOf (list : List Inspected) : List RawDerived :=
  list.filterMap fun (name, outcome) =>
    match outcome with
    | .error _ => some ⟨name, none, []⟩
    | .ok d => if d.enabled then some ⟨d.container, d.host, d.streams⟩ else none

/-! ### Resolving conflicts

The manual configuration has every name and port first, then the containers in the order of the
endpoints. -/

def coveringWildcard (dom : String) : String :=
  if ['*', '.'].isPrefixOf dom.toList then ""
  else
    match cut '.' dom.toList with
    | (label, rest, true) => if label ≠ [] then String.ofList ('*' :: '.' :: rest) else ""
    | (_, _, false) => ""

/-- The names the manual hosts are configured with, enabled or not; none when they
could not be listed. -/
def existingDomains (table : CaseTable) : Option (List Store.Host) → List String
  | none => []
  | some hosts => hosts.flatMap fun h => h.domains.map (toLower table)

/-- The ports of quicgate itself and of the manual streams. -/
def usedPort (reserved : List Int) (streams : Option (List Store.Stream)) (port : Int) : Bool :=
  reserved.contains port ||
    match streams with
    | none => false
    | some streams => streams.any fun st =>
        st.listenPort ≤ port && port ≤ max st.listenPort st.listenPortEnd

structure Merged where
  claimed : List String
  takenPorts : List (Int × String) -- listen port and the container that has it
  hosts : List Host
  streams : List Stream
deriving DecidableEq

def Merged.empty : Merged := ⟨[], [], [], []⟩

def Merged.holder (m : Merged) (port : Int) : String :=
  ((m.takenPorts.find? fun entry => entry.1 == port).map Prod.snd).getD ""

def claimName (existing : List String) (acc : List String × List Name) (dom : Name) :
    List String × List Name :=
  if existing.contains dom.1 then acc
  else if coveringWildcard dom.1 ≠ "" && existing.contains (coveringWildcard dom.1) then acc
  else if acc.1.contains dom.1 then acc
  else (acc.1 ++ [dom.1], acc.2 ++ [dom])

def addHost (existing : List String) (m : Merged) : Option Host → Merged
  | none => m
  | some h =>
      let (claimed, kept) := h.domains.foldl (claimName existing) (m.claimed, [])
      if kept ≠ [] then { m with claimed, hosts := m.hosts ++ [{ h with domains := kept }] }
      else { m with claimed }

def addStream (used : Int → Bool) (who : String) (m : Merged) (st : Stream) : Merged :=
  if used st.listenPort then m
  else if m.holder st.listenPort ≠ "" then m
  else { m with
    takenPorts := (st.listenPort, who) :: m.takenPorts
    streams := m.streams ++ [st] }

def addContainer (existing : List String) (used : Int → Bool) (endpoint : String) (m : Merged)
    (rd : RawDerived) : Merged :=
  rd.streams.foldl (addStream used (endpoint ++ "/" ++ rd.name)) (addHost existing m rd.host)

def mergeAll (existing : List String) (used : Int → Bool) (eps : List (String × List RawDerived)) :
    Merged :=
  eps.foldl (fun m ep => ep.2.foldl (addContainer existing used ep.1) m) .empty

/-- A set of routes, as the engine is handed it. -/
structure RouteSet where
  hosts : List Host
  streams : List Stream
deriving DecidableEq

def RouteSet.names (set : RouteSet) : List String := set.hosts.flatMap fun h => h.domains.map (·.1)

def RouteSet.ports (set : RouteSet) : List Int := set.streams.map (·.listenPort)

/-! ### The signature of a set

The signature is the JSON text of the set. -/

def accessListJson : Option Int → Json
  | none => .null
  | some id => .num id

def Host.json (h : Host) : Json :=
  .obj [("id", .num 0), ("type", .str "proxy"), ("domains", .arr (h.domains.map fun d => .str d.1)),
    ("upstream", .obj [("scheme", .str h.scheme), ("host", .str h.host), ("port", .num h.port)]),
    ("certMode", .str h.certMode), ("certId", .null), ("forceSsl", .bool h.forceSSL),
    ("enabled", .bool true), ("accessListId", accessListJson h.accessListID),
    ("options", .obj [("preserveHost", .bool false), ("skipTlsVerify", .bool h.skipTLSVerify),
      ("blockIndexing", .bool false), ("blockExploits", .bool false), ("blockBadBots", .bool false),
      ("compression", .bool false), ("maintenance", .bool false), ("stickySessions", .bool false),
      ("hsts", .obj [("enabled", .bool false), ("maxAge", .num 0),
        ("includeSubdomains", .bool false), ("preload", .bool false)])])]

/-- `json.Marshal` of a container's stream, which leaves out an access list that is not set. -/
def Stream.json (st : Stream) : Json :=
  .obj ([("id", .num 0), ("listenPort", .num st.listenPort), ("protocol", .str st.protocol),
    ("forwardHost", .str st.forwardHost), ("forwardPort", .num st.forwardPort),
    ("allowedCidrs", .null)] ++
    (match st.accessListID with
      | none => []
      | some id => [("accessListId", .num id)]) ++
    [("enabled", .bool true)])

/-- A slice that nothing was appended to is nil. -/
def sliceJson (items : List Json) : Json := if items.isEmpty then .null else .arr items

def routeSignature (set : RouteSet) : List Char :=
  (sliceJson (set.hosts.map Host.json)).text ++
    '\n' :: (sliceJson (set.streams.map Stream.json)).text

/-! ### The provider

`aggMu` makes one aggregation the only one at a time; its phase is part of the
state, and one that waits for the lock has not begun. -/

/-- `epState`, with the name of its endpoint. -/
structure Endpoint where
  name : String
  connected : Bool
  errMsg : String
  raw : List RawDerived

def Endpoint.setDown (ep : Endpoint) (err : String) : Endpoint :=
  { ep with connected := false, errMsg := err }

/-- `reconcileEndpoint`: the listing failed, or its containers were derived. -/
def Endpoint.reconcile (ep : Endpoint) : Except String (List Inspected) → Endpoint
  | .error err => ep.setDown ("list containers: " ++ err)
  | .ok list => { ep with connected := true, errMsg := "", raw := rawOf list }

structure Manual where
  hosts : List Store.Host
  streams : List Store.Stream
  reserved : List Int

/-- What an aggregation has read; a list that could not be read is `none`. -/
structure Reads where
  hosts : Option (List Store.Host)
  reserved : List Int
  streams : Option (List Store.Stream)
  raws : List (List RawDerived) -- of the endpoints read so far

inductive Phase where
  | idle
  | listed (hosts : Option (List Store.Host))
  | reserved (hosts : Option (List Store.Host)) (ports : List Int)
  | reading (reads : Reads)

structure State where
  eps : List Endpoint
  manual : Manual
  phase : Phase
  lastSig : List Char
  engine : RouteSet -- what `SetDockerRoutes` stored last
  applied : List RouteSet -- what it was called with, in order

def init (names : List String) (manual : Manual) : State where
  eps := names.map fun name => ⟨name, false, "", []⟩
  manual := manual
  phase := .idle
  lastSig := []
  engine := ⟨[], []⟩
  applied := []

inductive Label where
  | reconcile (i : Nat) (outcome : Except String (List Inspected))
  | setDown (i : Nat) (err : String)
  | change (manual : Manual)
  | listHosts (ok : Bool) -- an aggregation takes the lock
  | reservedPorts
  | listStreams (ok : Bool)
  | readEndpoint (i : Nat)
  | finish

/-- The set an aggregation computes from what it read. -/
def Reads.aggregate (table : CaseTable) (names : List String) (r : Reads) : RouteSet :=
  let m := mergeAll (existingDomains table r.hosts) (usedPort r.reserved r.streams)
    (names.zip r.raws)
  ⟨m.hosts, m.streams⟩

/-- The end of `aggregate`: `SetDockerRoutes` gets a set with another signature. -/
def State.apply (s : State) (set : RouteSet) : State :=
  if routeSignature set ≠ s.lastSig then
    { s with lastSig := routeSignature set, engine := set, applied := s.applied ++ [set] }
  else s

def step (table : CaseTable) (s : State) : Label → Option State
  | .reconcile i outcome =>
      s.eps[i]?.map fun ep => { s with eps := s.eps.set i (ep.reconcile outcome) }
  | .setDown i err => s.eps[i]?.map fun ep => { s with eps := s.eps.set i (ep.setDown err) }
  | .change manual => some { s with manual }
  | .listHosts ok =>
      match s.phase with
      | .idle => some { s with phase := .listed (if ok then some s.manual.hosts else none) }
      | _ => none
  | .reservedPorts =>
      match s.phase with
      | .listed hosts => some { s with phase := .reserved hosts s.manual.reserved }
      | _ => none
  | .listStreams ok =>
      match s.phase with
      | .reserved hosts ports =>
          let streams := if ok then some s.manual.streams else none
          some { s with phase := .reading ⟨hosts, ports, streams, []⟩ }
      | _ => none
  | .readEndpoint i =>
      match s.phase, s.eps[i]? with
      | .reading r, some ep =>
          if i = r.raws.length then
            some { s with phase := .reading { r with raws := r.raws ++ [ep.raw] } }
          else none
      | _, _ => none
  | .finish =>
      match s.phase with
      | .reading r =>
          if r.raws.length = s.eps.length then
            some { s.apply (r.aggregate table (s.eps.map (·.name))) with phase := .idle }
          else none
      | _ => none

end Quicgate.Docker
