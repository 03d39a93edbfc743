import Mathlib.Data.List.Sort
import Quicgate.GoMaps
import Quicgate.GoNet
import Quicgate.WgPolicy

/-!
# The WireGuard endpoint

What `Manager.Apply` and `Manager.Close` do to the endpoint
(`internal/wg/manager.go`): the peers a configuration asks for, when an instance
must be replaced, and how the device is written, with every failure a write or a
start can have.  The connections that an operation closes are listed in its
result and closed by the flow side (`Quicgate.WgFlows`).

Besides what the source keeps, an instance keeps every peer it was ever asked to
configure (`sent`), and the endpoint keeps the instances that were stopped
(`retired`): what the results about ownership are about (`Quicgate.WgOwnership`).

`Endpoint.apply` is put together from the functions of the source, in their order:
`resetsFor` and `prepared` up to the write, `syncOrStop` with the write and its
second try, and `syncPeersLocked` for the write itself.
-/

namespace Quicgate.WgManager

open Quicgate.GoMaps Quicgate.GoStrings Quicgate.GoNet Quicgate.Netip Quicgate.WgPolicy

/-! ### Peers

Sites and devices become one kind of peer, each with a key of the manager's own; what an admission
learns about one is its `toPeer`. -/

structure ManagedPeer where
  key : String -- "site:1", "device:7"
  site : Bool
  id : Int
  name : String
  owner : String
  publicKey : String
  psk : String
  address : Addr
  networks : List Prefix
  endpoint : String
  keepalive : Int
  untilTime : Option Int
  routes : List Route
deriving DecidableEq, Repr

def siteKey (id : Int) : String := "site:" ++ toString id

def sitePeer (s : Site) : ManagedPeer where
  key := siteKey s.id
  site := true
  id := s.id
  name := s.name
  owner := ""
  publicKey := s.publicKey
  psk := s.presharedKey
  address := s.address
  networks := s.networks
  endpoint := s.endpoint
  keepalive := s.keepalive
  untilTime := none
  routes := []

def devicePeer (d : Device) : ManagedPeer where
  key := "device:" ++ toString d.id
  site := false
  id := d.id
  name := d.name
  owner := d.owner
  publicKey := d.publicKey
  psk := d.presharedKey
  address := d.address
  networks := []
  endpoint := ""
  keepalive := 0
  untilTime := d.untilTime
  routes := d.routes

namespace ManagedPeer

def toPeer (p : ManagedPeer) : Peer := ⟨p.key, p.site, p.id, p.name, p.owner, p.routes⟩

def active (p : ManagedPeer) (now : Int) : Bool := p.untilTime.all fun t => now < t

/-- Everything the peer owns: its /32 and, for a site, its networks. -/
def prefixes (p : ManagedPeer) : List Prefix :=
  prefixFrom p.address p.address.bitLen :: p.networks.map Prefix.masked

end ManagedPeer

/-- The 32 bytes of a WireGuard key. The source keeps them as hexadecimal text. -/
def keyHex (b64 : String) : Option (List UInt8) :=
  (base64Decode (trimSpace b64.toList)).filter fun raw => raw.length == 32

/-- Of peers with the same key the first stays. A key that does not parse is never the
same as another. -/
def dropSameKey (seen : List (List UInt8)) : List ManagedPeer → List ManagedPeer
  | [] => []
  | p :: rest =>
      match keyHex p.publicKey with
      | none => p :: dropSameKey seen rest
      | some id => if seen.contains id then dropSameKey seen rest
          else p :: dropSameKey (id :: seen) rest

/-- The peers a configuration asks for, by their keys. -/
def wanted (cfg : Config) : List ManagedPeer :=
  let out := (cfg.sites.filter (·.enabled)).map sitePeer ++ cfg.devices.map devicePeer
  dropSameKey [] (out.insertionSort fun p q => p.key ≤ q.key)

/-! ### Instances

An instance goes down when the new configuration would change who owns an address it has seen, or
something only a new device can take; a peer whose public key changes closes its connections. -/

/-- A peer as it is written to the device: its key inside quicgate, and what the device
is told. -/
structure Configured where
  key : String
  publicKey : List UInt8
  psk : List UInt8
  endpoint : String -- "" leaves it as it is
  keepalive : Int
  allowedIPs : List Prefix
deriving DecidableEq, Repr

/-- One device with its stack. `owned` remembers every prefix a peer has owned in it;
`sent` every peer it was asked to configure. -/
structure Instance where
  id : Nat
  port : Int
  addr : Addr
  key : String
  fwd : Bool
  owned : GoMap Prefix String
  sent : List Configured
deriving DecidableEq

structure Endpoint where
  inst : Option Instance
  retired : List Instance
  nextID : Nat
  cfg : Config
  peers : GoMap String ManagedPeer
  resets : Nat
  resolved : GoMap String String
  warnings : GoMap String String

def noConfig : Config :=
  ⟨"", 0, .zero, prefixFrom .zero 0, [], [], false, ⟨[], [], [], [], []⟩⟩

def Endpoint.init : Endpoint := ⟨none, [], 0, noConfig, ∅, 0, ∅, ∅⟩

/-- What the environment answers during one `Apply`: what the endpoint names resolve to,
where a public key was last heard from, whether the device starts and takes the first
and the second write, and the time. -/
structure Answers where
  lookup : String → Except String String
  lastSeen : String → String
  started : Bool
  wrote : Bool
  rewrote : Bool
  now : Int

/-- What an operation closes: the connections of one peer, of all of them, or the flows
that the configuration no longer allows. -/
inductive Closing where
  | peer (key : String)
  | all
  | review
deriving DecidableEq, Repr

/-- The instance cannot take the configuration: it would change who owns an address the
instance has seen, or something only a new device can take. -/
def Instance.needsReset (inst : Instance) (cfg : Config) : Bool :=
  inst.key != cfg.privateKey || inst.port != cfg.listenPort || inst.addr != cfg.address ||
    inst.fwd != cfg.forward ||
    (wanted cfg).any fun p => p.prefixes.any fun pre =>
      inst.owned.pairs.any fun o => o.2 != p.key && o.1.overlaps pre

def rekeyed (peers : GoMap String ManagedPeer) (cfg : Config) : Bool :=
  (wanted cfg).any fun p => (peers.lookup p.key).any fun old => old.publicKey != p.publicKey

/-! ### Writing the device

The commands are those of WireGuard's configuration protocol: a whole replacement at the first
write, else removals and peers.  The endpoint address of a peer is written only when it is new or
changed, and one that does not resolve is a warning. -/

inductive Command where
  | replacePeers
  | remove (publicKey : List UInt8)
  | configure (c : Configured)
deriving DecidableEq, Repr

/-- What is asked of the device, as far as it configures a peer. -/
def Command.configured : Command → Option Configured
  | .configure c => some c
  | _ => none

@[simp] theorem Command.configured_replacePeers : replacePeers.configured = none := rfl

@[simp] theorem Command.configured_remove (pub : List UInt8) : (remove pub).configured = none := rfl

@[simp] theorem Command.configured_configure (c : Configured) :
    (configure c).configured = some c := rfl

def peerIPC (p : ManagedPeer) (endpoint : String) (located : Bool) : Option Command := do
  let pub ← keyHex p.publicKey
  let psk ← keyHex p.psk
  return .configure ⟨p.key, pub, psk, endpoint, if located then p.keepalive else 0, p.prefixes⟩

/-- The removal of peers that are gone: their connections end before they do. -/
structure Removal where
  deleted : List String
  closed : List String
  commands : List Command
  ok : Bool

def removeGone (replaceAll : Bool) : List (String × ManagedPeer) → Removal
  | [] => ⟨[], [], [], true⟩
  | (key, old) :: rest =>
      let next := removeGone replaceAll rest
      if replaceAll then { next with deleted := key :: next.deleted, closed := key :: next.closed }
      else match keyHex old.publicKey with
        | none => ⟨[], [key], [], false⟩
        | some pub =>
            ⟨key :: next.deleted, key :: next.closed, .remove pub :: next.commands, next.ok⟩

/-- The endpoint address to write for one peer, with what is remembered about it. -/
def endpointOf (replaceAll known : Bool) (ans : Answers) (p : ManagedPeer)
    (resolved warnings : GoMap String String) :
    String × GoMap String String × GoMap String String :=
  let warnings := warnings.erase p.key
  if p.endpoint ≠ "" then
    match ans.lookup p.key with
    | .error why => ("", resolved, warnings.insert p.key why)
    | .ok addr =>
        if addr ≠ (resolved.lookup p.key).getD "" || replaceAll || !known then
          (addr, resolved.insert p.key addr, warnings)
        else ("", resolved, warnings)
  else if !known || replaceAll then
    (ans.lastSeen p.publicKey, resolved.erase p.key, warnings)
  else ("", resolved, warnings)

/-- The commands for the wanted peers, with the addresses and warnings afterwards. `none`
in place of the commands is a key that does not parse. -/
def writePeers (replaceAll : Bool) (ans : Answers) (peers : GoMap String ManagedPeer) :
    List ManagedPeer → GoMap String String → GoMap String String →
    Option (List Command) × GoMap String String × GoMap String String
  | [], resolved, warnings => (some [], resolved, warnings)
  | p :: rest, resolved, warnings =>
      match endpointOf replaceAll (peers.lookup p.key).isSome ans p resolved warnings with
      | (endpoint, resolved, warnings) =>
          let located := endpoint != "" || (resolved.lookup p.key).getD "" != "" ||
            ans.lastSeen p.publicKey != ""
          match peerIPC p endpoint located with
          | none => (none, resolved, warnings)
          | some command =>
              match writePeers replaceAll ans peers rest resolved warnings with
              | (commands, after) => (commands.map (command :: ·), after)

def wantMap (want : List ManagedPeer) : GoMap String ManagedPeer :=
  GoMap.insertAll ∅ (want.map fun p => (p.key, p))

/-- The peer is gone, disabled, expired or re-keyed. -/
def gone (want : GoMap String ManagedPeer) (key : String) (old : ManagedPeer) : Bool :=
  !(want.lookup key).any fun now => now.publicKey == old.publicKey

def noteOwned (owned : GoMap Prefix String) (want : GoMap String ManagedPeer) :
    GoMap Prefix String :=
  owned.insertAll (want.pairs.flatMap fun o => o.2.prefixes.map fun pre => (pre, o.1))

structure Synced where
  endpoint : Endpoint
  closed : List Closing
  ok : Bool

/-- `syncPeersLocked` in a running instance. `wrote` is whether the device takes the
commands; it may have taken some of them when it does not. -/
def syncPeersLocked (e : Endpoint) (inst : Instance) (cfg : Config) (replaceAll : Bool)
    (ans : Answers) (wrote : Bool) : Synced :=
  let want := wantMap (wanted cfg)
  let removal := removeGone replaceAll (e.peers.pairs.filter fun o => gone want o.1 o.2)
  let peers := e.peers.eraseAll removal.deleted
  let closed := removal.closed.map Closing.peer
  if !removal.ok then ⟨{ e with peers := peers }, closed, false⟩
  else
    match writePeers replaceAll ans peers (wanted cfg) e.resolved e.warnings with
    | (none, resolved, warnings) =>
        ⟨{ e with peers := peers, resolved := resolved, warnings := warnings }, closed, false⟩
    | (some written, resolved, warnings) =>
        let commands := (if replaceAll then [.replacePeers] else []) ++ removal.commands ++ written
        let sent := inst.sent ++ commands.filterMap Command.configured
        let e := { e with resolved := resolved, warnings := warnings }
        if commands = [] || wrote then
          ⟨{ e with
              peers := peers.insertAll want.pairs
              inst := some { inst with owned := noteOwned inst.owned want, sent := sent } },
            closed, true⟩
        else ⟨{ e with peers := peers, inst := some { inst with sent := sent } }, closed, false⟩

/-! ### Operations

The operations hold the manager's lock from end to end. -/

/-- `stopLocked`. Every connection is closed with it. -/
def Endpoint.stopLocked (e : Endpoint) : Endpoint :=
  { e with inst := none, retired := e.retired ++ e.inst.toList, peers := ∅, resolved := ∅ }

def Instance.fresh (id : Nat) (cfg : Config) : Instance :=
  ⟨id, cfg.listenPort, cfg.address, cfg.privateKey, cfg.forward, ∅, []⟩

def Endpoint.startLocked (e : Endpoint) (cfg : Config) (started : Bool) : Option Endpoint :=
  if started then
    some { e with nextID := e.nextID + 1, inst := some (.fresh (e.nextID + 1) cfg) }
  else none

/-- The peers whose authorization is over (`scheduleExpiryLocked`). -/
def Endpoint.expired (e : Endpoint) (now : Int) : List Closing :=
  if e.inst.isNone then []
  else (e.peers.pairs.filter fun o => !o.2.active now).map fun o => Closing.peer o.1

def acceptable (cfg : Config) : Bool :=
  (keyHex cfg.privateKey).isSome && cfg.address.is4 && 0 < cfg.listenPort &&
    cfg.listenPort ≤ 65535

structure Applied where
  endpoint : Endpoint
  closed : List Closing

/-- The peers are written, a second time and whole when the first write fails; when that
fails too the endpoint is down. -/
def Endpoint.syncOrStop (e : Endpoint) (inst : Instance) (cfg : Config) (ans : Answers) : Applied :=
  let first := syncPeersLocked e inst cfg false ans ans.wrote
  if first.ok then
    ⟨first.endpoint, first.closed ++ .review :: first.endpoint.expired ans.now⟩
  else
    let inst := first.endpoint.inst.getD inst
    let second := syncPeersLocked first.endpoint inst cfg true ans ans.rewrote
    if second.ok then
      ⟨second.endpoint, first.closed ++ second.closed ++ .review :: second.endpoint.expired ans.now⟩
    else ⟨second.endpoint.stopLocked, first.closed ++ second.closed ++ [.all]⟩

def Endpoint.resetsFor (e : Endpoint) (cfg : Config) : Bool :=
  e.inst.any (·.needsReset cfg) || (e.inst.isSome && rekeyed e.peers cfg)

/-- The endpoint before the peers are written: stopped when the instance must go, with
the configuration in place. -/
def Endpoint.prepared (e : Endpoint) (cfg : Config) : Endpoint :=
  { (if e.resetsFor cfg then { e.stopLocked with resets := e.resets + 1 } else e) with
    cfg := cfg }

/-- `Manager.Apply`. -/
def Endpoint.apply (e : Endpoint) (cfg : Config) (ans : Answers) : Applied :=
  if !acceptable cfg then ⟨e, []⟩
  else
    let closed := if e.resetsFor cfg then [Closing.all] else []
    let base := e.prepared cfg
    match (if base.inst.isSome then some base else base.startLocked cfg ans.started) with
    | none => ⟨base, closed⟩
    | some running =>
        match running.inst with
        | none => ⟨running, closed⟩
        | some inst =>
            let applied := running.syncOrStop inst cfg ans
            ⟨applied.endpoint, closed ++ applied.closed⟩

def Endpoint.instances (e : Endpoint) : List Instance := e.retired ++ e.inst.toList

def Endpoint.candidates (e : Endpoint) (a : Addr) (now : Int) : List ManagedPeer :=
  (e.peers.pairs.map Prod.snd).filter fun p =>
    p.active now && (p.address == a.unmap || p.networks.any (·.contains a.unmap))

/-- `peerByAddrLocked`: the first of the candidates. -/
def Endpoint.peerByAddr (e : Endpoint) (a : Addr) (now : Int) : Option ManagedPeer :=
  (e.candidates a now).head?

end Quicgate.WgManager
