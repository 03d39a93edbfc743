import Quicgate.Netip

/-!
# What the LAN forwarder lets a device reach

The configuration of the WireGuard endpoint (`internal/wg/manager.go`) and the
forwarder's decision (`internal/wg/forward.go`): destinations nobody may reach,
this machine's own addresses, and the device's routes, in that order.  Every
refusal keeps the text the flow log shows.

The second half states what each stage of the decision establishes; callers use
`neverRoutable_eq_empty` and `allowed_of_decide` and never unfold the stages.
The modules of the running forwarder (`WgManager`, `WgFlows`, `VpnRoutes`) take
the decision from here.
-/

namespace Quicgate.WgPolicy

open Quicgate.Netip

/-! ### The configuration

What the engine hands to the endpoint at every reload: the sites and devices that may connect,
and the `Guard`, which is what the forwarder must know about the machine it runs on.  A route
without ports grants every port. -/

structure PortRange where
  fromPort : UInt16
  toPort : UInt16
deriving DecidableEq, Repr

/-- One destination a device may reach. No ports means every port. -/
structure Route where
  pre : Prefix
  proto : String -- tcp | udp | any
  ports : List PortRange
deriving DecidableEq, Repr

/-- What the forwarder must know about the machine it runs on. The source's
functions are their answers here; a nil function answers nothing. -/
structure Guard where
  ownAddrs : List Addr
  ownNets : List Prefix
  listenerPorts : List UInt16
  protectedAddrs : List Addr
  protectedEndpoints : List AddrPort
deriving DecidableEq, Repr

structure Site where
  id : Int
  name : String
  publicKey : String
  presharedKey : String
  address : Addr
  networks : List Prefix
  endpoint : String
  keepalive : Int
  enabled : Bool
deriving DecidableEq, Repr

/-- A WireGuard peer that belongs to a person or to the admin. `untilTime` is the
moment its authorization ends, if it has one. -/
structure Device where
  id : Int
  name : String
  owner : String
  publicKey : String
  presharedKey : String
  address : Addr
  untilTime : Option Int
  routes : List Route
deriving DecidableEq, Repr

structure Config where
  privateKey : String
  listenPort : Int
  address : Addr
  tunnel : Prefix
  sites : List Site
  devices : List Device
  forward : Bool
  guard : Guard
deriving DecidableEq, Repr

/-- What an admission learns about who is at the other end. -/
structure Peer where
  key : String -- "site:1", "device:7"
  site : Bool
  id : Int
  name : String
  owner : String
  routes : List Route
deriving DecidableEq, Repr

/-! ### The decision

`neverRoutable` gives the reason why nobody may reach an address, or `""`; `decide` gives the
device's own answer after it.  The last address of a subnet is computed as the source does,
byte by byte. -/

def PortRange.has (range : PortRange) (port : UInt16) : Bool :=
  range.fromPort ≤ port && port ≤ range.toPort

def Route.allows (r : Route) (proto : String) (dst : AddrPort) : Bool :=
  if r.proto ≠ "any" ∧ r.proto ≠ proto then false
  else if !r.pre.contains dst.addr then false
  else if r.ports = [] then true
  else r.ports.any (·.has dst.port)

def cidr4 (a b c d bits : Nat) : Prefix :=
  prefixFrom (.v4 (BitVec.ofNat 32 (((a * 256 + b) * 256 + c) * 256 + d))) bits

def v4Loopback : Prefix := cidr4 127 0 0 0 8
def v4LinkLocal : Prefix := cidr4 169 254 0 0 16
def v4Multicast : Prefix := cidr4 224 0 0 0 4
def v4Reserved : Prefix := cidr4 240 0 0 0 4
def v4This : Prefix := cidr4 0 0 0 0 8

/-- The last address of an IPv4 prefix. Bit `7 - i % 8` of byte `i / 8` is bit
`31 - i` of the word. -/
def lastV4 (p : Prefix) : Addr :=
  match p.masked.ip with
  | .v4 x => .v4 ((List.range' p.len (32 - p.len)).foldl
      (fun b i => b ||| 1#32 <<< (31 - i)) x)
  | a => a

/-- The refusal of a network or broadcast address by one own subnet. -/
def ownNetRefusal (a : Addr) (own : Prefix) : Option String :=
  let n := own.masked
  match n.ip with
  | .v4 x =>
      if n.bits > 30 ∨ ¬ n.contains a = true then none
      else if a = n.ip ∨ a = lastV4 n then
        some ("the network or broadcast address of " ++ String.ofList (prefixText4 x n.len))
      else none
  | _ => none

def neverRoutable (cfg : Config) (dst : AddrPort) : String :=
  let a := dst.addr
  if !a.is4 then "only IPv4 is forwarded"
  else if dst.port = 0 then "port 0"
  else if v4Loopback.contains a then "loopback"
  else if v4LinkLocal.contains a then "link-local (this includes cloud metadata addresses)"
  else if v4Multicast.contains a then "multicast"
  else if v4Reserved.contains a || v4This.contains a then
    "reserved address (this includes the limited broadcast)"
  else if cfg.tunnel.isValid && cfg.tunnel.contains a then
    "the tunnel network: peers never reach each other"
  else if cfg.sites.any fun s => s.networks.any (·.contains a) then "a site's network"
  else if cfg.guard.protectedEndpoints.any (· == dst) then "a protected endpoint"
  else (cfg.guard.ownNets.findSome? (ownNetRefusal a)).getD ""

def isOwn (g : Guard) (a : Addr) : Bool :=
  g.protectedAddrs.any (· == a) || g.ownAddrs.any (·.unmap == a)

def decide (cfg : Config) (routes : List Route) (proto : String) (dst : AddrPort) :
    Bool × String :=
  let dst : AddrPort := { addr := dst.addr.unmap, port := dst.port }
  if neverRoutable cfg dst ≠ "" then (false, neverRoutable cfg dst)
  else if isOwn cfg.guard dst.addr then
    if cfg.guard.listenerPorts.any (· == dst.port) then
      (false, "one of quicgate's own listeners: reach its hosts through the tunnel address instead")
    else if routes.any fun r => r.pre.bits == 32 && !r.ports.isEmpty && r.allows proto dst then
      (true, "")
    else (false,
      "this machine's own address: it needs a route for exactly this host with explicit ports")
  else if routes.any (·.allows proto dst) then (true, "")
  else (false, "no route in the device's policy")

/-! ### What the stages establish

The loop of `lastV4` is the all-ones address (`lastV4_eq`), so the refusal by an own subnet is
a statement about two addresses. -/

def broadcast4 (x : BitVec 32) (bits : Nat) : BitVec 32 := x ||| ~~~ (leading 32 bits)

theorem allows_iff {r : Route} {proto : String} {dst : AddrPort} :
    r.allows proto dst = true ↔ (r.proto = "any" ∨ r.proto = proto) ∧
      r.pre.contains dst.addr = true ∧
      (r.ports = [] ∨ ∃ range ∈ r.ports, range.has dst.port = true) := by
  unfold Route.allows
  by_cases hproto : r.proto = "any" ∨ r.proto = proto
  · rw [if_neg (by tauto)]
    cases hpre : r.pre.contains dst.addr with
    | false => simp
    | true =>
        by_cases hports : r.ports = []
        · simp [hproto, hports]
        · simp [hproto, hports]
  · rw [if_pos (by tauto)]
    simp [hproto]

/-- The loop of `lastV4` sets exactly the bits below the prefix. -/
theorem getLsbD_setBits (x : BitVec 32) (bits count i : Nat) (hend : bits + count = 32) :
    ((List.range' bits count).foldl (fun b i => b ||| 1#32 <<< (31 - i)) x).getLsbD i =
      (x.getLsbD i || Decidable.decide (i < count)) := by
  induction count generalizing bits x with
  | zero => simp
  | succ count ih =>
      have hbits : 31 - bits = count := by omega
      rw [List.range'_succ, List.foldl_cons, ih _ (bits + 1) (by omega), hbits]
      have hone : (1#32 <<< count).getLsbD i = Decidable.decide (i = count) := by
        by_cases hi : i = count
        · subst hi
          simp
          omega
        · simp only [BitVec.getLsbD_shiftLeft, BitVec.getLsbD_one, hi]
          by_cases hlt : i < count
          · simp [hlt]
          · have : ¬ i - count = 0 := by omega
            simp [this]
      rw [BitVec.getLsbD_or, hone]
      by_cases hi : i = count
      · simp [hi]
      · have : (i < count + 1) ↔ i < count := by omega
        simp [hi, this]

theorem lastV4_eq {p : Prefix} {x : BitVec 32} (hvalid : p.isValid = true)
    (hip : p.ip = .v4 x) : lastV4 p = .v4 (broadcast4 x p.len) := by
  have hlen : p.len ≤ 32 := by simpa [hip, Addr.bitLen] using Prefix.len_le hvalid
  have hmasked : p.masked.ip = .v4 (x &&& leading 32 p.len) := by
    simp only [Prefix.masked, hvalid, if_true, hip]
    exact (toPrefix_v4 hlen).1
  simp only [lastV4, hmasked]
  congr 1
  apply BitVec.eq_of_getLsbD_eq
  intro i hi
  rw [getLsbD_setBits _ _ _ _ (by omega)]
  simp only [broadcast4, BitVec.getLsbD_and, BitVec.getLsbD_or, BitVec.getLsbD_not,
    getLsbD_leading, hi]
  by_cases hlow : i < 32 - p.len
  · have : ¬ 32 - p.len ≤ i := by omega
    simp [hlow, this]
  · have : 32 - p.len ≤ i := by omega
    simp [hlow, this]

theorem agree_broadcast4 (x : BitVec 32) (bits : Nat) :
    agree bits x (broadcast4 x bits) = true := by
  rw [agree_iff]
  intro i hi
  simp only [broadcast4, BitVec.getLsbD_or, BitVec.getLsbD_not, getLsbD_leading]
  by_cases hlt : i < 32
  · simp [hlt, hi]
  · simp [hlt]

/-- A subnet of at most 30 bits that does not object to `a` has `a` neither as its
network address nor as its broadcast address. -/
theorem ownNetRefusal_eq_none {a : Addr} {n : Prefix} {x : BitVec 32}
    (hvalid : n.isValid = true) (hip : n.ip = .v4 x) (hbits : n.bits ≤ 30)
    (h : ownNetRefusal a n = none) :
    a ≠ .v4 (x &&& leading 32 n.len) ∧ a ≠ .v4 (broadcast4 x n.len) := by
  have hlen : n.len ≤ 32 := by simpa [hip, Addr.bitLen] using Prefix.len_le hvalid
  obtain ⟨hmip, hmvalid, hmlen⟩ := toPrefix_v4 (x := x) hlen
  have hmasked : n.masked = (Addr.v4 x).toPrefix n.len := by
    simp [Prefix.masked, hvalid, hip]
  have hmbits : ¬ n.masked.bits > 30 := by
    rw [Prefix.bits_eq_len (hmasked ▸ hmvalid), hmasked, hmlen]
    rw [Prefix.bits_eq_len hvalid] at hbits
    omega
  have hlast : lastV4 n.masked = .v4 (broadcast4 x n.len) := by
    rw [lastV4_eq (hmasked ▸ hmvalid) (hmasked ▸ hmip), hmasked, hmlen]
    congr 1
    apply BitVec.eq_of_getLsbD_eq
    intro i hi
    simp only [broadcast4, BitVec.getLsbD_or, BitVec.getLsbD_and, BitVec.getLsbD_not,
      getLsbD_leading, hi]
    by_cases hlow : 32 - n.len ≤ i <;> simp [hlow]
  -- an address the subnet contains is compared with both, so neither can be `a`
  have hcompared : n.masked.contains a = true →
      a ≠ .v4 (x &&& leading 32 n.len) ∧ a ≠ .v4 (broadcast4 x n.len) := by
    intro hcontains
    have hip' : n.masked.ip = .v4 (x &&& leading 32 n.len) := hmasked ▸ hmip
    simp only [ownNetRefusal, hip', hlast, hmbits, hcontains, not_true, or_self,
      if_false] at h
    by_contra hcontra
    have heq : a = .v4 (x &&& leading 32 n.len) ∨ a = .v4 (broadcast4 x n.len) := by
      tauto
    simp [heq] at h
  have hagree : ∀ y, agree n.len x y = true → n.masked.contains (.v4 y) = true := by
    intro y hy
    rw [Prefix.contains_masked]
    exact (Prefix.contains_v4_iff hip).mpr ⟨hvalid, hy⟩
  constructor
  · rintro rfl
    exact (hcompared (hagree _ (agree_comm (agree_and_leading (le_refl _) x)))).1 rfl
  · rintro rfl
    exact (hcompared (hagree _ (agree_broadcast4 x n.len))).2 rfl

theorem ownNetRefusal_ne_empty (a : Addr) (n : Prefix) : ownNetRefusal a n ≠ some "" := by
  unfold ownNetRefusal
  simp only
  split
  · split
    · simp
    · split
      · intro h
        have hlen := congrArg String.length (Option.some.inj h)
        rw [String.length_append] at hlen
        simp at hlen
      · simp
  · simp

/-- What a destination that nobody is kept from is not. -/
structure Routable (cfg : Config) (dst : AddrPort) : Prop where
  is4 : ∃ x, dst.addr = .v4 x
  port : dst.port ≠ 0
  tunnel : cfg.tunnel.contains dst.addr = false
  sites : ∀ s ∈ cfg.sites, ∀ n ∈ s.networks, n.contains dst.addr = false
  endpoints : dst ∉ cfg.guard.protectedEndpoints
  ownNets : ∀ n ∈ cfg.guard.ownNets, ∀ x, n.isValid = true → n.ip = .v4 x → n.bits ≤ 30 →
    dst.addr ≠ .v4 (x &&& leading 32 n.len) ∧ dst.addr ≠ .v4 (broadcast4 x n.len)

theorem neverRoutable_eq_empty {cfg : Config} {dst : AddrPort}
    (h : neverRoutable cfg dst = "") : Routable cfg dst := by
  simp only [neverRoutable] at h
  split_ifs at h with h4 hport _ _ _ _ htunnel hsites hendpoints
  all_goals first | exact absurd h (by decide) | skip
  have hnets : ∀ n ∈ cfg.guard.ownNets, ownNetRefusal dst.addr n = none := by
    cases hfind : cfg.guard.ownNets.findSome? (ownNetRefusal dst.addr) with
    | none => exact List.findSome?_eq_none_iff.mp hfind
    | some why =>
        obtain rfl : why = "" := by simpa [hfind] using h
        obtain ⟨n, _, hn⟩ := List.exists_of_findSome?_eq_some hfind
        exact absurd hn (ownNetRefusal_ne_empty _ _)
  refine ⟨Addr.exists_eq_v4 (by simpa using h4), hport, ?_, ?_, ?_, ?_⟩
  · cases hc : cfg.tunnel.contains dst.addr with
    | false => rfl
    | true => simp [hc, Prefix.isValid_of_contains hc] at htunnel
  · intro s hs n hn
    simp only [List.any_eq_true, not_exists, not_and] at hsites
    simpa using hsites s hs n hn
  · intro hmem
    exact hendpoints (List.any_eq_true.mpr ⟨dst, hmem, by simp⟩)
  · intro n hn x hvalid hip hbits
    exact ownNetRefusal_eq_none hvalid hip hbits (hnets n hn)

/-- What an allowed flow has passed: the fixed refusals, and the routes, of which an
own address needs one for that host alone. -/
theorem allowed_of_decide {cfg : Config} {routes : List Route} {proto : String}
    {dst : AddrPort} (h : (decide cfg routes proto dst).1 = true) :
    Routable cfg ⟨dst.addr.unmap, dst.port⟩ ∧
      (isOwn cfg.guard dst.addr.unmap = true →
        dst.port ∉ cfg.guard.listenerPorts ∧
        ∃ r ∈ routes, r.pre.bits = 32 ∧ r.ports ≠ [] ∧
          r.allows proto ⟨dst.addr.unmap, dst.port⟩ = true) ∧
      ∃ r ∈ routes, r.allows proto ⟨dst.addr.unmap, dst.port⟩ = true := by
  simp only [decide] at h
  split at h
  · simp at h
  rename_i hnever
  have hroutable := neverRoutable_eq_empty (by simpa using hnever)
  split at h
  · split at h
    · simp at h
    rename_i hown hlistener
    split at h
    · rename_i hany
      obtain ⟨r, hr, hroute⟩ := List.any_eq_true.mp hany
      simp only [Bool.and_eq_true, beq_iff_eq, Bool.not_eq_true', List.isEmpty_eq_false_iff]
        at hroute
      refine ⟨hroutable, fun _ => ⟨?_, r, hr, hroute.1.1, hroute.1.2, hroute.2⟩,
        r, hr, hroute.2⟩
      intro hmem
      exact hlistener (List.any_eq_true.mpr ⟨_, hmem, by simp⟩)
    · simp at h
  · rename_i hown
    split at h
    · rename_i hany
      obtain ⟨r, hr, hroute⟩ := List.any_eq_true.mp hany
      exact ⟨hroutable, fun hcontra => absurd hcontra hown, r, hr, hroute⟩
    · simp at h

end Quicgate.WgPolicy
