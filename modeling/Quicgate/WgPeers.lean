import Quicgate.Base64
import Quicgate.SqlTable
import Quicgate.StoreConfig
import Quicgate.VpnRoutes

/-!
# The stored peers of the tunnel

The tables `wg_sites`, `wg_devices` and `wg_freed` and the functions of
`internal/store` that write them: the spelling of a public key, the search for an
address, the creation, update and end of sites and devices, and the rewriting of keys
when the store is opened.  Each function is one transaction here, and so one step.

An address column holds `Addr.String`, which `ParseAddr` reads back
(`Netip.parseAddr_text4`), so the rows hold the address itself.  Of `revoked_at` only
whether it is set is kept, of `created_at` the instant.  The preshared key is sealed
inside the transactions; `sealing` is what comes of that.

Four modules follow the tables through runs of these calls: `WgKeyOwners` the keys,
`WgAddresses` the addresses, `WgNetwork` the network and `WgSites` the networks of sites;
`DeviceLimits` has the requests that create devices.
-/

namespace Quicgate.Wg

open Quicgate.GoStrings Quicgate.GoNet Quicgate.Netip Quicgate.Checks Quicgate.Sql
open Quicgate.Store (Lib trim)
open Quicgate.Base64 (trimSpace_encode)
open Quicgate.VpnRoutes (VPNRoute RouteError)

/-! ### Keys

A key has one canonical text, which is the encoding of its bytes; other texts of the same
bytes are rewritten to it. -/

/-- The bytes of a key as the tunnel reads it: `keyHex`, which writes them in hex. -/
def keyBytes (b64 : String) : Option (List UInt8) :=
  (base64Decode (trimSpace b64.toList)).filter (·.length == 32)

def keyText (raw : List UInt8) : String := String.ofList (Base64.encode raw)

def canonicalWGKey (key : String) : Check String :=
  let key := trimSpace key.toList
  if key.any (['\r', '\n', '\t', ' '].contains ·) then
    .error "a WireGuard key is 32 bytes in base64, without line breaks"
  else match Base64.strictDecode key with
    | some raw =>
        if raw.length = 32 then .ok (keyText raw) else .error
          "a WireGuard key is 32 bytes in base64"
    | none => .error "a WireGuard key is 32 bytes in base64"

theorem toList_keyText (raw : List UInt8) : (keyText raw).toList = Base64.encode raw :=
  String.toList_ofList

theorem keyBytes_keyText {raw : List UInt8} (h : raw.length = 32) :
    keyBytes (keyText raw) = some raw := by
  unfold keyBytes
  rw [toList_keyText, trimSpace_encode, Base64.base64Decode_encode]
  simp [h]

theorem canonicalWGKey_keyText {raw : List UInt8} (h : raw.length = 32) :
    canonicalWGKey (keyText raw) = .ok (keyText raw) := by
  have hbreaks : (Base64.encode raw).any (['\r', '\n', '\t', ' '].contains ·) = false := by
    rw [List.any_eq_false]
    exact Base64.forall_mem_encode (by decide) (by decide) raw
  unfold canonicalWGKey
  rw [toList_keyText, trimSpace_encode]
  simp only [hbreaks, Base64.strictDecode_encode, h, Bool.false_eq_true, if_false, if_true]

/-- The canonical text is the encoding of the bytes that the tunnel reads. -/
theorem canonicalWGKey_eq_ok {key text : String} (h : canonicalWGKey key = .ok text) :
    ∃ raw, raw.length = 32 ∧ keyBytes key = some raw ∧ text = keyText raw := by
  unfold canonicalWGKey at h
  simp only at h
  split at h
  · cases h
  · split at h
    · rename_i raw hraw
      split at h
      · rename_i hlen
        refine ⟨raw, hlen, ?_, (Except.ok.inj h).symm⟩
        simp [keyBytes, Base64.base64Decode_of_strict hraw, hlen]
      · cases h
    · cases h

/-! ### Tables

The rows are `WGSite` and `WGDevice` of the source, less their `ID`, the preshared key and
what only the portal shows. -/

structure WGSite where
  name : String
  publicKey : String
  address : Addr
  networks : List String
  endpoint : String
  keepalive : Int
  enabled : Bool
  allowOwnOverlap : Bool
  createdAt : Nat
deriving DecidableEq, Repr

structure WGDevice where
  name : String
  kind : String -- admin | sso | breakglass
  publicKey : String
  address : Option Addr
  enabled : Bool
  revoked : Bool
  provider : Int
  sub : String
  routes : List VPNRoute
  createdAt : Nat
deriving DecidableEq, Repr

structure Peers where
  sites : Table WGSite
  devices : Table WGDevice
  freed : List Addr

def Peers.empty : Peers := ⟨.empty, .empty, []⟩

/-- The collation `NOCASE`, which folds ASCII. -/
def noCase (s : String) : List Char := s.toList.map Char.toLower

def publicKeyTaken (db : Peers) (key : String) : Bool :=
  db.sites.rows.any (fun row => row.2.publicKey == key) ||
    db.devices.rows.any fun row => row.2.publicKey == key

/-! ### The search for an address

`nextWGAddress` goes through the host addresses in order.  It takes the first that nobody
holds or has given up, and only without one an address that was given up. -/

def Peers.used (db : Peers) (a : Addr) : Bool :=
  db.sites.rows.any (fun row => row.2.address == a) ||
    db.devices.rows.any fun row => row.2.address == some a

/-- `Addr.Next`: the zero address after the last one. -/
def Addr.next : Addr → Addr
  | .v4 x => if x = BitVec.allOnes 32 then .zero else .v4 (x + 1)
  | .v6 x zone => if x = BitVec.allOnes 128 then .zero else .v6 (x + 1) zone
  | .zero => .zero

def lastAddr (p : Prefix) : Addr :=
  match p.masked.ip with
  | .v4 x => .v4 ((List.range (32 - p.len)).foldl (fun b i => b ||| (1#32 <<< i)) x)
  | a => a

inductive Pick where
  /-- An address that nobody has had. -/
  | fresh (a : Addr)
  /-- The loop is over; `second` is the first address that was given up. -/
  | over (second : Option Addr)
  /-- The loop still runs. -/
  | running
deriving DecidableEq, Repr

/-- The loop of `nextWGAddress` from `a` on, for so many turns. -/
def nextLoop (inside : Addr → Bool) (last : Addr) (used freed : Addr → Bool) :
    Nat → Addr → Option Addr → Pick
  | 0, _, _ => .running
  | turns + 1, a, second =>
      if inside a = true ∧ a ≠ last then
        if used a then nextLoop inside last used freed turns (Addr.next a) second
        else if !freed a then .fresh a
        else nextLoop inside last used freed turns (Addr.next a) (second.or (some a))
      else .over second

def searchAddress (db : Peers) (tunnel : Prefix) : Pick :=
  let tunnel := tunnel.masked
  nextLoop tunnel.contains (lastAddr tunnel) db.used (db.freed.contains ·)
    (2 ^ (32 - tunnel.len)) (Addr.next (Addr.next tunnel.ip)) none

def prefixString (p : Prefix) : String :=
  match p.ip with
  | .v4 x => String.ofList (prefixText4 x p.len)
  | _ => "invalid Prefix"

/-- `nextWGAddress`: the address, and the tables it leaves. -/
def nextWGAddress (db : Peers) (tunnel : Prefix) : Check (Addr × Peers) :=
  match searchAddress db tunnel with
  | .fresh a => .ok (a, db)
  | .over (some a) => .ok (a, { db with freed := db.freed.filter (· ≠ a) })
  | .over none | .running =>
      .error ("the tunnel network " ++ prefixString tunnel.masked ++ " has no free address left")

/-! ### Sites

`createWGSite`, `updateWGSite` and `deleteWGSite` are the functions of the store.  An update
leaves key and address, and the address of a deleted site stays out of use. -/

section Writes

variable (lib : Lib)

def createWGSite (db : Peers) (tunnel : Prefix) (sealing : Check Unit) (now : Nat) (w : WGSite) :
    Check Peers := do
  let key ← canonicalWGKey w.publicKey
  refuseIf (db.devices.rows.any (fun row => row.2.publicKey == key) = true)
    "a device already uses this public key, or did before it was revoked"
  let (addr, db) ← nextWGAddress db tunnel
  let w := { w with name := trim w.name, publicKey := key, address := addr, createdAt := now }
  refuseIf (db.sites.rows.any (fun row => noCase row.2.name == noCase w.name) = true)
    "a site with this name already exists"
  refuseIf (db.sites.rows.any (fun row => row.2.publicKey == key) = true)
    "a site with this public key already exists"
  refuseIf (db.sites.rows.any (fun row => row.2.address == addr) = true)
    "UNIQUE constraint failed: wg_sites.address"
  sealing
  return { db with sites := db.sites.insert w }

def noRows : String := "sql: no rows in result set"

def updateWGSite (db : Peers) (id : Int) (w : WGSite) : Check Peers :=
  match db.sites.lookup id with
  | none => .error noRows
  | some prev => do
      refuseIf ((canonicalWGKey w.publicKey).toOption ≠ some prev.publicKey)
        "a site keeps its key: delete the site and add it anew to change the key"
      refuseIf (db.sites.rows.any (fun row => row.1 != id &&
          noCase row.2.name == noCase (trim w.name)) = true)
        "a site with this name already exists"
      return { db with sites := db.sites.modify id fun cur =>
        { cur with
          name := trim w.name, networks := w.networks, endpoint := w.endpoint
          keepalive := w.keepalive, enabled := w.enabled, allowOwnOverlap := w.allowOwnOverlap } }

/-- `DeleteWGSite`, when `wgSiteUsers` found `users`. -/
def deleteWGSite (db : Peers) (users : List String) (id : Int) : Check Peers :=
  match db.sites.lookup id with
  | none => .error noRows
  | some site => do
      refuseIf (users ≠ []) ("the site is still used by " ++ String.intercalate ", " users)
      return { db with sites := db.sites.delete id, freed := db.freed.insert site.address }

/-! ### Devices

A device may be restricted to its owner's calls.  Revoking it gives its address up and keeps
its key in the row. -/

def routeErrorText : RouteError → String
  | .notAPort part => "port " ++ lib.quote part ++ " is not a port"
  | .notARange part => "port range " ++ lib.quote part ++ " is not a range"
  | .notIPv4 cidr => "route " ++ lib.quote cidr ++ ": want an IPv4 prefix like 192.168.1.0/24"
  | .notPrivate p => "route " ++ prefixString p ++ ": only private address space " ++
      "(10/8, 172.16/12, 192.168/16, 100.64/10) can be granted"
  | .badProto p => "route " ++ prefixString p ++ ": protocol must be tcp, udp or any"
  | .badPorts p why => "route " ++ prefixString p ++ ": " ++ routeErrorText why

def validRoute (r : VPNRoute) : Check VPNRoute :=
  match r.validate with
  | .ok r => .ok r
  | .error why => .error (routeErrorText lib why)

/-- The devices of the owner that are not revoked. -/
def ownedDevices (db : Peers) (provider : Int) (sub : String) : Nat :=
  db.devices.rows.countP fun row => row.2.kind == "sso" && row.2.provider == provider &&
    row.2.sub == sub && !row.2.revoked

/-- What `CreateWGDevice` checks before its transaction. -/
def checkDevice (d : WGDevice) : Check WGDevice := do
  let name := trim d.name
  refuseIf (name = "" ∨ 64 < (utf8 name).length) "a device needs a name of at most 64 characters"
  refuseIf (d.kind ∉ ["admin", "sso", "breakglass"]) ("unknown device kind " ++ lib.quote d.kind)
  let routes ← each (fun _ => validRoute lib) 0 d.routes
  let key ← canonicalWGKey d.publicKey
  return { d with name, routes, publicKey := key }

/-- `CreateWGDevice`. A limit of 0 is none. -/
def createWGDevice (db : Peers) (tunnel : Prefix) (sealing : Check Unit) (now : Nat) (limit : Nat)
    (d : WGDevice) : Check Peers := do
  let d ← checkDevice lib d
  refuseIf (publicKeyTaken db d.publicKey = true)
    "this public key is already registered, or was and has been revoked: make a new key"
  refuseIf (0 < limit ∧ limit ≤ ownedDevices db d.provider d.sub)
    "this account has as many devices as it may have"
  let (addr, db) ← nextWGAddress db tunnel
  refuseIf (db.devices.rows.any (fun row => row.2.address == some addr) = true)
    "UNIQUE constraint failed: wg_devices.address"
  sealing
  let d := { d with address := some addr, revoked := false, createdAt := now }
  return { db with devices := db.devices.insert d }

end Writes

def setWGDeviceEnabled (db : Peers) (id : Int) (enabled : Bool) : Check Peers :=
  match db.devices.lookup id with
  | none => .error noRows
  | some d => do
      refuseIf (d.revoked = true) noRows
      return { db with devices := db.devices.modify id fun d => { d with enabled } }

/-- The owner whose devices a call is restricted to, if it is. -/
abbrev Owner := Option (Int × String)

def Owner.owns (owner : Owner) (d : WGDevice) : Bool :=
  owner.all fun (provider, sub) => d.kind == "sso" && d.provider == provider && d.sub == sub

def revokeWGDevice (db : Peers) (id : Int) (owner : Owner) : Check Peers :=
  match db.devices.lookup id with
  | none => .error noRows
  | some d => do
      refuseIf (d.revoked = true ∨ owner.owns d = false) noRows
      return { db with
        devices := db.devices.modify id fun d =>
          { d with revoked := true, enabled := false, address := none }
        freed := match d.address with
          | some a => db.freed.insert a
          | none => db.freed }

/-! ### Opening the store

`canonicaliseWGKeys` goes through the sites and then the devices, each as they were read. -/

def canonicaliseSite (db : Peers) (row : Int × WGSite) : Peers :=
  match canonicalWGKey row.2.publicKey with
  | .error _ => db
  | .ok key =>
      if key = row.2.publicKey then db
      else if publicKeyTaken db key then
        { db with sites := db.sites.modify row.1 fun w => { w with enabled := false } }
      else { db with sites := db.sites.modify row.1 fun w => { w with publicKey := key } }

/-- The turn of one device. Its address is given up, if it was not revoked before. -/
def canonicaliseDevice (db : Peers) (row : Int × WGDevice) : Peers :=
  match canonicalWGKey row.2.publicKey with
  | .error _ => db
  | .ok key =>
      if key = row.2.publicKey then db
      else if publicKeyTaken db key then
        { db with devices := db.devices.modify row.1 fun d =>
          if d.revoked then d else { d with enabled := false, revoked := true, address := none } }
      else { db with devices := db.devices.modify row.1 fun d => { d with publicKey := key } }

def byId {α : Type} (t : Table α) : List (Int × α) := t.rows.insertionSort fun a b => a.1 ≤ b.1

def canonicaliseWGKeys (db : Peers) : Peers :=
  let db := (byId db.sites).foldl canonicaliseSite db
  (byId db.devices).foldl canonicaliseDevice db

/-! ### What the writes do

Each function of the store has one lemma about its success; callers never unfold it. -/

section Inversion

variable {lib : Lib} {db db' : Peers} {tunnel : Prefix} {sealing : Check Unit} {now : Nat}

theorem publicKeyTaken_iff {key : String} : publicKeyTaken db key = true ↔
    (∃ id w, (id, w) ∈ db.sites.rows ∧ w.publicKey = key) ∨
      ∃ id d, (id, d) ∈ db.devices.rows ∧ d.publicKey = key := by
  simp [publicKeyTaken]

/-- The search touches `wg_freed` alone. -/
theorem nextWGAddress_frame {a : Addr} (h : nextWGAddress db tunnel = .ok (a, db')) :
    db'.sites = db.sites ∧ db'.devices = db.devices := by
  unfold nextWGAddress at h
  split at h
  · obtain ⟨-, rfl⟩ := Prod.mk.inj (Except.ok.inj h)
    exact ⟨rfl, rfl⟩
  · obtain ⟨-, rfl⟩ := Prod.mk.inj (Except.ok.inj h)
    exact ⟨rfl, rfl⟩
  · cases h
  · cases h

theorem createWGSite_eq_ok {w : WGSite} (h : createWGSite db tunnel sealing now w = .ok db') :
    ∃ key a db₁ new, canonicalWGKey w.publicKey = .ok key ∧ publicKeyTaken db key = false ∧
      nextWGAddress db tunnel = .ok (a, db₁) ∧
      new = { w with name := trim w.name, publicKey := key, address := a, createdAt := now } ∧
      db' = { db₁ with sites := db.sites.insert new } := by
  simp only [createWGSite, bind_eq_ok, refuseIf_eq_ok, pure_eq_ok, Prod.exists] at h
  obtain ⟨key, hkey, -, hdevices, a, db₁, hnext, -, -, -, hsites, -, -, -, -, rfl⟩ := h
  obtain ⟨hframe, -⟩ := nextWGAddress_frame hnext
  refine ⟨key, a, db₁, _, hkey, ?_, hnext, rfl, by rw [hframe]⟩
  rw [hframe] at hsites
  simp only [publicKeyTaken, Bool.or_eq_false_iff]
  exact ⟨by simpa using hsites, by simpa using hdevices⟩

theorem createWGDevice_eq_ok {limit : Nat} {d : WGDevice}
    (h : createWGDevice lib db tunnel sealing now limit d = .ok db') :
    ∃ key a db₁ new, canonicalWGKey d.publicKey = .ok key ∧ publicKeyTaken db key = false ∧
      nextWGAddress db tunnel = .ok (a, db₁) ∧ new.publicKey = key ∧ new.address = some a ∧
      new.revoked = false ∧ db' = { db₁ with devices := db.devices.insert new } := by
  simp only [createWGDevice, checkDevice, bind_eq_ok, refuseIf_eq_ok, pure_eq_ok, Prod.exists] at h
  obtain ⟨_, ⟨_, -, _, -, routes, -, key, hkey, rfl⟩, -, htaken, -, -, a, db₁, hnext, -, -, -, -,
    rfl⟩ := h
  obtain ⟨-, hframe⟩ := nextWGAddress_frame hnext
  refine ⟨key, a, db₁, _, hkey, by simpa using htaken, hnext, rfl, rfl, rfl, by rw [hframe]⟩

theorem updateWGSite_eq_ok {id : Int} {w : WGSite} (h : updateWGSite db id w = .ok db') :
    ∃ prev, (id, prev) ∈ db.sites.rows ∧ canonicalWGKey w.publicKey = .ok prev.publicKey ∧
      db' = { db with sites := db.sites.modify id fun cur =>
        { cur with
          name := trim w.name, networks := w.networks, endpoint := w.endpoint
          keepalive := w.keepalive, enabled := w.enabled
          allowOwnOverlap := w.allowOwnOverlap } } := by
  unfold updateWGSite at h
  split at h
  · cases h
  · rename_i prev hprev
    simp only [bind_eq_ok, refuseIf_eq_ok, pure_eq_ok, not_not] at h
    obtain ⟨-, hkey, -, -, rfl⟩ := h
    refine ⟨prev, Table.lookup_eq_some.mp hprev, ?_, rfl⟩
    cases hcanon : canonicalWGKey w.publicKey with
    | error why => simp [hcanon, Except.toOption] at hkey
    | ok key =>
        simp only [hcanon, Except.toOption, Option.some.injEq] at hkey
        rw [hkey]

theorem deleteWGSite_eq_ok {users : List String} {id : Int}
    (h : deleteWGSite db users id = .ok db') : ∃ site, (id, site) ∈ db.sites.rows ∧
      db' = { db with sites := db.sites.delete id, freed := db.freed.insert site.address } := by
  unfold deleteWGSite at h
  split at h
  · cases h
  · rename_i site hsite
    simp only [bind_eq_ok, refuseIf_eq_ok, pure_eq_ok] at h
    obtain ⟨-, -, rfl⟩ := h
    exact ⟨site, Table.lookup_eq_some.mp hsite, rfl⟩

theorem setWGDeviceEnabled_eq_ok {id : Int} {enabled : Bool}
    (h : setWGDeviceEnabled db id enabled = .ok db') :
    ∃ d, (id, d) ∈ db.devices.rows ∧ d.revoked = false ∧
      db' = { db with devices := db.devices.modify id fun d => { d with enabled } } := by
  unfold setWGDeviceEnabled at h
  split at h
  · cases h
  · rename_i d hd
    simp only [bind_eq_ok, refuseIf_eq_ok, pure_eq_ok, Bool.not_eq_true] at h
    obtain ⟨-, hlive, rfl⟩ := h
    exact ⟨d, Table.lookup_eq_some.mp hd, hlive, rfl⟩

theorem revokeWGDevice_eq_ok {id : Int} {owner : Owner} (h : revokeWGDevice db id owner = .ok db') :
    ∃ d, (id, d) ∈ db.devices.rows ∧ d.revoked = false ∧
      db' = { db with
        devices := db.devices.modify id fun d =>
          { d with revoked := true, enabled := false, address := none }
        freed := match d.address with
          | some a => db.freed.insert a
          | none => db.freed } := by
  unfold revokeWGDevice at h
  split at h
  · cases h
  · rename_i d hd
    simp only [bind_eq_ok, refuseIf_eq_ok, pure_eq_ok, not_or, Bool.not_eq_true] at h
    obtain ⟨-, ⟨hlive, -⟩, rfl⟩ := h
    exact ⟨d, Table.lookup_eq_some.mp hd, hlive, rfl⟩

end Inversion

/-! ### Runs

A call that fails leaves the tables. -/

/-- The calls, with what they are given. -/
inductive Call where
  | openStore
  | createSite (tunnel : Prefix) (sealing : Check Unit) (now : Nat) (w : WGSite)
  | updateSite (id : Int) (w : WGSite)
  | deleteSite (users : List String) (id : Int)
  | createDevice (tunnel : Prefix) (sealing : Check Unit) (now : Nat) (limit : Nat) (d : WGDevice)
  | setDeviceEnabled (id : Int) (enabled : Bool)
  | revokeDevice (id : Int) (owner : Owner)

def Call.result (lib : Lib) (db : Peers) : Call → Check Peers
  | .openStore => .ok (canonicaliseWGKeys db)
  | .createSite tunnel sealing now w => createWGSite db tunnel sealing now w
  | .updateSite id w => updateWGSite db id w
  | .deleteSite users id => deleteWGSite db users id
  | .createDevice tunnel sealing now limit d => createWGDevice lib db tunnel sealing now limit d
  | .setDeviceEnabled id enabled => setWGDeviceEnabled db id enabled
  | .revokeDevice id owner => revokeWGDevice db id owner

def step (lib : Lib) (db : Peers) (call : Call) : Option Peers :=
  match call.result lib db with
  | .ok db' => some db'
  | .error _ => some db

theorem step_cases {lib : Lib} {db db' : Peers} {call : Call} (h : step lib db call = some db') :
    call.result lib db = .ok db' ∨ db' = db := by
  unfold step at h
  split at h
  · rename_i hresult
    exact Or.inl (Option.some.inj h ▸ hresult)
  · exact Or.inr (Option.some.inj h).symm

end Quicgate.Wg
