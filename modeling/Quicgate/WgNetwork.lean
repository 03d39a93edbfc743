import Quicgate.GoMaps
import Quicgate.WgAddresses

/-!
# The tunnel network

The network of the WireGuard endpoint is a setting.  Sites and devices get their
addresses in it, and their configurations name it, so the settings API does not let it
move while one of them is there.  The module has the settings update, the reader of the
settings, and the requests that make and remove peers, and follows the network through
whole runs.

`network_fixed_while_peers` is the result.  An update with an empty network is not looked at
and is stored, after which the settings cannot be read (`blanked_network_is_lost`); runs
without such an update keep the network while there is a peer.
-/

namespace Quicgate.Wg

open Quicgate.Netip Quicgate.Checks Quicgate.Sql Quicgate.TransitionSystem Quicgate.GoMaps
open Quicgate.GoNet (splitHostPort)
open Quicgate.Store (Lib parseInt64 printInt trim)

/-! ### Settings

`wgSettings` is the reader, `checkWGSettings` what an update is checked by, in three parts, and
`handlePutSettings` the update up to the reload. -/

/-- The table `settings`, and the body of an update. -/
abbrev Settings := GoMap String String

/-- `GetSetting` of a key that is not a secret: the default stands in for a missing row,
never for an empty value. -/
def getSetting (settings : Settings) (key dflt : String) : String := (settings.lookup key).getD dflt

def settingsKeys : List String :=
  ["acme_staging", "acme_email", "notify_url", "default_site", "default_site_value",
    "acme_dns_provider", "acme_dns_config", "acme_ca_url", "ban_enabled", "ban_threshold",
    "ban_window_sec", "ban_duration_sec", "ban_exempt", "ban_exempt_own", "wg_enabled", "wg_port",
    "wg_network", "wg_endpoint", "wg_lan_access", "wg_lease_minutes", "wg_outage_grace_minutes",
    "wg_session_days", "wg_auth_max_age", "wg_devices_per_user", "wg_protected_endpoints",
    "wg_no_published_aliases", "oidc_enabled", "oidc_issuer", "oidc_client_id",
    "oidc_client_secret", "oidc_redirect_url", "oidc_allowed_emails", "admin_oidc_provider_id",
    "ldap_enabled", "ldap_url", "ldap_bind_dn_template", "ldap_allowed_users",
    "docker_default_domain", "docker_endpoints", "trusted_proxies", "real_ip_header"]

def secretSettings : List String := ["oidc_client_secret", "acme_dns_config"]

def secretMask : String := "********"

def wgDefaultPort : Int := 51820

def wgDefaultNetwork : String := "10.77.0.0/24"

def portNumber (v : String) : Option Int :=
  (parseInt64 v.toList).filter fun p => decide (1 ≤ p ∧ p ≤ 65535)

def tunnelPrefix (v : String) : Option Prefix :=
  (parsePrefix v.toList).filter fun p => p.ip.is4 && decide (16 ≤ p.bits ∧ p.bits ≤ 29)

section Server

variable (lib : Lib)

def wgSettings (settings : Settings) : Check (Int × Prefix × String) := do
  let v := getSetting settings "wg_port" ""
  let port ←
    if v = "" then pure wgDefaultPort
    else match portNumber v with
      | some p => pure p
      | none => .error ("wg_port " ++ lib.quote v ++ " is not a port")
  match tunnelPrefix (getSetting settings "wg_network" wgDefaultNetwork) with
  | some network => return (port, network.masked, getSetting settings "wg_endpoint" "")
  | none => .error "wg_network must be an IPv4 prefix between /16 and /29"

/-- There is a site, or a device that is not revoked. -/
def Peers.any (db : Peers) : Bool :=
  !db.sites.rows.isEmpty || db.devices.rows.any fun row => !row.2.revoked

def portString (ports : List Int) (i : Nat) : String :=
  match ports[i]? with
  | some p => printInt p
  | none => ""

def checkPort (reserved : List Int) (body : Settings) : Check Unit :=
  match body.lookup "wg_port" with
  | none | some "" => .ok ()
  | some v => do
      refuseIf (portNumber v = none) "wg_port must be a port number"
      refuseIf (v = portString reserved 0 ∨ v = portString reserved 1)
        "wg_port is taken by the proxy itself"

/-- The part on the network: the body to store. An empty value is not looked at. -/
def checkNetwork (settings : Settings) (db : Peers) (body : Settings) : Check Settings :=
  match body.lookup "wg_network" with
  | none | some "" => .ok body
  | some v =>
      match tunnelPrefix v with
      | none => .error "wg_network must be an IPv4 prefix between /16 and /29, like 10.77.0.0/24"
      | some p => do
          let cur := getSetting settings "wg_network" ""
          let text := prefixString p.masked
          refuseIf (text ≠ cur ∧ db.any = true ∧ ¬ (cur = "" ∧ text = "10.77.0.0/24"))
            ("the tunnel network cannot change while sites or devices exist: " ++
              "their addresses and configurations depend on it")
          return body.insert "wg_network" text

def checkEndpoint (body : Settings) : Check Unit :=
  match body.lookup "wg_endpoint" with
  | none | some "" => .ok ()
  | some v =>
      match splitHostPort v.toList with
      | some (host, port) =>
          refuseIf (host = [] ∨ port = []) "wg_endpoint must look like vpn.example.com:51820"
      | none => .error "wg_endpoint must look like vpn.example.com:51820"

def checkWGSettings (reserved : List Int) (settings : Settings) (db : Peers) (body : Settings) :
    Check Settings := do
  checkPort reserved body
  let body ← checkNetwork settings db body
  checkEndpoint body
  return body

/-- A secret that was shown as the mask and comes back as the mask. -/
def unchangedSecret (entry : String × String) : Bool :=
  secretSettings.contains entry.1 && entry.2 == secretMask

def dropUnchanged (body : Settings) : Settings :=
  body.eraseAll ((body.pairs.filter unchangedSecret).map Prod.fst)

def trimHeader (body : Settings) : Settings :=
  match body.lookup "real_ip_header" with
  | some h => body.insert "real_ip_header" (trim h)
  | none => body

/-- `SetSetting` for every entry; `sealed` is what becomes of a secret. -/
def setSettings (sealed : String → String) (settings body : Settings) : Settings :=
  settings.insertAll <| body.pairs.map fun entry =>
    (entry.1, if secretSettings.contains entry.1 then sealed entry.2 else entry.2)

/-- `handlePutSettings`, up to the reload. `others` is what the checks on the other
settings come to, and the sealing of secrets. -/
def handlePutSettings (reserved : List Int) (others : Check Unit) (sealed : String → String)
    (settings : Settings) (db : Peers) (body : Settings) : Check Settings := do
  match body.pairs.find? fun entry => !unchangedSecret entry && !settingsKeys.contains entry.1 with
  | some entry => .error ("unsupported setting: " ++ entry.1)
  | none =>
      let body ← checkWGSettings reserved settings db (dropUnchanged body)
      others
      return setSettings sealed settings (trimHeader body)

/-! ### Requests

A request that is refused changes nothing and is no step; every accepted one is followed by a
reload, which brings the running endpoint to the settings. -/

/-- The settings and the tables, the network that the running endpoint has, if it has one and
a key, and, for every peer, the network its address was assigned in. -/
structure Gateway where
  settings : Settings
  peers : Peers
  applied : Option Prefix
  given : PeerId → Option Prefix

def Gateway.start : Gateway := ⟨∅, .empty, none, fun _ => none⟩

/-- `syncWireGuard`, at the end of every request. `ready`: the server key can be read or made. -/
def Gateway.sync (ready : Bool) (s : Gateway) : Gateway :=
  { s with applied :=
      if getSetting s.settings "wg_enabled" "" = "1" ∧ ready = true then
        (wgSettings lib s.settings).toOption.map fun found => found.2.1
      else none }

/-- `wgReady`, and what `handleCreateWGSite` does in its place. -/
def Gateway.switchedOn (s : Gateway) (what : String) : Check Unit :=
  refuseIf (getSetting s.settings "wg_enabled" "" ≠ "1" ∨ s.applied = none)
    ("switch WireGuard on first: a " ++ what ++ "'s configuration needs this server's public key")

/-- The requests of the admin API and, `createOwnDevice`, of the portal. `valid` is what the checks
of a request on its own fields come to. -/
inductive Request where
  | putSettings (reserved : List Int) (others : Check Unit) (sealed : String → String)
      (body : Settings)
  | createSite (valid sealing : Check Unit) (now : Nat) (w : WGSite)
  | deleteSite (users : List String) (id : Int)
  | createDevice (valid sealing : Check Unit) (now : Nat) (d : WGDevice)
  | createOwnDevice (valid sealing : Check Unit) (now limit : Nat) (d : WGDevice)
  | revokeDevice (id : Int) (owner : Owner)

def Gateway.withSite (s : Gateway) (network : Prefix) (peers : Peers) : Gateway :=
  { s with peers, given := Function.update s.given (.site (s.peers.sites.seq + 1)) (some network) }

def Gateway.withDevice (s : Gateway) (network : Prefix) (peers : Peers) : Gateway :=
  { s with peers,
           given := Function.update s.given (.device (s.peers.devices.seq + 1)) (some network) }

def Request.result (s : Gateway) : Request → Check Gateway
  | .putSettings reserved others sealed body => do
      let settings ← handlePutSettings reserved others sealed s.settings s.peers body
      return { s with settings }
  | .createSite valid sealing now w => do
      s.switchedOn "site"
      valid
      let (_, network, _) ← wgSettings lib s.settings
      let peers ← createWGSite s.peers network sealing now w
      return s.withSite network peers
  | .deleteSite users id => do
      let peers ← deleteWGSite s.peers users id
      return { s with peers }
  | .createDevice valid sealing now d => do
      s.switchedOn "device"
      valid
      let (_, network, _) ← wgSettings lib s.settings
      let peers ← createWGDevice lib s.peers network sealing now 0 d
      return s.withDevice network peers
  | .createOwnDevice valid sealing now limit d => do
      valid
      match s.applied with
      | none => .error "the VPN is switched off"
      | some network => do
          let peers ← createWGDevice lib s.peers network sealing now limit d
          return s.withDevice network peers
  | .revokeDevice id owner => do
      let peers ← revokeWGDevice s.peers id owner
      return { s with peers }

/-- A run is made of the requests that are accepted; each is followed by a reload. -/
def Gateway.step (s : Gateway) (request : Request × Bool) : Option Gateway :=
  (request.1.result lib s).toOption.map (·.sync lib request.2)

end Server

/-! ### The peers of a state

The network of a peer is remembered from the moment its address was assigned. -/

def Peers.live (db : Peers) : PeerId → Bool
  | .site id => (db.sites.lookup id).isSome
  | .device id => (db.devices.lookup id).any fun d => !d.revoked

theorem any_iff {db : Peers} : db.any = true ↔ ∃ p, db.live p = true := by
  constructor
  · intro hany
    rcases (Bool.or_eq_true _ _).mp hany with hsite | hdevice
    · cases hrows : db.sites.rows with
      | nil => simp [hrows] at hsite
      | cons row rows =>
          refine ⟨.site row.1, ?_⟩
          have hmem : (row.1, row.2) ∈ db.sites.rows := hrows ▸ List.mem_cons_self
          simp [Peers.live, Table.lookup_eq_some.mpr hmem]
    · obtain ⟨row, hrow, hlive⟩ := List.any_eq_true.mp hdevice
      refine ⟨.device row.1, ?_⟩
      simpa [Peers.live, Table.lookup_eq_some.mpr hrow] using hlive
  · rintro ⟨p, hp⟩
    apply (Bool.or_eq_true _ _).mpr
    cases p with
    | site id =>
        obtain ⟨w, hw⟩ := Option.isSome_iff_exists.mp hp
        left
        have hmem := Table.lookup_eq_some.mp hw
        cases hrows : db.sites.rows with
        | nil => simp [hrows] at hmem
        | cons row rows => rfl
    | device id =>
        right
        cases hd : db.devices.lookup id with
        | none => simp [Peers.live, hd] at hp
        | some d =>
            have hlive : (!d.revoked) = true := by simpa [Peers.live, hd] using hp
            exact List.any_eq_true.mpr ⟨(id, d), Table.lookup_eq_some.mp hd, hlive⟩

/-- The network is set, and every peer has an address that was assigned in it. -/
structure Gateway.Fixed (lib : Lib) (s : Gateway) (network : Prefix) : Prop where
  settings : ∃ port endpoint, wgSettings lib s.settings = .ok (port, network, endpoint)
  peers : ∀ p, s.peers.live p = true → s.given p = some network ∧
    ∃ a, s.peers.addressOf p = some a ∧ network.contains a = true

/-- What every state of a run has: while there is a peer, the network is fixed, and the running
endpoint has the network of the settings. -/
structure NetworkInv (lib : Lib) (s : Gateway) : Prop where
  fixed : s.peers.any = true → ∃ network, s.Fixed lib network
  applied : ∀ network, s.applied = some network →
    ∃ port endpoint, wgSettings lib s.settings = .ok (port, network, endpoint)

/-! ### Settings updates

The checks are taken apart once, and with them what an accepted update leaves of the settings
of the endpoint. -/

section Update

variable {lib : Lib} {settings body : Settings}

/-- A row after an update: the new value under the keys of the body, the old one elsewhere. -/
theorem lookup_setSettings {sealed : String → String} {key : String} (hkey : key ∉ secretSettings) :
    (setSettings sealed settings body).lookup key = (body.lookup key).or (settings.lookup key) := by
  rw [setSettings, GoMap.lookup_insertAll_pairs settings body
    fun key v => if secretSettings.contains key then sealed v else v]
  cases body.lookup key <;> simp [hkey]

/-- The settings of the endpoint are not among the secrets. -/
theorem lookup_dropUnchanged {key : String} (hkey : key ∉ secretSettings) :
    (dropUnchanged body).lookup key = body.lookup key := by
  have hnot : key ∉ (body.pairs.filter unchangedSecret).map Prod.fst := by
    intro hmem
    obtain ⟨entry, hentry, rfl⟩ := List.mem_map.mp hmem
    have hdrop := (List.mem_filter.mp hentry).2
    simp [unchangedSecret, hkey] at hdrop
  rw [dropUnchanged, GoMap.lookup_eraseAll, if_neg hnot]

theorem lookup_trimHeader {key : String} (hkey : key ≠ "real_ip_header") :
    (trimHeader body).lookup key = body.lookup key := by
  unfold trimHeader
  split
  · exact AList.lookup_insert_ne hkey
  · rfl

def PortReadable (settings : Settings) : Prop :=
  getSetting settings "wg_port" "" = "" ∨
    ∃ p, portNumber (getSetting settings "wg_port" "") = some p

/-- The reader of the settings, taken apart. -/
theorem exists_wgSettings {network : Prefix} :
    (∃ port endpoint, wgSettings lib settings = .ok (port, network, endpoint)) ↔
      PortReadable settings ∧
        ∃ p, tunnelPrefix (getSetting settings "wg_network" wgDefaultNetwork) = some p ∧
          p.masked = network := by
  unfold wgSettings PortReadable
  by_cases hport : getSetting settings "wg_port" "" = ""
  · cases tunnelPrefix (getSetting settings "wg_network" wgDefaultNetwork) <;>
      simp [hport, bind, Except.bind, pure, Except.pure]
  · cases hnumber : portNumber (getSetting settings "wg_port" "") <;>
      cases tunnelPrefix (getSetting settings "wg_network" wgDefaultNetwork) <;>
        simp [hport, hnumber, bind, Except.bind, pure, Except.pure]

/-- A passed check of the port leaves one that can be read. -/
theorem checkPort_eq_ok {reserved : List Int} {u : Unit} (h : checkPort reserved body = .ok u) :
    body.lookup "wg_port" = none ∨ body.lookup "wg_port" = some "" ∨
      ∃ v p, body.lookup "wg_port" = some v ∧ portNumber v = some p := by
  unfold checkPort at h
  split at h
  · rename_i hnone
    exact Or.inl hnone
  · rename_i hempty
    exact Or.inr (Or.inl hempty)
  · rename_i v _ hv
    simp only [bind_eq_ok, refuseIf_eq_ok] at h
    obtain ⟨-, hnumber, -⟩ := h
    obtain ⟨p, hp⟩ := Option.ne_none_iff_exists'.mp hnumber
    exact Or.inr (Or.inr ⟨v, p, hv, hp⟩)

theorem prefixString_ne_empty (p : Prefix) : prefixString p ≠ "" := by
  unfold prefixString
  split
  · rename_i x _
    intro h
    have hlist := congrArg String.toList h
    simp [prefixText4] at hlist
  · decide

/-- A passed check of the network: the body says nothing, or it names a network, which is then
the one that is set, the default in place of none, or there is no peer. -/
theorem checkNetwork_eq_ok {db : Peers} {body' : Settings}
    (h : checkNetwork settings db body = .ok body') :
    (body.lookup "wg_network" = none ∨ body.lookup "wg_network" = some "") ∧ body' = body ∨
      ∃ text, body' = body.insert "wg_network" text ∧ text ≠ "" ∧
        (text = getSetting settings "wg_network" "" ∨ db.any = false ∨
          getSetting settings "wg_network" "" = "" ∧ text = wgDefaultNetwork) := by
  unfold checkNetwork at h
  split at h
  · rename_i hnone
    exact Or.inl ⟨Or.inl hnone, (Except.ok.inj h).symm⟩
  · rename_i hempty
    exact Or.inl ⟨Or.inr hempty, (Except.ok.inj h).symm⟩
  · split at h
    · cases h
    · rename_i p _
      simp only [bind_eq_ok, refuseIf_eq_ok, pure_eq_ok] at h
      obtain ⟨-, hguard, rfl⟩ := h
      refine Or.inr ⟨_, rfl, prefixString_ne_empty _, ?_⟩
      by_cases hcur : prefixString p.masked = getSetting settings "wg_network" ""
      · exact Or.inl hcur
      · by_cases hany : db.any = true
        · have hdefault : getSetting settings "wg_network" "" = "" ∧
              prefixString p.masked = "10.77.0.0/24" := by
            by_contra hno
            exact hguard ⟨hcur, hany, hno⟩
          exact Or.inr (Or.inr hdefault)
        · exact Or.inr (Or.inl (by simpa using hany))

/-- The prefix of the settings is never the empty text. -/
theorem tunnelPrefix_empty : tunnelPrefix "" = none := by decide

theorem lookup_checkNetwork {db : Peers} {body' : Settings} {key : String}
    (h : checkNetwork settings db body = .ok body') (hkey : key ≠ "wg_network") :
    body'.lookup key = body.lookup key := by
  rcases checkNetwork_eq_ok h with ⟨-, rfl⟩ | ⟨text, rfl, -⟩
  · rfl
  · exact AList.lookup_insert_ne hkey

/-- An accepted update, taken apart: the rows of the endpoint are written as the checks left
them. -/
theorem handlePutSettings_eq_ok {db : Peers} {reserved : List Int} {others : Check Unit}
    {sealed : String → String} {settings' : Settings}
    (h : handlePutSettings reserved others sealed settings db body = .ok settings') :
    ∃ body', checkPort reserved (dropUnchanged body) = .ok () ∧
      checkNetwork settings db (dropUnchanged body) = .ok body' ∧
      ∀ key ∉ secretSettings, key ≠ "real_ip_header" →
        settings'.lookup key = (body'.lookup key).or (settings.lookup key) := by
  unfold handlePutSettings at h
  split at h
  · cases h
  · simp only [checkWGSettings, bind_eq_ok, pure_eq_ok] at h
    obtain ⟨body', ⟨_, hport, _, hnetwork, _, _, rfl⟩, -, -, rfl⟩ := h
    refine ⟨_, hport, hnetwork, fun key hsecret hheader => ?_⟩
    rw [lookup_setSettings hsecret, lookup_trimHeader hheader]

/-- An accepted update that does not blank the network leaves the one that is read, while there is
a peer. -/
theorem handlePutSettings_network {db : Peers} {reserved : List Int} {others : Check Unit}
    {sealed : String → String} {settings' : Settings} {network : Prefix}
    (h : handlePutSettings reserved others sealed settings db body = .ok settings')
    (hblank : body.lookup "wg_network" ≠ some "") (hany : db.any = true)
    (hold : ∃ port endpoint, wgSettings lib settings = .ok (port, network, endpoint)) :
    ∃ port endpoint, wgSettings lib settings' = .ok (port, network, endpoint) := by
  obtain ⟨body', hport, hnetwork, hrows⟩ := handlePutSettings_eq_ok h
  obtain ⟨hreadable, p, hp, hmasked⟩ := exists_wgSettings.mp hold
  refine exists_wgSettings.mpr ⟨?_, p, ?_, hmasked⟩
  · have hrow := hrows "wg_port" (by decide) (by decide)
    rw [lookup_checkNetwork hnetwork (by decide)] at hrow
    rcases checkPort_eq_ok hport with hnone | hempty | ⟨v, n, hv, hn⟩
    · rw [hnone, Option.none_or] at hrow
      simpa only [PortReadable, getSetting, hrow] using hreadable
    · rw [hempty, Option.some_or] at hrow
      exact Or.inl (by simp [getSetting, hrow])
    · rw [hv, Option.some_or] at hrow
      exact Or.inr ⟨n, by simpa [getSetting, hrow] using hn⟩
  · have hrow := hrows "wg_network" (by decide) (by decide)
    rcases checkNetwork_eq_ok hnetwork with ⟨hnone | hempty, rfl⟩ | ⟨text, rfl, htext, hstored⟩
    · rw [hnone, Option.none_or] at hrow
      simpa only [getSetting, hrow] using hp
    · rw [lookup_dropUnchanged (by decide)] at hempty
      exact absurd hempty hblank
    · rw [AList.lookup_insert, Option.some_or] at hrow
      rcases hstored with hcur | hfree | ⟨hcur, rfl⟩
      · -- the text that is set is written once more
        cases hset : settings.lookup "wg_network" with
        | none =>
            rw [getSetting, hset] at hcur
            exact absurd hcur htext
        | some v =>
            simp only [getSetting, hset, Option.getD_some] at hcur hp
            simpa only [getSetting, hrow, Option.getD_some, hcur] using hp
      · rw [hany] at hfree
        cases hfree
      · -- the default is written where there was no row, since an empty row cannot be read
        cases hset : settings.lookup "wg_network" with
        | none => simpa only [getSetting, hset, hrow, Option.getD_none, Option.getD_some] using hp
        | some v =>
            simp only [getSetting, hset, Option.getD_some] at hcur hp
            rw [hcur, tunnelPrefix_empty] at hp
            cases hp

end Update

/-! ### Peers that come and go

An address that is given out lies in the network that the settings give. -/

section Peers

variable {lib : Lib} {s s' : Gateway} {network : Prefix}

theorem prefix_eq_of_valid {p q : Prefix} (hp : p.isValid = true) (hq : q.isValid = true)
    (hip : p.ip = q.ip) (hlen : p.len = q.len) : p = q := by
  cases p with
  | mk ip bits wf =>
      cases q with
      | mk ip' bits' wf' =>
          simp only [Prefix.isValid, Prefix.len, bne_iff_ne, ne_eq] at hp hq hip hlen
          obtain rfl : bits = bits' := by omega
          subst hip
          rfl

/-- The network with the bits after the prefix cleared. -/
def Tunnel.mask (t : Tunnel) : Tunnel where
  pre := t.pre.masked
  x := t.x &&& leading 32 t.pre.len
  ip_eq := by
    rw [t.masked_ip.1, addrAt, Tunnel.base, BitVec.ofNat_toNat, BitVec.setWidth_eq]
  valid := t.masked_ip.2.1
  low := by rw [t.masked_ip.2.2]; exact t.low
  high := by rw [t.masked_ip.2.2]; exact t.high

theorem masked_mask (t : Tunnel) : t.mask.pre.masked = t.mask.pre := by
  refine prefix_eq_of_valid t.mask.masked_ip.2.1 t.mask.valid ?_ t.mask.masked_ip.2.2
  rw [t.mask.ip_eq]
  exact t.masked_masked_ip

/-- A network of the settings is one that addresses can be given out in. -/
theorem exists_tunnel {v : String} {p : Prefix} (h : tunnelPrefix v = some p) :
    ∃ t : Tunnel, t.pre = p := by
  obtain ⟨-, hrange⟩ := Option.filter_eq_some_iff.mp h
  simp only [Bool.and_eq_true, decide_eq_true_eq] at hrange
  obtain ⟨h4, hlow, hhigh⟩ := hrange
  have hbits : p.bits = (p.bitsPlusOne : Int) - 1 := rfl
  have hlen : p.len = p.bitsPlusOne - 1 := rfl
  cases hip : p.ip with
  | v4 x =>
      refine ⟨⟨p, x, hip, ?_, by omega, by omega⟩, rfl⟩
      simp only [Prefix.isValid, bne_iff_ne]
      omega
  | v6 x zone => simp [hip, Addr.is4] at h4
  | zero => simp [hip, Addr.is4] at h4

theorem exists_mask {settings : Settings} {port : Int} {endpoint : String}
    (h : wgSettings lib settings = .ok (port, network, endpoint)) :
    ∃ t : Tunnel, network = t.mask.pre := by
  obtain ⟨-, p, hp, rfl⟩ := exists_wgSettings.mp ⟨port, endpoint, h⟩
  obtain ⟨t, rfl⟩ := exists_tunnel hp
  exact ⟨t, rfl⟩

/-- The text of a network is read back. -/
theorem tunnelPrefix_prefixString (t : Tunnel) :
    tunnelPrefix (prefixString t.pre) = some t.pre := by
  have hlow := t.low
  have hhigh := t.high
  have hle : t.pre.len ≤ 32 := by omega
  have hread : prefixFrom (.v4 t.x) t.pre.len = t.pre := by
    have hv4 : (Addr.v4 t.x).isValid = true := rfl
    obtain ⟨hip, hvalid, hlen⟩ := prefixFrom_of_le hv4 hle
    exact prefix_eq_of_valid hvalid t.valid (hip.trans t.ip_eq.symm) hlen
  have hbits := Prefix.bits_eq_len t.valid
  have hrange : 16 ≤ t.pre.bits ∧ t.pre.bits ≤ 29 := by omega
  have htext : prefixString t.pre = String.ofList (prefixText4 t.x t.pre.len) := by
    rw [prefixString, t.ip_eq]
  rw [tunnelPrefix, htext, String.toList_ofList, parsePrefix_prefixText4 hle, hread]
  simp [t.ip_eq, Addr.is4, hrange]

/-- An address that is given out lies in the network. -/
theorem contains_nextWGAddress {db db₁ : Peers} {t : Tunnel} {a : Addr}
    (h : nextWGAddress db t.pre = .ok (a, db₁)) : t.pre.masked.contains a = true := by
  have hspec := searchAddress_spec t db
  have hsize := t.base_add_size_le
  have hinside : ∀ n, t.Host n → t.pre.masked.contains (addrAt n) = true := by
    intro n hn
    have := hn.1
    have := hn.2
    exact (t.contains_addrAt (by omega)).mpr ⟨by omega, by omega⟩
  unfold nextWGAddress at h
  split at h
  · rename_i hpick
    rw [hpick] at hspec
    obtain ⟨rfl, -⟩ := Prod.mk.inj (Except.ok.inj h)
    obtain ⟨n, hn, rfl, -⟩ := hspec
    exact hinside n hn
  · rename_i hpick
    rw [hpick] at hspec
    obtain ⟨rfl, -⟩ := Prod.mk.inj (Except.ok.inj h)
    obtain ⟨n, hn, rfl, -⟩ := hspec
    exact hinside n hn
  · cases h
  · cases h

/-- An address that is given out in the network of the settings. -/
theorem contains_given {db db₁ : Peers} {a : Addr}
    (hsettings : ∃ port endpoint, wgSettings lib s.settings = .ok (port, network, endpoint))
    (h : nextWGAddress db network = .ok (a, db₁)) : network.contains a = true := by
  obtain ⟨port, endpoint, hread⟩ := hsettings
  obtain ⟨t, rfl⟩ := exists_mask hread
  have hcontains := contains_nextWGAddress h
  rwa [masked_mask] at hcontains

/-! ### Peers and their networks

The network is read from the settings whenever a peer is added, so two peers have the same
network as long as the settings have. -/

/-- Two networks that the settings give are one. -/
theorem Gateway.Fixed.eq {other : Prefix} (h : s.Fixed lib network)
    (hother : ∃ port endpoint, wgSettings lib s.settings = .ok (port, other, endpoint)) :
    other = network := by
  obtain ⟨port, endpoint, hread⟩ := h.settings
  obtain ⟨port', endpoint', hread'⟩ := hother
  rw [hread] at hread'
  exact (Prod.mk.inj (Prod.mk.inj (Except.ok.inj hread')).2).1.symm

/-- Whatever network the settings give, all peers have their addresses in it. -/
theorem NetworkInv.held (hinv : NetworkInv lib s)
    (hsettings : ∃ port endpoint, wgSettings lib s.settings = .ok (port, network, endpoint)) :
    s.Fixed lib network := by
  refine ⟨hsettings, fun p hp => ?_⟩
  obtain ⟨fixed, hfixed⟩ := hinv.fixed (any_iff.mpr ⟨p, hp⟩)
  rw [hfixed.eq hsettings]
  exact hfixed.peers p hp

/-- A peer that comes takes an address of the network. -/
theorem Gateway.Fixed.give {db' : Peers} {q : PeerId} {a : Addr} (h : s.Fixed lib network)
    (hin : network.contains a = true)
    (hlive : ∀ p, p ≠ q → db'.live p = s.peers.live p)
    (haddress : db'.addressOf = Function.update s.peers.addressOf q (some a)) :
    Gateway.Fixed lib { s with peers := db', given := Function.update s.given q (some network) }
      network := by
  refine ⟨h.settings, fun p hp => ?_⟩
  by_cases hpq : p = q
  · subst hpq
    simp [haddress, hin]
  · simp only [haddress, Function.update_of_ne hpq]
    rw [hlive p hpq] at hp
    exact h.peers p hp

/-- A peer goes, and the others keep their addresses. -/
theorem Gateway.Fixed.takeAway {db' : Peers} {q : PeerId} {gone : Option Addr}
    (h : s.Fixed lib network) (hgone : db'.live q = false)
    (hlive : ∀ p, p ≠ q → db'.live p = s.peers.live p)
    (haddress : db'.addressOf = Function.update s.peers.addressOf q gone) :
    Gateway.Fixed lib { s with peers := db' } network := by
  refine ⟨h.settings, fun p hp => ?_⟩
  by_cases hpq : p = q
  · subst hpq
    rw [hgone] at hp
    cases hp
  · simp only [haddress, Function.update_of_ne hpq]
    rw [hlive p hpq] at hp
    exact h.peers p hp

theorem live_insertSite {db db₁ : Peers} (hframe : db₁.devices = db.devices) (w : WGSite)
    {p : PeerId} (hp : p ≠ .site (db.sites.seq + 1)) :
    Peers.live { db₁ with sites := db.sites.insert w } p = db.live p := by
  cases p with
  | site id =>
      have hid : id ≠ db.sites.seq + 1 := fun h => hp (h ▸ rfl)
      simp [Peers.live, Table.lookup_insert, hid]
  | device id => simp [Peers.live, hframe]

theorem live_insertDevice {db db₁ : Peers} (hframe : db₁.sites = db.sites) (d : WGDevice)
    {p : PeerId} (hp : p ≠ .device (db.devices.seq + 1)) :
    Peers.live { db₁ with devices := db.devices.insert d } p = db.live p := by
  cases p with
  | site id => simp [Peers.live, hframe]
  | device id =>
      have hid : id ≠ db.devices.seq + 1 := fun h => hp (h ▸ rfl)
      simp [Peers.live, Table.lookup_insert, hid]

/-- What a request that adds or removes a peer does, when the settings give `network`. -/
inductive Gateway.Moved (lib : Lib) (s : Gateway) : Gateway → Prop where
  | give (network : Prefix) (q : PeerId) (a : Addr) (db' : Peers)
      (settings : ∃ port endpoint, wgSettings lib s.settings = .ok (port, network, endpoint))
      (inside : network.contains a = true) (live : ∀ p, p ≠ q → db'.live p = s.peers.live p)
      (address : db'.addressOf = Function.update s.peers.addressOf q (some a)) :
      Gateway.Moved lib s
        { s with peers := db', given := Function.update s.given q (some network) }
  | takeAway (q : PeerId) (db' : Peers) (gone : db'.live q = false)
      (live : ∀ p, p ≠ q → db'.live p = s.peers.live p)
      (address : ∃ a, db'.addressOf = Function.update s.peers.addressOf q a) :
      Gateway.Moved lib s { s with peers := db' }

theorem moved_withSite {sealing : Check Unit} {now : Nat} {w : WGSite} {db' : Peers}
    (hsettings : ∃ port endpoint, wgSettings lib s.settings = .ok (port, network, endpoint))
    (h : createWGSite s.peers network sealing now w = .ok db') :
    s.Moved lib (s.withSite network db') := by
  obtain ⟨key, a, db₁, new, -, -, hnext, hnew, rfl⟩ := createWGSite_eq_ok h
  obtain ⟨-, hframe⟩ := nextWGAddress_frame hnext
  have haddress : new.address = a := by rw [hnew]
  refine .give network _ a _ hsettings (contains_given hsettings hnext) ?_ ?_
  · intro p hp
    exact live_insertSite hframe new hp
  · rw [addressOf_insertSite hframe, haddress]

theorem moved_withDevice {sealing : Check Unit} {now limit : Nat} {d : WGDevice} {db' : Peers}
    (hsettings : ∃ port endpoint, wgSettings lib s.settings = .ok (port, network, endpoint))
    (h : createWGDevice lib s.peers network sealing now limit d = .ok db') :
    s.Moved lib (s.withDevice network db') := by
  obtain ⟨key, a, db₁, new, -, -, hnext, -, haddress, -, rfl⟩ := createWGDevice_eq_ok h
  obtain ⟨hframe, -⟩ := nextWGAddress_frame hnext
  refine .give network _ a _ hsettings (contains_given hsettings hnext) ?_ ?_
  · intro p hp
    exact live_insertDevice hframe new hp
  · rw [addressOf_insertDevice hframe, haddress]

theorem moved_deleteSite {users : List String} {id : Int} {db' : Peers}
    (h : deleteWGSite s.peers users id = .ok db') : s.Moved lib { s with peers := db' } := by
  obtain ⟨site, -, rfl⟩ := deleteWGSite_eq_ok h
  refine .takeAway (.site id) _ ?_ ?_ ⟨none, addressOf_deleteSite⟩
  · simp [Peers.live, Table.lookup_delete]
  · intro p hp
    cases p with
    | site id' =>
        have hid : id' ≠ id := fun h => hp (h ▸ rfl)
        simp [Peers.live, Table.lookup_delete, hid]
    | device id' => rfl

theorem moved_revokeDevice {id : Int} {owner : Owner} {db' : Peers}
    (h : revokeWGDevice s.peers id owner = .ok db') : s.Moved lib { s with peers := db' } := by
  obtain ⟨d, hd, -, rfl⟩ := revokeWGDevice_eq_ok h
  refine .takeAway (.device id) _ ?_ ?_ ⟨_, addressOf_modifyDevice hd⟩
  · simp [Peers.live, Table.lookup_modify, Table.lookup_eq_some.mpr hd]
  · intro p hp
    cases p with
    | site id' => rfl
    | device id' =>
        have hid : id' ≠ id := fun h => hp (h ▸ rfl)
        simp [Peers.live, Table.lookup_modify, hid]

/-- What an accepted request does. -/
theorem result_cases {request : Request} (hinv : NetworkInv lib s)
    (h : request.result lib s = .ok s') :
    (∃ reserved others sealed body settings, request = .putSettings reserved others sealed body ∧
      handlePutSettings reserved others sealed s.settings s.peers body = .ok settings ∧
      s' = { s with settings }) ∨ s.Moved lib s' := by
  cases request with
  | putSettings reserved others sealed body =>
      simp only [Request.result, bind_eq_ok, pure_eq_ok] at h
      obtain ⟨settings, hput, rfl⟩ := h
      exact Or.inl ⟨reserved, others, sealed, body, settings, rfl, hput, rfl⟩
  | createSite valid sealing now w =>
      simp only [Request.result, bind_eq_ok, pure_eq_ok, Prod.exists] at h
      obtain ⟨-, -, -, -, port, network, endpoint, hread, db', hcreate, rfl⟩ := h
      exact Or.inr (moved_withSite ⟨port, endpoint, hread⟩ hcreate)
  | deleteSite users id =>
      simp only [Request.result, bind_eq_ok, pure_eq_ok] at h
      obtain ⟨db', hdelete, rfl⟩ := h
      exact Or.inr (moved_deleteSite hdelete)
  | createDevice valid sealing now d =>
      simp only [Request.result, bind_eq_ok, pure_eq_ok, Prod.exists] at h
      obtain ⟨-, -, -, -, port, network, endpoint, hread, db', hcreate, rfl⟩ := h
      exact Or.inr (moved_withDevice ⟨port, endpoint, hread⟩ hcreate)
  | createOwnDevice valid sealing now limit d =>
      simp only [Request.result, bind_eq_ok] at h
      obtain ⟨-, -, h⟩ := h
      split at h
      · cases h
      · -- the portal takes the network of the running endpoint
        rename_i network happlied
        simp only [bind_eq_ok, pure_eq_ok] at h
        obtain ⟨db', hcreate, rfl⟩ := h
        exact Or.inr (moved_withDevice (hinv.applied network happlied) hcreate)
  | revokeDevice id owner =>
      simp only [Request.result, bind_eq_ok, pure_eq_ok] at h
      obtain ⟨db', hrevoke, rfl⟩ := h
      exact Or.inr (moved_revokeDevice hrevoke)

end Peers

/-! ### Runs

While there are peers, an update either leaves the network or blanks it. -/

section Runs

variable {lib : Lib} {s s' : Gateway}

/-- An update does not blank the network while there is a peer. -/
def NetworkNotBlanked (s : Gateway) : Request × Bool → Prop
  | (.putSettings _ _ _ body, _) => body.lookup "wg_network" = some "" → s.peers.any = false
  | _ => True

instance (s : Gateway) : ∀ request, Decidable (NetworkNotBlanked s request)
  | (.putSettings _ _ _ _, _) => inferInstanceAs (Decidable (_ → _))
  | (.createSite _ _ _ _, _) | (.deleteSite _ _, _) | (.createDevice _ _ _ _, _)
  | (.createOwnDevice _ _ _ _ _, _) | (.revokeDevice _ _, _) => inferInstanceAs (Decidable True)

/-- The reload changes neither the settings nor the peers. -/
theorem Gateway.Fixed.sync {network : Prefix} (h : s.Fixed lib network) (ready : Bool) :
    (s.sync lib ready).Fixed lib network :=
  ⟨h.settings, h.peers⟩

theorem applied_sync {ready : Bool} {network : Prefix}
    (h : (s.sync lib ready).applied = some network) :
    ∃ port endpoint,
      wgSettings lib (s.sync lib ready).settings = .ok (port, network, endpoint) := by
  simp only [Gateway.sync] at h
  split at h
  · cases hread : wgSettings lib s.settings with
    | error why => simp [hread, Except.toOption] at h
    | ok found =>
        obtain ⟨port, network', endpoint⟩ := found
        obtain rfl : network' = network := by simpa [hread, Except.toOption] using h
        exact ⟨port, endpoint, hread⟩
  · cases h

/-- A peer that is there after a request to move peers, and before. -/
theorem Gateway.Moved.fixed (h : s.Moved lib s') (hinv : NetworkInv lib s)
    (hany : s'.peers.any = true) :
    ∃ network, s'.Fixed lib network ∧ (s.peers.any = true → s.Fixed lib network) := by
  cases h with
  | give network q a db' hsettings hinside hlive haddress =>
      have hfixed := hinv.held hsettings
      exact ⟨network, hfixed.give hinside hlive haddress, fun _ => hfixed⟩
  | takeAway q db' hgone hlive haddress =>
      obtain ⟨a, haddress⟩ := haddress
      obtain ⟨p, hp⟩ := any_iff.mp hany
      have hpq : p ≠ q := by
        rintro rfl
        rw [hgone] at hp
        cases hp
      have hlive' : s.peers.live p = true := by rw [← hlive p hpq]; exact hp
      obtain ⟨network, hfixed⟩ := hinv.fixed (any_iff.mpr ⟨p, hlive'⟩)
      exact ⟨network, hfixed.takeAway hgone hlive haddress, fun _ => hfixed⟩

/-- One step: the network is fixed where there are peers, and it is the one before, if there were
peers before. -/
theorem fixed_step {request : Request × Bool} (hinv : NetworkInv lib s)
    (hblank : NetworkNotBlanked s request) (h : s.step lib request = some s')
    (hany : s'.peers.any = true) :
    ∃ network, s'.Fixed lib network ∧ (s.peers.any = true → s.Fixed lib network) := by
  obtain ⟨request, ready⟩ := request
  unfold Gateway.step at h
  cases hresult : request.result lib s with
  | error why => simp [hresult, Except.toOption] at h
  | ok moved =>
      obtain rfl : moved.sync lib ready = s' := by simpa [hresult, Except.toOption] using h
      rcases result_cases hinv hresult with ⟨_, _, _, body, settings, rfl, hput, rfl⟩ | hmoved
      · obtain ⟨network, hfixed⟩ := hinv.fixed hany
        have hnot : body.lookup "wg_network" ≠ some "" := by
          intro hempty
          exact absurd (hblank hempty) (by simp [show s.peers.any = true from hany])
        have hread := handlePutSettings_network hput hnot hany hfixed.settings
        exact ⟨network, ⟨hread, hfixed.peers⟩, fun _ => hfixed⟩
      · obtain ⟨network, hfixed, hbefore⟩ := hmoved.fixed hinv hany
        exact ⟨network, hfixed.sync ready, hbefore⟩

theorem networkInv_step {request : Request × Bool} (hinv : NetworkInv lib s)
    (hblank : NetworkNotBlanked s request) (h : s.step lib request = some s') :
    NetworkInv lib s' := by
  constructor
  · intro hany
    obtain ⟨network, hfixed, -⟩ := fixed_step hinv hblank h hany
    exact ⟨network, hfixed⟩
  · intro network happlied
    obtain ⟨moved, -, rfl⟩ := Option.map_eq_some_iff.mp h
    exact applied_sync happlied

theorem networkInv_start : NetworkInv lib .start := by
  constructor
  · intro hany
    exact absurd hany (by decide)
  · intro network happlied
    cases happlied

/-- There is a peer in every state of a run. -/
def PeersThroughout (lib : Lib) : Gateway → List (Request × Bool) → Prop
  | s, [] => s.peers.any = true
  | s, request :: requests => s.peers.any = true ∧ ∀ next, s.step lib request = some next →
      PeersThroughout lib next requests

theorem PeersThroughout.any {requests : List (Request × Bool)}
    (h : PeersThroughout lib s requests) : s.peers.any = true := by
  cases requests with
  | nil => exact h
  | cons request requests => exact h.1

/-- The network of a state stays while there are peers. -/
theorem fixed_run {requests : List (Request × Bool)} {network : Prefix} (hinv : NetworkInv lib s)
    (hmeets : RunMeets (Gateway.step lib) NetworkNotBlanked s requests)
    (hpeers : PeersThroughout lib s requests) (hfixed : s.Fixed lib network)
    (hrun : run (Gateway.step lib) s requests = some s') : s'.Fixed lib network := by
  induction requests generalizing s with
  | nil =>
      obtain rfl : s = s' := by simpa using hrun
      exact hfixed
  | cons request requests ih =>
      obtain ⟨next, hnext, hrest⟩ := run_cons_eq_some.mp hrun
      obtain ⟨hallowed, htail⟩ := hmeets
      have hpeers' := hpeers.2 next hnext
      obtain ⟨network', hnew, hbefore⟩ := fixed_step hinv hallowed hnext hpeers'.any
      obtain rfl : network' = network := hfixed.eq (hbefore hpeers.any).settings
      exact ih (networkInv_step hinv hallowed hnext) (htail next hnext) hpeers' hnew hrest

end Runs

/-- Runs from an empty table of settings in which no update blanks the network while there is a
peer: between two states with peers throughout, the settings give one network, and every peer
of the two states has an address that was assigned in it. -/
theorem network_fixed_while_peers (lib : Lib) (before after : List (Request × Bool)) (s t : Gateway)
    (hmeets : RunMeets (Gateway.step lib) NetworkNotBlanked .start (before ++ after))
    (hbefore : run (Gateway.step lib) .start before = some s)
    (hafter : run (Gateway.step lib) s after = some t) (hpeers : PeersThroughout lib s after) :
    ∃ network, s.Fixed lib network ∧ t.Fixed lib network := by
  have hinv : NetworkInv lib s :=
    hmeets.left.invariant (fun _ _ _ hs hallowed hstep => networkInv_step hs hallowed hstep)
      networkInv_start hbefore
  obtain ⟨network, hfixed⟩ := hinv.fixed hpeers.any
  exact ⟨network, hfixed, fixed_run hinv (hmeets.of_append hbefore) hpeers hfixed hafter⟩

/-! ### An update that blanks the network

The API takes the empty text for a setting that is not part of the update. -/

def putOne (key value : String) : Request × Bool :=
  (.putSettings [80, 443] (.ok ()) id (AList.insert key value ∅), true)

/-- WireGuard is switched on, and a site is made. -/
def firstSite : List (Request × Bool) :=
  let site := { office with publicKey := "AQEBAQEBAQEBAQEBAQEBAQEBAQEBAQEBAQEBAQEBAQE=" }
  [putOne "wg_enabled" "1", (.createSite (.ok ()) (.ok ()) 1 site, true)]

theorem network_fixed_firstSite : ∃ s t network,
    run (Gateway.step Store.asciiLib) .start firstSite = some s ∧
      run (Gateway.step Store.asciiLib) s [putOne "wg_network" "10.77.0.9/24"] = some t ∧
      s.Fixed Store.asciiLib network ∧ t.Fixed Store.asciiLib network := by
  obtain ⟨s, hs, hany⟩ : ∃ s, run (Gateway.step Store.asciiLib) .start firstSite = some s ∧
      s.peers.any = true := Option.map_eq_some_iff.mp (by decide +kernel)
  obtain ⟨t, ht, hany'⟩ : ∃ t, run (Gateway.step Store.asciiLib) .start
      (firstSite ++ [putOne "wg_network" "10.77.0.9/24"]) = some t ∧ t.peers.any = true :=
    Option.map_eq_some_iff.mp (by decide +kernel)
  obtain ⟨s', hs', hafter⟩ := run_append_eq_some.mp ht
  obtain rfl : s = s' := Option.some.inj (hs.symm.trans hs')
  have hpeers : PeersThroughout Store.asciiLib s [putOne "wg_network" "10.77.0.9/24"] := by
    refine ⟨hany, fun next hnext => ?_⟩
    obtain ⟨next', hnext', hend⟩ := run_cons_eq_some.mp hafter
    obtain rfl : next = next' := Option.some.inj (hnext.symm.trans hnext')
    obtain rfl : next = t := by simpa using hend
    exact hany'
  obtain ⟨network, hfixed⟩ := network_fixed_while_peers Store.asciiLib firstSite
    [putOne "wg_network" "10.77.0.9/24"] s t (by decide +kernel) hs hafter hpeers
  exact ⟨s, t, network, hs, hafter, hfixed⟩

/-- The API accepts an empty network while there is a site, and the settings cannot be read. -/
theorem blanked_network_is_lost : ∃ s,
    run (Gateway.step Store.asciiLib) .start (firstSite ++ [putOne "wg_network" ""]) = some s ∧
      s.peers.any = true ∧ ¬ ∃ network, s.Fixed Store.asciiLib network := by
  obtain ⟨s, hs, hstate⟩ : ∃ s, run (Gateway.step Store.asciiLib) .start
      (firstSite ++ [putOne "wg_network" ""]) = some s ∧
        (s.peers.any, (wgSettings Store.asciiLib s.settings).toOption.isNone) = (true, true) :=
    Option.map_eq_some_iff.mp (by decide +kernel)
  obtain ⟨hany, hlost⟩ := Prod.mk.inj hstate
  refine ⟨s, hs, hany, ?_⟩
  rintro ⟨network, hfixed⟩
  obtain ⟨port, endpoint, hread⟩ := hfixed.settings
  simp [hread, Except.toOption] at hlost

end Quicgate.Wg
