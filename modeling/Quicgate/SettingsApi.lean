import Quicgate.LockedStore
import Quicgate.RealIP
import Quicgate.WgSites

/-!
# The settings API

The settings page reads the whole table, with the secrets masked, and sends it back.
A key without a row is shown as the empty text, so that writing back what was read makes
a row of it, and a reader that has a default for a missing row finds the empty text.
The module has both handlers, the readers of the settings, and says when writing back
what was read changes nothing.

`writing_back_iff` is exact for every table that accepted updates can make.  The checks are the
smaller part: what is stored passes them again but for a few that depend on the process.  The
larger part are the readers, `effects_iff`.
-/

namespace Quicgate.SettingsApi

open Quicgate.Checks Quicgate.GoMaps Quicgate.Netip
open Quicgate.Seal (Cipher Box Nonce)
open Quicgate.RealIP
open Quicgate.Store (Lib parseInt64 printInt trim sealSecret settingAAD)
open Quicgate.Wg (Settings Peers settingsKeys secretMask wgSettings checkWGSettings checkPort
  checkNetwork checkEndpoint unchangedSecret dropUnchanged trimHeader tunnelPrefix portNumber
  portString prefixString)

/-! ### The table

`getSetting` is what the program reads and `allSettings` what the API lists; they differ for a
secret that does not open. -/

section Table

variable (cipher : Cipher) (box : Box)

/-- `GetSetting`: a secret that does not open reads as unset. -/
def getSetting (settings : Settings) (key dflt : String) : String :=
  match settings.lookup key with
  | none => dflt
  | some v =>
      if Store.secretSettings.contains key then
        match box.openValue cipher v (settingAAD key) with
        | .ok plain => plain
        | .error _ => dflt
      else v

/-- The value of a row as `AllSettings` lists it: a secret that does not open counts as set. -/
def listed (key v : String) : String :=
  if Store.secretSettings.contains key then
    match box.openValue cipher v (settingAAD key) with
    | .ok plain => plain
    | .error _ => v
  else v

def allSettings (settings : Settings) : Settings :=
  GoMap.insertAll ∅ (settings.pairs.map fun entry => (entry.1, listed cipher box entry.1 entry.2))

def shown (settings : Settings) (key : String) : String :=
  let v := ((allSettings cipher box settings).lookup key).getD ""
  if Wg.secretSettings.contains key ∧ v ≠ "" then secretMask else v

def handleGetSettings (settings : Settings) : Settings :=
  GoMap.insertAll ∅ (settingsKeys.map fun key => (key, shown cipher box settings key))

end Table

/-! ### An update

The checks in the order of `handlePutSettings`.  Most of them ask one key whether its value is
good, when the body has the key; `Env` is what the others ask of the process. -/

/-- What an update meets: the ports of the listeners, the sites and devices, the ids of the
identity providers, where the process runs, and the sealing box, with what comes of drawing a nonce
for a setting. -/
structure Env where
  reserved : List Int
  peers : Peers
  providers : List Int
  inBridgeContainer : Bool
  box : Box
  lockReason : String
  drawn : String → Check Nonce

/-- A request to `PUT /api/settings`: the bytes of its text, and the map it is the text of. -/
structure Put where
  bytes : Nat
  body : Settings

def maxJSONBody : Nat := 4 * 2 ^ 20

/-- A check of the value of one key, when the body has the key. -/
def onSetting (body : Settings) (key : String) (check : String → Check Unit) : Check Unit :=
  match body.lookup key with
  | none => .ok ()
  | some v => check v

def checkRange (key : String) (low high : Int) (v : String) : Check Unit :=
  refuseIf (v ≠ "" ∧ ¬ (parseInt64 v.toList).any fun n => low ≤ n ∧ n ≤ high)
    (key ++ " must be between " ++ printInt low ++ " and " ++ printInt high)

/-- `ranges` of `checkVPNSettings`. -/
def ranges : List (String × Int × Int) :=
  [("wg_lease_minutes", 2, 1440), ("wg_outage_grace_minutes", 0, 60), ("wg_session_days", 1, 90),
    ("wg_auth_max_age", 60, 86400), ("wg_devices_per_user", 1, 50)]

/-- One token of `ParseProtectedEndpoints`. -/
def protectedEndpoint (found : List Addr × List AddrPort) (tok : List Char) :
    Check (List Addr × List AddrPort) :=
  match (parseAddrPort tok).filter (·.addr.is4) with
  | some ap => .ok (found.1, found.2 ++ [⟨ap.addr.unmap, ap.port⟩])
  | none =>
      match (parseAddr tok).filter (·.unmap.is4) with
      | some a => .ok (found.1 ++ [a.unmap], found.2)
      | none => .error (String.ofList tok ++ " is not an IPv4 address or address:port")

/-- `ParseProtectedEndpoints`; the separators are those of the list of proxies. -/
def parseProtectedEndpoints (raw : String) : Check (List Addr × List AddrPort) :=
  (splitProxyList raw.toList).foldlM protectedEndpoint ([], [])

def parseBanExempt (lib : Lib) (raw : String) : Check (List Prefix) :=
  (splitProxyList raw.toList).mapM fun tok =>
    match parseAddr tok with
    | some a => .ok (prefixFrom a.unmap.withoutZone a.unmap.withoutZone.bitLen)
    | none =>
        match parsePrefix tok with
        | some p => .ok p.masked
        | none => .error (lib.quote (String.ofList tok) ++ " is not an address or a CIDR range")

def checkProtected (raw : String) : Check Unit := do
  let _ ← within "wg_protected_endpoints: " (parseProtectedEndpoints raw)
  return ()

def checkBanExempt (lib : Lib) (raw : String) : Check Unit := do
  let _ ← within "never-ban list: " (parseBanExempt lib raw)
  return ()

def checkTrustedProxies (raw : String) : Check Unit := do
  let _ ← within "trusted proxies: " (parseTrustedProxies raw)
  return ()

def checkHeader (lib : Lib) (h : String) : Check Unit :=
  refuseIf (trim h ≠ "" ∧ validHeaderName (trim h) = false)
    ("real IP header: " ++ lib.quote (trim h) ++ " is not a header name like X-Forwarded-For")

def checkProvider (providers : List Int) (id : String) : Check Unit :=
  refuseIf (id ≠ "" ∧ ¬ ∃ p ∈ providers, printInt p = id)
    ("identity provider " ++ id ++ " does not exist")

section Update

variable (lib : Lib) (cipher : Cipher) (env : Env)

/-- The part of `checkVPNSettings` on LAN access in a container. -/
def checkLAN (settings body : Settings) : Check Unit :=
  let endpoints := (body.lookup "wg_protected_endpoints").getD
    (getSetting cipher env.box settings "wg_protected_endpoints" "")
  let waived := (body.lookup "wg_no_published_aliases").getD "" = "1" ∨
    getSetting cipher env.box settings "wg_no_published_aliases" "" = "1"
  refuseIf ((body.lookup "wg_lan_access").getD "" = "1" ∧ env.inBridgeContainer = true ∧
      trim endpoints = "" ∧ ¬ waived)
    ("quicgate seems to run in a container on a bridge network, where its published ports live on "
      ++
      "addresses it cannot see. List the Docker host's addresses under protected endpoints, or " ++
      "confirm that no quicgate port is published anywhere a policy can reach, before switching " ++
      "LAN access on")

def checkVPNSettings (settings body : Settings) : Check Unit := do
  forEach (fun r => onSetting body r.1 (checkRange r.1 r.2.1 r.2.2)) ranges
  onSetting body "wg_protected_endpoints" checkProtected
  checkLAN cipher env settings body

/-- The checks of `handlePutSettings`, with the body that they leave. -/
def checkSettings (settings body : Settings) : Check Settings := do
  match body.pairs.find? fun entry => !unchangedSecret entry && !settingsKeys.contains entry.1 with
  | some entry => .error ("unsupported setting: " ++ entry.1)
  | none =>
      let body ← checkWGSettings env.reserved settings env.peers (dropUnchanged body)
      checkVPNSettings cipher env settings body
      onSetting body "ban_exempt" (checkBanExempt lib)
      onSetting body "trusted_proxies" checkTrustedProxies
      onSetting body "real_ip_header" (checkHeader lib)
      let body := trimHeader body
      onSetting body "admin_oidc_provider_id" (checkProvider env.providers)
      return body

def stored (key v : String) : Check String :=
  if Store.secretSettings.contains key then
    sealSecret cipher env.box env.lockReason (env.drawn key) v (settingAAD key)
  else .ok v

def setSetting (settings : Settings) (entry : String × String) : Check Settings := do
  let v ← stored cipher env entry.1 entry.2
  return settings.insert entry.1 v

def handlePutSettings (settings : Settings) (put : Put) : Check Settings := do
  refuseIf (maxJSONBody < put.bytes)
    ("request body is larger than the " ++ printInt maxJSONBody ++ " byte limit")
  let body ← checkSettings lib cipher env settings put.body
  body.pairs.foldlM (setSetting cipher env) settings

end Update

/-! ### Readers

Every reader of the settings that has a default for a missing row, and `Effects` with what all
of them come to. -/

/-- What the process was started with, as far as a setting may stand in for it. `dockerDomain` is
there when the Docker provider runs. -/
structure Config where
  acmeStage : Bool
  acmeEmail : String
  dockerDomain : Option String

structure ACMESettings where
  staging : Bool
  email : String
  dns : String
  dnsConfig : String
  caURL : String
deriving DecidableEq, Repr

inductive Page where
  | notFound
  | html (body : String)
  | redirect (target : String)
deriving DecidableEq, Repr

section Readers

variable (lib : Lib) (cipher : Cipher) (box : Box) (cfg : Config) (settings : Settings)

def acmeSettings : ACMESettings where
  staging :=
    let v := getSetting cipher box settings "acme_staging" ""
    if v ≠ "" then v == "1" else cfg.acmeStage
  email := getSetting cipher box settings "acme_email" cfg.acmeEmail
  dns := getSetting cipher box settings "acme_dns_provider" ""
  dnsConfig := getSetting cipher box settings "acme_dns_config" ""
  caURL := getSetting cipher box settings "acme_ca_url" ""

def unmatched : Page :=
  let value := getSetting cipher box settings "default_site_value" ""
  match getSetting cipher box settings "default_site" "404" with
  | "html" => .html value
  | "redirect" => if value ≠ "" then .redirect value else .notFound
  | _ => .notFound

def defaultDomain : Option String :=
  cfg.dockerDomain.map fun domain =>
    trim (getSetting cipher box settings "docker_default_domain" domain)

/-- What the settings come to. `values` is what the readers see that have no default of their own,
the secrets among them. -/
structure Effects where
  wireGuard : Check (Int × Prefix × String)
  acme : ACMESettings
  realIP : RealIPConfig
  clientIP : ClientIPConfig
  dockerDomain : Option String
  unmatched : Page
  values : List String

def effects : Effects where
  wireGuard := wgSettings lib settings
  acme := acmeSettings cipher box cfg settings
  realIP := buildRealIP (getSetting cipher box settings "trusted_proxies" "")
    (getSetting cipher box settings "real_ip_header" "")
  clientIP := loadClientIP (getSetting cipher box settings "trusted_proxies" "")
    (getSetting cipher box settings "real_ip_header" "")
  dockerDomain := defaultDomain cipher box cfg settings
  unmatched := unmatched cipher box settings
  values := settingsKeys.map fun key => getSetting cipher box settings key ""

end Readers

/-- Every row of a setting was written by an update that was accepted, whatever the table and the
process were then. -/
def Accepted (lib : Lib) (cipher : Cipher) (settings : Settings) : Prop :=
  ∀ key ∈ settingsKeys, ∀ v, settings.lookup key = some v →
    ∃ env settings₀ body₀ body, checkSettings lib cipher env settings₀ body₀ = .ok body ∧
      ∃ sent, body.lookup key = some sent ∧ stored cipher env key sent = .ok v

/-- A key has no row, so that its reader takes the default. -/
def Unset (settings : Settings) (key : String) : Prop := settings.lookup key = none

/-- When what was read can be written back: `bytes` is the length of its text. -/
structure Storable (cipher : Cipher) (env : Env) (settings : Settings) (bytes : Nat) : Prop where
  fits : bytes ≤ maxJSONBody
  port : getSetting cipher env.box settings "wg_port" "" ≠ "" →
    getSetting cipher env.box settings "wg_port" "" ≠ portString env.reserved 0 ∧
      getSetting cipher env.box settings "wg_port" "" ≠ portString env.reserved 1
  provider : getSetting cipher env.box settings "admin_oidc_provider_id" "" ≠ "" →
    ∃ p ∈ env.providers,
      printInt p = getSetting cipher env.box settings "admin_oidc_provider_id" ""
  lan : getSetting cipher env.box settings "wg_lan_access" "" = "1" →
    env.inBridgeContainer = true →
    trim (getSetting cipher env.box settings "wg_protected_endpoints" "") ≠ "" ∨
      getSetting cipher env.box settings "wg_no_published_aliases" "" = "1"

/-- The settings whose readers have a default of their own have rows, or defaults that an empty row
comes to. -/
structure Explicit (cfg : Config) (settings : Settings) : Prop where
  network : ¬ Unset settings "wg_network"
  email : Unset settings "acme_email" → cfg.acmeEmail = ""
  domain : Unset settings "docker_default_domain" → ∀ d ∈ cfg.dockerDomain, trim d = ""

/-! ### What is read

A setting is masked exactly if it is sealed.  A secret that is set comes back as the mask,
which the update drops. -/

section Shown

variable {cipher : Cipher} {box : Box} {settings : Settings} {key : String}

/-- What is masked is sealed. -/
theorem sealed_of_masked (h : key ∈ Wg.secretSettings) :
    Store.secretSettings.contains key = true := by
  revert key
  decide

/-- Of the keys of the API, what is sealed is masked. -/
theorem masked_of_sealed (hkey : key ∈ settingsKeys) (h : key ∉ Wg.secretSettings) :
    Store.secretSettings.contains key = false := by
  revert key
  decide

theorem lookup_allSettings : (allSettings cipher box settings).lookup key =
    (settings.lookup key).map (listed cipher box key) := by
  rw [allSettings, GoMap.lookup_insertAll_pairs, AList.lookup_empty, Option.or_none]

theorem lookup_handleGetSettings : (handleGetSettings cipher box settings).lookup key =
    if key ∈ settingsKeys then some (shown cipher box settings key) else none := by
  rw [handleGetSettings, GoMap.lookup_insertAll_map, AList.lookup_empty]

/-- A key that is not sealed is read as it is stored. -/
theorem getSetting_eq {dflt : String} (h : Store.secretSettings.contains key = false) :
    getSetting cipher box settings key dflt = Wg.getSetting settings key dflt := by
  unfold getSetting Wg.getSetting
  cases settings.lookup key with
  | none => rfl
  | some v => simp only [h, Bool.false_eq_true, if_false, Option.getD_some]

/-- A setting that is not masked is shown as its readers find it. -/
theorem shown_eq (hkey : key ∈ settingsKeys) (hplain : key ∉ Wg.secretSettings) :
    shown cipher box settings key = getSetting cipher box settings key "" := by
  have hsealed := masked_of_sealed hkey hplain
  have hmask : ¬ (Wg.secretSettings.contains key = true) := by simpa using hplain
  rw [getSetting_eq hsealed, shown, lookup_allSettings, if_neg fun h => hmask h.1, Wg.getSetting]
  cases settings.lookup key with
  | none => rfl
  | some v => rw [Option.map_some, listed, hsealed, if_neg Bool.false_ne_true]

/-- A secret is shown as the mask, or it reads as unset. -/
theorem shown_secret (hsecret : key ∈ Wg.secretSettings) :
    shown cipher box settings key = secretMask ∨
      shown cipher box settings key = "" ∧ getSetting cipher box settings key "" = "" := by
  by_cases hempty : ((allSettings cipher box settings).lookup key).getD "" = ""
  · right
    refine ⟨by simp [shown, hempty], ?_⟩
    rw [lookup_allSettings] at hempty
    unfold getSetting
    cases hrow : settings.lookup key with
    | none => rfl
    | some v =>
        rw [hrow, Option.map_some, Option.getD_some, listed] at hempty
        rw [sealed_of_masked hsecret, if_pos rfl] at hempty
        simp only [sealed_of_masked hsecret, if_true]
        cases hopen : box.openValue cipher v (settingAAD key) with
        | ok plain => simpa [hopen] using hempty
        | error why => rfl
  · left
    simp [shown, hempty, hsecret]

def sentBack (cipher : Cipher) (box : Box) (settings : Settings) : Settings :=
  dropUnchanged (handleGetSettings cipher box settings)

theorem lookup_sentBack (hkey : key ∈ settingsKeys) (hplain : key ∉ Wg.secretSettings) :
    (sentBack cipher box settings).lookup key = some (getSetting cipher box settings key "") := by
  rw [sentBack, Wg.lookup_dropUnchanged hplain, lookup_handleGetSettings, if_pos hkey,
    shown_eq hkey hplain]

theorem lookup_sentBack_none (hkey : key ∉ settingsKeys) :
    (sentBack cipher box settings).lookup key = none := by
  have hnot : (handleGetSettings cipher box settings).lookup key = none := by
    rw [lookup_handleGetSettings, if_neg hkey]
  rw [sentBack, dropUnchanged, GoMap.lookup_eraseAll]
  split
  · rfl
  · exact hnot

/-- A secret that is sent back is not set. -/
theorem lookup_sentBack_secret {v : String} (hsecret : key ∈ Wg.secretSettings)
    (h : (sentBack cipher box settings).lookup key = some v) :
    v = "" ∧ getSetting cipher box settings key "" = "" := by
  rw [sentBack, dropUnchanged, GoMap.lookup_eraseAll] at h
  split at h
  · cases h
  · rename_i hkept
    rw [lookup_handleGetSettings] at h
    split at h
    · obtain rfl := Option.some.inj h
      rcases shown_secret hsecret with hmask | hunset
      · refine absurd
          (List.mem_map.mpr ⟨(key, secretMask), List.mem_filter.mpr ⟨?_, ?_⟩, rfl⟩) hkept
        · rename_i hkey
          rw [GoMap.mem_pairs, lookup_handleGetSettings, if_pos hkey, hmask]
        · simp [unchangedSecret, hsecret]
      · exact hunset
    · cases h

/-- Every key that is sent back is one the API knows. -/
theorem find?_unsupported : (handleGetSettings cipher box settings).pairs.find?
    (fun entry => !unchangedSecret entry && !settingsKeys.contains entry.1) = none := by
  rw [List.find?_eq_none]
  rintro ⟨key, v⟩ hentry
  have hlook := GoMap.mem_pairs.mp hentry
  rw [lookup_handleGetSettings] at hlook
  split at hlook
  · rename_i hkey
    simp [hkey]
  · cases hlook

end Shown

/-! ### Values that the API accepts

An accepted value is acceptable by itself, whatever the rest of the request was, so it is
acceptable when it is sent back. -/

/-- What the checks on the value of a key ask, each of them about one key alone. -/
structure Acceptable (lib : Lib) (key v : String) : Prop where
  port : key = "wg_port" → v = "" ∨ ∃ p, portNumber v = some p
  network : key = "wg_network" → v = "" ∨ ∃ p, tunnelPrefix v = some p ∧ prefixString p.masked = v
  endpoint : key = "wg_endpoint" → v = "" ∨
    ∃ host port, GoNet.splitHostPort v.toList = some (host, port) ∧ ¬ (host = [] ∨ port = [])
  range : ∀ r ∈ ranges, key = r.1 → checkRange r.1 r.2.1 r.2.2 v = .ok ()
  endpoints : key = "wg_protected_endpoints" → checkProtected v = .ok ()
  exempt : key = "ban_exempt" → checkBanExempt lib v = .ok ()
  proxies : key = "trusted_proxies" → checkTrustedProxies v = .ok ()
  header : key = "real_ip_header" → trim v = v ∧ checkHeader lib v = .ok ()

section Values

variable {lib : Lib} {cipher : Cipher} {env : Env} {settings body body' : Settings}
  {key v : String}

theorem onSetting_eq_ok {check : String → Check Unit} :
    onSetting body key check = .ok () ↔ ∀ v, body.lookup key = some v → check v = .ok () := by
  unfold onSetting
  cases body.lookup key <;> simp

/-- The empty text passes every check. -/
theorem acceptable_empty (lib : Lib) (key : String) : Acceptable lib key "" where
  port _ := Or.inl rfl
  network _ := Or.inl rfl
  endpoint _ := Or.inl rfl
  range r _ _ := by simp [checkRange]
  endpoints _ := rfl
  exempt _ := rfl
  proxies _ := rfl
  header _ := by
    constructor
    · rfl
    · have htrim : trim "" = "" := rfl
      simp [checkHeader, htrim]

/-- The checks, taken apart: `body` as it is sent, less the secrets that stay, and `body'` as it is
after the check of the network. -/
structure Passed (lib : Lib) (cipher : Cipher) (env : Env) (settings body body' : Settings) :
    Prop where
  port : checkPort env.reserved body = .ok ()
  network : checkNetwork settings env.peers body = .ok body'
  endpoint : checkEndpoint body' = .ok ()
  range : ∀ r ∈ ranges, onSetting body' r.1 (checkRange r.1 r.2.1 r.2.2) = .ok ()
  endpoints : onSetting body' "wg_protected_endpoints" checkProtected = .ok ()
  lan : checkLAN cipher env settings body' = .ok ()
  exempt : onSetting body' "ban_exempt" (checkBanExempt lib) = .ok ()
  proxies : onSetting body' "trusted_proxies" checkTrustedProxies = .ok ()
  header : onSetting body' "real_ip_header" (checkHeader lib) = .ok ()
  provider : onSetting (trimHeader body') "admin_oidc_provider_id" (checkProvider env.providers) =
    .ok ()

theorem checkSettings_eq_ok : checkSettings lib cipher env settings body = .ok body' ↔
    (body.pairs.find? fun entry =>
        !unchangedSecret entry && !settingsKeys.contains entry.1) = none ∧
      ∃ body₁, Passed lib cipher env settings (dropUnchanged body) body₁ ∧
        body' = trimHeader body₁ := by
  unfold checkSettings
  cases hfind : body.pairs.find? fun entry =>
      !unchangedSecret entry && !settingsKeys.contains entry.1 with
  | some entry => simp
  | none =>
      simp only [checkWGSettings, checkVPNSettings, bind_eq_ok, pure_eq_ok, true_and]
      constructor
      · rintro ⟨body₁, ⟨_, hport, _, hnetwork, _, hendpoint, rfl⟩, _,
          ⟨_, hrange, _, hendpoints, hlan⟩, _, hexempt, _, hproxies, _, hheader, _, hprovider, rfl⟩
        exact ⟨_, ⟨hport, hnetwork, hendpoint, forEach_eq_ok.mp hrange, hendpoints, hlan, hexempt,
          hproxies, hheader, hprovider⟩, rfl⟩
      · rintro ⟨body₁, h, rfl⟩
        exact ⟨body₁, ⟨(), h.port, body₁, h.network, (), h.endpoint, rfl⟩, (),
          ⟨(), forEach_eq_ok.mpr h.range, (), h.endpoints, h.lan⟩, (), h.exempt, (), h.proxies, (),
          h.header, (), h.provider, rfl⟩

/-- The network that a passed check leaves. -/
theorem network_of_checkNetwork {db : Peers}
    (h : checkNetwork settings db body = .ok body') (hv : body'.lookup "wg_network" = some v) :
    v = "" ∨ ∃ p, tunnelPrefix v = some p ∧ prefixString p.masked = v := by
  unfold checkNetwork at h
  split at h
  · rename_i hnone
    obtain rfl := Except.ok.inj h
    rw [hnone] at hv
    cases hv
  · rename_i hempty
    obtain rfl := Except.ok.inj h
    rw [hempty] at hv
    exact Or.inl (Option.some.inj hv).symm
  · split at h
    · cases h
    · rename_i p hp
      simp only [bind_eq_ok, refuseIf_eq_ok, pure_eq_ok] at h
      obtain ⟨-, -, rfl⟩ := h
      rw [AList.lookup_insert] at hv
      obtain rfl := Option.some.inj hv
      obtain ⟨t, rfl⟩ := Wg.exists_tunnel hp
      right
      refine ⟨t.mask.pre, Wg.tunnelPrefix_prefixString t.mask, ?_⟩
      exact congrArg prefixString (Wg.masked_mask t)

theorem endpoint_of_checkEndpoint (h : checkEndpoint body = .ok ())
    (hv : body.lookup "wg_endpoint" = some v) : v = "" ∨
      ∃ host port, GoNet.splitHostPort v.toList = some (host, port) ∧
        ¬ (host = [] ∨ port = []) := by
  unfold checkEndpoint at h
  split at h
  · rename_i hnone
    rw [hnone] at hv
    cases hv
  · rename_i hempty
    rw [hempty] at hv
    exact Or.inl (Option.some.inj hv).symm
  · rename_i v' _ hv'
    rw [hv'] at hv
    obtain rfl := Option.some.inj hv
    split at h
    · rename_i host port hsplit
      exact Or.inr ⟨host, port, hsplit, refuseIf_eq_ok.mp h⟩
    · cases h

/-- What an accepted update writes is acceptable, whatever the rest of the request was. -/
theorem acceptable_of_checkSettings (h : checkSettings lib cipher env settings body = .ok body')
    (hv : body'.lookup key = some v) : Acceptable lib key v := by
  obtain ⟨-, body₁, hpassed, rfl⟩ := checkSettings_eq_ok.mp h
  have hsame : key ≠ "real_ip_header" → body₁.lookup key = some v := by
    intro hkey
    rwa [Wg.lookup_trimHeader hkey] at hv
  have one : ∀ {k : String} {check : String → Check Unit}, k ≠ "real_ip_header" →
      onSetting body₁ k check = .ok () → key = k → check v = .ok () := by
    rintro k check hk hcheck rfl
    exact onSetting_eq_ok.mp hcheck v (hsame hk)
  refine ⟨?_, ?_, ?_, ?_, one (by decide) hpassed.endpoints, one (by decide) hpassed.exempt,
    one (by decide) hpassed.proxies, ?_⟩
  · rintro rfl
    have hrow := hsame (by decide)
    rw [Wg.lookup_checkNetwork hpassed.network (by decide)] at hrow
    rcases Wg.checkPort_eq_ok hpassed.port with hnone | hempty | ⟨w, p, hw, hp⟩
    · rw [hnone] at hrow
      cases hrow
    · rw [hempty] at hrow
      exact Or.inl (Option.some.inj hrow).symm
    · rw [hw] at hrow
      obtain rfl := Option.some.inj hrow
      exact Or.inr ⟨p, hp⟩
  · rintro rfl
    exact network_of_checkNetwork hpassed.network (hsame (by decide))
  · rintro rfl
    exact endpoint_of_checkEndpoint hpassed.endpoint (hsame (by decide))
  · intro r hr hkey
    have hplain : ∀ r ∈ ranges, r.1 ≠ "real_ip_header" := by decide
    exact one (hplain r hr) (hpassed.range r hr) hkey
  · rintro rfl
    unfold trimHeader at hv
    cases hh : body₁.lookup "real_ip_header" with
    | none =>
        rw [hh] at hv
        simp only [hh, reduceCtorEq] at hv
    | some w =>
        simp only [hh, AList.lookup_insert, Option.some.injEq] at hv
        have hcheck := onSetting_eq_ok.mp hpassed.header w hh
        rw [checkHeader] at hcheck
        subst hv
        rw [checkHeader, Store.trim_trim]
        exact ⟨rfl, hcheck⟩

end Values

/-! ### Writing back

The update that sends everything back, check by check, and the table after it. -/

section WriteBack

variable {lib : Lib} {cipher : Cipher} {env : Env} {cfg : Config}
  {settings settings' body body' : Settings} {key : String} {bytes : Nat}

/-- A setting that the API accepted reads as an acceptable value. -/
theorem Accepted.acceptable {box : Box} (h : Accepted lib cipher settings)
    (hkey : key ∈ settingsKeys)
    (hplain : key ∉ Wg.secretSettings) :
    Acceptable lib key (getSetting cipher box settings key "") := by
  rw [getSetting_eq (masked_of_sealed hkey hplain), Wg.getSetting]
  cases hrow : settings.lookup key with
  | none => exact acceptable_empty lib key
  | some v =>
      obtain ⟨env₀, settings₀, body₀, body, hcheck, sent, hsent, hstored⟩ := h key hkey v hrow
      rw [stored, masked_of_sealed hkey hplain, if_neg Bool.false_ne_true] at hstored
      obtain rfl := Except.ok.inj hstored
      exact acceptable_of_checkSettings hcheck hsent

/-- The network that is sent back is the one that is set, and its text stays. -/
theorem exists_checkNetwork (h : Accepted lib cipher settings) (db : Peers) :
    ∃ body, checkNetwork settings db (sentBack cipher env.box settings) = .ok body ∧
      ∀ key, body.lookup key = (sentBack cipher env.box settings).lookup key := by
  have hrow : (sentBack cipher env.box settings).lookup "wg_network" =
      some (getSetting cipher env.box settings "wg_network" "") :=
    lookup_sentBack (by decide) (by decide)
  have hset : getSetting cipher env.box settings "wg_network" "" =
      Wg.getSetting settings "wg_network" "" := getSetting_eq (by decide)
  have hacceptable : Acceptable lib "wg_network"
      (getSetting cipher env.box settings "wg_network" "") :=
    h.acceptable (by decide) (by decide)
  have hvalue := hacceptable.network rfl
  rw [hset] at hrow hvalue
  rcases hvalue with hempty | ⟨p, hp, htext⟩
  · refine ⟨_, ?_, fun _ => rfl⟩
    rw [hempty] at hrow
    unfold checkNetwork
    rw [hrow]
    rfl
  · refine ⟨(sentBack cipher env.box settings).insert "wg_network" (prefixString p.masked), ?_, ?_⟩
    · have hne : Wg.getSetting settings "wg_network" "" ≠ "" := by
        intro hempty
        rw [hempty, Wg.tunnelPrefix_empty] at hp
        cases hp
      unfold checkNetwork
      split
      · rename_i hnone
        rw [hrow] at hnone
        cases hnone
      · rename_i hempty
        rw [hrow] at hempty
        exact absurd (Option.some.inj hempty) hne
      · rename_i v _ hv
        rw [hrow] at hv
        obtain rfl := Option.some.inj hv
        simp only [hp, bind_eq_ok, refuseIf_eq_ok, pure_eq_ok]
        exact ⟨(), fun hbad => hbad.1 htext, trivial⟩
    · intro key
      by_cases hkey : key = "wg_network"
      · subst hkey
        rw [AList.lookup_insert, hrow, htext]
      · rw [AList.lookup_insert_ne hkey]

/-- A check of one key, on a body whose row is known. -/
theorem onSetting_of_row {check : String → Check Unit} {v : String}
    (hrow : body.lookup key = some v) : onSetting body key check = check v := by
  rw [onSetting, hrow]

theorem checkPort_iff {reserved : List Int} {v : String} (hrow : body.lookup "wg_port" = some v)
    (hv : v = "" ∨ ∃ p, portNumber v = some p) : checkPort reserved body = .ok () ↔
      (v ≠ "" → v ≠ portString reserved 0 ∧ v ≠ portString reserved 1) := by
  unfold checkPort
  split
  · rename_i hnone
    rw [hrow] at hnone
    cases hnone
  · rename_i hempty
    rw [hrow] at hempty
    simp [Option.some.inj hempty]
  · rename_i w hne hw
    rw [hrow] at hw
    obtain rfl := Option.some.inj hw
    have hnonempty : v ≠ "" := hne
    obtain ⟨p, hp⟩ := hv.resolve_left hnonempty
    simp only [bind_eq_ok, refuseIf_eq_ok, hp, reduceCtorEq, not_false_eq_true, exists_const,
      true_and, not_or, hnonempty, ne_eq, true_implies]

theorem checkEndpoint_of_row {v : String} (hrow : body.lookup "wg_endpoint" = some v)
    (hv : v = "" ∨ ∃ host port, GoNet.splitHostPort v.toList = some (host, port) ∧
      ¬ (host = [] ∨ port = [])) : checkEndpoint body = .ok () := by
  unfold checkEndpoint
  split
  · rfl
  · rfl
  · rename_i w hne hw
    rw [hrow] at hw
    obtain rfl := Option.some.inj hw
    obtain ⟨host, port, hsplit, hparts⟩ := hv.resolve_left hne
    rw [hsplit]
    exact refuseIf_eq_ok.mpr hparts

/-- The keys whose values are checked one by one are keys of the API, and none of them is a
secret. -/
theorem ranges_plain : ∀ r ∈ ranges, r.1 ∈ settingsKeys ∧ r.1 ∉ Wg.secretSettings := by
  decide

/-! ### The checks of what is sent back

Of all the checks three can still fail: the port may be another listener's by now, the
provider may be gone, and the process may run where LAN access is not allowed. -/

/-- What is sent back passes the checks that still can fail, or none of it is stored. -/
theorem passed_iff (h : Accepted lib cipher settings) (hbytes : bytes ≤ maxJSONBody) :
    (∃ body, Passed lib cipher env settings (sentBack cipher env.box settings) body) ↔
      Storable cipher env settings bytes := by
  obtain ⟨body, hbody, hsame⟩ := exists_checkNetwork h env.peers
  have hrow : ∀ key ∈ settingsKeys, key ∉ Wg.secretSettings →
      body.lookup key = some (getSetting cipher env.box settings key "") := by
    intro key hkey hplain
    rw [hsame, lookup_sentBack hkey hplain]
  have hvalue : ∀ key ∈ settingsKeys, key ∉ Wg.secretSettings →
      Acceptable lib key (getSetting cipher env.box settings key "") :=
    fun key hkey hplain => h.acceptable hkey hplain
  have hport : checkPort env.reserved (sentBack cipher env.box settings) = .ok () ↔ _ :=
    checkPort_iff (lookup_sentBack (by decide) (by decide))
      ((hvalue "wg_port" (by decide) (by decide)).port rfl)
  constructor
  · rintro ⟨body', hpassed⟩
    obtain rfl : body = body' := Except.ok.inj (hbody.symm.trans hpassed.network)
    refine ⟨hbytes, hport.mp hpassed.port, ?_, ?_⟩
    · have hprovider := hpassed.provider
      rw [onSetting_of_row ((Wg.lookup_trimHeader (by decide)).trans
        (hrow "admin_oidc_provider_id" (by decide) (by decide))), checkProvider, refuseIf_eq_ok]
        at hprovider
      simpa only [not_and, not_not] using hprovider
    · have hlan := hpassed.lan
      simp only [checkLAN, refuseIf_eq_ok, hrow "wg_lan_access" (by decide) (by decide),
        hrow "wg_protected_endpoints" (by decide) (by decide),
        hrow "wg_no_published_aliases" (by decide) (by decide), Option.getD_some] at hlan
      intro haccess hbridge
      by_contra hno
      push Not at hno
      exact hlan ⟨haccess, hbridge, hno.1, by simpa using hno.2⟩
  · intro hstorable
    refine ⟨body, hport.mpr hstorable.port, hbody, ?_, ?_, ?_, ?_, ?_, ?_, ?_, ?_⟩
    · exact checkEndpoint_of_row (hrow "wg_endpoint" (by decide) (by decide))
        ((hvalue "wg_endpoint" (by decide) (by decide)).endpoint rfl)
    · intro r hr
      obtain ⟨hkey, hplain⟩ := ranges_plain r hr
      rw [onSetting_of_row (hrow r.1 hkey hplain)]
      exact (hvalue r.1 hkey hplain).range r hr rfl
    · rw [onSetting_of_row (hrow _ (by decide) (by decide))]
      exact (hvalue _ (by decide) (by decide)).endpoints rfl
    · simp only [checkLAN, refuseIf_eq_ok, hrow "wg_lan_access" (by decide) (by decide),
        hrow "wg_protected_endpoints" (by decide) (by decide),
        hrow "wg_no_published_aliases" (by decide) (by decide), Option.getD_some]
      rintro ⟨haccess, hbridge, hblank, hwaived⟩
      rcases hstorable.lan haccess hbridge with hlisted | hwaive
      · exact hlisted hblank
      · exact hwaived (Or.inl hwaive)
    · rw [onSetting_of_row (hrow _ (by decide) (by decide))]
      exact (hvalue _ (by decide) (by decide)).exempt rfl
    · rw [onSetting_of_row (hrow _ (by decide) (by decide))]
      exact (hvalue _ (by decide) (by decide)).proxies rfl
    · rw [onSetting_of_row (hrow _ (by decide) (by decide))]
      exact ((hvalue _ (by decide) (by decide)).header rfl).2
    · rw [onSetting_of_row ((Wg.lookup_trimHeader (by decide)).trans
        (hrow "admin_oidc_provider_id" (by decide) (by decide))), checkProvider, refuseIf_eq_ok]
      simpa only [not_and, not_not] using hstorable.provider

/-! ### The table afterwards

Every key of the API has a row then; for those that had one the value is the same. -/

/-- The loop of writes: the rows of its entries are new, and the others are kept. -/
theorem lookup_setSettings {entries : List (String × String)}
    (hnodup : (entries.map Prod.fst).Nodup)
    (h : entries.foldlM (setSetting cipher env) settings = .ok settings') (key : String) :
    (∀ v, (key, v) ∈ entries → ∃ w, stored cipher env key v = .ok w ∧
      settings'.lookup key = some w) ∧
      (key ∉ entries.map Prod.fst → settings'.lookup key = settings.lookup key) := by
  induction entries generalizing settings with
  | nil =>
      obtain rfl : settings = settings' := by simpa [pure, Except.pure] using h
      exact ⟨fun v hv => absurd hv List.not_mem_nil, fun _ => rfl⟩
  | cons entry entries ih =>
      rw [List.foldlM_cons, bind_eq_ok] at h
      obtain ⟨settings₁, hset, hrest⟩ := h
      simp only [setSetting, bind_eq_ok, pure_eq_ok] at hset
      obtain ⟨w, hw, rfl⟩ := hset
      obtain ⟨hnew, hnodup⟩ := List.nodup_cons.mp hnodup
      obtain ⟨hwritten, hkept⟩ := ih hnodup hrest
      constructor
      · intro v hv
        rcases List.mem_cons.mp hv with rfl | hv
        · refine ⟨w, hw, ?_⟩
          rw [hkept hnew, AList.lookup_insert]
        · exact hwritten v hv
      · intro hkey
        rw [List.map_cons, List.mem_cons, not_or] at hkey
        rw [hkept hkey.2, AList.lookup_insert_ne hkey.1]

theorem exists_setSettings {entries : List (String × String)}
    (h : ∀ entry ∈ entries, ∃ w, stored cipher env entry.1 entry.2 = .ok w) :
    ∃ settings', entries.foldlM (setSetting cipher env) settings = .ok settings' := by
  induction entries generalizing settings with
  | nil => exact ⟨settings, rfl⟩
  | cons entry entries ih =>
      obtain ⟨w, hw⟩ := h entry List.mem_cons_self
      have hrest : ∃ settings', entries.foldlM (setSetting cipher env) (settings.insert entry.1 w) =
          .ok settings' := ih fun e he => h e (List.mem_cons_of_mem entry he)
      obtain ⟨settings', hrest⟩ := hrest
      refine ⟨settings', ?_⟩
      rw [List.foldlM_cons, bind_eq_ok]
      refine ⟨settings.insert entry.1 w, ?_, hrest⟩
      simp only [setSetting, bind_eq_ok, pure_eq_ok]
      exact ⟨w, hw, rfl⟩

/-- The map that is written is the one that was sent back. -/
theorem lookup_written (h : Accepted lib cipher settings)
    (hpassed : Passed lib cipher env settings (sentBack cipher env.box settings) body) :
    (trimHeader body).lookup key = (sentBack cipher env.box settings).lookup key := by
  obtain ⟨body', hbody, hsame⟩ := @exists_checkNetwork lib cipher env settings h env.peers
  obtain rfl : body' = body := Except.ok.inj (hbody.symm.trans hpassed.network)
  by_cases hkey : key = "real_ip_header"
  · have hrow : body'.lookup key = some (getSetting cipher env.box settings key "") := by
      rw [hsame, lookup_sentBack (by rw [hkey]; decide) (by rw [hkey]; decide)]
    have htrim : trim (getSetting cipher env.box settings key "") =
        getSetting cipher env.box settings key "" :=
      ((h.acceptable (by rw [hkey]; decide) (by rw [hkey]; decide)).header hkey).1
    rw [← hsame, hrow]
    subst hkey
    unfold trimHeader
    rw [hrow]
    exact (AList.lookup_insert _).trans (congrArg some htrim)
  · rw [Wg.lookup_trimHeader hkey, hsame]

/-- What is sent back is stored as it is. -/
theorem stored_sentBack {v : String}
    (hrow : (sentBack cipher env.box settings).lookup key = some v) :
    stored cipher env key v = .ok v := by
  by_cases hsecret : key ∈ Wg.secretSettings
  · obtain ⟨rfl, -⟩ := lookup_sentBack_secret hsecret hrow
    unfold stored
    split
    · rfl
    · rfl
  · by_cases hkey : key ∈ settingsKeys
    · rw [stored, masked_of_sealed hkey hsecret, if_neg Bool.false_ne_true]
    · rw [lookup_sentBack_none hkey] at hrow
      cases hrow

/-- When the update is accepted, and what the table is after it. -/
theorem handlePutSettings_spec (h : Accepted lib cipher settings) :
    ((∃ settings', handlePutSettings lib cipher env settings
        ⟨bytes, handleGetSettings cipher env.box settings⟩ = .ok settings') ↔
      Storable cipher env settings bytes) ∧
    ∀ settings', handlePutSettings lib cipher env settings
        ⟨bytes, handleGetSettings cipher env.box settings⟩ = .ok settings' →
      ∀ key, settings'.lookup key =
        ((sentBack cipher env.box settings).lookup key).or (settings.lookup key) := by
  have hput : ∀ settings', handlePutSettings lib cipher env settings
      ⟨bytes, handleGetSettings cipher env.box settings⟩ = .ok settings' ↔
        bytes ≤ maxJSONBody ∧ ∃ body,
          Passed lib cipher env settings (sentBack cipher env.box settings) body ∧
            (trimHeader body).pairs.foldlM (setSetting cipher env) settings = .ok settings' := by
    intro settings'
    simp only [handlePutSettings, bind_eq_ok, refuseIf_eq_ok, checkSettings_eq_ok, Nat.not_lt]
    constructor
    · rintro ⟨_, hfits, _, ⟨-, body, hpassed, rfl⟩, hwritten⟩
      exact ⟨hfits, body, hpassed, hwritten⟩
    · rintro ⟨hfits, body, hpassed, hwritten⟩
      exact ⟨(), hfits, _, ⟨find?_unsupported, body, hpassed, rfl⟩, hwritten⟩
  constructor
  · constructor
    · rintro ⟨settings', hok⟩
      obtain ⟨hfits, body, hpassed, -⟩ := (hput settings').mp hok
      exact (passed_iff h hfits).mp ⟨body, hpassed⟩
    · intro hstorable
      obtain ⟨body, hpassed⟩ := (passed_iff h hstorable.fits).mpr hstorable
      have hstored : ∀ entry ∈ (trimHeader body).pairs,
          ∃ w, stored cipher env entry.1 entry.2 = .ok w := by
        intro entry hentry
        have hrow :=
          GoMap.mem_pairs.mp (show (entry.1, entry.2) ∈ (trimHeader body).pairs from hentry)
        rw [lookup_written h hpassed] at hrow
        exact ⟨_, stored_sentBack hrow⟩
      obtain ⟨settings', hwritten⟩ := exists_setSettings hstored
      exact ⟨settings', (hput settings').mpr ⟨hstorable.fits, body, hpassed, hwritten⟩⟩
  · intro settings' hok key
    obtain ⟨-, body, hpassed, hwritten⟩ := (hput settings').mp hok
    have hrows := lookup_setSettings (GoMap.nodup_keys_pairs _) hwritten
    obtain ⟨hnew, hkept⟩ := hrows key
    rw [← lookup_written h hpassed]
    cases hrow : (trimHeader body).lookup key with
    | some v =>
        obtain ⟨w, hw, hlook⟩ := hnew v (GoMap.mem_pairs.mpr hrow)
        rw [lookup_written h hpassed] at hrow
        rw [stored_sentBack hrow] at hw
        rw [hlook, Option.some_or, Except.ok.inj hw]
    | none =>
        rw [Option.none_or]
        apply hkept
        intro hmem
        obtain ⟨entry, hentry, rfl⟩ := List.mem_map.mp hmem
        have hthere := GoMap.mem_pairs.mp
          (show (entry.1, entry.2) ∈ (trimHeader body).pairs from hentry)
        rw [hrow] at hthere
        cases hthere

end WriteBack

/-! ### The effects afterwards

A reader without a default does not tell a missing row from an empty one; one with a default
does. -/

section After

variable {lib : Lib} {cipher : Cipher} {box : Box} {cfg : Config} {settings settings' : Settings}
  {key : String}

def WrittenBack (cipher : Cipher) (box : Box) (settings settings' : Settings) : Prop :=
  ∀ key, settings'.lookup key = ((sentBack cipher box settings).lookup key).or (settings.lookup key)

/-- A setting that is not masked has a row. -/
theorem WrittenBack.lookup (h : WrittenBack cipher box settings settings')
    (hkey : key ∈ settingsKeys) (hplain : key ∉ Wg.secretSettings) :
    settings'.lookup key = some (getSetting cipher box settings key "") := by
  rw [h key, lookup_sentBack hkey hplain, Option.some_or]

/-- A reader that has no default finds what it found, a secret among them. -/
theorem WrittenBack.getSetting_empty (h : WrittenBack cipher box settings settings')
    (key : String) :
    getSetting cipher box settings' key "" = getSetting cipher box settings key "" := by
  by_cases hsecret : key ∈ Wg.secretSettings
  · cases hrow : (sentBack cipher box settings).lookup key with
    | none => rw [getSetting, getSetting, h key, hrow, Option.none_or]
    | some v =>
        obtain ⟨rfl, hunset⟩ := lookup_sentBack_secret hsecret hrow
        rw [hunset, getSetting, h key, hrow, Option.some_or]
        simp only [sealed_of_masked hsecret, if_true, Box.openValue_empty]
  · by_cases hkey : key ∈ settingsKeys
    · rw [getSetting_eq (masked_of_sealed hkey hsecret), Wg.getSetting, h.lookup hkey hsecret,
        Option.getD_some]
    · rw [getSetting, getSetting, h key, lookup_sentBack_none hkey, Option.none_or]

/-- A reader that has a default finds what it found, but for a default in place of a row. -/
theorem WrittenBack.getSetting_iff (h : WrittenBack cipher box settings settings')
    (hkey : key ∈ settingsKeys) (hplain : key ∉ Wg.secretSettings) (dflt : String) :
    getSetting cipher box settings' key dflt = getSetting cipher box settings key dflt ↔
      (Unset settings key → dflt = "") := by
  have hsealed := masked_of_sealed hkey hplain
  rw [getSetting_eq hsealed, getSetting_eq hsealed, Wg.getSetting, Wg.getSetting,
    h.lookup hkey hplain, getSetting_eq hsealed, Wg.getSetting, Unset]
  cases settings.lookup key with
  | none =>
      simp only [Option.getD_none, Option.getD_some, forall_const]
      exact eq_comm
  | some v => simp

/-- A default that stood in for a row is gone. -/
theorem WrittenBack.getSetting_unset (h : WrittenBack cipher box settings settings')
    (hkey : key ∈ settingsKeys) (hplain : key ∉ Wg.secretSettings) (hunset : Unset settings key)
    (dflt : String) : getSetting cipher box settings' key dflt = "" ∧
      getSetting cipher box settings key dflt = dflt := by
  have hsealed := masked_of_sealed hkey hplain
  have hrow : settings.lookup key = none := hunset
  constructor
  · rw [getSetting_eq hsealed, Wg.getSetting, h.lookup hkey hplain, getSetting_eq hsealed,
      Wg.getSetting, hrow, Option.getD_none, Option.getD_some]
  · rw [getSetting_eq hsealed, Wg.getSetting, hrow, Option.getD_none]

theorem WrittenBack.wireGuard_iff (h : WrittenBack cipher box settings settings')
    (haccepted : Accepted lib cipher settings) :
    wgSettings lib settings' = wgSettings lib settings ↔ ¬ Unset settings "wg_network" := by
  have hport : Wg.getSetting settings' "wg_port" "" = Wg.getSetting settings "wg_port" "" := by
    simpa only [getSetting_eq (show Store.secretSettings.contains "wg_port" = false by decide)]
      using h.getSetting_empty "wg_port"
  have hendpoint :
      Wg.getSetting settings' "wg_endpoint" "" = Wg.getSetting settings "wg_endpoint" "" := by
    simpa only [getSetting_eq (show Store.secretSettings.contains "wg_endpoint" = false by decide)]
      using h.getSetting_empty "wg_endpoint"
  have hnetwork : getSetting cipher box settings' "wg_network" Wg.wgDefaultNetwork =
      getSetting cipher box settings "wg_network" Wg.wgDefaultNetwork ↔ _ :=
    h.getSetting_iff (by decide) (by decide) _
  rw [getSetting_eq (by decide), getSetting_eq (by decide)] at hnetwork
  constructor
  · intro hsame hunset
    -- the default is read before, and the empty text after
    have hreadable : Wg.PortReadable settings := by
      have hvalue : Acceptable lib "wg_port" (getSetting cipher box settings "wg_port" "") :=
        haccepted.acceptable (by decide) (by decide)
      rw [getSetting_eq (by decide)] at hvalue
      exact hvalue.port rfl
    have hbefore : ∃ port endpoint, wgSettings lib settings =
        .ok (port, (Wg.tunnelPrefix Wg.wgDefaultNetwork).get (by decide) |>.masked, endpoint) := by
      refine Wg.exists_wgSettings.mpr ⟨hreadable, _, ?_, rfl⟩
      rw [Wg.getSetting, hunset, Option.getD_none, Option.some_get]
    rw [← hsame] at hbefore
    obtain ⟨-, p, hp, -⟩ := Wg.exists_wgSettings.mp hbefore
    rw [Wg.getSetting, h.lookup (by decide) (by decide), Option.getD_some,
      getSetting_eq (by decide), Wg.getSetting, hunset, Option.getD_none,
        Wg.tunnelPrefix_empty] at hp
    cases hp
  · intro hset
    rw [wgSettings, wgSettings, hport, hendpoint, hnetwork.mpr fun hunset => absurd hunset hset]

/-- The page for unknown names has the text of its default as its default. -/
theorem WrittenBack.unmatched_eq (h : WrittenBack cipher box settings settings') :
    unmatched cipher box settings' = unmatched cipher box settings := by
  rw [unmatched, unmatched, h.getSetting_empty]
  by_cases hunset : Unset settings "default_site"
  · obtain ⟨hafter, hbefore⟩ := h.getSetting_unset (by decide) (by decide) hunset "404"
    rw [hafter, hbefore]
    rfl
  · rw [(h.getSetting_iff (by decide) (by decide) "404").mpr fun hno => absurd hno hunset]

theorem WrittenBack.acme_iff (h : WrittenBack cipher box settings settings') :
    acmeSettings cipher box cfg settings' = acmeSettings cipher box cfg settings ↔
      (Unset settings "acme_email" → cfg.acmeEmail = "") := by
  rw [← h.getSetting_iff (by decide) (by decide)]
  simp only [acmeSettings, h.getSetting_empty, ACMESettings.mk.injEq, true_and, and_true]

theorem WrittenBack.domain_iff (h : WrittenBack cipher box settings settings') :
    defaultDomain cipher box cfg settings' = defaultDomain cipher box cfg settings ↔
      (Unset settings "docker_default_domain" → ∀ d ∈ cfg.dockerDomain, trim d = "") := by
  unfold defaultDomain
  cases cfg.dockerDomain with
  | none => simp
  | some d =>
      simp only [Option.map_some, Option.some.injEq, Option.mem_def, forall_eq']
      by_cases hunset : Unset settings "docker_default_domain"
      · obtain ⟨hafter, hbefore⟩ := h.getSetting_unset (by decide) (by decide) hunset d
        have htrim : trim "" = "" := rfl
        rw [hafter, hbefore, htrim]
        simp only [hunset, true_implies]
        exact eq_comm
      · rw [(h.getSetting_iff (by decide) (by decide) d).mpr fun hno => absurd hno hunset]
        simp only [hunset, false_implies]

/-- The settings come to the same, unless a default stood in for a row. -/
theorem effects_iff (h : WrittenBack cipher box settings settings')
    (haccepted : Accepted lib cipher settings) :
    effects lib cipher box cfg settings' = effects lib cipher box cfg settings ↔
      Explicit cfg settings := by
  constructor
  · intro hsame
    refine ⟨(h.wireGuard_iff haccepted).mp ?_, h.acme_iff.mp ?_, h.domain_iff.mp ?_⟩
    · exact congrArg Effects.wireGuard hsame
    · exact congrArg Effects.acme hsame
    · exact congrArg Effects.dockerDomain hsame
  · intro hexplicit
    have hwire := (h.wireGuard_iff haccepted).mpr hexplicit.network
    have hacme := h.acme_iff.mpr hexplicit.email
    have hdomain := h.domain_iff.mpr hexplicit.domain
    simp only [effects, hwire, hacme, hdomain, h.unmatched_eq, h.getSetting_empty]

end After

/-- What was read can be written back and changes nothing exactly when its text is not too long,
the port, the provider and LAN access are still allowed, and no default stands in for a row. -/
theorem writing_back_iff (lib : Lib) (cipher : Cipher) (env : Env) (cfg : Config)
    (settings : Settings) (bytes : Nat) (haccepted : Accepted lib cipher settings) :
    (∃ settings', handlePutSettings lib cipher env settings
        ⟨bytes, handleGetSettings cipher env.box settings⟩ = .ok settings' ∧
      effects lib cipher env.box cfg settings' = effects lib cipher env.box cfg settings) ↔
      Storable cipher env settings bytes ∧ Explicit cfg settings := by
  obtain ⟨hok, hrows⟩ := @handlePutSettings_spec lib cipher env settings bytes haccepted
  constructor
  · rintro ⟨settings', hput, hsame⟩
    have hback : WrittenBack cipher env.box settings settings' := hrows settings' hput
    exact ⟨hok.mp ⟨settings', hput⟩, (effects_iff hback haccepted).mp hsame⟩
  · rintro ⟨hstorable, hexplicit⟩
    obtain ⟨settings', hput⟩ := hok.mpr hstorable
    have hback : WrittenBack cipher env.box settings settings' := hrows settings' hput
    exact ⟨settings', hput, (effects_iff hback haccepted).mpr hexplicit⟩

/-! ### Tables that updates make

The empty table is one, and an accepted update makes another. -/

theorem accepted_empty (lib : Lib) (cipher : Cipher) : Accepted lib cipher ∅ := by
  intro key _ v hrow
  rw [AList.lookup_empty] at hrow
  cases hrow

/-- An accepted update leaves a table of accepted settings. -/
theorem Accepted.handlePutSettings {lib : Lib} {cipher : Cipher} {env : Env}
    {settings settings' : Settings} {put : Put} (h : Accepted lib cipher settings)
    (hput : handlePutSettings lib cipher env settings put = .ok settings') :
    Accepted lib cipher settings' := by
  simp only [SettingsApi.handlePutSettings, bind_eq_ok] at hput
  obtain ⟨_, -, body, hcheck, hwritten⟩ := hput
  intro key hkey v hrow
  obtain ⟨hnew, hkept⟩ := lookup_setSettings (GoMap.nodup_keys_pairs _) hwritten key
  cases hbody : body.lookup key with
  | some sent =>
      obtain ⟨w, hw, hlook⟩ := hnew sent (GoMap.mem_pairs.mpr hbody)
      obtain rfl : w = v := Option.some.inj (hlook.symm.trans hrow)
      exact ⟨env, settings, put.body, body, hcheck, sent, hbody, hw⟩
  | none =>
      have hnot : key ∉ body.pairs.map Prod.fst := by
        intro hmem
        obtain ⟨entry, hentry, rfl⟩ := List.mem_map.mp hmem
        have hthere := GoMap.mem_pairs.mp (show (entry.1, entry.2) ∈ body.pairs from hentry)
        rw [hbody] at hthere
        cases hthere
      rw [hkept hnot] at hrow
      exact h key hkey v hrow

section Examples

open Quicgate.Store (asciiLib openCipher oldKey someNonce)

def openEnv : Env :=
  ⟨[80, 443], .empty, [], false, Box.new openCipher oldKey [], "", fun _ => .ok someNonce⟩

def envConfig : Config := ⟨false, "env@example.org", none⟩

/-- The settings of an update that says what would have a default, and sets a secret. -/
def firstUpdate : Settings :=
  GoMap.insertAll ∅ [("acme_email", "ops@example.org"), ("wg_network", "10.8.0.7/24"),
    ("real_ip_header", " X-Forwarded-For "), ("acme_dns_config", "credentials")]

def firstTable : Settings :=
  (handlePutSettings asciiLib openCipher openEnv ∅ ⟨150, firstUpdate⟩).toOption.getD ∅

theorem handlePutSettings_firstUpdate :
    handlePutSettings asciiLib openCipher openEnv ∅ ⟨150, firstUpdate⟩ = .ok firstTable := by
  have hok : (handlePutSettings asciiLib openCipher openEnv ∅ ⟨150, firstUpdate⟩).toOption.isSome =
      true := by decide +kernel
  unfold firstTable
  cases hput : handlePutSettings asciiLib openCipher openEnv ∅ ⟨150, firstUpdate⟩ with
  | error why =>
      rw [hput] at hok
      cases hok
  | ok settings => rfl

theorem writing_back_iff_firstTable : ∃ settings', handlePutSettings asciiLib openCipher openEnv
    firstTable ⟨2000, handleGetSettings openCipher openEnv.box firstTable⟩ = .ok settings' ∧
      effects asciiLib openCipher openEnv.box envConfig settings' =
        effects asciiLib openCipher openEnv.box envConfig firstTable := by
  have haccepted := (accepted_empty asciiLib openCipher).handlePutSettings
    handlePutSettings_firstUpdate
  apply (writing_back_iff asciiLib openCipher openEnv envConfig firstTable 2000 haccepted).mpr
  constructor
  · refine ⟨by simp [maxJSONBody], ?_, ?_, ?_⟩
    · intro hport
      exact absurd (show getSetting openCipher openEnv.box firstTable "wg_port" "" = "" by
        decide +kernel) hport
    · intro hprovider
      exact absurd (show getSetting openCipher openEnv.box firstTable "admin_oidc_provider_id" "" =
        "" by decide +kernel) hprovider
    · intro _ hbridge
      cases hbridge
  · refine ⟨?_, ?_, ?_⟩
    · unfold Unset
      decide +kernel
    · intro hunset
      unfold Unset at hunset
      exact absurd hunset (by decide +kernel)
    · intro _ d hd
      cases hd

/-- A table without rows: what was read can be written back, but the tunnel network and the e-mail
address of the process are lost. -/
theorem writing_back_loses_defaults :
    ¬ ∀ (env : Env) (cfg : Config) (settings : Settings) (bytes : Nat), bytes ≤ maxJSONBody →
      Accepted asciiLib openCipher settings →
      ∃ settings', handlePutSettings asciiLib openCipher env settings
          ⟨bytes, handleGetSettings openCipher env.box settings⟩ = .ok settings' ∧
        effects asciiLib openCipher env.box cfg settings' =
          effects asciiLib openCipher env.box cfg settings := by
  intro hall
  have haccepted := accepted_empty asciiLib openCipher
  obtain ⟨settings', hput, hsame⟩ := hall openEnv envConfig ∅ 2000 (by simp [maxJSONBody]) haccepted
  have hback : WrittenBack openCipher openEnv.box ∅ settings' :=
    (handlePutSettings_spec haccepted).2 settings' hput
  have hexplicit := (effects_iff hback haccepted).mp hsame
  exact hexplicit.network (AList.lookup_empty _)

end Examples

end Quicgate.SettingsApi
