import Quicgate.VpnLease
import Quicgate.WgPeers

/-!
# One issuer behind a VPN identity

The VPN names a person as (provider, subject).  `UpdateOIDCProvider`
(`internal/store/oidc.go`) reads the row of the provider, counts what the VPN knows under
its id when the issuer changes, and writes the row; the callback of the portal
(`internal/engine/portal.go`) reads the row, has the token verified against that issuer,
and stores the session.  Each statement is a step here, and any number of updates, logins,
enrolments, blocks and saves are under way at once.

Two things are remembered beside the state: which issuer asserted which subject, and the
issuers at the time a block, a policy, a list or a portal was stored.

`identity_keeps_issuer` has two parts: runs whose writes come `OnTime` keep every identity with
its issuer, and runs in which nothing is stored under an id during an update of it come on
time, by the count that the update makes.
-/

namespace Quicgate.VpnIssuers

open Quicgate.GoStrings Quicgate.Checks Quicgate.Sql Quicgate.TransitionSystem
open Quicgate.Access (VPNSubject AccessList)
open Quicgate.Store (Lib trim)
open Quicgate.Wg (Peers WGDevice createWGDevice)
open Quicgate.VpnLease (VPNSession VPNBlocked loginVPNSession blockVPNOwner)

/-! ### Providers

Of a provider the model has what validation and the VPN read. -/

/-- A row of `oidc_providers` without its id, the client secret as it is stored. -/
structure OIDCProvider where
  name : String
  issuer : String
  clientID : String
  clientSecret : String
  scopes : List String
  groupsClaim : String
  sessionHours : Int
  skipTLSVerify : Bool
deriving DecidableEq, Repr

def maxSessionHours : Int := 720

/-- `strings.TrimRight(s, "/")`. -/
def trimRightSlashes (s : List Char) : List Char := (s.reverse.dropWhile (· == '/')).reverse

def OIDCProvider.validate (p : OIDCProvider) : Check OIDCProvider := do
  let name := trim p.name
  let issuer := trimRightSlashes (trim p.issuer).toList
  let clientID := trim p.clientID
  refuseIf (name = "") "provider name is required"
  refuseIf (("http://".toList.isPrefixOf issuer || "https://".toList.isPrefixOf issuer) = false)
    "issuer must be an http(s) URL"
  refuseIf (clientID = "") "client id is required"
  let groupsClaim := if trim p.groupsClaim = "" then "groups" else trim p.groupsClaim
  refuseIf (p.sessionHours < 0) "sessionHours cannot be negative"
  refuseIf (maxSessionHours < p.sessionHours)
    ("sessionHours cannot exceed 720 (30 days): SSO sessions cannot be revoked one by one " ++
      "before they expire")
  return { p with
    name, issuer := String.ofList issuer, clientID, groupsClaim
    scopes := (p.scopes.map trim).filter (· ≠ "")
    sessionHours := if p.sessionHours = 0 then 12 else p.sessionHours }

structure VPNPolicy where
  name : String
  subject : VPNSubject
deriving DecidableEq, Repr

/-- The tables that name people, or the provider they come from. -/
structure Db where
  providers : Table OIDCProvider
  vpn : VpnLease.Store
  peers : Peers
  policies : Table VPNPolicy
  accessLists : Table AccessList
  hosts : Table Store.Host

def Db.issuerOf (db : Db) (p : Int) : Option String := (db.providers.lookup p).map (·.issuer)

/-! ### What the VPN knows under an id

The count is a list of statements, one for each table that knows an id, and the update goes on
after all of them came to nothing. -/

def hostLabel (id : Int) (h : Store.Host) : String :=
  "host " ++ (h.domains.head?.getD (toString id))

def portalNames (p : Int) (h : Store.Host) : Bool := h.options.portal.any (·.providerID == p)

def hostUsers (p id : Int) (h : Store.Host) : List String :=
  (if h.options.oidc.any (·.providerID == p) then [hostLabel id h] else []) ++
  (if portalNames p h then [hostLabel id h ++ " (VPN portal)"] else []) ++
  (h.options.authRules.filter fun r => r.oidc.any (·.providerID == p)).map
    fun r => hostLabel id h ++ " path " ++ r.path

/-- The users that `vpnIdentityUsers` takes over from `oidcProviderUsers`. -/
def identifies (u : String) : Bool :=
  "VPN policy ".toList.isPrefixOf u.toList || "(VPN portal)".toList.isSuffixOf u.toList ||
    "access list ".toList.isPrefixOf u.toList

/-- The statements of `vpnIdentityUsers`, in order. The two more of `oidcProviderUsers`, on
devices and on the admin login, name nothing that it takes over. -/
inductive Query where
  | logins
  | devices
  | blocked
  | hosts
  | lists
  | policies
deriving DecidableEq, Repr

def queries : List Query := [.logins, .devices, .blocked, .hosts, .lists, .policies]

def counted (n : Nat) (what : String) : List String :=
  if 0 < n then [String.ofList (itoa n) ++ " " ++ what] else []

def listNames (p : Int) (a : AccessList) : Bool := a.rules.any fun r => r.vpn.any (·.provider == p)

def Db.users (db : Db) (p : Int) : Query → List String
  | .logins => counted (db.vpn.sessions.countP (·.provider == p)) "logins"
  | .devices =>
      counted (db.peers.devices.rows.countP fun row => row.2.provider == p && !row.2.revoked)
        "devices"
  | .blocked => counted (db.vpn.blocked.countP (·.provider == p)) "blocked people"
  | .hosts => (db.hosts.rows.flatMap fun row => hostUsers p row.1 row.2).filter identifies
  | .lists =>
      (db.accessLists.rows.filter fun row => listNames p row.2).map fun row =>
        "access list " ++ row.2.name
  | .policies =>
      (db.policies.rows.filter fun row => row.2.subject.provider == p).map fun row =>
        "VPN policy " ++ row.2.name

/-! ### Requests under way

A job is an update, a login, an enrolment, a block or a save, between two of its statements. -/

inductive Job where
  /-- The callback has read the provider's row. -/
  | login (p : Int) (row : OIDCProvider)
  /-- The token was verified against the issuer of that row. -/
  | verified (issuer : String) (v : VPNSession)
  /-- An enrolment has read the lease of its owner. -/
  | enrolling (provider : Int) (sub email : String)
  /-- `UpdateOIDCProvider` has read `issuer` and `secret`, and counts. -/
  | counting (p : Int) (issuer secret : String) (new : OIDCProvider) (left : List Query)
      (users : List String)
  | writing (p : Int) (issuer secret : String) (new : OIDCProvider)
  | ended (answer : Check Unit)
deriving DecidableEq

/-- The rows that name a provider, beside the people. -/
inductive Saved where
  | blocked (provider : Int) (sub : String)
  | policy (id : Int)
  | list (id : Int)
  | portal (id : Int)
deriving DecidableEq, Repr

structure State where
  db : Db
  jobs : List Job
  /-- The sessions of the portal, in memory: provider, subject, email. -/
  portal : List (Int × String × String)
  /-- Which issuer asserted which subject. -/
  asserted : List (String × String)
  /-- The issuers when a row was stored. -/
  since : Saved → Int → Option String

def noRows : String := "sql: no rows in result set"

def decideUpdate (p : Int) (issuer secret : String) (new : OIDCProvider) (left : List Query)
    (users : List String) : Job :=
  if left = [] then
    if users = [] then .writing p issuer secret new
    else .ended
      (.error ("the issuer cannot change while the VPN knows people from this provider (" ++
      String.intercalate ", " users ++ "): add the new issuer as a new identity provider"))
  else .counting p issuer secret new left users

/-- The first two parts of `UpdateOIDCProvider`: the validation, and the row it reads. -/
def beginUpdate (db : Db) (p : Int) (new : OIDCProvider) : Job :=
  match new.validate with
  | .error why => .ended (.error why)
  | .ok new =>
      match db.providers.lookup p with
      | none => .ended (.error noRows)
      | some row =>
          if new.issuer ≠ row.issuer then .counting p row.issuer row.clientSecret new queries []
          else .writing p row.issuer row.clientSecret new

/-- The row that is written. An empty secret keeps the stored one. -/
def writtenRow (secret : String) (new : OIDCProvider) (sealing : Check String) :
    Check OIDCProvider :=
  if new.clientSecret = "" then .ok { new with clientSecret := secret }
  else match sealing with
    | .error why => .error why
    | .ok text => .ok { new with clientSecret := text }

/-- The statements and transactions. A save comes with its record as it was validated. -/
inductive Label where
  | readProvider (p : Int)
  | verify (i : Nat) (v : VPNSession)
  | commitLogin (i : Nat)
  | readLease (k : Nat) (now : Int)
  | createDevice (i : Nat) (tunnel : Netip.Prefix) (sealing : Check Unit) (now limit : Nat)
      (d : WGDevice)
  | block (b : VPNBlocked)
  | savePolicy (id : Option Int) (policy : VPNPolicy)
  | saveList (id : Option Int) (a : AccessList)
  | saveHost (id : Option Int) (h : Store.Host)
  | readRow (p : Int) (new : OIDCProvider)
  | count (i : Nat)
  | write (i : Nat) (sealing : Check String)

def save {α : Type} (t : Table α) (id : Option Int) (v : α) : Option (Int × Table α) :=
  match id with
  | none => some (t.seq + 1, t.insert v)
  | some id => if t.has id then some (id, t.update id v) else none

def State.stamp (s : State) (k : Saved) : Saved → Int → Option String :=
  fun k' => if k' = k then s.db.issuerOf else s.since k'

def State.setJob (s : State) (i : Nat) (job : Job) : State := { s with jobs := s.jobs.set i job }

def step (lib : Lib) (s : State) : Label → Option State
  | .readProvider p =>
      (s.db.providers.lookup p).map fun row => { s with jobs := s.jobs ++ [.login p row] }
  | .verify i v =>
      match s.jobs[i]? with
      | some (.login p row) => some { s with
          asserted := (row.issuer, v.sub) :: s.asserted
          jobs := s.jobs.set i (.verified row.issuer { v with provider := p }) }
      | _ => none
  | .commitLogin i =>
      match s.jobs[i]? with
      | some (.verified _ v) =>
          match loginVPNSession s.db.vpn v with
          | none => some (s.setJob i (.ended (.error "this account is blocked from the VPN")))
          | some vpn => some { s with
              db := { s.db with vpn }
              portal := s.portal ++ [(v.provider, v.sub, v.email)]
              jobs := s.jobs.set i (.ended (.ok ())) }
      | _ => none
  | .readLease k now =>
      match s.portal[k]? with
      | some (provider, sub, email) =>
          match s.db.vpn.sessions.find? fun v => v.owner == (provider, sub) with
          | some lease =>
              if lease.live now then some
                { s with jobs := s.jobs ++ [.enrolling provider sub email] }
              else none
          | none => none
      | none => none
  | .createDevice i tunnel sealing now limit d =>
      match s.jobs[i]? with
      | some (.enrolling provider sub _) =>
          match createWGDevice lib s.db.peers tunnel sealing now limit
              { d with kind := "sso", provider, sub } with
          | .ok peers => some { s with
              db := { s.db with peers }
              jobs := s.jobs.set i (.ended (.ok ())) }
          | .error why => some (s.setJob i (.ended (.error why)))
      | _ => none
  | .block b => some { s with
      db := { s.db with vpn := blockVPNOwner s.db.vpn b }
      since := s.stamp (.blocked b.provider b.sub) }
  | .savePolicy id policy =>
      if s.db.providers.has policy.subject.provider then
        (save s.db.policies id policy).map fun (key, policies) => { s with
          db := { s.db with policies }
          since := s.stamp (.policy key) }
      else none
  | .saveList id a =>
      (save s.db.accessLists id a).map fun (key, accessLists) => { s with
        db := { s.db with accessLists }
        since := s.stamp (.list key) }
  | .saveHost id h =>
      (save s.db.hosts id h).map fun (key, hosts) => { s with
        db := { s.db with hosts }
        since := s.stamp (.portal key) }
  | .readRow p new => some { s with jobs := s.jobs ++ [beginUpdate s.db p new] }
  | .count i =>
      match s.jobs[i]? with
      | some (.counting p issuer secret new (q :: left) users) =>
          some (s.setJob i (decideUpdate p issuer secret new left (users ++ s.db.users p q)))
      | _ => none
  | .write i sealing =>
      match s.jobs[i]? with
      | some (.writing p _ secret new) =>
          match writtenRow secret new sealing with
          | .error why => some (s.setJob i (.ended (.error why)))
          | .ok row =>
              if s.db.providers.has p then some { s with
                db := { s.db with providers := s.db.providers.update p row }
                jobs := s.jobs.set i (.ended (.ok ())) }
              else some (s.setJob i (.ended (.error noRows)))
      | _ => none

/-! ### What is to hold

An identity belongs to the issuer that asserted it, and so does every row that names the
provider. -/

def Db.Names (db : Db) (p : Int) : Saved → Prop
  | .blocked q sub => q = p ∧ ∃ b ∈ db.vpn.blocked, b.owner = (q, sub)
  | .policy id => ∃ policy, (id, policy) ∈ db.policies.rows ∧ policy.subject.provider = p
  | .list id => ∃ a, (id, a) ∈ db.accessLists.rows ∧ listNames p a = true
  | .portal id => ∃ h, (id, h) ∈ db.hosts.rows ∧ portalNames p h = true

/-- Every person the VPN knows under an id was asserted by the issuer now stored there, and
what names the id was stored while it had this issuer. -/
structure IssuerKept (s : State) : Prop where
  sessions : ∀ v ∈ s.db.vpn.sessions, ∀ issuer, s.db.issuerOf v.provider = some issuer →
    (issuer, v.sub) ∈ s.asserted
  devices : ∀ id d, (id, d) ∈ s.db.peers.devices.rows → d.kind = "sso" → d.revoked = false →
    ∀ issuer, s.db.issuerOf d.provider = some issuer → (issuer, d.sub) ∈ s.asserted
  saved : ∀ p k, s.db.Names p k → ∀ issuer, s.db.issuerOf p = some issuer →
    s.since k p = some issuer

def Db.knows (db : Db) (p : Int) : Query → Bool
  | .logins => db.vpn.sessions.any (·.provider == p)
  | .devices => db.peers.devices.rows.any fun row => row.2.provider == p && !row.2.revoked
  | .blocked => db.vpn.blocked.any (·.provider == p)
  | .hosts => db.hosts.rows.any fun row => portalNames p row.2
  | .lists => db.accessLists.rows.any fun row => listNames p row.2
  | .policies => db.policies.rows.any fun row => row.2.subject.provider == p

/-- A login commits while the issuer that its token was verified against is still the
stored one, and an update that changes the stored issuer finds nothing in the VPN under the
id when it writes. -/
def OnTime (s : State) : Label → Prop
  | .commitLogin i =>
      match s.jobs[i]? with
      | some (.verified issuer v) => s.db.issuerOf v.provider = some issuer
      | _ => True
  | .write i _ =>
      match s.jobs[i]? with
      | some (.writing p _ _ new) =>
          s.db.issuerOf p = some new.issuer ∨ ∀ q ∈ queries, s.db.knows p q = false
      | _ => True
  | _ => True

instance (s : State) (label : Label) : Decidable (OnTime s label) :=
  match label with
  | .commitLogin i =>
      match h : s.jobs[i]? with
      | some (.verified issuer v) =>
          decidable_of_iff (s.db.issuerOf v.provider = some issuer) (by simp [OnTime, h])
      | some (.login _ _) | some (.enrolling _ _ _) | some (.counting _ _ _ _ _ _)
      | some (.writing _ _ _ _) | some (.ended _) | none => isTrue (by simp [OnTime, h])
  | .write i _ =>
      match h : s.jobs[i]? with
      | some (.writing p _ _ new) =>
          decidable_of_iff
            (s.db.issuerOf p = some new.issuer ∨ ∀ q ∈ queries, s.db.knows p q = false)
            (by simp [OnTime, h])
      | some (.login _ _) | some (.enrolling _ _ _) | some (.counting _ _ _ _ _ _)
      | some (.verified _ _) | some (.ended _) | none => isTrue (by simp [OnTime, h])
  | .readProvider _ | .verify _ _ | .readLease _ _ | .createDevice _ _ _ _ _ _ | .block _
  | .savePolicy _ _ | .saveList _ _ | .saveHost _ _ | .readRow _ _ | .count _ => isTrue trivial

/-! ### What the count finds

The statements of the count look into every table that knows an id. -/

theorem counted_eq_nil {n : Nat} {what : String} : counted n what = [] ↔ n = 0 := by
  unfold counted
  split
  · simp only [List.cons_ne_nil, false_iff]
    omega
  · simp only [true_iff]
    omega

theorem identifies_portal (label : String) : identifies (label ++ " (VPN portal)") = true := by
  have hsuffix : "(VPN portal)".toList <:+ (label ++ " (VPN portal)").toList := by
    rw [String.toList_append]
    exact List.IsSuffix.trans ⟨[' '], rfl⟩ (List.suffix_append _ _)
  simp only [identifies, List.isSuffixOf_iff_suffix.mpr hsuffix, Bool.or_true, Bool.true_or]

/-- A count that comes to nothing has nothing to find. -/
theorem knows_of_users {db : Db} {p : Int} {q : Query} (h : db.users p q = []) :
    db.knows p q = false := by
  cases q with
  | logins =>
      have hcount := List.countP_eq_zero.mp (counted_eq_nil.mp h)
      simpa [Db.knows] using hcount
  | devices =>
      have hcount := List.countP_eq_zero.mp (counted_eq_nil.mp h)
      simpa [Db.knows] using hcount
  | blocked =>
      have hcount := List.countP_eq_zero.mp (counted_eq_nil.mp h)
      simpa [Db.knows] using hcount
  | hosts =>
      simp only [Db.knows, List.any_eq_false]
      intro row hrow hportal
      have htext : hostLabel row.1 row.2 ++ " (VPN portal)" ∈ db.users p .hosts := by
        refine List.mem_filter.mpr ⟨List.mem_flatMap.mpr ⟨row, hrow, ?_⟩, identifies_portal _⟩
        simp [hostUsers, hportal]
      rw [h] at htext
      cases htext
  | lists => simpa [Db.users, Db.knows] using h
  | policies => simpa [Db.users, Db.knows] using h

/-- A row that names a provider is found by one of the statements. -/
theorem knows_of_names {db : Db} {p : Int} {k : Saved} (h : db.Names p k) :
    ∃ q ∈ queries, db.knows p q = true := by
  cases k with
  | blocked provider sub =>
      obtain ⟨rfl, b, hb, howner⟩ := h
      refine ⟨.blocked, by decide, List.any_eq_true.mpr ⟨b, hb, ?_⟩⟩
      simpa [VPNBlocked.owner] using congrArg Prod.fst howner
  | policy id =>
      obtain ⟨policy, hrow, rfl⟩ := h
      exact ⟨.policies, by decide, List.any_eq_true.mpr ⟨(id, policy), hrow, by simp⟩⟩
  | list id =>
      obtain ⟨a, hrow, hnames⟩ := h
      exact ⟨.lists, by decide, List.any_eq_true.mpr ⟨(id, a), hrow, hnames⟩⟩
  | portal id =>
      obtain ⟨host, hrow, hnames⟩ := h
      exact ⟨.hosts, by decide, List.any_eq_true.mpr ⟨(id, host), hrow, hnames⟩⟩

/-! ### What the writes do

The statements of `VpnLease` and of the store, as far as they make somebody known. -/

def HasSession (st : VpnLease.Store) (owner : Int × String) : Prop :=
  ∃ v ∈ st.sessions, v.owner = owner

theorem hasSession_update {st : VpnLease.Store} {where_ : VPNSession → Bool}
    {set : VPNSession → VPNSession} (hset : ∀ v, (set v).owner = v.owner) {owner : Int × String} :
    HasSession (st.update where_ set) owner ↔ HasSession st owner := by
  unfold HasSession VpnLease.Store.update
  constructor
  · rintro ⟨v, hv, howner⟩
    obtain ⟨w, hw, rfl⟩ := List.mem_map.mp hv
    refine ⟨w, hw, ?_⟩
    split at howner
    · rw [← howner, hset]
    · exact howner
  · rintro ⟨w, hw, howner⟩
    refine ⟨_, List.mem_map.mpr ⟨w, hw, rfl⟩, ?_⟩
    split
    · rw [hset, howner]
    · exact howner

/-- A login leaves a session of its owner behind, and no other new one. -/
theorem loginVPNSession_spec {st st' : VpnLease.Store} {v : VPNSession}
    (h : loginVPNSession st v = some st') :
    st'.blocked = st.blocked ∧
      ∀ owner, HasSession st' owner ↔ HasSession st owner ∨ owner = v.owner := by
  unfold loginVPNSession at h
  split at h
  · cases h
  · split at h
    · obtain rfl := Option.some.inj h
      refine ⟨rfl, fun owner => ?_⟩
      simp only [HasSession, List.mem_append, List.mem_singleton, or_and_right, exists_or,
        exists_eq_left]
      exact or_congr Iff.rfl eq_comm
    · rename_i row hfind
      obtain rfl := Option.some.inj h
      refine ⟨rfl, fun owner => ?_⟩
      refine (hasSession_update ?_).trans ?_
      · intro w
        rfl
      constructor
      · exact Or.inl
      · rintro (hhas | rfl)
        · exact hhas
        · exact ⟨row, List.mem_of_find?_eq_some hfind, by simpa using List.find?_some hfind⟩

theorem blockVPNOwner_spec {st : VpnLease.Store} {b : VPNBlocked} :
    (∀ b' ∈ (blockVPNOwner st b).blocked, b' = b ∨ (b'.owner ≠ b.owner ∧ b' ∈ st.blocked)) ∧
      ∀ owner, HasSession (blockVPNOwner st b) owner ↔ HasSession st owner := by
  constructor
  · intro b' hb'
    rcases List.mem_append.mp hb' with hold | hnew
    · obtain ⟨hmem, hne⟩ := List.mem_filter.mp hold
      exact Or.inr ⟨by simpa using hne, hmem⟩
    · exact Or.inl (List.mem_singleton.mp hnew)
  · intro owner
    refine hasSession_update ?_
    intro w
    rfl

/-- A new device belongs to the owner it was asked for. -/
theorem createWGDevice_owner {lib : Lib} {db db' : Peers} {tunnel : Netip.Prefix}
    {sealing : Check Unit} {now limit : Nat} {d : WGDevice}
    (h : createWGDevice lib db tunnel sealing now limit d = .ok db') :
    ∃ new, db'.devices = db.devices.insert new ∧ new.provider = d.provider ∧ new.sub = d.sub := by
  simp only [createWGDevice, Wg.checkDevice, bind_eq_ok, refuseIf_eq_ok, pure_eq_ok,
    Prod.exists] at h
  obtain ⟨_, ⟨_, -, _, -, routes, -, key, -, rfl⟩, -, -, -, -, a, db₁, hnext, -, -, -, -, rfl⟩ := h
  obtain ⟨-, hframe⟩ := Wg.nextWGAddress_frame hnext
  exact ⟨_, congrArg (fun devices : Table WGDevice => devices.insert _) hframe, rfl, rfl⟩

theorem save_spec {α : Type} {t t' : Table α} {id : Option Int} {v : α} {key : Int}
    (h : save t id v = some (key, t')) {row : Int × α} (hrow : row ∈ t'.rows) :
    row = (key, v) ∨ (row.1 ≠ key ∧ row ∈ t.rows) := by
  cases id with
  | none =>
      obtain ⟨rfl, rfl⟩ := Prod.mk.inj (Option.some.inj h)
      rcases Table.mem_insert.mp hrow with hold | hnew
      · exact Or.inr ⟨Table.key_ne_next hold, hold⟩
      · exact Or.inl hnew
  | some id =>
      simp only [save] at h
      split at h
      · obtain ⟨rfl, rfl⟩ := Prod.mk.inj (Option.some.inj h)
        rcases Table.mem_update.mp hrow with ⟨hne, hold⟩ | ⟨hnew, -⟩
        · exact Or.inr ⟨hne, hold⟩
        · exact Or.inl hnew
      · cases h

theorem issuerOf_update {db : Db} {p : Int} {row : OIDCProvider} (hhas : db.providers.has p = true)
    (p' : Int) :
    ({ db with providers := db.providers.update p row } : Db).issuerOf p' =
      if p' = p then some row.issuer else db.issuerOf p' := by
  have hlookup : (db.providers.update p row).lookup p' =
      if p' = p then (db.providers.lookup p').map (fun _ => row) else db.providers.lookup p' := by
    change (db.providers.modify p fun _ => row).lookup p' = _
    exact Table.lookup_modify
  unfold Db.issuerOf
  rw [hlookup]
  split
  · rename_i heq
    rw [Table.has_eq_isSome, Option.isSome_iff_exists] at hhas
    obtain ⟨old, hold⟩ := hhas
    simp [heq, hold]
  · rfl

theorem writtenRow_issuer {secret : String} {new row : OIDCProvider} {sealing : Check String}
    (h : writtenRow secret new sealing = .ok row) : row.issuer = new.issuer := by
  unfold writtenRow at h
  split at h
  · obtain rfl := Except.ok.inj h
    rfl
  · split at h
    · cases h
    · obtain rfl := Except.ok.inj h
      rfl

/-! ### One step

`Moved` has one case for each write and one for all the steps that write nothing. -/

/-- What a step does. -/
inductive Moved (s : State) : Label → State → Prop where
  /-- A request begins. -/
  | began {label : Label} {job : Job}
      (hjob : match job with
        | .login p row => s.db.providers.lookup p = some row
        | .verified _ _ | .ended _ => False
        | .enrolling provider sub _ => HasSession s.db.vpn (provider, sub)
        | .counting p issuer _ _ left users => s.db.issuerOf p = some issuer ∧
            left = queries ∧ users = []
        | .writing p issuer _ new => s.db.issuerOf p = some issuer ∧ new.issuer = issuer) :
      Moved s label { s with jobs := s.jobs ++ [job] }
  | answered {label : Label} (answer : Check Unit) :
      Moved s label { s with jobs := s.jobs ++ [.ended answer] }
  /-- A request is refused between two statements. -/
  | refused {label : Label} (i : Nat) (answer : Check Unit) : Moved s label
    (s.setJob i (.ended answer))
  | verified {i : Nat} {p : Int} {row : OIDCProvider} {v : VPNSession}
      (hjob : s.jobs[i]? = some (.login p row)) :
      Moved s (.verify i v) { s with
        asserted := (row.issuer, v.sub) :: s.asserted
        jobs := s.jobs.set i (.verified row.issuer { v with provider := p }) }
  | loggedIn {i : Nat} {issuer : String} {v : VPNSession} {vpn : VpnLease.Store}
      (hjob : s.jobs[i]? = some (.verified issuer v))
      (hlogin : loginVPNSession s.db.vpn v = some vpn) :
      Moved s (.commitLogin i) { s with
        db := { s.db with vpn }
        portal := s.portal ++ [(v.provider, v.sub, v.email)]
        jobs := s.jobs.set i (.ended (.ok ())) }
  | enrolled {i : Nat} {provider : Int} {sub email : String} {peers : Peers} {new d : WGDevice}
      {tunnel : Netip.Prefix} {sealing : Check Unit} {now limit : Nat}
      (hjob : s.jobs[i]? = some (.enrolling provider sub email))
      (hnew : peers.devices = s.db.peers.devices.insert new) (hprovider : new.provider = provider)
      (hsub : new.sub = sub) :
      Moved s (.createDevice i tunnel sealing now limit d) { s with
        db := { s.db with peers }
        jobs := s.jobs.set i (.ended (.ok ())) }
  | blocked (b : VPNBlocked) : Moved s (.block b) { s with
      db := { s.db with vpn := blockVPNOwner s.db.vpn b }
      since := s.stamp (.blocked b.provider b.sub) }
  | policy {id : Option Int} {policy : VPNPolicy} {key : Int} {policies : Table VPNPolicy}
      (hsave : save s.db.policies id policy = some (key, policies)) :
      Moved s (.savePolicy id policy) { s with
        db := { s.db with policies }
        since := s.stamp (.policy key) }
  | list {id : Option Int} {a : AccessList} {key : Int} {accessLists : Table AccessList}
      (hsave : save s.db.accessLists id a = some (key, accessLists)) :
      Moved s (.saveList id a) { s with
        db := { s.db with accessLists }
        since := s.stamp (.list key) }
  | host {id : Option Int} {h : Store.Host} {key : Int} {hosts : Table Store.Host}
      (hsave : save s.db.hosts id h = some (key, hosts)) :
      Moved s (.saveHost id h) { s with
        db := { s.db with hosts }
        since := s.stamp (.portal key) }
  | counted {i : Nat} {p : Int} {issuer secret : String} {new : OIDCProvider} {q : Query}
      {left : List Query} {users : List String}
      (hjob : s.jobs[i]? = some (.counting p issuer secret new (q :: left) users)) :
      Moved s (.count i)
        (s.setJob i (decideUpdate p issuer secret new left (users ++ s.db.users p q)))
  | written {i : Nat} {p : Int} {issuer secret : String} {new row : OIDCProvider}
      {sealing : Check String} (hjob : s.jobs[i]? = some (.writing p issuer secret new))
      (hissuer : row.issuer = new.issuer) (hhas : s.db.providers.has p = true) :
      Moved s (.write i sealing) { s with
        db := { s.db with providers := s.db.providers.update p row }
        jobs := s.jobs.set i (.ended (.ok ())) }

theorem moved_beginUpdate (s : State) (p : Int) (new : OIDCProvider) :
    Moved s (.readRow p new) { s with jobs := s.jobs ++ [beginUpdate s.db p new] } := by
  unfold beginUpdate
  cases new.validate with
  | error why => exact .answered _
  | ok new =>
      cases hrow : s.db.providers.lookup p with
      | none => exact .answered _
      | some row =>
          have hissuer : s.db.issuerOf p = some row.issuer := by simp [Db.issuerOf, hrow]
          simp only
          split
          · exact .began ⟨hissuer, rfl, rfl⟩
          · rename_i hsame
            exact .began ⟨hissuer, not_not.mp hsame⟩

theorem moved_of_step {lib : Lib} {s s' : State} {label : Label} (h : step lib s label = some s') :
    Moved s label s' := by
  cases label with
  | readProvider p =>
      obtain ⟨row, hrow, rfl⟩ := Option.map_eq_some_iff.mp h
      exact .began hrow
  | verify i v =>
      simp only [step] at h
      split at h
      · rename_i p row hjob
        obtain rfl := Option.some.inj h
        exact .verified hjob
      · cases h
  | commitLogin i =>
      simp only [step] at h
      split at h
      · rename_i issuer v hjob
        split at h
        · obtain rfl := Option.some.inj h
          exact .refused i _
        · rename_i vpn hlogin
          obtain rfl := Option.some.inj h
          exact .loggedIn hjob hlogin
      · cases h
  | readLease k now =>
      simp only [step] at h
      split at h
      · rename_i provider sub email hk
        split at h
        · rename_i lease hfind
          split at h
          · obtain rfl := Option.some.inj h
            exact .began
              ⟨lease, List.mem_of_find?_eq_some hfind, by simpa using List.find?_some hfind⟩
          · cases h
        · cases h
      · cases h
  | createDevice i tunnel sealing now limit d =>
      simp only [step] at h
      split at h
      · rename_i provider sub email hjob
        split at h
        · rename_i peers hcreate
          obtain rfl := Option.some.inj h
          obtain ⟨new, hnew, hprovider, hsub⟩ := createWGDevice_owner hcreate
          exact .enrolled hjob hnew hprovider hsub
        · obtain rfl := Option.some.inj h
          exact .refused i _
      · cases h
  | block b =>
      obtain rfl := Option.some.inj h
      exact .blocked b
  | savePolicy id policy =>
      simp only [step] at h
      split at h
      · obtain ⟨⟨key, policies⟩, hsave, rfl⟩ := Option.map_eq_some_iff.mp h
        exact .policy hsave
      · cases h
  | saveList id a =>
      obtain ⟨⟨key, accessLists⟩, hsave, rfl⟩ := Option.map_eq_some_iff.mp h
      exact .list hsave
  | saveHost id host =>
      obtain ⟨⟨key, hosts⟩, hsave, rfl⟩ := Option.map_eq_some_iff.mp h
      exact .host hsave
  | readRow p new =>
      obtain rfl := Option.some.inj h
      exact moved_beginUpdate s p new
  | count i =>
      simp only [step] at h
      split at h
      · rename_i p issuer secret new q left users hjob
        obtain rfl := Option.some.inj h
        exact .counted hjob
      · cases h
  | write i sealing =>
      simp only [step] at h
      split at h
      · rename_i p issuer secret new hjob
        split at h
        · obtain rfl := Option.some.inj h
          exact .refused i _
        · rename_i row hrow
          split at h
          · rename_i hhas
            obtain rfl := Option.some.inj h
            exact .written hjob (writtenRow_issuer hrow) hhas
          · obtain rfl := Option.some.inj h
            exact .refused i _
      · cases h

/-! ### The invariant

A job that will write carries what it has read, and the invariant says what that is worth. -/

/-- A verified login was asserted by its issuer, and whoever enrols a device has a session. -/
def JobOk (s : State) : Job → Prop
  | .verified issuer v => (issuer, v.sub) ∈ s.asserted
  | .enrolling p sub _ => HasSession s.db.vpn (p, sub)
  | _ => True

structure Inv (s : State) : Prop where
  kept : IssuerKept s
  jobs : ∀ job ∈ s.jobs, JobOk s job
  portal : ∀ p sub email, (p, sub, email) ∈ s.portal → HasSession s.db.vpn (p, sub)

section Kept

variable {s : State} {p : Int} {db' : Db}

theorem IssuerKept.session (h : IssuerKept s) {sub issuer : String}
    (hsession : HasSession s.db.vpn (p, sub)) (hissuer : s.db.issuerOf p = some issuer) :
    (issuer, sub) ∈ s.asserted := by
  obtain ⟨v, hv, howner⟩ := hsession
  obtain ⟨rfl, rfl⟩ := Prod.mk.inj howner
  exact h.sessions v hv issuer hissuer

theorem issuerOf_congr (h : db'.providers = s.db.providers) : db'.issuerOf = s.db.issuerOf := by
  funext p
  rw [Db.issuerOf, Db.issuerOf, h]

theorem IssuerKept.jobs (h : IssuerKept s) {jobs : List Job} : IssuerKept { s with jobs } :=
  ⟨h.sessions, h.devices, h.saved⟩

/-- A save that stamps its row keeps the rest. -/
theorem IssuerKept.stamped {k : Saved} (h : IssuerKept s)
    (hproviders : db'.providers = s.db.providers) (hpeers : db'.peers = s.db.peers)
    (hsessions : ∀ owner, HasSession db'.vpn owner → HasSession s.db.vpn owner)
    (hnames : ∀ p k', k' ≠ k → db'.Names p k' → s.db.Names p k') :
    IssuerKept { s with db := db', since := s.stamp k } where
  sessions := by
    intro v hv issuer hissuer
    rw [issuerOf_congr hproviders] at hissuer
    exact h.session (hsessions v.owner ⟨v, hv, rfl⟩) hissuer
  devices := by
    intro id d hrow hkind hlive issuer hissuer
    rw [issuerOf_congr hproviders] at hissuer
    rw [hpeers] at hrow
    exact h.devices id d hrow hkind hlive issuer hissuer
  saved := by
    intro p k' hk issuer hissuer
    rw [issuerOf_congr hproviders] at hissuer
    by_cases heq : k' = k
    · simpa [State.stamp, heq] using hissuer
    · simpa [State.stamp, heq] using h.saved p k' (hnames p k' heq hk) issuer hissuer

/-- A login that commits in time. -/
theorem IssuerKept.login {v : VPNSession} {vpn : VpnLease.Store} {issuer : String}
    (h : IssuerKept s)
    (hlogin : loginVPNSession s.db.vpn v = some vpn) (hasserted : (issuer, v.sub) ∈ s.asserted)
    (honTime : s.db.issuerOf v.provider = some issuer) {portal : List (Int × String × String)}
    {jobs : List Job} : IssuerKept { s with db := { s.db with vpn }, portal, jobs } where
  sessions := by
    intro w hw issuer' hissuer
    rcases ((loginVPNSession_spec hlogin).2 w.owner).mp ⟨w, hw, rfl⟩ with hold | hnew
    · exact h.session hold hissuer
    · obtain ⟨hprovider, hsub⟩ := Prod.mk.inj hnew
      have hsame : s.db.issuerOf w.provider = some issuer' := hissuer
      rw [hprovider, honTime] at hsame
      obtain rfl := Option.some.inj hsame
      rw [hsub]
      exact hasserted
  devices := h.devices
  saved := by
    intro p k hk issuer' hissuer
    refine h.saved p k ?_ issuer' hissuer
    cases k with
    | blocked provider sub =>
        obtain ⟨rfl, b, hb, howner⟩ := hk
        rw [(loginVPNSession_spec hlogin).1] at hb
        exact ⟨rfl, b, hb, howner⟩
    | policy id => exact hk
    | list id => exact hk
    | portal id => exact hk

/-- An enrolment adds a device of somebody who has a session. -/
theorem IssuerKept.enrol {peers : Peers} {new : WGDevice} (h : IssuerKept s)
    (hnew : peers.devices = s.db.peers.devices.insert new)
    (hsession : HasSession s.db.vpn (new.provider, new.sub)) {jobs : List Job} :
    IssuerKept { s with db := { s.db with peers }, jobs } where
  sessions := h.sessions
  devices := by
    intro id d hrow hkind hlive issuer hissuer
    change (id, d) ∈ peers.devices.rows at hrow
    rw [hnew] at hrow
    rcases Table.mem_insert.mp hrow with hold | hrow
    · exact h.devices id d hold hkind hlive issuer hissuer
    · obtain ⟨-, rfl⟩ := Prod.mk.inj hrow
      exact h.session hsession hissuer
  saved := h.saved

/-- An update that keeps the issuer, or finds nothing under its id. -/
theorem IssuerKept.write {row : OIDCProvider} (h : IssuerKept s)
    (hhas : s.db.providers.has p = true)
    (honTime : s.db.issuerOf p = some row.issuer ∨ ∀ q ∈ queries, s.db.knows p q = false)
    {jobs : List Job} :
    IssuerKept { s with db := { s.db with providers := s.db.providers.update p row }, jobs } := by
  have hissuer : ∀ p' issuer,
      ({ s.db with providers := s.db.providers.update p row } : Db).issuerOf p' = some issuer →
        s.db.issuerOf p' = some issuer ∨ (p' = p ∧ ∀ q ∈ queries, s.db.knows p q = false) := by
    intro p' issuer hp'
    rw [issuerOf_update hhas] at hp'
    split at hp'
    · rename_i heq
      subst heq
      rcases honTime with hsame | hunknown
      · exact Or.inl (hsame.trans hp')
      · exact Or.inr ⟨rfl, hunknown⟩
    · exact Or.inl hp'
  constructor
  · intro v hv issuer hp'
    rcases hissuer v.provider issuer hp' with hsame | ⟨rfl, hunknown⟩
    · exact h.sessions v hv issuer hsame
    · have hnone := hunknown .logins (by decide)
      rw [Db.knows, List.any_eq_false] at hnone
      exact absurd (beq_self_eq_true _) (hnone v hv)
  · intro id d hrow hkind hlive issuer hp'
    rcases hissuer d.provider issuer hp' with hsame | ⟨rfl, hunknown⟩
    · exact h.devices id d hrow hkind hlive issuer hsame
    · have hnone := hunknown .devices (by decide)
      rw [Db.knows, List.any_eq_false] at hnone
      exact absurd (by simp [hlive]) (hnone (id, d) hrow)
  · intro p' k hk issuer hp'
    rcases hissuer p' issuer hp' with hsame | ⟨rfl, hunknown⟩
    · exact h.saved p' k hk issuer hsame
    · obtain ⟨q, hq, hknows⟩ := @knows_of_names s.db p' k hk
      rw [hunknown q hq] at hknows
      cases hknows

end Kept

/-! ### The step

Each case of `Moved` keeps the invariant; the two that ask for `OnTime` are the login that
commits and the update that changes the issuer. -/

theorem JobOk.mono {s s' : State} (hasserted : ∀ x ∈ s.asserted, x ∈ s'.asserted)
    (hsessions : ∀ owner, HasSession s.db.vpn owner → HasSession s'.db.vpn owner) {job : Job}
    (h : JobOk s job) : JobOk s' job := by
  cases job with
  | verified issuer v => exact hasserted _ h
  | enrolling p sub email => exact hsessions _ h
  | login p row => trivial
  | counting p issuer secret new left users => trivial
  | writing p issuer secret new => trivial
  | ended answer => trivial

/-- One job moves on, nobody loses a session. -/
theorem Inv.moved {s s' : State} {job : Job} (hinv : Inv s) (hkept : IssuerKept s')
    (hasserted : ∀ x ∈ s.asserted, x ∈ s'.asserted)
    (hsessions : ∀ owner, HasSession s.db.vpn owner → HasSession s'.db.vpn owner)
    (hjobs : ∀ job' ∈ s'.jobs, job' ∈ s.jobs ∨ job' = job) (hjob : JobOk s' job)
    (hportal : ∀ p sub email, (p, sub, email) ∈ s'.portal →
      (p, sub, email) ∈ s.portal ∨ HasSession s'.db.vpn (p, sub)) : Inv s' where
  kept := hkept
  jobs := by
    intro job' hjob'
    rcases hjobs job' hjob' with hold | rfl
    · exact (hinv.jobs job' hold).mono hasserted hsessions
    · exact hjob
  portal := by
    intro p sub email hmem
    rcases hportal p sub email hmem with hold | hnew
    · exact hsessions _ (hinv.portal p sub email hold)
    · exact hnew

theorem Inv.stamped {s : State} {db' : Db} {k : Saved} (hinv : Inv s)
    (hproviders : db'.providers = s.db.providers) (hpeers : db'.peers = s.db.peers)
    (howners : ∀ owner, HasSession db'.vpn owner ↔ HasSession s.db.vpn owner)
    (hnames : ∀ p k', k' ≠ k → db'.Names p k' → s.db.Names p k') :
    Inv { s with db := db', since := s.stamp k } where
  kept := hinv.kept.stamped hproviders hpeers (fun owner => (howners owner).mp) hnames
  jobs := by
    intro job hjob
    refine JobOk.mono ?_ ?_ (hinv.jobs job hjob)
    · intro x hx
      exact hx
    · intro owner hold
      exact (howners owner).mpr hold
  portal := fun p sub email hmem => (howners _).mpr (hinv.portal p sub email hmem)

/-- A step that comes in time keeps the invariant. -/
theorem Inv.step {lib : Lib} {s s' : State} {label : Label} (hinv : Inv s)
    (honTime : OnTime s label)
    (h : step lib s label = some s') : Inv s' := by
  have hset : ∀ {i : Nat} {job job' : Job}, job' ∈ s.jobs.set i job → job' ∈ s.jobs ∨ job' = job :=
    fun hmem => List.mem_or_eq_of_mem_set hmem
  have hconcat : ∀ {job job' : Job}, job' ∈ s.jobs ++ [job] → job' ∈ s.jobs ∨ job' = job := by
    intro job job' hmem
    simpa using hmem
  cases moved_of_step h with
  | began hjob =>
      rename_i job
      refine hinv.moved hinv.kept.jobs (fun _ => id) (fun _ => id) (fun _ => hconcat) ?_
        (fun _ _ _ => Or.inl)
      cases job with
      | enrolling p sub email => exact hjob
      | verified issuer v => exact hjob.elim
      | login p row => trivial
      | counting p issuer secret new left users => trivial
      | writing p issuer secret new => trivial
      | ended answer => trivial
  | answered answer =>
      exact hinv.moved hinv.kept.jobs (fun _ => id) (fun _ => id) (fun _ => hconcat) trivial
        (fun _ _ _ => Or.inl)
  | refused i answer =>
      exact hinv.moved hinv.kept.jobs (fun _ => id) (fun _ => id) (fun _ => hset) trivial
        (fun _ _ _ => Or.inl)
  | verified hjob =>
      rename_i i p row v
      refine hinv.moved ?_ (fun _ => List.mem_cons_of_mem _) (fun _ => id) (fun _ => hset) ?_
        (fun _ _ _ => Or.inl)
      · exact {
          sessions := fun v hv issuer hissuer =>
            List.mem_cons_of_mem _ (hinv.kept.sessions v hv issuer hissuer)
          devices := fun id d hrow hkind hlive issuer hissuer =>
            List.mem_cons_of_mem _ (hinv.kept.devices id d hrow hkind hlive issuer hissuer)
          saved := hinv.kept.saved }
      · exact List.mem_cons_self
  | loggedIn hjob hlogin =>
      rename_i i issuer v vpn
      have hasserted : (issuer, v.sub) ∈ s.asserted := hinv.jobs _ (List.mem_of_getElem? hjob)
      have hstored : s.db.issuerOf v.provider = some issuer := by simpa [OnTime, hjob] using honTime
      have howners := (loginVPNSession_spec hlogin).2
      refine hinv.moved (hinv.kept.login hlogin hasserted hstored) (fun _ => id) ?_ (fun _ => hset)
        trivial ?_
      · intro owner hold
        exact (howners owner).mpr (Or.inl hold)
      · intro p sub email hmem
        rcases List.mem_append.mp hmem with hold | hnew
        · exact Or.inl hold
        · obtain ⟨rfl, rfl, -⟩ : p = v.provider ∧ sub = v.sub ∧
            email = v.email := by simpa using hnew
          exact Or.inr ((howners _).mpr (Or.inr rfl))
  | enrolled hjob hnew hprovider hsub =>
      rename_i provider sub email peers new d tunnel sealing now limit
      have hsession : HasSession s.db.vpn (provider, sub) := hinv.jobs _ (List.mem_of_getElem? hjob)
      rw [← hprovider, ← hsub] at hsession
      exact hinv.moved (hinv.kept.enrol hnew hsession) (fun _ => id) (fun _ => id) (fun _ => hset)
        trivial (fun _ _ _ => Or.inl)
  | blocked b =>
      obtain ⟨hblocked, howners⟩ := @blockVPNOwner_spec s.db.vpn b
      refine hinv.stamped rfl rfl howners ?_
      intro p k hne hk
      cases k with
      | blocked provider sub =>
          obtain ⟨rfl, b', hb', howner⟩ := hk
          rcases hblocked b' hb' with rfl | ⟨-, hold⟩
          · obtain ⟨rfl, rfl⟩ := Prod.mk.inj howner
            exact absurd rfl hne
          · exact ⟨rfl, b', hold, howner⟩
      | policy id => exact hk
      | list id => exact hk
      | portal id => exact hk
  | policy hsave =>
      refine hinv.stamped rfl rfl (fun _ => Iff.rfl) ?_
      intro p k hne hk
      cases k with
      | blocked provider sub => exact hk
      | policy id =>
          obtain ⟨policy, hrow, hnames⟩ := hk
          rcases save_spec hsave hrow with hnew | ⟨-, hold⟩
          · exact absurd (congrArg Saved.policy (Prod.mk.inj hnew).1) hne
          · exact ⟨policy, hold, hnames⟩
      | list id => exact hk
      | portal id => exact hk
  | list hsave =>
      refine hinv.stamped rfl rfl (fun _ => Iff.rfl) ?_
      intro p k hne hk
      cases k with
      | blocked provider sub => exact hk
      | policy id => exact hk
      | list id =>
          obtain ⟨a, hrow, hnames⟩ := hk
          rcases save_spec hsave hrow with hnew | ⟨-, hold⟩
          · exact absurd (congrArg Saved.list (Prod.mk.inj hnew).1) hne
          · exact ⟨a, hold, hnames⟩
      | portal id => exact hk
  | host hsave =>
      refine hinv.stamped rfl rfl (fun _ => Iff.rfl) ?_
      intro p k hne hk
      cases k with
      | blocked provider sub => exact hk
      | policy id => exact hk
      | list id => exact hk
      | portal id =>
          obtain ⟨host, hrow, hnames⟩ := hk
          rcases save_spec hsave hrow with hnew | ⟨-, hold⟩
          · exact absurd (congrArg Saved.portal (Prod.mk.inj hnew).1) hne
          · exact ⟨host, hold, hnames⟩
  | counted hjob =>
      refine hinv.moved hinv.kept.jobs (fun _ => id) (fun _ => id) (fun _ => hset) ?_
        (fun _ _ _ => Or.inl)
      unfold decideUpdate
      split
      · split <;> trivial
      · trivial
  | written hjob hissuer hhas =>
      rename_i i p issuer secret new row sealing
      have hstored : s.db.issuerOf p = some row.issuer ∨ ∀ q ∈ queries, s.db.knows p q = false := by
        rw [hissuer]
        simpa [OnTime, hjob] using honTime
      exact hinv.moved (hinv.kept.write hhas hstored) (fun _ => id) (fun _ => id) (fun _ => hset)
        trivial (fun _ _ _ => Or.inl)

/-! ### Runs in which nothing overtakes an update

A condition on the steps alone, under which the count does its work. -/

def Job.updates (p : Int) : Job → Bool
  | .counting p' _ _ _ _ _ | .writing p' _ _ _ => p' == p
  | _ => false

def Job.logsIn (p : Int) : Job → Bool
  | .login p' _ => p' == p
  | .verified _ v => v.provider == p
  | _ => false

def State.updating (s : State) (p : Int) : Bool := s.jobs.any (·.updates p)

/-- Nothing is stored under an id between the row that an update of it reads and the row it
writes, and no update writes another issuer while a login or another update of its id has
read the row. -/
def Undisturbed (s : State) : Label → Prop
  | .commitLogin i => ∀ issuer v, s.jobs[i]? = some (.verified issuer v) →
      s.updating v.provider = false
  | .createDevice i _ _ _ _ _ =>
      ∀ p sub email, s.jobs[i]? = some (.enrolling p sub email) → s.updating p = false
  | .block b => s.updating b.provider = false
  | .savePolicy _ policy => s.updating policy.subject.provider = false
  | .saveList _ a => ∀ p, listNames p a = true → s.updating p = false
  | .saveHost _ h => ∀ p, portalNames p h = true → s.updating p = false
  | .write i _ => ∀ p issuer secret new, s.jobs[i]? = some (.writing p issuer secret new) →
      s.db.issuerOf p = some new.issuer ∨
        ∀ j job, j ≠ i → s.jobs[j]? = some job → job.updates p = false ∧ job.logsIn p = false
  | _ => True

/-- What a request has read still stands, and what an update has counted is still nothing. -/
def JobCalm (db : Db) : Job → Prop
  | .login p row => db.issuerOf p = some row.issuer
  | .verified issuer v => db.issuerOf v.provider = some issuer
  | .counting p issuer _ _ left users => db.issuerOf p = some issuer ∧
      (users = [] → ∀ q ∈ queries, q ∉ left → db.knows p q = false)
  | .writing p issuer _ new => db.issuerOf p = some issuer ∧
      (new.issuer ≠ issuer → ∀ q ∈ queries, db.knows p q = false)
  | .enrolling _ _ _ | .ended _ => True

def Calm (s : State) : Prop := ∀ (i : Nat) (job : Job), s.jobs[i]? = some job → JobCalm s.db job

section Calm

variable {s s' : State} {label : Label}

theorem Calm.onTime (hcalm : Calm s) (label : Label) : OnTime s label := by
  cases label with
  | commitLogin i =>
      simp only [OnTime]
      split
      · rename_i issuer v hjob
        exact hcalm i _ hjob
      · trivial
  | write i sealing =>
      simp only [OnTime]
      split
      · rename_i p issuer secret new hjob
        obtain ⟨hissuer, hknows⟩ : s.db.issuerOf p = some issuer ∧
          (new.issuer ≠ issuer → ∀ q ∈ queries, s.db.knows p q = false) := hcalm i _ hjob
        by_cases hsame : new.issuer = issuer
        · exact Or.inl (by rw [hissuer, hsame])
        · exact Or.inr (hknows hsame)
      · trivial
  | _ => trivial

/-! ### While an update is under way

Whatever could make somebody known under the id is one of the steps that the condition
forbids, so what the count found stays true up to the write. -/

/-- A session is under an id that is known. -/
theorem knows_logins {db : Db} {p : Int} :
    db.knows p .logins = false ↔ ∀ sub, ¬ HasSession db.vpn (p, sub) := by
  simp only [Db.knows, List.any_eq_false, beq_iff_eq]
  constructor
  · rintro h sub ⟨v, hv, howner⟩
    exact h v hv (congrArg Prod.fst howner)
  · intro h v hv hprovider
    exact h v.sub ⟨v, hv, by rw [VPNSession.owner, hprovider]⟩

/-- What is saved into a table names only what it held, or what is saved. -/
theorem any_save {α : Type} {t t' : Table α} {id : Option Int} {v : α} {key : Int} {f : α → Bool}
    (hsave : save t id v = some (key, t')) (hv : f v = false)
    (h : (t.rows.any fun row => f row.2) = false) : (t'.rows.any fun row => f row.2) = false := by
  rw [List.any_eq_false] at h ⊢
  intro row hrow
  rcases save_spec hsave hrow with rfl | ⟨-, hold⟩
  · simp [hv]
  · exact h row hold

/-- Nothing comes to be known under an id that an update is under way for. -/
theorem knows_of_undisturbed (hmoved : Moved s label s') (hund : Undisturbed s label) {p : Int}
    (hupdating : s.updating p = true) {q : Query} (h : s.db.knows p q = false) :
    s'.db.knows p q = false := by
  cases hmoved with
  | began hjob => exact h
  | answered answer => exact h
  | refused i answer => exact h
  | verified hjob => exact h
  | counted hjob => exact h
  | written hjob hissuer hhas =>
      cases q <;> exact h
  | loggedIn hjob hlogin =>
      rename_i i issuer v vpn
      have hne : v.provider ≠ p := by
        rintro rfl
        rw [hund issuer v hjob] at hupdating
        cases hupdating
      obtain ⟨hblocked, howners⟩ := loginVPNSession_spec hlogin
      cases q with
      | logins =>
          rw [knows_logins] at h ⊢
          intro sub hsession
          rcases (howners _).mp hsession with hold | hnew
          · exact h sub hold
          · exact hne (congrArg Prod.fst hnew).symm
      | blocked =>
          simp only [Db.knows, hblocked] at h ⊢
          exact h
      | devices => exact h
      | hosts => exact h
      | lists => exact h
      | policies => exact h
  | enrolled hjob hnew hprovider hsub =>
      rename_i i provider sub email peers new d tunnel sealing now limit
      have hne : new.provider ≠ p := by
        intro heq
        rw [← heq, hprovider, hund provider sub email hjob] at hupdating
        cases hupdating
      cases q with
      | devices =>
          simp only [Db.knows, hnew, List.any_eq_false] at h ⊢
          intro row hrow
          rcases Table.mem_insert.mp hrow with hold | rfl
          · exact h row hold
          · simp [hne]
      | logins => exact h
      | blocked => exact h
      | hosts => exact h
      | lists => exact h
      | policies => exact h
  | blocked b =>
      have hne : b.provider ≠ p := by
        rintro rfl
        rw [hund] at hupdating
        cases hupdating
      obtain ⟨hblocked, howners⟩ := @blockVPNOwner_spec s.db.vpn b
      cases q with
      | logins =>
          rw [knows_logins] at h ⊢
          exact fun sub hsession => h sub ((howners _).mp hsession)
      | blocked =>
          simp only [Db.knows, List.any_eq_false] at h ⊢
          intro b' hb'
          rcases hblocked b' hb' with rfl | ⟨-, hold⟩
          · simp [hne]
          · exact h b' hold
      | devices => exact h
      | hosts => exact h
      | lists => exact h
      | policies => exact h
  | policy hsave =>
      rename_i id policy key policies
      have hne : (policy.subject.provider == p) = false := by
        rw [beq_eq_false_iff_ne]
        rintro rfl
        rw [hund] at hupdating
        cases hupdating
      cases q with
      | policies =>
          exact any_save (f := fun policy : VPNPolicy => policy.subject.provider == p) hsave hne h
      | _ => exact h
  | list hsave =>
      rename_i id a key accessLists
      have hne : listNames p a = false := by
        rw [← Bool.not_eq_true]
        intro hnames
        rw [hund p hnames] at hupdating
        cases hupdating
      cases q with
      | lists => exact any_save (f := listNames p) hsave hne h
      | _ => exact h
  | host hsave =>
      rename_i id host key hosts
      have hne : portalNames p host = false := by
        rw [← Bool.not_eq_true]
        intro hnames
        rw [hund p hnames] at hupdating
        cases hupdating
      cases q with
      | hosts =>
          exact any_save (f := portalNames p) hsave hne h
      | _ => exact h

theorem JobCalm.of_knows {db db' : Db} {job : Job} (h : JobCalm db job)
    (hissuer : db'.issuerOf = db.issuerOf)
    (hknows : ∀ p, job.updates p = true → ∀ q, db.knows p q = false → db'.knows p q = false) :
    JobCalm db' job := by
  cases job with
  | login p row => exact (congrFun hissuer p).trans h
  | verified issuer v => exact (congrFun hissuer v.provider).trans h
  | counting p issuer secret new left users =>
      refine ⟨(congrFun hissuer p).trans h.1, fun hnil q hq hleft => ?_⟩
      exact hknows p (beq_self_eq_true p) q (h.2 hnil q hq hleft)
  | writing p issuer secret new =>
      refine ⟨(congrFun hissuer p).trans h.1, fun hne q hq => ?_⟩
      exact hknows p (beq_self_eq_true p) q (h.2 hne q hq)
  | enrolling p sub email => trivial
  | ended answer => trivial

/-- What the count comes to. -/
theorem jobCalm_decideUpdate {db : Db} {p : Int} {issuer secret : String} {new : OIDCProvider}
    {q : Query} {left : List Query} {users : List String}
    (h : JobCalm db (.counting p issuer secret new (q :: left) users)) :
    JobCalm db (decideUpdate p issuer secret new left (users ++ db.users p q)) := by
  have hcounted : users ++ db.users p q = [] → ∀ q' ∈ queries, q' ∉ left →
    db.knows p q' = false := by
    intro hnil q' hq' hleft
    obtain ⟨husers, hq⟩ := List.append_eq_nil_iff.mp hnil
    by_cases heq : q' = q
    · rw [heq]
      exact knows_of_users hq
    · exact h.2 husers q' hq' (by simp [heq, hleft])
  unfold decideUpdate
  split
  · rename_i hleft
    split
    · rename_i hnil
      refine ⟨h.1, fun _ q' hq' => hcounted hnil q' hq' ?_⟩
      rw [hleft]
      exact List.not_mem_nil
    · trivial
  · exact ⟨h.1, hcounted⟩

theorem Calm.step {lib : Lib} (hcalm : Calm s) (hund : Undisturbed s label)
    (h : step lib s label = some s') : Calm s' := by
  have hmoved := moved_of_step h
  -- what a job that does not move has read and counted still stands
  have hstays : s'.db.issuerOf = s.db.issuerOf → ∀ (j : Nat) (job : Job), s.jobs[j]? = some job →
      JobCalm s'.db job := by
    intro hissuer j job hjob
    refine (hcalm j job hjob).of_knows hissuer fun p hupdates q hknows => ?_
    refine knows_of_undisturbed hmoved hund ?_ hknows
    exact List.any_eq_true.mpr ⟨job, List.mem_of_getElem? hjob, hupdates⟩
  have hset : ∀ {i : Nat} {job : Job}, s'.db.issuerOf = s.db.issuerOf →
      s'.jobs = s.jobs.set i job → JobCalm s'.db job → Calm s' := by
    intro i job hissuer hjobs hnew j job' hjob'
    rw [hjobs] at hjob'
    rcases getElem?_set_eq_some hjob' with ⟨-, rfl⟩ | ⟨-, hold⟩
    · exact hnew
    · exact hstays hissuer j job' hold
  have hconcat : ∀ {job : Job}, s'.db.issuerOf = s.db.issuerOf →
      s'.jobs = s.jobs ++ [job] → JobCalm s'.db job → Calm s' := by
    intro job hissuer hjobs hnew j job' hjob'
    rw [hjobs] at hjob'
    rcases getElem?_concat_eq_some hjob' with ⟨-, rfl⟩ | hold
    · exact hnew
    · exact hstays hissuer j job' hold
  cases hmoved with
  | began hjob =>
      rename_i job
      refine hconcat rfl rfl ?_
      cases job with
      | login p row =>
          change s.db.issuerOf p = some row.issuer
          simp only at hjob
          simp [Db.issuerOf, hjob]
      | verified issuer v => exact hjob.elim
      | enrolling p sub email => trivial
      | counting p issuer secret new left users =>
          obtain ⟨hissuer, rfl, rfl⟩ := hjob
          exact ⟨hissuer, fun _ q hq hleft => absurd hq hleft⟩
      | writing p issuer secret new =>
          obtain ⟨hissuer, hsame⟩ := hjob
          exact ⟨hissuer, fun hne => absurd hsame hne⟩
      | ended answer => trivial
  | answered answer => exact hconcat rfl rfl trivial
  | refused i answer => exact hset rfl rfl trivial
  | verified hjob =>
      have hread := hcalm _ _ hjob
      exact hset rfl rfl hread
  | loggedIn hjob hlogin => exact hset rfl rfl trivial
  | enrolled hjob hnew hprovider hsub => exact hset rfl rfl trivial
  | blocked b => exact hstays rfl
  | policy hsave => exact hstays rfl
  | list hsave => exact hstays rfl
  | host hsave => exact hstays rfl
  | counted hjob => exact hset rfl rfl (jobCalm_decideUpdate (hcalm _ _ hjob))
  | written hjob hissuer hhas =>
      rename_i i p issuer secret new row sealing
      rcases hund p issuer secret new hjob with hsame | halone
      · -- the stored issuer stays
        refine hset ?_ rfl trivial
        funext p'
        rw [issuerOf_update hhas]
        split
        · rename_i heq
          rw [heq, hsame, hissuer]
        · rfl
      · -- nobody else has read the row
        intro j job' hjob'
        rcases getElem?_set_eq_some hjob' with ⟨-, rfl⟩ | ⟨hne, hold⟩
        · trivial
        · obtain ⟨hupdates, hlogsIn⟩ := halone j job' hne hold
          have hcalm' := hcalm j job' hold
          have hother : ∀ p', p' ≠ p → ∀ issuer', s.db.issuerOf p' = some issuer' →
              ({ s.db with providers := s.db.providers.update p row } : Db).issuerOf p' =
                some issuer' := by
            intro p' hp' issuer' hstored
            rw [issuerOf_update hhas, if_neg hp', hstored]
          cases job' with
          | login p' row' => exact hother p' (by simpa [Job.logsIn] using hlogsIn) _ hcalm'
          | verified issuer' v =>
              exact hother v.provider (by simpa [Job.logsIn] using hlogsIn) _ hcalm'
          | counting p' issuer' secret' new' left users =>
              exact ⟨hother p' (by simpa [Job.updates] using hupdates) _ hcalm'.1, hcalm'.2⟩
          | writing p' issuer' secret' new' =>
              exact ⟨hother p' (by simpa [Job.updates] using hupdates) _ hcalm'.1, hcalm'.2⟩
          | enrolling p' sub email => trivial
          | ended answer => trivial

end Calm

theorem onTime_of_undisturbed {lib : Lib} {s : State} {labels : List Label} (hcalm : Calm s)
    (hund : RunMeets (step lib) Undisturbed s labels) : RunMeets (step lib) OnTime s labels := by
  induction labels generalizing s with
  | nil => trivial
  | cons label labels ih =>
      obtain ⟨hlabel, hrest⟩ := hund
      exact ⟨hcalm.onTime label, fun next hnext => ih (hcalm.step hlabel hnext) (hrest next hnext)⟩

/-! ### One issuer

From a state in which nothing is under way. -/

def State.Quiet (s : State) : Prop := s.jobs = [] ∧ s.portal = []

/-- **A VPN identity belongs to one issuer.** From any state in which it does, it does in
every state of a run whose logins commit while the issuer they were verified against is
stored, and whose updates find nothing under the id when they write another issuer. Both
hold of a run in which nothing is stored under an id during an update of it and no update
changes the issuer during a login. -/
theorem identity_keeps_issuer {lib : Lib} {s : State} (hquiet : s.Quiet) (hstart : IssuerKept s)
    (labels : List Label) :
    (RunMeets (step lib) OnTime s labels → ∀ t, run (step lib) s labels = some t → IssuerKept t) ∧
      (RunMeets (step lib) Undisturbed s labels → RunMeets (step lib) OnTime s labels) := by
  obtain ⟨hjobs, hportal⟩ := hquiet
  constructor
  · intro hmeets t hrun
    have hinv : Inv s := by
      refine ⟨hstart, ?_, ?_⟩
      · rw [hjobs]
        intro job hjob
        cases hjob
      · rw [hportal]
        intro p sub email hmem
        cases hmem
    exact (hmeets.invariant (fun _ _ _ hinv honTime h => Inv.step hinv honTime h) hinv hrun).kept
  · refine onTime_of_undisturbed ?_
    intro i job hjob
    rw [hjobs] at hjob
    cases hjob

def startDb : Db where
  providers := Table.empty.insert ⟨"corp", "https://idp.old", "qg", "", [], "groups", 12, false⟩
  vpn := ⟨[], [], 1⟩
  peers := ⟨.empty, .empty, []⟩
  policies := .empty
  accessLists := .empty
  hosts := .empty

def startState : State := ⟨startDb, [], [], [], fun _ _ => none⟩

def movedProvider : OIDCProvider := ⟨"corp", "https://idp.new", "qg", "", [], "groups", 12, false⟩

def somebody : VPNSession :=
  ⟨0, 1, "1234", "ann@example", [], "r1", 0, 0, 600, 600, 3600, false, .active, 0⟩

/-- The issuer changes first, then somebody logs in and is blocked. -/
def orderlyRun : List Label :=
  [.readRow 1 movedProvider, .count 0, .count 0, .count 0, .count 0, .count 0, .count 0,
    .write 0 (.ok ""), .readProvider 1, .verify 1 somebody, .commitLogin 1,
    .block ⟨1, "1234", "ann@example", "today"⟩]

theorem startState_quiet : startState.Quiet := ⟨rfl, rfl⟩

theorem startState_kept : IssuerKept startState where
  sessions := by
    intro v hv
    cases hv
  devices := by
    intro id d hrow
    cases hrow
  saved := by
    intro p k hk
    cases k with
    | blocked provider sub =>
        obtain ⟨-, b, hb, -⟩ := hk
        cases hb
    | policy id =>
        obtain ⟨policy, hrow, -⟩ := hk
        cases hrow
    | list id =>
        obtain ⟨a, hrow, -⟩ := hk
        cases hrow
    | portal id =>
        obtain ⟨host, hrow, -⟩ := hk
        cases hrow

theorem identity_keeps_issuer_orderlyRun :
    ∃ t, run (step Store.asciiLib) startState orderlyRun = some t ∧ IssuerKept t ∧
      t.db.issuerOf 1 = some "https://idp.new" ∧ t.db.vpn.sessions.map (·.sub) = ["1234"] := by
  have hrun : ((run (step Store.asciiLib) startState orderlyRun).map fun t =>
      (t.db.issuerOf 1, t.db.vpn.sessions.map (·.sub))) =
        some (some "https://idp.new", ["1234"]) := by
    decide +kernel
  obtain ⟨t, ht, hends⟩ := Option.map_eq_some_iff.mp hrun
  obtain ⟨hissuer, hsubs⟩ := Prod.mk.inj hends
  refine ⟨t, ht, ?_, hissuer, hsubs⟩
  exact (identity_keeps_issuer startState_quiet startState_kept orderlyRun).1
    (by decide +kernel) t ht

/-- A login reads the row, the issuer changes, the login commits. -/
def overtakenRun : List Label :=
  [.readProvider 1, .verify 0 somebody, .readRow 1 movedProvider,
    .count 1, .count 1, .count 1, .count 1, .count 1, .count 1, .write 1 (.ok ""), .commitLogin 0]

theorem overtaken_login_changes_hands :
    ¬ ∀ (s : State) (labels : List Label) (t : State), s.Quiet → IssuerKept s →
      run (step Store.asciiLib) s labels = some t → IssuerKept t := by
  intro h
  have hrun : ((run (step Store.asciiLib) startState overtakenRun).map fun t =>
      (t.db.issuerOf 1, t.db.vpn.sessions.map (fun v => (v.provider, v.sub)), t.asserted)) =
        some (some "https://idp.new", [(1, "1234")], [("https://idp.old", "1234")]) := by
    decide +kernel
  obtain ⟨t, ht, hends⟩ := Option.map_eq_some_iff.mp hrun
  simp only [Prod.mk.injEq] at hends
  obtain ⟨hissuer, hsessions, hasserted⟩ := hends
  have hkept := h startState overtakenRun t startState_quiet startState_kept ht
  obtain ⟨v, hv, howner⟩ : ∃ v ∈ t.db.vpn.sessions, (v.provider, v.sub) = (1, "1234") := by
    have hmem : ((1 : Int), "1234") ∈ t.db.vpn.sessions.map fun v => (v.provider, v.sub) := by
      rw [hsessions]
      exact List.mem_singleton_self _
    exact List.mem_map.mp hmem
  obtain ⟨hprovider, hsub⟩ := Prod.mk.inj howner
  have hclaimed := hkept.sessions v hv "https://idp.new" (by rw [hprovider, hissuer])
  rw [hasserted, hsub] at hclaimed
  revert hclaimed
  decide

end Quicgate.VpnIssuers
