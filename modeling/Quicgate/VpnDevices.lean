import Quicgate.StoreConfig
import Quicgate.VpnLease
import Quicgate.VpnRoutes

/-!
# The devices of the endpoint

A reload reads the tables of the VPN and decides which devices the endpoint is configured
with, who owns them and what each of them may reach (`wgDevices`, `portalEnrolment` and
`subjectMatchesOwner` in `src/internal/engine/vpn.go`).  The three results follow a device
through the layers: a person's device is there on the strength of a login that nothing has
ended since, along any run of the leases; a flow of a device is allowed by a stored route of
its own or of a policy that names its owner; and an access rule that names people matches a
device exactly when it names the owner.
-/

namespace Quicgate.VpnDevices

open Quicgate.GoStrings Quicgate.Netip Quicgate.TransitionSystem
open Quicgate.Access (VPNSubject VpnOwner vpnSubjectMatches)
open Quicgate.Store (Host printInt printInt_injective slash_not_mem_printInt)
open Quicgate.VpnLease (VPNSession Login minute)
open Quicgate.VpnRoutes (VPNRoute wgRoute wgRoutes)
open Quicgate.WgPolicy (Config Device Peer Route)

/-! ### The tables

What a reload reads in a moment; the sessions are those of `VpnLease`. -/

/-- `WGDevice` as `ListWGDevices` returns it.  A preshared key that cannot be opened is none. -/
structure WGDevice where
  id : Int
  name : String
  kind : String -- admin | sso | breakglass
  publicKey : String
  presharedKey : String
  address : String
  enabled : Bool
  revokedAt : String
  provider : Int
  sub : String
  email : String
  routes : List VPNRoute -- breakglass only
  expiresAt : String -- breakglass
deriving DecidableEq, Repr

structure VPNPolicy where
  subject : VPNSubject
  routes : List VPNRoute
deriving DecidableEq, Repr

/-- What a reload reads.  A table that cannot be read is `none`; `network` is none when the
settings do not give a tunnel network. -/
structure Tables where
  devices : Option (List WGDevice)
  sessions : Option (List VPNSession)
  policies : Option (List VPNPolicy)
  hosts : Option (List Host)
  network : Option Prefix
  ownerBlocked : Int × String → Bool

/-! ### The reload

The functions of `internal/engine/vpn.go` under their names. -/

def ownerKey (provider : Int) (sub : String) : String := printInt provider ++ "/" ++ sub

def subjectMatchesOwner (s : VPNSubject) (provider : Int) (sub : String) (groups : List String) :
    Bool :=
  if s.provider ≠ provider then false
  else if s.kind = "any-user" then true
  else if s.kind = "user" then s.sub == sub
  else if s.kind = "group" then groups.any (· == s.group)
  else false

def Tables.portalEnrolment (t : Tables) (provider : Int) : List VPNSubject :=
  (t.hosts.getD []).flatMap fun h =>
    if h.enabled && h.type == "vpn-portal" then
      match h.options.portal with
      | some portal => if portal.providerID = provider then portal.enrol else []
      | none => []
    else []

/-- The map of the sessions, in which a later one replaces an earlier one of its key. -/
def Tables.session (t : Tables) (provider : Int) (sub : String) : Option VPNSession :=
  (t.sessions.getD []).reverse.find? fun s => ownerKey s.provider s.sub == ownerKey provider sub

def Tables.policyRoutes (t : Tables) (s : VPNSession) : List Route :=
  ((t.policies.getD []).filter fun p => subjectMatchesOwner p.subject s.provider s.sub
    s.groups).flatMap
    fun p => wgRoutes p.routes

section Reload

-- `time.Parse` with the layout of RFC 3339
variable (parseTime : String → Option Int)

/-- One turn of the loop of `wgDevices`: the device with its owner, unless it is left out. -/
def configured (t : Tables) (now : Int) (lanAccess : Bool) (d : WGDevice) :
    Option (Device × Option VpnOwner) :=
  if !d.enabled || d.revokedAt ≠ "" || d.presharedKey = "" then none
  else match parseAddr d.address.toList with
  | none => none
  | some addr =>
    if t.network.any (!·.contains addr) then none
    else
      let dev : Device :=
        ⟨d.id, d.name, d.email, d.publicKey, d.presharedKey, addr, none, []⟩
      if d.kind = "admin" then some ({ dev with owner := "admin" }, none)
      else if d.kind = "breakglass" then
        let dev := { dev with
          owner := "break-glass", routes := if lanAccess then wgRoutes d.routes else [] }
        if d.expiresAt = "" then some (dev, none)
        else match parseTime d.expiresAt with
          | none => none
          | some until_ =>
              if now < until_ then some ({ dev with untilTime := some until_ }, none) else none
      else if d.kind = "sso" then
        match t.session d.provider d.sub with
        | none => none
        | some s =>
          if !s.live now || t.ownerBlocked (d.provider, d.sub) then none
          else if (t.portalEnrolment d.provider).any fun subj =>
              subjectMatchesOwner subj s.provider s.sub s.groups then
            some ({ dev with
                untilTime := some s.accessUntil
                routes := if lanAccess then t.policyRoutes s else [] },
              some ⟨s.provider, s.sub, s.groups⟩)
          else none
      else none

/-- `wgDevices`: the devices of the endpoint, and the table of their owners. -/
def wgDevices (t : Tables) (now : Int) (lanAccess : Bool) : List Device × List (Int × VpnOwner) :=
  let found := (t.devices.getD []).filterMap fun d => configured parseTime t now lanAccess d
  (found.map Prod.fst, found.filterMap fun f => f.2.map fun owner => (f.1.id, owner))

end Reload

/-! ### What a configured device tells of the tables

A device that is configured is a person's or the admin's, and each kind says which rows are
there. -/

theorem ownerKey_injective {provider provider' : Int} {sub sub' : String}
    (h : ownerKey provider sub = ownerKey provider' sub') : provider = provider' ∧ sub = sub' := by
  have htexts : (printInt provider).toList ++ '/' :: sub.toList =
      (printInt provider').toList ++ '/' :: sub'.toList := by
    simpa [ownerKey, List.append_assoc] using congrArg String.toList h
  obtain ⟨hprovider, hsub⟩ :=
    eq_of_first (slash_not_mem_printInt provider) (slash_not_mem_printInt provider') htexts
  exact ⟨printInt_injective (String.toList_injective hprovider), String.toList_injective hsub⟩

theorem session_eq_some {t : Tables} {provider : Int} {sub : String} {s : VPNSession}
    (h : t.session provider sub = some s) :
    s ∈ t.sessions.getD [] ∧ s.provider = provider ∧ s.sub = sub := by
  have hkey : ownerKey s.provider s.sub = ownerKey provider sub := by
    simpa using List.find?_some h
  exact ⟨List.mem_reverse.mp (List.mem_of_find?_eq_some h), ownerKey_injective hkey⟩

/-- What the tables say of a person's device that is configured. -/
structure Personal (t : Tables) (now : Int) (lanAccess : Bool) (d : WGDevice) (s : VPNSession)
    (dev : Device) : Prop where
  kind : d.kind = "sso"
  session : t.session d.provider d.sub = some s
  live : s.live now = true
  unblocked : t.ownerBlocked (d.provider, d.sub) = false
  enrolled : ∃ subj ∈ t.portalEnrolment d.provider,
    subjectMatchesOwner subj s.provider s.sub s.groups = true
  until_ : dev.untilTime = some s.accessUntil
  routes : dev.routes = if lanAccess then t.policyRoutes s else []

/-- What the tables say of a device of the admin's that is configured. -/
structure Issued (parseTime : String → Option Int) (now : Int) (lanAccess : Bool) (d : WGDevice)
    (dev : Device) : Prop where
  kind : d.kind = "admin" ∨ d.kind = "breakglass"
  until_ : d.kind = "breakglass" → d.expiresAt ≠ "" →
    ∃ until_, parseTime d.expiresAt = some until_ ∧ now < until_ ∧ dev.untilTime = some until_
  routes : dev.routes = if d.kind = "breakglass" ∧ lanAccess = true then wgRoutes d.routes else []

/-- A device that may be used at all, with its row. -/
structure Usable (t : Tables) (d : WGDevice) (dev : Device) : Prop where
  id : dev.id = d.id
  enabled : d.enabled = true
  unrevoked : d.revokedAt = ""
  key : dev.presharedKey = d.presharedKey ∧ d.presharedKey ≠ "" ∧ dev.publicKey = d.publicKey
  address : parseAddr d.address.toList = some dev.address
  network : ∀ network ∈ t.network, network.contains dev.address = true

section Configured

variable {parseTime : String → Option Int} {t : Tables} {now : Int} {lanAccess : Bool}
  {d : WGDevice} {dev : Device} {owner : Option VpnOwner}

theorem configured_eq_some (h : configured parseTime t now lanAccess d = some (dev, owner)) :
    Usable t d dev ∧
      (Issued parseTime now lanAccess d dev ∧ owner = none ∨
        ∃ s, Personal t now lanAccess d s dev ∧ owner = some ⟨s.provider, s.sub, s.groups⟩) := by
  unfold configured at h
  split at h
  · simp at h
  rename_i hrow
  simp only [Bool.or_eq_true, Bool.not_eq_true', decide_eq_true_eq, not_or, Bool.not_eq_false,
    ne_eq, not_not] at hrow
  obtain ⟨⟨henabled, hrevoked⟩, hkey⟩ := hrow
  split at h
  · simp at h
  rename_i addr haddr
  split at h
  · simp at h
  rename_i hnetwork
  have hinside : ∀ network ∈ t.network, network.contains addr = true := by
    intro network hmem
    rw [Option.mem_def.mp hmem] at hnetwork
    simpa using hnetwork
  have husable : ∀ dev : Device, dev.id = d.id → dev.presharedKey = d.presharedKey →
      dev.publicKey = d.publicKey → dev.address = addr → Usable t d dev := by
    intro dev hid hpsk hpublic haddress
    exact ⟨hid, henabled, hrevoked, ⟨hpsk, hkey, hpublic⟩, haddress ▸ haddr, haddress ▸ hinside⟩
  simp only at h
  split at h
  · rename_i hkind
    obtain ⟨rfl, rfl⟩ := Prod.mk.inj (Option.some.inj h)
    refine ⟨husable _ rfl rfl rfl rfl, .inl ⟨⟨.inl hkind, ?_, ?_⟩, rfl⟩⟩
    · simp [hkind]
    · simp [hkind]
  split at h
  · rename_i hkind
    split at h
    · rename_i hnever
      obtain ⟨rfl, rfl⟩ := Prod.mk.inj (Option.some.inj h)
      refine ⟨husable _ rfl rfl rfl rfl, .inl ⟨⟨.inr hkind, ?_, by simp [hkind]⟩, rfl⟩⟩
      exact fun _ hexpires => absurd hnever hexpires
    · split at h
      · simp at h
      · rename_i until_ huntil
        split at h
        · rename_i hnow
          obtain ⟨rfl, rfl⟩ := Prod.mk.inj (Option.some.inj h)
          refine ⟨husable _ rfl rfl rfl rfl, .inl ⟨⟨.inr hkind, ?_, by simp [hkind]⟩, rfl⟩⟩
          exact fun _ _ => ⟨until_, huntil, hnow, rfl⟩
        · simp at h
  split at h
  · rename_i hkind
    split at h
    · simp at h
    · rename_i s hsession
      split at h
      · simp at h
      rename_i hadmitted
      simp only [Bool.or_eq_true, Bool.not_eq_true', not_or, Bool.not_eq_false,
        Bool.not_eq_true] at hadmitted
      split at h
      · rename_i henrolled
        obtain ⟨rfl, rfl⟩ := Prod.mk.inj (Option.some.inj h)
        obtain ⟨subj, hsubj, hmatches⟩ := List.any_eq_true.mp henrolled
        exact ⟨husable _ rfl rfl rfl rfl, .inr ⟨s, ⟨hkind, hsession, hadmitted.1, hadmitted.2,
          ⟨subj, hsubj, hmatches⟩, rfl, rfl⟩, rfl⟩⟩
      · simp at h
  · simp at h

theorem mem_wgDevices (h : dev ∈ (wgDevices parseTime t now lanAccess).1) :
    ∃ d ∈ t.devices.getD [], ∃ owner,
      configured parseTime t now lanAccess d = some (dev, owner) := by
  obtain ⟨⟨dev', owner⟩, hfound, rfl⟩ := List.mem_map.mp h
  obtain ⟨d, hd, hconfigured⟩ := List.mem_filterMap.mp hfound
  exact ⟨d, hd, owner, hconfigured⟩

end Configured

/-! ### The login a session rests on

An active session was started by a login, and nothing has ended it since: the history of a run
tells. -/

section Leases

open VpnLease

/-- `wg_session_days` after a login. -/
def hardLimit (cfg : Settings) (l : Login) : Int := l.now + cfg.sessionDays * (24 * 60 * minute)

def Keeps (r : VPNSession) (s : State) (label : Label) : Prop :=
  label.loginOwner ≠ some r.owner ∧ ∀ x ∈ s.store.sessions, x.id = r.id → ¬ Ends s x label

/-- The run has a login of the session's owner that set its hard limit, and every later step keeps
the session. -/
def Earned (labels : List Label) (r : VPNSession) : Prop :=
  ∃ before cfg l after mid, labels = before ++ .login cfg l :: after ∧
    (l.provider, l.sub) = r.owner ∧ r.hardUntil = hardLimit cfg l ∧
    run step init (before ++ [.login cfg l]) = some mid ∧ RunMeets step (Keeps r) mid after

def OneRow (s : Store) : Prop := (s.sessions.map (·.owner)).Nodup

/-- A login writes the row of its owner, and no other row. -/
theorem login_rows {s s' : Store} {v : VPNSession} (hone : OneRow s)
    (h : loginVPNSession s v = some s') :
    OneRow s' ∧ ∀ r ∈ s'.sessions, r.owner = v.owner → r.hardUntil = v.hardUntil := by
  unfold loginVPNSession at h
  split_ifs at h
  cases hfind : s.sessions.find? fun r => r.owner == v.owner with
  | none =>
      rw [hfind] at h
      obtain rfl := Option.some.inj h
      have hnone : ∀ r ∈ s.sessions, r.owner ≠ v.owner := by simpa using hfind
      constructor
      · refine List.Nodup.append hone ?_ ?_ |> fun hnodup => by simpa [OneRow] using hnodup
        · exact List.nodup_singleton v.owner
        · intro owner hold hnew
          obtain ⟨r, hr, rfl⟩ := List.mem_map.mp hold
          exact hnone r hr (List.mem_singleton.mp hnew)
      · intro r hr howner
        rcases List.mem_append.mp hr with hr | hr
        · exact absurd howner (hnone r hr)
        · rw [List.mem_singleton.mp hr]
  | some row =>
      rw [hfind] at h
      obtain rfl := Option.some.inj h
      have hrow : row ∈ s.sessions := List.mem_of_find?_eq_some hfind
      have howner : row.owner = v.owner := by simpa using List.find?_some hfind
      constructor
      · have hsame : ∀ set : VPNSession → VPNSession, (∀ r, (set r).owner = r.owner) →
            ((s.update (fun r => r.id == row.id) set).sessions.map (·.owner)) =
              s.sessions.map (·.owner) := by
          intro set hset
          rw [Store.update, List.map_map]
          refine List.map_congr_left fun r _ => ?_
          simp only [Function.comp]
          split
          · exact hset r
          · rfl
        unfold OneRow
        have hrows := hsame (fun r => { r with
          email := v.email, groups := v.groups, loginAt := v.loginAt, renewedAt := v.renewedAt,
          leaseUntil := v.leaseUntil, graceUntil := v.graceUntil, hardUntil := v.hardUntil,
          refreshToken := v.refreshToken, transient := false, state := .active,
          generation := row.generation + 1 }) fun _ => rfl
        exact hrows.symm ▸ hone
      · intro r' hr' howner'
        obtain ⟨r, hr, rfl⟩ := List.mem_map.mp hr'
        have hr_owner : r.owner = v.owner := by
          split at howner'
          · exact howner'
          · exact howner'
        obtain rfl : r = row := List.inj_on_of_nodup_map hone hr hrow (hr_owner.trans howner.symm)
        simp

theorem oneRow_step {s next : State} {label : Label} (hinv : Inv s) (hone : OneRow s.store)
    (h : step s label = some next) : OneRow next.store := by
  by_cases hlogin : label.loginOwner = none
  · -- no row is added, and none changes hands
    obtain ⟨f, fresh, hmoves⟩ := moves_of_step hinv.store h
    have hfresh : fresh = none := by
      cases hfresh : fresh with
      | none => rfl
      | some v =>
          have hfirst := (hmoves.first v hfresh).2.2
          rw [hlogin] at hfirst
          exact absurd hfirst (by simp)
    have hsame : next.store.sessions.map (·.owner) = s.store.sessions.map (·.owner) := by
      rw [hmoves.sessions, hfresh, Option.toList_none, List.append_nil, List.map_map]
      exact List.map_congr_left fun r hr => (hmoves.amended r hr).owner_eq
    rw [OneRow, hsame]
    exact hone
  · cases label with
    | login cfg l =>
        obtain ⟨store, hstore, rfl⟩ := Option.map_eq_some_iff.mp h
        exact (login_rows hone hstore).1
    | end_ | block | unblock | tick | visit | answer => exact absurd rfl hlogin

/-- What a step leaves active was earned before it, or by it. -/
theorem earned_step {past : List Label} {s next : State} {label : Label} (hinv : Inv s)
    (hone : OneRow s.store) (hpast : run step init past = some s)
    (hearned : ∀ r ∈ s.store.sessions, r.state = .active → Earned past r)
    (h : step s label = some next) :
    ∀ r ∈ next.store.sessions, r.state = .active → Earned (past ++ [label]) r := by
  intro r' hr' hactive
  by_cases hlogin : label.loginOwner = some r'.owner
  · cases label with
    | login cfg l =>
        have howner : (l.provider, l.sub) = r'.owner := Option.some.inj hlogin
        have hmid : run step init (past ++ [.login cfg l]) = some next :=
          run_append_eq_some.mpr ⟨s, hpast, run_cons_eq_some.mpr ⟨next, h, rfl⟩⟩
        obtain ⟨store, hstore, rfl⟩ := Option.map_eq_some_iff.mp h
        have hhard := (login_rows hone hstore).2 r' hr' howner.symm
        exact ⟨past, cfg, l, [], _, rfl, howner, hhard, hmid, trivial⟩
    | end_ | block | unblock | tick | visit | answer =>
        exact absurd hlogin (by simp [Label.loginOwner])
  · obtain ⟨f, fresh, hmoves⟩ := moves_of_step hinv.store h
    rcases hmoves.row hr' with ⟨r, hr, hamended⟩ | ⟨-, -, -, hfirst⟩
    · have howner := hamended.owner_eq
      have hactive' : r.state = .active := by
        by_contra hstate
        exact hamended.not_active (howner ▸ hlogin) hstate hactive
      obtain ⟨before, cfg, l, after, mid, rfl, hl, hhard, hmid, hkeeps⟩ := hearned r hr hactive'
      have hafter : run step mid after = some s := by
        rw [List.append_cons] at hpast
        obtain ⟨mid', hmid', hafter⟩ := run_append_eq_some.mp hpast
        obtain rfl := Option.some.inj (hmid.symm.trans hmid')
        exact hafter
      have hkept : Keeps r s label := by
        refine ⟨howner ▸ hlogin, fun x hx hid hends => ?_⟩
        have hended := ended_row hinv hx hends h r' hr' (hamended.id_eq.trans hid.symm)
        exact hended.2.1 hactive
      refine ⟨before, cfg, l, after ++ [label], mid, by simp, hl.trans howner.symm, ?_, hmid, ?_⟩
      · exact (hamended.hardUntil_eq (howner ▸ hlogin)).trans hhard
      · have hsame : Keeps r' = Keeps r := by
          funext u step
          simp only [Keeps, howner, hamended.id_eq]
        rw [hsame]
        exact hkeeps.concat hafter hkept
    · exact absurd hfirst hlogin

theorem earned_of_run {labels : List Label} {s : State} (hrun : run step init labels = some s) :
    ∀ r ∈ s.store.sessions, r.state = .active → Earned labels r := by
  have hall := run_along (P := fun past u => Inv u ∧ OneRow u.store ∧
      ∀ r ∈ u.store.sessions, r.state = .active → Earned past r)
    ?_ ⟨Inv.init, List.nodup_nil, by simp [init]⟩ hrun
  · exact hall.2.2
  · rintro past u label next hpast ⟨hinv, hone, hearned⟩ hstep
    exact ⟨hinv.step hstep, oneRow_step hinv hone hstep, earned_step hinv hone hpast hearned hstep⟩

end Leases

section Results

variable {parseTime : String → Option Int} {t : Tables} {now : Int} {lanAccess : Bool}
  {dev : Device}

/-! ### What a configured device rests on

The three results, each from the rows of the reload in question. -/

/-- A person's device is there on the strength of a login.  When a reload reads the sessions at
some point of a run of the leases, whatever the other tables hold, a configured device is one the
admin issued, or its owner logged in and nothing has ended the session since.  It is admitted
before the hard limit that this login set and never for longer, and only while an enabled portal
enrols the owner. -/
theorem person_admitted_since_login {labels : List VpnLease.Label} {s : VpnLease.State}
    (hrun : run VpnLease.step VpnLease.init labels = some s) {unreadable : List Nat}
    (hsessions : t.sessions = some (s.store.sessions.map (VpnLease.scan unreadable)))
    (hdev : dev ∈ (wgDevices parseTime t now lanAccess).1) :
    ∃ d ∈ t.devices.getD [], Usable t d dev ∧
      (Issued parseTime now lanAccess d dev ∨
        ∃ r ∈ s.store.sessions, r.owner = (d.provider, d.sub) ∧
          ∃ before cfg l after mid, labels = before ++ .login cfg l :: after ∧
            (l.provider, l.sub) = (d.provider, d.sub) ∧
            run VpnLease.step VpnLease.init (before ++ [.login cfg l]) = some mid ∧
            RunMeets VpnLease.step (Keeps r) mid after ∧
            now < hardLimit cfg l ∧ (∃ until_ ≤ hardLimit cfg l, dev.untilTime = some until_) ∧
            ∃ subj ∈ t.portalEnrolment d.provider,
              subjectMatchesOwner subj d.provider d.sub r.groups = true) := by
  obtain ⟨d, hd, owner, hconfigured⟩ := mem_wgDevices hdev
  obtain ⟨husable, hkind⟩ := configured_eq_some hconfigured
  refine ⟨d, hd, husable, ?_⟩
  rcases hkind with ⟨hissued, -⟩ | ⟨v, hpersonal, -⟩
  · exact .inl hissued
  · obtain ⟨hv, hprovider, hsub⟩ := session_eq_some hpersonal.session
    rw [hsessions, Option.getD_some] at hv
    obtain ⟨r, hr, rfl⟩ := List.mem_map.mp hv
    -- the token aside, the session is its row
    have hscan : (VpnLease.scan unreadable r).live now = r.live now ∧
        (VpnLease.scan unreadable r).accessUntil = r.accessUntil ∧
        (VpnLease.scan unreadable r).provider = r.provider ∧
        (VpnLease.scan unreadable r).sub = r.sub ∧
        (VpnLease.scan unreadable r).groups = r.groups := by
      unfold VpnLease.scan
      split <;> exact ⟨rfl, rfl, rfl, rfl, rfl⟩
    have howner : r.owner = (d.provider, d.sub) := by
      rw [VPNSession.owner, ← hprovider, ← hsub, hscan.2.2.1, hscan.2.2.2.1]
    have hlive : r.live now = true := hscan.1 ▸ hpersonal.live
    simp only [VPNSession.live, Bool.and_eq_true, beq_iff_eq, decide_eq_true_eq] at hlive
    have hle := r.accessUntil_le
    obtain ⟨before, cfg, l, after, mid, hlabels, hl, hhard, hmid, hkeeps⟩ :=
      earned_of_run hrun r hr hlive.1
    obtain ⟨subj, hsubj, hmatches⟩ := hpersonal.enrolled
    rw [hscan.2.2.1, hscan.2.2.2.1, hscan.2.2.2.2] at hmatches
    obtain ⟨hprovider', hsub'⟩ := Prod.mk.inj howner
    rw [hprovider', hsub'] at hmatches
    refine .inr ⟨r, hr, howner, before, cfg, l, after, mid, hlabels, hl.trans howner, hmid, hkeeps,
      ?_, ⟨r.accessUntil, hhard ▸ hle, ?_⟩, subj, hsubj, hmatches⟩
    · rw [← hhard]
      exact lt_of_lt_of_le hlive.2 hle
    · rw [hpersonal.until_, hscan.2.1]

/-- A flow of a configured device is allowed only with LAN access switched on, and by a stored
route: one of the break-glass device's own, or one of a policy that names the device's owner as
the owner's session has it.  An admin's device reaches nothing, a break-glass device nothing from
its expiry on. -/
theorem flow_granted {cfg : Config} {proto : String} {dst : AddrPort}
    (hdev : dev ∈ (wgDevices parseTime t now lanAccess).1)
    (hallowed : (WgPolicy.decide cfg dev.routes proto dst).1 = true) :
    lanAccess = true ∧ ∃ d ∈ t.devices.getD [], Usable t d dev ∧
      ∃ r route, wgRoute r = some route ∧ route.allows proto ⟨dst.addr.unmap, dst.port⟩ = true ∧
        (d.kind = "breakglass" ∧ r ∈ d.routes ∧
            (d.expiresAt ≠ "" → ∃ until_, parseTime d.expiresAt = some until_ ∧ now < until_) ∨
          d.kind = "sso" ∧ ∃ s, t.session d.provider d.sub = some s ∧ s.live now = true ∧
            ∃ p ∈ t.policies.getD [], r ∈ p.routes ∧
              subjectMatchesOwner p.subject d.provider d.sub s.groups = true) := by
  obtain ⟨d, hd, owner, hconfigured⟩ := mem_wgDevices hdev
  obtain ⟨husable, hkind⟩ := configured_eq_some hconfigured
  obtain ⟨-, -, route, hroute, hallows⟩ := WgPolicy.allowed_of_decide hallowed
  rcases hkind with ⟨hissued, -⟩ | ⟨s, hpersonal, -⟩
  · rw [hissued.routes] at hroute
    split at hroute
    · rename_i hon
      obtain ⟨r, hr, hwg⟩ := List.mem_filterMap.mp hroute
      refine ⟨hon.2, d, hd, husable, r, route, hwg, hallows, .inl ⟨hon.1, hr, fun hexpires => ?_⟩⟩
      obtain ⟨until_, huntil, hnow, -⟩ := hissued.until_ hon.1 hexpires
      exact ⟨until_, huntil, hnow⟩
    · simp at hroute
  · rw [hpersonal.routes] at hroute
    split at hroute
    · rename_i hon
      obtain ⟨p, hp, hroute⟩ := List.mem_flatMap.mp hroute
      obtain ⟨hp, hnamed⟩ := List.mem_filter.mp hp
      obtain ⟨r, hr, hwg⟩ := List.mem_filterMap.mp hroute
      obtain ⟨-, hprovider, hsub⟩ := session_eq_some hpersonal.session
      rw [hprovider, hsub] at hnamed
      exact ⟨hon, d, hd, husable, r, route, hwg, hallows,
        .inr ⟨hpersonal.kind, s, hpersonal.session, hpersonal.live, p, hp, hr, hnamed⟩⟩
    · simp at hroute

/-- What a list of entries with keys of their own has under the key of one of them. -/
theorem lookup_filterMap {ρ β : Type} {key : ρ → Int} {entry : ρ → Option (Int × β)} {rows : List ρ}
    (hentry : ∀ r x, entry r = some x → x.1 = key r) (hkeys : (rows.map key).Nodup) {r : ρ}
    (hr : r ∈ rows) : (rows.filterMap entry).lookup (key r) = (entry r).map Prod.snd := by
  induction rows with
  | nil => simp at hr
  | cons row rest ih =>
      obtain ⟨hfresh, hrest⟩ := List.nodup_cons.mp hkeys
      rcases List.mem_cons.mp hr with rfl | hr
      · cases hrow : entry r with
        | none =>
            rw [List.filterMap_cons_none hrow, Option.map_none, List.lookup_eq_none_iff]
            intro x hx
            obtain ⟨r', hr', hfound⟩ := List.mem_filterMap.mp hx
            have hne : key r ≠ key r' := fun heq => hfresh (heq ▸ List.mem_map_of_mem hr')
            simpa [hentry r' x hfound] using hne
        | some x =>
            rw [List.filterMap_cons_some hrow, List.lookup_cons, hentry r x hrow]
            simp
      · have hne : key r ≠ key row := fun heq => hfresh (heq ▸ List.mem_map_of_mem hr)
        cases hrow : entry row with
        | none =>
            rw [List.filterMap_cons_none hrow]
            exact ih hrest hr
        | some x =>
            rw [List.filterMap_cons_some hrow, List.lookup_cons, hentry row x hrow,
              beq_eq_false_iff_ne.mpr hne]
            exact ih hrest hr

/-- The owner that the table of a reload has for a device. -/
theorem lookup_owners {d : WGDevice} {owner : Option VpnOwner}
    (hids : ((t.devices.getD []).map (·.id)).Nodup) (hd : d ∈ t.devices.getD [])
    (h : configured parseTime t now lanAccess d = some (dev, owner)) :
    (wgDevices parseTime t now lanAccess).2.lookup d.id = owner := by
  have htable : (wgDevices parseTime t now lanAccess).2 = (t.devices.getD []).filterMap fun d =>
      (configured parseTime t now lanAccess d).bind fun f => f.2.map fun owner =>
        (f.1.id, owner) := by
    simp only [wgDevices, List.filterMap_filterMap]
  have hentry : ∀ (r : WGDevice) (x : Int × VpnOwner),
      ((configured parseTime t now lanAccess r).bind fun f => f.2.map
        fun owner => (f.1.id, owner)) =
        some x → x.1 = r.id := by
    intro r x hx
    obtain ⟨⟨dev', owner'⟩, hconfigured, hx⟩ := Option.bind_eq_some_iff.mp hx
    obtain ⟨o, -, rfl⟩ := Option.map_eq_some_iff.mp hx
    exact (configured_eq_some hconfigured).1.id
  rw [htable, lookup_filterMap hentry hids hd, h]
  cases owner <;> rfl

/-- Rules and policies name the same people.  An access rule that names users or groups matches
the peer of a configured device exactly when a policy with that subject would name the device's
owner, as the session of the same reload has him; it never matches a device the admin issued. -/
theorem rule_names_owner (hids : ((t.devices.getD []).map (·.id)).Nodup) {d : WGDevice}
    (hd : d ∈ t.devices.getD []) {owner : Option VpnOwner}
    (h : configured parseTime t now lanAccess d = some (dev, owner)) {peer : Peer}
    (hpeer : peer.id = d.id) (hdevice : peer.site = false) {subj : VPNSubject}
    (hkind : subj.kind ∉ ["any", "site", "device", "peer"]) :
    vpnSubjectMatches (some (wgDevices parseTime t now lanAccess).2) subj peer = true ↔
      d.kind = "sso" ∧ ∃ s, t.session d.provider d.sub = some s ∧
        subjectMatchesOwner subj d.provider d.sub s.groups = true := by
  simp only [List.mem_cons, List.not_mem_nil, or_false, not_or] at hkind
  obtain ⟨hany, hsite, hdev, hkeyed⟩ := hkind
  have hlookup := lookup_owners hids hd h
  obtain ⟨-, hcase⟩ := configured_eq_some h
  rcases hcase with ⟨hissued, rfl⟩ | ⟨s, hpersonal, rfl⟩
  · have hnot : d.kind ≠ "sso" := by
      rcases hissued.kind with hkind | hkind <;> simp [hkind]
    simp [vpnSubjectMatches, hany, hsite, hdev, hkeyed, hdevice, hpeer, hlookup, hnot]
  · obtain ⟨-, hprovider, hsub⟩ := session_eq_some hpersonal.session
    have hmatches : vpnSubjectMatches (some (wgDevices parseTime t now lanAccess).2) subj peer =
        subjectMatchesOwner subj d.provider d.sub s.groups := by
      simp only [vpnSubjectMatches, hany, hsite, hdev, hkeyed, hdevice, hpeer, hlookup,
        Option.bind_some, if_false, Bool.false_eq_true, subjectMatchesOwner, hprovider, hsub]
      by_cases hnamed : subj.provider = d.provider
      · have husers : (d.sub == subj.sub) = (subj.sub == d.sub) := BEq.comm
        have hgroups : s.groups.contains subj.group = s.groups.any (· == subj.group) := by
          rw [Bool.eq_iff_iff]
          simp
        simp only [hnamed, ne_eq, not_true_eq_false, if_false, husers, hgroups]
      · simp [hnamed, Ne.symm hnamed]
    rw [hmatches]
    constructor
    · exact fun hnamed => ⟨hpersonal.kind, s, hpersonal.session, hnamed⟩
    · rintro ⟨-, s', hs', hnamed⟩
      obtain rfl := Option.some.inj (hpersonal.session.symm.trans hs')
      exact hnamed

end Results

/-! ### An owner's phone

One person, one session and one device. -/

def annPhone : WGDevice :=
  ⟨7, "phone", "sso", "key", "psk", "10.77.0.5", true, "", 1, "ann", "ann@example", [], ""⟩

/-- A portal that enrols every user of the provider, and a policy for Ann. -/
def annTables : Tables where
  devices := some [annPhone]
  sessions := some [VpnLease.annSession]
  policies := some [⟨⟨"user", "", 1, "ann", ""⟩, [⟨"192.168.1.0/24", "tcp", "22"⟩]⟩]
  hosts := some [{ Store.Host.zero with
    type := "vpn-portal", enabled := true
    options := { Store.Options.zero with
      portal := some ⟨1, "id_token", [⟨"any-user", "", 1, "", ""⟩]⟩ } }]
  network := parsePrefix "10.77.0.0/24".toList
  ownerBlocked := fun _ => false

/-- The phone as it is configured five minutes after the login. -/
def annDevice : Device :=
  ⟨7, "phone", "ann@example", "key", "psk", .v4 0x0a4d0005, some (10 * minute),
    [⟨WgPolicy.cidr4 192 168 1 0 24, "tcp", [⟨22, 22⟩]⟩]⟩

theorem annPhone_configured :
    configured (fun _ => none) annTables (5 * minute) true annPhone =
      some (annDevice, some ⟨1, "ann", []⟩) := by
  decide +kernel

theorem annDevice_mem : annDevice ∈ (wgDevices (fun _ => none) annTables (5 * minute) true).1 := by
  have hfound : (wgDevices (fun _ => none) annTables (5 * minute) true).1 = [annDevice] := by
    decide +kernel
  rw [hfound]
  exact List.mem_singleton.mpr rfl

theorem person_admitted_since_login_ann :
    ∃ cfg l, VpnLease.Label.login cfg l ∈
        [VpnLease.Label.login VpnLease.defaults VpnLease.ann, .tick (6 * minute) [], .visit 0 0] ∧
      (l.provider, l.sub) = (1, "ann") ∧ 5 * minute < hardLimit cfg l := by
  have hrun : run VpnLease.step VpnLease.init
      [.login VpnLease.defaults VpnLease.ann, .tick (6 * minute) [], .visit 0 0] =
        some VpnLease.renewing := by decide
  have hsessions : annTables.sessions =
      some (VpnLease.renewing.store.sessions.map (VpnLease.scan [])) := by decide
  obtain ⟨d, hd, -, hcase⟩ := person_admitted_since_login hrun hsessions annDevice_mem
  obtain rfl : d = annPhone := List.mem_singleton.mp hd
  rcases hcase with hissued | ⟨r, -, -, before, cfg, l, after, mid, hlabels, hl, -, -, hnow, -⟩
  · exact absurd hissued.kind (by decide)
  · refine ⟨cfg, l, ?_, hl, hnow⟩
    rw [hlabels]
    exact List.mem_append_right _ List.mem_cons_self

theorem flow_granted_ann :
    ∃ p ∈ annTables.policies.getD [],
      subjectMatchesOwner p.subject 1 "ann" VpnLease.annSession.groups = true := by
  have hallowed : (WgPolicy.decide VpnRoutes.unguarded annDevice.routes "tcp"
      ⟨.v4 0xc0a80114, 22⟩).1 = true := by decide +kernel
  obtain ⟨-, d, hd, -, r, route, -, -, hcase⟩ := flow_granted annDevice_mem hallowed
  obtain rfl : d = annPhone := List.mem_singleton.mp hd
  rcases hcase with ⟨hkind, -⟩ | ⟨-, s, hs, -, p, hp, -, hnamed⟩
  · exact absurd hkind (by decide)
  · have hsession : annTables.session 1 "ann" = some VpnLease.annSession := by decide +kernel
    obtain rfl := Option.some.inj (hsession.symm.trans hs)
    exact ⟨p, hp, hnamed⟩

theorem rule_names_owner_ann :
    vpnSubjectMatches (some (wgDevices (fun _ => none) annTables (5 * minute) true).2)
      ⟨"user", "", 1, "ann", ""⟩ ⟨"device:7", false, 7, "phone", "ann@example", []⟩ = true := by
  have hsession : annTables.session 1 "ann" = some VpnLease.annSession := by decide +kernel
  have hmem : annPhone ∈ annTables.devices.getD [] := List.mem_singleton.mpr rfl
  refine (rule_names_owner (by decide) hmem annPhone_configured rfl rfl (by decide)).mpr ?_
  exact ⟨rfl, VpnLease.annSession, hsession, by decide⟩

end Quicgate.VpnDevices
