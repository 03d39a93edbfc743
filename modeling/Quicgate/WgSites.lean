import Mathlib.Data.String.Basic
import Quicgate.WgNetwork
import Quicgate.WgOwnership

/-!
# The networks of the sites

A site claims networks, and packets go to the site that claims their address, so no two
sites may claim the same one.  The admin API sees to that when it checks a site
(`wg.ValidateSite`) against the others.  It lists the others in one statement and writes
the site in another, so other requests can come between the two.  The module has the
check, the requests as they run statement by statement, and what a run must keep to for
the sites to stay apart.

`sites_stay_disjoint` is the result: the stored sites, and the configuration that the endpoint
is given, are disjoint in every run in which no site is written that is in the way of a
request that has already checked its own.  The configuration is what `WgOwnership` starts
from.
-/

namespace Quicgate.Wg

open Quicgate.GoStrings Quicgate.Netip Quicgate.Checks Quicgate.Sql Quicgate.TransitionSystem
open Quicgate.Store (Lib trim trim_trim equalFold foldEqual)
open Quicgate.WgPolicy (Site Config)
open Quicgate.WgManager (ManagedPeer)

/-! ### The check of a site

The loops of `ValidateSite`, over the networks of a site and over the other sites, and
`validateWGSite`, which calls it with what is stored. -/

def canonicalKey (key : String) : Check String := do
  let text ← canonicalWGKey key
  refuseIf (text = keyText (List.replicate 32 0)) "the all-zero key is not a key"
  return text

/-- A loop that refuses the first entry that is bad. -/
def refuseAny {α : Type} (bad : α → Bool) (why : α → String) (entries : List α) : Check Unit :=
  match entries.find? bad with
  | some entry => .error (why entry)
  | none => .ok ()

@[simp] theorem refuseAny_eq_ok {α : Type} {bad : α → Bool} {why : α → String} {entries : List α}
    {u : Unit} : refuseAny bad why entries = .ok u ↔ ∀ entry ∈ entries, bad entry = false := by
  unfold refuseAny
  split
  · rename_i entry hentry
    have hbad := List.find?_some hentry
    have hmem := List.mem_of_find?_eq_some hentry
    simp only [reduceCtorEq, false_iff, not_forall]
    exact ⟨entry, hmem, by simp [hbad]⟩
  · rename_i hnone
    simpa using hnone

def never : List Prefix :=
  [prefixFrom (.v4 0x00000000#32) 8, prefixFrom (.v4 0x7f000000#32) 8,
    prefixFrom (.v4 0xa9fe0000#32) 16, prefixFrom (.v4 0xe0000000#32) 4,
    prefixFrom (.v4 0xf0000000#32) 4]

/-- `TunnelAddress`: quicgate's own address, the first host of the network. -/
def tunnelAddress (tunnel : Prefix) : Addr := Addr.next tunnel.masked.ip

def addrString : Addr → String
  | .v4 x => String.ofList (text4 x)
  | _ => "invalid IP"

section Validate

variable (lib : Lib)

def validateNetwork (tunnel : Prefix) (networks ownNets : List Prefix) (allowOwnOverlap : Bool)
    (i : Nat) (n : Prefix) : Check Unit := do
  refuseIf (n.isValid = false ∨ n.ip.is4 = false)
    ("network " ++ prefixString n ++ ": only IPv4 prefixes are supported")
  let n := n.masked
  refuseIf (n.bits = 0)
    ("network " ++ prefixString n ++ ": a site cannot claim the whole address space")
  refuseIf (n.overlaps tunnel = true)
    ("network " ++ prefixString n ++ " overlaps the tunnel network " ++ prefixString tunnel)
  refuseAny n.overlaps
    (fun bad => "network " ++ prefixString n ++ " overlaps " ++ prefixString bad ++
      ", which no site may claim") never
  refuseAny (fun entry : Prefix × Nat => entry.2 != i && n.overlaps entry.1.masked)
    (fun entry => "networks " ++ prefixString n ++ " and " ++ prefixString entry.1 ++
      " of this site overlap") networks.zipIdx
  refuseAny (fun own => !allowOwnOverlap && n.overlaps own)
    (fun own => "network " ++ prefixString n ++ " overlaps " ++ prefixString own ++
      ", a network this machine is on: confirm that this is intended") ownNets

def validateOther (s o : Site) : Check Unit :=
  if o.id = s.id then .ok ()
  else do
    refuseIf (o.publicKey = s.publicKey)
      ("site " ++ lib.quote o.name ++ " already uses this public key")
    refuseIf (o.address = s.address)
      ("site " ++ lib.quote o.name ++ " already has the address " ++ addrString s.address)
    refuseIf (equalFold lib o.name s.name = true)
      ("a site named " ++ lib.quote o.name ++ " already exists")
    refuseAny (fun pair : Prefix × Prefix => pair.1.masked.overlaps pair.2.masked)
      (fun pair => "network " ++ prefixString pair.1 ++ " overlaps " ++ prefixString pair.2 ++
        " of site " ++ lib.quote o.name) (s.networks ×ˢ o.networks)

def validateSite (s : Site) (tunnel : Prefix) (serverPublicKey : String) (others : List Site)
    (ownNets : List Prefix) (allowOwnOverlap : Bool) : Check Unit := do
  refuseIf (trim s.name = "") "a site needs a name"
  let _ ← within "public key: " (canonicalKey s.publicKey)
  refuseIf (s.publicKey = serverPublicKey) "that is this server's own public key"
  let _ ← within "preshared key: " (canonicalKey s.presharedKey)
  refuseIf (tunnel.isValid = false ∨ tunnel.ip.is4 = false)
    "the tunnel network must be an IPv4 prefix"
  refuseIf (s.address.is4 = false ∨ tunnel.contains s.address = false ∨
      s.address = tunnelAddress tunnel ∨ s.address = tunnel.masked.ip)
    ("the site's address " ++ addrString s.address ++ " must be a host inside " ++
      prefixString tunnel ++ " other than quicgate's own")
  refuseIf (s.networks = []) "a site needs at least one network it fronts"
  refuseIf (s.keepalive < 0 ∨ 3600 < s.keepalive) "keepalive is 0 to 3600 seconds"
  let _ ← each (validateNetwork tunnel s.networks ownNets allowOwnOverlap) 0 s.networks
  forEach (validateOther lib s) others

def readNetwork (n : String) : Option Prefix := (parsePrefix (trimSpace n.toList)).map Prefix.masked

def toWGSite (id : Int) (w : WGSite) (presharedKey : String) : Check Site := do
  let networks ← each (fun _ n => match readNetwork n with
    | some p => .ok p
    | none => .error ("network " ++ n ++ ": not a prefix like 192.168.50.0/24")) 0 w.networks
  return {
    id, name := trim w.name, publicKey := trim w.publicKey, presharedKey, address := w.address
    networks, endpoint := trim w.endpoint, keepalive := w.keepalive, enabled := w.enabled }

def listWGSites (db : Peers) : List (Int × WGSite) :=
  db.sites.rows.insertionSort fun row row' => noCase row.2.name ≤ noCase row'.2.name

/-- One round of the search for a stand-in address: the address is moved on whenever another
site has it. -/
def passTaken (others : List Site) (a : Addr) : Addr × Bool :=
  others.foldl (fun (a, taken) o => if o.address = a then (Addr.next a, true) else (a, taken))
    (a, false)

/-- The rounds, until one does not move the address. Every round but the last passes the address
of another site, so one more than there are sites is enough. -/
def standIn (others : List Site) : Nat → Addr → Addr
  | 0, a => a
  | rounds + 1, a =>
      if (passTaken others a).2 then standIn others rounds (passTaken others a).1
      else (passTaken others a).1

/-- What the check of a request is given beside the tables: the checks of its endpoint, the
preshared key and the networks of this machine. -/
structure Surroundings where
  endpoint : Check Unit
  psk : String
  ownNets : List Prefix

def Surroundings.checkEndpoint (env : Surroundings) (w : WGSite) : Check Unit :=
  if w.endpoint = "" then .ok () else env.endpoint

/-- `validateWGSite`, when the settings give `tunnel`; `id` is 0 for a new site. -/
def validateWGSite (tunnel : Prefix) (serverPublicKey : String) (env : Surroundings) (db : Peers)
    (id : Int) (w : WGSite) : Check Unit := do
  env.checkEndpoint w
  let site ← toWGSite id w env.psk
  let stored := listWGSites db
  let others := (stored.filter fun row => row.1 ≠ id).filterMap fun row =>
    (toWGSite row.1 row.2 "").toOption
  let address := ((db.sites.lookup id).map (·.address)).getD site.address
  let address := if address.isValid then address
    else standIn others (others.length + 1) (Addr.next (tunnelAddress tunnel))
  validateSite lib { site with address } tunnel serverPublicKey others env.ownNets w.allowOwnOverlap

end Validate

/-! ### What a passed check says

Networks are compared masked, names without case. -/

def siteNetworks (w : WGSite) : List Prefix := w.networks.filterMap readNetwork

/-- The networks of a site can be read, and a site may claim them. -/
structure Claimable (tunnel : Prefix) (w : WGSite) : Prop where
  readable : ∀ n ∈ w.networks, ∃ p, readNetwork n = some p
  ipv4 : ∀ p ∈ siteNetworks w, p.isValid = true ∧ p.ip.is4 = true
  allowed : ∀ p ∈ siteNetworks w, p.overlaps tunnel = false ∧ ∀ bad ∈ never, p.overlaps bad = false

/-- Two sites claim different networks and have different names. -/
structure SitesApart (lib : Lib) (w w' : WGSite) : Prop where
  networks : ∀ p ∈ siteNetworks w, ∀ q ∈ siteNetworks w', p.overlaps q = false
  names : equalFold lib (trim w.name) (trim w'.name) = false

theorem masked_masked (p : Prefix) : p.masked.masked = p.masked := by
  by_cases hvalid : p.isValid = true
  · have hmasked : p.masked = p.ip.toPrefix p.len := by rw [Prefix.masked, if_pos hvalid]
    have hlen := Prefix.len_le hvalid
    cases hip : p.ip with
    | v4 x =>
        rw [hip] at hmasked hlen
        obtain ⟨hip₁, hvalid₁, hlen₁⟩ := toPrefix_v4 (x := x) hlen
        rw [← hmasked] at hip₁ hvalid₁ hlen₁
        obtain ⟨hip₂, hvalid₂, hlen₂⟩ := toPrefix_v4 (x := x &&& leading 32 p.len) hlen
        have hagain : p.masked.masked = (Addr.v4 (x &&& leading 32 p.len)).toPrefix p.len := by
          rw [Prefix.masked, if_pos hvalid₁, hip₁, hlen₁]
        rw [← hagain] at hip₂ hvalid₂ hlen₂
        refine prefix_eq_of_valid hvalid₂ hvalid₁ ?_ (hlen₂.trans hlen₁.symm)
        rw [hip₂, hip₁, BitVec.and_assoc, BitVec.and_self]
    | v6 x zone =>
        rw [hip] at hmasked hlen
        obtain ⟨hip₁, hvalid₁, hlen₁⟩ := @toPrefix_v6 _ x zone hlen
        rw [← hmasked] at hip₁ hvalid₁ hlen₁
        obtain ⟨hip₂, hvalid₂, hlen₂⟩ := @toPrefix_v6 _ (x &&& leading 128 p.len) "" hlen
        have hagain : p.masked.masked = (Addr.v6 (x &&& leading 128 p.len) "").toPrefix p.len := by
          rw [Prefix.masked, if_pos hvalid₁, hip₁, hlen₁]
        rw [← hagain] at hip₂ hvalid₂ hlen₂
        refine prefix_eq_of_valid hvalid₂ hvalid₁ ?_ (hlen₂.trans hlen₁.symm)
        rw [hip₂, hip₁, BitVec.and_assoc, BitVec.and_self]
    | zero =>
        have hwf := p.wf (Prefix.isValid_iff.mp hvalid)
        simp [hip, Addr.bitLen] at hwf
  · rw [Prefix.masked.eq_def p, if_neg hvalid]
    decide

section Spec

variable {lib : Lib} {id : Int} {w w' : WGSite} {psk : String} {site : Site} {tunnel : Prefix}

theorem masked_of_mem_siteNetworks {p : Prefix} (h : p ∈ siteNetworks w) : p.masked = p := by
  obtain ⟨n, -, hn⟩ := List.mem_filterMap.mp h
  obtain ⟨q, -, rfl⟩ := Option.map_eq_some_iff.mp hn
  exact masked_masked q

theorem toWGSite_eq_ok (h : toWGSite id w psk = .ok site) :
    (∀ n ∈ w.networks, ∃ p, readNetwork n = some p) ∧ site =
      { id, name := trim w.name, publicKey := trim w.publicKey, presharedKey := psk
        address := w.address, networks := siteNetworks w, endpoint := trim w.endpoint
        keepalive := w.keepalive, enabled := w.enabled } := by
  simp only [toWGSite, bind_eq_ok, pure_eq_ok] at h
  obtain ⟨networks, hnetworks, rfl⟩ := h
  have hread : List.Forall₂ (fun n p => readNetwork n = some p) w.networks networks := by
    refine (each_eq_ok hnetworks).imp ?_
    rintro n p ⟨_, hn⟩
    split at hn
    · rename_i q hq
      rw [hq, Except.ok.inj hn]
    · cases hn
  have hall : ∀ {ns : List String} {ps : List Prefix},
      List.Forall₂ (fun n p => readNetwork n = some p) ns ps →
        (∀ n ∈ ns, ∃ p, readNetwork n = some p) ∧ ns.filterMap readNetwork = ps := by
    intro ns ps hns
    induction hns with
    | nil => exact ⟨by simp, rfl⟩
    | cons hn _ ih =>
        refine ⟨?_, by rw [List.filterMap_cons_some hn, ih.2]⟩
        rintro m (_ | ⟨_, hm⟩)
        · exact ⟨_, hn⟩
        · exact ih.1 m hm
  obtain ⟨hreadable, hnets⟩ := hall hread
  exact ⟨hreadable, by rw [siteNetworks, hnets]⟩

theorem toWGSite_of_readable (h : ∀ n ∈ w.networks, ∃ p, readNetwork n = some p) :
    ∃ site, toWGSite id w psk = .ok site := by
  have heach : ∀ (ns : List String) (i : Nat), (∀ n ∈ ns, ∃ p, readNetwork n = some p) →
      ∃ ps, each (fun _ n => match readNetwork n with
        | some p => Except.ok p
        | none => .error ("network " ++ n ++ ": not a prefix like 192.168.50.0/24")) i ns =
            .ok ps := by
    intro ns
    induction ns with
    | nil => exact fun i _ => ⟨[], rfl⟩
    | cons n ns ih =>
        intro i hns
        obtain ⟨p, hp⟩ := hns n List.mem_cons_self
        obtain ⟨ps, hps⟩ := ih (i + 1) fun m hm => hns m (List.mem_cons_of_mem n hm)
        exact ⟨p :: ps, by simp [each, hp, hps, bind, Except.bind, pure, Except.pure]⟩
  obtain ⟨ps, hps⟩ := heach w.networks 0 h
  exact ⟨_, by rw [toWGSite, hps]; rfl⟩

theorem all_zip_comm {α : Type} {f : α → α → Bool} (hf : ∀ c d, f c d = f d c) (l l' : List α) :
    ((l.zip l').all fun (c, d) => f c d) = (l'.zip l).all fun (c, d) => f c d := by
  induction l generalizing l' with
  | nil => simp
  | cons c l ih =>
      cases l' with
      | nil => rfl
      | cons d l' =>
          simp only [List.zip_cons_cons, List.all_cons, hf c d]
          rw [ih]

/-- Folding is a relation between two characters that does not depend on their order. -/
theorem equalFold_comm {a b : String} (hfolds : ∀ c d, lib.folds c d = lib.folds d c) :
    equalFold lib a b = equalFold lib b a := by
  have hpair : ∀ c d : Char,
      (c == d ||
        (if c.toNat < 128 ∧ d.toNat < 128 then c.toLower == d.toLower else lib.folds c d)) =
        (d == c ||
          (if d.toNat < 128 ∧ c.toNat < 128 then d.toLower == c.toLower else lib.folds d c)) := by
    intro c d
    simp only [BEq.comm (a := c), BEq.comm (a := c.toLower), hfolds c d,
      and_comm (a := c.toNat < 128)]
  rw [equalFold, equalFold, foldEqual, foldEqual, BEq.comm (a := a.toList.length)]
  exact congrArg _ (all_zip_comm hpair _ _)

theorem validateSite_eq_ok {serverPublicKey : String} {others : List Site} {ownNets : List Prefix}
    {allowOwnOverlap : Bool} {u : Unit}
    (h : validateSite lib site tunnel serverPublicKey others ownNets allowOwnOverlap = .ok u) :
    (∀ p ∈ site.networks, p.isValid = true ∧ p.ip.is4 = true ∧
      p.masked.overlaps tunnel = false ∧ ∀ bad ∈ never, p.masked.overlaps bad = false) ∧
    ∀ o ∈ others, o.id ≠ site.id → equalFold lib o.name site.name = false ∧
      ∀ p ∈ site.networks, ∀ q ∈ o.networks, p.masked.overlaps q.masked = false := by
  simp only [validateSite, bind_eq_ok, refuseIf_eq_ok] at h
  obtain ⟨_, _, _, _, _, _, _, _, _, _, _, _, _, _, _, _, units, hnetworks, hothers⟩ := h
  constructor
  · intro p hp
    obtain ⟨_, -, i, hp⟩ := exists_of_forall₂_left (each_eq_ok hnetworks) hp
    simp only [validateNetwork, bind_eq_ok, refuseIf_eq_ok, refuseAny_eq_ok, not_or,
      Bool.not_eq_false, Bool.not_eq_true] at hp
    obtain ⟨_, ⟨hvalid, h4⟩, _, -, _, htunnel, _, hnever, -⟩ := hp
    exact ⟨hvalid, h4, htunnel, hnever⟩
  · intro o ho hid
    have hother := forEach_eq_ok.mp hothers o ho
    simp only [validateOther, if_neg hid, bind_eq_ok, refuseIf_eq_ok, refuseAny_eq_ok,
      Bool.not_eq_true] at hother
    obtain ⟨_, -, _, -, _, hname, hoverlap⟩ := hother
    refine ⟨hname, fun p hp q hq => ?_⟩
    exact hoverlap (p, q) (List.pair_mem_product.mpr ⟨hp, hq⟩)

/-- A passed check of a request: the site may claim its networks, and it keeps apart from every
other site that is stored, if that one can be read. -/
theorem validateWGSite_eq_ok {serverPublicKey : String} {env : Surroundings} {db : Peers} {u : Unit}
    (hfolds : ∀ c d, lib.folds c d = lib.folds d c)
    (h : validateWGSite lib tunnel serverPublicKey env db id w = .ok u) :
    Claimable tunnel w ∧ ∀ id' w', (id', w') ∈ db.sites.rows → id' ≠ id →
      (∀ n ∈ w'.networks, ∃ p, readNetwork n = some p) → SitesApart lib w w' := by
  simp only [validateWGSite, bind_eq_ok] at h
  obtain ⟨_, -, site, hsite, hvalid⟩ := h
  obtain ⟨hreadable, rfl⟩ := toWGSite_eq_ok hsite
  obtain ⟨hnetworks, hothers⟩ := validateSite_eq_ok hvalid
  refine ⟨⟨hreadable, ?_, ?_⟩, ?_⟩
  · intro p hp
    exact ⟨(hnetworks p hp).1, (hnetworks p hp).2.1⟩
  · intro p hp
    have hallowed := (hnetworks p hp).2.2
    rwa [masked_of_mem_siteNetworks hp] at hallowed
  · intro id' w' hrow hid hread
    obtain ⟨other, hother⟩ : ∃ site, toWGSite id' w' "" = .ok site := toWGSite_of_readable hread
    obtain ⟨-, rfl⟩ := toWGSite_eq_ok hother
    have hlisted : (id', w') ∈ (listWGSites db).filter fun row => row.1 ≠ id :=
      List.mem_filter.mpr ⟨(List.mem_insertionSort _).mpr hrow, by simpa using hid⟩
    have hothers' :=
      hothers _ (List.mem_filterMap.mpr ⟨(id', w'), hlisted, by rw [hother]; rfl⟩) hid
    obtain ⟨hname, hoverlap⟩ := hothers'
    constructor
    · intro p hp q hq
      have hpq := hoverlap p hp q hq
      rwa [masked_of_mem_siteNetworks hp, masked_of_mem_siteNetworks hq] at hpq
    · rw [equalFold_comm hfolds]
      exact hname

end Spec

/-! ### Requests, statement by statement

A request checks in one step and writes in a later one; an update reads the stored key in
between. -/

/-- A request to create or update a site. -/
inductive SiteJob where
  /-- The request is read; an update has found the row it is about. -/
  | begun (target : Option Int) (w : WGSite)
  /-- The settings are read. -/
  | ready (target : Option Int) (w : WGSite)
  /-- The others were listed, and the site passed the check. -/
  | valid (target : Option Int) (w : WGSite)
  /-- `UpdateWGSite` has seen that the site keeps its key. -/
  | keyed (id : Int) (w : WGSite)
  | ended
deriving DecidableEq

/-- The tables, and the requests in flight. -/
structure Desk where
  peers : Peers
  jobs : List SiteJob

def Desk.start : Desk := ⟨.empty, []⟩

inductive SiteStep where
  | begin (target : Option Int) (w : WGSite)
  | readSettings (i : Nat)
  | validate (i : Nat) (env : Surroundings)
  | create (i : Nat) (sealing : Check Unit) (now : Nat)
  | matchKey (i : Nat)
  | update (i : Nat)
  | delete (users : List String) (id : Int)

/-- The statement of `UpdateWGSite` that writes, whatever the key is. -/
def updateRow (db : Peers) (id : Int) (w : WGSite) : Check Peers :=
  match db.sites.lookup id with
  | none => .error noRows
  | some _ => do
      refuseIf (db.sites.rows.any (fun row => row.1 != id &&
          noCase row.2.name == noCase (trim w.name)) = true)
        "a site with this name already exists"
      return { db with sites := db.sites.modify id fun cur =>
        { cur with
          name := trim w.name, networks := w.networks, endpoint := w.endpoint
          keepalive := w.keepalive, enabled := w.enabled, allowOwnOverlap := w.allowOwnOverlap } }

/-- The statement of `UpdateWGSite` that reads: the key that is stored stays. -/
def keepsKey (db : Peers) (id : Int) (w : WGSite) : Check Unit :=
  match db.sites.lookup id with
  | none => .error noRows
  | some prev => refuseIf ((canonicalWGKey w.publicKey).toOption ≠ some prev.publicKey)
      "a site keeps its key: delete the site and add it anew to change the key"

/-- The two statements are `updateWGSite` when nothing comes between them. -/
theorem updateWGSite_eq (db : Peers) (id : Int) (w : WGSite) :
    updateWGSite db id w = keepsKey db id w >>= fun _ => updateRow db id w := by
  unfold updateWGSite keepsKey updateRow
  cases db.sites.lookup id with
  | none => rfl
  | some prev => rfl

section Machine

variable (lib : Lib) (tunnel : Prefix) (serverPublicKey : String)

def Desk.write (s : Desk) (i : Nat) (result : Check Peers) : Desk :=
  match result with
  | .ok peers => ⟨peers, s.jobs.set i .ended⟩
  | .error _ => ⟨s.peers, s.jobs.set i .ended⟩

def Desk.pass (s : Desk) (i : Nat) (result : Check Unit) (job : SiteJob) : Desk :=
  match result with
  | .ok _ => { s with jobs := s.jobs.set i job }
  | .error _ => { s with jobs := s.jobs.set i .ended }

/-- One statement of one request. The network and the key of the server are fixed. -/
def Desk.step (s : Desk) : SiteStep → Option Desk
  | .begin none w =>
      some { s with jobs := s.jobs ++ [.begun none { w with address := .zero }] }
  | .begin (some id) w =>
      (s.peers.sites.lookup id).map fun cur =>
        { s with jobs := s.jobs ++ [.begun (some id) { w with address := cur.address }] }
  | .readSettings i =>
      match s.jobs[i]? with
      | some (.begun target w) => some { s with jobs := s.jobs.set i (.ready target w) }
      | _ => none
  | .validate i env =>
      match s.jobs[i]? with
      | some (.ready target w) =>
          let result := validateWGSite lib tunnel serverPublicKey env s.peers (target.getD 0) w
          some (s.pass i result (.valid target w))
      | _ => none
  | .create i sealing now =>
      match s.jobs[i]? with
      | some (.valid none w) => some (s.write i (createWGSite s.peers tunnel sealing now w))
      | _ => none
  | .matchKey i =>
      match s.jobs[i]? with
      | some (.valid (some id) w) => some (s.pass i (keepsKey s.peers id w) (.keyed id w))
      | _ => none
  | .update i =>
      match s.jobs[i]? with
      | some (.keyed id w) => some (s.write i (updateRow s.peers id w))
      | _ => none
  | .delete users id =>
      match deleteWGSite s.peers users id with
      | .ok peers => some { s with peers }
      | .error _ => some s

end Machine

/-- The site that a request has checked and not yet written, with the row it overwrites. -/
def SiteJob.pending : SiteJob → Option (Option Int × WGSite)
  | .valid target w => some (target, w)
  | .keyed id w => some (some id, w)
  | _ => none

/-! ### The invariant

What a request has checked stands until it writes, unless it is overtaken. -/

/-- What the requests keep to: the rows keep apart, and a site that was checked and not yet
written keeps apart from every row but the one it overwrites. -/
structure SitesInv (lib : Lib) (t : Tunnel) (s : Desk) : Prop where
  claimable : ∀ id w, (id, w) ∈ s.peers.sites.rows → Claimable t.mask.pre w
  trimmed : ∀ id w, (id, w) ∈ s.peers.sites.rows → trim w.name = w.name
  inside : ∀ id w, (id, w) ∈ s.peers.sites.rows → t.mask.pre.contains w.address = true
  apart : s.peers.sites.Pairwise (SitesApart lib)
  keys : s.peers.sites.Pairwise fun w w' => w.publicKey ≠ w'.publicKey
  addresses : s.peers.sites.Pairwise fun w w' => w.address ≠ w'.address
  pending : ∀ job ∈ s.jobs, ∀ target w, job.pending = some (target, w) →
    Claimable t.mask.pre w ∧ ∀ id w', (id, w') ∈ s.peers.sites.rows → target ≠ some id →
      SitesApart lib w w'

instance (lib : Lib) (w w' : WGSite) : Decidable (SitesApart lib w w') :=
  decidable_of_iff ((∀ p ∈ siteNetworks w, ∀ q ∈ siteNetworks w', p.overlaps q = false) ∧
      equalFold lib (trim w.name) (trim w'.name) = false)
    ⟨fun h => ⟨h.1, h.2⟩, fun h => ⟨h.networks, h.names⟩⟩

/-- A site is written while every other request that has checked its own keeps apart from it, or
writes the same row. -/
def NotOvertaken (lib : Lib) (s : Desk) (i : Nat) (target : Option Int) (w : WGSite) : Prop :=
  ∀ entry ∈ s.jobs.zipIdx, entry.2 ≠ i → ∀ other ∈ entry.1.pending,
    SitesApart lib w other.2 ∨ (target ≠ none ∧ other.1 = target)

instance (lib : Lib) (s : Desk) (i : Nat) (target : Option Int) (w : WGSite) :
    Decidable (NotOvertaken lib s i target w) :=
  inferInstanceAs (Decidable (∀ entry ∈ s.jobs.zipIdx, entry.2 ≠ i → ∀ other ∈ entry.1.pending,
    SitesApart lib w other.2 ∨ (target ≠ none ∧ other.1 = target)))

def KeepsApart (lib : Lib) (s : Desk) : SiteStep → Prop
  | .create i _ _ | .update i =>
      ∀ job ∈ s.jobs[i]?, ∀ mine ∈ job.pending, NotOvertaken lib s i mine.1 mine.2
  | _ => True

instance (lib : Lib) (s : Desk) : ∀ step, Decidable (KeepsApart lib s step)
  | .create i _ _ | .update i => inferInstanceAs (Decidable (∀ job ∈ s.jobs[i]?,
      ∀ mine ∈ job.pending, NotOvertaken lib s i mine.1 mine.2))
  | .begin _ _ | .readSettings _ | .validate _ _ | .matchKey _ | .delete _ _ =>
      inferInstanceAs (Decidable True)

section Inv

variable {lib : Lib} {t : Tunnel} {s s' : Desk}

theorem SitesApart.symm (hfolds : ∀ c d, lib.folds c d = lib.folds d c) {w w' : WGSite}
    (h : SitesApart lib w w') : SitesApart lib w' w := by
  constructor
  · intro p hp q hq
    rw [Prefix.overlaps_comm]
    exact h.networks q hq p hp
  · rw [equalFold_comm hfolds]
    exact h.names

/-- A request changes its place and writes nothing. -/
theorem SitesInv.set (hinv : SitesInv lib t s) {i : Nat} {job : SiteJob}
    (hjob : ∀ target w, job.pending = some (target, w) → Claimable t.mask.pre w ∧
      ∀ id w', (id, w') ∈ s.peers.sites.rows → target ≠ some id → SitesApart lib w w') :
    SitesInv lib t { s with jobs := s.jobs.set i job } := by
  refine ⟨hinv.claimable, hinv.trimmed, hinv.inside, hinv.apart, hinv.keys, hinv.addresses, ?_⟩
  intro other hother
  rcases List.mem_or_eq_of_mem_set hother with hold | rfl
  · exact hinv.pending other hold
  · exact hjob

/-- A request that begins has nothing pending. -/
theorem SitesInv.begun (hinv : SitesInv lib t s) (target : Option Int) (w : WGSite) :
    SitesInv lib t { s with jobs := s.jobs ++ [.begun target w] } := by
  refine ⟨hinv.claimable, hinv.trimmed, hinv.inside, hinv.apart, hinv.keys, hinv.addresses, ?_⟩
  intro other hother
  rcases List.mem_append.mp hother with hold | hnew
  · exact hinv.pending other hold
  · obtain rfl := List.mem_singleton.mp hnew
    intro target w hpending
    cases hpending

theorem SitesInv.pass (hinv : SitesInv lib t s) {i : Nat} {result : Check Unit} {job : SiteJob}
    (hjob : result = .ok () → ∀ target w, job.pending = some (target, w) → Claimable t.mask.pre w ∧
      ∀ id w', (id, w') ∈ s.peers.sites.rows → target ≠ some id → SitesApart lib w w') :
    SitesInv lib t (s.pass i result job) := by
  unfold Desk.pass
  split
  · exact hinv.set (hjob rfl)
  · refine hinv.set ?_
    intro target w hpending
    cases hpending

/-- Rows that go are in nobody's way. -/
theorem SitesInv.of_rows_subset (hinv : SitesInv lib t s) {peers : Peers}
    (hrows : ∀ row ∈ peers.sites.rows, row ∈ s.peers.sites.rows) :
    SitesInv lib t { s with peers } := by
  constructor
  · intro id w hrow
    exact hinv.claimable id w (hrows _ hrow)
  · intro id w hrow
    exact hinv.trimmed id w (hrows _ hrow)
  · intro id w hrow
    exact hinv.inside id w (hrows _ hrow)
  · intro id w id' w' hrow hrow' hne
    exact hinv.apart id w id' w' (hrows _ hrow) (hrows _ hrow') hne
  · intro id w id' w' hrow hrow' hne
    exact hinv.keys id w id' w' (hrows _ hrow) (hrows _ hrow') hne
  · intro id w id' w' hrow hrow' hne
    exact hinv.addresses id w id' w' (hrows _ hrow) (hrows _ hrow') hne
  · intro job hjob target w hpending
    obtain ⟨hclaimable, hapart⟩ := hinv.pending job hjob target w hpending
    exact ⟨hclaimable, fun id w' hrow => hapart id w' (hrows _ hrow)⟩

/-! ### The row that is written

A write puts one row in the place of another or behind all of them; how the new row stands to
the others was checked before. -/

/-- The row `slot` that a write of `w` makes, among the others. -/
structure Written (t : Tunnel) (old new : Peers) (target : Option Int) (w : WGSite) (slot : Int)
    (row : WGSite) : Prop where
  place : target = none ∨ target = some slot
  networks : row.networks = w.networks
  name : row.name = trim w.name
  rows : ∀ id v, (id, v) ∈ new.sites.rows →
    (id ≠ slot ∧ (id, v) ∈ old.sites.rows) ∨ (id = slot ∧ v = row)
  inside : t.mask.pre.contains row.address = true
  key : ∀ id v, (id, v) ∈ old.sites.rows → id ≠ slot → row.publicKey ≠ v.publicKey
  address : ∀ id v, (id, v) ∈ old.sites.rows → id ≠ slot → row.address ≠ v.address

namespace Written

variable {old new : Peers} {target : Option Int} {w row : WGSite} {slot : Int}

theorem siteNetworks_eq (h : Written t old new target w slot row) :
    siteNetworks row = siteNetworks w := by
  rw [siteNetworks, h.networks, siteNetworks]

theorem apart (h : Written t old new target w slot row) {w' : WGSite}
    (hapart : SitesApart lib w w') :
    SitesApart lib row w' := by
  constructor
  · rw [h.siteNetworks_eq]
    exact hapart.networks
  · rw [h.name, trim_trim]
    exact hapart.names

theorem claimable (h : Written t old new target w slot row) (hw : Claimable t.mask.pre w) :
    Claimable t.mask.pre row := by
  constructor
  · rw [h.networks]
    exact hw.readable
  · rw [h.siteNetworks_eq]
    exact hw.ipv4
  · rw [h.siteNetworks_eq]
    exact hw.allowed

theorem target_ne (h : Written t old new target w slot row) {id : Int} (hid : id ≠ slot) :
    target ≠ some id := by
  rcases h.place with rfl | rfl
  · exact nofun
  · exact fun heq => hid (Option.some.inj heq).symm

/-- A relation that the new row has to the others holds between any two. -/
theorem pairwise (h : Written t old new target w slot row) {R : WGSite → WGSite → Prop}
    (hold : old.sites.Pairwise R) (hsymm : ∀ v v', R v v' → R v' v)
    (hrow : ∀ id v, (id, v) ∈ old.sites.rows → id ≠ slot → R row v) : new.sites.Pairwise R := by
  intro id v id' v' hv hv' hne
  rcases h.rows id v hv with ⟨hid, hv⟩ | ⟨rfl, rfl⟩
  · rcases h.rows id' v' hv' with ⟨-, hv'⟩ | ⟨rfl, rfl⟩
    · exact hold id v id' v' hv hv' hne
    · exact hsymm _ _ (hrow id v hv hid)
  · rcases h.rows id' v' hv' with ⟨hid', hv'⟩ | ⟨rfl, rfl⟩
    · exact hrow id' v' hv' hid'
    · exact absurd rfl hne

end Written

/-- A site that was checked is written, and nobody is overtaken. -/
theorem SitesInv.written (hfolds : ∀ c d, lib.folds c d = lib.folds d c) (hinv : SitesInv lib t s)
    {i : Nat} {job : SiteJob} {target : Option Int} {w row : WGSite} {slot : Int} {peers : Peers}
    (hjob : s.jobs[i]? = some job) (hpending : job.pending = some (target, w))
    (hover : NotOvertaken lib s i target w) (h : Written t s.peers peers target w slot row) :
    SitesInv lib t ⟨peers, s.jobs.set i .ended⟩ := by
  obtain ⟨hclaimable, hapart⟩ := hinv.pending job (List.mem_of_getElem? hjob) target w hpending
  constructor
  · intro id v hv
    rcases h.rows id v hv with ⟨-, hv⟩ | ⟨-, rfl⟩
    · exact hinv.claimable id v hv
    · exact h.claimable hclaimable
  · intro id v hv
    rcases h.rows id v hv with ⟨-, hv⟩ | ⟨-, rfl⟩
    · exact hinv.trimmed id v hv
    · rw [h.name, trim_trim]
  · intro id v hv
    rcases h.rows id v hv with ⟨-, hv⟩ | ⟨-, rfl⟩
    · exact hinv.inside id v hv
    · exact h.inside
  · refine h.pairwise hinv.apart (fun _ _ => SitesApart.symm hfolds) ?_
    intro id v hv hid
    exact h.apart (hapart id v hv (h.target_ne hid))
  · exact h.pairwise hinv.keys (fun _ _ => Ne.symm) h.key
  · exact h.pairwise hinv.addresses (fun _ _ => Ne.symm) h.address
  · intro other hother target' w' hpending'
    obtain ⟨j, hj⟩ := List.mem_iff_getElem?.mp hother
    rcases getElem?_set_eq_some hj with ⟨-, rfl⟩ | ⟨hne, hj⟩
    · cases hpending'
    · obtain ⟨hclaimable', hapart'⟩ :=
        hinv.pending other (List.mem_of_getElem? hj) target' w' hpending'
      refine ⟨hclaimable', fun id v hv htarget => ?_⟩
      rcases h.rows id v hv with ⟨-, hv⟩ | ⟨rfl, rfl⟩
      · exact hapart' id v hv htarget
      · have hentry : (other, j) ∈ s.jobs.zipIdx := List.mem_zipIdx_iff_getElem?.mpr hj
        rcases hover (other, j) hentry hne (target', w') hpending' with hclear | ⟨hsome, hsame⟩
        · exact SitesApart.symm hfolds (h.apart hclear)
        · rcases h.place with hnone | hslot
          · exact absurd hnone hsome
          · exact absurd (hsame.trans hslot) htarget

/-- A new site gets a new row, a key that nobody has and an address that nobody holds. -/
theorem written_create {sealing : Check Unit} {now : Nat} {w : WGSite} {old peers : Peers}
    (h : createWGSite old t.mask.pre sealing now w = .ok peers) :
    ∃ row, Written t old peers none w (old.sites.seq + 1) row := by
  obtain ⟨key, a, db₁, new, hkey, htaken, hnext, hnew, rfl⟩ := createWGSite_eq_ok h
  obtain ⟨hused, -⟩ := nextWGAddress_freed hnext
  refine ⟨new, Or.inl rfl, by rw [hnew], by rw [hnew], ?_, ?_, ?_, ?_⟩
  · intro id v hv
    rcases Table.mem_insert.mp hv with hold | heq
    · have hgiven := (old.sites.keysGiven _ hold).2
      exact Or.inl ⟨by simp only at hgiven; omega, hold⟩
    · exact Or.inr (Prod.mk.inj heq)
  · have hcontains := contains_nextWGAddress hnext
    rw [masked_mask] at hcontains
    rw [hnew]
    exact hcontains
  · intro id v hv _ heq
    have hsame : v.publicKey = key := by rw [← heq, hnew]
    have hin : publicKeyTaken old key = true := publicKeyTaken_iff.mpr (Or.inl ⟨id, v, hv, hsame⟩)
    rw [htaken] at hin
    cases hin
  · intro id v hv _ heq
    have hheld : old.addressOf (.site id) = some a := by
      rw [addressOf_site hv, ← heq, hnew]
    have hin : old.used a = true := used_iff.mpr ⟨_, hheld⟩
    rw [hused] at hin
    cases hin

/-- An update keeps the key and the address of its row. -/
theorem written_update (hinv : SitesInv lib t s) {id : Int} {w : WGSite} {peers : Peers}
    (h : updateRow s.peers id w = .ok peers) :
    ∃ row, Written t s.peers peers (some id) w id row := by
  unfold updateRow at h
  split at h
  · cases h
  · rename_i cur hcur
    simp only [bind_eq_ok, refuseIf_eq_ok, pure_eq_ok] at h
    obtain ⟨-, -, rfl⟩ := h
    have hrow := Table.lookup_eq_some.mp hcur
    refine ⟨{ cur with
      name := trim w.name, networks := w.networks, endpoint := w.endpoint
      keepalive := w.keepalive, enabled := w.enabled, allowOwnOverlap := w.allowOwnOverlap },
      Or.inr rfl, rfl, rfl, ?_, hinv.inside id cur hrow, ?_, ?_⟩
    · intro id' v hv
      rcases Table.mem_modify.mp hv with ⟨hne, hold⟩ | ⟨heq, prev, hprev, hv⟩
      · exact Or.inl ⟨hne, hold⟩
      · have hsame : cur = prev :=
          Option.some.inj (hcur.symm.trans (Table.lookup_eq_some.mpr hprev))
        subst hsame
        exact Or.inr ⟨heq, hv⟩
    · intro id' v hv hne
      exact hinv.keys id cur id' v hrow hv (Ne.symm hne)
    · intro id' v hv hne
      exact hinv.addresses id cur id' v hrow hv (Ne.symm hne)

theorem SitesInv.write (hfolds : ∀ c d, lib.folds c d = lib.folds d c) (hinv : SitesInv lib t s)
    {i : Nat} {job : SiteJob} {target : Option Int} {w : WGSite} {result : Check Peers}
    (hjob : s.jobs[i]? = some job) (hpending : job.pending = some (target, w))
    (hover : NotOvertaken lib s i target w)
    (h : ∀ peers, result = .ok peers → ∃ slot row, Written t s.peers peers target w slot row) :
    SitesInv lib t (s.write i result) := by
  unfold Desk.write
  split
  · rename_i peers
    obtain ⟨slot, row, hwritten⟩ := h peers rfl
    exact hinv.written hfolds hjob hpending hover hwritten
  · refine hinv.set ?_
    intro target w hnone
    cases hnone

/-- Every row is listed by a check, so a site that passes keeps apart from all of them. -/
theorem SitesInv.validated (hfolds : ∀ c d, lib.folds c d = lib.folds d c) (hinv : SitesInv lib t s)
    {serverPublicKey : String} {env : Surroundings} {target : Option Int} {w : WGSite}
    (h : validateWGSite lib t.mask.pre serverPublicKey env s.peers (target.getD 0) w = .ok ()) :
    Claimable t.mask.pre w ∧ ∀ id w', (id, w') ∈ s.peers.sites.rows → target ≠ some id →
      SitesApart lib w w' := by
  obtain ⟨hclaimable, hapart⟩ := validateWGSite_eq_ok hfolds h
  refine ⟨hclaimable, fun id w' hrow htarget => ?_⟩
  refine hapart id w' hrow ?_ (hinv.claimable id w' hrow).readable
  rintro rfl
  cases target with
  | none =>
      have hgiven := (s.peers.sites.keysGiven _ hrow).1
      simp at hgiven
  | some id => exact htarget rfl

theorem sitesInv_step (hfolds : ∀ c d, lib.folds c d = lib.folds d c) {serverPublicKey : String}
    {step : SiteStep} (hinv : SitesInv lib t s) (hkeeps : KeepsApart lib s step)
    (h : s.step lib t.mask.pre serverPublicKey step = some s') : SitesInv lib t s' := by
  cases step with
  | begin target w =>
      cases target with
      | none =>
          obtain rfl := Option.some.inj h
          exact hinv.begun none _
      | some id =>
          obtain ⟨cur, -, rfl⟩ := Option.map_eq_some_iff.mp h
          exact hinv.begun (some id) _
  | readSettings i =>
      simp only [Desk.step] at h
      split at h
      · obtain rfl := Option.some.inj h
        refine hinv.set ?_
        intro target w hpending
        cases hpending
      · cases h
  | validate i env =>
      simp only [Desk.step] at h
      split at h
      · rename_i target w hjob
        obtain rfl := Option.some.inj h
        refine hinv.pass ?_
        intro hvalid target' w' hpending
        obtain ⟨rfl, rfl⟩ := Prod.mk.inj (Option.some.inj hpending)
        exact hinv.validated hfolds hvalid
      · cases h
  | create i sealing now =>
      simp only [Desk.step] at h
      split at h
      · rename_i w hjob
        obtain rfl := Option.some.inj h
        refine hinv.write hfolds hjob rfl (hkeeps _ hjob (none, w) rfl) ?_
        intro peers hcreate
        obtain ⟨row, hwritten⟩ := written_create hcreate
        exact ⟨_, row, hwritten⟩
      · cases h
  | matchKey i =>
      simp only [Desk.step] at h
      split at h
      · rename_i id w hjob
        obtain rfl := Option.some.inj h
        refine hinv.pass ?_
        intro _ target' w' hpending
        obtain ⟨rfl, rfl⟩ := Prod.mk.inj (Option.some.inj hpending)
        exact hinv.pending _ (List.mem_of_getElem? hjob) _ _ rfl
      · cases h
  | update i =>
      simp only [Desk.step] at h
      split at h
      · rename_i id w hjob
        obtain rfl := Option.some.inj h
        refine hinv.write hfolds hjob rfl (hkeeps _ hjob (some id, w) rfl) ?_
        intro peers hupdate
        obtain ⟨row, hwritten⟩ := written_update hinv hupdate
        exact ⟨id, row, hwritten⟩
      · cases h
  | delete users id =>
      simp only [Desk.step] at h
      split at h
      · rename_i peers hdelete
        obtain rfl := Option.some.inj h
        obtain ⟨site, -, rfl⟩ := deleteWGSite_eq_ok hdelete
        exact hinv.of_rows_subset fun row hrow => (Table.mem_delete.mp hrow).2
      · obtain rfl := Option.some.inj h
        exact hinv

theorem sitesInv_start : SitesInv lib t .start := by
  constructor
  · intro id w hrow
    cases hrow
  · intro id w hrow
    cases hrow
  · intro id w hrow
    cases hrow
  · exact Table.Pairwise.empty
  · exact Table.Pairwise.empty
  · exact Table.Pairwise.empty
  · intro job hjob
    cases hjob

end Inv

/-! ### The configuration of the endpoint

The endpoint parses the stored texts anew, in its own way, so what it reads must be related to
what was checked. -/

/-- `wgSite`: a stored site as the endpoint is given it, unless its preshared key or one of its
networks cannot be read. -/
def wgSite (psk : Int → String) (row : Int × WGSite) : Option Site :=
  if psk row.1 = "" then none
  else (row.2.networks.mapM fun n => (parsePrefix n.toList).map Prefix.masked).map fun networks =>
    { id := row.1, name := row.2.name, publicKey := row.2.publicKey, presharedKey := psk row.1
      address := row.2.address, networks, endpoint := row.2.endpoint, keepalive := row.2.keepalive
      enabled := row.2.enabled }

/-- The sites of the configuration that `syncWireGuard` applies. -/
def configSites (psk : Int → String) (db : Peers) : List Site :=
  (listWGSites db).filterMap (wgSite psk)

section Config

variable {lib : Lib} {t : Tunnel} {psk : Int → String}

theorem isSpace_of_prefixChar {c : Char} (h : c.isDigit = true ∨ c = '.' ∨ c = '/') :
    isSpace c = false := by
  rcases h with hdigit | rfl | rfl
  · have hrange : 48 ≤ c.toNat ∧ c.toNat ≤ 57 := by
      simp only [Char.isDigit, Bool.and_eq_true, decide_eq_true_eq,
        UInt32.le_iff_toNat_le] at hdigit
      exact hdigit
    rw [Bool.eq_false_iff]
    intro hspace
    simp only [isSpace, Bool.or_eq_true, Bool.and_eq_true, decide_eq_true_eq, List.mem_cons,
      List.not_mem_nil, or_false] at hspace
    rcases hspace with hlisted | ⟨hlow, -⟩
    · rcases hlisted with
        rfl | rfl | rfl | rfl | rfl | rfl | rfl | rfl | rfl | rfl | rfl | rfl | rfl | rfl
      all_goals exact absurd hrange (by decide)
    · omega
  · decide
  · decide

theorem is4_of_masked {p : Prefix} (h : p.masked.ip.is4 = true) : p.ip.is4 = true := by
  cases hip : p.ip with
  | v4 x => rfl
  | v6 x zone =>
      rw [Prefix.masked, hip] at h
      split at h
      · rename_i hvalid
        have hle := Prefix.len_le hvalid
        rw [hip] at hle
        rw [(toPrefix_v6 hle).1] at h
        cases h
      · cases h
  | zero =>
      rw [Prefix.masked, hip] at h
      split at h <;> cases h

/-- The endpoint does not trim the text of a network. It reads the network that was checked, or
none. -/
theorem readNetwork_eq {n : String} {p q : Prefix} (hread : readNetwork n = some p)
    (h4 : p.ip.is4 = true) (hparse : parsePrefix n.toList = some q) : q.masked = p := by
  obtain ⟨checked, hchecked, rfl⟩ := Option.map_eq_some_iff.mp hread
  have hspelled : ∀ c ∈ trimSpace n.toList, c.isDigit = true ∨ c = '.' ∨ c = '/' := by
    rcases mem_parsePrefix hchecked with ⟨-, hchars⟩ | ⟨h6, -⟩
    · exact hchars
    · rw [is4_of_masked h4] at h6
      cases h6
  rcases mem_parsePrefix hparse with ⟨-, hchars⟩ | ⟨-, hcolon⟩
  · have hsame : trimSpace n.toList = n.toList :=
      trimSpace_of_forall fun c hc => isSpace_of_prefixChar (hchars c hc)
    rw [hsame, hparse] at hchecked
    rw [Option.some.inj hchecked]
  · rcases mem_trimSpace_or_isSpace hcolon with hmem | hspace
    · exact absurd (hspelled ':' hmem) (by decide)
    · exact absurd hspace (by decide)

/-- A site of the configuration is a stored one, with networks that were checked. -/
theorem wgSite_eq_some {row : Int × WGSite} {site : Site} (hrow : Claimable t.mask.pre row.2)
    (h : wgSite psk row = some site) :
    site.id = row.1 ∧ site.address = row.2.address ∧
      ∀ p ∈ site.networks, p ∈ siteNetworks row.2 := by
  unfold wgSite at h
  split at h
  · cases h
  · obtain ⟨networks, hnetworks, rfl⟩ := Option.map_eq_some_iff.mp h
    refine ⟨rfl, rfl, fun p hp => ?_⟩
    obtain ⟨n, hn, hp⟩ := exists_of_forall₂_right (forall₂_of_mapM hnetworks) hp
    obtain ⟨q, hq, rfl⟩ := Option.map_eq_some_iff.mp hp
    obtain ⟨checked, hchecked⟩ := hrow.readable n hn
    have hmem : checked ∈ siteNetworks row.2 := List.mem_filterMap.mpr ⟨n, hn, hchecked⟩
    rw [readNetwork_eq hchecked (hrow.ipv4 checked hmem).2 hq]
    exact hmem

theorem sublist_dropSameKey (seen : List (List UInt8)) (peers : List ManagedPeer) :
    (WgManager.dropSameKey seen peers).Sublist peers := by
  induction peers generalizing seen with
  | nil => exact .slnil
  | cons p rest ih =>
      unfold WgManager.dropSameKey
      split
      · exact (ih seen).cons_cons p
      · split
        · exact (ih seen).cons p
        · exact (ih _).cons_cons p

theorem exists_v4_of_inside {a : Addr} (h : t.mask.pre.contains a = true) : ∃ x, a = .v4 x := by
  cases a with
  | v4 x => exact ⟨x, rfl⟩
  | v6 x zone => simp [Prefix.contains, t.mask.ip_eq] at h
  | zero => simp [Prefix.contains, t.mask.ip_eq] at h

/-- An address of the tunnel is in no network that a site may claim. -/
theorem single_apart {x : BitVec 32} {w : WGSite} {p : Prefix}
    (hin : t.mask.pre.contains (.v4 x) = true) (hw : Claimable t.mask.pre w)
    (hp : p ∈ siteNetworks w) : (prefixFrom (.v4 x) 32).overlaps p = false := by
  rw [Bool.eq_false_iff]
  intro hover
  have hboth := Prefix.overlaps_of_contains (contains_of_overlaps_single hover) hin
  rw [(hw.allowed p hp).1] at hboth
  cases hboth

theorem singles_apart {x y : BitVec 32} (h : x ≠ y) :
    (prefixFrom (.v4 x) 32).overlaps (prefixFrom (.v4 y) 32) = false := by
  rw [Bool.eq_false_iff]
  intro hover
  have hcontains := contains_of_overlaps_single hover
  obtain ⟨hip, -, hlen⟩ := @prefixFrom_of_le (.v4 y) 32 rfl (le_refl 32)
  obtain ⟨-, hagree⟩ := (Prefix.contains_v4_iff hip).mp hcontains
  rw [hlen, agree_iff] at hagree
  exact h (BitVec.eq_of_getLsbD_eq fun i _ => (hagree i (by omega)).symm)

/-- What two stored sites own does not overlap. -/
theorem prefixes_apart {s : Desk} (hinv : SitesInv lib t s) {row row' : Int × WGSite}
    (hrow : row ∈ s.peers.sites.rows) (hrow' : row' ∈ s.peers.sites.rows) (hne : row.1 ≠ row'.1)
    {site site' : Site} (hsite : wgSite psk row = some site)
    (hsite' : wgSite psk row' = some site') :
    ∀ a ∈ (WgManager.sitePeer site).prefixes, ∀ b ∈ (WgManager.sitePeer site').prefixes,
      a.overlaps b = false := by
  have hclaim := hinv.claimable row.1 row.2 hrow
  have hclaim' := hinv.claimable row'.1 row'.2 hrow'
  obtain ⟨-, haddress, hnetworks⟩ := wgSite_eq_some hclaim hsite
  obtain ⟨-, haddress', hnetworks'⟩ := wgSite_eq_some hclaim' hsite'
  have hinside := hinv.inside row.1 row.2 hrow
  have hinside' := hinv.inside row'.1 row'.2 hrow'
  have hsingles := hinv.addresses row.1 row.2 row'.1 row'.2 hrow hrow' hne
  have hapart := hinv.apart row.1 row.2 row'.1 row'.2 hrow hrow' hne
  rw [← haddress] at hinside hsingles
  rw [← haddress'] at hinside' hsingles
  obtain ⟨x, hx⟩ := exists_v4_of_inside hinside
  obtain ⟨y, hy⟩ := exists_v4_of_inside hinside'
  rw [hx] at hinside hsingles
  rw [hy] at hinside' hsingles
  intro a ha b hb
  simp only [ManagedPeer.prefixes, WgManager.sitePeer, hx, Addr.bitLen] at ha
  simp only [ManagedPeer.prefixes, WgManager.sitePeer, hy, Addr.bitLen] at hb
  have hmasked : ∀ {w : WGSite} {nets : List Prefix}, (∀ p ∈ nets, p ∈ siteNetworks w) →
      ∀ {a : Prefix}, a ∈ nets.map Prefix.masked → a ∈ siteNetworks w := by
    intro w nets hall a hmem
    obtain ⟨p, hp, rfl⟩ := List.mem_map.mp hmem
    rw [masked_of_mem_siteNetworks (hall p hp)]
    exact hall p hp
  rcases List.mem_cons.mp ha with rfl | ha
  · rcases List.mem_cons.mp hb with rfl | hb
    · exact singles_apart fun heq => hsingles (heq ▸ rfl)
    · exact single_apart hinside hclaim' (hmasked hnetworks' hb)
  · rcases List.mem_cons.mp hb with rfl | hb
    · rw [Prefix.overlaps_comm]
      exact single_apart hinside' hclaim (hmasked hnetworks ha)
    · exact hapart.networks a (hmasked hnetworks ha) b (hmasked hnetworks' hb)

theorem siteKey_injective {id id' : Int} (hid : 0 ≤ id) (hid' : 0 ≤ id')
    (h : WgManager.siteKey id = WgManager.siteKey id') : id = id' := by
  obtain ⟨n, rfl⟩ := Int.eq_ofNat_of_zero_le hid
  obtain ⟨m, rfl⟩ := Int.eq_ofNat_of_zero_le hid'
  have hlist := congrArg String.toList h
  rw [WgManager.siteKey, WgManager.siteKey, String.toList_append, String.toList_append] at hlist
  have hdigits := List.append_cancel_left hlist
  have htext : ∀ k : Nat, (toString (k : Int)).toList = itoa k := by
    intro k
    change (Nat.repr k).toList = _
    rw [Nat.repr]
    exact String.toList_ofList
  rw [htext, htext] at hdigits
  rw [Store.itoa_injective hdigits]

/-- The peers that the configuration asks for have different keys. -/
theorem nodup_wanted {db : Peers} {cfg : Config} (hsites : cfg.sites = configSites psk db)
    (hdevices : cfg.devices = []) : ((WgManager.wanted cfg).map ManagedPeer.key).Nodup := by
  have hid : ∀ {row : Int × WGSite} {site : Site}, wgSite psk row = some site →
    site.id = row.1 := by
    intro row site h
    unfold wgSite at h
    split at h
    · cases h
    · obtain ⟨_, -, rfl⟩ := Option.map_eq_some_iff.mp h
      rfl
  have hrows : (listWGSites db).Pairwise fun row row' => 0 < row.1 ∧ 0 < row'.1 ∧
    row.1 ≠ row'.1 := by
    have hperm := List.perm_insertionSort
      (fun row row' : Int × WGSite => noCase row.2.name ≤ noCase row'.2.name) db.sites.rows
    refine (hperm.pairwise_iff ?_).mpr ?_
    · rintro row row' ⟨hpos, hpos', hne⟩
      exact ⟨hpos', hpos, Ne.symm hne⟩
    · refine (List.pairwise_map.mp db.sites.keysUnique).imp_of_mem ?_
      intro row row' hrow hrow' hne
      exact ⟨(db.sites.keysGiven row hrow).1, (db.sites.keysGiven row' hrow').1, hne⟩
  have hkeys : (cfg.sites.filter (·.enabled)).Pairwise fun site site' =>
      (WgManager.sitePeer site).key ≠ (WgManager.sitePeer site').key := by
    refine List.Pairwise.filter _ ?_
    rw [hsites, configSites]
    refine List.Pairwise.filterMap _ ?_ hrows
    rintro row row' ⟨hpos, hpos', hne⟩ site hsite site' hsite' hkey
    rw [WgManager.sitePeer, WgManager.sitePeer, hid hsite, hid hsite'] at hkey
    exact hne (siteKey_injective (by omega) (by omega) hkey)
  have hall :
    (((cfg.sites.filter (·.enabled)).map WgManager.sitePeer).map ManagedPeer.key).Nodup := by
    rw [List.map_map]
    exact List.pairwise_map.mpr hkeys
  have hsorted := (List.perm_insertionSort (fun p q : ManagedPeer => p.key ≤ q.key)
    ((cfg.sites.filter (·.enabled)).map WgManager.sitePeer)).map ManagedPeer.key
  have hsub :=
    (sublist_dropSameKey [] (((cfg.sites.filter (·.enabled)).map WgManager.sitePeer).insertionSort
    fun p q => p.key ≤ q.key)).map ManagedPeer.key
  rw [WgManager.wanted, hdevices, List.map_nil, List.append_nil]
  exact (hsorted.nodup_iff.mpr hall).sublist hsub

/-- The configuration that is made of the stored sites is disjoint. -/
theorem disjoint_configSites {s : Desk} (hinv : SitesInv lib t s) {cfg : Config}
    (hsites : cfg.sites = configSites psk s.peers) (hdevices : cfg.devices = []) :
    WgManager.Disjoint cfg := by
  have hmem : ∀ p ∈ WgManager.wanted cfg, ∃ row site, row ∈ s.peers.sites.rows ∧
      wgSite psk row = some site ∧ p = WgManager.sitePeer site := by
    intro p hp
    have hp' := (List.mem_insertionSort _).mp ((sublist_dropSameKey [] _).subset hp)
    rw [hdevices, List.map_nil, List.append_nil] at hp'
    obtain ⟨site, hsite, rfl⟩ := List.mem_map.mp hp'
    have hlisted := List.mem_of_mem_filter hsite
    rw [hsites] at hlisted
    obtain ⟨row, hrow, hrowSite⟩ := List.mem_filterMap.mp hlisted
    exact ⟨row, site, (List.mem_insertionSort _).mp hrow, hrowSite, rfl⟩
  constructor
  · exact nodup_wanted hsites hdevices
  · intro p hp q hq hkey
    obtain ⟨row, site, hrow, hsite, rfl⟩ := hmem p hp
    obtain ⟨row', site', hrow', hsite', rfl⟩ := hmem q hq
    refine prefixes_apart hinv hrow hrow' ?_ hsite hsite'
    intro hid
    have hsid := (wgSite_eq_some (hinv.claimable row.1 row.2 hrow) hsite).1
    have hsid' := (wgSite_eq_some (hinv.claimable row'.1 row'.2 hrow') hsite').1
    exact hkey (by simp [WgManager.sitePeer, hsid, hsid', hid])

end Config

/-! ### Runs

The stored sites of every state, and what the endpoint is given there. -/

/-- What the stored sites are to each other, to the tunnel network and to the ranges that no site
may claim, and what the endpoint is given. -/
structure SitesDisjoint (lib : Lib) (tunnel : Prefix) (db : Peers) : Prop where
  networks : db.sites.Pairwise fun w w' =>
    ∀ p ∈ siteNetworks w, ∀ q ∈ siteNetworks w', p.overlaps q = false
  names : db.sites.Pairwise fun w w' => equalFold lib w.name w'.name = false
  keys : db.sites.Pairwise fun w w' => w.publicKey ≠ w'.publicKey
  readable : ∀ id w, (id, w) ∈ db.sites.rows → ∀ n ∈ w.networks, ∃ p, readNetwork n = some p
  allowed : ∀ id w, (id, w) ∈ db.sites.rows → ∀ p ∈ siteNetworks w,
    p.overlaps tunnel = false ∧ ∀ bad ∈ never, p.overlaps bad = false
  config : ∀ psk (cfg : Config), cfg.sites = configSites psk db → cfg.devices = [] →
    WgManager.Disjoint cfg

theorem SitesInv.disjoint {lib : Lib} {t : Tunnel} {s : Desk} (hinv : SitesInv lib t s) :
    SitesDisjoint lib t.mask.pre s.peers := by
  constructor
  · intro id w id' w' hrow hrow' hne
    exact (hinv.apart id w id' w' hrow hrow' hne).networks
  · intro id w id' w' hrow hrow' hne
    have hnames := (hinv.apart id w id' w' hrow hrow' hne).names
    rwa [hinv.trimmed id w hrow, hinv.trimmed id' w' hrow'] at hnames
  · exact hinv.keys
  · intro id w hrow
    exact (hinv.claimable id w hrow).readable
  · intro id w hrow
    exact (hinv.claimable id w hrow).allowed
  · intro psk cfg hsites hdevices
    exact disjoint_configSites hinv hsites hdevices

/-- Runs from an empty table in which no site is written that is in the way of a request that has
already checked its own: the stored sites are disjoint in every state. -/
theorem sites_stay_disjoint (lib : Lib) (hfolds : ∀ c d, lib.folds c d = lib.folds d c) (t : Tunnel)
    (serverPublicKey : String) (steps : List SiteStep) (s : Desk)
    (hkeeps : RunMeets (Desk.step lib t.mask.pre serverPublicKey) (KeepsApart lib) .start steps)
    (hrun : run (Desk.step lib t.mask.pre serverPublicKey) .start steps = some s) :
    SitesDisjoint lib t.mask.pre s.peers :=
  (hkeeps.invariant (fun _ _ _ hs hallowed hstep => sitesInv_step hfolds hs hallowed hstep)
    sitesInv_start hrun).disjoint

/-! ### Two requests at a time

The same two sites, one after the other and side by side. -/

def siteOf (name key network : String) : WGSite :=
  { office with name, publicKey := key, networks := [network] }

def keyOne : String := "AQEBAQEBAQEBAQEBAQEBAQEBAQEBAQEBAQEBAQEBAQE="
def keyTwo : String := "AgICAgICAgICAgICAgICAgICAgICAgICAgICAgICAgI="
def keyThree : String := "AwMDAwMDAwMDAwMDAwMDAwMDAwMDAwMDAwMDAwMDAwM="

def alone : Surroundings := ⟨.ok (), keyThree, []⟩

/-- Two sites with their requests one after the other. -/
def oneAfterTheOther : List SiteStep :=
  [.begin none (siteOf "office" keyOne "192.168.50.0/24"), .readSettings 0, .validate 0 alone,
    .create 0 (.ok ()) 1, .begin none (siteOf "lab" keyTwo "192.168.51.0/24"), .readSettings 1,
    .validate 1 alone, .create 1 (.ok ()) 2]

/-- Two requests that both list the sites before one of them writes. -/
def sideBySide : List SiteStep :=
  [.begin none (siteOf "office" keyOne "192.168.0.0/16"), .readSettings 0,
    .begin none (siteOf "lab" keyTwo "192.168.51.0/24"), .readSettings 1, .validate 0 alone,
    .validate 1 alone, .create 0 (.ok ()) 1, .create 1 (.ok ()) 2]

theorem sites_stay_disjoint_two : ∃ s,
    run (Desk.step Store.asciiLib smallTunnel.mask.pre keyThree) .start oneAfterTheOther = some s ∧
      s.peers.sites.rows.length = 2 ∧
      SitesDisjoint Store.asciiLib smallTunnel.mask.pre s.peers := by
  obtain ⟨s, hrun, hlen⟩ : ∃ s,
      run (Desk.step Store.asciiLib smallTunnel.mask.pre keyThree) .start oneAfterTheOther =
        some s ∧
        s.peers.sites.rows.length = 2 := Option.map_eq_some_iff.mp (by decide +kernel)
  refine ⟨s, hrun, hlen, ?_⟩
  exact sites_stay_disjoint Store.asciiLib (fun _ _ => rfl) smallTunnel keyThree oneAfterTheOther s
    (by decide +kernel) hrun

/-- Each of two requests is valid against the sites that it listed, and both are stored. -/
theorem overtaken_sites_overlap : ∃ s,
    run (Desk.step Store.asciiLib smallTunnel.mask.pre keyThree) .start sideBySide = some s ∧
      ¬ SitesDisjoint Store.asciiLib smallTunnel.mask.pre s.peers := by
  obtain ⟨s, hrun, hstate⟩ : ∃ s,
      run (Desk.step Store.asciiLib smallTunnel.mask.pre keyThree) .start sideBySide = some s ∧
        s.peers.sites.rows.map (fun row => (row.1, siteNetworks row.2)) =
          [(1, [prefixFrom (.v4 0xc0a80000#32) 16]), (2, [prefixFrom (.v4 0xc0a83300#32) 24])] :=
    Option.map_eq_some_iff.mp (by decide +kernel)
  refine ⟨s, hrun, fun h => ?_⟩
  have hrow : ∀ id nets,
    (id, nets) ∈ s.peers.sites.rows.map (fun row => (row.1, siteNetworks row.2)) →
      ∃ w, (id, w) ∈ s.peers.sites.rows ∧ siteNetworks w = nets := by
    intro id nets hmem
    obtain ⟨row, hrow, heq⟩ := List.mem_map.mp hmem
    obtain ⟨rfl, rfl⟩ := Prod.mk.inj heq
    exact ⟨row.2, hrow, rfl⟩
  obtain ⟨w, hw, hnets⟩ := hrow 1 [prefixFrom (.v4 0xc0a80000#32) 16] (by rw [hstate]; decide)
  obtain ⟨w', hw', hnets'⟩ := hrow 2 [prefixFrom (.v4 0xc0a83300#32) 24] (by rw [hstate]; decide)
  have hnone := h.networks 1 w 2 w' hw hw' (by decide) (prefixFrom (.v4 0xc0a80000#32) 16)
    (by rw [hnets]; exact List.mem_singleton_self _) (prefixFrom (.v4 0xc0a83300#32) 24)
    (by rw [hnets']; exact List.mem_singleton_self _)
  exact absurd hnone (by decide)

end Quicgate.Wg
