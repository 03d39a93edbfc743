import Quicgate.TransitionSystem
import Quicgate.WgPeers

/-!
# One key, one peer

Inside WireGuard a key is its 32 bytes, and one key is one peer.  The tables keep keys
apart as texts; `canonicaliseWGKeys` rewrites the spellings that an older version left.
Sites and devices are seen here as peers of one kind, `Peers.find`, and opening the
store as a walk over them.

`one_key_one_peer` is about a database of an older version that is opened and then used: the
oldest peer of every key keeps it, and from then on one key is one peer.  The condition is on
the keys as the older version left them (`KeysReadable`); `loose_spelling_stays` is a
database that does not meet it.
-/

namespace Quicgate.Wg

open Quicgate.Checks Quicgate.Sql Quicgate.TransitionSystem
open Quicgate.Store (Lib trim)

/-! ### Sites and devices as peers

A site is switched off by disabling it, a device by revoking it; a view of the tables gives
the peer at each place. -/

inductive PeerId where
  | site (id : Int)
  | device (id : Int)
deriving DecidableEq, Repr

/-- What a row says about its key and whether it is in use. -/
structure Peer where
  isSite : Bool
  key : String
  enabled : Bool
  revoked : Bool
  createdAt : Nat
deriving DecidableEq, Repr

namespace Peer

def usable (p : Peer) : Bool := p.enabled && !p.revoked

def off (p : Peer) : Bool := if p.isSite then !p.enabled else p.revoked

def switchOff (p : Peer) : Peer :=
  if p.isSite then { p with enabled := false }
  else if p.revoked then p
  else { p with enabled := false, revoked := true }

theorem usable_of_off {p : Peer} (h : p.off = true) : p.usable = false := by
  unfold off at h
  unfold usable
  split at h <;> simp_all

theorem off_switchOff (p : Peer) : p.switchOff.off = true := by
  unfold switchOff off
  split
  · simp_all
  · split <;> simp_all

@[simp] theorem key_switchOff (p : Peer) : p.switchOff.key = p.key := by
  unfold switchOff
  split
  · rfl
  · split <;> rfl

end Peer

def WGSite.peer (w : WGSite) : Peer := ⟨true, w.publicKey, w.enabled, false, w.createdAt⟩

def WGDevice.peer (d : WGDevice) : Peer := ⟨false, d.publicKey, d.enabled, d.revoked, d.createdAt⟩

/-- The peers by their place in the tables. -/
abbrev View := PeerId → Option Peer

def View.set (v : View) (p : PeerId) (peer : Peer) : View :=
  fun q => if q = p then some peer else v q

theorem View.set_eq_some {v : View} {p q : PeerId} {peer other : Peer}
    (h : v.set p peer q = some other) : (q = p ∧ other = peer) ∨ (q ≠ p ∧ v q = some other) := by
  unfold View.set at h
  split at h
  · exact Or.inl ⟨‹_›, (Option.some.inj h).symm⟩
  · exact Or.inr ⟨‹_›, h⟩

@[simp] theorem View.set_self (v : View) (p : PeerId) (peer : Peer) :
    v.set p peer p = some peer := by
  simp [View.set]

theorem View.set_of_ne {v : View} {p q : PeerId} {peer : Peer} (h : q ≠ p) :
    v.set p peer q = v q := by
  simp [View.set, h]

def View.Taken (v : View) (key : String) : Prop := ∃ p peer, v p = some peer ∧ peer.key = key

def Peers.find (db : Peers) : View
  | .site id => (db.sites.lookup id).map WGSite.peer
  | .device id => (db.devices.lookup id).map WGDevice.peer

section Find

variable {db : Peers} {id : Int}

theorem taken_iff {key : String} : publicKeyTaken db key = true ↔ db.find.Taken key := by
  rw [publicKeyTaken_iff]
  constructor
  · rintro (⟨id, w, hrow, hkey⟩ | ⟨id, d, hrow, hkey⟩)
    · exact ⟨.site id, w.peer, by simp [Peers.find, Table.lookup_eq_some.mpr hrow], hkey⟩
    · exact ⟨.device id, d.peer, by simp [Peers.find, Table.lookup_eq_some.mpr hrow], hkey⟩
  · rintro ⟨p, peer, hfind, hkey⟩
    cases p with
    | site id =>
        obtain ⟨w, hw, rfl⟩ := Option.map_eq_some_iff.mp hfind
        exact Or.inl ⟨id, w, Table.lookup_eq_some.mp hw, hkey⟩
    | device id =>
        obtain ⟨d, hd, rfl⟩ := Option.map_eq_some_iff.mp hfind
        exact Or.inr ⟨id, d, Table.lookup_eq_some.mp hd, hkey⟩

theorem find_site {w : WGSite} (h : (id, w) ∈ db.sites.rows) :
    db.find (.site id) = some w.peer := by
  simp [Peers.find, Table.lookup_eq_some.mpr h]

theorem find_device {d : WGDevice} (h : (id, d) ∈ db.devices.rows) :
    db.find (.device id) = some d.peer := by
  simp [Peers.find, Table.lookup_eq_some.mpr h]

theorem find_insertSite {db₁ : Peers} (hframe : db₁.devices = db.devices) (w : WGSite) :
    Peers.find { db₁ with sites := db.sites.insert w } = db.find.set (.site (db.sites.seq + 1))
      w.peer := by
  funext q
  cases q with
  | site id =>
      simp only [Peers.find, Table.lookup_insert, View.set, PeerId.site.injEq]
      split <;> rfl
  | device id => simp [Peers.find, View.set, hframe]

theorem find_insertDevice {db₁ : Peers} (hframe : db₁.sites = db.sites) (d : WGDevice) :
    Peers.find { db₁ with devices := db.devices.insert d } =
      db.find.set (.device (db.devices.seq + 1)) d.peer := by
  funext q
  cases q with
  | device id =>
      simp only [Peers.find, Table.lookup_insert, View.set, PeerId.device.injEq]
      split <;> rfl
  | site id => simp [Peers.find, View.set, hframe]

theorem find_modifySite {w : WGSite} {f : WGSite → WGSite} (h : (id, w) ∈ db.sites.rows) :
    Peers.find { db with sites := db.sites.modify id f } = db.find.set (.site id) (f w).peer := by
  have hlook := Table.lookup_eq_some.mpr h
  funext q
  cases q with
  | site id' =>
      simp only [Peers.find, Table.lookup_modify, View.set, PeerId.site.injEq]
      split
      · rename_i heq
        simp [heq, hlook]
      · rfl
  | device id' => simp [Peers.find, View.set]

theorem find_modifyDevice {d : WGDevice} {f : WGDevice → WGDevice} {freed : List Netip.Addr}
    (h : (id, d) ∈ db.devices.rows) :
    Peers.find { db with devices := db.devices.modify id f, freed } =
      db.find.set (.device id) (f d).peer := by
  have hlook := Table.lookup_eq_some.mpr h
  funext q
  cases q with
  | device id' =>
      simp only [Peers.find, Table.lookup_modify, View.set, PeerId.device.injEq]
      split
      · rename_i heq
        simp [heq, hlook]
      · rfl
  | site id' => simp [Peers.find, View.set]

end Find

/-! ### Canonical texts

Whether a text is canonical can be told from the text alone. -/

/-- The text is the one that is stored and compared. -/
def Canonical (key : String) : Prop := canonicalWGKey key = .ok key

section Keys

variable {key key' text : String}

theorem canonical_of_ok (h : canonicalWGKey key = .ok text) : Canonical text := by
  obtain ⟨raw, hlen, -, rfl⟩ := canonicalWGKey_eq_ok h
  exact canonicalWGKey_keyText hlen

theorem keyBytes_of_ok (h : canonicalWGKey key = .ok text) : keyBytes text = keyBytes key := by
  obtain ⟨raw, hlen, hbytes, rfl⟩ := canonicalWGKey_eq_ok h
  rw [hbytes, keyBytes_keyText hlen]

/-- The canonical text of a key is determined by its bytes. -/
theorem canonicalWGKey_unique {text' : String} (h : canonicalWGKey key = .ok text)
    (h' : canonicalWGKey key' = .ok text') (hbytes : keyBytes key = keyBytes key') :
    text = text' := by
  obtain ⟨raw, -, hraw, rfl⟩ := canonicalWGKey_eq_ok h
  obtain ⟨raw', -, hraw', rfl⟩ := canonicalWGKey_eq_ok h'
  rw [hraw, hraw'] at hbytes
  rw [Option.some.inj hbytes]

end Keys

/-! ### Opening the store, peer by peer

The turn of a peer rewrites its key, switches it off, or leaves it. -/

open Classical in
noncomputable def View.turn (v : View) (p : PeerId) : View :=
  match v p with
  | none => v
  | some peer =>
      match canonicalWGKey peer.key with
      | .error _ => v
      | .ok key =>
          if key = peer.key then v
          else if v.Taken key then v.set p peer.switchOff
          else v.set p { peer with key }

/-- Everything the turn of a peer can do. -/
theorem View.turn_cases {v : View} {p : PeerId} {peer : Peer} (hp : v p = some peer) :
    (v.turn p = v ∧ ∀ key, canonicalWGKey peer.key = .ok key → key = peer.key) ∨
      ∃ key, canonicalWGKey peer.key = .ok key ∧ key ≠ peer.key ∧
        ((v.Taken key ∧ v.turn p = v.set p peer.switchOff) ∨
          (¬ v.Taken key ∧ v.turn p = v.set p { peer with key })) := by
  unfold View.turn
  simp only [hp]
  cases hkey : canonicalWGKey peer.key with
  | error why => exact Or.inl ⟨rfl, by simp⟩
  | ok key =>
      simp only
      split
      · rename_i heq
        exact Or.inl ⟨rfl, fun key' h => heq ▸ (Except.ok.inj h).symm⟩
      · rename_i hne
        refine Or.inr ⟨key, rfl, hne, ?_⟩
        split
        · exact Or.inl ⟨‹_›, rfl⟩
        · exact Or.inr ⟨‹_›, rfl⟩

theorem find_canonicaliseSite {db : Peers} {row : Int × WGSite} (h : row ∈ db.sites.rows) :
    (canonicaliseSite db row).find = db.find.turn (.site row.1) := by
  unfold canonicaliseSite View.turn
  simp only [find_site h, WGSite.peer]
  cases canonicalWGKey row.2.publicKey with
  | error why => rfl
  | ok key =>
      simp only
      split
      · rfl
      · by_cases htaken : db.find.Taken key
        · rw [if_pos (taken_iff.mpr htaken), if_pos htaken, find_modifySite h]
          rfl
        · rw [if_neg (fun hin => htaken (taken_iff.mp hin)), if_neg htaken, find_modifySite h]
          rfl

theorem find_canonicaliseDevice {db : Peers} {row : Int × WGDevice} (h : row ∈ db.devices.rows) :
    (canonicaliseDevice db row).find = db.find.turn (.device row.1) := by
  unfold canonicaliseDevice View.turn
  simp only [find_device h, WGDevice.peer]
  cases canonicalWGKey row.2.publicKey with
  | error why => rfl
  | ok key =>
      simp only
      split
      · rfl
      · by_cases htaken : db.find.Taken key
        · rw [if_pos (taken_iff.mpr htaken), if_pos htaken, find_modifyDevice h]
          congr 1
          cases hrevoked : row.2.revoked <;> simp [Peer.switchOff, WGDevice.peer, hrevoked]
        · rw [if_neg (fun hin => htaken (taken_iff.mp hin)), if_neg htaken, find_modifyDevice h]
          rfl

/-- The peers in the order in which they are visited. -/
def Peers.order (db : Peers) : List PeerId :=
  (byId db.sites).map (fun row => .site row.1) ++ (byId db.devices).map fun row => .device row.1

theorem rows_canonicaliseSite {db : Peers} {row other : Int × WGSite} (h : other ∈ db.sites.rows)
    (hne : other.1 ≠ row.1) : other ∈ (canonicaliseSite db row).sites.rows := by
  unfold canonicaliseSite
  split
  · exact h
  · split
    · exact h
    · split <;> exact Table.mem_modify.mpr (Or.inl ⟨hne, h⟩)

theorem rows_canonicaliseDevice {db : Peers} {row other : Int × WGDevice}
    (h : other ∈ db.devices.rows)
    (hne : other.1 ≠ row.1) : other ∈ (canonicaliseDevice db row).devices.rows := by
  unfold canonicaliseDevice
  split
  · exact h
  · split
    · exact h
    · split <;> exact Table.mem_modify.mpr (Or.inl ⟨hne, h⟩)

theorem devices_canonicaliseSite (db : Peers) (row : Int × WGSite) :
    (canonicaliseSite db row).devices = db.devices := by
  unfold canonicaliseSite
  split
  · rfl
  · split
    · rfl
    · split <;> rfl

theorem find_foldl_sites {rows : List (Int × WGSite)} {db : Peers}
    (hids : (rows.map Prod.fst).Nodup)
    (hrows : ∀ row ∈ rows, row ∈ db.sites.rows) :
    (rows.foldl canonicaliseSite db).find =
      (rows.map fun row => PeerId.site row.1).foldl View.turn db.find ∧
      (rows.foldl canonicaliseSite db).devices = db.devices := by
  induction rows generalizing db with
  | nil => exact ⟨rfl, rfl⟩
  | cons row rest ih =>
      rw [List.map_cons, List.nodup_cons] at hids
      have hrest : ∀ other ∈ rest, other ∈ (canonicaliseSite db row).sites.rows := by
        intro other hother
        refine rows_canonicaliseSite (hrows other (List.mem_cons_of_mem row hother)) ?_
        intro heq
        exact hids.1 (List.mem_map.mpr ⟨other, hother, heq⟩)
      obtain ⟨hfind, hdevices⟩ := ih hids.2 hrest
      rw [List.foldl_cons, List.map_cons, List.foldl_cons]
      rw [← find_canonicaliseSite (hrows row List.mem_cons_self)]
      exact ⟨hfind, hdevices.trans (devices_canonicaliseSite db row)⟩

theorem find_foldl_devices {rows : List (Int × WGDevice)} {db : Peers}
    (hids : (rows.map Prod.fst).Nodup) (hrows : ∀ row ∈ rows, row ∈ db.devices.rows) :
    (rows.foldl canonicaliseDevice db).find =
      (rows.map fun row => PeerId.device row.1).foldl View.turn db.find := by
  induction rows generalizing db with
  | nil => rfl
  | cons row rest ih =>
      rw [List.map_cons, List.nodup_cons] at hids
      have hrest : ∀ other ∈ rest, other ∈ (canonicaliseDevice db row).devices.rows := by
        intro other hother
        refine rows_canonicaliseDevice (hrows other (List.mem_cons_of_mem row hother)) ?_
        intro heq
        exact hids.1 (List.mem_map.mpr ⟨other, hother, heq⟩)
      rw [List.foldl_cons, List.map_cons, List.foldl_cons]
      rw [← find_canonicaliseDevice (hrows row List.mem_cons_self)]
      exact ih hids.2 hrest

theorem mem_byId {α : Type} {t : Table α} {row : Int × α} : row ∈ byId t ↔ row ∈ t.rows :=
  (List.perm_insertionSort _ _).mem_iff

theorem nodup_byId {α : Type} (t : Table α) : ((byId t).map Prod.fst).Nodup :=
  ((List.perm_insertionSort _ _).map Prod.fst).nodup_iff.mpr t.keysUnique

/-- Opening the store is the walk over the peers. -/
theorem find_canonicaliseWGKeys (db : Peers) :
    (canonicaliseWGKeys db).find = db.order.foldl View.turn db.find := by
  have hrows : ∀ row ∈ byId db.sites, row ∈ db.sites.rows := fun row hrow => mem_byId.mp hrow
  obtain ⟨hsites, hframe⟩ := find_foldl_sites (nodup_byId db.sites) hrows
  unfold canonicaliseWGKeys Peers.order
  rw [find_foldl_devices (nodup_byId _) (fun row hrow => mem_byId.mp hrow), List.foldl_append,
    hsites, hframe]

/-! ### What is to hold

The three parts of the result, each in terms of the bytes of keys. -/

def OneKeyOnePeer (v : View) : Prop :=
  ∀ p q peer other, v p = some peer → v q = some other → p ≠ q → peer.usable = true →
    other.usable = true → keyBytes peer.key ≠ keyBytes other.key

/-- A key whose bytes belong to a row is not registered again. -/
def NeverAgain (lib : Lib) (db : Peers) : Prop :=
  ∀ p peer, db.find p = some peer →
    (∀ tunnel sealing now w, keyBytes w.publicKey = keyBytes peer.key →
      ∀ db', createWGSite db tunnel sealing now w ≠ .ok db') ∧
    (∀ tunnel sealing now limit d, keyBytes d.publicKey = keyBytes peer.key →
      ∀ db', createWGDevice lib db tunnel sealing now limit d ≠ .ok db')

/-- The peer is older than every other one with its key. -/
def Oldest (v : View) (p : PeerId) (peer : Peer) : Prop :=
  ∀ q other, q ≠ p → v q = some other → keyBytes other.key = keyBytes peer.key →
    peer.createdAt < other.createdAt

/-- Where several rows held one key, the oldest keeps it: its bytes, and whether it is
usable. -/
def OlderKeeps (before after : View) : Prop :=
  ∀ p peer, before p = some peer → Oldest before p peer →
    ∃ now, after p = some now ∧ keyBytes now.key = keyBytes peer.key ∧ now.usable = peer.usable

/-! ### Settled keys

`Settled` is what every call keeps once it holds: keys are canonical, or their peer is
switched off in favour of another. -/

/-- The key of the peer has its canonical text, or the peer is switched off and another
one has that text. -/
def PeerSettled (v : View) (peer : Peer) : Prop :=
  Canonical peer.key ∨ (peer.off = true ∧
    ∃ key, Canonical key ∧ keyBytes key = keyBytes peer.key ∧ v.Taken key)

def Apart (v : View) : Prop :=
  ∀ p q peer other, v p = some peer → v q = some other → p ≠ q → Canonical peer.key →
    peer.key = other.key → peer.revoked = true ∨ other.revoked = true

structure Settled (v : View) : Prop where
  peers : ∀ p peer, v p = some peer → PeerSettled v peer
  apart : Apart v

theorem Settled.oneKeyOnePeer {v : View} (h : Settled v) : OneKeyOnePeer v := by
  intro p q peer other hp hq hne husable husable' hbytes
  have hcanonical : ∀ r x, v r = some x → x.usable = true → Canonical x.key := by
    intro r x hr hx
    rcases h.peers r x hr with hkey | ⟨hoff, -⟩
    · exact hkey
    · rw [Peer.usable_of_off hoff] at hx
      cases hx
  have hkey := hcanonical p peer hp husable
  have heq := canonicalWGKey_unique hkey (hcanonical q other hq husable') hbytes
  unfold Peer.usable at husable husable'
  rcases h.apart p q peer other hp hq hne hkey heq with hrevoked | hrevoked
  · simp [hrevoked] at husable
  · simp [hrevoked] at husable'

/-- The canonical text of every peer's key is taken. -/
theorem Settled.taken {v : View} (h : Settled v) {p : PeerId} {peer : Peer} (hp : v p = some peer)
    {key text : String} (hkey : canonicalWGKey key = .ok text)
    (hbytes : keyBytes key = keyBytes peer.key) : v.Taken text := by
  rcases h.peers p peer hp with hcanonical | ⟨-, key', hkey', hbytes', htaken⟩
  · exact ⟨p, peer, hp, (canonicalWGKey_unique hkey hcanonical hbytes).symm⟩
  · rw [canonicalWGKey_unique hkey hkey' (hbytes.trans hbytes'.symm)]
    exact htaken

theorem Settled.neverAgain {db : Peers} (h : Settled db.find) (lib : Lib) : NeverAgain lib db := by
  intro p peer hp
  constructor
  · intro tunnel sealing now w hbytes db' hcreate
    obtain ⟨key, a, db₁, new, hkey, hfree, -⟩ := createWGSite_eq_ok hcreate
    have htaken := taken_iff.mpr (h.taken hp hkey hbytes)
    simp [hfree] at htaken
  · intro tunnel sealing now limit d hbytes db' hcreate
    obtain ⟨key, a, db₁, new, hkey, hfree, -⟩ := createWGDevice_eq_ok hcreate
    have htaken := taken_iff.mpr (h.taken hp hkey hbytes)
    simp [hfree] at htaken

section Writes

variable {v : View} {p : PeerId} {new : Peer}

/-- The write leaves a canonical text where there was one. -/
def KeepsCanonical (v : View) (p : PeerId) (new : Peer) : Prop :=
  ∀ peer, v p = some peer → Canonical peer.key → new.key = peer.key

theorem View.Taken.set {key : String} (h : v.Taken key) (hkey : Canonical key)
    (hkept : KeepsCanonical v p new) : (v.set p new).Taken key := by
  obtain ⟨q, other, hq, heq⟩ := h
  by_cases hqp : q = p
  · subst hqp
    exact ⟨q, new, View.set_self v q new, (hkept other hq (heq ▸ hkey)).trans heq⟩
  · exact ⟨q, other, by rw [View.set_of_ne hqp, hq], heq⟩

theorem PeerSettled.set {peer : Peer} (h : PeerSettled v peer) (hkept : KeepsCanonical v p new) :
    PeerSettled (v.set p new) peer := by
  rcases h with hcanonical | ⟨hoff, key, hkey, hbytes, htaken⟩
  · exact Or.inl hcanonical
  · exact Or.inr ⟨hoff, key, hkey, hbytes, htaken.set hkey hkept⟩

/-- The peer that is written comes into the way of no other. -/
def Fits (v : View) (p : PeerId) (new : Peer) : Prop :=
  ∀ q other, q ≠ p → v q = some other → Canonical new.key → new.key = other.key →
    new.revoked = true ∨ other.revoked = true

theorem Apart.set (h : Apart v) (hfits : Fits v p new) : Apart (v.set p new) := by
  intro q r peer other hq hr hne hkey heq
  rcases View.set_eq_some hq with ⟨rfl, rfl⟩ | ⟨hqp, hq'⟩
  · rcases View.set_eq_some hr with ⟨rfl, _⟩ | ⟨hrp, hr⟩
    · exact absurd rfl hne
    · exact hfits r other hrp hr hkey heq
  · rcases View.set_eq_some hr with ⟨rfl, rfl⟩ | ⟨_, hr⟩
    · exact (hfits q peer hqp hq' (heq ▸ hkey) heq.symm).symm
    · exact h q r peer other hq' hr hne hkey heq

theorem fits_of_not_taken (h : ¬ v.Taken new.key) : Fits v p new := by
  intro q other _ hq _ heq
  exact absurd ⟨q, other, hq, heq.symm⟩ h

/-- A peer that keeps its key, and stays revoked if it was, fits where it was. -/
theorem fits_of_same {peer : Peer} (h : Apart v) (hp : v p = some peer) (hkey : new.key = peer.key)
    (hrevoked : peer.revoked = true → new.revoked = true) : Fits v p new := by
  intro q other hne hq hcanonical heq
  rcases h p q peer other hp hq (Ne.symm hne) (hkey ▸ hcanonical) (hkey ▸ heq) with hpeer | hother
  · exact Or.inl (hrevoked hpeer)
  · exact Or.inr hother

theorem Settled.set (h : Settled v) (hkept : KeepsCanonical v p new)
    (hnew : PeerSettled (v.set p new) new) (hfits : Fits v p new) : Settled (v.set p new) := by
  refine ⟨?_, h.apart.set hfits⟩
  intro q peer hq
  rcases View.set_eq_some hq with ⟨rfl, rfl⟩ | ⟨-, hq⟩
  · exact hnew
  · exact (h.peers q peer hq).set hkept

/-- A new peer with a canonical key that is not taken. -/
theorem Settled.insert (h : Settled v) (hfresh : v p = none) (hkey : Canonical new.key)
    (hfree : ¬ v.Taken new.key) : Settled (v.set p new) := by
  refine h.set ?_ (Or.inl hkey) (fits_of_not_taken hfree)
  intro peer hp
  simp [hfresh] at hp

/-- A write that leaves the key of a peer. -/
theorem Settled.rewrite (h : Settled v) {peer : Peer} (hp : v p = some peer)
    (hkey : new.key = peer.key) (hrevoked : peer.revoked = true → new.revoked = true)
    (hoff : Canonical peer.key ∨ new.off = true) : Settled (v.set p new) := by
  have hkept : KeepsCanonical v p new := by
    intro peer' hp' _
    obtain rfl := Option.some.inj (hp.symm.trans hp')
    exact hkey
  refine h.set hkept ?_ (fits_of_same h.apart hp hkey hrevoked)
  rcases hoff with hcanonical | hoff
  · exact Or.inl (hkey ▸ hcanonical)
  · rcases h.peers p peer hp with hcanonical | ⟨-, key, hcanonical, hbytes, htaken⟩
    · exact Or.inl (hkey ▸ hcanonical)
    · exact Or.inr ⟨hoff, key, hcanonical, hkey ▸ hbytes, htaken.set hcanonical hkept⟩

theorem revoked_switchOff {peer : Peer} (h : peer.revoked = true) :
    peer.switchOff.revoked = true := by
  unfold Peer.switchOff
  split
  · exact h
  · exact h

theorem Settled.turn (h : Settled v) (p : PeerId) : Settled (v.turn p) := by
  cases hp : v p with
  | none =>
      have hsame : v.turn p = v := by simp [View.turn, hp]
      exact hsame.symm ▸ h
  | some peer =>
      rcases View.turn_cases hp with ⟨hsame, -⟩ | ⟨key, hkey, hne, ⟨-, hset⟩ | ⟨hfree, -⟩⟩
      · exact hsame.symm ▸ h
      · rw [hset]
        exact h.rewrite hp (by simp) revoked_switchOff (Or.inr (Peer.off_switchOff peer))
      · exact absurd (h.taken hp hkey rfl) hfree

theorem Settled.walk (h : Settled v) (order : List PeerId) : Settled (order.foldl View.turn v) := by
  induction order generalizing v with
  | nil => exact h
  | cons p rest ih => exact ih (h.turn p)

end Writes

/-! ### The calls

A call that writes a peer takes a key that nobody has, or leaves the key it finds. -/

/-- The calls that take no row away. -/
def Call.keepsRows : Call → Bool
  | .deleteSite .. => false
  | _ => true

theorem find_site_next (db : Peers) : db.find (.site (db.sites.seq + 1)) = none := by
  cases h : db.sites.lookup (db.sites.seq + 1) with
  | none => simp [Peers.find, h]
  | some w => exact absurd rfl (Table.key_ne_next (Table.lookup_eq_some.mp h))

theorem find_device_next (db : Peers) : db.find (.device (db.devices.seq + 1)) = none := by
  cases h : db.devices.lookup (db.devices.seq + 1) with
  | none => simp [Peers.find, h]
  | some d => exact absurd rfl (Table.key_ne_next (Table.lookup_eq_some.mp h))

/-- What a call keeps. -/
theorem settled_step {lib : Lib} {db db' : Peers} {call : Call} (hdb : Settled db.find)
    (hcall : call.keepsRows = true) (hstep : step lib db call = some db') : Settled db'.find := by
  rcases step_cases hstep with hresult | rfl
  · cases call with
    | openStore =>
        obtain rfl := Except.ok.inj hresult
        rw [find_canonicaliseWGKeys]
        exact hdb.walk db.order
    | createSite tunnel sealing now w =>
        obtain ⟨key, a, db₁, new, hkey, hfree, hnext, rfl, rfl⟩ := createWGSite_eq_ok hresult
        rw [find_insertSite (nextWGAddress_frame hnext).2]
        refine hdb.insert (find_site_next db) (canonical_of_ok hkey) ?_
        intro htaken
        exact Bool.noConfusion (hfree.symm.trans (taken_iff.mpr htaken))
    | createDevice tunnel sealing now limit d =>
        obtain ⟨key, a, db₁, new, hkey, hfree, hnext, rfl, -, -, rfl⟩ :=
          createWGDevice_eq_ok hresult
        rw [find_insertDevice (nextWGAddress_frame hnext).1]
        refine hdb.insert (find_device_next db) (canonical_of_ok hkey) ?_
        intro htaken
        exact Bool.noConfusion (hfree.symm.trans (taken_iff.mpr htaken))
    | updateSite id w =>
        obtain ⟨prev, hrow, hkey, rfl⟩ := updateWGSite_eq_ok hresult
        rw [find_modifySite hrow]
        refine hdb.rewrite (find_site hrow) rfl (fun h => h) ?_
        exact Or.inl (canonical_of_ok hkey)
    | setDeviceEnabled id enabled =>
        obtain ⟨d, hrow, hlive, rfl⟩ := setWGDeviceEnabled_eq_ok hresult
        rw [find_modifyDevice hrow]
        refine hdb.rewrite (find_device hrow) rfl (fun h => h) ?_
        -- a device that is not revoked is not switched off, so its key is canonical
        rcases hdb.peers _ _ (find_device hrow) with hcanonical | ⟨hoff, -⟩
        · exact Or.inl hcanonical
        · simp [Peer.off, WGDevice.peer, hlive] at hoff
    | revokeDevice id owner =>
        obtain ⟨d, hrow, hlive, rfl⟩ := revokeWGDevice_eq_ok hresult
        rw [find_modifyDevice hrow]
        exact hdb.rewrite (find_device hrow) rfl (fun _ => rfl) (Or.inr rfl)
    | deleteSite users id => simp [Call.keepsRows] at hcall
  · exact hdb

/-! ### The first opening

The walk from the tables of an older version.  `Walk` is its invariant: what the visited peers
have become, and what is still to come for the others. -/

/-- The order in which the peers are visited: sites before devices, by id. -/
def PeerId.before : PeerId → PeerId → Prop
  | .site a, .site b => a < b
  | .site _, .device _ => True
  | .device a, .device b => a < b
  | .device _, .site _ => False

theorem PeerId.before_asymm {p q : PeerId} (h : p.before q) : ¬ q.before p := by
  cases p <;> cases q <;> simp_all [PeerId.before] <;> omega

/-- The keys that an older version left are such that opening the store settles them:
every spelling is one that `canonicalWGKey` reads, unless its peer is switched off and
another row has the canonical text; no site has the canonical text of a device that is
not revoked; and if the oldest peer of a key has another spelling, no other peer of the
key has the canonical one or is visited before it. -/
structure KeysReadable (v : View) : Prop where
  readable : ∀ p peer, v p = some peer → (∃ key, canonicalWGKey peer.key = .ok key) ∨
    (peer.off = true ∧ ∃ key, Canonical key ∧ keyBytes key = keyBytes peer.key ∧ v.Taken key)
  apart : ∀ id id' w d, v (.site id) = some w → v (.device id') = some d → Canonical w.key →
    w.key = d.key → d.revoked = true
  oldest : ∀ p peer key, v p = some peer → Oldest v p peer → canonicalWGKey peer.key = .ok key →
    key ≠ peer.key → ∀ q other, q ≠ p → v q = some other → canonicalWGKey other.key = .ok key →
      other.key ≠ key ∧ p.before q

/-- The columns `public_key` are unique. -/
def KeysUnique (db : Peers) : Prop :=
  db.sites.Pairwise (fun a b => a.publicKey ≠ b.publicKey) ∧
    db.devices.Pairwise fun a b => a.publicKey ≠ b.publicKey

theorem apart_of_unique {db : Peers} (hunique : KeysUnique db) (hkeys : KeysReadable db.find) :
    Apart db.find := by
  intro p q peer other hp hq hne hkey heq
  cases p with
  | site id =>
      cases q with
      | site id' =>
          obtain ⟨w, hw, rfl⟩ := Option.map_eq_some_iff.mp hp
          obtain ⟨w', hw', rfl⟩ := Option.map_eq_some_iff.mp hq
          exact absurd heq (hunique.1 id w id' w' (Table.lookup_eq_some.mp hw)
            (Table.lookup_eq_some.mp hw') fun h => hne (congrArg PeerId.site h))
      | device id' => exact Or.inr (hkeys.apart id id' peer other hp hq hkey heq)
  | device id =>
      cases q with
      | site id' => exact Or.inl (hkeys.apart id' id other peer hq hp (heq ▸ hkey) heq.symm)
      | device id' =>
          obtain ⟨d, hd, rfl⟩ := Option.map_eq_some_iff.mp hp
          obtain ⟨d', hd', rfl⟩ := Option.map_eq_some_iff.mp hq
          exact absurd heq (hunique.2 id d id' d' (Table.lookup_eq_some.mp hd)
            (Table.lookup_eq_some.mp hd') fun h => hne (congrArg PeerId.device h))

/-! ### The walk of the first opening

By induction on the peers that were visited: their keys are settled, and for the others the
tables are as they were, but for the texts that were taken meanwhile. -/

/-- The peers `v`, when those in `done` were visited and `D` is what was found. -/
structure Walk (D : View) (done : List PeerId) (v : View) : Prop where
  absent : ∀ p, D p = none → v p = none
  todo : ∀ p peer, p ∉ done → D p = some peer → v p = some peer
  visited : ∀ p peer, p ∈ done → D p = some peer → ∃ now, v p = some now ∧
    (now.key = peer.key ∨ canonicalWGKey peer.key = .ok now.key) ∧ PeerSettled v now ∧
    (Oldest D p peer → now.usable = peer.usable)
  taken : ∀ key, Canonical key → D.Taken key → v.Taken key
  apart : Apart v

section Walk

variable {D v : View} {done : List PeerId} {p : PeerId} {peer new : Peer}

/-- The turn of a peer that rewrites it. -/
theorem Walk.set (hwalk : Walk D done v) (hD : D p = some peer) (hv : v p = some peer)
    (hkept : KeepsCanonical v p new) (hfits : Fits v p new)
    (hkey : new.key = peer.key ∨ canonicalWGKey peer.key = .ok new.key)
    (hnew : PeerSettled (v.set p new) new) (hold : Oldest D p peer → new.usable = peer.usable) :
    Walk D (done ++ [p]) (v.set p new) := by
  constructor
  · intro q hq
    have hne : q ≠ p := by
      rintro rfl
      simp [hD] at hq
    rw [View.set_of_ne hne]
    exact hwalk.absent q hq
  · intro q other hnot hq
    rw [List.mem_append, not_or, List.mem_singleton] at hnot
    rw [View.set_of_ne hnot.2]
    exact hwalk.todo q other hnot.1 hq
  · intro q other hdone hq
    by_cases hqp : q = p
    · subst hqp
      obtain rfl := Option.some.inj (hD.symm.trans hq)
      exact ⟨new, View.set_self v q new, hkey, hnew, hold⟩
    · rcases List.mem_append.mp hdone with hdone | hlast
      · obtain ⟨now, hnow, hspelling, hsettled, husable⟩ := hwalk.visited q other hdone hq
        exact ⟨now, by rw [View.set_of_ne hqp, hnow], hspelling, hsettled.set hkept, husable⟩
      · exact absurd (List.mem_singleton.mp hlast) hqp
  · intro key hcanonical htaken
    exact (hwalk.taken key hcanonical htaken).set hcanonical hkept
  · exact hwalk.apart.set hfits

/-- The turn of a peer that leaves it. -/
theorem Walk.skip (hwalk : Walk D done v) (hD : D p = some peer) (hv : v p = some peer)
    (hnew : PeerSettled v peer) : Walk D (done ++ [p]) v := by
  refine ⟨hwalk.absent, ?_, ?_, hwalk.taken, hwalk.apart⟩
  · intro q other hnot hq
    rw [List.mem_append, not_or] at hnot
    exact hwalk.todo q other hnot.1 hq
  · intro q other hdone hq
    rcases List.mem_append.mp hdone with hdone | hlast
    · exact hwalk.visited q other hdone hq
    · obtain rfl := List.mem_singleton.mp hlast
      obtain rfl := Option.some.inj (hD.symm.trans hq)
      exact ⟨peer, hv, Or.inl rfl, hnew, fun _ => rfl⟩

/-- When the turn of the oldest peer comes, its canonical text is not taken. -/
theorem Walk.not_taken (hwalk : Walk D done v) (hD : D p = some peer) (hkeys : KeysReadable D)
    (hbefore : ∀ q ∈ done, q.before p) {key : String} (hkey : canonicalWGKey peer.key = .ok key)
    (hne : key ≠ peer.key) (hv : v p = some peer) (hold : Oldest D p peer) : ¬ v.Taken key := by
  rintro ⟨q, other, hq, heq⟩
  have hqp : q ≠ p := by
    rintro rfl
    obtain rfl := Option.some.inj (hv.symm.trans hq)
    exact hne heq.symm
  have hcanonical : Canonical key := canonical_of_ok hkey
  cases hDq : D q with
  | none => simp [hwalk.absent q hDq] at hq
  | some first =>
      have hcond := hkeys.oldest p peer key hD hold hkey hne q first hqp hDq
      -- a text that was there from the start is not the canonical one
      have hsame : first.key ≠ key := fun h => (hcond (h ▸ hcanonical)).1 h
      by_cases hdone : q ∈ done
      · obtain ⟨now, hnow, hspelling, -⟩ := hwalk.visited q first hdone hDq
        obtain rfl := Option.some.inj (hq.symm.trans hnow)
        rcases hspelling with hkeep | hrewritten
        · exact hsame (hkeep ▸ heq)
        · exact PeerId.before_asymm (hbefore q hdone) (hcond (heq ▸ hrewritten)).2
      · obtain rfl := Option.some.inj (hq.symm.trans (hwalk.todo q first hdone hDq))
        exact hsame heq

theorem Walk.turn (hwalk : Walk D done v) (hkeys : KeysReadable D) (hD : D p = some peer)
    (hnot : p ∉ done) (hbefore : ∀ q ∈ done, q.before p) : Walk D (done ++ [p]) (v.turn p) := by
  have hv := hwalk.todo p peer hnot hD
  rcases View.turn_cases hv with ⟨hsame, hcanonical⟩ | ⟨key, hkey, hne, hcases⟩
  · rw [hsame]
    refine hwalk.skip hD hv ?_
    rcases hkeys.readable p peer hD with ⟨key, hkey⟩ | ⟨hoff, key, hkey, hbytes, htaken⟩
    · exact Or.inl (hcanonical key hkey ▸ hkey)
    · exact Or.inr ⟨hoff, key, hkey, hbytes, hwalk.taken key hkey htaken⟩
  · have hloose : ∀ new, KeepsCanonical v p new := by
      intro new peer' hp' hcanonical
      obtain rfl := Option.some.inj (hv.symm.trans hp')
      exact absurd (Except.ok.inj (hkey.symm.trans hcanonical)) hne
    have hcanonical := canonical_of_ok hkey
    rcases hcases with ⟨htaken, hset⟩ | ⟨hfree, hset⟩
    · rw [hset]
      refine hwalk.set hD hv (hloose _) (fits_of_same hwalk.apart hv (by simp) revoked_switchOff)
        (Or.inl (by simp)) ?_ ?_
      · refine Or.inr
          ⟨Peer.off_switchOff peer, key, hcanonical, ?_, htaken.set hcanonical (hloose _)⟩
        rw [Peer.key_switchOff, keyBytes_of_ok hkey]
      · intro hold
        exact absurd htaken (hwalk.not_taken hD hkeys hbefore hkey hne hv hold)
    · rw [hset]
      exact hwalk.set hD hv (hloose _) (fits_of_not_taken hfree) (Or.inr hkey) (Or.inl hcanonical)
        fun _ => rfl

theorem Walk.all (hwalk : Walk D done v) (hkeys : KeysReadable D) {todo : List PeerId}
    (hstored : ∀ q ∈ todo, (D q).isSome = true) (horder : (done ++ todo).Pairwise PeerId.before)
    (hnodup : (done ++ todo).Nodup) : Walk D (done ++ todo) (todo.foldl View.turn v) := by
  induction todo generalizing done v with
  | nil => simpa using hwalk
  | cons p rest ih =>
      obtain ⟨peer, hD⟩ := Option.isSome_iff_exists.mp (hstored p List.mem_cons_self)
      have hnot : p ∉ done := by
        intro hdone
        exact (List.nodup_append.mp hnodup).2.2 p hdone p List.mem_cons_self rfl
      have hbefore : ∀ q ∈ done, q.before p := fun q hq =>
        (List.pairwise_append.mp horder).2.2 q hq p List.mem_cons_self
      have hnext := ih (hwalk.turn hkeys hD hnot hbefore)
        (fun q hq => hstored q (List.mem_cons_of_mem p hq)) (by simpa using horder)
        (by simpa using hnodup)
      simpa using hnext

end Walk

section Order

variable (db : Peers)

theorem byId_lt {α : Type} (t : Table α) : (byId t).Pairwise fun a b => a.1 < b.1 := by
  have hle : (byId t).Pairwise fun a b => a.1 ≤ b.1 :=
    List.pairwise_insertionSort (fun a b : Int × α => a.1 ≤ b.1) t.rows
  have hne : (byId t).Pairwise fun a b => a.1 ≠ b.1 := List.pairwise_map.mp (nodup_byId t)
  refine (hle.and hne).imp ?_
  rintro a b ⟨hab, hne⟩
  omega

theorem order_pairwise : db.order.Pairwise PeerId.before := by
  unfold Peers.order
  refine List.pairwise_append.mpr ⟨?_, ?_, ?_⟩
  · exact List.pairwise_map.mpr ((byId_lt db.sites).imp fun h => h)
  · exact List.pairwise_map.mpr ((byId_lt db.devices).imp fun h => h)
  · intro p hp q hq
    obtain ⟨row, -, rfl⟩ := List.mem_map.mp hp
    obtain ⟨row', -, rfl⟩ := List.mem_map.mp hq
    trivial

theorem order_nodup : db.order.Nodup := by
  refine (order_pairwise db).imp ?_
  rintro p q hbefore rfl
  exact PeerId.before_asymm hbefore hbefore

theorem mem_order {p : PeerId} : p ∈ db.order ↔ (db.find p).isSome = true := by
  unfold Peers.order
  cases p with
  | site id =>
      simp [mem_byId, Peers.find, ← Table.has_eq_isSome, Table.has_iff]
  | device id =>
      simp [mem_byId, Peers.find, ← Table.has_eq_isSome, Table.has_iff]

end Order

/-- What the first opening leaves. -/
theorem walk_canonicaliseWGKeys {db : Peers} (hunique : KeysUnique db)
    (hkeys : KeysReadable db.find) : Walk db.find db.order (canonicaliseWGKeys db).find := by
  have hstart : Walk db.find [] db.find :=
    ⟨fun p hp => hp, fun p peer _ hp => hp, by simp, fun key _ htaken => htaken,
      apart_of_unique hunique hkeys⟩
  rw [find_canonicaliseWGKeys]
  exact hstart.all hkeys (fun q hq => (mem_order db).mp hq) (order_pairwise db) (order_nodup db)

theorem settled_of_walk {db : Peers} {v : View} (h : Walk db.find db.order v) : Settled v := by
  refine ⟨?_, h.apart⟩
  intro p peer hp
  cases hD : db.find p with
  | none => simp [h.absent p hD] at hp
  | some first =>
      obtain ⟨now, hnow, -, hsettled, -⟩ := h.visited p first ((mem_order db).mpr (by simp [hD])) hD
      obtain rfl := Option.some.inj (hp.symm.trans hnow)
      exact hsettled

/-- Where the keys that an older version left are readable, opening the store leaves
every key with the oldest of its peers, and from then on one key is one peer and is
never registered again. -/
theorem one_key_one_peer (lib : Lib) (db : Peers) (hunique : KeysUnique db)
    (hkeys : KeysReadable db.find) :
    OlderKeeps db.find (canonicaliseWGKeys db).find ∧
      ∀ (calls : List Call) (s : Peers), (∀ call ∈ calls, call.keepsRows = true) →
        run (step lib) (canonicaliseWGKeys db) calls = some s →
        OneKeyOnePeer s.find ∧ NeverAgain lib s := by
  have hwalk := walk_canonicaliseWGKeys hunique hkeys
  constructor
  · intro p peer hp hold
    obtain ⟨now, hnow, hspelling, -, husable⟩ :=
      hwalk.visited p peer ((mem_order db).mpr (by simp [hp])) hp
    refine ⟨now, hnow, ?_, husable hold⟩
    rcases hspelling with hsame | hrewritten
    · rw [hsame]
    · exact keyBytes_of_ok hrewritten
  · intro calls s hcalls hrun
    have hmeets : RunMeets (step lib) (fun _ call => call.keepsRows = true)
        (canonicaliseWGKeys db) calls := RunMeets.of_forall fun call hcall _ => hcalls call hcall
    have hsettled : Settled s.find := hmeets.invariant (P := fun db => Settled db.find)
      (fun _ _ _ => settled_step) (settled_of_walk hwalk) hrun
    exact ⟨hsettled.oneKeyOnePeer, hsettled.neverAgain lib⟩

/-! ### Two spellings of one key

Line breaks are skipped by every decoder, so a text with one spells the same bytes. -/

def laptop (key : String) (createdAt : Nat) : WGDevice :=
  ⟨"laptop", "admin", key, none, true, false, 0, "", [], createdAt⟩

def zeroKey : String := "AAAAAAAAAAAAAAAAAAAAAAAAAAAAAAAAAAAAAAAAAAA="

/-- The same bytes with a line break after them, and with other bits left over. -/
def brokenKey : String := zeroKey ++ "\n"
def looseKey : String := "AAAAAAAAAAAAAAAAAAAAAAAAAAAAAAAAAAAAAAAAAAB="

def twoDevices (key key' : String) : Peers :=
  { Peers.empty with devices := (Table.empty.insert (laptop key 1)).insert (laptop key' 2) }

theorem keyBytes_zeroKey : keyBytes zeroKey = some (List.replicate 32 0) ∧
    keyBytes brokenKey = some (List.replicate 32 0) ∧
    keyBytes looseKey = some (List.replicate 32 0) := by
  decide +kernel

theorem find_twoDevices {key key' : String} {p : PeerId} {peer : Peer}
    (h : (twoDevices key key').find p = some peer) :
    (p = .device 1 ∧ peer = (laptop key 1).peer) ∨
    (p = .device 2 ∧ peer = (laptop key' 2).peer) := by
  cases p with
  | site id => simp [Peers.find, twoDevices, Peers.empty, Table.lookup, Table.empty] at h
  | device id =>
      obtain ⟨d, hd, rfl⟩ := Option.map_eq_some_iff.mp h
      rcases Table.mem_insert.mp (Table.lookup_eq_some.mp hd) with hold | hnew
      · rcases Table.mem_insert.mp hold with hnone | hfirst
        · simp [Table.empty] at hnone
        · obtain ⟨rfl, rfl⟩ := Prod.mk.inj hfirst
          exact Or.inl ⟨rfl, rfl⟩
      · obtain ⟨rfl, rfl⟩ := Prod.mk.inj hnew
        exact Or.inr ⟨rfl, rfl⟩

theorem unique_twoDevices {key key' : String} (hne : key ≠ key') :
    KeysUnique (twoDevices key key') := by
  refine ⟨Table.Pairwise.empty, ?_⟩
  refine Table.Pairwise.insert (Table.Pairwise.insert Table.Pairwise.empty ?_ ?_) ?_ ?_
  · exact fun a b h => Ne.symm h
  · intro id w hrow
    simp [Table.empty] at hrow
  · exact fun a b h => Ne.symm h
  · intro id w hrow
    rcases Table.mem_insert.mp hrow with hold | hnew
    · simp [Table.empty] at hold
    · obtain rfl := (Prod.mk.inj hnew).2
      exact Ne.symm hne

theorem canonical_zeroKey : Canonical zeroKey := by
  unfold Canonical
  decide +kernel

theorem canonicalWGKey_brokenKey : canonicalWGKey brokenKey = .ok zeroKey := by
  decide +kernel

theorem readable_twoDevices : KeysReadable (twoDevices zeroKey brokenKey).find where
  readable := by
    intro p peer hp
    rcases find_twoDevices hp with ⟨-, rfl⟩ | ⟨-, rfl⟩
    · exact Or.inl ⟨zeroKey, canonical_zeroKey⟩
    · exact Or.inl ⟨zeroKey, canonicalWGKey_brokenKey⟩
  apart := by
    intro id id' w d hw
    rcases find_twoDevices hw with ⟨h, -⟩ | ⟨h, -⟩ <;> cases h
  oldest := by
    intro p peer key hp hold hkey hne
    rcases find_twoDevices hp with ⟨rfl, rfl⟩ | ⟨rfl, rfl⟩
    · exact absurd (Except.ok.inj (hkey.symm.trans canonical_zeroKey)) hne
    · -- the second device is not the oldest
      have hfirst : (twoDevices zeroKey brokenKey).find (.device 1) =
        some (laptop zeroKey 1).peer := by
        decide +kernel
      have hlater := hold (.device 1) _ (by decide) hfirst (by decide +kernel)
      simp [laptop, WGDevice.peer] at hlater

def onesKey : String := "AQEBAQEBAQEBAQEBAQEBAQEBAQEBAQEBAQEBAQEBAQE="

/-- A laptop with another key is made, one with the older device's key is refused, and the store
is opened again. -/
def laterCalls : List Call :=
  [.createDevice (Netip.prefixFrom (.v4 0x0ac80000#32) 24) (.ok ()) 3 5 (laptop onesKey 3),
    .createDevice (Netip.prefixFrom (.v4 0x0ac80000#32) 24) (.ok ()) 4 5 (laptop brokenKey 4),
      .openStore]

/-- The newer device, whose key has a line break after it, is revoked, and stays so. -/
theorem one_key_one_peer_two :
    ∃ s, run (step Store.asciiLib) (canonicaliseWGKeys (twoDevices zeroKey brokenKey)) laterCalls =
        some s ∧
      OneKeyOnePeer s.find ∧ NeverAgain Store.asciiLib s ∧
      ([1, 2, 3, 4].map fun id => (s.find (.device id)).map Peer.usable) =
        [some true, some false, some true, none] := by
  have heval : ((run (step Store.asciiLib) (canonicaliseWGKeys (twoDevices zeroKey brokenKey))
      laterCalls).map fun s => [1, 2, 3, 4].map fun id => (s.find (.device id)).map Peer.usable) =
        some [some true, some false, some true, none] := by
    decide +kernel
  obtain ⟨s, hrun, husable⟩ := Option.map_eq_some_iff.mp heval
  obtain ⟨-, hruns⟩ := one_key_one_peer Store.asciiLib (twoDevices zeroKey brokenKey)
    (unique_twoDevices (by decide)) readable_twoDevices
  obtain ⟨hone, hnever⟩ := hruns laterCalls s (by decide) hrun
  exact ⟨s, hrun, hone, hnever, husable⟩

/-- A spelling that the strict decoder refuses is left as it is, and the tunnel has two
peers with one key. -/
theorem loose_spelling_stays :
    ∃ db : Peers, KeysUnique db ∧
      (∀ p peer, db.find p = some peer → (keyBytes peer.key).isSome = true) ∧
      ¬ OneKeyOnePeer (canonicaliseWGKeys db).find := by
  refine ⟨twoDevices looseKey zeroKey, unique_twoDevices (by decide), ?_, ?_⟩
  · intro p peer hp
    rcases find_twoDevices hp with ⟨-, rfl⟩ | ⟨-, rfl⟩
    · exact Option.isSome_of_eq_some keyBytes_zeroKey.2.2
    · exact Option.isSome_of_eq_some keyBytes_zeroKey.1
  · intro hone
    have hfirst : (canonicaliseWGKeys (twoDevices looseKey zeroKey)).find (.device 1) =
        some (laptop looseKey 1).peer := by
      decide +kernel
    have hsecond : (canonicaliseWGKeys (twoDevices looseKey zeroKey)).find (.device 2) =
        some (laptop zeroKey 2).peer := by
      decide +kernel
    exact hone (.device 1) (.device 2) _ _ hfirst hsecond (by decide) rfl rfl
      (keyBytes_zeroKey.2.2.trans keyBytes_zeroKey.1.symm)

end Quicgate.Wg
