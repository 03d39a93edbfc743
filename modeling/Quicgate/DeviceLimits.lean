import Quicgate.LoginThrottle
import Quicgate.WgPeers

/-!
# Limits on the devices of the tunnel

The requests that add devices: enrolments at the portal (`internal/engine/portal.go`), break-glass
creations and devices of an admin (`internal/admin/vpn.go`), any number of them at once, and the
revocations.  Each transaction and each list that is read is one step, and the store may change
between any two of them.

* `owned_within_limit` certifies `CreateWGDevice`, which counts an owner's devices in the
  transaction that inserts one: the limit holds in every run.
* `limits_hold_undisturbed` certifies `handleCreateBreakGlass`, which counts the break-glass
  devices in a list that it reads before it asks for the password and the code: both limits hold
  in every run in which no other one is inserted between a request's list and its own insertion.
* `three_break_glass_devices` is a run in which three requests read their lists first.
-/

namespace Quicgate.DeviceLimits

open Quicgate.Admin Quicgate.Wg Quicgate.Netip Quicgate.Checks Quicgate.Sql Quicgate.GoStrings
open Quicgate.TransitionSystem
open Quicgate.Store (Lib)
open Quicgate.VpnRoutes (VPNRoute)

/-! ### Requests

A handler reads, checks and inserts.  Only the portal passes a limit on, and only break-glass
creations count for themselves. -/

/-- Who asks for a device, with what the form says about it. -/
inductive Endpoint where
  | portal (provider : Int) (sub : String)
  | breakGlass (email password code : String) (routes : List VPNRoute)
  | admin
deriving DecidableEq

inductive Phase where
  | arrived
  | listed -- break-glass: the list had room
  | confirmed (u : User) -- break-glass: the password is right
  | ready -- what is left is the insertion
  | done
deriving DecidableEq

structure Request where
  endpoint : Endpoint
  name : String
  publicKey : String
  phase : Phase
  existing : List (Int × WGDevice) -- break-glass: what `ListWGDevices` returned
deriving DecidableEq

def Endpoint.isBreakGlass : Endpoint → Bool
  | .breakGlass .. => true
  | _ => false

def Request.device (r : Request) : WGDevice :=
  match r.endpoint with
  | .portal provider sub => ⟨r.name, "sso", r.publicKey, none, true, false, provider, sub, [], 0⟩
  | .breakGlass _ _ _ routes =>
      ⟨r.name, "breakglass", r.publicKey, none, true, false, 0, "", routes, 0⟩
  | .admin => ⟨r.name, "admin", r.publicKey, none, true, false, 0, "", [], 0⟩

def Request.limit (r : Request) (perUser : Nat) : Nat :=
  match r.endpoint with
  | .portal .. => perUser
  | _ => 0

def maxBreakGlass : Nat := 2

def isLiveBreakGlass (d : WGDevice) : Bool := d.kind == "breakglass" && !d.revoked

def liveBreakGlass (devices : List (Int × WGDevice)) : Nat :=
  devices.countP fun row => isLiveBreakGlass row.2

/-! ### Steps

A step is a transaction or a list; the label says which request moves or which device is
revoked. -/

structure State where
  peers : Peers
  users : Users
  requests : List Request

def start (peers : Peers) (users : Users) : State := ⟨peers, users, []⟩

def State.put (s : State) (i : Nat) (r : Request) (phase : Phase) : State :=
  { s with requests := s.requests.set i { r with phase } }

inductive Label where
  | arrive (endpoint : Endpoint) (name publicKey : String)
  /-- Any refusal that does not depend on the devices: the form, the lease, a throttle, an error. -/
  | refuse (i : Nat)
  /-- The portal and the admin's handler have nothing more to ask. -/
  | pass (i : Nat)
  | list (i : Nat)
  | confirm (i : Nat)
  | verify (i : Nat) (now : Nat)
  | create (i : Nat) (tunnel : Prefix) (sealing : Check Unit) (now : Nat)
  | enable (id : Int) (enabled : Bool)
  | revoke (id : Int) (owner : Owner)

/-- What a call leaves of the tables: an error leaves all. -/
def orElse (result : Check Peers) (db : Peers) : Peers :=
  match result with
  | .ok db' => db'
  | .error _ => db

section Steps

variable (lib : Lib) (cred : Credentials) (box : Box) (perUser : Nat)

def Request.create (r : Request) (db : Peers) (tunnel : Prefix) (sealing : Check Unit)
    (now : Nat) : Check Peers :=
  createWGDevice lib db tunnel sealing now (r.limit perUser) r.device

def step (s : State) : Label → Option State
  | .arrive endpoint name publicKey =>
      some { s with requests := s.requests ++ [⟨endpoint, name, publicKey, .arrived, []⟩] }
  | .refuse i => (s.requests[i]?).map fun r => s.put i r .done
  | .pass i =>
      (s.requests[i]?).bind fun r =>
        if r.phase = .arrived ∧
          r.endpoint.isBreakGlass = false then some (s.put i r .ready) else none
  | .list i =>
      (s.requests[i]?).bind fun r =>
        if r.phase = .arrived ∧ r.endpoint.isBreakGlass = true then
          let existing := s.peers.devices.rows
          some (s.put i { r with existing }
            (if maxBreakGlass ≤ liveBreakGlass existing then .done else .listed))
        else none
  | .confirm i =>
      (s.requests[i]?).bind fun r =>
        match r.phase, r.endpoint with
        | .listed, .breakGlass email password _ _ =>
            match getUserByEmail cred.caseTable box s.users email with
            | .error _ => some (s.put i r .done)
            | .ok u =>
                if password = "" ∨ cred.bcryptCompare u.hash password = false ∨
                  u.totpSecret = "" then
                  some (s.put i r .done)
                else some (s.put i r (.confirmed u))
        | _, _ => none
  | .verify i now =>
      (s.requests[i]?).bind fun r =>
        match r.phase, r.endpoint with
        | .confirmed u, .breakGlass _ _ code _ =>
            let (users, accepted) := verifyTOTP cred s.users u.id u.totpLast u.totpSecret code now
            some (({ s with users := users }).put i r (if accepted then .ready else .done))
        | _, _ => none
  | .create i tunnel sealing now =>
      (s.requests[i]?).bind fun r =>
        if r.phase = .ready then
          let peers := orElse (r.create lib perUser s.peers tunnel sealing now) s.peers
          some (({ s with peers := peers }).put i r .done)
        else none
  | .enable id enabled =>
      some { s with peers := orElse (setWGDeviceEnabled s.peers id enabled) s.peers }
  | .revoke id owner => some { s with peers := orElse (revokeWGDevice s.peers id owner) s.peers }

/-! ### The limits

An owner's devices and the break-glass devices are counted among those that are not revoked. -/

/-- No owner has more devices than the limit, where there is one, and there are no more
break-glass devices than their own. -/
structure Limits (db : Peers) : Prop where
  owned : 0 < perUser → ∀ provider sub, ownedDevices db provider sub ≤ perUser
  breakGlass : liveBreakGlass db.devices.rows ≤ maxBreakGlass

/-- No other break-glass device has come since the list of a request that inserts one: its list
has every unrevoked one that is stored. -/
def Undisturbed (s : State) : Label → Prop
  | .create i tunnel sealing now =>
      ∀ r ∈ s.requests[i]?, r.endpoint.isBreakGlass = true →
        (r.create lib perUser s.peers tunnel sealing now).isOk = true →
        ∀ row ∈ s.peers.devices.rows, isLiveBreakGlass row.2 = true →
          row.1 ∈ r.existing.map Prod.fst
  | _ => True

instance decidableUndisturbed (s : State) : ∀ label, Decidable (Undisturbed lib perUser s label)
  | .create i tunnel sealing now =>
      inferInstanceAs (Decidable (∀ r ∈ s.requests[i]?, r.endpoint.isBreakGlass = true →
        (r.create lib perUser s.peers tunnel sealing now).isOk = true →
        ∀ row ∈ s.peers.devices.rows, isLiveBreakGlass row.2 = true →
          row.1 ∈ r.existing.map Prod.fst))
  | .arrive .. | .refuse _ | .pass _ | .list _ | .confirm _ | .verify .. | .enable ..
      | .revoke .. =>
      isTrue trivial

end Steps

/-! ### What the calls do to the devices

A call adds one device under a new id, or switches or revokes one; what is revoked or no
break-glass device stays so. -/

section Calls

variable {lib : Lib} {db db' : Peers} {tunnel : Prefix} {sealing : Check Unit} {now : Nat}

/-- A device that is created counts as its kind and its owner say, within the limit. -/
theorem createWGDevice_counted {limit : Nat} {d : WGDevice}
    (h : createWGDevice lib db tunnel sealing now limit d = .ok db') :
    ∃ new, db'.devices = db.devices.insert new ∧ new.kind = d.kind ∧ new.provider = d.provider ∧
      new.sub = d.sub ∧ new.revoked = false ∧
      (0 < limit → ownedDevices db d.provider d.sub < limit) := by
  simp only [createWGDevice, checkDevice, bind_eq_ok, refuseIf_eq_ok, pure_eq_ok, Prod.exists] at h
  obtain ⟨_, ⟨_, -, _, -, routes, -, key, hkey, rfl⟩, -, -, -, hlimit, a, db₁, hnext, -, -, -, -,
    rfl⟩ := h
  obtain ⟨-, hframe⟩ := nextWGAddress_frame hnext
  refine ⟨_, congrArg (Table.insert · _) hframe, rfl, rfl, rfl, rfl, ?_⟩
  intro hpos
  by_contra hfull
  exact hlimit ⟨hpos, Nat.not_lt.mp hfull⟩

theorem countP_insert {α : Type} (t : Table α) (v : α) (p : Int × α → Bool) :
    (t.insert v).rows.countP p = t.rows.countP p + if p (t.seq + 1, v) then 1 else 0 := by
  rw [Table.insert, List.countP_append, List.countP_singleton]

/-- What an update makes count no row that did not count before adds nothing. -/
theorem countP_modify_le {α : Type} (t : Table α) (id : Int) (f : α → α) (p : Int × α → Bool)
    (h : ∀ id v, p (id, f v) = true → p (id, v) = true) :
    (t.modify id f).rows.countP p ≤ t.rows.countP p := by
  rw [Table.modify, List.countP_map]
  apply List.countP_mono_left
  intro row _ hrow
  rw [Function.comp_apply] at hrow
  split at hrow
  · exact h row.1 row.2 hrow
  · exact hrow

/-- A break-glass device that stands has a new id, or stood before. -/
structure Stood (db db' : Peers) : Prop where
  seq : db.devices.seq ≤ db'.devices.seq
  stood : ∀ {id d'}, (id, d') ∈ db'.devices.rows → isLiveBreakGlass d' = true →
    db.devices.seq < id ∨ ∃ d, (id, d) ∈ db.devices.rows ∧ isLiveBreakGlass d = true

theorem Stood.refl (db : Peers) : Stood db db := by
  refine ⟨le_rfl, ?_⟩
  intro id d hd hlive
  exact Or.inr ⟨d, hd, hlive⟩

theorem Stood.insert {new : WGDevice} (h : db'.devices = db.devices.insert new) : Stood db db' := by
  constructor
  · rw [h]
    exact Int.le_add_one le_rfl
  · intro id d' hd' hlive
    rw [h] at hd'
    rcases List.mem_append.mp hd' with hold | hnew
    · exact Or.inr ⟨d', hold, hlive⟩
    · left
      obtain ⟨rfl, -⟩ := Prod.mk.inj (List.mem_singleton.mp hnew)
      exact Int.lt_succ _

theorem Stood.modify {id : Int} {f : WGDevice → WGDevice} (h : db'.devices = db.devices.modify id f)
    (hlive : ∀ d, isLiveBreakGlass (f d) = true → isLiveBreakGlass d = true) : Stood db db' := by
  constructor
  · rw [h]
    exact le_rfl
  · intro id' d' hd' hlive'
    rw [h] at hd'
    obtain ⟨⟨id₀, d⟩, hd, heq⟩ := List.mem_map.mp hd'
    right
    dsimp only at heq
    split at heq
    · obtain ⟨rfl, rfl⟩ := Prod.mk.inj heq
      exact ⟨d, hd, hlive d hlive'⟩
    · obtain ⟨rfl, rfl⟩ := Prod.mk.inj heq
      exact ⟨d, hd, hlive'⟩

/-- Nothing that counts is added. -/
structure Shrinks (db db' : Peers) : Prop where
  owned : ∀ provider sub, ownedDevices db' provider sub ≤ ownedDevices db provider sub
  breakGlass : liveBreakGlass db'.devices.rows ≤ liveBreakGlass db.devices.rows
  stood : Stood db db'

theorem Shrinks.limits {perUser : Nat} (h : Shrinks db db') (hlimits : Limits perUser db) :
    Limits perUser db' where
  owned hpos provider sub := Nat.le_trans (h.owned provider sub) (hlimits.owned hpos provider sub)
  breakGlass := Nat.le_trans h.breakGlass hlimits.breakGlass

theorem shrinks_of_modify (id : Int) (f : WGDevice → WGDevice)
    (hdevices : db'.devices = db.devices.modify id f)
    (hkept : ∀ d, (f d).kind = d.kind ∧ (f d).provider = d.provider ∧ (f d).sub = d.sub)
    (hrevoked : ∀ d, d.revoked = true → (f d).revoked = true) : Shrinks db db' := by
  have hunrevoked : ∀ d, (f d).revoked = false → d.revoked = false := by
    intro d hd
    by_contra hnot
    rw [hrevoked d (Bool.not_eq_false _ ▸ hnot)] at hd
    cases hd
  have hlive : ∀ d, isLiveBreakGlass (f d) = true → isLiveBreakGlass d = true := by
    intro d hd
    simp only [isLiveBreakGlass, (hkept d).1, Bool.and_eq_true, Bool.not_eq_true'] at hd ⊢
    exact ⟨hd.1, hunrevoked d hd.2⟩
  constructor
  · intro provider sub
    rw [ownedDevices, hdevices]
    apply countP_modify_le
    intro _ d hd
    obtain ⟨hkind, hprovider, hsub⟩ := hkept d
    simp only [hkind, hprovider, hsub, Bool.and_eq_true, Bool.not_eq_true'] at hd ⊢
    exact ⟨hd.1, hunrevoked d hd.2⟩
  · rw [liveBreakGlass, hdevices]
    apply countP_modify_le
    intro _ d hd
    exact hlive d hd
  · exact Stood.modify hdevices hlive

theorem Shrinks.refl (db : Peers) : Shrinks db db :=
  ⟨fun _ _ => Nat.le_refl _, Nat.le_refl _, Stood.refl db⟩

theorem shrinks_setEnabled (db : Peers) (id : Int) (enabled : Bool) :
    Shrinks db (orElse (setWGDeviceEnabled db id enabled) db) := by
  unfold orElse
  split
  · next db' h =>
    obtain ⟨d, -, -, rfl⟩ := setWGDeviceEnabled_eq_ok h
    apply shrinks_of_modify id (fun d => { d with enabled }) rfl
    · intro d
      exact ⟨rfl, rfl, rfl⟩
    · intro d hd
      exact hd
  · exact Shrinks.refl db

theorem shrinks_revoke (db : Peers) (id : Int) (owner : Owner) :
    Shrinks db (orElse (revokeWGDevice db id owner) db) := by
  unfold orElse
  split
  · next db' h =>
    obtain ⟨d, -, -, rfl⟩ := revokeWGDevice_eq_ok h
    apply shrinks_of_modify id
      (fun d => { d with revoked := true, enabled := false, address := none }) rfl
    · intro d
      exact ⟨rfl, rfl, rfl⟩
    · intro d _
      rfl
  · exact Shrinks.refl db

/-- An insertion keeps the limit of every owner, and adds to the break-glass devices just
if it is of one. -/
theorem Request.create_counts {r : Request} {perUser : Nat}
    (h : r.create lib perUser db tunnel sealing now = .ok db') :
    ((0 < perUser → ∀ provider sub, ownedDevices db provider sub ≤ perUser) →
      0 < perUser → ∀ provider sub, ownedDevices db' provider sub ≤ perUser) ∧
    liveBreakGlass db'.devices.rows =
      liveBreakGlass db.devices.rows + (if r.endpoint.isBreakGlass then 1 else 0) ∧
    Stood db db' := by
  obtain ⟨new, hdevices, hkind, hprovider, hsub, hrevoked, hlimit⟩ := createWGDevice_counted h
  refine ⟨?_, ?_, Stood.insert hdevices⟩
  · intro hall hpos provider sub
    have hold := hall hpos provider sub
    rw [ownedDevices, hdevices, countP_insert]
    split
    · next hcounts =>
      simp only [Bool.and_eq_true, beq_iff_eq] at hcounts
      obtain ⟨⟨⟨hsso, rfl⟩, rfl⟩, -⟩ := hcounts
      -- only the portal makes such a device, and its transaction has counted
      have hportal : r.limit perUser = perUser := by
        rw [hkind] at hsso
        unfold Request.device at hsso
        unfold Request.limit
        split at hsso <;> simp_all
      rw [hportal, ← hprovider, ← hsub] at hlimit
      exact hlimit hpos
    · exact hold
  · rw [liveBreakGlass, hdevices, countP_insert]
    congr 1
    rw [isLiveBreakGlass, hkind, hrevoked]
    unfold Request.device Endpoint.isBreakGlass
    split <;> simp_all

end Calls

/-! ### What a list is still worth

Devices only ever cease to stand, and an id is given once: a device that stands and is in a list
read before stood when the list was read. -/

section Lists

variable {db db' : Peers} {existing : List (Int × WGDevice)}

structure Seen (db : Peers) (existing : List (Int × WGDevice)) : Prop where
  given : ∀ row ∈ existing, row.1 ≤ db.devices.seq
  stood : ∀ {id d d₀}, (id, d) ∈ db.devices.rows → isLiveBreakGlass d = true → (id, d₀) ∈ existing →
    isLiveBreakGlass d₀ = true

theorem Seen.listed (db : Peers) : Seen db db.devices.rows where
  given row hrow := (db.devices.keysGiven row hrow).2
  stood hd hlive hd₀ := Table.eq_of_mem hd hd₀ ▸ hlive

theorem Seen.mono (h : Seen db existing) (hstood : Stood db db') : Seen db' existing where
  given row hrow := le_trans (h.given row hrow) hstood.seq
  stood := by
    intro id d d₀ hd hlive hd₀
    rcases hstood.stood hd hlive with hnew | ⟨dₒ, hold, hliveₒ⟩
    · have hgiven := h.given (id, d₀) hd₀
      dsimp only at hgiven
      omega
    · exact h.stood hold hliveₒ hd₀

/-- No more devices stand than the list had, as long as it has them all. -/
theorem Seen.liveBreakGlass_le (h : Seen db existing)
    (hall : ∀ row ∈ db.devices.rows, isLiveBreakGlass row.2 = true →
      row.1 ∈ existing.map Prod.fst) :
    liveBreakGlass db.devices.rows ≤ liveBreakGlass existing := by
  have hsub : (db.devices.rows.filter fun row => isLiveBreakGlass row.2).map Prod.fst ⊆
      (existing.filter fun row => isLiveBreakGlass row.2).map Prod.fst := by
    intro id hid
    obtain ⟨⟨id, d⟩, hd, rfl⟩ := List.mem_map.mp hid
    obtain ⟨hrow, hlive⟩ := List.mem_filter.mp hd
    obtain ⟨⟨id₀, d₀⟩, hd₀, heq⟩ := List.mem_map.mp (hall (id, d) hrow hlive)
    obtain rfl : id₀ = id := heq
    exact List.mem_map.mpr ⟨(id₀, d₀), List.mem_filter.mpr ⟨hd₀, h.stood hrow hlive hd₀⟩, rfl⟩
  have hnodup : ((db.devices.rows.filter fun row => isLiveBreakGlass row.2).map Prod.fst).Nodup :=
    db.devices.keysUnique.sublist (List.filter_sublist.map Prod.fst)
  have hle := (List.subperm_of_subset hnodup hsub).length_le
  rwa [List.length_map, List.length_map, ← List.countP_eq_length_filter,
    ← List.countP_eq_length_filter] at hle

/-- A break-glass request that goes on has read a list with room. -/
def Request.Sound (db : Peers) (r : Request) : Prop :=
  r.endpoint.isBreakGlass = true → r.phase ≠ .arrived → r.phase ≠ .done →
    liveBreakGlass r.existing < maxBreakGlass ∧ Seen db r.existing

theorem Request.Sound.mono {r : Request} (h : r.Sound db) (hstood : Stood db db') :
    r.Sound db' := by
  intro hkind harrived hdone
  obtain ⟨hroom, hseen⟩ := h hkind harrived hdone
  exact ⟨hroom, hseen.mono hstood⟩

theorem Request.Sound.done (r : Request) : ({ r with phase := .done } : Request).Sound db := by
  intro _ _ hdone
  exact absurd rfl hdone

/-- Going on keeps the list. -/
theorem Request.Sound.goOn {r : Request} (h : r.Sound db) (harrived : r.phase ≠ .arrived)
    (hdone : r.phase ≠ .done) (phase : Phase) : ({ r with phase } : Request).Sound db :=
  fun hkind _ _ => h hkind harrived hdone

theorem sound_set {requests : List Request} {i : Nat} {r' : Request}
    (h : ∀ r ∈ requests, r.Sound db) (hr' : r'.Sound db) : ∀ r ∈ requests.set i r', r.Sound db := by
  intro r hr
  rcases List.mem_or_eq_of_mem_set hr with hold | rfl
  · exact h r hold
  · exact hr'

end Lists

/-! ### Runs

The list step makes the request's claim, and the insertion uses it. -/

section Runs

variable {lib : Lib} {cred : Credentials} {box : Box} {perUser : Nat} {s s' : State} {label : Label}

/-- Where nothing is created the tables stay, or a device is switched or revoked. -/
theorem shrinks_step (hstep : step lib cred box perUser s label = some s')
    (hcreate : ∀ i tunnel sealing now, label ≠ .create i tunnel sealing now) :
    Shrinks s.peers s'.peers := by
  cases label with
  | arrive endpoint name publicKey =>
      obtain rfl := Option.some.inj hstep
      exact Shrinks.refl _
  | refuse i =>
      obtain ⟨r, -, rfl⟩ := Option.map_eq_some_iff.mp hstep
      exact Shrinks.refl _
  | pass i =>
      obtain ⟨r, -, hnext⟩ := Option.bind_eq_some_iff.mp hstep
      split_ifs at hnext
      obtain rfl := Option.some.inj hnext
      exact Shrinks.refl _
  | list i =>
      obtain ⟨r, -, hnext⟩ := Option.bind_eq_some_iff.mp hstep
      split_ifs at hnext
      obtain rfl := Option.some.inj hnext
      exact Shrinks.refl _
  | confirm i =>
      obtain ⟨r, -, hnext⟩ := Option.bind_eq_some_iff.mp hstep
      split at hnext
      · split at hnext
        · obtain rfl := Option.some.inj hnext
          exact Shrinks.refl _
        · split_ifs at hnext <;> obtain rfl := Option.some.inj hnext <;> exact Shrinks.refl _
      · cases hnext
  | verify i now =>
      obtain ⟨r, -, hnext⟩ := Option.bind_eq_some_iff.mp hstep
      split at hnext
      · obtain rfl := Option.some.inj hnext
        exact Shrinks.refl _
      · cases hnext
  | create i tunnel sealing now => exact absurd rfl (hcreate i tunnel sealing now)
  | enable id enabled =>
      obtain rfl := Option.some.inj hstep
      exact shrinks_setEnabled s.peers id enabled
  | revoke id owner =>
      obtain rfl := Option.some.inj hstep
      exact shrinks_revoke s.peers id owner

/-- The list step: a break-glass request goes on only with a list that has room. -/
theorem sound_step (hstep : step lib cred box perUser s label = some s')
    (h : ∀ r ∈ s.requests, r.Sound s.peers) : ∀ r ∈ s'.requests, r.Sound s.peers := by
  cases label with
  | arrive endpoint name publicKey =>
      obtain rfl := Option.some.inj hstep
      intro r hr
      rcases List.mem_append.mp hr with hold | hnew
      · exact h r hold
      · obtain rfl := List.mem_singleton.mp hnew
        intro _ harrived
        exact absurd rfl harrived
  | refuse i =>
      obtain ⟨r, -, rfl⟩ := Option.map_eq_some_iff.mp hstep
      exact sound_set h (Request.Sound.done r)
  | pass i =>
      obtain ⟨r, -, hnext⟩ := Option.bind_eq_some_iff.mp hstep
      split_ifs at hnext with hready
      obtain rfl := Option.some.inj hnext
      refine sound_set h ?_
      intro hkind
      rw [hready.2] at hkind
      cases hkind
  | list i =>
      obtain ⟨r, -, hnext⟩ := Option.bind_eq_some_iff.mp hstep
      split_ifs at hnext
      obtain rfl := Option.some.inj hnext
      refine sound_set h ?_
      intro _ _ hdone
      refine ⟨?_, Seen.listed s.peers⟩
      by_contra hfull
      exact hdone (if_pos (Nat.not_lt.mp hfull))
  | confirm i =>
      obtain ⟨r, hr, hnext⟩ := Option.bind_eq_some_iff.mp hstep
      have hsound := h r (List.mem_of_getElem? hr)
      split at hnext
      · rename_i hphase _
        split at hnext
        · obtain rfl := Option.some.inj hnext
          exact sound_set h (Request.Sound.done r)
        · rename_i u _
          split_ifs at hnext
          · obtain rfl := Option.some.inj hnext
            exact sound_set h (Request.Sound.done r)
          · obtain rfl := Option.some.inj hnext
            exact sound_set h (hsound.goOn (by simp [hphase]) (by simp [hphase]) (.confirmed u))
      · cases hnext
  | verify i now =>
      obtain ⟨r, hr, hnext⟩ := Option.bind_eq_some_iff.mp hstep
      have hsound := h r (List.mem_of_getElem? hr)
      split at hnext
      · rename_i hphase _
        obtain rfl := Option.some.inj hnext
        exact sound_set h (hsound.goOn (by simp [hphase]) (by simp [hphase]) _)
      · cases hnext
  | create i tunnel sealing now =>
      obtain ⟨r, -, hnext⟩ := Option.bind_eq_some_iff.mp hstep
      split_ifs at hnext
      obtain rfl := Option.some.inj hnext
      exact sound_set h (Request.Sound.done r)
  | enable id enabled =>
      obtain rfl := Option.some.inj hstep
      exact h
  | revoke id owner =>
      obtain rfl := Option.some.inj hstep
      exact h

/-- The insertion: the room that the list had is still there. -/
theorem limits_create {i : Nat} {tunnel : Prefix} {sealing : Check Unit} {now : Nat}
    (hlimits : Limits perUser s.peers) (hsound : ∀ r ∈ s.requests, r.Sound s.peers)
    (hundisturbed : Undisturbed lib perUser s (.create i tunnel sealing now))
    (hstep : step lib cred box perUser s (.create i tunnel sealing now) = some s') :
    Limits perUser s'.peers ∧ Stood s.peers s'.peers := by
  obtain ⟨r, hr, hnext⟩ := Option.bind_eq_some_iff.mp hstep
  split_ifs at hnext with hready
  obtain rfl := Option.some.inj hnext
  cases hresult : r.create lib perUser s.peers tunnel sealing now with
  | error why => exact ⟨hlimits, Stood.refl s.peers⟩
  | ok db' =>
      obtain ⟨howned, hcount, hstood⟩ := Request.create_counts hresult
      refine ⟨⟨howned hlimits.owned, ?_⟩, hstood⟩
      change liveBreakGlass db'.devices.rows ≤ maxBreakGlass
      rw [hcount]
      cases hkind : r.endpoint.isBreakGlass with
      | false => exact hlimits.breakGlass
      | true =>
          obtain ⟨hroom, hseen⟩ := hsound r (List.mem_of_getElem? hr) hkind (by simp [hready])
            (by simp [hready])
          have hall := hundisturbed r hr hkind (by rw [hresult]; rfl)
          exact Nat.lt_of_le_of_lt (hseen.liveBreakGlass_le hall) hroom

/-- What holds along a run: the limits, and of every request what its list is worth. -/
structure Inv (perUser : Nat) (s : State) : Prop where
  limits : Limits perUser s.peers
  sound : ∀ r ∈ s.requests, r.Sound s.peers

theorem Inv.step (h : Inv perUser s) (hundisturbed : Undisturbed lib perUser s label)
    (hstep : step lib cred box perUser s label = some s') : Inv perUser s' := by
  have hsound := sound_step hstep h.sound
  have hafter : Limits perUser s'.peers ∧ Stood s.peers s'.peers := by
    by_cases hcreate : ∃ i tunnel sealing now, label = .create i tunnel sealing now
    · obtain ⟨i, tunnel, sealing, now, rfl⟩ := hcreate
      exact limits_create h.limits h.sound hundisturbed hstep
    · have hshrinks := shrinks_step hstep fun i tunnel sealing now heq =>
        hcreate ⟨i, tunnel, sealing, now, heq⟩
      exact ⟨hshrinks.limits h.limits, hshrinks.stood⟩
  exact ⟨hafter.1, fun r hr => (hsound r hr).mono hafter.2⟩

/-- **Both limits.** They hold in every state of a run in which no break-glass device is stored
between the list of a request and its own insertion. -/
theorem limits_hold_undisturbed {peers : Peers} {users : Users} {labels : List Label}
    (hlimits : Limits perUser peers)
    (hmeets : RunMeets (step lib cred box perUser) (Undisturbed lib perUser) (start peers users)
      labels)
    (hrun : run (step lib cred box perUser) (start peers users) labels = some s) :
    Limits perUser s.peers := by
  have hstart : Inv perUser (start peers users) := ⟨hlimits, by simp [start]⟩
  have hinv : Inv perUser s := by
    apply hmeets.invariant _ hstart hrun
    intro s label next h hundisturbed hstep
    exact h.step hundisturbed hstep
  exact hinv.limits

/-- **The owners' limit.** It holds whatever the requests do. -/
theorem owned_within_limit {peers : Peers} {users : Users} {labels : List Label}
    (hpos : 0 < perUser)
    (hstart : ∀ provider sub, ownedDevices peers provider sub ≤ perUser)
    (hrun : run (step lib cred box perUser) (start peers users) labels = some s) :
    ∀ provider sub, ownedDevices s.peers provider sub ≤ perUser := by
  refine run_preserves (P := fun s : State =>
    ∀ provider sub, ownedDevices s.peers provider sub ≤ perUser) ?_ hstart hrun
  intro s label s' hs hstep provider sub
  by_cases hcreate : ∃ i tunnel sealing now, label = .create i tunnel sealing now
  · obtain ⟨i, tunnel, sealing, now, rfl⟩ := hcreate
    obtain ⟨r, -, hnext⟩ := Option.bind_eq_some_iff.mp hstep
    split_ifs at hnext
    obtain rfl := Option.some.inj hnext
    cases hresult : r.create lib perUser s.peers tunnel sealing now with
    | error why => exact hs provider sub
    | ok db' => exact (Request.create_counts hresult).1 (fun _ => hs) hpos provider sub
  · have hother : ∀ i tunnel sealing now, label ≠ .create i tunnel sealing now := by
      intro i tunnel sealing now heq
      exact hcreate ⟨i, tunnel, sealing, now, heq⟩
    exact Nat.le_trans ((shrinks_step hstep hother).owned provider sub) (hs provider sub)

end Runs

/-! ### Three at once

The account has codes to give for every request, so nothing but the count stands in their way. -/

section Race

def owner : Users where
  rows := [⟨1, "admin@example.com", "password", false, "JBSWY3DPEHPK3PXP", 0⟩]
  idsUnique := List.nodup_singleton _
  emailsUnique := List.nodup_singleton _

def keyOf (byte : UInt8) : String := keyText (List.replicate 32 byte)

def tunnelNetwork : Prefix := WgPolicy.cidr4 10 100 0 0 24

/-- A break-glass creation with the code of a step, up to the insertion. -/
def asks (code : String) (byte : UInt8) : Label :=
  .arrive (.breakGlass "admin@example.com" "password" code [⟨"192.168.1.0/24", "any", ""⟩])
    "laptop" (keyOf byte)

/-- Each of three creations reads the list before any of them inserts its device.  The account
has the codes of three steps to give, each of them once. -/
def threeAtOnce : List Label :=
  [asks "1" 1, asks "2" 2, asks "3" 3, .list 0, .list 1, .list 2, .confirm 0, .confirm 1,
    .confirm 2, .verify 0 (60 * second), .verify 1 (60 * second), .verify 2 (60 * second),
    .create 0 tunnelNetwork (.ok ()) 60, .create 1 tunnelNetwork (.ok ()) 60,
    .create 2 tunnelNetwork (.ok ()) 60]

theorem limits_empty : Limits 5 Peers.empty where
  owned _ _ _ := Nat.zero_le _
  breakGlass := Nat.zero_le _

/-- The steps of the break-glass creation with the number `i`. -/
def goesThrough (i : Nat) : List Label :=
  [.list i, .confirm i, .verify i (60 * second), .create i tunnelNetwork (.ok ()) 60]

/-- Two creations fill the room, a third is turned away by its list, and a revocation makes room
for the fourth. -/
def oneAfterAnother : List Label :=
  asks "1" 1 :: goesThrough 0 ++ asks "2" 2 :: goesThrough 1 ++
    [asks "3" 3, .list 2, .revoke 1 none] ++
    asks "3" 3 :: goesThrough 3

theorem limits_hold_undisturbed_one_after_another :
    ∃ s, run (step Store.asciiLib plainCredentials emptyBox 5) (start Peers.empty owner)
      oneAfterAnother = some s ∧ s.peers.devices.rows.length = 3 ∧
      s.requests.map Request.phase = [.done, .done, .done, .done] ∧ Limits 5 s.peers := by
  have hend : (run (step Store.asciiLib plainCredentials emptyBox 5) (start Peers.empty owner)
      oneAfterAnother).map (fun s => (s.peers.devices.rows.length, s.requests.map Request.phase)) =
      some (3, [.done, .done, .done, .done]) := by
    decide +kernel
  obtain ⟨s, hs, hview⟩ := Option.map_eq_some_iff.mp hend
  obtain ⟨hlength, hphases⟩ := Prod.mk.inj hview
  have hmeets : RunMeets (step Store.asciiLib plainCredentials emptyBox 5)
      (Undisturbed Store.asciiLib 5) (start Peers.empty owner) oneAfterAnother := by
    decide +kernel
  exact ⟨s, hs, hlength, hphases, limits_hold_undisturbed limits_empty hmeets hs⟩

theorem three_break_glass_devices :
    ¬ ∀ (lib : Lib) (cred : Credentials) (box : Box) (perUser : Nat) (peers : Peers) (users : Users)
      (labels : List Label) (s : State), Limits perUser peers →
      run (step lib cred box perUser) (start peers users) labels = some s →
      Limits perUser s.peers := by
  intro hall
  have hrun : ((run (step Store.asciiLib plainCredentials emptyBox 5) (start Peers.empty owner)
      threeAtOnce).map fun s => liveBreakGlass s.peers.devices.rows) = some 3 := by
    decide +kernel
  obtain ⟨s, hs, hthree⟩ := Option.map_eq_some_iff.mp hrun
  have hlimit := (hall _ _ _ _ _ _ _ s limits_empty hs).breakGlass
  rw [hthree] at hlimit
  exact absurd hlimit (by decide)

end Race

end Quicgate.DeviceLimits
