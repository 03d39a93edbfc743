import Mathlib.Data.List.Nodup
import Quicgate.TransitionSystem

/-!
# The authorization leases of VPN owners

The session table of the store (`internal/store/vpn.go`) and the writers that
race over its rows: logins at the portal, renewals, the tick that lapses what
ran out, admins and owners who end a session, and admins who block an owner
(`internal/engine/portal.go`).  A store operation is one step.  A renewal reads
its session in one step and commits, lapses or marks it in a later one, and any
number of renewals may be in between.

What a step can do to a row is said once (`Amended`); the four parts of the
protocol's safety (`lease_safety`) follow from it by induction along the run:
ended sessions stay ended, blocked owners have none, the hard limit is the
login's, and no generation is committed twice.  `lease_safety_raced` is a run in
which a renewal comes too late.
-/

namespace Quicgate.VpnLease

open Quicgate.TransitionSystem

/-! ### The session table

The statements of the store, each with its guard in the `WHERE` clause.  A write that needs a
generation finds no row once the session has moved on, which is how a late renewal fails. -/

inductive SessionState where
  | active
  | lapsed
  | ended
deriving DecidableEq, Repr

/-- An owner's authorization lease. Moments are nanoseconds. -/
structure VPNSession where
  id : Nat
  provider : Int
  sub : String
  email : String
  groups : List String
  refreshToken : String
  loginAt : Int
  renewedAt : Int
  leaseUntil : Int
  graceUntil : Int
  hardUntil : Int
  transient : Bool
  state : SessionState
  generation : Nat
deriving DecidableEq, Repr

/-- The moment the owner's devices stop being admitted. -/
def VPNSession.accessUntil (s : VPNSession) : Int :=
  let until_ := if s.transient && s.graceUntil > s.leaseUntil then s.graceUntil else s.leaseUntil
  if s.hardUntil < until_ then s.hardUntil else until_

def VPNSession.live (s : VPNSession) (now : Int) : Bool :=
  s.state == .active && now < s.accessUntil

def VPNSession.owner (s : VPNSession) : Int × String := (s.provider, s.sub)

structure VPNBlocked where
  provider : Int
  sub : String
  email : String
  blockedAt : String
deriving DecidableEq, Repr

def VPNBlocked.owner (b : VPNBlocked) : Int × String := (b.provider, b.sub)

/-- The tables `vpn_sessions` and `vpn_blocked`. `nextId` is the next automatic id. -/
structure Store where
  sessions : List VPNSession
  blocked : List VPNBlocked
  nextId : Nat
deriving DecidableEq, Repr

def Store.update (s : Store) (where_ : VPNSession → Bool) (set : VPNSession → VPNSession) :
    Store :=
  { s with sessions := s.sessions.map fun r => if where_ r then set r else r }

def Store.ownerBlocked (s : Store) (owner : Int × String) : Bool :=
  s.blocked.any fun b => b.owner == owner

/-- `none` is `ErrOwnerBlocked`. -/
def loginVPNSession (s : Store) (v : VPNSession) : Option Store :=
  if s.ownerBlocked v.owner then none
  else match s.sessions.find? fun r => r.owner == v.owner with
    | none => some { s with
        sessions := s.sessions ++
          [{ v with id := s.nextId, transient := false, state := .active, generation := 1 }]
        nextId := s.nextId + 1 }
    | some row => some (s.update (fun r => r.id == row.id) fun r => { r with
        email := v.email, groups := v.groups, loginAt := v.loginAt, renewedAt := v.renewedAt,
        leaseUntil := v.leaseUntil, graceUntil := v.graceUntil, hardUntil := v.hardUntil,
        refreshToken := v.refreshToken, transient := false, state := .active,
        generation := row.generation + 1 })

/-- The row a renewal of generation `from_` commits to. -/
def renews (v : VPNSession) (from_ : Nat) (r : VPNSession) : Bool :=
  r.id == v.id && r.generation == from_ && r.state == .active

/-- `none` is `ErrStaleSession`. -/
def renewVPNSession (s : Store) (v : VPNSession) (from_ : Nat) : Option Store :=
  if s.sessions.any (renews v from_) then
    some (s.update (renews v from_) fun r => { r with
      email := v.email, groups := v.groups, refreshToken := v.refreshToken,
      renewedAt := v.renewedAt, leaseUntil := v.leaseUntil, graceUntil := v.graceUntil,
      transient := false, generation := r.generation + 1 })
  else none

def markVPNSessionTransient (s : Store) (id from_ : Nat) : Store :=
  s.update (fun r => r.id == id && r.generation == from_ && r.state == .active && !r.transient)
    fun r => { r with transient := true }

/-- `from_ = 0` ends the session whatever its generation. -/
def endVPNSession (s : Store) (id : Nat) (state : SessionState) (from_ : Nat) : Store :=
  s.update (fun r => r.id == id && (from_ == 0 || r.generation == from_)) fun r => { r with
    state := state, refreshToken := "", transient := false, generation := r.generation + 1 }

def blockVPNOwner (s : Store) (b : VPNBlocked) : Store :=
  let replaced : Store := { s with blocked := s.blocked.filter (·.owner != b.owner) ++ [b] }
  replaced.update (fun r => r.owner == b.owner) fun r => { r with
    state := .ended, refreshToken := "", generation := r.generation + 1 }

def unblockVPNOwner (s : Store) (owner : Int × String) : Store :=
  { s with blocked := s.blocked.filter (·.owner != owner) }

/-! ### Logins, renewals and the tick

`visit` is the tick at one of its sessions and `settle` the end of a renewal; the answer of the
identity provider is part of the label. -/

structure Settings where
  leaseMinutes : Int -- wg_lease_minutes
  graceMinutes : Int -- wg_outage_grace_minutes
  sessionDays : Int -- wg_session_days

def minute : Int := 60 * 1000000000

def newLease (cfg : Settings) (now : Int) (s : VPNSession) : VPNSession :=
  let lease := max (cfg.leaseMinutes * minute) (2 * minute)
  let grace := min (cfg.graceMinutes * minute) (60 * minute)
  { s with renewedAt := now, leaseUntil := now + lease, graceUntil := now + lease + grace }

/-- The lease and the grace stay within the hard limit. -/
def capLease (s : VPNSession) : VPNSession :=
  { s with leaseUntil := min s.leaseUntil s.hardUntil, graceUntil := min s.graceUntil s.hardUntil }

structure Login where
  provider : Int
  sub : String
  email : String
  groups : List String
  refreshToken : String
  now : Int

def loginSession (cfg : Settings) (l : Login) : VPNSession :=
  let fresh := newLease cfg l.now {
    id := 0, provider := l.provider, sub := l.sub, email := l.email, groups := l.groups,
    refreshToken := l.refreshToken, loginAt := l.now, renewedAt := 0, leaseUntil := 0,
    graceUntil := 0, hardUntil := 0, transient := false, state := .active, generation := 0 }
  capLease { fresh with hardUntil := l.now + cfg.sessionDays * (24 * 60 * minute) }

inductive Answer where
  | noProvider
  | unreachable -- discovery, the token request or UserInfo failed
  | refused -- the grant is gone, or there is no usable ID token
  | identity (sub email : String) (groups : List String) (token : String) (now : Int)

inductive Decision where
  | lapse
  | transient
  | renew (next : VPNSession)

def renewLease (cfg : Settings) (s : VPNSession) (a : Answer) : Decision :=
  if s.refreshToken = "" then .lapse
  else match a with
    | .noProvider => .lapse
    | .unreachable => .transient
    | .refused => .lapse
    | .identity sub email groups token now =>
        if sub ≠ s.sub then .lapse
        else
          let next := capLease { newLease cfg now s with hardUntil := s.hardUntil }
          .renew { next with
            groups := groups
            email := if email = "" then next.email else email
            refreshToken := if token = "" then next.refreshToken else token }

inductive Phase where
  | running
  | committed
  | stale
  | closed -- the session lapsed or was marked
deriving DecidableEq, Repr

/-- A renewal with the session as it was read, by the tick of that number. -/
structure Renewal where
  session : VPNSession
  tick : Nat
  phase : Phase
deriving DecidableEq, Repr

/-- A tick with the sessions it listed and has not come to yet. -/
structure Tick where
  now : Int
  left : List VPNSession
deriving DecidableEq, Repr

structure State where
  store : Store
  ticks : List Tick
  renewals : List Renewal
deriving DecidableEq, Repr

def init : State := ⟨⟨[], [], 1⟩, [], []⟩

inductive Label where
  | login (cfg : Settings) (l : Login)
  | end_ (id : Nat) -- an admin, or the owner at the portal
  | block (b : VPNBlocked)
  | unblock (owner : Int × String)
  | tick (now : Int) (unreadable : List Nat)
  | visit (k j : Nat)
  | answer (cfg : Settings) (i : Nat) (a : Answer)

/-- A row as `ListVPNSessions` returns it: a token that cannot be opened is none. -/
def scan (unreadable : List Nat) (r : VPNSession) : VPNSession :=
  if unreadable.contains r.id then { r with refreshToken := "" } else r

/-- The tick at one of its sessions. It lapses what ran out, and renews what has half
of its lease behind it. -/
def visit (s : State) (k : Nat) (now : Int) (v : VPNSession) : State :=
  if v.state ≠ .active then s
  else if !v.live now then { s with store := endVPNSession s.store v.id .lapsed v.generation }
  else if now > v.renewedAt + (v.leaseUntil - v.renewedAt).tdiv 2 then
    { s with renewals := s.renewals ++ [⟨v, k, .running⟩] }
  else s

def settle (s : State) (i : Nat) (n : Renewal) : Decision → State
  | .lapse => { s with
      store := endVPNSession s.store n.session.id .lapsed n.session.generation
      renewals := s.renewals.set i { n with phase := .closed } }
  | .transient => { s with
      store := markVPNSessionTransient s.store n.session.id n.session.generation
      renewals := s.renewals.set i { n with phase := .closed } }
  | .renew next =>
      match renewVPNSession s.store next n.session.generation with
      | some store =>
          { s with store := store, renewals := s.renewals.set i { n with phase := .committed } }
      | none => { s with renewals := s.renewals.set i { n with phase := .stale } }

def step (s : State) : Label → Option State
  | .login cfg l => (loginVPNSession s.store (loginSession cfg l)).map fun store =>
      { s with store := store }
  | .end_ id => some { s with store := endVPNSession s.store id .ended 0 }
  | .block b => some { s with store := blockVPNOwner s.store b }
  | .unblock owner => some { s with store := unblockVPNOwner s.store owner }
  | .tick now unreadable => some { s with
      ticks := s.ticks ++ [⟨now, s.store.sessions.map (scan unreadable)⟩] }
  | .visit k j =>
      match s.ticks[k]? with
      | none => none
      | some tick => match tick.left[j]? with
        | none => none
        | some v => some { visit s k tick.now v with
            ticks := s.ticks.set k { tick with left := tick.left.eraseIdx j } }
  | .answer cfg i a =>
      match s.renewals[i]? with
      | none => none
      | some n =>
          if n.phase = .running then some (settle s i n (renewLease cfg n.session a)) else none

/-! ### What a step does to a row

`Moves` lifts `Amended` from rows to the store: a step amends rows, adds the row of a first login
or blocks somebody, and every writer of the protocol is one of these. -/

/-- What one step can do to a row. Only a login of the owner restarts it; whatever ends
it moves it to a new generation, and only the mark of an outage does not. -/
inductive Amended (login : Option (Int × String)) (r : VPNSession) : VPNSession → Prop where
  | same : Amended login r r
  | marked : Amended login r { r with transient := true }
  | ended (r' : VPNSession) : r'.id = r.id → r'.owner = r.owner → r'.hardUntil = r.hardUntil →
      r'.generation = r.generation + 1 → r'.state ≠ .active → Amended login r r'
  | renewed (r' : VPNSession) : r'.id = r.id → r'.owner = r.owner → r'.hardUntil = r.hardUntil →
      r'.generation = r.generation + 1 → r.state = .active → Amended login r r'
  | restarted (r' : VPNSession) : r'.id = r.id → r'.owner = r.owner →
      r'.generation = r.generation + 1 → login = some r.owner → Amended login r r'

def Label.loginOwner : Label → Option (Int × String)
  | .login _ l => some (l.provider, l.sub)
  | _ => none

namespace Amended

variable {login : Option (Int × String)} {r r' : VPNSession}

theorem id_eq (h : Amended login r r') : r'.id = r.id := by
  cases h with
  | same | marked => rfl
  | ended _ hid | renewed _ hid | restarted _ hid => exact hid

theorem owner_eq (h : Amended login r r') : r'.owner = r.owner := by
  cases h with
  | same | marked => rfl
  | ended _ _ howner | renewed _ _ howner | restarted _ _ howner => exact howner

theorem generation_le (h : Amended login r r') : r.generation ≤ r'.generation := by
  cases h with
  | same | marked => exact Nat.le_refl _
  | ended _ _ _ _ hgen | renewed _ _ _ _ hgen | restarted _ _ _ hgen => omega

/-- Without a login of its owner a row that is not active stays so. -/
theorem not_active (h : Amended login r r') (hlogin : login ≠ some r.owner)
    (hstate : r.state ≠ .active) : r'.state ≠ .active := by
  cases h with
  | same | marked => exact hstate
  | ended _ _ _ _ _ hended => exact hended
  | renewed _ _ _ _ _ hactive => exact absurd hactive hstate
  | restarted _ _ _ _ howner => exact absurd howner hlogin

theorem hardUntil_eq (h : Amended login r r') (hlogin : login ≠ some r.owner) :
    r'.hardUntil = r.hardUntil := by
  cases h with
  | same | marked => rfl
  | ended _ _ _ hhard | renewed _ _ _ hhard => exact hhard
  | restarted _ _ _ _ howner => exact absurd howner hlogin

end Amended

/-! ### What a step does to the store

A table with a unique owner and increasing ids; the writers keep it and amend its rows. -/

/-- What the constraints of the tables and the blocks promise of a store. -/
structure Store.Wf (s : Store) : Prop where
  ids : (s.sessions.map (·.id)).Nodup
  below : ∀ r ∈ s.sessions, r.id < s.nextId
  positive : ∀ r ∈ s.sessions, 1 ≤ r.generation
  refused : ∀ b ∈ s.blocked, ∀ r ∈ s.sessions, r.owner = b.owner → r.state ≠ .active

/-- What one step can do to the store: amend rows, add the row of a first login, and
block nobody whose session it leaves active. -/
structure Moves (login : Option (Int × String)) (s s' : Store) (f : VPNSession → VPNSession)
    (fresh : Option VPNSession) : Prop where
  sessions : s'.sessions = s.sessions.map f ++ fresh.toList
  nextId : s'.nextId = s.nextId + fresh.toList.length
  amended : ∀ r ∈ s.sessions, Amended login r (f r)
  first : ∀ v ∈ fresh, v.id = s.nextId ∧ v.generation = 1 ∧ login = some v.owner
  blocked : ∀ b ∈ s'.blocked, (b ∈ s.blocked ∧ login ≠ some b.owner) ∨
    ∀ r ∈ s'.sessions, r.owner = b.owner → r.state ≠ .active

namespace Moves

variable {login : Option (Int × String)} {s s' : Store} {f : VPNSession → VPNSession}
  {fresh : Option VPNSession}

theorem refl (s : Store) : Moves none s s id none where
  sessions := by simp
  nextId := by simp
  amended _ _ := .same
  first _ h := by simp at h
  blocked _ hb := Or.inl ⟨hb, by simp⟩

theorem of_update {where_ : VPNSession → Bool} {set : VPNSession → VPNSession}
    (hlogin : ∀ b ∈ s.blocked, login ≠ some b.owner)
    (hset : ∀ r ∈ s.sessions, where_ r = true → Amended login r (set r)) :
    Moves login s (s.update where_ set) (fun r => if where_ r then set r else r) none where
  sessions := by simp [Store.update]
  nextId := by simp [Store.update]
  amended r hr := by
    cases hwhere : where_ r with
    | true => simpa [hwhere] using hset r hr hwhere
    | false => simpa [hwhere] using .same
  first _ h := by simp at h
  blocked b hb := Or.inl ⟨hb, hlogin b hb⟩

/-- A row of the new store was amended, or is that of a first login. -/
theorem row (h : Moves login s s' f fresh) {r' : VPNSession} (hr' : r' ∈ s'.sessions) :
    (∃ r ∈ s.sessions, Amended login r r') ∨
      (fresh = some r' ∧ r'.id = s.nextId ∧ r'.generation = 1 ∧ login = some r'.owner) := by
  rw [h.sessions, List.mem_append] at hr'
  rcases hr' with hold | hnew
  · obtain ⟨r, hr, rfl⟩ := List.mem_map.mp hold
    exact Or.inl ⟨r, hr, h.amended r hr⟩
  · have hfresh : fresh = some r' := by simpa using hnew
    exact Or.inr ⟨hfresh, h.first r' hfresh⟩

theorem wf (h : Moves login s s' f fresh) (hs : s.Wf) : s'.Wf where
  ids := by
    have hold : (s.sessions.map f).map (·.id) = s.sessions.map (·.id) := by
      rw [List.map_map]
      exact List.map_congr_left fun r hr => (h.amended r hr).id_eq
    rw [h.sessions, List.map_append, hold]
    refine List.Nodup.append hs.ids ?_ ?_
    · cases fresh <;> simp
    · intro id hid hnew
      obtain ⟨r, hr, rfl⟩ := List.mem_map.mp hid
      obtain ⟨v, hv, heq⟩ := List.mem_map.mp hnew
      have hlt := hs.below r hr
      have hfirst := (h.first v (by simpa using hv)).1
      omega
  below r' hr' := by
    rw [h.nextId]
    rcases h.row hr' with ⟨r, hr, hamended⟩ | ⟨hfresh, hid, -, -⟩
    · have hlt := hs.below r hr
      rw [hamended.id_eq]
      omega
    · simp [hfresh, hid]
  positive r' hr' := by
    rcases h.row hr' with ⟨r, hr, hamended⟩ | ⟨-, -, hgen, -⟩
    · exact Nat.le_trans (hs.positive r hr) hamended.generation_le
    · omega
  refused b hb r' hr' howner := by
    rcases h.blocked b hb with ⟨hold, hlogin⟩ | hall
    · rcases h.row hr' with ⟨r, hr, hamended⟩ | ⟨-, -, -, hfirst⟩
      · have hr_owner : r.owner = b.owner := hamended.owner_eq ▸ howner
        exact hamended.not_active (hr_owner ▸ hlogin) (hs.refused b hold r hr hr_owner)
      · exact absurd (howner ▸ hfirst) hlogin
    · exact hall r' hr' howner

end Moves

section Operations

variable {s : Store}

theorem Moves.login (hs : s.Wf) {v : VPNSession} {s' : Store} (h : loginVPNSession s v = some s') :
    ∃ f fresh, Moves (some v.owner) s s' f fresh := by
  unfold loginVPNSession at h
  split_ifs at h with hblocked
  have hlogin : ∀ b ∈ s.blocked, some v.owner ≠ some b.owner := by
    intro b hb heq
    exact hblocked (List.any_eq_true.mpr ⟨b, hb, by simpa using (Option.some.inj heq).symm⟩)
  cases hfind : s.sessions.find? fun r => r.owner == v.owner with
  | none =>
      rw [hfind] at h
      obtain rfl := Option.some.inj h
      refine ⟨id, some _, ⟨by simp; rfl, by simp, fun _ _ => .same, ?_, ?_⟩⟩
      · rintro _ ⟨⟩
        exact ⟨rfl, rfl, rfl⟩
      · exact fun b hb => Or.inl ⟨hb, hlogin b hb⟩
  | some row =>
      rw [hfind] at h
      obtain rfl := Option.some.inj h
      have hrow : row ∈ s.sessions := List.mem_of_find?_eq_some hfind
      have howner : row.owner = v.owner := by simpa using List.find?_some hfind
      refine ⟨_, none, Moves.of_update hlogin ?_⟩
      intro r hr hid
      -- the row with this id is the owner's
      obtain rfl : r = row := List.inj_on_of_nodup_map hs.ids hr hrow (by simpa using hid)
      exact .restarted _ rfl rfl rfl (by rw [howner])

theorem Moves.renew {v : VPNSession} {from_ : Nat} {s' : Store}
    (h : renewVPNSession s v from_ = some s') : ∃ f fresh, Moves none s s' f fresh := by
  unfold renewVPNSession at h
  split_ifs at h
  obtain rfl := Option.some.inj h
  refine ⟨_, none, Moves.of_update (by simp) ?_⟩
  intro r _ hwhere
  have hactive : r.state = .active := by
    simp only [renews, Bool.and_eq_true, beq_iff_eq] at hwhere
    exact hwhere.2
  exact .renewed _ rfl rfl rfl rfl hactive

theorem Moves.mark (id from_ : Nat) :
    ∃ f fresh, Moves none s (markVPNSessionTransient s id from_) f fresh :=
  ⟨_, none, Moves.of_update (by simp) fun _ _ _ => .marked⟩

theorem Moves.end_ (id from_ : Nat) {state : SessionState} (hstate : state ≠ .active) :
    ∃ f fresh, Moves none s (endVPNSession s id state from_) f fresh :=
  ⟨_, none, Moves.of_update (by simp) fun _ _ _ => .ended _ rfl rfl rfl rfl hstate⟩

theorem Moves.block (b : VPNBlocked) :
    ∃ f fresh, Moves none s (blockVPNOwner s b) f fresh := by
  -- the rows move as in an update, which the new list of blocks does not touch
  have hrows : Moves none { s with blocked := s.blocked.filter (·.owner != b.owner) ++ [b] }
      (blockVPNOwner s b) _ none :=
    Moves.of_update (by simp) fun _ _ _ => .ended _ rfl rfl rfl rfl (by simp)
  refine ⟨_, none, ⟨hrows.sessions, hrows.nextId, hrows.amended, hrows.first, ?_⟩⟩
  intro b' hb'
  rcases List.mem_append.mp hb' with hold | hnew
  · exact Or.inl ⟨List.mem_of_mem_filter hold, by simp⟩
  · obtain rfl := List.mem_singleton.mp hnew
    right
    intro r' hr' howner
    obtain ⟨r, hr, rfl⟩ := List.mem_map.mp hr'
    by_cases hr_owner : r.owner = b'.owner
    · simp [hr_owner]
    · have hkeep : (r.owner == b'.owner) = false := by simpa using hr_owner
      simp only [hkeep, Bool.false_eq_true, if_false] at howner
      exact absurd howner hr_owner

theorem Moves.unblock (owner : Int × String) :
    ∃ f fresh, Moves none s (unblockVPNOwner s owner) f fresh :=
  ⟨id, none, ⟨by simp [unblockVPNOwner], by simp [unblockVPNOwner], fun _ _ => .same, by simp,
    fun _ hb => Or.inl ⟨List.mem_of_mem_filter hb, by simp⟩⟩⟩

end Operations

/-- The rows with this id have reached a generation, and no row will get the id anew. -/
def AtLeast (s : Store) (id generation : Nat) : Prop :=
  id < s.nextId ∧ ∀ r ∈ s.sessions, r.id = id → generation ≤ r.generation

theorem AtLeast.moves {login : Option (Int × String)} {s s' : Store}
    {f : VPNSession → VPNSession} {fresh : Option VPNSession} {id generation : Nat}
    (h : AtLeast s id generation) (hmoves : Moves login s s' f fresh) :
    AtLeast s' id generation := by
  refine ⟨?_, ?_⟩
  · have hlt := h.1
    rw [hmoves.nextId]
    omega
  · intro r' hr' hid
    rcases hmoves.row hr' with ⟨r, hr, hamended⟩ | ⟨-, hnew, -, -⟩
    · exact Nat.le_trans (h.2 r hr (hamended.id_eq ▸ hid)) hamended.generation_le
    · have hlt := h.1
      omega

/-- The session is one that was read from the store, now or earlier. -/
def Read (s : Store) (v : VPNSession) : Prop :=
  1 ≤ v.generation ∧ AtLeast s v.id v.generation

theorem step_visit {s next : State} {k j : Nat} (h : step s (.visit k j) = some next) :
    ∃ t v, s.ticks[k]? = some t ∧ t.left[j]? = some v ∧ next = { visit s k t.now v with
      ticks := s.ticks.set k { t with left := t.left.eraseIdx j } } := by
  simp only [step] at h
  split at h
  · simp at h
  rename_i t ht
  split at h
  · simp at h
  rename_i v hv
  exact ⟨t, v, ht, hv, (Option.some.inj h).symm⟩

theorem step_answer {s next : State} {cfg : Settings} {i : Nat} {a : Answer}
    (h : step s (.answer cfg i a) = some next) :
    ∃ n, s.renewals[i]? = some n ∧ n.phase = .running ∧
      next = settle s i n (renewLease cfg n.session a) := by
  simp only [step] at h
  split at h
  · simp at h
  rename_i n hn
  split_ifs at h with hphase
  exact ⟨n, hn, hphase, (Option.some.inj h).symm⟩

/-- The store of a step. -/
theorem moves_of_step {s next : State} {label : Label} (hs : s.store.Wf)
    (h : step s label = some next) :
    ∃ f fresh, Moves label.loginOwner s.store next.store f fresh := by
  cases label with
  | login cfg l =>
      obtain ⟨store, hstore, rfl⟩ := Option.map_eq_some_iff.mp h
      exact Moves.login hs hstore
  | end_ id =>
      obtain rfl := Option.some.inj h
      exact Moves.end_ id 0 (by simp)
  | block b =>
      obtain rfl := Option.some.inj h
      exact Moves.block b
  | unblock owner =>
      obtain rfl := Option.some.inj h
      exact Moves.unblock owner
  | tick now unreadable =>
      obtain rfl := Option.some.inj h
      exact ⟨_, _, Moves.refl _⟩
  | visit k j =>
      obtain ⟨t, v, -, -, rfl⟩ := step_visit h
      simp only [visit]
      split_ifs
      · exact ⟨_, _, Moves.refl _⟩
      · exact Moves.end_ _ _ (by simp)
      · exact ⟨_, _, Moves.refl _⟩
      · exact ⟨_, _, Moves.refl _⟩
  | answer cfg i a =>
      obtain ⟨n, -, -, rfl⟩ := step_answer h
      cases renewLease cfg n.session a with
      | lapse => exact Moves.end_ _ _ (by simp)
      | transient => exact Moves.mark _ _
      | renew v' =>
          simp only [settle]
          split
          · exact Moves.renew ‹_›
          · exact ⟨_, _, Moves.refl _⟩

/-! ### Renewals and the generations they started from

A renewal that is under way holds a session as it was read.  `Inv` relates the generations that
are held to those in the store, and `Progress` says what became of each renewal. -/

theorem renewLease_id {cfg : Settings} {v next : VPNSession} {a : Answer}
    (h : renewLease cfg v a = .renew next) : next.id = v.id := by
  unfold renewLease at h
  split at h
  · simp at h
  split at h
  · simp at h
  · simp at h
  · simp at h
  split at h
  · simp at h
  · obtain rfl := Decision.renew.inj h
    rfl

/-- A commit needs the generation that the renewal started from, and leaves a later
one. -/
theorem renewVPNSession_commits {s s' : Store} (hs : s.Wf) {v : VPNSession} {from_ : Nat}
    (h : renewVPNSession s v from_ = some s') :
    (∃ r ∈ s.sessions, r.id = v.id ∧ r.generation = from_) ∧ AtLeast s' v.id (from_ + 1) := by
  unfold renewVPNSession at h
  split_ifs at h with hany
  obtain rfl := Option.some.inj h
  obtain ⟨row, hrow, hrenews⟩ := List.any_eq_true.mp hany
  obtain ⟨⟨hid, hgen⟩, -⟩ : (row.id = v.id ∧ row.generation = from_) ∧ row.state = .active := by
    simpa [renews] using hrenews
  refine ⟨⟨row, hrow, hid, hgen⟩, hid ▸ hs.below row hrow, ?_⟩
  intro r' hr' hid'
  obtain ⟨r, hr, rfl⟩ := List.mem_map.mp hr'
  by_cases hr_renews : renews v from_ r = true
  · have hr_gen : r.generation = from_ := by
      simp only [renews, Bool.and_eq_true, beq_iff_eq] at hr_renews
      exact hr_renews.1.2
    simp [hr_renews, hr_gen]
  · -- only the row that was renewed has this id
    simp only [hr_renews, Bool.false_eq_true, if_false] at hid'
    obtain rfl : r = row := List.inj_on_of_nodup_map hs.ids hr hrow (hid'.trans hid.symm)
    exact absurd hrenews hr_renews

theorem Store.update_of_forall {s : Store} {where_ : VPNSession → Bool}
    {set : VPNSession → VPNSession} (h : ∀ r ∈ s.sessions, where_ r = false) :
    s.update where_ set = s := by
  have hmap : s.sessions.map (fun r => if where_ r then set r else r) = s.sessions := by
    refine (List.map_congr_left fun r hr => ?_).trans (List.map_id _)
    simp [h r hr]
  rw [Store.update, hmap]

/-- Once the session has moved on, the end of a renewal changes nothing. -/
theorem settle_store_of_passed {s : State} {i : Nat} {n : Renewal} {cfg : Settings}
    {a : Answer} (hpositive : 1 ≤ n.session.generation)
    (hpassed : AtLeast s.store n.session.id (n.session.generation + 1)) :
    (settle s i n (renewLease cfg n.session a)).store = s.store := by
  -- no row has the renewal's id and generation
  have hgone : ∀ r ∈ s.store.sessions, r.id = n.session.id →
      r.generation ≠ n.session.generation := by
    intro r hr hid hgen
    have hle := hpassed.2 r hr hid
    omega
  cases hdecision : renewLease cfg n.session a with
  | lapse =>
      refine Store.update_of_forall fun r hr => ?_
      have hpos : n.session.generation ≠ 0 := by omega
      simpa [hpos] using hgone r hr
  | transient =>
      refine Store.update_of_forall fun r hr => ?_
      have hne := hgone r hr
      simp only [Bool.and_eq_false_imp, Bool.and_eq_true, beq_iff_eq]
      rintro ⟨⟨hid, hgen⟩, -⟩
      exact absurd hgen (hne hid)
  | renew next =>
      have hstale : renewVPNSession s.store next n.session.generation = none := by
        rw [renewVPNSession, if_neg]
        simp only [List.any_eq_true, renews, Bool.and_eq_true, beq_iff_eq, not_exists, not_and]
        intro r hr ⟨hid, hgen⟩
        exact absurd hgen (hgone r hr (hid.trans (renewLease_id hdecision)))
      simp only [settle, hstale]

/-- What a step does to the renewals: none, a new one of a listed session, or the end of
a running one. A commit found the generation it started from and left it behind. -/
inductive Progress (s next : State) : Prop where
  | none : next.renewals = s.renewals → Progress s next
  | started (k : Nat) (t : Tick) (v : VPNSession) : s.ticks[k]? = some t → v ∈ t.left →
      next.renewals = s.renewals ++ [⟨v, k, .running⟩] → Progress s next
  | settled (i : Nat) (n : Renewal) (phase : Phase) : s.renewals[i]? = some n →
      next.renewals = s.renewals.set i { n with phase := phase } →
      (phase = .committed →
        (∃ r ∈ s.store.sessions, r.id = n.session.id ∧ r.generation = n.session.generation) ∧
        AtLeast next.store n.session.id (n.session.generation + 1)) → Progress s next

/-- What a step does to the ticks: none, a new one that lists the store, or the next
session of one. -/
inductive Listing (s next : State) : Prop where
  | none : next.ticks = s.ticks → Listing s next
  | listed (t : Tick) : next.ticks = s.ticks ++ [t] → (∀ v ∈ t.left, Read s.store v) →
      Listing s next
  | visited (k : Nat) (t t' : Tick) : s.ticks[k]? = some t → next.ticks = s.ticks.set k t' →
      (∀ v ∈ t'.left, v ∈ t.left) → Listing s next

structure Inv (s : State) : Prop where
  store : s.store.Wf
  ticks : ∀ t ∈ s.ticks, ∀ v ∈ t.left, Read s.store v
  renewals : ∀ n ∈ s.renewals, Read s.store n.session
  committed : ∀ n ∈ s.renewals, n.phase = .committed →
    AtLeast s.store n.session.id (n.session.generation + 1)
  once : ∀ (i j : Nat) (n n' : Renewal), s.renewals[i]? = some n → s.renewals[j]? = some n' →
    n.phase = .committed → n'.phase = .committed → n.session.id = n'.session.id →
    n.session.generation = n'.session.generation → i = j

namespace Inv

variable {s next : State} {label : Label}

theorem init : Inv VpnLease.init := by
  constructor <;> simp [VpnLease.init]
  constructor <;> simp

theorem progress (hinv : Inv s) (h : step s label = some next) : Progress s next := by
  cases label with
  | login cfg l =>
      obtain ⟨store, -, rfl⟩ := Option.map_eq_some_iff.mp h
      exact .none rfl
  | end_ | block | unblock | tick =>
      obtain rfl := Option.some.inj h
      exact .none rfl
  | visit k j =>
      obtain ⟨t, v, ht, hv, rfl⟩ := step_visit h
      simp only [visit]
      split_ifs
      · exact .none rfl
      · exact .none rfl
      · exact .started k t v ht (List.mem_of_getElem? hv) rfl
      · exact .none rfl
  | answer cfg i a =>
      obtain ⟨n, hn, -, rfl⟩ := step_answer h
      cases hdecision : renewLease cfg n.session a with
      | lapse => exact .settled i n .closed hn rfl (by simp)
      | transient => exact .settled i n .closed hn rfl (by simp)
      | renew v' =>
          simp only [settle]
          split
          · rename_i store hstore
            refine .settled i n .committed hn rfl fun _ => ?_
            rw [← renewLease_id hdecision]
            exact renewVPNSession_commits hinv.store hstore
          · exact .settled i n .stale hn rfl (by simp)

theorem listing (hinv : Inv s) (h : VpnLease.step s label = some next) : Listing s next := by
  cases label with
  | login cfg l =>
      obtain ⟨store, -, rfl⟩ := Option.map_eq_some_iff.mp h
      exact .none rfl
  | end_ | block | unblock =>
      obtain rfl := Option.some.inj h
      exact .none rfl
  | tick now unreadable =>
      obtain rfl := Option.some.inj h
      refine .listed _ rfl fun v hv => ?_
      obtain ⟨r, hr, rfl⟩ := List.mem_map.mp hv
      have hid : (scan unreadable r).id = r.id := by unfold scan; split <;> rfl
      have hgen : (scan unreadable r).generation = r.generation := by unfold scan; split <;> rfl
      refine ⟨hgen ▸ hinv.store.positive r hr, hid ▸ hinv.store.below r hr, ?_⟩
      intro r' hr' hid'
      obtain rfl : r' = r := List.inj_on_of_nodup_map hinv.store.ids hr' hr (hid'.trans hid)
      exact Nat.le_of_eq hgen
  | visit k j =>
      obtain ⟨t, v, ht, -, rfl⟩ := step_visit h
      exact .visited k t _ ht rfl fun v hv => List.mem_of_mem_eraseIdx hv
  | answer cfg i a =>
      obtain ⟨n, -, -, rfl⟩ := step_answer h
      cases renewLease cfg n.session a with
      | lapse | transient => exact .none rfl
      | renew v' =>
          simp only [settle]
          split <;> exact .none rfl

theorem step (hinv : Inv s) (h : step s label = some next) : Inv next := by
  obtain ⟨f, fresh, hmoves⟩ := moves_of_step hinv.store h
  have hread : ∀ v, Read s.store v → Read next.store v := fun v hv => ⟨hv.1, hv.2.moves hmoves⟩
  have hcommitted : ∀ n ∈ s.renewals, n.phase = .committed →
      AtLeast next.store n.session.id (n.session.generation + 1) :=
    fun n hn hphase => (hinv.committed n hn hphase).moves hmoves
  refine ⟨hmoves.wf hinv.store, ?_, ?_, ?_, ?_⟩
  · intro t' ht' v hv
    rcases hinv.listing h with hsame | ⟨t, hnew, ht⟩ | ⟨k, t, t'', ht, hset, hleft⟩
    · exact hread v (hinv.ticks t' (hsame ▸ ht') v hv)
    · rcases List.mem_append.mp (hnew ▸ ht') with hold | hlast
      · exact hread v (hinv.ticks t' hold v hv)
      · obtain rfl := List.mem_singleton.mp hlast
        exact hread v (ht v hv)
    · rcases List.mem_or_eq_of_mem_set (hset ▸ ht') with hold | rfl
      · exact hread v (hinv.ticks t' hold v hv)
      · exact hread v (hinv.ticks t (List.mem_of_getElem? ht) v (hleft v hv))
  all_goals
    rcases hinv.progress h with hsame | ⟨k, t, v, ht, hv, hnew⟩ | ⟨i, m, phase, hi, hset, hcommit⟩
  · rw [hsame]
    exact fun n hn => hread _ (hinv.renewals n hn)
  · rw [hnew]
    intro n hn
    rcases List.mem_append.mp hn with hold | hlast
    · exact hread _ (hinv.renewals n hold)
    · obtain rfl := List.mem_singleton.mp hlast
      exact hread v (hinv.ticks t (List.mem_of_getElem? ht) v hv)
  · rw [hset]
    intro n hn
    rcases List.mem_or_eq_of_mem_set hn with hold | rfl
    · exact hread _ (hinv.renewals n hold)
    · exact hread _ (hinv.renewals m (List.mem_of_getElem? hi))
  · rw [hsame]
    exact hcommitted
  · rw [hnew]
    intro n hn hphase
    rcases List.mem_append.mp hn with hold | hlast
    · exact hcommitted n hold hphase
    · obtain rfl := List.mem_singleton.mp hlast
      simp at hphase
  · rw [hset]
    intro n hn hphase
    rcases List.mem_or_eq_of_mem_set hn with hold | rfl
    · exact hcommitted n hold hphase
    · exact (hcommit hphase).2
  · rw [hsame]
    exact hinv.once
  · rw [hnew]
    intro i j n n' hn hn' hphase hphase' hid hgen
    rcases getElem?_concat_eq_some hn with ⟨-, rfl⟩ | hold
    · simp at hphase
    rcases getElem?_concat_eq_some hn' with ⟨-, rfl⟩ | hold'
    · simp at hphase'
    exact hinv.once i j n n' hold hold' hphase hphase' hid hgen
  · rw [hset]
    -- an earlier commit from this generation left it behind
    have hfirst : ∀ n ∈ s.renewals, n.phase = .committed → phase = .committed →
        n.session.id = m.session.id → n.session.generation ≠ m.session.generation := by
      intro n hn hn_phase hphase hid hgen
      obtain ⟨⟨r, hr, hr_id, hr_gen⟩, -⟩ := hcommit hphase
      have hlt := (hinv.committed n hn hn_phase).2 r hr (hr_id.trans hid.symm)
      omega
    intro j k n n' hn hn' hphase hphase' hid hgen
    rcases getElem?_set_eq_some hn with ⟨rfl, rfl⟩ | ⟨-, hold⟩
    · rcases getElem?_set_eq_some hn' with ⟨rfl, rfl⟩ | ⟨-, hold'⟩
      · rfl
      · exact absurd hgen.symm
          (hfirst n' (List.mem_of_getElem? hold') hphase' hphase hid.symm)
    · rcases getElem?_set_eq_some hn' with ⟨rfl, rfl⟩ | ⟨-, hold'⟩
      · exact absurd hgen (hfirst n (List.mem_of_getElem? hold) hphase hphase' hid)
      · exact hinv.once j k n n' hold hold' hphase hphase' hid hgen

end Inv

/-! ### Safety of the protocol

Each part is a run lemma over `Moves`; `lease_safety` puts them together. -/

/-- The step ends the session `x`, lapses it, or blocks its owner. -/
inductive Ends (s : State) (x : VPNSession) : Label → Prop where
  | ended : Ends s x (.end_ x.id)
  | blocked (b : VPNBlocked) : b.owner = x.owner → Ends s x (.block b)
  | lapsed (k j : Nat) (t : Tick) (v : VPNSession) : s.ticks[k]? = some t →
      t.left[j]? = some v → v.id = x.id → v.generation = x.generation → v.state = .active →
      v.live t.now = false → Ends s x (.visit k j)
  | refused (cfg : Settings) (i : Nat) (a : Answer) (n : Renewal) : s.renewals[i]? = some n →
      renewLease cfg n.session a = .lapse → n.session.id = x.id →
      n.session.generation = x.generation → Ends s x (.answer cfg i a)

/-- The row with the id of an updated one is that one. -/
theorem Store.mem_update {s : Store} {where_ : VPNSession → Bool}
    {set : VPNSession → VPNSession} {x r' : VPNSession} (hids : (s.sessions.map (·.id)).Nodup)
    (hx : x ∈ s.sessions) (hwhere : where_ x = true) (hset : ∀ r, (set r).id = r.id)
    (hr' : r' ∈ (s.update where_ set).sessions) (hid : r'.id = x.id) : r' = set x := by
  obtain ⟨r, hr, rfl⟩ := List.mem_map.mp hr'
  have hr_id : (if where_ r then set r else r).id = r.id := by
    split
    · exact hset r
    · rfl
  obtain rfl : r = x := List.inj_on_of_nodup_map hids hr hx (hr_id.symm.trans hid)
  simp [hwhere]

/-- The row of an ended session is not active and has a new generation. -/
theorem ended_row {s next : State} {label : Label} {x : VPNSession} (hinv : Inv s)
    (hx : x ∈ s.store.sessions) (hends : Ends s x label) (h : step s label = some next) :
    ∀ r ∈ next.store.sessions, r.id = x.id →
      r.owner = x.owner ∧ r.state ≠ .active ∧ r.generation = x.generation + 1 := by
  -- the end of a session, as an admin, the owner, the tick and a renewal do it
  have hend : ∀ (state : SessionState) (from_ : Nat), state ≠ .active →
      (from_ = 0 ∨ x.generation = from_) →
      ∀ r ∈ (endVPNSession s.store x.id state from_).sessions, r.id = x.id →
        r.owner = x.owner ∧ r.state ≠ .active ∧ r.generation = x.generation + 1 := by
    intro state from_ hstate hfrom r hr hid
    obtain rfl := Store.mem_update hinv.store.ids hx (by simpa using hfrom) (by simp) hr hid
    exact ⟨rfl, hstate, rfl⟩
  cases hends with
  | ended =>
      obtain rfl := Option.some.inj h
      exact hend .ended 0 (by simp) (Or.inl rfl)
  | blocked b howner =>
      obtain rfl := Option.some.inj h
      intro r hr hid
      obtain rfl := Store.mem_update hinv.store.ids hx (by simpa using howner.symm) (by simp) hr hid
      exact ⟨rfl, by simp, rfl⟩
  | lapsed k j t v ht hv hid hgen hactive hlive =>
      have hstore : next.store = endVPNSession s.store v.id .lapsed v.generation := by
        obtain ⟨t', v', ht', hv', rfl⟩ := step_visit h
        obtain rfl := Option.some.inj (ht.symm.trans ht')
        obtain rfl := Option.some.inj (hv.symm.trans hv')
        simp [visit, hactive, hlive]
      rw [hstore, hid]
      exact hend .lapsed v.generation (by simp) (Or.inr hgen.symm)
  | refused cfg i a n hn hlapse hid hgen =>
      have hstore : next.store =
          endVPNSession s.store n.session.id .lapsed n.session.generation := by
        obtain ⟨n', hn', -, rfl⟩ := step_answer h
        obtain rfl := Option.some.inj (hn.symm.trans hn')
        rw [hlapse]
        rfl
      rw [hstore, hid]
      exact hend .lapsed n.session.generation (by simp) (Or.inr hgen.symm)

/-- What the first `ticks` ticks read of a session has no generation above this one. -/
structure ReadBefore (ticks id generation : Nat) (s : State) : Prop where
  length : ticks ≤ s.ticks.length
  listed : ∀ (k : Nat) (t : Tick), k < ticks → s.ticks[k]? = some t → ∀ v ∈ t.left,
    v.id = id → v.generation ≤ generation
  renewals : ∀ n ∈ s.renewals, n.tick < ticks → n.session.id = id →
    n.session.generation ≤ generation

theorem ReadBefore.step {ticks id generation : Nat} {s next : State} {label : Label}
    (hinv : Inv s) (hbefore : ReadBefore ticks id generation s)
    (h : step s label = some next) : ReadBefore ticks id generation next := by
  have hlength := hbefore.length
  refine ⟨?_, ?_, ?_⟩
  · rcases hinv.listing h with hsame | ⟨t, hnew, -⟩ | ⟨k, t, t', -, hset, -⟩
    · rw [hsame]
      exact hlength
    · rw [hnew, List.length_append]
      omega
    · rw [hset, List.length_set]
      exact hlength
  · intro k t' hk ht' v hv
    rcases hinv.listing h with hsame | ⟨t, hnew, -⟩ | ⟨k', t, t'', ht, hset, hleft⟩
    · exact hbefore.listed k t' hk (hsame ▸ ht') v hv
    · rcases getElem?_concat_eq_some (hnew ▸ ht') with ⟨rfl, -⟩ | hold
      · omega
      · exact hbefore.listed k t' hk hold v hv
    · rcases getElem?_set_eq_some (hset ▸ ht') with ⟨rfl, rfl⟩ | ⟨-, hold⟩
      · exact hbefore.listed k t hk ht v (hleft v hv)
      · exact hbefore.listed k t' hk hold v hv
  · rcases hinv.progress h with hsame | ⟨k, t, v, ht, hv, hnew⟩ | ⟨i, m, phase, hi, hset, -⟩
    · rw [hsame]
      exact hbefore.renewals
    · rw [hnew]
      intro n hn hk
      rcases List.mem_append.mp hn with hold | hlast
      · exact hbefore.renewals n hold hk
      · obtain rfl := List.mem_singleton.mp hlast
        exact hbefore.listed k t hk ht v hv
    · rw [hset]
      intro n hn hk
      rcases List.mem_or_eq_of_mem_set hn with hold | rfl
      · exact hbefore.renewals n hold hk
      · exact hbefore.renewals m (List.mem_of_getElem? hi) hk

/-- An ended session is not live again before a login of its owner. -/
theorem not_live_of_run {s next : State} {labels : List Label} {x : VPNSession} (hinv : Inv s)
    (hx : x.id < s.store.nextId)
    (hended : ∀ r ∈ s.store.sessions, r.id = x.id → r.owner = x.owner ∧ r.state ≠ .active)
    (hlogin : ∀ label ∈ labels, label.loginOwner ≠ some x.owner)
    (hrun : run step s labels = some next) :
    ∀ r ∈ next.store.sessions, r.id = x.id → ∀ now, r.live now = false := by
  have hmeets : RunMeets step (fun _ label => label.loginOwner ≠ some x.owner) s labels :=
    RunMeets.of_forall fun label hlabel _ => hlogin label hlabel
  have hnext := hmeets.invariant (P := fun s => Inv s ∧ x.id < s.store.nextId ∧
      ∀ r ∈ s.store.sessions, r.id = x.id → r.owner = x.owner ∧ r.state ≠ .active)
    ?_ ⟨hinv, hx, hended⟩ hrun
  · intro r hr hid now
    simp [VPNSession.live, (hnext.2.2 r hr hid).2]
  · rintro s label next ⟨hinv, hx, hended⟩ hother hstep
    obtain ⟨f, fresh, hmoves⟩ := moves_of_step hinv.store hstep
    refine ⟨hinv.step hstep, by rw [hmoves.nextId]; omega, ?_⟩
    intro r' hr' hid
    rcases hmoves.row hr' with ⟨r, hr, hamended⟩ | ⟨-, hnew, -, -⟩
    · obtain ⟨howner, hstate⟩ := hended r hr (hamended.id_eq ▸ hid)
      exact ⟨hamended.owner_eq.trans howner, hamended.not_active (howner ▸ hother) hstate⟩
    · omega

theorem VPNSession.accessUntil_le (s : VPNSession) : s.accessUntil ≤ s.hardUntil := by
  simp only [VPNSession.accessUntil]
  generalize (if (s.transient && decide (s.graceUntil > s.leaseUntil)) = true then s.graceUntil
    else s.leaseUntil) = until_
  split <;> omega

/-- **Safety of the lease protocol**, in every reachable state.

After a session was ended, lapsed or its owner blocked, no renewal of what was read
before that changes the store any more, whatever its provider answers, and the session is
not live until its owner logs in. A blocked owner's session is never live. Only a login
of the owner moves the hard limit, and no access outlasts it. Two renewals that started
from the same generation of a session are never both committed. -/
theorem lease_safety {s : State} (hreach : Reachable step init s) :
    (∀ label next later labels, ∀ x ∈ s.store.sessions, Ends s x label →
      step s label = some next → run step next labels = some later →
      (∀ (i : Nat) (n : Renewal), later.renewals[i]? = some n → n.tick < s.ticks.length →
        n.session.id = x.id → ∀ cfg a after, step later (.answer cfg i a) = some after →
        after.store = later.store) ∧
      ((∀ l ∈ labels, l.loginOwner ≠ some x.owner) →
        ∀ r ∈ later.store.sessions, r.id = x.id → ∀ now, r.live now = false)) ∧
    (∀ b ∈ s.store.blocked, ∀ r ∈ s.store.sessions, r.owner = b.owner →
      ∀ now, r.live now = false) ∧
    ((∀ label next, step s label = some next → ∀ r ∈ s.store.sessions,
      ∃ r' ∈ next.store.sessions, r'.id = r.id ∧
        (r'.hardUntil ≠ r.hardUntil → label.loginOwner = some r.owner)) ∧
      ∀ r ∈ s.store.sessions, r.accessUntil ≤ r.hardUntil) ∧
    ∀ (i j : Nat) (n n' : Renewal), s.renewals[i]? = some n → s.renewals[j]? = some n' →
      n.phase = .committed → n'.phase = .committed → n.session.id = n'.session.id →
      n.session.generation = n'.session.generation → i = j := by
  have hinv : Inv s := hreach.invariant Inv.init fun _ _ _ hinv hstep => hinv.step hstep
  refine ⟨?_, ?_, ⟨?_, fun r _ => r.accessUntil_le⟩, hinv.once⟩
  · intro label next later labels x hx hends hstep hrun
    have hrow := ended_row hinv hx hends hstep
    obtain ⟨f, fresh, hmoves⟩ := moves_of_step hinv.store hstep
    have hpassed : AtLeast next.store x.id (x.generation + 1) := by
      refine ⟨?_, fun r hr hid => Nat.le_of_eq (hrow r hr hid).2.2.symm⟩
      have hlt := hinv.store.below x hx
      rw [hmoves.nextId]
      omega
    refine ⟨?_, fun hlogin => not_live_of_run (hinv.step hstep) hpassed.1
      (fun r hr hid => ⟨(hrow r hr hid).1, (hrow r hr hid).2.1⟩) hlogin hrun⟩
    intro i n hi htick hid cfg a after hafter
    have hbefore : ReadBefore s.ticks.length x.id x.generation s :=
      ⟨Nat.le_refl _,
        fun k t _ ht v hv hid => (hinv.ticks t (List.mem_of_getElem? ht) v hv).2.2 x hx hid.symm,
        fun n hn _ hid => (hinv.renewals n hn).2.2 x hx hid.symm⟩
    obtain ⟨hlater, hbefore', hpassed'⟩ := run_preserves
      (P := fun s' => Inv s' ∧ ReadBefore s.ticks.length x.id x.generation s' ∧
        AtLeast s'.store x.id (x.generation + 1))
      (fun s' l next' ⟨hinv', hbefore', hpassed'⟩ hstep' => by
        obtain ⟨_, _, hmoves'⟩ := moves_of_step hinv'.store hstep'
        exact ⟨hinv'.step hstep', hbefore'.step hinv' hstep', hpassed'.moves hmoves'⟩)
      ⟨hinv.step hstep, hbefore.step hinv hstep, hpassed⟩ hrun
    obtain ⟨n', hn', -, rfl⟩ := step_answer hafter
    obtain rfl := Option.some.inj (hi.symm.trans hn')
    have hgen := hbefore'.renewals n (List.mem_of_getElem? hi) htick hid
    refine settle_store_of_passed (hlater.renewals n (List.mem_of_getElem? hi)).1 ?_
    rw [hid]
    exact ⟨hpassed'.1, fun r hr hr_id => by have := hpassed'.2 r hr hr_id; omega⟩
  · intro b hb r hr howner now
    simp [VPNSession.live, hinv.store.refused b hb r hr howner]
  · intro label next hstep r hr
    obtain ⟨f, fresh, hmoves⟩ := moves_of_step hinv.store hstep
    refine ⟨f r, ?_, (hmoves.amended r hr).id_eq, ?_⟩
    · rw [hmoves.sessions]
      exact List.mem_append_left _ (List.mem_map_of_mem hr)
    · intro hhard
      by_contra hlogin
      exact hhard ((hmoves.amended r hr).hardUntil_eq hlogin)

def defaults : Settings := ⟨10, 0, 30⟩

def ann : Login := ⟨1, "ann", "ann@example", [], "r1", 0⟩

def annSession : VPNSession := { loginSession defaults ann with id := 1, generation := 1 }

/-- Ann logged in, and six minutes later a tick has started to renew her lease. -/
def renewing : State :=
  ⟨⟨[annSession], [], 2⟩, [⟨6 * minute, []⟩], [⟨annSession, 0, .running⟩]⟩

/-- The renewal started before an admin ended the session, so its good answer comes too
late. -/
theorem lease_safety_raced :
    ∃ next after, step renewing (.end_ 1) = some next ∧
      step next (.answer defaults 0 (.identity "ann" "" [] "r2" (7 * minute))) = some after ∧
      after.store = next.store := by
  have hreach : Reachable step init renewing :=
    ⟨[.login defaults ann, .tick (6 * minute) [], .visit 0 0], by decide⟩
  have hend : step renewing (.end_ 1) = some
      { renewing with store := endVPNSession renewing.store 1 .ended 0 } := rfl
  refine ⟨_, _, hend, rfl, ?_⟩
  exact ((lease_safety hreach).1 (.end_ 1) _ _ [] annSession (by decide) .ended hend rfl).1 0
    ⟨annSession, 0, .running⟩ rfl (by decide) rfl defaults
    (.identity "ann" "" [] "r2" (7 * minute)) _ rfl

end Quicgate.VpnLease
