import Quicgate.GoMaps
import Quicgate.Rotation
import Quicgate.StoreConfig
import Quicgate.StreamSpecs
import Quicgate.TransitionSystem

/-!
# The load balancer and the health of its backends

`src/internal/engine/health.go`, with the reverse proxy's use of it in
`src/internal/engine/engine.go` (`newBalancer`, the `Rewrite` of `newUpstreamProxy`,
`badGatewayHandler`).

A request picks its backend by reading the health of one target after another, each under a
lock of its own, and draws its first place from a 32-bit counter that every request of the
pool shares.  A request that finds its backend unreachable marks it down, the probe goes
through a snapshot of the targets and writes what it found, and a reload replaces the targets.
All of them take turns in any order.  `targetHealth` is reached through a pointer, so the
probe may still write to one that has left the map: the objects are a heap.

Four results are about every run.  `down_until_probed` certifies the marks, `turn_comes` the
round robin, `chosen_target_up` the choice of one request while everything else changes, and
`session_sticks` the cookies of sticky pools.
-/

namespace Quicgate.Backends

open Quicgate.GoMaps Quicgate.Store Quicgate.StreamSpecs Quicgate.TransitionSystem
open Quicgate.Rotation

/-! ### The health checker

A target is tracked from the reload that first wants it to the one that no longer does, and is
up until it is told otherwise. -/

structure HealthTarget where
  scheme : String
  hostport : String
  via : Int
  tlsSkipVerify : Bool
  tlsServerName : String
deriving DecidableEq, Repr

/-- The TLS settings of a probe's HTTP client. -/
structure ProbeClient where
  skipVerify : Bool
  serverName : String
deriving DecidableEq, Repr

structure TargetHealth where
  up : Bool
  lastErr : String
  scheme : String
  hostport : String
  via : Int
  client : Option ProbeClient
  tlsSkipVerify : Bool
  tlsServerName : String
deriving DecidableEq, Repr

structure HealthChecker where
  objects : List TargetHealth
  targets : GoMap String Nat -- key: upstreamKey

namespace HealthChecker

def up (h : HealthChecker) (key : String) : Bool :=
  match h.targets.lookup key with
  | none => true
  | some i => match h.objects[i]? with
    | none => true
    | some t => t.up

/-- The end of the loop of `setTargets`: the client follows the TLS settings. -/
def refreshed (v : HealthTarget) (t : TargetHealth) : TargetHealth :=
  if t.client.isNone || t.tlsSkipVerify != v.tlsSkipVerify || t.tlsServerName !=
    v.tlsServerName then
    { t with tlsSkipVerify := v.tlsSkipVerify, tlsServerName := v.tlsServerName,
             client := some ⟨v.tlsSkipVerify, v.tlsServerName⟩ }
  else t

def fresh (v : HealthTarget) : TargetHealth :=
  { up := true, lastErr := "", scheme := v.scheme, hostport := v.hostport, via := v.via,
    client := none, tlsSkipVerify := false, tlsServerName := "" }

/-- One entry of the second loop of `setTargets`. -/
def track (h : HealthChecker) (e : String × HealthTarget) : HealthChecker :=
  match h.targets.lookup e.1 with
  | some i => { h with objects := h.objects.modify i (refreshed e.2) }
  | none =>
    { objects := h.objects ++ [refreshed e.2 (fresh e.2)],
      targets := h.targets.insert e.1 h.objects.length }

/-- The first loop of `setTargets`. -/
def dropped (h : HealthChecker) (want : GoMap String HealthTarget) : HealthChecker :=
  let gone := (GoMap.pairs h.targets).filter fun e => (want.lookup e.1).isNone
  { h with targets := GoMap.eraseAll h.targets (gone.map Prod.fst) }

def setTargets (h : HealthChecker) (want : GoMap String HealthTarget) : HealthChecker :=
  (GoMap.pairs want).foldl track (h.dropped want)

def markDown (h : HealthChecker) (key err : String) : HealthChecker :=
  match h.targets.lookup key with
  | none => h
  | some i =>
    { h with objects := h.objects.modify i fun t =>
        if !t.up then t else { t with up := false, lastErr := err } }

/-- What the probe found, written to the object it went for. -/
def record (h : HealthChecker) (i : Nat) (found : Bool × String) : HealthChecker :=
  { h with objects := h.objects.modify i fun t => { t with up := found.1, lastErr := found.2 } }

/-- The snapshot of a round, in the order the map was ranged over. -/
def snapshot (h : HealthChecker) (order : List String) : List (Nat × Option ProbeClient) :=
  order.filterMap fun key => do
    let i ← h.targets.lookup key
    let t ← h.objects[i]?
    some (i, t.client)

variable {h : HealthChecker} {key : String} {i : Nat}

/-! ### The heap of targets

Several parties hold pointers to the objects, but each key has one object at a time, so
writing to an object changes what is up for one key at most. -/

/-- The map names objects that exist, and no two keys share one. -/
structure Ok (h : HealthChecker) : Prop where
  bound : ∀ {key : String} {i : Nat}, h.targets.lookup key = some i → i < h.objects.length
  apart : ∀ {key key' : String} {i : Nat}, h.targets.lookup key = some i →
    h.targets.lookup key' = some i → key = key'

theorem up_of_untracked (hkey : h.targets.lookup key = none) : h.up key = true := by
  simp [up, hkey]

theorem up_of_tracked {t : TargetHealth} (hkey : h.targets.lookup key = some i)
    (ht : h.objects[i]? = some t) : h.up key = t.up := by
  simp [up, hkey, ht]

@[simp] theorem up_refreshed (v : HealthTarget) (t : TargetHealth) : (refreshed v t).up = t.up := by
  unfold refreshed
  split <;> rfl

theorem Ok.dropped (hok : h.Ok) (want : GoMap String HealthTarget) : (h.dropped want).Ok := by
  have hold : ∀ {key i}, (h.dropped want).targets.lookup key = some i →
      h.targets.lookup key = some i := by
    intro key i hlook
    rw [HealthChecker.dropped, GoMap.lookup_eraseAll_filter, Option.filter_eq_some_iff] at hlook
    exact hlook.1
  constructor
  · intro key i hlook
    exact hok.bound (hold hlook)
  · intro key key' i hlook hlook'
    exact hok.apart (hold hlook) (hold hlook')

theorem up_dropped (want : GoMap String HealthTarget) :
    (h.dropped want).up key = ((want.lookup key).isNone || h.up key) := by
  unfold HealthChecker.dropped up
  rw [GoMap.lookup_eraseAll_filter]
  cases hwant : want.lookup key <;> cases hkey : h.targets.lookup key <;>
    simp [hwant, Option.filter_some]

/-- Writing to one object leaves the map and the number of objects as they are. -/
theorem Ok.modify (hok : h.Ok) (i : Nat) (f : TargetHealth → TargetHealth) :
    Ok { h with objects := h.objects.modify i f } := by
  constructor
  · intro key j hlook
    rw [List.length_modify]
    exact hok.bound hlook
  · intro key key' j hlook hlook'
    exact hok.apart hlook hlook'

/-- Only the key whose object is written can change. -/
theorem up_modify_ne (f : TargetHealth → TargetHealth) (hkey : h.targets.lookup key ≠ some i) :
    up { h with objects := h.objects.modify i f } key = h.up key := by
  unfold up
  cases hlook : h.targets.lookup key with
  | none => simp
  | some j =>
      have hne : i ≠ j := fun heq => hkey (by rw [hlook, heq])
      simp [hne]

theorem up_modify_self (hok : h.Ok) (f : TargetHealth → TargetHealth)
    (hkey : h.targets.lookup key = some i) :
    ∃ t, h.objects[i]? = some t ∧ h.up key = t.up ∧
      up { h with objects := h.objects.modify i f } key = (f t).up := by
  have hlt := hok.bound hkey
  refine ⟨h.objects[i], List.getElem?_eq_getElem hlt, ?_, ?_⟩
  · exact up_of_tracked hkey (List.getElem?_eq_getElem hlt)
  · simp [up, hkey, hlt]

theorem Ok.track (hok : h.Ok) (e : String × HealthTarget) : (h.track e).Ok := by
  unfold HealthChecker.track
  cases hlook : h.targets.lookup e.1 with
  | some i => exact hok.modify i _
  | none =>
      constructor
      · intro key i hkey
        by_cases heq : key = e.1
        · subst heq
          rw [AList.lookup_insert] at hkey
          simp [← Option.some.inj hkey]
        · rw [AList.lookup_insert_ne heq] at hkey
          have := hok.bound hkey
          simp only [List.length_append, List.length_singleton]
          omega
      · -- the new object has an index that the map did not name
        have hnew : ∀ key, h.targets.lookup key ≠ some h.objects.length := by
          intro key hkey
          exact absurd (hok.bound hkey) (lt_irrefl _)
        intro key key' i hkey hkey'
        by_cases heq : key = e.1 <;> by_cases heq' : key' = e.1
        · rw [heq, heq']
        · subst heq
          rw [AList.lookup_insert] at hkey
          rw [AList.lookup_insert_ne heq', ← Option.some.inj hkey] at hkey'
          exact absurd hkey' (hnew key')
        · subst heq'
          rw [AList.lookup_insert] at hkey'
          rw [AList.lookup_insert_ne heq, ← Option.some.inj hkey'] at hkey
          exact absurd hkey (hnew key)
        · rw [AList.lookup_insert_ne heq] at hkey
          rw [AList.lookup_insert_ne heq'] at hkey'
          exact hok.apart hkey hkey'

/-- To track a target more does not change what is up: a target is assumed up before it is
tracked, and starts so. -/
theorem up_track (hok : h.Ok) (e : String × HealthTarget) : (h.track e).up key = h.up key := by
  unfold HealthChecker.track
  cases hlook : h.targets.lookup e.1 with
  | some i =>
      by_cases hkey : h.targets.lookup key = some i
      · obtain ⟨t, -, hup, hup'⟩ := up_modify_self hok (refreshed e.2) hkey
        rw [hup', hup, up_refreshed]
      · exact up_modify_ne _ hkey
  | none =>
      by_cases hkey : key = e.1
      · subst hkey
        rw [up_of_untracked hlook]
        simp [up, fresh]
      · unfold up
        rw [AList.lookup_insert_ne hkey]
        cases hold : h.targets.lookup key with
        | none => rfl
        | some i => simp [List.getElem?_append_left (hok.bound hold)]

theorem foldl_track (hok : h.Ok) (want : List (String × HealthTarget)) :
    (want.foldl HealthChecker.track h).Ok ∧
      ∀ key, (want.foldl HealthChecker.track h).up key = h.up key := by
  induction want generalizing h with
  | nil => exact ⟨hok, fun _ => rfl⟩
  | cons e want ih =>
      rw [List.foldl_cons]
      obtain ⟨hok', hup⟩ := ih (hok.track e)
      exact ⟨hok', fun key => (hup key).trans (up_track hok e)⟩

theorem Ok.setTargets (hok : h.Ok) (want : GoMap String HealthTarget) : (h.setTargets want).Ok :=
  (foldl_track (hok.dropped want) _).1

/-- A reload forgets what it was told of the targets that nobody wants any more, and of no
other. -/
theorem up_setTargets (hok : h.Ok) (want : GoMap String HealthTarget) :
    (h.setTargets want).up key = ((want.lookup key).isNone || h.up key) := by
  rw [setTargets, (foldl_track (hok.dropped want) _).2, up_dropped]

theorem Ok.markDown (hok : h.Ok) (key err : String) : (h.markDown key err).Ok := by
  unfold HealthChecker.markDown
  cases hlook : h.targets.lookup key with
  | none => exact hok
  | some i => exact hok.modify i _

/-- A mark never brings a target back. -/
theorem up_of_up_markDown (hok : h.Ok) {marked err : String}
    (hup : (h.markDown marked err).up key = true) : h.up key = true := by
  unfold HealthChecker.markDown at hup
  cases hlook : h.targets.lookup marked with
  | none => simpa [hlook] using hup
  | some i =>
      rw [hlook] at hup
      by_cases hkey : h.targets.lookup key = some i
      · obtain ⟨t, -, hold, hnew⟩ := up_modify_self hok
          (fun t => if !t.up then t else { t with up := false, lastErr := err }) hkey
        rw [hnew] at hup
        rw [hold]
        cases hdown : t.up with
        | true => rfl
        | false => simp [hdown] at hup
      · rwa [up_modify_ne _ hkey] at hup

end HealthChecker

inductive Dialed
  | connected
  | failed (err : String)
deriving DecidableEq, Repr

inductive Asked
  | answered
  | failed (err : String) (cert : Bool)
deriving DecidableEq, Repr

/-- `hasDial` says that the engine has set `h.dial`. -/
def probe (hasDial : Bool) (via : Int) (dialed : Dialed) (asked : Asked) : Bool × String :=
  if !hasDial && via != 0 then (false, "no WireGuard endpoint to probe through")
  else match dialed with
    | .failed err => (false, err)
    | .connected =>
      -- the HTTP probe uses the host network, where a backend behind a site is never contacted
      if via != 0 then (true, "")
      else match asked with
        | .answered => (true, "")
        | .failed err cert => if cert then (false, err) else (true, "")

/-! ### The balancer

`pick` and `stickyPick` are the functions of the source, cut into single reads. -/

/-- A backend's key: the site is part of it. -/
def upstreamKey (u : Upstream) : String :=
  let key := u.scheme ++ "://" ++ hostPort u.host u.port
  if u.via > 0 then key ++ "|site=" ++ printInt u.via else key

/-- The opaque cookie value of a backend, the start of the hash of its key. -/
def targetID (sum256 : List Char → List UInt8) (key : String) : String :=
  String.ofList (hexEncode ((sum256 key.toList).take 6))

structure BalTarget where
  key : String
  url : String
  id : String
  via : Int
deriving DecidableEq, Repr

/-- One group of backends with its proxy.  `drawn` lists the requests that have moved the
counter, in their order. -/
structure Balancer where
  targets : List BalTarget
  next : UInt32
  stickySessions : Bool
  drawn : List Nat
deriving DecidableEq, Repr

def newBalancer (sum256 : List Char → List UInt8) (stickySessions : Bool) (pool : List Upstream) :
    Balancer where
  targets := pool.map fun u =>
    { key := upstreamKey u, url := u.scheme ++ "://" ++ hostPort u.host u.port,
      id := targetID sum256 (upstreamKey u), via := u.via }
  next := 0
  stickySessions := stickySessions
  drawn := []

/-- Where a request stands: it looks for its cookie's target, is about to move the counter,
looks for a healthy target (`i` targets after `start`), has chosen one, or is over. -/
inductive Phase
  | cookie (i : Nat)
  | drawing
  | scanning (start i : Nat)
  | chosen (target : Nat)
  | ended (target : Nat)
deriving DecidableEq, Repr

structure Pick where
  bal : Nat
  cookieVal : String
  phase : Phase
deriving DecidableEq, Repr

namespace Balancer

def sticky (b : Balancer) : Bool := b.stickySessions && b.targets.length > 1

def stickyPick (cookieVal : String) : Phase :=
  if cookieVal ≠ "" then .cookie 0 else .drawing

def pick (b : Balancer) : Phase :=
  if b.targets.length = 1 then .chosen 0 else .drawing

/-- How `Rewrite` begins: a group of one backend needs no choice. -/
def rewrite (b : Balancer) (cookieVal : String) : Phase :=
  if b.targets.length > 1 then
    if b.sticky then stickyPick cookieVal else b.pick
  else .chosen 0

def advance (h : HealthChecker) (b : Balancer) (job : Nat) (cookieVal : String) :
    Phase → Option (Balancer × Phase)
  | .cookie i =>
    match b.targets[i]? with
    | none => some (b, .drawing)
    | some t => some (b, if t.id = cookieVal && h.up t.key then .chosen i else .cookie (i + 1))
  | .drawing =>
    let start := b.next + 1
    some ({ b with next := start, drawn := b.drawn ++ [job] }, .scanning start.toNat 0)
  | .scanning start i =>
    if i < b.targets.length then do
      let place := (start + i) % b.targets.length
      let t ← b.targets[place]?
      some (b, if h.up t.key then .chosen place else .scanning start (i + 1))
    else some (b, .chosen (start % b.targets.length)) -- all down: still try one
  | .chosen _ => none
  | .ended _ => none

end Balancer

/-! ### The system

A step is one read or draw of a request, an answer of a backend, a part of a probe, or a reload. -/

structure System where
  health : HealthChecker
  balancers : List Balancer
  picks : List Pick
  probing : List (Nat × Option ProbeClient) -- what is left of the round

def init : System := ⟨⟨[], ∅⟩, [], [], []⟩

inductive Label
  | place (stickySessions : Bool) (pool : List Upstream)
  | setTargets (want : GoMap String HealthTarget)
  | request (bal : Nat) (cookieVal : String)
  | pick (job : Nat)
  /-- The transport's answer: an error comes with its text and whether it is a dial error. -/
  | reach (job : Nat) (err : Option (String × Bool))
  | wake (order : List String)
  | probed (dialed : Dialed) (asked : Asked)

variable (sum256 : List Char → List UInt8)

def step (s : System) : Label → Option System
  | .place stickySessions pool =>
    some { s with balancers := s.balancers ++ [newBalancer sum256 stickySessions pool] }
  | .setTargets want => some { s with health := s.health.setTargets want }
  | .request bal cookieVal => do
    let b ← s.balancers[bal]?
    let _ ← b.targets[0]? -- `bal.targets[0]` comes first
    some { s with picks := s.picks ++ [⟨bal, cookieVal, b.rewrite cookieVal⟩] }
  | .pick job => do
    let p ← s.picks[job]?
    let b ← s.balancers[p.bal]?
    let (b', phase) ← b.advance s.health job p.cookieVal p.phase
    some { s with balancers := s.balancers.set p.bal b', picks := s.picks.set job { p with phase } }
  | .reach job err => do
    let p ← s.picks[job]?
    let .chosen target := p.phase | none
    let b ← s.balancers[p.bal]?
    let t ← b.targets[target]?
    let picks := s.picks.set job { p with phase := .ended target }
    match err with
    | some (text, true) => some { s with health := s.health.markDown t.key text, picks }
    | _ => some { s with picks }
  | .wake order =>
    if s.probing = [] ∧ order.isPerm s.health.targets.keys then
      some { s with probing := s.health.snapshot order }
    else none
  | .probed dialed asked =>
    match s.probing with
    | [] => none
    | (i, _) :: rest => do
      let t ← s.health.objects[i]?
      some { s with health := s.health.record i (probe true t.via dialed asked), probing := rest }

/-! ### What a step does

One inductive says what a step can do to a pick, one what it can do to the health, and one
what it can do to the requests. -/

namespace Balancer

/-- The moves of a pick: what it read, and where it stands then. -/
inductive Moves (h : HealthChecker) (b : Balancer) (job : Nat) (cookieVal : String) :
    Phase → Balancer → Phase → Prop
  | found {i : Nat} {t : BalTarget} (ht : b.targets[i]? = some t) (hid : t.id = cookieVal)
      (hup : h.up t.key = true) : Moves h b job cookieVal (.cookie i) b (.chosen i)
  | passed {i : Nat} {t : BalTarget} (ht : b.targets[i]? = some t)
      (hnot : t.id = cookieVal → h.up t.key = false) :
      Moves h b job cookieVal (.cookie i) b (.cookie (i + 1))
  | unknown {i : Nat} (hi : b.targets[i]? = none) : Moves h b job cookieVal (.cookie i) b .drawing
  | drew : Moves h b job cookieVal .drawing
      { b with next := b.next + 1, drawn := b.drawn ++ [job] } (.scanning (b.next + 1).toNat 0)
  | healthy {start i : Nat} {t : BalTarget}
      (ht : b.targets[(start + i) % b.targets.length]? = some t) (hup : h.up t.key = true) :
      Moves h b job cookieVal (.scanning start i) b (.chosen ((start + i) % b.targets.length))
  | down {start i : Nat} {t : BalTarget}
      (ht : b.targets[(start + i) % b.targets.length]? = some t) (hdown : h.up t.key = false) :
      Moves h b job cookieVal (.scanning start i) b (.scanning start (i + 1))
  | allDown {start i : Nat} (hi : b.targets.length ≤ i) :
      Moves h b job cookieVal (.scanning start i) b (.chosen (start % b.targets.length))

variable {h : HealthChecker} {b b' : Balancer} {job : Nat} {cookieVal : String}
  {phase phase' : Phase}

theorem moves_of_advance (hstep : b.advance h job cookieVal phase = some (b', phase')) :
    Moves h b job cookieVal phase b' phase' := by
  cases phase with
  | cookie i =>
      simp only [advance] at hstep
      split at hstep
      · rename_i hi
        obtain ⟨rfl, rfl⟩ := Prod.mk.inj (Option.some.inj hstep)
        exact .unknown hi
      · rename_i t ht
        obtain ⟨rfl, rfl⟩ := Prod.mk.inj (Option.some.inj hstep)
        split
        · rename_i hcond
          simp only [Bool.and_eq_true, decide_eq_true_eq] at hcond
          exact .found ht hcond.1 hcond.2
        · rename_i hcond
          simp only [Bool.and_eq_true, decide_eq_true_eq, not_and, Bool.not_eq_true] at hcond
          exact .passed ht hcond
  | drawing =>
      obtain ⟨rfl, rfl⟩ := Prod.mk.inj (Option.some.inj hstep)
      exact .drew
  | scanning start i =>
      simp only [advance] at hstep
      split at hstep
      · simp only [Option.bind_eq_bind, Option.bind_eq_some_iff] at hstep
        obtain ⟨t, ht, hmove⟩ := hstep
        obtain ⟨rfl, rfl⟩ := Prod.mk.inj (Option.some.inj hmove)
        split
        · rename_i hup
          exact .healthy ht hup
        · rename_i hup
          exact .down ht (Bool.not_eq_true _ ▸ hup)
      · rename_i hi
        obtain ⟨rfl, rfl⟩ := Prod.mk.inj (Option.some.inj hstep)
        exact .allDown (Nat.le_of_not_lt hi)
  | chosen target => cases hstep
  | ended target => cases hstep

/-- No pick changes the targets. -/
theorem Moves.targets (h' : Moves h b job cookieVal phase b' phase') : b'.targets = b.targets := by
  cases h' <;> rfl

theorem Moves.stickySessions (h' : Moves h b job cookieVal phase b' phase') :
    b'.stickySessions = b.stickySessions := by
  cases h' <;> rfl

/-- A pick that draws looks at its first target next. -/
theorem Moves.drawn (h' : Moves h b job cookieVal phase b' phase') :
    b'.drawn = b.drawn ∨ b'.drawn = b.drawn ++ [job] ∧ phase = .drawing ∧
      phase' = .scanning (b.next + 1).toNat 0 := by
  cases h'
  case drew => exact Or.inr ⟨rfl, rfl, rfl⟩
  all_goals exact Or.inl rfl

end Balancer

/-- What a step can do to the health of the targets. -/
inductive Heals (s : System) : Label → HealthChecker → Prop
  | same (label : Label) : Heals s label s.health
  | reload (want : GoMap String HealthTarget) :
      Heals s (.setTargets want) (s.health.setTargets want)
  | marked (label : Label) (key err : String) : Heals s label (s.health.markDown key err)
  | probed {i : Nat} {client : Option ProbeClient} {rest : List (Nat × Option ProbeClient)}
      {t : TargetHealth} (hnext : s.probing = (i, client) :: rest)
      (ht : s.health.objects[i]? = some t) (dialed : Dialed) (asked : Asked) :
      Heals s (.probed dialed asked) (s.health.record i (probe true t.via dialed asked))

/-- What a step can do to the requests and their pools. -/
inductive Serves (s : System) : List Balancer → List Pick → Prop
  | same : Serves s s.balancers s.picks
  | placed (b : Balancer) (hnext : b.next = 0) (hdrawn : b.drawn = []) :
      Serves s (s.balancers ++ [b]) s.picks
  | asked {bal : Nat} {b : Balancer} (hb : s.balancers[bal]? = some b)
      (hfirst : 0 < b.targets.length) (cookieVal : String) :
      Serves s s.balancers (s.picks ++ [⟨bal, cookieVal, b.rewrite cookieVal⟩])
  | moved {job : Nat} {p : Pick} {b b' : Balancer} {phase : Phase} (hp : s.picks[job]? = some p)
      (hb : s.balancers[p.bal]? = some b)
      (hmove : b.Moves s.health job p.cookieVal p.phase b' phase) :
      Serves s (s.balancers.set p.bal b') (s.picks.set job { p with phase })
  | reached {job target : Nat} {p : Pick} (hp : s.picks[job]? = some p)
      (hphase : p.phase = .chosen target) :
      Serves s s.balancers (s.picks.set job { p with phase := .ended target })

variable {sum256} {s s' : System} {label : Label}

theorem step_cases (hstep : step sum256 s label = some s') :
    Heals s label s'.health ∧ Serves s s'.balancers s'.picks := by
  cases label with
  | place stickySessions pool =>
      obtain rfl := Option.some.inj hstep
      exact ⟨.same _, .placed _ rfl rfl⟩
  | setTargets want =>
      obtain rfl := Option.some.inj hstep
      exact ⟨.reload want, .same⟩
  | request bal cookieVal =>
      simp only [step, Option.bind_eq_bind, Option.bind_eq_some_iff] at hstep
      obtain ⟨b, hb, first, hfirst, hnext⟩ := hstep
      obtain rfl := Option.some.inj hnext
      exact ⟨.same _, .asked hb (List.getElem?_eq_some_iff.mp hfirst).1 cookieVal⟩
  | pick job =>
      simp only [step, Option.bind_eq_bind, Option.bind_eq_some_iff] at hstep
      obtain ⟨p, hp, b, hb, ⟨b', phase⟩, hmove, hnext⟩ := hstep
      obtain rfl := Option.some.inj hnext
      exact ⟨.same _, .moved hp hb (Balancer.moves_of_advance hmove)⟩
  | reach job err =>
      simp only [step, Option.bind_eq_bind, Option.bind_eq_some_iff] at hstep
      obtain ⟨p, hp, hstep⟩ := hstep
      split at hstep
      · rename_i target hphase
        simp only [Option.bind_eq_some_iff] at hstep
        obtain ⟨b, hb, t, ht, hnext⟩ := hstep
        split at hnext
        · obtain rfl := Option.some.inj hnext
          exact ⟨.marked _ _ _, .reached hp hphase⟩
        · obtain rfl := Option.some.inj hnext
          exact ⟨.same _, .reached hp hphase⟩
      · cases hstep
  | wake order =>
      simp only [step] at hstep
      split at hstep
      · obtain rfl := Option.some.inj hstep
        exact ⟨.same _, .same⟩
      · cases hstep
  | probed dialed asked =>
      simp only [step] at hstep
      split at hstep
      · cases hstep
      · rename_i hnext
        simp only [Option.bind_eq_bind, Option.bind_eq_some_iff] at hstep
        obtain ⟨t, ht, hrest⟩ := hstep
        obtain rfl := Option.some.inj hrest
        exact ⟨.probed hnext ht dialed asked, .same⟩

/-! ### A pool of two for the instances below -/

/-- Some hash: the bytes of the text from its end. -/
def fromEnd (text : List Char) : List UInt8 := text.reverse.map fun c => UInt8.ofNat c.toNat

def lanPool : List Upstream := [⟨"http", "10.0.0.1", 80, 0⟩, ⟨"http", "10.0.0.2", 80, 0⟩]

def lanTargets : GoMap String HealthTarget :=
  GoMap.insertAll ∅ (lanPool.map fun u =>
    (upstreamKey u, ⟨u.scheme, hostPort u.host u.port, u.via, false, ""⟩))

/-! ### Health along a run

A target changes from down to up in two ways only (`BringsBack`). -/

theorem Heals.ok {h : HealthChecker} (hheals : Heals s label h) (hok : s.health.Ok) : h.Ok := by
  cases hheals with
  | same => exact hok
  | reload want => exact hok.setTargets want
  | marked _ key err => exact hok.markDown key err
  | probed => exact hok.modify _ _

theorem ok_of_reachable (hreach : Reachable (step sum256) init s) : s.health.Ok := by
  apply hreach.invariant
  · constructor
    · intro key i hlook
      cases hlook
    · intro key key' i hlook
      cases hlook
  · intro u label next hok hstep
    exact (step_cases hstep).1.ok hok

/-- What brings a target back: a probe of its own object that found it answering, or a reload
that no longer wants it. -/
def BringsBack (key : String) (s : System) (label : Label) : Prop :=
  (∃ i client rest t dialed asked, s.health.targets.lookup key = some i ∧
    s.probing = (i, client) :: rest ∧ s.health.objects[i]? = some t ∧
    label = .probed dialed asked ∧ (probe true t.via dialed asked).1 = true) ∨
  ∃ want, label = .setTargets want ∧ want.lookup key = none

theorem Heals.bringsBack {h : HealthChecker} {key : String} (hheals : Heals s label h)
    (hok : s.health.Ok) (hdown : s.health.up key = false) (hup : h.up key = true) :
    BringsBack key s label := by
  cases hheals with
  | same => simp [hdown] at hup
  | reload want =>
      rw [HealthChecker.up_setTargets hok, hdown, Bool.or_false, Option.isNone_iff_eq_none] at hup
      exact Or.inr ⟨want, rfl, hup⟩
  | marked _ marked err =>
      have := HealthChecker.up_of_up_markDown hok hup
      simp [hdown] at this
  | @probed i client rest t hnext ht dialed asked =>
      by_cases hkey : s.health.targets.lookup key = some i
      · obtain ⟨t', ht', -, hnew⟩ := HealthChecker.up_modify_self hok
          (fun t' => { t' with up := (probe true t.via dialed asked).1,
                               lastErr := (probe true t.via dialed asked).2 }) hkey
        exact Or.inl ⟨i, client, rest, t, dialed, asked, hkey, hnext, ht, rfl, hnew.symm.trans hup⟩
      · rw [HealthChecker.record, HealthChecker.up_modify_ne _ hkey, hdown] at hup
        cases hup

/-- A backend that a request found unreachable, or that a probe found down, stays down for the
balancer until a probe of that very backend finds it answering, or a reload no longer wants
it: no probe that was under way for an object that has left the map, no other backend's probe
and no reload that keeps it brings it back. -/
theorem down_until_probed {t : System} {labels : List Label} {key : String}
    (hreach : Reachable (step sum256) init s) (hrun : run (step sum256) s labels = some t)
    (hdown : s.health.up key = false) (hup : t.health.up key = true) :
    ∃ before label after u, labels = before ++ label :: after ∧
      run (step sum256) s before = some u ∧ u.health.up key = false ∧ BringsBack key u label := by
  obtain ⟨before, label, after, u, v, rfl, hbefore, hlost, -, hu, hv⟩ :=
    exists_step_of_lost (P := fun u => u.health.up key = false) hdown (by simp [hup]) hrun
  refine ⟨before, label, after, u, rfl, hbefore, hu, ?_⟩
  apply (step_cases hlost).1.bringsBack (ok_of_reachable (hreach.trans hbefore)) hu
  simpa using hv

theorem down_until_probed_lan :
    ∃ s t before label after u, run (step fromEnd) init [.place false lanPool,
        .setTargets lanTargets, .request 0 "", .pick 0, .pick 0,
          .reach 0 (some ("refused", true))] =
        some s ∧ run (step fromEnd) s [.wake ["http://10.0.0.1:80", "http://10.0.0.2:80"],
        .probed .connected .answered, .probed .connected .answered] = some t ∧
      [Label.wake ["http://10.0.0.1:80", "http://10.0.0.2:80"],
        .probed .connected .answered, .probed .connected .answered] = before ++ label :: after ∧
      run (step fromEnd) s before = some u ∧ u.health.up "http://10.0.0.2:80" = false ∧
      BringsBack "http://10.0.0.2:80" u label := by
  have hdown : (run (step fromEnd) init [.place false lanPool, .setTargets lanTargets,
      .request 0 "", .pick 0, .pick 0, .reach 0 (some ("refused", true))]).map
      (fun s => s.health.up "http://10.0.0.2:80") = some false := by
    decide +kernel
  obtain ⟨s, hs, hsdown⟩ := Option.map_eq_some_iff.mp hdown
  have hup : ((run (step fromEnd) init [.place false lanPool, .setTargets lanTargets,
      .request 0 "", .pick 0, .pick 0, .reach 0 (some ("refused", true))]).bind fun s =>
      run (step fromEnd) s [.wake ["http://10.0.0.1:80", "http://10.0.0.2:80"],
        .probed .connected .answered, .probed .connected .answered]).map
      (fun s => s.health.up "http://10.0.0.2:80") = some true := by
    decide +kernel
  rw [hs, Option.bind_some] at hup
  obtain ⟨t, ht, htup⟩ := Option.map_eq_some_iff.mp hup
  obtain ⟨before, label, after, u, hsplit, hbefore, hu, hback⟩ :=
    down_until_probed ⟨_, hs⟩ ht hsdown htup
  exact ⟨s, t, before, label, after, u, hs, ht, hsplit, hbefore, hu, hback⟩

/-! ### Turns of the counter

Which request has which turn is read off the order in which the counter was moved. -/

/-- The counter has gone round with the requests that moved it. -/
def Balancer.Counts (b : Balancer) : Prop := b.next.toNat = b.drawn.length % 2 ^ 32

theorem toNat_succ (c : UInt32) : (c + 1).toNat = (c.toNat + 1) % 2 ^ 32 := by
  simp [UInt32.toNat_add]

theorem Balancer.Moves.counts {h : HealthChecker} {b b' : Balancer} {job : Nat}
    {cookieVal : String} {phase phase' : Phase}
    (hmove : b.Moves h job cookieVal phase b' phase') (hcounts : b.Counts) : b'.Counts := by
  cases hmove
  case drew =>
    rw [Balancer.Counts, toNat_succ, hcounts, List.length_append, List.length_singleton,
      Nat.mod_add_mod]
  all_goals exact hcounts

def CountersOk (s : System) : Prop :=
  ∀ (b : Nat) (bal : Balancer), s.balancers[b]? = some bal → bal.Counts

theorem countersOk_of_reachable (hreach : Reachable (step sum256) init s) : CountersOk s := by
  apply hreach.invariant
  · intro b bal hb
    simp [init] at hb
  · intro u label next hok hstep b bal hb
    obtain ⟨-, hserves⟩ := step_cases hstep
    generalize next.balancers = balancers, next.picks = picks at hserves hb
    cases hserves with
    | same => exact hok b bal hb
    | placed new hnext hdrawn =>
        rcases getElem?_concat_eq_some hb with ⟨-, rfl⟩ | hold
        · simp [Balancer.Counts, hnext, hdrawn]
        · exact hok b bal hold
    | asked => exact hok b bal hb
    | @moved job p b₀ b' phase hp hb₀ hmove =>
        rcases getElem?_set_eq_some hb with ⟨-, rfl⟩ | ⟨-, hold⟩
        · exact hmove.counts (hok p.bal b₀ hb₀)
        · exact hok b bal hold
    | reached => exact hok b bal hb

/-- The pick has target `r` before it or behind it: it is about to read it first, or has
chosen it. -/
def Toward (n r : Nat) : Phase → Prop
  | .cookie _ => False
  | .drawing => False
  | .scanning start i => i = 0 ∧ start % n = r
  | .chosen target => target = r
  | .ended target => target = r

theorem Toward.moves {h : HealthChecker} {b b' : Balancer} {job r : Nat} {cookieVal : String}
    {phase phase' : Phase} {t : BalTarget} (htoward : Toward b.targets.length r phase)
    (ht : b.targets[r]? = some t) (hup : h.up t.key = true)
    (hmove : b.Moves h job cookieVal phase b' phase') : Toward b.targets.length r phase' := by
  cases hmove with
  | found => exact htoward.elim
  | passed => exact htoward.elim
  | unknown => exact htoward.elim
  | drew => exact htoward.elim
  | healthy =>
      obtain ⟨rfl, hr⟩ := htoward
      exact hr
  | down ht' hdown =>
      -- the first read finds `r`, which is up
      obtain ⟨rfl, hr⟩ := htoward
      rw [Nat.add_zero, hr, ht] at ht'
      obtain rfl := Option.some.inj ht'
      simp [hup] at hdown
  | allDown => exact htoward.2

/-- Of the turns from `start` on, those that are `r`'s are taken by picks that have `r` before
them or behind them. -/
structure Turns (b start r : Nat) (targets : List BalTarget) (s : System) : Prop where
  ok : ∃ bal, s.balancers[b]? = some bal ∧ bal.targets = targets ∧ bal.Counts ∧
    start ≤ bal.drawn.length ∧
    ∀ m j, start ≤ m → bal.drawn[m]? = some j → place (2 ^ 32) targets.length (m + 1) = r →
      ∃ p, s.picks[j]? = some p ∧ p.bal = b ∧ Toward targets.length r p.phase

variable {b start r : Nat} {targets : List BalTarget} {target : BalTarget}

theorem Turns.next (hturns : Turns b start r targets s) (htarget : targets[r]? = some target)
    (hup : s.health.up target.key = true) (hstep : step sum256 s label = some s') :
    Turns b start r targets s' := by
  obtain ⟨bal, hb, rfl, hcounts, hlen, hall⟩ := hturns.ok
  obtain ⟨-, hserves⟩ := step_cases hstep
  constructor
  generalize s'.balancers = balancers, s'.picks = picks at hserves
  cases hserves with
  | same => exact ⟨bal, hb, rfl, hcounts, hlen, hall⟩
  | placed new _ _ =>
      refine ⟨bal, ?_, rfl, hcounts, hlen, hall⟩
      rw [List.getElem?_append_left (List.getElem?_eq_some_iff.mp hb).1, hb]
  | asked =>
      refine ⟨bal, hb, rfl, hcounts, hlen, ?_⟩
      intro m j hm hj hplace
      obtain ⟨p, hp, hbal, htoward⟩ := hall m j hm hj hplace
      refine ⟨p, ?_, hbal, htoward⟩
      rw [List.getElem?_append_left (List.getElem?_eq_some_iff.mp hp).1, hp]
  | @reached job target' p hp hphase =>
      refine ⟨bal, hb, rfl, hcounts, hlen, ?_⟩
      intro m j hm hj hplace
      obtain ⟨q, hq, hbal, htoward⟩ := hall m j hm hj hplace
      by_cases hjob : j = job
      · subst hjob
        obtain rfl := Option.some.inj (hp.symm.trans hq)
        rw [hphase] at htoward
        refine ⟨_, List.getElem?_set_self (List.getElem?_eq_some_iff.mp hp).1, hbal, htoward⟩
      · exact ⟨q, by rwa [List.getElem?_set_ne (Ne.symm hjob)], hbal, htoward⟩
  | @moved job p b₀ b' phase hp hb₀ hmove =>
      have hpick : (s.picks.set job { p with phase })[job]? = some { p with phase } :=
        List.getElem?_set_self (List.getElem?_eq_some_iff.mp hp).1
      have hkeep : ∀ m j, start ≤ m → bal.drawn[m]? = some j →
          place (2 ^ 32) bal.targets.length (m + 1) = r → ∃ q,
            (s.picks.set job { p with phase })[j]? = some q ∧ q.bal = b ∧
              Toward bal.targets.length r q.phase := by
        intro m j hm hj hplace
        obtain ⟨q, hq, hbal, htoward⟩ := hall m j hm hj hplace
        by_cases hjob : j = job
        · subst hjob
          obtain rfl := Option.some.inj (hp.symm.trans hq)
          rw [hbal, hb] at hb₀
          obtain rfl := Option.some.inj hb₀
          exact ⟨_, hpick, hbal, htoward.moves htarget hup hmove⟩
        · exact ⟨q, by rwa [List.getElem?_set_ne (Ne.symm hjob)], hbal, htoward⟩
      by_cases hbal : p.bal = b
      · rw [hbal, hb] at hb₀
        obtain rfl := Option.some.inj hb₀
        have hself : (s.balancers.set p.bal b')[b]? = some b' := by
          rw [hbal, List.getElem?_set_self (List.getElem?_eq_some_iff.mp hb).1]
        refine ⟨b', hself, hmove.targets, hmove.counts hcounts, ?_, ?_⟩
        · rcases hmove.drawn with hdrawn | ⟨hdrawn, -⟩
          · rwa [hdrawn]
          · rw [hdrawn, List.length_append]
            omega
        · intro m j hm hj hplace
          rcases hmove.drawn with hdrawn | ⟨hdrawn, -, hphase⟩
          · rw [hdrawn] at hj
            exact hkeep m j hm hj hplace
          · -- the turn that was just drawn, or one from before
            rw [hdrawn] at hj
            rcases getElem?_concat_eq_some hj with ⟨rfl, rfl⟩ | hold
            · refine ⟨_, hpick, hbal, ?_⟩
              change Toward bal.targets.length r phase
              rw [hphase, toNat_succ, hcounts, Nat.mod_add_mod]
              exact ⟨rfl, hplace⟩
            · exact hkeep m j hm hold hplace
      · refine ⟨bal, ?_, rfl, hcounts, hlen, hkeep⟩
        rw [List.getElem?_set_ne hbal, hb]

/-- A backend that stays up gets its turn: of any `2 * n - 1` requests that follow each other in
drawing from a pool of `n`, one has chosen it, or is about to read it first. -/
theorem turn_comes {t : System} {labels : List Label} {bal bal' : Balancer}
    (hreach : Reachable (step sum256) init s) (hrun : run (step sum256) s labels = some t)
    (hb : s.balancers[b]? = some bal) (hb' : t.balancers[b]? = some bal')
    (hn : bal.targets.length ≤ 2 ^ 32) (htarget : bal.targets[r]? = some target)
    (hup : RunMeets (step sum256) (fun u _ => u.health.up target.key = true) s labels)
    {w : Nat} (hfrom : bal.drawn.length ≤ w)
    (hto : w + (2 * bal.targets.length - 1) ≤ bal'.drawn.length) :
    ∃ k < 2 * bal.targets.length - 1, ∃ job p, bal'.drawn[w + k]? = some job ∧
      t.picks[job]? = some p ∧ p.bal = b ∧ Toward bal.targets.length r p.phase := by
  have hr : r < bal.targets.length := (List.getElem?_eq_some_iff.mp htarget).1
  have hstart : Turns b bal.drawn.length r bal.targets s := by
    refine ⟨bal, hb, rfl, countersOk_of_reachable hreach b bal hb, le_refl _, ?_⟩
    intro m j hm hj
    have hlt := (List.getElem?_eq_some_iff.mp hj).1
    omega
  have hend : Turns b bal.drawn.length r bal.targets t :=
    hup.invariant (fun u label next hturns hu hstep => hturns.next htarget hu hstep) hstart hrun
  obtain ⟨bal₁, hb₁, -, -, -, hall⟩ := hend.ok
  obtain rfl := Option.some.inj (hb'.symm.trans hb₁)
  obtain ⟨k, hk, hplace⟩ := exists_place hr hn (w + 1)
  have hdrawn := List.getElem?_eq_getElem (l := bal'.drawn) (i := w + k) (by omega)
  obtain ⟨p, hp, hbal, htoward⟩ := hall (w + k) _ (by omega) hdrawn (by
    rwa [show w + k + 1 = w + 1 + k by omega])
  exact ⟨k, hk, _, p, hdrawn, hp, hbal, htoward⟩

theorem turn_comes_lan :
    ∃ s t bal', run (step fromEnd) init [.place false lanPool] = some s ∧
      run (step fromEnd) s [.request 0 "", .request 0 "", .request 0 "", .pick 1, .pick 2, .pick 1,
        .pick 0, .pick 2] = some t ∧ t.balancers[0]? = some bal' ∧ bal'.drawn = [1, 2, 0] ∧
      ∃ k < 3, ∃ job p, bal'.drawn[0 + k]? = some job ∧ t.picks[job]? = some p ∧ p.bal = 0 ∧
        Toward 2 0 p.phase := by
  have hend : (run (step fromEnd) ((step fromEnd init (.place false lanPool)).getD init)
      [.request 0 "", .request 0 "", .request 0 "", .pick 1, .pick 2, .pick 1, .pick 0,
        .pick 2]).map (fun t => t.balancers) =
      some [{ newBalancer fromEnd false lanPool with next := 3, drawn := [1, 2, 0] }] := by
    decide +kernel
  obtain ⟨t, ht, hbal⟩ := Option.map_eq_some_iff.mp hend
  have hb' : t.balancers[0]? =
      some { newBalancer fromEnd false lanPool with next := 3, drawn := [1, 2, 0] } := by
    rw [hbal]
    rfl
  have htarget : (newBalancer fromEnd false lanPool).targets[0]? =
      some ⟨"http://10.0.0.1:80", "http://10.0.0.1:80", "30383a312e30", 0⟩ := by
    decide +kernel
  refine ⟨_, t, _, rfl, ht, hb', rfl, ?_⟩
  exact turn_comes (w := 0) ⟨[.place false lanPool], rfl⟩ ht rfl hb' (by decide) htarget
    (by decide +kernel) (by decide) (by decide)

/-! ### What a pick has seen

Each read of a pick is a state of the run, so what stands behind a pick are states in which
the targets it has passed were down. -/

/-- A pool keeps its targets and its kind. -/
theorem Serves.pool {balancers : List Balancer} {picks : List Pick} {bal : Balancer}
    (hserves : Serves s balancers picks) (hb : s.balancers[b]? = some bal) :
    ∃ bal', balancers[b]? = some bal' ∧ bal'.targets = bal.targets ∧
      bal'.stickySessions = bal.stickySessions := by
  cases hserves with
  | same => exact ⟨bal, hb, rfl, rfl⟩
  | placed new _ _ =>
      refine ⟨bal, ?_, rfl, rfl⟩
      rw [List.getElem?_append_left (List.getElem?_eq_some_iff.mp hb).1, hb]
  | asked => exact ⟨bal, hb, rfl, rfl⟩
  | reached => exact ⟨bal, hb, rfl, rfl⟩
  | @moved job p b₀ b' phase hp hb₀ hmove =>
      by_cases hbal : p.bal = b
      · subst hbal
        obtain rfl := Option.some.inj (hb.symm.trans hb₀)
        exact ⟨b', List.getElem?_set_self (List.getElem?_eq_some_iff.mp hb).1, hmove.targets,
          hmove.stickySessions⟩
      · exact ⟨bal, by rw [List.getElem?_set_ne hbal, hb], rfl, rfl⟩

/-- What a step can do to one request. -/
inductive Advances (s : System) (job : Nat) (p' : Pick) : Prop
  | kept (hp : s.picks[job]? = some p')
  | moved {p : Pick} {bal b' : Balancer} (hp : s.picks[job]? = some p) (hbal : p'.bal = p.bal)
      (hcookie : p'.cookieVal = p.cookieVal) (hb : s.balancers[p.bal]? = some bal)
      (hmove : bal.Moves s.health job p.cookieVal p.phase b' p'.phase)
  | reached {p : Pick} {target : Nat} (hp : s.picks[job]? = some p) (hbal : p'.bal = p.bal)
      (hcookie : p'.cookieVal = p.cookieVal) (hphase : p.phase = .chosen target)
      (hended : p'.phase = .ended target)
  | begun {bal : Balancer} (hnew : s.picks[job]? = none) (hb : s.balancers[p'.bal]? = some bal)
      (hfirst : 0 < bal.targets.length) (hphase : p'.phase = bal.rewrite p'.cookieVal)

theorem Serves.advances {balancers : List Balancer} {picks : List Pick} {job : Nat} {p' : Pick}
    (hserves : Serves s balancers picks) (hp' : picks[job]? = some p') : Advances s job p' := by
  cases hserves with
  | same => exact .kept hp'
  | placed => exact .kept hp'
  | asked hb hfirst cookieVal =>
      rcases getElem?_concat_eq_some hp' with ⟨rfl, rfl⟩ | hold
      · exact .begun (List.getElem?_eq_none (le_refl _)) hb hfirst rfl
      · exact .kept hold
  | moved hp hb hmove =>
      rcases getElem?_set_eq_some hp' with ⟨rfl, rfl⟩ | ⟨-, hold⟩
      · exact .moved hp rfl rfl hb hmove
      · exact .kept hold
  | reached hp hphase =>
      rcases getElem?_set_eq_some hp' with ⟨rfl, rfl⟩ | ⟨-, hold⟩
      · exact .reached hp rfl rfl hphase rfl
      · exact .kept hold

theorem Serves.pick_none {balancers : List Balancer} {picks : List Pick} {job : Nat}
    (hserves : Serves s balancers picks) (hgone : picks[job]? = none) :
    s.picks[job]? = none := by
  cases hserves with
  | same => exact hgone
  | placed => exact hgone
  | asked =>
      rw [List.getElem?_eq_none_iff, List.length_append] at hgone
      exact List.getElem?_eq_none (by omega)
  | moved =>
      rwa [List.getElem?_eq_none_iff, List.length_set, ← List.getElem?_eq_none_iff] at hgone
  | reached =>
      rwa [List.getElem?_eq_none_iff, List.length_set, ← List.getElem?_eq_none_iff] at hgone

/-- In some state of the run a request could see the target up, or down. -/
def SeenAs (sum256 : List Char → List UInt8) (s : System) (past : List Label) (up : Bool)
    (t : BalTarget) : Prop :=
  Once (step sum256) (fun u => u.health.up t.key = up) s past

/-- A choice is sound: it was seen up, or there was nothing to choose, or every target of the
pool was seen down. -/
def Sound (sum256 : List Char → List UInt8) (s : System) (past : List Label)
    (targets : List BalTarget) (k : Nat) : Prop :=
  ∃ t, targets[k]? = some t ∧ (targets.length ≤ 1 ∨ SeenAs sum256 s past true t ∨
    ∀ t' ∈ targets, SeenAs sum256 s past false t')

/-- What stands behind a pick in each phase: a scan has seen the targets down that it has gone
past. -/
def Behind (sum256 : List Char → List UInt8) (s : System) (past : List Label)
    (targets : List BalTarget) : Phase → Prop
  | .cookie _ => 1 < targets.length
  | .drawing => 1 < targets.length
  | .scanning start i => 1 < targets.length ∧
      ∀ m < i, ∀ t, targets[(start + m) % targets.length]? = some t → SeenAs sum256 s past false t
  | .chosen k => Sound sum256 s past targets k
  | .ended k => Sound sum256 s past targets k

variable {past : List Label} {phase : Phase}

theorem Sound.append {k : Nat} (hsound : Sound sum256 s past targets k) (more : List Label) :
    Sound sum256 s (past ++ more) targets k := by
  obtain ⟨t, ht, hcases⟩ := hsound
  refine ⟨t, ht, ?_⟩
  rcases hcases with hone | hup | hdown
  · exact Or.inl hone
  · exact Or.inr (Or.inl (Once.append hup more))
  · exact Or.inr (Or.inr fun t' ht' => Once.append (hdown t' ht') more)

theorem Behind.append (hbehind : Behind sum256 s past targets phase) (more : List Label) :
    Behind sum256 s (past ++ more) targets phase := by
  cases phase with
  | cookie => exact hbehind
  | drawing => exact hbehind
  | scanning start i =>
      exact ⟨hbehind.1, fun m hm t ht => Once.append (hbehind.2 m hm t ht) more⟩
  | chosen k => exact Sound.append hbehind more
  | ended k => exact Sound.append hbehind more

theorem behind_rewrite {bal : Balancer} (hfirst : 0 < bal.targets.length) (cookieVal : String) :
    Behind sum256 s past bal.targets (bal.rewrite cookieVal) := by
  unfold Balancer.rewrite
  split
  · rename_i hmany
    split
    · unfold Balancer.stickyPick
      split <;> exact hmany
    · rw [Balancer.pick, if_neg (by omega)]
      exact hmany
  · rename_i hone
    exact ⟨_, List.getElem?_eq_getElem hfirst, Or.inl (Nat.le_of_not_lt hone)⟩

/-- A read that finds a target up or down is a state of the run that has it so. -/
theorem Behind.moves {u : System} {bal b' : Balancer} {job : Nat} {cookieVal : String}
    {phase' : Phase} (hpast : run (step sum256) s past = some u)
    (hbehind : Behind sum256 s past bal.targets phase)
    (hmove : bal.Moves u.health job cookieVal phase b' phase') :
    Behind sum256 s past bal.targets phase' := by
  cases hmove with
  | found ht hid hup => exact ⟨_, ht, Or.inr (Or.inl (Once.last hpast hup))⟩
  | passed => exact hbehind
  | unknown => exact hbehind
  | drew => exact ⟨hbehind, fun m hm => absurd hm (Nat.not_lt_zero m)⟩
  | healthy ht hup => exact ⟨_, ht, Or.inr (Or.inl (Once.last hpast hup))⟩
  | @down start i t ht hdown =>
      refine ⟨hbehind.1, ?_⟩
      intro m hm t' ht'
      by_cases hlast : m = i
      · subst hlast
        obtain rfl := Option.some.inj (ht.symm.trans ht')
        exact Once.last hpast hdown
      · exact hbehind.2 m (by omega) t' ht'
  | @allDown start i hi =>
      have hmany := hbehind.1
      have hlt : start % bal.targets.length < bal.targets.length := Nat.mod_lt _ (by omega)
      refine ⟨_, List.getElem?_eq_getElem hlt, Or.inr (Or.inr ?_)⟩
      intro t' ht'
      -- the scan has gone past every place, this one's too
      obtain ⟨r, hr, rfl⟩ := List.getElem_of_mem ht'
      obtain ⟨m, hm, hshift⟩ := exists_shift hr start
      apply hbehind.2 m (by omega)
      rw [hshift, List.getElem?_eq_getElem hr]

/-- What is known of the requests that begin after `s`. -/
def PicksBehind (sum256 : List Char → List UInt8) (s : System) (past : List Label) (u : System) :
    Prop :=
  ∀ (job : Nat) (p : Pick), s.picks.length ≤ job → u.picks[job]? = some p →
    ∃ bal, u.balancers[p.bal]? = some bal ∧ Behind sum256 s past bal.targets p.phase

theorem PicksBehind.next {u next : System} (hpast : run (step sum256) s past = some u)
    (hpicks : PicksBehind sum256 s past u) (hstep : step sum256 u label = some next) :
    PicksBehind sum256 s (past ++ [label]) next := by
  intro job p' hnew hp'
  obtain ⟨-, hserves⟩ := step_cases hstep
  have hkeep : ∀ bal, u.balancers[p'.bal]? = some bal →
      Behind sum256 s past bal.targets p'.phase →
      ∃ bal', next.balancers[p'.bal]? = some bal' ∧
        Behind sum256 s (past ++ [label]) bal'.targets p'.phase := by
    intro bal hb hbehind
    obtain ⟨bal', hb', htargets, -⟩ := hserves.pool hb
    exact ⟨bal', hb', htargets ▸ hbehind.append [label]⟩
  cases hserves.advances hp' with
  | kept hp =>
      obtain ⟨bal, hb, hbehind⟩ := hpicks job p' hnew hp
      exact hkeep bal hb hbehind
  | @moved p bal b' hp hbal _ hb hmove =>
      obtain ⟨bal₁, hb₁, hbehind⟩ := hpicks job p hnew hp
      obtain rfl := Option.some.inj (hb.symm.trans hb₁)
      exact hkeep bal (hbal ▸ hb) (hbehind.moves hpast hmove)
  | reached hp hbal _ hphase hended =>
      obtain ⟨bal, hb, hbehind⟩ := hpicks job _ hnew hp
      rw [hphase] at hbehind
      apply hkeep bal (hbal ▸ hb)
      rw [hended]
      exact hbehind
  | @begun bal _ hb hfirst hphase =>
      apply hkeep bal hb
      rw [hphase]
      exact behind_rewrite hfirst _

/-! ### Every request

The states of the run up to a choice are those that its pick could see. -/

/-- Every request is sent to a target of its pool, and a pool of more than one sends it to one
that was up in some state since the request came in, whatever else changed meanwhile.  The
only exception is that every target of the pool was down in some state since then. -/
theorem chosen_target_up {t : System} {labels : List Label} {job k : Nat} {p : Pick}
    (hrun : run (step sum256) s labels = some t) (hnew : s.picks.length ≤ job)
    (hp : t.picks[job]? = some p) (hphase : p.phase = .chosen k) :
    ∃ bal target, t.balancers[p.bal]? = some bal ∧ bal.targets[k]? = some target ∧
      (bal.targets.length ≤ 1 ∨ SeenAs sum256 s labels true target ∨
        ∀ other ∈ bal.targets, SeenAs sum256 s labels false other) := by
  have hpicks : PicksBehind sum256 s labels t := by
    apply run_along (P := PicksBehind sum256 s) _ _ hrun
    · intro past u label next hpast hpicks hstep
      exact hpicks.next hpast hstep
    · intro job p hnew hp
      exact absurd (List.getElem?_eq_some_iff.mp hp).1 (by omega)
  obtain ⟨bal, hb, hbehind⟩ := hpicks job p hnew hp
  rw [hphase] at hbehind
  obtain ⟨target, htarget, hcases⟩ := hbehind
  exact ⟨bal, target, hb, htarget, hcases⟩

theorem chosen_target_up_lan :
    ∃ s t, run (step fromEnd) init [.place false lanPool, .setTargets lanTargets] = some s ∧
      run (step fromEnd) s [.request 0 "", .pick 0, .pick 0] = some t ∧
      ∃ bal target, t.balancers[0]? = some bal ∧ bal.targets[1]? = some target ∧
        (bal.targets.length ≤ 1 ∨
          SeenAs fromEnd s [.request 0 "", .pick 0, .pick 0] true target ∨
          ∀ other ∈ bal.targets,
            SeenAs fromEnd s [.request 0 "", .pick 0, .pick 0] false other) := by
  have hend : (run (step fromEnd)
      ((run (step fromEnd) init [.place false lanPool, .setTargets lanTargets]).getD init)
      [.request 0 "", .pick 0, .pick 0]).map System.picks = some [⟨0, "", .chosen 1⟩] := by
    decide +kernel
  obtain ⟨t, ht, hpicks⟩ := Option.map_eq_some_iff.mp hend
  have hp : t.picks[0]? = some ⟨0, "", .chosen 1⟩ := by
    rw [hpicks]
    rfl
  exact ⟨_, t, rfl, ht, chosen_target_up ht (by decide) hp rfl⟩

/-! ### Sticky sessions

A cookie names its target by the start of a hash, so a client may come to another target of
the same cookie. -/

namespace Balancer

/-! ### A session

The client keeps what `ModifyResponse` sets and brings it back with its next request. -/

def stickyCookie (b : Balancer) (p : Pick) : Option String :=
  if b.sticky then
    match p.phase with
    | .ended k => do
      let t ← b.targets[k]?
      if t.id ≠ "" && p.cookieVal ≠ t.id then some t.id else none
    | _ => none
  else none

def jar (b : Balancer) (p : Pick) : String := (b.stickyCookie p).getD p.cookieVal

/-- Whatever the client came with, it holds the cookie of the backend that answered. -/
theorem jar_eq {b : Balancer} {p : Pick} {k : Nat} {t : BalTarget} (hsticky : b.sticky = true)
    (hphase : p.phase = .ended k) (ht : b.targets[k]? = some t) (hid : t.id ≠ "") :
    b.jar p = t.id := by
  by_cases hsame : p.cookieVal = t.id
  · simp [jar, stickyCookie, hsticky, hphase, ht, hsame]
  · simp [jar, stickyCookie, hsticky, hphase, ht, hid, hsame]

end Balancer

/-- A pick that still looks for its cookie's target and has not gone past it, or has chosen a
target of that cookie. -/
def Homing (targets : List BalTarget) (r : Nat) (id : String) : Phase → Prop
  | .cookie i => i ≤ r
  | .drawing => False
  | .scanning _ _ => False
  | .chosen k => ∃ t, targets[k]? = some t ∧ t.id = id
  | .ended k => ∃ t, targets[k]? = some t ∧ t.id = id

theorem Homing.moves {h : HealthChecker} {bal b' : Balancer} {job : Nat} {id : String}
    {phase' : Phase} (hhoming : Homing bal.targets r id phase)
    (htarget : bal.targets[r]? = some target) (hid : target.id = id)
    (hup : h.up target.key = true) (hmove : bal.Moves h job id phase b' phase') :
    Homing bal.targets r id phase' ∧ b'.drawn = bal.drawn := by
  cases hmove with
  | found ht hsame _ => exact ⟨⟨_, ht, hsame⟩, rfl⟩
  | @passed i t ht hnot =>
      refine ⟨?_, rfl⟩
      -- the target itself is up, so the scan does not go past it
      have hne : i ≠ r := by
        rintro rfl
        obtain rfl := Option.some.inj (ht.symm.trans htarget)
        simp [hnot hid] at hup
      have hle : i ≤ r := hhoming
      change i + 1 ≤ r
      omega
  | @unknown i hi =>
      have hr := (List.getElem?_eq_some_iff.mp htarget).1
      have hle : i ≤ r := hhoming
      have := List.getElem?_eq_none_iff.mp hi
      omega
  | drew => exact hhoming.elim
  | healthy => exact hhoming.elim
  | down => exact hhoming.elim
  | allDown => exact hhoming.elim

/-- Only a request of the pool that is about to draw moves the pool's counter. -/
theorem Serves.drawn {balancers : List Balancer} {picks : List Pick} {bal bal' : Balancer}
    (hserves : Serves s balancers picks) (hb : s.balancers[b]? = some bal)
    (hb' : balancers[b]? = some bal') : bal'.drawn = bal.drawn ∨
      ∃ job p, s.picks[job]? = some p ∧ p.bal = b ∧ p.phase = .drawing ∧
        bal'.drawn = bal.drawn ++ [job] := by
  have hsame : s.balancers[b]? = some bal' → bal'.drawn = bal.drawn := by
    intro hold
    rw [Option.some.inj (hold.symm.trans hb)]
  cases hserves with
  | same => exact Or.inl (hsame hb')
  | asked => exact Or.inl (hsame hb')
  | reached => exact Or.inl (hsame hb')
  | placed new _ _ =>
      rw [List.getElem?_append_left (List.getElem?_eq_some_iff.mp hb).1] at hb'
      exact Or.inl (hsame hb')
  | @moved job p b₀ b₁ phase hp hb₀ hmove =>
      rcases getElem?_set_eq_some hb' with ⟨rfl, rfl⟩ | ⟨-, hold⟩
      · obtain rfl := Option.some.inj (hb.symm.trans hb₀)
        rcases hmove.drawn with hdrawn | ⟨hdrawn, hphase, -⟩
        · exact Or.inl hdrawn
        · exact Or.inr ⟨job, p, hp, rfl, hphase, hdrawn⟩
      · exact Or.inl (hsame hold)

/-- A request of a sticky pool that comes with a target's cookie is on its way to a target of
that cookie, and has not moved the pool's counter. -/
structure Homes (b job r turns : Nat) (id : String) (targets : List BalTarget) (s : System) :
    Prop where
  pool : ∃ bal, s.balancers[b]? = some bal ∧ bal.targets = targets ∧
    bal.stickySessions = true ∧ (s.picks[job]? = none → bal.drawn.count job = turns) ∧
    ∀ p, s.picks[job]? = some p → p.bal = b → p.cookieVal = id →
      bal.drawn.count job = turns ∧ Homing targets r id p.phase

theorem rewrite_of_cookie {bal : Balancer} {id : String} (hsticky : bal.stickySessions = true)
    (hmany : 1 < bal.targets.length) (hid : id ≠ "") : bal.rewrite id = .cookie 0 := by
  simp [Balancer.rewrite, hmany, Balancer.sticky, hsticky, Balancer.stickyPick, hid]

theorem Homes.next {job turns : Nat} {id : String} (hhomes : Homes b job r turns id targets s)
    (hmany : 1 < targets.length) (htarget : targets[r]? = some target) (hid : target.id = id)
    (hne : id ≠ "") (hup : s.health.up target.key = true)
    (hstep : step sum256 s label = some s') : Homes b job r turns id targets s' := by
  obtain ⟨bal, hb, rfl, hsticky, hnone, hsome⟩ := hhomes.pool
  obtain ⟨-, hserves⟩ := step_cases hstep
  obtain ⟨bal', hb', htargets, hkind⟩ := hserves.pool hb
  -- the counter is moved by this request only when it draws, which it does not
  have hcount : (∀ p, s.picks[job]? = some p → p.bal = b → p.phase ≠ .drawing) →
      bal'.drawn.count job = bal.drawn.count job := by
    intro hnot
    rcases hserves.drawn hb hb' with hdrawn | ⟨job', p, hp, hbal, hphase, hdrawn⟩
    · rw [hdrawn]
    · have hother : job' ≠ job := by
        rintro rfl
        exact hnot p hp hbal hphase
      rw [hdrawn, List.count_append, List.count_singleton]
      simp [hother]
  have hnotdrawing : ∀ p, s.picks[job]? = some p → p.bal = b → p.cookieVal = id →
      bal'.drawn.count job = turns := by
    intro p hp hbal hcookie
    obtain ⟨hturns, hhoming⟩ := hsome p hp hbal hcookie
    rw [hcount, hturns]
    intro p₁ hp₁ _ hphase
    obtain rfl := Option.some.inj (hp.symm.trans hp₁)
    rw [hphase] at hhoming
    exact hhoming
  constructor
  refine ⟨bal', hb', htargets, hkind.trans hsticky, ?_, ?_⟩
  · intro hgone
    have hold := hserves.pick_none hgone
    rw [hcount, hnone hold]
    intro p hp
    simp [hold] at hp
  · intro p' hp' hbal' hcookie'
    cases hserves.advances hp' with
    | kept hp => exact ⟨hnotdrawing p' hp hbal' hcookie', (hsome p' hp hbal' hcookie').2⟩
    | @moved p bal₀ b' hp hbal hcookie hb₀ hmove =>
        rw [hbal'] at hbal
        rw [hcookie'] at hcookie
        rw [← hbal, hb] at hb₀
        obtain rfl := Option.some.inj hb₀
        rw [← hcookie] at hmove
        refine ⟨hnotdrawing p hp hbal.symm hcookie.symm, ?_⟩
        exact ((hsome p hp hbal.symm hcookie.symm).2.moves htarget hid hup hmove).1
    | @reached p k hp hbal hcookie hphase hended =>
        rw [hbal'] at hbal
        rw [hcookie'] at hcookie
        have hhoming := (hsome p hp hbal.symm hcookie.symm).2
        rw [hphase] at hhoming
        refine ⟨hnotdrawing p hp hbal.symm hcookie.symm, ?_⟩
        rw [hended]
        exact hhoming
    | @begun bal₀ hnew hb₀ _ hphase =>
        rw [hbal', hb] at hb₀
        obtain rfl := Option.some.inj hb₀
        constructor
        · rw [hcount, hnone hnew]
          intro p hp
          simp [hnew] at hp
        · rw [hphase, hcookie', rewrite_of_cookie hsticky hmany hne]
          exact Nat.zero_le r

/-- Sticky sessions stick: a client that comes back with the cookie it held after an answer of
the pool, while the backend that answered stays up, goes to a backend of that cookie, and its
request does not move the pool's round robin. -/
theorem session_sticks {t : System} {labels : List Label} {bal bal' : Balancer} {job k : Nat}
    {p₀ p : Pick} (hrun : run (step sum256) s labels = some t) (hended : p₀.phase = .ended k)
    (hb : s.balancers[p₀.bal]? = some bal) (hsticky : bal.sticky = true)
    (htarget : bal.targets[k]? = some target) (hid : target.id ≠ "")
    (hup : RunMeets (step sum256) (fun u _ => u.health.up target.key = true) s labels)
    (hnew : s.picks.length ≤ job) (hp : t.picks[job]? = some p) (hbal : p.bal = p₀.bal)
    (hcookie : p.cookieVal = bal.jar p₀) (hb' : t.balancers[p.bal]? = some bal') :
    bal'.drawn.count job = bal.drawn.count job ∧
      ((∃ i, p.phase = .cookie i) ∨ ∃ k' target', (p.phase = .chosen k' ∨ p.phase = .ended k') ∧
        bal'.targets[k']? = some target' ∧ target'.id = target.id) := by
  rw [Balancer.jar_eq hsticky hended htarget hid] at hcookie
  simp only [Balancer.sticky, Bool.and_eq_true, decide_eq_true_eq] at hsticky
  have hstart : Homes p₀.bal job k (bal.drawn.count job) target.id bal.targets s := by
    refine ⟨bal, hb, rfl, hsticky.1, fun _ => rfl, ?_⟩
    intro q hq
    exact absurd (List.getElem?_eq_some_iff.mp hq).1 (by omega)
  have hend : Homes p₀.bal job k (bal.drawn.count job) target.id bal.targets t :=
    hup.invariant (fun u label next hhomes hu hstep =>
      hhomes.next hsticky.2 htarget rfl hid hu hstep) hstart hrun
  obtain ⟨bal₁, hb₁, htargets, -, -, hsome⟩ := hend.pool
  rw [hbal, hb₁] at hb'
  obtain rfl := Option.some.inj hb'
  obtain ⟨hturns, hhoming⟩ := hsome p hp hbal hcookie
  refine ⟨hturns, ?_⟩
  rw [← htargets] at hhoming
  cases hphase : p.phase with
  | cookie i => exact Or.inl ⟨i, rfl⟩
  | drawing =>
      rw [hphase] at hhoming
      exact hhoming.elim
  | scanning start i =>
      rw [hphase] at hhoming
      exact hhoming.elim
  | chosen k' =>
      rw [hphase] at hhoming
      obtain ⟨target', htarget', hsame⟩ := hhoming
      exact Or.inr ⟨k', target', Or.inl rfl, htarget', hsame⟩
  | ended k' =>
      rw [hphase] at hhoming
      obtain ⟨target', htarget', hsame⟩ := hhoming
      exact Or.inr ⟨k', target', Or.inr rfl, htarget', hsame⟩

theorem session_sticks_lan :
    ∃ s t bal', run (step fromEnd) init [.place true lanPool, .request 0 "", .pick 0, .pick 0,
        .reach 0 none] = some s ∧
      run (step fromEnd) s [.request 0 "30383a322e30", .pick 1, .pick 1] = some t ∧
      t.balancers[0]? = some bal' ∧ bal'.drawn.count 1 = 0 ∧
      ((∃ i, Phase.chosen 1 = .cookie i) ∨ ∃ k' target',
        (Phase.chosen 1 = .chosen k' ∨ Phase.chosen 1 = .ended k') ∧
        bal'.targets[k']? = some target' ∧ target'.id = "30383a322e30") := by
  have hstart : (run (step fromEnd) init [.place true lanPool, .request 0 "", .pick 0, .pick 0,
      .reach 0 none]).map (fun s => (s.balancers, s.picks)) =
      some ([{ newBalancer fromEnd true lanPool with next := 1, drawn := [0] }],
        [⟨0, "", .ended 1⟩]) := by
    decide +kernel
  obtain ⟨s, hs, hview⟩ := Option.map_eq_some_iff.mp hstart
  obtain ⟨hbal, hpicks⟩ := Prod.mk.inj hview
  have hstay : (run (step fromEnd) init [.place true lanPool, .request 0 "", .pick 0, .pick 0,
      .reach 0 none]).all (fun s => decide (RunMeets (step fromEnd)
        (fun u _ => u.health.up "http://10.0.0.2:80" = true) s
        [.request 0 "30383a322e30", .pick 1, .pick 1])) = true := by
    decide +kernel
  rw [hs, Option.all_some, decide_eq_true_eq] at hstay
  have hend : ((run (step fromEnd) init [.place true lanPool, .request 0 "", .pick 0, .pick 0,
      .reach 0 none]).bind fun s => run (step fromEnd) s
        [.request 0 "30383a322e30", .pick 1, .pick 1]).map (fun t => (t.balancers, t.picks)) =
      some ([{ newBalancer fromEnd true lanPool with next := 1, drawn := [0] }],
        [⟨0, "", .ended 1⟩, ⟨0, "30383a322e30", .chosen 1⟩]) := by
    decide +kernel
  rw [hs, Option.bind_some] at hend
  obtain ⟨t, ht, hview'⟩ := Option.map_eq_some_iff.mp hend
  obtain ⟨hbal', hpicks'⟩ := Prod.mk.inj hview'
  have htarget : (newBalancer fromEnd true lanPool).targets[1]? =
      some ⟨"http://10.0.0.2:80", "http://10.0.0.2:80", "30383a322e30", 0⟩ := by
    decide +kernel
  have hb : s.balancers[0]? =
      some { newBalancer fromEnd true lanPool with next := 1, drawn := [0] } := by
    rw [hbal]
    rfl
  have hb' : t.balancers[0]? =
      some { newBalancer fromEnd true lanPool with next := 1, drawn := [0] } := by
    rw [hbal']
    rfl
  have hended : (⟨0, "", .ended 1⟩ : Pick).phase = .ended 1 := rfl
  have hp : t.picks[1]? = some ⟨0, "30383a322e30", .chosen 1⟩ := by
    rw [hpicks']
    rfl
  refine ⟨s, t, _, hs, ht, hb', ?_⟩
  exact session_sticks ht hended hb (by decide) htarget (by decide) hstay (by simp [hpicks]) hp rfl
    (by decide +kernel) hb'

end Quicgate.Backends
