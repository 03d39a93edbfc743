import Mathlib.Algebra.BigOperators.Group.List.Lemmas
import Quicgate.WgOwnership

/-!
# What peers have open

The connections that the endpoint holds for its peers: forwarded flows
(`admitFlow`, `forwardTCP`, `admitUDP`, `endFlow` in `internal/wg/forward.go`),
dials through a site (`DialContext`) and accepted connections (`Accept` in
`internal/wg/manager.go`).  Each is a party that goes from one lock to the next;
whatever the environment answers in between, a record, a dial, an endpoint, is
part of the step's label.  The steps of any number of parties interleave with
`Apply`, `Close` and the expiry timer.

`Party.listed` is the party's membership in `m.flows[key]`: the entry of a set
under one key is kept at the entry.

* `Fit` is what holds of one party: an entry that is no longer listed is closed
  with everything attached to it.
* `revocation_complete` and `budgets_exact` are the results.
-/

namespace Quicgate.WgManager

open Quicgate.GoMaps Quicgate.Netip Quicgate.WgPolicy Quicgate.TransitionSystem

/-! ### Parties

A party is a forwarded flow, a dial through a site or an accepted connection, with the tracked
entry it registers.  `close`, `add` and `unlist` are the methods of the source on such an entry;
the swap of `closed` decides who removes it. -/

inductive Proto where
  | tcp
  | udp
deriving DecidableEq, Repr

def Proto.text : Proto → String
  | .tcp => "tcp"
  | .udp => "udp"

inductive Kind where
  | flow (proto : Proto) (src dst : AddrPort)
  | dial (site : Int)
  | accepted
deriving DecidableEq, Repr

/-- What a party does next. -/
inductive Pc where
  -- a forwarded flow
  | decide
  | recording
  | dropping
  | recheck
  | dialing
  | settling (dialled : Bool)
  | addOut
  | endpoint
  | addClient
  | relaying
  | ending -- `endFlow`: close what the flow has
  | finishing -- `endFlow`: unregister it
  -- a dial through a site
  | lookup
  | registering
  | connecting
  | abandoning -- `release` has swapped `closed`
  | converting
  -- a connection in its holder's hands
  | held
  | closing -- `release` has swapped `closed`
  | done
deriving DecidableEq, Repr

/-- A party with its tracked entry. `conns` are the connections that were attached to it,
each with whether it is closed. -/
structure Party where
  kind : Kind
  pc : Pc
  inst : Nat
  key : String
  publicKey : String -- of the site when a dial looked it up
  registered : Bool
  listed : Bool -- in m.flows[key]
  closed : Bool -- tracked.closed
  fcClosed : Bool -- flowConns.closed
  settled : Bool -- flowConns.settled
  conns : List Bool
deriving DecidableEq, Repr

namespace Party

def isFlow (p : Party) : Bool :=
  match p.kind with
  | .flow _ _ _ => true
  | _ => false

def start (kind : Kind) (pc : Pc) (inst : Nat) : Party :=
  ⟨kind, pc, inst, "", "", false, false, false, false, false, []⟩

def closeConns (p : Party) : Party := { p with conns := p.conns.map fun _ => true }

/-- `tracked.close`: a flow closes its `flowConns`; an attempt is cancelled, a connection
closed. -/
def close (p : Party) : Party := { p.closeConns with fcClosed := p.fcClosed || p.isFlow }

def remove (p : Party) : Party := { p.close with listed := false, closed := true }

/-- The swap of `closed` with the removal that follows when it was not set. -/
def unlist (p : Party) : Party := if p.closed then p else { p with closed := true, listed := false }

/-- `flowConns.add`: a closed flow closes what it is given. -/
def add (p : Party) (next : Pc) : Party :=
  if p.fcClosed then { p with conns := p.conns ++ [true], pc := .ending }
  else { p with conns := p.conns ++ [false], pc := next }

end Party

/-! ### The manager

`act` is the next step of a party: up to the next lock, or to the next answer of the environment.
`decideLocked` checks a new flow against the configuration and `roomLocked` against the bounds. -/

structure Manager where
  endpoint : Endpoint
  parties : List Party
  pending : GoMap String Nat

def maxFlowsPerPeer : Nat := 512
def maxFlowsTotal : Nat := 4096
def maxPendingPerPeer : Nat := 64

namespace Manager

def init : Manager := ⟨.init, [], ∅⟩

def flowsOf (m : Manager) (key : String) : Nat := m.parties.countP fun p => p.listed && p.key == key

def total (m : Manager) : Nat := m.parties.countP (·.listed)

def roomLocked (m : Manager) (key : String) : Bool :=
  m.flowsOf key < maxFlowsPerPeer && m.total < maxFlowsTotal

def pendingOf (m : Manager) (key : String) : Nat := (m.pending.lookup key).getD 0

/-- `m.inst == in`. -/
def runs (m : Manager) (inst : Nat) : Bool := m.endpoint.inst.any fun i => i.id == inst

/-- The peer of a new flow, or why it is refused. -/
def decideLocked (m : Manager) (inst : Nat) (proto : Proto) (src dst : AddrPort) (now : Int) :
    Except String ManagedPeer :=
  if !m.runs inst then .error "the endpoint was reset"
  else match m.endpoint.peerByAddr src.addr now with
    | none => .error "no active device has this address"
    | some p =>
        if p.site || p.routes.isEmpty then .error "this peer has no LAN access"
        else
          let verdict := WgPolicy.decide m.endpoint.cfg p.routes proto.text dst
          if !verdict.1 then .error verdict.2
          else if !m.roomLocked p.key then .error "too many open flows"
          else if maxPendingPerPeer ≤ m.pendingOf p.key then
            .error "too many flows being opened at once"
          else .ok p

/-- The site of a dial is the one it looked up, in the same instance. -/
def current (m : Manager) (p : Party) : Bool :=
  m.runs p.inst && (m.endpoint.peers.lookup p.key).any fun cur => cur.publicKey == p.publicKey

end Manager

/-- What a step does to `m.pending` of the party's peer. -/
inductive Tally where
  | keep
  | reserve
  | settle
deriving DecidableEq, Repr

def Tally.on (tally : Tally) (key : String) (pending : GoMap String Nat) : GoMap String Nat :=
  let n := (pending.lookup key).getD 0
  match tally with
  | .keep => pending
  | .reserve => pending.insert key (n + 1)
  | .settle => if n ≤ 1 then pending.erase key else pending.insert key (n - 1)

def Party.settle (p : Party) : Party × Tally :=
  if p.settled then (p, .keep) else ({ p with settled := true }, .settle)

def Party.dropReservation (p : Party) : Party × Tally :=
  let settled := p.unlist.settle
  ({ settled.1.close with pc := .done }, settled.2)

/-- A step that does not touch `m.pending`. -/
def Party.go (p : Party) : Option (Party × Tally) := some (p, .keep)

/-- The next step of a forwarded flow. `ok` is the environment's answer: the record was
written, the dial or the endpoint succeeded. -/
def Manager.actFlow (m : Manager) (p : Party) (proto : Proto) (src dst : AddrPort) (ok : Bool)
    (now : Int) : Option (Party × Tally) :=
  match p.pc with
  | .decide =>
      match m.decideLocked p.inst proto src dst now with
      | .error _ => { p with pc := .done }.go
      | .ok peer => some ({ p with
          pc := .recording, key := peer.key, registered := true, listed := true }, .reserve)
  | .recording => { p with pc := if ok then .recheck else .dropping }.go
  | .dropping => some p.dropReservation
  | .recheck =>
      if p.closed || !m.runs p.inst then some p.dropReservation
      else { p with pc := if proto = Proto.udp then .endpoint else .dialing }.go
  | .dialing => { p with pc := .settling ok }.go
  | .settling dialled =>
      some ({ p.settle.1 with pc := if dialled then .addOut else .ending }, p.settle.2)
  | .addOut => (p.add (if proto = .udp then .relaying else .endpoint)).go
  | .endpoint => { p with pc := if ok then .addClient else .ending }.go
  | .addClient => (p.add (if proto = .udp then .dialing else .relaying)).go
  | .relaying => { p.closeConns with pc := .ending }.go
  | .ending => { p.close with pc := .finishing }.go
  | .finishing => some ({ p.unlist.settle.1 with pc := .done }, p.unlist.settle.2)
  | _ => none

/-- The next step of a connection in its holder's hands: it is closed. -/
def Party.actHeld (p : Party) : Option (Party × Tally) :=
  match p.pc with
  | .held =>
      if p.closed then { p.closeConns with pc := .done }.go
      else { p with closed := true, pc := .closing }.go
  | .closing => { p.closeConns with listed := false, pc := .done }.go
  | _ => none

def Manager.actDial (m : Manager) (p : Party) (site : Int) (ok : Bool) : Option (Party × Tally) :=
  match p.pc with
  | .lookup =>
      match m.endpoint.inst, m.endpoint.peers.lookup (siteKey site) with
      | some inst, some cur => { p with
          pc := .registering, inst := inst.id, key := siteKey site, publicKey := cur.publicKey }.go
      | _, _ => { p with pc := .done }.go
  | .registering =>
      if m.current p && m.roomLocked p.key then
        { p with pc := .connecting, registered := true, listed := true }.go
      else { p with pc := .done }.go
  | .connecting =>
      if ok then { p with pc := .converting }.go
      else if p.closed then { p with pc := .done }.go
      else { p with closed := true, pc := .abandoning }.go
  | .abandoning => { p with listed := false, pc := .done }.go
  | .converting =>
      if p.closed || !m.current p then
        { p.unlist with conns := p.conns ++ [true], pc := .done }.go
      else { p with conns := p.conns ++ [false], pc := .held }.go
  | _ => p.actHeld

def Manager.act (m : Manager) (p : Party) (ok : Bool) (now : Int) : Option (Party × Tally) :=
  match p.kind with
  | .flow proto src dst => m.actFlow p proto src dst ok now
  | .dial site => m.actDial p site ok
  | .accepted => p.actHeld

/-! ### Closing

What `Apply`, `Close` and the expiry timer close: the entries of one peer, of all of them, or the
flows that the configuration no longer allows. -/

namespace Manager

def closePeerLocked (m : Manager) (key : String) : Manager :=
  { m with parties := m.parties.map fun p => if p.listed && p.key == key then p.remove else p }

def stillAllowed (m : Manager) (p : Party) (now : Int) : Bool :=
  match p.kind with
  | .flow proto _ dst => (m.endpoint.peers.lookup p.key).any fun peer =>
      peer.active now && (WgPolicy.decide m.endpoint.cfg peer.routes proto.text dst).1
  | _ => true

def reviewFlowsLocked (m : Manager) (now : Int) : Manager :=
  { m with parties := m.parties.map fun p =>
      if p.listed && !m.stillAllowed p now then p.remove else p }

def flowKeys (m : Manager) : List String := (m.parties.filter (·.listed)).map Party.key

def closing (now : Int) (m : Manager) : Closing → Manager
  | .peer key => m.closePeerLocked key
  | .all => m.flowKeys.foldl closePeerLocked m
  | .review => m.reviewFlowsLocked now

end Manager

/-! ### Runs -/

inductive Label where
  | forward (proto : Proto) (src dst : AddrPort) -- the running instance has a new flow
  | dial (site : Int)
  | accept (src : Addr) (now : Int)
  | act (i : Nat) (ok : Bool) (now : Int)
  | apply (cfg : Config) (ans : Answers)
  | close
  | expire (now : Int)

def Manager.closings (m : Manager) : Label → List Closing
  | .apply cfg ans => (m.endpoint.apply cfg ans).closed
  | .close => [.all]
  | .expire now => m.endpoint.expired now
  | _ => []

def Manager.step (m : Manager) : Label → Option Manager
  | .forward proto src dst => m.endpoint.inst.map fun inst =>
      { m with parties := m.parties ++ [.start (.flow proto src dst) .decide inst.id] }
  | .dial site => some { m with parties := m.parties ++ [.start (.dial site) .lookup 0] }
  | .accept src now =>
      match m.endpoint.peerByAddr src now with
      | none => some m
      | some peer =>
          if m.roomLocked peer.key then
            some { m with parties := m.parties ++ [{ Party.start .accepted .held 0 with
              key := peer.key, registered := true, listed := true, conns := [false] }] }
          else some m
  | .act i ok now => m.parties[i]?.bind fun p => (m.act p ok now).map fun after => { m with
      parties := m.parties.set i after.1
      pending := after.2.on after.1.key m.pending }
  | .apply cfg ans => some ((m.closings (.apply cfg ans)).foldl (Manager.closing ans.now)
      { m with endpoint := (m.endpoint.apply cfg ans).endpoint })
  | .close => some ((m.closings .close).foldl (Manager.closing 0)
      { m with endpoint := m.endpoint.stopLocked })
  | .expire now => some ((m.closings (.expire now)).foldl (Manager.closing now) m)

/-! ### One party

`At` has one case for each place where a party can stand between two locks; every step takes a
party from one case to another (`Fit.act`). -/

/-- What holds of a party whenever the locks are free, wherever it is. -/
structure Sound (p : Party) : Prop where
  /-- Before the registration there is nothing. -/
  fresh : p.registered = false →
    p.listed = false ∧ p.closed = false ∧ p.fcClosed = false ∧ p.conns = [] ∧ p.settled = false
  /-- An entry that is not listed any more is closed with all it has. -/
  dead : p.registered = true → p.listed = false →
    p.closed = true ∧ (∀ c ∈ p.conns, c = true) ∧ (p.isFlow = true → p.fcClosed = true)
  conns : p.isFlow = true → p.fcClosed = true → ∀ c ∈ p.conns, c = true

def Live (p : Party) : Prop := p.listed = true → p.closed = false

/-- A registered entry that is open as long as it is listed. -/
def Open (p : Party) : Prop := p.registered = true ∧ Live p

/-- What holds of a party by what it does next. An entry that is closed is listed only
between the two halves of `release`. -/
def At (p : Party) : Prop :=
  match p.pc with
  | .decide | .lookup | .registering => p.registered = false
  | .connecting | .converting => p.conns = [] ∧ Open p
  | .abandoning => p.conns = [] ∧ p.registered = true ∧ p.closed = true
  | .closing => p.registered = true ∧ p.closed = true
  | .finishing => p.fcClosed = true ∧ Open p
  | .done => Live p ∧ (p.isFlow = true → p.registered = true → p.settled = true)
  | _ => Open p

structure Fit (p : Party) : Prop where
  sound : Sound p
  place : At p

section Ops

variable {p : Party}

theorem Sound.registered (h : Sound p) (hlisted : p.listed = true) : p.registered = true := by
  by_contra hreg
  simp [(h.fresh (by simpa using hreg)).1] at hlisted

theorem Sound.goto (h : Sound p) (pc : Pc) : Sound { p with pc := pc } :=
  ⟨h.fresh, h.dead, h.conns⟩

/-- An entry that is registered now is open. -/
theorem Sound.enlist (h : Sound p) (hreg : p.registered = false) (key : String) (pc : Pc) :
    Sound { p with pc := pc, key := key, registered := true, listed := true } where
  fresh h := by simp at h
  dead _ h := by simp at h
  conns _ hfc := by simp [(h.fresh hreg).2.2.1] at hfc

theorem mem_closeConns {c : Bool} (h : c ∈ p.closeConns.conns) : c = true := by
  obtain ⟨_, _, rfl⟩ := List.mem_map.mp h
  rfl

theorem Sound.closeConns (h : Sound p) : Sound p.closeConns where
  fresh hreg := by
    obtain ⟨hlisted, hclosed, hfc, hconns, hsettled⟩ := h.fresh hreg
    exact ⟨hlisted, hclosed, hfc, by simp [Party.closeConns, hconns], hsettled⟩
  dead hreg hlisted := by
    obtain ⟨hclosed, _, hfc⟩ := h.dead hreg hlisted
    exact ⟨hclosed, fun c hc => mem_closeConns hc, hfc⟩
  conns _ _ c hc := mem_closeConns hc

theorem Sound.close (h : Sound p) (hreg : p.registered = true) : Sound p.close where
  fresh hreg' := by simp [Party.close, Party.closeConns, hreg] at hreg'
  dead _ hlisted := by
    obtain ⟨hclosed, _, hfc⟩ := h.dead hreg hlisted
    refine ⟨hclosed, fun c hc => mem_closeConns hc, fun hflow => ?_⟩
    simp [Party.close, hfc hflow]
  conns _ _ c hc := mem_closeConns hc

theorem fcClosed_close (hflow : p.isFlow = true) : p.close.fcClosed = true := by
  simp [Party.close, hflow]

theorem Sound.remove (h : Sound p) (hlisted : p.listed = true) : Sound p.remove where
  fresh hreg := by
    have hreg' : p.registered = false := hreg
    simp [(h.fresh hreg').1] at hlisted
  dead _ _ := ⟨rfl, fun c hc => mem_closeConns hc, fun hflow => fcClosed_close hflow⟩
  conns _ _ c hc := mem_closeConns hc

/-- A removed entry is closed, so that nothing its party relies on is lost. -/
theorem At.remove (h : At p) (hs : Sound p) (hlisted : p.listed = true) : At p.remove := by
  have hreg := hs.registered hlisted
  have hlive : Live p.remove := fun h => by simp [Party.remove] at h
  cases hpc : p.pc <;>
    simp_all [At, Open, Party.remove, Party.close, Party.closeConns, Party.isFlow]

theorem Fit.remove (h : Fit p) (hlisted : p.listed = true) : Fit p.remove :=
  ⟨h.sound.remove hlisted, h.place.remove h.sound hlisted⟩

theorem Sound.of_dead (hreg : p.registered = true)
    (hclosed : p.closed = true) (hconns : ∀ c ∈ p.conns, c = true)
    (hfc : p.isFlow = true → p.fcClosed = true) : Sound p where
  fresh h := by simp [hreg] at h
  dead _ _ := ⟨hclosed, hconns, hfc⟩
  conns _ _ := hconns

theorem Sound.add (h : Sound p) (hreg : p.registered = true) (hflow : p.isFlow = true) (next : Pc) :
    Sound (p.add next) := by
  unfold Party.add
  split
  · rename_i hfc
    have hall : ∀ c ∈ p.conns ++ [true], c = true := by
      simpa [List.forall_mem_append] using h.conns hflow hfc
    refine ⟨fun hreg' => ?_, fun hr hl => ⟨(h.dead hr hl).1, hall, fun _ => hfc⟩, fun _ _ => hall⟩
    simp [hreg] at hreg'
  · rename_i hfc
    refine ⟨fun hreg' => ?_, fun hr hl => ?_, fun _ hfc' => absurd hfc' hfc⟩
    · simp [hreg] at hreg'
    · exact absurd ((h.dead hr hl).2.2 hflow) hfc

theorem unlist_dead (hlive : Live p) : p.unlist.listed = false ∧ p.unlist.closed = true := by
  unfold Party.unlist
  split
  · rename_i hclosed
    refine ⟨?_, hclosed⟩
    by_contra hlisted
    simp [hlive (by simpa using hlisted)] at hclosed
  · exact ⟨rfl, rfl⟩

/-- What the swap leaves as it is. -/
theorem unlist_same (p : Party) : p.unlist.kind = p.kind ∧ p.unlist.key = p.key ∧
    p.unlist.registered = p.registered ∧ p.unlist.fcClosed = p.fcClosed ∧
    p.unlist.settled = p.settled ∧ p.unlist.conns = p.conns := by
  unfold Party.unlist
  split <;> simp

theorem settle_same (p : Party) : p.settle.1 = { p with settled := true } := by
  unfold Party.settle
  split
  · rename_i h
    cases p
    simp_all
  · rfl

theorem not_isFlow_of_kind {q : Party} (hflow : p.isFlow = false) (hkind : q.kind = p.kind) :
    ¬ q.isFlow = true := by
  simp only [Party.isFlow, hkind] at hflow ⊢
  simp [hflow]

theorem Fit.dropReservation (h : Open p) : Fit p.dropReservation.1 := by
  obtain ⟨hreg, hlive⟩ := h
  obtain ⟨hlisted, hclosed⟩ := unlist_dead hlive
  obtain ⟨hkind, _, hreg', _⟩ := unlist_same p
  simp only [Party.dropReservation, settle_same]
  refine ⟨Sound.of_dead ?_ ?_ ?_ ?_, ?_, ?_⟩
  · exact hreg'.trans hreg
  · exact hclosed
  · exact fun c hc => mem_closeConns hc
  · exact fun h => fcClosed_close h
  · exact fun h => by simp [Party.close, Party.closeConns, hlisted] at h
  · exact fun _ _ => rfl

end Ops

section Act

variable {m : Manager} {p p' : Party} {ok : Bool} {now : Int} {tally : Tally}

/-! ### Every step of a party

The cases are the places of the three kinds of parties, in the order in which they are passed. -/

theorem Fit.actFlow {proto : Proto} {src dst : AddrPort} (h : Fit p) (hflow : p.isFlow = true)
    (hact : m.actFlow p proto src dst ok now = some (p', tally)) : Fit p' := by
  obtain ⟨hs, hplace⟩ := h
  unfold Manager.actFlow at hact
  split at hact <;> rename_i hpc <;> simp only [At, hpc] at hplace
  · -- decide
    split at hact <;> obtain ⟨rfl, rfl⟩ := Prod.mk.inj (Option.some.inj hact)
    · exact ⟨hs.goto _, fun h => by simp [(hs.fresh hplace).1] at h,
        fun _ h => by simp [hplace] at h⟩
    · exact ⟨hs.enlist hplace _ _, rfl, fun _ => (hs.fresh hplace).2.1⟩
  · -- recording
    obtain ⟨rfl, rfl⟩ := Prod.mk.inj (Option.some.inj hact)
    cases ok <;> exact ⟨hs.goto _, hplace⟩
  · -- dropping
    obtain rfl : p.dropReservation.1 = p' := congrArg Prod.fst (Option.some.inj hact)
    exact Fit.dropReservation hplace
  · -- recheck
    split at hact
    · obtain rfl : p.dropReservation.1 = p' := congrArg Prod.fst (Option.some.inj hact)
      exact Fit.dropReservation hplace
    · obtain ⟨rfl, rfl⟩ := Prod.mk.inj (Option.some.inj hact)
      cases proto <;> exact ⟨hs.goto _, hplace⟩
  · -- dialing
    obtain ⟨rfl, rfl⟩ := Prod.mk.inj (Option.some.inj hact)
    exact ⟨hs.goto _, hplace⟩
  · -- settling
    rename_i dialled
    obtain ⟨rfl, rfl⟩ := Prod.mk.inj (Option.some.inj hact)
    rw [settle_same]
    have hsettled : Sound { p with settled := true } :=
      ⟨fun h => by simp [hplace.1] at h, hs.dead, hs.conns⟩
    cases dialled <;> exact ⟨hsettled.goto _, hplace⟩
  · -- addOut
    obtain ⟨rfl, rfl⟩ := Prod.mk.inj (Option.some.inj hact)
    refine ⟨hs.add hplace.1 hflow _, ?_⟩
    unfold Party.add
    split <;> cases proto <;> exact hplace
  · -- endpoint
    obtain ⟨rfl, rfl⟩ := Prod.mk.inj (Option.some.inj hact)
    cases ok <;> exact ⟨hs.goto _, hplace⟩
  · -- addClient
    obtain ⟨rfl, rfl⟩ := Prod.mk.inj (Option.some.inj hact)
    refine ⟨hs.add hplace.1 hflow _, ?_⟩
    unfold Party.add
    split <;> cases proto <;> exact hplace
  · -- relaying
    obtain ⟨rfl, rfl⟩ := Prod.mk.inj (Option.some.inj hact)
    exact ⟨hs.closeConns.goto _, hplace⟩
  · -- ending
    obtain ⟨rfl, rfl⟩ := Prod.mk.inj (Option.some.inj hact)
    exact ⟨(hs.close hplace.1).goto _, fcClosed_close hflow, hplace⟩
  · -- finishing
    obtain ⟨rfl, rfl⟩ := Prod.mk.inj (Option.some.inj hact)
    obtain ⟨hfc, hreg, hlive⟩ := hplace
    obtain ⟨hlisted, hclosed⟩ := unlist_dead hlive
    obtain ⟨_, _, hreg', hfc', _, hconns'⟩ := unlist_same p
    rw [settle_same]
    refine ⟨Sound.of_dead (hreg'.trans hreg) hclosed ?_ fun _ => hfc'.trans hfc,
      fun h => by simp [hlisted] at h, fun _ _ => rfl⟩
    exact fun c hc => hs.conns hflow hfc c (hconns' ▸ hc)
  · cases hact

theorem Fit.actHeld (h : Fit p) (hflow : p.isFlow = false) (hact : p.actHeld = some (p', tally)) :
    Fit p' := by
  obtain ⟨hs, hplace⟩ := h
  unfold Party.actHeld at hact
  split at hact <;> rename_i hpc <;> simp only [At, hpc] at hplace
  · -- held
    split at hact <;> obtain ⟨rfl, rfl⟩ := Prod.mk.inj (Option.some.inj hact)
    · exact ⟨hs.closeConns.goto _, hplace.2, fun h => absurd h (not_isFlow_of_kind hflow rfl)⟩
    · rename_i hclosed
      refine ⟨⟨fun h => ?_, fun hr hl => absurd (hs.dead hr hl).1 hclosed, hs.conns⟩,
        hplace.1, rfl⟩
      simp [hplace.1] at h
  · -- closing
    obtain ⟨rfl, rfl⟩ := Prod.mk.inj (Option.some.inj hact)
    exact ⟨Sound.of_dead hplace.1 hplace.2 (fun c hc => mem_closeConns hc)
      fun h => absurd h (not_isFlow_of_kind hflow rfl), fun h => by simp at h,
      fun h => absurd h (not_isFlow_of_kind hflow rfl)⟩
  · cases hact

theorem Fit.actDial {site : Int} (h : Fit p) (hflow : p.isFlow = false)
    (hact : m.actDial p site ok = some (p', tally)) : Fit p' := by
  have hfit := h
  obtain ⟨hs, hplace⟩ := h
  unfold Manager.actDial at hact
  split at hact <;> rename_i hpc <;> try simp only [At, hpc] at hplace
  · -- lookup
    split at hact <;> obtain ⟨rfl, rfl⟩ := Prod.mk.inj (Option.some.inj hact)
    · exact ⟨⟨hs.fresh, hs.dead, hs.conns⟩, hplace⟩
    · exact ⟨hs.goto _, fun h => by simp [(hs.fresh hplace).1] at h,
        fun h => absurd h (not_isFlow_of_kind hflow rfl)⟩
  · -- registering
    split at hact <;> obtain ⟨rfl, rfl⟩ := Prod.mk.inj (Option.some.inj hact)
    · exact ⟨hs.enlist hplace _ _, (hs.fresh hplace).2.2.2.1, rfl, fun _ => (hs.fresh hplace).2.1⟩
    · exact ⟨hs.goto _, fun h => by simp [(hs.fresh hplace).1] at h,
        fun h => absurd h (not_isFlow_of_kind hflow rfl)⟩
  · -- connecting
    obtain ⟨hconns, hreg, hlive⟩ := hplace
    split at hact
    · obtain ⟨rfl, rfl⟩ := Prod.mk.inj (Option.some.inj hact)
      exact ⟨hs.goto _, hconns, hreg, hlive⟩
    · split at hact <;> obtain ⟨rfl, rfl⟩ := Prod.mk.inj (Option.some.inj hact)
      · exact ⟨hs.goto _, hlive, fun h => absurd h (not_isFlow_of_kind hflow rfl)⟩
      · rename_i hclosed
        refine ⟨⟨fun h => ?_, fun hr hl => absurd (hs.dead hr hl).1 hclosed, hs.conns⟩,
          hconns, hreg, rfl⟩
        simp [hreg] at h
  · -- abandoning
    obtain ⟨rfl, rfl⟩ := Prod.mk.inj (Option.some.inj hact)
    obtain ⟨hconns, hreg, hclosed⟩ := hplace
    exact ⟨Sound.of_dead hreg hclosed (by simp [hconns]) fun h => absurd h
      (not_isFlow_of_kind hflow rfl),
      fun h => by simp at h, fun h => absurd h (not_isFlow_of_kind hflow rfl)⟩
  · -- converting
    obtain ⟨hconns, hreg, hlive⟩ := hplace
    split at hact <;> obtain ⟨rfl, rfl⟩ := Prod.mk.inj (Option.some.inj hact)
    · obtain ⟨hlisted, hclosed⟩ := unlist_dead hlive
      obtain ⟨hkind, _, hreg', _⟩ := unlist_same p
      exact ⟨Sound.of_dead (hreg'.trans hreg) hclosed (by simp [hconns])
        fun h => absurd h (not_isFlow_of_kind hflow hkind), fun h => by simp [hlisted] at h,
        fun h => absurd h (not_isFlow_of_kind hflow hkind)⟩
    · rename_i hcurrent
      simp only [Bool.or_eq_true, not_or] at hcurrent
      refine ⟨⟨fun h => ?_, fun hr hl => absurd (hs.dead hr hl).1 hcurrent.1,
        fun h => absurd h (not_isFlow_of_kind hflow rfl)⟩, hreg, hlive⟩
      simp [hreg] at h
  · exact hfit.actHeld hflow hact

/-- A party keeps what holds of it, whatever its next step does. -/
theorem Fit.act (h : Fit p) (hact : m.act p ok now = some (p', tally)) : Fit p' := by
  unfold Manager.act at hact
  split at hact <;> rename_i hkind
  · exact h.actFlow (by simp [Party.isFlow, hkind]) hact
  · exact h.actDial (by simp [Party.isFlow, hkind]) hact
  · exact h.actHeld (by simp [Party.isFlow, hkind]) hact

end Act

/-! ### Counting

`pending` counts the forwarded flows of a peer that were reserved and have not settled.  A step of
a party changes the count and the party's own part in it together (`Counts`). -/

/-- The party is a flow of the peer that was reserved and has not settled. -/
def Party.opening (p : Party) (key : String) : Bool :=
  p.isFlow && p.registered && !p.settled && p.key == key

def Manager.opening (m : Manager) (key : String) : Nat := m.parties.countP (·.opening key)

/-- What a step of a party does to the counts. -/
def Counts (m : Manager) (p p' : Party) : Tally → Prop
  | .keep => ∀ k, p'.opening k = p.opening k
  | .reserve => (∀ k, p.opening k = false) ∧ (∀ k, p'.opening k = (p'.key == k)) ∧
      m.pendingOf p'.key < maxPendingPerPeer
  | .settle => (∀ k, p.opening k = (p'.key == k)) ∧ ∀ k, p'.opening k = false

/-- An entry is listed once, where there is room, and stays registered. -/
structure Lists (m : Manager) (p p' : Party) : Prop where
  listed : p'.listed = true →
    (p.listed = true ∧ p'.key = p.key) ∨ (p.registered = false ∧ m.roomLocked p'.key = true)
  registered : p.registered = true → p'.registered = true

section Counting

variable {m : Manager} {p p' : Party} {ok : Bool} {now : Int} {tally : Tally}

theorem counts_settle {q : Party} (hflow : q.isFlow = true) (hreg : q.registered = true) :
    Counts m q q.settle.1 q.settle.2 := by
  unfold Party.settle
  split
  · exact fun _ => rfl
  · rename_i hsettled
    refine ⟨fun k => ?_, fun k => ?_⟩
    · simp [Party.opening, hflow, hreg, hsettled]
    · simp [Party.opening]

theorem Counts.congr {q q' : Party} (h : Counts m p p' tally) (hp : ∀ k, q.opening k = p.opening k)
    (hp' : ∀ k, q'.opening k = p'.opening k) (hkey : q'.key = p'.key) : Counts m q q' tally := by
  cases tally <;> simp_all [Counts]

theorem opening_unlist (p : Party) (k : String) : p.unlist.opening k = p.opening k := by
  obtain ⟨hkind, hkey, hreg, _, hsettled, _⟩ := unlist_same p
  simp [Party.opening, Party.isFlow, hkind, hkey, hreg, hsettled]

theorem decideLocked_eq_ok {inst : Nat} {proto : Proto} {src dst : AddrPort} {peer : ManagedPeer}
    (h : m.decideLocked inst proto src dst now = .ok peer) :
    m.roomLocked peer.key = true ∧ m.pendingOf peer.key < maxPendingPerPeer := by
  unfold Manager.decideLocked at h
  split at h
  · cases h
  split at h
  · cases h
  split at h
  · cases h
  dsimp only at h
  split at h
  · cases h
  split at h
  · cases h
  split at h
  · cases h
  · rename_i hroom hpending
    obtain rfl := Except.ok.inj h
    exact ⟨by simpa using hroom, by omega⟩

/-- The step leaves registration, settlement and list alone. -/
theorem counts_same {q : Party} (hopening : ∀ k, q.opening k = p.opening k)
    (hlisted : q.listed = p.listed) (hkey : q.key = p.key) (hreg : q.registered = p.registered) :
    Counts m p q .keep ∧ Lists m p q :=
  ⟨hopening, fun h => Or.inl ⟨hlisted ▸ h, hkey⟩, fun h => hreg.trans h⟩

/-! ### Counts, step by step

A step of a flow settles it, drops its reservation, or leaves the counts alone; parties of the
other kinds never count. -/

theorem counts_dropReservation (hflow : p.isFlow = true) (h : Open p) :
    Counts m p p.dropReservation.1 p.dropReservation.2 ∧ Lists m p p.dropReservation.1 := by
  obtain ⟨hreg, hlive⟩ := h
  obtain ⟨hkind, _, hreg', _⟩ := unlist_same p
  have hcounts : Counts m p.unlist p.unlist.settle.1 p.unlist.settle.2 :=
    counts_settle (by simpa [Party.isFlow, hkind] using hflow) (hreg'.trans hreg)
  refine ⟨hcounts.congr (fun k => (opening_unlist p k).symm) (fun _ => rfl) rfl,
    fun h => ?_, fun _ => ?_⟩
  · simp [Party.dropReservation, settle_same, Party.close, Party.closeConns,
      (unlist_dead hlive).1] at h
  · simp [Party.dropReservation, settle_same, Party.close, Party.closeConns, hreg', hreg]

theorem actFlow_counts {proto : Proto} {src dst : AddrPort} (h : Fit p) (hflow : p.isFlow = true)
    (hact : m.actFlow p proto src dst ok now = some (p', tally)) :
    Counts m p p' tally ∧ Lists m p p' := by
  obtain ⟨hs, hplace⟩ := h
  have hadd : ∀ next, Counts m p (p.add next) .keep ∧ Lists m p (p.add next) := by
    intro next
    unfold Party.add
    split <;> exact counts_same (fun _ => rfl) rfl rfl rfl
  unfold Manager.actFlow at hact
  split at hact <;> rename_i hpc <;> simp only [At, hpc] at hplace
  · -- decide
    split at hact
    · obtain ⟨rfl, rfl⟩ := Prod.mk.inj (Option.some.inj hact)
      exact counts_same (fun _ => rfl) rfl rfl rfl
    · rename_i peer hdecide
      obtain ⟨rfl, rfl⟩ := Prod.mk.inj (Option.some.inj hact)
      obtain ⟨hroom, hpending⟩ := decideLocked_eq_ok hdecide
      have hsettled := (hs.fresh hplace).2.2.2.2
      refine ⟨⟨fun k => by simp [Party.opening, hplace], fun k => ?_, hpending⟩,
        fun _ => Or.inr ⟨hplace, hroom⟩, fun _ => rfl⟩
      simp only [Party.opening, Party.isFlow] at hflow ⊢
      simp [hflow, hsettled]
  · -- recording
    obtain ⟨rfl, rfl⟩ := Prod.mk.inj (Option.some.inj hact)
    exact counts_same (fun _ => rfl) rfl rfl rfl
  · -- dropping
    obtain ⟨rfl, rfl⟩ := Prod.ext_iff.mp (Option.some.inj hact)
    exact counts_dropReservation hflow hplace
  · -- recheck
    split at hact
    · obtain ⟨rfl, rfl⟩ := Prod.ext_iff.mp (Option.some.inj hact)
      exact counts_dropReservation hflow hplace
    · obtain ⟨rfl, rfl⟩ := Prod.mk.inj (Option.some.inj hact)
      exact counts_same (fun _ => rfl) rfl rfl rfl
  · -- dialing
    obtain ⟨rfl, rfl⟩ := Prod.mk.inj (Option.some.inj hact)
    exact counts_same (fun _ => rfl) rfl rfl rfl
  · -- settling
    obtain ⟨rfl, rfl⟩ := Prod.mk.inj (Option.some.inj hact)
    refine ⟨(counts_settle hflow hplace.1).congr (fun _ => rfl) (fun _ => rfl) rfl, ?_⟩
    rw [settle_same]
    exact ⟨fun h => Or.inl ⟨h, rfl⟩, fun h => h⟩
  · -- addOut
    obtain ⟨rfl, rfl⟩ := Prod.mk.inj (Option.some.inj hact)
    exact hadd _
  · -- endpoint
    obtain ⟨rfl, rfl⟩ := Prod.mk.inj (Option.some.inj hact)
    exact counts_same (fun _ => rfl) rfl rfl rfl
  · -- addClient
    obtain ⟨rfl, rfl⟩ := Prod.mk.inj (Option.some.inj hact)
    exact hadd _
  · -- relaying
    obtain ⟨rfl, rfl⟩ := Prod.mk.inj (Option.some.inj hact)
    exact counts_same (fun _ => rfl) rfl rfl rfl
  · -- ending
    obtain ⟨rfl, rfl⟩ := Prod.mk.inj (Option.some.inj hact)
    exact counts_same (fun _ => rfl) rfl rfl rfl
  · -- finishing
    obtain ⟨rfl, rfl⟩ := Prod.mk.inj (Option.some.inj hact)
    obtain ⟨hfc, hreg, hlive⟩ := hplace
    obtain ⟨hkind, _, hreg', _⟩ := unlist_same p
    have hcounts : Counts m p.unlist p.unlist.settle.1 p.unlist.settle.2 :=
      counts_settle (by simpa [Party.isFlow, hkind] using hflow) (hreg'.trans hreg)
    refine ⟨hcounts.congr (fun k => (opening_unlist p k).symm) (fun _ => rfl) rfl,
      fun h => ?_, fun _ => ?_⟩
    · simp [settle_same, (unlist_dead hlive).1] at h
    · simp [settle_same, hreg', hreg]
  · cases hact

theorem opening_eq_false (hflow : p.isFlow = false) (k : String) : p.opening k = false := by
  simp [Party.opening, hflow]

/-- Only flows count as being opened. -/
theorem counts_other {q : Party} (hflow : p.isFlow = false) (hkind : q.kind = p.kind)
    (hreg : p.registered = true → q.registered = true)
    (hlists : q.listed = true → (p.listed = true ∧ q.key = p.key) ∨
      (p.registered = false ∧ m.roomLocked q.key = true)) : Counts m p q .keep ∧ Lists m p q := by
  refine ⟨fun k => ?_, hlists, hreg⟩
  rw [opening_eq_false hflow k,
    opening_eq_false (Bool.eq_false_iff.mpr (not_isFlow_of_kind hflow hkind)) k]

theorem actHeld_counts (hflow : p.isFlow = false) (hact : p.actHeld = some (p', tally)) :
    Counts m p p' tally ∧ Lists m p p' := by
  unfold Party.actHeld at hact
  split at hact
  · split at hact <;> obtain ⟨rfl, rfl⟩ := Prod.mk.inj (Option.some.inj hact)
    · exact counts_other hflow rfl (fun h => h) fun h => Or.inl ⟨h, rfl⟩
    · exact counts_other hflow rfl (fun h => h) fun h => Or.inl ⟨h, rfl⟩
  · obtain ⟨rfl, rfl⟩ := Prod.mk.inj (Option.some.inj hact)
    exact counts_other hflow rfl (fun h => h) fun h => by simp at h
  · cases hact

theorem actDial_counts {site : Int} (h : Fit p) (hflow : p.isFlow = false)
    (hact : m.actDial p site ok = some (p', tally)) : Counts m p p' tally ∧ Lists m p p' := by
  obtain ⟨hs, hplace⟩ := h
  unfold Manager.actDial at hact
  split at hact <;> rename_i hpc <;> try simp only [At, hpc] at hplace
  · -- lookup
    split at hact <;> obtain ⟨rfl, rfl⟩ := Prod.mk.inj (Option.some.inj hact)
    · exact counts_other hflow rfl (fun h => h) fun h => by simp [(hs.fresh hplace).1] at h
    · exact counts_other hflow rfl (fun h => h) fun h => Or.inl ⟨h, rfl⟩
  · -- registering
    split at hact <;> obtain ⟨rfl, rfl⟩ := Prod.mk.inj (Option.some.inj hact)
    · rename_i hroom
      exact counts_other hflow rfl (fun _ => rfl) fun _ =>
        Or.inr ⟨hplace, (Bool.and_eq_true_iff.mp hroom).2⟩
    · exact counts_other hflow rfl (fun h => h) fun h => Or.inl ⟨h, rfl⟩
  · -- connecting
    split at hact
    · obtain ⟨rfl, rfl⟩ := Prod.mk.inj (Option.some.inj hact)
      exact counts_other hflow rfl (fun h => h) fun h => Or.inl ⟨h, rfl⟩
    · split at hact <;> obtain ⟨rfl, rfl⟩ := Prod.mk.inj (Option.some.inj hact)
      · exact counts_other hflow rfl (fun h => h) fun h => Or.inl ⟨h, rfl⟩
      · exact counts_other hflow rfl (fun h => h) fun h => Or.inl ⟨h, rfl⟩
  · -- abandoning
    obtain ⟨rfl, rfl⟩ := Prod.mk.inj (Option.some.inj hact)
    exact counts_other hflow rfl (fun h => h) fun h => by simp at h
  · -- converting
    obtain ⟨_, _, hlive⟩ := hplace
    split at hact <;> obtain ⟨rfl, rfl⟩ := Prod.mk.inj (Option.some.inj hact)
    · exact counts_other hflow (unlist_same p).1 (fun h => (unlist_same p).2.2.1.trans h)
        fun h => by simp [(unlist_dead hlive).1] at h
    · exact counts_other hflow rfl (fun h => h) fun h => Or.inl ⟨h, rfl⟩
  · exact actHeld_counts hflow hact

theorem act_counts (h : Fit p) (hact : m.act p ok now = some (p', tally)) :
    Counts m p p' tally ∧ Lists m p p' := by
  unfold Manager.act at hact
  split at hact <;> rename_i hkind
  · exact actFlow_counts h (by simp [Party.isFlow, hkind]) hact
  · exact actDial_counts h (by simp [Party.isFlow, hkind]) hact
  · exact actHeld_counts (by simp [Party.isFlow, hkind]) hact

theorem countP_map_le {parties : List Party} {g : Party → Party} {f : Party → Bool}
    (h : ∀ p ∈ parties, f (g p) = true → f p = true) :
    (parties.map g).countP f ≤ parties.countP f := by
  rw [List.countP_map]
  exact List.countP_mono_left h

theorem roomLocked_iff {key : String} : m.roomLocked key = true ↔
    m.flowsOf key < maxFlowsPerPeer ∧ m.total < maxFlowsTotal := by
  simp [Manager.roomLocked]

theorem pendingOf_on (key k : String) (pending : GoMap String Nat) :
    ((tally.on key pending).lookup k).getD 0 =
      if k = key then
        match tally with
        | .keep => (pending.lookup k).getD 0
        | .reserve => (pending.lookup k).getD 0 + 1
        | .settle => (pending.lookup k).getD 0 - 1
      else (pending.lookup k).getD 0 := by
  cases tally with
  | keep => simp [Tally.on]
  | reserve =>
      by_cases hk : k = key
      · subst hk
        simp [Tally.on]
      · simp [Tally.on, hk, AList.lookup_insert_ne hk]
  | settle =>
      simp only [Tally.on]
      by_cases hk : k = key
      · subst hk
        split
        · rename_i hle
          simp only [AList.lookup_erase, if_true]
          simp
          omega
        · simp
      · split
        · rw [AList.lookup_erase_ne hk]
        · rw [AList.lookup_insert_ne hk]

end Counting

/-! ### The whole manager

`Good` is `Fit` of every party with the counts and the bounds.  Closing frees room, a new party is
listed only where there is room, and a step of a party is covered by the two parts above. -/

/-- What holds of the manager whenever its lock is free. -/
structure Good (m : Manager) : Prop where
  parties : ∀ p ∈ m.parties, Fit p
  perPeer : ∀ k, m.flowsOf k ≤ maxFlowsPerPeer
  total : m.total ≤ maxFlowsTotal
  pending : ∀ k, m.pendingOf k = m.opening k
  bounded : ∀ k, m.opening k ≤ maxPendingPerPeer

theorem Good.init : Good .init := by
  refine ⟨fun p hp => absurd hp List.not_mem_nil, ?_, ?_, ?_, ?_⟩ <;> intros <;>
    simp [Manager.init, Manager.flowsOf, Manager.total, Manager.pendingOf, Manager.opening]

theorem opening_map {m : Manager} {g : Party → Party}
    (hopening : ∀ p k, (g p).opening k = p.opening k) (k : String) :
    ({ m with parties := m.parties.map g } : Manager).opening k = m.opening k := by
  simp [Manager.opening, List.countP_map, Function.comp_def, hopening]

/-- Closing entries frees room and settles nothing. -/
theorem Good.map {m : Manager} (h : Good m) {g : Party → Party} (hfit : ∀ p ∈ m.parties, Fit (g p))
    (hlisted : ∀ p, (g p).listed = true → p.listed = true) (hkey : ∀ p, (g p).key = p.key)
    (hopening : ∀ p k, (g p).opening k = p.opening k) :
    Good { m with parties := m.parties.map g } where
  parties := by simpa using hfit
  perPeer k := by
    refine le_trans (countP_map_le fun p _ hp => ?_) (h.perPeer k)
    simp only [Bool.and_eq_true, hkey] at hp ⊢
    exact ⟨hlisted p hp.1, hp.2⟩
  total := le_trans (countP_map_le fun p _ hp => hlisted p hp) h.total
  pending k := (h.pending k).trans (opening_map hopening k).symm
  bounded k := (opening_map hopening k).trans_le (h.bounded k)

section Closing

variable {m : Manager} {now : Int}

/-- Entries are removed, and nothing else changes. -/
theorem Good.remove (h : Good m) (which : Party → Bool) :
    Good { m with parties := m.parties.map fun p => if p.listed && which p then p.remove
      else p } := by
  refine h.map (fun p hp => ?_) (fun p hlisted => ?_) (fun p => ?_) fun p k => ?_
  · split
    · rename_i hgone
      exact (h.parties p hp).remove (Bool.and_eq_true_iff.mp hgone).1
    · exact h.parties p hp
  · split at hlisted
    · simp [Party.remove] at hlisted
    · exact hlisted
  · split <;> rfl
  · split <;> rfl

theorem Good.closing (h : Good m) (c : Closing) : Good (m.closing now c) := by
  cases c with
  | peer key => exact h.remove _
  | review => exact h.remove _
  | all =>
      simp only [Manager.closing]
      generalize m.flowKeys = keys
      induction keys generalizing m with
      | nil => exact h
      | cons key keys ih => exact ih (h.remove _)

theorem Good.closings (h : Good m) (cs : List Closing) :
    Good (cs.foldl (Manager.closing now) m) := by
  induction cs generalizing m with
  | nil => exact h
  | cons c cs ih => exact ih (h.closing c)

/-- The endpoint's own state is not part of what is counted. -/
theorem Good.withEndpoint (h : Good m) (e : Endpoint) : Good { m with endpoint := e } :=
  ⟨h.parties, h.perPeer, h.total, h.pending, h.bounded⟩

end Closing

theorem Good.actStep {m : Manager} {i : Nat} {p p' : Party} {ok : Bool} {now : Int} {tally : Tally}
    (h : Good m) (hp : m.parties[i]? = some p) (hact : m.act p ok now = some (p', tally)) :
    Good { m with parties := m.parties.set i p', pending := tally.on p'.key m.pending } := by
  have hfit := h.parties p (List.mem_of_getElem? hp)
  obtain ⟨hcounts, hlists⟩ := act_counts hfit hact
  -- the counts after the step, against those before it
  have hflows := fun k => countP_set_add hp p' fun q => q.listed && q.key == k
  have htotal := countP_set_add hp p' (·.listed)
  have hopening := fun k => countP_set_add hp p' (·.opening k)
  refine ⟨fun q hq => ?_, fun k => ?_, ?_, fun k => ?_, fun k => ?_⟩
  · rcases List.mem_or_eq_of_mem_set hq with hq | rfl
    · exact h.parties q hq
    · exact hfit.act hact
  · have hbefore := h.perPeer k
    have hafter := hflows k
    simp only [Manager.flowsOf] at hbefore ⊢
    cases hf : p'.listed && p'.key == k with
    | false =>
        rw [hf, Bool.toNat_false] at hafter
        omega
    | true =>
        simp only [Bool.and_eq_true, beq_iff_eq] at hf
        rcases hlists.listed hf.1 with ⟨hlisted, hkey⟩ | ⟨_, hroom⟩
        · have hfp : (p.listed && p.key == k) = true := by simp [hlisted, ← hkey, hf.2]
          simp only [hfp, hf.1, hf.2, beq_self_eq_true, Bool.and_self, Bool.toNat_true] at hafter
          omega
        · have hlt := (roomLocked_iff.mp hroom).1
          rw [hf.2, Manager.flowsOf] at hlt
          have hone := Bool.toNat_le (p'.listed && p'.key == k)
          omega
  · have hbefore := h.total
    simp only [Manager.total] at hbefore ⊢
    cases hf : p'.listed with
    | false =>
        rw [hf, Bool.toNat_false] at htotal
        omega
    | true =>
        rcases hlists.listed hf with ⟨hlisted, _⟩ | ⟨_, hroom⟩
        · rw [hf, hlisted] at htotal
          omega
        · have hlt := (roomLocked_iff.mp hroom).2
          rw [Manager.total] at hlt
          rw [hf, Bool.toNat_true] at htotal
          omega
  · have hbefore := h.pending k
    have hafter := hopening k
    simp only [Manager.pendingOf, Manager.opening, pendingOf_on] at hbefore ⊢
    cases tally with
    | keep =>
        rw [hcounts k] at hafter
        split
        · dsimp only
          omega
        · omega
    | reserve =>
        rw [hcounts.1 k, hcounts.2.1 k] at hafter
        split
        · rename_i hk
          simp only [hk, beq_self_eq_true, Bool.toNat_true, Bool.toNat_false] at hafter hbefore ⊢
          omega
        · rename_i hk
          simp only [beq_eq_false_iff_ne.mpr (Ne.symm hk), Bool.toNat_false] at hafter
          omega
    | settle =>
        rw [hcounts.1 k, hcounts.2 k] at hafter
        split
        · rename_i hk
          simp only [hk, beq_self_eq_true, Bool.toNat_true, Bool.toNat_false] at hafter hbefore ⊢
          omega
        · rename_i hk
          simp only [beq_eq_false_iff_ne.mpr (Ne.symm hk), Bool.toNat_false] at hafter
          omega
  · have hbefore := h.bounded k
    have hpend := h.pending k
    have hafter := hopening k
    simp only [Manager.opening] at hbefore hpend ⊢
    cases tally with
    | keep =>
        rw [hcounts k] at hafter
        omega
    | reserve =>
        rw [hcounts.1 k, hcounts.2.1 k] at hafter
        by_cases hk : p'.key = k
        · have hroom := hcounts.2.2
          rw [hk, hpend] at hroom
          have hone := Bool.toNat_le (p'.key == k)
          simp only [Bool.toNat_false] at hafter
          omega
        · simp only [beq_eq_false_iff_ne.mpr hk, Bool.toNat_false] at hafter
          omega
    | settle =>
        rw [hcounts.1 k, hcounts.2 k] at hafter
        simp only [Bool.toNat_false] at hafter
        omega

/-- A new party that is listed only where there is room, and opens nothing yet. -/
theorem Good.concat {m : Manager} {p : Party} (h : Good m) (hfit : Fit p)
    (hroom : p.listed = true → m.roomLocked p.key = true) (hopening : ∀ k, p.opening k = false) :
    Good { m with parties := m.parties ++ [p] } := by
  have hsame : ∀ k, ({ m with parties := m.parties ++ [p] } : Manager).opening k = m.opening k := by
    intro k
    simp [Manager.opening, List.countP_append, hopening k]
  refine ⟨fun q hq => ?_, fun k => ?_, ?_, fun k => ?_, fun k => ?_⟩
  · rcases List.mem_append.mp hq with hq | hq
    · exact h.parties q hq
    · rw [List.mem_singleton.mp hq]
      exact hfit
  · have hbefore := h.perPeer k
    simp only [Manager.flowsOf, List.countP_append, List.countP_singleton] at hbefore ⊢
    split
    · rename_i hnew
      simp only [Bool.and_eq_true, beq_iff_eq] at hnew
      have hlt := (roomLocked_iff.mp (hroom hnew.1)).1
      rw [hnew.2, Manager.flowsOf] at hlt
      omega
    · omega
  · have hbefore := h.total
    simp only [Manager.total, List.countP_append, List.countP_singleton] at hbefore ⊢
    split
    · rename_i hnew
      have hlt := (roomLocked_iff.mp (hroom hnew)).2
      rw [Manager.total] at hlt
      omega
    · omega
  · exact (h.pending k).trans (hsame k).symm
  · exact (hsame k).trans_le (h.bounded k)

theorem Fit.start {kind : Kind} {pc : Pc} {inst : Nat} (hpc : pc = .decide ∨ pc = .lookup) :
    Fit (.start kind pc inst) := by
  refine ⟨⟨fun _ => ⟨rfl, rfl, rfl, rfl, rfl⟩, fun h => ?_, fun _ h => ?_⟩, ?_⟩
  · simp [Party.start] at h
  · simp [Party.start] at h
  · rcases hpc with rfl | rfl <;> rfl

theorem Good.step {m next : Manager} {label : Label} (h : Good m)
    (hstep : m.step label = some next) : Good next := by
  cases label with
  | forward proto src dst =>
      obtain ⟨inst, _, rfl⟩ := Option.map_eq_some_iff.mp hstep
      refine h.concat (Fit.start (Or.inl rfl)) (fun hl => ?_) fun k => ?_
      · simp [Party.start] at hl
      · simp [Party.opening, Party.start]
  | dial site =>
      obtain rfl := Option.some.inj hstep
      refine h.concat (Fit.start (Or.inr rfl)) (fun hl => ?_) fun k => ?_
      · simp [Party.start] at hl
      · simp [Party.opening, Party.start]
  | accept src now =>
      simp only [Manager.step] at hstep
      split at hstep
      · obtain rfl := Option.some.inj hstep
        exact h
      · split at hstep <;> obtain rfl := Option.some.inj hstep
        · rename_i hroom
          refine h.concat ⟨⟨?_, ?_, ?_⟩, rfl, fun _ => rfl⟩ (fun _ => hroom) fun k => ?_
            <;> simp [Party.start, Party.isFlow, Party.opening]
        · exact h
  | act i ok now =>
      simp only [Manager.step, Option.bind_eq_some_iff, Option.map_eq_some_iff] at hstep
      obtain ⟨p, hp, ⟨p', tally⟩, hact, rfl⟩ := hstep
      exact h.actStep hp hact
  | apply cfg ans =>
      obtain rfl := Option.some.inj hstep
      exact (h.withEndpoint _).closings _
  | close =>
      obtain rfl := Option.some.inj hstep
      exact (h.withEndpoint _).closings _
  | expire now =>
      obtain rfl := Option.some.inj hstep
      exact h.closings _

theorem Good.of_reachable {m : Manager} (h : Reachable Manager.step .init m) : Good m :=
  h.invariant Good.init fun _ _ _ hgood hstep => hgood.step hstep

/-! ### The results -/

/-! ### Revocation

Closing never lists an entry again (`Closes`), and neither does a step (`gone_step`), so what is
gone at one moment is gone for good. -/

/-- What closing does to an entry: it stays where it is registered, and is not listed
again. -/
structure Closes (p p' : Party) : Prop where
  registered : p'.registered = p.registered
  key : p'.key = p.key
  listed : p.listed = false → p'.listed = false

section Revocation

variable {m : Manager} {i : Nat} {p : Party}

theorem Closes.trans {p' p'' : Party} (h : Closes p p') (h' : Closes p' p'') : Closes p p'' :=
  ⟨h'.registered.trans h.registered, h'.key.trans h.key, fun hl => h'.listed (h.listed hl)⟩

/-- An entry that was registered and is not listed any more. -/
def Gone (p : Party) : Prop := p.registered = true ∧ p.listed = false

theorem Closes.gone {p' : Party} (h : Closes p p') (hgone : Gone p) : Gone p' :=
  ⟨h.registered.trans hgone.1, h.listed hgone.2⟩

/-- The office is dialled. -/
def dialled : List Label :=
  [.apply (office keyA true) works, .dial 1, .act 0 true 0, .act 0 true 0]

def attempt : Party :=
  ⟨.dial 1, .connecting, 1, "site:1", keyA, true, true, false, false, false, []⟩

end Revocation

/-! ### Budgets

The bounds are part of `Good`; what is left is to count the entries over all peers. -/

theorem At.listed {p : Party} (h : At p) (hreg : p.registered = true) (hlisted : p.listed = true) :
    p.closed = false ∨ p.pc = .abandoning ∨ p.pc = .closing := by
  cases hpc : p.pc <;> simp_all [At, Open, Live]

/-- The total is the sum over the peers that have something open. -/
theorem total_eq_sum (m : Manager) : m.total = (m.flowKeys.dedup.map m.flowsOf).sum := by
  have hcount : m.flowsOf = fun key => m.flowKeys.count key := by
    funext key
    rw [Manager.flowKeys, List.count, List.countP_map, List.countP_filter, Manager.flowsOf]
    exact List.countP_congr fun p _ => by simp [and_comm]
  rw [hcount, List.sum_map_count_dedup_eq_length, Manager.flowKeys, List.length_map, Manager.total,
    List.countP_eq_length_filter]

/-- **The budgets are exact.**  Whenever the lock is free, no peer has more open than it
may and neither have all together; `pending` is the number of forwarded flows of the peer
that were reserved and have not settled, at most the bound, and a flow that is over has
settled; and an entry in `m.flows` is open or about to be removed by the release that
closed it. -/
theorem budgets_exact {m : Manager} (h : Reachable Manager.step .init m) :
    (∀ k, m.flowsOf k ≤ maxFlowsPerPeer) ∧
      (m.flowKeys.dedup.map m.flowsOf).sum ≤ maxFlowsTotal ∧
      (∀ k, m.pendingOf k = m.opening k ∧ m.opening k ≤ maxPendingPerPeer) ∧
      (∀ p ∈ m.parties, p.isFlow = true → p.registered = true → p.pc = .done → p.settled = true) ∧
      ∀ p ∈ m.parties, p.listed = true →
        p.closed = false ∨ p.pc = .abandoning ∨ p.pc = .closing := by
  have hgood := Good.of_reachable h
  refine ⟨hgood.perPeer, ?_, fun k => ⟨hgood.pending k, hgood.bounded k⟩, ?_, ?_⟩
  · rw [← total_eq_sum]
    exact hgood.total
  · intro p hp hflow hreg hpc
    have hplace := (hgood.parties p hp).place
    simp only [At, hpc] at hplace
    exact hplace.2 hflow hreg
  · intro p hp hlisted
    obtain ⟨hsound, hplace⟩ := hgood.parties p hp
    exact hplace.listed (hsound.registered hlisted) hlisted

/-- The office, and a phone that may reach a network. -/
def phoneAndOffice : Config :=
  { office keyA true with
    forward := true
    devices := [⟨7, "phone", "eve", keyB, keyA, .v4 0x0ac80003#32, none,
      [⟨cidr4 192 168 20 0 24, "tcp", []⟩]⟩] }

/-- A flow of the phone is admitted and its record not yet written, and the office is dialled. -/
def forwarded : List Label :=
  [.apply phoneAndOffice works, .forward .tcp ⟨.v4 0x0ac80003#32, 40000⟩ ⟨.v4 0xc0a81405#32, 22⟩,
    .dial 1, .act 0 true 0, .act 1 true 0, .act 1 true 0]

theorem budgets_exact_dial : ∃ m, run Manager.step .init forwarded = some m ∧
    m.parties.map (·.pc) = [.recording, .connecting] ∧ m.flowsOf "device:7" ≤ maxFlowsPerPeer ∧
    (m.flowKeys.dedup.map m.flowsOf).sum ≤ maxFlowsTotal ∧ m.pendingOf "device:7" = 1 ∧
    ∀ p ∈ m.parties, p.listed = true → p.closed = false ∨ p.pc = .abandoning ∨ p.pc = .closing := by
  have heval : ((run Manager.step .init forwarded).map fun m =>
      (m.parties.map (·.pc), m.opening "device:7")) = some ([.recording, .connecting], 1) := by
    decide +kernel
  obtain ⟨m, hm, hmade⟩ := Option.map_eq_some_iff.mp heval
  obtain ⟨hpcs, hopening⟩ := Prod.mk.inj hmade
  obtain ⟨hpeer, htotal, hpending, -, hlisted⟩ := budgets_exact ⟨forwarded, hm⟩
  exact ⟨m, hm, hpcs, hpeer _, htotal, (hpending _).1.trans hopening, hlisted⟩

end Quicgate.WgManager
