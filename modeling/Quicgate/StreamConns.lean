import Quicgate.GoMaps
import Quicgate.IdentityHeaders
import Quicgate.TransitionSystem

/-!
# The connections of a TCP stream listener

`startTCP`, `handleTCP`, `connTracker` and `sourceCap` of `internal/engine/streams.go`: the accept
loop, a handler for every connection it hands on, and `stop`, which run at the same time.  What is
done under a mutex is one step, as is every other call that another goroutine can see.  A
handler's deferred calls are steps of their own, in the order in which they run.

A connection is numbered by its place in the list of all that were accepted.  Its entry in the
tracker's map is kept with it, as is what `closeAll` still has to close of it.

`stopped_holds_nothing` is about what comes of a listener that is stopped at any moment: the slots
and counts stay those of the handlers that run, and every way on, without any traffic, ends with
everything closed and nothing counted.
-/

namespace Quicgate.StreamConns

open Quicgate.GoMaps Quicgate.TransitionSystem
open Quicgate.Identity (clientIP)

/-! ### One connection

The phases are the places in `handleTCP` between two calls that others can see, and after them
the deferred calls. -/

/-- Where the goroutine is that has a connection: the accept loop, and from `header` on the
connection's handler, whose deferred calls start at `closeBackend`. -/
inductive Phase where
  | accepted
  | refused -- `track` said no, the connection is not closed yet
  | tracked
  | overflow -- no slot is free
  | untracked -- not in the map any more, and not closed yet
  | header
  | check (client : String)
  | acquire (client : String)
  | hello
  | dial
  | attach
  | announce
  | splice
  | closeBackend
  | release
  | closeRaw
  | untrack
  | freeSlot
  | done
deriving DecidableEq, Repr

inductive Doom where
  | spared
  | client
  | backend
deriving DecidableEq, Repr

/-- `raw` and `backend` say whether the two ends are open; there is no backend before it is dialled.
`tracked` and `attached` are the connection's entry in the map and its list of closers. -/
structure Conn where
  peer : String
  phase : Phase
  raw : Bool
  backend : Option Bool
  source : Option String
  tracked : Bool
  attached : Bool
  doom : Doom
deriving DecidableEq, Repr

def Conn.new (peer : String) : Conn :=
  ⟨peer, .accepted, true, none, none, false, false, .spared⟩

/-- A return from `handleTCP`: on to the calls it has deferred so far. -/
def Conn.exit (c : Conn) : Conn :=
  { c with
    phase :=
      if c.backend.isSome then .closeBackend
      else if c.source.isSome then .release
      else .closeRaw }

/-! ### The listener

A stream may read a header and a ClientHello before it dials. -/

inductive Loop where
  | accepting
  | busy
  | ended
deriving DecidableEq, Repr

inductive Stop where
  | not
  | closed -- `ln.Close` is through
  | closing -- `closeAll` has taken the map and works through it
  | done
deriving DecidableEq, Repr

/-- What a stream is configured to do. `readsHeader` is `acceptProxy` with a trusted peer, and
`readsHello` is a stream with SNI routes or with a certificate. -/
structure Spec where
  maxConns : Nat
  maxPerIP : Nat
  readsHeader : String → Bool
  allowed : String → Bool
  readsHello : Bool

structure Listener where
  conns : List Conn
  loop : Loop
  stop : Stop
  stopped : Bool -- `connTracker.stopped`
  slots : Nat
  perIP : GoMap String Int

def start : Listener := ⟨[], .accepting, .not, false, 0, ∅⟩

/-- `perIP[ip]`. -/
def Listener.count (l : Listener) (ip : String) : Int := (l.perIP.lookup ip).getD 0

inductive Effect where
  | nothing
  | spawn -- a slot is taken, and the loop goes on
  | freeSlot
  | acquire (ip : String)
  | release (ip : String)
  | resume -- the loop goes on
  | leave -- the loop returns
deriving DecidableEq, Repr

inductive Event where
  | go
  | header (client : Option String) -- `ProxyHeader` returns
  | hello (ok : Bool) -- the ClientHello was read, or the handshake is over
  | dialled (ok : Bool)
  | announced (ok : Bool)
  | spliced
deriving DecidableEq, Repr

/-- The next step of a connection. A header that is read comes from an open connection; a
ClientHello may stand in a buffer. -/
def Conn.act (spec : Spec) (l : Listener) (c : Conn) : Event → Option (Conn × Effect)
  | .go =>
      match c.phase with
      | .accepted =>
          if l.stopped then some ({ c with phase := .refused }, .nothing)
          else some ({ c with tracked := true, phase := .tracked }, .nothing)
      | .refused => some ({ c with raw := false, phase := .done }, .leave)
      | .tracked =>
          if l.slots < spec.maxConns then some ({ c with phase := .header }, .spawn)
          else some ({ c with phase := .overflow }, .nothing)
      | .overflow => some ({ c with tracked := false, phase := .untracked }, .nothing)
      | .untracked => some ({ c with raw := false, phase := .done }, .resume)
      | .header =>
          if spec.readsHeader c.peer then none
          else some ({ c with phase := .check c.peer }, .nothing)
      | .check client =>
          if spec.allowed client then some ({ c with phase := .acquire client }, .nothing)
          else some (c.exit, .nothing)
      | .acquire client =>
          if l.count (clientIP client) < spec.maxPerIP then
            some ({ c with source := some (clientIP client), phase := .hello },
              .acquire (clientIP client))
          else some (c.exit, .nothing)
      | .hello => if spec.readsHello then none else some ({ c with phase := .dial }, .nothing)
      | .attach =>
          if c.tracked then some ({ c with attached := true, phase := .announce }, .nothing)
          else some (c.exit, .nothing)
      | .closeBackend => some ({ c with backend := some false, phase := .release }, .nothing)
      | .release =>
          c.source.map fun ip => ({ c with source := none, phase := .closeRaw }, .release ip)
      | .closeRaw => some ({ c with raw := false, phase := .untrack }, .nothing)
      | .untrack => some ({ c with tracked := false, phase := .freeSlot }, .nothing)
      | .freeSlot => some ({ c with phase := .done }, .freeSlot)
      | .dial | .announce | .splice | .done => none
  | .header client =>
      if c.phase = .header ∧ spec.readsHeader c.peer then
        match client with
        | none => some (c.exit, .nothing)
        | some client => if c.raw then some ({ c with phase := .check client }, .nothing) else none
      else none
  | .hello ok =>
      if c.phase = .hello ∧ spec.readsHello then
        if ok then some ({ c with phase := .dial }, .nothing) else some (c.exit, .nothing)
      else none
  | .dialled ok =>
      if c.phase = .dial then
        if ok then some ({ c with backend := some true, phase := .attach }, .nothing)
        else some (c.exit, .nothing)
      else none
  | .announced ok =>
      if c.phase = .announce then
        if ok then some ({ c with phase := .splice }, .nothing) else some (c.exit, .nothing)
      else none
  | .spliced => if c.phase = .splice then some (c.exit, .nothing) else none

def Listener.apply (l : Listener) (i : Nat) (c : Conn) : Effect → Listener
  | .nothing => { l with conns := l.conns.set i c }
  | .spawn => { l with conns := l.conns.set i c, slots := l.slots + 1, loop := .accepting }
  | .freeSlot => { l with conns := l.conns.set i c, slots := l.slots - 1 }
  | .acquire ip =>
      { l with conns := l.conns.set i c, perIP := l.perIP.insert ip (l.count ip + 1) }
  | .release ip =>
      { l with
        conns := l.conns.set i c
        perIP :=
          if l.count ip - 1 ≤ 0 then l.perIP.erase ip else l.perIP.insert ip (l.count ip - 1) }
  | .resume => { l with conns := l.conns.set i c, loop := .accepting }
  | .leave => { l with conns := l.conns.set i c, loop := .ended }

inductive Label where
  | accept (peer : String)
  | acceptFailed
  | act (i : Nat) (event : Event)
  | closeListener
  | takeMap -- `closeAll` up to its loop
  | closeClient (i : Nat)
  | closeBackend (i : Nat)
  | closedAll
deriving DecidableEq, Repr

/-- `closeAll` takes the map. -/
def Conn.take (c : Conn) : Conn :=
  if c.tracked then { c with tracked := false, doom := .client } else c

def step (spec : Spec) (l : Listener) : Label → Option Listener
  | .accept peer =>
      if l.loop = .accepting then
        some { l with conns := l.conns ++ [Conn.new peer], loop := .busy }
      else none
  | .acceptFailed =>
      if l.loop = .accepting then some { l with loop := .ended } else none
  | .act i event => do
      let c ← l.conns[i]?
      let (c, effect) ← c.act spec l event
      return l.apply i c effect
  | .closeListener => if l.stop = .not then some { l with stop := .closed } else none
  | .takeMap =>
      if l.stop = .closed then
        some { l with conns := l.conns.map Conn.take, stopped := true, stop := .closing }
      else none
  | .closeClient i => do
      let c ← l.conns[i]?
      if c.doom = .client then
        let doom := if c.attached then .backend else .spared
        some { l with conns := l.conns.set i { c with raw := false, doom } }
      else none
  | .closeBackend i => do
      let c ← l.conns[i]?
      if c.doom = .backend then
        let backend := c.backend.map fun _ => false
        some { l with conns := l.conns.set i { c with backend, doom := .spared } }
      else none
  | .closedAll =>
      if l.stop = .closing ∧ ∀ c ∈ l.conns, c.doom = .spared then some { l with stop := .done }
      else none

/-! ### What is known of a connection

What each phase says about the two ends, the map, the slot and the count. -/

@[simp] def Phase.running : Phase → Bool
  | .accepted | .refused | .tracked | .overflow | .untracked | .done => false
  | _ => true

@[simp] def Phase.listed : Phase → Bool
  | .accepted | .refused | .untracked | .untrack | .freeSlot | .done => false
  | _ => true

@[simp] def Phase.shut : Phase → Bool
  | .untrack | .freeSlot | .done => true
  | _ => false

@[simp] def Phase.counted : Phase → Bool
  | .hello | .dial | .attach | .announce | .splice | .closeBackend | .release => true
  | _ => false

@[simp] def Phase.dialled : Phase → Bool
  | .attach | .announce | .splice | .closeBackend | .release | .closeRaw | .untrack | .freeSlot
  | .done => true
  | _ => false

/-- The backend is in the map with its connection. -/
@[simp] def Phase.attached : Phase → Bool
  | .announce | .splice => true
  | _ => false

structure Conn.Ok (stopped : Bool) (stop : Stop) (c : Conn) : Prop where
  listed : c.raw = true → c.phase.listed = true → c.tracked = true ∨ c.doom = .client
  shut : c.phase.shut = true → c.raw = false
  counted : c.source.isSome = c.phase.counted
  dialled : c.backend.isSome = true → c.phase.dialled = true
  open_ : c.backend = some true → c.phase = .attach ∨ c.phase = .closeBackend ∨
    c.phase.attached = true ∧ c.attached = true ∧ (c.tracked = true ∨ c.doom ≠ .spared)
  spliced : c.phase = .attach ∨ c.phase.attached = true → c.backend.isSome = true
  map : c.tracked = true → stopped = false
  doomed : c.doom ≠ .spared → stop = .closing

/-- How far a connection is from its end, once the listener is stopped. -/
@[simp] def Phase.work : Phase → Nat
  | .done => 0
  | .freeSlot | .refused => 1
  | .untrack | .accepted => 2
  | .closeRaw => 3
  | .release | .untracked => 4
  | .closeBackend | .overflow => 5
  | .splice => 6
  | .announce => 7
  | .attach => 8
  | .dial => 9
  | .hello => 10
  | .acquire _ => 11
  | .check _ => 12
  | .header => 13
  | .tracked => 17

/-- A loop that goes on may accept one more connection. -/
@[simp] def Loop.work : Loop → Nat
  | .accepting => 3
  | .busy | .ended => 0

@[simp] def Effect.work : Effect → Nat
  | .spawn | .resume => Loop.accepting.work
  | _ => 0

@[simp] def Effect.slots : Effect → Int
  | .spawn => 1
  | .freeSlot => -1
  | _ => 0

@[simp] def Effect.counts (ip : String) : Effect → Int
  | .acquire ip' => if ip' = ip then 1 else 0
  | .release ip' => if ip' = ip then -1 else 0
  | _ => 0

def Conn.holds (ip : String) (c : Conn) : Bool := c.source = some ip

/-- What a step of a connection comes to. -/
structure Conn.Moves (l : Listener) (c c' : Conn) (effect : Effect) : Prop where
  ok : c'.Ok l.stopped l.stop
  slots : (c'.phase.running.toNat : Int) = c.phase.running.toNat + effect.slots
  counts : ∀ ip, ((c'.holds ip).toNat : Int) = (c.holds ip).toNat + effect.counts ip
  less : l.stopped = true → c'.phase.work + effect.work < c.phase.work

variable {spec : Spec} {l l' : Listener} {c c' : Conn} {event : Event} {effect : Effect}

/-! ### Every step of a connection

A connection's step keeps what its phase says, and changes slots and counts together with the
phase. -/

theorem Conn.ok_new (peer : String) : (Conn.new peer).Ok l.stopped l.stop := by
  constructor <;> simp [Conn.new]

/-- The deferred calls start where there is something to undo. -/
theorem Conn.Ok.exit (h : c.Ok l.stopped l.stop) (hlisted : c.phase.listed = true)
    (hrunning : c.phase.running = true) (hwork : 5 < c.phase.work)
    (hboth : c.backend.isSome = true → c.source.isSome = true) :
    Conn.Moves l c c.exit .nothing := by
  have hguard : c.raw = true → c.tracked = true ∨ c.doom = .client := fun hraw =>
    h.listed hraw hlisted
  have hmap := h.map
  have hdoomed := h.doomed
  have hphase : c.exit.phase.running = true ∧ c.exit.phase.work ≤ 5 := by
    unfold Conn.exit
    split_ifs <;> exact ⟨rfl, by simp⟩
  refine ⟨?_, by rw [hphase.1, hrunning]; rfl, fun ip => rfl,
    fun _ => Nat.lt_of_le_of_lt hphase.2 hwork⟩
  obtain ⟨peer, phase, raw, backend, source, tracked, attached, doom⟩ := c
  clear h hlisted hrunning hwork hphase
  unfold Conn.exit
  cases backend with
  | some up =>
      obtain ⟨ip, rfl⟩ := Option.isSome_iff_exists.mp (hboth rfl)
      constructor <;> simp_all
  | none =>
      cases source with
      | some ip => constructor <;> simp_all
      | none => constructor <;> simp_all

theorem Conn.Ok.act (h : c.Ok l.stopped l.stop) (hact : c.act spec l event = some (c', effect)) :
    Conn.Moves l c c' effect := by
  have hexit := h.exit
  obtain ⟨peer, phase, raw, backend, source, tracked, attached, doom⟩ := c
  obtain ⟨hlisted, hshut, hcounted, hdialled, hopen, hspliced, hmap, hdoomed⟩ := h
  cases event with
  | go =>
      cases phase with
      | dial | announce | splice | done => cases hact
      | refused | overflow | untracked | closeBackend | closeRaw | untrack | freeSlot =>
          obtain ⟨rfl, rfl⟩ := Prod.mk.inj (Option.some.inj hact)
          refine ⟨by constructor <;> simp_all, rfl, fun ip => rfl, fun _ => by simp⟩
      | accepted =>
          simp only [Conn.act] at hact
          split_ifs at hact with hstopped
          · obtain ⟨rfl, rfl⟩ := Prod.mk.inj (Option.some.inj hact)
            refine ⟨by constructor <;> simp_all, rfl, fun ip => rfl, fun _ => by simp⟩
          · obtain ⟨rfl, rfl⟩ := Prod.mk.inj (Option.some.inj hact)
            refine ⟨by constructor <;> simp_all, rfl, fun ip => rfl, fun h => absurd h hstopped⟩
      | tracked =>
          simp only [Conn.act] at hact
          split_ifs at hact with hslots
          · obtain ⟨rfl, rfl⟩ := Prod.mk.inj (Option.some.inj hact)
            refine ⟨by constructor <;> simp_all, rfl, fun ip => rfl, fun _ => by simp⟩
          · obtain ⟨rfl, rfl⟩ := Prod.mk.inj (Option.some.inj hact)
            refine ⟨by constructor <;> simp_all, rfl, fun ip => rfl, fun _ => by simp⟩
      | header | hello =>
          simp only [Conn.act] at hact
          split_ifs at hact with hwaits
          obtain ⟨rfl, rfl⟩ := Prod.mk.inj (Option.some.inj hact)
          refine ⟨by constructor <;> simp_all, rfl, fun ip => rfl, fun _ => by simp⟩
      | check client =>
          simp only [Conn.act] at hact
          split_ifs at hact with hallowed
          · obtain ⟨rfl, rfl⟩ := Prod.mk.inj (Option.some.inj hact)
            refine ⟨by constructor <;> simp_all, rfl, fun ip => rfl, fun _ => by simp⟩
          · obtain ⟨rfl, rfl⟩ := Prod.mk.inj (Option.some.inj hact)
            exact hexit rfl rfl (by simp) (by simp_all)
      | acquire client =>
          simp only [Conn.act] at hact
          split_ifs at hact with hroom
          · obtain ⟨rfl, rfl⟩ := Prod.mk.inj (Option.some.inj hact)
            obtain rfl : source = none := by simpa using hcounted
            refine ⟨by constructor <;> simp_all, rfl, fun ip => ?_, fun _ => by simp⟩
            by_cases hip : clientIP client = ip <;> simp [Conn.holds, hip]
          · obtain ⟨rfl, rfl⟩ := Prod.mk.inj (Option.some.inj hact)
            exact hexit rfl rfl (by simp) (by simp_all)
      | attach =>
          simp only [Conn.act] at hact
          split_ifs at hact with htracked
          · obtain ⟨rfl, rfl⟩ := Prod.mk.inj (Option.some.inj hact)
            refine ⟨by constructor <;> simp_all, rfl, fun ip => rfl, fun _ => by simp⟩
          · obtain ⟨rfl, rfl⟩ := Prod.mk.inj (Option.some.inj hact)
            exact hexit rfl rfl (by simp) (by simp_all)
      | release =>
          obtain ⟨ip, rfl, heq⟩ := Option.map_eq_some_iff.mp hact
          obtain ⟨rfl, rfl⟩ := Prod.mk.inj heq
          refine ⟨by constructor <;> simp_all, rfl, fun ip' => ?_, fun _ => by simp⟩
          by_cases hip : ip = ip' <;> simp [Conn.holds, hip]
  | header client =>
      cases client with
      | none =>
          simp only [Conn.act] at hact
          split_ifs at hact with hwaits
          obtain ⟨rfl, rfl⟩ := Prod.mk.inj (Option.some.inj hact)
          obtain ⟨rfl, -⟩ := hwaits
          exact hexit rfl rfl (by simp) (by simp_all)
      | some client =>
          simp only [Conn.act] at hact
          split_ifs at hact with hwaits
          obtain ⟨rfl, rfl⟩ := Prod.mk.inj (Option.some.inj hact)
          obtain ⟨rfl, -⟩ := hwaits
          refine ⟨by constructor <;> simp_all, rfl, fun ip => rfl, fun _ => by simp⟩
  | hello ok =>
      simp only [Conn.act] at hact
      split_ifs at hact with hwaits hok
      · obtain ⟨rfl, rfl⟩ := Prod.mk.inj (Option.some.inj hact)
        obtain ⟨rfl, -⟩ := hwaits
        refine ⟨by constructor <;> simp_all, rfl, fun ip => rfl, fun _ => by simp⟩
      · obtain ⟨rfl, rfl⟩ := Prod.mk.inj (Option.some.inj hact)
        obtain ⟨rfl, -⟩ := hwaits
        exact hexit rfl rfl (by simp) (by simp_all)
  | dialled ok =>
      simp only [Conn.act] at hact
      split_ifs at hact with hwaits hok
      · obtain ⟨rfl, rfl⟩ := Prod.mk.inj (Option.some.inj hact)
        obtain rfl := hwaits
        refine ⟨by constructor <;> simp_all, rfl, fun ip => rfl, fun _ => by simp⟩
      · obtain ⟨rfl, rfl⟩ := Prod.mk.inj (Option.some.inj hact)
        obtain rfl := hwaits
        exact hexit rfl rfl (by simp) (by simp_all)
  | announced ok =>
      simp only [Conn.act] at hact
      split_ifs at hact with hwaits hok
      · obtain ⟨rfl, rfl⟩ := Prod.mk.inj (Option.some.inj hact)
        obtain rfl := hwaits
        refine ⟨by constructor <;> simp_all, rfl, fun ip => rfl, fun _ => by simp⟩
      · obtain ⟨rfl, rfl⟩ := Prod.mk.inj (Option.some.inj hact)
        obtain rfl := hwaits
        exact hexit rfl rfl (by simp) (by simp_all)
  | spliced =>
      simp only [Conn.act] at hact
      split_ifs at hact with hwaits
      obtain ⟨rfl, rfl⟩ := Prod.mk.inj (Option.some.inj hact)
      obtain rfl := hwaits
      exact hexit rfl rfl (by simp) (by simp_all)

/-- `closeAll` takes what is in the map, and the rest stays what it is. -/
theorem Conn.Ok.take (h : c.Ok l.stopped .closed) : c.take.Ok true .closing := by
  obtain ⟨peer, phase, raw, backend, source, tracked, attached, doom⟩ := c
  obtain ⟨hlisted, hshut, hcounted, hdialled, hopen, hspliced, hmap, hdoomed⟩ := h
  have hspared : doom = .spared := by
    by_contra hdoom
    cases hdoomed hdoom
  subst hspared
  unfold Conn.take
  cases tracked with
  | true => constructor <;> simp_all
  | false => constructor <;> simp_all

theorem Conn.Ok.closeClient (h : c.Ok l.stopped l.stop) (hdoom : c.doom = .client) :
    Conn.Ok l.stopped l.stop
      { c with raw := false, doom := if c.attached then .backend else .spared } := by
  obtain ⟨peer, phase, raw, backend, source, tracked, attached, doom⟩ := c
  obtain ⟨hlisted, hshut, hcounted, hdialled, hopen, hspliced, hmap, hdoomed⟩ := h
  have hclosing : l.stop = .closing := hdoomed (by simp_all)
  cases attached with
  | true => constructor <;> simp_all
  | false => constructor <;> simp_all

theorem Conn.Ok.closeBackend (h : c.Ok l.stopped l.stop) (hdoom : c.doom = .backend) :
    Conn.Ok l.stopped l.stop
      { c with backend := c.backend.map fun _ => false, doom := .spared } := by
  obtain ⟨peer, phase, raw, backend, source, tracked, attached, doom⟩ := c
  obtain ⟨hlisted, hshut, hcounted, hdialled, hopen, hspliced, hmap, hdoomed⟩ := h
  cases backend with
  | none => constructor <;> simp_all
  | some up => constructor <;> simp_all

/-! ### What is known of the listener

The slots and the counts are sums over the connections, so a step that changes one of them
changes both sides alike. -/

structure Inv (l : Listener) : Prop where
  ok : ∀ c ∈ l.conns, c.Ok l.stopped l.stop
  slots : l.slots = l.conns.countP (·.phase.running)
  counted : ∀ ip, l.count ip = l.conns.countP (Conn.holds ip)
  positive : ∀ ip n, l.perIP.lookup ip = some n → 0 < n
  stopped : l.stopped = true ↔ l.stop = .closing ∨ l.stop = .done

theorem inv_start : Inv start where
  ok := fun c hc => absurd hc List.not_mem_nil
  slots := rfl
  counted := fun ip => rfl
  positive := fun ip n hn => absurd hn (by simp [start])
  stopped := by simp [start]

theorem mem_of_mem_set {i : Nat} {p : Conn → Prop} (hp : p c') (hall : ∀ d ∈ l.conns, p d) :
    ∀ d ∈ l.conns.set i c', p d := by
  intro d hd
  rcases List.mem_or_eq_of_mem_set hd with hmem | rfl
  · exact hall d hmem
  · exact hp

theorem countP_set {i : Nat} (hc : l.conns[i]? = some c) (c' : Conn) (f : Conn → Bool) :
    ((l.conns.set i c').countP f : Int) = l.conns.countP f + ((f c').toNat - (f c).toNat) := by
  have hcount := countP_set_add hc c' f
  omega

@[simp] theorem conns_apply (l : Listener) (i : Nat) (c' : Conn) (effect : Effect) :
    (l.apply i c' effect).conns = l.conns.set i c' := by
  cases effect <;> rfl

@[simp] theorem stop_apply (l : Listener) (i : Nat) (c' : Conn) (effect : Effect) :
    (l.apply i c' effect).stop = l.stop := by
  cases effect <;> rfl

@[simp] theorem stopped_apply (l : Listener) (i : Nat) (c' : Conn) (effect : Effect) :
    (l.apply i c' effect).stopped = l.stopped := by
  cases effect <;> rfl

theorem slots_apply (l : Listener) (i : Nat) (c' : Conn) (effect : Effect) :
    (l.apply i c' effect).slots = ((l.slots : Int) + effect.slots).toNat := by
  cases effect with
  | nothing | acquire ip | release ip | resume | leave | spawn | freeSlot =>
      simp only [Listener.apply, Effect.slots]
      omega

/-- The counts of the sources after a step, and that none of them is zero. -/
theorem counts_apply (i : Nat) (c' : Conn) (hpositive : ∀ ip n, l.perIP.lookup ip = some n → 0 < n)
    (hheld : ∀ ip, effect = .release ip → 0 < l.count ip) :
    (∀ ip, (l.apply i c' effect).count ip = l.count ip + effect.counts ip) ∧
      ∀ ip n, (l.apply i c' effect).perIP.lookup ip = some n → 0 < n := by
  have hnonneg (ip : String) : 0 ≤ l.count ip := by
    unfold Listener.count
    cases hn : l.perIP.lookup ip with
    | none => exact Int.le_refl 0
    | some n => exact Int.le_of_lt (hpositive ip n hn)
  cases effect with
  | nothing | resume | leave | spawn | freeSlot =>
      exact ⟨fun ip => by simp [Listener.apply, Listener.count], hpositive⟩
  | acquire ip =>
      constructor
      · intro ip'
        simp only [Listener.apply, Listener.count, Effect.counts]
        by_cases hip : ip = ip'
        · subst hip
          simp
        · simp [hip, AList.lookup_insert_ne (Ne.symm hip)]
      · intro ip' n hn
        simp only [Listener.apply] at hn
        by_cases hip : ip' = ip
        · subst hip
          rw [AList.lookup_insert] at hn
          have := hnonneg ip'
          obtain rfl := Option.some.inj hn
          omega
        · rw [AList.lookup_insert_ne hip] at hn
          exact hpositive ip' n hn
  | release ip =>
      have hpos := hheld ip rfl
      simp only [Listener.apply]
      by_cases hlast : l.count ip - 1 ≤ 0
      · rw [if_pos hlast]
        constructor
        · intro ip'
          simp only [Listener.count, Effect.counts]
          by_cases hip : ip = ip'
          · subst hip
            rw [AList.lookup_erase, if_pos rfl]
            have hcount : l.count ip = 1 := by omega
            unfold Listener.count at hcount
            rw [hcount]
            rfl
          · simp [hip, AList.lookup_erase_ne (Ne.symm hip)]
        · intro ip' n hn
          by_cases hip : ip' = ip
          · subst hip
            rw [AList.lookup_erase] at hn
            cases hn
          · rw [AList.lookup_erase_ne hip] at hn
            exact hpositive ip' n hn
      · rw [if_neg hlast]
        constructor
        · intro ip'
          simp only [Listener.count, Effect.counts]
          by_cases hip : ip = ip'
          · subst hip
            simp [Int.sub_eq_add_neg]
          · simp [hip, AList.lookup_insert_ne (Ne.symm hip)]
        · intro ip' n hn
          by_cases hip : ip' = ip
          · subst hip
            rw [AList.lookup_insert] at hn
            obtain rfl := Option.some.inj hn
            omega
          · rw [AList.lookup_insert_ne hip] at hn
            exact hpositive ip' n hn

theorem Inv.act (h : Inv l) {i : Nat} (hc : l.conns[i]? = some c)
    (hact : c.act spec l event = some (c', effect)) : Inv (l.apply i c' effect) := by
  have hmoves := (h.ok c (List.mem_of_getElem? hc)).act hact
  have hrunning := countP_set hc c' (·.phase.running)
  have hheld : ∀ ip, effect = .release ip → 0 < l.count ip := by
    rintro ip rfl
    have hholds := countP_set hc c' (Conn.holds ip)
    have hcounts := hmoves.counts ip
    have hcounted := h.counted ip
    simp only [Effect.counts, if_true] at hcounts
    omega
  obtain ⟨hcount, hpositive⟩ := counts_apply i c' h.positive hheld
  refine ⟨?_, ?_, ?_, hpositive, ?_⟩
  · rw [conns_apply, stopped_apply, stop_apply]
    exact mem_of_mem_set hmoves.ok h.ok
  · have hslots := h.slots
    have hstep := hmoves.slots
    rw [slots_apply, conns_apply]
    omega
  · intro ip
    have hholds := countP_set hc c' (Conn.holds ip)
    have hcounts := hmoves.counts ip
    have hcounted := h.counted ip
    rw [hcount, conns_apply]
    omega
  · rw [stopped_apply, stop_apply]
    exact h.stopped

theorem Conn.Ok.restop {stopped : Bool} {stop : Stop} (h : c.Ok stopped stop)
    (hspared : c.doom = .spared) (stop' : Stop) : c.Ok stopped stop' :=
  { h with doomed := fun hdoom => absurd hspared hdoom }

@[simp] theorem running_take : c.take.phase.running = c.phase.running := by
  unfold Conn.take
  split_ifs <;> rfl

@[simp] theorem holds_take (ip : String) : c.take.holds ip = c.holds ip := by
  unfold Conn.take
  split_ifs <;> rfl

/-- A step that only closes. -/
theorem Inv.close (h : Inv l) {i : Nat} (hc : l.conns[i]? = some c) (hok : c'.Ok l.stopped l.stop)
    (hphase : c'.phase = c.phase) (hsource : c'.source = c.source) :
    Inv { l with conns := l.conns.set i c' } := by
  have hrunning := countP_set hc c' (·.phase.running)
  rw [hphase, sub_self, add_zero] at hrunning
  refine ⟨mem_of_mem_set hok h.ok, ?_, ?_, h.positive, h.stopped⟩
  · exact h.slots.trans (Int.ofNat.inj hrunning).symm
  · intro ip
    have hholds := countP_set hc c' (Conn.holds ip)
    rw [Conn.holds, Conn.holds, hsource, sub_self, add_zero] at hholds
    exact (h.counted ip).trans hholds.symm

theorem Inv.step {label : Label} (h : Inv l) (hstep : step spec l label = some l') : Inv l' := by
  cases label with
  | accept peer =>
      simp only [StreamConns.step] at hstep
      split_ifs at hstep
      obtain rfl := Option.some.inj hstep
      refine ⟨?_, ?_, ?_, h.positive, h.stopped⟩
      · intro c hc
        rcases List.mem_append.mp hc with hc | hc
        · exact h.ok c hc
        · rw [List.mem_singleton.mp hc]
          exact Conn.ok_new peer
      · simp [h.slots, Conn.new]
      · intro ip
        have hnew : Conn.holds ip (Conn.new peer) = false := rfl
        rw [List.countP_append, List.countP_singleton, hnew]
        exact h.counted ip
  | acceptFailed =>
      simp only [StreamConns.step] at hstep
      split_ifs at hstep
      obtain rfl := Option.some.inj hstep
      exact ⟨h.ok, h.slots, h.counted, h.positive, h.stopped⟩
  | act i event =>
      simp only [StreamConns.step, Option.bind_eq_bind, Option.bind_eq_some_iff, Option.pure_def,
        Option.some.injEq] at hstep
      obtain ⟨c, hc, ⟨c', effect⟩, hact, rfl⟩ := hstep
      exact h.act hc hact
  | closeListener =>
      simp only [StreamConns.step] at hstep
      split_ifs at hstep with hnot
      obtain rfl := Option.some.inj hstep
      have hstopped : ¬ l.stopped = true := by simp [h.stopped, hnot]
      refine ⟨?_, h.slots, h.counted, h.positive, by simp [hstopped]⟩
      intro c hc
      have hok := h.ok c hc
      apply hok.restop
      by_contra hdoom
      rw [hok.doomed hdoom] at hnot
      cases hnot
  | takeMap =>
      simp only [StreamConns.step] at hstep
      split_ifs at hstep with hclosed
      obtain rfl := Option.some.inj hstep
      refine ⟨?_, ?_, ?_, h.positive, by simp⟩
      · intro c hc
        obtain ⟨d, hd, rfl⟩ := List.mem_map.mp hc
        have hok := h.ok d hd
        rw [hclosed] at hok
        exact hok.take
      · simp only [List.countP_map, Function.comp_def, running_take]
        exact h.slots
      · intro ip
        simp only [List.countP_map, Function.comp_def, holds_take]
        exact h.counted ip
  | closeClient i =>
      simp only [StreamConns.step, Option.bind_eq_bind, Option.bind_eq_some_iff] at hstep
      obtain ⟨c, hc, hstep⟩ := hstep
      by_cases hdoom : c.doom = .client
      · rw [if_pos hdoom] at hstep
        obtain rfl := Option.some.inj hstep
        exact h.close hc ((h.ok c (List.mem_of_getElem? hc)).closeClient hdoom) rfl rfl
      · rw [if_neg hdoom] at hstep
        cases hstep
  | closeBackend i =>
      simp only [StreamConns.step, Option.bind_eq_bind, Option.bind_eq_some_iff] at hstep
      obtain ⟨c, hc, hstep⟩ := hstep
      split_ifs at hstep with hdoom
      obtain rfl := Option.some.inj hstep
      exact h.close hc ((h.ok c (List.mem_of_getElem? hc)).closeBackend hdoom) rfl rfl
  | closedAll =>
      simp only [StreamConns.step] at hstep
      split_ifs at hstep with hall
      obtain rfl := Option.some.inj hstep
      have hstopped : l.stopped = true := h.stopped.mpr (Or.inl hall.1)
      refine ⟨?_, h.slots, h.counted, h.positive, by simp [hstopped]⟩
      exact fun c hc => (h.ok c hc).restop (hall.2 c hc) .done

/-! ### After `closeAll`

How much is left to do is a number, which every step of a stopped listener brings down; and as
long as it is not done, some step needs no traffic. -/

def Listener.work (l : Listener) : Nat := l.loop.work + (l.conns.map (·.phase.work)).sum

/-- A step that waits for traffic: for bytes of an open connection, or for an end of it. -/
def Conn.Waits (c : Conn) : Event → Prop
  | .header _ | .hello _ => c.raw = true
  | .spliced => c.backend = some true
  | .go | .dialled _ | .announced _ => False

/-- No client calls, and no step waits for traffic. -/
def Silent (l : Listener) : Label → Prop
  | .accept _ => False
  | .act i event => ∀ c, l.conns[i]? = some c → ¬ c.Waits event
  | _ => True

/-- Every connection is closed, and nothing is counted. -/
structure Empty (l : Listener) : Prop where
  closed : ∀ c ∈ l.conns, c.raw = false ∧ c.backend ≠ some true
  slots : l.slots = 0
  perIP : ∀ ip, l.perIP.lookup ip = none

/-- The slots and the counts are those of the handlers that run, and however the goroutines take
their turns, they come to an end without traffic, where nothing is open or counted. -/
structure Drains (spec : Spec) (l : Listener) : Prop where
  slots : l.slots = l.conns.countP (·.phase.running)
  counted : ∀ ip, l.count ip = l.conns.countP (Conn.holds ip)
  holders : ∀ ip, l.conns.countP (Conn.holds ip) ≤ l.slots
  ends : ∀ labels l', run (step spec) l labels = some l' →
    labels.length ≤ l.work ∧
      ((∀ label, Silent l' label → step spec l' label = none) → Empty l')

/-- What is summed up before a step, but for the party that moved. -/
theorem sum_set_add {α : Type} {parties : List α} {i : Nat} {p : α} (hp : parties[i]? = some p)
    (p' : α) (f : α → Nat) :
    ((parties.set i p').map f).sum + f p = (parties.map f).sum + f p' := by
  induction parties generalizing i with
  | nil => cases hp
  | cons q parties ih =>
      cases i with
      | zero =>
          obtain rfl := Option.some.inj hp
          simp only [List.set_cons_zero, List.map_cons, List.sum_cons]
          omega
      | succ i =>
          have hrest := ih hp
          simp only [List.set_cons_succ, List.map_cons, List.sum_cons]
          omega

theorem work_apply {i : Nat} (hc : l.conns[i]? = some c)
    (hless : c'.phase.work + effect.work < c.phase.work) :
    (l.apply i c' effect).work < l.work := by
  have hsum := sum_set_add hc c' fun c => c.phase.work
  have hloop : (l.apply i c' effect).loop.work ≤ l.loop.work + effect.work := by
    cases effect <;> simp [Listener.apply]
  unfold Listener.work
  rw [conns_apply]
  omega

/-- Every step brings a stopped listener closer to its end. -/
theorem Inv.step_done {label : Label} (h : Inv l) (hdone : l.stop = .done)
    (hstep : StreamConns.step spec l label = some l') : l'.stop = .done ∧ l'.work < l.work := by
  have hstopped : l.stopped = true := h.stopped.mpr (Or.inr hdone)
  have hspared : ∀ c ∈ l.conns, c.doom = .spared := by
    intro c hc
    by_contra hdoom
    rw [(h.ok c hc).doomed hdoom] at hdone
    cases hdone
  cases label with
  | accept peer =>
      simp only [StreamConns.step] at hstep
      split_ifs at hstep with hloop
      obtain rfl := Option.some.inj hstep
      exact ⟨hdone, by simp [Listener.work, hloop, Conn.new]; omega⟩
  | acceptFailed =>
      simp only [StreamConns.step] at hstep
      split_ifs at hstep with hloop
      obtain rfl := Option.some.inj hstep
      exact ⟨hdone, by simp [Listener.work, hloop]⟩
  | act i event =>
      simp only [StreamConns.step, Option.bind_eq_bind, Option.bind_eq_some_iff, Option.pure_def,
        Option.some.injEq] at hstep
      obtain ⟨c, hc, ⟨c', effect⟩, hact, rfl⟩ := hstep
      have hmoves := (h.ok c (List.mem_of_getElem? hc)).act hact
      exact ⟨(stop_apply ..).trans hdone, work_apply hc (hmoves.less hstopped)⟩
  | closeListener => simp [StreamConns.step, hdone] at hstep
  | takeMap => simp [StreamConns.step, hdone] at hstep
  | closeClient i =>
      simp only [StreamConns.step, Option.bind_eq_bind, Option.bind_eq_some_iff] at hstep
      obtain ⟨c, hc, hstep⟩ := hstep
      rw [hspared c (List.mem_of_getElem? hc), if_neg (by decide)] at hstep
      cases hstep
  | closeBackend i =>
      simp only [StreamConns.step, Option.bind_eq_bind, Option.bind_eq_some_iff] at hstep
      obtain ⟨c, hc, hstep⟩ := hstep
      rw [hspared c (List.mem_of_getElem? hc), if_neg (by decide)] at hstep
      cases hstep
  | closedAll => simp [StreamConns.step, hdone] at hstep

theorem Inv.run_done {labels : List Label} (h : Inv l) (hdone : l.stop = .done)
    (hrun : run (StreamConns.step spec) l labels = some l') :
    Inv l' ∧ l'.stop = .done ∧ l'.work + labels.length ≤ l.work := by
  induction labels generalizing l with
  | nil =>
      obtain rfl : l = l' := by simpa using hrun
      exact ⟨h, hdone, Nat.le_refl _⟩
  | cons label labels ih =>
      obtain ⟨next, hnext, hrest⟩ := run_cons_eq_some.mp hrun
      obtain ⟨hnextDone, hless⟩ := h.step_done hdone hnext
      obtain ⟨hinv, hstop, hwork⟩ := ih (h.step hnext) hnextDone hrest
      refine ⟨hinv, hstop, ?_⟩
      rw [List.length_cons]
      omega

/-! ### Coming to an end

The measure goes down with every step, so what remains is that a connection which is not done
can always take one. -/

/-- Whoever has a connection can go on without traffic, until the connection is closed. -/
theorem Conn.Ok.exists_silent (h : c.Ok l.stopped .done) (hstopped : l.stopped = true)
    (hphase : c.phase ≠ .done) : ∃ event, ¬ c.Waits event ∧ c.act spec l event ≠ none := by
  have hspared : c.doom = .spared := by
    by_contra hdoom
    cases h.doomed hdoom
  have huntracked : c.tracked = false := by
    by_contra htracked
    rw [Bool.not_eq_false] at htracked
    exact absurd (h.map htracked) (by simp [hstopped])
  have hraw : c.phase.listed = true → c.raw = false := by
    intro hlisted
    by_contra hopen
    rw [Bool.not_eq_false] at hopen
    rcases h.listed hopen hlisted with htracked | hdoom
    · rw [huntracked] at htracked
      cases htracked
    · rw [hspared] at hdoom
      cases hdoom
  have hbackend : c.phase = .splice → c.backend ≠ some true := by
    intro hsplice hopen
    rcases h.open_ hopen with hother | hother | ⟨-, -, htracked | hdoom⟩
    · rw [hsplice] at hother
      cases hother
    · rw [hsplice] at hother
      cases hother
    · rw [huntracked] at htracked
      cases htracked
    · exact hdoom hspared
  have hcounted := h.counted
  cases hp : c.phase with
  | done => exact absurd hp hphase
  | refused | overflow | untracked | closeBackend | closeRaw | untrack | freeSlot =>
      exact ⟨.go, id, by simp [Conn.act, hp]⟩
  | accepted | tracked | check client | acquire client | attach =>
      refine ⟨.go, id, ?_⟩
      simp only [Conn.act, hp]
      split_ifs <;> exact Option.some_ne_none _
  | release =>
      rw [hp] at hcounted
      obtain ⟨ip, hip⟩ := Option.isSome_iff_exists.mp hcounted
      refine ⟨.go, id, ?_⟩
      simp [Conn.act, hp, hip]
  | header =>
      by_cases hreads : spec.readsHeader c.peer = true
      · refine ⟨.header none, ?_, by simp [Conn.act, hp, hreads]⟩
        simp [Conn.Waits, hraw (by rw [hp]; rfl)]
      · exact ⟨.go, id, by simp [Conn.act, hp, hreads]⟩
  | hello =>
      by_cases hreads : spec.readsHello = true
      · refine ⟨.hello false, ?_, by simp [Conn.act, hp, hreads]⟩
        simp [Conn.Waits, hraw (by rw [hp]; rfl)]
      · exact ⟨.go, id, by simp [Conn.act, hp, hreads]⟩
  | dial => exact ⟨.dialled false, id, by simp [Conn.act, hp]⟩
  | announce => exact ⟨.announced false, id, by simp [Conn.act, hp]⟩
  | splice => exact ⟨.spliced, hbackend hp, by simp [Conn.act, hp]⟩

/-- Where nothing happens any more without traffic, nothing is left. -/
theorem Inv.empty (h : Inv l) (hdone : l.stop = .done)
    (hstuck : ∀ label, Silent l label → StreamConns.step spec l label = none) : Empty l := by
  have hstopped : l.stopped = true := h.stopped.mpr (Or.inr hdone)
  have hphase : ∀ c ∈ l.conns, c.phase = .done := by
    intro c hc
    by_contra hphase
    have hok := h.ok c hc
    rw [hdone] at hok
    obtain ⟨event, hwaits, hact⟩ := @Conn.Ok.exists_silent spec l c hok hstopped hphase
    obtain ⟨i, hi⟩ := List.mem_iff_getElem?.mp hc
    have hnone := hstuck (.act i event) (by
      intro d hd
      obtain rfl : c = d := Option.some.inj (hi.symm.trans hd)
      exact hwaits)
    obtain ⟨⟨c', effect⟩, hsome⟩ := Option.ne_none_iff_exists'.mp hact
    simp [StreamConns.step, hi, hsome] at hnone
  have hcounted : ∀ ip, l.conns.countP (Conn.holds ip) = 0 := by
    intro ip
    rw [List.countP_eq_zero]
    intro c hc
    have hsource := (h.ok c hc).counted
    rw [hphase c hc] at hsource
    have hnone : c.source = none := by simpa using hsource
    simp [Conn.holds, hnone]
  constructor
  · intro c hc
    have hok := h.ok c hc
    have hdoneC := hphase c hc
    refine ⟨hok.shut (by rw [hdoneC]; rfl), ?_⟩
    intro hopen
    rcases hok.open_ hopen with hother | hother | ⟨hother, -⟩
    · rw [hdoneC] at hother
      cases hother
    · rw [hdoneC] at hother
      cases hother
    · rw [hdoneC] at hother
      cases hother
  · rw [h.slots, List.countP_eq_zero]
    intro c hc
    rw [hphase c hc]
    exact Bool.false_ne_true
  · intro ip
    cases hn : l.perIP.lookup ip with
    | none => rfl
    | some n =>
        have hzero := h.counted ip
        rw [hcounted ip, Listener.count, hn, Option.getD_some] at hzero
        have hpos := h.positive ip n hn
        omega

/-- **A stopped listener holds nothing.** -/
theorem stopped_holds_nothing (spec : Spec) (l : Listener) (hreach : Reachable (step spec) start l)
    (hdone : l.stop = .done) : Drains spec l := by
  have hinv : Inv l := hreach.invariant inv_start fun _ _ _ h hstep => h.step hstep
  refine ⟨hinv.slots, hinv.counted, ?_, ?_⟩
  · intro ip
    rw [hinv.slots]
    apply List.countP_mono_left
    intro c hc hholds
    have hsource := (hinv.ok c hc).counted
    rw [of_decide_eq_true hholds] at hsource
    cases hp : c.phase <;> simp [hp] at hsource ⊢
  · intro labels l' hrun
    obtain ⟨hinv', hdone', hwork⟩ := hinv.run_done hdone hrun
    exact ⟨by omega, fun hstuck => hinv'.empty hdone' hstuck⟩

/-- Two clients; the second one's backend is being dialled while the listener stops. -/
def lateDial : List Label :=
  .accept "203.0.113.7:4711" :: List.replicate 6 (.act 0 .go) ++
    [.act 0 (.dialled true), .act 0 .go, .act 0 (.announced true), .accept "198.51.100.2:5050"] ++
    List.replicate 6 (.act 1 .go) ++
    [.closeListener, .takeMap, .closeClient 1, .closeClient 0, .closeBackend 0, .closedAll,
      .act 1 (.dialled true)]

theorem stopped_holds_nothing_lateDial :
    ∃ l, run (step ⟨2, 1, fun _ => false, fun _ => true, false⟩) start lateDial = some l ∧
      l.slots = 2 ∧
        l.conns.map (fun c => (c.raw, c.backend)) = [(false, some false), (false, some true)] ∧
      Drains ⟨2, 1, fun _ => false, fun _ => true, false⟩ l := by
  obtain ⟨l, hrun, hseen⟩ :
      ∃ l, run (step ⟨2, 1, fun _ => false, fun _ => true, false⟩) start lateDial = some l ∧
        (l.stop, l.slots, l.conns.map fun c => (c.raw, c.backend)) =
          (.done, 2, [(false, some false), (false, some true)]) :=
    Option.map_eq_some_iff.mp (by decide +kernel)
  obtain ⟨hdone, hseen⟩ := Prod.mk.inj hseen
  obtain ⟨hslots, hconns⟩ := Prod.mk.inj hseen
  exact ⟨l, hrun, hslots, hconns, stopped_holds_nothing _ l ⟨lateDial, hrun⟩ hdone⟩

end Quicgate.StreamConns
