import Quicgate.GoMaps
import Quicgate.GoNet
import Quicgate.TransitionSystem

/-!
# The sessions of a UDP stream listener

`startUDP` of `internal/engine/streams.go`: the read loop, a reply reader for every
session, the sweeper and `stop`, which run at the same time.  What is done under the
mutex is one step; a packet that was read and is not handled yet, a reply reader that
has seen its error, and the parts of `stop` are states in between.  Connections to the
upstream are numbered in the order in which they are dialled.

`sessions_accounted` is about the counters and caps in every state, and
`stopped_listener_holds_nothing` about what is left when `stop` has returned; the latter asks
that no packet is handled late (`late_packet_keeps_session`).
-/

namespace Quicgate.UdpSessions

open Quicgate.GoMaps Quicgate.TransitionSystem

/-! ### The listener

A session has one connection to the upstream and one reply reader, and may come back under the
same client address with another connection. -/

structure UdpSession where
  conn : Nat
  ip : String
  lastSeen : Int
deriving DecidableEq, Repr

inductive ReadPhase where
  | reading
  | holding (ck : String) -- a packet was read, the lock is not taken yet
  | writing (conn : Nat)
  | ended
deriving DecidableEq, Repr

inductive ReaderPhase where
  | reading
  | failed -- the read failed, the lock is not taken yet
  | removed -- the table is done, the connection is not closed yet
  | ended
deriving DecidableEq, Repr

structure Reader where
  conn : Nat
  ck : String
  phase : ReaderPhase
deriving DecidableEq, Repr

/-- The variables of `startUDP`. `upstreams` are the connections that are open, and `opened` and
`closed` the calls on the counters of the port. -/
structure Listener where
  sessions : GoMap String UdpSession
  perIP : GoMap String Int
  opened : Nat
  closed : Nat
  upstreams : List Nat
  nextConn : Nat
  reading : ReadPhase
  readers : List Reader
  done : Bool
  socketClosed : Bool
  stopped : Bool

def start : Listener where
  sessions := ∅
  perIP := ∅
  opened := 0
  closed := 0
  upstreams := []
  nextConn := 0
  reading := .reading
  readers := []
  done := false
  socketClosed := false
  stopped := false

def udpSessionIdle : Int := 2 * 60 * 1000000000

def clientIP (remoteAddr : String) : String :=
  match GoNet.splitHostPort remoteAddr.toList with
  | some (host, _) => String.ofList host
  | none => remoteAddr

def Listener.forget (l : Listener) (k : String) (s : UdpSession) : Listener :=
  let n := (l.perIP.lookup s.ip).getD 0 - 1
  { l with
    sessions := l.sessions.erase k
    perIP := if n ≤ 0 then l.perIP.erase s.ip else l.perIP.insert s.ip n
    closed := l.closed + 1 }

def Listener.close (l : Listener) (conn : Nat) : Listener :=
  { l with upstreams := l.upstreams.filter (· != conn) }

/-- The sweeper and `stop`: a session that goes with its connection. -/
def Listener.drop (l : Listener) (entry : String × UdpSession) : Listener :=
  (l.close entry.2.conn).forget entry.1 entry.2

/-- A new session with its reply reader. -/
def Listener.add (l : Listener) (ck srcIP : String) (now : Int) : Listener :=
  let sess : UdpSession := ⟨l.nextConn, srcIP, now⟩
  { l with
    sessions := l.sessions.insert ck sess
    perIP := l.perIP.insert srcIP ((l.perIP.lookup srcIP).getD 0 + 1)
    opened := l.opened + 1
    upstreams := l.nextConn :: l.upstreams
    nextConn := l.nextConn + 1
    readers := l.readers ++ [⟨l.nextConn, ck, .reading⟩]
    reading := .writing l.nextConn }

section Steps

variable (maxSessions maxPerIP : Nat) (allowed : String → Bool)

/-- The locked part of the read loop, for a packet from `ck`; `dialed` is whether the upstream was
reached. -/
def Listener.handle (l : Listener) (ck : String) (dialed : Bool) (now : Int) : Listener :=
  match l.sessions.lookup ck with
  | some sess => { l with
      sessions := l.sessions.insert ck { sess with lastSeen := now }
      reading := .writing sess.conn }
  | none =>
      let srcIP := clientIP ck
      if l.sessions.len ≥ maxSessions then { l with reading := .reading }
      else if (l.perIP.lookup srcIP).getD 0 ≥ maxPerIP then { l with reading := .reading }
      else if !dialed then { l with reading := .reading }
      else l.add ck srcIP now

inductive Label where
  | receive (ck : String)
  | readError
  | handle (dialed : Bool) (now : Int)
  | write
  | replyError (i : Nat)
  | replyForget (i : Nat)
  | replyClose (i : Nat)
  | sweep (now : Int)
  | stopSignal -- `close(done)`
  | closeSocket
  | stopEmpty -- the locked part of `stop`, and its return
deriving DecidableEq, Repr

def Listener.setReader (l : Listener) (i : Nat) (r : Reader) (phase : ReaderPhase) : Listener :=
  { l with readers := l.readers.set i { r with phase } }

/-- The locked part of a reply reader: it removes its own session only. -/
def Listener.replyForget (l : Listener) (r : Reader) : Listener :=
  match l.sessions.lookup r.ck with
  | some s => if s.conn = r.conn then l.forget r.ck s else l
  | none => l

def step (l : Listener) : Label → Option Listener
  | .receive ck =>
      -- a closed socket gives no packets
      if l.reading = .reading ∧ l.socketClosed = false then
        some (if allowed ck then { l with reading := .holding ck } else l)
      else none
  | .readError => if l.reading = .reading then some { l with reading := .ended } else none
  | .handle dialed now =>
      match l.reading with
      | .holding ck => some (l.handle maxSessions maxPerIP ck dialed now)
      | _ => none
  | .write =>
      match l.reading with
      | .writing _ => some { l with reading := .reading }
      | _ => none
  | .replyError i =>
      match l.readers[i]? with
      | some r => if r.phase = .reading then some (l.setReader i r .failed) else none
      | none => none
  | .replyForget i =>
      match l.readers[i]? with
      | some r =>
          if r.phase = .failed then some ((l.replyForget r).setReader i r .removed) else none
      | none => none
  | .replyClose i =>
      match l.readers[i]? with
      | some r => if r.phase = .removed then some ((l.close r.conn).setReader i r .ended) else none
      | none => none
  | .sweep now => some
      ((l.sessions.pairs.filter fun entry => now - entry.2.lastSeen > udpSessionIdle).foldl
        Listener.drop l)
  | .stopSignal => if l.done then none else some { l with done := true }
  | .closeSocket => if l.done then some { l with socketClosed := true } else none
  | .stopEmpty =>
      if l.socketClosed then some { l.sessions.pairs.foldl Listener.drop l with stopped := true }
      else none

end Steps

/-! ### Accounting

The counters of addresses are the numbers of their sessions; `forget` takes a session out of
both. -/

def Listener.held (l : Listener) (ip : String) : Nat :=
  l.sessions.pairs.countP fun entry => entry.2.ip == ip

/-- The counters agree with the table, and the caps are kept. -/
structure Accounted (maxSessions maxPerIP : Nat) (l : Listener) : Prop where
  counted : ∀ ip, (l.perIP.lookup ip).getD 0 = l.held ip
  positive : ∀ ip n, l.perIP.lookup ip = some n → 0 < n
  perCap : ∀ ip, l.held ip ≤ maxPerIP
  cap : l.sessions.len ≤ maxSessions
  ports : l.opened = l.closed + l.sessions.len

section Accounting

variable {maxSessions maxPerIP : Nat} {allowed : String → Bool} {l next : Listener}

/-- The accounts are about the table and the counters. -/
theorem Accounted.congr (h : Accounted maxSessions maxPerIP l)
    (hsessions : next.sessions = l.sessions)
    (hperIP : next.perIP = l.perIP) (hopened : next.opened = l.opened)
    (hclosed : next.closed = l.closed) : Accounted maxSessions maxPerIP next := by
  have hheld : ∀ ip, next.held ip = l.held ip := by
    intro ip
    rw [Listener.held, Listener.held, hsessions]
  constructor
  · intro ip
    rw [hperIP, hheld]
    exact h.counted ip
  · intro ip n
    rw [hperIP]
    exact h.positive ip n
  · intro ip
    rw [hheld]
    exact h.perCap ip
  · rw [hsessions]
    exact h.cap
  · rw [hsessions, hopened, hclosed]
    exact h.ports

theorem held_erase {k : String} {s : UdpSession} (h : l.sessions.lookup k = some s) (ip : String) :
    (GoMap.pairs (l.sessions.erase k)).countP (fun entry => entry.2.ip == ip) +
      (s.ip == ip).toNat = l.held ip :=
  GoMap.countP_erase_add h fun entry => entry.2.ip == ip

theorem len_erase {k : String} {s : UdpSession} (h : l.sessions.lookup k = some s) :
    GoMap.len (l.sessions.erase k) + 1 = l.sessions.len := by
  rw [GoMap.len_eq_countP, GoMap.len_eq_countP]
  exact GoMap.countP_erase_add h fun _ => true

theorem Accounted.forget (h : Accounted maxSessions maxPerIP l) {k : String} {s : UdpSession}
    (hs : l.sessions.lookup k = some s) : Accounted maxSessions maxPerIP (l.forget k s) := by
  have hheld : ∀ ip, (l.forget k s).held ip + (s.ip == ip).toNat = l.held ip := held_erase hs
  have hlen : (l.forget k s).sessions.len + 1 = l.sessions.len := len_erase hs
  have hown := hheld s.ip
  rw [beq_self_eq_true, Bool.toNat_true] at hown
  have hother : ∀ ip, ip ≠ s.ip → (l.forget k s).held ip = l.held ip := by
    intro ip hip
    have hne : (s.ip == ip) = false := beq_eq_false_iff_ne.mpr hip.symm
    have hip' := hheld ip
    rw [hne] at hip'
    exact hip'
  have hcount := h.counted s.ip
  have hlookup : ∀ ip, (l.forget k s).perIP.lookup ip =
      if ip = s.ip then (if (l.perIP.lookup s.ip).getD 0 - 1 ≤ 0 then none
        else some ((l.perIP.lookup s.ip).getD 0 - 1))
      else l.perIP.lookup ip := by
    intro ip
    simp only [Listener.forget]
    by_cases hip : ip = s.ip
    · subst hip
      split <;> simp
    · rw [if_neg hip]
      split
      · exact AList.lookup_erase_ne hip
      · exact AList.lookup_insert_ne hip
  constructor
  · intro ip
    rw [hlookup]
    split
    · rename_i hip
      subst hip
      split
      · rename_i hzero
        simp only [Option.getD_none]
        omega
      · simp only [Option.getD_some]
        omega
    · rename_i hip
      rw [h.counted ip, hother ip hip]
  · intro ip n hn
    rw [hlookup] at hn
    split at hn
    · split at hn
      · cases hn
      · rename_i hpos
        obtain rfl := Option.some.inj hn
        omega
    · exact h.positive ip n hn
  · intro ip
    have hle := hheld ip
    have hcap := h.perCap ip
    omega
  · have hcap := h.cap
    omega
  · have hports := h.ports
    change l.opened = l.closed + 1 + _
    omega

theorem Accounted.drop (h : Accounted maxSessions maxPerIP l) {entry : String × UdpSession}
    (hs : l.sessions.lookup entry.1 = some entry.2) :
    Accounted maxSessions maxPerIP (l.drop entry) := by
  have hclose : Accounted maxSessions maxPerIP (l.close entry.2.conn) := h.congr rfl rfl rfl rfl
  exact hclose.forget hs

theorem sessions_drop (l : Listener) (entry : String × UdpSession) :
    (l.drop entry).sessions = l.sessions.erase entry.1 := rfl

/-- Sessions of the table that are dropped one after the other. -/
theorem Accounted.dropAll (h : Accounted maxSessions maxPerIP l) {todo : List (String × UdpSession)}
    (hkeys : (todo.map Prod.fst).Nodup)
    (hin : ∀ entry ∈ todo, l.sessions.lookup entry.1 = some entry.2) :
    Accounted maxSessions maxPerIP (todo.foldl Listener.drop l) := by
  induction todo generalizing l with
  | nil => exact h
  | cons entry rest ih =>
      rw [List.map_cons, List.nodup_cons] at hkeys
      refine ih (h.drop (hin entry List.mem_cons_self)) hkeys.2 ?_
      intro other hother
      have hne : other.1 ≠ entry.1 := fun heq => hkeys.1 (heq ▸ List.mem_map_of_mem hother)
      rw [sessions_drop, AList.lookup_erase_ne hne]
      exact hin other (List.mem_cons_of_mem _ hother)

theorem Accounted.add (h : Accounted maxSessions maxPerIP l) {ck srcIP : String} {now : Int}
    (hnew : l.sessions.lookup ck = none) (hroom : l.sessions.len < maxSessions)
    (hshare : (l.perIP.lookup srcIP).getD 0 < maxPerIP) :
    Accounted maxSessions maxPerIP (l.add ck srcIP now) := by
  have hheld : ∀ ip, (l.add ck srcIP now).held ip = l.held ip + (srcIP == ip).toNat := by
    intro ip
    have hcount := GoMap.countP_insert l.sessions ck ⟨l.nextConn, srcIP, now⟩
      fun entry => entry.2.ip == ip
    rw [GoMap.pairs_erase_of_none hnew] at hcount
    exact hcount
  have hlen : (l.add ck srcIP now).sessions.len = l.sessions.len + 1 := by
    have hcount := GoMap.countP_insert l.sessions ck ⟨l.nextConn, srcIP, now⟩ fun _ => true
    rw [GoMap.pairs_erase_of_none hnew, ← GoMap.len_eq_countP, ← GoMap.len_eq_countP] at hcount
    exact hcount
  have hcount := h.counted srcIP
  have hlookup : ∀ ip, (l.add ck srcIP now).perIP.lookup ip =
      if ip = srcIP then some ((l.perIP.lookup srcIP).getD 0 + 1) else l.perIP.lookup ip := by
    intro ip
    simp only [Listener.add]
    by_cases hip : ip = srcIP
    · subst hip
      simp
    · rw [if_neg hip]
      exact AList.lookup_insert_ne hip
  have hother : ∀ ip, ip ≠ srcIP → (l.add ck srcIP now).held ip = l.held ip := by
    intro ip hip
    rw [hheld, beq_eq_false_iff_ne.mpr hip.symm]
    rfl
  have hown := hheld srcIP
  rw [beq_self_eq_true, Bool.toNat_true] at hown
  constructor
  · intro ip
    rw [hlookup]
    split
    · rename_i hip
      subst hip
      rw [Option.getD_some]
      omega
    · rename_i hip
      rw [h.counted ip, hother ip hip]
  · intro ip n hn
    rw [hlookup] at hn
    split at hn
    · obtain rfl := Option.some.inj hn
      omega
    · exact h.positive ip n hn
  · intro ip
    by_cases hip : ip = srcIP
    · subst hip
      omega
    · rw [hother ip hip]
      exact h.perCap ip
  · omega
  · have hports := h.ports
    change l.opened + 1 = l.closed + _
    omega

/-- A packet of a session that is there. -/
theorem Accounted.touch (h : Accounted maxSessions maxPerIP l) {ck : String} {sess : UdpSession}
    (hs : l.sessions.lookup ck = some sess) (now : Int) (phase : ReadPhase) :
    Accounted maxSessions maxPerIP
      { l with sessions := l.sessions.insert ck { sess with lastSeen := now },
               reading := phase } := by
  have hheld : ∀ p : String × UdpSession →
    Bool, p (ck, { sess with lastSeen := now }) = p (ck, sess) →
      (GoMap.pairs (l.sessions.insert ck { sess with lastSeen := now })).countP p =
        l.sessions.pairs.countP p := by
    intro p hp
    rw [GoMap.countP_insert, hp]
    exact GoMap.countP_erase_add hs p
  have hlen : GoMap.len (l.sessions.insert ck { sess with lastSeen := now }) = l.sessions.len := by
    rw [GoMap.len_eq_countP, GoMap.len_eq_countP]
    exact hheld (fun _ => true) rfl
  refine ⟨?_, h.positive, ?_, ?_, ?_⟩
  · intro ip
    exact (h.counted ip).trans (congrArg Nat.cast (hheld (fun entry => entry.2.ip == ip) rfl).symm)
  · intro ip
    exact (hheld (fun entry => entry.2.ip == ip) rfl).le.trans (h.perCap ip)
  · exact hlen.le.trans h.cap
  · exact h.ports.trans (congrArg (l.closed + ·) hlen.symm)

theorem Accounted.handle (h : Accounted maxSessions maxPerIP l) (ck : String) (dialed : Bool)
    (now : Int) : Accounted maxSessions maxPerIP (l.handle maxSessions maxPerIP ck dialed now) := by
  unfold Listener.handle
  split
  · rename_i sess hs
    exact h.touch hs now (.writing sess.conn)
  · rename_i hnew
    dsimp only
    split
    · exact h.congr rfl rfl rfl rfl
    · rename_i hroom
      split
      · exact h.congr rfl rfl rfl rfl
      · rename_i hshare
        split
        · exact h.congr rfl rfl rfl rfl
        · exact h.add hnew (by omega) (by omega)

theorem Accounted.replyForget (h : Accounted maxSessions maxPerIP l) (r : Reader) :
    Accounted maxSessions maxPerIP (l.replyForget r) := by
  unfold Listener.replyForget
  split
  · rename_i s hs
    split
    · exact h.forget hs
    · exact h
  · exact h

theorem accounted_start (maxSessions maxPerIP : Nat) : Accounted maxSessions maxPerIP start where
  counted ip := by simp [start, Listener.held, GoMap.pairs]
  positive ip n h := by simp [start] at h
  perCap ip := by simp [start, Listener.held, GoMap.pairs]
  cap := by simp [start, GoMap.len, GoMap.pairs]
  ports := by simp [start, GoMap.len, GoMap.pairs]

theorem Accounted.step {label : Label} (h : Accounted maxSessions maxPerIP l)
    (hstep : step maxSessions maxPerIP allowed l label = some next) :
    Accounted maxSessions maxPerIP next := by
  cases label with
  | receive ck =>
      simp only [UdpSessions.step] at hstep
      split at hstep
      · obtain rfl := Option.some.inj hstep
        split
        · exact h.congr rfl rfl rfl rfl
        · exact h
      · cases hstep
  | readError =>
      simp only [UdpSessions.step] at hstep
      split at hstep
      · obtain rfl := Option.some.inj hstep
        exact h.congr rfl rfl rfl rfl
      · cases hstep
  | handle dialed now =>
      simp only [UdpSessions.step] at hstep
      split at hstep
      · obtain rfl := Option.some.inj hstep
        exact h.handle _ dialed now
      · cases hstep
  | write =>
      simp only [UdpSessions.step] at hstep
      split at hstep
      · obtain rfl := Option.some.inj hstep
        exact h.congr rfl rfl rfl rfl
      · cases hstep
  | replyError i =>
      simp only [UdpSessions.step] at hstep
      split at hstep
      · split at hstep
        · obtain rfl := Option.some.inj hstep
          exact h.congr rfl rfl rfl rfl
        · cases hstep
      · cases hstep
  | replyForget i =>
      simp only [UdpSessions.step] at hstep
      split at hstep
      · rename_i r _
        split at hstep
        · obtain rfl := Option.some.inj hstep
          exact (h.replyForget r).congr rfl rfl rfl rfl
        · cases hstep
      · cases hstep
  | replyClose i =>
      simp only [UdpSessions.step] at hstep
      split at hstep
      · split at hstep
        · obtain rfl := Option.some.inj hstep
          exact h.congr rfl rfl rfl rfl
        · cases hstep
      · cases hstep
  | sweep now =>
      obtain rfl := Option.some.inj hstep
      refine h.dropAll ?_ ?_
      · exact (GoMap.nodup_keys_pairs l.sessions).sublist (List.filter_sublist.map Prod.fst)
      · intro entry hentry
        exact GoMap.mem_pairs.mp (List.mem_filter.mp hentry).1
  | stopSignal =>
      simp only [UdpSessions.step] at hstep
      split at hstep
      · cases hstep
      · obtain rfl := Option.some.inj hstep
        exact h.congr rfl rfl rfl rfl
  | closeSocket =>
      simp only [UdpSessions.step] at hstep
      split at hstep
      · obtain rfl := Option.some.inj hstep
        exact h.congr rfl rfl rfl rfl
      · cases hstep
  | stopEmpty =>
      simp only [UdpSessions.step] at hstep
      split at hstep
      · obtain rfl := Option.some.inj hstep
        have hdropped := h.dropAll (GoMap.nodup_keys_pairs l.sessions)
          fun entry hentry => GoMap.mem_pairs.mp hentry
        exact hdropped.congr rfl rfl rfl rfl
      · cases hstep

/-- A reply reader leaves every session that is not its own. -/
theorem lookup_replyForget {r : Reader} {ck : String} {sess : UdpSession}
    (hs : l.sessions.lookup ck = some sess) (hconn : sess.conn ≠ r.conn) :
    (l.replyForget r).sessions.lookup ck = some sess := by
  unfold Listener.replyForget
  split
  · rename_i s hown
    split
    · rename_i heq
      have hne : ck ≠ r.ck := by
        rintro rfl
        obtain rfl := Option.some.inj (hs.symm.trans hown)
        exact hconn heq
      exact (AList.lookup_erase_ne hne).trans hs
    · exact hs
  · exact hs

end Accounting

/-! ### In every state

The accounts hold between any two locked parts, and a reply reader only ever takes its own
session away. -/

/-- In every state between the locked parts, the counters of the addresses are the numbers of their
sessions, no cap is passed, the counters of the port agree with the table, and a reply reader
removes no session but its own: one that came back under its client address has another
connection. -/
theorem sessions_accounted {maxSessions maxPerIP : Nat} {allowed : String → Bool} {l : Listener}
    (hreach : Reachable (step maxSessions maxPerIP allowed) start l) :
    (∀ ip, l.perIP.lookup ip = if l.held ip = 0 then none else some (l.held ip : Int)) ∧
    (∀ ip n, l.perIP.lookup ip = some n → 0 < n ∧ n ≤ maxPerIP) ∧
    l.sessions.len ≤ maxSessions ∧ l.opened = l.closed + l.sessions.len ∧
    ∀ i r next, l.readers[i]? = some r →
      step maxSessions maxPerIP allowed l (.replyForget i) = some next →
      ∀ ck sess, l.sessions.lookup ck = some sess → sess.conn ≠ r.conn →
        next.sessions.lookup ck = some sess := by
  have h : Accounted maxSessions maxPerIP l :=
    hreach.invariant (accounted_start maxSessions maxPerIP) fun _ _ _ hs hstep => hs.step hstep
  refine ⟨?_, ?_, h.cap, h.ports, ?_⟩
  · intro ip
    have hcount := h.counted ip
    cases hlook : l.perIP.lookup ip with
    | none =>
        rw [hlook, Option.getD_none] at hcount
        rw [if_pos (by omega)]
    | some n =>
        have hpos := h.positive ip n hlook
        rw [hlook, Option.getD_some] at hcount
        rw [if_neg (by omega), hcount]
  · intro ip n hlook
    have hcount := h.counted ip
    have hcap := h.perCap ip
    rw [hlook, Option.getD_some] at hcount
    exact ⟨h.positive ip n hlook, by omega⟩
  · intro i r next hr hstep ck sess hs hconn
    simp only [step, hr] at hstep
    split at hstep
    · obtain rfl := Option.some.inj hstep
      exact lookup_replyForget hs hconn
    · cases hstep

def busyRun : List Label :=
  [.receive "192.0.2.1:4000", .handle true 0, .write, .receive "192.0.2.1:4001", .handle true 1,
    .receive "192.0.2.2:53", .handle true 2, .write, .replyError 0, .replyForget 0]

theorem sessions_accounted_busyRun : ∃ l, run (step 2 1 fun _ => true) start busyRun = some l ∧
    l.sessions.len = 1 ∧ l.opened = l.closed + l.sessions.len := by
  obtain ⟨l, hrun, hlen⟩ := Option.map_eq_some_iff.mp
    (show (run (step 2 1 fun _ => true) start busyRun).map (fun l => l.sessions.len) = some 1 by
      decide +kernel)
  exact ⟨l, hrun, hlen, (sessions_accounted ⟨busyRun, hrun⟩).2.2.2.1⟩

/-! ### What a stopped listener holds

Every open connection has somebody who will close it, and a stopped listener has nobody left. -/

/-- Every connection that is open belongs to a session, or to a reply reader that is about to close
it; a stopped listener has neither. -/
structure Held (l : Listener) : Prop where
  owned : ∀ conn ∈ l.upstreams, (∃ ck sess, l.sessions.lookup ck = some sess ∧ sess.conn = conn) ∨
    ∃ r ∈ l.readers, r.conn = conn ∧ r.phase = .removed
  released : l.stopped = true → l.socketClosed = true ∧ l.sessions = ∅ ∧ l.upstreams = []

/-- The step does not pass over the end of the listener: after the locked part of `stop` no packet
that was read before it reaches the upstream, and at that part no reply reader is between its
session and its connection. -/
def Settled (l : Listener) : Label → Prop
  | .handle dialed _ => l.stopped = true → dialed = false
  | .stopEmpty => ∀ r ∈ l.readers, r.phase = .removed → r.conn ∉ l.upstreams
  | _ => True

instance (l : Listener) (label : Label) : Decidable (Settled l label) :=
  match label with
  | .handle _ _ => inferInstanceAs (Decidable (_ → _))
  | .stopEmpty => inferInstanceAs (Decidable (∀ r ∈ l.readers, r.phase = .removed → _))
  | .receive _ | .readError | .write | .replyError _ | .replyForget _ | .replyClose _ | .sweep _
  | .stopSignal | .closeSocket => inferInstanceAs (Decidable True)

section Stopping

variable {maxSessions maxPerIP : Nat} {allowed : String → Bool} {l next : Listener}

theorem held_start : Held start where
  owned conn h := by simp [start] at h
  released h := by simp [start] at h

/-- A step that leaves the table and the connections. -/
theorem Held.congr (h : Held l) (hsessions : next.sessions = l.sessions)
    (hupstreams : next.upstreams = l.upstreams)
    (hreaders : ∀ r ∈ l.readers, r.phase = .removed → r ∈ next.readers)
    (hstopped : next.stopped = l.stopped)
    (hsocket : l.socketClosed = true → next.socketClosed = true) :
    Held next := by
  constructor
  · intro conn hconn
    rw [hupstreams] at hconn
    rcases h.owned conn hconn with ⟨ck, sess, hs, heq⟩ | ⟨r, hr, heq, hphase⟩
    · exact Or.inl ⟨ck, sess, by rw [hsessions]; exact hs, heq⟩
    · exact Or.inr ⟨r, hreaders r hr hphase, heq, hphase⟩
  · intro hstop
    rw [hstopped] at hstop
    obtain ⟨hclosed, hempty, hnone⟩ := h.released hstop
    rw [hsessions, hupstreams]
    exact ⟨hsocket hclosed, hempty, hnone⟩

theorem mem_setReader {i : Nat} {r other : Reader} {phase : ReaderPhase}
    (hr : l.readers[i]? = some r)
    (hother : other ∈ l.readers) (hne : other ≠ r) : other ∈ (l.setReader i r phase).readers := by
  obtain ⟨j, hj, rfl⟩ := List.getElem_of_mem hother
  have hij : i ≠ j := by
    rintro rfl
    rw [List.getElem?_eq_getElem hj] at hr
    exact hne (Option.some.inj hr)
  refine List.mem_of_getElem? (i := j) ?_
  rw [Listener.setReader, List.getElem?_set_ne hij, List.getElem?_eq_getElem hj]

theorem mem_setReader_self {i : Nat} {r : Reader} {phase : ReaderPhase}
    (hr : l.readers[i]? = some r) :
    { r with phase } ∈ (l.setReader i r phase).readers := by
  have hi := (List.getElem?_eq_some_iff.mp hr).1
  refine List.mem_of_getElem? (i := i) ?_
  rw [Listener.setReader, List.getElem?_set_self hi]

theorem lookup_dropAll (l : Listener) (todo : List (String × UdpSession)) (k : String) :
    (todo.foldl Listener.drop l).sessions.lookup k =
      if k ∈ todo.map Prod.fst then none else l.sessions.lookup k := by
  induction todo generalizing l with
  | nil => rfl
  | cons entry rest ih =>
      rw [List.foldl_cons, ih, sessions_drop, List.map_cons]
      by_cases hkey : k = entry.1
      · subst hkey
        simp
      · rw [AList.lookup_erase_ne hkey]
        simp only [List.mem_cons, hkey, false_or]

theorem mem_upstreams_dropAll (l : Listener) (todo : List (String × UdpSession)) (conn : Nat) :
    conn ∈ (todo.foldl Listener.drop l).upstreams ↔
      conn ∈ l.upstreams ∧ ∀ entry ∈ todo, entry.2.conn ≠ conn := by
  induction todo generalizing l with
  | nil => simp
  | cons entry rest ih =>
      rw [List.foldl_cons, ih]
      have hmem : conn ∈ (l.drop entry).upstreams ↔ conn ∈ l.upstreams ∧ conn ≠ entry.2.conn := by
        simp [Listener.drop, Listener.forget, Listener.close]
      rw [hmem, List.forall_mem_cons, and_assoc, ne_comm (a := conn)]

theorem dropAll_rest (l : Listener) (todo : List (String × UdpSession)) :
    (todo.foldl Listener.drop l).readers = l.readers ∧
    (todo.foldl Listener.drop l).stopped = l.stopped ∧
    (todo.foldl Listener.drop l).socketClosed = l.socketClosed := by
  induction todo generalizing l with
  | nil => exact ⟨rfl, rfl, rfl⟩
  | cons entry rest ih => exact ih (l.drop entry)

/-- The connections that are left when sessions are dropped. -/
theorem Held.owned_dropAll (h : Held l) {todo : List (String × UdpSession)}
    (hin : ∀ entry ∈ todo, l.sessions.lookup entry.1 = some entry.2) {conn : Nat}
    (hconn : conn ∈ (todo.foldl Listener.drop l).upstreams) :
    (∃ ck sess, (todo.foldl Listener.drop l).sessions.lookup ck = some sess ∧ sess.conn = conn) ∨
      ∃ r ∈ (todo.foldl Listener.drop l).readers, r.conn = conn ∧ r.phase = .removed := by
  obtain ⟨hopen, hkept⟩ := (mem_upstreams_dropAll l todo conn).mp hconn
  rw [(dropAll_rest l todo).1]
  rcases h.owned conn hopen with ⟨ck, sess, hs, heq⟩ | hreader
  · refine Or.inl ⟨ck, sess, ?_, heq⟩
    rw [lookup_dropAll, if_neg]
    · exact hs
    · intro hdropped
      obtain ⟨entry, hentry, rfl⟩ := List.mem_map.mp hdropped
      obtain rfl := Option.some.inj ((hin entry hentry).symm.trans hs)
      exact hkept entry hentry heq
  · exact Or.inr hreader

theorem Held.handle (h : Held l) {ck : String} {dialed : Bool} {now : Int}
    (hsettled : l.stopped = true → dialed = false) :
    Held (l.handle maxSessions maxPerIP ck dialed now) := by
  have hidle : Held { l with reading := .reading } := h.congr rfl rfl (fun _ hr _ => hr) rfl id
  unfold Listener.handle
  split
  · rename_i sess hs
    have hrunning : l.stopped = false := by
      by_contra hstop
      obtain ⟨-, hempty, -⟩ := h.released (by simpa using hstop)
      rw [hempty] at hs
      cases hs
    refine ⟨fun conn hconn => ?_, fun hstop => absurd hstop (by simp [hrunning])⟩
    rcases h.owned conn hconn with ⟨ck', sess', hs', heq⟩ | hreader
    · by_cases hkey : ck' = ck
      · subst hkey
        obtain rfl := Option.some.inj (hs.symm.trans hs')
        exact Or.inl ⟨ck', _, AList.lookup_insert _, heq⟩
      · exact Or.inl ⟨ck', sess', (AList.lookup_insert_ne hkey).trans hs', heq⟩
    · exact Or.inr hreader
  · rename_i hnew
    dsimp only
    split
    · exact hidle
    split
    · exact hidle
    split
    · exact hidle
    rename_i hdialed
    have hrunning : l.stopped = false := by
      by_contra hstop
      simp [hsettled (by simpa using hstop)] at hdialed
    refine ⟨fun conn hconn => ?_, fun hstop => absurd hstop (by simp [Listener.add, hrunning])⟩
    rcases List.mem_cons.mp hconn with rfl | hold
    · exact Or.inl ⟨ck, _, AList.lookup_insert _, rfl⟩
    · rcases h.owned conn hold with ⟨ck', sess', hs', heq⟩ | ⟨r, hr, hreader⟩
      · have hkey : ck' ≠ ck := by
          rintro rfl
          rw [hnew] at hs'
          cases hs'
        exact Or.inl ⟨ck', sess', (AList.lookup_insert_ne hkey).trans hs', heq⟩
      · exact Or.inr ⟨r, List.mem_append_left _ hr, hreader⟩

theorem Held.replyForget (h : Held l) {i : Nat} {r : Reader} (hr : l.readers[i]? = some r)
    (hphase : r.phase = .failed) : Held ((l.replyForget r).setReader i r .removed) := by
  have hrest : (l.replyForget r).readers = l.readers ∧ (l.replyForget r).upstreams = l.upstreams ∧
      (l.replyForget r).stopped = l.stopped ∧ (l.replyForget r).socketClosed = l.socketClosed := by
    unfold Listener.replyForget
    split
    · split <;> exact ⟨rfl, rfl, rfl, rfl⟩
    · exact ⟨rfl, rfl, rfl, rfl⟩
  obtain ⟨hreaders, hupstreams, hstopped, hsocket⟩ := hrest
  have hr' : (l.replyForget r).readers[i]? = some r := by rw [hreaders]; exact hr
  constructor
  · intro conn hconn
    change conn ∈ (l.replyForget r).upstreams at hconn
    rw [hupstreams] at hconn
    by_cases hown : conn = r.conn
    · exact Or.inr ⟨_, mem_setReader_self hr', hown.symm, rfl⟩
    · rcases h.owned conn hconn with ⟨ck, sess, hs, heq⟩ | ⟨other, hother, heq, hremoved⟩
      · exact Or.inl ⟨ck, sess, lookup_replyForget hs fun hsame => hown (heq.symm.trans hsame), heq⟩
      · refine Or.inr ⟨other, mem_setReader hr' (by rw [hreaders]; exact hother) ?_, heq, hremoved⟩
        rintro rfl
        exact hown heq.symm
  · intro hstop
    obtain ⟨hclosed, hempty, hnone⟩ := h.released (hstopped.symm.trans hstop)
    have hsame : l.replyForget r = l := by
      unfold Listener.replyForget
      rw [hempty]
      rfl
    refine ⟨hsocket.trans hclosed, ?_, hupstreams.trans hnone⟩
    change (l.replyForget r).sessions = ∅
    rw [hsame, hempty]

theorem Held.replyClose (h : Held l) {i : Nat} {r : Reader} (hr : l.readers[i]? = some r) :
    Held ((l.close r.conn).setReader i r .ended) := by
  constructor
  · intro conn hconn
    obtain ⟨hopen, hne⟩ : conn ∈ l.upstreams ∧ conn ≠ r.conn := by
      simpa [Listener.setReader, Listener.close] using hconn
    rcases h.owned conn hopen with hsession | ⟨other, hother, heq, hremoved⟩
    · exact Or.inl hsession
    · refine Or.inr ⟨other, mem_setReader (l := l.close r.conn) hr hother ?_, heq, hremoved⟩
      rintro rfl
      exact hne heq.symm
  · intro hstop
    obtain ⟨hclosed, hempty, hnone⟩ := h.released hstop
    refine ⟨hclosed, hempty, ?_⟩
    simp [Listener.setReader, Listener.close, hnone]

/-! ### The stop of a listener

The locked part of `stop` drops all sessions; what is left are reply readers that are about to
close their connections. -/

/-- The locked part of `stop`. -/
theorem Held.stopEmpty (h : Held l) (hsocket : l.socketClosed = true)
    (hsettled : ∀ r ∈ l.readers, r.phase = .removed → r.conn ∉ l.upstreams) :
    Held { l.sessions.pairs.foldl Listener.drop l with stopped := true } := by
  have hin : ∀ entry ∈ l.sessions.pairs, l.sessions.lookup entry.1 = some entry.2 :=
    fun entry hentry => GoMap.mem_pairs.mp hentry
  have hempty : ∀ k, (l.sessions.pairs.foldl Listener.drop l).sessions.lookup k = none := by
    intro k
    rw [lookup_dropAll]
    split
    · rfl
    · rename_i hnot
      by_contra hsome
      obtain ⟨sess, hs⟩ := Option.ne_none_iff_exists'.mp hsome
      exact hnot (List.mem_map.mpr ⟨(k, sess), GoMap.mem_pairs.mpr hs, rfl⟩)
  have hnone : ∀ conn, conn ∉ (l.sessions.pairs.foldl Listener.drop l).upstreams := by
    intro conn hconn
    rcases h.owned_dropAll hin hconn with ⟨ck, sess, hs, -⟩ | ⟨r, hr, heq, hremoved⟩
    · rw [hempty] at hs
      cases hs
    · rw [(dropAll_rest l _).1] at hr
      refine hsettled r hr hremoved ?_
      rw [heq]
      exact ((mem_upstreams_dropAll l _ conn).mp hconn).1
  constructor
  · intro conn hconn
    exact absurd hconn (hnone conn)
  · intro _
    refine ⟨(dropAll_rest l _).2.2.trans hsocket, ?_, List.eq_nil_iff_forall_not_mem.mpr hnone⟩
    refine AList.ext (List.eq_nil_iff_forall_not_mem.mpr fun o ho => ?_)
    have hlook := Option.mem_def.mp (AList.mem_lookup_iff.mpr ho)
    rw [hempty] at hlook
    cases hlook

theorem Held.step {label : Label} (h : Held l) (hsettled : Settled l label)
    (hstep : step maxSessions maxPerIP allowed l label = some next) : Held next := by
  cases label with
  | receive ck =>
      simp only [UdpSessions.step] at hstep
      split at hstep
      · obtain rfl := Option.some.inj hstep
        split
        · exact h.congr rfl rfl (fun _ hr _ => hr) rfl id
        · exact h
      · cases hstep
  | readError =>
      simp only [UdpSessions.step] at hstep
      split at hstep
      · obtain rfl := Option.some.inj hstep
        exact h.congr rfl rfl (fun _ hr _ => hr) rfl id
      · cases hstep
  | handle dialed now =>
      simp only [UdpSessions.step] at hstep
      split at hstep
      · obtain rfl := Option.some.inj hstep
        exact h.handle hsettled
      · cases hstep
  | write =>
      simp only [UdpSessions.step] at hstep
      split at hstep
      · obtain rfl := Option.some.inj hstep
        exact h.congr rfl rfl (fun _ hr _ => hr) rfl id
      · cases hstep
  | replyError i =>
      simp only [UdpSessions.step] at hstep
      split at hstep
      · rename_i r hr
        split at hstep
        · rename_i hphase
          obtain rfl := Option.some.inj hstep
          refine h.congr rfl rfl (fun other hother hremoved => mem_setReader hr hother ?_) rfl id
          rintro rfl
          rw [hphase] at hremoved
          cases hremoved
        · cases hstep
      · cases hstep
  | replyForget i =>
      simp only [UdpSessions.step] at hstep
      split at hstep
      · rename_i r hr
        split at hstep
        · rename_i hphase
          obtain rfl := Option.some.inj hstep
          exact h.replyForget hr hphase
        · cases hstep
      · cases hstep
  | replyClose i =>
      simp only [UdpSessions.step] at hstep
      split at hstep
      · rename_i r hr
        split at hstep
        · obtain rfl := Option.some.inj hstep
          exact h.replyClose hr
        · cases hstep
      · cases hstep
  | sweep now =>
      obtain rfl := Option.some.inj hstep
      have hin : ∀ entry ∈ l.sessions.pairs.filter fun entry =>
        now - entry.2.lastSeen > udpSessionIdle,
          l.sessions.lookup entry.1 = some entry.2 :=
        fun entry hentry => GoMap.mem_pairs.mp (List.mem_filter.mp hentry).1
      refine ⟨fun conn hconn => h.owned_dropAll hin hconn, fun hstop => ?_⟩
      rw [(dropAll_rest l _).2.1] at hstop
      obtain ⟨hclosed, hempty, hnone⟩ := h.released hstop
      rw [hempty]
      exact ⟨hclosed, hempty, hnone⟩
  | stopSignal =>
      simp only [UdpSessions.step] at hstep
      split at hstep
      · cases hstep
      · obtain rfl := Option.some.inj hstep
        exact h.congr rfl rfl (fun _ hr _ => hr) rfl id
  | closeSocket =>
      simp only [UdpSessions.step] at hstep
      split at hstep
      · obtain rfl := Option.some.inj hstep
        exact h.congr rfl rfl (fun _ hr _ => hr) rfl fun _ => rfl
      · cases hstep
  | stopEmpty =>
      simp only [UdpSessions.step] at hstep
      split at hstep
      · rename_i hsocket
        obtain rfl := Option.some.inj hstep
        exact h.stopEmpty hsocket hsettled
      · cases hstep

end Stopping

/-- A listener that was stopped holds no session and no connection, and gets none any more, in every
run whose steps are settled. -/
theorem stopped_listener_holds_nothing {maxSessions maxPerIP : Nat} {allowed : String → Bool}
    {labels : List Label} {l : Listener}
    (hrun : run (step maxSessions maxPerIP allowed) start labels = some l)
    (hsettled : RunMeets (step maxSessions maxPerIP allowed) Settled start labels)
    (hstopped : l.stopped = true) : l.sessions = ∅ ∧ l.upstreams = [] := by
  have h : Held l := RunMeets.invariant (fun _ _ _ hs hlabel hstep => Held.step hs hlabel hstep)
    hsettled held_start hrun
  exact (h.released hstopped).2

def stoppedRun : List Label :=
  [.receive "192.0.2.1:4000", .handle true 0, .write, .stopSignal, .closeSocket, .stopEmpty,
    .replyError 0, .replyForget 0, .replyClose 0, .readError]

theorem stopped_listener_holds_nothing_run : ∃ l,
    run (step 1024 64 fun _ => true) start stoppedRun = some l ∧ l.opened = 1 ∧
      l.sessions = ∅ ∧ l.upstreams = [] := by
  obtain ⟨l, hrun, hstate⟩ := Option.map_eq_some_iff.mp
    (show (run (step 1024 64 fun _ => true) start stoppedRun).map (fun l => (l.stopped, l.opened)) =
      some (true, 1) by decide +kernel)
  obtain ⟨hstopped, hopened⟩ := Prod.mk.inj hstate
  exact ⟨l, hrun, hopened, stopped_listener_holds_nothing hrun (by decide +kernel) hstopped⟩

/-- A packet that was read before the socket was closed, and is handled after `stop` has
returned. -/
def lateRun : List Label :=
  [.receive "192.0.2.1:4000", .stopSignal, .closeSocket, .stopEmpty, .handle true 0]

theorem late_packet_keeps_session : ∃ l, run (step 1024 64 fun _ => true) start lateRun = some l ∧
    l.stopped = true ∧ l.sessions.len = 1 ∧ l.upstreams = [0] := by
  obtain ⟨l, hrun, hstate⟩ := Option.map_eq_some_iff.mp
    (show (run (step 1024 64 fun _ => true) start lateRun).map
      (fun l => (l.stopped, l.sessions.len, l.upstreams)) = some (true, 1, [0]) by decide +kernel)
  simp only [Prod.mk.injEq] at hstate
  exact ⟨l, hrun, hstate⟩

end Quicgate.UdpSessions
