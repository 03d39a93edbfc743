import Mathlib.Data.List.Basic
import Mathlib.Tactic.Basic

/-!
# The relay of a forwarded flow

`src/internal/wg/forward.go`: `pump` with its two sources.  `connSource` reads a connection into
one buffer.  `tunnelSource` takes a datagram from the network stack in the pieces the stack hands
to its `Write`, first into a small buffer, and borrows a large one for a reassembled datagram
that does not fit.  Every buffer comes from a pool and holds what its last user left there.

`datagrams_whole` certifies the way from the tunnel, whatever the buffers hold and however a
datagram is cut; `conn_passed` is the way back.
-/

namespace Quicgate.Relay

abbrev Bytes := List UInt8

def tunnelBuf : Nat := 2048
def maxDatagram : Nat := 65535

/-- `copy(buf[n:], p)`, where `p` fits. -/
def copyAt (buf : Bytes) (n : Nat) (p : Bytes) : Bytes := buf.take n ++ p ++ buf.drop (n + p.length)

/-! ### `pump`

The pump writes what its source gives, one message at a time, and stops at the first write
that fails. -/

/-- What a pump has done: the messages it has written, their bytes, and whether it has ended. -/
structure Pump where
  written : List Bytes
  n : Nat
  ended : Bool
deriving DecidableEq, Repr

/-- One turn of the loop: what the source's `next` returned, and whether the write of the message
succeeds. -/
def Pump.turn (datagrams : Bool) (p : Pump) (msg : Bytes) (err wrote : Bool) : Pump :=
  if 0 < msg.length || (datagrams && !err) then
    if !wrote then { p with ended := true }
    else { written := p.written ++ [msg], n := p.n + msg.length, ended := err }
  else { p with ended := err }

/-! ### A connection as source

One buffer is out of the pool for as long as the pump runs. -/

/-- `taken` are the buffers that are out of the pool. -/
structure ConnPump where
  pump : Pump
  taken : Int
deriving DecidableEq, Repr

def ConnPump.start : ConnPump := ⟨⟨[], 0, false⟩, 1⟩

/-- What `Read` returned, and whether the write succeeds. -/
structure ConnRead where
  msg : Bytes
  err : Bool
  wrote : Bool
deriving DecidableEq, Repr

def ConnPump.turn (datagrams : Bool) (c : ConnPump) (r : ConnRead) : ConnPump :=
  if c.pump.ended then c
  else
    let pump := c.pump.turn datagrams r.msg r.err r.wrote
    ⟨pump, if pump.ended then c.taken - 1 else c.taken⟩ -- `release` is deferred

/-! ### The tunnel as source

The small buffer stays out, and a large one is borrowed for one datagram. -/

structure TunnelSource where
  small : Bytes
  large : Option Bytes -- borrowed for one datagram
  n : Nat
deriving DecidableEq, Repr

/-- `Write`: one piece of a datagram. `fresh` is the buffer the pool has, when one is borrowed.
`none` is `io.ErrShortWrite`. -/
def TunnelSource.write (s : TunnelSource) (fresh p : Bytes) : Option TunnelSource :=
  let fill (s : TunnelSource) : Option TunnelSource :=
    match s.large with
    | some buf =>
      if buf.length < s.n + p.length then none
      else some { s with large := some (copyAt buf s.n p), n := s.n + p.length }
    | none =>
      if s.small.length < s.n + p.length then none
      else some { s with small := copyAt s.small s.n p, n := s.n + p.length }
  if s.large.isNone && s.small.length < s.n + p.length then
    if maxDatagram < s.n + p.length then none
    else fill { s with large := some (copyAt fresh 0 (s.small.take s.n)) }
  else fill s

/-- The stack calls `Write` once per piece, until one fails. -/
def TunnelSource.collect (s : TunnelSource) : List (Bytes × Bytes) → TunnelSource × Bool
  | [] => (s, true)
  | (fresh, p) :: rest =>
    match s.write fresh p with
    | none => (s, false)
    | some s' => s'.collect rest

def TunnelSource.message (s : TunnelSource) : Bytes := (s.large.getD s.small).take s.n

/-- What the endpoint's `Read` comes to: the pieces of a datagram, each with the buffer the pool
would lend for it; nothing yet, until more arrives or the deadline passes; the end. -/
inductive TunnelRead
  | datagram (pieces : List (Bytes × Bytes))
  | wouldBlock
  | deadline
  | closed
  | failed
deriving DecidableEq, Repr

/-- One flow from the tunnel, with the buffers that are out of the two pools. -/
structure TunnelPump where
  pump : Pump
  source : TunnelSource
  smallTaken : Int
  largeTaken : Int
deriving DecidableEq, Repr

namespace TunnelPump

/-- `newTunnelSource` with the buffer the pool hands out. -/
def start (small : Bytes) : TunnelPump := ⟨⟨[], 0, false⟩, ⟨small, none, 0⟩, 1, 0⟩

def reset (t : TunnelPump) : TunnelPump := { t with
  source := { t.source with large := none, n := 0 }
  largeTaken := if t.source.large.isSome then t.largeTaken - 1 else t.largeTaken }

def release (t : TunnelPump) : TunnelPump := { t with
  source := { t.source with small := [], large := none }
  smallTaken := t.smallTaken - 1
  largeTaken := if t.source.large.isSome then t.largeTaken - 1 else t.largeTaken }

def turn (t : TunnelPump) (msg : Bytes) (err wrote : Bool) : TunnelPump :=
  let t := { t with pump := t.pump.turn true msg err wrote }
  if t.pump.ended then t.release else t.reset

def read (t : TunnelPump) (r : TunnelRead) (wrote : Bool) : TunnelPump :=
  if t.pump.ended then t
  else match r with
    | .datagram pieces =>
      let collected := t.source.collect pieces
      let t := { t with
        source := collected.1
        largeTaken := if collected.1.large.isSome && t.source.large.isNone then t.largeTaken + 1
          else t.largeTaken }
      if collected.2 then t.turn t.source.message false wrote else t.turn [] true wrote
    | .wouldBlock => t
    | .deadline => t.turn [] true wrote
    | .closed => t.turn [] true wrote
    | .failed => t.turn [] true wrote

end TunnelPump

/-! ### Copies

A borrowed buffer is overwritten from the front. -/

theorem length_copyAt {buf p : Bytes} {n : Nat} (h : n + p.length ≤ buf.length) :
    (copyAt buf n p).length = buf.length := by
  simp only [copyAt, List.length_append, List.length_take, List.length_drop]
  omega

/-- A copy does not touch what is there before it, and what was behind it is not part of the
message. -/
theorem take_copyAt {buf p : Bytes} {n : Nat} (h : n + p.length ≤ buf.length) :
    (copyAt buf n p).take (n + p.length) = buf.take n ++ p := by
  have hlen : (buf.take n ++ p).length = n + p.length := by
    simp only [List.length_append, List.length_take]
    omega
  rw [copyAt, ← hlen, List.take_left']
  rfl

/-! ### One datagram

The pieces of a datagram are collected in the order in which the stack hands them over. -/

/-- The buffers have the sizes of their pools, and hold what was collected. -/
structure TunnelSource.Whole (s : TunnelSource) : Prop where
  small : s.small.length = tunnelBuf
  large : ∀ buf, s.large = some buf → buf.length = maxDatagram
  held : s.n ≤ (s.large.getD s.small).length

/-- A piece that does not make the datagram too large is added to it, whatever the borrowed
buffer held. -/
theorem TunnelSource.Whole.write {s : TunnelSource} (h : s.Whole) {fresh p : Bytes}
    (hfresh : fresh.length = maxDatagram) (hfits : s.n + p.length ≤ maxDatagram) :
    ∃ s', s.write fresh p = some s' ∧ s'.Whole ∧ s'.message = s.message ++ p ∧
      s'.n = s.n + p.length := by
  obtain ⟨small, large, n⟩ := s
  change n + p.length ≤ maxDatagram at hfits
  cases large with
  | some buf =>
      have hbuf : buf.length = maxDatagram := h.large buf rfl
      have hroom : n + p.length ≤ buf.length := hbuf ▸ hfits
      refine ⟨⟨small, some (copyAt buf n p), n + p.length⟩, ?_, ⟨h.small, ?_, ?_⟩, ?_, rfl⟩
      · simp [TunnelSource.write, Nat.not_lt.mpr hroom]
      · intro buf' hbuf'
        obtain rfl := Option.some.inj hbuf'
        exact (length_copyAt hroom).trans hbuf
      · simp only [Option.getD_some, length_copyAt hroom]
        exact hroom
      · exact take_copyAt hroom
  | none =>
      have hn : n ≤ small.length := h.held
      by_cases hlarge : small.length < n + p.length
      · -- the datagram goes on in a large buffer
        have htake : (small.take n).length = n := by
          rw [List.length_take]
          omega
        have hstart : 0 + (small.take n).length ≤ fresh.length := by omega
        have hbuf := length_copyAt hstart
        have hroom : n + p.length ≤ (copyAt fresh 0 (small.take n)).length := by omega
        have hkept : (copyAt fresh 0 (small.take n)).take n = small.take n := by
          have hcopy := take_copyAt hstart
          rwa [Nat.zero_add, htake, List.take_zero, List.nil_append] at hcopy
        refine ⟨⟨small, some (copyAt (copyAt fresh 0 (small.take n)) n p), n + p.length⟩, ?_,
          ⟨h.small, ?_, ?_⟩, ?_, rfl⟩
        · simp [TunnelSource.write, hlarge, Nat.not_lt.mpr hfits, Nat.not_lt.mpr hroom]
        · intro buf' hbuf'
          obtain rfl := Option.some.inj hbuf'
          rw [length_copyAt hroom, hbuf, hfresh]
        · simp only [Option.getD_some, length_copyAt hroom]
          exact hroom
        · simp only [TunnelSource.message, Option.getD_some, Option.getD_none]
          rw [take_copyAt hroom, hkept]
      · have hroom : n + p.length ≤ small.length := Nat.le_of_not_lt hlarge
        refine ⟨⟨copyAt small n p, none, n + p.length⟩, ?_, ⟨?_, by simp, ?_⟩, ?_, rfl⟩
        · simp [TunnelSource.write, hlarge]
        · exact (length_copyAt hroom).trans h.small
        · simp only [Option.getD_none, length_copyAt hroom]
          exact hroom
        · exact take_copyAt hroom

/-- A piece that makes it too large is refused. -/
theorem TunnelSource.Whole.write_eq_none {s : TunnelSource} (h : s.Whole) {fresh p : Bytes}
    (hlong : maxDatagram < s.n + p.length) : s.write fresh p = none := by
  obtain ⟨small, large, n⟩ := s
  cases large with
  | some buf =>
      have hbuf : buf.length = maxDatagram := h.large buf rfl
      simp [TunnelSource.write, hbuf, hlong]
  | none =>
      have hsmall : small.length = tunnelBuf := h.small
      have hlarge : small.length < n + p.length := by
        simp only [tunnelBuf, maxDatagram] at hsmall hlong ⊢
        omega
      simp [TunnelSource.write, hlarge, hlong]

def whole (pieces : List (Bytes × Bytes)) : Bytes := (pieces.map Prod.snd).flatten

/-- The buffers that the large pool lends have its size. -/
def Lends (pieces : List (Bytes × Bytes)) : Prop := ∀ e ∈ pieces, e.1.length = maxDatagram

/-- A datagram is collected whole if it fits, and is not collected if it does not. -/
theorem TunnelSource.Whole.collect {s : TunnelSource} (h : s.Whole) {pieces : List (Bytes × Bytes)}
    (hlends : Lends pieces) :
    (s.collect pieces).1.Whole ∧
      ((s.collect pieces).2 = true ↔ s.n + (whole pieces).length ≤ maxDatagram ∨ pieces = []) ∧
      ((s.collect pieces).2 = true → (s.collect pieces).1.message = s.message ++ whole pieces) := by
  induction pieces generalizing s with
  | nil => exact ⟨h, by simp [TunnelSource.collect], by simp [TunnelSource.collect, whole]⟩
  | cons e rest ih =>
      obtain ⟨fresh, p⟩ := e
      have hwhole : whole ((fresh, p) :: rest) = p ++ whole rest := rfl
      by_cases hfits : s.n + p.length ≤ maxDatagram
      · obtain ⟨s', hs', hwell, hmessage, hn⟩ := h.write (hlends _ List.mem_cons_self) hfits
        obtain ⟨hwell', hok, hcollected⟩ :=
          ih hwell fun e he => hlends e (List.mem_cons_of_mem _ he)
        have hstep : s.collect ((fresh, p) :: rest) = s'.collect rest := by
          rw [TunnelSource.collect, hs']
        rw [hstep]
        refine ⟨hwell', ?_, ?_⟩
        · rw [hok, hn, hwhole, List.length_append]
          constructor
          · rintro (hle | rfl)
            · exact Or.inl (by omega)
            · left
              simp only [whole, List.map_nil, List.flatten_nil, List.length_nil]
              omega
          · rintro (hle | hnil)
            · exact Or.inl (by omega)
            · cases hnil
        · intro htrue
          rw [hcollected htrue, hmessage, hwhole, List.append_assoc]
      · have hlong : maxDatagram < s.n + p.length := Nat.lt_of_not_le hfits
        have hstep : s.collect ((fresh, p) :: rest) = (s, false) := by
          rw [TunnelSource.collect, h.write_eq_none hlong]
        rw [hstep]
        refine ⟨h, ?_, by simp⟩
        simp only [Bool.false_eq_true, false_iff, not_or]
        refine ⟨?_, by simp⟩
        rw [hwhole, List.length_append]
        omega

/-! ### The flow from the tunnel

A turn of the loop gives back what it borrowed. -/

/-- What the flow must come to: every datagram that fits, whole and in its order, until the
source ends, a datagram does not fit or a write fails. -/
def delivered : List (TunnelRead × Bool) → List Bytes
  | [] => []
  | (.wouldBlock, _) :: rest => delivered rest
  | (.datagram pieces, wrote) :: rest =>
    if (whole pieces).length ≤ maxDatagram && wrote then whole pieces :: delivered rest else []
  | (.deadline, _) :: _ => []
  | (.closed, _) :: _ => []
  | (.failed, _) :: _ => []

namespace TunnelPump

/-- Between two turns: the small buffer is out, and no large one. -/
structure Ready (t : TunnelPump) : Prop where
  small : t.source.small.length = tunnelBuf
  large : t.source.large = none
  n : t.source.n = 0
  going : t.pump.ended = false
  smallTaken : t.smallTaken = 1
  largeTaken : t.largeTaken = 0

/-- At the end both pools have everything back. -/
structure Over (t : TunnelPump) : Prop where
  ended : t.pump.ended = true
  smallTaken : t.smallTaken = 0
  largeTaken : t.largeTaken = 0

variable {t : TunnelPump}

theorem Ready.start {small : Bytes} (h : small.length = tunnelBuf) : (start small).Ready :=
  ⟨h, rfl, rfl, rfl, rfl, rfl⟩

/-- A turn ends the flow with everything given back, or leaves it ready for the next one. -/
theorem turn_spec (msg : Bytes) (err wrote : Bool) (hwhole : t.source.Whole)
    (hsmall : t.smallTaken = 1)
    (hlarge : t.largeTaken = if t.source.large.isSome then 1 else 0) :
    (t.turn msg err wrote).pump = t.pump.turn true msg err wrote ∧
      ((t.pump.turn true msg err wrote).ended = true → (t.turn msg err wrote).Over) ∧
      ((t.pump.turn true msg err wrote).ended = false → (t.turn msg err wrote).Ready) := by
  unfold turn
  cases hended : (t.pump.turn true msg err wrote).ended with
  | true =>
      refine ⟨by simp [hended, release], fun _ => ?_, by simp⟩
      simp only [hended, if_true]
      refine ⟨hended, by simp [release, hsmall], ?_⟩
      cases hl : t.source.large <;> simp_all [release]
  | false =>
      refine ⟨by simp [hended, reset], by simp, fun _ => ?_⟩
      simp only [hended, Bool.false_eq_true, if_false]
      refine ⟨hwhole.small, rfl, rfl, hended, hsmall, ?_⟩
      cases hl : t.source.large <;> simp_all [reset]

/-- Nothing happens after the end. -/
theorem read_of_ended (h : t.pump.ended = true) (r : TunnelRead) (wrote : Bool) :
    t.read r wrote = t := by
  simp [read, h]

theorem Ready.intact (h : t.Ready) : t.source.Whole :=
  ⟨h.small, by simp [h.large], by simp [h.n]⟩

theorem Ready.message (h : t.Ready) : t.source.message = [] := by
  simp [TunnelSource.message, h.n]

/-- One answer of the endpoint: what is written for it, and whether the flow goes on. -/
theorem Ready.read (h : t.Ready) {r : TunnelRead} (wrote : Bool)
    (hlends : ∀ pieces, r = .datagram pieces → Lends pieces) :
    ((t.read r wrote).Over ∧ (t.read r wrote).pump.written = t.pump.written ∧
        (t.read r wrote).pump.n = t.pump.n ∧ ∀ rest, delivered ((r, wrote) :: rest) = []) ∨
      ((t.read r wrote).Ready ∧ ∃ msgs, (t.read r wrote).pump.written = t.pump.written ++ msgs ∧
        (t.read r wrote).pump.n = t.pump.n + msgs.flatten.length ∧
        ∀ rest, delivered ((r, wrote) :: rest) = msgs ++ delivered rest) := by
  -- the source has ended: nothing is written
  have hend : t.turn [] true wrote = t.read r wrote →
    (∀ rest, delivered ((r, wrote) :: rest) = []) →
      (t.read r wrote).Over ∧ (t.read r wrote).pump.written = t.pump.written ∧
        (t.read r wrote).pump.n = t.pump.n ∧ ∀ rest, delivered ((r, wrote) :: rest) = [] := by
    intro hread hnothing
    obtain ⟨hpump, hover, -⟩ := turn_spec [] true wrote h.intact h.smallTaken
      (by simp [h.large, h.largeTaken])
    rw [← hread]
    refine ⟨hover ?_, ?_, ?_, hnothing⟩
    · simp [Pump.turn]
    · rw [hpump]
      simp [Pump.turn]
    · rw [hpump]
      simp [Pump.turn]
  cases r with
  | wouldBlock =>
      right
      have hsame : t.read .wouldBlock wrote = t := by simp [TunnelPump.read, h.going]
      rw [hsame]
      exact ⟨h, [], by simp, by simp, fun rest => rfl⟩
  | deadline => exact Or.inl (hend (by simp [TunnelPump.read, h.going]) fun rest => rfl)
  | closed => exact Or.inl (hend (by simp [TunnelPump.read, h.going]) fun rest => rfl)
  | failed => exact Or.inl (hend (by simp [TunnelPump.read, h.going]) fun rest => rfl)
  | datagram pieces =>
      obtain ⟨hwhole, hok, hmessage⟩ := h.intact.collect (hlends pieces rfl)
      generalize hcollected : t.source.collect pieces = collected at hwhole hok hmessage
      obtain ⟨source, ok⟩ := collected
      -- the flow with what was collected, before the turn
      generalize ht' : { t with
        source := source
        largeTaken := if source.large.isSome && t.source.large.isNone then t.largeTaken + 1
          else t.largeTaken } = t'
      have hlarge : t'.largeTaken = if t'.source.large.isSome then 1 else 0 := by
        rw [← ht']
        simp [h.large, h.largeTaken]
      have hsource : t'.source = source := by rw [← ht']
      have hpump : t'.pump = t.pump := by rw [← ht']
      have hsmall : t'.smallTaken = 1 := by
        rw [← ht']
        exact h.smallTaken
      have hread : t.read (.datagram pieces) wrote =
          if ok then t'.turn source.message false wrote else t'.turn [] true wrote := by
        simp only [TunnelPump.read, h.going, Bool.false_eq_true, if_false, hcollected, ht']
      have hfits : ok = true ↔ (whole pieces).length ≤ maxDatagram := by
        rw [hok, h.n, Nat.zero_add, or_iff_left_iff_imp]
        rintro rfl
        exact Nat.zero_le _
      cases ok with
      | false =>
          have hlong : ¬ (whole pieces).length ≤ maxDatagram := by simpa using hfits
          obtain ⟨hturn, hover, -⟩ := turn_spec [] true wrote (hsource ▸ hwhole) hsmall hlarge
          rw [hread]
          simp only [Bool.false_eq_true, if_false]
          refine Or.inl ⟨hover (by simp [Pump.turn]), ?_, ?_, ?_⟩
          · rw [hturn, hpump]
            simp [Pump.turn]
          · rw [hturn, hpump]
            simp [Pump.turn]
          · intro rest
            simp [delivered, hlong]
      | true =>
          have hle : (whole pieces).length ≤ maxDatagram := hfits.mp rfl
          obtain ⟨hturn, hover, hready⟩ :=
            turn_spec source.message false wrote (hsource ▸ hwhole) hsmall hlarge
          have hmsg : source.message = whole pieces := by
            rw [hmessage rfl, h.message, List.nil_append]
          rw [hread, if_pos rfl]
          cases wrote with
          | false =>
              refine Or.inl ⟨hover (by simp [Pump.turn]), ?_, ?_, ?_⟩
              · rw [hturn, hpump]
                simp [Pump.turn]
              · rw [hturn, hpump]
                simp [Pump.turn]
              · intro rest
                simp [delivered]
          | true =>
              refine Or.inr ⟨hready (by simp [Pump.turn]), [whole pieces], ?_, ?_, ?_⟩
              · rw [hturn, hpump]
                simp [Pump.turn, hmsg]
              · rw [hturn, hpump]
                simp [Pump.turn, hmsg]
              · intro rest
                simp [delivered, hle]

theorem foldl_of_ended (events : List (TunnelRead × Bool)) (h : t.pump.ended = true) :
    events.foldl (fun t e => t.read e.1 e.2) t = t := by
  induction events with
  | nil => rfl
  | cons e rest ih => rw [List.foldl_cons, read_of_ended h, ih]

theorem Ready.run (h : t.Ready) {events : List (TunnelRead × Bool)}
    (hlends : ∀ pieces wrote, (.datagram pieces, wrote) ∈ events → Lends pieces) :
    let t' := events.foldl (fun t e => t.read e.1 e.2) t
    t'.pump.written = t.pump.written ++ delivered events ∧
      t'.pump.n = t.pump.n + (delivered events).flatten.length ∧ (t'.Ready ∨ t'.Over) := by
  induction events generalizing t with
  | nil => exact ⟨by simp [delivered], by simp [delivered], Or.inl h⟩
  | cons e rest ih =>
      obtain ⟨r, wrote⟩ := e
      simp only [List.foldl_cons]
      have hhead : ∀ pieces, r = .datagram pieces → Lends pieces :=
        fun pieces hr => hlends pieces wrote (hr ▸ List.mem_cons_self)
      rcases h.read wrote hhead with
        ⟨hover, hwritten, hn, hnothing⟩ | ⟨hready, msgs, hwritten, hn, hsome⟩
      · rw [foldl_of_ended rest hover.ended, hnothing rest]
        exact ⟨by simp [hwritten], by simp [hn], Or.inr hover⟩
      · obtain ⟨hwritten', hn', hend⟩ :=
          ih hready fun pieces wrote hmem => hlends pieces wrote (List.mem_cons_of_mem _ hmem)
        refine ⟨?_, ?_, hend⟩
        · rw [hwritten', hwritten, hsome rest, List.append_assoc]
        · rw [hn', hn, hsome rest, List.flatten_append, List.length_append, Nat.add_assoc]

end TunnelPump

/-- A datagram from the tunnel is delivered whole or not at all.  Whatever the buffers of the
pools held and into whatever pieces the stack cuts them, a flow writes exactly the datagrams
that fit, each as one message and in their order, empty ones too, until the source ends, one
does not fit or a write fails; it counts their bytes; and when it is over every buffer is back
in its pool, while it runs one small buffer is out. -/
theorem datagrams_whole {small : Bytes} {events : List (TunnelRead × Bool)}
    (hsmall : small.length = tunnelBuf)
    (hlends : ∀ pieces wrote, (.datagram pieces, wrote) ∈ events → Lends pieces) :
    let t := events.foldl (fun t e => t.read e.1 e.2) (TunnelPump.start small)
    t.pump.written = delivered events ∧ t.pump.n = (delivered events).flatten.length ∧
      t.smallTaken = (if t.pump.ended then 0 else 1) ∧ t.largeTaken = 0 := by
  obtain ⟨hwritten, hn, hend⟩ := (TunnelPump.Ready.start hsmall).run hlends
  refine ⟨by simpa [TunnelPump.start] using hwritten, by simpa [TunnelPump.start] using hn, ?_⟩
  rcases hend with hready | hover
  · exact ⟨by simp [hready.smallTaken, hready.going], hready.largeTaken⟩
  · exact ⟨by simp [hover.smallTaken, hover.ended], hover.largeTaken⟩

def reassembled : List (TunnelRead × Bool) :=
  [(.datagram [(List.replicate 65535 1, List.replicate 2000 7),
    (List.replicate 65535 1, List.replicate 100 8)], true), (.closed, true)]

theorem datagrams_whole_reassembled :
    let t := reassembled.foldl (fun t e => t.read e.1 e.2)
      (TunnelPump.start (List.replicate 2048 9))
    t.pump.written = [List.replicate 2000 7 ++ List.replicate 100 8] ∧ t.largeTaken = 0 := by
  have hlends : ∀ pieces wrote, (TunnelRead.datagram pieces, wrote) ∈ reassembled →
      Lends pieces := by
    intro pieces wrote hmem e he
    simp only [reassembled, List.mem_cons, Prod.mk.injEq, TunnelRead.datagram.injEq, reduceCtorEq,
      false_and, List.not_mem_nil, or_false] at hmem
    rw [hmem.1] at he
    rcases List.mem_cons.mp he with rfl | he
    · exact List.length_replicate
    · rw [List.mem_singleton.mp he]
      exact List.length_replicate
  have hsmall : (List.replicate 2048 (9 : UInt8)).length = tunnelBuf := List.length_replicate
  obtain ⟨hwritten, -, -, hlarge⟩ := datagrams_whole hsmall hlends
  have hdelivered : delivered reassembled = [List.replicate 2000 7 ++ List.replicate 100 8] := by
    decide +kernel
  exact ⟨hwritten.trans hdelivered, hlarge⟩

/-! ### The flow from a connection

What is read is passed on, and nothing is added. -/

/-- What a pump makes of what it reads: every message that is not empty, and of datagrams the
empty ones too, up to the end of the source or a write that fails. -/
def passed (datagrams : Bool) : List ConnRead → List Bytes
  | [] => []
  | r :: rest =>
    let kept := if 0 < r.msg.length || (datagrams && !r.err) then [r.msg] else []
    if kept ≠ [] && !r.wrote then [] else if r.err then kept else kept ++ passed datagrams rest

theorem foldl_turn_of_ended {datagrams : Bool} {c : ConnPump} (reads : List ConnRead)
    (h : c.pump.ended = true) : reads.foldl (ConnPump.turn datagrams) c = c := by
  induction reads with
  | nil => rfl
  | cons r rest ih =>
      have hsame : c.turn datagrams r = c := by simp [ConnPump.turn, h]
      rw [List.foldl_cons, hsame, ih]

/-- The other direction of a flow, and both directions of a TCP connection. -/
theorem conn_passed (datagrams : Bool) {c : ConnPump} (hgoing : c.pump.ended = false)
    (reads : List ConnRead) :
    (reads.foldl (ConnPump.turn datagrams) c).pump.written =
        c.pump.written ++ passed datagrams reads ∧
      (reads.foldl (ConnPump.turn datagrams) c).pump.n =
        c.pump.n + (passed datagrams reads).flatten.length ∧
      (reads.foldl (ConnPump.turn datagrams) c).taken =
        c.taken - (reads.foldl (ConnPump.turn datagrams) c).pump.ended.toNat := by
  induction reads generalizing c with
  | nil => simp [passed, hgoing]
  | cons r rest ih =>
      rw [List.foldl_cons]
      generalize hturn : c.turn datagrams r = c'
      obtain ⟨msg, err, wrote⟩ := r
      cases hended : c'.pump.ended with
      | true =>
          rw [foldl_turn_of_ended rest hended]
          cases err <;> cases wrote <;> grind [ConnPump.turn, Pump.turn, passed]
      | false =>
          obtain ⟨hwritten, hn, htaken⟩ := ih hended
          rw [hwritten, hn, htaken]
          cases err <;> cases wrote <;> grind [ConnPump.turn, Pump.turn, passed]

end Quicgate.Relay
