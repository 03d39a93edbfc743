import Quicgate.TransitionSystem

/-!
# No record, no flow

The flow log's writer and the admissions that wait for it
(`internal/engine/vpnflow.go`).  An admission queues its record and waits for
the result; a time-out makes it claim the record back.  The writer claims a
record before it writes it and settles it afterwards.  Who wins is decided by
compare-and-swap on the record's state, so each step here is one atomic
operation, one channel operation or one write, and the steps of any number of
admissions and of the one writer interleave freely.

The two sides meet in one record at a time.  `recordStep` and `writerStep` are
what the sides do to it, and `Good` relates its state, the admission's phase,
what the writer holds and what was written about it; the log's promise
(`no_record_no_flow`) is read off `Good`.  That a call which timed out also comes
to its return is a distance that steps bring down (`exists_closer_step`).
-/

namespace Quicgate.FlowLog

open Quicgate.TransitionSystem

/-! ### Records and items

The item of a call is the record with its state, which both sides change by compare-and-swap, and
a channel of one place for the result. -/

structure FlowRecord where
  time : Int
  peer : String
  device : String
  owner : String
  source : String
  dest : String
  proto : String
  verdict : String -- allow | deny | end
  reason : String
  bytesUp : Int
  bytesDn : Int
deriving DecidableEq, Repr

/-- The record of an allowed flow as the log must show it when the admission gave up
waiting for the record. -/
def refused (rec : FlowRecord) : FlowRecord :=
  { rec with verdict := "deny", reason := "the flow log took too long: the flow was refused" }

inductive ItemState where
  | queued
  | writing -- the writer has it
  | written -- written as it was queued: the admission takes the result
  | abandoned -- the admission gave up before the writer got to it
  | abandonedLate -- the admission gave up while it was being written
deriving DecidableEq, Repr

inductive Phase where
  | start
  | probing -- the log is failing: may this admission probe it?
  | queueing
  | waiting
  | timedOut -- has the writer finished this very moment?
  | abandoning -- before it was claimed by the writer?
  | abandoningLate -- while it is being written?
  | lastWait -- the writer is about to say so
  | gaveUp
  | returning (ok : Bool)
  | returned (ok : Bool)
deriving DecidableEq, Repr

/-- A call of `record` with its queued item. `done` is what the channel holds, nothing
or whether the write succeeded; `probe` says that the call has set `probing`. -/
structure Call where
  record : FlowRecord
  phase : Phase
  probe : Bool
  state : ItemState
  done : Option Bool
deriving DecidableEq, Repr

def Call.waited (c : Call) : Bool := c.record.verdict == "allow"

def newCall (rec : FlowRecord) : Call := ⟨rec, .start, false, .queued, none⟩

structure Flags where
  failed : Bool
  probing : Bool
  dropped : Nat
deriving DecidableEq, Repr

/-! ### The steps of the two sides

A step of one side is a function of the item, of what the side holds, and of what the environment
answers: whether the queue has room, whether the wait is over, whether the write succeeds. -/

structure Recorded where
  flags : Flags
  call : Call
  enqueue : Bool

/-- The next step of a call. `room` says that the queue is not full, `timeout` that the
wait is over. -/
def recordStep (f : Flags) (room : Bool) (c : Call) (timeout : Bool) : Option Recorded :=
  let go (phase : Phase) : Option Recorded := some ⟨f, { c with phase := phase }, false⟩
  match c.phase with
  | .start =>
      if c.waited then go (if f.failed then .probing else .queueing)
      else if room then some ⟨f, { c with phase := .returned true }, true⟩
      else some ⟨{ f with dropped := f.dropped + 1 }, { c with phase := .returned false }, false⟩
  | .probing =>
      if f.probing then go (.returned false)
      else some ⟨{ f with probing := true }, { c with phase := .queueing, probe := true }, false⟩
  | .queueing =>
      if room then some ⟨f, { c with phase := .waiting }, true⟩
      else some ⟨{ f with dropped := f.dropped + 1 }, { c with phase := .returning false }, false⟩
  | .waiting =>
      if timeout then go .timedOut
      else match c.done with
        | some ok => some ⟨f, { c with phase := .returning ok, done := none }, false⟩
        | none => none
  | .timedOut =>
      match c.done with
      | some ok => some ⟨f, { c with phase := .returning ok, done := none }, false⟩
      | none => go .abandoning
  | .abandoning =>
      if c.state = .queued then some ⟨f, { c with state := .abandoned, phase := .gaveUp }, false⟩
      else go .abandoningLate
  | .abandoningLate =>
      if c.state = .writing then
        some ⟨f, { c with state := .abandonedLate, phase := .gaveUp }, false⟩
      else go .lastWait
  | .lastWait =>
      match c.done with
      | some ok => some ⟨f, { c with phase := .returning ok, done := none }, false⟩
      | none => none
  | .gaveUp => some ⟨{ f with failed := true }, { c with phase := .returning false }, false⟩
  | .returning ok =>
      some ⟨if c.probe then { f with probing := false } else f,
        { c with phase := .returned ok }, false⟩
  | .returned _ => none

/-- What the writer is about to do with the item it holds. -/
inductive Hold where
  | claim
  | write (asQueued : Bool)
  | note (ok : Bool)
  | settle (ok : Bool)
  | check (ok : Bool)
  | followUp
  | restore -- the log can be written again
  | deliver (ok : Bool)
deriving DecidableEq, Repr

/-- What a step of the writer leaves: the flags, the item's call, what it holds next,
and the line it tried to write. -/
structure Handled where
  flags : Flags
  call : Call
  hold : Option Hold
  attempt : Option (FlowRecord × Bool)

/-- The next step of the writer with an item. `ok` is the fate of a write. -/
def writerStep (f : Flags) (hold : Hold) (c : Call) (ok : Bool) : Option Handled :=
  let go (next : Hold) : Option Handled := some ⟨f, c, some next, none⟩
  match hold with
  | .claim =>
      if !c.waited then go (.write true)
      else if c.state = .queued then
        some ⟨f, { c with state := .writing }, some (.write true), none⟩
      else go (.write false)
  | .write asQueued =>
      some ⟨f, c, some (.note ok), some (if asQueued then c.record else refused c.record, ok)⟩
  | .note ok =>
      let f := if ok then f else
        { f with failed := true, dropped := if c.waited then f.dropped else f.dropped + 1 }
      some ⟨f, c, if c.waited then some (.settle ok) else none, none⟩
  | .settle ok =>
      if c.state = .writing then
        some ⟨f, { c with state := .written }, some (if ok then .restore else .deliver ok), none⟩
      else go (.check ok)
  | .check ok => if c.state = .abandonedLate && ok then go .followUp else go (.deliver ok)
  | .followUp => some ⟨f, c, some (.deliver true), some (refused c.record, ok)⟩
  | .restore => some ⟨{ f with failed := false }, c, some (.deliver true), none⟩
  | .deliver ok =>
      if c.done = none then some ⟨f, { c with done := some ok }, none, none⟩ else none

/-! ### The system

`step` takes a step of one call or of the writer and puts what it leaves back into the whole; the
queue is bounded by `queueCap`, and all calls share the flags. -/

/-- A write that was tried: all of the line went to the log, or nothing. -/
structure Attempt where
  call : Nat
  record : FlowRecord
  ok : Bool
deriving DecidableEq, Repr

structure State where
  flags : Flags
  calls : List Call
  queue : List Nat
  writer : Option (Nat × Hold)
  attempts : List Attempt
deriving DecidableEq, Repr

def init : State := ⟨⟨false, false, 0⟩, [], [], none, []⟩

def queueCap : Nat := 2048

inductive Label where
  | call (rec : FlowRecord)
  | record (i : Nat) (timeout : Bool)
  | writer (ok : Bool)

def State.recorded (s : State) (i : Nat) (e : Recorded) : State := { s with
  flags := e.flags
  calls := s.calls.set i e.call
  queue := if e.enqueue then s.queue ++ [i] else s.queue }

def State.handled (s : State) (i : Nat) (e : Handled) : State := { s with
  flags := e.flags
  calls := s.calls.set i e.call
  writer := e.hold.map fun next => (i, next)
  attempts := s.attempts ++ (e.attempt.map fun a => ⟨i, a.1, a.2⟩).toList }

def step (s : State) : Label → Option State
  | .call rec => some { s with calls := s.calls ++ [newCall rec] }
  | .record i timeout => s.calls[i]?.bind fun c =>
      (recordStep s.flags (s.queue.length < queueCap) c timeout).map (s.recorded i)
  | .writer ok =>
      match s.writer with
      | none =>
          match s.queue with
          | [] => none
          | i :: rest => some { s with queue := rest, writer := some (i, .claim) }
      | some (i, hold) => s.calls[i]?.bind fun c =>
          (writerStep s.flags hold c ok).map (s.handled i)

def log (s : State) : List Attempt := s.attempts.filter (·.ok)

def history (s : State) (i : Nat) : List (FlowRecord × Bool) :=
  s.attempts.filterMap fun a => if a.call = i then some (a.record, a.ok) else none

def holdOf (s : State) (i : Nat) : Option Hold :=
  s.writer.bind fun w => if w.1 = i then some w.2 else none

/-! ### One record

An item is with its admission, in the queue, with the writer, or done with.  From the queue to
the result the admission's phase and the place of the item are separate facts, and `Good.split`
takes them apart. -/

/-- The admission's phase fits the item's state, as long as it has no result. -/
def Pending (c : Call) : Prop :=
  match c.state with
  | .queued => c.phase = .waiting ∨ c.phase = .timedOut ∨ c.phase = .abandoning
  | .writing => c.phase = .waiting ∨ c.phase = .timedOut ∨ c.phase = .abandoning ∨
      c.phase = .abandoningLate
  | .written => c.phase = .waiting ∨ c.phase = .timedOut ∨ c.phase = .abandoning ∨
      c.phase = .abandoningLate ∨ c.phase = .lastWait
  | .abandoned | .abandonedLate =>
      c.phase = .gaveUp ∨ c.phase = .returning false ∨ c.phase = .returned false

/-- What was written about an item that the writer is done with. -/
def Settled (c : Call) (hist : List (FlowRecord × Bool)) (ok : Bool) : Prop :=
  match c.state with
  | .written => hist = [(c.record, ok)]
  | .abandoned => hist = [(refused c.record, ok)]
  | .abandonedLate => (ok = false ∧ hist = [(c.record, false)]) ∨
      (ok = true ∧ ∃ followed, hist = [(c.record, true), (refused c.record, followed)])
  | .queued | .writing => False

/-- What was written about an item between its first write and its settlement. -/
def Written (c : Call) (hist : List (FlowRecord × Bool)) (ok : Bool) : Prop :=
  match c.state with
  | .writing | .abandonedLate => hist = [(c.record, ok)]
  | .abandoned => hist = [(refused c.record, ok)]
  | .queued | .written => False

/-- What holds of an item in the writer's hands. -/
def Held (c : Call) (hist : List (FlowRecord × Bool)) : Hold → Prop
  | .claim => hist = [] ∧ (c.state = .queued ∨ c.state = .abandoned)
  | .write true => hist = [] ∧ (c.state = .writing ∨ c.state = .abandonedLate)
  | .write false => hist = [] ∧ c.state = .abandoned
  | .note ok | .settle ok => Written c hist ok
  | .check ok => Written c hist ok ∧ c.state ≠ .writing
  | .followUp => hist = [(c.record, true)] ∧ c.state = .abandonedLate
  | .restore => hist = [(c.record, true)] ∧ c.state = .written
  | .deliver ok => Settled c hist ok

/-- What holds of an item that is neither queued nor with the writer: it was never
queued, its result waits to be taken or was taken. -/
inductive Apart (c : Call) (hist : List (FlowRecord × Bool)) : Prop where
  | outside : c.state = .queued → c.done = none → hist = [] →
      (c.phase = .start ∨ c.phase = .probing ∨ c.phase = .queueing ∨
        c.phase = .returning false ∨ c.phase = .returned false) → Apart c hist
  | delivered (ok : Bool) : c.done = some ok → Pending c → Settled c hist ok → Apart c hist
  | taken (ok : Bool) : c.done = none → c.state = .written → hist = [(c.record, ok)] →
      (c.phase = .returning ok ∨ c.phase = .returned ok) → Apart c hist

/-- What holds of the item of an allowed flow, by where it is. -/
def Good (hold : Option Hold) (queued : Nat) (c : Call) (hist : List (FlowRecord × Bool)) :
    Prop :=
  match hold, queued with
  | none, 0 => Apart c hist
  | none, 1 => c.done = none ∧ Pending c ∧ hist = [] ∧ (c.state = .queued ∨ c.state = .abandoned)
  | some hold, 0 => c.done = none ∧ Pending c ∧ Held c hist hold
  | _, _ => False

/-- `Good` without the admission's phase. -/
def Placed (hold : Option Hold) (queued : Nat) (c : Call) (hist : List (FlowRecord × Bool)) :
    Prop :=
  match hold, queued with
  | none, 0 => ∃ ok, c.done = some ok ∧ Settled c hist ok
  | none, 1 => c.done = none ∧ hist = [] ∧ (c.state = .queued ∨ c.state = .abandoned)
  | some hold, 0 => c.done = none ∧ Held c hist hold
  | _, _ => False

section OneRecord

variable {hold : Option Hold} {queued : Nat} {c c' : Call} {hist : List (FlowRecord × Bool)}

theorem Good.of_placed (hpending : Pending c) (hplaced : Placed hold queued c hist) :
    Good hold queued c hist := by
  unfold Placed at hplaced
  split at hplaced
  · obtain ⟨ok, hdone, hsettled⟩ := hplaced
    exact .delivered ok hdone hpending hsettled
  · exact ⟨hplaced.1, hpending, hplaced.2⟩
  · exact ⟨hplaced.1, hpending, hplaced.2⟩
  · exact hplaced.elim

theorem Good.split (h : Good hold queued c hist) :
    (Pending c ∧ Placed hold queued c hist) ∨ (hold = none ∧ queued = 0 ∧ Apart c hist) := by
  unfold Good at h
  split at h
  · exact Or.inr ⟨rfl, rfl, h⟩
  · exact Or.inl ⟨h.2.1, h.1, h.2.2⟩
  · exact Or.inl ⟨h.2.1, h.1, h.2.2⟩
  · exact h.elim

/-! ### From the queue to the result

The two sides move independently while the item is under way, so each side's step must fit
whatever the other may have done. -/

/-- Before it is queued an item is nowhere else. -/
theorem Good.asking (h : Good hold queued c hist)
    (hphase : c.phase = .start ∨ c.phase = .probing ∨ c.phase = .queueing) :
    hold = none ∧ queued = 0 ∧ c.state = .queued ∧ c.done = none ∧ hist = [] := by
  have hpending : ¬ Pending c := by
    unfold Pending
    rcases hphase with hphase | hphase | hphase <;> cases c.state <;> simp [hphase]
  rcases h.split with ⟨hp, -⟩ | ⟨rfl, rfl, hapart⟩
  · exact absurd hp hpending
  · cases hapart with
    | outside hstate hdone hhist _ => exact ⟨rfl, rfl, hstate, hdone, hhist⟩
    | delivered ok _ hp _ => exact absurd hp hpending
    | taken ok _ _ _ htaken =>
        rcases hphase with hphase | hphase | hphase <;> simp [hphase] at htaken

/-- From the queue to the result the phase and the place are two separate facts. -/
theorem Good.waits (h : Good hold queued c hist)
    (hphase : c.phase = .waiting ∨ c.phase = .timedOut ∨ c.phase = .abandoning ∨
      c.phase = .abandoningLate ∨ c.phase = .lastWait ∨ c.phase = .gaveUp) :
    Pending c ∧ Placed hold queued c hist := by
  rcases h.split with hboth | ⟨rfl, rfl, hapart⟩
  · exact hboth
  · cases hapart with
    | outside _ _ _ hout =>
        rcases hphase with hphase | hphase | hphase | hphase | hphase | hphase <;>
          simp [hphase] at hout
    | delivered ok hdone hp hsettled => exact ⟨hp, ok, hdone, hsettled⟩
    | taken ok _ _ _ htaken =>
        rcases hphase with hphase | hphase | hphase | hphase | hphase | hphase <;>
          simp [hphase] at htaken

/-- A place does not depend on the phase. -/
theorem Placed.rephase (h : Placed hold queued c hist) (phase : Phase) (probe : Bool) :
    Placed hold queued { c with phase := phase, probe := probe } hist := by
  unfold Placed at h ⊢
  split at h
  · exact h
  · exact h
  · rename_i hold
    cases hold with
    | write asQueued => cases asQueued <;> exact h
    | _ => exact h
  · exact h

/-- The admission takes its record back before the writer has it. -/
theorem Placed.abandon (h : Placed hold queued c hist) (hstate : c.state = .queued) :
    Placed hold queued { c with state := .abandoned, phase := .gaveUp } hist := by
  unfold Placed at h ⊢
  split at h
  · obtain ⟨ok, -, hsettled⟩ := h
    simp [Settled, hstate] at hsettled
  · exact ⟨h.1, h.2.1, Or.inr rfl⟩
  · rename_i hold
    obtain ⟨hdone, hheld⟩ := h
    cases hold with
    | claim => exact ⟨hdone, hheld.1, Or.inr rfl⟩
    | write asQueued => cases asQueued <;> simp [Held, hstate] at hheld
    | note ok | settle ok | check ok | followUp | restore | deliver ok =>
        simp [Held, Written, Settled, hstate] at hheld
  · exact h

/-- The admission gives its record up while it is being written. -/
theorem Placed.abandonLate (h : Placed hold queued c hist) (hstate : c.state = .writing) :
    Placed hold queued { c with state := .abandonedLate, phase := .gaveUp } hist := by
  unfold Placed at h ⊢
  split at h
  · obtain ⟨ok, -, hsettled⟩ := h
    simp [Settled, hstate] at hsettled
  · simp [hstate] at h
  · rename_i hold
    obtain ⟨hdone, hheld⟩ := h
    cases hold with
    | write asQueued =>
        cases asQueued with
        | true => exact ⟨hdone, hheld.1, Or.inr rfl⟩
        | false => simp [Held, hstate] at hheld
    | note ok | settle ok =>
        refine ⟨hdone, ?_⟩
        simpa [Held, Written, hstate] using hheld
    | claim | check ok | followUp | restore | deliver ok =>
        simp [Held, Written, Settled, hstate] at hheld
  · exact h

/-- The admission takes the result: the record was written as it was queued. -/
theorem Good.receive (h : Good hold queued c hist) {ok : Bool} (hdone : c.done = some ok)
    (hphase : c.phase = .waiting ∨ c.phase = .timedOut ∨ c.phase = .lastWait) :
    Good hold queued { c with phase := .returning ok, done := none } hist := by
  obtain ⟨hpending, hplaced⟩ := h.waits (by tauto)
  unfold Placed at hplaced
  split at hplaced
  · obtain ⟨ok', hdone', hsettled⟩ := hplaced
    obtain rfl := Option.some.inj (hdone.symm.trans hdone')
    have hstate : c.state = .written := by
      unfold Pending at hpending
      unfold Settled at hsettled
      cases hstate : c.state <;> rcases hphase with hphase | hphase | hphase <;>
        simp_all
    rw [Settled, hstate] at hsettled
    exact .taken ok rfl hstate hsettled (Or.inl rfl)
  · simp [hdone] at hplaced
  · simp [hdone] at hplaced
  · exact hplaced.elim

/-! ### The steps of the two sides

`Good` is kept by a step of either side on the item; the histories tell which lines were tried. -/

/-- **A step of an admission keeps what holds of its item.** -/
theorem Good.record {f : Flags} {room timeout : Bool} {e : Recorded}
    (h : Good hold queued c hist) (hwaited : c.waited = true)
    (hstep : recordStep f room c timeout = some e) :
    Good hold (if e.enqueue then queued + 1 else queued) e.call hist := by
  cases hphase : c.phase with
  | start =>
      obtain ⟨rfl, rfl, hstate, hdone, rfl⟩ := h.asking (Or.inl hphase)
      simp only [recordStep, hphase, hwaited, if_true, Option.some.injEq] at hstep
      subst hstep
      refine .outside hstate hdone rfl ?_
      cases f.failed <;> simp
  | probing =>
      obtain ⟨rfl, rfl, hstate, hdone, rfl⟩ := h.asking (Or.inr (Or.inl hphase))
      simp only [recordStep, hphase] at hstep
      split_ifs at hstep
      · obtain rfl := Option.some.inj hstep
        exact .outside hstate hdone rfl (by simp)
      · obtain rfl := Option.some.inj hstep
        exact .outside hstate hdone rfl (by simp)
  | queueing =>
      obtain ⟨rfl, rfl, hstate, hdone, rfl⟩ := h.asking (Or.inr (Or.inr hphase))
      simp only [recordStep, hphase] at hstep
      split_ifs at hstep
      · obtain rfl := Option.some.inj hstep
        exact ⟨hdone, by simp [Pending, hstate], rfl, Or.inl hstate⟩
      · obtain rfl := Option.some.inj hstep
        exact .outside hstate hdone rfl (by simp)
  | waiting =>
      simp only [recordStep, hphase] at hstep
      split at hstep
      · obtain rfl := Option.some.inj hstep
        obtain ⟨hpending, hplaced⟩ := h.waits (by simp [hphase])
        refine .of_placed ?_ (hplaced.rephase .timedOut c.probe)
        unfold Pending at hpending ⊢
        cases hstate : c.state <;> simp_all
      · split at hstep
        · rename_i ok hdone
          obtain rfl := Option.some.inj hstep
          exact h.receive hdone (Or.inl hphase)
        · simp at hstep
  | timedOut =>
      simp only [recordStep, hphase] at hstep
      split at hstep
      · rename_i ok hdone
        obtain rfl := Option.some.inj hstep
        exact h.receive hdone (Or.inr (Or.inl hphase))
      · obtain rfl := Option.some.inj hstep
        obtain ⟨hpending, hplaced⟩ := h.waits (by simp [hphase])
        refine .of_placed ?_ (hplaced.rephase .abandoning c.probe)
        unfold Pending at hpending ⊢
        cases hstate : c.state <;> simp_all
  | abandoning =>
      obtain ⟨hpending, hplaced⟩ := h.waits (by simp [hphase])
      simp only [recordStep, hphase] at hstep
      split_ifs at hstep with hstate
      · obtain rfl := Option.some.inj hstep
        exact .of_placed (by simp [Pending]) (hplaced.abandon hstate)
      · obtain rfl := Option.some.inj hstep
        refine .of_placed ?_ (hplaced.rephase .abandoningLate c.probe)
        unfold Pending at hpending ⊢
        cases hstate : c.state <;> simp_all
  | abandoningLate =>
      obtain ⟨hpending, hplaced⟩ := h.waits (by simp [hphase])
      simp only [recordStep, hphase] at hstep
      split_ifs at hstep with hstate
      · obtain rfl := Option.some.inj hstep
        exact .of_placed (by simp [Pending]) (hplaced.abandonLate hstate)
      · obtain rfl := Option.some.inj hstep
        refine .of_placed ?_ (hplaced.rephase .lastWait c.probe)
        unfold Pending at hpending ⊢
        cases hstate : c.state <;> simp_all
  | lastWait =>
      simp only [recordStep, hphase] at hstep
      split at hstep
      · rename_i ok hdone
        obtain rfl := Option.some.inj hstep
        exact h.receive hdone (Or.inr (Or.inr hphase))
      · simp at hstep
  | gaveUp =>
      obtain ⟨hpending, hplaced⟩ := h.waits (by simp [hphase])
      simp only [recordStep, hphase, Option.some.injEq] at hstep
      subst hstep
      refine .of_placed ?_ (hplaced.rephase (.returning false) c.probe)
      unfold Pending at hpending ⊢
      cases hstate : c.state <;> simp_all
  | returning ok =>
      simp only [recordStep, hphase, Option.some.injEq] at hstep
      subst hstep
      rcases h.split with ⟨hpending, hplaced⟩ | ⟨rfl, rfl, hapart⟩
      · refine .of_placed ?_ (hplaced.rephase (.returned ok) c.probe)
        unfold Pending at hpending ⊢
        cases hstate : c.state <;> simp_all
      · cases hapart with
        | outside hstate hdone hhist hout =>
            refine .outside hstate hdone hhist ?_
            simp_all
        | delivered ok' hdone hpending hsettled =>
            refine .delivered ok' hdone ?_ hsettled
            unfold Pending at hpending ⊢
            cases hstate : c.state <;> simp_all
        | taken ok' hdone hstate hhist htaken =>
            refine .taken ok' hdone hstate hhist ?_
            simp_all
  | returned ok => simp [recordStep, hphase] at hstep

/-- **A step of the writer keeps what holds of the item in its hands.** -/
theorem Good.writer {f : Flags} {next : Hold} {ok : Bool} {e : Handled}
    (h : Good (some next) queued c hist) (hwaited : c.waited = true)
    (hstep : writerStep f next c ok = some e) :
    Good e.hold queued e.call (hist ++ e.attempt.toList) := by
  obtain rfl : queued = 0 := by
    cases queued with
    | zero => rfl
    | succ n => exact h.elim
  obtain ⟨hdone, hpending, hheld⟩ := h
  cases next with
  | claim =>
      obtain ⟨rfl, hstate⟩ := hheld
      simp only [writerStep, hwaited, Bool.not_true, Bool.false_eq_true, if_false] at hstep
      split_ifs at hstep with hqueued
      · obtain rfl := Option.some.inj hstep
        refine ⟨hdone, ?_, rfl, Or.inl rfl⟩
        simp only [Pending, hqueued] at hpending ⊢
        tauto
      · obtain rfl := Option.some.inj hstep
        exact ⟨hdone, hpending, rfl, hstate.resolve_left hqueued⟩
  | write asQueued =>
      simp only [writerStep, Option.some.injEq] at hstep
      subst hstep
      refine ⟨hdone, hpending, ?_⟩
      cases asQueued with
      | true =>
          obtain ⟨rfl, hstate | hstate⟩ := hheld <;> simp [Held, Written, hstate]
      | false =>
          obtain ⟨rfl, hstate⟩ := hheld
          simp [Held, Written, hstate]
  | note ok' =>
      simp only [writerStep, hwaited, if_true, Option.some.injEq] at hstep
      subst hstep
      exact ⟨hdone, hpending, by simpa [Held] using hheld⟩
  | settle ok' =>
      simp only [writerStep] at hstep
      by_cases hstate : c.state = .writing
      · rw [if_pos hstate] at hstep
        obtain rfl := Option.some.inj hstep
        have hhist : hist = [(c.record, ok')] := by simpa [Held, Written, hstate] using hheld
        refine ⟨hdone, ?_, ?_⟩
        · simp only [Pending, hstate] at hpending ⊢
          tauto
        · cases ok' <;> simp [Held, Settled, hhist]
      · rw [if_neg hstate] at hstep
        obtain rfl := Option.some.inj hstep
        exact ⟨hdone, hpending, by simpa [Held] using hheld, hstate⟩
  | check ok' =>
      obtain ⟨hwritten, hne⟩ := hheld
      simp only [writerStep, Bool.and_eq_true, decide_eq_true_eq] at hstep
      split_ifs at hstep with hlate
      · obtain rfl := Option.some.inj hstep
        obtain ⟨hstate, rfl⟩ := hlate
        exact ⟨hdone, hpending, by simpa [Written, hstate] using hwritten, hstate⟩
      · obtain rfl := Option.some.inj hstep
        refine ⟨hdone, hpending, ?_⟩
        unfold Written at hwritten
        unfold Held Settled
        cases hstate : c.state <;> simp_all
  | followUp =>
      obtain ⟨rfl, hstate⟩ := hheld
      simp only [writerStep, Option.some.injEq] at hstep
      subst hstep
      exact ⟨hdone, hpending, by simp [Held, Settled, hstate]⟩
  | restore =>
      obtain ⟨rfl, hstate⟩ := hheld
      simp only [writerStep, Option.some.injEq] at hstep
      subst hstep
      exact ⟨hdone, hpending, by simp [Held, Settled, hstate]⟩
  | deliver ok' =>
      simp only [writerStep, hdone, if_true, Option.some.injEq] at hstep
      subst hstep
      refine .delivered ok' rfl hpending ?_
      simpa [Held, Settled] using hheld

end OneRecord

/-! ### All records

A step of one side touches one item, so the invariant of the system is `Good` of every item. -/

structure Inv (s : State) : Prop where
  good : ∀ (i : Nat) (c : Call), s.calls[i]? = some c → c.waited = true →
    Good (holdOf s i) (s.queue.count i) c (history s i)
  fresh : ∀ i, s.calls.length ≤ i →
    holdOf s i = none ∧ s.queue.count i = 0 ∧ history s i = []

theorem recordStep_record {f : Flags} {room timeout : Bool} {c : Call} {e : Recorded}
    (h : recordStep f room c timeout = some e) : e.call.record = c.record := by
  unfold recordStep at h
  cases hphase : c.phase <;> simp only [hphase] at h <;> grind

theorem writerStep_record {f : Flags} {hold : Hold} {c : Call} {ok : Bool} {e : Handled}
    (h : writerStep f hold c ok = some e) : e.call.record = c.record := by
  unfold writerStep at h
  cases hold <;> grind

theorem waited_of_record {c c' : Call} (h : c'.record = c.record) (hwaited : c'.waited = true) :
    c.waited = true := by
  rw [← hwaited, Call.waited, Call.waited, h]

section Frames

variable {s : State} {i j : Nat}

theorem holdOf_self (hold : Option Hold) (h : s.writer = hold.map fun next => (i, next)) :
    holdOf s i = hold := by
  cases hold <;> simp [holdOf, h]

theorem holdOf_other (hold : Option Hold) (h : s.writer = hold.map fun next => (i, next))
    (hne : j ≠ i) : holdOf s j = none := by
  cases hold with
  | none => simp [holdOf, h]
  | some next => simp [holdOf, h, hne.symm]

/-- A step of the writer adds to the history of its own item only. -/
theorem history_append (attempt : Option (FlowRecord × Bool)) :
    (s.attempts ++ (attempt.map fun a => (⟨i, a.1, a.2⟩ : Attempt)).toList).filterMap
        (fun a => if a.call = j then some (a.record, a.ok) else none) =
      if j = i then history s j ++ attempt.toList else history s j := by
  rw [List.filterMap_append]
  split_ifs with heq
  · subst heq
    cases attempt <;> simp [history]
  · have hne : i ≠ j := fun h => heq h.symm
    cases attempt <;> simp [history, hne]

end Frames

namespace Inv

variable {s next : State} {label : Label}

theorem init : Inv FlowLog.init where
  good i c h := by simp [FlowLog.init] at h
  fresh i _ := by simp [FlowLog.init, holdOf, history]

theorem call (hinv : Inv s) (rec : FlowRecord) :
    Inv { s with calls := s.calls ++ [newCall rec] } where
  good i c hc hwaited := by
    rcases getElem?_concat_eq_some hc with ⟨rfl, rfl⟩ | hold
    · obtain ⟨hhold, hqueue, hhist⟩ := hinv.fresh _ (Nat.le_refl _)
      show Good (holdOf s _) (s.queue.count _) _ (history s _)
      rw [hhold, hqueue, hhist]
      exact .outside rfl rfl rfl (Or.inl rfl)
    · exact hinv.good i c hold hwaited
  fresh i hi := by
    refine hinv.fresh i ?_
    simp only [List.length_append, List.length_singleton] at hi
    omega

theorem record (hinv : Inv s) {i : Nat} {timeout : Bool}
    (h : step s (.record i timeout) = some next) : Inv next := by
  simp only [step] at h
  obtain ⟨c, hc, h⟩ := Option.bind_eq_some_iff.mp h
  obtain ⟨e, he, rfl⟩ := Option.map_eq_some_iff.mp h
  have hlt := (List.getElem?_eq_some_iff.mp hc).1
  have hcount : ∀ j, (if e.enqueue then s.queue ++ [i] else s.queue).count j =
      if e.enqueue ∧ j = i then s.queue.count j + 1 else s.queue.count j := by
    intro j
    cases e.enqueue with
    | false => simp
    | true =>
        by_cases hji : j = i
        · simp [hji, List.count_append]
        · have hij : i ≠ j := fun h => hji h.symm
          simp [hji, List.count_append, hij]
  constructor
  · intro j c' hc' hwaited
    show Good (holdOf s j) ((if e.enqueue then s.queue ++ [i] else s.queue).count j) c'
      (history s j)
    rw [hcount]
    rcases getElem?_set_eq_some hc' with ⟨rfl, rfl⟩ | ⟨hne, hold⟩
    · have hwaited' := waited_of_record (recordStep_record he) hwaited
      simpa using (hinv.good j c hc hwaited').record hwaited' he
    · rw [if_neg (fun h => hne h.2)]
      exact hinv.good j c' hold hwaited
  · intro j hj
    rw [State.recorded, List.length_set] at hj
    obtain ⟨hhold, hqueue, hhist⟩ := hinv.fresh j hj
    refine ⟨hhold, ?_, hhist⟩
    have hne : j ≠ i := by omega
    rw [State.recorded, hcount, if_neg (fun h => hne h.2), hqueue]

theorem take (hinv : Inv s) {i : Nat} {rest : List Nat} (hwriter : s.writer = none)
    (hqueue : s.queue = i :: rest) :
    Inv { s with queue := rest, writer := some (i, .claim) } := by
  have hnone : ∀ j, holdOf s j = none := by simp [holdOf, hwriter]
  have hother : ∀ j, j ≠ i → rest.count j = s.queue.count j := by
    intro j hne
    rw [hqueue, List.count_cons_of_ne hne.symm]
  constructor
  · intro j c hc hwaited
    have hgood := hinv.good j c hc hwaited
    rw [hnone] at hgood
    show Good (holdOf _ j) (rest.count j) c (history s j)
    by_cases hji : j = i
    · subst hji
      rw [hqueue, List.count_cons_self] at hgood
      rw [holdOf_self (some .claim) rfl]
      -- the item was queued once
      cases hn : rest.count j with
      | zero =>
          rw [hn] at hgood
          exact ⟨hgood.1, hgood.2.1, hgood.2.2⟩
      | succ n =>
          rw [hn] at hgood
          exact hgood.elim
    · rw [holdOf_other (some .claim) rfl hji, hother j hji]
      exact hgood
  · intro j hj
    obtain ⟨-, hcount, hhist⟩ := hinv.fresh j hj
    have hji : j ≠ i := by
      rintro rfl
      simp [hqueue] at hcount
    exact ⟨holdOf_other (some .claim) rfl hji, (hother j hji).trans hcount, hhist⟩

theorem handle (hinv : Inv s) {i : Nat} {hold : Hold} {ok : Bool} {c : Call} {e : Handled}
    (hwriter : s.writer = some (i, hold)) (hc : s.calls[i]? = some c)
    (he : writerStep s.flags hold c ok = some e) : Inv (s.handled i e) := by
  have hlt := (List.getElem?_eq_some_iff.mp hc).1
  constructor
  · intro j c' hc' hwaited
    simp only [history, State.handled, history_append]
    rcases getElem?_set_eq_some hc' with ⟨rfl, rfl⟩ | ⟨hne, hold'⟩
    · have hwaited' := waited_of_record (writerStep_record he) hwaited
      have hgood := hinv.good j c hc hwaited'
      rw [holdOf_self (some hold) hwriter] at hgood
      rw [if_pos rfl, holdOf_self e.hold rfl]
      exact hgood.writer hwaited' he
    · rw [if_neg hne, holdOf_other e.hold rfl hne]
      have hgood := hinv.good j c' hold' hwaited
      rwa [holdOf_other (some hold) hwriter hne] at hgood
  · intro j hj
    rw [State.handled, List.length_set] at hj
    have hne : j ≠ i := by omega
    obtain ⟨-, hcount, hhist⟩ := hinv.fresh j hj
    refine ⟨holdOf_other e.hold rfl hne, hcount, ?_⟩
    simp only [history, State.handled, history_append, if_neg hne]
    exact hhist

/-- **Every step keeps the invariant.** -/
theorem step (hinv : Inv s) (h : step s label = some next) : Inv next := by
  cases label with
  | call rec =>
      obtain rfl := Option.some.inj h
      exact hinv.call rec
  | record i timeout => exact hinv.record h
  | writer ok =>
      simp only [FlowLog.step] at h
      split at h
      · rename_i hwriter
        split at h
        · simp at h
        · rename_i i rest hqueue
          obtain rfl := Option.some.inj h
          exact hinv.take hwriter hqueue
      · rename_i i hold hwriter
        obtain ⟨c, hc, h⟩ := Option.bind_eq_some_iff.mp h
        obtain ⟨e, he, rfl⟩ := Option.map_eq_some_iff.mp h
        exact hinv.handle hwriter hc he

end Inv

/-! ### What the log promises

`HasAllow`, `HasRefusal` and `Followed` are about the lines of one call in the log, in the order
in which they were tried. -/

/-- An allow line of the call is in the log. -/
def HasAllow (s : State) (i : Nat) : Prop :=
  ∃ a ∈ log s, a.call = i ∧ a.record.verdict = "allow"

def HasRefusal (s : State) (i : Nat) : Prop :=
  ∃ a ∈ s.attempts, a.call = i ∧ a.record.verdict ≠ "allow"

/-- The allow line of the call is followed by its refusal line, unless the write of that
line failed. -/
def Followed (s : State) (i : Nat) : Prop :=
  ∃ before after rec followed, s.attempts = before ++ ⟨i, rec, true⟩ :: after ∧
    rec.verdict = "allow" ∧ (⟨i, refused rec, followed⟩ : Attempt) ∈ after

/-- The writer is done with the call's item, or never gets it. -/
def Quiescent (s : State) (i : Nat) : Prop := holdOf s i = none ∧ s.queue.count i = 0

/-- How many steps a call still takes after its time-out, the writer's last two on its
item included. -/
def distance (s : State) (i : Nat) (c : Call) : Nat :=
  match c.phase with
  | .start | .probing | .queueing | .waiting => 8
  | .timedOut => 7
  | .abandoning => 6
  | .abandoningLate => 5
  | .lastWait => if c.done.isSome then 2 else if holdOf s i = some .restore then 4 else 3
  | .gaveUp => 2
  | .returning _ => 1
  | .returned _ => 0

theorem mem_history {s : State} {a : Attempt} (h : a ∈ s.attempts) :
    (a.record, a.ok) ∈ history s a.call :=
  List.mem_filterMap.mpr ⟨a, h, by simp⟩

theorem exists_attempt {s : State} {i : Nat} {rec : FlowRecord} {ok : Bool}
    (h : (rec, ok) ∈ history s i) : (⟨i, rec, ok⟩ : Attempt) ∈ s.attempts := by
  obtain ⟨a, ha, heq⟩ := List.mem_filterMap.mp h
  split_ifs at heq with hcall
  obtain ⟨rfl, rfl⟩ := Prod.mk.inj (Option.some.inj heq)
  exact hcall ▸ ha

/-- Two lines of a call were tried in the order of its history. -/
theorem followed_of_history {s : State} {i : Nat} {rec : FlowRecord} {followed : Bool}
    (hallow : rec.verdict = "allow")
    (h : history s i = [(rec, true), (refused rec, followed)]) : Followed s i := by
  rw [history, List.filterMap_eq_cons_iff] at h
  obtain ⟨before, a, after, hsplit, -, ha, hrest⟩ := h
  split_ifs at ha with hcall
  obtain ⟨hrec, hok⟩ := Prod.mk.inj (Option.some.inj ha)
  refine ⟨before, after, rec, followed, ?_, hallow, ?_⟩
  · rw [hsplit, ← hrec, ← hok, ← hcall]
  · exact exists_attempt (s := { s with attempts := after }) (by simp [history, hrest])

theorem refused_verdict (rec : FlowRecord) : (refused rec).verdict ≠ "allow" := by
  simp [refused]

section Returned

variable {hold : Option Hold} {queued : Nat} {c : Call} {hist : List (FlowRecord × Bool)}

/-- A flow is admitted only with its record written, and nothing else. -/
theorem Good.returned_true (h : Good hold queued c hist) (hphase : c.phase = .returned true) :
    hist = [(c.record, true)] := by
  have hpending : ¬ Pending c := by
    unfold Pending
    cases c.state <;> simp [hphase]
  rcases h.split with ⟨hp, -⟩ | ⟨rfl, rfl, hapart⟩
  · exact absurd hp hpending
  · cases hapart with
    | outside _ _ _ hout => simp [hphase] at hout
    | delivered ok _ hp _ => exact absurd hp hpending
    | taken ok _ _ hhist htaken =>
        obtain rfl : true = ok := by simpa [hphase] using htaken
        exact hhist

/-- What was written about a refused flow, once the writer is done with it. -/
theorem Good.returned_false (h : Good none 0 c hist) (hphase : c.phase = .returned false) :
    (∀ line ∈ hist, line.2 = true → line.1 = refused c.record) ∨
      ∃ followed, hist = [(c.record, true), (refused c.record, followed)] := by
  cases h with
  | outside _ _ hhist _ => exact Or.inl (by simp [hhist])
  | taken ok _ _ hhist htaken =>
      obtain rfl : false = ok := by simpa [hphase] using htaken
      exact Or.inl (by simp [hhist])
  | delivered ok _ hpending hsettled =>
      unfold Pending at hpending
      unfold Settled at hsettled
      cases hstate : c.state with
      | queued | writing => simp [hstate] at hsettled
      | written => simp [hstate, hphase] at hpending
      | abandoned => exact Or.inl (by simp [hstate] at hsettled; simp [hsettled])
      | abandonedLate =>
          rw [hstate] at hsettled
          rcases hsettled with ⟨-, hhist⟩ | ⟨-, hfollowed⟩
          · exact Or.inl (by simp [hhist])
          · exact Or.inr hfollowed

/-- In its last wait a call has its result, or the writer is about to give it. -/
theorem Good.lastWait (h : Good hold queued c hist) (hphase : c.phase = .lastWait) :
    (∃ ok, c.done = some ok ∧ hold = none) ∨
      (c.done = none ∧ (hold = some .restore ∨ ∃ ok, hold = some (.deliver ok))) := by
  obtain ⟨hpending, hplaced⟩ := h.waits (by simp [hphase])
  have hstate : c.state = .written := by
    unfold Pending at hpending
    cases hstate : c.state <;> simp_all
  unfold Placed at hplaced
  split at hplaced
  · obtain ⟨ok, hdone, -⟩ := hplaced
    exact Or.inl ⟨ok, hdone, rfl⟩
  · simp [hstate] at hplaced
  · rename_i hold
    obtain ⟨hdone, hheld⟩ := hplaced
    refine Or.inr ⟨hdone, ?_⟩
    cases hold with
    | restore => exact Or.inl rfl
    | deliver ok => exact Or.inr ⟨ok, rfl⟩
    | write asQueued => cases asQueued <;> simp [Held, hstate] at hheld
    | claim | note ok | settle ok | check ok | followUp =>
        simp [Held, Written, hstate] at hheld
  · exact hplaced.elim

end Returned

/-! ### After the time-out -/

theorem writerStep_phase {f : Flags} {hold : Hold} {c : Call} {ok : Bool} {e : Handled}
    (h : writerStep f hold c ok = some e) : e.call.phase = c.phase := by
  unfold writerStep at h
  cases hold <;> grind

/-- What a step leaves of a call: its own step is one of `recordStep`; the writer's step on
its item is one of `writerStep`; every other step leaves it and its place alone. -/
theorem call_of_step {s next : State} {label : Label} {i : Nat} {c : Call}
    (h : step s label = some next) (hc : s.calls[i]? = some c) :
    ∃ c', next.calls[i]? = some c' ∧
      ((∃ timeout e, label = .record i timeout ∧
          recordStep s.flags (s.queue.length < queueCap) c timeout = some e ∧ c' = e.call ∧
          holdOf next i = holdOf s i) ∨
        (∃ ok hold e, label = .writer ok ∧ holdOf s i = some hold ∧
          writerStep s.flags hold c ok = some e ∧ c' = e.call ∧ holdOf next i = e.hold) ∨
        (c' = c ∧ (holdOf s i ≠ none → holdOf next i = holdOf s i))) := by
  have hlt := (List.getElem?_eq_some_iff.mp hc).1
  cases label with
  | call rec =>
      obtain rfl := Option.some.inj h
      exact ⟨c, by rw [List.getElem?_append_left hlt, hc], Or.inr (Or.inr ⟨rfl, fun _ => rfl⟩)⟩
  | record j timeout =>
      simp only [step] at h
      obtain ⟨cj, hcj, h⟩ := Option.bind_eq_some_iff.mp h
      obtain ⟨e, he, rfl⟩ := Option.map_eq_some_iff.mp h
      by_cases hij : i = j
      · subst hij
        obtain rfl := Option.some.inj (hc.symm.trans hcj)
        exact ⟨e.call, by simp [State.recorded, hlt], Or.inl ⟨timeout, e, rfl, he, rfl, rfl⟩⟩
      · refine ⟨c, ?_, Or.inr (Or.inr ⟨rfl, fun _ => rfl⟩)⟩
        rw [State.recorded, List.getElem?_set_ne (fun h => hij h.symm), hc]
  | writer ok =>
      simp only [step] at h
      split at h
      · rename_i hwriter
        split at h
        · simp at h
        · obtain rfl := Option.some.inj h
          exact ⟨c, hc, Or.inr (Or.inr ⟨rfl, by simp [holdOf, hwriter]⟩)⟩
      · rename_i j hold hwriter
        obtain ⟨cj, hcj, h⟩ := Option.bind_eq_some_iff.mp h
        obtain ⟨e, he, rfl⟩ := Option.map_eq_some_iff.mp h
        by_cases hij : i = j
        · subst hij
          obtain rfl := Option.some.inj (hc.symm.trans hcj)
          exact ⟨e.call, by simp [State.handled, hlt], Or.inr (Or.inl ⟨ok, hold, e, rfl,
            holdOf_self (some hold) hwriter, he, rfl, holdOf_self e.hold rfl⟩)⟩
        · refine ⟨c, ?_, Or.inr (Or.inr ⟨rfl, ?_⟩)⟩
          · rw [State.handled, List.getElem?_set_ne (fun h => hij h.symm), hc]
          · exact fun hsome => absurd (holdOf_other (some hold) hwriter hij) hsome

/-- A call that has returned stays so. -/
theorem returned_of_run {s later : State} {labels : List Label} {i : Nat} {rec : FlowRecord}
    {ok : Bool} (hs : ∃ c, s.calls[i]? = some c ∧ c.record = rec ∧ c.phase = .returned ok)
    (hrun : run step s labels = some later) :
    ∃ c, later.calls[i]? = some c ∧ c.record = rec ∧ c.phase = .returned ok := by
  refine run_preserves (P := fun s => ∃ c : Call, s.calls[i]? = some c ∧ c.record = rec ∧
    c.phase = .returned ok) ?_ hs hrun
  rintro s label next ⟨c, hc, hrec, hphase⟩ hstep
  obtain ⟨c', hc', hown | hwriter | hother⟩ := call_of_step hstep hc
  · obtain ⟨timeout, e, -, he, -, -⟩ := hown
    simp [recordStep, hphase] at he
  · obtain ⟨ok', hold, e, -, -, he, rfl, -⟩ := hwriter
    exact ⟨_, hc', (writerStep_record he).trans hrec, (writerStep_phase he).trans hphase⟩
  · obtain ⟨rfl, -⟩ := hother
    exact ⟨_, hc', hrec, hphase⟩

theorem distance_le (s : State) (i : Nat) (c : Call) : distance s i c ≤ 8 := by
  unfold distance
  cases c.phase <;> simp only <;> (try split_ifs) <;> omega

/-- Its own steps bring a call that timed out closer to its return. -/
theorem distance_lt_of_record {s next : State} {i : Nat} {c : Call} {f : Flags}
    {room timeout : Bool} {e : Recorded} (h : recordStep f room c timeout = some e)
    (hlate : distance s i c < 8) : distance next i e.call < distance s i c := by
  unfold distance at hlate
  cases hphase : c.phase with
  | start | probing | queueing | waiting => simp [hphase] at hlate
  | timedOut =>
      simp only [recordStep, hphase] at h
      split at h <;> obtain rfl := Option.some.inj h <;> simp [distance, hphase]
  | abandoning =>
      simp only [recordStep, hphase] at h
      split at h <;> obtain rfl := Option.some.inj h <;> simp [distance, hphase]
  | abandoningLate =>
      simp only [recordStep, hphase] at h
      split at h <;> obtain rfl := Option.some.inj h
      · simp [distance, hphase]
      · simp only [distance, hphase]
        split_ifs <;> omega
  | lastWait =>
      simp only [recordStep, hphase] at h
      split at h
      · obtain rfl := Option.some.inj h
        simp only [distance, hphase]
        split_ifs <;> omega
      · simp at h
  | gaveUp | returning ok =>
      simp only [recordStep, hphase, Option.some.injEq] at h
      subst h
      simp [distance, hphase]
  | returned ok => simp [recordStep, hphase] at h

/-- So does the writer's step on the item of a call in its last wait. -/
theorem distance_lt_of_writer {s next : State} {i : Nat} {c : Call} {ok : Bool} {hold : Hold}
    {e : Handled} (h : writerStep s.flags hold c ok = some e)
    (hphase : c.phase = .lastWait) (hdone : c.done = none) (hhold : holdOf s i = some hold)
    (hlast : hold = .restore ∨ ∃ ok, hold = .deliver ok) (hnext : holdOf next i = e.hold) :
    distance next i e.call < distance s i c := by
  rcases hlast with rfl | ⟨ok', rfl⟩
  · simp only [writerStep, Option.some.injEq] at h
    subst h
    simp [distance, hphase, hdone, hhold, hnext]
  · simp only [writerStep, hdone, if_true, Option.some.injEq] at h
    subst h
    simp [distance, hphase, hdone, hhold]

/-- No step takes a call further from its return. -/
theorem distance_le_of_step {s next : State} {label : Label} {i : Nat} {c : Call} (hinv : Inv s)
    (hwaited : c.waited = true) (hc : s.calls[i]? = some c) (h : step s label = some next) :
    ∃ c', next.calls[i]? = some c' ∧ distance next i c' ≤ distance s i c := by
  obtain ⟨c', hc', hcases⟩ := call_of_step h hc
  refine ⟨c', hc', ?_⟩
  have hgood := hinv.good i c hc hwaited
  rcases hcases with ⟨timeout, e, -, he, rfl, -⟩ | ⟨ok, hold, e, -, hhold, he, rfl, hnext⟩ |
    ⟨rfl, hhold⟩
  · by_cases hlate : distance s i c < 8
    · exact Nat.le_of_lt (distance_lt_of_record he hlate)
    · exact Nat.le_trans (distance_le _ _ _) (Nat.le_of_not_lt hlate)
  · by_cases hlast : c.phase = .lastWait
    · rcases hgood.lastWait hlast with ⟨ok', -, hnone⟩ | ⟨hdone, hor⟩
      · simp [hhold] at hnone
      · rw [hhold] at hor
        exact Nat.le_of_lt (distance_lt_of_writer he hlast hdone hhold (by simpa using hor) hnext)
    · unfold distance
      rw [writerStep_phase he]
      cases hp : c.phase <;> simp_all
  · by_cases hlast : c'.phase = .lastWait
    · rcases hgood.lastWait hlast with ⟨ok', hdone, -⟩ | ⟨-, hor⟩
      · simp [distance, hlast, hdone]
      · have hsome : holdOf s i ≠ none := by
          rcases hor with hor | ⟨ok', hor⟩ <;> simp [hor]
        simp only [distance, hhold hsome, Nat.le_refl]
    · unfold distance
      cases hp : c'.phase <;> simp_all

/-! ### A call returns

`distance` counts the steps that are still to come, and there is always one that does not wait
for the disk. -/

/-- A call that timed out and has not returned is brought closer to its return by a step
of its own or by one of the writer that is no write. -/
theorem exists_closer_step {s : State} {i : Nat} {c : Call} (hinv : Inv s)
    (hwaited : c.waited = true) (hc : s.calls[i]? = some c) (hlate : distance s i c < 8)
    (hopen : 0 < distance s i c) :
    ∃ label next c', step s label = some next ∧ next.calls[i]? = some c' ∧
      distance next i c' < distance s i c ∧
      (label = .record i false ∨ (label = .writer true ∧ next.attempts = s.attempts)) := by
  have hlt := (List.getElem?_eq_some_iff.mp hc).1
  -- its own step, where one is enabled
  have hown : (recordStep s.flags (s.queue.length < queueCap) c false).isSome = true →
      ∃ label next c', step s label = some next ∧ next.calls[i]? = some c' ∧
        distance next i c' < distance s i c ∧
        (label = .record i false ∨ (label = .writer true ∧ next.attempts = s.attempts)) := by
    intro henabled
    obtain ⟨e, he⟩ := Option.isSome_iff_exists.mp henabled
    refine ⟨.record i false, s.recorded i e, e.call, ?_, by simp [State.recorded, hlt],
      distance_lt_of_record he hlate, Or.inl rfl⟩
    simp only [step, hc, Option.bind_some, he, Option.map_some]
  have hgood := hinv.good i c hc hwaited
  cases hphase : c.phase with
  | start | probing | queueing | waiting => simp [distance, hphase] at hlate
  | returned ok => simp [distance, hphase] at hopen
  | timedOut =>
      apply hown
      cases hdone : c.done <;> simp [recordStep, hphase, hdone]
  | abandoning =>
      apply hown
      by_cases hstate : c.state = .queued <;> simp [recordStep, hphase, hstate]
  | abandoningLate =>
      apply hown
      by_cases hstate : c.state = .writing <;> simp [recordStep, hphase, hstate]
  | gaveUp | returning ok =>
      apply hown
      simp [recordStep, hphase]
  | lastWait =>
      rcases hgood.lastWait hphase with ⟨ok, hdone, -⟩ | ⟨hdone, hlast⟩
      · apply hown
        simp [recordStep, hphase, hdone]
      -- the writer has the item, and is past its last write
      obtain ⟨hold, hhold, hlast⟩ : ∃ hold, holdOf s i = some hold ∧
          (hold = .restore ∨ ∃ ok, hold = .deliver ok) := by
        rcases hlast with hhold | ⟨ok, hhold⟩
        · exact ⟨_, hhold, Or.inl rfl⟩
        · exact ⟨_, hhold, Or.inr ⟨ok, rfl⟩⟩
      have hwriter : s.writer = some (i, hold) := by
        obtain ⟨⟨j, hold'⟩, hwriter, heq⟩ := Option.bind_eq_some_iff.mp hhold
        split_ifs at heq with hji
        obtain rfl := Option.some.inj heq
        rw [hwriter, ← hji]
      obtain ⟨e, he, hattempt⟩ : ∃ e, writerStep s.flags hold c true = some e ∧
          e.attempt = none := by
        rcases hlast with rfl | ⟨ok, rfl⟩
        · exact ⟨_, rfl, rfl⟩
        · exact ⟨_, by simp only [writerStep, hdone, if_true]; rfl, rfl⟩
      refine ⟨.writer true, s.handled i e, e.call, ?_, by simp [State.handled, hlt],
        distance_lt_of_writer he hphase hdone hhold hlast (holdOf_self e.hold rfl),
        Or.inr ⟨rfl, by simp [State.handled, hattempt]⟩⟩
      simp only [step, hwriter, hc, Option.bind_some, he, Option.map_some]

/-- **No record, no flow, and no false allow.** In every reachable state and whatever
happens later: a call that returned true has its allow line in the log, and no refusal of
it is ever written; a call that returned false has, once the writer is done with its item,
no allow line in the log or one that its refusal follows, unless the write of that
follow-up failed. And a call that timed out does not block: until it returns some step,
its own or one of the writer that does not wait for the disk, brings it closer to its
return, and no step takes it further away. -/
theorem no_record_no_flow {s : State} (hreach : Reachable step init s) {i : Nat} {c : Call}
    (hc : s.calls[i]? = some c) (hallow : c.record.verdict = "allow") :
    (∀ labels later, run step s labels = some later →
      (c.phase = .returned true → ⟨i, c.record, true⟩ ∈ log later ∧ ¬ HasRefusal later i) ∧
      (c.phase = .returned false → Quiescent later i → ¬ HasAllow later i ∨ Followed later i)) ∧
    (0 < distance s i c → distance s i c < 8 →
      ∃ label next c', step s label = some next ∧ next.calls[i]? = some c' ∧
        distance next i c' < distance s i c ∧
        (label = .record i false ∨ (label = .writer true ∧ next.attempts = s.attempts))) ∧
    ∀ label next, step s label = some next →
      ∃ c', next.calls[i]? = some c' ∧ distance next i c' ≤ distance s i c := by
  have hkeep : ∀ s label next, Inv s → step s label = some next → Inv next :=
    fun _ _ _ hinv hstep => hinv.step hstep
  have hinv : Inv s := hreach.invariant Inv.init hkeep
  have hwaited : c.waited = true := by simpa [Call.waited] using hallow
  refine ⟨?_, fun hopen hlate => exists_closer_step hinv hwaited hc hlate hopen,
    fun label next hstep => distance_le_of_step hinv hwaited hc hstep⟩
  intro labels later hrun
  have hlater : Inv later := run_preserves hkeep hinv hrun
  constructor
  · intro hphase
    obtain ⟨c', hc', hrec, hphase'⟩ := returned_of_run ⟨c, hc, rfl, hphase⟩ hrun
    have hhist := (hlater.good i c' hc' (by simpa [Call.waited, hrec] using hallow)).returned_true
      hphase'
    rw [hrec] at hhist
    refine ⟨List.mem_filter.mpr ⟨exists_attempt (by simp [hhist]), rfl⟩, ?_⟩
    rintro ⟨a, ha, rfl, hverdict⟩
    have hmem := mem_history ha
    rw [hhist, List.mem_singleton] at hmem
    exact hverdict ((Prod.mk.inj hmem).1 ▸ hallow)
  · intro hphase ⟨hhold, hqueue⟩
    obtain ⟨c', hc', hrec, hphase'⟩ := returned_of_run ⟨c, hc, rfl, hphase⟩ hrun
    have hgood := hlater.good i c' hc' (by simpa [Call.waited, hrec] using hallow)
    rw [hhold, hqueue] at hgood
    rcases hgood.returned_false hphase' with hnone | ⟨followed, hhist⟩
    · left
      rintro ⟨a, ha, rfl, hverdict⟩
      obtain ⟨hmem, hok⟩ := List.mem_filter.mp ha
      have hrefused : a.record = refused c'.record := hnone _ (mem_history hmem) hok
      exact refused_verdict _ (hrefused ▸ hverdict)
    · right
      exact followed_of_history (hrec ▸ hallow) hhist

/-! ### Three runs

A record that is written in time, one that is claimed back too late, and one that is given up. -/

def sshRecord : FlowRecord where
  time := 0
  peer := "device:7"
  device := "laptop"
  owner := "ann"
  source := "10.90.0.7:40000"
  dest := "192.168.1.10:22"
  proto := "tcp"
  verdict := "allow"
  reason := ""
  bytesUp := 0
  bytesDn := 0

/-- The record is queued, claimed, written, settled and delivered in time. -/
def admitted : List Label :=
  [.call sshRecord, .record 0 false, .record 0 false] ++ List.replicate 7 (.writer true) ++
    [.record 0 false, .record 0 false]

def admittedState : State where
  flags := ⟨false, false, 0⟩
  calls := [⟨sshRecord, .returned true, false, .written, none⟩]
  queue := []
  writer := none
  attempts := [⟨0, sshRecord, true⟩]

/-- The wait is over just after the writer has claimed the record. -/
def overtaken : List Label :=
  [.call sshRecord, .record 0 false, .record 0 false, .writer true, .writer true, .record 0 true]

def overtakenState : State where
  flags := ⟨false, false, 0⟩
  calls := [⟨sshRecord, .timedOut, false, .writing, none⟩]
  queue := []
  writer := some (0, .write true)
  attempts := []

/-- The admission gives up, and the writer has its allow line followed by a refusal. -/
def givenUp : List Label := List.replicate 5 (.record 0 false) ++ List.replicate 6 (.writer true)

def givenUpState : State where
  flags := ⟨true, false, 0⟩
  calls := [⟨sshRecord, .returned false, false, .abandonedLate, some true⟩]
  queue := []
  writer := none
  attempts := [⟨0, sshRecord, true⟩, ⟨0, refused sshRecord, true⟩]

theorem no_record_no_flow_admitted :
    (⟨0, sshRecord, true⟩ ∈ log admittedState ∧ ¬ HasRefusal admittedState 0) ∧
      (∃ label next c', step overtakenState label = some next ∧ next.calls[0]? = some c' ∧
        distance next 0 c' < 7) ∧
      run step overtakenState givenUp = some givenUpState ∧ Followed givenUpState 0 := by
  have hadmitted : Reachable step init admittedState := ⟨admitted, by decide⟩
  have hovertaken : Reachable step init overtakenState := ⟨overtaken, by decide⟩
  have hgivenUp : Reachable step init givenUpState := ⟨overtaken ++ givenUp, by decide⟩
  refine ⟨((no_record_no_flow hadmitted (i := 0) rfl rfl).1 [] admittedState rfl).1 rfl, ?_,
    by decide, ?_⟩
  · obtain ⟨label, next, c', hstep, hc', hcloser, -⟩ :=
      (no_record_no_flow hovertaken (i := 0) rfl rfl).2.1 (by decide) (by decide)
    exact ⟨label, next, c', hstep, hc', hcloser⟩
  · have hallow : HasAllow givenUpState 0 := ⟨⟨0, sshRecord, true⟩, by decide, rfl, rfl⟩
    exact (((no_record_no_flow hgivenUp (i := 0) rfl rfl).1 [] givenUpState rfl).2 rfl
      ⟨rfl, rfl⟩).resolve_left (absurd hallow)

end Quicgate.FlowLog
