import Mathlib.Algebra.BigOperators.Group.List.Lemmas
import Mathlib.Algebra.Order.BigOperators.Group.List
import Mathlib.Algebra.Order.Ring.Nat
import Quicgate.GoMaps
import Quicgate.Netip
import Quicgate.TransitionSystem

/-!
# The admission of UDP flows

`src/internal/wg/forward.go`: `forwardUDP`, `udpAdmitter`, `udpWorker` and the deny cache.  The
receive path of the tunnel must not wait, so the first datagram of a flow is queued for one of
a few workers, unless the flow was refused lately.  Each stack instance has an admitter of its
own; the deny cache is the manager's.

What the admission itself decides is the subject of `Quicgate.WgFlows`; here its answer is part
of the step's label.  `accepted` and `taken` list the requests in the order in which they were
queued and in which the workers took them, and `refusals` those that were noted since the last
reload, with the time.

`one_admission_each` certifies the admitters of every reachable state, and `dropped_for_cause`
what a datagram that is dropped was dropped for.
-/

namespace Quicgate.UdpAdmission

open Quicgate.GoMaps Quicgate.Netip Quicgate.TransitionSystem

/-! ### The admitter

An admitter counts what it has under way by flow and by source; `settle` takes a finished
request out of both. -/

structure FlowKey where
  proto : String
  src : AddrPort
  dst : AddrPort
deriving DecidableEq, Repr

def udpAdmitWorkers : Nat := 8
def udpAdmitQueue : Nat := 256
def udpAdmitPerSource : Nat := 32

/-- Where a worker stands with its request: `admitFlow`, `noteDenied` after a refusal, `settle`. -/
inductive Worker
  | idle
  | admitting (k : FlowKey)
  | noting (k : FlowKey)
  | settling (k : FlowKey)
  | gone
deriving DecidableEq, Repr

def Worker.key : Worker → Option FlowKey
  | .idle => none
  | .admitting k => some k
  | .noting k => some k
  | .settling k => some k
  | .gone => none

structure Admitter where
  pending : GoMap FlowKey Unit
  bySrc : GoMap Addr Nat
  queue : List FlowKey
  workers : List Worker
  done : Bool -- the stack has ended
  accepted : List FlowKey
  taken : List FlowKey

namespace Admitter

def new : Admitter := ⟨∅, ∅, [], List.replicate udpAdmitWorkers .idle, false, [], []⟩

def share (a : Admitter) (addr : Addr) : Nat := (a.bySrc.lookup addr).getD 0

/-- The request is taken unless the flow's admission is pending, the source has its share or the
queue is full. -/
def enqueue (a : Admitter) (k : FlowKey) : Admitter × Bool :=
  if (a.pending.lookup k).isSome || udpAdmitPerSource ≤ a.share k.src.addr then (a, false)
  else if udpAdmitQueue ≤ a.queue.length then (a, false)
  else ({ a with
    queue := a.queue ++ [k]
    pending := a.pending.insert k ()
    bySrc := a.bySrc.insert k.src.addr (a.share k.src.addr + 1)
    accepted := a.accepted ++ [k] }, true)

def settle (a : Admitter) (k : FlowKey) : Admitter := { a with
  pending := a.pending.erase k
  bySrc := if a.share k.src.addr ≤ 1 then a.bySrc.erase k.src.addr
    else a.bySrc.insert k.src.addr (a.share k.src.addr - 1) }

/-- The queued requests and those in a worker's hands that `f` counts. -/
def weigh (a : Admitter) (f : FlowKey → Bool) : Nat :=
  a.workers.countP (fun w => w.key.any f) + a.queue.countP f

end Admitter

/-! ### The deny cache

A refusal is good for 30 seconds and is forgotten at a reload. -/

def denyCacheFor : Int := 30000000000

def denyCacheMax : Nat := 8192

def recentlyDenied (denied : GoMap FlowKey Int) (k : FlowKey) (now : Int) :
    Bool × GoMap FlowKey Int :=
  match denied.lookup k with
  | none => (false, denied)
  | some till => if till < now then (false, denied.erase k) else (true, denied)

/-- A refusal is remembered; when the cache is full, expired entries go first. -/
def noteDenied (denied : GoMap FlowKey Int) (k : FlowKey) (now : Int) : GoMap FlowKey Int :=
  if denyCacheMax ≤ denied.len then
    let live := denied.eraseAll ((denied.pairs.filter fun e => e.2 < now).map Prod.fst)
    if denyCacheMax ≤ live.len then live else live.insert k (now + denyCacheFor)
  else denied.insert k (now + denyCacheFor)

/-! ### The system

A step is a datagram that comes in, a worker's next step, or a change of the endpoint. -/

structure System where
  admitters : List Admitter
  denied : GoMap FlowKey Int
  refusals : List (FlowKey × Int)
  now : Int

def init (now : Int) : System := ⟨[], ∅, [], now⟩

inductive Label
  | install -- a stack instance starts
  | datagram (a : Nat) (k : FlowKey)
  | take (a w : Nat)
  | admitted (a w : Nat) (ok : Bool)
  | note (a w : Nat)
  | settle (a w : Nat)
  | stop (a : Nat)
  | leave (a w : Nat)
  | reload -- `Apply`: `forgetDenials`
  | pass (d : Nat)

def Admitter.work (a : Admitter) (w : Nat) : Worker → Label → Option Admitter
  | .idle, .take _ _ =>
    match a.queue with
    | [] => none
    | k :: rest => some { a with
        queue := rest, taken := a.taken ++ [k], workers := a.workers.set w (.admitting k) }
  | .idle, .leave _ _ => if a.done then some { a with workers := a.workers.set w .gone } else none
  | .admitting k, .admitted _ _ ok =>
    some { a with workers := a.workers.set w (if ok then .settling k else .noting k) }
  | .noting k, .note _ _ => some { a with workers := a.workers.set w (.settling k) }
  | .settling k, .settle _ _ => some { a.settle k with workers := a.workers.set w .idle }
  | _, _ => none

def System.work (s : System) (a w : Nat) (label : Label) : Option System := do
  let admitter ← s.admitters[a]?
  let worker ← admitter.workers[w]?
  let admitter' ← admitter.work w worker label
  some { s with admitters := s.admitters.set a admitter' }

def step (s : System) : Label → Option System
  | .install => some { s with admitters := s.admitters ++ [.new] }
  | .datagram a k => do
    let admitter ← s.admitters[a]?
    let looked := recentlyDenied s.denied k s.now
    let s := { s with denied := looked.2 }
    if looked.1 then some s
    else some { s with admitters := s.admitters.set a (admitter.enqueue k).1 }
  | .take a w => s.work a w (.take a w)
  | .admitted a w ok => s.work a w (.admitted a w ok)
  | .note a w => do
    let admitter ← s.admitters[a]?
    let .noting k ← admitter.workers[w]? | none
    let s' ← s.work a w (.note a w)
    some { s' with denied := noteDenied s.denied k s.now, refusals := (k, s.now) :: s.refusals }
  | .settle a w => s.work a w (.settle a w)
  | .stop a => do
    let admitter ← s.admitters[a]?
    some { s with admitters := s.admitters.set a { admitter with done := true } }
  | .leave a w => s.work a w (.leave a w)
  | .reload => some { s with denied := ∅, refusals := [] }
  | .pass d => some { s with now := s.now + d }

/-! ### What holds of an admitter

The two maps say what is in the queue and in the hands of workers, and every step keeps it so. -/

/-- The maps say what is under way, nothing is queued twice, every bound is kept, and the workers
take the requests in the order in which they were queued. -/
structure Admitter.Sound (a : Admitter) : Prop where
  pending : ∀ k, a.weigh (· == k) = (a.pending.lookup k).isSome.toNat
  bySrc : ∀ addr, a.share addr = a.weigh (·.src.addr == addr)
  positive : ∀ addr n, a.bySrc.lookup addr = some n → 0 < n
  perSource : ∀ addr, a.share addr ≤ udpAdmitPerSource
  bounded : a.queue.length ≤ udpAdmitQueue
  workers : a.workers.length = udpAdmitWorkers
  inOrder : a.accepted = a.taken ++ a.queue

variable {a a' : Admitter} {k : FlowKey} {w : Nat} {worker worker' : Worker}

theorem Admitter.Sound.new : Admitter.new.Sound where
  pending k := by simp [Admitter.new, Admitter.weigh, Worker.key]
  bySrc addr := by
    simp [Admitter.new, Admitter.weigh, Admitter.share, Worker.key, List.countP_replicate]
  positive addr n h := by cases h
  perSource addr := by simp [Admitter.new, Admitter.share]
  bounded := Nat.zero_le _
  workers := List.length_replicate
  inOrder := rfl

/-- A worker that goes on with what it has changes no count. -/
theorem weigh_set_worker {workers : List Worker} (hw : workers[w]? = some worker)
    (hkey : worker'.key = worker.key) (f : FlowKey → Bool) :
    (workers.set w worker').countP (fun w => w.key.any f) =
      workers.countP (fun w => w.key.any f) := by
  have hcount := countP_set_add hw worker' fun w => w.key.any f
  rw [hkey] at hcount
  omega

theorem Admitter.Sound.goOn (h : a.Sound) (hw : a.workers[w]? = some worker)
    (hkey : worker'.key = worker.key) : Sound { a with workers := a.workers.set w worker' } := by
  have hweigh : ∀ f, weigh { a with workers := a.workers.set w worker' } f = a.weigh f := by
    intro f
    rw [weigh, weigh, weigh_set_worker hw hkey]
  constructor
  · intro k
    rw [hweigh]
    exact h.pending k
  · intro addr
    rw [hweigh]
    exact h.bySrc addr
  · exact h.positive
  · exact h.perSource
  · exact h.bounded
  · rw [List.length_set]
    exact h.workers
  · exact h.inOrder

theorem Admitter.Sound.take (h : a.Sound) {rest : List FlowKey} (hw : a.workers[w]? = some .idle)
    (hqueue : a.queue = k :: rest) : Sound { a with
      queue := rest, taken := a.taken ++ [k], workers := a.workers.set w (.admitting k) } := by
  have hweigh : ∀ f, weigh { a with
      queue := rest, taken := a.taken ++ [k], workers := a.workers.set w (.admitting k) } f =
        a.weigh f := by
    intro f
    have hcount := countP_set_add hw (.admitting k) fun w => w.key.any f
    have hnone : (Worker.idle.key.any f).toNat = 0 := rfl
    have hsome : ((Worker.admitting k).key.any f).toNat = (f k).toNat := rfl
    simp only [weigh, hqueue, List.countP_cons]
    cases hf : f k <;> simp only [hnone, hsome, hf, Bool.toNat_true, Bool.toNat_false] at hcount <;>
      simp <;> omega
  constructor
  · intro k'
    rw [hweigh]
    exact h.pending k'
  · intro addr
    rw [hweigh]
    exact h.bySrc addr
  · exact h.positive
  · exact h.perSource
  · have hle := h.bounded
    rw [hqueue, List.length_cons] at hle
    exact Nat.le_of_succ_le hle
  · rw [List.length_set]
    exact h.workers
  · simp [h.inOrder, hqueue]

theorem lookup_unit_insert (m : GoMap FlowKey Unit) (k k' : FlowKey) :
    ((m.insert k ()).lookup k').isSome = (k' == k || (m.lookup k').isSome) := by
  by_cases heq : k' = k
  · subst heq
    simp
  · simp [heq, AList.lookup_insert_ne heq]

/-! ### Queueing and settling

Queueing and settling change the two maps, and a worker's other steps none of them. -/

theorem Admitter.Sound.enqueue (h : a.Sound) (k : FlowKey) : (a.enqueue k).1.Sound := by
  unfold Admitter.enqueue
  split
  · exact h
  · rename_i hfree
    simp only [Bool.or_eq_true, decide_eq_true_eq, not_or, Bool.not_eq_true, not_le] at hfree
    obtain ⟨hpending, hshare⟩ := hfree
    split
    · exact h
    · rename_i hroom
      have hweigh : ∀ (f : FlowKey → Bool) (pending : GoMap FlowKey Unit) (bySrc : GoMap Addr Nat)
          (accepted : List FlowKey), weigh { a with
            queue := a.queue ++ [k], pending := pending, bySrc := bySrc, accepted := accepted } f =
          a.weigh f + (f k).toNat := by
        intro f pending bySrc accepted
        simp only [weigh, List.countP_append, List.countP_singleton]
        cases f k
        · simp
        · simp
          omega
      constructor
      · intro k'
        rw [hweigh, h.pending k', lookup_unit_insert]
        by_cases heq : k' = k
        · subst heq
          simp [hpending]
        · have hne : (k' == k) = false := beq_eq_false_iff_ne.mpr heq
          have hne' : (k == k') = false := beq_eq_false_iff_ne.mpr (Ne.symm heq)
          rw [hne, hne', Bool.toNat_false, Bool.false_or, Nat.add_zero]
      · intro addr
        rw [hweigh, ← h.bySrc addr]
        by_cases heq : addr = k.src.addr
        · subst heq
          simp [share]
        · simp [share, AList.lookup_insert_ne heq, Ne.symm heq]
      · intro addr n hn
        by_cases heq : addr = k.src.addr
        · subst heq
          rw [AList.lookup_insert] at hn
          rw [← Option.some.inj hn]
          exact Nat.succ_pos _
        · rw [AList.lookup_insert_ne heq] at hn
          exact h.positive addr n hn
      · intro addr
        by_cases heq : addr = k.src.addr
        · subst heq
          simp only [share, AList.lookup_insert, Option.getD_some]
          exact hshare
        · simpa [share, AList.lookup_insert_ne heq] using h.perSource addr
      · rw [List.length_append, List.length_singleton]
        omega
      · exact h.workers
      · rw [h.inOrder, List.append_assoc]

/-- `settle` gives one place of the source's share back. -/
theorem share_settle (a : Admitter) (k : FlowKey) (addr : Addr) :
    (a.settle k).share addr = a.share addr - (k.src.addr == addr).toNat := by
  change ((if a.share k.src.addr ≤ 1 then a.bySrc.erase k.src.addr
    else a.bySrc.insert k.src.addr (a.share k.src.addr - 1)).lookup addr).getD 0 =
    (a.bySrc.lookup addr).getD 0 - _
  by_cases heq : addr = k.src.addr
  · subst heq
    rw [beq_self_eq_true, Bool.toNat_true]
    by_cases hlast : a.share k.src.addr ≤ 1
    · rw [if_pos hlast, AList.lookup_erase]
      exact (Nat.sub_eq_zero_of_le hlast).symm
    · rw [if_neg hlast, AList.lookup_insert]
      rfl
  · rw [beq_eq_false_iff_ne.mpr (Ne.symm heq), Bool.toNat_false, Nat.sub_zero]
    by_cases hlast : a.share k.src.addr ≤ 1
    · rw [if_pos hlast, AList.lookup_erase_ne heq]
    · rw [if_neg hlast, AList.lookup_insert_ne heq]

theorem positive_settle (hpos : ∀ addr n, a.bySrc.lookup addr = some n → 0 < n) (k : FlowKey)
    {addr : Addr} {n : Nat} (hn : (a.settle k).bySrc.lookup addr = some n) : 0 < n := by
  simp only [Admitter.settle] at hn
  by_cases hlast : a.share k.src.addr ≤ 1
  · rw [if_pos hlast] at hn
    by_cases heq : addr = k.src.addr
    · subst heq
      rw [AList.lookup_erase] at hn
      cases hn
    · rw [AList.lookup_erase_ne heq] at hn
      exact hpos addr n hn
  · rw [if_neg hlast] at hn
    by_cases heq : addr = k.src.addr
    · subst heq
      rw [AList.lookup_insert] at hn
      rw [← Option.some.inj hn]
      omega
    · rw [AList.lookup_insert_ne heq] at hn
      exact hpos addr n hn

theorem Admitter.Sound.settle (h : a.Sound) (hw : a.workers[w]? = some (.settling k)) :
    Sound { a.settle k with workers := a.workers.set w .idle } := by
  have hweigh : ∀ f, weigh { a.settle k with workers := a.workers.set w .idle } f + (f k).toNat =
      a.weigh f := by
    intro f
    have hcount := countP_set_add hw .idle fun w => w.key.any f
    have hnone : (Worker.idle.key.any f).toNat = 0 := rfl
    have hsome : ((Worker.settling k).key.any f).toNat = (f k).toNat := rfl
    simp only [hnone, hsome] at hcount
    simp only [weigh, Admitter.settle]
    omega
  constructor
  · intro k'
    have hbefore := h.pending k'
    have hafter := hweigh (· == k')
    by_cases heq : k' = k
    · subst heq
      have hle := Bool.toNat_le (a.pending.lookup k').isSome
      have hgone : ((a.settle k').pending.lookup k').isSome = false := by
        simp [Admitter.settle]
      rw [beq_self_eq_true, Bool.toNat_true] at hafter
      rw [hgone, Bool.toNat_false]
      omega
    · have hne : (k == k') = false := beq_eq_false_iff_ne.mpr (Ne.symm heq)
      have hsame : (a.settle k).pending.lookup k' = a.pending.lookup k' :=
        AList.lookup_erase_ne heq
      rw [hne, Bool.toNat_false] at hafter
      rw [hsame]
      omega
  · intro addr
    have hafter := hweigh (·.src.addr == addr)
    have hleft := share_settle a k addr
    have hbefore := h.bySrc addr
    change (a.settle k).share addr = _
    omega
  · exact fun addr n hn => positive_settle h.positive k hn
  · intro addr
    have hleft := share_settle a k addr
    have hle := h.perSource addr
    change (a.settle k).share addr ≤ _
    omega
  · exact h.bounded
  · rw [List.length_set]
    exact h.workers
  · exact h.inOrder

/-- Every step of a worker keeps what holds of its admitter. -/
theorem Admitter.Sound.work {label : Label} (h : a.Sound) (hw : a.workers[w]? = some worker)
    (hwork : a.work w worker label = some a') : a'.Sound := by
  unfold Admitter.work at hwork
  split at hwork
  · split at hwork
    · cases hwork
    · rename_i hqueue
      obtain rfl := Option.some.inj hwork
      exact h.take hw hqueue
  · split at hwork
    · obtain rfl := Option.some.inj hwork
      exact h.goOn hw rfl
    · cases hwork
  · rename_i k _ _ ok
    obtain rfl := Option.some.inj hwork
    refine h.goOn hw ?_
    cases ok <;> rfl
  · obtain rfl := Option.some.inj hwork
    exact h.goOn hw rfl
  · obtain rfl := Option.some.inj hwork
    exact h.settle hw
  · cases hwork

/-! ### The queue

A full queue of 256 requests with at most 32 from a source has eight sources or more. -/

def Admitter.sources (a : Admitter) : List Addr := (a.queue.map fun k => k.src.addr).dedup

/-- A source fills no more of the queue than its share. -/
theorem Admitter.Sound.queue_le (h : a.Sound) :
    a.queue.length ≤ udpAdmitPerSource * a.sources.length := by
  have hsum : (a.sources.map fun addr => (a.queue.map fun k => k.src.addr).count addr).sum =
      a.queue.length := by
    rw [Admitter.sources, List.sum_map_count_dedup_eq_length, List.length_map]
  have hone : ∀ n ∈ a.sources.map fun addr => (a.queue.map fun k => k.src.addr).count addr,
      n ≤ udpAdmitPerSource := by
    intro n hn
    obtain ⟨addr, -, rfl⟩ := List.mem_map.mp hn
    have hshare := h.perSource addr
    rw [h.bySrc, Admitter.weigh] at hshare
    rw [List.count, List.countP_map]
    exact Nat.le_trans (Nat.le_add_left _ _) hshare
  have hle := List.sum_le_card_nsmul _ _ hone
  rw [hsum, List.length_map, Nat.nsmul_eq_mul, Nat.mul_comm] at hle
  exact hle

/-- A request is turned away for the admission that is under way, for its source's share, or when
at least eight sources share a full queue. -/
theorem Admitter.Sound.of_refused (h : a.Sound) (hrefused : (a.enqueue k).2 = false) :
    a.weigh (· == k) = 1 ∨ a.weigh (·.src.addr == k.src.addr) = udpAdmitPerSource ∨
      (a.queue.length = udpAdmitQueue ∧ 8 ≤ a.sources.length) := by
  unfold Admitter.enqueue at hrefused
  split at hrefused
  · rename_i hcond
    simp only [Bool.or_eq_true, decide_eq_true_eq] at hcond
    rcases hcond with hpending | hshare
    · left
      rw [h.pending k, hpending]
      rfl
    · right
      left
      rw [← h.bySrc]
      exact Nat.le_antisymm (h.perSource k.src.addr) hshare
  · split at hrefused
    · rename_i hfull
      have hlength : a.queue.length = udpAdmitQueue := Nat.le_antisymm h.bounded hfull
      have hle := h.queue_le
      rw [hlength, udpAdmitQueue, udpAdmitPerSource] at hle
      exact Or.inr (Or.inr ⟨hlength, by omega⟩)
    · cases hrefused

/-! ### The cache

An entry of the cache is a refusal since the last reload. -/

theorem len_noteDenied (denied : GoMap FlowKey Int) (k : FlowKey) (now : Int)
    (h : denied.len ≤ denyCacheMax) : (noteDenied denied k now).len ≤ denyCacheMax := by
  have hinsert : ∀ m : GoMap FlowKey Int, m.len < denyCacheMax →
      GoMap.len (m.insert k (now + denyCacheFor)) ≤ denyCacheMax := by
    intro m hm
    rw [GoMap.len_insert]
    have := GoMap.len_erase_le m k
    omega
  simp only [noteDenied]
  split
  · split
    · exact Nat.le_trans (GoMap.len_eraseAll_le _ _) h
    · exact hinsert _ (by omega)
  · exact hinsert _ (by omega)

theorem of_lookup_noteDenied {denied : GoMap FlowKey Int} {k key : FlowKey} {now till : Int}
    (h : (noteDenied denied k now).lookup key = some till) :
    denied.lookup key = some till ∨ (key = k ∧ till = now + denyCacheFor) := by
  have hinsert : ∀ m : GoMap FlowKey Int, (m.insert k (now + denyCacheFor)).lookup key = some till →
      m.lookup key = some till ∨ (key = k ∧ till = now + denyCacheFor) := by
    intro m hm
    by_cases heq : key = k
    · subst heq
      rw [AList.lookup_insert] at hm
      exact Or.inr ⟨rfl, (Option.some.inj hm).symm⟩
    · rw [AList.lookup_insert_ne heq] at hm
      exact Or.inl hm
  have herase : ∀ keys, (denied.eraseAll keys).lookup key = some till →
      denied.lookup key = some till := by
    intro keys hm
    rw [GoMap.lookup_eraseAll] at hm
    split at hm
    · cases hm
    · exact hm
  simp only [noteDenied] at h
  split at h
  · split at h
    · exact Or.inl (herase _ h)
    · exact (hinsert _ h).imp_left (herase _)
  · exact hinsert _ h

/-! ### The system -/

structure Inv (s : System) : Prop where
  admitters : ∀ a ∈ s.admitters, a.Sound
  cache : s.denied.len ≤ denyCacheMax
  noted : ∀ k till, s.denied.lookup k = some till → (k, till - denyCacheFor) ∈ s.refusals
  past : ∀ e ∈ s.refusals, e.2 ≤ s.now

variable {s s' : System}

theorem Inv.init (now : Int) : Inv (init now) where
  admitters a ha := absurd ha List.not_mem_nil
  cache := Nat.zero_le _
  noted k till h := by cases h
  past e he := absurd he List.not_mem_nil

theorem Inv.setAdmitter (h : Inv s) {i : Nat} (ha : a.Sound) :
    Inv { s with admitters := s.admitters.set i a } where
  admitters b hb := by
    rcases List.mem_or_eq_of_mem_set hb with hold | rfl
    · exact h.admitters b hold
    · exact ha
  cache := h.cache
  noted := h.noted
  past := h.past

theorem of_work {i : Nat} {label : Label} (hwork : s.work i w label = some s') :
    ∃ admitter worker admitter', s.admitters[i]? = some admitter ∧
      admitter.workers[w]? = some worker ∧ admitter.work w worker label = some admitter' ∧
      s' = { s with admitters := s.admitters.set i admitter' } := by
  simp only [System.work, Option.bind_eq_bind, Option.bind_eq_some_iff] at hwork
  obtain ⟨admitter, hadmitter, worker, hworker, admitter', hwork, hs'⟩ := hwork
  exact ⟨admitter, worker, admitter', hadmitter, hworker, hwork, (Option.some.inj hs').symm⟩

theorem Inv.work (h : Inv s) {i : Nat} {label : Label} (hwork : s.work i w label = some s') :
    Inv s' := by
  obtain ⟨admitter, worker, admitter', hadmitter, hworker, hmove, rfl⟩ := of_work hwork
  exact h.setAdmitter ((h.admitters _ (List.mem_of_getElem? hadmitter)).work hworker hmove)

theorem Inv.step (h : Inv s) {label : Label} (hstep : step s label = some s') : Inv s' := by
  cases label with
  | install =>
      obtain rfl := Option.some.inj hstep
      refine ⟨?_, h.cache, h.noted, h.past⟩
      intro a ha
      rcases List.mem_append.mp ha with hold | hnew
      · exact h.admitters a hold
      · rw [List.mem_singleton.mp hnew]
        exact .new
  | datagram i k =>
      simp only [UdpAdmission.step, Option.bind_eq_bind, Option.bind_eq_some_iff] at hstep
      obtain ⟨admitter, hadmitter, hstep⟩ := hstep
      have hlooked : Inv { s with denied := (recentlyDenied s.denied k s.now).2 } := by
        unfold recentlyDenied
        split
        · exact h
        · split
          · refine ⟨h.admitters, Nat.le_trans (GoMap.len_erase_le _ _) h.cache, ?_, h.past⟩
            intro key till hkey
            by_cases heq : key = k
            · subst heq
              rw [AList.lookup_erase] at hkey
              cases hkey
            · rw [AList.lookup_erase_ne heq] at hkey
              exact h.noted key till hkey
          · exact h
      split at hstep
      · obtain rfl := Option.some.inj hstep
        exact hlooked
      · obtain rfl := Option.some.inj hstep
        exact hlooked.setAdmitter ((h.admitters _ (List.mem_of_getElem? hadmitter)).enqueue k)
  | take i w => exact h.work hstep
  | admitted i w ok => exact h.work hstep
  | note i w =>
      simp only [UdpAdmission.step, Option.bind_eq_bind, Option.bind_eq_some_iff] at hstep
      obtain ⟨admitter, hadmitter, worker, hworker, hstep⟩ := hstep
      split at hstep
      · rename_i k
        simp only [Option.bind_eq_some_iff] at hstep
        obtain ⟨middle, hwork, hnote⟩ := hstep
        obtain rfl := Option.some.inj hnote
        have hmiddle := h.work hwork
        obtain ⟨_, _, _, _, _, _, rfl⟩ := of_work hwork
        refine ⟨hmiddle.admitters, len_noteDenied _ _ _ h.cache, ?_, ?_⟩
        · intro key till hkey
          rcases of_lookup_noteDenied hkey with hold | ⟨rfl, rfl⟩
          · exact List.mem_cons_of_mem _ (h.noted key till hold)
          · simp
        · intro e he
          rcases List.mem_cons.mp he with rfl | hold
          · exact le_refl _
          · exact h.past e hold
      · cases hstep
  | settle i w => exact h.work hstep
  | stop i =>
      simp only [UdpAdmission.step, Option.bind_eq_bind, Option.bind_eq_some_iff] at hstep
      obtain ⟨admitter, hadmitter, hstep⟩ := hstep
      obtain rfl := Option.some.inj hstep
      have hsound := h.admitters _ (List.mem_of_getElem? hadmitter)
      exact h.setAdmitter ⟨hsound.pending, hsound.bySrc, hsound.positive, hsound.perSource,
        hsound.bounded, hsound.workers, hsound.inOrder⟩
  | leave i w => exact h.work hstep
  | reload =>
      obtain rfl := Option.some.inj hstep
      refine ⟨h.admitters, Nat.zero_le _, ?_, fun e he => absurd he List.not_mem_nil⟩
      intro key till hkey
      cases hkey
  | pass d =>
      obtain rfl := Option.some.inj hstep
      refine ⟨h.admitters, h.cache, h.noted, ?_⟩
      intro e he
      have := h.past e he
      simp only
      omega

theorem inv_of_run {now : Int} {labels : List Label} (hrun : run step (init now) labels = some s) :
    Inv s :=
  run_preserves (fun _ _ _ h hstep => Inv.step h hstep) (.init now) hrun

/-! ### The results -/

/-- One admission at a time.  In every reachable state, of every instance's admitter: a flow is
queued or in a worker's hands at most once, and exactly when it is noted as pending; a source's
count is that of its requests under way and never more than its share, and nothing is kept of a
source that has none; the queue keeps its bound; and the workers have taken the requests that
were queued in their order, without losing or repeating one. -/
theorem one_admission_each {now : Int} {labels : List Label}
    (hrun : run step (init now) labels = some s) (ha : a ∈ s.admitters) :
    (∀ k, a.weigh (· == k) = (a.pending.lookup k).isSome.toNat) ∧
      (∀ addr, a.share addr = a.weigh (·.src.addr == addr) ∧ a.share addr ≤ udpAdmitPerSource ∧
        ((a.bySrc.lookup addr).isSome = true ↔ 0 < a.weigh (·.src.addr == addr))) ∧
      a.queue.length ≤ udpAdmitQueue ∧ a.accepted = a.taken ++ a.queue := by
  have h := (inv_of_run hrun).admitters a ha
  refine ⟨h.pending, ?_, h.bounded, h.inOrder⟩
  intro addr
  refine ⟨h.bySrc addr, h.perSource addr, ?_⟩
  rw [← h.bySrc addr, Admitter.share]
  cases hlook : a.bySrc.lookup addr with
  | none => simp
  | some n => simpa using h.positive addr n hlook

/-- **What is dropped.**  In every reachable state, a first datagram is dropped only when its
flow was refused since the last reload and at most 30 seconds ago, or its flow's admission is
under way, or its source has its whole share under way, or at least eight sources share a full
queue; so seven sources cannot shut an eighth one out.  The cache of refusals keeps its bound.
-/
theorem dropped_for_cause {now : Int} {labels : List Label}
    (hrun : run step (init now) labels = some s) (ha : a ∈ s.admitters) (k : FlowKey) :
    s.denied.len ≤ denyCacheMax ∧
      ((recentlyDenied s.denied k s.now).1 = true →
        ∃ noted, (k, noted) ∈ s.refusals ∧ noted ≤ s.now ∧ s.now ≤ noted + denyCacheFor) ∧
      ((a.enqueue k).2 = false → a.weigh (· == k) = 1 ∨
        a.weigh (·.src.addr == k.src.addr) = udpAdmitPerSource ∨
        (a.queue.length = udpAdmitQueue ∧ 8 ≤ a.sources.length)) := by
  have h := inv_of_run hrun
  refine ⟨h.cache, ?_, (h.admitters a ha).of_refused⟩
  intro hdenied
  unfold recentlyDenied at hdenied
  split at hdenied
  · cases hdenied
  · rename_i till hlook
    split at hdenied
    · cases hdenied
    · rename_i hlive
      have hmem := h.noted k till hlook
      refine ⟨till - denyCacheFor, hmem, h.past _ hmem, ?_⟩
      omega

/-- A flow of a device behind 10.77.0.2. -/
def lookUp (port : UInt16) : FlowKey :=
  ⟨"udp", ⟨.v4 0x0a4d0002#32, port⟩, ⟨.v4 0xc0a80001#32, 53⟩⟩

theorem one_admission_each_refused :
    ∃ s a, run step (init 0) [.install, .datagram 0 (lookUp 1), .datagram 0 (lookUp 2),
        .datagram 0 (lookUp 1), .take 0 3, .admitted 0 3 false, .note 0 3, .settle 0 3,
        .datagram 0 (lookUp 1)] = some s ∧ s.admitters = [a] ∧ a.queue = [lookUp 2] ∧
      a.accepted = a.taken ++ a.queue := by
  have hend : (run step (init 0) [.install, .datagram 0 (lookUp 1), .datagram 0 (lookUp 2),
      .datagram 0 (lookUp 1), .take 0 3, .admitted 0 3 false, .note 0 3, .settle 0 3,
      .datagram 0 (lookUp 1)]).map (fun s => s.admitters.map Admitter.queue) =
      some [[lookUp 2]] := by
    decide +kernel
  obtain ⟨s, hs, hview⟩ := Option.map_eq_some_iff.mp hend
  obtain ⟨a, ha, hqueue⟩ := List.map_eq_singleton_iff.mp hview
  exact ⟨s, a, hs, ha, hqueue, (one_admission_each hs (by simp [ha])).2.2.2⟩

/-- A refused flow is dropped while the refusal is fresh, a queued one while it waits. -/
theorem dropped_for_cause_refused :
    ∃ s a, run step (init 0) [.install, .datagram 0 (lookUp 1), .take 0 0, .admitted 0 0 false,
        .note 0 0, .settle 0 0, .datagram 0 (lookUp 2), .pass 7] = some s ∧ a ∈ s.admitters ∧
      (∃ noted, (lookUp 1, noted) ∈ s.refusals ∧ noted ≤ s.now ∧ s.now ≤ noted + denyCacheFor) ∧
      (a.weigh (· == lookUp 2) = 1 ∨
        a.weigh (·.src.addr == (lookUp 2).src.addr) = udpAdmitPerSource ∨
        (a.queue.length = udpAdmitQueue ∧ 8 ≤ a.sources.length)) := by
  have hend : (run step (init 0) [.install, .datagram 0 (lookUp 1), .take 0 0, .admitted 0 0 false,
      .note 0 0, .settle 0 0, .datagram 0 (lookUp 2), .pass 7]).map (fun s =>
        (s.admitters.map fun a => (a.enqueue (lookUp 2)).2,
          (recentlyDenied s.denied (lookUp 1) s.now).1)) =
      some ([false], true) := by
    decide +kernel
  obtain ⟨s, hs, hview⟩ := Option.map_eq_some_iff.mp hend
  obtain ⟨hadmitters, hdenied⟩ := Prod.mk.inj hview
  obtain ⟨a, hlist, hrefused⟩ := List.map_eq_singleton_iff.mp hadmitters
  have ha : a ∈ s.admitters := by
    rw [hlist]
    exact List.mem_singleton.mpr rfl
  refine ⟨s, a, hs, ha, ?_, ?_⟩
  · exact (dropped_for_cause hs ha (lookUp 1)).2.1 hdenied
  · exact (dropped_for_cause hs ha (lookUp 2)).2.2 hrefused

end Quicgate.UdpAdmission
