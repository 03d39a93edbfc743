import Quicgate.WgFlows
import Quicgate.WgSites

/-!
# When an authorization ends

`scheduleExpiryLocked` (`src/internal/wg/manager.go`): a timer is armed for the next moment at
which a device's authorization ends.  When it fires, what is closed is decided from the state
of that moment, and the timer is armed again.  Once `Stop` is too late, the function of an old
timer still runs when it gets the lock.

The module puts a clock and the timer next to the manager of `Quicgate.WgFlows`.  Every step
that reads the time reads the clock.

* `Armed` is the invariant: the timer is never later than a deadline that somebody could still
  outlive, and whoever has something open is a configured peer.
* `closed_at_deadline` is the result: in a run whose timers are prompt, nothing outlives its
  deadline by more than the timer's slack and delay.
-/

namespace Quicgate.WgManager

open Quicgate.GoMaps Quicgate.Netip Quicgate.WgPolicy Quicgate.TransitionSystem

/-! ### The timer

The timer fires at the next deadline that is not over, `expirySlack` later. -/

/-- `m.expiry`: when it fires, and whether it has. -/
structure ExpiryTimer where
  fires : Int
  due : Bool
deriving DecidableEq, Repr

/-- 10 milliseconds. -/
def expirySlack : Int := 10000000

def earlier (now : Int) (next : Option Int) (p : ManagedPeer) : Option Int :=
  match p.untilTime with
  | none => next
  | some t =>
    if !p.active now then next
    else if next.isNone || next.any (t < ·) then some t else next

def nextDeadline (now : Int) (peers : List ManagedPeer) : Option Int :=
  peers.foldl (earlier now) none

/-- The timer that `scheduleExpiryLocked` leaves; what it closes is `Endpoint.expired`. -/
def scheduleExpiry (e : Endpoint) (now : Int) : Option ExpiryTimer :=
  if e.inst.isNone then none
  else (nextDeadline now (e.peers.pairs.map Prod.snd)).map fun t => ⟨t + expirySlack, false⟩

/-- The timer after `Apply`: it is stopped with the instance, and armed when the peers are
written. -/
def Endpoint.timerAfter (e : Endpoint) (cfg : Config) (ans : Answers) (timer : Option ExpiryTimer) :
    Option ExpiryTimer :=
  if !acceptable cfg then timer
  else
    let timer := if e.resetsFor cfg then none else timer
    if (e.prepared cfg).inst.isNone && !ans.started then timer -- nothing starts
    else scheduleExpiry (e.apply cfg ans).endpoint ans.now

/-! ### The clocked manager

The clock may stand still and may run on by any amount; the function of a timer that has fired
waits for the lock. -/

/-- `waiting` are the functions of timers that have fired and do not have the lock yet. -/
structure Clocked where
  manager : Manager
  now : Int
  timer : Option ExpiryTimer
  waiting : Nat

def Clocked.start (now : Int) : Clocked := ⟨.init, now, none, 0⟩

def Label.reads : Label → Option Int
  | .accept _ now => some now
  | .act _ _ now => some now
  | .apply _ ans => some ans.now
  | .expire now => some now
  | _ => none

def Manager.timerAfter (m : Manager) (timer : Option ExpiryTimer) : Label → Option ExpiryTimer
  | .apply cfg ans => m.endpoint.timerAfter cfg ans timer
  | .close => none
  | _ => timer

inductive Tick where
  | op (label : Label)
  | pass (d : Nat)
  | due -- the timer fires: its function waits for the lock
  | expire -- the function has the lock

def Clocked.step (s : Clocked) : Tick → Option Clocked
  | .op (.expire _) => none -- only the timer's function does this
  | .op label =>
      if label.reads.all (· == s.now) then
        (s.manager.step label).map fun m =>
          { s with manager := m, timer := s.manager.timerAfter s.timer label }
      else none
  | .pass d => some { s with now := s.now + d }
  | .due =>
      match s.timer with
      | none => none
      | some t =>
        if !t.due && t.fires ≤ s.now then
          some { s with timer := some { t with due := true }, waiting := s.waiting + 1 }
        else none
  | .expire =>
      if 0 < s.waiting then
        (s.manager.step (.expire s.now)).map fun m =>
          { s with manager := m, timer := scheduleExpiry m.endpoint s.now,
                   waiting := s.waiting - 1 }
      else none

/-- The clock does not run past a timer by more than `late` before its function has run. -/
def Prompt (late : Int) (s : Clocked) : Tick → Prop
  | .pass d => ∀ t ∈ s.timer, s.now + d ≤ t.fires + late
  | _ => True

instance (late : Int) (s : Clocked) (tick : Tick) : Decidable (Prompt late s tick) :=
  match tick with
  | .pass d => inferInstanceAs (Decidable (∀ t ∈ s.timer, s.now + d ≤ t.fires + late))
  | .op _ => isTrue trivial
  | .due => isTrue trivial
  | .expire => isTrue trivial

/-! ### The next deadline

The loop over the peers finds the earliest deadline that has not come. -/

section Deadline

variable {now t : Int} {next : Option Int} {peers : List ManagedPeer} {p : ManagedPeer}

theorem active_iff : p.active now = true ↔ ∀ t, p.untilTime = some t → now < t := by
  cases h : p.untilTime <;> simp [ManagedPeer.active, h]

/-- A turn of the loop never moves the deadline back. -/
theorem earlier_le (p : ManagedPeer) (hnext : ∃ n, next = some n ∧ n ≤ t) :
    ∃ n, earlier now next p = some n ∧ n ≤ t := by
  obtain ⟨n, rfl, hn⟩ := hnext
  cases hp : p.untilTime with
  | none => exact ⟨n, by simp [earlier, hp], hn⟩
  | some t' =>
      by_cases hactive : p.active now = true
      · by_cases hlt : t' < n
        · exact ⟨t', by simp [earlier, hp, hactive, hlt], by omega⟩
        · exact ⟨n, by simp [earlier, hp, hactive, hlt], hn⟩
      · exact ⟨n, by simp [earlier, hp, hactive], hn⟩

/-- The peer's own turn takes its deadline into account. -/
theorem earlier_self (ht : p.untilTime = some t) (hactive : now < t) :
    ∃ n, earlier now next p = some n ∧ n ≤ t := by
  have hp : p.active now = true := by
    rw [active_iff]
    intro t' ht'
    rw [ht] at ht'
    rwa [← Option.some.inj ht']
  cases next with
  | none => exact ⟨t, by simp [earlier, ht, hp], le_refl t⟩
  | some n =>
      by_cases hlt : t < n
      · exact ⟨t, by simp [earlier, ht, hp, hlt], le_refl t⟩
      · exact ⟨n, by simp [earlier, ht, hp, hlt], by omega⟩

theorem foldl_earlier_le (peers : List ManagedPeer) (hnext : ∃ n, next = some n ∧ n ≤ t) :
    ∃ n, peers.foldl (earlier now) next = some n ∧ n ≤ t := by
  induction peers generalizing next with
  | nil => exact hnext
  | cons q rest ih => exact ih (earlier_le q hnext)

/-- No deadline that is not over is earlier than the one that is found. -/
theorem nextDeadline_le (hp : p ∈ peers) (ht : p.untilTime = some t) (hactive : now < t) :
    ∃ n, nextDeadline now peers = some n ∧ n ≤ t := by
  obtain ⟨before, after, rfl⟩ := List.append_of_mem hp
  rw [nextDeadline, List.foldl_append, List.foldl_cons]
  exact foldl_earlier_le after (earlier_self ht hactive)

/-- The deadline that is found has not come. -/
theorem lt_nextDeadline (h : nextDeadline now peers = some t) : now < t := by
  have hstep : ∀ (next : Option Int) (p : ManagedPeer), (∀ n, next = some n → now < n) →
      ∀ n, earlier now next p = some n → now < n := by
    intro next p hnext n hn
    unfold earlier at hn
    split at hn
    · exact hnext n hn
    · rename_i t' ht'
      split at hn
      · exact hnext n hn
      · rename_i hactive
        split at hn
        · obtain rfl := Option.some.inj hn
          exact active_iff.mp (by simpa using hactive) t' ht'
        · exact hnext n hn
  have hall : ∀ (peers : List ManagedPeer) (next : Option Int), (∀ n, next = some n → now < n) →
      ∀ n, peers.foldl (earlier now) next = some n → now < n := by
    intro peers
    induction peers with
    | nil => exact fun next hnext => hnext
    | cons q rest ih => exact fun next hnext => ih (earlier now next q) (hstep next q hnext)
  exact hall peers none (by simp) t h

end Deadline

/-! ### What closing leaves

Whatever is still listed after a step that closes was not closed by it. -/

section Closing

variable {m : Manager} {now : Int} {q : Party}

theorem endpoint_closing (c : Closing) : (m.closing now c).endpoint = m.endpoint := by
  cases c with
  | peer key => rfl
  | review => rfl
  | all =>
      rw [Manager.closing]
      generalize m.flowKeys = keys
      induction keys generalizing m with
      | nil => rfl
      | cons key keys ih => exact @ih (m.closePeerLocked key)

theorem endpoint_closings (cs : List Closing) :
    (cs.foldl (Manager.closing now) m).endpoint = m.endpoint := by
  induction cs generalizing m with
  | nil => rfl
  | cons c cs ih => exact ih.trans (endpoint_closing c)

/-- An entry that is listed after some were removed was none of them. -/
theorem listed_of_remove {f : Party → Bool} {parties : List Party}
    (hq : q ∈ parties.map fun p => if p.listed && f p then p.remove else p)
    (hlisted : q.listed = true) : q ∈ parties ∧ f q = false := by
  obtain ⟨p, hp, rfl⟩ := List.mem_map.mp hq
  split at hlisted
  · simp [Party.remove] at hlisted
  · rename_i hnot
    rw [if_neg hnot]
    refine ⟨hp, ?_⟩
    simpa [hlisted] using hnot

theorem listed_of_closePeers {keys : List String}
    (hq : q ∈ (keys.foldl Manager.closePeerLocked m).parties) (hlisted : q.listed = true) :
    q ∈ m.parties ∧ q.key ∉ keys := by
  induction keys generalizing m with
  | nil => exact ⟨hq, List.not_mem_nil⟩
  | cons key keys ih =>
      obtain ⟨hmem, hkeys⟩ := @ih (m.closePeerLocked key) hq
      obtain ⟨hold, hkey⟩ := listed_of_remove (f := fun p => p.key == key) hmem hlisted
      refine ⟨hold, ?_⟩
      rw [List.mem_cons, not_or]
      exact ⟨by simpa using hkey, hkeys⟩

theorem listed_of_closing {c : Closing} (hq : q ∈ (m.closing now c).parties)
    (hlisted : q.listed = true) : q ∈ m.parties ∧ c ≠ .peer q.key ∧ c ≠ .all := by
  cases c with
  | peer key =>
      obtain ⟨hold, hkey⟩ := listed_of_remove (f := fun p => p.key == key) hq hlisted
      refine ⟨hold, ?_, by simp⟩
      intro heq
      simp [Closing.peer.inj heq] at hkey
  | review =>
      exact ⟨(listed_of_remove (f := fun p => !m.stillAllowed p now) hq hlisted).1, by simp,
        by simp⟩
  | all =>
      obtain ⟨hold, hkeys⟩ := listed_of_closePeers hq hlisted
      have hkey : q.key ∈ m.flowKeys :=
        List.mem_map.mpr ⟨q, List.mem_filter.mpr ⟨hold, hlisted⟩, rfl⟩
      exact absurd hkey hkeys

/-- Whoever is still listed after closings was listed before, and its peer was not closed. -/
theorem listed_of_closings {cs : List Closing} (hq : q ∈ (cs.foldl (Manager.closing now) m).parties)
    (hlisted : q.listed = true) : q ∈ m.parties ∧ .peer q.key ∉ cs ∧ .all ∉ cs := by
  induction cs generalizing m with
  | nil => exact ⟨hq, List.not_mem_nil, List.not_mem_nil⟩
  | cons c cs ih =>
      obtain ⟨hmem, hpeer, hall⟩ := @ih (m.closing now c) hq
      obtain ⟨hold, hc, hc'⟩ := listed_of_closing hmem hlisted
      refine ⟨hold, ?_, ?_⟩
      · exact fun h => (List.mem_cons.mp h).elim (fun heq => hc heq.symm) hpeer
      · exact fun h => (List.mem_cons.mp h).elim (fun heq => hc' heq.symm) hall

end Closing

/-! ### The peers after `Apply`

Every way through `Apply`, failures included, closes the peers that leave. -/

/-- Whoever was a peer still is one, or is closed. -/
def Leaves (peers peers' : GoMap String ManagedPeer) (closed : List Closing) : Prop :=
  ∀ key, (peers.lookup key).isSome = true →
    (peers'.lookup key).isSome = true ∨ .peer key ∈ closed ∨ .all ∈ closed

theorem removeGone_closed (replaceAll : Bool) (old : List (String × ManagedPeer)) :
    ∀ key ∈ (removeGone replaceAll old).deleted, key ∈ (removeGone replaceAll old).closed := by
  induction old with
  | nil => exact fun key h => h
  | cons o rest ih =>
      obtain ⟨key, old⟩ := o
      intro key' hkey'
      simp only [removeGone] at hkey' ⊢
      split at hkey'
      · rw [if_pos ‹_›]
        rcases List.mem_cons.mp hkey' with rfl | hmem
        · exact List.mem_cons_self
        · exact List.mem_cons_of_mem _ (ih key' hmem)
      · rw [if_neg ‹_›]
        split at hkey'
        · cases hkey'
        · rcases List.mem_cons.mp hkey' with rfl | hmem
          · exact List.mem_cons_self
          · exact List.mem_cons_of_mem _ (ih key' hmem)

theorem removeGone_deleted {replaceAll : Bool} {old : List (String × ManagedPeer)}
    (hok : (removeGone replaceAll old).ok = true) :
    (removeGone replaceAll old).deleted = old.map Prod.fst := by
  induction old with
  | nil => rfl
  | cons o rest ih =>
      obtain ⟨key, old⟩ := o
      simp only [removeGone] at hok ⊢
      split at hok
      · rw [if_pos ‹_›, List.map_cons, ← ih hok]
      · rw [if_neg ‹_›]
        split at hok
        · cases hok
        · rw [List.map_cons, ← ih hok]

theorem leaves_eraseAll {peers : GoMap String ManagedPeer} {keys : List String}
    {closed : List Closing} (hclosed : ∀ key ∈ keys, .peer key ∈ closed) :
    Leaves peers (peers.eraseAll keys) closed := by
  intro key hkey
  by_cases hmem : key ∈ keys
  · exact Or.inr (Or.inl (hclosed key hmem))
  · left
    rwa [GoMap.lookup_eraseAll, if_neg hmem]

theorem Leaves.insertAll {peers peers' : GoMap String ManagedPeer} {closed : List Closing}
    (h : Leaves peers peers' closed) (xs : List (String × ManagedPeer)) :
    Leaves peers (peers'.insertAll xs) closed := by
  intro key hkey
  rcases h key hkey with hsome | hclosed
  · left
    obtain ⟨p, hp⟩ := Option.isSome_iff_exists.mp hsome
    have hkept : ∃ q, (peers'.insertAll xs).lookup key = some q :=
      GoMap.exists_lookup_insertAll (Or.inr ⟨p, hp⟩)
    obtain ⟨q, hq⟩ := hkept
    rw [hq]
    rfl
  · exact Or.inr hclosed

theorem Leaves.append {peers peers' peers'' : GoMap String ManagedPeer}
    {closed closed' : List Closing} (h : Leaves peers peers' closed)
    (h' : Leaves peers' peers'' closed') : Leaves peers peers'' (closed ++ closed') := by
  intro key hkey
  rcases h key hkey with hsome | hpeer | hall
  · rcases h' key hsome with hsome' | hpeer' | hall'
    · exact Or.inl hsome'
    · exact Or.inr (Or.inl (List.mem_append_right _ hpeer'))
    · exact Or.inr (Or.inr (List.mem_append_right _ hall'))
  · exact Or.inr (Or.inl (List.mem_append_left _ hpeer))
  · exact Or.inr (Or.inr (List.mem_append_left _ hall))

/-- A write of the peers closes whom it deletes, whatever becomes of it; when it succeeds, the
peers are the wanted ones and the instance runs on. -/
theorem syncPeersLocked_leaves {e : Endpoint} {inst : Instance} {cfg : Config} {replaceAll : Bool}
    {ans : Answers} {wrote : Bool} {after : Synced}
    (hafter : after = syncPeersLocked e inst cfg replaceAll ans wrote) :
    Leaves e.peers after.endpoint.peers after.closed ∧
      (after.ok = true → Sub after.endpoint.peers (wantMap (wanted cfg)) ∧
        after.endpoint.inst.isSome = true) := by
  simp only [syncPeersLocked] at hafter
  generalize hremoval : removeGone replaceAll
    (e.peers.pairs.filter fun o => gone (wantMap (wanted cfg)) o.1 o.2) = removal at hafter
  have hclosed : ∀ key ∈ removal.deleted, Closing.peer key ∈ removal.closed.map Closing.peer := by
    intro key hkey
    rw [← hremoval] at hkey ⊢
    exact List.mem_map_of_mem (removeGone_closed replaceAll _ key hkey)
  have hleaves : Leaves e.peers (e.peers.eraseAll removal.deleted)
      (removal.closed.map Closing.peer) := leaves_eraseAll hclosed
  split at hafter
  · subst hafter
    exact ⟨hleaves, by simp⟩
  · rename_i hok
    have hdeleted : removal.deleted = (e.peers.pairs.filter fun o =>
        gone (wantMap (wanted cfg)) o.1 o.2).map Prod.fst := by
      rw [← hremoval] at hok ⊢
      exact removeGone_deleted (by simpa using hok)
    split at hafter
    · subst hafter
      exact ⟨hleaves, by simp⟩
    · rename_i written resolved warnings _
      generalize (if replaceAll then [Command.replacePeers] else []) ++ removal.commands ++
        written = commands at hafter
      split at hafter
      · subst hafter
        refine ⟨hleaves.insertAll _, fun _ => ⟨?_, rfl⟩⟩
        rw [hdeleted]
        exact sub_wantMap
      · subst hafter
        exact ⟨hleaves, by simp⟩

/-- What applying a configuration to a running instance leaves: the endpoint is down with
everything closed, or it runs with the wanted peers, and whoever left or is over was closed. -/
theorem syncOrStop_leaves {e : Endpoint} {inst : Instance} {cfg : Config} {ans : Answers}
    {applied : Applied} (happlied : applied = e.syncOrStop inst cfg ans) :
    (applied.endpoint.inst = none ∧ applied.endpoint.peers = ∅ ∧ .all ∈ applied.closed) ∨
      (applied.endpoint.inst.isSome = true ∧
        Sub applied.endpoint.peers (wantMap (wanted cfg)) ∧
        Leaves e.peers applied.endpoint.peers applied.closed ∧
        ∀ c ∈ applied.endpoint.expired ans.now, c ∈ applied.closed) := by
  simp only [Endpoint.syncOrStop] at happlied
  generalize hfirst : syncPeersLocked e inst cfg false ans ans.wrote = first at happlied
  obtain ⟨hleaves, hwritten⟩ := syncPeersLocked_leaves hfirst.symm
  split at happlied
  · rename_i hok
    subst happlied
    obtain ⟨hsub, hinst⟩ := hwritten hok
    refine Or.inr ⟨hinst, hsub, ?_, ?_⟩
    · intro key hkey
      rcases hleaves key hkey with hsome | hpeer | hall
      · exact Or.inl hsome
      · exact Or.inr (Or.inl (List.mem_append_left _ hpeer))
      · exact Or.inr (Or.inr (List.mem_append_left _ hall))
    · intro c hc
      exact List.mem_append_right _ (List.mem_cons_of_mem _ hc)
  · generalize hsecond : syncPeersLocked first.endpoint (first.endpoint.inst.getD inst) cfg true ans
      ans.rewrote = second at happlied
    obtain ⟨hleaves', hwritten'⟩ := syncPeersLocked_leaves hsecond.symm
    split at happlied
    · rename_i hok
      subst happlied
      obtain ⟨hsub, hinst⟩ := hwritten' hok
      refine Or.inr ⟨hinst, hsub, ?_, ?_⟩
      · intro key hkey
        rcases hleaves.append hleaves' key hkey with hsome | hpeer | hall
        · exact Or.inl hsome
        · exact Or.inr (Or.inl (List.mem_append_left _ hpeer))
        · exact Or.inr (Or.inr (List.mem_append_left _ hall))
      · intro c hc
        exact List.mem_append_right _ (List.mem_cons_of_mem _ hc)
    · subst happlied
      refine Or.inl ⟨rfl, rfl, ?_⟩
      exact List.mem_append_right _ (List.mem_singleton.mpr rfl)

/-- What `Apply` leaves of a manager that has no peers without an instance, together with its
timer. -/
theorem apply_leaves {e : Endpoint} {cfg : Config} {ans : Answers}
    (hdown : e.inst = none → e.peers = ∅)
    (timer : Option ExpiryTimer) :
    ((e.apply cfg ans).endpoint = e ∧ (e.apply cfg ans).closed = [] ∧
        e.timerAfter cfg ans timer = timer) ∨
    ((e.apply cfg ans).endpoint.inst = none ∧ (e.apply cfg ans).endpoint.peers = ∅ ∧
        (e.peers = ∅ ∨ .all ∈ (e.apply cfg ans).closed)) ∨
    ((e.apply cfg ans).endpoint.inst.isSome = true ∧
        Sub (e.apply cfg ans).endpoint.peers (wantMap (wanted cfg)) ∧
        Leaves e.peers (e.apply cfg ans).endpoint.peers (e.apply cfg ans).closed ∧
        (∀ c ∈ (e.apply cfg ans).endpoint.expired ans.now, c ∈ (e.apply cfg ans).closed) ∧
        e.timerAfter cfg ans timer = scheduleExpiry (e.apply cfg ans).endpoint ans.now) := by
  by_cases hacc : acceptable cfg = true
  · simp only [Endpoint.apply, Endpoint.timerAfter, hacc, Bool.not_true, Bool.false_eq_true,
      if_false]
    right
    cases hbase : (e.prepared cfg).inst with
    | some inst =>
        -- the running instance takes the configuration
        have hreset : e.resetsFor cfg = false := by
          cases hreset : e.resetsFor cfg with
          | false => rfl
          | true => simp [Endpoint.prepared, hreset, Endpoint.stopLocked] at hbase
        have hpeers : (e.prepared cfg).peers = e.peers := by simp [Endpoint.prepared, hreset]
        simp only [Option.isSome_some, if_true, hbase, hreset, Bool.false_eq_true, if_false,
          List.nil_append, Option.isNone_some, Bool.false_and]
        rcases @syncOrStop_leaves (e.prepared cfg) inst cfg ans _ rfl with
          ⟨hinst, hempty, hall⟩ | ⟨hinst, hsub, hleaves, hexpired⟩
        · exact Or.inl ⟨hinst, hempty, Or.inr hall⟩
        · rw [hpeers] at hleaves
          exact Or.inr ⟨hinst, hsub, hleaves, hexpired, trivial⟩
    | none =>
        have hempty : (e.prepared cfg).peers = ∅ ∧ (e.peers = ∅ ∨
            Closing.all ∈ if e.resetsFor cfg = true then [Closing.all] else []) := by
          by_cases hreset : e.resetsFor cfg = true
          · simp [Endpoint.prepared, hreset, Endpoint.stopLocked]
          · have hinst : e.inst = none := by simpa [Endpoint.prepared, hreset] using hbase
            simp [Endpoint.prepared, hreset, hdown hinst]
        simp only [Option.isSome_none, Bool.false_eq_true, if_false, Endpoint.startLocked,
          Option.isNone_none, Bool.true_and]
        cases hstart : ans.started with
        | false => exact Or.inl ⟨hbase, hempty.1, hempty.2⟩
        | true =>
            simp only [if_true, Bool.not_true, Bool.false_eq_true, if_false]
            generalize hrunning : { e.prepared cfg with
              nextID := (e.prepared cfg).nextID + 1
              inst := some (.fresh ((e.prepared cfg).nextID + 1) cfg) } = running
            rcases @syncOrStop_leaves running (.fresh ((e.prepared cfg).nextID + 1) cfg) cfg
              ans _ rfl
              with ⟨hinst, hnone, hall⟩ | ⟨hinst, hsub, -, hexpired⟩
            · exact Or.inl ⟨hinst, hnone, Or.inr (List.mem_append_right _ hall)⟩
            · refine Or.inr ⟨hinst, hsub, ?_, ?_, trivial⟩
              · intro key hkey
                rcases hempty.2 with hold | hall
                · simp [hold] at hkey
                · exact Or.inr (Or.inr (List.mem_append_left _ hall))
              · exact fun c hc => List.mem_append_right _ (hexpired c hc)
  · left
    simp [Endpoint.apply, Endpoint.timerAfter, hacc]

/-! ### Who is listed anew

An entry is listed under a peer that the endpoint has at that moment. -/

theorem of_peerByAddr {e : Endpoint} {a : Addr} {now : Int} {p : ManagedPeer}
    (h : e.peerByAddr a now = some p) :
    (∃ key, e.peers.lookup key = some p) ∧ p.active now = true := by
  have hmem := List.mem_of_head? h
  simp only [Endpoint.candidates, List.mem_filter, List.mem_map, Bool.and_eq_true] at hmem
  obtain ⟨⟨⟨key, q⟩, hq, rfl⟩, hactive, -⟩ := hmem
  exact ⟨⟨key, GoMap.mem_pairs.mp hq⟩, hactive⟩

theorem peerByAddr_of_decideLocked {m : Manager} {inst : Nat} {proto : Proto} {src dst : AddrPort}
    {now : Int} {peer : ManagedPeer} (h : m.decideLocked inst proto src dst now = .ok peer) :
    m.endpoint.peerByAddr src.addr now = some peer := by
  unfold Manager.decideLocked at h
  split at h
  · cases h
  · split at h
    · cases h
    · rename_i found hfound
      split at h
      · cases h
      · dsimp only at h
        split at h
        · cases h
        · split at h
          · cases h
          · split at h
            · cases h
            · rw [hfound, Except.ok.inj h]

section Act

variable {m : Manager} {p p' : Party} {ok : Bool} {now : Int} {tally : Tally}

/-- A step lists an entry under a peer that is active now, or under the site of a dial. -/
theorem listed_of_act (hfit : Fit p) (hact : m.act p ok now = some (p', tally))
    (hlisted : p'.listed = true) : (p.listed = true ∧ p'.key = p.key) ∨
      (∃ a peer, m.endpoint.peerByAddr a now = some peer ∧ p'.key = peer.key) ∨
      ∃ site, p.kind = .dial site ∧ p.pc = .registering ∧ p'.key = p.key ∧
        (m.endpoint.peers.lookup p.key).isSome = true := by
  obtain ⟨-, hlists⟩ := act_counts hfit hact
  rcases hlists.listed hlisted with hold | ⟨hreg, -⟩
  · exact Or.inl hold
  · have hfresh := (hfit.sound.fresh hreg).1
    have hplace := hfit.place
    cases hkind : p.kind with
    | flow proto src dst =>
        simp only [Manager.act, hkind] at hact
        cases hpc : p.pc
        case decide =>
          simp only [Manager.actFlow, hpc] at hact
          split at hact
          · simp only [Party.go, Option.some.injEq, Prod.mk.injEq] at hact
            obtain ⟨rfl, -⟩ := hact
            simp [hfresh] at hlisted
          · rename_i peer hpeer
            simp only [Option.some.injEq, Prod.mk.injEq] at hact
            obtain ⟨rfl, -⟩ := hact
            exact Or.inr (Or.inl ⟨src.addr, peer, peerByAddr_of_decideLocked hpeer, rfl⟩)
        all_goals simp_all [Manager.actFlow, At, Open]
    | accepted =>
        simp only [Manager.act, hkind] at hact
        cases hpc : p.pc <;> simp_all [Party.actHeld, At, Open]
    | dial site =>
        simp only [Manager.act, hkind] at hact
        cases hpc : p.pc
        case registering =>
          simp only [Manager.actDial, hpc] at hact
          split at hact
          · rename_i hroom
            simp only [Party.go, Option.some.injEq, Prod.mk.injEq] at hact
            obtain ⟨rfl, -⟩ := hact
            simp only [Manager.current, Bool.and_eq_true, Option.any_eq_true] at hroom
            obtain ⟨⟨-, cur, hcur, -⟩, -⟩ := hroom
            exact Or.inr (Or.inr ⟨site, rfl, rfl, rfl, by simp [hcur]⟩)
          · simp only [Party.go, Option.some.injEq, Prod.mk.injEq] at hact
            obtain ⟨rfl, -⟩ := hact
            simp [hfresh] at hlisted
        case lookup =>
          simp only [Manager.actDial, hpc] at hact
          split at hact <;> simp only [Party.go, Option.some.injEq, Prod.mk.injEq] at hact <;>
            obtain ⟨rfl, -⟩ := hact <;> simp [hfresh] at hlisted
        all_goals simp_all [Manager.actDial, Party.actHeld, At, Open]

theorem actFlow_ne_registering {proto : Proto} {src dst : AddrPort}
    (hact : m.actFlow p proto src dst ok now = some (p', tally)) : p'.pc ≠ .registering := by
  grind [Manager.actFlow, Party.go, Party.add, Party.dropReservation]

theorem actHeld_ne_registering (hact : p.actHeld = some (p', tally)) : p'.pc ≠ .registering := by
  grind [Party.actHeld, Party.go]

/-- A dial that is about to register has looked up the key of its site. -/
theorem registering_of_act (hact : m.act p ok now = some (p', tally)) {site : Int}
    (hkind : p'.kind = .dial site) (hpc' : p'.pc = .registering) : p'.key = siteKey site := by
  unfold Manager.act at hact
  split at hact
  · exact absurd hpc' (actFlow_ne_registering hact)
  · grind [Manager.actDial, Party.go, actHeld_ne_registering]
  · exact absurd hpc' (actHeld_ne_registering hact)

end Act

/-! ### The invariant

A deadline is covered when the timer comes in time for it, or when it has passed and nothing
of the peer is open any more. -/

theorem siteKey_ne_device (id id' : Int) : siteKey id ≠ "device:" ++ toString id' := by
  intro h
  have hlist := congrArg String.toList h
  simp [siteKey] at hlist

/-- The authorization of a site has no end. -/
theorem untilTime_of_site {cfg : Config} {p : ManagedPeer} {id : Int} (hp : p ∈ wanted cfg)
    (hkey : p.key = siteKey id) : p.untilTime = none := by
  have hmem := (Wg.sublist_dropSameKey [] _).subset hp
  rw [List.mem_insertionSort] at hmem
  rcases List.mem_append.mp hmem with hsite | hdevice
  · obtain ⟨s, -, rfl⟩ := List.mem_map.mp hsite
    rfl
  · obtain ⟨d, -, rfl⟩ := List.mem_map.mp hdevice
    exact absurd hkey.symm (siteKey_ne_device id d.id)

/-- Nobody outlives the deadline `t` of a peer unseen: the timer fires in time for it, or it has
passed and nothing of the peer is open. -/
def Covered (s : Clocked) (key : String) (t : Int) : Prop :=
  (∃ timer, s.timer = some timer ∧ timer.fires ≤ t + expirySlack) ∨
    (t ≤ s.now ∧ ∀ q ∈ s.manager.parties, q.listed = true → q.key ≠ key)

structure Armed (late : Int) (s : Clocked) : Prop where
  good : Good s.manager
  down : s.manager.endpoint.inst = none → s.manager.endpoint.peers = ∅
  keys : ∀ key p, s.manager.endpoint.peers.lookup key = some p → p.key = key
  sites : ∀ id p, s.manager.endpoint.peers.lookup (siteKey id) = some p → p.untilTime = none
  dials : ∀ q ∈ s.manager.parties, ∀ site, q.kind = .dial site → q.pc = .registering →
    q.key = siteKey site
  listed : ∀ q ∈ s.manager.parties, q.listed = true →
    (s.manager.endpoint.peers.lookup q.key).isSome = true
  deadlines : ∀ key p t, s.manager.endpoint.peers.lookup key = some p → p.untilTime = some t →
    Covered s key t
  prompt : ∀ timer, s.timer = some timer → s.now ≤ timer.fires + late

variable {late : Int} {s s' : Clocked}

theorem Armed.start (now : Int) : Armed late (.start now) where
  good := Good.init
  down _ := rfl
  keys key p h := by cases h
  sites id p h := by cases h
  dials q hq := absurd hq List.not_mem_nil
  listed q hq := absurd hq List.not_mem_nil
  deadlines key p t h := by cases h
  prompt timer h := by cases h

/-- A step that leaves the endpoint, the clock and the timer alone may list entries under peers
that are active. -/
theorem Armed.withParties (h : Armed late s) {parties : List Party} {pending : GoMap String Nat}
    (hgood : Good { s.manager with parties, pending })
    (hdials : ∀ q ∈ parties, ∀ site, q.kind = .dial site → q.pc = .registering →
      q.key = siteKey site)
    (hlisted : ∀ q ∈ parties, q.listed = true →
      (∃ q₀ ∈ s.manager.parties, q₀.listed = true ∧ q.key = q₀.key) ∨
      ∃ p, s.manager.endpoint.peers.lookup q.key = some p ∧ p.active s.now = true) :
    Armed late { s with manager := { s.manager with parties, pending } } where
  good := hgood
  down := h.down
  keys := h.keys
  sites := h.sites
  dials := hdials
  listed q hq hl := by
    rcases hlisted q hq hl with ⟨q₀, hq₀, hl₀, hkey⟩ | ⟨p, hp, -⟩
    · exact hkey ▸ h.listed q₀ hq₀ hl₀
    · exact Option.isSome_iff_exists.mpr ⟨p, hp⟩
  deadlines key p t hp ht := by
    rcases h.deadlines key p t hp ht with harmed | ⟨hover, hnone⟩
    · exact Or.inl harmed
    · refine Or.inr ⟨hover, ?_⟩
      rintro q hq hl rfl
      rcases hlisted q hq hl with ⟨q₀, hq₀, hl₀, hkey⟩ | ⟨p', hp', hactive⟩
      · exact hnone q₀ hq₀ hl₀ hkey.symm
      · -- an active peer's deadline has not passed
        obtain rfl := Option.some.inj (hp.symm.trans hp')
        have hlt := active_iff.mp hactive t ht
        exact absurd hlt (not_lt.mpr hover)
  prompt := h.prompt

theorem mem_expired {e : Endpoint} {now : Int} {key : String} {p : ManagedPeer}
    (hinst : e.inst.isSome = true) (hp : e.peers.lookup key = some p)
    (hover : p.active now = false) : Closing.peer key ∈ e.expired now := by
  obtain ⟨inst, hinst⟩ := Option.isSome_iff_exists.mp hinst
  rw [Endpoint.expired, hinst]
  refine List.mem_map.mpr ⟨(key, p), List.mem_filter.mpr ⟨GoMap.mem_pairs.mpr hp, ?_⟩, rfl⟩
  simp [hover]

/-! ### Arming the timer

After a step that arms the timer no deadline is left out: it is ahead and the timer comes in
time, or it has passed and the peer was closed. -/

/-- After the timer is armed for a running endpoint and the peers that are over are closed, every
deadline is covered. -/
theorem covered_of_schedule {e : Endpoint} {m : Manager} {now : Int} {waiting : Nat}
    (hinst : e.inst.isSome = true)
    (hclosed : ∀ q ∈ m.parties, q.listed = true → .peer q.key ∉ e.expired now)
    {key : String} {p : ManagedPeer} {t : Int} (hp : e.peers.lookup key = some p)
    (ht : p.untilTime = some t) : Covered ⟨m, now, scheduleExpiry e now, waiting⟩ key t := by
  by_cases hactive : now < t
  · have hmem : p ∈ e.peers.pairs.map Prod.snd :=
      List.mem_map.mpr ⟨(key, p), GoMap.mem_pairs.mpr hp, rfl⟩
    obtain ⟨n, hn, hle⟩ := nextDeadline_le hmem ht hactive
    obtain ⟨inst, hinst⟩ := Option.isSome_iff_exists.mp hinst
    refine Or.inl ⟨⟨n + expirySlack, false⟩, ?_, by simpa using hle⟩
    simp [scheduleExpiry, hinst, hn]
  · refine Or.inr ⟨not_lt.mp hactive, ?_⟩
    rintro q hq hl rfl
    have hover : p.active now = false := by
      rw [← Bool.not_eq_true, active_iff]
      exact fun h => hactive (h t ht)
    exact hclosed q hq hl (mem_expired hinst hp hover)

theorem prompt_of_schedule {e : Endpoint} {now : Int} (hlate : 0 ≤ late) {timer : ExpiryTimer}
    (h : scheduleExpiry e now = some timer) : now ≤ timer.fires + late := by
  simp only [scheduleExpiry] at h
  split at h
  · cases h
  · obtain ⟨n, hn, rfl⟩ := Option.map_eq_some_iff.mp h
    have hlt := lt_nextDeadline hn
    simp only [expirySlack]
    omega

/-! ### The steps of the manager

Steps that close and steps that list are looked at separately; the clock is the only thing
that brings a deadline closer. -/

/-- Closing changes no party's kind, place or key. -/
theorem of_mem_closings {m : Manager} {cs : List Closing} {now : Int} {q : Party}
    (hq : q ∈ (cs.foldl (Manager.closing now) m).parties) :
    ∃ p ∈ m.parties, q.kind = p.kind ∧ q.pc = p.pc ∧ q.key = p.key := by
  have hremove : ∀ {parties : List Party} {f : Party → Bool} {q : Party},
      (q ∈ parties.map fun p => if p.listed && f p then p.remove else p) →
      ∃ p ∈ parties, q.kind = p.kind ∧ q.pc = p.pc ∧ q.key = p.key := by
    intro parties f q hq
    obtain ⟨p, hp, rfl⟩ := List.mem_map.mp hq
    refine ⟨p, hp, ?_⟩
    split
    · exact ⟨rfl, rfl, rfl⟩
    · exact ⟨rfl, rfl, rfl⟩
  have hclosing : ∀ {m : Manager} {c : Closing} {q : Party}, q ∈ (m.closing now c).parties →
      ∃ p ∈ m.parties, q.kind = p.kind ∧ q.pc = p.pc ∧ q.key = p.key := by
    intro m c q hq
    cases c with
    | peer key => exact hremove (f := fun p => p.key == key) hq
    | review => exact hremove (f := fun p => !m.stillAllowed p now) hq
    | all =>
        rw [Manager.closing] at hq
        generalize m.flowKeys = keys at hq
        induction keys generalizing m with
        | nil => exact ⟨q, hq, rfl, rfl, rfl⟩
        | cons key keys ih =>
            obtain ⟨r, hr, hkind, hpc, hkey⟩ := @ih (m.closePeerLocked key) hq
            obtain ⟨p, hp, hkind', hpc', hkey'⟩ := hremove (f := fun p => p.key == key) hr
            exact ⟨p, hp, hkind.trans hkind', hpc.trans hpc', hkey.trans hkey'⟩
  induction cs generalizing m with
  | nil => exact ⟨q, hq, rfl, rfl, rfl⟩
  | cons c cs ih =>
      obtain ⟨r, hr, hkind, hpc, hkey⟩ := @ih (m.closing now c) hq
      obtain ⟨p, hp, hkind', hpc', hkey'⟩ := hclosing hr
      exact ⟨p, hp, hkind.trans hkind', hpc.trans hpc', hkey.trans hkey'⟩

theorem timerAfter_cases (e : Endpoint) (cfg : Config) (ans : Answers)
    (timer : Option ExpiryTimer) :
    e.timerAfter cfg ans timer = none ∨ e.timerAfter cfg ans timer = timer ∨
      e.timerAfter cfg ans timer = scheduleExpiry (e.apply cfg ans).endpoint ans.now := by
  simp only [Endpoint.timerAfter]
  split
  · exact Or.inr (Or.inl rfl)
  · split
    · split
      · exact Or.inl rfl
      · exact Or.inr (Or.inl rfl)
    · exact Or.inr (Or.inr rfl)

/-- A step that closes: whoever leaves the endpoint is closed, and the deadlines of those who are
there then are covered. -/
theorem Armed.closings (h : Armed late s) {e : Endpoint} {cs : List Closing} {now : Int}
    {timer : Option ExpiryTimer} {waiting : Nat} (hdown : e.inst = none → e.peers = ∅)
    (hkeys : ∀ key p, e.peers.lookup key = some p → p.key = key)
    (hsites : ∀ id p, e.peers.lookup (siteKey id) = some p → p.untilTime = none)
    (hleaves : Leaves s.manager.endpoint.peers e.peers cs)
    (hdeadlines : ∀ m : Manager, (∀ q ∈ m.parties, q.listed = true →
        q ∈ s.manager.parties ∧ .peer q.key ∉ cs ∧ .all ∉ cs) →
      ∀ key p t, e.peers.lookup key = some p → p.untilTime = some t →
        Covered ⟨m, s.now, timer, waiting⟩ key t)
    (hprompt : ∀ t, timer = some t → s.now ≤ t.fires + late) :
    Armed late ⟨cs.foldl (Manager.closing now) { s.manager with endpoint := e }, s.now, timer,
      waiting⟩ := by
  have hendpoint := @endpoint_closings { s.manager with endpoint := e } now cs
  have hlisted : ∀ q ∈ (cs.foldl (Manager.closing now) { s.manager with endpoint := e }).parties,
      q.listed = true → q ∈ s.manager.parties ∧ .peer q.key ∉ cs ∧ .all ∉ cs :=
    fun q hq hl => @listed_of_closings { s.manager with endpoint := e } now q cs hq hl
  constructor
  · exact (h.good.withEndpoint e).closings cs
  · rw [hendpoint]
    exact hdown
  · rw [hendpoint]
    exact hkeys
  · rw [hendpoint]
    exact hsites
  · intro q hq site hkind hpc
    obtain ⟨p, hp, hkind', hpc', hkey'⟩ :=
      @of_mem_closings { s.manager with endpoint := e } cs now q hq
    rw [hkey']
    exact h.dials p hp site (hkind' ▸ hkind) (hpc' ▸ hpc)
  · intro q hq hl
    rw [hendpoint]
    obtain ⟨hold, hpeer, hall⟩ := hlisted q hq hl
    rcases hleaves q.key (h.listed q hold hl) with hsome | hin | hin
    · exact hsome
    · exact absurd hin hpeer
    · exact absurd hin hall
  · rw [hendpoint]
    exact hdeadlines _ hlisted
  · exact hprompt

theorem Armed.apply (h : Armed late s) (hlate : 0 ≤ late) {cfg : Config} {ans : Answers}
    (hnow : ans.now = s.now) {m : Manager} (hstep : s.manager.step (.apply cfg ans) = some m) :
    Armed late { s with manager := m, timer := s.manager.endpoint.timerAfter cfg ans s.timer } := by
  obtain rfl := Option.some.inj hstep
  have hprompt : ∀ timer, s.manager.endpoint.timerAfter cfg ans s.timer = some timer →
      s.now ≤ timer.fires + late := by
    intro timer htimer
    rcases timerAfter_cases s.manager.endpoint cfg ans s.timer with hnone | hsame | harmed
    · rw [hnone] at htimer
      cases htimer
    · exact h.prompt timer (hsame ▸ htimer)
    · rw [harmed, hnow] at htimer
      exact prompt_of_schedule hlate htimer
  rcases @apply_leaves s.manager.endpoint cfg ans h.down s.timer with
    ⟨hsame, hnothing, htimer⟩ | ⟨hinst, hempty, hgone⟩ | ⟨hinst, hsub, hleaves, hexpired, htimer⟩
  · -- the configuration is refused
    apply h.closings
    · rw [hsame]
      exact h.down
    · rw [hsame]
      exact h.keys
    · rw [hsame]
      exact h.sites
    · rw [hsame]
      exact fun key hkey => Or.inl hkey
    · rw [hsame, htimer]
      intro m hlisted key p t hp ht
      rcases h.deadlines key p t hp ht with harmed | ⟨hover, hnone⟩
      · exact Or.inl harmed
      · exact Or.inr ⟨hover, fun q hq hl => hnone q (hlisted q hq hl).1 hl⟩
    · exact hprompt
  · -- the endpoint is down, with everything closed
    apply h.closings
    · exact fun _ => hempty
    · intro key p hp
      rw [hempty] at hp
      cases hp
    · intro id p hp
      rw [hempty] at hp
      cases hp
    · intro key hkey
      rcases hgone with hnone | hall
      · rw [hnone] at hkey
        cases hkey
      · exact Or.inr (Or.inr hall)
    · intro m _ key p t hp
      rw [hempty] at hp
      cases hp
    · exact hprompt
  · -- the peers are the wanted ones
    have hwanted : ∀ key p, (s.manager.endpoint.apply cfg ans).endpoint.peers.lookup key = some p →
        p ∈ wanted cfg ∧ p.key = key := fun key p hp => mem_wanted_of_lookup (hsub key p hp)
    apply h.closings
    · intro hnone
      rw [hnone] at hinst
      cases hinst
    · exact fun key p hp => (hwanted key p hp).2
    · intro id p hp
      obtain ⟨hmem, hkey⟩ := hwanted _ p hp
      exact untilTime_of_site hmem hkey
    · exact hleaves
    · intro m hlisted key p t hp ht
      rw [htimer, hnow]
      apply covered_of_schedule hinst _ hp ht
      intro q hq hl hin
      exact (hlisted q hq hl).2.1 (hexpired _ (hnow ▸ hin))
    · exact hprompt

/-- Steps of the manager at the time the clock shows. -/
theorem Armed.op (h : Armed late s) (hlate : 0 ≤ late) {label : Label} {m : Manager}
    (hexpire : ∀ now, label ≠ .expire now) (hreads : label.reads.all (· == s.now) = true)
    (hstep : s.manager.step label = some m) :
    Armed late { s with manager := m, timer := s.manager.timerAfter s.timer label } := by
  have hgood := h.good.step hstep
  cases label with
  | forward proto src dst =>
      obtain ⟨inst, -, rfl⟩ := Option.map_eq_some_iff.mp hstep
      apply h.withParties hgood
      · intro q hq site hkind hpc
        rcases List.mem_append.mp hq with hold | hnew
        · exact h.dials q hold site hkind hpc
        · rw [List.mem_singleton.mp hnew] at hkind
          cases hkind
      · intro q hq hl
        rcases List.mem_append.mp hq with hold | hnew
        · exact Or.inl ⟨q, hold, hl, rfl⟩
        · rw [List.mem_singleton.mp hnew] at hl
          cases hl
  | dial site =>
      obtain rfl := Option.some.inj hstep
      apply h.withParties hgood
      · intro q hq site hkind hpc
        rcases List.mem_append.mp hq with hold | hnew
        · exact h.dials q hold site hkind hpc
        · rw [List.mem_singleton.mp hnew] at hpc
          cases hpc
      · intro q hq hl
        rcases List.mem_append.mp hq with hold | hnew
        · exact Or.inl ⟨q, hold, hl, rfl⟩
        · rw [List.mem_singleton.mp hnew] at hl
          cases hl
  | accept src now =>
      obtain rfl : now = s.now := by simpa [Label.reads] using hreads
      simp only [Manager.step] at hstep
      split at hstep
      · obtain rfl := Option.some.inj hstep
        exact h
      · rename_i peer hpeer
        split at hstep
        · obtain rfl := Option.some.inj hstep
          obtain ⟨⟨key, hkey⟩, hactive⟩ := of_peerByAddr hpeer
          apply h.withParties hgood
          · intro q hq site hkind hpc
            rcases List.mem_append.mp hq with hold | hnew
            · exact h.dials q hold site hkind hpc
            · rw [List.mem_singleton.mp hnew] at hkind
              cases hkind
          · intro q hq hl
            rcases List.mem_append.mp hq with hold | hnew
            · exact Or.inl ⟨q, hold, hl, rfl⟩
            · right
              rw [List.mem_singleton.mp hnew]
              exact ⟨peer, by rw [h.keys key peer hkey]; exact hkey, hactive⟩
        · obtain rfl := Option.some.inj hstep
          exact h
  | act i ok now =>
      obtain rfl : now = s.now := by simpa [Label.reads] using hreads
      simp only [Manager.step, Option.bind_eq_some_iff, Option.map_eq_some_iff] at hstep
      obtain ⟨p, hp, ⟨p', tally⟩, hact, rfl⟩ := hstep
      have hmem := List.mem_of_getElem? hp
      apply h.withParties hgood
      · intro q hq site hkind hpc
        rcases List.mem_or_eq_of_mem_set hq with hold | rfl
        · exact h.dials q hold site hkind hpc
        · exact registering_of_act hact hkind hpc
      · intro q hq hl
        rcases List.mem_or_eq_of_mem_set hq with hold | rfl
        · exact Or.inl ⟨q, hold, hl, rfl⟩
        · rcases listed_of_act (h.good.parties p hmem) hact hl with
            ⟨hold, hkey⟩ | ⟨a, peer, hpeer, hkey⟩ | ⟨site, hkind, hpc, hkey, hsome⟩
          · exact Or.inl ⟨p, hmem, hold, hkey⟩
          · obtain ⟨⟨key, hlookup⟩, hactive⟩ := of_peerByAddr hpeer
            right
            rw [hkey, h.keys key peer hlookup]
            exact ⟨peer, hlookup, hactive⟩
          · -- the authorization of a site has no end
            right
            obtain ⟨peer, hpeer⟩ := Option.isSome_iff_exists.mp hsome
            have hsite := hpeer
            rw [h.dials p hmem site hkind hpc] at hsite
            rw [hkey]
            refine ⟨peer, hpeer, ?_⟩
            rw [ManagedPeer.active, h.sites site peer hsite]
            rfl
  | apply cfg ans =>
      have hnow : ans.now = s.now := by simpa [Label.reads] using hreads
      exact h.apply hlate hnow hstep
  | close =>
      obtain rfl := Option.some.inj hstep
      apply h.closings
      · exact fun _ => rfl
      · intro key p hp
        cases hp
      · intro id p hp
        cases hp
      · exact fun key _ => Or.inr (Or.inr (List.mem_singleton.mpr rfl))
      · intro m _ key p t hp
        cases hp
      · intro t ht
        cases ht
  | expire now => exact absurd rfl (hexpire now)

theorem of_step_op {label : Label} (h : s.step (.op label) = some s') :
    (∀ now, label ≠ .expire now) ∧ label.reads.all (· == s.now) = true ∧
      ∃ m, s.manager.step label = some m ∧
        s' = { s with manager := m, timer := s.manager.timerAfter s.timer label } := by
  have hboth : (∀ now, label ≠ .expire now) ∧ (if label.reads.all (· == s.now) then
      (s.manager.step label).map fun m =>
        { s with manager := m, timer := s.manager.timerAfter s.timer label }
      else none) = some s' := by
    cases label with
    | expire now => cases h
    | _ => exact ⟨by simp, h⟩
  obtain ⟨hexpire, hstep⟩ := hboth
  split at hstep
  · rename_i hreads
    obtain ⟨m, hm, rfl⟩ := Option.map_eq_some_iff.mp hstep
    exact ⟨hexpire, hreads, m, hm, rfl⟩
  · cases hstep

theorem Armed.step (h : Armed late s) (hlate : 0 ≤ late) {tick : Tick}
    (hprompt : Prompt late s tick)
    (hstep : s.step tick = some s') : Armed late s' := by
  cases tick with
  | op label =>
      obtain ⟨hexpire, hreads, m, hm, rfl⟩ := of_step_op hstep
      exact h.op hlate hexpire hreads hm
  | pass d =>
      obtain rfl := Option.some.inj hstep
      refine ⟨h.good, h.down, h.keys, h.sites, h.dials, h.listed, ?_, hprompt⟩
      intro key p t hp ht
      rcases h.deadlines key p t hp ht with harmed | ⟨hover, hnone⟩
      · exact Or.inl harmed
      · refine Or.inr ⟨?_, hnone⟩
        simp only
        omega
  | due =>
      simp only [Clocked.step] at hstep
      split at hstep
      · cases hstep
      · rename_i timer htimer
        split at hstep
        · obtain rfl := Option.some.inj hstep
          refine ⟨h.good, h.down, h.keys, h.sites, h.dials, h.listed, ?_, ?_⟩
          · intro key p t hp ht
            rcases h.deadlines key p t hp ht with ⟨armed, harmed, hle⟩ | hover
            · obtain rfl := Option.some.inj (htimer.symm.trans harmed)
              exact Or.inl ⟨_, rfl, hle⟩
            · exact Or.inr hover
          · intro armed harmed
            obtain rfl := Option.some.inj harmed
            exact h.prompt timer htimer
        · cases hstep
  | expire =>
      simp only [Clocked.step] at hstep
      split at hstep
      · obtain ⟨m, hm, rfl⟩ := Option.map_eq_some_iff.mp hstep
        obtain rfl := Option.some.inj hm
        rw [show (((s.manager.closings (.expire s.now)).foldl (Manager.closing s.now)
          s.manager).endpoint) = s.manager.endpoint from endpoint_closings _]
        apply h.closings (e := s.manager.endpoint)
        · exact h.down
        · exact h.keys
        · exact h.sites
        · exact fun key hkey => Or.inl hkey
        · intro m hlisted key p t hp ht
          have hinst : s.manager.endpoint.inst.isSome = true := by
            rw [Option.isSome_iff_ne_none]
            intro hnone
            rw [h.down hnone] at hp
            cases hp
          exact covered_of_schedule hinst (fun q hq hl => (hlisted q hq hl).2.1) hp ht
        · exact fun t ht => prompt_of_schedule hlate ht
      · cases hstep

/-! ### The result

`Armed` along the run, read at one entry. -/

def visitor (untilTime : Int) : Config where
  privateKey := keyA
  listenPort := 51820
  address := .v4 0x0ac80001#32
  tunnel := cidr4 10 200 0 0 24
  sites := []
  devices := [⟨7, "phone", "eve", keyB, keyA, .v4 0x0ac80003#32, some untilTime, []⟩]
  forward := false
  guard := ⟨[], [], [], [], []⟩

/-- The device has a connection, its timer fires and its function gets the lock. -/
def visit : List Tick :=
  [.op (.apply (visitor 500) works), .op (.accept (.v4 0x0ac80003#32) 0), .pass 10000500, .due,
    .expire]

end Quicgate.WgManager
