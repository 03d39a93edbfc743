import Quicgate.GoMaps
import Quicgate.GoTime
import Quicgate.IdentityHeaders
import Quicgate.TransitionSystem

/-!
# Automatic bans

The ban manager (`internal/engine/ban.go`): `recordFailure` keeps a trail of an address's
refusals and bans it once the threshold is reached within the window, and `gc` forgets
addresses in the background.

The steps are those of one manager, in the order in which they take its mutex, each with
the time it reads.  The never-ban list and the machine's own addresses may change between
them; the other settings are those of one configuration.  Beside the manager a run keeps
what has happened: the failures of an address since its last ban or unban, and when the ban
it is under ends.

`counts_iff_exact` says for which settings the bans of every run are right, and
`collector_forgets_window` is a window that is longer than the collector waits.
-/

namespace Quicgate.BanManager

open Quicgate.GoMaps Quicgate.GoTime Quicgate.Netip Quicgate.TransitionSystem
open Quicgate.Identity (clientIP)

/-! ### Settings

The settings are texts; a number that cannot be read is replaced by its default. -/

/-- The auto-ban settings. The numbers are what `Sscanf` reads in them. -/
structure Settings where
  enabled : Bool
  threshold : Option Int
  windowSec : Option Int
  durationSec : Option Int
deriving DecidableEq, Repr

def atoi (read : Option Int) (dflt : Nat) : Nat :=
  match read with
  | some n => if 0 < n then n.toNat else dflt
  | none => dflt

structure BanConfig where
  enabled : Bool
  threshold : Nat
  window : Int
  banFor : Int
deriving DecidableEq, Repr

def Settings.banConfig (s : Settings) : BanConfig where
  enabled := s.enabled
  threshold := atoi s.threshold 5
  window := seconds (atoi s.windowSec 300)
  banFor := seconds (atoi s.durationSec 3600)

/-- The never-ban list of the configuration, and this machine's addresses. -/
structure NeverBan where
  exempt : List Prefix
  exemptOwn : Bool
  own : Addr → Bool

def exempt (never : NeverBan) (ip : String) : Bool :=
  match parseAddr ip.toList with
  | none => false
  | some a =>
      let a := a.unmap.withoutZone
      never.exempt.any (·.contains a) || (never.exemptOwn && never.own a)

/-! ### The manager

The methods of the source under their names.  Both maps have a cap and drop an entry when they
are full. -/

structure FailureTrail where
  times : List Int
  host : List UInt8
  reason : List UInt8
deriving DecidableEq, Repr

structure BanEntry where
  since : Int
  till : Int -- `until`
  failures : Nat
  host : List UInt8
  reason : List UInt8
deriving DecidableEq, Repr

structure Manager where
  failures : GoMap String FailureTrail
  banned : GoMap String BanEntry

def newBanManager : Manager := ⟨∅, ∅⟩

def banMaxTracked : Nat := 65536

def evictOne {α : Type} (m : GoMap String α) (max : Nat) : GoMap String α :=
  m.keys.foldl (fun left k => if GoMap.len left < max then left else left.erase k) m

def truncate (s : List UInt8) (n : Nat) : List UInt8 := s.take n

def Manager.times (b : Manager) (ip : String) : List Int :=
  (b.failures.lookup ip).elim [] FailureTrail.times

/-- `unban`, which also tells whether the address was banned. -/
def Manager.unban (b : Manager) (ip : String) : Bool × Manager :=
  ((b.banned.lookup ip).isSome, ⟨b.failures.erase ip, b.banned.erase ip⟩)

def Manager.recordFailure (b : Manager) (cfg : BanConfig) (never : NeverBan) (remoteAddr : String)
    (host reason : List UInt8) (now : Int) : Manager :=
  if cfg.enabled = false then b
  else
    let ip := clientIP remoteAddr
    if exempt never ip then b
    else
      let cutoff := now + (-cfg.window).bmod (2 ^ 64)
      let failures :=
        if (b.failures.lookup ip).isNone then evictOne b.failures banMaxTracked else b.failures
      let trail : FailureTrail :=
        { times := keep cutoff (b.times ip) ++ [now], host := truncate host 253, reason := reason }
      if cfg.threshold ≤ trail.times.length then
        let banned :=
          if (b.banned.lookup ip).isNone then evictOne b.banned banMaxTracked else b.banned
        { failures := failures.erase ip
          banned := banned.insert ip
            { since := now, till := now + cfg.banFor, failures := trail.times.length,
              host := trail.host, reason := trail.reason } }
      else { b with failures := failures.insert ip trail }

def Manager.blocked (b : Manager) (cfg : BanConfig) (never : NeverBan) (remoteAddr : String)
    (now : Int) : Bool × Manager :=
  if cfg.enabled = false then (false, b)
  else
    let ip := clientIP remoteAddr
    match b.banned.lookup ip with
    | none => (false, b)
    | some ban =>
        if ban.till < now then (false, { b with banned := b.banned.erase ip })
        else if exempt never ip then (false, (b.unban ip).2)
        else (true, b)

def Manager.liftExempt (b : Manager) (never : NeverBan) : Manager :=
  (b.banned.keys.filter (exempt never)).foldl (fun b ip => (b.unban ip).2) b

def Manager.gc (b : Manager) (now : Int) : Manager where
  banned := GoMap.eraseAll b.banned
    (((GoMap.pairs b.banned).filter fun p => p.2.till < now).map Prod.fst)
  failures := GoMap.eraseAll b.failures
    (((GoMap.pairs b.failures).filter fun p =>
      p.2.times.getLast?.all fun last => 3600 * 1000000000 < now - last).map Prod.fst)

/-! ### What an address sees of it

Below the caps every address is by itself, so the manager is followed one address at a time. -/

structure View where
  times : List Int
  ban : Option BanEntry
deriving DecidableEq, Repr

def Manager.view (b : Manager) (a : String) : View := ⟨b.times a, b.banned.lookup a⟩

def View.fail (v : View) (cfg : BanConfig) (host reason : List UInt8) (now : Int) : View :=
  let times := keep (now + (-cfg.window).bmod (2 ^ 64)) v.times ++ [now]
  if cfg.threshold ≤ times.length then
    ⟨[], some ⟨now, now + cfg.banFor, times.length, truncate host 253, reason⟩⟩
  else ⟨times, v.ban⟩

def View.look (v : View) (exempt : Bool) (now : Int) : View :=
  match v.ban with
  | none => v
  | some ban => if ban.till < now then ⟨v.times, none⟩ else if exempt then ⟨[], none⟩ else v

def View.gc (v : View) (now : Int) : View :=
  ⟨if v.times.getLast?.all fun last => 3600 * 1000000000 < now - last then [] else v.times,
    v.ban.filter fun ban => !decide (ban.till < now)⟩

def Manager.Below (b : Manager) : Prop :=
  GoMap.len b.failures < banMaxTracked ∧ GoMap.len b.banned < banMaxTracked

section View

variable {b : Manager} {cfg : BanConfig} {never : NeverBan} {remoteAddr a ip : String}
  {host reason : List UInt8} {now : Int}

/-- Below the cap nothing is dropped. -/
theorem foldl_evict_of_lt {α : Type} {m : GoMap String α} {max : Nat} (h : GoMap.len m < max)
    (keys : List String) :
    keys.foldl (fun left k => if GoMap.len left < max then left else left.erase k) m = m := by
  induction keys with
  | nil => rfl
  | cons key keys ih => rw [List.foldl_cons, if_pos h, ih]

theorem evictOne_of_lt {α : Type} {m : GoMap String α} {max : Nat} (h : GoMap.len m < max) :
    evictOne m max = m := foldl_evict_of_lt h m.keys

theorem view_unban : (b.unban ip).2.view a = if a = ip then ⟨[], none⟩ else b.view a := by
  by_cases h : a = ip
  · subst h
    simp [Manager.unban, Manager.view, Manager.times]
  · simp [Manager.unban, Manager.view, Manager.times, h, AList.lookup_erase_ne h]

/-- Counted or not, a failure only concerns the address it comes from. -/
theorem view_recordFailure (hbelow : b.Below) :
    (b.recordFailure cfg never remoteAddr host reason now).view a =
      if cfg.enabled = true ∧ exempt never a = false ∧ a = clientIP remoteAddr then
        (b.view a).fail cfg host reason now
      else b.view a := by
  unfold Manager.recordFailure
  by_cases hon : cfg.enabled = false
  · simp [hon]
  rw [if_neg hon]
  by_cases hexempt : exempt never (clientIP remoteAddr) = true
  · rw [if_pos hexempt, if_neg]
    rintro ⟨-, hnot, rfl⟩
    rw [hexempt] at hnot
    cases hnot
  rw [if_neg hexempt]
  simp only [evictOne_of_lt hbelow.1, evictOne_of_lt hbelow.2, ite_self]
  by_cases ha : a = clientIP remoteAddr
  · have hcounts : cfg.enabled = true ∧ exempt never a = false ∧ a = clientIP remoteAddr :=
      ⟨by simpa using hon, by simpa [ha] using hexempt, ha⟩
    rw [if_pos hcounts, ← ha]
    by_cases hreached :
        cfg.threshold ≤ (keep (now + (-cfg.window).bmod (2 ^ 64)) (b.times a) ++ [now]).length
    · rw [if_pos hreached, show (b.view a).fail cfg host reason now = _ from if_pos hreached]
      simp [Manager.view, Manager.times]
    · rw [if_neg hreached, show (b.view a).fail cfg host reason now = _ from if_neg hreached]
      simp [Manager.view, Manager.times]
  · have hcounts : ¬ (cfg.enabled = true ∧ exempt never a = false ∧ a = clientIP remoteAddr) :=
      fun h => ha h.2.2
    rw [if_neg hcounts]
    split_ifs <;>
      simp [Manager.view, Manager.times, AList.lookup_erase_ne ha, AList.lookup_insert_ne ha]

theorem view_blocked : (b.blocked cfg never remoteAddr now).2.view a =
    if cfg.enabled = true ∧ a = clientIP remoteAddr then (b.view a).look (exempt never a) now
    else b.view a := by
  unfold Manager.blocked
  by_cases hon : cfg.enabled = false
  · simp [hon]
  rw [if_neg hon]
  have henabled : cfg.enabled = true := by simpa using hon
  by_cases ha : a = clientIP remoteAddr
  · subst ha
    rw [if_pos ⟨henabled, rfl⟩]
    cases hban : b.banned.lookup (clientIP remoteAddr) with
    | none => simp [View.look, Manager.view, hban]
    | some ban =>
        simp only [View.look, Manager.view, hban]
        split_ifs <;> simp [Manager.unban, Manager.times, hban]
  · rw [if_neg fun h => ha h.2]
    cases hban : b.banned.lookup (clientIP remoteAddr) with
    | none => simp only [hban]
    | some ban =>
        simp only [hban]
        split_ifs
        · simp [Manager.view, Manager.times, AList.lookup_erase_ne ha]
        · rw [view_unban, if_neg ha]
        · rfl

/-- A request is blocked by a ban that is in force on an address that is not exempt. -/
theorem blocked_eq_true : (b.blocked cfg never remoteAddr now).1 = true ↔
    cfg.enabled = true ∧ exempt never (clientIP remoteAddr) = false ∧
      ∃ e, b.banned.lookup (clientIP remoteAddr) = some e ∧ now ≤ e.till := by
  unfold Manager.blocked
  by_cases hon : cfg.enabled = false
  · simp [hon]
  rw [if_neg hon]
  have henabled : cfg.enabled = true := by simpa using hon
  cases hban : b.banned.lookup (clientIP remoteAddr) with
  | none => simp [hban]
  | some ban =>
      simp only [hban, henabled, true_and, Option.some.injEq, exists_eq_left']
      split_ifs with hover hexempt
      · simp [hover]
      · simp [hexempt]
      · simpa [hexempt] using hover

theorem view_unbanAll (ips : List String) :
    (ips.foldl (fun b ip => (b.unban ip).2) b).view a =
      if a ∈ ips then ⟨[], none⟩ else b.view a := by
  induction ips generalizing b with
  | nil => simp
  | cons ip ips ih =>
      rw [List.foldl_cons, ih, view_unban]
      by_cases hin : a ∈ ips
      · simp [hin]
      · simp [hin]

theorem view_liftExempt : (b.liftExempt never).view a =
    if (b.banned.lookup a).isSome = true ∧ exempt never a = true then ⟨[], none⟩
    else b.view a := by
  unfold Manager.liftExempt
  rw [view_unbanAll]
  congr 1
  rw [List.mem_filter, AList.lookup_isSome, AList.mem_keys]

theorem view_gc : (b.gc now).view a = (b.view a).gc now := by
  have hbanned : (b.gc now).banned.lookup a =
      (b.banned.lookup a).filter fun ban => !decide (ban.till < now) :=
    GoMap.lookup_eraseAll_filter ..
  have hfailures : (b.gc now).failures.lookup a = (b.failures.lookup a).filter fun trail =>
      !(trail.times.getLast?.all fun last => 3600 * 1000000000 < now - last) :=
    GoMap.lookup_eraseAll_filter ..
  unfold View.gc
  apply congrArg₂ View.mk _ hbanned
  cases htrail : b.failures.lookup a with
  | none => simp [Manager.view, Manager.times, hfailures, htrail]
  | some trail =>
      have htimes : b.times a = trail.times := by rw [Manager.times, htrail, Option.elim_some]
      simp only [Manager.view, htimes]
      rw [Manager.times, hfailures, htrail, Option.filter_some]
      cases trail.times.getLast?.all fun last => 3600 * 1000000000 < now - last with
      | true => rfl
      | false => rfl

end View

/-! ### What has happened

What should count, told without any map or trail. -/

def Settings.limit (s : Settings) : Nat := atoi s.threshold 5

def Settings.window (s : Settings) : Nat := atoi s.windowSec 300

def Settings.duration (s : Settings) : Nat := atoi s.durationSec 3600

/-- An address so far: its failures since its last ban or unban, and when its ban ends. -/
structure History where
  noted : List Int
  ends : Option Int
deriving DecidableEq, Repr

def clean : History := ⟨[], none⟩

/-- The failures within the window that ends at `t`. -/
def inWindow (s : Settings) (t : Int) (noted : List Int) : Nat :=
  noted.countP fun f => decide (t - s.window * 1000000000 < f) && decide (f ≤ t)

/-- What matters to an address: a failure that counts, and being unbanned. -/
inductive Event where
  | failure (t : Int)
  | unbanned
deriving DecidableEq, Repr

def History.after (h : History) (s : Settings) : Event → History
  | .failure t =>
      let noted := h.noted ++ [t]
      if s.limit ≤ inWindow s t noted then ⟨[], some (t + s.duration * 1000000000)⟩
      else ⟨noted, h.ends⟩
  | .unbanned => clean

/-! ### Runs

A step is a method with its time, or a change of the never-ban list. -/

inductive Label where
  | recordFailure (never : NeverBan) (remoteAddr : String) (host reason : List UInt8) (now : Int)
  | blocked (never : NeverBan) (remoteAddr : String) (now : Int)
  | unban (ip : String)
  | liftExempt (never : NeverBan)
  | gc (now : Int)

/-- When the step is taken, where it reads the time. -/
def Label.time? : Label → Option Int
  | .recordFailure _ _ _ _ now | .blocked _ _ now | .gc now => some now
  | .unban _ | .liftExempt _ => none

def Manager.act (b : Manager) (cfg : BanConfig) : Label → Manager
  | .recordFailure never remoteAddr host reason now =>
      b.recordFailure cfg never remoteAddr host reason now
  | .blocked never remoteAddr now => (b.blocked cfg never remoteAddr now).2
  | .unban ip => (b.unban ip).2
  | .liftExempt never => b.liftExempt never
  | .gc now => b.gc now

/-- What a step is to the address `a`. A ban is lifted from an exempt address when it asks,
or by `liftExempt`. -/
def Label.event (label : Label) (cfg : BanConfig) (b : Manager) (a : String) : Option Event :=
  match label with
  | .recordFailure never remoteAddr _ _ now =>
      if cfg.enabled = true ∧ exempt never a = false ∧ a = clientIP remoteAddr then
        some (.failure now)
      else none
  | .blocked never remoteAddr now =>
      if (cfg.enabled = true ∧ a = clientIP remoteAddr) ∧ exempt never a = true ∧
          (b.banned.lookup a).any (fun ban => decide (now ≤ ban.till)) = true then
        some .unbanned
      else none
  | .unban ip => if a = ip then some .unbanned else none
  | .liftExempt never =>
      if (b.banned.lookup a).isSome = true ∧ exempt never a = true then some .unbanned else none
  | .gc _ => none

/-- The manager, what has happened, and the time of the last step. -/
structure Traced where
  manager : Manager
  past : String → History
  clock : Int

def start (clock : Int) : Traced := ⟨newBanManager, fun _ => clean, clock⟩

/-- One step; time does not go back. -/
def step (s : Settings) (x : Traced) (label : Label) : Option Traced :=
  let now := label.time?.getD x.clock
  if now < x.clock then none
  else
    some
      { manager := x.manager.act s.banConfig label
        past := fun a =>
          ((label.event s.banConfig x.manager a).map ((x.past a).after s)).getD (x.past a)
        clock := now }

/-- The address is banned, and its ban is in force at `t`. -/
def Manager.Bans (b : Manager) (a : String) (t : Int) : Prop :=
  ∃ e, b.banned.lookup a = some e ∧ t ≤ e.till

/-- A failure of an address that is not exempt bans it, unless it is banned already, exactly
when enough failures are in the window; and a request is blocked exactly while the ban of
its address is neither over nor lifted and the address is not exempt. -/
def Right (s : Settings) (x x' : Traced) : Label → Prop
  | .recordFailure never remoteAddr _ _ t =>
      let a := clientIP remoteAddr
      exempt never a = false →
        (x'.manager.Bans a t ↔
          x.manager.Bans a t ∨ s.limit ≤ inWindow s t ((x.past a).noted ++ [t]))
  | .blocked never remoteAddr t =>
      let a := clientIP remoteAddr
      (x.manager.blocked s.banConfig never remoteAddr t).1 = true ↔
        exempt never a = false ∧ ∃ u, (x.past a).ends = some u ∧ t ≤ u
  | .unban _ | .liftExempt _ | .gc _ => True

/-- Bans are right in every run on which neither map gets full. -/
def Counts (s : Settings) : Prop :=
  ∀ clock labels x label x', run (step s) (start clock) labels = some x →
    RunMeets (step s) (fun x _ => x.manager.Below) (start clock) (labels ++ [label]) →
    step s x label = some x' → Right s x x' label

/-- The collector's hour covers the window, and a ban's end is a time of 64 bits. -/
def Exact (s : Settings) : Prop :=
  (s.limit = 1 ∨ s.window ≤ 3600) ∧ s.duration * 1000000000 < 2 ^ 63

instance (s : Settings) : Decidable (Exact s) :=
  inferInstanceAs (Decidable (_ ∧ _))

/-! ### What the manager knows of an address

`Follows` is the simulation between the manager's view of an address and what has happened to
it. -/

/-- The manager holds of an address what has happened to it, as far as it still matters at
`clock`. -/
structure Follows (s : Settings) (clock : Int) (v : View) (h : History) : Prop where
  sorted : v.times.Pairwise (· ≤ ·)
  times_le : ∀ t ∈ v.times, t ≤ clock
  noted_le : ∀ t ∈ h.noted, t ≤ clock
  kept : ∀ c, clock - s.window * 1000000000 ≤ c → keep c v.times = keep c h.noted
  single : s.limit = 1 → v.times = [] ∧ h.noted = []
  ends : ∀ e, v.ban = some e → h.ends = some e.till
  expired : ∀ u, h.ends = some u → v.ban ≠ none ∨ u < clock

section Follows

variable {s : Settings} {clock now t : Int} {v : View} {h : History} {host reason : List UInt8}

theorem atoi_pos {dflt : Nat} (hdflt : 0 < dflt) (read : Option Int) : 0 < atoi read dflt := by
  unfold atoi
  cases read with
  | none => exact hdflt
  | some n =>
      simp only
      split_ifs <;> omega

theorem Settings.limit_pos (s : Settings) : 0 < s.limit := atoi_pos (by decide) s.threshold

theorem Settings.window_pos (s : Settings) : 0 < s.window := atoi_pos (by decide) s.windowSec

theorem Settings.duration_pos (s : Settings) : 0 < s.duration :=
  atoi_pos (by decide) s.durationSec

theorem window_eq_of_lt (h : s.window * 1000000000 < 2 ^ 63) :
    s.banConfig.window = s.window * 1000000000 := by
  simp only [Settings.banConfig]
  exact seconds_of_lt h

theorem banFor_eq_of_lt (h : s.duration * 1000000000 < 2 ^ 63) :
    s.banConfig.banFor = s.duration * 1000000000 := by
  simp only [Settings.banConfig]
  exact seconds_of_lt h

theorem Settings.banFor_lt (s : Settings) : s.banConfig.banFor < 2 ^ 63 := by
  simp only [Settings.banConfig]
  exact seconds_lt _

/-- Where time does not go back, the window only has a beginning. -/
theorem inWindow_concat {noted : List Int} (hle : ∀ f ∈ noted, f ≤ t) :
    inWindow s t (noted ++ [t]) = (keep (t - s.window * 1000000000) noted ++ [t]).length := by
  have hwindow := s.window_pos
  have hnoted : noted.countP
      (fun f => decide (t - s.window * 1000000000 < f) && decide (f ≤ t)) =
      (keep (t - s.window * 1000000000) noted).length := by
    rw [keep, ← List.countP_eq_length_filter]
    apply List.countP_congr
    intro f hf
    simp [hle f hf]
  rw [inWindow, List.countP_append, hnoted, List.length_append, List.countP_singleton,
    List.length_singleton, if_pos]
  simp only [Bool.and_eq_true, decide_eq_true_eq]
  omega

theorem Follows.fresh : Follows s clock ⟨[], none⟩ clean where
  sorted := List.Pairwise.nil
  times_le := nofun
  noted_le := nofun
  kept := fun _ _ => rfl
  single := fun _ => ⟨rfl, rfl⟩
  ends := nofun
  expired := nofun

theorem Follows.later (hf : Follows s clock v h) (hle : clock ≤ now) : Follows s now v h where
  sorted := hf.sorted
  times_le := fun t ht => Int.le_trans (hf.times_le t ht) hle
  noted_le := fun t ht => Int.le_trans (hf.noted_le t ht) hle
  kept := fun c hc => hf.kept c (by omega)
  single := hf.single
  ends := hf.ends
  expired := fun u hu => (hf.expired u hu).imp_right fun hlt => by omega

theorem cutoff_eq (h : s.window ≤ 3600) :
    now + (-s.banConfig.window).bmod (2 ^ 64) = now - s.window * 1000000000 := by
  have hneg : (-(s.window * 1000000000 : Int)).bmod (2 ^ 64) = -(s.window * 1000000000) := by
    apply Int.bmod_eq_of_le_mul_two <;> omega
  rw [window_eq_of_lt (by omega), hneg, ← Int.sub_eq_add_neg]

/-- The code counts the failures of the window. -/
theorem Follows.length_iff (hf : Follows s now v h) (hexact : Exact s) :
    s.banConfig.threshold ≤
        (keep (now + (-s.banConfig.window).bmod (2 ^ 64)) v.times ++ [now]).length ↔
      s.limit ≤ inWindow s now (h.noted ++ [now]) := by
  rw [inWindow_concat hf.noted_le]
  have hthreshold : s.banConfig.threshold = s.limit := rfl
  rw [hthreshold]
  rcases hexact.1 with hone | hhour
  · simp [hone]
  · rw [cutoff_eq hhour, hf.kept _ (Int.le_refl _)]

/-- A failure that counts. -/
theorem Follows.fail (hf : Follows s now v h) (hexact : Exact s) :
    Follows s now (v.fail s.banConfig host reason now) (h.after s (.failure now)) := by
  have hreached := hf.length_iff hexact
  by_cases hlimit : s.limit ≤ inWindow s now (h.noted ++ [now])
  · have hfail : v.fail s.banConfig host reason now = ⟨[], some _⟩ :=
      if_pos (hreached.mpr hlimit)
    have hafter : h.after s (.failure now) = ⟨[], some _⟩ := if_pos hlimit
    rw [hfail, hafter]
    refine ⟨List.Pairwise.nil, nofun, nofun, fun _ _ => rfl, fun _ => ⟨rfl, rfl⟩, ?_,
      fun _ _ => Or.inl nofun⟩
    intro e he
    rw [← Option.some.inj he, banFor_eq_of_lt hexact.2]
  · have hfail : v.fail s.banConfig host reason now = ⟨_ ++ [now], v.ban⟩ :=
      if_neg fun hle => hlimit (hreached.mp hle)
    have hafter : h.after s (.failure now) = ⟨h.noted ++ [now], h.ends⟩ := if_neg hlimit
    have hmany : s.limit ≠ 1 := by
      intro hone
      rw [inWindow_concat hf.noted_le, hone] at hlimit
      simp at hlimit
    have hkept : ∀ t ∈ keep (now + (-s.banConfig.window).bmod (2 ^ 64)) v.times, t ≤ now :=
      fun t ht => hf.times_le t (mem_keep.mp ht).1
    rw [hfail, hafter]
    refine ⟨pairwise_concat (pairwise_keep hf.sorted) hkept, ?_, ?_, ?_,
      fun hone => absurd hone hmany, hf.ends, hf.expired⟩
    · simpa [or_imp, forall_and] using hkept
    · simpa [or_imp, forall_and] using hf.noted_le
    · intro c hc
      rw [cutoff_eq (hexact.1.resolve_left hmany), keep_append, keep_append, keep_keep hc,
        hf.kept c hc]

/-- Without a ban that is over the manager still holds what matters. -/
theorem Follows.dropBan (hf : Follows s now v h) (hover : ∀ e, v.ban = some e → e.till < now) :
    Follows s now ⟨v.times, none⟩ h :=
  { hf with
    ends := nofun
    expired := by
      intro u hu
      right
      rcases hf.expired u hu with hban | hlt
      · obtain ⟨e, he⟩ := Option.ne_none_iff_exists'.mp hban
        obtain rfl : u = e.till := Option.some.inj (hu.symm.trans (hf.ends e he))
        exact hover e he
      · exact hlt }

/-- A request of the address takes a ban away that is over, or that an exempt address is
under. -/
theorem Follows.look (hf : Follows s now v h) (isExempt : Bool) :
    Follows s now (v.look isExempt now)
      (if isExempt = true ∧ v.ban.any (fun ban => decide (now ≤ ban.till)) = true then clean
        else h) := by
  unfold View.look
  cases hban : v.ban with
  | none => simpa using hf
  | some ban =>
      simp only [Option.any_some, decide_eq_true_eq]
      by_cases hover : ban.till < now
      · rw [if_pos hover, if_neg fun hboth => absurd hboth.2 (by omega)]
        apply hf.dropBan
        intro e he
        rwa [← Option.some.inj (hban.symm.trans he)]
      · rw [if_neg hover]
        cases isExempt with
        | true =>
            rw [if_pos rfl, if_pos ⟨rfl, by omega⟩]
            exact Follows.fresh
        | false => simpa using hf

/-- The ban that is in force is the one whose end is known. -/
theorem Follows.bans_iff (hf : Follows s now v h) :
    (∃ e, v.ban = some e ∧ now ≤ e.till) ↔ ∃ u, h.ends = some u ∧ now ≤ u := by
  constructor
  · rintro ⟨e, he, hle⟩
    exact ⟨e.till, hf.ends e he, hle⟩
  · rintro ⟨u, hu, hle⟩
    rcases hf.expired u hu with hban | hlt
    · obtain ⟨e, he⟩ := Option.ne_none_iff_exists'.mp hban
      obtain rfl : u = e.till := Option.some.inj (hu.symm.trans (hf.ends e he))
      exact ⟨e, he, hle⟩
    · omega

/-- A round of the collector only takes away what no longer matters. -/
theorem Follows.gc (hf : Follows s now v h) (hexact : Exact s) : Follows s now (v.gc now) h := by
  have hban : Follows s now ⟨v.times, v.ban.filter fun ban => !decide (ban.till < now)⟩ h := by
    cases hban : v.ban with
    | none => rwa [Option.filter_none, ← hban]
    | some ban =>
        rw [Option.filter_some]
        by_cases hover : ban.till < now
        · simp only [hover, decide_true, Bool.not_true, Bool.false_eq_true, if_false]
          apply hf.dropBan
          intro e he
          rwa [← Option.some.inj (hban.symm.trans he)]
        · simp only [hover, decide_false, Bool.not_false, if_true, ← hban]
          exact hf
  unfold View.gc
  split_ifs with hold
  · refine { hban with sorted := List.Pairwise.nil, times_le := nofun, kept := ?_, single := ?_ }
    · intro c hc
      rw [← hban.kept c hc]
      cases hlast : v.times.getLast? with
      | none => rw [List.getLast?_eq_none_iff.mp hlast]
      | some last =>
          simp only [hlast, Option.all_some, decide_eq_true_eq] at hold
          rcases hexact.1 with hone | hhour
          · rw [(hf.single hone).1]
          · exact (keep_eq_nil hf.sorted hlast (by omega)).symm
    · exact fun hone => ⟨rfl, (hf.single hone).2⟩
  · exact hban

end Follows

/-! ### Runs of a manager that counts exactly -/

def Inv (s : Settings) (x : Traced) : Prop :=
  ∀ a, Follows s x.clock (x.manager.view a) (x.past a)

section Inv

variable {s : Settings} {x x' : Traced} {label : Label}

theorem inv_start (clock : Int) : Inv s (start clock) := fun _ => Follows.fresh

/-- A step is taken at a time that is not before the last one. -/
theorem step_eq_some (h : step s x label = some x') :
    x.clock ≤ x'.clock ∧ x'.clock = label.time?.getD x.clock ∧
      x'.manager = x.manager.act s.banConfig label ∧
      ∀ a, x'.past a =
        ((label.event s.banConfig x.manager a).map ((x.past a).after s)).getD (x.past a) := by
  unfold step at h
  simp only at h
  split_ifs at h with hback
  obtain rfl := Option.some.inj h
  exact ⟨not_lt.mp hback, rfl, rfl, fun _ => rfl⟩

theorem exists_step (h : x.clock ≤ label.time?.getD x.clock) : ∃ x', step s x label = some x' :=
  ⟨_, if_neg (Int.not_lt.mpr h)⟩

theorem Inv.next (hexact : Exact s) (hinv : Inv s x) (hbelow : x.manager.Below)
    (hstep : step s x label = some x') : Inv s x' := by
  obtain ⟨hle, hclock, hmanager, hpast⟩ := step_eq_some hstep
  intro a
  have hf := (hinv a).later hle
  rw [hmanager, hpast a]
  cases label with
  | recordFailure never remoteAddr host reason now =>
      obtain rfl : now = x'.clock := hclock.symm
      rw [Manager.act, view_recordFailure hbelow, Label.event]
      split_ifs with hcounts
      · exact hf.fail hexact
      · exact hf
  | blocked never remoteAddr now =>
      obtain rfl : now = x'.clock := hclock.symm
      rw [Manager.act, view_blocked, Label.event]
      by_cases hasks : s.banConfig.enabled = true ∧ a = clientIP remoteAddr
      · have hlook : Follows s x'.clock ((x.manager.view a).look (exempt never a) x'.clock)
            (if exempt never a = true ∧ (x.manager.banned.lookup a).any
              (fun ban => decide (x'.clock ≤ ban.till)) = true then clean else x.past a) :=
          hf.look (exempt never a)
        rw [if_pos hasks]
        simp only [and_iff_right hasks]
        split_ifs at hlook ⊢ <;> exact hlook
      · rw [if_neg hasks, if_neg fun h => hasks h.1]
        exact hf
  | unban ip =>
      rw [Manager.act, view_unban, Label.event]
      split_ifs
      · exact Follows.fresh
      · exact hf
  | liftExempt never =>
      rw [Manager.act, view_liftExempt, Label.event]
      split_ifs
      · exact Follows.fresh
      · exact hf
  | gc now =>
      obtain rfl : now = x'.clock := hclock.symm
      rw [Manager.act, view_gc]
      exact hf.gc hexact

/-- A step from where the manager follows what has happened is right. -/
theorem Inv.right (hon : s.enabled = true) (hexact : Exact s) (hinv : Inv s x)
    (hbelow : x.manager.Below) (hstep : step s x label = some x') : Right s x x' label := by
  obtain ⟨hle, hclock, hmanager, hpast⟩ := step_eq_some hstep
  cases label with
  | recordFailure never remoteAddr host reason now =>
      obtain rfl : now = x'.clock := hclock.symm
      intro hexempt
      generalize ha : clientIP remoteAddr = a at hexempt ⊢
      have hf := (hinv a).later hle
      have hview : x'.manager.view a = (x.manager.view a).fail s.banConfig host reason
        x'.clock := by
        rw [hmanager, Manager.act, view_recordFailure hbelow, if_pos ⟨hon, hexempt, ha.symm⟩]
      have hreached := hf.length_iff hexact
      change (∃ e, (x'.manager.view a).ban = some e ∧ x'.clock ≤ e.till) ↔ _
      rw [hview]
      by_cases hlimit : s.limit ≤ inWindow s x'.clock ((x.past a).noted ++ [x'.clock])
      · have hfail : (x.manager.view a).fail s.banConfig host reason x'.clock = ⟨[], some _⟩ :=
          if_pos (hreached.mpr hlimit)
        have hpos := s.duration_pos
        rw [hfail, banFor_eq_of_lt hexact.2]
        simp only [hlimit, or_true, iff_true]
        exact ⟨_, rfl, Int.le_add_of_nonneg_right (by omega)⟩
      · have hfail : (x.manager.view a).fail s.banConfig host reason x'.clock =
            ⟨_, (x.manager.view a).ban⟩ := if_neg fun hle => hlimit (hreached.mp hle)
        rw [hfail]
        exact (or_iff_left hlimit).symm
  | blocked never remoteAddr now =>
      obtain rfl : now = x'.clock := hclock.symm
      have hf := (hinv (clientIP remoteAddr)).later hle
      have henabled : s.banConfig.enabled = true := hon
      rw [Right, blocked_eq_true, and_iff_right henabled]
      exact and_congr_right fun _ => hf.bans_iff
  | unban ip => trivial
  | liftExempt never => trivial
  | gc now => trivial

theorem inv_run (hexact : Exact s) {clock : Int} {labels : List Label}
    (hmeets : RunMeets (step s) (fun x _ => x.manager.Below) (start clock) labels)
    (hrun : run (step s) (start clock) labels = some x) : Inv s x :=
  hmeets.invariant (fun _ _ _ hinv hbelow hstep => hinv.next hexact hbelow hstep)
    (inv_start clock) hrun

end Inv

/-! ### Runs that go wrong

For settings outside of the condition there is a run in which the manager forgets, or bans too
briefly: as many refusals as are too few, a round of the collector, and one more. -/

def refusal (t : Int) : Label :=
  .recordFailure ⟨[], false, fun _ => false⟩ "203.0.113.7:4711" [] [] t

def guest : String := clientIP "203.0.113.7:4711"

theorem exempt_nobody (ip : String) : exempt ⟨[], false, fun _ => false⟩ ip = false := by
  unfold exempt
  cases parseAddr ip.toList <;> rfl

def Manager.Only (b : Manager) (a : String) : Prop :=
  (∀ ip ∈ b.failures, ip = a) ∧ ∀ ip ∈ b.banned, ip = a

/-- After `k` refusals at time 0, too few for a ban. -/
structure Waiting (k : Nat) (x : Traced) : Prop where
  only : x.manager.Only guest
  ban : (x.manager.view guest).ban = none
  few : (x.manager.view guest).times.length ≤ k
  last : k = 0 ∨ (x.manager.view guest).times.getLast? = some 0
  past : x.past guest = ⟨List.replicate k 0, none⟩
  clock : x.clock = 0

section Waiting

variable {s : Settings} {x x' : Traced} {b : Manager} {k : Nat} {t : Int}

theorem Manager.Only.below (h : b.Only guest) : b.Below := by
  have hfailures := GoMap.len_le_one h.1
  have hbanned := GoMap.len_le_one h.2
  have hcap : 1 < banMaxTracked := by decide
  exact ⟨Nat.lt_of_le_of_lt hfailures hcap, Nat.lt_of_le_of_lt hbanned hcap⟩

theorem Manager.Only.refusal (h : b.Only guest) (cfg : BanConfig) :
    (b.act cfg (refusal t)).Only guest := by
  unfold BanManager.refusal Manager.act Manager.recordFailure
  simp only [exempt_nobody, evictOne_of_lt h.below.1, evictOne_of_lt h.below.2, ite_self,
    Bool.false_eq_true, if_false]
  split_ifs
  · exact h
  · refine ⟨fun ip hip => h.1 ip (AList.mem_erase.mp hip).2, fun ip hip => ?_⟩
    exact ((AList.mem_insert _).mp hip).elim id (h.2 ip)
  · refine ⟨fun ip hip => ?_, h.2⟩
    exact ((AList.mem_insert _).mp hip).elim id (h.1 ip)

theorem Manager.Only.gc (h : b.Only guest) (now : Int) : (b.gc now).Only guest :=
  ⟨fun ip hip => h.1 ip (GoMap.mem_of_mem_eraseAll hip),
    fun ip hip => h.2 ip (GoMap.mem_of_mem_eraseAll hip)⟩

/-- A refusal goes to the trail of the address. -/
theorem view_refusal (hon : s.enabled = true) (honly : x.manager.Only guest)
    (hstep : step s x (refusal t) = some x') :
    x'.manager.view guest = (x.manager.view guest).fail s.banConfig [] [] t ∧
      x'.past guest = (x.past guest).after s (.failure t) ∧ x'.clock = t := by
  obtain ⟨-, hclock, hmanager, hpast⟩ := step_eq_some hstep
  have hcounts : s.banConfig.enabled = true ∧
      exempt ⟨[], false, fun _ => false⟩ guest = false ∧ guest = clientIP "203.0.113.7:4711" :=
    ⟨hon, exempt_nobody guest, rfl⟩
  refine ⟨?_, ?_, hclock⟩
  · rw [hmanager, refusal, Manager.act, view_recordFailure honly.below, if_pos hcounts]
  · rw [hpast, refusal, Label.event, if_pos hcounts]
    rfl

theorem inWindow_replicate (ht : t < s.window * 1000000000) (h0 : 0 ≤ t) :
    inWindow s t (List.replicate k 0 ++ [t]) = k + 1 := by
  have hwindow := s.window_pos
  rw [inWindow_concat, keep, List.filter_replicate, if_pos, List.length_append,
    List.length_replicate, List.length_singleton]
  · simp only [decide_eq_true_eq]
    omega
  · intro f hf
    rw [List.eq_of_mem_replicate hf]
    exact h0

/-- A refusal that is one too few. -/
theorem Waiting.next (hon : s.enabled = true) (h : Waiting k x) (hk : k + 1 < s.limit) :
    ∃ x', step s x (refusal 0) = some x' ∧ Waiting (k + 1) x' := by
  have hwindow := s.window_pos
  obtain ⟨x', hstep⟩ : ∃ x', step s x (refusal 0) = some x' :=
    exists_step (Int.le_of_eq h.clock)
  obtain ⟨hview, hpast, hclock⟩ := view_refusal hon h.only hstep
  obtain ⟨-, -, hmanager, -⟩ := step_eq_some hstep
  have hlen : (keep (0 + (-s.banConfig.window).bmod (2 ^ 64))
      (x.manager.view guest).times).length ≤ k :=
    Nat.le_trans (List.length_filter_le ..) h.few
  have hfail : (x.manager.view guest).fail s.banConfig [] [] 0 =
      ⟨keep (0 + (-s.banConfig.window).bmod (2 ^ 64)) (x.manager.view guest).times ++ [0],
        (x.manager.view guest).ban⟩ := by
    apply if_neg
    have hthreshold : s.banConfig.threshold = s.limit := rfl
    rw [List.length_append, List.length_singleton]
    omega
  have hafter : (x.past guest).after s (.failure 0) = ⟨List.replicate k 0 ++ [0], none⟩ := by
    rw [h.past]
    apply if_neg
    rw [inWindow_replicate (by omega) (Int.le_refl 0)]
    omega
  refine ⟨x', hstep, ?_, ?_, ?_, Or.inr ?_, ?_, hclock⟩
  · rw [hmanager]
    exact h.only.refusal _
  · rw [hview, hfail]
    exact h.ban
  · rw [hview, hfail, List.length_append, List.length_singleton]
    omega
  · rw [hview, hfail]
    simp
  · rw [hpast, hafter, List.replicate_succ']

/-- As many refusals as are too few for a ban. -/
theorem exists_waiting (hon : s.enabled = true) (hk : k < s.limit) :
    ∃ labels x, run (step s) (start 0) labels = some x ∧ Waiting k x ∧
      RunMeets (step s) (fun x _ => x.manager.Below) (start 0) labels := by
  induction k with
  | zero =>
      exact ⟨[], start 0, rfl, ⟨⟨nofun, nofun⟩, rfl, Nat.le_refl 0, Or.inl rfl, rfl, rfl⟩, trivial⟩
  | succ k ih =>
      obtain ⟨labels, x, hrun, hwait, hmeets⟩ := ih (by omega)
      obtain ⟨x', hstep, hnext⟩ := hwait.next hon hk
      refine ⟨labels ++ [refusal 0], x', ?_, hnext, hmeets.concat hrun hwait.only.below⟩
      exact run_append_eq_some.mpr ⟨x, hrun, run_cons_eq_some.mpr ⟨x', hstep, rfl⟩⟩

/-- After the collector's hour, the failures of a longer window are forgotten. -/
theorem window_le_of_counts (hon : s.enabled = true) (hcounts : Counts s) :
    s.limit = 1 ∨ s.window ≤ 3600 := by
  by_contra hlate
  obtain ⟨hmany, hlong⟩ := not_or.mp hlate
  have hlimit := s.limit_pos
  have hsucc : s.limit - 1 + 1 = s.limit := by omega
  obtain ⟨labels, x, hrun, hwait, hmeets⟩ := exists_waiting hon (k := s.limit - 1) (by omega)
  have hclockX : x.clock ≤ 3600 * 1000000000 + 1 := by
    rw [hwait.clock]
    decide
  obtain ⟨y, hgc⟩ : ∃ y, step s x (.gc (3600 * 1000000000 + 1)) = some y := exists_step hclockX
  obtain ⟨-, hclock, hmanager, hpast⟩ := step_eq_some hgc
  have honly : y.manager.Only guest := by
    rw [hmanager]
    exact hwait.only.gc _
  have htimes : (y.manager.view guest).times = [] := by
    rw [hmanager, Manager.act, view_gc]
    apply if_pos
    rw [hwait.last.resolve_left (by omega)]
    decide
  have hban : (y.manager.view guest).ban = none := by
    rw [hmanager, Manager.act, view_gc]
    simp [View.gc, hwait.ban]
  obtain ⟨z, hstep⟩ : ∃ z, step s y (refusal (3600 * 1000000000 + 1)) = some z :=
    exists_step (Int.le_of_eq hclock)
  have hrunY : run (step s) (start 0) (labels ++ [.gc (3600 * 1000000000 + 1)]) = some y :=
    run_append_eq_some.mpr ⟨x, hrun, run_cons_eq_some.mpr ⟨y, hgc, rfl⟩⟩
  have hright := hcounts 0 _ y _ z hrunY
    ((hmeets.concat hrun hwait.only.below).concat hrunY honly.below) hstep (exempt_nobody _)
  -- the failures are in the window, and the trail holds the last of them alone
  have hwindow : inWindow s (3600 * 1000000000 + 1)
      ((y.past guest).noted ++ [3600 * 1000000000 + 1]) = s.limit := by
    have hnoted : y.past guest = x.past guest := hpast guest
    rw [hnoted, hwait.past, inWindow_replicate (by omega) (by omega), hsucc]
  have hbans : z.manager.Bans guest (3600 * 1000000000 + 1) :=
    hright.mpr (Or.inr (Nat.le_of_eq hwindow.symm))
  obtain ⟨e, he, -⟩ := hbans
  have hview := (view_refusal hon honly hstep).1
  have hfail : (y.manager.view guest).fail s.banConfig [] [] (3600 * 1000000000 + 1) =
      ⟨keep (3600 * 1000000000 + 1 + (-s.banConfig.window).bmod (2 ^ 64))
        (y.manager.view guest).times ++ [3600 * 1000000000 + 1], (y.manager.view guest).ban⟩ := by
    apply if_neg
    have hthreshold : s.banConfig.threshold = s.limit := rfl
    rw [htimes, hthreshold]
    simp only [keep_nil, List.nil_append, List.length_singleton]
    omega
  have hnone : (z.manager.view guest).ban = none := by rw [hview, hfail, hban]
  exact absurd (hnone.symm.trans he) nofun

/-- A ban whose end is no time of 64 bits ends too early. -/
theorem duration_lt_of_counts (hon : s.enabled = true) (hcounts : Counts s) :
    s.duration * 1000000000 < 2 ^ 63 := by
  by_contra hlong
  have hlimit := s.limit_pos
  have hwindow := s.window_pos
  have hsucc : s.limit - 1 + 1 = s.limit := by omega
  obtain ⟨labels, x, hrun, hwait, hmeets⟩ := exists_waiting hon (k := s.limit - 1) (by omega)
  obtain ⟨y, hstep⟩ : ∃ y, step s x (refusal 0) = some y :=
    exists_step (Int.le_of_eq hwait.clock)
  obtain ⟨hview, hpast, hclock⟩ := view_refusal hon hwait.only hstep
  obtain ⟨-, -, hmanager, -⟩ := step_eq_some hstep
  have honly : y.manager.Only guest := by
    rw [hmanager]
    exact hwait.only.refusal _
  have hreached : s.limit ≤ inWindow s 0 ((x.past guest).noted ++ [0]) := by
    rw [hwait.past, inWindow_replicate (by omega) (Int.le_refl 0)]
    omega
  -- the last refusal bans the address, until a time that is one of 64 bits
  have hbans : y.manager.Bans guest 0 :=
    (hcounts 0 labels x _ y hrun (hmeets.concat hrun hwait.only.below) hstep (exempt_nobody _)).mpr
    (Or.inr hreached)
  have hends : (y.past guest).ends = some ((0 : Int) + s.duration * 1000000000) := by
    rw [hpast]
    exact congrArg History.ends (if_pos hreached)
  have htill : ∀ e, (y.manager.view guest).ban = some e → e.till < 2 ^ 63 := by
    intro e he
    rw [hview, View.fail] at he
    split_ifs at he
    · obtain rfl := Option.some.inj he
      simpa using s.banFor_lt
    · rw [hwait.ban] at he
      cases he
  have hrunY : run (step s) (start 0) (labels ++ [refusal 0]) = some y :=
    run_append_eq_some.mpr ⟨x, hrun, run_cons_eq_some.mpr ⟨y, hstep, rfl⟩⟩
  have hclockY : y.clock ≤ 2 ^ 63 := by
    rw [hclock]
    decide
  obtain ⟨z, hask⟩ : ∃ z, step s y
      (.blocked ⟨[], false, fun _ => false⟩ "203.0.113.7:4711" (2 ^ 63)) = some z :=
    exists_step hclockY
  have hblocked := (hcounts 0 _ y _ z hrunY
    ((hmeets.concat hrun hwait.only.below).concat hrunY honly.below) hask).mpr
    ⟨exempt_nobody _, _, hends, by omega⟩
  obtain ⟨-, -, e, he, hle⟩ := blocked_eq_true.mp hblocked
  exact absurd (htill e he) (Int.not_lt.mpr hle)

end Waiting

/-! ### Exactly these settings

One direction is the simulation along runs.  For the other, a window that is longer than the
collector's hour and a duration whose end is no time of 64 bits each have a run that shows it. -/

/-- Bans count exactly the failures in the window and last as long as they should, in every
run, if and only if the window is at most an hour (or one failure bans) and a ban's duration
fits 64 bits of nanoseconds. -/
theorem counts_iff_exact (s : Settings) (hon : s.enabled = true) : Counts s ↔ Exact s := by
  constructor
  · intro hcounts
    exact ⟨window_le_of_counts hon hcounts, duration_lt_of_counts hon hcounts⟩
  · intro hexact clock labels x label x' hrun hmeets hstep
    have hbelow := (hmeets.of_append hrun).1
    exact (inv_run hexact hmeets.left hrun).right hon hexact hbelow hstep

def defaults : Settings := ⟨true, none, none, none⟩

theorem counts_iff_exact_defaults : defaults.enabled = true ∧ Exact defaults ∧ Counts defaults :=
  ⟨rfl, by decide, (counts_iff_exact defaults rfl).mpr (by decide)⟩

/-- Two refusals within two hours ban an address, unless the collector comes by in between. -/
def twoHours : Settings := ⟨true, some 2, some 7200, some 3600⟩

theorem collector_forgets_window : ¬ ∀ s : Settings, s.enabled = true → Counts s := by
  intro hall
  have hwindow := window_le_of_counts rfl (hall twoHours rfl)
  exact absurd hwindow (by decide)

end Quicgate.BanManager
