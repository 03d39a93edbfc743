import Quicgate.AddrText
import Quicgate.BanManager
import Quicgate.GoRunes

/-!
# Bans across a restart

The ban manager writes the bans that are in force to a file and reads them back when it starts
(`save` and `load` of `internal/engine/ban.go`).  In the table a ban is under the text of the
address as the socket gives it; `load` takes that text for an address of `net`, which has no
zone.

`restored_iff` says which tables come back, and `zone_is_forgotten` is a ban that does not.
-/

namespace Quicgate.SavedBans

open Quicgate.AddrText Quicgate.BanManager Quicgate.GoMaps Quicgate.GoNet Quicgate.GoRunes
open Quicgate.GoStrings Quicgate.GoTime Quicgate.Netip Quicgate.TransitionSystem
open Quicgate.Identity (clientIP)

/-! ### Where a request comes from

The key of a ban is the text of the client's address; which texts there are depends on the
listeners. -/

def joinHostPort (host port : List Char) : List Char :=
  if ':' ∈ host then '[' :: (host ++ ']' :: ':' :: port) else host ++ ':' :: port

/-- The client's end of a connection. Only an IPv6 address has a zone. -/
structure Peer where
  ip : IP
  zone : String
  port : Nat
  six : zone ≠ "" → to4 ip = none

def Peer.host (p : Peer) : List Char :=
  if p.zone = "" then ipText p.ip else ipText p.ip ++ '%' :: p.zone.toList

/-- `RemoteAddr`: `TCPAddr.String` and `UDPAddr.String`, and what `wrapRealIP` puts in its place. -/
def Peer.remoteAddr (p : Peer) : String := String.ofList (joinHostPort p.host (itoa p.port))

/-! ### The file

The file is JSON, which changes bytes that are no text; the ban's key may be such a text. -/

structure SavedBan where
  ip : String
  since : Int
  till : Int -- `until`
  failures : Nat
  host : List UInt8
  reason : List UInt8
deriving DecidableEq, Repr

structure BanFile where
  version : Nat
  bans : List SavedBan
deriving DecidableEq, Repr

def maxBanFile : Nat := 16 * 2 ^ 20

/-- The bytes of a string from `skip` bytes before the end of a rune on, through JSON. -/
def jsonFrom : Nat → List UInt8 → List UInt8
  | _, [] => []
  | skip + 1, b :: rest => b :: jsonFrom skip rest
  | 0, b :: rest =>
      if decodeRune b rest = (runeError, 1) then 0xEF :: 0xBF :: 0xBD :: jsonFrom 0 rest
      else b :: jsonFrom ((decodeRune b rest).2 - 1) rest

/-- A string that `json.Marshal` wrote and `json.Unmarshal` read: a byte that is not the start of a
well-formed encoding has become the replacement character. -/
def jsonText (s : List UInt8) : List UInt8 := jsonFrom 0 s

def SavedBan.json (s : SavedBan) : SavedBan :=
  { s with host := jsonText s.host, reason := jsonText s.reason }

/-- What the file then says. -/
def save (b : Manager) (range : Range String BanEntry) (now : Int) : BanFile where
  version := 1
  bans := ((range.order b.banned).filter fun p => now < p.2.till).map fun p =>
    SavedBan.json ⟨p.1, p.2.since, p.2.till, p.2.failures, p.2.host, p.2.reason⟩

def loadBan (now : Int) (banned : GoMap String BanEntry) (s : SavedBan) : GoMap String BanEntry :=
  match parseIP s.ip.toList with
  | none => banned
  | some ip =>
      if s.till ≤ now ∨ banMaxTracked ≤ GoMap.len banned then banned
      else banned.insert (String.ofList (ipText ip))
        ⟨s.since, s.till, s.failures, truncate s.host 253, truncate s.reason 300⟩

/-- `load` into a fresh manager, from a file of so many bytes. -/
def load (size : Nat) (doc : BanFile) (now : Int) : GoMap String BanEntry :=
  if maxBanFile < size ∨ doc.version ≠ 1 then ∅ else doc.bans.foldl (loadBan now) ∅

/-! ### What has to come back

The bans in force at the restart, and no others, as far as the caps of the table let them
through. -/

def capped (ban : BanEntry) : BanEntry :=
  { ban with host := truncate ban.host 253, reason := truncate ban.reason 300 }

/-- After a restart at `t` the table has the bans that are in force at `t`, and no others. -/
def Restored (b : Manager) (restored : GoMap String BanEntry) (t : Int) : Prop :=
  ∀ key, restored.lookup key = ((b.banned.lookup key).filter fun ban => t < ban.till).map capped

/-- No ban in force is on an address with a zone, and their texts are as JSON has them. -/
def Portable (b : Manager) (t : Int) : Prop :=
  ∀ key ban, b.banned.lookup key = some ban → t < ban.till →
    '%' ∉ key.toList ∧ truncate (jsonText ban.host) 253 = truncate ban.host 253 ∧
      truncate (jsonText ban.reason) 300 = truncate ban.reason 300

def FromListener : Label → Prop
  | .recordFailure _ remoteAddr _ _ _ => ∃ p : Peer, remoteAddr = p.remoteAddr
  | .blocked _ _ _ | .unban _ | .liftExempt _ | .gc _ => True

/-! ### Keys

Keys that come from listeners are texts of addresses, with a zone or without. -/

/-- The key of a client: the text of an address, or one with a zone. -/
def IsKey (key : String) : Prop :=
  (∃ ip, key.toList = ipText ip) ∨ '%' ∈ key.toList

theorem not_bracket_mem_ipText {ip : IP} : '[' ∉ ipText ip ∧ ']' ∉ ipText ip :=
  ⟨not_mem_ipText (by decide) (by decide) (by decide),
    not_mem_ipText (by decide) (by decide) (by decide)⟩

theorem splitHostPort_join {host port : List Char} (hopen : '[' ∉ host) (hclose : ']' ∉ host)
    (hport : ':' ∉ port ∧ '[' ∉ port ∧ ']' ∉ port) :
    splitHostPort (joinHostPort host port) = some (host, port) := by
  unfold joinHostPort
  split_ifs with hcolon
  · have hlast : cutLast ':' ('[' :: (host ++ ']' :: ':' :: port)) =
      ('[' :: (host ++ [']']), port, true) := by
      have hsplit : '[' :: (host ++ ']' :: ':' :: port) = ('[' :: (host ++ [']'])) ++
        ':' :: port := by
        simp
      rw [hsplit]
      exact cutLast_append_cons hport.1 _
    unfold splitHostPort
    simp only [hlast, cut_append_cons hclose]
    rw [if_pos]
    simp [hopen, hport.2.1, hport.2.2]
  · have hplain : '[' ∉ host ++ ':' :: port ∧ ']' ∉ host ++ ':' :: port := by
      simp [hopen, hclose, hport.2.1, hport.2.2]
    unfold splitHostPort
    simp only [cutLast_append_cons hport.1]
    split
    · rename_i heq
      exact absurd (heq ▸ List.mem_cons_self) hplain.1
    · rw [if_neg]
      rintro (hmem | hmem | hmem)
      · exact hcolon hmem
      · exact hplain.1 hmem
      · exact hplain.2 hmem

/-- What stands before the first separator keeps the characters that come before it. -/
theorem mem_cut_append {sep c : Char} {before : List Char} (hsep : sep ∉ before) (hc : c ≠ sep)
    (after : List Char) : c ∈ (cut sep (before ++ c :: after)).1 := by
  induction before with
  | nil => simp [cut, hc]
  | cons d before ih =>
      have hd : d ≠ sep := fun heq => hsep (heq ▸ List.mem_cons_self)
      have hrec := ih fun hmem => hsep (List.mem_cons_of_mem d hmem)
      simp [cut, hd, hrec]

/-- A client is known by the text of its address, with the zone if it has one. -/
theorem isKey_clientIP (p : Peer) : IsKey (clientIP p.remoteAddr) := by
  have hport : ':' ∉ itoa p.port ∧ '[' ∉ itoa p.port ∧ ']' ∉ itoa p.port :=
    ⟨not_mem_itoa (by decide), not_mem_itoa (by decide), not_mem_itoa (by decide)⟩
  unfold clientIP Peer.remoteAddr Peer.host
  rw [String.toList_ofList]
  by_cases hzone : p.zone = ""
  · rw [if_pos hzone, splitHostPort_join not_bracket_mem_ipText.1 not_bracket_mem_ipText.2 hport]
    exact Or.inl ⟨p.ip, String.toList_ofList⟩
  · have hcolon : ':' ∈ ipText p.ip ++ '%' :: p.zone.toList :=
      List.mem_append_left _ (colon_mem_ipText_iff.mpr (p.six hzone))
    right
    rw [if_neg hzone, joinHostPort, if_pos hcolon]
    split
    · rename_i host port hsplit
      rw [String.toList_ofList]
      unfold splitHostPort at hsplit
      split at hsplit
      · simp only at hsplit
        split at hsplit
        · rename_i host' after hcut
          split_ifs at hsplit
          obtain ⟨rfl, -⟩ := Prod.mk.inj (Option.some.inj hsplit)
          have hmem := @mem_cut_append ']' '%' (ipText p.ip) not_bracket_mem_ipText.2 (by decide)
            (p.zone.toList ++ ']' :: ':' :: itoa p.port)
          rw [List.append_assoc, List.cons_append] at hcut
          rwa [hcut] at hmem
        · cases hsplit
      · cases hsplit
    · simp [String.toList_ofList]

/-! ### The table

What a run of the manager keeps about the keys of its bans. -/

/-- What is known of a manager whose failures came from the listeners. -/
structure Kept (b : Manager) : Prop where
  key : ∀ key ban, b.banned.lookup key = some ban → IsKey key
  len : GoMap.len b.banned ≤ banMaxTracked

section Table

variable {b : Manager} {m : GoMap String BanEntry} {key : String} {ban : BanEntry} {max : Nat}

theorem lookup_of_erase {k : String} (h : (m.erase k).lookup key = some ban) :
    m.lookup key = some ban := by
  by_cases hk : key = k
  · subst hk
    rw [AList.lookup_erase] at h
    cases h
  · rwa [AList.lookup_erase_ne hk] at h

theorem lookup_of_evictOne (h : (evictOne m max).lookup key = some ban) :
    m.lookup key = some ban := by
  unfold evictOne at h
  generalize m.keys = keys at h
  induction keys generalizing m with
  | nil => exact h
  | cons k keys ih =>
      rw [List.foldl_cons] at h
      have hrest := ih h
      split_ifs at hrest with hroom
      · exact hrest
      · exact lookup_of_erase hrest

/-- There is room for one more. -/
theorem len_evictOne_lt (hmax : 0 < max) (m : GoMap String BanEntry) :
    GoMap.len (evictOne m max) < max := by
  have hfold (keys : List String) (left : GoMap String BanEntry)
    (hleft : ∀ k ∈ left.keys, k ∈ keys) :
      GoMap.len (keys.foldl (fun left k => if GoMap.len left < max then left else left.erase k)
        left) < max := by
    induction keys generalizing left with
    | nil =>
        have hnil : left.keys = [] := List.eq_nil_iff_forall_not_mem.mpr fun k hk => by
          simpa using hleft k hk
        have hlen : GoMap.len left = left.keys.length := by
          simp [GoMap.len, GoMap.pairs, AList.keys, List.keys]
        simpa [hlen, hnil] using hmax
    | cons key keys ih =>
        rw [List.foldl_cons]
        by_cases hroom : GoMap.len left < max
        · rw [if_pos hroom, foldl_evict_of_lt hroom]
          exact hroom
        · rw [if_neg hroom]
          apply ih
          intro k hk
          have hk : k ∈ left.erase key := AList.mem_keys.mp hk
          rw [AList.mem_erase] at hk
          exact (List.mem_cons.mp (hleft k (AList.mem_keys.mpr hk.2))).resolve_left hk.1
  exact hfold m.keys m fun _ hk => hk

/-- Bans are only dropped. -/
theorem Kept.drop {b' : Manager} (h : Kept b)
    (hlookup : ∀ key ban, b'.banned.lookup key = some ban → b.banned.lookup key = some ban)
    (hlen : GoMap.len b'.banned ≤ GoMap.len b.banned) : Kept b' where
  key := fun key ban hban => h.key key ban (hlookup key ban hban)
  len := Nat.le_trans hlen h.len

theorem Kept.unban (h : Kept b) (ip : String) : Kept (b.unban ip).2 :=
  h.drop (fun _ _ hban => lookup_of_erase hban) (GoMap.len_erase_le _ _)

theorem Kept.unbanAll (h : Kept b) (ips : List String) :
    Kept (ips.foldl (fun b ip => (b.unban ip).2) b) := by
  induction ips generalizing b with
  | nil => exact h
  | cons ip ips ih => exact ih (h.unban ip)

/-- A failure bans its address, or leaves the table as it is. -/
theorem banned_recordFailure (cfg : BanConfig) (never : NeverBan) (remoteAddr : String)
    (host reason : List UInt8) (now : Int) :
    (b.recordFailure cfg never remoteAddr host reason now).banned = b.banned ∨
      ∃ ban, (b.recordFailure cfg never remoteAddr host reason now).banned =
        (if (b.banned.lookup (clientIP remoteAddr)).isNone then evictOne b.banned banMaxTracked
          else b.banned).insert (clientIP remoteAddr) ban := by
  unfold Manager.recordFailure
  by_cases hoff : cfg.enabled = false
  · exact Or.inl (by rw [if_pos hoff])
  by_cases hexempt : exempt never (clientIP remoteAddr) = true
  · exact Or.inl (by rw [if_neg hoff, if_pos hexempt])
  rw [if_neg hoff, if_neg hexempt]
  simp only
  by_cases hreached :
      cfg.threshold ≤
        (keep (now + (-cfg.window).bmod (2 ^ 64)) (b.times (clientIP remoteAddr)) ++ [now]).length
  · rw [if_pos hreached]
    exact Or.inr ⟨_, rfl⟩
  · rw [if_neg hreached]
    exact Or.inl rfl

theorem Kept.insert (h : Kept b) {b' : Manager} (p : Peer) (ban : BanEntry)
    (hb : b'.banned = (if (b.banned.lookup (clientIP p.remoteAddr)).isNone then
        evictOne b.banned banMaxTracked else b.banned).insert (clientIP p.remoteAddr) ban) :
    Kept b' := by
  cases hold : b.banned.lookup (clientIP p.remoteAddr) with
  | none =>
      -- a new address takes the place of an old one
      rw [hold, Option.isNone_none, if_pos rfl] at hb
      constructor
      · intro key e he
        by_cases hkey : key = clientIP p.remoteAddr
        · exact hkey ▸ isKey_clientIP p
        · rw [hb, AList.lookup_insert_ne hkey] at he
          exact h.key key e (lookup_of_evictOne he)
      · have hroom := len_evictOne_lt (by decide : 0 < banMaxTracked) b.banned
        have herase := GoMap.len_erase_le (evictOne b.banned banMaxTracked) (clientIP p.remoteAddr)
        rw [hb, GoMap.len_insert]
        exact Nat.le_trans (Nat.succ_le_succ herase) hroom
  | some old =>
      rw [hold, Option.isNone_some, if_neg Bool.false_ne_true] at hb
      constructor
      · intro key e he
        by_cases hkey : key = clientIP p.remoteAddr
        · exact hkey ▸ isKey_clientIP p
        · rw [hb, AList.lookup_insert_ne hkey] at he
          exact h.key key e he
      · rw [hb, GoMap.len_insert, GoMap.len_erase_add hold]
        exact h.len

theorem Kept.act {label : Label} (h : Kept b) (hfrom : FromListener label) (cfg : BanConfig) :
    Kept (b.act cfg label) := by
  cases label with
  | recordFailure never remoteAddr host reason now =>
      obtain ⟨p, rfl⟩ := hfrom
      rcases @banned_recordFailure b cfg never p.remoteAddr host reason now with hsame | ⟨ban, hban⟩
      · exact h.drop (fun key ban hban => by rwa [← hsame]) (by rw [Manager.act, hsame])
      · exact h.insert p ban hban
  | blocked never remoteAddr now =>
      rw [Manager.act, Manager.blocked]
      by_cases hoff : cfg.enabled = false
      · rwa [if_pos hoff]
      rw [if_neg hoff]
      cases hban : b.banned.lookup (clientIP remoteAddr) with
      | none => simpa [hban] using h
      | some ban =>
          simp only [hban]
          by_cases hover : ban.till < now
          · rw [if_pos hover]
            exact h.drop (fun _ _ hban => lookup_of_erase hban) (GoMap.len_erase_le _ _)
          · rw [if_neg hover]
            by_cases hexempt : exempt never (clientIP remoteAddr) = true
            · rw [if_pos hexempt]
              exact h.unban _
            · rwa [if_neg hexempt]
  | unban ip => exact h.unban ip
  | liftExempt never => exact h.unbanAll _
  | gc now =>
      refine h.drop ?_ (GoMap.len_eraseAll_le _ _)
      intro key ban hban
      rw [Manager.act, Manager.gc, GoMap.lookup_eraseAll] at hban
      split_ifs at hban
      exact hban

end Table

theorem kept_run {s : Settings} {clock : Int} {labels : List Label} {x : Traced}
    (hfrom : ∀ label ∈ labels, FromListener label)
    (hrun : run (step s) (start clock) labels = some x) : Kept x.manager := by
  have hallowed : RunMeets (step s) (fun _ label => FromListener label) (start clock) labels :=
    .of_forall fun label hlabel _ => hfrom label hlabel
  have hstart : Kept (start clock).manager := by
    constructor
    · intro key ban hban
      exact absurd hban (by simp [start, newBanManager])
    · exact Nat.zero_le _
  refine hallowed.invariant (P := fun x => Kept x.manager) ?_ hstart hrun
  intro y label y' hy hlabel hstep
  rw [(step_eq_some hstep).2.2.1]
  exact hy.act hlabel s.banConfig

/-! ### Reading it back

With room for all, the loop writes every ban that can be read, whatever the order of the file. -/

section Load

variable {b : Manager} {key : String} {ban : BanEntry} {now t : Int}

def restored (now : Int) (s : SavedBan) : Option (String × BanEntry) :=
  (parseIP s.ip.toList).bind fun ip =>
    if now < s.till then
      some (String.ofList (ipText ip),
        ⟨s.since, s.till, s.failures, truncate s.host 253, truncate s.reason 300⟩)
    else none

/-- With room for all entries, the loop is a loop of writes. -/
theorem foldl_loadBan {bans : List SavedBan} {banned : GoMap String BanEntry}
    (hroom : GoMap.len banned + bans.length ≤ banMaxTracked) :
    bans.foldl (loadBan now) banned = GoMap.insertAll banned (bans.filterMap (restored now)) := by
  induction bans generalizing banned with
  | nil => rfl
  | cons s bans ih =>
      rw [List.length_cons] at hroom
      rw [List.foldl_cons]
      cases hip : parseIP s.ip.toList with
      | none =>
          have hskip : loadBan now banned s = banned := by simp only [loadBan, hip]
          have hnone : restored now s = none := by simp only [restored, hip, Option.bind_none]
          rw [hskip, List.filterMap_cons_none hnone, ih (by omega)]
      | some ip =>
          by_cases hover : s.till ≤ now
          · have hskip : loadBan now banned s = banned := by
              simp only [loadBan, hip, hover, true_or, if_true]
            have hnone : restored now s = none := by
              simp only [restored, hip, Option.bind_some, not_lt.mpr hover, if_false]
            rw [hskip, List.filterMap_cons_none hnone, ih (by omega)]
          · have hfull : ¬ banMaxTracked ≤ GoMap.len banned := by omega
            have hsome : restored now s = some (String.ofList (ipText ip),
                ⟨s.since, s.till, s.failures, truncate s.host 253, truncate s.reason 300⟩) := by
              simp only [restored, hip, Option.bind_some, not_le.mp hover, if_true]
            have hwrite : loadBan now banned s = banned.insert (String.ofList (ipText ip))
                ⟨s.since, s.till, s.failures, truncate s.host 253, truncate s.reason 300⟩ := by
              simp only [loadBan, hip, hover, hfull, or_self, if_false]
            rw [hwrite, List.filterMap_cons_some hsome, GoMap.insertAll, List.foldl_cons,
              ← GoMap.insertAll]
            apply ih
            have herase := GoMap.len_erase_le banned (String.ofList (ipText ip))
            rw [GoMap.len_insert]
            omega

/-- A ban as it comes back. -/
def comesBack (ban : BanEntry) : BanEntry :=
  { ban with host := truncate (jsonText ban.host) 253,
             reason := truncate (jsonText ban.reason) 300 }

/-- The entries that are written back. -/
theorem mem_restored {range : Range String BanEntry} {saved : Int} (hkept : Kept b)
    (hle : saved ≤ t)
    {v : BanEntry} : (key, v) ∈ (save b range saved).bans.filterMap (restored t) ↔
      ∃ ban, b.banned.lookup key = some ban ∧ t < ban.till ∧ '%' ∉ key.toList ∧
        comesBack ban = v := by
  have hmem (s : SavedBan) : s ∈ (save b range saved).bans ↔
      ∃ key ban, b.banned.lookup key = some ban ∧ saved < ban.till ∧
        SavedBan.json ⟨key, ban.since, ban.till, ban.failures, ban.host, ban.reason⟩ = s := by
    unfold save
    simp only [List.mem_map, List.mem_filter, decide_eq_true_eq, Prod.exists, Range.mem_order,
      and_assoc]
  constructor
  · intro h
    obtain ⟨s, hs, hback⟩ := List.mem_filterMap.mp h
    obtain ⟨key', ban, hlookup, -, rfl⟩ := (hmem s).mp hs
    obtain ⟨ip, hip, hentry⟩ := Option.bind_eq_some_iff.mp hback
    split_ifs at hentry with hover
    obtain ⟨rfl, rfl⟩ := Prod.mk.inj (Option.some.inj hentry)
    have hpercent : '%' ∉ key'.toList := by
      intro hmem
      rw [SavedBan.json, parseIP_of_percent hmem] at hip
      cases hip
    obtain ⟨ip', htext⟩ := (hkept.key key' ban hlookup).resolve_right hpercent
    have hkey : String.ofList (ipText ip) = key' := by
      rw [SavedBan.json, htext, parseIP_ipText] at hip
      rw [← Option.some.inj hip, ← htext, String.ofList_toList]
    exact ⟨ban, hkey ▸ hlookup, hover, hkey ▸ hpercent, rfl⟩
  · rintro ⟨ban, hlookup, hover, hpercent, rfl⟩
    obtain ⟨ip, htext⟩ := (hkept.key key ban hlookup).resolve_right hpercent
    refine List.mem_filterMap.mpr ⟨_, (hmem _).mpr ⟨key, ban, hlookup, by omega, rfl⟩, ?_⟩
    simp only [restored, SavedBan.json, htext, parseIP_ipText, Option.bind_some, hover, if_true,
      Option.some.injEq, Prod.mk.injEq]
    exact ⟨by rw [← htext, String.ofList_toList], rfl⟩

theorem lookup_load {range : Range String BanEntry} {size : Nat} {saved : Int} (hkept : Kept b)
    (hsize : size ≤ maxBanFile) (hle : saved ≤ t) :
    (load size (save b range saved) t).lookup key =
      ((b.banned.lookup key).filter fun ban => t < ban.till ∧ '%' ∉ key.toList).map comesBack := by
  have hroom : GoMap.len (∅ : GoMap String BanEntry) + (save b range saved).bans.length ≤
      banMaxTracked := by
    have hfilter := List.length_filter_le (fun p : String × BanEntry => decide (saved < p.2.till))
      (range.order b.banned)
    rw [Range.length_order] at hfilter
    have hempty : GoMap.len (∅ : GoMap String BanEntry) = 0 := rfl
    rw [hempty, Nat.zero_add, save, List.length_map]
    exact Nat.le_trans hfilter hkept.len
  have hread : ¬ (maxBanFile < size ∨ (save b range saved).version ≠ 1) := by
    simp [save, Nat.not_lt.mpr hsize]
  rw [load, if_neg hread, foldl_loadBan hroom]
  have hentry := fun v => @mem_restored b key t range saved hkept hle v
  by_cases hback : ∃ ban, b.banned.lookup key = some ban ∧ t < ban.till ∧ '%' ∉ key.toList
  · obtain ⟨ban, hlookup, hover, hpercent⟩ := hback
    rw [hlookup, Option.filter_some, if_pos (by simp [hover, hpercent]), Option.map_some]
    apply GoMap.lookup_insertAll_of_agree
    · rintro ⟨key', v⟩ hmem rfl
      obtain ⟨ban', hlookup', -, -, rfl⟩ := (hentry v).mp hmem
      rw [Option.some.inj (hlookup.symm.trans hlookup')]
    · exact Or.inl ⟨_, (hentry _).mpr ⟨ban, hlookup, hover, hpercent, rfl⟩, rfl⟩
  · have hnone : ((b.banned.lookup key).filter fun ban => t < ban.till ∧ '%' ∉ key.toList) =
      none := by
      rw [Option.filter_eq_none_iff]
      intro ban hlookup hok
      rw [decide_eq_true_eq] at hok
      exact hback ⟨ban, hlookup, hok⟩
    rw [hnone, Option.map_none, GoMap.lookup_insertAll_of_ne, AList.lookup_empty]
    rintro ⟨key', v⟩ hmem rfl
    obtain ⟨ban, hlookup, hover, hpercent, -⟩ := (hentry v).mp hmem
    exact hback ⟨ban, hlookup, hover, hpercent⟩

end Load

/-- **Bans survive a restart** exactly when none in force is on an address with a zone and JSON
keeps their texts. -/
theorem restored_iff (s : Settings) (clock : Int) (labels : List Label) (x : Traced)
    (hrun : run (step s) (start clock) labels = some x)
    (hfrom : ∀ label ∈ labels, FromListener label) (range : Range String BanEntry) (size : Nat)
    (hsize : size ≤ maxBanFile) (saved t : Int) (hle : saved ≤ t) :
    Restored x.manager (load size (save x.manager range saved) t) t ↔ Portable x.manager t := by
  have hkept := kept_run hfrom hrun
  constructor
  · intro h key ban hban hover
    have hkey := h key
    rw [lookup_load hkept hsize hle, hban, Option.filter_some, Option.filter_some] at hkey
    rw [if_pos (decide_eq_true hover), Option.map_some] at hkey
    by_cases hpercent : '%' ∈ key.toList
    · rw [if_neg (by simp [hpercent]), Option.map_none] at hkey
      cases hkey
    · rw [if_pos (decide_eq_true ⟨hover, hpercent⟩), Option.map_some] at hkey
      have hsame := Option.some.inj hkey
      exact ⟨hpercent, congrArg BanEntry.host hsame, congrArg BanEntry.reason hsame⟩
  · intro h key
    rw [lookup_load hkept hsize hle]
    cases hban : x.manager.banned.lookup key with
    | none => rfl
    | some ban =>
        rw [Option.filter_some, Option.filter_some]
        by_cases hover : t < ban.till
        · obtain ⟨hpercent, hhost, hreason⟩ := h key ban hban hover
          rw [if_pos (decide_eq_true ⟨hover, hpercent⟩), if_pos (decide_eq_true hover),
            Option.map_some, Option.map_some, comesBack, capped, hhost, hreason]
        · rw [if_neg (by simp [hover]), if_neg (by simp [hover]), Option.map_none, Option.map_none]

section Examples

def firstFailure : Settings := ⟨true, some 1, none, none⟩

def failureFrom (p : Peer) : Label :=
  .recordFailure ⟨[], false, fun _ => false⟩ p.remoteAddr (utf8 "app.example")
    (utf8 "wrong password") 0

/-- A client on the link of the server. -/
def linkLocal : Peer := ⟨0xfe800000000000000000000000000001#128, "eth0", 50000, fun _ => by decide⟩

def globalPeers : List Peer :=
  [⟨mapped 0xcb007107#32, "", 4711, fun h => absurd rfl h⟩,
    ⟨0x20010db8000000000000000000000007#128, "", 443, fun h => absurd rfl h⟩]

theorem fromListener_failures (peers : List Peer) :
    ∀ label ∈ peers.map failureFrom, FromListener label := by
  intro label hlabel
  obtain ⟨p, -, rfl⟩ := List.mem_map.mp hlabel
  exact ⟨p, rfl⟩

theorem restored_iff_globalPeers :
    ∃ x, run (step firstFailure) (start 0) (globalPeers.map failureFrom) = some x ∧
      GoMap.len x.manager.banned = 2 ∧
      Restored x.manager (load 500 (save x.manager (.listed ..) 1) 5) 5 := by
  obtain ⟨x, hrun, hlen, hall⟩ : ∃ x, run (step firstFailure) (start 0)
      (globalPeers.map failureFrom) = some x ∧ GoMap.len x.manager.banned = 2 ∧
      ((GoMap.pairs x.manager.banned).all fun p => !p.1.toList.contains '%' &&
        truncate (jsonText p.2.host) 253 == truncate p.2.host 253 &&
        truncate (jsonText p.2.reason) 300 == truncate p.2.reason 300) = true := by
    have hvalue : ((run (step firstFailure) (start 0) (globalPeers.map failureFrom)).map fun x =>
        (GoMap.len x.manager.banned, (GoMap.pairs x.manager.banned).all fun p =>
          !p.1.toList.contains '%' && truncate (jsonText p.2.host) 253 == truncate p.2.host 253 &&
          truncate (jsonText p.2.reason) 300 == truncate p.2.reason 300)) = some (2, true) := by
      decide +kernel
    obtain ⟨x, hrun, hpair⟩ := Option.map_eq_some_iff.mp hvalue
    exact ⟨x, hrun, congrArg Prod.fst hpair, congrArg Prod.snd hpair⟩
  refine ⟨x, hrun, hlen, ?_⟩
  apply (restored_iff firstFailure 0 _ x hrun (fromListener_failures globalPeers) (.listed ..) 500
    (by decide) 1 5 (by decide)).mpr
  intro key ban hban _
  have hentry := List.all_eq_true.mp hall _ (GoMap.mem_pairs.mpr hban)
  simpa [and_assoc] using hentry

/-- The ban of a client on the link does not come back. -/
theorem zone_is_forgotten :
    ¬ ∀ (s : Settings) (clock : Int) (labels : List Label) (x : Traced),
      run (step s) (start clock) labels = some x → (∀ label ∈ labels, FromListener label) →
      ∀ (range : Range String BanEntry) (size : Nat), size ≤ maxBanFile →
        ∀ saved t : Int, saved ≤ t →
        Restored x.manager (load size (save x.manager range saved) t) t := by
  intro h
  obtain ⟨x, hrun, htill, hlost⟩ : ∃ x, run (step firstFailure) (start 0)
      ([linkLocal].map failureFrom) = some x ∧
      (x.manager.banned.lookup "fe80::1%eth0").map BanEntry.till = some 3600000000000 ∧
      (load 200 (save x.manager (.listed ..) 1) 5).lookup "fe80::1%eth0" = none := by
    have hvalue : ((run (step firstFailure) (start 0) ([linkLocal].map failureFrom)).map fun x =>
        ((x.manager.banned.lookup "fe80::1%eth0").map BanEntry.till,
          (load 200 (save x.manager (.listed ..) 1) 5).lookup "fe80::1%eth0")) =
        some (some 3600000000000, none) := by
      decide +kernel
    obtain ⟨x, hrun, hpair⟩ := Option.map_eq_some_iff.mp hvalue
    exact ⟨x, hrun, congrArg Prod.fst hpair, congrArg Prod.snd hpair⟩
  have hback := h firstFailure 0 _ x hrun (fromListener_failures [linkLocal]) (.listed ..) 200
    (by decide) 1 5 (by decide) "fe80::1%eth0"
  obtain ⟨ban, hban, hover⟩ := Option.map_eq_some_iff.mp htill
  rw [hlost, hban, Option.filter_some, hover] at hback
  cases hback

end Examples

end Quicgate.SavedBans
