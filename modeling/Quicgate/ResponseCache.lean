import Mathlib.Algebra.Ring.Nat
import Quicgate.GoMaps
import Quicgate.Recency

/-!
# The response cache of a host

`respCache` with `get`, `put` and `remove` (`internal/engine/cache.go`): a map and a list of
the same entries, bounded by a number of entries and by a budget of bytes.

An element of the list is known by the `elem` of its entry, as `remove` and `get` find it.
`put` is given a new entry each time, so an element is made for it; the clock that `get`
reads is its argument.

`cache_within_budget` certifies the two structures and the two bounds after any calls, and the
eviction of the least recently used.  What is stored, and for whom, is the subject of
`CacheControl`, `AcceptEncoding` and `CacheRecorder`.
-/

namespace Quicgate.ResponseCache

open Quicgate.GoMaps Quicgate.Recency

abbrev Bytes := List UInt8

abbrev Header := List (Bytes × List Bytes)

/-! ### The cache

`put` is taken apart into its statements: the entry with its key and size, the removal of an
older entry of the key, the loop that evicts, and the entry's way into map and list. -/

structure CacheEntry where
  key : Bytes
  status : Nat
  header : Header
  body : Bytes
  expires : Int
  size : Nat
  elem : Nat
deriving DecidableEq, Repr

def cacheEntryOverhead : Nat := 256

def CacheEntry.entrySize (e : CacheEntry) : Nat :=
  e.header.foldl
    (fun n field => field.2.foldl (fun n v => n + (v.length + 4)) (n + field.1.length))
    (cacheEntryOverhead + e.key.length + e.body.length)

structure RespCache where
  m : GoMap Bytes CacheEntry
  lru : List CacheEntry -- most recently used at the front
  max : Nat
  maxBytes : Nat
  bytes : Int
  nextElem : Nat -- the next element of the list to be made

/-- The budget is `cacheMaxBytesPerHost`. -/
def newRespCache (max : Int) (maxBytes : Nat) : RespCache :=
  { m := ∅, lru := [], max := if max ≤ 0 then 512 else max.toNat, maxBytes, bytes := 0
    nextElem := 0 }

def RespCache.remove (c : RespCache) (e : CacheEntry) : RespCache :=
  { c with
    m := c.m.erase e.key
    lru := c.lru.eraseP fun a => a.elem == e.elem
    bytes := c.bytes - e.size }

def moveToFront (lru : List CacheEntry) (elem : Nat) : List CacheEntry :=
  match lru.find? fun a => a.elem == elem with
  | some a => a :: lru.eraseP fun a => a.elem == elem
  | none => lru

/-- `get`: the entry found, and the cache after it. -/
def RespCache.get (c : RespCache) (now : Int) (key : Bytes) : RespCache × Option CacheEntry :=
  match c.m.lookup key with
  | none => (c, none)
  | some e =>
      if e.expires < now then (c.remove e, none)
      else ({ c with lru := moveToFront c.lru e.elem }, some e)

/-- What keeps the loop of `put` going while there is an entry to evict. -/
def RespCache.full (c : RespCache) (size : Nat) : Bool :=
  decide (c.max ≤ c.m.len) || decide (c.bytes + size > c.maxBytes)

theorem length_remove_lt {c : RespCache} {e : CacheEntry} (hlast : c.lru.getLast? = some e) :
    (c.remove e).lru.length < c.lru.length := by
  have hmem : e ∈ c.lru := List.mem_of_getLast? hlast
  have hlen : (c.remove e).lru.length = c.lru.length - 1 :=
    List.length_eraseP_of_mem hmem (by simp)
  have hpos := List.length_pos_of_mem hmem
  omega

def RespCache.evict (c : RespCache) (size : Nat) : RespCache :=
  if c.full size then
    match _hlast : c.lru.getLast? with
    | some e => (c.remove e).evict size
    | none => c
  else c
termination_by c.lru.length
decreasing_by exact length_remove_lt _hlast

/-- `put`, the removal of the entry stored under the key before. -/
def RespCache.forget (c : RespCache) (key : Bytes) : RespCache :=
  match c.m.lookup key with
  | some old => c.remove old
  | none => c

/-- `put`, the last three statements. -/
def RespCache.push (c : RespCache) (e : CacheEntry) : RespCache :=
  let e := { e with elem := c.nextElem }
  { c with
    m := c.m.insert e.key e
    lru := e :: c.lru
    bytes := c.bytes + e.size
    nextElem := c.nextElem + 1 }

/-- `put`, the entry with its key and its size. -/
def CacheEntry.under (e : CacheEntry) (key : Bytes) : CacheEntry :=
  let e := { e with key }
  { e with size := e.entrySize }

def RespCache.put (c : RespCache) (key : Bytes) (e : CacheEntry) : RespCache :=
  let e := e.under key
  if e.size > c.maxBytes then c else ((c.forget key).evict e.size).push e

/-! ### Runs

A run keeps beside the cache the keys in the order of their uses. -/

inductive Op where
  | get (now : Int) (key : Bytes)
  | put (key : Bytes) (e : CacheEntry)

/-- A cache, and its keys in the order they were stored or hit, the latest first. -/
structure Traced where
  cache : RespCache
  uses : List Bytes

/-- A call, noted where it is a hit or stores its entry. -/
def Traced.step (t : Traced) : Op → Traced
  | .get now key =>
      match t.cache.get now key with
      | (cache, some _) => ⟨cache, key :: t.uses⟩
      | (cache, none) => ⟨cache, t.uses⟩
  | .put key e =>
      ⟨t.cache.put key e, if (e.under key).size > t.cache.maxBytes then t.uses else key :: t.uses⟩

def Traced.run (max : Int) (maxBytes : Nat) (ops : List Op) : Traced :=
  ops.foldl Traced.step ⟨newRespCache max maxBytes, []⟩

/-! ### What the cache holds

`Linked` is the invariant that ties map, list and total together; each operation keeps it. -/

/-- The map and the list hold the same entries, each once and in order of last use, and the
total is theirs. -/
structure Linked (c : RespCache) (uses : List Bytes) : Prop where
  same : ∀ key e, c.m.lookup key = some e ↔ e ∈ c.lru ∧ e.key = key
  elems : (c.lru.map CacheEntry.elem).Nodup
  fresh : ∀ e ∈ c.lru, e.elem < c.nextElem
  order : InOrder uses (c.lru.map CacheEntry.key)
  sized : ∀ e ∈ c.lru, e.size = e.entrySize
  bytes : c.bytes = ((c.lru.map CacheEntry.size).sum : Nat)

section Linked

variable {c : RespCache} {uses : List Bytes} {e : CacheEntry} {key : Bytes}

theorem Linked.nodup (h : Linked c uses) : c.lru.Nodup := List.Nodup.of_map _ h.elems

/-- An entry of the list, and what is left when its element is taken out. -/
theorem Linked.split (h : Linked c uses) (he : e ∈ c.lru) :
    ∃ front back, c.lru = front ++ e :: back ∧
      (c.lru.eraseP fun a => a.elem == e.elem) = front ++ back := by
  obtain ⟨front, back, hlru⟩ := List.append_of_mem he
  refine ⟨front, back, hlru, ?_⟩
  have helems := h.elems
  rw [hlru, List.map_append, List.map_cons] at helems
  have hfront : ∀ a ∈ front, ¬ (a.elem == e.elem) = true := by
    intro a ha heq
    have hdisj := (List.nodup_append.mp helems).2.2 a.elem (List.mem_map_of_mem ha) e.elem
      List.mem_cons_self
    exact hdisj (beq_iff_eq.mp heq)
  rw [hlru, List.eraseP_append_right _ hfront, List.eraseP_cons_of_pos (by simp)]

/-- The entries of the map are counted by the list. -/
theorem Linked.len_eq (h : Linked c uses) : c.m.len = c.lru.length := by
  have hpairs : (GoMap.pairs c.m).Perm (c.lru.map fun e => (e.key, e)) := by
    have hleft : (GoMap.pairs c.m).Nodup := List.Nodup.of_map _ (GoMap.nodup_keys_pairs c.m)
    have hright : (c.lru.map fun e => (e.key, e)).Nodup := by
      apply h.nodup.map
      intro a b heq
      exact (Prod.mk.inj heq).2
    apply (List.perm_ext_iff_of_nodup hleft hright).mpr
    rintro ⟨key, e⟩
    rw [GoMap.mem_pairs, h.same]
    constructor
    · rintro ⟨he, rfl⟩
      exact List.mem_map_of_mem he
    · intro hmem
      obtain ⟨a, ha, heq⟩ := List.mem_map.mp hmem
      obtain ⟨rfl, rfl⟩ := Prod.mk.inj heq
      exact ⟨ha, rfl⟩
  have hlen := hpairs.length_eq
  rwa [List.length_map] at hlen

/-- Two entries of the list have two keys. -/
theorem Linked.key_inj (h : Linked c uses) {a : CacheEntry} (ha : a ∈ c.lru) (he : e ∈ c.lru)
    (hkey : a.key = e.key) : a = e := by
  have hlook := (h.same a.key a).mpr ⟨ha, rfl⟩
  have hlook' := (h.same a.key e).mpr ⟨he, hkey.symm⟩
  exact Option.some.inj (hlook.symm.trans hlook')

/-- Taking a stored entry out keeps map, list and total together. -/
theorem Linked.remove (h : Linked c uses) (he : e ∈ c.lru) : Linked (c.remove e) uses := by
  obtain ⟨front, back, hlru, herase⟩ := h.split he
  have hrest : (c.remove e).lru = front ++ back := herase
  have hsub : (front ++ back).Sublist c.lru := by
    rw [hlru]
    exact (List.Sublist.refl front).append (List.sublist_cons_self e back)
  have hmem : ∀ a, a ∈ front ++ back ↔ a ∈ c.lru ∧ a ≠ e := by
    have hnodup := h.nodup
    rw [hlru] at hnodup
    have hout : e ∉ front ++ back := (List.nodup_middle.mp hnodup).notMem
    intro a
    rw [hlru]
    constructor
    · intro ha
      exact ⟨by simp at ha ⊢; tauto, fun heq => hout (heq ▸ ha)⟩
    · rintro ⟨ha, hne⟩
      simp at ha ⊢
      tauto
  constructor
  · intro key a
    rw [hrest, hmem]
    by_cases hkey : key = e.key
    · subst hkey
      have hnone : (c.remove e).m.lookup e.key = none := AList.lookup_erase e.key c.m
      rw [hnone]
      constructor
      · intro hnot
        cases hnot
      · rintro ⟨⟨ha, hne⟩, hkey⟩
        exact absurd (h.key_inj ha he hkey) hne
    · have hlook : (c.remove e).m.lookup key = c.m.lookup key := AList.lookup_erase_ne hkey
      rw [hlook, h.same]
      constructor
      · rintro ⟨ha, rfl⟩
        exact ⟨⟨ha, fun heq => hkey (by rw [heq])⟩, rfl⟩
      · rintro ⟨⟨ha, -⟩, hak⟩
        exact ⟨ha, hak⟩
  · rw [hrest]
    exact h.elems.sublist (hsub.map _)
  · intro a ha
    rw [hrest] at ha
    exact h.fresh a (hsub.subset ha)
  · rw [hrest]
    exact h.order.sublist (hsub.map _)
  · intro a ha
    rw [hrest] at ha
    exact h.sized a (hsub.subset ha)
  · have hbytes : (c.remove e).bytes = c.bytes - e.size := rfl
    rw [hbytes, h.bytes, hrest, hlru]
    simp only [List.map_append, List.map_cons, List.sum_append, List.sum_cons]
    omega

/-- A hit moves its entry to the front. -/
theorem Linked.hit (h : Linked c uses) (he : e ∈ c.lru) :
    Linked { c with lru := moveToFront c.lru e.elem } (e.key :: uses) := by
  obtain ⟨front, back, hlru, herase⟩ := h.split he
  have hfind : (c.lru.find? fun a => a.elem == e.elem) = some e := by
    have hdrop := congrArg List.length herase
    cases hsome : c.lru.find? fun a => a.elem == e.elem with
    | none => exact absurd (List.find?_eq_none.mp hsome e he) (by simp)
    | some a =>
        have ha := List.mem_of_find?_eq_some hsome
        have helem : a.elem = e.elem := by simpa using List.find?_some hsome
        rw [List.inj_on_of_nodup_map h.elems ha he helem]
  have hmoved : moveToFront c.lru e.elem = e :: (front ++ back) := by
    unfold moveToFront
    rw [hfind]
    exact congrArg (e :: ·) herase
  have hperm : (e :: (front ++ back)).Perm c.lru := by
    rw [hlru]
    exact List.perm_middle.symm
  have hout : e.key ∉ (front ++ back).map CacheEntry.key := by
    have hkeys := (hperm.map CacheEntry.key).nodup_iff.mpr h.order.nodup
    exact (List.nodup_cons.mp hkeys).1
  have hsub : (front ++ back).Sublist c.lru := by
    rw [hlru]
    exact (List.Sublist.refl front).append (List.sublist_cons_self e back)
  constructor
  · intro key a
    rw [h.same, hmoved, hperm.mem_iff]
  · rw [hmoved]
    exact (hperm.map CacheEntry.elem).nodup_iff.mpr h.elems
  · intro a ha
    rw [hmoved, hperm.mem_iff] at ha
    exact h.fresh a ha
  · rw [hmoved]
    exact (h.order.sublist (hsub.map _)).use hout
  · intro a ha
    rw [hmoved, hperm.mem_iff] at ha
    exact h.sized a ha
  · rw [hmoved, (hperm.map CacheEntry.size).sum_nat]
    exact h.bytes

/-- A new entry goes to the front, under a key the cache does not hold. -/
theorem Linked.push (h : Linked c uses) (hkey : c.m.lookup e.key = none)
    (hsize : e.size = e.entrySize) : Linked (c.push e) (e.key :: uses) := by
  have hout : ∀ a ∈ c.lru, a.key ≠ e.key := by
    intro a ha heq
    have hlook := (h.same e.key a).mpr ⟨ha, heq⟩
    rw [hkey] at hlook
    cases hlook
  constructor
  · intro key a
    by_cases hk : key = e.key
    · subst hk
      have hlook : (c.push e).m.lookup e.key = some { e with elem := c.nextElem } :=
        AList.lookup_insert c.m
      rw [hlook]
      constructor
      · rintro ⟨⟩
        exact ⟨List.mem_cons_self, rfl⟩
      · rintro ⟨ha, hak⟩
        rcases List.mem_cons.mp ha with rfl | ha
        · rfl
        · exact absurd hak (hout a ha)
    · have hlook : (c.push e).m.lookup key = c.m.lookup key := AList.lookup_insert_ne hk
      rw [hlook, h.same]
      constructor
      · rintro ⟨ha, hak⟩
        exact ⟨List.mem_cons_of_mem _ ha, hak⟩
      · rintro ⟨ha, hak⟩
        rcases List.mem_cons.mp ha with rfl | ha
        · exact absurd hak.symm hk
        · exact ⟨ha, hak⟩
  · apply List.nodup_cons.mpr
    constructor
    · intro hmem
      obtain ⟨a, ha, helem⟩ := List.mem_map.mp hmem
      exact Nat.ne_of_lt (h.fresh a ha) helem
    · exact h.elems
  · intro a ha
    rcases List.mem_cons.mp ha with rfl | ha
    · exact Nat.lt_succ_self _
    · exact Nat.lt_succ_of_lt (h.fresh a ha)
  · apply h.order.use
    intro hmem
    obtain ⟨a, ha, hak⟩ := List.mem_map.mp hmem
    exact hout a ha hak
  · intro a ha
    rcases List.mem_cons.mp ha with rfl | ha
    · exact hsize
    · exact h.sized a ha
  · have hbytes : (c.push e).bytes = c.bytes + e.size := rfl
    rw [hbytes, h.bytes]
    simp only [RespCache.push, List.map_cons, List.sum_cons]
    omega

end Linked

/-! ### Eviction

The loop stops at the first moment the new entry fits, and evicts from the end of the list. -/

/-- `e` is the entry of the list that was used the longest time ago. -/
def LeastRecent (uses : List Bytes) (c : RespCache) (e : CacheEntry) : Prop :=
  e ∈ c.lru ∧ ∀ a ∈ c.lru, a ≠ e → age uses a.key < age uses e.key

/-- From one cache to another by evicting, while an entry of this size does not fit, the
least recently used entry, and no further. -/
inductive Evicts (uses : List Bytes) (size : Nat) : RespCache → RespCache → Prop
  | fits {c : RespCache} (hfits : c.full size = false) : Evicts uses size c c
  | evict {c c' : RespCache} {e : CacheEntry} (hfull : c.full size = true)
      (hleast : LeastRecent uses c e) (hrest : Evicts uses size (c.remove e) c') :
      Evicts uses size c c'

section Evict

variable {c c' : RespCache} {uses : List Bytes} {e : CacheEntry} {size : Nat}

theorem Linked.leastRecent (h : Linked c uses) (hlast : c.lru.getLast? = some e) :
    LeastRecent uses c e := by
  obtain ⟨front, hlru⟩ := List.getLast?_eq_some_iff.mp hlast
  have horder := h.order
  rw [hlru, List.map_append] at horder
  constructor
  · exact List.mem_of_getLast? hlast
  · intro a ha hne
    rw [hlru] at ha
    rcases List.mem_append.mp ha with ha | ha
    · exact horder.age_lt_last (List.mem_map_of_mem ha)
    · exact absurd (List.mem_singleton.mp ha) hne

/-- An empty cache takes every entry within the budget. -/
theorem Linked.fits_of_empty (h : Linked c uses) (hmax : 0 < c.max) (hsize : size ≤ c.maxBytes)
    (hempty : c.lru = []) : c.full size = false := by
  have hlen := h.len_eq
  have hbytes := h.bytes
  rw [hempty] at hlen hbytes
  simp only [List.map_nil, List.sum_nil, List.length_nil] at hlen hbytes
  simp only [RespCache.full, Bool.or_eq_false_iff, decide_eq_false_iff_not]
  omega

/-- The loop of `put` evicts the least recently used entries and stops when the new one
fits. -/
theorem Linked.evicts (h : Linked c uses) (hmax : 0 < c.max) (hsize : size ≤ c.maxBytes) :
    Evicts uses size c (c.evict size) := by
  induction hn : c.lru.length using Nat.strong_induction_on generalizing c with
  | _ n ih =>
      rw [RespCache.evict]
      by_cases hfull : c.full size = true
      · rw [if_pos hfull]
        split
        · next e hlast =>
            have hleast := h.leastRecent hlast
            apply Evicts.evict hfull hleast
            apply ih _ _ (h.remove hleast.1) hmax hsize rfl
            rw [← hn]
            exact length_remove_lt hlast
        · next hnone =>
            have hfits := h.fits_of_empty hmax hsize (List.getLast?_eq_none_iff.mp hnone)
            exact absurd hfull (by simp [hfits])
      · rw [if_neg hfull]
        exact Evicts.fits (by simpa using hfull)

theorem Evicts.linked (hev : Evicts uses size c c') (h : Linked c uses) : Linked c' uses := by
  induction hev with
  | fits => exact h
  | evict _ hleast _ ih => exact ih (h.remove hleast.1)

theorem Evicts.not_full (hev : Evicts uses size c c') : c'.full size = false := by
  induction hev with
  | fits hfits => exact hfits
  | evict _ _ _ ih => exact ih

/-- Eviction leaves the limits, and what the map does not hold it never does. -/
theorem Evicts.limits (hev : Evicts uses size c c') :
    c'.max = c.max ∧ c'.maxBytes = c.maxBytes := by
  induction hev with
  | fits => exact ⟨rfl, rfl⟩
  | evict _ _ _ ih => exact ih

theorem Evicts.lookup_none {key : Bytes} (hev : Evicts uses size c c')
    (hnone : c.m.lookup key = none) : c'.m.lookup key = none := by
  induction hev with
  | fits => exact hnone
  | @evict c _ e _ _ _ ih =>
      apply ih
      by_cases hkey : key = e.key
      · rw [hkey]
        exact AList.lookup_erase e.key c.m
      · exact (AList.lookup_erase_ne hkey).trans hnone

end Evict

/-! ### Every run

`Represents` adds the order of the uses to `Linked`. -/

/-- What holds of a cache and the uses of its keys after any sequence of calls. -/
structure Represents (max maxBytes : Nat) (t : Traced) : Prop where
  linked : Linked t.cache t.uses
  limit : t.cache.max = max
  budget : t.cache.maxBytes = maxBytes
  entries : t.cache.m.len ≤ max
  bytes : t.cache.bytes ≤ maxBytes

section Represents

variable {max maxBytes : Nat} {t : Traced} {e : CacheEntry} {key : Bytes}

theorem Linked.forget {c : RespCache} {uses : List Bytes} (h : Linked c uses) (key : Bytes) :
    Linked (c.forget key) uses := by
  unfold RespCache.forget
  cases hlook : c.m.lookup key with
  | none => exact h
  | some old => exact h.remove ((h.same key old).mp hlook).1

theorem Linked.lookup_forget {c : RespCache} {uses : List Bytes} (h : Linked c uses) (key : Bytes) :
    (c.forget key).m.lookup key = none := by
  unfold RespCache.forget
  cases hlook : c.m.lookup key with
  | none => exact hlook
  | some old =>
      obtain ⟨-, rfl⟩ := (h.same key old).mp hlook
      exact AList.lookup_erase old.key c.m

theorem limits_forget (c : RespCache) (key : Bytes) :
    (c.forget key).max = c.max ∧ (c.forget key).maxBytes = c.maxBytes := by
  unfold RespCache.forget
  split <;> exact ⟨rfl, rfl⟩

/-- An entry within the budget is pushed after the evictions it needs. -/
theorem Linked.put {c : RespCache} {uses : List Bytes} (h : Linked c uses) (hmax : 0 < c.max)
    (hsize : (e.under key).size ≤ c.maxBytes) :
    ∃ c', Evicts uses (e.under key).size (c.forget key) c' ∧
      c.put key e = c'.push (e.under key) ∧ Linked (c.put key e) (key :: uses) := by
  obtain ⟨hlimit, hbudget⟩ := limits_forget c key
  have hev := (h.forget key).evicts (hlimit ▸ hmax) (hbudget ▸ hsize)
  have hput : c.put key e = ((c.forget key).evict (e.under key).size).push (e.under key) := by
    unfold RespCache.put
    exact if_neg (Nat.not_lt.mpr hsize)
  refine ⟨_, hev, hput, ?_⟩
  rw [hput]
  exact (hev.linked (h.forget key)).push (hev.lookup_none (h.lookup_forget key)) rfl

theorem Represents.get (h : Represents max maxBytes t) (now : Int) (key : Bytes) :
    Represents max maxBytes (t.step (.get now key)) := by
  cases hlook : t.cache.m.lookup key with
  | none =>
      have hstep : t.step (.get now key) = t := by simp [Traced.step, RespCache.get, hlook]
      rw [hstep]
      exact h
  | some e =>
      obtain ⟨he, rfl⟩ := (h.linked.same key e).mp hlook
      by_cases hexp : e.expires < now
      · have hstep : t.step (.get now e.key) = ⟨t.cache.remove e, t.uses⟩ := by
          simp [Traced.step, RespCache.get, hlook, hexp]
        rw [hstep]
        have hlinked := h.linked.remove he
        refine ⟨hlinked, h.limit, h.budget, ?_, ?_⟩
        · have hlen : (t.cache.remove e).lru.length ≤ t.cache.lru.length := List.length_eraseP_le
          have hentries := h.entries
          rw [h.linked.len_eq] at hentries
          rw [hlinked.len_eq]
          exact Nat.le_trans hlen hentries
        · have hbytes : (t.cache.remove e).bytes = t.cache.bytes - e.size := rfl
          have hle := h.bytes
          rw [hbytes]
          omega
      · have hstep : t.step (.get now e.key) =
            ⟨{ t.cache with lru := moveToFront t.cache.lru e.elem }, e.key :: t.uses⟩ := by
          simp [Traced.step, RespCache.get, hlook, hexp]
        rw [hstep]
        exact ⟨h.linked.hit he, h.limit, h.budget, h.entries, h.bytes⟩

theorem Represents.put (h : Represents max maxBytes t) (hmax : 0 < max) (key : Bytes)
    (e : CacheEntry) : Represents max maxBytes (t.step (.put key e)) := by
  by_cases hbig : (e.under key).size > t.cache.maxBytes
  · have hput : t.cache.put key e = t.cache := if_pos hbig
    have hstep : t.step (.put key e) = t := by simp [Traced.step, hput, hbig]
    rw [hstep]
    exact h
  · have hstep : t.step (.put key e) = ⟨t.cache.put key e, key :: t.uses⟩ := by
      simp [Traced.step, hbig]
    rw [hstep]
    obtain ⟨c', hev, hput, hlinked⟩ := h.linked.put (h.limit.symm ▸ hmax) (Nat.not_lt.mp hbig)
    obtain ⟨hlimit, hbudget⟩ := limits_forget t.cache key
    have hfits := hev.not_full
    simp only [RespCache.full, Bool.or_eq_false_iff, decide_eq_false_iff_not,
      hev.limits.1, hev.limits.2, hlimit, hbudget, h.limit, h.budget] at hfits
    constructor
    · exact hlinked
    · rw [hput]
      exact (hev.limits.1.trans hlimit).trans h.limit
    · rw [hput]
      exact (hev.limits.2.trans hbudget).trans h.budget
    · have hlru : (t.cache.put key e).lru.length = c'.lru.length + 1 := by rw [hput]; rfl
      have hlen := (hev.linked (h.linked.forget key)).len_eq
      rw [hlinked.len_eq, hlru]
      omega
    · have hbytes : (t.cache.put key e).bytes = c'.bytes + (e.under key).size := by rw [hput]; rfl
      rw [hbytes]
      omega

theorem represents_new (max : Int) (maxBytes : Nat) :
    Represents (newRespCache max maxBytes).max maxBytes ⟨newRespCache max maxBytes, []⟩ := by
  refine ⟨⟨?_, ?_, ?_, ?_, ?_, ?_⟩, rfl, rfl, ?_, ?_⟩
  · intro key e
    simp [newRespCache]
  · simp [newRespCache]
  · simp [newRespCache]
  · exact InOrder.nil
  · simp [newRespCache]
  · rfl
  · exact Nat.zero_le _
  · simp [newRespCache]

theorem newRespCache_max_pos (max : Int) (maxBytes : Nat) :
    0 < (newRespCache max maxBytes).max := by
  simp only [newRespCache]
  split_ifs <;> omega

/-- What one call preserves, a sequence of calls does. -/
theorem Represents.run (h : Represents max maxBytes t) (hmax : 0 < max) (ops : List Op) :
    Represents max maxBytes (ops.foldl Traced.step t) := by
  induction ops generalizing t with
  | nil => exact h
  | cons op ops ih =>
      apply ih
      cases op with
      | get now key => exact h.get now key
      | put key e => exact h.put hmax key e

end Represents

/-- **The cache and its budget.** After any calls on a new cache, the map and the list hold
the same entries, each once; the total is the sum of their sizes and within the budget; there
are no more entries than allowed; and the list is in the order in which its keys were last
stored or hit.  An entry larger than the budget changes nothing.  Any other is put in front
after the entry of its key has gone and the least recently used entries, one after the other,
have been evicted until it fits. -/
theorem cache_within_budget (max : Int) (maxBytes : Nat) (ops : List Op) :
    let t := Traced.run max maxBytes ops
    ((∀ key e, t.cache.m.lookup key = some e ↔ e ∈ t.cache.lru ∧ e.key = key) ∧
      (t.cache.lru.map CacheEntry.key).Nodup ∧ t.cache.m.len = t.cache.lru.length) ∧
    (t.cache.bytes = ((t.cache.lru.map CacheEntry.entrySize).sum : Nat) ∧
      t.cache.bytes ≤ maxBytes) ∧
    (t.cache.m.len : Int) ≤ (if max ≤ 0 then 512 else max) ∧
    InOrder t.uses (t.cache.lru.map CacheEntry.key) ∧
    ∀ key e,
      ((e.under key).size > maxBytes → t.cache.put key e = t.cache) ∧
      ((e.under key).size ≤ maxBytes →
        ∃ c, Evicts t.uses (e.under key).size (t.cache.forget key) c ∧
          t.cache.put key e = c.push (e.under key)) := by
  intro t
  have hmax := newRespCache_max_pos max maxBytes
  have h : Represents _ maxBytes t := (represents_new max maxBytes).run hmax ops
  refine ⟨⟨h.linked.same, h.linked.order.nodup, h.linked.len_eq⟩, ⟨?_, h.bytes⟩, ?_,
    h.linked.order, ?_⟩
  · have hsizes : t.cache.lru.map CacheEntry.size = t.cache.lru.map CacheEntry.entrySize :=
      List.map_congr_left h.linked.sized
    rw [← hsizes]
    exact h.linked.bytes
  · have hentries : t.cache.m.len ≤ (newRespCache max maxBytes).max := h.entries
    simp only [newRespCache] at hentries
    split_ifs at hentries ⊢ <;> omega
  · intro key e
    constructor
    · intro hbig
      exact if_pos (by rw [h.budget]; exact hbig)
    · intro hsize
      rw [← h.limit] at hmax
      obtain ⟨c, hev, hput, -⟩ := h.linked.put hmax (by rw [h.budget]; exact hsize)
      exact ⟨c, hev, hput⟩

end Quicgate.ResponseCache
