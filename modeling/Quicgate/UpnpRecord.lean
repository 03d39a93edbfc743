import Mathlib.Data.List.Infix
import Quicgate.UpnpMappings

/-!
# The record of the port mappings

`UPnPManager.Sync` and `Close` on a router that may refuse any call.  `mapped` is the record
from which a later call knows what to take off the router, and both calls take a key out of
it whether or not the router did what it was asked.

Beside the record a run keeps what the router has done: the places that were added, and
those of them that have not been deleted since.  `remembered_iff_kept` says along every run
that the record has them all exactly as long as the router refuses nothing that is on record;
`refused_renewal_is_forgotten` is a port that stays open.
-/

namespace Quicgate.UpnpRecord

open Quicgate.GoMaps Quicgate.TransitionSystem Quicgate.UpnpMappings

/-! ### The calls

`unmap` and `map` are the loops of the two calls at one key. -/

/-- A protocol and an external port, as the router is asked for them. -/
abbrev Place := String × Nat

/-- What the router does during one `Sync` or `Close`; an error is its text. -/
structure Answers where
  gateway : Bool -- a gateway is found where none is known
  delete : Place → Option (List Char)
  add : Place → Bool → Option (List Char) -- with a lease, or without its limit

/-- Whether a mapping is added: a router that only has permanent leases is asked again. -/
def Answers.adds (ans : Answers) (place : Place) : Bool :=
  match ans.add place false with
  | none => true
  | some err => if "725".toList <:+: err then (ans.add place true).isNone else false

def Answers.deletes (ans : Answers) (place : Place) : Bool := (ans.delete place).isNone

/-- The manager, and what the router has done. -/
structure Tracked where
  client : Bool
  mapped : GoMap String Bool
  ever : Place → Bool -- added
  live : Place → Bool -- added, and not deleted since

def start : Tracked := ⟨false, ∅, fun _ => false, fun _ => false⟩

def Tracked.unmap (ans : Answers) (t : Tracked) (key : String) : Tracked :=
  match parseMappingKey key with
  | none => { t with mapped := t.mapped.erase key }
  | some place =>
      { t with
        mapped := t.mapped.erase key
        live := if ans.deletes place then Function.update t.live place false else t.live }

def Tracked.map (ans : Answers) (t : Tracked) (entry : String × PortMapping) : Tracked :=
  let place := routerPlace entry.2.place
  if ans.adds place then
    { t with
      mapped := t.mapped.insert entry.1 true
      ever := Function.update t.ever place true
      live := Function.update t.live place true }
  else { t with mapped := t.mapped.erase entry.1 }

/-- The keys on record that are no longer wanted. -/
def Tracked.unwanted (t : Tracked) (desired : List PortMapping) : List String :=
  (t.mapped.pairs.map Prod.fst).filter fun key => ((want desired).lookup key).isNone

def Tracked.sync (ans : Answers) (t : Tracked) (desired : List PortMapping) : Tracked :=
  if (t.client || ans.gateway) = false then t
  else
    (want desired).pairs.foldl (Tracked.map ans)
      ((t.unwanted desired).foldl (Tracked.unmap ans) { t with client := true })

def Tracked.close (ans : Answers) (t : Tracked) : Tracked :=
  if t.client = false then t
  else (t.mapped.pairs.map Prod.fst).foldl (Tracked.unmap ans) t

def Tracked.syncDeletes (t : Tracked) (desired : List PortMapping) : List Place :=
  if t.client then (t.unwanted desired).filterMap parseMappingKey else []

def Tracked.closeDeletes (t : Tracked) : List Place :=
  if t.client then (t.mapped.pairs.map Prod.fst).filterMap parseMappingKey else []

inductive Label where
  | sync (desired : List PortMapping) (ans : Answers)
  | close (ans : Answers)

def step (t : Tracked) : Label → Option Tracked
  | .sync desired ans => some (t.sync ans desired)
  | .close ans => some (t.close ans)

/-- The record has every mapping that is on the router, so that it is deleted as soon as it
is not wanted, and nothing that was never added. -/
structure Remembered (t : Tracked) : Prop where
  recorded : ∀ place, t.live place = true →
    ∃ key, (t.mapped.lookup key).isSome = true ∧ parseMappingKey key = some place
  retried : ∀ place, t.live place = true → ∀ desired : List PortMapping,
    (∀ p ∈ desired, routerPlace p.place ≠ place) →
      place ∈ t.syncDeletes desired ∧ place ∈ t.closeDeletes
  added : ∀ key, (t.mapped.lookup key).isSome = true →
    ∃ place, parseMappingKey key = some place ∧ t.ever place = true

/-- The router refuses neither a deletion nor the renewal of a mapping on record. -/
def Kept (t : Tracked) : Label → Prop
  | .sync desired ans =>
      ∀ p, (t.mapped.lookup (keyText p)).isSome = true →
        if ∃ q ∈ desired, q.place = p then ans.adds (routerPlace p) = true
        else ans.deletes (routerPlace p) = true
  | .close ans =>
      ∀ p, (t.mapped.lookup (keyText p)).isSome = true → ans.deletes (routerPlace p) = true

/-! ### One place

A call does to a place what it does to its key, so a run can be followed place by place. -/

structure Slot where
  recorded : Bool
  live : Bool
  ever : Bool
deriving DecidableEq, Repr

def Tracked.slot (t : Tracked) (p : Proto × Port) : Slot :=
  ⟨(t.mapped.lookup (keyText p)).isSome, t.live (routerPlace p), t.ever (routerPlace p)⟩

def Slot.unmap (s : Slot) (deleted : Bool) : Slot := ⟨false, s.live && !deleted, s.ever⟩

def Slot.map (s : Slot) (added : Bool) : Slot := ⟨added, s.live || added, s.ever || added⟩

def Slot.call (s : Slot) (wanted added deleted : Bool) : Slot :=
  if wanted then s.map added else if s.recorded then s.unmap deleted else s

section Slot

variable {ans : Answers} {t : Tracked} {p : Proto × Port} {desired : List PortMapping}

theorem slot_unmap_self : (t.unmap ans (keyText p)).slot p =
    (t.slot p).unmap (ans.deletes (routerPlace p)) := by
  have hparse : parseMappingKey (keyText p) = some (routerPlace p) := parseMappingKey_keyText p
  simp only [Tracked.unmap, hparse, Tracked.slot, Slot.unmap, AList.lookup_erase]
  cases ans.deletes (routerPlace p) <;> simp

theorem slot_unmap_of_ne {q : Proto × Port} (h : q ≠ p) :
    (t.unmap ans (keyText q)).slot p = t.slot p := by
  have hparse : parseMappingKey (keyText q) = some (routerPlace q) := parseMappingKey_keyText q
  have hkey : keyText p ≠ keyText q := fun heq => h (keyText_injective heq).symm
  have hplace : routerPlace p ≠ routerPlace q := fun heq => h (routerPlace_injective heq).symm
  simp only [Tracked.unmap, hparse, Tracked.slot, AList.lookup_erase_ne hkey]
  split_ifs <;> simp [Function.update_of_ne hplace]

theorem slot_map_self {entry : String × PortMapping} (hkey : entry.1 = entry.2.key)
    (hplace : entry.2.place = p) :
    (t.map ans entry).slot p = (t.slot p).map (ans.adds (routerPlace p)) := by
  subst hplace
  have hkey' : entry.1 = keyText entry.2.place := hkey
  simp only [Tracked.map, Slot.map]
  cases ans.adds (routerPlace entry.2.place) <;> simp [Tracked.slot, hkey']

theorem slot_map_of_ne {entry : String × PortMapping} (hkey : entry.1 = entry.2.key)
    (hplace : entry.2.place ≠ p) : (t.map ans entry).slot p = t.slot p := by
  have hkey' : keyText p ≠ entry.1 := by
    rw [hkey]
    exact fun heq => hplace (keyText_injective heq).symm
  have hplace' : routerPlace p ≠ routerPlace entry.2.place :=
    fun heq => hplace (routerPlace_injective heq).symm
  simp only [Tracked.map]
  split_ifs
  · simp only [Tracked.slot, AList.lookup_insert_ne hkey', Function.update_of_ne hplace']
  · simp only [Tracked.slot, AList.lookup_erase_ne hkey']

def wants (desired : List PortMapping) (p : Proto × Port) : Bool :=
  desired.any fun q => decide (q.place = p)

theorem wants_eq (desired : List PortMapping) (p : Proto × Port) :
    wants desired p = ((want desired).lookup (keyText p)).isSome := by
  rw [lookup_want, Bool.eq_iff_iff, wants, List.any_eq_true]
  constructor
  · rintro ⟨q, hq, hplace⟩
    have hmem : q ∈ desired.filter fun q => decide (q.place = p) := List.mem_filter.mpr ⟨hq, hplace⟩
    rw [Option.isSome_iff_ne_none, ne_eq, List.getLast?_eq_none_iff]
    exact List.ne_nil_of_mem hmem
  · intro h
    obtain ⟨q, hq⟩ := Option.isSome_iff_exists.mp h
    obtain ⟨hin, hplace⟩ := List.mem_filter.mp (List.mem_of_getLast? hq)
    exact ⟨q, hin, hplace⟩

/-- A loop of deletions, seen from one place. -/
theorem slot_unmapAll {keys : List String} (hkeys : ∀ key ∈ keys, ∃ q, key = keyText q)
    (hnodup : keys.Nodup) : (keys.foldl (Tracked.unmap ans) t).slot p =
      if keyText p ∈ keys then (t.slot p).unmap (ans.deletes (routerPlace p)) else t.slot p := by
  have hother (t : Tracked) (key : String) (hkey : key ∈ keys) (hne : id key ≠ keyText p) :
      (t.unmap ans key).slot p = t.slot p := by
    obtain ⟨q, rfl⟩ := hkeys key hkey
    exact slot_unmap_of_ne fun heq => hne (by rw [heq]; rfl)
  split_ifs with hin
  · refine GoMap.foldl_seen_of_mem id (fun t => Tracked.slot t p)
      (fun _ s => s.unmap (ans.deletes (routerPlace p))) (by simpa using hnodup) ?_ hother hin rfl t
    rintro t key - rfl
    exact slot_unmap_self
  · refine GoMap.foldl_seen_of_ne id (fun t => Tracked.slot t p) hother ?_ t
    rintro key hkey rfl
    exact hin hkey

/-- The loop over what is wanted, seen from one place. -/
theorem slot_mapAll (desired : List PortMapping) :
    ((want desired).pairs.foldl (Tracked.map ans) t).slot p =
      if wants desired p = true then (t.slot p).map (ans.adds (routerPlace p)) else t.slot p := by
  have hkeys : ∀ e ∈ (want desired).pairs, e.1 = e.2.key :=
    fun e he => key_of_want (GoMap.mem_pairs.mp he)
  have hother (t : Tracked) (e : String × PortMapping) (he : e ∈ (want desired).pairs)
      (hne : e.1 ≠ keyText p) : (t.map ans e).slot p = t.slot p := by
    apply slot_map_of_ne (hkeys e he)
    rintro rfl
    exact hne (hkeys e he)
  rw [wants_eq]
  split_ifs with hwants
  · obtain ⟨q, hq⟩ := Option.isSome_iff_exists.mp hwants
    refine GoMap.foldl_seen_of_mem Prod.fst (fun t => Tracked.slot t p)
      (fun _ s => s.map (ans.adds (routerPlace p))) (GoMap.nodup_keys_pairs _) ?_ hother
      (GoMap.mem_pairs.mpr hq) rfl t
    intro t e he hkey
    apply slot_map_self (hkeys e he)
    exact keyText_injective ((hkeys e he).symm.trans hkey)
  · refine GoMap.foldl_seen_of_ne Prod.fst (fun t => Tracked.slot t p) hother ?_ t
    intro e he hkey
    apply hwants
    rw [← hkey, GoMap.mem_pairs.mp he]
    rfl

end Slot

/-! ### Both calls

`Inv` holds whatever the router answers, and the exact condition is added step by step. -/

structure Shaped (t : Tracked) : Prop where
  keys : ∀ key, (t.mapped.lookup key).isSome = true → ∃ p, key = keyText p
  places : ∀ place, t.live place = true → ∃ p, place = routerPlace p

/-- What holds whatever the router answers. -/
structure Inv (t : Tracked) : Prop extends Shaped t where
  known : ∀ p, (t.slot p).recorded = true → (t.slot p).live = true ∧ (t.slot p).ever = true
  client : ∀ place, t.live place = true → t.client = true

def Label.answers : Label → Answers
  | .sync _ ans | .close ans => ans

def Label.wanted : Label → Proto × Port → Bool
  | .sync desired _, p => wants desired p
  | .close _, _ => false

section Calls

variable {t t' : Tracked} {ans : Answers} {desired : List PortMapping} {label : Label}
  {p : Proto × Port}

theorem keys_erase (h : Shaped t) (key key' : String)
    (hrecorded : ((t.mapped.erase key).lookup key').isSome = true) : ∃ p, key' = keyText p := by
  by_cases heq : key' = key
  · subst heq
    simp at hrecorded
  · rw [AList.lookup_erase_ne heq] at hrecorded
    exact h.keys key' hrecorded

theorem Shaped.unmap (h : Shaped t) (key : String) : Shaped (t.unmap ans key) := by
  unfold Tracked.unmap
  cases parseMappingKey key with
  | none => exact ⟨keys_erase h key, h.places⟩
  | some place =>
      refine ⟨keys_erase h key, ?_⟩
      intro place' hlive
      apply h.places place'
      simp only at hlive
      split_ifs at hlive
      · by_cases heq : place' = place
        · subst heq
          simp at hlive
        · rwa [Function.update_of_ne heq] at hlive
      · exact hlive

theorem Shaped.map (h : Shaped t) {entry : String × PortMapping} (hkey : entry.1 = entry.2.key) :
    Shaped (t.map ans entry) := by
  simp only [Tracked.map]
  split_ifs
  · refine ⟨?_, ?_⟩
    · intro key hrecorded
      by_cases heq : key = entry.1
      · exact ⟨entry.2.place, heq.trans hkey⟩
      · rw [AList.lookup_insert_ne heq] at hrecorded
        exact h.keys key hrecorded
    · intro place hlive
      by_cases heq : place = routerPlace entry.2.place
      · exact ⟨entry.2.place, heq⟩
      · have hold : t.live place = true := by simpa [Function.update_of_ne heq] using hlive
        exact h.places place hold
  · exact ⟨keys_erase h entry.1, h.places⟩

theorem Shaped.unmapAll (h : Shaped t) (keys : List String) :
    Shaped (keys.foldl (Tracked.unmap ans) t) :=
  List.foldlRecOn keys _ h fun _ h key _ => h.unmap key

theorem Shaped.mapAll (h : Shaped t) (desired : List PortMapping) :
    Shaped ((want desired).pairs.foldl (Tracked.map ans) t) :=
  List.foldlRecOn _ _ h fun _ h _ he => h.map (key_of_want (GoMap.mem_pairs.mp he))

theorem client_unmapAll (keys : List String) :
    (keys.foldl (Tracked.unmap ans) t).client = t.client := by
  apply List.foldlRecOn (motive := fun t' : Tracked => t'.client = t.client) keys _ rfl
  intro t' h key _
  rw [← h]
  unfold Tracked.unmap
  cases parseMappingKey key <;> rfl

theorem client_mapAll (entries : List (String × PortMapping)) :
    (entries.foldl (Tracked.map ans) t).client = t.client := by
  apply List.foldlRecOn (motive := fun t' : Tracked => t'.client = t.client) entries _ rfl
  intro t' h entry _
  rw [← h]
  simp only [Tracked.map]
  split_ifs <;> rfl

theorem mem_recorded {key : String} :
    key ∈ t.mapped.pairs.map Prod.fst ↔ (t.mapped.lookup key).isSome = true := by
  rw [Option.isSome_iff_exists, List.mem_map]
  constructor
  · rintro ⟨entry, hentry, rfl⟩
    exact ⟨entry.2, GoMap.mem_pairs.mp hentry⟩
  · rintro ⟨value, hvalue⟩
    exact ⟨(key, value), GoMap.mem_pairs.mpr hvalue, rfl⟩

theorem mem_unwanted : keyText p ∈ t.unwanted desired ↔
    (t.slot p).recorded = true ∧ wants desired p = false := by
  rw [Tracked.unwanted, List.mem_filter, mem_recorded, wants_eq]
  cases (want desired).lookup (keyText p) <;> simp [Tracked.slot]

/-- What `Sync` does to a place, once the gateway is known. -/
theorem slot_sync (h : Shaped t) (hclient : (t.client || ans.gateway) = true) :
    (t.sync ans desired).slot p = (t.slot p).call (wants desired p) (ans.adds (routerPlace p))
      (ans.deletes (routerPlace p)) := by
  have hkeys : ∀ key ∈ t.unwanted desired, ∃ q, key = keyText q :=
    fun key hkey => h.keys key (mem_recorded.mp (List.mem_filter.mp hkey).1)
  have hnodup : (t.unwanted desired).Nodup := (GoMap.nodup_keys_pairs _).filter _
  have hslot : ({ t with client := true } : Tracked).slot p = t.slot p := rfl
  rw [Tracked.sync, if_neg (by simp [hclient]), slot_mapAll, slot_unmapAll hkeys hnodup, hslot,
    Slot.call]
  simp only [mem_unwanted]
  cases wants desired p <;> simp

theorem slot_close (h : Shaped t) (hclient : t.client = true) :
    (t.close ans).slot p = (t.slot p).call false false (ans.deletes (routerPlace p)) := by
  rw [Tracked.close, if_neg (by simp [hclient]),
    slot_unmapAll (fun key hkey => h.keys key (mem_recorded.mp hkey)) (GoMap.nodup_keys_pairs _)]
  simp only [mem_recorded]
  rfl

/-- What is on record was added and is still there. -/
def Slot.Known (s : Slot) : Prop := s.recorded = true → s.live = true ∧ s.ever = true

theorem Slot.Known.call {s : Slot} (h : s.Known) (wanted added deleted : Bool) :
    (s.call wanted added deleted).Known := by
  obtain ⟨recorded, live, ever⟩ := s
  revert recorded live ever wanted added deleted
  unfold Slot.Known Slot.call Slot.map Slot.unmap
  decide

/-- A place is remembered unless what is on record is refused. -/
theorem Slot.live_call_iff {s : Slot} (h : s.Known) (hlive : s.live = true → s.recorded = true)
    (wanted added deleted : Bool) :
    ((s.call wanted added deleted).live = true → (s.call wanted added deleted).recorded = true) ↔
      (s.recorded = true → if wanted = true then added = true else deleted = true) := by
  obtain ⟨recorded, live, ever⟩ := s
  revert recorded live ever wanted added deleted
  unfold Slot.Known Slot.call Slot.map Slot.unmap
  decide

theorem inv_start : Inv start where
  keys := nofun
  places := nofun
  known := nofun
  client := nofun

/-- A call that does not reach the router leaves everything as it is, and any other one is a
call on every place. -/
theorem step_cases (hshaped : Shaped t) (hstep : step t label = some t') :
    t' = t ∧ t.client = false ∨
      t'.client = true ∧ Shaped t' ∧ ∀ p, t'.slot p = (t.slot p).call (label.wanted p)
        (label.answers.adds (routerPlace p)) (label.answers.deletes (routerPlace p)) := by
  cases label with
  | sync desired ans =>
      obtain rfl := Option.some.inj hstep
      by_cases hclient : (t.client || ans.gateway) = false
      · left
        rw [Tracked.sync, if_pos hclient]
        exact ⟨rfl, (Bool.or_eq_false_iff.mp hclient).1⟩
      · right
        refine ⟨?_, ?_, fun p => slot_sync hshaped (Bool.not_eq_false _ |>.mp hclient)⟩
        · rw [Tracked.sync, if_neg hclient, client_mapAll, client_unmapAll]
        · rw [Tracked.sync, if_neg hclient]
          have hfound : Shaped { t with client := true } := ⟨hshaped.keys, hshaped.places⟩
          exact (hfound.unmapAll _).mapAll _
  | close ans =>
      obtain rfl := Option.some.inj hstep
      by_cases hclient : t.client = false
      · left
        rw [Tracked.close, if_pos hclient]
        exact ⟨rfl, hclient⟩
      · right
        have hfound : t.client = true := by simpa using hclient
        refine ⟨?_, ?_, fun p => slot_close hshaped hfound⟩
        · rw [Tracked.close, if_neg hclient, client_unmapAll, hfound]
        · rw [Tracked.close, if_neg hclient]
          exact hshaped.unmapAll _

theorem Inv.step (h : Inv t) (hstep : step t label = some t') : Inv t' := by
  rcases step_cases h.toShaped hstep with ⟨rfl, -⟩ | ⟨hclient, hshaped, hslot⟩
  · exact h
  · refine ⟨hshaped, ?_, fun _ _ => hclient⟩
    intro p
    rw [hslot p]
    have hknown : (t.slot p).Known := h.known p
    exact hknown.call _ _ _

theorem wants_eq_true : wants desired p = true ↔ ∃ q ∈ desired, q.place = p := by
  simp [wants]

theorem kept_iff : Kept t label ↔ ∀ p, (t.slot p).recorded = true →
    if label.wanted p = true then label.answers.adds (routerPlace p) = true
    else label.answers.deletes (routerPlace p) = true := by
  cases label with
  | sync desired ans =>
      apply forall_congr'
      intro p
      simp only [Label.wanted, Label.answers, wants_eq_true]
      rfl
  | close ans => rfl

/-! ### Along a run

A place is remembered as long as nothing on record was refused, and once it is forgotten it
stays so. -/

/-- What is on the router is on record, place by place. -/
theorem remembered_iff (h : Inv t) : Remembered t ↔
    ∀ p, (t.slot p).live = true → (t.slot p).recorded = true := by
  constructor
  · intro hr p hlive
    obtain ⟨key, hkey, hparse⟩ := hr.recorded (routerPlace p) hlive
    obtain ⟨q, rfl⟩ := h.keys key hkey
    have hparse' := (parseMappingKey_keyText q).symm.trans hparse
    obtain rfl : q = p := routerPlace_injective (Option.some.inj hparse')
    exact hkey
  · intro hall
    refine ⟨?_, ?_, ?_⟩
    · intro place hlive
      obtain ⟨p, rfl⟩ := h.places place hlive
      exact ⟨keyText p, hall p hlive, parseMappingKey_keyText p⟩
    · intro place hlive desired hunwanted
      obtain ⟨p, rfl⟩ := h.places place hlive
      have hrecorded := hall p hlive
      have hnot : wants desired p = false := by
        apply Bool.eq_false_iff.mpr
        intro hwants
        obtain ⟨q, hq, rfl⟩ := wants_eq_true.mp hwants
        exact hunwanted q hq rfl
      rw [Tracked.syncDeletes, Tracked.closeDeletes, if_pos (h.client _ hlive),
        if_pos (h.client _ hlive)]
      refine ⟨?_, ?_⟩
      · exact List.mem_filterMap.mpr ⟨keyText p, mem_unwanted.mpr ⟨hrecorded, hnot⟩,
          parseMappingKey_keyText p⟩
      · exact List.mem_filterMap.mpr ⟨keyText p, mem_recorded.mpr hrecorded,
          parseMappingKey_keyText p⟩
    · intro key hkey
      obtain ⟨p, rfl⟩ := h.keys key hkey
      exact ⟨routerPlace p, parseMappingKey_keyText p, (h.known p hkey).2⟩

/-- From a state where nothing is forgotten, a step forgets something exactly if the router
refuses it something that is on record. -/
theorem remembered_step_iff (h : Inv t) (hr : Remembered t) (hstep : step t label = some t') :
    Remembered t' ↔ Kept t label := by
  have hlive := (remembered_iff h).mp hr
  rw [kept_iff]
  rcases step_cases h.toShaped hstep with ⟨rfl, hclient⟩ | ⟨-, -, hslot⟩
  · simp only [hr, true_iff]
    intro p hrecorded
    have hknown := h.client _ (h.known p hrecorded).1
    rw [hclient] at hknown
    cases hknown
  · rw [remembered_iff (h.step hstep)]
    apply forall_congr'
    intro p
    rw [hslot p]
    exact Slot.live_call_iff (h.known p) (hlive p) ..

end Calls

/-- Along a run the record always has what is on the router, if and only if the router never
refuses to delete or to renew what is on record. -/
theorem remembered_iff_kept (labels : List Label) :
    (∀ before after t, labels = before ++ after → run step start before = some t →
      Remembered t) ↔ RunMeets step Kept start labels := by
  have hstart : Remembered start := ⟨nofun, nofun, nofun⟩
  refine RunMeets.iff_throughout ?_ ?_ ?_ labels inv_start hstart
  · intro t label hstuck
    cases label <;> cases hstuck
  · intro t label t' h hstep
    exact h.step hstep
  · intro t label t' h hr hstep
    exact remembered_step_iff h hr hstep

def willing : Answers := ⟨true, fun _ => none, fun _ _ => none⟩

/-- The router is busy when the lease of the port is renewed. -/
def busy : Answers := { willing with add := fun _ _ => some "501".toList }

/-- The port is still open, and no later call closes it. -/
theorem refused_renewal_is_forgotten :
    ¬ ∀ labels t, run step start labels = some t → Remembered t := by
  intro hall
  obtain ⟨t, hrun, hstate⟩ := Option.map_eq_some_iff.mp
    (show (run step start [.sync [ssh] willing, .sync [ssh] busy]).map
      (fun t => (t.mapped.keys, t.live ("TCP", 22))) = some ([], true) by decide +kernel)
  obtain ⟨hkeys, hlive⟩ := Prod.mk.inj hstate
  obtain ⟨key, hkey, -⟩ := (hall _ t hrun).recorded ("TCP", 22) hlive
  have hmem : key ∈ t.mapped.keys := AList.mem_keys.mpr (AList.lookup_isSome.mp hkey)
  rw [hkeys] at hmem
  exact absurd hmem List.not_mem_nil

end Quicgate.UpnpRecord
