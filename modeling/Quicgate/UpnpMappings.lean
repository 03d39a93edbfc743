import Quicgate.GoMaps
import Quicgate.GoStrings
import Quicgate.TransitionSystem

/-!
# Port mappings on the router

`UPnPManager` of `internal/engine/upnp.go`, and the goroutines that hand it
configurations: every reload of the engine starts one that runs `Sync`, the renewal
loop copies what is desired and runs `Sync` with the copy later, and `Close` removes
everything.  `Sync` and `Close` run under the lock and are one step each.  The router
does what it is asked; `UpnpRecord` has a router that may refuse.

`newest_configuration_wins` is about runs in which no `Sync` takes an older configuration
back.  Nothing in the code sees to that (`overtaken_sync_reopens_port`).
-/

namespace Quicgate.UpnpMappings

open Quicgate.GoStrings Quicgate.GoMaps Quicgate.TransitionSystem

/-! ### Mappings

The manager keeps what it has mapped by the text of protocol and port, and reads the text back
to take a mapping off the router. -/

inductive Proto where
  | tcp
  | udp
deriving DecidableEq, Repr

def Proto.text : Proto → String
  | .tcp => "TCP"
  | .udp => "UDP"

/-- An external port, which is a `uint16` and never 0. -/
abbrev Port := { n : Nat // 0 < n ∧ n < 65536 }

structure PortMapping where
  proto : Proto
  port : Port
  intIP : String
  intPort : Nat
deriving DecidableEq, Repr

/-- `key`, of the protocol and the port. -/
def keyText (place : Proto × Port) : String :=
  String.ofList (place.1.text.toList ++ ':' :: itoa place.2.1)

def PortMapping.place (p : PortMapping) : Proto × Port := (p.proto, p.port)

def PortMapping.key (p : PortMapping) : String := keyText p.place

/-- `parseMappingKey`, without the texts of its errors. -/
def parseMappingKey (key : String) : Option (String × Nat) :=
  match cut ':' key.toList with
  | (proto, port, true) =>
      if proto = [] then none
      else match parseUint 16 port with
        | some n => if n = 0 then none else some (String.ofList proto, n)
        | none => none
  | _ => none

structure Target where
  ip : String
  port : Nat
deriving DecidableEq, Repr

/-- The mappings of the router, by protocol and port. -/
abbrev Router := GoMap (String × Nat) Target

/-- The manager, with the router it talks to. -/
structure Manager where
  client : Bool -- the gateway was found
  mapped : GoMap String Bool
  desired : List PortMapping
  router : Router

section Sync

variable (localIP : String)

def PortMapping.target (p : PortMapping) : Target :=
  ⟨if p.intIP = "" then localIP else p.intIP, if p.intPort = 0 then p.port.1 else p.intPort⟩

/-- `DeletePortMapping` for a key, which is taken from `mapped`. -/
def Manager.unmap (m : Manager) (key : String) : Manager :=
  match parseMappingKey key with
  | none => { m with mapped := m.mapped.erase key }
  | some (proto, port) =>
      { m with router := m.router.erase (proto, port), mapped := m.mapped.erase key }

def Manager.map (m : Manager) (entry : String × PortMapping) : Manager :=
  { m with
    router := m.router.insert (entry.2.proto.text, entry.2.port.1) (entry.2.target localIP)
    mapped := m.mapped.insert entry.1 true }

def want (desired : List PortMapping) : GoMap String PortMapping :=
  GoMap.insertAll ∅ (desired.map fun p => (p.key, p))

def Manager.sync (m : Manager) (desired : List PortMapping) : Manager :=
  let m := { m with desired, client := true }
  let stale := (m.mapped.pairs.map Prod.fst).filter fun key => ((want desired).lookup key).isNone
  (want desired).pairs.foldl (Manager.map localIP) (stale.foldl Manager.unmap m)

def Manager.close (m : Manager) : Manager :=
  if m.client then (m.mapped.pairs.map Prod.fst).foldl Manager.unmap m else m

end Sync

/-! ### Reloads, renewals and the end

A reload has begun, and its goroutine has not run yet or has. -/

/-- A reload with the goroutine it started. -/
structure Reload where
  mappings : List PortMapping
  ran : Bool
deriving DecidableEq, Repr

inductive CloseState where
  | open
  | closing -- `close(done)`
  | closed
deriving DecidableEq, Repr

structure State where
  manager : Manager
  reloads : List Reload
  /-- The copy that the renewal loop has taken. -/
  renewal : Option (List PortMapping)
  close : CloseState

def start : State := ⟨⟨false, ∅, [], ∅⟩, [], none, .open⟩

inductive Label where
  | reload (mappings : List PortMapping)
  | sync (i : Nat)
  | renewCopy
  | renewSync
  | closeSignal
  | closeBody

def step (localIP : String) (s : State) : Label → Option State
  | .reload mappings => some { s with reloads := s.reloads ++ [⟨mappings, false⟩] }
  | .sync i =>
      match s.reloads[i]? with
      | some r =>
          if r.ran then none
          else some { s with
            manager := s.manager.sync localIP r.mappings
            reloads := s.reloads.set i { r with ran := true } }
      | none => none
  | .renewCopy =>
      -- a tick that is ready together with `done` may be taken too
      if s.renewal.isNone then some { s with renewal := some s.manager.desired } else none
  | .renewSync =>
      match s.renewal with
      | some copy => some { s with manager := s.manager.sync localIP copy, renewal := none }
      | none => none
  | .closeSignal => if s.close = .open then some { s with close := .closing } else none
  | .closeBody =>
      if s.close = .closing then some { s with manager := s.manager.close, close := .closed }
      else none

def Finished (s : State) : Prop :=
  (∀ r ∈ s.reloads, r.ran = true) ∧ s.renewal = none ∧ s.close ≠ .closing

/-- What a list of mappings asks for at a protocol and port: the last one for it. -/
def wanted (localIP : String) (mappings : List PortMapping) (place : Proto × Port) :
    Option Target :=
  ((mappings.filter fun p => p.place = place).getLast?).map (PortMapping.target localIP)

def routerPlace (place : Proto × Port) : String × Nat := (place.1.text, place.2.1)

/-- The router has exactly these mappings. -/
def Shows (localIP : String) (router : Router) (mappings : List PortMapping) : Prop :=
  ∀ place target, router.lookup place = some target ↔
    ∃ p, place = routerPlace p ∧ wanted localIP mappings p = some target

/-- The newest configuration wins: a `Sync` never takes an older one back. -/
def InOrder (s : State) : Label → Prop
  | .sync i => s.close ≠ .closed ∧ ∀ r ∈ s.reloads.drop (i + 1), r.ran = false
  | .renewSync => s.close ≠ .closed ∧ s.renewal = some s.manager.desired
  | _ => True

instance (s : State) (label : Label) : Decidable (InOrder s label) :=
  match label with
  | .sync _ | .renewSync => inferInstanceAs (Decidable (_ ∧ _))
  | .reload _ | .renewCopy | .closeSignal | .closeBody => inferInstanceAs (Decidable True)

instance (s : State) : Decidable (Finished s) :=
  inferInstanceAs (Decidable (_ ∧ _ ∧ _))

/-! ### Keys

A key is told apart by its protocol and its port. -/

theorem parseUint_itoa {n : Nat} (h : n < 65536) : parseUint 16 (itoa n) = some n := by
  have hvalue : Nat.ofDigitChars 10 (itoa n) 0 = n := Nat.ofDigitChars_ten_toDigits
  rw [parseUint, hvalue, if_pos ⟨itoa_ne_nil n, all_isDigit_itoa n, h⟩]

/-- A key is read back. -/
theorem parseMappingKey_keyText (place : Proto × Port) :
    parseMappingKey (keyText place) = some (place.1.text, place.2.1) := by
  obtain ⟨proto, port, hpos, hlt⟩ := place
  have hcolon : ':' ∉ proto.text.toList := by
    cases proto <;> (simp only [Proto.text]; decide)
  have hproto : proto.text.toList ≠ [] := by
    cases proto <;> (simp only [Proto.text]; decide)
  have hport : port ≠ 0 := by omega
  simp only [parseMappingKey, keyText, String.toList_ofList]
  rw [cut_append_cons hcolon]
  simp only [hproto, if_false, parseUint_itoa hlt, hport, String.ofList_toList]

theorem Proto.text_injective {a b : Proto} (h : a.text = b.text) : a = b := by
  cases a <;> cases b <;> first | rfl | exact absurd h (by simp only [Proto.text]; decide)

theorem routerPlace_injective {p q : Proto × Port} (h : routerPlace p = routerPlace q) : p = q := by
  obtain ⟨htext, hport⟩ := Prod.mk.inj h
  exact Prod.ext (Proto.text_injective htext) (Subtype.ext hport)

theorem keyText_injective {p q : Proto × Port} (h : keyText p = keyText q) : p = q := by
  have hparse := parseMappingKey_keyText p
  rw [h, parseMappingKey_keyText] at hparse
  exact routerPlace_injective (Option.some.inj hparse).symm

/-! ### What `Sync` leaves on the router

`Sync` unmaps what is no longer wanted and maps what is, one after the other; `Known` says
that it knows all that is to be unmapped. -/

section Synced

variable {localIP : String} {m : Manager}

/-- The manager knows every mapping that it made. -/
structure Known (m : Manager) : Prop where
  keys : ∀ key, (m.mapped.lookup key).isSome = true → m.client = true ∧ ∃ p, key = keyText p
  router : ∀ place target, m.router.lookup place = some target →
    ∃ p, place = routerPlace p ∧ (m.mapped.lookup (keyText p)).isSome = true

/-- Keys that are unmapped one after the other. -/
theorem unmap_spec (keys : List String) (hkeys : ∀ key ∈ keys, ∃ p, key = keyText p) :
    (∀ key, (keys.foldl Manager.unmap m).mapped.lookup key =
      if key ∈ keys then none else m.mapped.lookup key) ∧
    (∀ p, (keys.foldl Manager.unmap m).router.lookup (routerPlace p) =
      if keyText p ∈ keys then none else m.router.lookup (routerPlace p)) ∧
    (∀ place, (∀ p, place ≠ routerPlace p) →
      (keys.foldl Manager.unmap m).router.lookup place = m.router.lookup place) ∧
    (keys.foldl Manager.unmap m).client = m.client ∧
    (keys.foldl Manager.unmap m).desired = m.desired := by
  induction keys generalizing m with
  | nil => simp
  | cons first rest ih =>
      obtain ⟨q, rfl⟩ := hkeys first List.mem_cons_self
      have hunmap : m.unmap (keyText q) =
          { m with router := m.router.erase (routerPlace q),
                   mapped := m.mapped.erase (keyText q) } := by
        simp only [Manager.unmap, parseMappingKey_keyText]
        rfl
      obtain ⟨hmapped, hrouter, hothers, hclient, hdesired⟩ :=
        ih (m := m.unmap (keyText q)) fun key hkey => hkeys key (List.mem_cons_of_mem _ hkey)
      rw [List.foldl_cons]
      refine ⟨?_, ?_, ?_, ?_, ?_⟩
      · intro key
        rw [hmapped, hunmap]
        by_cases heq : key = keyText q
        · subst heq
          simp
        · simp only [List.mem_cons, heq, false_or, AList.lookup_erase_ne heq]
      · intro p
        rw [hrouter, hunmap]
        by_cases heq : p = q
        · subst heq
          simp
        · have hkey : keyText p ≠ keyText q := fun h => heq (keyText_injective h)
          have hplace : routerPlace p ≠ routerPlace q := fun h => heq (routerPlace_injective h)
          simp only [List.mem_cons, hkey, false_or, AList.lookup_erase_ne hplace]
      · intro place hplace
        rw [hothers place hplace, hunmap]
        exact AList.lookup_erase_ne (hplace q)
      · rw [hclient, hunmap]
      · rw [hdesired, hunmap]

variable (localIP) in
/-- Mappings of different places that are made one after the other. -/
theorem map_spec (entries : List (String × PortMapping)) (hkeys : ∀ e ∈ entries, e.1 = e.2.key)
    (hdistinct : (entries.map Prod.fst).Nodup) :
    (∀ key, ((entries.foldl (Manager.map localIP) m).mapped.lookup key).isSome = true ↔
      key ∈ entries.map Prod.fst ∨ (m.mapped.lookup key).isSome = true) ∧
    (∀ e ∈ entries, (entries.foldl (Manager.map localIP) m).router.lookup (routerPlace e.2.place) =
      some (e.2.target localIP)) ∧
    (∀ place, (∀ e ∈ entries, place ≠ routerPlace e.2.place) →
      (entries.foldl (Manager.map localIP) m).router.lookup place = m.router.lookup place) ∧
    (entries.foldl (Manager.map localIP) m).client = m.client ∧
    (entries.foldl (Manager.map localIP) m).desired = m.desired := by
  induction entries generalizing m with
  | nil => simp
  | cons first rest ih =>
      rw [List.map_cons, List.nodup_cons] at hdistinct
      obtain ⟨hmapped, hrouter, hothers, hclient, hdesired⟩ :=
        ih (m := m.map localIP first) (fun e he => hkeys e (List.mem_cons_of_mem _ he)) hdistinct.2
      rw [List.foldl_cons]
      refine ⟨?_, ?_, ?_, hclient, hdesired⟩
      · intro key
        rw [hmapped]
        by_cases heq : key = first.1
        · subst heq
          simp [Manager.map]
        · simp [Manager.map, heq, AList.lookup_insert_ne heq]
      · intro e he
        rcases List.mem_cons.mp he with rfl | hin
        · rw [hothers]
          · exact AList.lookup_insert _
          · intro other hother hplace
            have hkey : other.1 = e.1 := by
              rw [hkeys other (List.mem_cons_of_mem _ hother), hkeys e List.mem_cons_self,
                PortMapping.key, PortMapping.key, routerPlace_injective hplace]
            exact hdistinct.1 (hkey ▸ List.mem_map_of_mem hother)
        · exact hrouter e hin
      · intro place hplace
        rw [hothers place fun e he => hplace e (List.mem_cons_of_mem _ he)]
        exact AList.lookup_insert_ne (hplace first List.mem_cons_self)

/-- The last mapping of a place is the one that is wanted. -/
theorem lookup_want (desired : List PortMapping) (place : Proto × Port) :
    (want desired).lookup (keyText place) = (desired.filter fun p => p.place = place).getLast? := by
  induction desired using List.reverseRecOn with
  | nil => rfl
  | append_singleton front p ih =>
      have hwant : want (front ++ [p]) = (want front).insert p.key p := by
        simp [want, GoMap.insertAll]
      rw [hwant, List.filter_append]
      by_cases hplace : p.place = place
      · subst hplace
        simp [PortMapping.key]
      · have hkey : keyText place ≠ p.key := fun h => hplace (keyText_injective h).symm
        simp only [AList.lookup_insert_ne hkey, ih, List.filter_cons, hplace, decide_false,
          Bool.false_eq_true, if_false, List.filter_nil, List.append_nil]

theorem key_of_want {desired : List PortMapping} {key : String} {p : PortMapping}
    (h : (want desired).lookup key = some p) : key = p.key := by
  rcases GoMap.of_lookup_insertAll h with hmem | ⟨-, hnone⟩
  · obtain ⟨q, -, heq⟩ := List.mem_map.mp hmem
    obtain ⟨hkey, rfl⟩ := Prod.mk.inj heq
    exact hkey.symm
  · cases hnone

theorem mem_pairs_fst {key : String} :
    key ∈ m.mapped.pairs.map Prod.fst ↔ (m.mapped.lookup key).isSome = true := by
  rw [Option.isSome_iff_exists]
  constructor
  · intro h
    obtain ⟨entry, hentry, rfl⟩ := List.mem_map.mp h
    exact ⟨entry.2, GoMap.mem_pairs.mp hentry⟩
  · rintro ⟨value, hvalue⟩
    exact List.mem_map.mpr ⟨(key, value), GoMap.mem_pairs.mpr hvalue, rfl⟩

/-! ### The two calls

The loops of `Sync` and `Close` as a whole, on a router that does what it is asked. -/

variable (localIP) in
/-- After `Sync` the router has the mappings that are desired, and no others. -/
theorem sync_spec (h : Known m) (desired : List PortMapping) :
    Known (m.sync localIP desired) ∧ Shows localIP (m.sync localIP desired).router desired ∧
      (m.sync localIP desired).desired = desired := by
  have hstale : ∀ key ∈ (m.mapped.pairs.map Prod.fst).filter
      (fun key => ((want desired).lookup key).isNone), ∃ p, key = keyText p := by
    intro key hkey
    exact (h.keys key (mem_pairs_fst.mp (List.mem_filter.mp hkey).1)).2
  have hentries : ∀ e ∈ (want desired).pairs, e.1 = e.2.key :=
    fun e he => key_of_want (GoMap.mem_pairs.mp he)
  obtain ⟨hmapped, hrouter, hothers, hclient, hdesired⟩ :=
    unmap_spec (m := { m with desired, client := true }) _ hstale
  obtain ⟨hmapped', hrouter', hothers', hclient', hdesired'⟩ :=
    map_spec localIP (m := ((m.mapped.pairs.map Prod.fst).filter
      fun key => ((want desired).lookup key).isNone).foldl Manager.unmap
        { m with desired, client := true }) _ hentries (GoMap.nodup_keys_pairs _)
  have hshows : ∀ p target, (m.sync localIP desired).router.lookup (routerPlace p) = some target ↔
      wanted localIP desired p = some target := by
    intro p target
    cases hwant : (want desired).lookup (keyText p) with
    | some q =>
        have hq : q.place = p := keyText_injective (key_of_want hwant).symm
        have hadded := hrouter' (keyText p, q) (GoMap.mem_pairs.mpr hwant)
        rw [hq] at hadded
        have hwanted : wanted localIP desired p = some (q.target localIP) := by
          rw [wanted, ← lookup_want, hwant]
          rfl
        rw [hwanted, ← hadded]
        rfl
    | none =>
        -- nothing is added at the place, and what was there is unmapped
        have hnot : ∀ e ∈ (want desired).pairs, routerPlace p ≠ routerPlace e.2.place := by
          intro e he hplace
          have hkey : e.1 = keyText p := by
            rw [hentries e he, PortMapping.key, routerPlace_injective hplace]
          rw [← hkey, GoMap.mem_pairs.mp he] at hwant
          cases hwant
        have hwanted : wanted localIP desired p = none := by
          rw [wanted, ← lookup_want, hwant]
          rfl
        have hleft : (m.sync localIP desired).router.lookup (routerPlace p) = none := by
          refine (hothers' _ hnot).trans ?_
          rw [hrouter]
          split
          · rfl
          · rename_i hkept
            by_contra hsome
            obtain ⟨old, hold⟩ := Option.ne_none_iff_exists'.mp hsome
            obtain ⟨q, hq, hin⟩ := h.router _ _ hold
            obtain rfl := routerPlace_injective hq
            refine hkept (List.mem_filter.mpr ⟨mem_pairs_fst.mpr hin, ?_⟩)
            rw [hwant]
            rfl
        rw [hleft, hwanted]
  have hvalid : ∀ place target, (m.sync localIP desired).router.lookup place = some target →
      ∃ p, place = routerPlace p := by
    intro place target hplace
    by_contra hnone
    have hall : ∀ p, place ≠ routerPlace p := fun p heq => hnone ⟨p, heq⟩
    have hold : m.router.lookup place = some target := by
      rw [← hothers place hall, ← hothers' place fun e _ => hall e.2.place]
      exact hplace
    obtain ⟨p, hp, -⟩ := h.router place target hold
    exact hall p hp
  refine ⟨⟨?_, ?_⟩, ?_, hdesired'.trans hdesired⟩
  · intro key hkey
    refine ⟨hclient'.trans hclient, ?_⟩
    rcases (hmapped' key).mp hkey with hnew | hold
    · obtain ⟨e, he, rfl⟩ := List.mem_map.mp hnew
      exact ⟨e.2.place, hentries e he⟩
    · rw [hmapped] at hold
      split at hold
      · cases hold
      · exact (h.keys key hold).2
  · intro place target hplace
    obtain ⟨p, rfl⟩ := hvalid place target hplace
    refine ⟨p, rfl, (hmapped' (keyText p)).mpr (Or.inl ?_)⟩
    have hwanted := (hshows p target).mp hplace
    rw [wanted, ← lookup_want, Option.map_eq_some_iff] at hwanted
    obtain ⟨q, hq, -⟩ := hwanted
    exact List.mem_map.mpr ⟨(keyText p, q), GoMap.mem_pairs.mpr hq, rfl⟩
  · intro place target
    constructor
    · intro hplace
      obtain ⟨p, rfl⟩ := hvalid place target hplace
      exact ⟨p, rfl, (hshows p target).mp hplace⟩
    · rintro ⟨p, rfl, hwanted⟩
      exact (hshows p target).mpr hwanted

/-- After `Close` the router has no mapping. -/
theorem close_spec (h : Known m) :
    Known m.close ∧ (∀ place, m.close.router.lookup place = none) ∧
      m.close.desired = m.desired := by
  have hempty : m.client = false → ∀ place, m.router.lookup place = none := by
    intro hclient place
    by_contra hsome
    obtain ⟨target, htarget⟩ := Option.ne_none_iff_exists'.mp hsome
    obtain ⟨p, -, hin⟩ := h.router place target htarget
    rw [(h.keys _ hin).1] at hclient
    cases hclient
  unfold Manager.close
  split
  · have hkeys : ∀ key ∈ m.mapped.pairs.map Prod.fst, ∃ p, key = keyText p :=
      fun key hkey => (h.keys key (mem_pairs_fst.mp hkey)).2
    obtain ⟨hmapped, hrouter, hothers, hclient, hdesired⟩ := unmap_spec (m := m) _ hkeys
    have hnone : ∀ place,
        ((m.mapped.pairs.map Prod.fst).foldl Manager.unmap m).router.lookup place = none := by
      intro place
      by_cases hplace : ∃ p, place = routerPlace p
      · obtain ⟨p, rfl⟩ := hplace
        rw [hrouter]
        split
        · rfl
        · rename_i hkept
          by_contra hsome
          obtain ⟨old, hold⟩ := Option.ne_none_iff_exists'.mp hsome
          obtain ⟨q, hq, hin⟩ := h.router _ _ hold
          obtain rfl := routerPlace_injective hq
          exact hkept (mem_pairs_fst.mpr hin)
      · have hall : ∀ p, place ≠ routerPlace p := fun p heq => hplace ⟨p, heq⟩
        rw [hothers place hall]
        by_contra hsome
        obtain ⟨old, hold⟩ := Option.ne_none_iff_exists'.mp hsome
        obtain ⟨p, hp, -⟩ := h.router _ _ hold
        exact hall p hp
    refine ⟨⟨?_, ?_⟩, hnone, hdesired⟩
    · intro key hkey
      rw [hmapped] at hkey
      split at hkey
      · cases hkey
      · rw [hclient]
        exact h.keys key hkey
    · intro place target hplace
      rw [hnone] at hplace
      cases hplace
  · rename_i hclient
    exact ⟨h, hempty (by simpa using hclient), rfl⟩

end Synced

/-! ### Runs

The router shows what the last `Sync` asked for; which reload that was is the rest of the
argument. -/

/-- The mappings of the last reload whose `Sync` has run. -/
def lastRan (reloads : List Reload) : List PortMapping :=
  (((reloads.filter Reload.ran).getLast?).map Reload.mappings).getD []

structure Inv (localIP : String) (s : State) : Prop where
  known : Known s.manager
  desired : s.manager.desired = lastRan s.reloads
  shown : s.close ≠ .closed → Shows localIP s.manager.router s.manager.desired
  removed : s.close = .closed → ∀ place, s.manager.router.lookup place = none

section Runs

variable {localIP : String} {s next : State} {label : Label}

theorem inv_start (localIP : String) : Inv localIP start where
  known := ⟨fun key h => by simp [start] at h, fun place target h => by simp [start] at h⟩
  desired := rfl
  shown _ := by
    intro place target
    constructor
    · intro h
      simp [start] at h
    · rintro ⟨p, -, h⟩
      simp [start, wanted] at h
  removed h := by simp [start] at h

/-- The newest of the reloads that ran. -/
theorem lastRan_set {reloads : List Reload} {i : Nat} {r : Reload} (hr : reloads[i]? = some r)
    (hlater : ∀ r ∈ reloads.drop (i + 1), r.ran = false) :
    lastRan (reloads.set i { r with ran := true }) = r.mappings := by
  obtain ⟨hi, -⟩ := List.getElem?_eq_some_iff.mp hr
  have hsplit : reloads.set i { r with ran := true } =
      reloads.take i ++ { r with ran := true } :: reloads.drop (i + 1) := by
    rw [List.set_eq_take_append_cons_drop, if_pos hi]
  have hrest : (reloads.drop (i + 1)).filter Reload.ran = [] := by
    refine List.filter_eq_nil_iff.mpr fun other hother => ?_
    simp [hlater other hother]
  rw [lastRan, hsplit, List.filter_append, List.filter_cons_of_pos rfl, hrest]
  simp

theorem Inv.step (h : Inv localIP s) (horder : InOrder s label)
    (hstep : step localIP s label = some next) : Inv localIP next := by
  cases label with
  | reload mappings =>
      obtain rfl := Option.some.inj hstep
      refine ⟨h.known, ?_, h.shown, h.removed⟩
      rw [h.desired]
      simp [lastRan, List.filter_append]
  | sync i =>
      simp only [UpnpMappings.step] at hstep
      split at hstep
      · rename_i r hr
        split at hstep
        · cases hstep
        · obtain rfl := Option.some.inj hstep
          obtain ⟨hknown, hshows, hdesired⟩ := sync_spec localIP h.known r.mappings
          refine ⟨hknown, ?_, fun _ => ?_, fun hclosed => absurd hclosed horder.1⟩
          · exact hdesired.trans (lastRan_set hr horder.2).symm
          · change Shows localIP _ (s.manager.sync localIP r.mappings).desired
            rw [hdesired]
            exact hshows
      · cases hstep
  | renewCopy =>
      simp only [UpnpMappings.step] at hstep
      split at hstep
      · obtain rfl := Option.some.inj hstep
        exact ⟨h.known, h.desired, h.shown, h.removed⟩
      · cases hstep
  | renewSync =>
      simp only [UpnpMappings.step] at hstep
      split at hstep
      · rename_i copy hcopy
        obtain rfl := Option.some.inj hstep
        obtain rfl : copy = s.manager.desired := Option.some.inj (hcopy.symm.trans horder.2)
        obtain ⟨hknown, hshows, hdesired⟩ := sync_spec localIP h.known s.manager.desired
        refine ⟨hknown, hdesired.trans h.desired, fun _ => ?_,
          fun hclosed => absurd hclosed horder.1⟩
        change Shows localIP _ (s.manager.sync localIP s.manager.desired).desired
        rw [hdesired]
        exact hshows
      · cases hstep
  | closeSignal =>
      simp only [UpnpMappings.step] at hstep
      split at hstep
      · rename_i hopen
        obtain rfl := Option.some.inj hstep
        refine ⟨h.known, h.desired, fun _ => h.shown ?_, fun hclosed => by cases hclosed⟩
        rw [hopen]
        decide
      · cases hstep
  | closeBody =>
      simp only [UpnpMappings.step] at hstep
      split at hstep
      · obtain rfl := Option.some.inj hstep
        obtain ⟨hknown, hnone, hdesired⟩ := close_spec h.known
        exact ⟨hknown, hdesired.trans h.desired, fun hopen => absurd rfl hopen, fun _ => hnone⟩
      · cases hstep

theorem lastRan_of_finished (h : ∀ r ∈ s.reloads, r.ran = true) :
    lastRan s.reloads = (s.reloads.getLast?.map Reload.mappings).getD [] := by
  rw [lastRan, List.filter_eq_self.mpr h]

end Runs

/-- When everything that was started has ended, the mappings are those of the last reload, and after
`Close` there are none, in every run in which no `Sync` takes an older configuration back. -/
theorem newest_configuration_wins {localIP : String} {labels : List Label} {s : State}
    (hrun : run (step localIP) start labels = some s)
    (horder : RunMeets (step localIP) InOrder start labels) (hfinished : Finished s) :
    s.manager.desired = (s.reloads.getLast?.map Reload.mappings).getD [] ∧
    (s.close ≠ .closed → Shows localIP s.manager.router
      ((s.reloads.getLast?.map Reload.mappings).getD [])) ∧
    (s.close = .closed → ∀ place, s.manager.router.lookup place = none) := by
  have hinv : Inv localIP s :=
    RunMeets.invariant (fun _ _ _ hs hallowed hstep => Inv.step hs hallowed hstep) horder
      (inv_start localIP) hrun
  have hdesired := hinv.desired.trans (lastRan_of_finished hfinished.1)
  refine ⟨hdesired, ?_, hinv.removed⟩
  rw [← hdesired]
  exact hinv.shown

def ssh : PortMapping := ⟨.tcp, ⟨22, by decide⟩, "192.168.1.20", 0⟩
def web : PortMapping := ⟨.tcp, ⟨443, by decide⟩, "", 0⟩

/-- Two reloads and a renewal, each after the other. -/
def calmRun : List Label :=
  [.reload [ssh], .sync 0, .renewCopy, .renewSync, .reload [web], .sync 1]

/-- The engine is closed after it. -/
def closedRun : List Label := calmRun ++ [.closeSignal, .closeBody]

theorem newest_configuration_wins_calmRun :
    (∃ s, run (step "192.168.1.2") start calmRun = some s ∧ Finished s ∧
      s.manager.desired = [web] ∧ Shows "192.168.1.2" s.manager.router [web]) ∧
    ∃ s, run (step "192.168.1.2") start closedRun = some s ∧ Finished s ∧
      ∀ place, s.manager.router.lookup place = none := by
  constructor
  · obtain ⟨s, hrun, hstate⟩ := Option.map_eq_some_iff.mp
      (show (run (step "192.168.1.2") start calmRun).map
        (fun s => (decide (Finished s), s.reloads, s.close)) =
          some (true, [⟨[ssh], true⟩, ⟨[web], true⟩], .open) by decide +kernel)
    simp only [Prod.mk.injEq, decide_eq_true_eq] at hstate
    obtain ⟨hfinished, hreloads, hclose⟩ := hstate
    obtain ⟨hdesired, hshows, -⟩ := newest_configuration_wins hrun (by decide +kernel) hfinished
    rw [hreloads] at hdesired hshows
    exact ⟨s, hrun, hfinished, hdesired, hshows (by rw [hclose]; decide)⟩
  · obtain ⟨s, hrun, hstate⟩ := Option.map_eq_some_iff.mp
      (show (run (step "192.168.1.2") start closedRun).map
        (fun s => (decide (Finished s), s.close)) = some (true, .closed) by decide +kernel)
    simp only [Prod.mk.injEq, decide_eq_true_eq] at hstate
    obtain ⟨hfinished, hclose⟩ := hstate
    obtain ⟨-, -, hremoved⟩ := newest_configuration_wins hrun (by decide +kernel) hfinished
    exact ⟨s, hrun, hfinished, hremoved hclose⟩

/-- The goroutine of the first reload comes last. -/
def overtakenRun : List Label := [.reload [ssh], .reload [], .sync 1, .sync 0]

/-- A port that the last reload has switched off is open again. -/
theorem overtaken_sync_reopens_port : ∃ s, run (step "192.168.1.2") start overtakenRun = some s ∧
    Finished s ∧ s.reloads.getLast? = some ⟨[], true⟩ ∧ s.manager.desired = [ssh] ∧
    s.manager.router.lookup ("TCP", 22) = some ⟨"192.168.1.20", 22⟩ := by
  obtain ⟨s, hrun, hstate⟩ := Option.map_eq_some_iff.mp
    (show (run (step "192.168.1.2") start overtakenRun).map
      (fun s => (decide (Finished s), s.reloads.getLast?, s.manager.desired,
        s.manager.router.lookup ("TCP", 22))) =
        some (true, some ⟨[], true⟩, [ssh], some ⟨"192.168.1.20", 22⟩) by decide +kernel)
  simp only [Prod.mk.injEq, decide_eq_true_eq] at hstate
  exact ⟨s, hrun, hstate⟩

end Quicgate.UpnpMappings
