import Quicgate.Routing
import Quicgate.TransitionSystem

/-!
# Ending the requests of a host that leaves the public side

The public requests and the reloads of the engine, step by step
(`internal/engine/publicreqs.go`, and the handlers and `Reload` of
`internal/engine/engine.go`).  A request loads the table and finds its route,
registers, is served and is done; a reload swaps the table, collects what no
longer is public, cancels it and returns.  Every step is one critical section or
one atomic load or swap, and the steps of any number of requests and of the
reloads, one reload at a time, interleave freely.

* Between the lookup and the registration a request is known to nobody.  A reload
  that runs wholly in between leaves it connected (`left_connected`); without such a
  request, and with tables that serve what their public hosts list, nobody stays
  connected (`ended_when_reload_returned`).
* `sweep_exact_iff` is about one sweep: it ends what it is meant to end, and no
  more, exactly when the hosts with a public route are placed whole.
  `held_name_counts_as_public` is a table in which one is not.
-/

namespace Quicgate.PublicRequests

open Quicgate.GoStrings Quicgate.GoNet Quicgate.Routing Quicgate.TransitionSystem

/-! ### Requests and reloads

`arrive` is `serveHTTPS` and `serveHTTP` up to the registration, `track` and `done` the two ends
of a registration, and `sweep` is `endNoLongerPublic` under its lock.  The map of maps
`publicRequests.open` is a list of entries.  Reloads hold `reloadMu`, so there is one at a time,
and cancel in the map's order, which is any. -/

inductive Phase where
  | found -- has its route, not registered
  | serving (id : Nat)
  | done
deriving DecidableEq

/-- A request. `name` is the configured name it was found under. -/
structure Request where
  name : String
  host : Host
  viaVPN : Bool
  phase : Phase
  cancelled : Bool
deriving DecidableEq

inductive Reload where
  | idle -- the last reload has returned
  | swapped
  | cancelling (requests : List Nat)
deriving DecidableEq

/-- An entry of `publicRequests.open`, a map of maps, flattened: under a host's key
and an id the cancel function of a request. -/
structure Open where
  key : String
  id : Nat
  request : Nat
deriving DecidableEq

structure State where
  table : RoutingTable
  reload : Reload
  requests : List Request
  next : Nat
  open_ : List Open

def init : State := ⟨⟨∅, ∅⟩, .idle, [], 0, []⟩

def publicKey (h : Host) : String :=
  String.ofList (joinSpace (h.domains.map String.toList))

def publicNames (t : RoutingTable) : List String :=
  (t.exact.entries ++ t.wildcard.entries).flatMap fun e =>
    if e.2.host.vpnOnly then [] else e.2.host.domains

/-- All names of a key are among the public ones. -/
def staysPublic (t : RoutingTable) (key : String) : Bool :=
  (fields key.toList).all fun d => (publicNames t).contains (String.ofList d)

inductive Label where
  | arrive (hostport : String) (viaVPN : Bool)
  | track (i : Nat)
  | done (i : Nat)
  | swap (hosts docker : List Host)
  | sweep
  | cancel (i : Nat)
  | return_

variable (table : CaseTable)

/-- `serveHTTPS` and `serveHTTP` up to the registration: load the table, find the
route. An unmatched request is answered at once. -/
def arrive (s : State) (hostport : String) (viaVPN : Bool) : Option State :=
  match s.table.lookup table hostport with
  | none => none
  | some r =>
      if r.host.vpnOnly && !viaVPN then none
      else some { s with requests := s.requests ++ [{
        name := foundUnder s.table (routeName table hostport), host := r.host,
        viaVPN := viaVPN, phase := .found, cancelled := false }] }

/-- `track`. A request from the tunnel is served without it. -/
def track (s : State) (i : Nat) : Option State :=
  match s.requests[i]? with
  | some r =>
      if r.phase ≠ .found then none
      else if r.viaVPN then
        some { s with requests := s.requests.set i { r with phase := .serving 0 } }
      else some { s with
        next := s.next + 1
        open_ := s.open_ ++ [⟨publicKey r.host, s.next + 1, i⟩]
        requests := s.requests.set i { r with phase := .serving (s.next + 1) } }
  | none => none

def done (s : State) (i : Nat) : Option State :=
  match s.requests[i]? with
  | some r =>
      match r.phase with
      | .serving id =>
          some { s with
            open_ := if r.viaVPN then s.open_
              else s.open_.filter fun o => !(o.key == publicKey r.host && o.id == id)
            requests := s.requests.set i { r with phase := .done, cancelled := true } }
      | _ => none
  | none => none

def sweep (s : State) : State := { s with
  open_ := s.open_.filter fun o => staysPublic s.table o.key
  reload := .cancelling
    ((s.open_.filter fun o => !staysPublic s.table o.key).map (·.request)) }

def cancelRequest (s : State) (i : Nat) : State := { s with
  requests := s.requests.modify i fun r => { r with cancelled := true } }

/-- The step of one label. -/
def step (s : State) : Label → Option State
  | .arrive hostport viaVPN => arrive table s hostport viaVPN
  | .track i => track s i
  | .done i => done s i
  | .swap hosts docker =>
      if s.reload = .idle then
        some { s with table := buildTable hosts docker, reload := .swapped }
      else none
  | .sweep => if s.reload = .swapped then some (sweep s) else none
  | .cancel i =>
      match s.reload with
      | .cancelling pending =>
          if i ∈ pending then
            some { cancelRequest s i with reload := .cancelling (pending.erase i) }
          else none
      | _ => none
  | .return_ => if s.reload = .cancelling [] then some { s with reload := .idle } else none

/-! ### What a reload that returned leaves behind

`Inv` says who ends a request in service when its host leaves: nobody has to, a reload is about
to, or it is registered where the next sweep finds it. -/

def Request.public (r : Request) : Bool :=
  !r.viaVPN && (match r.phase with | .serving _ => true | _ => false)

/-- No reload is in progress, and whoever is served from outside by a route that is
absent from the table, or only for the tunnel, has been cancelled. -/
def Ended (s : State) : Prop :=
  s.reload = .idle → ∀ r ∈ s.requests, r.public = true →
    s.table.servesPublicly r.name = false → r.cancelled = true

instance (s : State) : Decidable (Ended s) :=
  inferInstanceAs (Decidable (s.reload = .idle → ∀ r ∈ s.requests, r.public = true →
    s.table.servesPublicly r.name = false → r.cancelled = true))

/-- What a step must not meet. A request registers while its name is served publicly,
or before the sweep of the table that took it away; and a table that is swept serves
publicly what it lists, as far as somebody is connected to it. -/
def Settled (s : State) : Label → Prop
  | .track i => s.reload = .swapped ∨ ∀ r ∈ s.requests[i]?, r.viaVPN = false →
      s.table.servesPublicly r.name = true
  | .sweep => ∀ r ∈ s.requests, r.public = true → r.name ∈ publicNames s.table →
      s.table.servesPublicly r.name = true
  | _ => True

instance (s : State) : ∀ label, Decidable (Settled s label)
  | .track i => inferInstanceAs (Decidable (_ ∨ ∀ r ∈ s.requests[i]?, _ → _))
  | .sweep => inferInstanceAs (Decidable (∀ r ∈ s.requests, _ → _ → _))
  | .arrive _ _ | .done _ | .swap _ _ | .cancel _ | .return_ => isTrue trivial

/-- A request in service that was not cancelled is about to be, or is registered under a
name that is served publicly or still to be swept. -/
structure Inv (s : State) : Prop where
  wf : Wf s.table
  named : ∀ r ∈ s.requests, r.name ∈ r.host.domains
  fresh : ∀ (i : Nat) (r : Request) (id : Nat), s.requests[i]? = some r →
    r.phase = .serving id → id ≤ s.next
  distinct : ∀ (i j : Nat) (r r' : Request) (id : Nat), s.requests[i]? = some r →
    s.requests[j]? = some r' → r.viaVPN = false → r'.viaVPN = false →
    r.phase = .serving id → r'.phase = .serving id → i = j
  covered : ∀ (i : Nat) (r : Request) (id : Nat), s.requests[i]? = some r → r.viaVPN = false →
    r.phase = .serving id →
    r.cancelled = true ∨ (∃ pending, s.reload = .cancelling pending ∧ i ∈ pending) ∨
      (⟨publicKey r.host, id, i⟩ ∈ s.open_ ∧
        (s.reload = .swapped ∨ s.table.servesPublicly r.name = true))

theorem fields_publicKey (h : Host) :
    fields (publicKey h).toList = h.domains.map String.toList := by
  rw [publicKey, String.toList_ofList]
  apply fields_joinSpace
  intro word hword
  obtain ⟨d, hd, rfl⟩ := List.mem_map.mp hword
  exact h.names d hd

/-- A key stays public only when each of its host's names is listed publicly. -/
theorem mem_publicNames_of_staysPublic {t : RoutingTable} {h : Host} {d : String}
    (hstays : staysPublic t (publicKey h) = true) (hd : d ∈ h.domains) :
    d ∈ publicNames t := by
  rw [staysPublic, fields_publicKey, List.all_eq_true] at hstays
  simpa using hstays d.toList (List.mem_map_of_mem hd)

namespace Inv

variable {table} {s next : State}

theorem init : Inv PublicRequests.init where
  wf := Wf.empty
  named _ hr := by simp [PublicRequests.init] at hr
  fresh i r id hr _ := by simp [PublicRequests.init] at hr
  distinct i j r r' id hr := by simp [PublicRequests.init] at hr
  covered i r id hr := by simp [PublicRequests.init] at hr

/-- A request that is not in service may be added or put in another's place. -/
theorem of_requests (hinv : Inv s) {requests : List Request}
    (hnamed : ∀ r ∈ requests, r.name ∈ r.host.domains)
    (hold : ∀ (i : Nat) (r : Request) (id : Nat), requests[i]? = some r → r.phase = .serving id →
      s.requests[i]? = some r) :
    Inv { s with requests := requests } where
  wf := hinv.wf
  named := hnamed
  fresh i r id hr hphase := hinv.fresh i r id (hold i r id hr hphase) hphase
  distinct i j r r' id hr hr' hvpn hvpn' hphase hphase' :=
    hinv.distinct i j r r' id (hold i r id hr hphase) (hold j r' id hr' hphase') hvpn hvpn'
      hphase hphase'
  covered i r id hr hvpn hphase := hinv.covered i r id (hold i r id hr hphase) hvpn hphase

theorem arrive (hinv : Inv s) {hostport : String} {viaVPN : Bool}
    (h : arrive table s hostport viaVPN = some next) : Inv next := by
  unfold PublicRequests.arrive at h
  split at h
  · simp at h
  · rename_i r hlookup
    split_ifs at h
    obtain rfl := Option.some.inj h
    obtain ⟨-, hname⟩ := hinv.wf.entry_foundUnder hlookup
    refine hinv.of_requests ?_ ?_
    · intro r' hr'
      rcases List.mem_append.mp hr' with hold | hnew
      · exact hinv.named r' hold
      · obtain rfl := List.mem_singleton.mp hnew
        exact hname
    · intro i r' id hr' hphase
      rcases getElem?_concat_eq_some hr' with ⟨-, rfl⟩ | hold
      · simp at hphase
      · exact hold

theorem track (hinv : Inv s) {i : Nat} (hsettled : Settled s (.track i))
    (h : track s i = some next) : Inv next := by
  unfold PublicRequests.track at h
  split at h
  · rename_i r hr
    split_ifs at h with hphase hvpn
    · obtain rfl := Option.some.inj h
      refine ⟨hinv.wf, ?_, ?_, ?_, ?_⟩
      · intro r' hr'
        rcases List.mem_or_eq_of_mem_set hr' with hold | rfl
        · exact hinv.named r' hold
        · exact hinv.named r (List.mem_of_getElem? hr)
      · intro j r' id hr' hphase'
        rcases getElem?_set_eq_some hr' with ⟨-, rfl⟩ | ⟨-, hold⟩
        · obtain rfl : 0 = id := by simpa using hphase'
          exact Nat.zero_le _
        · exact hinv.fresh j r' id hold hphase'
      · intro j k r₁ r₂ id h₁ h₂ hvpn₁ hvpn₂ hphase₁ hphase₂
        rcases getElem?_set_eq_some h₁ with ⟨-, rfl⟩ | ⟨-, hold₁⟩
        · simp [hvpn] at hvpn₁
        rcases getElem?_set_eq_some h₂ with ⟨-, rfl⟩ | ⟨-, hold₂⟩
        · simp [hvpn] at hvpn₂
        exact hinv.distinct j k r₁ r₂ id hold₁ hold₂ hvpn₁ hvpn₂ hphase₁ hphase₂
      · intro j r' id hr' hvpn' hphase'
        rcases getElem?_set_eq_some hr' with ⟨-, rfl⟩ | ⟨-, hold⟩
        · simp [hvpn] at hvpn'
        · exact hinv.covered j r' id hold hvpn' hphase'
    · obtain rfl := Option.some.inj h
      refine ⟨hinv.wf, ?_, ?_, ?_, ?_⟩
      · intro r' hr'
        rcases List.mem_or_eq_of_mem_set hr' with hold | rfl
        · exact hinv.named r' hold
        · exact hinv.named r (List.mem_of_getElem? hr)
      · intro j r' id hr' hphase'
        rcases getElem?_set_eq_some hr' with ⟨-, rfl⟩ | ⟨-, hold⟩
        · obtain rfl : s.next + 1 = id := by simpa using hphase'
          exact Nat.le_refl _
        · exact Nat.le_succ_of_le (hinv.fresh j r' id hold hphase')
      · -- the new id is above all others
        have hnew : ∀ (j : Nat) (r' : Request) (id : Nat), s.requests[j]? = some r' →
          r'.phase = .serving id →
            Phase.serving (s.next + 1) ≠ .serving id := by
          intro j r' id hold hphase' heq
          have hle := hinv.fresh j r' id hold hphase'
          obtain rfl := Phase.serving.inj heq
          omega
        intro j k r₁ r₂ id h₁ h₂ hvpn₁ hvpn₂ hphase₁ hphase₂
        rcases getElem?_set_eq_some h₁ with ⟨rfl, rfl⟩ | ⟨-, hold₁⟩
        · rcases getElem?_set_eq_some h₂ with ⟨rfl, -⟩ | ⟨-, hold₂⟩
          · rfl
          · exact absurd hphase₁ (hnew k r₂ id hold₂ hphase₂)
        · rcases getElem?_set_eq_some h₂ with ⟨rfl, rfl⟩ | ⟨-, hold₂⟩
          · exact absurd hphase₂ (hnew j r₁ id hold₁ hphase₁)
          · exact hinv.distinct j k r₁ r₂ id hold₁ hold₂ hvpn₁ hvpn₂ hphase₁ hphase₂
      · intro j r' id hr' hvpn' hphase'
        rcases getElem?_set_eq_some hr' with ⟨rfl, rfl⟩ | ⟨-, hold⟩
        · obtain rfl : s.next + 1 = id := by simpa using hphase'
          refine Or.inr (Or.inr ⟨by simp, ?_⟩)
          exact hsettled.imp_right fun hpublic => hpublic r hr hvpn'
        · rcases hinv.covered j r' id hold hvpn' hphase'
            with hcancelled | hpending | ⟨hopen, hpublic⟩
          · exact Or.inl hcancelled
          · exact Or.inr (Or.inl hpending)
          · exact Or.inr (Or.inr ⟨List.mem_append_left _ hopen, hpublic⟩)
  · simp at h

theorem done (hinv : Inv s) {i : Nat} (h : done s i = some next) : Inv next := by
  unfold PublicRequests.done at h
  split at h
  · rename_i r hr
    split at h
    · rename_i id hphase
      obtain rfl := Option.some.inj h
      refine ⟨hinv.wf, ?_, ?_, ?_, ?_⟩
      · intro r' hr'
        rcases List.mem_or_eq_of_mem_set hr' with hold | rfl
        · exact hinv.named r' hold
        · exact hinv.named r (List.mem_of_getElem? hr)
      · intro j r' id' hr' hphase'
        rcases getElem?_set_eq_some hr' with ⟨-, rfl⟩ | ⟨-, hold⟩
        · simp at hphase'
        · exact hinv.fresh j r' id' hold hphase'
      · intro j k r₁ r₂ id' h₁ h₂ hvpn₁ hvpn₂ hphase₁ hphase₂
        rcases getElem?_set_eq_some h₁ with ⟨-, rfl⟩ | ⟨-, hold₁⟩
        · simp at hphase₁
        rcases getElem?_set_eq_some h₂ with ⟨-, rfl⟩ | ⟨-, hold₂⟩
        · simp at hphase₂
        exact hinv.distinct j k r₁ r₂ id' hold₁ hold₂ hvpn₁ hvpn₂ hphase₁ hphase₂
      · intro j r' id' hr' hvpn' hphase'
        rcases getElem?_set_eq_some hr' with ⟨-, rfl⟩ | ⟨hne, hold⟩
        · simp at hphase'
        rcases hinv.covered j r' id' hold hvpn' hphase'
          with hcancelled | hpending | ⟨hopen, hpublic⟩
        · exact Or.inl hcancelled
        · exact Or.inr (Or.inl hpending)
        · refine Or.inr (Or.inr ⟨?_, hpublic⟩)
          show _ ∈ (if r.viaVPN then s.open_ else _)
          split_ifs with hvpn
          · exact hopen
          · -- another request's id is another
            refine List.mem_filter.mpr ⟨hopen, ?_⟩
            have hid : id' ≠ id := by
              rintro rfl
              exact hne (hinv.distinct j i r' r id' hold hr hvpn' (by simpa using hvpn) hphase'
                hphase)
            simp [hid]
    · simp at h
  · simp at h

theorem sweep (hinv : Inv s) (hswapped : s.reload = .swapped) (hsettled : Settled s .sweep) :
    Inv (sweep s) where
  wf := hinv.wf
  named := hinv.named
  fresh := hinv.fresh
  distinct := hinv.distinct
  covered i r id hr hvpn hphase := by
    rcases hinv.covered i r id hr hvpn hphase with hcancelled | ⟨pending, hpending, -⟩ | ⟨hopen, -⟩
    · exact Or.inl hcancelled
    · simp [hswapped] at hpending
    · right
      cases hstays : staysPublic s.table (publicKey r.host) with
      | true =>
          have hmem := List.mem_of_getElem? hr
          have hlisted := mem_publicNames_of_staysPublic hstays (hinv.named r hmem)
          have hpublic : r.public = true := by simp [Request.public, hvpn, hphase]
          exact Or.inr ⟨List.mem_filter.mpr ⟨hopen, hstays⟩,
            Or.inr (hsettled r hmem hpublic hlisted)⟩
      | false =>
          refine Or.inl ⟨_, rfl, List.mem_map.mpr ⟨_, List.mem_filter.mpr ⟨hopen, ?_⟩, rfl⟩⟩
          simp [hstays]

theorem cancel (hinv : Inv s) {i : Nat} {pending : List Nat}
    (hreload : s.reload = .cancelling pending) :
    Inv { cancelRequest s i with reload := .cancelling (pending.erase i) } := by
  -- the requests are those of before, one of them with another context
  have hold : ∀ (j : Nat) (r : Request), (cancelRequest s i).requests[j]? = some r →
      ∃ r', s.requests[j]? = some r' ∧ r = { r' with cancelled := r'.cancelled || j == i } := by
    intro j r hr
    simp only [cancelRequest, List.getElem?_modify] at hr
    obtain ⟨r', hr', heq⟩ := Option.map_eq_some_iff.mp hr
    refine ⟨r', hr', ?_⟩
    by_cases hij : i = j
    · subst hij
      simp [← heq]
    · have hji : j ≠ i := fun h => hij h.symm
      rw [beq_false_of_ne hji, Bool.or_false, ← heq, if_neg hij]
  refine ⟨hinv.wf, ?_, ?_, ?_, ?_⟩
  · intro r hr
    obtain ⟨j, hj⟩ := List.getElem?_of_mem hr
    obtain ⟨r', hr', rfl⟩ := hold j r hj
    exact hinv.named r' (List.mem_of_getElem? hr')
  · intro j r id hr hphase
    obtain ⟨r', hr', rfl⟩ := hold j r hr
    exact hinv.fresh j r' id hr' hphase
  · intro j k r₁ r₂ id h₁ h₂ hvpn₁ hvpn₂ hphase₁ hphase₂
    obtain ⟨r₁', h₁', rfl⟩ := hold j r₁ h₁
    obtain ⟨r₂', h₂', rfl⟩ := hold k r₂ h₂
    exact hinv.distinct j k r₁' r₂' id h₁' h₂' hvpn₁ hvpn₂ hphase₁ hphase₂
  · intro j r id hr hvpn hphase
    obtain ⟨r', hr', rfl⟩ := hold j r hr
    by_cases hji : j = i
    · exact Or.inl (by simp [hji])
    rcases hinv.covered j r' id hr' hvpn hphase
      with hcancelled | ⟨_, hpending, hj⟩ | ⟨hopen, hpublic⟩
    · exact Or.inl (by simp [hcancelled])
    · obtain rfl := Reload.cancelling.inj (hreload.symm.trans hpending)
      exact Or.inr (Or.inl ⟨_, rfl, (List.mem_erase_of_ne hji).mpr hj⟩)
    · exact Or.inr (Or.inr ⟨hopen, Or.inr (hpublic.resolve_left (by simp [hreload]))⟩)

/-- **Every step keeps the invariant, as long as it is a settled one.** -/
theorem step (hinv : Inv s) {label : Label} (hsettled : Settled s label)
    (h : step table s label = some next) : Inv next := by
  cases label with
  | arrive hostport viaVPN => exact hinv.arrive h
  | track i => exact hinv.track hsettled h
  | done i => exact hinv.done h
  | swap hosts docker =>
      simp only [PublicRequests.step] at h
      split_ifs at h with hidle
      obtain rfl := Option.some.inj h
      refine ⟨wf_buildTable hosts docker, hinv.named, hinv.fresh, hinv.distinct, ?_⟩
      intro i r id hr hvpn hphase
      rcases hinv.covered i r id hr hvpn hphase with hcancelled | ⟨_, hpending, -⟩ | ⟨hopen, -⟩
      · exact Or.inl hcancelled
      · simp [hidle] at hpending
      · exact Or.inr (Or.inr ⟨hopen, Or.inl rfl⟩)
  | sweep =>
      simp only [PublicRequests.step] at h
      split_ifs at h with hswapped
      obtain rfl := Option.some.inj h
      exact hinv.sweep hswapped hsettled
  | cancel i =>
      simp only [PublicRequests.step] at h
      split at h
      · split_ifs at h
        obtain rfl := Option.some.inj h
        exact hinv.cancel ‹_›
      · simp at h
  | return_ =>
      simp only [PublicRequests.step] at h
      split_ifs at h with hnone
      obtain rfl := Option.some.inj h
      refine ⟨hinv.wf, hinv.named, hinv.fresh, hinv.distinct, ?_⟩
      intro i r id hr hvpn hphase
      rcases hinv.covered i r id hr hvpn hphase
        with hcancelled | ⟨_, hpending, hi⟩ | ⟨hopen, hpublic⟩
      · exact Or.inl hcancelled
      · obtain rfl := Reload.cancelling.inj (hnone.symm.trans hpending)
        simp at hi
      · exact Or.inr (Or.inr ⟨hopen, Or.inr (hpublic.resolve_left (by simp [hnone]))⟩)

end Inv

/-! ### After a reload

The invariant at a moment when no reload is in progress leaves one case: the request is
registered, under a name that is served publicly. -/

/-- **Taking a host off the public side ends its public requests** in every run whose
steps are all settled: whenever no reload is in progress, whoever is still served from
outside by a route that is gone or for the tunnel only has been cancelled. -/
theorem ended_when_reload_returned (labels : List Label) (s : State)
    (hrun : run (step table) init labels = some s)
    (hsettled : RunMeets (step table) Settled init labels) : Ended s := by
  have hinv : Inv s :=
    hsettled.invariant (fun _ _ _ hinv hsettled hstep => hinv.step hsettled hstep) Inv.init hrun
  intro hidle r hr hpublic hgone
  obtain ⟨i, hi⟩ := List.getElem?_of_mem hr
  simp only [Request.public, Bool.and_eq_true, Bool.not_eq_true'] at hpublic
  obtain ⟨hvpn, hserving⟩ := hpublic
  split at hserving
  · rename_i id hphase
    rcases hinv.covered i r id hi hvpn hphase with hcancelled | ⟨_, hpending, -⟩ | ⟨-, hstill⟩
    · exact hcancelled
    · simp [hidle] at hpending
    · exact absurd (hstill.resolve_left (by simp [hidle])) (by simp [hgone])
  · simp at hserving

/-! ### Two runs

The same host leaves the public side while a request of it is served, and while one is between
its lookup and its registration. -/

/-- One public host, and the same host for the tunnel only. -/
def appHost (vpnOnly : Bool) : Host where
  domains := ["app.example"]
  enabled := true
  vpnOnly := vpnOnly
  names := by decide

/-- The table is swapped and swept while the request is served. -/
def orderly : List Label :=
  [.swap [appHost false] [], .sweep, .return_, .arrive "app.example:443" false, .track 0,
    .swap [appHost true] [], .sweep, .cancel 0, .return_]

theorem ended_when_reload_returned_orderly :
    ∃ s, run (step ⟨id, id⟩) init orderly = some s ∧ Ended s :=
  ⟨(run (step ⟨id, id⟩) init orderly).get (by decide), by simp,
    ended_when_reload_returned ⟨id, id⟩ orderly _ (by simp) (by decide)⟩

/-- **A request between its lookup and its registration is missed.** The reload that
takes its host off the public side returns before it registers, and nothing ends it. -/
theorem left_connected :
    ∃ s, run (step ⟨id, id⟩) init [.swap [appHost false] [], .sweep, .return_,
        .arrive "app.example:443" false, .swap [appHost true] [], .sweep, .return_,
        .track 0] = some s ∧ ¬ Ended s := by
  refine ⟨(run (step ⟨id, id⟩) init [.swap [appHost false] [], .sweep, .return_,
        .arrive "app.example:443" false, .swap [appHost true] [], .sweep, .return_,
        .track 0]).get (by decide), by simp, by decide⟩

/-! ### The sweep and the table

A key stays public when the sweep's set holds one of its names, whoever has listed it.  A route
is served under the names it was placed under.  The two agree where hosts are placed whole. -/

/-- The sweep takes the entry out and cancels its request. -/
def Cancels (s : State) (o : Open) : Prop :=
  o ∉ (sweep s).open_ ∧ ∃ pending, (sweep s).reload = .cancelling pending ∧ o.request ∈ pending

/-- One of the names of a key is not served publicly. -/
def LeavesPublic (t : RoutingTable) (key : String) : Prop :=
  ∃ d ∈ fields key.toList, t.servesPublicly (String.ofList d) = false

/-- The sweep of a table ends exactly the tracked requests of which a name is not served
publicly. -/
def SweepExact (t : RoutingTable) : Prop :=
  ∀ s : State, s.table = t → (∀ o ∈ s.open_, ∃ h, o.key = publicKey h) →
    ∀ o ∈ s.open_, Cancels s o ↔ LeavesPublic t o.key

def HasRoute (t : RoutingTable) (r : Route) : Prop :=
  (∃ d, t.exact.lookup d = some r) ∨ ∃ key, t.wildcard.lookup key = some r

/-- A host that has a public route has one under each of its names. -/
def PlacedWhole (t : RoutingTable) : Prop :=
  ∀ r, HasRoute t r → r.host.vpnOnly = false → ∀ d ∈ r.host.domains, t.servesPublicly d = true

theorem cancels_iff {s : State} {o : Open} (ho : o ∈ s.open_) :
    Cancels s o ↔ staysPublic s.table o.key = false := by
  constructor
  · rintro ⟨hout, -⟩
    by_contra hstays
    exact hout (List.mem_filter.mpr ⟨ho, by simpa using hstays⟩)
  · intro hgone
    refine ⟨fun hin => ?_, _, rfl, ?_⟩
    · rw [(List.mem_filter.mp hin).2] at hgone
      cases hgone
    · refine List.mem_map.mpr ⟨o, List.mem_filter.mpr ⟨ho, ?_⟩, rfl⟩
      rw [hgone]
      rfl

theorem mem_publicNames {t : RoutingTable} {d : String} :
    d ∈ publicNames t ↔ ∃ r, HasRoute t r ∧ r.host.vpnOnly = false ∧ d ∈ r.host.domains := by
  simp only [publicNames, List.mem_flatMap, List.mem_append]
  constructor
  · rintro ⟨e, he, hd⟩
    split at hd
    · cases hd
    · rename_i hpublic
      refine ⟨e.2, ?_, by simpa using hpublic, hd⟩
      rcases he with he | he
      · exact Or.inl ⟨e.1, Option.mem_def.mp (AList.mem_lookup_iff.mpr he)⟩
      · exact Or.inr ⟨e.1, Option.mem_def.mp (AList.mem_lookup_iff.mpr he)⟩
  · rintro ⟨r, (⟨k, hk⟩ | ⟨k, hk⟩), hpublic, hd⟩
    · refine ⟨⟨k, r⟩, Or.inl (AList.mem_lookup_iff.mp (Option.mem_def.mpr hk)), ?_⟩
      simpa [hpublic] using hd
    · refine ⟨⟨k, r⟩, Or.inr (AList.mem_lookup_iff.mp (Option.mem_def.mpr hk)), ?_⟩
      simpa [hpublic] using hd

/-- What is served publicly is listed. -/
theorem mem_publicNames_of_serves {t : RoutingTable} (ht : Wf t) {d : String}
    (h : t.servesPublicly d = true) : d ∈ publicNames t := by
  unfold RoutingTable.servesPublicly at h
  cases hr : t.entry d with
  | none =>
    rw [hr] at h
    cases h
  | some r =>
    have hpublic : r.host.vpnOnly = false := by simpa [hr] using h
    unfold RoutingTable.entry at hr
    split at hr
    · rename_i key hkey
      refine mem_publicNames.mpr ⟨r, Or.inr ⟨key, hr⟩, hpublic, ?_⟩
      rw [wildcardKey_eq_some hkey]
      exact ht.wildcard key r hr
    · exact mem_publicNames.mpr ⟨r, Or.inl ⟨d, hr⟩, hpublic, (ht.exact d r hr).1⟩

theorem SweepExact.placedWhole {t : RoutingTable} (hexact : SweepExact t) : PlacedWhole t := by
  intro r hr hpublic d hname
  have hd : d ∈ publicNames t := mem_publicNames.mpr ⟨r, hr, hpublic, hname⟩
  -- a request of a host with this one name shows what the sweep makes of it
  let single : Host := ⟨[d], true, false, by simpa using r.host.names d hname⟩
  let s : State := { init with table := t, open_ := [⟨publicKey single, 1, 0⟩] }
  have hkeys : ∀ o ∈ s.open_, ∃ h, o.key = publicKey h := by
    intro o ho
    exact ⟨single, by rw [List.mem_singleton.mp ho]⟩
  have hfields : fields (publicKey single).toList = [d.toList] := fields_publicKey single
  have hsweep := hexact s rfl hkeys ⟨publicKey single, 1, 0⟩ List.mem_cons_self
  have hstays : staysPublic t (publicKey single) = true := by
    simp [staysPublic, hfields, hd]
  by_contra hserves
  have hleaves : LeavesPublic t (publicKey single) := by
    refine ⟨d.toList, by rw [hfields]; exact List.mem_cons_self, ?_⟩
    rw [String.ofList_toList]
    simpa using hserves
  rw [(cancels_iff (s := s) List.mem_cons_self).mp (hsweep.mpr hleaves)] at hstays
  cases hstays

theorem PlacedWhole.sweepExact {t : RoutingTable} (ht : Wf t) (hwhole : PlacedWhole t) :
    SweepExact t := by
  intro s hs _ o ho
  rw [cancels_iff ho, hs, staysPublic, List.all_eq_false]
  constructor
  · rintro ⟨d, hd, hnot⟩
    refine ⟨d, hd, ?_⟩
    by_contra hserves
    refine hnot (List.contains_iff_mem.mpr ?_)
    exact mem_publicNames_of_serves ht (by simpa using hserves)
  · rintro ⟨d, hd, hserves⟩
    refine ⟨d, hd, fun hin => ?_⟩
    obtain ⟨r, hr, hpublic, hname⟩ := mem_publicNames.mp (List.contains_iff_mem.mp hin)
    rw [hwhole r hr hpublic _ hname] at hserves
    cases hserves

/-- The sweep of a table that a reload builds is exact when the hosts with a public route are placed
under each of their names, and only then. -/
theorem sweep_exact_iff (hosts docker : List Host) :
    SweepExact (buildTable hosts docker) ↔ PlacedWhole (buildTable hosts docker) :=
  ⟨SweepExact.placedWhole, PlacedWhole.sweepExact (wf_buildTable hosts docker)⟩

def heldHost : Host where
  domains := ["b.example"]
  enabled := false
  vpnOnly := false
  names := by decide

def boxHost : Host where
  domains := ["a.example", "b.example"]
  enabled := true
  vpnOnly := false
  names := by decide

/-- **A name that was taken from a container counts as public.** A request under the disabled host's
name outlives the sweep. -/
theorem held_name_counts_as_public : ¬ SweepExact (buildTable [heldHost] [boxHost]) := by
  intro hexact
  have hroute : HasRoute (buildTable [heldHost] [boxHost]) ⟨boxHost⟩ :=
    Or.inl ⟨"a.example", by decide⟩
  have hserves := hexact.placedWhole _ hroute rfl "b.example" (by decide)
  revert hserves
  decide

end Quicgate.PublicRequests
