import Quicgate.GoMaps
import Quicgate.GoNet

/-!
# The routing table

How a reload builds the table of hosts (`Reload.place` in
`internal/engine/engine.go`) and how a request finds its route in it.  Of a host
the model has what placing and finding it read.  Names are carried with the
property that host validation gives them: they are not empty and hold no white
space.

`buildTable` is the reload's loop: database hosts first, then the Docker hosts,
which never take a name that is there.  `Wf` is the invariant of the loop, and
`Wf.entry_foundUnder` what requests get from it: the route of a request is the
entry of a name that the route's own host has.  `DockerRoutes` and
`PublicRequests` start from this.
-/

namespace Quicgate.Routing

open Quicgate.GoMaps Quicgate.GoStrings Quicgate.GoNet

def IsName (d : String) : Prop := d.toList ≠ [] ∧ ∀ c ∈ d.toList, isSpace c = false

instance (d : String) : Decidable (IsName d) :=
  @instDecidableAnd _ _ inferInstance (List.decidableBAll (fun c => isSpace c = false) d.toList)

structure Host where
  domains : List String
  enabled : Bool
  vpnOnly : Bool
  names : ∀ d ∈ domains, IsName d
deriving DecidableEq

structure Route where
  host : Host
deriving DecidableEq

structure RoutingTable where
  exact : GoMap String Route -- "app.example.com"
  wildcard : GoMap String Route -- "example.com" for "*.example.com"

/-! ### Finding a route

A name is looked up as it is, and else under the wildcard `*.` of what follows its first dot. -/

/-- A Host header or SNI as routing reads it: lower case, no port, no trailing
dot. -/
def routeName (table : CaseTable) (hostport : String) : String :=
  let name := toLower table hostport
  let name := match splitHostPort name.toList with
    | some (host, _) => host
    | none => name.toList
  String.ofList (if name.getLast? = some '.' then name.dropLast else name)

/-- What follows the first dot of a name, when something precedes it. -/
def parentName (name : String) : Option String :=
  match cut '.' name.toList with
  | (_ :: _, parent, true) => some (String.ofList parent)
  | _ => none

/-- The route under an exact name, else under the wildcard one label up. -/
def RoutingTable.find (t : RoutingTable) (name : String) : Option Route :=
  match t.exact.lookup name with
  | some r => some r
  | none => (parentName name).bind t.wildcard.lookup

def RoutingTable.lookup (t : RoutingTable) (table : CaseTable) (hostport : String) :
    Option Route :=
  t.find (routeName table hostport)

/-- The suffix of a wildcard name `*.suffix`. -/
def wildcardKey (d : String) : Option String :=
  match d.toList with
  | '*' :: '.' :: rest => some (String.ofList rest)
  | _ => none

def starName (key : String) : String := String.ofList ('*' :: '.' :: key.toList)

theorem wildcardKey_eq_some {d key : String} (h : wildcardKey d = some key) :
    d = starName key := by
  unfold wildcardKey at h
  split at h
  · rename_i rest hd
    obtain rfl : String.ofList rest = key := by simpa using h
    rw [starName, String.toList_ofList, ← hd, String.ofList_toList]
  · simp at h

@[simp] theorem wildcardKey_starName (key : String) :
    wildcardKey (starName key) = some key := by
  simp only [wildcardKey, starName, String.toList_ofList, String.ofList_toList]

/-! ### Building the table

A database host covers its names whether it is enabled or not; `entry` reads the built table
at a configured name, exact or wildcard. -/

/-- A database host has the name `d`, or a wildcard that covers it. Disabled hosts
count. -/
def configured (hosts : List Host) (d : String) : Bool :=
  let parent := if (wildcardKey d).isSome then none
    else (parentName d).map starName
  hosts.any fun m => m.domains.any fun md => md == d || some md == parent

/-- One name of one host, installed unless it comes from Docker and is taken. -/
def placeName (hosts : List Host) (fromDocker : Bool) (r : Route) (t : RoutingTable)
    (d : String) : RoutingTable :=
  if fromDocker && configured hosts d then t
  else match wildcardKey d with
    | some key =>
        if fromDocker && (t.wildcard.lookup key).isSome then t
        else { t with wildcard := t.wildcard.insert key r }
    | none =>
        if fromDocker && (t.exact.lookup d).isSome then t
        else { t with exact := t.exact.insert d r }

def place (hosts : List Host) (fromDocker : Bool) (t : RoutingTable) (h : Host) :
    RoutingTable :=
  if h.enabled then h.domains.foldl (placeName hosts fromDocker ⟨h⟩) t else t

/-- The table of a reload: database hosts first, then the Docker hosts. -/
def buildTable (hosts docker : List Host) : RoutingTable :=
  docker.foldl (place hosts true) (hosts.foldl (place hosts false) ⟨∅, ∅⟩)

/-- The entry a table has for one configured name. -/
def RoutingTable.entry (t : RoutingTable) (d : String) : Option Route :=
  match wildcardKey d with
  | some key => t.wildcard.lookup key
  | none => t.exact.lookup d

/-- The table serves the name `d` on the public side. -/
def RoutingTable.servesPublicly (t : RoutingTable) (d : String) : Bool :=
  (t.entry d).any fun r => !r.host.vpnOnly

/-! ### Tables that a reload builds -/

/-- The configured name whose entry a lookup of `name` returns. -/
def foundUnder (t : RoutingTable) (name : String) : String :=
  if (t.exact.lookup name).isSome then name
  else starName ((parentName name).getD "")

/-- Every entry is one of its host's names, and exact entries are not wildcards. -/
structure Wf (t : RoutingTable) : Prop where
  exact : ∀ d r, t.exact.lookup d = some r → d ∈ r.host.domains ∧ wildcardKey d = none
  wildcard : ∀ key r, t.wildcard.lookup key = some r →
    starName key ∈ r.host.domains

theorem Wf.empty : Wf ⟨∅, ∅⟩ :=
  ⟨fun _ _ h => by simp at h, fun _ _ h => by simp at h⟩

theorem Wf.placeName {hosts : List Host} {fromDocker : Bool} {r : Route} {t : RoutingTable}
    {d : String} (ht : Wf t) (hd : d ∈ r.host.domains) :
    Wf (placeName hosts fromDocker r t d) := by
  unfold Routing.placeName
  by_cases hskip : (fromDocker && configured hosts d) = true
  · rwa [if_pos hskip]
  rw [if_neg hskip]
  cases hkey : wildcardKey d with
  | some key =>
      simp only
      split_ifs
      · exact ht
      refine ⟨ht.exact, ?_⟩
      intro key' r' hlookup
      by_cases heq : key' = key
      · subst heq
        obtain rfl : r = r' := by simpa using hlookup
        rwa [← wildcardKey_eq_some hkey]
      · exact ht.wildcard key' r' (by simpa [AList.lookup_insert_ne heq] using hlookup)
  | none =>
      simp only
      split_ifs
      · exact ht
      refine ⟨?_, ht.wildcard⟩
      intro d' r' hlookup
      by_cases heq : d' = d
      · subst heq
        obtain rfl : r = r' := by simpa using hlookup
        exact ⟨hd, hkey⟩
      · exact ht.exact d' r' (by simpa [AList.lookup_insert_ne heq] using hlookup)

theorem Wf.foldl_placeName {hosts : List Host} {fromDocker : Bool} {r : Route}
    {names : List String} {t : RoutingTable} (ht : Wf t)
    (hnames : ∀ d ∈ names, d ∈ r.host.domains) :
    Wf (names.foldl (Routing.placeName hosts fromDocker r) t) := by
  induction names generalizing t with
  | nil => exact ht
  | cons d rest ih =>
      exact ih (ht.placeName (hnames d List.mem_cons_self))
        fun d' hd' => hnames d' (List.mem_cons_of_mem _ hd')

theorem Wf.place {hosts : List Host} {fromDocker : Bool} {t : RoutingTable} {h : Host}
    (ht : Wf t) : Wf (place hosts fromDocker t h) := by
  unfold Routing.place
  split_ifs
  · exact ht.foldl_placeName fun _ hd => hd
  · exact ht

theorem Wf.foldl_place {hosts : List Host} {fromDocker : Bool} {placed : List Host}
    {t : RoutingTable} (ht : Wf t) : Wf (placed.foldl (Routing.place hosts fromDocker) t) := by
  induction placed generalizing t with
  | nil => exact ht
  | cons h rest ih => exact ih ht.place

theorem wf_buildTable (hosts docker : List Host) : Wf (buildTable hosts docker) :=
  Wf.empty.foldl_place.foldl_place

/-- The route that a lookup finds is the entry of one of its own names. -/
theorem Wf.entry_foundUnder {t : RoutingTable} (ht : Wf t) {name : String} {r : Route}
    (h : t.find name = some r) :
    t.entry (foundUnder t name) = some r ∧ foundUnder t name ∈ r.host.domains := by
  unfold RoutingTable.find at h
  cases hexact : t.exact.lookup name with
  | some r' =>
      obtain rfl : r' = r := by simpa [hexact] using h
      obtain ⟨hd, hkey⟩ := ht.exact name r' hexact
      have hfound : foundUnder t name = name := by simp [foundUnder, hexact]
      rw [hfound]
      exact ⟨by rw [RoutingTable.entry, hkey]; exact hexact, hd⟩
  | none =>
      simp only [hexact, Option.bind_eq_some_iff] at h
      obtain ⟨parent, hparent, hlookup⟩ := h
      have hfound : foundUnder t name = starName parent := by
        simp [foundUnder, hexact, hparent]
      simp [hfound, RoutingTable.entry, hlookup, ht.wildcard parent r hlookup]

end Quicgate.Routing
