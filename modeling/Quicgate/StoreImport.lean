import Quicgate.StoreDb

/-!
# Importing a document

`Import` (`internal/store/import.go`): every entry of a document is matched to what
is stored by a natural key (an access list by its name, a host by its set of names, a
stream by port and protocol) and updated in place, or created.  The maps of stored
entries are read before the first entry of a kind; a created entry is added to its
map, an updated one is not.

`importDoc` is what is done within the transaction, and `importTx` the transaction around it:
the deferred `Rollback` undoes what a refused document has written by then.

`ImportGates` and `ImportKinds` ask what an import may change, and `ImportAgain` when it can
be repeated.
-/

namespace Quicgate.Store

open Quicgate.GoStrings Quicgate.Access Quicgate.Checks Quicgate.Sql

/-- The document. A list carries its id, the document's own, for the references to it;
the ids of hosts and streams are not looked at. -/
structure ImportDoc where
  accessLists : List (Int × AccessListInput)
  hosts : List Host
  streams : List Stream
deriving DecidableEq, Repr

structure Tally where
  created : Nat
  updated : Nat
deriving DecidableEq, Repr

structure ImportResult where
  accessLists : Tally
  hosts : Tally
  streams : Tally
deriving DecidableEq, Repr

/-- A loop over the entries of one kind: the database, the map of stored entries by
key, and the count. A key that is set again hides its older entry. -/
structure Importing (α : Type) where
  db : Db
  stored : List (String × Int × α)
  tally : Tally

def Importing.updated {α : Type} (s : Importing α) (db : Db) : Importing α :=
  { s with db, tally := { s.tally with updated := s.tally.updated + 1 } }

def Importing.created {α : Type} (s : Importing α) (db : Db) (key : String) (id : Int) (v : α) :
    Importing α :=
  { db, stored := (key, id, v) :: s.stored,
    tally := { s.tally with created := s.tally.created + 1 } }

/-- The map of the listed rows: of two rows with one key the later one stays. -/
def storedBy {α : Type} (key : α → String) (rows : List (Int × α)) : List (String × Int × α) :=
  (rows.map fun row => (key row.2, row)).reverse

/-! ### Keys and guards

The keys are texts: the sorted names of a host, the port and protocol of a stream.  An update must
not take a protection away; `protectionRemoved` names the first that it would. -/

def domainKey (lib : Lib) (domains : List String) : String :=
  let names := (domains.map fun d => toLower lib.caseTable (trim d)).filter (· ≠ "")
  String.ofList (List.intercalate [','] ((names.insertionSort (· ≤ ·)).map String.toList))

def streamKey (st : Stream) : String := printInt st.listenPort ++ "/" ++ st.protocol

/-- A gate rule of `cur` that `next` has no gate for. -/
def AuthRule.lostIn (next : List AuthRule) (rule : AuthRule) : Bool :=
  rule.mode != "public" &&
    !next.any fun n => n.path == rule.path && n.exact == rule.exact && n.mode != "public"

/-- `protectionRemoved`: what an entry would take away from the host it updates. -/
def protectionRemoved (cur next : Host) : String :=
  if cur.accessListID.isSome ∧ next.accessListID = none then "access list"
  else if cur.options.oidc.isSome ∧ next.options.oidc = none then "SSO"
  else if cur.options.hasForwardAuth ∧ next.options.hasForwardAuth = false then
    "forward authentication"
  else if cur.options.clientCert.isSome ∧ next.options.clientCert = none then
    "client certificate requirement"
  else if clientCertMode cur.options.clientCert = "require" ∧
      clientCertMode next.options.clientCert ≠ "require" then
    "client certificate requirement (require would become " ++
      clientCertMode next.options.clientCert ++ ")"
  else if cur.options.vpnOnly ∧ next.options.vpnOnly = false then "VPN-only restriction"
  else if cur.certMode ≠ "none" ∧ next.certMode = "none" then "TLS (certMode would become none)"
  else if cur.forceSSL ∧ next.forceSSL = false then "forced HTTPS redirect (forceSsl)"
  else if cur.options.minTLSVersion = "1.3" ∧ next.options.minTLSVersion ≠ "1.3" then
    "TLS 1.3 minimum (minTlsVersion)"
  else match cur.options.authRules.find? (·.lostIn next.options.authRules) with
    | some rule => rule.mode ++ " gate on " ++ rule.path
    | none => ""

def Stream.restricted (st : Stream) : Bool := st.accessListID.isSome || st.allowedCIDRs ≠ []

/-! ### Access lists

A document has ids of its own.  `bindList` remembers what they became, and the references of hosts
and streams are rebound before their turn. -/

variable (lib : Lib)

def bindList (docID id : Int) (docLists : List (Int × Int)) : List (Int × Int) :=
  if docID = 0 then docLists else (docID, id) :: docLists

def importList (salt : Nat → Nat → Salt) (n : Nat)
    (s : Importing AccessList × List (Int × Int)) (entry : Int × AccessListInput) :
    Check (Importing AccessList × List (Int × Int)) := do
  let a := { entry.2 with name := trim entry.2.name }
  match s.1.stored.lookup a.name with
  | some (id, cur) => do
      refuseIf ((cur.rules ≠ [] ∨ cur.users ≠ []) ∧ a.rules = [] ∧ a.users = [])
        (s!"access list {n} (" ++ a.name ++
          "): the document has no rules or users for it, so it " ++
          "would admit everyone; change it in the UI or API instead")
      let db ← within (s!"access list {n} (" ++ a.name ++ "): ")
        (updateAccessList lib s.1.db (salt n) id a)
      return (s.1.updated db, bindList entry.1 id s.2)
  | none => do
      let (db, list) ← within (s!"access list {n} (" ++ a.name ++ "): ")
        (createAccessList lib s.1.db (salt n) a)
      let id := s.1.db.accessLists.seq + 1
      return (s.1.created db list.name id list, bindList entry.1 id s.2)

/-- `local`: a reference to a list the document defines, under its id here. -/
def rebind (docLists : List (Int × Int)) (ref : Option Int) : Option Int :=
  ref.map fun id => (docLists.lookup id).getD id

def AuthRule.bound (docLists : List (Int × Int)) (r : AuthRule) : AuthRule :=
  { r with accessListID := rebind docLists r.accessListID }

def Host.bound (docLists : List (Int × Int)) (h : Host) : Host :=
  { h with
    accessListID := rebind docLists h.accessListID
    options := { h.options with authRules := h.options.authRules.map (·.bound docLists) } }

def Stream.bound (docLists : List (Int × Int)) (st : Stream) : Stream :=
  { st with
    accessListID := rebind docLists st.accessListID
    protocol := if st.protocol = "" then "tcp" else st.protocol }

/-! ### Hosts and streams

The turn of an entry: find it under its key, check what it would take away, and update or create. -/

/-- The host stored under the key of an entry; an entry without names has no key. -/
def Importing.storedUnder (s : Importing Host) (h : Host) : Option (Int × Host) :=
  if domainKey lib h.domains = "" then none else s.stored.lookup (domainKey lib h.domains)

def importHost (n : Nat) (s : Importing Host) (h : Host) : Check (Importing Host) :=
  let key := domainKey lib h.domains
  match s.storedUnder lib h with
  | some (id, cur) => do
      refuseIf (protectionRemoved cur h ≠ "")
        (s!"host {n} (" ++ key ++ "): the document would remove its " ++ protectionRemoved cur h ++
          "; include it, or change the host in the UI or API")
      let db ← within (s!"host {n} (" ++ key ++ "): ") (updateHost lib s.db id h)
      return s.updated db
  | none => do
      let (db, kept) ← within (s!"host {n} (" ++ key ++ "): ") (createHost lib s.db 0 h)
      return s.created db (domainKey lib kept.domains) (s.db.hosts.seq + 1) kept

def importStream (reserved : List Int) (n : Nat) (s : Importing Stream) (st : Stream) :
    Check (Importing Stream) :=
  let place := s!"stream {n} (:" ++ printInt st.listenPort ++ "/" ++ st.protocol ++ "): "
  match s.stored.lookup (streamKey st) with
  | some (id, cur) => do
      refuseIf (cur.restricted = true ∧ st.restricted = false)
        (place ++ "the document would remove its source restriction; include it, or change the " ++
          "stream in the UI or API")
      let db ← within place (updateStream lib s.db reserved id st)
      return s.updated db
  | none => do
      let (db, kept) ← within place (createStream lib s.db reserved 0 st)
      return s.created db (streamKey kept) (s.db.streams.seq + 1) kept

/-! ### The document

The three kinds come one after the other, lists first. -/

def importLists (salt : Nat → Nat → Salt) (db : Db) (lists : List (Int × AccessListInput)) :
    Check (Importing AccessList × List (Int × Int)) :=
  foldEach (importList lib salt) 1 (⟨db, storedBy (·.name) db.accessLists.rows, ⟨0, 0⟩⟩, []) lists

def importHosts (db : Db) (hosts : List Host) : Check (Importing Host) :=
  foldEach (importHost lib) 1
    ⟨db, storedBy (fun h => domainKey lib h.domains) db.hosts.rows, ⟨0, 0⟩⟩
    hosts

def importStreams (reserved : List Int) (db : Db) (streams : List Stream) :
    Check (Importing Stream) :=
  foldEach (importStream lib reserved) 1 ⟨db, storedBy streamKey (listStreams db), ⟨0, 0⟩⟩ streams

/-- `Import`, from the first listing to the last entry. -/
def importDoc (salt : Nat → Nat → Salt) (reserved : List Int) (doc : ImportDoc) (db : Db) :
    Check (Db × ImportResult) := do
  let lists ← importLists lib salt db doc.accessLists
  let hosts ← importHosts lib lists.1.db (doc.hosts.map (·.bound lists.2))
  let streams ← importStreams lib reserved hosts.db (doc.streams.map (·.bound lists.2))
  return (streams.db, ⟨lists.1.tally, hosts.tally, streams.tally⟩)

/-- `Import`: what is stored afterwards, and the answer. -/
def importTx (salt : Nat → Nat → Salt) (reserved : List Int) (doc : ImportDoc) (db : Db) :
    Db × Check ImportResult :=
  match importDoc lib salt reserved doc db with
  | .ok (db', result) => (db', .ok result)
  | .error why => (db, .error why)

/-! ### What a turn does

As for the functions of the store, one lemma about the success of each turn. -/

variable {lib}

theorem importList_eq_ok {salt : Nat → Nat → Salt} {n : Nat}
    {s s' : Importing AccessList × List (Int × Int)} {entry : Int × AccessListInput} :
    importList lib salt n s entry = .ok s' ↔
      (∃ id cur db, s.1.stored.lookup (trim entry.2.name) = some (id, cur) ∧
        ¬ ((cur.rules ≠ [] ∨ cur.users ≠ []) ∧ entry.2.rules = [] ∧ entry.2.users = []) ∧
        updateAccessList lib s.1.db (salt n) id { entry.2 with name := trim entry.2.name } =
          .ok db ∧
        s' = (s.1.updated db, bindList entry.1 id s.2)) ∨
      (∃ db list, s.1.stored.lookup (trim entry.2.name) = none ∧
        createAccessList lib s.1.db (salt n) { entry.2 with name := trim entry.2.name } =
          .ok (db, list) ∧
        s' = (s.1.created db list.name (s.1.db.accessLists.seq + 1) list,
          bindList entry.1 (s.1.db.accessLists.seq + 1) s.2)) := by
  unfold importList
  cases hstored : s.1.stored.lookup (trim entry.2.name) with
  | none =>
      simp only [hstored, bind_eq_ok, within_eq_ok, pure_eq_ok]
      constructor
      · rintro ⟨⟨db, list⟩, hcreate, rfl⟩
        exact Or.inr ⟨db, list, trivial, hcreate, rfl⟩
      · rintro (⟨id, cur, db, hfound, -⟩ | ⟨db, list, -, hcreate, rfl⟩)
        · simp at hfound
        · exact ⟨(db, list), hcreate, rfl⟩
  | some found =>
      simp only [hstored, bind_eq_ok, within_eq_ok, pure_eq_ok, refuseIf_eq_ok]
      constructor
      · rintro ⟨_, hguard, db, hupdate, rfl⟩
        exact Or.inl ⟨found.1, found.2, db, rfl, hguard, hupdate, rfl⟩
      · rintro (⟨id, cur, db, hfound, hguard, hupdate, rfl⟩ | ⟨db, list, hnone, -⟩)
        · obtain rfl := Option.some.inj hfound
          exact ⟨(), hguard, db, hupdate, rfl⟩
        · simp at hnone

theorem importHost_eq_ok {n : Nat} {s s' : Importing Host} {h : Host} :
    importHost lib n s h = .ok s' ↔
      (∃ id cur db, s.storedUnder lib h = some (id, cur) ∧ protectionRemoved cur h = "" ∧
        updateHost lib s.db id h = .ok db ∧ s' = s.updated db) ∨
      (∃ db kept, s.storedUnder lib h = none ∧ createHost lib s.db 0 h = .ok (db, kept) ∧
        s' = s.created db (domainKey lib kept.domains) (s.db.hosts.seq + 1) kept) := by
  unfold importHost
  cases hstored : s.storedUnder lib h with
  | none =>
      simp only [bind_eq_ok, within_eq_ok, pure_eq_ok]
      constructor
      · rintro ⟨⟨db, kept⟩, hcreate, rfl⟩
        exact Or.inr ⟨db, kept, trivial, hcreate, rfl⟩
      · rintro (⟨id, cur, db, hfound, -⟩ | ⟨db, kept, -, hcreate, rfl⟩)
        · simp at hfound
        · exact ⟨(db, kept), hcreate, rfl⟩
  | some found =>
      simp only [bind_eq_ok, within_eq_ok, pure_eq_ok, refuseIf_eq_ok, not_not]
      constructor
      · rintro ⟨_, hguard, db, hupdate, rfl⟩
        exact Or.inl ⟨found.1, found.2, db, rfl, hguard, hupdate, rfl⟩
      · rintro (⟨id, cur, db, hfound, hguard, hupdate, rfl⟩ | ⟨db, kept, hnone, -⟩)
        · obtain rfl := Option.some.inj hfound
          exact ⟨(), hguard, db, hupdate, rfl⟩
        · simp at hnone

theorem importStream_eq_ok {reserved : List Int} {n : Nat} {s s' : Importing Stream} {st : Stream} :
    importStream lib reserved n s st = .ok s' ↔
      (∃ id cur db, s.stored.lookup (streamKey st) = some (id, cur) ∧
        ¬ (cur.restricted = true ∧ st.restricted = false) ∧
        updateStream lib s.db reserved id st = .ok db ∧ s' = s.updated db) ∨
      (∃ db kept, s.stored.lookup (streamKey st) = none ∧
        createStream lib s.db reserved 0 st = .ok (db, kept) ∧
        s' = s.created db (streamKey kept) (s.db.streams.seq + 1) kept) := by
  unfold importStream
  cases hstored : s.stored.lookup (streamKey st) with
  | none =>
      simp only [bind_eq_ok, within_eq_ok, pure_eq_ok]
      constructor
      · rintro ⟨⟨db, kept⟩, hcreate, rfl⟩
        exact Or.inr ⟨db, kept, trivial, hcreate, rfl⟩
      · rintro (⟨id, cur, db, hfound, -⟩ | ⟨db, kept, -, hcreate, rfl⟩)
        · simp at hfound
        · exact ⟨(db, kept), hcreate, rfl⟩
  | some found =>
      simp only [bind_eq_ok, within_eq_ok, pure_eq_ok, refuseIf_eq_ok]
      constructor
      · rintro ⟨_, hguard, db, hupdate, rfl⟩
        exact Or.inl ⟨found.1, found.2, db, rfl, hguard, hupdate, rfl⟩
      · rintro (⟨id, cur, db, hfound, hguard, hupdate, rfl⟩ | ⟨db, kept, hnone, -⟩)
        · obtain rfl := Option.some.inj hfound
          exact ⟨(), hguard, db, hupdate, rfl⟩
        · simp at hnone

/-! ### Each loop writes its own table

A loop leaves the tables of the other kinds as they are. -/

theorem importLists_frame {salt : Nat → Nat → Salt} {db : Db} {lists : List (Int × AccessListInput)}
    {s : Importing AccessList × List (Int × Int)} (h : importLists lib salt db lists = .ok s) :
    s.1.db = { db with accessLists := s.1.db.accessLists } := by
  refine foldEach_invariant (P := fun t : Importing AccessList × List (Int × Int) =>
    t.1.db = { db with accessLists := t.1.db.accessLists }) ?_ rfl h
  intro n s entry t _ hs hturn
  rcases importList_eq_ok.mp hturn
    with ⟨id, cur, db', -, -, hupdate, rfl⟩ | ⟨db', list, -, hcreate, rfl⟩
  · obtain ⟨prev, list, -, -, -, -, rfl⟩ := updateAccessList_eq_ok.mp hupdate
    simp only [Importing.updated]
    rw [hs]
  · obtain ⟨-, -, -, rfl⟩ := createAccessList_eq_ok.mp hcreate
    simp only [Importing.created]
    rw [hs]

theorem importHosts_frame {db : Db} {hosts : List Host} {s : Importing Host}
    (h : importHosts lib db hosts = .ok s) : s.db = { db with hosts := s.db.hosts } := by
  refine foldEach_invariant (P := fun t : Importing Host => t.db = { db with hosts := t.db.hosts })
    ?_ rfl h
  intro n s entry t _ hs hturn
  rcases importHost_eq_ok.mp hturn
    with ⟨id, cur, db', -, -, hupdate, rfl⟩ | ⟨db', kept, -, hcreate, rfl⟩
  · obtain ⟨kept, -, -, rfl⟩ := updateHost_eq_ok.mp hupdate
    simp only [Importing.updated]
    rw [hs]
  · obtain ⟨-, rfl⟩ := createHost_eq_ok.mp hcreate
    simp only [Importing.created]
    rw [hs]

theorem importStreams_frame {reserved : List Int} {db : Db} {streams : List Stream}
    {s : Importing Stream} (h : importStreams lib reserved db streams = .ok s) :
    s.db = { db with streams := s.db.streams } := by
  refine foldEach_invariant
    (P := fun t : Importing Stream => t.db = { db with streams := t.db.streams })
    ?_ rfl h
  intro n s entry t _ hs hturn
  rcases importStream_eq_ok.mp hturn
    with ⟨id, cur, db', -, -, hupdate, rfl⟩ | ⟨db', kept, -, hcreate, rfl⟩
  · obtain ⟨kept, -, -, rfl⟩ := updateStream_eq_ok.mp hupdate
    simp only [Importing.updated]
    rw [hs]
  · obtain ⟨-, rfl⟩ := createStream_eq_ok.mp hcreate
    simp only [Importing.created]
    rw [hs]

/-- The three loops, one after the other. -/
theorem importDoc_eq_ok {salt : Nat → Nat → Salt} {reserved : List Int} {doc : ImportDoc}
    {db db' : Db} {result : ImportResult} :
    importDoc lib salt reserved doc db = .ok (db', result) ↔
      ∃ lists hosts streams, importLists lib salt db doc.accessLists = .ok lists ∧
        importHosts lib lists.1.db (doc.hosts.map (·.bound lists.2)) = .ok hosts ∧
        importStreams lib reserved hosts.db (doc.streams.map (·.bound lists.2)) = .ok streams ∧
        db' = streams.db ∧ result = ⟨lists.1.tally, hosts.tally, streams.tally⟩ := by
  simp only [importDoc, bind_eq_ok, pure_eq_ok, Prod.mk.injEq]
  constructor
  · rintro ⟨lists, hlists, hosts, hhosts, streams, hstreams, rfl, rfl⟩
    exact ⟨lists, hosts, streams, hlists, hhosts, hstreams, rfl, rfl⟩
  · rintro ⟨lists, hosts, streams, hlists, hhosts, hstreams, rfl, rfl⟩
    exact ⟨lists, hlists, hosts, hhosts, streams, hstreams, rfl, rfl⟩

end Quicgate.Store
