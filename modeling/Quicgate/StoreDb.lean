import Quicgate.SqlTable
import Quicgate.StreamChecks

/-!
# The database and the references between its rows

The tables of `internal/store`, the checks that a record's references resolve and
that its names are free (`refs.go`, `store.go`), and the functions that create and
update hosts, streams and access lists, each taken as a whole.  An import runs
them in its transaction; `Quicgate.StoreMachine` runs them statement by statement.

Each function has one lemma about its success (`createHost_eq_ok` and so on): the checks
that were passed and the row that was written.  Callers use it and never unfold the function.
-/

namespace Quicgate.Store

open Quicgate.GoStrings Quicgate.Access Quicgate.Checks Quicgate.Sql

inductive Ref where
  | list (id : Int)
  | cert (id : Int)
  | provider (id : Int)
  | site (id : Int)
  | device (id : Int)
deriving DecidableEq, Repr

/-- A VPN device: the provider its owner logs in with, 0 for an admin's device. -/
structure Device where
  provider : Int
  revoked : Bool
deriving DecidableEq, Repr

/-- The tables. Of a certificate, a provider and a site only the key is of interest,
of a policy whom it is about. -/
structure Db where
  hosts : Table Host
  streams : Table Stream
  accessLists : Table AccessList
  policies : Table VPNSubject
  certs : Table Unit
  providers : Table Unit
  sites : Table Unit
  devices : Table Device
  /-- The setting `admin_oidc_provider_id`, the printed key of a provider or empty. -/
  adminProvider : Option Int

def Db.empty : Db := ⟨.empty, .empty, .empty, .empty, .empty, .empty, .empty, .empty, none⟩

/-- `rowExists`; a device counts while it is not revoked. -/
def Db.resolves (db : Db) : Ref → Bool
  | .list id => db.accessLists.has id
  | .cert id => db.certs.has id
  | .provider id => db.providers.has id
  | .site id => db.sites.has id
  | .device id => (db.devices.lookup id).any fun d => !d.revoked

/-! ### What a record names

Each reference goes with the refusal that is given when it does not resolve. -/

abbrev Named := List (Ref × String)

def missing (field : String) (id : Int) (what : String) : String :=
  field ++ " " ++ printInt id ++ " does not reference an existing " ++ what

def namesList (place : String) : Option Int → Named
  | none => []
  | some id => [(.list id, place ++ missing "accessListId" id "access list")]

def namesCert : Option Int → Named
  | none => []
  | some id => [(.cert id, missing "certId" id "certificate")]

def namesProvider (place : String) : Option Int → Named
  | none => []
  | some id => [(.provider id, place ++ missing "oidc providerId" id "identity provider")]

def namesSite (id : Int) : Named := [(.site id, missing "via" id "WireGuard site")]

/-- The references of a host, its path rules apart. -/
def Host.named (h : Host) : Named :=
  namesList "" h.accessListID ++ (if h.certMode = "custom" then namesCert h.certID else []) ++
    namesProvider "" (h.options.oidc.map (·.providerID)) ++
    namesProvider "" (h.options.portal.map (·.providerID)) ++ h.vias.flatMap namesSite

/-- The references of the path rules. -/
def Host.ruleNamed (h : Host) : Named :=
  h.options.authRules.flatMap fun r =>
    namesList ("path " ++ r.path ++ ": ") r.accessListID ++
      namesProvider ("path " ++ r.path ++ ": ") (r.oidc.map (·.providerID))

def Stream.named (st : Stream) : Named :=
  namesList "" st.accessListID ++ namesCert st.certID ++ if 0 < st.via then namesSite st.via else []

/-- What the VPN subject of rule `i` names. -/
def subjectNamed (i : Nat) (s : VPNSubject) : Named :=
  if 0 < s.provider then namesProvider s!"rule {i}: " (some s.provider)
  else if s.kind = "peer" then
    let (kind, id, _) := cut ':' s.peer.toList
    let n := (parseInt64 id).getD 0
    if kind = "site".toList then [(.site n, s!"rule {i}: " ++ missing "via" n "site")]
    else [(.device n, s!"rule {i}: peer " ++ s.peer ++ " does not reference an existing device")]
  else []

def rulesNamed : Nat → List AccessRule → Named
  | _, [] => []
  | i, r :: rest => (r.vpn.map (subjectNamed i)).getD [] ++ rulesNamed (i + 1) rest

def AccessList.named (a : AccessList) : Named := rulesNamed 1 a.rules

def Named.refs (named : Named) : List Ref := named.map Prod.fst

def Host.refs (h : Host) : List Ref := (h.named ++ h.ruleNamed).refs

def Stream.refs (st : Stream) : List Ref := st.named.refs

def listRefs (a : AccessList) : List Ref := Named.refs (AccessList.named a)

/-- `requireRow` for each of the references. -/
def requireRows (db : Db) (named : Named) : Check Unit :=
  forEach (fun r => refuseIf (db.resolves r.1 = false) r.2) named

theorem requireRows_eq_ok {db : Db} {named : Named} {u : Unit} :
    requireRows db named = .ok u ↔ ∀ r ∈ named.refs, db.resolves r = true := by
  simp only [requireRows, forEach_eq_ok, refuseIf_eq_ok, Named.refs, List.mem_map]
  constructor
  · rintro h r ⟨n, hn, rfl⟩
    simpa using h n hn
  · intro h n hn
    simpa using h n.1 ⟨n, hn, rfl⟩

theorem resolves_hosts (db : Db) (hosts : Table Host) :
    ({ db with hosts } : Db).resolves = db.resolves := by
  funext r
  cases r <;> rfl

theorem resolves_streams (db : Db) (streams : Table Stream) :
    ({ db with streams } : Db).resolves = db.resolves := by
  funext r
  cases r <;> rfl

/-! ### One address, one place

Within one host an address belongs to one place, whichever upstream names it: its own, a
location's or one behind a rule. -/

/-- The address of an upstream, as the key of `where`. -/
def upstreamAddress (lib : Lib) (u : Upstream) : String :=
  u.scheme ++ "://" ++ toLower lib.caseTable u.host ++ ":" ++ printInt u.port

/-- The later of two upstreams of one address is refused that are reached through different
sites. -/
def checkAddresses (lib : Lib) : List (String × Int) → List Upstream → Check Unit
  | _, [] => .ok ()
  | seen, u :: rest =>
      if u.host = "" then checkAddresses lib seen rest
      else do
        refuseIf ((seen.lookup (upstreamAddress lib u)).any (· != u.via) = true)
          (upstreamAddress lib u ++
            " is used both with and without a WireGuard site, or with two sites, in this host")
        checkAddresses lib ((upstreamAddress lib u, u.via) :: seen) rest

def Host.allUpstreams (h : Host) : List Upstream :=
  (h.upstream :: h.upstreams) ++ h.locations.map (·.upstream)

def checkHostRefs (lib : Lib) (db : Db) (h : Host) : Check Unit := do
  requireRows db h.named
  checkAddresses lib [] h.allUpstreams
  requireRows db h.ruleNamed

/-! ### A name belongs to one host

A name is compared without case with the names of every other host, disabled ones included. -/

/-- The two hosts list one name, compared without case. -/
def Host.sharesName (lib : Lib) (h other : Host) : Bool :=
  other.domains.any fun theirs => h.domains.any fun mine => equalFold lib (trim theirs) (trim mine)

def checkTwice (lib : Lib) : List String → List String → Check Unit
  | _, [] => .ok ()
  | seen, d :: rest => do
      refuseIf (toLower lib.caseTable (trim d) ∈ seen) (d ++ " is listed twice")
      checkTwice lib (toLower lib.caseTable (trim d) :: seen) rest

/-- `checkHostDomains` on the rows it read. The host itself is told by `id`. -/
def checkHostDomains (lib : Lib) (rows : List (Int × Host)) (id : Int) (h : Host) : Check Unit := do
  forEach (fun other =>
    if other.1 = id then .ok ()
    else forEach (fun theirs => forEach (fun mine =>
      refuseIf (equalFold lib (trim theirs) (trim mine))
        (mine ++ " is already served by another host (" ++ other.2.type ++ ", id " ++
          printInt other.1 ++ "): a name belongs to one host")) h.domains) other.2.domains) rows
  checkTwice lib [] h.domains

theorem checkTwice_eq_ok {lib : Lib} {seen domains : List String} {u : Unit} :
    checkTwice lib seen domains = .ok u ↔
      (domains.map fun d => toLower lib.caseTable (trim d)).Nodup ∧
        ∀ d ∈ domains, toLower lib.caseTable (trim d) ∉ seen := by
  induction domains generalizing seen with
  | nil => simp [checkTwice]
  | cons d rest ih =>
      rw [List.forall_mem_cons]
      simp only [checkTwice, bind_eq_ok, refuseIf_eq_ok, ih, List.map_cons, List.nodup_cons,
        List.mem_cons, not_or]
      constructor
      · rintro ⟨-, hfresh, hnodup, hrest⟩
        refine ⟨⟨?_, hnodup⟩, hfresh, fun d' hd' => (hrest d' hd').2⟩
        intro hmem
        obtain ⟨d', hd', heq⟩ := List.mem_map.mp hmem
        exact (hrest d' hd').1 heq
      · rintro ⟨⟨hnew, hnodup⟩, hfresh, hrest⟩
        refine ⟨(), hfresh, hnodup, fun d' hd' => ⟨?_, hrest d' hd'⟩⟩
        intro heq
        exact hnew (List.mem_map.mpr ⟨d', hd', heq⟩)

theorem checkHostDomains_eq_ok {lib : Lib} {rows : List (Int × Host)} {id : Int} {h : Host}
    {u : Unit} :
    checkHostDomains lib rows id h = .ok u ↔
      (∀ row ∈ rows, row.1 ≠ id → h.sharesName lib row.2 = false) ∧
        (h.domains.map fun d => toLower lib.caseTable (trim d)).Nodup := by
  have hother : ∀ row : Int × Host, (if row.1 = id then Except.ok ()
      else forEach (fun theirs => forEach (fun mine =>
        refuseIf (equalFold lib (trim theirs) (trim mine))
          (mine ++ " is already served by another host (" ++ row.2.type ++ ", id " ++
            printInt row.1 ++ "): a name belongs to one host")) h.domains) row.2.domains) = .ok () ↔
      (row.1 ≠ id → h.sharesName lib row.2 = false) := by
    intro row
    by_cases hid : row.1 = id
    · simp [hid]
    · simp [hid, forEach_eq_ok, Host.sharesName]
  simp only [checkHostDomains, bind_eq_ok, forEach_eq_ok, hother, checkTwice_eq_ok]
  simp

/-! ### Writes taken as a whole

The checks read the tables before the write; an id without a row is refused by the write. -/

def noRows : String := "sql: no rows in result set"

variable (lib : Lib)

def checkHost (db : Db) (id : Int) (h : Host) : Check Host := do
  let h ← h.validate lib
  checkHostRefs lib db h
  checkHostDomains lib db.hosts.rows id h
  return h

/-- `createHost`, for a body with that id. -/
def createHost (db : Db) (id : Int) (h : Host) : Check (Db × Host) := do
  let h ← checkHost lib db id h
  return ({ db with hosts := db.hosts.insert h }, h)

def updateHost (db : Db) (id : Int) (h : Host) : Check Db := do
  let h ← checkHost lib db id h
  refuseIf (db.hosts.has id = false) noRows
  return { db with hosts := db.hosts.update id h }

/-- `ORDER BY listen_port`. -/
def listStreams (db : Db) : List (Int × Stream) :=
  db.streams.rows.insertionSort fun a b => a.2.listenPort ≤ b.2.listenPort

def checkStream (db : Db) (reserved : List Int) (id : Int) (st : Stream) : Check Stream := do
  let st ← st.validate lib (listStreams db) reserved id
  requireRows db st.named
  return st

def createStream (db : Db) (reserved : List Int) (id : Int) (st : Stream) : Check (Db × Stream) :=
  do
  let st ← checkStream lib db reserved id st
  return ({ db with streams := db.streams.insert st }, st)

def updateStream (db : Db) (reserved : List Int) (id : Int) (st : Stream) : Check Db := do
  let st ← checkStream lib db reserved id st
  refuseIf (db.streams.has id = false) noRows
  return { db with streams := db.streams.update id st }

def nameTaken (db : Db) (id : Int) (name : String) : Bool :=
  db.accessLists.rows.any fun row => row.1 != id && row.2.name == name

def uniqueFailed : String := "UNIQUE constraint failed: access_lists.name"

def createAccessList (db : Db) (salt : Nat → Salt) (a : AccessListInput) :
    Check (Db × AccessList) := do
  let list ← a.validate lib salt []
  requireRows db (AccessList.named list)
  refuseIf (nameTaken db (db.accessLists.seq + 1) list.name) uniqueFailed
  return ({ db with accessLists := db.accessLists.insert list }, list)

def updateAccessList (db : Db) (salt : Nat → Salt) (id : Int) (a : AccessListInput) : Check Db := do
  match db.accessLists.lookup id with
  | none => .error noRows
  | some prev => do
      let list ← a.validate lib salt prev.users
      requireRows db (AccessList.named list)
      refuseIf (nameTaken db id list.name) uniqueFailed
      return { db with accessLists := db.accessLists.update id list }

/-! ### What the writes take

A write that succeeded passed its checks on the tables before, and wrote one row. -/

variable {lib}

theorem checkHost_eq_ok {db : Db} {id : Int} {h kept : Host} :
    checkHost lib db id h = .ok kept ↔ h.validate lib = .ok kept ∧
      checkHostRefs lib db kept = .ok () ∧ checkHostDomains lib db.hosts.rows id kept = .ok () := by
  simp only [checkHost, bind_eq_ok, pure_eq_ok]
  constructor
  · rintro ⟨kept', hvalid, _, hrefs, _, hnames, rfl⟩
    exact ⟨hvalid, hrefs, hnames⟩
  · rintro ⟨hvalid, hrefs, hnames⟩
    exact ⟨kept, hvalid, (), hrefs, (), hnames, rfl⟩

theorem createHost_eq_ok {db db' : Db} {id : Int} {h kept : Host} :
    createHost lib db id h = .ok (db', kept) ↔
      checkHost lib db id h = .ok kept ∧ db' = { db with hosts := db.hosts.insert kept } := by
  simp only [createHost, bind_eq_ok, pure_eq_ok, Prod.mk.injEq]
  constructor
  · rintro ⟨kept', hcheck, rfl, rfl⟩
    exact ⟨hcheck, rfl⟩
  · rintro ⟨hcheck, rfl⟩
    exact ⟨kept, hcheck, rfl, rfl⟩

theorem updateHost_eq_ok {db db' : Db} {id : Int} {h : Host} :
    updateHost lib db id h = .ok db' ↔ ∃ kept, checkHost lib db id h = .ok kept ∧
      db.hosts.has id = true ∧ db' = { db with hosts := db.hosts.update id kept } := by
  simp only [updateHost, bind_eq_ok, refuseIf_eq_ok, pure_eq_ok, Bool.not_eq_false]
  constructor
  · rintro ⟨kept, hcheck, _, hhas, rfl⟩
    exact ⟨kept, hcheck, hhas, rfl⟩
  · rintro ⟨kept, hcheck, hhas, rfl⟩
    exact ⟨kept, hcheck, (), hhas, rfl⟩

theorem mem_listStreams {db : Db} {row : Int × Stream} :
    row ∈ listStreams db ↔ row ∈ db.streams.rows :=
  (List.perm_insertionSort _ _).mem_iff

theorem checkStream_eq_ok {db : Db} {reserved : List Int} {id : Int} {st kept : Stream} :
    checkStream lib db reserved id st = .ok kept ↔ st.checkFields lib reserved = .ok kept ∧
      (∀ row ∈ db.streams.rows, row.1 ≠ id → kept.clashes row.2 = false) ∧
      ∀ r ∈ kept.refs, db.resolves r = true := by
  simp only [checkStream, Stream.validate, bind_eq_ok, pure_eq_ok, validateOthers_eq_ok,
    mem_listStreams, requireRows_eq_ok]
  constructor
  · rintro ⟨kept', ⟨kept'', hfields, _, hothers, rfl⟩, _, hrefs, rfl⟩
    exact ⟨hfields, hothers, hrefs⟩
  · rintro ⟨hfields, hothers, hrefs⟩
    exact ⟨kept, ⟨kept, hfields, (), hothers, rfl⟩, (), hrefs, rfl⟩

theorem createStream_eq_ok {db db' : Db} {reserved : List Int} {id : Int} {st kept : Stream} :
    createStream lib db reserved id st = .ok (db', kept) ↔
      checkStream lib db reserved id st = .ok kept ∧
        db' = { db with streams := db.streams.insert kept } := by
  simp only [createStream, bind_eq_ok, pure_eq_ok, Prod.mk.injEq]
  constructor
  · rintro ⟨kept', hcheck, rfl, rfl⟩
    exact ⟨hcheck, rfl⟩
  · rintro ⟨hcheck, rfl⟩
    exact ⟨kept, hcheck, rfl, rfl⟩

theorem updateStream_eq_ok {db db' : Db} {reserved : List Int} {id : Int} {st : Stream} :
    updateStream lib db reserved id st = .ok db' ↔
      ∃ kept, checkStream lib db reserved id st = .ok kept ∧ db.streams.has id = true ∧
        db' = { db with streams := db.streams.update id kept } := by
  simp only [updateStream, bind_eq_ok, refuseIf_eq_ok, pure_eq_ok, Bool.not_eq_false]
  constructor
  · rintro ⟨kept, hcheck, _, hhas, rfl⟩
    exact ⟨kept, hcheck, hhas, rfl⟩
  · rintro ⟨kept, hcheck, hhas, rfl⟩
    exact ⟨kept, hcheck, (), hhas, rfl⟩

theorem createAccessList_eq_ok {db db' : Db} {salt : Nat → Salt} {a : AccessListInput}
    {list : AccessList} : createAccessList lib db salt a = .ok (db', list) ↔
      a.validate lib salt [] = .ok list ∧ (∀ r ∈ listRefs list, db.resolves r = true) ∧
      nameTaken db (db.accessLists.seq + 1) list.name = false ∧
      db' = { db with accessLists := db.accessLists.insert list } := by
  simp only [createAccessList, bind_eq_ok, refuseIf_eq_ok, pure_eq_ok, requireRows_eq_ok,
    Prod.mk.injEq, Bool.not_eq_true]
  constructor
  · rintro ⟨list', hvalid, _, hrefs, _, hfree, rfl, rfl⟩
    exact ⟨hvalid, hrefs, hfree, rfl⟩
  · rintro ⟨hvalid, hrefs, hfree, rfl⟩
    exact ⟨list, hvalid, (), hrefs, (), hfree, rfl, rfl⟩

theorem updateAccessList_eq_ok {db db' : Db} {salt : Nat → Salt} {id : Int} {a : AccessListInput} :
    updateAccessList lib db salt id a = .ok db' ↔
      ∃ prev list, db.accessLists.lookup id = some prev ∧
        a.validate lib salt prev.users = .ok list ∧
        (∀ r ∈ listRefs list, db.resolves r = true) ∧ nameTaken db id list.name = false ∧
        db' = { db with accessLists := db.accessLists.update id list } := by
  unfold updateAccessList
  cases hprev : db.accessLists.lookup id with
  | none => simp
  | some prev =>
      simp only [bind_eq_ok, refuseIf_eq_ok, pure_eq_ok, requireRows_eq_ok, Option.some.injEq,
        Bool.not_eq_true]
      constructor
      · rintro ⟨list, hvalid, _, hrefs, _, hfree, rfl⟩
        exact ⟨prev, list, rfl, hvalid, hrefs, hfree, rfl⟩
      · rintro ⟨_, list, rfl, hvalid, hrefs, hfree, rfl⟩
        exact ⟨list, hvalid, (), hrefs, (), hfree, rfl⟩

end Quicgate.Store
