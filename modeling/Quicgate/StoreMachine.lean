import Quicgate.StoreImport
import Quicgate.TransitionSystem

/-!
# Requests to the store, statement by statement

Outside an import the checks of a write and the write are separate SQL statements on
one connection, so the statements of concurrent requests interleave.  A request in
flight is a `Job`; a step runs the next statement of one job.  Saving a host holds
`hostMu` from before its first statement to after its last; an import is a
transaction, one step, and does not take the mutex.

Docker adoption creates hosts and streams by the same functions, so its requests are
creations here.  Validation and the other checks that read nothing but the body are
made when a request begins.

`step_cases` says everything that a step can do.  The invariants of `StreamPorts`,
`HostNames` and `StoreRefs` are proved from it and never unfold the step.
-/

namespace Quicgate.Store

open Quicgate.Access Quicgate.Checks Quicgate.Sql Quicgate.TransitionSystem

inductive Write where
  | createHost (h : Host)
  | updateHost (id : Int) (h : Host)
  | createStream (st : Stream)
  | updateStream (id : Int) (st : Stream)
  | createList (a : AccessList)
  | updateList (id : Int) (a : AccessList)
  | createPolicy (s : VPNSubject)
  | updatePolicy (id : Int) (s : VPNSubject)
  | setAdmin (provider : Option Int)

inductive Source where
  | hosts
  | streams
  | lists
  | policies
  | devices
  | settings
deriving DecidableEq, Repr

namespace Write

def host : Write → Option Host
  | createHost h | updateHost _ h => some h
  | _ => none

def stream : Write → Option Stream
  | createStream st | updateStream _ st => some st
  | _ => none

def target : Write → Option Int
  | updateHost id _ | updateStream id _ | updateList id _ | updatePolicy id _ => some id
  | _ => none

def source : Write → Source
  | createHost _ | updateHost .. => .hosts
  | createStream _ | updateStream .. => .streams
  | createList _ | updateList .. => .lists
  | createPolicy _ | updatePolicy .. => .policies
  | setAdmin _ => .settings

def refs : Write → List Ref
  | createHost h | updateHost _ h => h.refs
  | createStream st | updateStream _ st => st.refs
  | createList a | updateList _ a => listRefs a
  | createPolicy s | updatePolicy _ s => [.provider s.provider]
  | setAdmin provider => (provider.map Ref.provider).toList

/-- The statement that writes. A list whose name is taken is not written, an update
of a row that is gone changes nothing. -/
def apply (db : Db) : Write → Db
  | createHost h => { db with hosts := db.hosts.insert h }
  | updateHost id h => { db with hosts := db.hosts.update id h }
  | createStream st => { db with streams := db.streams.insert st }
  | updateStream id st => { db with streams := db.streams.update id st }
  | createList a =>
      if nameTaken db (db.accessLists.seq + 1) a.name then db
      else { db with accessLists := db.accessLists.insert a }
  | updateList id a =>
      if nameTaken db id a.name then db else { db with accessLists := db.accessLists.update id a }
  | createPolicy s => { db with policies := db.policies.insert s }
  | updatePolicy id s => { db with policies := db.policies.update id s }
  | setAdmin provider => { db with adminProvider := provider }

/-- What is listed before a host or a stream is written leaves room for it. `self` is
the id by which the check tells the record itself. -/
def fits (lib : Lib) (db : Db) (self : Int) : Write → Bool
  | createHost h | updateHost _ h => (checkHostDomains lib db.hosts.rows self h).isOk
  | createStream st | updateStream _ st => (validateOthers (listStreams db) self st).isOk
  | _ => true

end Write

/-! ### Deletes

A delete looks for users of its row table by table, each in a statement of its own, and is
refused at the first that has one. -/

/-- Where the users of a row are looked for before it is deleted, in order. A device
is revoked without looking. -/
def scans : Ref → List Source
  | .list _ | .cert _ | .site _ => [.hosts, .streams]
  | .provider _ => [.hosts, .lists, .policies, .devices, .settings]
  | .device _ => []

/-- The host is listed among the users of the row (`accessListUsers`,
`customCertUsers`, `oidcProviderUsers`, `wgSiteUsers`). -/
def Host.uses (h : Host) : Ref → Bool
  | .list id => h.accessListID == some id || h.options.authRules.any (·.accessListID == some id)
  | .cert id => h.certID == some id
  | .provider id =>
      h.options.oidc.any (·.providerID == id) || h.options.portal.any (·.providerID == id) ||
      h.options.authRules.any fun r => r.oidc.any (·.providerID == id)
  | .site id => h.vias.contains id
  | .device _ => false

def Stream.uses (st : Stream) : Ref → Bool
  | .list id => st.accessListID == some id
  | .cert id => st.certID == some id
  | .site id => st.via == id
  | _ => false

/-- One of the listings of a delete finds a user. -/
def Db.uses (db : Db) (src : Source) (r : Ref) : Bool :=
  match src, r with
  | .hosts, r => db.hosts.rows.any fun row => row.2.uses r
  | .streams, r => db.streams.rows.any fun row => row.2.uses r
  | .lists, .provider id =>
      db.accessLists.rows.any fun row => row.2.rules.any fun rule => rule.vpn.any (·.provider == id)
  | .policies, .provider id => db.policies.rows.any fun row => row.2.provider == id
  | .devices, .provider id => db.devices.rows.any fun row => row.2.provider == id && !row.2.revoked
  | .settings, .provider id => db.adminProvider == some id
  | _, _ => false

/-- The statement that deletes a row, or revokes a device. -/
def Db.remove (db : Db) : Ref → Db
  | .list id => { db with accessLists := db.accessLists.delete id }
  | .cert id => { db with certs := db.certs.delete id }
  | .provider id => { db with providers := db.providers.delete id }
  | .site id => { db with sites := db.sites.delete id }
  | .device id =>
      match db.devices.lookup id with
      | some d => { db with devices := db.devices.update id { d with revoked := true } }
      | none => db

/-! ### Jobs and steps

A job is where a request stands between two statements, with what it has found so far. -/

/-- A request between two of its statements. -/
inductive Job where
  /-- Saving a host, waiting for `hostMu`. -/
  | waiting (self : Int) (w : Write)
  /-- Updating an access list, before the list it replaces is read. -/
  | loading (id : Int) (a : AccessListInput) (salt : Nat → Salt)
  /-- The references in `done` were found, those in `todo` are still to be looked up;
  `free` once the names or ports were found free. -/
  | saving (self : Int) (w : Write) (done todo : List Ref) (free : Bool)
  /-- The users of the row are still to be looked for in `left`. -/
  | deleting (r : Ref) (left : List Source)
  | ended

structure State where
  db : Db
  /-- The job that holds the mutex. -/
  hostMu : Option Nat
  jobs : List Job

def State.start (db : Db) : State := ⟨db, none, []⟩

/-- The requests that take more than one statement. The id of a creation is the one
its body carries. -/
inductive Request where
  | createHost (id : Int) (h : Host)
  | updateHost (id : Int) (h : Host)
  | createStream (id : Int) (st : Stream)
  | updateStream (id : Int) (st : Stream)
  | createList (a : AccessListInput) (salt : Nat → Salt)
  | updateList (id : Int) (a : AccessListInput) (salt : Nat → Salt)
  | savePolicy (id : Int) (subject : VPNSubject)
  | setAdmin (provider : Option Int)
  | delete (r : Ref)

inductive Statement where
  | deleteHost (id : Int)
  | deleteStream (id : Int)
  | deletePolicy (id : Int)
  | createCert
  | createProvider
  | createSite
  | createDevice (provider : Int)
  /-- An update of a certificate, a provider, a site or a device keeps the row. -/
  | updateOther

def Statement.apply (db : Db) : Statement → Db
  | .deleteHost id => { db with hosts := db.hosts.delete id }
  | .deleteStream id => { db with streams := db.streams.delete id }
  | .deletePolicy id => { db with policies := db.policies.delete id }
  | .createCert => { db with certs := db.certs.insert () }
  | .createProvider => { db with providers := db.providers.insert () }
  | .createSite => { db with sites := db.sites.insert () }
  | .createDevice provider => { db with devices := db.devices.insert ⟨provider, false⟩ }
  | .updateOther => db

inductive Label where
  | begin (request : Request)
  /-- The next statement of a job. -/
  | step (i : Nat)
  | statement (st : Statement)
  | importDoc (salt : Nat → Nat → Salt) (doc : ImportDoc)

section Steps

variable (lib : Lib) (reserved : List Int)

def Write.job (self : Int) (w : Write) : Job := .saving self w [] w.refs false

/-- The checks on a host that read nothing but its body. -/
def checkHostBody (h : Host) : Check Host := do
  let h ← h.validate lib
  checkAddresses lib [] h.allUpstreams
  return h

def Request.job : Request → Check Job
  | .createHost id h => do
      let h ← checkHostBody lib h
      return .waiting id (.createHost h)
  | .updateHost id h => do
      let h ← checkHostBody lib h
      return .waiting id (.updateHost id h)
  | .createStream id st => do
      let st ← st.checkFields lib reserved
      return (Write.createStream st).job id
  | .updateStream id st => do
      let st ← st.checkFields lib reserved
      return (Write.updateStream id st).job id
  | .createList a salt => do
      let list ← a.validate lib salt []
      return (Write.createList list).job 0
  | .updateList id a salt => .ok (.loading id a salt)
  | .savePolicy id subject => do
      let subject ← validateSubject lib true subject
      return (if id = 0 then Write.createPolicy subject else Write.updatePolicy id subject).job id
  | .setAdmin provider => .ok ((Write.setAdmin provider).job 0)
  | .delete r => .ok (.deleting r (scans r))

def State.advance (s : State) (i : Nat) (job : Job) : State := { s with jobs := s.jobs.set i job }

/-- The job ends, with the database it leaves; its mutex is released. -/
def State.finish (s : State) (i : Nat) (db : Db) : State :=
  { db, hostMu := if s.hostMu = some i then none else s.hostMu, jobs := s.jobs.set i .ended }

/-- A stream is listed before its references are looked up, a host after. -/
def Write.listsNow (w : Write) (todo : List Ref) (free : Bool) : Bool :=
  !free && (w.stream.isSome || (w.host.isSome && todo.isEmpty))

/-- The next statement of job `i`. -/
def stepJob (s : State) (i : Nat) : Job → Option State
  | .waiting self w =>
      if s.hostMu = none then some { s.advance i (w.job self) with hostMu := some i } else none
  | .loading id a salt =>
      match s.db.accessLists.lookup id with
      | none => some (s.finish i s.db)
      | some prev =>
          match a.validate lib salt prev.users with
          | .error _ => some (s.finish i s.db)
          | .ok list => some (s.advance i ((Write.updateList id list).job id))
  | .saving self w done todo free =>
      if w.listsNow todo free then
        if w.fits lib s.db self then some (s.advance i (.saving self w done todo true))
        else some (s.finish i s.db)
      else match todo with
        | r :: rest =>
            if s.db.resolves r then some (s.advance i (.saving self w (done ++ [r]) rest free))
            else some (s.finish i s.db)
        | [] => some (s.finish i (w.apply s.db))
  | .deleting r (src :: rest) =>
      if s.db.uses src r then some (s.finish i s.db) else some (s.advance i (.deleting r rest))
  | .deleting r [] => some (s.finish i (s.db.remove r))
  | .ended => none

def step (s : State) : Label → Option State
  | .begin request =>
      match request.job lib reserved with
      | .ok job => some { s with jobs := s.jobs ++ [job] }
      | .error _ => some s
  | .step i => (s.jobs[i]?).bind (stepJob lib s i)
  | .statement st => some { s with db := st.apply s.db }
  | .importDoc salt doc =>
      match Store.importDoc lib salt reserved doc s.db with
      | .ok (db, _) => some { s with db }
      | .error _ => some s

end Steps

/-! ### What a step can do

`JobStep` is about one job and the database, `MutexStep` about `hostMu`; a step of the store
is one of each for a running job, the beginning of a job, or a request that is one statement. -/

/-- The next statement of a job, on the database: the job after it and the database
after it. -/
inductive JobStep (lib : Lib) (db : Db) : Job → Job → Db → Prop where
  | lock (self : Int) (w : Write) : JobStep lib db (.waiting self w) (w.job self) db
  | load {id : Int} {a : AccessListInput} {salt : Nat → Salt} {prev list : AccessList}
      (hprev : db.accessLists.lookup id = some prev)
      (hvalid : a.validate lib salt prev.users = .ok list) :
      JobStep lib db (.loading id a salt) ((Write.updateList id list).job id) db
  | list {self : Int} {w : Write} {done todo : List Ref} (hnow : w.listsNow todo false = true)
      (hfits : w.fits lib db self = true) :
      JobStep lib db (.saving self w done todo false) (.saving self w done todo true) db
  | look {self : Int} {w : Write} {done todo : List Ref} {free : Bool} {r : Ref}
      (hfound : db.resolves r = true) :
      JobStep lib db (.saving self w done (r :: todo) free)
        (.saving self w (done ++ [r]) todo free) db
  | write {self : Int} {w : Write} {done : List Ref} {free : Bool}
      (hlisted : w.listsNow [] free = false) :
      JobStep lib db (.saving self w done [] free) .ended (w.apply db)
  | scan {r : Ref} {src : Source} {left : List Source} (hunused : db.uses src r = false) :
      JobStep lib db (.deleting r (src :: left)) (.deleting r left) db
  | remove {r : Ref} : JobStep lib db (.deleting r []) .ended (db.remove r)
  | refuse {job : Job} : JobStep lib db job .ended db

/-- The mutex, from before a statement of job `i` to after it. -/
inductive MutexStep (i : Nat) : Job → Job → Option Nat → Option Nat → Prop where
  | take (self : Int) (w : Write) : MutexStep i (.waiting self w) (w.job self) none (some i)
  | keep {job job' : Job} {mu : Option Nat} (hjob : ∀ self w, job ≠ .waiting self w) :
      MutexStep i job job' mu mu
  | release {job : Job} {mu : Option Nat} :
      MutexStep i job .ended mu (if mu = some i then none else mu)

theorem stepJob_cases {lib : Lib} {s s' : State} {i : Nat} {job : Job}
    (h : stepJob lib s i job = some s') : ∃ job' db', JobStep lib s.db job job' db' ∧
      s'.db = db' ∧ s'.jobs = s.jobs.set i job' ∧ MutexStep i job job' s.hostMu s'.hostMu := by
  cases job with
  | waiting self w =>
      simp only [stepJob, Option.ite_none_right_eq_some, Option.some.injEq] at h
      obtain ⟨hfree, rfl⟩ := h
      exact ⟨_, _, .lock self w, rfl, rfl, by simpa [hfree, State.advance] using .take self w⟩
  | loading id a salt =>
      simp only [stepJob] at h
      split at h
      · obtain rfl := Option.some.inj h
        exact ⟨_, _, .refuse, rfl, rfl, .release⟩
      · rename_i prev hprev
        split at h
        · obtain rfl := Option.some.inj h
          exact ⟨_, _, .refuse, rfl, rfl, .release⟩
        · rename_i list hvalid
          obtain rfl := Option.some.inj h
          exact ⟨_, _, .load hprev hvalid, rfl, rfl, .keep (by simp)⟩
  | saving self w done todo free =>
      simp only [stepJob] at h
      split at h
      · rename_i hnow
        obtain rfl : free = false := by
          simp only [Write.listsNow, Bool.and_eq_true, Bool.not_eq_true'] at hnow
          exact hnow.1
        split at h
        · rename_i hfits
          obtain rfl := Option.some.inj h
          exact ⟨_, _, .list hnow hfits, rfl, rfl, .keep (by simp)⟩
        · obtain rfl := Option.some.inj h
          exact ⟨_, _, .refuse, rfl, rfl, .release⟩
      · rename_i hnot
        cases todo with
        | cons r rest =>
            simp only at h
            split at h
            · rename_i hfound
              obtain rfl := Option.some.inj h
              exact ⟨_, _, .look hfound, rfl, rfl, .keep (by simp)⟩
            · obtain rfl := Option.some.inj h
              exact ⟨_, _, .refuse, rfl, rfl, .release⟩
        | nil =>
            obtain rfl := Option.some.inj h
            exact ⟨_, _, .write (by simpa using hnot), rfl, rfl, .release⟩
  | deleting r left =>
      cases left with
      | nil =>
          obtain rfl := Option.some.inj h
          exact ⟨_, _, .remove, rfl, rfl, .release⟩
      | cons src rest =>
          simp only [stepJob] at h
          split at h
          · obtain rfl := Option.some.inj h
            exact ⟨_, _, .refuse, rfl, rfl, .release⟩
          · rename_i hunused
            obtain rfl := Option.some.inj h
            exact ⟨_, _, .scan (by simpa using hunused), rfl, rfl, .keep (by simp)⟩
  | ended => simp [stepJob] at h

/-- Everything a step of the store can do. -/
inductive StepCases (lib : Lib) (reserved : List Int) (s : State) : Label → State → Prop where
  | began {request : Request} {job : Job} (hjob : request.job lib reserved = .ok job) :
      StepCases lib reserved s (.begin request) { s with jobs := s.jobs ++ [job] }
  | refused {label : Label} : StepCases lib reserved s label s
  | moved {i : Nat} {job job' : Job} {db' : Db} {mu : Option Nat} (hjob : s.jobs[i]? = some job)
      (hstep : JobStep lib s.db job job' db') (hmutex : MutexStep i job job' s.hostMu mu) :
      StepCases lib reserved s (.step i) ⟨db', mu, s.jobs.set i job'⟩
  | statement (st : Statement) :
      StepCases lib reserved s (.statement st) { s with db := st.apply s.db }
  | imported {salt : Nat → Nat → Salt} {doc : ImportDoc} {db' : Db} {result : ImportResult}
      (himport : Store.importDoc lib salt reserved doc s.db = .ok (db', result)) :
      StepCases lib reserved s (.importDoc salt doc) { s with db := db' }

theorem step_cases {lib : Lib} {reserved : List Int} {s s' : State} {label : Label}
    (h : step lib reserved s label = some s') : StepCases lib reserved s label s' := by
  cases label with
  | begin request =>
      simp only [step] at h
      split at h
      · rename_i job hjob
        obtain rfl := Option.some.inj h
        exact .began hjob
      · obtain rfl := Option.some.inj h
        exact .refused
  | step i =>
      simp only [step, Option.bind_eq_some_iff] at h
      obtain ⟨job, hjob, hstep⟩ := h
      obtain ⟨job', db', hcases, hdb, hjobs, hmutex⟩ := stepJob_cases hstep
      have hs' : s' = ⟨db', s'.hostMu, s.jobs.set i job'⟩ := by rw [← hdb, ← hjobs]
      rw [hs']
      exact .moved hjob hcases hmutex
  | statement st =>
      obtain rfl := Option.some.inj h
      exact .statement st
  | importDoc salt doc =>
      simp only [step] at h
      split at h
      · rename_i db' result himport
        obtain rfl := Option.some.inj h
        exact .imported himport
      · obtain rfl := Option.some.inj h
        exact .refused

end Quicgate.Store
