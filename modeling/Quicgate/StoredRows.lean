import Quicgate.ImportKinds

/-!
# Rows that passed their checks

However requests, deletes and imports come between one another, a stored host or stream
is what its checks made of some body: no step writes a record that was not checked, and
none changes a record between its check and its write.

`rowsChecked_of_run` says it of every database that the store can come to; it is what
`ImportAgain` asks of the configuration it starts from.
-/

namespace Quicgate.Store

open Quicgate.Access Quicgate.Checks Quicgate.Sql Quicgate.TransitionSystem

/-- The record a save in flight will write. -/
def Job.carries : Job → Option Write
  | .waiting _ w | .saving _ w _ _ _ => some w
  | _ => none

namespace Exclusive

variable {α : Type} (E : Exclusive α) (Good : α → Prop)

/-- The rows, and the records in flight, are good. -/
structure Stored (s : State) : Prop where
  rows : ∀ id v, (E.table s.db).lookup id = some v → Good v
  jobs : ∀ job ∈ s.jobs, ∀ w ∈ job.carries, ∀ v, E.record w = some v → Good v

variable {E Good} {lib : Lib} {reserved : List Int} {s s' : State}

theorem Stored.mem (h : E.Stored Good s) {row : Int × α} (hrow : row ∈ (E.table s.db).rows) :
    Good row.2 := h.rows row.1 row.2 (Table.lookup_eq_some.mpr hrow)

/-- A statement of a job writes the record it carries, or none. -/
theorem Stored.moved (hs : E.Stored Good s) {i : Nat} {job job' : Job} {db' : Db} {mu : Option Nat}
    (hjob : s.jobs[i]? = some job) (hstep : JobStep lib s.db job job' db') :
    E.Stored Good ⟨db', mu, s.jobs.set i job'⟩ := by
  have hcarried := hs.jobs job (List.mem_of_getElem? hjob)
  have hjobs : (∀ w ∈ job'.carries, ∀ v, E.record w = some v → Good v) →
      ∀ other ∈ s.jobs.set i job', ∀ w ∈ other.carries, ∀ v, E.record w = some v → Good v := by
    intro hjob' other hother
    rcases List.mem_or_eq_of_mem_set hother with hold | rfl
    · exact hs.jobs other hold
    · exact hjob'
  cases hstep with
  | lock self w => exact ⟨hs.rows, hjobs hcarried⟩
  | load hprev hvalid =>
      refine ⟨hs.rows, hjobs ?_⟩
      intro w hw v hv
      obtain rfl := Option.some.inj hw
      rw [E.loaded] at hv
      cases hv
  | list hnow hfits => exact ⟨hs.rows, hjobs hcarried⟩
  | look hfound => exact ⟨hs.rows, hjobs hcarried⟩
  | scan hunused => exact ⟨hs.rows, hjobs (by simp [Job.carries])⟩
  | refuse => exact ⟨hs.rows, hjobs (by simp [Job.carries])⟩
  | @remove r =>
      refine ⟨?_, hjobs (by simp [Job.carries])⟩
      rw [E.remove]
      exact hs.rows
  | @write self w done free hlisted =>
      refine ⟨?_, hjobs (by simp [Job.carries])⟩
      intro id v hrow
      cases hrecord : E.record w with
      | none =>
          rw [E.apply_other s.db w hrecord] at hrow
          exact hs.rows id v hrow
      | some kept =>
          rcases rows_apply hrecord (Table.lookup_eq_some.mp hrow) with ⟨hold, -⟩ | ⟨rfl, -⟩
          · exact hs.mem hold
          · exact hcarried w rfl v hrecord

/-- What the checks of every request see to, and an import keeps, holds of every row. -/
theorem Stored.step (hs : E.Stored Good s)
    (hbegin : ∀ {request job}, Request.job lib reserved request = .ok job →
      ∀ w ∈ job.carries, ∀ v, E.record w = some v → Good v)
    (himport : ∀ {salt doc db' result},
      Store.importDoc lib salt reserved doc s.db = .ok (db', result) →
      ∀ id v, (E.table db').lookup id = some v → Good v)
    {label : Label} (h : step lib reserved s label = some s') : E.Stored Good s' := by
  cases step_cases h with
  | refused => exact hs
  | began hjob =>
      refine ⟨hs.rows, ?_⟩
      intro job hmem
      rcases List.mem_append.mp hmem with hold | hnew
      · exact hs.jobs job hold
      · obtain rfl := List.mem_singleton.mp hnew
        exact hbegin hjob
  | statement st =>
      refine ⟨?_, hs.jobs⟩
      intro id v hrow
      exact hs.mem (E.statement s.db st _ (Table.lookup_eq_some.mp hrow))
  | moved hjob hstep hmutex => exact hs.moved hjob hstep
  | imported hdoc => exact ⟨himport hdoc, hs.jobs⟩

end Exclusive

variable {lib : Lib} {reserved : List Int}

/-! ### Every database of the store

The property is instantiated with what validation leaves of a host and of a stream. -/

/-- The hosts and streams of a database are such as their checks let through. -/
structure RowsChecked (lib : Lib) (db : Db) : Prop where
  hosts : HostsNamed lib db
  streams : ∀ id st, db.streams.lookup id = some st → st.listenPort ≤ st.rangeEnd

theorem hostGood_of_validate {h kept : Host} (hv : h.validate lib = .ok kept) :
    (hostUpsert lib).Good kept.domains :=
  ⟨(Host.validate_kept hv).domainsValid, (Host.validate_kept hv).domainsNe⟩

theorem listen_le_rangeEnd {st kept : Stream} (hv : st.checkFields lib reserved = .ok kept) :
    kept.listenPort ≤ kept.rangeEnd := by
  have hsound := (Stream.checkFields_eq_ok hv).1
  have hlisten := hsound.listenPort
  have hrange := hsound.listenPortEnd
  unfold Stream.rangeEnd
  split <;> omega

theorem hostGood_of_begin {request : Request} {job : Job}
    (hjob : request.job lib reserved = .ok job) :
    ∀ w ∈ job.carries, ∀ h, w.host = some h → (hostUpsert lib).Good h.domains := by
  cases request with
  | createHost id h | updateHost id h =>
      simp only [Request.job, checkHostBody, bind_eq_ok, pure_eq_ok] at hjob
      obtain ⟨_, ⟨kept, hvalid, -, -, rfl⟩, rfl⟩ := hjob
      intro w hw v hv
      obtain rfl := Option.some.inj hw
      obtain rfl := Option.some.inj hv
      exact hostGood_of_validate hvalid
  | createStream id st | updateStream id st =>
      simp only [Request.job, bind_eq_ok, pure_eq_ok] at hjob
      obtain ⟨kept, -, rfl⟩ := hjob
      simp [Job.carries, Write.job, Write.host]
  | createList a salt =>
      simp only [Request.job, bind_eq_ok, pure_eq_ok] at hjob
      obtain ⟨kept, -, rfl⟩ := hjob
      simp [Job.carries, Write.job, Write.host]
  | savePolicy id subject =>
      simp only [Request.job, bind_eq_ok, pure_eq_ok] at hjob
      obtain ⟨kept, -, rfl⟩ := hjob
      split <;> simp [Job.carries, Write.job, Write.host]
  | updateList id a salt | setAdmin provider | delete r =>
      obtain rfl := Except.ok.inj hjob
      simp [Job.carries, Write.job, Write.host]

theorem stream_of_begin {request : Request} {job : Job}
    (hjob : request.job lib reserved = .ok job) :
    ∀ w ∈ job.carries, ∀ st, w.stream = some st → st.listenPort ≤ st.rangeEnd := by
  cases request with
  | createHost id h | updateHost id h =>
      simp only [Request.job, bind_eq_ok, pure_eq_ok] at hjob
      obtain ⟨kept, -, rfl⟩ := hjob
      simp [Job.carries, Write.stream]
  | createStream id st | updateStream id st =>
      simp only [Request.job, bind_eq_ok, pure_eq_ok] at hjob
      obtain ⟨kept, hfields, rfl⟩ := hjob
      intro w hw v hv
      obtain rfl := Option.some.inj hw
      obtain rfl := Option.some.inj hv
      exact listen_le_rangeEnd hfields
  | createList a salt =>
      simp only [Request.job, bind_eq_ok, pure_eq_ok] at hjob
      obtain ⟨kept, -, rfl⟩ := hjob
      simp [Job.carries, Write.job, Write.stream]
  | savePolicy id subject =>
      simp only [Request.job, bind_eq_ok, pure_eq_ok] at hjob
      obtain ⟨kept, -, rfl⟩ := hjob
      split <;> simp [Job.carries, Write.job, Write.stream]
  | updateList id a salt | setAdmin provider | delete r =>
      obtain rfl := Except.ok.inj hjob
      simp [Job.carries, Write.job, Write.stream]

/-- An import writes what its checks let through. -/
theorem RowsChecked.importDoc {salt : Nat → Nat → Salt} {doc : ImportDoc} {db db' : Db}
    {result : ImportResult} (hdb : RowsChecked lib db)
    (h : importDoc lib salt reserved doc db = .ok (db', result)) : RowsChecked lib db' := by
  obtain ⟨lists, hosts, streams, hlists, hhosts, hstreams, rfl, -⟩ := importDoc_eq_ok.mp h
  have hframeHosts := importHosts_frame hhosts
  have hframeStreams := importStreams_frame hstreams
  have hhostsBefore : HostsNamed lib lists.1.db := by
    unfold HostsNamed
    rw [importLists_frame hlists]
    exact hdb.hosts
  have hstreamsBefore : hosts.db.streams = db.streams := by
    rw [hframeHosts, importLists_frame hlists]
  refine ⟨?_, ?_⟩
  · unfold HostsNamed
    rw [hframeStreams]
    exact (runs_of_importHosts hhostsBefore hhosts).2
  · have hrun := runs_of_importStreams protocol_bound_ne_empty hstreams
    have hinv := (listing_streams lib reserved hosts.db).inv (hstreamsBefore ▸ hdb.streams) 0 0
    exact (hrun.spec hinv).2.good

/-- The rows of every database that the store can come to. -/
theorem rowsChecked_of_run {labels : List Label} {s : State}
    (hrun : run (step lib reserved) (.start .empty) labels = some s) : RowsChecked lib s.db := by
  have hinv := run_preserves (P := fun s =>
    hostRows.Stored (fun h => (hostUpsert lib).Good h.domains) s ∧
      streamRows.Stored (fun st => st.listenPort ≤ st.rangeEnd) s) ?_ ?_ hrun
  · exact ⟨hinv.1.rows, hinv.2.rows⟩
  · rintro s label next ⟨hhosts, hstreams⟩ hstep
    have hchecked : RowsChecked lib s.db := ⟨hhosts.rows, hstreams.rows⟩
    constructor
    · exact hhosts.step hostGood_of_begin (fun h => (hchecked.importDoc h).hosts) hstep
    · exact hstreams.step stream_of_begin (fun h => (hchecked.importDoc h).streams) hstep
  · refine ⟨⟨?_, by simp [State.start]⟩, ⟨?_, by simp [State.start]⟩⟩
    · simp [hostRows, State.start, Db.empty, Table.lookup, Table.empty]
    · simp [streamRows, State.start, Db.empty, Table.lookup, Table.empty]

end Quicgate.Store
