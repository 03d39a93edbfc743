import Quicgate.ExclusiveRows

/-!
# The ports of the stored streams

No two stored streams listen on one port and protocol, none on a port of the engine,
and what a range forwards to exists.  The check of a save compares with the streams it
listed and tells the stream itself by an id; `ports_sound` says under which conditions
on a run that is enough.

A save can be overtaken by another between its listing and its write, and a creation may
carry the id of a stored stream, which the check then takes for the stream itself
(`carried_id_takes_port`).
-/

namespace Quicgate.Store

open Quicgate.Checks Quicgate.Sql Quicgate.TransitionSystem

/-! ### Ports

A stream listens on a port or a range of ports, on one protocol or on both.  Two streams clash
when they want one listener. -/

/-- The stream has a listener on the port; `both` has one of each protocol. -/
def Stream.ListensOn (st : Stream) (proto : String) (port : Int) : Prop :=
  (st.protocol = "both" ∨ st.protocol = proto) ∧ st.listenPort ≤ port ∧ port ≤ st.rangeEnd

/-- The port that a listener forwards to, as `StreamManager.Sync` derives it. -/
def Stream.forwardPortFor (st : Stream) (port : Int) : Int :=
  if st.rangeEnd = st.listenPort then st.forwardPort
  else if st.forwardPort = 0 then port else st.forwardPort + (port - st.listenPort)

/-- What is to hold of the stored streams. -/
structure PortsSound (reserved : List Int) (db : Db) : Prop where
  disjoint : ∀ id st id' st', (id, st) ∈ db.streams.rows → (id', st') ∈ db.streams.rows → id ≠ id' →
    ∀ proto ∈ ["tcp", "udp"], ∀ port, ¬ (st.ListensOn proto port ∧ st'.ListensOn proto port)
  unreserved : ∀ id st, (id, st) ∈ db.streams.rows → ∀ proto, ∀ p ∈ reserved, ¬ st.ListensOn proto p
  forwards : ∀ id st, (id, st) ∈ db.streams.rows → 0 < st.listenPortEnd →
    ∀ proto port, st.ListensOn proto port →
      1 ≤ st.forwardPortFor port ∧ st.forwardPortFor port ≤ 65535

theorem protoOverlaps_comm (a b : String) : protoOverlaps a b = protoOverlaps b a := by
  rw [Bool.eq_iff_iff]
  simp only [protoOverlaps, Bool.or_eq_true, beq_iff_eq]
  rw [or_comm (a := a = "both"), eq_comm (a := a) (b := b)]

theorem Stream.clashes_comm (st o : Stream) : st.clashes o = o.clashes st := by
  simp only [Stream.clashes]
  rw [protoOverlaps_comm, Bool.and_assoc, Bool.and_assoc,
    Bool.and_comm (decide (st.listenPort ≤ _))]

/-- Streams with a listener in common clash. -/
theorem Stream.clashes_of_listensOn {st o : Stream} {proto : String} {port : Int}
    (h : st.ListensOn proto port) (ho : o.ListensOn proto port) : st.clashes o = true := by
  obtain ⟨hproto, hlow, hhigh⟩ := h
  obtain ⟨hproto', hlow', hhigh'⟩ := ho
  have hoverlap : protoOverlaps o.protocol st.protocol = true := by
    simp only [protoOverlaps, Bool.or_eq_true, beq_iff_eq]
    rcases hproto with hboth | hp
    · exact Or.inl (Or.inr hboth)
    · rcases hproto' with hboth | hp'
      · exact Or.inl (Or.inl hboth)
      · exact Or.inr (hp'.trans hp.symm)
  simp only [Stream.clashes, hoverlap, Bool.true_and, Bool.and_eq_true, decide_eq_true_eq]
  omega

/-- A range of one port names the port it forwards to. -/
def Stream.NamesForward (st : Stream) : Prop :=
  st.listenPortEnd = st.listenPort → st.forwardPort ≠ 0

instance (st : Stream) : Decidable st.NamesForward :=
  inferInstanceAs (Decidable (_ → _))

theorem Stream.Sound.forwards {reserved : List Int} {st : Stream} (h : st.Sound reserved)
    (hnames : st.NamesForward) (hrange : 0 < st.listenPortEnd) {proto : String} {port : Int}
    (hon : st.ListensOn proto port) :
    1 ≤ st.forwardPortFor port ∧ st.forwardPortFor port ≤ 65535 := by
  obtain ⟨-, hlow, hhigh⟩ := hon
  have hend : st.rangeEnd = st.listenPortEnd := by simp [Stream.rangeEnd, hrange]
  have hlisten := h.listenPort
  have hlast := h.listenPortEnd
  have hfwd := h.forwardPort
  have hsum := h.forwardRange hrange
  rw [hend] at hhigh
  unfold Stream.forwardPortFor Stream.NamesForward at *
  rw [hend]
  split_ifs with hone hzero
  · have := hnames hone
    omega
  · omega
  · have := hsum (by omega)
    omega

/-! ### The table of the streams

The table is an instance of `ExclusiveRows`, with clashing as what keeps rows apart. -/

/-- Streams exclude one another where they clash. -/
def streamRows : Exclusive Stream where
  table := (·.streams)
  record := (·.stream)
  Apart := fun st o => st.clashes o = false
  Listed := fun _ => True
  symm := fun st o h => by rwa [Stream.clashes_comm]
  apply_other := by
    intro db w hw
    cases w with
    | createList a =>
        simp only [Write.apply]
        split <;> rfl
    | updateList id a =>
        simp only [Write.apply]
        split <;> rfl
    | createStream st => simp [Write.stream] at hw
    | updateStream id st => simp [Write.stream] at hw
    | createHost h => rfl
    | updateHost id h => rfl
    | createPolicy s => rfl
    | updatePolicy id s => rfl
    | setAdmin p => rfl
  apply_create := by
    intro db w v hw htarget
    cases w with
    | createStream st =>
        obtain rfl := Option.some.inj hw
        rfl
    | updateStream id st => simp [Write.target] at htarget
    | _ => simp [Write.stream] at hw
  apply_update := by
    intro db w v id hw htarget
    cases w with
    | createStream st => simp [Write.target] at htarget
    | updateStream id' st =>
        obtain rfl := Option.some.inj hw
        obtain rfl := Option.some.inj htarget
        rfl
    | _ => simp [Write.stream] at hw
  remove := by
    intro db r
    cases r with
    | device id =>
        simp only [Db.remove]
        split <;> rfl
    | _ => rfl
  statement := by
    intro db st row hrow
    cases st with
    | deleteStream id => exact (Table.mem_delete.mp hrow).2
    | _ => exact hrow
  loaded := fun _ _ => rfl
  listed := by
    intro w v free hw hlists
    have hsome : w.stream.isSome = true := by simp [hw]
    simpa [Write.listsNow, hsome] using hlists

def GoodStream (reserved : List Int) (st : Stream) : Prop := st.Sound reserved ∧ st.NamesForward

theorem portsSound_of_inv {reserved : List Int} {s : State}
    (h : streamRows.Inv (GoodStream reserved) s) : PortsSound reserved s.db where
  disjoint := by
    intro id st id' st' hrow hrow' hne proto _ port hboth
    have hclash := Stream.clashes_of_listensOn hboth.1 hboth.2
    rw [h.pairwise id st id' st' hrow hrow' hne] at hclash
    simp at hclash
  unreserved := by
    intro id st hrow proto p hp hon
    exact (h.good id st hrow).1.1.reserved p hp hon.2
  forwards := by
    intro id st hrow hrange proto port hon
    obtain ⟨⟨hsound, hnames⟩, -⟩ := h.good id st hrow
    exact hsound.forwards hnames hrange hon

/-! ### An import

An import checks each stream against the table it has made so far, in one transaction. -/

section

variable {lib : Lib} {reserved : List Int}

theorem goodStream_of_checkFields {st kept : Stream} (h : st.checkFields lib reserved = .ok kept)
    (hnames : st.NamesForward) : GoodStream reserved kept := by
  obtain ⟨hsound, hkept⟩ := Stream.checkFields_eq_ok h
  refine ⟨hsound, ?_⟩
  unfold Stream.NamesForward at hnames ⊢
  rw [hkept.listenPort, hkept.listenPortEnd, hkept.forwardPort]
  exact hnames

def StreamsOk (reserved : List Int) (t : Table Stream) : Prop :=
  t.Pairwise (fun st o => st.clashes o = false) ∧ ∀ id st, (id, st) ∈ t.rows →
    GoodStream reserved st

theorem importStream_ok {n : Nat} {s s' : Importing Stream} {st : Stream}
    (hs : StreamsOk reserved s.db.streams) (hnames : st.NamesForward)
    (h : importStream lib reserved n s st = .ok s') : StreamsOk reserved s'.db.streams := by
  obtain ⟨hpair, hgood⟩ := hs
  have hsymm := streamRows.symm
  rcases importStream_eq_ok.mp h
    with ⟨id, cur, db, -, -, hupdate, rfl⟩ | ⟨db, kept, -, hcreate, rfl⟩
  · obtain ⟨kept, hcheck, -, rfl⟩ := updateStream_eq_ok.mp hupdate
    obtain ⟨hfields, hothers, -⟩ := checkStream_eq_ok.mp hcheck
    constructor
    · exact hpair.update hsymm fun id' o hrow hne => hothers (id', o) hrow hne
    · exact Table.forall_update hgood fun _ => goodStream_of_checkFields hfields hnames
  · obtain ⟨hcheck, rfl⟩ := createStream_eq_ok.mp hcreate
    obtain ⟨hfields, hothers, -⟩ := checkStream_eq_ok.mp hcheck
    constructor
    · refine hpair.insert hsymm fun id' o hrow => hothers (id', o) hrow ?_
      -- the keys that were given out are positive
      have hpos := (s.db.streams.keysGiven _ hrow).1
      simp only at hpos ⊢
      omega
    · exact Table.forall_insert hgood (goodStream_of_checkFields hfields hnames)

theorem importDoc_streams {salt : Nat → Nat → Salt} {doc : ImportDoc} {db db' : Db}
    {result : ImportResult} (hdb : StreamsOk reserved db.streams)
    (hnames : ∀ st ∈ doc.streams, st.NamesForward)
    (h : importDoc lib salt reserved doc db = .ok (db', result)) :
    StreamsOk reserved db'.streams := by
  obtain ⟨lists, hosts, streams, hlists, hhosts, hstreams, rfl, -⟩ := importDoc_eq_ok.mp h
  have hbefore : hosts.db.streams = db.streams := by
    rw [importHosts_frame hhosts, importLists_frame hlists]
  refine foldEach_invariant (P := fun t : Importing Stream => StreamsOk reserved t.db.streams)
    ?_ (hbefore ▸ hdb) hstreams
  intro n s st t hst hs hturn
  obtain ⟨raw, hraw, rfl⟩ := List.mem_map.mp hst
  have hnames' : (raw.bound lists.2).NamesForward := hnames raw hraw
  exact importStream_ok hs hnames' hturn

end

/-! ### Runs

The condition is on the steps; it asks nothing of a run in which saves do not overlap. -/

/-- What a step must not do. A save of a range of one port names the port it forwards
to; a creation does not carry the id of a stored stream that it clashes with; and
nothing is stored that clashes with a save in flight which has listed the streams
already, unless that save overwrites it. -/
def PortsUndisturbed (lib : Lib) (reserved : List Int) (s : State) : Label → Prop
  | .begin (.createStream _ st) => st.NamesForward
  | .begin (.updateStream _ st) => st.NamesForward
  | .begin _ => True
  | .step i =>
      (∀ job ∈ s.jobs[i]?, ∀ l ∈ job.listing, l.2.target = none → ∀ st ∈ l.2.stream,
        ∀ row ∈ s.db.streams.rows, row.1 = l.1 → st.clashes row.2 = false) ∧
      (∀ job ∈ s.jobs[i]?, ∀ w ∈ job.writing, ∀ st ∈ w.stream, ∀ other ∈ s.jobs.eraseIdx i,
        ∀ w' ∈ other.pending, ∀ st' ∈ w'.stream,
          st'.clashes st = false ∨ (w.target.isSome = true ∧ w.target = w'.target))
  | .statement _ => True
  | .importDoc salt doc => (∀ st ∈ doc.streams, st.NamesForward) ∧
      match Store.importDoc lib salt reserved doc s.db with
      | .error _ => True
      | .ok (db', _) => ∀ job ∈ s.jobs, ∀ w ∈ job.pending, ∀ st ∈ w.stream,
          ∀ row ∈ db'.streams.rows, row ∈ s.db.streams.rows ∨ w.target = some row.1 ∨
            st.clashes row.2 = false

instance (lib : Lib) (reserved : List Int) (s : State) :
    ∀ label, Decidable (PortsUndisturbed lib reserved s label)
  | .begin (.createStream _ st) => inferInstanceAs (Decidable st.NamesForward)
  | .begin (.updateStream _ st) => inferInstanceAs (Decidable st.NamesForward)
  | .begin (.createHost ..) | .begin (.updateHost ..) | .begin (.createList ..)
  | .begin (.updateList ..) | .begin (.savePolicy ..) | .begin (.setAdmin _)
  | .begin (.delete _) | .statement _ => isTrue trivial
  | .step i => inferInstanceAs (Decidable (
      (∀ job ∈ s.jobs[i]?, ∀ l ∈ job.listing, l.2.target = none → ∀ st ∈ l.2.stream,
        ∀ row ∈ s.db.streams.rows, row.1 = l.1 → st.clashes row.2 = false) ∧
      (∀ job ∈ s.jobs[i]?, ∀ w ∈ job.writing, ∀ st ∈ w.stream, ∀ other ∈ s.jobs.eraseIdx i,
        ∀ w' ∈ other.pending, ∀ st' ∈ w'.stream,
          st'.clashes st = false ∨ (w.target.isSome = true ∧ w.target = w'.target))))
  | .importDoc salt doc =>
      have : Decidable (match Store.importDoc lib salt reserved doc s.db with
          | .error _ => True
          | .ok (db', _) => ∀ job ∈ s.jobs, ∀ w ∈ job.pending, ∀ st ∈ w.stream,
              ∀ row ∈ db'.streams.rows, row ∈ s.db.streams.rows ∨ w.target = some row.1 ∨
                st.clashes row.2 = false) :=
        match Store.importDoc lib salt reserved doc s.db with
        | .error _ => isTrue trivial
        | .ok (db', _) => inferInstanceAs (Decidable (∀ job ∈ s.jobs, ∀ w ∈ job.pending,
            ∀ st ∈ w.stream, ∀ row ∈ db'.streams.rows, row ∈ s.db.streams.rows ∨
              w.target = some row.1 ∨ st.clashes row.2 = false))
      inferInstanceAs (Decidable (_ ∧ _))

theorem streamJob_ok {lib : Lib} {reserved : List Int} {s : State} {request : Request} {job : Job}
    (hallowed : PortsUndisturbed lib reserved s (.begin request))
    (hjob : request.job lib reserved = .ok job) :
    streamRows.JobOk (GoodStream reserved) s.db job := by
  cases request with
  | createStream id st =>
      simp only [Request.job, bind_eq_ok, pure_eq_ok] at hjob
      obtain ⟨kept, hfields, rfl⟩ := hjob
      intro v hv
      obtain rfl := Option.some.inj hv
      exact ⟨⟨goodStream_of_checkFields hfields hallowed, by simp [Write.target]⟩, by simp⟩
  | updateStream id st =>
      simp only [Request.job, bind_eq_ok, pure_eq_ok] at hjob
      obtain ⟨kept, hfields, rfl⟩ := hjob
      intro v hv
      obtain rfl := Option.some.inj hv
      exact ⟨⟨goodStream_of_checkFields hfields hallowed, by simp [Write.target]⟩, by simp⟩
  | createHost id h | updateHost id h =>
      simp only [Request.job, bind_eq_ok, pure_eq_ok] at hjob
      obtain ⟨kept, -, rfl⟩ := hjob
      intro v hv
      simp [streamRows, Write.stream] at hv
  | createList a salt =>
      simp only [Request.job, bind_eq_ok, pure_eq_ok] at hjob
      obtain ⟨kept, -, rfl⟩ := hjob
      intro v hv
      simp [streamRows, Write.stream] at hv
  | savePolicy id subject =>
      simp only [Request.job, bind_eq_ok, pure_eq_ok] at hjob
      obtain ⟨kept, -, rfl⟩ := hjob
      intro v hv
      split at hv <;> simp [streamRows, Write.stream] at hv
  | updateList id a salt =>
      obtain rfl := Except.ok.inj hjob
      trivial
  | setAdmin provider =>
      obtain rfl := Except.ok.inj hjob
      intro v hv
      simp [streamRows, Write.stream] at hv
  | delete r =>
      obtain rfl := Except.ok.inj hjob
      trivial

/-- What a listing finds: no row but the stream's own is in the way. -/
theorem not_clashes_of_fits {lib : Lib} {db : Db} {self : Int} {w : Write} {st : Stream}
    (hst : w.stream = some st) (hfits : w.fits lib db self = true) {row : Int × Stream}
    (hrow : row ∈ db.streams.rows) (hne : row.1 ≠ self) : st.clashes row.2 = false := by
  have hothers : (validateOthers (listStreams db) self st).isOk = true := by
    cases w with
    | createStream st' =>
        obtain rfl := Option.some.inj hst
        exact hfits
    | updateStream id st' =>
        obtain rfl := Option.some.inj hst
        exact hfits
    | _ => simp [Write.stream] at hst
  cases hcheck : validateOthers (listStreams db) self st with
  | error why => simp [hcheck, Except.isOk, Except.toBool] at hothers
  | ok u => exact validateOthers_eq_ok.mp hcheck row (mem_listStreams.mpr hrow) hne

theorem streamInv_step {lib : Lib} {reserved : List Int} {s s' : State} {label : Label}
    (hinv : streamRows.Inv (GoodStream reserved) s)
    (hallowed : PortsUndisturbed lib reserved s label)
    (hstep : step lib reserved s label = some s') : streamRows.Inv (GoodStream reserved) s' := by
  cases step_cases hstep with
  | refused => exact hinv
  | began hjob => exact hinv.began (streamJob_ok hallowed hjob)
  | statement st => exact hinv.of_rows_subset _ (streamRows.statement s.db st) s.hostMu
  | @moved i job job' db' mu hjob hcases hmutex =>
      obtain ⟨hlisting, hwriting⟩ := hallowed
      refine hinv.moved hjob hcases ?_ ?_ mu
      · rintro self w done todo st rfl hnow hfits hst ⟨-, hself⟩
        refine ⟨trivial, ?_⟩
        intro id o hrow htarget
        by_cases hid : id = self
        · -- the row that the check passes over is the one that is overwritten, or a
          -- creation carries its id
          have hcreate : w.target = none := by
            cases ht : w.target with
            | none => rfl
            | some id' =>
                obtain rfl := hself id' ht
                exact absurd (hid ▸ ht) htarget
          have hlisted : (Job.saving self w done todo false).listing = some (self, w) := by
            simp [Job.listing, hnow]
          exact hlisting _ hjob _ hlisted hcreate st hst (id, o) hrow hid
        · exact not_clashes_of_fits hst hfits hrow hid
      · rintro self w done rfl j self' w' done' todo' hne hj st st' hst hst'
        have hlisted : w.listsNow [] true = false := by simp [Write.listsNow]
        have hwrite : (Job.saving self w done [] true).writing = some w := by
          simp [Job.writing, hlisted]
        have hother : Job.saving self' w' done' todo' true ∈ s.jobs.eraseIdx i :=
          List.mem_eraseIdx_iff_getElem?.mpr ⟨j, hne, hj⟩
        rcases hwriting _ hjob w hwrite st hst _ hother w' rfl st' hst' with hapart | ⟨hsome, heq⟩
        · exact Or.inl hapart
        · obtain ⟨id, hid⟩ := Option.isSome_iff_exists.mp hsome
          exact Or.inr ⟨id, hid, heq ▸ hid⟩
  | @imported salt doc db' result himport =>
      obtain ⟨hnames, hapart⟩ := hallowed
      rw [himport] at hapart
      obtain ⟨hpair, hgood⟩ := importDoc_streams
        ⟨hinv.pairwise, fun id st hrow => (hinv.good id st hrow).1⟩ hnames himport
      exact hinv.transaction hpair (fun id st hrow => ⟨hgood id st hrow, trivial⟩) hapart

/-- In every run whose steps leave the listings undisturbed, the stored streams keep
apart, keep off the reserved ports and forward to ports that exist. -/
theorem ports_sound (lib : Lib) (reserved : List Int) (db : Db) (hempty : db.streams.rows = [])
    (labels : List Label) (s : State)
    (hmeets : RunMeets (step lib reserved) (PortsUndisturbed lib reserved) (.start db) labels)
    (hrun : run (step lib reserved) (.start db) labels = some s) : PortsSound reserved s.db := by
  have hstart : streamRows.Inv (GoodStream reserved) (State.start db) := by
    refine ⟨?_, ?_, ?_⟩
    · intro id st id' st' hrow
      simp [streamRows, State.start, hempty] at hrow
    · intro id st hrow
      simp [streamRows, State.start, hempty] at hrow
    · intro job hjob
      simp [State.start] at hjob
  exact portsSound_of_inv (hmeets.invariant (fun _ _ _ => streamInv_step) hstart hrun)

/-! ### Two saves

`twoForwards` interleaves two saves that do not come into each other's way. -/

def forwardOf (port : Int) : Stream :=
  { Stream.zero with
    listenPort := port, protocol := "tcp", forwardHost := "10.0.0.9", forwardPort := 80,
    enabled := true }

/-- Two creations, statement by statement in turn. -/
def twoForwards : List Label :=
  [.begin (.createStream 0 (forwardOf 8080)), .begin (.createStream 0 (forwardOf 8081)),
    .step 0, .step 1, .step 0, .step 1]

theorem ports_sound_two : ∃ s, run (step asciiLib [80, 443]) (.start .empty) twoForwards = some s ∧
    s.db.streams.rows = [(1, forwardOf 8080), (2, forwardOf 8081)] ∧ PortsSound [80, 443] s.db := by
  obtain ⟨s, hrun, hrows⟩ : ∃ s, run (step asciiLib [80, 443]) (.start .empty) twoForwards =
    some s ∧
      s.db.streams.rows = [(1, forwardOf 8080), (2, forwardOf 8081)] :=
    Option.map_eq_some_iff.mp (by decide +kernel)
  exact ⟨s, hrun, hrows, ports_sound asciiLib [80,
    443] .empty rfl twoForwards s (by decide +kernel) hrun⟩

/-- The second creation carries the id of the first stream, which the check takes for
the stream itself. -/
def carriedId : List Label :=
  [.begin (.createStream 0 (forwardOf 8080)), .step 0, .step 0,
    .begin (.createStream 1 (forwardOf 8080)), .step 1, .step 1]

theorem carried_id_takes_port :
    ∃ s, run (step asciiLib [80, 443]) (.start .empty) carriedId = some s ∧
      ¬ PortsSound [80, 443] s.db := by
  obtain ⟨s, hrun, hrows⟩ : ∃ s, run (step asciiLib [80, 443]) (.start .empty) carriedId = some s ∧
      s.db.streams.rows = [(1, forwardOf 8080), (2, forwardOf 8080)] :=
    Option.map_eq_some_iff.mp (by decide +kernel)
  refine ⟨s, hrun, ?_⟩
  intro hsound
  have hon : (forwardOf 8080).ListensOn "tcp" 8080 := ⟨Or.inr rfl, by decide, by decide⟩
  exact hsound.disjoint 1 _ 2 _ (by simp [hrows]) (by simp [hrows]) (by decide) "tcp" (by simp) 8080
    ⟨hon, hon⟩

end Quicgate.Store
