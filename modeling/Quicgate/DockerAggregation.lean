import Quicgate.DockerProvider

/-!
# What an aggregation of Docker routes hands over

Three parts of `aggregate` answer for three parts of the result.  The merge keeps the
names and ports of the set apart from each other and from those it was told are
taken, whatever it merges.  The signature is one text for one set.  And what the merge
was given is, at every read, what the endpoint derived last and what was configured
at that moment, which is a statement about the labels before the read.

`engine_has_latest` puts them together for every run of the provider
(`Quicgate.DockerProvider`): whatever the engine is handed was computed from one series of
reads and keeps clear of conflicts, and from the end of an aggregation to the end of the
next the engine has what it computed.
-/

namespace Quicgate.Docker

open Quicgate.GoStrings Quicgate.Store Quicgate.JsonText Quicgate.TransitionSystem

/-! ### Wildcards

A wildcard stands for one label, so a name is covered by one wildcard at most. -/

/-- The wildcard stands for the name with one label in front: `*.example.com` for
`api.example.com`. -/
def Covers (wildcard name : String) : Prop :=
  ∃ label rest, label ≠ [] ∧ '.' ∉ label ∧ name.toList = label ++ '.' :: rest ∧
    wildcard.toList = '*' :: '.' :: rest

theorem coveringWildcard_of_covers {wildcard name : String} (h : Covers wildcard name) :
    wildcard = name ∨ coveringWildcard name = wildcard := by
  obtain ⟨label, rest, hne, hdot, hname, hwild⟩ := h
  by_cases hstar : ['*', '.'].isPrefixOf name.toList = true
  · left
    obtain ⟨tail, htail⟩ := List.isPrefixOf_iff_prefix.mp hstar
    obtain rfl : label = ['*'] := by
      cases label with
      | nil => exact absurd rfl hne
      | cons c label =>
          rw [hname] at htail
          cases label with
          | nil => rw [(List.cons.inj htail).1]
          | cons d label =>
              have hd : '.' = d := (List.cons.inj (List.cons.inj htail).2).1
              subst hd
              exact absurd (List.mem_cons_of_mem c List.mem_cons_self) hdot
    exact String.toList_injective (hwild.trans hname.symm)
  · right
    rw [coveringWildcard, if_neg hstar, hname, cut_append_cons hdot]
    simp only [ne_eq, hne, not_false_eq_true, if_true]
    rw [← hwild, String.ofList_toList]

theorem toLower_of_matches_table (table : CaseTable) {d : String} (h : matchesDomainRe d = true) :
    toLower table d = d :=
  @toLower_of_matches { asciiLib with caseTable := table } d h

/-! ### The merge

The invariants of the loop: names are claimed once, ports have one holder, and neither are
taken by the manual configuration. -/

def Merged.names (m : Merged) : List String := m.hosts.flatMap fun h => h.domains.map (·.1)

def Merged.ports (m : Merged) : List Int := m.streams.map (·.listenPort)

/-- The names are claimed once each, and none of them is taken. -/
structure NamesOk (existing claimed names : List String) : Prop where
  claimed : ∀ d ∈ names, d ∈ claimed
  nodup : names.Nodup
  valid : ∀ d ∈ names, matchesDomainRe d = true
  free : ∀ d ∈ names, d ∉ existing
  uncovered : ∀ d ∈ names, coveringWildcard d ≠ "" → coveringWildcard d ∉ existing

/-- Every port has one holder, and none of them is used. -/
structure PortsOk (used : Int → Bool) (m : Merged) : Prop where
  held : ∀ port ∈ m.ports, m.holder port ≠ ""
  nodup : m.ports.Nodup
  free : ∀ port ∈ m.ports, used port = false

variable {existing : List String} {used : Int → Bool}

/-- One name more, when it is neither taken nor claimed. -/
theorem NamesOk.claim {claimed names : List String} (h : NamesOk existing claimed names)
    (dom : Name)
    (hfree : dom.1 ∉ existing)
    (huncovered : coveringWildcard dom.1 ≠ "" → coveringWildcard dom.1 ∉ existing)
    (hnew : dom.1 ∉ claimed) : NamesOk existing (claimed ++ [dom.1]) (names ++ [dom.1]) := by
  have hnames : dom.1 ∉ names := fun hmem => hnew (h.claimed _ hmem)
  constructor
  case claimed =>
    intro d hd
    rcases List.mem_append.mp hd with hd | hd
    · exact List.mem_append_left _ (h.claimed d hd)
    · exact List.mem_append_right _ hd
  case nodup => exact h.nodup.append (List.nodup_singleton _) (by simpa using hnames)
  case valid =>
    intro d hd
    rcases List.mem_append.mp hd with hd | hd
    · exact h.valid d hd
    · rw [List.mem_singleton.mp hd]
      exact dom.2
  case free =>
    intro d hd
    rcases List.mem_append.mp hd with hd | hd
    · exact h.free d hd
    · rwa [List.mem_singleton.mp hd]
  case uncovered =>
    intro d hd
    rcases List.mem_append.mp hd with hd | hd
    · exact h.uncovered d hd
    · rwa [List.mem_singleton.mp hd]

/-- The loop over the domains of one container, after the names `base` of the others. -/
theorem claimName_ok {base : List String} {acc : List String × List Name} (dom : Name)
    (h : NamesOk existing acc.1 (base ++ acc.2.map (·.1))) :
    NamesOk existing (claimName existing acc dom).1
      (base ++ (claimName existing acc dom).2.map (·.1)) := by
  unfold claimName
  split_ifs with hexists hcovered hclaimed
  · exact h
  · exact h
  · exact h
  · simp only [List.map_append, List.map_cons, List.map_nil, ← List.append_assoc]
    apply h.claim dom
    · simpa using hexists
    · intro hne
      simpa [hne] using hcovered
    · simpa using hclaimed

theorem addHost_names {m : Merged} (host : Option Host) (h : NamesOk existing m.claimed m.names) :
    NamesOk existing (addHost existing m host).claimed (addHost existing m host).names := by
  cases host with
  | none => exact h
  | some host =>
      have hfold : NamesOk existing (host.domains.foldl (claimName existing) (m.claimed, [])).1
          (m.names ++ (host.domains.foldl (claimName existing) (m.claimed, [])).2.map (·.1)) := by
        refine List.foldlRecOn host.domains (claimName existing)
          (motive := fun acc => NamesOk existing acc.1 (m.names ++ acc.2.map (·.1))) ?_ ?_
        · simpa using h
        · exact fun acc hacc dom _ => claimName_ok dom hacc
      simp only [addHost]
      split_ifs with hkept
      · simpa [Merged.names] using hfold
      · rw [not_not.mp hkept] at hfold
        simpa [Merged.names] using hfold

theorem addHost_streams (m : Merged) (host : Option Host) :
    (addHost existing m host).streams = m.streams ∧
      (addHost existing m host).takenPorts = m.takenPorts := by
  cases host with
  | none => exact ⟨rfl, rfl⟩
  | some host =>
      simp only [addHost]
      split_ifs <;> exact ⟨rfl, rfl⟩

theorem addStream_hosts (who : String) (m : Merged) (st : Stream) :
    (addStream used who m st).hosts = m.hosts ∧ (addStream used who m st).claimed = m.claimed := by
  unfold addStream
  split_ifs <;> exact ⟨rfl, rfl⟩

theorem addStream_ports {m : Merged} {who : String} (hwho : who ≠ "") (st : Stream)
    (h : PortsOk used m) : PortsOk used (addStream used who m st) := by
  unfold addStream
  split_ifs with hused hheld
  · exact h
  · exact h
  · have hports : ({ m with takenPorts := (st.listenPort, who) :: m.takenPorts
                            streams := m.streams ++ [st] } : Merged).ports =
        m.ports ++ [st.listenPort] := by simp [Merged.ports]
    have hnew : st.listenPort ∉ m.ports := fun hmem => h.held _ hmem (not_not.mp hheld)
    constructor
    case held =>
      intro port hport
      simp only [Merged.holder, List.find?_cons]
      by_cases heq : st.listenPort = port
      · simpa [heq] using hwho
      · rw [hports, List.mem_append, List.mem_singleton] at hport
        rw [beq_false_of_ne heq]
        exact h.held port (hport.resolve_right (Ne.symm heq))
    case nodup =>
      rw [hports]
      exact h.nodup.append (List.nodup_singleton _) (by simpa using hnew)
    case free =>
      intro port hport
      rw [hports, List.mem_append, List.mem_singleton] at hport
      rcases hport with hport | rfl
      · exact h.free port hport
      · simpa using hused

/-- The names and ports of what is merged. -/
structure Merged.Ok (existing : List String) (used : Int → Bool) (m : Merged) : Prop where
  names : NamesOk existing m.claimed m.names
  ports : PortsOk used m

theorem addContainer_ok {m : Merged} (endpoint : String) (rd : RawDerived)
    (h : m.Ok existing used) : (addContainer existing used endpoint m rd).Ok existing used := by
  have hwho : endpoint ++ "/" ++ rd.name ≠ "" := by
    intro heq
    have hlist := congrArg String.toList heq
    simp at hlist
  refine List.foldlRecOn rd.streams _ (motive := Merged.Ok existing used) ?_ ?_
  · obtain ⟨hstreams, htaken⟩ := @addHost_streams existing m rd.host
    refine ⟨addHost_names rd.host h.names, ?_, ?_, ?_⟩
    · simpa [Merged.ports, Merged.holder, hstreams, htaken] using h.ports.held
    · simpa [Merged.ports, hstreams] using h.ports.nodup
    · simpa [Merged.ports, hstreams] using h.ports.free
  · intro acc hacc st _
    obtain ⟨hhosts, hclaimed⟩ := @addStream_hosts used (endpoint ++ "/" ++ rd.name) acc st
    refine ⟨?_, addStream_ports hwho st hacc.ports⟩
    simpa [Merged.names, hhosts, hclaimed] using hacc.names

theorem empty_ok : Merged.empty.Ok existing used where
  names := ⟨nofun, List.nodup_nil, nofun, nofun, nofun⟩
  ports := ⟨nofun, List.nodup_nil, nofun⟩

theorem mergeAll_ok (existing : List String) (used : Int → Bool)
    (eps : List (String × List RawDerived)) : (mergeAll existing used eps).Ok existing used :=
  List.foldlRecOn eps _ (motive := Merged.Ok existing used) empty_ok fun _ hm ep _ =>
    List.foldlRecOn ep.2 _ (motive := Merged.Ok existing used) hm fun _ hm rd _ =>
      addContainer_ok ep.1 rd hm

/-! ### The signature

The signature is a text of `JsonText`, and the JSON of a set determines the set. -/

theorem accessListJson_injective : Function.Injective accessListJson := by
  intro a b h
  cases a <;> cases b <;> simp_all [accessListJson]

theorem Host.json_injective : Function.Injective Host.json := by
  intro a b h
  simp only [Host.json, Json.obj.injEq, List.cons.injEq, Prod.mk.injEq, Json.arr.injEq,
    Json.str.injEq, Json.num.injEq, Json.bool.injEq, true_and, and_true] at h
  obtain ⟨hdomains, ⟨hscheme, hhost, hport⟩, hcert, hssl, hlist, hskip⟩ := h
  have hnames : a.domains = b.domains := by
    refine List.map_injective_iff.mpr ?_ hdomains
    intro d d' hd
    exact Subtype.ext (Json.str.inj hd)
  cases a
  cases b
  cases accessListJson_injective hlist
  simp_all

theorem Stream.json_injective : Function.Injective Stream.json := by
  intro a b h
  cases a with | mk port protocol host forward list =>
  cases b with | mk port' protocol' host' forward' list' =>
  cases list <;> cases list' <;>
    simp_all [Stream.json]

theorem sliceJson_injective : Function.Injective sliceJson := by
  intro a b h
  cases a <;> cases b <;> simp_all [sliceJson]

/-- Two sets with one signature are one set. -/
theorem routeSignature_injective : Function.Injective routeSignature := by
  intro a b h
  obtain ⟨hhosts, hrest⟩ :=
    Json.text_append_inj _ _ (stops_cons (by decide)) (stops_cons (by decide)) h
  have htail := List.tail_eq_of_cons_eq hrest
  rw [← List.append_nil (Json.text _), ← List.append_nil (Json.text (sliceJson (b.streams.map _)))]
    at htail
  obtain ⟨hstreams, -⟩ := Json.text_append_inj _ _ stops_nil stops_nil htail
  have hh := List.map_injective_iff.mpr Host.json_injective (sliceJson_injective hhosts)
  have hs := List.map_injective_iff.mpr Stream.json_injective (sliceJson_injective hstreams)
  cases a
  cases b
  simp_all

theorem routeSignature_ne_nil (set : RouteSet) : routeSignature set ≠ [] := by
  simp [routeSignature]

/-! ### What was reported and configured before a read

The steps before a read say what it finds.  `Took` picks out the reads of the aggregation that
began last. -/

def report (i : Nat) : Label → Option (List RawDerived)
  | .reconcile j (.ok list) => if j = i then some (rawOf list) else none
  | _ => none

def latest (labels : List Label) (i : Nat) : List RawDerived :=
  (labels.filterMap (report i)).getLast?.getD []

def configured : Label → Option Manual
  | .change manual => some manual
  | _ => none

/-- The manual configuration after the steps. -/
def manualAfter (manual : Manual) (labels : List Label) : Manual :=
  (labels.filterMap configured).getLast?.getD manual

theorem latest_concat (labels : List Label) (label : Label) (i : Nat) :
    latest (labels ++ [label]) i = (report i label).getD (latest labels i) := by
  unfold latest
  rw [List.filterMap_append]
  cases hreport : report i label <;> simp [hreport]

theorem manualAfter_concat (manual : Manual) (labels : List Label) (label : Label) :
    manualAfter manual (labels ++ [label]) =
      (configured label).getD (manualAfter manual labels) := by
  unfold manualAfter
  rw [List.filterMap_append]
  cases hconf : configured label <;> simp [hconf]

def Label.begins : Label → Bool
  | .listHosts _ => true
  | _ => false

/-- The aggregation that began last took the step `label`, after the steps `past`. -/
def Took (labels : List Label) (label : Label) (past : List Label) : Prop :=
  ∃ rest, labels = past ++ label :: rest ∧ ∀ l ∈ rest, l.begins = false

theorem took_self (past : List Label) (label : Label) : Took (past ++ [label]) label past :=
  ⟨[], rfl, nofun⟩

theorem Took.concat {labels past : List Label} {label next : Label} (h : Took labels label past)
    (hnext : next.begins = false) : Took (labels ++ [next]) label past := by
  obtain ⟨rest, rfl, hrest⟩ := h
  refine ⟨rest ++ [next], by simp, ?_⟩
  intro l hl
  rcases List.mem_append.mp hl with hl | hl
  · exact hrest l hl
  · rwa [List.mem_singleton.mp hl]

section Reads

variable (manual : Manual) (labels : List Label)

def HostsRead (hosts : Option (List Store.Host)) : Prop :=
  ∃ past ok, Took labels (.listHosts ok) past ∧
    hosts = if ok then some (manualAfter manual past).hosts else none

def PortsRead (ports : List Int) : Prop :=
  ∃ past, Took labels .reservedPorts past ∧ ports = (manualAfter manual past).reserved

def StreamsRead (streams : Option (List Store.Stream)) : Prop :=
  ∃ past ok, Took labels (.listStreams ok) past ∧
    streams = if ok then some (manualAfter manual past).streams else none

def EndpointRead (i : Nat) (raw : List RawDerived) : Prop :=
  ∃ past, Took labels (.readEndpoint i) past ∧ raw = latest past i

/-- What the aggregation that began last has read: the manual configuration, and of every
endpoint it has come to the last successful derivation, each as it was at its read. -/
structure ReadsOf (r : Reads) : Prop where
  hosts : HostsRead manual labels r.hosts
  reserved : PortsRead manual labels r.reserved
  streams : StreamsRead manual labels r.streams
  raws : ∀ i raw, r.raws[i]? = some raw → EndpointRead labels i raw

end Reads

/-! ### The steps

`Stepped` says of each step what it asks for and what it leaves, for the proofs below. -/

section Step

variable {table : CaseTable} {s s' : State} {label : Label}

theorem Endpoint.reconcile_name (ep : Endpoint) (outcome : Except String (List Inspected)) :
    (ep.reconcile outcome).name = ep.name := by
  cases outcome <;> rfl

/-- Only a successful listing changes what an endpoint contributes. -/
theorem Endpoint.reconcile_raw (ep : Endpoint) (i : Nat)
    (outcome : Except String (List Inspected)) :
    (ep.reconcile outcome).raw = (report i (.reconcile i outcome)).getD ep.raw := by
  cases outcome <;> simp [Endpoint.reconcile, Endpoint.setDown, report]

@[simp] theorem apply_eps (set : RouteSet) : (s.apply set).eps = s.eps := by
  unfold State.apply
  split_ifs <;> rfl

@[simp] theorem apply_manual (set : RouteSet) : (s.apply set).manual = s.manual := by
  unfold State.apply
  split_ifs <;> rfl

theorem report_of_ne {i j : Nat} (hne : j ≠ i) (outcome : Except String (List Inspected)) :
    report j (.reconcile i outcome) = none := by
  cases outcome with
  | error err => rfl
  | ok list => simp [report, hne.symm]

/-- What each step asks for and what it leaves. -/
inductive Stepped (table : CaseTable) (s : State) : Label → State → Prop
  | reconcile {i ep outcome} (hep : s.eps[i]? = some ep) :
      Stepped table s (.reconcile i outcome) { s with eps := s.eps.set i (ep.reconcile outcome) }
  | setDown {i ep err} (hep : s.eps[i]? = some ep) :
      Stepped table s (.setDown i err) { s with eps := s.eps.set i (ep.setDown err) }
  | change {manual} : Stepped table s (.change manual) { s with manual }
  | listHosts {ok} (hphase : s.phase = .idle) :
      Stepped table s (.listHosts ok)
        { s with phase := .listed (if ok then some s.manual.hosts else none) }
  | reservedPorts {hosts} (hphase : s.phase = .listed hosts) :
      Stepped table s .reservedPorts { s with phase := .reserved hosts s.manual.reserved }
  | listStreams {ok hosts ports} (hphase : s.phase = .reserved hosts ports) :
      Stepped table s (.listStreams ok)
        { s with phase := .reading ⟨hosts, ports, if ok then some s.manual.streams else none, []⟩ }
  | readEndpoint {ep r} (hphase : s.phase = .reading r) (hep : s.eps[r.raws.length]? = some ep) :
      Stepped table s (.readEndpoint r.raws.length)
        { s with phase := .reading { r with raws := r.raws ++ [ep.raw] } }
  | finish {r} (hphase : s.phase = .reading r) (hlen : r.raws.length = s.eps.length) :
      Stepped table s .finish
        { s.apply (r.aggregate table (s.eps.map (·.name))) with phase := .idle }

theorem stepped_of_step (h : step table s label = some s') : Stepped table s label s' := by
  cases label with
  | reconcile i outcome =>
      obtain ⟨ep, hep, rfl⟩ := Option.map_eq_some_iff.mp h
      exact .reconcile hep
  | setDown i err =>
      obtain ⟨ep, hep, rfl⟩ := Option.map_eq_some_iff.mp h
      exact .setDown hep
  | change manual =>
      obtain rfl := Option.some.inj h
      exact .change
  | listHosts ok =>
      simp only [step] at h
      split at h
      case h_1 hphase =>
        obtain rfl := Option.some.inj h
        exact .listHosts hphase
      case h_2 => cases h
  | reservedPorts =>
      simp only [step] at h
      split at h
      case h_1 hosts hphase =>
        obtain rfl := Option.some.inj h
        exact .reservedPorts hphase
      case h_2 => cases h
  | listStreams ok =>
      simp only [step] at h
      split at h
      case h_1 hosts ports hphase =>
        obtain rfl := Option.some.inj h
        exact .listStreams hphase
      case h_2 => cases h
  | readEndpoint i =>
      simp only [step] at h
      split at h
      case h_1 r ep hphase hep =>
        split_ifs at h with hi
        subst hi
        obtain rfl := Option.some.inj h
        exact .readEndpoint hphase hep
      case h_2 => cases h
  | finish =>
      simp only [step] at h
      split at h
      case h_1 r hphase =>
        split_ifs at h with hlen
        obtain rfl := Option.some.inj h
        exact .finish hphase hlen
      case h_2 => cases h

/-- The endpoint that reports or fails is replaced, under its name. -/
theorem replaced_eps {eps : List Endpoint} {i : Nat} {ep new : Endpoint} (hep : eps[i]? = some ep)
    (hname : new.name = ep.name) : (eps.set i new).map (·.name) = eps.map (·.name) := by
  obtain ⟨hi, rfl⟩ := List.getElem?_eq_some_iff.mp hep
  rw [List.map_set, hname]
  refine List.ext_getElem (by simp) fun j hj hj' => ?_
  rw [List.getElem_set]
  split_ifs with hij
  · subst hij
    simp
  · rfl

theorem step_names (h : Stepped table s label s') :
    s'.eps.map (·.name) = s.eps.map (·.name) := by
  cases h with
  | reconcile hep => exact replaced_eps hep (Endpoint.reconcile_name _ _)
  | setDown hep => exact replaced_eps hep rfl
  | finish => rw [apply_eps]
  | _ => rfl

/-- What an endpoint contributes after a step. -/
theorem step_raw (h : Stepped table s label s') {j : Nat} {ep' : Endpoint}
    (hj : s'.eps[j]? = some ep') :
    ∃ ep, s.eps[j]? = some ep ∧ ep'.raw = (report j label).getD ep.raw := by
  cases h with
  | @reconcile i ep outcome hep =>
      rcases getElem?_set_eq_some hj with ⟨rfl, rfl⟩ | ⟨hne, hj⟩
      · exact ⟨ep, hep, ep.reconcile_raw j outcome⟩
      · exact ⟨ep', hj, by rw [report_of_ne hne outcome]; rfl⟩
  | @setDown i ep err hep =>
      rcases getElem?_set_eq_some hj with ⟨rfl, rfl⟩ | ⟨hne, hj⟩
      · exact ⟨ep, hep, rfl⟩
      · exact ⟨ep', hj, rfl⟩
  | finish =>
      rw [apply_eps] at hj
      exact ⟨ep', hj, rfl⟩
  | _ => exact ⟨ep', hj, rfl⟩

theorem step_manual (h : Stepped table s label s') :
    s'.manual = (configured label).getD s.manual := by
  cases h with
  | finish => exact apply_manual _
  | _ => rfl

end Step

/-! ### The run

`Inv` relates the state to the steps that led to it: what was read, what was computed from it,
and what the engine has. -/

section Run

variable (table : CaseTable) (names : List String) (manual : Manual)

/-- The set that an aggregation computes whose reads are the last of the steps. -/
def Computed (labels : List Label) (set : RouteSet) : Prop :=
  ∃ r, ReadsOf manual labels r ∧ r.raws.length = names.length ∧ set = r.aggregate table names

/-- What the aggregation under way has read. -/
def PhaseOk (labels : List Label) : Phase → Prop
  | .idle => True
  | .listed hosts => HostsRead manual labels hosts
  | .reserved hosts ports => HostsRead manual labels hosts ∧ PortsRead manual labels ports
  | .reading r => ReadsOf manual labels r

/-- The state after the steps. -/
structure Inv (labels : List Label) (s : State) : Prop where
  eps_names : s.eps.map (·.name) = names
  raws : ∀ i ep, s.eps[i]? = some ep → ep.raw = latest labels i
  manual_eq : s.manual = manualAfter manual labels
  phase : PhaseOk manual labels s.phase
  signed : s.lastSig = [] ∨ s.lastSig = routeSignature s.engine
  applied : ∀ set ∈ s.applied, ∃ past rest, labels = past ++ .finish :: rest ∧
    Computed table names manual past set
  engine : ∀ past rest, labels = past ++ .finish :: rest → (∀ l ∈ rest, l ≠ .finish) →
    Computed table names manual past s.engine

end Run

section Inv

variable {table : CaseTable} {names : List String} {manual : Manual} {labels : List Label}
  {label : Label} {s s' : State}

theorem HostsRead.concat {hosts : Option (List Store.Host)} (h : HostsRead manual labels hosts)
    (hnext : label.begins = false) : HostsRead manual (labels ++ [label]) hosts := by
  obtain ⟨past, ok, htook, hhosts⟩ := h
  exact ⟨past, ok, htook.concat hnext, hhosts⟩

theorem PortsRead.concat {ports : List Int} (h : PortsRead manual labels ports)
    (hnext : label.begins = false) : PortsRead manual (labels ++ [label]) ports := by
  obtain ⟨past, htook, hports⟩ := h
  exact ⟨past, htook.concat hnext, hports⟩

theorem ReadsOf.concat {r : Reads} (h : ReadsOf manual labels r) (hnext : label.begins = false) :
    ReadsOf manual (labels ++ [label]) r where
  hosts := h.hosts.concat hnext
  reserved := h.reserved.concat hnext
  streams := by
    obtain ⟨past, ok, htook, hstreams⟩ := h.streams
    exact ⟨past, ok, htook.concat hnext, hstreams⟩
  raws := by
    intro i raw hraw
    obtain ⟨past, htook, hlatest⟩ := h.raws i raw hraw
    exact ⟨past, htook.concat hnext, hlatest⟩

theorem PhaseOk.concat {phase : Phase} (h : PhaseOk manual labels phase)
    (hnext : label.begins = false) : PhaseOk manual (labels ++ [label]) phase := by
  cases phase with
  | idle => trivial
  | listed hosts => exact HostsRead.concat h hnext
  | reserved hosts ports => exact ⟨HostsRead.concat h.1 hnext, PortsRead.concat h.2 hnext⟩
  | reading r => exact ReadsOf.concat h hnext

/-- Every read is of what the steps before it left. -/
theorem Inv.step_phase (hs : Inv table names manual labels s) (h : Stepped table s label s') :
    PhaseOk manual (labels ++ [label]) s'.phase := by
  have hphase := hs.phase
  cases h with
  | reconcile hep => exact hphase.concat rfl
  | setDown hep => exact hphase.concat rfl
  | change => exact hphase.concat rfl
  | @listHosts ok hidle =>
      refine ⟨labels, ok, took_self labels _, ?_⟩
      rw [hs.manual_eq]
  | @reservedPorts hosts hlisted =>
      rw [hlisted] at hphase
      exact ⟨HostsRead.concat hphase rfl, labels, took_self labels _, by rw [hs.manual_eq]⟩
  | @listStreams ok hosts ports hreserved =>
      rw [hreserved] at hphase
      refine ⟨HostsRead.concat hphase.1 rfl, PortsRead.concat hphase.2 rfl, ?_, nofun⟩
      exact ⟨labels, ok, took_self labels _, by rw [hs.manual_eq]⟩
  | @readEndpoint ep r hreading hep =>
      rw [hreading] at hphase
      have hold : ReadsOf manual (labels ++ [.readEndpoint r.raws.length]) r :=
        ReadsOf.concat hphase rfl
      refine ⟨hold.hosts, hold.reserved, hold.streams, ?_⟩
      intro i raw hraw
      rcases getElem?_concat_eq_some hraw with ⟨rfl, rfl⟩ | hraw
      · exact ⟨labels, took_self labels _, hs.raws _ ep hep⟩
      · exact hold.raws i raw hraw
  | finish => trivial

/-- The set computed last is the one the engine has, handed over now or before. -/
theorem engine_apply (set : RouteSet)
    (hsigned : s.lastSig = [] ∨ s.lastSig = routeSignature s.engine) :
    (s.apply set).engine = set ∧ (s.apply set).lastSig = routeSignature set := by
  unfold State.apply
  split_ifs with hsig
  · exact ⟨rfl, rfl⟩
  · rw [not_not] at hsig
    rcases hsigned with hempty | hsame
    · exact absurd (hsig.trans hempty) (routeSignature_ne_nil set)
    · exact ⟨(routeSignature_injective (hsig.trans hsame)).symm, hsig.symm⟩

theorem mem_applied_apply {set set' : RouteSet} (h : set' ∈ (s.apply set).applied) :
    set' ∈ s.applied ∨ set' = set := by
  unfold State.apply at h
  split_ifs at h
  · simpa using h
  · exact Or.inl h

/-- Only the end of an aggregation touches what the engine has. -/
theorem step_engine (h : Stepped table s label s') (hne : label ≠ .finish) :
    s'.engine = s.engine ∧ s'.lastSig = s.lastSig ∧ s'.applied = s.applied := by
  cases h with
  | finish => exact absurd rfl hne
  | _ => exact ⟨rfl, rfl, rfl⟩

/-- The last step of a history with a step `f` in it. -/
theorem concat_eq_split {past rest : List Label} {f : Label}
    (h : labels ++ [label] = past ++ f :: rest) :
    (rest = [] ∧ labels = past ∧ label = f) ∨
      ∃ rest', rest = rest' ++ [label] ∧ labels = past ++ f :: rest' := by
  rcases List.eq_nil_or_concat rest with rfl | ⟨rest', last, rfl⟩
  · obtain ⟨hpast, hlast⟩ := List.append_inj' h rfl
    exact Or.inl ⟨rfl, hpast, (List.cons.inj hlast).1⟩
  · right
    rw [List.concat_eq_append, ← List.cons_append, ← List.append_assoc] at h
    obtain ⟨hpast, hlast⟩ := List.append_inj' h rfl
    rw [List.concat_eq_append, (List.cons.inj hlast).1]
    exact ⟨rest', rfl, hpast⟩

/-- The sets handed over so far were computed by aggregations that are over. -/
theorem Inv.step_applied (hs : Inv table names manual labels s) (h : Stepped table s label s') :
    ∀ set ∈ s'.applied, ∃ past rest, labels ++ [label] = past ++ .finish :: rest ∧
      Computed table names manual past set := by
  have hold : ∀ set ∈ s.applied, ∃ past rest, labels ++ [label] = past ++ .finish :: rest ∧
      Computed table names manual past set := by
    intro set hset
    obtain ⟨past, rest, rfl, hcomputed⟩ := hs.applied set hset
    exact ⟨past, rest ++ [label], by simp, hcomputed⟩
  intro set hset
  cases h with
  | @finish r hphase hlen =>
      rcases mem_applied_apply hset with hset | rfl
      · exact hold set hset
      · have hreads := hs.phase
        rw [hphase] at hreads
        refine ⟨labels, [], rfl, r, hreads, ?_, ?_⟩
        · rw [hlen, ← hs.eps_names, List.length_map]
        · rw [hs.eps_names]
  | _ => exact hold set hset

/-- After an aggregation, and until another is over, the engine has the set it computed. -/
theorem Inv.step_engine (hs : Inv table names manual labels s) (h : Stepped table s label s') :
    ∀ past rest, labels ++ [label] = past ++ .finish :: rest → (∀ l ∈ rest, l ≠ .finish) →
      Computed table names manual past s'.engine := by
  intro past rest hsplit hrest
  rcases concat_eq_split hsplit with ⟨rfl, rfl, rfl⟩ | ⟨rest', rfl, hlabels⟩
  · cases h with
    | @finish r hphase hlen =>
        have hreads := hs.phase
        rw [hphase] at hreads
        refine ⟨r, hreads, ?_, ?_⟩
        · rw [hlen, ← hs.eps_names, List.length_map]
        · rw [(engine_apply _ hs.signed).1, hs.eps_names]
  · have hne := hrest label (List.mem_append_right _ List.mem_cons_self)
    rw [(Docker.step_engine h hne).1]
    exact hs.engine past rest' hlabels fun l hl => hrest l (List.mem_append_left _ hl)

theorem Inv.step_signed (hs : Inv table names manual labels s) (h : Stepped table s label s') :
    s'.lastSig = [] ∨ s'.lastSig = routeSignature s'.engine := by
  have hsigned := hs.signed
  cases h with
  | finish =>
      obtain ⟨hengine, hsig⟩ := engine_apply _ hsigned
      right
      exact hsig.trans (congrArg routeSignature hengine.symm)
  | _ => exact hsigned

theorem Inv.step (hs : Inv table names manual labels s) (h : Stepped table s label s') :
    Inv table names manual (labels ++ [label]) s' where
  eps_names := (step_names h).trans hs.eps_names
  raws := by
    intro i ep' hep'
    obtain ⟨ep, hep, hraw⟩ := step_raw h hep'
    rw [hraw, latest_concat, hs.raws i ep hep]
  manual_eq := by rw [step_manual h, manualAfter_concat, hs.manual_eq]
  phase := hs.step_phase h
  signed := hs.step_signed h
  applied := hs.step_applied h
  engine := hs.step_engine h

theorem inv_init (table : CaseTable) (names : List String) (manual : Manual) :
    Inv table names manual [] (init names manual) where
  eps_names := by simp [init, Function.comp_def]
  raws := by
    intro i ep hep
    simp only [init, List.getElem?_map, Option.map_eq_some_iff] at hep
    obtain ⟨name, -, rfl⟩ := hep
    rfl
  manual_eq := rfl
  phase := trivial
  signed := Or.inl rfl
  applied := nofun
  engine := by
    intro past rest h
    simp at h

theorem inv_of_run (hrun : run (step table) (init names manual) labels = some s) :
    Inv table names manual labels s :=
  run_history (fun _ _ _ _ hs hstep => hs.step (stepped_of_step hstep))
    (inv_init table names manual)
    hrun

end Inv

/-! ### What the engine is handed

A set is conflict-free by the merge, whatever its aggregation read. -/

/-- The set keeps clear of itself and of the manual configuration its aggregation read. -/
structure ConflictFree (table : CaseTable) (r : Reads) (set : RouteSet) : Prop where
  /-- No two of its names are the same name, however they are spelled. -/
  names_distinct : (set.names.map (toLower table)).Nodup
  ports_distinct : set.ports.Nodup
  /-- No name is configured on a manual host, which may be switched off. -/
  names_free : ∀ hosts, r.hosts = some hosts → ∀ h ∈ hosts, ∀ taken ∈ h.domains, ∀ d ∈ set.names,
    toLower table taken ≠ toLower table d ∧ ¬ Covers (toLower table taken) (toLower table d)
  ports_unreserved : ∀ port ∈ set.ports, port ∉ r.reserved
  ports_free : ∀ streams, r.streams = some streams → ∀ st ∈ streams, ∀ port ∈ set.ports,
    ¬ (st.listenPort ≤ port ∧ port ≤ max st.listenPort st.listenPortEnd)

theorem conflictFree_aggregate (table : CaseTable) (names : List String) (r : Reads) :
    ConflictFree table r (r.aggregate table names) := by
  have hok := mergeAll_ok (existingDomains table r.hosts) (usedPort r.reserved r.streams)
    (names.zip r.raws)
  constructor
  case names_distinct =>
    have hlower : (r.aggregate table names).names.map (toLower table) =
        (r.aggregate table names).names :=
      (List.map_congr_left fun d hd => toLower_of_matches_table table (hok.names.valid d hd)).trans
        (List.map_id _)
    rw [hlower]
    exact hok.names.nodup
  case ports_distinct => exact hok.ports.nodup
  case names_free =>
    intro hosts hhosts h hh taken htaken d hd
    have hmem : toLower table taken ∈ existingDomains table r.hosts := by
      rw [hhosts]
      exact List.mem_flatMap.mpr ⟨h, hh, List.mem_map_of_mem htaken⟩
    rw [toLower_of_matches_table table (hok.names.valid d hd)]
    constructor
    · intro heq
      exact hok.names.free d hd (heq ▸ hmem)
    · intro hcovers
      rcases coveringWildcard_of_covers hcovers with heq | heq
      · exact hok.names.free d hd (heq ▸ hmem)
      · refine hok.names.uncovered d hd ?_ (heq.symm ▸ hmem)
        obtain ⟨label, rest, -, -, -, hwild⟩ := hcovers
        rw [heq]
        intro hempty
        rw [hempty] at hwild
        cases hwild
  case ports_unreserved =>
    intro port hport hreserved
    have hused := hok.ports.free port hport
    simp [usedPort, hreserved] at hused
  case ports_free =>
    intro streams hstreams st hst port hport hrange
    have hused := hok.ports.free port hport
    simp only [usedPort, hstreams, Bool.or_eq_false_iff] at hused
    have hany := List.any_eq_false.mp hused.2 st hst
    simp only [Bool.and_eq_true, decide_eq_true_eq] at hany
    exact hany hrange

/-- **Docker aggregation.**  In every run of the provider, whatever is handed to the
engine was computed by an aggregation from the manual configuration and the endpoints'
last successful derivations, as they were when it read them, in the order of the
endpoints; it keeps clear of itself and of what was read; and from the end of an
aggregation to the end of the next, the engine has what the aggregation computed. -/
theorem engine_has_latest (table : CaseTable) (names : List String) (manual : Manual)
    {labels : List Label} {s : State}
    (hrun : run (step table) (init names manual) labels = some s) :
    (∀ set ∈ s.applied, ∃ past rest r, labels = past ++ .finish :: rest ∧
      ReadsOf manual past r ∧ r.raws.length = names.length ∧
      set = r.aggregate table names ∧ ConflictFree table r set) ∧
    (∀ past rest, labels = past ++ .finish :: rest → (∀ l ∈ rest, l ≠ .finish) →
      ∃ r, ReadsOf manual past r ∧ r.raws.length = names.length ∧
        s.engine = r.aggregate table names ∧ ConflictFree table r s.engine) := by
  have hs := inv_of_run hrun
  constructor
  · intro set hset
    obtain ⟨past, rest, hlabels, r, hreads, hlen, rfl⟩ := hs.applied set hset
    exact ⟨past, rest, r, hlabels, hreads, hlen, rfl, conflictFree_aggregate table names r⟩
  · intro past rest hlabels hrest
    obtain ⟨r, hreads, hlen, hengine⟩ := hs.engine past rest hlabels hrest
    rw [hengine]
    exact ⟨r, hreads, hlen, rfl, conflictFree_aggregate table names r⟩

def manualHost (d : String) (enabled : Bool) : Store.Host :=
  { Store.Host.zero with domains := [d], enabled }

def container (name : String) (domains : List Name) (port : Int) : Inspected :=
  (name, .ok ⟨name, true, some ⟨domains, "http", "127.0.0.1", 8000, "auto", true, none, false⟩,
    [⟨port, "tcp", "127.0.0.1", port, none⟩]⟩)

def nameOf (d : String) (h : matchesDomainRe d = true) : Name := ⟨d, h⟩

/-- Two endpoints derive one name and one port; a third name belongs to a manual host that
is switched off, and a fourth is under a manual wildcard.  Then the first endpoint fails,
and a second aggregation begins. -/
def twoEndpoints : List Label :=
  let app := nameOf "app.example.com" (by decide +kernel)
  let off := nameOf "off.example.com" (by decide +kernel)
  let wild := nameOf "x.wild.example.com" (by decide +kernel)
  let other := nameOf "other.example.com" (by decide +kernel)
  [.change ⟨[manualHost "off.example.com" false, manualHost "*.wild.example.com" true], [], [443]⟩,
    .reconcile 1 (.ok [container "b" [app, other] 5000]), .listHosts true, .reservedPorts,
    .reconcile 0 (.ok [container "a" [app, off, wild] 5000]), .listStreams true, .readEndpoint 0,
    .setDown 0 "ping", .readEndpoint 1, .finish, .listHosts true, .reservedPorts]

theorem engine_has_latest_twoEndpoints :
    ∃ s, run (step ⟨id, id⟩) (init ["local", "nas"] ⟨[], [], []⟩) twoEndpoints = some s ∧
      s.engine.names = ["app.example.com", "other.example.com"] ∧ s.engine.ports = [5000] ∧
      (∀ set ∈ s.applied, ∃ past rest r, twoEndpoints = past ++ .finish :: rest ∧
        ReadsOf ⟨[], [], []⟩ past r ∧ r.raws.length = 2 ∧
        set = r.aggregate ⟨id, id⟩ ["local", "nas"] ∧ ConflictFree ⟨id, id⟩ r set) := by
  have hend : (run (step ⟨id, id⟩) (init ["local", "nas"] ⟨[], [], []⟩) twoEndpoints).map
      (fun s => (s.engine.names, s.engine.ports)) =
        some (["app.example.com", "other.example.com"], [5000]) := by decide +kernel
  obtain ⟨s, hrun, hset⟩ := Option.map_eq_some_iff.mp hend
  obtain ⟨hnames, hports⟩ := Prod.mk.inj hset
  exact ⟨s, hrun, hnames, hports, (engine_has_latest ⟨id, id⟩ ["local", "nas"] _ hrun).1⟩

end Quicgate.Docker
