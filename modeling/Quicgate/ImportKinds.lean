import Quicgate.HostNames
import Quicgate.NormalForms
import Quicgate.StreamPorts
import Quicgate.Upserts

/-!
# The three kinds of entries of a document

An import writes access lists, hosts and streams in three loops of one shape
(`internal/store/import.go`).  Each is an `Upsert`: a list takes up its name, a host its
names, a stream its ports.  `importList_turn`, `importHost_turn` and
`importStream_turn` say that a turn of the loop is a turn of the kind, and
`runs_of_importLists` and its companions that a loop is a run of turns.
-/

namespace Quicgate.Store

open Quicgate.GoStrings Quicgate.Access Quicgate.Checks Quicgate.Sql

variable {lib : Lib}

/-! ### References do not look at every table

A check of references only looks at the tables it names, so one kind does not disturb the next. -/

theorem checkHostRefs_congr {db db' : Db} (h : db'.resolves = db.resolves) (host : Host) :
    checkHostRefs lib db' host = checkHostRefs lib db host := by
  simp only [checkHostRefs, requireRows, h]

/-- A list names no other list. -/
theorem list_not_mem_subjectNamed {i : Nat} {s : VPNSubject} {id : Int} :
    Ref.list id ∉ (subjectNamed i s).refs := by
  unfold subjectNamed
  split
  · simp [namesProvider, Named.refs]
  · split
    · simp only
      split <;> simp [Named.refs]
    · simp [Named.refs]

theorem list_not_mem_listRefs {a : AccessList} {id : Int} : Ref.list id ∉ listRefs a := by
  suffices h : ∀ rules i, Ref.list id ∉ Named.refs (rulesNamed i rules) from h a.rules 1
  intro rules
  induction rules with
  | nil => simp [rulesNamed, Named.refs]
  | cons rule rest ih =>
      intro i
      simp only [rulesNamed, Named.refs, List.map_append, List.mem_append, not_or]
      refine ⟨?_, ih (i + 1)⟩
      cases rule.vpn with
      | none => simp
      | some s => exact list_not_mem_subjectNamed

theorem resolves_lists {db : Db} {accessLists : Table AccessList} {a : AccessList} :
    (∀ r ∈ listRefs a, ({ db with accessLists } : Db).resolves r = true) ↔
      ∀ r ∈ listRefs a, db.resolves r = true := by
  refine forall₂_congr fun r hr => ?_
  cases r with
  | list id => exact absurd hr list_not_mem_listRefs
  | _ => rfl

/-! ### Keys

The key of a host is its sorted names, joined; names have no comma, so the key gives them back. -/

/-- Valid names are told from one another in the key. -/
theorem comma_not_mem_of_matches {d : String} (h : matchesDomainRe d = true) : ',' ∉ d.toList := by
  intro hmem
  exact absurd (isNameChar_of_matches h ',' hmem) (by decide)

theorem normal_ne_empty {d : String} (h : matchesDomainRe d = true) : d ≠ "" := by
  rintro rfl
  exact absurd h (by decide)

def sortedNames (domains : List String) : List String := domains.insertionSort (· ≤ ·)

theorem domainKey_of_valid {domains : List String} (h : ∀ d ∈ domains, matchesDomainRe d = true) :
    domainKey lib domains =
      String.ofList (List.intercalate [','] ((sortedNames domains).map String.toList)) := by
  unfold domainKey sortedNames
  rw [map_normal h]
  simp only
  rw [List.filter_eq_self.mpr]
  intro d hd
  simpa using normal_ne_empty (h d hd)

theorem mem_sortedNames {domains : List String} {d : String} :
    d ∈ sortedNames domains ↔ d ∈ domains :=
  (List.perm_insertionSort _ _).mem_iff

/-- Hosts of one key have the same names. -/
theorem sortedNames_of_domainKey {domains domains' : List String}
    (h : ∀ d ∈ domains, matchesDomainRe d = true) (h' : ∀ d ∈ domains', matchesDomainRe d = true)
    (hne : domains ≠ []) (hkey : domainKey lib domains = domainKey lib domains') :
    sortedNames domains = sortedNames domains' := by
  rw [domainKey_of_valid h, domainKey_of_valid h'] at hkey
  have hjoined := String.ofList_injective hkey
  have hsplit : ∀ {ds : List String}, (∀ d ∈ ds, matchesDomainRe d = true) → ds ≠ [] →
      (List.intercalate [','] ((sortedNames ds).map String.toList)).splitOn ',' =
        (sortedNames ds).map String.toList := by
    intro ds hds hnil
    apply List.splitOn_intercalate
    · intro l hl
      obtain ⟨d, hd, rfl⟩ := List.mem_map.mp hl
      exact comma_not_mem_of_matches (hds d (mem_sortedNames.mp hd))
    · intro hempty
      obtain ⟨d, hd⟩ := List.exists_mem_of_ne_nil ds hnil
      have hin := mem_sortedNames.mpr hd
      rw [List.map_eq_nil_iff.mp hempty] at hin
      cases hin
  obtain ⟨d, hd⟩ := List.exists_mem_of_ne_nil domains hne
  have hne' : domains' ≠ [] := by
    rintro rfl
    have hlist := hsplit h hne
    rw [hjoined] at hlist
    have hin : d.toList ∈ (sortedNames domains).map String.toList :=
      List.mem_map_of_mem (mem_sortedNames.mpr hd)
    rw [← hlist] at hin
    simp [sortedNames, List.intercalate] at hin
    exact normal_ne_empty (h d hd) hin
  have hlists := hsplit h hne
  rw [hjoined, hsplit h' hne'] at hlists
  exact (List.map_injective_iff.mpr (fun _ _ h => String.toList_injective h) hlists).symm

/-- Hosts of one key have a name in common. -/
theorem common_name_of_domainKey {domains domains' : List String}
    (h : ∀ d ∈ domains, matchesDomainRe d = true) (h' : ∀ d ∈ domains', matchesDomainRe d = true)
    (hne : domains ≠ []) (hkey : domainKey lib domains = domainKey lib domains') :
    ∃ d ∈ domains, d ∈ domains' := by
  obtain ⟨d, hd⟩ := List.exists_mem_of_ne_nil domains hne
  have hsame := sortedNames_of_domainKey h h' hne hkey
  exact ⟨d, hd, mem_sortedNames.mp (hsame ▸ mem_sortedNames.mpr hd)⟩

/-! ### The kinds

Each kind says what is matched, what is guarded and what keeps apart. -/

/-- Access lists. The surroundings are the database before the loop and the salts. -/
def listUpsert (lib : Lib) :
    Upsert (Db × (Nat → Nat → Salt)) AccessList (Int × AccessListInput) String String where
  site := (·.name)
  asks := fun e => trim e.2.name
  key := id
  entryKey := fun e => trim e.2.name
  Apart := fun name name' => name ≠ name'
  Good := fun _ => True
  Guard := fun cur e =>
    ¬ ((cur.rules ≠ [] ∨ cur.users ≠ []) ∧ e.2.rules = [] ∧ e.2.users = [])
  Next := fun r n prev e v =>
    AccessListInput.validate lib (r.2 n) ((prev.map (·.users)).getD [])
        { e.2 with name := trim e.2.name } = .ok v ∧ ∀ ref ∈ listRefs v, r.1.resolves ref = true
  symm := fun _ _ h => h.symm
  next_site := by
    rintro r n prev e v ⟨hvalid, -⟩
    obtain ⟨rules, users, -, -, -, -, -, rfl⟩ := validate_eq_ok.mp hvalid
    exact ⟨trim_trim _, trivial, rfl⟩
  key_apart := fun _ _ hkey happart => happart hkey

/-- Hosts, their references bound. -/
def hostUpsert (lib : Lib) : Upsert Db Host Host (List String) String where
  site := (·.domains)
  asks := fun h => h.domains.map fun d => toLower lib.caseTable (trim d)
  key := domainKey lib
  entryKey := fun h => domainKey lib h.domains
  Apart := fun domains domains' => ∀ d ∈ domains, d ∉ domains'
  Good := fun domains => (∀ d ∈ domains, matchesDomainRe d = true) ∧ domains ≠ []
  Guard := fun cur h => protectionRemoved cur h = ""
  Next := fun db _ _ h v =>
    h.validate lib = .ok v ∧ checkHostRefs lib db v = .ok () ∧ v.domains.Nodup
  symm := fun _ _ happart d hd hd' => happart d hd' hd
  next_site := by
    rintro db n prev h v ⟨hvalid, -⟩
    have hkept := Host.validate_kept hvalid
    have hmatch := hkept.domainsValid
    have hne := hkept.domainsNe
    rw [hkept.domains] at hmatch hne
    refine ⟨hkept.domains, ⟨hmatch, hne⟩, ?_⟩
    unfold domainKey
    rw [map_normal hmatch]
  key_apart := by
    rintro domains domains' ⟨hmatch, hne⟩ ⟨hmatch', -⟩ hkey happart
    obtain ⟨d, hd, hd'⟩ := common_name_of_domainKey hmatch hmatch' hne hkey
    exact happart d hd hd'

structure Listener where
  protocol : String
  first : Int
  last : Int

def Stream.listener (st : Stream) : Listener := ⟨st.protocol, st.listenPort, st.rangeEnd⟩

def Listener.clashes (l o : Listener) : Bool :=
  protoOverlaps o.protocol l.protocol && decide (l.first ≤ o.last) && decide (o.first ≤ l.last)

theorem protoOverlaps_self (p : String) : protoOverlaps p p = true := by
  simp [protoOverlaps]

theorem Listener.clashes_symm (l o : Listener) (h : l.clashes o = false) : o.clashes l = false := by
  rw [← h]
  simp only [Listener.clashes, protoOverlaps_comm o.protocol l.protocol]
  ac_rfl

/-- The stored stream listens where its entry asks, on ports in order. -/
theorem Stream.listener_of_checkFields {reserved : List Int} {st v : Stream}
    (hproto : st.protocol ≠ "") (hfields : st.checkFields lib reserved = .ok v) :
    v.listener = st.listener ∧ st.listener.first ≤ st.listener.last := by
  obtain ⟨hsound, hkept⟩ := Stream.checkFields_eq_ok hfields
  have hend : v.rangeEnd = st.rangeEnd := by
    simp only [Stream.rangeEnd, hkept.listenPortEnd, hkept.listenPort]
  have hprotocol : v.protocol = st.protocol := by rw [hkept.protocol, if_neg hproto]
  have hsite : v.listener = st.listener := by
    simp only [Stream.listener, hprotocol, hkept.listenPort, hend]
  refine ⟨hsite, ?_⟩
  rw [← hsite]
  simp only [Stream.listener, Stream.rangeEnd]
  have hlisten := hsound.listenPort
  have hrange := hsound.listenPortEnd
  split <;> omega

/-- Listeners of one key have their first port in common. -/
theorem Listener.clashes_of_key {l o : Listener} (hl : l.first ≤ l.last) (ho : o.first ≤ o.last)
    (hkey : printInt l.first ++ "/" ++ l.protocol = printInt o.first ++ "/" ++ o.protocol) :
    l.clashes o = true := by
  have htexts := congrArg String.toList hkey
  simp only [String.toList_append] at htexts
  have hslash : "/".toList = ['/'] := rfl
  rw [hslash, List.append_assoc, List.append_assoc, List.singleton_append,
    List.singleton_append] at htexts
  obtain ⟨hport, hproto⟩ :=
    eq_of_first (slash_not_mem_printInt _) (slash_not_mem_printInt _) htexts
  have hport := printInt_injective (String.toList_injective hport)
  have hproto := String.toList_injective hproto
  simp only [Listener.clashes, ← hproto, protoOverlaps_self, Bool.true_and, Bool.and_eq_true,
    decide_eq_true_eq]
  omega

/-- Streams, with the access list bound and the protocol set. -/
def streamUpsert (lib : Lib) (reserved : List Int) : Upsert Db Stream Stream Listener String where
  site := (·.listener)
  asks := (·.listener)
  key := fun l => printInt l.first ++ "/" ++ l.protocol
  entryKey := streamKey
  Apart := fun l o => l.clashes o = false
  Good := fun l => l.first ≤ l.last
  Guard := fun cur st => ¬ (cur.restricted = true ∧ st.restricted = false)
  Next := fun db _ _ st v => st.protocol ≠ "" ∧ st.checkFields lib reserved = .ok v ∧
    ∀ ref ∈ v.refs, db.resolves ref = true
  symm := Listener.clashes_symm
  next_site := fun hnext =>
    have hlistener := Stream.listener_of_checkFields hnext.1 hnext.2.1
    ⟨hlistener.1, hlistener.2, rfl⟩
  key_apart := fun hl ho hkey happart =>
    Bool.false_ne_true (happart.symm.trans (Listener.clashes_of_key hl ho hkey))

/-! ### Turns

The code's turn and the kind's are related in both directions: what the code did was a turn,
and a turn can be done by the code. -/

/-- The loop as its kind sees it. -/
def Importing.loop {α : Type} (table : Db → Table α) (s : Importing α) : Loop String α :=
  ⟨table s.db, s.stored, s.tally.created, s.tally.updated⟩

variable {db : Db} {n : Nat}

theorem domainKey_ne_empty {domains : List String} (h : ∀ d ∈ domains, matchesDomainRe d = true)
    (hne : domains ≠ []) : domainKey lib domains ≠ "" := by
  intro hkey
  have hnone : domainKey lib domains = domainKey lib [] := hkey.trans rfl
  obtain ⟨d, -, hd⟩ := common_name_of_domainKey h (by simp) hne hnone
  cases hd

/-- Among hosts with valid names, the checks of a host are those of its kind. -/
theorem checkHost_iff {s : Importing Host} (hframe : s.db = { db with hosts := s.db.hosts })
    (hgood : ∀ id w, s.db.hosts.lookup id = some w → (hostUpsert lib).Good w.domains) {id : Int}
    {prev : Option Host} {h v : Host} :
    checkHost lib s.db id h = .ok v ↔
      (hostUpsert lib).Next db n prev h v ∧ (hostUpsert lib).Room s.db.hosts id v := by
  have hrefs : checkHostRefs lib s.db v = checkHostRefs lib db v := by
    refine checkHostRefs_congr ?_ v
    rw [hframe]
    exact resolves_hosts db s.db.hosts
  rw [checkHost_eq_ok, checkHostDomains_eq_ok, hrefs]
  constructor
  · rintro ⟨hvalid, hresolve, hothers, hnodup⟩
    have hnames := namesValid_of_validate hvalid
    rw [map_normal hnames] at hnodup
    refine ⟨⟨hvalid, hresolve, hnodup⟩, ?_⟩
    intro id' w hid hrow
    exact (sharesName_eq_false_iff hnames (hgood id' w hrow).1).mp
      (hothers (id', w) (Table.lookup_eq_some.mp hrow) hid)
  · rintro ⟨⟨hvalid, hresolve, hnodup⟩, hroom⟩
    have hnames := namesValid_of_validate hvalid
    rw [map_normal hnames]
    refine ⟨hvalid, hresolve, ?_, hnodup⟩
    rintro ⟨id', w⟩ hrow hid
    have hlookup := Table.lookup_eq_some.mpr hrow
    exact (sharesName_eq_false_iff hnames (hgood id' w hlookup).1).mpr (hroom id' w hid hlookup)

theorem importHost_turn {s s' : Importing Host} {h : Host}
    (hframe : s.db = { db with hosts := s.db.hosts })
    (hgood : ∀ id w, s.db.hosts.lookup id = some w → (hostUpsert lib).Good w.domains)
    (hturn : importHost lib n s h = .ok s') :
    (hostUpsert lib).Turn db n (s.loop (·.hosts)) h (s'.loop (·.hosts)) ∧
      s'.db = { db with hosts := s'.db.hosts } := by
  rcases importHost_eq_ok.mp hturn with ⟨id, cur, db', hfound, hguard, hupdate, rfl⟩ |
    ⟨db', kept, hnone, hcreate, rfl⟩
  · obtain ⟨kept, hcheck, hhas, rfl⟩ := updateHost_eq_ok.mp hupdate
    obtain ⟨hnext, hroom⟩ := (checkHost_iff (n := n) hframe hgood).mp hcheck
    constructor
    · refine .update ?_ hguard hnext hroom hhas
      unfold Importing.storedUnder at hfound
      split at hfound
      · cases hfound
      · exact hfound
    · simp only [Importing.updated]
      rw [hframe]
  · obtain ⟨hcheck, rfl⟩ := createHost_eq_ok.mp hcreate
    obtain ⟨hnext, hroom⟩ := (checkHost_iff (n := n) hframe hgood).mp hcheck
    obtain ⟨-, ⟨hmatch, hne⟩, hkey⟩ := (hostUpsert lib).next_site hnext
    constructor
    · refine .create ?_ hnext ?_
      · unfold Importing.storedUnder at hnone
        rw [if_neg] at hnone
        · exact hnone
        · intro hempty
          exact domainKey_ne_empty hmatch hne (hkey.trans hempty)
      · exact (Upsert.room_of_absent Table.lookup_zero Table.lookup_next).mp hroom
    · simp only [Importing.created]
      rw [hframe]

theorem exists_importHost {s : Importing Host} {h : Host} {t : Loop String Host}
    (hframe : s.db = { db with hosts := s.db.hosts })
    (hgood : ∀ id w, s.db.hosts.lookup id = some w → (hostUpsert lib).Good w.domains)
    (hturn : (hostUpsert lib).Turn db n (s.loop (·.hosts)) h t) :
    ∃ s', importHost lib n s h = .ok s' ∧ s'.loop (·.hosts) = t := by
  cases hturn with
  | @update id cur v hfound hguard hnext hroom hhas =>
      have hcheck := (checkHost_iff (n := n) hframe hgood).mpr ⟨hnext, hroom⟩
      obtain ⟨-, ⟨hmatch, hne⟩, hkey⟩ := (hostUpsert lib).next_site hnext
      refine ⟨_, importHost_eq_ok.mpr (Or.inl ⟨id, cur, _, ?_, hguard,
        updateHost_eq_ok.mpr ⟨v, hcheck, hhas, rfl⟩, rfl⟩), rfl⟩
      have hnot : domainKey lib h.domains ≠ "" := fun hempty =>
        domainKey_ne_empty hmatch hne (hkey.trans hempty)
      unfold Importing.storedUnder
      rw [if_neg hnot]
      exact hfound
  | @create v hnone hnext hroom =>
      have hroom₀ := (Upsert.room_of_absent Table.lookup_zero Table.lookup_next).mpr hroom
      have hcheck := (checkHost_iff (n := n) hframe hgood).mpr ⟨hnext, hroom₀⟩
      refine ⟨_, importHost_eq_ok.mpr (Or.inr ⟨_, v, ?_, createHost_eq_ok.mpr ⟨hcheck, rfl⟩,
        rfl⟩), rfl⟩
      unfold Importing.storedUnder
      split
      · rfl
      · exact hnone

/-- The checks of a stream are those of its kind. -/
theorem checkStream_iff {reserved : List Int} {s : Importing Stream}
    (hframe : s.db = { db with streams := s.db.streams }) {id : Int} {prev : Option Stream}
    {st v : Stream} (hproto : st.protocol ≠ "") :
    checkStream lib s.db reserved id st = .ok v ↔
      (streamUpsert lib reserved).Next db n prev st v ∧
        (streamUpsert lib reserved).Room s.db.streams id v := by
  have hresolves : s.db.resolves = db.resolves := by
    rw [hframe]
    exact resolves_streams db s.db.streams
  rw [checkStream_eq_ok, hresolves]
  constructor
  · rintro ⟨hfields, hothers, hrefs⟩
    refine ⟨⟨hproto, hfields, hrefs⟩, ?_⟩
    intro id' w hid hrow
    exact hothers (id', w) (Table.lookup_eq_some.mp hrow) hid
  · rintro ⟨⟨-, hfields, hrefs⟩, hroom⟩
    refine ⟨hfields, ?_, hrefs⟩
    rintro ⟨id', w⟩ hrow hid
    exact hroom id' w hid (Table.lookup_eq_some.mpr hrow)

theorem importStream_turn {reserved : List Int} {s s' : Importing Stream} {st : Stream}
    (hframe : s.db = { db with streams := s.db.streams }) (hproto : st.protocol ≠ "")
    (hturn : importStream lib reserved n s st = .ok s') :
    (streamUpsert lib reserved).Turn db n (s.loop (·.streams)) st (s'.loop (·.streams)) ∧
      s'.db = { db with streams := s'.db.streams } := by
  rcases importStream_eq_ok.mp hturn with ⟨id, cur, db', hfound, hguard, hupdate, rfl⟩ |
    ⟨db', kept, hnone, hcreate, rfl⟩
  · obtain ⟨kept, hcheck, hhas, rfl⟩ := updateStream_eq_ok.mp hupdate
    obtain ⟨hnext, hroom⟩ := (checkStream_iff (n := n) hframe hproto).mp hcheck
    refine ⟨.update hfound hguard hnext hroom hhas, ?_⟩
    simp only [Importing.updated]
    rw [hframe]
  · obtain ⟨hcheck, rfl⟩ := createStream_eq_ok.mp hcreate
    obtain ⟨hnext, hroom⟩ := (checkStream_iff (n := n) hframe hproto).mp hcheck
    constructor
    · have hturn' := Upsert.Turn.create (s := s.loop (·.streams)) hnone hnext
        ((Upsert.room_of_absent Table.lookup_zero Table.lookup_next).mp hroom)
      exact hturn'
    · simp only [Importing.created]
      rw [hframe]

theorem exists_importStream {reserved : List Int} {s : Importing Stream} {st : Stream}
    {t : Loop String Stream} (hframe : s.db = { db with streams := s.db.streams })
    (hproto : st.protocol ≠ "")
    (hturn : (streamUpsert lib reserved).Turn db n (s.loop (·.streams)) st t) :
    ∃ s', importStream lib reserved n s st = .ok s' ∧ s'.loop (·.streams) = t := by
  cases hturn with
  | @update id cur v hfound hguard hnext hroom hhas =>
      have hcheck := (checkStream_iff (n := n) hframe hproto).mpr ⟨hnext, hroom⟩
      exact ⟨_, importStream_eq_ok.mpr (Or.inl ⟨id, cur, _, hfound, hguard,
        updateStream_eq_ok.mpr ⟨v, hcheck, hhas, rfl⟩, rfl⟩), rfl⟩
  | @create v hnone hnext hroom =>
      have hroom₀ := (Upsert.room_of_absent Table.lookup_zero Table.lookup_next).mpr hroom
      have hcheck := (checkStream_iff (n := n) hframe hproto).mpr ⟨hnext, hroom₀⟩
      exact ⟨_, importStream_eq_ok.mpr (Or.inr ⟨_, v, hnone, createStream_eq_ok.mpr ⟨hcheck,
        rfl⟩, rfl⟩),
        rfl⟩

/-- No other list has the name. -/
theorem nameTaken_eq_false {id : Int} {v : AccessList} :
    nameTaken db id v.name = false ↔ (listUpsert lib).Room db.accessLists id v := by
  simp only [nameTaken, List.any_eq_false, Bool.and_eq_true, bne_iff_ne, beq_iff_eq, not_and]
  constructor
  · intro hfree id' w hid hrow hname
    exact hfree (id', w) (Table.lookup_eq_some.mp hrow) hid hname.symm
  · rintro hroom ⟨id', w⟩ hrow hid hname
    exact hroom id' w hid (Table.lookup_eq_some.mpr hrow) hname.symm

/-- The loop over the lists, with the ids that the references are bound to. -/
theorem importList_turn {salt : Nat → Nat → Salt} {s s' : Importing AccessList × List (Int × Int)}
    {e : Int × AccessListInput} (hframe : s.1.db = { db with accessLists := s.1.db.accessLists })
    (hturn : importList lib salt n s e = .ok s') :
    (listUpsert lib).Turn (db, salt) n (s.1.loop (·.accessLists)) e (s'.1.loop (·.accessLists)) ∧
      s'.1.db = { db with accessLists := s'.1.db.accessLists } ∧
      ∃ id cur, s'.1.stored.lookup (trim e.2.name) = some (id, cur) ∧
        s'.2 = bindList e.1 id s.2 := by
  have hrefs : ∀ {v}, (∀ r ∈ listRefs v, s.1.db.resolves r = true) ↔
      ∀ r ∈ listRefs v, db.resolves r = true := by
    rw [hframe]
    exact resolves_lists
  rcases importList_eq_ok.mp hturn with ⟨id, cur, db', hfound, hguard, hupdate, rfl⟩ |
    ⟨db', list, hnone, hcreate, rfl⟩
  · obtain ⟨prev, list, hprev, hvalid, hresolve, hfree, rfl⟩ := updateAccessList_eq_ok.mp hupdate
    refine ⟨?_, ?_, id, cur, hfound, rfl⟩
    · refine .update hfound hguard ⟨?_, hrefs.mp hresolve⟩ (nameTaken_eq_false.mp hfree) ?_
      · rw [show (s.1.loop (·.accessLists)).table = s.1.db.accessLists from rfl, hprev]
        exact hvalid
      · exact Table.has_iff.mpr ⟨prev, Table.lookup_eq_some.mp hprev⟩
    · simp only [Importing.updated]
      rw [hframe]
  · obtain ⟨hvalid, hresolve, hfree, rfl⟩ := createAccessList_eq_ok.mp hcreate
    have hname : list.name = trim e.2.name := by
      obtain ⟨rules, users, -, -, -, -, -, rfl⟩ := validate_eq_ok.mp hvalid
      exact trim_trim _
    refine ⟨?_, ?_, s.1.db.accessLists.seq + 1, list, ?_, rfl⟩
    · have hturn' := Upsert.Turn.create (U := listUpsert lib) (r := (db, salt)) (n := n)
        (s := s.1.loop (·.accessLists)) (e := e) hnone ⟨hvalid, hrefs.mp hresolve⟩
        (nameTaken_eq_false.mp hfree)
      exact hturn'
    · simp only [Importing.created]
      rw [hframe]
    · simp [Importing.created, hname]

theorem exists_importList {salt : Nat → Nat → Salt} {s : Importing AccessList × List (Int × Int)}
    {e : Int × AccessListInput} {t : Loop String AccessList}
    (hframe : s.1.db = { db with accessLists := s.1.db.accessLists })
    (hturn : (listUpsert lib).Turn (db, salt) n (s.1.loop (·.accessLists)) e t) :
    ∃ s', importList lib salt n s e = .ok s' ∧ s'.1.loop (·.accessLists) = t := by
  have hrefs : ∀ {v}, (∀ r ∈ listRefs v, s.1.db.resolves r = true) ↔
      ∀ r ∈ listRefs v, db.resolves r = true := by
    rw [hframe]
    exact resolves_lists
  cases hturn with
  | @update id cur v hfound hguard hnext hroom hhas =>
      obtain ⟨prev, hprev⟩ := Table.has_iff.mp hhas
      have hprev := Table.lookup_eq_some.mpr hprev
      obtain ⟨hvalid, hresolve⟩ := hnext
      rw [hprev] at hvalid
      exact ⟨_, importList_eq_ok.mpr (Or.inl ⟨id, cur, _, hfound, hguard,
        updateAccessList_eq_ok.mpr ⟨prev, v, hprev, hvalid, hrefs.mpr hresolve,
          nameTaken_eq_false.mpr hroom, rfl⟩, rfl⟩), rfl⟩
  | @create v hnone hnext hroom =>
      obtain ⟨hvalid, hresolve⟩ := hnext
      exact ⟨_, importList_eq_ok.mpr (Or.inr ⟨_, v, hnone,
        createAccessList_eq_ok.mpr ⟨hvalid, hrefs.mpr hresolve, nameTaken_eq_false.mpr hroom, rfl⟩,
        rfl⟩), rfl⟩

/-! ### Loops

The maps of stored entries list the rows at the start of a loop. -/

section Loops

variable {ρ σ α β ι : Type} {U : Upsert ρ α β ι String} {r : ρ} {f : Nat → σ → β → Check σ}
  (loop : σ → Loop String α) (P : σ → Prop) {entries : List β} {s s' : σ}

/-- A loop whose turns are turns of the kind. -/
theorem runs_of_foldEach
    (hstep : ∀ n s e s', e ∈ entries → P s → f n s e = .ok s' →
      U.Turn r n (loop s) e (loop s') ∧ P s')
    (hs : P s) (h : foldEach f n s entries = .ok s') :
    U.Runs r n (loop s) entries (loop s') ∧ P s' := by
  induction entries generalizing n s with
  | nil =>
      obtain rfl := Except.ok.inj h
      exact ⟨rfl, hs⟩
  | cons e rest ih =>
      simp only [foldEach, bind_eq_ok] at h
      obtain ⟨m, hfirst, hrest⟩ := h
      obtain ⟨hturn, hm⟩ := hstep n s e m List.mem_cons_self hs hfirst
      obtain ⟨hruns, hend⟩ :=
        ih (fun n s d t hd => hstep n s d t (List.mem_cons_of_mem e hd)) hm hrest
      exact ⟨⟨loop m, hturn, hruns⟩, hend⟩

theorem foldEach_of_runs {t : Loop String α}
    (hstep : ∀ n s e s', e ∈ entries → P s → f n s e = .ok s' → P s')
    (hback : ∀ n s e t, e ∈ entries → P s → U.Turn r n (loop s) e t →
      ∃ s', f n s e = .ok s' ∧ loop s' = t)
    (hs : P s) (h : U.Runs r n (loop s) entries t) :
    ∃ s', foldEach f n s entries = .ok s' ∧ loop s' = t := by
  induction entries generalizing n s with
  | nil =>
      obtain rfl := h
      exact ⟨s, rfl, rfl⟩
  | cons e rest ih =>
      obtain ⟨_, hturn, hrest⟩ := h
      obtain ⟨m, hfirst, rfl⟩ := hback n s e _ List.mem_cons_self hs hturn
      have hm := hstep n s e m List.mem_cons_self hs hfirst
      obtain ⟨s', hs', hloop⟩ :=
        ih (fun n s d t hd => hstep n s d t (List.mem_cons_of_mem e hd))
          (fun n s d t hd => hback n s d t (List.mem_cons_of_mem e hd)) hm hrest
      refine ⟨s', ?_, hloop⟩
      simp only [foldEach, bind_eq_ok]
      exact ⟨m, hfirst, hs'⟩

/-- The map of stored entries lists the rows of the table. -/
theorem listing_storedBy {rows : List (Int × α)} {t : Table α}
    (hrows : ∀ row, row ∈ rows ↔ row ∈ t.rows) :
    U.Listing (storedBy (fun v => U.key (U.site v)) rows) t where
  sound := by
    intro k id cur hk
    obtain ⟨before, after, hsplit, -⟩ := List.lookup_eq_some_iff.mp hk
    have hmem : (k, id, cur) ∈ storedBy (fun v => U.key (U.site v)) rows := by
      rw [hsplit]
      simp
    simp only [storedBy, List.mem_reverse, List.mem_map, Prod.mk.injEq] at hmem
    obtain ⟨row, hrow, hkey, hid⟩ := hmem
    obtain rfl : row = (id, cur) := hid
    exact ⟨Table.lookup_eq_some.mpr ((hrows _).mp hrow), hkey⟩
  complete := by
    intro id w hrow
    cases hfound : (storedBy (fun v => U.key (U.site v)) rows).lookup (U.key (U.site w)) with
    | some found => exact ⟨found, rfl⟩
    | none =>
        have hnone := List.lookup_eq_none_iff.mp hfound (U.key (U.site w), id, w) (by
          simp only [storedBy, List.mem_reverse, List.mem_map]
          exact ⟨(id, w), (hrows _).mpr (Table.lookup_eq_some.mp hrow), rfl⟩)
        simp at hnone

end Loops

theorem listing_lists (lib : Lib) (db : Db) :
    (listUpsert lib).Listing (storedBy (·.name) db.accessLists.rows) db.accessLists :=
  listing_storedBy fun _ => Iff.rfl

theorem listing_hosts (lib : Lib) (db : Db) :
    (hostUpsert lib).Listing (storedBy (fun h => domainKey lib h.domains) db.hosts.rows) db.hosts :=
  listing_storedBy fun _ => Iff.rfl

theorem listing_streams (lib : Lib) (reserved : List Int) (db : Db) :
    (streamUpsert lib reserved).Listing (storedBy streamKey (listStreams db)) db.streams :=
  listing_storedBy fun _ => mem_listStreams

/-- The stored hosts have valid names, and at least one each. -/
def HostsNamed (lib : Lib) (db : Db) : Prop :=
  ∀ id w, db.hosts.lookup id = some w → (hostUpsert lib).Good w.domains

theorem runs_of_importHosts {hosts : List Host} {s : Importing Host} (hgood : HostsNamed lib db)
    (h : importHosts lib db hosts = .ok s) :
    (hostUpsert lib).Runs db 1
        ⟨db.hosts, storedBy (fun h => domainKey lib h.domains) db.hosts.rows, 0, 0⟩ hosts
        (s.loop (·.hosts)) ∧ HostsNamed lib s.db := by
  have hruns := runs_of_foldEach (U := hostUpsert lib) (r := db) (Importing.loop (·.hosts))
    (fun s : Importing Host => s.db = { db with hosts := s.db.hosts } ∧ HostsNamed lib s.db)
    (fun n s h s' _ hs hturn => ?_) ⟨rfl, hgood⟩ h
  · exact ⟨hruns.1, hruns.2.2⟩
  · obtain ⟨hframe, hnamed⟩ := hs
    obtain ⟨hturn', hframe'⟩ := importHost_turn hframe hnamed hturn
    obtain ⟨id, v, hw⟩ := hturn'.wrote
    exact ⟨hturn', hframe', hw.good hnamed⟩

theorem exists_importHosts {hosts : List Host} {t : Loop String Host} (hgood : HostsNamed lib db)
    (h : (hostUpsert lib).Runs db 1
      ⟨db.hosts, storedBy (fun h => domainKey lib h.domains) db.hosts.rows, 0, 0⟩ hosts t) :
    ∃ s, importHosts lib db hosts = .ok s ∧ s.loop (·.hosts) = t := by
  refine foldEach_of_runs (U := hostUpsert lib) (r := db) (Importing.loop (·.hosts))
    (fun s : Importing Host => s.db = { db with hosts := s.db.hosts } ∧ HostsNamed lib s.db)
    ?_ ?_ ⟨rfl, hgood⟩ h
  · rintro n s h s' - ⟨hframe, hnamed⟩ hturn
    obtain ⟨hturn', hframe'⟩ := importHost_turn hframe hnamed hturn
    obtain ⟨id, v, hw⟩ := hturn'.wrote
    exact ⟨hframe', hw.good hnamed⟩
  · rintro n s h t - ⟨hframe, hnamed⟩ hturn
    exact exists_importHost hframe hnamed hturn

theorem protocol_bound_ne_empty {docLists : List (Int × Int)} {streams : List Stream} :
    ∀ st ∈ streams.map (·.bound docLists), st.protocol ≠ "" := by
  intro st hst
  obtain ⟨raw, -, rfl⟩ := List.mem_map.mp hst
  simp only [Stream.bound]
  split
  · decide
  · assumption

theorem runs_of_importStreams {reserved : List Int} {streams : List Stream} {s : Importing Stream}
    (hproto : ∀ st ∈ streams, st.protocol ≠ "")
    (h : importStreams lib reserved db streams = .ok s) :
    (streamUpsert lib reserved).Runs db 1
      ⟨db.streams, storedBy streamKey (listStreams db), 0, 0⟩ streams (s.loop (·.streams)) := by
  refine (runs_of_foldEach (U := streamUpsert lib reserved) (r := db) (Importing.loop (·.streams))
    (fun s : Importing Stream => s.db = { db with streams := s.db.streams }) ?_ rfl h).1
  intro n s st s' hst hframe hturn
  exact importStream_turn hframe (hproto st hst) hturn

theorem exists_importStreams {reserved : List Int} {streams : List Stream} {t : Loop String Stream}
    (hproto : ∀ st ∈ streams, st.protocol ≠ "")
    (h : (streamUpsert lib reserved).Runs db 1
      ⟨db.streams, storedBy streamKey (listStreams db), 0, 0⟩ streams t) :
    ∃ s, importStreams lib reserved db streams = .ok s ∧ s.loop (·.streams) = t := by
  refine foldEach_of_runs (U := streamUpsert lib reserved) (r := db) (Importing.loop (·.streams))
    (fun s : Importing Stream => s.db = { db with streams := s.db.streams }) ?_ ?_ rfl h
  · intro n s st s' hst hframe hturn
    exact (importStream_turn hframe (hproto st hst) hturn).2
  · intro n s st t hst hframe hturn
    exact exists_importStream hframe (hproto st hst) hturn

theorem runs_of_importLists {salt : Nat → Nat → Salt} {lists : List (Int × AccessListInput)}
    {s : Importing AccessList × List (Int × Int)} (h : importLists lib salt db lists = .ok s) :
    (listUpsert lib).Runs (db, salt) 1
      ⟨db.accessLists, storedBy (·.name) db.accessLists.rows, 0, 0⟩ lists
      (s.1.loop (·.accessLists)) := by
  refine (runs_of_foldEach (U := listUpsert lib) (r := (db, salt))
    (fun s : Importing AccessList × List (Int × Int) => s.1.loop (·.accessLists))
    (fun s => s.1.db = { db with accessLists := s.1.db.accessLists }) ?_ rfl h).1
  intro n s e s' _ hframe hturn
  obtain ⟨hturn', hframe', -⟩ := importList_turn hframe hturn
  exact ⟨hturn', hframe'⟩

theorem exists_importLists {salt : Nat → Nat → Salt} {lists : List (Int × AccessListInput)}
    {t : Loop String AccessList}
    (h : (listUpsert lib).Runs (db, salt) 1
      ⟨db.accessLists, storedBy (·.name) db.accessLists.rows, 0, 0⟩ lists t) :
    ∃ s, importLists lib salt db lists = .ok s ∧ s.1.loop (·.accessLists) = t := by
  refine foldEach_of_runs (U := listUpsert lib) (r := (db, salt))
    (fun s : Importing AccessList × List (Int × Int) => s.1.loop (·.accessLists))
    (fun s => s.1.db = { db with accessLists := s.1.db.accessLists }) ?_ ?_ rfl h
  · intro n s e s' _ hframe hturn
    exact (importList_turn hframe hturn).2.1
  · intro n s e t _ hframe hturn
    exact exists_importList hframe hturn

/-- The references of hosts and streams are bound to the ids of the rows. -/
theorem bound_of_importLists {salt : Nat → Nat → Salt} {lists : List (Int × AccessListInput)}
    {s : Importing AccessList × List (Int × Int)} (idOf : String → Int)
    (h : importLists lib salt db lists = .ok s)
    (hids : ∀ e ∈ lists, ∃ cur,
      s.1.stored.lookup (trim e.2.name) = some (idOf (trim e.2.name), cur)) :
    s.2 = lists.foldl (fun bound e => bindList e.1 (idOf (trim e.2.name)) bound) [] := by
  suffices hall : ∀ n (s₀ : Importing AccessList × List (Int × Int)),
      s₀.1.db = { db with accessLists := s₀.1.db.accessLists } →
      foldEach (importList lib salt) n s₀ lists = .ok s →
      s.2 = lists.foldl (fun bound e => bindList e.1 (idOf (trim e.2.name)) bound) s₀.2 ∧
        ∀ k found, s₀.1.stored.lookup k = some found → s.1.stored.lookup k = some found from
    (hall 1 _ rfl h).1
  clear h
  induction lists with
  | nil =>
      rintro n s₀ - h
      obtain rfl := Except.ok.inj h
      exact ⟨rfl, fun k found hk => hk⟩
  | cons e rest ih =>
      intro n s₀ hframe h
      simp only [foldEach, bind_eq_ok] at h
      obtain ⟨m, hfirst, hrest⟩ := h
      obtain ⟨hturn, hframe', id, cur, hlisted, hbound⟩ := importList_turn hframe hfirst
      obtain ⟨_, _, hw⟩ := hturn.wrote
      rw [List.forall_mem_cons] at hids
      obtain ⟨hrestBound, hkept⟩ := ih hids.2 (n + 1) m hframe' hrest
      obtain ⟨cur', hcur'⟩ := hids.1
      obtain ⟨rfl, -⟩ := Prod.mk.inj (Option.some.inj ((hkept _ _ hlisted).symm.trans hcur'))
      refine ⟨?_, fun k found hk => hkept k found (hw.kept k found hk)⟩
      rw [List.foldl_cons, ← hbound]
      exact hrestBound

end Quicgate.Store
