import Quicgate.ExclusiveRows

/-!
# The names of the stored hosts

A name belongs to one host.  Names are compared without case and without the blanks
around them; what validation stores is in lower case and has none, so the comparison
is equality there.  `hostMu` makes the check and the write of a save one step against
other saves; `one_host_per_name` says what else a run must keep to.

An import does not take the mutex, and a creation may carry the id of a stored host, which
the check then takes for the host itself (`carried_id_takes_name`).
-/

namespace Quicgate.Store

open Quicgate.GoStrings Quicgate.Checks Quicgate.Sql Quicgate.TransitionSystem

/-! ### Names as they are stored

`domainRe` takes lower-case letters, digits, dashes, dots and a star, none of which trimming or
lowering changes. -/

/-- The characters of a name that `domainRe` takes. -/
def isNameChar (c : Char) : Bool := isLowerAlnum c || c == '-' || c == '.' || c == '*'

theorem isNameChar_of_isLabel {l : List Char} (h : isLabel l = true) :
    ∀ c ∈ l, isNameChar c = true := by
  intro c hc
  simp only [isLabel, Bool.and_eq_true, List.all_eq_true] at h
  have hchar := h.2 c hc
  simp only [Bool.or_eq_true] at hchar
  simp only [isNameChar, Bool.or_eq_true]
  exact Or.inl (Or.inl hchar)

theorem isNameChar_of_top {l : List Char} (h : ∀ c ∈ l, ('a' ≤ c && c ≤ 'z') = true) :
    ∀ c ∈ l, isNameChar c = true := by
  intro c hc
  simp only [isNameChar, isLowerAlnum, h c hc, Bool.true_or]

theorem isNameChar_of_matches {d : String} (h : matchesDomainRe d = true) :
    ∀ c ∈ d.toList, isNameChar c = true := by
  unfold matchesDomainRe at h
  rw [Bool.or_eq_true] at h
  rcases h with hlabels | hlabel
  · simp only [Bool.and_eq_true, List.all_eq_true, decide_eq_true_eq] at hlabels
    obtain ⟨⟨-, hparts⟩, htop⟩ := hlabels
    generalize hbody : (if ['*', '.'].isPrefixOf d.toList then d.toList.drop 2 else d.toList) = body
      at hparts htop
    -- every part is a label or the top-level name
    have hpart : ∀ part ∈ body.splitOn '.', ∀ c ∈ part, isNameChar c = true := by
      intro part hpart
      by_cases hmem : part ∈ (body.splitOn '.').dropLast
      · exact isNameChar_of_isLabel (hparts part hmem)
      · cases hlast : (body.splitOn '.').getLast? with
        | none => simp [hlast] at htop
        | some top =>
            have htop' : part = top := by
              have hsplit := List.dropLast_append_getLast? top hlast
              rw [← hsplit] at hpart
              rcases List.mem_append.mp hpart with hin | heq
              · exact absurd hin hmem
              · exact List.mem_singleton.mp heq
            subst htop'
            simp only [hlast, Option.any_some, Bool.and_eq_true, List.all_eq_true] at htop
            exact isNameChar_of_top (by simpa using htop.2)
    have hbodychars : ∀ c ∈ body, isNameChar c = true := by
      intro c hc
      have hjoin : ['.'].intercalate (body.splitOn '.') = body := List.intercalate_splitOn '.'
      rw [← hjoin] at hc
      rcases mem_of_mem_intercalate hc with rfl | ⟨part, hin, hc⟩
      · decide
      · exact hpart part hin c hc
    intro c hc
    split at hbody
    · rename_i hstar
      obtain ⟨rest, hrest⟩ := List.isPrefixOf_iff_prefix.mp hstar
      rw [← hrest] at hc hbody
      simp only [List.cons_append, List.nil_append, List.drop_succ_cons, List.drop_zero] at hc hbody
      subst hbody
      rcases List.mem_cons.mp hc with rfl | hc
      · decide
      · rcases List.mem_cons.mp hc with rfl | hc
        · decide
        · exact hbodychars c hc
    · rw [hbody] at hc
      exact hbodychars c hc
  · exact isNameChar_of_isLabel hlabel

theorem toNat_of_isNameChar {c : Char} (h : isNameChar c = true) :
    c.toNat = 42 ∨ c.toNat = 45 ∨ c.toNat = 46 ∨ (48 ≤ c.toNat ∧ c.toNat ≤ 57) ∨
      (97 ≤ c.toNat ∧ c.toNat ≤ 122) := by
  simp only [isNameChar, isLowerAlnum, Bool.or_eq_true, Bool.and_eq_true, decide_eq_true_eq,
    beq_iff_eq, Char.le_def, UInt32.le_iff_toNat_le] at h
  rcases h with (((⟨hlow, hhigh⟩ | ⟨hlow, hhigh⟩) | rfl) | rfl) | rfl
  · exact Or.inr (Or.inr (Or.inr (Or.inr ⟨hlow, hhigh⟩)))
  · exact Or.inr (Or.inr (Or.inr (Or.inl ⟨hlow, hhigh⟩)))
  · decide
  · decide
  · decide

theorem isSpace_of_isNameChar {c : Char} (h : isNameChar c = true) : isSpace c = false := by
  have hrange := toNat_of_isNameChar h
  rw [Bool.eq_false_iff]
  intro hspace
  simp only [isSpace, Bool.or_eq_true, Bool.and_eq_true, decide_eq_true_eq, List.mem_cons,
    List.not_mem_nil, or_false] at hspace
  rcases hspace with hlisted | ⟨hlow, hhigh⟩
  · rcases hlisted with rfl | rfl | rfl | rfl | rfl | rfl | rfl | rfl | rfl | rfl | rfl | rfl | rfl
      | rfl
    all_goals exact absurd hrange (by decide)
  · omega

theorem toLower_of_isNameChar {c : Char} (h : isNameChar c = true) : c.toLower = c := by
  have hrange := toNat_of_isNameChar h
  unfold Char.toLower
  split
  · rename_i hupper
    simp only [ge_iff_le, UInt32.le_iff_toNat_le] at hupper
    obtain ⟨hlow, hhigh⟩ := hupper
    have hval : c.toNat = c.val.toNat := rfl
    have hA : (UInt32.toNat 'A'.val) = 65 := rfl
    have hZ : (UInt32.toNat 'Z'.val) = 90 := rfl
    omega
  · rfl

section Stored

variable {lib : Lib} {d d' : String}

theorem trim_of_matches (h : matchesDomainRe d = true) : trim d = d := by
  unfold trim
  rw [trimSpace_of_forall fun c hc => isSpace_of_isNameChar (isNameChar_of_matches h c hc)]
  exact String.ofList_toList

theorem toLower_of_matches (h : matchesDomainRe d = true) : toLower lib.caseTable d = d := by
  unfold toLower
  have hmap : d.toList.map (fun c => if c.toNat < 128 then c.toLower else lib.caseTable.lower c) =
      d.toList := by
    refine (List.map_congr_left fun c hc => ?_).trans (List.map_id _)
    have hchar := isNameChar_of_matches h c hc
    have hrange := toNat_of_isNameChar hchar
    rw [if_pos (by omega), toLower_of_isNameChar hchar]
    rfl
  rw [hmap]
  exact String.ofList_toList

/-- A stored name is what its normal form is. -/
theorem normal_of_matches (h : matchesDomainRe d = true) : toLower lib.caseTable (trim d) = d := by
  rw [trim_of_matches h, toLower_of_matches h]

theorem equalFold_of_matches (h : matchesDomainRe d = true) (h' : matchesDomainRe d' = true) :
    equalFold lib (trim d) (trim d') = true ↔ d = d' := by
  rw [trim_of_matches h, trim_of_matches h']
  unfold equalFold foldEqual
  simp only [Bool.and_eq_true, beq_iff_eq, List.all_eq_true]
  constructor
  · rintro ⟨hlen, hall⟩
    refine String.toList_injective (List.ext_getElem hlen fun i hi hi' => ?_)
    have hpair :=
      hall (d.toList[i], d'.toList[i]) (List.mem_of_getElem? (i := i) (by simp [hi, hi']))
    have hc := isNameChar_of_matches h _ (List.getElem_mem hi)
    have hc' := isNameChar_of_matches h' _ (List.getElem_mem hi')
    have hrange := toNat_of_isNameChar hc
    have hrange' := toNat_of_isNameChar hc'
    simp only [Bool.or_eq_true, beq_iff_eq] at hpair
    rcases hpair with heq | hfold
    · exact heq
    · rw [if_pos ⟨by omega, by omega⟩, beq_iff_eq, toLower_of_isNameChar hc,
        toLower_of_isNameChar hc'] at hfold
      exact hfold
  · rintro rfl
    refine ⟨rfl, ?_⟩
    intro p hp
    obtain ⟨i, hi⟩ := List.mem_iff_getElem?.mp hp
    rw [List.getElem?_zip_eq_some] at hi
    have heq : p.1 = p.2 := Option.some.inj (hi.1.symm.trans hi.2)
    simp [heq]

end Stored

/-! ### The table of the hosts

The table is an instance of `ExclusiveRows`, with a common name as what keeps rows from being
apart. -/

/-- What is to hold of the stored hosts: no two list one name, and none lists a name
twice. -/
structure OneHostPerName (lib : Lib) (db : Db) : Prop where
  apart : ∀ id h id' h', (id, h) ∈ db.hosts.rows → (id', h') ∈ db.hosts.rows → id ≠ id' →
    ∀ d ∈ h.domains, ∀ d' ∈ h'.domains, equalFold lib (trim d) (trim d') = false
  once : ∀ id h, (id, h) ∈ db.hosts.rows →
    h.domains.Pairwise fun d d' => equalFold lib (trim d) (trim d') = false

def NamesValid (h : Host) : Prop := ∀ d ∈ h.domains, matchesDomainRe d = true

/-- Hosts exclude one another where they list one name. -/
def hostRows : Exclusive Host where
  table := (·.hosts)
  record := (·.host)
  Apart := fun h o => ∀ d ∈ h.domains, d ∉ o.domains
  Listed := fun h => h.domains.Nodup
  symm := fun h o hapart d hd hd' => hapart d hd' hd
  apply_other := by
    intro db w hw
    cases w with
    | createList a =>
        simp only [Write.apply]
        split <;> rfl
    | updateList id a =>
        simp only [Write.apply]
        split <;> rfl
    | createHost h => simp [Write.host] at hw
    | updateHost id h => simp [Write.host] at hw
    | createStream st => rfl
    | updateStream id st => rfl
    | createPolicy s => rfl
    | updatePolicy id s => rfl
    | setAdmin p => rfl
  apply_create := by
    intro db w v hw htarget
    cases w with
    | createHost h =>
        obtain rfl := Option.some.inj hw
        rfl
    | updateHost id h => simp [Write.target] at htarget
    | _ => simp [Write.host] at hw
  apply_update := by
    intro db w v id hw htarget
    cases w with
    | createHost h => simp [Write.target] at htarget
    | updateHost id' h =>
        obtain rfl := Option.some.inj hw
        obtain rfl := Option.some.inj htarget
        rfl
    | _ => simp [Write.host] at hw
  remove := by
    intro db r
    cases r with
    | device id =>
        simp only [Db.remove]
        split <;> rfl
    | _ => rfl
  statement := by
    intro db st row hrow
    cases st with
    | deleteHost id => exact (Table.mem_delete.mp hrow).2
    | _ => exact hrow
  loaded := fun _ _ => rfl
  listed := by
    intro w v free hw hlists
    have hsome : w.host.isSome = true := by simp [hw]
    simpa [Write.listsNow, hsome] using hlists

variable {lib : Lib}

theorem sharesName_eq_false_iff {h o : Host} (hh : NamesValid h) (ho : NamesValid o) :
    h.sharesName lib o = false ↔ ∀ d ∈ h.domains, d ∉ o.domains := by
  simp only [Host.sharesName, List.any_eq_false, Bool.not_eq_true]
  constructor
  · intro hfree d hd hd'
    have hself : equalFold lib (trim d) (trim d) = true :=
      (equalFold_of_matches (hh d hd) (hh d hd)).mpr rfl
    rw [hfree d hd' d hd] at hself
    exact Bool.noConfusion hself
  · intro hapart theirs htheirs mine hmine
    rw [Bool.eq_false_iff]
    intro hfold
    have heq := (equalFold_of_matches (ho theirs htheirs) (hh mine hmine)).mp hfold
    exact hapart mine hmine (heq ▸ htheirs)

/-- The list of normal forms of valid names is the list of names. -/
theorem map_normal {domains : List String} (h : ∀ d ∈ domains, matchesDomainRe d = true) :
    (domains.map fun d => toLower lib.caseTable (trim d)) = domains := by
  refine (List.map_congr_left fun d hd => ?_).trans (List.map_id domains)
  exact normal_of_matches (h d hd)

/-- The check against the rows of the table, for names that are all valid. -/
theorem checkHostDomains_room {rows : List (Int × Host)} {id : Int} {h : Host} {u : Unit}
    (hh : NamesValid h) (hrows : ∀ row ∈ rows, NamesValid row.2)
    (hcheck : checkHostDomains lib rows id h = .ok u) :
    h.domains.Nodup ∧ ∀ row ∈ rows, row.1 ≠ id → ∀ d ∈ h.domains, d ∉ row.2.domains := by
  obtain ⟨hothers, hnodup⟩ := checkHostDomains_eq_ok.mp hcheck
  refine ⟨map_normal hh ▸ hnodup, ?_⟩
  intro row hrow hne
  exact (sharesName_eq_false_iff hh (hrows row hrow)).mp (hothers row hrow hne)

theorem namesValid_of_validate {h kept : Host} (hv : h.validate lib = .ok kept) : NamesValid kept :=
  (Host.validate_kept hv).domainsValid

theorem oneHostPerName_of_inv {s : State} (h : hostRows.Inv NamesValid s) :
    OneHostPerName lib s.db where
  apart := by
    intro id host id' host' hrow hrow' hne d hd d' hd'
    rw [Bool.eq_false_iff]
    intro hfold
    have heq := (equalFold_of_matches ((h.good id host hrow).1 d hd)
      ((h.good id' host' hrow').1 d' hd')).mp hfold
    exact h.pairwise id host id' host' hrow hrow' hne d hd (heq ▸ hd')
  once := by
    intro id host hrow
    obtain ⟨hvalid, hnodup⟩ := h.good id host hrow
    refine hnodup.imp_of_mem ?_
    intro d d' hd hd' hne
    rw [Bool.eq_false_iff]
    intro hfold
    exact hne ((equalFold_of_matches (hvalid d hd) (hvalid d' hd')).mp hfold)

/-! ### The mutex

What `hostMu` gives to the argument: at most one save of a host stands between its first and
its last statement. -/

/-- A host is saved by the job that holds `hostMu`. -/
def Guarded (s : State) : Prop :=
  ∀ i self w done todo free, s.jobs[i]? = some (.saving self w done todo free) →
    w.host.isSome = true → s.hostMu = some i

/-- No request begins inside the mutex. -/
theorem host_none_of_job {reserved : List Int} {request : Request} {self : Int} {w : Write}
    {done todo : List Ref} {free : Bool}
    (h : request.job lib reserved = .ok (.saving self w done todo free)) : w.host = none := by
  cases request with
  | createHost id h' | updateHost id h' | createStream id st | updateStream id st
  | createList a salt =>
      simp only [Request.job, bind_eq_ok, pure_eq_ok, Write.job] at h
      obtain ⟨kept, -, heq⟩ := h
      cases heq
      try rfl
  | savePolicy id subject =>
      simp only [Request.job, bind_eq_ok, pure_eq_ok, Write.job] at h
      obtain ⟨kept, -, heq⟩ := h
      split at heq <;> cases heq <;> rfl
  | updateList id a salt => cases h
  | setAdmin provider =>
      cases h
      rfl
  | delete r => cases h

/-- A job that is saving after its step has taken the mutex there, or was saving. -/
theorem MutexStep.saving {i : Nat} {job : Job} {self : Int} {w : Write} {done todo : List Ref}
    {free : Bool} {mu mu' : Option Nat}
    (h : MutexStep i job (.saving self w done todo free) mu mu') :
    mu' = some i ∨ (mu' = mu ∧ ∀ self w, job ≠ .waiting self w) := by
  generalize hjob' : Job.saving self w done todo free = job' at h
  cases h with
  | take self' w' => exact Or.inl rfl
  | keep hnot => exact Or.inr ⟨rfl, hnot⟩
  | release => cases hjob'

/-- The mutex of another job is not taken away. -/
theorem MutexStep.other {i j : Nat} {job job' : Job} {mu mu' : Option Nat}
    (h : MutexStep i job job' mu mu') (hmu : mu = some j) (hne : j ≠ i) : mu' = some j := by
  cases h with
  | take self w => cases hmu
  | keep hnot => exact hmu
  | release =>
      subst hmu
      rw [if_neg fun heq => hne (Option.some.inj heq)]

theorem Guarded.step {reserved : List Int} {s s' : State} {label : Label} (hs : Guarded s)
    (hstep : step lib reserved s label = some s') : Guarded s' := by
  cases step_cases hstep with
  | refused => exact hs
  | statement st => exact hs
  | imported himport => exact hs
  | began hjob =>
      intro i self w done todo free hi hhost
      rcases getElem?_concat_eq_some hi with ⟨-, rfl⟩ | hold
      · simp [host_none_of_job hjob] at hhost
      · exact hs i self w done todo free hold hhost
  | @moved i job job' db' mu hjob hcases hmutex =>
      intro j self w done todo free hj hhost
      rcases getElem?_set_eq_some hj with ⟨rfl, rfl⟩ | ⟨hne, hj⟩
      · rcases hmutex.saving with htaken | ⟨hsame, hnot⟩
        · exact htaken
        · change mu = some j
          rw [hsame]
          cases hcases with
          | lock => exact absurd rfl (hnot _ _)
          | load => simp [Write.host] at hhost
          | list => exact hs j _ _ _ _ _ hjob hhost
          | look => exact hs j _ _ _ _ _ hjob hhost
      · exact hmutex.other (hs j self w done todo free hj hhost) hne

/-! ### An import

An import checks each host against the table it has made so far, in one transaction. -/

/-- The stored hosts keep apart, and each lists valid names once. -/
def HostsOk (t : Table Host) : Prop :=
  t.Pairwise hostRows.Apart ∧ ∀ id h, (id, h) ∈ t.rows → NamesValid h ∧ h.domains.Nodup

/-- What the check of a host finds, among hosts with valid names. -/
theorem checkHost_room {db : Db} {id : Int} {h kept : Host} (hdb : HostsOk db.hosts)
    (hcheck : checkHost lib db id h = .ok kept) :
    (NamesValid kept ∧ kept.domains.Nodup) ∧
      ∀ id' o, (id', o) ∈ db.hosts.rows → id' ≠ id → hostRows.Apart kept o := by
  obtain ⟨hvalid, -, hnames⟩ := checkHost_eq_ok.mp hcheck
  have hkept := namesValid_of_validate hvalid
  obtain ⟨hnodup, hroom⟩ :=
    checkHostDomains_room hkept (fun row hrow => (hdb.2 row.1 row.2 hrow).1) hnames
  exact ⟨⟨hkept, hnodup⟩, fun id' o hrow hne => hroom (id', o) hrow hne⟩

theorem importHost_ok {n : Nat} {s s' : Importing Host} {h : Host} (hs : HostsOk s.db.hosts)
    (hturn : importHost lib n s h = .ok s') : HostsOk s'.db.hosts := by
  have hsymm := hostRows.symm
  rcases importHost_eq_ok.mp hturn
    with ⟨id, cur, db, -, -, hupdate, rfl⟩ | ⟨db, kept, -, hcreate, rfl⟩
  · obtain ⟨kept, hcheck, -, rfl⟩ := updateHost_eq_ok.mp hupdate
    obtain ⟨hgood, hroom⟩ := checkHost_room hs hcheck
    constructor
    · exact hs.1.update hsymm hroom
    · exact Table.forall_update hs.2 fun _ => hgood
  · obtain ⟨hcheck, rfl⟩ := createHost_eq_ok.mp hcreate
    obtain ⟨hgood, hroom⟩ := checkHost_room hs hcheck
    constructor
    · refine hs.1.insert hsymm fun id o hrow => hroom id o hrow ?_
      -- the keys that were given out are positive
      have hpos := (s.db.hosts.keysGiven _ hrow).1
      simp only at hpos
      omega
    · exact Table.forall_insert hs.2 hgood

theorem importDoc_hosts {reserved : List Int} {salt : Nat → Nat → Salt} {doc : ImportDoc}
    {db db' : Db} {result : ImportResult} (hdb : HostsOk db.hosts)
    (h : importDoc lib salt reserved doc db = .ok (db', result)) : HostsOk db'.hosts := by
  obtain ⟨lists, hosts, streams, hlists, hhosts, hstreams, rfl, -⟩ := importDoc_eq_ok.mp h
  rw [importStreams_frame hstreams]
  have hbefore : lists.1.db.hosts = db.hosts := by rw [importLists_frame hlists]
  refine foldEach_invariant (P := fun t : Importing Host => HostsOk t.db.hosts) ?_
    (hbefore ▸ hdb) hhosts
  intro n s host t _ hs hturn
  exact importHost_ok hs hturn

/-! ### Runs

The condition only speaks of carried ids and of imports, since the mutex takes care of the rest. -/

/-- What a step must not do. A creation that carries the id of a stored host shares no
name with it; and an import stores no host that shares a name with a save in flight
which has listed the hosts already, unless that save overwrites it. -/
def NamesUndisturbed (lib : Lib) (reserved : List Int) (s : State) : Label → Prop
  | .begin _ => True
  | .step i =>
      ∀ job ∈ s.jobs[i]?, ∀ l ∈ job.listing, l.2.target = none → ∀ h ∈ l.2.host,
        ∀ row ∈ s.db.hosts.rows, row.1 = l.1 → h.sharesName lib row.2 = false
  | .statement _ => True
  | .importDoc salt doc =>
      match Store.importDoc lib salt reserved doc s.db with
      | .error _ => True
      | .ok (db', _) => ∀ job ∈ s.jobs, ∀ w ∈ job.pending, ∀ h ∈ w.host,
          ∀ row ∈ db'.hosts.rows, row ∈ s.db.hosts.rows ∨ w.target = some row.1 ∨
            h.sharesName lib row.2 = false

instance (lib : Lib) (reserved : List Int) (s : State) :
    ∀ label, Decidable (NamesUndisturbed lib reserved s label)
  | .begin _ | .statement _ => isTrue trivial
  | .step i => inferInstanceAs (Decidable (
      ∀ job ∈ s.jobs[i]?, ∀ l ∈ job.listing, l.2.target = none → ∀ h ∈ l.2.host,
        ∀ row ∈ s.db.hosts.rows, row.1 = l.1 → h.sharesName lib row.2 = false))
  | .importDoc salt doc =>
      have : Decidable (match Store.importDoc lib salt reserved doc s.db with
          | .error _ => True
          | .ok (db', _) => ∀ job ∈ s.jobs, ∀ w ∈ job.pending, ∀ h ∈ w.host,
              ∀ row ∈ db'.hosts.rows, row ∈ s.db.hosts.rows ∨ w.target = some row.1 ∨
                h.sharesName lib row.2 = false) :=
        match Store.importDoc lib salt reserved doc s.db with
        | .error _ => isTrue trivial
        | .ok (db', _) => inferInstanceAs (Decidable (∀ job ∈ s.jobs, ∀ w ∈ job.pending,
            ∀ h ∈ w.host, ∀ row ∈ db'.hosts.rows, row ∈ s.db.hosts.rows ∨
              w.target = some row.1 ∨ h.sharesName lib row.2 = false))
      this

theorem hostJob_ok {reserved : List Int} {db : Db} {request : Request} {job : Job}
    (hjob : request.job lib reserved = .ok job) : hostRows.JobOk NamesValid db job := by
  cases request with
  | createHost id h | updateHost id h =>
      simp only [Request.job, checkHostBody, bind_eq_ok, pure_eq_ok] at hjob
      obtain ⟨kept, ⟨kept', hvalid, -, -, rfl⟩, rfl⟩ := hjob
      intro v hv
      obtain rfl := Option.some.inj hv
      exact ⟨namesValid_of_validate hvalid, by simp [Write.target]⟩
  | createStream id st | updateStream id st =>
      simp only [Request.job, bind_eq_ok, pure_eq_ok] at hjob
      obtain ⟨kept, -, rfl⟩ := hjob
      intro v hv
      simp [hostRows, Write.host] at hv
  | createList a salt =>
      simp only [Request.job, bind_eq_ok, pure_eq_ok] at hjob
      obtain ⟨kept, -, rfl⟩ := hjob
      intro v hv
      simp [hostRows, Write.host] at hv
  | savePolicy id subject =>
      simp only [Request.job, bind_eq_ok, pure_eq_ok] at hjob
      obtain ⟨kept, -, rfl⟩ := hjob
      intro v hv
      split at hv <;> simp [hostRows, Write.host] at hv
  | updateList id a salt =>
      obtain rfl := Except.ok.inj hjob
      trivial
  | setAdmin provider =>
      obtain rfl := Except.ok.inj hjob
      intro v hv
      simp [hostRows, Write.host] at hv
  | delete r =>
      obtain rfl := Except.ok.inj hjob
      trivial

/-- What a listing finds: the names are listed once, and no row but the host's own has
one of them. -/
theorem checkHostDomains_of_fits {db : Db} {self : Int} {w : Write} {h : Host}
    (hh : w.host = some h) (hfits : w.fits lib db self = true) :
    checkHostDomains lib db.hosts.rows self h = .ok () := by
  have hok : (checkHostDomains lib db.hosts.rows self h).isOk = true := by
    cases w with
    | createHost h' | updateHost id h' =>
        obtain rfl := Option.some.inj hh
        exact hfits
    | _ => simp [Write.host] at hh
  cases hcheck : checkHostDomains lib db.hosts.rows self h with
  | error why => simp [hcheck, Except.isOk, Except.toBool] at hok
  | ok u => rfl

/-- The stored hosts, the saves in flight and the mutex. -/
structure HostInv (s : State) : Prop where
  rows : hostRows.Inv NamesValid s
  guarded : Guarded s

theorem HostInv.hostsOk {s : State} (h : HostInv s) : HostsOk s.db.hosts :=
  ⟨h.rows.pairwise, h.rows.good⟩

theorem hostInv_step {reserved : List Int} {s s' : State} {label : Label} (hinv : HostInv s)
    (hallowed : NamesUndisturbed lib reserved s label)
    (hstep : step lib reserved s label = some s') : HostInv s' := by
  refine ⟨?_, hinv.guarded.step hstep⟩
  have hrows := hinv.rows
  cases step_cases hstep with
  | refused => exact hrows
  | began hjob => exact hrows.began (hostJob_ok hjob)
  | statement st => exact hrows.of_rows_subset _ (hostRows.statement s.db st) s.hostMu
  | @moved i job job' db' mu hjob hcases hmutex =>
      refine hrows.moved hjob hcases ?_ ?_ mu
      · rintro self w done todo h rfl hnow hfits hh ⟨hvalid, hself⟩
        obtain ⟨hnodup, hroom⟩ := checkHostDomains_room hvalid
          (fun row hrow => (hrows.good row.1 row.2 hrow).1) (checkHostDomains_of_fits hh hfits)
        refine ⟨hnodup, ?_⟩
        intro id o hrow htarget
        by_cases hid : id = self
        · -- the row that the check passes over is the one that is overwritten, or a
          -- creation carries its id
          have hcreate : w.target = none := by
            cases ht : w.target with
            | none => rfl
            | some id' =>
                obtain rfl := hself id' ht
                exact absurd (hid ▸ ht) htarget
          have hlisted : (Job.saving self w done todo false).listing = some (self, w) := by
            simp [Job.listing, hnow]
          have hshares := hallowed _ hjob _ hlisted hcreate h hh (id, o) hrow hid
          exact (sharesName_eq_false_iff hvalid (hrows.good id o hrow).1).mp hshares
        · exact hroom (id, o) hrow hid
      · -- two saves of hosts would both hold the mutex
        rintro self w done rfl j self' w' done' todo' hne hj h h' hh hh'
        have hmine := hinv.guarded i self w done [] true hjob (Option.isSome_of_eq_some hh)
        have htheirs := hinv.guarded j self' w' done' todo' true hj (Option.isSome_of_eq_some hh')
        exact absurd (Option.some.inj (htheirs.symm.trans hmine)) hne
  | @imported salt doc db' result himport =>
      simp only [NamesUndisturbed, himport] at hallowed
      obtain ⟨hpair, hgood⟩ := importDoc_hosts hinv.hostsOk himport
      refine hrows.transaction hpair hgood ?_
      intro job hjob w hw h hh row hrow
      have hvalid : NamesValid h := by
        have hok := hrows.jobs job hjob
        cases job with
        | saving self w' done todo free =>
            cases free with
            | false => simp [Job.pending] at hw
            | true =>
                obtain rfl := Option.some.inj hw
                exact (hok h hh).1.1
        | _ => simp [Job.pending] at hw
      rcases hallowed job hjob w hw h hh row hrow with hold | htarget | hshares
      · exact Or.inl hold
      · exact Or.inr (Or.inl htarget)
      · exact Or.inr
          (Or.inr ((sharesName_eq_false_iff hvalid (hgood row.1 row.2 hrow).1).mp hshares))

/-- In every run whose steps leave the listings undisturbed, a name belongs to one
host. -/
theorem one_host_per_name (lib : Lib) (reserved : List Int) (db : Db) (hempty : db.hosts.rows = [])
    (labels : List Label) (s : State)
    (hmeets : RunMeets (step lib reserved) (NamesUndisturbed lib reserved) (.start db) labels)
    (hrun : run (step lib reserved) (.start db) labels = some s) : OneHostPerName lib s.db := by
  have hstart : HostInv (State.start db) := by
    refine ⟨⟨?_, ?_, ?_⟩, ?_⟩
    · intro id h id' h' hrow
      simp [hostRows, State.start, hempty] at hrow
    · intro id h hrow
      simp [hostRows, State.start, hempty] at hrow
    · intro job hjob
      simp [State.start] at hjob
    · intro i self w done todo free hi
      simp [State.start] at hi
  exact oneHostPerName_of_inv (hmeets.invariant (fun _ _ _ => hostInv_step) hstart hrun).rows

/-! ### Two saves of hosts

The second save waits at the mutex. -/

def deadHost (name : String) : Host :=
  { Host.zero with type := "dead", domains := [name], certMode := "auto", enabled := true }

/-- Two creations; the second waits for the mutex until the first has written. -/
def twoHosts : List Label :=
  [.begin (.createHost 0 (deadHost "a.example")), .begin (.createHost 0 (deadHost " B.example")),
    .step 0, .step 0, .step 0, .step 1, .step 1, .step 1]

theorem one_host_per_name_two :
    ∃ s, run (step asciiLib []) (.start .empty) twoHosts = some s ∧
      s.db.hosts.rows = [(1, deadHost "a.example"), (2, deadHost "b.example")] ∧
      OneHostPerName asciiLib s.db := by
  obtain ⟨s, hrun, hrows⟩ : ∃ s, run (step asciiLib []) (.start .empty) twoHosts = some s ∧
      s.db.hosts.rows = [(1, deadHost "a.example"), (2, deadHost "b.example")] :=
    Option.map_eq_some_iff.mp (by decide +kernel)
  exact ⟨s, hrun, hrows,
    one_host_per_name asciiLib [] .empty rfl twoHosts s (by decide +kernel) hrun⟩

/-- The second creation carries the id of the first host, which the check takes for the
host itself. -/
def carriedHostId : List Label :=
  [.begin (.createHost 0 (deadHost "a.example")), .step 0, .step 0, .step 0,
    .begin (.createHost 1 (deadHost "a.example")), .step 1, .step 1, .step 1]

theorem carried_id_takes_name :
    ∃ s, run (step asciiLib []) (.start .empty) carriedHostId = some s ∧
      ¬ OneHostPerName asciiLib s.db := by
  obtain ⟨s, hrun, hrows⟩ : ∃ s, run (step asciiLib []) (.start .empty) carriedHostId = some s ∧
      s.db.hosts.rows = [(1, deadHost "a.example"), (2, deadHost "a.example")] :=
    Option.map_eq_some_iff.mp (by decide +kernel)
  refine ⟨s, hrun, ?_⟩
  intro hnames
  have hfold := hnames.apart 1 (deadHost "a.example") 2 (deadHost "a.example") (by simp [hrows])
    (by simp [hrows]) (by decide) "a.example" List.mem_cons_self "a.example" List.mem_cons_self
  exact absurd hfold (by decide +kernel)

end Quicgate.Store
