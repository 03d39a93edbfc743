import Quicgate.ExclusiveRows

/-!
# No stored reference dangles

The references of the stored records, table by table, and what the statements of the
store do to them.  A save looks its references up before it writes, a delete looks for
users of the row before it goes; `references_resolve` says what the statements between
the two must not do.

There are ten kinds of references.  Some of the tables that hold them are not looked
through by every delete, so one condition is about the row that goes
(`deleted_site_still_named`).
-/

namespace Quicgate.Store

open Quicgate.Access Quicgate.Checks Quicgate.Sql Quicgate.TransitionSystem

/-! ### What the records name

The listing before a delete and the lookup before a save read the same references of a record,
which the lemmas of this part say kind by kind. -/

@[simp] theorem Named.refs_append (n n' : Named) : Named.refs (n ++ n') = n.refs ++ n'.refs :=
  List.map_append

theorem refs_namesList (place : String) (id : Option Int) :
    (namesList place id).refs = (id.map Ref.list).toList := by
  cases id <;> rfl

theorem refs_namesCert (id : Option Int) : (namesCert id).refs = (id.map Ref.cert).toList := by
  cases id <;> rfl

theorem refs_namesProvider (place : String) (id : Option Int) :
    (namesProvider place id).refs = (id.map Ref.provider).toList := by
  cases id <;> rfl

theorem refs_flatMap {α : Type} (f : α → Named) (l : List α) :
    Named.refs (l.flatMap f) = l.flatMap fun a => (f a).refs := by
  simp only [Named.refs, List.map_flatMap]

/-- A reference of a host is found by the listing before the delete of its row. -/
theorem Host.uses_of_mem_refs {h : Host} {r : Ref} (hr : r ∈ h.refs) : h.uses r = true := by
  simp only [Host.refs, Host.named, Host.ruleNamed, Named.refs_append, refs_flatMap, refs_namesList,
    refs_namesProvider, List.mem_append, List.mem_flatMap, Option.mem_toList,
      Option.map_eq_some_iff] at hr
  rcases hr with ((((hlist | hcert) | hoidc) | hportal) | hvia) | ⟨rule, hrule, hlist | hoidc⟩
  · obtain ⟨id, hid, rfl⟩ := hlist
    simp [Host.uses, hid]
  · split at hcert
    · rw [refs_namesCert, Option.mem_toList, Option.map_eq_some_iff] at hcert
      obtain ⟨id, hid, rfl⟩ := hcert
      simp [Host.uses, hid]
    · simp [Named.refs] at hcert
  · obtain ⟨id, ⟨oidc, hoidc, rfl⟩, rfl⟩ := hoidc
    simp [Host.uses, hoidc]
  · obtain ⟨id, ⟨portal, hportal, rfl⟩, rfl⟩ := hportal
    simp [Host.uses, hportal]
  · obtain ⟨id, hid, hr⟩ := hvia
    obtain rfl : r = .site id := by simpa [namesSite, Named.refs] using hr
    simpa [Host.uses] using hid
  · obtain ⟨id, hid, rfl⟩ := hlist
    simp only [Host.uses, Bool.or_eq_true, List.any_eq_true]
    exact Or.inr ⟨rule, hrule, by simp [hid]⟩
  · obtain ⟨id, ⟨oidc, hoidc, rfl⟩, rfl⟩ := hoidc
    simp only [Host.uses, Bool.or_eq_true, List.any_eq_true]
    exact Or.inr ⟨rule, hrule, by simp [hoidc]⟩

theorem Stream.uses_of_mem_refs {st : Stream} {r : Ref} (hr : r ∈ st.refs) : st.uses r = true := by
  simp only [Stream.refs, Stream.named, Named.refs_append, refs_namesList, refs_namesCert,
    List.mem_append, Option.mem_toList, Option.map_eq_some_iff] at hr
  rcases hr with (⟨id, hid, rfl⟩ | ⟨id, hid, rfl⟩) | hvia
  · simp [Stream.uses, hid]
  · simp [Stream.uses, hid]
  · split at hvia
    · obtain rfl : r = .site st.via := by simpa [namesSite, Named.refs] using hvia
      simp [Stream.uses]
    · simp [Named.refs] at hvia

/-- The providers that a subject names. -/
theorem provider_of_mem_subjectNamed {i : Nat} {s : VPNSubject} {id : Int}
    (h : Ref.provider id ∈ (subjectNamed i s).refs) : s.provider = id := by
  unfold subjectNamed at h
  split at h
  · simpa [refs_namesProvider, eq_comm] using h
  · split at h
    · simp only at h
      split at h <;> simp [Named.refs] at h
    · simp [Named.refs] at h

theorem provider_of_mem_rulesNamed {i : Nat} {rules : List AccessRule} {id : Int}
    (h : Ref.provider id ∈ (rulesNamed i rules).refs) :
    (rules.any fun rule => rule.vpn.any (·.provider == id)) = true := by
  induction rules generalizing i with
  | nil => simp [rulesNamed, Named.refs] at h
  | cons rule rest ih =>
      simp only [rulesNamed, Named.refs_append, List.mem_append] at h
      rw [List.any_cons, Bool.or_eq_true]
      rcases h with hrule | hrest
      · cases hvpn : rule.vpn with
        | none => simp [hvpn, Named.refs] at hrule
        | some s =>
            simp only [hvpn, Option.map_some, Option.getD_some] at hrule
            exact Or.inl (by simp [provider_of_mem_subjectNamed hrule])
      · exact Or.inr (ih hrest)

/-! ### The references of the tables

`Resolved` is the result to be kept: whatever a row of any table names is there. -/

def policyRefs (s : VPNSubject) : List Ref := [.provider s.provider]

/-- The references of the rows of a table. -/
def Db.refsIn (db : Db) : Source → List Ref
  | .hosts => db.hosts.rows.flatMap fun row => row.2.refs
  | .streams => db.streams.rows.flatMap fun row => row.2.refs
  | .lists => db.accessLists.rows.flatMap fun row => listRefs row.2
  | .policies => db.policies.rows.flatMap fun row => policyRefs row.2
  | .devices => []
  | .settings => (db.adminProvider.map Ref.provider).toList

/-- Every reference resolves. -/
def Resolved (db : Db) : Prop := ∀ src, ∀ r ∈ db.refsIn src, db.resolves r = true

/-- A listing that finds no user of a row finds no reference to it. -/
theorem not_mem_refsIn_of_uses {db : Db} {src : Source} {r : Ref} (hsrc : src ∈ scans r)
    (h : db.uses src r = false) : r ∉ db.refsIn src := by
  intro hr
  rw [Bool.eq_false_iff] at h
  refine h ?_
  cases src with
  | hosts =>
      obtain ⟨row, hrow, hr⟩ := List.mem_flatMap.mp hr
      simp only [Db.uses, List.any_eq_true]
      exact ⟨row, hrow, Host.uses_of_mem_refs hr⟩
  | streams =>
      obtain ⟨row, hrow, hr⟩ := List.mem_flatMap.mp hr
      simp only [Db.uses, List.any_eq_true]
      exact ⟨row, hrow, Stream.uses_of_mem_refs hr⟩
  | lists =>
      cases r with
      | provider id =>
          obtain ⟨row, hrow, hr⟩ := List.mem_flatMap.mp hr
          simp only [Db.uses]
          exact List.any_eq_true.mpr ⟨row, hrow, provider_of_mem_rulesNamed hr⟩
      | _ => simp [scans] at hsrc
  | policies =>
      cases r with
      | provider id =>
          obtain ⟨row, hrow, hr⟩ := List.mem_flatMap.mp hr
          simp only [Db.uses, List.any_eq_true]
          have heq := Ref.provider.inj (List.mem_singleton.mp hr)
          exact ⟨row, hrow, by simp [heq]⟩
      | _ => simp [scans] at hsrc
  | devices => simp [Db.refsIn] at hr
  | settings =>
      cases r with
      | provider id => simpa [Db.refsIn, Db.uses] using hr
      | _ => simp [scans] at hsrc

/-! ### Writes

A write adds the references of its record and takes no row away; a delete takes one row away
and adds nothing. -/

section Writes

variable {db : Db} {w : Write} {src : Source} {r : Ref}

/-- The references of a table after one of its rows was written. -/
theorem mem_refs_insert {α : Type} {t : Table α} {v : α} {f : α → List Ref}
    (h : r ∈ (t.insert v).rows.flatMap fun row => f row.2) :
    r ∈ (t.rows.flatMap fun row => f row.2) ∨ r ∈ f v := by
  obtain ⟨row, hrow, hr⟩ := List.mem_flatMap.mp h
  rcases Table.mem_insert.mp hrow with hold | rfl
  · exact Or.inl (List.mem_flatMap.mpr ⟨row, hold, hr⟩)
  · exact Or.inr hr

theorem mem_refs_update {α : Type} {t : Table α} {id : Int} {v : α} {f : α → List Ref}
    (h : r ∈ (t.update id v).rows.flatMap fun row => f row.2) :
    r ∈ (t.rows.flatMap fun row => f row.2) ∨ r ∈ f v := by
  obtain ⟨row, hrow, hr⟩ := List.mem_flatMap.mp h
  rcases Table.mem_update.mp hrow with ⟨-, hold⟩ | ⟨rfl, -⟩
  · exact Or.inl (List.mem_flatMap.mpr ⟨row, hold, hr⟩)
  · exact Or.inr hr

theorem mem_refs_delete {α : Type} {t : Table α} {id : Int} {f : α → List Ref}
    (h : r ∈ (t.delete id).rows.flatMap fun row => f row.2) :
    r ∈ t.rows.flatMap fun row => f row.2 := by
  obtain ⟨row, hrow, hr⟩ := List.mem_flatMap.mp h
  exact List.mem_flatMap.mpr ⟨row, (Table.mem_delete.mp hrow).2, hr⟩

/-- A write adds the references of its record to its table. -/
theorem mem_refsIn_apply (h : r ∈ (w.apply db).refsIn src) :
    r ∈ db.refsIn src ∨ (src = w.source ∧ r ∈ w.refs) := by
  cases w with
  | createHost v =>
      cases src with
      | hosts => exact (mem_refs_insert h).imp_right fun hnew => ⟨rfl, hnew⟩
      | _ => exact Or.inl h
  | updateHost id v =>
      cases src with
      | hosts => exact (mem_refs_update h).imp_right fun hnew => ⟨rfl, hnew⟩
      | _ => exact Or.inl h
  | createStream v =>
      cases src with
      | streams => exact (mem_refs_insert h).imp_right fun hnew => ⟨rfl, hnew⟩
      | _ => exact Or.inl h
  | updateStream id v =>
      cases src with
      | streams => exact (mem_refs_update h).imp_right fun hnew => ⟨rfl, hnew⟩
      | _ => exact Or.inl h
  | createList v =>
      simp only [Write.apply] at h
      split at h
      · exact Or.inl h
      · cases src with
        | lists => exact (mem_refs_insert h).imp_right fun hnew => ⟨rfl, hnew⟩
        | _ => exact Or.inl h
  | updateList id v =>
      simp only [Write.apply] at h
      split at h
      · exact Or.inl h
      · cases src with
        | lists => exact (mem_refs_update h).imp_right fun hnew => ⟨rfl, hnew⟩
        | _ => exact Or.inl h
  | createPolicy v =>
      cases src with
      | policies => exact (mem_refs_insert (f := policyRefs) h).imp_right fun hnew => ⟨rfl, hnew⟩
      | _ => exact Or.inl h
  | updatePolicy id v =>
      cases src with
      | policies => exact (mem_refs_update (f := policyRefs) h).imp_right fun hnew => ⟨rfl, hnew⟩
      | _ => exact Or.inl h
  | setAdmin provider =>
      cases src with
      | settings => exact Or.inr ⟨rfl, h⟩
      | _ => exact Or.inl h

/-- A write takes no row away. -/
theorem resolves_apply (h : db.resolves r = true) : (w.apply db).resolves r = true := by
  cases w with
  | createList v =>
      simp only [Write.apply]
      split
      · exact h
      · cases r with
        | list id => exact Table.has_insert h
        | _ => exact h
  | updateList id v =>
      simp only [Write.apply]
      split
      · exact h
      · cases r with
        | list id => exact Table.has_update h
        | _ => exact h
  | _ => exact h

theorem Resolved.apply (h : Resolved db) (hrefs : ∀ r ∈ w.refs, db.resolves r = true) :
    Resolved (w.apply db) := by
  intro src r hr
  rcases mem_refsIn_apply hr with hold | ⟨-, hnew⟩
  · exact resolves_apply (h src r hold)
  · exact resolves_apply (hrefs r hnew)

theorem mem_refsIn_remove {r' : Ref} (h : r ∈ (db.remove r').refsIn src) : r ∈ db.refsIn src := by
  cases r' with
  | list id =>
      cases src with
      | lists => exact mem_refs_delete h
      | _ => exact h
  | device id =>
      simp only [Db.remove] at h
      split at h <;> exact h
  | _ => exact h

/-- Of the references that resolve, the one to the row that goes is lost. -/
theorem resolves_remove {r' : Ref} (h : db.resolves r = true) (hne : r ≠ r') :
    (db.remove r').resolves r = true := by
  cases r' with
  | list id =>
      cases r with
      | list id' => exact Table.has_delete h fun heq => hne (congrArg Ref.list heq)
      | _ => exact h
  | cert id =>
      cases r with
      | cert id' => exact Table.has_delete h fun heq => hne (congrArg Ref.cert heq)
      | _ => exact h
  | provider id =>
      cases r with
      | provider id' => exact Table.has_delete h fun heq => hne (congrArg Ref.provider heq)
      | _ => exact h
  | site id =>
      cases r with
      | site id' => exact Table.has_delete h fun heq => hne (congrArg Ref.site heq)
      | _ => exact h
  | device id =>
      simp only [Db.remove]
      split
      · rename_i d hd
        cases r with
        | device id' =>
            simp only [Db.resolves, Option.any_eq_true] at h ⊢
            obtain ⟨d', hd', hlive⟩ := h
            have hother : id' ≠ id := fun heq => hne (congrArg Ref.device heq)
            refine ⟨d', ?_, hlive⟩
            exact Table.lookup_eq_some.mpr
              (Table.mem_update.mpr (Or.inl ⟨hother, Table.lookup_eq_some.mp hd'⟩))
        | _ => exact h
      · exact h

theorem mem_refsIn_statement {st : Statement} (h : r ∈ (st.apply db).refsIn src) :
    r ∈ db.refsIn src := by
  cases st with
  | deleteHost id =>
      cases src with
      | hosts => exact mem_refs_delete h
      | _ => exact h
  | deleteStream id =>
      cases src with
      | streams => exact mem_refs_delete h
      | _ => exact h
  | deletePolicy id =>
      cases src with
      | policies => exact mem_refs_delete (f := policyRefs) h
      | _ => exact h
  | _ => exact h

theorem resolves_statement {st : Statement} (h : db.resolves r = true) :
    (st.apply db).resolves r = true := by
  cases st with
  | createCert =>
      cases r with
      | cert id => exact Table.has_insert h
      | _ => exact h
  | createProvider =>
      cases r with
      | provider id => exact Table.has_insert h
      | _ => exact h
  | createSite =>
      cases r with
      | site id => exact Table.has_insert h
      | _ => exact h
  | createDevice provider =>
      cases r with
      | device id =>
          simp only [Db.resolves, Option.any_eq_true] at h ⊢
          obtain ⟨d, hd, hlive⟩ := h
          refine ⟨d, ?_, hlive⟩
          exact Table.lookup_eq_some.mpr
            (Table.mem_insert.mpr (Or.inl (Table.lookup_eq_some.mp hd)))
      | _ => exact h
  | _ => exact h

end Writes

/-! ### Requests in flight

`RefsFound` is what a request in flight relies on when it comes to its write: that its
references resolve, or that the row it deletes is not named. -/

/-- What a request in flight has found: the references of a save that were looked up
resolve, and a delete has seen no user in the tables it has done with. -/
def RefsFound (db : Db) : Job → Prop
  | .saving _ w done todo _ => w.refs = done ++ todo ∧ ∀ r ∈ done, db.resolves r = true
  | .deleting r left => ∀ src ∈ scans r, src ∈ left ∨ r ∉ db.refsIn src
  | _ => True

structure RefsInv (s : State) : Prop where
  resolved : Resolved s.db
  jobs : ∀ job ∈ s.jobs, RefsFound s.db job

/-- The references that a save has looked up and not written. -/
def Job.lookedUp : Job → List Ref
  | .saving _ _ done _ _ => done
  | _ => []

def Job.deletes : Job → Option (Ref × List Source)
  | .deleting r left => some (r, left)
  | _ => none

def Job.removing : Job → Option Ref
  | .deleting r [] => some r
  | _ => none

def unscanned (r : Ref) : List Source :=
  [.hosts, .streams, .lists, .policies, .devices, .settings].filter fun src => src ∉ scans r

/-- A delete in flight still looks for users in the table of the write, if it looks there
at all and the write names its row. -/
def StillLooks (w : Write) (other : Job) : Prop :=
  ∀ d ∈ other.deletes, d.1 ∈ w.refs → w.source ∈ scans d.1 → w.source ∈ d.2

/-- What a step must not do. A save does not write a reference to a row whose delete has
looked for users in that table already; a row does not go while a save that found it is
in flight, nor while a table that is not looked through names it; and an import brings
no reference into a table that a delete of the row has done with. -/
def RefsUndisturbed (lib : Lib) (reserved : List Int) (s : State) : Label → Prop
  | .begin _ => True
  | .step i =>
      (∀ job ∈ s.jobs[i]?, ∀ w ∈ job.writing, ∀ other ∈ s.jobs, StillLooks w other) ∧
      (∀ job ∈ s.jobs[i]?, ∀ r ∈ job.removing,
        (∀ other ∈ s.jobs, r ∉ other.lookedUp) ∧ ∀ src ∈ unscanned r, r ∉ s.db.refsIn src)
  | .statement _ => True
  | .importDoc salt doc =>
      match Store.importDoc lib salt reserved doc s.db with
      | .error _ => True
      | .ok (db', _) => ∀ job ∈ s.jobs, ∀ d ∈ job.deletes, ∀ src ∈ scans d.1, src ∉ d.2 →
          d.1 ∉ db'.refsIn src

instance (w : Write) (other : Job) : Decidable (StillLooks w other) :=
  inferInstanceAs (Decidable (∀ d ∈ other.deletes, d.1 ∈ w.refs → w.source ∈ scans d.1 →
    w.source ∈ d.2))

instance (lib : Lib) (reserved : List Int) (s : State) :
    ∀ label, Decidable (RefsUndisturbed lib reserved s label)
  | .begin _ | .statement _ => isTrue trivial
  | .step i => inferInstanceAs (Decidable (
      (∀ job ∈ s.jobs[i]?, ∀ w ∈ job.writing, ∀ other ∈ s.jobs, StillLooks w other) ∧
      (∀ job ∈ s.jobs[i]?, ∀ r ∈ job.removing,
        (∀ other ∈ s.jobs, r ∉ other.lookedUp) ∧ ∀ src ∈ unscanned r, r ∉ s.db.refsIn src)))
  | .importDoc salt doc =>
      have : Decidable (match Store.importDoc lib salt reserved doc s.db with
          | .error _ => True
          | .ok (db', _) => ∀ job ∈ s.jobs, ∀ d ∈ job.deletes, ∀ src ∈ scans d.1, src ∉ d.2 →
              d.1 ∉ db'.refsIn src) :=
        match Store.importDoc lib salt reserved doc s.db with
        | .error _ => isTrue trivial
        | .ok (db', _) => inferInstanceAs (Decidable (∀ job ∈ s.jobs, ∀ d ∈ job.deletes,
            ∀ src ∈ scans d.1, src ∉ d.2 → d.1 ∉ db'.refsIn src))
      this

section Steps

variable {lib : Lib} {reserved : List Int} {s : State} {db' : Db}

/-- A request that begins has found nothing. -/
theorem refsFound_of_job {request : Request} {job : Job} {db : Db}
    (hjob : request.job lib reserved = .ok job) : RefsFound db job := by
  cases request with
  | createHost id h | updateHost id h =>
      simp only [Request.job, bind_eq_ok, pure_eq_ok] at hjob
      obtain ⟨kept, -, rfl⟩ := hjob
      trivial
  | createStream id st | updateStream id st =>
      simp only [Request.job, bind_eq_ok, pure_eq_ok] at hjob
      obtain ⟨kept, -, rfl⟩ := hjob
      exact ⟨rfl, by simp⟩
  | createList a salt =>
      simp only [Request.job, bind_eq_ok, pure_eq_ok] at hjob
      obtain ⟨kept, -, rfl⟩ := hjob
      exact ⟨rfl, by simp⟩
  | savePolicy id subject =>
      simp only [Request.job, bind_eq_ok, pure_eq_ok] at hjob
      obtain ⟨kept, -, rfl⟩ := hjob
      exact ⟨rfl, by simp⟩
  | updateList id a salt =>
      obtain rfl := Except.ok.inj hjob
      trivial
  | setAdmin provider =>
      obtain rfl := Except.ok.inj hjob
      exact ⟨rfl, by simp⟩
  | delete r =>
      obtain rfl := Except.ok.inj hjob
      exact fun src hsrc => Or.inl hsrc

/-- A request in flight keeps what it found when its lookups still resolve and nothing
new names the row it deletes. -/
theorem RefsFound.of_db {db : Db} {job : Job} (h : RefsFound db job)
    (hresolves : ∀ r ∈ job.lookedUp, db.resolves r = true → db'.resolves r = true)
    (hunused : ∀ d ∈ job.deletes, ∀ src ∈ scans d.1, src ∉ d.2 → d.1 ∉ db.refsIn src →
      d.1 ∉ db'.refsIn src) : RefsFound db' job := by
  cases job with
  | saving self w done todo free =>
      obtain ⟨hrefs, hdone⟩ := h
      exact ⟨hrefs, fun r hr => hresolves r hr (hdone r hr)⟩
  | deleting r left =>
      intro src hsrc
      by_cases hleft : src ∈ left
      · exact Or.inl hleft
      · rcases h src hsrc with hin | hnot
        · exact absurd hin hleft
        · exact Or.inr (hunused (r, left) rfl src hsrc hleft hnot)
  | waiting => trivial
  | loading => trivial
  | ended => trivial

theorem RefsInv.set (hinv : RefsInv s) {job : Job} (hjob : RefsFound s.db job) (i : Nat)
    (mu : Option Nat) : RefsInv ⟨s.db, mu, s.jobs.set i job⟩ := by
  refine ⟨hinv.resolved, ?_⟩
  intro job' hjob'
  rcases List.mem_or_eq_of_mem_set hjob' with hold | rfl
  · exact hinv.jobs job' hold
  · exact hjob

/-- The next statement of a job. -/
theorem RefsInv.moved (hinv : RefsInv s) {i : Nat} {job job' : Job} (hjob : s.jobs[i]? = some job)
    (hstep : JobStep lib s.db job job' db') (hallowed : RefsUndisturbed lib reserved s (.step i))
    (mu : Option Nat) : RefsInv ⟨db', mu, s.jobs.set i job'⟩ := by
  have hfound := hinv.jobs job (List.mem_of_getElem? hjob)
  obtain ⟨hwrite, hremove⟩ := hallowed
  cases hstep with
  | lock self w =>
      refine hinv.set ?_ i mu
      exact ⟨rfl, by simp⟩
  | load hprev hvalid =>
      refine hinv.set ?_ i mu
      exact ⟨rfl, by simp⟩
  | list hnow hfits =>
      refine hinv.set ?_ i mu
      exact hfound
  | look hresolves =>
      obtain ⟨hrefs, hdone⟩ := hfound
      refine hinv.set ?_ i mu
      refine ⟨by simpa using hrefs, ?_⟩
      intro r hr
      rcases List.mem_append.mp hr with hold | hnew
      · exact hdone r hold
      · exact List.mem_singleton.mp hnew ▸ hresolves
  | @scan r src left hunused =>
      refine hinv.set ?_ i mu
      intro src' hsrc'
      rcases hfound src' hsrc' with hin | hnot
      · rcases List.mem_cons.mp hin with rfl | hleft
        · exact Or.inr (not_mem_refsIn_of_uses hsrc' hunused)
        · exact Or.inl hleft
      · exact Or.inr hnot
  | refuse =>
      refine hinv.set ?_ i mu
      trivial
  | @write self w done free hlisted =>
      obtain ⟨hrefs, hdone⟩ := hfound
      rw [List.append_nil] at hrefs
      refine ⟨hinv.resolved.apply fun r hr => hdone r (hrefs ▸ hr), ?_⟩
      intro other hother
      rcases List.mem_or_eq_of_mem_set hother with hold | rfl
      · refine (hinv.jobs other hold).of_db (fun r _ => resolves_apply) ?_
        intro d hd src hsrc hleft hnot hnew
        rcases mem_refsIn_apply hnew with hin | ⟨rfl, hin⟩
        · exact hnot hin
        · have hwriting : (Job.saving self w done [] free).writing = some w := by
            simp [Job.writing, hlisted]
          exact hleft (hwrite _ hjob w hwriting other hold d hd hin hsrc)
      · trivial
  | @remove r =>
      obtain ⟨hlooked, hunscanned⟩ := hremove _ hjob r rfl
      -- nothing names the row: neither the tables that were looked through nor the others
      have hunnamed : ∀ src, r ∉ s.db.refsIn src := by
        intro src
        by_cases hsrc : src ∈ scans r
        · rcases hfound src hsrc with hin | hnot
          · simp at hin
          · exact hnot
        · refine hunscanned src (List.mem_filter.mpr ⟨?_, by simpa using hsrc⟩)
          cases src <;> simp
      refine ⟨?_, ?_⟩
      · intro src r' hr'
        have hold := mem_refsIn_remove hr'
        refine resolves_remove (hinv.resolved src r' hold) ?_
        rintro rfl
        exact hunnamed src hold
      · intro other hother
        rcases List.mem_or_eq_of_mem_set hother with hold | rfl
        · refine (hinv.jobs other hold).of_db ?_ ?_
          · intro r' hr' hresolves
            refine resolves_remove hresolves ?_
            rintro rfl
            exact hlooked other hold hr'
          · intro d hd src hsrc hleft hnot hnew
            exact hnot (mem_refsIn_remove hnew)
        · trivial

/-! ### An import

The tables only grow while an import runs. -/

theorem checkHost_refs {db : Db} {id : Int} {h kept : Host}
    (hcheck : checkHost lib db id h = .ok kept) : ∀ r ∈ kept.refs, db.resolves r = true := by
  obtain ⟨-, hrefs, -⟩ := checkHost_eq_ok.mp hcheck
  simp only [checkHostRefs, bind_eq_ok] at hrefs
  obtain ⟨_, hnamed, _, -, hrules⟩ := hrefs
  intro r hr
  rw [Host.refs, Named.refs_append, List.mem_append] at hr
  rcases hr with hr | hr
  · exact requireRows_eq_ok.mp hnamed r hr
  · exact requireRows_eq_ok.mp hrules r hr

/-- The database, some turns later: every reference resolves, and what resolved before
does. -/
def Grown (db db' : Db) : Prop :=
  Resolved db' ∧ ∀ r, db.resolves r = true → db'.resolves r = true

theorem Grown.apply {db : Db} (h : Grown db db') {w : Write}
    (hrefs : ∀ r ∈ w.refs, db'.resolves r = true) : Grown db (w.apply db') :=
  ⟨h.1.apply hrefs, fun r hr => resolves_apply (h.2 r hr)⟩

theorem importList_grown {db : Db} {salt : Nat → Nat → Salt} {n : Nat}
    {t t' : Importing AccessList × List (Int × Int)} {entry : Int × AccessListInput}
    (h : Grown db t.1.db) (hturn : importList lib salt n t entry = .ok t') : Grown db t'.1.db := by
  rcases importList_eq_ok.mp hturn
    with ⟨id, cur, db₁, -, -, hupdate, rfl⟩ | ⟨db₁, list, -, hcreate, rfl⟩
  · obtain ⟨prev, list, -, -, hrefs, hfree, rfl⟩ := updateAccessList_eq_ok.mp hupdate
    have happly : (Write.updateList id list).apply t.1.db =
        { t.1.db with accessLists := t.1.db.accessLists.update id list } := by
      simp [Write.apply, hfree]
    exact happly ▸ h.apply (w := .updateList id list) hrefs
  · obtain ⟨-, hrefs, hfree, rfl⟩ := createAccessList_eq_ok.mp hcreate
    have happly : (Write.createList list).apply t.1.db =
        { t.1.db with accessLists := t.1.db.accessLists.insert list } := by
      simp [Write.apply, hfree]
    exact happly ▸ h.apply (w := .createList list) hrefs

theorem importHost_grown {db : Db} {n : Nat} {t t' : Importing Host} {host : Host}
    (h : Grown db t.db) (hturn : importHost lib n t host = .ok t') : Grown db t'.db := by
  rcases importHost_eq_ok.mp hturn
    with ⟨id, cur, db₁, -, -, hupdate, rfl⟩ | ⟨db₁, kept, -, hcreate, rfl⟩
  · obtain ⟨kept, hcheck, -, rfl⟩ := updateHost_eq_ok.mp hupdate
    exact h.apply (w := .updateHost id kept) (checkHost_refs hcheck)
  · obtain ⟨hcheck, rfl⟩ := createHost_eq_ok.mp hcreate
    exact h.apply (w := .createHost kept) (checkHost_refs hcheck)

theorem importStream_grown {db : Db} {n : Nat} {t t' : Importing Stream} {st : Stream}
    (h : Grown db t.db) (hturn : importStream lib reserved n t st = .ok t') : Grown db t'.db := by
  rcases importStream_eq_ok.mp hturn
    with ⟨id, cur, db₁, -, -, hupdate, rfl⟩ | ⟨db₁, kept, -, hcreate, rfl⟩
  · obtain ⟨kept, hcheck, -, rfl⟩ := updateStream_eq_ok.mp hupdate
    exact h.apply (w := .updateStream id kept) (checkStream_eq_ok.mp hcheck).2.2
  · obtain ⟨hcheck, rfl⟩ := createStream_eq_ok.mp hcreate
    exact h.apply (w := .createStream kept) (checkStream_eq_ok.mp hcheck).2.2

theorem importDoc_grown {salt : Nat → Nat → Salt} {doc : ImportDoc} {db : Db}
    {result : ImportResult} (hdb : Resolved db)
    (h : importDoc lib salt reserved doc db = .ok (db', result)) : Grown db db' := by
  obtain ⟨lists, hosts, streams, hlists, hhosts, hstreams, rfl, -⟩ := importDoc_eq_ok.mp h
  have hfirst : Grown db lists.1.db :=
    foldEach_invariant (P := fun t : Importing AccessList × List (Int × Int) => Grown db t.1.db)
      (fun _ _ _ _ _ => importList_grown) ⟨hdb, fun _ => id⟩ hlists
  have hsecond : Grown db hosts.db :=
    foldEach_invariant (P := fun t : Importing Host => Grown db t.db)
      (fun _ _ _ _ _ => importHost_grown) hfirst hhosts
  exact foldEach_invariant (P := fun t : Importing Stream => Grown db t.db)
    (fun _ _ _ _ _ => importStream_grown) hsecond hstreams

/-! ### Runs

The step lemma has one case for each of `StepCases`. -/

theorem refsInv_step {s' : State} {label : Label} (hinv : RefsInv s)
    (hallowed : RefsUndisturbed lib reserved s label)
    (hstep : step lib reserved s label = some s') : RefsInv s' := by
  cases step_cases hstep with
  | refused => exact hinv
  | began hjob =>
      refine ⟨hinv.resolved, ?_⟩
      intro job' hjob'
      rcases List.mem_append.mp hjob' with hold | hnew
      · exact hinv.jobs job' hold
      · obtain rfl := List.mem_singleton.mp hnew
        exact refsFound_of_job hjob
  | moved hjob hcases hmutex => exact hinv.moved hjob hcases hallowed _
  | statement st =>
      refine ⟨fun src r hr => resolves_statement (hinv.resolved src r (mem_refsIn_statement hr)),
        ?_⟩
      intro job hjob
      refine (hinv.jobs job hjob).of_db (fun r _ => resolves_statement) ?_
      intro d hd src hsrc hleft hnot hnew
      exact hnot (mem_refsIn_statement hnew)
  | imported himport =>
      simp only [RefsUndisturbed, himport] at hallowed
      obtain ⟨hresolved, hkept⟩ := importDoc_grown hinv.resolved himport
      refine ⟨hresolved, ?_⟩
      intro job hjob
      refine (hinv.jobs job hjob).of_db (fun r _ => hkept r) ?_
      intro d hd src hsrc hleft _
      exact hallowed job hjob d hd src hsrc hleft

end Steps

/-- In every run whose steps meet the condition, every stored reference resolves. -/
theorem references_resolve (lib : Lib) (reserved : List Int) (db : Db) (hdb : Resolved db)
    (labels : List Label) (s : State)
    (hmeets : RunMeets (step lib reserved) (RefsUndisturbed lib reserved) (.start db) labels)
    (hrun : run (step lib reserved) (.start db) labels = some s) : Resolved s.db := by
  have hstart : RefsInv (State.start db) := by
    refine ⟨hdb, ?_⟩
    intro job hjob
    simp [State.start] at hjob
  exact (hmeets.invariant (fun _ _ _ => refsInv_step) hstart hrun).resolved

/-! ### A site and the access list that names it

A delete of a site does not look through the rules of the access lists. -/

theorem resolved_empty : Resolved .empty := by
  intro src r hr
  cases src <;> simp [Db.refsIn, Db.empty, Table.empty] at hr

/-- A list that admits what comes from the first site. -/
def fromSite : AccessListInput :=
  ⟨"staff", "any", false, [⟨"allow", "", "", "", [], some ⟨"peer", "site:1", 0, "", ""⟩⟩], []⟩

/-- Two sites; the list is saved, and the site that it does not name goes. -/
def otherSiteGoes : List Label :=
  [.statement .createSite, .statement .createSite, .begin (.createList fromSite fun _ => 0),
    .begin (.delete (.site 2)), .step 0, .step 1, .step 0, .step 1, .step 1]

/-- The site that the list names goes. -/
def namedSiteGoes : List Label :=
  [.statement .createSite, .begin (.createList fromSite fun _ => 0), .step 0, .step 0,
    .begin (.delete (.site 1)), .step 1, .step 1, .step 1]

theorem references_resolve_sites :
    ∃ s, run (step asciiLib []) (.start .empty) otherSiteGoes = some s ∧
      (s.db.refsIn .lists = [.site 1] ∧ s.db.sites.rows = [(1, ())]) ∧ Resolved s.db := by
  obtain ⟨s, hrun, hdb⟩ : ∃ s, run (step asciiLib []) (.start .empty) otherSiteGoes = some s ∧
      (s.db.refsIn .lists, s.db.sites.rows) = ([.site 1], [(1, ())]) :=
    Option.map_eq_some_iff.mp (by decide +kernel)
  exact ⟨s, hrun, Prod.mk.inj hdb,
    references_resolve asciiLib [] .empty resolved_empty otherSiteGoes s (by decide +kernel) hrun⟩

theorem deleted_site_still_named :
    ∃ s, Resolved Db.empty ∧ run (step asciiLib []) (.start .empty) namedSiteGoes = some s ∧
      ¬ Resolved s.db := by
  obtain ⟨s, hrun, hdb⟩ : ∃ s, run (step asciiLib []) (.start .empty) namedSiteGoes = some s ∧
      (s.db.refsIn .lists, s.db.resolves (.site 1)) = ([.site 1], false) :=
    Option.map_eq_some_iff.mp (by decide +kernel)
  obtain ⟨hnamed, hgone⟩ := Prod.mk.inj hdb
  refine ⟨s, resolved_empty, hrun, ?_⟩
  intro hresolved
  have hfound := hresolved .lists (.site 1) (by simp [hnamed])
  exact Bool.noConfusion (hgone.symm.trans hfound)

end Quicgate.Store
