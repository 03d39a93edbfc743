import Quicgate.StoreMachine

/-!
# Rows that exclude one another

The names of hosts and the ports of streams are given out the same way: a save lists
the table, sees that nothing in it is in the way of the record, and writes.  What has
to hold for any two rows of the table then holds after every step, provided that
nothing comes in the way between the listing and the write.

`Exclusive` is such a table; `Exclusive.Inv` is the invariant, with what it says about the
saves in flight; `Inv.moved` names the two places where a step can break it.  `StreamPorts`
and `HostNames` instantiate it and say what the two places come to for their records.
-/

namespace Quicgate.Store

open Quicgate.Sql Quicgate.TransitionSystem

/-! ### Saves in flight

Three moments of a save matter: it is about to list, it has found room, it is about to write. -/

def Job.listing : Job → Option (Int × Write)
  | .saving self w _ todo free => if w.listsNow todo free then some (self, w) else none
  | _ => none

def Job.writing : Job → Option Write
  | .saving _ w _ [] free => if w.listsNow [] free then none else some w
  | _ => none

/-- The save found room for its record and has not written it. -/
def Job.pending : Job → Option Write
  | .saving _ w _ _ true => some w
  | _ => none

/-! ### Tables with rows that keep apart

A record has room when it keeps apart from every row but the one it overwrites.  Statements that
only take rows away leave the room that was found. -/

/-- A table whose rows keep apart, and the writes to it. -/
structure Exclusive (α : Type) where
  table : Db → Table α
  /-- The record of a write to this table. -/
  record : Write → Option α
  Apart : α → α → Prop
  /-- What the listing sees to beside the other rows. -/
  Listed : α → Prop
  symm : ∀ a b, Apart a b → Apart b a
  apply_other : ∀ db w, record w = none → table (w.apply db) = table db
  apply_create : ∀ db w v, record w = some v → w.target = none →
    table (w.apply db) = (table db).insert v
  apply_update : ∀ db w v id, record w = some v → w.target = some id →
    table (w.apply db) = (table db).update id v
  remove : ∀ db r, table (db.remove r) = table db
  statement : ∀ db st, ∀ row ∈ (table (Statement.apply db st)).rows, row ∈ (table db).rows
  /-- An access list that was read again is none of its records. -/
  loaded : ∀ id a, record (.updateList id a) = none
  /-- Its records are listed before they are written. -/
  listed : ∀ w v free, record w = some v → w.listsNow [] free = false → free = true

namespace Exclusive

variable {α : Type} (E : Exclusive α) (Good : α → Prop)

/-- The record passed its listing and keeps apart from every row but the one it
overwrites. -/
def Room (db : Db) (w : Write) (v : α) : Prop :=
  E.Listed v ∧ ∀ id v', (id, v') ∈ (E.table db).rows → w.target ≠ some id → E.Apart v v'

/-- A record to be saved is good, and an update tells it by the row it overwrites. -/
def RecordOk (self : Int) (w : Write) (v : α) : Prop :=
  Good v ∧ ∀ id, w.target = some id → id = self

def JobOk (db : Db) : Job → Prop
  | .waiting self w => ∀ v, E.record w = some v → RecordOk Good self w v
  | .saving self w _ _ free =>
      ∀ v, E.record w = some v → RecordOk Good self w v ∧ (free = true → E.Room db w v)
  | _ => True

structure Inv (s : State) : Prop where
  pairwise : (E.table s.db).Pairwise E.Apart
  good : ∀ id v, (id, v) ∈ (E.table s.db).rows → Good v ∧ E.Listed v
  jobs : ∀ job ∈ s.jobs, JobOk E Good s.db job

/-! ### One statement of a job

The invariant speaks of the rows and of every save in flight, so a statement must be looked at
from the side of the other saves too: a listing must not pass over a row, and a write must not
take the room of somebody who has listed. -/

/-- Two saves do not come into each other's way: their records keep apart, or they
overwrite one row. -/
def WritesApart (w w' : Write) : Prop :=
  ∀ v v', E.record w = some v → E.record w' = some v' →
    E.Apart v' v ∨ ∃ id, w.target = some id ∧ w'.target = some id

variable {E Good} {db db' : Db}

theorem JobOk.of_room_subset {job : Job} (h : JobOk E Good db job)
    (hroom : ∀ self w done todo v, job = .saving self w done todo true → E.record w = some v →
      E.Room db w v → E.Room db' w v) : JobOk E Good db' job := by
  cases job with
  | saving self w done todo free =>
      intro v hv
      obtain ⟨hrecord, hfree⟩ := h v hv
      refine ⟨hrecord, ?_⟩
      rintro rfl
      exact hroom self w done todo v rfl hv (hfree rfl)
  | waiting => exact h
  | loading => trivial
  | deleting => trivial
  | ended => trivial

/-- A statement that takes rows away, or touches other tables, takes no room. -/
theorem JobOk.of_rows_subset {job : Job} (h : JobOk E Good db job)
    (hrows : ∀ row ∈ (E.table db').rows, row ∈ (E.table db).rows) : JobOk E Good db' job := by
  refine h.of_room_subset ?_
  intro self w done todo v _ _ hroom
  exact ⟨hroom.1, fun id v' hrow htarget => hroom.2 id v' (hrows _ hrow) htarget⟩

variable {s : State}

theorem Inv.of_rows_subset (hinv : Inv E Good s) (db' : Db)
    (hrows : ∀ row ∈ (E.table db').rows, row ∈ (E.table s.db).rows) (mu : Option Nat) :
    Inv E Good ⟨db', mu, s.jobs⟩ := by
  refine ⟨?_, ?_, ?_⟩
  · intro id v id' v' hv hv' hne
    exact hinv.pairwise id v id' v' (hrows _ hv) (hrows _ hv') hne
  · intro id v hv
    exact hinv.good id v (hrows _ hv)
  · intro job hjob
    exact (hinv.jobs job hjob).of_rows_subset hrows

theorem Inv.set (hinv : Inv E Good s) {job : Job} (hjob : JobOk E Good s.db job) (i : Nat)
    (mu : Option Nat) : Inv E Good ⟨s.db, mu, s.jobs.set i job⟩ := by
  refine ⟨hinv.pairwise, hinv.good, ?_⟩
  intro job' hjob'
  rcases List.mem_or_eq_of_mem_set hjob' with hold | rfl
  · exact hinv.jobs job' hold
  · exact hjob

/-- The rows after a record with room was written. -/
theorem rows_apply {w : Write} {v : α} (hv : E.record w = some v) {row : Int × α}
    (hrow : row ∈ (E.table (w.apply db)).rows) :
    (row ∈ (E.table db).rows ∧ w.target ≠ some row.1) ∨ (row.2 = v ∧
      (w.target = none ∨ w.target = some row.1)) := by
  cases htarget : w.target with
  | none =>
      rw [E.apply_create db w v hv htarget] at hrow
      rcases Table.mem_insert.mp hrow with hold | rfl
      · exact Or.inl ⟨hold, by simp⟩
      · exact Or.inr ⟨rfl, Or.inl rfl⟩
  | some id =>
      rw [E.apply_update db w v id hv htarget] at hrow
      rcases Table.mem_update.mp hrow with ⟨hne, hold⟩ | ⟨rfl, -⟩
      · exact Or.inl ⟨hold, fun heq => hne (Option.some.inj heq).symm⟩
      · exact Or.inr ⟨rfl, Or.inr rfl⟩

/-- Writing a record that has room. -/
theorem pairwise_apply (hpair : (E.table db).Pairwise E.Apart) {w : Write} {v : α}
    (hv : E.record w = some v) (hroom : E.Room db w v) :
    (E.table (w.apply db)).Pairwise E.Apart := by
  cases htarget : w.target with
  | none =>
      rw [E.apply_create db w v hv htarget]
      exact hpair.insert E.symm fun id v' hrow => hroom.2 id v' hrow (by simp [htarget])
  | some id =>
      rw [E.apply_update db w v id hv htarget]
      refine hpair.update E.symm fun id' v' hrow hne => hroom.2 id' v' hrow ?_
      rw [htarget]
      exact fun heq => hne (Option.some.inj heq).symm

/-- A job that begins has found nothing yet. -/
theorem Inv.began (hinv : Inv E Good s) {job : Job} (hjob : JobOk E Good s.db job) :
    Inv E Good { s with jobs := s.jobs ++ [job] } := by
  refine ⟨hinv.pairwise, hinv.good, ?_⟩
  intro job' hjob'
  rcases List.mem_append.mp hjob' with hold | hnew
  · exact hinv.jobs job' hold
  · obtain rfl := List.mem_singleton.mp hnew
    exact hjob

/-- A transaction that leaves the rows apart and takes no room from a save in
flight. -/
theorem Inv.transaction (hinv : Inv E Good s) (hpair : (E.table db').Pairwise E.Apart)
    (hgood : ∀ id v, (id, v) ∈ (E.table db').rows → Good v ∧ E.Listed v)
    (hroom : ∀ job ∈ s.jobs, ∀ w ∈ job.pending, ∀ v, E.record w = some v →
      ∀ row ∈ (E.table db').rows, row ∈ (E.table s.db).rows ∨ w.target = some row.1 ∨
        E.Apart v row.2) :
    Inv E Good { s with db := db' } := by
  refine ⟨hpair, hgood, ?_⟩
  intro job hjob
  refine (hinv.jobs job hjob).of_room_subset ?_
  rintro self w done todo v rfl hv ⟨hlisted, hold⟩
  refine ⟨hlisted, ?_⟩
  intro id v' hrow htarget
  rcases hroom _ hjob w rfl v hv (id, v') hrow with hmem | heq | hapart
  · exact hold id v' hmem htarget
  · exact absurd heq htarget
  · exact hapart

/-- The next statement of a job. Two of them can be in the way of others: the listing,
if it passes over a row that is no room for the record, and the write, if the record
is in the way of a save in flight that has listed already. -/
theorem Inv.moved (hinv : Inv E Good s) {lib : Lib} {i : Nat} {job job' : Job}
    (hjob : s.jobs[i]? = some job) (hstep : JobStep lib s.db job job' db')
    (hlist : ∀ self w done todo v, job = .saving self w done todo false →
      w.listsNow todo false = true → w.fits lib s.db self = true → E.record w = some v →
      RecordOk Good self w v → E.Room s.db w v)
    (hwrite : ∀ self w done, job = .saving self w done [] true → ∀ j self' w' done' todo', j ≠ i →
      s.jobs[j]? = some (.saving self' w' done' todo' true) → E.WritesApart w w')
    (mu : Option Nat) : Inv E Good ⟨db', mu, s.jobs.set i job'⟩ := by
  have hok := hinv.jobs job (List.mem_of_getElem? hjob)
  cases hstep with
  | lock self w =>
      refine hinv.set ?_ i mu
      intro v hv
      exact ⟨hok v hv, by simp⟩
  | load hprev hvalid =>
      refine hinv.set ?_ i mu
      intro v hv
      simp [E.loaded] at hv
  | list hnow hfits =>
      refine hinv.set ?_ i mu
      intro v hv
      obtain ⟨hrecord, -⟩ := hok v hv
      exact ⟨hrecord, fun _ => hlist _ _ _ _ v rfl hnow hfits hv hrecord⟩
  | look hfound =>
      refine hinv.set ?_ i mu
      exact hok
  | scan hunused =>
      refine hinv.set ?_ i mu
      trivial
  | refuse =>
      refine hinv.set ?_ i mu
      trivial
  | @remove r =>
      have hsub := hinv.of_rows_subset (s.db.remove r) (by simp [E.remove]) mu
      refine hsub.set ?_ i mu
      trivial
  | @write self w done free hlisted =>
      cases hv : E.record w with
      | none =>
          have hsub := hinv.of_rows_subset (w.apply s.db) (by simp [E.apply_other _ _ hv]) mu
          refine hsub.set ?_ i mu
          trivial
      | some v =>
          obtain rfl := E.listed w v free hv hlisted
          obtain ⟨⟨hgood, -⟩, hroom⟩ := hok v hv
          refine ⟨pairwise_apply hinv.pairwise hv (hroom rfl), ?_, ?_⟩
          · intro id v' hrow
            rcases rows_apply hv hrow with ⟨hold, -⟩ | ⟨heq, -⟩
            · exact hinv.good id v' hold
            · simp only at heq
              exact heq ▸ ⟨hgood, (hroom rfl).1⟩
          · intro other hother
            obtain ⟨j, hj⟩ := List.mem_iff_getElem?.mp hother
            rcases getElem?_set_eq_some hj with ⟨-, rfl⟩ | ⟨hne, hj⟩
            · trivial
            · refine (hinv.jobs other (List.mem_of_getElem? hj)).of_room_subset ?_
              rintro self' w' done' todo' v' rfl hv' ⟨hlisted', hroom'⟩
              refine ⟨hlisted', ?_⟩
              intro id x hrow htarget
              rcases rows_apply hv hrow with ⟨hold, -⟩ | ⟨heq, hwhere⟩
              · exact hroom' id x hold htarget
              · simp only at heq hwhere
                subst heq
                rcases hwrite self w done rfl j self' w' done' todo' hne hj x v' hv hv' with
                  hapart | ⟨id', hw, hw'⟩
                · exact hapart
                · rcases hwhere with hnone | hsome
                  · simp [hw] at hnone
                  · exact absurd (hw'.trans (hw.symm.trans hsome)) htarget

end Exclusive

end Quicgate.Store
