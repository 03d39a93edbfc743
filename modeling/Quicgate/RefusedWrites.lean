import Quicgate.SettingsApi
import Quicgate.StoreDb
import Quicgate.WriteSequences

/-!
# Requests of several writes

Adopting a container and updating the settings (`handleDockerAdopt`, `handlePutSettings` of
`internal/admin/admin.go`) write one row after another, without a transaction, and answer
with an error when a write fails.  What the earlier writes stored stays then.  The module
has both handlers to their end, over a store of which any write can fail, and says when
an error of theirs leaves the store as it was.

`refused_changes_nothing_iff` is exact for both handlers: of a container the first record is
the one that fails, or none does, and of the settings the entries before the failing one stood
in the table already.
-/

namespace Quicgate.RefusedWrites

open Quicgate.Checks Quicgate.GoMaps Quicgate.Store Quicgate.WriteSequences
open Quicgate.Seal (Cipher)
open Quicgate.Sql (Table)
open Quicgate.SettingsApi (Env checkSettings stored)
open Quicgate.Wg (Settings)

inductive Answer where
  | error (status : Nat) (why : String)
  /-- The change is saved, or the container adopted, but the reload failed. -/
  | notApplied (why : String)
  | done

/-- An error which does not say that the change is saved. -/
def Answer.Refuses (answer : Answer) : Prop := ∃ status why, answer = .error status why

def Answer.status : Answer → Option Nat
  | .error status _ => some status
  | .notApplied _ | .done => none

theorem Answer.refuses_of_status {answer : Answer} {status : Nat}
    (h : answer.status = some status) :
    answer.Refuses := by
  cases answer with
  | error status' why => exact ⟨status', why, rfl⟩
  | notApplied why => cases h
  | done => cases h

structure World where
  db : Db
  settings : Settings

structure Same (w w' : World) : Prop where
  hosts : w'.db.hosts.rows = w.db.hosts.rows
  streams : w'.db.streams.rows = w.db.streams.rows
  settings : ∀ key, w'.settings.lookup key = w.settings.lookup key

theorem Same.refl (w : World) : Same w w := ⟨rfl, rfl, fun _ => rfl⟩

/-- What the store makes of the writes of a request, by their number: `some why` is a write that
fails, beyond the checks before it. -/
abbrev Failures := Nat → Option String

/-- A write that comes to the database. -/
def orFail {σ : Type} (trouble : Option String) (write : σ → Check σ) (s : σ) : Check σ := do
  let t ← write s
  match trouble with
  | some why => .error why
  | none => .ok t

/-- The writes of a request with their failures. -/
def failing {σ : Type} (fails : Failures) (writes : List (σ → Check σ)) : List (σ → Check σ) :=
  writes.mapIdx fun k write => orFail (fails k) write

variable (lib : Lib) (cipher : Cipher) (env : Env)

/-! ### Adopting a container

The records were derived from the container's labels; the handler writes its host and then its
streams. -/

/-- A request to adopt a container: what decoding its body gives, and what the provider knows
under the two names. A derived record has no id. -/
structure Adopt where
  enabled : Bool
  body : Except (Nat × String) (String × String)
  adoptable : String → String → Option (Option Host × List Stream)

def createHostWrite (h : Host) (db : Db) : Check Db :=
  within "create host: " (do
    let (db, _) ← createHost lib db 0 h
    return db)

def createStreamWrite (st : Stream) (db : Db) : Check Db :=
  within "create stream: " (do
    let (db, _) ← createStream lib db env.reserved 0 st
    return db)

/-- The writes that adopt a container: its host, and its streams. -/
def adoptWrites (found : Option Host × List Stream) : List (Db → Check Db) :=
  found.1.toList.map (createHostWrite lib) ++ found.2.map (createStreamWrite lib env)

def Adopt.found (req : Adopt) : Except Answer (Option Host × List Stream) :=
  if req.enabled = false then .error (.error 400 "docker integration is not enabled")
  else
    match req.body with
    | .error (status, why) => .error (.error status why)
    | .ok (endpoint, name) =>
        match req.adoptable endpoint name with
        | none => .error (.error 404 ("no routable container named " ++ name))
        | some found => .ok found

def handleDockerAdopt (req : Adopt) (fails : Failures) (reload : Check Unit) (w : World) :
    Answer × World :=
  match req.found with
  | .error answer => (answer, w)
  | .ok found =>
      match attempt w.db (failing fails (adoptWrites lib env found)) with
      | (some why, db) => (.error 400 why, { w with db })
      | (none, db) =>
          match reload with
          | .error why => (.notApplied ("adopted, but applying it failed: " ++ why), { w with db })
          | .ok () => (.done, { w with db })

/-! ### Updating the settings -/

def settingWrite (entry : String × String) (settings : Settings) : Check Settings :=
  SettingsApi.setSetting cipher env settings entry

/-- `body` is what decoding the request's body gives, and `readBack` what comes of listing the
settings for the answer. -/
def handlePutSettings (body : Except (Nat × String) Settings) (range : Range String String)
    (fails : Failures)
    (reload readBack : Check Unit) (w : World) : Answer × World :=
  match body with
  | .error (status, why) => (.error status why, w)
  | .ok body =>
      match checkSettings lib cipher env w.settings body with
      | .error why => (.error 400 why, w)
      | .ok body =>
          match attempt w.settings
              (failing fails ((range.order body).map (settingWrite cipher env))) with
          | (some why, settings) => (.error 500 why, { w with settings })
          | (none, settings) =>
              match reload, readBack with
              | .error why, _ =>
                  (.notApplied ("change saved, but applying it failed: " ++ why),
                    { w with settings })
              | .ok (), .error why => (.error 500 why, { w with settings })
              | .ok (), .ok () => (.done, { w with settings })

/-! ### When an error changes nothing

The condition on an adoption is about the rows before the request, the request's own records
and the failures of the store. -/

/-- The store's checks of the first record of the request, on the rows before it. -/
def FirstRefused (db : Db) : Option Host × List Stream → Prop
  | (some h, _) => ∀ kept, checkHost lib db 0 h ≠ .ok kept
  | (none, st :: _) => ∀ kept, checkStream lib db env.reserved 0 st ≠ .ok kept
  | (none, []) => False

/-- Two streams of a request want one port. -/
def Collide (a b : Stream) : Prop :=
  ∃ a' b', a.checkFields lib env.reserved = .ok a' ∧ b.checkFields lib env.reserved = .ok b' ∧
    b'.clashes a' = true

/-- The records of the request pass the checks on the rows before it and leave one another room,
and no write fails. -/
structure AllGoIn (fails : Failures) (db : Db) (found : Option Host × List Stream) : Prop where
  written : ∀ k < found.1.toList.length + found.2.length, fails k = none
  host : ∀ h ∈ found.1, ∃ kept, checkHost lib db 0 h = .ok kept
  streams : ∀ st ∈ found.2, ∃ kept, checkStream lib db env.reserved 0 st = .ok kept
  apart : found.2.Pairwise fun a b => ¬ Collide lib env a b

/-- The first record is the one that fails, or none does. -/
def AdoptWhole (req : Adopt) (fails : Failures) (w : World) : Prop :=
  ∀ found, req.found = .ok found →
    (fails 0 ≠ none ∨ FirstRefused lib env w.db found) ∨ AllGoIn lib env fails w.db found

/-- The write of an entry goes through. It does not depend on the table. -/
def Goes (fails : Failures) (k : Nat) (entry : String × String) : Prop :=
  fails k = none ∧ ∃ v, stored cipher env entry.1 entry.2 = .ok v

def AllGo (fails : Failures) (entries : List (String × String)) : Prop :=
  ∀ k entry, entries[k]? = some entry → Goes cipher env fails k entry

def Stands (settings : Settings) (entry : String × String) : Prop :=
  ∃ v, stored cipher env entry.1 entry.2 = .ok v ∧ settings.lookup entry.1 = some v

/-- The entries that are written before a write fails stand in the table already. -/
def LoopWhole (fails : Failures) (settings : Settings) (entries : List (String × String)) : Prop :=
  ∀ before entry after, entries = before ++ entry :: after → AllGo cipher env fails before →
    ¬ Goes cipher env fails before.length entry → ∀ e ∈ before, Stands cipher env settings e

/-- The loop leaves no trace when it fails; and all entries stand in the table when it cannot be
listed for the answer. -/
def PutWhole (body : Except (Nat × String) Settings) (range : Range String String)
    (fails : Failures)
    (reload readBack : Check Unit) (w : World) : Prop :=
  ∀ raw checked, body = .ok raw → checkSettings lib cipher env w.settings raw = .ok checked →
    LoopWhole cipher env fails w.settings (range.order checked) ∧
    (AllGo cipher env fails (range.order checked) → reload = .ok () →
      (∃ why, readBack = .error why) →
      ∀ e ∈ range.order checked, Stands cipher env w.settings e)

variable {lib cipher env}

/-! ### Adopting

Every write adds a row, so what was stored can be counted. -/

theorem orFail_eq_ok {σ : Type} {trouble : Option String} {write : σ → Check σ} {s t : σ} :
    orFail trouble write s = .ok t ↔ trouble = none ∧ write s = .ok t := by
  rw [orFail, bind_eq_ok]
  cases trouble with
  | none => simp
  | some why => simp

def rowCount (db : Db) : Nat := db.hosts.rows.length + db.streams.rows.length

theorem rowCount_adoptWrite {found : Option Host × List Stream} {write : Db → Check Db}
    (hwrite : write ∈ adoptWrites lib env found) {db db' : Db} (h : write db = .ok db') :
    rowCount db' = rowCount db + 1 := by
  rcases List.mem_append.mp hwrite with hhost | hstream
  · obtain ⟨host, -, rfl⟩ := List.mem_map.mp hhost
    simp only [createHostWrite, within_eq_ok, bind_eq_ok, pure_eq_ok] at h
    obtain ⟨⟨db₁, kept⟩, hcreate, rfl⟩ := h
    obtain ⟨-, rfl⟩ := createHost_eq_ok.mp hcreate
    simp only [rowCount, Table.insert, List.length_append, List.length_singleton]
    omega
  · obtain ⟨st, -, rfl⟩ := List.mem_map.mp hstream
    simp only [createStreamWrite, within_eq_ok, bind_eq_ok, pure_eq_ok] at h
    obtain ⟨⟨db₁, kept⟩, hcreate, rfl⟩ := h
    obtain ⟨-, rfl⟩ := createStream_eq_ok.mp hcreate
    simp only [rowCount, Table.insert, List.length_append, List.length_singleton]
    omega

theorem mem_failing {σ : Type} {fails : Failures} {writes : List (σ → Check σ)} {w : σ → Check σ}
    (h : w ∈ failing fails writes) : ∃ write ∈ writes, ∃ trouble, w = orFail trouble write := by
  obtain ⟨k, hk, rfl⟩ := List.mem_mapIdx.mp h
  exact ⟨writes[k], List.getElem_mem hk, fails k, rfl⟩

/-- Every write that was stored is seen. -/
theorem rowCount_of_leaves {found : Option Host × List Stream} {fails : Failures}
    {before rest : List (Db → Check Db)} {db db' : Db}
    (hwrites : failing fails (adoptWrites lib env found) = before ++ rest)
    (hleaves : Leaves db before db') : rowCount db' = rowCount db + before.length := by
  apply hleaves.size_eq
  intro w hw a b hab
  have hmem : w ∈ failing fails (adoptWrites lib env found) := by
    rw [hwrites]
    exact List.mem_append_left rest hw
  obtain ⟨write, hwrite, trouble, rfl⟩ := mem_failing hmem
  exact rowCount_adoptWrite hwrite (orFail_eq_ok.mp hab).2

def SameDb (db db' : Db) : Prop :=
  db'.hosts.rows = db.hosts.rows ∧ db'.streams.rows = db.streams.rows

theorem sameDb_iff {found : Option Host × List Stream} {fails : Failures}
    {before rest : List (Db → Check Db)} {db db' : Db}
    (hwrites : failing fails (adoptWrites lib env found) = before ++ rest)
    (hleaves : Leaves db before db') : SameDb db db' ↔ before = [] := by
  constructor
  · rintro ⟨hhosts, hstreams⟩
    have hcount := rowCount_of_leaves hwrites hleaves
    simp only [rowCount, hhosts, hstreams] at hcount
    exact List.length_eq_zero_iff.mp (by omega)
  · rintro rfl
    cases hleaves
    exact ⟨rfl, rfl⟩

theorem failing_cons {σ : Type} (fails : Failures) (write : σ → Check σ)
    (writes : List (σ → Check σ)) :
    failing fails (write :: writes) = orFail (fails 0) write :: failing (fun k => fails (k + 1))
      writes :=
  List.mapIdx_cons

theorem createHostWrite_eq_ok {h : Host} {db db' : Db} : createHostWrite lib h db = .ok db' ↔
    ∃ kept, checkHost lib db 0 h = .ok kept ∧ db' = { db with hosts := db.hosts.insert kept } := by
  simp only [createHostWrite, within_eq_ok, bind_eq_ok, pure_eq_ok, Prod.exists, createHost_eq_ok]
  constructor
  · rintro ⟨_, kept, ⟨hcheck, rfl⟩, rfl⟩
    exact ⟨kept, hcheck, rfl⟩
  · rintro ⟨kept, hcheck, rfl⟩
    exact ⟨_, kept, ⟨hcheck, rfl⟩, rfl⟩

theorem createStreamWrite_eq_ok {st : Stream} {db db' : Db} :
    createStreamWrite lib env st db = .ok db' ↔
      ∃ kept, checkStream lib db env.reserved 0 st = .ok kept ∧
        db' = { db with streams := db.streams.insert kept } := by
  simp only [createStreamWrite, within_eq_ok, bind_eq_ok, pure_eq_ok, Prod.exists,
    createStream_eq_ok]
  constructor
  · rintro ⟨_, kept, ⟨hcheck, rfl⟩, rfl⟩
    exact ⟨kept, hcheck, rfl⟩
  · rintro ⟨kept, hcheck, rfl⟩
    exact ⟨_, kept, ⟨hcheck, rfl⟩, rfl⟩

/-- The checks of a stream do not look at the hosts. -/
theorem checkStream_hosts {st kept : Stream} (db : Db) (hosts : Table Host) :
    checkStream lib { db with hosts } env.reserved 0 st = .ok kept ↔
      checkStream lib db env.reserved 0 st = .ok kept := by
  rw [checkStream_eq_ok, checkStream_eq_ok, resolves_hosts]

/-- The checks of a stream after another one was stored. -/
theorem checkStream_insert {st first kept : Stream} {db : Db}
    (hfirst : checkStream lib db env.reserved 0 first = .ok kept) :
    (∃ v, checkStream lib { db with streams := db.streams.insert kept } env.reserved 0 st = .ok v) ↔
      (∃ v, checkStream lib db env.reserved 0 st = .ok v) ∧ ¬ Collide lib env first st := by
  have hkept := (checkStream_eq_ok.mp hfirst).1
  have hnew : db.streams.seq + 1 ≠ 0 := by
    have hseq := db.streams.seqNonneg
    omega
  have hrows : ∀ v : Stream,
    (∀ row ∈ (db.streams.insert kept).rows, row.1 ≠ 0 → v.clashes row.2 = false) ↔
      (∀ row ∈ db.streams.rows, row.1 ≠ 0 → v.clashes row.2 = false) ∧ v.clashes kept = false := by
    intro v
    simp only [Table.insert, List.forall_mem_append, List.forall_mem_singleton, hnew, ne_eq,
      not_false_eq_true, forall_const]
  simp only [checkStream_eq_ok, resolves_streams, hrows]
  constructor
  · rintro ⟨v, hfields, ⟨hothers, happart⟩, hrefs⟩
    refine ⟨⟨v, hfields, hothers, hrefs⟩, ?_⟩
    rintro ⟨first', v', hfirst', hfields', hclash⟩
    obtain rfl := Except.ok.inj (hfirst'.symm.trans hkept)
    obtain rfl := Except.ok.inj (hfields'.symm.trans hfields)
    rw [happart] at hclash
    cases hclash
  · rintro ⟨⟨v, hfields, hothers, hrefs⟩, hfree⟩
    refine ⟨v, hfields, ⟨hothers, ?_⟩, hrefs⟩
    cases hclash : v.clashes kept with
    | false => rfl
    | true => exact absurd ⟨kept, v, hkept, hfields, hclash⟩ hfree

theorem leaves_cons {σ : Type} {s : σ} {w : σ → Check σ} {ws : List (σ → Check σ)} :
    (∃ t, Leaves s (w :: ws) t) ↔ ∃ r, w s = .ok r ∧ ∃ t, Leaves r ws t := by
  constructor
  · rintro ⟨t, hleaves⟩
    cases hleaves with
    | cons hok hrest => exact ⟨_, hok, t, hrest⟩
  · rintro ⟨r, hok, t, hrest⟩
    exact ⟨t, .cons hok hrest⟩

theorem forall_lt_succ {n : Nat} {P : Nat → Prop} :
    (∀ k < n + 1, P k) ↔ P 0 ∧ ∀ k < n, P (k + 1) := by
  constructor
  · exact fun h => ⟨h 0 (Nat.succ_pos n), fun k hk => h (k + 1) (Nat.succ_lt_succ hk)⟩
  · rintro ⟨hzero, hsucc⟩ (_ | k) hk
    · exact hzero
    · exact hsucc k (Nat.lt_of_succ_lt_succ hk)

/-! ### All records go in

The checks of a stream look at the streams that are there, so the streams of a request have to
leave one another room. -/

/-- The streams of a request go in one after another. -/
theorem leaves_streams {streams : List Stream} {fails : Failures} {db : Db} :
    (∃ t, Leaves db (failing fails (streams.map (createStreamWrite lib env))) t) ↔
      (∀ k < streams.length, fails k = none) ∧
        (∀ st ∈ streams, ∃ kept, checkStream lib db env.reserved 0 st = .ok kept) ∧
          streams.Pairwise fun a b => ¬ Collide lib env a b := by
  induction streams generalizing fails db with
  | nil => exact iff_of_true ⟨db, .nil db⟩ ⟨by simp, by simp, .nil⟩
  | cons st streams ih =>
      rw [List.map_cons, failing_cons, leaves_cons, List.length_cons, forall_lt_succ,
        List.forall_mem_cons, List.pairwise_cons]
      simp only [orFail_eq_ok, createStreamWrite_eq_ok]
      constructor
      · rintro ⟨_, ⟨hnone, kept, hcheck, rfl⟩, hrest⟩
        obtain ⟨hwritten, hchecks, happart⟩ := ih.mp hrest
        have hboth := fun other hother => (checkStream_insert hcheck).mp (hchecks other hother)
        exact ⟨⟨hnone, hwritten⟩, ⟨⟨kept, hcheck⟩, fun other hother => (hboth other hother).1⟩,
          fun other hother => (hboth other hother).2, happart⟩
      · rintro ⟨⟨hnone, hwritten⟩, ⟨⟨kept, hcheck⟩, hchecks⟩, hfree, happart⟩
        refine ⟨_, ⟨hnone, kept, hcheck, rfl⟩, ih.mpr ⟨hwritten, fun other hother => ?_, happart⟩⟩
        exact (checkStream_insert hcheck).mpr ⟨hchecks other hother, hfree other hother⟩

/-- All records of a request go in. -/
theorem leaves_adoptWrites {found : Option Host × List Stream} {fails : Failures} {db : Db} :
    (∃ t, Leaves db (failing fails (adoptWrites lib env found)) t) ↔
    AllGoIn lib env fails db found := by
  obtain ⟨host, streams⟩ := found
  cases host with
  | none =>
      refine leaves_streams.trans ⟨?_, ?_⟩
      · rintro ⟨hwritten, hchecks, happart⟩
        exact ⟨by simpa using hwritten, fun _ hnone => (nomatch hnone), hchecks, happart⟩
      · intro hall
        exact ⟨by simpa using hall.written, hall.streams, hall.apart⟩
  | some h =>
      have hwrites : adoptWrites lib env (some h, streams) =
          createHostWrite lib h :: streams.map (createStreamWrite lib env) := rfl
      rw [hwrites, failing_cons, leaves_cons]
      simp only [orFail_eq_ok, createHostWrite_eq_ok]
      have hlength : ∀ {P : Nat → Prop},
          (∀ k < (some h).toList.length + streams.length, P k) ↔
            P 0 ∧ ∀ k < streams.length, P (k + 1) := by
        intro P
        rw [← forall_lt_succ, Nat.add_comm]
        rfl
      constructor
      · rintro ⟨_, ⟨hnone, kept, hcheck, rfl⟩, hrest⟩
        obtain ⟨hwritten, hchecks, happart⟩ := leaves_streams.mp hrest
        simp only [checkStream_hosts] at hchecks
        refine ⟨hlength.mpr ⟨hnone, hwritten⟩, ?_, hchecks, happart⟩
        rintro h' ⟨⟩
        exact ⟨kept, hcheck⟩
      · intro hall
        obtain ⟨hnone, hwritten⟩ := hlength.mp hall.written
        obtain ⟨kept, hcheck⟩ := hall.host h rfl
        refine ⟨_, ⟨hnone, kept, hcheck, rfl⟩, leaves_streams.mpr ⟨hwritten, ?_, hall.apart⟩⟩
        simp only [checkStream_hosts]
        exact hall.streams

theorem orFail_error {σ : Type} {trouble : Option String} {write : σ → Check σ} {s : σ} :
    (∃ why, orFail trouble write s = .error why) ↔ trouble ≠ none ∨ ∀ t, write s ≠ .ok t := by
  unfold orFail
  cases hwrite : write s with
  | error why => exact iff_of_true ⟨why, rfl⟩ (Or.inr fun _ h => nomatch h)
  | ok t =>
      cases trouble with
      | none =>
          refine iff_of_false (fun ⟨_, h⟩ => nomatch h) ?_
          rintro (h | h)
          · exact h rfl
          · exact h t rfl
      | some why => exact iff_of_true ⟨why, rfl⟩ (Or.inl fun h => nomatch h)

/-! ### The first record is refused

Whatever fails later has a record stored before it, so only the first failure leaves nothing
behind. -/

/-- The first write of a request fails. -/
theorem first_adoptWrite {found : Option Host × List Stream} {fails : Failures} {db : Db}
    (hsome : adoptWrites lib env found ≠ []) :
    (∃ w rest why, failing fails (adoptWrites lib env found) = w :: rest ∧ w db = .error why) ↔
      fails 0 ≠ none ∨ FirstRefused lib env db found := by
  have hcons : ∀ write writes, (∃ w rest why, failing fails (write :: writes) = w :: rest ∧
      w db = .error why) ↔ ∃ why, orFail (fails 0) write db = .error why := by
    intro write writes
    rw [failing_cons]
    constructor
    · rintro ⟨w, rest, why, hw, herror⟩
      rw [← (List.cons.inj hw).1] at herror
      exact ⟨why, herror⟩
    · rintro ⟨why, herror⟩
      exact ⟨_, _, why, rfl, herror⟩
  obtain ⟨_ | h, streams⟩ := found
  · cases streams with
    | nil => exact absurd rfl hsome
    | cons st streams =>
        refine (hcons (createStreamWrite lib env st) _).trans (orFail_error.trans ?_)
        refine or_congr_right ⟨fun hnot kept hcheck => ?_, fun hnot t ht => ?_⟩
        · exact hnot _ (createStreamWrite_eq_ok.mpr ⟨kept, hcheck, rfl⟩)
        · obtain ⟨kept, hcheck, -⟩ := createStreamWrite_eq_ok.mp ht
          exact hnot kept hcheck
  · refine (hcons (createHostWrite lib h) _).trans (orFail_error.trans ?_)
    refine or_congr_right ⟨fun hnot kept hcheck => ?_, fun hnot t ht => ?_⟩
    · exact hnot _ (createHostWrite_eq_ok.mpr ⟨kept, hcheck, rfl⟩)
    · obtain ⟨kept, hcheck, -⟩ := createHostWrite_eq_ok.mp ht
      exact hnot kept hcheck

/-- Nothing of a request is stored before a write of it fails. -/
theorem first_or_none_adopt {found : Option Host × List Stream} {fails : Failures} {db : Db} :
    (∀ before write after db' why, failing fails (adoptWrites lib env found) = before ++
      write :: after →
      Leaves db before db' → write db' = .error why → before = []) ↔
      (fails 0 ≠ none ∨ FirstRefused lib env db found) ∨ AllGoIn lib env fails db found := by
  rw [first_or_none_iff, leaves_adoptWrites]
  by_cases hsome : adoptWrites lib env found = []
  · have hall : AllGoIn lib env fails db found := by
      apply leaves_adoptWrites.mp
      rw [hsome]
      exact ⟨db, .nil db⟩
    exact iff_of_true (Or.inr hall) (Or.inr hall)
  · rw [first_adoptWrite hsome]

theorem adopt_unchanged_iff (req : Adopt) (fails : Failures) (reload : Check Unit) (w : World) :
    ((handleDockerAdopt lib env req fails reload w).1.Refuses →
        Same w (handleDockerAdopt lib env req fails reload w).2) ↔
      AdoptWhole lib env req fails w := by
  unfold AdoptWhole handleDockerAdopt
  cases hfound : req.found with
  | error answer => simp [Same.refl]
  | ok found =>
      have hsame := @unchanged_iff Db String w.db (failing fails (adoptWrites lib env found)) SameDb
      have hempty : ((fails 0 ≠ none ∨ FirstRefused lib env w.db found) ∨
          AllGoIn lib env fails w.db found) ↔
          ∀ why, (attempt w.db (failing fails (adoptWrites lib env found))).1 = some why →
            SameDb w.db (attempt w.db (failing fails (adoptWrites lib env found))).2 := by
        rw [hsame, ← first_or_none_adopt]
        constructor
        · intro h before write after db why hwrites hleaves hfail
          exact (sameDb_iff hwrites hleaves).mpr (h before write after db why hwrites hleaves hfail)
        · intro h before write after db why hwrites hleaves hfail
          exact (sameDb_iff hwrites hleaves).mp (h before write after db why hwrites hleaves hfail)
      simp only [Except.ok.injEq, forall_eq', hempty]
      rcases hattempt : attempt w.db (failing fails (adoptWrites lib env found)) with ⟨err, db⟩
      cases err with
      | none =>
          have hdone : ∀ why, (none : Option String) = some why → SameDb w.db db :=
            fun why h => absurd h.symm (Option.some_ne_none why)
          cases reload with
          | error why =>
              exact iff_of_true (fun ⟨status, why, hrefused⟩ => Answer.noConfusion hrefused) hdone
          | ok u =>
              exact iff_of_true (fun ⟨status, why, hrefused⟩ => Answer.noConfusion hrefused) hdone
      | some why =>
          constructor
          · intro h why' hwhy
            have hkept := h ⟨400, why, rfl⟩
            exact ⟨hkept.hosts, hkept.streams⟩
          · intro h hrefused
            obtain ⟨hhosts, hstreams⟩ := h why rfl
            exact ⟨hhosts, hstreams, fun _ => rfl⟩

/-! ### Updating the settings -/

theorem settingWrite_eq_ok {trouble : Option String} {entry : String × String} {s t : Settings} :
    orFail trouble (settingWrite cipher env entry) s = .ok t ↔
      trouble = none ∧ ∃ v, stored cipher env entry.1 entry.2 = .ok v ∧ t = s.insert entry.1 v := by
  rw [orFail_eq_ok]
  simp only [settingWrite, SettingsApi.setSetting, bind_eq_ok, pure_eq_ok]
  refine and_congr_right fun _ => exists_congr fun v => and_congr_right fun _ => eq_comm

theorem allGo_cons {fails : Failures} {entry : String × String} {entries : List (String × String)} :
    AllGo cipher env fails (entry :: entries) ↔
      Goes cipher env fails 0 entry ∧ AllGo cipher env (fun k => fails (k + 1)) entries := by
  constructor
  · intro h
    exact ⟨h 0 entry rfl, fun k e hk => h (k + 1) e hk⟩
  · rintro ⟨hfirst, hrest⟩ k e hk
    cases k with
    | zero =>
        obtain rfl : entry = e := Option.some.inj hk
        exact hfirst
    | succ k => exact hrest k e hk

/-- The writes of settings go through or not by themselves, and together they are the loop of
`SetSetting`. -/
theorem leaves_settings_iff {fails : Failures} {entries : List (String × String)} {s t : Settings} :
    Leaves s (failing fails (entries.map (settingWrite cipher env))) t ↔
      AllGo cipher env fails entries ∧
        entries.foldlM (SettingsApi.setSetting cipher env) s = .ok t := by
  induction entries generalizing fails s with
  | nil =>
      constructor
      · intro h
        cases h
        exact ⟨fun k e hk => absurd hk (by simp), rfl⟩
      · rintro ⟨-, h⟩
        obtain rfl : s = t := by simpa [pure, Except.pure] using h
        exact .nil s
  | cons entry entries ih =>
      rw [List.map_cons, failing_cons, allGo_cons, List.foldlM_cons, bind_eq_ok]
      constructor
      · intro h
        cases h with
        | @cons _ r _ _ _ hwrite hrest =>
            obtain ⟨hgo, hloop⟩ := ih.mp hrest
            obtain ⟨hfails, v, hv, rfl⟩ := settingWrite_eq_ok.mp hwrite
            refine ⟨⟨⟨hfails, v, hv⟩, hgo⟩, s.insert entry.1 v, ?_, hloop⟩
            simp only [SettingsApi.setSetting, bind_eq_ok, pure_eq_ok]
            exact ⟨v, hv, rfl⟩
      · rintro ⟨⟨⟨hfails, -⟩, hgo⟩, r, hset, hloop⟩
        simp only [SettingsApi.setSetting, bind_eq_ok, pure_eq_ok] at hset
        obtain ⟨v, hv, rfl⟩ := hset
        exact .cons (settingWrite_eq_ok.mpr ⟨hfails, v, hv, rfl⟩) (ih.mpr ⟨hgo, hloop⟩)

/-- Entries that go through are written. -/
theorem exists_leaves_settings {fails : Failures} {entries : List (String × String)} (s : Settings)
    (hgo : AllGo cipher env fails entries) :
    ∃ t, Leaves s (failing fails (entries.map (settingWrite cipher env))) t := by
  have hstored : ∀ e ∈ entries, ∃ v, stored cipher env e.1 e.2 = .ok v := by
    intro e he
    obtain ⟨k, hk⟩ := List.mem_iff_getElem?.mp he
    exact (hgo k e hk).2
  obtain ⟨t, ht⟩ := @SettingsApi.exists_setSettings cipher env s entries hstored
  exact ⟨t, leaves_settings_iff.mpr ⟨hgo, ht⟩⟩

/-- The table is the same exactly when every entry stood in it. -/
theorem same_settings_iff {entries : List (String × String)} (hnodup : (entries.map Prod.fst).Nodup)
    {s t : Settings} (h : entries.foldlM (SettingsApi.setSetting cipher env) s = .ok t) :
    (∀ key, t.lookup key = s.lookup key) ↔ ∀ e ∈ entries, Stands cipher env s e := by
  have hrows := SettingsApi.lookup_setSettings hnodup h
  constructor
  · rintro hsame ⟨key, v⟩ hmem
    obtain ⟨stored, hstored, hlookup⟩ := (hrows key).1 v hmem
    exact ⟨stored, hstored, (hsame key).symm.trans hlookup⟩
  · intro hstands key
    by_cases hkey : key ∈ entries.map Prod.fst
    · obtain ⟨⟨key, v⟩, hmem, rfl⟩ := List.mem_map.mp hkey
      obtain ⟨w, hstored, hlookup⟩ := (hrows key).1 v hmem
      obtain ⟨w', hstored', hlookup'⟩ := hstands _ hmem
      rw [hlookup, hlookup', Except.ok.inj (hstored.symm.trans hstored')]
    · exact (hrows key).2 hkey

/-- An entry that does not go through is a write that fails, whatever the table is. -/
theorem not_goes_iff {fails : Failures} {k : Nat} {entry : String × String} {s : Settings} :
    ¬ Goes cipher env fails k entry ↔
      ∃ why, orFail (fails k) (settingWrite cipher env entry) s = .error why := by
  cases hwrite : orFail (fails k) (settingWrite cipher env entry) s with
  | error why =>
      refine iff_of_true ?_ ⟨why, rfl⟩
      rintro ⟨hfails, v, hv⟩
      have hok :=
        settingWrite_eq_ok.mpr ⟨hfails, v, hv, (rfl : s.insert entry.1 v = s.insert entry.1 v)⟩
      rw [hwrite] at hok
      cases hok
  | ok t =>
      obtain ⟨hfails, v, hv, -⟩ := settingWrite_eq_ok.mp hwrite
      refine iff_of_false (not_not_intro ⟨hfails, v, hv⟩) ?_
      rintro ⟨why, h⟩
      cases h

/-- The writes around one that fails are those of the entries around its entry. -/
theorem failing_eq_append_iff {fails : Failures} {entries : List (String × String)}
    {before after : List (Settings → Check Settings)} {write : Settings → Check Settings} :
    failing fails (entries.map (settingWrite cipher env)) = before ++ write :: after ↔
      ∃ first entry rest, entries = first ++ entry :: rest ∧
        before = failing fails (first.map (settingWrite cipher env)) ∧
        write = orFail (fails first.length) (settingWrite cipher env entry) ∧
        after = failing (fun k => fails (k + (first.length + 1)))
          (rest.map (settingWrite cipher env)) := by
  constructor
  · intro h
    obtain ⟨writes, writes', hentries, rfl, hrest⟩ := List.mapIdx_eq_append_iff.mp h
    obtain ⟨w, ws, rfl, rfl, rfl⟩ := List.mapIdx_eq_cons_iff.mp hrest
    obtain ⟨first, others, rfl, rfl, hothers⟩ := List.map_eq_append_iff.mp hentries
    obtain ⟨entry, rest, rfl, rfl, rfl⟩ := List.map_eq_cons_iff.mp hothers
    refine ⟨first, entry, rest, rfl, rfl, ?_, ?_⟩
    · simp only [List.length_map, Nat.zero_add]
    · simp only [failing, List.length_map, Nat.add_assoc, Nat.add_comm 1]
  · rintro ⟨first, entry, rest, rfl, rfl, rfl, rfl⟩
    simp only [failing, List.map_append, List.map_cons, List.mapIdx_append, List.mapIdx_cons,
      List.length_map, Nat.zero_add, Nat.add_assoc, Nat.add_comm 1]

/-- The loop of writes, when it ends with an error. -/
theorem put_attempt_iff {fails : Failures} {entries : List (String × String)}
    (hnodup : (entries.map Prod.fst).Nodup) (s : Settings) :
    (∀ why, (attempt s (failing fails (entries.map (settingWrite cipher env)))).1 = some why →
        ∀ key, (attempt s (failing fails (entries.map (settingWrite cipher env)))).2.lookup key =
          s.lookup key) ↔
      LoopWhole cipher env fails s entries := by
  rw [unchanged_iff fun s t : Settings => ∀ key, t.lookup key = s.lookup key]
  have hfirst : ∀ {before entry after}, entries = before ++ entry :: after →
      (before.map Prod.fst).Nodup := by
    rintro before entry after rfl
    rw [List.map_append] at hnodup
    exact (List.nodup_append.mp hnodup).1
  constructor
  · intro h before entry after hentries hgo hfail
    obtain ⟨t, hleaves⟩ := exists_leaves_settings s hgo
    obtain ⟨why, hwhy⟩ := (not_goes_iff (s := t)).mp hfail
    have hsame := h _ _ _ t why (failing_eq_append_iff.mpr
      ⟨before, entry, after, hentries, rfl, rfl, rfl⟩) hleaves hwhy
    exact (same_settings_iff (hfirst hentries) (leaves_settings_iff.mp hleaves).2).mp hsame
  · intro h writes write writes' t why hwrites hleaves hwhy
    obtain ⟨before, entry, after, hentries, rfl, rfl, rfl⟩ := failing_eq_append_iff.mp hwrites
    obtain ⟨hgo, hloop⟩ := leaves_settings_iff.mp hleaves
    exact (same_settings_iff (hfirst hentries) hloop).mpr
      (h before entry after hentries hgo (not_goes_iff.mpr ⟨why, hwhy⟩))

theorem put_unchanged_iff (body : Except (Nat × String) Settings) (range : Range String String)
    (fails : Failures)
    (reload readBack : Check Unit) (w : World) :
    ((handlePutSettings lib cipher env body range fails reload readBack w).1.Refuses →
        Same w (handlePutSettings lib cipher env body range fails reload readBack w).2) ↔
      PutWhole lib cipher env body range fails reload readBack w := by
  have hnotApplied : ∀ why, ¬ (Answer.notApplied why).Refuses :=
    fun why ⟨_, _, h⟩ => Answer.noConfusion h
  have hdone : ¬ Answer.done.Refuses := fun ⟨_, _, h⟩ => Answer.noConfusion h
  unfold handlePutSettings
  cases body with
  | error refused =>
      refine iff_of_true (fun _ => Same.refl w) ?_
      intro raw checked hraw
      cases hraw
  | ok raw =>
      simp only
      cases hchecked : checkSettings lib cipher env w.settings raw with
      | error why =>
          refine iff_of_true (fun _ => Same.refl w) ?_
          intro raw' checked hraw hok
          rw [← Except.ok.inj hraw, hchecked] at hok
          cases hok
      | ok checked =>
          have hwhole : PutWhole lib cipher env (.ok raw) range fails reload readBack w ↔
              LoopWhole cipher env fails w.settings (range.order checked) ∧
              (AllGo cipher env fails (range.order checked) → reload = .ok () →
                (∃ why, readBack = .error why) →
                  ∀ e ∈ range.order checked, Stands cipher env w.settings e) := by
            constructor
            · intro h
              exact h raw checked rfl hchecked
            · rintro h raw' checked' hraw hok
              rw [← Except.ok.inj hraw, hchecked] at hok
              rwa [← Except.ok.inj hok]
          have hloop := @put_attempt_iff cipher env fails (range.order checked)
            (range.nodup checked) w.settings
          rw [hwhole, ← hloop]
          clear hwhole hloop
          simp only
          rcases hattempt : attempt w.settings
            (failing fails ((range.order checked).map (settingWrite cipher env)))
              with ⟨err, settings⟩
          cases err with
          | some why =>
              constructor
              · intro h
                have hkept := (h ⟨500, why, rfl⟩).settings
                refine ⟨fun _ _ => hkept, fun hgo => ?_⟩
                obtain ⟨t, hleaves⟩ := exists_leaves_settings w.settings hgo
                rw [attempt_eq_none.mpr hleaves] at hattempt
                cases hattempt
              · rintro ⟨h, -⟩ -
                exact ⟨rfl, rfl, h why rfl⟩
          | none =>
              obtain ⟨hgo, hwritten⟩ := leaves_settings_iff.mp (attempt_eq_none.mp hattempt)
              have hsame := same_settings_iff (range.nodup checked) hwritten
              have hnone : ∀ why, (none : Option String) = some why →
                  ∀ key, settings.lookup key = w.settings.lookup key :=
                fun why h => absurd h.symm (Option.some_ne_none why)
              cases reload with
              | error why =>
                  refine iff_of_true (fun h => absurd h (hnotApplied _)) ⟨hnone, fun _ h => ?_⟩
                  cases h
              | ok u =>
                  cases readBack with
                  | ok u =>
                      refine iff_of_true (fun h => absurd h hdone) ⟨hnone, fun _ _ h => ?_⟩
                      obtain ⟨why, h⟩ := h
                      cases h
                  | error why =>
                      constructor
                      · intro h
                        refine ⟨hnone, fun _ _ _ => hsame.mp ?_⟩
                        exact (h ⟨500, why, rfl⟩).settings
                      · rintro ⟨-, h⟩ -
                        exact ⟨rfl, rfl, hsame.mpr (h hgo rfl ⟨why, rfl⟩)⟩

/-! ### Both handlers

The two conditions, handler by handler. -/

/-- Exactly when a request that is refused leaves the hosts, the streams and the settings as they
were, for both handlers. -/
theorem refused_changes_nothing_iff (lib : Lib) (cipher : Cipher) (env : Env) (fails : Failures)
    (w : World) :
    (∀ (req : Adopt) (reload : Check Unit),
      ((handleDockerAdopt lib env req fails reload w).1.Refuses →
        Same w (handleDockerAdopt lib env req fails reload w).2) ↔ AdoptWhole lib env req fails w) ∧
    (∀ (body : Except (Nat × String) Settings) (range : Range String String)
      (reload readBack : Check Unit),
      ((handlePutSettings lib cipher env body range fails reload readBack w).1.Refuses →
        Same w (handlePutSettings lib cipher env body range fails reload readBack w).2) ↔
      PutWhole lib cipher env body range fails reload readBack w) :=
  ⟨fun req reload => adopt_unchanged_iff req fails reload w,
    fun body range reload readBack => put_unchanged_iff body range fails reload readBack w⟩

section Examples

open Quicgate.Store (asciiLib openCipher)
open Quicgate.Seal (Box)
open Quicgate.SettingsApi (openEnv)

def appHost : Host :=
  { Host.zero with
    type := "proxy", domains := ["app.example"], upstream := ⟨"http", "172.17.0.2", 80, 0⟩,
    certMode := "auto", enabled := true }

def appStream : Stream :=
  { Stream.zero with
    listenPort := 8080, protocol := "tcp", forwardHost := "172.17.0.2", forwardPort := 80,
    enabled := true }

def adoptApp : Adopt :=
  ⟨true, .ok ("local", "app"), fun _ _ => some (some appHost, [appStream])⟩

/-- The port of the container's stream went to a stream that was made since the last
aggregation. -/
def takenWorld : World :=
  ⟨{ Db.empty with
      streams := Db.empty.streams.insert { appStream with forwardHost := "10.0.0.9" } }, ∅⟩

def lockedEnv : Env := { openEnv with box := Box.locked, lockReason := "no key" }

def mailAndSecret : Settings :=
  GoMap.insertAll ∅ [("acme_dns_config", "credentials"), ("acme_email", "ops@example.org")]

/-- The host stays when the stream is refused, and the first setting when the second is. -/
theorem refused_leaves_writes :
    (¬ ∀ (req : Adopt) (fails : Failures) (reload : Check Unit) (w : World),
      (handleDockerAdopt asciiLib openEnv req fails reload w).1.Refuses →
        Same w (handleDockerAdopt asciiLib openEnv req fails reload w).2) ∧
    (¬ ∀ (body : Except (Nat × String) Settings) (range : Range String String) (fails : Failures)
        (reload readBack : Check Unit) (w : World),
      (handlePutSettings asciiLib openCipher lockedEnv body range fails reload readBack
        w).1.Refuses →
        Same w (handlePutSettings asciiLib openCipher lockedEnv body range fails reload readBack
          w).2) := by
  constructor
  · intro h
    have hanswer : (handleDockerAdopt asciiLib openEnv adoptApp (fun _ => none) (.ok ())
        takenWorld).1.status = some 400 := by
      decide +kernel
    have hrows : (handleDockerAdopt asciiLib openEnv adoptApp (fun _ => none) (.ok ())
        takenWorld).2.db.hosts.rows.length = 1 := by
      decide +kernel
    have hsame := h adoptApp (fun _ => none) (.ok ()) takenWorld (Answer.refuses_of_status hanswer)
    rw [hsame.hosts] at hrows
    cases hrows
  · intro h
    have hanswer : (handlePutSettings asciiLib openCipher lockedEnv (.ok mailAndSecret) (.listed ..)
        (fun _ => none) (.ok ()) (.ok ()) ⟨.empty, ∅⟩).1.status = some 500 := by
      decide +kernel
    have hrow : ((handlePutSettings asciiLib openCipher lockedEnv (.ok mailAndSecret) (.listed ..)
        (fun _ => none) (.ok ()) (.ok ()) ⟨.empty, ∅⟩).2.settings.lookup "acme_email").isSome =
          true := by
      decide +kernel
    have hsame := h (.ok mailAndSecret) (.listed ..) (fun _ => none) (.ok ()) (.ok ()) ⟨.empty, ∅⟩
      (Answer.refuses_of_status hanswer)
    rw [hsame.settings] at hrow
    simp at hrow

end Examples

end Quicgate.RefusedWrites
