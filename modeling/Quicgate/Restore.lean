import Quicgate.SealedStore

/-!
# Restoring a backup

The part of `handleRestore` that comes after the archive is unpacked
(`internal/admin/backup.go`), with `swapDir` and `RestoreFrom`
(`internal/store/store.go`).  Two things are replaced: the tree of certificates, by
renaming directories, and the tables, in a transaction.  Every file operation and every
statement may fail; what each of them comes to is part of the input.  What is proved is
when the answer is true.

`restore_answers_truly` is exact for every pattern of failures: the answer is true unless the
previous certificates were moved away and nothing could be moved in their place
(`stranded_certificates`).
-/

namespace Quicgate.Restore

open Quicgate.GoStrings Quicgate.Checks Quicgate.Seal Quicgate.Store

/-! ### Tables

A snapshot has the schema of the version that made it.  What is carried over are the columns
that both schemas have; the others get their defaults. -/

abbrev Row := List (String × Cell)

/-- A table of a schema: its name, and its columns with their defaults. -/
structure TableDef where
  name : String
  columns : List (String × Cell)
deriving DecidableEq, Repr

structure Schema where
  tables : List TableDef
  named : (tables.map TableDef.name).Nodup

/-- The rows of every table. The secret columns are held apart, row by row. -/
structure Database where
  rows : String → List Row
  secrets : Secrets

/-- A snapshot database: its own schema and rows. -/
structure Snapshot where
  tables : List TableDef
  rows : String → List Row
  secrets : List (SecretId × String)

def Snapshot.table (snap : Snapshot) (name : String) : Option TableDef :=
  snap.tables.find? fun t => t.name == name

def sharedColumns (t old : TableDef) : List String :=
  (t.columns.map Prod.fst).filter fun c => (old.columns.map Prod.fst).contains c

/-- The row that `INSERT INTO … SELECT …` makes of a row of the snapshot. -/
def carried (t old : TableDef) (row : Row) : Row :=
  t.columns.map fun c =>
    (c.1, if (sharedColumns t old).contains c.1 then (row.lookup c.1).getD c.2 else c.2)

/-- The secret of a row that is carried over. -/
def carriedSecret (t old : TableDef) (row : SecretId × String) : SecretId × String :=
  (row.1, if (sharedColumns t old).contains row.1.column.column then row.2 else "")

/-- The secrets of a table. -/
def secretsOf (rows : List (SecretId × String)) (name : String) : List (SecretId × String) :=
  rows.filter fun row => row.1.column.table == name

theorem keysUnique_filter {rows : List (SecretId × String)} (h : KeysUnique rows)
    (p : SecretId × String → Bool) : KeysUnique (rows.filter p) :=
  List.Nodup.sublist (List.Sublist.map _ List.filter_sublist) h

def Database.deleteFrom (db : Database) (name : String) : Database where
  rows := Function.update db.rows name []
  secrets :=
    { rows := db.secrets.rows.filter fun row => row.1.column.table != name
      keysUnique := keysUnique_filter db.secrets.keysUnique _ }

/-- `INSERT INTO`, when the table is empty. -/
def Database.insertInto (db : Database) (name : String) (rows : List Row)
    (secrets : List (SecretId × String)) : Check Database :=
  if h : KeysUnique (db.secrets.rows ++ secrets) then
    .ok ⟨Function.update db.rows name rows, ⟨db.secrets.rows ++ secrets, h⟩⟩
  else .error "UNIQUE constraint failed"

/-- What SQLite answers to the statements of `RestoreFrom`. -/
structure DbAnswers where
  attach : Check Unit
  quickCheck : Check String
  mainTables : Check Unit
  backupTables : Check Unit
  columnSet : String → Check Unit
  begin_ : Check Unit
  delete : String → Check Unit
  shared : String → Check Unit
  insert : String → Check Unit
  admins : Check Unit
  accessLists : Check Unit
  dangling : Check (List String)
  commit : Check Unit

/-- The tables and columns that every version has. -/
def required : List (String × List String) :=
  [("hosts", ["id", "type", "domains", "upstream"]), ("users", ["id", "email", "hash"])]

/-- The check that the snapshot is a quicgate backup, for one table. -/
def checkRequired (answers : DbAnswers) (snap : Snapshot) (entry : String × List String) :
    Check Unit :=
  match snap.table entry.1 with
  | none => .error ("this is not a quicgate backup: it has no " ++ entry.1 ++ " table")
  | some old => do
      answers.columnSet entry.1
      forEach (fun c => refuseIf (¬ (old.columns.map Prod.fst).contains c)
        ("this is not a quicgate backup: its " ++ entry.1 ++ " table has no " ++ c ++ " column"))
        entry.2

/-- One table of the transaction. -/
def restoreTable (answers : DbAnswers) (snap : Snapshot) (db : Database) (t : TableDef) :
    Check Database := do
  answers.delete t.name
  let db := db.deleteFrom t.name
  match snap.table t.name with
  | none => return db
  | some old => do
      answers.shared t.name
      if sharedColumns t old = [] then return db
      else within ("restore " ++ t.name ++ " (schema mismatch between backup and this version?): ") do
        answers.insert t.name
        db.insertInto t.name ((snap.rows t.name).map (carried t old))
          ((secretsOf snap.secrets t.name).map (carriedSecret t old))

/-- The accounts that can sign in. -/
def admins (db : Database) : Nat :=
  (db.rows "users").countP fun row =>
    row.lookup "email" != some (.text "") && row.lookup "hash" != some (.text "")

def restoreTx (schema : Schema) (answers : DbAnswers) (snap : Snapshot) (db : Database) :
    Check (Database × List String) := do
  answers.begin_
  let db ← schema.tables.foldlM (restoreTable answers snap) db
  answers.admins
  refuseIf (admins db = 0) "the backup has no admin account that can sign in"
  within "the backup's access lists cannot be read: " answers.accessLists
  let warnings ← answers.dangling
  answers.commit
  return (db, warnings)

def restoreCommit (schema : Schema) (answers : DbAnswers) (snap : Snapshot) (db : Database) :
    Check (Database × List String) := do
  within "open snapshot: " answers.attach
  match answers.quickCheck with
  | .error why => .error ("snapshot database failed its integrity check: " ++ why ++ " ")
  | .ok check => do
      refuseIf (check ≠ "ok") ("snapshot database failed its integrity check: <nil> " ++ check)
      answers.mainTables
      answers.backupTables
      forEach (checkRequired answers snap) required
      restoreTx schema answers snap db

/-- What the sealing after a restore meets. -/
structure SealRun where
  nonce : SecretId → Check Nonce
  answers : Answers
  keyIDs : Check (List String)

def sealAfterRestore (cipher : Cipher) (box : Box) (run : SealRun) (db : Database) :
    Database × List String :=
  let sealing := sealExisting cipher box run.nonce run.answers db.secrets
  let (secrets, warnings) : Secrets × List String :=
    if box.usable = true then
      match sealing with
      | .ok pass => (pass.db, pass.warnings.map fun w =>
          "the backup holds a secret that does not open and is kept as it is: " ++ w)
      | .error why => (db.secrets, ["sealing the restored secrets failed: " ++ why])
    else (db.secrets, [])
  let missing := match run.keyIDs with
    | .error why => ["cannot inspect the restored secrets: " ++ why]
    | .ok ids => (ids.filter fun id => (box.keys.lookup id).isNone).map fun id =>
        "the backup holds secrets sealed with key " ++ id ++
          ", which this instance does not have: " ++
        "they cannot be used until that key is added to the key file (client secrets, DNS " ++
        "credentials, certificate keys, two-factor secrets)"
  ({ db with secrets }, warnings ++ missing)

/-- `RestoreFrom`: the warnings or an error, and the database, which a failed transaction leaves. -/
def restoreFrom (cipher : Cipher) (box : Box) (schema : Schema) (answers : DbAnswers)
    (run : SealRun)
    (snap : Snapshot) (db : Database) : Check (List String) × Database :=
  match restoreCommit schema answers snap db with
  | .error why => (.error why, db)
  | .ok (restored, warnings) =>
      let final := sealAfterRestore cipher box run restored
      (.ok (warnings ++ final.2), final.1)

/-! ### Directories

`rename` and `removeAll` are `os.Rename` and `os.RemoveAll`, either of which may fail for a
reason of its own.  `swapDir` moves the previous tree out of the way and the new one in. -/

/-- What stands at a path. -/
inductive Entry where
  | file (bytes : List UInt8)
  | dir (files : List (String × List UInt8))
deriving DecidableEq, Repr

abbrev Files := String → Option Entry

def Entry.isDir : Entry → Bool
  | .dir _ => true
  | .file _ => false

/-- `os.Rename`. Nothing is renamed onto a directory, and no directory onto a file. -/
def rename (fs : Files) (oldPath newPath : String) (trouble : Option String) : Check Files :=
  match trouble with
  | some why => .error why
  | none =>
      match fs oldPath, fs newPath with
      | _, some (.dir _) => .error "file exists"
      | none, _ => .error "no such file or directory"
      | some (.dir _), some (.file _) => .error "not a directory"
      | some entry, _ =>
          .ok (Function.update (Function.update fs oldPath none) newPath (some entry))

/-- `os.RemoveAll`; one that fails may have removed a part. -/
def removeAll (fs : Files) (path : String) (trouble : Option (String × Option Entry)) :
    Check Unit × Files :=
  match trouble with
  | some (why, remains) => (.error why, Function.update fs path remains)
  | none => (.ok (), Function.update fs path none)

/-- What the file operations of a restore come to: each may fail. -/
structure FileTrouble where
  lstatStaged : Option String
  lstatLive : Option String
  renameAway : Option String
  renameIn : Option String
  renameUndo : Option String
  renameBack : Option String
  removeLive : Option (String × Option Entry)
  removeOld : Option (String × Option Entry)

/-- The previous tree after a swap: whether there was one. -/
structure Swap where
  hadLive : Bool

/-- The move of `staged` into place, when the previous tree is out of the way. -/
def moveIn (live staged old : String) (trouble : FileTrouble) (hadLive : Bool) (fs : Files) :
    Check Swap × Files :=
  match rename fs staged live trouble.renameIn with
  | .ok fs => (.ok ⟨hadLive⟩, fs)
  | .error why =>
      if hadLive then
        match rename fs old live trouble.renameUndo with
        | .ok fs => (.error why, fs)
        | .error _ => (.error why, fs)
      else (.error why, fs)

def swapDir (live staged old : String) (trouble : FileTrouble) (fs : Files) : Check Swap × Files :=
  match trouble.lstatLive with
  | some why => (.error why, fs)
  | none =>
      match fs live with
      | none => moveIn live staged old trouble false fs
      | some (.file _) => (.error (live ++ " exists and is not a directory"), fs)
      | some (.dir _) =>
          match rename fs live old trouble.renameAway with
          | .error why => (.error why, fs)
          | .ok fs => moveIn live staged old trouble true fs

def Swap.rollback (swap : Swap) (live old : String) (trouble : FileTrouble) (fs : Files) :
    Check Unit × Files :=
  match removeAll fs live trouble.removeLive with
  | (.error why, fs) => (.error why, fs)
  | (.ok (), fs) =>
      if swap.hadLive then
        match rename fs old live trouble.renameBack with
        | .error why => (.error why, fs)
        | .ok fs => (.ok (), fs)
      else (.ok (), fs)

/-- The `commit` of a swap; what it comes to is not looked at. -/
def Swap.commit (swap : Swap) (old : String) (trouble : FileTrouble) (fs : Files) : Files :=
  if swap.hadLive then (removeAll fs old trouble.removeOld).2 else fs

/-! ### The request

The certificates are swapped first; when the tables are then not restored, the previous
certificates are put back. -/

inductive Answer where
  /-- "restore failed, nothing was changed: …" -/
  | unchanged (status : Nat) (why : String)
  /-- "restore failed and the previous certificates could not be put back (…): …" -/
  | notPutBack (rollback why : String)
  /-- "restored, but applying it failed: …" -/
  | notApplied (why : String)
  | restored (certificates : String) (warnings : List String)
deriving DecidableEq, Repr

def Answer.status : Answer → Nat
  | .unchanged status _ => status
  | .notPutBack _ _ => 400
  | .notApplied _ => 500
  | .restored _ _ => 200

def Answer.text : Answer → String
  | .unchanged _ why => "restore failed, nothing was changed: " ++ why
  | .notPutBack rollback why =>
      "restore failed and the previous certificates could not be put back (" ++ rollback ++
        "): " ++ why
  | .notApplied why => "restored, but applying it failed: " ++ why
  | .restored certificates _ => certificates

structure World where
  files : Files
  db : Database

structure Unpacked where
  sawCerts : Bool
  snapshot : Snapshot

structure Trouble where
  files : FileTrouble
  db : DbAnswers
  sealing : SealRun
  reload : Check Unit

section Request

variable (cipher : Cipher) (box : Box) (schema : Schema)

/-- The tree of certificates, where the archive was unpacked, and where the previous tree is kept:
`.restore-*` and the suffix are random. -/
def livePath (dataDir : String) : String := dataDir ++ "/certs"
def stagedPath (dataDir tmp : String) : String := dataDir ++ "/.restore-" ++ tmp ++ "/certs"
def oldPath (dataDir suffix : String) : String := livePath dataDir ++ ".previous-" ++ suffix

/-- `handleRestore` from the swap of the certificates on. -/
def swapCertificates (live staged old : String) (archive : Unpacked) (trouble : FileTrouble)
    (fs : Files) : Except Answer (Option Swap) × Files :=
  if archive.sawCerts then
    let isDir := trouble.lstatStaged.isNone && (fs staged).any Entry.isDir
    if isDir = false then
      (.error (.unchanged 400 "the archive's certificates are not a directory"), fs)
    else
      match swapDir live staged old trouble fs with
      | (.error why, fs) => (.error (.unchanged 500 ("certificates: " ++ why)), fs)
      | (.ok swap, fs) => (.ok (some swap), fs)
  else (.ok none, fs)

/-- The answer when the database was not restored: the certificates are put back. -/
def putBack (swap : Option Swap) (live old : String) (trouble : FileTrouble) (why : String)
    (fs : Files) : Answer × Files :=
  match swap with
  | none => (.unchanged 400 why, fs)
  | some swap =>
      match swap.rollback live old trouble fs with
      | (.ok (), fs) => (.unchanged 400 why, fs)
      | (.error rollback, fs) => (.notPutBack rollback why, fs)

def handleRestore (live staged old : String) (archive : Unpacked) (trouble : Trouble) (w : World) :
    Answer × World :=
  match swapCertificates live staged old archive trouble.files w.files with
  | (.error answer, files) => (answer, { w with files })
  | (.ok swap, files) =>
      match restoreFrom cipher box schema trouble.db trouble.sealing archive.snapshot w.db with
      | (.error why, db) =>
          let (answer, files) := putBack swap live old trouble.files why files
          (answer, ⟨files, db⟩)
      | (.ok warnings, db) =>
          let files := match swap with
            | none => files
            | some swap => swap.commit old trouble.files files
          match trouble.reload with
          | .error why => (.notApplied why, ⟨files, db⟩)
          | .ok () => (.restored
              (if archive.sawCerts then "replaced" else "kept (the archive contains none)")
                warnings,
              ⟨files, db⟩)

end Request

/-! ### What a restored table is

Sealing comes after the commit and only changes how a secret is stored. -/

/-- The rows of a table of the snapshot, with this binary's columns; a table that the snapshot lacks
is empty. -/
def restoredRows (snap : Snapshot) (t : TableDef) : List Row :=
  match snap.table t.name with
  | none => []
  | some old => if sharedColumns t old = [] then [] else (snap.rows t.name).map (carried t old)

def restoredSecrets (snap : Snapshot) (t : TableDef) : List (SecretId × String) :=
  match snap.table t.name with
  | none => []
  | some old =>
      if sharedColumns t old = [] then []
      else (secretsOf snap.secrets t.name).map (carriedSecret t old)

/-- A value is the same, or opens to the same. -/
def Resealed (cipher : Cipher) (box : Box) (row row' : SecretId × String) : Prop :=
  row'.1 = row.1 ∧ (row'.2 = row.2 ∨ ∃ plain, box.openValue cipher row.2 row.1.place = .ok plain ∧
    box.openValue cipher row'.2 row.1.place = .ok plain)

/-- Every table is the snapshot's, up to sealing. -/
structure IsSnapshot (cipher : Cipher) (box : Box) (schema : Schema) (snap : Snapshot)
    (db : Database) : Prop where
  rows : ∀ t ∈ schema.tables, db.rows t.name = restoredRows snap t
  secrets : ∀ t ∈ schema.tables, List.Forall₂ (Resealed cipher box) (restoredSecrets snap t)
    (secretsOf db.secrets.rows t.name)

section Tables

variable {answers : DbAnswers} {snap : Snapshot} {db db' : Database} {t : TableDef}

theorem table_carriedSecret (t old : TableDef) (rows : List (SecretId × String)) (name : String) :
    ∀ row ∈ (secretsOf rows name).map (carriedSecret t old), row.1.column.table = name := by
  intro row hrow
  obtain ⟨origin, horigin, rfl⟩ := List.mem_map.mp hrow
  change origin.1.column.table = name
  simpa using (List.mem_filter.mp horigin).2

/-- One table of the transaction: it is the snapshot's, and the others are as they were. -/
theorem restoreTable_eq_ok (h : restoreTable answers snap db t = .ok db') :
    db'.rows t.name = restoredRows snap t ∧
    secretsOf db'.secrets.rows t.name = restoredSecrets snap t ∧
    ∀ name, name ≠ t.name → db'.rows name = db.rows name ∧
      secretsOf db'.secrets.rows name = secretsOf db.secrets.rows name := by
  have hgone : secretsOf (db.deleteFrom t.name).secrets.rows t.name = [] := by
    simp only [secretsOf, Database.deleteFrom, List.filter_filter, List.filter_eq_nil_iff]
    intro row _
    simp
  have hothers : ∀ name, name ≠ t.name → secretsOf (db.deleteFrom t.name).secrets.rows name =
      secretsOf db.secrets.rows name := by
    intro name hname
    simp only [secretsOf, Database.deleteFrom, List.filter_filter]
    refine List.filter_congr fun row _ => ?_
    by_cases htable : row.1.column.table = name
    · simp [htable, hname]
    · simp [htable]
  have hdeleted : (db.deleteFrom t.name).rows t.name = [] ∧
      ∀ name, name ≠ t.name → (db.deleteFrom t.name).rows name = db.rows name := by
    constructor
    · simp [Database.deleteFrom]
    · intro name hname
      simp [Database.deleteFrom, Function.update_of_ne hname]
  simp only [restoreTable, bind_eq_ok] at h
  obtain ⟨-, -, h⟩ := h
  unfold restoredRows restoredSecrets
  split at h
  · obtain rfl := Except.ok.inj h
    exact ⟨hdeleted.1, hgone, fun name hname => ⟨hdeleted.2 name hname, hothers name hname⟩⟩
  · rename_i old _
    rw [bind_eq_ok] at h
    obtain ⟨-, -, h⟩ := h
    split at h
    · rename_i hnone
      obtain rfl := Except.ok.inj h
      simp only [hnone, if_true]
      exact ⟨hdeleted.1, hgone, fun name hname => ⟨hdeleted.2 name hname, hothers name hname⟩⟩
    · rename_i hsome
      simp only [within_eq_ok, bind_eq_ok, Database.insertInto] at h
      obtain ⟨-, -, h⟩ := h
      split at h
      · obtain rfl := Except.ok.inj h
        simp only [hsome, if_false]
        have hnew := table_carriedSecret t old snap.secrets t.name
        refine ⟨by simp, ?_, fun name hname => ⟨?_, ?_⟩⟩
        · rw [secretsOf, List.filter_append, ← secretsOf, hgone, List.nil_append]
          exact List.filter_eq_self.mpr fun row hrow => by simp [hnew row hrow]
        · rw [Function.update_of_ne hname]
          exact hdeleted.2 name hname
        · have hempty : secretsOf ((secretsOf snap.secrets t.name).map (carriedSecret t old)) name =
              [] := by
            refine List.filter_eq_nil_iff.mpr fun row hrow => ?_
            rw [hnew row hrow]
            simpa using hname.symm
          rw [secretsOf, List.filter_append, ← secretsOf, ← secretsOf, hempty, List.append_nil]
          exact hothers name hname
      · cases h

/-- All tables of the transaction. -/
theorem restoreTables_eq_ok {tables : List TableDef} (hnamed : (tables.map TableDef.name).Nodup)
    (h : tables.foldlM (restoreTable answers snap) db = .ok db') :
    (∀ t ∈ tables, db'.rows t.name = restoredRows snap t ∧
      secretsOf db'.secrets.rows t.name = restoredSecrets snap t) ∧
    ∀ name, name ∉ tables.map TableDef.name → db'.rows name = db.rows name ∧
      secretsOf db'.secrets.rows name = secretsOf db.secrets.rows name := by
  induction tables generalizing db with
  | nil =>
      obtain rfl : db = db' := by simpa [pure, Except.pure] using h
      simp
  | cons t rest ih =>
      rw [List.foldlM_cons, bind_eq_ok] at h
      obtain ⟨next, hfirst, hrest⟩ := h
      rw [List.map_cons, List.nodup_cons] at hnamed
      obtain ⟨hrows, hsecrets, hothers⟩ := restoreTable_eq_ok hfirst
      obtain ⟨hdone, hkept⟩ := ih hnamed.2 hrest
      constructor
      · intro t' ht'
        rcases List.mem_cons.mp ht' with rfl | hin
        · -- the tables after it leave it as it is
          obtain ⟨hrows', hsecrets'⟩ := hkept t'.name hnamed.1
          exact ⟨hrows'.trans hrows, hsecrets'.trans hsecrets⟩
        · exact hdone t' hin
      · intro name hname
        rw [List.map_cons, List.mem_cons, not_or] at hname
        obtain ⟨hrows', hsecrets'⟩ := hkept name hname.2
        obtain ⟨hrows'', hsecrets''⟩ := hothers name hname.1
        exact ⟨hrows'.trans hrows'', hsecrets'.trans hsecrets''⟩

/-- Sealing keeps every row, and what it opens to. -/
theorem resealed_rewritten {cipher : Cipher} {box : Box} {nonce : SecretId → Check Nonce}
    (row : SecretId × String) :
    Resealed cipher box row (rewritten (sealVisit cipher box nonce) row) := by
  rcases rewritten_cases (sealVisit cipher box nonce) row with ⟨hsame, -⟩ | ⟨-, value, hwrite, hset⟩
  · rw [hsame]
    exact ⟨rfl, Or.inl rfl⟩
  · obtain ⟨-, plain, hopen, hsealed⟩ := sealVisit_eq_write hwrite
    rw [hset]
    exact ⟨rfl, Or.inr ⟨plain, hopen, (drawAndSeal_eq_ok hsealed).1⟩⟩

theorem resealed_refl {cipher : Cipher} {box : Box} (rows : List (SecretId × String)) :
    List.Forall₂ (Resealed cipher box) rows rows :=
  List.forall₂_same.mpr fun _ _ => ⟨rfl, Or.inl rfl⟩

/-- `sealAfterRestore` writes to secrets only, and keeps what they open to. -/
theorem sealAfterRestore_keeps (cipher : Cipher) (box : Box) (run : SealRun) (db : Database) :
    (sealAfterRestore cipher box run db).1.rows = db.rows ∧
    ∀ name, List.Forall₂ (Resealed cipher box) (secretsOf db.secrets.rows name)
      (secretsOf (sealAfterRestore cipher box run db).1.secrets.rows name) := by
  refine ⟨rfl, fun name => ?_⟩
  simp only [sealAfterRestore]
  split
  · cases hsealing : sealExisting cipher box run.nonce run.answers db.secrets with
    | error why => exact resealed_refl _
    | ok pass =>
        obtain ⟨-, hrows, -⟩ := rows_sealExisting hsealing
        have hfilter : secretsOf pass.db.rows name =
            (secretsOf db.secrets.rows name).map (rewritten (sealVisit cipher box run.nonce)) := by
          rw [hrows, secretsOf, List.filter_map, secretsOf]
          congr 1
          refine List.filter_congr fun row _ => ?_
          simp
        rw [hfilter, List.forall₂_map_right_iff]
        exact List.forall₂_same.mpr fun row _ => resealed_rewritten row
  · exact resealed_refl _

/-- A restore that ends well. -/
theorem isSnapshot_of_restoreFrom {cipher : Cipher} {box : Box} {schema : Schema} {run : SealRun}
    {warnings : List String}
    (h : restoreFrom cipher box schema answers run snap db = (.ok warnings, db')) :
    IsSnapshot cipher box schema snap db' := by
  unfold restoreFrom at h
  split at h
  · cases h
  · rename_i restored more hcommit
    obtain rfl : (sealAfterRestore cipher box run restored).1 = db' := congrArg Prod.snd h
    have htables : schema.tables.foldlM (restoreTable answers snap) db = .ok restored := by
      simp only [restoreCommit, bind_eq_ok] at hcommit
      obtain ⟨-, -, hcommit⟩ := hcommit
      split at hcommit
      · cases hcommit
      · simp only [restoreTx, bind_eq_ok, pure_eq_ok, Prod.mk.injEq] at hcommit
        obtain ⟨-, -, -, -, -, -, -, -, -, -, next, hnext, -, -, -, -, -, -, -, -, -, -, rfl, -⟩ :=
          hcommit
        exact hnext
    obtain ⟨hdone, -⟩ := restoreTables_eq_ok schema.named htables
    obtain ⟨hrows, hsecrets⟩ := sealAfterRestore_keeps cipher box run restored
    constructor
    · intro t ht
      rw [hrows]
      exact (hdone t ht).1
    · intro t ht
      rw [← (hdone t ht).2]
      exact hsecrets t.name

theorem restoreFrom_error {cipher : Cipher} {box : Box} {schema : Schema} {run : SealRun}
    {why : String} (h : restoreFrom cipher box schema answers run snap db = (.error why, db')) :
    db' = db := by
  unfold restoreFrom at h
  split at h
  · exact (Prod.mk.inj h).2.symm
  · cases (Prod.mk.inj h).1

end Tables

/-! ### What a swap leaves

A swap leaves the new tree, the previous one, or, in one case, none. -/

/-- The paths of a restore. -/
structure Apart (live staged old : String) : Prop where
  staged_ne_live : staged ≠ live
  old_ne_live : old ≠ live
  staged_ne_old : staged ≠ old

theorem apart_paths (dataDir tmp suffix : String) :
    Apart (livePath dataDir) (stagedPath dataDir tmp) (oldPath dataDir suffix) := by
  constructor
  · intro h
    have hlist := congrArg String.toList h
    simp only [stagedPath, livePath, String.toList_append, List.append_assoc] at hlist
    have hrest := List.append_cancel_left hlist
    simp at hrest
  · intro h
    have hlist := congrArg String.toList h
    simp [oldPath, livePath, String.toList_append] at hlist
  · intro h
    have hlist := congrArg String.toList h
    simp only [stagedPath, oldPath, livePath, String.toList_append, List.append_assoc] at hlist
    have hrest := List.append_cancel_left hlist
    simp at hrest

section Files

variable {live staged old : String} {trouble : FileTrouble} {fs : Files}

/-- The files after a directory was moved. -/
def moved (fs : Files) (a b : String) : Files :=
  Function.update (Function.update fs a none) b (fs a)

theorem moved_target (fs : Files) (a b : String) : moved fs a b b = fs a := by
  simp [moved]

theorem moved_source {a b : String} (h : a ≠ b) : moved fs a b a = none := by
  simp [moved, Function.update_of_ne h]

theorem moved_other {a b c : String} (ha : c ≠ a) (hb : c ≠ b) : moved fs a b c = fs c := by
  simp [moved, Function.update_of_ne ha, Function.update_of_ne hb]

/-- A directory is moved to a free place, or stays. -/
theorem rename_dir {a : String} {files : List (String × List UInt8)} (ha : fs a = some (.dir files))
    (b : String) (why : Option String) :
    (why = none ∧ fs b = none ∧ rename fs a b why = .ok (moved fs a b)) ∨
      (¬ (why = none ∧ fs b = none) ∧ ∃ text, rename fs a b why = .error text) := by
  cases why with
  | some text => exact Or.inr ⟨by simp, text, rfl⟩
  | none =>
      cases hb : fs b with
      | none => exact Or.inl ⟨rfl, rfl, by simp only [rename, moved, ha, hb]⟩
      | some entry =>
          refine Or.inr ⟨by simp, ?_⟩
          cases entry with
          | file bytes => exact ⟨"not a directory", by simp only [rename, ha, hb]⟩
          | dir inner => exact ⟨"file exists", by simp only [rename, hb]⟩

/-- The previous tree is gone from its place: it was moved away, and neither the new one could be
moved in nor the previous one moved back. -/
structure Stranded (live staged old : String) (sawCerts : Bool) (trouble : FileTrouble)
    (fs : Files) : Prop where
  sawCerts : sawCerts = true
  stagedRead : trouble.lstatStaged = none
  stagedDir : (fs staged).any Entry.isDir = true
  liveRead : trouble.lstatLive = none
  liveDir : (fs live).any Entry.isDir = true
  away : trouble.renameAway = none
  oldFree : fs old = none
  notIn : trouble.renameIn ≠ none
  notBack : trouble.renameUndo ≠ none

theorem exists_dir {entry : Option Entry} (h : entry.any Entry.isDir = true) :
    ∃ files, entry = some (.dir files) := by
  cases entry with
  | none => cases h
  | some entry =>
      cases entry with
      | file bytes => cases h
      | dir files => exact ⟨files, rfl⟩

/-- What a swap leaves at the place of the certificates. -/
inductive Swapped (live staged old : String) (trouble : FileTrouble) (fs : Files) :
    Check Swap × Files → Prop where
  /-- Nothing has moved, or it has moved back. -/
  | refused {why : String} {fs' : Files} (hlive : fs' live = fs live)
      (hnot : ¬ Stranded live staged old true trouble fs) :
      Swapped live staged old trouble fs (.error why, fs')
  | stranded {why : String} {fs' : Files} (h : Stranded live staged old true trouble fs)
      (hlive : fs' live = none) : Swapped live staged old trouble fs (.error why, fs')
  | first {fs' : Files} (hbefore : fs live = none) (hlive : fs' live = fs staged)
      (hnot : ¬ Stranded live staged old true trouble fs) :
      Swapped live staged old trouble fs (.ok ⟨false⟩, fs')
  | replaced {files : List (String × List UInt8)} {fs' : Files}
    (hbefore : fs live = some (.dir files))
      (hold : fs' old = some (.dir files)) (hlive : fs' live = fs staged)
      (hnot : ¬ Stranded live staged old true trouble fs) :
      Swapped live staged old trouble fs (.ok ⟨true⟩, fs')

theorem swapDir_swapped (hapart : Apart live staged old)
    (hread : trouble.lstatStaged = none) (hstaged : (fs staged).any Entry.isDir = true) :
    Swapped live staged old trouble fs (swapDir live staged old trouble fs) := by
  obtain ⟨tree, htree⟩ := exists_dir hstaged
  unfold swapDir
  split
  · rename_i why hwhy
    refine .refused rfl fun h => ?_
    rw [h.liveRead] at hwhy
    cases hwhy
  rename_i hlstat
  split
  · rename_i hlive
    have hnot : ¬ Stranded live staged old true trouble fs := by
      intro h
      have hdir := h.liveDir
      rw [hlive] at hdir
      cases hdir
    rcases rename_dir htree live trouble.renameIn with ⟨-, -, hin⟩ | ⟨-, why, hin⟩
    · simp only [moveIn, hin]
      exact .first hlive (moved_target fs staged live) hnot
    · simp only [moveIn, hin]
      exact .refused rfl hnot
  · rename_i bytes hlive
    refine .refused rfl fun h => ?_
    have hdir := h.liveDir
    rw [hlive] at hdir
    cases hdir
  rename_i files hlive
  rcases rename_dir hlive old trouble.renameAway with
    ⟨haway, hfree, hmove⟩ | ⟨hstays, why, hmove⟩
  · -- the previous tree is at `old`
    simp only [hmove]
    have hstill : moved fs live old staged = some (.dir tree) := by
      rw [moved_other hapart.staged_ne_live hapart.staged_ne_old]
      exact htree
    have hkept : moved fs live old old = some (.dir files) := by
      rw [moved_target]
      exact hlive
    have hgone : moved fs live old live = none := moved_source hapart.old_ne_live.symm
    rcases rename_dir hstill live trouble.renameIn with ⟨hok, -, hin⟩ | ⟨hfails, why, hin⟩
    · simp only [moveIn, hin]
      refine .replaced hlive ?_ ?_ fun h => h.notIn hok
      · rw [moved_other hapart.staged_ne_old.symm hapart.old_ne_live]
        exact hkept
      · rw [moved_target, hstill, htree]
    · have hnotIn : trouble.renameIn ≠ none := fun hnone => hfails ⟨hnone, hgone⟩
      simp only [moveIn, hin, if_true]
      rcases rename_dir hkept live trouble.renameUndo with
        ⟨hok, -, hback⟩ | ⟨hfails', text, hback⟩
      · simp only [hback]
        refine .refused ?_ fun h => h.notBack hok
        rw [moved_target, hkept, hlive]
      · simp only [hback]
        refine .stranded ⟨rfl, hread, hstaged, hlstat, ?_, haway, hfree, hnotIn, ?_⟩ hgone
        · rw [hlive]
          rfl
        · exact fun hnone => hfails' ⟨hnone, hgone⟩
  · simp only [hmove]
    exact .refused rfl fun h => hstays ⟨h.away, h.oldFree⟩

/-- A rollback that works puts back what was there. -/
theorem rollback_eq_ok {swap : Swap} {fs' : Files} (hapart : Apart live staged old)
    (hold : swap.hadLive = true → ∃ files, fs old = some (.dir files))
    (h : swap.rollback live old trouble fs = (.ok (), fs')) :
    fs' live = if swap.hadLive then fs old else none := by
  unfold Swap.rollback removeAll at h
  cases hremove : trouble.removeLive with
  | some failed =>
      simp only [hremove] at h
      cases (Prod.mk.inj h).1
  | none =>
      simp only [hremove] at h
      split at h
      · rename_i hhad
        obtain ⟨files, hfiles⟩ := hold hhad
        have hkept : Function.update fs live none old = some (.dir files) := by
          rw [Function.update_of_ne hapart.old_ne_live]
          exact hfiles
        rcases rename_dir hkept live trouble.renameBack with ⟨-, -, hback⟩ | ⟨-, why, hback⟩
        · simp only [hback] at h
          obtain rfl := (Prod.mk.inj h).2
          rw [if_pos hhad, moved_target, hkept, hfiles]
        · simp only [hback] at h
          cases (Prod.mk.inj h).1
      · rename_i hhad
        obtain rfl := (Prod.mk.inj h).2
        rw [if_neg hhad]
        simp

theorem commit_live (swap : Swap) (hapart : Apart live staged old) :
    swap.commit old trouble fs live = fs live := by
  unfold Swap.commit removeAll
  split
  · split
    · exact Function.update_of_ne hapart.old_ne_live.symm _ _
    · exact Function.update_of_ne hapart.old_ne_live.symm _ _
  · rfl

end Files

/-! ### The answer is true

The cases are those of the swap and of the database, and in all but one the rollback has
something to put back. -/

/-- The answer says what was done: a success means the snapshot's tables and the archive's
certificates, and an answer that nothing was changed means that. -/
structure Truthful (cipher : Cipher) (box : Box) (schema : Schema) (live staged : String)
    (archive : Unpacked) (w : World) (result : Answer × World) : Prop where
  success : ∀ certificates warnings, result.1 = .restored certificates warnings →
    IsSnapshot cipher box schema archive.snapshot result.2.db ∧
    result.2.files live = if archive.sawCerts then w.files staged else w.files live
  unchanged : ∀ status why, result.1 = .unchanged status why →
    result.2.files live = w.files live ∧ result.2.db = w.db

section Truth

variable {cipher : Cipher} {box : Box} {schema : Schema} {live staged old : String}
  {archive : Unpacked} {trouble : Trouble} {w : World}

theorem Truthful.of_unchanged {w' : World} {status : Nat} {why : String}
    (hlive : w'.files live = w.files live) (hdb : w'.db = w.db) :
    Truthful cipher box schema live staged archive w (.unchanged status why, w') where
  success _ _ h := nomatch h
  unchanged _ _ _ := ⟨hlive, hdb⟩

theorem Truthful.of_restored {w' : World} {certificates : String} {warnings : List String}
    (hdb : IsSnapshot cipher box schema archive.snapshot w'.db)
    (hlive : w'.files live = if archive.sawCerts then w.files staged else w.files live) :
    Truthful cipher box schema live staged archive w (.restored certificates warnings, w') where
  success _ _ _ := ⟨hdb, hlive⟩
  unchanged _ _ h := nomatch h

/-- The database step, after the certificates are swapped or left: `swap` says how to put them
back. -/
theorem truthful_of_swapped {swap : Option Swap} {files : Files} (hapart : Apart live staged old)
    (hswap : swapCertificates live staged old archive trouble.files w.files = (.ok swap, files))
    (hfiles : files live = if archive.sawCerts then w.files staged else w.files live)
    (hnone : swap = none → files live = w.files live)
    (hsome : ∀ s, swap = some s → (s.hadLive = true → ∃ tree, files old = some (.dir tree)) ∧
      w.files live = if s.hadLive then files old else none) :
    Truthful cipher box schema live staged archive w
      (handleRestore cipher box schema live staged old archive trouble w) := by
  simp only [handleRestore, hswap]
  split
  · rename_i why db hdb
    obtain rfl := restoreFrom_error hdb
    cases swap with
    | none => exact .of_unchanged (hnone rfl) rfl
    | some s =>
        simp only [putBack]
        split
        · rename_i files' hback
          have hlive := rollback_eq_ok hapart (hsome s rfl).1 hback
          exact .of_unchanged (hlive.trans (hsome s rfl).2.symm) rfl
        · exact ⟨nofun, nofun⟩
  · rename_i warnings db hdb
    have hsnapshot := isSnapshot_of_restoreFrom hdb
    split
    · exact ⟨nofun, nofun⟩
    · refine .of_restored hsnapshot ?_
      cases swap with
      | none => exact hfiles
      | some s => exact (commit_live s hapart).trans hfiles

theorem swapCertificates_none (h : archive.sawCerts = false) :
    swapCertificates live staged old archive trouble.files w.files = (.ok none, w.files) := by
  simp [swapCertificates, h]

theorem truthful_iff (hapart : Apart live staged old) :
    Truthful cipher box schema live staged archive w
        (handleRestore cipher box schema live staged old archive trouble w) ↔
      ¬ Stranded live staged old archive.sawCerts trouble.files w.files := by
  cases hsaw : archive.sawCerts with
  | false =>
      refine iff_of_true ?_ fun h => Bool.false_ne_true h.sawCerts
      refine truthful_of_swapped hapart (swapCertificates_none hsaw) ?_ (fun _ => rfl) nofun
      rw [hsaw]
      rfl
  | true =>
      by_cases hstaged : trouble.files.lstatStaged.isNone = true ∧
          (w.files staged).any Entry.isDir = true
      · have hread : trouble.files.lstatStaged = none := Option.isNone_iff_eq_none.mp hstaged.1
        have hswapped := swapDir_swapped hapart hread hstaged.2
        have hcertificates : swapCertificates live staged old archive trouble.files w.files =
            match swapDir live staged old trouble.files w.files with
            | (.error why, fs) => (.error (.unchanged 500 ("certificates: " ++ why)), fs)
            | (.ok swap, fs) => (.ok (some swap), fs) := by
          simp [swapCertificates, hsaw, hstaged.1, hstaged.2]
        generalize swapDir live staged old trouble.files w.files = result at hswapped hcertificates
        cases hswapped with
        | refused hlive hnot =>
            refine iff_of_true ?_ hnot
            simp only [handleRestore, hcertificates]
            exact .of_unchanged hlive rfl
        | stranded h hlive =>
            refine iff_of_false (fun htrue => ?_) (not_not.mpr h)
            simp only [handleRestore, hcertificates] at htrue
            have hsame : none = w.files live := hlive.symm.trans (htrue.unchanged _ _ rfl).1
            have hdir := h.liveDir
            rw [← hsame] at hdir
            cases hdir
        | first hbefore hlive hnot =>
            refine iff_of_true ?_ hnot
            refine truthful_of_swapped hapart hcertificates ?_ nofun ?_
            · rw [hsaw]
              exact hlive
            · rintro s hs
              obtain rfl := Option.some.inj hs
              exact ⟨nofun, hbefore⟩
        | replaced hbefore hold hlive hnot =>
            refine iff_of_true ?_ hnot
            refine truthful_of_swapped hapart hcertificates ?_ nofun ?_
            · rw [hsaw]
              exact hlive
            · rintro s hs
              obtain rfl := Option.some.inj hs
              exact ⟨fun _ => ⟨_, hold⟩, hbefore.trans hold.symm⟩
      · -- the archive's certificates are refused before anything is moved
        refine iff_of_true ?_ fun h => hstaged ⟨by rw [h.stagedRead]; rfl, h.stagedDir⟩
        have hrefused : swapCertificates live staged old archive trouble.files w.files =
            (.error (.unchanged 400 "the archive's certificates are not a directory"),
              w.files) := by
          have hdir : (trouble.files.lstatStaged.isNone && (w.files staged).any Entry.isDir) =
            false := by
            rw [Bool.eq_false_iff, ne_eq, Bool.and_eq_true]
            exact hstaged
          simp only [swapCertificates, hsaw, hdir, if_true]
        simp only [handleRestore, hrefused]
        exact .of_unchanged rfl rfl

end Truth

/-- The answer of a restore is true unless the previous certificates are stranded: they were moved
away, and neither could the new ones be moved in nor they back. -/
theorem restore_answers_truly (cipher : Cipher) (box : Box) (schema : Schema)
    (dataDir tmp suffix : String) (archive : Unpacked) (trouble : Trouble) (w : World) :
    Truthful cipher box schema (livePath dataDir) (stagedPath dataDir tmp) archive w
        (handleRestore cipher box schema (livePath dataDir) (stagedPath dataDir tmp)
          (oldPath dataDir suffix) archive trouble w) ↔
      ¬ Stranded (livePath dataDir) (stagedPath dataDir tmp) (oldPath dataDir suffix)
        archive.sawCerts trouble.files w.files :=
  truthful_iff (apart_paths dataDir tmp suffix)

def twoTrees : Files := fun path =>
  if path = "/data/certs" then some (.dir [("acme/a.crt", [1])])
  else if path = "/data/.restore-7/certs" then some (.dir [("acme/a.crt", [2])])
  else none

def noSecrets : Secrets := ⟨[], List.nodup_nil⟩

def emptyDatabase : Database := ⟨fun _ => [], noSecrets⟩

def certsOnly : Unpacked := ⟨true, ⟨[], fun _ => [], []⟩⟩

def failingDisk : Trouble where
  files := ⟨none, none, none, some "input/output error", some "input/output error", none,
    none, none⟩
  db := ⟨.ok (), .ok "ok", .ok (), .ok (), fun _ => .ok (), .ok (), fun _ => .ok (),
    fun _ => .ok (),
    fun _ => .ok (), .ok (), .ok (), .ok [], .ok ()⟩
  sealing := ⟨fun _ => .ok someNonce, allWell, .ok []⟩
  reload := .ok ()

def strandedRestore : Answer × World :=
  handleRestore openCipher .locked ⟨[], List.nodup_nil⟩ (livePath "/data") (stagedPath "/data" "7")
    (oldPath "/data" "0a0b") certsOnly failingDisk ⟨twoTrees, emptyDatabase⟩

/-- The answer says that nothing was changed, and there are no certificates any more. -/
theorem stranded_certificates :
    strandedRestore.1 = .unchanged 500 "certificates: input/output error" ∧
    twoTrees (livePath "/data") = some (.dir [("acme/a.crt", [1])]) ∧
    strandedRestore.2.files (livePath "/data") = none ∧
    ¬ Truthful openCipher .locked ⟨[], List.nodup_nil⟩ (livePath "/data") (stagedPath "/data" "7")
      certsOnly ⟨twoTrees, emptyDatabase⟩ strandedRestore := by
  have hanswer : strandedRestore.1 = .unchanged 500 "certificates: input/output error" := by decide
  have hbefore : twoTrees (livePath "/data") = some (.dir [("acme/a.crt", [1])]) := by decide
  have hafter : strandedRestore.2.files (livePath "/data") = none := by decide
  refine ⟨hanswer, hbefore, hafter, fun htrue => ?_⟩
  have hsame := (htrue.unchanged _ _ hanswer).1
  rw [hafter] at hsame
  cases hsame.trans hbefore

end Quicgate.Restore
