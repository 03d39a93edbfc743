import Quicgate.Checks
import Quicgate.Sealing
import Quicgate.StoreConfig

/-!
# Secrets at rest

`internal/store/sealed.go`: the columns that hold secrets, the place each of their
values belongs to, and the passes over all of them that seal what is not under the
primary key, and that write everything back in plaintext.  The writers of the store
compute the place of a value from the fields of its row, the passes compute it from
what they scan; the module shows that the two are one, and what a pass does to what
the values open to.

`sealing_keeps_secrets` puts the parts together: sealing keeps every secret and finishes what it
can, a second run finds nothing to do, and a run that fails changes nothing.
-/

namespace Quicgate.Store

open Quicgate.GoStrings Quicgate.Checks Quicgate.Seal

/-! ### Places

The place of a value is its associated data: the table, the column, the key of the row and,
for some tables, columns that the value belongs to.  A pass computes it from what it scans, as
text. -/

structure SecretColumn where
  table : String
  column : String
deriving DecidableEq, Repr

/-- `aad`, with the row already a text. -/
def aad (table column rowKey : String) : String := table ++ "/" ++ column ++ "/" ++ rowKey

inductive SecretId where
  | setting (key : String)
  | wgSite (id : Int)
  | wgDevice (id : Int)
  | oidcProvider (id : Int)
  | customCert (id : Int)
  | user (id : Int)
  | vpnSession (id provider : Int) (sub : String)
deriving DecidableEq, Repr

/-- What a query scans into one variable. -/
inductive Cell where
  | int (n : Int)
  | text (s : String)
deriving DecidableEq, Repr

def columnText : Cell → String
  | .int n => printInt n
  | .text s => s

def settingsColumn : SecretColumn := ⟨"settings", "value"⟩
def wgSitesColumn : SecretColumn := ⟨"wg_sites", "psk"⟩
def wgDevicesColumn : SecretColumn := ⟨"wg_devices", "psk"⟩
def oidcProvidersColumn : SecretColumn := ⟨"oidc_providers", "client_secret"⟩
def customCertsColumn : SecretColumn := ⟨"custom_certs", "key_pem"⟩
def usersColumn : SecretColumn := ⟨"users", "totp_secret"⟩
def vpnSessionsColumn : SecretColumn := ⟨"vpn_sessions", "refresh_token"⟩

def secretColumns : List SecretColumn :=
  [settingsColumn, wgSitesColumn, wgDevicesColumn, oidcProvidersColumn, customCertsColumn,
    usersColumn, vpnSessionsColumn]

/-- The settings whose value is a secret: the filter on the table of the settings. -/
def secretSettings : List String :=
  ["oidc_client_secret", "acme_dns_config", "sso_cookie_secret", "wg_private_key"]

namespace SecretId

def column : SecretId → SecretColumn
  | .setting _ => settingsColumn
  | .wgSite _ => wgSitesColumn
  | .wgDevice _ => wgDevicesColumn
  | .oidcProvider _ => oidcProvidersColumn
  | .customCert _ => customCertsColumn
  | .user _ => usersColumn
  | .vpnSession _ _ _ => vpnSessionsColumn

def key : SecretId → Cell
  | .setting key => .text key
  | .wgSite id | .wgDevice id | .oidcProvider id | .customCert id | .user id => .int id
  | .vpnSession id _ _ => .int id

def extra : SecretId → List Cell
  | .vpnSession _ provider sub => [.int provider, .text sub]
  | _ => []

/-- The filter `where`. -/
def selected : SecretId → Bool
  | .setting key => secretSettings.contains key
  | _ => true

def keyText (id : SecretId) : String := columnText id.key

/-- `aadFor`, on what a pass scans. -/
def place (id : SecretId) : String :=
  aad id.column.table id.column.column
    (String.intercalate "/" (id.keyText :: id.extra.map columnText))

end SecretId

/-! The places of the writers. -/

def settingAAD (key : String) : String := aad "settings" "value" key
def providerSecretAAD (id : Int) : String := aad "oidc_providers" "client_secret" (printInt id)
def customCertKeyAAD (id : Int) : String := aad "custom_certs" "key_pem" (printInt id)
def userTOTPAAD (id : Int) : String := aad "users" "totp_secret" (printInt id)
def wgSitePSKAAD (id : Int) : String := aad "wg_sites" "psk" (printInt id)
def wgDevicePSKAAD (id : Int) : String := aad "wg_devices" "psk" (printInt id)

/-- The provider and the subject are part of the place. -/
def sessionTokenAAD (id provider : Int) (sub : String) : String :=
  aad "vpn_sessions" "refresh_token" (printInt id ++ "/" ++ printInt provider ++ "/" ++ sub)

/-- The place that the writer of a row seals to. -/
def SecretId.writerPlace : SecretId → String
  | .setting key => settingAAD key
  | .wgSite id => wgSitePSKAAD id
  | .wgDevice id => wgDevicePSKAAD id
  | .oidcProvider id => providerSecretAAD id
  | .customCert id => customCertKeyAAD id
  | .user id => userTOTPAAD id
  | .vpnSession id provider sub => sessionTokenAAD id provider sub

/-- The writers and the passes agree on the place of every row. -/
theorem writerPlace_eq_place (id : SecretId) : id.writerPlace = id.place := by
  cases id with
  | vpnSession id provider sub =>
      simp only [SecretId.writerPlace, sessionTokenAAD, SecretId.place, SecretId.column,
        SecretId.keyText, SecretId.key, SecretId.extra, columnText, vpnSessionsColumn]
      rfl
  | _ => rfl

theorem toList_aad (table column rowKey : String) : (aad table column rowKey).toList =
    table.toList ++ '/' :: (column.toList ++ '/' :: rowKey.toList) := by
  simp [aad, String.toList_append]

theorem append_slash_inj {a a' b b' : List Char} (ha : '/' ∉ a) (ha' : '/' ∉ a')
    (h : a ++ '/' :: b = a' ++ '/' :: b') : a = a' ∧ b = b' := by
  have hcut := cut_append_cons ha b
  rw [h, cut_append_cons ha' b'] at hcut
  obtain ⟨hbefore, hrest⟩ := Prod.mk.inj hcut
  exact ⟨hbefore.symm, (Prod.mk.inj hrest).1.symm⟩

/-- A place without its table and column. -/
theorem rowKey_of_place {table column r r' : String}
    (h : aad table column r = aad table column r') :
    r = r' := by
  have hlist := congrArg String.toList h
  rw [toList_aad, toList_aad] at hlist
  have hrest := (List.cons.inj (List.append_cancel_left hlist)).2
  exact String.toList_injective (List.cons.inj (List.append_cancel_left hrest)).2

theorem sessionTokenAAD_injective {id provider id' provider' : Int} {sub sub' : String}
    (h : sessionTokenAAD id provider sub = sessionTokenAAD id' provider' sub') :
    id = id' ∧ provider = provider' ∧ sub = sub' := by
  have hrow := congrArg String.toList (rowKey_of_place h)
  simp only [String.toList_append, List.append_assoc] at hrow
  obtain ⟨hid, hrest⟩ :=
    append_slash_inj (slash_not_mem_printInt id) (slash_not_mem_printInt id') hrow
  obtain ⟨hprovider, hsub⟩ := append_slash_inj (slash_not_mem_printInt provider)
    (slash_not_mem_printInt provider') hrest
  exact ⟨printInt_injective (String.toList_injective hid),
    printInt_injective (String.toList_injective hprovider), String.toList_injective hsub⟩

theorem table_of_place {id id' : SecretId} (h : id.place = id'.place) :
    id.column.table = id'.column.table := by
  have hslash : ∀ id : SecretId, '/' ∉ id.column.table.toList := by
    intro id
    cases id <;> (simp only [SecretId.column]; decide)
  have hlist := congrArg String.toList h
  rw [SecretId.place, SecretId.place, toList_aad, toList_aad] at hlist
  exact String.toList_injective (append_slash_inj (hslash id) (hslash id') hlist).1

/-- Two rows have different places. -/
theorem place_injective {id id' : SecretId} (h : id.place = id'.place) : id = id' := by
  have htable := table_of_place h
  rw [← writerPlace_eq_place, ← writerPlace_eq_place] at h
  cases id with
  | setting key =>
      cases id' with
      | setting key' => rw [rowKey_of_place h]
      | _ => exact absurd htable (by simp only [SecretId.column]; decide)
  | wgSite n =>
      cases id' with
      | wgSite n' => rw [printInt_injective (rowKey_of_place h)]
      | _ => exact absurd htable (by simp only [SecretId.column]; decide)
  | wgDevice n =>
      cases id' with
      | wgDevice n' => rw [printInt_injective (rowKey_of_place h)]
      | _ => exact absurd htable (by simp only [SecretId.column]; decide)
  | oidcProvider n =>
      cases id' with
      | oidcProvider n' => rw [printInt_injective (rowKey_of_place h)]
      | _ => exact absurd htable (by simp only [SecretId.column]; decide)
  | customCert n =>
      cases id' with
      | customCert n' => rw [printInt_injective (rowKey_of_place h)]
      | _ => exact absurd htable (by simp only [SecretId.column]; decide)
  | user n =>
      cases id' with
      | user n' => rw [printInt_injective (rowKey_of_place h)]
      | _ => exact absurd htable (by simp only [SecretId.column]; decide)
  | vpnSession n provider sub =>
      cases id' with
      | vpnSession n' provider' sub' =>
          obtain ⟨rfl, rfl, rfl⟩ := sessionTokenAAD_injective h
          rfl
      | _ => exact absurd htable (by simp only [SecretId.column]; decide)

/-! ### Passes over the secrets

A pass is one transaction: the values of a column are read before any of them is written, and
the first trouble rolls everything back. -/

/-- The rows have different keys in their tables. -/
def KeysUnique (rows : List (SecretId × String)) : Prop :=
  (rows.map fun row => (row.1.column, row.1.keyText)).Nodup

instance (rows : List (SecretId × String)) : Decidable (KeysUnique rows) :=
  inferInstanceAs (Decidable (List.Nodup _))

theorem KeysUnique.of_ids {rows rows' : List (SecretId × String)} (h : KeysUnique rows)
    (hids : rows'.map Prod.fst = rows.map Prod.fst) : KeysUnique rows' := by
  have hkeys : ∀ rows : List (SecretId × String),
    (rows.map fun row => (row.1.column, row.1.keyText)) =
      (rows.map Prod.fst).map fun id => (id.column, id.keyText) := by
    intro rows
    rw [List.map_map]
    rfl
  rw [KeysUnique, hkeys, hids, ← hkeys]
  exact h

/-- The secret columns of the database, row by row. -/
structure Secrets where
  rows : List (SecretId × String)
  keysUnique : KeysUnique rows

def setValue (rows : List (SecretId × String)) (column : SecretColumn) (key value : String) :
    List (SecretId × String) :=
  rows.map fun row => if row.1.column = column ∧ row.1.keyText = key then (row.1, value) else row

theorem ids_setValue (rows : List (SecretId × String)) (column : SecretColumn)
    (key value : String) :
    (setValue rows column key value).map Prod.fst = rows.map Prod.fst := by
  rw [setValue, List.map_map]
  refine List.map_congr_left fun row _ => ?_
  simp only [Function.comp_apply]
  split <;> rfl

/-- A row has one value. -/
theorem eq_of_mem_rows (db : Secrets) {id : SecretId} {value value' : String}
    (h : (id, value) ∈ db.rows) (h' : (id, value') ∈ db.rows) : value = value' := by
  have heq := List.inj_on_of_nodup_map db.keysUnique h h' rfl
  exact (Prod.mk.inj heq).2

def Secrets.setValue (db : Secrets) (column : SecretColumn) (key value : String) : Secrets where
  rows := Store.setValue db.rows column key value
  keysUnique := db.keysUnique.of_ids (ids_setValue db.rows column key value)

def valuesOf (rows : List (SecretId × String)) (column : SecretColumn) : List (SecretId × String) :=
  rows.filter fun row => row.1.column = column && row.2 != "" && row.1.selected

inductive Visit where
  | keep
  | warn (text : String)
  | write (value : String)

/-- What the database answers in a transaction: to the query of a column, to the update of a
row, and to the commit. -/
structure Answers where
  query : SecretColumn → Check Unit
  exec : SecretColumn → String → Check Unit
  commit : Check Unit

structure Pass where
  db : Secrets
  count : Nat
  warnings : List String

def visitRow (answers : Answers) (visit : SecretId → String → Check Visit) (pass : Pass)
    (row : SecretId × String) : Check Pass := do
  match ← visit row.1 row.2 with
  | .keep => return pass
  | .warn text => return { pass with warnings := pass.warnings ++ [text] }
  | .write value =>
      answers.exec row.1.column row.1.keyText
      return { pass with
        db := pass.db.setValue row.1.column row.1.keyText value, count := pass.count + 1 }

def visitColumn (answers : Answers) (visit : SecretId → String → Check Visit) (pass : Pass)
    (column : SecretColumn) : Check Pass := do
  answers.query column
  (valuesOf pass.db.rows column).foldlM (visitRow answers visit) pass

/-- A pass over all secrets, in one transaction. -/
def overSecrets (answers : Answers) (visit : SecretId → String → Check Visit) (db : Secrets) :
    Check Pass := do
  let pass ← secretColumns.foldlM (visitColumn answers visit) ⟨db, 0, []⟩
  answers.commit
  return pass

/-! ### What a pass comes to

A pass that ends well has looked at every value once and rewritten it as its visit says,
whatever the order of the rows. -/

section Passes

variable {answers : Answers} {visit : SecretId → String → Check Visit}

def chosen (row : SecretId × String) : Bool := row.2 != "" && row.1.selected

def rewritten (visit : SecretId → String → Check Visit) (row : SecretId × String) :
    SecretId × String :=
  if chosen row then
    match visit row.1 row.2 with
    | .ok (.write value) => (row.1, value)
    | _ => row
  else row

@[simp] theorem rewritten_fst (row : SecretId × String) : (rewritten visit row).1 = row.1 := by
  unfold rewritten
  split
  · split <;> rfl
  · rfl

/-- The row of a column after the pass over it. -/
def rewrittenIn (visit : SecretId → String → Check Visit) (columns : List SecretColumn)
    (row : SecretId × String) : SecretId × String :=
  if row.1.column ∈ columns then rewritten visit row else row

/-- An update by the key of a row changes that row. -/
theorem setValue_middle {before after : List (SecretId × String)} {row : SecretId × String}
    (h : KeysUnique (before ++ row :: after)) (value : String) :
    setValue (before ++ row :: after) row.1.column row.1.keyText value =
      before ++ (row.1, value) :: after := by
  have hother : ∀ rows : List (SecretId × String),
      (∀ other ∈ rows, ¬ (other.1.column = row.1.column ∧ other.1.keyText = row.1.keyText)) →
        setValue rows row.1.column row.1.keyText value = rows := by
    intro rows hrows
    unfold setValue
    rw [List.map_congr_left fun other hother => if_neg (hrows other hother), List.map_id']
  rw [KeysUnique, List.map_append, List.map_cons, List.nodup_append] at h
  obtain ⟨-, hafter, hbefore⟩ := h
  have hfront : setValue before row.1.column row.1.keyText value = before := by
    refine hother before fun other hmem heq => ?_
    exact hbefore _ (List.mem_map_of_mem hmem) _ List.mem_cons_self (Prod.ext heq.1 heq.2)
  have hback : setValue after row.1.column row.1.keyText value = after := by
    refine hother after fun other hmem heq => ?_
    refine (List.nodup_cons.mp hafter).1 ?_
    exact List.mem_map.mpr ⟨other, hmem, Prod.ext heq.1 heq.2⟩
  have hsplit : setValue (before ++ row :: after) row.1.column row.1.keyText value =
      setValue before row.1.column row.1.keyText value ++
        (row.1, value) :: setValue after row.1.column row.1.keyText value := by
    simp [setValue]
  rw [hsplit, hfront, hback]

theorem visitRow_eq_ok {pass pass' : Pass} {row : SecretId × String}
    (h : visitRow answers visit pass row = .ok pass') :
    (∃ value, visit row.1 row.2 = .ok (.write value) ∧
      pass'.db.rows = setValue pass.db.rows row.1.column row.1.keyText value) ∨
    ((∀ value, visit row.1 row.2 ≠ .ok (.write value)) ∧ pass'.db = pass.db ∧
      pass'.count = pass.count) := by
  simp only [visitRow, bind_eq_ok] at h
  obtain ⟨outcome, hvisit, h⟩ := h
  cases outcome with
  | keep =>
      obtain rfl := pure_eq_ok.mp h
      exact Or.inr ⟨by simp [hvisit], rfl, rfl⟩
  | warn text =>
      obtain rfl := pure_eq_ok.mp h
      exact Or.inr ⟨by simp [hvisit], rfl, rfl⟩
  | write value =>
      simp only [bind_eq_ok, pure_eq_ok] at h
      obtain ⟨-, -, rfl⟩ := h
      exact Or.inl ⟨value, hvisit, rfl⟩

theorem valuesOf_cons (row : SecretId × String) (rows : List (SecretId × String))
    (column : SecretColumn) : valuesOf (row :: rows) column =
      if row.1.column = column ∧ chosen row = true then row :: valuesOf rows column
      else valuesOf rows column := by
  simp only [valuesOf, List.filter_cons, chosen, Bool.and_assoc, Bool.and_eq_true,
    decide_eq_true_eq]

theorem mem_valuesOf {row : SecretId × String} {rows : List (SecretId × String)}
    {column : SecretColumn} :
    row ∈ valuesOf rows column ↔ row ∈ rows ∧ row.1.column = column ∧ chosen row = true := by
  simp [valuesOf, chosen, and_assoc]

/-- The rest of a column, when the rows before it are done. -/
theorem rows_visitRows {column : SecretColumn} {before todo : List (SecretId × String)}
    {pass pass' : Pass} (hrows : pass.db.rows = before ++ todo)
    (hunique : KeysUnique (before ++ todo))
    (h : (valuesOf todo column).foldlM (visitRow answers visit) pass = .ok pass') :
    pass'.db.rows = before ++ todo.map (rewrittenIn visit [column]) := by
  induction todo generalizing before pass with
  | nil =>
      obtain rfl : pass = pass' := by simpa [valuesOf, pure, Except.pure] using h
      rw [hrows]
      rfl
  | cons row todo ih =>
      -- the row as it is after its turn, and the others from there on
      have hturn : ∀ {next : Pass} {row' : SecretId × String},
          next.db.rows = before ++ row' :: todo → row'.1 = row.1 →
            rewrittenIn visit [column] row = row' →
          (valuesOf todo column).foldlM (visitRow answers visit) next = .ok pass' →
          pass'.db.rows = before ++ (row :: todo).map (rewrittenIn visit [column]) := by
        intro next row' hnext hid hrow hrest
        have hunique' : KeysUnique ((before ++ [row']) ++ todo) := by
          refine hunique.of_ids ?_
          simp [hid]
        rw [ih (by simpa using hnext) hunique' hrest, List.map_cons, hrow]
        simp
      rw [valuesOf_cons] at h
      split at h
      · rename_i hpick
        obtain ⟨hcolumn, hchosen⟩ := hpick
        have hrow : rewrittenIn visit [column] row = rewritten visit row := by
          simp [rewrittenIn, hcolumn]
        rw [List.foldlM_cons, bind_eq_ok] at h
        obtain ⟨next, hnext, hrest⟩ := h
        rcases visitRow_eq_ok hnext with ⟨value, hvisit, hset⟩ | ⟨hkeep, hset, -⟩
        · rw [hrows, setValue_middle hunique] at hset
          refine hturn hset rfl ?_ hrest
          rw [hrow, rewritten, if_pos hchosen, hvisit]
        · have hsame : next.db.rows = before ++ row :: todo := by rw [hset, hrows]
          refine hturn hsame rfl ?_ hrest
          rw [hrow, rewritten, if_pos hchosen]
          split
          · rename_i value hvisit
            exact absurd hvisit (hkeep value)
          · rfl
      · rename_i hskip
        refine hturn hrows rfl ?_ h
        unfold rewrittenIn rewritten
        by_cases hcolumn : row.1.column = column
        · have hnot : ¬ chosen row = true := fun hchosen => hskip ⟨hcolumn, hchosen⟩
          simp [hnot]
        · simp [hcolumn]

/-- No value that is looked at makes the pass fail. -/
def Unrefused (visit : SecretId → String → Check Visit) (row : SecretId × String) : Prop :=
  chosen row = true → ∃ outcome, visit row.1 row.2 = .ok outcome

theorem unrefused_visitRows {rows : List (SecretId × String)} {pass pass' : Pass}
    (h : rows.foldlM (visitRow answers visit) pass = .ok pass') {row : SecretId × String}
    (hrow : row ∈ rows) : ∃ outcome, visit row.1 row.2 = .ok outcome := by
  induction rows generalizing pass with
  | nil => cases hrow
  | cons first rows ih =>
      rw [List.foldlM_cons, bind_eq_ok] at h
      obtain ⟨next, hnext, hrest⟩ := h
      rcases List.mem_cons.mp hrow with rfl | hrow
      · simp only [visitRow, bind_eq_ok] at hnext
        obtain ⟨outcome, hvisit, -⟩ := hnext
        exact ⟨outcome, hvisit⟩
      · exact ih hrest hrow

theorem rows_visitColumn {column : SecretColumn} {pass pass' : Pass}
    (h : visitColumn answers visit pass column = .ok pass') :
    pass'.db.rows = pass.db.rows.map (rewrittenIn visit [column]) ∧
      ∀ row ∈ pass.db.rows, row.1.column = column → Unrefused visit row := by
  simp only [visitColumn, bind_eq_ok] at h
  obtain ⟨-, -, hrows⟩ := h
  have hfirst : pass.db.rows = [] ++ pass.db.rows := rfl
  refine ⟨rows_visitRows hfirst pass.db.keysUnique hrows, ?_⟩
  intro row hrow hcolumn hchosen
  exact unrefused_visitRows hrows (mem_valuesOf.mpr ⟨hrow, hcolumn, hchosen⟩)

/-- Columns that are passed over one after the other. -/
theorem rows_visitColumns {columns : List SecretColumn} (hcolumns : columns.Nodup)
    {pass pass' : Pass}
    (h : columns.foldlM (visitColumn answers visit) pass = .ok pass') :
    pass'.db.rows = pass.db.rows.map (rewrittenIn visit columns) ∧
      ∀ row ∈ pass.db.rows, row.1.column ∈ columns → Unrefused visit row := by
  induction columns generalizing pass with
  | nil =>
      obtain rfl : pass = pass' := by simpa [pure, Except.pure] using h
      exact ⟨(List.map_id'' (fun row => by simp [rewrittenIn]) pass.db.rows).symm, by simp⟩
  | cons column columns ih =>
      obtain ⟨hnot, hcolumns⟩ := List.nodup_cons.mp hcolumns
      rw [List.foldlM_cons, bind_eq_ok] at h
      obtain ⟨next, hnext, hrest⟩ := h
      obtain ⟨hfirst, hvisited⟩ := rows_visitColumn hnext
      obtain ⟨hlater, hvisited'⟩ := ih hcolumns hrest
      constructor
      · rw [hlater, hfirst, List.map_map]
        refine List.map_congr_left fun row _ => ?_
        by_cases hcolumn : row.1.column = column
        · simp [rewrittenIn, hcolumn, hnot]
        · simp [rewrittenIn, hcolumn]
      · intro row hrow hmem
        rcases List.mem_cons.mp hmem with hcolumn | hin
        · exact hvisited row hrow hcolumn
        · -- the columns before it have left the row as it is
          have hcolumn : row.1.column ≠ column := fun heq => hnot (heq ▸ hin)
          have hsame : rewrittenIn visit [column] row = row := by simp [rewrittenIn, hcolumn]
          refine hvisited' row ?_ hin
          rw [hfirst]
          exact List.mem_map.mpr ⟨row, hrow, hsame⟩

theorem mem_secretColumns (id : SecretId) : id.column ∈ secretColumns := by
  cases id <;> simp [SecretId.column, secretColumns]

/-- A pass that ends well has looked at every row once. -/
theorem rows_overSecrets {db : Secrets} {pass : Pass}
    (h : overSecrets answers visit db = .ok pass) :
    pass.db.rows = db.rows.map (rewritten visit) ∧ ∀ row ∈ db.rows, Unrefused visit row := by
  simp only [overSecrets, bind_eq_ok, pure_eq_ok] at h
  obtain ⟨_, hcolumns, -, -, rfl⟩ := h
  obtain ⟨hrows, hvisited⟩ := rows_visitColumns (by decide) hcolumns
  refine ⟨?_, fun row hrow => hvisited row hrow (mem_secretColumns row.1)⟩
  rw [hrows]
  refine List.map_congr_left fun row _ => ?_
  rw [rewrittenIn, if_pos (mem_secretColumns row.1)]

/-- A pass that has nothing to write. -/
theorem overSecrets_idle {db : Secrets} {pass : Pass}
    (hidle : ∀ row ∈ db.rows, chosen row = true → ∀ value, visit row.1 row.2 ≠ .ok (.write value))
    (h : overSecrets answers visit db = .ok pass) : pass.db = db ∧ pass.count = 0 := by
  simp only [overSecrets, bind_eq_ok, pure_eq_ok] at h
  obtain ⟨_, hcolumns, -, -, rfl⟩ := h
  refine foldlM_invariant (P := fun pass => pass.db = db ∧ pass.count = 0) ?_ ⟨rfl, rfl⟩ hcolumns
  intro pass column next _ hpass hnext
  simp only [visitColumn, bind_eq_ok] at hnext
  obtain ⟨-, -, hrows⟩ := hnext
  refine foldlM_invariant (P := fun pass => pass.db = db ∧ pass.count = 0) ?_ hpass hrows
  intro s row t hrow hs ht
  obtain ⟨hmem, -, hchosen⟩ := mem_valuesOf.mp hrow
  rw [hpass.1] at hmem
  rcases visitRow_eq_ok ht with ⟨value, hvisit, -⟩ | ⟨-, hsame, hcount⟩
  · exact absurd hvisit (hidle row hmem hchosen value)
  · exact ⟨hsame.trans hs.1, hcount.trans hs.2⟩

end Passes

/-! ### Sealing and unsealing

The two visits: `sealVisit` writes what is not under the primary key and opens, `unsealVisit`
the plaintext of everything that is sealed. -/

section Sealing

variable (cipher : Cipher) (box : Box)

/-- `Seal`, with what comes of drawing the nonce. Nothing is drawn for the empty text. -/
def drawAndSeal (drawn : Check Nonce) (plain place : String) : Check String :=
  if plain = "" then .ok ""
  else match drawn with
    | .error why => .error why
    | .ok nonce =>
        match box.sealValue cipher nonce plain place with
        | .ok sealed => .ok sealed
        | .error why => .error why.text

/-- What `sealExisting` does with one value; `nonce` is what is drawn for it. -/
def sealVisit (nonce : SecretId → Check Nonce) (id : SecretId) (value : String) : Check Visit :=
  if box.needsReseal value = false then .ok .keep
  else match box.openValue cipher value id.place with
    | .error .locked => .ok .keep
    | .error why =>
        .ok (.warn
          (id.column.table ++ "." ++ id.column.column ++ " " ++ id.keyText ++ ": " ++ why.text))
    | .ok plain =>
        match drawAndSeal cipher box (nonce id) plain id.place with
        | .ok sealed => .ok (.write sealed)
        | .error why => .error why

/-- `sealExisting`: the rows, how many it rewrote, and the warnings. -/
def sealExisting (nonce : SecretId → Check Nonce) (answers : Answers) (db : Secrets) : Check Pass :=
  if box.usable = false then .error (Box.OpenError.text .locked)
  else overSecrets answers (sealVisit cipher box nonce) db

/-- What `Unseal` does with one value. -/
def unsealVisit (id : SecretId) (value : String) : Check Visit :=
  if isSealed value = false then .ok .keep
  else match box.openValue cipher value id.place with
    | .ok plain => .ok (.write plain)
    | .error why =>
        .error (id.column.table ++ "." ++ id.column.column ++ " " ++ id.keyText ++ ": " ++ why.text)

def unsealStore (lockReason : String) (answers : Answers) (db : Secrets) : Check Pass :=
  if box.usable = false then .error ("cannot unseal: " ++ lockReason)
  else overSecrets answers (unsealVisit cipher box) db

/-- The database after a transaction, which is rolled back when it fails. -/
def Secrets.after (db : Secrets) (result : Check Pass) : Secrets :=
  match result with
  | .ok pass => pass.db
  | .error _ => db

end Sealing

/-! ### What the passes keep

What is compared before and after a pass is what the values open to, place by place. -/

section Kept

variable {cipher : Cipher} {box : Box} {nonce : SecretId → Check Nonce} {answers : Answers}

theorem drawAndSeal_eq_ok {drawn : Check Nonce} {plain place sealed : String}
    (h : drawAndSeal cipher box drawn plain place = .ok sealed) :
    box.openValue cipher sealed place = .ok plain ∧
      (sealed = "" ∧ plain = "" ∨ plain ≠ "" ∧ box.underPrimary sealed = true) := by
  unfold drawAndSeal at h
  split at h
  · rename_i hempty
    obtain rfl := Except.ok.inj h
    exact ⟨by rw [hempty]; exact Box.openValue_empty, Or.inl ⟨rfl, hempty⟩⟩
  · rename_i hplain
    split at h
    · cases h
    · split at h
      · rename_i new hnew
        obtain rfl := Except.ok.inj h
        exact ⟨Box.openValue_sealValue hnew, Or.inr ⟨hplain,
          Box.underPrimary_sealValue hnew hplain⟩⟩
      · cases h

/-- A value is written if it is not under the primary key and opens. -/
theorem sealVisit_eq_write {id : SecretId} {value new : String}
    (h : sealVisit cipher box nonce id value = .ok (.write new)) :
    box.needsReseal value = true ∧ ∃ plain, box.openValue cipher value id.place = .ok plain ∧
      drawAndSeal cipher box (nonce id) plain id.place = .ok new := by
  unfold sealVisit at h
  split at h
  · cases h
  · rename_i hneeds
    refine ⟨by simpa using hneeds, ?_⟩
    split at h
    · cases h
    · cases h
    · rename_i plain hopen
      split at h
      · rename_i sealed hsealed
        obtain rfl := Visit.write.inj (Except.ok.inj h)
        exact ⟨plain, hopen, hsealed⟩
      · cases h

/-- A value that is not under the primary key and opens is written. -/
theorem exists_write_of_opens {id : SecretId} {value plain : String} {outcome : Visit}
    (hneeds : box.needsReseal value = true) (h : sealVisit cipher box nonce id value = .ok outcome)
    (hopen : box.openValue cipher value id.place = .ok plain) : ∃ new, outcome = .write new := by
  unfold sealVisit at h
  rw [if_neg (by simp [hneeds]), hopen] at h
  simp only at h
  split at h
  · rename_i sealed _
    exact ⟨sealed, (Except.ok.inj h).symm⟩
  · cases h

theorem rewritten_cases (visit : SecretId → String → Check Visit) (row : SecretId × String) :
    rewritten visit row = row ∧ (chosen row = true → ∀ new, visit row.1 row.2 ≠ .ok (.write new)) ∨
      chosen row = true ∧ ∃ new, visit row.1 row.2 = .ok (.write new) ∧
        rewritten visit row = (row.1, new) := by
  unfold rewritten
  split
  · rename_i hchosen
    split
    · rename_i new hvisit
      exact Or.inr ⟨hchosen, new, hvisit, rfl⟩
    · rename_i hother
      exact Or.inl ⟨rfl, fun _ new heq => hother new heq⟩
  · rename_i hnot
    exact Or.inl ⟨rfl, fun hchosen => absurd hchosen hnot⟩

/-- What every value opens to is kept. -/
def SameOpened (cipher : Cipher) (box : Box) (before after : Secrets) : Prop :=
  after.rows.map Prod.fst = before.rows.map Prod.fst ∧
    ∀ id value value', (id, value) ∈ before.rows → (id, value') ∈ after.rows →
      box.openValue cipher value' id.place = box.openValue cipher value id.place

theorem SameOpened.refl (db : Secrets) : SameOpened cipher box db db := by
  refine ⟨rfl, fun id value value' hrow hrow' => ?_⟩
  rw [eq_of_mem_rows db hrow hrow']

/-- The value of a row after a pass. -/
theorem value_of_rewritten {visit : SecretId → String → Check Visit} {before after : Secrets}
    (hrows : after.rows = before.rows.map (rewritten visit)) {id : SecretId} {value value' : String}
    (hrow : (id, value) ∈ before.rows) (hrow' : (id, value') ∈ after.rows) :
    rewritten visit (id, value) = (id, value') := by
  have hmem : rewritten visit (id, value) ∈ after.rows := by
    rw [hrows]
    exact List.mem_map_of_mem hrow
  have hfst : (rewritten visit (id, value)).1 = id := rewritten_fst _
  have hpair : rewritten visit (id, value) = (id, (rewritten visit (id, value)).2) :=
    Prod.ext hfst rfl
  rw [hpair] at hmem
  rw [hpair, eq_of_mem_rows after hmem hrow']

theorem SameOpened.of_rewritten {visit : SecretId → String → Check Visit} {before after : Secrets}
    (hrows : after.rows = before.rows.map (rewritten visit))
    (hvisit : ∀ id value new, (id, value) ∈ before.rows → chosen (id, value) = true →
      visit id value = .ok (.write new) →
      box.openValue cipher new id.place = box.openValue cipher value id.place) :
    SameOpened cipher box before after := by
  constructor
  · rw [hrows, List.map_map]
    exact List.map_congr_left fun row _ => rewritten_fst row
  · intro id value value' hrow hrow'
    have hnew := value_of_rewritten hrows hrow hrow'
    rcases rewritten_cases visit (id, value) with ⟨hsame, -⟩ | ⟨hchosen, new, hwrite, hset⟩
    · rw [hsame] at hnew
      rw [(Prod.mk.inj hnew).2]
    · rw [hset] at hnew
      rw [← (Prod.mk.inj hnew).2]
      exact hvisit id value new hrow hchosen hwrite

theorem SameOpened.trans {db₁ db₂ db₃ : Secrets} (h : SameOpened cipher box db₁ db₂)
    (h' : SameOpened cipher box db₂ db₃) : SameOpened cipher box db₁ db₃ := by
  refine ⟨h'.1.trans h.1, fun id value value' hrow hrow' => ?_⟩
  have hid : id ∈ db₂.rows.map Prod.fst := by
    rw [h.1]
    exact List.mem_map.mpr ⟨_, hrow, rfl⟩
  obtain ⟨⟨_, middle⟩, hmiddle, rfl⟩ := List.mem_map.mp hid
  rw [h'.2 _ middle value' hmiddle hrow', h.2 _ value middle hrow hmiddle]

/-- A run of `sealExisting` that ends well. -/
theorem rows_sealExisting {db : Secrets} {pass : Pass}
    (h : sealExisting cipher box nonce answers db = .ok pass) :
    box.usable = true ∧ pass.db.rows = db.rows.map (rewritten (sealVisit cipher box nonce)) ∧
      ∀ row ∈ db.rows, Unrefused (sealVisit cipher box nonce) row := by
  unfold sealExisting at h
  split at h
  · cases h
  · rename_i husable
    exact ⟨by simpa using husable, rows_overSecrets h⟩

theorem sameOpened_sealExisting (db : Secrets) :
    SameOpened cipher box db (db.after (sealExisting cipher box nonce answers db)) := by
  cases hresult : sealExisting cipher box nonce answers db with
  | error why => exact .refl db
  | ok pass =>
      obtain ⟨-, hrows, -⟩ := rows_sealExisting hresult
      refine .of_rewritten hrows ?_
      intro id value new _ _ hwrite
      obtain ⟨-, plain, hopen, hsealed⟩ := sealVisit_eq_write hwrite
      rw [hopen, (drawAndSeal_eq_ok hsealed).1]

/-- No secret begins with the marker of sealed values. -/
def NoMarker (cipher : Cipher) (box : Box) (db : Secrets) : Prop :=
  ∀ id value plain, (id, value) ∈ db.rows → isSealed value = true →
    box.openValue cipher value id.place = .ok plain → isSealed plain = false

theorem sameOpened_unseal {db : Secrets} (hplain : NoMarker cipher box db) (lockReason : String) :
    SameOpened cipher box db (db.after (unsealStore cipher box lockReason answers db)) := by
  cases hresult : unsealStore cipher box lockReason answers db with
  | error why => exact .refl db
  | ok pass =>
      unfold unsealStore at hresult
      split at hresult
      · cases hresult
      · obtain ⟨hrows, -⟩ := rows_overSecrets hresult
        refine .of_rewritten hrows ?_
        intro id value new hrow _ hwrite
        unfold unsealVisit at hwrite
        split at hwrite
        · cases hwrite
        · rename_i hsealed
          split at hwrite
          · rename_i plain hopen
            obtain rfl := Visit.write.inj (Except.ok.inj hwrite)
            rw [hopen]
            exact Box.openValue_of_not_isSealed
              (hplain id value plain hrow (by simpa using hsealed) hopen)
          · cases hwrite

/-! ### A run that ends well

`Migrated` is what sealing comes to value by value; a second run finds every value as the
first would leave it. -/

/-- What `sealExisting` does to the values, when it ends well. -/
structure Migrated (cipher : Cipher) (box : Box) (before after : Secrets) : Prop where
  /-- Every secret that opens and is not empty is under the primary key. -/
  primary : ∀ id value value' plain, (id, value) ∈ before.rows → (id, value') ∈ after.rows →
    id.selected = true → box.openValue cipher value id.place = .ok plain → plain ≠ "" →
    box.underPrimary value' = true
  /-- Every other value, and every value that was under the primary key, is untouched. -/
  untouched : ∀ id value value', (id, value) ∈ before.rows → (id, value') ∈ after.rows →
    (id.selected = false ∨ value = "" ∨ box.underPrimary value = true ∨
      ∀ plain, box.openValue cipher value id.place ≠ .ok plain) → value' = value

theorem migrated_sealExisting {db : Secrets} {pass : Pass}
    (h : sealExisting cipher box nonce answers db = .ok pass) : Migrated cipher box db pass.db := by
  obtain ⟨husable, hrows, hvisited⟩ := rows_sealExisting h
  constructor
  · intro id value value' plain hrow hrow' hselected hopen hplain
    have hnew := value_of_rewritten hrows hrow hrow'
    have hvalue : value ≠ "" := by
      rintro rfl
      rw [Box.openValue_empty] at hopen
      exact hplain (Except.ok.inj hopen).symm
    have hchosen : chosen (id, value) = true := by simp [chosen, hvalue, hselected]
    rcases rewritten_cases (sealVisit cipher box nonce) (id, value) with
      ⟨hsame, hkeep⟩ | ⟨-, new, hwrite, hset⟩
    · rw [hsame] at hnew
      obtain ⟨-, rfl⟩ := Prod.mk.inj hnew
      by_contra hnot
      have hneeds : box.needsReseal value = true := by
        rw [Box.needsReseal_eq husable, Bool.and_eq_true]
        exact ⟨by simpa using hvalue, by simpa using hnot⟩
      obtain ⟨outcome, houtcome⟩ := hvisited (id, value) hrow hchosen
      obtain ⟨new, rfl⟩ := exists_write_of_opens hneeds houtcome hopen
      exact hkeep hchosen new houtcome
    · rw [hset] at hnew
      obtain ⟨-, rfl⟩ := Prod.mk.inj hnew
      obtain ⟨-, plain', hopen', hsealed⟩ := sealVisit_eq_write hwrite
      obtain rfl := Except.ok.inj (hopen.symm.trans hopen')
      rcases (drawAndSeal_eq_ok hsealed).2 with ⟨-, hempty⟩ | ⟨-, hprimary⟩
      · exact absurd hempty hplain
      · exact hprimary
  · intro id value value' hrow hrow' hother
    have hnew := value_of_rewritten hrows hrow hrow'
    rcases rewritten_cases (sealVisit cipher box nonce) (id, value) with
      ⟨hsame, -⟩ | ⟨hchosen, new, hwrite, -⟩
    · rw [hsame] at hnew
      exact (Prod.mk.inj hnew).2.symm
    · simp only [chosen, Bool.and_eq_true, bne_iff_ne] at hchosen
      obtain ⟨hneeds, plain, hopen, -⟩ := sealVisit_eq_write hwrite
      rw [Box.needsReseal_eq husable] at hneeds
      simp only [Bool.and_eq_true, bne_iff_ne, Bool.not_eq_true'] at hneeds
      rcases hother with hselected | hempty | hprimary | hnot
      · rw [hchosen.2] at hselected
        cases hselected
      · exact absurd hempty hchosen.1
      · rw [hneeds.2] at hprimary
        cases hprimary
      · exact absurd hopen (hnot plain)

/-- Nothing is left to do after a run that ended well. -/
theorem sealExisting_again {db : Secrets} {pass : Pass}
    (h : sealExisting cipher box nonce answers db = .ok pass) {nonce' : SecretId → Check Nonce}
    {answers' : Answers} {pass' : Pass}
    (h' : sealExisting cipher box nonce' answers' pass.db = .ok pass') :
    pass'.db = pass.db ∧ pass'.count = 0 := by
  obtain ⟨husable, hrows, hvisited⟩ := rows_sealExisting h
  unfold sealExisting at h'
  rw [if_neg (by simp [husable])] at h'
  refine overSecrets_idle ?_ h'
  intro row hrow hchosen new hwrite
  obtain ⟨hneeds, plain, hopen, -⟩ := sealVisit_eq_write hwrite
  rw [hrows] at hrow
  obtain ⟨old, hold, rfl⟩ := List.mem_map.mp hrow
  rcases rewritten_cases (sealVisit cipher box nonce) old
    with ⟨hsame, hkeep⟩ | ⟨-, sealed, hfirst, hset⟩
  · rw [hsame] at hneeds hopen hchosen
    obtain ⟨outcome, houtcome⟩ := hvisited old hold hchosen
    obtain ⟨again, rfl⟩ := exists_write_of_opens hneeds houtcome hopen
    exact hkeep hchosen again houtcome
  · rw [hset] at hneeds hchosen
    obtain ⟨-, _, -, hsealed⟩ := sealVisit_eq_write hfirst
    rcases (drawAndSeal_eq_ok hsealed).2 with ⟨rfl, -⟩ | ⟨-, hprimary⟩
    · simp [chosen] at hchosen
    · rw [Box.needsReseal_eq husable, hprimary] at hneeds
      simp at hneeds

end Kept

/-- Sealing keeps what every value opens to, puts every secret that opens under the primary key and
leaves the rest, and finds nothing to do when it runs again; a run that fails changes nothing.
The writers and the passes agree on the places, no two rows share one, and unsealing followed by
sealing keeps what every value opens to. -/
theorem sealing_keeps_secrets (cipher : Cipher) (box : Box) (db : Secrets) :
    (∀ nonce answers result, sealExisting cipher box nonce answers db = result →
      SameOpened cipher box db (db.after result) ∧
      (∀ why, result = .error why → db.after result = db) ∧
      ∀ pass, result = .ok pass → Migrated cipher box db pass.db ∧
        ∀ nonce' answers' pass', sealExisting cipher box nonce' answers' pass.db = .ok pass' →
          pass'.db = pass.db ∧ pass'.count = 0) ∧
    (∀ id : SecretId, id.writerPlace = id.place) ∧
    (∀ id id' : SecretId, id.place = id'.place → id = id') ∧
    (NoMarker cipher box db → ∀ lockReason answers nonce answers' middle,
      middle = db.after (unsealStore cipher box lockReason answers db) →
      SameOpened cipher box db (middle.after (sealExisting cipher box nonce answers' middle))) := by
  refine ⟨?_, writerPlace_eq_place, fun _ _ => place_injective, ?_⟩
  · rintro nonce answers result rfl
    refine ⟨sameOpened_sealExisting db, ?_, ?_⟩
    · intro why hresult
      rw [hresult]
      rfl
    · intro pass hresult
      exact ⟨migrated_sealExisting hresult, fun _ _ _ => sealExisting_again hresult⟩
  · rintro hplain lockReason answers nonce answers' middle rfl
    exact (sameOpened_unseal hplain lockReason).trans (sameOpened_sealExisting _)

/-! ### A rotation

The old key still opens, the new one seals. -/

def codeText (s : List Char) : List UInt8 :=
  s.flatMap fun c => [UInt8.ofNat (c.toNat / 65536), UInt8.ofNat (c.toNat / 256 % 256),
    UInt8.ofNat (c.toNat % 256)]

def readText : List UInt8 → List Char
  | a :: b :: c :: rest => Char.ofNat (a.toNat * 65536 + b.toNat * 256 + c.toNat) :: readText rest
  | _ => []

theorem readText_codeText (s : List Char) : readText (codeText s) = s := by
  induction s with
  | nil => rfl
  | cons c rest ih =>
      have hvalid : c.toNat < 0x110000 := by
        rcases c.valid with hlow | ⟨-, hhigh⟩
        · have hnat : c.toNat < 0xd800 := hlow
          omega
        · exact hhigh
      have hbytes : (UInt8.ofNat (c.toNat / 65536)).toNat * 65536 +
          (UInt8.ofNat (c.toNat / 256 % 256)).toNat * 256 + (UInt8.ofNat (c.toNat % 256)).toNat =
            c.toNat := by
        simp only [UInt8.toNat_ofNat']
        omega
      change Char.ofNat _ :: readText (codeText rest) = _
      rw [hbytes, ih, Char.ofNat_toNat]

/-- A cipher that hides nothing, and opens under the key and the place that it writes in front. -/
def openCipher : Cipher where
  encrypt key _ plain place := key.1 ++ codeText place.toList ++ 255 :: codeText plain.toList
  decrypt key _ text place :=
    let front := key.1 ++ codeText place.toList ++ [255]
    if front.isPrefixOf text then some (String.ofList (readText (text.drop front.length))) else none
  decrypt_encrypt := by
    intro key nonce plain place
    have hsplit : key.1 ++ codeText place.toList ++ 255 :: codeText plain.toList =
        (key.1 ++ codeText place.toList ++ [255]) ++ codeText plain.toList := by simp
    simp only [hsplit, List.isPrefixOf_iff_prefix.mpr (List.prefix_append _ _), if_true]
    rw [List.drop_left, readText_codeText, String.ofList_toList]
  overhead := by
    intro key nonce plain place
    have hkey := key.2
    simp only [List.length_append, List.length_cons]
    omega
  sha256 bytes := bytes.reverse

def oldKey : Key := ⟨List.replicate 32 1, rfl⟩
def newKey : Key := ⟨List.replicate 32 2, rfl⟩

def someNonce : Nonce := ⟨List.replicate 24 7, rfl⟩

/-- A secret of an older version, one under the old key, and one that was moved from another row. -/
def threeSecrets : Secrets where
  rows :=
    let old := Box.new openCipher oldKey []
    let sealed := ((old.sealValue openCipher someNonce "psk" (wgSitePSKAAD 1)).toOption).getD ""
    [(.setting "oidc_client_secret", "hunter2"), (.wgSite 1, sealed), (.wgSite 2, sealed)]
  keysUnique := by decide +kernel

def allWell : Answers := ⟨fun _ => .ok (), fun _ _ => .ok (), .ok ()⟩

theorem sealing_keeps_secrets_rotation : ∃ pass,
    sealExisting openCipher (.new openCipher newKey [oldKey]) (fun _ => .ok someNonce) allWell
        threeSecrets = .ok pass ∧ pass.count = 2 ∧ pass.warnings.length = 1 ∧
      Migrated openCipher (.new openCipher newKey [oldKey]) threeSecrets pass.db := by
  obtain ⟨pass, hpass, hstate⟩ := exists_ok_of_map
    (f := fun pass : Pass => (pass.count, pass.warnings.length)) (b := (2, 1))
    (show (sealExisting openCipher (.new openCipher newKey [oldKey])
      (fun _ => .ok someNonce) allWell
      threeSecrets).toOption.map (fun pass : Pass => (pass.count, pass.warnings.length)) =
        some (2, 1) by
        decide +kernel)
  obtain ⟨hcount, hwarnings⟩ := Prod.mk.inj hstate
  have hsound := (sealing_keeps_secrets openCipher (.new openCipher newKey [oldKey]) threeSecrets).1
    _ _ _ hpass
  exact ⟨pass, hpass, hcount, hwarnings, (hsound.2.2 pass rfl).1⟩

end Quicgate.Store
