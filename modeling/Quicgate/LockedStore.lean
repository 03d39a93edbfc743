import Quicgate.SealedStore
import Quicgate.VpnLease

/-!
# A store that cannot open its secrets

A value that does not open, because the key is missing or another one or because the
value is damaged, is kept as it is until the key is back: nothing that the program does
by itself may replace it.  The module has the writers of the store as they treat a
locked box, and the steps that the program takes without being asked for a change of
a secret, with the leases of the VPN, whose tick and renewals read and clear refresh
tokens in the background.

`locked_store_loses_nothing` holds of every run but for one step: a renewal that finds a token
it cannot open takes it for none, ends the lease and wipes the token
(`renewal_wipes_locked_token`).
-/

namespace Quicgate.Store

open Quicgate.GoStrings Quicgate.Checks Quicgate.Seal Quicgate.TransitionSystem
open Quicgate.VpnLease (VPNSession SessionState Login Answer Decision Phase Renewal Tick)

/-! ### Writers

Each writer of the store, on its secret alone.  A new secret is refused while the store is
locked; an empty one keeps what is stored. -/

/-- The value that is stored for a row. -/
def Secrets.value (db : Secrets) (id : SecretId) : Option String :=
  (db.rows.find? fun row => row.1 = id).map Prod.snd

/-- `INSERT` of a row, which the key of the table has to be new for. -/
def Secrets.insert (db : Secrets) (id : SecretId) (value : String) : Check Secrets :=
  if h : KeysUnique (db.rows ++ [(id, value)]) then .ok ⟨db.rows ++ [(id, value)], h⟩
  else .error "UNIQUE constraint failed"

/-- `INSERT … ON CONFLICT DO UPDATE` on the settings. -/
def Secrets.upsert (db : Secrets) (key value : String) : Check Secrets :=
  if (db.value (.setting key)).isSome then .ok (db.setValue settingsColumn key value)
  else db.insert (.setting key) value

section Writers

variable (cipher : Cipher) (box : Box)

/-- `sealSecret`: a new secret is refused while the store is locked. -/
def sealSecret (lockReason : String) (drawn : Check Nonce) (plain place : String) : Check String :=
  if plain = "" then .ok ""
  else if box.usable = false then
    .error ("the secret store is locked (" ++ lockReason ++ "): a new secret cannot be stored")
  else drawAndSeal cipher box drawn plain place

def setSetting (lockReason : String) (drawn : Check Nonce) (db : Secrets) (key value : String) :
    Check Secrets :=
  if secretSettings.contains key then do
    let sealed ← sealSecret cipher box lockReason drawn value (settingAAD key)
    db.upsert key sealed
  else db.upsert key value

/-- `InitSecretSetting`: the database, and whether the value was stored. -/
def initSecretSetting (lockReason : String) (drawn : Check Nonce) (db : Secrets)
    (key value : String) :
    Check (Secrets × Bool) := do
  let sealed ← sealSecret cipher box lockReason drawn value (settingAAD key)
  match db.value (.setting key) with
  | some "" => return (db.setValue settingsColumn key sealed, true)
  | some _ => return (db, false)
  | none => do
      let db ← db.insert (.setting key) sealed
      return (db, true)

/-- A new row with its secret: the row comes first, and the sealed value names it. -/
def createSecret (lockReason : String) (drawn : Check Nonce) (db : Secrets) (id : SecretId)
    (plain : String) : Check Secrets := do
  let db ← db.insert id ""
  let sealed ← sealSecret cipher box lockReason drawn plain id.writerPlace
  return db.setValue id.column id.keyText sealed

def createOIDCProvider (lockReason : String) (drawn : Check Nonce) (db : Secrets) (id : Int)
    (clientSecret : String) : Check Secrets :=
  createSecret cipher box lockReason drawn db (.oidcProvider id) clientSecret

def createCustomCert (lockReason : String) (drawn : Check Nonce) (db : Secrets) (id : Int)
    (keyPEM : String) : Check Secrets :=
  createSecret cipher box lockReason drawn db (.customCert id) keyPEM

def createWGSite (lockReason : String) (drawn : Check Nonce) (db : Secrets) (id : Int)
    (psk : String) : Check Secrets :=
  createSecret cipher box lockReason drawn db (.wgSite id) psk

def createWGDevice (lockReason : String) (drawn : Check Nonce) (db : Secrets) (id : Int)
    (psk : String) : Check Secrets :=
  createSecret cipher box lockReason drawn db (.wgDevice id) psk

/-- Another secret for a row. -/
def replaceSecret (lockReason : String) (drawn : Check Nonce) (db : Secrets) (id : SecretId)
    (plain : String) : Check Secrets := do
  let sealed ← sealSecret cipher box lockReason drawn plain id.writerPlace
  return db.setValue id.column id.keyText sealed

def updateCustomCertPEM (lockReason : String) (drawn : Check Nonce) (db : Secrets) (id : Int)
    (keyPEM : String) : Check Secrets :=
  replaceSecret cipher box lockReason drawn db (.customCert id) keyPEM

def setTOTPSecret (lockReason : String) (drawn : Check Nonce) (db : Secrets) (id : Int)
    (secret : String) : Check Secrets :=
  replaceSecret cipher box lockReason drawn db (.user id) secret

/-- `UpdateOIDCProvider`, on the secret: an empty one keeps what is stored. -/
def updateOIDCProvider (lockReason : String) (drawn : Check Nonce) (db : Secrets) (id : Int)
    (clientSecret : String) : Check Secrets :=
  match db.value (.oidcProvider id) with
  | none => .error "sql: no rows in result set"
  | some stored =>
      if clientSecret = "" then .ok (db.setValue oidcProvidersColumn (printInt id) stored)
      else replaceSecret cipher box lockReason drawn db (.oidcProvider id) clientSecret

/-- The writes of a settings update, one after the other: a refused one ends it, and what was
written before it stays. -/
def setSettings (lockReason : String) (drawn : String → Check Nonce) :
    Secrets → List (String × String) → Secrets
  | db, [] => db
  | db, (key, value) :: rest =>
      match setSetting cipher box lockReason (drawn key) db key value with
      | .ok db => setSettings lockReason drawn db rest
      | .error _ => db

end Writers

/-! ### Steps

The steps of `VpnLease`, on logins whose tokens are among the secrets, with the writes of
requests, the settings updates and the starts of the program. -/

/-- The stored secrets and the logins of the VPN. The refresh tokens of the logins are among the
secrets; the rows of `sessions` hold none. `nextId` is the next automatic id. -/
structure Logins where
  db : Secrets
  sessions : List VPNSession
  nextId : Nat

structure Vault extends Logins where
  blocked : List (Int × String)
  ticks : List Tick
  renewals : List Renewal

/-- The row of a refresh token. -/
def tokenId (r : VPNSession) : SecretId := .vpnSession r.id r.provider r.sub

section Steps

variable (cipher : Cipher) (box : Box) (lockReason : String)

/-- `scanVPNSession`: a token that does not open is none. -/
def scanVPNSession (db : Secrets) (r : VPNSession) : VPNSession :=
  { r with refreshToken :=
      match db.value (tokenId r) with
      | none => ""
      | some v =>
          match box.openValue cipher v (sessionTokenAAD r.id r.provider r.sub) with
          | .ok plain => plain
          | .error _ => "" }

/-- `UPDATE vpn_sessions SET …, refresh_token=? WHERE …`; without a token the column stays. -/
def Vault.amend (s : Vault) (hit : VPNSession → Bool) (set : VPNSession → VPNSession)
    (token : Option String) : Vault :=
  { s with
    sessions := s.sessions.map fun r => if hit r then set r else r
    db := match token with
      | none => s.db
      | some v => (s.sessions.filter hit).foldl
          (fun db r => db.setValue vpnSessionsColumn (printInt r.id) v) s.db }

def Vault.endSession (s : Vault) (id : Nat) (state : SessionState) (from_ : Nat) : Vault :=
  s.amend (fun r => r.id == id && (from_ == 0 || r.generation == from_))
    (fun r => { r with state, transient := false, generation := r.generation + 1 }) (some "")

def Vault.block (s : Vault) (owner : Int × String) : Vault :=
  { s.amend (fun r => r.owner == owner)
      (fun r => { r with state := .ended, generation := r.generation + 1 }) (some "") with
    blocked := owner :: s.blocked.filter (· != owner) }

def Vault.login (drawn : Check Nonce) (s : Vault) (v : VPNSession) : Check Vault :=
  if s.blocked.contains v.owner then .error "this account is blocked from the VPN"
  else match s.sessions.find? fun r => r.owner == v.owner with
    | none => do
        let sealed ← sealSecret cipher box lockReason drawn v.refreshToken
          (sessionTokenAAD s.nextId v.provider v.sub)
        let row := { v with
          id := s.nextId, transient := false, state := .active
          generation := 1, refreshToken := "" }
        let db ← s.db.insert (tokenId row) sealed
        return { s with db, sessions := s.sessions ++ [row], nextId := s.nextId + 1 }
    | some row => do
        let sealed ← sealSecret cipher box lockReason drawn v.refreshToken
          (sessionTokenAAD row.id v.provider v.sub)
        return s.amend (fun r => r.id == row.id)
          (fun r => { r with
            email := v.email, groups := v.groups, loginAt := v.loginAt, renewedAt := v.renewedAt
            leaseUntil := v.leaseUntil, graceUntil := v.graceUntil, hardUntil := v.hardUntil
            transient := false, state := .active, generation := row.generation + 1 }) (some sealed)

/-- The end of a renewal, `renewLease`. -/
def Vault.settle (drawn : Check Nonce) (s : Vault) (n : VPNSession) : Decision → Vault
  | .lapse => s.endSession n.id .lapsed n.generation
  | .transient => s.amend
      (fun r => r.id == n.id && r.generation == n.generation && r.state == .active && !r.transient)
      (fun r => { r with transient := true }) none
  | .renew next =>
      match sealSecret cipher box lockReason drawn next.refreshToken
          (sessionTokenAAD next.id next.provider next.sub) with
      | .error _ => s
      | .ok sealed => s.amend (VpnLease.renews next n.generation)
          (fun r => { r with
            email := next.email, groups := next.groups, renewedAt := next.renewedAt
            leaseUntil := next.leaseUntil, graceUntil := next.graceUntil, transient := false
            generation := r.generation + 1 }) (some sealed)

inductive Act where
  /-- A start with the same keys: `initSeal`. -/
  | start (nonce : SecretId → Check Nonce) (answers : Answers)
  /-- `loadSSOSecret` and `syncWireGuard` of a reload: a secret that quicgate makes itself. They
  have found nothing stored a moment before, which nothing here relies on. -/
  | make (key value : String) (drawn : Check Nonce)
  /-- Loading certificates, sign-ins of admins, and everything else that only reads. -/
  | read
  /-- A settings update whose checks are passed, in the order in which the map is gone through. -/
  | putSettings (body : List (String × String)) (drawn : String → Check Nonce)
  | createOIDCProvider (id : Int) (clientSecret : String) (drawn : Check Nonce)
  | updateOIDCProvider (id : Int) (clientSecret : String) (drawn : Check Nonce)
  | createCustomCert (id : Int) (keyPEM : String) (drawn : Check Nonce)
  | updateCustomCertPEM (id : Int) (keyPEM : String) (drawn : Check Nonce)
  | createWGSite (id : Int) (psk : String) (drawn : Check Nonce)
  | createWGDevice (id : Int) (psk : String) (drawn : Check Nonce)
  | setTOTPSecret (id : Int) (secret : String) (drawn : Check Nonce)
  | login (cfg : VpnLease.Settings) (l : Login) (drawn : Check Nonce)
  /-- A person ends a login. -/
  | end_ (id : Nat)
  | block (owner : Int × String)
  | unblock (owner : Int × String)
  | tick (now : Int)
  | visit (k j : Nat)
  | answer (cfg : VpnLease.Settings) (i : Nat) (a : Answer) (drawn : Check Nonce)

/-- The settings that the settings API never shows; the mask stands for "unchanged". -/
def maskedSettings : List String := ["oidc_client_secret", "acme_dns_config"]

def secretMask : String := "********"

/-- The entries of a settings update that are written. -/
def changed (body : List (String × String)) : List (String × String) :=
  body.filter fun entry => !(maskedSettings.contains entry.1 && entry.2 == secretMask)

/-- `leaseTick` at one of the sessions that it listed. -/
def Vault.visit (s : Vault) (k : Nat) (now : Int) (v : VPNSession) : Vault :=
  if v.state ≠ .active then s
  else if !v.live now then s.endSession v.id .lapsed v.generation
  else if now > v.renewedAt + (v.leaseUntil - v.renewedAt).tdiv 2 then
    { s with renewals := s.renewals ++ [⟨v, k, .running⟩] }
  else s

/-- A call that fails leaves the database. -/
def Vault.commit (s : Vault) : Check Secrets → Vault
  | .ok db => { s with db }
  | .error _ => s

def Vault.step (s : Vault) : Act → Option Vault
  | .start nonce answers => some { s with
      db := s.db.after (sealExisting cipher box nonce answers s.db), ticks := [], renewals := [] }
  | .make key value drawn =>
      some (s.commit ((initSecretSetting cipher box lockReason drawn s.db key value).map Prod.fst))
  | .read => some s
  | .putSettings body drawn => some { s with
      db := setSettings cipher box lockReason drawn s.db (changed body) }
  | .createOIDCProvider id secret drawn =>
      some (s.commit (createOIDCProvider cipher box lockReason drawn s.db id secret))
  | .updateOIDCProvider id secret drawn =>
      some (s.commit (updateOIDCProvider cipher box lockReason drawn s.db id secret))
  | .createCustomCert id keyPEM drawn =>
      some (s.commit (createCustomCert cipher box lockReason drawn s.db id keyPEM))
  | .updateCustomCertPEM id keyPEM drawn =>
      some (s.commit (updateCustomCertPEM cipher box lockReason drawn s.db id keyPEM))
  | .createWGSite id psk drawn =>
      some (s.commit (createWGSite cipher box lockReason drawn s.db id psk))
  | .createWGDevice id psk drawn =>
      some (s.commit (createWGDevice cipher box lockReason drawn s.db id psk))
  | .setTOTPSecret id secret drawn =>
      some (s.commit (setTOTPSecret cipher box lockReason drawn s.db id secret))
  | .login cfg l drawn =>
      match s.login cipher box lockReason drawn (VpnLease.loginSession cfg l) with
      | .ok s => some s
      | .error _ => some s
  | .end_ id => some (s.endSession id .ended 0)
  | .block owner => some (s.block owner)
  | .unblock owner => some { s with blocked := s.blocked.filter (· != owner) }
  | .tick now => some { s with
      ticks := s.ticks ++ [⟨now, s.sessions.map (scanVPNSession cipher box s.db)⟩] }
  | .visit k j =>
      match s.ticks[k]? with
      | none => none
      | some tick =>
          match tick.left[j]? with
          | none => none
          | some v => some { s.visit k tick.now v with
              ticks := s.ticks.set k { tick with left := tick.left.eraseIdx j } }
  | .answer cfg i a drawn =>
      match s.renewals[i]? with
      | none => none
      | some n =>
          if n.phase = .running then
            some { s.settle cipher box lockReason drawn n.session
                (VpnLease.renewLease cfg n.session a) with
              renewals := s.renewals.set i { n with phase := .closed } }
          else none

/-! ### What is asked for

What a person asks for is no loss, and neither is a token whose login has come to its end. -/

def opens (row : SecretId × String) : Bool :=
  match box.openValue cipher row.2 row.1.place with
  | .ok _ => true
  | .error _ => false

/-- The stored token of a login opens, or there is none. -/
def Logins.tokenOpens (s : Logins) (r : VPNSession) : Bool :=
  s.db.rows.all fun row => row.1 != tokenId r || opens cipher box row

/-- The step is a person's change of that secret, or the end of a login whose deadline has
passed. -/
def Vault.asked (s : Vault) (id : SecretId) : Act → Bool
  | .putSettings body _ => (changed body).any fun entry => id == .setting entry.1
  | .updateOIDCProvider n secret _ => secret != "" && id == .oidcProvider n
  | .updateCustomCertPEM n _ _ => id == .customCert n
  | .setTOTPSecret n _ _ => id == .user n
  | .login _ l _ => s.sessions.any fun r => r.owner == (l.provider, l.sub) && id == tokenId r
  | .end_ n => s.sessions.any fun r => r.id == n && id == tokenId r
  | .block owner => s.sessions.any fun r => r.owner == owner && id == tokenId r
  | .visit k j =>
      match s.ticks[k]? with
      | none => false
      | some tick =>
          match tick.left[j]? with
          | none => false
          | some v => s.sessions.any fun r =>
              r.id == v.id && r.accessUntil ≤ tick.now && id == tokenId r
  | _ => false

/-- The step is not the end of a renewal of a login whose token does not open. -/
def Vault.sparesTokens (s : Vault) : Act → Bool
  | .answer _ i _ _ =>
      match s.renewals[i]? with
      | none => true
      | some n => s.sessions.all fun r =>
          !(r.id == n.session.id && r.generation == n.session.generation) || s.tokenOpens
            cipher box r
  | _ => true

end Steps

/-! ### Rows that stay

`Keeps` compares two states of the secrets, up to the rows that may have another value. -/

/-- The rows are still there, and only those that were asked for have another value. -/
structure Keeps (asked : SecretId → Prop) (db db' : Secrets) : Prop where
  ids : ∀ row ∈ db.rows, ∃ value, (row.1, value) ∈ db'.rows
  others : ∀ row ∈ db.rows, ¬ asked row.1 → row ∈ db'.rows

section Rows

variable {asked asked' : SecretId → Prop} {db db' : Secrets} {id : SecretId} {value : String}

theorem mem_of_value (h : db.value id = some value) : (id, value) ∈ db.rows := by
  unfold Secrets.value at h
  rw [Option.map_eq_some_iff] at h
  obtain ⟨row, hrow, rfl⟩ := h
  have hid : row.1 = id := by simpa using List.find?_some hrow
  rw [← hid]
  exact List.mem_of_find?_eq_some hrow

theorem Keeps.refl (db : Secrets) : Keeps asked db db where
  ids row hrow := ⟨row.2, hrow⟩
  others _ hrow _ := hrow

theorem Keeps.on_rows (h : Keeps asked db db')
    (hasked : ∀ row ∈ db.rows, asked row.1 → asked' row.1) : Keeps asked' db db' where
  ids := h.ids
  others row hrow hnot := h.others row hrow fun hid => hnot (hasked row hrow hid)

theorem Keeps.mono (h : Keeps asked db db') (hasked : ∀ id, asked id → asked' id) :
    Keeps asked' db db' :=
  h.on_rows fun row _ => hasked row.1

theorem Keeps.trans {db'' : Secrets} (h : Keeps asked db db') (h' : Keeps asked db' db'') :
    Keeps asked db db'' where
  ids row hrow := by
    obtain ⟨value, hvalue⟩ := h.ids row hrow
    exact h'.ids (row.1, value) hvalue
  others row hrow hnot := h'.others row (h.others row hrow hnot) hnot

/-- A key of a table names one row. -/
theorem eq_of_key {row row' : SecretId × String} (h : row ∈ db.rows) (h' : row' ∈ db.rows)
    (hcolumn : row.1.column = row'.1.column) (hkey : row.1.keyText = row'.1.keyText) : row = row' :=
  List.inj_on_of_nodup_map db.keysUnique h h' (Prod.ext hcolumn hkey)

theorem mem_setValue {rows : List (SecretId × String)} {row : SecretId × String} (h : row ∈ rows)
    (column : SecretColumn) (key value : String) :
    ∃ value', (row.1, value') ∈ setValue rows column key value ∧
      (¬ (row.1.column = column ∧ row.1.keyText = key) → value' = row.2) := by
  by_cases hhit : row.1.column = column ∧ row.1.keyText = key
  · refine ⟨value, List.mem_map.mpr ⟨row, h, ?_⟩, fun hnot => absurd hhit hnot⟩
    rw [if_pos hhit]
  · refine ⟨row.2, List.mem_map.mpr ⟨row, h, ?_⟩, fun _ => rfl⟩
    rw [if_neg hhit]

/-- An update by a key. -/
theorem keeps_setKey (db : Secrets) (column : SecretColumn) (key value : String) :
    Keeps (fun id => id.column = column ∧ id.keyText = key) db (db.setValue column key value) where
  ids row hrow := by
    obtain ⟨value', hvalue', -⟩ := mem_setValue hrow column key value
    exact ⟨value', hvalue'⟩
  others row hrow hnot := by
    obtain ⟨value', hvalue', hsame⟩ := mem_setValue hrow column key value
    rw [hsame hnot] at hvalue'
    exact hvalue'

theorem extra_eq_nil (h : id.column ≠ vpnSessionsColumn) : id.extra = [] := by
  cases id with
  | vpnSession id provider sub => exact absurd rfl h
  | _ => rfl

theorem setting_column (key : String) : (SecretId.setting key).column ≠ vpnSessionsColumn := by
  simp only [SecretId.column]
  decide

/-- Outside of the VPN sessions a table and a key are the row. -/
theorem eq_of_column_key {id' : SecretId} (h : id'.column ≠ vpnSessionsColumn)
    (hcolumn : id.column = id'.column) (hkey : id.keyText = id'.keyText) : id = id' := by
  refine place_injective ?_
  rw [SecretId.place, SecretId.place, hcolumn, hkey, extra_eq_nil h,
    extra_eq_nil (fun heq => h (hcolumn.symm.trans heq))]

/-- An update of a row. -/
theorem keeps_setRow (h : id.column ≠ vpnSessionsColumn) (db : Secrets) (value : String) :
    Keeps (· = id) db (db.setValue id.column id.keyText value) :=
  (keeps_setKey db id.column id.keyText value).mono fun _ hkey => eq_of_column_key h hkey.1 hkey.2

theorem rows_insert (h : db.insert id value = .ok db') : db'.rows = db.rows ++ [(id, value)] := by
  unfold Secrets.insert at h
  split at h
  · rw [← Except.ok.inj h]
  · cases h

theorem keeps_insert (h : db.insert id value = .ok db') : Keeps (fun _ => False) db db' := by
  have hmem : ∀ row ∈ db.rows, row ∈ db'.rows := by
    intro row hrow
    rw [rows_insert h]
    exact List.mem_append_left _ hrow
  exact ⟨fun row hrow => ⟨row.2, hmem row hrow⟩, fun row hrow _ => hmem row hrow⟩

theorem keeps_upsert {key : String} (h : db.upsert key value = .ok db') :
    Keeps (· = .setting key) db db' := by
  unfold Secrets.upsert at h
  split at h
  · obtain rfl := Except.ok.inj h
    exact keeps_setRow (setting_column key) db value
  · exact (keeps_insert h).mono fun _ hfalse => hfalse.elim

end Rows

section Writes

variable {cipher : Cipher} {box : Box} {lockReason : String} {drawn : Check Nonce}
variable {db db' : Secrets}

theorem keeps_setSetting {key value : String}
    (h : setSetting cipher box lockReason drawn db key value = .ok db') :
    Keeps (· = .setting key) db db' := by
  unfold setSetting at h
  split at h
  · rw [bind_eq_ok] at h
    obtain ⟨sealed, -, hupsert⟩ := h
    exact keeps_upsert hupsert
  · exact keeps_upsert h

theorem keeps_setSettings {draws : String → Check Nonce} (db : Secrets)
    (entries : List (String × String)) :
    Keeps (fun id => ∃ entry ∈ entries, id = .setting entry.1) db
      (setSettings cipher box lockReason draws db entries) := by
  induction entries generalizing db with
  | nil => exact Keeps.refl db
  | cons entry rest ih =>
      unfold setSettings
      split
      · rename_i next hnext
        refine Keeps.trans ((keeps_setSetting hnext).mono ?_) ((ih next).mono ?_)
        · rintro id rfl
          exact ⟨entry, List.mem_cons_self, rfl⟩
        · rintro id ⟨other, hother, rfl⟩
          exact ⟨other, List.mem_cons_of_mem _ hother, rfl⟩
      · exact Keeps.refl db

/-- Nothing but an empty value is replaced. -/
theorem keeps_initSecretSetting {key value : String} {stored : Bool}
    (h : initSecretSetting cipher box lockReason drawn db key value = .ok (db', stored)) :
    Keeps (fun id => id = .setting key ∧ (id, "") ∈ db.rows) db db' := by
  simp only [initSecretSetting, bind_eq_ok] at h
  obtain ⟨sealed, -, h⟩ := h
  split at h
  · rename_i hempty
    obtain ⟨rfl, -⟩ := Prod.mk.inj (Except.ok.inj h)
    refine (keeps_setRow (setting_column key) db sealed).mono ?_
    rintro id rfl
    exact ⟨rfl, mem_of_value hempty⟩
  · obtain ⟨rfl, -⟩ := Prod.mk.inj (Except.ok.inj h)
    exact Keeps.refl db
  · simp only [bind_eq_ok, pure_eq_ok, Prod.mk.injEq] at h
    obtain ⟨next, hinsert, rfl, -⟩ := h
    exact (keeps_insert hinsert).mono fun _ hfalse => hfalse.elim

/-- A row that is created with its secret leaves the others. -/
theorem keeps_createSecret {id : SecretId} {plain : String}
    (h : createSecret cipher box lockReason drawn db id plain = .ok db') :
    Keeps (fun _ => False) db db' := by
  simp only [createSecret, bind_eq_ok, pure_eq_ok] at h
  obtain ⟨next, hinsert, sealed, -, rfl⟩ := h
  have hkeeps := keeps_insert hinsert
  have hset := keeps_setKey next id.column id.keyText sealed
  have hnew : (id, "") ∈ next.rows := by
    rw [rows_insert hinsert]
    exact List.mem_append_right _ List.mem_cons_self
  have hstays : ∀ row ∈ db.rows, row ∈ (next.setValue id.column id.keyText sealed).rows := by
    intro row hrow
    refine hset.others row (hkeeps.others row hrow not_false) ?_
    -- the key of the new row was free
    rintro ⟨hcolumn, hkey⟩
    have hunique := next.keysUnique
    rw [rows_insert hinsert, KeysUnique, List.map_append, List.nodup_append] at hunique
    exact hunique.2.2 _ (List.mem_map_of_mem hrow) _ List.mem_cons_self (Prod.ext hcolumn hkey)
  exact ⟨fun row hrow => ⟨row.2, hstays row hrow⟩, fun row hrow _ => hstays row hrow⟩

theorem keeps_replaceSecret {id : SecretId} {plain : String} (hid : id.column ≠ vpnSessionsColumn)
    (h : replaceSecret cipher box lockReason drawn db id plain = .ok db') :
    Keeps (· = id) db db' := by
  simp only [replaceSecret, bind_eq_ok, pure_eq_ok] at h
  obtain ⟨sealed, -, rfl⟩ := h
  exact keeps_setRow hid db sealed

/-- A provider without a new secret keeps the one it has. -/
theorem keeps_updateOIDCProvider {id : Int} {secret : String}
    (h : updateOIDCProvider cipher box lockReason drawn db id secret = .ok db') :
    Keeps (fun row => secret ≠ "" ∧ row = .oidcProvider id) db db' := by
  have hcolumn : (SecretId.oidcProvider id).column ≠ vpnSessionsColumn := by
    simp only [SecretId.column]
    decide
  unfold updateOIDCProvider at h
  split at h
  · cases h
  · rename_i stored hstored
    split at h
    · obtain rfl := Except.ok.inj h
      have hset := keeps_setRow hcolumn db stored
      refine ⟨hset.ids, fun row hrow _ => ?_⟩
      by_cases heq : row.1 = .oidcProvider id
      · -- the row is written with the value it had
        obtain ⟨rowId, value⟩ := row
        obtain rfl : rowId = .oidcProvider id := heq
        obtain rfl := eq_of_mem_rows db hrow (mem_of_value hstored)
        exact List.mem_map.mpr ⟨_, hrow, if_pos ⟨rfl, rfl⟩⟩
      · exact hset.others row hrow heq
    · rename_i hsecret
      exact (keeps_replaceSecret hcolumn h).mono fun _ heq => ⟨hsecret, heq⟩

end Writes

/-! ### Logins and what was read of them

A tick reads a login as it is, and until the generation moves what it has read is right about
whether the token opens. -/

section Sessions

variable (cipher : Cipher) (box : Box)

/-- The logins of the database, each with the row of its token. -/
structure Logins.Wf (s : Logins) : Prop where
  ids : (s.sessions.map VPNSession.id).Nodup
  known : ∀ r ∈ s.sessions, r.id < s.nextId
  started : ∀ r ∈ s.sessions, 0 < r.generation
  tokens : ∀ r ∈ s.sessions, ∃ value, (tokenId r, value) ∈ s.db.rows

/-- What a tick has read of a login: while the generation is the same, the token opens or the
deadline has not moved. -/
structure Logins.Current (s : Logins) (v : VPNSession) : Prop where
  known : v.id < s.nextId
  started : 0 < v.generation
  rows : ∀ r ∈ s.sessions, r.id = v.id → v.generation ≤ r.generation ∧
    (v.generation = r.generation → s.tokenOpens cipher box r = true ∨
      r.accessUntil = v.accessUntil)

def Vault.snapshots (s : Vault) : List VPNSession :=
  s.ticks.flatMap Tick.left ++ s.renewals.map Renewal.session

/-- Where a login comes from: it is a new one, or has a new generation, or is as before but for a
mark on one whose token opens. -/
inductive Logins.Evolves (s next : Logins) (r' : VPNSession) : Prop where
  | fresh (h : s.nextId ≤ r'.id)
  | later (r : VPNSession) (h : r ∈ s.sessions) (hid : r'.id = r.id)
      (hgen : r.generation < r'.generation)
  | same (r : VPNSession) (h : r ∈ s.sessions) (hid : r'.id = r.id)
      (hgen : r'.generation = r.generation)
      (hopens : s.tokenOpens cipher box r = true → next.tokenOpens cipher box r' = true)
      (hstays : next.tokenOpens cipher box r' = true ∨ r'.accessUntil = r.accessUntil)

variable {cipher box} {s next : Logins} {v r : VPNSession}

theorem Logins.Current.advance (h : s.Current cipher box v) (hnext : s.nextId ≤ next.nextId)
    (hrows : ∀ r ∈ next.sessions, s.Evolves cipher box next r) : next.Current cipher box v where
  known := Nat.lt_of_lt_of_le h.known hnext
  started := h.started
  rows r' hr' hid := by
    have hknown := h.known
    cases hrows r' hr' with
    | fresh hnew => omega
    | later r hr hsame hgen =>
        have hle := (h.rows r hr (hsame.symm.trans hid)).1
        exact ⟨by omega, fun heq => absurd heq (by omega)⟩
    | same r hr hsame hgen hopens hstays =>
        obtain ⟨hle, hcurrent⟩ := h.rows r hr (hsame.symm.trans hid)
        refine ⟨by omega, fun heq => ?_⟩
        rcases hcurrent (heq.trans hgen) with hopen | huntil
        · exact Or.inl (hopens hopen)
        · rcases hstays with hopen | huntil'
          · exact Or.inl hopen
          · exact Or.inr (huntil'.trans huntil)

theorem Logins.Wf.eq_of_id (h : s.Wf) {r r' : VPNSession} (hr : r ∈ s.sessions)
    (hr' : r' ∈ s.sessions) (hid : r.id = r'.id) : r = r' :=
  List.inj_on_of_nodup_map h.ids hr hr' hid

theorem tokenOpens_iff : s.tokenOpens cipher box r = true ↔
    ∀ value, (tokenId r, value) ∈ s.db.rows → opens cipher box (tokenId r, value) = true := by
  simp only [Logins.tokenOpens, List.all_eq_true, Bool.or_eq_true, bne_iff_ne]
  constructor
  · intro h value hrow
    rcases h _ hrow with hne | hopen
    · exact absurd rfl hne
    · exact hopen
  · rintro h ⟨id, value⟩ hrow
    by_cases hid : id = tokenId r
    · obtain rfl := hid
      exact Or.inr (h value hrow)
    · exact Or.inl hid

/-- A token that is kept opens as before. -/
theorem tokenOpens_of_kept {r' : VPNSession} {value : String}
    (hrow : (tokenId r, value) ∈ s.db.rows)
    (hkept : (tokenId r, value) ∈ next.db.rows) (hid : tokenId r' = tokenId r)
    (h : s.tokenOpens cipher box r = true) : next.tokenOpens cipher box r' = true := by
  rw [tokenOpens_iff] at h ⊢
  rw [hid]
  intro value' hrow'
  obtain rfl := eq_of_mem_rows next.db hkept hrow'
  exact h value hrow

/-- A login that a step does not write to. -/
theorem Logins.Wf.evolves_same (hwf : s.Wf) (hr : r ∈ s.sessions)
    (hkept : ∀ value, (tokenId r, value) ∈ s.db.rows → (tokenId r, value) ∈ next.db.rows) :
    s.Evolves cipher box next r := by
  obtain ⟨value, hrow⟩ := hwf.tokens r hr
  refine .same r hr rfl rfl ?_ (Or.inr rfl)
  exact tokenOpens_of_kept hrow (hkept value hrow) rfl

/-! ### What a step does to the logins

A step writes to the tokens of some logins and moves their generations; `Moves` says which
secrets it may write to. -/

/-- What a step does to the logins, and the secrets that it may write to. -/
structure Moves (cipher : Cipher) (box : Box) (lost : SecretId → Prop) (s next : Logins) :
    Prop where
  wf : next.Wf
  nextId_le : s.nextId ≤ next.nextId
  rows : ∀ r ∈ next.sessions, s.Evolves cipher box next r
  kept : ∀ row ∈ s.db.rows, ¬ lost row.1 → row ∈ next.db.rows

/-- A step that writes to no token. -/
theorem Moves.stores {lost : SecretId → Prop} {db : Secrets} (hwf : s.Wf)
    (hkeeps : Keeps lost s.db db) (hlost : ∀ r ∈ s.sessions, ¬ lost (tokenId r)) :
    Moves cipher box lost s { s with db } where
  wf := {
    ids := hwf.ids
    known := hwf.known
    started := hwf.started
    tokens := fun r hr => by
      obtain ⟨value, hrow⟩ := hwf.tokens r hr
      exact hkeeps.ids _ hrow }
  nextId_le := Nat.le_refl _
  rows r hr := hwf.evolves_same hr fun _ hrow => hkeeps.others _ hrow (hlost r hr)
  kept := hkeeps.others

theorem Moves.idle (lost : SecretId → Prop) (hwf : s.Wf) : Moves cipher box lost s s where
  wf := hwf
  nextId_le := Nat.le_refl _
  rows _ hr := hwf.evolves_same hr fun _ hrow => hrow
  kept _ hrow _ := hrow

theorem keeps_setTokens (db : Secrets) (rows : List VPNSession) (value : String) :
    Keeps (fun id => ∃ r ∈ rows, id.column = vpnSessionsColumn ∧ id.keyText = printInt r.id) db
      (rows.foldl (fun db r => db.setValue vpnSessionsColumn (printInt r.id) value) db) := by
  induction rows generalizing db with
  | nil => exact Keeps.refl db
  | cons r rest ih =>
      refine Keeps.trans ((keeps_setKey db vpnSessionsColumn (printInt r.id) value).mono ?_)
        ((ih _).mono ?_)
      · intro id hid
        exact ⟨r, List.mem_cons_self, hid⟩
      · rintro id ⟨other, hother, hid⟩
        exact ⟨other, List.mem_cons_of_mem _ hother, hid⟩

/-- The tokens that an update of the sessions writes to. -/
def hitTokens (s : Logins) (hit : VPNSession → Bool) (id : SecretId) : Prop :=
  ∃ r ∈ s.sessions, hit r = true ∧ id = tokenId r

theorem keeps_amend {s : Vault} (hwf : s.Wf) (hit : VPNSession → Bool)
    (set : VPNSession → VPNSession) (value : String) :
    Keeps (hitTokens s.toLogins hit) s.db (s.amend hit set (some value)).db := by
  refine (keeps_setTokens s.db (s.sessions.filter hit) value).on_rows ?_
  rintro row hrow ⟨r, hr, hcolumn, hkey⟩
  obtain ⟨hmem, hhit⟩ := List.mem_filter.mp hr
  obtain ⟨stored, htoken⟩ := hwf.tokens r hmem
  have heq := eq_of_key hrow htoken hcolumn hkey
  exact ⟨r, hmem, hhit, congrArg Prod.fst heq⟩

section Amend

variable {s : Vault} {hit : VPNSession → Bool} {set : VPNSession → VPNSession}
  {token : Option String}

theorem mem_sessions_amend {r' : VPNSession} : r' ∈ (s.amend hit set token).sessions ↔
    ∃ r ∈ s.sessions, r' = if hit r then set r else r := by
  simp only [Vault.amend, List.mem_map, eq_comm]

theorem wf_amend (hwf : s.Wf) (hset : ∀ r, (set r).id = r.id ∧ tokenId (set r) = tokenId r)
    (hstarted : ∀ r ∈ s.sessions, hit r = true → r.generation ≤ (set r).generation)
    (hids : ∀ row ∈ s.db.rows, ∃ value, (row.1, value) ∈ (s.amend hit set token).db.rows) :
    (s.amend hit set token).Wf := by
  have hrow : ∀ r, (if hit r then set r else r).id = r.id ∧
      tokenId (if hit r then set r else r) = tokenId r := by
    intro r
    split
    · exact hset r
    · exact ⟨rfl, rfl⟩
  refine ⟨?_, ?_, ?_, ?_⟩
  · have hmap : (s.amend hit set token).sessions.map VPNSession.id =
        s.sessions.map VPNSession.id := by
      simp only [Vault.amend, List.map_map]
      exact List.map_congr_left fun r _ => (hrow r).1
    rw [hmap]
    exact hwf.ids
  · intro r' hr'
    obtain ⟨r, hr, rfl⟩ := mem_sessions_amend.mp hr'
    rw [(hrow r).1]
    exact hwf.known r hr
  · intro r' hr'
    obtain ⟨r, hr, rfl⟩ := mem_sessions_amend.mp hr'
    have hpos := hwf.started r hr
    split
    · rename_i hhit
      exact Nat.lt_of_lt_of_le hpos (hstarted r hr hhit)
    · exact hpos
  · intro r' hr'
    obtain ⟨r, hr, rfl⟩ := mem_sessions_amend.mp hr'
    obtain ⟨value, hvalue⟩ := hwf.tokens r hr
    rw [(hrow r).2]
    exact hids _ hvalue

/-- An update that writes a token and raises the generation. -/
theorem Moves.amend (hwf : s.Wf) (hset : ∀ r, (set r).id = r.id ∧ tokenId (set r) = tokenId r)
    (hgen : ∀ r ∈ s.sessions, hit r = true → r.generation < (set r).generation)
    (value : String) :
    Moves cipher box (hitTokens s.toLogins hit) s.toLogins
      (s.amend hit set (some value)).toLogins := by
  have hkeeps := keeps_amend hwf hit set value
  have hle : ∀ r ∈ s.sessions, hit r = true → r.generation ≤ (set r).generation :=
    fun r hr hhit => Nat.le_of_lt (hgen r hr hhit)
  refine ⟨wf_amend hwf hset hle hkeeps.ids, Nat.le_refl _, ?_, hkeeps.others⟩
  intro r' hr'
  obtain ⟨r, hr, rfl⟩ := mem_sessions_amend.mp hr'
  split
  · rename_i hhit
    exact .later r hr (hset r).1 (hgen r hr hhit)
  · rename_i hmiss
    refine hwf.evolves_same hr fun stored hrow => hkeeps.others _ hrow ?_
    -- another login has another token
    rintro ⟨other, hother, hhit, heq⟩
    have hid : r.id = other.id := by
      have hcast := (SecretId.vpnSession.inj heq).1
      omega
    obtain rfl := hwf.eq_of_id hr hother hid
    exact hmiss hhit

/-- An update that leaves the tokens, of logins whose token opens. -/
theorem Moves.mark (lost : SecretId → Prop) (hwf : s.Wf)
    (hset : ∀ r, (set r).id = r.id ∧ tokenId (set r) = tokenId r)
    (hgen : ∀ r, (set r).generation = r.generation)
    (hopens : ∀ r ∈ s.sessions, hit r = true → s.tokenOpens cipher box r = true) :
    Moves cipher box lost s.toLogins (s.amend hit set none).toLogins := by
  refine ⟨wf_amend hwf hset (fun r _ _ => (hgen r).ge) (fun row hrow => ⟨row.2, hrow⟩),
    Nat.le_refl _, ?_, fun _ hrow _ => hrow⟩
  intro r' hr'
  obtain ⟨r, hr, rfl⟩ := mem_sessions_amend.mp hr'
  obtain ⟨value, hrow⟩ := hwf.tokens r hr
  split
  · rename_i hhit
    have hopen : (s.amend hit set none).tokenOpens cipher box (set r) = true :=
      tokenOpens_of_kept hrow hrow (hset r).2 (hopens r hr hhit)
    exact .same r hr (hset r).1 (hgen r) (fun _ => hopen) (Or.inl hopen)
  · exact hwf.evolves_same hr fun _ hkept => hkept

end Amend

theorem Moves.mono {lost lost' : SecretId → Prop} (h : Moves cipher box lost s next)
    (hlost : ∀ row ∈ s.db.rows, lost row.1 → lost' row.1) : Moves cipher box lost' s next where
  wf := h.wf
  nextId_le := h.nextId_le
  rows := h.rows
  kept row hrow hnot := h.kept row hrow fun hin => hnot (hlost row hrow hin)

theorem Moves.endSession {s : Vault} (hwf : s.Wf) (id : Nat) (state : SessionState) (from_ : Nat) :
    Moves cipher box
      (hitTokens s.toLogins fun r => r.id == id && (from_ == 0 || r.generation == from_))
      s.toLogins (s.endSession id state from_).toLogins := by
  refine Moves.amend hwf ?_ ?_ ""
  · exact fun r => ⟨rfl, rfl⟩
  · exact fun r _ _ => Nat.lt_succ_self r.generation

theorem Moves.block {s : Vault} (hwf : s.Wf) (owner : Int × String) :
    Moves cipher box (hitTokens s.toLogins fun r => r.owner == owner) s.toLogins
      (s.block owner).toLogins := by
  refine Moves.amend hwf ?_ ?_ ""
  · exact fun r => ⟨rfl, rfl⟩
  · exact fun r _ _ => Nat.lt_succ_self r.generation

/-- A new login. -/
theorem Moves.insert {s : Vault} {db : Secrets} {value : String} (lost : SecretId → Prop)
    (hwf : s.Wf) (hid : r.id = s.nextId) (hgen : 0 < r.generation)
    (hdb : s.db.insert (tokenId r) value = .ok db) :
    Moves cipher box lost s.toLogins ⟨db, s.sessions ++ [r], s.nextId + 1⟩ := by
  have hkeeps := keeps_insert hdb
  have hmem : ∀ r', r' ∈ s.sessions ++ [r] → r' ∈ s.sessions ∨ r' = r := by
    intro r' hr'
    simpa using hr'
  refine ⟨⟨?_, ?_, ?_, ?_⟩, Nat.le_succ _, ?_, fun row hrow _ => hkeeps.others row hrow not_false⟩
  · rw [List.map_append, List.nodup_append]
    refine ⟨hwf.ids, List.nodup_singleton _, ?_⟩
    rintro id hold id' hnew rfl
    obtain ⟨r', hr', rfl⟩ := List.mem_map.mp hold
    have hlt := hwf.known r' hr'
    simp only [List.map_cons, List.map_nil, List.mem_singleton] at hnew
    omega
  · intro r' hr'
    rcases hmem r' hr' with hold | rfl
    · exact Nat.lt_succ_of_lt (hwf.known r' hold)
    · rw [hid]
      exact Nat.lt_succ_self _
  · intro r' hr'
    rcases hmem r' hr' with hold | rfl
    · exact hwf.started r' hold
    · exact hgen
  · intro r' hr'
    rcases hmem r' hr' with hold | rfl
    · obtain ⟨value', hrow⟩ := hwf.tokens r' hold
      exact hkeeps.ids _ hrow
    · refine ⟨value, ?_⟩
      rw [rows_insert hdb]
      exact List.mem_append_right _ List.mem_cons_self
  · intro r' hr'
    rcases hmem r' hr' with hold | rfl
    · exact hwf.evolves_same hold fun _ hrow => hkeeps.others _ hrow not_false
    · exact .fresh hid.ge

theorem Moves.login {s next : Vault} {lockReason : String} {drawn : Check Nonce} (hwf : s.Wf)
    (h : s.login cipher box lockReason drawn v = .ok next) :
    Moves cipher box (hitTokens s.toLogins fun r => r.owner == v.owner) s.toLogins next.toLogins ∧
      next.ticks = s.ticks ∧ next.renewals = s.renewals := by
  unfold Vault.login at h
  split at h
  · cases h
  · split at h
    · simp only [bind_eq_ok, pure_eq_ok] at h
      obtain ⟨sealed, -, db, hdb, rfl⟩ := h
      exact ⟨Moves.insert _ hwf rfl Nat.one_pos hdb, rfl, rfl⟩
    · rename_i row hrow
      simp only [bind_eq_ok, pure_eq_ok] at h
      obtain ⟨sealed, -, rfl⟩ := h
      have hmem := List.mem_of_find?_eq_some hrow
      have hsame : ∀ r ∈ s.sessions, (r.id == row.id) = true → r = row := by
        intro r hr hhit
        exact hwf.eq_of_id hr hmem (by simpa using hhit)
      refine ⟨(Moves.amend hwf ?_ ?_ sealed).mono ?_, rfl, rfl⟩
      · exact fun r => ⟨rfl, rfl⟩
      · intro r hr hhit
        rw [hsame r hr hhit]
        exact Nat.lt_succ_self _
      · rintro stored - ⟨r, hr, hhit, htoken⟩
        refine ⟨r, hr, ?_, htoken⟩
        have howner : (row.owner == v.owner) = true := by
          simpa using List.find?_some hrow
        rw [hsame r hr hhit]
        exact howner

end Sessions

/-! ### Steps and runs

`Vault.Proceeds` says what a step other than a start does to the secrets and to the logins;
the run lemma follows one value that does not open. -/

section Runs

variable (cipher : Cipher) (box : Box)

/-- What every state of a run has. -/
structure Vault.Good (s : Vault) : Prop where
  wf : s.Wf
  current : ∀ v ∈ s.snapshots, s.Current cipher box v

/-- The secrets that a step may write to: those that it is asked for, and those that open. -/
def Vault.mayGo (s : Vault) (act : Act) (id : SecretId) : Prop :=
  s.asked id act = true ∨ ∃ value, (id, value) ∈ s.db.rows ∧ opens cipher box (id, value) = true

variable {cipher box} {lockReason : String} {s next : Vault} {act : Act}

theorem mayGo_of_tokenOpens {r : VPNSession} (hwf : s.Wf) (hr : r ∈ s.sessions)
    (h : s.tokenOpens cipher box r = true) : s.mayGo cipher box act (tokenId r) := by
  obtain ⟨value, hrow⟩ := hwf.tokens r hr
  exact Or.inr ⟨value, hrow, tokenOpens_iff.mp h value hrow⟩

theorem Moves.commit {result : Check Secrets} {asked : SecretId → Prop} (hwf : s.Wf)
    (h : ∀ db, result = .ok db → Keeps asked s.db db)
    (hmay : ∀ id, asked id → s.mayGo cipher box act id)
    (htokens : ∀ id, asked id → id.column ≠ vpnSessionsColumn) :
    Moves cipher box (s.mayGo cipher box act) s.toLogins (s.commit result).toLogins ∧
      (s.commit result).snapshots = s.snapshots := by
  cases result with
  | error why => exact ⟨Moves.idle _ hwf, rfl⟩
  | ok db =>
      refine ⟨Moves.mono (Moves.stores hwf (h db rfl) ?_) fun row _ => hmay row.1, rfl⟩
      intro r _ hasked
      exact htokens _ hasked rfl

/-- A tick that lapses a login whose deadline has passed. -/
theorem Moves.lapse {k j : Nat} {tick : Tick} {v : VPNSession} (hwf : s.Wf)
    (hv : s.Current cipher box v) (htick : s.ticks[k]? = some tick) (hleft : tick.left[j]? = some v)
    (hactive : v.state = .active) (hlive : v.live tick.now = false) :
    Moves cipher box (s.mayGo cipher box (.visit k j)) s.toLogins
      (s.endSession v.id .lapsed v.generation).toLogins := by
  refine (Moves.endSession hwf v.id .lapsed v.generation).mono ?_
  rintro row - ⟨r, hr, hhit, heq⟩
  have hstarted := hv.started
  simp only [Bool.and_eq_true, Bool.or_eq_true, beq_iff_eq] at hhit
  obtain ⟨hid, hgen⟩ := hhit
  rw [heq]
  rcases (hv.rows r hr hid).2 (by omega) with hopens | huntil
  · exact mayGo_of_tokenOpens hwf hr hopens
  · have hpassed : v.accessUntil ≤ tick.now := by
      simpa [VPNSession.live, hactive] using hlive
    refine Or.inl ?_
    simp only [Vault.asked, htick, hleft, List.any_eq_true, Bool.and_eq_true, beq_iff_eq,
      decide_eq_true_eq]
    exact ⟨r, hr, ⟨hid, by omega⟩, rfl⟩

/-- The end of a renewal. -/
theorem Moves.settle {i : Nat} {n : Renewal} {cfg : VpnLease.Settings} {a : Answer}
    {drawn : Check Nonce} (hwf : s.Wf) (hcurrent : s.Current cipher box n.session)
    (hrenewal : s.renewals[i]? = some n)
    (hspares : s.sparesTokens cipher box (.answer cfg i a drawn) = true) :
    Moves cipher box (s.mayGo cipher box (.answer cfg i a drawn)) s.toLogins
      (s.settle cipher box lockReason drawn n.session
        (VpnLease.renewLease cfg n.session a)).toLogins := by
  have hopens : ∀ r ∈ s.sessions, r.id = n.session.id → r.generation = n.session.generation →
      s.tokenOpens cipher box r = true := by
    intro r hr hid hgen
    simp only [Vault.sparesTokens, hrenewal, List.all_eq_true] at hspares
    have hr' := hspares r hr
    simpa [hid, hgen] using hr'
  cases hdecision : VpnLease.renewLease cfg n.session a with
  | lapse =>
      refine (Moves.endSession hwf n.session.id .lapsed n.session.generation).mono ?_
      rintro row - ⟨r, hr, hhit, heq⟩
      have hstarted := hcurrent.started
      simp only [Bool.and_eq_true, Bool.or_eq_true, beq_iff_eq] at hhit
      rw [heq]
      exact mayGo_of_tokenOpens hwf hr (hopens r hr hhit.1 (by omega))
  | transient =>
      refine Moves.mark _ hwf ?_ ?_ ?_
      · exact fun r => ⟨rfl, rfl⟩
      · exact fun r => rfl
      · intro r hr hhit
        simp only [Bool.and_eq_true, beq_iff_eq] at hhit
        exact hopens r hr hhit.1.1.1 hhit.1.1.2
  | renew renewed =>
      simp only [Vault.settle]
      split
      · exact Moves.idle _ hwf
      · rename_i sealed _
        refine (Moves.amend hwf ?_ ?_ sealed).mono ?_
        · exact fun r => ⟨rfl, rfl⟩
        · exact fun r _ _ => Nat.lt_succ_self r.generation
        · rintro row - ⟨r, hr, hhit, heq⟩
          simp only [VpnLease.renews, Bool.and_eq_true, beq_iff_eq] at hhit
          rw [heq]
          exact mayGo_of_tokenOpens hwf hr
            (hopens r hr (hhit.1.1.trans (VpnLease.renewLease_id hdecision)) hhit.1.2)

/-- A tick reads the logins as they are. -/
theorem current_scan {r : VPNSession} (hwf : s.Wf) (hr : r ∈ s.sessions) :
    s.Current cipher box (scanVPNSession cipher box s.db r) where
  known := hwf.known r hr
  started := hwf.started r hr
  rows r' hr' hid := by
    obtain rfl := hwf.eq_of_id hr' hr hid
    exact ⟨Nat.le_refl _, fun _ => Or.inr rfl⟩

theorem mem_snapshots {v : VPNSession} : v ∈ s.snapshots ↔
    (∃ tick ∈ s.ticks, v ∈ tick.left) ∨ ∃ n ∈ s.renewals, n.session = v := by
  simp [Vault.snapshots]

theorem visit_moves {k j : Nat} {tick : Tick} {v : VPNSession} (hgood : s.Good cipher box)
    (htick : s.ticks[k]? = some tick) (hleft : tick.left[j]? = some v) :
    Moves cipher box (s.mayGo cipher box (.visit k j)) s.toLogins (s.visit k tick.now v).toLogins ∧
      ((s.visit k tick.now v).renewals = s.renewals ∨
        (s.visit k tick.now v).renewals = s.renewals ++ [⟨v, k, .running⟩]) := by
  have hv : s.Current cipher box v := hgood.current v (mem_snapshots.mpr
    (Or.inl ⟨tick, List.mem_of_getElem? htick, List.mem_of_getElem? hleft⟩))
  unfold Vault.visit
  split
  · exact ⟨Moves.idle _ hgood.wf, Or.inl rfl⟩
  · rename_i hactive
    split
    · rename_i hlive
      refine ⟨Moves.lapse hgood.wf hv htick hleft ?_ ?_, Or.inl rfl⟩
      · simpa using hactive
      · simpa using hlive
    · split
      · exact ⟨Moves.idle _ hgood.wf, Or.inr rfl⟩
      · exact ⟨Moves.idle _ hgood.wf, Or.inl rfl⟩

/-! ### Steps other than a start

A step keeps every value, but for those it was asked to change and the tokens that open. -/

/-- What a step other than a start does. -/
def Vault.Proceeds (cipher : Cipher) (box : Box) (s : Vault) (act : Act) (next : Vault) : Prop :=
  Moves cipher box (s.mayGo cipher box act) s.toLogins next.toLogins ∧
    ∀ v ∈ next.snapshots, v ∈ s.snapshots ∨ s.Current cipher box v

theorem Vault.Proceeds.of_eq
    (h : Moves cipher box (s.mayGo cipher box act) s.toLogins next.toLogins ∧
      next.snapshots = s.snapshots) : s.Proceeds cipher box act next :=
  ⟨h.1, fun _ hv => Or.inl (h.2 ▸ hv)⟩

theorem proceeds_visit {k j : Nat} (hgood : s.Good cipher box)
    (h : s.step cipher box lockReason (.visit k j) = some next) :
    s.Proceeds cipher box (.visit k j) next := by
  simp only [Vault.step] at h
  split at h
  · cases h
  rename_i tick htick
  split at h
  · cases h
  rename_i v hleft
  obtain rfl := Option.some.inj h
  obtain ⟨hmoves, hrenewals⟩ := visit_moves hgood htick hleft
  refine ⟨hmoves, fun w hw => Or.inl (mem_snapshots.mpr ?_)⟩
  rcases mem_snapshots.mp hw with ⟨other, hother, hin⟩ | ⟨n, hn, rfl⟩
  · rcases List.mem_or_eq_of_mem_set hother with hold | rfl
    · exact Or.inl ⟨other, hold, hin⟩
    · exact Or.inl ⟨tick, List.mem_of_getElem? htick, List.mem_of_mem_eraseIdx hin⟩
  · rcases hrenewals with heq | heq
    · exact Or.inr ⟨n, heq ▸ hn, rfl⟩
    · rcases List.mem_append.mp (heq ▸ hn) with hold | hnew
      · exact Or.inr ⟨n, hold, rfl⟩
      · obtain rfl := List.mem_singleton.mp hnew
        exact Or.inl ⟨tick, List.mem_of_getElem? htick, List.mem_of_getElem? hleft⟩

theorem proceeds_answer {cfg : VpnLease.Settings} {i : Nat} {a : Answer} {drawn : Check Nonce}
    (hgood : s.Good cipher box)
    (hspares : s.sparesTokens cipher box (.answer cfg i a drawn) = true)
    (h : s.step cipher box lockReason (.answer cfg i a drawn) = some next) :
    s.Proceeds cipher box (.answer cfg i a drawn) next := by
  simp only [Vault.step] at h
  split at h
  · cases h
  rename_i n hn
  split at h
  · obtain rfl := Option.some.inj h
    have hmem := List.mem_of_getElem? hn
    have hcurrent := hgood.current n.session (mem_snapshots.mpr (Or.inr ⟨n, hmem, rfl⟩))
    refine ⟨Moves.settle hgood.wf hcurrent hn hspares, fun v hv => Or.inl (mem_snapshots.mpr ?_)⟩
    have hticks : (s.settle cipher box lockReason drawn n.session
        (VpnLease.renewLease cfg n.session a)).ticks = s.ticks := by
      cases VpnLease.renewLease cfg n.session a with
      | lapse => rfl
      | transient => rfl
      | renew renewed =>
          simp only [Vault.settle]
          split <;> rfl
    rcases mem_snapshots.mp hv with ⟨tick, htick, hin⟩ | ⟨other, hother, rfl⟩
    · exact Or.inl ⟨tick, hticks ▸ htick, hin⟩
    · rcases List.mem_or_eq_of_mem_set hother with hold | rfl
      · exact Or.inr ⟨other, hold, rfl⟩
      · exact Or.inr ⟨n, hmem, rfl⟩
  · cases h

theorem proceeds_commit {result : Check Secrets} (asked : SecretId → Prop)
    (hgood : s.Good cipher box) (h : ∀ db, result = .ok db → Keeps asked s.db db)
    (hmay : ∀ id, asked id → s.mayGo cipher box act id)
    (htokens : ∀ id, asked id → id.column ≠ vpnSessionsColumn) (hnext : s.commit result = next) :
    s.Proceeds cipher box act next := by
  subst hnext
  exact .of_eq (Moves.commit hgood.wf h hmay htokens)

/-- The steps that write to the secrets of other tables. -/
theorem proceeds_create {id : SecretId} {plain : String} {drawn : Check Nonce}
    (hgood : s.Good cipher box)
    (h : s.commit (createSecret cipher box lockReason drawn s.db id plain) = next) :
    s.Proceeds cipher box act next := by
  refine proceeds_commit (fun _ => False) hgood ?_ ?_ ?_ h
  · exact fun _ hdb => keeps_createSecret hdb
  · exact fun _ hfalse => hfalse.elim
  · exact fun _ hfalse => hfalse.elim

theorem proceeds_replace {id : SecretId} {plain : String} {drawn : Check Nonce}
    (hgood : s.Good cipher box) (hid : id.column ≠ vpnSessionsColumn)
    (hasked : s.asked id act = true)
    (h : s.commit (replaceSecret cipher box lockReason drawn s.db id plain) = next) :
    s.Proceeds cipher box act next := by
  refine proceeds_commit (· = id) hgood ?_ ?_ ?_ h
  · exact fun _ hdb => keeps_replaceSecret hid hdb
  · rintro _ rfl
    exact Or.inl hasked
  · rintro _ rfl
    exact hid

/-- Every step but a start. -/
theorem proceeds (hgood : s.Good cipher box) (hspares : s.sparesTokens cipher box act = true)
    (h : s.step cipher box lockReason act = some next)
    (hstart : ∀ nonce answers, act ≠ .start nonce answers) : s.Proceeds cipher box act next := by
  cases act with
  | start nonce answers => exact absurd rfl (hstart nonce answers)
  | make key value drawn =>
      refine proceeds_commit (fun id => id = .setting key ∧ (id, "") ∈ s.db.rows) hgood
        ?_ ?_ ?_ (Option.some.inj h)
      · intro db hdb
        cases hinit : initSecretSetting cipher box lockReason drawn s.db key value with
        | error why =>
            rw [hinit] at hdb
            cases hdb
        | ok result =>
            rw [hinit] at hdb
            obtain rfl := Except.ok.inj hdb
            exact keeps_initSecretSetting hinit
      · rintro id ⟨-, hempty⟩
        exact Or.inr ⟨"", hempty, rfl⟩
      · rintro _ ⟨rfl, -⟩
        exact setting_column key
  | read =>
      obtain rfl := Option.some.inj h
      exact .of_eq ⟨Moves.idle _ hgood.wf, rfl⟩
  | putSettings body drawn =>
      have hcommit : s.commit (.ok (setSettings cipher box lockReason drawn s.db (changed body))) =
          next := Option.some.inj h
      refine proceeds_commit (fun id => ∃ entry ∈ changed body, id = .setting entry.1) hgood
        ?_ ?_ ?_ hcommit
      · rintro db hdb
        obtain rfl := Except.ok.inj hdb
        exact keeps_setSettings s.db (changed body)
      · rintro _ ⟨entry, hentry, rfl⟩
        refine Or.inl (List.any_eq_true.mpr ⟨entry, hentry, ?_⟩)
        simp
      · rintro _ ⟨entry, -, rfl⟩
        exact setting_column entry.1
  | createOIDCProvider id secret drawn => exact proceeds_create hgood (Option.some.inj h)
  | createCustomCert id keyPEM drawn => exact proceeds_create hgood (Option.some.inj h)
  | createWGSite id psk drawn => exact proceeds_create hgood (Option.some.inj h)
  | createWGDevice id psk drawn => exact proceeds_create hgood (Option.some.inj h)
  | updateOIDCProvider id secret drawn =>
      refine proceeds_commit (fun row => secret ≠ "" ∧ row = .oidcProvider id) hgood
        (fun db hdb => keeps_updateOIDCProvider hdb) ?_ ?_ (Option.some.inj h)
      · rintro _ ⟨hsecret, rfl⟩
        exact Or.inl (by simp [Vault.asked, hsecret])
      · rintro _ ⟨-, rfl⟩
        simp only [SecretId.column]
        decide
  | updateCustomCertPEM id keyPEM drawn =>
      refine proceeds_replace hgood ?_ ?_ (Option.some.inj h)
      · simp only [SecretId.column]
        decide
      · simp [Vault.asked]
  | setTOTPSecret id secret drawn =>
      refine proceeds_replace hgood ?_ ?_ (Option.some.inj h)
      · simp only [SecretId.column]
        decide
      · simp [Vault.asked]
  | login cfg l drawn =>
      simp only [Vault.step] at h
      split at h
      · rename_i after hlogin
        obtain rfl := Option.some.inj h
        obtain ⟨hmoves, hticks, hrenewals⟩ := Moves.login hgood.wf hlogin
        refine .of_eq ⟨hmoves.mono ?_, by rw [Vault.snapshots, hticks, hrenewals]; rfl⟩
        rintro row - ⟨r, hr, hhit, heq⟩
        refine Or.inl (List.any_eq_true.mpr ⟨r, hr, ?_⟩)
        rw [Bool.and_eq_true]
        exact ⟨hhit, beq_iff_eq.mpr heq⟩
      · obtain rfl := Option.some.inj h
        exact .of_eq ⟨Moves.idle _ hgood.wf, rfl⟩
  | end_ id =>
      obtain rfl := Option.some.inj h
      refine .of_eq ⟨(Moves.endSession hgood.wf id .ended 0).mono ?_, rfl⟩
      rintro row - ⟨r, hr, hhit, heq⟩
      refine Or.inl (List.any_eq_true.mpr ⟨r, hr, ?_⟩)
      rw [Bool.and_eq_true] at hhit ⊢
      exact ⟨hhit.1, beq_iff_eq.mpr heq⟩
  | block owner =>
      obtain rfl := Option.some.inj h
      refine .of_eq ⟨(Moves.block hgood.wf owner).mono ?_, rfl⟩
      rintro row - ⟨r, hr, hhit, heq⟩
      refine Or.inl (List.any_eq_true.mpr ⟨r, hr, ?_⟩)
      rw [Bool.and_eq_true]
      exact ⟨hhit, beq_iff_eq.mpr heq⟩
  | unblock owner =>
      obtain rfl := Option.some.inj h
      exact .of_eq ⟨Moves.idle _ hgood.wf, rfl⟩
  | tick now =>
      obtain rfl := Option.some.inj h
      refine ⟨Moves.idle _ hgood.wf, fun v hv => ?_⟩
      rcases mem_snapshots.mp hv with ⟨other, hother, hin⟩ | hrenewal
      · rcases List.mem_append.mp hother with hold | hnew
        · exact Or.inl (mem_snapshots.mpr (Or.inl ⟨other, hold, hin⟩))
        · obtain rfl := List.mem_singleton.mp hnew
          obtain ⟨r, hr, rfl⟩ := List.mem_map.mp hin
          exact Or.inr (current_scan hgood.wf hr)
      · exact Or.inl (mem_snapshots.mpr (Or.inr hrenewal))
  | visit k j => exact proceeds_visit hgood h
  | answer cfg i a drawn => exact proceeds_answer hgood hspares h

theorem opens_eq_false {row : SecretId × String} (h : opens cipher box row = false)
    (plain : String) :
    box.openValue cipher row.2 row.1.place ≠ .ok plain := by
  intro hopen
  simp [opens, hopen] at h

/-! ### Along a run

A start passes over what does not open.  With the other steps this is the step lemma for one
value that does not open, and the run lemma follows. -/

variable (cipher box) in
/-- A start leaves what does not open. -/
theorem keeps_start (nonce : SecretId → Check Nonce) (answers : Answers) (db : Secrets) :
    Keeps (fun id => ∃ value, (id, value) ∈ db.rows ∧ opens cipher box (id, value) = true) db
      (db.after (sealExisting cipher box nonce answers db)) := by
  cases hresult : sealExisting cipher box nonce answers db with
  | error why => exact Keeps.refl db
  | ok pass =>
      obtain ⟨-, hrows, -⟩ := rows_sealExisting hresult
      have hids : ∀ row ∈ db.rows, ∃ value, (row.1, value) ∈ pass.db.rows := by
        intro row hrow
        refine ⟨(rewritten (sealVisit cipher box nonce) row).2, ?_⟩
        rw [hrows]
        refine List.mem_map.mpr ⟨row, hrow, Prod.ext (rewritten_fst row) rfl⟩
      refine ⟨hids, ?_⟩
      rintro ⟨id, value⟩ hrow hnot
      obtain ⟨value', hvalue'⟩ := hids _ hrow
      have hopens : opens cipher box (id, value) = false := by
        by_contra hopen
        exact hnot ⟨value, hrow, by simpa using hopen⟩
      obtain rfl := (migrated_sealExisting hresult).untouched id value value' hrow hvalue'
        (Or.inr (Or.inr (Or.inr (opens_eq_false hopens))))
      exact hvalue'

/-- One step: the invariant, and the values that do not open. -/
theorem Vault.Good.step (hgood : s.Good cipher box)
    (hspares : s.sparesTokens cipher box act = true)
    (h : s.step cipher box lockReason act = some next) :
    next.Good cipher box ∧ ∀ row ∈ s.db.rows, opens cipher box row = false →
      s.asked row.1 act = false → row ∈ next.db.rows := by
  have hnotMay : ∀ row ∈ s.db.rows, opens cipher box row = false → s.asked row.1 act = false →
      ¬ s.mayGo cipher box act row.1 := by
    rintro ⟨id, value⟩ hrow hopens hasked (hyes | ⟨value', hrow', hopens'⟩)
    · rw [hyes] at hasked
      cases hasked
    · obtain rfl := eq_of_mem_rows s.db hrow hrow'
      rw [hopens'] at hopens
      cases hopens
  by_cases hstart : ∃ nonce answers, act = .start nonce answers
  · obtain ⟨nonce, answers, rfl⟩ := hstart
    obtain rfl := Option.some.inj h
    have hkeeps := keeps_start cipher box nonce answers s.db
    refine ⟨⟨⟨hgood.wf.ids, hgood.wf.known, hgood.wf.started, ?_⟩, ?_⟩, ?_⟩
    · intro r hr
      obtain ⟨value, hrow⟩ := hgood.wf.tokens r hr
      exact hkeeps.ids _ hrow
    · intro v hv
      simp [Vault.snapshots] at hv
    · intro row hrow hopens hasked
      refine hkeeps.others row hrow fun hopen => ?_
      exact hnotMay row hrow hopens hasked (Or.inr hopen)
  · obtain ⟨hmoves, hsnapshots⟩ := proceeds hgood hspares h
      fun nonce answers heq => hstart ⟨nonce, answers, heq⟩
    refine ⟨⟨hmoves.wf, ?_⟩, fun row hrow hopens hasked => ?_⟩
    · intro v hv
      have hcurrent : s.Current cipher box v := by
        rcases hsnapshots v hv with hold | hread
        · exact hgood.current v hold
        · exact hread
      exact hcurrent.advance hmoves.nextId_le hmoves.rows
    · exact hmoves.kept row hrow (hnotMay row hrow hopens hasked)

/-- A value that does not open, along a run. -/
theorem Vault.Good.run {labels : List Act} {row : SecretId × String} (hgood : s.Good cipher box)
    (hrow : row ∈ s.db.rows) (hopens : opens cipher box row = false)
    (hspares : RunMeets (Vault.step cipher box lockReason)
      (fun s act => s.sparesTokens cipher box act = true) s labels)
    (hasked : RunMeets (Vault.step cipher box lockReason)
      (fun s act => s.asked row.1 act = false) s labels)
    (hrun : TransitionSystem.run (Vault.step cipher box lockReason) s labels = some next) :
    row ∈ next.db.rows := by
  induction labels generalizing s with
  | nil =>
      obtain rfl := Option.some.inj hrun
      exact hrow
  | cons act rest ih =>
      obtain ⟨middle, hstep, hrest⟩ := run_cons_eq_some.mp hrun
      obtain ⟨hgood', hkept⟩ := hgood.step hspares.1 hstep
      exact ih hgood' (hkept row hrow hopens hasked.1) (hspares.2 middle hstep)
        (hasked.2 middle hstep) hrest

end Runs

/-! ### Refusals

A locked box seals nothing. -/

/-- The step stores a secret that is not empty. -/
def Act.offers : Act → Bool
  | .make _ plain _ => plain != ""
  | .createOIDCProvider _ plain _ | .updateOIDCProvider _ plain _ => plain != ""
  | .createCustomCert _ plain _ | .updateCustomCertPEM _ plain _ => plain != ""
  | .createWGSite _ plain _ | .createWGDevice _ plain _ => plain != ""
  | .setTOTPSecret _ plain _ => plain != ""
  | .login _ l _ => l.refreshToken != ""
  | _ => false

section Refusals

variable {cipher : Cipher} {box : Box} {lockReason : String} {drawn : Check Nonce} {s : Vault}

variable (cipher lockReason drawn) in
theorem sealSecret_locked (hbox : box.usable = false) {plain : String} (hplain : plain ≠ "")
    (place : String) : ∃ why, sealSecret cipher box lockReason drawn plain place = .error why := by
  rw [sealSecret, if_neg hplain, if_pos hbox]
  exact ⟨_, rfl⟩

theorem bind_error {α β : Type} {x : Check α} {f : α → Check β} (h : ∃ why, x = .error why) :
    ∃ why, (x >>= f) = .error why := by
  obtain ⟨why, rfl⟩ := h
  exact ⟨why, rfl⟩

theorem commit_error {result : Check Secrets} (h : ∃ why, result = .error why) :
    s.commit result = s := by
  obtain ⟨why, rfl⟩ := h
  rfl

theorem createSecret_locked (hbox : box.usable = false) {plain : String} (hplain : plain ≠ "")
    (db : Secrets) (id : SecretId) :
    ∃ why, createSecret cipher box lockReason drawn db id plain = .error why := by
  unfold createSecret
  cases db.insert id "" with
  | error why => exact ⟨why, rfl⟩
  | ok next =>
      obtain ⟨why, hwhy⟩ := sealSecret_locked cipher lockReason drawn hbox hplain id.writerPlace
      exact ⟨why, by simp [hwhy, bind, Except.bind]⟩

theorem replaceSecret_locked (hbox : box.usable = false) {plain : String} (hplain : plain ≠ "")
    (db : Secrets) (id : SecretId) :
    ∃ why, replaceSecret cipher box lockReason drawn db id plain = .error why :=
  bind_error (sealSecret_locked cipher lockReason drawn hbox hplain id.writerPlace)

theorem setSetting_locked (hbox : box.usable = false) {key value : String}
    (hkey : secretSettings.contains key = true) (hvalue : value ≠ "") (db : Secrets) :
    ∃ why, setSetting cipher box lockReason drawn db key value = .error why := by
  rw [setSetting, if_pos hkey]
  exact bind_error (sealSecret_locked cipher lockReason drawn hbox hvalue _)

variable (cipher lockReason drawn s) in
theorem login_locked (hbox : box.usable = false) (v : VPNSession) (hv : v.refreshToken ≠ "") :
    ∃ why, s.login cipher box lockReason drawn v = .error why := by
  unfold Vault.login
  split
  · exact ⟨_, rfl⟩
  · split
    · exact bind_error (sealSecret_locked cipher lockReason drawn hbox hv _)
    · exact bind_error (sealSecret_locked cipher lockReason drawn hbox hv _)

/-- A locked store takes no new secret. -/
theorem offers_locked (hbox : box.usable = false) {act : Act} (hact : act.offers = true) :
    s.step cipher box lockReason act = some s := by
  cases act with
  | make key value drawn =>
      obtain ⟨why, hwhy⟩ := sealSecret_locked cipher lockReason drawn hbox (bne_iff_ne.mp hact)
        (settingAAD key)
      simp only [Vault.step, initSecretSetting, hwhy]
      rfl
  | createOIDCProvider id secret drawn =>
      exact congrArg some (commit_error (createSecret_locked hbox (bne_iff_ne.mp hact) _ _))
  | createCustomCert id keyPEM drawn =>
      exact congrArg some (commit_error (createSecret_locked hbox (bne_iff_ne.mp hact) _ _))
  | createWGSite id psk drawn =>
      exact congrArg some (commit_error (createSecret_locked hbox (bne_iff_ne.mp hact) _ _))
  | createWGDevice id psk drawn =>
      exact congrArg some (commit_error (createSecret_locked hbox (bne_iff_ne.mp hact) _ _))
  | updateOIDCProvider id secret drawn =>
      refine congrArg some (commit_error ?_)
      unfold updateOIDCProvider
      split
      · exact ⟨_, rfl⟩
      · rw [if_neg (bne_iff_ne.mp hact)]
        exact replaceSecret_locked hbox (bne_iff_ne.mp hact) _ _
  | updateCustomCertPEM id keyPEM drawn =>
      exact congrArg some (commit_error (replaceSecret_locked hbox (bne_iff_ne.mp hact) _ _))
  | setTOTPSecret id secret drawn =>
      exact congrArg some (commit_error (replaceSecret_locked hbox (bne_iff_ne.mp hact) _ _))
  | login cfg l drawn =>
      obtain ⟨why, hwhy⟩ := login_locked cipher lockReason drawn s hbox
        (VpnLease.loginSession cfg l) (bne_iff_ne.mp hact)
      simp only [Vault.step, hwhy]
  | _ => cases hact

end Refusals

/-- A store that is locked, or that holds values that do not open, loses none of them: along every
run, a value that does not open is there until somebody asks for a change of it or its login is
past its deadline, as long as no renewal ends on a login whose token does not open. While
the store is locked no new secret is taken, and a secret that quicgate makes itself never replaces
a stored one. -/
theorem locked_store_loses_nothing (cipher : Cipher) (box : Box) (lockReason : String) :
    (∀ (start s t : Vault) (before labels : List Act), start.Wf → start.ticks = [] →
      start.renewals = [] →
      run (Vault.step cipher box lockReason) start before = some s →
      run (Vault.step cipher box lockReason) s labels = some t →
      RunMeets (Vault.step cipher box lockReason)
        (fun s act => s.sparesTokens cipher box act = true) start (before ++ labels) →
      ∀ row ∈ s.db.rows, opens cipher box row = false →
        RunMeets (Vault.step cipher box lockReason)
          (fun s act => s.asked row.1 act = false) s labels →
        row ∈ t.db.rows) ∧
    (box.usable = false →
      (∀ (s : Vault) act, act.offers = true → s.step cipher box lockReason act = some s) ∧
      (∀ drawn db key value, secretSettings.contains key = true → value ≠ "" →
        ∃ why, setSetting cipher box lockReason drawn db key value = .error why) ∧
      ∀ drawn (s : Vault) n next, next.refreshToken ≠ "" →
        s.settle cipher box lockReason drawn n (.renew next) = s) ∧
    (∀ drawn db key value db' stored,
      initSecretSetting cipher box lockReason drawn db key value = .ok (db', stored) →
      ∀ row ∈ db.rows, row.2 ≠ "" → row ∈ db'.rows) := by
  refine ⟨?_, ?_, ?_⟩
  · intro start s t before labels hwf hticks hrenewals hbefore hrun hspares row hrow hopens hasked
    have hstart : start.Good cipher box := by
      refine ⟨hwf, fun v hv => ?_⟩
      simp [Vault.snapshots, hticks, hrenewals] at hv
    have hgood : s.Good cipher box := RunMeets.invariant
      (fun _ _ _ hs hallowed hstep => (Vault.Good.step hs hallowed hstep).1) hspares.left hstart
      hbefore
    exact hgood.run hrow hopens (hspares.of_append hbefore) hasked hrun
  · intro hbox
    refine ⟨fun s act hact => offers_locked hbox hact, ?_, ?_⟩
    · intro drawn db key value hkey hvalue
      exact setSetting_locked hbox hkey hvalue db
    · intro drawn s n next hnext
      obtain ⟨why, hwhy⟩ := sealSecret_locked cipher lockReason drawn hbox hnext
        (sessionTokenAAD next.id next.provider next.sub)
      simp only [Vault.settle, hwhy]
  · intro drawn db key value db' stored hinit row hrow hvalue
    refine (keeps_initSecretSetting hinit).others row hrow ?_
    rintro ⟨-, hempty⟩
    exact hvalue (eq_of_mem_rows db hrow hempty)

/-! ### A store whose key is missing

One token and one setting under a key that is gone. -/

def sealedKey : String := "qgs1.0a1b2c3d.AAECAwQFBgcICQoL"
def sealedToken : String := "qgs1.0a1b2c3d.DA0ODxAREhMUFRYX"

def aliceSession : VPNSession where
  id := 1
  provider := 7
  sub := "alice"
  email := "alice@example.org"
  groups := []
  refreshToken := ""
  loginAt := 0
  renewedAt := 0
  leaseUntil := 1000
  graceUntil := 1000
  hardUntil := 5000
  transient := false
  state := .active
  generation := 1

def lostKey : Vault where
  db :=
    { rows := [(.setting "wg_private_key", sealedKey), (.vpnSession 1 7 "alice", sealedToken)]
      keysUnique := by decide +kernel }
  sessions := [aliceSession]
  nextId := 2
  blocked := []
  ticks := []
  renewals := []

theorem lostKey_wf : lostKey.Wf where
  ids := by decide
  known := by decide
  started := by decide
  tokens := by
    intro r hr
    obtain rfl := List.mem_singleton.mp hr
    exact ⟨_, List.mem_cons_of_mem _ List.mem_cons_self⟩

def leaseSettings : VpnLease.Settings := ⟨60, 0, 30⟩

/-- A start, a reload, a settings update with the mask, and a tick early in the lease. -/
def quietRun : List Act :=
  [.start (fun _ => .ok someNonce) allWell, .make "wg_private_key" "new" (.ok someNonce),
    .putSettings [("oidc_client_secret", secretMask), ("acme_email", "ops@example.org")]
      (fun _ => .ok someNonce), .tick 100, .visit 0 0]

theorem locked_store_loses_nothing_quietRun :
    ∃ t, run (Vault.step openCipher .locked "no key") lostKey quietRun = some t ∧
      ∀ row ∈ lostKey.db.rows, row ∈ t.db.rows := by
  obtain ⟨t, hrun, -⟩ := Option.map_eq_some_iff.mp
    (show (run (Vault.step openCipher .locked "no key") lostKey quietRun).map
      (fun t => t.renewals.length) = some 0 by decide +kernel)
  refine ⟨t, hrun, ?_⟩
  have hsound := (locked_store_loses_nothing openCipher .locked "no key").1 lostKey lostKey t []
    quietRun lostKey_wf rfl rfl rfl hrun (by decide +kernel)
  have hchecked : ∀ row ∈ lostKey.db.rows, opens openCipher .locked row = false ∧
      RunMeets (Vault.step openCipher .locked "no key")
        (fun s act => s.asked row.1 act = false) lostKey quietRun := by
    decide +kernel
  intro row hrow
  exact hsound row hrow (hchecked row hrow).1 (hchecked row hrow).2

/-- A tick in the second half of the lease, long before its end, and the renewal that it starts. -/
def renewalRun : List Act :=
  [.tick 600, .visit 0 0, .answer leaseSettings 0 .unreachable (.ok someNonce)]

/-- The renewal finds no token, and the stored one is wiped while the lease is live. -/
theorem renewal_wipes_locked_token :
    lostKey.Wf ∧ lostKey.ticks = [] ∧ lostKey.renewals = [] ∧
    ∃ t row, run (Vault.step openCipher .locked "no key") lostKey renewalRun = some t ∧
      row ∈ lostKey.db.rows ∧ opens openCipher .locked row = false ∧
      RunMeets (Vault.step openCipher .locked "no key")
        (fun s act => s.asked row.1 act = false) lostKey renewalRun ∧
      row ∉ t.db.rows := by
  refine ⟨lostKey_wf, rfl, rfl, ?_⟩
  obtain ⟨t, hrun, hrows⟩ := Option.map_eq_some_iff.mp
    (show (run (Vault.step openCipher .locked "no key") lostKey renewalRun).map
      (fun t => t.db.rows) =
        some [(.setting "wg_private_key", sealedKey), (.vpnSession 1 7 "alice", "")] by
      decide +kernel)
  refine ⟨t, (.vpnSession 1 7 "alice", sealedToken), hrun,
    List.mem_cons_of_mem _ List.mem_cons_self, by decide +kernel, by decide +kernel, ?_⟩
  rw [hrows]
  decide +kernel

end Quicgate.Store
