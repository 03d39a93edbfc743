import Quicgate.SealedStore
import Quicgate.TransitionSystem

/-!
# Starts of the program and the keys they find

At every start the program looks for the keys of its secrets (`src/internal/seal/seal.go`,
`Load`), makes one when there is none and nothing is sealed yet, and seals what is in
plaintext or under an older key (`initSeal` in `src/internal/store/sealed.go`).  Between starts
the operator edits what the keys are read from, to rotate them or to move them elsewhere.

`secrets_survive` is about any sequence of starts, edits and other work on the database: as
long as the operator drops no key that has been in use, a secret that could be read can be
read after every later start that finds keys at all.
-/

namespace Quicgate.SealStarts

open Quicgate.GoStrings Quicgate.GoNet Quicgate.GoMaps Quicgate.Base64 Quicgate.Checks Quicgate.Seal
open Quicgate.Store Quicgate.TransitionSystem

/-! ### The key text

A key text has one key to a line, in base64; blank lines and comments are skipped. -/

def parseKey (line : List Char) : Option Key :=
  match (base64Decode line).or (rawStdDecode line) with
  | some k => if h : k.length = 32 then some ⟨k, h⟩ else none
  | none => none

def skipped (line : List Char) : Bool := line = [] || line.head? = some '#'

def parseKeys (text : List Char) : Check (List Key) :=
  match (((text.splitOn '\n').map trimSpace).filter (!skipped ·)).mapM parseKey with
  | none => .error "a key must be 32 bytes in base64"
  | some [] => .error "no key found"
  | some keys => .ok keys

def keyFileComment : List Char :=
  ("# quicgate secret key. It opens the secrets in quicgate.db. " ++
    "Keep it out of backups you share.").toList

/-- What `Load` writes into a new key file. -/
def keyFileText (key : Key) : List Char := keyFileComment ++ '\n' :: (encode key.1 ++ ['\n'])

/-! ### Where the keys come from

Three places, in the order in which they are asked; a key is made in the data directory only. -/

inductive KeyFile where
  | absent
  | unreadable (why : String)
  | text (s : List Char)

/-- What the operator controls: the file that `QG_SECRET_KEY_FILE` names, if it names one, the
text of `QG_SECRET_KEY`, and the file in the data directory. -/
structure Sources where
  keyFileVar : Option (Check (List Char))
  keyVar : Option (List Char)
  keyFile : KeyFile

/-- What is read of the keys, unless there are none anywhere. -/
def Sources.read (src : Sources) : Option (Check (List Key)) :=
  match src.keyFileVar with
  | some content => some (content.bind parseKeys)
  | none =>
    match src.keyVar with
    | some text => some (parseKeys text)
    | none =>
      match src.keyFile with
      | .text text => some (parseKeys text)
      | .unreadable why => some (.error why)
      | .absent => none

/-- What the system answers while a key is made: the random key, and what is left of the file
when it cannot be written. -/
structure Making where
  drawn : Check Key
  failed : Option KeyFile

def load (src : Sources) (mayCreate : Bool) (making : Making) : Check (List Key) × Sources :=
  match src.read with
  | some keys => (keys, src)
  | none =>
    if !mayCreate then
      (.error ("sealed with a key that is not available: secret.key is missing and neither " ++
        "QG_SECRET_KEY_FILE nor QG_SECRET_KEY is set"), src)
    else match making.drawn with
    | .error why => (.error why, src)
    | .ok key =>
      match making.failed with
      | some left => (.error "the key file cannot be written", { src with keyFile := left })
      | none => (.ok [key], { src with keyFile := .text (keyFileText key) })

/-! ### The start

`initSeal` with what it asks: whether anything is sealed, and with which keys. -/

/-- `LIKE 'qgs1.%'`, which folds ASCII, and the key id between the first two dots. -/
def sealedKeyID (value : String) : Option (List Char) :=
  if marker.isPrefixOf (value.toList.map Char.toLower) then
    match Box.parts value with
    | (id, _, true) => some id
    | _ => none
  else none

def sealedKeyIDs (db : Secrets) : List (List Char) :=
  db.rows.filterMap fun row => if row.1.selected then sealedKeyID row.2 else none

section Start

variable (cipher : Cipher)

/-- `New`, on the keys of a text.  Without a key there is no box. -/
def boxOf : List Key → Box
  | [] => .locked
  | first :: others => .new cipher first others

def hasKey (box : Box) (id : List Char) : Bool := (box.keys.lookup (String.ofList id)).isSome

/-- What the surroundings answer to a start: whether the stored secrets can be inspected, what
making a key comes to, and what `sealExisting` draws and is answered. -/
structure Start where
  inspected : Check Unit
  making : Making
  nonce : SecretId → Check Nonce
  answers : Answers

/-- The sources, the database and the box of the running program.  `known` are the keys that the
last start with a box found. -/
structure State where
  src : Sources
  db : Secrets
  box : Box
  known : List Key

def off (src : Sources) (db : Secrets) : State := ⟨src, db, .locked, []⟩

def initSeal (s : State) (st : Start) : State :=
  match st.inspected with
  | .error _ => { s with box := .locked }
  | .ok () =>
    match load s.src (sealedKeyIDs s.db).isEmpty st.making with
    | (.error _, src) => { s with src, box := .locked }
    | (.ok keys, src) =>
      if !(sealedKeyIDs s.db).isEmpty && !(sealedKeyIDs s.db).any (hasKey (boxOf cipher keys)) then
        { s with src, box := .locked }
      else
        { src
          db := s.db.after (sealExisting cipher (boxOf cipher keys) st.nonce st.answers s.db)
          box := boxOf cipher keys
          known := keys }

inductive Label where
  | start (st : Start)
  /-- The operator changes what the keys are read from. -/
  | edit (src : Sources)
  /-- The rest of the program changes the database. -/
  | work (db : Secrets)

def step (s : State) : Label → Option State
  | .start st => some (initSeal cipher s st)
  | .edit src => some { s with src }
  | .work db => some { s with db }

/-- Whatever keys the sources hold, the known ones are among them, and no two have one id. -/
def KeepsKeys (known : List Key) (src : Sources) : Prop :=
  ∀ keys, src.read = some (.ok keys) → known ⊆ keys ∧ (keys.map (keyID cipher)).Nodup

/-- The operator drops no key that has been in use, nor does a key file that fails to be written. -/
def Careful (s : State) : Label → Prop
  | .edit src => KeepsKeys cipher s.known src
  | .start st => ∀ left, st.making.failed = some left →
      KeepsKeys cipher s.known { s.src with keyFile := left }
  | .work _ => True

end Start

/-- The step leaves the row of the secret to the starts. -/
def KeepsRow (id : SecretId) (s : State) : Label → Prop
  | .work db => ∀ value, (id, value) ∈ s.db.rows → (id, value) ∈ db.rows
  | _ => True

/-! ### A made key is read back

What is written into a new key file is read as that key. -/

theorem parseKey_encode (key : Key) : parseKey (encode key.1) = some key := by
  simp [parseKey, base64Decode_encode, key.2]

theorem newline_not_mem_encode (bytes : List UInt8) : '\n' ∉ encode bytes := by
  intro h
  have hall := forall_mem_encode (P := (· ≠ '\n')) (fun n hn => (digit_spec n hn).2.2.2)
    (by decide) bytes
  exact hall _ h rfl

theorem not_skipped_encode (key : Key) : skipped (encode key.1) = false := by
  obtain ⟨bytes, hlen⟩ := key
  have hhash := forall_mem_encode (P := (· ≠ '#')) (by decide) (by decide) bytes
  cases hline : encode bytes with
  | nil =>
      have hnone := base64Decode_encode bytes
      rw [hline] at hnone
      obtain rfl : bytes = [] := (Option.some.inj hnone).symm
      simp at hlen
  | cons c rest =>
      have hc : c ≠ '#' := hhash c (hline ▸ List.mem_cons_self)
      simp [skipped, hc]

theorem parseKeys_keyFileText (key : Key) : parseKeys (keyFileText key) = .ok [key] := by
  have hline : '\n' ∉ keyFileComment := by decide +kernel
  have hskip : skipped (trimSpace keyFileComment) = true := by decide +kernel
  have hlines : (keyFileText key).splitOn '\n' = [keyFileComment, encode key.1, []] := by
    rw [keyFileText, List.splitOn_append_cons_self, List.splitOn_eq_singleton hline,
      List.splitOn_append_cons_self, List.splitOn_eq_singleton (newline_not_mem_encode _)]
    rfl
  have hkept : (((keyFileText key).splitOn '\n').map trimSpace).filter (!skipped ·) =
      [encode key.1] := by
    rw [hlines]
    simp only [List.map_cons, List.map_nil, trimSpace_encode]
    rw [List.filter_cons_of_neg (by simp [hskip]), List.filter_cons_of_pos
      (by simp [not_skipped_encode]), List.filter_cons_of_neg (by decide), List.filter_nil]
  simp only [parseKeys, hkept, List.mapM_cons, parseKey_encode, List.mapM_nil]
  rfl

/-! ### Boxes of more keys

What a box opens, a box with more keys opens to the same text. -/

section Boxes

variable {cipher : Cipher} {keys keys' : List Key}

theorem lookup_boxOf {id : String} {key : Key} (h : (boxOf cipher keys).keys.lookup id = some key) :
    key ∈ keys ∧ keyID cipher key = id := by
  cases keys with
  | nil => cases h
  | cons first others =>
      rcases GoMap.of_lookup_insertAll h with hmem | ⟨-, hnone⟩
      · obtain ⟨k, hk, heq⟩ := List.mem_map.mp hmem
        obtain ⟨rfl, rfl⟩ := Prod.mk.inj heq
        exact ⟨hk, rfl⟩
      · cases hnone

theorem lookup_boxOf_of_mem (hids : (keys.map (keyID cipher)).Nodup) {key : Key} (h : key ∈ keys) :
    (boxOf cipher keys).keys.lookup (keyID cipher key) = some key := by
  cases keys with
  | nil => cases h
  | cons first others =>
      refine GoMap.lookup_insertAll_of_agree ?_ (.inl ⟨_, List.mem_map_of_mem h, rfl⟩)
      intro x hx hid
      obtain ⟨k, hk, rfl⟩ := List.mem_map.mp hx
      exact List.inj_on_of_nodup_map hids hk h hid

/-- What a box opens, a box with more keys opens too. -/
theorem openValue_of_subset (hsub : keys ⊆ keys') (hids : (keys'.map (keyID cipher)).Nodup)
    {value place plain : String}
    (h : (boxOf cipher keys).openValue cipher value place = .ok plain) :
    (boxOf cipher keys').openValue cipher value place = .ok plain := by
  unfold Box.openValue at h ⊢
  split at h
  · rename_i hplain
    rw [if_pos hplain]
    exact h
  · rename_i hsealed
    rw [if_neg hsealed]
    split at h
    · rename_i id body hparts
      split at h
      · cases h
      · rename_i key hkey
        obtain ⟨hmem, hid⟩ := lookup_boxOf hkey
        have hkey' := lookup_boxOf_of_mem hids (hsub hmem)
        rw [hid] at hkey'
        simp only [hkey']
        exact h
    · cases h

/-- A sealed value that opens has the parts of one. -/
theorem parts_of_openValue {box : Box} {value place plain : String}
    (hopen : box.openValue cipher value place = .ok plain) (hsealed : isSealed value = true) :
    ∃ id body, Box.parts value = (id, body, true) := by
  unfold Box.openValue at hopen
  rw [if_neg (by simp [hsealed])] at hopen
  split at hopen
  · rename_i id body hparts
    exact ⟨id, body, hparts⟩
  · cases hopen

/-- What is marked as sealed is found when the marker's case is folded. -/
theorem marker_isPrefixOf {value : String} (hsealed : isSealed value = true) :
    marker.isPrefixOf (value.toList.map Char.toLower) = true := by
  obtain ⟨rest, hrest⟩ := List.isPrefixOf_iff_prefix.mp hsealed
  rw [← hrest, List.map_append]
  have hmarker : marker.map Char.toLower = marker := by decide
  rw [hmarker]
  exact List.isPrefixOf_iff_prefix.mpr (List.prefix_append _ _)

theorem sealedKeyID_sealedText {id : String} (hid : '.' ∉ id.toList) (raw : List UInt8) :
    sealedKeyID (Box.sealedText id raw) = some id.toList := by
  rw [sealedKeyID, if_pos (marker_isPrefixOf (Box.isSealed_sealedText id raw)),
    Box.parts_sealedText hid]

theorem sealedKeyIDs_of_rows {db : Secrets} {id : SecretId} {value : String} {key : List Char}
    (hselected : id.selected = true) (hkey : sealedKeyID value = some key)
    (hrows : db.rows = [(id, value)]) : sealedKeyIDs db = [key] := by
  rw [sealedKeyIDs, hrows]
  simp [hselected, hkey]

/-- A value that opens is plaintext, or counts as sealed when a start inspects the secrets. -/
theorem mem_sealedKeyIDs {box : Box} {db : Secrets} {id : SecretId} {value plain : String}
    (hselected : id.selected = true) (hrow : (id, value) ∈ db.rows)
    (hopen : box.openValue cipher value id.place = .ok plain) (hsealed : isSealed value = true) :
    ∃ key, key ∈ sealedKeyIDs db := by
  have hfound : ∃ key, sealedKeyID value = some key := by
    obtain ⟨id', body, hparts⟩ := parts_of_openValue hopen hsealed
    exact ⟨id', by rw [sealedKeyID, if_pos (marker_isPrefixOf hsealed), hparts]⟩
  obtain ⟨key, hkey⟩ := hfound
  exact ⟨key, List.mem_filterMap.mpr ⟨(id, value), hrow, by simp [hselected, hkey]⟩⟩

end Boxes

/-! ### What a run keeps

A secret that opened once stays openable with the known keys, whatever its row holds by then. -/

section Runs

variable {cipher : Cipher} {s next : State} {label : Label}

/-- The box is locked or has the known keys, which are among those that the sources hold. -/
structure Sound (cipher : Cipher) (s : State) : Prop where
  box : s.box = .locked ∨ s.box = boxOf cipher s.known
  keeps : KeepsKeys cipher s.known s.src

def Opens (cipher : Cipher) (id : SecretId) (plain : String) (s : State) : Prop :=
  ∃ value, (id, value) ∈ s.db.rows ∧
    (boxOf cipher s.known).openValue cipher value id.place = .ok plain

/-- What `Load` finds: keys that were there, or a key that it made because nothing is sealed. -/
theorem load_eq_ok {src src' : Sources} {mayCreate : Bool} {making : Making} {keys : List Key}
    (h : load src mayCreate making = (.ok keys, src')) :
    src.read = some (.ok keys) ∧ src' = src ∨
      mayCreate = true ∧ ∃ key, keys = [key] ∧ src'.read = some (.ok [key]) := by
  unfold load at h
  cases hread : src.read with
  | some found =>
      rw [hread] at h
      obtain ⟨rfl, rfl⟩ := Prod.mk.inj h
      exact .inl ⟨rfl, rfl⟩
  | none =>
      rw [hread] at h
      simp only at h
      split at h
      · cases (Prod.mk.inj h).1
      rename_i hmay
      split at h
      · cases (Prod.mk.inj h).1
      rename_i key _
      split at h
      · cases (Prod.mk.inj h).1
      obtain ⟨hkeys, rfl⟩ := Prod.mk.inj h
      obtain rfl := Except.ok.inj hkeys
      refine .inr ⟨by simpa using hmay, key, rfl, ?_⟩
      -- neither variable is set, or something would have been read
      unfold Sources.read at hread ⊢
      split at hread
      · cases hread
      split at hread
      · cases hread
      rename_i hfile _ hvar
      simp only [hfile, hvar, parseKeys_keyFileText]

theorem load_eq_error {src src' : Sources} {mayCreate : Bool} {making : Making} {why : String}
    (h : load src mayCreate making = (.error why, src')) :
    src' = src ∨ ∃ left, making.failed = some left ∧ src' = { src with keyFile := left } := by
  unfold load at h
  split at h
  · exact .inl (Prod.mk.inj h).2.symm
  split at h
  · exact .inl (Prod.mk.inj h).2.symm
  split at h
  · exact .inl (Prod.mk.inj h).2.symm
  split at h
  · rename_i left hleft
    exact .inr ⟨left, hleft, (Prod.mk.inj h).2.symm⟩
  · cases (Prod.mk.inj h).1

/-- What a start does: it leaves the store locked and the secrets alone, or it has a box of the
known keys and perhaps more, or of a key that it made while nothing was sealed. -/
theorem initSeal_cases (cipher : Cipher) (s : State) (st : Start) :
    (∃ src, initSeal cipher s st = { s with src, box := .locked } ∧
      (src = s.src ∨ ∃ left, st.making.failed = some left ∧ src = { s.src with keyFile := left })) ∨
    ∃ keys src, initSeal cipher s st =
        ⟨src, s.db.after (sealExisting cipher (boxOf cipher keys) st.nonce st.answers s.db),
          boxOf cipher keys, keys⟩ ∧
      (s.src.read = some (.ok keys) ∧ src = s.src ∨
        sealedKeyIDs s.db = [] ∧ ∃ key, keys = [key] ∧ src.read = some (.ok [key])) := by
  unfold initSeal
  split
  · exact .inl ⟨s.src, rfl, .inl rfl⟩
  split
  · rename_i why src hload
    exact .inl ⟨src, rfl, load_eq_error hload⟩
  · rename_i keys src hload
    have hfound := load_eq_ok hload
    split
    · rename_i hother
      refine .inl ⟨src, rfl, .inl ?_⟩
      rcases hfound with ⟨-, rfl⟩ | ⟨hnone, -⟩
      · rfl
      · simp [hnone] at hother
    · refine .inr ⟨keys, src, rfl, ?_⟩
      rcases hfound with hread | ⟨hnone, hmade⟩
      · exact .inl hread
      · exact .inr ⟨List.isEmpty_iff.mp hnone, hmade⟩

theorem Sound.step (hs : Sound cipher s) (hcareful : Careful cipher s label)
    (h : step cipher s label = some next) : Sound cipher next := by
  cases label with
  | edit src =>
      obtain rfl := Option.some.inj h
      exact ⟨hs.box, hcareful⟩
  | work db =>
      obtain rfl := Option.some.inj h
      exact ⟨hs.box, hs.keeps⟩
  | start st =>
      obtain rfl := Option.some.inj h
      rcases initSeal_cases cipher s st with ⟨src, heq, hsrc⟩ | ⟨keys, src, heq, hkeys⟩
      · rw [heq]
        refine ⟨.inl rfl, ?_⟩
        rcases hsrc with rfl | ⟨left, hleft, rfl⟩
        · exact hs.keeps
        · exact hcareful left hleft
      · rw [heq]
        refine ⟨.inr rfl, ?_⟩
        rcases hkeys with ⟨hread, rfl⟩ | ⟨-, key, rfl, hread⟩
        · intro found hfound
          obtain rfl := Except.ok.inj (Option.some.inj (hread.symm.trans hfound))
          exact ⟨List.Subset.refl _, (hs.keeps keys hread).2⟩
        · intro found hfound
          obtain rfl := Except.ok.inj (Option.some.inj (hread.symm.trans hfound))
          exact ⟨List.Subset.refl _, List.nodup_singleton _⟩

theorem Opens.step {id : SecretId} {plain : String} (hselected : id.selected = true)
    (hs : Sound cipher s) (hopens : Opens cipher id plain s) (hrow : KeepsRow id s label)
    (h : step cipher s label = some next) : Opens cipher id plain next := by
  obtain ⟨value, hmem, hopen⟩ := hopens
  cases label with
  | edit src =>
      obtain rfl := Option.some.inj h
      exact ⟨value, hmem, hopen⟩
  | work db =>
      obtain rfl := Option.some.inj h
      exact ⟨value, hrow value hmem, hopen⟩
  | start st =>
      obtain rfl := Option.some.inj h
      rcases initSeal_cases cipher s st with ⟨src, heq, -⟩ | ⟨keys, src, heq, hkeys⟩
      · rw [heq]
        exact ⟨value, hmem, hopen⟩
      · have hopen' : (boxOf cipher keys).openValue cipher value id.place = .ok plain := by
          rcases hkeys with ⟨hread, -⟩ | ⟨hnone, key, rfl, -⟩
          · exact openValue_of_subset (hs.keeps keys hread).1 (hs.keeps keys hread).2 hopen
          · -- a fresh key opens what is not sealed
            have hplain : isSealed value = false := by
              by_contra hsealed
              obtain ⟨found, hfound⟩ :=
                mem_sealedKeyIDs hselected hmem hopen (by simpa using hsealed)
              exact absurd (hnone ▸ hfound) List.not_mem_nil
            rw [Box.openValue_of_not_isSealed hplain] at hopen ⊢
            exact hopen
        have hpass : SameOpened cipher (boxOf cipher keys) s.db (s.db.after
            (sealExisting cipher (boxOf cipher keys) st.nonce st.answers s.db)) :=
          sameOpened_sealExisting s.db
        obtain ⟨hids, hsame⟩ := hpass
        have hrow' : id ∈ (s.db.after (sealExisting cipher (boxOf cipher keys) st.nonce st.answers
            s.db)).rows.map Prod.fst := by
          rw [hids]
          exact List.mem_map.mpr ⟨(id, value), hmem, rfl⟩
        obtain ⟨⟨id', value'⟩, hmem', rfl⟩ := List.mem_map.mp hrow'
        rw [heq]
        exact ⟨value', hmem', (hsame _ value value' hmem hmem').trans hopen'⟩

/-- Secrets survive restarts and rotations.  Take any sequence of starts, of edits of what the
keys are read from and of other work on the database, by an operator who drops no key that has
been in use and has no two keys of one id.  If at some point an unlocked store opens a secret,
and nothing but the starts rewrites its row from there on, every later point at which the store
is unlocked opens it to the same text, whether the key was made by the program or given to it,
and under however many newer keys it was sealed again. -/
theorem secrets_survive {src : Sources} {db : Secrets} {id : SecretId} {plain value : String}
    {before after : List Label} {s' : State} (hselected : id.selected = true)
    (hids : KeepsKeys cipher [] src) (hbefore : run (step cipher) (off src db) before = some s)
    (hcareful : RunMeets (step cipher) (Careful cipher) (off src db) before)
    (hunlocked : s.box.usable = true) (hrow : (id, value) ∈ s.db.rows)
    (hopen : s.box.openValue cipher value id.place = .ok plain)
    (hafter : run (step cipher) s after = some s')
    (hkept : RunMeets (step cipher) (fun u label => Careful cipher u label ∧ KeepsRow id u label)
      s after)
    (hunlocked' : s'.box.usable = true) :
    ∃ value', (id, value') ∈ s'.db.rows ∧
      s'.box.openValue cipher value' id.place = .ok plain := by
  have hboxOf : ∀ u : State, Sound cipher u → u.box.usable = true →
    u.box = boxOf cipher u.known := by
    intro u hu husable
    rcases hu.box with hlocked | hbox
    · rw [hlocked] at husable
      exact absurd husable (by decide)
    · exact hbox
  have hsound : Sound cipher s :=
    hcareful.invariant (fun _ _ _ hu hlabel hstep => hu.step hlabel hstep) ⟨.inl rfl, hids⟩ hbefore
  have hopens : Opens cipher id plain s := ⟨value, hrow, hboxOf s hsound hunlocked ▸ hopen⟩
  obtain ⟨hsound', value', hrow', hopen'⟩ :=
    hkept.invariant (P := fun u => Sound cipher u ∧ Opens cipher id plain u)
      (fun _ _ _ hu hlabel hstep =>
        ⟨hu.1.step hlabel.1 hstep, hu.2.step hselected hu.1 hlabel.2 hstep⟩)
      ⟨hsound, hopens⟩ hafter
  exact ⟨value', hrow', (hboxOf s' hsound' hunlocked').symm ▸ hopen'⟩

end Runs

/-! ### A first start and a rotation

A key that the program makes, and one that the operator puts in front of it. -/

def nothing : Sources := ⟨none, none, .absent⟩

def smoothStart : Start where
  inspected := .ok ()
  making := ⟨.ok oldKey, none⟩
  nonce := fun _ => .ok someNonce
  answers := allWell

def oneSecret : Secrets := ⟨[(.setting "oidc_client_secret", "hunter2")], by decide +kernel⟩

/-- The operator puts a new key in front of the one that the program made. -/
def rotated : Sources :=
  { nothing with keyFile := .text (encode newKey.1 ++ '\n' :: keyFileText oldKey) }

def sealedOnce : State := initSeal openCipher (off nothing oneSecret) smoothStart

/-- The secret under the key that the first start made. -/
def sealedHunter : String :=
  Box.sealedText (boxOf openCipher [oldKey]).primary
    (someNonce.1 ++
      openCipher.encrypt oldKey someNonce.1 "hunter2" (settingAAD "oidc_client_secret"))

theorem rows_sealedOnce :
    sealedOnce.db.rows = [(.setting "oidc_client_secret", sealedHunter)] := rfl

theorem sealedKeyIDs_sealedOnce :
    sealedKeyIDs sealedOnce.db = [(boxOf openCipher [oldKey]).primary.toList] :=
  sealedKeyIDs_of_rows (by decide) (sealedKeyID_sealedText (boxOf openCipher [oldKey]).noDot _)
    rows_sealedOnce

theorem secrets_survive_rotated :
    ∃ value', (SecretId.setting "oidc_client_secret", value') ∈
        (initSeal openCipher { sealedOnce with src := rotated } smoothStart).db.rows ∧
      (initSeal openCipher { sealedOnce with src := rotated } smoothStart).box.openValue openCipher
        value' (settingAAD "oidc_client_secret") = .ok "hunter2" := by
  have hknown : sealedOnce.known = [oldKey] := rfl
  have hrotated : rotated.read = some (.ok [newKey, oldKey]) := by decide +kernel
  have hkeeps : KeepsKeys openCipher sealedOnce.known rotated := by
    intro keys hkeys
    obtain rfl := Except.ok.inj (Option.some.inj (hrotated.symm.trans hkeys))
    rw [hknown]
    exact ⟨by decide, by decide +kernel⟩
  have hsmooth : ∀ u, Careful openCipher u (.start smoothStart) := by
    intro u left hleft
    cases hleft
  have hrow : (SecretId.setting "oidc_client_secret", sealedHunter) ∈ sealedOnce.db.rows :=
    rows_sealedOnce ▸ List.mem_singleton.mpr rfl
  have holdKey : (boxOf openCipher [oldKey]).keys.lookup (boxOf openCipher [oldKey]).primary =
      some oldKey := by decide +kernel
  have hopen : sealedOnce.box.openValue openCipher sealedHunter
      (SecretId.setting "oidc_client_secret").place = .ok "hunter2" :=
    Box.openValue_sealedText holdKey
  -- the second start finds the old key behind the new one
  have hids := sealedKeyIDs_sealedOnce
  have hheld : hasKey (boxOf openCipher [newKey, oldKey])
      (boxOf openCipher [oldKey]).primary.toList = true := by decide +kernel
  have hbox : (initSeal openCipher { sealedOnce with src := rotated } smoothStart).box =
      boxOf openCipher [newKey, oldKey] := by
    simp [initSeal, smoothStart, load, hrotated, hids, hheld]
  have hunlocked : (initSeal openCipher { sealedOnce with src := rotated } smoothStart).box.usable =
      true := by
    rw [hbox]
    decide +kernel
  have hfirst : KeepsKeys openCipher [] nothing := by simp [KeepsKeys, nothing, Sources.read]
  have hbefore : run (step openCipher) (off nothing oneSecret) [.start smoothStart] =
      some sealedOnce := rfl
  have hafter : run (step openCipher) sealedOnce [.edit rotated, .start smoothStart] =
      some (initSeal openCipher { sealedOnce with src := rotated } smoothStart) := rfl
  exact secrets_survive (by decide) hfirst hbefore ⟨hsmooth _, fun _ _ => trivial⟩
    (by decide +kernel)
    hrow hopen hafter ⟨⟨hkeeps, trivial⟩, fun _ _ => ⟨⟨hsmooth _, trivial⟩, fun _ _ => trivial⟩⟩
    hunlocked

end Quicgate.SealStarts
