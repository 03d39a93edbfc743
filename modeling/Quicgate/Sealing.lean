import Quicgate.Base64
import Quicgate.GoMaps

/-!
# Sealed values

`internal/seal`: a sealed value is the text `qgs1.<key id>.<base64url(nonce || ciphertext)>`.
A box seals with its primary key and opens with all of its keys.  The cipher is a
parameter; what is used of it is that a ciphertext opens under the key and the
associated data it was made with.

`SealedStore` runs it over the columns of the database, `SealStarts` over the starts of the
program, and `LockedStore` asks what becomes of values that do not open.
-/

namespace Quicgate.Seal

open Quicgate.GoStrings Quicgate.GoMaps Quicgate.Base64

/-! ### Keys and boxes

The functions have the names they have in the package: `IsSealed`, `KeyID`, `Usable`, `Seal`,
`Open` and `NeedsReseal`.  A nil box is one without a primary key; it is locked. -/

/-- A key of `chacha20poly1305.KeySize` bytes. -/
abbrev Key := { bytes : List UInt8 // bytes.length = 32 }

/-- What `rand.Read` gives for one value. -/
abbrev Nonce := { bytes : List UInt8 // bytes.length = 24 }

/-- XChaCha20-Poly1305 and SHA-256. Plaintexts and associated data are texts here. -/
structure Cipher where
  encrypt : Key → List UInt8 → String → String → List UInt8
  decrypt : Key → List UInt8 → List UInt8 → String → Option String
  decrypt_encrypt : ∀ key nonce plain aad,
    decrypt key nonce (encrypt key nonce plain aad) aad = some plain
  overhead : ∀ key nonce plain aad, 16 ≤ (encrypt key nonce plain aad).length
  sha256 : List UInt8 → List UInt8

def marker : List Char := "qgs1.".toList

def isSealed (v : String) : Bool := marker.isPrefixOf v.toList

def hexChar (n : Nat) : Char :=
  if n < 10 then Char.ofNat ('0'.toNat + n) else Char.ofNat ('a'.toNat + (n - 10))

def hex (bytes : List UInt8) : List Char :=
  bytes.flatMap fun b => [hexChar (b.toNat / 16), hexChar (b.toNat % 16)]

theorem hexChar_ne_dot : ∀ n < 16, hexChar n ≠ '.' := by
  decide

theorem dot_not_mem_hex (bytes : List UInt8) : '.' ∉ hex bytes := by
  intro h
  obtain ⟨b, -, hb⟩ := List.mem_flatMap.mp h
  have hlt := b.toNat_lt
  simp only [List.mem_cons, List.not_mem_nil, or_false] at hb
  rcases hb with hhigh | hlow
  · exact hexChar_ne_dot _ (by omega) hhigh.symm
  · exact hexChar_ne_dot _ (by omega) hlow.symm

def keyID (cipher : Cipher) (key : Key) : String :=
  String.ofList (hex ((cipher.sha256 (GoNet.utf8 "quicgate seal key id\x00" ++ key.1)).take 4))

/-- `Box`. The box without a primary key stands for the nil box, which is locked. -/
structure Box where
  primary : String
  keys : GoMap String Key
  held : primary ≠ "" → ∃ key, keys.lookup primary = some key
  noDot : '.' ∉ primary.toList

def Box.locked : Box := ⟨"", ∅, fun h => absurd rfl h, by decide⟩

/-- `New`: the first key is the primary one. -/
def Box.new (cipher : Cipher) (first : Key) (others : List Key) : Box where
  primary := keyID cipher first
  keys := GoMap.insertAll ∅ ((first :: others).map fun key => (keyID cipher key, key))
  held := by
    intro _
    exact GoMap.exists_lookup_insertAll (Or.inl ⟨_, List.mem_cons_self, rfl⟩)
  noDot := by
    rw [keyID, String.toList_ofList]
    exact dot_not_mem_hex _

namespace Box

variable (cipher : Cipher) (box : Box)

def usable : Bool := box.primary != ""

inductive OpenError where
  /-- `ErrLocked`: sealed with a key that is not available. -/
  | locked
  /-- Not the text of a sealed value. -/
  | malformed
  /-- Wrong place, or damaged. -/
  | notHere
deriving DecidableEq, Repr

def OpenError.text : OpenError → String
  | .locked => "sealed with a key that is not available"
  | .malformed => "seal: malformed value"
  | .notHere => "seal: value does not open here (wrong place, or damaged)"

/-- The key id and the rest of the text of a sealed value. -/
def parts (value : String) : List Char × List Char × Bool :=
  cut '.' (value.toList.drop marker.length)

def openValue (value aad : String) : Except OpenError String :=
  if isSealed value = false then .ok value
  else match parts value with
    | (id, body, true) =>
        match box.keys.lookup (String.ofList id) with
        | none => .error .locked
        | some key =>
            match rawURLDecode body with
            | none => .error .malformed
            | some raw =>
                if raw.length < 24 + 16 then .error .malformed
                else match cipher.decrypt key (raw.take 24) (raw.drop 24) aad with
                  | some plain => .ok plain
                  | none => .error .notHere
    | _ => .error .malformed

/-- The text of a sealed value. -/
def sealedText (id : String) (raw : List UInt8) : String :=
  String.ofList (marker ++ id.toList ++ '.' :: rawURLEncode raw)

def sealValue (nonce : Nonce) (plain aad : String) : Except OpenError String :=
  if plain = "" then .ok ""
  else if box.usable = false then .error .locked
  else match box.keys.lookup box.primary with
    | none => .error .locked
    | some key => .ok (sealedText box.primary (nonce.1 ++ cipher.encrypt key nonce.1 plain aad))

def needsReseal (value : String) : Bool :=
  if value = "" || !box.usable then false
  else if !isSealed value then true
  else (parts value).1 != box.primary.toList

/-! ### Sealing and opening

The parts of a sealed text come apart again, so what is sealed under one of the keys of a box
opens at the place it was sealed for. -/

/-- A value under the primary key. -/
def underPrimary (value : String) : Bool :=
  isSealed value && (parts value).1 == box.primary.toList

section Spec

variable {cipher : Cipher} {box : Box} {value aad plain : String} {nonce : Nonce}

theorem isSealed_sealedText (id : String) (raw : List UInt8) :
    isSealed (sealedText id raw) = true := by
  rw [isSealed, sealedText, String.toList_ofList, List.append_assoc]
  exact List.isPrefixOf_iff_prefix.mpr (List.prefix_append _ _)

theorem parts_sealedText {id : String} (hid : '.' ∉ id.toList) (raw : List UInt8) :
    parts (sealedText id raw) = (id.toList, rawURLEncode raw, true) := by
  rw [parts, sealedText, String.toList_ofList, List.append_assoc, List.drop_left]
  exact cut_append_cons hid _

/-- What is sealed under the primary key opens at its place. -/
theorem openValue_sealedText {key : Key} (hkey : box.keys.lookup box.primary = some key) :
    box.openValue cipher
      (sealedText box.primary (nonce.1 ++ cipher.encrypt key nonce.1 plain aad)) aad =
      .ok plain := by
  have hlen : ¬ (nonce.1 ++ cipher.encrypt key nonce.1 plain aad).length < 24 + 16 := by
    have hnonce := nonce.2
    have hover := cipher.overhead key nonce.1 plain aad
    rw [List.length_append]
    omega
  have hlook : box.keys.lookup (String.ofList box.primary.toList) = some key := by
    rw [String.ofList_toList]
    exact hkey
  rw [openValue, isSealed_sealedText, parts_sealedText box.noDot]
  simp only [Bool.true_eq_false, if_false, hlook, rawURLDecode_encode, hlen]
  rw [List.take_left' nonce.2, List.drop_left' nonce.2, cipher.decrypt_encrypt]

theorem openValue_empty : box.openValue cipher "" aad = .ok "" := rfl

/-- What is sealed opens at its place. -/
theorem openValue_sealValue (h : box.sealValue cipher nonce plain aad = .ok value) :
    box.openValue cipher value aad = .ok plain := by
  unfold sealValue at h
  split at h
  · rename_i hempty
    obtain rfl := Except.ok.inj h
    rw [hempty]
    exact openValue_empty
  · split at h
    · cases h
    · split at h
      · cases h
      · rename_i key hkey
        obtain rfl := Except.ok.inj h
        exact openValue_sealedText hkey

/-- What is sealed and not empty is under the primary key. -/
theorem underPrimary_sealValue (h : box.sealValue cipher nonce plain aad = .ok value)
    (hplain : plain ≠ "") : box.underPrimary value = true := by
  unfold sealValue at h
  split at h
  · rename_i hempty
    exact absurd hempty hplain
  · split at h
    · cases h
    · split at h
      · cases h
      · obtain rfl := Except.ok.inj h
        rw [underPrimary, isSealed_sealedText, parts_sealedText box.noDot]
        simp

theorem needsReseal_eq (h : box.usable = true) :
    box.needsReseal value = (value != "" && !box.underPrimary value) := by
  unfold needsReseal underPrimary
  by_cases hempty : value = ""
  · simp [hempty]
  · cases hsealed : isSealed value <;> simp [hempty, h, bne]

theorem openValue_of_not_isSealed (h : isSealed value = false) :
    box.openValue cipher value aad = .ok value := by
  rw [openValue, if_pos h]

end Spec

end Box

end Quicgate.Seal
