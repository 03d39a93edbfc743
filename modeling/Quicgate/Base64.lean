import Quicgate.GoNet

/-!
# Base64 texts

`encoding/base64` beyond the lenient decoder of `Quicgate.GoNet`: the encoder, the
strict decoder, and the unpadded URL encoding.  What is encoded decodes to itself, in
every one of the decoders.

The keys of WireGuard peers are such texts, which the store compares as texts and the
tunnel as bytes (`WgPeers`); sealed values and cookies use the URL encoding (`Sealing`).
-/

namespace Quicgate.Base64

open Quicgate.GoNet

/-! ### The standard encoding

`encode` and `strictDecode` are `base64.StdEncoding.EncodeToString` and
`base64.StdEncoding.Strict().DecodeString`.  The strict decoder is the lenient one, line breaks
included, and asks that the bits left over are zero. -/

/-- The character of a 6-bit value in the standard alphabet. -/
def digit (n : Nat) : Char :=
  if n < 26 then Char.ofNat ('A'.toNat + n)
  else if n < 52 then Char.ofNat ('a'.toNat + (n - 26))
  else if n < 62 then Char.ofNat ('0'.toNat + (n - 52))
  else if n = 62 then '+'
  else '/'

def encode : List UInt8 → List Char
  | [] => []
  | [a] => [digit (a.toNat / 4), digit (a.toNat % 4 * 16), '=', '=']
  | [a, b] => [digit (a.toNat / 4), digit (a.toNat % 4 * 16 + b.toNat / 16),
      digit (b.toNat % 16 * 4), '=']
  | a :: b :: c :: rest =>
      digit (a.toNat / 4) :: digit (a.toNat % 4 * 16 + b.toNat / 16) ::
        digit (b.toNat % 16 * 4 + c.toNat / 64) :: digit (c.toNat % 64) :: encode rest

/-- The bits that the padding leaves over are zero. -/
def leftoverZero : List Char → Bool
  | [] => true
  | [_, b, '=', '='] => (base64Value b).all (· % 16 == 0)
  | [_, _, c, '='] => (base64Value c).all (· % 4 == 0)
  | _ :: _ :: _ :: _ :: rest => leftoverZero rest
  | _ => true

def strictDecode (s : List Char) : Option (List UInt8) :=
  if leftoverZero (s.filter fun c => c != '\r' && c != '\n') then base64Decode s else none

theorem digit_spec : ∀ n < 64, base64Value (digit n) = some n ∧ digit n ≠ '=' ∧
    digit n ≠ '\r' ∧ digit n ≠ '\n' := by
  decide

theorem base64Value_digit {n : Nat} (h : n < 64) : base64Value (digit n) = some n :=
  (digit_spec n h).1

theorem decodeQuanta_cons {a b c d : Char} {rest : List Char} (hd : d ≠ '=') :
    decodeQuanta (a :: b :: c :: d :: rest) = (do
      let a ← base64Value a
      let b ← base64Value b
      let c ← base64Value c
      let d ← base64Value d
      let tail ← decodeQuanta rest
      return UInt8.ofNat (a * 4 + b / 16) :: UInt8.ofNat (b % 16 * 16 + c / 4) ::
        UInt8.ofNat (c % 4 * 64 + d) :: tail) := by
  rw [decodeQuanta]
  · rintro - rfl
    exact absurd rfl hd
  · intro hpad _
    exact absurd hpad hd

theorem leftoverZero_cons {a b c d : Char} {rest : List Char} (hd : d ≠ '=') :
    leftoverZero (a :: b :: c :: d :: rest) = leftoverZero rest := by
  rw [leftoverZero]
  · rintro - rfl
    exact absurd rfl hd
  · intro hpad _
    exact absurd hpad hd

theorem ofNat_eq {n : Nat} {a : UInt8} (h : n = a.toNat) : UInt8.ofNat n = a := by
  rw [h, UInt8.ofNat_toNat]

/-- What was encoded is decoded, and leaves no bits over. -/
theorem decodeQuanta_encode (bytes : List UInt8) :
    decodeQuanta (encode bytes) = some bytes ∧ leftoverZero (encode bytes) = true := by
  induction bytes using encode.induct with
  | case1 => exact ⟨rfl, rfl⟩
  | case2 a =>
      have ha := a.toNat_lt
      have hfirst := base64Value_digit (n := a.toNat / 4) (by omega)
      have hsecond := base64Value_digit (n := a.toNat % 4 * 16) (by omega)
      constructor
      · simp only [encode, decodeQuanta, hfirst, hsecond, Option.pure_def, Option.bind_eq_bind,
          Option.bind_some]
        rw [ofNat_eq (a := a) (by omega)]
      · simp only [encode, leftoverZero, hsecond, Option.all_some, beq_iff_eq]
        omega
  | case3 a b =>
      have ha := a.toNat_lt
      have hb := b.toNat_lt
      have hfirst := base64Value_digit (n := a.toNat / 4) (by omega)
      have hsecond := base64Value_digit (n := a.toNat % 4 * 16 + b.toNat / 16) (by omega)
      have hthird := base64Value_digit (n := b.toNat % 16 * 4) (by omega)
      have hne := (digit_spec (b.toNat % 16 * 4) (by omega)).2.1
      constructor
      · simp only [encode]
        rw [decodeQuanta]
        · simp only [hfirst, hsecond, hthird, Option.pure_def, Option.bind_eq_bind,
            Option.bind_some]
          rw [ofNat_eq (a := a) (by omega), ofNat_eq (a := b) (by omega)]
        · exact hne
      · simp only [encode]
        rw [leftoverZero]
        · simp only [hthird, Option.all_some, beq_iff_eq]
          omega
        · exact hne
  | case4 a b c rest ih =>
      have ha := a.toNat_lt
      have hb := b.toNat_lt
      have hc := c.toNat_lt
      have hfirst := base64Value_digit (n := a.toNat / 4) (by omega)
      have hsecond := base64Value_digit (n := a.toNat % 4 * 16 + b.toNat / 16) (by omega)
      have hthird := base64Value_digit (n := b.toNat % 16 * 4 + c.toNat / 64) (by omega)
      have hfourth := base64Value_digit (n := c.toNat % 64) (by omega)
      have hne := (digit_spec (c.toNat % 64) (by omega)).2.1
      simp only [encode]
      rw [decodeQuanta_cons hne, leftoverZero_cons hne]
      refine ⟨?_, ih.2⟩
      simp only [hfirst, hsecond, hthird, hfourth, ih.1, Option.pure_def, Option.bind_eq_bind,
        Option.bind_some]
      rw [ofNat_eq (a := a) (by omega), ofNat_eq (a := b) (by omega), ofNat_eq (a := c) (by omega)]

/-- The encoded text has no character that a decoder skips or a text is trimmed of. -/
theorem forall_mem_encode {P : Char → Prop} (hdigit : ∀ n < 64, P (digit n)) (hpad : P '=')
    (bytes : List UInt8) : ∀ c ∈ encode bytes, P c := by
  induction bytes using encode.induct with
  | case1 => simp [encode]
  | case2 a =>
      have ha := a.toNat_lt
      simp only [encode, List.forall_mem_cons]
      exact ⟨hdigit _ (by omega), hdigit _ (by omega), hpad, hpad, by simp⟩
  | case3 a b =>
      have ha := a.toNat_lt
      have hb := b.toNat_lt
      simp only [encode, List.forall_mem_cons]
      exact ⟨hdigit _ (by omega), hdigit _ (by omega), hdigit _ (by omega), hpad, by simp⟩
  | case4 a b c rest ih =>
      have ha := a.toNat_lt
      have hb := b.toNat_lt
      have hc := c.toNat_lt
      simp only [encode, List.forall_mem_cons]
      exact ⟨hdigit _ (by omega), hdigit _ (by omega), hdigit _ (by omega), hdigit _ (by omega), ih⟩

theorem isSpace_digit : ∀ n < 64, GoStrings.isSpace (digit n) = false := by
  decide

theorem trimSpace_encode (raw : List UInt8) : GoStrings.trimSpace (encode raw) = encode raw :=
  GoStrings.trimSpace_of_forall (forall_mem_encode isSpace_digit (by decide) raw)

theorem filter_encode (bytes : List UInt8) :
    (encode bytes).filter (fun c => c != '\r' && c != '\n') = encode bytes := by
  refine List.filter_eq_self.mpr (forall_mem_encode ?_ (by decide) bytes)
  intro n hn
  obtain ⟨-, -, hcr, hlf⟩ := digit_spec n hn
  simp [hcr, hlf]

theorem base64Decode_encode (bytes : List UInt8) : base64Decode (encode bytes) = some bytes := by
  unfold base64Decode
  rw [filter_encode, (decodeQuanta_encode bytes).1]

theorem strictDecode_encode (bytes : List UInt8) : strictDecode (encode bytes) = some bytes := by
  unfold strictDecode
  rw [filter_encode, if_pos (decodeQuanta_encode bytes).2, base64Decode_encode]

theorem base64Decode_of_strict {s : List Char} {bytes : List UInt8}
    (h : strictDecode s = some bytes) : base64Decode s = some bytes := by
  unfold strictDecode at h
  split at h
  · exact h
  · cases h

example : String.ofList (encode [0x66, 0x6f, 0x6f, 0x62]) = "Zm9vYg==" := by decide

/-! ### The URL encoding without padding

`rawURLEncode`, `rawURLDecode` and `rawStdDecode` are the functions of `RawURLEncoding` and
`RawStdEncoding`. -/

/-- The URL alphabet for a character of the standard one. -/
def urlChar (c : Char) : Char := if c = '+' then '-' else if c = '/' then '_' else c

/-- The standard alphabet for a character of the URL one. -/
def stdChar (c : Char) : Option Char :=
  if c = '-' then some '+' else if c = '_' then some '/'
  else if c = '+' ∨ c = '/' ∨ c = '=' then none else some c

def rawStdDecode (s : List Char) : Option (List UInt8) :=
  let s := s.filter fun c => c != '\r' && c != '\n'
  if s.contains '=' then none else decodeQuanta (s ++ List.replicate ((4 - s.length % 4) % 4) '=')

def rawURLEncode (bytes : List UInt8) : List Char := ((encode bytes).filter (· != '=')).map urlChar

def padding (length : Nat) : List Char := List.replicate ((4 - length % 4) % 4) '='

def rawURLDecode (s : List Char) : Option (List UInt8) :=
  ((s.filter fun c => c != '\r' && c != '\n').mapM stdChar).bind fun s =>
    decodeQuanta (s ++ padding s.length)

theorem urlChar_digit : ∀ n < 64, stdChar (urlChar (digit n)) = some (digit n) ∧
    urlChar (digit n) ≠ '\r' ∧ urlChar (digit n) ≠ '\n' := by
  decide

theorem filter_digit {n : Nat} (h : n < 64) (rest : List Char) :
    (digit n :: rest).filter (· != '=') = digit n :: rest.filter (· != '=') := by
  rw [List.filter_cons_of_pos]
  simpa using (digit_spec n h).2.1

/-- The padding is what the text without it is too short by. -/
theorem append_padding_encode (bytes : List UInt8) :
    (encode bytes).filter (· != '=') ++ padding ((encode bytes).filter (· != '=')).length =
      encode bytes := by
  induction bytes using encode.induct with
  | case1 => rfl
  | case2 a =>
      have ha := a.toNat_lt
      simp only [encode]
      rw [filter_digit (by omega), filter_digit (by omega)]
      rfl
  | case3 a b =>
      have ha := a.toNat_lt
      have hb := b.toNat_lt
      simp only [encode]
      rw [filter_digit (by omega), filter_digit (by omega), filter_digit (by omega)]
      rfl
  | case4 a b c rest ih =>
      have ha := a.toNat_lt
      have hb := b.toNat_lt
      have hc := c.toNat_lt
      simp only [encode]
      rw [filter_digit (by omega), filter_digit (by omega), filter_digit (by omega),
        filter_digit (by omega)]
      simp only [List.length_cons, List.cons_append, padding] at ih ⊢
      rw [show ∀ k : Nat, (k + 1 + 1 + 1 + 1) % 4 = k % 4 from fun k => by omega, ih]

theorem mapM_stdChar {l : List Char} (h : ∀ c ∈ l, stdChar (urlChar c) = some c) :
    (l.map urlChar).mapM stdChar = some l := by
  induction l with
  | nil => rfl
  | cons c l ih =>
      rw [List.map_cons, List.mapM_cons, h c List.mem_cons_self,
        ih fun d hd => h d (List.mem_cons_of_mem c hd)]
      rfl

theorem rawURLDecode_encode (bytes : List UInt8) :
    rawURLDecode (rawURLEncode bytes) = some bytes := by
  have hchars : ∀ c ∈ (encode bytes).filter (· != '='), stdChar (urlChar c) = some c ∧
      urlChar c ≠ '\r' ∧ urlChar c ≠ '\n' := by
    intro c hc
    obtain ⟨hmem, hpad⟩ := List.mem_filter.mp hc
    have hall := forall_mem_encode (P := fun c => c ≠ '=' → stdChar (urlChar c) = some c ∧
      urlChar c ≠ '\r' ∧ urlChar c ≠ '\n') (fun n hn _ => urlChar_digit n hn) (by simp) bytes
    exact hall c hmem (by simpa using hpad)
  have hfilter : (rawURLEncode bytes).filter (fun c => c != '\r' && c != '\n') =
      rawURLEncode bytes := by
    refine List.filter_eq_self.mpr fun c hc => ?_
    obtain ⟨d, hd, rfl⟩ := List.mem_map.mp hc
    obtain ⟨-, hcr, hlf⟩ := hchars d hd
    simp [hcr, hlf]
  rw [rawURLDecode, hfilter, rawURLEncode, mapM_stdChar fun c hc => (hchars c hc).1,
    Option.bind_some,
    append_padding_encode, (decodeQuanta_encode bytes).1]

example : String.ofList (rawURLEncode [0xfb, 0xef, 0xff, 0xfe]) = "--___g" := by decide

end Quicgate.Base64
