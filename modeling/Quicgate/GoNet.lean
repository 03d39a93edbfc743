import Quicgate.Netip

/-!
# Addresses, networks and credentials of the Go standard library

The older `net` types, which the access lists use: `net.IP` and `net.IPNet`,
`net.ParseIP`, `net.ParseCIDR` and `net.SplitHostPort`, and the base64 and basic
authentication texts of `encoding/base64` and `net/http`.

They are kept apart from `Netip` as the source keeps them apart: an IPv4 address
and its IPv4-mapped form are one `net.IP` and two `netip.Addr`s, and the texts
the two packages accept differ in zones and leading zeros.
-/

namespace Quicgate.GoNet

open Quicgate.GoStrings Quicgate.Netip

/-! ### Addresses and networks

`hostNet` is the network of exactly one host, `{IP: ip, Mask: CIDRMask(bits, bits)}`. -/

/-- `net.IP` in its 16-byte form, which the 4-byte form of an IPv4 address equals. -/
abbrev IP := BitVec 128

def mapped (x : BitVec 32) : IP := 0xffff00000000#128 ||| x.setWidth 128

def to4 (ip : IP) : Option (BitVec 32) :=
  if ip >>> 32 = 0xffff#128 then some (ip.setWidth 32) else none

/-- `net.ParseIP`: no zone. -/
def parseIP (s : List Char) : Option IP :=
  match parseAddr s with
  | some (.v4 x) => some (mapped x)
  | some (.v6 x zone) => if zone = "" then some x else none
  | _ => none

/-- `net.IPNet` with the mask `net.CIDRMask(ones, bits)`; `bits` is 32 or 128. -/
structure IPNet where
  ip : IP
  ones : Nat
  bits : Nat
deriving DecidableEq, Repr

/-- `IPNet.Contains`. Of a 16-byte mask on an IPv4 network only the last four bytes
count. -/
def IPNet.contains (n : IPNet) (ip : IP) : Bool :=
  match to4 n.ip, to4 ip with
  | some nn, some x => agree (if n.bits = 32 then n.ones else n.ones - 96) nn x
  | none, none => n.bits == 128 && agree n.ones n.ip ip
  | _, _ => false

def hostNet (ip : IP) : IPNet :=
  if (to4 ip).isSome then ⟨ip, 32, 32⟩ else ⟨ip, 128, 128⟩

/-- `net.ParseCIDR`. Leading zeros of the prefix length are accepted here. -/
def parseCIDR (s : List Char) : Option IPNet :=
  match cut '/' s with
  | (text, mask, true) =>
      match parseAddr text with
      | some ip =>
          let n := Nat.ofDigitChars 10 mask 0
          if ip.zone = "" ∧ mask ≠ [] ∧ mask.all Char.isDigit ∧ n ≤ ip.bitLen then
            match ip with
            | .v4 x => some ⟨mapped (x &&& leading 32 n), n, 32⟩
            | .v6 x _ => some ⟨x &&& leading 128 n, n, 128⟩
            | .zero => none
          else none
      | none => none
  | _ => none

def splitHostPort (s : List Char) : Option (List Char × List Char) :=
  match cutLast ':' s with
  | (before, port, true) =>
      match s with
      | '[' :: rest =>
          -- the first ']' has to stand right before the last ':'
          match cut ']' rest with
          | (host, after, true) =>
              if after = ':' :: port ∧ '[' ∉ rest ∧ ']' ∉ after then some (host, port) else none
          | _ => none
      | _ =>
          if ':' ∈ before ∨ '[' ∈ s ∨ ']' ∈ s then none else some (before, port)
  | _ => none

example : splitHostPort "[2001:db8::1]:443".toList =
    some ("2001:db8::1".toList, "443".toList) := by decide

example : (parseCIDR "10.0.0.0/8".toList).map (·.contains (mapped 0x0a010203#32)) =
    some true := by decide

/-! ### Base64

The reader of the standard alphabet with padding, as the server's side of basic authentication
uses it; `Base64` has the strict reader of a WireGuard key. -/

def base64Value (c : Char) : Option Nat :=
  if 'A' ≤ c ∧ c ≤ 'Z' then some (c.toNat - 'A'.toNat)
  else if 'a' ≤ c ∧ c ≤ 'z' then some (c.toNat - 'a'.toNat + 26)
  else if c.isDigit then some (c.toNat - '0'.toNat + 52)
  else if c = '+' then some 62
  else if c = '/' then some 63
  else none

/-- The quantum loop of `base64.StdEncoding.DecodeString` on text without line
breaks. Padding ends the text; the bits it leaves over are not looked at. -/
def decodeQuanta : List Char → Option (List UInt8)
  | [] => some []
  | [a, b, '=', '='] => do
      let a ← base64Value a
      let b ← base64Value b
      return [UInt8.ofNat (a * 4 + b / 16)]
  | [a, b, c, '='] => do
      let a ← base64Value a
      let b ← base64Value b
      let c ← base64Value c
      return [UInt8.ofNat (a * 4 + b / 16), UInt8.ofNat (b % 16 * 16 + c / 4)]
  | a :: b :: c :: d :: rest => do
      let a ← base64Value a
      let b ← base64Value b
      let c ← base64Value c
      let d ← base64Value d
      let tail ← decodeQuanta rest
      return UInt8.ofNat (a * 4 + b / 16) :: UInt8.ofNat (b % 16 * 16 + c / 4) ::
        UInt8.ofNat (c % 4 * 64 + d) :: tail
  | _ => none

/-- `base64.StdEncoding.DecodeString`, which skips line breaks. -/
def base64Decode (s : List Char) : Option (List UInt8) :=
  decodeQuanta (s.filter fun c => c != '\r' && c != '\n')

example : base64Decode "Zm9v\nYg==".toList = some [0x66, 0x6f, 0x6f, 0x62] := by decide

/-! ### Requests -/

/-- The bytes of a Go string. -/
def utf8 (s : String) : List UInt8 := s.toUTF8.data.toList

/-- A header as the server has it: canonical names, in order. -/
abbrev Header := List (String × String)

/-- `Header.Get`: the first value, or `""`. -/
def Header.get (h : Header) (name : String) : String :=
  ((h.find? (·.1 == name)).map (·.2)).getD ""

/-- `Request.BasicAuth` on the value of the `Authorization` header. -/
def parseBasicAuth (auth : String) : Option (List UInt8 × List UInt8) :=
  if (auth.toList.take 6).map Char.toLower = "basic ".toList then
    match base64Decode (auth.toList.drop 6) with
    | some bytes =>
        match bytes.span (· != 0x3a) with
        | (user, _ :: pass) => some (user, pass)
        | _ => none
    | none => none
  else none

end Quicgate.GoNet
