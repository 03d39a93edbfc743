import Mathlib.Data.BitVec
import Mathlib.Tactic.Basic
import Quicgate.Checks
import Quicgate.GoStrings

/-!
# IP addresses and prefixes of `net/netip`

Values, comparison and text of Go's `netip.Addr`, `netip.Prefix` and
`netip.AddrPort`.  A `Prefix` carries the invariant of its Go counterpart, whose
fields are private: it is either invalid or has a zone-free address and no more
bits than that address has.

`contains_iff` says family by family what it means for a prefix to contain an
address, and the order facts follow from it: masking does not change what is
contained, containment is transitive through a prefix, and two prefixes that
contain one address overlap.  `parsePrefix_prefixText4` reads back what is
printed, and `mem_parsePrefix` and `not_mem_of_parseAddr` bound the characters a
parsed text can have.
-/

namespace Quicgate.Netip

open Quicgate.GoStrings

/-! ### Addresses

An `Addr` is a value of the family it belongs to; the zero value belongs to none.  `agree`
compares the leading bits of two words, which is all that containment asks. -/

/-- `netip.Addr`: the zero value, an IPv4 address, or an IPv6 address with a zone
(`""` is no zone). An IPv4-mapped IPv6 address is an IPv6 address here. -/
inductive Addr where
  | zero
  | v4 (bits : BitVec 32)
  | v6 (bits : BitVec 128) (zone : String)
deriving DecidableEq, Repr

namespace Addr

def bitLen : Addr → Nat
  | zero => 0
  | v4 _ => 32
  | v6 _ _ => 128

def is4 : Addr → Bool
  | v4 _ => true
  | _ => false

def is6 : Addr → Bool
  | v6 _ _ => true
  | _ => false

def isValid (a : Addr) : Bool := a.bitLen != 0

def zone : Addr → String
  | v6 _ zone => zone
  | _ => ""

def withoutZone : Addr → Addr
  | v6 bits _ => v6 bits ""
  | a => a

/-- `Addr.Unmap`: an IPv4-mapped IPv6 address (`::ffff:0:0/96`) becomes the IPv4
address, its zone included; every other address stays. -/
def unmap : Addr → Addr
  | v6 bits zone =>
      if bits >>> 32 = 0xffff#128 then v4 (bits.setWidth 32) else v6 bits zone
  | a => a

@[simp] theorem zone_withoutZone (a : Addr) : a.withoutZone.zone = "" := by
  cases a <;> rfl

@[simp] theorem bitLen_withoutZone (a : Addr) : a.withoutZone.bitLen = a.bitLen := by
  cases a <;> rfl

@[simp] theorem unmap_v4 (bits : BitVec 32) : (v4 bits).unmap = v4 bits := rfl

theorem isValid_unmap {a : Addr} (h : a.isValid = true) : a.unmap.isValid = true := by
  cases a with
  | zero => exact h
  | v4 x => exact h
  | v6 x zone =>
      simp only [unmap]
      split <;> rfl

theorem exists_eq_v4 {a : Addr} (h : a.is4 = true) : ∃ bits, a = v4 bits := by
  cases a with
  | v4 bits => exact ⟨bits, rfl⟩
  | zero => simp [is4] at h
  | v6 bits zone => simp [is4] at h

end Addr

/-- The mask of the leading `n` of `w` bits. -/
def leading (w n : Nat) : BitVec w := BitVec.allOnes w <<< (w - n)

/-- The leading `n` bits of two words agree. -/
def agree {w : Nat} (n : Nat) (x y : BitVec w) : Bool := (x ^^^ y) >>> (w - n) == 0#w

theorem agree_iff {w n : Nat} {x y : BitVec w} :
    agree n x y = true ↔ ∀ i, w - n ≤ i → x.getLsbD i = y.getLsbD i := by
  simp only [agree, beq_iff_eq]
  constructor
  · intro h i hi
    have hbit := congrArg (fun z => z.getLsbD (i - (w - n))) h
    simp only [BitVec.getLsbD_ushiftRight, BitVec.getLsbD_xor, BitVec.getLsbD_zero] at hbit
    rw [Nat.add_sub_cancel' hi] at hbit
    simpa using hbit
  · intro h
    apply BitVec.eq_of_getLsbD_eq
    intro i hi
    simp [h (w - n + i) (by omega)]

theorem getLsbD_leading {w n i : Nat} :
    (leading w n).getLsbD i = (decide (i < w) && decide (w - n ≤ i)) := by
  simp only [leading, BitVec.getLsbD_shiftLeft, BitVec.getLsbD_allOnes]
  by_cases hi : i < w <;> by_cases hn : i < w - n <;> simp [hi, hn] <;> omega

theorem and_leading_eq_iff {w n : Nat} {x y : BitVec w} :
    x &&& leading w n = y &&& leading w n ↔ agree n x y = true := by
  rw [agree_iff]
  constructor
  · intro h i hi
    have hbit := congrArg (fun z => z.getLsbD i) h
    simp only [BitVec.getLsbD_and, getLsbD_leading] at hbit
    by_cases hlt : i < w
    · simpa [hlt, hi] using hbit
    · rw [BitVec.getLsbD_of_ge x i (by omega), BitVec.getLsbD_of_ge y i (by omega)]
  · intro h
    apply BitVec.eq_of_getLsbD_eq
    intro i hlt
    simp only [BitVec.getLsbD_and, getLsbD_leading]
    by_cases hi : w - n ≤ i
    · simp [h i hi]
    · simp [hi]

theorem agree_comm {w n : Nat} {x y : BitVec w} (h : agree n x y = true) :
    agree n y x = true :=
  agree_iff.mpr fun i hi => (agree_iff.mp h i hi).symm

theorem agree_trans {w n : Nat} {x y z : BitVec w} (hxy : agree n x y = true)
    (hyz : agree n y z = true) : agree n x z = true :=
  agree_iff.mpr fun i hi => (agree_iff.mp hxy i hi).trans (agree_iff.mp hyz i hi)

theorem agree_of_le {w m n : Nat} (hmn : m ≤ n) {x y : BitVec w}
    (h : agree n x y = true) : agree m x y = true :=
  agree_iff.mpr fun i hi => agree_iff.mp h i (by omega)

theorem agree_self {w n : Nat} (x : BitVec w) : agree n x x = true :=
  agree_iff.mpr fun _ _ => rfl

theorem agree_and_leading {w m n : Nat} (hmn : m ≤ n) (x : BitVec w) :
    agree m (x &&& leading w n) x = true := by
  rw [agree_iff]
  intro i hi
  simp only [BitVec.getLsbD_and, getLsbD_leading]
  by_cases hlt : i < w
  · have hn : w - n ≤ i := by omega
    simp [hlt, hn]
  · simp [BitVec.getLsbD_of_ge x i (by omega)]

/-! ### Prefixes

`prefixFrom`, `Addr.toPrefix`, `bits`, `masked`, `contains` and `overlaps` are the functions
and methods of `netip` under these names. -/

/-- `netip.Prefix`. `bitsPlusOne = 0` is the invalid prefix. -/
structure Prefix where
  ip : Addr
  bitsPlusOne : Nat
  wf : bitsPlusOne ≠ 0 →
    ip.zone = "" ∧ 0 < ip.bitLen ∧ bitsPlusOne ≤ ip.bitLen + 1
deriving DecidableEq, Repr

def prefixFrom (ip : Addr) (bits : Nat) : Prefix :=
  if h : ip.isValid = true ∧ bits ≤ ip.bitLen then
    { ip := ip.withoutZone
      bitsPlusOne := bits + 1
      wf := by
        intro _
        have hpos : 0 < ip.bitLen := by
          have hvalid := h.1
          simp only [Addr.isValid, bne_iff_ne] at hvalid
          omega
        simp only [Addr.zone_withoutZone, Addr.bitLen_withoutZone, true_and]
        exact ⟨hpos, by omega⟩ }
  else { ip := ip.withoutZone, bitsPlusOne := 0, wf := by simp }

/-- `Addr.Prefix`: the address with all but its leading `bits` bits cleared, and
the zero prefix for more bits than there are. -/
def Addr.toPrefix (bits : Nat) : Addr → Prefix
  | .v4 x => if bits ≤ 32 then prefixFrom (.v4 (x &&& leading 32 bits)) bits
      else prefixFrom .zero 0
  | .v6 x _ => if bits ≤ 128 then prefixFrom (.v6 (x &&& leading 128 bits) "") bits
      else prefixFrom .zero 0
  | .zero => prefixFrom .zero 0

namespace Prefix

def isValid (p : Prefix) : Bool := p.bitsPlusOne != 0

/-- `Prefix.Bits`, -1 for the invalid prefix. -/
def bits (p : Prefix) : Int := p.bitsPlusOne - 1

/-- The prefix length of a valid prefix. -/
def len (p : Prefix) : Nat := p.bitsPlusOne - 1

def masked (p : Prefix) : Prefix :=
  if p.isValid then p.ip.toPrefix p.len else prefixFrom .zero 0

/-- `Prefix.Contains`. A prefix never contains an address of the other family or
one with a zone. -/
def contains (p : Prefix) (a : Addr) : Bool :=
  p.isValid && match p.ip, a with
    | .v4 x, .v4 y => agree p.len x y
    | .v6 x _, .v6 y zone => zone == "" && agree p.len x y
    | _, _ => false

def overlaps (p o : Prefix) : Bool :=
  if !p.isValid || !o.isValid then false
  else if p = o then true
  else if p.ip.is4 != o.ip.is4 then false
  else
    let minBits := min p.len o.len
    if minBits = 0 then true
    else (p.ip.toPrefix minBits).ip == (o.ip.toPrefix minBits).ip

theorem isValid_iff {p : Prefix} : p.isValid = true ↔ p.bitsPlusOne ≠ 0 := by
  simp [isValid]

theorem len_le {p : Prefix} (h : p.isValid = true) : p.len ≤ p.ip.bitLen := by
  have hwf := p.wf (isValid_iff.mp h)
  simp only [len]
  omega

theorem bits_eq_len {p : Prefix} (h : p.isValid = true) : p.bits = p.len := by
  have hne := isValid_iff.mp h
  simp only [bits, len]
  omega

end Prefix

section PrefixFrom

variable {ip : Addr} {bits : Nat}

theorem prefixFrom_of_le (hvalid : ip.isValid = true) (hbits : bits ≤ ip.bitLen) :
    (prefixFrom ip bits).ip = ip.withoutZone ∧ (prefixFrom ip bits).isValid = true ∧
      (prefixFrom ip bits).len = bits := by
  simp [prefixFrom, hvalid, hbits, Prefix.isValid, Prefix.len]

@[simp] theorem isValid_prefixFrom_zero : (prefixFrom .zero bits).isValid = false := by
  simp [prefixFrom, Addr.isValid, Addr.bitLen, Prefix.isValid]

theorem toPrefix_v4 {x : BitVec 32} (h : bits ≤ 32) :
    ((Addr.v4 x).toPrefix bits).ip = .v4 (x &&& leading 32 bits) ∧
      ((Addr.v4 x).toPrefix bits).isValid = true ∧ ((Addr.v4 x).toPrefix bits).len = bits := by
  simp only [Addr.toPrefix, h, if_true]
  exact prefixFrom_of_le rfl h

theorem toPrefix_v6 {x : BitVec 128} {zone : String} (h : bits ≤ 128) :
    ((Addr.v6 x zone).toPrefix bits).ip = .v6 (x &&& leading 128 bits) "" ∧
      ((Addr.v6 x zone).toPrefix bits).isValid = true ∧
      ((Addr.v6 x zone).toPrefix bits).len = bits := by
  simp only [Addr.toPrefix, h, if_true]
  exact prefixFrom_of_le rfl h

end PrefixFrom

namespace Prefix

variable {p o : Prefix} {a : Addr}

theorem isValid_of_contains (h : p.contains a = true) : p.isValid = true := by
  simp only [contains, Bool.and_eq_true] at h
  exact h.1

/-- What containing an address means, family by family. -/
theorem contains_iff : p.contains a = true ↔ p.isValid = true ∧
    ((∃ x y, p.ip = .v4 x ∧ a = .v4 y ∧ agree p.len x y = true) ∨
      (∃ x zone y, p.ip = .v6 x zone ∧ a = .v6 y "" ∧ agree p.len x y = true)) := by
  simp only [contains, Bool.and_eq_true]
  refine and_congr_right fun _ => ?_
  cases hip : p.ip <;> cases a <;> simp

theorem contains_v4_iff {x y : BitVec 32} (hip : p.ip = .v4 x) :
    p.contains (.v4 y) = true ↔ p.isValid = true ∧ agree p.len x y = true := by
  simp [contains, hip]

/-- Two prefixes that contain one address overlap. -/
theorem overlaps_of_contains (hp : p.contains a = true) (ho : o.contains a = true) :
    p.overlaps o = true := by
  obtain ⟨hpv, hp⟩ := contains_iff.mp hp
  obtain ⟨hov, ho⟩ := contains_iff.mp ho
  have hplen := len_le hpv
  simp only [overlaps, hpv, hov, Bool.not_true, Bool.or_self, Bool.false_eq_true, if_false]
  split
  · rfl
  rcases hp with ⟨x, y, hpip, rfl, hpx⟩ | ⟨x, zone, y, hpip, rfl, hpx⟩
  · obtain ⟨x', y', hoip, hy, hox⟩ : ∃ x' y', o.ip = .v4 x' ∧ Addr.v4 y = .v4 y' ∧
        agree o.len x' y' = true := by simpa using ho
    obtain rfl : y = y' := by simpa using hy
    have hmin : min p.len o.len ≤ 32 := by
      rw [hpip] at hplen
      exact le_trans (min_le_left _ _) hplen
    have hagree : agree (min p.len o.len) x x' = true :=
      agree_trans (agree_of_le (min_le_left _ _) hpx)
        (agree_comm (agree_of_le (min_le_right _ _) hox))
    simp [hpip, hoip, Addr.is4, (toPrefix_v4 hmin).1, and_leading_eq_iff.mpr hagree]
  · obtain ⟨x', zone', y', hoip, hy, hox⟩ : ∃ x' zone' y', o.ip = .v6 x' zone' ∧
        Addr.v6 y "" = .v6 y' "" ∧ agree o.len x' y' = true := by simpa using ho
    obtain rfl : y = y' := by simpa using hy
    have hmin : min p.len o.len ≤ 128 := by
      rw [hpip] at hplen
      exact le_trans (min_le_left _ _) hplen
    have hagree : agree (min p.len o.len) x x' = true :=
      agree_trans (agree_of_le (min_le_left _ _) hpx)
        (agree_comm (agree_of_le (min_le_right _ _) hox))
    simp [hpip, hoip, Addr.is4, (toPrefix_v6 hmin).1, and_leading_eq_iff.mpr hagree]

theorem contains_prefixFrom_self {a : Addr} (hvalid : a.isValid = true) (hzone : a.zone = "") :
    (prefixFrom a a.bitLen).contains a = true := by
  obtain ⟨hip, hv, hlen⟩ := prefixFrom_of_le hvalid (le_refl a.bitLen)
  rw [contains_iff]
  refine ⟨hv, ?_⟩
  cases a with
  | zero => simp [Addr.isValid, Addr.bitLen] at hvalid
  | v4 x => exact Or.inl ⟨x, x, hip, rfl, agree_self x⟩
  | v6 x zone =>
      obtain rfl : zone = "" := hzone
      exact Or.inr ⟨x, "", x, hip, rfl, agree_self x⟩

theorem overlaps_self (h : p.isValid = true) : p.overlaps p = true := by
  simp [overlaps, h]

theorem isValid_of_overlaps (h : p.overlaps o = true) : p.isValid = true ∧ o.isValid = true := by
  simp only [overlaps] at h
  split at h
  · cases h
  · simp_all

theorem overlaps_comm (p o : Prefix) : p.overlaps o = o.overlaps p := by
  by_cases heq : p = o
  · rw [heq]
  · have hip : ((p.ip.toPrefix (min p.len o.len)).ip == (o.ip.toPrefix (min p.len o.len)).ip) =
        ((o.ip.toPrefix (min p.len o.len)).ip == (p.ip.toPrefix (min p.len o.len)).ip) :=
      BEq.comm
    simp only [overlaps, Bool.or_comm !o.isValid, heq, Ne.symm heq, if_false,
      bne_comm (a := o.ip.is4),
      min_comm o.len, hip]

/-- Masking clears bits that containment does not look at. -/
theorem contains_masked : p.masked.contains a = p.contains a := by
  by_cases hv : p.isValid = true
  · have hlen := len_le hv
    have hself : ∀ w (x : BitVec w) y,
        agree p.len (x &&& leading w p.len) y = agree p.len x y := by
      intro w x y
      have hmask := agree_and_leading (le_refl p.len) x
      rw [Bool.eq_iff_iff]
      exact ⟨agree_trans (agree_comm hmask), agree_trans hmask⟩
    cases hip : p.ip with
    | zero => simp [contains, masked, hv, hip, Addr.toPrefix]
    | v4 x =>
        rw [hip] at hlen
        obtain ⟨h1, h2, h3⟩ := toPrefix_v4 (x := x) hlen
        cases a <;> simp [contains, masked, hv, hip, h1, h2, h3, hself]
    | v6 x zone =>
        rw [hip] at hlen
        obtain ⟨h1, h2, h3⟩ := @toPrefix_v6 _ x zone hlen
        cases a <;> simp [contains, masked, hv, hip, h1, h2, h3, hself]
  · simp [contains, masked, hv]

/-- An address in a prefix that lies inside another is in the other. -/
theorem contains_of_contains_ip {x : BitVec 32} (hip : o.ip = .v4 x)
    (hinside : p.contains (.v4 x) = true) (hbits : p.bits ≤ o.bits)
    (ha : o.contains a = true) : p.contains a = true := by
  have hpv := isValid_of_contains hinside
  obtain ⟨hov, ha⟩ := contains_iff.mp ha
  obtain ⟨x', y, hoip, rfl, hxy⟩ : ∃ x' y, o.ip = .v4 x' ∧ a = .v4 y ∧
      agree o.len x' y = true := by simpa [hip] using ha
  obtain rfl : x = x' := by simpa [hip] using hoip
  obtain ⟨_, hin⟩ := contains_iff.mp hinside
  obtain ⟨z, _, hpip, hx, hzx⟩ : ∃ z x', p.ip = .v4 z ∧ Addr.v4 x = .v4 x' ∧
      agree p.len z x' = true := by simpa using hin
  obtain rfl := Addr.v4.inj hx
  rw [bits_eq_len hpv, bits_eq_len hov, Int.ofNat_le] at hbits
  exact (contains_v4_iff hpip).mpr ⟨hpv, agree_trans hzx (agree_of_le hbits hxy)⟩

end Prefix

structure AddrPort where
  addr : Addr
  port : UInt16
deriving DecidableEq, Repr

/-! ### Text

The readers follow `net/netip`: `parseIPv4`, `parseIPv6` and their two entries `parseAddr` and
`parsePrefix`.  Of the printers only those of IPv4 are needed. -/

/-- One field of a dotted address. -/
def parseOctet (s : List Char) : Option Nat :=
  (plainNumber s).filter (· ≤ 255)

/-- `parseIPv4`: four fields between dots. -/
def parseIPv4 (s : List Char) : Option (BitVec 32) :=
  match (s.splitOn '.').mapM parseOctet with
  | some [a, b, c, d] => some (BitVec.ofNat 32 (((a * 256 + b) * 256 + c) * 256 + d))
  | _ => none

def hexDigit (c : Char) : Option Nat :=
  if c.isDigit then some (c.toNat - '0'.toNat)
  else if 'a' ≤ c ∧ c ≤ 'f' then some (c.toNat - 'a'.toNat + 10)
  else if 'A' ≤ c ∧ c ≤ 'F' then some (c.toNat - 'A'.toNat + 10)
  else none

def hexValue (s : List Char) : Nat :=
  s.foldl (fun value c => value * 16 + (hexDigit c).getD 0) 0

/-- The group loop of `parseIPv6`: the 16-bit groups read so far, where `::` stood
among them, and the text left. `fuel` bounds the eight groups there can be. -/
def parseGroups : Nat → List Char → List Nat → Option Nat →
    Option (List Nat × Option Nat × List Char)
  | 0, s, groups, ellipsis => some (groups, ellipsis, s)
  | fuel + 1, s, groups, ellipsis =>
      if 8 ≤ groups.length then some (groups, ellipsis, s)
      else
        let digits := s.takeWhile fun c => (hexDigit c).isSome
        let groups' := groups ++ [hexValue digits]
        if digits = [] ∨ 4 < digits.length then none
        else match s.dropWhile fun c => (hexDigit c).isSome with
          | [] => some (groups', ellipsis, [])
          | '.' :: _ =>
              -- a dotted tail takes the place of the last two groups
              if (ellipsis = none ∧ groups.length ≠ 6) ∨ 6 < groups.length then none
              else (parseIPv4 s).map fun x =>
                (groups ++ [x.toNat / 65536, x.toNat % 65536], ellipsis, [])
          | [':'] => none
          | ':' :: ':' :: rest =>
              if ellipsis.isSome then none
              else if rest = [] then some (groups', some groups'.length, [])
              else parseGroups fuel rest groups' (some groups'.length)
          | ':' :: rest => parseGroups fuel rest groups' ellipsis
          | _ => none

/-- The eight groups of an address whose `::` stood at `ellipsis`. -/
def expandGroups (groups : List Nat) (ellipsis : Option Nat) : Option (List Nat) :=
  match ellipsis with
  | none => if groups.length = 8 then some groups else none
  | some i =>
      if groups.length < 8 then
        some (groups.take i ++ List.replicate (8 - groups.length) 0 ++ groups.drop i)
      else none

def parseIPv6 (text : List Char) : Option Addr :=
  let (s, zone, hasZone) := cut '%' text
  if hasZone ∧ zone = [] then none
  else
    let parsed := match s with
      | [':', ':'] => some ([], some 0, [])
      | ':' :: ':' :: rest => parseGroups 9 rest [] (some 0)
      | _ => parseGroups 9 s [] none
    match parsed with
    | some (groups, ellipsis, []) =>
        (expandGroups groups ellipsis).map fun all =>
          .v6 (BitVec.ofNat 128 (all.foldl (fun value g => value * 65536 + g) 0))
            (String.ofList zone)
    | _ => none

/-- `netip.ParseAddr`: the first of `.`, `:` and `%` says which family it is. -/
def parseAddr (s : List Char) : Option Addr :=
  match s.find? fun c => c == '.' || c == ':' || c == '%' with
  | some '.' => (parseIPv4 s).map .v4
  | some ':' => parseIPv6 s
  | _ => none

def parsePrefix (s : List Char) : Option Prefix :=
  match cutLast '/' s with
  | (text, bitsText, true) =>
      match parseAddr text, plainNumber bitsText with
      | some ip, some bits =>
          if ip.zone = "" ∧ bits ≤ ip.bitLen then some (prefixFrom ip bits) else none
      | _, _ => none
  | _ => none

/-- `netip.ParseAddrPort`: an IPv6 address, and only one, stands in brackets. -/
def parseAddrPort (s : List Char) : Option AddrPort :=
  match cutLast ':' s with
  | (ip, port, true) =>
      let (host, bracketed) := match ip with
        | '[' :: rest => (if rest.getLast? = some ']' then rest.dropLast else [], true)
        | _ => (ip, false)
      match parseUint 16 port, parseAddr host with
      | some port, some a =>
          if bracketed = a.is6 then some ⟨a, UInt16.ofNat port⟩ else none
      | _, _ => none
  | _ => none

example : (parseAddrPort "203.0.113.5:4711".toList).map (·.addr) =
    some (.v4 0xcb007105#32) := by decide

/-- Byte `i` of an IPv4 address, from the left (`Addr.As4`). -/
def byte4 (x : BitVec 32) (i : Nat) : Nat := x.toNat / 256 ^ (3 - i) % 256

/-- `Addr.String` of an IPv4 address. -/
def text4 (x : BitVec 32) : List Char :=
  itoa (byte4 x 0) ++ '.' :: (itoa (byte4 x 1) ++ '.' ::
    (itoa (byte4 x 2) ++ '.' :: itoa (byte4 x 3)))

/-- `Prefix.String` of an IPv4 prefix. -/
def prefixText4 (x : BitVec 32) (bits : Nat) : List Char :=
  text4 x ++ '/' :: itoa bits

example : parseAddr "fe80::1%eth0".toList =
    some (.v6 0xfe800000000000000000000000000001#128 "eth0") := by decide

example : parseAddr "::ffff:10.0.0.1".toList =
    some (.v6 0xffff0a000001#128 "") := by decide

theorem not_mem_itoa {n : Nat} {c : Char} (hc : c.isDigit = false) : c ∉ itoa n := by
  intro h
  rw [isDigit_of_mem_itoa h] at hc
  simp at hc

theorem byte4_lt (x : BitVec 32) (i : Nat) : byte4 x i < 256 :=
  Nat.mod_lt _ (by decide)

theorem parseOctet_itoa {n : Nat} (h : n < 256) : parseOctet (itoa n) = some n := by
  simp only [parseOctet, plainNumber_itoa, Option.filter_some]
  rw [if_pos (by simpa using Nat.le_of_lt_succ h)]

/-- The bytes of an address put together are the address. -/
theorem bytes_value (x : BitVec 32) :
    ((byte4 x 0 * 256 + byte4 x 1) * 256 + byte4 x 2) * 256 + byte4 x 3 = x.toNat := by
  have hlt := x.isLt
  simp only [byte4]
  omega

theorem splitOn_text4 (x : BitVec 32) :
    (text4 x).splitOn '.' =
      [itoa (byte4 x 0), itoa (byte4 x 1), itoa (byte4 x 2), itoa (byte4 x 3)] := by
  have hdot : ∀ n, '.' ∉ itoa n := fun n => not_mem_itoa (by decide)
  simp only [text4, List.splitOn_append_cons_self, List.splitOn_eq_singleton (hdot _),
    List.cons_append, List.nil_append]

theorem parseIPv4_text4 (x : BitVec 32) : parseIPv4 (text4 x) = some x := by
  simp only [parseIPv4, splitOn_text4, List.mapM_cons, List.mapM_nil,
    parseOctet_itoa (byte4_lt x _), Option.pure_def, Option.bind_eq_bind, Option.bind_some]
  rw [bytes_value]
  simp

theorem parseAddr_text4 (x : BitVec 32) : parseAddr (text4 x) = some (.v4 x) := by
  have hfind : (text4 x).find? (fun c => c == '.' || c == ':' || c == '%') = some '.' := by
    have hdigits : (itoa (byte4 x 0)).find?
        (fun c => c == '.' || c == ':' || c == '%') = none := by
      rw [List.find?_eq_none]
      intro c hc hsep
      have hdigit := isDigit_of_mem_itoa hc
      simp only [Bool.or_eq_true, beq_iff_eq] at hsep
      rcases hsep with (rfl | rfl) | rfl <;> exact absurd hdigit (by decide)
    rw [text4, List.find?_append, hdigits]
    rfl
  rw [parseAddr, hfind]
  simp [parseIPv4_text4]

/-- A printed IPv4 prefix is read back. -/
theorem parsePrefix_prefixText4 {x : BitVec 32} {bits : Nat} (h : bits ≤ 32) :
    parsePrefix (prefixText4 x bits) = some (prefixFrom (.v4 x) bits) := by
  have hslash : '/' ∉ itoa bits := not_mem_itoa (by decide)
  rw [parsePrefix, prefixText4, cutLast_append_cons hslash]
  simp [parseAddr_text4, plainNumber_itoa, Addr.zone, Addr.bitLen, h]

/-- A prefix that overlaps a single IPv4 address contains it. -/
theorem contains_of_overlaps_single {x : BitVec 32} {p : Prefix}
    (h : (prefixFrom (.v4 x) 32).overlaps p = true) : p.contains (.v4 x) = true := by
  obtain ⟨-, hvalid⟩ := Prefix.isValid_of_overlaps h
  obtain ⟨hip, hself, hlen⟩ := @prefixFrom_of_le (.v4 x) 32 rfl (le_refl 32)
  by_cases heq : prefixFrom (.v4 x) 32 = p
  · rw [← heq]
    exact Prefix.contains_prefixFrom_self (a := .v4 x) rfl rfl
  · have hle := Prefix.len_le hvalid
    cases hpip : p.ip with
    | v4 y =>
        rw [hpip] at hle
        have hmin : min 32 p.len = p.len := min_eq_right hle
        simp only [Prefix.overlaps, hself, hvalid, heq, hip, hlen, hpip, hmin, Addr.is4,
          Addr.withoutZone, Bool.not_true, Bool.or_self, Bool.false_eq_true, bne_self_eq_false,
          if_false, Bool.if_true_left, Bool.or_eq_true, decide_eq_true_eq, beq_iff_eq] at h
        rw [Prefix.contains_v4_iff hpip]
        refine ⟨hvalid, ?_⟩
        rcases h with hzero | hsame
        · rw [hzero, agree_iff]
          intro i hi
          rw [BitVec.getLsbD_of_ge _ _ (by omega), BitVec.getLsbD_of_ge _ _ (by omega)]
        · rw [(toPrefix_v4 hle).1, (toPrefix_v4 hle).1] at hsame
          exact agree_comm (and_leading_eq_iff.mp (Addr.v4.inj hsame))
    | v6 y zone =>
        simp [Prefix.overlaps, hself, hvalid, heq, hip, hpip, Addr.is4, Addr.withoutZone] at h
    | zero =>
        rw [hpip] at hle
        have hwf := p.wf (Prefix.isValid_iff.mp hvalid)
        simp [hpip, Addr.bitLen] at hwf

/-! ### The characters of a prefix

A prefix is made of few characters, so a list of prefixes that is joined at any other comes
apart again. -/

theorem isDigit_of_plainNumber {s : List Char} {n : Nat} (h : plainNumber s = some n) :
    ∀ c ∈ s, c.isDigit = true := by
  unfold plainNumber at h
  split at h
  · rename_i hs
    exact List.all_eq_true.mp hs.2.1
  · cases h

/-- What a list of partial steps gives, entry by entry. -/
theorem forall₂_of_mapM {α β : Type} {f : α → Option β} {as : List α} {bs : List β}
    (h : as.mapM f = some bs) : List.Forall₂ (fun a b => f a = some b) as bs := by
  induction as generalizing bs with
  | nil =>
      obtain rfl : [] = bs := by simpa using h
      exact .nil
  | cons a as ih =>
      simp only [List.mapM_cons, Option.bind_eq_bind, Option.bind_eq_some_iff, Option.pure_def,
        Option.some.injEq] at h
      obtain ⟨b, hb, bs', hbs', rfl⟩ := h
      exact .cons hb (ih hbs')

theorem mem_parseIPv4 {s : List Char} {x : BitVec 32} (h : parseIPv4 s = some x) :
    ∀ c ∈ s, c.isDigit = true ∨ c = '.' := by
  unfold parseIPv4 at h
  split at h
  · rename_i a b c d hparts
    intro ch hch
    have hjoin : ['.'].intercalate (s.splitOn '.') = s := List.intercalate_splitOn '.'
    rw [← hjoin] at hch
    rcases mem_of_mem_intercalate hch with rfl | ⟨part, hpart, hch⟩
    · exact Or.inr rfl
    · left
      obtain ⟨n, -, hn⟩ := Checks.exists_of_forall₂_left (forall₂_of_mapM hparts) hpart
      obtain ⟨hplain, -⟩ := Option.filter_eq_some_iff.mp hn
      exact isDigit_of_plainNumber hplain ch hch
  · cases h

theorem is4_of_parseIPv6 {s : List Char} {a : Addr} (h : parseIPv6 s = some a) : a.is4 = false := by
  unfold parseIPv6 at h
  simp only at h
  split at h
  · cases h
  · split at h
    · obtain ⟨all, -, rfl⟩ := Option.map_eq_some_iff.mp h
      rfl
    · cases h

/-- An IPv4 prefix is written with digits, dots and a slash, and an IPv6 prefix with a colon. -/
theorem mem_parsePrefix {s : List Char} {p : Prefix} (h : parsePrefix s = some p) :
    (p.ip.is4 = true ∧ ∀ c ∈ s, c.isDigit = true ∨ c = '.' ∨ c = '/') ∨
      (p.ip.is4 = false ∧ ':' ∈ s) := by
  unfold parsePrefix at h
  split at h
  · rename_i text bitsText hcut
    have hs := cutLast_true hcut
    split at h
    · rename_i ip bits hip hbits
      split at h
      · rename_i hok
        obtain rfl := Option.some.inj h
        have hipEq : (prefixFrom ip bits).ip.is4 = ip.is4 := by
          have hwithout : (prefixFrom ip bits).ip = ip.withoutZone := by
            unfold prefixFrom
            split <;> rfl
          rw [hwithout]
          cases ip <;> rfl
        rw [hipEq]
        unfold parseAddr at hip
        split at hip
        · obtain ⟨x, hx, rfl⟩ := Option.map_eq_some_iff.mp hip
          refine Or.inl ⟨rfl, fun c hc => ?_⟩
          rw [hs] at hc
          rcases List.mem_append.mp hc with hc | hc
          · rcases mem_parseIPv4 hx c hc with hdigit | hdot
            · exact Or.inl hdigit
            · exact Or.inr (Or.inl hdot)
          · rcases List.mem_cons.mp hc with hslash | hc
            · exact Or.inr (Or.inr hslash)
            · exact Or.inl (isDigit_of_plainNumber hbits c hc)
        · rename_i hfind
          have hcolon : ':' ∈ s := by
            rw [hs]
            exact List.mem_append_left _ (List.mem_of_find?_eq_some hfind)
          exact Or.inr ⟨is4_of_parseIPv6 hip, hcolon⟩
        · cases hip
      · cases h
    · cases h
  · cases h

/-! ### The characters of an address

The same for an address; a zone is the only part that is free, and it starts at a `%`. -/

section

variable {sep : Char} (hdigit : hexDigit sep = none) (hcolon : sep ≠ ':') (hdot : sep ≠ '.')
include hdigit hdot

theorem not_mem_of_parseIPv4 {s : List Char} {x : BitVec 32} (h : parseIPv4 s = some x) :
    sep ∉ s := by
  intro hmem
  rcases mem_parseIPv4 h sep hmem with hd | hd
  · rw [hexDigit, if_pos hd] at hdigit
    cases hdigit
  · exact hdot hd

include hcolon

theorem not_mem_of_parseGroups {fuel : Nat} {s : List Char} {groups all : List Nat}
    {ellipsis ellipsis' : Option Nat}
    (h : parseGroups fuel s groups ellipsis = some (all, ellipsis', [])) : sep ∉ s := by
  induction fuel generalizing s groups ellipsis with
  | zero =>
      simp only [parseGroups, Option.some.injEq, Prod.mk.injEq] at h
      simp [h.2.2]
  | succ fuel ih =>
      unfold parseGroups at h
      split at h
      · simp only [Option.some.injEq, Prod.mk.injEq] at h
        simp [h.2.2]
      · simp only at h
        split at h
        · cases h
        have hsplit := List.takeWhile_append_dropWhile (p := fun c => (hexDigit c).isSome) (l := s)
        have hdigits : sep ∉ s.takeWhile fun c => (hexDigit c).isSome := by
          intro hmem
          have hd := List.mem_takeWhile_imp hmem
          simp [hdigit] at hd
        -- what is left after the digits decides
        have hleft : sep ∉ (s.dropWhile fun c => (hexDigit c).isSome) → sep ∉ s := by
          intro hrest hmem
          rw [← hsplit] at hmem
          exact (List.mem_append.mp hmem).elim hdigits hrest
        split at h
        · rename_i hrest
          apply hleft
          simp [hrest]
        · split at h
          · cases h
          · obtain ⟨x, hx, -⟩ := Option.map_eq_some_iff.mp h
            exact not_mem_of_parseIPv4 hdigit hdot hx
        · cases h
        · rename_i rest hrest
          apply hleft
          split at h
          · cases h
          · split at h
            · rename_i hnil
              simp [hrest, hnil, hcolon]
            · have hrec := ih h
              simpa [hrest, hcolon] using hrec
        · rename_i rest _ _ hrest
          apply hleft
          have hrec := ih h
          simpa [hrest, hcolon] using hrec
        · cases h

/-- The text of an address without a zone has hex digits, colons and dots only. -/
theorem not_mem_of_parseAddr {s : List Char} {a : Addr} (h : parseAddr s = some a)
    (hzone : a.zone = "") : sep ∉ s := by
  unfold parseAddr at h
  split at h
  · obtain ⟨x, hx, -⟩ := Option.map_eq_some_iff.mp h
    exact not_mem_of_parseIPv4 hdigit hdot hx
  · unfold parseIPv6 at h
    cases hcut : cut '%' s with
    | mk body tail =>
        obtain ⟨zone, hasZone⟩ := tail
        simp only [hcut] at h
        split at h
        · cases h
        · rename_i hok
          split at h
          · rename_i groups ellipsis hparsed
            obtain ⟨all, -, rfl⟩ := Option.map_eq_some_iff.mp h
            have hnil : zone = [] := by simpa [Addr.zone] using hzone
            obtain rfl : hasZone = false := by simpa [hnil] using hok
            obtain rfl : body = s := cut_false hcut
            split at hparsed
            · simp [hcolon]
            · have hrest := not_mem_of_parseGroups hdigit hcolon hdot hparsed
              simpa [hcolon] using hrest
            · exact not_mem_of_parseGroups hdigit hcolon hdot hparsed
          · cases h
  · cases h

end

theorem zone_of_percent_not_mem {s : List Char} {a : Addr} (h : parseAddr s = some a)
    (hpercent : '%' ∉ s) : a.zone = "" := by
  unfold parseAddr at h
  split at h
  · obtain ⟨x, -, rfl⟩ := Option.map_eq_some_iff.mp h
    rfl
  · unfold parseIPv6 at h
    cases hcut : cut '%' s with
    | mk body tail =>
        obtain ⟨zone, hasZone⟩ := tail
        simp only [hcut] at h
        obtain rfl : hasZone = false := by
          cases hasZone with
          | false => rfl
          | true =>
              rw [cut_true hcut] at hpercent
              simp at hpercent
        have hzone : zone = [] := cut_false_snd hcut
        split at h
        · cases h
        · split at h
          · obtain ⟨all, -, rfl⟩ := Option.map_eq_some_iff.mp h
            simp [Addr.zone, hzone]
          · cases h
  · cases h

theorem parseAddr_ne_zero {s : List Char} : parseAddr s ≠ some .zero := by
  intro h
  unfold parseAddr at h
  split at h
  · simp at h
  · unfold parseIPv6 at h
    simp only at h
    split at h
    · cases h
    · split at h
      · simp at h
      · cases h
  · cases h

theorem colon_mem_iff_of_parseAddr {s : List Char} {a : Addr} (h : parseAddr s = some a) :
    ':' ∈ s ↔ a.is4 = false := by
  unfold parseAddr at h
  split at h
  · obtain ⟨x, hx, rfl⟩ := Option.map_eq_some_iff.mp h
    simp only [Addr.is4, Bool.true_eq_false, iff_false]
    intro hmem
    rcases mem_parseIPv4 hx ':' hmem with hdigit | hdot
    · exact absurd hdigit (by decide)
    · exact absurd hdot (by decide)
  · rename_i hfind
    exact iff_of_true (List.mem_of_find?_eq_some hfind) (is4_of_parseIPv6 h)
  · cases h

end Quicgate.Netip
