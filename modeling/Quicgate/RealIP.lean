import Mathlib.Data.List.Find
import Quicgate.IdentityHeaders

/-!
# The client behind a trusted proxy

Two listeners read the settings `trusted_proxies` and `real_ip_header`: the admin listener
(`clientIPConfig`, with the addresses of `net/netip`) and the data plane (`realIPConfig`,
with the older ones of `net`).  Each has its own walk over the header.  Both are modelled
as they stand and compared.

`clients_agree_iff` says for which requests the two end at one address.  The differences are in
entries with a port, which one walk takes and the other skips
(`entry_with_port_splits_the_readings`), and in lists of proxies that the two libraries read
differently (`Ordinary`).
-/

namespace Quicgate.RealIP

open Quicgate.GoStrings Quicgate.GoNet Quicgate.Netip
open Quicgate.Identity (canonicalHeaderKey)
open Quicgate.Store (validHeaderToken)

structure Request where
  remoteAddr : String
  header : Header

def values (h : Header) (name : String) : List (List Char) :=
  (h.filter (·.1 == canonicalHeaderKey name)).map (·.2.toList)

/-- `validHeaderName`, the same token that the store asks of a header rule. -/
def validHeaderName (s : String) : Bool := validHeaderToken s

/-- The address a request is counted under: the host of its socket, or an address read
from the header, which stands for its text. -/
inductive Client where
  | socket (host : List Char)
  | addr (a : Addr)
deriving DecidableEq, Repr

/-- `socketIP` of the admin listener and `hostOnly` of the engine. -/
def hostOnly (addr : String) : List Char :=
  match splitHostPort addr.toList with
  | some (host, _) => host
  | none => addr.toList

/-! ### The admin listener

The configuration is loaded with the settings, and `clientIP` walks the entries from the right. -/

structure ClientIPConfig where
  nets : List Prefix
  header : String

namespace ClientIPConfig

def trusts (c : ClientIPConfig) (ip : Addr) : Bool := c.nets.any (·.contains ip.unmap)

end ClientIPConfig

def splitProxyList (raw : List Char) : List (List Char) :=
  (raw.splitOnP fun c => c == ',' || c == '\n' || c == '\r' || c == '\t' || c == ' ').filter
    (· ≠ [])

def parseProxyToken (tok : List Char) : Except String Prefix :=
  let parsed :=
    if '/' ∈ tok then parsePrefix tok else (parseAddr tok).map fun a => prefixFrom a a.bitLen
  match parsed with
  | none => .error (String.ofList tok ++ " is not an address or a range like 10.0.0.0/8")
  | some p =>
      if p.bits = 0 then
        .error (String.ofList tok ++
          " would trust every address on the internet; list the proxies' own addresses")
      else .ok p.masked

def parseTrustedProxies (raw : String) : Except String (List Prefix) :=
  (splitProxyList raw.toList).mapM parseProxyToken

/-- An entry that does not parse is ignored. -/
def loadClientIP (trustedProxies realIPHeader : String) : ClientIPConfig where
  nets := (splitProxyList trustedProxies.toList).filterMap fun tok => (parseProxyToken tok).toOption
  header := String.ofList (trimSpace realIPHeader.toList)

def parseHop (s : List Char) : Option Addr :=
  match parseAddr (trimSpace s) with
  | some a => some a.unmap
  | none => (parseAddrPort (trimSpace s)).map (·.addr.unmap)

namespace ClientIPConfig

def walk (c : ClientIPConfig) (peer : List Char) (otherwise : Client) :
    List (List Char) → Client
  | [] => otherwise
  | hop :: rest =>
      match parseHop hop with
      | none => .socket peer
      | some ip => if c.trusts ip then walk c peer otherwise rest else .addr ip

def clientIP (c : ClientIPConfig) (r : Request) : Client :=
  let peer := hostOnly r.remoteAddr
  if c.header = "" ∨ c.nets = [] then .socket peer
  else match parseAddr peer with
    | none => .socket peer
    | some pip =>
        if c.trusts pip then
          let hops := (values r.header c.header).flatMap (·.splitOn ',')
          -- every hop was a trusted proxy: its first one is the closest thing to a client
          let first := match hops.head?.bind parseHop with
            | some ip => .addr ip
            | none => .socket peer
          c.walk peer first hops.reverse
        else .socket peer

end ClientIPConfig

/-! ### The engine

`buildRealIP` reads the same settings.  `realClientIP` gives `""` where the socket address
counts. -/

structure RealIPConfig where
  nets : List IPNet
  header : String

/-- The token as `buildRealIP` hands it to `net.ParseCIDR`. -/
def withMask (tok : List Char) : List Char :=
  if '/' ∈ tok then tok else if ':' ∈ tok then tok ++ "/128".toList else tok ++ "/32".toList

def buildRealIP (trustedProxies realIPHeader : String) : RealIPConfig where
  nets := (splitProxyList trustedProxies.toList).filterMap fun tok => parseCIDR (withMask tok)
  header := String.ofList (trimSpace realIPHeader.toList)

namespace RealIPConfig

def trusts (c : RealIPConfig) (ip : IP) : Bool := c.nets.any (·.contains ip)

def realClientIP (c : RealIPConfig) (r : Request) : Option IP :=
  match parseIP (hostOnly r.remoteAddr) with
  | none => none
  | some pip =>
      if c.trusts pip then
        let vals := ([','].intercalate (values r.header c.header)).splitOn ','
        let parsed v := parseIP (trimSpace v)
        match vals.reverse.findSome? fun v => (parsed v).filter fun ip => !c.trusts ip with
        | some ip => some ip
        | none => vals.findSome? parsed
      else none

end RealIPConfig

/-- The address of a `net.IP`, whose text is that of the IPv4 address when it is one. -/
def addrOf (ip : IP) : Addr := (Addr.v6 ip "").unmap

/-- The client of the engine's reading: the socket where `realClientIP` gives `""`. -/
def RealIPConfig.client (c : RealIPConfig) (r : Request) : Client :=
  match c.realClientIP r with
  | some ip => .addr (addrOf ip)
  | none => .socket (hostOnly r.remoteAddr)

/-! ### The same address

The two sides are compared by the addresses they come to; a socket that is no address is
compared as text. -/

/-- The address of a client, and the text of a socket that is no address. -/
def Client.address : Client → Addr ⊕ List Char
  | socket host =>
      match parseAddr host with
      | some a => .inl a.unmap
      | none => .inr host
  | addr a => .inl a

def entries (header : String) (r : Request) : List (List Char) :=
  (values r.header (String.ofList (trimSpace header.toList))).flatMap (·.splitOn ',')

/-- The address of an entry that is an address and nothing else. -/
def plainAddr (v : List Char) : Option Addr := (parseIP (trimSpace v)).map addrOf

/-! ### One address in two libraries

What `net.ParseIP` reads is what `netip.ParseAddr` reads, less the zones. -/

theorem to4_mapped (x : BitVec 32) : to4 (mapped x) = some x := by
  have hhigh : mapped x >>> 32 = 0xffff#128 := by
    simp only [mapped]
    apply BitVec.eq_of_toNat_eq
    have hx : x.toNat < 2 ^ 32 := x.isLt
    simp only [BitVec.toNat_ushiftRight, BitVec.toNat_or, BitVec.toNat_setWidth,
      BitVec.toNat_ofNat, Nat.shiftRight_or_distrib]
    rw [Nat.mod_eq_of_lt (Nat.lt_trans hx (by decide)), Nat.shiftRight_eq_div_pow x.toNat,
      Nat.div_eq_of_lt hx]
    decide
  have hlow : (mapped x).setWidth 32 = x := by
    apply BitVec.eq_of_getLsbD_eq
    intro i hi
    simp only [mapped, BitVec.getLsbD_setWidth, BitVec.getLsbD_or, hi, decide_true, Bool.true_and]
    have hzero : ∀ i < 32, (0xffff00000000#128).getLsbD i = false := by decide
    rw [hzero i hi]
    simp [Nat.lt_trans hi (by decide : 32 < 128)]
  simp [to4, hhigh, hlow]

theorem addrOf_eq (ip : IP) : addrOf ip =
    match to4 ip with
    | some x => .v4 x
    | none => .v6 ip "" := by
  unfold addrOf Addr.unmap to4
  by_cases h : ip >>> 32 = 0xffff#128
  · simp [h]
  · simp [h]

@[simp] theorem unmap_addrOf (ip : IP) : (addrOf ip).unmap = addrOf ip := by
  rw [addrOf_eq]
  cases h : to4 ip with
  | some x => rfl
  | none =>
      have hne : ip >>> 32 ≠ 0xffff#128 := by
        intro heq
        simp [to4, heq] at h
      simp [Addr.unmap, hne]

@[simp] theorem unmap_unmap (a : Addr) : a.unmap.unmap = a.unmap := by
  cases a with
  | zero => rfl
  | v4 x => rfl
  | v6 x zone =>
      by_cases h : x >>> 32 = 0xffff#128
      · simp [Addr.unmap, h]
      · simp [Addr.unmap, h]

/-- `net.ParseIP` reads the addresses without a zone. -/
theorem parseIP_eq_some_iff {s : List Char} {ip : IP} :
    parseIP s = some ip ↔ ∃ a, parseAddr s = some a ∧ a.zone = "" ∧
      (a = .v6 ip "" ∨ ∃ x, a = .v4 x ∧ ip = mapped x) := by
  unfold parseIP
  constructor
  · intro h
    split at h
    · rename_i x hparse
      exact ⟨_, hparse, rfl, Or.inr ⟨x, rfl, (Option.some.inj h).symm⟩⟩
    · rename_i x zone hparse
      split at h
      · rename_i hzone
        subst hzone
        obtain rfl := Option.some.inj h
        exact ⟨_, hparse, rfl, Or.inl rfl⟩
      · cases h
    · cases h
  · rintro ⟨a, hparse, -, rfl | ⟨x, rfl, rfl⟩⟩
    · simp [hparse]
    · simp [hparse]

theorem parseAddr_of_parseIP {s : List Char} {ip : IP} (h : parseIP s = some ip) :
    ∃ a, parseAddr s = some a ∧ a.unmap = addrOf ip := by
  obtain ⟨a, hparse, -, rfl | ⟨x, rfl, rfl⟩⟩ := parseIP_eq_some_iff.mp h
  · exact ⟨_, hparse, rfl⟩
  · refine ⟨_, hparse, ?_⟩
    rw [addrOf_eq, to4_mapped]
    rfl

/-- An address that is nothing else is read by both. -/
theorem parseHop_of_plainAddr {v : List Char} {a : Addr} (h : plainAddr v = some a) :
    parseHop v = some a := by
  obtain ⟨ip, hip, rfl⟩ := Option.map_eq_some_iff.mp h
  obtain ⟨a, hparse, hunmap⟩ := parseAddr_of_parseIP hip
  simp [parseHop, hparse, hunmap]

/-! ### One list of trusted proxies in two libraries

The prefixes of the two libraries hold the same addresses, but for IPv4 networks that are
written as IPv6 ones. -/

def netOf (a : Addr) (n : Nat) : IPNet :=
  match a with
  | .v4 x => ⟨mapped (x &&& leading 32 n), n, 32⟩
  | .v6 x _ => ⟨x &&& leading 128 n, n, 128⟩
  | .zero => ⟨0, n, 0⟩

theorem parseCIDR_eq {text mask : List Char} {a : Addr} (haddr : parseAddr text = some a)
    (hzone : a.zone = "") (hne : mask ≠ []) (hdigits : mask.all Char.isDigit = true)
    (hbits : Nat.ofDigitChars 10 mask 0 ≤ a.bitLen) :
    parseCIDR (text ++ '/' :: mask) = some (netOf a (Nat.ofDigitChars 10 mask 0)) := by
  have hslash := not_mem_of_parseAddr (by decide : hexDigit '/' = none) (by decide) (by decide)
    haddr hzone
  rw [parseCIDR, cut_append_cons hslash mask]
  simp only [haddr, hzone, hne, hdigits, hbits, ne_eq, not_false_eq_true, and_self, if_true]
  cases a with
  | v4 x => rfl
  | v6 x zone => rfl
  | zero => exact absurd haddr parseAddr_ne_zero

/-- A network of `net` and a prefix of `netip` that no IPv4 address is hidden in hold the
same addresses. -/
theorem contains_netOf {text : List Char} {a : Addr} {n : Nat} (haddr : parseAddr text = some a)
    (hzone : a.zone = "") (hn : n ≤ a.bitLen)
    (hplain : (prefixFrom a n).masked.ip.unmap = (prefixFrom a n).masked.ip) (ip : IP) :
    (netOf a n).contains ip = (prefixFrom a n).masked.contains (addrOf ip) := by
  have hvalid : ∀ x : BitVec 32, ∀ y : BitVec 128,
      (Addr.v4 x).isValid = true ∧ (Addr.v6 y "").isValid = true := fun _ _ => ⟨rfl, rfl⟩
  cases a with
  | zero => exact absurd haddr parseAddr_ne_zero
  | v4 x =>
      obtain ⟨hpip, hpv, hpl⟩ := prefixFrom_of_le (hvalid x 0).1 hn
      obtain ⟨hip, hv, hl⟩ := toPrefix_v4 (x := x) hn
      have hmask : (prefixFrom (.v4 x) n).masked = (Addr.v4 x).toPrefix n := by
        simp [Prefix.masked, hpv, hpip, hpl, Addr.withoutZone]
      rw [hmask, addrOf_eq]
      cases hto : to4 ip with
      | some y => simp [netOf, IPNet.contains, to4_mapped, hto, Prefix.contains, hip, hv, hl]
      | none => simp [netOf, IPNet.contains, to4_mapped, hto, Prefix.contains, hip]
  | v6 x zone =>
      obtain rfl : zone = "" := hzone
      obtain ⟨hpip, hpv, hpl⟩ := prefixFrom_of_le (hvalid 0 x).2 hn
      obtain ⟨hip, hv, hl⟩ := @toPrefix_v6 _ x "" hn
      have hmask : (prefixFrom (.v6 x "") n).masked = (Addr.v6 x "").toPrefix n := by
        simp [Prefix.masked, hpv, hpip, hpl, Addr.withoutZone]
      rw [hmask, hip] at hplain
      have hto4 : to4 (x &&& leading 128 n) = none := by
        unfold to4
        rw [if_neg]
        intro hmapped
        simp [Addr.unmap, hmapped] at hplain
      rw [hmask, addrOf_eq]
      cases hto : to4 ip with
      | some y => simp [netOf, IPNet.contains, hto4, hto, Prefix.contains, hip]
      | none => simp [netOf, IPNet.contains, hto4, hto, Prefix.contains, hip, hv, hl]

/-- An entry of the list that both libraries take for the same network: it has no zone,
and it is not an IPv4 network written as an IPv6 one. -/
def Ordinary (tok : List Char) : Prop :=
  '%' ∉ tok ∧ ∀ p ∈ (parseProxyToken tok).toOption, p.ip.unmap = p.ip

instance (tok : List Char) : Decidable (Ordinary tok) :=
  inferInstanceAs (Decidable (_ ∧ _))

/-- What an accepted entry is: an address, and how many of its bits count. -/
theorem parseProxyToken_ok {tok : List Char} {p : Prefix} (h : parseProxyToken tok = .ok p) :
    ∃ text mask a, parseAddr text = some a ∧
      p = (prefixFrom a (Nat.ofDigitChars 10 mask 0)).masked ∧
      mask ≠ [] ∧ mask.all Char.isDigit = true ∧ Nat.ofDigitChars 10 mask 0 ≤ a.bitLen ∧
      (∀ c ∈ text, c ∈ tok) ∧ withMask tok = text ++ '/' :: mask := by
  unfold parseProxyToken at h
  by_cases hslash : '/' ∈ tok
  · simp only [hslash, if_true] at h
    cases hparse : parsePrefix tok with
    | none => simp [hparse] at h
    | some q =>
        simp only [hparse] at h
        split at h
        · cases h
        obtain rfl := Except.ok.inj h
        unfold parsePrefix at hparse
        split at hparse
        · rename_i text mask hcut
          have htok := cutLast_true hcut
          split at hparse
          · rename_i a bits haddr hbits
            split at hparse
            · rename_i hok
              obtain rfl := Option.some.inj hparse
              obtain ⟨hdigits, rfl⟩ := plainNumber_eq_some hbits
              refine ⟨text, mask, a, haddr, rfl, hdigits.1, hdigits.2, hok.2, ?_, ?_⟩
              · intro c hc
                rw [htok]
                exact List.mem_append_left _ hc
              · rw [withMask, if_pos hslash, htok]
            · cases hparse
          · cases hparse
        · cases hparse
  · simp only [hslash, if_false] at h
    cases haddr : parseAddr tok with
    | none => simp [haddr] at h
    | some a =>
        simp only [haddr, Option.map_some] at h
        split at h
        · cases h
        obtain rfl := Except.ok.inj h
        have hcolon := colon_mem_iff_of_parseAddr haddr
        cases a with
        | zero => exact absurd haddr parseAddr_ne_zero
        | v4 x =>
            have hno : ':' ∉ tok := by simp [hcolon, Addr.is4]
            have hmask : Nat.ofDigitChars 10 "32".toList 0 = 32 := by decide
            refine ⟨tok, "32".toList, _, haddr, rfl, by decide, by decide, hmask.le,
              fun _ hc => hc, ?_⟩
            rw [withMask, if_neg hslash, if_neg hno]
            rfl
        | v6 x zone =>
            have hyes : ':' ∈ tok := by simp [hcolon, Addr.is4]
            have hmask : Nat.ofDigitChars 10 "128".toList 0 = 128 := by decide
            refine ⟨tok, "128".toList, _, haddr, rfl, by decide, by decide, hmask.le,
              fun _ hc => hc, ?_⟩
            rw [withMask, if_neg hslash, if_pos hyes]
            rfl

/-- Both readings of an ordinary entry hold the same addresses. -/
theorem exists_net_of_ordinary {tok : List Char} {p : Prefix} (h : parseProxyToken tok = .ok p)
    (hordinary : Ordinary tok) :
    ∃ n, parseCIDR (withMask tok) = some n ∧ ∀ ip, n.contains ip = p.contains (addrOf ip) := by
  obtain ⟨text, mask, a, haddr, rfl, hne, hdigits, hbits, hmem, hmask⟩ := parseProxyToken_ok h
  have hpercent : '%' ∉ text := fun hc => hordinary.1 (hmem _ hc)
  have hzone := zone_of_percent_not_mem haddr hpercent
  have hunmap := hordinary.2 (prefixFrom a (Nat.ofDigitChars 10 mask 0)).masked (by rw [h]; rfl)
  refine ⟨_, ?_, contains_netOf haddr hzone hbits hunmap⟩
  rw [hmask]
  exact parseCIDR_eq haddr hzone hne hdigits hbits

/-- A list of ordinary entries trusts the same addresses on both sides. -/
theorem trusts_of_ordinary {trustedProxies header : String} {nets : List Prefix}
    (haccepted : parseTrustedProxies trustedProxies = .ok nets)
    (hordinary : ∀ tok ∈ splitProxyList trustedProxies.toList, Ordinary tok) (ip : IP) :
    (loadClientIP trustedProxies header).trusts (addrOf ip) =
      (buildRealIP trustedProxies header).trusts ip := by
  simp only [ClientIPConfig.trusts, RealIPConfig.trusts, loadClientIP, buildRealIP, unmap_addrOf]
  unfold parseTrustedProxies at haccepted
  generalize splitProxyList trustedProxies.toList = toks at haccepted hordinary
  induction toks generalizing nets with
  | nil => rfl
  | cons tok toks ih =>
      cases htok : parseProxyToken tok with
      | error e => simp [List.mapM_cons, htok, bind, Except.bind] at haccepted
      | ok p =>
          cases hrest : toks.mapM parseProxyToken with
          | error e => simp [List.mapM_cons, htok, hrest, bind, Except.bind] at haccepted
          | ok ps =>
              obtain ⟨n, hn, hcontains⟩ := exists_net_of_ordinary htok (hordinary tok (by simp))
              have hrec := ih hrest fun t ht => hordinary t (List.mem_cons_of_mem _ ht)
              have hsome : (parseProxyToken tok).toOption = some p := by rw [htok]; rfl
              simp only [List.filterMap_cons, hsome, hn, List.any_cons, hcontains]
              rw [hrec]

/-! ### The two walks

Each walk is a search from the right: the first entry that is not a trusted address, and the
first plain address that is not trusted. -/

def deciding (c : ClientIPConfig) (hops : List (List Char)) : Option (List Char) :=
  hops.reverse.find? fun v => !(parseHop v).any c.trusts

theorem walk_eq (c : ClientIPConfig) (peer : List Char) (otherwise : Client)
    (hops : List (List Char)) :
    c.walk peer otherwise hops =
      match hops.find? fun v => !(parseHop v).any c.trusts with
      | none => otherwise
      | some v =>
          match parseHop v with
          | none => .socket peer
          | some ip => .addr ip := by
  induction hops with
  | nil => rfl
  | cons hop rest ih =>
      unfold ClientIPConfig.walk
      cases hhop : parseHop hop with
      | none => simp [hhop]
      | some ip =>
          by_cases htrust : c.trusts ip = true
          · simpa [List.find?_cons, hhop, htrust] using ih
          · simp [hhop, htrust]

theorem findSome?_join {β : Type} {f : List Char → Option β} (hf : f [] = none)
    (lines : List (List Char)) :
    (([','].intercalate lines).splitOn ',').findSome? f =
        (lines.flatMap (·.splitOn ',')).findSome? f ∧
      (([','].intercalate lines).splitOn ',').reverse.findSome? f =
        (lines.flatMap (·.splitOn ',')).reverse.findSome? f := by
  cases lines with
  | nil => simp [List.splitOn_nil, hf]
  | cons line rest => simp [splitOn_join (List.cons_ne_nil line rest)]

def plainAddrs (hops : List (List Char)) : List Addr := hops.filterMap plainAddr

def adminAddr (c : ClientIPConfig) (peer : Addr) (hops : List (List Char)) : Addr :=
  match deciding c hops with
  | none => (hops.head?.bind parseHop).getD peer
  | some v => (parseHop v).getD peer

def engineAddr (c : ClientIPConfig) (peer : Addr) (hops : List (List Char)) : Addr :=
  (((plainAddrs hops).reverse.find? fun a => !c.trusts a).or (plainAddrs hops).head?).getD peer

/-- Both readings of the trusted proxies agree on the peer of a request. Where they trust it
they agree on the addresses of its header too, as far as the engine reads: up to the first
one from the right that is not trusted. -/
structure TrustAlike (c : ClientIPConfig) (e : RealIPConfig) (header : String) (r : Request) :
    Prop where
  peer : ∀ a, parseAddr (hostOnly r.remoteAddr) = some a →
    c.trusts a = (parseIP (hostOnly r.remoteAddr)).any e.trusts
  entry : ∀ pip, parseAddr (hostOnly r.remoteAddr) = some pip → c.trusts pip = true →
    ∀ before v after, entries header r = before ++ v :: after →
      (∀ w ∈ after, ∀ a ∈ plainAddr w, c.trusts a = true) →
      ∀ ip, parseIP (trimSpace v) = some ip → c.trusts (addrOf ip) = e.trusts ip

/-- Two readings that agree as far as the first address that the one does not trust stop at
the same address; `hops` from the right. -/
theorem find?_congr_of_alike {c : ClientIPConfig} {e : RealIPConfig} {hops : List (List Char)}
    (h : ∀ before v after, hops = before ++ v :: after →
      (∀ w ∈ before, ∀ a ∈ plainAddr w, c.trusts a = true) →
      ∀ ip, parseIP (trimSpace v) = some ip → c.trusts (addrOf ip) = e.trusts ip) :
    (hops.filterMap fun v => parseIP (trimSpace v)).find? ((fun a => !c.trusts a) ∘ addrOf) =
      (hops.filterMap fun v => parseIP (trimSpace v)).find? fun ip => !e.trusts ip := by
  induction hops with
  | nil => rfl
  | cons v rest ih =>
      have hrest : (∀ a ∈ plainAddr v, c.trusts a = true) →
          (rest.filterMap fun v => parseIP (trimSpace v)).find? ((fun a => !c.trusts a) ∘ addrOf) =
            (rest.filterMap fun v => parseIP (trimSpace v)).find? fun ip => !e.trusts ip := by
        intro hv
        apply ih
        intro before w after hsplit hbefore
        exact h (v :: before) w after (by rw [hsplit, List.cons_append])
          (List.forall_mem_cons.mpr ⟨hv, hbefore⟩)
      cases hparse : parseIP (trimSpace v) with
      | none =>
          simp only [List.filterMap_cons, hparse]
          apply hrest
          simp [plainAddr, hparse]
      | some ip =>
          have halike := h [] v rest rfl (by simp) ip hparse
          simp only [List.filterMap_cons, hparse]
          cases htrust : c.trusts (addrOf ip) with
          | true =>
              have htrust' : e.trusts ip = true := halike ▸ htrust
              rw [List.find?_cons_of_neg (by simp [htrust]),
                List.find?_cons_of_neg (by simp [htrust'])]
              apply hrest
              simp [plainAddr, hparse, htrust]
          | false =>
              have htrust' : e.trusts ip = false := halike ▸ htrust
              rw [List.find?_cons_of_pos (by simp [htrust]),
                List.find?_cons_of_pos (by simp [htrust'])]

section Walks

variable {trustedProxies header : String} {r : Request} {pip : Addr}

/-- No character of a header name is a blank. -/
theorem isSpace_of_validHeaderName (h : validHeaderName header = true) :
    ∀ c ∈ header.toList, isSpace c = false := by
  intro c hc
  simp only [validHeaderName, validHeaderToken, Bool.and_eq_true, List.all_eq_true] at h
  have htoken := h.2 c hc
  by_contra hspace
  rw [Bool.not_eq_false, isSpace, Bool.or_eq_true] at hspace
  rcases hspace with hlist | hrange
  · have hnone : (['\t', '\n', '\x0b', '\x0c', '\r', ' ', '\u0085', '\u00a0', '\u1680',
        '\u2028', '\u2029', '\u202f', '\u205f', '\u3000'].all fun d =>
        !(('a' ≤ d && d ≤ 'z') || ('A' ≤ d && d ≤ 'Z') || ('0' ≤ d && d ≤ '9') ||
          "!#$%&'*+-.^_`|~".toList.contains d)) = true := by decide
    have hc := List.all_eq_true.mp hnone c (of_decide_eq_true hlist)
    rw [htoken] at hc
    cases hc
  · -- the blanks above ASCII are above every character of a name
    have hbig : 0x2000 ≤ c.toNat := by
      rw [Bool.and_eq_true, decide_eq_true_eq] at hrange
      exact hrange.1
    have hle : ∀ d : Char, d.toNat < 128 → ¬ c ≤ d := by
      intro d hd hcd
      have : c.toNat ≤ d.toNat := hcd
      omega
    have hmem : ("!#$%&'*+-.^_`|~".toList.all fun d => decide (d.toNat < 128)) = true := by decide
    simp only [Bool.or_eq_true, Bool.and_eq_true, decide_eq_true_eq,
      List.contains_iff_mem] at htoken
    rcases htoken with ((h | h) | h) | h
    · exact hle 'z' (by decide) h.2
    · exact hle 'Z' (by decide) h.2
    · exact hle '9' (by decide) h.2
    · exact hle c (of_decide_eq_true (List.all_eq_true.mp hmem c h)) (Nat.le_refl c.toNat)

theorem trim_ne_empty (h : validHeaderName header = true) :
    String.ofList (trimSpace header.toList) ≠ "" := by
  rw [trimSpace_of_forall (isSpace_of_validHeaderName h), String.ofList_toList]
  rintro rfl
  exact absurd h (by decide)

theorem address_clientIP (hheader : validHeaderName header = true)
    (hpip : parseAddr (hostOnly r.remoteAddr) = some pip)
    (htrust : (loadClientIP trustedProxies header).trusts pip = true) :
    ((loadClientIP trustedProxies header).clientIP r).address =
      .inl (adminAddr (loadClientIP trustedProxies header) pip.unmap (entries header r)) := by
  have hnets : (loadClientIP trustedProxies header).nets ≠ [] := by
    intro hnil
    simp [ClientIPConfig.trusts, hnil] at htrust
  have hname : (loadClientIP trustedProxies header).header ≠ "" := trim_ne_empty hheader
  have hsocket : (Client.socket (hostOnly r.remoteAddr)).address = .inl pip.unmap := by
    simp [Client.address, hpip]
  unfold ClientIPConfig.clientIP
  simp only [hnets, hname, or_self, if_false, hpip, htrust, if_true, walk_eq]
  change Client.address (match deciding _ (entries header r) with
    | none => _
    | some v => _) = _
  unfold adminAddr
  cases hdec : deciding (loadClientIP trustedProxies header) (entries header r) with
  | none =>
      change Client.address (match (entries header r).head?.bind parseHop with
        | some ip => _
        | none => _) = _
      cases (entries header r).head?.bind parseHop with
      | none => exact hsocket
      | some ip => rfl
  | some v =>
      simp only
      cases parseHop v with
      | none => exact hsocket
      | some ip => rfl

/-- An entry that decides and is an address is where the engine stops too. -/
theorem find?_plainAddrs {c : ClientIPConfig} {hops : List (List Char)} {v : List Char} {a : Addr}
    (hdec : deciding c hops = some v) (hplain : plainAddr v = some a) :
    ((plainAddrs hops).reverse.find? fun a => !c.trusts a) = some a := by
  have hhop := parseHop_of_plainAddr hplain
  have huntrusted : c.trusts a = false := by
    have hfound := List.find?_some hdec
    simpa [hhop] using hfound
  obtain ⟨-, before, after, hsplit, hbefore⟩ := List.find?_eq_some_iff_append.mp hdec
  unfold plainAddrs
  rw [← List.filterMap_reverse, hsplit, List.filterMap_append, List.find?_append,
    List.filterMap_cons_some hplain, List.find?_cons_of_pos (by simp [huntrusted])]
  have hnone : ((before.filterMap plainAddr).find? fun a => !c.trusts a) = none := by
    rw [List.find?_eq_none]
    intro b hb
    obtain ⟨w, hw, hwb⟩ := List.mem_filterMap.mp hb
    have htrusted := hbefore w hw
    simpa [parseHop_of_plainAddr hwb] using htrusted
  rw [hnone]
  rfl

theorem realClientIP_eq {e : RealIPConfig} {ip : IP}
    (hip : parseIP (hostOnly r.remoteAddr) = some ip) (htrust : e.trusts ip = true)
    (hheader : e.header = String.ofList (trimSpace header.toList)) :
    e.realClientIP r =
      (((entries header r).filterMap fun v => parseIP (trimSpace v)).reverse.find?
        fun ip => !e.trusts ip).or
      ((entries header r).filterMap fun v => parseIP (trimSpace v)).head? := by
  have hjoin := fun f hf => @findSome?_join IP f hf (values r.header e.header)
  unfold RealIPConfig.realClientIP
  simp only [hip, htrust, if_true]
  rw [(hjoin (fun v => parseIP (trimSpace v)) rfl).1,
    (hjoin (fun v => (parseIP (trimSpace v)).filter fun ip => !e.trusts ip) rfl).2, hheader]
  rw [← List.filterMap_reverse, ← List.head?_filter, List.filter_filterMap, List.head?_filterMap,
    List.head?_filterMap]
  unfold entries
  generalize List.findSome? _ (List.reverse _) = last
  cases last with
  | none => rfl
  | some ip => rfl

theorem address_client (halike : TrustAlike (loadClientIP trustedProxies header)
      (buildRealIP trustedProxies header) header r)
    (hpip : parseAddr (hostOnly r.remoteAddr) = some pip)
    (htrust : (loadClientIP trustedProxies header).trusts pip = true) :
    ((buildRealIP trustedProxies header).client r).address =
      .inl (engineAddr (loadClientIP trustedProxies header) pip.unmap (entries header r)) := by
  have hpeer := halike.peer pip hpip
  rw [htrust] at hpeer
  obtain ⟨ip, hip, hiptrust⟩ := (Option.any_eq_true _ _).mp hpeer.symm
  have hsocket : (Client.socket (hostOnly r.remoteAddr)).address = .inl pip.unmap := by
    simp [Client.address, hpip]
  have hplain : plainAddrs (entries header r) =
      ((entries header r).filterMap fun v => parseIP (trimSpace v)).map addrOf := by
    rw [List.map_filterMap]
    rfl
  have hfind : (((entries header r).filterMap fun v => parseIP (trimSpace v)).reverse.find?
        ((fun a => !(loadClientIP trustedProxies header).trusts a) ∘ addrOf)) =
      ((entries header r).filterMap fun v => parseIP (trimSpace v)).reverse.find?
        fun ip => !(buildRealIP trustedProxies header).trusts ip := by
    rw [← List.filterMap_reverse]
    apply find?_congr_of_alike
    intro before v after hsplit hbefore
    refine halike.entry pip hpip htrust after.reverse v before.reverse ?_ ?_
    · rw [← List.reverse_reverse (entries header r), hsplit]
      simp
    · intro w hw
      exact hbefore w (List.mem_reverse.mp hw)
  unfold RealIPConfig.client
  rw [realClientIP_eq hip hiptrust rfl, engineAddr, hplain, ← List.map_reverse, List.find?_map,
    List.head?_map, hfind]
  generalize List.find? _ (List.reverse _) = last
  generalize List.head? _ = first
  cases last with
  | some ip => rfl
  | none =>
      cases first with
      | some ip => rfl
      | none => exact hsocket

end Walks

/-! ### When the two readings agree

The condition is on the header where the peer is trusted; where neither side trusts it, both
take the socket's address. -/

/-- What a header has to look like for both readings to end at one address. The entry
that decides, from the right, is an address with nothing else; or it is an untrusted
address with a port, and the last untrusted one of the plain addresses is the same; or it
is no address, and the plain ones lead the engine back to the peer. Without such an entry
the first one is the first plain address, or the peer's where there is none. -/
def HeaderAlike (c : ClientIPConfig) (peer : Addr) (hops : List (List Char)) : Prop :=
  match deciding c hops with
  | some v =>
      match plainAddr v, parseHop v with
      | some _, _ => True
      | none, some a => ((plainAddrs hops).reverse.find? fun a => !c.trusts a) = some a
      | none, none =>
          (∀ a ∈ plainAddrs hops, c.trusts a = true) ∧ ∀ a ∈ (plainAddrs hops).head?, a = peer
  | none => ∀ v ∈ hops.head?, parseHop v = some ((plainAddrs hops).head?.getD peer)

theorem adminAddr_eq_engineAddr_iff {c : ClientIPConfig} {peer : Addr}
    (hpeer : c.trusts peer = true) (hops : List (List Char)) :
    adminAddr c peer hops = engineAddr c peer hops ↔ HeaderAlike c peer hops := by
  have hhead : ∀ a ∈ (plainAddrs hops).head?, a ∈ plainAddrs hops :=
    fun a ha => List.mem_of_mem_head? ha
  have hnone : ((plainAddrs hops).reverse.find? fun a => !c.trusts a) = none ↔
      ∀ a ∈ plainAddrs hops, c.trusts a = true := by
    simp [List.find?_eq_none]
  unfold adminAddr engineAddr HeaderAlike
  cases hdec : deciding c hops with
  | none =>
      -- every entry is the address of a trusted proxy
      have hall : ∀ v ∈ hops, ∃ a, parseHop v = some a ∧ c.trusts a = true := by
        intro v hv
        have htrusted := List.find?_eq_none.mp hdec v (List.mem_reverse.mpr hv)
        simpa [Option.any_eq_true] using htrusted
      have hlast := hnone.mpr (by
        intro a ha
        obtain ⟨v, hv, hplain⟩ := List.mem_filterMap.mp ha
        obtain ⟨b, hb, htrust⟩ := hall v hv
        rw [parseHop_of_plainAddr hplain] at hb
        exact (Option.some.inj hb) ▸ htrust)
      rw [hlast]
      cases hops with
      | nil => simp [plainAddrs]
      | cons v rest =>
          obtain ⟨b, hb, -⟩ := hall v List.mem_cons_self
          simp [hb]
  | some v =>
      have hfound := List.find?_some hdec
      cases hplain : plainAddr v with
      | some a => simp [hplain, find?_plainAddrs hdec hplain, parseHop_of_plainAddr hplain]
      | none =>
          cases hhop : parseHop v with
          | some a =>
              simp only [hplain, hhop, Option.getD_some]
              have huntrusted : c.trusts a = false := by simpa [hhop] using hfound
              cases hlast : (plainAddrs hops).reverse.find? fun a => !c.trusts a with
              | some b =>
                  simp only [Option.some_or, Option.getD_some, Option.some.injEq]
                  exact eq_comm
              | none =>
                  -- the engine falls back on a trusted address
                  have htrust := hnone.mp hlast
                  have hne : ∀ b, c.trusts b = true → a ≠ b := by
                    rintro b hb rfl
                    rw [huntrusted] at hb
                    cases hb
                  cases hfirst : (plainAddrs hops).head? with
                  | some b => simp [hne b (htrust b (hhead b hfirst))]
                  | none => simp [hne peer hpeer]
          | none =>
              simp only [hplain, hhop, Option.getD_none]
              cases hlast : (plainAddrs hops).reverse.find? fun a => !c.trusts a with
              | some b =>
                  have hb : c.trusts b = false := by simpa using List.find?_some hlast
                  have hmem : b ∈ plainAddrs hops :=
                    List.mem_reverse.mp (List.mem_of_find?_eq_some hlast)
                  simp only [Option.some_or, Option.getD_some]
                  constructor
                  · rintro rfl
                    rw [hpeer] at hb
                    cases hb
                  · intro hall
                    rw [hall.1 b hmem] at hb
                    cases hb
              | none =>
                  have htrust := hnone.mp hlast
                  rw [Option.none_or, and_iff_right htrust]
                  cases hfirst : (plainAddrs hops).head? with
                  | some b =>
                      simp only [Option.getD_some, Option.mem_def, Option.some.injEq, forall_eq']
                      exact eq_comm
                  | none => simp

/-- The two settings and a request give the same client on both listeners when the peer is
no trusted proxy, or its header is read alike. -/
def RequestAlike (c : ClientIPConfig) (header : String) (r : Request) : Prop :=
  ∀ pip ∈ parseAddr (hostOnly r.remoteAddr), c.trusts pip = true →
    HeaderAlike c pip.unmap (entries header r)

/-- The peer of a request is not an IPv4 address with a zone. -/
def PeerPlain (r : Request) : Prop :=
  ∀ a ∈ parseAddr (hostOnly r.remoteAddr), a.zone = "" ∨ a.unmap = a

instance (r : Request) : Decidable (PeerPlain r) :=
  inferInstanceAs (Decidable (∀ a ∈ parseAddr (hostOnly r.remoteAddr), _))

theorem trusts_unmap (c : ClientIPConfig) (a : Addr) : c.trusts a.unmap = c.trusts a := by
  simp [ClientIPConfig.trusts]

/-- A prefix holds no address with a zone. -/
theorem zone_of_trusts {c : ClientIPConfig} {a : Addr} (h : c.trusts a = true) :
    a.unmap.zone = "" := by
  obtain ⟨p, -, hp⟩ := List.any_eq_true.mp h
  rcases (Prefix.contains_iff.mp hp).2 with ⟨_, y, -, ha, -⟩ | ⟨_, _, y, -, ha, -⟩
  · rw [ha]
    rfl
  · rw [ha]
    rfl

section Alike

variable {trustedProxies header : String} {nets : List Prefix} {r : Request}

/-- Ordinary entries are trusted alike by both readings. -/
theorem TrustAlike.of_ordinary (haccepted : parseTrustedProxies trustedProxies = .ok nets)
    (hordinary : ∀ tok ∈ splitProxyList trustedProxies.toList, Ordinary tok)
    (hpeer : PeerPlain r) :
    TrustAlike (loadClientIP trustedProxies header) (buildRealIP trustedProxies header)
      header r where
  peer := by
    intro a ha
    cases hip : parseIP (hostOnly r.remoteAddr) with
    | some ip =>
        obtain ⟨b, hb, hunmap⟩ := parseAddr_of_parseIP hip
        obtain rfl : a = b := Option.some.inj (ha.symm.trans hb)
        rw [← trusts_unmap, hunmap]
        exact trusts_of_ordinary haccepted hordinary ip
    | none =>
        -- what `net.ParseIP` leaves out has a zone, and no prefix holds it
        rw [Option.any_none]
        by_contra htrust
        rw [Bool.not_eq_false] at htrust
        have hzone : a.zone = "" := by
          rcases hpeer a ha with hzone | hsame
          · exact hzone
          · rw [← hsame]
            exact zone_of_trusts htrust
        cases a with
        | zero => exact parseAddr_ne_zero ha
        | v4 x =>
            rw [parseIP_eq_some_iff.mpr ⟨_, ha, rfl, Or.inr ⟨x, rfl, rfl⟩⟩] at hip
            cases hip
        | v6 x zone =>
            obtain rfl : zone = "" := hzone
            rw [parseIP_eq_some_iff.mpr ⟨_, ha, rfl, Or.inl rfl⟩] at hip
            cases hip
  entry := fun _ _ _ _ _ _ _ _ ip _ => trusts_of_ordinary haccepted hordinary ip

/-- A peer that neither reading trusts is the client on both listeners. -/
theorem socket_of_untrusted
    (halike : TrustAlike (loadClientIP trustedProxies header) (buildRealIP trustedProxies header)
      header r)
    (huntrusted : ∀ pip, parseAddr (hostOnly r.remoteAddr) = some pip →
      (loadClientIP trustedProxies header).trusts pip = false) :
    (loadClientIP trustedProxies header).clientIP r = .socket (hostOnly r.remoteAddr) ∧
      (buildRealIP trustedProxies header).client r = .socket (hostOnly r.remoteAddr) := by
  constructor
  · unfold ClientIPConfig.clientIP
    cases hpip : parseAddr (hostOnly r.remoteAddr) with
    | none => simp [hpip]
    | some pip => simp [hpip, huntrusted pip hpip]
  · unfold RealIPConfig.client RealIPConfig.realClientIP
    cases hip : parseIP (hostOnly r.remoteAddr) with
    | none => rfl
    | some ip =>
        obtain ⟨a, ha, -⟩ := parseAddr_of_parseIP hip
        have hpeer := halike.peer a ha
        rw [huntrusted a ha, hip, Option.any_some] at hpeer
        simp [← hpeer]

theorem address_eq_iff (hheader : validHeaderName header = true)
    (halike : TrustAlike (loadClientIP trustedProxies header) (buildRealIP trustedProxies header)
      header r) :
    ((loadClientIP trustedProxies header).clientIP r).address =
        ((buildRealIP trustedProxies header).client r).address ↔
      RequestAlike (loadClientIP trustedProxies header) header r := by
  by_cases htrusted : ∃ pip, parseAddr (hostOnly r.remoteAddr) = some pip ∧
      (loadClientIP trustedProxies header).trusts pip = true
  · obtain ⟨pip, hpip, htrust⟩ := htrusted
    rw [address_clientIP hheader hpip htrust, address_client halike hpip htrust, Sum.inl.injEq,
      adminAddr_eq_engineAddr_iff (by rw [trusts_unmap, htrust])]
    constructor
    · intro h pip' hpip' _
      obtain rfl : pip = pip' := Option.some.inj (hpip.symm.trans hpip')
      exact h
    · intro h
      exact h pip hpip htrust
  · have huntrusted : ∀ pip, parseAddr (hostOnly r.remoteAddr) = some pip →
        (loadClientIP trustedProxies header).trusts pip = false := by
      intro pip hpip
      rw [← Bool.not_eq_true]
      exact fun htrust => htrusted ⟨pip, hpip, htrust⟩
    obtain ⟨hadmin, hengine⟩ := socket_of_untrusted halike huntrusted
    refine iff_of_true (by rw [hadmin, hengine]) ?_
    intro pip hpip htrust
    exact absurd ⟨pip, hpip, htrust⟩ htrusted

end Alike

/-- **The admin listener and the data plane on one client.** Where both readings of the
trusted proxies agree on the addresses of a request that they ask about, both listeners
count it under the same address exactly when its header is read alike. The readings do
agree for a list without zones and IPv4 networks written as IPv6 ones. -/
theorem clients_agree_iff {trustedProxies header : String} {nets : List Prefix}
    (haccepted : parseTrustedProxies trustedProxies = .ok nets)
    (hheader : validHeaderName header = true) (r : Request) :
    ((∀ tok ∈ splitProxyList trustedProxies.toList, Ordinary tok) → PeerPlain r →
      TrustAlike (loadClientIP trustedProxies header) (buildRealIP trustedProxies header)
        header r) ∧
    (TrustAlike (loadClientIP trustedProxies header) (buildRealIP trustedProxies header) header r →
      (((loadClientIP trustedProxies header).clientIP r).address =
          ((buildRealIP trustedProxies header).client r).address ↔
        RequestAlike (loadClientIP trustedProxies header) header r)) :=
  ⟨fun hordinary hpeer => .of_ordinary haccepted hordinary hpeer, address_eq_iff hheader⟩

/-- A chain of two trusted proxies and a client in front of them. -/
def chainedRequest : Request where
  remoteAddr := "[2001:db8::7]:40000"
  header := [("X-Forwarded-For", "not-an-address, 198.51.100.7"), ("X-Forwarded-For", "10.0.0.1")]

theorem clients_agree_iff_chainedRequest :
    (parseTrustedProxies "10.0.0.1, 2001:db8::/32").toOption.isSome = true ∧
      validHeaderName "X-Forwarded-For" = true ∧
      ((loadClientIP "10.0.0.1, 2001:db8::/32" "X-Forwarded-For").clientIP chainedRequest).address =
        .inl (.v4 0xc6336407#32) ∧
      RequestAlike (loadClientIP "10.0.0.1, 2001:db8::/32" "X-Forwarded-For") "X-Forwarded-For"
        chainedRequest := by
  cases haccepted : parseTrustedProxies "10.0.0.1, 2001:db8::/32" with
  | error e =>
      have hok : (parseTrustedProxies "10.0.0.1, 2001:db8::/32").toOption.isSome = true := by
        decide +kernel
      rw [haccepted] at hok
      cases hok
  | ok nets =>
      obtain ⟨halike, hiff⟩ := clients_agree_iff haccepted (by decide : validHeaderName
        "X-Forwarded-For" = true) chainedRequest
      refine ⟨rfl, by decide, by decide +kernel, ?_⟩
      exact (hiff (halike (by decide +kernel) (by decide +kernel))).mp (by decide +kernel)

/-- An entry with a port is the client on one listener and skipped by the other. -/
def portRequest : Request where
  remoteAddr := "10.0.0.1:40000"
  header := [("X-Forwarded-For", "198.51.100.7, 203.0.113.5:4711")]

theorem entry_with_port_splits_the_readings :
    ¬ ∀ (trustedProxies header : String) (nets : List Prefix) (r : Request),
      parseTrustedProxies trustedProxies = .ok nets → validHeaderName header = true →
      ((loadClientIP trustedProxies header).clientIP r).address =
        ((buildRealIP trustedProxies header).client r).address := by
  intro h
  cases haccepted : parseTrustedProxies "10.0.0.1" with
  | error e =>
      have hok : (parseTrustedProxies "10.0.0.1").toOption.isSome = true := by decide +kernel
      rw [haccepted] at hok
      cases hok
  | ok nets =>
      have hsame := h "10.0.0.1" "X-Forwarded-For" nets portRequest haccepted (by decide)
      revert hsame
      decide +kernel

end Quicgate.RealIP
