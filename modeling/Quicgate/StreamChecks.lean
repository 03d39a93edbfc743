import Quicgate.HostChecks

/-!
# The validation of streams and access lists

`Stream.Validate` and `AccessList.Validate` (`internal/store/access.go`).  A stream
is checked against the streams listed before; an access list that is updated takes
the hashes of users whose password is left empty from the list it replaces.

`Stream.Sound` and `StreamKept` are what the users of the check need of it: the ports of a
stored stream, and the fields that go through as they came.
-/

namespace Quicgate.Store

open Quicgate.GoStrings Quicgate.GoNet Quicgate.Access Quicgate.Checks

variable (lib : Lib)

/-! ### Access lists

The rules one by one, each with exactly one selector, and then the users, whose names are
different and whose passwords bcrypt takes. -/

/-- `VPNSubject.Validate` for a rule that may have none. -/
def validateRuleSubject (place : String) : Option VPNSubject → Check (Option VPNSubject)
  | none => .ok none
  | some s => do
      let s ← within place (validateSubject lib false s)
      return some s

/-- One rule: exactly one selector, brought to its normal form. -/
def validateRule (i : Nat) (r : AccessRule) : Check AccessRule := do
  refuseIf (r.action ≠ "allow" ∧ r.action ≠ "deny") s!"rule {i}: action must be allow or deny"
  let vpn ← validateRuleSubject lib s!"rule {i}: " r.vpn
  refuseIf ([decide (trim r.cidr ≠ ""), decide (trim r.host ≠ ""), decide (trim r.country ≠ ""),
      r.vpn.isSome].count true ≠ 1)
    s!"rule {i}: set exactly one of CIDR, host, country or VPN"
  refuseIf (r.cidr ≠ "" ∧ normalizeCIDR r.cidr = none)
    (s!"rule {i}: invalid CIDR " ++ lib.quote r.cidr)
  let country := toUpper lib.caseTable (trim r.country)
  refuseIf (r.country ≠ "" ∧ isCountryCode country = false)
    (s!"rule {i}: country must be a 2-letter ISO code (e.g. NL), got " ++ lib.quote r.country)
  let methods ← normalizeMethods lib s!"rule {i}: " r.methods
  return { r with
    cidr := if r.cidr = "" then "" else withMask r.cidr
    host := if r.host = "" then "" else toLower lib.caseTable (trim r.host)
    country := if r.country = "" then "" else country
    vpn, methods }

/-- `bcrypt.GenerateFromPassword`, which takes 72 bytes at most. -/
def generateFromPassword (salt : Salt) (password : String) : Check String :=
  if 72 < password.utf8ByteSize then .error "bcrypt: password length exceeds 72 bytes"
  else .ok (lib.bcrypt salt password)

/-- `prevHashes`: the hash a user has in the list that is replaced, "" if none. -/
def prevHash (prev : List AccessUser) (name : String) : String :=
  ((prev.reverse.find? fun u => u.username == name).map (·.hash)).getD ""

/-- The users, numbered from `i`, after those of `seen`. -/
def validateUsers (salt : Nat → Salt) (prev : List AccessUser) :
    Nat → List String → List UserInput → Check (List AccessUser)
  | _, _, [] => .ok []
  | i, seen, u :: rest => do
      let name := trim u.username
      refuseIf (name = "") s!"user {i}: username is required"
      refuseIf (name ∈ seen) ("duplicate username " ++ lib.quote name)
      let hash ← if u.password ≠ "" then generateFromPassword lib (salt i) u.password
        else if prevHash prev name ≠ "" then .ok (prevHash prev name)
        else .error ("user " ++ lib.quote name ++ ": password is required")
      let users ← validateUsers salt prev (i + 1) (name :: seen) rest
      return ⟨name, hash⟩ :: users

def validateListFields (a : AccessListInput) : Check AccessList := do
  let name := trim a.name
  refuseIf (name = "") "access list name is required"
  let satisfy := if a.satisfy = "" then "any" else a.satisfy
  refuseIf (satisfy ≠ "any" ∧ satisfy ≠ "all")
    ("satisfy must be any or all, got " ++ lib.quote satisfy)
  refuseIf (a.rules = [] ∧ a.users = []) "access list needs at least one rule or one user"
  let rules ← each (validateRule lib) 1 a.rules
  return ⟨name, satisfy, a.passAuth, rules, []⟩

def AccessListInput.validate (salt : Nat → Salt) (prev : List AccessUser) (a : AccessListInput) :
    Check AccessList := do
  let list ← validateListFields lib a
  let users ← validateUsers lib salt prev 1 [] a.users
  return { list with users }

/-! ### Streams

A stream listens on a port or a range and forwards by itself or by server name.  The overlap with
other streams is asked last. -/

def protoOverlaps (a b : String) : Bool := a == "both" || b == "both" || a == b

def Stream.rangeEnd (st : Stream) : Int :=
  if 0 < st.listenPortEnd then st.listenPortEnd else st.listenPort

/-- The two streams want one listener. -/
def Stream.clashes (st o : Stream) : Bool :=
  protoOverlaps o.protocol st.protocol && decide (st.listenPort ≤ o.rangeEnd) &&
    decide (o.listenPort ≤ st.rangeEnd)

def validateSNIRoute (i : Nat) (sr : SNIRoute) : Check SNIRoute := do
  let host := trim sr.host
  let forwardHost := trim sr.forwardHost
  refuseIf (host = "" ∨ forwardHost = "" ∨ sr.forwardPort < 1)
    s!"SNI route {i}: host, forwardHost and forwardPort are required"
  refuseIf (65535 < sr.forwardPort)
    (s!"SNI route {i}: forward port " ++ printInt sr.forwardPort ++ " out of range")
  refuseIf (validHostName forwardHost = false)
    (s!"SNI route {i}: forward host " ++ lib.quote forwardHost ++
      " must be an IP address or a hostname")
  return { sr with host, forwardHost }

def validateNet (what : String) (i : Nat) (c : String) : Check String := do
  refuseIf (normalizeCIDR c = none) (what ++ s!" {i}: invalid " ++ lib.quote c)
  return withMask c

/-- The ports a stream listens on and forwards to. -/
def validatePorts (reserved : List Int) (st : Stream) : Check Unit := do
  refuseIf (st.listenPort < 1 ∨ 65535 < st.listenPort)
    ("listen port " ++ printInt st.listenPort ++ " out of range")
  refuseIf (st.listenPortEnd ≠ 0 ∧ (st.listenPortEnd < st.listenPort ∨ 65535 < st.listenPortEnd))
    ("listen port range end " ++ printInt st.listenPortEnd ++ " invalid")
  refuseIf (st.listenPortEnd ≠ 0 ∧ (st.protocol = "udp" ∨ st.protocol = "both"))
    "port ranges are TCP-only"
  forEach (fun p => refuseIf (st.listenPort ≤ p ∧ p ≤ st.rangeEnd)
    ("port " ++ printInt p ++ " is reserved by the proxy engine")) reserved

def validateForward (st : Stream) : Check Unit := do
  refuseIf (st.forwardHost = "" ∧ st.sniRoutes = []) "forward host is required"
  refuseIf (st.forwardHost ≠ "" ∧ validHostName st.forwardHost = false)
    ("forward host " ++ lib.quote st.forwardHost ++ " must be an IP address or a hostname")
  refuseIf (st.forwardPort < 0 ∨ 65535 < st.forwardPort)
    ("forward port " ++ printInt st.forwardPort ++ " out of range")
  refuseIf (st.forwardPort = 0 ∧ st.listenPortEnd = 0 ∧ st.forwardHost ≠ "")
    "forward port is required"
  refuseIf (0 < st.listenPortEnd ∧ 0 < st.forwardPort ∧
      65535 < st.forwardPort + (st.listenPortEnd - st.listenPort))
    ("forward port range " ++ printInt st.forwardPort ++ "-" ++
      printInt (st.forwardPort + (st.listenPortEnd - st.listenPort)) ++ " goes past 65535")
  refuseIf (st.sendProxyProtocol ∉ ["", "v1", "v2"])
    ("sendProxyProtocol must be v1 or v2, got " ++ lib.quote st.sendProxyProtocol)
  refuseIf (st.terminateTLS = true ∧ st.certID = none) "TLS termination requires a certificate"

/-- The peers whose PROXY header is believed; without any, none may be accepted. -/
def validateTrusted (st : Stream) : Check (List String) :=
  if st.acceptProxyProtocol then do
    refuseIf (st.trustedProxies = [])
      "accepting PROXY protocol requires at least one trusted proxy address"
    each (validateNet lib "trusted proxy") 1 st.trustedProxies
  else .ok []

/-- The overlap with the streams listed before; the stream itself is told by `id`. -/
def validateOthers (others : List (Int × Stream)) (id : Int) (st : Stream) : Check Unit :=
  forEach (fun o => refuseIf (o.1 ≠ id ∧ st.clashes o.2 = true)
    ("port range " ++ printInt st.listenPort ++ "-" ++ printInt st.rangeEnd ++ "/" ++ st.protocol ++
      " overlaps stream " ++ printInt o.1)) others

/-- `Stream.Validate` up to the overlap with other streams. -/
def Stream.checkFields (reserved : List Int) (st : Stream) : Check Stream := do
  let protocol := if st.protocol = "" then "tcp" else st.protocol
  refuseIf (protocol ∉ ["tcp", "udp", "both"])
    ("protocol must be tcp, udp or both, got " ++ lib.quote protocol)
  validatePorts reserved { st with protocol }
  let forwardHost := trim st.forwardHost
  validateForward lib { st with forwardHost }
  let trustedProxies ← validateTrusted lib st
  refuseIf ((st.sendProxyProtocol ≠ "" ∨ st.acceptProxyProtocol = true ∨ st.terminateTLS = true ∨
      st.sniRoutes ≠ []) ∧ protocol ≠ "tcp")
    "PROXY protocol, TLS termination and SNI routing are TCP-only"
  let sniRoutes ← each (validateSNIRoute lib) 1 st.sniRoutes
  let allowedCIDRs ← each (validateNet lib "allowed CIDR") 1 st.allowedCIDRs
  return { st with protocol, forwardHost, trustedProxies, sniRoutes, allowedCIDRs }

def Stream.validate (others : List (Int × Stream)) (reserved : List Int) (id : Int) (st : Stream) :
    Check Stream := do
  let st ← st.checkFields lib reserved
  validateOthers others id st
  return st

/-! ### What validated records keep -/

/-- The ports of a stored stream. -/
structure Stream.Sound (reserved : List Int) (st : Stream) : Prop where
  protocol : st.protocol ∈ ["tcp", "udp", "both"]
  listenPort : 1 ≤ st.listenPort ∧ st.listenPort ≤ 65535
  listenPortEnd : st.listenPortEnd = 0 ∨
    (st.listenPort ≤ st.listenPortEnd ∧ st.listenPortEnd ≤ 65535)
  reserved : ∀ p ∈ reserved, ¬ (st.listenPort ≤ p ∧ p ≤ st.rangeEnd)
  forwardPort : 0 ≤ st.forwardPort ∧ st.forwardPort ≤ 65535
  forwardRange : 0 < st.listenPortEnd → 0 < st.forwardPort →
    st.forwardPort + (st.listenPortEnd - st.listenPort) ≤ 65535

/-- A stream as it is stored, beside what came in. -/
structure StreamKept (st st' : Stream) : Prop where
  protocol : st'.protocol = if st.protocol = "" then "tcp" else st.protocol
  listenPort : st'.listenPort = st.listenPort
  listenPortEnd : st'.listenPortEnd = st.listenPortEnd
  forwardPort : st'.forwardPort = st.forwardPort
  accessListID : st'.accessListID = st.accessListID
  allowedCIDRs : st'.allowedCIDRs.length = st.allowedCIDRs.length

variable {lib} {reserved : List Int}

theorem Stream.checkFields_eq_ok {st st' : Stream} (h : st.checkFields lib reserved = .ok st') :
    st'.Sound reserved ∧ StreamKept st st' := by
  simp only [Stream.checkFields, validatePorts, validateForward, bind_eq_ok, refuseIf_eq_ok,
    pure_eq_ok, not_not] at h
  obtain ⟨-, hproto, _, ⟨-, hlisten, -, hend, -, -, hres⟩,
    -, ⟨-, -, -, -, -, hfwd, -, -, -, hrange, -, -, -⟩, tp, -, -, -, sni, -, cidrs, hcidrs, rfl⟩
      := h
  constructor
  · refine ⟨hproto, ?_, ?_, ?_, ?_, ?_⟩ <;> simp only
    · omega
    · omega
    · intro p hp
      exact refuseIf_eq_ok.mp (forEach_eq_ok.mp hres p hp)
    · omega
    · omega
  · refine ⟨rfl, rfl, rfl, rfl, rfl, ?_⟩
    exact (each_eq_ok hcidrs).length_eq.symm

theorem validateOthers_eq_ok {others : List (Int × Stream)} {id : Int} {st : Stream} {u : Unit} :
    validateOthers others id st = .ok u ↔ ∀ o ∈ others, o.1 ≠ id → st.clashes o.2 = false := by
  unfold validateOthers
  rw [forEach_eq_ok]
  refine forall₂_congr fun o _ => ?_
  rw [refuseIf_eq_ok, not_and, Bool.not_eq_true]

end Quicgate.Store
