import Quicgate.Access
import Quicgate.Checks

/-!
# The stored configuration

The records of `internal/store` that the admin API, an import and Docker adoption
write: hosts, streams and access lists, with the checks of single fields that
their validation is made of (`store.go`, `access.go`, `vpn.go`, `oidc.go`).

A record's `ID` stands beside the record, as the key of its row; a body that
carries one is a pair.  `Lib` is the part of the standard library and of bcrypt
that the checks ask and that is too large to write down: Unicode case tables,
quoting for messages, regular expressions, URLs and PEM bundles.

The validations themselves are in `HostChecks` and `StreamChecks`, the tables in
`StoreDb`.
-/

namespace Quicgate.Store

open Quicgate.GoStrings Quicgate.GoNet Quicgate.Access Quicgate.Checks

/-- What bcrypt draws for one hash. -/
abbrev Salt := Nat

structure Lib where
  caseTable : CaseTable
  /-- `unicode.SimpleFold`, beyond ASCII: the two characters fold to each other. -/
  folds : Char → Char → Bool
  /-- The verb `%q`. -/
  quote : String → String
  /-- `regexp.Compile`: the text of its error. -/
  regexpError : String → Option String
  /-- `url.Parse`: scheme and host. -/
  parseURL : String → Option (String × String)
  /-- `x509.CertPool.AppendCertsFromPEM`. -/
  appendCertsFromPEM : String → Bool
  /-- The hash `bcrypt.GenerateFromPassword` makes of a password. -/
  bcrypt : Salt → String → String
  bcrypt_ne_empty : ∀ salt password, bcrypt salt password ≠ ""

/-- A library that knows ASCII only, takes every expression and URL, and hashes by
writing the salt in front. -/
def asciiLib : Lib where
  caseTable := ⟨id, id⟩
  folds := fun _ _ => false
  quote := fun s => "\"" ++ s ++ "\""
  regexpError := fun _ => none
  parseURL := fun _ => some ("https", "auth")
  appendCertsFromPEM := fun _ => true
  bcrypt := fun salt password => String.ofList ('$' :: (itoa salt ++ '$' :: password.toList))
  bcrypt_ne_empty := by
    intro salt password h
    have hlist := congrArg String.toList h
    simp at hlist

/-! ### Hosts

The fields are those of the source; the times of a row are left out, since nothing but the
statement that writes a row sets them. -/

structure Upstream where
  scheme : String -- http | https
  host : String
  port : Int
  via : Int -- the WireGuard site it is reached through, 0 = none
deriving DecidableEq, Repr

structure PathRewrite where
  stripPrefix : String
  addPrefix : String
  regex : String
  replacement : String
deriving DecidableEq, Repr

structure Location where
  path : String
  upstream : Upstream
  pathRewrite : Option PathRewrite
deriving DecidableEq, Repr

structure HeaderRule where
  op : String -- set | add | remove
  name : String
  value : String
deriving DecidableEq, Repr

structure RateLimit where
  rps : Rat
  burst : Int
deriving DecidableEq, Repr

structure ForwardAuth where
  url : String
  responseHeaders : List String
  skipTLSVerify : Bool
deriving DecidableEq, Repr

structure OIDCAuth where
  providerID : Int
  allowedEmails : List String
  allowedDomains : List String
  allowedGroups : List String
  passIdentity : Bool
deriving DecidableEq, Repr

/-- Authentication for one URL subtree of a host. -/
structure AuthRule where
  path : String
  exact : Bool
  mode : String -- public | accessList | forwardAuth | oidc
  accessListID : Option Int
  oidc : Option OIDCAuth
  methods : List String -- empty = every method
deriving DecidableEq, Repr

structure ClientCert where
  mode : String -- require | request
  caPEM : String
deriving DecidableEq, Repr

structure Redirect where
  httpCode : Int
  targetScheme : String -- auto | http | https
  targetHost : String
  preservePath : Bool
deriving DecidableEq, Repr

structure HSTS where
  enabled : Bool
  maxAge : Int
  includeSubdomains : Bool
  preload : Bool
deriving DecidableEq, Repr

structure PortalOptions where
  providerID : Int
  claimsSource : String -- id_token | userinfo
  enrol : List VPNSubject
deriving DecidableEq, Repr

structure Options where
  dialTimeoutSec : Int
  responseHeaderTimeoutSec : Int
  idleTimeoutSec : Int
  maxIdleConnsPerHost : Int
  maxBodyMB : Int
  requestHeaders : List HeaderRule
  responseHeaders : List HeaderRule
  pathRewrite : Option PathRewrite
  vpnOnly : Bool
  portal : Option PortalOptions
  rateLimit : Option RateLimit
  forwardAuth : Option ForwardAuth
  oidc : Option OIDCAuth
  authRules : List AuthRule
  clientCert : Option ClientCert
  maintenance : Bool
  cacheSec : Int
  hsts : HSTS
  minTLSVersion : String -- "" | 1.2 | 1.3
  /-- The options that are kept as they come, no check and no gate reads them. -/
  other : String
deriving DecidableEq, Repr

structure Host where
  type : String -- proxy | redirect | dead | static | vpn-portal
  domains : List String
  upstream : Upstream
  upstreams : List Upstream
  locations : List Location
  redirect : Option Redirect
  staticRoot : String
  certMode : String -- auto | none | custom
  certID : Option Int
  forceSSL : Bool
  enabled : Bool
  accessListID : Option Int
  options : Options
deriving DecidableEq, Repr

def Upstream.zero : Upstream := ⟨"", "", 0, 0⟩

def Options.zero : Options :=
  ⟨0, 0, 0, 0, 0, [], [], none, false, none, none, none, none, [], none, false, 0,
    ⟨false, 0, false, false⟩, "", ""⟩

def Host.zero : Host :=
  ⟨"", [], .zero, [], [], none, "", "", none, false, false, none, .zero⟩

/-- `Vias`: each at its first place. -/
def Host.vias (h : Host) : List Int :=
  let named :=
    (((h.upstream :: h.upstreams) ++ h.locations.map (·.upstream)).map (·.via)).filter (0 < ·)
  named.reverse.dedup.reverse

/-! ### Streams

As of a host, the `ID` and the times of a stream are its row's. -/

structure SNIRoute where
  host : String
  forwardHost : String
  forwardPort : Int
deriving DecidableEq, Repr

structure Stream where
  listenPort : Int
  listenPortEnd : Int
  protocol : String -- tcp | udp | both
  forwardHost : String
  forwardPort : Int
  allowedCIDRs : List String
  accessListID : Option Int
  via : Int
  sendProxyProtocol : String -- "" | v1 | v2
  acceptProxyProtocol : Bool
  trustedProxies : List String
  terminateTLS : Bool
  certID : Option Int
  sniRoutes : List SNIRoute
  enabled : Bool
deriving DecidableEq, Repr

def Stream.zero : Stream :=
  ⟨0, 0, "", "", 0, [], none, 0, "", false, [], false, none, [], false⟩

/-! ### Access lists as they come in

At rest a user has a name and a hash (`Access.AccessUser`); on the way in, a name
and a password. -/

structure UserInput where
  username : String
  password : String
deriving DecidableEq, Repr

structure AccessListInput where
  name : String
  satisfy : String -- any | all
  passAuth : Bool
  rules : List AccessRule
  users : List UserInput
deriving DecidableEq, Repr

/-! ### Texts

The tests of single texts: names, addresses, labels, methods, header tokens.  `parseInt64` and
`printInt` are `strconv.ParseInt(s, 10, 64)` and `strconv.FormatInt(n, 10)`. -/

def trim (s : String) : String := String.ofList (trimSpace s.toList)

theorem trim_trim (s : String) : trim (trim s) = trim s := by
  rw [trim, trim, String.toList_ofList, trimSpace_trimSpace]

/-- `strings.EqualFold`. Two ASCII characters are compared without case; beyond ASCII
the folding table decides. -/
def foldEqual (folds : Char → Char → Bool) (s t : String) : Bool :=
  s.toList.length == t.toList.length && (s.toList.zip t.toList).all fun (c, d) =>
    c == d || (if c.toNat < 128 ∧ d.toNat < 128 then c.toLower == d.toLower else folds c d)

def equalFold (lib : Lib) (s t : String) : Bool := foldEqual lib.folds s t

def parseInt64 (s : List Char) : Option Int :=
  match s with
  | '-' :: digits => (parseUint 64 digits).bind fun n =>
      if n ≤ 2 ^ 63 then some (-(n : Int)) else none
  | '+' :: digits => (parseUint 64 digits).bind fun n => if n < 2 ^ 63 then some (n : Int) else none
  | digits => (parseUint 64 digits).bind fun n => if n < 2 ^ 63 then some (n : Int) else none

def printInt (n : Int) : String :=
  String.ofList (if n < 0 then '-' :: itoa n.natAbs else itoa n.natAbs)

def validHTTPMethods : List String :=
  ["GET", "HEAD", "POST", "PUT", "PATCH", "DELETE", "OPTIONS", "CONNECT", "TRACE"]

def isCountryCode (s : String) : Bool :=
  s.toList.length == 2 && s.toList.all fun c => 'A' ≤ c && c ≤ 'Z'

def isLowerAlnum (c : Char) : Bool := ('a' ≤ c && c ≤ 'z') || ('0' ≤ c && c ≤ '9')

/-- `[a-z0-9]([a-z0-9-]*[a-z0-9])?` -/
def isLabel (l : List Char) : Bool :=
  l.head?.any isLowerAlnum && l.getLast?.any isLowerAlnum && l.all fun c =>
    isLowerAlnum c || c == '-'

/-- `domainRe`: labels and a top-level name of letters, with or without a leading
`*.`; or one label. -/
def matchesDomainRe (d : String) : Bool :=
  let body := if ['*', '.'].isPrefixOf d.toList then d.toList.drop 2 else d.toList
  let parts := body.splitOn '.'
  (2 ≤ parts.length && parts.dropLast.all isLabel &&
    parts.getLast?.any fun top => 2 ≤ top.length && top.all fun c => 'a' ≤ c && c ≤ 'z') ||
  isLabel d.toList

/-- The DNS size limits the expression does not check. -/
def domainTooLong (d : String) : Bool :=
  let name := if ['*', '.'].isPrefixOf d.toList then d.toList.drop 2 else d.toList
  253 < name.length || (name.splitOn '.').any fun label => 63 < label.length

def isHostChar (c : Char) : Bool :=
  ('a' ≤ c && c ≤ 'z') || ('A' ≤ c && c ≤ 'Z') || ('0' ≤ c && c ≤ '9') || c == '-' || c == '_'

def validHostName (s : String) : Bool :=
  s ≠ "" && s.utf8ByteSize ≤ 253 && ((parseIP s.toList).isSome ||
    let name := if s.toList.getLast? = some '.' then s.toList.dropLast else s.toList
    (name.splitOn '.').all fun label =>
      label ≠ [] && label.length ≤ 63 && label.head? ≠ some '-' && label.getLast? ≠ some '-' &&
        label.all isHostChar)

/-- A hostname or address, alone or with a port. -/
def validHostOptionalPort (s : String) : Bool :=
  match splitHostPort s.toList with
  | some (host, port) =>
      (parseInt64 port).any (fun n => 1 ≤ n && n ≤ 65535) && validHostName (String.ofList host)
  | none => validHostName s

def validHeaderToken (s : String) : Bool :=
  s ≠ "" && s.toList.all fun c =>
    ('a' ≤ c && c ≤ 'z') || ('A' ≤ c && c ≤ 'Z') || ('0' ≤ c && c ≤ '9') ||
      "!#$%&'*+-.^_`|~".toList.contains c

def protocolHeaders : List String :=
  ["host", "content-length", "transfer-encoding", "connection", "upgrade", "keep-alive", "te",
    "trailer"]

/-- `normalizeCIDR`: a bare address is made `/32` or `/128`. -/
def withMask (c : String) : String :=
  let cidr := trim c
  if '/' ∈ cidr.toList then cidr
  else if ':' ∈ cidr.toList then cidr ++ "/128" else cidr ++ "/32"

def normalizeCIDR (c : String) : Option String :=
  if (parseCIDR (withMask c).toList).isSome then some (withMask c) else none

/-- `filepath.Clean` of a rooted path. -/
def cleanPath (path : String) : String :=
  let kept := (path.toList.splitOn '/').foldl (fun done part =>
    if part = [] ∨ part = ['.'] then done
    else if part = ['.', '.'] then done.dropLast else done ++ [part]) ([] : List (List Char))
  String.ofList ('/' :: List.intercalate ['/'] kept)

/-! ### Printed numbers

Keys are made by printing numbers and joining them, so printing must be injective, and a printed
number has no character that joins. -/

theorem itoa_injective {m n : Nat} (h : itoa m = itoa n) : m = n := by
  have hm := plainNumber_itoa m
  rw [h, plainNumber_itoa] at hm
  exact (Option.some.inj hm).symm

theorem mem_printInt {n : Int} {c : Char} (h : c ∈ (printInt n).toList) :
    c = '-' ∨ c.isDigit = true := by
  unfold printInt at h
  rw [String.toList_ofList] at h
  split_ifs at h
  · rcases List.mem_cons.mp h with rfl | h
    · exact Or.inl rfl
    · exact Or.inr (isDigit_of_mem_itoa h)
  · exact Or.inr (isDigit_of_mem_itoa h)

theorem dash_not_mem_itoa (n : Nat) : '-' ∉ itoa n := by
  intro h
  exact absurd (isDigit_of_mem_itoa h) (by decide)

theorem slash_not_mem_printInt (n : Int) : '/' ∉ (printInt n).toList := by
  intro hmem
  rcases mem_printInt hmem with heq | hdigit
  · exact absurd heq (by decide)
  · exact absurd hdigit (by decide)

theorem printInt_injective {m n : Int} (h : printInt m = printInt n) : m = n := by
  unfold printInt at h
  have hlist := String.ofList_injective h
  split_ifs at hlist with hm hn hn
  · have habs := itoa_injective (List.cons.inj hlist).2
    omega
  · exact absurd (hlist ▸ List.mem_cons_self) (dash_not_mem_itoa n.natAbs)
  · exact absurd (hlist.symm ▸ List.mem_cons_self) (dash_not_mem_itoa m.natAbs)
  · have habs := itoa_injective hlist
    omega

end Quicgate.Store
