import Quicgate.WgPolicy

/-!
# From stored LAN routes to forwarder routes

A policy grants `VPNRoute`s (`internal/store/vpn.go`), which the engine turns
into forwarder routes at every reload (`wgRoutes` in `internal/engine/vpn.go`).
The module follows a route from its text to what the forwarder allows and bounds
the reach of a device by the text of the routes granted to it.

The bound has one hole.  `ParsePorts` skips blank parts, so a port text such as
`","` that states no port reads like the empty text, which grants every port.
`reachBounded_iff` certifies that this is the only one: the reach is bounded
exactly when every port text among the routes lists something.
`reachBounded_comma_fails` shows the hole with a route that validation accepts.
-/

namespace Quicgate.VpnRoutes

open Quicgate.GoStrings Quicgate.Netip Quicgate.WgPolicy

/-! ### The store

The texts of a `VPNRoute` are as the store has them.  `parsePorts` reads "22,80-90" into
inclusive ranges, and `VPNRoute.validate` is what stands between a request and a row. -/

/-- One LAN destination a policy grants. The texts are as the store has them; no
ports text means every port. -/
structure VPNRoute where
  cidr : String
  proto : String
  ports : String
deriving DecidableEq, Repr

/-- Why `ParsePorts` or `VPNRoute.Validate` refuses. -/
inductive RouteError where
  | notAPort (part : String)            -- port %q is not a port
  | notARange (part : String)           -- port range %q is not a range
  | notIPv4 (cidr : String)             -- route %q: want an IPv4 prefix like 192.168.1.0/24
  | notPrivate (pre : Prefix)           -- route %s: only private address space ... can be granted
  | badProto (pre : Prefix)             -- route %s: protocol must be tcp, udp or any
  | badPorts (pre : Prefix) (why : RouteError) -- route %s: %w
deriving DecidableEq, Repr

def privateSpace : List Prefix :=
  [cidr4 10 0 0 0 8, cidr4 172 16 0 0 12, cidr4 192 168 0 0 16, cidr4 100 64 0 0 10]

/-- One part of a port list that is not blank. -/
def parsePart (part : List Char) : Except RouteError PortRange :=
  let (lo, hi, isRange) := cut '-' part
  match parseUint 16 (trimSpace lo) with
  | none => .error (.notAPort (String.ofList part))
  | some a =>
      if a = 0 then .error (.notAPort (String.ofList part))
      else if isRange then
        match parseUint 16 (trimSpace hi) with
        | none => .error (.notARange (String.ofList part))
        | some b =>
            if b < a then .error (.notARange (String.ofList part))
            else .ok ⟨UInt16.ofNat a, UInt16.ofNat b⟩
      else .ok ⟨UInt16.ofNat a, UInt16.ofNat a⟩

/-- The loop of `ParsePorts` over the parts between commas. -/
def parseParts : List (List Char) → Except RouteError (List PortRange)
  | [] => .ok []
  | part :: rest =>
      if trimSpace part = [] then parseParts rest
      else do
        let range ← parsePart (trimSpace part)
        let ranges ← parseParts rest
        return range :: ranges

def parsePorts (s : String) : Except RouteError (List PortRange) :=
  parseParts (s.toList.splitOn ',')

def VPNRoute.validate (r : VPNRoute) : Except RouteError VPNRoute :=
  match parsePrefix (trimSpace r.cidr.toList) with
  | none => .error (.notIPv4 r.cidr)
  | some p =>
      match p.ip with
      | .v4 _ =>
          let p := p.masked
          if privateSpace.any fun priv => priv.contains p.ip && priv.bits ≤ p.bits then
            match p.ip with
            | .v4 x =>
                if r.proto ≠ "" ∧ r.proto ≠ "tcp" ∧ r.proto ≠ "udp" ∧ r.proto ≠ "any" then
                  .error (.badProto p)
                else match parsePorts r.ports with
                  | .error why => .error (.badPorts p why)
                  | .ok _ => .ok {
                      cidr := String.ofList (prefixText4 x p.len)
                      proto := if r.proto = "" then "any" else r.proto
                      ports := String.ofList (r.ports.toList.filter (· != ' ')) }
            | _ => .error (.notPrivate p)
          else .error (.notPrivate p)
      | _ => .error (.notIPv4 r.cidr)

/-! ### The engine -/

/-- One stored route as the forwarder gets it, unless its text does not parse. -/
def wgRoute (r : VPNRoute) : Option Route :=
  match parsePrefix r.cidr.toList, parsePorts r.ports with
  | some p, .ok ports =>
      some { pre := p.masked, proto := if r.proto = "" then "any" else r.proto, ports := ports }
  | _, _ => none

def wgRoutes (routes : List VPNRoute) : List Route := routes.filterMap wgRoute

/-! ### What a port text states

The meaning of a port text, apart from any parser: the ports that its parts state, each a
number or two around a dash. -/

/-- `part` states the ports from `lo` to `hi`: one number, or two around a dash. -/
def StatesRange (part : List Char) (lo hi : Nat) : Prop :=
  (parseUint 16 (trimSpace part) = some lo ∧ hi = lo) ∨
    ∃ left right, part = left ++ '-' :: right ∧
      parseUint 16 (trimSpace left) = some lo ∧ parseUint 16 (trimSpace right) = some hi

def ListsPort (text : String) (port : UInt16) : Prop :=
  ∃ part ∈ text.toList.splitOn ',', ∃ lo hi, StatesRange (trimSpace part) lo hi ∧
    lo ≤ port.toNat ∧ port.toNat ≤ hi

def ListsSomething (text : String) : Prop :=
  ∃ part ∈ text.toList.splitOn ',', trimSpace part ≠ []

theorem toNat_ofNat_of_parseUint {s : List Char} {n : Nat} (h : parseUint 16 s = some n) :
    (UInt16.ofNat n).toNat = n := by
  rw [UInt16.toNat_ofNat']
  exact Nat.mod_eq_of_lt (parseUint_lt h)

/-- A part that parses states the range it parses to. -/
theorem parsePart_states {part : List Char} {range : PortRange}
    (h : parsePart part = .ok range) :
    StatesRange part range.fromPort.toNat range.toPort.toNat := by
  unfold parsePart at h
  rcases hcut : cut '-' part with ⟨lo, hi, isRange⟩
  simp only [hcut] at h
  cases hlo : parseUint 16 (trimSpace lo) with
  | none => simp [hlo] at h
  | some a =>
      simp only [hlo] at h
      split_ifs at h with hzero hrange
      · cases hhi : parseUint 16 (trimSpace hi) with
        | none => simp [hhi] at h
        | some b =>
            simp only [hhi] at h
            split_ifs at h
            obtain rfl := Except.ok.inj h
            subst hrange
            simp only [toNat_ofNat_of_parseUint hlo, toNat_ofNat_of_parseUint hhi]
            exact Or.inr ⟨lo, hi, cut_true hcut, hlo, hhi⟩
      · obtain rfl := Except.ok.inj h
        obtain rfl : isRange = false := by simpa using hrange
        obtain rfl := cut_false hcut
        simp only [toNat_ofNat_of_parseUint hlo]
        exact Or.inl ⟨hlo, rfl⟩

/-- Every range of a parsed list comes from a part, and the list is empty exactly
when every part is blank. -/
theorem parseParts_spec {parts : List (List Char)} {ranges : List PortRange}
    (h : parseParts parts = .ok ranges) :
    (∀ range ∈ ranges, ∃ part ∈ parts, parsePart (trimSpace part) = .ok range) ∧
      (ranges = [] ↔ ∀ part ∈ parts, trimSpace part = []) := by
  induction parts generalizing ranges with
  | nil =>
      obtain rfl := Except.ok.inj h
      simp
  | cons part rest ih =>
      unfold parseParts at h
      split_ifs at h with hblank
      · obtain ⟨hfrom, hempty⟩ := ih h
        refine ⟨fun range hrange => ?_, by simp [hempty, hblank]⟩
        obtain ⟨p, hp, hparse⟩ := hfrom range hrange
        exact ⟨p, List.mem_cons_of_mem _ hp, hparse⟩
      · cases hpart : parsePart (trimSpace part) with
        | error why => simp [hpart, bind, Except.bind] at h
        | ok first =>
            cases hrest : parseParts rest with
            | error why => simp [hpart, hrest, bind, Except.bind] at h
            | ok ranges' =>
                obtain rfl : first :: ranges' = ranges := by
                  simpa [hpart, hrest, bind, Except.bind, pure, Except.pure] using h
                refine ⟨?_, by simp [hblank]⟩
                intro range hrange
                rcases List.mem_cons.mp hrange with rfl | hmem
                · exact ⟨part, List.mem_cons_self, hpart⟩
                · obtain ⟨p, hp, hparse⟩ := (ih hrest).1 range hmem
                  exact ⟨p, List.mem_cons_of_mem _ hp, hparse⟩

theorem parsePorts_lists {text : String} {ranges : List PortRange} {range : PortRange}
    {port : UInt16} (h : parsePorts text = .ok ranges) (hrange : range ∈ ranges)
    (hport : range.has port = true) : ListsPort text port := by
  obtain ⟨part, hpart, hparse⟩ := (parseParts_spec h).1 range hrange
  simp only [PortRange.has, Bool.and_eq_true, decide_eq_true_eq, UInt16.le_iff_toNat_le]
    at hport
  exact ⟨part, hpart, _, _, parsePart_states hparse, hport.1, hport.2⟩

theorem parsePorts_eq_nil_iff {text : String} {ranges : List PortRange}
    (h : parsePorts text = .ok ranges) : ranges = [] ↔ ¬ ListsSomething text := by
  rw [(parseParts_spec h).2]
  simp [ListsSomething]

/-- A text whose parts are all blank parses, to nothing. -/
theorem parsePorts_of_blank {text : String} (h : ¬ ListsSomething text) :
    parsePorts text = .ok [] := by
  have hblank : ∀ part ∈ text.toList.splitOn ',', trimSpace part = [] := by
    simpa [ListsSomething] using h
  have hparts : ∀ parts : List (List Char), (∀ part ∈ parts, trimSpace part = []) →
      parseParts parts = .ok [] := by
    intro parts hparts
    induction parts with
    | nil => rfl
    | cons part rest ih =>
        rw [parseParts, if_pos (hparts part List.mem_cons_self)]
        exact ih fun p hp => hparts p (List.mem_cons_of_mem _ hp)
  exact hparts _ hblank

/-- A text whose parts are all blank states no port. -/
theorem not_listsPort_of_blank {text : String} (h : ¬ ListsSomething text)
    (port : UInt16) : ¬ ListsPort text port := by
  rintro ⟨part, hpart, lo, hi, hstates, -⟩
  have hblank : trimSpace part = [] := by
    by_contra hne
    exact h ⟨part, hpart, hne⟩
  rw [hblank] at hstates
  rcases hstates with ⟨hparse, -⟩ | ⟨left, right, heq, -⟩
  · rw [show parseUint 16 (trimSpace []) = none by decide] at hparse
    simp at hparse
  · simp at heq

/-! ### What validation leaves

A stored route is canonical, so the engine drops none of them. -/

/-- The shape of a stored route: a canonical IPv4 prefix inside private address
space and one of the three protocols. -/
theorem validate_eq_ok {raw r : VPNRoute} (h : raw.validate = .ok r) :
    ∃ x bits, bits ≤ 32 ∧ x &&& leading 32 bits = x ∧
      r.cidr = String.ofList (prefixText4 x bits) ∧
      (∃ priv ∈ privateSpace, priv.contains (.v4 x) = true ∧ priv.bits ≤ bits) ∧
      r.proto ≠ "" := by
  unfold VPNRoute.validate at h
  cases hparse : parsePrefix (trimSpace raw.cidr.toList) with
  | none => simp [hparse] at h
  | some p =>
      simp only [hparse] at h
      cases hip : p.ip with
      | zero => simp [hip] at h
      | v6 y zone => simp [hip] at h
      | v4 y =>
          simp only [hip] at h
          split at h
          rotate_left
          · simp at h
          rename_i hprivate
          by_cases hvalid : p.isValid = true
          · have hlen : p.len ≤ 32 := by simpa [hip, Addr.bitLen] using Prefix.len_le hvalid
            obtain ⟨hmip, hmvalid, hmlen⟩ := toPrefix_v4 (x := y) hlen
            have hmasked : p.masked = (Addr.v4 y).toPrefix p.len := by
              simp [Prefix.masked, hvalid, hip]
            have hmbits : p.masked.bits = p.len := by
              rw [Prefix.bits_eq_len (hmasked ▸ hmvalid), hmasked, hmlen]
            obtain ⟨priv, hpriv, hin⟩ := List.any_eq_true.mp hprivate
            simp only [Bool.and_eq_true, decide_eq_true_eq, hmbits] at hin
            simp only [hmasked, hmip] at h hin
            split at h
            · simp at h
            cases hports : parsePorts raw.ports with
            | error why => simp [hports] at h
            | ok ranges =>
                simp only [hports, Except.ok.injEq] at h
                subst h
                refine ⟨y &&& leading 32 p.len, p.len, hlen, ?_, by simp [hmlen],
                  ⟨priv, hpriv, hin⟩, ?_⟩
                · rw [BitVec.and_assoc, BitVec.and_self]
                · by_cases hempty : raw.proto = "" <;> simp [hempty]
          · -- an invalid prefix masks to the zero prefix, which is nobody's
            have hzero : p.masked.ip = .zero := by
              simp [Prefix.masked, hvalid, prefixFrom, Addr.isValid, Addr.bitLen,
                Addr.withoutZone]
            simp [hzero] at h

/-- A stored route reaches the forwarder with the prefix its text says. -/
theorem wgRoute_eq_some {r : VPNRoute} {route : Route} {x : BitVec 32} {bits : Nat}
    (hbits : bits ≤ 32) (hmask : x &&& leading 32 bits = x)
    (hcidr : r.cidr = String.ofList (prefixText4 x bits)) (hproto : r.proto ≠ "")
    (h : wgRoute r = some route) :
    route.pre.ip = .v4 x ∧ route.pre.isValid = true ∧ route.pre.len = bits ∧
      route.proto = r.proto ∧ parsePorts r.ports = .ok route.ports := by
  have hfrom := prefixFrom_of_le (show (Addr.v4 x).isValid = true from rfl) hbits
  have hmasked : (prefixFrom (.v4 x) bits).masked = (Addr.v4 x).toPrefix bits := by
    simp only [Prefix.masked, hfrom.2.1, if_true, hfrom.1, hfrom.2.2, Addr.withoutZone]
  obtain ⟨hip, hvalid, hlen⟩ := toPrefix_v4 (x := x) hbits
  rw [hmask] at hip
  unfold wgRoute at h
  rw [hcidr, String.toList_ofList, parsePrefix_prefixText4 hbits] at h
  cases hports : parsePorts r.ports with
  | error why => simp [hports] at h
  | ok ranges =>
      simp only [hports, hproto, if_false, hmasked, Option.some.injEq] at h
      subst h
      exact ⟨hip, hvalid, hlen, rfl, rfl⟩

/-! ### The bound

`Bounded` is the bound for one flow and `ReachBounded` for a device with all its routes. -/

/-- What a flow that the forwarder allows is bounded by. The destination is read
with an IPv4-mapped address unmapped, as the forwarder reads it. -/
structure Bounded (cfg : Config) (routes : List VPNRoute) (proto : String)
    (dst : AddrPort) : Prop where
  routable : Routable cfg ⟨dst.addr.unmap, dst.port⟩
  privateSpace : ∃ priv ∈ privateSpace, priv.contains dst.addr.unmap = true
  own : dst.addr.unmap ∈ cfg.guard.protectedAddrs ∨
      (∃ o ∈ cfg.guard.ownAddrs, o.unmap = dst.addr.unmap) →
    dst.port ∉ cfg.guard.listenerPorts ∧
    ∃ r ∈ routes, ∃ x, dst.addr.unmap = .v4 x ∧
      r.cidr = String.ofList (prefixText4 x 32) ∧
      (r.proto = "any" ∨ r.proto = proto) ∧ r.ports ≠ "" ∧ ListsPort r.ports dst.port
  stated : ∃ r ∈ routes, (∃ p, parsePrefix r.cidr.toList = some p ∧
      p.contains dst.addr.unmap = true) ∧
    (r.proto = "any" ∨ r.proto = proto) ∧ (r.ports = "" ∨ ListsPort r.ports dst.port)

/-- The reach of a device with these routes: every flow the forwarder allows is
bounded, and no single route with a port text allows a port it does not list. -/
def ReachBounded (routes : List VPNRoute) : Prop :=
  (∀ cfg proto dst, (decide cfg (wgRoutes routes) proto dst).1 = true →
    Bounded cfg routes proto dst) ∧
  ∀ r ∈ routes, ∀ route, wgRoute r = some route → r.ports ≠ "" →
    ∀ proto dst, route.allows proto dst = true → ListsPort r.ports dst.port

theorem not_listsSomething_empty : ¬ ListsSomething "" := by
  rintro ⟨part, hpart, hne⟩
  obtain rfl : part = [] := by simpa using hpart
  exact hne (by decide)

section Bound

variable {routes : List VPNRoute}
  (hstored : ∀ r ∈ routes, ∃ raw : VPNRoute, raw.validate = .ok r)
  (hlists : ∀ r ∈ routes, r.ports ≠ "" → ListsSomething r.ports)

include hlists in
/-- The forwarder's port list of a route says what the route's text says. -/
theorem states_of_allows {r : VPNRoute} {route : Route} {proto : String} {dst : AddrPort}
    (hr : r ∈ routes) (hports : parsePorts r.ports = .ok route.ports)
    (hallows : route.allows proto dst = true) :
    r.ports = "" ∨ ListsPort r.ports dst.port := by
  obtain ⟨-, -, hany⟩ := allows_iff.mp hallows
  by_cases hempty : r.ports = ""
  · exact Or.inl hempty
  · right
    rcases hany with hnil | ⟨range, hrange, hhas⟩
    · exact absurd (hlists r hr hempty) ((parsePorts_eq_nil_iff hports).mp hnil)
    · exact parsePorts_lists hports hrange hhas

include hstored in
/-- The stored route behind a forwarder route, with its shape. -/
theorem exists_stored {route : Route} (hroute : route ∈ wgRoutes routes) :
    ∃ r ∈ routes, ∃ x bits, bits ≤ 32 ∧ r.cidr = String.ofList (prefixText4 x bits) ∧
      (∃ priv ∈ privateSpace, priv.contains (.v4 x) = true ∧ priv.bits ≤ bits) ∧
      route.pre.ip = .v4 x ∧ route.pre.isValid = true ∧ route.pre.len = bits ∧
      route.proto = r.proto ∧ parsePorts r.ports = .ok route.ports := by
  obtain ⟨r, hr, hwg⟩ := List.mem_filterMap.mp hroute
  obtain ⟨raw, hraw⟩ := hstored r hr
  obtain ⟨x, bits, hbits, hmask, hcidr, hpriv, hproto⟩ := validate_eq_ok hraw
  obtain ⟨hip, hvalid, hlen, hrproto, hports⟩ := wgRoute_eq_some hbits hmask hcidr hproto hwg
  exact ⟨r, hr, x, bits, hbits, hcidr, hpriv, hip, hvalid, hlen, hrproto, hports⟩

include hstored hlists in
theorem bounded_of_decide {cfg : Config} {proto : String} {dst : AddrPort}
    (h : (decide cfg (wgRoutes routes) proto dst).1 = true) :
    Bounded cfg routes proto dst := by
  obtain ⟨hroutable, hown, route, hroute, hallows⟩ := allowed_of_decide h
  refine ⟨hroutable, ?_, ?_, ?_⟩
  · obtain ⟨r, hr, x, bits, hbits, -, ⟨priv, hpriv, hin, hle⟩, hip, hvalid, hlen, -, -⟩ :=
      exists_stored hstored hroute
    refine ⟨priv, hpriv, Prefix.contains_of_contains_ip hip hin ?_ (allows_iff.mp hallows).2.1⟩
    rw [Prefix.bits_eq_len hvalid, hlen]
    exact hle
  · intro hmine
    have hisOwn : isOwn cfg.guard dst.addr.unmap = true := by
      simpa [isOwn] using hmine
    obtain ⟨hlistener, route', hroute', hfull, hne, hallows'⟩ := hown hisOwn
    obtain ⟨r, hr, x, bits, hbits, hcidr, -, hip, hvalid, hlen, hproto, hports⟩ :=
      exists_stored hstored hroute'
    obtain ⟨hprotoOk, hcontains, -⟩ := allows_iff.mp hallows'
    obtain rfl : bits = 32 := by
      rw [Prefix.bits_eq_len hvalid, hlen] at hfull
      omega
    obtain ⟨y, hy⟩ := hroutable.is4
    -- all 32 bits agree, so the route's address is the destination
    have hxy : x = y := by
      rw [hy] at hcontains
      have hagree := ((Prefix.contains_v4_iff hip).mp hcontains).2
      rw [hlen] at hagree
      apply BitVec.eq_of_getLsbD_eq
      intro i _
      exact agree_iff.mp hagree i (by omega)
    have hports' : r.ports ≠ "" := by
      intro hempty
      exact hne ((parsePorts_eq_nil_iff hports).mpr (hempty ▸ not_listsSomething_empty))
    have hstates := states_of_allows hlists hr hports hallows'
    exact ⟨hlistener, r, hr, x, hxy ▸ hy, hcidr, hproto ▸ hprotoOk, hports',
      hstates.resolve_left hports'⟩
  · obtain ⟨r, hr, x, bits, hbits, hcidr, -, hip, hvalid, hlen, hproto, hports⟩ :=
      exists_stored hstored hroute
    obtain ⟨hprotoOk, hcontains, -⟩ := allows_iff.mp hallows
    have hstates := states_of_allows hlists hr hports hallows
    refine ⟨r, hr, ⟨prefixFrom (.v4 x) bits, ?_, ?_⟩, hproto ▸ hprotoOk, hstates⟩
    · rw [hcidr, String.toList_ofList, parsePrefix_prefixText4 hbits]
    · obtain ⟨y, hy⟩ := hroutable.is4
      have hfrom := prefixFrom_of_le (show (Addr.v4 x).isValid = true from rfl) hbits
      rw [hy] at hcontains
      have hagree := ((Prefix.contains_v4_iff hip).mp hcontains).2
      have hdst : dst.addr.unmap = .v4 y := hy
      rw [hdst]
      refine (Prefix.contains_v4_iff (x := x) hfrom.1).mpr ⟨hfrom.2.1, ?_⟩
      rw [hfrom.2.2, ← hlen]
      exact hagree

end Bound

/-- **The reach of a device is bounded by its routes exactly when every port text
among them that is not empty lists something.** -/
theorem reachBounded_iff (routes : List VPNRoute)
    (hstored : ∀ r ∈ routes, ∃ raw : VPNRoute, raw.validate = .ok r) :
    ReachBounded routes ↔ ∀ r ∈ routes, r.ports ≠ "" → ListsSomething r.ports := by
  constructor
  · intro hbounded r hr hports
    by_contra hblank
    obtain ⟨raw, hraw⟩ := hstored r hr
    obtain ⟨x, bits, hbits, hmask, hcidr, -, hproto⟩ := validate_eq_ok hraw
    obtain ⟨route, hroute⟩ : ∃ route, wgRoute r = some route := by
      unfold wgRoute
      rw [hcidr, String.toList_ofList, parsePrefix_prefixText4 hbits, parsePorts_of_blank hblank]
      exact ⟨_, rfl⟩
    obtain ⟨hip, hvalid, hlen, hrproto, hparse⟩ :=
      wgRoute_eq_some hbits hmask hcidr hproto hroute
    have hnil : route.ports = [] := (parsePorts_eq_nil_iff hparse).mpr hblank
    have hallows : route.allows route.proto ⟨.v4 x, 1⟩ = true :=
      allows_iff.mpr ⟨Or.inr rfl,
        (Prefix.contains_v4_iff hip).mpr ⟨hvalid, agree_self x⟩, Or.inl hnil⟩
    exact not_listsPort_of_blank hblank _ (hbounded.2 r hr route hroute hports _ _ hallows)
  · intro hlists
    refine ⟨fun cfg proto dst h => bounded_of_decide hstored hlists h, ?_⟩
    intro r hr route hroute hports proto dst hallows
    obtain ⟨raw, hraw⟩ := hstored r hr
    obtain ⟨x, bits, hbits, hmask, hcidr, -, hproto⟩ := validate_eq_ok hraw
    have hparse := (wgRoute_eq_some hbits hmask hcidr hproto hroute).2.2.2.2
    exact (states_of_allows hlists hr hparse hallows).resolve_left hports

/-- A route for one port of one network is bounded. -/
theorem reachBounded_ssh : ReachBounded [⟨"192.168.1.0/24", "tcp", "22"⟩] := by
  refine (reachBounded_iff _ ?_).mpr ?_
  · intro r hr
    obtain rfl : r = ⟨"192.168.1.0/24", "tcp", "22"⟩ := by simpa using hr
    exact ⟨⟨"192.168.1.0/24", "tcp", "22"⟩, by decide⟩
  · intro r hr _
    obtain rfl : r = ⟨"192.168.1.0/24", "tcp", "22"⟩ := by simpa using hr
    exact ⟨['2', '2'], by decide, by decide⟩

/-- The configuration of a machine that guards nothing. -/
def unguarded : Config where
  privateKey := ""
  listenPort := 51820
  address := .v4 0x0a4d0001#32
  tunnel := cidr4 10 77 0 0 24
  sites := []
  devices := []
  forward := true
  guard := ⟨[], [], [], [], []⟩

/-- The route `","` is accepted, lets every port of its network through, and is
therefore not bounded by its text. -/
theorem reachBounded_comma_fails :
    VPNRoute.validate ⟨"192.168.1.0/24", "tcp", ","⟩ = .ok ⟨"192.168.1.0/24", "tcp", ","⟩ ∧
      (decide unguarded (wgRoutes [⟨"192.168.1.0/24", "tcp", ","⟩]) "tcp"
        ⟨.v4 0xc0a80107#32, 3389⟩).1 = true ∧
      ¬ ReachBounded [⟨"192.168.1.0/24", "tcp", ","⟩] := by
  have hallowed : (decide unguarded (wgRoutes [⟨"192.168.1.0/24", "tcp", ","⟩]) "tcp"
      ⟨.v4 0xc0a80107#32, 3389⟩).1 = true := by decide
  refine ⟨by decide, hallowed, ?_⟩
  intro hbounded
  obtain ⟨r, hr, -, -, hports⟩ := (hbounded.1 _ _ _ hallowed).stated
  obtain rfl : r = ⟨"192.168.1.0/24", "tcp", ","⟩ := by simpa using hr
  have hblank : ¬ ListsSomething "," := by
    rintro ⟨part, hpart, hne⟩
    have hparts : part ∈ [([] : List Char), []] := hpart
    obtain rfl : part = [] := by simpa using hparts
    exact hne (by decide)
  rcases hports with hempty | hlisted
  · exact absurd hempty (by decide)
  · exact not_listsPort_of_blank hblank _ hlisted

end Quicgate.VpnRoutes
