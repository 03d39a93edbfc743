import Quicgate.AddrText
import Quicgate.RealIP

/-!
# What a client writes in front

A header of forwarded addresses grows at its right end: what a request came with is on the
left, and each proxy appends the address it was called from, some with the port.  The walk
of the data plane (`realClientIP` of `internal/engine/realip.go`) starts on the right and
skips the entries that are more than an address.  The module says when the entries that the
trusted proxies appended decide alone.

`decides_iff` is exact in the entries that were appended; `port_is_skipped` has two headers with
which a client writes past its proxy.
-/

namespace Quicgate.TrustedSuffix

open Quicgate.AddrText Quicgate.GoStrings Quicgate.GoNet Quicgate.Netip Quicgate.RealIP
open Quicgate.Identity (canonicalHeaderKey)

/-! ### Entries of the header

What a client wrote is any text; what the proxies appended are addresses, some of them with a
port. -/

def ipOf : Addr → IP
  | .zero => 0
  | .v4 x => mapped x
  | .v6 x _ => x

variable (c : RealIPConfig)

def list (r : Request) : List (List Char) :=
  ([','].intercalate (values r.header c.header)).splitOn ','

def untrusted (v : List Char) : Option Addr := (parseHop v).filter fun a => !c.trusts (ipOf a)

def stop (v : List Char) : Option IP := (parseIP (trimSpace v)).filter fun ip => !c.trusts ip

/-- The rightmost untrusted address. -/
def rightmost (suffix : List (List Char)) : Option Addr := suffix.reverse.findSome? (untrusted c)

/-- The rightmost untrusted address among the entries that are an address and nothing else. -/
def rightmostPlain (suffix : List (List Char)) : Option Addr :=
  (suffix.reverse.findSome? (stop c)).map addrOf

/-- Entries that trusted proxies appended: each is an address, with a port or without, and one is
the address of a hop that is not trusted. -/
structure Appended (suffix : List (List Char)) : Prop where
  entry : ∀ v ∈ suffix, ',' ∉ v
  address : ∀ v ∈ suffix, ∃ a, parseHop v = some a
  hop : ∃ v ∈ suffix, ∃ a, untrusted c v = some a

/-- A request whose peer is trusted comes from the rightmost untrusted address of what was
appended, whatever stands in front of it and however it is spread over lines. -/
def Decides (peer : String) (suffix : List (List Char)) : Prop :=
  ∀ header before, list c ⟨peer, header⟩ = before ++ suffix →
    (c.realClientIP ⟨peer, header⟩).map addrOf = rightmost c suffix

variable {c}

/-! ### The two kinds of entries

An entry with a port is no plain address, and the walk does not stop at it. -/

@[simp] theorem ipOf_addrOf (ip : IP) : ipOf (addrOf ip) = ip := by
  rw [addrOf_eq]
  cases h : to4 ip with
  | some x => exact mapped_of_to4 h
  | none => rfl

/-! ### The walk

The walk ends in the appended entries when one of them is plain and not trusted. -/

variable {peer : String} {ip : IP}

theorem realClientIP_of_trusted (hip : parseIP (hostOnly peer) = some ip)
    (htrust : c.trusts ip = true) (header : Header) :
    c.realClientIP ⟨peer, header⟩ =
      ((list c ⟨peer, header⟩).reverse.findSome? (stop c)).or
        ((list c ⟨peer, header⟩).findSome? fun v => parseIP (trimSpace v)) := by
  simp only [RealIPConfig.realClientIP, hip, htrust, if_true]
  unfold list stop
  generalize List.findSome? _ (List.reverse _) = last
  cases last with
  | some ip => rfl
  | none => rfl

/-- The walk ends in the suffix when it has an entry to stop at. -/
theorem findSome?_stop_append {before suffix : List (List Char)}
    (h : suffix.reverse.findSome? (stop c) = some ip) :
    (before ++ suffix).reverse.findSome? (stop c) = some ip := by
  rw [List.reverse_append, List.findSome?_append, h, Option.some_or]

/-- What the walk falls back on is trusted. -/
theorem trusts_of_findSome? {vals : List (List Char)} {ip : IP}
    (hnone : vals.reverse.findSome? (stop c) = none)
    (h : vals.findSome? (fun v => parseIP (trimSpace v)) = some ip) : c.trusts ip = true := by
  obtain ⟨before, v, after, hvals, hparse, -⟩ := List.findSome?_eq_some_iff.mp h
  have hmem : v ∈ vals.reverse := by simp [hvals]
  have hstop := List.findSome?_eq_none_iff.mp hnone v hmem
  unfold stop at hstop
  rw [hparse] at hstop
  simpa using hstop

theorem exists_rightmost {suffix : List (List Char)} (h : Appended c suffix) :
    ∃ a, rightmost c suffix = some a ∧ c.trusts (ipOf a) = false := by
  obtain ⟨v, hv, a, ha⟩ := h.hop
  cases hlast : rightmost c suffix with
  | none =>
      rw [List.findSome?_eq_none_iff.mp hlast v (List.mem_reverse.mpr hv)] at ha
      cases ha
  | some b =>
      obtain ⟨before, w, after, -, hw, -⟩ := List.findSome?_eq_some_iff.mp hlast
      refine ⟨b, rfl, ?_⟩
      simpa using (Option.filter_eq_some_iff.mp hw).2

def oneLine (c : RealIPConfig) (suffix : List (List Char)) : Header :=
  [(canonicalHeaderKey c.header, String.ofList ([','].intercalate suffix))]

theorem list_oneLine {suffix : List (List Char)} (h : Appended c suffix) (peer : String) :
    list c ⟨peer, oneLine c suffix⟩ = suffix := by
  obtain ⟨v, hv, -⟩ := h.hop
  have hvalues : values (oneLine c suffix) c.header = [[','].intercalate suffix] := by
    simp [values, oneLine]
  rw [list, hvalues, List.intercalate_singleton]
  exact List.splitOn_intercalate ',' h.entry (List.ne_nil_of_mem hv)

/-- **A client cannot write past a trusted proxy** exactly when the rightmost untrusted address that
the trusted proxies appended is written without a port, or stands without one further left. -/
theorem decides_iff (hip : parseIP (hostOnly peer) = some ip) (htrust : c.trusts ip = true)
    {suffix : List (List Char)} (happended : Appended c suffix) :
    Decides c peer suffix ↔ rightmostPlain c suffix = rightmost c suffix := by
  constructor
  · intro h
    have hlist := list_oneLine happended peer
    have hresult := h (oneLine c suffix) [] hlist
    rw [realClientIP_of_trusted hip htrust, hlist] at hresult
    unfold rightmostPlain
    cases hstop : suffix.reverse.findSome? (stop c) with
    | some found => rwa [hstop, Option.some_or] at hresult
    | none =>
        -- the walk falls back on a trusted address
        obtain ⟨a, ha, huntrusted⟩ := exists_rightmost happended
        rw [hstop, Option.none_or, ha] at hresult
        obtain ⟨first, hfirst, rfl⟩ := Option.map_eq_some_iff.mp hresult
        rw [ipOf_addrOf, trusts_of_findSome? hstop hfirst] at huntrusted
        cases huntrusted
  · intro h header before hlist
    obtain ⟨a, ha, -⟩ := exists_rightmost happended
    rw [ha] at h
    obtain ⟨found, hfound, hsame⟩ := Option.map_eq_some_iff.mp h
    rw [realClientIP_of_trusted hip htrust, hlist, findSome?_stop_append hfound, Option.some_or,
      Option.map_some, hsame, ha]

section Examples

def proxies : RealIPConfig := buildRealIP "10.0.0.0/8" "X-Forwarded-For"

/-- The client with the port it called from, and a proxy behind the first one. -/
def withPort : List (List Char) := ["203.0.113.7:4711".toList, "10.0.0.2".toList]

def plainHop : List (List Char) := ["203.0.113.7".toList, " 10.0.0.2:443".toList]

theorem appended_of_decide {c : RealIPConfig} {suffix : List (List Char)}
    (h : (suffix.all fun v => !v.contains ',' && (parseHop v).isSome) = true)
    (hhop : (suffix.any fun v => (untrusted c v).isSome) = true) : Appended c suffix := by
  simp only [List.all_eq_true, Bool.and_eq_true, Bool.not_eq_true', List.contains_eq_mem,
    decide_eq_false_iff_not] at h
  obtain ⟨v, hv, hsome⟩ := List.any_eq_true.mp hhop
  exact ⟨fun v hv => (h v hv).1, fun v hv => Option.isSome_iff_exists.mp (h v hv).2,
    v, hv, Option.isSome_iff_exists.mp hsome⟩

theorem decides_iff_plainHop : Decides proxies "10.1.2.3:5000" plainHop := by
  have hpeer : ((parseIP (hostOnly "10.1.2.3:5000")).any proxies.trusts) = true := by decide +kernel
  obtain ⟨ip, hip, htrust⟩ := (Option.any_eq_true _ _).mp hpeer
  have happended : Appended proxies plainHop :=
    appended_of_decide (by decide +kernel) (by decide +kernel)
  exact (decides_iff hip htrust happended).mpr (by decide +kernel)

/-- A client that is appended with its port is skipped, and what it wrote in front is believed; and
a hop with its port is skipped where another one is not. -/
theorem port_is_skipped :
    (¬ ∀ (c : RealIPConfig) (peer : String) (ip : IP) (suffix : List (List Char)),
      parseIP (hostOnly peer) = some ip → c.trusts ip = true → Appended c suffix →
        Decides c peer suffix) ∧
    (proxies.client ⟨"10.1.2.3:5000",
        [("X-Forwarded-For", "1.2.3.4"),
          ("X-Forwarded-For", "203.0.113.7:4711,10.0.0.2")]⟩).address =
      .inl (.v4 0x01020304#32) ∧
    (proxies.client ⟨"10.1.2.3:5000",
        [("X-Forwarded-For", "203.0.113.9,198.51.100.7:4711")]⟩).address =
          .inl (.v4 0xcb007109#32) := by
  refine ⟨?_, by decide +kernel, by decide +kernel⟩
  intro h
  have hpeer : ((parseIP (hostOnly "10.1.2.3:5000")).any proxies.trusts) = true := by decide +kernel
  obtain ⟨ip, hip, htrust⟩ := (Option.any_eq_true _ _).mp hpeer
  have happended : Appended proxies withPort :=
    appended_of_decide (by decide +kernel) (by decide +kernel)
  have hsame := h proxies "10.1.2.3:5000" ip withPort hip htrust happended
    [("X-Forwarded-For", "1.2.3.4"), ("X-Forwarded-For", "203.0.113.7:4711,10.0.0.2")]
    ["1.2.3.4".toList] (by decide +kernel)
  revert hsame
  decide +kernel

end Examples

end Quicgate.TrustedSuffix
