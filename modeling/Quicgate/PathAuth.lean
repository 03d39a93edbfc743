import Quicgate.HostChecks
import Quicgate.RankedRules

/-!
# Path-scoped authentication

The dispatch of a host's requests over its auth rules (`internal/engine/pathauth.go`
and `wrapCommon`): the most specific rule that matches the method and the path, else
the host's own access list, forward authentication or single sign-on.  A path is
compared byte by byte, as Go compares it.

Two hosts are compared over every method and path by `neverOpens_iff_keepsGates`: it is
enough to look at the paths the rules name and just below them.  `ImportGates` compares a
host with the one that an import makes of it.
-/

namespace Quicgate.Store

open Quicgate.GoNet Quicgate.RankedRules

/-! ### Matching and sorting

`pathWithin` is the subtree of a prefix: the prefix itself and what lies under it.
`AuthRule.matchesPath` and `AuthRule.matchesRequest` are `pathGate.matches`, the path's part and the
whole, and `hasAmbiguousSegment` looks for `//` and for the bytes that upstreams read
differently. -/

abbrev Path := List UInt8

def slash : UInt8 := 47

def pathWithin (p stem : Path) : Bool :=
  stem.isPrefixOf p && (p.length == stem.length || stem.getLast? == some slash ||
    p[stem.length]? == some slash)

def AuthRule.matchesPath (r : AuthRule) (p : Path) : Bool :=
  if r.exact then p == utf8 r.path else pathWithin p (utf8 r.path)

def AuthRule.matchesRequest (method : String) (p : Path) (r : AuthRule) : Bool :=
  (r.methods.isEmpty || r.methods.contains method) && r.matchesPath p

/-- The comparison of `sort.SliceStable`: longest path first, exact before prefix. -/
def sortsBefore (a b : AuthRule) : Bool :=
  if (utf8 a.path).length ≠ (utf8 b.path).length then
    (utf8 b.path).length < (utf8 a.path).length
  else a.exact && !b.exact

/-- `buildPathAuth`, the order of the gates. -/
def sortGates (rules : List AuthRule) : List AuthRule :=
  rules.insertionSort fun a b => sortsBefore b a = false

def doubleSlash : Path → Bool
  | a :: b :: rest => (a == slash && b == slash) || doubleSlash (b :: rest)
  | _ => false

/-- `hasAmbiguousSegment`. -/
def hasAmbiguousSegment (p : Path) : Bool := doubleSlash p || p.any fun b => b ∈ [92, 59, 37]

def oidcCallbackPath : Path := utf8 "/.qg/oidc/callback"
def oidcLogoutPath : Path := utf8 "/.qg/oidc/logout"

/-! ### The dispatch

A portal logs people in itself and has no SSO gate, unless the maintenance page stands in its
place. -/

/-- What the dispatch does with a request: refuse its path, put a gate in front of
the inner handler (one that is closed to everybody included), or hand it over. -/
inductive Handling where
  | refused
  | gated
  | free
deriving DecidableEq, Repr

/-- The SSO gate of a host. -/
def Host.ssoGate (h : Host) : Bool :=
  h.options.oidc.isSome && (h.type != "vpn-portal" || h.options.maintenance)

def Host.hostGated (h : Host) : Bool :=
  h.ssoGate || h.options.hasForwardAuth || h.accessListID.isSome

/-- `pathAuth.reserved` is set: the login's own paths are answered by an SSO gate. -/
def Host.reserves (h : Host) : Bool :=
  h.ssoGate || h.options.authRules.any fun r => r.mode == "oidc" && r.oidc.isSome

def Host.ownGate (h : Host) : Handling := if h.hostGated then .gated else .free

def AuthRule.handling (r : AuthRule) : Handling := if r.mode = "public" then .free else .gated

/-- `pathAuth.ServeHTTP` behind `rejectAmbiguousPaths`, and the host's own gate alone
when it has no rules. -/
def Host.dispatch (h : Host) (method : String) (p : Path) : Handling :=
  if h.options.authRules = [] then h.ownGate
  else if hasAmbiguousSegment p then .refused
  else if h.reserves = true ∧ (p = oidcCallbackPath ∨ p = oidcLogoutPath) then .gated
  else match (sortGates h.options.authRules).find? (AuthRule.matchesRequest method p) with
    | some r => r.handling
    | none => h.ownGate

/-! ### Which rule decides

`pick` is the rule of the sorted gates that decides.  With it the dispatch is a decision of rules
and host, once the paths are set aside that are refused or that the login answers. -/

/-- Longer paths outrank shorter ones, an exact rule a prefix rule of its length. -/
def AuthRule.rank (r : AuthRule) : Nat := 2 * (utf8 r.path).length + if r.exact then 1 else 0

theorem sortsBefore_eq_false {a b : AuthRule} : sortsBefore b a = false ↔ b.rank ≤ a.rank := by
  unfold sortsBefore AuthRule.rank
  cases hb : b.exact <;> cases ha : a.exact <;> by_cases hlen : (utf8 b.path).length =
    (utf8 a.path).length
  all_goals simp [hlen]
  all_goals omega

/-- The rule that decides a request, `none` if the host's own gate does. -/
def pick (rules : List AuthRule) (method : String) (p : Path) : Option AuthRule :=
  best AuthRule.rank (AuthRule.matchesRequest method p) rules

theorem find?_sortGates (rules : List AuthRule) (method : String) (p : Path) :
    (sortGates rules).find? (AuthRule.matchesRequest method p) = pick rules method p := by
  unfold sortGates pick best ranked
  simp only [sortsBefore_eq_false]

/-- The decision by rules and host, past the paths that are refused or reserved. -/
def Host.decision (h : Host) (rules : List AuthRule) (method : String) (p : Path) : Handling :=
  match pick rules method p with
  | some r => r.handling
  | none => h.ownGate

theorem Host.ownGate_ne_refused (h : Host) : h.ownGate ≠ .refused := by
  unfold Host.ownGate
  split <;> simp

theorem AuthRule.handling_ne_refused (r : AuthRule) : r.handling ≠ .refused := by
  unfold AuthRule.handling
  split <;> simp

theorem Host.decision_ne_refused {h : Host} {rules : List AuthRule} {method : String} {p : Path} :
    h.decision rules method p ≠ .refused := by
  unfold Host.decision
  cases pick rules method p with
  | none => exact h.ownGate_ne_refused
  | some r => exact r.handling_ne_refused

def Host.reservesPath (h : Host) (p : Path) : Prop :=
  h.options.authRules ≠ [] ∧ h.reserves = true ∧ (p = oidcCallbackPath ∨ p = oidcLogoutPath)

theorem Host.dispatch_of_decides {h : Host} {method : String} {p : Path}
    (hpath : hasAmbiguousSegment p = false) (hres : ¬ h.reservesPath p) :
    h.dispatch method p = h.decision h.options.authRules method p := by
  unfold Host.dispatch Host.decision
  by_cases hrules : h.options.authRules = []
  · rw [if_pos hrules, hrules]
    rfl
  · have hres' : ¬ (h.reserves = true ∧ (p = oidcCallbackPath ∨ p = oidcLogoutPath)) :=
      fun hand => hres ⟨hrules, hand⟩
    rw [if_neg hrules, if_neg (by simp [hpath]), if_neg hres', find?_sortGates]

/-- Whatever the dispatch opens, the rules and the host open. -/
theorem Host.decision_of_free {h : Host} {method : String} {p : Path}
    (hfree : h.dispatch method p = .free) : h.decision h.options.authRules method p = .free := by
  unfold Host.dispatch at hfree
  split_ifs at hfree with hrules hamb hres
  · unfold Host.decision
    rw [hrules]
    exact hfree
  · rw [find?_sortGates] at hfree
    exact hfree

theorem Host.unambiguous_of_gated {h : Host} {method : String} {p : Path}
    (hrules : h.options.authRules ≠ []) (hgated : h.dispatch method p = .gated) :
    hasAmbiguousSegment p = false := by
  unfold Host.dispatch at hgated
  rw [if_neg hrules] at hgated
  rw [Bool.eq_false_iff]
  intro hamb
  simp [hamb] at hgated

theorem Host.decision_of_gated {h : Host} {method : String} {p : Path}
    (hgated : h.dispatch method p = .gated) :
    h.reservesPath p ∨ h.decision h.options.authRules method p = .gated := by
  unfold Host.dispatch at hgated
  split_ifs at hgated with hrules hamb hres
  · right
    unfold Host.decision
    rw [hrules]
    exact hgated
  · exact Or.inl ⟨hrules, hres⟩
  · right
    rw [find?_sortGates] at hgated
    exact hgated

/-! ### Paths below a path

Below a directory there are infinitely many paths, but rules that spell none of them cannot tell
them apart: `filler` is a segment that is too long for any rule. -/

/-- The path with the slash after which the paths below it begin. -/
def slashed (stem : Path) : Path := if stem.getLast? = some slash then stem else stem ++ [slash]

theorem getLast?_slashed (stem : Path) : (slashed stem).getLast? = some slash := by
  unfold slashed
  split_ifs with hlast
  · exact hlast
  · simp

theorem length_le_slashed (stem : Path) : stem.length ≤ (slashed stem).length := by
  unfold slashed
  split <;> simp

theorem slashed_ne_nil (stem : Path) : slashed stem ≠ [] := by
  intro hnil
  have hlast := getLast?_slashed stem
  simp [hnil] at hlast

/-- What lies in the subtree under a path is the path or begins with it and a
slash. -/
theorem eq_or_slashed_of_pathWithin {p stem : Path} (h : pathWithin p stem = true) :
    p = stem ∨ ∃ rest, p = slashed stem ++ rest := by
  simp only [pathWithin, Bool.and_eq_true, Bool.or_eq_true, beq_iff_eq,
    List.isPrefixOf_iff_prefix] at h
  obtain ⟨⟨rest, rfl⟩, hborder⟩ := h
  by_cases hlast : stem.getLast? = some slash
  · exact Or.inr ⟨rest, by simp [slashed, hlast]⟩
  · cases rest with
    | nil => exact Or.inl (by simp)
    | cons b rest =>
        right
        refine ⟨rest, ?_⟩
        have hb : b = slash := by simpa [hlast] using hborder
        simp [slashed, hlast, hb]

/-- A stem no longer than a directory covers what is below the directory exactly if
it covers the directory. -/
theorem pathWithin_append {dir rest stem : Path} (hdir : dir.getLast? = some slash)
    (hlen : stem.length ≤ dir.length) : pathWithin (dir ++ rest) stem = pathWithin dir stem := by
  rw [Bool.eq_iff_iff]
  simp only [pathWithin, Bool.and_eq_true, Bool.or_eq_true, beq_iff_eq,
    List.isPrefixOf_iff_prefix]
  have hpre : stem <+: dir ++ rest ↔ stem <+: dir := by
    constructor
    · intro h
      exact List.prefix_of_prefix_length_le h (List.prefix_append dir rest) hlen
    · intro h
      exact h.trans (List.prefix_append dir rest)
  rw [hpre]
  rcases Nat.eq_or_lt_of_le hlen with heq | hlt
  · -- the stem is the directory itself, which ends in a slash
    constructor
    · rintro ⟨hstem, -⟩
      exact ⟨hstem, Or.inl (Or.inl heq.symm)⟩
    · rintro ⟨hstem, -⟩
      obtain rfl := hstem.eq_of_length heq
      exact ⟨hstem, Or.inl (Or.inr hdir)⟩
  · have hne : (dir ++ rest).length ≠ stem.length := by simp; omega
    have hne' : dir.length ≠ stem.length := by omega
    rw [List.getElem?_append_left hlt]
    simp only [hne, hne', false_or]

theorem pathWithin_eq_false_of_lt {p stem : Path} (h : p.length < stem.length) :
    pathWithin p stem = false := by
  have hpre : stem.isPrefixOf p = false := by
    rw [Bool.eq_false_iff]
    intro hpre
    have hle := (List.isPrefixOf_iff_prefix.mp hpre).length_le
    omega
  simp [pathWithin, hpre]

/-- A long segment that no rule spells. -/
def filler (n : Nat) : Path := List.replicate n 120

theorem pathWithin_filler {dir stem : Path} {n : Nat} (hdir : dir.getLast? = some slash)
    (hlen : stem.length < n) : pathWithin (dir ++ filler n) stem = pathWithin dir stem := by
  by_cases hle : stem.length ≤ dir.length
  · exact pathWithin_append hdir hle
  · rw [pathWithin_eq_false_of_lt (by omega : dir.length < stem.length), Bool.eq_false_iff]
    intro hwithin
    -- the stem would end inside the filler, at no border of a segment
    rcases eq_or_slashed_of_pathWithin hwithin with heq | ⟨rest, heq⟩
    · have hlong : (dir ++ filler n).length = stem.length := by rw [heq]
      simp [filler] at hlong
      omega
    · have hmem : slash ∈ filler n := by
        have hlast : (slashed stem)[(slashed stem).length - 1]? = some slash := by
          rw [← List.getLast?_eq_getElem?]
          exact getLast?_slashed stem
        have hpos : 0 < (slashed stem).length := List.length_pos_iff.mpr (slashed_ne_nil stem)
        have hfar : dir.length ≤ (slashed stem).length - 1 := by
          have := length_le_slashed stem
          omega
        have hat : (dir ++ filler n)[(slashed stem).length - 1]? = some slash := by
          rw [heq, List.getElem?_append_left (by omega)]
          exact hlast
        rw [List.getElem?_append_right hfar] at hat
        exact List.mem_of_getElem? hat
      exact absurd (List.eq_of_mem_replicate hmem) (by decide)

theorem doubleSlash_concat (p : Path) (b : UInt8) :
    doubleSlash (p ++ [b]) = (doubleSlash p || (p.getLast? == some slash && b == slash)) := by
  induction p with
  | nil => simp [doubleSlash]
  | cons a rest ih =>
      cases rest with
      | nil => simp [doubleSlash]
      | cons c rest =>
          have hlast : (a :: c :: rest).getLast? = (c :: rest).getLast? := by simp
          simp only [List.cons_append, doubleSlash] at ih ⊢
          rw [ih, hlast, Bool.or_assoc]

theorem hasAmbiguousSegment_concat {p : Path} {b : UInt8} (hp : hasAmbiguousSegment p = false)
    (hb : b ∉ [92, 59, 37]) (hborder : p.getLast? ≠ some slash ∨ b ≠ slash) :
    hasAmbiguousSegment (p ++ [b]) = false := by
  simp only [hasAmbiguousSegment, Bool.or_eq_false_iff] at hp ⊢
  obtain ⟨hdouble, hbytes⟩ := hp
  constructor
  · rw [doubleSlash_concat, hdouble]
    rcases hborder with hlast | hb'
    · simp [hlast]
    · simp [hb']
  · rw [List.any_append, hbytes]
    simpa using hb

theorem hasAmbiguousSegment_slashed {p : Path} (hp : hasAmbiguousSegment p = false) :
    hasAmbiguousSegment (slashed p) = false := by
  unfold slashed
  split_ifs with hlast
  · exact hp
  · exact hasAmbiguousSegment_concat hp (by decide) (Or.inl hlast)

theorem hasAmbiguousSegment_filler {p : Path} (hp : hasAmbiguousSegment p = false) (n : Nat) :
    hasAmbiguousSegment (p ++ filler n) = false := by
  induction n with
  | zero => simpa [filler] using hp
  | succ n ih =>
      have happend : p ++ filler (n + 1) = (p ++ filler n) ++ [120] := by
        simp [filler, List.replicate_succ']
      rw [happend]
      exact hasAmbiguousSegment_concat ih (by decide) (Or.inr (by decide))

theorem doubleSlash_of_append {p rest : Path} (h : doubleSlash (p ++ rest) = false) :
    doubleSlash p = false := by
  induction p with
  | nil => rfl
  | cons a tail ih =>
      cases tail with
      | nil => rfl
      | cons b tail =>
          simp only [List.cons_append, doubleSlash, Bool.or_eq_false_iff] at h ih ⊢
          exact ⟨h.1, ih h.2⟩

theorem hasAmbiguousSegment_of_append {p rest : Path}
    (h : hasAmbiguousSegment (p ++ rest) = false) :
    hasAmbiguousSegment p = false := by
  simp only [hasAmbiguousSegment, Bool.or_eq_false_iff, List.any_append] at h ⊢
  exact ⟨doubleSlash_of_append h.1, h.2.1⟩

theorem prefix_slashed (p : Path) : p <+: slashed p := by
  unfold slashed
  split
  · exact List.prefix_refl p
  · exact List.prefix_append p [slash]

/-! ### Two hosts compared

From left to right a place of `KeepsGates` is a path that the dispatch is asked about; from right to
left a path is reduced to the longest rule above it. -/

def Host.prefixRules (h : Host) : List AuthRule := h.options.authRules.filter fun r => !r.exact

/-- Every rule's path begins with a slash, as validation has it. -/
def Host.Rooted (h : Host) : Prop := ∀ r ∈ h.options.authRules, startsWithSlash r.path = true

/-- Each public rule of the second host has the path, the exactness and the methods
of a rule of the first. -/
def PublicRulesKnown (cur next : Host) : Prop :=
  ∀ n ∈ next.options.authRules, n.mode = "public" →
    ∃ c ∈ cur.options.authRules, c.path = n.path ∧ c.exact = n.exact ∧ c.methods = n.methods

/-- Where the first host has a gate, the second has none at no method and path. -/
def NeverOpens (cur next : Host) : Prop :=
  ∀ method p, cur.dispatch method p = .gated → next.dispatch method p ≠ .free

/-- What has to be looked at: the SSO of the host, the paths that the gate rules of
the first host and the login name, and what is just below the prefix rules among
them, where only prefix rules matter. -/
structure KeepsGates (cur next : Host) : Prop where
  host : cur.ssoGate = true → next.hostGated = true
  login : ∀ method, ∀ p ∈ [oidcCallbackPath, oidcLogoutPath],
    cur.dispatch method p = .gated → next.dispatch method p ≠ .free
  named : ∀ method, ∀ r ∈ cur.options.authRules, r.mode ≠ "public" →
    cur.dispatch method (utf8 r.path) = .gated → next.dispatch method (utf8 r.path) ≠ .free
  below : ∀ method, ∀ r ∈ cur.prefixRules, r.mode ≠ "public" →
    hasAmbiguousSegment (utf8 r.path) = false →
    cur.decision cur.prefixRules method (slashed (utf8 r.path)) = .gated →
    next.decision next.prefixRules method (slashed (utf8 r.path)) ≠ .free

theorem head?_utf8 {path : String} (h : startsWithSlash path = true) :
    (utf8 path).head? = some slash := by
  simp only [startsWithSlash, beq_iff_eq] at h
  obtain ⟨rest, hlist⟩ : ∃ rest, path.toList = '/' :: rest := by
    cases hpath : path.toList with
    | nil => simp [hpath] at h
    | cons c rest =>
        obtain rfl : c = '/' := by simpa [hpath] using h
        exact ⟨rest, rfl⟩
  have hbytes : utf8 path = List.flatMap String.utf8EncodeChar path.toList := by
    unfold utf8 String.toUTF8
    rw [← String.utf8Encode_toList, List.utf8Encode, List.data_toByteArray]
  rw [hbytes, hlist]
  rfl

section Compared

variable {cur next : Host} {method : String} {p : Path}

/-- A free pass is a public rule's, or the host's that has no gate. -/
theorem Host.decision_eq_free {h : Host} {rules : List AuthRule} :
    h.decision rules method p = .free ↔
      (∃ n, pick rules method p = some n ∧ n.mode = "public") ∨
      (pick rules method p = none ∧ h.hostGated = false) := by
  unfold Host.decision
  cases hpick : pick rules method p with
  | none => simp [Host.ownGate]
  | some n => simp [AuthRule.handling]

theorem Host.decision_eq_gated {h : Host} {rules : List AuthRule} :
    h.decision rules method p = .gated ↔
      (∃ r, pick rules method p = some r ∧ r.mode ≠ "public") ∨
      (pick rules method p = none ∧ h.hostGated = true) := by
  unfold Host.decision
  cases hpick : pick rules method p with
  | none => simp [Host.ownGate]
  | some n => simp [AuthRule.handling]

theorem AuthRule.matchesRequest_iff {r : AuthRule} : r.matchesRequest method p = true ↔
    (r.methods.isEmpty || r.methods.contains method) = true ∧ r.matchesPath p = true := by
  simp only [AuthRule.matchesRequest, Bool.and_eq_true]

/-- Among prefix rules, what matches a directory matches everything below it. -/
theorem AuthRule.matchesRequest_of_dir {r : AuthRule} {dir : Path} (rest : Path)
    (hdir : dir.getLast? = some slash) (hplain : r.exact = false)
    (h : r.matchesRequest method dir = true) : r.matchesRequest method (dir ++ rest) = true := by
  rw [AuthRule.matchesRequest_iff] at h ⊢
  obtain ⟨hmethod, hpath⟩ := h
  refine ⟨hmethod, ?_⟩
  simp only [AuthRule.matchesPath, hplain] at hpath ⊢
  have hlen : (utf8 r.path).length ≤ dir.length := by
    by_contra hlt
    rw [pathWithin_eq_false_of_lt (by omega)] at hpath
    simp at hpath
  simpa [pathWithin_append hdir hlen] using hpath

theorem AuthRule.matchesRequest_dir {r : AuthRule} {dir rest : Path}
    (hdir : dir.getLast? = some slash) (hplain : r.exact = false)
    (hlen : (utf8 r.path).length ≤ dir.length)
    (h : r.matchesRequest method (dir ++ rest) = true) : r.matchesRequest method dir = true := by
  rw [AuthRule.matchesRequest_iff] at h ⊢
  simpa [AuthRule.matchesPath, hplain, pathWithin_append hdir hlen] using h

/-! ### Just below a prefix rule

A rule that decides a path below it either is an exact rule of that path, or a prefix rule,
and then it decides a path just below its prefix as well. -/

/-- A prefix rule that decides a path below it decides, among the prefix rules, what
is just below it. -/
theorem pick_dir {rules : List AuthRule} {r : AuthRule} {dir rest : Path}
    (hdir : dir.getLast? = some slash) (hpick : pick rules method (dir ++ rest) = some r)
    (hplain : r.exact = false) (hlen : (utf8 r.path).length ≤ dir.length) :
    pick (rules.filter fun x => !x.exact) method dir = some r := by
  have hdecides := best_eq_some.mp hpick
  refine best_eq_some.mpr (hdecides.filter (by simp [hplain])
    (AuthRule.matchesRequest_dir hdir hplain hlen hdecides.applies) ?_)
  intro b _ hkeep happlies
  exact AuthRule.matchesRequest_of_dir rest hdir (by simpa using hkeep) happlies

/-- The public rule that would open a path has its like among the rules of the first
host, which matches as well. -/
theorem exists_known (hknown : PublicRulesKnown cur next) {n : AuthRule}
    (hn : pick next.options.authRules method p = some n) (hpublic : n.mode = "public") :
    ∃ c ∈ cur.options.authRules, c.matchesRequest method p = true ∧ c.rank = n.rank := by
  have hn := best_eq_some.mp hn
  obtain ⟨c, hc, hpath, hexact, hmethods⟩ := hknown n hn.mem hpublic
  refine ⟨c, hc, ?_, ?_⟩
  · simpa [AuthRule.matchesRequest, AuthRule.matchesPath, hpath, hexact, hmethods] using hn.applies
  · simp [AuthRule.rank, hpath, hexact]

theorem rank_le_of_known (hknown : PublicRulesKnown cur next) {n r : AuthRule}
    (hn : pick next.options.authRules method p = some n) (hpublic : n.mode = "public")
    (hr : pick cur.options.authRules method p = some r) : n.rank ≤ r.rank := by
  obtain ⟨c, hc, happlies, hrank⟩ := exists_known hknown hn hpublic
  rw [← hrank]
  exact (best_eq_some.mp hr).rank_le hc happlies

/-- Below a prefix rule of the first host that gates, and at no path it names. -/
theorem KeepsGates.ne_free_below (hkeeps : KeepsGates cur next) (hknown : PublicRulesKnown cur next)
    {r : AuthRule} {rest : Path} (hpath : hasAmbiguousSegment (utf8 r.path) = false)
    (hplain : r.exact = false) (hgate : r.mode ≠ "public")
    (hpick : pick cur.options.authRules method (slashed (utf8 r.path) ++ rest) = some r) :
    next.decision next.options.authRules method (slashed (utf8 r.path) ++ rest) ≠ .free := by
  intro hfree
  have hdir := getLast?_slashed (utf8 r.path)
  have hlen := length_le_slashed (utf8 r.path)
  have hr : r ∈ cur.options.authRules := (best_eq_some.mp hpick).mem
  have hcur : cur.decision cur.prefixRules method (slashed (utf8 r.path)) = .gated :=
    Host.decision_eq_gated.mpr (Or.inl ⟨r, pick_dir hdir hpick hplain hlen, hgate⟩)
  have hnext := hkeeps.below method r (List.mem_filter.mpr ⟨hr, by simp [hplain]⟩) hgate hpath hcur
  refine hnext (Host.decision_eq_free.mpr ?_)
  rcases Host.decision_eq_free.mp hfree with ⟨n, hn, hpublic⟩ | ⟨hnone, hhost⟩
  · -- the rule that opens the path stands no higher than `r`, so it is a prefix rule
    left
    have hrank := rank_le_of_known hknown hn hpublic hpick
    have hmatch := (AuthRule.matchesRequest_iff.mp (best_eq_some.mp hn).applies).2
    cases hexact : n.exact with
    | true =>
        simp only [AuthRule.matchesPath, hexact, if_true, beq_iff_eq] at hmatch
        simp only [AuthRule.rank, hexact, hplain, ← hmatch, List.length_append] at hrank
        simp at hrank
        omega
    | false =>
        have hshort : (utf8 n.path).length ≤ (slashed (utf8 r.path)).length := by
          simp only [AuthRule.rank, hexact, hplain] at hrank
          simp at hrank
          omega
        exact ⟨n, pick_dir hdir hn hexact hshort, hpublic⟩
  · right
    refine ⟨best_eq_none.mpr ?_, hhost⟩
    intro b hb
    obtain ⟨hb, hkeep⟩ := List.mem_filter.mp hb
    rw [Bool.eq_false_iff]
    intro happlies
    have hbelow := AuthRule.matchesRequest_of_dir rest hdir (by simpa using hkeep) happlies
    simp [best_eq_none.mp hnone b hb] at hbelow

/-- Nothing the rules or the host of the first gate is opened by the second. -/
theorem KeepsGates.neverOpens (hkeeps : KeepsGates cur next) (hknown : PublicRulesKnown cur next)
    (hhost : cur.hostGated = true → next.hostGated = true) : NeverOpens cur next := by
  intro method p hgated hfree
  rcases Host.decision_of_gated hgated with hres | hcur
  · exact hkeeps.login method p (by simpa using hres.2.2) hgated hfree
  · have hopen := Host.decision_of_free hfree
    rcases Host.decision_eq_gated.mp hcur with ⟨r, hpick, hgate⟩ | ⟨hnone, hown⟩
    · have hr := best_eq_some.mp hpick
      have hmatch := (AuthRule.matchesRequest_iff.mp hr.applies).2
      by_cases hpath : p = utf8 r.path
      · subst hpath
        exact hkeeps.named method r hr.mem hgate hgated hfree
      · cases hexact : r.exact with
        | true =>
            simp only [AuthRule.matchesPath, hexact, if_true, beq_iff_eq] at hmatch
            exact hpath hmatch
        | false =>
            simp only [AuthRule.matchesPath, hexact, if_false, Bool.false_eq_true] at hmatch
            obtain ⟨rest, rfl⟩ := (eq_or_slashed_of_pathWithin hmatch).resolve_left hpath
            have hplain : hasAmbiguousSegment (utf8 r.path) = false := by
              have hclear := Host.unambiguous_of_gated (List.ne_nil_of_mem hr.mem) hgated
              obtain ⟨tail, htail⟩ := prefix_slashed (utf8 r.path)
              rw [← htail, List.append_assoc] at hclear
              exact hasAmbiguousSegment_of_append hclear
            exact hkeeps.ne_free_below hknown hplain hexact hgate hpick hopen
    · rcases Host.decision_eq_free.mp hopen with ⟨n, hn, hpublic⟩ | ⟨-, hno⟩
      · obtain ⟨c, hc, happlies, -⟩ := exists_known hknown hn hpublic
        simp [best_eq_none.mp hnone c hc] at happlies
      · simp [hhost hown] at hno

/-! ### Paths that show a difference

For the other direction every place of `KeepsGates` needs a path at which the dispatch looks
at it: far below a directory only prefix rules match. -/

/-- At the path `*`, which no rule covers, the host's own gate decides. -/
theorem Host.dispatch_star {h : Host} (hrooted : h.Rooted) (method : String) :
    h.dispatch method [42] = h.ownGate := by
  have hres : ¬ h.reservesPath [42] := by
    rintro ⟨-, -, hpath | hpath⟩ <;> exact absurd hpath (by decide)
  rw [Host.dispatch_of_decides (by decide) hres, Host.decision]
  have hnone : pick h.options.authRules method [42] = none := by
    refine best_eq_none.mpr fun r hr => ?_
    rw [Bool.eq_false_iff]
    intro happlies
    have hhead := head?_utf8 (hrooted r hr)
    have hmatch := (AuthRule.matchesRequest_iff.mp happlies).2
    unfold AuthRule.matchesPath at hmatch
    split_ifs at hmatch with hexact
    · rw [← beq_iff_eq.mp hmatch] at hhead
      exact absurd hhead (by decide)
    · rcases eq_or_slashed_of_pathWithin hmatch with heq | ⟨rest, heq⟩
      · rw [← heq] at hhead
        exact absurd hhead (by decide)
      · obtain ⟨tail, htail⟩ := prefix_slashed (utf8 r.path)
        rw [← htail] at heq
        have hhead' := congrArg List.head? heq
        rw [List.append_assoc, List.head?_append, hhead] at hhead'
        simp [slash] at hhead'
  rw [hnone]

/-- Far below a directory only prefix rules match, and those the directory's. -/
theorem Host.dispatch_filler {h : Host} {dir : Path} {n : Nat} (hdir : dir.getLast? = some slash)
    (hpath : hasAmbiguousSegment dir = false) (hn : 0 < n)
    (hlong : ∀ r ∈ h.options.authRules, (utf8 r.path).length < n) (method : String) :
    h.dispatch method (dir ++ filler n) = h.decision h.prefixRules method dir := by
  have hlast : (dir ++ filler n).getLast? = some 120 := by
    obtain ⟨m, rfl⟩ : ∃ m, n = m + 1 := ⟨n - 1, by omega⟩
    simp [filler, List.replicate_succ']
  have hres : ¬ h.reservesPath (dir ++ filler n) := by
    rintro ⟨-, -, heq | heq⟩ <;> rw [heq] at hlast <;> exact absurd hlast (by decide)
  rw [Host.dispatch_of_decides (hasAmbiguousSegment_filler hpath n) hres]
  have hpick : pick h.options.authRules method (dir ++ filler n) = pick h.prefixRules method
    dir := by
    refine best_congr fun r hr => ?_
    have hshort := hlong r hr
    simp only [AuthRule.matchesRequest, AuthRule.matchesPath]
    cases hexact : r.exact with
    | true =>
        have hne : dir ++ filler n ≠ utf8 r.path := by
          intro heq
          have hlen := congrArg List.length heq
          simp [filler] at hlen
          omega
        simp [hne]
    | false => simp [pathWithin_filler hdir hshort]
  simp only [Host.decision, hpick]

theorem exists_longer (rules : List AuthRule) :
    ∃ n, 0 < n ∧ ∀ r ∈ rules, (utf8 r.path).length < n := by
  induction rules with
  | nil => exact ⟨1, Nat.one_pos, by simp⟩
  | cons a rest ih =>
      obtain ⟨n, hn, hrest⟩ := ih
      refine ⟨n + (utf8 a.path).length + 1, by omega, ?_⟩
      intro r hr
      rcases List.mem_cons.mp hr with rfl | hr
      · omega
      · have := hrest r hr
        omega

/-- Of two hosts whose own access list and forward authentication agree, the second
opens nothing that the first gates if and only if it does so at the places of
`KeepsGates`. -/
theorem neverOpens_iff_keepsGates (hcur : cur.Rooted) (hnext : next.Rooted)
    (hlist : cur.accessListID.isSome = true → next.accessListID.isSome = true)
    (hforward : cur.options.hasForwardAuth = true → next.options.hasForwardAuth = true)
    (hknown : PublicRulesKnown cur next) : NeverOpens cur next ↔ KeepsGates cur next := by
  constructor
  · intro hnever
    refine ⟨?_, ?_, ?_, ?_⟩
    · intro hsso
      have hstar := hnever "" [42]
      rw [Host.dispatch_star hcur, Host.dispatch_star hnext] at hstar
      have hgated : cur.ownGate = .gated := by simp [Host.ownGate, Host.hostGated, hsso]
      simpa [Host.ownGate] using hstar hgated
    · intro method p _
      exact hnever method p
    · intro method r _ _
      exact hnever method _
    · intro method r hr hgate hpath hgated
      obtain ⟨n, hn, hlong⟩ := exists_longer (cur.options.authRules ++ next.options.authRules)
      have hdir := getLast?_slashed (utf8 r.path)
      have hplain := hasAmbiguousSegment_slashed hpath
      have hfar := hnever method (slashed (utf8 r.path) ++ filler n)
      rw [Host.dispatch_filler hdir hplain hn (fun x hx => hlong x (by simp [hx])),
        Host.dispatch_filler hdir hplain hn (fun x hx => hlong x (by simp [hx]))] at hfar
      exact hfar hgated
  · intro hkeeps
    refine hkeeps.neverOpens hknown ?_
    intro hown
    simp only [Host.hostGated, Bool.or_eq_true] at hown
    rcases hown with (hsso | hfa) | hacl
    · exact hkeeps.host hsso
    · simp [Host.hostGated, hforward hfa]
    · simp [Host.hostGated, hlist hacl]

end Compared

end Quicgate.Store
