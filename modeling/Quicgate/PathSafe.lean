import Quicgate.PathAuth
import Quicgate.UrlPaths

/-!
# Paths that mean the same everywhere

The two filters in front of a host's path-keyed decisions (`internal/engine/pathsafe.go`), and
the custom locations (`locationDispatcher`).  A path that passes both filters is the path an
upstream resolves, whatever it reads into it (`resolved_path_decides_alike`), so the rule that
guards the path and the location that serves it are those of the path the upstream sees.
-/

namespace Quicgate.Store

open Quicgate.GoNet Quicgate.UrlPaths

/-! ### The filters and the locations

`rejectTraversal` and `rejectAmbiguousPaths` answer a bad request or hand on; of the locations the
longest prefix of the path serves it.  A `Reading` is what an upstream may do to a path. -/

def hasDotSegment (p : Path) : Bool :=
  if p.contains dot then (p.splitOn slash).any fun seg => seg == [dot] || seg == [dot, dot]
  else false

/-- `rejectTraversal`, with `none` for the answer to a bad request. -/
def rejectTraversal {α : Type} (next : Path → Option α) (p : Path) : Option α :=
  if hasDotSegment p then none else next p

def rejectAmbiguousPaths {α : Type} (next : Path → Option α) (p : Path) : Option α :=
  if hasAmbiguousSegment p then none else next p

def better (p : Path) (best : Option Location) (l : Location) : Option Location :=
  if pathWithin p (utf8 l.path) &&
      best.all (fun b => decide ((utf8 b.path).length < (utf8 l.path).length)) then some l
  else best

/-- The loop of `locationDispatcher` over the locations, `none` where the host's own
handler serves the request. -/
def locationDispatcher (locations : List Location) (p : Path) : Option Location :=
  locations.foldl (better p) none

inductive Reading where
  | mergeSlashes
  | removeDotSegments
  | readBackslashes
  | stripParameters
  | percentDecode
deriving DecidableEq, Repr

def Reading.apply : Reading → Path → Path
  | .mergeSlashes => UrlPaths.mergeSlashes
  | .removeDotSegments => UrlPaths.removeDotSegments
  | .readBackslashes => UrlPaths.readBackslashes
  | .stripParameters => UrlPaths.stripParameters
  | .percentDecode => UrlPaths.percentDecode

/-- An upstream applies its readings one after the other. -/
def resolve (readings : List Reading) (p : Path) : Path :=
  readings.foldl (fun p reading => reading.apply p) p

/-! ### The filters

A path that passes has none of the texts that a reading would change. -/

theorem hasDots_eq_hasDotSegment (p : Path) : hasDots p = hasDotSegment p := by
  unfold hasDotSegment
  split_ifs with hdot
  · rfl
  · -- no byte of the path is a dot, and none of a segment
    rw [hasDots, List.any_eq_false]
    intro seg hseg hbad
    have hmem : dot ∈ seg := by
      simp only [Bool.or_eq_true, beq_iff_eq] at hbad
      rcases hbad with rfl | rfl
      · exact List.mem_cons_self
      · exact List.mem_cons_self
    exact hdot (List.contains_iff_mem.mpr (mem_of_mem_splitOn hseg hmem))

theorem not_infix_of_doubleSlash {p : Path} (h : doubleSlash p = false) :
    ¬ [UrlPaths.slash, UrlPaths.slash] <:+: p := by
  rintro ⟨before, after, rfl⟩
  induction before with
  | nil => simp [doubleSlash, slash, UrlPaths.slash] at h
  | cons b before ih =>
    refine ih ?_
    cases before with
    | nil =>
      simp only [List.cons_append, List.nil_append, doubleSlash, Bool.or_eq_false_iff] at h ⊢
      exact h.2
    | cons c before =>
      simp only [List.cons_append, doubleSlash, Bool.or_eq_false_iff] at h ⊢
      exact h.2

/-- Both filters let the path through. -/
structure Passes (p : Path) : Prop where
  dots : hasDotSegment p = false
  plain : hasAmbiguousSegment p = false

theorem passes_of_served {p q : Path} (h : rejectTraversal (rejectAmbiguousPaths some) p = some q) :
    Passes p := by
  unfold rejectTraversal rejectAmbiguousPaths at h
  split_ifs at h with hdots hplain
  exact ⟨by simpa using hdots, by simpa using hplain⟩

theorem Passes.not_mem {p : Path} (h : Passes p) {b : UInt8} (hb : b ∈ [92, 59, 37]) : b ∉ p := by
  have hplain := h.plain
  rw [hasAmbiguousSegment, Bool.or_eq_false_iff, List.any_eq_false] at hplain
  intro hin
  exact hplain.2 b hin (decide_eq_true hb)

/-- No reading changes a path that passes. -/
theorem Passes.apply_eq {p : Path} (h : Passes p) (hroot : p.head? = some slash)
    (reading : Reading) : reading.apply p = p := by
  have hplain := h.plain
  rw [hasAmbiguousSegment, Bool.or_eq_false_iff] at hplain
  cases reading with
  | mergeSlashes => exact mergeSlashes_eq_self (not_infix_of_doubleSlash hplain.1)
  | removeDotSegments =>
    exact removeDotSegments_eq_self hroot (by rw [hasDots_eq_hasDotSegment]; exact h.dots)
  | readBackslashes => exact readBackslashes_eq_self (h.not_mem (by decide))
  | stripParameters => exact stripParameters_eq_self (h.not_mem (by decide))
  | percentDecode => exact percentDecode_eq_self (h.not_mem (by decide))

theorem Passes.resolve_eq {p : Path} (h : Passes p) (hroot : p.head? = some slash)
    (readings : List Reading) : resolve readings p = p := by
  induction readings with
  | nil => rfl
  | cons reading readings ih =>
    rw [resolve, List.foldl_cons, h.apply_eq hroot reading]
    exact ih

/-! ### The location

The loop keeps a longest prefix of those looked at. -/

def Longest (seen : List Location) (p : Path) : Option Location → Prop
  | none => ∀ l ∈ seen, pathWithin p (utf8 l.path) = false
  | some b => b ∈ seen ∧ pathWithin p (utf8 b.path) = true ∧
      ∀ l ∈ seen, pathWithin p (utf8 l.path) = true → (utf8 l.path).length ≤ (utf8 b.path).length

theorem Longest.better {seen : List Location} {p : Path} {best : Option Location}
    (h : Longest seen p best) (l : Location) : Longest (seen ++ [l]) p (better p best l) := by
  unfold Store.better
  cases hwithin : pathWithin p (utf8 l.path) with
  | false =>
    cases best with
    | none =>
      intro l' hl'
      rcases List.mem_append.mp hl' with hl' | hl'
      · exact h l' hl'
      · rw [List.mem_singleton.mp hl']
        exact hwithin
    | some b =>
      refine ⟨List.mem_append_left _ h.1, h.2.1, ?_⟩
      intro l' hl' hwithin'
      rcases List.mem_append.mp hl' with hl' | hl'
      · exact h.2.2 l' hl' hwithin'
      · rw [List.mem_singleton.mp hl', hwithin] at hwithin'
        cases hwithin'
  | true =>
    cases best with
    | none =>
      refine ⟨List.mem_append_right _ (List.mem_singleton_self l), hwithin, ?_⟩
      intro l' hl' hwithin'
      rcases List.mem_append.mp hl' with hl' | hl'
      · rw [h l' hl'] at hwithin'
        cases hwithin'
      · rw [List.mem_singleton.mp hl']
    | some b =>
      by_cases hlen : (utf8 b.path).length < (utf8 l.path).length
      · simp only [Option.all_some, hlen, decide_true, Bool.and_self, if_true]
        refine ⟨List.mem_append_right _ (List.mem_singleton_self l), hwithin, ?_⟩
        intro l' hl' hwithin'
        rcases List.mem_append.mp hl' with hl' | hl'
        · have := h.2.2 l' hl' hwithin'
          omega
        · rw [List.mem_singleton.mp hl']
      · simp only [Option.all_some, hlen, decide_false, Bool.and_false]
        refine ⟨List.mem_append_left _ h.1, h.2.1, ?_⟩
        intro l' hl' hwithin'
        rcases List.mem_append.mp hl' with hl' | hl'
        · exact h.2.2 l' hl' hwithin'
        · rw [List.mem_singleton.mp hl']
          omega

/-- The location of a request is a longest prefix of its path. -/
theorem longest_locationDispatcher (locations : List Location) (p : Path) :
    Longest locations p (locationDispatcher locations p) := by
  have hrun : ∀ (rest seen : List Location) (best : Option Location), Longest seen p best →
      Longest (seen ++ rest) p (rest.foldl (better p) best) := by
    intro rest
    induction rest with
    | nil =>
      intro seen best h
      rw [List.append_nil]
      exact h
    | cons l rest ih =>
      intro seen best h
      rw [List.foldl_cons, List.append_cons]
      exact ih _ _ (h.better l)
  exact hrun locations [] none nofun

/-- **A path that passes both filters is the path the upstream resolves**, whatever it
reads into it and in which order, and so are the rule and the location that the path
is given. -/
theorem resolved_path_decides_alike {p : Path} (hroot : p.head? = some slash)
    (hserved : rejectTraversal (rejectAmbiguousPaths some) p = some p) (readings : List Reading) :
    resolve readings p = p ∧
      (∀ (rules : List AuthRule) (method : String),
        (sortGates rules).find? (AuthRule.matchesRequest method (resolve readings p)) =
          (sortGates rules).find? (AuthRule.matchesRequest method p)) ∧
      ∀ locations, locationDispatcher locations (resolve readings p) =
          locationDispatcher locations p ∧
        Longest locations (resolve readings p) (locationDispatcher locations p) := by
  have hfixed := (passes_of_served hserved).resolve_eq hroot readings
  refine ⟨hfixed, ?_, ?_⟩
  · intro rules method
    rw [hfixed]
  · intro locations
    rw [hfixed]
    exact ⟨rfl, longest_locationDispatcher locations p⟩

theorem resolved_path_decides_alike_archive :
    resolve [.stripParameters, .percentDecode, .removeDotSegments, .mergeSlashes]
      (utf8 "/.well-known/v1.tar.gz") = utf8 "/.well-known/v1.tar.gz" :=
  (resolved_path_decides_alike (by decide) (by decide)
    [.stripParameters, .percentDecode, .removeDotSegments, .mergeSlashes]).1

end Quicgate.Store
