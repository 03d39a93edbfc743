import Mathlib.Data.List.TakeWhile
import Mathlib.Tactic.Basic

/-!
# Readings of a URL path

What servers do to the bytes of a path before they look it up: repeated slashes are
merged, dot segments resolved (RFC 3986, section 5.2.4), backslashes read as slashes,
path parameters stripped and percent signs decoded once more.  Each reading has a
lemma that says which paths it leaves alone.

A proxy decides on the path it has and the upstream on the one it reads, so a path
that some reading changes may be decided on twice, and differently (`PathSafe`).
-/

namespace Quicgate.UrlPaths

abbrev Bytes := List UInt8

def slash : UInt8 := 47
def dot : UInt8 := 46
def backslash : UInt8 := 92
def semicolon : UInt8 := 59
def percent : UInt8 := 37

/-! ### The readings -/

def mergeSlashes : Bytes → Bytes
  | a :: b :: rest =>
      if a = slash ∧ b = slash then mergeSlashes (b :: rest) else a :: mergeSlashes (b :: rest)
  | p => p

def readBackslashes (p : Bytes) : Bytes := p.map fun b => if b = backslash then slash else b

/-- A semicolon takes the rest of its segment away. -/
def stripParameters (p : Bytes) : Bytes :=
  go false p
where
  go (skipping : Bool) : Bytes → Bytes
    | [] => []
    | b :: rest =>
        if b = slash then b :: go false rest
        else if skipping || b = semicolon then go true rest
        else b :: go false rest

def hexDigit (b : UInt8) : Option UInt8 :=
  if 48 ≤ b ∧ b ≤ 57 then some (b - 48)
  else if 65 ≤ b ∧ b ≤ 70 then some (b - 55)
  else if 97 ≤ b ∧ b ≤ 102 then some (b - 87)
  else none

/-- A percent sign without two hex digits stands for itself. -/
def percentDecode : Bytes → Bytes
  | a :: b :: c :: rest =>
      if a = percent then
        match hexDigit b, hexDigit c with
        | some high, some low => (16 * high + low) :: percentDecode rest
        | _, _ => a :: percentDecode (b :: c :: rest)
      else a :: percentDecode (b :: c :: rest)
  | p => p

def dropSegment (output : Bytes) : Bytes := (output.reverse.dropWhile (· ≠ slash)).tail.reverse

/-- The loop over the input and the output buffer. The rules are tried in the order of
the RFC, from 2A to 2E. -/
def removeDots (output : Bytes) : Bytes → Bytes
  | 46 :: 46 :: 47 :: rest => removeDots output rest
  | 46 :: 47 :: rest => removeDots output rest
  | 47 :: 46 :: 47 :: rest => removeDots output (47 :: rest)
  | [47, 46] => removeDots output [47]
  | 47 :: 46 :: 46 :: 47 :: rest => removeDots (dropSegment output) (47 :: rest)
  | [47, 46, 46] => removeDots (dropSegment output) [47]
  | [46] => output
  | [46, 46] => output
  | [] => output
  | b :: rest => removeDots (output ++ b :: rest.takeWhile (· ≠ slash)) (rest.dropWhile (· ≠ slash))
termination_by input => input.length
decreasing_by
  all_goals simp only [List.length_cons, List.length_nil]
  all_goals first
    | omega
    | exact Nat.lt_succ_of_le (List.dropWhile_sublist _).length_le

def removeDotSegments (p : Bytes) : Bytes := removeDots [] p

/-! ### What they leave alone -/

def hasDots (p : Bytes) : Bool := (p.splitOn slash).any fun seg => seg == [dot] || seg == [dot, dot]

theorem mergeSlashes_eq_self {p : Bytes} (h : ¬ [slash, slash] <:+: p) : mergeSlashes p = p := by
  fun_induction mergeSlashes p with
  | case1 a b rest hslashes ih =>
    refine absurd ⟨[], rest, ?_⟩ h
    rw [hslashes.1, hslashes.2]
    rfl
  | case2 a b rest _ ih => rw [ih fun hin => h (hin.trans (List.suffix_cons a _).isInfix)]
  | case3 p _ => rfl

theorem readBackslashes_eq_self {p : Bytes} (h : backslash ∉ p) : readBackslashes p = p := by
  have hsame : ∀ b ∈ p, (if b = backslash then slash else b) = id b := by
    intro b hb
    refine if_neg ?_
    rintro rfl
    exact h hb
  rw [readBackslashes, List.map_congr_left hsame, List.map_id]

theorem stripParameters_eq_self {p : Bytes} (h : semicolon ∉ p) : stripParameters p = p := by
  unfold stripParameters
  induction p with
  | nil => rfl
  | cons b rest ih =>
    obtain ⟨hne, hrest⟩ := List.ne_and_not_mem_of_not_mem_cons h
    unfold stripParameters.go
    split_ifs with hslash hskip
    · rw [ih hrest]
    · simp [Ne.symm hne] at hskip
    · rw [ih hrest]

theorem percentDecode_eq_self {p : Bytes} (h : percent ∉ p) : percentDecode p = p := by
  fun_induction percentDecode p with
  | case1 b c rest _ _ _ _ ih => simp at h
  | case2 b c rest _ ih => simp at h
  | case3 a b c rest hne ih => rw [ih (List.ne_and_not_mem_of_not_mem_cons h).2]
  | case4 p _ => rfl

theorem mem_of_mem_splitOn {p seg : Bytes} {b : UInt8} (hseg : seg ∈ p.splitOn slash)
    (hb : b ∈ seg) : b ∈ p := by
  induction p generalizing seg with
  | nil => simp_all
  | cons a p ih =>
    rw [List.splitOn_cons_eq_if_modifyHead] at hseg
    split at hseg
    · rcases List.mem_cons.mp hseg with rfl | hseg
      · cases hb
      · exact List.mem_cons_of_mem a (ih hseg hb)
    · -- the byte belongs to the first segment
      cases hsplit : p.splitOn slash with
      | nil => exact absurd hsplit (List.splitOn_ne_nil slash p)
      | cons first segs =>
        rw [hsplit, List.modifyHead_cons] at hseg
        rw [hsplit] at ih
        rcases List.mem_cons.mp hseg with rfl | hseg
        · rcases List.mem_cons.mp hb with rfl | hb
          · exact List.mem_cons_self
          · exact List.mem_cons_of_mem a (ih List.mem_cons_self hb)
        · exact List.mem_cons_of_mem a (ih (List.mem_cons_of_mem first hseg) hb)

theorem hasDots_cons_slash (rest : Bytes) : hasDots (slash :: rest) = hasDots rest := by
  simp [hasDots, List.splitOn_cons_eq_if_modifyHead]

/-- What is left of a path behind a segment is empty or begins with a slash. -/
theorem nil_or_head?_dropWhile (rest : Bytes) :
    rest.dropWhile (· ≠ slash) = [] ∨ (rest.dropWhile (· ≠ slash)).head? = some slash := by
  cases htail : rest.dropWhile (· ≠ slash) with
  | nil => exact Or.inl rfl
  | cons b tail =>
    right
    have hstop := List.head?_dropWhile_not (fun b : UInt8 => decide (b ≠ slash)) rest
    rw [htail] at hstop
    simpa using hstop

theorem hasDots_dropWhile {rest : Bytes} (h : hasDots rest = false) :
    hasDots (rest.dropWhile (· ≠ slash)) = false := by
  cases htail : rest.dropWhile (· ≠ slash) with
  | nil => decide
  | cons b tail =>
    have hb : b = slash := by
      have hroot := nil_or_head?_dropWhile rest
      rw [htail] at hroot
      simpa using hroot
    have hsplit : rest = rest.takeWhile (· ≠ slash) ++ slash :: tail := by
      rw [← hb, ← htail, hb, List.takeWhile_append_dropWhile]
    have hseg : slash ∉ rest.takeWhile (· ≠ slash) := by
      intro hin
      simpa using List.mem_takeWhile_imp hin
    rw [hsplit, hasDots, List.splitOn_append_cons_self_of_not_mem hseg, List.any_cons,
      Bool.or_eq_false_iff] at h
    rw [hb, hasDots_cons_slash]
    exact h.2

/-- Below the root and without dot segments every step moves one segment to the
output. -/
theorem removeDots_eq_append {output p : Bytes} (hroot : p = [] ∨ p.head? = some slash)
    (hdots : hasDots p = false) : removeDots output p = output ++ p := by
  fun_induction removeDots output p with
  | case1 => simp [slash] at hroot
  | case2 => simp [slash] at hroot
  | case3 => simp [hasDots, List.splitOn_cons_eq_if_modifyHead, slash, dot] at hdots
  | case4 => exact absurd hdots (by decide)
  | case5 => simp [hasDots, List.splitOn_cons_eq_if_modifyHead, slash, dot] at hdots
  | case6 => exact absurd hdots (by decide)
  | case7 => simp [slash] at hroot
  | case8 => simp [slash] at hroot
  | case9 => simp
  | case10 output b rest _ _ _ _ _ _ _ _ ih =>
    have hb : b = slash := by simpa using hroot
    rw [hb, hasDots_cons_slash] at hdots
    rw [ih (nil_or_head?_dropWhile rest) (hasDots_dropWhile hdots), List.append_assoc,
      List.cons_append, List.takeWhile_append_dropWhile]

theorem removeDotSegments_eq_self {p : Bytes} (hroot : p.head? = some slash)
    (hdots : hasDots p = false) : removeDotSegments p = p := by
  unfold removeDotSegments
  rw [removeDots_eq_append (Or.inr hroot) hdots, List.nil_append]

end Quicgate.UrlPaths
