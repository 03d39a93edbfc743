import Mathlib.Data.List.Infix
import Quicgate.UrlPaths

/-!
# Clean file paths

`path/filepath` on a Unix system: a path is cleaned by resolving its segments on a stack.
Segments that do not climb only push, so what a name adds to a directory is the list of
its own segments, less the empty ones and the dots.

`join_eq` says what `filepath.Join` makes of a directory and a name that nowhere climbs, and
`inside_join` that such a path stays inside; `RestoreArchive` writes files under such names.
-/

namespace Quicgate.CleanPaths

open Quicgate.UrlPaths

def dotdot : Bytes := [dot, dot]

def visit (rooted : Bool) (stack : List Bytes) (seg : Bytes) : List Bytes :=
  if seg = [] ∨ seg = [dot] then stack
  else if seg = dotdot then
    match stack with
    | [] => if rooted then [] else [dotdot]
    | top :: below => if top = dotdot then dotdot :: stack else below
  else seg :: stack

def isRooted (p : Bytes) : Bool := p.head? == some slash

def parts (rooted : Bool) (p : Bytes) : List Bytes :=
  ((p.splitOn slash).foldl (visit rooted) []).reverse

def render (rooted : Bool) (segs : List Bytes) : Bytes :=
  if rooted then slash :: [slash].intercalate segs
  else if segs = [] then [dot] else [slash].intercalate segs

def clean (p : Bytes) : Bytes :=
  if p = [] then [dot] else render (isRooted p) (parts (isRooted p) p)

/-- `filepath.Join` of two elements. -/
def join (dir name : Bytes) : Bytes :=
  if dir ≠ [] then clean (dir ++ slash :: name) else if name ≠ [] then clean name else []

/-- What a name without `..` adds to a directory. -/
def kept (name : Bytes) : List Bytes :=
  (name.splitOn slash).filter fun seg => seg ≠ [] ∧ seg ≠ [dot]

/-- The path lies beneath the directory, and is not the directory. -/
def Inside (dir p : Bytes) : Prop :=
  ∃ rest, rest ≠ [] ∧ p = dir ++ slash :: rest ∧ dotdot ∉ rest.splitOn slash

example : clean [47, 97, 47, 47, 98, 47, 46, 46, 47, 46, 47, 99, 47] = [47, 97, 47, 99] := by decide

/-! ### Names that do not climb

Without `..` among its segments a name only pushes, so the directory's own segments stay at
the bottom of the stack. -/

/-- Segments that do not climb are pushed. -/
theorem foldl_visit {rooted : Bool} {segs : List Bytes} (h : dotdot ∉ segs) (stack : List Bytes) :
    segs.foldl (visit rooted) stack =
      (segs.filter fun seg => seg ≠ [] ∧ seg ≠ [dot]).reverse ++ stack := by
  induction segs generalizing stack with
  | nil => rfl
  | cons seg segs ih =>
      obtain ⟨hseg, hsegs⟩ := List.ne_and_not_mem_of_not_mem_cons h
      rw [List.foldl_cons, ih hsegs]
      by_cases hskip : seg = [] ∨ seg = [dot]
      · have hstay : visit rooted stack seg = stack := by
          unfold visit
          rw [if_pos hskip]
        rw [hstay, List.filter_cons_of_neg (by simp only [decide_eq_true_eq]; tauto)]
      · have hpush : visit rooted stack seg = seg :: stack := by
          unfold visit
          rw [if_neg hskip, if_neg (Ne.symm hseg)]
        rw [hpush, List.filter_cons_of_pos (by simp only [decide_eq_true_eq]; tauto),
          List.reverse_cons, List.append_assoc, List.singleton_append]

/-- The directory part of a joined path. -/
def base (dir : Bytes) : List Bytes := if dir = [] then [] else parts (isRooted dir) dir

theorem parts_of_not_mem {rooted : Bool} {name : Bytes} (h : dotdot ∉ name.splitOn slash) :
    parts rooted name = kept name := by
  rw [parts, foldl_visit h, List.append_nil, List.reverse_reverse, kept]

/-- A name that does not climb is put behind the directory. -/
theorem join_eq {dir name : Bytes} (hdots : dotdot ∉ name.splitOn slash) (hname : name ≠ [])
    (hroot : isRooted name = false) :
    join dir name = render (isRooted dir) (base dir ++ kept name) := by
  by_cases hdir : dir = []
  · subst hdir
    have hclean : clean name = render false (kept name) := by
      rw [clean, if_neg hname, hroot, parts_of_not_mem hdots]
    simpa [join, hname, base, isRooted] using hclean
  · have hrooted : isRooted (dir ++ slash :: name) = isRooted dir := by
      rw [isRooted, List.head?_append_of_ne_nil _ hdir, isRooted]
    rw [join, if_pos hdir, clean, if_neg (by simp), hrooted, base, if_neg hdir, parts,
      List.splitOn_append_cons_self, List.foldl_append, foldl_visit hdots, List.reverse_append,
      List.reverse_reverse, kept, parts]

theorem clean_eq {name : Bytes} (hdots : dotdot ∉ name.splitOn slash) (hname : name ≠ [])
    (hroot : isRooted name = false) : clean name = render false (kept name) := by
  rw [clean, if_neg hname, hroot, parts_of_not_mem hdots]

theorem slash_not_mem_splitOn {p seg : Bytes} (h : seg ∈ p.splitOn slash) : slash ∉ seg := by
  induction p generalizing seg with
  | nil =>
      rw [List.splitOn_nil, List.mem_singleton] at h
      rw [h]
      exact List.not_mem_nil
  | cons b p ih =>
      rw [List.splitOn_cons_eq_if_modifyHead] at h
      split_ifs at h with hb
      · rcases List.mem_cons.mp h with rfl | h
        · exact List.not_mem_nil
        · exact ih h
      · cases hsplit : p.splitOn slash with
        | nil => exact absurd hsplit (List.splitOn_ne_nil slash p)
        | cons first segs =>
            rw [hsplit, List.modifyHead_cons] at h
            rw [hsplit] at ih
            rcases List.mem_cons.mp h with rfl | h
            · intro hmem
              rcases List.mem_cons.mp hmem with heq | hmem
              · exact hb (by simp [heq])
              · exact ih List.mem_cons_self hmem
            · exact ih (List.mem_cons_of_mem first h)

/-- A segment is a part of the path. -/
theorem infix_of_mem_splitOn {p seg : Bytes} (h : seg ∈ p.splitOn slash) : seg <:+: p := by
  have hjoin : ∀ segs : List Bytes, seg ∈ segs → seg <:+: [slash].intercalate segs := by
    intro segs
    induction segs with
    | nil => exact fun hmem => absurd hmem List.not_mem_nil
    | cons first rest ih =>
        intro hmem
        cases rest with
        | nil =>
            rw [List.mem_singleton.mp hmem, List.intercalate_singleton]
        | cons next rest =>
            rw [List.intercalate_cons_cons]
            rcases List.mem_cons.mp hmem with rfl | hmem
            · exact ⟨[], [slash] ++ [slash].intercalate (next :: rest), by simp⟩
            · exact (ih hmem).trans (List.suffix_append _ _).isInfix
  have hp := hjoin (p.splitOn slash) h
  rwa [List.intercalate_splitOn] at hp

theorem mem_kept {name seg : Bytes} (h : seg ∈ kept name) :
    seg ∈ name.splitOn slash ∧ slash ∉ seg ∧ seg ≠ [] := by
  have hmem := List.mem_filter.mp h
  exact ⟨hmem.1, slash_not_mem_splitOn hmem.1, (of_decide_eq_true hmem.2).1⟩

theorem intercalate_append {xs ys : List Bytes} (hxs : xs ≠ []) (hys : ys ≠ []) :
    [slash].intercalate (xs ++ ys) = [slash].intercalate xs ++ slash :: [slash].intercalate ys := by
  induction xs with
  | nil => exact absurd rfl hxs
  | cons x xs ih =>
      cases xs with
      | nil =>
          obtain ⟨y, ys, rfl⟩ := List.exists_cons_of_ne_nil hys
          simp [List.intercalate_cons_cons]
      | cons x' xs =>
          rw [List.cons_append, List.cons_append, List.intercalate_cons_cons, ← List.cons_append,
            ih (List.cons_ne_nil _ _), List.intercalate_cons_cons]
          simp

theorem render_append {rooted : Bool} {xs ys : List Bytes} (hxs : xs ≠ []) (hys : ys ≠ []) :
    render rooted (xs ++ ys) = render rooted xs ++ slash :: [slash].intercalate ys := by
  unfold render
  rw [intercalate_append hxs hys]
  cases rooted with
  | true => simp
  | false => simp [hxs]

/-! ### Paths are told apart

Two files are one exactly if their segments are the same, which the names themselves show. -/

/-- Paths are written in one way. -/
theorem render_injective {rooted : Bool} {xs ys : List Bytes} (hxs : ∀ x ∈ xs, slash ∉ x)
    (hys : ∀ y ∈ ys, slash ∉ y) (hne : xs ≠ []) (hne' : ys ≠ [])
    (h : render rooted xs = render rooted ys) : xs = ys := by
  have hjoin : [slash].intercalate xs = [slash].intercalate ys := by
    cases rooted with
    | true => simpa [render] using h
    | false => simpa [render, hne, hne'] using h
  rw [← List.splitOn_intercalate slash hxs hne, hjoin, List.splitOn_intercalate slash hys hne']

/-- A name of a relative path that nowhere climbs. -/
structure Plain (name : Bytes) : Prop where
  dots : dotdot ∉ name.splitOn slash
  ne_nil : name ≠ []
  relative : isRooted name = false

theorem slash_not_mem_visit {rooted : Bool} {stack : List Bytes} {seg : Bytes} (hseg : slash ∉ seg)
    (hstack : ∀ s ∈ stack, slash ∉ s) : ∀ s ∈ visit rooted stack seg, slash ∉ s := by
  unfold visit
  by_cases hskip : seg = [] ∨ seg = [dot]
  · rw [if_pos hskip]
    exact hstack
  rw [if_neg hskip]
  by_cases hdots : seg = dotdot
  · rw [if_pos hdots]
    cases stack with
    | nil =>
        cases rooted with
        | true => simp
        | false => simp [dotdot, dot, slash]
    | cons top below =>
        by_cases htop : top = dotdot
        · simp only [htop, if_true]
          intro s hs
          rcases List.mem_cons.mp hs with rfl | hs
          · decide
          · exact hstack s (htop ▸ hs)
        · simp only [htop, if_false]
          exact fun s hs => hstack s (List.mem_cons_of_mem top hs)
  · rw [if_neg hdots]
    intro s hs
    rcases List.mem_cons.mp hs with rfl | hs
    · exact hseg
    · exact hstack s hs

theorem slash_not_mem_parts {rooted : Bool} {p : Bytes} : ∀ seg ∈ parts rooted p, slash ∉ seg := by
  have hfold : ∀ seg ∈ (p.splitOn slash).foldl (visit rooted) [], slash ∉ seg := by
    refine List.foldlRecOn (p.splitOn slash) (visit rooted)
      (motive := fun stack => ∀ seg ∈ stack, slash ∉ seg) ?_ ?_
    · simp
    · exact fun stack hstack seg hseg => slash_not_mem_visit (slash_not_mem_splitOn hseg) hstack
  exact fun seg hseg => hfold seg (List.mem_reverse.mp hseg)

theorem slash_not_mem_base {dir : Bytes} : ∀ seg ∈ base dir, slash ∉ seg := by
  unfold base
  split_ifs
  · simp
  · exact slash_not_mem_parts

/-- Names of different segments are joined to different paths. -/
theorem kept_eq_of_join {dir name name' : Bytes} (h : Plain name) (h' : Plain name')
    (hne : kept name ≠ []) (hne' : kept name' ≠ []) (heq : join dir name = join dir name') :
    kept name = kept name' := by
  rw [join_eq h.dots h.ne_nil h.relative, join_eq h'.dots h'.ne_nil h'.relative] at heq
  have hslash : ∀ {n : Bytes}, ∀ seg ∈ base dir ++ kept n, slash ∉ seg := by
    intro n seg hseg
    rcases List.mem_append.mp hseg with hseg | hseg
    · exact slash_not_mem_base seg hseg
    · exact (mem_kept hseg).2.1
  exact List.append_cancel_left
    (render_injective hslash hslash (by simp [hne]) (by simp [hne']) heq)

theorem join_eq_of_kept {dir name name' : Bytes} (h : Plain name) (h' : Plain name')
    (heq : kept name = kept name') : join dir name = join dir name' := by
  rw [join_eq h.dots h.ne_nil h.relative, join_eq h'.dots h'.ne_nil h'.relative, heq]

theorem clean_eq_iff {name name' : Bytes} (h : Plain name) (h' : Plain name')
    (hne : kept name ≠ []) (hne' : kept name' ≠ []) :
    clean name = clean name' ↔ kept name = kept name' := by
  rw [clean_eq h.dots h.ne_nil h.relative, clean_eq h'.dots h'.ne_nil h'.relative]
  constructor
  · exact render_injective (fun seg hseg => (mem_kept hseg).2.1)
      (fun seg hseg => (mem_kept hseg).2.1) hne hne'
  · exact congrArg _

/-- A name with more segments than a directory's lies inside it. -/
theorem inside_join {dir d name : Bytes} {more : List Bytes} (hd : Plain d) (hname : Plain name)
    (hne : kept d ≠ []) (hmore : more ≠ []) (hkept : kept name = kept d ++ more) :
    Inside (join dir d) (join dir name) := by
  have hmem : ∀ seg ∈ more, seg ∈ name.splitOn slash ∧ slash ∉ seg ∧ seg ≠ [] := by
    intro seg hseg
    apply mem_kept
    rw [hkept]
    exact List.mem_append_right _ hseg
  refine ⟨[slash].intercalate more, ?_, ?_, ?_⟩
  · obtain ⟨seg, more, rfl⟩ := List.exists_cons_of_ne_nil hmore
    have hseg := (hmem seg List.mem_cons_self).2.2
    cases more with
    | nil => simpa using hseg
    | cons next more => simp [List.intercalate_cons_cons, hseg]
  · rw [join_eq hd.dots hd.ne_nil hd.relative, join_eq hname.dots hname.ne_nil hname.relative,
      hkept, ← List.append_assoc, render_append (by simp [hne]) hmore]
  · rw [List.splitOn_intercalate slash (fun seg hseg => (hmem seg hseg).2.1) hmore]
    exact fun hdots => hname.dots (hmem dotdot hdots).1

theorem not_inside_self (dir : Bytes) : ¬ Inside dir dir := by
  rintro ⟨rest, -, hdir, -⟩
  have hlen := congrArg List.length hdir
  simp at hlen

end Quicgate.CleanPaths
