import Mathlib.Data.List.Basic
import Mathlib.Tactic.Basic

/-!
# Ordered rule lists with a first match

A rule answers a question with a verdict or with nothing.  A list of rules is
read in order, the first verdict counts, and a list without one refuses.  The
list's verdict is `(rules.findSome? answer).getD false`; this module compares
the verdicts of two such lists.

`Narrower d h` says that putting the answer `d` in the place of `h` can only
take access away: an opening answer stays one, and silence stands in for
silence or for an opening answer.  A refusing answer stands in for anything.
The order is kept by concatenation, so it lifts from single rules to lists whose
blocks have different lengths (`narrower_findSome?_flatten`).

The access lists of the engine are such lists: one rule of the configuration
compiles to a block of rules, and a failure of the resolver or of the GeoIP
database replaces blocks by narrower ones (`Quicgate.AccessVerdicts`).
-/

namespace Quicgate.FirstMatch

universe u v

variable {α : Type u} {β : Type v}

def firstMatch (answer : α → Option Bool) (rules : List α) : Bool :=
  (rules.findSome? answer).getD false

/-- Answering `d` where `h` would have been answered never opens anything. -/
def Narrower (d h : Option Bool) : Prop :=
  (d = some true → h = some true) ∧ (d = none → h ≠ some false)

@[refl] theorem Narrower.refl (d : Option Bool) : Narrower d d :=
  ⟨id, fun h => by simp [h]⟩

theorem Narrower.of_refusal (h : Option Bool) : Narrower (some false) h := by
  constructor <;> simp

theorem Narrower.none_of_ne_false {h : Option Bool} (hne : h ≠ some false) :
    Narrower none h :=
  ⟨by simp, fun _ => hne⟩

/-- Concatenated blocks compare when the blocks do. -/
theorem Narrower.or {d h d' h' : Option Bool} (hfirst : Narrower d h)
    (hrest : Narrower d' h') : Narrower (d.or d') (h.or h') := by
  rcases d with _ | d
  · -- the narrower block is silent, so the wider one is silent or opens
    rcases h with _ | h
    · simpa using hrest
    · cases h with
      | false => exact absurd rfl (hfirst.2 rfl)
      | true => exact ⟨fun _ => rfl, fun _ => by simp⟩
  · cases d with
    | false => exact Narrower.of_refusal _
    | true =>
        have hopen : h = some true := hfirst.1 rfl
        subst hopen
        exact Narrower.refl _

theorem Narrower.getD {d h : Option Bool} (hle : Narrower d h)
    (hopen : d.getD false = true) : h.getD false = true := by
  rcases d with _ | d
  · simp at hopen
  · obtain rfl : d = true := by simpa using hopen
    simp [hle.1 rfl]

/-- Two lists of blocks compare when their blocks do, whatever the lengths of
the blocks. -/
theorem narrower_findSome?_flatten {f : α → Option Bool} {g : β → Option Bool}
    {narrow : List (List α)} {wide : List (List β)}
    (hblocks : List.Forall₂
      (fun b b' => Narrower (b.findSome? f) (b'.findSome? g)) narrow wide) :
    Narrower (narrow.flatten.findSome? f) (wide.flatten.findSome? g) := by
  induction hblocks with
  | nil => exact Narrower.refl _
  | cons hhead _ ih =>
      rw [List.flatten_cons, List.flatten_cons, List.findSome?_append,
        List.findSome?_append]
      exact hhead.or ih

/-- One list read in two ways. -/
theorem narrower_findSome?_of_forall {f g : α → Option Bool} {rules : List α}
    (hrules : ∀ r ∈ rules, Narrower (f r) (g r)) :
    Narrower (rules.findSome? f) (rules.findSome? g) := by
  induction rules with
  | nil => exact Narrower.refl _
  | cons r rest ih =>
      rw [← List.singleton_append, List.findSome?_append, List.findSome?_append]
      refine Narrower.or ?_ (ih fun r' hr' => hrules r' (List.mem_cons_of_mem _ hr'))
      simpa using hrules r List.mem_cons_self

end Quicgate.FirstMatch
