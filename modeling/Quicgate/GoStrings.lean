import Mathlib.Algebra.Group.Nat.Defs
import Mathlib.Data.List.Basic
import Mathlib.Data.List.DropRight
import Mathlib.Tactic.Basic

/-!
# Text as Go has it

The parts of `strings`, `strconv` and `unicode` that the modelled
code calls, under their own names: `isSpace`, `trimSpace`, `cut`, `fields`,
`toUpper` and `toLower`, `parseUint` and `itoa`.  A text is read as its list of
characters.  The separators and digits concerned are ASCII, so reading characters
instead of UTF-8 bytes makes no difference.

What case mapping does outside ASCII is a parameter, the `CaseTable`; the
development asks nothing of it but what each theorem says.

The second half has what the modules above rest on: a text is told apart at its
first or last separator (`eq_of_first`, `eq_of_last`), a printed number is read
back, and trimming and splitting undo what printing and joining did.
-/

namespace Quicgate.GoStrings

def isSpace (c : Char) : Bool :=
  c ∈ ['\t', '\n', '\x0b', '\x0c', '\r', ' ', '\u0085', '\u00a0', '\u1680',
    '\u2028', '\u2029', '\u202f', '\u205f', '\u3000'] ||
  (0x2000 ≤ c.toNat && c.toNat ≤ 0x200a)

def trimSpace (s : List Char) : List Char :=
  ((s.dropWhile isSpace).reverse.dropWhile isSpace).reverse

/-- `strings.Cut` at one character: what stands before its first occurrence,
what stands after it, and whether it occurs at all. -/
def cut (sep : Char) : List Char → List Char × List Char × Bool
  | [] => ([], [], false)
  | c :: rest =>
      if c = sep then ([], rest, true)
      else (c :: (cut sep rest).1, (cut sep rest).2)

/-- The text cut at the last occurrence of a character
(`strings.LastIndexByte`). -/
def cutLast (sep : Char) (s : List Char) : List Char × List Char × Bool :=
  match cut sep s.reverse with
  | (after, before, found) => (before.reverse, after.reverse, found)

/-- `strconv.ParseUint(s, 10, width)`: one or more decimal digits, no sign and
no underscore, within range. -/
def parseUint (width : Nat) (s : List Char) : Option Nat :=
  if s ≠ [] ∧ s.all Char.isDigit ∧ Nat.ofDigitChars 10 s 0 < 2 ^ width then
    some (Nat.ofDigitChars 10 s 0)
  else none

/-- `strconv.Itoa` of a number that is not negative. -/
def itoa (n : Nat) : List Char := Nat.toDigits 10 n

/-- A decimal number without sign or superfluous zeros, the only spelling that
`net/netip` takes in an address or after a slash. -/
def plainNumber (s : List Char) : Option Nat :=
  if s ≠ [] ∧ s.all Char.isDigit ∧ (1 < s.length → s.head? ≠ some '0') then
    some (Nat.ofDigitChars 10 s 0)
  else none

/-- `strings.Fields`: the maximal runs without white space. -/
def fields (s : List Char) : List (List Char) :=
  (s.splitOnP isSpace).filter (· ≠ [])

def joinSpace (parts : List (List Char)) : List Char := List.intercalate [' '] parts

/-- The part of `unicode.ToUpper` and `unicode.ToLower` outside ASCII. -/
structure CaseTable where
  upper : Char → Char
  lower : Char → Char

def toUpper (table : CaseTable) (s : String) : String :=
  String.ofList (s.toList.map fun c => if c.toNat < 128 then c.toUpper else table.upper c)

def toLower (table : CaseTable) (s : String) : String :=
  String.ofList (s.toList.map fun c => if c.toNat < 128 then c.toLower else table.lower c)

theorem parseUint_lt {width : Nat} {s : List Char} {n : Nat}
    (h : parseUint width s = some n) : n < 2 ^ width := by
  unfold parseUint at h
  split at h
  · rename_i hs
    obtain rfl : Nat.ofDigitChars 10 s 0 = n := by simpa using h
    exact hs.2.2
  · simp at h

theorem cut_append_cons {sep : Char} {before : List Char} (h : sep ∉ before)
    (after : List Char) : cut sep (before ++ sep :: after) = (before, after, true) := by
  induction before with
  | nil => simp [cut]
  | cons c rest ih =>
      have hc : c ≠ sep := fun heq => h (heq ▸ List.mem_cons_self)
      have hrest : sep ∉ rest := fun hmem => h (List.mem_cons_of_mem _ hmem)
      simp [cut, hc, ih hrest]

theorem cut_of_not_mem {sep : Char} {s : List Char} (h : sep ∉ s) : cut sep s = (s, [], false) := by
  induction s with
  | nil => rfl
  | cons c rest ih =>
      have hc : c ≠ sep := fun heq => h (heq ▸ List.mem_cons_self)
      have hrest : sep ∉ rest := fun hmem => h (List.mem_cons_of_mem _ hmem)
      simp [cut, hc, ih hrest]

theorem cutLast_append_cons {sep : Char} {after : List Char} (h : sep ∉ after)
    (before : List Char) :
    cutLast sep (before ++ sep :: after) = (before, after, true) := by
  have hrev : sep ∉ after.reverse := by simpa using h
  have hcut := cut_append_cons hrev before.reverse
  have htext : (before ++ sep :: after).reverse = after.reverse ++ sep :: before.reverse := by
    simp
  simp [cutLast, htext, hcut]

/-- A text is told apart at the first separator. -/
theorem eq_of_first {sep : Char} {a a' b b' : List Char} (ha : sep ∉ a) (ha' : sep ∉ a')
    (h : a ++ sep :: b = a' ++ sep :: b') : a = a' ∧ b = b' := by
  have hcut := cut_append_cons ha b
  rw [h, cut_append_cons ha' b'] at hcut
  obtain ⟨hfront, hback⟩ := Prod.mk.inj hcut
  exact ⟨hfront.symm, (Prod.mk.inj hback).1.symm⟩

/-- A text is told apart at the last separator. -/
theorem eq_of_last {sep : Char} {a a' b b' : List Char} (hb : sep ∉ b) (hb' : sep ∉ b')
    (h : a ++ sep :: b = a' ++ sep :: b') : a = a' ∧ b = b' := by
  have hcut := cutLast_append_cons hb a
  rw [h, cutLast_append_cons hb' a'] at hcut
  obtain ⟨hfront, hback⟩ := Prod.mk.inj hcut
  exact ⟨hfront.symm, (Prod.mk.inj hback).1.symm⟩

theorem cut_true {sep : Char} {s before after : List Char}
    (h : cut sep s = (before, after, true)) : s = before ++ sep :: after := by
  induction s generalizing before with
  | nil => simp [cut] at h
  | cons c rest ih =>
      by_cases hc : c = sep
      · simp only [cut, hc, if_true, Prod.mk.injEq] at h
        obtain ⟨rfl, rfl, _⟩ := h
        rw [hc, List.nil_append]
      · simp only [cut, hc, if_false, Prod.mk.injEq] at h
        obtain ⟨rfl, hrest⟩ := h
        rw [List.cons_append, ← ih (Prod.ext rfl hrest)]

theorem cutLast_true {sep : Char} {s before after : List Char}
    (h : cutLast sep s = (before, after, true)) : s = before ++ sep :: after := by
  unfold cutLast at h
  obtain ⟨hbefore, hafter⟩ := Prod.mk.inj h
  obtain ⟨hafter, hfound⟩ := Prod.mk.inj hafter
  have hcut := @cut_true sep s.reverse (cut sep s.reverse).1 (cut sep s.reverse).2.1
    (Prod.ext rfl (Prod.ext rfl hfound))
  have hrev := congrArg List.reverse hcut
  rw [List.reverse_reverse] at hrev
  rw [hrev, ← hbefore, ← hafter]
  simp

theorem cut_false {sep : Char} {s before after : List Char}
    (h : cut sep s = (before, after, false)) : before = s := by
  induction s generalizing before with
  | nil =>
      simp only [cut, Prod.mk.injEq] at h
      exact h.1.symm
  | cons c rest ih =>
      by_cases hc : c = sep
      · simp [cut, hc] at h
      · simp only [cut, hc, if_false, Prod.mk.injEq] at h
        obtain ⟨rfl, hrest⟩ := h
        exact congrArg (c :: ·) (ih (Prod.ext rfl hrest))

theorem cut_false_snd {sep : Char} {s before after : List Char}
    (h : cut sep s = (before, after, false)) : after = [] := by
  induction s generalizing before with
  | nil =>
      simp only [cut, Prod.mk.injEq] at h
      exact h.2.1.symm
  | cons c rest ih =>
      by_cases hc : c = sep
      · simp [cut, hc] at h
      · simp only [cut, hc, if_false, Prod.mk.injEq] at h
        exact ih (Prod.ext rfl h.2)

/-! ### Printed numbers are read back

`plainNumber` is the reader of `net/netip`, which refuses signs and superfluous zeros; what
`itoa` prints passes it, and what passes it is what `itoa` prints. -/

theorem itoa_ne_nil (n : Nat) : itoa n ≠ [] := by
  simp [itoa]

theorem isDigit_of_mem_itoa {n : Nat} {c : Char} (h : c ∈ itoa n) : c.isDigit :=
  Nat.isDigit_of_mem_toDigits (by decide) (by decide) h

theorem all_isDigit_itoa (n : Nat) : (itoa n).all Char.isDigit = true :=
  List.all_eq_true.mpr fun _ hc => isDigit_of_mem_itoa hc

/-- A printed positive number has no leading zero. -/
theorem head?_itoa {n : Nat} (hn : 0 < n) : (itoa n).head? ≠ some '0' := by
  induction n using Nat.strongRecOn with
  | ind n ih =>
    by_cases hlt : n < 10
    · have hdigit : ∀ m, m < 10 → 0 < m → Nat.digitChar m ≠ '0' := by decide
      rw [itoa, Nat.toDigits_of_lt_base hlt]
      simpa using hdigit n hlt hn
    · have hstep := Nat.toDigits_of_base_le (b := 10) (by decide) (Nat.le_of_not_lt hlt)
      have hhead : (itoa n).head? = (itoa (n / 10)).head? := by
        rw [itoa, hstep, List.head?_append_of_ne_nil _ Nat.toDigits_ne_nil]
        rfl
      rw [hhead]
      exact ih (n / 10) (by omega) (by omega)

theorem plainNumber_itoa (n : Nat) : plainNumber (itoa n) = some n := by
  have hhead : 1 < (itoa n).length → (itoa n).head? ≠ some '0' := by
    intro hlen
    rcases Nat.eq_zero_or_pos n with rfl | hn
    · simp [itoa] at hlen
    · exact head?_itoa hn
  rw [plainNumber, if_pos ⟨itoa_ne_nil n, all_isDigit_itoa n, hhead⟩]
  exact congrArg some Nat.ofDigitChars_ten_toDigits

theorem plainNumber_eq_some {s : List Char} {n : Nat} (h : plainNumber s = some n) :
    (s ≠ [] ∧ s.all Char.isDigit = true) ∧ n = Nat.ofDigitChars 10 s 0 := by
  unfold plainNumber at h
  split at h
  · rename_i hs
    exact ⟨⟨hs.1, hs.2.1⟩, (Option.some.inj h).symm⟩
  · cases h

theorem fields_of_word {word : List Char} (hne : word ≠ [])
    (hword : ∀ c ∈ word, isSpace c = false) : fields word = [word] := by
  rw [fields, List.splitOnP_eq_singleton hword]
  simp [hne]

/-- Words that were joined come apart again. -/
theorem fields_joinSpace {words : List (List Char)}
    (hwords : ∀ word ∈ words, word ≠ [] ∧ ∀ c ∈ word, isSpace c = false) :
    fields (joinSpace words) = words := by
  induction words with
  | nil => rfl
  | cons word rest ih =>
      obtain ⟨hne, hword⟩ := hwords word List.mem_cons_self
      have hrest := ih fun w hw => hwords w (List.mem_cons_of_mem _ hw)
      cases rest with
      | nil => simpa [joinSpace, List.intercalate] using fields_of_word hne hword
      | cons next rest =>
          have hjoin : joinSpace (word :: next :: rest) =
              word ++ ' ' :: joinSpace (next :: rest) := by
            simp [joinSpace, List.intercalate]
          rw [hjoin, fields, List.splitOnP_append_cons_of_forall_mem hword ' ' (by decide),
            List.filter_cons_of_pos (by simpa using hne)]
          exact congrArg (word :: ·) hrest

theorem trimSpace_of_forall {l : List Char} (h : ∀ c ∈ l, isSpace c = false) : trimSpace l = l := by
  have hdrop : ∀ l : List Char, (∀ c ∈ l, isSpace c = false) → l.dropWhile isSpace = l := by
    intro l hl
    cases l with
    | nil => rfl
    | cons c rest => rw [List.dropWhile_cons_of_neg (by simp [hl c List.mem_cons_self])]
  unfold trimSpace
  rw [hdrop l h, hdrop l.reverse (by simpa using h), List.reverse_reverse]

/-- What is left of a text begins with no blank. -/
theorem dropWhile_trimSpace (s : List Char) : (trimSpace s).dropWhile isSpace = trimSpace s := by
  cases htrim : trimSpace s with
  | nil => rfl
  | cons c rest =>
      have hpre : trimSpace s <+: s.dropWhile isSpace := List.rdropWhile_prefix isSpace _
      obtain ⟨more, hmore⟩ := hpre
      have hhead := List.head?_dropWhile_not isSpace s
      rw [← hmore, htrim, List.cons_append, List.head?_cons] at hhead
      rw [List.dropWhile_cons_of_neg (by simpa using hhead)]

theorem trimSpace_trimSpace (s : List Char) : trimSpace (trimSpace s) = trimSpace s := by
  calc trimSpace (trimSpace s)
      = ((trimSpace s).dropWhile isSpace).rdropWhile isSpace := rfl
    _ = (trimSpace s).rdropWhile isSpace := by rw [dropWhile_trimSpace]
    _ = trimSpace s := List.rdropWhile_idempotent isSpace _

/-- What is trimmed away is blank. -/
theorem mem_trimSpace_or_isSpace {s : List Char} {c : Char} (h : c ∈ s) :
    c ∈ trimSpace s ∨ isSpace c = true := by
  by_cases hspace : isSpace c = true
  · exact Or.inr hspace
  · left
    have hdrop : ∀ l : List Char, c ∈ l → c ∈ l.dropWhile isSpace := by
      intro l hl
      induction l with
      | nil => cases hl
      | cons d l ih =>
          rcases List.mem_cons.mp hl with rfl | hl
          · rw [List.dropWhile_cons_of_neg hspace]
            exact List.mem_cons_self
          · by_cases hd : isSpace d = true
            · rw [List.dropWhile_cons_of_pos hd]
              exact ih hl
            · rw [List.dropWhile_cons_of_neg hd]
              exact List.mem_cons_of_mem d hl
    have hfront := hdrop s h
    exact List.mem_reverse.mpr (hdrop _ (List.mem_reverse.mpr hfront))

theorem mem_of_mem_intercalate {α : Type} {sep c : α} {parts : List (List α)}
    (h : c ∈ [sep].intercalate parts) : c = sep ∨ ∃ part ∈ parts, c ∈ part := by
  induction parts with
  | nil => simp at h
  | cons part rest ih =>
      cases rest with
      | nil => exact Or.inr ⟨part, by simp, by simpa using h⟩
      | cons next rest =>
          rw [List.intercalate_cons_cons] at h
          rcases List.mem_append.mp h with h | h
          · rcases List.mem_append.mp h with h | h
            · exact Or.inr ⟨part, by simp, h⟩
            · exact Or.inl (by simpa using h)
          · rcases ih h with hsep | ⟨part', hpart', hc⟩
            · exact Or.inl hsep
            · exact Or.inr ⟨part', List.mem_cons_of_mem part hpart', hc⟩

/-- Joining the lines and splitting them at the commas is splitting each line. -/
theorem splitOn_join {lines : List (List Char)} (hne : lines ≠ []) :
    ([','].intercalate lines).splitOn ',' = lines.flatMap (·.splitOn ',') := by
  induction lines with
  | nil => exact absurd rfl hne
  | cons line rest ih =>
      cases rest with
      | nil => simp
      | cons next rest =>
          rw [List.intercalate_cons_cons, List.append_assoc, List.singleton_append,
            List.splitOn_append_cons_self, ih (by simp)]
          simp

end Quicgate.GoStrings
