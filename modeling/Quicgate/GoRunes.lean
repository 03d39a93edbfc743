import Mathlib.Data.UInt
import Mathlib.Tactic.Basic

/-!
# The runes of a Go string

A Go string is any sequence of bytes.  Ranging over it reads UTF-8, and a byte that is not
the start of a well-formed encoding is read as the replacement character.  ASCII bytes
are never hidden that way: no encoding of another rune contains one.

`not_of_indexFunc` is what follows for a search rune by rune: it meets every ASCII byte of the
string.  `ListHeader` uses it for bytes that are no text.
-/

namespace Quicgate.GoRunes

def runeError : Nat := 0xFFFD

/-- What a byte from `0x80` on announces: how many bytes, and the range of the second. -/
inductive Lead where
  | none
  | two
  | three (lo hi : UInt8)
  | four (lo hi : UInt8)
deriving DecidableEq

def lead (b : UInt8) : Lead :=
  if b < 0xC2 then .none
  else if b < 0xE0 then .two
  else if b = 0xE0 then .three 0xA0 0xBF
  else if b = 0xED then .three 0x80 0x9F
  else if b < 0xF0 then .three 0x80 0xBF
  else if b = 0xF0 then .four 0x90 0xBF
  else if b < 0xF4 then .four 0x80 0xBF
  else if b = 0xF4 then .four 0x80 0x8F
  else .none

def within (lo hi b : UInt8) : Bool := lo ≤ b && b ≤ hi

def low6 (b : UInt8) : Nat := b.toNat % 64

/-- `utf8.DecodeRuneInString`: the rune at the start of a string and its width. -/
def decodeRune (b : UInt8) (rest : List UInt8) : Nat × Nat :=
  if b < 0x80 then (b.toNat, 1)
  else
    match lead b, rest with
    | .two, c :: _ =>
        if within 0x80 0xBF c then (b.toNat % 32 * 64 + low6 c, 2) else (runeError, 1)
    | .three lo hi, c :: d :: _ =>
        if within lo hi c && within 0x80 0xBF d then
          ((b.toNat % 16 * 64 + low6 c) * 64 + low6 d, 3)
        else (runeError, 1)
    | .four lo hi, c :: d :: e :: _ =>
        if within lo hi c && within 0x80 0xBF d && within 0x80 0xBF e then
          (((b.toNat % 8 * 64 + low6 c) * 64 + low6 d) * 64 + low6 e, 4)
        else (runeError, 1)
    | _, _ => (runeError, 1)

/-- The loop of `indexFunc` at the byte `i`; `skip` bytes belong to the rune before it. -/
def indexFrom (f : Nat → Bool) : Nat → Nat → List UInt8 → Option Nat
  | _, _, [] => none
  | i, skip + 1, _ :: rest => indexFrom f (i + 1) skip rest
  | i, 0, b :: rest =>
      if f (decodeRune b rest).1 then some i
      else indexFrom f (i + 1) ((decodeRune b rest).2 - 1) rest

/-- `strings.IndexFunc`: where the first rune with the property starts. -/
def indexFunc (f : Nat → Bool) (s : List UInt8) : Option Nat := indexFrom f 0 0 s

theorem le_of_within {lo hi b : UInt8} (h : within lo hi b = true) : lo ≤ b := by
  simp only [within, Bool.and_eq_true, decide_eq_true_eq] at h
  exact h.1

theorem three_le {b lo hi : UInt8} (h : lead b = .three lo hi) : 0x80 ≤ lo := by
  unfold lead at h
  split_ifs at h <;> cases h <;> decide

theorem four_le {b lo hi : UInt8} (h : lead b = .four lo hi) : 0x80 ≤ lo := by
  unfold lead at h
  split_ifs at h <;> cases h <;> decide

/-- The bytes that a rune takes after its first one are not ASCII. -/
theorem le_of_mem_rune {b c : UInt8} {rest : List UInt8}
    (hc : c ∈ rest.take ((decodeRune b rest).2 - 1)) : 0x80 ≤ c := by
  unfold decodeRune at hc
  by_cases hascii : b < 0x80
  · simp [hascii] at hc
  rw [if_neg hascii] at hc
  rcases rest with - | ⟨second, rest⟩
  · simp at hc
  cases hlead : lead b with
  | none => simp [hlead] at hc
  | two =>
      simp only [hlead] at hc
      split_ifs at hc with hin
      · obtain rfl : c = second := by simpa using hc
        exact le_of_within hin
      · simp at hc
  | three lo hi =>
      rcases rest with - | ⟨third, rest⟩
      · simp [hlead] at hc
      simp only [hlead] at hc
      split_ifs at hc with hin
      · rw [Bool.and_eq_true] at hin
        obtain rfl | rfl : c = second ∨ c = third := by simpa using hc
        · exact UInt8.le_trans (three_le hlead) (le_of_within hin.1)
        · exact le_of_within hin.2
      · simp at hc
  | four lo hi =>
      rcases rest with - | ⟨third, - | ⟨fourth, rest⟩⟩
      · simp [hlead] at hc
      · simp [hlead] at hc
      simp only [hlead] at hc
      split_ifs at hc with hin
      · rw [Bool.and_eq_true, Bool.and_eq_true] at hin
        obtain rfl | rfl | rfl : c = second ∨ c = third ∨ c = fourth := by simpa using hc
        · exact UInt8.le_trans (four_le hlead) (le_of_within hin.1.1)
        · exact le_of_within hin.1.2
        · exact le_of_within hin.2
      · simp at hc

/-- The search meets every ASCII byte. -/
theorem not_of_indexFrom {f : Nat → Bool} {i skip : Nat} {s : List UInt8}
    (h : indexFrom f i skip s = none) (hskip : ∀ c ∈ s.take skip, 0x80 ≤ c) :
    ∀ b ∈ s, b < 0x80 → f b.toNat = false := by
  induction s generalizing i skip with
  | nil => exact fun b hb => absurd hb List.not_mem_nil
  | cons first rest ih =>
      intro b hb hascii
      cases skip with
      | succ skip =>
          rw [indexFrom] at h
          rcases List.mem_cons.mp hb with rfl | hb
          · exact absurd (hskip b (by simp)) (UInt8.not_le.mpr hascii)
          · exact ih h (fun c hc => hskip c (List.mem_cons_of_mem first hc)) b hb hascii
      | zero =>
          rw [indexFrom] at h
          split_ifs at h with hfirst
          rcases List.mem_cons.mp hb with rfl | hb
          · simpa [decodeRune, hascii] using hfirst
          · exact ih h (fun c hc => le_of_mem_rune hc) b hb hascii

theorem not_of_indexFunc {f : Nat → Bool} {s : List UInt8} (h : indexFunc f s = none)
    {b : UInt8} (hb : b ∈ s) (hascii : b < 0x80) : f b.toNat = false :=
  not_of_indexFrom h (by simp) b hb hascii

end Quicgate.GoRunes
