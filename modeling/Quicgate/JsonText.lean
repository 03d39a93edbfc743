import Mathlib.Data.List.Basic
import Mathlib.Data.String.Basic
import Mathlib.Tactic.Basic
import Quicgate.GoStrings

/-!
# JSON text without ambiguity

Values of JSON and the text an encoder without white space writes for them, with the
escapes of Go's `encoding/json`.  An object keeps its members in order, as the
encoder of a record does.

A number has no closing mark, so two texts can only be told apart when no digit
follows.  Under that condition the texts form a prefix code: a value and what is
written after it can both be read back.  The proof goes by the value, one case for
each kind, and the first character of a text gives the kind away.

`text_append_inj` is the result.  A component that compares texts in the place of values,
as the Docker provider does with its signatures, compares the values.
-/

namespace Quicgate.JsonText

open Quicgate.GoStrings

/-! ### Characters inside quotes

An escape is read back by `unescape`, so no two texts inside quotes are written alike. -/

def hexDigit (n : Nat) : Char := if n < 10 then Char.ofNat (48 + n) else Char.ofNat (87 + n)

def hexValue (c : Char) : Nat := if c.toNat < 58 then c.toNat - 48 else c.toNat - 87

theorem hexValue_hexDigit : ∀ n < 16, hexValue (hexDigit n) = n := by decide

/-- The characters that are written by their number: the control characters without an
escape of their own, those that mean something in HTML, and the line separators of
JavaScript. -/
def writtenByNumber (c : Char) : Bool :=
  c.toNat < 0x20 || c == '<' || c == '>' || c == '&' || c == '\u2028' || c == '\u2029'

/-- `appendString` at one character. -/
def escape (c : Char) : List Char :=
  if c = '\\' then ['\\', '\\']
  else if c = '"' then ['\\', '"']
  else if c = '\x08' then ['\\', 'b']
  else if c = '\x0c' then ['\\', 'f']
  else if c = '\n' then ['\\', 'n']
  else if c = '\r' then ['\\', 'r']
  else if c = '\t' then ['\\', 't']
  else if writtenByNumber c then
    ['\\', 'u', hexDigit (c.toNat / 4096), hexDigit (c.toNat / 256 % 16),
      hexDigit (c.toNat / 16 % 16), hexDigit (c.toNat % 16)]
  else [c]

/-- What an escape stands for, and the text after it. -/
def unescape : List Char → Option (Char × List Char)
  | '\\' :: '\\' :: rest => some ('\\', rest)
  | '\\' :: '"' :: rest => some ('"', rest)
  | '\\' :: 'b' :: rest => some ('\x08', rest)
  | '\\' :: 'f' :: rest => some ('\x0c', rest)
  | '\\' :: 'n' :: rest => some ('\n', rest)
  | '\\' :: 'r' :: rest => some ('\r', rest)
  | '\\' :: 't' :: rest => some ('\t', rest)
  | '\\' :: 'u' :: a :: b :: c :: d :: rest =>
      some (Char.ofNat (hexValue a * 4096 + hexValue b * 256 + hexValue c * 16 + hexValue d), rest)
  | c :: rest => some (c, rest)
  | [] => none

theorem lt_of_writtenByNumber {c : Char} (h : writtenByNumber c = true) : c.toNat < 65536 := by
  simp only [writtenByNumber, Bool.or_eq_true, decide_eq_true_eq, beq_iff_eq] at h
  rcases h with ((((h | rfl) | rfl) | rfl) | rfl) | rfl
  · omega
  all_goals decide

theorem unescape_byNumber (n : Nat) (h : n < 65536) (s : List Char) :
    unescape (['\\', 'u', hexDigit (n / 4096), hexDigit (n / 256 % 16), hexDigit (n / 16 % 16),
      hexDigit (n % 16)] ++ s) = some (Char.ofNat n, s) := by
  have h₁ := hexValue_hexDigit (n / 4096) (by omega)
  have h₂ := hexValue_hexDigit (n / 256 % 16) (by omega)
  have h₃ := hexValue_hexDigit (n / 16 % 16) (by omega)
  have h₄ := hexValue_hexDigit (n % 16) (by omega)
  have hsum : n / 4096 * 4096 + n / 256 % 16 * 256 + n / 16 % 16 * 16 + n % 16 = n := by omega
  simp only [List.cons_append, List.nil_append, unescape, h₁, h₂, h₃, h₄, hsum]

theorem unescape_escape (c : Char) (s : List Char) : unescape (escape c ++ s) = some (c, s) := by
  unfold escape
  split_ifs with h₁ h₂ h₃ h₄ h₅ h₆ h₇ h₈
  · rw [h₁]; rfl
  · rw [h₂]; rfl
  · rw [h₃]; rfl
  · rw [h₄]; rfl
  · rw [h₅]; rfl
  · rw [h₆]; rfl
  · rw [h₇]; rfl
  · rw [unescape_byNumber c.toNat (lt_of_writtenByNumber h₈) s, Char.ofNat_toNat]
  · simp only [List.cons_append, List.nil_append]
    rw [unescape.eq_def]
    split <;> simp_all

theorem escape_append_inj {c d : Char} {s t : List Char} (h : escape c ++ s = escape d ++ t) :
    c = d ∧ s = t := by
  have hread := congrArg unescape h
  rw [unescape_escape, unescape_escape] at hread
  exact Prod.mk.inj (Option.some.inj hread)

/-- No escape can be taken for the closing quote. -/
theorem escape_ne_quote (c : Char) (s t : List Char) : escape c ++ s ≠ '"' :: t := by
  intro h
  unfold escape at h
  split_ifs at h <;> simp_all

/-! ### Strings and numbers

A string ends at its closing quote, a number where no digit follows. -/

def quoteRest : List Char → List Char
  | [] => ['"']
  | c :: rest => escape c ++ quoteRest rest

def quote (s : String) : List Char := '"' :: quoteRest s.toList

theorem quoteRest_append_inj {a b s t : List Char} (h : quoteRest a ++ s = quoteRest b ++ t) :
    a = b ∧ s = t := by
  induction a generalizing b with
  | nil =>
      cases b with
      | nil => exact ⟨rfl, List.append_cancel_left h⟩
      | cons c rest =>
          rw [quoteRest, quoteRest, List.append_assoc] at h
          exact absurd h.symm (escape_ne_quote c _ _)
  | cons c rest ih =>
      cases b with
      | nil =>
          rw [quoteRest, quoteRest, List.append_assoc] at h
          exact absurd h (escape_ne_quote c _ _)
      | cons d rest' =>
          rw [quoteRest, quoteRest, List.append_assoc, List.append_assoc] at h
          obtain ⟨rfl, htail⟩ := escape_append_inj h
          obtain ⟨rfl, hst⟩ := ih htail
          exact ⟨rfl, hst⟩

theorem quote_append_inj {a b : String} {s t : List Char} (h : quote a ++ s = quote b ++ t) :
    a = b ∧ s = t := by
  rw [quote, quote, List.cons_append, List.cons_append] at h
  obtain ⟨hab, hst⟩ := quoteRest_append_inj (List.tail_eq_of_cons_eq h)
  exact ⟨String.toList_inj.mp hab, hst⟩

/-- `strconv.AppendInt` in base ten. -/
def itoaInt (n : Int) : List Char := if 0 ≤ n then itoa n.toNat else '-' :: itoa (-n).toNat

/-- The text does not go on with a digit. -/
def Stops (s : List Char) : Prop := ∀ c ∈ s.head?, c.isDigit = false

theorem stops_cons {c : Char} {s : List Char} (h : c.isDigit = false) : Stops (c :: s) := by
  intro d hd
  obtain rfl : c = d := by simpa using hd
  exact h

theorem stops_nil : Stops [] := by simp [Stops]

theorem takeWhile_itoa_append (n : Nat) {s : List Char} (hs : Stops s) :
    (itoa n ++ s).takeWhile Char.isDigit = itoa n := by
  rw [List.takeWhile_append_of_pos fun c hc => isDigit_of_mem_itoa hc]
  cases s with
  | nil => simp
  | cons c rest =>
      have hc : c.isDigit = false := hs c (by simp)
      rw [List.takeWhile_cons_of_neg (by simp [hc]), List.append_nil]

theorem itoa_append_inj {n m : Nat} {s t : List Char} (hs : Stops s) (ht : Stops t)
    (h : itoa n ++ s = itoa m ++ t) : n = m ∧ s = t := by
  have hdigits : itoa n = itoa m := by
    rw [← takeWhile_itoa_append n hs, h, takeWhile_itoa_append m ht]
  have hread := congrArg plainNumber hdigits
  rw [plainNumber_itoa, plainNumber_itoa] at hread
  rw [hdigits] at h
  exact ⟨Option.some.inj hread, List.append_cancel_left h⟩

theorem itoa_ne_minus (n : Nat) (s t : List Char) : itoa n ++ s ≠ '-' :: t := by
  intro h
  cases hn : itoa n with
  | nil => exact itoa_ne_nil n hn
  | cons c rest =>
      rw [hn, List.cons_append] at h
      have hc : c.isDigit = true := isDigit_of_mem_itoa (n := n) (by simp [hn])
      rw [(List.cons.inj h).1] at hc
      revert hc
      decide

theorem itoaInt_append_inj {n m : Int} {s t : List Char} (hs : Stops s) (ht : Stops t)
    (h : itoaInt n ++ s = itoaInt m ++ t) : n = m ∧ s = t := by
  unfold itoaInt at h
  split_ifs at h with hn hm hm
  · obtain ⟨hnm, hst⟩ := itoa_append_inj hs ht h
    exact ⟨by omega, hst⟩
  · exact absurd h (itoa_ne_minus _ _ _)
  · exact absurd h.symm (itoa_ne_minus _ _ _)
  · obtain ⟨hnm, hst⟩ := itoa_append_inj hs ht (List.tail_eq_of_cons_eq h)
    exact ⟨by omega, hst⟩

/-! ### Values

`text` writes a value, `textItems` and `textMembers` what comes after the first entry of a
list or an object, with the closing mark. -/

inductive Json where
  | null
  | bool (b : Bool)
  | num (n : Int)
  | str (s : String)
  | arr (items : List Json)
  | obj (members : List (String × Json))

namespace Json

mutual

def text : Json → List Char
  | .null => ['n', 'u', 'l', 'l']
  | .bool true => ['t', 'r', 'u', 'e']
  | .bool false => ['f', 'a', 'l', 's', 'e']
  | .num n => itoaInt n
  | .str s => quote s
  | .arr [] => ['[', ']']
  | .arr (v :: rest) => '[' :: (v.text ++ textItems rest)
  | .obj [] => ['{', '}']
  | .obj ((k, v) :: rest) => '{' :: (quote k ++ ':' :: (v.text ++ textMembers rest))

def textItems : List Json → List Char
  | [] => [']']
  | v :: rest => ',' :: (v.text ++ textItems rest)

def textMembers : List (String × Json) → List Char
  | [] => ['}']
  | (k, v) :: rest => ',' :: (quote k ++ ':' :: (v.text ++ textMembers rest))

end

inductive Kind where
  | null | yes | no | num | str | arr | obj
deriving DecidableEq

def kind : Json → Kind
  | .null => .null
  | .bool true => .yes
  | .bool false => .no
  | .num _ => .num
  | .str _ => .str
  | .arr _ => .arr
  | .obj _ => .obj

def kindOf (c : Char) : Option Kind :=
  if c = 'n' then some .null else if c = 't' then some .yes else if c = 'f' then some .no
  else if c = '"' then some .str else if c = '[' then some .arr else if c = '{' then some .obj
  else if c.isDigit || c = '-' then some .num else none

theorem kindOf_isDigit {c : Char} (h : c.isDigit = true) : kindOf c = some .num := by
  unfold kindOf
  split_ifs with h₁ h₂ h₃ h₄ h₅ h₆ h₇
  · subst h₁; revert h; decide
  · subst h₂; revert h; decide
  · subst h₃; revert h; decide
  · subst h₄; revert h; decide
  · subst h₅; revert h; decide
  · subst h₆; revert h; decide
  · rfl
  · simp [h] at h₇

theorem head?_itoaInt (n : Int) : ∃ c ∈ (itoaInt n).head?, kindOf c = some .num := by
  unfold itoaInt
  split_ifs
  · cases hn : itoa n.toNat with
    | nil => exact absurd hn (itoa_ne_nil _)
    | cons c rest =>
        refine ⟨c, rfl, kindOf_isDigit (isDigit_of_mem_itoa (n := n.toNat) ?_)⟩
        simp [hn]
  · exact ⟨'-', rfl, rfl⟩

/-! ### The first character

A text begins in a way that only values of its kind do, and never like a closing mark. -/

/-- The first character of a text gives the kind of the value away. -/
theorem head?_text (v : Json) : ∃ c ∈ v.text.head?, kindOf c = some v.kind := by
  cases v with
  | null => exact ⟨'n', rfl, rfl⟩
  | bool b => cases b <;> exact ⟨_, rfl, rfl⟩
  | num n => exact head?_itoaInt n
  | str s => exact ⟨'"', rfl, rfl⟩
  | arr items => cases items <;> exact ⟨'[', rfl, rfl⟩
  | obj members =>
      cases members with
      | nil => exact ⟨'{', rfl, rfl⟩
      | cons m rest => exact ⟨'{', rfl, rfl⟩

theorem head?_text_append (v : Json) (s : List Char) :
    ∃ c, (v.text ++ s).head? = some c ∧ kindOf c = some v.kind := by
  obtain ⟨c, hc, hv⟩ := head?_text v
  refine ⟨c, ?_, hv⟩
  rw [List.head?_append, hc]
  rfl

theorem kind_eq_of_text_append {v w : Json} {s t : List Char} (h : v.text ++ s = w.text ++ t) :
    v.kind = w.kind := by
  obtain ⟨c, hc, hv⟩ := head?_text_append v s
  obtain ⟨d, hd, hw⟩ := head?_text_append w t
  obtain rfl : c = d := by
    rw [h, hd] at hc
    exact (Option.some.inj hc).symm
  exact Option.some.inj (hv.symm.trans hw)

/-- A value does not begin with a closing bracket or brace. -/
theorem text_append_ne_cons (v : Json) {c : Char} (hc : kindOf c = none) (s t : List Char) :
    v.text ++ s ≠ c :: t := by
  intro h
  obtain ⟨d, hd, hv⟩ := head?_text_append v s
  rw [h] at hd
  obtain rfl : c = d := Option.some.inj hd
  rw [hc] at hv
  cases hv

section Inversion

variable {v : Json}

theorem eq_null_of_kind (h : v.kind = .null) : v = .null := by
  unfold kind at h
  split at h <;> first | rfl | cases h

theorem eq_true_of_kind (h : v.kind = .yes) : v = .bool true := by
  unfold kind at h
  split at h <;> first | rfl | cases h

theorem eq_false_of_kind (h : v.kind = .no) : v = .bool false := by
  unfold kind at h
  split at h <;> first | rfl | cases h

theorem eq_num_of_kind (h : v.kind = .num) : ∃ n, v = .num n := by
  unfold kind at h
  split at h <;> first | exact ⟨_, rfl⟩ | cases h

theorem eq_str_of_kind (h : v.kind = .str) : ∃ s, v = .str s := by
  unfold kind at h
  split at h <;> first | exact ⟨_, rfl⟩ | cases h

theorem eq_arr_of_kind (h : v.kind = .arr) : ∃ items, v = .arr items := by
  unfold kind at h
  split at h <;> first | exact ⟨_, rfl⟩ | cases h

theorem eq_obj_of_kind (h : v.kind = .obj) : ∃ members, v = .obj members := by
  unfold kind at h
  split at h <;> first | exact ⟨_, rfl⟩ | cases h

end Inversion

theorem stops_textItems (l : List Json) (s : List Char) : Stops (textItems l ++ s) := by
  cases l with
  | nil => exact stops_cons (by decide)
  | cons v rest => exact stops_cons (by decide)

theorem stops_textMembers (l : List (String × Json)) (s : List Char) :
    Stops (textMembers l ++ s) := by
  cases l with
  | nil => exact stops_cons (by decide)
  | cons m rest => exact stops_cons (by decide)

mutual

/-- A value and what is written after it can be read back from the text. -/
theorem text_append_inj : ∀ (v w : Json) {s t : List Char}, Stops s → Stops t →
    v.text ++ s = w.text ++ t → v = w ∧ s = t
  | .null, w, s, t, _, _, h => by
      obtain rfl := eq_null_of_kind (kind_eq_of_text_append h).symm
      exact ⟨rfl, List.append_cancel_left h⟩
  | .bool true, w, s, t, _, _, h => by
      obtain rfl := eq_true_of_kind (kind_eq_of_text_append h).symm
      exact ⟨rfl, List.append_cancel_left h⟩
  | .bool false, w, s, t, _, _, h => by
      obtain rfl := eq_false_of_kind (kind_eq_of_text_append h).symm
      exact ⟨rfl, List.append_cancel_left h⟩
  | .num n, w, s, t, hs, ht, h => by
      obtain ⟨m, rfl⟩ := eq_num_of_kind (kind_eq_of_text_append h).symm
      obtain ⟨rfl, hst⟩ := itoaInt_append_inj hs ht h
      exact ⟨rfl, hst⟩
  | .str a, w, s, t, _, _, h => by
      obtain ⟨b, rfl⟩ := eq_str_of_kind (kind_eq_of_text_append h).symm
      obtain ⟨rfl, hst⟩ := quote_append_inj h
      exact ⟨rfl, hst⟩
  | .arr [], w, s, t, _, _, h => by
      obtain ⟨items, rfl⟩ := eq_arr_of_kind (kind_eq_of_text_append h).symm
      cases items with
      | nil => exact ⟨rfl, List.append_cancel_left h⟩
      | cons y ys =>
          simp only [text, List.cons_append, List.append_assoc, List.nil_append] at h
          exact absurd (List.tail_eq_of_cons_eq h).symm (text_append_ne_cons y (by decide) _ _)
  | .arr (x :: xs), w, s, t, hs, ht, h => by
      obtain ⟨items, rfl⟩ := eq_arr_of_kind (kind_eq_of_text_append h).symm
      cases items with
      | nil =>
          simp only [text, List.cons_append, List.append_assoc, List.nil_append] at h
          exact absurd (List.tail_eq_of_cons_eq h) (text_append_ne_cons x (by decide) _ _)
      | cons y ys =>
          simp only [text, List.cons_append, List.append_assoc] at h
          obtain ⟨rfl, hrest⟩ := text_append_inj x y (stops_textItems xs s) (stops_textItems ys t)
            (List.tail_eq_of_cons_eq h)
          obtain ⟨rfl, hst⟩ := textItems_append_inj xs ys hs ht hrest
          exact ⟨rfl, hst⟩
  | .obj [], w, s, t, _, _, h => by
      obtain ⟨members, rfl⟩ := eq_obj_of_kind (kind_eq_of_text_append h).symm
      cases members with
      | nil => exact ⟨rfl, List.append_cancel_left h⟩
      | cons m ms =>
          simp only [text, quote, List.cons_append, List.append_assoc, List.nil_append] at h
          exact absurd (List.cons.inj (List.tail_eq_of_cons_eq h)).1 (by decide)
  | .obj ((k, x) :: xs), w, s, t, hs, ht, h => by
      obtain ⟨members, rfl⟩ := eq_obj_of_kind (kind_eq_of_text_append h).symm
      cases members with
      | nil =>
          simp only [text, quote, List.cons_append, List.append_assoc, List.nil_append] at h
          exact absurd (List.cons.inj (List.tail_eq_of_cons_eq h)).1 (by decide)
      | cons m ys =>
          obtain ⟨k', y⟩ := m
          simp only [text, List.cons_append, List.append_assoc] at h
          obtain ⟨rfl, hvalue⟩ := quote_append_inj (List.tail_eq_of_cons_eq h)
          obtain ⟨rfl, hrest⟩ := text_append_inj x y (stops_textMembers xs s)
            (stops_textMembers ys t) (List.tail_eq_of_cons_eq hvalue)
          obtain ⟨rfl, hst⟩ := textMembers_append_inj xs ys hs ht hrest
          exact ⟨rfl, hst⟩

theorem textItems_append_inj : ∀ (l m : List Json) {s t : List Char}, Stops s → Stops t →
    textItems l ++ s = textItems m ++ t → l = m ∧ s = t
  | [], m, s, t, _, _, h => by
      cases m with
      | nil => exact ⟨rfl, List.append_cancel_left h⟩
      | cons y ys => exact absurd (List.cons.inj h).1 (by decide)
  | x :: xs, m, s, t, hs, ht, h => by
      cases m with
      | nil => exact absurd (List.cons.inj h).1 (by decide)
      | cons y ys =>
          simp only [textItems, List.cons_append, List.append_assoc] at h
          obtain ⟨rfl, hrest⟩ := text_append_inj x y (stops_textItems xs s) (stops_textItems ys t)
            (List.tail_eq_of_cons_eq h)
          obtain ⟨rfl, hst⟩ := textItems_append_inj xs ys hs ht hrest
          exact ⟨rfl, hst⟩

theorem textMembers_append_inj : ∀ (l m : List (String × Json)) {s t : List Char}, Stops s →
    Stops t → textMembers l ++ s = textMembers m ++ t → l = m ∧ s = t
  | [], m, s, t, _, _, h => by
      cases m with
      | nil => exact ⟨rfl, List.append_cancel_left h⟩
      | cons y ys => exact absurd (List.cons.inj h).1 (by decide)
  | (k, x) :: xs, m, s, t, hs, ht, h => by
      cases m with
      | nil => exact absurd (List.cons.inj h).1 (by decide)
      | cons y ys =>
          obtain ⟨k', y⟩ := y
          simp only [textMembers, List.cons_append, List.append_assoc] at h
          obtain ⟨rfl, hvalue⟩ := quote_append_inj (List.tail_eq_of_cons_eq h)
          obtain ⟨rfl, hrest⟩ := text_append_inj x y (stops_textMembers xs s)
            (stops_textMembers ys t) (List.tail_eq_of_cons_eq hvalue)
          obtain ⟨rfl, hst⟩ := textMembers_append_inj xs ys hs ht hrest
          exact ⟨rfl, hst⟩

end

example : (Json.arr [.num (-10), .null, .str "x<"]).text =
    "[-10,null,\"x\\u003c\"]".toList := by decide +kernel

end Json

end Quicgate.JsonText
