import Mathlib.Data.Bool.AllAny
import Quicgate.StoreConfig
import Quicgate.GoTime

/-!
# How long a response is kept

The lifetime under which a host's cache stores a response: `cacheControl`,
`freshnessLifetime` and the end of `respCache.wrap` (`internal/engine/cache.go`).

`Fields` is a header as its directives spell it, and `lifetime` what it grants a shared
cache.  The code computes in nanoseconds of 64 bits, and takes every comma for the end of a
directive.

`honoured_iff_carried` says when what is stored is what is granted: as long as the lifetime is
carried by 64 bits, some 292 years.  `farFuture_not_honoured` is one second more.
-/

namespace Quicgate.CacheControl

open Quicgate.GoStrings Quicgate.GoTime
open Quicgate.Store (parseInt64)

def lower (table : CaseTable) (s : List Char) : List Char :=
  (toLower table (String.ofList s)).toList

/-! ### The code

The fields of the header are joined and lower-cased, and cut at the commas; the loop keeps the
two lifetimes it finds. -/

/-- `cacheControl`: the fields of the header as one lower-cased list. -/
def cacheControl (table : CaseTable) (values : List (List Char)) : List Char :=
  lower table ([','].intercalate values)

def trimQuotes (s : List Char) : List Char := (s.dropWhile (· == '"')).rdropWhile (· == '"')

structure Ages where
  maxAge : Int
  sMaxAge : Int
deriving DecidableEq, Repr

def maxAgeName : List Char := "max-age".toList
def sMaxAgeName : List Char := "s-maxage".toList

def readPart (a : Ages) (part : List Char) : Ages :=
  match cut '=' (trimSpace part) with
  | (_, _, false) => a
  | (name, val, true) =>
      match parseInt64 (trimQuotes val) with
      | none => a
      | some n =>
          if name = maxAgeName then { a with maxAge := n }
          else if name = sMaxAgeName then { a with sMaxAge := n }
          else a

def freshnessLifetime (table : CaseTable) (cc : List Char) : Option Int :=
  let a := ((lower table cc).splitOn ',').foldl readPart { maxAge := -1, sMaxAge := -1 }
  if 0 ≤ a.sMaxAge then some (seconds a.sMaxAge)
  else if 0 ≤ a.maxAge then some (seconds a.maxAge)
  else none

/-- `respCache.wrap`, for a response that is safe to cache: the lifetime it is stored with, if
it is. -/
def storedFor (table : CaseTable) (ttl : Int) (values : List (List Char)) : Option Int :=
  match freshnessLifetime table (cacheControl table values) with
  | none => if 0 < ttl then some ttl else none
  | some age =>
      if age ≤ 0 then none
      else
        let ttl := if age < ttl then age else ttl
        if 0 < ttl then some ttl else none

/-! ### The header by its directives

A header as a list of directives, with what its author means by them. -/

def isTokenChar (c : Char) : Bool :=
  c.isAlphanum ||
    c ∈ ['!', '#', '$', '%', '&', '\'', '*', '+', '-', '.', '^', '_', '`', '|', '~']

def isBlank (c : Char) : Bool := c == ' ' || c == '\t'

/-- `max-age` or `s-maxage` with a lifetime in decimal digits that an `int` holds, quoted or
not. -/
structure LifetimeDirective where
  shared : Bool
  name : List Char
  digits : List Char
  quoted : Bool
  spelled : name.map Char.toLower = if shared then sMaxAgeName else maxAgeName
  nonempty : digits ≠ []
  decimal : digits.all Char.isDigit = true
  fits : Nat.ofDigitChars 10 digits 0 < 2 ^ 63

def LifetimeDirective.value (d : LifetimeDirective) : Nat := Nat.ofDigitChars 10 d.digits 0

inductive Argument where
  | absent
  | token (text : List Char) (plain : text.all isTokenChar = true)
  | quoted (raw : List Char)

structure OtherDirective where
  name : List Char
  token : name.all isTokenChar = true
  other : name.map Char.toLower ≠ maxAgeName ∧ name.map Char.toLower ≠ sMaxAgeName
  argument : Argument

inductive Directive where
  | lifetime (d : LifetimeDirective)
  | other (d : OtherDirective)
  | blank

structure Element where
  before : List Char
  directive : Directive
  after : List Char
  blanks : before.all isBlank = true ∧ after.all isBlank = true

/-- The directives of each field of a header. -/
abbrev Fields := List (List Element)

def LifetimeDirective.text (d : LifetimeDirective) : List Char :=
  d.name ++ '=' :: if d.quoted then '"' :: (d.digits ++ ['"']) else d.digits

def Argument.text : Argument → List Char
  | .absent => []
  | .token text _ => '=' :: text
  | .quoted raw => '=' :: '"' :: (raw ++ ['"'])

def Directive.text : Directive → List Char
  | .lifetime d => d.text
  | .other d => d.name ++ d.argument.text
  | .blank => []

def Element.text (e : Element) : List Char := e.before ++ e.directive.text ++ e.after

/-- The values of the header's fields. -/
def Fields.values (h : Fields) : List (List Char) :=
  h.map fun field => [','].intercalate (field.map Element.text)

/-- The lifetime that an element gives shared caches, or all of them. -/
def Element.gives (shared : Bool) (e : Element) : Option Nat :=
  match e.directive with
  | .lifetime d => if d.shared = shared then some d.value else none
  | _ => none

/-- The lifetime given by a directive, the last if it is repeated. -/
def Fields.given (h : Fields) (shared : Bool) : Option Nat :=
  (h.flatten.filterMap (Element.gives shared)).getLast?

/-- `s-maxage` if present, else `max-age` if present. -/
def Fields.lifetime (h : Fields) : Option Nat :=
  match h.given true with
  | some n => some n
  | none => h.given false

/-- A host's own lifetime, a positive `time.Duration`. -/
structure TTL where
  ns : Int
  pos : 0 < ns
  lt : ns < 2 ^ 63

/-- What the header and the host's own lifetime grant, none for a response already stale. -/
def granted (ttl : TTL) : Option Nat → Option Int
  | none => some ttl.ns
  | some 0 => none
  | some n => some (min ttl.ns (n * 1000000000))

/-- A storable response is stored for what is granted. -/
def Honoured (table : CaseTable) (ttl : TTL) (h : Fields) : Prop :=
  storedFor table ttl.ns h.values = granted ttl h.lifetime

instance (table : CaseTable) (ttl : TTL) (h : Fields) : Decidable (Honoured table ttl h) :=
  inferInstanceAs (Decidable (_ = _))

/-- A text between commas reads as a lifetime directive. -/
def spellsLifetime (part : List Char) : Bool :=
  match cut '=' (trimSpace part) with
  | (name, val, found) => found && (name == maxAgeName || name == sMaxAgeName) &&
      (parseInt64 (trimQuotes val)).isSome

/-- No directive holds, after a comma in its quoted argument, what reads as a lifetime
directive. -/
def Fields.hidesNone (table : CaseTable) (h : Fields) : Bool :=
  h.flatten.all fun e =>
    ((lower table (lower table e.text)).splitOn ',').tail.all fun part => !spellsLifetime part

/-! ### Text that is lower-cased, trimmed and cut

What lower-casing, trimming and cutting do to the text of one directive. -/

section Text

variable {table : CaseTable} {c : Char}

theorem lower_eq_map (s : List Char) : lower table s =
    s.map fun c => if c.toNat < 128 then c.toLower else table.lower c := by
  simp [lower, toLower]

theorem lower_append (s t : List Char) : lower table (s ++ t) = lower table s ++ lower table t := by
  simp [lower_eq_map]

theorem lower_join (parts : List (List Char)) :
    lower table ([','].intercalate parts) = [','].intercalate (parts.map (lower table)) := by
  induction parts with
  | nil => rfl
  | cons part rest ih =>
      cases rest with
      | nil => simp
      | cons next rest =>
          have hcomma : lower table [','] = [','] := by simp [lower_eq_map]
          rw [List.map_cons, List.map_cons, List.intercalate_cons_cons, List.intercalate_cons_cons,
            lower_append, lower_append, hcomma, ih, List.map_cons]

theorem toLower_lt (hc : c.toNat < 128) : c.toLower.toNat < 128 := by
  have hall : ∀ n < 128, (Char.ofNat n).toLower.toNat < 128 := by decide
  simpa using hall c.toNat hc

theorem toLower_toLower (hc : c.toNat < 128) : c.toLower.toLower = c.toLower := by
  have hall : ∀ n < 128, (Char.ofNat n).toLower.toLower = (Char.ofNat n).toLower := by decide
  have hself := hall c.toNat hc
  rwa [Char.ofNat_toNat] at hself

theorem lower_of_ascii {s : List Char} (h : ∀ c ∈ s, c.toNat < 128) :
    lower table s = s.map Char.toLower := by
  rw [lower_eq_map]
  apply List.map_congr_left
  intro c hc
  exact if_pos (h c hc)

/-- Lower-cased twice, a text of ASCII characters is as if lower-cased once. -/
theorem lower_lower_of_ascii {s : List Char} (h : ∀ c ∈ s, c.toNat < 128) :
    lower table (lower table s) = s.map Char.toLower := by
  have hlower : ∀ c ∈ s.map Char.toLower, c.toNat < 128 := by
    intro c hc
    obtain ⟨b, hb, rfl⟩ := List.mem_map.mp hc
    exact toLower_lt (h b hb)
  rw [lower_of_ascii h, lower_of_ascii hlower, List.map_map]
  apply List.map_congr_left
  intro c hc
  exact toLower_toLower (h c hc)

/-- A character that stands for itself between commas. -/
structure Plain (c : Char) : Prop where
  ascii : c.toNat < 128
  space : isSpace c.toLower = false
  equals : c.toLower ≠ '='
  comma : c.toLower ≠ ','
  semicolon : c.toLower ≠ ';'

theorem lt_of_isTokenChar (h : isTokenChar c = true) : c.toNat < 128 := by
  simp only [isTokenChar, Bool.or_eq_true] at h
  rcases h with h | h
  · have hbelow (last : Char) (hle : c.val ≤ last.val) (hlast : last.toNat < 128) :
        c.toNat < 128 := Nat.lt_of_le_of_lt (UInt32.le_iff_toNat_le.mp hle) hlast
    have hclass : ((c.isUpper || c.isLower) || c.isDigit) = true := h
    simp only [Bool.or_eq_true] at hclass
    rcases hclass with (hupper | hlower) | hdigit
    · exact hbelow 'Z' (of_decide_eq_true hupper).2 (by decide)
    · exact hbelow 'z' (of_decide_eq_true (Bool.and_eq_true_iff.mp hlower).2) (by decide)
    · exact hbelow '9' (of_decide_eq_true (Bool.and_eq_true_iff.mp hdigit).2) (by decide)
  · simp only [List.mem_cons, List.not_mem_nil, or_false, decide_eq_true_eq] at h
    rcases h with rfl | rfl | rfl | rfl | rfl | rfl | rfl | rfl | rfl | rfl | rfl | rfl | rfl |
      rfl | rfl <;> decide

theorem plain_of_isTokenChar (h : isTokenChar c = true) : Plain c := by
  have hlt := lt_of_isTokenChar h
  have hall : ∀ n < 128, isTokenChar (Char.ofNat n) = true →
      isSpace (Char.ofNat n).toLower = false ∧ (Char.ofNat n).toLower ≠ '=' ∧
        (Char.ofNat n).toLower ≠ ',' ∧ (Char.ofNat n).toLower ≠ ';' := by decide
  obtain ⟨hspace, hequals, hcomma, hsemicolon⟩ := hall c.toNat hlt (by simpa using h)
  refine ⟨hlt, ?_, ?_, ?_, ?_⟩
  · simpa using hspace
  · simpa using hequals
  · simpa using hcomma
  · simpa using hsemicolon

theorem plain_of_isDigit (h : c.isDigit = true) : Plain c :=
  plain_of_isTokenChar (by simp [isTokenChar, Char.isAlphanum, h])

theorem lower_of_blanks {s : List Char} (h : s.all isBlank = true) : lower table s = s := by
  have hall : ∀ c ∈ s, c = ' ' ∨ c = '\t' := by simpa [isBlank] using h
  rw [lower_eq_map]
  conv_rhs => rw [← List.map_id s]
  apply List.map_congr_left
  intro c hc
  rcases hall c hc with rfl | rfl <;> rfl

variable (table) in
theorem lower_blanks {s : List Char} (h : s.all isBlank = true) :
    lower table (lower table s) = s ∧ (∀ c ∈ s, isSpace c = true) ∧ ',' ∉ s := by
  have hall : ∀ c ∈ s, c = ' ' ∨ c = '\t' := by simpa [isBlank] using h
  refine ⟨?_, ?_, ?_⟩
  · rw [lower_of_blanks h, lower_of_blanks h]
  · intro c hc
    rcases hall c hc with rfl | rfl <;> rfl
  · intro hc
    rcases hall ',' hc with heq | heq <;> cases heq

/-- The blanks around a text without blanks at its ends are trimmed. -/
theorem trimSpace_between {before after s : List Char} (hbefore : ∀ c ∈ before, isSpace c = true)
    (hafter : ∀ c ∈ after, isSpace c = true) (hs : ∀ c ∈ s, isSpace c = false) :
    trimSpace (before ++ s ++ after) = s := by
  have hrev : ∀ c ∈ after.reverse, isSpace c = true := by simpa using hafter
  have hdrop : (s ++ after).dropWhile isSpace = if s = [] then [] else s ++ after := by
    cases s with
    | nil => simpa using hafter
    | cons c rest => simp [hs c List.mem_cons_self]
  unfold trimSpace
  rw [List.append_assoc, List.dropWhile_append_of_pos hbefore, hdrop]
  split_ifs with hempty
  · simp [hempty]
  · rw [List.reverse_append, List.dropWhile_append_of_pos hrev]
    have hself := trimSpace_of_forall (l := s.reverse) (by simpa using hs)
    cases hsr : s.reverse with
    | nil => exact absurd (List.reverse_eq_nil_iff.mp hsr) hempty
    | cons c rest =>
        have hc : isSpace c = false := hs c (List.mem_reverse.mp (by rw [hsr]; simp))
        rw [List.dropWhile_cons_of_neg (by simp [hc]), ← hsr, List.reverse_reverse]

/-- Trimming a text that begins with a name and a sign leaves both. -/
theorem cut_trimSpace {before name : List Char} (rest : List Char)
    (hbefore : ∀ c ∈ before, isSpace c = true) (hname : ∀ c ∈ name, isSpace c = false ∧ c ≠ '=') :
    ∃ val, cut '=' (trimSpace (before ++ name ++ '=' :: rest)) = (name, val, true) := by
  have hfront : (before ++ name ++ '=' :: rest).dropWhile isSpace = name ++ '=' :: rest := by
    rw [List.append_assoc, List.dropWhile_append_of_pos hbefore]
    cases name with
    | nil => rfl
    | cons c name => simp [(hname c List.mem_cons_self).1]
  have hback : (name ++ '=' :: rest).reverse.dropWhile isSpace =
      rest.reverse.dropWhile isSpace ++ '=' :: name.reverse := by
    rw [List.reverse_append, List.reverse_cons, List.append_assoc, List.dropWhile_append]
    split_ifs with hempty
    · rw [List.isEmpty_iff.mp hempty]
      rfl
    · rfl
  refine ⟨(rest.reverse.dropWhile isSpace).reverse, ?_⟩
  unfold trimSpace
  rw [hfront, hback, List.reverse_append, List.reverse_cons, List.reverse_reverse,
    List.append_assoc]
  exact cut_append_cons (fun hmem => (hname '=' hmem).2 rfl) _

end Text

/-! ### What the loop reads of a directive

A lifetime directive is read as what it says, and any other changes nothing, unless it hides a
lifetime behind a comma in its quotes. -/

section Read

variable {table : CaseTable} {a : Ages} {c : Char}

def readParts (a : Ages) (text : List Char) : Ages := (text.splitOn ',').foldl readPart a

/-- What does not read as a lifetime directive changes nothing. -/
theorem readPart_of_not_spells {part : List Char} (h : spellsLifetime part = false) :
    readPart a part = a := by
  unfold spellsLifetime at h
  unfold readPart
  rcases hcut : cut '=' (trimSpace part) with ⟨name, val, found⟩
  rw [hcut] at h
  cases found with
  | false => rfl
  | true =>
      cases hparse : parseInt64 (trimQuotes val) with
      | none => simp [hparse]
      | some n =>
          have hnames : name ≠ maxAgeName ∧ name ≠ sMaxAgeName := by simpa [hparse] using h
          simp [hparse, hnames.1, hnames.2]

theorem spellsLifetime_of_name {part name val : List Char} {found : Bool}
    (hcut : cut '=' (trimSpace part) = (name, val, found)) (hmax : name ≠ maxAgeName)
    (hshared : name ≠ sMaxAgeName) : spellsLifetime part = false := by
  simp [spellsLifetime, hcut, hmax, hshared]

theorem readPart_blank {before after : List Char} (hbefore : ∀ c ∈ before, isSpace c = true)
    (hafter : ∀ c ∈ after, isSpace c = true) : readPart a (before ++ [] ++ after) = a := by
  have htrim : trimSpace (before ++ [] ++ after) = [] :=
    trimSpace_between hbefore hafter (by simp)
  apply readPart_of_not_spells
  rw [spellsLifetime, htrim]
  rfl

/-- The parts of joined texts are read one text after the other. -/
theorem readParts_join (texts : List (List Char)) :
    readParts a ([','].intercalate texts) = texts.foldl readParts a := by
  cases texts with
  | nil =>
      have hblank : ∀ c ∈ ([] : List Char), isSpace c = true := by simp
      exact readPart_blank hblank hblank
  | cons text rest =>
      unfold readParts
      rw [splitOn_join (List.cons_ne_nil text rest), List.foldl_flatMap]

/-- What a directive's lifetime makes of the ages. -/
def Ages.give (a : Ages) (d : LifetimeDirective) : Ages :=
  if d.shared then { a with sMaxAge := d.value } else { a with maxAge := d.value }

theorem trimQuotes_digits {digits : List Char} (hne : digits ≠ [])
    (hdigits : digits.all Char.isDigit = true) (quoted : Bool) :
    trimQuotes (if quoted then '"' :: (digits ++ ['"']) else digits) = digits := by
  have hquote : ∀ c ∈ digits, (c == '"') = false := by
    intro c hc
    have hdigit := List.all_eq_true.mp hdigits c hc
    rw [beq_eq_false_iff_ne]
    rintro rfl
    exact absurd hdigit (by decide)
  have hfront : ∀ more, (digits ++ more).dropWhile (· == '"') = digits ++ more := by
    intro more
    cases digits with
    | nil => exact absurd rfl hne
    | cons c rest => simp [hquote c List.mem_cons_self]
  have hback : digits.rdropWhile (· == '"') = digits := by
    obtain ⟨front, last, rfl⟩ := (List.eq_nil_or_concat' digits).resolve_left hne
    have hlast := hquote last (by simp)
    exact List.rdropWhile_concat_neg _ _ last (by simp [hlast])
  cases quoted with
  | false =>
      have hself := hfront []
      rw [List.append_nil] at hself
      simp only [trimQuotes, Bool.false_eq_true, if_false]
      rw [hself, hback]
  | true =>
      simp only [trimQuotes, if_true]
      rw [List.dropWhile_cons_of_pos (by simp), hfront,
        List.rdropWhile_concat_pos _ _ '"' (by simp), hback]

theorem parseInt64_digits {digits : List Char} (hne : digits ≠ [])
    (hdigits : digits.all Char.isDigit = true) (hfits : Nat.ofDigitChars 10 digits 0 < 2 ^ 63) :
    parseInt64 digits = some (Nat.ofDigitChars 10 digits 0 : Nat) := by
  have hparse : parseUint 64 digits = some (Nat.ofDigitChars 10 digits 0) := by
    unfold parseUint
    rw [if_pos ⟨hne, hdigits, by omega⟩]
  unfold parseInt64
  split
  · exact absurd (List.all_eq_true.mp hdigits '-' List.mem_cons_self) (by decide)
  · exact absurd (List.all_eq_true.mp hdigits '+' List.mem_cons_self) (by decide)
  · rw [hparse]
    exact if_pos hfits

theorem toLower_of_isDigit (h : c.isDigit = true) : c.toLower = c := by
  have hlt := (plain_of_isDigit h).ascii
  have hall : ∀ n < 128, (Char.ofNat n).isDigit = true → (Char.ofNat n).toLower = Char.ofNat n := by
    decide
  simpa using hall c.toNat hlt (by simpa using h)

/-! ### One directive

A lifetime directive is lower-cased and trimmed to its name, a sign and digits, quoted or not,
and the loop reads the digits. -/

/-- The name and the argument of a lifetime directive, lower-cased. -/
theorem LifetimeDirective.map_toLower_text (d : LifetimeDirective) : d.text.map Char.toLower =
    (if d.shared then sMaxAgeName else maxAgeName) ++
      '=' :: if d.quoted then '"' :: (d.digits ++ ['"']) else d.digits := by
  have hdigits : d.digits.map Char.toLower = d.digits := by
    conv_rhs => rw [← List.map_id d.digits]
    apply List.map_congr_left
    intro c hc
    exact toLower_of_isDigit (List.all_eq_true.mp d.decimal c hc)
  unfold LifetimeDirective.text
  rw [List.map_append, List.map_cons, d.spelled]
  cases d.quoted with
  | false => simp [hdigits]
  | true => simp [hdigits]

theorem ascii_of_toLower (h : c.toLower.toNat < 128) : c.toNat < 128 := by
  by_contra hge
  have hsame : c.toLower = c := by
    unfold Char.toLower
    have hval : c.toNat = c.val.toNat := rfl
    rw [dif_neg]
    rintro ⟨-, hle⟩
    have hZ : c.val.toNat ≤ 90 := hle
    omega
  rw [hsame] at h
  exact hge h

/-- A lifetime directive is ASCII, without blanks and commas. -/
theorem LifetimeDirective.text_plain (d : LifetimeDirective) :
    (∀ c ∈ d.text, c.toNat < 128) ∧ ∀ c ∈ d.text.map Char.toLower, isSpace c = false ∧ c ≠ ',' := by
  have hname : ∀ c ∈ (if d.shared then sMaxAgeName else maxAgeName),
      c.toNat < 128 ∧ isSpace c = false ∧ c ≠ ',' := by
    have hall (shared : Bool) : ((if shared then sMaxAgeName else maxAgeName).all fun c =>
        c.toNat < 128 ∧ isSpace c = false ∧ c ≠ ',') = true := by
      cases shared <;> decide
    exact List.all_iff_forall_prop.mp (hall d.shared)
  have hdigit : ∀ c ∈ d.digits, c.toNat < 128 ∧ isSpace c = false ∧ c ≠ ',' := by
    intro c hc
    have hd := List.all_eq_true.mp d.decimal c hc
    have hplain := plain_of_isDigit hd
    rw [← toLower_of_isDigit hd]
    exact ⟨toLower_lt hplain.ascii, hplain.space, hplain.comma⟩
  have hall : ∀ c ∈ d.text.map Char.toLower, c.toNat < 128 ∧ isSpace c = false ∧ c ≠ ',' := by
    rw [d.map_toLower_text]
    intro c hc
    rcases List.mem_append.mp hc with hc | hc
    · exact hname c hc
    · rcases List.mem_cons.mp hc with rfl | hc
      · decide
      · cases hquoted : d.quoted with
        | false => exact hdigit c (by simpa [hquoted] using hc)
        | true =>
            have hc : c = '"' ∨ c ∈ d.digits := by
              simp [hquoted] at hc
              tauto
            rcases hc with rfl | hc
            · decide
            · exact hdigit c hc
  constructor
  · intro c hc
    exact ascii_of_toLower (hall c.toLower (List.mem_map_of_mem hc)).1
  · intro c hc
    exact (hall c hc).2

/-- The loop reads a lifetime directive as what it says. -/
theorem readPart_lifetime (d : LifetimeDirective) {before after : List Char}
    (hbefore : ∀ c ∈ before, isSpace c = true) (hafter : ∀ c ∈ after, isSpace c = true) :
    readPart a (before ++ d.text.map Char.toLower ++ after) = a.give d := by
  have htrim := trimSpace_between hbefore hafter fun c hc => (d.text_plain.2 c hc).1
  have hcut : cut '=' (d.text.map Char.toLower) = (if d.shared then sMaxAgeName else maxAgeName,
      if d.quoted then '"' :: (d.digits ++ ['"']) else d.digits, true) := by
    rw [d.map_toLower_text]
    apply cut_append_cons
    cases d.shared <;> decide
  unfold readPart
  rw [htrim, hcut]
  simp only [trimQuotes_digits d.nonempty d.decimal, parseInt64_digits d.nonempty d.decimal d.fits]
  cases hshared : d.shared with
  | false => simp [Ages.give, hshared, LifetimeDirective.value]
  | true =>
      have hne : sMaxAgeName ≠ maxAgeName := by decide
      simp [Ages.give, hshared, LifetimeDirective.value, hne]

/-- Only the first part of a text sees what stands before its first comma. -/
theorem splitOn_append_of_not_mem {pre : List Char} (rest : List Char) (hpre : ',' ∉ pre) :
    ∃ first parts, rest.splitOn ',' = first :: parts ∧
      (pre ++ rest).splitOn ',' = (pre ++ first) :: parts := by
  obtain ⟨first, parts, hrest⟩ := List.exists_cons_of_ne_nil (List.splitOn_ne_nil ',' rest)
  refine ⟨first, parts, hrest, ?_⟩
  induction pre with
  | nil => exact hrest
  | cons c pre ih =>
      have hc : c ≠ ',' := fun heq => hpre (heq ▸ List.mem_cons_self)
      have htail := ih fun hmem => hpre (List.mem_cons_of_mem c hmem)
      rw [List.cons_append, List.splitOn_cons_eq_if_modifyHead, if_neg (by simpa using hc), htail]
      rfl

theorem foldl_readPart {parts : List (List Char)}
    (h : ∀ part ∈ parts, spellsLifetime part = false) : parts.foldl readPart a = a := by
  induction parts with
  | nil => rfl
  | cons part parts ih =>
      rw [List.foldl_cons, readPart_of_not_spells (h part List.mem_cons_self)]
      exact ih fun p hp => h p (List.mem_cons_of_mem part hp)

theorem OtherDirective.name_plain (d : OtherDirective) :
    (∀ c ∈ d.name, c.toNat < 128) ∧
      ∀ c ∈ d.name.map Char.toLower, isSpace c = false ∧ c ≠ '=' ∧ c ≠ ',' := by
  have hall : ∀ c ∈ d.name, Plain c := fun c hc =>
    plain_of_isTokenChar (List.all_eq_true.mp d.token c hc)
  constructor
  · intro c hc
    exact (hall c hc).ascii
  · intro c hc
    obtain ⟨b, hb, rfl⟩ := List.mem_map.mp hc
    exact ⟨(hall b hb).space, (hall b hb).equals, (hall b hb).comma⟩

variable (table) in
/-- The text of another directive begins with its name, and goes on with a sign or ends. -/
theorem OtherDirective.lower_text (d : OtherDirective) :
    ∃ rest, lower table (lower table (Directive.other d).text) = d.name.map Char.toLower ++ rest ∧
      (rest = [] ∨ ∃ val, rest = '=' :: val) := by
  refine ⟨lower table (lower table d.argument.text), ?_, ?_⟩
  · rw [Directive.text, lower_append, lower_append, lower_lower_of_ascii d.name_plain.1]
  · have hsign : ∀ val, lower table (lower table ('=' :: val)) =
        '=' :: lower table (lower table val) := by
      intro val
      simp [lower_eq_map]
    cases d.argument with
    | absent => exact Or.inl (by simp [Argument.text, lower_eq_map])
    | token text plain => exact Or.inr ⟨_, hsign text⟩
    | quoted raw => exact Or.inr ⟨_, hsign ('"' :: (raw ++ ['"']))⟩

variable (table) in
/-- The first part of another directive does not read as a lifetime directive. -/
theorem spellsLifetime_first (d : OtherDirective) {before after : List Char}
    (hbefore : ∀ c ∈ before, isSpace c = true) (hafter : ∀ c ∈ after, isSpace c = true)
    (hbeforeComma : ',' ∉ before) (hafterComma : ',' ∉ after) :
    ∃ first parts, (before ++ lower table (lower table (Directive.other d).text) ++ after).splitOn
        ',' = first :: parts ∧ spellsLifetime first = false := by
  obtain ⟨rest, htext, hrest⟩ := d.lower_text table
  obtain ⟨hmax, hshared⟩ := d.other
  have hnameComma : ',' ∉ d.name.map Char.toLower := fun hmem => (d.name_plain.2 ',' hmem).2.2 rfl
  rw [htext]
  rcases hrest with rfl | ⟨val, rfl⟩
  · rw [List.append_nil]
    refine ⟨_, [], List.splitOn_eq_singleton ?_, ?_⟩
    · simp only [List.mem_append, not_or]
      exact ⟨⟨hbeforeComma, hnameComma⟩, hafterComma⟩
    · have htrim := trimSpace_between hbefore hafter fun c hc => (d.name_plain.2 c hc).1
      have hcut := cut_of_not_mem fun hmem => (d.name_plain.2 '=' hmem).2.1 rfl
      rw [spellsLifetime, htrim, hcut]
      rfl
  · have hcomma : ',' ∉ before ++ d.name.map Char.toLower ++ ['='] := by
      simp only [List.mem_append, not_or]
      exact ⟨⟨hbeforeComma, hnameComma⟩, by decide⟩
    obtain ⟨first, parts, -, hsplit⟩ := splitOn_append_of_not_mem (val ++ after) hcomma
    refine ⟨before ++ d.name.map Char.toLower ++ '=' :: first, parts, ?_, ?_⟩
    · simpa using hsplit
    · obtain ⟨arg, hcut⟩ := cut_trimSpace first hbefore
        fun c hc => ⟨(d.name_plain.2 c hc).1, (d.name_plain.2 c hc).2.1⟩
      exact spellsLifetime_of_name hcut hmax hshared

/-! ### All fields of a header

The fields are joined to one list of elements, so the loop's result is a fold over all of
them, of which the last lifetime of each kind counts. -/

/-- What an element makes of the ages. -/
def Ages.take (a : Ages) (e : Element) : Ages :=
  match e.directive with
  | .lifetime d => a.give d
  | _ => a

/-- The loop reads every element as its directive says, unless a quoted argument hides a
lifetime. -/
theorem readParts_element (e : Element)
    (hhides : ∀ part ∈ ((lower table (lower table e.text)).splitOn ',').tail,
      spellsLifetime part = false) :
    readParts a (lower table (lower table e.text)) = a.take e := by
  obtain ⟨hbeforeText, hbefore, hbeforeComma⟩ := lower_blanks table e.blanks.1
  obtain ⟨hafterText, hafter, hafterComma⟩ := lower_blanks table e.blanks.2
  have htext : lower table (lower table e.text) =
      e.before ++ lower table (lower table e.directive.text) ++ e.after := by
    rw [Element.text, lower_append, lower_append, lower_append, lower_append, hbeforeText,
      hafterText]
  rw [htext] at hhides ⊢
  unfold readParts Ages.take
  cases hdir : e.directive with
  | lifetime d =>
      have hplain := d.text_plain
      have hlower : lower table (lower table (Directive.lifetime d).text) =
          d.text.map Char.toLower := lower_lower_of_ascii hplain.1
      rw [hlower, List.splitOn_eq_singleton]
      · exact readPart_lifetime d hbefore hafter
      · simp only [List.mem_append, not_or]
        exact ⟨⟨hbeforeComma, fun hmem => (hplain.2 ',' hmem).2 rfl⟩, hafterComma⟩
  | other d =>
      rw [hdir] at hhides
      obtain ⟨first, parts, hsplit, hfirst⟩ :=
        spellsLifetime_first table d hbefore hafter hbeforeComma hafterComma
      rw [hsplit] at hhides ⊢
      rw [List.foldl_cons, readPart_of_not_spells hfirst]
      exact foldl_readPart hhides
  | blank =>
      have hempty : lower table (lower table Directive.blank.text) = [] := by
        simp [Directive.text, lower_eq_map]
      rw [hempty, List.splitOn_eq_singleton]
      · exact readPart_blank hbefore hafter
      · simp only [List.append_nil, List.mem_append, not_or]
        exact ⟨hbeforeComma, hafterComma⟩

def lastOr (before : Int) (values : List Nat) : Int := (values.getLast?.map Int.ofNat).getD before

theorem lastOr_cons (before : Int) (n : Nat) (values : List Nat) :
    lastOr before (n :: values) = lastOr n values := by
  unfold lastOr
  cases hlast : values.getLast? with
  | none => simp [List.getLast?_cons, hlast]
  | some m => simp [List.getLast?_cons, hlast]

def agesAfter (a : Ages) (es : List Element) : Ages :=
  { maxAge := lastOr a.maxAge (es.filterMap (Element.gives false))
    sMaxAge := lastOr a.sMaxAge (es.filterMap (Element.gives true)) }

theorem foldl_take (es : List Element) (a : Ages) : es.foldl Ages.take a = agesAfter a es := by
  induction es generalizing a with
  | nil => rfl
  | cons e es ih =>
      rw [List.foldl_cons, ih]
      unfold agesAfter
      cases hdir : e.directive with
      | lifetime d =>
          cases hshared : d.shared <;>
            simp [Ages.take, Ages.give, Element.gives, hdir, hshared, lastOr_cons]
      | other d => simp [Ages.take, Element.gives, hdir]
      | blank => simp [Ages.take, Element.gives, hdir]

theorem foldl_readParts (es : List Element)
    (hhides : ∀ e ∈ es, ∀ part ∈ ((lower table (lower table e.text)).splitOn ',').tail,
      spellsLifetime part = false) (a : Ages) :
    (es.map fun e => lower table (lower table e.text)).foldl readParts a =
    es.foldl Ages.take a := by
  induction es generalizing a with
  | nil => rfl
  | cons e es ih =>
      rw [List.map_cons, List.foldl_cons, List.foldl_cons,
        readParts_element e (hhides e List.mem_cons_self)]
      exact ih (fun e' he' => hhides e' (List.mem_cons_of_mem e he')) _

/-- Lower-cased, the joined fields are the joined elements, lower-cased. -/
theorem lower_cacheControl (h : Fields) : lower table (cacheControl table h.values) =
    [','].intercalate (h.map fun field => [','].intercalate
      (field.map fun e => lower table (lower table e.text))) := by
  have hfield : ∀ field ∈ h, lower table (lower table ([','].intercalate
      (field.map Element.text))) = [','].intercalate
        (field.map fun e => lower table (lower table e.text)) := by
    intro field _
    rw [lower_join, lower_join, List.map_map, List.map_map]
    rfl
  rw [cacheControl, lower_join, lower_join, Fields.values, List.map_map, List.map_map]
  exact congrArg _ (List.map_congr_left hfield)

/-- The fields are read as the list of all their elements. -/
theorem readParts_values (h : Fields) (hhides : h.hidesNone table = true) (a : Ages) :
    readParts a (lower table (cacheControl table h.values)) = agesAfter a h.flatten := by
  have hall : ∀ e ∈ h.flatten, ∀ part ∈ ((lower table (lower table e.text)).splitOn ',').tail,
      spellsLifetime part = false := by
    intro e he part hpart
    simpa using List.all_eq_true.mp (List.all_eq_true.mp hhides e he) part hpart
  have hfield : ∀ (field : List Element) a, readParts a ([','].intercalate
      (field.map fun e => lower table (lower table e.text))) =
        field.foldl (fun a e => readParts a (lower table (lower table e.text))) a := by
    intro field a
    rw [readParts_join, List.foldl_map]
  rw [lower_cacheControl, readParts_join, ← foldl_take, ← foldl_readParts h.flatten hall,
    List.foldl_map,
    List.foldl_map, List.foldl_flatten]
  simp only [hfield]

/-- `freshnessLifetime` finds the lifetime of the header and multiplies it. -/
theorem freshnessLifetime_eq (h : Fields) (hhides : h.hidesNone table = true) :
    freshnessLifetime table (cacheControl table h.values) =
      h.lifetime.map fun n : Nat => seconds n := by
  have hread := readParts_values h hhides { maxAge := -1, sMaxAge := -1 }
  have hages : agesAfter { maxAge := -1, sMaxAge := -1 } h.flatten =
      { maxAge := ((h.given false).map Int.ofNat).getD (-1)
        sMaxAge := ((h.given true).map Int.ofNat).getD (-1) } := rfl
  rw [hages] at hread
  unfold readParts at hread
  unfold freshnessLifetime Fields.lifetime
  rw [hread]
  cases h.given true with
  | some n => simp
  | none =>
      cases h.given false with
      | some n => simp
      | none => simp

end Read

/-! ### Lifetimes in 64 bits

A product that wraps is right only by chance: when the host's own lifetime is the smaller one
anyway. -/

/-- In 64 bits of nanoseconds the lifetime is what it is, or it still reaches the host's
own. -/
def Carried (ttl : TTL) (n : Nat) : Prop :=
  n * 1000000000 < 2 ^ 63 ∨ ttl.ns ≤ ((n : Int) * 1000000000).bmod (2 ^ 64)

section Carried

variable {ttl : TTL} {n : Nat}

/-- The end of `wrap`, for a lifetime that the response gives. -/
theorem stored_eq_min (ttl : TTL) (age : Int) :
    (if age ≤ 0 then none
      else
        let ns := if age < ttl.ns then age else ttl.ns
        if 0 < ns then some ns else none) = if age ≤ 0 then none else some (min ttl.ns age) := by
  have hpos := ttl.pos
  by_cases hage : age ≤ 0
  · rw [if_pos hage, if_pos hage]
  · rw [if_neg hage, if_neg hage]
    by_cases hsmall : age < ttl.ns
    · have hmin : min ttl.ns age = age := min_eq_right hsmall.le
      simp only [hsmall, if_true, hmin]
      exact if_pos (by omega)
    · have hmin : min ttl.ns age = ttl.ns := min_eq_left (not_lt.mp hsmall)
      simp only [hsmall, if_false, hmin]
      exact if_pos hpos

/-- What is stored is what is granted exactly where the lifetime is carried. -/
theorem stored_iff_carried : (if seconds n ≤ 0 then none else some (min ttl.ns (seconds n))) =
    granted ttl (some n) ↔ Carried ttl n := by
  have hpos := ttl.pos
  have hlt := ttl.lt
  by_cases hfits : n * 1000000000 < 2 ^ 63
  · have hcarried : Carried ttl n := Or.inl hfits
    rw [seconds_of_lt hfits]
    simp only [hcarried, iff_true]
    cases n with
    | zero => rfl
    | succ n => exact if_neg (by omega)
  · have hgranted : granted ttl (some n) = some ttl.ns := by
      cases n with
      | zero => omega
      | succ n =>
          have hmin : min ttl.ns (((n + 1 : Nat) : Int) * 1000000000) = ttl.ns := by omega
          exact congrArg some hmin
    have hcarried : Carried ttl n ↔ ttl.ns ≤ seconds n := or_iff_right hfits
    rw [hgranted, hcarried]
    constructor
    · intro hstored
      split_ifs at hstored
      have hmin := Option.some.inj hstored
      omega
    · intro hle
      have hmin : min ttl.ns (seconds n) = ttl.ns := min_eq_left hle
      rw [if_neg (by omega), hmin]

end Carried

/-- **Lifetimes are honoured up to 292 years.** Where no quoted argument of another directive
spells a lifetime after a comma, a storable response is stored for what its header and the
host grant, if and only if the header's lifetime either fits 64 bits of nanoseconds or wraps
around to no less than the host's. -/
theorem honoured_iff_carried (table : CaseTable) (ttl : TTL) (h : Fields)
    (hhides : h.hidesNone table = true) :
    Honoured table ttl h ↔ ∀ n, h.lifetime = some n → Carried ttl n := by
  unfold Honoured storedFor
  rw [freshnessLifetime_eq h hhides]
  cases hlife : h.lifetime with
  | none =>
      have hpos := ttl.pos
      simp [granted, hpos]
  | some n =>
      rw [Option.map_some]
      simp only [Option.some.injEq, forall_eq', stored_eq_min]
      exact stored_iff_carried

def asciiTable : CaseTable := { upper := id, lower := id }

def minute : TTL := { ns := 60000000000, pos := by decide, lt := by decide }

/-- `Cache-Control: public` and, in a second field, `Max-Age="30"`. -/
def halfMinute : Fields :=
  [[{ before := [], after := [], blanks := by decide
      directive := .other { name := "public".toList, argument := .absent
                            token := by decide, other := by decide } }],
   [{ before := [], after := [], blanks := by decide
      directive := .lifetime
        { shared := false, name := "Max-Age".toList, digits := "30".toList, quoted := true
          spelled := by decide, nonempty := by decide, decimal := by decide, fits := by decide } }]]

theorem honoured_iff_carried_halfMinute : Honoured asciiTable minute halfMinute := by
  apply (honoured_iff_carried asciiTable minute halfMinute (by decide +kernel)).mpr
  intro n hlife
  have hn : halfMinute.lifetime = some 30 := by decide +kernel
  rw [hn] at hlife
  obtain rfl := Option.some.inj hlife
  exact Or.inl (by decide)

/-- `Cache-Control: max-age=9223372037`, some 292 years. -/
def farFuture : Fields :=
  [[{ before := [], after := [], blanks := by decide
      directive := .lifetime
        { shared := false, name := "max-age".toList, digits := "9223372037".toList, quoted := false
          spelled := by decide, nonempty := by decide, decimal := by decide, fits := by decide } }]]

/-- The product is negative in 64 bits, and a response that is fresh for centuries is not
stored at all. -/
theorem farFuture_not_honoured : ¬ ∀ table ttl h, Honoured table ttl h := by
  intro hall
  have hstored : storedFor asciiTable minute.ns farFuture.values = none := by decide +kernel
  have hgranted : granted minute farFuture.lifetime = some 60000000000 := by decide +kernel
  have hfar := hall asciiTable minute farFuture
  rw [Honoured, hstored, hgranted] at hfar
  cases hfar

end Quicgate.CacheControl
