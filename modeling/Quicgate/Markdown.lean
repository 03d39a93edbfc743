import Quicgate.GoStrings

/-!
# The markdown of the built-in guides

The renderer that turns a guide's source into the HTML the page shows
(`src/web/md.js`).  It escapes the source and then writes its own tags around
parts of it, with regular expressions that find bold text, emphasis and links
one after another, so later ones read what earlier ones wrote.  A text is its
list of characters; each regular expression is the function that finds its
match at the front of a text.

`renderMarkdown_made` says what every page is put together of.  `Made` is the invariant of the
renderer: a text of pieces that it wrote itself and of plain characters, which cutting and
replacing keep.
-/

namespace Quicgate.Markdown

abbrev Text := List Char

/-! ### Regular expressions

A match is a front of the text; `replaceAll` looks for it at one place after the other. -/

def isSpace (c : Char) : Bool :=
  c ∈ ['\t', '\n', '\x0b', '\x0c', '\r', ' ', '\u00a0', '\u1680', '\u2028', '\u2029', '\u202f',
    '\u205f', '\u3000', '\ufeff'] || (0x2000 ≤ c.toNat && c.toNat ≤ 0x200a)

/-- What `.` does not match. -/
def isLineEnd (c : Char) : Bool := c ∈ ['\n', '\r', '\u2028', '\u2029']

def isWord (c : Char) : Bool := c.isAlphanum || c == '_'

def replaceChar (c : Char) (text s : Text) : Text := s.flatMap fun d => if d = c then text else [d]

def trim (s : Text) : Text := ((s.dropWhile isSpace).reverse.dropWhile isSpace).reverse

/-- What a regular expression replaces when it matches at the front of a text: what stands
there afterwards and what is left of the text.  A match is never empty. -/
structure Pattern where
  replace : Bool → Text → Option (Text × Text)
  shorter : ∀ {start s out rest}, replace start s = some (out, rest) → rest.length < s.length

/-- `s.replace(/…/g, …)`: the leftmost matches, none overlapping another.  The flag tells the
start of the text, the only place `^` matches. -/
def Pattern.replaceAll (p : Pattern) (start : Bool) (s : Text) : Text :=
  match _h : p.replace start s with
  | some (out, rest) => out ++ p.replaceAll false rest
  | none =>
    match s with
    | [] => []
    | c :: rest => c :: p.replaceAll false rest
termination_by s.length
decreasing_by
  · exact p.shorter _h
  · exact Nat.lt_succ_self rest.length

namespace Pattern

variable {p : Pattern} {start : Bool} {c : Char} {s out rest : Text}

theorem replaceAll_some (h : p.replace start s = some (out, rest)) :
    p.replaceAll start s = out ++ p.replaceAll false rest := by
  rw [replaceAll]
  split
  · rename_i heq
    obtain ⟨rfl, rfl⟩ := Prod.mk.inj (Option.some.inj (h.symm.trans heq))
    rfl
  · rename_i heq
    exact absurd (h.symm.trans heq) (by simp)

theorem replaceAll_none (h : p.replace start (c :: s) = none) :
    p.replaceAll start (c :: s) = c :: p.replaceAll false s := by
  rw [replaceAll]
  split
  · rename_i heq
    exact absurd (h.symm.trans heq) (by simp)
  · rfl

theorem replaceAll_nil : p.replaceAll start [] = [] := by
  rw [replaceAll]
  split
  · rename_i heq
    exact absurd (p.shorter heq) (by simp)
  · rfl

/-- What no match begins in stays as it is. -/
theorem replaceAll_append {q : Text} (hq : ∀ c ∈ q, ∀ start s, p.replace start (c :: s) = none)
    (start : Bool) (s : Text) :
    ∃ start', p.replaceAll start (q ++ s) = q ++ p.replaceAll start' s := by
  induction q generalizing start with
  | nil => exact ⟨start, rfl⟩
  | cons c q ih =>
      obtain ⟨start', heq⟩ := ih (fun d hd => hq d (List.mem_cons_of_mem _ hd)) false
      refine ⟨start', ?_⟩
      rw [List.cons_append, replaceAll_none (hq c List.mem_cons_self start _), heq,
        List.cons_append]

end Pattern

/-! ### Escaping and inline spans

Each of the four expressions is given with what it is replaced by. -/

def mdEscape (s : Text) : Text :=
  replaceChar '>' "&gt;".toList (replaceChar '<' "&lt;".toList (replaceChar '&' "&amp;".toList s))

/-- ``s.split(/(`[^`]*`)/)``: the texts between the code spans and, as the group is captured,
the spans themselves. -/
def splitCode (s : Text) : List Text :=
  match _hfirst : s.dropWhile (· ≠ '`') with
  | [] => [s]
  | tick :: opened =>
    match _hsecond : opened.dropWhile (· ≠ '`') with
    | [] => [s]
    | tick' :: rest =>
      s.takeWhile (· ≠ '`') :: (tick :: opened.takeWhile (· ≠ '`') ++ [tick']) :: splitCode rest
termination_by s.length
decreasing_by
  have hfirst := List.length_dropWhile_le (· ≠ '`') s
  have hsecond := List.length_dropWhile_le (· ≠ '`') opened
  simp only [_hfirst, _hsecond, List.length_cons] at hfirst hsecond
  omega

def strong : Pattern where
  replace _ s :=
    match s with
    | '*' :: '*' :: opened =>
      match opened.takeWhile (· ≠ '*'), opened.dropWhile (· ≠ '*') with
      | c :: inner, '*' :: '*' :: rest =>
        some ("<strong>".toList ++ c :: inner ++ "</strong>".toList, rest)
      | _, _ => none
    | _ => none
  shorter := by
    intro _ s out rest h
    split at h
    · rename_i opened
      split at h
      · rename_i hdrop
        have hlen := List.length_dropWhile_le (· ≠ '*') opened
        obtain ⟨-, rfl⟩ := Prod.mk.inj (Option.some.inj h)
        rw [hdrop] at hlen
        simp only [List.length_cons] at hlen ⊢
        omega
      · simp at h
    · simp at h

/-- `\*([^*\s][^*]*)\*` at the front of a text: what the group captures and what is left. -/
def starred (s : Text) : Option (Text × Text) :=
  match s with
  | '*' :: c :: opened =>
    if c ≠ '*' && !isSpace c then
      match opened.dropWhile (· ≠ '*') with
      | _ :: rest => some (c :: opened.takeWhile (· ≠ '*'), rest)
      | [] => none
    else none
  | _ => none

theorem starred_shorter {s inner rest : Text} (h : starred s = some (inner, rest)) :
    rest.length < s.length := by
  unfold starred at h
  split at h
  · rename_i c opened
    split at h
    · split at h
      · rename_i hdrop
        have hlen := List.length_dropWhile_le (· ≠ '*') opened
        obtain ⟨-, rfl⟩ := Prod.mk.inj (Option.some.inj h)
        rw [hdrop] at hlen
        simp only [List.length_cons] at hlen ⊢
        omega
      · simp at h
    · simp at h
  · simp at h

def emphasised (inner : Text) : Text := "<em>".toList ++ inner ++ "</em>".toList

def em : Pattern where
  replace start s :=
    match if start then starred s else none, s with
    | some (inner, rest), _ => some (emphasised inner, rest)
    | none, c :: after =>
      if isSpace c || c == '(' then
        (starred after).map fun (inner, rest) => (c :: emphasised inner, rest)
      else none
    | none, [] => none
  shorter := by
    intro start s out rest h
    split at h
    · rename_i hfront
      obtain ⟨-, rfl⟩ := Prod.mk.inj (Option.some.inj h)
      split at hfront
      · exact starred_shorter hfront
      · simp at hfront
    · split at h
      · obtain ⟨⟨inner, rest'⟩, hafter, heq⟩ := Option.map_eq_some_iff.mp h
        obtain ⟨-, rfl⟩ := Prod.mk.inj heq
        exact (starred_shorter hafter).trans (by simp)
      · simp at h
    · simp at h

/-- The tag a link becomes: another guide of the directory, a page elsewhere or anything else. -/
def anchor (text href : Text) : Text :=
  let name := href.take (href.length - 3)
  if name ≠ [] && name.all (fun c => isWord c || c == '-') && href.drop name.length ==
    ".md".toList then
    "<a href=\"#\" data-guide=\"".toList ++ name ++ "\">".toList ++ text ++ "</a>".toList
  else if "http://".toList.isPrefixOf href || "https://".toList.isPrefixOf href then
    "<a href=\"".toList ++ href ++ "\" target=\"_blank\" rel=\"noopener\">".toList ++ text ++
      "</a>".toList
  else "<a href=\"".toList ++ href ++ "\">".toList ++ text ++ "</a>".toList

def link : Pattern where
  replace _ s :=
    match s with
    | '[' :: opened =>
      match opened.takeWhile (· ≠ ']'), opened.dropWhile (· ≠ ']') with
      | c :: text, ']' :: '(' :: target =>
        match target.takeWhile (fun d => d ≠ ')' && !isSpace d),
            target.dropWhile (fun d => d ≠ ')' && !isSpace d) with
        | d :: href, ')' :: rest => some (anchor (c :: text) (d :: href), rest)
        | _, _ => none
      | _, _ => none
    | _ => none
  shorter := by
    intro _ s out rest h
    split at h
    · rename_i opened
      split at h
      · rename_i target _ hdrop
        split at h
        · rename_i hdrop'
          have hlen := List.length_dropWhile_le (· ≠ ']') opened
          have hlen' := List.length_dropWhile_le (fun d => d ≠ ')' && !isSpace d) target
          obtain ⟨-, rfl⟩ := Prod.mk.inj (Option.some.inj h)
          rw [hdrop] at hlen
          rw [hdrop'] at hlen'
          simp only [List.length_cons] at hlen hlen' ⊢
          omega
        · simp at h
      · simp at h
    · simp at h

/-- A part between backquotes is code; any other has its bold text, emphasis and links replaced,
in this order. -/
def mdPart (part : Text) : Text :=
  if part.head? = some '`' && part.getLast? = some '`' && 1 < part.length then
    "<code>".toList ++ (part.drop 1).dropLast ++ "</code>".toList
  else link.replaceAll true (em.replaceAll true (strong.replaceAll true part))

def mdInline (s : Text) : Text := (splitCode s).flatMap mdPart

/-! ### Blocks

The loop looks at the lines at hand: a block takes one or more of them, and what is no block is
collected into a paragraph. -/

def isFence (raw : Text) : Bool := "```".toList.isPrefixOf raw

/-- `/^(#{1,4})\s+(.*)$/`: the level and the text of a heading. -/
def heading (line : Text) : Option (Nat × Text) :=
  let level := (line.takeWhile (· = '#')).length
  let rest := line.drop level
  let text := rest.dropWhile isSpace
  if 1 ≤ level && level ≤ 4 && text.length < rest.length && !text.any isLineEnd then some
    (level, text)
  else none

def isRule (raw : Text) : Bool :=
  [ '-', '*' ].any fun c =>
    3 ≤ (raw.takeWhile (· = c)).length && (raw.dropWhile (· = c)).all isSpace

def dropLastBar : Text → Text
  | [] => []
  | c :: rest => if c = '|' && rest.all isSpace then [] else c :: dropLastBar rest

/-- The cells of a table's line. -/
def cells (raw : Text) : List Text :=
  let escaped := mdEscape raw
  let opened := if escaped.head? = some '|' then escaped.tail else escaped
  ((dropLastBar opened).splitOn '|').map trim

def isDashes (cell : Text) : Bool :=
  let dashes := if cell.head? = some ':' then cell.tail else cell
  let after := dashes.dropWhile (· = '-')
  cell = [] || dashes.head? = some '-' && (after = [] || after = [':'])

/-- One row, each of its cells under the tag given. -/
def row (tag : String) (cells : List Text) : Text :=
  "<tr>".toList ++ (cells.flatMap fun c =>
    "<".toList ++ tag.toList ++ ">".toList ++ mdInline c ++ "</".toList ++ tag.toList ++
      ">".toList) ++
    "</tr>".toList

/-- A table: a second row of dashes makes the first one the head and is left out. -/
def table (rows : List (List Text)) : Text :=
  "<div class=\"md-tablewrap\"><table>".toList ++
    (match rows with
    | first :: second :: rest =>
      if second.all isDashes then row "th" first ++ rest.flatMap (row "td")
      else rows.flatMap (row "td")
    | _ => rows.flatMap (row "td")) ++
    "</table></div>".toList

/-- `/^(\s*)([-*]|\d+\.)\s/`: whether the marker is a number's and what stands after it, when
white space does. -/
def marker (raw : Text) : Option (Bool × Text) :=
  let line := raw.dropWhile isSpace
  let digits := line.takeWhile Char.isDigit
  let after := line.drop digits.length
  let found := match digits, after with
    | [], c :: rest => if c = '-' || c = '*' then some (false, rest) else none
    | _ :: _, '.' :: rest => some (true, rest)
    | _, _ => none
  found.filter fun (_, rest) => (rest.head?.map isSpace).getD false

/-- `/^(\s*)([-*]|\d+\.)\s+(.*)$/`: whether the item is a numbered one, and its text. -/
def item (raw : Text) : Option (Bool × Text) :=
  (marker raw).bind fun (ordered, rest) =>
    let text := rest.dropWhile isSpace
    if text.any isLineEnd then none else some (ordered, text)

/-- `/^\s{2,}\S/` on a line that opens no item: it continues the one before. -/
def continues (raw : Text) : Bool :=
  2 ≤ (raw.takeWhile isSpace).length && raw.dropWhile isSpace ≠ [] && (marker raw).isNone

/-- The items of a list whose lines are at hand, and the lines after it. -/
def items (ordered : Bool) (lines : List Text) : List Text × List Text :=
  match lines with
  | [] => ([], [])
  | raw :: rest =>
    match item raw with
    | none => ([], raw :: rest)
    | some (ordered', text) =>
      if ordered' ≠ ordered then ([], raw :: rest)
      else
        let more := rest.takeWhile continues
        let whole := more.foldl (fun text line => text ++ ' ' :: trim line) text
        let after := items ordered (rest.dropWhile continues)
        (("<li>".toList ++ mdInline (mdEscape whole) ++ "</li>".toList) :: after.1, after.2)
termination_by lines.length
decreasing_by
  exact Nat.lt_succ_of_le (List.length_dropWhile_le continues rest)

def unquote (raw : Text) : Text :=
  match raw with
  | '>' :: c :: rest => if isSpace c then rest else c :: rest
  | '>' :: [] => []
  | _ => raw

/-- What the renderer makes of a line: the HTML of a block and the lines after it, the end of a
paragraph, or one more line of it. -/
inductive Turn
  | block (html : Text) (rest : List Text)
  | blank
  | para (line : Text)

def join (sep : Text) (parts : List Text) : Text := sep.intercalate parts

/-- A block of code, its lines escaped. -/
def fenced (code : List Text) : Text :=
  "<pre><code>".toList ++ join ['\n'] (code.map mdEscape) ++ "</code></pre>".toList

def headed (level : Nat) (text : Text) : Text :=
  "<h".toList ++ Nat.toDigits 10 level ++ ">".toList ++ mdInline text ++ "</h".toList ++
    Nat.toDigits 10 level ++ ">".toList

def listed (ordered : Bool) (entries : List Text) : Text :=
  if ordered then "<ol>".toList ++ entries.flatten ++ "</ol>".toList
  else "<ul>".toList ++ entries.flatten ++ "</ul>".toList

def quoted (lines : List Text) : Text :=
  "<blockquote><p>".toList ++ mdInline (join [' '] (lines.map fun l => mdEscape (unquote l))) ++
    "</p></blockquote>".toList

def turn (raw : Text) (rest : List Text) : Turn :=
  if isFence raw then
    .block (fenced (rest.takeWhile (!isFence ·)))
      (rest.drop ((rest.takeWhile (!isFence ·)).length + 1))
  else match heading (mdEscape raw) with
  | some (level, text) => .block (headed level text) rest
  | none =>
    if isRule raw then .block "<hr>".toList rest
    else if raw.head? = some '|' then
      .block (table ((raw :: rest.takeWhile (·.head? = some '|')).map cells))
        (rest.dropWhile (·.head? = some '|'))
    else match item raw with
    | some (ordered, _) =>
      .block (listed ordered (items ordered (raw :: rest)).1) (items ordered (raw :: rest)).2
    | none =>
      if raw.head? = some '>' then
        .block (quoted (raw :: rest.takeWhile (·.head? = some '>')))
          (rest.dropWhile (·.head? = some '>'))
      else if trim raw = [] then .blank
      else .para (mdEscape raw)

def flushPara (para : List Text) : List Text :=
  if para = [] then [] else ["<p>".toList ++ mdInline (join [' '] para) ++ "</p>".toList]

theorem items_suffix (ordered : Bool) (lines : List Text) : (items ordered lines).2 <:+ lines := by
  fun_induction items ordered lines with
  | case1 => exact List.suffix_refl _
  | case2 => exact List.suffix_refl _
  | case3 => exact List.suffix_refl _
  | case4 raw rest =>
      rename_i ih
      exact (ih.trans (List.dropWhile_suffix _)).trans (List.suffix_cons _ _)

/-- Which HTML a block can be, from which lines, and that it leaves an end of the lines. -/
theorem turn_block {raw html : Text} {rest after : List Text}
    (h : turn raw rest = .block html after) :
    ((∃ code, code ⊆ rest ∧ html = fenced code) ∨
      (∃ level text, heading (mdEscape raw) = some (level, text) ∧ html = headed level text) ∨
      html = "<hr>".toList ∨
      (∃ rows, rows ⊆ raw :: rest ∧ html = table (rows.map cells)) ∨
      (∃ ordered, html = listed ordered (items ordered (raw :: rest)).1) ∨
      (∃ lines, lines ⊆ raw :: rest ∧ html = quoted lines)) ∧ after <:+ rest := by
  unfold turn at h
  split at h
  · obtain ⟨rfl, rfl⟩ := Turn.block.inj h
    exact ⟨.inl ⟨_, List.takeWhile_subset _, rfl⟩, List.drop_suffix _ _⟩
  split at h
  · rename_i level text hheading
    obtain ⟨rfl, rfl⟩ := Turn.block.inj h
    exact ⟨.inr (.inl ⟨level, text, hheading, rfl⟩), List.suffix_refl _⟩
  split at h
  · obtain ⟨rfl, rfl⟩ := Turn.block.inj h
    exact ⟨.inr (.inr (.inl rfl)), List.suffix_refl _⟩
  split at h
  · obtain ⟨rfl, rfl⟩ := Turn.block.inj h
    refine ⟨.inr (.inr (.inr (.inl ⟨_, ?_, rfl⟩))), List.dropWhile_suffix _⟩
    exact List.cons_subset_cons _ (List.takeWhile_subset _)
  split at h
  · rename_i ordered text hitem
    obtain ⟨rfl, rfl⟩ := Turn.block.inj h
    refine ⟨.inr (.inr (.inr (.inr (.inl ⟨ordered, rfl⟩)))), ?_⟩
    -- the line the list begins with is one of its items
    rw [items, hitem]
    simp only [ne_eq, not_true_eq_false, if_false]
    exact (items_suffix _ _).trans (List.dropWhile_suffix _)
  split at h
  · obtain ⟨rfl, rfl⟩ := Turn.block.inj h
    refine ⟨.inr (.inr (.inr (.inr (.inr ⟨_, ?_, rfl⟩)))), List.dropWhile_suffix _⟩
    exact List.cons_subset_cons _ (List.takeWhile_subset _)
  · split at h <;> simp at h

theorem turn_para {raw line : Text} {rest : List Text} (h : turn raw rest = .para line) :
    line = mdEscape raw := by
  unfold turn at h
  repeat' split at h
  all_goals first
    | exact (Turn.para.inj h).symm
    | exact absurd h (by simp)

/-- The loop of the renderer, with the paragraph it is collecting. -/
def blocks (para : List Text) (lines : List Text) : List Text :=
  match lines with
  | [] => flushPara para
  | raw :: rest =>
    match _hturn : turn raw rest with
    | .block html after => flushPara para ++ html :: blocks [] after
    | .blank => flushPara para ++ blocks [] rest
    | .para line => blocks (para ++ [line]) rest
termination_by lines.length
decreasing_by
  · exact Nat.lt_succ_of_le (turn_block _hturn).2.length_le
  · exact Nat.lt_succ_self _
  · exact Nat.lt_succ_self _

def splitLines : Text → List Text
  | [] => [[]]
  | '\r' :: '\n' :: rest => [] :: splitLines rest
  | c :: rest =>
    if c = '\n' then [] :: splitLines rest
    else match splitLines rest with
      | [] => [[c]]
      | line :: more => (c :: line) :: more

def renderMarkdown (src : Text) : Text := join ['\n'] (blocks [] (splitLines src))

/-! ### Texts put together of markup

The pieces hold no delimiter, so a text is cut between them and never within one. -/

/-- A text put together of pieces of `own` and of plain characters. -/
inductive Made (plain : Char → Prop) (own : List Text) : Text → Prop
  | nil : Made plain own []
  | char {c : Char} {s : Text} (hc : plain c) (hs : Made plain own s) : Made plain own (c :: s)
  | piece {p s : Text} (hp : p ∈ own) (hs : Made plain own s) : Made plain own (p ++ s)

/-- A character that stands in no piece, so that a text may be cut at it. -/
def Delimits (own : List Text) (c : Char) : Prop := ∀ p ∈ own, c ∉ p

namespace Made

variable {plain : Char → Prop} {own own' : List Text} {s t : Text}

theorem append (hs : Made plain own s) (ht : Made plain own t) : Made plain own (s ++ t) := by
  induction hs with
  | nil => exact ht
  | char hc _ ih => exact char hc ih
  | piece hp _ ih =>
      rw [List.append_assoc]
      exact piece hp ih

theorem own_piece {p : Text} (hp : p ∈ own) : Made plain own p := by
  simpa using piece hp (nil : Made plain own [])

theorem mono (hown : own ⊆ own') (hs : Made plain own s) : Made plain own' s := by
  induction hs with
  | nil => exact nil
  | char hc _ ih => exact char hc ih
  | piece hp _ ih => exact piece (hown hp) ih

theorem of_plain (hs : ∀ c ∈ s, plain c) : Made plain own s := by
  induction s with
  | nil => exact nil
  | cons c rest ih =>
      have hrest : ∀ d ∈ rest, plain d := fun d hd => hs d (List.mem_cons_of_mem _ hd)
      exact char (hs c List.mem_cons_self) (ih hrest)

theorem flatten {parts : List Text} (hparts : ∀ p ∈ parts, Made plain own p) :
    Made plain own parts.flatten := by
  induction parts with
  | nil => exact nil
  | cons p rest ih =>
      rw [List.flatten_cons]
      exact append (hparts p List.mem_cons_self)
        (ih fun q hq => hparts q (List.mem_cons_of_mem _ hq))

theorem flatMap {α : Type} {f : α → Text} {parts : List α}
    (hparts : ∀ x ∈ parts, Made plain own (f x)) : Made plain own (parts.flatMap f) := by
  rw [List.flatMap_def]
  apply flatten
  intro out hout
  obtain ⟨x, hx, rfl⟩ := List.mem_map.mp hout
  exact hparts x hx

/-- A text between two pieces. -/
theorem between {opens closes : Text} (hopens : opens ∈ own) (hs : Made plain own s)
    (hcloses : closes ∈ own) : Made plain own (opens ++ s ++ closes) :=
  append (append (own_piece hopens) hs) (own_piece hcloses)

theorem join {sep : Text} {parts : List Text} (hsep : Made plain own sep)
    (hparts : ∀ p ∈ parts, Made plain own p) : Made plain own (Markdown.join sep parts) := by
  induction parts with
  | nil => exact nil
  | cons p rest ih =>
      have hp := hparts p List.mem_cons_self
      cases rest with
      | nil => simpa [Markdown.join] using hp
      | cons q more =>
          have hrest := ih fun r hr => hparts r (List.mem_cons_of_mem _ hr)
          rw [Markdown.join, List.intercalate_cons_cons]
          exact append (append hp hsep) hrest

/-- A text cut at a delimiter. -/
theorem split {c : Char} (hc : Delimits own c) {a b : Text} (h : Made plain own (a ++ c :: b)) :
    Made plain own a ∧ plain c ∧ Made plain own b := by
  generalize hs : a ++ c :: b = s at h
  induction h generalizing a with
  | nil => simp at hs
  | @char d s hd hmade ih =>
      rcases List.append_eq_cons_iff.mp hs with ⟨rfl, heq⟩ | ⟨a', rfl, heq⟩
      · obtain ⟨rfl, rfl⟩ := List.cons.inj heq
        exact ⟨nil, hd, hmade⟩
      · obtain ⟨ha, hplain, hb⟩ := ih heq.symm
        exact ⟨char hd ha, hplain, hb⟩
  | @piece p s hp hmade ih =>
      rcases List.append_eq_append_iff.mp hs with ⟨q, hpq, heq⟩ | ⟨q, haq, heq⟩
      · cases q with
        | nil =>
            obtain rfl : p = a := by simpa using hpq
            obtain ⟨-, hplain, hb⟩ := ih (a := []) heq
            exact ⟨own_piece hp, hplain, hb⟩
        | cons d q =>
            -- the delimiter would stand inside the piece
            obtain ⟨rfl, -⟩ := List.cons.inj heq
            exact absurd (hpq ▸ by simp) (hc p hp)
      · obtain ⟨ha, hplain, hb⟩ := ih heq.symm
        exact ⟨haq ▸ piece hp ha, hplain, hb⟩

/-- A text cut where its front ends, at a delimiter. -/
theorem cutWhile (f : Char → Bool) (hf : ∀ c, f c = false → Delimits own c) {c : Char} {rest : Text}
    (hdrop : s.dropWhile f = c :: rest) (h : Made plain own s) :
    Made plain own (s.takeWhile f) ∧ plain c ∧ Made plain own rest := by
  have heq := List.takeWhile_append_dropWhile (p := f) (l := s)
  rw [hdrop] at heq
  have hc : f c = false := by simpa [hdrop] using List.head?_dropWhile_not f s
  refine split (hf c hc) ?_
  rw [heq]
  exact h

theorem takeWhile (f : Char → Bool) (hf : ∀ c, f c = false → Delimits own c)
    (h : Made plain own s) : Made plain own (s.takeWhile f) := by
  cases hdrop : s.dropWhile f with
  | nil =>
      have heq := List.takeWhile_append_dropWhile (p := f) (l := s)
      rw [hdrop, List.append_nil] at heq
      exact heq.symm ▸ h
  | cons c rest => exact (cutWhile f hf hdrop h).1

theorem after (f : Char → Bool) (hf : ∀ c, f c = false → Delimits own c) {c : Char} {rest : Text}
    (hdrop : s.dropWhile f = c :: rest) (h : Made plain own s) : Made plain own rest :=
  (cutWhile f hf hdrop h).2.2

theorem tail {c : Char} (hc : Delimits own c) (h : Made plain own (c :: s)) : Made plain own s :=
  (split (a := []) hc h).2.2

theorem dropWhile (f : Char → Bool) (hf : ∀ c, f c = true → Delimits own c)
    (h : Made plain own s) : Made plain own (s.dropWhile f) := by
  induction s with
  | nil => exact nil
  | cons c rest ih =>
      rw [List.dropWhile_cons]
      split
      · rename_i hc
        exact ih (tail (hf c hc) h)
      · exact h

theorem rdropWhile (f : Char → Bool) (hf : ∀ c, f c = true → Delimits own c)
    (h : Made plain own s) : Made plain own (s.rdropWhile f) := by
  induction s using List.reverseRecOn with
  | nil => simpa using h
  | append_singleton front c ih =>
      rw [List.rdropWhile_concat]
      split
      · rename_i hc
        exact ih (split (b := []) (hf c hc) h).1
      · exact h

theorem trim (hspace : ∀ c, isSpace c = true → Delimits own c) (h : Made plain own s) :
    Made plain own (Markdown.trim s) :=
  rdropWhile isSpace hspace (dropWhile isSpace hspace h)

theorem of_join {c : Char} (hc : Delimits own c) {parts : List Text}
    (h : Made plain own (Markdown.join [c] parts)) : ∀ p ∈ parts, Made plain own p := by
  induction parts with
  | nil => simp
  | cons p rest ih =>
      cases rest with
      | nil => simpa [Markdown.join] using h
      | cons q more =>
          rw [Markdown.join, List.intercalate_cons_cons, List.append_assoc] at h
          obtain ⟨hp, -, hrest⟩ := split hc h
          intro r hr
          rcases List.mem_cons.mp hr with rfl | hr
          · exact hp
          · exact ih hrest r hr

/-- A pattern that begins at a delimiter and, on a text put together of `own`, writes markup of
`own'` and leaves such a text. -/
theorem replaceAll {p : Pattern} (hown : own ⊆ own') (hne : ∀ q ∈ own, q ≠ [])
    (hbegin : ∀ {start : Bool} {c : Char} {s : Text}, p.replace start (c :: s) ≠ none →
      Delimits own c)
    (hwrites : ∀ {start : Bool} {s out rest : Text}, Made plain own s →
      p.replace start s = some (out, rest) → Made plain own' out ∧ Made plain own rest)
    (start : Bool) (h : Made plain own s) : Made plain own' (p.replaceAll start s) := by
  induction hlen : s.length using Nat.strong_induction_on generalizing s start with
  | _ n ih =>
      cases hmatch : p.replace start s with
      | some found =>
          obtain ⟨out, rest⟩ := found
          obtain ⟨hout, hrest⟩ := hwrites h hmatch
          have hshorter := p.shorter hmatch
          rw [Pattern.replaceAll_some hmatch]
          exact append hout (ih rest.length (hlen ▸ hshorter) false hrest rfl)
      | none =>
          cases h with
          | nil =>
              rw [Pattern.replaceAll_nil]
              exact nil
          | @char c rest hc hrest =>
              rw [Pattern.replaceAll_none hmatch]
              refine char hc (ih rest.length ?_ false hrest rfl)
              rw [← hlen]
              exact Nat.lt_succ_self _
          | @piece q rest hq hrest =>
              -- no match begins inside a piece
              have hinside : ∀ c ∈ q, ∀ start s, p.replace start (c :: s) = none := by
                intro c hc start s
                by_contra hmatch
                exact hbegin hmatch q hq hc
              obtain ⟨start', heq⟩ := Pattern.replaceAll_append hinside start rest
              rw [heq]
              refine piece (hown hq) (ih rest.length ?_ start' hrest rfl)
              have hpos := List.length_pos_of_ne_nil (hne q hq)
              rw [← hlen, List.length_append]
              omega

end Made

/-! ### What the renderer writes

The tags of each expression, and that each of them keeps a text put together of markup. -/

def entities : List Text := ["&amp;", "&lt;", "&gt;"].map String.toList

def strongTags : List Text := ["<strong>", "</strong>"].map String.toList

def emTags : List Text := ["<em>", "</em>"].map String.toList

/-- What may stand in a text when its links are looked for. -/
def spans : List Text := entities ++ strongTags ++ emTags

def anchorTags : List Text :=
  ["<a href=\"#\" data-guide=\"", "<a href=\"", "\">", "\" target=\"_blank\" rel=\"noopener\">",
    "</a>"].map String.toList

def inlineMarkup : List Text := spans ++ anchorTags ++ ["<code>", "</code>"].map String.toList

def blockTags : List Text :=
  ["<p>", "</p>", "<h1>", "</h1>", "<h2>", "</h2>", "<h3>", "</h3>", "<h4>", "</h4>", "<hr>",
    "<pre><code>", "</code></pre>", "<div class=\"md-tablewrap\"><table>", "</table></div>", "<tr>",
    "</tr>", "<th>", "</th>", "<td>", "</td>", "<ol>", "</ol>", "<ul>", "</ul>", "<li>", "</li>",
    "<blockquote><p>", "</p></blockquote>"].map String.toList

def ownMarkup : List Text := inlineMarkup ++ blockTags

/-- The characters at which the renderer cuts a text. -/
def isDelim (c : Char) : Bool := c ∈ "*[]()|#.".toList || c = '`' || isSpace c

theorem delimits {own : List Text} (hown : own ⊆ spans) {c : Char} (h : isDelim c = true) :
    Delimits own c := by
  have hspans : (spans.all fun p => p.all (!isDelim ·)) = true := by decide +kernel
  intro p hp hc
  have hnot := List.all_eq_true.mp (List.all_eq_true.mp hspans p (hown hp)) c hc
  rw [h] at hnot
  exact absurd hnot (by decide)

section Spans

variable {plain : Char → Prop} {own : List Text} {s : Text}

/-! ### Inline markup

Each expression begins at a delimiter, so it finds its match between pieces that were written
before and writes a piece of its own. -/

theorem starred_made (hown : own ⊆ spans) {inner rest : Text} (h : Made plain own s)
    (hstarred : starred s = some (inner, rest)) : Made plain own inner ∧ Made plain own rest := by
  unfold starred at hstarred
  split at hstarred
  · rename_i c opened
    have hstar : ∀ d, decide (d ≠ '*') = false → Delimits own d := by
      intro d hd
      obtain rfl : d = '*' := by simpa using hd
      exact delimits hown (by decide)
    have hopened := Made.tail (hstar '*' (by decide)) h
    split at hstarred
    · rename_i hc
      split at hstarred
      · rename_i star after hdrop
        obtain ⟨rfl, rfl⟩ := Prod.mk.inj (Option.some.inj hstarred)
        -- the front of the inner text stops at the same star
        have hne : c ≠ '*' := by
          intro heq
          simp [heq] at hc
        have hwhole : (c :: opened).takeWhile (· ≠ '*') = c :: opened.takeWhile (· ≠ '*') := by
          simp [hne]
        have hdropped : (c :: opened).dropWhile (· ≠ '*') = star :: after := by
          simpa [hne] using hdrop
        exact ⟨hwhole ▸ hopened.takeWhile _ hstar, hopened.after _ hstar hdropped⟩
      · simp at hstarred
    · simp at hstarred
  · simp at hstarred

theorem strong_made (start : Bool) (h : Made plain entities s) :
    Made plain (entities ++ strongTags) (strong.replaceAll start s) := by
  have hown : entities ⊆ spans := by decide
  refine Made.replaceAll (by simp) (by decide) ?_ ?_ start h
  · intro start c s hmatch
    have hc : c = '*' := by
      by_contra hc
      refine hmatch ?_
      simp only [strong]
      split
      · rename_i heq
        exact absurd (List.cons.inj heq).1 hc
      · rfl
    exact hc ▸ delimits hown (by decide)
  · intro start s out rest hs hmatch
    have hstar : ∀ d, decide (d ≠ '*') = false → Delimits entities d := by
      intro d hd
      obtain rfl : d = '*' := by simpa using hd
      exact delimits hown (by decide)
    simp only [strong] at hmatch
    split at hmatch
    · rename_i opened
      have hopened := Made.tail (hstar '*' (by decide)) (Made.tail (hstar '*' (by decide)) hs)
      split at hmatch
      · rename_i c inner rest' htake hdrop
        obtain ⟨rfl, rfl⟩ := Prod.mk.inj (Option.some.inj hmatch)
        have hinner : Made _ (entities ++ strongTags) _ :=
          (hopened.takeWhile _ hstar).mono (by simp)
        rw [htake] at hinner
        refine ⟨Made.between ?_ hinner ?_,
          Made.tail (hstar '*' (by decide)) (hopened.after _ hstar hdrop)⟩
        · decide
        · decide
      · simp at hmatch
    · simp at hmatch

theorem em_made (start : Bool) (h : Made plain (entities ++ strongTags) s) :
    Made plain spans (em.replaceAll start s) := by
  have hown : entities ++ strongTags ⊆ spans := by decide
  have hemphasised : ∀ inner, Made plain (entities ++ strongTags) inner →
      Made plain spans (emphasised inner) := by
    intro inner hinner
    exact Made.between (by decide) (hinner.mono hown) (by decide)
  refine Made.replaceAll hown (by decide) ?_ ?_ start h
  · intro start c s hmatch
    by_cases hc : isSpace c = true ∨ c = '('
    · refine delimits hown ?_
      rcases hc with hc | rfl
      · simp [isDelim, hc]
      · decide
    · have hstar : c = '*' := by
        by_contra hstar
        refine hmatch ?_
        have hnone : starred (c :: s) = none := by
          unfold starred
          split
          · rename_i heq
            exact absurd (List.cons.inj heq).1 hstar
          · rfl
        rw [not_or, Bool.not_eq_true] at hc
        simp [em, hnone, hc.1, hc.2]
      exact hstar ▸ delimits hown (by decide)
  · intro start s out rest hs hmatch
    simp only [em] at hmatch
    split at hmatch
    · rename_i inner rest' hfront
      obtain ⟨rfl, rfl⟩ := Prod.mk.inj (Option.some.inj hmatch)
      split at hfront
      · obtain ⟨hinner, hrest⟩ := starred_made hown hs hfront
        exact ⟨hemphasised inner hinner, hrest⟩
      · simp at hfront
    · rename_i c after _
      split at hmatch
      · rename_i hc
        obtain ⟨⟨inner, rest'⟩, hafter, heq⟩ := Option.map_eq_some_iff.mp hmatch
        obtain ⟨rfl, rfl⟩ := Prod.mk.inj heq
        have hdelim : Delimits (entities ++ strongTags) c := by
          refine delimits hown ?_
          rcases (Bool.or_eq_true _ _).mp hc with hc | hc
          · simp [isDelim, hc]
          · obtain rfl : c = '(' := by simpa using hc
            decide
        obtain ⟨-, hplain, hafterMade⟩ := Made.split (a := []) hdelim hs
        obtain ⟨hinner, hrest⟩ := starred_made hown hafterMade hafter
        exact ⟨Made.char hplain (hemphasised inner hinner), hrest⟩
      · simp at hmatch
    · simp at hmatch

theorem anchor_made {text href : Text} (htext : Made plain spans text)
    (hhref : Made plain spans href) :
    Made plain inlineMarkup (anchor text href) := by
  have hown : spans ⊆ inlineMarkup := fun p hp => by simp [inlineMarkup, hp]
  have hpiece : ∀ p ∈ anchorTags, Made plain inlineMarkup p :=
    fun p hp => Made.own_piece (by simp [inlineMarkup, hp])
  have hcloses := hpiece "</a>".toList (by decide)
  have hlink := hpiece "<a href=\"".toList (by decide)
  have htext' := htext.mono hown
  have hhref' := hhref.mono hown
  unfold anchor
  simp only
  split
  · rename_i hguide
    -- the name of the guide is cut off at the dot
    simp only [Bool.and_eq_true, decide_eq_true_eq, beq_iff_eq] at hguide
    have hhref_eq := List.prefix_iff_eq_append.mp (List.take_prefix (href.length - 3) href)
    rw [hguide.2] at hhref_eq
    have hdot : Delimits spans '.' := delimits (List.Subset.refl _) (by decide)
    have hname := (Made.split (b := "md".toList) hdot (hhref_eq.symm ▸ hhref)).1.mono hown
    exact (((hpiece _ (by decide)).append hname).append (hpiece _ (by decide))).append htext'
      |>.append hcloses
  · split
    · exact ((hlink.append hhref').append (hpiece _ (by decide))).append htext' |>.append hcloses
    · exact ((hlink.append hhref').append (hpiece _ (by decide))).append htext' |>.append hcloses

theorem link_made (start : Bool) (h : Made plain spans s) :
    Made plain inlineMarkup (link.replaceAll start s) := by
  have hbracket : ∀ d, decide (d ≠ ']') = false → Delimits spans d := by
    intro d hd
    obtain rfl : d = ']' := by simpa using hd
    exact delimits (List.Subset.refl _) (by decide)
  have hparen : ∀ d, (decide (d ≠ ')') && !isSpace d) = false → Delimits spans d := by
    intro d hd
    refine delimits (List.Subset.refl _) ?_
    by_cases hspace : isSpace d = true
    · simp [isDelim, hspace]
    · obtain rfl : d = ')' := by simpa [hspace] using hd
      decide
  have hopen : Delimits spans '[' := delimits (List.Subset.refl _) (by decide)
  have hround : Delimits spans '(' := delimits (List.Subset.refl _) (by decide)
  refine Made.replaceAll (fun p hp => by simp [inlineMarkup, hp]) (by decide) ?_ ?_ start h
  · intro start c s hmatch
    have hc : c = '[' := by
      by_contra hc
      refine hmatch ?_
      simp only [link]
      split
      · rename_i heq
        exact absurd (List.cons.inj heq).1 hc
      · rfl
    exact hc ▸ hopen
  · intro start s out rest hs hmatch
    simp only [link] at hmatch
    split at hmatch
    · rename_i opened
      have hopened := Made.tail hopen hs
      split at hmatch
      · rename_i c text target htake hdrop
        have htext := hopened.takeWhile _ hbracket
        rw [htake] at htext
        have htarget := Made.tail hround (hopened.after _ hbracket hdrop)
        split at hmatch
        · rename_i d href rest' htake' hdrop'
          obtain ⟨rfl, rfl⟩ := Prod.mk.inj (Option.some.inj hmatch)
          have hhref := htarget.takeWhile _ hparen
          rw [htake'] at hhref
          exact ⟨anchor_made htext hhref, htarget.after _ hparen hdrop'⟩
        · simp at hmatch
      · simp at hmatch
    · simp at hmatch

theorem mdPart_made (h : Made plain entities s) : Made plain inlineMarkup (mdPart s) := by
  have hown : entities ⊆ inlineMarkup := by decide
  unfold mdPart
  split
  · rename_i hcode
    have htick : Delimits entities '`' := delimits (by decide) (by decide)
    simp only [Bool.and_eq_true, decide_eq_true_eq] at hcode
    obtain ⟨⟨hfirst, hlast⟩, hlen⟩ := hcode
    obtain ⟨rest, rfl⟩ := List.head?_eq_some_iff.mp hfirst
    -- the span without its two backquotes
    have hrest : rest ≠ [] := by
      rintro rfl
      simp at hlen
    have hlast' : rest.getLast hrest = '`' := by
      simpa [List.getLast?_cons, List.getLast?_eq_some_getLast hrest] using hlast
    have hinner := List.dropLast_append_getLast hrest
    rw [hlast'] at hinner
    have hmade := Made.split (b := []) htick (hinner.symm ▸ Made.tail htick h)
    exact Made.between (by decide) (hmade.1.mono hown) (by decide)
  · exact link_made true (em_made true (strong_made true h))

theorem splitCode_made (h : Made plain entities s) :
    ∀ part ∈ splitCode s, Made plain entities part := by
  have htick : ∀ d, decide (d ≠ '`') = false → Delimits entities d := by
    intro d hd
    obtain rfl : d = '`' := by simpa using hd
    exact delimits (by decide) (by decide)
  fun_induction splitCode s with
  | case1 s =>
      intro part hpart
      exact List.mem_singleton.mp hpart ▸ h
  | case2 s =>
      intro part hpart
      exact List.mem_singleton.mp hpart ▸ h
  | case3 s tick opened hfirst tick' rest hsecond ih =>
      obtain ⟨hbefore, hplain, hopened⟩ := h.cutWhile _ htick hfirst
      obtain ⟨hinner, hplain', hrest⟩ := hopened.cutWhile _ htick hsecond
      intro part hpart
      rcases List.mem_cons.mp hpart with rfl | hpart
      · exact hbefore
      rcases List.mem_cons.mp hpart with rfl | hpart
      · exact Made.char hplain (hinner.append (Made.char hplain' Made.nil))
      · exact ih hrest part hpart

theorem mdInline_made (h : Made plain entities s) : Made plain ownMarkup (mdInline s) := by
  unfold mdInline
  apply Made.flatMap
  intro part hpart
  exact (mdPart_made (splitCode_made h part hpart)).mono (List.subset_append_left _ _)

end Spans

/-! ### The blocks

Each block is made of inline text and of its own tags. -/

/-- A character of the source that the renderer writes as it is. -/
def Unescaped (of : Char → Prop) (c : Char) : Prop := of c ∧ c ≠ '<' ∧ c ≠ '>' ∧ c ≠ '&'

theorem delimits_of_isSpace : ∀ c, isSpace c = true → Delimits entities c :=
  fun c hc => delimits (by decide) (by simp [isDelim, hc])

section Blocks

variable {of : Char → Prop}

/-- The blank that joins the lines of a block. -/
theorem blank_made (hjoint : of ' ') : Made (Unescaped of) entities [' '] :=
  Made.of_plain (by simpa [Unescaped] using hjoint)

theorem mdEscape_made {s : Text} (hs : ∀ c ∈ s, of c) :
    Made (Unescaped of) entities (mdEscape s) := by
  induction s with
  | nil => exact Made.nil
  | cons c rest ih =>
      have hrest := ih fun d hd => hs d (List.mem_cons_of_mem _ hd)
      have hstep : mdEscape (c :: rest) = mdEscape [c] ++ mdEscape rest := by
        simp only [mdEscape, replaceChar, List.flatMap_cons, List.flatMap_nil, List.append_nil,
          List.flatMap_append]
      have hof := hs c List.mem_cons_self
      rw [hstep]
      refine Made.append ?_ hrest
      by_cases hamp : c = '&'
      · subst hamp
        exact Made.own_piece (by decide)
      by_cases hlt : c = '<'
      · subst hlt
        exact Made.own_piece (by decide)
      by_cases hgt : c = '>'
      · subst hgt
        exact Made.own_piece (by decide)
      · have hkept : mdEscape [c] = [c] := by simp [mdEscape, replaceChar, hamp, hlt, hgt]
        have hplain : Unescaped of c := ⟨hof, hlt, hgt, hamp⟩
        rw [hkept]
        exact Made.char hplain Made.nil

theorem trim_subset {raw : Text} : trim raw ⊆ raw := by
  intro c hc
  have hback := List.mem_reverse.mp ((List.dropWhile_subset _) (List.mem_reverse.mp hc))
  exact List.dropWhile_subset _ hback

theorem unquote_subset {raw : Text} : unquote raw ⊆ raw := by
  unfold unquote
  split
  · split
    · intro c hc
      exact List.mem_cons_of_mem _ (List.mem_cons_of_mem _ hc)
    · exact List.subset_cons_self _ _
  · exact List.nil_subset _
  · exact List.Subset.refl _

theorem fenced_made {code : List Text} (hsep : of '\n') (hcode : ∀ l ∈ code, ∀ c ∈ l, of c) :
    Made (Unescaped of) ownMarkup (fenced code) := by
  have hnewline : Made (Unescaped of) ownMarkup ['\n'] :=
    Made.of_plain (by simpa [Unescaped] using hsep)
  refine Made.between (by decide) (Made.join hnewline fun p hp => ?_) (by decide)
  obtain ⟨l, hl, rfl⟩ := List.mem_map.mp hp
  exact (mdEscape_made (hcode l hl)).mono (by decide)

theorem headed_made {line text : Text} {level : Nat} (h : heading line = some (level, text))
    (hline : Made (Unescaped of) entities line) :
    Made (Unescaped of) ownMarkup (headed level text) := by
  unfold heading at h
  simp only at h
  split at h
  · rename_i hlevel
    obtain ⟨rfl, rfl⟩ := Prod.mk.inj (Option.some.inj h)
    simp only [Bool.and_eq_true, decide_eq_true_eq] at hlevel
    obtain ⟨⟨⟨hone, hfour⟩, -⟩, -⟩ := hlevel
    have hdrop := @List.drop_left _ (line.takeWhile (· = '#')) (line.dropWhile (· = '#'))
    rw [List.takeWhile_append_dropWhile] at hdrop
    have hhash : ∀ c, decide (c = '#') = true → Delimits entities c := by
      intro c hc
      obtain rfl : c = '#' := by simpa using hc
      exact delimits (by decide) (by decide)
    have htext := Made.dropWhile isSpace delimits_of_isSpace (Made.dropWhile _ hhash hline)
    rw [← hdrop] at htext
    have htags : ∀ n ∈ [1, 2, 3, 4],
        "<h".toList ++ Nat.toDigits 10 n ++ ">".toList ∈ ownMarkup ∧
          "</h".toList ++ Nat.toDigits 10 n ++ ">".toList ∈ ownMarkup := by
      decide +kernel
    have hlevel : (line.takeWhile (· = '#')).length ∈ [1, 2, 3, 4] := by
      simp only [List.mem_cons, List.not_mem_nil, or_false]
      omega
    obtain ⟨hopens, hcloses⟩ := htags _ hlevel
    have hmade := Made.between hopens (mdInline_made htext) hcloses
    simpa [headed, List.append_assoc] using hmade
  · simp at h

theorem dropLastBar_eq (s : Text) :
    dropLastBar s = s ∨ ∃ t, s = dropLastBar s ++ '|' :: t := by
  induction s with
  | nil => exact .inl rfl
  | cons c rest ih =>
      unfold dropLastBar
      split
      · rename_i hbar
        obtain ⟨rfl, -⟩ : c = '|' ∧
          _ := by simpa only [Bool.and_eq_true, decide_eq_true_eq] using hbar
        exact .inr ⟨rest, rfl⟩
      · rcases ih with heq | ⟨t, heq⟩
        · exact .inl (by rw [heq])
        · exact .inr ⟨t, by rw [List.cons_append, ← heq]⟩

theorem cells_made {raw : Text} (hraw : ∀ c ∈ raw, of c) :
    ∀ cell ∈ cells raw, Made (Unescaped of) entities cell := by
  have hbar : Delimits entities '|' := delimits (by decide) (by decide)
  have hopened : Made (Unescaped of) entities
      (if (mdEscape raw).head? = some '|' then (mdEscape raw).tail else mdEscape raw) := by
    have hescaped := mdEscape_made hraw
    split
    · rename_i hhead
      obtain ⟨rest, hrest⟩ := List.head?_eq_some_iff.mp hhead
      rw [hrest] at hescaped ⊢
      exact Made.tail hbar hescaped
    · exact hescaped
  intro cell hcell
  obtain ⟨part, hpart, rfl⟩ := List.mem_map.mp hcell
  refine Made.trim delimits_of_isSpace (Made.of_join hbar ?_ part hpart)
  rw [join, List.intercalate_splitOn]
  rcases dropLastBar_eq
    (if (mdEscape raw).head? = some '|' then (mdEscape raw).tail else mdEscape raw)
    with heq | ⟨t, heq⟩
  · exact heq.symm ▸ hopened
  · rw [heq] at hopened
    exact (Made.split hbar hopened).1

theorem row_made (head : Bool) {line : List Text}
    (hline : ∀ cell ∈ line, Made (Unescaped of) entities cell) :
    Made (Unescaped of) ownMarkup (row (if head then "th" else "td") line) := by
  unfold row
  refine Made.between (by decide) (Made.flatMap fun cell hcell => ?_) (by decide)
  have htags : ∀ head : Bool,
      "<".toList ++ (if head then "th" else "td").toList ++ ">".toList ∈ ownMarkup ∧
        "</".toList ++ (if head then "th" else "td").toList ++ ">".toList ∈ ownMarkup := by
    decide +kernel
  obtain ⟨hopens, hcloses⟩ := htags head
  have hmade := Made.between hopens (mdInline_made (hline cell hcell)) hcloses
  simpa only [List.append_assoc] using hmade

theorem table_made {rows : List (List Text)}
    (hrows : ∀ line ∈ rows, ∀ cell ∈ line, Made (Unescaped of) entities cell) :
    Made (Unescaped of) ownMarkup (table rows) := by
  have hbody : ∀ lines ⊆ rows, Made (Unescaped of) ownMarkup (lines.flatMap (row "td")) := by
    intro lines hlines
    apply Made.flatMap
    intro line hline
    exact row_made false (hrows line (hlines hline))
  unfold table
  refine Made.between (by decide) ?_ (by decide)
  split
  · rename_i first second rest
    split
    · refine (row_made true (hrows first List.mem_cons_self)).append (hbody rest ?_)
      exact fun line hline => List.mem_cons_of_mem _ (List.mem_cons_of_mem _ hline)
    · exact hbody _ (List.Subset.refl _)
  · exact hbody _ (List.Subset.refl _)

theorem marker_subset {raw rest : Text} {ordered : Bool} (h : marker raw = some (ordered, rest)) :
    rest ⊆ raw := by
  have hline := List.dropWhile_subset (p := isSpace) (l := raw)
  have hafter := List.Subset.trans
    (List.drop_subset ((raw.dropWhile isSpace).takeWhile Char.isDigit).length
      (raw.dropWhile isSpace))
    hline
  unfold marker at h
  obtain ⟨hfound, -⟩ := Option.filter_eq_some_iff.mp h
  split at hfound
  · rename_i c rest' _ hafter'
    split at hfound
    · obtain ⟨-, rfl⟩ := Prod.mk.inj (Option.some.inj hfound)
      exact fun d hd => hafter (hafter' ▸ List.mem_cons_of_mem _ hd)
    · simp at hfound
  · rename_i hafter'
    obtain ⟨-, rfl⟩ := Prod.mk.inj (Option.some.inj hfound)
    exact fun d hd => hafter (hafter' ▸ List.mem_cons_of_mem _ hd)
  · simp at hfound

theorem item_subset {raw text : Text} {ordered : Bool} (h : item raw = some (ordered, text)) :
    text ⊆ raw := by
  obtain ⟨⟨ordered', rest⟩, hmarker, htext⟩ := Option.bind_eq_some_iff.mp h
  simp only at htext
  split at htext
  · simp at htext
  · obtain ⟨-, rfl⟩ := Prod.mk.inj (Option.some.inj htext)
    exact List.Subset.trans (List.dropWhile_subset _) (marker_subset hmarker)

/-- The lines that continue an item are joined to it by a blank. -/
theorem joined_of {text : Text} {more : List Text} (hjoint : of ' ') (htext : ∀ c ∈ text, of c)
    (hmore : ∀ l ∈ more, ∀ c ∈ l, of c) :
    ∀ c ∈ more.foldl (fun text line => text ++ ' ' :: trim line) text, of c := by
  induction more generalizing text with
  | nil => exact htext
  | cons line more ih =>
      refine ih ?_ fun l hl => hmore l (List.mem_cons_of_mem _ hl)
      intro c hc
      rcases List.mem_append.mp hc with hc | hc
      · exact htext c hc
      rcases List.mem_cons.mp hc with rfl | hc
      · exact hjoint
      · exact hmore line List.mem_cons_self c (trim_subset hc)

/-! ### Lists, quotes and paragraphs

Blocks of several lines join them by a blank or a line break, the only characters that the
renderer adds. -/

theorem items_made {ordered : Bool} {lines : List Text} (hjoint : of ' ')
    (hlines : ∀ l ∈ lines, ∀ c ∈ l, of c) :
    ∀ entry ∈ (items ordered lines).1, Made (Unescaped of) ownMarkup entry := by
  fun_induction items ordered lines with
  | case1 => simp
  | case2 => simp
  | case3 => simp
  | case4 raw rest ordered' text hitem _ more whole after ih =>
      have hrest : ∀ l ∈ rest, ∀ c ∈ l, of c := fun l hl => hlines l (List.mem_cons_of_mem _ hl)
      have htext : ∀ c ∈ text, of c :=
        fun c hc => hlines raw List.mem_cons_self c (item_subset hitem hc)
      have hwhole : ∀ c ∈ whole, of c :=
        joined_of hjoint htext fun l hl => hrest l (List.takeWhile_subset _ hl)
      intro entry hentry
      rcases List.mem_cons.mp hentry with rfl | hentry
      · exact Made.between (by decide) (mdInline_made (mdEscape_made hwhole)) (by decide)
      · exact ih (fun l hl => hrest l (List.dropWhile_subset _ hl)) entry hentry

theorem listed_made {ordered : Bool} {entries : List Text}
    (hentries : ∀ entry ∈ entries, Made (Unescaped of) ownMarkup entry) :
    Made (Unescaped of) ownMarkup (listed ordered entries) := by
  have hbody := Made.flatten hentries
  unfold listed
  split
  · exact Made.between (by decide) hbody (by decide)
  · exact Made.between (by decide) hbody (by decide)

theorem quoted_made {lines : List Text} (hjoint : of ' ') (hlines : ∀ l ∈ lines, ∀ c ∈ l, of c) :
    Made (Unescaped of) ownMarkup (quoted lines) := by
  have hinside : Made (Unescaped of) entities
      (join [' '] (lines.map fun l => mdEscape (unquote l))) := by
    apply Made.join (blank_made hjoint)
    intro p hp
    obtain ⟨l, hl, rfl⟩ := List.mem_map.mp hp
    exact mdEscape_made fun c hc => hlines l hl c (unquote_subset hc)
  exact Made.between (by decide) (mdInline_made hinside) (by decide)

theorem flushPara_made {para : List Text} (hjoint : of ' ')
    (hpara : ∀ l ∈ para, Made (Unescaped of) entities l) :
    ∀ html ∈ flushPara para, Made (Unescaped of) ownMarkup html := by
  intro html hhtml
  unfold flushPara at hhtml
  split at hhtml
  · simp at hhtml
  · rw [List.mem_singleton.mp hhtml]
    exact Made.between (by decide) (mdInline_made (Made.join (blank_made hjoint) hpara)) (by decide)

theorem turn_made {raw html : Text} {rest after : List Text} (hjoint : of ' ') (hnewline : of '\n')
    (hlines : ∀ l ∈ raw :: rest, ∀ c ∈ l, of c) (h : turn raw rest = .block html after) :
    Made (Unescaped of) ownMarkup html := by
  have hraw := hlines raw List.mem_cons_self
  obtain ⟨hhtml, -⟩ := turn_block h
  rcases hhtml with ⟨code, hcode, rfl⟩ | ⟨level, text, hheading, rfl⟩ | rfl | ⟨rows, hrows, rfl⟩ |
    ⟨ordered, rfl⟩ | ⟨lines, hquoted, rfl⟩
  · exact fenced_made hnewline fun l hl => hlines l (List.mem_cons_of_mem _ (hcode hl))
  · exact headed_made hheading (mdEscape_made hraw)
  · exact Made.own_piece (by decide)
  · refine table_made fun line hline => ?_
    obtain ⟨l, hl, rfl⟩ := List.mem_map.mp hline
    exact cells_made (hlines l (hrows hl))
  · exact listed_made (items_made hjoint hlines)
  · exact quoted_made hjoint fun l hl => hlines l (hquoted hl)

theorem blocks_made {para lines : List Text} (hjoint : of ' ') (hnewline : of '\n')
    (hpara : ∀ l ∈ para, Made (Unescaped of) entities l) (hlines : ∀ l ∈ lines, ∀ c ∈ l, of c) :
    ∀ html ∈ blocks para lines, Made (Unescaped of) ownMarkup html := by
  fun_induction blocks para lines with
  | case1 para => exact flushPara_made hjoint hpara
  | case2 para raw rest out after hturn ih =>
      have hafter : ∀ l ∈ after, ∀ c ∈ l, of c :=
        fun l hl => hlines l (List.mem_cons_of_mem _ ((turn_block hturn).2.subset hl))
      intro html hhtml
      rcases List.mem_append.mp hhtml with hhtml | hhtml
      · exact flushPara_made hjoint hpara html hhtml
      rcases List.mem_cons.mp hhtml with rfl | hhtml
      · exact turn_made hjoint hnewline hlines hturn
      · exact ih (by simp) hafter html hhtml
  | case3 para raw rest hturn ih =>
      intro html hhtml
      rcases List.mem_append.mp hhtml with hhtml | hhtml
      · exact flushPara_made hjoint hpara html hhtml
      · exact ih (by simp) (fun l hl => hlines l (List.mem_cons_of_mem _ hl)) html hhtml
  | case4 para raw rest line hturn ih =>
      refine ih ?_ fun l hl => hlines l (List.mem_cons_of_mem _ hl)
      have hline : line = mdEscape raw := turn_para hturn
      intro l hl
      rcases List.mem_append.mp hl with hl | hl
      · exact hpara l hl
      · rw [List.mem_singleton.mp hl, hline]
        exact mdEscape_made (hlines raw List.mem_cons_self)

end Blocks

theorem mem_splitLines {src line : Text} (h : line ∈ splitLines src) : line ⊆ src := by
  fun_induction splitLines src generalizing line with
  | case1 => simp_all
  | case2 rest ih =>
      rcases List.mem_cons.mp h with rfl | h
      · exact List.nil_subset _
      · exact fun c hc => List.mem_cons_of_mem _ (List.mem_cons_of_mem _ (ih h hc))
  | case3 rest _ ih =>
      rcases List.mem_cons.mp h with rfl | h
      · exact List.nil_subset _
      · exact fun c hc => List.mem_cons_of_mem _ (ih h hc)
  | case4 c rest _ _ hlines ih =>
      rw [List.mem_singleton.mp h]
      exact List.cons_subset_cons _ (List.nil_subset _)
  | case5 c rest _ _ first more hlines ih =>
      rcases List.mem_cons.mp h with rfl | h
      · exact List.cons_subset_cons _ (ih (hlines ▸ List.mem_cons_self))
      · exact fun d hd => List.mem_cons_of_mem _ (ih (hlines ▸ List.mem_cons_of_mem _ h) hd)

/-- The renderer lets no tag of the source's through.  Whatever the guide says, the page is put
together of the renderer's own tags, of entities and of single characters; and such a character
is one of the source's other than `<`, `>` and `&`, or a blank or a line break that joins two
lines.  (A quote is such a character: one in a link's target ends the `href` there.) -/
theorem renderMarkdown_made (src : Text) :
    Made (Unescaped fun c => c ∈ src ∨ c = ' ' ∨ c = '\n') ownMarkup (renderMarkdown src) := by
  have hnewline : Made (Unescaped fun c => c ∈ src ∨ c = ' ' ∨ c = '\n') ownMarkup ['\n'] :=
    Made.of_plain (by simp [Unescaped])
  refine Made.join hnewline (blocks_made (by simp) (by simp) (by simp) ?_)
  exact fun l hl c hc => .inl (mem_splitLines hl hc)

end Quicgate.Markdown
