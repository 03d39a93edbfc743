import Mathlib.Data.List.Sort
import Quicgate.CacheControl

/-!
# The content codings in a cache key

`sharedCacheable`, `cacheKey` and `normalizeAcceptEncoding` (`internal/engine/cache.go`): the
key of a stored response names the content codings that the request accepts, so that a coded
body is replayed only to clients that accept it.

`Request.accepts` reads the header as it is meant: every line of it, a weight of zero as a
refusal, and `*` for the codings that are not named.  The key keeps the names of the first
line that are not refused, and nothing of what is.

`mayShare_iff_keepsRefusals` says which requests of one key may share a response, and
`refused_coding_is_shared` are two that may not.
-/

namespace Quicgate.AcceptEncoding

open Quicgate.GoStrings Quicgate.CacheControl

/-! ### What the code reads

The loop over the parts of the first line, and the sorted codings it collects. -/

/-- `strconv.ParseFloat` gives zero, for a text of digits and a point. -/
def parsesAsZero (q : List Char) : Bool :=
  q.all (fun c => c == '0' || c == '.') && q.contains '0' && decide (q.count '.' ≤ 1)

def cutWeight : List Char → Option (List Char)
  | 'q' :: '=' :: q => some q
  | _ => none

/-- The body of the loop of `normalizeAcceptEncoding`: the coding of a part, unless it is
empty or explicitly refused. -/
def readCoding (table : CaseTable) (part : List Char) : Option (List Char) :=
  match cut ';' part with
  | (coding, params, _) =>
      let coding := lower table (trimSpace coding)
      if coding = [] then none
      else
        match cutWeight ((lower table params).filter (· ≠ ' ')) with
        | some q => if parsesAsZero q then none else some coding
        | none => some coding

/-- The codings that the loop collects, each once. -/
def collect (codings : List (List Char)) (coding : List Char) : List (List Char) :=
  if coding ∈ codings then codings else codings ++ [coding]

def lexLe : List Char → List Char → Bool
  | [], _ => true
  | _ :: _, [] => false
  | a :: s, b :: t => decide (a.toNat < b.toNat) || (a == b && lexLe s t)

def normalizeAcceptEncoding (table : CaseTable) (v : List Char) : List Char :=
  let codings := ((v.splitOn ',').filterMap (readCoding table)).foldl collect []
  [','].intercalate (codings.insertionSort fun a b => lexLe a b = true)

/-! ### Requests

A request is what the server parsed, with its `Accept-Encoding` lines as their entries spell
them. -/

/-- A weight: zero, or up to one, with at most three digits after the point. -/
def isQvalue : List Char → Bool
  | ['0'] => true
  | ['1'] => true
  | '0' :: '.' :: digits => decide (digits.length ≤ 3) && digits.all Char.isDigit
  | '1' :: '.' :: digits => decide (digits.length ≤ 3) && digits.all (· == '0')
  | _ => false

structure Weight where
  before : List Char -- the blanks after the semicolon
  capital : Bool
  value : List Char
  blanks : before.all isBlank = true
  valid : isQvalue value = true

structure Entry where
  name : List Char
  gap : List Char -- the blanks before the semicolon
  weight : Option Weight
  nonempty : name ≠ []
  token : name.all isTokenChar = true
  blanks : gap.all isBlank = true

structure Element where
  before : List Char
  entry : Option Entry
  after : List Char
  blanks : before.all isBlank = true ∧ after.all isBlank = true

def Weight.text (w : Weight) : List Char :=
  ';' :: (w.before ++ (if w.capital then 'Q' else 'q') :: '=' :: w.value)

def Entry.text (e : Entry) : List Char :=
  match e.weight with
  | none => e.name
  | some w => e.name ++ e.gap ++ w.text

def Element.text (e : Element) : List Char :=
  match e.entry with
  | none => e.before ++ e.after
  | some entry => e.before ++ entry.text ++ e.after

/-- `requestAuth`, what the cache reads of it. -/
structure RequestAuth where
  hadAuthorization : Bool
  identified : Bool

structure Request where
  method : List Char
  host : List Char
  requestURI : List Char
  acceptEncoding : List (List Element) -- the lines of the header
  authorization : List Char
  cookie : List Char
  peerCertificates : Nat
  auth : Option RequestAuth

def sharedCacheable (r : Request) : Bool :=
  if r.method ≠ "GET".toList ∧ r.method ≠ "HEAD".toList then false
  else if r.authorization ≠ [] ∨ r.cookie ≠ [] then false
  else if 0 < r.peerCertificates then false
  else !r.auth.any fun ra => ra.hadAuthorization || ra.identified

/-- `r.Header.Get("Accept-Encoding")`, the first line of it. -/
def Request.getAcceptEncoding (r : Request) : List Char :=
  match r.acceptEncoding with
  | [] => []
  | line :: _ => [','].intercalate (line.map Element.text)

def cacheKey (table : CaseTable) (r : Request) : List Char :=
  r.method ++ ' ' :: (lower table r.host ++ ' ' :: (r.requestURI ++ ' ' :: 'a' :: 'e' :: '=' ::
    normalizeAcceptEncoding table r.getAcceptEncoding))

/-! ### What a request accepts

The meaning of the header, line by line and entry by entry. -/

/-- The coding a line names, without regard to case. -/
def Entry.coding (e : Entry) : List Char := e.name.map Char.toLower

def Entry.isRefusal (e : Entry) : Bool :=
  e.weight.any fun w => w.value.all fun c => c == '0' || c == '.'

def Request.entries (r : Request) : List Entry := r.acceptEncoding.flatten.filterMap Element.entry

def star : List Char := ['*']
def identity : List Char := "identity".toList

/-- The header names the coding and does not refuse it. -/
def Request.wants (r : Request) (coding : List Char) : Bool :=
  r.entries.any fun e => e.coding == coding && !e.isRefusal

/-- The header names the coding, with no weight but zero. -/
def Request.refuses (r : Request) (coding : List Char) : Bool :=
  r.entries.any (fun e => e.coding == coding) && !r.wants coding

/-- A content coding is acceptable: to a request without the header, any; else one that is
named and not refused, one that is not named where `*` is wanted, and the identity where
neither it nor `*` is refused. -/
def Request.accepts (r : Request) (coding : List Char) : Bool :=
  r.acceptEncoding.isEmpty || r.wants coding ||
    (!r.refuses coding && (r.wants star || (coding == identity && !r.refuses star)))

/-- A refusal is written without a tab after its semicolon. -/
def Element.spelledPlainly (el : Element) : Bool :=
  match el.entry with
  | none => true
  | some e => !e.isRefusal || (!(e.weight.any fun w => w.before.contains '\t') &&
      !el.after.contains '\t')

/-- At most one line, without tabs in its refusals. -/
structure Request.Plain (r : Request) : Prop where
  oneLine : r.acceptEncoding.length ≤ 1
  spelled : r.acceptEncoding.flatten.all Element.spelledPlainly = true

/-- What the first request accepts the second accepts, so that the second may be answered with
a response that was stored for the first. -/
def MayShare (r1 r2 : Request) : Prop :=
  ∀ coding, coding ≠ star → r1.accepts coding = true → r2.accepts coding = true

/-! ### The codings of a line

What the code makes of an entry is its coding, in lower case, unless it is refused. -/

section Line

variable {table : CaseTable} {c : Char}

theorem isQvalue_chars {v : List Char} (h : isQvalue v = true) :
    ∀ c ∈ v, c.isDigit = true ∨ c = '.' := by
  have hzero : ∀ digits : List Char, digits.all (· == '0') = true → ∀ c ∈ digits,
      c.isDigit = true := by
    intro digits hall c hc
    have hc0 : c = '0' := by simpa using List.all_eq_true.mp hall c hc
    rw [hc0]
    rfl
  unfold isQvalue at h
  split at h
  · intro c hc
    obtain rfl := List.mem_singleton.mp hc
    exact Or.inl rfl
  · intro c hc
    obtain rfl := List.mem_singleton.mp hc
    exact Or.inl rfl
  · intro c hc
    obtain ⟨-, hdigits⟩ := Bool.and_eq_true_iff.mp h
    rcases List.mem_cons.mp hc with rfl | hc
    · exact Or.inl rfl
    · rcases List.mem_cons.mp hc with rfl | hc
      · exact Or.inr rfl
      · exact Or.inl (List.all_eq_true.mp hdigits c hc)
  · intro c hc
    obtain ⟨-, hdigits⟩ := Bool.and_eq_true_iff.mp h
    rcases List.mem_cons.mp hc with rfl | hc
    · exact Or.inl rfl
    · rcases List.mem_cons.mp hc with rfl | hc
      · exact Or.inr rfl
      · exact Or.inl (hzero _ hdigits c hc)
  · cases h

/-- A weight is zero where it is written with zeros. -/
theorem parsesAsZero_of_isQvalue {v : List Char} (h : isQvalue v = true)
    (hzeros : v.all (fun c => c == '0' || c == '.') = true) : parsesAsZero v = true := by
  have hpoint : ∀ digits : List Char, digits.all Char.isDigit = true → digits.count '.' = 0 := by
    intro digits hall
    apply List.count_eq_zero.mpr
    intro hmem
    exact absurd (List.all_eq_true.mp hall '.' hmem) (by decide)
  unfold parsesAsZero
  rw [hzeros]
  unfold isQvalue at h
  split at h
  · rfl
  · cases hzeros
  · obtain ⟨-, hdigits⟩ := Bool.and_eq_true_iff.mp h
    simp [hpoint _ hdigits]
  · cases hzeros
  · cases h

theorem parsesAsZero_append {v rest : List Char}
    (h : v.all (fun c => c == '0' || c == '.') = false) : parsesAsZero (v ++ rest) = false := by
  rw [parsesAsZero, List.all_append, h]
  rfl

theorem filter_blanks {s : List Char} (hs : s.all isBlank = true) :
    s.filter (· ≠ ' ') = List.replicate (s.count '\t') '\t' := by
  induction s with
  | nil => rfl
  | cons c s ih =>
      obtain ⟨hc, hs⟩ := Bool.and_eq_true_iff.mp hs
      have hblank : c = ' ' ∨ c = '\t' := by simpa [isBlank] using hc
      rcases hblank with rfl | rfl
      · simpa using ih hs
      · rw [List.filter_cons_of_pos (by decide), ih hs, List.count_cons_self, List.replicate_succ]

variable (table) in
theorem lower_isQvalue {v : List Char} (h : isQvalue v = true) :
    lower table v = v ∧ ' ' ∉ v ∧ ',' ∉ v := by
  have hchars := isQvalue_chars h
  have hascii : ∀ c ∈ v, c.toNat < 128 ∧ c.toLower = c := by
    intro c hc
    rcases hchars c hc with hdigit | rfl
    · exact ⟨(plain_of_isDigit hdigit).ascii, toLower_of_isDigit hdigit⟩
    · exact ⟨by decide, rfl⟩
  refine ⟨?_, ?_, ?_⟩
  · rw [lower_of_ascii fun c hc => (hascii c hc).1]
    conv_rhs => rw [← List.map_id v]
    apply List.map_congr_left
    intro c hc
    exact (hascii c hc).2
  · intro hc
    rcases hchars ' ' hc with hdigit | heq
    · exact absurd hdigit (by decide)
    · cases heq
  · intro hc
    rcases hchars ',' hc with hdigit | heq
    · exact absurd hdigit (by decide)
    · cases heq

/-- A name is ASCII, without blanks and separators. -/
theorem Entry.name_plain (e : Entry) : ∀ c ∈ e.name, Plain c := fun c hc =>
  plain_of_isTokenChar (List.all_eq_true.mp e.token c hc)

theorem Entry.name_separators (e : Entry) :
    (∀ c ∈ e.name, isSpace c = false) ∧ ';' ∉ e.name ∧ ',' ∉ e.name := by
  have hall : ∀ n < 128, isTokenChar (Char.ofNat n) = true → isSpace (Char.ofNat n) = false := by
    decide
  refine ⟨?_, ?_, ?_⟩
  · intro c hc
    have htoken := List.all_eq_true.mp e.token c hc
    simpa using hall c.toNat (lt_of_isTokenChar htoken) (by simpa using htoken)
  · intro hc
    exact (e.name_plain ';' hc).semicolon rfl
  · intro hc
    exact (e.name_plain ',' hc).comma rfl

theorem Entry.lower_name (e : Entry) : lower table e.name = e.coding :=
  lower_of_ascii fun c hc => (e.name_plain c hc).ascii

theorem Entry.coding_ne_nil (e : Entry) : e.coding ≠ [] := by
  unfold Entry.coding
  simp [e.nonempty]

variable (table) in
/-- The weight of an element as the code reads it. -/
theorem cutWeight_weight (w : Weight) {after : List Char} (hafter : after.all isBlank = true)
    (hplain : (w.value.all fun c => c == '0' || c == '.') = true →
      '\t' ∉ w.before ∧ '\t' ∉ after) :
    (match cutWeight ((lower table (w.before ++ (if w.capital then 'Q' else 'q') :: '=' ::
        (w.value ++ after))).filter (· ≠ ' ')) with
      | some q => parsesAsZero q
      | none => false) = w.value.all fun c => c == '0' || c == '.' := by
  obtain ⟨hvalue, hspace, -⟩ := lower_isQvalue table w.valid
  have hsign : ∀ s, lower table ((if w.capital then 'Q' else 'q') :: '=' :: s) =
      'q' :: '=' :: lower table s := by
    intro s
    cases w.capital <;> simp [lower_eq_map]
  have hkeep : w.value.filter (· ≠ ' ') = w.value := by
    apply List.filter_eq_self.mpr
    intro c hc
    have hne : c ≠ ' ' := fun heq => hspace (heq ▸ hc)
    simpa using hne
  have hparams : (lower table (w.before ++ (if w.capital then 'Q' else 'q') :: '=' ::
      (w.value ++ after))).filter (· ≠ ' ') =
        List.replicate (w.before.count '\t') '\t' ++ 'q' :: '=' ::
          (w.value ++ List.replicate (after.count '\t') '\t') := by
    rw [lower_append, hsign, lower_append, hvalue, lower_of_blanks w.blanks,
      lower_of_blanks hafter, List.filter_append, List.filter_cons_of_pos (by decide),
      List.filter_cons_of_pos (by decide), List.filter_append, hkeep, filter_blanks w.blanks,
      filter_blanks hafter]
  rw [hparams]
  cases hzeros : w.value.all fun c => c == '0' || c == '.' with
  | true =>
      obtain ⟨hbefore, hafterTab⟩ := hplain hzeros
      rw [List.count_eq_zero.mpr hbefore, List.count_eq_zero.mpr hafterTab]
      simpa [cutWeight] using parsesAsZero_of_isQvalue w.valid hzeros
  | false =>
      cases hcount : w.before.count '\t' with
      | zero => exact parsesAsZero_append hzeros
      | succ n => rfl

/-- What the code makes of an element that is spelled plainly. -/
theorem readCoding_text (el : Element) (hplain : el.spelledPlainly = true) :
    readCoding table el.text =
      el.entry.bind fun e => if e.isRefusal then none else some e.coding := by
  obtain ⟨-, hbefore, -⟩ := lower_blanks table el.blanks.1
  obtain ⟨-, hafter, -⟩ := lower_blanks table el.blanks.2
  have hsemi : ∀ {s : List Char}, (∀ c ∈ s, isSpace c = true) → ';' ∉ s := fun hs hmem =>
    absurd (hs ';' hmem) (by decide)
  unfold readCoding Element.text
  cases hentry : el.entry with
  | none =>
      have hcut : cut ';' (el.before ++ [] ++ el.after) =
        (el.before ++ [] ++ el.after, [], false) := by
        apply cut_of_not_mem
        simpa using ⟨hsemi hbefore, hsemi hafter⟩
      have htrim : trimSpace (el.before ++ [] ++ el.after) = [] :=
        trimSpace_between hbefore hafter (by simp)
      rw [List.append_nil] at hcut htrim
      simp [hcut, htrim, lower_eq_map]
  | some e =>
      obtain ⟨hname, hnameSemi, -⟩ := e.name_separators
      cases hweight : e.weight with
      | none =>
          have htext : e.text = e.name := by simp [Entry.text, hweight]
          have htrim := trimSpace_between hbefore hafter hname
          have hcut : cut ';' (el.before ++ e.name ++ el.after) =
              (el.before ++ e.name ++ el.after, [], false) := by
            apply cut_of_not_mem
            simpa using ⟨hsemi hbefore, hnameSemi, hsemi hafter⟩
          simp only [htext, hcut, htrim, e.lower_name, if_neg e.coding_ne_nil]
          simp [lower_eq_map, cutWeight, Entry.isRefusal, hweight]
      | some w =>
          obtain ⟨-, hgap, -⟩ := lower_blanks table e.blanks
          have htext : el.before ++ e.text ++ el.after = (el.before ++ e.name ++ e.gap) ++ ';' ::
              (w.before ++ (if w.capital then 'Q' else 'q') :: '=' :: (w.value ++ el.after)) := by
            simp [Entry.text, hweight, Weight.text]
          have hnone : ';' ∉ el.before ++ e.name ++ e.gap := by
            simpa using ⟨hsemi hbefore, hnameSemi, hsemi hgap⟩
          have hcut := cut_append_cons hnone
            (w.before ++ (if w.capital then 'Q' else 'q') :: '=' :: (w.value ++ el.after))
          have htrim := trimSpace_between hbefore hgap hname
          have hrefusal : e.isRefusal = w.value.all fun c => c == '0' || c == '.' := by
            simp [Entry.isRefusal, hweight]
          have hread := cutWeight_weight table w el.blanks.2 (by
            intro hzeros
            rw [← hrefusal] at hzeros
            simpa [Element.spelledPlainly, hentry, hzeros, hweight] using hplain)
          simp only [htext, hcut, htrim, e.lower_name, if_neg e.coding_ne_nil, Option.bind_some]
          rw [hrefusal, ← hread]
          split <;> rfl

theorem Element.comma_not_mem_text (el : Element) : ',' ∉ el.text := by
  obtain ⟨-, -, hbefore⟩ := lower_blanks asciiTable el.blanks.1
  obtain ⟨-, -, hafter⟩ := lower_blanks asciiTable el.blanks.2
  unfold Element.text
  cases el.entry with
  | none => simpa using ⟨hbefore, hafter⟩
  | some e =>
      obtain ⟨-, -, hname⟩ := e.name_separators
      obtain ⟨-, -, hgap⟩ := lower_blanks asciiTable e.blanks
      have hentry : ',' ∉ e.text := by
        unfold Entry.text
        cases e.weight with
        | none => exact hname
        | some w =>
            obtain ⟨-, -, hblanks⟩ := lower_blanks asciiTable w.blanks
            obtain ⟨-, -, hvalue⟩ := lower_isQvalue asciiTable w.valid
            have hsign : ',' ≠ if w.capital then 'Q' else 'q' := by cases w.capital <;> decide
            simpa [Weight.text] using ⟨hname, hgap, hblanks, hsign, hvalue⟩
      simpa using ⟨hbefore, hentry, hafter⟩

/-- A line comes apart into its elements. -/
theorem filterMap_splitOn_line {β : Type} {f : List Char → Option β} (hf : f [] = none)
    (line : List Element) :
    (([','].intercalate (line.map Element.text)).splitOn ',').filterMap f =
      line.filterMap fun el => f el.text := by
  cases line with
  | nil => simp [hf]
  | cons el rest =>
      rw [splitOn_join (by simp), List.flatMap_map]
      have hone : ∀ x : Element, x ∈ el :: rest → x.text.splitOn ',' = (fun y => [y.text]) x :=
        fun x _ => List.splitOn_eq_singleton x.comma_not_mem_text
      rw [List.flatMap_congr hone, ← List.map_eq_flatMap, List.filterMap_map]
      rfl

theorem mem_foldl_collect {xs acc : List (List Char)} {coding : List Char} :
    coding ∈ xs.foldl collect acc ↔ coding ∈ acc ∨ coding ∈ xs := by
  induction xs generalizing acc with
  | nil => simp
  | cons x xs ih =>
      rw [List.foldl_cons, ih, collect]
      split_ifs with hx
      · constructor
        · rintro (hacc | hxs)
          · exact Or.inl hacc
          · exact Or.inr (List.mem_cons_of_mem x hxs)
        · rintro (hacc | hxs)
          · exact Or.inl hacc
          · rcases List.mem_cons.mp hxs with rfl | hxs
            · exact Or.inl hx
            · exact Or.inr hxs
      · simp only [List.mem_append, List.mem_cons, List.not_mem_nil, or_false, or_assoc]

/-- Joined codings come apart again. -/
theorem filter_splitOn_join {codings : List (List Char)}
    (h : ∀ coding ∈ codings, coding ≠ [] ∧ ',' ∉ coding) :
    (([','].intercalate codings).splitOn ',').filter (· ≠ []) = codings := by
  cases codings with
  | nil => rfl
  | cons coding rest =>
      rw [splitOn_join (List.cons_ne_nil coding rest)]
      have hone : ∀ x ∈ coding :: rest, x.splitOn ',' = [x] := fun x hx =>
        List.splitOn_eq_singleton (h x hx).2
      rw [List.flatMap_congr hone]
      simp only [List.flatMap_singleton']
      apply List.filter_eq_self.mpr
      intro x hx
      simpa using (h x hx).1

end Line

/-! ### The codings of a request

The codings stand at the end of the key and hold no blank, so the key gives them back. -/

section Key

variable {table : CaseTable} {r r1 r2 : Request} {coding : List Char}

/-- The codings that `normalizeAcceptEncoding` collects. -/
def codings (table : CaseTable) (r : Request) : List (List Char) :=
  ((r.getAcceptEncoding.splitOn ',').filterMap (readCoding table)).foldl collect []

/-- The key of a request that is spelled plainly names the codings it wants. -/
theorem mem_codings (hplain : r.Plain) : coding ∈ codings table r ↔ r.wants coding = true := by
  have hempty : readCoding table [] = none := by simp [readCoding, cut, trimSpace, lower_eq_map]
  have hread : (r.getAcceptEncoding.splitOn ',').filterMap (readCoding table) =
      r.acceptEncoding.flatten.filterMap fun el => readCoding table el.text := by
    have hone := hplain.oneLine
    unfold Request.getAcceptEncoding
    cases hlines : r.acceptEncoding with
    | nil => simp [hempty]
    | cons line rest =>
        rw [hlines, List.length_cons] at hone
        obtain rfl : rest = [] := List.length_eq_zero_iff.mp (by omega)
        rw [filterMap_splitOn_line hempty]
        simp
  unfold codings
  rw [mem_foldl_collect, hread]
  simp only [List.not_mem_nil, false_or, List.mem_filterMap, Request.wants, Request.entries,
    List.any_eq_true, Bool.and_eq_true, beq_iff_eq, Bool.not_eq_true']
  constructor
  · rintro ⟨el, hel, hsome⟩
    rw [readCoding_text el (List.all_eq_true.mp hplain.spelled el hel)] at hsome
    obtain ⟨e, hentry, hsome⟩ := Option.bind_eq_some_iff.mp hsome
    split_ifs at hsome with hrefusal
    exact ⟨e, ⟨el, hel, hentry⟩, Option.some.inj hsome, by simpa using hrefusal⟩
  · rintro ⟨e, ⟨el, hel, hentry⟩, hcoding, hrefusal⟩
    refine ⟨el, hel, ?_⟩
    rw [readCoding_text el (List.all_eq_true.mp hplain.spelled el hel), hentry]
    simp [hrefusal, hcoding]

theorem coding_of_wants (h : r.wants coding = true) :
    coding ≠ [] ∧ ',' ∉ coding ∧ ' ' ∉ coding := by
  obtain ⟨e, -, he⟩ := List.any_eq_true.mp h
  obtain ⟨hcoding, -⟩ := Bool.and_eq_true_iff.mp he
  obtain rfl := beq_iff_eq.mp hcoding
  refine ⟨e.coding_ne_nil, ?_, ?_⟩
  · intro hmem
    obtain ⟨c, hc, heq⟩ := List.mem_map.mp hmem
    exact (e.name_plain c hc).comma heq
  · intro hmem
    obtain ⟨c, hc, heq⟩ := List.mem_map.mp hmem
    have hspace := (e.name_plain c hc).space
    rw [heq] at hspace
    exact absurd hspace (by decide)

theorem blank_not_mem_join {words : List (List Char)} (h : ∀ x ∈ words, ' ' ∉ x) :
    ' ' ∉ [','].intercalate words := by
  induction words with
  | nil => simp
  | cons x words ih =>
      rw [List.forall_mem_cons] at h
      cases words with
      | nil => simpa using h.1
      | cons y words =>
          rw [List.intercalate_cons_cons]
          simpa using ⟨h.1, ih h.2⟩

/-- The text after the last blank. -/
theorem eq_of_last_blank {front front' word word' : List Char} (hword : ' ' ∉ word)
    (hword' : ' ' ∉ word') (h : front ++ ' ' :: word = front' ++ ' ' :: word') : word = word' := by
  have hcut := congrArg (fun x => (cut ' ' x.reverse).1) h
  simpa [cut_append_cons, hword, hword'] using hcut

/-- The key ends with the codings, which hold no blank, whatever the URI before them holds. -/
theorem normalize_of_cacheKey (h1 : r1.Plain) (h2 : r2.Plain)
    (h : cacheKey table r1 = cacheKey table r2) :
    normalizeAcceptEncoding table r1.getAcceptEncoding =
      normalizeAcceptEncoding table r2.getAcceptEncoding := by
  have hword : ∀ {r : Request}, r.Plain →
      ' ' ∉ 'a' :: 'e' :: '=' :: normalizeAcceptEncoding table r.getAcceptEncoding := by
    intro r hr
    have hjoin : ' ' ∉ normalizeAcceptEncoding table r.getAcceptEncoding := by
      refine blank_not_mem_join fun x hx => ?_
      rw [List.mem_insertionSort] at hx
      exact (coding_of_wants ((mem_codings hr).mp hx)).2.2
    simpa using hjoin
  have hkey : ∀ r : Request, cacheKey table r =
      (r.method ++ ' ' :: (lower table r.host ++ ' ' :: r.requestURI)) ++
        ' ' :: 'a' :: 'e' :: '=' ::
        normalizeAcceptEncoding table r.getAcceptEncoding := by
    intro r
    simp [cacheKey]
  rw [hkey r1, hkey r2] at h
  simpa using eq_of_last_blank (hword h1) (hword h2) h

/-- Requests with one key, spelled plainly, want the same codings. -/
theorem wants_eq_of_cacheKey (h1 : r1.Plain) (h2 : r2.Plain)
    (hkey : cacheKey table r1 = cacheKey table r2) (coding : List Char) :
    r1.wants coding = r2.wants coding := by
  have hsep : ∀ {r : Request}, r.Plain → ∀ x ∈ (codings table r).insertionSort
      fun a b => lexLe a b = true, x ≠ [] ∧ ',' ∉ x := by
    intro r hr x hx
    rw [List.mem_insertionSort] at hx
    obtain ⟨hne, hcomma, -⟩ := coding_of_wants ((mem_codings hr).mp hx)
    exact ⟨hne, hcomma⟩
  have hjoin := normalize_of_cacheKey h1 h2 hkey
  have hsorted : (codings table r1).insertionSort (fun a b => lexLe a b = true) =
      (codings table r2).insertionSort fun a b => lexLe a b = true := by
    rw [← filter_splitOn_join (hsep h1), ← filter_splitOn_join (hsep h2)]
    exact congrArg (fun s => (s.splitOn ',').filter (· ≠ [])) hjoin
  have hmem1 : coding ∈ codings table r1 ↔ r1.wants coding = true := mem_codings h1
  have hmem2 : coding ∈ codings table r2 ↔ r2.wants coding = true := mem_codings h2
  rw [Bool.eq_iff_iff, ← hmem1, ← hmem2, ← List.mem_insertionSort fun a b => lexLe a b = true,
    hsorted, List.mem_insertionSort]

end Key

/-! ### What one key stands for

Two requests of one key want the same codings; they may differ in what they refuse. -/

/-- The header rules the identity out. -/
def Request.excludesIdentity (r : Request) : Bool :=
  r.refuses identity || (!r.wants identity && r.refuses star)

/-- What the second request refuses, and the key does not say, the first refuses too. -/
structure KeepsRefusals (r1 r2 : Request) : Prop where
  present : r1.acceptEncoding = [] → r2.acceptEncoding = []
  named : r2.wants star = true → ∀ coding, coding ≠ star → r2.refuses coding = true →
    r1.refuses coding = true
  identity : r2.wants star = false → r2.excludesIdentity = true → r1.excludesIdentity = true

section Share

variable {table : CaseTable} {r r1 r2 : Request} {coding : List Char}

theorem refuses_eq_false_of_wants (h : r.wants coding = true) : r.refuses coding = false := by
  simp [Request.refuses, h]

theorem silent_of_absent (h : r.acceptEncoding = []) :
    r.wants coding = false ∧ r.refuses coding = false := by
  simp [Request.wants, Request.refuses, Request.entries, h]

/-- A request with the header accepts what it wants and, of the rest, what it neither refuses
nor leaves out. -/
theorem accepts_iff (h : r.acceptEncoding ≠ []) : r.accepts coding = true ↔
    r.wants coding = true ∨ (r.refuses coding = false ∧
      (r.wants star = true ∨ (coding = identity ∧ r.refuses star = false))) := by
  have hempty : r.acceptEncoding.isEmpty = false := by simpa using h
  simp [Request.accepts, hempty]

theorem keepsRefusals_of_mayShare (hwants : ∀ coding, r1.wants coding = r2.wants coding)
    (hshare : MayShare r1 r2) : KeepsRefusals r1 r2 := by
  have hpresent : r1.acceptEncoding = [] → r2.acceptEncoding = [] := by
    intro habsent
    by_contra hthere
    -- a coding that nobody names is acceptable only without the header
    have hnone : ∀ x, r2.wants x = false := fun x =>
      (hwants x).symm.trans (silent_of_absent habsent).1
    have hgzip := hshare "gzip".toList (by decide) (by simp [Request.accepts, habsent])
    rcases (accepts_iff hthere).mp hgzip with hwant | ⟨-, hstar | ⟨heq, -⟩⟩
    · rw [hnone] at hwant
      cases hwant
    · rw [hnone] at hstar
      cases hstar
    · exact absurd heq (by decide)
  by_cases habsent : r2.acceptEncoding = []
  · constructor
    · exact hpresent
    · intro hstar
      rw [(silent_of_absent habsent).1] at hstar
      cases hstar
    · intro _ hexcludes
      simp [Request.excludesIdentity, (silent_of_absent habsent).2] at hexcludes
  have hpresent1 : r1.acceptEncoding ≠ [] := fun h => habsent (hpresent h)
  constructor
  · exact hpresent
  · intro hstar coding hne hrefuses
    by_contra hkept
    have haccepts : r1.accepts coding = true :=
      (accepts_iff hpresent1).mpr
        (Or.inr ⟨by simpa using hkept, Or.inl ((hwants star).trans hstar)⟩)
    rcases (accepts_iff habsent).mp (hshare coding hne haccepts) with hwant | ⟨hno, -⟩
    · rw [refuses_eq_false_of_wants hwant] at hrefuses
      cases hrefuses
    · rw [hno] at hrefuses
      cases hrefuses
  · intro hstar hexcludes
    by_contra hkept
    have hkept : r1.refuses identity = false ∧
        (r1.wants identity = true ∨ r1.refuses star = false) := by
      simpa [Request.excludesIdentity, Bool.or_eq_false_iff, imp_iff_not_or] using hkept
    have haccepts : r1.accepts identity = true := by
      apply (accepts_iff hpresent1).mpr
      rcases hkept.2 with hwant | hno
      · exact Or.inl hwant
      · exact Or.inr ⟨hkept.1, Or.inr ⟨rfl, hno⟩⟩
    rcases (accepts_iff habsent).mp (hshare identity (by decide) haccepts) with
      hwant | ⟨hno, hstar' | ⟨-, hnostar⟩⟩
    · simp [Request.excludesIdentity, hwant, refuses_eq_false_of_wants hwant] at hexcludes
    · rw [hstar] at hstar'
      cases hstar'
    · simp [Request.excludesIdentity, hno, hnostar] at hexcludes

theorem mayShare_of_keepsRefusals (hwants : ∀ coding, r1.wants coding = r2.wants coding)
    (hkeeps : KeepsRefusals r1 r2) : MayShare r1 r2 := by
  intro coding hne haccepts
  by_cases habsent : r2.acceptEncoding = []
  · simp [Request.accepts, habsent]
  have hpresent1 : r1.acceptEncoding ≠ [] := fun h => habsent (hkeeps.present h)
  apply (accepts_iff habsent).mpr
  rcases (accepts_iff hpresent1).mp haccepts with hwant | ⟨hno, hrest⟩
  · exact Or.inl ((hwants coding).symm.trans hwant)
  · by_cases hwant : r2.wants coding = true
    · exact Or.inl hwant
    · right
      cases hstar : r2.wants star with
      | true =>
          refine ⟨?_, Or.inl rfl⟩
          rw [Bool.eq_false_iff]
          intro hrefuses
          have hkept := hkeeps.named hstar coding hne hrefuses
          rw [hno] at hkept
          cases hkept
      | false =>
          have hstar1 := (hwants star).trans hstar
          obtain ⟨rfl, hnostar⟩ : coding = identity ∧ r1.refuses star = false := by
            simpa [hstar1] using hrest
          have hincluded : r2.excludesIdentity = false := by
            rw [Bool.eq_false_iff]
            intro hexcludes
            have hkept := hkeeps.identity hstar hexcludes
            simp [Request.excludesIdentity, hno, hnostar] at hkept
          obtain ⟨hrefuses, hnostar2⟩ : r2.refuses identity = false ∧ r2.refuses star = false := by
            simpa [Request.excludesIdentity, hwant] using hincluded
          exact ⟨hrefuses, Or.inr ⟨rfl, hnostar2⟩⟩

/-- **What a key leaves out.** Of two cacheable requests with one key, each with its header in
at most one line and no tab in a refusal, the second accepts whatever the first accepts if and
only if it refuses nothing beyond what the first refuses and the key does not say: no coding
by name where both take `*`, and not the identity where neither does. -/
theorem mayShare_iff_keepsRefusals (table : CaseTable) (r1 r2 : Request)
    (_hcacheable : sharedCacheable r1 = true ∧ sharedCacheable r2 = true)
    (hplain : r1.Plain ∧ r2.Plain) (hkey : cacheKey table r1 = cacheKey table r2) :
    MayShare r1 r2 ↔ KeepsRefusals r1 r2 := by
  have hwants := wants_eq_of_cacheKey hplain.1 hplain.2 hkey
  constructor
  · exact keepsRefusals_of_mayShare hwants
  · exact mayShare_of_keepsRefusals hwants

end Share

def getWith (line : List Element) : Request where
  method := "GET".toList
  host := "app.test".toList
  requestURI := "/app.js".toList
  acceptEncoding := [line]
  authorization := []
  cookie := []
  peerCertificates := 0
  auth := none

theorem noBlanks : [].all isBlank = true ∧ [].all isBlank = true := ⟨rfl, rfl⟩

/-- A coding without blanks, and perhaps refused. -/
def plainly (e : Entry) : Element :=
  { before := [], entry := some e, after := [], blanks := noBlanks }

def refusal : Weight :=
  { before := [], capital := false, value := ['0'], blanks := by decide, valid := by decide }

def anyCoding : Element :=
  plainly { name := ['*'], gap := [], weight := none
            nonempty := by decide, token := by decide, blanks := by decide }

def gzip : Element :=
  plainly { name := "gzip".toList, gap := [], weight := none
            nonempty := by decide, token := by decide, blanks := by decide }

def noGzip : Element :=
  plainly { name := "gzip".toList, gap := [], weight := some refusal
            nonempty := by decide, token := by decide, blanks := by decide }

def noBrotli : Element :=
  plainly { name := "br".toList, gap := [], weight := some refusal
            nonempty := by decide, token := by decide, blanks := by decide }

/-- `gzip` and `gzip, br;q=0` share a key, and may. -/
theorem mayShare_iff_keepsRefusals_gzip : MayShare (getWith [gzip]) (getWith [gzip, noBrotli]) := by
  have hone : (getWith [gzip]).Plain := ⟨by decide, by decide⟩
  have htwo : (getWith [gzip, noBrotli]).Plain := ⟨by decide, by decide⟩
  apply (mayShare_iff_keepsRefusals asciiTable (getWith [gzip]) (getWith [gzip, noBrotli])
    ⟨by decide +kernel, by decide +kernel⟩ ⟨hone, htwo⟩ (by decide +kernel)).mpr
  constructor
  · intro habsent
    cases habsent
  · intro hstar
    exact absurd hstar (by decide)
  · intro _ hexcludes
    exact absurd hexcludes (by decide)

/-- `*` and `gzip;q=0, *` share a key too, and the second is sent what it refuses. -/
theorem refused_coding_is_shared : ¬ ∀ table r1 r2, sharedCacheable r1 = true →
    sharedCacheable r2 = true → cacheKey table r1 = cacheKey table r2 → MayShare r1 r2 := by
  intro hall
  have hshare := hall asciiTable (getWith [anyCoding]) (getWith [noGzip, anyCoding])
    (by decide +kernel) (by decide +kernel) (by decide +kernel)
  have haccepts := hshare "gzip".toList (by decide) (by decide)
  exact absurd haccepts (by decide)

end Quicgate.AcceptEncoding
