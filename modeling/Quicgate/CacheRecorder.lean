import Quicgate.CacheControl

/-!
# The recorder of the response cache

`respCache.wrap` and `cacheRecorder` (`internal/engine/cache.go`): a response is copied while
it is written through to the client, and given to the clients of later hits.

`Writer` is a `http.ResponseWriter` of `net/http`: an informational `WriteHeader` is sent at
once and does not end the header, any other ends it, and so does a `Write`, a `Flush` or the
return of a handler that called none; and no more is written than `Content-Length` declares.  A
handler is the list of its calls, and the same list is given to a writer alone and to a
recorder over it.

`transparent_iff_harmless` certifies the recorder against the writer alone: the calls after
which the client of the miss, or that of a later hit, is served something else are those of
`Harmless`.  `early_hints_hide_status` is the shortest of them.
-/

namespace Quicgate.CacheRecorder

open Quicgate.GoStrings Quicgate.CacheControl
open Quicgate.Store (parseInt64)

/-- `http.Header`: the values of a canonical name, none where it is absent. -/
abbrev Header := String → List String

/-- `Header.Set`, and `Header.Del` where there are no values. -/
def Header.set (h : Header) (name : String) (values : List String) : Header :=
  fun n => if n = name then values else h n

def Header.get (h : Header) (name : String) : String := (h name).headD ""

def xCache : String := "X-Cache"

/-! ### The writer

`setHeader`, `writeHeader`, `write` and `flush` are what a handler can do with a writer of
`net/http`.  A `Write` that would bring the body over the declared length is refused whole,
and so is every one after it, since the refused bytes count. -/

/-- The length that `WriteHeader` reads off the header; one that is no number is dropped. -/
def declaredLength (h : Header) : Option Nat :=
  match parseInt64 (h.get "Content-Length").toList with
  | some n => if 0 ≤ n then some n.toNat else none
  | none => none

/-- A response writer of `net/http` and what it has sent to the client. -/
structure Writer where
  head : Bool -- the request's method is HEAD, which has no body
  header : Header
  informational : List (Nat × Header)
  final : Option (Nat × Header)
  contentLength : Option Nat
  written : Nat -- with what was refused
  body : List UInt8

/-- The codes that precede a response. -/
def isInformational (code : Nat) : Bool := 100 ≤ code && code ≤ 199 && code != 101

def bodyAllowed (code : Nat) : Bool := !(100 ≤ code && code ≤ 199) && code != 204 && code != 304

def Writer.setHeader (w : Writer) (name : String) (values : List String) : Writer :=
  { w with header := w.header.set name values }

/-- `WriteHeader`: the header is sent as it is now. -/
def Writer.writeHeader (w : Writer) (code : Nat) : Writer :=
  match w.final with
  | some _ => w
  | none =>
      if isInformational code then
        { w with informational := w.informational ++ [(code, w.header)] }
      else { w with final := some (code, w.header), contentLength := declaredLength w.header }

/-- The writer's own `WriteHeader(200)`, where the header has not been sent. -/
def Writer.begin (w : Writer) : Writer := w.writeHeader 200

def Writer.hasBody (w : Writer) : Bool := w.final.all fun f => bodyAllowed f.1

/-- The bytes of a `Write` that reach the client, where `written` have been written before. -/
def fitting (contentLength : Option Nat) (written : Nat) (b : List UInt8) : List UInt8 :=
  if contentLength.any (· < written + b.length) then [] else b

def Writer.write (w : Writer) (b : List UInt8) : Writer :=
  let w := w.begin
  if w.hasBody then
    { w with
      written := w.written + b.length
      body := w.body ++ if w.head then [] else fitting w.contentLength w.written b }
  else w

def Writer.flush (w : Writer) : Writer := w.begin

/-! ### The recorder

The methods of `cacheRecorder`, and the checks of `wrap`: those of the header, which `decide`
makes at the first `WriteHeader`, and those of the entry when the handler has returned. -/

def cacheMaxBodyBytes : Nat := 2097152

structure Recorder where
  inner : Writer
  status : Nat
  buf : Option (List UInt8)
  savedHeader : Header
  cacheable : Bool
  wrote : Bool

def contains (s sub : List Char) : Bool := s.tails.any fun t => sub.isPrefixOf t

/-- `decide`, the checks of the header of a 200 response. -/
def storable (table : CaseTable) (h : Header) : Bool :=
  let cc := cacheControl table ((h "Cache-Control").map String.toList)
  !(contains cc "no-store".toList || contains cc "private".toList || contains cc
    "no-cache".toList) &&
    h.get "Set-Cookie" == "" &&
    (h "Vary").all fun v => (v.toList.splitOn ',').all fun field =>
      let f := trimSpace field
      f == [] || f.map Char.toLower == "accept-encoding".toList

def Recorder.decide (table : CaseTable) (r : Recorder) : Recorder :=
  if r.status = 200 ∧ storable table r.inner.header = true then
    { r with savedHeader := r.inner.header, cacheable := true, buf := some [] }
  else r

def Recorder.writeHeader (table : CaseTable) (r : Recorder) (code : Nat) : Recorder :=
  if r.wrote then r
  else
    let r := { r with wrote := true, status := code }.decide table
    { r with inner := (r.inner.setHeader xCache ["MISS"]).writeHeader code }

/-- `cacheRecorder.Write`, what goes into the buffer. -/
def Recorder.tee (r : Recorder) (b : List UInt8) : Recorder :=
  match r.cacheable, r.buf with
  | true, some buf =>
      if buf.length + b.length > cacheMaxBodyBytes then { r with cacheable := false, buf := none }
      else { r with buf := some (buf ++ b) }
  | _, _ => r

def Recorder.write (table : CaseTable) (r : Recorder) (b : List UInt8) : Recorder :=
  let r := (if r.wrote then r else r.writeHeader table 200).tee b
  { r with inner := r.inner.write b }

def Recorder.flush (r : Recorder) : Recorder := { r with inner := r.inner.flush }

structure CacheEntry where
  status : Nat
  header : Header
  body : List UInt8

def hasCacheDirective (cc name : List Char) : Bool :=
  (cc.splitOn ',').any fun part => (cut '=' (trimSpace part)).1 == name

/-- What `wrap` knows of a request and of its cache. -/
structure Miss where
  table : CaseTable
  head : Bool
  asked : List String -- the request's own Cache-Control
  ttl : Int
  room : CacheEntry → Bool -- whether the whole budget can hold an entry

def Miss.noStore (m : Miss) : Bool :=
  hasCacheDirective (cacheControl m.table (m.asked.map String.toList)) "no-store".toList

/-- The checks of `wrap` after the handler, and the first one of `put`. -/
def Miss.keeps (m : Miss) (e : CacheEntry) : Bool :=
  !m.noStore &&
    (storedFor m.table m.ttl ((e.header "Cache-Control").map String.toList)).isSome && m.room e

/-- The entry that `wrap` stores. -/
def Recorder.entry (m : Miss) (r : Recorder) : Option CacheEntry :=
  match r.cacheable, r.buf with
  | true, some buf =>
      if m.keeps ⟨r.status, r.savedHeader, buf⟩ then some ⟨r.status, r.savedHeader, buf⟩ else none
  | _, _ => none

/-! ### Handlers

The same calls on a writer alone (`plain`) and on a recorder over it (`recorded`); `replay` is
what `wrap` sends on a hit. -/

/-- What a handler does with its writer. -/
inductive Call where
  | header (name : String) (values : List String)
  | writeHeader (code : Nat)
  | write (b : List UInt8)
  | flush

def Writer.call (w : Writer) : Call → Writer
  | .header name values => w.setHeader name values
  | .writeHeader code => w.writeHeader code
  | .write b => w.write b
  | .flush => w.flush

def Recorder.call (table : CaseTable) (r : Recorder) : Call → Recorder
  | .header name values => { r with inner := r.inner.setHeader name values }
  | .writeHeader code => r.writeHeader table code
  | .write b => r.write table b
  | .flush => r.flush

/-- A writer before the handler, with the headers that were set around it. -/
def Writer.new (head : Bool) (header : Header) : Writer :=
  { head, header, informational := [], final := none, contentLength := none, written := 0,
    body := [] }

/-- `respCache.wrap`, the recorder of a miss. -/
def Recorder.new (w : Writer) : Recorder :=
  { inner := w, status := 200, buf := none, savedHeader := fun _ => [], cacheable := false
    wrote := false }

/-- What the client has received when the handler has returned. -/
def plain (head : Bool) (h : Header) (calls : List Call) : Writer :=
  (calls.foldl Writer.call (Writer.new head h)).begin

def recorded (m : Miss) (h : Header) (calls : List Call) : Recorder :=
  calls.foldl (Recorder.call m.table) (Recorder.new (Writer.new m.head h))

/-- One header written over another, name by name. -/
def Header.over (h around : Header) : Header :=
  fun name => if h name = [] then around name else h name

/-- `respCache.wrap`, a hit. `around`: the headers that were set around it. -/
def replay (head : Bool) (around : Header) (e : CacheEntry) : Writer :=
  let w := (Writer.new head ((e.header.over around).set xCache ["HIT"])).writeHeader e.status
  if head then w else w.write e.body

/-! ### Transparency

Two clients are compared by what they received: the informational responses, the final one and
the body.  The header that says whether the cache was hit does not count. -/

/-- Two headers agree, except for `X-Cache`. -/
def SameHeader (h h' : Header) : Prop := ∀ name, name ≠ xCache → h name = h' name

def SameLine (a b : Nat × Header) : Prop := a.1 = b.1 ∧ SameHeader a.2 b.2

def SameFinal : Option (Nat × Header) → Option (Nat × Header) → Prop
  | some a, some b => SameLine a b
  | none, none => True
  | _, _ => False

/-- The client received the same informational responses, the same response and body. -/
structure SameReceived (w v : Writer) : Prop where
  informational : List.Forall₂ SameLine w.informational v.informational
  final : SameFinal w.final v.final
  body : w.body = v.body

/-- The client of a miss receives what it receives without the recorder, and the client of a
later hit that response again, over what was set around the hit. (`serveRoute` sets
`Strict-Transport-Security` and `Alt-Svc`, and no length.) -/
structure Transparent (m : Miss) (h : Header) (calls : List Call) : Prop where
  miss : SameReceived (plain m.head h calls) (recorded m h calls).inner.begin
  hit : ∀ e, (recorded m h calls).entry m = some e →
    ∀ around : Header, around "Content-Length" = [] →
    SameFinal ((plain m.head h calls).final.map fun f => (f.1, f.2.over around))
        (replay m.head around e).final ∧
      (plain m.head h calls).body = (replay m.head around e).body

/-! ### Calls that do no harm

After an informational response the recorder has stopped listening, so what follows must be
what the writer would do of its own.  Else what matters is whether the response is stored, with
which header, and whether its body comes to the client as it comes to the buffer. -/

def writesOf (calls : List Call) : List (List UInt8) :=
  calls.filterMap fun call => match call with
    | .write b => some b
    | _ => none

def bodyOf (calls : List Call) : List UInt8 := (writesOf calls).flatten

/-- A response that begins with the header `h` is stored: the recorder finds the header storable
and the body short enough, and `wrap` keeps what it recorded. -/
def Stored (m : Miss) (h : Header) (calls : List Call) : Prop :=
  storable m.table h = true ∧ (bodyOf calls).length ≤ cacheMaxBodyBytes ∧
    m.keeps ⟨200, h, bodyOf calls⟩ = true

/-- No more is written than the header declares, or the first `Write` that is not empty is too
long already. -/
def Whole (sent : Header) (calls : List Call) : Prop :=
  ∀ n ∈ declaredLength sent, (bodyOf calls).length ≤ n ∨
    ∀ b ∈ (writesOf calls).find? (· ≠ []), n < b.length

/-- What is stored with the header `h` is what the client got: the header was sent like this, and
so was the body, if the method has one. -/
def Copied (m : Miss) (sent h : Header) (calls : List Call) : Prop :=
  Stored m h calls → SameHeader sent h ∧ (m.head = false → Whole sent calls)

/-- The header is the one that was sent when the next `Write`, `Flush` or return comes. -/
def Settles (sent h : Header) : List Call → Prop
  | .header name values :: rest => Settles sent (h.set name values) rest
  | .writeHeader _ :: rest => Settles sent h rest
  | .write _ :: _ => SameHeader sent h
  | .flush :: _ => SameHeader sent h
  | [] => SameHeader sent h

/-- After an informational `WriteHeader`: no second one and no status but 200, and a header
that stays as it is from an explicit 200 until the response begins. -/
def AfterHint (h : Header) : List Call → Prop
  | .header name values :: rest => AfterHint (h.set name values) rest
  | .writeHeader code :: rest => code = 200 ∧ Settles h h rest
  | .write _ :: _ => True
  | .flush :: _ => True
  | [] => True

/-- After a `Flush` that sent the header. -/
def AfterFlush (m : Miss) (sent h : Header) : List Call → Prop
  | .header name values :: rest => AfterFlush m sent (h.set name values) rest
  | .flush :: rest => AfterFlush m sent h rest
  | .writeHeader code :: rest => code = 200 → Copied m sent h rest
  | .write b :: rest => Copied m sent h (.write b :: rest)
  | [] => True

/-- The calls that the recorder passes on and copies as they are meant. -/
def Harmless (m : Miss) (h : Header) : List Call → Prop
  | .header name values :: rest => Harmless m (h.set name values) rest
  | .writeHeader code :: rest =>
      if isInformational code then AfterHint h rest else code = 200 → Copied m h h rest
  | .write b :: rest => Copied m h h (.write b :: rest)
  | .flush :: rest => AfterFlush m h h rest
  | [] => True

/-! ### Headers but for `X-Cache`

An equivalence that setting headers keeps. -/

section SameHeader

variable {h h' h'' : Header}

theorem SameHeader.refl (h : Header) : SameHeader h h := fun _ _ => rfl

theorem SameHeader.symm (hs : SameHeader h h') : SameHeader h' h := fun name hne =>
  (hs name hne).symm

theorem SameHeader.trans (hs : SameHeader h h') (hs' : SameHeader h' h'') : SameHeader h h'' :=
  fun name hne => (hs name hne).trans (hs' name hne)

theorem SameHeader.set (hs : SameHeader h h') (name : String) (values : List String) :
    SameHeader (h.set name values) (h'.set name values) := by
  intro n hne
  unfold Header.set
  split_ifs
  · rfl
  · exact hs n hne

theorem SameHeader.set_xCache (hs : SameHeader h h') (values : List String) :
    SameHeader h (h'.set xCache values) := by
  intro n hne
  unfold Header.set
  rw [if_neg hne]
  exact hs n hne

end SameHeader

/-! ### Two writers in step

As long as a recorder passes a call on, its writer is in step with the writer alone. -/

/-- The length that was declared does not depend on the marks of the cache either. -/
theorem declaredLength_congr {h h' : Header} (hs : SameHeader h h') :
    declaredLength h = declaredLength h' := by
  have hlength := hs "Content-Length" (by decide)
  simp only [declaredLength, Header.get, hlength]

/-- Two writers agree, and have sent the same. -/
structure InStep (w v : Writer) : Prop where
  head : w.head = v.head
  header : SameHeader w.header v.header
  received : SameReceived w v
  contentLength : w.contentLength = v.contentLength
  written : w.written = v.written
  empty : w.head = true → w.body = []

section InStep

variable {w v : Writer} {sent : Header} {code : Nat}

theorem InStep.setHeader (h : InStep w v) (name : String) (values : List String) :
    InStep (w.setHeader name values) (v.setHeader name values) :=
  { h with
    header := h.header.set name values
    received := ⟨h.received.informational, h.received.final, h.received.body⟩ }

theorem InStep.mark (h : InStep w v) : InStep w (v.setHeader xCache ["MISS"]) :=
  { h with
    header := h.header.set_xCache _
    received := ⟨h.received.informational, h.received.final, h.received.body⟩ }

theorem writeHeader_of_final {f : Nat × Header} (h : w.final = some f) (code : Nat) :
    w.writeHeader code = w := by
  unfold Writer.writeHeader
  rw [h]

theorem writeHeader_hint (hw : w.final = none) (hcode : isInformational code = true) :
    w.writeHeader code = { w with informational := w.informational ++ [(code, w.header)] } := by
  unfold Writer.writeHeader
  rw [hw]
  exact if_pos hcode

theorem writeHeader_answer (hw : w.final = none) (hcode : isInformational code = false) :
    w.writeHeader code =
      { w with final := some (code, w.header), contentLength := declaredLength w.header } := by
  unfold Writer.writeHeader
  rw [hw]
  exact if_neg (by simp [hcode])

theorem InStep.final_none (h : InStep w v) (hw : w.final = none) : v.final = none := by
  have hfinal := h.received.final
  rw [hw] at hfinal
  cases hv : v.final with
  | none => rfl
  | some f =>
      rw [hv] at hfinal
      cases hfinal

theorem InStep.final_some (h : InStep w v) (hw : w.final = some (code, sent)) :
    ∃ sent', v.final = some (code, sent') ∧ SameHeader sent sent' := by
  have hfinal := h.received.final
  rw [hw] at hfinal
  cases hv : v.final with
  | none =>
      rw [hv] at hfinal
      cases hfinal
  | some f =>
      rw [hv] at hfinal
      obtain ⟨hcode, hheader⟩ := hfinal
      refine ⟨f.2, ?_, hheader⟩
      rw [show code = f.1 from hcode]

theorem InStep.writeHeader (h : InStep w v) (code : Nat) :
    InStep (w.writeHeader code) (v.writeHeader code) := by
  cases hw : w.final with
  | some f =>
      obtain ⟨sent', hv, -⟩ := h.final_some hw
      rw [writeHeader_of_final hw, writeHeader_of_final hv]
      exact h
  | none =>
      have hv := h.final_none hw
      cases hcode : isInformational code with
      | true =>
          rw [writeHeader_hint hw hcode, writeHeader_hint hv hcode]
          refine { h with received := ⟨?_, h.received.final, h.received.body⟩ }
          exact List.rel_append h.received.informational (.cons ⟨rfl, h.header⟩ .nil)
      | false =>
          rw [writeHeader_answer hw hcode, writeHeader_answer hv hcode]
          exact { h with
            received := ⟨h.received.informational, ⟨rfl, h.header⟩, h.received.body⟩
            contentLength := declaredLength_congr h.header }

theorem InStep.begin (h : InStep w v) : InStep w.begin v.begin := h.writeHeader 200

theorem InStep.hasBody (h : InStep w v) : w.hasBody = v.hasBody := by
  unfold Writer.hasBody
  cases hw : w.final with
  | none => rw [h.final_none hw]
  | some f =>
      obtain ⟨sent', hv, -⟩ := h.final_some hw
      rw [hv]
      rfl

theorem write_bodyless (b : List UInt8) (hw : w.begin.hasBody = false) : w.write b = w.begin :=
  if_neg (by simp [hw])

theorem write_hasBody (b : List UInt8) (hw : w.begin.hasBody = true) :
    w.write b = { w.begin with
      written := w.begin.written + b.length
      body := w.begin.body ++
        if w.begin.head then [] else fitting w.begin.contentLength w.begin.written b } :=
  if_pos hw

theorem InStep.write (h : InStep w v) (b : List UInt8) : InStep (w.write b) (v.write b) := by
  have hbegin := h.begin
  cases hw : w.begin.hasBody with
  | false =>
      rw [write_bodyless b hw, write_bodyless b (hbegin.hasBody.symm.trans hw)]
      exact hbegin
  | true =>
      rw [write_hasBody b hw, write_hasBody b (hbegin.hasBody.symm.trans hw)]
      have hadded : (if w.begin.head then [] else fitting w.begin.contentLength w.begin.written b) =
          if v.begin.head then [] else fitting v.begin.contentLength v.begin.written b := by
        rw [hbegin.head, hbegin.contentLength, hbegin.written]
      refine { hbegin with
        received := ⟨hbegin.received.informational, hbegin.received.final, ?_⟩
        written := congrArg (· + b.length) hbegin.written
        empty := ?_ }
      · exact congrArg₂ (· ++ ·) hbegin.received.body hadded
      · intro (hhead : w.begin.head = true)
        simp [hbegin.empty hhead, hhead]

end InStep

/-! ### The bytes of a body

`sentOf` is what a client gets of a list of writes, and `fitting` what it gets of one: a hit
writes at once what the miss wrote in pieces. -/

/-- What reaches the client of what is written, where `written` bytes have been before. -/
def sentOf (contentLength : Option Nat) : Nat → List (List UInt8) → List UInt8
  | _, [] => []
  | written, b :: bs =>
      fitting contentLength written b ++ sentOf contentLength (written + b.length) bs

section Bodies

variable {d : Option Nat} {n written : Nat} {ws : List (List UInt8)}

theorem fitting_none (written : Nat) (b : List UInt8) : fitting none written b = b := rfl

theorem fitting_of_le {b : List UInt8} (h : written + b.length ≤ n) :
    fitting (some n) written b = b := by
  simp [fitting, Nat.not_lt.mpr h]

theorem fitting_of_lt {b : List UInt8} (h : n < written + b.length) :
    fitting (some n) written b = [] := by
  simp [fitting, h]

theorem sentOf_append (ws : List (List UInt8)) (written : Nat) (b : List UInt8) :
    sentOf d written (ws ++ [b]) =
      sentOf d written ws ++ fitting d (written + ws.flatten.length) b := by
  induction ws generalizing written with
  | nil => simp [sentOf]
  | cons a ws ih =>
      rw [List.cons_append, sentOf, sentOf, ih, List.append_assoc, List.flatten_cons,
        List.length_append, Nat.add_assoc]

theorem sentOf_none (ws : List (List UInt8)) (written : Nat) :
    sentOf none written ws = ws.flatten := by
  induction ws generalizing written with
  | nil => rfl
  | cons b ws ih => rw [sentOf, ih, fitting_none, List.flatten_cons]

theorem sentOf_of_le (h : written + ws.flatten.length ≤ n) :
    sentOf (some n) written ws = ws.flatten := by
  induction ws generalizing written with
  | nil => rfl
  | cons b ws ih =>
      rw [List.flatten_cons, List.length_append] at h
      rw [sentOf, fitting_of_le (by omega), ih (by omega), List.flatten_cons]

theorem sentOf_of_lt (ws : List (List UInt8)) (h : n < written) :
    sentOf (some n) written ws = [] := by
  induction ws generalizing written with
  | nil => rfl
  | cons b ws ih => rw [sentOf, fitting_of_lt (by omega), ih (by omega), List.nil_append]

theorem sentOf_eq_nil_iff :
    sentOf (some n) 0 ws = [] ↔ ∀ b ∈ ws.find? (· ≠ []), n < b.length := by
  induction ws with
  | nil => simp [sentOf]
  | cons b ws ih =>
      cases b with
      | nil => simpa [sentOf, fitting] using ih
      | cons x b =>
          rw [sentOf, Nat.zero_add, List.find?_cons_of_pos (by simp)]
          rcases Nat.lt_or_ge n (x :: b).length with hlong | hfits
          · rw [fitting_of_lt (by omega), sentOf_of_lt ws hlong]
            simpa using hlong
          · rw [fitting_of_le (by omega)]
            simpa using hfits

/-- A body comes in pieces as it comes at once if it fits, or its first piece does not. -/
theorem sentOf_eq_fitting_iff :
    sentOf d 0 ws = fitting d 0 ws.flatten ↔
      ∀ n ∈ d, ws.flatten.length ≤ n ∨ ∀ b ∈ ws.find? (· ≠ []), n < b.length := by
  cases d with
  | none => simp [sentOf_none, fitting_none]
  | some n =>
      rcases Nat.lt_or_ge n ws.flatten.length with hlong | hfits
      · rw [fitting_of_lt (by omega), sentOf_eq_nil_iff]
        simp only [Option.mem_def, Option.some.injEq, forall_eq', Nat.not_le.mpr hlong, false_or]
      · rw [fitting_of_le (by omega), sentOf_of_le (by omega)]
        simp only [Option.mem_def, Option.some.injEq, forall_eq', hfits, true_or]

end Bodies

/-! ### The end of a response

`Good` is what has to hold when the handler returns, and `GoodAfter` the same before the calls
that are left, by which the proofs go backwards through a handler. -/

/-- The client of a miss, and of a later hit, is served well by the states at the return. -/
structure Good (m : Miss) (w : Writer) (r : Recorder) : Prop where
  miss : SameReceived w.begin r.inner.begin
  hit : ∀ e, r.entry m = some e → ∀ around : Header, around "Content-Length" = [] →
    SameFinal (w.begin.final.map fun f => (f.1, f.2.over around)) (replay w.head around e).final ∧
      w.begin.body = (replay w.head around e).body

/-- The same, when the handler has made the calls that are left. -/
def GoodAfter (m : Miss) (w : Writer) (r : Recorder) (rest : List Call) : Prop :=
  Good m (rest.foldl Writer.call w) (rest.foldl (Recorder.call m.table) r)

theorem declaredLength_over {h around : Header} (haround : around "Content-Length" = []) :
    declaredLength (h.over around) = declaredLength h := by
  have hlength : h.over around "Content-Length" = h "Content-Length" := by
    unfold Header.over
    split_ifs with hnone
    · rw [haround, hnone]
    · rfl
  simp only [declaredLength, Header.get, hlength]

theorem replay_received (head : Bool) {around : Header} (h : Header) (body : List UInt8)
    (haround : around "Content-Length" = []) :
    (replay head around ⟨200, h, body⟩).final = some (200, (h.over around).set xCache ["HIT"]) ∧
      (replay head around ⟨200, h, body⟩).body =
        if head then [] else fitting (declaredLength h) 0 body := by
  have hlength : declaredLength ((h.over around).set xCache ["HIT"]) = declaredLength h :=
    (declaredLength_congr ((SameHeader.refl (h.over around)).set_xCache ["HIT"])).symm.trans
      (declaredLength_over haround)
  cases head with
  | true => exact ⟨rfl, rfl⟩
  | false =>
      refine ⟨rfl, ?_⟩
      rw [if_neg (by decide), ← hlength]
      rfl

/-! ### A response that is being copied

From the first `WriteHeader` on the recorder copies or it does not.  What is left to decide is
how much is written, and whether the entry is kept in the end. -/

/-- The recorder copies: its buffer holds the writes so far. -/
structure Copying (w : Writer) (r : Recorder) (code : Nat) (sent : Header)
    (ws : List (List UInt8)) : Prop where
  status : r.status = 200
  code : code = 200
  buf : r.buf = some ws.flatten
  short : ws.flatten.length ≤ cacheMaxBodyBytes
  written : w.written = ws.flatten.length
  body : w.head = false → w.body = sentOf (declaredLength sent) 0 ws

/-- The response has begun and the recorder knows it. -/
structure Settled (w : Writer) (r : Recorder) (code : Nat) (sent : Header)
    (ws : List (List UInt8)) : Prop where
  inStep : InStep w r.inner
  final : w.final = some (code, sent)
  contentLength : w.contentLength = declaredLength sent
  wrote : r.wrote = true
  copied : r.cacheable = true → Copying w r code sent ws

section Settled

variable {m : Miss} {table : CaseTable} {w : Writer} {r : Recorder} {code : Nat} {sent : Header}
  {ws : List (List UInt8)} {b : List UInt8} {rest : List Call}

variable (table) in
theorem Settled.writeHeader (h : Settled w r code sent ws) (c : Nat) :
    w.call (.writeHeader c) = w ∧ r.call table (.writeHeader c) = r :=
  ⟨writeHeader_of_final h.final c, if_pos h.wrote⟩

variable (table) in
theorem Settled.flush (h : Settled w r code sent ws) :
    w.call .flush = w ∧ r.call table .flush = r := by
  obtain ⟨sent', hv, -⟩ := h.inStep.final_some h.final
  constructor
  · exact writeHeader_of_final h.final 200
  · have hinner : r.inner.flush = r.inner := writeHeader_of_final hv 200
    show { r with inner := r.inner.flush } = r
    rw [hinner]

theorem Settled.setHeader (h : Settled w r code sent ws) (name : String) (values : List String) :
    Settled (w.call (.header name values)) (r.call table (.header name values)) code sent ws :=
  ⟨h.inStep.setHeader name values, h.final, h.contentLength, h.wrote, fun hcache =>
    let hcopy := h.copied hcache
    ⟨hcopy.status, hcopy.code, hcopy.buf, hcopy.short, hcopy.written, hcopy.body⟩⟩

theorem tee_kept {buf : List UInt8} (hcache : r.cacheable = true) (hbuf : r.buf = some buf)
    (hfits : buf.length + b.length ≤ cacheMaxBodyBytes) :
    r.tee b = { r with buf := some (buf ++ b) } := by
  unfold Recorder.tee
  rw [hcache, hbuf]
  exact if_neg (Nat.not_lt.mpr hfits)

theorem tee_dropped {buf : List UInt8} (hcache : r.cacheable = true) (hbuf : r.buf = some buf)
    (hlong : cacheMaxBodyBytes < buf.length + b.length) :
    r.tee b = { r with cacheable := false, buf := none } := by
  unfold Recorder.tee
  rw [hcache, hbuf]
  exact if_pos hlong

theorem tee_idle (hidle : r.cacheable = false) : r.tee b = r := by
  unfold Recorder.tee
  rw [hidle]

theorem inner_tee (r : Recorder) (b : List UInt8) :
    (r.tee b).inner = r.inner ∧ (r.tee b).wrote = r.wrote := by
  unfold Recorder.tee
  split
  · split_ifs <;> exact ⟨rfl, rfl⟩
  · exact ⟨rfl, rfl⟩

theorem write_of_wrote (hwrote : r.wrote = true) (b : List UInt8) :
    r.call table (.write b) = { r.tee b with inner := (r.tee b).inner.write b } := by
  show r.write table b = _
  unfold Recorder.write
  rw [if_pos hwrote]

theorem Settled.begin (h : Settled w r code sent ws) : w.begin = w :=
  writeHeader_of_final h.final 200

/-- A `Write` to the writer, where the recorder copies it. -/
theorem Settled.write_copied (h : Settled w r code sent ws) (hcode : code = 200)
    (b : List UInt8) :
    w.call (.write b) = { w with
      written := w.written + b.length
      body := w.body ++ if w.head then [] else fitting (declaredLength sent) w.written b } := by
  have hbody : w.begin.hasBody = true := by
    rw [h.begin, Writer.hasBody, h.final, hcode]
    rfl
  have hlength := h.contentLength
  show w.write b = _
  rw [write_hasBody b hbody, h.begin, ← hlength]

theorem Settled.write (h : Settled w r code sent ws) (b : List UInt8) :
    Settled (w.call (.write b)) (r.call table (.write b)) code sent (ws ++ [b]) := by
  have hkept : (w.write b).final = w.begin.final ∧
      (w.write b).contentLength = w.begin.contentLength := by
    cases hbody : w.begin.hasBody with
    | false => exact write_bodyless b hbody ▸ ⟨rfl, rfl⟩
    | true => exact write_hasBody b hbody ▸ ⟨rfl, rfl⟩
  rw [h.begin] at hkept
  rw [write_of_wrote h.wrote]
  refine ⟨?_, hkept.1.trans h.final, hkept.2.trans h.contentLength,
    (inner_tee r b).2.trans h.wrote, ?_⟩
  · show InStep (w.write b) ((r.tee b).inner.write b)
    rw [(inner_tee r b).1]
    exact h.inStep.write b
  · intro (hcache : (r.tee b).cacheable = true)
    cases hcache0 : r.cacheable with
    | false =>
        rw [tee_idle hcache0, hcache0] at hcache
        cases hcache
    | true =>
        have hcopy := h.copied hcache0
        rcases Nat.lt_or_ge cacheMaxBodyBytes (ws.flatten.length + b.length) with hlong | hfits
        · rw [tee_dropped hcache0 hcopy.buf hlong] at hcache
          cases hcache
        · have hflatten : (ws ++ [b]).flatten = ws.flatten ++ b := by simp
          rw [tee_kept hcache0 hcopy.buf hfits, h.write_copied hcopy.code]
          refine ⟨hcopy.status, hcopy.code, ?_, ?_, ?_, ?_⟩
          · rw [hflatten]
          · rw [hflatten, List.length_append]
            exact hfits
          · rw [hflatten, List.length_append, ← hcopy.written]
          · intro (hhead : w.head = false)
            rw [sentOf_append, ← hcopy.body hhead, Nat.zero_add, ← hcopy.written]
            simp [hhead]

/-- What is stored is what the client got: its header, and its body if the method has one. -/
def Faithful (m : Miss) (head : Bool) (sent saved : Header) (ws : List (List UInt8)) : Prop :=
  ws.flatten.length ≤ cacheMaxBodyBytes → m.keeps ⟨200, saved, ws.flatten⟩ = true →
    SameHeader sent saved ∧
      (head = false → sentOf (declaredLength sent) 0 ws =
        fitting (declaredLength sent) 0 ws.flatten)

theorem entry_of_copying (hcopy : Copying w r code sent ws) (hcache : r.cacheable = true) :
    r.entry m = if m.keeps ⟨200, r.savedHeader, ws.flatten⟩
      then some ⟨200, r.savedHeader, ws.flatten⟩ else none := by
  unfold Recorder.entry
  rw [hcache, hcopy.buf, hcopy.status]

theorem entry_of_uncacheable (hcache : r.cacheable = false) : r.entry m = none := by
  unfold Recorder.entry
  rw [hcache]

/-- At the return. -/
theorem Settled.good_iff (h : Settled w r code sent ws) :
    Good m w r ↔ (r.cacheable = true → Faithful m w.head sent r.savedHeader ws) := by
  constructor
  · intro hgood hcache hshort hkeeps
    have hcopy := h.copied hcache
    have hentry := (entry_of_copying hcopy hcache).trans (if_pos hkeeps)
    obtain ⟨hfinal, hbody⟩ := hgood.hit _ hentry (fun _ => []) rfl
    obtain ⟨hreplay, hreplayed⟩ :=
      @replay_received w.head (fun _ => []) r.savedHeader ws.flatten rfl
    rw [h.begin, h.final, hreplay] at hfinal
    rw [h.begin, hreplayed] at hbody
    have hover : ∀ h : Header, h.over (fun _ => []) = h := by
      intro h
      funext name
      unfold Header.over
      split_ifs with hnone
      · exact hnone.symm
      · rfl
    have hsame : SameHeader sent r.savedHeader := by
      intro name hne
      have hname : (sent.over fun _ => []) name =
          ((r.savedHeader.over fun _ => []).set xCache ["HIT"]) name := hfinal.2 name hne
      rwa [hover, hover, Header.set, if_neg hne] at hname
    refine ⟨hsame, fun hhead => ?_⟩
    rw [← hcopy.body hhead, hbody, hhead, declaredLength_congr hsame]
    rfl
  · intro hcopied
    refine ⟨h.inStep.begin.received, fun e hentry around haround => ?_⟩
    cases hcache : r.cacheable with
    | false =>
        rw [entry_of_uncacheable hcache] at hentry
        cases hentry
    | true =>
        have hcopy := h.copied hcache
        rw [entry_of_copying hcopy hcache] at hentry
        split_ifs at hentry with hkeeps
        obtain rfl := Option.some.inj hentry
        obtain ⟨hsame, hwhole⟩ := hcopied hcache hcopy.short hkeeps
        obtain ⟨hreplay, hreplayed⟩ :=
          replay_received w.head r.savedHeader ws.flatten haround
        rw [h.begin, h.final, hreplay, hreplayed]
        constructor
        · refine ⟨hcopy.code, ?_⟩
          intro name hne
          simp only [Header.over, Header.set, if_neg hne, hsame name hne]
        · cases hhead : w.head with
          | true => exact h.inStep.empty hhead
          | false =>
              rw [hcopy.body hhead, hwhole hhead, declaredLength_congr hsame]
              rfl

/-- Once the response has begun, the miss is served as without the recorder, and a hit too if
what is stored in the end is what the client got. -/
theorem Settled.goodAfter_iff (h : Settled w r code sent ws) :
    GoodAfter m w r rest ↔
      (r.cacheable = true → Faithful m w.head sent r.savedHeader (ws ++ writesOf rest)) := by
  induction rest generalizing w r ws with
  | nil =>
      rw [show writesOf [] = [] from rfl, List.append_nil]
      exact h.good_iff
  | cons call rest ih =>
      cases call with
      | header name values => exact ih (h.setHeader name values)
      | writeHeader c =>
          obtain ⟨hw, hr⟩ := h.writeHeader m.table c
          unfold GoodAfter
          rw [List.foldl_cons, List.foldl_cons, hw, hr]
          exact ih h
      | flush =>
          obtain ⟨hw, hr⟩ := h.flush m.table
          unfold GoodAfter
          rw [List.foldl_cons, List.foldl_cons, hw, hr]
          exact ih h
      | write b =>
          have hwrites : (ws ++ [b]) ++ writesOf rest = ws ++ writesOf (.write b :: rest) := by
            rw [List.append_assoc]
            rfl
          refine (ih (h.write b)).trans ?_
          rw [hwrites, write_of_wrote h.wrote]
          cases hcache : r.cacheable with
          | false =>
              rw [tee_idle hcache]
              simp [hcache]
          | true =>
              have hcopy := h.copied hcache
              rw [h.write_copied hcopy.code]
              rcases Nat.lt_or_ge cacheMaxBodyBytes (ws.flatten.length + b.length)
                with hlong | hfits
              · rw [tee_dropped hcache hcopy.buf hlong]
                refine iff_of_true (fun hfalse => nomatch hfalse) fun _ hshort => ?_
                have hmore : (ws ++ [b]).flatten.length = ws.flatten.length + b.length := by
                  rw [List.flatten_append, List.length_append, List.flatten_singleton]
                rw [← hwrites, List.flatten_append, List.length_append, hmore] at hshort
                omega
              · rw [tee_kept hcache hcopy.buf hfits]
                simp [hcache]

end Settled

/-! ### The first `WriteHeader` of the recorder

The moment at which the header is copied, and at which the writers send theirs. -/

section First

variable {table : CaseTable} {w : Writer} {r : Recorder} {code : Nat} {sent : Header}

/-- What the first `WriteHeader` makes of the recorder. -/
structure Decided (table : CaseTable) (r r' : Recorder) (code : Nat) : Prop where
  inner : r'.inner = (r.inner.setHeader xCache ["MISS"]).writeHeader code
  wrote : r'.wrote = true
  status : r'.status = code
  copies : code = 200 → storable table r.inner.header = true →
    r'.cacheable = true ∧ r'.buf = some [] ∧ r'.savedHeader = r.inner.header
  refrains : ¬ (code = 200 ∧ storable table r.inner.header = true) → r'.cacheable = false

theorem decided_writeHeader (hwrote : r.wrote = false) (hcache : r.cacheable = false) (code : Nat) :
    Decided table r (r.writeHeader table code) code := by
  unfold Recorder.writeHeader Recorder.decide
  rw [if_neg (by simp [hwrote])]
  by_cases hcopy : code = 200 ∧ storable table r.inner.header = true
  · rw [if_pos hcopy]
    exact ⟨rfl, rfl, rfl, fun _ _ => ⟨rfl, rfl, rfl⟩, fun hnot => absurd hcopy hnot⟩
  · rw [if_neg hcopy]
    exact ⟨rfl, rfl, rfl, fun hcode hstore => absurd ⟨hcode, hstore⟩ hcopy, fun _ => hcache⟩

/-- The header has been sent by the writers, and copied from the recorder's. -/
theorem Decided.settled {r' : Recorder} (hdecided : Decided table r r' code)
    {w' : Writer} (hstep : InStep w' r'.inner) {c : Nat} (hfinal : w'.final = some (c, sent))
    (hlength : w'.contentLength = declaredLength sent) (hcode : code = 200 → c = 200)
    (hwritten : w'.written = 0) (hbody : w'.body = []) : Settled w' r' c sent [] := by
  refine ⟨hstep, hfinal, hlength, hdecided.wrote, fun hcache => ?_⟩
  by_cases hcopy : code = 200 ∧ storable table r.inner.header = true
  · exact {
      status := hdecided.status.trans hcopy.1
      code := hcode hcopy.1
      buf := (hdecided.copies hcopy.1 hcopy.2).2.1
      short := Nat.zero_le _
      written := hwritten
      body := fun _ => hbody }
  · rw [hdecided.refrains hcopy] at hcache
    cases hcache

variable {m : Miss} {rest : List Call}

/-- What is stored in the end has the header that was seen by the first `WriteHeader`. -/
theorem Decided.goodAfter_iff {r' : Recorder} (hdecided : Decided m.table r r' code)
    (hheader : r.inner.header = w.header) (hhead : w.head = m.head) {w' : Writer} {c : Nat}
    (hsettled : Settled w' r' c sent []) (hhead' : w'.head = w.head) :
    GoodAfter m w' r' rest ↔ (code = 200 → Copied m sent w.header rest) := by
  rw [hsettled.goodAfter_iff, List.nil_append, hhead', hhead]
  have hwhole : sentOf (declaredLength sent) 0 (writesOf rest) =
      fitting (declaredLength sent) 0 (writesOf rest).flatten ↔ Whole sent rest :=
    sentOf_eq_fitting_iff
  constructor
  · rintro hfaithful hcode ⟨hstore, hshort, hkeeps⟩
    rw [← hheader] at hstore hkeeps
    obtain ⟨hcache, -, hsaved⟩ := hdecided.copies hcode hstore
    rw [← hsaved] at hkeeps
    obtain ⟨hsame, hbody⟩ := hfaithful hcache hshort hkeeps
    rw [hsaved, hheader] at hsame
    exact ⟨hsame, fun hget => hwhole.mp (hbody hget)⟩
  · intro hcopied hcache hshort hkeeps
    by_cases hcopy : code = 200 ∧ storable m.table r.inner.header = true
    · have hsaved := (hdecided.copies hcopy.1 hcopy.2).2.2
      rw [hsaved, hheader] at hkeeps ⊢
      obtain ⟨hsame, hbody⟩ := hcopied hcopy.1 ⟨hheader ▸ hcopy.2, hshort, hkeeps⟩
      exact ⟨hsame, fun hget => hwhole.mpr (hbody hget)⟩
    · rw [hdecided.refrains hcopy] at hcache
      cases hcache

/-- A `Write` is a `WriteHeader(200)` first, where none was seen. -/
theorem write_eq_writeHeader (hwrote : r.wrote = false) (b : List UInt8) :
    r.write table b = (r.writeHeader table 200).write table b := by
  have hthen : (r.writeHeader table 200).wrote = true := by
    unfold Recorder.writeHeader Recorder.decide
    rw [if_neg (by simp [hwrote])]
    split_ifs <;> rfl
  unfold Recorder.write
  rw [if_neg (by simp [hwrote]), if_pos hthen]

end First

/-! ### After a `Flush`

The header has been sent, and what the recorder copies later may be another one. -/

/-- The header was sent by a `Flush`, of which the recorder knows nothing. -/
structure Flushed (m : Miss) (w : Writer) (r : Recorder) (sent : Header) : Prop where
  inStep : InStep w r.inner
  header : r.inner.header = w.header
  head : w.head = m.head
  final : w.final = some (200, sent)
  contentLength : w.contentLength = declaredLength sent
  written : w.written = 0
  body : w.body = []
  wrote : r.wrote = false
  cacheable : r.cacheable = false

section Flushed

variable {m : Miss} {w : Writer} {r : Recorder} {sent : Header} {rest : List Call}

/-- The first `WriteHeader` after the flush copies the header as it is by then. -/
theorem Flushed.goodAfter_decided (h : Flushed m w r sent) (code : Nat) :
    GoodAfter m w (r.writeHeader m.table code) rest ↔
      (code = 200 → Copied m sent w.header rest) := by
  have hdecided : Decided m.table r (r.writeHeader m.table code) code :=
    decided_writeHeader h.wrote h.cacheable code
  have hmark := h.inStep.mark
  obtain ⟨sent', hv, -⟩ := hmark.final_some h.final
  have hstep : InStep w (r.writeHeader m.table code).inner := by
    rw [hdecided.inner, writeHeader_of_final hv]
    exact hmark
  have hsettled : Settled w (r.writeHeader m.table code) 200 sent [] :=
    hdecided.settled hstep h.final h.contentLength (fun _ => rfl) h.written h.body
  exact hdecided.goodAfter_iff h.header h.head hsettled rfl

theorem goodAfter_nil_of_uncacheable (hstep : InStep w r.inner) (hcache : r.cacheable = false) :
    GoodAfter m w r [] := by
  refine ⟨hstep.begin.received, ?_⟩
  intro e hentry
  rw [show ([].foldl (Recorder.call m.table) r) = r from rfl, entry_of_uncacheable hcache] at hentry
  cases hentry

theorem Flushed.goodAfter_iff (h : Flushed m w r sent) :
    GoodAfter m w r rest ↔ AfterFlush m sent w.header rest := by
  induction rest generalizing w r with
  | nil =>
      simp only [AfterFlush, iff_true]
      exact goodAfter_nil_of_uncacheable h.inStep h.cacheable
  | cons call rest ih =>
      obtain ⟨sent', hv, -⟩ := h.inStep.final_some h.final
      cases call with
      | header name values =>
          exact ih { h with
            inStep := h.inStep.setHeader name values
            header := congrArg (Header.set · name values) h.header }
      | flush =>
          have hw : w.call .flush = w := writeHeader_of_final h.final 200
          have hr : r.call m.table .flush = r := by
            have hinner : r.inner.flush = r.inner := writeHeader_of_final hv 200
            show { r with inner := r.inner.flush } = r
            rw [hinner]
          unfold GoodAfter
          rw [List.foldl_cons, List.foldl_cons, hw, hr]
          exact ih h
      | writeHeader code =>
          have hw : w.call (.writeHeader code) = w := writeHeader_of_final h.final code
          unfold GoodAfter
          rw [List.foldl_cons, List.foldl_cons, hw]
          exact h.goodAfter_decided code
      | write b =>
          have hr : r.call m.table (.write b) =
              (r.writeHeader m.table 200).call m.table (.write b) := write_eq_writeHeader h.wrote b
          have hgood : GoodAfter m w (r.writeHeader m.table 200) (.write b :: rest) ↔ _ :=
            h.goodAfter_decided 200
          unfold GoodAfter at hgood ⊢
          rw [List.foldl_cons (f := Recorder.call m.table), hr,
            ← List.foldl_cons (f := Recorder.call m.table), hgood]
          exact forall_prop_of_true rfl

end Flushed

/-! ### What no later call repairs

Two responses that differ in their beginning differ for good. -/

section Lost

variable {m : Miss} {table : CaseTable} {w : Writer} {r : Recorder} {rest : List Call}
  {f g : Nat × Header}

theorem sent_write (w : Writer) (b : List UInt8) : (w.write b).final = w.begin.final ∧
    (w.write b).informational = w.begin.informational ∧ (w.write b).head = w.begin.head := by
  cases hw : w.begin.hasBody with
  | false => exact write_bodyless b hw ▸ ⟨rfl, rfl, rfl⟩
  | true => exact write_hasBody b hw ▸ ⟨rfl, rfl, rfl⟩

theorem final_call (hw : w.final = some f) (call : Call) : (w.call call).final = some f := by
  have hbegin : w.begin = w := writeHeader_of_final hw 200
  cases call with
  | header name values => exact hw
  | writeHeader code =>
      show (w.writeHeader code).final = some f
      rw [writeHeader_of_final hw]
      exact hw
  | write b =>
      refine (sent_write w b).1.trans ?_
      rw [hbegin]
      exact hw
  | flush =>
      show w.begin.final = some f
      rw [hbegin]
      exact hw

variable (table) in
/-- The recorder's writer sees some of the calls and writes, or none. -/
theorem inner_call (hwrote : r.wrote = true) (call : Call) :
    (r.call table call).wrote = true ∧
      ((r.call table call).inner = r.inner ∨ (r.call table call).inner = r.inner.call call) := by
  cases call with
  | header name values => exact ⟨hwrote, Or.inr rfl⟩
  | writeHeader code =>
      have hr : r.call table (.writeHeader code) = r := if_pos hwrote
      rw [hr]
      exact ⟨hwrote, Or.inl rfl⟩
  | write b =>
      rw [write_of_wrote hwrote]
      refine ⟨(inner_tee r b).2.trans hwrote, Or.inr ?_⟩
      show (r.tee b).inner.write b = r.inner.write b
      rw [(inner_tee r b).1]
  | flush => exact ⟨hwrote, Or.inr rfl⟩

theorem informational_begin (w : Writer) : w.begin.informational = w.informational := by
  unfold Writer.begin Writer.writeHeader
  cases w.final <;> rfl

/-- Two responses that began differently stay different. -/
theorem not_goodAfter_of_final (hw : w.final = some f) (hv : r.inner.final = some g)
    (hwrote : r.wrote = true) (hne : ¬ SameLine f g) : ¬ GoodAfter m w r rest := by
  induction rest generalizing w r with
  | nil =>
      intro hgood
      have hfinal := hgood.miss.final
      have hwEnd : w.begin.final = some f := final_call hw .flush
      have hvEnd : r.inner.begin.final = some g := final_call hv .flush
      rw [show ([].foldl Writer.call w) = w from rfl,
        show ([].foldl (Recorder.call m.table) r) = r from rfl, hwEnd, hvEnd] at hfinal
      exact hne hfinal
  | cons call rest ih =>
      obtain ⟨hwrote', hinner⟩ := inner_call m.table hwrote call
      apply ih (final_call hw call) _ hwrote'
      rcases hinner with hinner | hinner
      · rw [hinner]
        exact hv
      · rw [hinner]
        exact final_call hv call

/-- The recorder sends no informational response once it has seen a `WriteHeader`. -/
theorem not_goodAfter_of_hints (hwrote : r.wrote = true)
    (hfewer : r.inner.informational.length < w.informational.length) :
    ¬ GoodAfter m w r rest := by
  induction rest generalizing w r with
  | nil =>
      intro hgood
      have hlen := hgood.miss.informational.length_eq
      rw [informational_begin, informational_begin] at hlen
      exact Nat.ne_of_gt hfewer hlen
  | cons call rest ih =>
      obtain ⟨hwrote', -⟩ := inner_call m.table hwrote call
      apply ih hwrote'
      have hw : w.informational.length ≤ (w.call call).informational.length := by
        cases call with
        | header name values => exact Nat.le_refl _
        | writeHeader code =>
            show w.informational.length ≤ (w.writeHeader code).informational.length
            unfold Writer.writeHeader
            cases w.final with
            | some f => exact Nat.le_refl _
            | none =>
                split_ifs
                · simp
                · exact Nat.le_refl _
        | write b =>
            exact (congrArg List.length ((sent_write w b).2.1.trans (informational_begin w))).ge
        | flush => exact (congrArg List.length (informational_begin w)).ge
      have hr : (r.call m.table call).inner.informational = r.inner.informational := by
        cases call with
        | header name values => rfl
        | writeHeader code =>
            have hsame : r.call m.table (.writeHeader code) = r := if_pos hwrote
            rw [hsame]
        | write b =>
            rw [write_of_wrote hwrote]
            show ((r.tee b).inner.write b).informational = _
            rw [(inner_tee r b).1]
            exact (sent_write r.inner b).2.1.trans (informational_begin r.inner)
        | flush => exact informational_begin r.inner
      rw [hr]
      omega

end Lost

/-! ### After an informational `WriteHeader`

The recorder takes the first `WriteHeader` for the last, so a status that comes after it is
lost. -/

/-- The recorder has seen an informational `WriteHeader`, and the response has not begun. -/
structure Hinted (w : Writer) (r : Recorder) : Prop where
  inStep : InStep w r.inner
  final : w.final = none
  contentLength : w.contentLength = none
  wrote : r.wrote = true
  cacheable : r.cacheable = false

/-- The writer alone has been given its status, of which the recorder's knows nothing. -/
structure Behind (w : Writer) (r : Recorder) (code : Nat) (sent : Header) : Prop where
  inStep : InStep { w with final := none, contentLength := none } r.inner
  final : w.final = some (code, sent)
  contentLength : w.contentLength = declaredLength sent
  wrote : r.wrote = true
  cacheable : r.cacheable = false

section Hinted

variable {m : Miss} {table : CaseTable} {w : Writer} {r : Recorder} {code : Nat} {sent : Header}
  {ws : List (List UInt8)} {rest : List Call}

theorem begin_begin (w : Writer) : w.begin.begin = w.begin := by
  have hbegun : ∃ f, w.begin.final = some f := by
    unfold Writer.begin Writer.writeHeader
    cases hw : w.final with
    | none => exact ⟨_, rfl⟩
    | some f => exact ⟨f, hw⟩
  obtain ⟨f, hf⟩ := hbegun
  exact writeHeader_of_final hf 200

theorem write_begin (w : Writer) (b : List UInt8) : w.begin.write b = w.write b := by
  unfold Writer.write
  rw [begin_begin]

/-- A `Write` and the return begin the response as a `Flush` does. -/
theorem write_flush (hwrote : r.wrote = true) (hcache : r.cacheable = false) (b : List UInt8) :
    r.flush.write m.table b = r.write m.table b := by
  have hwrote' : r.flush.wrote = true := hwrote
  have hidle : r.tee b = r := tee_idle hcache
  have hidle' : r.flush.tee b = r.flush := tee_idle hcache
  unfold Recorder.write
  rw [if_pos hwrote, if_pos hwrote', hidle, hidle']
  exact congrArg (fun v => { r with inner := v }) (write_begin r.inner b)

theorem goodAfter_flush_nil : GoodAfter m w r.flush [] ↔ GoodAfter m w r [] := by
  have hinner : r.flush.inner.begin = r.inner.begin := begin_begin r.inner
  constructor
  · intro hgood
    have hmiss := hgood.miss
    rw [show ([].foldl (Recorder.call m.table) r.flush) = r.flush from rfl, hinner] at hmiss
    exact ⟨hmiss, hgood.hit⟩
  · intro hgood
    refine ⟨?_, hgood.hit⟩
    rw [show ([].foldl (Recorder.call m.table) r.flush) = r.flush from rfl, hinner]
    exact hgood.miss

theorem goodAfter_of_settled (h : Settled w r code sent ws) (hcache : r.cacheable = false) :
    GoodAfter m w r rest := by
  apply h.goodAfter_iff.mpr
  intro htrue
  rw [hcache] at htrue
  cases htrue

/-- When the recorder's response begins at last, it is the one that was meant or another. -/
theorem Behind.catchUp (h : Behind w r code sent) :
    r.inner.begin = { r.inner with
      final := some (200, r.inner.header)
      contentLength := declaredLength r.inner.header } :=
  writeHeader_answer (h.inStep.final_none rfl) rfl

theorem Behind.settled (h : Behind w r code sent) (hcode : code = 200)
    (hsame : SameHeader sent w.header) : Settled w r.flush code sent [] := by
  have hsent : SameHeader sent r.inner.header := hsame.trans h.inStep.header
  refine ⟨?_, h.final, h.contentLength, h.wrote, ?_⟩
  · show InStep w r.inner.begin
    rw [h.catchUp]
    refine ⟨h.inStep.head, h.inStep.header, ⟨h.inStep.received.informational, ?_,
      h.inStep.received.body⟩, h.contentLength.trans (declaredLength_congr hsent),
      h.inStep.written, h.inStep.empty⟩
    rw [h.final]
    exact ⟨hcode, hsent⟩
  · intro (hcache : r.cacheable = true)
    rw [h.cacheable] at hcache
    cases hcache

theorem Behind.lost (h : Behind w r code sent) (hne : ¬ (code = 200 ∧ SameHeader sent w.header)) :
    ¬ GoodAfter m w r.flush rest := by
  have hfinal : r.flush.inner.final = some (200, r.inner.header) := by
    show r.inner.begin.final = _
    rw [h.catchUp]
  apply not_goodAfter_of_final h.final hfinal (show r.flush.wrote = true from h.wrote)
  rintro ⟨hcode, hheader⟩
  exact hne ⟨hcode, SameHeader.trans hheader h.inStep.header.symm⟩

theorem Behind.goodAfter_flush (h : Behind w r code sent) :
    GoodAfter m w r.flush rest ↔ code = 200 ∧ SameHeader sent w.header := by
  constructor
  · intro hgood
    by_contra hne
    exact h.lost hne hgood
  · rintro ⟨hcode, hsame⟩
    exact goodAfter_of_settled (h.settled hcode hsame) h.cacheable

theorem Behind.goodAfter_iff (h : Behind w r code sent) :
    GoodAfter m w r rest ↔ code = 200 ∧ Settles sent w.header rest := by
  induction rest generalizing w r with
  | nil => exact goodAfter_flush_nil.symm.trans h.goodAfter_flush
  | cons call rest ih =>
      cases call with
      | header name values =>
          exact ih ⟨h.inStep.setHeader name values, h.final, h.contentLength, h.wrote, h.cacheable⟩
      | writeHeader c =>
          have hw : w.call (.writeHeader c) = w := writeHeader_of_final h.final c
          have hr : r.call m.table (.writeHeader c) = r := if_pos h.wrote
          unfold GoodAfter
          rw [List.foldl_cons, List.foldl_cons, hw, hr]
          exact ih h
      | flush =>
          have hw : w.call .flush = w := writeHeader_of_final h.final 200
          unfold GoodAfter
          rw [List.foldl_cons, List.foldl_cons, hw]
          exact h.goodAfter_flush
      | write b =>
          have hr : r.call m.table (.write b) = r.flush.call m.table (.write b) :=
            (write_flush h.wrote h.cacheable b).symm
          have hflush : GoodAfter m w r.flush (.write b :: rest) ↔ _ := h.goodAfter_flush
          unfold GoodAfter at hflush ⊢
          rw [List.foldl_cons (f := Recorder.call m.table), hr,
            ← List.foldl_cons (f := Recorder.call m.table)]
          exact hflush

theorem begin_sends (hw : w.final = none) : w.begin.final = some (200, w.header) ∧
    w.begin.contentLength = declaredLength w.header := by
  have hbegin := writeHeader_answer hw (show isInformational 200 = false from rfl)
  exact ⟨congrArg Writer.final hbegin, congrArg Writer.contentLength hbegin⟩

theorem Hinted.settled (h : Hinted w r) : Settled w.flush r.flush 200 w.header [] := by
  obtain ⟨hfinal, hlength⟩ := begin_sends h.final
  refine ⟨h.inStep.begin, hfinal, hlength, h.wrote, ?_⟩
  intro (hcache : r.cacheable = true)
  rw [h.cacheable] at hcache
  cases hcache

/-- Between an informational `WriteHeader` and the response. -/
theorem Hinted.goodAfter_iff (h : Hinted w r) :
    GoodAfter m w r rest ↔ AfterHint w.header rest := by
  induction rest generalizing w r with
  | nil =>
      simp only [AfterHint, iff_true]
      exact goodAfter_nil_of_uncacheable h.inStep h.cacheable
  | cons call rest ih =>
      cases call with
      | header name values =>
          exact ih ⟨h.inStep.setHeader name values, h.final, h.contentLength, h.wrote, h.cacheable⟩
      | flush =>
          simp only [AfterHint, iff_true]
          show GoodAfter m w.flush r.flush rest
          exact goodAfter_of_settled h.settled h.cacheable
      | write b =>
          simp only [AfterHint, iff_true]
          have hr : r.call m.table (.write b) = r.flush.call m.table (.write b) :=
            (write_flush h.wrote h.cacheable b).symm
          have hw : w.call (.write b) = w.flush.call (.write b) := (write_begin w b).symm
          have hgood : GoodAfter m w.flush r.flush (.write b :: rest) :=
            goodAfter_of_settled h.settled h.cacheable
          unfold GoodAfter at hgood ⊢
          rw [List.foldl_cons, List.foldl_cons, hr, hw]
          exact hgood
      | writeHeader c =>
          have hr : r.call m.table (.writeHeader c) = r := if_pos h.wrote
          have hstep : GoodAfter m w r (.writeHeader c :: rest) ↔
              GoodAfter m (w.writeHeader c) r rest := by
            unfold GoodAfter
            rw [List.foldl_cons, List.foldl_cons, hr]
            rfl
          rw [hstep, AfterHint]
          cases hcode : isInformational c with
          | true =>
              -- a second hint is sent without the recorder, and not with it
              have hfewer : r.inner.informational.length <
                (w.writeHeader c).informational.length := by
                rw [writeHeader_hint h.final hcode, ← h.inStep.received.informational.length_eq]
                simp
              constructor
              · intro hgood
                exact absurd hgood (not_goodAfter_of_hints h.wrote hfewer)
              · rintro ⟨rfl, -⟩
                cases hcode
          | false =>
              have hbehind : Behind (w.writeHeader c) r c w.header := by
                rw [writeHeader_answer h.final hcode]
                refine ⟨?_, rfl, rfl, h.wrote, h.cacheable⟩
                have hbefore : w = { w with final := none, contentLength := none } := by
                  rw [← h.final, ← h.contentLength]
                have hinStep := h.inStep
                rw [hbefore] at hinStep
                exact hinStep
              rw [hbehind.goodAfter_iff, writeHeader_answer h.final hcode]

end Hinted

/-! ### Every sequence of calls

The induction is on the calls; until the first `WriteHeader`, `Write` or `Flush` nothing is
decided. -/

/-- Nothing but headers so far. -/
structure Fresh (m : Miss) (w : Writer) (r : Recorder) : Prop where
  inStep : InStep w r.inner
  header : r.inner.header = w.header
  head : w.head = m.head
  final : w.final = none
  contentLength : w.contentLength = none
  written : w.written = 0
  body : w.body = []
  wrote : r.wrote = false
  cacheable : r.cacheable = false

section Fresh

variable {m : Miss} {w : Writer} {r : Recorder} {rest : List Call}

/-- What a `WriteHeader` leaves as it is. -/
structure Untouched (w w' : Writer) : Prop where
  header : w'.header = w.header
  head : w'.head = w.head
  written : w'.written = w.written
  body : w'.body = w.body

theorem untouched_writeHeader (w : Writer) (code : Nat) : Untouched w (w.writeHeader code) := by
  unfold Writer.writeHeader
  cases w.final with
  | some f => exact ⟨rfl, rfl, rfl, rfl⟩
  | none => split_ifs <;> exact ⟨rfl, rfl, rfl, rfl⟩

/-- A first `WriteHeader` that is final sends and copies the same header. -/
theorem Fresh.goodAfter_answer (h : Fresh m w r) {code : Nat}
    (hcode : isInformational code = false) :
    GoodAfter m (w.writeHeader code) (r.writeHeader m.table code) rest ↔
      (code = 200 → Copied m w.header w.header rest) := by
  have hdecided : Decided m.table r (r.writeHeader m.table code) code :=
    decided_writeHeader h.wrote h.cacheable code
  have hanswer := writeHeader_answer h.final hcode
  have hstep : InStep (w.writeHeader code) (r.writeHeader m.table code).inner := by
    rw [hdecided.inner]
    exact h.inStep.mark.writeHeader code
  have hsame := untouched_writeHeader w code
  have hsettled : Settled (w.writeHeader code) (r.writeHeader m.table code) code w.header [] :=
    hdecided.settled hstep (congrArg Writer.final hanswer) (congrArg Writer.contentLength hanswer)
      (fun heq => heq) (hsame.written.trans h.written) (hsame.body.trans h.body)
  exact hdecided.goodAfter_iff h.header h.head hsettled hsame.head

theorem Fresh.goodAfter_iff (h : Fresh m w r) :
    GoodAfter m w r rest ↔ Harmless m w.header rest := by
  induction rest generalizing w r with
  | nil =>
      simp only [Harmless, iff_true]
      exact goodAfter_nil_of_uncacheable h.inStep h.cacheable
  | cons call rest ih =>
      cases call with
      | header name values =>
          exact ih { h with
            inStep := h.inStep.setHeader name values
            header := congrArg (Header.set · name values) h.header }
      | flush =>
          have hsame := untouched_writeHeader w 200
          obtain ⟨hfinal, hlength⟩ := begin_sends h.final
          have hheader : r.inner.begin.header = w.begin.header :=
            (untouched_writeHeader r.inner 200).header.trans (h.header.trans hsame.header.symm)
          have hflushed : Flushed m w.flush r.flush w.header :=
            ⟨h.inStep.begin, hheader, hsame.head.trans h.head, hfinal, hlength,
              hsame.written.trans h.written, hsame.body.trans h.body, h.wrote, h.cacheable⟩
          have hgood : GoodAfter m w.flush r.flush rest ↔
              AfterFlush m w.header w.flush.header rest := hflushed.goodAfter_iff
          rw [show w.flush.header = w.header from hsame.header] at hgood
          exact hgood
      | write b =>
          have hr : r.call m.table (.write b) =
              (r.writeHeader m.table 200).call m.table (.write b) := write_eq_writeHeader h.wrote b
          have hw : w.call (.write b) = (w.writeHeader 200).call (.write b) :=
            (write_begin w b).symm
          have hgood : GoodAfter m (w.writeHeader 200) (r.writeHeader m.table 200)
              (.write b :: rest) ↔ _ := h.goodAfter_answer rfl
          unfold GoodAfter at hgood ⊢
          rw [List.foldl_cons, List.foldl_cons, hr, hw]
          exact hgood.trans (forall_prop_of_true rfl)
      | writeHeader code =>
          show GoodAfter m (w.writeHeader code) (r.writeHeader m.table code) rest ↔ _
          rw [Harmless]
          cases hcode : isInformational code with
          | false =>
              rw [if_neg (by decide)]
              exact h.goodAfter_answer hcode
          | true =>
              have hdecided : Decided m.table r (r.writeHeader m.table code) code :=
                decided_writeHeader h.wrote h.cacheable code
              have hhint := writeHeader_hint h.final hcode
              have hstep : InStep (w.writeHeader code) (r.writeHeader m.table code).inner := by
                rw [hdecided.inner]
                exact h.inStep.mark.writeHeader code
              have huncopied : (r.writeHeader m.table code).cacheable = false := by
                apply hdecided.refrains
                rintro ⟨rfl, -⟩
                cases hcode
              have hhinted : Hinted (w.writeHeader code) (r.writeHeader m.table code) :=
                ⟨hstep, (congrArg Writer.final hhint).trans h.final,
                  (congrArg Writer.contentLength hhint).trans h.contentLength, hdecided.wrote,
                  huncopied⟩
              rw [hhinted.goodAfter_iff, (untouched_writeHeader w code).header, if_pos rfl]

end Fresh

theorem head_foldl (calls : List Call) (w : Writer) :
    (calls.foldl Writer.call w).head = w.head := by
  have hwrite : ∀ (w : Writer) code, (w.writeHeader code).head = w.head :=
    fun w code => (untouched_writeHeader w code).head
  induction calls generalizing w with
  | nil => rfl
  | cons call rest ih =>
      rw [List.foldl_cons, ih]
      cases call with
      | header name values => rfl
      | writeHeader code => exact hwrite w code
      | write b => exact (sent_write w b).2.2.trans (hwrite w 200)
      | flush => exact hwrite w 200

/-- **What the recorder passes on.** Whatever a handler does with its writer, its client and
those of a later hit receive the response as it is without the recorder if and only if: it
begins with no informational response, or with one only and a status of 200 whose header stays
until the response begins; and, where it is stored, the header that is copied is the one that
was sent, and the body that is copied is the one that was received. -/
theorem transparent_iff_harmless (m : Miss) (h : Header) (calls : List Call) :
    Transparent m h calls ↔ Harmless m h calls := by
  have hfresh : Fresh m (Writer.new m.head h) (Recorder.new (Writer.new m.head h)) :=
    ⟨⟨rfl, .refl h, ⟨.nil, trivial, rfl⟩, rfl, rfl, fun _ => rfl⟩, rfl, rfl, rfl, rfl, rfl, rfl,
      rfl, rfl⟩
  have hhead : (calls.foldl Writer.call (Writer.new m.head h)).head = m.head :=
    head_foldl calls (Writer.new m.head h)
  have hgood : GoodAfter m (Writer.new m.head h) (Recorder.new (Writer.new m.head h)) calls ↔
      Harmless m h calls := hfresh.goodAfter_iff
  rw [← hgood]
  constructor
  · intro htransparent
    refine ⟨htransparent.miss, ?_⟩
    rw [hhead]
    exact htransparent.hit
  · intro hgood
    have hhit := hgood.hit
    rw [hhead] at hhit
    exact ⟨hgood.miss, hhit⟩

/-- After early hints the status of the response is lost: a client that should learn of a page
not found is told that all is well. -/
theorem early_hints_hide_status : ¬ ∀ m h calls, Transparent m h calls := by
  intro hall
  have htransparent := hall ⟨asciiTable, false, [], 60, fun _ => true⟩ (fun _ => [])
    [.writeHeader 103, .writeHeader 404]
  have hstatus : (404 : Nat) = 200 := htransparent.miss.final.1
  cases hstatus

end Quicgate.CacheRecorder
