import Quicgate.ServerNames

/-!
# Peeking at a ClientHello

`peekSNI` in `internal/engine/sni.go`, which reads the first handshake message off a connection
that is then forwarded as it came.  The message may be split over a few records, so the bytes of
the records are joined until they hold it.

A connection is what is still to be read of it.  A record is well formed by its fields, and a
message that is split over records is a prefix of what they carry.

`peeking_invisible` covers every stream of bytes: a message that is split over records is read
to its end and given on as it came, and any other stream has a record at fault, after which
nothing is read.
-/

namespace Quicgate.SniPeek

open Quicgate.ServerNames

/-! ### The code

The loop reads a record, joins it to those before and looks at what it has. -/

/-- The bytes that a connection still gives, and the error that a read ends with after them. -/
structure Conn where
  bytes : List UInt8
  ends : String
deriving DecidableEq, Repr

def readFull (conn : Conn) (n : Nat) : Except String (List UInt8) × Conn :=
  if n ≤ conn.bytes.length then
    (.ok (conn.bytes.take n), { conn with bytes := conn.bytes.drop n })
  else
    (.error (if conn.bytes ≠ [] ∧ conn.ends = "EOF" then "unexpected EOF" else conn.ends),
      { conn with bytes := [] })

def sniMaxRecords : Nat := 4

def uint24 (high mid low : UInt8) : Nat := (high.toNat * 256 + mid.toNat) * 256 + low.toNat

/-- What the joined bytes are found to be after a record. -/
inductive Found where
  | more
  | otherMessage
  | hello (length : Nat)
deriving DecidableEq, Repr

def inspect : List UInt8 → Found
  | type :: high :: mid :: low :: body =>
      if type ≠ 0x01 then .otherMessage
      else if uint24 high mid low ≤ body.length then .hello (4 + uint24 high mid low)
      else .more
  | _ => .more -- not even the handshake header yet

/-- The loop of `peekSNI`, for so many records: the name and the bytes for the backend. -/
def peekLoop : Nat → List UInt8 → List UInt8 → Conn → Except String (List UInt8 × List UInt8) × Conn
  | 0, _, _, conn =>
      (.error ("ClientHello spans more than " ++ toString sniMaxRecords ++ " records"), conn)
  | left + 1, hs, buf, conn =>
      match readFull conn 5 with
      | (.error why, conn) => (.error why, conn)
      | (.ok hdr, conn) =>
          let recLen := uint16 (hdr.getD 3 0) (hdr.getD 4 0)
          if hdr.getD 0 0 ≠ 0x16 then (.error "not a TLS handshake", conn)
          else if recLen < 1 ∨ 16384 < recLen then (.error "bad record length", conn)
          else match readFull conn recLen with
            | (.error why, conn) => (.error why, conn)
            | (.ok body, conn) =>
                match inspect (hs ++ body) with
                | .more => peekLoop left (hs ++ body) (buf ++ hdr ++ body) conn
                | .otherMessage =>
                    (.error "first handshake message is not a ClientHello", conn)
                | .hello n => (.ok (parseSNI ((hs ++ body).take n), buf ++ hdr ++ body), conn)

def peekSNI (conn : Conn) : Except String (List UInt8 × List UInt8) × Conn :=
  peekLoop sniMaxRecords [] [] conn

/-! ### Records and messages

What a client sends, as the records and the message it means. -/

/-- A handshake record of a length that is allowed. -/
structure Record where
  versionHigh : UInt8
  versionLow : UInt8
  high : UInt8
  low : UInt8
  payload : List UInt8
  length_eq : payload.length = uint16 high low
  nonempty : 1 ≤ payload.length
  bounded : payload.length ≤ 16384

def Record.bytes (r : Record) : List UInt8 :=
  0x16 :: r.versionHigh :: r.versionLow :: r.high :: r.low :: r.payload

def wire (records : List Record) : List UInt8 := records.flatMap Record.bytes

def joined (records : List Record) : List UInt8 := records.flatMap Record.payload

/-- A ClientHello: its header with the length of what follows. -/
structure ClientHello where
  high : UInt8
  mid : UInt8
  low : UInt8
  body : List UInt8
  length_eq : body.length = uint24 high mid low

def ClientHello.bytes (hello : ClientHello) : List UInt8 :=
  0x01 :: hello.high :: hello.mid :: hello.low :: hello.body

/-- The message is split over the records: the last one carries its end, and may carry more. -/
structure Splits (hello : ClientHello) (records : List Record) : Prop where
  few : records.length ≤ sniMaxRecords
  carried : hello.bytes <+: joined records
  ends : (joined records.dropLast).length < hello.bytes.length

/-! ### Faults

The fault of a stream is the first record with which no message can come of it any more. -/

/-- The first record of the bytes, of whatever type and length: its header and as much of what
the header says as there is. -/
def frame (bytes : List UInt8) : List UInt8 :=
  bytes.take (5 + uint16 (bytes.getD 3 0) (bytes.getD 4 0))

theorem frame_of_short {bytes : List UInt8} (h : bytes.length ≤ 5) : frame bytes = bytes :=
  List.take_of_length_le (by omega)

/-- After intact records that leave the message open comes the record at fault.  It is not a whole
handshake record of an allowed length, or it completes the header of another message, or it
is the last one allowed and the message is still open. -/
inductive AtFault (before : List Record) : List UInt8 → Prop
  | malformed {tail} (hopen : inspect (joined before) = .more)
    (hfew : before.length < sniMaxRecords)
      (hbad : ∀ r : Record, ¬ r.bytes <+: tail) : AtFault before tail
  | otherMessage {r : Record} {rest} (hopen : inspect (joined before) = .more)
      (hfew : before.length < sniMaxRecords)
      (hother : inspect (joined before ++ r.payload) = .otherMessage) :
      AtFault before (r.bytes ++ rest)
  | endless {r : Record} {rest} (hlast : before.length + 1 = sniMaxRecords)
      (hopen : inspect (joined before ++ r.payload) = .more) : AtFault before (r.bytes ++ rest)

/-! ### What a record adds

Joined bytes are open, hold the message, or cannot come to one. -/

/-- Bytes are open as long as nothing in them is decided. -/
theorem inspect_of_append {hs more : List UInt8} (h : inspect (hs ++ more) = .more) :
    inspect hs = .more := by
  match hs with
  | [] | [_] | [_, _] | [_, _, _] => rfl
  | type :: high :: mid :: low :: body =>
      simp only [List.cons_append, inspect] at h ⊢
      split_ifs at h ⊢ with htype hlong hlong'
      · rw [List.length_append] at hlong'
        omega
      · rfl

theorem inspect_hello (hello : ClientHello) (more : List UInt8) :
    inspect (hello.bytes ++ more) = .hello hello.bytes.length := by
  have hlen : uint24 hello.high hello.mid hello.low ≤ (hello.body ++ more).length := by
    rw [List.length_append, hello.length_eq]
    omega
  simp only [ClientHello.bytes, List.cons_append, inspect, if_pos hlen, List.length_cons]
  rw [hello.length_eq]
  simp only [ne_eq, not_true_eq_false, if_false]
  congr 1
  omega

/-- Less than the message leaves it open. -/
theorem inspect_of_start {hello : ClientHello} {hs : List UInt8} (hstart : hs <+: hello.bytes)
    (hshort : hs.length < hello.bytes.length) : inspect hs = .more := by
  obtain ⟨more, hmore⟩ := hstart
  match hs with
  | [] | [_] | [_, _] | [_, _, _] => rfl
  | type :: high :: mid :: low :: body =>
      simp only [ClientHello.bytes, List.cons_append, List.cons.injEq] at hmore
      obtain ⟨rfl, rfl, rfl, rfl, hbody⟩ := hmore
      simp only [ClientHello.bytes, List.length_cons] at hshort
      have hlen := hello.length_eq
      have hnot : ¬ uint24 hello.high hello.mid hello.low ≤ body.length := by omega
      simp [inspect, hnot]

/-- Where a message is found, it is a prefix. -/
theorem hello_of_inspect {hs : List UInt8} {n : Nat} (h : inspect hs = .hello n) :
    ∃ hello : ClientHello, hello.bytes <+: hs ∧ hello.bytes.length = n := by
  match hs with
  | type :: high :: mid :: low :: body =>
      simp only [inspect] at h
      split_ifs at h with htype hlen
      obtain rfl := Found.hello.inj h
      refine ⟨⟨high, mid, low, body.take (uint24 high mid low), ?_⟩, ?_, ?_⟩
      · rw [List.length_take]
        omega
      · refine ⟨body.drop (uint24 high mid low), ?_⟩
        simp [ClientHello.bytes, not_not.mp htype]
      · simp only [ClientHello.bytes, List.length_cons, List.length_take]
        omega

/-- One turn of the loop over an intact record. -/
theorem peekLoop_record (left : Nat) (hs buf : List UInt8) (r : Record) (rest : List UInt8)
    (ends : String) :
    peekLoop (left + 1) hs buf ⟨r.bytes ++ rest, ends⟩ =
      match inspect (hs ++ r.payload) with
      | .more => peekLoop left (hs ++ r.payload) (buf ++ r.bytes) ⟨rest, ends⟩
      | .otherMessage => (.error "first handshake message is not a ClientHello", ⟨rest, ends⟩)
      | .hello n => (.ok (parseSNI ((hs ++ r.payload).take n), buf ++ r.bytes), ⟨rest, ends⟩) := by
  have hheader : readFull ⟨r.bytes ++ rest, ends⟩ 5 =
      (.ok [0x16, r.versionHigh, r.versionLow, r.high, r.low], ⟨r.payload ++ rest, ends⟩) := by
    simp [readFull, Record.bytes]
  have hbody : readFull ⟨r.payload ++ rest, ends⟩ (uint16 r.high r.low) =
      (.ok r.payload, ⟨rest, ends⟩) := by
    have hlen : uint16 r.high r.low ≤ (r.payload ++ rest).length := by
      rw [List.length_append, r.length_eq]
      omega
    simp only [readFull]
    rw [if_pos hlen, ← r.length_eq, List.take_left, List.drop_left]
  have hallowed : ¬ (uint16 r.high r.low < 1 ∨ 16384 < uint16 r.high r.low) := by
    have hnonempty := r.nonempty
    have hbounded := r.bounded
    rw [r.length_eq] at hnonempty hbounded
    omega
  have hbuf : buf ++ [0x16, r.versionHigh, r.versionLow, r.high, r.low] ++ r.payload =
      buf ++ r.bytes := by
    simp [Record.bytes]
  rw [peekLoop, hheader]
  simp only [List.getD_cons_zero, List.getD_cons_succ, ne_eq, not_true_eq_false, if_false,
    if_neg hallowed, hbody, hbuf]

/-- Where no intact record is, no more is read than the header gives. -/
theorem peekLoop_malformed (left : Nat) (hs buf : List UInt8) {tail : List UInt8} (ends : String)
    (hbad : ∀ r : Record, ¬ r.bytes <+: tail) :
    ∃ why read unread, peekLoop (left + 1) hs buf ⟨tail, ends⟩ = (.error why, ⟨unread, ends⟩) ∧
      tail = read ++ unread ∧ read <+: frame tail := by
  match tail with
  | type :: versionHigh :: versionLow :: high :: low :: rest =>
      have hheader : readFull ⟨type :: versionHigh :: versionLow :: high :: low :: rest, ends⟩ 5 =
          (.ok [type, versionHigh, versionLow, high, low], ⟨rest, ends⟩) := by
        simp [readFull]
      have hframe : frame (type :: versionHigh :: versionLow :: high :: low :: rest) =
          [type, versionHigh, versionLow, high, low] ++ rest.take (uint16 high low) := by
        have hsize : 5 + uint16 high low = uint16 high low + 1 + 1 + 1 + 1 + 1 := by omega
        simp [frame, hsize]
      rw [peekLoop, hheader]
      simp only [List.getD_cons_zero, List.getD_cons_succ]
      split_ifs with htype hlength
      · exact ⟨_, _, rest, rfl, rfl, hframe ▸ List.prefix_append _ _⟩
      · exact ⟨_, _, rest, rfl, rfl, hframe ▸ List.prefix_append _ _⟩
      · by_cases hwhole : uint16 high low ≤ rest.length
        · -- this would be an intact record
          have hlen : (rest.take (uint16 high low)).length = uint16 high low := by
            rw [List.length_take]
            omega
          refine absurd ?_ (hbad ⟨versionHigh, versionLow, high, low, rest.take (uint16 high low),
            hlen, by omega, by omega⟩)
          refine ⟨rest.drop (uint16 high low), ?_⟩
          simp [Record.bytes, not_not.mp htype]
        · simp only [readFull, if_neg hwhole]
          refine ⟨_, type :: versionHigh :: versionLow :: high :: low :: rest, [], rfl, ?_, ?_⟩
          · rw [List.append_nil]
          · rw [hframe, List.take_of_length_le (by omega)]
            exact List.prefix_refl _
  | [] | [_] | [_, _] | [_, _, _] | [_, _, _, _] =>
      rw [peekLoop]
      refine ⟨_, _, [], rfl, (List.append_nil _).symm, ?_⟩
      exact (congrArg (_ <+: ·) (frame_of_short (by simp))).mpr (List.prefix_refl _)

theorem frame_record (r : Record) (rest : List UInt8) : frame (r.bytes ++ rest) = r.bytes := by
  have hlen : 5 + uint16 r.high r.low = r.bytes.length := by
    simp only [Record.bytes, List.length_cons, r.length_eq]
    omega
  have hheader : (r.bytes ++ rest).getD 3 0 = r.high ∧ (r.bytes ++ rest).getD 4 0 = r.low := by
    simp [Record.bytes]
  rw [frame, hheader.1, hheader.2, hlen, List.take_left]

/-! ### Records one after the other

The loop follows the records; the two ways it ends are those of `splits_or_atFault`. -/

theorem joined_append_singleton (records : List Record) (r : Record) :
    joined (records ++ [r]) = joined records ++ r.payload := by
  simp [joined]

theorem wire_append_singleton (records : List Record) (r : Record) :
    wire (records ++ [r]) = wire records ++ r.bytes := by
  simp [wire]

theorem wire_cons (r : Record) (records : List Record) :
    wire (r :: records) = r.bytes ++ wire records := rfl

/-- The loop joins a message however it is split, and stops after the record with its end. -/
theorem peekLoop_splits {hello : ClientHello} (rest : List UInt8) (ends : String)
    (records : List Record) :
    ∀ (before : List Record) (left : Nat), records ≠ [] → records.length ≤ left →
      hello.bytes <+: joined (before ++ records) →
      (joined (before ++ records).dropLast).length < hello.bytes.length →
      peekLoop left (joined before) (wire before) ⟨wire records ++ rest, ends⟩ =
        (.ok (parseSNI hello.bytes, wire (before ++ records)), ⟨rest, ends⟩) := by
  induction records with
  | nil =>
      intro before left hne
      exact absurd rfl hne
  | cons r records ih =>
      intro before left _ hleft hcarried hends
      obtain ⟨left, rfl⟩ : ∃ n, left = n + 1 :=
        ⟨left - 1, by simp only [List.length_cons] at hleft; omega⟩
      rw [wire_cons, List.append_assoc, peekLoop_record, ← joined_append_singleton,
        ← wire_append_singleton]
      have hshift : before ++ r :: records = (before ++ [r]) ++ records := by simp
      rw [hshift] at hcarried hends ⊢
      by_cases hlast : records = []
      · subst hlast
        rw [List.append_nil] at hcarried ⊢
        obtain ⟨more, hmore⟩ := hcarried
        rw [← hmore, inspect_hello]
        simp only [List.take_left]
        rfl
      · -- the bytes so far are within what the last record completes
        have hwithin : joined (before ++ [r]) <+: joined (before ++ [r] ++ records).dropLast := by
          rw [List.dropLast_append_of_ne_nil hlast]
          simp [joined]
        have hshort : (joined (before ++ [r])).length < hello.bytes.length :=
          Nat.lt_of_le_of_lt hwithin.length_le hends
        have hstart : joined (before ++ [r]) <+: hello.bytes := by
          refine List.prefix_of_prefix_length_le ?_ hcarried (Nat.le_of_lt hshort)
          simp [joined]
        rw [inspect_of_start hstart hshort]
        apply ih _ _ hlast _ hcarried hends
        simp only [List.length_cons] at hleft
        omega

/-- The loop stops with the record at fault. -/
theorem peekLoop_atFault {tail : List UInt8} (ends : String) (records : List Record) :
    ∀ (before : List Record) (left : Nat), left + before.length = sniMaxRecords →
      AtFault (before ++ records) tail →
      ∃ why read unread, peekLoop left (joined before) (wire before) ⟨wire records ++ tail, ends⟩ =
          (.error why, ⟨unread, ends⟩) ∧
        wire records ++ tail = read ++ unread ∧ read <+: wire records ++ frame tail := by
  induction records with
  | nil =>
      intro before left hleft hfault
      rw [List.append_nil] at hfault
      have hpos : ∃ n, left = n + 1 := by
        refine ⟨left - 1, ?_⟩
        cases hfault <;> omega
      obtain ⟨left, rfl⟩ := hpos
      cases hfault with
      | malformed hopen hfew hbad => exact peekLoop_malformed left _ _ ends hbad
      | @otherMessage r rest hopen hfew hother =>
          refine ⟨"first handshake message is not a ClientHello", r.bytes, rest, ?_, rfl, ?_⟩
          · change peekLoop (left + 1) (joined before) (wire before) ⟨r.bytes ++ rest, ends⟩ = _
            rw [peekLoop_record, hother]
          · exact (congrArg (r.bytes <+: ·) (frame_record r rest)).mpr (List.prefix_refl _)
      | @endless r rest hlast hopen =>
          obtain rfl : left = 0 := by omega
          refine ⟨"ClientHello spans more than " ++ toString sniMaxRecords ++ " records",
            r.bytes, rest,
            ?_, rfl, ?_⟩
          · change peekLoop 1 (joined before) (wire before) ⟨r.bytes ++ rest, ends⟩ = _
            rw [peekLoop_record, hopen]
            rfl
          · exact (congrArg (r.bytes <+: ·) (frame_record r rest)).mpr (List.prefix_refl _)
  | cons r records ih =>
      intro before left hleft hfault
      have hshift : before ++ r :: records = (before ++ [r]) ++ records := by simp
      rw [hshift] at hfault
      have hopen : inspect (joined before ++ r.payload) = .more ∧
        before.length + 1 < sniMaxRecords := by
        have hjoined : joined (before ++ [r] ++ records) =
            joined before ++ r.payload ++ joined records := by
          simp [joined]
        cases hfault with
        | malformed hopen hfew hbad =>
            rw [hjoined] at hopen
            simp only [List.length_append, List.length_cons, List.length_nil] at hfew
            exact ⟨inspect_of_append hopen, by omega⟩
        | otherMessage hopen hfew hother =>
            rw [hjoined] at hopen
            simp only [List.length_append, List.length_cons, List.length_nil] at hfew
            exact ⟨inspect_of_append hopen, by omega⟩
        | endless hlast hopen =>
            rw [hjoined, List.append_assoc] at hopen
            simp only [List.length_append, List.length_cons, List.length_nil] at hlast
            exact ⟨inspect_of_append hopen, by omega⟩
      obtain ⟨left, rfl⟩ : ∃ n, left = n + 1 := ⟨left - 1, by omega⟩
      obtain ⟨why, read, unread, hrun, hsplit, hread⟩ := ih (before ++ [r]) left
        (by rw [List.length_append, List.length_singleton]; omega) hfault
      refine ⟨why, r.bytes ++ read, unread, ?_, ?_, ?_⟩
      · rw [wire_cons, List.append_assoc, peekLoop_record, hopen.1, ← joined_append_singleton,
          ← wire_append_singleton]
        exact hrun
      · rw [wire_cons, List.append_assoc, hsplit, List.append_assoc]
      · rw [wire_cons, List.append_assoc]
        exact (List.prefix_append_right_inj _).mpr hread

/-- A record with which a message is found carries its end. -/
theorem splits_of_inspect {before : List Record} {r : Record} {n : Nat}
    (hopen : inspect (joined before) = .more) (hfew : before.length < sniMaxRecords)
    (hfound : inspect (joined before ++ r.payload) = .hello n) :
    ∃ hello, Splits hello (before ++ [r]) := by
  obtain ⟨hello, hstart, -⟩ := hello_of_inspect hfound
  refine ⟨hello, ?_, ?_, ?_⟩
  · rw [List.length_append, List.length_singleton]
    omega
  · rwa [joined_append_singleton]
  · rw [List.dropLast_concat]
    by_contra hlong
    -- else the message would have been found before
    have hearlier : hello.bytes <+: joined before :=
      List.prefix_of_prefix_length_le hstart (List.prefix_append _ _) (Nat.not_lt.mp hlong)
    obtain ⟨more, hmore⟩ := hearlier
    rw [← hmore, inspect_hello] at hopen
    cases hopen

/-- What comes after records that leave the message open. -/
theorem next_record {before : List Record} (tail : List UInt8)
    (hopen : inspect (joined before) = .more) (hfew : before.length < sniMaxRecords) :
    (∃ r rest hello, tail = Record.bytes r ++ rest ∧ Splits hello (before ++ [r])) ∨
      AtFault before tail ∨
      ∃ r rest, tail = Record.bytes r ++ rest ∧ inspect (joined before ++ r.payload) = .more := by
  by_cases hrecord : ∃ r : Record, r.bytes <+: tail
  · obtain ⟨r, rest, rfl⟩ := hrecord
    cases hfound : inspect (joined before ++ r.payload) with
    | more => exact Or.inr (Or.inr ⟨r, rest, rfl, hfound⟩)
    | otherMessage => exact Or.inr (Or.inl (.otherMessage hopen hfew hfound))
    | hello n =>
        obtain ⟨hello, hsplits⟩ := splits_of_inspect hopen hfew hfound
        exact Or.inl ⟨r, rest, hello, rfl, hsplits⟩
  · exact Or.inr (Or.inl (.malformed hopen hfew fun r hr => hrecord ⟨r, hr⟩))

/-- Every stream begins with a message that is split over records, or has a record at fault. -/
theorem splits_or_atFault (left : Nat) :
    ∀ (before : List Record) (tail : List UInt8), left + 1 + before.length = sniMaxRecords →
      inspect (joined before) = .more →
      (∃ hello records rest, Splits hello (before ++ records) ∧ tail = wire records ++ rest) ∨
        ∃ records tail', tail = wire records ++ tail' ∧ AtFault (before ++ records) tail' := by
  induction left with
  | zero =>
      intro before tail hleft hopen
      rcases next_record tail hopen (by omega) with
        ⟨r, rest, hello, rfl, hsplits⟩ | hfault | ⟨r, rest, rfl, hmore⟩
      · exact Or.inl ⟨hello, [r], rest, hsplits, by simp [wire]⟩
      · exact Or.inr ⟨[], tail, rfl, by rwa [List.append_nil]⟩
      · refine Or.inr ⟨[], r.bytes ++ rest, rfl, ?_⟩
        rw [List.append_nil]
        exact .endless (by omega) hmore
  | succ left ih =>
      intro before tail hleft hopen
      rcases next_record tail hopen (by omega) with
        ⟨r, rest, hello, rfl, hsplits⟩ | hfault | ⟨r, rest, rfl, hmore⟩
      · exact Or.inl ⟨hello, [r], rest, hsplits, by simp [wire]⟩
      · exact Or.inr ⟨[], tail, rfl, by rwa [List.append_nil]⟩
      · have hlength : left + 1 + (before ++ [r]).length = sniMaxRecords := by
          rw [List.length_append, List.length_singleton]
          omega
        rw [← joined_append_singleton] at hmore
        rcases ih (before ++ [r]) rest hlength hmore with
          ⟨hello, records, rest', hsplits, rfl⟩ | ⟨records, tail', rfl, hfault⟩
        · rw [List.append_assoc] at hsplits
          exact Or.inl ⟨hello, r :: records, rest', hsplits, by rw [wire_cons, List.append_assoc]⟩
        · rw [List.append_assoc] at hfault
          exact Or.inr ⟨r :: records, tail', by rw [wire_cons, List.append_assoc], hfault⟩

/-- A message that is split over records is read to its end and given on as it came, with the
name that it has however it is split.  Any other stream has a record at fault, and the error
comes before anything after that record is read. -/
theorem peeking_invisible (conn : Conn) :
    (∀ hello records rest, Splits hello records → conn.bytes = wire records ++ rest →
      ∃ buf unread, peekSNI conn = (.ok (parseSNI hello.bytes, buf), unread) ∧
        buf = wire records ∧ buf ++ unread.bytes = conn.bytes) ∧
    ((¬ ∃ hello records rest, Splits hello records ∧ conn.bytes = wire records ++ rest) →
      (∃ before tail, conn.bytes = wire before ++ tail ∧ AtFault before tail) ∧
        ∀ before tail, conn.bytes = wire before ++ tail → AtFault before tail →
          ∃ why read unread, peekSNI conn = (.error why, unread) ∧
            read ++ unread.bytes = conn.bytes ∧ read <+: wire before ++ frame tail) := by
  obtain ⟨bytes, ends⟩ := conn
  constructor
  · rintro hello records rest hsplits rfl
    have hne : records ≠ [] := by
      rintro rfl
      have hcarried := hsplits.carried.length_le
      simp [joined, ClientHello.bytes] at hcarried
    refine ⟨wire records, ⟨rest, ends⟩, ?_, rfl, rfl⟩
    exact peekLoop_splits rest ends records [] sniMaxRecords hne hsplits.few hsplits.carried
      hsplits.ends
  · intro hnone
    constructor
    · rcases splits_or_atFault 3 [] bytes rfl rfl with
        ⟨hello, records, rest, hsplits, rfl⟩ | ⟨records, tail, rfl, hfault⟩
      · exact absurd ⟨hello, records, rest, hsplits, rfl⟩ hnone
      · exact ⟨records, tail, rfl, hfault⟩
    · rintro before tail rfl hfault
      obtain ⟨why, read, unread, hrun, hsplit, hread⟩ :=
        peekLoop_atFault ends before [] sniMaxRecords rfl hfault
      exact ⟨why, read, ⟨unread, ends⟩, hrun, hsplit.symm, hread⟩

/-- A message of four bytes in two records, the second of which carries one byte more. -/
example : peekSNI ⟨[0x16, 3, 1, 0, 1, 1, 0x16, 3, 3, 0, 4, 0, 0, 0, 9, 7, 7], "EOF"⟩ =
    (.ok ([], [0x16, 3, 1, 0, 1, 1, 0x16, 3, 3, 0, 4, 0, 0, 0, 9]), ⟨[7, 7], "EOF"⟩) := by
  decide +kernel

end Quicgate.SniPeek
