import Quicgate.LengthPrefixed

/-!
# The server name of a ClientHello

`parseSNI` in `internal/engine/sni.go`, which reads the name that a stream is routed
by out of the first handshake message, and the grammar of that message.

The message is a row of length-prefixed fields, the last of which is the extensions:
records again, of which the first `server_name` holds a list of entries, records once
more.  Three declared lengths thus bound where the name may lie: that of the
extensions, of the extension and of the list.  The code checks that the bytes at hand
are at least as many as each length says, and walks on over all of them; only the
extension is cut to its length.

`parseSNI_agrees_iff` says for which byte strings code and grammar agree, and
`trailing_name_is_read` is one for which they do not.
-/

namespace Quicgate.ServerNames

open Quicgate.LengthPrefixed

def uint16 (hi lo : UInt8) : Nat := hi.toNat * 256 + lo.toNat

/-! ### The code

The functions and loops of the file, each a step over the bytes that are left. -/

def hostName : List UInt8 → List UInt8
  | nameType :: hi :: lo :: b =>
      if b.length < uint16 hi lo then []
      else if nameType = 0x00 then b.take (uint16 hi lo)
      else hostName (b.drop (uint16 hi lo))
  | _ => []
termination_by b => b.length
decreasing_by
  simp only [List.length_drop, List.length_cons]
  omega

def parseServerNameExt : List UInt8 → List UInt8
  | hi :: lo :: b => if b.length < uint16 hi lo then [] else hostName b
  | _ => []

def extensions : List UInt8 → List UInt8
  | typeHi :: typeLo :: hi :: lo :: p =>
      if p.length < uint16 hi lo then []
      else if uint16 typeHi typeLo = 0x0000 then parseServerNameExt (p.take (uint16 hi lo))
      else extensions (p.drop (uint16 hi lo))
  | _ => []
termination_by p => p.length
decreasing_by
  simp only [List.length_drop, List.length_cons]
  omega

/-- Steps over a field behind a length of one byte. -/
def skip8 : List UInt8 → Option (List UInt8)
  | len :: p => if p.length < len.toNat then none else some (p.drop len.toNat)
  | [] => none

/-- Steps over a field behind a length of two bytes. -/
def skip16 : List UInt8 → Option (List UInt8)
  | hi :: lo :: p => if p.length < uint16 hi lo then none else some (p.drop (uint16 hi lo))
  | _ => none

/-- The header of the message, its version and random. -/
def skipFixed : List UInt8 → Option (List UInt8)
  | type :: _ :: _ :: _ :: p =>
      if type ≠ 0x01 then none else if p.length < 34 then none else some (p.drop 34)
  | _ => none

/-- The length that the extensions are declared to have, and all that follows it. -/
def extensionBlock (b : List UInt8) : Option (Nat × List UInt8) := do
  let p ← skipFixed b
  let p ← skip8 p -- session_id
  let p ← skip16 p -- cipher_suites
  let p ← skip8 p -- compression_methods
  match p with
  | hi :: lo :: p => if p.length < uint16 hi lo then none else some (uint16 hi lo, p)
  | _ => none

def parseSNI (b : List UInt8) : List UInt8 :=
  match extensionBlock b with
  | some (_, p) => extensions p
  | none => []

/-! ### The grammar

The same message by its declared lengths alone. -/

def extension : Format UInt8 Nat where
  size := 4
  size_pos := by decide
  decode
    | [typeHi, typeLo, hi, lo] => (uint16 typeHi typeLo, uint16 hi lo)
    | _ => (0, 0)

def nameEntry : Format UInt8 UInt8 where
  size := 3
  size_pos := by decide
  decode
    | [nameType, hi, lo] => (nameType, uint16 hi lo)
    | _ => (0, 0)

/-- The fields before the extensions, with the length `k` that these are declared to have
and the bytes `p` after it, which are at least as many. -/
def Preamble (b : List UInt8) (k : Nat) (p : List UInt8) : Prop :=
  ∃ l₁ l₂ l₃ fixed sidLen sid csHi csLo cs cmLen cm hi lo,
    b = 0x01 :: l₁ :: l₂ :: l₃ :: (fixed ++ sidLen :: (sid ++ csHi :: csLo ::
      (cs ++ cmLen :: (cm ++ hi :: lo :: p)))) ∧
    fixed.length = 34 ∧ sid.length = sidLen.toNat ∧ cs.length = uint16 csHi csLo ∧
    cm.length = cmLen.toNat ∧ k = uint16 hi lo ∧ k ≤ p.length

/-- The `server_name_list` of an extension: its declared length and the bytes at hand. -/
def NameList (ext : List UInt8) (m : Nat) (list : List UInt8) : Prop :=
  ∃ hi lo, ext = hi :: lo :: list ∧ m = uint16 hi lo ∧ m ≤ list.length

/-- The name is the first `host_name` of the list of the first `server_name` extension, and
each of the three lies within the length declared for what it is in. -/
def ServerName (b n : List UInt8) : Prop :=
  ∃ k p stop ext m list stop', Preamble b k p ∧ Located extension 0 (p.take k) stop ext ∧
    NameList ext m list ∧ Located nameEntry 0 (list.take m) stop' n

/-- The first `server_name` extension of the bytes after the length of the extensions ends
within that length, and the first `host_name` of its bytes within the length of the list,
where there is a name at all. -/
def WithinLengths (b : List UInt8) : Prop :=
  ∀ k p stop ext m list stop' n, Preamble b k p → Located extension 0 p stop ext →
    NameList ext m list → Located nameEntry 0 list stop' n → n ≠ [] → stop ≤ k ∧ stop' ≤ m

/-! ### The code reads the grammar, lengths aside

Both sides are walks of `LengthPrefixed`; the code's are over all the bytes at hand, the
grammar's end where the lengths say. -/

theorem hostName_eq (b : List UInt8) : hostName b = (find nameEntry 0 b).getD [] := by
  induction b using hostName.induct with
  | case1 nameType hi lo b hshort =>
      rw [hostName, if_pos hshort, find]
      simp [nameEntry, hshort]
  | case2 hi lo b hlen =>
      rw [hostName, if_neg hlen, find]
      simp [nameEntry, hlen]
  | case3 nameType hi lo b hlen htype ih =>
      rw [hostName, if_neg hlen, if_neg htype, ih]
      conv_rhs => rw [find]
      simp [nameEntry, hlen, htype]
  | case4 b hb =>
      have hshort : ¬ nameEntry.size ≤ b.length := by
        intro hsize
        rcases b with _ | ⟨nameType, _ | ⟨hi, _ | ⟨lo, rest⟩⟩⟩
        · exact absurd hsize (by decide)
        · exact absurd hsize (by simp [nameEntry])
        · exact absurd hsize (by simp [nameEntry])
        · exact hb nameType hi lo rest rfl
      rw [hostName.eq_2 b hb, find, if_neg hshort]
      rfl

theorem extensions_eq (p : List UInt8) :
    extensions p = (find extension 0 p).elim [] parseServerNameExt := by
  induction p using extensions.induct with
  | case1 typeHi typeLo hi lo p hshort =>
      rw [extensions, if_pos hshort, find]
      simp [extension, hshort]
  | case2 typeHi typeLo hi lo p hlen htype =>
      rw [extensions, if_neg hlen, if_pos htype, find]
      simp [extension, hlen, htype]
  | case3 typeHi typeLo hi lo p hlen htype ih =>
      rw [extensions, if_neg hlen, if_neg htype, ih]
      conv_rhs => rw [find]
      simp [extension, hlen, htype]
  | case4 p hp =>
      have hshort : ¬ extension.size ≤ p.length := by
        intro hsize
        rcases p with _ | ⟨typeHi, _ | ⟨typeLo, _ | ⟨hi, _ | ⟨lo, rest⟩⟩⟩⟩
        · exact absurd hsize (by decide)
        · exact absurd hsize (by simp [extension])
        · exact absurd hsize (by simp [extension])
        · exact absurd hsize (by simp [extension])
        · exact hp typeHi typeLo hi lo rest rfl
      rw [extensions.eq_2 p hp, find, if_neg hshort]
      rfl

/-- Stepping over a field of `n` bytes. -/
theorem drop_eq_some {p q : List UInt8} {n : Nat} :
    (if p.length < n then none else some (p.drop n)) = some q ↔
      ∃ field, p = field ++ q ∧ field.length = n := by
  constructor
  · intro h
    split_ifs at h with hshort
    obtain rfl := Option.some.inj h
    exact ⟨p.take n, (List.take_append_drop n p).symm, by rw [List.length_take]; omega⟩
  · rintro ⟨field, rfl, rfl⟩
    rw [if_neg (by simp), List.drop_left]

theorem skip8_eq_some {b p : List UInt8} :
    skip8 b = some p ↔ ∃ len field, b = len :: (field ++ p) ∧ field.length = len.toNat := by
  cases b with
  | nil => simp [skip8]
  | cons len rest =>
      rw [skip8, drop_eq_some]
      constructor
      · rintro ⟨field, rfl, hlen⟩
        exact ⟨len, field, rfl, hlen⟩
      · rintro ⟨len', field, heq, hlen⟩
        obtain ⟨rfl, rfl⟩ := List.cons.inj heq
        exact ⟨field, rfl, hlen⟩

theorem skip16_eq_some {b p : List UInt8} :
    skip16 b = some p ↔
      ∃ hi lo field, b = hi :: lo :: (field ++ p) ∧ field.length = uint16 hi lo := by
  match b with
  | [] => simp [skip16]
  | [_] => simp [skip16]
  | hi :: lo :: rest =>
      rw [skip16, drop_eq_some]
      constructor
      · rintro ⟨field, rfl, hlen⟩
        exact ⟨hi, lo, field, rfl, hlen⟩
      · rintro ⟨hi', lo', field, heq, hlen⟩
        obtain ⟨rfl, htail⟩ := List.cons.inj heq
        obtain ⟨rfl, rfl⟩ := List.cons.inj htail
        exact ⟨field, rfl, hlen⟩

theorem skipFixed_eq_some {b p : List UInt8} :
    skipFixed b = some p ↔
      ∃ l₁ l₂ l₃ fixed, b = 0x01 :: l₁ :: l₂ :: l₃ :: (fixed ++ p) ∧ fixed.length = 34 := by
  constructor
  · intro h
    match b with
    | type :: l₁ :: l₂ :: l₃ :: rest =>
        rw [skipFixed] at h
        split_ifs at h with htype hshort
        obtain ⟨fixed, rfl, hlen⟩ := drop_eq_some.mp ((if_neg hshort).trans h)
        exact ⟨l₁, l₂, l₃, fixed, by rw [not_not.mp htype], hlen⟩
    | [] | [_] | [_, _] | [_, _, _] => simp [skipFixed] at h
  · rintro ⟨l₁, l₂, l₃, fixed, rfl, hlen⟩
    rw [skipFixed, if_neg (by simp)]
    exact drop_eq_some.mpr ⟨fixed, rfl, hlen⟩

theorem extensionBlock_eq_some {b p : List UInt8} {k : Nat} :
    extensionBlock b = some (k, p) ↔ Preamble b k p := by
  simp only [extensionBlock, Option.bind_eq_bind, Option.bind_eq_some_iff, skipFixed_eq_some,
    skip8_eq_some, skip16_eq_some]
  constructor
  · rintro ⟨-, ⟨l₁, l₂, l₃, fixed, rfl, hfixed⟩, -, ⟨sidLen, sid, rfl, hsid⟩, -,
      ⟨csHi, csLo, cs, rfl, hcs⟩, rest, ⟨cmLen, cm, rfl, hcm⟩, h⟩
    match rest with
    | hi :: lo :: rest =>
        simp only at h
        split_ifs at h with hshort
        obtain ⟨rfl, rfl⟩ := Prod.mk.inj (Option.some.inj h)
        exact ⟨l₁, l₂, l₃, fixed, sidLen, sid, csHi, csLo, cs, cmLen, cm, hi, lo, rfl, hfixed, hsid,
          hcs, hcm, rfl, Nat.le_of_not_lt hshort⟩
    | [] | [_] => cases h
  · rintro ⟨l₁, l₂, l₃, fixed, sidLen, sid, csHi, csLo, cs, cmLen, cm, hi, lo, rfl, hfixed, hsid,
      hcs, hcm, rfl, hle⟩
    exact ⟨_, ⟨l₁, l₂, l₃, fixed, rfl, hfixed⟩, _, ⟨sidLen, sid, rfl, hsid⟩, _,
      ⟨csHi, csLo, cs, rfl, hcs⟩, _, ⟨cmLen, cm, rfl, hcm⟩, if_neg (Nat.not_lt.mpr hle)⟩

theorem parseServerNameExt_eq {ext list : List UInt8} {m : Nat} (h : NameList ext m list) :
    parseServerNameExt ext = hostName list := by
  obtain ⟨hi, lo, rfl, rfl, hle⟩ := h
  rw [parseServerNameExt, if_neg (Nat.not_lt.mpr hle)]

theorem nameList_of_parse {ext : List UInt8} (h : parseServerNameExt ext ≠ []) :
    ∃ m list, NameList ext m list := by
  match ext with
  | hi :: lo :: list =>
      rw [parseServerNameExt] at h
      split_ifs at h with hshort
      · exact absurd rfl h
      · exact ⟨_, list, hi, lo, rfl, rfl, Nat.le_of_not_lt hshort⟩
  | [] | [_] => exact absurd rfl h

section Walks

variable {b n p ext list : List UInt8} {k m stop stop' : Nat}

theorem parseSNI_of_located (hpre : Preamble b k p) (hext : Located extension 0 p stop ext)
    (hlist : NameList ext m list) (hname : Located nameEntry 0 list stop' n) : parseSNI b = n := by
  have hfind := find_eq_some.mpr ⟨stop', hname⟩
  rw [parseSNI, extensionBlock_eq_some.mpr hpre]
  simp only
  rw [extensions_eq, find_eq_some.mpr ⟨stop, hext⟩, Option.elim_some, parseServerNameExt_eq hlist,
    hostName_eq, hfind, Option.getD_some]

/-- The code finds a name exactly where the walks over all the bytes lead to. -/
theorem located_of_parseSNI (hn : n ≠ []) (h : parseSNI b = n) :
    ∃ k p stop ext m list stop', Preamble b k p ∧ Located extension 0 p stop ext ∧
    NameList ext m list ∧ Located nameEntry 0 list stop' n := by
  unfold parseSNI at h
  split at h
  case h_1 k p hblock =>
    rw [extensions_eq] at h
    cases hext : find extension 0 p with
    | none =>
        rw [hext] at h
        exact absurd h.symm hn
    | some ext =>
        rw [hext] at h
        obtain ⟨stop, hstop⟩ := find_eq_some.mp hext
        obtain ⟨m, list, hlist⟩ := nameList_of_parse (h.trans_ne hn)
        have hname : hostName list = n := (parseServerNameExt_eq hlist).symm.trans h
        rw [hostName_eq] at hname
        cases hfind : find nameEntry 0 list with
        | none =>
            rw [hfind] at hname
            exact absurd hname.symm hn
        | some name =>
            rw [hfind] at hname
            obtain rfl : name = n := hname
            obtain ⟨stop', hstop'⟩ := find_eq_some.mp hfind
            exact ⟨k, p, stop, ext, m, list, stop', extensionBlock_eq_some.mp hblock, hstop, hlist,
              hstop'⟩
  case h_2 => exact absurd h.symm hn

theorem Preamble.unique {k' : Nat} {p' : List UInt8} (h : Preamble b k p) (h' : Preamble b k' p') :
    k = k' ∧ p = p' := by
  have hblock := extensionBlock_eq_some.mpr h
  rw [extensionBlock_eq_some.mpr h'] at hblock
  obtain ⟨rfl, rfl⟩ := Prod.mk.inj (Option.some.inj hblock)
  exact ⟨rfl, rfl⟩

theorem NameList.unique {m' : Nat} {list' : List UInt8} (h : NameList ext m list)
    (h' : NameList ext m' list') : m = m' ∧ list = list' := by
  obtain ⟨hi, lo, rfl, rfl, -⟩ := h
  obtain ⟨hi', lo', heq, rfl, -⟩ := h'
  obtain ⟨rfl, htail⟩ := List.cons.inj heq
  obtain ⟨rfl, rfl⟩ := List.cons.inj htail
  exact ⟨rfl, rfl⟩

/-- The name of the grammar is found. -/
theorem parseSNI_of_serverName (h : ServerName b n) : parseSNI b = n := by
  obtain ⟨k, p, stop, ext, m, list, stop', hpre, hext, hlist, hname⟩ := h
  exact parseSNI_of_located hpre (located_take.mp hext).1 hlist (located_take.mp hname).1

end Walks

/-- **The server name.**  For every byte string, the name that `parseSNI` finds, if it finds
one, is the name of the grammar, and the name of the grammar is found, if and only if the
records the walks arrive at end within the declared lengths. -/
theorem parseSNI_agrees_iff (b : List UInt8) :
    ((∀ n, n ≠ [] → parseSNI b = n → ServerName b n) ∧ (∀ n, ServerName b n → parseSNI b = n)) ↔
      WithinLengths b := by
  constructor
  · rintro ⟨hsound, -⟩ k p stop ext m list stop' n hpre hext hlist hname hn
    obtain ⟨k', p', stop₁, ext', m', list', stop₂, hpre', hext', hlist', hname'⟩ :=
      hsound n hn (parseSNI_of_located hpre hext hlist hname)
    obtain ⟨rfl, rfl⟩ := hpre.unique hpre'
    obtain ⟨hext', hk⟩ := located_take.mp hext'
    obtain ⟨rfl, rfl⟩ := hext.unique hext'
    obtain ⟨rfl, rfl⟩ := hlist.unique hlist'
    obtain ⟨hname', hm⟩ := located_take.mp hname'
    obtain ⟨rfl, -⟩ := hname.unique hname'
    exact ⟨hk, hm⟩
  · intro hwithin
    refine ⟨?_, fun n h => parseSNI_of_serverName h⟩
    intro n hn h
    obtain ⟨k, p, stop, ext, m, list, stop', hpre, hext, hlist, hname⟩ := located_of_parseSNI hn h
    obtain ⟨hk, hm⟩ := hwithin k p stop ext m list stop' n hpre hext hlist hname hn
    exact ⟨k, p, stop, ext, m, list, stop', hpre, hext.take hk, hlist, hname.take hm⟩

/-- A ClientHello that declares no extensions and goes on with one. -/
def trailingName : List UInt8 :=
  0x01 :: 0 :: 0 :: 56 :: (List.replicate 34 0 ++
    [0, 0, 2, 0x13, 0x01, 1, 0, 0, 0, 0, 0, 0, 9, 0, 7, 0, 0, 4, 101, 118, 105, 108])

/-- It is routed by a name that the message does not carry. -/
theorem trailing_name_is_read :
    parseSNI trailingName = [101, 118, 105, 108] ∧
      ¬ ServerName trailingName [101, 118, 105, 108] := by
  have hblock : extensionBlock trailingName =
      some (0, [0, 0, 0, 9, 0, 7, 0, 0, 4, 101, 118, 105, 108]) := by decide
  constructor
  · rw [parseSNI, hblock]
    simp [extensions, uint16, parseServerNameExt, hostName]
  · rintro ⟨k, p, stop, ext, m, list, stop', hpre, hext, -⟩
    obtain ⟨rfl, rfl⟩ := hpre.unique (extensionBlock_eq_some.mp hblock)
    have hstop := hext.stop_le
    cases hext with
    | here hsize => exact absurd hsize (by decide)
    | later hsize => exact absurd hsize (by decide)

end Quicgate.ServerNames
