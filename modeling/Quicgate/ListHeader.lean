import Quicgate.GoRunes
import Quicgate.IdentityHeaders

/-!
# Lists in one header

`headerList` of `internal/engine/oidcauth.go`, over the bytes of the strings: the groups of a
session become one comma-separated header value.  A group is any sequence of bytes, and
whether it is encoded at all is asked rune by rune, so the argument is about bytes and
about what the runes of a string can hide.  On text, `Identity.headerList` is the same
function.

`headerList_unambiguous` says that the value is read back as the list, and that it has nothing in
it that could end the header's line.
-/

namespace Quicgate.ListHeader

open Quicgate.GoStrings Quicgate.GoRunes Quicgate.UrlPaths Quicgate.GoNet

def comma : UInt8 := 44

/-- What is encoded: the delimiter, the percent sign and the control characters. -/
def special (r : Nat) : Bool := r == 44 || r == 37 || decide (r < 0x20) || r == 0x7f

def upperHex (n : UInt8) : UInt8 := if n < 10 then 48 + n else 55 + n

def encodeByte (c : UInt8) : Bytes :=
  if special c.toNat then [percent, upperHex (c / 16), upperHex (c % 16)] else [c]

def encodeListItem (v : Bytes) : Bytes :=
  if (indexFunc special v).isNone then v else v.flatMap encodeByte

def headerList (values : List Bytes) : Bytes := [comma].intercalate (values.map encodeListItem)

/-- `CTL`: no field value may contain one. -/
def IsControl (b : UInt8) : Prop := b < 0x20 ∨ b = 0x7f

instance (b : UInt8) : Decidable (IsControl b) := inferInstanceAs (Decidable (_ ∨ _))

/-! ### One item

An item is written as it is or encoded; both ways come to the same, byte by byte. -/

theorem lt_of_special {b : UInt8} (h : special b.toNat = true) : b < 0x80 := by
  rw [UInt8.lt_iff_toNat_lt]
  simp only [special, Bool.or_eq_true, beq_iff_eq, decide_eq_true_eq] at h
  have hbound : (0x80 : UInt8).toNat = 128 := rfl
  omega

/-- An item is written byte by byte, whichever way it is written. -/
theorem encodeListItem_eq (v : Bytes) : encodeListItem v = v.flatMap encodeByte := by
  unfold encodeListItem
  split_ifs with hnone
  · have hplain : ∀ b ∈ v, encodeByte b = [b] := by
      intro b hb
      have hspecial : special b.toNat = false := by
        by_contra hyes
        have hyes : special b.toNat = true := by simpa using hyes
        rw [not_of_indexFunc (Option.isNone_iff_eq_none.mp hnone) hb (lt_of_special hyes)] at hyes
        cases hyes
      simp [encodeByte, hspecial]
    rw [List.flatMap_congr hplain, List.flatMap_singleton']
  · rfl

theorem upperHex_bounds {n : UInt8} (h : n < 16) : 48 ≤ upperHex n ∧ upperHex n ≤ 70 := by
  unfold upperHex
  grind

theorem hexDigit_upperHex {n : UInt8} (h : n < 16) : hexDigit (upperHex n) = some n := by
  unfold hexDigit upperHex
  grind

theorem plain_of_bounds {c : UInt8} (h : 48 ≤ c ∧ c ≤ 70) : c ≠ comma ∧ ¬ IsControl c := by
  unfold comma IsControl
  grind

theorem plain_of_not_special {c : UInt8} (h : special c.toNat = false) :
    c ≠ comma ∧ ¬ IsControl c := by
  simp only [special, Bool.or_eq_false_iff, beq_eq_false_iff_ne, decide_eq_false_iff_not] at h
  obtain ⟨⟨⟨hcomma, -⟩, hlow⟩, hdel⟩ := h
  refine ⟨fun heq => hcomma (by rw [heq]; rfl), ?_⟩
  rintro (hctl | hctl)
  · exact hlow (UInt8.lt_iff_toNat_lt.mp hctl)
  · exact hdel (by rw [hctl]; rfl)

/-- What is written for a byte can stand in the value, beside the commas. -/
theorem plain_of_mem_encodeByte {b c : UInt8} (h : c ∈ encodeByte b) :
    c ≠ comma ∧ ¬ IsControl c := by
  unfold encodeByte at h
  split_ifs at h with hspecial
  · simp only [List.mem_cons, List.not_mem_nil, or_false] at h
    rcases h with rfl | rfl | rfl
    · exact ⟨by decide, by decide⟩
    · exact plain_of_bounds (upperHex_bounds (by grind))
    · exact plain_of_bounds (upperHex_bounds (by grind))
  · rw [List.mem_singleton.mp h]
    exact plain_of_not_special (by simpa using hspecial)

theorem mem_encodeListItem {v : Bytes} {c : UInt8} (h : c ∈ encodeListItem v) :
    c ≠ comma ∧ ¬ IsControl c := by
  rw [encodeListItem_eq] at h
  obtain ⟨b, -, hc⟩ := List.mem_flatMap.mp h
  exact plain_of_mem_encodeByte hc

theorem percentDecode_cons {b : UInt8} (h : b ≠ percent) (rest : Bytes) :
    percentDecode (b :: rest) = b :: percentDecode rest := by
  rcases rest with - | ⟨c, - | ⟨d, rest⟩⟩
  · rfl
  · rfl
  · rw [percentDecode, if_neg h]

theorem percentDecode_encodeByte (b : UInt8) (rest : Bytes) :
    percentDecode (encodeByte b ++ rest) = b :: percentDecode rest := by
  unfold encodeByte
  split_ifs with hspecial
  · have hhigh : b / 16 < 16 := by grind
    have hlow : b % 16 < 16 := by grind
    have hbyte : 16 * (b / 16) + b % 16 = b := by grind
    simp only [List.cons_append, List.nil_append]
    rw [percentDecode, if_pos rfl, hexDigit_upperHex hhigh, hexDigit_upperHex hlow]
    simp only [hbyte]
  · have hne : b ≠ percent := by
      rintro rfl
      exact hspecial (by decide)
    exact percentDecode_cons hne rest

theorem percentDecode_encodeListItem (v : Bytes) : percentDecode (encodeListItem v) = v := by
  rw [encodeListItem_eq]
  induction v with
  | nil => rfl
  | cons b v ih => rw [List.flatMap_cons, percentDecode_encodeByte, ih]

/-! ### The list

Commas stand between items only, so the value is cut at them. -/

theorem decode_splitOn_headerList {groups : List Bytes} (hne : groups ≠ []) :
    ((headerList groups).splitOn comma).map percentDecode = groups := by
  have hcomma : ∀ item ∈ groups.map encodeListItem, comma ∉ item := by
    intro item hitem hmem
    obtain ⟨v, -, rfl⟩ := List.mem_map.mp hitem
    exact (mem_encodeListItem hmem).1 rfl
  rw [headerList, List.splitOn_intercalate comma hcomma (by simpa using hne), List.map_map]
  calc groups.map (percentDecode ∘ encodeListItem)
      = groups.map id := List.map_congr_left fun v _ => percentDecode_encodeListItem v
    _ = groups := List.map_id groups

theorem not_isControl_headerList (groups : List Bytes) :
    ∀ b ∈ headerList groups, ¬ IsControl b := by
  intro b hb
  rcases mem_of_mem_intercalate hb with rfl | ⟨item, hitem, hmem⟩
  · decide
  · obtain ⟨v, -, rfl⟩ := List.mem_map.mp hitem
    exact (mem_encodeListItem hmem).2

/-- The value splits at its commas into the items, which decode to the list, and no control
character is in it. No other list has the value. -/
theorem headerList_unambiguous (groups : List Bytes) (hne : groups ≠ []) :
    ((headerList groups).splitOn comma).map percentDecode = groups ∧
      (∀ b ∈ headerList groups, ¬ IsControl b) ∧
      ∀ others ≠ [], headerList others = headerList groups → others = groups := by
  refine ⟨decode_splitOn_headerList hne, not_isControl_headerList groups, ?_⟩
  intro others hothers heq
  rw [← decode_splitOn_headerList hne, ← heq, decode_splitOn_headerList hothers]

/-- The group `Sales, EMEA`, a byte that starts no rune, and a group without a name. -/
theorem headerList_unambiguous_sales :
    ((headerList [utf8 "Sales, EMEA", [0xff, 0x0a], []]).splitOn comma).map percentDecode =
        [utf8 "Sales, EMEA", [0xff, 0x0a], []] ∧
      (∀ b ∈ headerList [utf8 "Sales, EMEA", [0xff, 0x0a], []], ¬ IsControl b) ∧
      ∀ others ≠ [], headerList others = headerList [utf8 "Sales, EMEA", [0xff, 0x0a], []] →
        others = [utf8 "Sales, EMEA", [0xff, 0x0a], []] :=
  headerList_unambiguous _ (List.cons_ne_nil _ _)

/-! ### Text

On strings of characters, the bytes of the value are those of the value that the SSO gate sets. -/

theorem utf8_eq (s : String) : utf8 s = s.toList.flatMap String.utf8EncodeChar := by
  have h : s.toByteArray = s.toList.utf8Encode := by simp
  simp [utf8, String.toUTF8, h, List.utf8Encode]

theorem encodeByte_of_le {b : UInt8} (h : 0x80 ≤ b) : encodeByte b = [b] := by
  have hspecial : special b.toNat = false := by
    by_contra hyes
    exact absurd (lt_of_special (by simpa using hyes)) (UInt8.not_lt.mpr h)
  simp [encodeByte, hspecial]

theorem le_of_mem_utf8EncodeChar {c : Char} (hc : 128 ≤ c.toNat) {b : UInt8}
    (hb : b ∈ String.utf8EncodeChar c) : 0x80 ≤ b := by
  unfold String.utf8EncodeChar at hb
  have hbig : ¬ c.val.toNat ≤ 127 := by
    have : c.val.toNat = c.toNat := rfl
    omega
  simp only [if_neg hbig] at hb
  split_ifs at hb
  all_goals
    simp only [List.mem_cons, List.not_mem_nil, or_false] at hb
    rw [UInt8.le_iff_toNat_le]
    rcases hb with rfl | rfl | rfl | rfl <;> simp <;> omega

/-- The two readings of one character. -/
theorem utf8_encodeChar (c : Char) :
    (if c = ',' ∨ c = '%' ∨ c.toNat < 0x20 ∨ c.toNat = 0x7f then
      ['%', (Nat.digitChar (c.toNat / 16)).toUpper, (Nat.digitChar (c.toNat % 16)).toUpper]
    else [c]).flatMap String.utf8EncodeChar = (String.utf8EncodeChar c).flatMap encodeByte := by
  have hascii : ∀ n : Fin 128,
      (if Char.ofNat n = ',' ∨ Char.ofNat n = '%' ∨ (Char.ofNat n).toNat < 0x20 ∨
          (Char.ofNat n).toNat = 0x7f then
        ['%', (Nat.digitChar ((Char.ofNat n).toNat / 16)).toUpper,
          (Nat.digitChar ((Char.ofNat n).toNat % 16)).toUpper]
      else [Char.ofNat n]).flatMap String.utf8EncodeChar =
        (String.utf8EncodeChar (Char.ofNat n)).flatMap encodeByte := by decide +kernel
  by_cases hsmall : c.toNat < 128
  · simpa using hascii ⟨c.toNat, hsmall⟩
  · have hplain : ¬ (c = ',' ∨ c = '%' ∨ c.toNat < 0x20 ∨ c.toNat = 0x7f) := by
      rintro (rfl | rfl | h | h)
      · exact hsmall (by decide)
      · exact hsmall (by decide)
      · omega
      · omega
    have hbytes : ∀ b ∈ String.utf8EncodeChar c, encodeByte b = [b] := fun b hb =>
      encodeByte_of_le (le_of_mem_utf8EncodeChar (by omega) hb)
    rw [if_neg hplain, List.flatMap_singleton, List.flatMap_congr hbytes, List.flatMap_singleton']

theorem utf8_encodeListItem (v : String) :
    utf8 (Identity.encodeListItem v) = encodeListItem (utf8 v) := by
  rw [encodeListItem_eq, utf8_eq, utf8_eq, Identity.encodeListItem, String.toList_ofList,
    List.flatMap_assoc, List.flatMap_assoc]
  exact List.flatMap_congr fun c _ => utf8_encodeChar c

theorem flatMap_intercalate {α β : Type} (f : α → List β) (sep : List α) (parts : List (List α)) :
    (sep.intercalate parts).flatMap f = (sep.flatMap f).intercalate (parts.map (·.flatMap f)) := by
  induction parts with
  | nil => rfl
  | cons part rest ih =>
      cases rest with
      | nil => simp
      | cons next rest =>
          rw [List.intercalate_cons_cons, List.flatMap_append, List.flatMap_append, ih]
          simp [List.intercalate_cons_cons]

/-- On text the value is the one the SSO gate sets. -/
theorem utf8_headerList (values : List String) :
    utf8 (Identity.headerList values) = headerList (values.map utf8) := by
  have hcomma : (",".toList).flatMap String.utf8EncodeChar = [comma] := by decide
  have hitems : (values.map Identity.encodeListItem).map
    (fun s => s.toList.flatMap String.utf8EncodeChar) =
      (values.map utf8).map encodeListItem := by
    simp only [List.map_map]
    refine List.map_congr_left fun v _ => ?_
    exact (utf8_eq _).symm.trans (utf8_encodeListItem v)
  rw [utf8_eq, Identity.headerList, String.toList_intercalate, flatMap_intercalate, hcomma,
    List.map_map, headerList, ← hitems]
  rfl
end Quicgate.ListHeader
