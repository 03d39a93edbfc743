import Quicgate.GoNet

/-!
# Addresses as text

What Go writes for an address (`Addr.String` of `net/netip` and `IP.String` of `net`) is read
back as the same address.  An IPv6 address is written in its shortest form, with `::` for the
longest run of zero groups.

`parseAddr_text6` and `parseIP_ipText` are the two round trips; `ipText_injective` is what a
table whose keys are texts of addresses needs (`SavedBans`).
-/

namespace Quicgate.AddrText

open Quicgate.GoStrings Quicgate.GoNet Quicgate.Netip

/-! ### Writing an address

An address is eight groups of 16 bits, each written in hexadecimal without leading zeros. -/

def hexText (g : Nat) : List Char :=
  (if 0x1000 ≤ g then [Nat.digitChar (g / 4096)] else []) ++
    ((if 0x100 ≤ g then [Nat.digitChar (g / 256 % 16)] else []) ++
      ((if 0x10 ≤ g then [Nat.digitChar (g / 16 % 16)] else []) ++ [Nat.digitChar (g % 16)]))

def groups (x : BitVec 128) : List Nat :=
  (List.range 8).map fun i => x.toNat / 65536 ^ (7 - i) % 65536

/-- Where the run of zeros that starts at `i` ends. -/
def zerosEnd (gs : List Nat) (i : Nat) : Nat := i + ((gs.drop i).takeWhile (· == 0)).length

/-- Where `::` stands: the first of the longest runs of at least two zeros. -/
def longestZeros (gs : List Nat) : Option (Nat × Nat) :=
  (List.range gs.length).foldl
    (fun found i =>
      let j := zerosEnd gs i
      if 2 ≤ j - i ∧ found.elim 0 (fun run => run.2 - run.1) < j - i then some (i, j) else found)
    none

def join (gs : List Nat) : List Char := [':'].intercalate (gs.map hexText)

/-- `Addr.String` of an IPv6 address that is not a mapped one, less its zone. -/
def text6 (x : BitVec 128) : List Char :=
  match longestZeros (groups x) with
  | none => join (groups x)
  | some (i, j) => join ((groups x).take i) ++ ':' :: ':' :: join ((groups x).drop j)

def ipText (ip : IP) : List Char :=
  match to4 ip with
  | some x => text4 x
  | none => text6 ip

example : String.ofList (ipText 0x20010db8000000000000000000000001#128) = "2001:db8::1" := by
  decide +kernel

/-! ### One group

The digits of a group are read back up to the colon after them. -/

variable {g : Nat} {gs acc : List Nat} {ellipsis : Option Nat} {fuel : Nat} {rest : List Char}

theorem hexDigit_digitChar : ∀ d < 16, hexDigit (Nat.digitChar d) = some d := by decide

theorem hexText_ne_nil (g : Nat) : hexText g ≠ [] := by simp [hexText]

theorem length_hexText (g : Nat) : (hexText g).length ≤ 4 := by
  simp only [hexText, List.length_append]
  split_ifs <;> simp

theorem isSome_hexDigit (hg : g < 65536) : ∀ c ∈ hexText g, (hexDigit c).isSome = true := by
  intro c hc
  have hsmall : ∃ d < 16, c = Nat.digitChar d := by
    simp only [hexText, List.mem_append] at hc
    rcases hc with hc | hc | hc | hc
    · split_ifs at hc with hbig
      · exact ⟨_, by omega, List.mem_singleton.mp hc⟩
      · cases hc
    · split_ifs at hc with hbig
      · exact ⟨_, by omega, List.mem_singleton.mp hc⟩
      · cases hc
    · split_ifs at hc with hbig
      · exact ⟨_, by omega, List.mem_singleton.mp hc⟩
      · cases hc
    · exact ⟨_, by omega, List.mem_singleton.mp hc⟩
  obtain ⟨d, hd, rfl⟩ := hsmall
  rw [hexDigit_digitChar d hd]
  rfl

theorem hexValue_hexText (hg : g < 65536) : hexValue (hexText g) = g := by
  have hdigit (d : Nat) (hd : d < 16) : (hexDigit (Nat.digitChar d)).getD 0 = d := by
    rw [hexDigit_digitChar d hd]
    rfl
  have h3 := hdigit (g / 4096) (by omega)
  have h2 := hdigit (g / 256 % 16) (by omega)
  have h1 := hdigit (g / 16 % 16) (by omega)
  have h0 := hdigit (g % 16) (by omega)
  simp only [hexText]
  split_ifs <;>
    simp only [List.nil_append, List.cons_append, hexValue, List.foldl_cons, List.foldl_nil, h3, h2,
      h1, h0] <;>
    omega

/-- The digits of a group end where another character comes. -/
theorem digits_hexText (hg : g < 65536) (hrest : ∀ c ∈ rest.head?, hexDigit c = none) :
    (hexText g ++ rest).takeWhile (fun c => (hexDigit c).isSome) = hexText g ∧
      (hexText g ++ rest).dropWhile (fun c => (hexDigit c).isSome) = rest := by
  have hdigits := isSome_hexDigit hg
  have hstop : rest.takeWhile (fun c => (hexDigit c).isSome) = [] ∧
      rest.dropWhile (fun c => (hexDigit c).isSome) = rest := by
    cases rest with
    | nil => exact ⟨rfl, rfl⟩
    | cons c rest =>
        have hc : hexDigit c = none := hrest c rfl
        simp [hc]
  rw [List.takeWhile_append_of_pos hdigits, List.dropWhile_append_of_pos hdigits, hstop.1, hstop.2,
    List.append_nil]
  exact ⟨rfl, rfl⟩

/-! ### The group loop

The reader's loop meets one group after the other, and the double colon at most once. -/

theorem parseGroups_last (hg : g < 65536) (hacc : acc.length < 8) :
    parseGroups (fuel + 1) (hexText g) acc ellipsis = some (acc ++ [g], ellipsis, []) := by
  obtain ⟨htake, hdrop⟩ := @digits_hexText g [] hg (by simp)
  rw [List.append_nil] at htake hdrop
  unfold parseGroups
  simp only [htake, hdrop, hexValue_hexText hg, hexText_ne_nil, Nat.not_le.mpr hacc,
    Nat.not_lt.mpr (length_hexText g), or_self, if_false]

theorem parseGroups_colon (hg : g < 65536) (hacc : acc.length < 8) {c : Char} (hc : c ≠ ':') :
    parseGroups (fuel + 1) (hexText g ++ ':' :: c :: rest) acc ellipsis =
      parseGroups fuel (c :: rest) (acc ++ [g]) ellipsis := by
  obtain ⟨htake, hdrop⟩ := @digits_hexText g (':' :: c :: rest) hg (by simp [hexDigit])
  rw [parseGroups]
  simp only [htake, hdrop, hexValue_hexText hg, hexText_ne_nil, Nat.not_le.mpr hacc,
    Nat.not_lt.mpr (length_hexText g), or_self, if_false]
  split
  · rename_i heq
    cases heq
  · rename_i heq
    cases heq
  · rename_i heq
    cases heq
  · rename_i heq
    exact absurd (List.cons.inj (List.cons.inj heq).2).1 hc
  · rename_i heq
    rw [(List.cons.inj heq).2]
  · rename_i hother
    exact absurd rfl (hother _)

theorem parseGroups_double (hg : g < 65536) (hacc : acc.length < 8) :
    parseGroups (fuel + 1) (hexText g ++ ':' :: ':' :: rest) acc none =
      if rest = [] then some (acc ++ [g], some (acc ++ [g]).length, [])
      else parseGroups fuel rest (acc ++ [g]) (some (acc ++ [g]).length) := by
  obtain ⟨htake, hdrop⟩ := @digits_hexText g (':' :: ':' :: rest) hg (by simp [hexDigit])
  rw [parseGroups]
  simp only [htake, hdrop, hexValue_hexText hg, hexText_ne_nil, Nat.not_le.mpr hacc,
    Nat.not_lt.mpr (length_hexText g), or_self, if_false, Option.isSome_none, Bool.false_eq_true]

/-- Written groups start with a digit. -/
theorem head_hexText (hg : g < 65536) (rest : List Char) :
    ∃ c text, c ≠ ':' ∧ hexText g ++ rest = c :: text := by
  cases htext : hexText g with
  | nil => exact absurd htext (hexText_ne_nil g)
  | cons c text =>
      refine ⟨c, text ++ rest, ?_, rfl⟩
      rintro rfl
      have hdigit := isSome_hexDigit hg ':' (by simp [htext])
      simp [hexDigit] at hdigit

theorem join_cons_cons (g g' : Nat) (gs : List Nat) :
    join (g :: g' :: gs) = hexText g ++ ':' :: join (g' :: gs) := by
  simp [join]

theorem head_join (hne : gs ≠ []) (hlt : ∀ g ∈ gs, g < 65536) (rest : List Char) :
    ∃ c text, c ≠ ':' ∧ join gs ++ rest = c :: text := by
  cases gs with
  | nil => exact absurd rfl hne
  | cons g gs =>
      have hg := hlt g List.mem_cons_self
      cases gs with
      | nil =>
          have hjoin : join [g] = hexText g := by simp [join]
          rw [hjoin]
          exact head_hexText hg rest
      | cons g' gs =>
          rw [join_cons_cons, List.append_assoc]
          exact head_hexText hg _

/-- Written groups are read back, and what comes after `::` is read behind them. -/
theorem parseGroups_join (hne : gs ≠ []) (hlt : ∀ g ∈ gs, g < 65536)
    (hlen : acc.length + gs.length ≤ 8) (hfuel : gs.length ≤ fuel) :
    parseGroups fuel (join gs) acc ellipsis = some (acc ++ gs, ellipsis, []) ∧
      parseGroups fuel (join gs ++ ':' :: ':' :: rest) acc none =
        if rest = [] then some (acc ++ gs, some (acc ++ gs).length, [])
        else parseGroups (fuel - gs.length) rest (acc ++ gs) (some (acc ++ gs).length) := by
  induction gs generalizing acc fuel with
  | nil => exact absurd rfl hne
  | cons g gs ih =>
      have hg := hlt g List.mem_cons_self
      rw [List.length_cons] at hlen hfuel
      obtain ⟨fuel, rfl⟩ : ∃ left, fuel = left + 1 := ⟨fuel - 1, by omega⟩
      cases gs with
      | nil =>
          have hjoin : join [g] = hexText g := by simp [join]
          rw [hjoin, parseGroups_last hg (by omega), parseGroups_double hg (by omega)]
          exact ⟨rfl, rfl⟩
      | cons g' gs =>
          have hrec := @ih (acc ++ [g]) fuel (List.cons_ne_nil g' gs)
            (fun g hg => hlt g (List.mem_cons_of_mem _ hg))
            (by rw [List.length_append, List.length_singleton]; omega) (by omega)
          have hstart := @head_join (g' :: gs) (List.cons_ne_nil g' gs)
            fun g hg => hlt g (List.mem_cons_of_mem _ hg)
          rw [join_cons_cons, List.append_assoc, List.cons_append]
          constructor
          · obtain ⟨c, text, hc, htext⟩ := hstart []
            rw [List.append_nil] at htext
            rw [htext, parseGroups_colon hg (by omega) hc, ← htext, hrec.1, List.append_assoc,
              List.singleton_append]
          · obtain ⟨c, text, hc, htext⟩ := hstart (':' :: ':' :: rest)
            rw [htext, parseGroups_colon hg (by omega) hc, ← htext, hrec.2, List.append_assoc,
              List.singleton_append, @List.length_cons _ g, Nat.add_sub_add_right]

/-! ### The longest run of zeros

What `::` stands for can only be told from its length, so the run must have been maximal where
it stands. -/

def ZeroRun (gs : List Nat) (run : Nat × Nat) : Prop :=
  run.1 + 2 ≤ run.2 ∧ run.2 ≤ gs.length ∧
    gs = gs.take run.1 ++ List.replicate (run.2 - run.1) 0 ++ gs.drop run.2

theorem zeroRun_zerosEnd {i : Nat} (hi : i < gs.length) (h : 2 ≤ zerosEnd gs i - i) :
    ZeroRun gs (i, zerosEnd gs i) := by
  have hzeros : (gs.drop i).takeWhile (· == 0) =
      List.replicate ((gs.drop i).takeWhile (· == 0)).length 0 := by
    apply List.eq_replicate_of_mem
    intro g hg
    simpa using List.mem_takeWhile_imp hg
  have hlen : ((gs.drop i).takeWhile (· == 0)).length ≤ gs.length - i := by
    rw [← List.length_drop]
    exact (List.takeWhile_sublist _).length_le
  have hrest : gs.drop (zerosEnd gs i) = (gs.drop i).dropWhile (· == 0) := by
    rw [zerosEnd, ← List.drop_drop]
    generalize gs.drop i = tail
    calc tail.drop (tail.takeWhile (· == 0)).length
        = (tail.takeWhile (· == 0) ++ tail.dropWhile (· == 0)).drop
            (tail.takeWhile (· == 0)).length := by rw [List.takeWhile_append_dropWhile]
      _ = tail.dropWhile (· == 0) := List.drop_left
  refine ⟨by omega, by unfold zerosEnd; omega, ?_⟩
  rw [hrest]
  simp only [zerosEnd, Nat.add_sub_cancel_left]
  rw [← hzeros, List.append_assoc, List.takeWhile_append_dropWhile, List.take_append_drop]

theorem zeroRun_longestZeros {run : Nat × Nat} (h : longestZeros gs = some run) :
    ZeroRun gs run := by
  unfold longestZeros at h
  have hfold (is : List Nat) (his : ∀ i ∈ is, i < gs.length) (found : Option (Nat × Nat))
      (hfound : ∀ run, found = some run → ZeroRun gs run) :
      is.foldl
        (fun found i =>
          let j := zerosEnd gs i
          if 2 ≤ j - i ∧
            found.elim 0 (fun run => run.2 - run.1) < j - i then some (i, j) else found)
        found = some run → ZeroRun gs run := by
    induction is generalizing found with
    | nil => exact hfound run
    | cons i is ih =>
        rw [List.foldl_cons]
        apply ih fun i hi => his i (List.mem_cons_of_mem _ hi)
        intro run hrun
        simp only at hrun
        split_ifs at hrun with hlonger
        · obtain rfl := Option.some.inj hrun
          exact zeroRun_zerosEnd (his i List.mem_cons_self) hlonger.1
        · exact hfound run hrun
  exact hfold _ (fun i hi => List.mem_range.mp hi) none
    (fun _ h => absurd h.symm (Option.some_ne_none _)) h

/-! ### Whole addresses

The first special character of a text decides which reader takes it. -/

variable {x : BitVec 128}

@[simp] theorem length_groups (x : BitVec 128) : (groups x).length = 8 := by simp [groups]

theorem lt_of_mem_groups : ∀ g ∈ groups x, g < 65536 := by
  intro g hg
  obtain ⟨i, -, rfl⟩ := List.mem_map.mp hg
  exact Nat.mod_lt _ (by decide)

/-- The digits of a number to a base, from the left. -/
theorem foldl_digits (b n x : Nat) :
    ((List.range n).map fun i => x / b ^ (n - 1 - i) % b).foldl (fun value g => value * b + g) 0 =
      x % b ^ n := by
  induction n generalizing x with
  | zero => simp [Nat.mod_one]
  | succ n ih =>
      have hfront : (List.range n).map (fun i => x / b ^ (n + 1 - 1 - i) % b) =
          (List.range n).map fun i => x / b / b ^ (n - 1 - i) % b := by
        apply List.map_congr_left
        intro i hi
        have hi := List.mem_range.mp hi
        rw [Nat.div_div_eq_div_mul, ← Nat.pow_succ', show (n - 1 - i).succ = n + 1 - 1 - i by omega]
      rw [List.range_succ, List.map_append, List.foldl_append, hfront, ih]
      simp only [List.map_cons, List.map_nil, List.foldl_cons, List.foldl_nil, Nat.add_sub_cancel,
        Nat.sub_self, Nat.pow_zero, Nat.div_one]
      rw [Nat.pow_succ', Nat.mod_mul, Nat.mul_comm b, Nat.add_comm]

theorem foldl_groups (x : BitVec 128) :
    (groups x).foldl (fun value g => value * 65536 + g) 0 = x.toNat := by
  have hdigits := foldl_digits 65536 8 x.toNat
  have hlt : x.toNat < 65536 ^ 8 := x.isLt
  rwa [Nat.mod_eq_of_lt hlt] at hdigits

theorem mem_join (hlt : ∀ g ∈ gs, g < 65536) :
    ∀ c ∈ join gs, (hexDigit c).isSome = true ∨ c = ':' := by
  intro c hc
  rcases mem_of_mem_intercalate hc with rfl | ⟨text, htext, hc⟩
  · exact Or.inr rfl
  · obtain ⟨g, hg, rfl⟩ := List.mem_map.mp htext
    exact Or.inl (isSome_hexDigit (hlt g hg) c hc)

theorem mem_text6 : ∀ c ∈ text6 x, (hexDigit c).isSome = true ∨ c = ':' := by
  intro c hc
  unfold text6 at hc
  split at hc
  · exact mem_join lt_of_mem_groups c hc
  · rename_i i j _
    rcases List.mem_append.mp hc with hc | hc
    · exact mem_join (fun g hg => lt_of_mem_groups g (List.mem_of_mem_take hg)) c hc
    · rcases List.mem_cons.mp hc with rfl | hc
      · exact Or.inr rfl
      · rcases List.mem_cons.mp hc with rfl | hc
        · exact Or.inr rfl
        · exact mem_join (fun g hg => lt_of_mem_groups g (List.mem_of_mem_drop hg)) c hc

theorem colon_mem_text6 : ':' ∈ text6 x := by
  unfold text6
  split
  · cases hgroups : groups x with
    | nil => simpa [hgroups] using length_groups x
    | cons g gs =>
        cases gs with
        | nil => simpa [hgroups] using length_groups x
        | cons g' gs => simp [join_cons_cons]
  · simp

/-- The address that the groups make, when all of the text was read. -/
def address (parsed : Option (List Nat × Option Nat × List Char)) : Option Addr :=
  match parsed with
  | some (groups, ellipsis, []) =>
      (expandGroups groups ellipsis).map fun all =>
        .v6 (BitVec.ofNat 128 (all.foldl (fun value g => value * 65536 + g) 0)) ""
  | _ => none

/-! ### The readers

The reader of addresses is chosen by the first dot, colon or percent sign; what was written
has the one that leads back to its own reader. -/

theorem parseIPv6_of_digit {c : Char} (hc : c ≠ ':') (hzone : '%' ∉ c :: rest) :
    parseIPv6 (c :: rest) = address (parseGroups 9 (c :: rest) [] none) := by
  unfold parseIPv6
  simp only [cut_of_not_mem hzone, Bool.false_eq_true, false_and, if_false]
  change address _ = address _
  congr 1
  split
  · rename_i heq
    exact absurd (List.cons.inj heq).1 hc
  · rename_i heq
    exact absurd (List.cons.inj heq).1 hc
  · rfl

theorem parseIPv6_of_double (hzone : '%' ∉ rest) :
    parseIPv6 (':' :: ':' :: rest) =
      address (if rest = [] then some ([], some 0, []) else parseGroups 9 rest [] (some 0)) := by
  have hnone : '%' ∉ ':' :: ':' :: rest := by simp [hzone]
  unfold parseIPv6 address
  simp only [cut_of_not_mem hnone, Bool.false_eq_true, false_and, if_false]
  cases rest with
  | nil => rfl
  | cons c rest => rfl

theorem parseIPv6_text6 (x : BitVec 128) : parseIPv6 (text6 x) = some (.v6 x "") := by
  have hlt := @lt_of_mem_groups x
  have hlen := length_groups x
  have hvalue : address (some (groups x, none, [])) = some (.v6 x "") := by
    simp only [address, expandGroups, hlen, if_true, Option.map_some, foldl_groups,
      BitVec.ofNat_toNat, BitVec.setWidth_eq]
  have hzone : '%' ∉ text6 x := by
    intro hmem
    rcases mem_text6 '%' hmem with hdigit | hcolon
    · simp [hexDigit] at hdigit
    · exact absurd hcolon (by decide)
  have hne : groups x ≠ [] := by
    intro hnil
    simp [hnil] at hlen
  unfold text6 at hzone ⊢
  cases hrun : longestZeros (groups x) with
  | none =>
      simp only [hrun] at hzone ⊢
      obtain ⟨c, text, hc, htext⟩ := head_join hne hlt []
      rw [List.append_nil] at htext
      rw [htext] at hzone
      rw [htext, parseIPv6_of_digit hc hzone, ← htext,
        (@parseGroups_join (groups x) [] none 9 [] hne hlt (by simp) (by simp)).1, List.nil_append,
        hvalue]
  | some run =>
      obtain ⟨i, j⟩ := run
      obtain ⟨htwo, hle, hsplit⟩ := zeroRun_longestZeros hrun
      simp only at htwo hle hsplit
      simp only [hrun] at hzone ⊢
      have hback : ∀ g ∈ (groups x).drop j, g < 65536 := fun g hg => hlt g (List.mem_of_mem_drop hg)
      have hfront : ∀ g ∈ (groups x).take i, g < 65536 := fun g hg =>
        hlt g (List.mem_of_mem_take hg)
      have hlenFront : ((groups x).take i).length = i := by rw [List.length_take]; omega
      have hlenBack : ((groups x).drop j).length = 8 - j := by rw [List.length_drop, hlen]
      have hall : address (some ((groups x).take i ++ (groups x).drop j, some i, [])) =
          some (.v6 x "") := by
        have hlenAll : ((groups x).take i ++ (groups x).drop j).length = i + (8 - j) := by
          rw [List.length_append, hlenFront, hlenBack]
        have htake : ((groups x).take i ++ (groups x).drop j).take i = (groups x).take i :=
          List.take_left' hlenFront
        have hdrop : ((groups x).take i ++ (groups x).drop j).drop i = (groups x).drop j :=
          List.drop_left' hlenFront
        have hexpand : expandGroups ((groups x).take i ++ (groups x).drop j) (some i) =
            some (groups x) := by
          unfold expandGroups
          simp only [hlenAll, htake, hdrop]
          rw [if_pos (by omega), show 8 - (i + (8 - j)) = j - i by omega, ← hsplit]
        have hplain : expandGroups (groups x) none = some (groups x) := by
          rw [expandGroups, if_pos hlen]
        rw [← hvalue]
        unfold address
        simp only [hexpand, hplain]
      have hrest (ellipsis : Option Nat) (fuel : Nat) (hfuel : 8 - j ≤ fuel)
          (hne : (groups x).drop j ≠ []) :
          parseGroups fuel (join ((groups x).drop j)) ((groups x).take i) ellipsis =
            some ((groups x).take i ++ (groups x).drop j, ellipsis, []) :=
        (@parseGroups_join _ _ ellipsis fuel [] hne hback (by omega) (by omega)).1
      have hnil (gs : List Nat) (hlt : ∀ g ∈ gs, g < 65536) : join gs = [] ↔ gs = [] := by
        constructor
        · intro hjoin
          by_contra hgs
          obtain ⟨c, text, -, htext⟩ := head_join hgs hlt []
          simp [hjoin] at htext
        · rintro rfl
          rfl
      cases i with
      | zero =>
          have hno : '%' ∉ join ((groups x).drop j) := fun hmem => hzone (by simp [hmem])
          have hempty : join ((groups x).take 0) = [] := rfl
          rw [hempty, List.nil_append, parseIPv6_of_double hno]
          by_cases hend : (groups x).drop j = []
          · rw [if_pos ((hnil _ hback).mpr hend), ← hall, hend]
            rfl
          · rw [if_neg fun h => hend ((hnil _ hback).mp h), ← hall]
            exact congrArg address (hrest (some 0) 9 (by omega) hend)
      | succ i =>
          have htake : (groups x).take (i + 1) ≠ [] := by
            intro hempty
            simp [hempty] at hlenFront
          obtain ⟨c, text, hc, htext⟩ :=
            head_join htake hfront (':' :: ':' :: join ((groups x).drop j))
          rw [htext] at hzone
          rw [htext, parseIPv6_of_digit hc hzone, ← htext,
            (@parseGroups_join _ [] none 9 _ htake hfront (by simp) (by omega)).2, List.nil_append,
            hlenFront]
          by_cases hend : (groups x).drop j = []
          · rw [if_pos ((hnil _ hback).mpr hend), ← hall, hend, List.append_nil]
          · rw [if_neg fun h => hend ((hnil _ hback).mp h), hrest _ _ (by omega) hend, hall]

/-! ### Both packages

`net` writes an IPv4-mapped address like an IPv4 address and has no zones; beyond that the two
packages write alike. -/

/-- What `Addr.String` writes, `ParseAddr` reads. -/
theorem parseAddr_text6 (x : BitVec 128) : parseAddr (text6 x) = some (.v6 x "") := by
  have hfind : (text6 x).find? (fun c => c == '.' || c == ':' || c == '%') = some ':' := by
    cases hfound : (text6 x).find? fun c => c == '.' || c == ':' || c == '%' with
    | none => exact absurd (List.find?_eq_none.mp hfound ':' colon_mem_text6) (by decide)
    | some c =>
        have hc := List.find?_some hfound
        rcases mem_text6 c (List.mem_of_find?_eq_some hfound) with hdigit | rfl
        · simp only [Bool.or_eq_true, beq_iff_eq] at hc
          rcases hc with (rfl | rfl) | rfl
          · simp [hexDigit] at hdigit
          · rfl
          · simp [hexDigit] at hdigit
        · rfl
  unfold parseAddr
  simp only [hfind, parseIPv6_text6]

/-- A text with a percent sign is that of an address with a zone, if of any. -/
theorem zone_ne_of_percent {s : List Char} {a : Addr} (h : parseAddr s = some a) (hmem : '%' ∈ s) :
    a.zone ≠ "" := by
  unfold parseAddr at h
  split at h
  · obtain ⟨x, hx, -⟩ := Option.map_eq_some_iff.mp h
    rcases mem_parseIPv4 hx '%' hmem with hdigit | hdot
    · exact absurd hdigit (by decide)
    · exact absurd hdot (by decide)
  · obtain ⟨before, zone, rfl, hbefore⟩ := List.eq_append_cons_of_mem hmem
    unfold parseIPv6 at h
    simp only [cut_append_cons hbefore zone, true_and] at h
    split at h
    · cases h
    · rename_i hzone
      split at h
      · obtain ⟨all, -, rfl⟩ := Option.map_eq_some_iff.mp h
        simpa [Addr.zone] using hzone
      · cases h
  · cases h

theorem parseIP_of_percent {s : List Char} (h : '%' ∈ s) : parseIP s = none := by
  unfold parseIP
  split
  · rename_i x hparse
    exact absurd rfl (zone_ne_of_percent hparse h)
  · rename_i x zone hparse
    exact if_neg (zone_ne_of_percent hparse h)
  · rfl

theorem mapped_of_to4 {ip : IP} {x : BitVec 32} (h : to4 ip = some x) : mapped x = ip := by
  unfold to4 at h
  split at h
  · rename_i hhigh
    obtain rfl := Option.some.inj h
    apply BitVec.eq_of_getLsbD_eq
    intro i hi
    have hbits : (0xffff00000000#128).getLsbD i = (decide (32 ≤ i) && ip.getLsbD i) := by
      by_cases hlow : i < 32
      · have hzero : ∀ i < 32, (0xffff00000000#128).getLsbD i = false := by decide
        rw [hzero i hlow, decide_eq_false (Nat.not_le.mpr hlow), Bool.false_and]
      · have hle : 32 ≤ i := Nat.not_lt.mp hlow
        have hshift : (ip >>> 32).getLsbD (i - 32) = (0xffff#128).getLsbD (i - 32) := by rw [hhigh]
        rw [BitVec.getLsbD_ushiftRight, Nat.add_sub_cancel' hle] at hshift
        rw [hshift, decide_eq_true hle, Bool.true_and]
        have hall : ∀ i < 128, 32 ≤ i →
            (0xffff00000000#128).getLsbD i = (0xffff#128).getLsbD (i - 32) := by decide
        exact hall i hi hle
    simp only [mapped, BitVec.getLsbD_or, BitVec.getLsbD_setWidth, hbits, hi, decide_true,
      Bool.true_and]
    by_cases hlow : i < 32
    · simp [hlow, Nat.not_le.mpr hlow]
    · simp [hlow, Nat.not_lt.mp hlow]
  · cases h

/-- What `IP.String` writes, `ParseIP` reads. -/
theorem parseIP_ipText (ip : IP) : parseIP (ipText ip) = some ip := by
  unfold ipText parseIP
  cases h : to4 ip with
  | some x => simp only [parseAddr_text4, mapped_of_to4 h]
  | none => simp only [parseAddr_text6, if_true]

theorem mem_ipText {ip : IP} : ∀ c ∈ ipText ip, (hexDigit c).isSome = true ∨ c = ':' ∨ c = '.' := by
  have hdigit (n : Nat) : ∀ c ∈ itoa n, (hexDigit c).isSome = true := by
    intro c hc
    rw [hexDigit, if_pos (isDigit_of_mem_itoa hc)]
    rfl
  intro c hc
  unfold ipText at hc
  split at hc
  · simp only [text4, List.mem_append, List.mem_cons] at hc
    rcases hc with hc | hc | hc | hc | hc | hc | hc
    · exact Or.inl (hdigit _ c hc)
    · exact Or.inr (Or.inr hc)
    · exact Or.inl (hdigit _ c hc)
    · exact Or.inr (Or.inr hc)
    · exact Or.inl (hdigit _ c hc)
    · exact Or.inr (Or.inr hc)
    · exact Or.inl (hdigit _ c hc)
  · rcases mem_text6 c hc with hhex | hcolon
    · exact Or.inl hhex
    · exact Or.inr (Or.inl hcolon)

theorem not_mem_ipText {ip : IP} {c : Char} (hdigit : hexDigit c = none) (hcolon : c ≠ ':')
    (hdot : c ≠ '.') : c ∉ ipText ip := by
  intro hmem
  rcases mem_ipText c hmem with hc | hc | hc
  · rw [hdigit] at hc
    cases hc
  · exact hcolon hc
  · exact hdot hc

/-- Only an IPv4 address is written without a colon. -/
theorem colon_mem_ipText_iff {ip : IP} : ':' ∈ ipText ip ↔ to4 ip = none := by
  unfold ipText
  cases h : to4 ip with
  | none => exact iff_of_true colon_mem_text6 rfl
  | some x =>
      refine iff_of_false ?_ (Option.some_ne_none x)
      rw [colon_mem_iff_of_parseAddr (parseAddr_text4 x)]
      simp [Addr.is4]

theorem ipText_injective : Function.Injective ipText := by
  intro ip ip' h
  have hparse := parseIP_ipText ip
  rw [h, parseIP_ipText] at hparse
  exact (Option.some.inj hparse).symm

end Quicgate.AddrText
