import Quicgate.WgKeyOwners

/-!
# The addresses of the tunnel network

Sites and devices share one IPv4 network.  An address that was given up stays out of
use until nothing else is left: `wg_freed` remembers it.  The module reads
`nextWGAddress` as a search over the numbers of the host addresses, and follows the
addresses that were ever held through whole runs.

`addresses_sound` certifies the search along every run that takes no address away when the
store is opened, and `keepsAddresses_from_empty` says that tables which this version
filled never lose one.  `forgotten_address_is_next` are tables of an older version that do.
-/

namespace Quicgate.Wg

open Quicgate.Netip Quicgate.Checks Quicgate.Sql Quicgate.TransitionSystem
open Quicgate.Store (Lib)

/-! ### Networks as ranges of numbers

A network of the settings has between 8 and 65536 addresses, the host addresses are all but
the first two and the last, and the loop counts through them. -/

/-- The address with a number. -/
def addrAt (n : Nat) : Addr := .v4 (BitVec.ofNat 32 n)

theorem addrAt_inj {m n : Nat} (hm : m < 2 ^ 32) (hn : n < 2 ^ 32) (h : addrAt m = addrAt n) :
    m = n := by
  have hbits := congrArg BitVec.toNat (Addr.v4.inj h)
  rwa [BitVec.toNat_ofNat, BitVec.toNat_ofNat, Nat.mod_eq_of_lt hm, Nat.mod_eq_of_lt hn] at hbits

theorem next_addrAt {n : Nat} (h : n + 1 < 2 ^ 32) : Addr.next (addrAt n) = addrAt (n + 1) := by
  have hne : BitVec.ofNat 32 n ≠ BitVec.allOnes 32 := by
    intro heq
    have hnat := congrArg BitVec.toNat heq
    rw [BitVec.toNat_ofNat, BitVec.toNat_allOnes, Nat.mod_eq_of_lt (by omega)] at hnat
    omega
  simp only [Addr.next, addrAt, if_neg hne, Addr.v4.injEq]
  rw [BitVec.ofNat_add]
  rfl

/-- The leading bits agree where the quotients do. -/
theorem agree_iff_div {n : Nat} {x y : BitVec 32} :
    agree n x y = true ↔ x.toNat / 2 ^ (32 - n) = y.toNat / 2 ^ (32 - n) := by
  unfold agree
  rw [beq_iff_eq, BitVec.ushiftRight_xor_distrib, BitVec.xor_eq_zero_iff, ← BitVec.toNat_inj,
    BitVec.toNat_ushiftRight, BitVec.toNat_ushiftRight, Nat.shiftRight_eq_div_pow,
    Nat.shiftRight_eq_div_pow]

/-- Nothing is left of the bits after the prefix. -/
theorem toNat_and_leading_mod {n : Nat} (x : BitVec 32) :
    (x &&& leading 32 n).toNat % 2 ^ (32 - n) = 0 := by
  have hzero : (x &&& leading 32 n).setWidth (32 - n) = 0#(32 - n) := by
    refine BitVec.eq_of_getLsbD_eq fun i hi => ?_
    simp only [BitVec.getLsbD_setWidth, BitVec.getLsbD_and, getLsbD_leading, BitVec.getLsbD_zero]
    simp [Nat.not_le.mpr hi]
  rw [← BitVec.toNat_setWidth, hzero]
  simp

/-- An IPv4 network of 16 to 29 bits: what the settings admit. -/
structure Tunnel where
  pre : Prefix
  x : BitVec 32
  ip_eq : pre.ip = .v4 x
  valid : pre.isValid = true
  low : 16 ≤ pre.len
  high : pre.len ≤ 29

namespace Tunnel

variable (t : Tunnel)

def size : Nat := 2 ^ (32 - t.pre.len)

def base : Nat := (t.x &&& leading 32 t.pre.len).toNat

/-- The numbers that can be given out: neither the network address, nor the first
address, which is quicgate's, nor the last. -/
def Host (n : Nat) : Prop := t.base + 2 ≤ n ∧ n + 1 < t.base + t.size

instance (n : Nat) : Decidable (t.Host n) := inferInstanceAs (Decidable (_ ∧ _))

theorem eight_le_size : 8 ≤ t.size := by
  have h := t.high
  calc 8 = 2 ^ 3 := rfl
    _ ≤ 2 ^ (32 - t.pre.len) := Nat.pow_le_pow_right (by decide) (by omega)

theorem base_mod : t.base % t.size = 0 := toNat_and_leading_mod t.x

theorem base_add_size_le : t.base + t.size ≤ 2 ^ 32 := by
  have hlt : t.base < 2 ^ 32 := (t.x &&& leading 32 t.pre.len).isLt
  have hmod := t.base_mod
  have hdvd : t.size ∣ 2 ^ 32 := Nat.pow_dvd_pow 2 (by omega)
  obtain ⟨k, hk⟩ := hdvd
  obtain ⟨q, hq⟩ := Nat.dvd_of_mod_eq_zero hmod
  rw [hk] at hlt ⊢
  rw [hq] at hlt ⊢
  have hqk : q < k := Nat.lt_of_mul_lt_mul_left hlt
  calc t.size * q + t.size = t.size * (q + 1) := (Nat.mul_succ _ _).symm
    _ ≤ t.size * k := Nat.mul_le_mul_left _ hqk

theorem masked_ip : t.pre.masked.ip = addrAt t.base ∧ t.pre.masked.isValid = true ∧
    t.pre.masked.len = t.pre.len := by
  have hle : t.pre.len ≤ 32 := by have := t.high; omega
  obtain ⟨hip, hvalid, hlen⟩ := toPrefix_v4 (x := t.x) hle
  simp only [Prefix.masked, t.valid, if_true, t.ip_eq]
  refine ⟨?_, hvalid, hlen⟩
  rw [hip, addrAt, base, BitVec.ofNat_toNat, BitVec.setWidth_eq]

theorem contains_addrAt {n : Nat} (hn : n < 2 ^ 32) :
    t.pre.masked.contains (addrAt n) = true ↔ t.base ≤ n ∧ n < t.base + t.size := by
  obtain ⟨hip, hvalid, hlen⟩ := t.masked_ip
  have hbase : t.base < 2 ^ 32 := by
    have h8 := t.eight_le_size
    have := t.base_add_size_le
    omega
  rw [addrAt, Prefix.contains_v4_iff hip, hlen, agree_iff_div, BitVec.toNat_ofNat,
    BitVec.toNat_ofNat,
    Nat.mod_eq_of_lt hbase, Nat.mod_eq_of_lt hn]
  change _ ∧ t.base / t.size = n / t.size ↔ _
  have hpos : 0 < t.size := by have := t.eight_le_size; omega
  have hmod := t.base_mod
  obtain ⟨q, hq⟩ := Nat.dvd_of_mod_eq_zero hmod
  rw [hq, Nat.mul_div_cancel_left q hpos]
  constructor
  · rintro ⟨-, hdiv⟩
    have hsplit := Nat.div_add_mod n t.size
    have hlt := Nat.mod_lt n hpos
    rw [← hdiv] at hsplit
    omega
  · rintro ⟨hlow, hhigh⟩
    refine ⟨hvalid, ?_⟩
    symm
    rw [Nat.div_eq_iff hpos]
    constructor
    · rw [Nat.mul_comm]
      exact hlow
    · rw [Nat.mul_comm]
      omega

/-- The loop of `lastAddr` sets the bits below `k`. -/
theorem getLsbD_foldl_or (y : BitVec 32) (k i : Nat) :
    ((List.range k).foldl (fun b i => b ||| (1#32 <<< i)) y).getLsbD i =
      (y.getLsbD i || (decide (i < k) && decide (i < 32))) := by
  induction k with
  | zero => simp
  | succ k ih =>
      rw [List.range_succ, List.foldl_append, List.foldl_cons, List.foldl_nil,
        BitVec.getLsbD_or, ih]
      simp only [BitVec.getLsbD_shiftLeft, BitVec.getLsbD_one]
      by_cases hik : i = k
      · subst hik
        by_cases hi : i < 32 <;> simp [hi]
      · have hlt : decide (i < k + 1) = decide (i < k) := by
          rw [decide_eq_decide]
          omega
        rw [hlt]
        have hne : (decide (i < 32) && !decide (i < k) && (decide (0 < 32) && decide (i - k = 0))) =
            false := by
          simp only [Bool.and_eq_false_iff, Bool.not_eq_false', decide_eq_true_eq,
            decide_eq_false_iff_not]
          omega
        rw [hne, Bool.or_false]

theorem masked_masked_ip : t.pre.masked.masked.ip = .v4 (t.x &&& leading 32 t.pre.len) := by
  obtain ⟨hip, hvalid, hlen⟩ := t.masked_ip
  have hle : t.pre.len ≤ 32 := by have := t.high; omega
  have hip' : t.pre.masked.ip = .v4 (t.x &&& leading 32 t.pre.len) := by
    rw [hip, addrAt, base, BitVec.ofNat_toNat, BitVec.setWidth_eq]
  have hmask : t.pre.masked.masked = t.pre.masked.ip.toPrefix t.pre.masked.len := by
    rw [Prefix.masked, if_pos hvalid]
  rw [hmask, hip', hlen, (toPrefix_v4 hle).1, BitVec.and_assoc, BitVec.and_self]

theorem lastAddr_masked : lastAddr t.pre.masked = addrAt (t.base + t.size - 1) := by
  obtain ⟨-, -, hlen⟩ := t.masked_ip
  have h8 := t.eight_le_size
  simp only [lastAddr, t.masked_masked_ip, hlen, addrAt, Addr.v4.injEq]
  -- the network address has no bit in common with the bits after the prefix
  have hdisjoint : (t.x &&& leading 32 t.pre.len) &&& BitVec.ofNat 32 (t.size - 1) = 0#32 := by
    refine BitVec.eq_of_getLsbD_eq fun i hi => ?_
    simp only [BitVec.getLsbD_and, getLsbD_leading, BitVec.getLsbD_ofNat, size,
      Nat.testBit_two_pow_sub_one]
    by_cases hlt : i < 32 - t.pre.len
    · simp [Nat.not_le.mpr hlt]
    · simp [hlt]
  have hsum : BitVec.ofNat 32 (t.base + t.size - 1) =
      (t.x &&& leading 32 t.pre.len) + BitVec.ofNat 32 (t.size - 1) := by
    rw [Nat.add_sub_assoc (by omega), BitVec.ofNat_add, base, BitVec.ofNat_toNat,
      BitVec.setWidth_eq]
  rw [hsum, BitVec.add_eq_or_of_and_eq_zero _ _ hdisjoint]
  refine BitVec.eq_of_getLsbD_eq fun i hi => ?_
  rw [getLsbD_foldl_or, BitVec.getLsbD_or, BitVec.getLsbD_ofNat, size, Nat.testBit_two_pow_sub_one,
    Bool.and_comm (decide (i < 32))]

end Tunnel

/-! ### The search

`PickSpec` says what the search is to find without mention of the loop, and `Searched` is the
loop's invariant. -/

section Search

variable (t : Tunnel) (used freed : Addr → Bool)

/-- What the search is to find. -/
def PickSpec : Pick → Prop
  | .fresh a => ∃ n, t.Host n ∧ a = addrAt n ∧ used a = false ∧ freed a = false ∧
      ∀ m, t.Host m → m < n → used (addrAt m) = true ∨ freed (addrAt m) = true
  | .over (some a) => ∃ n, t.Host n ∧ a = addrAt n ∧ used a = false ∧ freed a = true ∧
      ∀ m, t.Host m → used (addrAt m) = true ∨ freed (addrAt m) = true
  | .over none => ∀ m, t.Host m → used (addrAt m) = true
  | .running => False

/-- What the loop has found when it comes to the address with number `n`: every earlier
one is in use or given up, and `second` is one that was given up, if there is one. -/
structure Searched (n : Nat) (second : Option Addr) : Prop where
  past : ∀ m, t.Host m → m < n → used (addrAt m) = true ∨ freed (addrAt m) = true
  inUse : second = none → ∀ m, t.Host m → m < n → used (addrAt m) = true
  givenUp : ∀ a, second = some a →
    ∃ m, t.Host m ∧ a = addrAt m ∧ used a = false ∧ freed a = true

variable {t used freed}

theorem Searched.of_used {n : Nat} {second : Option Addr} (h : Searched t used freed n second)
    (hused : used (addrAt n) = true) : Searched t used freed (n + 1) second := by
  refine ⟨?_, ?_, h.givenUp⟩
  · intro m hm hlt
    rcases Nat.lt_succ_iff_lt_or_eq.mp hlt with hlt | rfl
    · exact h.past m hm hlt
    · exact Or.inl hused
  · intro hnone m hm hlt
    rcases Nat.lt_succ_iff_lt_or_eq.mp hlt with hlt | rfl
    · exact h.inUse hnone m hm hlt
    · exact hused

theorem Searched.of_freed {n : Nat} {second : Option Addr} (h : Searched t used freed n second)
    (hhost : t.Host n) (hused : used (addrAt n) = false) (hfreed : freed (addrAt n) = true) :
    Searched t used freed (n + 1) (second.or (some (addrAt n))) := by
  refine ⟨?_, ?_, ?_⟩
  · intro m hm hlt
    rcases Nat.lt_succ_iff_lt_or_eq.mp hlt with hlt | rfl
    · exact h.past m hm hlt
    · exact Or.inr hfreed
  · intro hnone
    cases second <;> simp at hnone
  · intro a ha
    cases second with
    | none =>
        obtain rfl : addrAt n = a := by simpa using ha
        exact ⟨n, hhost, rfl, hused, hfreed⟩
    | some b => exact h.givenUp a (by simpa using ha)

/-- The loop from `n` on ends, within as many turns as there are addresses left. -/
theorem nextLoop_spec {turns n : Nat} {second : Option Addr} (hlow : t.base + 2 ≤ n)
    (hhigh : n + 1 ≤ t.base + t.size) (hturns : t.base + t.size < n + turns + 1)
    (hsearched : Searched t used freed n second) :
    PickSpec t used freed (nextLoop t.pre.masked.contains (addrAt (t.base + t.size - 1)) used freed
      turns (addrAt n) second) := by
  have hsize := t.base_add_size_le
  induction turns generalizing n second with
  | zero => omega
  | succ turns ih =>
      unfold nextLoop
      by_cases hlast : n + 1 = t.base + t.size
      · -- the broadcast address
        have hnot : ¬ (t.pre.masked.contains (addrAt n) = true ∧
            addrAt n ≠ addrAt (t.base + t.size - 1)) := by
          rintro ⟨-, hne⟩
          exact hne (congrArg addrAt (by omega))
        rw [if_neg hnot]
        have hbelow : ∀ m, t.Host m → m < n := by
          intro m hm
          have := hm.2
          omega
        cases second with
        | none => exact fun m hm => hsearched.inUse rfl m hm (hbelow m hm)
        | some a =>
            obtain ⟨m, hm, heq, hused, hfreed⟩ := hsearched.givenUp a rfl
            exact ⟨m, hm, heq, hused, hfreed, fun k hk => hsearched.past k hk (hbelow k hk)⟩
      · have hhost : t.Host n := ⟨hlow, by omega⟩
        have hinside : t.pre.masked.contains (addrAt n) = true ∧
            addrAt n ≠ addrAt (t.base + t.size - 1) := by
          refine ⟨(t.contains_addrAt (by omega)).mpr ⟨by omega, by omega⟩, ?_⟩
          intro heq
          have := addrAt_inj (by omega) (by omega) heq
          omega
        rw [if_pos hinside, next_addrAt (by omega)]
        cases hused : used (addrAt n) with
        | true =>
            simp only [if_true]
            exact ih (by omega) (by omega) (by omega) (hsearched.of_used hused)
        | false =>
            cases hfreed : freed (addrAt n) with
            | false =>
                simp only [Bool.false_eq_true, if_false, Bool.not_false, if_true]
                exact ⟨n, hhost, rfl, hused, hfreed, hsearched.past⟩
            | true =>
                simp only [Bool.false_eq_true, if_false, Bool.not_true]
                exact ih (by omega) (by omega) (by omega) (hsearched.of_freed hhost hused hfreed)

/-- `nextWGAddress` searches every host address. -/
theorem searchAddress_spec (t : Tunnel) (db : Peers) :
    PickSpec t db.used (db.freed.contains ·) (searchAddress db t.pre) := by
  obtain ⟨hip, -, hlen⟩ := t.masked_ip
  have h8 := t.eight_le_size
  have hsize := t.base_add_size_le
  have hstart : Addr.next (Addr.next t.pre.masked.ip) = addrAt (t.base + 2) := by
    rw [hip, next_addrAt (by omega), next_addrAt (by omega)]
  unfold searchAddress
  simp only [hstart, t.lastAddr_masked, hlen]
  refine nextLoop_spec (le_refl _) (by omega) ?_ ⟨?_, ?_, ?_⟩
  · change t.base + t.size < t.base + 2 + t.size + 1
    omega
  · intro m hm hlt
    have := hm.1
    omega
  · intro _ m hm hlt
    have := hm.1
    omega
  · intro a ha
    cases ha

end Search

/-! ### Who holds which address

`History` keeps every address that was ever held beside the tables, which only have those in
use and those given up. -/

def Peers.addressOf (db : Peers) : PeerId → Option Addr
  | .site id => (db.sites.lookup id).map (·.address)
  | .device id => (db.devices.lookup id).bind (·.address)

def Peers.addresses (db : Peers) : List Addr :=
  db.sites.rows.map (fun row => row.2.address) ++ db.devices.rows.filterMap fun row => row.2.address

theorem mem_addresses {db : Peers} {a : Addr} :
    a ∈ db.addresses ↔ ∃ p, db.addressOf p = some a := by
  simp only [Peers.addresses, List.mem_append, List.mem_map, List.mem_filterMap]
  constructor
  · rintro (⟨row, hrow, rfl⟩ | ⟨row, hrow, ha⟩)
    · exact ⟨.site row.1, by simp [Peers.addressOf, Table.lookup_eq_some.mpr hrow]⟩
    · exact ⟨.device row.1, by simp [Peers.addressOf, Table.lookup_eq_some.mpr hrow, ha]⟩
  · rintro ⟨p, hp⟩
    cases p with
    | site id =>
        obtain ⟨w, hw, rfl⟩ := Option.map_eq_some_iff.mp hp
        exact Or.inl ⟨(id, w), Table.lookup_eq_some.mp hw, rfl⟩
    | device id =>
        obtain ⟨d, hd, ha⟩ := Option.bind_eq_some_iff.mp hp
        exact Or.inr ⟨(id, d), Table.lookup_eq_some.mp hd, ha⟩

theorem used_iff {db : Peers} {a : Addr} : db.used a = true ↔ ∃ p, db.addressOf p = some a := by
  rw [← mem_addresses]
  simp [Peers.used, Peers.addresses]

def AddressesApart (db : Peers) : Prop :=
  ∀ p q a, p ≠ q → db.addressOf p = some a → db.addressOf q ≠ some a

/-- The tables, and every address that was ever held. -/
structure History where
  db : Peers
  held : List Addr

def History.start (db : Peers) : History := ⟨db, db.freed ++ db.addresses⟩

def History.step (lib : Lib) (h : History) (call : Call) : Option History :=
  (Wg.step lib h.db call).map fun db => ⟨db, h.held ++ db.addresses⟩

/-- What is to hold: no two peers hold one address, and the search for the next one ends;
it gives a host address that nobody holds, one that was held before only when all were,
else the lowest that was not; and it fails exactly when all are held. -/
structure AddressesSound (t : Tunnel) (h : History) : Prop where
  apart : AddressesApart h.db
  ends : searchAddress h.db t.pre ≠ .running
  next : ∀ a db', nextWGAddress h.db t.pre = .ok (a, db') →
    ∃ n, t.Host n ∧ a = addrAt n ∧ h.db.used a = false ∧
      (a ∈ h.held → ∀ m, t.Host m → addrAt m ∈ h.held) ∧
      (a ∉ h.held → ∀ m, t.Host m → m < n → addrAt m ∈ h.held)
  fails : (∃ why, nextWGAddress h.db t.pre = .error why) ↔
    ∀ m, t.Host m → h.db.used (addrAt m) = true

/-- The invariant: what was held is held, or stands in `wg_freed`. -/
structure AddressInv (h : History) : Prop where
  apart : AddressesApart h.db
  held : ∀ a, a ∈ h.held ↔ h.db.used a = true ∨ a ∈ h.db.freed

theorem AddressInv.sound {h : History} (hinv : AddressInv h) (t : Tunnel) : AddressesSound t h := by
  have hspec := searchAddress_spec t h.db
  have hheld : ∀ m, h.db.used (addrAt m) = true ∨ h.db.freed.contains (addrAt m) = true →
      addrAt m ∈ h.held := by
    intro m hm
    rw [hinv.held]
    simpa using hm
  refine ⟨hinv.apart, ?_, ?_, ?_⟩
  · intro hrunning
    rw [hrunning] at hspec
    exact hspec
  · intro a db' hnext
    unfold nextWGAddress at hnext
    split at hnext
    · rename_i b hpick
      rw [hpick] at hspec
      obtain ⟨rfl, -⟩ := Prod.mk.inj (Except.ok.inj hnext)
      obtain ⟨n, hhost, rfl, hused, hfreed, hpast⟩ := hspec
      refine ⟨n, hhost, rfl, hused, ?_, fun _ m hm hlt => hheld m (hpast m hm hlt)⟩
      intro hin
      rcases (hinv.held _).mp hin with hin | hin
      · simp [hused] at hin
      · simp [hin] at hfreed
    · rename_i b hpick
      rw [hpick] at hspec
      obtain ⟨rfl, -⟩ := Prod.mk.inj (Except.ok.inj hnext)
      obtain ⟨n, hhost, rfl, hused, hfreed, hall⟩ := hspec
      exact ⟨n, hhost, rfl, hused, fun _ m hm => hheld m (hall m hm),
        fun _ m hm _ => hheld m (hall m hm)⟩
    · cases hnext
    · cases hnext
  · unfold nextWGAddress
    cases hpick : searchAddress h.db t.pre with
    | fresh b =>
        rw [hpick] at hspec
        obtain ⟨n, hhost, rfl, hused, -⟩ := hspec
        refine ⟨fun ⟨why, hwhy⟩ => (by cases hwhy), fun hall => ?_⟩
        simp [hall n hhost] at hused
    | «over» second =>
        rw [hpick] at hspec
        cases second with
        | none => exact ⟨fun _ => hspec, fun _ => ⟨_, rfl⟩⟩
        | some b =>
            obtain ⟨n, hhost, rfl, hused, -⟩ := hspec
            refine ⟨fun ⟨why, hwhy⟩ => (by cases hwhy), fun hall => ?_⟩
            simp [hall n hhost] at hused
    | running =>
        rw [hpick] at hspec
        exact hspec.elim

/-! ### What the writes do to the addresses

A call gives an address, gives one up, or leaves all of them. -/

section Writes

variable {db : Peers} {id : Int}

theorem addressOf_insertSite {db₁ : Peers} (hframe : db₁.devices = db.devices) (w : WGSite) :
    Peers.addressOf { db₁ with sites := db.sites.insert w } =
      Function.update db.addressOf (.site (db.sites.seq + 1)) (some w.address) := by
  funext q
  cases q with
  | site id =>
      simp only [Peers.addressOf, Table.lookup_insert, Function.update_apply, PeerId.site.injEq]
      split <;> rfl
  | device id => simp [Peers.addressOf, hframe]

theorem addressOf_insertDevice {db₁ : Peers} (hframe : db₁.sites = db.sites) (d : WGDevice) :
    Peers.addressOf { db₁ with devices := db.devices.insert d } =
      Function.update db.addressOf (.device (db.devices.seq + 1)) d.address := by
  funext q
  cases q with
  | device id =>
      simp only [Peers.addressOf, Table.lookup_insert, Function.update_apply, PeerId.device.injEq]
      split <;> rfl
  | site id => simp [Peers.addressOf, hframe]

theorem addressOf_deleteSite {freed : List Addr} :
    Peers.addressOf { db with sites := db.sites.delete id, freed } =
      Function.update db.addressOf (.site id) none := by
  funext q
  cases q with
  | site id' =>
      simp only [Peers.addressOf, Table.lookup_delete, Function.update_apply, PeerId.site.injEq]
      split <;> rfl
  | device id' => simp [Peers.addressOf]

/-- An update of a site leaves its address. -/
theorem addressOf_modifySite {f : WGSite → WGSite} (hf : ∀ w, (f w).address = w.address) :
    Peers.addressOf { db with sites := db.sites.modify id f } = db.addressOf := by
  funext q
  cases q with
  | site id' =>
      simp only [Peers.addressOf, Table.lookup_modify]
      split
      · cases db.sites.lookup id' <;> simp [hf]
      · rfl
  | device id' => rfl

theorem addressOf_modifyDevice {f : WGDevice → WGDevice} {d : WGDevice} {freed : List Addr}
    (h : (id, d) ∈ db.devices.rows) :
    Peers.addressOf { db with devices := db.devices.modify id f, freed } =
      Function.update db.addressOf (.device id) (f d).address := by
  have hlook := Table.lookup_eq_some.mpr h
  funext q
  cases q with
  | device id' =>
      simp only [Peers.addressOf, Table.lookup_modify, Function.update_apply, PeerId.device.injEq]
      split
      · rename_i heq
        simp [heq, hlook]
      · rfl
  | site id' => simp [Peers.addressOf]

theorem addressOf_site {w : WGSite} (h : (id, w) ∈ db.sites.rows) :
    db.addressOf (.site id) = some w.address := by
  simp [Peers.addressOf, Table.lookup_eq_some.mpr h]

theorem addressOf_device {d : WGDevice} (h : (id, d) ∈ db.devices.rows) :
    db.addressOf (.device id) = d.address := by
  simp [Peers.addressOf, Table.lookup_eq_some.mpr h]

end Writes

section Inv

variable {h : History} {db' : Peers} {p : PeerId}

/-- The tables after a call that leaves the addresses. -/
theorem AddressInv.same (hinv : AddressInv h) (haddr : db'.addressOf = h.db.addressOf)
    (hfreed : db'.freed = h.db.freed) : AddressInv ⟨db', h.held ++ db'.addresses⟩ := by
  have hused : ∀ a, db'.used a = true ↔ h.db.used a = true := by
    intro a
    rw [used_iff, used_iff, haddr]
  refine ⟨?_, ?_⟩
  · intro q r a hne hq
    simp only [haddr] at hq ⊢
    exact hinv.apart q r a hne hq
  · intro a
    simp only [List.mem_append, mem_addresses, ← used_iff, hfreed, hused, hinv.held]
    tauto

/-- A peer gets an address that nobody holds. -/
theorem AddressInv.give (hinv : AddressInv h) {a : Addr} (hfree : h.db.used a = false)
    (hfresh : h.db.addressOf p = none)
    (haddr : db'.addressOf = Function.update h.db.addressOf p (some a))
    (hfreed : ∀ b, b ∈ db'.freed ↔ b ∈ h.db.freed ∧ b ≠ a) :
    AddressInv ⟨db', h.held ++ db'.addresses⟩ := by
  have hnobody : ∀ q, h.db.addressOf q ≠ some a := by
    intro q hq
    rw [used_iff.mpr ⟨q, hq⟩] at hfree
    cases hfree
  have hused : ∀ b, db'.used b = true ↔ b = a ∨ h.db.used b = true := by
    intro b
    rw [used_iff, used_iff, haddr]
    constructor
    · rintro ⟨q, hq⟩
      rw [Function.update_apply] at hq
      split at hq
      · exact Or.inl (Option.some.inj hq).symm
      · exact Or.inr ⟨q, hq⟩
    · rintro (rfl | ⟨q, hq⟩)
      · exact ⟨p, by simp⟩
      · refine ⟨q, ?_⟩
        rw [Function.update_of_ne]
        · exact hq
        · rintro rfl
          simp [hfresh] at hq
  refine ⟨?_, ?_⟩
  · intro q r b hne hq hr
    simp only [haddr, Function.update_apply] at hq hr
    split at hq
    · split at hr
      · exact hne (by simp_all)
      · exact hnobody r (hq ▸ hr)
    · split at hr
      · exact hnobody q (hr ▸ hq)
      · exact hinv.apart q r b hne hq hr
  · intro b
    simp only [List.mem_append, mem_addresses, ← used_iff, hfreed, hused, hinv.held]
    tauto

/-- A peer gives its address up. -/
theorem AddressInv.giveUp (hinv : AddressInv h) {a : Addr} (hheld : h.db.addressOf p = some a)
    (haddr : db'.addressOf = Function.update h.db.addressOf p none)
    (hfreed : ∀ b, b ∈ db'.freed ↔ b = a ∨ b ∈ h.db.freed) :
    AddressInv ⟨db', h.held ++ db'.addresses⟩ := by
  have hold : ∀ q b, db'.addressOf q = some b → h.db.addressOf q = some b := by
    intro q b hq
    rw [haddr, Function.update_apply] at hq
    split at hq
    · cases hq
    · exact hq
  have hused : ∀ b, h.db.used b = true ↔ b = a ∨ db'.used b = true := by
    intro b
    rw [used_iff, used_iff]
    constructor
    · rintro ⟨q, hq⟩
      by_cases hqp : q = p
      · subst hqp
        exact Or.inl (Option.some.inj (hq.symm.trans hheld))
      · exact Or.inr ⟨q, by rw [haddr, Function.update_of_ne hqp, hq]⟩
    · rintro (rfl | ⟨q, hq⟩)
      · exact ⟨p, hheld⟩
      · exact ⟨q, hold q b hq⟩
  refine ⟨?_, ?_⟩
  · intro q r b hne hq hr
    exact hinv.apart q r b hne (hold q b hq) (hold r b hr)
  · intro b
    simp only [List.mem_append, mem_addresses, ← used_iff, hfreed, hinv.held, hused b]
    tauto

/-- What the search leaves of `wg_freed`. -/
theorem nextWGAddress_freed {db db₁ : Peers} {t : Tunnel} {a : Addr}
    (hnext : nextWGAddress db t.pre = .ok (a, db₁)) :
    db.used a = false ∧ ∀ b, b ∈ db₁.freed ↔ b ∈ db.freed ∧ b ≠ a := by
  have hspec := searchAddress_spec t db
  unfold nextWGAddress at hnext
  split at hnext
  · rename_i c hpick
    rw [hpick] at hspec
    obtain ⟨rfl, rfl⟩ := Prod.mk.inj (Except.ok.inj hnext)
    obtain ⟨n, -, -, hused, hfreed, -⟩ := hspec
    refine ⟨hused, fun b => ⟨fun hb => ⟨hb, ?_⟩, And.left⟩⟩
    rintro rfl
    simp [hb] at hfreed
  · rename_i c hpick
    rw [hpick] at hspec
    obtain ⟨rfl, rfl⟩ := Prod.mk.inj (Except.ok.inj hnext)
    obtain ⟨n, -, -, hused, -⟩ := hspec
    exact ⟨hused, by simp⟩
  · cases hnext
  · cases hnext

end Inv

/-! ### Opening the store

The walk over the keys may revoke a device, and with it forget an address. -/

/-- Opening the store takes no address away: a device that is not revoked and has
another spelling than the canonical one is the first peer of its key to be visited, and
no peer of the key has the canonical spelling. -/
def OpenKeepsAddresses (db : Peers) : Prop :=
  ∀ id d key, (id, d) ∈ db.devices.rows → d.revoked = false → canonicalWGKey d.publicKey = .ok key →
    key ≠ d.publicKey → ∀ q other, q ≠ .device id → db.find q = some other →
      canonicalWGKey other.key = .ok key → other.key ≠ key ∧ (PeerId.device id).before q

/-- The spellings `v`, when the peers in `done` were visited and `D` is what was found. -/
structure Spelled (D : View) (done : List PeerId) (v : View) : Prop where
  absent : ∀ p, D p = none → v p = none
  todo : ∀ p, p ∉ done → v p = D p
  visited : ∀ p peer, D p = some peer → ∃ now, v p = some now ∧
    (now.key = peer.key ∨ (p ∈ done ∧ canonicalWGKey peer.key = .ok now.key))

theorem Spelled.start (D : View) : Spelled D [] D :=
  ⟨fun _ hp => hp, fun _ _ => rfl, fun _ peer hp => ⟨peer, hp, Or.inl rfl⟩⟩

theorem Spelled.turn {D v : View} {done : List PeerId} {p : PeerId} {peer : Peer}
    (h : Spelled D done v) (hD : D p = some peer) (hnot : p ∉ done) :
    Spelled D (done ++ [p]) (v.turn p) := by
  have hv : v p = some peer := (h.todo p hnot).trans hD
  -- the turn sets the peer, to its old spelling or to the canonical one
  obtain ⟨new, hset, hkey⟩ : ∃ new, v.turn p = v.set p new ∧
      (new.key = peer.key ∨ canonicalWGKey peer.key = .ok new.key) := by
    rcases View.turn_cases hv with ⟨hsame, -⟩ | ⟨key, hkey, -, ⟨-, hset⟩ | ⟨-, hset⟩⟩
    · refine ⟨peer, ?_, Or.inl rfl⟩
      rw [hsame]
      funext q
      by_cases hqp : q = p
      · rw [hqp, hv, View.set_self]
      · rw [View.set_of_ne hqp]
    · exact ⟨peer.switchOff, hset, Or.inl (by simp)⟩
    · exact ⟨{ peer with key }, hset, Or.inr hkey⟩
  rw [hset]
  refine ⟨?_, ?_, ?_⟩
  · intro q hq
    rw [View.set_of_ne]
    · exact h.absent q hq
    · rintro rfl
      simp [hD] at hq
  · intro q hq
    rw [List.mem_append, not_or, List.mem_singleton] at hq
    rw [View.set_of_ne hq.2, h.todo q hq.1]
  · intro q other hq
    by_cases hqp : q = p
    · subst hqp
      obtain rfl := Option.some.inj (hD.symm.trans hq)
      refine ⟨new, View.set_self v q new, hkey.imp_right fun hnew => ⟨by simp, hnew⟩⟩
    · obtain ⟨now, hnow, hspelling⟩ := h.visited q other hq
      refine ⟨now, by rw [View.set_of_ne hqp, hnow], hspelling.imp_right ?_⟩
      rintro ⟨hdone, hnew⟩
      exact ⟨List.mem_append_left _ hdone, hnew⟩

theorem freed_canonicaliseSite (db : Peers) (row : Int × WGSite) :
    (canonicaliseSite db row).freed = db.freed ∧
      (canonicaliseSite db row).addressOf = db.addressOf := by
  unfold canonicaliseSite
  split
  · exact ⟨rfl, rfl⟩
  · split
    · exact ⟨rfl, rfl⟩
    · split
      · exact ⟨rfl, addressOf_modifySite fun _ => rfl⟩
      · exact ⟨rfl, addressOf_modifySite fun _ => rfl⟩

theorem freed_foldl_sites (rows : List (Int × WGSite)) (db : Peers) :
    (rows.foldl canonicaliseSite db).freed = db.freed ∧
      (rows.foldl canonicaliseSite db).addressOf = db.addressOf := by
  induction rows generalizing db with
  | nil => exact ⟨rfl, rfl⟩
  | cons row rest ih =>
      obtain ⟨hfreed, haddr⟩ := ih (canonicaliseSite db row)
      obtain ⟨hfreed', haddr'⟩ := freed_canonicaliseSite db row
      exact ⟨hfreed.trans hfreed', haddr.trans haddr'⟩

/-- The turn of a device whose canonical text is not taken leaves the addresses. -/
theorem addressOf_canonicaliseDevice {db : Peers} {row : Int × WGDevice}
    (hrow : row ∈ db.devices.rows)
    (hfree : row.2.revoked = false → ∀ key, canonicalWGKey row.2.publicKey = .ok key →
      key ≠ row.2.publicKey → ¬ db.find.Taken key) :
    (canonicaliseDevice db row).freed = db.freed ∧
      (canonicaliseDevice db row).addressOf = db.addressOf := by
  have hsame : ∀ f : WGDevice → WGDevice, (f row.2).address = row.2.address →
      Peers.addressOf { db with devices := db.devices.modify row.1 f } = db.addressOf := by
    intro f hf
    rw [addressOf_modifyDevice hrow, hf, ← addressOf_device hrow, Function.update_eq_self]
  unfold canonicaliseDevice
  split
  · exact ⟨rfl, rfl⟩
  · rename_i key hkey
    split
    · exact ⟨rfl, rfl⟩
    · rename_i hne
      split
      · rename_i htaken
        refine ⟨rfl, hsame _ ?_⟩
        cases hrevoked : row.2.revoked with
        | true => simp
        | false => exact absurd (taken_iff.mp htaken) (hfree hrevoked key hkey hne)
      · exact ⟨rfl, hsame _ rfl⟩

theorem Spelled.all {D v : View} {done todo : List PeerId} (h : Spelled D done v)
    (hstored : ∀ q ∈ todo, (D q).isSome = true) (hnodup : (done ++ todo).Nodup) :
    Spelled D (done ++ todo) (todo.foldl View.turn v) := by
  induction todo generalizing done v with
  | nil => simpa using h
  | cons p rest ih =>
      obtain ⟨peer, hD⟩ := Option.isSome_iff_exists.mp (hstored p List.mem_cons_self)
      have hnot : p ∉ done := fun hdone =>
        (List.nodup_append.mp hnodup).2.2 p hdone p List.mem_cons_self rfl
      have hnext := ih (h.turn hD hnot) (fun q hq => hstored q (List.mem_cons_of_mem p hq))
        (by simpa using hnodup)
      simpa using hnext

/-- When the turn of a device that is not revoked comes, its canonical text is not
taken. -/
theorem Spelled.not_taken {D : Peers} {v : View} {done : List PeerId} {id : Int} {d : WGDevice}
    {key : String} (h : Spelled D.find done v) (hkeeps : OpenKeepsAddresses D)
    (hrow : (id, d) ∈ D.devices.rows) (hlive : d.revoked = false)
    (hkey : canonicalWGKey d.publicKey = .ok key) (hne : key ≠ d.publicKey)
    (hnot : PeerId.device id ∉ done) (hbefore : ∀ q ∈ done, q.before (.device id)) :
    ¬ v.Taken key := by
  rintro ⟨q, other, hq, heq⟩
  have hqp : q ≠ .device id := by
    rintro rfl
    rw [h.todo _ hnot, find_device hrow] at hq
    obtain rfl := Option.some.inj hq
    exact hne heq.symm
  cases hD : D.find q with
  | none => simp [h.absent q hD] at hq
  | some first =>
      have hcond := hkeeps id d key hrow hlive hkey hne q first hqp hD
      obtain ⟨now, hnow, hspelling⟩ := h.visited q first hD
      obtain rfl := Option.some.inj (hq.symm.trans hnow)
      rcases hspelling with hkeep | ⟨hdone, hrewritten⟩
      · have hfirst : first.key = key := hkeep ▸ heq
        have hcanonical : canonicalWGKey key = .ok key := canonical_of_ok hkey
        exact (hcond (hfirst ▸ hcanonical)).1 hfirst
      · exact PeerId.before_asymm (hbefore q hdone) (hcond (heq ▸ hrewritten)).2

theorem addressOf_foldl_devices {D db : Peers} {done : List PeerId} {rows : List (Int × WGDevice)}
    (hkeeps : OpenKeepsAddresses D) (hspelled : Spelled D.find done db.find)
    (hD : ∀ row ∈ rows, row ∈ D.devices.rows) (hrows : ∀ row ∈ rows, row ∈ db.devices.rows)
    (horder : (done ++ rows.map fun row => PeerId.device row.1).Pairwise PeerId.before) :
    (rows.foldl canonicaliseDevice db).freed = db.freed ∧
      (rows.foldl canonicaliseDevice db).addressOf = db.addressOf := by
  induction rows generalizing done db with
  | nil => exact ⟨rfl, rfl⟩
  | cons row rest ih =>
      rw [List.map_cons] at horder
      obtain ⟨-, hrest, hbetween⟩ := List.pairwise_append.mp horder
      have hbefore : ∀ q ∈ done, q.before (.device row.1) := fun q hq =>
        hbetween q hq _ List.mem_cons_self
      have hnot : PeerId.device row.1 ∉ done := fun hdone =>
        PeerId.before_asymm (hbefore _ hdone) (hbefore _ hdone)
      have hrow := hrows row List.mem_cons_self
      have hrowD := hD row List.mem_cons_self
      obtain ⟨hfreed, haddr⟩ := addressOf_canonicaliseDevice hrow fun hlive key hkey hne =>
        hspelled.not_taken hkeeps hrowD hlive hkey hne hnot hbefore
      have hnext : ∀ other ∈ rest, other ∈ (canonicaliseDevice db row).devices.rows := by
        intro other hother
        refine rows_canonicaliseDevice (hrows other (List.mem_cons_of_mem row hother)) ?_
        intro heq
        have hlt := (List.pairwise_cons.mp hrest).1 (.device other.1)
          (List.mem_map.mpr ⟨other, hother, rfl⟩)
        rw [heq] at hlt
        exact PeerId.before_asymm hlt hlt
      have hspelled' : Spelled D.find (done ++ [.device row.1])
        (canonicaliseDevice db row).find := by
        rw [find_canonicaliseDevice hrow]
        exact hspelled.turn (find_device hrowD) hnot
      obtain ⟨hfreed', haddr'⟩ :=
        ih hspelled' (fun r hr => hD r (List.mem_cons_of_mem row hr)) hnext
        (by simpa using horder)
      exact ⟨hfreed'.trans hfreed, haddr'.trans haddr⟩

theorem addressOf_canonicaliseWGKeys {db : Peers} (hkeeps : OpenKeepsAddresses db) :
    (canonicaliseWGKeys db).freed = db.freed ∧
      (canonicaliseWGKeys db).addressOf = db.addressOf := by
  have hrows : ∀ row ∈ byId db.sites, row ∈ db.sites.rows := fun row hrow => mem_byId.mp hrow
  obtain ⟨hfind, hframe⟩ := find_foldl_sites (nodup_byId db.sites) hrows
  obtain ⟨hfreed, haddr⟩ := freed_foldl_sites (byId db.sites) db
  have hspelled : Spelled db.find ((byId db.sites).map fun row => .site row.1)
      ((byId db.sites).foldl canonicaliseSite db).find := by
    rw [hfind]
    refine (Spelled.start db.find).all ?_ ?_
    · intro q hq
      exact (mem_order db).mp (List.mem_append_left _ hq)
    · exact (List.nodup_append.mp (order_nodup db)).1
  unfold canonicaliseWGKeys
  simp only [hframe]
  have hdevices : ∀ row ∈ byId db.devices, row ∈ db.devices.rows := fun row hrow => mem_byId.mp hrow
  obtain ⟨hfreed', haddr'⟩ := addressOf_foldl_devices hkeeps hspelled hdevices
    (fun row hrow => hframe ▸ hdevices row hrow) (order_pairwise db)
  exact ⟨hfreed'.trans hfreed, haddr'.trans haddr⟩

/-! ### Runs

The step lemma has one case for each call. -/

/-- The calls are made in the network, and opening the store takes no address away. -/
def KeepsAddresses (t : Tunnel) (h : History) : Call → Prop
  | .openStore => OpenKeepsAddresses h.db
  | .createSite tunnel .. => tunnel = t.pre
  | .createDevice tunnel .. => tunnel = t.pre
  | _ => True

theorem addressInv_step {lib : Lib} {t : Tunnel} {h h' : History} {call : Call}
    (hinv : AddressInv h)
    (hallowed : KeepsAddresses t h call) (hstep : h.step lib call = some h') : AddressInv h' := by
  obtain ⟨db', hcall, rfl⟩ := Option.map_eq_some_iff.mp hstep
  rcases step_cases hcall with hresult | rfl
  · cases call with
    | openStore =>
        obtain rfl := Except.ok.inj hresult
        obtain ⟨hfreed, haddr⟩ := addressOf_canonicaliseWGKeys hallowed
        exact hinv.same haddr hfreed
    | createSite tunnel sealing now w =>
        obtain rfl : tunnel = t.pre := hallowed
        obtain ⟨key, a, db₁, new, -, -, hnext, rfl, rfl⟩ := createWGSite_eq_ok hresult
        obtain ⟨hfree, hfreed⟩ := nextWGAddress_freed hnext
        refine hinv.give (p := .site (h.db.sites.seq + 1)) hfree ?_
          (addressOf_insertSite (nextWGAddress_frame hnext).2 _) hfreed
        simpa [Peers.addressOf, Peers.find] using find_site_next h.db
    | createDevice tunnel sealing now limit d =>
        obtain rfl : tunnel = t.pre := hallowed
        obtain ⟨key, a, db₁, new, -, -, hnext, -, haddr, -, rfl⟩ := createWGDevice_eq_ok hresult
        obtain ⟨hfree, hfreed⟩ := nextWGAddress_freed hnext
        refine hinv.give (p := .device (h.db.devices.seq + 1)) hfree ?_ ?_ hfreed
        · have hnone : h.db.devices.lookup (h.db.devices.seq + 1) = none := by
            simpa [Peers.find] using find_device_next h.db
          simp [Peers.addressOf, hnone]
        · rw [addressOf_insertDevice (nextWGAddress_frame hnext).1, haddr]
    | updateSite id w =>
        obtain ⟨prev, -, -, rfl⟩ := updateWGSite_eq_ok hresult
        exact hinv.same (addressOf_modifySite fun _ => rfl) rfl
    | deleteSite users id =>
        obtain ⟨site, hrow, rfl⟩ := deleteWGSite_eq_ok hresult
        exact hinv.giveUp (addressOf_site hrow) addressOf_deleteSite fun b => List.mem_insert_iff
    | setDeviceEnabled id enabled =>
        obtain ⟨d, hrow, -, rfl⟩ := setWGDeviceEnabled_eq_ok hresult
        refine hinv.same ?_ rfl
        rw [addressOf_modifyDevice hrow]
        rw [← addressOf_device hrow, Function.update_eq_self]
    | revokeDevice id owner =>
        obtain ⟨d, hrow, -, rfl⟩ := revokeWGDevice_eq_ok hresult
        cases haddr : d.address with
        | none =>
            refine hinv.same ?_ (by simp)
            rw [addressOf_modifyDevice hrow]
            rw [← addressOf_device hrow] at haddr
            rw [← haddr, Function.update_eq_self]
        | some a =>
            refine hinv.giveUp ((addressOf_device hrow).trans haddr) ?_ fun b => List.mem_insert_iff
            exact addressOf_modifyDevice hrow
  · exact hinv.same rfl rfl

/-- In every run of calls in the network, from tables in which no two peers hold one
address, the addresses are sound as long as opening the store takes none away. -/
theorem addresses_sound (lib : Lib) (t : Tunnel) (db : Peers) (hdb : AddressesApart db)
    (calls : List Call) (h : History)
    (hmeets : RunMeets (History.step lib) (KeepsAddresses t) (.start db) calls)
    (hrun : run (History.step lib) (.start db) calls = some h) : AddressesSound t h := by
  have hstart : AddressInv (.start db) := by
    refine ⟨hdb, ?_⟩
    intro a
    simp only [History.start, List.mem_append, mem_addresses, ← used_iff]
    exact Or.comm
  have hinv := hmeets.invariant (P := AddressInv) (fun _ _ _ => addressInv_step) hstart hrun
  exact hinv.sound t

/-! ### From empty tables

What this version stores is canonical, so there is nothing to rewrite. -/

def AllCanonical (db : Peers) : Prop := ∀ p peer, db.find p = some peer → Canonical peer.key

theorem AllCanonical.openKeeps {db : Peers} (h : AllCanonical db) : OpenKeepsAddresses db := by
  intro id d key hrow _ hkey hne
  have hcanonical : canonicalWGKey d.publicKey = .ok d.publicKey :=
    h (.device id) d.peer (find_device hrow)
  rw [hcanonical] at hkey
  exact absurd (Except.ok.inj hkey).symm hne

theorem AllCanonical.set {db db' : Peers} {p : PeerId} {peer : Peer} (h : AllCanonical db)
    (hfind : db'.find = db.find.set p peer) (hkey : Canonical peer.key) : AllCanonical db' := by
  intro q other hq
  rw [hfind] at hq
  rcases View.set_eq_some hq with ⟨-, rfl⟩ | ⟨-, hold⟩
  · exact hkey
  · exact h q other hold

theorem AllCanonical.turn {db : Peers} (h : AllCanonical db) (p : PeerId) :
    db.find.turn p = db.find := by
  cases hp : db.find p with
  | none => simp [View.turn, hp]
  | some peer =>
      rcases View.turn_cases hp with ⟨hsame, -⟩ | ⟨key, hkey, hne, -⟩
      · exact hsame
      · exact absurd (Except.ok.inj (hkey.symm.trans (h p peer hp))) hne

theorem AllCanonical.walk {db : Peers} (h : AllCanonical db) (order : List PeerId) :
    order.foldl View.turn db.find = db.find := by
  induction order with
  | nil => rfl
  | cons p rest ih => rw [List.foldl_cons, h.turn p, ih]

theorem allCanonical_step {lib : Lib} {db db' : Peers} {call : Call} (hdb : AllCanonical db)
    (hstep : step lib db call = some db') : AllCanonical db' := by
  rcases step_cases hstep with hresult | rfl
  · cases call with
    | openStore =>
        obtain rfl := Except.ok.inj hresult
        intro p peer hp
        rw [find_canonicaliseWGKeys, hdb.walk] at hp
        exact hdb p peer hp
    | createSite tunnel sealing now w =>
        obtain ⟨key, a, db₁, new, hkey, -, hnext, rfl, rfl⟩ := createWGSite_eq_ok hresult
        exact hdb.set (find_insertSite (nextWGAddress_frame hnext).2 _) (canonical_of_ok hkey)
    | createDevice tunnel sealing now limit d =>
        obtain ⟨key, a, db₁, new, hkey, -, hnext, rfl, -, -, rfl⟩ := createWGDevice_eq_ok hresult
        exact hdb.set (find_insertDevice (nextWGAddress_frame hnext).1 _) (canonical_of_ok hkey)
    | updateSite id w =>
        obtain ⟨prev, hrow, hkey, rfl⟩ := updateWGSite_eq_ok hresult
        exact hdb.set (find_modifySite hrow) (canonical_of_ok hkey)
    | deleteSite users id =>
        obtain ⟨site, hrow, rfl⟩ := deleteWGSite_eq_ok hresult
        intro p peer hp
        refine hdb p peer ?_
        cases p with
        | site id' =>
            simp only [Peers.find, Table.lookup_delete] at hp ⊢
            split at hp
            · cases hp
            · exact hp
        | device id' => exact hp
    | setDeviceEnabled id enabled =>
        obtain ⟨d, hrow, -, rfl⟩ := setWGDeviceEnabled_eq_ok hresult
        exact hdb.set (find_modifyDevice hrow) (hdb (.device id) d.peer (find_device hrow))
    | revokeDevice id owner =>
        obtain ⟨d, hrow, -, rfl⟩ := revokeWGDevice_eq_ok hresult
        exact hdb.set (find_modifyDevice hrow) (hdb (.device id) d.peer (find_device hrow))
  · exact hdb

def Call.inNetwork (t : Tunnel) : Call → Prop
  | .createSite tunnel .. | .createDevice tunnel .. => tunnel = t.pre
  | _ => True

/-- From empty tables, opening the store never takes an address away. -/
theorem keepsAddresses_from_empty (lib : Lib) (t : Tunnel) (calls : List Call)
    (hcalls : ∀ call ∈ calls, call.inNetwork t) :
    RunMeets (History.step lib) (KeepsAddresses t) (.start .empty) calls := by
  have hempty : AllCanonical (History.start .empty).db := by
    intro p peer hp
    cases p <;> simp [History.start, Peers.find, Peers.empty, Table.lookup, Table.empty] at hp
  generalize History.start .empty = h at hempty
  induction calls generalizing h with
  | nil => trivial
  | cons call rest ih =>
      refine ⟨?_, ?_⟩
      · have hin := hcalls call List.mem_cons_self
        cases call with
        | openStore => exact hempty.openKeeps
        | _ => exact hin
      · intro next hnext
        obtain ⟨db', hstep, rfl⟩ := Option.map_eq_some_iff.mp hnext
        exact ih (fun c hc => hcalls c (List.mem_cons_of_mem call hc)) _
          (allCanonical_step hempty hstep)

/-! ### A network of eight addresses

Five host addresses are enough to see an address come back last. -/

def smallTunnel : Tunnel where
  pre := prefixFrom (.v4 0x0a4d0000#32) 29
  x := 0x0a4d0000#32
  ip_eq := by decide
  valid := by decide
  low := by decide
  high := by decide

def office : WGSite :=
  ⟨"office", zeroKey, .zero, ["192.168.50.0/24"], "", 25, true, false, 0⟩

/-- A site comes and goes, and another one comes. -/
def comeAndGo : List Call :=
  [.createSite smallTunnel.pre (.ok ()) 1 office, .deleteSite [] 1, .openStore,
    .createSite smallTunnel.pre (.ok ()) 2 office]

theorem addresses_sound_comeAndGo :
    ∃ h, run (History.step Store.asciiLib) (.start .empty) comeAndGo = some h ∧
      h.db.addresses = [addrAt (smallTunnel.base + 3)] ∧ AddressesSound smallTunnel h := by
  obtain ⟨h, hrun, haddr⟩ : ∃ h, run (History.step Store.asciiLib) (.start .empty) comeAndGo =
    some h ∧
      h.db.addresses = [addrAt (smallTunnel.base + 3)] :=
    Option.map_eq_some_iff.mp (by decide +kernel)
  refine ⟨h, hrun, haddr, ?_⟩
  refine addresses_sound Store.asciiLib smallTunnel .empty ?_ comeAndGo h ?_ hrun
  · intro p q a _ hp
    cases p <;> simp [Peers.addressOf, Peers.empty, Table.lookup, Table.empty] at hp
  · refine keepsAddresses_from_empty Store.asciiLib smallTunnel comeAndGo ?_
    intro call hcall
    simp only [comeAndGo, List.mem_cons, List.not_mem_nil, or_false] at hcall
    rcases hcall with rfl | rfl | rfl | rfl <;> trivial

/-- Two devices of an older version that hold one key in two spellings. -/
def twoHolders : Peers :=
  let first := { laptop zeroKey 1 with address := some (addrAt (smallTunnel.base + 2)) }
  let second := { laptop brokenKey 2 with address := some (addrAt (smallTunnel.base + 3)) }
  { Peers.empty with devices := (Table.empty.insert first).insert second }

theorem apart_twoHolders : AddressesApart twoHolders := by
  have hheld : ∀ p a, twoHolders.addressOf p = some a →
      (p = .device 1 ∧ a = addrAt (smallTunnel.base + 2)) ∨
        (p = .device 2 ∧ a = addrAt (smallTunnel.base + 3)) := by
    intro p a hp
    cases p with
    | site id => simp [Peers.addressOf, twoHolders, Peers.empty, Table.lookup, Table.empty] at hp
    | device id =>
        obtain ⟨d, hd, ha⟩ := Option.bind_eq_some_iff.mp hp
        rcases Table.mem_insert.mp (Table.lookup_eq_some.mp hd) with hold | hnew
        · rcases Table.mem_insert.mp hold with hnone | hfirst
          · simp [Table.empty] at hnone
          · obtain ⟨rfl, rfl⟩ := Prod.mk.inj hfirst
            exact Or.inl ⟨rfl, (Option.some.inj ha).symm⟩
        · obtain ⟨rfl, rfl⟩ := Prod.mk.inj hnew
          exact Or.inr ⟨rfl, (Option.some.inj ha).symm⟩
  intro p q a hne hp hq
  rcases hheld p a hp with ⟨rfl, rfl⟩ | ⟨rfl, rfl⟩ <;> rcases hheld q _ hq
    with ⟨rfl, ha⟩ | ⟨rfl, ha⟩
  · exact hne rfl
  · exact absurd ha (by decide)
  · exact absurd ha (by decide)
  · exact hne rfl

/-- Opening the store revokes the second device and forgets its address, which is the
next to be given out, while others were never held. -/
theorem forgotten_address_is_next :
    ∃ db h, AddressesApart db ∧
      run (History.step Store.asciiLib) (.start db) [.openStore] = some h ∧
      ¬ AddressesSound smallTunnel h := by
  obtain ⟨h, hrun, hstate⟩ : ∃ h,
    run (History.step Store.asciiLib) (.start twoHolders) [.openStore] = some h ∧
      ((nextWGAddress h.db smallTunnel.pre).toOption.map Prod.fst, h.held) =
        (some (addrAt (smallTunnel.base + 3)),
          [addrAt (smallTunnel.base + 2), addrAt (smallTunnel.base + 3),
            addrAt (smallTunnel.base + 2)]) :=
    Option.map_eq_some_iff.mp (by decide +kernel)
  obtain ⟨hnext, hheld⟩ := Prod.mk.inj hstate
  refine ⟨twoHolders, h, apart_twoHolders, hrun, ?_⟩
  intro hsound
  cases hresult : nextWGAddress h.db smallTunnel.pre with
  | error why => simp [hresult, Except.toOption] at hnext
  | ok found =>
      obtain ⟨a, db'⟩ := found
      obtain rfl : a = addrAt (smallTunnel.base + 3) := by
        simpa [hresult, Except.toOption] using hnext
      obtain ⟨n, -, -, -, hall, -⟩ := hsound.next _ _ hresult
      have hheld' := hall (by simp [hheld]) (smallTunnel.base + 4) (by decide)
      rw [hheld] at hheld'
      exact absurd hheld' (by decide)

end Quicgate.Wg
