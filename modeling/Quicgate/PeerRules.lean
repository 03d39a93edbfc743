import Quicgate.HostChecks
import Quicgate.StoreDb
import Quicgate.WgManager

/-!
# Rules about one VPN peer

A rule of an access list may name one peer.  Its id is read as a number when the list is
checked against the database (`VPNSubject.Validate`, `checkAccessListRefs`), and compared as
a text with the key of the peer when a request comes (`vpnSubjectMatches`).

`exactly_iff_plain` says that the two agree for ids that are written as the number is
printed; `signed_id_never_matches` is a rule that passes the check and denies nobody.
-/

namespace Quicgate.PeerRules

open Quicgate.Access Quicgate.Checks Quicgate.GoStrings Quicgate.Store Quicgate.WgManager
open Quicgate.WgPolicy (Peer)

def FromRow (r : Ref) (p : Peer) : Prop :=
  (∃ s, r = .site s.id ∧ p = (sitePeer s).toPeer) ∨ ∃ d, r = .device d.id ∧
    p = (devicePeer d).toPeer

/-- The subject is the peer of the row and nobody else, and a rule that denies it refuses
that peer. -/
structure Exactly (s : VPNSubject) (r : Ref) : Prop where
  only : ∀ owners r' p, FromRow r' p → (vpnSubjectMatches owners s p = true ↔ r' = r)
  denied : ∀ owners p, FromRow r p → ∀ (c : CompiledAccess) ip method l4 (rule : CompiledRule),
    c.vpnMatch = some (vpnSubjectMatches owners) → rule.vpn = some s → rule.allow = false →
      rule.methods = none → ruleAnswer c ip method l4 (some p) rule = some false

def idText (s : VPNSubject) : List Char := (cut ':' s.peer.toList).2.1

/-- The id is written as the number it is read as is printed. -/
def Plain (s : VPNSubject) : Prop :=
  (parseInt64 (idText s)).any (fun n => idText s = (printInt n).toList) = true

instance (s : VPNSubject) : Decidable (Plain s) := inferInstanceAs (Decidable (_ = true))

/-! ### Keys

The text of an id is what a comparison by key sees of it. -/

theorem toList_toString (n : Int) : (toString n).toList = (printInt n).toList := by
  cases n with
  | ofNat n =>
      rw [printInt, if_neg (by simp)]
      rfl
  | negSucc n =>
      rw [printInt, if_pos (Int.negSucc_lt_zero n), String.toList_ofList]
      have htext : toString (Int.negSucc n) = "-" ++ String.ofList (itoa (n + 1)) := rfl
      rw [htext, String.toList_append, String.toList_ofList]
      simp

/-! ### Checked subjects

What the check of a list makes sure of: the side, a number, and a row with that number. -/

section Checked

variable {lib : Lib} {db : Db} {s s' : VPNSubject} {a : AccessList}

/-- A peer subject that is accepted has a side and a number. -/
theorem validateSubject_peer (hvalid : validateSubject lib false s' = .ok s)
    (hkind : s.kind = "peer") : s.provider = 0 ∧ (parseInt64 (idText s)).isSome = true ∧
      (cut ':' s.peer.toList = ("site".toList, idText s, true) ∨
        cut ':' s.peer.toList = ("device".toList, idText s, true)) := by
  unfold validateSubject at hvalid
  simp only at hvalid
  split_ifs at hvalid with hany hpeer huser hgroup hanyUser
  · simp only [bind_eq_ok, pure_eq_ok] at hvalid
    obtain ⟨-, -, rfl⟩ := hvalid
    simp only at hkind
    simp [hkind] at hany
  · simp only [bind_eq_ok, pure_eq_ok, refuseIf_eq_ok] at hvalid
    obtain ⟨-, -, -, hshape, rfl⟩ := hvalid
    refine ⟨rfl, ?_⟩
    unfold idText
    generalize cut ':' (trim s'.peer).toList = parts at hshape ⊢
    obtain ⟨kind, id, found⟩ := parts
    generalize "site".toList = site at hshape ⊢
    generalize "device".toList = device at hshape ⊢
    obtain ⟨hfound, hrest⟩ := not_or.mp hshape
    obtain ⟨hid, hside⟩ := not_or.mp hrest
    obtain rfl : found = true := by simpa using hfound
    refine ⟨Option.isSome_iff_ne_none.mpr hid, ?_⟩
    by_cases hsite : kind = site
    · exact Or.inl (by rw [hsite])
    · have hdevice : kind = device := by
        by_contra hne
        exact hside ⟨hsite, hne⟩
      exact Or.inr (by rw [hdevice])
  · simp only [bind_eq_ok, pure_eq_ok] at hvalid
    obtain ⟨-, -, rfl⟩ := hvalid
    exact absurd hkind hpeer
  · simp only [bind_eq_ok, pure_eq_ok] at hvalid
    obtain ⟨-, -, rfl⟩ := hvalid
    exact absurd hkind hpeer
  · simp only [bind_eq_ok, pure_eq_ok] at hvalid
    obtain ⟨-, -, rfl⟩ := hvalid
    exact absurd hkind hpeer

/-- The row that a peer subject is checked against. -/
theorem refs_subjectNamed (hvalid : validateSubject lib false s' = .ok s)
    (hkind : s.kind = "peer") :
    ∃ n, parseInt64 (idText s) = some n ∧
      ((∀ i, (subjectNamed i s).refs = [.site n]) ∧
          s.peer.toList = "site".toList ++ ':' :: idText s ∨
        (∀ i, (subjectNamed i s).refs = [.device n]) ∧
          s.peer.toList = "device".toList ++ ':' :: idText s) := by
  obtain ⟨hprovider, hid, hcut⟩ := validateSubject_peer hvalid hkind
  obtain ⟨n, hn⟩ := Option.isSome_iff_exists.mp hid
  refine ⟨n, hn, ?_⟩
  have hzero : ¬ 0 < s.provider := by omega
  rcases hcut with hcut | hcut
  · left
    refine ⟨fun i => ?_, cut_true hcut⟩
    simp [subjectNamed, hzero, hkind, hcut, hn, Named.refs]
  · right
    refine ⟨fun i => ?_, cut_true hcut⟩
    have hside : "device".toList ≠ "site".toList := by decide
    simp [subjectNamed, hzero, hkind, hcut, hn, Named.refs]

theorem matches_iff_key (hkind : s.kind = "peer") (owners : Option (List (Int × VpnOwner)))
    (p : Peer) : vpnSubjectMatches owners s p = true ↔ s.peer.toList = p.key.toList := by
  simp [vpnSubjectMatches, hkind, String.toList_inj]

/-- A rule's subject is checked with the others of its list. -/
theorem mem_rulesNamed {rules : List AccessRule} {rule : AccessRule} (hrule : rule ∈ rules)
    (hvpn : rule.vpn = some s) (i : Nat) :
    ∃ j, ∀ n ∈ subjectNamed j s, n ∈ rulesNamed i rules := by
  induction rules generalizing i with
  | nil => exact absurd hrule List.not_mem_nil
  | cons first rest ih =>
      rcases List.mem_cons.mp hrule with rfl | hrest
      · refine ⟨i, fun n hn => ?_⟩
        simp only [rulesNamed, hvpn, Option.map_some, Option.getD_some]
        exact List.mem_append_left _ hn
      · obtain ⟨j, hj⟩ := ih hrest (i + 1)
        exact ⟨j, fun n hn => List.mem_append_right _ (hj n hn)⟩

end Checked

/-! ### The peer of a row

The manager makes the key of a peer from the number of its row. -/

def keyChars : Ref → List Char
  | .site n => "site".toList ++ ':' :: (printInt n).toList
  | .device n => "device".toList ++ ':' :: (printInt n).toList
  | _ => []

section Rows

variable {s : VPNSubject} {r r' : Ref} {p : Peer}

theorem FromRow.key (h : FromRow r p) :
    p.key.toList = keyChars r ∧ ∃ n, r = .site n ∨ r = .device n := by
  rcases h with ⟨s, rfl, rfl⟩ | ⟨d, rfl, rfl⟩
  · refine ⟨?_, s.id, Or.inl rfl⟩
    change ("site:" ++ toString s.id).toList = _
    rw [String.toList_append, toList_toString]
    rfl
  · refine ⟨?_, d.id, Or.inr rfl⟩
    change ("device:" ++ toString d.id).toList = _
    rw [String.toList_append, toList_toString]
    rfl

theorem exists_fromRow {n : Int} (h : r = .site n ∨ r = .device n) : ∃ p, FromRow r p := by
  rcases h with rfl | rfl
  · exact ⟨_, Or.inl ⟨⟨n, "", "", "", .zero, [], "", 0, true⟩, rfl, rfl⟩⟩
  · exact ⟨_, Or.inr ⟨⟨n, "", "", "", "", .zero, none, []⟩, rfl, rfl⟩⟩

theorem append_colon_inj {kind kind' id id' : List Char} (hkind : ':' ∉ kind)
    (hkind' : ':' ∉ kind') (h : kind ++ ':' :: id = kind' ++ ':' :: id') :
    kind = kind' ∧ id = id' := by
  have hcut := cut_append_cons hkind id
  rw [h, cut_append_cons hkind' id'] at hcut
  obtain ⟨hside, hrest⟩ := Prod.mk.inj hcut
  exact ⟨hside.symm, (Prod.mk.inj hrest).1.symm⟩

/-- Two rows have two keys. -/
theorem keyChars_injective {n n' : Int} (hr : r = .site n ∨ r = .device n)
    (hr' : r' = .site n' ∨ r' = .device n') (h : keyChars r = keyChars r') : r = r' := by
  have hsite : ':' ∉ "site".toList := by decide
  have hdevice : ':' ∉ "device".toList := by decide
  have hne : "site".toList ≠ "device".toList := by decide
  rcases hr with rfl | rfl <;> rcases hr' with rfl | rfl
  · obtain ⟨-, hid⟩ := append_colon_inj hsite hsite h
    rw [printInt_injective (String.toList_inj.mp hid)]
  · exact absurd (append_colon_inj hsite hdevice h).1 hne
  · exact absurd (append_colon_inj hdevice hsite h).1 hne.symm
  · obtain ⟨-, hid⟩ := append_colon_inj hdevice hdevice h
    rw [printInt_injective (String.toList_inj.mp hid)]

/-- The subject is exactly the peer whose key it spells. -/
theorem exactly_iff_key {n : Int} (hkind : s.kind = "peer") (hr : r = .site n ∨ r = .device n) :
    Exactly s r ↔ s.peer.toList = keyChars r := by
  constructor
  · intro hexact
    obtain ⟨p, hp⟩ := exists_fromRow hr
    have hmatches := (hexact.only none r p hp).mpr rfl
    rw [(matches_iff_key hkind none p).mp hmatches, hp.key.1]
  · intro hkey
    have honly (owners) (r' : Ref) (p : Peer) (hp : FromRow r' p) :
        vpnSubjectMatches owners s p = true ↔ r' = r := by
      obtain ⟨hp, n', hr'⟩ := hp.key
      rw [matches_iff_key hkind, hkey, hp]
      constructor
      · intro heq
        exact (keyChars_injective hr hr' heq).symm
      · rintro rfl
        rfl
    refine ⟨honly, ?_⟩
    intro owners p hp c ip method l4 rule hmatch hvpn hdeny hmethods
    have hskips : rule.skips method l4 = false := by simp [CompiledRule.skips, hmethods]
    simp [ruleAnswer, hskips, hvpn, vpnAnswer, hmatch, (honly owners r p hp).mpr rfl, hdeny]

end Rows

/-- An accepted peer subject matches exactly the requests of the row that it was checked
against, if and only if its id is written as that number is printed. -/
theorem exactly_iff_plain {lib : Lib} {db : Db} {s s' : VPNSubject} {a : AccessList}
    {rule : AccessRule} (hvalid : validateSubject lib false s' = .ok s) (hkind : s.kind = "peer")
    (hrule : rule ∈ a.rules) (hvpn : rule.vpn = some s)
    (hchecked : requireRows db (AccessList.named a) = .ok ()) :
    ∃ r, (∀ i, (subjectNamed i s).refs = [r]) ∧ db.resolves r = true ∧
      (Exactly s r ↔ Plain s) := by
  obtain ⟨j, hj⟩ := mem_rulesNamed hrule hvpn 1
  have hresolves (r : Ref) (hr : r ∈ (subjectNamed j s).refs) : db.resolves r = true := by
    obtain ⟨n, hn, rfl⟩ := List.mem_map.mp hr
    exact requireRows_eq_ok.mp hchecked _ (List.mem_map_of_mem (hj n hn))
  have hplain (n : Int) (hn : parseInt64 (idText s) = some n) :
      Plain s ↔ idText s = (printInt n).toList := by
    simp [Plain, hn]
  obtain ⟨n, hn, hrow⟩ := refs_subjectNamed hvalid hkind
  rcases hrow with ⟨hrefs, htext⟩ | ⟨hrefs, htext⟩
  · refine ⟨.site n, hrefs, hresolves _ (by simp [hrefs]), ?_⟩
    rw [exactly_iff_key hkind (Or.inl rfl), hplain n hn, htext, keyChars]
    simp
  · refine ⟨.device n, hrefs, hresolves _ (by simp [hrefs]), ?_⟩
    rw [exactly_iff_key hkind (Or.inr rfl), hplain n hn, htext, keyChars]
    simp

def peerSubject (peer : String) : VPNSubject := ⟨"peer", peer, 0, "", ""⟩

/-- A list that denies one peer. -/
def denying (s : VPNSubject) : AccessList :=
  ⟨"lan", "any", false, [⟨"deny", "", "", "", [], some s⟩], []⟩

/-- The site 1 and the device 1. -/
def smallDb : Db :=
  { Db.empty with sites := Db.empty.sites.insert (), devices := Db.empty.devices.insert ⟨0, false⟩ }

theorem exactly_iff_plain_site :
    ∃ r, (∀ i, (subjectNamed i (peerSubject "site:1")).refs = [r]) ∧ smallDb.resolves r = true ∧
      Exactly (peerSubject "site:1") r := by
  obtain ⟨r, hrefs, hresolves, hexact⟩ := @exactly_iff_plain asciiLib smallDb
    (peerSubject "site:1") (peerSubject "site:1") (denying (peerSubject "site:1")) _
    (by decide +kernel) rfl List.mem_cons_self rfl (by decide +kernel)
  exact ⟨r, hrefs, hresolves, hexact.mpr (by decide +kernel)⟩

/-- A denied device whose id is written with a sign is not refused. -/
theorem signed_id_never_matches : ¬ ∀ (lib : Lib) (db : Db) (s s' : VPNSubject) (a : AccessList)
    (rule : AccessRule), validateSubject lib false s' = .ok s → s.kind = "peer" →
      rule ∈ a.rules → rule.vpn = some s → requireRows db (AccessList.named a) = .ok () →
        ∃ r, (∀ i, (subjectNamed i s).refs = [r]) ∧ db.resolves r = true ∧ Exactly s r := by
  intro hall
  obtain ⟨r, hrefs, -, hexact⟩ := hall asciiLib smallDb (peerSubject "device:+1")
    (peerSubject "device:+1") (denying (peerSubject "device:+1")) _ (by decide +kernel) rfl
    List.mem_cons_self rfl (by decide +kernel)
  obtain rfl : Ref.device 1 = r := List.singleton_inj.mp (hrefs 1)
  have hkey := (exactly_iff_key rfl (Or.inr rfl)).mp hexact
  exact absurd hkey (by decide +kernel)

end Quicgate.PeerRules
