import Quicgate.TransitionSystem
import Quicgate.WgManager

/-!
# Who owns an address in a stack instance

The manager never lets an address change hands inside a running instance: it
remembers every prefix a peer has owned there (`owned`), and replaces the
instance before it configures the prefix for another peer.  What an instance was
sent, over every order of `Apply` and `Close` and every failure of a write, is
what the results here are about.

* `Inv` is the invariant: what was sent is noted, so that the next configuration
  is compared with all of it, a failed write included.
* `owners_apart_iff` is the result.  The owners never overlap and an address
  has one candidate in every run; a peer keeps its public key inside an instance
  exactly when none comes back under a new one after it was away.
-/

namespace Quicgate.WgManager

open Quicgate.GoMaps Quicgate.Netip Quicgate.WgPolicy Quicgate.TransitionSystem

/-! ### What was written

The peers of a configuration whose keys all parse are written one by one, and nothing else
configures a peer. -/

/-- `c` is how the device is told about `p`. -/
structure Writes (p : ManagedPeer) (c : Configured) : Prop where
  key : c.key = p.key
  publicKey : keyHex p.publicKey = some c.publicKey
  allowedIPs : c.allowedIPs = p.prefixes

/-- Exactly the peers of the configuration were written. -/
structure Written (cfg : Config) (news : List Configured) : Prop where
  sound : ∀ c ∈ news, ∃ p ∈ wanted cfg, Writes p c
  complete : ∀ p ∈ wanted cfg, ∃ c ∈ news, Writes p c

theorem Written.append {cfg : Config} {news more : List Configured} (hnews : Written cfg news)
    (hmore : Written cfg more) : Written cfg (news ++ more) where
  sound c hc := (List.mem_append.mp hc).elim (hnews.sound c) (hmore.sound c)
  complete p hp := by
    obtain ⟨c, hc, hw⟩ := hnews.complete p hp
    exact ⟨c, List.mem_append_left more hc, hw⟩

def parses (cfg : Config) : Bool :=
  (wanted cfg).all fun p => (keyHex p.publicKey).isSome && (keyHex p.psk).isSome

theorem peerIPC_eq_some {p : ManagedPeer} {endpoint : String} {located : Bool} {command : Command}
    (h : peerIPC p endpoint located = some command) :
    ∃ c, command = .configure c ∧ Writes p c := by
  simp only [peerIPC, Option.bind_eq_bind, Option.bind_eq_some_iff, Option.pure_def,
    Option.some.injEq] at h
  obtain ⟨pub, hpub, psk, _, rfl⟩ := h
  exact ⟨_, rfl, ⟨rfl, hpub, rfl⟩⟩

theorem peerIPC_eq_none {p : ManagedPeer} {endpoint : String} {located : Bool} :
    peerIPC p endpoint located = none ↔
      ((keyHex p.publicKey).isSome && (keyHex p.psk).isSome) = false := by
  cases hpub : keyHex p.publicKey <;> cases hpsk : keyHex p.psk <;> simp [peerIPC, hpub, hpsk]

section WritePeers

variable {replaceAll : Bool} {ans : Answers} {peers : GoMap String ManagedPeer}

/-- The commands for a list of peers configure these peers, one by one. -/
theorem writePeers_eq_some {want : List ManagedPeer} {resolved warnings : GoMap String String}
    {commands : List Command}
    (h : (writePeers replaceAll ans peers want resolved warnings).1 = some commands) :
    List.Forall₂ Writes want (commands.filterMap Command.configured) := by
  induction want generalizing resolved warnings commands with
  | nil =>
      obtain rfl : [] = commands := Option.some.inj h
      exact List.Forall₂.nil
  | cons p rest ih =>
      simp only [writePeers] at h
      split at h
      · cases h
      · rename_i command hcommand
        obtain ⟨c, rfl, hwrites⟩ := peerIPC_eq_some hcommand
        obtain ⟨written, hwritten, rfl⟩ := Option.map_eq_some_iff.mp h
        exact List.Forall₂.cons hwrites (ih hwritten)

theorem writePeers_eq_none {want : List ManagedPeer} {resolved warnings : GoMap String String} :
    (writePeers replaceAll ans peers want resolved warnings).1 = none ↔
      (want.all fun p => (keyHex p.publicKey).isSome && (keyHex p.psk).isSome) = false := by
  induction want generalizing resolved warnings with
  | nil => simp [writePeers]
  | cons p rest ih =>
      simp only [writePeers, List.all_cons]
      split
      · rename_i hnone
        simp [peerIPC_eq_none.mp hnone]
      · rename_i command hcommand
        have hparses : ((keyHex p.publicKey).isSome && (keyHex p.psk).isSome) = true := by
          by_contra hfalse
          rw [peerIPC_eq_none.mpr (by simpa using hfalse)] at hcommand
          cases hcommand
        simp only [Option.map_eq_none_iff, ih, hparses, Bool.true_and]

end WritePeers

theorem written_of_forall₂ {cfg : Config} {news : List Configured}
    (h : List.Forall₂ Writes (wanted cfg) news) : Written cfg news where
  sound c hc := by
    obtain ⟨i, hi, rfl⟩ := List.getElem_of_mem hc
    have hlen := h.length_eq
    exact ⟨(wanted cfg)[i], List.getElem_mem _, (List.forall₂_iff_get.mp h).2 i (by omega) hi⟩
  complete p hp := by
    obtain ⟨i, hi, rfl⟩ := List.getElem_of_mem hp
    have hlen := h.length_eq
    exact ⟨news[i], List.getElem_mem _, (List.forall₂_iff_get.mp h).2 i hi (by omega)⟩

/-- Nothing is configured by a removal, and one whose keys parse deletes all it is
about. -/
theorem removeGone_spec {replaceAll : Bool} {old : List (String × ManagedPeer)}
    (hparse : ∀ o ∈ old, (keyHex o.2.publicKey).isSome = true) :
    (removeGone replaceAll old).ok = true ∧
      (removeGone replaceAll old).deleted = old.map Prod.fst ∧
      ∀ command ∈ (removeGone replaceAll old).commands, command.configured = none := by
  induction old with
  | nil => simp [removeGone]
  | cons o rest ih =>
      obtain ⟨key, old⟩ := o
      obtain ⟨hok, hdeleted, hcommands⟩ := ih fun o ho => hparse o (List.mem_cons_of_mem _ ho)
      obtain ⟨pub, hpub⟩ := Option.isSome_iff_exists.mp (hparse (key, old) List.mem_cons_self)
      cases replaceAll with
      | true => simpa [removeGone, hok, hdeleted] using hcommands
      | false => simpa [removeGone, hpub, hok, hdeleted] using hcommands

/-! ### Writing the peers

A write that fails may have configured any part of the peers, or none; `sent` has all of them in
every case, and `owned` notes them when the device took them. -/

def Sub (m m' : GoMap String ManagedPeer) : Prop :=
  ∀ k p, m.lookup k = some p → m'.lookup k = some p

theorem sub_eraseAll (m : GoMap String ManagedPeer) (keys : List String) :
    Sub (m.eraseAll keys) m := by
  intro k p h
  rw [GoMap.lookup_eraseAll] at h
  split at h
  · cases h
  · exact h

/-- What is left after the peers that are gone were deleted and the wanted ones
were written is what is wanted. -/
theorem sub_wantMap {m want : GoMap String ManagedPeer} :
    Sub ((m.eraseAll ((m.pairs.filter fun o => gone want o.1 o.2).map Prod.fst)).insertAll
      want.pairs) want := by
  intro k p h
  rcases GoMap.of_lookup_insertAll h with hmem | ⟨hnone, hlook⟩
  · exact GoMap.mem_pairs.mp hmem
  · exfalso
    rw [GoMap.lookup_eraseAll] at hlook
    split at hlook
    · cases hlook
    · rename_i hkept
      refine hkept
        (List.mem_map.mpr ⟨(k, p), List.mem_filter.mpr ⟨GoMap.mem_pairs.mpr hlook, ?_⟩, rfl⟩)
      -- a wanted peer would have been written over it
      have hwant : want.lookup k = none := by
        rw [Option.eq_none_iff_forall_not_mem]
        intro q hq
        exact hnone (k, q) (GoMap.mem_pairs.mpr hq) rfl
      simp [gone, hwant]

/-- The instance after peers were written to it, noted or not. -/
def Instance.told (inst : Instance) (news : List Configured) : Instance :=
  { inst with sent := inst.sent ++ news }

def Instance.noted (inst : Instance) (cfg : Config) : Instance :=
  { inst with owned := noteOwned inst.owned (wantMap (wanted cfg)) }

/-- What a write of the peers can do: nothing but deletions when a key does not
parse, else all peers are written, and noted when the device took them. -/
theorem syncPeersLocked_cases {e : Endpoint} {inst : Instance} {cfg : Config} {replaceAll : Bool}
    {ans : Answers} {wrote : Bool} {after : Synced}
    (hafter : after = syncPeersLocked e inst cfg replaceAll ans wrote) (hinst : e.inst = some inst)
    (hparse : ∀ k p, e.peers.lookup k = some p → (keyHex p.publicKey).isSome = true) :
    after.endpoint.retired = e.retired ∧
      ((parses cfg = false ∧ after.ok = false ∧ after.endpoint.inst = some inst ∧
          Sub after.endpoint.peers e.peers) ∨
        ∃ news, parses cfg = true ∧ Written cfg news ∧
          ((after.ok = false ∧ after.endpoint.inst = some (inst.told news) ∧
              Sub after.endpoint.peers e.peers) ∨
            (after.ok = true ∧ after.endpoint.inst = some ((inst.told news).noted cfg) ∧
              Sub after.endpoint.peers (wantMap (wanted cfg))))) := by
  obtain ⟨hok, hdeleted, hremoved⟩ := @removeGone_spec replaceAll
    (e.peers.pairs.filter fun o => gone (wantMap (wanted cfg)) o.1 o.2)
    fun o ho => hparse o.1 o.2 (GoMap.mem_pairs.mp (List.mem_filter.mp ho).1)
  simp only [syncPeersLocked, hok, hdeleted, Bool.not_true, Bool.false_eq_true, if_false] at hafter
  split at hafter
  · rename_i resolved warnings hwrite
    have hparses : parses cfg = false := by
      rw [parses, ← writePeers_eq_none, hwrite]
    subst hafter
    exact ⟨rfl, Or.inl ⟨hparses, rfl, hinst, sub_eraseAll _ _⟩⟩
  · rename_i written resolved warnings hwrite
    have hparses : parses cfg = true := by
      rw [parses, ← Bool.not_eq_false, ← writePeers_eq_none, hwrite]
      simp
    have hwritten : Written cfg (written.filterMap Command.configured) :=
      written_of_forall₂ (writePeers_eq_some (congrArg Prod.fst hwrite))
    generalize hcommands : (if replaceAll then [Command.replacePeers] else []) ++
        (removeGone replaceAll (e.peers.pairs.filter fun o =>
          gone (wantMap (wanted cfg)) o.1 o.2)).commands ++ written = commands at hafter
    have hconfigured :
        commands.filterMap Command.configured = written.filterMap Command.configured := by
      rw [← hcommands, List.filterMap_append, List.filterMap_append,
        List.filterMap_eq_nil_iff.mpr hremoved]
      cases replaceAll <;> simp
    rw [hconfigured] at hafter
    split at hafter <;> subst hafter
    · exact ⟨rfl, Or.inr ⟨_, hparses, hwritten, Or.inr ⟨rfl, rfl, sub_wantMap⟩⟩⟩
    · exact ⟨rfl, Or.inr ⟨_, hparses, hwritten, Or.inl ⟨rfl, rfl, sub_eraseAll _ _⟩⟩⟩

/-- What applying a configuration to a running instance can do: the endpoint goes
down, with nothing or all of the peers written to the instance, or it goes on with
all of them written and noted. -/
theorem syncOrStop_cases {e : Endpoint} {inst : Instance} {cfg : Config} {ans : Answers}
    {applied : Applied} (happlied : applied = e.syncOrStop inst cfg ans)
    (hinst : e.inst = some inst)
    (hparse : ∀ k p, e.peers.lookup k = some p → (keyHex p.publicKey).isSome = true) :
    (parses cfg = false ∧ applied.endpoint.inst = none ∧ applied.endpoint.peers = ∅ ∧
        applied.endpoint.retired = e.retired ++ [inst]) ∨
      ∃ news, parses cfg = true ∧ Written cfg news ∧
        ((applied.endpoint.inst = none ∧ applied.endpoint.peers = ∅ ∧
            applied.endpoint.retired = e.retired ++ [inst.told news]) ∨
          (applied.endpoint.inst = some ((inst.told news).noted cfg) ∧
            applied.endpoint.retired = e.retired ∧
            Sub applied.endpoint.peers (wantMap (wanted cfg)))) := by
  simp only [Endpoint.syncOrStop] at happlied
  generalize hfirst : syncPeersLocked e inst cfg false ans ans.wrote = first at happlied
  obtain ⟨hretired, hcases⟩ := syncPeersLocked_cases hfirst.symm hinst hparse
  split at happlied
  · rename_i hok
    subst happlied
    rcases hcases with ⟨_, hfail, _⟩ | ⟨news, hparses, hwritten, ⟨hfail, _⟩ | ⟨_, hinst', hsub⟩⟩
    · simp [hok] at hfail
    · simp [hok] at hfail
    · exact Or.inr ⟨news, hparses, hwritten, Or.inr ⟨hinst', hretired, hsub⟩⟩
  · rename_i hfail
    -- the second write starts from what the first one left
    obtain ⟨middle, hmiddle, hsub, hsent⟩ : ∃ middle, first.endpoint.inst = some middle ∧
        Sub first.endpoint.peers e.peers ∧ ((parses cfg = false ∧ middle = inst) ∨
          ∃ news, parses cfg = true ∧ Written cfg news ∧ middle = inst.told news) := by
      rcases hcases with ⟨hparses, _, hinst', hsub⟩ |
        ⟨news, hparses, hwritten, ⟨_, hinst', hsub⟩ | ⟨hok, _⟩⟩
      · exact ⟨inst, hinst', hsub, Or.inl ⟨hparses, rfl⟩⟩
      · exact ⟨_, hinst', hsub, Or.inr ⟨news, hparses, hwritten, rfl⟩⟩
      · exact absurd hok hfail
    rw [hmiddle, Option.getD_some] at happlied
    generalize hsecond : syncPeersLocked first.endpoint middle cfg true ans ans.rewrote = second
      at happlied
    obtain ⟨hretired', hcases'⟩ := syncPeersLocked_cases hsecond.symm hmiddle
      fun k p hk => hparse k p (hsub k p hk)
    rw [hretired] at hretired'
    rcases hsent with ⟨hparses, rfl⟩ | ⟨news, hparses, hwritten, rfl⟩
    · rcases hcases' with ⟨_, hfail', hinst', _⟩ | ⟨_, hparses', _⟩
      · rw [if_neg (by simp [hfail'])] at happlied
        subst happlied
        exact Or.inl ⟨hparses, rfl, rfl, by simp [Endpoint.stopLocked, hinst', hretired']⟩
      · simp [hparses] at hparses'
    · have htold : ∀ more, (inst.told news).told more = inst.told (news ++ more) := by
        intro more
        simp [Instance.told]
      rcases hcases'
        with ⟨hparses', _⟩ | ⟨more, _, hmore, ⟨hfail', hinst', _⟩ | ⟨hok', hinst', hsub'⟩⟩
      · simp [hparses] at hparses'
      · rw [if_neg (by simp [hfail'])] at happlied
        subst happlied
        exact Or.inr ⟨news ++ more, hparses, hwritten.append hmore,
          Or.inl ⟨rfl, rfl, by simp [Endpoint.stopLocked, hinst', hretired', htold]⟩⟩
      · rw [if_pos hok'] at happlied
        subst happlied
        exact Or.inr ⟨news ++ more, hparses, hwritten.append hmore,
          Or.inr ⟨by rw [hinst', htold], hretired', hsub'⟩⟩

/-! ### The invariant

`Inv` is what holds whenever the lock is free: what was sent is noted, prefixes of different peers
of an instance do not overlap, and the peers of the manager are those of its configuration. -/

/-- No two wanted peers own overlapping prefixes; the keys are those of database rows,
no two of which are the same. -/
structure Disjoint (cfg : Config) : Prop where
  keys : ((wanted cfg).map ManagedPeer.key).Nodup
  prefixes : ∀ p ∈ wanted cfg, ∀ q ∈ wanted cfg, p.key ≠ q.key →
    ∀ a ∈ p.prefixes, ∀ b ∈ q.prefixes, a.overlaps b = false

/-- Prefixes that were written for different peers do not overlap. -/
def Instance.OwnersApart (inst : Instance) : Prop :=
  ∀ c ∈ inst.sent, ∀ c' ∈ inst.sent, c.key ≠ c'.key →
    ∀ a ∈ c.allowedIPs, ∀ b ∈ c'.allowedIPs, a.overlaps b = false

def Instance.OneKeyEach (inst : Instance) : Prop :=
  ∀ c ∈ inst.sent, ∀ c' ∈ inst.sent, c.key = c'.key → c.publicKey = c'.publicKey

instance (inst : Instance) : Decidable inst.OneKeyEach :=
  inferInstanceAs (Decidable (∀ c ∈ inst.sent, ∀ c' ∈ inst.sent, c.key = c'.key →
    c.publicKey = c'.publicKey))

/-- Every prefix that was written is noted as its peer's. -/
def Instance.Noted (inst : Instance) : Prop :=
  ∀ c ∈ inst.sent, ∀ pre ∈ c.allowedIPs, pre.isValid = true → inst.owned.lookup pre = some c.key

theorem Disjoint.eq_of_key {cfg : Config} (h : Disjoint cfg) {p q : ManagedPeer}
    (hp : p ∈ wanted cfg) (hq : q ∈ wanted cfg) (hkey : p.key = q.key) : p = q :=
  List.inj_on_of_nodup_map h.keys hp hq hkey

theorem mem_wanted_of_lookup {cfg : Config} {k : String} {p : ManagedPeer}
    (h : (wantMap (wanted cfg)).lookup k = some p) : p ∈ wanted cfg ∧ p.key = k := by
  rcases GoMap.of_lookup_insertAll h with hmem | ⟨_, hempty⟩
  · obtain ⟨q, hq, heq⟩ := List.mem_map.mp hmem
    obtain ⟨rfl, rfl⟩ := Prod.mk.inj heq
    exact ⟨hq, rfl⟩
  · rw [AList.lookup_empty] at hempty
    cases hempty

theorem Disjoint.lookup_wantMap {cfg : Config} (h : Disjoint cfg) {p : ManagedPeer}
    (hp : p ∈ wanted cfg) : (wantMap (wanted cfg)).lookup p.key = some p := by
  refine GoMap.lookup_insertAll_of_agree ?_
    (Or.inl ⟨(p.key, p), List.mem_map.mpr ⟨p, hp, rfl⟩, rfl⟩)
  intro x hx hkey
  obtain ⟨q, hq, rfl⟩ := List.mem_map.mp hx
  exact h.eq_of_key hq hp hkey

/-- Nothing the configuration wants was another peer's in the instance. -/
theorem not_overlaps_of_not_needsReset {inst : Instance} {cfg : Config}
    (h : inst.needsReset cfg = false) {p : ManagedPeer} (hp : p ∈ wanted cfg) {pre o : Prefix}
    (hpre : pre ∈ p.prefixes) {k : String} (ho : inst.owned.lookup o = some k) (hk : k ≠ p.key) :
    o.overlaps pre = false := by
  by_contra hover
  simp only [Instance.needsReset, Bool.or_eq_false_iff, List.any_eq_false] at h
  refine h.2 p hp ?_
  simp only [List.any_eq_true, Bool.and_eq_true, bne_iff_ne]
  exact ⟨pre, hpre, (o, k), GoMap.mem_pairs.mpr ho, hk, by simpa using hover⟩

section Told

variable {inst : Instance} {cfg : Config} {news : List Configured}

theorem OwnersApart.told (hapart : inst.OwnersApart) (hnoted : inst.Noted) (hcfg : Disjoint cfg)
    (hreset : inst.needsReset cfg = false) (hnews : Written cfg news) :
    (inst.told news).OwnersApart := by
  -- what was written before, against what is written now
  have hold : ∀ c ∈ inst.sent, ∀ c' ∈ news, c.key ≠ c'.key →
      ∀ a ∈ c.allowedIPs, ∀ b ∈ c'.allowedIPs, a.overlaps b = false := by
    intro c hc c' hc' hne a ha b hb
    obtain ⟨p, hp, hwrites⟩ := hnews.sound c' hc'
    by_contra hover
    have hvalid := (Prefix.isValid_of_overlaps (Bool.not_eq_false _ ▸ hover)).1
    rw [hwrites.allowedIPs] at hb
    exact hover (not_overlaps_of_not_needsReset hreset hp hb (hnoted c hc a ha hvalid)
      (hwrites.key ▸ hne))
  intro c hc c' hc' hne a ha b hb
  rcases List.mem_append.mp hc with hc | hc <;> rcases List.mem_append.mp hc' with hc' | hc'
  · exact hapart c hc c' hc' hne a ha b hb
  · exact hold c hc c' hc' hne a ha b hb
  · rw [Prefix.overlaps_comm]
    exact hold c' hc' c hc hne.symm b hb a ha
  · obtain ⟨p, hp, hwrites⟩ := hnews.sound c hc
    obtain ⟨q, hq, hwrites'⟩ := hnews.sound c' hc'
    rw [hwrites.key, hwrites'.key] at hne
    rw [hwrites.allowedIPs] at ha
    rw [hwrites'.allowedIPs] at hb
    exact hcfg.prefixes p hp q hq hne a ha b hb

theorem Noted.told_noted (hnoted : inst.Noted) (hcfg : Disjoint cfg)
    (hreset : inst.needsReset cfg = false) (hnews : Written cfg news) :
    ((inst.told news).noted cfg).Noted := by
  intro c hc pre hpre hvalid
  -- whoever the prefix is noted for now is the peer it was written for
  have hagree : ∀ x ∈ (wantMap (wanted cfg)).pairs.flatMap fun o => o.2.prefixes.map fun pre =>
    (pre, o.1),
      x.1 = pre → x.2 = c.key := by
    intro x hx hxpre
    obtain ⟨⟨k, q⟩, hq, hx⟩ := List.mem_flatMap.mp hx
    obtain ⟨pre', hpre', rfl⟩ := List.mem_map.mp hx
    obtain rfl : pre' = pre := hxpre
    obtain ⟨hmem, rfl⟩ := mem_wanted_of_lookup (GoMap.mem_pairs.mp hq)
    by_contra hne
    have hself := Prefix.overlaps_self hvalid
    rcases List.mem_append.mp hc with hc | hc
    · have := not_overlaps_of_not_needsReset hreset hmem hpre' (hnoted c hc pre' hpre hvalid)
        (Ne.symm hne)
      simp [hself] at this
    · obtain ⟨p, hp, hwrites⟩ := hnews.sound c hc
      rw [hwrites.allowedIPs] at hpre
      have := hcfg.prefixes q hmem p hp (hwrites.key ▸ hne) pre' hpre' pre' hpre
      simp [hself] at this
  refine GoMap.lookup_insertAll_of_agree hagree ?_
  rcases List.mem_append.mp hc with hc | hc
  · exact Or.inr (hnoted c hc pre hpre hvalid)
  · obtain ⟨p, hp, hwrites⟩ := hnews.sound c hc
    rw [hwrites.allowedIPs] at hpre
    refine Or.inl ⟨(pre, p.key), List.mem_flatMap.mpr ⟨(p.key, p), ?_, ?_⟩, rfl⟩
    · exact GoMap.mem_pairs.mpr (hcfg.lookup_wantMap hp)
    · exact List.mem_map.mpr ⟨pre, hpre, rfl⟩

end Told

/-- What holds of the endpoint whenever its lock is free. -/
structure Inv (e : Endpoint) : Prop where
  down : e.inst = none → e.peers = ∅
  apart : ∀ inst ∈ e.instances, inst.OwnersApart
  noted : ∀ inst, e.inst = some inst → inst.Noted
  peers : ∃ cfg, Disjoint cfg ∧ Sub e.peers (wantMap (wanted cfg))
  written : ∀ inst, e.inst = some inst → ∀ k p, e.peers.lookup k = some p →
    ∃ c ∈ inst.sent, Writes p c

theorem Inv.parse {e : Endpoint} (h : Inv e) {inst : Instance} (hinst : e.inst = some inst) :
    ∀ k p, e.peers.lookup k = some p → (keyHex p.publicKey).isSome = true := by
  intro k p hp
  obtain ⟨c, _, hwrites⟩ := h.written inst hinst k p hp
  rw [hwrites.publicKey]
  rfl

theorem mem_instances {e : Endpoint} {inst : Instance} :
    inst ∈ e.instances ↔ inst ∈ e.retired ∨ e.inst = some inst := by
  simp [Endpoint.instances]

theorem forall_instances {e : Endpoint} {P : Instance → Prop} :
    (∀ inst ∈ e.instances, P inst) ↔
      (∀ inst ∈ e.retired, P inst) ∧ ∀ inst, e.inst = some inst → P inst := by
  simp only [mem_instances, or_imp, forall_and]

theorem Inv.of_down {e : Endpoint} (hinst : e.inst = none) (hpeers : e.peers = ∅)
    (hapart : ∀ inst ∈ e.retired, inst.OwnersApart) : Inv e where
  down _ := hpeers
  apart inst h := by
    rcases mem_instances.mp h with h | h
    · exact hapart inst h
    · simp [hinst] at h
  noted inst h := by simp [hinst] at h
  peers := by
    refine ⟨noConfig, ⟨?_, ?_⟩, ?_⟩
    · exact List.nodup_nil
    · exact fun p hp => absurd hp List.not_mem_nil
    · intro k p h
      simp [hpeers] at h
  written inst h := by simp [hinst] at h

theorem Inv.init : Inv .init := Inv.of_down rfl rfl fun _ h => absurd h List.not_mem_nil

theorem Inv.stopLocked {e : Endpoint} (h : Inv e) : Inv e.stopLocked :=
  Inv.of_down rfl rfl fun inst hinst => h.apart inst hinst

/-- An instance that can take the configuration takes it, and the invariant holds
whatever becomes of the writes. -/
theorem Inv.syncOrStop {e : Endpoint} {inst : Instance} {cfg : Config} {ans : Answers}
    (h : Inv e) (hinst : e.inst = some inst) (hcfg : Disjoint cfg)
    (hreset : inst.needsReset cfg = false) : Inv (e.syncOrStop inst cfg ans).endpoint := by
  have hpast : ∀ i ∈ e.retired, i.OwnersApart := fun i hi =>
    h.apart i (mem_instances.mpr (Or.inl hi))
  have hnow : inst.OwnersApart := h.apart inst (mem_instances.mpr (Or.inr hinst))
  rcases @syncOrStop_cases e inst cfg ans _ rfl hinst (h.parse hinst) with
    ⟨_, hinst', hpeers', hretired'⟩ | ⟨news, _, hnews, ⟨hinst', hpeers', hretired'⟩ |
      ⟨hinst', hretired', hsub⟩⟩
  · refine Inv.of_down hinst' hpeers' ?_
    rw [hretired']
    exact List.forall_mem_append.mpr ⟨hpast, List.forall_mem_singleton.mpr hnow⟩
  · have htold := OwnersApart.told hnow (h.noted inst hinst) hcfg hreset hnews
    refine Inv.of_down hinst' hpeers' ?_
    rw [hretired']
    exact List.forall_mem_append.mpr ⟨hpast, List.forall_mem_singleton.mpr htold⟩
  · have htold := OwnersApart.told hnow (h.noted inst hinst) hcfg hreset hnews
    refine ⟨by simp [hinst'], ?_, ?_, ⟨cfg, hcfg, hsub⟩, ?_⟩
    · intro i hi
      rcases mem_instances.mp hi with hi | hi
      · exact hpast i (hretired' ▸ hi)
      · obtain rfl := Option.some.inj (hinst'.symm.trans hi)
        exact htold
    · intro i hi
      obtain rfl := Option.some.inj (hinst'.symm.trans hi)
      exact Noted.told_noted (h.noted inst hinst) hcfg hreset hnews
    · intro i hi k p hp
      obtain rfl := Option.some.inj (hinst'.symm.trans hi)
      obtain ⟨c, hc, hwrites⟩ := hnews.complete p (mem_wanted_of_lookup (hsub k p hp)).1
      exact ⟨c, List.mem_append_right _ hc, hwrites⟩

/-! ### `Apply` -/

theorem needsReset_fresh (id : Nat) (cfg : Config) :
    (Instance.fresh id cfg).needsReset cfg = false := by
  simp [Instance.needsReset, Instance.fresh, GoMap.pairs]

/-- A started instance has nothing yet. -/
theorem Inv.started {e : Endpoint} {cfg : Config} (h : Inv e) (hnone : e.inst = none) {id : Nat} :
    Inv { e with nextID := id, inst := some (.fresh id cfg) } where
  down hdown := by simp at hdown
  apart inst hinst := by
    rcases mem_instances.mp hinst with hinst | hinst
    · exact h.apart inst (mem_instances.mpr (Or.inl hinst))
    · obtain rfl := Option.some.inj hinst
      exact fun c hc => absurd hc List.not_mem_nil
  noted inst hinst := by
    obtain rfl := Option.some.inj hinst
    exact fun c hc => absurd hc List.not_mem_nil
  peers := h.peers
  written inst _ k p hp := by
    rw [h.down hnone] at hp
    simp at hp

/-- What `Apply` can do: refuse the configuration, stay down because nothing starts, or
write the peers, to the instance there is or to a fresh one that replaces it. -/
theorem apply_cases {e : Endpoint} {cfg : Config} {ans : Answers} {applied : Applied}
    (happlied : applied = e.apply cfg ans) (h : Inv e) :
    (acceptable cfg = false ∧ applied.endpoint = e) ∨
    ((e.inst = none ∨ e.resetsFor cfg = true) ∧ applied.endpoint.inst = none ∧
      applied.endpoint.peers = ∅ ∧ applied.endpoint.retired = e.instances) ∨
    (acceptable cfg = true ∧ ∃ running inst, Inv running ∧ running.inst = some inst ∧
      inst.needsReset cfg = false ∧ rekeyed running.peers cfg = false ∧
      applied.endpoint = (running.syncOrStop inst cfg ans).endpoint ∧
      ((e.resetsFor cfg = false ∧ e.inst = some inst ∧ running.retired = e.retired ∧
          running.peers = e.peers) ∨
        ((e.inst = none ∨ e.resetsFor cfg = true) ∧ inst.sent = [] ∧
          running.retired = e.instances))) := by
  simp only [Endpoint.apply] at happlied
  by_cases hacc : acceptable cfg = true
  · simp only [hacc, Bool.not_true, Bool.false_eq_true, if_false] at happlied
    by_cases hkeep : e.inst.isSome = true ∧ e.resetsFor cfg = false
    · -- the running instance takes the configuration
      obtain ⟨hsome, hreset⟩ := hkeep
      obtain ⟨inst, hinst⟩ := Option.isSome_iff_exists.mp hsome
      have hbase : e.prepared cfg = { e with cfg := cfg } := by
        simp [Endpoint.prepared, hreset]
      simp only [hbase, hinst, Option.isSome_some, if_true] at happlied
      have hboth := hreset
      simp only [Endpoint.resetsFor, hinst, Option.any_some, Option.isSome_some, Bool.true_and,
        Bool.or_eq_false_iff] at hboth
      refine Or.inr (Or.inr ⟨hacc, { e with cfg := cfg }, inst, ?_, hinst, hboth.1, hboth.2,
        ?_, Or.inl ⟨hreset, hinst, rfl, rfl⟩⟩)
      · exact ⟨h.down, h.apart, h.noted, h.peers, h.written⟩
      · rw [happlied, hinst]
    · have hdown : e.inst = none ∨ e.resetsFor cfg = true := by
        cases hinst : e.inst with
        | none => exact Or.inl rfl
        | some inst => exact Or.inr (by simpa [hinst] using hkeep)
      -- what is there before the start, in either case
      obtain ⟨hnone, hempty, hretired⟩ : (e.prepared cfg).inst = none ∧
          (e.prepared cfg).peers = ∅ ∧ (e.prepared cfg).retired = e.instances := by
        by_cases hreset : e.resetsFor cfg = true
        · simp [Endpoint.prepared, hreset, Endpoint.stopLocked, Endpoint.instances]
        · have hinst : e.inst = none := hdown.resolve_right hreset
          simp [Endpoint.prepared, hreset, hinst, h.down hinst, Endpoint.instances]
      simp only [hnone, Option.isSome_none, Bool.false_eq_true, if_false, Endpoint.startLocked]
        at happlied
      by_cases hstart : ans.started = true
      · simp only [hstart, if_true] at happlied
        have hbase : Inv (e.prepared cfg) :=
          Inv.of_down hnone hempty fun inst hinst => h.apart inst (hretired ▸ hinst)
        refine Or.inr (Or.inr ⟨hacc, { e.prepared cfg with
          nextID := (e.prepared cfg).nextID + 1
          inst := some (.fresh ((e.prepared cfg).nextID + 1) cfg) }, _, hbase.started hnone, rfl,
          needsReset_fresh _ _, ?_, by rw [happlied],
          Or.inr ⟨hdown, rfl, hretired⟩⟩)
        simp [rekeyed, hempty]
      · simp only [hstart, Bool.false_eq_true, if_false] at happlied
        rw [happlied]
        exact Or.inr (Or.inl ⟨hdown, hnone, hempty, hretired⟩)
  · simp only [hacc, Bool.not_false, if_true] at happlied
    exact Or.inl ⟨by simpa using hacc, by rw [happlied]⟩

theorem Inv.apply {e : Endpoint} {cfg : Config} (h : Inv e) (hcfg : Disjoint cfg) (ans : Answers) :
    Inv (e.apply cfg ans).endpoint := by
  rcases @apply_cases e cfg ans _ rfl h with ⟨_, heq⟩ | ⟨_, hinst, hpeers, hretired⟩ |
    ⟨_, running, inst, hrunning, hinst, hreset, _, heq, _⟩
  · rw [heq]
    exact h
  · exact Inv.of_down hinst hpeers fun inst' hinst' => h.apart inst' (hretired ▸ hinst')
  · rw [heq]
    exact hrunning.syncOrStop hinst hcfg hreset

/-! ### One public key inside an instance

What the manager remembers of an instance are prefixes and their owners, not keys, so a peer that
was gone for a while is not compared with the key it had. -/

/-- A peer the manager does not have comes back under another key than the one it was
written with in this instance. -/
def Endpoint.returnsRekeyed (e : Endpoint) (cfg : Config) : Bool :=
  e.inst.any fun inst => (wanted cfg).any fun p => (e.peers.lookup p.key).isNone &&
    inst.sent.any fun c => c.key == p.key && keyHex p.publicKey != some c.publicKey

theorem oneKeyEach_told_iff {inst : Instance} {cfg : Config} {news : List Configured}
    (hcfg : Disjoint cfg) (hnews : Written cfg news) :
    (inst.told news).OneKeyEach ↔ inst.OneKeyEach ∧
      ∀ p ∈ wanted cfg, ∀ c ∈ inst.sent, c.key = p.key → keyHex p.publicKey = some c.publicKey := by
  constructor
  · intro h
    refine ⟨fun c hc c' hc' => h c (List.mem_append_left _ hc) c' (List.mem_append_left _ hc'), ?_⟩
    intro p hp c hc hkey
    obtain ⟨c', hc', hwrites⟩ := hnews.complete p hp
    rw [hwrites.publicKey]
    exact congrArg some (h c' (List.mem_append_right _ hc') c (List.mem_append_left _ hc)
      (hwrites.key.trans hkey.symm))
  · rintro ⟨hbefore, hcross⟩ c hc c' hc' hkey
    rcases List.mem_append.mp hc with hc | hc <;> rcases List.mem_append.mp hc' with hc' | hc'
    · exact hbefore c hc c' hc' hkey
    · obtain ⟨p, hp, hwrites⟩ := hnews.sound c' hc'
      have hpub := hcross p hp c hc (hkey.trans hwrites.key)
      exact (Option.some.inj (hwrites.publicKey.symm.trans hpub)).symm
    · obtain ⟨p, hp, hwrites⟩ := hnews.sound c hc
      have hpub := hcross p hp c' hc' (hkey.symm.trans hwrites.key)
      exact Option.some.inj (hwrites.publicKey.symm.trans hpub)
    · obtain ⟨p, hp, hwrites⟩ := hnews.sound c hc
      obtain ⟨q, hq, hwrites'⟩ := hnews.sound c' hc'
      obtain rfl := hcfg.eq_of_key hp hq (hwrites.key.symm.trans (hkey.trans hwrites'.key))
      exact Option.some.inj (hwrites.publicKey.symm.trans hwrites'.publicKey)

/-- A peer the manager has keeps its key, or there would have been a reset; so only one
that comes back can have another. -/
theorem cross_iff_returnsRekeyed {e : Endpoint} {inst : Instance} {cfg : Config} (h : Inv e)
    (hinst : e.inst = some inst) (hkeys : rekeyed e.peers cfg = false) (hone : inst.OneKeyEach) :
    (∀ p ∈ wanted cfg, ∀ c ∈ inst.sent, c.key = p.key → keyHex p.publicKey = some c.publicKey) ↔
      e.returnsRekeyed cfg = false := by
  simp only [Endpoint.returnsRekeyed, hinst, Option.any_some, List.any_eq_false, Bool.and_eq_true,
    List.any_eq_true, beq_iff_eq, bne_iff_ne, Option.isNone_iff_eq_none]
  constructor
  · rintro hcross p hp ⟨_, c, hc, hkey, hne⟩
    exact hne (hcross p hp c hc hkey)
  · intro hreturns p hp c hc hkey
    cases hold : e.peers.lookup p.key with
    | none =>
        by_contra hne
        exact hreturns p hp ⟨hold, c, hc, hkey, hne⟩
    | some old =>
        have hsame : old.publicKey = p.publicKey := by
          simp only [rekeyed, List.any_eq_false] at hkeys
          simpa [hold] using hkeys p hp
        obtain ⟨cfg', _, hsub⟩ := h.peers
        obtain ⟨c₀, hc₀, hwrites⟩ := h.written inst hinst p.key old hold
        have hkey₀ : c₀.key = c.key :=
          hwrites.key.trans ((mem_wanted_of_lookup (hsub p.key old hold)).2.trans hkey.symm)
        rw [← hsame, hwrites.publicKey, hone c₀ hc₀ c hc hkey₀]

/-- What a write of the peers leaves of "one key each", over all instances. -/
theorem oneKeyEach_syncOrStop_iff {e : Endpoint} {inst : Instance} {cfg : Config} {ans : Answers}
    (h : Inv e) (hinst : e.inst = some inst) (hcfg : Disjoint cfg)
    (hkeys : rekeyed e.peers cfg = false) :
    (∀ i ∈ (e.syncOrStop inst cfg ans).endpoint.instances, i.OneKeyEach) ↔
      (∀ i ∈ e.instances, i.OneKeyEach) ∧ (parses cfg = true → e.returnsRekeyed cfg = false) := by
  have hthen : (∀ i ∈ e.instances, i.OneKeyEach) ↔
      (∀ i ∈ e.retired, i.OneKeyEach) ∧ inst.OneKeyEach := by
    simp [forall_instances, hinst]
  rw [hthen]
  rcases @syncOrStop_cases e inst cfg ans _ rfl hinst (h.parse hinst) with
    ⟨hparses, hinst', _, hretired'⟩ | ⟨news, hparses, hnews, hend⟩
  · rw [forall_instances, hretired', List.forall_mem_append, List.forall_mem_singleton]
    simp [hinst', hparses]
  · have hafter : (∀ i ∈ (e.syncOrStop inst cfg ans).endpoint.instances, i.OneKeyEach) ↔
        (∀ i ∈ e.retired, i.OneKeyEach) ∧ (inst.told news).OneKeyEach := by
      rcases hend with ⟨hinst', _, hretired'⟩ | ⟨hinst', hretired', _⟩
      · rw [forall_instances, hretired', List.forall_mem_append, List.forall_mem_singleton]
        simp [hinst']
      · simp only [forall_instances, hinst', hretired', Option.some.injEq, forall_eq']
        rfl
    rw [hafter, oneKeyEach_told_iff hcfg hnews, and_assoc]
    simp only [hparses, forall_const]
    refine and_congr_right fun _ => and_congr_right fun hone => ?_
    exact cross_iff_returnsRekeyed h hinst hkeys hone

/-! ### Runs

A run applies disjoint configurations and closes the endpoint, in any order. -/

/-- What happens to the endpoint: a configuration is applied, or it is closed. -/
inductive Op where
  | apply (cfg : Config) (ans : Answers)
  | close

def step (e : Endpoint) : Op → Option Endpoint
  | .apply cfg ans => some (e.apply cfg ans).endpoint
  | .close => some e.stopLocked

def Op.Given : Op → Prop
  | .apply cfg _ => Disjoint cfg
  | .close => True

/-- No peer comes back under a new key into an instance that goes on. -/
def KeepsKeys (e : Endpoint) : Op → Prop
  | .apply cfg _ => acceptable cfg = true → e.resetsFor cfg = false → parses cfg = true →
      e.returnsRekeyed cfg = false
  | .close => True

instance (e : Endpoint) (op : Op) : Decidable (KeepsKeys e op) := by
  cases op
  · exact inferInstanceAs (Decidable (_ → _ → _ → _))
  · exact inferInstanceAs (Decidable True)

theorem Inv.step {e next : Endpoint} {op : Op} (h : Inv e) (hop : op.Given)
    (hstep : step e op = some next) : Inv next := by
  cases op with
  | apply cfg ans =>
      obtain rfl := Option.some.inj hstep
      exact h.apply hop ans
  | close =>
      obtain rfl := Option.some.inj hstep
      exact h.stopLocked

theorem oneKeyEach_step_iff {e next : Endpoint} {op : Op} (h : Inv e) (hop : op.Given)
    (hstep : WgManager.step e op = some next) :
    (∀ i ∈ next.instances, i.OneKeyEach) ↔ (∀ i ∈ e.instances, i.OneKeyEach) ∧ KeepsKeys e op := by
  cases op with
  | close =>
      obtain rfl := Option.some.inj hstep
      simp [Endpoint.instances, Endpoint.stopLocked, KeepsKeys]
  | apply cfg ans =>
      obtain rfl := Option.some.inj hstep
      -- without an instance there is nobody to come back to
      have hfree : e.inst = none ∨ e.resetsFor cfg = true → KeepsKeys e (.apply cfg ans) := by
        rintro (hnone | hreset) _ hkeep _
        · simp [Endpoint.returnsRekeyed, hnone]
        · simp [hkeep] at hreset
      rcases @apply_cases e cfg ans _ rfl h with ⟨hacc, heq⟩ | ⟨hdown, hinst, _, hretired⟩ |
        ⟨hacc, running, inst, hrunning, hinst, _, hkeys, heq, hbase⟩
      · simp [heq, KeepsKeys, hacc]
      · simp [forall_instances , hinst, hretired, hfree hdown]
      · rw [heq, oneKeyEach_syncOrStop_iff hrunning hinst hop hkeys]
        rcases hbase with ⟨hreset, hinst', hretired, hpeers⟩ | ⟨hdown, hsent, hretired⟩
        · simp [forall_instances, KeepsKeys, Endpoint.returnsRekeyed, hinst, hinst',
            hretired, hpeers,
            hacc, hreset]
        · have hnew : inst.OneKeyEach := by
            intro c hc
            simp [hsent] at hc
          rw [forall_instances, hretired]
          simp [Endpoint.returnsRekeyed, hinst, hsent, hnew, hfree hdown]

/-! ### The owner of a source address -/

/-- Two peers that own one address have prefixes that overlap. -/
theorem exists_overlap_of_owners {p q : ManagedPeer} {a : Addr} (hvalid : a.isValid = true)
    (hp : p.address = a ∨ ∃ n ∈ p.networks, n.contains a = true)
    (hq : q.address = a ∨ ∃ n ∈ q.networks, n.contains a = true) :
    ∃ x ∈ p.prefixes, ∃ y ∈ q.prefixes, x.overlaps y = true := by
  have hself : ∀ r : ManagedPeer, r.address = a → prefixFrom a a.bitLen ∈ r.prefixes := by
    rintro r rfl
    exact List.mem_cons_self
  have hnet : ∀ r : ManagedPeer, ∀ n ∈ r.networks, n.contains a = true →
      n.masked ∈ r.prefixes ∧ n.masked.contains a = true := by
    intro r n hn hcontains
    exact ⟨List.mem_cons_of_mem _ (List.mem_map.mpr ⟨n, hn, rfl⟩),
      Prefix.contains_masked.trans hcontains⟩
  have hzone : ∀ n : Prefix, n.contains a = true → a.zone = "" := by
    intro n hn
    rcases (Prefix.contains_iff.mp hn).2 with ⟨_, _, _, rfl, _⟩ | ⟨_, _, _, _, rfl, _⟩ <;> rfl
  rcases hp with hp | ⟨n, hn, hcontains⟩ <;> rcases hq with hq | ⟨n', hn', hcontains'⟩
  · exact ⟨_, hself p hp, _, hself q hq,
      Prefix.overlaps_self (prefixFrom_of_le hvalid (le_refl _)).2.1⟩
  · obtain ⟨hmem, hin⟩ := hnet q n' hn' hcontains'
    exact ⟨_, hself p hp, _, hmem, Prefix.overlaps_of_contains
      (Prefix.contains_prefixFrom_self hvalid (hzone n' hcontains')) hin⟩
  · obtain ⟨hmem, hin⟩ := hnet p n hn hcontains
    exact ⟨_, hmem, _, hself q hq, Prefix.overlaps_of_contains hin
      (Prefix.contains_prefixFrom_self hvalid (hzone n hcontains))⟩
  · obtain ⟨hmem, hin⟩ := hnet p n hn hcontains
    obtain ⟨hmem', hin'⟩ := hnet q n' hn' hcontains'
    exact ⟨_, hmem, _, hmem', Prefix.overlaps_of_contains hin hin'⟩

theorem Inv.length_candidates_le {e : Endpoint} (h : Inv e) {a : Addr} (ha : a.isValid = true)
    (now : Int) : (e.candidates a now).length ≤ 1 := by
  obtain ⟨cfg, hcfg, hsub⟩ := h.peers
  have hkeys : (e.peers.pairs.map Prod.snd).map ManagedPeer.key = e.peers.pairs.map Prod.fst := by
    rw [List.map_map]
    refine List.map_congr_left fun o ho => ?_
    exact (mem_wanted_of_lookup (hsub o.1 o.2 (GoMap.mem_pairs.mp ho))).2
  have hnodup : (e.candidates a now).Nodup :=
    (List.Nodup.of_map _ (hkeys ▸ GoMap.nodup_keys_pairs e.peers)).filter _
  have hsame : ∀ p ∈ e.candidates a now, ∀ q ∈ e.candidates a now, p = q := by
    intro p hp q hq
    simp only [Endpoint.candidates, List.mem_filter, List.mem_map, Prod.exists, exists_eq_right,
      GoMap.mem_pairs, Bool.and_eq_true, Bool.or_eq_true, beq_iff_eq, List.any_eq_true] at hp hq
    obtain ⟨⟨k, hk⟩, _, hown⟩ := hp
    obtain ⟨⟨k', hk'⟩, _, hown'⟩ := hq
    have hp := (mem_wanted_of_lookup (hsub k p hk)).1
    have hq := (mem_wanted_of_lookup (hsub k' q hk')).1
    refine hcfg.eq_of_key hp hq ?_
    by_contra hne
    obtain ⟨x, hx, y, hy, hover⟩ := exists_overlap_of_owners (Addr.isValid_unmap ha) hown hown'
    simp [hcfg.prefixes p hp q hq hne x hx y hy] at hover
  rcases hlist : e.candidates a now with _ | ⟨p, _ | ⟨q, rest⟩⟩
  · simp
  · simp
  · rw [hlist] at hnodup hsame
    have hpq := hsame p List.mem_cons_self q (List.mem_cons_of_mem _ List.mem_cons_self)
    simp [hpq] at hnodup

/-- **No address changes its owner inside a stack instance.**  In every run, whatever
fails, prefixes that were ever written for two peers of one instance do not overlap and
a source address has at most one candidate; and a peer was only ever written with one
public key in an instance exactly when none came back to it under a new one. -/
theorem owners_apart_iff {ops : List Op} {e : Endpoint} (hops : ∀ op ∈ ops, op.Given)
    (hrun : run step .init ops = some e) :
    ((∀ inst ∈ e.instances, inst.OwnersApart ∧ inst.OneKeyEach) ∧
        ∀ a now, a.isValid = true → (e.candidates a now).length ≤ 1) ↔
      RunMeets step KeepsKeys .init ops := by
  have hinv : Inv e := by
    refine @RunMeets.invariant _ _ step _ _ Inv (fun _ op => op.Given) ?_ _
      (RunMeets.of_forall fun op hop _ => hops op hop) Inv.init hrun
    exact fun _ _ _ hs hop hstep => hs.step hop hstep
  have hkeys : (∀ inst ∈ e.instances, inst.OneKeyEach) ↔ RunMeets step KeepsKeys .init ops := by
    rw [RunMeets.iff_of_step (fun _ _ _ hs hop hstep => Inv.step hs hop hstep)
      (fun _ _ _ hs hop hstep => oneKeyEach_step_iff hs hop hstep) hops Inv.init hrun]
    simp [Endpoint.instances, Endpoint.init]
  rw [← hkeys]
  constructor
  · exact fun h inst hinst => (h.1 inst hinst).2
  · intro hone
    exact ⟨fun inst hinst => ⟨hinv.apart inst hinst, hone inst hinst⟩,
      fun a now ha => hinv.length_candidates_le ha now⟩

section Rekeyed

def keyA : String := "AAAAAAAAAAAAAAAAAAAAAAAAAAAAAAAAAAAAAAAAAAA="

def keyB : String := "BAAAAAAAAAAAAAAAAAAAAAAAAAAAAAAAAAAAAAAAAAA="

def office (publicKey : String) (enabled : Bool) : Config where
  privateKey := keyA
  listenPort := 51820
  address := .v4 0x0ac80001#32
  tunnel := cidr4 10 200 0 0 24
  sites := [⟨1, "office", publicKey, keyA, .v4 0x0ac80002#32, [cidr4 192 168 10 0 24], "", 0,
    enabled⟩]
  devices := []
  forward := false
  guard := ⟨[], [], [], [], []⟩

def works : Answers := ⟨fun _ => .error "", fun _ => "", true, true, true, 0⟩

theorem disjoint_office (publicKey : String) (enabled : Bool) :
    Disjoint (office publicKey enabled) := by
  have hlen : (wanted (office publicKey enabled)).length ≤ 1 := by
    cases enabled
    · exact Nat.zero_le 1
    · simp only [wanted, office, List.filter, sitePeer, List.map, List.append_nil,
        List.insertionSort, List.foldr, List.orderedInsert, dropSameKey]
      split <;> simp
  match hlist : wanted (office publicKey enabled) with
  | [] => exact ⟨by simp [hlist], by simp [hlist]⟩
  | [p] => exact ⟨by simp [hlist], by simp [hlist]⟩
  | p :: q :: rest => simp [hlist] at hlen

/-- The site's key is replaced while it is there: the instance is replaced with it. -/
theorem owners_apart_rekeyed :
    (∀ op ∈ [Op.apply (office keyA true) works, .apply (office keyB true) works], op.Given) ∧
      ∃ e, run step .init [.apply (office keyA true) works, .apply (office keyB true) works] =
        some e ∧
        e.instances.length = 2 ∧
        (∀ inst ∈ e.instances, inst.OwnersApart ∧ inst.OneKeyEach) ∧
        ∀ a now, a.isValid = true → (e.candidates a now).length ≤ 1 := by
  have hops : ∀ op ∈ [Op.apply (office keyA true) works, .apply (office keyB true) works],
      op.Given := by
    simp [Op.Given, disjoint_office]
  refine ⟨hops, _, rfl, by decide, (owners_apart_iff hops rfl).mpr ?_⟩
  decide

/-- The site is disabled, and enabled again under another key: one instance is written
with both keys. -/
theorem returned_rekeyed :
    (∀ op ∈ [Op.apply (office keyA true) works, .apply (office keyA false) works,
        .apply (office keyB true) works], op.Given) ∧
      ∃ e, run step .init [.apply (office keyA true) works, .apply (office keyA false) works,
          .apply (office keyB true) works] = some e ∧
        ∃ inst, e.inst = some inst ∧ e.resets = 0 ∧ ¬ inst.OneKeyEach := by
  refine ⟨by simp [Op.Given, disjoint_office], _, rfl, _, rfl, by decide, ?_⟩
  decide

end Rekeyed

end Quicgate.WgManager
