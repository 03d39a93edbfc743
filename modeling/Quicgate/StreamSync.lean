import Quicgate.StreamSpecs

/-!
# Reconciling the stream listeners

`StreamManager.Sync` of `internal/engine/streams.go`: the running forwarders are made to match
the streams of the configuration.  A forwarder goes on running as long as the signature of its
specification is the one that is wanted, so what it decides is what is wanted only as far as
signatures tell.

`sync_converges` is about every run of calls over stored streams, with any pattern of listeners
that cannot be opened.  `chain_is_kept` is a certificate whose intermediate alone was replaced,
which the signature does not tell.
-/

namespace Quicgate.StreamSync

open Quicgate.Access (AccessList CompiledAccess)
open Quicgate.GoMaps Quicgate.Store Quicgate.StreamSpecs

/-! ### The manager

A call stops the forwarders that are outdated and brings up those that are wanted and not
running. -/

/-- A running listener; `spec` is what its goroutines were given. -/
structure Forwarder where
  key : String
  target : String
  sig : List Char
  spec : StreamSpec

inductive State where
  | running
  | failed
deriving DecidableEq, Repr

structure StreamStatus where
  streamID : Int
  key : String
  state : State
  error : String
deriving DecidableEq, Repr

structure StreamManager where
  active : GoMap String Forwarder
  status : GoMap String StreamStatus
  synced : List (Int × Stream)

def newStreamManager : StreamManager := ⟨∅, ∅, []⟩

/-- One call of `Sync`. `listen` is the error of opening the socket that a key names. -/
structure Call where
  streams : List (Int × Stream)
  loaders : Loaders
  listen : String → Option String

variable (env : Env)

def enabled (call : Call) : List (Int × Stream) := call.streams.filter fun o => o.2.enabled

/-- The specifications wanted, by key; of two streams with one listener the later one counts. -/
def desired (call : Call) : GoMap String StreamSpec :=
  GoMap.insertAll ∅ ((enabled call).flatMap fun o => streamSpecs env call.loaders o.1 o.2)

def startForwarder (call : Call) (key : String) (spec : StreamSpec) : Except String Forwarder :=
  if "tcp:".toList <+: key.toList ∨ "udp:".toList <+: key.toList then
    match call.listen key with
    | some why => .error why
    | none => .ok ⟨key, spec.target, spec.sig, spec⟩
  else .error ("bad key " ++ env.lib.quote key)

def outdated (wanted : GoMap String StreamSpec) (key : String) (f : Forwarder) : Bool :=
  match wanted.lookup key with
  | none => true
  | some spec => decide (spec.sig ≠ f.sig) || spec.failure.isSome

def bringUp (call : Call) (m : StreamManager) (wanted : String × StreamSpec) : StreamManager :=
  let (key, spec) := wanted
  let failed (why : String) : StreamManager :=
    { m with status := m.status.insert key ⟨spec.id, key, .failed, why⟩ }
  let status := m.status.insert key ⟨spec.id, key, .running, ""⟩
  match spec.failure with
  | some why => failed why
  | none =>
      if (m.active.lookup key).isSome then { m with status }
      else match startForwarder env call key spec with
        | .error why => failed why
        | .ok f => { m with active := m.active.insert key f, status }

def sync (m : StreamManager) (call : Call) : StreamManager :=
  let wanted := desired env call
  let stopped := (GoMap.pairs m.active).filter fun e => outdated wanted e.1 e.2
  let gone := (GoMap.pairs m.status).filter fun e => (wanted.lookup e.1).isNone
  (GoMap.pairs wanted).foldl (bringUp env call)
    { active := m.active.eraseAll (stopped.map Prod.fst)
      status := m.status.eraseAll (gone.map Prod.fst)
      synced := enabled call }

/-- The manager after a sequence of calls. -/
def reconciled (calls : List Call) : StreamManager := calls.foldl (sync env) newStreamManager

/-! ### What one call does to a key

The loops of `Sync` touch one key at a time, so a call is followed key by key. -/

variable {env} {call : Call} {m : StreamManager} {key : String}

def seen (key : String) (m : StreamManager) : Option Forwarder × Option StreamStatus :=
  (m.active.lookup key, m.status.lookup key)

def bringUpOne (env : Env) (call : Call) (wanted : String × StreamSpec)
    (before : Option Forwarder × Option StreamStatus) : Option Forwarder × Option StreamStatus :=
  let (key, spec) := wanted
  match spec.failure with
  | some why => (before.1, some ⟨spec.id, key, .failed, why⟩)
  | none =>
      if before.1.isSome then (before.1, some ⟨spec.id, key, .running, ""⟩)
      else match startForwarder env call key spec with
        | .error why => (before.1, some ⟨spec.id, key, .failed, why⟩)
        | .ok f => (some f, some ⟨spec.id, key, .running, ""⟩)

theorem seen_bringUp_self (m : StreamManager) (wanted : String × StreamSpec) (h : wanted.1 = key) :
    seen key (bringUp env call m wanted) = bringUpOne env call wanted (seen key m) := by
  obtain ⟨k, spec⟩ := wanted
  obtain rfl : k = key := h
  unfold bringUp bringUpOne seen
  cases hfail : spec.failure with
  | some why => simp [hfail]
  | none =>
      cases hactive : m.active.lookup k with
      | some f => simp [hfail, hactive]
      | none => cases hstart : startForwarder env call k spec <;> simp [hfail, hactive, hstart]

theorem seen_bringUp_other (m : StreamManager) (wanted : String × StreamSpec) (h : wanted.1 ≠ key) :
    seen key (bringUp env call m wanted) = seen key m := by
  obtain ⟨k, spec⟩ := wanted
  have hne : key ≠ k := fun heq => h heq.symm
  unfold bringUp seen
  cases hfail : spec.failure with
  | some why => simp [hfail, AList.lookup_insert_ne hne]
  | none =>
      cases hactive : m.active.lookup k with
      | some f => simp [hfail, hactive, AList.lookup_insert_ne hne]
      | none =>
          cases hstart : startForwarder env call k spec <;>
            simp [hfail, hactive, hstart, AList.lookup_insert_ne hne]

/-- What a key has before the last loop: its forwarder, if it is wanted as it is. -/
def kept (env : Env) (call : Call) (key : String) (m : StreamManager) : Option Forwarder :=
  (m.active.lookup key).filter fun f => !outdated (desired env call) key f

/-- **What one call does**: a key that is not wanted has nothing afterwards, any other what the
last loop makes of the forwarder that was kept. -/
theorem seen_sync (env : Env) (call : Call) (m : StreamManager) (key : String) :
    seen key (sync env m call) = ((desired env call).lookup key).elim (none, none) fun spec =>
      bringUpOne env call (key, spec) (kept env call key m, m.status.lookup key) := by
  unfold sync
  simp only
  cases hwanted : (desired env call).lookup key with
  | none =>
      rw [GoMap.foldl_seen_of_ne Prod.fst (seen key) (fun s b _ hne => seen_bringUp_other s b hne)]
      · have hout : ∀ f, outdated (desired env call) key f = true := by
          intro f
          simp [outdated, hwanted]
        rw [seen, GoMap.lookup_eraseAll_filter, GoMap.lookup_eraseAll_filter]
        simp [hwanted, hout]
      · rintro ⟨k, spec⟩ hmem rfl
        rw [GoMap.mem_pairs, hwanted] at hmem
        cases hmem
  | some spec =>
      rw [GoMap.foldl_seen_of_mem (k := key) Prod.fst (seen key) (bringUpOne env call)
        (GoMap.nodup_keys_pairs _) (fun s b _ heq => seen_bringUp_self s b heq)
        (fun s b _ hne => seen_bringUp_other s b hne) (GoMap.mem_pairs.mpr hwanted) rfl]
      rw [seen, GoMap.lookup_eraseAll_filter, GoMap.lookup_eraseAll_filter]
      simp only [hwanted, kept, Option.isNone_some, Bool.not_false]
      cases m.status.lookup key <;> rfl

theorem desired_eq_some {spec : StreamSpec} (h : (desired env call).lookup key = some spec) :
    ∃ o ∈ enabled call, ∃ place ∈ portKeys o.2, place.2 = key ∧
      portSpec (buildStreamSpec env call.loaders o.1 o.2) o.2 place.1 = spec := by
  rcases GoMap.of_lookup_insertAll h with hmem | ⟨-, hempty⟩
  · obtain ⟨o, ho, hmem⟩ := List.mem_flatMap.mp hmem
    obtain ⟨place, hplace, heq⟩ := List.mem_map.mp hmem
    obtain ⟨hkey, hspec⟩ := Prod.mk.inj heq
    exact ⟨o, ho, place, hplace, hkey, hspec⟩
  · simp at hempty

/-- What was kept is wanted as it is. -/
theorem kept_eq_some {spec : StreamSpec} (hwanted : (desired env call).lookup key = some spec)
    {f : Forwarder} (h : kept env call key m = some f) :
    m.active.lookup key = some f ∧ f.sig = spec.sig ∧ spec.failure = none := by
  obtain ⟨hactive, hout⟩ := Option.filter_eq_some_iff.mp h
  simp only [outdated, hwanted, Bool.not_or, Bool.and_eq_true, Bool.not_eq_true',
    decide_eq_false_iff_not, not_not, Option.isSome_eq_false_iff, Option.isNone_iff_eq_none] at hout
  exact ⟨hactive, hout.1.symm, hout.2⟩

/-- **What a key has after a call that wants it**: the forwarder that was kept or a new one, with a
status that says so, or none. -/
theorem sync_wanted {spec : StreamSpec} (hwanted : (desired env call).lookup key = some spec) :
    ∃ st, (sync env m call).status.lookup key = some st ∧
      ((st.state = .running ∧ spec.failure = none ∧
          ∃ f, (sync env m call).active.lookup key = some f ∧
            (m.active.lookup key = some f ∧ f.sig = spec.sig ∨
              f = ⟨key, spec.target, spec.sig, spec⟩)) ∨
        st.state = .failed ∧ (sync env m call).active.lookup key = none) := by
  have hseen := seen_sync env call m key
  rw [hwanted, Option.elim_some, bringUpOne, seen] at hseen
  simp only at hseen
  cases hkept : kept env call key m with
  | some f =>
      obtain ⟨hactive, hsig, hok⟩ := kept_eq_some hwanted hkept
      simp only [hok, hkept, Option.isSome_some, if_true, Prod.mk.injEq] at hseen
      exact ⟨_, hseen.2, Or.inl ⟨rfl, hok, f, hseen.1, Or.inl ⟨hactive, hsig⟩⟩⟩
  | none =>
      cases hfail : spec.failure with
      | some why =>
          simp only [hfail, hkept, Prod.mk.injEq] at hseen
          exact ⟨_, hseen.2, Or.inr ⟨rfl, hseen.1⟩⟩
      | none =>
          simp only [hfail, hkept, Option.isSome_none, Bool.false_eq_true, if_false] at hseen
          unfold startForwarder at hseen
          split_ifs at hseen
          · cases hlisten : call.listen key with
            | some why =>
                simp only [hlisten, Prod.mk.injEq] at hseen
                exact ⟨_, hseen.2, Or.inr ⟨rfl, hseen.1⟩⟩
            | none =>
                simp only [hlisten, Prod.mk.injEq] at hseen
                exact ⟨_, hseen.2, Or.inl ⟨rfl, rfl, _, hseen.1, Or.inr rfl⟩⟩
          · simp only [Prod.mk.injEq] at hseen
            exact ⟨_, hseen.2, Or.inr ⟨rfl, hseen.1⟩⟩

/-- A key that is not wanted has nothing after the call. -/
theorem sync_unwanted (hwanted : (desired env call).lookup key = none) :
    (sync env m call).active.lookup key = none ∧ (sync env m call).status.lookup key = none := by
  have hseen := seen_sync env call m key
  rw [hwanted, Option.elim_none, seen] at hseen
  exact Prod.mk.inj hseen

/-- A forwarder that runs after a call is wanted: it was kept, or it was built from what is
wanted now. -/
theorem active_sync {f : Forwarder} (h : (sync env m call).active.lookup key = some f) :
    ∃ spec, (desired env call).lookup key = some spec ∧ spec.failure = none ∧ f.sig = spec.sig ∧
      (m.active.lookup key = some f ∨ f.spec = spec) := by
  cases hwanted : (desired env call).lookup key with
  | none =>
      rw [(sync_unwanted hwanted).1] at h
      cases h
  | some spec =>
      obtain ⟨st, -, ⟨-, hok, f', hf', hbuilt⟩ | ⟨-, hnone⟩⟩ := sync_wanted (m := m) hwanted
      · obtain rfl := Option.some.inj (h.symm.trans hf')
        rcases hbuilt with ⟨hactive, hsig⟩ | rfl
        · exact ⟨spec, rfl, hok, hsig, Or.inl hactive⟩
        · exact ⟨spec, rfl, hok, rfl, Or.inr rfl⟩
      · rw [hnone] at h
        cases h

/-- The status of a key says whether its forwarder runs. -/
theorem status_sync (env : Env) (call : Call) (m : StreamManager) (key : String) :
    ((sync env m call).status.lookup key).isSome = ((desired env call).lookup key).isSome ∧
      ∀ st, (sync env m call).status.lookup key = some st →
        (st.state = .running ↔ ((sync env m call).active.lookup key).isSome = true) := by
  cases hwanted : (desired env call).lookup key with
  | none =>
      obtain ⟨hactive, hstatus⟩ := sync_unwanted (m := m) hwanted
      simp [hactive, hstatus]
  | some spec =>
      obtain ⟨st, hst, ⟨hrunning, -, f, hf, -⟩ | ⟨hfailed, hnone⟩⟩ := sync_wanted (m := m) hwanted
      · simp [hst, hf, hrunning]
      · simp [hst, hnone, hfailed]

/-! ### Runs

A forwarder that has been running for a while was built by some earlier call, whose
specification had the same signature. -/

/-- The streams of a call are stored ones, and so are the access lists. -/
structure Call.Stored (env : Env) (call : Call) : Prop where
  streams : ∀ o ∈ call.streams, StoredStream env o.2
  lists : call.loaders.FromStore env

/-- Whenever the two calls want one listener, the signatures tell its two specifications apart. -/
def Tells (env : Env) (earlier call : Call) : Prop :=
  ∀ o ∈ enabled earlier, ∀ o' ∈ enabled call,
    (∃ place ∈ portKeys o.2, ∃ place' ∈ portKeys o'.2, place.2 = place'.2) →
      ToldApart env earlier.loaders call.loaders o.2 o'.2

/-- The running forwarders are what the call wants. -/
structure Converged (env : Env) (call : Call) (m : StreamManager) : Prop where
  active : ∀ key f, m.active.lookup key = some f →
    ∃ spec, (desired env call).lookup key = some spec ∧
    spec.failure = none ∧ SameDecisions f.spec spec
  status : ∀ key, (m.status.lookup key).isSome = ((desired env call).lookup key).isSome
  running : ∀ key st, m.status.lookup key = some st →
    (st.state = .running ↔ (m.active.lookup key).isSome = true)

def Built (env : Env) (calls : List Call) (m : StreamManager) : Prop :=
  ∀ key f, m.active.lookup key = some f → f.sig = f.spec.sig ∧ f.spec.failure = none ∧
    ∃ call ∈ calls, (desired env call).lookup key = some f.spec

theorem Built.sync {calls : List Call} (h : Built env calls m) (call : Call) :
    Built env (calls ++ [call]) (sync env m call) := by
  intro key f hf
  obtain ⟨spec, hwanted, hok, hsig, hactive | rfl⟩ := active_sync hf
  · obtain ⟨hsame, hfailure, earlier, hmem, hbuilt⟩ := h key f hactive
    exact ⟨hsame, hfailure, earlier, List.mem_append_left _ hmem, hbuilt⟩
  · exact ⟨hsig, hok, call, by simp, hwanted⟩

theorem built_reconciled (env : Env) (calls : List Call) :
    Built env calls (reconciled env calls) := by
  induction calls using List.reverseRecOn with
  | nil =>
      intro key f hf
      simp [reconciled, newStreamManager] at hf
  | append_singleton calls call ih =>
      rw [reconciled, List.foldl_append]
      exact ih.sync call

theorem SameDecisions.refl (sp : StreamSpec) : SameDecisions sp sp := by
  constructor <;> intros <;> rfl

/-- **Reconciliation converges.** After every call of a run over stored streams the running
forwarders are those that are wanted and could be started, the statuses say which, and each decides
as what is wanted now, provided the signatures tell the last call from those before. -/
theorem sync_converges (env : Env) (calls : List Call) (call : Call)
    (hstored : ∀ c ∈ calls ++ [call], c.Stored env) (htells : ∀ c ∈ calls, Tells env c call) :
    Converged env call (reconciled env (calls ++ [call])) := by
  have hstep : reconciled env (calls ++ [call]) = sync env (reconciled env calls) call := by
    rw [reconciled, List.foldl_append]
    rfl
  have hlast := hstored call (by simp)
  rw [hstep]
  refine ⟨?_, fun key => (status_sync env call _ key).1, fun key => (status_sync env call _ key).2⟩
  intro key f hf
  obtain ⟨spec, hwanted, hok, hsig, hactive | rfl⟩ := active_sync hf
  · refine ⟨spec, hwanted, hok, ?_⟩
    obtain ⟨hbuilt, hfailure, earlier, hmem, hthen⟩ := built_reconciled env calls key f hactive
    have hearlier := hstored earlier (List.mem_append_left _ hmem)
    obtain ⟨o, ho, place, hplace, hkey, hspec⟩ := desired_eq_some hthen
    obtain ⟨o', ho', place', hplace', hkey', hspec'⟩ := desired_eq_some hwanted
    have htold :=
      htells earlier hmem o ho o' ho' ⟨place, hplace, place', hplace', hkey.trans hkey'.symm⟩
    rw [← hspec] at hfailure hbuilt ⊢
    rw [← hspec'] at hok hsig ⊢
    apply sameDecisions_of_sig (hearlier.streams o (List.mem_of_mem_filter ho))
      (hlast.streams o' (List.mem_of_mem_filter ho')) hearlier.lists hlast.lists htold hfailure hok
    exact hbuilt.symm.trans hsig
  · exact ⟨f.spec, hwanted, hok, SameDecisions.refl _⟩

/-! ### A certificate that is replaced

The signature has a digest of the first certificate. -/

def sum256 (cert : List UInt8) : List UInt8 :=
  if cert = [0x30, 3, 2, 1, 5] then
    [0x41, 0x7c, 0x77, 0x63, 0xc4, 0xe3, 0x20, 0xa6, 0xb7, 0x47, 0xb3, 0xcb, 0x0c, 0x6d, 0x22, 0xf9,
      0x37, 0x41, 0xb2, 0x9a, 0x32, 0xb4, 0x85, 0x94, 0xb8, 0xeb, 0x4c, 0x14, 0x4f, 0xe6,
        0xd7, 0x29]
  else
    [0xec, 0xed, 0xa6, 0x10, 0x45, 0xdb, 0x14, 0x5d, 0x20, 0x9d, 0xeb, 0xf0, 0xd2, 0x45, 0xe4, 0x4b,
      0x5b, 0x1c, 0xc5, 0x2e, 0x3c, 0x04, 0x26, 0x6a, 0xa2, 0xa4, 0x86, 0xfd, 0xb6, 0xa2,
        0xb2, 0x85]

def plainEnv : Env := ⟨asciiLib, sum256⟩

def officeInput : AccessListInput :=
  ⟨"office", "", false, [⟨"allow", "192.168.0.0/16", "", "", [], none⟩], []⟩

def office : AccessList :=
  ⟨"office", "any", false, [⟨"allow", "192.168.0.0/16", "", "", [], none⟩], []⟩

/-- A port that terminates TLS for the office, with a certificate and its intermediate. -/
def tlsStream : Stream :=
  { Stream.zero with
    listenPort := 8443, protocol := "tcp", forwardHost := "backend", forwardPort := 80
    accessListID := some 3, terminateTLS := true, certID := some 1, enabled := true }

def compiledOffice : CompiledAccess :=
  Access.reloadAccess asciiLib.caseTable office none false (Access.knows []) fun _ _ => false

def served (chain : Chain) : Call where
  streams := [(1, tlsStream)]
  loaders := ⟨some fun _ => some chain, some fun _ => some compiledOffice⟩
  listen _ := none

theorem stored_served (chain : Chain) : (served chain).Stored plainEnv where
  streams := by
    intro o ho
    obtain rfl := List.mem_singleton.mp ho
    exact ⟨[], [], 1, tlsStream, by rfl⟩
  lists := by
    intro resolve id c hresolve hc
    obtain rfl := Option.some.inj hresolve
    obtain rfl := Option.some.inj hc
    exact ⟨office, none, false, Access.knows [], fun _ _ => false,
      ⟨fun _ => 0, [], officeInput, by rfl⟩, rfl⟩

/-- The certificate is renewed: the listener is built anew and serves the new one. -/
theorem sync_converges_renewed :
    Converged plainEnv (served [[0x30, 3, 2, 1, 7], [0x30]])
        (reconciled plainEnv
          [served [[0x30, 3, 2, 1, 5], [0x30]], served [[0x30, 3, 2, 1, 7], [0x30]]]) ∧
      ((reconciled plainEnv [served [[0x30, 3, 2, 1, 5], [0x30]],
        served [[0x30, 3, 2, 1, 7], [0x30]]]).active.lookup "tcp:8443").map (·.spec.tcp.tlsCert) =
          some (some [[0x30, 3, 2, 1, 7], [0x30]]) := by
  constructor
  · apply sync_converges plainEnv [served [[0x30, 3, 2, 1, 5], [0x30]]]
    · intro c hc
      simp only [List.singleton_append, List.mem_cons, List.not_mem_nil, or_false] at hc
      rcases hc with rfl | rfl <;> exact stored_served _
    · intro c hc o ho o' ho' _
      obtain rfl := List.mem_singleton.mp hc
      obtain rfl := List.mem_singleton.mp ho
      obtain rfl := List.mem_singleton.mp ho'
      refine ⟨fun _ => Or.inl rfl, ?_⟩
      intro _ chain chain' hchain hchain' hdigest
      obtain rfl := Option.some.inj hchain
      obtain rfl := Option.some.inj hchain'
      exact absurd hdigest (by decide)
  · decide +kernel

/-- Only the intermediate is replaced: the listener goes on serving the old one. -/
theorem chain_is_kept :
    (∀ c ∈ [served [[0x30, 3, 2, 1, 5], [0x30, 1]], served [[0x30, 3, 2, 1, 5], [0x30, 2]]],
      c.Stored plainEnv) ∧
    ¬ Converged plainEnv (served [[0x30, 3, 2, 1, 5], [0x30, 2]])
      (reconciled plainEnv
        [served [[0x30, 3, 2, 1, 5], [0x30, 1]], served [[0x30, 3, 2, 1, 5], [0x30, 2]]]) := by
  constructor
  · intro c hc
    simp only [List.mem_cons, List.not_mem_nil, or_false] at hc
    rcases hc with rfl | rfl <;> exact stored_served _
  · intro h
    have hserves : ((reconciled plainEnv [served [[0x30, 3, 2, 1, 5], [0x30, 1]],
        served [[0x30, 3, 2, 1, 5], [0x30, 2]]]).active.lookup "tcp:8443").map
          (·.spec.tcp.tlsCert) =
          some (some [[0x30, 3, 2, 1, 5], [0x30, 1]]) := by decide +kernel
    have hwanted :
      ((desired plainEnv (served [[0x30, 3, 2, 1, 5], [0x30, 2]])).lookup "tcp:8443").map
        (·.tcp.tlsCert) = some (some [[0x30, 3, 2, 1, 5], [0x30, 2]]) := by decide +kernel
    obtain ⟨f, hf, hcert⟩ := Option.map_eq_some_iff.mp hserves
    obtain ⟨spec, hspec, -, hsame⟩ := h.active _ f hf
    rw [hspec, Option.map_some, ← hsame.tlsCert, hcert] at hwanted
    exact absurd hwanted (by decide)

end Quicgate.StreamSync
