import Quicgate.SqlTable

/-!
# Documents written entry by entry

A document is written to a table one entry after the other.  An entry is matched by
its key to a row that was listed before the first entry, or that an earlier entry
added, and takes its place; an entry that matches nothing becomes a new row.  A row
takes up a place of its own: two rows must keep apart, and rows of one key do not.

`Upsert` is one kind of entry.  `replay_iff` says when a document that was written
once can be written again to what it left, in terms of its entries alone: each entry
must pass the guard of the last entry of its key, the first entry of a key what a
first write asks, and no entry may stand in the way of a key that comes up later.

`ImportKinds` instantiates it for the three kinds of entries of an import, and
`ImportAgain` reads off which documents can be imported again.
-/

namespace Quicgate.Sql

variable {ρ α β σ κ : Type} [DecidableEq κ]

/-- What the entries of one kind are and how they are written. `Next` is a write, apart
from the room it takes: the surroundings, the number of the entry, the row that is
overwritten and the row that is put in its place. -/
structure Upsert (ρ α β σ κ : Type) where
  site : α → σ
  asks : β → σ
  key : σ → κ
  entryKey : β → κ
  Apart : σ → σ → Prop
  Good : σ → Prop
  /-- The listed row and the entry that overwrites it. -/
  Guard : α → β → Prop
  Next : ρ → Nat → Option α → β → α → Prop
  symm : ∀ a b, Apart a b → Apart b a
  next_site : ∀ {r n prev e v}, Next r n prev e v →
    site v = asks e ∧ Good (asks e) ∧ key (asks e) = entryKey e
  key_apart : ∀ {a b}, Good a → Good b → key a = key b → ¬ Apart a b

/-- The loop over the entries: the table, the rows listed by key, and the counts. -/
structure Loop (κ α : Type) where
  table : Table α
  stored : List (κ × Int × α)
  created : Nat
  updated : Nat

def lastUnder (key : β → κ) (k : κ) : List β → Option β
  | [] => none
  | e :: rest => (lastUnder key k rest).or (if key e = k then some e else none)

theorem lastUnder_of_not_mem {key : β → κ} {k : κ} {entries : List β}
    (h : ∀ e ∈ entries, key e ≠ k) : lastUnder key k entries = none := by
  induction entries with
  | nil => rfl
  | cons e rest ih =>
      rw [List.forall_mem_cons] at h
      simp [lastUnder, ih h.2, h.1]

theorem of_lastUnder {key : β → κ} {k : κ} {entries : List β} {last : β}
    (h : lastUnder key k entries = some last) : last ∈ entries ∧ key last = k := by
  induction entries with
  | nil => simp [lastUnder] at h
  | cons e rest ih =>
      cases hrest : lastUnder key k rest with
      | none =>
          simp only [lastUnder, hrest, Option.none_or, Option.ite_none_right_eq_some,
            Option.some.injEq] at h
          obtain ⟨hkey, rfl⟩ := h
          exact ⟨List.mem_cons_self, hkey⟩
      | some found =>
          simp only [lastUnder, hrest, Option.some_or, Option.some.injEq] at h
          obtain ⟨hmem, hkey⟩ := ih (h ▸ hrest)
          exact ⟨List.mem_cons_of_mem _ hmem, hkey⟩

theorem lastUnder_map {γ : Type} (key : β → κ) (f : γ → β) (k : κ) (entries : List γ) :
    lastUnder key k (entries.map f) = (lastUnder (fun e => key (f e)) k entries).map f := by
  induction entries with
  | nil => rfl
  | cons e rest ih =>
      simp only [List.map_cons, lastUnder, ih]
      cases lastUnder (fun e => key (f e)) k rest with
      | some last => rfl
      | none =>
          by_cases hkey : key (f e) = k
          · simp [hkey]
          · simp [hkey]

theorem lastUnder_append (key : β → κ) (k : κ) (before rest : List β) :
    lastUnder key k (before ++ rest) = (lastUnder key k rest).or (lastUnder key k before) := by
  induction before with
  | nil => simp [lastUnder]
  | cons e before ih =>
      rw [List.cons_append, lastUnder, ih, lastUnder, Option.or_assoc]

/-- Something that holds of every entry, of the keys before it, the last entry of its
key and the entries after it. -/
def EachEntry (key : β → κ) (P : List κ → β → β → List β → Prop) : List κ → List β → Prop
  | _, [] => True
  | seen, e :: rest =>
      (∀ last ∈ lastUnder key (key e) (e :: rest), P seen e last rest) ∧
        EachEntry key P (key e :: seen) rest

instance (key : β → κ) (P : List κ → β → β → List β → Prop)
    [∀ seen e last rest, Decidable (P seen e last rest)] :
    ∀ seen entries, Decidable (EachEntry key P seen entries)
  | _, [] => isTrue trivial
  | seen, e :: rest =>
      have := instDecidableEachEntry key P (key e :: seen) rest
      inferInstanceAs (Decidable (
        (∀ last ∈ lastUnder key (key e) (e :: rest), P seen e last rest) ∧
          EachEntry key P (key e :: seen) rest))

theorem EachEntry.congr {key : β → κ} {P Q : List κ → β → β → List β → Prop} {entries : List β}
    (h : ∀ seen before e last rest, entries = before ++ e :: rest →
      (P seen e last rest ↔ Q seen e last rest))
    (seen : List κ) : EachEntry key P seen entries ↔ EachEntry key Q seen entries := by
  induction entries generalizing seen with
  | nil => exact Iff.rfl
  | cons e rest ih =>
      have hrest := ih fun seen before d last after hd =>
        h seen (e :: before) d last after (congrArg (e :: ·) hd)
      have hfirst := fun last => h seen [] e last rest rfl
      simp only [EachEntry, hrest, hfirst]

theorem eachEntry_map {γ : Type} {key : β → κ} {P : List κ → β → β → List β → Prop} (f : γ → β)
    (seen : List κ) (entries : List γ) :
    EachEntry key P seen (entries.map f) ↔
      EachEntry (fun e => key (f e))
        (fun seen e last rest => P seen (f e) (f last) (rest.map f)) seen
        entries := by
  induction entries generalizing seen with
  | nil => exact Iff.rfl
  | cons e rest ih =>
      have hlast := lastUnder_map key f (key (f e)) (e :: rest)
      simp only [List.map_cons] at hlast
      simp only [EachEntry, List.map_cons, ih, hlast]
      refine and_congr ?_ Iff.rfl
      cases lastUnder (fun e => key (f e)) (key (f e)) (e :: rest) with
      | none => simp
      | some last => simp

namespace Upsert

variable (U : Upsert ρ α β σ κ)

/-- The row has room beside the others. -/
def Room (t : Table α) (id : Int) (v : α) : Prop :=
  ∀ id' w, id' ≠ id → t.lookup id' = some w → U.Apart (U.site v) (U.site w)

/-! ### Turns

A turn finds the row of its key, or adds one; the row it writes must keep apart from every
other. -/

/-- The turn of entry `n`. -/
inductive Turn (r : ρ) (n : Nat) (s : Loop κ α) (e : β) : Loop κ α → Prop
  | update {id : Int} {cur v : α} (hfound : s.stored.lookup (U.entryKey e) = some (id, cur))
      (hguard : U.Guard cur e) (hnext : U.Next r n (s.table.lookup id) e v)
      (hroom : U.Room s.table id v) (hhas : s.table.has id = true) :
      Turn r n s e ⟨s.table.update id v, s.stored, s.created, s.updated + 1⟩
  | create {v : α} (hnone : s.stored.lookup (U.entryKey e) = none) (hnext : U.Next r n none e v)
      (hroom : U.Room s.table (s.table.seq + 1) v) :
      Turn r n s e ⟨s.table.insert v, (U.key (U.site v), s.table.seq + 1, v) :: s.stored,
        s.created + 1, s.updated⟩

/-- The turns of a list of entries, numbered from `n`. -/
def Runs (r : ρ) : Nat → Loop κ α → List β → Loop κ α → Prop
  | _, s, [], t => s = t
  | n, s, e :: rest, t => ∃ m, U.Turn r n s e m ∧ Runs r (n + 1) m rest t

/-- The rows listed by key: a row that is listed is in the table, and a row of the
table is listed, or another of its key is. -/
structure Listing (stored : List (κ × Int × α)) (t : Table α) : Prop where
  sound : ∀ k id cur, stored.lookup k = some (id, cur) →
    t.lookup id = some cur ∧ U.key (U.site cur) = k
  complete : ∀ id w, t.lookup id = some w → ∃ found, stored.lookup (U.key (U.site w)) = some found

variable {U} {r r' : ρ} {n : Nat} {s t : Loop κ α} {e : β}

omit [DecidableEq κ] in
/-- A row that is not in the table yet has the room of any other such row. -/
theorem room_of_absent {t : Table α} {id id' : Int} {v : α} (h : t.lookup id = none)
    (h' : t.lookup id' = none) : U.Room t id v ↔ U.Room t id' v := by
  have hall : ∀ {key}, t.lookup key = none →
      (U.Room t key v ↔ ∀ id w, t.lookup id = some w → U.Apart (U.site v) (U.site w)) := by
    intro key hkey
    constructor
    · intro hroom id w hrow
      refine hroom id w ?_ hrow
      rintro rfl
      rw [hkey] at hrow
      cases hrow
    · exact fun hall id w _ hrow => hall id w hrow
  rw [hall h, hall h']

/-! ### What a turn does

`Wrote` is what is common to the two kinds of turns. -/

/-- The row that is written, and what is listed after it. -/
structure Wrote (U : Upsert ρ α β σ κ) (r : ρ) (n : Nat) (s : Loop κ α) (e : β) (t : Loop κ α)
    (id : Int) (v : α) : Prop where
  next : U.Next r n (s.table.lookup id) e v
  room : U.Room s.table id v
  table : ∀ id', t.table.lookup id' = if id' = id then some v else s.table.lookup id'
  listed : ∃ cur, t.stored.lookup (U.entryKey e) = some (id, cur)
  kept : ∀ k found, s.stored.lookup k = some found → t.stored.lookup k = some found
  only : ∀ k found, t.stored.lookup k = some found → k ≠ U.entryKey e →
    s.stored.lookup k = some found
  /-- The key was listed, or its row is new. -/
  known : (∃ cur, s.stored.lookup (U.entryKey e) = some (id, cur)) ∨ s.table.lookup id = none

theorem Turn.wrote (h : U.Turn r n s e t) : ∃ id v, Wrote U r n s e t id v := by
  cases h with
  | @update id cur v hfound hguard hnext hroom hhas =>
      refine ⟨id, v, hnext, hroom, fun id' => Table.lookup_update hhas, ⟨cur, hfound⟩, ?_, ?_, ?_⟩
      · exact fun k found h => h
      · exact fun k found h _ => h
      · exact Or.inl ⟨cur, hfound⟩
  | @create v hnone hnext hroom =>
      obtain ⟨hsite, -, hkey⟩ := U.next_site hnext
      have hentry : U.key (U.site v) = U.entryKey e := by rw [hsite, hkey]
      refine ⟨s.table.seq + 1, v, ?_, hroom, fun id' => Table.lookup_insert, ⟨v, ?_⟩, ?_, ?_, ?_⟩
      · rw [Table.lookup_next]
        exact hnext
      · simp [hentry, List.lookup_cons_self]
      · intro k found hk
        have hne : k ≠ U.entryKey e := by
          rintro rfl
          rw [hnone] at hk
          cases hk
        have hbeq : (k == U.key (U.site v)) = false := by simpa [hentry] using hne
        simp only [List.lookup_cons, hbeq]
        exact hk
      · intro k found hk hne
        have hbeq : (k == U.key (U.site v)) = false := by simpa [hentry] using hne
        simpa only [List.lookup_cons, hbeq] using hk
      · exact Or.inr Table.lookup_next

/-! ### What the turns keep

The induction is on the entries; `seen` are the keys of those before. -/

/-- Of the keys in `seen` an entry was written: its row is listed, and keeps apart from
every other row. -/
structure Inv (U : Upsert ρ α β σ κ) (seen : List κ) (s : Loop κ α) : Prop where
  good : ∀ id w, s.table.lookup id = some w → U.Good (U.site w)
  matched : ∀ k id cur, s.stored.lookup k = some (id, cur) →
    ∃ w, s.table.lookup id = some w ∧ U.key (U.site w) = k
  apart : ∀ k ∈ seen, ∀ id cur v, s.stored.lookup k = some (id, cur) →
    s.table.lookup id = some v → U.Room s.table id v

theorem Listing.inv {stored : List (κ × Int × α)} {table : Table α} (hlist : U.Listing stored table)
    (hgood : ∀ id w, table.lookup id = some w → U.Good (U.site w)) (created updated : Nat) :
    U.Inv [] ⟨table, stored, created, updated⟩ where
  good := hgood
  matched := by
    intro k id cur hk
    obtain ⟨hrow, hkey⟩ := hlist.sound k id cur hk
    exact ⟨cur, hrow, hkey⟩
  apart := by simp

theorem Inv.turn {seen : List κ} (hinv : U.Inv seen s) {id : Int} {v : α}
    (h : Wrote U r n s e t id v) : U.Inv (U.entryKey e :: seen) t := by
  obtain ⟨hsite, hgood, hkey⟩ := U.next_site h.next
  have hentry : U.key (U.site v) = U.entryKey e := by rw [hsite, hkey]
  have hself : t.table.lookup id = some v := by rw [h.table, if_pos rfl]
  have hothers : ∀ {id'}, id' ≠ id → t.table.lookup id' = s.table.lookup id' := by
    intro id' hne
    rw [h.table, if_neg hne]
  -- a row that was listed under another key is not the one that was written
  have hother : ∀ {k id' cur}, s.stored.lookup k = some (id', cur) → k ≠ U.entryKey e →
    id' ≠ id := by
    rintro k id' cur hk hne rfl
    obtain ⟨w, hw, hwkey⟩ := hinv.matched k id' cur hk
    rcases h.known with ⟨cur', hcur⟩ | hnew
    · obtain ⟨w', hw', hwkey'⟩ := hinv.matched _ id' cur' hcur
      obtain rfl := Option.some.inj (hw.symm.trans hw')
      exact hne (hwkey.symm.trans hwkey')
    · rw [hnew] at hw
      cases hw
  refine ⟨?_, ?_, ?_⟩
  · intro id' w hw
    by_cases hid : id' = id
    · subst hid
      obtain rfl := Option.some.inj (hself.symm.trans hw)
      rw [hsite]
      exact hgood
    · exact hinv.good id' w ((hothers hid).symm.trans hw)
  · intro k id' cur hk
    by_cases hke : k = U.entryKey e
    · obtain ⟨cur', hcur⟩ := h.listed
      obtain ⟨rfl, -⟩ := Prod.mk.inj (Option.some.inj ((hke ▸ hk).symm.trans hcur))
      exact ⟨v, hself, hentry.trans hke.symm⟩
    · have hold := h.only k _ hk hke
      obtain ⟨w, hw, hwkey⟩ := hinv.matched k id' cur hold
      exact ⟨w, (hothers (hother hold hke)).trans hw, hwkey⟩
  · intro k hk id' cur w hlisted hrow id'' w' hne hrow'
    by_cases hke : k = U.entryKey e
    · obtain ⟨cur', hcur⟩ := h.listed
      obtain ⟨rfl, -⟩ := Prod.mk.inj (Option.some.inj ((hke ▸ hlisted).symm.trans hcur))
      obtain rfl := Option.some.inj (hself.symm.trans hrow)
      exact h.room id'' w' hne ((hothers hne).symm.trans hrow')
    · have hseen : k ∈ seen := by simpa [hke] using hk
      have hold := h.only k _ hlisted hke
      have hid := hother hold hke
      have hw := (hothers hid).symm.trans hrow
      by_cases hid' : id'' = id
      · subst hid'
        obtain rfl := Option.some.inj (hself.symm.trans hrow')
        exact U.symm _ _ (h.room id' w hid hw)
      · exact hinv.apart k hseen id' cur w hold hw id'' w' hne ((hothers hid').symm.trans hrow')

theorem Wrote.good {id : Int} {v : α} (h : Wrote U r n s e t id v)
    (hgood : ∀ id w, s.table.lookup id = some w → U.Good (U.site w)) :
    ∀ id w, t.table.lookup id = some w → U.Good (U.site w) := by
  obtain ⟨hsite, hv, -⟩ := U.next_site h.next
  intro id' w hrow
  rw [h.table] at hrow
  split at hrow
  · obtain rfl := Option.some.inj hrow
    rw [hsite]
    exact hv
  · exact hgood id' w hrow

/-- The row of a key: it is listed under the id, and has the value at the end. -/
structure Final (U : Upsert ρ α β σ κ) (t : Loop κ α) (k : κ) (id : Int) (v : α) : Prop where
  listed : ∃ cur, t.stored.lookup k = some (id, cur)
  row : t.table.lookup id = some v

/-- What the turns of the entries come to. -/
structure RunSpec (U : Upsert ρ α β σ κ) (r : ρ) (s : Loop κ α) (entries : List β) (t : Loop κ α) :
    Prop where
  kept : ∀ k found, s.stored.lookup k = some found → t.stored.lookup k = some found
  /-- Of each key the last entry is what is stored. -/
  written : ∀ e ∈ entries, ∃ id v last n prev, Final U t (U.entryKey e) id v ∧
    lastUnder U.entryKey (U.entryKey e) entries = some last ∧ U.Next r n prev last v
  untouched : ∀ id, (∀ e ∈ entries, ∀ cur, t.stored.lookup (U.entryKey e) ≠ some (id, cur)) →
    t.table.lookup id = s.table.lookup id

theorem Runs.spec {entries : List β} {seen : List κ} (h : U.Runs r n s entries t)
    (hinv : U.Inv seen s) :
    RunSpec U r s entries t ∧ U.Inv (entries.reverse.map U.entryKey ++ seen) t := by
  induction entries generalizing n s seen with
  | nil =>
      obtain rfl := h
      exact ⟨⟨fun k found hk => hk, by simp, fun id _ => rfl⟩, hinv⟩
  | cons e rest ih =>
      obtain ⟨m, hturn, hrest⟩ := h
      obtain ⟨id, v, hw⟩ := hturn.wrote
      obtain ⟨hspec, hend⟩ := ih hrest (hinv.turn hw)
      refine ⟨⟨?_, ?_, ?_⟩, by simpa using hend⟩
      · exact fun k found hk => hspec.kept k found (hw.kept k found hk)
      · have hfirst : ∃ id v last n prev, Final U t (U.entryKey e) id v ∧
            lastUnder U.entryKey (U.entryKey e) (e :: rest) = some last ∧
              U.Next r n prev last v := by
          by_cases hlater : ∃ d ∈ rest, U.entryKey d = U.entryKey e
          · obtain ⟨d, hd, hkey⟩ := hlater
            obtain ⟨id', v', last, n', prev, hfinal, hlast, hnext⟩ := hspec.written d hd
            rw [hkey] at hfinal hlast
            exact ⟨id', v', last, n', prev, hfinal, by simp [lastUnder, hlast], hnext⟩
          · have hnone : lastUnder U.entryKey (U.entryKey e) rest = none :=
              lastUnder_of_not_mem fun d hd hkey => hlater ⟨d, hd, hkey⟩
            obtain ⟨cur, hcur⟩ := hw.listed
            have hlisted := hspec.kept _ _ hcur
            refine ⟨id, v, e, n, s.table.lookup id, ⟨⟨cur, hlisted⟩,
              ?_⟩, by simp [lastUnder, hnone],
              hw.next⟩
            rw [hspec.untouched id, hw.table, if_pos rfl]
            -- an entry of another key is written to another row
            intro d hd cur' hd'
            obtain ⟨w, hw', hwkey⟩ := hend.matched _ id cur' hd'
            obtain ⟨w', hw'', hwkey'⟩ := hend.matched _ id cur hlisted
            obtain rfl := Option.some.inj (hw'.symm.trans hw'')
            exact hlater ⟨d, hd, hwkey.symm.trans hwkey'⟩
        intro d hd
        rcases List.mem_cons.mp hd with rfl | hd
        · exact hfirst
        · obtain ⟨id', v', last, n', prev, hfinal, hlast, hnext⟩ := hspec.written d hd
          exact ⟨id', v', last, n', prev, hfinal, by simp [lastUnder, hlast], hnext⟩
      · intro id' hnot
        rw [List.forall_mem_cons] at hnot
        rw [hspec.untouched id' hnot.2, hw.table, if_neg]
        rintro rfl
        obtain ⟨cur, hcur⟩ := hw.listed
        exact hnot.1 cur (hspec.kept _ _ hcur)

theorem Runs.asked {entries : List β} (h : U.Runs r n s entries t) :
    ∀ e ∈ entries, U.Good (U.asks e) ∧ U.key (U.asks e) = U.entryKey e := by
  induction entries generalizing n s with
  | nil => simp
  | cons e rest ih =>
      obtain ⟨m, hturn, hrest⟩ := h
      obtain ⟨id, v, hw⟩ := hturn.wrote
      rw [List.forall_mem_cons]
      exact ⟨(U.next_site hw.next).2, ih hrest⟩

/-! ### The same entries once more

`r` are the surroundings of the first writing, `r'` those of the second. -/

variable (U) in
/-- What a second writing rests on. `GuardE last e` and `FirstE last e` are about two
entries of one key: that `e` passes the guard of the row that `last` left, and that `e`
can be written over that row. `Rel last v v'` relates the row `v` an entry left the first
time to the row `v'` it leaves the second time, where `last` is the row that the first
writing left in the end. -/
structure Again (r r' : ρ) (GuardE FirstE : β → β → Prop) (Rel : α → α → α → Prop) : Prop where
  guard_iff : ∀ {m n p q last e w v}, U.Next r m p last w → U.Next r n q e v →
    (U.Guard w e ↔ GuardE last e)
  first_iff : ∀ {m n p q last e w v}, U.Next r m p last w → U.Next r n q e v →
    ((∃ v', U.Next r' n (some w) e v') ↔ FirstE last e)
  first_rel : ∀ {m n p q last e w v v'}, U.Next r m p last w → U.Next r n q e v →
    U.Next r' n (some w) e v' → Rel w v v'
  later : ∀ {n e w x x' v}, Rel w x x' → U.Next r n (some x) e v →
    ∃ v', U.Next r' n (some x') e v'
  later_rel : ∀ {n e w x x' v v'}, Rel w x x' → U.Next r n (some x) e v →
    U.Next r' n (some x') e v' → Rel w v v'

variable (U) in
/-- No entry stands in the way of a key that comes up after it, and that the keys in
`seen` do not have: the last entry of that key is what is stored when the document is
written again. -/
def Clear (seen : List κ) (e : β) (rest : List β) : Prop :=
  ∀ o ∈ rest, U.entryKey o ≠ U.entryKey e → U.entryKey o ∉ seen →
    ∀ last ∈ lastUnder U.entryKey (U.entryKey o) rest, U.Apart (U.asks e) (U.asks last)

variable (U) in
/-- Every entry, after the keys in `seen`, can be written over what the entries left. -/
def Repeats (GuardE FirstE : β → β → Prop) : List κ → List β → Prop :=
  EachEntry U.entryKey fun seen e last rest =>
    GuardE last e ∧ (U.entryKey e ∉ seen → FirstE last e) ∧ U.Clear seen e rest

/-! ### Two writings side by side

The second writing is followed turn by turn beside the first one.  A turn that the first
writing took, the second takes exactly if the entry passes what the row now asks. -/

/-- The two writings between two entries. `s` is the first, on its way to `sF`; `s'` is
the second, which began with what the first left. `keys` are those of the document,
`seen` those of the entries before. -/
structure Sim (U : Upsert ρ α β σ κ) (Rel : α → α → α → Prop) (keys seen : List κ)
    (s sF s' : Loop κ α) : Prop where
  stored : ∀ k ∈ keys, ∃ id last, Final U sF k id last ∧ s'.stored.lookup k = some (id, last)
  rowKeys : s'.table.rows.map Prod.fst = sF.table.rows.map Prod.fst
  seq : s'.table.seq = sF.table.seq
  none : s'.created = 0
  /-- The rows that were written. -/
  done : ∀ k ∈ seen, ∀ id last, Final U sF k id last →
    ∃ x x', s.table.lookup id = some x ∧ s'.table.lookup id = some x' ∧ Rel last x x' ∧
      U.site x' = U.site x
  /-- The others are as the first writing left them. -/
  rest : ∀ id, (∀ k ∈ seen, ∀ last, ¬ Final U sF k id last) →
    s'.table.lookup id = sF.table.lookup id

theorem Final.unique {seen : List κ} (hinv : U.Inv seen t) {k k' : κ} {id id' : Int} {v v' : α}
    (h : Final U t k id v) (h' : Final U t k' id' v') : k = k' ↔ id = id' := by
  obtain ⟨cur, hcur⟩ := h.listed
  obtain ⟨cur', hcur'⟩ := h'.listed
  constructor
  · rintro rfl
    exact (Prod.mk.inj (Option.some.inj (hcur.symm.trans hcur'))).1
  · rintro rfl
    obtain ⟨w, hw, hkey⟩ := hinv.matched k id cur hcur
    obtain ⟨w', hw', hkey'⟩ := hinv.matched k' id cur' hcur'
    obtain rfl := Option.some.inj (hw.symm.trans hw')
    exact hkey.symm.trans hkey'

section Second

variable {GuardE FirstE : β → β → Prop} {Rel : α → α → α → Prop} {keys seen : List κ}
  {sF s' t' : Loop κ α} {entries rest : List β} {id : Int} {v : α}

/-- The second writing at the turn of an entry that the first wrote to the row `id`. `w`
is the row that the first left there, by the entry `last`. -/
structure Meets (U : Upsert ρ α β σ κ) (r : ρ) (Rel : α → α → α → Prop) (seen : List κ)
    (s sF s' : Loop κ α) (e : β) (rest : List β) (id : Int) (w : α) (last : β) : Prop where
  final : Final U sF (U.entryKey e) id w
  found : s'.stored.lookup (U.entryKey e) = some (id, w)
  latest : lastUnder U.entryKey (U.entryKey e) (e :: rest) = some last
  next : ∃ m p, U.Next r m p last w
  row : (U.entryKey e ∈ seen ∧ ∃ x x', s.table.lookup id = some x ∧ s'.table.lookup id = some x' ∧
    Rel w x x') ∨ (U.entryKey e ∉ seen ∧ s'.table.lookup id = some w)

theorem Sim.meets (hsim : Sim U Rel keys seen s sF s') (hkey : U.entryKey e ∈ keys)
    (hspec : RunSpec U r s (e :: rest) sF) (hrest : RunSpec U r t rest sF) {all : List κ}
    (hend : U.Inv all sF) (hw : Wrote U r n s e t id v) :
    ∃ w last, Meets U r Rel seen s sF s' e rest id w last := by
  obtain ⟨id₀, w, last, m, p, hfinal, hlast, hnext⟩ := hspec.written e List.mem_cons_self
  obtain ⟨cur, hcur⟩ := hw.listed
  obtain ⟨cur₀, hcur₀⟩ := hfinal.listed
  obtain ⟨rfl, -⟩ := Prod.mk.inj (Option.some.inj (hcur₀.symm.trans (hrest.kept _ _ hcur)))
  obtain ⟨id₁, w₁, hfinal₁, hfound⟩ := hsim.stored _ hkey
  obtain rfl := (hfinal₁.unique hend hfinal).mp rfl
  obtain rfl := Option.some.inj (hfinal₁.row.symm.trans hfinal.row)
  refine ⟨w₁, last, hfinal, hfound, hlast, ⟨m, p, hnext⟩, ?_⟩
  by_cases hseen : U.entryKey e ∈ seen
  · obtain ⟨x, x', hx, hx', hrel, -⟩ := hsim.done _ hseen id₁ w₁ hfinal
    exact Or.inl ⟨hseen, x, x', hx, hx', hrel⟩
  · refine Or.inr ⟨hseen, ?_⟩
    rw [hsim.rest id₁, hfinal.row]
    intro k hk l hl
    exact hseen ((hl.unique hend hfinal).mpr rfl ▸ hk)

theorem Meets.has {w : α} {last : β} (h : Meets U r Rel seen s sF s' e rest id w last) :
    s'.table.has id = true := by
  rw [Table.has_eq_isSome]
  rcases h.row with ⟨-, x, x', -, hx', -⟩ | ⟨-, hrow⟩
  · rw [hx']
    rfl
  · rw [hrow]
    rfl

/-- The second writing takes the turn of the entry. -/
theorem Meets.turn_iff {w : α} {last : β} (h : Meets U r Rel seen s sF s' e rest id w last) :
    U.Turn r' n s' e t' ↔ ∃ v', U.Guard w e ∧ U.Next r' n (s'.table.lookup id) e v' ∧
      U.Room s'.table id v' ∧
        t' = ⟨s'.table.update id v', s'.stored, s'.created, s'.updated + 1⟩ := by
  constructor
  · intro hturn
    cases hturn with
    | update hfound hguard hnext hroom hhas =>
        obtain ⟨rfl, rfl⟩ := Prod.mk.inj (Option.some.inj (h.found.symm.trans hfound))
        exact ⟨_, hguard, hnext, hroom, rfl⟩
    | create hnone =>
        rw [h.found] at hnone
        cases hnone
  · rintro ⟨v', hguard, hnext, hroom, rfl⟩
    exact .update h.found hguard hnext hroom h.has

theorem Meets.next_iff {w : α} {last : β} (h : Meets U r Rel seen s sF s' e rest id w last)
    (hagain : U.Again r r' GuardE FirstE Rel) (hw : Wrote U r n s e t id v) :
    (∃ v', U.Next r' n (s'.table.lookup id) e v') ↔ (U.entryKey e ∉ seen → FirstE last e) := by
  obtain ⟨m, p, hlast⟩ := h.next
  rcases h.row with ⟨hseen, x, x', hx, hx', hrel⟩ | ⟨hseen, hrow⟩
  · rw [hx']
    constructor
    · exact fun _ hnot => absurd hseen hnot
    · intro _
      exact hagain.later hrel (hx ▸ hw.next)
  · rw [hrow, hagain.first_iff hlast hw.next]
    exact ⟨fun hfirst _ => hfirst, fun hfirst => hfirst hseen⟩

theorem Meets.rel {w : α} {last : β} {v' : α} (h : Meets U r Rel seen s sF s' e rest id w last)
    (hagain : U.Again r r' GuardE FirstE Rel) (hw : Wrote U r n s e t id v)
    (hnext : U.Next r' n (s'.table.lookup id) e v') : Rel w v v' := by
  obtain ⟨m, p, hlast⟩ := h.next
  rcases h.row with ⟨-, x, x', hx, hx', hrel⟩ | ⟨-, hrow⟩
  · rw [hx'] at hnext
    exact hagain.later_rel hrel (hx ▸ hw.next) hnext
  · rw [hrow] at hnext
    exact hagain.first_rel hlast hw.next hnext

/-- The second time a row has the room it had the first time, and in addition must keep
apart from the rows of the keys that come up later. -/
theorem Meets.room_iff {w v' : α} {last : β} (h : Meets U r Rel seen s sF s' e rest id w last)
    (hsim : Sim U Rel keys seen s sF s') (hrest : RunSpec U r t rest sF) {all : List κ}
    (hend : U.Inv all sF) (hw : Wrote U r n s e t id v) (hsite : U.site v' = U.asks e) :
    U.Room s'.table id v' ↔ U.Clear seen e rest := by
  have hsite₀ : U.site v = U.asks e := (U.next_site hw.next).1
  constructor
  · intro hroom o ho hne hnew last' hlast'
    obtain ⟨id', w', last₀, n', p, hfinal, hlast₀, hnext⟩ := hrest.written o ho
    obtain rfl := Option.some.inj (hlast'.symm.trans hlast₀)
    have hid : id' ≠ id := fun heq => hne ((hfinal.unique hend h.final).mpr heq)
    have hrow : s'.table.lookup id' = some w' := by
      rw [hsim.rest id', hfinal.row]
      intro k hk l hl
      exact hnew ((hl.unique hend hfinal).mpr rfl ▸ hk)
    have happart := hroom id' w' hid hrow
    rwa [hsite, (U.next_site hnext).1] at happart
  · intro hclear id' w' hid hrow
    rw [hsite, ← hsite₀]
    by_cases hdone : ∃ k ∈ seen, ∃ l, Final U sF k id' l
    · obtain ⟨k, hk, l, hl⟩ := hdone
      obtain ⟨x, x', hx, hx', -, hsame⟩ := hsim.done k hk id' l hl
      obtain rfl := Option.some.inj (hx'.symm.trans hrow)
      rw [hsame]
      exact hw.room id' x hid hx
    · have hkept := hsim.rest id' fun k hk l hl => hdone ⟨k, hk, l, hl⟩
      by_cases hlater : ∃ o ∈ rest, ∃ cur, sF.stored.lookup (U.entryKey o) = some (id', cur)
      · obtain ⟨o, ho, cur, hcur⟩ := hlater
        obtain ⟨id₀, w₀, last₀, n', p, hfinal, hlast₀, hnext⟩ := hrest.written o ho
        obtain ⟨cur₀, hcur₀⟩ := hfinal.listed
        obtain ⟨rfl, -⟩ := Prod.mk.inj (Option.some.inj (hcur₀.symm.trans hcur))
        obtain rfl := Option.some.inj (hfinal.row.symm.trans (hkept.symm.trans hrow))
        have hne : U.entryKey o ≠ U.entryKey e := fun heq =>
          hid ((hfinal.unique hend h.final).mp heq)
        have hnew : U.entryKey o ∉ seen := fun hk => hdone ⟨_, hk, w₀, hfinal⟩
        rw [hsite₀, (U.next_site hnext).1]
        exact hclear o ho hne hnew last₀ hlast₀
      · have hold : sF.table.lookup id' = s.table.lookup id' := by
          rw [hrest.untouched id' fun o ho cur hcur => hlater ⟨o, ho, cur, hcur⟩, hw.table,
            if_neg hid]
        exact hw.room id' w' hid (hold ▸ hkept ▸ hrow)

/-- After the turn of an entry the two writings still go together. -/
theorem Sim.turn {w v' : α} {last : β} (hsim : Sim U Rel keys seen s sF s')
    (h : Meets U r Rel seen s sF s' e rest id w last) {all : List κ} (hend : U.Inv all sF)
    (hw : Wrote U r n s e t id v) (hrel : Rel w v v') (hsite : U.site v' = U.site v)
    (hhas : s'.table.has id = true) :
    Sim U Rel keys (U.entryKey e :: seen) t sF
      ⟨s'.table.update id v', s'.stored, s'.created, s'.updated + 1⟩ where
  stored := hsim.stored
  rowKeys := Table.keys_update.trans hsim.rowKeys
  seq := hsim.seq
  none := hsim.none
  done := by
    intro k hk id' l hl
    by_cases hid : id' = id
    · subst hid
      obtain rfl := Option.some.inj (hl.row.symm.trans h.final.row)
      refine ⟨v, v', by rw [hw.table, if_pos rfl], ?_, hrel, hsite⟩
      rw [Table.lookup_update hhas, if_pos rfl]
    · have hseen : k ∈ seen := by
        rcases List.mem_cons.mp hk with rfl | hk
        · exact absurd ((hl.unique hend h.final).mp rfl) hid
        · exact hk
      obtain ⟨x, x', hx, hx', hrelx, hsame⟩ := hsim.done k hseen id' l hl
      refine ⟨x, x', by rw [hw.table, if_neg hid, hx], ?_, hrelx, hsame⟩
      rw [Table.lookup_update hhas, if_neg hid, hx']
  rest := by
    intro id' hnot
    have hid : id' ≠ id := by
      rintro rfl
      exact hnot _ List.mem_cons_self w h.final
    rw [Table.lookup_update hhas, if_neg hid]
    exact hsim.rest id' fun k hk => hnot k (List.mem_cons_of_mem _ hk)

/-- The rest of the second writing. -/
theorem Sim.runs (hagain : U.Again r r' GuardE FirstE Rel) {entries : List β} {all : List κ}
    (hrun : U.Runs r n s entries sF) (hinv : U.Inv seen s) (hend : U.Inv all sF)
    (hsim : Sim U Rel keys seen s sF s') (hkeys : ∀ e ∈ entries, U.entryKey e ∈ keys) :
    ((∃ t', U.Runs r' n s' entries t') ↔ U.Repeats GuardE FirstE seen entries) ∧
      ∀ t', U.Runs r' n s' entries t' →
        Sim U Rel keys (entries.reverse.map U.entryKey ++ seen) sF sF t' := by
  induction entries generalizing n s seen s' with
  | nil =>
      obtain rfl := hrun
      refine ⟨⟨fun _ => trivial, fun _ => ⟨s', rfl⟩⟩, ?_⟩
      rintro t' rfl
      exact hsim
  | cons e rest ih =>
      have hspec := (hrun.spec hinv).1
      obtain ⟨m, hturn, hrest⟩ := hrun
      obtain ⟨id, v, hw⟩ := hturn.wrote
      have hnext := hinv.turn hw
      have hrestSpec := (hrest.spec hnext).1
      rw [List.forall_mem_cons] at hkeys
      obtain ⟨w, last, hmeets⟩ := hsim.meets hkeys.1 hspec hrestSpec hend hw
      obtain ⟨m₀, p, hlast⟩ := hmeets.next
      have hguard := hagain.guard_iff hlast hw.next
      have hsite : ∀ {v'}, U.Next r' n (s'.table.lookup id) e v' → U.site v' = U.asks e :=
        fun h => (U.next_site h).1
      -- the turn of this entry, and what it leaves
      have hstep : ∀ {t'}, U.Turn r' n s' e t' →
          Sim U Rel keys (U.entryKey e :: seen) m sF t' := by
        intro t' hturn'
        obtain ⟨v', -, hnext', -, rfl⟩ := hmeets.turn_iff.mp hturn'
        refine hsim.turn hmeets hend hw (hmeets.rel hagain hw hnext') ?_ hmeets.has
        rw [hsite hnext', (U.next_site hw.next).1]
      have hturns : (∃ t', U.Turn r' n s' e t') ↔
          ∀ last ∈ lastUnder U.entryKey (U.entryKey e) (e :: rest),
            GuardE last e ∧ (U.entryKey e ∉ seen → FirstE last e) ∧ U.Clear seen e rest := by
        simp only [hmeets.turn_iff, hmeets.latest, Option.mem_def, Option.some.injEq, forall_eq',
          ← hguard, ← hmeets.next_iff hagain hw]
        constructor
        · rintro ⟨_, v', hg, hnext', hroom, rfl⟩
          exact ⟨hg, ⟨v', hnext'⟩, (hmeets.room_iff hsim hrestSpec hend hw (hsite hnext')).mp hroom⟩
        · rintro ⟨hg, ⟨v', hnext'⟩, hclear⟩
          exact ⟨_, v', hg, hnext',
            (hmeets.room_iff hsim hrestSpec hend hw (hsite hnext')).mpr hclear, rfl⟩
      constructor
      · constructor
        · rintro ⟨t', m', hturn', hruns'⟩
          have hih := ih hrest hnext (hstep hturn') hkeys.2
          exact ⟨hturns.mp ⟨m', hturn'⟩, hih.1.mp ⟨t', hruns'⟩⟩
        · rintro ⟨hentry, hrepeats⟩
          obtain ⟨m', hturn'⟩ := hturns.mpr hentry
          obtain ⟨t', hruns'⟩ := (ih hrest hnext (hstep hturn') hkeys.2).1.mpr hrepeats
          exact ⟨t', m', hturn', hruns'⟩
      · rintro t' ⟨m', hturn', hruns'⟩
        have hih := (ih hrest hnext (hstep hturn') hkeys.2).2 t' hruns'
        simpa using hih

/-- A second writing begins where the first ended. -/
theorem Sim.start {stored stored' : List (κ × Int × α)} {table : Table α} {entries : List β}
    (hgood : ∀ id w, table.lookup id = some w → U.Good (U.site w)) (hlist : U.Listing stored table)
    (hrun : U.Runs r n ⟨table, stored, 0, 0⟩ entries sF) (hlist' : U.Listing stored' sF.table) :
    Sim U Rel (entries.map U.entryKey) [] ⟨table, stored, 0, 0⟩ sF ⟨sF.table, stored', 0, 0⟩ where
  stored := by
    obtain ⟨hspec, hend⟩ := hrun.spec (hlist.inv hgood 0 0)
    intro k hk
    obtain ⟨e, he, rfl⟩ := List.mem_map.mp hk
    obtain ⟨id, v, last, m, p, hfinal, -, -⟩ := hspec.written e he
    obtain ⟨cur, hcur⟩ := hfinal.listed
    obtain ⟨w, hw, hkey⟩ := hend.matched _ id cur hcur
    obtain rfl := Option.some.inj (hw.symm.trans hfinal.row)
    obtain ⟨⟨id', cur'⟩, hfound⟩ := hlist'.complete id w hfinal.row
    rw [hkey] at hfound
    obtain ⟨hrow', hkey'⟩ := hlist'.sound _ id' cur' hfound
    -- two rows of one key would keep apart
    have hid : id' = id := by
      by_contra hne
      have hseen : U.entryKey e ∈ entries.reverse.map U.entryKey ++ [] := by
        simpa using ⟨e, he, rfl⟩
      have happart := hend.apart _ hseen id cur w hcur hfinal.row id' cur' hne hrow'
      exact U.key_apart (hend.good id w hfinal.row) (hend.good id' cur' hrow')
        (hkey.trans hkey'.symm)
        happart
    subst hid
    obtain rfl := Option.some.inj (hrow'.symm.trans hfinal.row)
    exact ⟨id', cur', hfinal, hfound⟩
  rowKeys := rfl
  seq := rfl
  none := rfl
  done := by simp
  rest := fun id _ => rfl

/-- What a second writing leaves: no new row, and each row as it was or changed by
`Rel`. -/
structure Rewritten (Rel : α → α → α → Prop) (t t' : Table α) : Prop where
  rowKeys : t'.rows.map Prod.fst = t.rows.map Prod.fst
  seq : t'.seq = t.seq
  rows : ∀ id v, t.lookup id = some v → ∃ v', t'.lookup id = some v' ∧ (v' = v ∨ Rel v v v')

/-! ### Writing a document again

From the first turn to the last, and then read off the entries alone. -/

/-- A document that was written once can be written again to what it left exactly if its
entries repeat. -/
theorem replay_iff (hagain : U.Again r r' GuardE FirstE Rel) {stored stored' : List (κ × Int × α)}
    {table : Table α} {entries : List β}
    (hgood : ∀ id w, table.lookup id = some w → U.Good (U.site w)) (hlist : U.Listing stored table)
    (hrun : U.Runs r n ⟨table, stored, 0, 0⟩ entries sF) (hlist' : U.Listing stored' sF.table) :
    (∃ t', U.Runs r' n ⟨sF.table, stored', 0, 0⟩ entries t') ↔ U.Repeats GuardE FirstE [] entries :=
  ((Sim.start hgood hlist hrun hlist').runs hagain hrun (hlist.inv hgood 0 0)
    (hrun.spec (hlist.inv hgood 0 0)).2 fun _ he => List.mem_map_of_mem he).1

theorem replay_rewritten (hagain : U.Again r r' GuardE FirstE Rel)
    {stored stored' : List (κ × Int × α)} {table : Table α} {entries : List β}
    (hgood : ∀ id w, table.lookup id = some w → U.Good (U.site w)) (hlist : U.Listing stored table)
    (hrun : U.Runs r n ⟨table, stored, 0, 0⟩ entries sF) (hlist' : U.Listing stored' sF.table)
    (hrun' : U.Runs r' n ⟨sF.table, stored', 0, 0⟩ entries t') :
    Rewritten Rel sF.table t'.table ∧ t'.created = 0 ∧
      ∀ e ∈ entries, ∃ id cur cur', sF.stored.lookup (U.entryKey e) = some (id, cur) ∧
        t'.stored.lookup (U.entryKey e) = some (id, cur') := by
  have hend := (hrun.spec (hlist.inv hgood 0 0)).2
  have hsim := ((Sim.start hgood hlist hrun hlist').runs hagain hrun
    (hlist.inv hgood 0 0) hend fun _ he => List.mem_map_of_mem he).2 t' hrun'
  refine ⟨⟨hsim.rowKeys, hsim.seq, ?_⟩, hsim.none, ?_⟩
  · intro id v hv
    by_cases hdone : ∃ k ∈ entries.reverse.map U.entryKey ++ [], ∃ l, Final U sF k id l
    · obtain ⟨k, hk, l, hl⟩ := hdone
      obtain ⟨x, x', hx, hx', hrel, -⟩ := hsim.done k hk id l hl
      obtain rfl := Option.some.inj (hx.symm.trans hv)
      obtain rfl := Option.some.inj (hl.row.symm.trans hx)
      exact ⟨x', hx', Or.inr hrel⟩
    · refine ⟨v, ?_, Or.inl rfl⟩
      rw [hsim.rest id fun k hk l hl => hdone ⟨k, hk, l, hl⟩, hv]
  · intro e he
    obtain ⟨id, last, hfinal, hfound⟩ := hsim.stored _ (List.mem_map_of_mem he)
    obtain ⟨cur, hcur⟩ := hfinal.listed
    exact ⟨id, cur, last, hcur, hfound⟩

/-- Where it is the key of an entry alone that decides what it keeps apart from, no entry
of a document that was written stands in the way of another. -/
theorem Runs.clear (hrun : U.Runs r n s entries sF) (hinv : U.Inv seen s)
    (hkeyed : ∀ {a b c}, U.Good a → U.Good b → U.key a = U.key b → U.Apart a c → U.Apart b c)
    {before rest : List β} (hsplit : entries = before ++ e :: rest) (after : List κ) :
    U.Clear after e rest := by
  obtain ⟨hspec, hend⟩ := hrun.spec hinv
  intro o ho hne _ last hlast
  have he : e ∈ entries := by simp [hsplit]
  have ho' : o ∈ entries := by simp [hsplit, ho]
  have hlast' : lastUnder U.entryKey (U.entryKey o) entries = some last := by
    rw [hsplit, List.append_cons, lastUnder_append, hlast]
    rfl
  obtain ⟨id, v, laste, m, p, hfinal, hlaste, hnext⟩ := hspec.written e he
  obtain ⟨id', v', last₀, m', p', hfinal', hlast₀, hnext'⟩ := hspec.written o ho'
  obtain rfl := Option.some.inj (hlast'.symm.trans hlast₀)
  have hid : id' ≠ id := fun heq => hne ((hfinal'.unique hend hfinal).mpr heq)
  obtain ⟨cur, hcur⟩ := hfinal.listed
  have hseen : U.entryKey e ∈ entries.reverse.map U.entryKey ++ seen := by
    simpa using Or.inl ⟨e, he, rfl⟩
  have happart := hend.apart _ hseen id cur v hcur hfinal.row id' v' hid hfinal'.row
  rw [(U.next_site hnext').1] at happart
  obtain ⟨hgood, hkey⟩ := hrun.asked e he
  obtain ⟨hsite, hgoodv, hkeyv⟩ := U.next_site hnext
  refine hkeyed ?_ hgood ?_ happart
  · exact hend.good id v hfinal.row
  · rw [hsite, hkeyv, hkey]
    exact (of_lastUnder hlaste).2

/-- The rows, one beside the other. -/
theorem Rewritten.forall₂ {t t' : Table α} (h : Rewritten Rel t t') :
    List.Forall₂ (fun row row' => row'.1 = row.1 ∧ (row'.2 = row.2 ∨ Rel row.2 row.2 row'.2)) t.rows
      t'.rows := by
  have hlength : t.rows.length = t'.rows.length := by
    have hkeys := congrArg List.length h.rowKeys
    simpa using hkeys.symm
  refine List.forall₂_iff_get.mpr ⟨hlength, ?_⟩
  intro i hi hi'
  have hkey : (t'.rows.get ⟨i, hi'⟩).1 = (t.rows.get ⟨i, hi⟩).1 := by
    have hat := congrArg (·[i]?) h.rowKeys
    simpa [hi, hi'] using hat
  have hrow := List.get_mem t.rows ⟨i, hi⟩
  have hrow' := List.get_mem t'.rows ⟨i, hi'⟩
  obtain ⟨v', hv', hrel⟩ := h.rows _ _ (Table.lookup_eq_some.mpr hrow)
  have hsame : (t'.rows.get ⟨i, hi'⟩).2 = v' := by
    refine Table.eq_of_mem (t := t') ?_ (Table.lookup_eq_some.mp hv')
    rw [← hkey]
    exact hrow'
  refine ⟨hkey, ?_⟩
  rw [hsame]
  exact hrel

/-- Where a second writing leaves every row as it was, it leaves the rows. -/
theorem Rewritten.rows_eq {t t' : Table α} (h : Rewritten Rel t t')
    (hrel : ∀ v v', Rel v v v' → v' = v) : t'.rows = t.rows := by
  have hpairs := h.forall₂.imp fun row row' hrow =>
    show row = row' from Prod.ext hrow.1.symm (hrow.2.elim Eq.symm fun hr => (hrel _ _ hr).symm)
  rw [List.forall₂_eq_eq_eq] at hpairs
  exact hpairs.symm

end Second

end Upsert

end Quicgate.Sql
