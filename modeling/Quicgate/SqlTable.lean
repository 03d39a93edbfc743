import Mathlib.Data.List.Nodup
import Mathlib.Tactic.Basic

/-!
# Tables with an assigned key

A table of an SQL database whose key is an `INTEGER PRIMARY KEY AUTOINCREMENT`:
the database gives each new row the key after the largest it ever gave, so a key
names one row for good.  `INSERT`, `UPDATE … WHERE id = ?` and `DELETE … WHERE
id = ?` are one statement each, and so is a `SELECT` by key.

A property that relates every two rows is kept by a write exactly when the
written row is related to the others, which is what `Pairwise` and its lemmas
package.  The lemmas about the statements come in families: which rows there are
after one, what is found under a key, and which keys are taken.
-/

namespace Quicgate.Sql

universe u

/-- The rows with their keys, in the order they were inserted, and the last key
that was given. -/
structure Table (α : Type u) where
  rows : List (Int × α)
  seq : Int
  seqNonneg : 0 ≤ seq
  keysUnique : (rows.map Prod.fst).Nodup
  keysGiven : ∀ row ∈ rows, 0 < row.1 ∧ row.1 ≤ seq

namespace Table

variable {α : Type u} {t : Table α} {id : Int} {v w : α}

def empty : Table α := ⟨[], 0, Int.le_refl 0, List.nodup_nil, by simp⟩

def insert (t : Table α) (v : α) : Table α where
  rows := t.rows ++ [(t.seq + 1, v)]
  seq := t.seq + 1
  seqNonneg := by have := t.seqNonneg; omega
  keysUnique := by
    rw [List.map_append, List.nodup_append]
    refine ⟨t.keysUnique, List.nodup_singleton _, ?_⟩
    intro key hkey key' hkey'
    obtain ⟨row, hrow, rfl⟩ := List.mem_map.mp hkey
    have hle := (t.keysGiven row hrow).2
    simp only [List.map_cons, List.map_nil, List.mem_singleton] at hkey'
    omega
  keysGiven := by
    intro row hrow
    rcases List.mem_append.mp hrow with hrow | hrow
    · have hgiven := t.keysGiven row hrow
      omega
    · obtain rfl := List.mem_singleton.mp hrow
      have hseq := t.seqNonneg
      simp only
      omega

def update (t : Table α) (id : Int) (v : α) : Table α where
  rows := t.rows.map fun row => if row.1 = id then (row.1, v) else row
  seq := t.seq
  seqNonneg := t.seqNonneg
  keysUnique := by
    have hkeys : (t.rows.map fun row => if row.1 = id then (row.1, v) else row).map Prod.fst =
        t.rows.map Prod.fst := by
      rw [List.map_map]
      refine List.map_congr_left fun row _ => ?_
      simp only [Function.comp_apply]
      split <;> rfl
    rw [hkeys]
    exact t.keysUnique
  keysGiven := by
    intro row hrow
    obtain ⟨old, hold, rfl⟩ := List.mem_map.mp hrow
    have hgiven := t.keysGiven old hold
    split <;> exact hgiven

/-- `UPDATE … SET … WHERE id = ?` of some columns. -/
def modify (t : Table α) (id : Int) (f : α → α) : Table α where
  rows := t.rows.map fun row => if row.1 = id then (row.1, f row.2) else row
  seq := t.seq
  seqNonneg := t.seqNonneg
  keysUnique := by
    have hkeys : (t.rows.map fun row => if row.1 = id then (row.1, f row.2) else row).map Prod.fst =
        t.rows.map Prod.fst := by
      rw [List.map_map]
      refine List.map_congr_left fun row _ => ?_
      simp only [Function.comp_apply]
      split <;> rfl
    rw [hkeys]
    exact t.keysUnique
  keysGiven := by
    intro row hrow
    obtain ⟨old, hold, rfl⟩ := List.mem_map.mp hrow
    have hgiven := t.keysGiven old hold
    split <;> exact hgiven

def delete (t : Table α) (id : Int) : Table α where
  rows := t.rows.filter fun row => row.1 ≠ id
  seq := t.seq
  seqNonneg := t.seqNonneg
  keysUnique := t.keysUnique.sublist (List.filter_sublist.map Prod.fst)
  keysGiven := fun row hrow => t.keysGiven row (List.mem_of_mem_filter hrow)

def lookup (t : Table α) (id : Int) : Option α := (t.rows.find? fun row => row.1 = id).map Prod.snd

/-- `SELECT COUNT(*) … WHERE id = ?`, as a test. -/
def has (t : Table α) (id : Int) : Bool := t.rows.any fun row => row.1 = id

/-! ### What a statement leaves

The key names the row, before and after every statement.  A row is found after a write exactly
if it was written, or was there and was not the one that was written or deleted. -/

theorem eq_of_mem (h : (id, v) ∈ t.rows) (h' : (id, w) ∈ t.rows) : v = w := by
  have hrow := List.inj_on_of_nodup_map t.keysUnique h h' rfl
  exact congrArg Prod.snd hrow

theorem lookup_eq_some : t.lookup id = some v ↔ (id, v) ∈ t.rows := by
  unfold lookup
  rw [Option.map_eq_some_iff]
  constructor
  · rintro ⟨row, hfind, rfl⟩
    have hid : row.1 = id := by simpa using List.find?_some hfind
    rw [← hid]
    exact List.mem_of_find?_eq_some hfind
  · intro hmem
    cases hfind : t.rows.find? fun row => row.1 = id with
    | none =>
        have habsent := List.find?_eq_none.mp hfind (id, v) hmem
        simp at habsent
    | some row =>
        have hid : row.1 = id := by simpa using List.find?_some hfind
        have hrow : (id, row.2) ∈ t.rows := hid ▸ List.mem_of_find?_eq_some hfind
        exact ⟨row, rfl, eq_of_mem hrow hmem⟩

theorem has_iff : t.has id = true ↔ ∃ v, (id, v) ∈ t.rows := by
  unfold has
  rw [List.any_eq_true]
  constructor
  · rintro ⟨row, hrow, hid⟩
    have hid' : row.1 = id := by simpa using hid
    exact ⟨row.2, hid' ▸ hrow⟩
  · rintro ⟨v, hmem⟩
    exact ⟨(id, v), hmem, by simp⟩

theorem has_eq_isSome : t.has id = (t.lookup id).isSome := by
  rw [Bool.eq_iff_iff, has_iff, Option.isSome_iff_exists]
  exact exists_congr fun _ => lookup_eq_some.symm

theorem has_congr {t' : Table α} (h : t'.rows.map Prod.fst = t.rows.map Prod.fst) :
    t'.has id = t.has id := by
  have hkeys : ∀ t : Table α, t.has id = (t.rows.map Prod.fst).any (· = id) := by
    intro t
    rw [List.any_map]
    rfl
  rw [hkeys, hkeys, h]

theorem mem_insert {row : Int × α} :
    row ∈ (t.insert v).rows ↔ row ∈ t.rows ∨ row = (t.seq + 1, v) := by
  simp [insert]

theorem mem_update {row : Int × α} : row ∈ (t.update id v).rows ↔
    (row.1 ≠ id ∧ row ∈ t.rows) ∨ (row = (id, v) ∧ t.has id = true) := by
  unfold update
  constructor
  · intro hrow
    obtain ⟨old, hold, rfl⟩ := List.mem_map.mp hrow
    by_cases hid : old.1 = id
    · right
      rw [if_pos hid]
      exact ⟨by rw [hid], has_iff.mpr ⟨old.2, hid ▸ hold⟩⟩
    · left
      rw [if_neg hid]
      exact ⟨hid, hold⟩
  · rintro (⟨hid, hold⟩ | ⟨rfl, hhas⟩)
    · exact List.mem_map.mpr ⟨row, hold, by rw [if_neg hid]⟩
    · obtain ⟨w, hw⟩ := has_iff.mp hhas
      exact List.mem_map.mpr ⟨(id, w), hw, by simp⟩

theorem mem_modify {f : α → α} {row : Int × α} : row ∈ (t.modify id f).rows ↔
    (row.1 ≠ id ∧ row ∈ t.rows) ∨ (row.1 = id ∧ ∃ w, (id, w) ∈ t.rows ∧ row.2 = f w) := by
  unfold modify
  simp only [List.mem_map]
  constructor
  · rintro ⟨old, hold, rfl⟩
    by_cases hid : old.1 = id
    · subst hid
      exact Or.inr ⟨by simp, old.2, hold, by simp⟩
    · rw [if_neg hid]
      exact Or.inl ⟨hid, hold⟩
  · rintro (⟨hne, hold⟩ | ⟨rfl, w, hw, hrow⟩)
    · exact ⟨row, hold, if_neg hne⟩
    · exact ⟨(row.1, w), hw, by simp [← hrow]⟩

theorem mem_delete {row : Int × α} : row ∈ (t.delete id).rows ↔ row.1 ≠ id ∧ row ∈ t.rows := by
  simp [delete, and_comm]

theorem lookup_insert {id' : Int} :
    (t.insert v).lookup id' = if id' = t.seq + 1 then some v else t.lookup id' := by
  split
  · rename_i hid
    exact lookup_eq_some.mpr (mem_insert.mpr (Or.inr (by rw [hid])))
  · rename_i hid
    refine Option.ext fun w => ?_
    rw [lookup_eq_some, lookup_eq_some, mem_insert]
    constructor
    · rintro (hold | hnew)
      · exact hold
      · exact absurd (congrArg Prod.fst hnew) hid
    · exact Or.inl

theorem lookup_update {id' : Int} (h : t.has id = true) :
    (t.update id v).lookup id' = if id' = id then some v else t.lookup id' := by
  refine Option.ext fun w => ?_
  rw [lookup_eq_some, mem_update]
  split
  · rename_i hid
    subst hid
    constructor
    · rintro (⟨hne, -⟩ | ⟨heq, -⟩)
      · exact absurd rfl hne
      · rw [(Prod.mk.inj heq).2]
    · rintro heq
      exact Or.inr ⟨by rw [Option.some.inj heq], h⟩
  · rename_i hid
    rw [lookup_eq_some]
    constructor
    · rintro (⟨-, hold⟩ | ⟨heq, -⟩)
      · exact hold
      · exact absurd (Prod.mk.inj heq).1 hid
    · intro hold
      exact Or.inl ⟨hid, hold⟩

theorem keys_update : (t.update id v).rows.map Prod.fst = t.rows.map Prod.fst := by
  simp only [update, List.map_map]
  refine List.map_congr_left fun row _ => ?_
  simp only [Function.comp_apply]
  split <;> rfl

/-- No row has the key that is given next. -/
theorem lookup_next : t.lookup (t.seq + 1) = none := by
  cases hrow : t.lookup (t.seq + 1) with
  | none => rfl
  | some w =>
      have hgiven := (t.keysGiven _ (lookup_eq_some.mp hrow)).2
      simp only at hgiven
      omega

/-- Nor has any row the key 0. -/
theorem lookup_zero : t.lookup 0 = none := by
  cases hrow : t.lookup 0 with
  | none => rfl
  | some w =>
      have hgiven := (t.keysGiven _ (lookup_eq_some.mp hrow)).1
      simp only at hgiven
      omega

theorem lookup_modify {f : α → α} {id' : Int} :
    (t.modify id f).lookup id' = if id' = id then (t.lookup id').map f else t.lookup id' := by
  refine Option.ext fun w => ?_
  rw [lookup_eq_some, mem_modify]
  split
  · rename_i hid
    subst hid
    simp only [Option.map_eq_some_iff, lookup_eq_some]
    constructor
    · rintro (⟨hne, -⟩ | ⟨-, old, hold, heq⟩)
      · exact absurd rfl hne
      · exact ⟨old, hold, heq.symm⟩
    · rintro ⟨old, hold, heq⟩
      exact Or.inr ⟨trivial, old, hold, heq.symm⟩
  · rename_i hid
    rw [lookup_eq_some]
    constructor
    · rintro (⟨-, hold⟩ | ⟨heq, -⟩)
      · exact hold
      · exact absurd heq hid
    · intro hold
      exact Or.inl ⟨hid, hold⟩

theorem lookup_delete {id' : Int} :
    (t.delete id).lookup id' = if id' = id then none else t.lookup id' := by
  refine Option.ext fun w => ?_
  rw [lookup_eq_some, mem_delete]
  split
  · rename_i hid
    simp [hid]
  · rename_i hid
    rw [lookup_eq_some]
    exact ⟨And.right, fun hold => ⟨hid, hold⟩⟩

/-- A write takes no row away. -/
theorem has_insert (h : t.has id = true) : (t.insert v).has id = true := by
  obtain ⟨w, hw⟩ := has_iff.mp h
  exact has_iff.mpr ⟨w, mem_insert.mpr (Or.inl hw)⟩

theorem has_update {id' : Int} (h : t.has id = true) : (t.update id' v).has id = true := by
  obtain ⟨w, hw⟩ := has_iff.mp h
  by_cases hid : id = id'
  · subst hid
    exact has_iff.mpr ⟨v, mem_update.mpr (Or.inr ⟨rfl, h⟩)⟩
  · exact has_iff.mpr ⟨w, mem_update.mpr (Or.inl ⟨hid, hw⟩)⟩

theorem has_delete {id' : Int} (h : t.has id = true) (hne : id ≠ id') :
    (t.delete id').has id = true := by
  obtain ⟨w, hw⟩ := has_iff.mp h
  exact has_iff.mpr ⟨w, mem_delete.mpr ⟨hne, hw⟩⟩

theorem key_ne_next (h : (id, v) ∈ t.rows) : id ≠ t.seq + 1 := by
  have hle := (t.keysGiven _ h).2
  simp only at hle
  omega

/-- What holds of every row, and of the row that is written. -/
theorem forall_insert {P : Int → α → Prop} (h : ∀ id v, (id, v) ∈ t.rows → P id v)
    (hnew : P (t.seq + 1) v) : ∀ id w, (id, w) ∈ (t.insert v).rows → P id w := by
  intro id w hrow
  rcases mem_insert.mp hrow with hold | heq
  · exact h id w hold
  · obtain ⟨rfl, rfl⟩ := Prod.mk.inj heq
    exact hnew

theorem forall_update {P : Int → α → Prop} (h : ∀ id v, (id, v) ∈ t.rows → P id v)
    (hnew : t.has id = true → P id v) : ∀ id' w, (id', w) ∈ (t.update id v).rows → P id' w := by
  intro id' w hrow
  rcases mem_update.mp hrow with ⟨-, hold⟩ | ⟨heq, hhas⟩
  · exact h id' w hold
  · obtain ⟨rfl, rfl⟩ := Prod.mk.inj heq
    exact hnew hhas

/-! ### Rows that go together

A condition that no two rows may violate, as a unique name or a port that has one listener, is
`Pairwise` of the relation between two rows. -/

/-- Every two rows are related. -/
def Pairwise (t : Table α) (R : α → α → Prop) : Prop :=
  ∀ id v id' v', (id, v) ∈ t.rows → (id', v') ∈ t.rows → id ≠ id' → R v v'

variable {R : α → α → Prop}

theorem Pairwise.empty : (Table.empty : Table α).Pairwise R := by
  intro id v id' v' h
  simp [Table.empty] at h

theorem Pairwise.insert (h : t.Pairwise R) (hsymm : ∀ a b, R a b → R b a)
    (hnew : ∀ id w, (id, w) ∈ t.rows → R v w) : (t.insert v).Pairwise R := by
  intro id a id' b ha hb hne
  rcases mem_insert.mp ha with hold | heq <;> rcases mem_insert.mp hb with hold' | heq'
  · exact h id a id' b hold hold' hne
  · obtain ⟨-, rfl⟩ := Prod.mk.inj heq'
    exact hsymm _ _ (hnew id a hold)
  · obtain ⟨-, rfl⟩ := Prod.mk.inj heq
    exact hnew id' b hold'
  · exact absurd ((Prod.mk.inj heq).1.trans (Prod.mk.inj heq').1.symm) hne

theorem Pairwise.update (h : t.Pairwise R) (hsymm : ∀ a b, R a b → R b a)
    (hnew : ∀ id' w, (id', w) ∈ t.rows → id' ≠ id → R v w) : (t.update id v).Pairwise R := by
  intro id' a id'' b ha hb hne
  rcases mem_update.mp ha with ⟨hother, hold⟩ | ⟨heq, -⟩ <;>
    rcases mem_update.mp hb with ⟨hother', hold'⟩ | ⟨heq', -⟩
  · exact h id' a id'' b hold hold' hne
  · obtain ⟨-, rfl⟩ := Prod.mk.inj heq'
    exact hsymm _ _ (hnew id' a hold hother)
  · obtain ⟨-, rfl⟩ := Prod.mk.inj heq
    exact hnew id'' b hold' hother'
  · exact absurd ((Prod.mk.inj heq).1.trans (Prod.mk.inj heq').1.symm) hne

end Table

end Quicgate.Sql
