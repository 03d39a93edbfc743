import Mathlib.Data.List.AList
import Mathlib.Tactic.Basic

/-!
# Maps as Go has them

A Go map, the ranging over it, and the loops that write or delete a whole list of
keys.

`pairs`, `len`, `eraseAll` and `insertAll` are the loops over `range m`, `len(m)`,
and the repeated `delete(m, k)` and `m[k] = v`.  After `insertAll` a key that is
not among the written ones keeps what it had, one that is holds a written value,
and which of them does not matter where the writes agree
(`lookup_insertAll_of_agree`).

Go leaves the order of `range` open.  A loop whose result depends on it takes a
`Range`, an order for the entries of a map, so that what is proved of the loop
is proved for every order.
-/

namespace Quicgate.GoMaps

abbrev GoMap (κ α : Type) := AList fun _ : κ => α

namespace GoMap

variable {κ α : Type} [DecidableEq κ]

def pairs (m : GoMap κ α) : List (κ × α) := m.entries.map fun o => (o.1, o.2)

def len (m : GoMap κ α) : Nat := (pairs m).length

/-- `delete(m, k)` for every key of a list. -/
def eraseAll (m : GoMap κ α) (keys : List κ) : GoMap κ α := keys.foldl (fun m k => m.erase k) m

/-- `m[k] = v` for every pair of a list. -/
def insertAll (m : GoMap κ α) (xs : List (κ × α)) : GoMap κ α :=
  xs.foldl (fun m x => m.insert x.1 x.2) m

variable {m : GoMap κ α} {k : κ} {v : α}

/-! ### Entries after a loop

What is found under a key after the loops of this module, in terms of what they were given. -/

@[simp] theorem mem_pairs : (k, v) ∈ pairs m ↔ m.lookup k = some v := by
  rw [← Option.mem_def, AList.mem_lookup_iff]
  constructor
  · intro h
    obtain ⟨⟨k', v'⟩, ho, heq⟩ := List.mem_map.mp h
    obtain ⟨rfl, rfl⟩ := Prod.mk.inj heq
    exact ho
  · intro h
    exact List.mem_map.mpr ⟨⟨k, v⟩, h, rfl⟩

omit [DecidableEq κ] in
theorem nodup_keys_pairs (m : GoMap κ α) : ((pairs m).map Prod.fst).Nodup := by
  have h : (pairs m).map Prod.fst = m.keys := by
    simp [pairs, AList.keys, List.keys, Function.comp_def]
  rw [h]
  exact m.keys_nodup

theorem lookup_eraseAll (m : GoMap κ α) (keys : List κ) (k : κ) :
    (eraseAll m keys).lookup k = if k ∈ keys then none else m.lookup k := by
  induction keys generalizing m with
  | nil => rfl
  | cons key keys ih =>
      rw [eraseAll, List.foldl_cons, ← eraseAll, ih]
      by_cases hkey : k = key
      · subst hkey
        simp
      · simp [hkey, AList.lookup_erase_ne hkey]

/-- The loop that deletes the entries of a kind while it goes through them. -/
theorem lookup_eraseAll_filter (m : GoMap κ α) (p : κ × α → Bool) (k : κ) :
    (eraseAll m (((pairs m).filter p).map Prod.fst)).lookup k =
      (m.lookup k).filter fun v => !p (k, v) := by
  rw [lookup_eraseAll]
  have hmem : k ∈ ((pairs m).filter p).map Prod.fst ↔ ∃ v, m.lookup k = some v ∧
    p (k, v) = true := by
    simp only [List.mem_map, List.mem_filter, Prod.exists, exists_and_right, exists_eq_right,
      mem_pairs]
  cases hk : m.lookup k with
  | none => simp
  | some v =>
      simp only [hmem, hk, Option.some.injEq, exists_eq_left', Option.filter_some]
      cases p (k, v) <;> rfl

/-- An entry after the writes is one that was written, or an old one under a key
that was not. -/
theorem of_lookup_insertAll {xs : List (κ × α)} (h : (insertAll m xs).lookup k = some v) :
    (k, v) ∈ xs ∨ (∀ x ∈ xs, x.1 ≠ k) ∧ m.lookup k = some v := by
  induction xs generalizing m with
  | nil => exact Or.inr ⟨by simp, h⟩
  | cons x xs ih =>
      rw [insertAll, List.foldl_cons, ← insertAll] at h
      rcases ih h with hmem | ⟨hne, hlook⟩
      · exact Or.inl (List.mem_cons_of_mem x hmem)
      · by_cases hkey : x.1 = k
        · subst hkey
          rw [AList.lookup_insert] at hlook
          obtain rfl := Option.some.inj hlook
          exact Or.inl List.mem_cons_self
        · rw [AList.lookup_insert_ne (Ne.symm hkey)] at hlook
          exact Or.inr ⟨List.forall_mem_cons.mpr ⟨hkey, hne⟩, hlook⟩

/-- A key that is written holds something. -/
theorem exists_lookup_insertAll {xs : List (κ × α)}
    (h : (∃ x ∈ xs, x.1 = k) ∨ ∃ v, m.lookup k = some v) :
    ∃ v, (insertAll m xs).lookup k = some v := by
  induction xs generalizing m with
  | nil => simpa [insertAll] using h
  | cons x xs ih =>
      rw [insertAll, List.foldl_cons, ← insertAll]
      apply ih
      by_cases hkey : x.1 = k
      · exact Or.inr ⟨x.2, by rw [← hkey, AList.lookup_insert]⟩
      · rcases h with ⟨y, hy, hyk⟩ | ⟨v, hv⟩
        · rcases List.mem_cons.mp hy with rfl | hy
          · exact absurd hyk hkey
          · exact Or.inl ⟨y, hy, hyk⟩
        · exact Or.inr ⟨v, by rw [AList.lookup_insert_ne (Ne.symm hkey), hv]⟩

/-- A key that is not written keeps what it has. -/
theorem lookup_insertAll_of_ne {xs : List (κ × α)} (h : ∀ x ∈ xs, x.1 ≠ k) :
    (insertAll m xs).lookup k = m.lookup k := by
  induction xs generalizing m with
  | nil => rfl
  | cons x xs ih =>
      rw [insertAll, List.foldl_cons, ← insertAll, ih fun y hy => h y (List.mem_cons_of_mem x hy)]
      exact AList.lookup_insert_ne (Ne.symm (h x List.mem_cons_self))

/-- When every write under a key agrees on the value, the key holds it. -/
theorem lookup_insertAll_of_agree {xs : List (κ × α)} (hagree : ∀ x ∈ xs, x.1 = k → x.2 = v)
    (h : (∃ x ∈ xs, x.1 = k) ∨ m.lookup k = some v) : (insertAll m xs).lookup k = some v := by
  induction xs generalizing m with
  | nil => simpa [insertAll] using h
  | cons x xs ih =>
      rw [insertAll, List.foldl_cons, ← insertAll]
      refine ih (fun y hy => hagree y (List.mem_cons_of_mem x hy)) ?_
      by_cases hkey : x.1 = k
      · right
        obtain rfl := hagree x List.mem_cons_self hkey
        rw [← hkey, AList.lookup_insert]
      · rw [AList.lookup_insert_ne (Ne.symm hkey)]
        rcases h with ⟨y, hy, hyk⟩ | hlook
        · rcases List.mem_cons.mp hy with rfl | hy
          · exact absurd hyk hkey
          · exact Or.inl ⟨y, hy, hyk⟩
        · exact Or.inr hlook

/-- A map that is made of a function of the key. -/
theorem lookup_insertAll_map (m : GoMap κ α) (keys : List κ) (g : κ → α) (k : κ) :
    (insertAll m (keys.map fun key => (key, g key))).lookup k =
      if k ∈ keys then some (g k) else m.lookup k := by
  by_cases hk : k ∈ keys
  · rw [if_pos hk]
    apply lookup_insertAll_of_agree
    · intro x hx hxk
      obtain ⟨key, -, rfl⟩ := List.mem_map.mp hx
      exact congrArg g hxk
    · exact Or.inl ⟨_, List.mem_map.mpr ⟨k, hk, rfl⟩, rfl⟩
  · rw [if_neg hk]
    apply lookup_insertAll_of_ne
    intro x hx hxk
    obtain ⟨key, hkey, rfl⟩ := List.mem_map.mp hx
    exact hk (hxk ▸ hkey)

/-- A map that takes over another one, entry by entry. -/
theorem lookup_insertAll_pairs (base m : GoMap κ α) (g : κ → α → α) (k : κ) :
    (insertAll base ((pairs m).map fun entry => (entry.1, g entry.1 entry.2))).lookup k =
      ((m.lookup k).map (g k)).or (base.lookup k) := by
  cases hlook : m.lookup k with
  | some v =>
      rw [Option.map_some, Option.some_or]
      apply lookup_insertAll_of_agree
      · intro x hx hxk
        obtain ⟨entry, hentry, rfl⟩ := List.mem_map.mp hx
        obtain rfl : entry.1 = k := hxk
        have hv := mem_pairs.mp (show (entry.1, entry.2) ∈ pairs m from hentry)
        rw [hlook] at hv
        exact congrArg (g entry.1) (Option.some.inj hv).symm
      · exact Or.inl ⟨_, List.mem_map.mpr ⟨(k, v), mem_pairs.mpr hlook, rfl⟩, rfl⟩
  | none =>
      rw [Option.map_none, Option.none_or]
      apply lookup_insertAll_of_ne
      intro x hx hxk
      obtain ⟨entry, hentry, rfl⟩ := List.mem_map.mp hx
      obtain rfl : entry.1 = k := hxk
      have hv := mem_pairs.mp (show (entry.1, entry.2) ∈ pairs m from hentry)
      rw [hlook] at hv
      cases hv

omit [DecidableEq κ] in
/-- A loop over entries none of which has the key. -/
theorem foldl_seen_of_ne {σ β γ : Type} {f : σ → β → σ} (key : β → κ) (view : σ → γ) {bs : List β}
    (hother : ∀ s, ∀ b ∈ bs, key b ≠ k → view (f s b) = view s) (hne : ∀ b ∈ bs, key b ≠ k)
    (s : σ) : view (bs.foldl f s) = view s := by
  induction bs generalizing s with
  | nil => rfl
  | cons b bs ih =>
      rw [List.foldl_cons, ih (fun s b hb => hother s b (List.mem_cons_of_mem _ hb))
        fun b hb => hne b (List.mem_cons_of_mem _ hb)]
      exact hother s b List.mem_cons_self (hne b List.mem_cons_self)

omit [DecidableEq κ] in
/-- A loop over entries with different keys: a key only sees its own entry. -/
theorem foldl_seen_of_mem {σ β γ : Type} {f : σ → β → σ} (key : β → κ) (view : σ → γ)
    (act : β → γ → γ) {bs : List β} (hkeys : (bs.map key).Nodup)
    (hself : ∀ s, ∀ b ∈ bs, key b = k → view (f s b) = act b (view s))
    (hother : ∀ s, ∀ b ∈ bs, key b ≠ k → view (f s b) = view s)
    {b : β} (hb : b ∈ bs) (hkey : key b = k) (s : σ) : view (bs.foldl f s) = act b (view s) := by
  obtain ⟨front, back, rfl⟩ := List.append_of_mem hb
  rw [List.map_append, List.map_cons, List.nodup_append, List.nodup_cons] at hkeys
  obtain ⟨-, ⟨hback, -⟩, hfront⟩ := hkeys
  rw [List.foldl_append, List.foldl_cons]
  rw [foldl_seen_of_ne (k := k) key view (fun s b hb => hother s b (by simp [hb]))]
  · rw [hself _ b (by simp) hkey]
    congr 1
    refine foldl_seen_of_ne (k := k) key view (fun s b hb => hother s b (by simp [hb])) ?_ s
    intro b' hb' heq
    exact hfront _ (List.mem_map_of_mem hb') _ List.mem_cons_self (heq.trans hkey.symm)
  · intro b' hb' heq
    exact hback (List.mem_map.mpr ⟨b', hb', heq.trans hkey.symm⟩)

/-! Counting entries. -/

/-- The entry of a key, and the others. -/
theorem countP_erase_add (h : m.lookup k = some v) (p : κ × α → Bool) :
    (pairs (m.erase k)).countP p + (p (k, v)).toNat = (pairs m).countP p := by
  have hmem : ⟨k, v⟩ ∈ m.entries := AList.mem_lookup_iff.mp (Option.mem_def.mpr h)
  obtain ⟨o, front, back, -, hkey, hentries, herase⟩ :=
    List.exists_of_eraseP (p := fun o : Sigma fun _ : κ => α => decide (k = o.1)) hmem (by simp)
  have ho : o = ⟨k, v⟩ := by
    have hin : o ∈ m.entries := by
      rw [hentries]
      exact List.mem_append_right _ List.mem_cons_self
    obtain ⟨key, value⟩ := o
    obtain rfl : k = key := by simpa using hkey
    have hvalue : m.lookup k = some value := Option.mem_def.mp (AList.mem_lookup_iff.mpr hin)
    obtain rfl := Option.some.inj (h.symm.trans hvalue)
    rfl
  have hrest : (m.erase k).entries = front ++ back := herase
  rw [pairs, pairs, hrest, hentries, ho]
  simp only [List.map_append, List.map_cons, List.countP_append, List.countP_cons]
  cases p (k, v) with
  | false => simp
  | true =>
      simp
      omega

omit [DecidableEq κ] in
theorem len_eq_countP (m : GoMap κ α) : len m = (pairs m).countP fun _ => true := by
  simp [len]

theorem pairs_erase_of_none (h : m.lookup k = none) : pairs (m.erase k) = pairs m := by
  have hnot : k ∉ m.keys := AList.lookup_eq_none.mp h
  have hentries : (m.erase k).entries = m.entries := List.kerase_of_notMem_keys hnot
  rw [pairs, pairs, hentries]

omit [DecidableEq κ] in
/-- A map that only has one key has at most one entry. -/
theorem len_le_one (h : ∀ key ∈ m, key = k) : len m ≤ 1 := by
  have hlen : len m = m.keys.length := by simp [len, pairs, AList.keys, List.keys]
  have hall : ∀ key ∈ m.keys, key = k := fun key hkey => h key (AList.mem_keys.mpr hkey)
  have hnodup := m.keys_nodup
  rw [hlen]
  cases hkeys : m.keys with
  | nil => simp
  | cons first rest =>
      cases rest with
      | nil => simp
      | cons second rest =>
          rw [hkeys] at hall hnodup
          have heq : first = second := (hall first (by simp)).trans (hall second (by simp)).symm
          simp [heq] at hnodup

theorem mem_of_mem_eraseAll {keys : List κ} (h : k ∈ eraseAll m keys) : k ∈ m := by
  rw [← AList.lookup_isSome, lookup_eraseAll] at h
  split_ifs at h
  · cases h
  · exact AList.lookup_isSome.mp h

/-- A written entry counts for itself. -/
theorem countP_insert (m : GoMap κ α) (k : κ) (v : α) (p : κ × α → Bool) :
    (pairs (m.insert k v)).countP p = (pairs (m.erase k)).countP p + (p (k, v)).toNat := by
  have hentries : (m.insert k v).entries = ⟨k, v⟩ :: (m.erase k).entries := rfl
  rw [pairs, pairs, hentries, List.map_cons, List.countP_cons]
  cases p (k, v) <;> rfl

theorem len_erase_add (h : m.lookup k = some v) : len (m.erase k) + 1 = len m := by
  have hcount := countP_erase_add h fun _ => true
  simpa [len_eq_countP] using hcount

theorem len_erase_le (m : GoMap κ α) (k : κ) : len (m.erase k) ≤ len m := by
  cases h : m.lookup k with
  | none => rw [len, len, pairs_erase_of_none h]
  | some v =>
      rw [← len_erase_add h]
      exact Nat.le_succ _

theorem len_insert (m : GoMap κ α) (k : κ) (v : α) : len (m.insert k v) = len (m.erase k) + 1 := by
  simpa [len_eq_countP] using countP_insert m k v fun _ => true

theorem len_eraseAll_le (m : GoMap κ α) (keys : List κ) : len (eraseAll m keys) ≤ len m := by
  induction keys generalizing m with
  | nil => exact Nat.le_refl _
  | cons key keys ih =>
      rw [eraseAll, List.foldl_cons, ← eraseAll]
      exact Nat.le_trans (ih _) (len_erase_le m key)

end GoMap

/-! ### Any order of `range`

`Ranges` gives an order for the maps of every kind of value, for code that ranges over several. -/

/-- An order in which `range` goes through the entries of a map. -/
structure Range (κ α : Type) where
  order : GoMap κ α → List (κ × α)
  perm : ∀ m, (order m).Perm (GoMap.pairs m)

namespace Range

variable {κ α : Type} (range : Range κ α) {m : GoMap κ α} {k : κ} {v : α}

/-- The order in which a map lists its entries. -/
def listed (κ α : Type) : Range κ α := ⟨GoMap.pairs, fun _ => .refl _⟩

theorem nodup (m : GoMap κ α) : ((range.order m).map Prod.fst).Nodup :=
  ((range.perm m).map Prod.fst).nodup_iff.mpr (GoMap.nodup_keys_pairs m)

@[simp] theorem mem_order [DecidableEq κ] : (k, v) ∈ range.order m ↔ m.lookup k = some v := by
  rw [(range.perm m).mem_iff, GoMap.mem_pairs]

@[simp] theorem length_order (m : GoMap κ α) : (range.order m).length = GoMap.len m :=
  (range.perm m).length_eq

end Range

abbrev Ranges (κ : Type) := ∀ α : Type, Range κ α

def Ranges.listed (κ : Type) : Ranges κ := Range.listed κ

end Quicgate.GoMaps
