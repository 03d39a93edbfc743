import Quicgate.Routing

/-!
# Docker labels and manual routing

Hosts that come from Docker labels are placed after the hosts of the database,
and a name that the database is configured with is not theirs to take, served
or not.  A table is read entry by entry here: `entry` has one place for every
configured name, wildcards included, and placing a name writes that place only
(`entry_placeName`).

The result, `lookup_eq_manual_iff`, says when a request for a configured name finds the
same route with and without the Docker hosts.  It always does but in one case: a
name whose hosts are all disabled, under a wildcard that only a container has.
`disabled_name_taken` is that case.
-/

namespace Quicgate.Routing

open Quicgate.GoMaps Quicgate.GoStrings Quicgate.GoNet

/-! ### Names -/

/-- A wildcard name is its own parent's wildcard. -/
theorem parentName_starName (key : String) : parentName (starName key) = some key := by
  simp [parentName, starName, cut]

/-! ### One entry

A table has an entry for exact names and one for wildcards; a configured name says which it is. -/

theorem entry_starName (t : RoutingTable) (key : String) :
    t.entry (starName key) = t.wildcard.lookup key := by
  simp [RoutingTable.entry]

/-- The table with the entry of one name written. -/
def RoutingTable.put (t : RoutingTable) (d : String) (r : Route) : RoutingTable :=
  match wildcardKey d with
  | some key => { t with wildcard := t.wildcard.insert key r }
  | none => { t with exact := t.exact.insert d r }

theorem entry_put_self (t : RoutingTable) (d : String) (r : Route) :
    (t.put d r).entry d = some r := by
  unfold RoutingTable.put RoutingTable.entry
  cases hkey : wildcardKey d with
  | some key => simp
  | none => simp

theorem entry_put_of_ne (t : RoutingTable) {d d' : String} (r : Route) (hne : d' ≠ d) :
    (t.put d r).entry d' = t.entry d' := by
  unfold RoutingTable.put RoutingTable.entry
  cases hkey : wildcardKey d with
  | some key =>
      cases hkey' : wildcardKey d' with
      | some key' =>
          have hkeys : key' ≠ key := by
            intro heq
            apply hne
            rw [wildcardKey_eq_some hkey, wildcardKey_eq_some hkey', heq]
          simp [AList.lookup_insert_ne hkeys]
      | none => rfl
  | none =>
      cases hkey' : wildcardKey d' with
      | some key' => rfl
      | none => simp [AList.lookup_insert_ne hne]

/-- Placing a name writes its entry, unless it comes from Docker and is taken. -/
theorem placeName_eq (hosts : List Host) (fromDocker : Bool) (r : Route) (t : RoutingTable)
    (d : String) :
    placeName hosts fromDocker r t d =
      if fromDocker && (configured hosts d || (t.entry d).isSome) then t else t.put d r := by
  unfold placeName RoutingTable.put RoutingTable.entry
  cases fromDocker <;> cases configured hosts d <;> cases wildcardKey d <;> simp

/-! ### All names

The placing of all hosts is one fold over their names.  For the database the last host with a name
wins, for Docker the first one, and only where nothing was. -/

/-- The names that are placed, with their routes, in order. -/
def placements (placed : List Host) : List (Route × String) :=
  placed.flatMap fun h => if h.enabled then h.domains.map fun d => (⟨h⟩, d) else []

theorem mem_placements {placed : List Host} {d : String} :
    (∃ r, (r, d) ∈ placements placed) ↔ ∃ h ∈ placed, h.enabled = true ∧ d ∈ h.domains := by
  simp only [placements, List.mem_flatMap]
  constructor
  · rintro ⟨r, h, hh, hmem⟩
    split at hmem
    · rename_i henabled
      obtain ⟨d', hd', heq⟩ := List.mem_map.mp hmem
      obtain rfl : d' = d := congrArg Prod.snd heq
      exact ⟨h, hh, henabled, hd'⟩
    · simp at hmem
  · rintro ⟨h, hh, henabled, hd⟩
    exact ⟨⟨h⟩, h, hh, by simpa [henabled] using hd⟩

theorem foldl_place_eq (hosts : List Host) (fromDocker : Bool) (placed : List Host)
    (t : RoutingTable) :
    placed.foldl (place hosts fromDocker) t =
      (placements placed).foldl (fun t x => placeName hosts fromDocker x.1 t x.2) t := by
  induction placed generalizing t with
  | nil => rfl
  | cons h rest ih =>
      rw [List.foldl_cons, ih]
      unfold place
      by_cases henabled : h.enabled = true
      · simp [placements, henabled, List.foldl_append, List.foldl_map]
      · simp [placements, henabled]

/-- What placing a list of names leaves in one entry: for the database something, when
the name is among them; for Docker what was there, or something where nothing was. -/
theorem entry_foldl_manual {hosts : List Host} {names : List (Route × String)} {t : RoutingTable}
    {d : String} :
    ((names.foldl (fun t x => placeName hosts false x.1 t x.2) t).entry d).isSome =
      ((t.entry d).isSome || names.any fun x => x.2 == d) := by
  induction names generalizing t with
  | nil => simp
  | cons x rest ih =>
      rw [List.foldl_cons, ih, placeName_eq, Bool.false_and, if_neg Bool.false_ne_true,
        List.any_cons]
      by_cases hd : d = x.2
      · rw [hd, entry_put_self]
        simp
      · have hx : (x.2 == d) = false := beq_eq_false_iff_ne.mpr (Ne.symm hd)
        rw [entry_put_of_ne t x.1 hd, hx, Bool.false_or]

theorem entry_foldl_docker_of_taken {hosts : List Host} {names : List (Route × String)}
    {t : RoutingTable} {d : String} (h : configured hosts d = true ∨ (t.entry d).isSome = true) :
    (names.foldl (fun t x => placeName hosts true x.1 t x.2) t).entry d = t.entry d := by
  induction names generalizing t with
  | nil => rfl
  | cons x rest ih =>
      have hsame : (placeName hosts true x.1 t x.2).entry d = t.entry d := by
        rw [placeName_eq]
        split
        · rfl
        · rename_i hfree
          by_cases hd : d = x.2
          · subst hd
            rcases h with h | h <;> simp [h] at hfree
          · exact entry_put_of_ne t x.1 hd
      rw [List.foldl_cons, ih (by rwa [hsame]), hsame]

theorem entry_foldl_docker_of_free {hosts : List Host} {names : List (Route × String)}
    {t : RoutingTable} {d : String} (hconf : configured hosts d = false)
    (hfree : t.entry d = none) :
    ((names.foldl (fun t x => placeName hosts true x.1 t x.2) t).entry d).isSome =
      names.any fun x => x.2 == d := by
  induction names generalizing t with
  | nil => simp [hfree]
  | cons x rest ih =>
      rw [List.foldl_cons, List.any_cons]
      by_cases hd : d = x.2
      · have hput : (placeName hosts true x.1 t x.2).entry d = some x.1 := by
          rw [placeName_eq, ← hd, hconf, hfree]
          simp [entry_put_self]
        rw [entry_foldl_docker_of_taken (Or.inr (by rw [hput]; rfl)), hput, hd]
        simp
      · have hsame : (placeName hosts true x.1 t x.2).entry d = none := by
          rw [placeName_eq]
          split
          · exact hfree
          · rw [entry_put_of_ne t x.1 hd, hfree]
        have hx : (x.2 == d) = false := beq_eq_false_iff_ne.mpr (Ne.symm hd)
        rw [ih hsame, hx, Bool.false_or]

/-! ### Lookups

A lookup asks for two entries, that of the name and that of the wildcard above it, so the result
is a comparison of two pairs of entries. -/

def Lists (hosts : List Host) (d : String) : Prop := ∃ h ∈ hosts, d ∈ h.domains

def Serves (hosts : List Host) (d : String) : Prop := ∃ h ∈ hosts, h.enabled = true ∧ d ∈ h.domains

section Tables

variable {hosts docker : List Host} {d name par : String}

theorem configured_of_lists (h : Lists hosts d) : configured hosts d = true := by
  obtain ⟨m, hm, hd⟩ := h
  simp only [configured, List.any_eq_true]
  exact ⟨m, hm, d, hd, by simp⟩

theorem configured_of_parent (hkey : wildcardKey d = none) (hpar : parentName d = some par)
    (h : Lists hosts (starName par)) : configured hosts d = true := by
  obtain ⟨m, hm, hd⟩ := h
  simp only [configured, List.any_eq_true]
  exact ⟨m, hm, starName par, hd, by simp [hkey, hpar]⟩

/-- A wildcard is configured only by its own name. -/
theorem configured_starName :
    configured hosts (starName par) = true ↔ Lists hosts (starName par) := by
  constructor
  · intro h
    simp only [configured, List.any_eq_true] at h
    obtain ⟨m, hm, md, hmd, heq⟩ := h
    have hname : md = starName par := by simpa using heq
    exact ⟨m, hm, hname ▸ hmd⟩
  · exact configured_of_lists

theorem any_placements_iff {placed : List Host} :
    ((placements placed).any fun x => x.2 == d) = true ↔ Serves placed d := by
  rw [Serves, ← mem_placements, List.any_eq_true]
  constructor
  · rintro ⟨⟨r, d'⟩, hmem, heq⟩
    obtain rfl : d' = d := by simpa using heq
    exact ⟨r, hmem⟩
  · rintro ⟨r, hmem⟩
    exact ⟨(r, d), hmem, by simp⟩

theorem isSome_entry_manual : ((buildTable hosts []).entry d).isSome = true ↔ Serves hosts d := by
  rw [← any_placements_iff, buildTable, List.foldl_nil, foldl_place_eq, entry_foldl_manual]
  simp [RoutingTable.entry]
  cases wildcardKey d <;> simp

theorem entry_eq_manual (h : configured hosts d = true) :
    (buildTable hosts docker).entry d = (buildTable hosts []).entry d := by
  rw [buildTable, foldl_place_eq hosts true]
  exact entry_foldl_docker_of_taken (Or.inl h)

theorem isSome_entry_of_not_lists (hlists : ¬ Lists hosts (starName par)) :
    ((buildTable hosts docker).entry (starName par)).isSome = true ↔
    Serves docker (starName par) := by
  have hnone : (buildTable hosts []).entry (starName par) = none := by
    rw [← Option.not_isSome_iff_eq_none, isSome_entry_manual]
    rintro ⟨m, hm, _, hd⟩
    exact hlists ⟨m, hm, hd⟩
  have hconf : configured hosts (starName par) = false := by
    rw [← Bool.not_eq_true, configured_starName]
    exact hlists
  rw [← any_placements_iff, buildTable, foldl_place_eq hosts true]
  exact Iff.of_eq (congrArg (· = true) (entry_foldl_docker_of_free hconf hnone))

theorem exact_lookup_eq (hkey : wildcardKey name = none) (t : RoutingTable) :
    t.exact.lookup name = t.entry name := by
  simp [RoutingTable.entry, hkey]

theorem exact_lookup_wildcard {t : RoutingTable} (ht : Wf t) {key : String}
    (hkey : wildcardKey name = some key) : t.exact.lookup name = none := by
  by_contra hne
  obtain ⟨r, hr⟩ := Option.ne_none_iff_exists'.mp hne
  have hnone := (ht.exact name r hr).2
  simp [hkey] at hnone

/-! ### What a lookup finds

A name that the database is configured with has an entry of its own, or a wildcard above it
has one.  The cases of the result are which of the two are there and whether a Docker host
could add the other. -/

/-- What a lookup finds, entry by entry. -/
theorem find_eq (hosts docker : List Host) (name : String) :
    (buildTable hosts docker).find name =
      ((if (wildcardKey name).isSome then none else (buildTable hosts docker).entry name).or
        ((parentName name).bind fun par => (buildTable hosts docker).entry (starName par))) := by
  unfold RoutingTable.find
  simp only [entry_starName]
  cases hkey : wildcardKey name with
  | some key =>
      rw [exact_lookup_wildcard (wf_buildTable hosts docker) hkey]
      simp
  | none =>
      rw [exact_lookup_eq hkey]
      cases (buildTable hosts docker).entry name <;> simp

/-- Under a configured wildcard nothing changes. -/
theorem find_eq_of_lists_parent (hpar : parentName name = some par)
    (h : Lists hosts (starName par)) :
    (buildTable hosts docker).find name = (buildTable hosts []).find name := by
  rw [find_eq hosts docker, find_eq hosts [], hpar]
  simp only [Option.bind_some]
  rw [entry_eq_manual (configured_of_lists h)]
  cases hkey : wildcardKey name with
  | some key => rfl
  | none => rw [entry_eq_manual (configured_of_parent hkey hpar h)]

/-- A configured name under a wildcard that is not: its own entry does not change, and
Docker can only add the wildcard. -/
theorem find_eq_iff_of_not_lists_parent (hname : Lists hosts name)
    (hpar : ∀ par, parentName name = some par → ¬ Lists hosts (starName par)) :
    (buildTable hosts docker).find name = (buildTable hosts []).find name ↔
      Serves hosts name ∨ ∀ par, parentName name = some par → ¬ Serves docker (starName par) := by
  have hkey : wildcardKey name = none := by
    by_contra hne
    obtain ⟨key, hkey⟩ := Option.ne_none_iff_exists'.mp hne
    have heq := wildcardKey_eq_some hkey
    subst heq
    exact hpar key (parentName_starName key) hname
  rw [find_eq hosts docker, find_eq hosts [], hkey, entry_eq_manual (configured_of_lists hname)]
  simp only [Option.isSome_none, Bool.false_eq_true, if_false]
  by_cases hserves : Serves hosts name
  · obtain ⟨r, hr⟩ := Option.isSome_iff_exists.mp (isSome_entry_manual.mpr hserves)
    simp [hr, hserves]
  · have hnone : (buildTable hosts []).entry name = none := by
      rw [← Option.not_isSome_iff_eq_none, isSome_entry_manual]
      exact hserves
    cases hparent : parentName name with
    | none => simp
    | some par =>
        have hlists := hpar par hparent
        have hmanual : (buildTable hosts []).entry (starName par) = none := by
          rw [← Option.not_isSome_iff_eq_none, isSome_entry_of_not_lists hlists]
          rintro ⟨m, hm, _⟩
          simp at hm
        simp only [hnone, Option.none_or, Option.bind_some, hmanual, hserves, false_or,
          Option.some.injEq, forall_eq']
        rw [← Option.not_isSome_iff_eq_none, isSome_entry_of_not_lists hlists]

/-- **Docker labels and manual routing.**  For a Host header or SNI whose name the database
is configured with, itself or by the wildcard that covers it, the lookup returns the same
route with the Docker hosts as without them, exactly when an enabled database host has the
name, the database has the wildcard, or no enabled Docker host has it. -/
theorem lookup_eq_manual_iff (table : CaseTable) (hosts docker : List Host) (s : String)
    (hconf : Lists hosts (routeName table s) ∨
      ∃ par, parentName (routeName table s) = some par ∧ Lists hosts (starName par)) :
    (buildTable hosts docker).lookup table s = (buildTable hosts []).lookup table s ↔
      Serves hosts (routeName table s) ∨
        ∀ par, parentName (routeName table s) = some par →
          Lists hosts (starName par) ∨ ¬ Serves docker (starName par) := by
  unfold RoutingTable.lookup
  generalize routeName table s = name at hconf ⊢
  by_cases hcovered : ∃ par, parentName name = some par ∧ Lists hosts (starName par)
  · obtain ⟨par, hpar, hlists⟩ := hcovered
    constructor
    · intro _
      right
      intro par' hpar'
      obtain rfl : par = par' := Option.some.inj (hpar.symm.trans hpar')
      exact Or.inl hlists
    · intro _
      exact find_eq_of_lists_parent hpar hlists
  · have hnot : ∀ par, parentName name = some par → ¬ Lists hosts (starName par) :=
      fun par hpar hlists => hcovered ⟨par, hpar, hlists⟩
    rw [find_eq_iff_of_not_lists_parent (hconf.resolve_right hcovered) hnot]
    constructor
    · rintro (hserves | hfree)
      · exact Or.inl hserves
      · exact Or.inr fun par hpar => Or.inr (hfree par hpar)
    · rintro (hserves | hfree)
      · exact Or.inl hserves
      · exact Or.inr fun par hpar => (hfree par hpar).resolve_left (hnot par hpar)

end Tables

def oneName (d : String) (enabled : Bool) (hname : IsName d) : Host where
  domains := [d]
  enabled := enabled
  vpnOnly := false
  names := by
    intro d' hd'
    rw [List.mem_singleton.mp hd']
    exact hname

/-- A container's exact name under a manual wildcard is not taken. -/
theorem lookup_eq_manual_api :
    (buildTable [oneName "*.wild.test" true (by decide)]
      [oneName "api.wild.test" true (by decide)]).lookup
        ⟨id, id⟩ "api.wild.test:443" =
      (buildTable [oneName "*.wild.test" true (by decide)] []).lookup ⟨id, id⟩
        "api.wild.test:443" := by
  refine (lookup_eq_manual_iff _ _ _ _ (Or.inr ⟨"wild.test", by decide, ?_⟩)).mpr (Or.inr ?_)
  · exact ⟨_, List.mem_cons_self, List.mem_cons_self⟩
  · intro par hpar
    obtain rfl : "wild.test" = par := by
      have hname : parentName (routeName ⟨id, id⟩ "api.wild.test:443") =
        some "wild.test" := by decide
      exact Option.some.inj (hname.symm.trans hpar)
    exact Or.inl ⟨_, List.mem_cons_self, List.mem_cons_self⟩

/-- A container's wildcard serves the name of a disabled manual host. -/
theorem disabled_name_taken :
    Lists [oneName "off.test.example" false (by decide)] (routeName ⟨id, id⟩ "off.test.example") ∧
      (buildTable [oneName "off.test.example" false (by decide)]
        [oneName "*.test.example" true (by decide)]).lookup ⟨id, id⟩ "off.test.example" ≠
      (buildTable [oneName "off.test.example" false (by decide)] []).lookup ⟨id, id⟩
        "off.test.example" := by
  constructor
  · exact ⟨_, List.mem_cons_self, by decide⟩
  · decide

end Quicgate.Routing
