import Quicgate.ImportGates
import Quicgate.StoredRows

/-!
# Importing a document again

`Import` says of itself that importing the same document twice leaves the configuration
as the first import did.  `import_again_iff` says for which documents: the entries of a
document match one another as well as what is stored, the guard against lost protection
compares the paths of a document as they were sent with those that were stored, and a
stream is checked against the ports that later entries of the document moved to.

`import_idempotent_iff` says the same of the import as a transaction, refusals included.
`import_blank_path_refused_again` is a document whose second import is refused, for a blank in
front of a path.
-/

namespace Quicgate.Store

open Quicgate.GoStrings Quicgate.Access Quicgate.Checks Quicgate.Sql Quicgate.TransitionSystem

/-! ### What a document must be

Entries of one key are a list of bodies for one row.  What the first import left there is the
last of them, and the second import begins with the first. -/

/-- The users of the entry that come without a password are users of `last`. -/
def BlankUsersIn (last e : Int × AccessListInput) : Prop :=
  ∀ u ∈ e.2.users, u.password = "" → trim u.username ∈ last.2.users.map fun u => trim u.username

instance (last e : Int × AccessListInput) : Decidable (BlankUsersIn last e) :=
  inferInstanceAs (Decidable (∀ u ∈ e.2.users, u.password = "" → _))

/-- The host with the paths of its rules as they are stored. -/
def Host.pathsTrimmed (h : Host) : Host :=
  { h with options := { h.options with
      authRules := h.options.authRules.map fun r => { r with path := trim r.path } } }

/-- The stream takes up no port of a key that comes up after it, as the last entry of
that key wants it. -/
def LeavesPorts (seen : List String) (st : Stream) (rest : List Stream) : Prop :=
  ∀ o ∈ rest, streamKey o ≠ streamKey st → streamKey o ∉ seen →
    ∀ last ∈ lastUnder streamKey (streamKey o) rest, st.clashes last = false

instance (seen : List String) (st : Stream) (rest : List Stream) :
    Decidable (LeavesPorts seen st rest) :=
  inferInstanceAs (Decidable (∀ o ∈ rest, _ → _ → ∀ last ∈ lastUnder streamKey _ rest, _))

/-- The documents that can be imported again. The first list of a name takes the hashes
of users without a password from the last one; what the last host of a key protects,
with its paths as they are stored, each host of that key protects; and so with streams,
which in addition leave the ports of later keys alone. -/
structure Repeatable (lib : Lib) (doc : ImportDoc) : Prop where
  lists : EachEntry (fun e => trim e.2.name)
    (fun seen e last _ => trim e.2.name ∉ seen → BlankUsersIn last e) [] doc.accessLists
  hosts : EachEntry (fun h => domainKey lib h.domains)
    (fun _ h last _ => protectionRemoved last.pathsTrimmed h = "") [] doc.hosts
  streams : EachEntry streamKey
    (fun seen st last rest => ¬ (last.restricted = true ∧ st.restricted = false) ∧
      LeavesPorts seen st rest) [] (doc.streams.map (·.bound []))

/-! ### What an import leaves

Two configurations are compared row by row, up to the salts of hashes. -/

def SamePassword (lib : Lib) (hash hash' : String) : Prop :=
  ∃ salt salt' password, hash = lib.bcrypt salt password ∧ hash' = lib.bcrypt salt' password

/-- A user written again. The hash is that of the same password, or the one that the
list had in the end. -/
structure UserAgain (lib : Lib) (last : List AccessUser) (u u' : AccessUser) : Prop where
  username : u'.username = u.username
  hashed : u'.hash ≠ ""
  hash : SamePassword lib u.hash u'.hash ∨ u'.hash = prevHash last u.username

/-- What an entry left the first time and the second time, the list being `last` in the
end the first time. -/
structure ListAgain (lib : Lib) (last list list' : AccessList) : Prop where
  fields : { list' with users := list.users } = list
  users : List.Forall₂ (UserAgain lib last.users) list.users list'.users
  nodup : (last.users.map (·.username)).Nodup

def SameUser (lib : Lib) (u u' : AccessUser) : Prop :=
  u'.username = u.username ∧ (u'.hash = u.hash ∨ SamePassword lib u.hash u'.hash)

structure SameList (lib : Lib) (a a' : AccessList) : Prop where
  fields : { a' with users := a.users } = a
  users : List.Forall₂ (SameUser lib) a.users a'.users

structure SameConfig (lib : Lib) (db db' : Db) : Prop where
  lists : List.Forall₂ (fun row row' => row'.1 = row.1 ∧ SameList lib row.2 row'.2)
    db.accessLists.rows db'.accessLists.rows
  hosts : db'.hosts.rows = db.hosts.rows
  streams : db'.streams.rows = db.streams.rows

/-! ### Access lists again

A user without a password keeps the hash of the list that is there. -/

section Lists

variable {lib : Lib} {salt salt' : Nat → Salt} {prev prev' last : List AccessUser} {i : Nat}
  {seen : List String} {us : List UserInput} {users users' : List AccessUser}

theorem usernames_of_validateUsers (h : validateUsers lib salt prev i seen us = .ok users) :
    users.map (·.username) = us.map fun u => trim u.username := by
  induction us generalizing i seen users with
  | nil =>
      obtain rfl := Except.ok.inj h
      rfl
  | cons u rest ih =>
      obtain ⟨-, -, hash, rest', -, hrest, rfl⟩ := validateUsers_cons.mp h
      simp [ih hrest]

theorem prevHash_cons (u : AccessUser) (name : String) :
    prevHash (users ++ [u]) name = if u.username = name then u.hash else prevHash users name := by
  simp only [prevHash, List.reverse_append, List.reverse_cons, List.reverse_nil, List.nil_append,
    List.cons_append, List.find?_cons]
  by_cases hname : u.username = name
  · simp [hname]
  · simp [hname, beq_eq_false_iff_ne.mpr hname]

theorem prevHash_ne_empty_iff (h : ∀ u ∈ users, u.hash ≠ "") (name : String) :
    prevHash users name ≠ "" ↔ name ∈ users.map (·.username) := by
  induction users using List.reverseRecOn with
  | nil => simp [prevHash]
  | append_singleton users u ih =>
      rw [List.forall_mem_append] at h
      rw [prevHash_cons, List.map_append, List.mem_append, ← ih h.1]
      by_cases hname : u.username = name
      · simpa [hname] using h.2 u (by simp)
      · simp [hname, Ne.symm hname]

/-- What users that were written again had before. -/
theorem prevHash_again (h : List.Forall₂ (UserAgain lib last) users users') (name : String)
    (hsome : prevHash users name ≠ "") : prevHash users' name ≠ "" ∧
      (SamePassword lib (prevHash users name) (prevHash users' name) ∨
        prevHash users' name = prevHash last name) := by
  have hrev := List.forall₂_reverse_iff.mpr h
  unfold prevHash at hsome ⊢
  generalize users.reverse = back, users'.reverse = back' at hrev hsome ⊢
  induction hrev with
  | nil => simp at hsome
  | @cons u u' _ _ hu _ ih =>
      by_cases hname : u.username = name
      · have hname' : u'.username = name := hu.username.trans hname
        have hhash := hu.hash
        rw [hname] at hhash
        simpa [hname, hname', prevHash] using ⟨hu.hashed, hhash⟩
      · have hname' : u'.username ≠ name := fun heq => hname (hu.username.symm.trans heq)
        have hfirst : (u.username == name) = false := beq_eq_false_iff_ne.mpr hname
        have hfirst' : (u'.username == name) = false := beq_eq_false_iff_ne.mpr hname'
        simp only [List.find?_cons, hfirst, hfirst'] at hsome ⊢
        exact ih hsome

/-- Users that passed pass again if those without a password have a hash. -/
theorem exists_validateUsers_iff (salt' : Nat → Salt) (prev' : List AccessUser)
    (h : validateUsers lib salt prev i seen us = .ok users) :
    (∃ users', validateUsers lib salt' prev' i seen us = .ok users') ↔
      ∀ u ∈ us, u.password = "" → prevHash prev' (trim u.username) ≠ "" := by
  induction us generalizing i seen users with
  | nil => exact ⟨by simp, fun _ => ⟨[], rfl⟩⟩
  | cons u rest ih =>
      obtain ⟨hname, hseen, hash, rest', hhash, hrest, rfl⟩ := validateUsers_cons.mp h
      have hturn : (∃ hash', userHash lib (salt' i) prev' u = .ok hash') ↔
          (u.password = "" → prevHash prev' (trim u.username) ≠ "") := by
        unfold userHash at hhash ⊢
        by_cases hpassword : u.password = ""
        · by_cases hprev : prevHash prev' (trim u.username) = ""
          · simp [hpassword, hprev]
          · simp [hpassword, hprev]
        · simp only [hpassword, ne_eq, not_false_eq_true, if_true] at hhash ⊢
          unfold generateFromPassword at hhash ⊢
          split_ifs at hhash with hlong
          simp [hlong]
      rw [List.forall_mem_cons, ← hturn, ← ih hrest]
      constructor
      · rintro ⟨users', husers'⟩
        obtain ⟨-, -, hash', tail', hhash', htail', -⟩ := validateUsers_cons.mp husers'
        exact ⟨⟨hash', hhash'⟩, tail', htail'⟩
      · rintro ⟨⟨hash', hhash'⟩, tail', htail'⟩
        exact ⟨_, validateUsers_cons.mpr ⟨hname, hseen, hash', tail', hhash', htail', rfl⟩⟩

/-- The users of the two times. -/
theorem validateUsers_again (h : validateUsers lib salt prev i seen us = .ok users)
    (h' : validateUsers lib salt' prev' i seen us = .ok users')
    (hprev : ∀ name, prevHash prev name ≠ "" →
      SamePassword lib (prevHash prev name) (prevHash prev' name) ∨
        prevHash prev' name = prevHash last name) :
    List.Forall₂ (UserAgain lib last) users users' := by
  induction us generalizing i seen users users' with
  | nil =>
      obtain rfl := Except.ok.inj h
      obtain rfl := Except.ok.inj h'
      exact .nil
  | cons u rest ih =>
      obtain ⟨-, -, hash, tail, hhash, htail, rfl⟩ := validateUsers_cons.mp h
      obtain ⟨-, -, hash', tail', hhash', htail', rfl⟩ := validateUsers_cons.mp h'
      refine .cons ⟨rfl, userHash_ne_empty hhash', ?_⟩ (ih htail htail')
      unfold userHash generateFromPassword at hhash hhash'
      split_ifs at hhash with hpassword hlong hkept
      · rw [if_pos hpassword, if_neg hlong] at hhash'
        exact Or.inl ⟨_, _, _, (Except.ok.inj hhash).symm, (Except.ok.inj hhash').symm⟩
      · rw [if_neg hpassword] at hhash'
        split_ifs at hhash'
        obtain rfl := Except.ok.inj hhash
        obtain rfl := Except.ok.inj hhash'
        exact hprev _ hkept

end Lists

section ListKind

variable {lib : Lib} {db db' : Db} {salt salt' : Nat → Nat → Salt}

def usersOf (prev : Option AccessList) : List AccessUser := (prev.map (·.users)).getD []

/-- A list that was written passes again, over a row that has the hashes it needs. -/
theorem exists_next_iff {n : Nat} {prev : Option AccessList} {x v : AccessList}
    {e : Int × AccessListInput}
    (h : ∀ ref : Ref, (∀ id, ref ≠ .list id) → db'.resolves ref = db.resolves ref)
    (hv : (listUpsert lib).Next (db, salt) n prev e v) :
    (∃ v', (listUpsert lib).Next (db', salt') n (some x) e v') ↔
      ∀ u ∈ e.2.users, u.password = "" → prevHash x.users (trim u.username) ≠ "" := by
  obtain ⟨hvalid, hrefs⟩ := hv
  obtain ⟨rules, users, hname, hsatisfy, hsome, hrules, husers, rfl⟩ := validate_eq_ok.mp hvalid
  rw [← exists_validateUsers_iff (salt' n) x.users husers]
  constructor
  · rintro ⟨v', hvalid', -⟩
    obtain ⟨_, users', -, -, -, -, husers', -⟩ := validate_eq_ok.mp hvalid'
    exact ⟨users', husers'⟩
  · rintro ⟨users', husers'⟩
    refine ⟨_, validate_eq_ok.mpr ⟨rules, users', hname, hsatisfy, hsome, hrules, husers', rfl⟩, ?_⟩
    intro ref href
    rw [h ref]
    · exact hrefs ref href
    · rintro id rfl
      exact list_not_mem_listRefs href

theorem listAgain_of_next {n : Nat} {prev prev' : Option AccessList} {last v v' : AccessList}
    {e : Int × AccessListInput} (hnodup : (last.users.map (·.username)).Nodup)
    (hv : (listUpsert lib).Next (db, salt) n prev e v)
    (hv' : (listUpsert lib).Next (db', salt') n prev' e v')
    (hprev : ∀ name, prevHash (usersOf prev) name ≠ "" →
      SamePassword lib (prevHash (usersOf prev) name) (prevHash (usersOf prev') name) ∨
        prevHash (usersOf prev') name = prevHash last.users name) :
    ListAgain lib last v v' := by
  obtain ⟨rules, users, -, -, -, hrules, husers, rfl⟩ := validate_eq_ok.mp hv.1
  obtain ⟨rules', users', -, -, -, hrules', husers', rfl⟩ := validate_eq_ok.mp hv'.1
  obtain rfl := Except.ok.inj (hrules.symm.trans hrules')
  exact ⟨rfl, validateUsers_again husers husers' hprev, hnodup⟩

/-- The users of a list that was written. -/
theorem users_of_next {n : Nat} {prev : Option AccessList} {v : AccessList}
    {e : Int × AccessListInput} (hv : (listUpsert lib).Next (db, salt) n prev e v) :
    v.users.map (·.username) = e.2.users.map (fun u => trim u.username) ∧
      (∀ u ∈ v.users, u.hash ≠ "") ∧ (v.users.map (·.username)).Nodup := by
  obtain ⟨rules, users, -, -, -, -, husers, rfl⟩ := validate_eq_ok.mp hv.1
  obtain ⟨hall, hnodup⟩ := validateUsers_normal husers
  exact ⟨usernames_of_validateUsers husers, fun u hu => (hall u hu).2.2.2, hnodup⟩

theorem lists_again (h : ∀ ref : Ref, (∀ id, ref ≠ .list id) → db'.resolves ref = db.resolves ref) :
    (listUpsert lib).Again (db, salt) (db', salt') (fun _ _ => True) BlankUsersIn
    (ListAgain lib) := by
  refine ⟨?_, ?_, ?_, ?_, ?_⟩
  · intro m n p q last e w v _ hv
    obtain ⟨-, -, -, -, hsome, -⟩ := validate_eq_ok.mp hv.1
    exact ⟨fun _ => trivial, fun _ hopens => hsome hopens.2⟩
  · intro m n p q last e w v hw hv
    obtain ⟨hnames, hhashes, -⟩ := users_of_next hw
    rw [exists_next_iff h hv]
    simp only [prevHash_ne_empty_iff hhashes, hnames, BlankUsersIn]
  · intro m n p q last e w v v' hw hv hv'
    obtain ⟨-, -, hnodup⟩ := users_of_next hw
    exact listAgain_of_next hnodup hv hv' fun name _ => Or.inr rfl
  · intro n e w x x' v hrel hv
    rw [exists_next_iff h hv]
    intro u hu hblank
    -- the first time the row had a hash for the user
    obtain ⟨rules, users, -, -, -, -, husers, -⟩ := validate_eq_ok.mp hv.1
    have hall := (exists_validateUsers_iff _ _ husers).mp ⟨users, husers⟩
    exact (prevHash_again hrel.users _ (hall u hu hblank)).1
  · intro n e w x x' v v' hrel hv hv'
    exact listAgain_of_next hrel.nodup hv hv' fun name hsome =>
      (prevHash_again hrel.users name hsome).2

/-- A list that was written again is as it was, but for the salts. -/
theorem ListAgain.same {list list' : AccessList} (h : ListAgain lib list list list') :
    SameList lib list list' := by
  refine ⟨h.fields, ?_⟩
  have hmembers : List.Forall₂ (fun u u' => u ∈ list.users ∧ UserAgain lib list.users u u')
      list.users list'.users :=
    (List.forall₂_and_left _ _).mpr ⟨fun u hu => hu, h.users⟩
  refine hmembers.imp ?_
  rintro u u' ⟨hu, hagain⟩
  refine ⟨hagain.username, ?_⟩
  rcases hagain.hash with hsame | hkept
  · exact Or.inr hsame
  · rw [prevHash_of_nodup h.nodup hu] at hkept
    exact Or.inl hkept

end ListKind

/-! ### Hosts and streams again

What was stored is what validation made of an entry, so a second entry of the key is compared
with normal forms. -/

section Kinds

variable {lib : Lib} {db db' : Db}

theorem protectionKept_trimmed {last kept e : Host} (h : HostKept lib last kept) :
    ProtectionKept kept e ↔ ProtectionKept last.pathsTrimmed e := by
  have hmode : kept.certMode = "none" ↔ last.certMode = "none" := by
    rw [h.certMode]
    by_cases hempty : last.certMode = ""
    · rw [if_pos hempty, hempty]
      decide
    · rw [if_neg hempty]
  have hrules : (∀ rule ∈ kept.options.authRules, rule.mode ≠ "public" →
      ∃ n ∈ e.options.authRules, n.path = rule.path ∧ n.exact = rule.exact ∧ n.mode ≠ "public") ↔
      ∀ rule ∈ last.pathsTrimmed.options.authRules, rule.mode ≠ "public" →
        ∃ n ∈ e.options.authRules, n.path = rule.path ∧ n.exact = rule.exact ∧
          n.mode ≠ "public" := by
    simp only [Host.pathsTrimmed, List.forall_mem_map]
    constructor
    · intro hall rule hrule
      obtain ⟨rule', hrule', hkept⟩ := exists_of_forall₂_left h.options.authRules hrule
      simpa only [hkept.path, hkept.exact, hkept.mode] using hall rule' hrule'
    · intro hall rule' hrule'
      obtain ⟨rule, hrule, hkept⟩ := exists_of_forall₂_right h.options.authRules hrule'
      simpa only [hkept.path, hkept.exact, hkept.mode] using hall rule hrule
  constructor
  · intro hp
    refine ⟨?_, ?_, ?_, ?_, ?_, ?_, ?_, ?_, ?_, hrules.mp hp.authRules⟩
    · exact h.accessListID ▸ hp.accessListID
    · exact h.options.oidc ▸ hp.oidc
    · exact h.options.forwardAuth ▸ hp.forwardAuth
    · exact h.options.clientCert ▸ hp.clientCert
    · exact h.options.clientCertMode ▸ hp.clientCertMode
    · exact h.options.vpnOnly ▸ hp.vpnOnly
    · exact fun hnone => hmode.mp (hp.certMode hnone)
    · exact h.forceSSL ▸ hp.forceSSL
    · exact h.options.minTLSVersion ▸ hp.minTLSVersion
  · intro hp
    refine ⟨?_, ?_, ?_, ?_, ?_, ?_, ?_, ?_, ?_, hrules.mpr hp.authRules⟩
    · exact h.accessListID ▸ hp.accessListID
    · exact h.options.oidc ▸ hp.oidc
    · exact h.options.forwardAuth ▸ hp.forwardAuth
    · exact h.options.clientCert ▸ hp.clientCert
    · exact h.options.clientCertMode ▸ hp.clientCertMode
    · exact h.options.vpnOnly ▸ hp.vpnOnly
    · exact fun hnone => hmode.mpr (hp.certMode hnone)
    · exact h.forceSSL ▸ hp.forceSSL
    · exact h.options.minTLSVersion ▸ hp.minTLSVersion

theorem hosts_again (h : db'.resolves = db.resolves) :
    (hostUpsert lib).Again db db' (fun last e => protectionRemoved last.pathsTrimmed e = "")
      (fun _ _ => True) (fun _ v v' => v' = v) := by
  have hnext : ∀ {m n : Nat} {p q : Option Host} {e v : Host},
      (hostUpsert lib).Next db m p e v → (hostUpsert lib).Next db' n q e v := by
    rintro m n p q e v ⟨hvalid, hrefs, hnodup⟩
    exact ⟨hvalid, (checkHostRefs_congr h v).trans hrefs, hnodup⟩
  have hunique : ∀ {m n : Nat} {p q : Option Host} {e v v' : Host},
      (hostUpsert lib).Next db m p e v → (hostUpsert lib).Next db' n q e v' → v' = v := by
    rintro m n p q e v v' ⟨hvalid, -⟩ ⟨hvalid', -⟩
    exact Except.ok.inj (hvalid'.symm.trans hvalid)
  refine ⟨?_, ?_, ?_, ?_, ?_⟩
  · rintro m n p q last e w v ⟨hvalid, -⟩ -
    simp only [hostUpsert, protectionRemoved_eq_empty]
    exact protectionKept_trimmed (Host.validate_kept hvalid)
  · intro m n p q last e w v _ hv
    exact ⟨fun _ => trivial, fun _ => ⟨v, hnext hv⟩⟩
  · exact fun _ hv hv' => hunique hv hv'
  · exact fun _ hv => ⟨_, hnext hv⟩
  · exact fun _ hv hv' => hunique hv hv'

theorem restricted_kept {st st' : Stream} (h : StreamKept st st') :
    st'.restricted = st.restricted := by
  have hcidrs : (st'.allowedCIDRs = []) ↔ (st.allowedCIDRs = []) := by
    rw [← List.length_eq_zero_iff, h.allowedCIDRs, List.length_eq_zero_iff]
  simp only [Stream.restricted, h.accessListID, ne_eq, hcidrs]

theorem streams_again {reserved : List Int} (h : db'.resolves = db.resolves) :
    (streamUpsert lib reserved).Again db db'
      (fun last st => ¬ (last.restricted = true ∧ st.restricted = false)) (fun _ _ => True)
      (fun _ v v' => v' = v) := by
  have hnext : ∀ {m n : Nat} {p q : Option Stream} {st v : Stream},
      (streamUpsert lib reserved).Next db m p st v →
        (streamUpsert lib reserved).Next db' n q st v := by
    rintro m n p q st v ⟨hproto, hfields, hrefs⟩
    exact ⟨hproto, hfields, h ▸ hrefs⟩
  have hunique : ∀ {m n : Nat} {p q : Option Stream} {st v v' : Stream},
      (streamUpsert lib reserved).Next db m p st v →
      (streamUpsert lib reserved).Next db' n q st v' → v' = v := by
    rintro m n p q st v v' ⟨-, hfields, -⟩ ⟨-, hfields', -⟩
    exact Except.ok.inj (hfields'.symm.trans hfields)
  refine ⟨?_, ?_, ?_, ?_, ?_⟩
  · rintro m n p q last st w v ⟨-, hfields, -⟩ -
    simp only [streamUpsert, restricted_kept (Stream.checkFields_eq_ok hfields).2]
  · intro m n p q last st w v _ hv
    exact ⟨fun _ => trivial, fun _ => ⟨v, hnext hv⟩⟩
  · exact fun _ hv hv' => hunique hv hv'
  · exact fun _ hv => ⟨_, hnext hv⟩
  · exact fun _ hv hv' => hunique hv hv'

end Kinds

/-! ### References are bound the same way

The lists of a document get the same ids the second time. -/

section Bound

variable {lib : Lib} (docLists : List (Int × Int))

theorem isSome_rebind (ref : Option Int) : (rebind docLists ref).isSome = ref.isSome := by
  simp [rebind]

/-- The guard does not look at which list a host or a rule names. -/
theorem protectionKept_bound {cur next : Host} :
    ProtectionKept (cur.bound docLists).pathsTrimmed (next.bound docLists) ↔
      ProtectionKept cur.pathsTrimmed next := by
  have hrules :
    (∀ rule ∈ (cur.bound docLists).pathsTrimmed.options.authRules, rule.mode ≠ "public" →
      ∃ n ∈ (next.bound docLists).options.authRules,
        n.path = rule.path ∧ n.exact = rule.exact ∧ n.mode ≠ "public") ↔
      ∀ rule ∈ cur.pathsTrimmed.options.authRules, rule.mode ≠ "public" →
        ∃ n ∈ next.options.authRules, n.path = rule.path ∧ n.exact = rule.exact ∧
          n.mode ≠ "public" := by
    simp [Host.bound, Host.pathsTrimmed, AuthRule.bound]
  have hlist : ((cur.bound docLists).accessListID.isSome = true →
      (next.bound docLists).accessListID.isSome = true) ↔
      (cur.accessListID.isSome = true → next.accessListID.isSome = true) := by
    simp only [Host.bound, isSome_rebind]
  constructor
  · intro h
    exact ⟨hlist.mp h.accessListID, h.oidc, h.forwardAuth, h.clientCert, h.clientCertMode,
      h.vpnOnly,
      h.certMode, h.forceSSL, h.minTLSVersion, hrules.mp h.authRules⟩
  · intro h
    exact ⟨hlist.mpr h.accessListID, h.oidc, h.forwardAuth, h.clientCert, h.clientCertMode,
      h.vpnOnly,
      h.certMode, h.forceSSL, h.minTLSVersion, hrules.mpr h.authRules⟩

/-- The stream with its access list bound. -/
def Stream.rebound (st : Stream) : Stream :=
  { st with accessListID := rebind docLists st.accessListID }

theorem Stream.bound_eq (st : Stream) : st.bound docLists = (st.bound []).rebound docLists := by
  simp [Stream.bound, Stream.rebound, rebind]

theorem restricted_rebound (st : Stream) : (st.rebound docLists).restricted = st.restricted := by
  unfold Stream.restricted Stream.rebound
  rw [isSome_rebind]

end Bound

/-! ### Which documents repeat

`Upsert`'s condition on the entries, kind by kind, is `Repeatable`. -/

section Repeat

variable {lib : Lib} {db : Db} {docLists : List (Int × Int)}

theorem host_keyed {a b c : List String} (ha : (hostUpsert lib).Good a)
    (hb : (hostUpsert lib).Good b)
    (hkey : domainKey lib a = domainKey lib b) (happart : (hostUpsert lib).Apart a c) :
    (hostUpsert lib).Apart b c := by
  intro d hd
  have hsame := sortedNames_of_domainKey ha.1 hb.1 ha.2 hkey
  exact happart d (mem_sortedNames.mp (hsame ▸ mem_sortedNames.mpr hd))

theorem repeats_lists {lists : List (Int × AccessListInput)} :
    (listUpsert lib).Repeats (fun _ _ => True) BlankUsersIn [] lists ↔
      EachEntry (fun e : Int × AccessListInput => trim e.2.name)
        (fun seen e last _ => trim e.2.name ∉ seen → BlankUsersIn last e) [] lists := by
  refine EachEntry.congr ?_ []
  intro seen before e last rest _
  have hclear : (listUpsert lib).Clear seen e rest := by
    intro o _ hne _ d hd heq
    exact hne ((of_lastUnder hd).2.symm.trans heq.symm)
  exact ⟨fun h => h.2.1, fun h => ⟨trivial, h, hclear⟩⟩

theorem repeats_hosts {hosts : List Host} {s : Importing Host} (hgood : HostsNamed lib db)
    (h : importHosts lib db (hosts.map (·.bound docLists)) = .ok s) :
    (hostUpsert lib).Repeats (fun last e => protectionRemoved last.pathsTrimmed e = "")
    (fun _ _ => True)
        [] (hosts.map (·.bound docLists)) ↔
      EachEntry (fun h : Host => domainKey lib h.domains)
        (fun _ h last _ => protectionRemoved last.pathsTrimmed h = "") [] hosts := by
  have hrun := (runs_of_importHosts hgood h).1
  have hinv := (listing_hosts lib db).inv hgood 0 0
  have hguards : (hostUpsert lib).Repeats (fun last e => protectionRemoved last.pathsTrimmed e = "")
      (fun _ _ => True) [] (hosts.map (·.bound docLists)) ↔
      EachEntry (fun h : Host => domainKey lib h.domains)
        (fun _ h last _ => protectionRemoved last.pathsTrimmed h = "") []
        (hosts.map (·.bound docLists)) := by
    refine EachEntry.congr ?_ []
    intro seen before e last rest hsplit
    have hclear := hrun.clear hinv host_keyed hsplit seen
    exact ⟨fun h => h.1, fun h => ⟨h, fun _ => trivial, hclear⟩⟩
  rw [hguards, eachEntry_map]
  refine EachEntry.congr ?_ []
  intro seen before e last rest _
  rw [protectionRemoved_eq_empty, protectionRemoved_eq_empty]
  exact protectionKept_bound docLists

theorem repeats_streams {reserved : List Int} {streams : List Stream} :
    (streamUpsert lib reserved).Repeats
        (fun last st => ¬ (last.restricted = true ∧ st.restricted = false)) (fun _ _ => True) []
        (streams.map (·.bound docLists)) ↔
      EachEntry streamKey
        (fun seen st last rest => ¬ (last.restricted = true ∧ st.restricted = false) ∧
          LeavesPorts seen st rest) [] (streams.map (·.bound [])) := by
  have hbound : streams.map (·.bound docLists) =
      (streams.map (·.bound [])).map (Stream.rebound docLists) := by
    rw [List.map_map]
    exact List.map_congr_left fun st _ => st.bound_eq docLists
  rw [hbound, Upsert.Repeats, eachEntry_map]
  refine EachEntry.congr ?_ []
  intro seen before e last rest _
  have hclear : (streamUpsert lib reserved).Clear seen (e.rebound docLists)
      (rest.map (Stream.rebound docLists)) ↔ LeavesPorts seen e rest := by
    simp only [Upsert.Clear, LeavesPorts, List.forall_mem_map]
    refine forall₂_congr fun o _ => ?_
    have hlast : lastUnder streamKey (streamKey (o.rebound docLists))
        (rest.map (Stream.rebound docLists)) =
        (lastUnder streamKey (streamKey o) rest).map (Stream.rebound docLists) :=
      lastUnder_map streamKey (Stream.rebound docLists) _ rest
    rw [show (streamUpsert lib reserved).entryKey = streamKey from rfl, hlast]
    cases lastUnder streamKey (streamKey o) rest with
    | none => simp
    | some last =>
        simp only [Option.map_some, Option.mem_def, Option.some.injEq, forall_eq']
        exact Iff.rfl
  rw [hclear, restricted_rebound, restricted_rebound]
  exact ⟨fun h => ⟨h.1, h.2.2⟩, fun h => ⟨h.1, fun _ => trivial, h.2⟩⟩

end Repeat

/-! ### Each loop again

`replay_iff` for each of the three loops. -/

section Loops

variable {lib : Lib} {db db' : Db}

theorem importLists_again {salt : Nat → Nat → Salt} (salt' : Nat → Nat → Salt)
    {lists : List (Int × AccessListInput)} {s : Importing AccessList × List (Int × Int)}
    (h : importLists lib salt db lists = .ok s)
    (htable : db'.accessLists = s.1.db.accessLists)
    (hrefs : ∀ ref : Ref, (∀ id, ref ≠ .list id) → db'.resolves ref = db.resolves ref) :
    ((∃ s', importLists lib salt' db' lists = .ok s') ↔
      EachEntry (fun e : Int × AccessListInput => trim e.2.name)
        (fun seen e last _ => trim e.2.name ∉ seen → BlankUsersIn last e) [] lists) ∧
    ∀ s', importLists lib salt' db' lists = .ok s' →
      Upsert.Rewritten (ListAgain lib) db'.accessLists s'.1.db.accessLists ∧
        s'.1.tally.created = 0 ∧ s'.2 = s.2 := by
  have hrun := runs_of_importLists h
  have hgood : ∀ id w, db.accessLists.lookup id = some w → (listUpsert lib).Good w.name :=
    fun _ _ _ => trivial
  have hlist := listing_lists lib db
  have hlist' := listing_lists lib db'
  have hagain : (listUpsert lib).Again (db, salt) (db', salt') _ _ _ := lists_again hrefs
  have hloop : (s.1.loop (·.accessLists)).table = db'.accessLists := htable.symm
  have hreplay := Upsert.replay_iff hagain hgood hlist hrun (hloop ▸ hlist')
  rw [hloop, repeats_lists] at hreplay
  constructor
  · rw [← hreplay]
    constructor
    · rintro ⟨s', hs'⟩
      exact ⟨_, runs_of_importLists hs'⟩
    · rintro ⟨t', ht'⟩
      obtain ⟨s', hs', -⟩ := exists_importLists ht'
      exact ⟨s', hs'⟩
  · intro s' hs'
    have hrun' := runs_of_importLists hs'
    obtain ⟨hrows, hnone, hids⟩ :=
      Upsert.replay_rewritten hagain hgood hlist hrun (hloop ▸ hlist') (hloop ▸ hrun')
    rw [hloop] at hrows
    refine ⟨hrows, hnone, ?_⟩
    -- the lists of the document have the ids they had
    have hsome : ∀ e ∈ lists, ∃ id, (∃ cur, s.1.stored.lookup (trim e.2.name) = some (id, cur)) ∧
        ∃ cur, s'.1.stored.lookup (trim e.2.name) = some (id, cur) := by
      intro e he
      obtain ⟨id, cur, cur', hcur, hcur'⟩ := hids e he
      exact ⟨id, ⟨cur, hcur⟩, cur', hcur'⟩
    let idOf := fun k => ((s.1.stored.lookup k).map (·.1)).getD 0
    have hidOf : ∀ {e : Int × AccessListInput} {id},
        (∃ cur, s.1.stored.lookup (trim e.2.name) = some (id, cur)) →
          idOf (trim e.2.name) = id := by
      rintro e id ⟨cur, hcur⟩
      simp only [idOf, hcur]
      rfl
    rw [bound_of_importLists idOf h, bound_of_importLists idOf hs']
    · intro e he
      obtain ⟨id, hcur, hcur'⟩ := hsome e he
      rw [hidOf hcur]
      exact hcur'
    · intro e he
      obtain ⟨id, hcur, hcur'⟩ := hsome e he
      rw [hidOf hcur]
      exact hcur

theorem importHosts_again (db' : Db) {docLists : List (Int × Int)} {hosts : List Host}
    {s : Importing Host} (hgood : HostsNamed lib db)
    (h : importHosts lib db (hosts.map (·.bound docLists)) = .ok s)
    (htable : db'.hosts = s.db.hosts) (hrefs : db'.resolves = db.resolves) :
    ((∃ s', importHosts lib db' (hosts.map (·.bound docLists)) = .ok s') ↔
      EachEntry (fun h : Host => domainKey lib h.domains)
        (fun _ h last _ => protectionRemoved last.pathsTrimmed h = "") [] hosts) ∧
    ∀ s', importHosts lib db' (hosts.map (·.bound docLists)) = .ok s' →
      s'.db.hosts.rows = db'.hosts.rows ∧ s'.tally.created = 0 := by
  obtain ⟨hrun, hgood'⟩ := runs_of_importHosts hgood h
  have hgood' : HostsNamed lib db' := by
    unfold HostsNamed
    rw [htable]
    exact hgood'
  have hlist := listing_hosts lib db
  have hlist' := listing_hosts lib db'
  have hagain : (hostUpsert lib).Again db db' _ _ _ := hosts_again hrefs
  have hloop : (s.loop (·.hosts)).table = db'.hosts := htable.symm
  have hreplay := Upsert.replay_iff hagain hgood hlist hrun (hloop ▸ hlist')
  rw [hloop, repeats_hosts hgood h] at hreplay
  constructor
  · rw [← hreplay]
    constructor
    · rintro ⟨s', hs'⟩
      exact ⟨_, (runs_of_importHosts hgood' hs').1⟩
    · rintro ⟨t', ht'⟩
      obtain ⟨s', hs', -⟩ := exists_importHosts hgood' ht'
      exact ⟨s', hs'⟩
  · intro s' hs'
    have hrun' := (runs_of_importHosts hgood' hs').1
    obtain ⟨hrows, hnone, -⟩ :=
      Upsert.replay_rewritten hagain hgood hlist hrun (hloop ▸ hlist') (hloop ▸ hrun')
    rw [hloop] at hrows
    exact ⟨hrows.rows_eq fun v v' hv => hv, hnone⟩

theorem importStreams_again (db' : Db) {reserved : List Int} {docLists : List (Int × Int)}
    {streams : List Stream} {s : Importing Stream}
    (hgood : ∀ id st, db.streams.lookup id = some st → st.listenPort ≤ st.rangeEnd)
    (h : importStreams lib reserved db (streams.map (·.bound docLists)) = .ok s)
    (htable : db'.streams = s.db.streams) (hrefs : db'.resolves = db.resolves) :
    ((∃ s', importStreams lib reserved db' (streams.map (·.bound docLists)) = .ok s') ↔
      EachEntry streamKey
        (fun seen st last rest => ¬ (last.restricted = true ∧ st.restricted = false) ∧
          LeavesPorts seen st rest) [] (streams.map (·.bound []))) ∧
    ∀ s', importStreams lib reserved db' (streams.map (·.bound docLists)) = .ok s' →
      s'.db.streams.rows = db'.streams.rows ∧ s'.tally.created = 0 := by
  have hrun := runs_of_importStreams protocol_bound_ne_empty h
  have hlist := listing_streams lib reserved db
  have hlist' := listing_streams lib reserved db'
  have hagain : (streamUpsert lib reserved).Again db db' _ _ _ := streams_again hrefs
  have hloop : (s.loop (·.streams)).table = db'.streams := htable.symm
  have hreplay := Upsert.replay_iff hagain hgood hlist hrun (hloop ▸ hlist')
  rw [hloop, repeats_streams] at hreplay
  constructor
  · rw [← hreplay]
    constructor
    · rintro ⟨s', hs'⟩
      exact ⟨_, runs_of_importStreams protocol_bound_ne_empty hs'⟩
    · rintro ⟨t', ht'⟩
      obtain ⟨s', hs', -⟩ := exists_importStreams protocol_bound_ne_empty ht'
      exact ⟨s', hs'⟩
  · intro s' hs'
    have hrun' := runs_of_importStreams protocol_bound_ne_empty hs'
    obtain ⟨hrows, hnone, -⟩ :=
      Upsert.replay_rewritten hagain hgood hlist hrun (hloop ▸ hlist') (hloop ▸ hrun')
    rw [hloop] at hrows
    exact ⟨hrows.rows_eq fun v v' hv => hv, hnone⟩

end Loops

/-! ### The document again

The three loops one after the other: each begins where the first import ended, in all tables
that it reads. -/

section Document

variable {lib : Lib} {db db' : Db}

theorem SameList.refl (list : AccessList) : SameList lib list list :=
  ⟨rfl, List.forall₂_same.mpr fun _ _ => ⟨rfl, Or.inl rfl⟩⟩

/-- The tables that an import leaves alone. -/
structure SameOthers (db db' : Db) : Prop where
  certs : db'.certs = db.certs
  providers : db'.providers = db.providers
  sites : db'.sites = db.sites
  devices : db'.devices = db.devices

theorem SameOthers.resolves (h : SameOthers db db') {ref : Ref} (hlist : ∀ id, ref ≠ .list id) :
    db'.resolves ref = db.resolves ref := by
  cases ref with
  | list id => exact absurd rfl (hlist id)
  | cert id => simp only [Db.resolves, h.certs]
  | provider id => simp only [Db.resolves, h.providers]
  | site id => simp only [Db.resolves, h.sites]
  | device id => simp only [Db.resolves, h.devices]

theorem SameOthers.resolves_eq (h : SameOthers db db')
    (hlists : db'.accessLists.rows.map Prod.fst = db.accessLists.rows.map Prod.fst) :
    db'.resolves = db.resolves := by
  funext ref
  cases ref with
  | list id => exact Table.has_congr hlists
  | _ => exact h.resolves (by simp)

theorem resolves_of_importHosts {hosts : List Host} {s : Importing Host}
    (h : importHosts lib db hosts = .ok s) : s.db.resolves = db.resolves := by
  rw [importHosts_frame h]
  exact resolves_hosts db s.db.hosts

theorem importDoc_again {salt : Nat → Nat → Salt} {reserved : List Int} {doc : ImportDoc}
    {result : ImportResult} (salt' : Nat → Nat → Salt) (hdb : RowsChecked lib db)
    (h : importDoc lib salt reserved doc db = .ok (db', result)) :
    ((∃ db'' result', importDoc lib salt' reserved doc db' = .ok (db'', result')) ↔
      Repeatable lib doc) ∧
    ∀ db'' result', importDoc lib salt' reserved doc db' = .ok (db'', result') →
      result'.accessLists.created = 0 ∧ result'.hosts.created = 0 ∧ result'.streams.created = 0 ∧
        SameConfig lib db' db'' := by
  obtain ⟨lists, hosts, streams, hlists, hhosts, hstreams, rfl, -⟩ := importDoc_eq_ok.mp h
  have hframeL := importLists_frame hlists
  have hframeH := importHosts_frame hhosts
  have hframeS := importStreams_frame hstreams
  have hnamed : HostsNamed lib lists.1.db := by
    unfold HostsNamed
    rw [hframeL]
    exact hdb.hosts
  have hports : ∀ id st, hosts.db.streams.lookup id = some st → st.listenPort ≤ st.rangeEnd := by
    rw [hframeH, hframeL]
    exact hdb.streams
  have hothers : SameOthers db streams.db := by
    rw [hframeS, hframeH, hframeL]
    exact ⟨rfl, rfl, rfl, rfl⟩
  have hkept : streams.db.accessLists = lists.1.db.accessLists := by rw [hframeS, hframeH]
  obtain ⟨hrepeatL, hafterL⟩ := importLists_again salt' hlists hkept fun _ => hothers.resolves
  -- the hosts and streams of the second import find what those of the first found
  have hrefsH : ∀ {lists'}, importLists lib salt' streams.db doc.accessLists = .ok lists' →
      lists'.1.db.resolves = lists.1.db.resolves := by
    intro lists' hlists'
    have hrows := (hafterL lists' hlists').1
    refine SameOthers.resolves_eq ?_ ?_
    · rw [importLists_frame hlists', hframeS, hframeH]
      exact ⟨rfl, rfl, rfl, rfl⟩
    · rw [hrows.rowKeys, hkept]
  have hH : ∀ {lists'}, importLists lib salt' streams.db doc.accessLists = .ok lists' → _ :=
    fun {lists'} hlists' => importHosts_again lists'.1.db hnamed hhosts
      (by rw [importLists_frame hlists', hframeS]) (hrefsH hlists')
  have hS : ∀ {lists' hosts'}, importLists lib salt' streams.db doc.accessLists = .ok lists' →
      importHosts lib lists'.1.db (doc.hosts.map (·.bound lists.2)) = .ok hosts' → _ :=
    fun {lists' hosts'} hlists' hhosts' => importStreams_again hosts'.db hports hstreams
      (by rw [importHosts_frame hhosts', importLists_frame hlists'])
      (calc hosts'.db.resolves = lists'.1.db.resolves := resolves_of_importHosts hhosts'
        _ = lists.1.db.resolves := hrefsH hlists'
        _ = hosts.db.resolves := (resolves_of_importHosts hhosts).symm)
  constructor
  · constructor
    · rintro ⟨db'', result', h'⟩
      obtain ⟨lists', hosts', streams', hlists', hhosts', hstreams', -, -⟩ := importDoc_eq_ok.mp h'
      rw [(hafterL lists' hlists').2.2] at hhosts' hstreams'
      exact ⟨hrepeatL.mp ⟨lists', hlists'⟩, (hH hlists').1.mp ⟨hosts', hhosts'⟩,
        (hS hlists' hhosts').1.mp ⟨streams', hstreams'⟩⟩
    · intro hdoc
      obtain ⟨lists', hlists'⟩ := hrepeatL.mpr hdoc.lists
      obtain ⟨hosts', hhosts'⟩ := (hH hlists').1.mpr hdoc.hosts
      obtain ⟨streams', hstreams'⟩ := (hS hlists' hhosts').1.mpr hdoc.streams
      rw [← (hafterL lists' hlists').2.2] at hhosts' hstreams'
      exact ⟨_, _, importDoc_eq_ok.mpr
        ⟨lists', hosts', streams', hlists', hhosts', hstreams', rfl, rfl⟩⟩
  · intro db'' result' h'
    obtain ⟨lists', hosts', streams', hlists', hhosts', hstreams', rfl, rfl⟩ :=
      importDoc_eq_ok.mp h'
    obtain ⟨hrowsL, hnoneL, hids⟩ := hafterL lists' hlists'
    rw [hids] at hhosts' hstreams'
    obtain ⟨hrowsH, hnoneH⟩ := (hH hlists').2 hosts' hhosts'
    obtain ⟨hrowsS, hnoneS⟩ := (hS hlists' hhosts').2 streams' hstreams'
    have hframeH' := importHosts_frame hhosts'
    have hframeS' := importStreams_frame hstreams'
    refine ⟨hnoneL, hnoneH, hnoneS, ?_, ?_, ?_⟩
    · rw [hframeS', hframeH']
      refine hrowsL.forall₂.imp ?_
      rintro row row' ⟨hid, heq | hagain⟩
      · rw [heq]
        exact ⟨hid, SameList.refl _⟩
      · exact ⟨hid, hagain.same⟩
    · rw [hframeS', hrowsH, importLists_frame hlists']
    · rw [hrowsS, hframeH', importLists_frame hlists']

/-! ### Documents that can be imported again

The configuration before the first import is any that the API can come to, so its rows have
passed their checks; nothing is asked of it beyond that. -/

/-- A document that was imported into a configuration that the API, the deletes and other
imports made can be imported again exactly if it is repeatable; the second import
creates nothing and leaves everything as it was, ids included, but for the salts of
hashes. -/
theorem import_again_iff (lib : Lib) (reserved₀ : List Int) (labels : List Label) (s : State)
    (hrun : run (step lib reserved₀) (.start .empty) labels = some s)
    (salt salt' : Nat → Nat → Salt)
    (reserved : List Int) (doc : ImportDoc) (db : Db) (result : ImportResult)
    (himport : importDoc lib salt reserved doc s.db = .ok (db, result)) :
    ((∃ db' result', importDoc lib salt' reserved doc db = .ok (db', result')) ↔
      Repeatable lib doc) ∧
    ∀ db' result', importDoc lib salt' reserved doc db = .ok (db', result') →
      result'.accessLists.created = 0 ∧ result'.hosts.created = 0 ∧ result'.streams.created = 0 ∧
        SameConfig lib db db' :=
  importDoc_again salt' (rowsChecked_of_run hrun) himport

instance (lib : Lib) (doc : ImportDoc) : Decidable (Repeatable lib doc) :=
  decidable_of_iff (_ ∧ _ ∧ _)
    ⟨fun ⟨hlists, hhosts, hstreams⟩ => ⟨hlists, hhosts, hstreams⟩,
      fun h => ⟨h.lists, h.hosts, h.streams⟩⟩

def gatedDoc (path : String) : ImportDoc where
  accessLists := [(7, ⟨"office", "", false, [], [⟨"ops", "secret"⟩]⟩)]
  hosts := [{ deadHost "a.example" with options :=
    { Host.zero.options with authRules := [⟨path, false, "accessList", some 7, none, []⟩] } }]
  streams := [forwardOf 8080]

/-- The first import of `gatedDoc` succeeds, whatever blanks stand around its path. -/
theorem gatedDoc_imported (path : String) (hpath : path = "/admin" ∨ path = " /admin") :
    ∃ db result, importDoc asciiLib (fun _ _ => 1) [] (gatedDoc path) Db.empty =
      .ok (db, result) := by
  have hok : (importDoc asciiLib (fun _ _ => 1) [] (gatedDoc path) Db.empty).isOk = true := by
    rcases hpath with rfl | rfl <;> decide +kernel
  cases h : importDoc asciiLib (fun _ _ => 1) [] (gatedDoc path) Db.empty with
  | ok r => exact ⟨r.1, r.2, rfl⟩
  | error why =>
      rw [h] at hok
      cases hok

theorem import_again_gated :
    ∃ db result, importDoc asciiLib (fun _ _ => 1) [] (gatedDoc "/admin") Db.empty =
      .ok (db, result) ∧
      ((∃ db' result',
          importDoc asciiLib (fun _ _ => 2) [] (gatedDoc "/admin") db = .ok (db', result')) ↔
        Repeatable asciiLib (gatedDoc "/admin")) ∧
      ∃ db' result', importDoc asciiLib (fun _ _ => 2) [] (gatedDoc "/admin") db =
        .ok (db', result') ∧
        SameConfig asciiLib db db' := by
  obtain ⟨db, result, himport⟩ := gatedDoc_imported "/admin" (.inl rfl)
  have hagain :=
    import_again_iff asciiLib [] [] (.start .empty) rfl (fun _ _ => 1) (fun _ _ => 2) []
    (gatedDoc "/admin") db result himport
  obtain ⟨db', result', himport'⟩ := hagain.1.mpr (by decide +kernel)
  exact ⟨db, result, himport, hagain.1, db', result', himport',
    (hagain.2 db' result' himport').2.2.2⟩

/-- An import that succeeded makes no difference when it is made again, and creates nothing. -/
def TwiceTheSame (lib : Lib) (salt' : Nat → Nat → Salt) (reserved : List Int) (doc : ImportDoc)
    (db : Db) : Prop :=
  ∃ result', (importTx lib salt' reserved doc db).2 = .ok result' ∧
    result'.accessLists.created = 0 ∧ result'.hosts.created = 0 ∧ result'.streams.created = 0 ∧
      SameConfig lib db (importTx lib salt' reserved doc db).1

theorem importTx_of_ok {lib : Lib} {salt : Nat → Nat → Salt} {reserved : List Int} {doc : ImportDoc}
    {db db' : Db} {result : ImportResult}
    (h : importDoc lib salt reserved doc db = .ok (db', result)) :
    importTx lib salt reserved doc db = (db', .ok result) := by
  unfold importTx
  rw [h]

theorem importTx_of_error {lib : Lib} {salt : Nat → Nat → Salt} {reserved : List Int}
    {doc : ImportDoc}
    {db : Db} {why : String} (h : importDoc lib salt reserved doc db = .error why) :
    importTx lib salt reserved doc db = (db, .error why) := by
  unfold importTx
  rw [h]

theorem twiceTheSame_iff {lib : Lib} {salt salt' : Nat → Nat → Salt} {reserved : List Int}
    {doc : ImportDoc} {db db' : Db} {result : ImportResult} (hdb : RowsChecked lib db)
    (h : importDoc lib salt reserved doc db = .ok (db', result)) :
    TwiceTheSame lib salt' reserved doc db' ↔ Repeatable lib doc := by
  obtain ⟨hagain, hsame⟩ := importDoc_again salt' hdb h
  rw [← hagain]
  constructor
  · rintro ⟨result', hok, -⟩
    cases hsecond : importDoc lib salt' reserved doc db' with
    | ok second => exact ⟨second.1, second.2, rfl⟩
    | error why =>
        rw [importTx_of_error hsecond] at hok
        cases hok
  · rintro ⟨db'', result', hsecond⟩
    obtain ⟨hlists, hhosts, hstreams, hconfig⟩ := hsame db'' result' hsecond
    refine ⟨result', ?_, hlists, hhosts, hstreams, ?_⟩
    · rw [importTx_of_ok hsecond]
    · rw [importTx_of_ok hsecond]
      exact hconfig

/-- Importing from a configuration that the API can come to: a refusal leaves the database as it
was, and an import that succeeded is idempotent exactly if its document is repeatable. -/
theorem import_idempotent_iff (lib : Lib) (reserved₀ : List Int) (labels : List Label) (s : State)
    (hrun : run (step lib reserved₀) (.start .empty) labels = some s)
    (salt salt' : Nat → Nat → Salt) (reserved : List Int) (doc : ImportDoc) :
    (∀ why, (importTx lib salt reserved doc s.db).2 = .error why →
      (importTx lib salt reserved doc s.db).1 = s.db) ∧
    ∀ result, (importTx lib salt reserved doc s.db).2 = .ok result →
      (TwiceTheSame lib salt' reserved doc (importTx lib salt reserved doc s.db).1 ↔
        Repeatable lib doc) := by
  cases himport : importDoc lib salt reserved doc s.db with
  | error why =>
      rw [importTx_of_error himport]
      exact ⟨fun _ _ => rfl, fun _ hok => (nomatch hok)⟩
  | ok imported =>
      rw [importTx_of_ok himport]
      exact ⟨fun _ hrefused => (nomatch hrefused),
        fun _ _ => twiceTheSame_iff (rowsChecked_of_run hrun) himport⟩

/-- And a document whose path is no path writes its list, and is undone. -/
theorem import_idempotent_gated :
    TwiceTheSame asciiLib (fun _ _ => 2) [] (gatedDoc "/admin")
        (importTx asciiLib (fun _ _ => 1) [] (gatedDoc "/admin") Db.empty).1 ∧
      (importTx asciiLib (fun _ _ => 1) [] (gatedDoc "admin") Db.empty).1 = Db.empty := by
  have hboth := fun path => import_idempotent_iff asciiLib [] [] (.start .empty) rfl (fun _ _ => 1)
    (fun _ _ => 2) [] (gatedDoc path)
  obtain ⟨db, result, himport⟩ := gatedDoc_imported "/admin" (.inl rfl)
  have hok : (importTx asciiLib (fun _ _ => 1) [] (gatedDoc "/admin") Db.empty).2 = .ok result := by
    rw [importTx_of_ok himport]
  refine ⟨((hboth "/admin").2 result hok).mpr (by decide +kernel), ?_⟩
  have hrefused :
      (importTx asciiLib (fun _ _ => 1) [] (gatedDoc "admin") Db.empty).2.isOk = false := by
    decide +kernel
  cases hanswer : (importTx asciiLib (fun _ _ => 1) [] (gatedDoc "admin") Db.empty).2 with
  | ok result =>
      rw [hanswer] at hrefused
      cases hrefused
  | error why => exact (hboth "admin").1 why hanswer

/-- A blank before the path: the path is stored without it, and the guard of the second import
misses the rule that it stands in the way of. -/
theorem import_blank_path_refused_again :
    ¬ ∀ lib salt salt' reserved doc result,
      (importTx lib salt reserved doc Db.empty).2 = .ok result →
        TwiceTheSame lib salt' reserved doc (importTx lib salt reserved doc Db.empty).1 := by
  intro hall
  obtain ⟨db, result, himport⟩ := gatedDoc_imported " /admin" (.inr rfl)
  have htwice := hall asciiLib (fun _ _ => 1) (fun _ _ => 2) [] (gatedDoc " /admin") result
    (by rw [importTx_of_ok himport])
  have hrun : run (step asciiLib []) (.start .empty) [] = some (.start .empty) := rfl
  rw [importTx_of_ok himport, twiceTheSame_iff (rowsChecked_of_run hrun) himport] at htwice
  revert htwice
  decide +kernel

end Document

end Quicgate.Store
