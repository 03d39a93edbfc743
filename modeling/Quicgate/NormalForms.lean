import Quicgate.PathAuth
import Quicgate.StreamChecks

/-!
# Normal forms of what is validated

Validation brings access lists, path rules and gates to a normal form: texts are trimmed and
re-cased, and blank entries of lists are dropped.  What is in its normal form passes unchanged,
so validating twice is validating once.

An empty list means everything to the engine: a rule without methods matches every method, and
a gate without addresses, domains or groups admits everybody who is logged in.  So a list whose
entries are all blank comes out wider than it was written.  `validation_keeps_iff` says that
this is the only way, and `blank_entries_open` shows it.
-/

namespace Quicgate.Store

open Quicgate.GoStrings Quicgate.GoNet Quicgate.Access Quicgate.Checks

/-! ### Case and blanks

Trimming and lowering commute and are done once, under what the Unicode tables have outside ASCII
(`LowersOnce`). -/

def lowerChar (table : CaseTable) (c : Char) : Char :=
  if c.toNat < 128 then c.toLower else table.lower c

/-- What the Unicode tables have outside ASCII: a lower-case letter is its own lower case, and a
letter and its lower case are both blank or both not. -/
structure LowersOnce (table : CaseTable) : Prop where
  twice : ∀ c, 128 ≤ c.toNat → lowerChar table (table.lower c) = table.lower c
  blank : ∀ c, 128 ≤ c.toNat → isSpace (table.lower c) = isSpace c

section Texts

variable {table : CaseTable}

theorem toLower_eq (s : String) :
    toLower table s = String.ofList (s.toList.map (lowerChar table)) :=
  rfl

theorem lowerChar_lowerChar (h : LowersOnce table) (c : Char) :
    lowerChar table (lowerChar table c) = lowerChar table c := by
  by_cases hc : c.toNat < 128
  · have hall : ∀ n < 128, (Char.ofNat n).toLower.toNat < 128 ∧
        (Char.ofNat n).toLower.toLower = (Char.ofNat n).toLower := by decide
    obtain ⟨hascii, hlower⟩ := hall c.toNat hc
    rw [Char.ofNat_toNat] at hascii hlower
    simp [lowerChar, hc, hascii, hlower]
  · have hlower : lowerChar table c = table.lower c := if_neg hc
    rw [hlower]
    exact h.twice c (Nat.not_lt.mp hc)

theorem isSpace_lowerChar (h : LowersOnce table) (c : Char) :
    isSpace (lowerChar table c) = isSpace c := by
  by_cases hc : c.toNat < 128
  · have hall : ∀ n < 128, isSpace (Char.ofNat n).toLower = isSpace (Char.ofNat n) := by decide
    have hspace := hall c.toNat hc
    rw [Char.ofNat_toNat] at hspace
    simpa [lowerChar, hc] using hspace
  · have hlower : lowerChar table c = table.lower c := if_neg hc
    rw [hlower]
    exact h.blank c (Nat.not_lt.mp hc)

theorem toLower_toLower (h : LowersOnce table) (s : String) :
    toLower table (toLower table s) = toLower table s := by
  simp [toLower_eq, Function.comp_def, lowerChar_lowerChar h]

/-- Blanks are taken off before or after the letters are lowered. -/
theorem trim_toLower (h : LowersOnce table) (s : String) :
    trim (toLower table s) = toLower table (trim s) := by
  have hspace : (isSpace ∘ lowerChar table) = isSpace := funext (isSpace_lowerChar h)
  simp only [trim, toLower_eq, String.toList_ofList, trimSpace, List.dropWhile_map, hspace,
    ← List.map_reverse]

/-- The normal form of a name that is compared without case. -/
theorem lower_trim_again (h : LowersOnce table) (s : String) :
    toLower table (trim (toLower table (trim s))) = toLower table (trim s) := by
  rw [trim_toLower h, trim_trim, toLower_toLower h]

theorem toLower_eq_empty {s : String} : toLower table s = "" ↔ s = "" := by
  rw [toLower_eq, ← String.toList_inj, ← String.toList_inj]
  simp

theorem toUpper_eq_empty {s : String} : toUpper table s = "" ↔ s = "" := by
  rw [toUpper, ← String.toList_inj, ← String.toList_inj]
  simp

/-- A text of ASCII capitals is its own normal form. -/
theorem normal_of_capitals {s : String} (h : ∀ c ∈ s.toList, 'A' ≤ c ∧ c ≤ 'Z') :
    trim s = s ∧ toUpper table s = s := by
  have hcapital : ∀ c ∈ s.toList, isSpace c = false ∧ c.toNat < 128 ∧ c.toUpper = c := by
    intro c hc
    have hall : ∀ n < 128, 65 ≤ n → n ≤ 90 →
        isSpace (Char.ofNat n) = false ∧ (Char.ofNat n).toUpper = Char.ofNat n := by decide
    have hlow : 65 ≤ c.toNat := UInt32.le_iff_toNat_le.mp (h c hc).1
    have hhigh : c.toNat ≤ 90 := UInt32.le_iff_toNat_le.mp (h c hc).2
    obtain ⟨hspace, hupper⟩ := hall c.toNat (by omega) hlow hhigh
    rw [Char.ofNat_toNat] at hspace hupper
    exact ⟨hspace, by omega, hupper⟩
  constructor
  · rw [trim, trimSpace_of_forall fun c hc => (hcapital c hc).1, String.ofList_toList]
  · have hmap : (s.toList.map fun c => if c.toNat < 128 then c.toUpper else table.upper c) =
        s.toList := by
      conv_rhs => rw [← List.map_id s.toList]
      apply List.map_congr_left
      intro c hc
      obtain ⟨-, hascii, hupper⟩ := hcapital c hc
      simp [hascii, hupper]
    rw [toUpper, hmap, String.ofList_toList]

theorem normal_of_method {m : String} (h : m ∈ validHTTPMethods) :
    trim m = m ∧ toUpper table m = m := by
  have hall : (validHTTPMethods.all fun m => m.toList.all fun c => 'A' ≤ c && c ≤ 'Z') = true := by
    decide
  apply normal_of_capitals
  intro c hc
  have hchar := List.all_eq_true.mp (List.all_eq_true.mp hall m h) c hc
  simpa using hchar

theorem normal_of_country {s : String} (h : isCountryCode s = true) :
    trim s = s ∧ toUpper table s = s := by
  apply normal_of_capitals
  intro c hc
  unfold isCountryCode at h
  have hchar := List.all_eq_true.mp (Bool.and_eq_true_iff.mp h).2 c hc
  simpa using hchar

end Texts

/-! ### Lists that pass again

Each entry of a kept list is its own normal form, and the loop over the entries keeps that. -/

/-- Entries whose checked form passes as it is make a list whose checked form does. -/
theorem each_again {α : Type} {f : Nat → α → Check α} {n : Nat} {as bs : List α}
    (h : each f n as = .ok bs) (hf : ∀ i j a b, f i a = .ok b → f j b = .ok b) :
    each f n bs = .ok bs := by
  induction as generalizing n bs with
  | nil =>
      obtain rfl := Except.ok.inj h
      rfl
  | cons a rest ih =>
      simp only [each, bind_eq_ok, pure_eq_ok] at h ⊢
      obtain ⟨b, hb, bs', hbs, rfl⟩ := h
      simp only [each, bind_eq_ok, pure_eq_ok]
      exact ⟨b, hf n n a b hb, bs', ih hbs, rfl⟩

section Idempotence

variable {lib : Lib}

theorem normalizeMethods_of_valid {place : String} {names : List String}
    (h : ∀ m ∈ names, m ∈ validHTTPMethods) : normalizeMethods lib place names = .ok names := by
  induction names with
  | nil => rfl
  | cons m rest ih =>
      have hm := h m List.mem_cons_self
      have hne : m ≠ "" := by
        rintro rfl
        exact absurd hm (by decide)
      rw [normalizeMethods, (@normal_of_method lib.caseTable m hm).1, (normal_of_method hm).2]
      simp only [hne, if_false, bind_eq_ok, refuseIf_eq_ok, pure_eq_ok, not_not]
      exact ⟨(), hm, rest, ih fun m hm => h m (List.mem_cons_of_mem _ hm), rfl⟩

theorem normalizeMethods_again {place place' : String} {methods names : List String}
    (h : normalizeMethods lib place methods = .ok names) :
    normalizeMethods lib place' names = .ok names :=
  normalizeMethods_of_valid (normalizeMethods_eq_ok h).2

theorem trim_empty : trim "" = "" := rfl

theorem validateSubject_again {identityOnly : Bool} {s s' : VPNSubject}
    (h : validateSubject lib identityOnly s = .ok s') :
    validateSubject lib identityOnly s' = .ok s' := by
  simp only [validateSubject] at h
  by_cases hplace : s.kind = "any" ∨ s.kind = "site" ∨ s.kind = "device"
  · simp only [if_pos hplace, bind_eq_ok, refuseIf_eq_ok, pure_eq_ok] at h
    obtain ⟨_, hpass, rfl⟩ := h
    simp only [validateSubject, if_pos hplace, trim_empty, bind_eq_ok, refuseIf_eq_ok, pure_eq_ok]
    exact ⟨(), hpass, trivial⟩
  rw [if_neg hplace] at h
  by_cases hpeer : s.kind = "peer"
  · simp only [if_pos hpeer, bind_eq_ok, refuseIf_eq_ok, pure_eq_ok] at h
    obtain ⟨_, hpass, _, hkind, rfl⟩ := h
    simp only [validateSubject, if_neg hplace, if_pos hpeer, trim_empty, trim_trim, bind_eq_ok,
      refuseIf_eq_ok, pure_eq_ok]
    exact ⟨(), hpass, (), hkind, trivial⟩
  rw [if_neg hpeer] at h
  by_cases huser : s.kind = "user"
  · simp only [if_pos huser, bind_eq_ok, refuseIf_eq_ok, pure_eq_ok] at h
    obtain ⟨_, hpass, rfl⟩ := h
    simp only [validateSubject, if_neg hplace, if_neg hpeer, if_pos huser, trim_empty, trim_trim,
      bind_eq_ok, refuseIf_eq_ok, pure_eq_ok]
    exact ⟨(), hpass, trivial⟩
  rw [if_neg huser] at h
  by_cases hgroup : s.kind = "group"
  · simp only [if_pos hgroup, bind_eq_ok, refuseIf_eq_ok, pure_eq_ok] at h
    obtain ⟨_, hpass, rfl⟩ := h
    simp only [validateSubject, if_neg hplace, if_neg hpeer, if_neg huser, if_pos hgroup,
      trim_empty,
      trim_trim, bind_eq_ok, refuseIf_eq_ok, pure_eq_ok]
    exact ⟨(), hpass, trivial⟩
  rw [if_neg hgroup] at h
  by_cases hany : s.kind = "any-user"
  · simp only [if_pos hany, bind_eq_ok, refuseIf_eq_ok, pure_eq_ok] at h
    obtain ⟨_, hpass, rfl⟩ := h
    simp only [validateSubject, if_neg hplace, if_neg hpeer, if_neg huser, if_neg hgroup,
      if_pos hany,
      trim_empty, bind_eq_ok, refuseIf_eq_ok, pure_eq_ok]
    exact ⟨(), hpass, trivial⟩
  · rw [if_neg hany] at h
    cases h

/-! ### Gates

An address or a domain is trimmed, lowered and without the at sign in front. -/

/-- `norm` of `OIDCAuth.validate`. -/
def normEntries (f : String → String) (values : List String) : List String :=
  (values.map f).filter (· ≠ "")

def bareName (lib : Lib) (v : String) : String := toLower lib.caseTable (trim v)

theorem normEntries_again {f : String → String} (hf : ∀ v, f (f v) = f v) (values : List String) :
    normEntries f (normEntries f values) = normEntries f values := by
  have hmap : (normEntries f values).map f = normEntries f values := by
    conv_rhs => rw [← List.map_id (normEntries f values)]
    apply List.map_congr_left
    intro v hv
    obtain ⟨v', -, rfl⟩ := List.mem_map.mp (List.mem_of_mem_filter hv)
    exact hf v'
  rw [normEntries, hmap, normEntries, List.filter_filter]
  simp

theorem normEntries_eq_nil {f : String → String} {values : List String} :
    normEntries f values = [] ↔ ∀ v ∈ values, f v = "" := by
  simp [normEntries, List.filter_eq_nil_iff]

theorem validateOIDC_eq_ok {o o' : OIDCAuth} : validateOIDC lib o = .ok o' ↔
    0 < o.providerID ∧
      (∀ d ∈ normEntries (bareName lib) o.allowedDomains,
        '@' ∉ d.toList ∧ ' ' ∉ d.toList) ∧
      o' = { o with
        allowedEmails := normEntries (bareName lib) o.allowedEmails
        allowedDomains := normEntries (bareName lib) o.allowedDomains
        allowedGroups := normEntries trim o.allowedGroups } := by
  simp only [validateOIDC, bind_eq_ok, refuseIf_eq_ok, pure_eq_ok, forEach_eq_ok, if_true,
    Bool.false_eq_true, if_false, not_or, normEntries, Int.not_le]
  constructor
  · rintro ⟨_, hprovider, _, hdomains, rfl⟩
    exact ⟨hprovider, hdomains, rfl⟩
  · rintro ⟨hprovider, hdomains, rfl⟩
    exact ⟨(), hprovider, (), hdomains, rfl⟩

theorem validateOIDC_again (hcase : LowersOnce lib.caseTable) {o o' : OIDCAuth}
    (h : validateOIDC lib o = .ok o') : validateOIDC lib o' = .ok o' := by
  obtain ⟨hprovider, hdomains, rfl⟩ := validateOIDC_eq_ok.mp h
  have hbare : ∀ v, bareName lib (bareName lib v) = bareName lib v := lower_trim_again hcase
  have hemails := normEntries_again hbare o.allowedEmails
  have hdomains' := normEntries_again hbare o.allowedDomains
  have hgroups := normEntries_again trim_trim o.allowedGroups
  apply validateOIDC_eq_ok.mpr
  refine ⟨hprovider, ?_, ?_⟩
  · rw [hdomains']
    exact hdomains
  · rw [hemails, hdomains', hgroups]

/-! ### Path rules

A mode decides which references of a rule stay, and what it leaves it leaves again. -/

theorem validateHostOIDC_again (hcase : LowersOnce lib.caseTable) {o o' : Option OIDCAuth}
    (h : validateHostOIDC lib o = .ok o') : validateHostOIDC lib o' = .ok o' := by
  cases o with
  | none =>
      obtain rfl := Except.ok.inj h
      rfl
  | some o =>
      simp only [validateHostOIDC, bind_eq_ok, pure_eq_ok] at h
      obtain ⟨o'', ho, rfl⟩ := h
      simp only [validateHostOIDC, bind_eq_ok, pure_eq_ok]
      exact ⟨o'', validateOIDC_again hcase ho, rfl⟩

/-- The references that a mode leaves are those it leaves again, whatever the methods. -/
theorem validateRuleMode_again (hcase : LowersOnce lib.caseTable) {o : Options} {i j : Nat}
    {r r' : AuthRule} (methods : List String) (h : validateRuleMode lib o i r = .ok r') :
    validateRuleMode lib o j { r' with methods } = .ok { r' with methods } := by
  unfold validateRuleMode at h
  by_cases hpublic : r.mode = "public"
  · rw [if_pos hpublic] at h
    obtain rfl := Except.ok.inj h
    simp only [validateRuleMode, if_pos hpublic]
  rw [if_neg hpublic] at h
  by_cases hforward : r.mode = "forwardAuth"
  · simp only [if_pos hforward, bind_eq_ok, refuseIf_eq_ok, pure_eq_ok] at h
    obtain ⟨_, hurl, rfl⟩ := h
    simp only [validateRuleMode, if_neg hpublic, if_pos hforward, bind_eq_ok, refuseIf_eq_ok,
      pure_eq_ok]
    exact ⟨(), hurl, trivial⟩
  rw [if_neg hforward] at h
  by_cases hoidc : r.mode = "oidc"
  · simp only [if_pos hoidc, bind_eq_ok, within_eq_ok, refuseIf_eq_ok, pure_eq_ok] at h
    obtain ⟨oidc, hvalid, _, hsome, rfl⟩ := h
    simp only [validateRuleMode, if_neg hpublic, if_neg hforward, if_pos hoidc, bind_eq_ok,
      within_eq_ok, refuseIf_eq_ok, pure_eq_ok]
    exact ⟨oidc, validateHostOIDC_again hcase hvalid, (), hsome, rfl⟩
  rw [if_neg hoidc] at h
  by_cases hlist : r.mode = "accessList"
  · simp only [if_pos hlist, bind_eq_ok, refuseIf_eq_ok, pure_eq_ok] at h
    obtain ⟨_, hid, rfl⟩ := h
    simp only [validateRuleMode, if_neg hpublic, if_neg hforward, if_neg hoidc, if_pos hlist,
      bind_eq_ok, refuseIf_eq_ok, pure_eq_ok]
    exact ⟨(), hid, trivial⟩
  · rw [if_neg hlist] at h
    cases h

theorem validateAuthRule_again (hcase : LowersOnce lib.caseTable) {o : Options} {i j : Nat}
    {r r' : AuthRule} (h : validateAuthRule lib o i r = .ok r') :
    validateAuthRule lib o j r' = .ok r' := by
  simp only [validateAuthRule, bind_eq_ok, refuseIf_eq_ok, pure_eq_ok] at h
  obtain ⟨_, hslash, r'', hmode, methods, hmethods, rfl⟩ := h
  obtain ⟨-, hsame, -⟩ := validateRuleMode_eq_ok hmode
  have hpath : r''.path = trim r.path := by rw [hsame]
  have hkept : trim r''.path = r''.path := by rw [hpath, trim_trim]
  simp only [validateAuthRule, hkept, bind_eq_ok, refuseIf_eq_ok, pure_eq_ok]
  refine ⟨(), ?_, _, validateRuleMode_again hcase methods hmode, methods,
    normalizeMethods_again hmethods, rfl⟩
  rw [hpath]
  exact hslash

/-! ### Access lists

A rule has one selector, so it is enough that each selector is kept by its own normal form. -/

/-- A suffix without blanks closes a trimmed text. -/
theorem trim_append {t suffix : String} (ht : trim t = t) (hne : suffix ≠ "")
    (hsuffix : ∀ c ∈ suffix.toList, isSpace c = false) : trim (t ++ suffix) = t ++ suffix := by
  have hlist : trimSpace t.toList = t.toList := by
    have h := congrArg String.toList ht
    rwa [trim, String.toList_ofList] at h
  have hfront : (t.toList ++ suffix.toList).dropWhile isSpace = t.toList ++ suffix.toList := by
    have hdrop := dropWhile_trimSpace t.toList
    rw [hlist] at hdrop
    cases hcases : t.toList with
    | nil =>
        cases hs : suffix.toList with
        | nil => exact absurd (String.toList_inj.mp hs) hne
        | cons c rest =>
            have hc := hsuffix c (by rw [hs]; exact List.mem_cons_self)
            rw [List.nil_append, List.dropWhile_cons_of_neg (by rw [hc]; exact Bool.false_ne_true)]
    | cons c rest =>
        rw [hcases] at hdrop
        by_cases hc : isSpace c = true
        · rw [List.dropWhile_cons_of_pos hc] at hdrop
          have hlen := congrArg List.length hdrop
          have hle := (List.dropWhile_sublist isSpace (l := rest)).length_le
          rw [List.length_cons] at hlen
          omega
        · rw [List.cons_append, List.dropWhile_cons_of_neg hc]
  have hback : (t.toList ++ suffix.toList).reverse.dropWhile isSpace =
      (t.toList ++ suffix.toList).reverse := by
    rw [List.reverse_append]
    cases hs : suffix.toList.reverse with
    | nil => exact absurd (String.toList_inj.mp (List.reverse_eq_nil_iff.mp hs)) hne
    | cons c rest =>
        have hmem : c ∈ suffix.toList := by
          rw [← List.mem_reverse, hs]
          exact List.mem_cons_self
        rw [List.cons_append,
          List.dropWhile_cons_of_neg (by rw [hsuffix c hmem]; exact Bool.false_ne_true)]
  rw [trim, String.toList_append, trimSpace, hfront, hback, List.reverse_reverse,
    String.ofList_append,
    String.ofList_toList, String.ofList_toList]

theorem trim_withMask (c : String) :
    trim (withMask c) = withMask c ∧ '/' ∈ (withMask c).toList := by
  have hsuffix : ∀ suffix ∈ ["/128", "/32"], trim (trim c ++ suffix) = trim c ++ suffix ∧
      '/' ∈ (trim c ++ suffix).toList := by
    intro suffix hmem
    have hplain : (suffix ≠ "" ∧ (suffix.toList.all fun c => !isSpace c) = true) ∧
        suffix.toList.contains '/' = true := by
      rcases List.mem_pair.mp hmem with rfl | rfl <;> decide
    refine ⟨trim_append (trim_trim c) hplain.1.1 ?_, ?_⟩
    · intro d hd
      simpa using List.all_eq_true.mp hplain.1.2 d hd
    · rw [String.toList_append]
      exact List.mem_append_right _ (List.contains_iff_mem.mp hplain.2)
  unfold withMask
  simp only
  split_ifs with hslash hcolon
  · exact ⟨trim_trim c, hslash⟩
  · exact hsuffix "/128" (by simp)
  · exact hsuffix "/32" (by simp)

theorem withMask_again (c : String) : withMask (withMask c) = withMask c := by
  obtain ⟨htrim, hslash⟩ := trim_withMask c
  conv_lhs => rw [withMask]
  simp only [htrim, if_pos hslash]

/-- What becomes of a selector that is given, and of one that is not. -/
def given (f : String → String) (s : String) : String := if s = "" then "" else f s

theorem given_again {f : String → String} {s : String} (hf : f (f s) = f s) :
    given f (given f s) = given f s := by
  unfold given
  by_cases hs : s = ""
  · rw [if_pos hs, if_pos rfl]
  · rw [if_neg hs]
    by_cases hblank : f s = ""
    · rw [if_pos hblank, hblank]
    · rw [if_neg hblank, hf]

theorem withMask_ne_empty (c : String) : withMask c ≠ "" := by
  intro heq
  have hslash := (trim_withMask c).2
  rw [heq] at hslash
  cases hslash

/-- A blank address is no network. -/
theorem trim_cidr_ne {c : String} (hc : c ≠ "") (h : ¬ (c ≠ "" ∧ normalizeCIDR c = none)) :
    trim c ≠ "" := by
  intro hblank
  apply h
  refine ⟨hc, ?_⟩
  have hmask : withMask c = "/32" := by
    rw [withMask]
    simp [hblank]
  have hnone : (parseCIDR "/32".toList).isSome = false := by decide
  rw [normalizeCIDR, hmask, hnone]
  simp

theorem trim_cidr_again {c : String} (h : ¬ (c ≠ "" ∧ normalizeCIDR c = none)) :
    trim (given withMask c) = "" ↔ trim c = "" := by
  by_cases hc : c = ""
  · rw [given, if_pos hc, hc]
  · rw [given, if_neg hc, (trim_withMask c).1]
    exact iff_of_false (withMask_ne_empty c) (trim_cidr_ne hc h)

theorem normalizeCIDR_again {c : String} (h : ¬ (c ≠ "" ∧ normalizeCIDR c = none)) :
    ¬ (given withMask c ≠ "" ∧ normalizeCIDR (given withMask c) = none) := by
  rintro ⟨hne, hnone⟩
  by_cases hc : c = ""
  · exact hne (if_pos hc)
  · rw [given, if_neg hc, normalizeCIDR, withMask_again] at hnone
    exact h ⟨hc, hnone⟩

theorem trim_host_again (hcase : LowersOnce lib.caseTable) (host : String) :
    trim (given (bareName lib) host) = "" ↔ trim host = "" := by
  by_cases hh : host = ""
  · rw [given, if_pos hh, hh]
  · rw [given, if_neg hh, bareName, trim_toLower hcase, trim_trim, toLower_eq_empty]

def capitals (lib : Lib) (s : String) : String := toUpper lib.caseTable (trim s)

theorem capitals_again {country : String}
    (h : ¬ (country ≠ "" ∧ isCountryCode (capitals lib country) = false)) :
    given (capitals lib) (given (capitals lib) country) = given (capitals lib) country ∧
      ¬ (given (capitals lib) country ≠ "" ∧
        isCountryCode (capitals lib (given (capitals lib) country)) = false) ∧
      (trim (given (capitals lib) country) = "" ↔ trim country = "") := by
  by_cases hc : country = ""
  · subst hc
    exact ⟨rfl, fun hne => hne.1 rfl, Iff.rfl⟩
  · have hcode : isCountryCode (capitals lib country) = true := by
      by_contra hnot
      exact h ⟨hc, Bool.not_eq_true _ ▸ hnot⟩
    have hfixed : capitals lib (capitals lib country) = capitals lib country := by
      obtain ⟨htrim, hupper⟩ := @normal_of_country lib.caseTable _ hcode
      conv_lhs => rw [capitals, htrim, hupper]
    have hne : capitals lib country ≠ "" := by
      intro hblank
      rw [hblank] at hcode
      exact absurd hcode (by decide)
    refine ⟨given_again hfixed, ?_, ?_⟩
    · rintro ⟨-, hnot⟩
      rw [given, if_neg hc, hfixed, hcode] at hnot
      cases hnot
    · rw [given, if_neg hc]
      constructor
      · intro hblank
        rw [← hfixed] at hne
        exact absurd (toUpper_eq_empty.mpr hblank) hne
      · intro hblank
        exact absurd (toUpper_eq_empty.mpr hblank) hne

theorem validateRule_eq_ok {i : Nat} {r r' : AccessRule} : validateRule lib i r = .ok r' ↔
    ∃ vpn methods, (r.action = "allow" ∨ r.action = "deny") ∧
      validateRuleSubject lib s!"rule {i}: " r.vpn = .ok vpn ∧
      [decide (trim r.cidr ≠ ""), decide (trim r.host ≠ ""), decide (trim r.country ≠ ""),
        r.vpn.isSome].count true = 1 ∧
      ¬ (r.cidr ≠ "" ∧ normalizeCIDR r.cidr = none) ∧
      ¬ (r.country ≠ "" ∧ isCountryCode (capitals lib r.country) = false) ∧
      normalizeMethods lib s!"rule {i}: " r.methods = .ok methods ∧
      r' = { r with
        cidr := given withMask r.cidr, host := given (bareName lib) r.host
        country := given (capitals lib) r.country, vpn, methods } := by
  simp only [validateRule, bind_eq_ok, refuseIf_eq_ok, pure_eq_ok]
  constructor
  · rintro ⟨_, haction, vpn, hvpn, _, hcount, _, hcidr, _, hcountry, methods, hmethods, rfl⟩
    refine ⟨vpn, methods, ?_, hvpn, not_not.mp hcount, hcidr, hcountry, hmethods, rfl⟩
    by_contra hneither
    exact haction (not_or.mp hneither)
  · rintro ⟨vpn, methods, haction, hvpn, hcount, hcidr, hcountry, hmethods, rfl⟩
    refine ⟨(), ?_, vpn, hvpn, (), not_not.mpr hcount, (), hcidr, (), hcountry, methods,
      hmethods, rfl⟩
    exact not_and_or.mpr (haction.imp not_not.mpr not_not.mpr)

theorem validateRuleSubject_again {place : String} (place' : String) {s s' : Option VPNSubject}
    (h : validateRuleSubject lib place s = .ok s') :
    validateRuleSubject lib place' s' = .ok s' ∧ s'.isSome = s.isSome := by
  cases s with
  | none =>
      obtain rfl := Except.ok.inj h
      exact ⟨rfl, rfl⟩
  | some s =>
      simp only [validateRuleSubject, bind_eq_ok, within_eq_ok, pure_eq_ok] at h
      obtain ⟨s'', hs, rfl⟩ := h
      refine ⟨?_, rfl⟩
      simp only [validateRuleSubject, bind_eq_ok, within_eq_ok, pure_eq_ok]
      exact ⟨s'', validateSubject_again hs, rfl⟩

theorem validateRule_again (hcase : LowersOnce lib.caseTable) {i j : Nat} {r r' : AccessRule}
    (h : validateRule lib i r = .ok r') : validateRule lib j r' = .ok r' := by
  obtain ⟨vpn, methods, haction, hvpn, hcount, hcidr, hcountry, hmethods, rfl⟩ :=
    validateRule_eq_ok.mp h
  obtain ⟨hvpn', hsome⟩ := validateRuleSubject_again s!"rule {j}: " hvpn
  obtain ⟨hcapitals, hcode, hblank⟩ := capitals_again hcountry
  have hhost : given (bareName lib) (given (bareName lib) r.host) = given (bareName lib) r.host :=
    given_again (lower_trim_again hcase r.host)
  have hmask : given withMask (given withMask r.cidr) = given withMask r.cidr :=
    given_again (withMask_again r.cidr)
  apply validateRule_eq_ok.mpr
  refine ⟨vpn, methods, haction, hvpn', ?_, normalizeCIDR_again hcidr, hcode,
    normalizeMethods_again hmethods, ?_⟩
  · have hcidr' := trim_cidr_again hcidr
    have hhost' := trim_host_again hcase r.host
    simp only [ne_eq, hcidr', hhost', hblank, hsome]
    exact hcount
  · rw [hcapitals, hhost, hmask]

/-! ### Users

A list is sent back without passwords, and an update takes the hashes from the stored list. -/

/-- The users as they are sent back: without their passwords. -/
def withoutPasswords (users : List AccessUser) : List UserInput :=
  users.map fun u => ⟨u.username, ""⟩

def userHash (lib : Lib) (salt : Salt) (prev : List AccessUser) (u : UserInput) : Check String :=
  if u.password ≠ "" then generateFromPassword lib salt u.password
  else if prevHash prev (trim u.username) ≠ "" then .ok (prevHash prev (trim u.username))
  else .error ("user " ++ lib.quote (trim u.username) ++ ": password is required")

theorem validateUsers_cons {salt : Nat → Salt} {prev : List AccessUser} {i : Nat}
    {seen : List String} {u : UserInput} {rest : List UserInput} {users : List AccessUser} :
    validateUsers lib salt prev i seen (u :: rest) = .ok users ↔
      trim u.username ≠ "" ∧ trim u.username ∉ seen ∧ ∃ hash rest',
        userHash lib (salt i) prev u = .ok hash ∧
        validateUsers lib salt prev (i + 1) (trim u.username :: seen) rest = .ok rest' ∧
        users = ⟨trim u.username, hash⟩ :: rest' := by
  have hstep : validateUsers lib salt prev i seen (u :: rest) = (do
      refuseIf (trim u.username = "") s!"user {i}: username is required"
      refuseIf (trim u.username ∈ seen) ("duplicate username " ++ lib.quote (trim u.username))
      let hash ← userHash lib (salt i) prev u
      let rest' ← validateUsers lib salt prev (i + 1) (trim u.username :: seen) rest
      return ⟨trim u.username, hash⟩ :: rest') := by
    rw [validateUsers, userHash]
    split_ifs <;> rfl
  rw [hstep]
  simp only [bind_eq_ok, refuseIf_eq_ok, pure_eq_ok]
  constructor
  · rintro ⟨_, hname, _, hseen, hash, hhash, rest', hrest, rfl⟩
    exact ⟨hname, hseen, hash, rest', hhash, hrest, rfl⟩
  · rintro ⟨hname, hseen, hash, rest', hhash, hrest, rfl⟩
    exact ⟨(), hname, (), hseen, hash, hhash, rest', hrest, rfl⟩

theorem userHash_ne_empty {salt : Salt} {prev : List AccessUser} {u : UserInput} {hash : String}
    (h : userHash lib salt prev u = .ok hash) : hash ≠ "" := by
  unfold userHash at h
  split_ifs at h with hpassword hprev
  · unfold generateFromPassword at h
    split_ifs at h
    obtain rfl := Except.ok.inj h
    exact lib.bcrypt_ne_empty _ _
  · obtain rfl := Except.ok.inj h
    exact hprev

/-- The names of a list that passed are trimmed, not blank and different, and all have a hash. -/
theorem validateUsers_normal {salt : Nat → Salt} {prev : List AccessUser} {i : Nat}
    {seen : List String} {us : List UserInput} {users : List AccessUser}
    (h : validateUsers lib salt prev i seen us = .ok users) :
    (∀ u ∈ users, trim u.username = u.username ∧ u.username ≠ "" ∧ u.username ∉ seen ∧
      u.hash ≠ "") ∧
      (users.map AccessUser.username).Nodup := by
  induction us generalizing i seen users with
  | nil =>
      obtain rfl := Except.ok.inj h
      exact ⟨fun u hu => absurd hu List.not_mem_nil, List.nodup_nil⟩
  | cons u rest ih =>
      obtain ⟨hname, hseen, hash, rest', hhash, hrest, rfl⟩ := validateUsers_cons.mp h
      obtain ⟨hall, hnodup⟩ := ih hrest
      constructor
      · intro v hv
        rcases List.mem_cons.mp hv with rfl | hv
        · exact ⟨trim_trim _, hname, hseen, userHash_ne_empty hhash⟩
        · obtain ⟨htrim, hne, hnotin, hvhash⟩ := hall v hv
          exact ⟨htrim, hne, fun hmem => hnotin (List.mem_cons_of_mem _ hmem), hvhash⟩
      · rw [List.map_cons, List.nodup_cons]
        refine ⟨?_, hnodup⟩
        intro hmem
        obtain ⟨v, hv, heq⟩ := List.mem_map.mp hmem
        apply (hall v hv).2.2.1
        rw [heq]
        exact List.mem_cons_self

/-- Users that keep their hashes pass as they are. -/
theorem validateUsers_of_normal {salt : Nat → Salt} {prev : List AccessUser} {i : Nat}
    {seen : List String} {users : List AccessUser}
    (hall : ∀ u ∈ users, trim u.username = u.username ∧ u.username ≠ "" ∧ u.username ∉ seen ∧
      u.hash ≠ "") (hnodup : (users.map AccessUser.username).Nodup)
    (hprev : ∀ u ∈ users, prevHash prev u.username = u.hash) :
    validateUsers lib salt prev i seen (withoutPasswords users) = .ok users := by
  induction users generalizing i seen with
  | nil => rfl
  | cons u rest ih =>
      obtain ⟨htrim, hne, hnotin, hhash⟩ := hall u List.mem_cons_self
      rw [List.map_cons, List.nodup_cons] at hnodup
      have hu := hprev u List.mem_cons_self
      have hrest := @ih (i + 1) (u.username :: seen)
        (by
          intro v hv
          obtain ⟨hvtrim, hvne, hvnotin, hvhash⟩ := hall v (List.mem_cons_of_mem _ hv)
          refine ⟨hvtrim, hvne, ?_, hvhash⟩
          intro hmem
          rcases List.mem_cons.mp hmem with heq | hmem
          · exact hnodup.1 (heq ▸ List.mem_map_of_mem hv)
          · exact hvnotin hmem)
        hnodup.2 (fun v hv => hprev v (List.mem_cons_of_mem _ hv))
      have hkept : userHash lib (salt i) prev ⟨u.username, ""⟩ = .ok u.hash := by
        rw [userHash]
        simp [htrim, hu, hhash]
      refine validateUsers_cons.mpr ⟨?_, ?_, u.hash, rest, hkept, ?_, ?_⟩
      · rw [htrim]
        exact hne
      · rw [htrim]
        exact hnotin
      · rw [htrim]
        exact hrest
      · rw [htrim]

theorem prevHash_of_nodup {users : List AccessUser} (hnodup : (users.map AccessUser.username).Nodup)
    {u : AccessUser} (hu : u ∈ users) : prevHash users u.username = u.hash := by
  cases hfind : users.reverse.find? fun v => v.username == u.username with
  | none =>
      have hnone := List.find?_eq_none.mp hfind u (List.mem_reverse.mpr hu)
      simp at hnone
  | some v =>
      have hname : v.username = u.username := by simpa using List.find?_some hfind
      have hv : v ∈ users := List.mem_reverse.mp (List.mem_of_find?_eq_some hfind)
      have hsame : v = u := List.inj_on_of_nodup_map hnodup hv hu hname
      rw [prevHash, hfind, hsame]
      rfl

def sentBack (list : AccessList) : AccessListInput :=
  ⟨list.name, list.satisfy, list.passAuth, list.rules, withoutPasswords list.users⟩

def satisfyOf (s : String) : String := if s = "" then "any" else s

theorem satisfyOf_again (s : String) : satisfyOf (satisfyOf s) = satisfyOf s := by
  unfold satisfyOf
  by_cases hs : s = ""
  · rw [if_pos hs, if_neg (by decide)]
  · rw [if_neg hs, if_neg hs]

theorem validate_eq_ok {salt : Nat → Salt} {prev : List AccessUser} {a : AccessListInput}
    {list : AccessList} : a.validate lib salt prev = .ok list ↔
    ∃ rules users, trim a.name ≠ "" ∧
      ¬ (satisfyOf a.satisfy ≠ "any" ∧ satisfyOf a.satisfy ≠ "all") ∧
      ¬ (a.rules = [] ∧ a.users = []) ∧ each (validateRule lib) 1 a.rules = .ok rules ∧
      validateUsers lib salt prev 1 [] a.users = .ok users ∧
      list = ⟨trim a.name, satisfyOf a.satisfy, a.passAuth, rules, users⟩ := by
  simp only [AccessListInput.validate, validateListFields, bind_eq_ok, refuseIf_eq_ok, pure_eq_ok]
  constructor
  · rintro ⟨_, ⟨_, hname, _, hsatisfy, _, hsome, rules, hrules, rfl⟩, users, husers, rfl⟩
    exact ⟨rules, users, hname, hsatisfy, hsome, hrules, husers, rfl⟩
  · rintro ⟨rules, users, hname, hsatisfy, hsome, hrules, husers, rfl⟩
    exact ⟨_, ⟨(), hname, (), hsatisfy, (), hsome, rules, hrules, rfl⟩, users, husers, rfl⟩

theorem validate_again (hcase : LowersOnce lib.caseTable) {salt salt' : Nat → Salt}
    {prev : List AccessUser} {a : AccessListInput} {list : AccessList}
    (h : a.validate lib salt prev = .ok list) :
    (sentBack list).validate lib salt' list.users = .ok list := by
  obtain ⟨rules, users, hname, hsatisfy, hsome, hrules, husers, rfl⟩ := validate_eq_ok.mp h
  obtain ⟨hall, hnodup⟩ := validateUsers_normal husers
  have hrules' : each (validateRule lib) 1 rules = .ok rules :=
    each_again hrules fun i j r r' hr => validateRule_again hcase hr
  have husers' := @validateUsers_of_normal lib salt' users 1 [] users hall hnodup
    fun u hu => prevHash_of_nodup hnodup hu
  -- a list of nothing came from nothing
  have hsome' : ¬ (rules = [] ∧ withoutPasswords users = []) := by
    rintro ⟨rfl, hempty⟩
    obtain rfl : users = [] := List.map_eq_nil_iff.mp hempty
    apply hsome
    constructor
    · exact List.eq_nil_of_length_eq_zero (each_eq_ok hrules).length_eq
    · cases hus : a.users with
      | nil => rfl
      | cons u rest =>
          rw [hus] at husers
          obtain ⟨-, -, hash, rest', -, -, heq⟩ := validateUsers_cons.mp husers
          cases heq
  apply validate_eq_ok.mpr
  refine ⟨rules, users, ?_, ?_, hsome', hrules', husers', ?_⟩
  · rw [sentBack, trim_trim]
    exact hname
  · rw [sentBack, satisfyOf_again]
    exact hsatisfy
  · rw [sentBack, trim_trim, satisfyOf_again]

end Idempotence

/-! ### What an empty list opens

The condition is on the list as it was sent: it is not written at all, or some entry is not
blank. -/

section Widening

variable (lib : Lib)

/-- A list that is written has an entry that is not blank. -/
def SaysSomething (entries : List String) : Prop :=
  entries ≠ [] → ∃ entry ∈ entries, trim entry ≠ ""

/-- The method is in the list, spelled in any case and with blanks around it. -/
def Listed (methods : List String) (method : String) : Prop :=
  ∃ m ∈ methods, toUpper lib.caseTable (trim m) = method

def matchesMethod (r : AccessRule) (method : String) : Bool :=
  (compileMethods lib.caseTable r.methods).all (·.contains method)

/-- A rule that was written for some methods matches no other.  HEAD is GET without the body. -/
def AccessRuleNarrow (r r' : AccessRule) : Prop :=
  r.methods ≠ [] → ∀ method, matchesMethod lib r' method = true →
    Listed lib r.methods method ∨ (method = "HEAD" ∧ Listed lib r.methods "GET")

def AuthRuleNarrow (r r' : AuthRule) : Prop :=
  r.methods ≠ [] → ∀ method p, r'.matchesRequest method p = true → Listed lib r.methods method

def OIDCAuth.Restricts (o : OIDCAuth) : Prop :=
  o.allowedEmails ≠ [] ∨ o.allowedDomains ≠ [] ∨ o.allowedGroups ≠ []

variable {lib}

theorem mem_normal_iff {methods names : List String} {method : String}
    (h : names = (methods.map fun m => toUpper lib.caseTable (trim m)).filter (· ≠ "")) :
    method ∈ names ↔ Listed lib methods method ∧ method ≠ "" := by
  subst h
  simp [Listed, List.mem_filter]

/-- A list that says nothing comes out empty. -/
theorem normal_eq_nil {methods names : List String}
    (h : names = (methods.map fun m => toUpper lib.caseTable (trim m)).filter (· ≠ "")) :
    names = [] ↔ ∀ m ∈ methods, trim m = "" := by
  subst h
  simp [List.filter_eq_nil_iff, toUpper_eq_empty]

theorem not_saysSomething {methods : List String} (h : ¬ SaysSomething methods) :
    methods ≠ [] ∧ ∀ m ∈ methods, trim m = "" := by
  unfold SaysSomething at h
  push Not at h
  exact h

/-- An access rule stays narrow just if its methods, where there are any, say something. -/
theorem accessRuleNarrow_iff {i : Nat} {r r' : AccessRule} (h : validateRule lib i r = .ok r') :
    AccessRuleNarrow lib r r' ↔ SaysSomething r.methods := by
  obtain ⟨vpn, names, -, -, -, -, -, hmethods, rfl⟩ := validateRule_eq_ok.mp h
  obtain ⟨heq, hvalid⟩ := normalizeMethods_eq_ok hmethods
  constructor
  · intro hnarrow
    by_contra hnot
    obtain ⟨hne, hblank⟩ := not_saysSomething hnot
    have hnil : names = [] := (normal_eq_nil heq).mpr hblank
    have hlisted := hnarrow hne "GET" (by simp [matchesMethod, compileMethods, hnil])
    rcases hlisted with ⟨m, hm, hget⟩ | ⟨hhead, -⟩
    · rw [hblank m hm] at hget
      exact absurd hget (by simp [toUpper])
    · exact absurd hhead (by decide)
  · intro hsays hne method hmatch
    obtain ⟨m, hm, hm'⟩ := hsays hne
    have hnames : names ≠ [] := fun hnil => hm' ((normal_eq_nil heq).mp hnil m hm)
    have hupper : names.map (toUpper lib.caseTable) = names := by
      conv_rhs => rw [← List.map_id names]
      exact List.map_congr_left fun m hm => (normal_of_method (hvalid m hm)).2
    simp only [matchesMethod, compileMethods, if_neg hnames, hupper, Option.all_some] at hmatch
    split_ifs at hmatch with hget
    · rcases List.mem_cons.mp (List.contains_iff_mem.mp hmatch) with rfl | hmem
      · exact Or.inr ⟨rfl, ((mem_normal_iff heq).mp hget).1⟩
      · exact Or.inl ((mem_normal_iff heq).mp hmem).1
    · exact Or.inl ((mem_normal_iff heq).mp (List.contains_iff_mem.mp hmatch)).1

theorem matchesPath_self (r : AuthRule) : r.matchesPath (utf8 r.path) = true := by
  unfold AuthRule.matchesPath pathWithin
  split <;> simp

theorem authRuleNarrow_iff {o : Options} {i : Nat} {r r' : AuthRule}
    (h : validateAuthRule lib o i r = .ok r') :
    AuthRuleNarrow lib r r' ↔ SaysSomething r.methods := by
  have heq := (validateAuthRule_kept h).methods
  constructor
  · intro hnarrow
    by_contra hnot
    obtain ⟨hne, hblank⟩ := not_saysSomething hnot
    have hnil : r'.methods = [] := (normal_eq_nil heq).mpr hblank
    have hmatch : r'.matchesRequest "GET" (utf8 r'.path) = true := by
      rw [AuthRule.matchesRequest, matchesPath_self, hnil]
      rfl
    obtain ⟨m, hm, hget⟩ := hnarrow hne "GET" _ hmatch
    rw [hblank m hm] at hget
    exact absurd hget (by simp [toUpper])
  · intro hsays hne method p hmatch
    obtain ⟨m, hm, hm'⟩ := hsays hne
    have hnames : r'.methods ≠ [] := fun hnil => hm' ((normal_eq_nil heq).mp hnil m hm)
    have hmethod := (AuthRule.matchesRequest_iff.mp hmatch).1
    rw [List.isEmpty_eq_false_iff.mpr hnames, Bool.false_or] at hmethod
    exact ((mem_normal_iff heq).mp (List.contains_iff_mem.mp hmethod)).1

theorem restricts_iff {o o' : OIDCAuth} (h : validateOIDC lib o = .ok o') :
    (o.Restricts → o'.Restricts) ↔
      SaysSomething (o.allowedEmails ++ o.allowedDomains ++ o.allowedGroups) := by
  obtain ⟨-, -, rfl⟩ := validateOIDC_eq_ok.mp h
  have hbare : ∀ v, bareName lib v = "" ↔ trim v = "" := fun v => toLower_eq_empty
  have hwritten : o.Restricts ↔ o.allowedEmails ++ o.allowedDomains ++ o.allowedGroups ≠ [] := by
    simp only [OIDCAuth.Restricts, ne_eq, List.append_eq_nil_iff, not_and_or, or_assoc]
  unfold SaysSomething
  rw [hwritten]
  apply imp_congr_right
  intro _
  simp only [OIDCAuth.Restricts, ne_eq, normEntries_eq_nil, hbare, not_forall, List.mem_append]
  constructor
  · rintro (⟨v, hv, hne⟩ | ⟨v, hv, hne⟩ | ⟨v, hv, hne⟩)
    · exact ⟨v, Or.inl (Or.inl hv), hne⟩
    · exact ⟨v, Or.inl (Or.inr hv), hne⟩
    · exact ⟨v, Or.inr hv, hne⟩
  · rintro ⟨v, (hv | hv) | hv, hne⟩
    · exact Or.inl ⟨v, hv, hne⟩
    · exact Or.inr (Or.inl ⟨v, hv, hne⟩)
    · exact Or.inr (Or.inr ⟨v, hv, hne⟩)

/-- What is decided entry by entry is decided for the lists. -/
theorem forall₂_iff_forall {α : Type} {R P : α → α → Prop} {Q : α → Prop} {as bs : List α}
    (h : List.Forall₂ R as bs) (hPQ : ∀ a b, R a b → (P a b ↔ Q a)) :
    List.Forall₂ P as bs ↔ ∀ a ∈ as, Q a := by
  induction h with
  | nil => simp
  | cons hab _ ih => rw [List.forall₂_cons, ih, hPQ _ _ hab, List.forall_mem_cons]

/-- Validating again changes nothing, and what was written for some is not opened for all, if and
only if every list that is written has an entry that is not blank. -/
theorem validation_keeps_iff (lib : Lib) (hcase : LowersOnce lib.caseTable) :
    (∀ salt salt' prev a list, AccessListInput.validate lib salt prev a = .ok list →
      (((sentBack list).validate lib salt' list.users = .ok list ∧
          List.Forall₂ (AccessRuleNarrow lib) a.rules list.rules) ↔
        ∀ r ∈ a.rules, SaysSomething r.methods)) ∧
    (∀ o rules rules', each (validateAuthRule lib o) 1 rules = .ok rules' →
      ((each (validateAuthRule lib o) 1 rules' = .ok rules' ∧
          List.Forall₂ (AuthRuleNarrow lib) rules rules') ↔
        ∀ r ∈ rules, SaysSomething r.methods)) ∧
    ∀ o o', validateOIDC lib o = .ok o' →
      ((validateOIDC lib o' = .ok o' ∧ (o.Restricts → o'.Restricts)) ↔
        SaysSomething (o.allowedEmails ++ o.allowedDomains ++ o.allowedGroups)) := by
  refine ⟨?_, ?_, ?_⟩
  · intro salt salt' prev a list h
    rw [and_iff_right (validate_again hcase h)]
    obtain ⟨rules, users, -, -, -, hrules, -, rfl⟩ := validate_eq_ok.mp h
    apply forall₂_iff_forall (each_eq_ok hrules)
    rintro r r' ⟨i, hr⟩
    exact accessRuleNarrow_iff hr
  · intro o rules rules' h
    rw [and_iff_right (each_again h fun i j r r' hr => validateAuthRule_again hcase hr)]
    apply forall₂_iff_forall (each_eq_ok h)
    rintro r r' ⟨i, hr⟩
    exact authRuleNarrow_iff hr
  · intro o o' h
    rw [and_iff_right (validateOIDC_again hcase h)]
    exact restricts_iff h

theorem lowersOnce_ascii : LowersOnce asciiLib.caseTable where
  twice _ hc := if_neg (Nat.not_lt.mpr hc)
  blank _ _ := rfl

/-- A gate for one address and one group, as it is sent and as it is kept. -/
def sentGate : OIDCAuth := ⟨1, [" Alice@Example.com", ""], [], ["ops "], false⟩
def keptGate : OIDCAuth := ⟨1, ["alice@example.com"], [], ["ops"], false⟩

/-- A list with a rule for one method and one without a password to be kept, as it is kept. -/
def sentList : AccessListInput :=
  ⟨" office", "", false, [⟨"allow", "10.0.0.0/8 ", "", "", ["get", ""], none⟩], [⟨"ops", ""⟩]⟩
def keptList : AccessList :=
  ⟨"office", "any", false, [⟨"allow", "10.0.0.0/8", "", "", ["GET"], none⟩], [⟨"ops", "$"⟩]⟩

def sentRule : AuthRule := ⟨" /app", false, "accessList", some 1, none, ["get"]⟩
def keptRule : AuthRule := ⟨"/app", false, "accessList", some 1, none, ["GET"]⟩

theorem validation_keeps_iff_gate :
    ((sentBack keptList).validate asciiLib (fun _ => 2) keptList.users = .ok keptList ∧
        List.Forall₂ (AccessRuleNarrow asciiLib) sentList.rules keptList.rules) ∧
      (each (validateAuthRule asciiLib Options.zero) 1 [keptRule] = .ok [keptRule] ∧
        List.Forall₂ (AuthRuleNarrow asciiLib) [sentRule] [keptRule]) ∧
      validateOIDC asciiLib keptGate = .ok keptGate ∧
        (sentGate.Restricts → keptGate.Restricts) := by
  obtain ⟨hlists, hrules, hgates⟩ := validation_keeps_iff asciiLib lowersOnce_ascii
  refine ⟨(hlists (fun _ => 1) (fun _ => 2) [⟨"ops",
    "$"⟩] sentList keptList (by decide +kernel)).mpr ?_,
    (hrules Options.zero [sentRule] [keptRule] (by decide +kernel)).mpr ?_,
    (hgates sentGate keptGate (by decide +kernel)).mpr ?_⟩
  · intro r hr _
    obtain rfl := List.mem_singleton.mp hr
    exact ⟨"get", by decide, by decide⟩
  · intro r hr _
    obtain rfl := List.mem_singleton.mp hr
    exact ⟨"get", by decide, by decide⟩
  · intro _
    exact ⟨"ops ", by decide, by decide⟩

/-- A list of blanks: a gate for nobody admits everybody, and a rule for no method matches all. -/
theorem blank_entries_open :
    (¬ ∀ (lib : Lib) (o o' : OIDCAuth), validateOIDC lib o = .ok o' →
      o.Restricts → o'.Restricts) ∧
    ¬ ∀ (lib : Lib) (a : AccessListInput) (list : AccessList),
      a.validate lib (fun _ => 0) [] = .ok list →
      List.Forall₂ (AccessRuleNarrow lib) a.rules list.rules := by
  constructor
  · intro hall
    have hgate := hall asciiLib ⟨1, [" "], [], [], false⟩ ⟨1, [], [], [], false⟩ (by decide +kernel)
    have hrestricts := hgate (Or.inl (by decide))
    simp [OIDCAuth.Restricts] at hrestricts
  · intro hall
    have hrules := hall asciiLib
      ⟨"office", "any", false, [⟨"allow", "10.0.0.0/8", "", "", [" "], none⟩], []⟩
      ⟨"office", "any", false, [⟨"allow", "10.0.0.0/8", "", "", [], none⟩], []⟩ (by decide +kernel)
    obtain ⟨hrule, -⟩ := List.forall₂_cons.mp hrules
    rcases hrule (by decide) "POST" (by decide) with ⟨m, hm, hpost⟩ | ⟨hhead, -⟩
    · rw [List.mem_singleton.mp hm] at hpost
      exact absurd hpost (by decide +kernel)
    · exact absurd hhead (by decide)

end Widening

end Quicgate.Store
