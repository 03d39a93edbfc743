import Quicgate.PathAuth
import Quicgate.StoreImport

/-!
# What an import may open

The guard of an import compares the rules of a host one by one on path, exactness and
mode (`protectionRemoved`), the dispatch looks for the most specific rule that covers
the method and falls back to the host's own gate.  `import_neverOpens_iff` says when
the two agree on what is protected.

`narrowed_gate_opens` is an update that passes the guard and opens a path: the rule stays, with
fewer methods.  `PathAuth.neverOpens_iff_keepsGates` does the comparison of the two hosts; what
is added here is what the guard and the validation make sure of.
-/

namespace Quicgate.Store

open Quicgate.GoNet Quicgate.Checks Quicgate.Sql

/-- What the guard compares. -/
structure ProtectionKept (cur next : Host) : Prop where
  accessListID : cur.accessListID.isSome = true → next.accessListID.isSome = true
  oidc : cur.options.oidc.isSome = true → next.options.oidc.isSome = true
  forwardAuth : cur.options.hasForwardAuth = true → next.options.hasForwardAuth = true
  clientCert : cur.options.clientCert.isSome = true → next.options.clientCert.isSome = true
  clientCertMode : clientCertMode cur.options.clientCert = "require" →
    clientCertMode next.options.clientCert = "require"
  vpnOnly : cur.options.vpnOnly = true → next.options.vpnOnly = true
  certMode : next.certMode = "none" → cur.certMode = "none"
  forceSSL : cur.forceSSL = true → next.forceSSL = true
  minTLSVersion : cur.options.minTLSVersion = "1.3" → next.options.minTLSVersion = "1.3"
  authRules : ∀ rule ∈ cur.options.authRules, rule.mode ≠ "public" →
    ∃ n ∈ next.options.authRules, n.path = rule.path ∧ n.exact = rule.exact ∧ n.mode ≠ "public"

theorem AuthRule.lostIn_eq_false {next : List AuthRule} {rule : AuthRule} :
    rule.lostIn next = false ↔ (rule.mode ≠ "public" →
      ∃ n ∈ next, n.path = rule.path ∧ n.exact = rule.exact ∧ n.mode ≠ "public") := by
  by_cases hmode : rule.mode = "public"
  · simp [AuthRule.lostIn, hmode]
  · simp [AuthRule.lostIn, hmode, and_assoc]

theorem gate_text_ne_empty (rule : AuthRule) : rule.mode ++ " gate on " ++ rule.path ≠ "" := by
  intro h
  have hlist := congrArg String.toList h
  simp at hlist

theorem protectionRemoved_eq_empty {cur next : Host} :
    protectionRemoved cur next = "" ↔ ProtectionKept cur next := by
  have hmode : "client certificate requirement (require would become " ++
      clientCertMode next.options.clientCert ++ ")" ≠ "" := by
    intro h
    have hlist := congrArg String.toList h
    simp at hlist
  constructor
  · intro h
    unfold protectionRemoved at h
    split_ifs at h with h1 h2 h3 h4 h5 h6 h7 h8 h9
    all_goals first | exact absurd h (by decide) | exact absurd h hmode | skip
    have hfind : cur.options.authRules.find? (·.lostIn next.options.authRules) = none := by
      cases hfind : cur.options.authRules.find? (·.lostIn next.options.authRules) with
      | none => rfl
      | some rule =>
          rw [hfind] at h
          exact absurd h (gate_text_ne_empty rule)
    refine ⟨?_, ?_, ?_, ?_, ?_, ?_, ?_, ?_, ?_, ?_⟩
    · intro hcur
      simpa [Option.isSome_iff_ne_none] using fun hnext => h1 ⟨hcur, hnext⟩
    · intro hcur
      simpa [Option.isSome_iff_ne_none] using fun hnext => h2 ⟨hcur, hnext⟩
    · intro hcur
      simpa using fun hnext => h3 ⟨hcur, hnext⟩
    · intro hcur
      simpa [Option.isSome_iff_ne_none] using fun hnext => h4 ⟨hcur, hnext⟩
    · intro hcur
      by_contra hnext
      exact h5 ⟨hcur, hnext⟩
    · intro hcur
      simpa using fun hnext => h6 ⟨hcur, hnext⟩
    · intro hnext
      by_contra hcur
      exact h7 ⟨hcur, hnext⟩
    · intro hcur
      simpa using fun hnext => h8 ⟨hcur, hnext⟩
    · intro hcur
      by_contra hnext
      exact h9 ⟨hcur, hnext⟩
    · intro rule hrule
      have hkept := List.find?_eq_none.mp hfind rule hrule
      exact AuthRule.lostIn_eq_false.mp (by simpa using hkept)
  · intro h
    have hfind : cur.options.authRules.find? (·.lostIn next.options.authRules) = none := by
      rw [List.find?_eq_none]
      intro rule hrule
      simpa using AuthRule.lostIn_eq_false.mpr (h.authRules rule hrule)
    unfold protectionRemoved
    rw [if_neg, if_neg, if_neg, if_neg, if_neg, if_neg, if_neg, if_neg, if_neg, hfind]
    · rintro ⟨hcur, hnext⟩
      exact hnext (h.minTLSVersion hcur)
    · rintro ⟨hcur, hnext⟩
      simp [h.forceSSL hcur] at hnext
    · rintro ⟨hcur, hnext⟩
      exact hcur (h.certMode hnext)
    · rintro ⟨hcur, hnext⟩
      simp [h.vpnOnly hcur] at hnext
    · rintro ⟨hcur, hnext⟩
      exact hnext (h.clientCertMode hcur)
    · rintro ⟨hcur, hnext⟩
      simpa [hnext] using h.clientCert hcur
    · rintro ⟨hcur, hnext⟩
      simp [h.forwardAuth hcur] at hnext
    · rintro ⟨hcur, hnext⟩
      simpa [hnext] using h.oidc hcur
    · rintro ⟨hcur, hnext⟩
      simpa [hnext] using h.accessListID hcur

theorem rooted_of_validate {lib : Lib} {h h' : Host} (hv : h.validate lib = .ok h') :
    h'.Rooted := by
  intro r hr
  obtain ⟨_, -, hkept⟩ := exists_of_forall₂_right (Host.validate_kept hv).options.authRules hr
  exact hkept.slash

/-- What the turn of a host does when it finds one stored under its key. -/
theorem importHost_matched {lib : Lib} {n : Nat} {s s' : Importing Host} {doc cur : Host} {id : Int}
    (hfound : s.storedUnder lib doc = some (id, cur)) (h : importHost lib n s doc = .ok s') :
    protectionRemoved cur doc = "" ∧
      ∃ kept, doc.validate lib = .ok kept ∧ s'.db.hosts = s.db.hosts.update id kept := by
  rcases importHost_eq_ok.mp h
    with ⟨id', cur', db, hfound', hguard, hupdate, rfl⟩ | ⟨_, _, hnone, -⟩
  · obtain ⟨rfl, rfl⟩ := Prod.mk.inj (Option.some.inj (hfound.symm.trans hfound'))
    obtain ⟨kept, hcheck, -, rfl⟩ := updateHost_eq_ok.mp hupdate
    exact ⟨hguard, kept, (checkHost_eq_ok.mp hcheck).1, rfl⟩
  · simp [hfound] at hnone

/-- A stored host `cur` and the entry of a document that an import applies to it:
with no public rule that `cur` does not have, the updated host opens nothing `cur`
gates if and only if it keeps its gates at the places of `KeepsGates`. -/
theorem import_neverOpens_iff (lib : Lib) (n : Nat) (s s' : Importing Host)
    (doc cur next : Host) (id : Int) (hcur : ∃ raw, Host.validate lib raw = .ok cur)
    (hfound : s.storedUnder lib doc = some (id, cur))
    (himport : importHost lib n s doc = .ok s') (hnext : s'.db.hosts.lookup id = some next)
    (hknown : PublicRulesKnown cur next) : NeverOpens cur next ↔ KeepsGates cur next := by
  obtain ⟨raw, hraw⟩ := hcur
  obtain ⟨hguard, kept, hvalid, hwrite⟩ := importHost_matched hfound himport
  have hguard := protectionRemoved_eq_empty.mp hguard
  obtain rfl : next = kept := by
    have hrow := Table.lookup_eq_some.mp hnext
    rw [hwrite] at hrow
    rcases Table.mem_update.mp hrow with ⟨hne, -⟩ | ⟨heq, -⟩
    · exact absurd rfl hne
    · exact (Prod.mk.inj heq).2
  have hkept := Host.validate_kept hvalid
  refine neverOpens_iff_keepsGates (rooted_of_validate hraw) (rooted_of_validate hvalid) ?_
    ?_ hknown
  · intro hlist
    rw [hkept.accessListID]
    exact hguard.accessListID hlist
  · intro hforward
    rw [hkept.options.forwardAuth]
    exact hguard.forwardAuth hforward

/-! ### A host whose path rule loses its methods

The host gates one path for the people of an access list, and everybody may have the rest. -/

def appHost (methods : List String) : Host :=
  { Host.zero with
    type := "dead", domains := ["app.example"], certMode := "auto", enabled := true
    options := { Options.zero with
      authRules := [⟨"/admin", false, "accessList", some 1, none, methods⟩] } }

/-- The database with that host and its list, as the loop over the hosts of a document
finds it. -/
def appImport : Importing Host :=
  let db := { Db.empty with
    accessLists := Table.empty.insert ⟨"staff", "any", false, [], [⟨"bob", "$"⟩]⟩
    hosts := Table.empty.insert (appHost []) }
  ⟨db, storedBy (fun h => domainKey asciiLib h.domains) db.hosts.rows, ⟨0, 0⟩⟩

theorem appHost_valid : (appHost []).validate asciiLib = .ok (appHost []) := by
  decide +kernel

/-- The entry of a document that scopes the rule to `GET` is applied. -/
theorem appImport_applies : ∃ s', importHost asciiLib 1 appImport (appHost ["GET"]) = .ok s' ∧
    s'.db.hosts.lookup 1 = some (appHost ["GET"]) :=
  exists_ok_of_map (by decide +kernel)

theorem appHost_public (methods methods' : List String) :
    PublicRulesKnown (appHost methods) (appHost methods') := by
  intro n hn hpublic
  obtain rfl := List.mem_singleton.mp hn
  simp at hpublic

/-- The host with a gate on another path as well, by which a document may replace it. -/
def opsHost : Host :=
  { appHost [] with options := { (appHost []).options with
      authRules :=
        ⟨"/ops", false, "accessList", some 1, none, []⟩ :: (appHost []).options.authRules } }

theorem opsImport_applies : ∃ s', importHost asciiLib 1 appImport opsHost = .ok s' ∧
    s'.db.hosts.lookup 1 = some opsHost :=
  exists_ok_of_map (by decide +kernel)

theorem opsHost_keepsGates : KeepsGates (appHost []) opsHost where
  host := by decide +kernel
  login := by
    intro method p hp hgated
    have hfree : (appHost []).dispatch method p = .free := by
      rcases List.mem_pair.mp hp with rfl | rfl <;> rfl
    rw [hfree] at hgated
    cases hgated
  named := by
    intro method r hr _ _ hfree
    obtain rfl := List.mem_singleton.mp hr
    have hgated : opsHost.dispatch method (utf8 "/admin") = .gated := rfl
    rw [hgated] at hfree
    cases hfree
  below := by
    intro method r hr _ _ _ hfree
    have hgated : opsHost.decision opsHost.prefixRules method (slashed (utf8 "/admin")) = .gated :=
      rfl
    obtain rfl := List.mem_singleton.mp (List.mem_filter.mp hr).1
    rw [hgated] at hfree
    cases hfree

/-- A second gate opens nothing, and the methods that a rule loses may. -/
theorem import_neverOpens_iff_app : NeverOpens (appHost []) opsHost ∧
    (NeverOpens (appHost []) (appHost ["GET"]) ↔ KeepsGates (appHost []) (appHost ["GET"])) := by
  have hvalid : ∃ raw, Host.validate asciiLib raw = .ok (appHost []) := ⟨appHost [], appHost_valid⟩
  constructor
  · obtain ⟨s', himport, hnext⟩ := opsImport_applies
    have hknown : PublicRulesKnown (appHost []) opsHost := by
      intro n hn hpublic
      rcases List.mem_pair.mp hn with rfl | rfl <;> simp at hpublic
    exact (import_neverOpens_iff asciiLib 1 appImport s' opsHost (appHost []) opsHost 1 hvalid
      (by decide +kernel) himport hnext hknown).mpr opsHost_keepsGates
  · obtain ⟨s', himport, hnext⟩ := appImport_applies
    exact import_neverOpens_iff asciiLib 1 appImport s' (appHost ["GET"]) (appHost [])
      (appHost ["GET"])
      1 hvalid (by decide +kernel) himport hnext (appHost_public [] ["GET"])

/-- The import passes its guard, and a `POST` to `/admin` goes through to everybody. -/
theorem narrowed_gate_opens :
    ∃ (s' : Importing Host) (next : Host),
      importHost asciiLib 1 appImport (appHost ["GET"]) = .ok s' ∧
      appImport.storedUnder asciiLib (appHost ["GET"]) = some (1, appHost []) ∧
      s'.db.hosts.lookup 1 = some next ∧ PublicRulesKnown (appHost []) next ∧
      (appHost []).dispatch "POST" (utf8 "/admin") = .gated ∧
      next.dispatch "POST" (utf8 "/admin") = .free := by
  obtain ⟨s', himport, hnext⟩ := appImport_applies
  exact ⟨s', appHost ["GET"], himport, by decide +kernel, hnext, appHost_public [] ["GET"],
    by decide +kernel, by decide +kernel⟩

end Quicgate.Store
