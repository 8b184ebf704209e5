import X509Validator.Rfc5280.NameConstraints
import X509Validator.ServerIdentity
import X509Validator.Enumeration

/-!
# Server identity under name constraints

`ServerIdentityPolicy` decides which host a leaf stands for, and
`NameConstraintsPolicy` which names an issuer allows. The two read names with
different grammars: the first drops a trailing period, allows an asterisk inside
of a label and falls back to the common name, the second does none of this. This
module says what a chain accepted by both promises about the host.

A name without asterisk is carried over to the host as it is. A wildcard stands
for many hosts, and a constraint on the wildcard speaks about a host of it only
as far as it does not look at the first label.

Results:
1. `identity_respects_constraints`: the host is in a permitted subtree and in no
   excluded one, as far as the name that identified it was examined.
2. `identity_bypasses_constraints`: hosts for which it was not.
-/

namespace X509Validator

open Ascii

/-! ## Names that match a host -/

/-- Only a host name that could be prepared matches. -/
theorem exists_host_of_matchHostname {serverHostname : Option PreparedServerHostname} {name : Bytes}
    (h : matchHostname serverHostname name = some true) :
    ∃ host, serverHostname = some host ∧ matchHostname (some host) name = some true := by
  cases serverHostname with
  | none => cases h
  | some host => exact ⟨host, rfl, h⟩

/-- How a certificate name matches a host name: as a whole, or with the asterisk
in its first label. -/
theorem matchHostname_cases {host : PreparedServerHostname} {name : Bytes}
    (h : matchHostname (some host) name = some true) :
    (asciiAsterisk ∉ name ∧ lowercase (stripTrailingPeriod name) = lowercase host.bytes) ∨
    (asciiAsterisk ∈ name ∧
      lowercase (nextLabel (stripTrailingPeriod name)).2 = lowercase (nextLabel host.bytes).2 ∧
      (nextLabel host.bytes).1 ≠ []) := by
  simp only [matchHostname] at h
  split at h
  · cases h
  next analysed hnew =>
  rw [← mem_stripTrailingPeriod (b := asciiAsterisk) (by decide)]
  rcases AnalysedCertificateHostname.new_cases hnew with ⟨hnone, rfl⟩ | ⟨_, _, hscanned, rfl⟩
  · exact .inl ⟨hnone, caseInsensitiveAsciiMatch_iff.mp (Option.some.inj h)⟩
  · obtain ⟨pre, suf, hlabel, hmatch⟩ := validMatchForName_wildcard hscanned host
    rw [hmatch] at h
    simp only [Option.some.injEq, Bool.and_eq_true, decide_eq_true_eq] at h
    obtain ⟨⟨hrest, hlength⟩, -⟩ := h
    obtain ⟨init, rest, heq, -⟩ := hscanned.asterisk _ rfl
    refine .inr ⟨?_, caseInsensitiveAsciiMatch_iff.mp hrest, fun hnil => ?_⟩
    · rw [heq]
      simp
    · rw [hlabel, hnil] at hlength
      simp at hlength

/-- A valid wildcard that matches a host is the one above the host. -/
theorem wildcard_of_matchHostname {host : PreparedServerHostname} {name : Bytes}
    (h : matchHostname (some host) name = some true) (hasterisk : asciiAsterisk ∈ name)
    (hvalid : isValidDnsName name false = true) (hlast : name.getLast? ≠ some asciiPeriod) :
    ∃ label rest, asciiPeriod ∉ label ∧ label ≠ [] ∧ host.bytes = underDomain label rest ∧
      lowercase name = lowercase (wildcardOf rest) := by
  have hcases := (matchHostname_cases h).resolve_left fun hnone => hnone.1 hasterisk
  rw [stripTrailingPeriod_eq_self hlast] at hcases
  obtain ⟨-, hrest, hne⟩ := hcases
  have hhead : name.head? = some asciiAsterisk := by
    by_contra hhead
    exact not_mem_asterisk_of_valid hvalid hhead hasterisk
  obtain ⟨domain, m, rfl, -⟩ := (isValidDnsName_cases hvalid).resolve_right fun hnone =>
    hnone.1 hhead
  have hperiod : asciiPeriod ∉ [asciiAsterisk] := by decide
  have hnext : nextLabel (asciiAsterisk :: asciiPeriod :: domain) = ([asciiAsterisk], domain) :=
    nextLabel_append hperiod domain
  rw [hnext] at hrest
  obtain ⟨hlabel, hhost | ⟨hhost, hnil⟩⟩ := nextLabel_spec host.bytes
  · refine ⟨_, _, hlabel, hne, hhost, ?_⟩
    simp only [lowercase, wildcardOf, underDomain, List.map_cons, List.map_append] at hrest ⊢
    rw [hrest]
    rfl
  · rw [hnil] at hrest
    obtain rfl := List.map_eq_nil_iff.mp hrest
    exact absurd rfl hlast

/-! ## Hosts and constraints -/

/-- No excluded dNSName subtree matches the host, and if there are permitted ones,
one of them does. -/
def HostConforms (constraints : NameConstraints) (host : Bytes) : Prop :=
  (∀ base, .dnsName base ∈ constraints.excluded → ¬ dnsNameMatchesConstraint host base = true) ∧
  ((∃ base, .dnsName base ∈ constraints.permitted) →
    ∃ base, .dnsName base ∈ constraints.permitted ∧ dnsNameMatchesConstraint host base = true)

/-- What constraints that a certificate name conforms to say about a host that
the name matches. -/
structure HostConformsBy (constraints : NameConstraints) (host name : Bytes) : Prop where
  /-- A name without asterisk and trailing period is excluded where the host is. -/
  excluded : asciiAsterisk ∉ name → name.getLast? ≠ some asciiPeriod →
    ∀ base, .dnsName base ∈ constraints.excluded → ¬ dnsNameMatchesConstraint host base = true
  /-- A wildcard is excluded where the host is, except by the host itself. -/
  excludedWildcard : isValidDnsName name false = true → name.getLast? ≠ some asciiPeriod →
    ∀ base, .dnsName base ∈ constraints.excluded → dnsNameMatchesConstraint host base = true →
      asciiAsterisk ∈ name ∧ lowercase (stripTrailingPeriod base) = host
  /-- If names are permitted, one of the subtrees matches the name. -/
  permitted : (∃ base, .dnsName base ∈ constraints.permitted) →
    ∃ base, .dnsName base ∈ constraints.permitted ∧ dnsNameMatchesConstraint name base = true
  /-- A permitted subtree that matches the name matches the host; for a wildcard only
  if the host is a valid name and the subtree is no wildcard itself. -/
  permittedHost : ∀ base, .dnsName base ∈ constraints.permitted →
    dnsNameMatchesConstraint name base = true →
    (asciiAsterisk ∈ name → isValidDnsName host false = true ∧ base.head? ≠ some asciiAsterisk) →
    dnsNameMatchesConstraint host base = true

section

variable {hostname name : Bytes} {host : PreparedServerHostname}

/-- A name without asterisk satisfies the constraints that the host does. -/
theorem matches_of_literal (hmatch : matchHostname (some host) name = some true)
    (hasterisk : asciiAsterisk ∉ name) (base : Bytes) :
    dnsNameMatchesConstraint (stripTrailingPeriod name) base =
      dnsNameMatchesConstraint host.bytes base := by
  have hlower := (matchHostname_cases hmatch).resolve_right fun h => hasterisk h.1
  exact dnsNameMatchesConstraint_congr hlower.2 base

/-- A constraint that matches the host but not the wildcard is the host. -/
theorem excluded_of_wildcard (hnew : PreparedServerHostname.new hostname = some host)
    (hmatch : matchHostname (some host) name = some true) (hasterisk : asciiAsterisk ∈ name)
    (hvalid : isValidDnsName name false = true) (hlast : name.getLast? ≠ some asciiPeriod)
    {base : Bytes} (hname : ¬ dnsNameMatchesConstraint name base = true)
    (hhost : dnsNameMatchesConstraint host.bytes base = true) :
    lowercase (stripTrailingPeriod base) = host.bytes := by
  obtain ⟨label, rest, hlabel, hne, heq, hlower⟩ :=
    wildcard_of_matchHostname hmatch hasterisk hvalid hlast
  rw [isValidDnsName_congr hlower] at hvalid
  rw [dnsNameMatchesConstraint_congr hlower] at hname
  have hbytes := PreparedServerHostname.isLabelByte_of_new hnew
  rw [heq] at hbytes hhost
  rw [lowercase_eq_of_not_wildcardOf_matches hlabel hne hbytes hvalid hhost hname, ← heq]
  exact PreparedServerHostname.lowercase_of_new hnew

/-- A constraint that matches the wildcard and is no wildcard itself matches the
host. -/
theorem permitted_of_wildcard (hmatch : matchHostname (some host) name = some true)
    (hasterisk : asciiAsterisk ∈ name) (hhost : isValidDnsName host.bytes false = true)
    {base : Bytes} (hbase : base.head? ≠ some asciiAsterisk)
    (hname : dnsNameMatchesConstraint name base = true) :
    dnsNameMatchesConstraint host.bytes base = true := by
  obtain ⟨hvalid, hvalidBase, -⟩ := dnsNameMatchesConstraint_iff.mp hname
  by_cases hlast : name.getLast? = some asciiPeriod
  · obtain ⟨init, rfl⟩ := List.getLast?_eq_some_iff.mp hlast
    obtain rfl := eq_nil_of_trailing_period_matches hname
    exact dnsNameMatchesConstraint_iff.mpr ⟨hhost, hvalidBase, .inl rfl⟩
  · obtain ⟨label, rest, hlabel, hne, heq, hlower⟩ :=
      wildcard_of_matchHostname hmatch hasterisk hvalid hlast
    rw [dnsNameMatchesConstraint_congr hlower] at hname
    rw [heq] at hhost ⊢
    exact matches_of_wildcardOf_matches hlabel hne hhost hbase hname

/-- A name that conforms carries its constraints over to the hosts it matches. -/
theorem Conforms.hostConformsBy {constraints : NameConstraints} {names : List GeneralName}
    (h : Conforms constraints names) (hname : .dnsName name ∈ names)
    (hnew : PreparedServerHostname.new hostname = some host)
    (hmatch : matchHostname (some host) name = some true) :
    HostConformsBy constraints host.bytes name := by
  have hnotExcluded : ∀ base, .dnsName base ∈ constraints.excluded →
      ¬ dnsNameMatchesConstraint name base = true := by
    intro base hbase hbase'
    exact h.notExcluded _ hname _ hbase (.dnsName hbase')
  have hexcluded : asciiAsterisk ∉ name → name.getLast? ≠ some asciiPeriod →
      ∀ base, .dnsName base ∈ constraints.excluded →
        ¬ dnsNameMatchesConstraint host.bytes base = true := by
    intro hasterisk hlast base hbase
    rw [← matches_of_literal hmatch hasterisk, stripTrailingPeriod_eq_self hlast]
    exact hnotExcluded base hbase
  refine ⟨hexcluded, ?_, ?_, ?_⟩
  · intro hvalid hlast base hbase hhost
    have hasterisk : asciiAsterisk ∈ name := by
      by_contra hasterisk
      exact hexcluded hasterisk hlast base hbase hhost
    exact ⟨hasterisk, excluded_of_wildcard hnew hmatch hasterisk hvalid hlast
      (hnotExcluded base hbase) hhost⟩
  · rintro ⟨some, hsome⟩
    obtain ⟨_, hbase, hpermitted⟩ := h.permitted _ hname ⟨_, hsome, .dnsName⟩
    cases hpermitted with
    | @dnsName _ base hbase' => exact ⟨base, hbase, hbase'⟩
  · intro base _ hbase hwildcard
    by_cases hasterisk : asciiAsterisk ∈ name
    · obtain ⟨hvalid, hnone⟩ := hwildcard hasterisk
      exact permitted_of_wildcard hmatch hasterisk hvalid hnone hbase
    · rw [← matches_of_literal hmatch hasterisk]
      refine stripTrailingPeriod_matches (fun hhead => ?_) hbase
      exact hasterisk (List.mem_of_mem_head? hhead)

end

/-- What identifies the leaf, where only a host name was given. -/
theorem ServerIdentityPolicy.Identifies.host {leaf : Certificate} {hostname : Bytes}
    (h : (ServerIdentityPolicy.new (some hostname) none).Identifies leaf) :
    ∃ host, PreparedServerHostname.new hostname = some host ∧
      (leaf.subjectAlternativeNames = [] ∨
        ∃ name, .dnsName name ∈ leaf.subjectAlternativeNames ∧
          matchHostname (some host) name = some true) := by
  cases h with
  | @alternativeName names name hsan hname hmatch =>
    cases name with
    | dnsName name =>
      obtain ⟨host, hnew, hmatch⟩ := exists_host_of_matchHostname hmatch
      refine ⟨host, hnew, .inr ⟨name, ?_, hmatch⟩⟩
      rwa [Certificate.subjectAlternativeNames_eq_getD hsan]
    | _ => cases hmatch
  | commonName hsan hempty _ hmatch =>
    obtain ⟨host, hnew, _⟩ := exists_host_of_matchHostname hmatch
    exact ⟨host, hnew, .inl ((Certificate.subjectAlternativeNames_eq_getD hsan).trans hempty)⟩

/-! ## 1. Accepted identities under constraints -/

/-- Identity and name constraints end to end. If both policies accept a chain, the
host name could be prepared, and it is one of the dNSNames of the leaf that
identifies it, unless the leaf has no alternative names and its common name
does. The constraints of every issuer (index at least 1, so the chain is no
single certificate) carry over to the host from every dNSName that matches it. -/
theorem identity_respects_constraints (chain : UnverifiedCertificateChain) (hostname : Bytes)
    (hconstraints : nameConstraintsPolicy.Accepts chain)
    (hidentity : (serverIdentityPolicy (.new (some hostname) none)).Accepts chain) :
    ∃ host, PreparedServerHostname.new hostname = some host ∧
      (chain.leaf.subjectAlternativeNames = [] ∨
        ∃ name, .dnsName name ∈ chain.leaf.subjectAlternativeNames ∧
          matchHostname (some host) name = some true) ∧
      ∀ name, .dnsName name ∈ chain.leaf.subjectAlternativeNames →
        matchHostname (some host) name = some true →
        ∀ j issuer constraints, 0 < j → chain.certificates[j]? = some issuer →
          issuer.nameConstraints = .ok (some constraints) →
          HostConformsBy constraints host.bytes name := by
  rw [serverIdentityPolicy_accepts] at hidentity
  rw [nameConstraintsPolicy_accepts] at hconstraints
  obtain ⟨host, hnew, hidentified⟩ := hidentity.host
  refine ⟨host, hnew, hidentified, ?_⟩
  intro name hname hmatch j issuer constraints hj hissuer hdecoded
  have hgoverns : Governs chain j 0 :=
    .inr ⟨hj, (List.getElem?_eq_some_iff.mp hissuer).1⟩
  obtain ⟨_, hdecoded', hconforms⟩ :=
    hconstraints j 0 hgoverns issuer chain.leaf hissuer chain.getElem?_zero
  rw [hdecoded] at hdecoded'
  cases hdecoded'
  obtain ⟨san, hsan, -, hconforms⟩ := hconforms constraints rfl
  refine hconforms.hostConformsBy ?_ hnew hmatch
  rwa [Certificate.subjectAlternativeNames_eq_getD hsan] at hname

namespace SamplePki

/-- A leaf with these dNSNames, without alternative names if there are none. -/
def hostLeaf (commonName : String) (dnsNames : List String) : Certificate :=
  { certificate "leaf" "ca" "key0" "key1" with
    subject := ⟨[⟨oidX509CommonName, 12, bytes commonName, some (bytes commonName)⟩],
      bytes commonName⟩
    subjectAlternativeName :=
      .ok (if dnsNames.isEmpty then none
        else some (dnsNames.map fun name => .dnsName (bytes name))) }

def dnsSubtrees (names : List String) : List GeneralSubtree :=
  names.map fun name => ⟨.dnsName (bytes name)⟩

def constrainedChain (leaf : Certificate) (constraints : NameConstraints) :
    UnverifiedCertificateChain :=
  ⟨[leaf, { certificate "ca" "ca" "key1" "key1" with
    nameConstraints := .ok (some constraints) }], by simp⟩

def mixedConstraints : NameConstraints :=
  ⟨some (dnsSubtrees ["example.com"]), some (dnsSubtrees ["bar.example.com"])⟩

def permittedChain : UnverifiedCertificateChain :=
  constrainedChain (hostLeaf "" ["foo.example.com"]) mixedConstraints

end SamplePki

/-- The host may be written in another case and with a trailing period. -/
theorem identity_respects_constraints_permitted :
    ∃ host, PreparedServerHostname.new (bytes "Foo.Example.com.") = some host ∧
      HostConformsBy SamplePki.mixedConstraints host.bytes (bytes "foo.example.com") := by
  have hidentity : (serverIdentityPolicy (.new (some (bytes "Foo.Example.com.")) none)).Accepts
      SamplePki.permittedChain := by
    decide +kernel
  obtain ⟨host, hnew, _, hconforms⟩ :=
    identity_respects_constraints SamplePki.permittedChain (bytes "Foo.Example.com.")
      (by decide +kernel) hidentity
  have hhost : some host = PreparedServerHostname.new (bytes "foo.example.com") := by
    rw [← hnew]
    decide +kernel
  refine ⟨host, hnew, hconforms _ (by decide +kernel) ?_ 1 _ _ Nat.one_pos rfl rfl⟩
  rw [hhost]
  decide +kernel

/-! ## 2. Names that are not examined -/

/-- The host is in no excluded subtree of an issuer and, where there are permitted
ones, in one of them, without regard to the name that identified it. -/
def IdentityConforms (chain : UnverifiedCertificateChain) (hostname : Bytes) : Prop :=
  2 ≤ chain.len → nameConstraintsPolicy.Accepts chain →
    (serverIdentityPolicy (.new (some hostname) none)).Accepts chain →
    ∀ host, PreparedServerHostname.new hostname = some host →
    ∀ j issuer constraints, 0 < j → chain.certificates[j]? = some issuer →
      issuer.nameConstraints = .ok (some constraints) → HostConforms constraints host.bytes

namespace SamplePki

def excluding (names : List String) : NameConstraints := ⟨none, some (dnsSubtrees names)⟩

def permitting (names : List String) : NameConstraints := ⟨some (dnsSubtrees names), none⟩

/-- The prepared form of `foo.example.com`. -/
def fooHost : PreparedServerHostname := ⟨bytes "foo.example.com", some 3, by decide +kernel⟩

/-- The prepared form of `-foo.example.com`, which is not a valid DNS name. -/
def hyphenHost : PreparedServerHostname := ⟨bytes "-foo.example.com", some 4, by decide +kernel⟩

theorem not_identityConforms {leaf : Certificate} {constraints : NameConstraints}
    {hostname : Bytes} {host : PreparedServerHostname}
    (hnew : PreparedServerHostname.new hostname = some host)
    (hconstraints : nameConstraintsPolicy.Accepts (constrainedChain leaf constraints))
    (hidentity : (serverIdentityPolicy (.new (some hostname) none)).Accepts
      (constrainedChain leaf constraints))
    (h : ¬ HostConforms constraints host.bytes) :
    ¬ IdentityConforms (constrainedChain leaf constraints) hostname := fun hconforms =>
  h (hconforms (by simp [UnverifiedCertificateChain.len, constrainedChain]) hconstraints hidentity
    host hnew 1 _ constraints Nat.one_pos rfl rfl)

theorem not_hostConforms_excluding {host : Bytes} {base : String}
    (h : dnsNameMatchesConstraint host (bytes base) = true) :
    ¬ HostConforms (excluding [base]) host :=
  fun hconforms => hconforms.1 (bytes base) List.mem_cons_self h

theorem not_hostConforms_permitting {host : Bytes} {base : String}
    (h : dnsNameMatchesConstraint host (bytes base) = false) :
    ¬ HostConforms (permitting [base]) host := by
  intro hconforms
  obtain ⟨base', hmem, hmatch⟩ := hconforms.2 ⟨bytes base, List.mem_cons_self⟩
  obtain rfl : base' = bytes base := GeneralName.dnsName.inj (List.mem_singleton.mp hmem)
  rw [h] at hmatch
  cases hmatch

end SamplePki

/-- Hosts that are accepted against the constraints of the issuer: by the common
name, by a wildcard above an excluded host, by a name with a trailing period, by
an asterisk inside of a label, by a wildcard for a host that is no valid DNS
name, and by a permitted wildcard. -/
theorem identity_bypasses_constraints :
    ¬ IdentityConforms (SamplePki.constrainedChain (SamplePki.hostLeaf "foo.example.com" [])
      (SamplePki.excluding ["example.com"])) (bytes "foo.example.com") ∧
    ¬ IdentityConforms (SamplePki.constrainedChain (SamplePki.hostLeaf "" ["*.example.com"])
      (SamplePki.excluding ["foo.example.com"])) (bytes "foo.example.com") ∧
    ¬ IdentityConforms (SamplePki.constrainedChain (SamplePki.hostLeaf "" ["foo.example.com."])
      (SamplePki.excluding ["example.com"])) (bytes "foo.example.com") ∧
    ¬ IdentityConforms (SamplePki.constrainedChain (SamplePki.hostLeaf "" ["f*.example.com"])
      (SamplePki.excluding ["example.com"])) (bytes "foo.example.com") ∧
    ¬ IdentityConforms (SamplePki.constrainedChain (SamplePki.hostLeaf "" ["*.example.com"])
      (SamplePki.permitting ["example.com"])) (bytes "-foo.example.com") ∧
    ¬ IdentityConforms (SamplePki.constrainedChain (SamplePki.hostLeaf "" ["*.example.com"])
      (SamplePki.permitting ["*.example.com"])) (bytes "foo.example.com") := by
  have hfoo : PreparedServerHostname.new (bytes "foo.example.com") = some SamplePki.fooHost := by
    decide +kernel
  have hhyphen : PreparedServerHostname.new (bytes "-foo.example.com") =
      some SamplePki.hyphenHost := by
    decide +kernel
  refine ⟨?_, ?_, ?_, ?_, ?_, ?_⟩
  · exact SamplePki.not_identityConforms hfoo (by decide +kernel) (by decide +kernel)
      (SamplePki.not_hostConforms_excluding (by decide +kernel))
  · exact SamplePki.not_identityConforms hfoo (by decide +kernel) (by decide +kernel)
      (SamplePki.not_hostConforms_excluding (by decide +kernel))
  · exact SamplePki.not_identityConforms hfoo (by decide +kernel) (by decide +kernel)
      (SamplePki.not_hostConforms_excluding (by decide +kernel))
  · exact SamplePki.not_identityConforms hfoo (by decide +kernel) (by decide +kernel)
      (SamplePki.not_hostConforms_excluding (by decide +kernel))
  · exact SamplePki.not_identityConforms hhyphen (by decide +kernel) (by decide +kernel)
      (SamplePki.not_hostConforms_permitting (by decide +kernel))
  · exact SamplePki.not_identityConforms hfoo (by decide +kernel) (by decide +kernel)
      (SamplePki.not_hostConforms_permitting (by decide +kernel))

end X509Validator
