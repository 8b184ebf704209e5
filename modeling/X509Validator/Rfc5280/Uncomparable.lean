import X509Validator.IdentityConstraints

/-!
# Names and constraints that cannot be compared

The three matchers return `false` both for a name outside of a subtree and for a
name or a constraint that they cannot interpret. For permitted subtrees this is
safe, since a name that matches nothing is refused. For excluded subtrees it
lets the name pass. RFC 5280 asks for the certificate to be rejected in this
case, which the code does only for kinds of constraints that it does not
support.

Results:
1. `wildcard_outside_excluded`: what an excluded subtree says about the names
   under a wildcard, which is compared literally.
2. `uninterpretable_rejected_iff`: when a chain with a name that cannot be
   interpreted is rejected.
3. `malformed_rejected_iff`: when a chain with a constraint that cannot be
   interpreted is.
-/

namespace X509Validator

/-- An issuer of the chain has these constraints, and the certificate is below it. -/
def AppliesTo (chain : UnverifiedCertificateChain) (constraints : NameConstraints)
    (subject : Certificate) : Prop :=
  ∃ (i j : Nat) (issuer : Certificate), i < j ∧ chain.certificates[j]? = some issuer ∧
    issuer.nameConstraints = .ok (some constraints) ∧ chain.certificates[i]? = some subject

theorem conforms_of_accepts {chain : UnverifiedCertificateChain} {constraints : NameConstraints}
    {subject : Certificate} (h : AppliesTo chain constraints subject)
    (haccepts : nameConstraintsPolicy.Accepts chain) :
    Conforms constraints subject.subjectAlternativeNames := by
  obtain ⟨i, j, issuer, hij, hissuer, hconstraints, hsubject⟩ := h
  have hj : j < chain.len := (List.getElem?_eq_some_iff.mp hissuer).1
  have hpair := nameConstraintsPolicy_accepts.mp haccepts j i (.inr ⟨hij, hj⟩) issuer subject
    hissuer hsubject
  obtain ⟨san, hsan, -, hconforms⟩ :=
    (NameConstraintsPolicy.pairConforms_iff_of_constraints hconstraints).mp hpair
  rwa [Certificate.subjectAlternativeNames_eq_getD hsan]

/-! ## 1. Wildcards and excluded subtrees -/

/-- The bytes of a name `label.rest` without wildcard. -/
theorem bytes_of_underDomain {label rest : Bytes} (hlabel : asciiPeriod ∉ label)
    (hvalid : isValidDnsName (underDomain label rest) false = true)
    (hasterisk : label ≠ [asciiAsterisk]) :
    ∀ b ∈ underDomain label rest, isLabelByte b = true ∨ b = asciiPeriod := by
  rcases isValidDnsName_cases hvalid with ⟨rest', m, heq, -⟩ | ⟨-, m, hscan⟩
  · exfalso
    match label, hlabel, hasterisk, heq with
    | [], _, _, heq => exact absurd (List.cons.inj heq).1 (by decide)
    | [b], _, hasterisk, heq =>
      rw [underDomain, List.cons_append, List.cons.injEq] at heq
      exact hasterisk (by rw [heq.1])
    | b :: b' :: label, hlabel, _, heq =>
      rw [underDomain, List.cons_append, List.cons_append, List.cons.injEq, List.cons.injEq] at heq
      exact hlabel (by simp [heq.2.1])
  · exact scanLabels_bytes hscan

theorem ne_nil_of_underDomain {label rest : Bytes}
    (hvalid : isValidDnsName (underDomain label rest) false = true) : label ≠ [] := by
  rintro rfl
  rcases isValidDnsName_cases hvalid with ⟨rest', m, heq, -⟩ | ⟨-, m, hscan⟩
  · exact absurd (List.cons.inj heq).1 (by decide)
  · rw [underDomain, List.nil_append, scanLabels_period] at hscan
    cases hscan

/-- For an excluded subtree and a wildcard that the policy accepts below it, a
name under the wildcard is in the subtree only if the subtree is that name. -/
theorem wildcard_outside_excluded (chain : UnverifiedCertificateChain)
    (haccepts : nameConstraintsPolicy.Accepts chain) (constraints : NameConstraints)
    (subject : Certificate) (happlies : AppliesTo chain constraints subject)
    (base domain label : Bytes) (hbase : .dnsName base ∈ constraints.excluded)
    (hwildcard : .dnsName (wildcardOf domain) ∈ subject.subjectAlternativeNames)
    (hinterpreted : isValidDnsName (wildcardOf domain) false = true)
    (hlabel : asciiPeriod ∉ label) (hvalid : isValidDnsName (underDomain label domain) false = true)
    (hmatch : dnsNameMatchesConstraint (underDomain label domain) base = true) :
    Ascii.lowercase (stripTrailingPeriod base) = Ascii.lowercase (underDomain label domain) := by
  have hconforms := conforms_of_accepts happlies haccepts
  have hexcluded : ¬ dnsNameMatchesConstraint (wildcardOf domain) base = true := fun h =>
    hconforms.notExcluded _ hwildcard _ hbase (.dnsName h)
  have hasterisk : label ≠ [asciiAsterisk] := by
    rintro rfl
    exact hexcluded hmatch
  exact lowercase_eq_of_not_wildcardOf_matches hlabel (ne_nil_of_underDomain hvalid)
    (bytes_of_underDomain hlabel hvalid hasterisk) hinterpreted hmatch hexcluded

theorem appliesTo_constrainedChain (leaf : Certificate) (constraints : NameConstraints) :
    AppliesTo (SamplePki.constrainedChain leaf constraints) constraints leaf :=
  ⟨0, 1, _, by decide, rfl, rfl, rfl⟩

/-- The one host that may be excluded under a wildcard. -/
theorem wildcard_outside_excluded_host :
    Ascii.lowercase (stripTrailingPeriod (bytes "foo.example.com.")) =
      Ascii.lowercase (underDomain (bytes "FOO") (bytes "example.com")) :=
  wildcard_outside_excluded
    (SamplePki.constrainedChain (SamplePki.hostLeaf "" ["*.example.com"])
      (SamplePki.excluding ["foo.example.com."])) (by decide +kernel) _ _
    (appliesTo_constrainedChain _ _) _ _ _ List.mem_cons_self (by decide +kernel)
    (by decide +kernel) (by decide +kernel) (by decide +kernel) (by decide +kernel)

/-- No name directly under a wildcard is in an excluded subtree of an issuer
above it. -/
def WildcardsOutside (chain : UnverifiedCertificateChain) : Prop :=
  ∀ (constraints : NameConstraints) (subject : Certificate), AppliesTo chain constraints subject →
    ∀ base, .dnsName base ∈ constraints.excluded →
    ∀ domain, .dnsName (wildcardOf domain) ∈ subject.subjectAlternativeNames →
    ∀ label, asciiPeriod ∉ label → isValidDnsName (underDomain label domain) false = true →
      dnsNameMatchesConstraint (underDomain label domain) base = false

/-- A wildcard above an excluded host, and a wildcard for a top-level domain,
which is no name for the matcher. -/
theorem wildcard_inside_excluded :
    (nameConstraintsPolicy.Accepts (SamplePki.constrainedChain
        (SamplePki.hostLeaf "" ["*.example.com"]) (SamplePki.excluding ["foo.example.com"])) ∧
      ¬ WildcardsOutside (SamplePki.constrainedChain
        (SamplePki.hostLeaf "" ["*.example.com"]) (SamplePki.excluding ["foo.example.com"]))) ∧
    (nameConstraintsPolicy.Accepts (SamplePki.constrainedChain (SamplePki.hostLeaf "" ["*.com"])
        (SamplePki.excluding ["com"])) ∧
      ¬ WildcardsOutside (SamplePki.constrainedChain (SamplePki.hostLeaf "" ["*.com"])
        (SamplePki.excluding ["com"]))) := by
  refine ⟨⟨by decide +kernel, fun h => ?_⟩, by decide +kernel, fun h => ?_⟩
  · have hfoo := h _ _ (appliesTo_constrainedChain _ _) (bytes "foo.example.com")
      List.mem_cons_self (bytes "example.com") (by decide +kernel) (bytes "foo")
      (by decide +kernel) (by decide +kernel)
    revert hfoo
    decide +kernel
  · have hfoo := h _ _ (appliesTo_constrainedChain _ _) (bytes "com") List.mem_cons_self
      (bytes "com") (by decide +kernel) (bytes "foo") (by decide +kernel) (by decide +kernel)
    revert hfoo
    decide +kernel

/-! ## 2. Names that cannot be interpreted -/

/-- A name that the matcher of its kind cannot interpret: a dNSName that is not
valid or that is absolute, an iPAddress of another length, a URI without a host
or with an address in its place. -/
inductive Uninterpretable : GeneralName → Prop
  | invalidName {name : Bytes} : isValidDnsName name false = false →
      Uninterpretable (.dnsName name)
  | absoluteName {name : Bytes} : name.getLast? = some asciiPeriod →
      Uninterpretable (.dnsName name)
  | ipAddress {address : Bytes} : address.length ≠ 4 → address.length ≠ 16 →
      Uninterpretable (.ipAddress address)
  | noHost {uri : Bytes} : extractHost uri = none → Uninterpretable (.uri uri)
  | addressHost {uri host : Bytes} : extractHost uri = some host → isIpAddress host = true →
      Uninterpretable (.uri uri)

/-- A dNSName with a trailing period that is valid otherwise. -/
def IsAbsolute (name : GeneralName) : Prop :=
  ∃ dnsName, name = .dnsName dnsName ∧ isValidDnsName dnsName false = true ∧
    dnsName.getLast? = some asciiPeriod

/-- The empty constraint matches absolute names; otherwise there is no match. -/
theorem nameMatches_uninterpretable {name base : GeneralName} (h : Uninterpretable name) :
    NameMatches name base ↔ IsAbsolute name ∧ base = .dnsName [] := by
  constructor
  · intro hmatch
    cases hmatch with
    | @dnsName dnsName constraint hmatch =>
      have hvalid := (dnsNameMatchesConstraint_iff.mp hmatch).1
      have hlast : dnsName.getLast? = some asciiPeriod := by
        cases h with
        | invalidName hinvalid =>
          rw [hvalid] at hinvalid
          cases hinvalid
        | absoluteName hlast => exact hlast
      refine ⟨⟨dnsName, rfl, hvalid, hlast⟩, ?_⟩
      obtain ⟨init, rfl⟩ := List.getLast?_eq_some_iff.mp hlast
      rw [eq_nil_of_trailing_period_matches hmatch]
    | ipAddress hmatch =>
      cases h with
      | ipAddress hipv4 hipv6 =>
        rcases ((ipAddressMatchesConstraint_eq _ _).mp hmatch).1 with ⟨hlen, -⟩ | ⟨hlen, -⟩
        · exact absurd hlen hipv4
        · exact absurd hlen hipv6
    | uri hmatch =>
      obtain ⟨host, hhost, hmatch⟩ := uriNameMatchesConstraint_iff.mp hmatch
      cases h with
      | noHost hnone =>
        rw [hnone] at hhost
        cases hhost
      | addressHost hhost' haddress =>
        rw [hhost'] at hhost
        cases hhost
        rw [isIpAddress_eq_false (dnsNameMatchesConstraint_iff.mp hmatch).1] at haddress
        cases haddress
  · rintro ⟨⟨dnsName, rfl, hvalid, -⟩, rfl⟩
    refine .dnsName (dnsNameMatchesConstraint_iff.mpr ⟨hvalid, ?_, .inl rfl⟩)
    decide +kernel

/-- The subtrees of an issuer, permitted and excluded. -/
def NameConstraints.bases (constraints : NameConstraints) : List GeneralName :=
  constraints.permitted ++ constraints.excluded

theorem forall_bases {constraints : NameConstraints} {P : GeneralName → Prop} :
    (∀ base ∈ constraints.bases, P base) ↔
      (∀ base ∈ constraints.permitted, P base) ∧ ∀ base ∈ constraints.excluded, P base :=
  List.forall_mem_append

/-- A leaf with these alternative names. -/
def leafWithNames (san : Option (List GeneralName)) : Certificate :=
  { SamplePki.endEntity with subjectAlternativeName := .ok san }

/-- The constraints refuse a name that cannot be interpreted: because of a
subtree of a kind that is not supported, because of permitted subtrees of its
kind, or because the name is absolute and every name is excluded. -/
def RefusesName (constraints : NameConstraints) (name : GeneralName) : Prop :=
  (∃ base ∈ constraints.bases, ¬ Evaluable base) ∨
  ((∃ base ∈ constraints.permitted, SameKind name base) ∧
    ¬ (IsAbsolute name ∧ .dnsName [] ∈ constraints.permitted)) ∨
  (IsAbsolute name ∧ .dnsName [] ∈ constraints.excluded)

theorem not_conforms_of_refusesName {constraints : NameConstraints} {name : GeneralName}
    (hname : Uninterpretable name) (h : RefusesName constraints name) {names : List GeneralName}
    (hmem : name ∈ names) : ¬ Conforms constraints names := by
  intro hconforms
  rcases h with ⟨base, hbase, hevaluable⟩ | ⟨hpermitted, hempty⟩ | ⟨habsolute, hexcluded⟩
  · rcases List.mem_append.mp hbase with hbase | hbase
    · exact hevaluable (hconforms.permittedEvaluable base hbase)
    · exact hevaluable (hconforms.excludedEvaluable base hbase)
  · obtain ⟨base, hbase, hmatch⟩ := hconforms.permitted name hmem hpermitted
    obtain ⟨habsolute, rfl⟩ := (nameMatches_uninterpretable hname).mp hmatch
    exact hempty ⟨habsolute, hbase⟩
  · exact hconforms.notExcluded name hmem _ hexcluded
      ((nameMatches_uninterpretable hname).mpr ⟨habsolute, rfl⟩)

theorem conforms_of_not_refusesName {constraints : NameConstraints} {name : GeneralName}
    (hname : Uninterpretable name) (h : ¬ RefusesName constraints name) :
    Conforms constraints [name] := by
  rw [RefusesName, not_or, not_or, not_and_not_right, not_and] at h
  obtain ⟨hevaluable, hpermitted, hexcluded⟩ := h
  simp only [not_exists, not_and, not_not] at hevaluable
  obtain ⟨hpermittedEvaluable, hexcludedEvaluable⟩ := forall_bases.mp hevaluable
  refine ⟨hpermittedEvaluable, hexcludedEvaluable, ?_, ?_⟩
  · intro name' hname' base hbase hmatch
    rw [List.mem_singleton.mp hname'] at hmatch
    obtain ⟨habsolute, rfl⟩ := (nameMatches_uninterpretable hname).mp hmatch
    exact hexcluded habsolute hbase
  · rintro name' hname' ⟨base, hbase, hkind⟩
    rw [List.mem_singleton.mp hname'] at hkind ⊢
    obtain ⟨habsolute, hempty⟩ := hpermitted ⟨base, hbase, hkind⟩
    exact ⟨_, hempty, (nameMatches_uninterpretable hname).mpr ⟨habsolute, rfl⟩⟩

theorem conforms_singleton_iff {constraints : NameConstraints} {name : GeneralName}
    (hname : Uninterpretable name) :
    Conforms constraints [name] ↔ ¬ RefusesName constraints name :=
  ⟨fun hconforms h => not_conforms_of_refusesName hname h List.mem_cons_self hconforms,
    conforms_of_not_refusesName hname⟩

/-- The names are judged one by one. -/
theorem conforms_iff_forall {constraints : NameConstraints} {names : List GeneralName} :
    Conforms constraints names ↔
      (∀ base ∈ constraints.bases, Evaluable base) ∧
        ∀ name ∈ names, Conforms constraints [name] := by
  constructor
  · intro h
    refine ⟨forall_bases.mpr ⟨h.permittedEvaluable, h.excludedEvaluable⟩, fun name hname => ?_⟩
    refine ⟨h.permittedEvaluable, h.excludedEvaluable, ?_, ?_⟩
    · intro name' hname'
      rw [List.mem_singleton.mp hname']
      exact h.notExcluded name hname
    · intro name' hname'
      rw [List.mem_singleton.mp hname']
      exact h.permitted name hname
  · rintro ⟨hevaluable, hall⟩
    refine ⟨(forall_bases.mp hevaluable).1, (forall_bases.mp hevaluable).2, ?_, ?_⟩
    · exact fun name hname => (hall name hname).notExcluded name List.mem_cons_self
    · exact fun name hname => (hall name hname).permitted name List.mem_cons_self

/-- The certificate without this alternative name. -/
def Certificate.withoutName (name : GeneralName) (cert : Certificate) : Certificate :=
  { cert with
    subjectAlternativeName := cert.subjectAlternativeName.map (Option.map fun names =>
      names.filter fun entry => entry ≠ name) }

/-- A name that cannot be interpreted adds its refusal to what the other names of
the certificate are checked for. -/
theorem pairConforms_withoutName_iff (issuer : Certificate) {subject : Certificate}
    {name : GeneralName} (hname : Uninterpretable name)
    (hmem : name ∈ subject.subjectAlternativeNames) :
    PairConforms issuer subject ↔
      PairConforms issuer (subject.withoutName name) ∧
        ∀ constraints, issuer.nameConstraints = .ok (some constraints) →
          ¬ RefusesName constraints name := by
  obtain ⟨names, hsan⟩ : ∃ names, subject.subjectAlternativeName = .ok (some names) := by
    unfold Certificate.subjectAlternativeNames at hmem
    split at hmem
    · exact ⟨_, ‹_›⟩
    · exact absurd hmem List.not_mem_nil
  rw [Certificate.subjectAlternativeNames_eq_getD hsan, Option.getD_some] at hmem
  have hsan' : (subject.withoutName name).subjectAlternativeName =
      .ok (some (names.filter fun entry => entry ≠ name)) := by
    rw [Certificate.withoutName, hsan]
    rfl
  cases hconstraints : issuer.nameConstraints with
  | error error => simp [PairConforms, hconstraints]
  | ok decoded =>
    cases decoded with
    | none => simp [PairConforms, hconstraints]
    | some constraints =>
      have hinvalid : (∀ tag value, .invalid tag value ∉ names.filter fun entry => entry ≠ name) ↔
          ∀ tag value, .invalid tag value ∉ names := by
        refine forall₂_congr fun tag value => not_congr ?_
        rw [List.mem_filter, decide_eq_true_eq, and_iff_left_iff_imp]
        rintro - rfl
        cases hname
      have hconforms : Conforms constraints names ↔
          Conforms constraints (names.filter fun entry => entry ≠ name) ∧
            ¬ RefusesName constraints name := by
        rw [conforms_iff_forall, conforms_iff_forall, ← conforms_singleton_iff hname, and_assoc]
        refine and_congr_right fun _ => ⟨fun hall => ⟨fun entry hentry => ?_, hall name hmem⟩, ?_⟩
        · exact hall entry (List.mem_of_mem_filter hentry)
        · rintro ⟨hothers, hself⟩ entry hentry
          by_cases heq : entry = name
          · rwa [heq]
          · exact hothers entry (List.mem_filter.mpr ⟨hentry, by simpa using heq⟩)
      simp only [NameConstraintsPolicy.pairConforms_iff_of_constraints hconstraints, hsan, hsan',
        Except.ok.injEq, exists_eq_left', Option.getD_some, hinvalid, hconforms, and_assoc,
        Option.some.injEq, forall_eq']

/-! ### Chains with one certificate changed -/

/-- Every certificate conforms to the constraints of every issuer above it. -/
def AllConform (chain : UnverifiedCertificateChain) : Prop :=
  ∀ j i, Governs chain j i → ∀ issuer subject, chain.certificates[j]? = some issuer →
    chain.certificates[i]? = some subject → PairConforms issuer subject

/-- The chain with the certificate at `i` replaced. -/
def UnverifiedCertificateChain.modify (chain : UnverifiedCertificateChain) (i : Nat)
    (f : Certificate → Certificate) : UnverifiedCertificateChain :=
  ⟨chain.certificates.modify i f, by simpa using chain.nonempty⟩

theorem allConform_modify {chain : UnverifiedCertificateChain} {i : Nat}
    {f : Certificate → Certificate} :
    AllConform (chain.modify i f) ↔
      ∀ j k, Governs chain j k → ∀ issuer subject, chain.certificates[j]? = some issuer →
        chain.certificates[k]? = some subject →
        PairConforms (if i = j then f issuer else issuer)
          (if i = k then f subject else subject) := by
  have hgoverns : ∀ j k, Governs (chain.modify i f) j k ↔ Governs chain j k := by
    simp [Governs, UnverifiedCertificateChain.modify, UnverifiedCertificateChain.len]
  simp only [AllConform, hgoverns]
  simp only [UnverifiedCertificateChain.modify, List.getElem?_modify]
  refine forall₃_congr fun j k _ => ?_
  cases chain.certificates[j]? <;> cases chain.certificates[k]? <;> simp

/-- The issuer at `j` has these constraints. -/
def ConstrainedBy (chain : UnverifiedCertificateChain) (j : Nat) (constraints : NameConstraints) :
    Prop :=
  ∃ issuer, chain.certificates[j]? = some issuer ∧
    issuer.nameConstraints = .ok (some constraints)

/-- The certificate at `i` has an alternative name that cannot be interpreted, and
an issuer above it has a subtree of the kind of the name. -/
structure NotInterpreted (chain : UnverifiedCertificateChain) (i : Nat) (name : GeneralName) :
    Prop where
  uninterpretable : Uninterpretable name
  carried : ∃ subject, chain.certificates[i]? = some subject ∧
    name ∈ subject.subjectAlternativeNames
  constrained : ∃ j constraints, i < j ∧ ConstrainedBy chain j constraints ∧
    ∃ base ∈ constraints.bases, SameKind name base

theorem NotInterpreted.lt_of_governs {chain : UnverifiedCertificateChain} {i j : Nat}
    {name : GeneralName} (h : NotInterpreted chain i name) (hgoverns : Governs chain j i) :
    i < j := by
  obtain ⟨j', _, hij', ⟨_, hissuer, _⟩, _⟩ := h.constrained
  have hj' : j' < chain.len := (List.getElem?_eq_some_iff.mp hissuer).1
  rcases hgoverns with ⟨hlen, -, -⟩ | ⟨hij, -⟩
  · omega
  · exact hij

/-- The chain is accepted if it is accepted without the name, which no issuer above
it refuses. -/
theorem accepts_iff_withoutName {chain : UnverifiedCertificateChain} {i : Nat}
    {name : GeneralName} (h : NotInterpreted chain i name) :
    nameConstraintsPolicy.Accepts chain ↔
      AllConform (chain.modify i (Certificate.withoutName name)) ∧
        ∀ j constraints, i < j → ConstrainedBy chain j constraints →
          ¬ RefusesName constraints name := by
  obtain ⟨subject, hsubject, hmem⟩ := h.carried
  have hissuerSame : ∀ (j : Nat) (issuer subject' : Certificate),
      PairConforms (if i = j then issuer.withoutName name else issuer) subject' ↔
        PairConforms issuer subject' := by
    intro j issuer subject'
    split <;> rfl
  have hpair : ∀ issuer, PairConforms issuer subject ↔ _ := fun issuer =>
    pairConforms_withoutName_iff issuer h.uninterpretable hmem
  rw [nameConstraintsPolicy_accepts, allConform_modify]
  simp only [hissuerSame]
  constructor
  · refine fun hall => ⟨fun j k hgoverns issuer subject' hissuer hsubject' => ?_, ?_⟩
    · have hconforms := hall j k hgoverns issuer subject' hissuer hsubject'
      split
      · next hik =>
        subst hik
        obtain rfl : subject = subject' := Option.some.inj (hsubject.symm.trans hsubject')
        exact ((hpair issuer).mp hconforms).1
      · exact hconforms
    · rintro j constraints hij ⟨issuer, hissuer, hconstraints⟩
      have hj : j < chain.len := (List.getElem?_eq_some_iff.mp hissuer).1
      have hconforms := hall j i (.inr ⟨hij, hj⟩) issuer subject hissuer hsubject
      exact ((hpair issuer).mp hconforms).2 constraints hconstraints
  · rintro ⟨hall, hnot⟩ j k hgoverns issuer subject' hissuer hsubject'
    have hconforms := hall j k hgoverns issuer subject' hissuer hsubject'
    split at hconforms
    · next hik =>
      subst hik
      obtain rfl : subject = subject' := Option.some.inj (hsubject.symm.trans hsubject')
      refine (hpair issuer).mpr ⟨hconforms, fun constraints hconstraints => ?_⟩
      exact hnot j constraints (h.lt_of_governs hgoverns) ⟨issuer, hissuer, hconstraints⟩
    · exact hconforms

/-- A chain with a name that cannot be interpreted is rejected if and only if an
issuer above the name refuses it, or a certificate of the chain without the name
does not conform to the constraints of an issuer above it. -/
theorem uninterpretable_rejected_iff (chain : UnverifiedCertificateChain) (i : Nat)
    (name : GeneralName) (h : NotInterpreted chain i name) :
    ¬ nameConstraintsPolicy.Accepts chain ↔
      (∃ j constraints, i < j ∧ ConstrainedBy chain j constraints ∧
        RefusesName constraints name) ∨
      ¬ AllConform (chain.modify i (Certificate.withoutName name)) := by
  rw [accepts_iff_withoutName h, not_and_or, or_comm]
  simp only [not_forall, not_not, exists_prop]

theorem notInterpreted_constrainedChain {names : List GeneralName} {name base : GeneralName}
    {constraints : NameConstraints} (hname : Uninterpretable name) (hmem : name ∈ names)
    (hbase : base ∈ constraints.bases) (hkind : SameKind name base) :
    NotInterpreted (SamplePki.constrainedChain (leafWithNames (some names)) constraints) 0
      name where
  uninterpretable := hname
  carried := ⟨_, rfl, hmem⟩
  constrained := ⟨1, constraints, Nat.one_pos, ⟨_, rfl, rfl⟩, base, hbase, hkind⟩

/-- Another name of the leaf is in the excluded subtree. -/
theorem uninterpretable_rejected_iff_excluded :
    ¬ nameConstraintsPolicy.Accepts (SamplePki.constrainedChain
      (leafWithNames (some [.dnsName (bytes "b.example.com"), .dnsName (bytes "a.example.com.")]))
      (SamplePki.excluding ["example.com"])) := by
  refine (uninterpretable_rejected_iff _ 0 (.dnsName (bytes "a.example.com."))
    (notInterpreted_constrainedChain (.absoluteName (by decide +kernel)) (by decide +kernel)
      List.mem_cons_self .dnsName)).mpr (.inr fun hconform => ?_)
  refine absurd (nameConstraintsPolicy_accepts.mpr hconform) ?_
  decide +kernel

/-- The chain is rejected if it has a name that cannot be interpreted below a
subtree of its kind. -/
def UninterpretableRejected (chain : UnverifiedCertificateChain) : Prop :=
  ∀ i name, NotInterpreted chain i name → ¬ nameConstraintsPolicy.Accepts chain

theorem not_uninterpretableRejected {name base : GeneralName} (hname : Uninterpretable name)
    (hkind : SameKind name base)
    (haccepts : nameConstraintsPolicy.Accepts (SamplePki.constrainedChain
      (leafWithNames (some [name])) ⟨none, some [⟨base⟩]⟩)) :
    ¬ UninterpretableRejected (SamplePki.constrainedChain
      (leafWithNames (some [name])) ⟨none, some [⟨base⟩]⟩) := fun h =>
  h 0 name (notInterpreted_constrainedChain hname List.mem_cons_self List.mem_cons_self hkind)
    haccepts

/-- An excluded subtree lets names of each kind pass that cannot be interpreted. -/
theorem uninterpretable_accepted :
    ¬ UninterpretableRejected (SamplePki.constrainedChain
      (leafWithNames (some [.dnsName (bytes "a.example.com.")]))
      ⟨none, some [⟨.dnsName (bytes "example.com")⟩]⟩) ∧
    ¬ UninterpretableRejected (SamplePki.constrainedChain
      (leafWithNames (some [.ipAddress [10, 0, 0]]))
      ⟨none, some [⟨.ipAddress [10, 0, 0, 0, 255, 0, 0, 0]⟩]⟩) ∧
    ¬ UninterpretableRejected (SamplePki.constrainedChain
      (leafWithNames (some [.uri (bytes "http://10.0.0.1/")]))
      ⟨none, some [⟨.uri (bytes "example.com")⟩]⟩) := by
  have hhost : extractHost (bytes "http://10.0.0.1/") = some (bytes "10.0.0.1") := by
    decide +kernel
  refine ⟨?_, ?_, ?_⟩
  · exact not_uninterpretableRejected (.absoluteName (by decide +kernel)) .dnsName
      (by decide +kernel)
  · exact not_uninterpretableRejected (.ipAddress (by decide) (by decide)) .ipAddress
      (by decide +kernel)
  · exact not_uninterpretableRejected (.addressHost hhost (by decide +kernel)) .uri
      (by decide +kernel)

/-! ## 3. Constraints that cannot be interpreted -/

/-- A subtree of a supported kind that its matcher cannot interpret. -/
inductive Malformed : GeneralName → Prop
  | ipLength {base : Bytes} : base.length ≠ 8 → base.length ≠ 32 → Malformed (.ipAddress base)
  | ipMask {base : Bytes} : isValidCidrMask (base.drop (base.length / 2)) = false →
      Malformed (.ipAddress base)
  | dnsName {base : Bytes} : isValidDnsName base true = false → Malformed (.dnsName base)
  | uri {base : Bytes} : isValidDnsName base true = false → Malformed (.uri base)

theorem evaluable_of_malformed {base : GeneralName} (h : Malformed base) : Evaluable base := by
  cases h with
  | ipLength _ _ => exact .ipAddress
  | ipMask _ => exact .ipAddress
  | dnsName _ => exact .dnsName
  | uri _ => exact .uri

theorem not_nameMatches_malformed {name base : GeneralName} (h : Malformed base) :
    ¬ NameMatches name base := by
  intro hmatch
  cases hmatch with
  | dnsName hmatch =>
    have hvalid := (dnsNameMatchesConstraint_iff.mp hmatch).2.1
    cases h with
    | dnsName hinvalid => simp [hvalid] at hinvalid
  | ipAddress hmatch =>
    obtain ⟨hfamily, hsubnet⟩ := (ipAddressMatchesConstraint_eq _ _).mp hmatch
    cases h with
    | ipLength hipv4 hipv6 =>
      rcases hfamily with ⟨_, hlength⟩ | ⟨_, hlength⟩
      · exact hipv4 hlength
      · exact hipv6 hlength
    | ipMask hinvalid => simp [addressIsInSubnet, hinvalid] at hsubnet
  | uri hmatch =>
    obtain ⟨host, _, hmatch⟩ := uriNameMatchesConstraint_iff.mp hmatch
    have hvalid := (dnsNameMatchesConstraint_iff.mp hmatch).2.1
    cases h with
    | uri hinvalid => simp [hvalid] at hinvalid

/-- The constraints without the subtrees with this base. -/
def NameConstraints.withoutBase (base : GeneralName) (constraints : NameConstraints) :
    NameConstraints where
  permittedSubtrees := constraints.permittedSubtrees.map fun subtrees =>
    subtrees.filter fun subtree => subtree.base ≠ base
  excludedSubtrees := constraints.excludedSubtrees.map fun subtrees =>
    subtrees.filter fun subtree => subtree.base ≠ base

theorem NameConstraints.mem_permitted_withoutBase {base base' : GeneralName}
    {constraints : NameConstraints} :
    base' ∈ (constraints.withoutBase base).permitted ↔
      base' ∈ constraints.permitted ∧ base' ≠ base := by
  cases h : constraints.permittedSubtrees with
  | none => simp [permitted, withoutBase, h]
  | some subtrees =>
    simp only [permitted, withoutBase, h, Option.map_some, Option.getD_some, List.mem_map,
      List.mem_filter, decide_eq_true_eq]
    grind

theorem NameConstraints.mem_excluded_withoutBase {base base' : GeneralName}
    {constraints : NameConstraints} :
    base' ∈ (constraints.withoutBase base).excluded ↔
      base' ∈ constraints.excluded ∧ base' ≠ base := by
  cases h : constraints.excludedSubtrees with
  | none => simp [excluded, withoutBase, h]
  | some subtrees =>
    simp only [excluded, withoutBase, h, Option.map_some, Option.getD_some, List.mem_map,
      List.mem_filter, decide_eq_true_eq]
    grind

/-- A subtree that cannot be interpreted refuses the names of its kind that no other
subtree permits, if it is a permitted one, and does nothing otherwise. -/
theorem conforms_withoutBase_iff {constraints : NameConstraints} {names : List GeneralName}
    {base : GeneralName} (h : Malformed base) :
    Conforms constraints names ↔
      Conforms (constraints.withoutBase base) names ∧
        (base ∈ constraints.permitted → ∀ name ∈ names, SameKind name base →
          ∃ base' ∈ constraints.permitted, NameMatches name base') := by
  have hother : ∀ {name base'}, NameMatches name base' → base' ≠ base := by
    rintro name base' hmatch rfl
    exact not_nameMatches_malformed h hmatch
  constructor
  · refine fun hconforms => ⟨⟨?_, ?_, ?_, ?_⟩, ?_⟩
    · exact fun base' hbase' => hconforms.permittedEvaluable base'
        (NameConstraints.mem_permitted_withoutBase.mp hbase').1
    · exact fun base' hbase' => hconforms.excludedEvaluable base'
        (NameConstraints.mem_excluded_withoutBase.mp hbase').1
    · exact fun name hname base' hbase' => hconforms.notExcluded name hname base'
        (NameConstraints.mem_excluded_withoutBase.mp hbase').1
    · rintro name hname ⟨base', hbase', hkind⟩
      obtain ⟨base'', hbase'', hmatch⟩ := hconforms.permitted name hname
        ⟨base', (NameConstraints.mem_permitted_withoutBase.mp hbase').1, hkind⟩
      exact ⟨base'', NameConstraints.mem_permitted_withoutBase.mpr ⟨hbase'', hother hmatch⟩,
        hmatch⟩
    · exact fun hbase name hname hkind => hconforms.permitted name hname ⟨base, hbase, hkind⟩
  · rintro ⟨hconforms, hpermitted⟩
    refine ⟨fun base' hbase' => ?_, fun base' hbase' => ?_, ?_, ?_⟩
    · by_cases heq : base' = base
      · rw [heq]
        exact evaluable_of_malformed h
      · exact hconforms.permittedEvaluable base'
          (NameConstraints.mem_permitted_withoutBase.mpr ⟨hbase', heq⟩)
    · by_cases heq : base' = base
      · rw [heq]
        exact evaluable_of_malformed h
      · exact hconforms.excludedEvaluable base'
          (NameConstraints.mem_excluded_withoutBase.mpr ⟨hbase', heq⟩)
    · intro name hname base' hbase' hmatch
      exact hconforms.notExcluded name hname base'
        (NameConstraints.mem_excluded_withoutBase.mpr ⟨hbase', hother hmatch⟩) hmatch
    · rintro name hname ⟨base', hbase', hkind⟩
      by_cases heq : base' = base
      · rw [heq] at hbase' hkind
        exact hpermitted hbase' name hname hkind
      · obtain ⟨base'', hbase'', hmatch⟩ := hconforms.permitted name hname
          ⟨base', NameConstraints.mem_permitted_withoutBase.mpr ⟨hbase', heq⟩, hkind⟩
        exact ⟨base'', (NameConstraints.mem_permitted_withoutBase.mp hbase'').1, hmatch⟩

def Certificate.withoutBase (base : GeneralName) (cert : Certificate) : Certificate :=
  { cert with
    nameConstraints := cert.nameConstraints.map (Option.map (NameConstraints.withoutBase base)) }

theorem pairConforms_withoutBase_iff {issuer : Certificate} (subject : Certificate)
    {base : GeneralName} {constraints : NameConstraints} (h : Malformed base)
    (hconstraints : issuer.nameConstraints = .ok (some constraints)) :
    PairConforms issuer subject ↔
      PairConforms (issuer.withoutBase base) subject ∧
        (base ∈ constraints.permitted → ∀ name ∈ subject.subjectAlternativeNames,
          SameKind name base → ∃ base' ∈ constraints.permitted, NameMatches name base') := by
  have hconstraints' : (issuer.withoutBase base).nameConstraints =
      .ok (some (constraints.withoutBase base)) := by
    rw [Certificate.withoutBase, hconstraints]
    rfl
  rw [NameConstraintsPolicy.pairConforms_iff_of_constraints hconstraints,
    NameConstraintsPolicy.pairConforms_iff_of_constraints hconstraints']
  cases hsan : subject.subjectAlternativeName with
  | error error => simp
  | ok san =>
    have hconforms : Conforms constraints (san.getD []) ↔ _ := conforms_withoutBase_iff h
    rw [Certificate.subjectAlternativeNames_eq_getD hsan]
    simp only [Except.ok.injEq, exists_eq_left', hconforms, and_assoc]

/-- The issuer at `j`, which is not the leaf, has a subtree that cannot be
interpreted. -/
structure MalformedAt (chain : UnverifiedCertificateChain) (j : Nat)
    (constraints : NameConstraints) (base : GeneralName) : Prop where
  aboveLeaf : 0 < j
  constrained : ConstrainedBy chain j constraints
  subtree : base ∈ constraints.bases
  malformed : Malformed base

/-- The chain is accepted if it is accepted without the subtree, which no name below
it needs. -/
theorem accepts_iff_withoutBase {chain : UnverifiedCertificateChain} {j : Nat}
    {constraints : NameConstraints} {base : GeneralName}
    (h : MalformedAt chain j constraints base) :
    nameConstraintsPolicy.Accepts chain ↔
      AllConform (chain.modify j (Certificate.withoutBase base)) ∧
        (base ∈ constraints.permitted → ∀ i < j, ∀ subject, chain.certificates[i]? = some subject →
          ∀ name ∈ subject.subjectAlternativeNames, SameKind name base →
            ∃ base' ∈ constraints.permitted, NameMatches name base') := by
  obtain ⟨issuer, hissuer, hconstraints⟩ := h.constrained
  have hj : j < chain.len := (List.getElem?_eq_some_iff.mp hissuer).1
  have hsubjectSame : ∀ (i : Nat) (issuer' subject : Certificate),
      PairConforms issuer' (if j = i then subject.withoutBase base else subject) ↔
        PairConforms issuer' subject := by
    intro i issuer' subject
    split <;> rfl
  have hpair : ∀ subject, PairConforms issuer subject ↔ _ := fun subject =>
    pairConforms_withoutBase_iff subject h.malformed hconstraints
  rw [nameConstraintsPolicy_accepts, allConform_modify]
  simp only [hsubjectSame]
  constructor
  · refine fun hall => ⟨fun k i hgoverns issuer' subject hissuer' hsubject => ?_, ?_⟩
    · have hconforms := hall k i hgoverns issuer' subject hissuer' hsubject
      split
      · next hjk =>
        subst hjk
        obtain rfl : issuer = issuer' := Option.some.inj (hissuer.symm.trans hissuer')
        exact ((hpair subject).mp hconforms).1
      · exact hconforms
    · intro hbase i hij subject hsubject
      have hconforms := hall j i (.inr ⟨hij, hj⟩) issuer subject hissuer hsubject
      exact ((hpair subject).mp hconforms).2 hbase
  · rintro ⟨hall, hpermitted⟩ k i hgoverns issuer' subject hissuer' hsubject
    have hconforms := hall k i hgoverns issuer' subject hissuer' hsubject
    split at hconforms
    · next hjk =>
      subst hjk
      obtain rfl : issuer = issuer' := Option.some.inj (hissuer.symm.trans hissuer')
      have hij : i < j := by
        rcases hgoverns with ⟨-, hzero, -⟩ | ⟨hij, -⟩
        · exact absurd hzero h.aboveLeaf.ne'
        · exact hij
      exact (hpair subject).mpr ⟨hconforms, fun hbase => hpermitted hbase i hij subject hsubject⟩
    · exact hconforms

/-- A chain with a subtree that cannot be interpreted is rejected if and only if
that is a permitted subtree and a certificate below it has a name of its kind that
no subtree permits, or a certificate of the chain without the subtree does not
conform to the constraints of an issuer above it. -/
theorem malformed_rejected_iff (chain : UnverifiedCertificateChain) (j : Nat)
    (constraints : NameConstraints) (base : GeneralName)
    (h : MalformedAt chain j constraints base) :
    ¬ nameConstraintsPolicy.Accepts chain ↔
      (base ∈ constraints.permitted ∧ ∃ i subject name, i < j ∧
        chain.certificates[i]? = some subject ∧ name ∈ subject.subjectAlternativeNames ∧
        SameKind name base ∧ ∀ base' ∈ constraints.permitted, ¬ NameMatches name base') ∨
      ¬ AllConform (chain.modify j (Certificate.withoutBase base)) := by
  rw [accepts_iff_withoutBase h, not_and_or, or_comm]
  simp only [not_forall, not_exists, not_and, exists_prop]
  refine or_congr_left (and_congr_right fun _ => ?_)
  constructor
  · rintro ⟨i, hij, subject, hsubject, name, hname, hkind, hnone⟩
    exact ⟨i, subject, name, hij, hsubject, hname, hkind, hnone⟩
  · rintro ⟨i, subject, name, hij, hsubject, hname, hkind, hnone⟩
    exact ⟨i, hij, subject, hsubject, name, hname, hkind, hnone⟩

theorem malformedAt_constrainedChain {leaf : Certificate} {constraints : NameConstraints}
    {base : GeneralName} (hbase : base ∈ constraints.bases) (h : Malformed base) :
    MalformedAt (SamplePki.constrainedChain leaf constraints) 1 constraints base :=
  ⟨Nat.one_pos, ⟨_, rfl, rfl⟩, hbase, h⟩

/-- Next to a subtree that excludes the name of the leaf. -/
theorem malformed_rejected_iff_excluded :
    ¬ nameConstraintsPolicy.Accepts (SamplePki.constrainedChain
      (SamplePki.hostLeaf "" ["www.example.com"])
      (SamplePki.excluding ["example.com", "a..example.com"])) := by
  refine (malformed_rejected_iff _ 1 _ (.dnsName (bytes "a..example.com"))
    (malformedAt_constrainedChain (by decide +kernel) (.dnsName (by decide +kernel)))).mpr
    (.inr fun hconform => ?_)
  refine absurd (nameConstraintsPolicy_accepts.mpr hconform) ?_
  decide +kernel

/-- The chain is rejected if an issuer has a subtree that cannot be interpreted. -/
def MalformedRejected (chain : UnverifiedCertificateChain) : Prop :=
  ∀ j constraints base, MalformedAt chain j constraints base →
    ¬ nameConstraintsPolicy.Accepts chain

/-- A mask that is none, and a name with an empty label. -/
theorem malformed_accepted :
    ¬ MalformedRejected (SamplePki.constrainedChain
      (leafWithNames (some [.ipAddress [10, 0, 0, 1]]))
      ⟨none, some [⟨.ipAddress [10, 0, 0, 0, 255, 0, 255, 0]⟩]⟩) ∧
    ¬ MalformedRejected (SamplePki.constrainedChain (leafWithNames none)
      ⟨some [⟨.dnsName (bytes "a..example.com")⟩], none⟩) := by
  constructor
  · exact fun hrejected => hrejected 1 _ _
      (malformedAt_constrainedChain List.mem_cons_self (.ipMask (by decide +kernel)))
      (by decide +kernel)
  · exact fun hrejected => hrejected 1 _ _
      (malformedAt_constrainedChain List.mem_cons_self (.dnsName (by decide +kernel)))
      (by decide +kernel)

end X509Validator
