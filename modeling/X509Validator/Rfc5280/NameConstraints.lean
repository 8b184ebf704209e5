import X509Validator.Policy
import X509Validator.Rfc5280.DnsNames
import X509Validator.Rfc5280.IpConstraints
import X509Validator.Rfc5280.UriConstraints
import X509Validator.Lib.Checks
import Mathlib.Data.List.Forall2

/-!
# Name constraints

`NameConstraintsPolicy` applies the name constraints of every issuer to all
certificates below it. The first half of this module is the code, with its
`unreachable!()` arms and its indexing as panics. The second half says what a
certificate must look like to conform to the constraints of an issuer
(`PairConforms`), in terms of sets of names and subtrees.

The loop over permitted subtrees stops at the first match, so for a single name
it may not see a subtree that cannot be evaluated. But the subject of every
certificate is one of the names, it is a directory name, and a directory name
matches nothing, so for this name the loop sees every subtree.

Results:
1. `nameConstraints_exact`: the policy accepts a chain if and only if all pairs
   of an issuer and a certificate below it conform. It does not panic, and the
   order of subtrees and of alternative names makes no difference.
-/

namespace X509Validator

open Checks

/-! ## The policy -/

def isDirectoryName : GeneralName → Bool
  | .directoryName _ => true
  | _ => false

def isInvalid : GeneralName → Bool
  | .invalid _ _ => true
  | _ => false

def constraintKindIsUnsupported : GeneralName → Bool
  | .dnsName _ | .ipAddress _ | .uri _ | .directoryName _ => false
  | _ => true

/-- How a name and a constraint compare. -/
inductive Comparison
  | compared (matched : Bool)
  | unreachable
  | otherKind
deriving DecidableEq

/-- The `match` on name and constraint that both loops contain. -/
def compareNames : GeneralName → GeneralName → Comparison
  | .dnsName name, .dnsName constraint => .compared (dnsNameMatchesConstraint name constraint)
  | .ipAddress name, .ipAddress constraint => .compared (ipAddressMatchesConstraint name constraint)
  | .uri name, .uri constraint => .compared (uriNameMatchesConstraint name constraint)
  | .directoryName _, .directoryName _ => .unreachable
  | _, _ => .otherKind

namespace NameConstraintsPolicy

def names (cert : Certificate) : Except PolicyHalt (List GeneralName) :=
  match cert.subjectAlternativeName with
  | .error error =>
    fail s!"unable to decode subject alternative name from {cert.debug}: {error.display}"
  | .ok none => .ok [.directoryName cert.subject]
  | .ok (some generalNames) =>
    if generalNames.any isInvalid then
      fail s!"unable to decode a subject alternative name from {cert.debug}"
    else
      .ok (.directoryName cert.subject :: generalNames)

/-- If any excluded subtree matches, the name is forbidden. -/
def validateExcludedSubtrees (name : GeneralName) : List GeneralSubtree → Except PolicyHalt Unit
  | [] => .ok ()
  | subtree :: rest =>
    if isDirectoryName subtree.base && isDirectoryName name then
      fail "directoryName name constraints are not supported"
    else if constraintKindIsUnsupported subtree.base then
      fail "unable to validate excluded subtree, unsupported constraint kind"
    else
      match compareNames name subtree.base with
      | .compared true => fail "name is in an excluded subtree"
      | .compared false => validateExcludedSubtrees name rest
      | .unreachable => .error .panicked
      | .otherKind => validateExcludedSubtrees name rest

/-- If any permitted subtree matches, the name is permitted; if none does, it is
only if there was nothing to compare it with. -/
def validatePermittedSubtrees (name : GeneralName) :
    List GeneralSubtree → Bool → Except PolicyHalt Unit
  | [], evaluatedAtLeastOneConstraint =>
    if !evaluatedAtLeastOneConstraint then .ok ()
    else fail "unable to validate permitted subtree, no matches"
  | subtree :: rest, evaluatedAtLeastOneConstraint =>
    if isDirectoryName subtree.base && isDirectoryName name then
      fail "directoryName name constraints are not supported"
    else if constraintKindIsUnsupported subtree.base then
      fail "unable to validate permitted subtree, unsupported constraint kind"
    else
      match compareNames name subtree.base with
      | .compared true => .ok ()
      | .compared false => validatePermittedSubtrees name rest true
      | .unreachable => .error .panicked
      | .otherKind => validatePermittedSubtrees name rest evaluatedAtLeastOneConstraint

/-- The body of the loop over the names of a certificate. -/
def validateName (constraints : NameConstraints) (name : GeneralName) : Except PolicyHalt Unit := do
  (match constraints.permittedSubtrees with
    | some permitted => validatePermittedSubtrees name permitted false
    | none => .ok ())
  (match constraints.excludedSubtrees with
    | some excluded => validateExcludedSubtrees name excluded
    | none => .ok ())

def validateNameConstraints (chain : UnverifiedCertificateChain) (issuer : Certificate)
    (subjectIndices : List Nat) : Except PolicyHalt Unit :=
  match issuer.nameConstraints with
  | .error error => fail s!"unable to decode name constraints from {issuer.debug}: {error.display}"
  | .ok none => .ok ()
  | .ok (some constraints) =>
    forEach (fun i => do
      let cert ← chain.index i
      let names ← names cert
      forEach (validateName constraints) names) subjectIndices

/-- `chain_meets_policy_requirements`, from the root to the leaf. -/
def evaluate (chain : UnverifiedCertificateChain) : Except PolicyHalt Unit :=
  if chain.len = 1 then
    validateNameConstraints chain chain.leaf [0]
  else
    forEach (fun issuerIndex => do
      let issuer ← chain.index issuerIndex
      validateNameConstraints chain issuer (List.range issuerIndex))
      (List.range' 1 (chain.len - 1)).reverse

end NameConstraintsPolicy

/-! ## Conforming certificates -/

/-- A constraint of a kind that can be evaluated. -/
inductive Evaluable : GeneralName → Prop
  | dnsName {constraint : Bytes} : Evaluable (.dnsName constraint)
  | ipAddress {constraint : Bytes} : Evaluable (.ipAddress constraint)
  | uri {constraint : Bytes} : Evaluable (.uri constraint)

/-- A name and a constraint of the same kind. -/
inductive SameKind : GeneralName → GeneralName → Prop
  | dnsName {name constraint : Bytes} : SameKind (.dnsName name) (.dnsName constraint)
  | ipAddress {name constraint : Bytes} : SameKind (.ipAddress name) (.ipAddress constraint)
  | uri {name constraint : Bytes} : SameKind (.uri name) (.uri constraint)

/-- A name and a constraint of the same kind that match. -/
inductive NameMatches : GeneralName → GeneralName → Prop
  | dnsName {name constraint : Bytes} : dnsNameMatchesConstraint name constraint = true →
      NameMatches (.dnsName name) (.dnsName constraint)
  | ipAddress {name constraint : Bytes} : ipAddressMatchesConstraint name constraint = true →
      NameMatches (.ipAddress name) (.ipAddress constraint)
  | uri {name constraint : Bytes} : uriNameMatchesConstraint name constraint = true →
      NameMatches (.uri name) (.uri constraint)

namespace NameConstraints

def permitted (constraints : NameConstraints) : List GeneralName :=
  (constraints.permittedSubtrees.getD []).map GeneralSubtree.base

def excluded (constraints : NameConstraints) : List GeneralName :=
  (constraints.excludedSubtrees.getD []).map GeneralSubtree.base

end NameConstraints

/-- The names satisfy the constraints, which can all be evaluated. -/
structure Conforms (constraints : NameConstraints) (names : List GeneralName) : Prop where
  permittedEvaluable : ∀ base ∈ constraints.permitted, Evaluable base
  excludedEvaluable : ∀ base ∈ constraints.excluded, Evaluable base
  notExcluded : ∀ name ∈ names, ∀ base ∈ constraints.excluded, ¬ NameMatches name base
  permitted : ∀ name ∈ names, (∃ base ∈ constraints.permitted, SameKind name base) →
    ∃ base ∈ constraints.permitted, NameMatches name base

/-- The name constraints of the issuer decode, and if there are any, the
alternative names of the subject decode and conform to them. -/
def PairConforms (issuer subject : Certificate) : Prop :=
  ∃ decoded, issuer.nameConstraints = .ok decoded ∧ ∀ constraints, decoded = some constraints →
    ∃ san, subject.subjectAlternativeName = .ok san ∧
      (∀ tag value, .invalid tag value ∉ san.getD []) ∧ Conforms constraints (san.getD [])

/-- The issuer at `j` governs the certificate at `i`. A certificate on its own
governs itself. -/
def Governs (chain : UnverifiedCertificateChain) (j i : Nat) : Prop :=
  (chain.len = 1 ∧ j = 0 ∧ i = 0) ∨ (i < j ∧ j < chain.len)

/-! ## Comparisons -/

theorem compareNames_matched {name base : GeneralName} :
    compareNames name base = .compared true ↔ NameMatches name base := by
  constructor
  · intro h
    unfold compareNames at h
    split at h
    · exact .dnsName (Comparison.compared.inj h)
    · exact .ipAddress (Comparison.compared.inj h)
    · exact .uri (Comparison.compared.inj h)
    · cases h
    · cases h
  · rintro (h | h | h) <;> simp [compareNames, h]

theorem compareNames_compared {name base : GeneralName} :
    (∃ matched, compareNames name base = .compared matched) ↔ SameKind name base := by
  constructor
  · rintro ⟨matched, h⟩
    unfold compareNames at h
    split at h
    · exact .dnsName
    · exact .ipAddress
    · exact .uri
    · cases h
    · cases h
  · rintro (_ | _ | _)
    · exact ⟨_, rfl⟩
    · exact ⟨_, rfl⟩
    · exact ⟨_, rfl⟩

theorem evaluable_iff {base : GeneralName} :
    Evaluable base ↔ isDirectoryName base = false ∧ constraintKindIsUnsupported base = false := by
  constructor
  · rintro (_ | _ | _) <;> exact ⟨rfl, rfl⟩
  · rintro ⟨hdirectory, hsupported⟩
    cases base with
    | dnsName _ => exact .dnsName
    | ipAddress _ => exact .ipAddress
    | uri _ => exact .uri
    | directoryName _ => cases hdirectory
    | _ => cases hsupported

theorem not_evaluable_iff {base : GeneralName} :
    ¬ Evaluable base ↔ isDirectoryName base = true ∨ constraintKindIsUnsupported base = true := by
  rw [evaluable_iff, not_and_or, Bool.not_eq_false, Bool.not_eq_false]

theorem compareNames_of_evaluable {name base : GeneralName} (h : Evaluable base) :
    compareNames name base ≠ .unreachable := by
  cases h <;> cases name <;> simp [compareNames]

/-- A directory name matches nothing. -/
theorem compareNames_directoryName {subject : X509Name} {base : GeneralName} (h : Evaluable base) :
    compareNames (.directoryName subject) base = .otherKind := by
  cases h <;> rfl

/-- Both loops reject a directory constraint for a directory name, so the
comparison of the two is not reached. -/
theorem compareNames_ne_unreachable {name base : GeneralName}
    (h : ¬ (isDirectoryName base && isDirectoryName name) = true) :
    compareNames name base ≠ .unreachable := by
  unfold compareNames
  split
  · simp
  · simp
  · simp
  · exact absurd rfl h
  · simp

/-! ## The two loops -/

namespace NameConstraintsPolicy

variable {name : GeneralName} {subtrees : List GeneralSubtree} {constraints : NameConstraints}

theorem validateExcludedSubtrees_ne_panicked :
    validateExcludedSubtrees name subtrees ≠ .error .panicked := by
  induction subtrees with
  | nil => simp [validateExcludedSubtrees]
  | cons subtree rest ih =>
    rw [validateExcludedSubtrees]
    split
    · exact fail_ne_panicked
    next hdirectory =>
    split
    · exact fail_ne_panicked
    split
    · exact fail_ne_panicked
    · exact ih
    · next h => exact absurd h (compareNames_ne_unreachable hdirectory)
    · exact ih

theorem validatePermittedSubtrees_ne_panicked {evaluated : Bool} :
    validatePermittedSubtrees name subtrees evaluated ≠ .error .panicked := by
  induction subtrees generalizing evaluated with
  | nil =>
    rw [validatePermittedSubtrees]
    split
    · simp
    · exact fail_ne_panicked
  | cons subtree rest ih =>
    rw [validatePermittedSubtrees]
    split
    · exact fail_ne_panicked
    next hdirectory =>
    split
    · exact fail_ne_panicked
    split
    · simp
    · exact ih
    · next h => exact absurd h (compareNames_ne_unreachable hdirectory)
    · exact ih

/-- A subtree that can be evaluated is compared with the name. -/
theorem validateExcludedSubtrees_cons {subtree : GeneralSubtree} (h : Evaluable subtree.base) :
    validateExcludedSubtrees name (subtree :: subtrees) =
      match compareNames name subtree.base with
      | .compared true => fail "name is in an excluded subtree"
      | .compared false => validateExcludedSubtrees name subtrees
      | .unreachable => .error .panicked
      | .otherKind => validateExcludedSubtrees name subtrees := by
  obtain ⟨hdirectory, hsupported⟩ := evaluable_iff.mp h
  rw [validateExcludedSubtrees, hdirectory, hsupported]
  rfl

theorem validatePermittedSubtrees_cons {subtree : GeneralSubtree} {evaluated : Bool}
    (h : Evaluable subtree.base) :
    validatePermittedSubtrees name (subtree :: subtrees) evaluated =
      match compareNames name subtree.base with
      | .compared true => .ok ()
      | .compared false => validatePermittedSubtrees name subtrees true
      | .unreachable => .error .panicked
      | .otherKind => validatePermittedSubtrees name subtrees evaluated := by
  obtain ⟨hdirectory, hsupported⟩ := evaluable_iff.mp h
  rw [validatePermittedSubtrees, hdirectory, hsupported]
  rfl

/-- For a directory name the loops see every subtree and accept none that cannot
be evaluated. -/
theorem validateExcludedSubtrees_directoryName {subject : X509Name} :
    validateExcludedSubtrees (.directoryName subject) subtrees = .ok () ↔
      ∀ subtree ∈ subtrees, Evaluable subtree.base := by
  induction subtrees with
  | nil => simp [validateExcludedSubtrees]
  | cons subtree rest ih =>
    rw [List.forall_mem_cons]
    by_cases h : Evaluable subtree.base
    · rw [validateExcludedSubtrees_cons h, compareNames_directoryName h]
      simp only [ih, h, true_and]
    · have hfail :
          validateExcludedSubtrees (.directoryName subject) (subtree :: rest) ≠ .ok () := by
        rw [validateExcludedSubtrees]
        rcases not_evaluable_iff.mp h with hdirectory | hunsupported
        · rw [if_pos (by rw [hdirectory]; rfl)]
          exact fail_ne_ok
        · split
          · exact fail_ne_ok
          · exact fail_ne_ok
      simp only [hfail, h, false_and]

theorem validatePermittedSubtrees_directoryName {subject : X509Name} :
    validatePermittedSubtrees (.directoryName subject) subtrees false = .ok () ↔
      ∀ subtree ∈ subtrees, Evaluable subtree.base := by
  induction subtrees with
  | nil => simp [validatePermittedSubtrees]
  | cons subtree rest ih =>
    rw [List.forall_mem_cons]
    by_cases h : Evaluable subtree.base
    · rw [validatePermittedSubtrees_cons h, compareNames_directoryName h]
      simp only [ih, h, true_and]
    · have hfail :
          validatePermittedSubtrees (.directoryName subject) (subtree :: rest) false ≠ .ok () := by
        rw [validatePermittedSubtrees]
        rcases not_evaluable_iff.mp h with hdirectory | hunsupported
        · rw [if_pos (by rw [hdirectory]; rfl)]
          exact fail_ne_ok
        · split
          · exact fail_ne_ok
          · exact fail_ne_ok
      simp only [hfail, h, false_and]

/-- Where every subtree can be evaluated, the loop over the excluded ones looks
for a match. -/
theorem validateExcludedSubtrees_eq_ok (h : ∀ subtree ∈ subtrees, Evaluable subtree.base) :
    validateExcludedSubtrees name subtrees = .ok () ↔
      ∀ subtree ∈ subtrees, ¬ NameMatches name subtree.base := by
  induction subtrees with
  | nil => simp [validateExcludedSubtrees]
  | cons subtree rest ih =>
    rw [List.forall_mem_cons] at h
    rw [List.forall_mem_cons, validateExcludedSubtrees_cons h.1, ← compareNames_matched]
    cases hcompare : compareNames name subtree.base with
    | compared matched => cases matched <;> simp [ih h.2, fail]
    | unreachable => exact absurd hcompare (compareNames_of_evaluable h.1)
    | otherKind => simp [ih h.2]

/-- Where every subtree can be evaluated, the loop over the permitted ones looks
for a match, unless there is nothing to compare with. -/
theorem validatePermittedSubtrees_eq_ok {evaluated : Bool}
    (h : ∀ subtree ∈ subtrees, Evaluable subtree.base) :
    validatePermittedSubtrees name subtrees evaluated = .ok () ↔
      (∃ subtree ∈ subtrees, NameMatches name subtree.base) ∨
      (evaluated = false ∧ ∀ subtree ∈ subtrees, ¬ SameKind name subtree.base) := by
  induction subtrees generalizing evaluated with
  | nil => cases evaluated <;> simp [validatePermittedSubtrees, fail]
  | cons subtree rest ih =>
    rw [List.forall_mem_cons] at h
    rw [List.exists_mem_cons_iff, List.forall_mem_cons, validatePermittedSubtrees_cons h.1,
      ← compareNames_matched, ← compareNames_compared]
    cases hcompare : compareNames name subtree.base with
    | compared matched => cases matched <;> simp [ih h.2]
    | unreachable => exact absurd hcompare (compareNames_of_evaluable h.1)
    | otherKind => simp [ih h.2]

/-! ## One certificate -/

theorem validateName_eq_ok :
    validateName constraints name = .ok () ↔
      validatePermittedSubtrees name (constraints.permittedSubtrees.getD []) false = .ok () ∧
      validateExcludedSubtrees name (constraints.excludedSubtrees.getD []) = .ok () := by
  rw [validateName, seq_eq_ok]
  cases constraints.permittedSubtrees <;> cases constraints.excludedSubtrees <;>
    simp [validatePermittedSubtrees, validateExcludedSubtrees]

theorem forall_permitted {P : GeneralName → Prop} :
    (∀ base ∈ constraints.permitted, P base) ↔
      ∀ subtree ∈ constraints.permittedSubtrees.getD [], P subtree.base :=
  List.forall_mem_map

theorem forall_excluded {P : GeneralName → Prop} :
    (∀ base ∈ constraints.excluded, P base) ↔
      ∀ subtree ∈ constraints.excludedSubtrees.getD [], P subtree.base :=
  List.forall_mem_map

theorem exists_permitted {P : GeneralName → Prop} :
    (∃ base ∈ constraints.permitted, P base) ↔
      ∃ subtree ∈ constraints.permittedSubtrees.getD [], P subtree.base := by
  simp [NameConstraints.permitted]

/-- The subject and the alternative names of a certificate pass if and only if
the alternative names conform. -/
theorem validateNames_eq_ok {subject : X509Name} {san : List GeneralName} :
    (∀ name ∈ GeneralName.directoryName subject :: san, validateName constraints name = .ok ()) ↔
      Conforms constraints san := by
  rw [List.forall_mem_cons, validateName_eq_ok, validatePermittedSubtrees_directoryName,
    validateExcludedSubtrees_directoryName, ← forall_permitted, ← forall_excluded]
  constructor
  · rintro ⟨⟨hpermitted, hexcluded⟩, hnames⟩
    refine ⟨hpermitted, hexcluded, fun name hname => ?_, fun name hname => ?_⟩
    · have hok := (validateName_eq_ok.mp (hnames name hname)).2
      rw [forall_excluded] at hexcluded ⊢
      exact (validateExcludedSubtrees_eq_ok hexcluded).mp hok
    · have hok := (validateName_eq_ok.mp (hnames name hname)).1
      rw [forall_permitted] at hpermitted
      rw [exists_permitted, exists_permitted]
      rintro ⟨subtree, hsubtree, hkind⟩
      rcases (validatePermittedSubtrees_eq_ok hpermitted).mp hok with hmatch | ⟨-, hnone⟩
      · exact hmatch
      · exact absurd hkind (hnone subtree hsubtree)
  · rintro ⟨hpermitted, hexcluded, hnotExcluded, hmatched⟩
    refine ⟨⟨hpermitted, hexcluded⟩, fun name hname => validateName_eq_ok.mpr ⟨?_, ?_⟩⟩
    · have hname := hmatched name hname
      rw [forall_permitted] at hpermitted
      rw [exists_permitted, exists_permitted] at hname
      rw [validatePermittedSubtrees_eq_ok hpermitted]
      by_cases hkind : ∃ subtree ∈ constraints.permittedSubtrees.getD [], SameKind name subtree.base
      · exact .inl (hname hkind)
      · exact .inr ⟨rfl, fun subtree hsubtree h => hkind ⟨subtree, hsubtree, h⟩⟩
    · have hname := hnotExcluded name hname
      rw [forall_excluded] at hexcluded hname
      exact (validateExcludedSubtrees_eq_ok hexcluded).mpr hname

theorem names_eq_ok {cert : Certificate} {names : List GeneralName} :
    NameConstraintsPolicy.names cert = .ok names ↔
      ∃ san, cert.subjectAlternativeName = .ok san ∧
        (∀ tag value, .invalid tag value ∉ san.getD []) ∧
        names = .directoryName cert.subject :: san.getD [] := by
  unfold NameConstraintsPolicy.names
  split
  · next h => simp [h, fail]
  · next h =>
    constructor
    · intro hnames
      exact ⟨none, h, by simp, by simpa [eq_comm] using hnames⟩
    · rintro ⟨san, hsan, -, rfl⟩
      rw [h] at hsan
      cases hsan
      rfl
  · next generalNames h =>
    have hinvalid : generalNames.any isInvalid = false ↔
        ∀ tag value, GeneralName.invalid tag value ∉ generalNames := by
      rw [List.any_eq_false]
      constructor
      · intro hall tag value hmem
        exact hall _ hmem rfl
      · intro hnone name hname
        cases name with
        | invalid tag value => exact absurd hname (hnone tag value)
        | _ => simp [isInvalid]
    constructor
    · intro hnames
      split at hnames
      · exact absurd hnames fail_ne_ok
      · next hany =>
        cases hnames
        exact ⟨some generalNames, h, hinvalid.mp (Bool.not_eq_true _ ▸ hany), rfl⟩
    · rintro ⟨san, hsan, hnone, rfl⟩
      rw [h] at hsan
      cases hsan
      rw [if_neg (by rw [hinvalid.mpr hnone]; exact Bool.false_ne_true)]
      rfl

/-! ## Whole chains -/

variable {chain : UnverifiedCertificateChain}

/-- The names of one certificate are checked. -/
theorem validateSubject_eq_ok {subject : Certificate} :
    (do
      let names ← names subject
      forEach (validateName constraints) names) = .ok () ↔
      ∃ san, subject.subjectAlternativeName = .ok san ∧
        (∀ tag value, .invalid tag value ∉ san.getD []) ∧ Conforms constraints (san.getD []) := by
  rw [bind_eq_ok]
  constructor
  · rintro ⟨_, hnames, hok⟩
    obtain ⟨san, hsan, hvalid, rfl⟩ := names_eq_ok.mp hnames
    exact ⟨san, hsan, hvalid, validateNames_eq_ok.mp (forEach_eq_ok.mp hok)⟩
  · rintro ⟨san, hsan, hvalid, hconforms⟩
    exact ⟨_, names_eq_ok.mpr ⟨san, hsan, hvalid, rfl⟩,
      forEach_eq_ok.mpr (validateNames_eq_ok.mpr hconforms)⟩

theorem pairConforms_iff_of_constraints {issuer subject : Certificate}
    (h : issuer.nameConstraints = .ok (some constraints)) :
    PairConforms issuer subject ↔
      ∃ san, subject.subjectAlternativeName = .ok san ∧
        (∀ tag value, .invalid tag value ∉ san.getD []) ∧ Conforms constraints (san.getD []) := by
  unfold PairConforms
  rw [h]
  constructor
  · rintro ⟨_, hdecoded, hconforms⟩
    cases hdecoded
    exact hconforms constraints rfl
  · intro hconforms
    refine ⟨some constraints, rfl, fun constraints' hconstraints => ?_⟩
    cases hconstraints
    exact hconforms

theorem validateNameConstraints_eq_ok {issuer : Certificate} {indices : List Nat}
    (hindices : ∀ i ∈ indices, i < chain.len) (hne : indices ≠ []) :
    validateNameConstraints chain issuer indices = .ok () ↔
      ∀ i ∈ indices, ∀ subject, chain.certificates[i]? = some subject →
        PairConforms issuer subject := by
  obtain ⟨first, hfirst⟩ := List.exists_mem_of_ne_nil indices hne
  obtain ⟨cert, _, hcert⟩ := chain.index_lt (hindices first hfirst)
  unfold validateNameConstraints
  split
  · next h =>
    refine ⟨fun hok => absurd hok fail_ne_ok, fun hall => ?_⟩
    obtain ⟨_, hdecoded, _⟩ := hall first hfirst cert hcert
    rw [h] at hdecoded
    cases hdecoded
  · next h => simp [PairConforms, h]
  · next constraints h =>
    rw [forEach_eq_ok]
    refine forall₂_congr fun i hi => ?_
    obtain ⟨subject, hindex, hsubject⟩ := chain.index_lt (hindices i hi)
    simp only [hsubject, Option.some.injEq, forall_eq']
    rw [hindex, pairConforms_iff_of_constraints h]
    exact validateSubject_eq_ok

/-- One issuer is checked against all certificates below it. -/
theorem validateIssuer_eq_ok {j : Nat} (hpos : 0 < j) (hj : j < chain.len) :
    (do
      let issuer ← chain.index j
      validateNameConstraints chain issuer (List.range j)) = .ok () ↔
      ∀ issuer, chain.certificates[j]? = some issuer → ∀ i < j, ∀ subject,
        chain.certificates[i]? = some subject → PairConforms issuer subject := by
  obtain ⟨issuer, hindex, hissuer⟩ := chain.index_lt hj
  have hrange : ∀ i ∈ List.range j, i < chain.len := by
    intro i hi
    exact (List.mem_range.mp hi).trans hj
  have hne : List.range j ≠ [] := by
    rw [Ne, List.range_eq_nil]
    exact hpos.ne'
  simp only [hissuer, Option.some.injEq, forall_eq']
  rw [hindex]
  refine (validateNameConstraints_eq_ok hrange hne).trans ?_
  simp only [List.mem_range]

theorem mem_issuerIndices {j : Nat} :
    j ∈ (List.range' 1 (chain.len - 1)).reverse ↔ 0 < j ∧ j < chain.len := by
  have hpos := chain.len_pos
  rw [List.mem_reverse, List.mem_range'_1]
  omega

theorem evaluate_eq_ok :
    evaluate chain = .ok () ↔
      ∀ j i, Governs chain j i → ∀ issuer subject, chain.certificates[j]? = some issuer →
        chain.certificates[i]? = some subject → PairConforms issuer subject := by
  unfold evaluate Governs
  split
  · next hlen =>
    rw [validateNameConstraints_eq_ok (by simp [hlen]) (by simp)]
    constructor
    · rintro hall j i (⟨-, rfl, rfl⟩ | ⟨hij, hj⟩) issuer subject hissuer hsubject
      · rw [chain.getElem?_zero] at hissuer
        cases hissuer
        exact hall 0 List.mem_cons_self subject hsubject
      · omega
    · intro hall i hi subject hsubject
      cases List.mem_singleton.mp hi
      exact hall 0 0 (.inl ⟨hlen, rfl, rfl⟩) chain.leaf subject chain.getElem?_zero hsubject
  · next hlen =>
    rw [forEach_eq_ok]
    constructor
    · rintro hall j i (⟨hone, -, -⟩ | ⟨hij, hj⟩) issuer subject hissuer hsubject
      · exact absurd hone hlen
      · have hpos : 0 < j := Nat.zero_lt_of_lt hij
        have hissuer' := hall j (mem_issuerIndices.mpr ⟨hpos, hj⟩)
        exact (validateIssuer_eq_ok hpos hj).mp hissuer' issuer hissuer i hij subject hsubject
    · intro hall j hj
      obtain ⟨hpos, hlt⟩ := mem_issuerIndices.mp hj
      refine (validateIssuer_eq_ok hpos hlt).mpr fun issuer hissuer i hij subject hsubject => ?_
      exact hall j i (.inr ⟨hij, hlt⟩) issuer subject hissuer hsubject

/-! ## No panic -/

theorem validateName_ne_panicked : validateName constraints name ≠ .error .panicked := by
  intro h
  rcases bind_eq_error.mp h with h | ⟨_, _, h⟩
  · split at h
    · exact validatePermittedSubtrees_ne_panicked h
    · cases h
  · split at h
    · exact validateExcludedSubtrees_ne_panicked h
    · cases h

theorem names_ne_panicked {cert : Certificate} :
    NameConstraintsPolicy.names cert ≠ .error .panicked := by
  unfold NameConstraintsPolicy.names
  split
  · exact fail_ne_panicked
  · simp
  · split
    · exact fail_ne_panicked
    · simp

theorem validateNameConstraints_ne_panicked {issuer : Certificate} {indices : List Nat}
    (hindices : ∀ i ∈ indices, i < chain.len) :
    validateNameConstraints chain issuer indices ≠ .error .panicked := by
  unfold validateNameConstraints
  split
  · exact fail_ne_panicked
  · simp
  · intro h
    obtain ⟨i, hi, h⟩ := exists_of_forEach_eq_error h
    rcases bind_eq_error.mp h with h | ⟨cert, _, h⟩
    · exact chain.index_ne_panicked (hindices i hi) h
    rcases bind_eq_error.mp h with h | ⟨names, _, h⟩
    · exact names_ne_panicked h
    · obtain ⟨name, _, h⟩ := exists_of_forEach_eq_error h
      exact validateName_ne_panicked h

theorem evaluate_ne_panicked (chain : UnverifiedCertificateChain) :
    evaluate chain ≠ .error .panicked := by
  unfold evaluate
  split
  · next hlen => exact validateNameConstraints_ne_panicked (by simp [hlen])
  · intro h
    obtain ⟨j, hj, h⟩ := exists_of_forEach_eq_error h
    have hlt : j < chain.len := (mem_issuerIndices.mp hj).2
    rcases bind_eq_error.mp h with h | ⟨issuer, _, h⟩
    · exact chain.index_ne_panicked hlt h
    · refine validateNameConstraints_ne_panicked (fun i hi => ?_) h
      exact (List.mem_range.mp hi).trans hlt

end NameConstraintsPolicy

def nameConstraintsPolicy : ValidationPolicy where
  verifyingCriticalExtensions := [oidX509ExtNameConstraints]
  chainMeetsPolicyRequirements chain :=
    verdict (NameConstraintsPolicy.evaluate chain)
      (NameConstraintsPolicy.evaluate_ne_panicked chain)

theorem nameConstraintsPolicy_accepts {chain : UnverifiedCertificateChain} :
    nameConstraintsPolicy.Accepts chain ↔
      ∀ j i, Governs chain j i → ∀ issuer subject, chain.certificates[j]? = some issuer →
        chain.certificates[i]? = some subject → PairConforms issuer subject :=
  verdict_eq_ok.trans NameConstraintsPolicy.evaluate_eq_ok

/-- For a chain of several certificates this is a condition on pairs. -/
theorem nameConstraintsPolicy_accepts_pairwise {chain : UnverifiedCertificateChain}
    (h : chain.len ≠ 1) :
    nameConstraintsPolicy.Accepts chain ↔
      chain.certificates.Pairwise fun subject issuer => PairConforms issuer subject := by
  rw [nameConstraintsPolicy_accepts, List.pairwise_iff_getElem]
  constructor
  · intro hall i j hi hj hij
    exact hall j i (.inr ⟨hij, hj⟩) _ _ (List.getElem?_eq_getElem hj) (List.getElem?_eq_getElem hi)
  · rintro hall j i (⟨hlen, -, -⟩ | ⟨hij, -⟩) issuer subject hissuer hsubject
    · exact absurd hlen h
    · obtain ⟨hj, rfl⟩ := List.getElem?_eq_some_iff.mp hissuer
      obtain ⟨hi, rfl⟩ := List.getElem?_eq_some_iff.mp hsubject
      exact hall i j hi hj hij

/-! ## Reordering -/

/-- Decoded name constraints with the same subtrees in another order. -/
inductive ReorderedConstraints : Except X509Error (Option NameConstraints) →
    Except X509Error (Option NameConstraints) → Prop
  | undecodable (error error' : X509Error) : ReorderedConstraints (.error error) (.error error')
  | absent : ReorderedConstraints (.ok none) (.ok none)
  | present {constraints constraints' : NameConstraints} :
      constraints.permitted.Perm constraints'.permitted →
      constraints.excluded.Perm constraints'.excluded →
      ReorderedConstraints (.ok (some constraints)) (.ok (some constraints'))

/-- Decoded alternative names with the same entries in another order. -/
inductive ReorderedNames : Except X509Error (Option (List GeneralName)) →
    Except X509Error (Option (List GeneralName)) → Prop
  | undecodable (error error' : X509Error) : ReorderedNames (.error error) (.error error')
  | absent : ReorderedNames (.ok none) (.ok none)
  | present {san san' : List GeneralName} : san.Perm san' →
      ReorderedNames (.ok (some san)) (.ok (some san'))

/-- Certificates that differ in the order of their subtrees and alternative names,
as far as name constraints are concerned. -/
structure Reordered (cert cert' : Certificate) : Prop where
  nameConstraints : ReorderedConstraints cert.nameConstraints cert'.nameConstraints
  subjectAlternativeName :
    ReorderedNames cert.subjectAlternativeName cert'.subjectAlternativeName

theorem ReorderedNames.symm {san san' : Except X509Error (Option (List GeneralName))}
    (h : ReorderedNames san san') : ReorderedNames san' san := by
  cases h with
  | undecodable error error' => exact .undecodable error' error
  | absent => exact .absent
  | present hperm => exact .present hperm.symm

theorem ReorderedConstraints.symm {decoded decoded' : Except X509Error (Option NameConstraints)}
    (h : ReorderedConstraints decoded decoded') : ReorderedConstraints decoded' decoded := by
  cases h with
  | undecodable error error' => exact .undecodable error' error
  | absent => exact .absent
  | present hpermitted hexcluded => exact .present hpermitted.symm hexcluded.symm

theorem Reordered.symm {cert cert' : Certificate} (h : Reordered cert cert') :
    Reordered cert' cert :=
  ⟨h.nameConstraints.symm, h.subjectAlternativeName.symm⟩

/-- Only which subtrees and which names there are matters. -/
theorem Conforms.of_perm {constraints constraints' : NameConstraints}
    {names names' : List GeneralName} (h : Conforms constraints names)
    (hpermitted : constraints.permitted.Perm constraints'.permitted)
    (hexcluded : constraints.excluded.Perm constraints'.excluded) (hnames : names.Perm names') :
    Conforms constraints' names' where
  permittedEvaluable base hbase := h.permittedEvaluable base (hpermitted.mem_iff.mpr hbase)
  excludedEvaluable base hbase := h.excludedEvaluable base (hexcluded.mem_iff.mpr hbase)
  notExcluded name hname base hbase :=
    h.notExcluded name (hnames.mem_iff.mpr hname) base (hexcluded.mem_iff.mpr hbase)
  permitted name hname := by
    rintro ⟨base, hbase, hkind⟩
    obtain ⟨base', hbase', hmatch⟩ :=
      h.permitted name (hnames.mem_iff.mpr hname) ⟨base, hpermitted.mem_iff.mpr hbase, hkind⟩
    exact ⟨base', hpermitted.mem_iff.mp hbase', hmatch⟩

theorem PairConforms.of_reordered {issuer issuer' subject subject' : Certificate}
    (h : PairConforms issuer subject) (hissuer : Reordered issuer issuer')
    (hsubject : Reordered subject subject') : PairConforms issuer' subject' := by
  obtain ⟨decoded, hdecoded, hconforms⟩ := h
  have hconstraints := hissuer.nameConstraints
  rw [hdecoded] at hconstraints
  generalize hdecoded' : issuer'.nameConstraints = decoded' at hconstraints
  cases hconstraints with
  | absent => exact ⟨none, hdecoded', fun _ hnone => nomatch hnone⟩
  | present hpermitted hexcluded =>
    refine ⟨_, hdecoded', fun constraints' hsome => ?_⟩
    cases hsome
    obtain ⟨san, hsan, hvalid, hnames⟩ := hconforms _ rfl
    have hreordered := hsubject.subjectAlternativeName
    rw [hsan] at hreordered
    generalize hsan' : subject'.subjectAlternativeName = san' at hreordered
    cases hreordered with
    | absent => exact ⟨none, rfl, hvalid, hnames.of_perm hpermitted hexcluded (List.Perm.refl _)⟩
    | present hperm =>
      refine ⟨_, rfl, fun tag value hmem => ?_, hnames.of_perm hpermitted hexcluded hperm⟩
      exact hvalid tag value (hperm.mem_iff.mpr hmem)

theorem nameConstraintsPolicy_accepts_of_reordered {chain chain' : UnverifiedCertificateChain}
    (h : List.Forall₂ Reordered chain.certificates chain'.certificates)
    (haccepts : nameConstraintsPolicy.Accepts chain) : nameConstraintsPolicy.Accepts chain' := by
  have hlen : chain.len = chain'.len := h.length_eq
  rw [nameConstraintsPolicy_accepts] at haccepts ⊢
  intro j i hgoverns issuer' subject' hissuer' hsubject'
  have hget : ∀ (k : Nat) (cert' : Certificate), chain'.certificates[k]? = some cert' →
      ∃ cert, chain.certificates[k]? = some cert ∧ Reordered cert cert' := by
    intro k cert' hcert'
    obtain ⟨hk', rfl⟩ := List.getElem?_eq_some_iff.mp hcert'
    have hk : k < chain.certificates.length := h.length_eq ▸ hk'
    exact ⟨_, List.getElem?_eq_getElem hk, h.get hk hk'⟩
  obtain ⟨issuer, hissuer, hissuerReordered⟩ := hget j issuer' hissuer'
  obtain ⟨subject, hsubject, hsubjectReordered⟩ := hget i subject' hsubject'
  have hgoverns : Governs chain j i := by
    unfold Governs at hgoverns ⊢
    rwa [hlen]
  exact (haccepts j i hgoverns issuer subject hissuer hsubject).of_reordered hissuerReordered
    hsubjectReordered

/-! ## 1. The exact meaning of the policy -/

/-- `NameConstraintsPolicy` accepts a chain if and only if, for every issuer and
every certificate that it governs, the name constraints of the issuer decode,
and where it has any, the alternative names of the certificate decode, without
an undecodable entry, and conform to the constraints. In particular the order of
subtrees and of alternative names makes no difference. Neither the
`unreachable!()` arms nor an index out of range are ever reached. -/
theorem nameConstraints_exact (chain : UnverifiedCertificateChain) :
    (nameConstraintsPolicy.Accepts chain ↔
      ∀ j i, Governs chain j i → ∀ issuer subject, chain.certificates[j]? = some issuer →
        chain.certificates[i]? = some subject → PairConforms issuer subject) ∧
    (∀ chain' : UnverifiedCertificateChain,
      List.Forall₂ Reordered chain.certificates chain'.certificates →
      (nameConstraintsPolicy.Accepts chain ↔ nameConstraintsPolicy.Accepts chain')) ∧
    NameConstraintsPolicy.evaluate chain ≠ .error .panicked := by
  refine ⟨nameConstraintsPolicy_accepts, fun chain' h => ⟨?_, ?_⟩,
    NameConstraintsPolicy.evaluate_ne_panicked chain⟩
  · exact nameConstraintsPolicy_accepts_of_reordered h
  · exact nameConstraintsPolicy_accepts_of_reordered (h.flip.imp fun _ _ hr => hr.symm)

end X509Validator
