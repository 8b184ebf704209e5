import X509Validator.Rfc5280.Rfc5280Policy
import X509Validator.Rfc5280.PathLength
import Mathlib.Data.Set.Basic

/-!
# Path validation from the root to the leaf

RFC 5280 validates a path by going down from the trust anchor with a state: the
names that are still permitted, the names that are excluded, and the number of
certificates that may still follow. Every issuer is processed and then prepares
the state for the next certificate; its constraints only ever narrow what is
permitted, widen what is excluded and lower the path length. The policy of this
repository has no such state. It checks versions, validity, path lengths and name
constraints in four separate passes, the path lengths from the leaf up and the
name constraints pair by pair.

`Validates` is a state machine in this manner, over sets of names, for the checks
that the policy makes. It is not the whole procedure of the RFC: names are matched
as the policy matches them, a version 1 issuer counts as an authority, and key
usage is not looked at. The RFC exempts self-issued certificates other than the last
one from name constraints. `Rules.exemptSelfIssued` says whether the machine does
so; the policy does not. The root is processed like any other certificate, since
nothing is constrained before it.

Results:
1. `rfc5280_policy_is_path_validation`: on chains of two or more certificates the
   policy is the state machine without the exemption. What it accepts is therefore
   validated with the exemption too, and the two are the same on chains without
   self-issued certificates between the root and the leaf.
-/

namespace X509Validator

open BasicConstraintsPolicy

namespace PathValidation

/-! ## The state machine -/

/-- When to validate at, if at all, and how to treat self-issued certificates. -/
structure Rules where
  validationTime : Option Int
  exemptSelfIssued : Prop

/-- The state between two certificates. -/
structure PathState where
  permitted : Set GeneralName
  excluded : Set GeneralName
  /-- Some certificate so far has name constraints. -/
  constrained : Prop
  maxPathLength : Option Nat
  unconstrained : ¬ constrained → permitted = Set.univ ∧ excluded = ∅

/-- Nothing is constrained at the start. -/
def initial : PathState := ⟨Set.univ, ∅, False, none, fun _ => ⟨rfl, rfl⟩⟩

def SelfIssued (cert : Certificate) : Prop := cert.issuer = cert.subject

/-- The checks that do not depend on the path. -/
structure BasicChecks (validationTime : Option Int) (cert : Certificate) : Prop where
  version : cert.version = .v1 → cert.extensions = []
  validity : ∀ now, validationTime = some now → cert.notBefore ≤ now ∧ now ≤ cert.notAfter

/-- The alternative names decode, and are permitted and not excluded. -/
def NamesAllowed (s : PathState) (cert : Certificate) : Prop :=
  s.constrained → ∃ san, cert.subjectAlternativeName = .ok san ∧
    (∀ tag value, .invalid tag value ∉ san.getD []) ∧
    ∀ name ∈ san.getD [], name ∈ s.permitted ∧ name ∉ s.excluded

/-- The names that the permitted subtrees leave permitted: those of which there
is no subtree of their kind, and those that match one. -/
def permittedBy (constraints : NameConstraints) : Set GeneralName :=
  {name | (∃ base ∈ constraints.permitted, SameKind name base) →
    ∃ base ∈ constraints.permitted, NameMatches name base}

def excludedBy (constraints : NameConstraints) : Set GeneralName :=
  {name | ∃ base ∈ constraints.excluded, NameMatches name base}

/-- The state below a certificate. -/
def PathState.below (s : PathState) (decoded : Option NameConstraints) (paid limit : Option Nat) :
    PathState where
  permitted := s.permitted ∩ {name | ∀ constraints ∈ decoded, name ∈ permittedBy constraints}
  excluded := s.excluded ∪ {name | ∃ constraints ∈ decoded, name ∈ excludedBy constraints}
  constrained := s.constrained ∨ decoded ≠ none
  maxPathLength := Budget.lower paid limit
  unconstrained h := by
    obtain ⟨hpermitted, hexcluded⟩ := s.unconstrained fun hs => h (.inl hs)
    have hnone : decoded = none := by_contra fun hd => h (.inr hd)
    subst hnone
    refine ⟨Set.eq_univ_of_forall fun name => ⟨hpermitted ▸ trivial, ?_⟩,
      Set.eq_empty_of_forall_notMem ?_⟩
    · intro constraints hconstraints
      cases hconstraints
    · rintro name (hname | ⟨constraints, hconstraints, _⟩)
      · rw [hexcluded] at hname
        exact hname
      · cases hconstraints

/-- A certificate prepares the state for the next one. A path length is paid for
unless the certificate is self-issued, and then lowered to its own limit; in version
1 it needs no basic constraints to be an issuer. Its name constraints must decode,
and be of kinds that can be evaluated. -/
inductive Prepares (s : PathState) (cert : Certificate) : PathState → Prop
  | mk {decoded : Option NameConstraints} {paid limit : Option Nat} :
      (if cert.issuer ≠ cert.subject then Budget.spend s.maxPathLength
        else some s.maxPathLength) = some paid →
      pathLengthLimit cert = some limit →
      cert.nameConstraints = .ok decoded →
      (∀ constraints ∈ decoded, (∀ base ∈ constraints.permitted, Evaluable base) ∧
        ∀ base ∈ constraints.excluded, Evaluable base) →
      Prepares s cert (s.below decoded paid limit)

/-- Goes down the issuers of a leaf, the root first. -/
def Validates (rules : Rules) (leaf : Certificate) : PathState → List Certificate → Prop
  | s, [] => BasicChecks rules.validationTime leaf ∧ NamesAllowed s leaf
  | s, cert :: issuers =>
    BasicChecks rules.validationTime cert ∧
      (rules.exemptSelfIssued ∧ SelfIssued cert ∨ NamesAllowed s cert) ∧
      ∃ s', Prepares s cert s' ∧ Validates rules leaf s' issuers

/-! ## What a state forbids -/

variable {s : PathState} {cert subject leaf : Certificate} {issuers : List Certificate}
  {validationTime : Option Int}

/-- A state without name constraints allows every name. -/
theorem PathState.allows (s : PathState) (h : ¬ s.constrained) (name : GeneralName) :
    name ∈ s.permitted ∧ name ∉ s.excluded := by
  obtain ⟨hpermitted, hexcluded⟩ := s.unconstrained h
  rw [hpermitted, hexcluded]
  exact ⟨trivial, Set.notMem_empty name⟩

theorem conforms_iff {constraints : NameConstraints} {names : List GeneralName}
    (hevaluable : (∀ base ∈ constraints.permitted, Evaluable base) ∧
      ∀ base ∈ constraints.excluded, Evaluable base) :
    Conforms constraints names ↔
      ∀ name ∈ names, name ∈ permittedBy constraints ∧ name ∉ excludedBy constraints := by
  constructor
  · intro h name hname
    exact ⟨h.permitted name hname, fun ⟨base, hbase, hmatches⟩ =>
      h.notExcluded name hname base hbase hmatches⟩
  · intro h
    exact ⟨hevaluable.1, hevaluable.2,
      fun name hname base hbase hmatches => (h name hname).2 ⟨base, hbase, hmatches⟩,
      fun name hname => (h name hname).1⟩

/-- The names allowed below a certificate are those allowed above it that conform
to its constraints. -/
theorem namesAllowed_below {decoded : Option NameConstraints} {paid limit : Option Nat}
    (hdecoded : cert.nameConstraints = .ok decoded)
    (hevaluable : ∀ constraints ∈ decoded, (∀ base ∈ constraints.permitted, Evaluable base) ∧
      ∀ base ∈ constraints.excluded, Evaluable base) :
    NamesAllowed (s.below decoded paid limit) subject ↔
      NamesAllowed s subject ∧ PairConforms cert subject := by
  cases decoded with
  | none =>
    have hpair : PairConforms cert subject := ⟨none, hdecoded, fun _ h => by cases h⟩
    simp only [NamesAllowed, PathState.below, hpair, and_true]
    simp
  | some constraints =>
    have hevaluable := hevaluable constraints rfl
    have hallows : ∀ name, (name ∈ (s.below (some constraints) paid limit).permitted ∧
        name ∉ (s.below (some constraints) paid limit).excluded) ↔
        (name ∈ s.permitted ∧ name ∉ s.excluded) ∧
          name ∈ permittedBy constraints ∧ name ∉ excludedBy constraints := by
      intro name
      simp only [PathState.below, Set.mem_inter_iff, Set.mem_union, Set.mem_ofPred_eq,
        Option.mem_some_iff, forall_eq', exists_eq_left', not_or]
      exact and_and_and_comm
    constructor
    · intro h
      obtain ⟨san, hsan, hvalid, hnames⟩ := h (.inr (by simp))
      refine ⟨fun _ => ⟨san, hsan, hvalid, fun name hname => ?_⟩, some constraints, hdecoded, ?_⟩
      · exact ((hallows name).mp (hnames name hname)).1
      · intro constraints' heq
        obtain rfl := Option.some.inj heq
        exact ⟨san, hsan, hvalid, (conforms_iff hevaluable).mpr fun name hname =>
          ((hallows name).mp (hnames name hname)).2⟩
    · rintro ⟨habove, decoded, hdecoded', hconforms⟩ _
      rw [hdecoded] at hdecoded'
      obtain ⟨san, hsan, hvalid, hconforms⟩ := hconforms constraints (Except.ok.inj hdecoded').symm
      refine ⟨san, hsan, hvalid, fun name hname => (hallows name).mpr ⟨?_, ?_⟩⟩
      · by_cases hs : s.constrained
        · obtain ⟨san', hsan', _, hnames⟩ := habove hs
          rw [hsan] at hsan'
          cases hsan'
          exact hnames name hname
        · exact s.allows hs name
      · exact (conforms_iff hevaluable).mp hconforms name hname

/-- The constraints of an issuer can be evaluated if a certificate conforms. -/
theorem evaluable_of_pairConforms (h : PairConforms cert subject) :
    ∃ decoded, cert.nameConstraints = .ok decoded ∧
      ∀ constraints ∈ decoded, (∀ base ∈ constraints.permitted, Evaluable base) ∧
        ∀ base ∈ constraints.excluded, Evaluable base := by
  obtain ⟨decoded, hdecoded, hconforms⟩ := h
  refine ⟨decoded, hdecoded, fun constraints hconstraints => ?_⟩
  obtain ⟨_, _, _, hconforms⟩ := hconforms constraints hconstraints
  exact ⟨hconforms.permittedEvaluable, hconforms.excludedEvaluable⟩

/-! ## The machine and the four passes -/

/-- The machine without the exemption, as separate conditions. -/
theorem validates_iff :
    Validates ⟨validationTime, False⟩ leaf s issuers ↔
      (∀ cert ∈ issuers ++ [leaf], BasicChecks validationTime cert) ∧
      Budget.descend (fun cert => cert.issuer ≠ cert.subject) pathLengthLimit s.maxPathLength
        issuers = true ∧
      (∀ cert ∈ issuers ++ [leaf], NamesAllowed s cert) ∧
      (issuers ++ [leaf]).Pairwise PairConforms := by
  induction issuers generalizing s with
  | nil => simp [Validates, Budget.descend]
  | cons cert issuers ih =>
    rw [Validates, Budget.descend_cons_iff, List.cons_append, List.forall_mem_cons,
      List.forall_mem_cons, List.pairwise_cons]
    simp only [false_and, false_or]
    constructor
    · rintro ⟨hchecks, hnames, s', hprepares, hvalidates⟩
      obtain ⟨hpaid, hlimit, hdecoded, hevaluable⟩ := hprepares
      obtain ⟨hbasic, hbudget, hallowed, hpairs⟩ := ih.mp hvalidates
      have hbelow : ∀ c ∈ issuers ++ [leaf], NamesAllowed s c ∧ PairConforms cert c :=
        fun c hc => (namesAllowed_below hdecoded hevaluable).mp (hallowed c hc)
      refine ⟨⟨hchecks, hbasic⟩, ⟨_, by simpa using hpaid, _, ?_, hbudget⟩,
        ⟨hnames, fun c hc => (hbelow c hc).1⟩, fun c hc => (hbelow c hc).2, hpairs⟩
      rw [Budget.enter, hlimit]
      rfl
    · rintro ⟨⟨hchecks, hbasic⟩, ⟨paid, hpaid, budget, henter, hbudget⟩, ⟨hnames, hallowed⟩,
        hconforms, hpairs⟩
      obtain ⟨limit, hlimit, rfl⟩ := Option.map_eq_some_iff.mp henter
      obtain ⟨decoded, hdecoded, hevaluable⟩ :=
        evaluable_of_pairConforms (hconforms leaf (List.mem_append_right _ List.mem_cons_self))
      refine ⟨hchecks, hnames, s.below decoded paid limit,
        .mk (by simpa using hpaid) hlimit hdecoded hevaluable, ih.mpr ⟨hbasic, hbudget, ?_, hpairs⟩⟩
      exact fun c hc => (namesAllowed_below hdecoded hevaluable).mpr
        ⟨hallowed c hc, hconforms c hc⟩

theorem checkVersion_eq_ok :
    checkVersion cert = .ok () ↔ (cert.version = .v1 → cert.extensions = []) := by
  unfold checkVersion
  by_cases hversion : cert.version = .v1
  · cases hextensions : cert.extensions <;> simp [hversion]
  · simp [hversion]

theorem checkValidity_eq_ok {now : Int} :
    checkValidity now cert = .ok () ↔ cert.notBefore ≤ now ∧ now ≤ cert.notAfter := by
  unfold checkValidity
  split
  · next hempty =>
    refine iff_of_false (by simp) ?_
    rintro ⟨hbefore, hafter⟩
    exact absurd (hbefore.trans hafter) (not_le.mpr hempty)
  split
  · next hearly => exact iff_of_false (by simp) fun h => absurd h.1 (not_le.mpr hearly)
  split
  · next hlate => exact iff_of_false (by simp) fun h => absurd h.2 (not_le.mpr hlate)
  · next hearly hlate => exact iff_of_true rfl ⟨not_lt.mp hearly, not_lt.mp hlate⟩

/-- The first two passes. -/
theorem basicChecks_iff {chain : UnverifiedCertificateChain} :
    (versionPolicy.Accepts chain ∧
      ∀ now, validationTime = some now → (expiryPolicy now).Accepts chain) ↔
      ∀ cert ∈ chain.certificates, BasicChecks validationTime cert := by
  simp only [versionPolicy_accepts, expiryPolicy_accepts, checkVersion_eq_ok, checkValidity_eq_ok]
  constructor
  · rintro ⟨hversion, hvalidity⟩ cert hcert
    exact ⟨hversion cert hcert, fun now hnow => hvalidity now hnow cert hcert⟩
  · intro h
    exact ⟨fun cert hcert => (h cert hcert).version,
      fun now hnow cert hcert => (h cert hcert).validity now hnow⟩

/-- The policy accepts what the machine without the exemption validates. -/
theorem accepts_iff_validates {chain : UnverifiedCertificateChain} (htwo : 2 ≤ chain.len)
    (hlen : chain.len < 2 ^ 32) :
    (rfc5280Policy validationTime).Accepts chain ↔
      Validates ⟨validationTime, False⟩ chain.leaf initial chain.certificates.tail.reverse := by
  have hreverse : chain.certificates.tail.reverse ++ [chain.leaf] = chain.certificates.reverse := by
    rw [← List.reverse_cons, UnverifiedCertificateChain.leaf, List.cons_head_tail]
  have htail : chain.certificates.tail.length < 2 ^ 32 := by
    rw [List.length_tail]
    exact Nat.lt_of_le_of_lt (Nat.sub_le _ _) hlen
  have hone : chain.len ≠ 1 := by omega
  have hbudget : basicConstraintsPolicy.Accepts chain ↔
      Budget.descend (fun cert => cert.issuer ≠ cert.subject) pathLengthLimit none
        chain.certificates.tail.reverse = true := by
    show (if (decide (chain.len = 1) && _) = true then _ else _) = _ ↔ _
    rw [decide_eq_false hone, Bool.false_and, if_neg Bool.false_ne_true,
      checkIssuers_iff_pathLengthBudget htail, pathLengthBudget, Budget.topDown_iff,
      Budget.descend_iff]
    exact (and_iff_right trivial).symm
  have hinitial : ∀ cert, NamesAllowed initial cert := fun _ hconstrained => hconstrained.elim
  rw [rfc5280Policy_accepts, ← and_assoc, basicChecks_iff, hbudget,
    nameConstraintsPolicy_accepts_pairwise hone, validates_iff, hreverse, List.pairwise_reverse]
  simp only [List.mem_reverse, hinitial, implies_true, true_and]
  exact Iff.rfl

/-! ## The exemption -/

theorem validates_of_exempt (h : Validates ⟨validationTime, False⟩ leaf s issuers) :
    Validates ⟨validationTime, True⟩ leaf s issuers := by
  induction issuers generalizing s with
  | nil => exact h
  | cons cert issuers ih =>
    obtain ⟨hchecks, hnames, s', hprepares, hvalidates⟩ := h
    exact ⟨hchecks, .inr (hnames.resolve_left fun hfalse => hfalse.1), s', hprepares,
      ih hvalidates⟩

theorem validates_of_not_selfIssued (hissuers : ∀ cert ∈ issuers, ¬ SelfIssued cert)
    (h : Validates ⟨validationTime, True⟩ leaf s issuers) :
    Validates ⟨validationTime, False⟩ leaf s issuers := by
  induction issuers generalizing s with
  | nil => exact h
  | cons cert issuers ih =>
    obtain ⟨hchecks, hnames, s', hprepares, hvalidates⟩ := h
    obtain ⟨hcert, hissuers⟩ := List.forall_mem_cons.mp hissuers
    exact ⟨hchecks, .inr (hnames.resolve_left fun hself => hcert hself.2), s', hprepares,
      ih hissuers hvalidates⟩

/-- The root may be self-issued, as nothing constrains it. -/
theorem validates_of_not_selfIssued_below {root : Certificate}
    (hissuers : ∀ cert ∈ issuers, ¬ SelfIssued cert)
    (h : Validates ⟨validationTime, True⟩ leaf initial (root :: issuers)) :
    Validates ⟨validationTime, False⟩ leaf initial (root :: issuers) := by
  obtain ⟨hchecks, _, s', hprepares, hvalidates⟩ := h
  exact ⟨hchecks, .inr fun hconstrained => hconstrained.elim, s', hprepares,
    validates_of_not_selfIssued hissuers hvalidates⟩

end PathValidation

open PathValidation

/-! ## 1. The policy and the machine -/

/-- On chains of two or more certificates, the four passes of `RFC5280Policy` accept
exactly what one descent of the state machine validates, with name constraints
applied to every certificate. The machine that exempts self-issued certificates from
them validates it too, and nothing else where no certificate between the root and
the leaf is self-issued. -/
theorem rfc5280_policy_is_path_validation (validationTime : Option Int)
    (chain : UnverifiedCertificateChain) (htwo : 2 ≤ chain.len) (hlen : chain.len < 2 ^ 32) :
    ((rfc5280Policy validationTime).Accepts chain ↔
      Validates ⟨validationTime, False⟩ chain.leaf initial chain.certificates.tail.reverse) ∧
    ((rfc5280Policy validationTime).Accepts chain →
      Validates ⟨validationTime, True⟩ chain.leaf initial chain.certificates.tail.reverse) ∧
    ((∀ cert ∈ chain.certificates.tail.dropLast, ¬ SelfIssued cert) →
      ((rfc5280Policy validationTime).Accepts chain ↔
        Validates ⟨validationTime, True⟩ chain.leaf initial
          chain.certificates.tail.reverse)) := by
  have haccepts : (rfc5280Policy validationTime).Accepts chain ↔
      Validates ⟨validationTime, False⟩ chain.leaf initial chain.certificates.tail.reverse :=
    accepts_iff_validates htwo hlen
  refine ⟨haccepts, fun h => validates_of_exempt (haccepts.mp h), fun hissuers => ?_⟩
  rw [haccepts]
  refine ⟨validates_of_exempt, fun h => ?_⟩
  have hne : chain.certificates.tail.reverse ≠ [] := by
    rw [Ne, List.reverse_eq_nil_iff, ← List.length_eq_zero_iff, List.length_tail]
    exact Nat.sub_ne_zero_of_lt htwo
  obtain ⟨root, issuers, heq⟩ := List.exists_cons_of_ne_nil hne
  have hbelow : ∀ cert ∈ issuers, ¬ SelfIssued cert := by
    intro cert hcert
    refine hissuers cert ?_
    rw [← List.mem_reverse, ← List.tail_reverse, heq]
    exact hcert
  rw [heq] at h ⊢
  exact validates_of_not_selfIssued_below hbelow h

namespace SamplePki

/-- A server below a root that permits one domain. -/
def subtreeChain : UnverifiedCertificateChain :=
  ⟨[{ certificate "leaf" "root" "key0" "key3" with
      subjectAlternativeName := .ok (some [.dnsName (bytes "www.example.com")]) },
    { root with
      basicConstraints := .ok (some ⟨true, some 0⟩)
      nameConstraints := .ok (some ⟨some [⟨.dnsName (bytes "example.com")⟩], none⟩) }],
    List.cons_ne_nil _ _⟩

end SamplePki

/-- The domain is permitted, and the certificate is valid at the time. -/
theorem rfc5280_policy_is_path_validation_permitted :
    Validates ⟨some 50, True⟩ SamplePki.subtreeChain.leaf initial
      SamplePki.subtreeChain.certificates.tail.reverse :=
  (rfc5280_policy_is_path_validation (some 50) SamplePki.subtreeChain (by decide)
    (by decide)).2.1 (by decide +kernel)

end X509Validator
