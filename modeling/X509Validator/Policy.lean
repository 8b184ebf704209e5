import X509Validator.Certificate

/-!
# Policies and their combinators

A `ValidationPolicy` lists the critical extensions it enforces and decides on
candidate chains. `policy_builder` combines policies: a conjunction lists the
extensions of both sides, an alternative only those that both sides list, and a
switched-off policy lists none. A switched-off policy meets the requirements in
a conjunction and fails in an alternative.

`PolicyExpr` is a policy built from leaf policies with these combinators, in any
nesting. `PolicyExpr.exists_leaf_of_accepts` says that an extension listed by an
expression is enforced by a leaf that lists it, on every chain the expression
accepts.
-/

namespace X509Validator

/-! ## Chains -/

/-- A chain, leaf first, not yet accepted by policy. It is never empty. -/
structure UnverifiedCertificateChain where
  certificates : List Certificate
  nonempty : certificates ≠ []
deriving DecidableEq

namespace UnverifiedCertificateChain

/-- The constructor asserts that the chain is not empty; `none` is the panic. -/
def new (certificates : List Certificate) : Option UnverifiedCertificateChain :=
  if h : certificates ≠ [] then some ⟨certificates, h⟩ else none

theorem new_eq_some {certificates : List Certificate} (h : certificates ≠ []) :
    new certificates = some ⟨certificates, h⟩ :=
  dif_pos h

def leaf (chain : UnverifiedCertificateChain) : Certificate :=
  chain.certificates.head chain.nonempty

theorem getElem?_zero (chain : UnverifiedCertificateChain) :
    chain.certificates[0]? = some chain.leaf := by
  rw [← List.head?_eq_getElem?, List.head?_eq_some_head chain.nonempty]
  rfl

def len (chain : UnverifiedCertificateChain) : Nat := chain.certificates.length

theorem len_pos (chain : UnverifiedCertificateChain) : 0 < chain.len :=
  List.length_pos_of_ne_nil chain.nonempty

end UnverifiedCertificateChain

/-- A chain, leaf first, that policy has accepted. -/
structure ValidatedCertificateChain where
  certificates : List Certificate
  nonempty : certificates ≠ []
deriving DecidableEq

/-- `new_unchecked` asserts that the chain is not empty; `none` is the panic. -/
def ValidatedCertificateChain.newUnchecked (certificates : List Certificate) :
    Option ValidatedCertificateChain :=
  if h : certificates ≠ [] then some ⟨certificates, h⟩ else none

theorem ValidatedCertificateChain.newUnchecked_eq_some {certificates : List Certificate}
    (h : certificates ≠ []) : newUnchecked certificates = some ⟨certificates, h⟩ :=
  dif_pos h

/-! ## Policies -/

/-- Why a chain was rejected. -/
structure PolicyFailureReason where
  reason : String
deriving DecidableEq, Repr

/-- `Ok(())` when the chain meets the requirements. -/
abbrev PolicyEvaluationResult := Except PolicyFailureReason Unit

structure ValidationPolicy where
  verifyingCriticalExtensions : List Oid
  chainMeetsPolicyRequirements : UnverifiedCertificateChain → PolicyEvaluationResult

/-- The policy meets the chain with `Ok(())`. -/
def ValidationPolicy.Accepts (policy : ValidationPolicy) (chain : UnverifiedCertificateChain) :
    Prop :=
  policy.chainMeetsPolicyRequirements chain = .ok ()

instance (policy : ValidationPolicy) (chain : UnverifiedCertificateChain) :
    Decidable (policy.Accepts chain) :=
  inferInstanceAs (Decidable (_ = _))

/-- How the evaluation of a policy stops: with a failure, or by a panic. -/
inductive PolicyHalt
  | failed (reason : PolicyFailureReason)
  | panicked
deriving DecidableEq

/-- The verdict of an evaluation that does not panic. -/
def verdict : (evaluation : Except PolicyHalt Unit) → evaluation ≠ .error .panicked →
    PolicyEvaluationResult
  | .ok (), _ => .ok ()
  | .error (.failed reason), _ => .error reason
  | .error .panicked, h => absurd rfl h

theorem verdict_eq_ok {evaluation : Except PolicyHalt Unit}
    {h : evaluation ≠ .error .panicked} :
    verdict evaluation h = .ok () ↔ evaluation = .ok () := by
  rcases evaluation with (_ | _) | _
  · simp [verdict]
  · exact absurd rfl h
  · simp [verdict]

/-- `Err(PolicyFailureReason::new(reason))`. -/
def fail {α : Type} (reason : String) : Except PolicyHalt α := .error (.failed ⟨reason⟩)

theorem fail_ne_ok {α : Type} {reason : String} {a : α} : fail reason ≠ .ok a := by
  simp [fail]

theorem fail_ne_panicked {α : Type} {reason : String} :
    (fail reason : Except PolicyHalt α) ≠ .error .panicked := by
  simp [fail]

namespace UnverifiedCertificateChain

/-- `chain[index]`, which panics outside of the chain. -/
def index (chain : UnverifiedCertificateChain) (index : Nat) : Except PolicyHalt Certificate :=
  match chain.certificates[index]? with
  | some cert => .ok cert
  | none => .error .panicked

variable (chain : UnverifiedCertificateChain) {i : Nat}

theorem index_lt (h : i < chain.len) :
    ∃ cert, chain.index i = .ok cert ∧ chain.certificates[i]? = some cert := by
  have hget : chain.certificates[i]? = some chain.certificates[i] := List.getElem?_eq_getElem h
  exact ⟨_, by rw [index, hget], hget⟩

theorem index_ne_panicked (h : i < chain.len) : chain.index i ≠ .error .panicked := by
  obtain ⟨cert, hcert, _⟩ := chain.index_lt h
  simp [hcert]

end UnverifiedCertificateChain

/-- `has_unhandled_critical_extensions`. -/
def hasUnhandledCriticalExtensions (cert : Certificate) (policy : ValidationPolicy) : Bool :=
  cert.extensions.any fun ext =>
    ext.critical && !(policy.verifyingCriticalExtensions.contains ext.oid)

theorem hasUnhandledCriticalExtensions_eq_false {cert : Certificate} {policy : ValidationPolicy} :
    hasUnhandledCriticalExtensions cert policy = false ↔
      ∀ ext ∈ cert.extensions, ext.critical = true →
        ext.oid ∈ policy.verifyingCriticalExtensions := by
  simp [hasUnhandledCriticalExtensions]

/-! ## Combinators -/

namespace ValidationPolicy

/-- `Tuple2`: both must be met. -/
def tuple2 (first second : ValidationPolicy) : ValidationPolicy where
  verifyingCriticalExtensions :=
    first.verifyingCriticalExtensions ++ second.verifyingCriticalExtensions
  chainMeetsPolicyRequirements chain := do
    first.chainMeetsPolicyRequirements chain
    second.chainMeetsPolicyRequirements chain

/-- `Either`: the one chosen at construction time. -/
def either : ValidationPolicy ⊕ ValidationPolicy → ValidationPolicy
  | .inl first => first
  | .inr second => second

/-- `WrappedOptional`: `None` always meets the requirements. -/
def wrappedOptional (wrapped : Option ValidationPolicy) : ValidationPolicy where
  verifyingCriticalExtensions :=
    (wrapped.map fun policy => policy.verifyingCriticalExtensions).getD []
  chainMeetsPolicyRequirements chain :=
    match wrapped with
    | some policy => policy.chainMeetsPolicyRequirements chain
    | none => .ok ()

/-- `OneOfTuple2`: the second is tried only if the first fails. -/
def oneOfTuple2 (first second : ValidationPolicy) : ValidationPolicy where
  verifyingCriticalExtensions :=
    first.verifyingCriticalExtensions.filter fun oid =>
      second.verifyingCriticalExtensions.contains oid
  chainMeetsPolicyRequirements chain :=
    match first.chainMeetsPolicyRequirements chain with
    | .ok () => .ok ()
    | .error firstReason =>
      match second.chainMeetsPolicyRequirements chain with
      | .ok () => .ok ()
      | .error secondReason => .error ⟨s!"{firstReason.reason} and {secondReason.reason}"⟩

/-- `OneOfWrappedOptional`: `None` fails. -/
def oneOfWrappedOptional (wrapped : Option ValidationPolicy) : ValidationPolicy where
  verifyingCriticalExtensions :=
    (wrapped.map fun policy => policy.verifyingCriticalExtensions).getD []
  chainMeetsPolicyRequirements chain :=
    match wrapped with
    | some policy => policy.chainMeetsPolicyRequirements chain
    | none => .error ⟨"alternative is disabled"⟩

/-- `AllOfPolicies`, `OneOfPolicies` and `AnyPolicy` forward to the policy they hold. -/
def forwarding (policy : ValidationPolicy) : ValidationPolicy where
  verifyingCriticalExtensions := policy.verifyingCriticalExtensions
  chainMeetsPolicyRequirements chain := policy.chainMeetsPolicyRequirements chain

def allOfPolicies (policy : ValidationPolicy) : ValidationPolicy := forwarding policy

def oneOfPolicies (policy : ValidationPolicy) : ValidationPolicy := forwarding policy

def anyPolicy (policy : ValidationPolicy) : ValidationPolicy := forwarding policy

theorem tuple2_accepts {first second : ValidationPolicy} {chain : UnverifiedCertificateChain} :
    (tuple2 first second).Accepts chain ↔ first.Accepts chain ∧ second.Accepts chain := by
  simp only [Accepts, tuple2]
  cases hfirst : first.chainMeetsPolicyRequirements chain with
  | error reason => simp [bind, Except.bind]
  | ok _ => simp [bind, Except.bind]

theorem oneOfTuple2_accepts {first second : ValidationPolicy}
    {chain : UnverifiedCertificateChain} :
    (oneOfTuple2 first second).Accepts chain ↔ first.Accepts chain ∨ second.Accepts chain := by
  simp only [Accepts, oneOfTuple2]
  cases hfirst : first.chainMeetsPolicyRequirements chain with
  | error reason =>
    cases hsecond : second.chainMeetsPolicyRequirements chain with
    | error reason => simp
    | ok _ => simp
  | ok _ => simp

end ValidationPolicy

/-! ## Policy expressions -/

/-- A policy built from leaf policies. `Either` and the two optional wrappers
hold one policy or none, so each gets a constructor for what it holds. -/
inductive PolicyExpr
  | leaf (policy : ValidationPolicy)
  | tuple2 (first second : PolicyExpr)
  | eitherFirst (first : PolicyExpr)
  | eitherSecond (second : PolicyExpr)
  | wrappedSome (wrapped : PolicyExpr)
  | wrappedNone
  | oneOfTuple2 (first second : PolicyExpr)
  | oneOfWrappedSome (wrapped : PolicyExpr)
  | oneOfWrappedNone
  | allOfPolicies (policy : PolicyExpr)
  | oneOfPolicies (policy : PolicyExpr)
  | anyPolicy (policy : PolicyExpr)

namespace PolicyExpr

/-- The policy that an expression denotes. -/
def toPolicy : PolicyExpr → ValidationPolicy
  | leaf policy => policy
  | tuple2 first second => .tuple2 first.toPolicy second.toPolicy
  | eitherFirst first => .either (.inl first.toPolicy)
  | eitherSecond second => .either (.inr second.toPolicy)
  | wrappedSome wrapped => .wrappedOptional (some wrapped.toPolicy)
  | wrappedNone => .wrappedOptional none
  | oneOfTuple2 first second => .oneOfTuple2 first.toPolicy second.toPolicy
  | oneOfWrappedSome wrapped => .oneOfWrappedOptional (some wrapped.toPolicy)
  | oneOfWrappedNone => .oneOfWrappedOptional none
  | allOfPolicies policy => .allOfPolicies policy.toPolicy
  | oneOfPolicies policy => .oneOfPolicies policy.toPolicy
  | anyPolicy policy => .anyPolicy policy.toPolicy

/-- The leaf policies that an expression holds. -/
def leaves : PolicyExpr → List ValidationPolicy
  | leaf policy => [policy]
  | tuple2 first second => first.leaves ++ second.leaves
  | eitherFirst first => first.leaves
  | eitherSecond second => second.leaves
  | wrappedSome wrapped => wrapped.leaves
  | wrappedNone => []
  | oneOfTuple2 first second => first.leaves ++ second.leaves
  | oneOfWrappedSome wrapped => wrapped.leaves
  | oneOfWrappedNone => []
  | allOfPolicies policy => policy.leaves
  | oneOfPolicies policy => policy.leaves
  | anyPolicy policy => policy.leaves

/-- Some leaf of the expression lists the extension and accepts the chain. -/
def EnforcedBy (expr : PolicyExpr) (oid : Oid) (chain : UnverifiedCertificateChain) : Prop :=
  ∃ policy ∈ expr.leaves, oid ∈ policy.verifyingCriticalExtensions ∧ policy.Accepts chain

theorem EnforcedBy.mono {expr expr' : PolicyExpr} {oid : Oid} {chain : UnverifiedCertificateChain}
    (hsub : ∀ policy ∈ expr.leaves, policy ∈ expr'.leaves) (h : expr.EnforcedBy oid chain) :
    expr'.EnforcedBy oid chain := by
  obtain ⟨policy, hpolicy, hoid, haccepts⟩ := h
  exact ⟨policy, hsub policy hpolicy, hoid, haccepts⟩

/-- An extension that an accepting expression lists is enforced by a leaf. A
conjunction lists what either side lists, and both sides accept; an alternative
lists only what both sides list, so it does not matter which side accepts. -/
theorem exists_leaf_of_accepts {expr : PolicyExpr} {oid : Oid} {chain : UnverifiedCertificateChain}
    (haccepts : expr.toPolicy.Accepts chain)
    (hoid : oid ∈ expr.toPolicy.verifyingCriticalExtensions) : expr.EnforcedBy oid chain := by
  induction expr with
  | leaf policy => exact ⟨policy, List.mem_singleton.mpr rfl, hoid, haccepts⟩
  | tuple2 first second ihFirst ihSecond =>
    obtain ⟨hfirst, hsecond⟩ := ValidationPolicy.tuple2_accepts.mp haccepts
    rcases List.mem_append.mp hoid with hoid | hoid
    · exact (ihFirst hfirst hoid).mono fun _ h => List.mem_append_left _ h
    · exact (ihSecond hsecond hoid).mono fun _ h => List.mem_append_right _ h
  | oneOfTuple2 first second ihFirst ihSecond =>
    obtain ⟨hoidFirst, hoidSecond⟩ := List.mem_filter.mp hoid
    rcases ValidationPolicy.oneOfTuple2_accepts.mp haccepts with hfirst | hsecond
    · exact (ihFirst hfirst hoidFirst).mono fun _ h => List.mem_append_left _ h
    · exact (ihSecond hsecond (by simpa using hoidSecond)).mono
        fun _ h => List.mem_append_right _ h
  | eitherFirst first ih => exact ih haccepts hoid
  | eitherSecond second ih => exact ih haccepts hoid
  | wrappedSome wrapped ih => exact ih haccepts hoid
  | oneOfWrappedSome wrapped ih => exact ih haccepts hoid
  | wrappedNone => exact absurd hoid List.not_mem_nil
  | oneOfWrappedNone => exact absurd hoid List.not_mem_nil
  | allOfPolicies policy ih => exact ih haccepts hoid
  | oneOfPolicies policy ih => exact ih haccepts hoid
  | anyPolicy policy ih => exact ih haccepts hoid

end PolicyExpr

end X509Validator
