import X509Validator.Simulation

/-!
# The algebra of policy expressions

A policy expression reads as a propositional formula over its leaf policies: a
conjunction is "and", an alternative is "or", a wrapper is its contents. A chain
is accepted if the formula holds for the leaves that accept it. The listed
extensions read the same formula backwards: an extension is listed unless the
formula holds for the leaves that do not list it, because a conjunction lists
what one side lists and an alternative what both sides list.

A run therefore depends on an expression only through its formula, and any law of
"and" and "or" may be used to rewrite a policy: reordering, regrouping, dropping
repetitions, distributing conjunctions over alternatives and back. A disabled
alternative is the one expression to which the backward reading does not apply,
since it lists nothing where "false" would list everything.

Results:
1. `equivalent_iff_interchangeable`: two expressions without disabled
   alternatives have equivalent formulas exactly if they can be exchanged for each
   other in every run, whatever policies their leaves stand for.
-/

namespace X509Validator

namespace PolicyExpr

/-! ## Expressions as formulas -/

/-- The formula of an expression, under a truth value for each leaf. -/
def holds (truth : ValidationPolicy → Prop) : PolicyExpr → Prop
  | leaf policy => truth policy
  | tuple2 first second => first.holds truth ∧ second.holds truth
  | eitherFirst first => first.holds truth
  | eitherSecond second => second.holds truth
  | wrappedSome wrapped => wrapped.holds truth
  | wrappedNone => True
  | oneOfTuple2 first second => first.holds truth ∨ second.holds truth
  | oneOfWrappedSome wrapped => wrapped.holds truth
  | oneOfWrappedNone => False
  | allOfPolicies policy => policy.holds truth
  | oneOfPolicies policy => policy.holds truth
  | anyPolicy policy => policy.holds truth

/-- No bare `if` in a block of alternatives has a false condition. -/
def NoDisabledAlternative : PolicyExpr → Prop
  | leaf _ => True
  | tuple2 first second => first.NoDisabledAlternative ∧ second.NoDisabledAlternative
  | eitherFirst first => first.NoDisabledAlternative
  | eitherSecond second => second.NoDisabledAlternative
  | wrappedSome wrapped => wrapped.NoDisabledAlternative
  | wrappedNone => True
  | oneOfTuple2 first second => first.NoDisabledAlternative ∧ second.NoDisabledAlternative
  | oneOfWrappedSome wrapped => wrapped.NoDisabledAlternative
  | oneOfWrappedNone => False
  | allOfPolicies policy => policy.NoDisabledAlternative
  | oneOfPolicies policy => policy.NoDisabledAlternative
  | anyPolicy policy => policy.NoDisabledAlternative

/-- The expression with other policies for its leaves. -/
def subst (f : ValidationPolicy → ValidationPolicy) : PolicyExpr → PolicyExpr
  | leaf policy => leaf (f policy)
  | tuple2 first second => tuple2 (first.subst f) (second.subst f)
  | eitherFirst first => eitherFirst (first.subst f)
  | eitherSecond second => eitherSecond (second.subst f)
  | wrappedSome wrapped => wrappedSome (wrapped.subst f)
  | wrappedNone => wrappedNone
  | oneOfTuple2 first second => oneOfTuple2 (first.subst f) (second.subst f)
  | oneOfWrappedSome wrapped => oneOfWrappedSome (wrapped.subst f)
  | oneOfWrappedNone => oneOfWrappedNone
  | allOfPolicies policy => allOfPolicies (policy.subst f)
  | oneOfPolicies policy => oneOfPolicies (policy.subst f)
  | anyPolicy policy => anyPolicy (policy.subst f)

/-- The formulas of the two expressions are equivalent. -/
def Equivalent (expr expr' : PolicyExpr) : Prop :=
  ∀ truth, expr.holds truth ↔ expr'.holds truth

variable {expr expr' : PolicyExpr} {chain : UnverifiedCertificateChain}
  {f : ValidationPolicy → ValidationPolicy}

/-- A chain is accepted if the formula holds for the leaves that accept it. -/
theorem accepts_iff_holds :
    expr.toPolicy.Accepts chain ↔ expr.holds fun policy => policy.Accepts chain := by
  induction expr with
  | leaf policy => exact Iff.rfl
  | tuple2 first second ihFirst ihSecond =>
    exact ValidationPolicy.tuple2_accepts.trans (and_congr ihFirst ihSecond)
  | oneOfTuple2 first second ihFirst ihSecond =>
    exact ValidationPolicy.oneOfTuple2_accepts.trans (or_congr ihFirst ihSecond)
  | wrappedNone => exact iff_of_true rfl trivial
  | oneOfWrappedNone =>
    refine iff_of_false ?_ id
    intro haccepts
    cases haccepts
  | eitherFirst first ih => exact ih
  | eitherSecond second ih => exact ih
  | wrappedSome wrapped ih => exact ih
  | oneOfWrappedSome wrapped ih => exact ih
  | allOfPolicies policy ih => exact ih
  | oneOfPolicies policy ih => exact ih
  | anyPolicy policy ih => exact ih

/-- An extension is listed unless the formula holds for the leaves that do not
list it. -/
theorem mem_iff_not_holds (h : expr.NoDisabledAlternative) {oid : Oid} :
    oid ∈ expr.toPolicy.verifyingCriticalExtensions ↔
      ¬ expr.holds fun policy => oid ∉ policy.verifyingCriticalExtensions := by
  induction expr with
  | leaf policy => exact not_not.symm
  | tuple2 first second ihFirst ihSecond =>
    show oid ∈ _ ++ _ ↔ ¬ (_ ∧ _)
    rw [List.mem_append, ihFirst h.1, ihSecond h.2, not_and_or]
  | oneOfTuple2 first second ihFirst ihSecond =>
    show oid ∈ List.filter _ _ ↔ ¬ (_ ∨ _)
    rw [List.mem_filter, List.contains_iff_mem, ihFirst h.1, ihSecond h.2, not_or]
  | wrappedNone => exact iff_of_false List.not_mem_nil fun h => h trivial
  | oneOfWrappedNone => exact h.elim
  | eitherFirst first ih => exact ih h
  | eitherSecond second ih => exact ih h
  | wrappedSome wrapped ih => exact ih h
  | oneOfWrappedSome wrapped ih => exact ih h
  | allOfPolicies policy ih => exact ih h
  | oneOfPolicies policy ih => exact ih h
  | anyPolicy policy ih => exact ih h

theorem holds_subst {truth : ValidationPolicy → Prop} :
    (expr.subst f).holds truth ↔ expr.holds fun policy => truth (f policy) := by
  induction expr with
  | leaf policy => exact Iff.rfl
  | tuple2 first second ihFirst ihSecond => exact and_congr ihFirst ihSecond
  | oneOfTuple2 first second ihFirst ihSecond => exact or_congr ihFirst ihSecond
  | wrappedNone => exact Iff.rfl
  | oneOfWrappedNone => exact Iff.rfl
  | eitherFirst first ih => exact ih
  | eitherSecond second ih => exact ih
  | wrappedSome wrapped ih => exact ih
  | oneOfWrappedSome wrapped ih => exact ih
  | allOfPolicies policy ih => exact ih
  | oneOfPolicies policy ih => exact ih
  | anyPolicy policy ih => exact ih

theorem noDisabledAlternative_subst (h : expr.NoDisabledAlternative) :
    (expr.subst f).NoDisabledAlternative := by
  induction expr with
  | leaf policy => exact trivial
  | tuple2 first second ihFirst ihSecond => exact ⟨ihFirst h.1, ihSecond h.2⟩
  | oneOfTuple2 first second ihFirst ihSecond => exact ⟨ihFirst h.1, ihSecond h.2⟩
  | wrappedNone => exact trivial
  | oneOfWrappedNone => exact h
  | eitherFirst first ih => exact ih h
  | eitherSecond second ih => exact ih h
  | wrappedSome wrapped ih => exact ih h
  | oneOfWrappedSome wrapped ih => exact ih h
  | allOfPolicies policy ih => exact ih h
  | oneOfPolicies policy ih => exact ih h
  | anyPolicy policy ih => exact ih h

theorem Equivalent.subst (h : Equivalent expr expr') :
    Equivalent (expr.subst f) (expr'.subst f) := by
  intro truth
  rw [holds_subst, holds_subst]
  exact h _

/-- Validators that differ by equivalent expressions agree. -/
theorem Equivalent.agree (h : Equivalent expr expr') (hexpr : expr.NoDisabledAlternative)
    (hexpr' : expr'.NoDisabledAlternative) (v : Validator) (leaf : Certificate)
    (intermediates : CertificateStore) :
    Agree { v with policy := expr.toPolicy } { v with policy := expr'.toPolicy } leaf intermediates
      intermediates where
  roots _ := rfl
  issuers _ := rfl
  signed _ _ _ := rfl
  listed oid := by
    show oid ∈ expr.toPolicy.verifyingCriticalExtensions ↔
      oid ∈ expr'.toPolicy.verifyingCriticalExtensions
    rw [mem_iff_not_holds hexpr, mem_iff_not_holds hexpr', h]
  accepts chain := by
    show expr.toPolicy.Accepts chain ↔ expr'.toPolicy.Accepts chain
    rw [accepts_iff_holds, accepts_iff_holds, h]

/-! ## Formulas can be observed -/

/-- A policy that accepts every chain or none. -/
def constant (truth : ValidationPolicy → Prop) [DecidablePred truth] (policy : ValidationPolicy) :
    ValidationPolicy :=
  if truth policy then ⟨[], fun _ => .ok ()⟩ else ⟨[], fun _ => .error ⟨"constant"⟩⟩

variable {truth : ValidationPolicy → Prop} [DecidablePred truth]

theorem constant_accepts {policy : ValidationPolicy} :
    (constant truth policy).Accepts chain ↔ truth policy := by
  by_cases h : truth policy
  · rw [constant, if_pos h]
    exact iff_of_true rfl h
  · rw [constant, if_neg h]
    refine iff_of_false ?_ h
    intro haccepts
    cases haccepts

theorem accepts_constant :
    (expr.subst (constant truth)).toPolicy.Accepts chain ↔ expr.holds truth := by
  rw [accepts_iff_holds, holds_subst]
  simp only [constant_accepts]

/-- The root of the small PKI, validated against itself. -/
theorem validate_constant_iff :
    (∃ chain, Validator.validate { SamplePki.validator with
        policy := (expr.subst (constant truth)).toPolicy } SamplePki.root .new = .ok chain) ↔
      expr.holds truth := by
  constructor
  · rintro ⟨chain, hchain⟩
    exact accepts_constant.mp (anchored_of_validate_eq_ok hchain).2.2
  · intro hholds
    refine validate_ok_of_anchored ⟨[SamplePki.root], List.cons_ne_nil _ _⟩ (.direct ?_)
      (linkedPath_singleton rfl) (accepts_constant.mpr hholds)
    exact CertificateStore.mem_fromIter.mpr (List.mem_singleton_self _)

theorem exists_ok_iff_of_withoutReasons_eq {result result' : ChainValidationResult}
    (h : withoutReasons result = withoutReasons result') :
    (∃ chain, result = .ok chain) ↔ ∃ chain, result' = .ok chain := by
  cases result with
  | ok chain =>
    cases result' with
    | ok chain' => simp
    | error failures' => cases h
  | error failures =>
    cases result' with
    | ok chain' => cases h
    | error failures' => simp

end PolicyExpr

/-! ## 1. Equivalent expressions -/

/-- Two expressions without disabled alternatives have equivalent formulas
exactly if, whatever policies their leaves stand for, every run is the same under
both of them: the same chain accepted or the same chains failed, the same chains
handed to the policy, and the same events up to the texts of the policies. -/
theorem equivalent_iff_interchangeable (expr expr' : PolicyExpr)
    (hexpr : expr.NoDisabledAlternative) (hexpr' : expr'.NoDisabledAlternative) :
    PolicyExpr.Equivalent expr expr' ↔
      ∀ (f : ValidationPolicy → ValidationPolicy) (v : Validator) (leaf : Certificate)
        (intermediates : CertificateStore),
        let first : Validator := { v with policy := (expr.subst f).toPolicy }
        let second : Validator := { v with policy := (expr'.subst f).toPolicy }
        withoutReasons (first.validate leaf intermediates) =
          withoutReasons (second.validate leaf intermediates) ∧
        first.handedToPolicy leaf intermediates = second.handedToPolicy leaf intermediates ∧
        (first.emitted leaf intermediates).map VerificationDiagnostic.shape =
          (second.emitted leaf intermediates).map VerificationDiagnostic.shape := by
  constructor
  · intro h f v leaf intermediates
    have hagree := h.subst.agree (PolicyExpr.noDisabledAlternative_subst (f := f) hexpr)
      (PolicyExpr.noDisabledAlternative_subst (f := f) hexpr') v leaf intermediates
    exact hagree.run_alike
  · intro h truth
    classical
    have hresult := (h (PolicyExpr.constant truth) SamplePki.validator SamplePki.root .new).1
    have hok := PolicyExpr.exists_ok_iff_of_withoutReasons_eq hresult
    rwa [PolicyExpr.validate_constant_iff, PolicyExpr.validate_constant_iff] at hok

namespace SamplePki

/-- The long chain is required in both alternatives. -/
def requiredTwice : PolicyExpr :=
  .oneOfTuple2 (.tuple2 (.leaf longChainPolicy) (.leaf renamedPolicy))
    (.tuple2 (.leaf ⟨[], fun _ => .ok ()⟩) (.leaf longChainPolicy))

/-- The long chain is required once. -/
def requiredOnce : PolicyExpr :=
  .tuple2 (.oneOfTuple2 (.leaf renamedPolicy) (.leaf ⟨[], fun _ => .ok ()⟩))
    (.leaf longChainPolicy)

end SamplePki

/-- What both alternatives require may be required once. -/
theorem equivalent_iff_interchangeable_distributive :
    withoutReasons (Validator.validate { SamplePki.validator with
        policy := SamplePki.requiredTwice.toPolicy } SamplePki.endEntity SamplePki.caStore) =
      withoutReasons (Validator.validate { SamplePki.validator with
        policy := SamplePki.requiredOnce.toPolicy } SamplePki.endEntity SamplePki.caStore) := by
  refine ((equivalent_iff_interchangeable SamplePki.requiredTwice SamplePki.requiredOnce
    ⟨⟨trivial, trivial⟩, trivial, trivial⟩ ⟨⟨trivial, trivial⟩, trivial⟩).mp ?_ id
    SamplePki.validator SamplePki.endEntity SamplePki.caStore).1
  intro truth
  simp only [SamplePki.requiredTwice, SamplePki.requiredOnce, PolicyExpr.holds]
  tauto

end X509Validator
