import X509Validator.Alternatives
import X509Validator.Simulation

/-!
# Blocks of policies

`policy!` builds a policy from a sequence of items, all of which must be met, and
`one_of!` (`X509Validator.Alternatives`) one of which must be met. Both expand to
pairs nested to the right. This module gives the texts that a block reports, and
the rewritings of a block that nobody can observe, not even in these texts.

* A `policy!` block reports the reason of its first item that fails. An item
  whose condition is false, and the brackets of a block inside a block, leave no
  trace: the policy is the same value.
* A `one_of!` block that fails reports the reasons of all of its items. Brackets
  leave no trace here either; an item whose condition is false does, which
  `disabled_alternatives_absent_iff` is about.

Results:
1. `policy_block_failures`: what a run under a `policy!` block returns, and the
   rewritings of the block.
2. `one_of_block_failures`: the same for a `one_of!` block.
-/

namespace X509Validator

/-! ## Laws of the combinators -/

namespace ValidationPolicy

theorem tuple2_disabled (policy : ValidationPolicy) :
    tuple2 (wrappedOptional none) policy = policy := rfl

theorem tuple2_disabled_right (policy : ValidationPolicy) :
    tuple2 policy (wrappedOptional none) = policy := by
  obtain ⟨oids, evaluate⟩ := policy
  unfold tuple2 wrappedOptional
  congr 1
  · exact List.append_nil oids
  · funext chain
    show evaluate chain >>= (fun _ => .ok ()) = evaluate chain
    cases evaluate chain <;> rfl

theorem tuple2_assoc (first second third : ValidationPolicy) :
    tuple2 (tuple2 first second) third = tuple2 first (tuple2 second third) := by
  unfold tuple2
  congr 1
  · exact List.append_assoc _ _ _
  · funext chain
    show (first.chainMeetsPolicyRequirements chain >>= fun _ =>
      second.chainMeetsPolicyRequirements chain) >>= _ = _
    cases first.chainMeetsPolicyRequirements chain <;> rfl

theorem tuple2_error {first second : ValidationPolicy} {chain : UnverifiedCertificateChain}
    {reason : PolicyFailureReason} :
    (tuple2 first second).chainMeetsPolicyRequirements chain = .error reason ↔
      first.chainMeetsPolicyRequirements chain = .error reason ∨
        first.Accepts chain ∧ second.chainMeetsPolicyRequirements chain = .error reason := by
  cases hfirst : first.chainMeetsPolicyRequirements chain with
  | error firstReason => simp [tuple2, Accepts, hfirst, bind, Except.bind]
  | ok _ => simp [tuple2, Accepts, hfirst, bind, Except.bind]

theorem oneOfTuple2_error {first second : ValidationPolicy} {chain : UnverifiedCertificateChain}
    {reason : PolicyFailureReason} :
    (oneOfTuple2 first second).chainMeetsPolicyRequirements chain = .error reason ↔
      ∃ firstReason secondReason,
        first.chainMeetsPolicyRequirements chain = .error firstReason ∧
        second.chainMeetsPolicyRequirements chain = .error secondReason ∧
        reason = ⟨firstReason.reason ++ " and " ++ secondReason.reason⟩ := by
  cases hfirst : first.chainMeetsPolicyRequirements chain with
  | ok _ => simp [oneOfTuple2, hfirst]
  | error firstReason =>
    cases hsecond : second.chainMeetsPolicyRequirements chain with
    | ok _ => simp [oneOfTuple2, hfirst, hsecond]
    | error secondReason => simp [oneOfTuple2, hfirst, hsecond, eq_comm, toString]

theorem oneOfTuple2_assoc (first second third : ValidationPolicy) :
    oneOfTuple2 (oneOfTuple2 first second) third =
      oneOfTuple2 first (oneOfTuple2 second third) := by
  rw [oneOfTuple2, oneOfTuple2.eq_def first (oneOfTuple2 second third)]
  congr 1
  · simp only [oneOfTuple2]
    rw [List.filter_filter]
    refine List.filter_congr fun oid _ => ?_
    rw [Bool.eq_iff_iff, Bool.and_eq_true, List.contains_iff_mem, List.contains_iff_mem,
      List.contains_iff_mem, List.mem_filter, List.contains_iff_mem]
    exact and_comm
  · funext chain
    cases hfirst : first.chainMeetsPolicyRequirements chain with
    | ok _ => simp only [oneOfTuple2, hfirst]
    | error firstReason =>
      cases hsecond : second.chainMeetsPolicyRequirements chain with
      | ok _ => simp only [oneOfTuple2, hfirst, hsecond]
      | error secondReason =>
        cases hthird : third.chainMeetsPolicyRequirements chain with
        | ok _ => simp only [oneOfTuple2, hfirst, hsecond, hthird]
        | error thirdReason =>
          simp [oneOfTuple2, hfirst, hsecond, hthird, toString, String.append_assoc]

end ValidationPolicy

/-! ## `policy!` -/

/-- An item of `policy!`. A condition has been decided when the policy is built,
so it is not part of the item. -/
inductive PolicyItem
  | plain (policy : ValidationPolicy)
  | bareIf (wrapped : Option ValidationPolicy)
  | ifElse (chosen : ValidationPolicy ⊕ ValidationPolicy)

namespace PolicyItem

def toPolicy : PolicyItem → ValidationPolicy
  | plain policy => policy
  | bareIf wrapped => .wrappedOptional wrapped
  | ifElse chosen => .either chosen

/-- A bare `if` whose condition is false. -/
def isDisabled : PolicyItem → Bool
  | bareIf none => true
  | _ => false

/-- The block without its disabled items. -/
def enabled (items : List PolicyItem) : List PolicyItem :=
  items.filter fun item => !item.isDisabled

end PolicyItem

/-- `policy!`, for at least one item. -/
def policyBlock : (items : List PolicyItem) → items ≠ [] → ValidationPolicy
  | [], h => absurd rfl h
  | [item], _ => item.toPolicy
  | item :: next :: rest, _ =>
    .tuple2 item.toPolicy (policyBlock (next :: rest) (List.cons_ne_nil next rest))

/-- The items one after the other, with a disabled item at the end. -/
def conjunction (items : List PolicyItem) : ValidationPolicy :=
  items.foldr (fun item rest => .tuple2 item.toPolicy rest) (.wrappedOptional none)

section

variable {items : List PolicyItem} {chain : UnverifiedCertificateChain}

theorem policyBlock_eq_conjunction (h : items ≠ []) : policyBlock items h = conjunction items := by
  induction items with
  | nil => exact absurd rfl h
  | cons item rest ih =>
    cases rest with
    | nil => exact (ValidationPolicy.tuple2_disabled_right item.toPolicy).symm
    | cons next rest => exact congrArg _ (ih (List.cons_ne_nil next rest))

theorem conjunction_append (items items' : List PolicyItem) :
    conjunction (items ++ items') = .tuple2 (conjunction items) (conjunction items') := by
  induction items with
  | nil => exact (ValidationPolicy.tuple2_disabled _).symm
  | cons item rest ih =>
    show ValidationPolicy.tuple2 item.toPolicy (conjunction (rest ++ items')) = _
    rw [ih, ← ValidationPolicy.tuple2_assoc]
    rfl

theorem conjunction_enabled (items : List PolicyItem) :
    conjunction (PolicyItem.enabled items) = conjunction items := by
  induction items with
  | nil => rfl
  | cons item rest ih =>
    unfold PolicyItem.enabled at ih ⊢
    cases hdisabled : item.isDisabled with
    | false =>
      rw [List.filter_cons_of_pos (by simp [hdisabled])]
      exact congrArg (ValidationPolicy.tuple2 item.toPolicy) ih
    | true =>
      have hnone : item = .bareIf none := by
        obtain _ | (_ | _) | _ := item
        · cases hdisabled
        · rfl
        · cases hdisabled
        · cases hdisabled
      rw [List.filter_cons_of_neg (by simp [hdisabled]), ih, hnone]
      exact (ValidationPolicy.tuple2_disabled _).symm

/-- The brackets of a block inside a block. -/
theorem conjunction_nested {pre inner post : List PolicyItem} (h : inner ≠ []) :
    conjunction (pre ++ .plain (policyBlock inner h) :: post) =
      conjunction (pre ++ inner ++ post) := by
  rw [conjunction_append, conjunction_append, conjunction_append, ValidationPolicy.tuple2_assoc,
    policyBlock_eq_conjunction]
  rfl

theorem conjunction_accepts :
    (conjunction items).Accepts chain ↔ ∀ item ∈ items, item.toPolicy.Accepts chain := by
  induction items with
  | nil => exact iff_of_true rfl fun _ h => absurd h List.not_mem_nil
  | cons item rest ih =>
    rw [List.forall_mem_cons, ← ih]
    exact ValidationPolicy.tuple2_accepts

/-- A conjunction fails with the reason of the first item that fails. -/
theorem conjunction_error {reason : PolicyFailureReason}
    (h : (conjunction items).chainMeetsPolicyRequirements chain = .error reason) :
    ∃ pre item post, items = pre ++ item :: post ∧
      (∀ earlier ∈ pre, earlier.toPolicy.Accepts chain) ∧
      item.toPolicy.chainMeetsPolicyRequirements chain = .error reason := by
  induction items with
  | nil => cases h
  | cons item rest ih =>
    rcases ValidationPolicy.tuple2_error.mp h with hitem | ⟨haccepts, hrest⟩
    · exact ⟨[], item, rest, rfl, fun _ hmem => absurd hmem List.not_mem_nil, hitem⟩
    · obtain ⟨pre, failing, post, rfl, hpre, hfailing⟩ := ih hrest
      exact ⟨item :: pre, failing, post, rfl, List.forall_mem_cons.mpr ⟨haccepts, hpre⟩, hfailing⟩

end

/-- The reason of a failure is the verdict of the policy. -/
theorem reason_of_validate_eq_error {v : Validator} {leaf : Certificate}
    {intermediates : CertificateStore} {failures : List PolicyFailure} {failure : PolicyFailure}
    (hleaf : hasUnhandledCriticalExtensions leaf v.policy = false)
    (h : v.validate leaf intermediates = .error failures) (hfailure : failure ∈ failures) :
    v.policy.chainMeetsPolicyRequirements failure.chain = .error failure.policyFailureReason := by
  obtain ⟨-, rfl⟩ := all_rejected_of_validate_eq_error hleaf h
  exact (mem_failuresOf hfailure).2

/-! ## 1. Runs under `policy!` -/

/-- Under a `policy!` block, a chain that is accepted meets all items, and where the
critical extensions of the leaf are handled, a chain that fails is reported with the
reason of the first item it does not meet. Disabled items may be dropped, and a
block inside a block may be written out, without changing the policy. -/
theorem policy_block_failures (v : Validator) (items : List PolicyItem) (h : items ≠ [])
    (leaf : Certificate) (intermediates : CertificateStore) :
    (∀ chain, Validator.validate { v with policy := policyBlock items h } leaf intermediates =
        .ok chain →
      ∀ item ∈ items, item.toPolicy.Accepts ⟨chain.certificates, chain.nonempty⟩) ∧
    (∀ failures, hasUnhandledCriticalExtensions leaf (policyBlock items h) = false →
      Validator.validate { v with policy := policyBlock items h } leaf intermediates =
        .error failures →
      ∀ failure ∈ failures, ∃ pre item post, items = pre ++ item :: post ∧
        (∀ earlier ∈ pre, earlier.toPolicy.Accepts failure.chain) ∧
        item.toPolicy.chainMeetsPolicyRequirements failure.chain =
          .error failure.policyFailureReason) ∧
    (∀ henabled : PolicyItem.enabled items ≠ [],
      policyBlock (PolicyItem.enabled items) henabled = policyBlock items h) ∧
    (∀ (pre inner post : List PolicyItem) (hinner : inner ≠ []) (hflat : pre ++ inner ++ post ≠ []),
      items = pre ++ .plain (policyBlock inner hinner) :: post →
      policyBlock (pre ++ inner ++ post) hflat = policyBlock items h) := by
  have hblock := policyBlock_eq_conjunction h
  refine ⟨?_, ?_, ?_, ?_⟩
  · intro chain hchain
    have haccepts := (anchored_of_validate_eq_ok hchain).2.2
    rw [hblock] at haccepts
    exact conjunction_accepts.mp haccepts
  · intro failures hleaf hfailures failure hfailure
    have hreason := reason_of_validate_eq_error (v := { v with policy := policyBlock items h })
      hleaf hfailures hfailure
    rw [hblock] at hreason
    exact conjunction_error hreason
  · intro henabled
    rw [hblock, policyBlock_eq_conjunction, conjunction_enabled]
  · intro pre inner post hinner hflat heq
    rw [hblock, policyBlock_eq_conjunction, heq, conjunction_nested]

namespace SamplePki

/-- A switched-off item, a block inside the block, and a choice. -/
def samplePolicyItems : List PolicyItem :=
  [.bareIf none, .plain (policyBlock [.bareIf none, .plain longChainPolicy] (List.cons_ne_nil _ _)),
    .ifElse (.inr renamedPolicy)]

end SamplePki

/-- The end entity of the small PKI has no chain of four certificates without the
cross-signed authority. -/
theorem policy_block_failures_two_items :
    Validator.validate { SamplePki.validator with
        policy := policyBlock SamplePki.samplePolicyItems (List.cons_ne_nil _ _) }
        SamplePki.endEntity (.fromIter [SamplePki.ca1Cross]) =
      .error [⟨SamplePki.shortChain, ⟨"chain is too short"⟩⟩] ∧
    policyBlock (PolicyItem.enabled SamplePki.samplePolicyItems) (List.cons_ne_nil _ _) =
      policyBlock SamplePki.samplePolicyItems (List.cons_ne_nil _ _) :=
  ⟨by decide +kernel, (policy_block_failures SamplePki.validator SamplePki.samplePolicyItems
    (List.cons_ne_nil _ _) SamplePki.endEntity .new).2.2.1 (List.cons_ne_nil _ _)⟩

/-! ## `one_of!` -/

section

variable {items : List OneOfItem} {chain : UnverifiedCertificateChain}

theorem oneOf_cons {item : OneOfItem} {rest : List OneOfItem} (hrest : rest ≠ [])
    (h : item :: rest ≠ []) :
    oneOf (item :: rest) h = .oneOfTuple2 item.toPolicy (oneOf rest hrest) := by
  cases rest with
  | nil => exact absurd rfl hrest
  | cons next rest => rfl

/-- A block of alternatives fails if every item fails, and joins the reasons. -/
theorem oneOf_error (h : items ≠ []) {reason : PolicyFailureReason}
    (herror : (oneOf items h).chainMeetsPolicyRequirements chain = .error reason) :
    ∃ reasons : List PolicyFailureReason,
      List.Forall₂ (fun item reason =>
        item.toPolicy.chainMeetsPolicyRequirements chain = .error reason) items reasons ∧
      reason.reason = " and ".intercalate (reasons.map PolicyFailureReason.reason) := by
  induction items generalizing reason with
  | nil => exact absurd rfl h
  | cons item rest ih =>
    cases rest with
    | nil => exact ⟨[reason], .cons herror .nil, (String.intercalate_singleton).symm⟩
    | cons next rest =>
      obtain ⟨first, second, hfirst, hsecond, rfl⟩ := ValidationPolicy.oneOfTuple2_error.mp herror
      obtain ⟨reasons, hreasons, heq⟩ := ih (List.cons_ne_nil next rest) hsecond
      refine ⟨first :: reasons, .cons hfirst hreasons, ?_⟩
      cases hreasons with
      | cons _ _ =>
        rw [List.map_cons, List.map_cons, String.intercalate_cons_cons, heq, List.map_cons]

theorem oneOf_append {items items' : List OneOfItem} (h : items ≠ []) (h' : items' ≠ [])
    (happend : items ++ items' ≠ []) :
    oneOf (items ++ items') happend = .oneOfTuple2 (oneOf items h) (oneOf items' h') := by
  induction items with
  | nil => exact absurd rfl h
  | cons item rest ih =>
    cases rest with
    | nil => exact oneOf_cons h' happend
    | cons next rest =>
      show ValidationPolicy.oneOfTuple2 item.toPolicy (oneOf (next :: rest ++ items') _) = _
      rw [ih (List.cons_ne_nil next rest), ← ValidationPolicy.oneOfTuple2_assoc]
      rfl

/-- The brackets of a block of alternatives inside another one. -/
theorem oneOf_nested {pre inner post : List OneOfItem} (hinner : inner ≠ [])
    (hflat : pre ++ (inner ++ post) ≠ []) (h : pre ++ .plain (oneOf inner hinner) :: post ≠ []) :
    oneOf (pre ++ .plain (oneOf inner hinner) :: post) h =
      oneOf (pre ++ (inner ++ post)) hflat := by
  have htail : ∀ hpost : .plain (oneOf inner hinner) :: post ≠ [],
      oneOf (.plain (oneOf inner hinner) :: post) hpost =
        oneOf (inner ++ post) (List.append_ne_nil_of_left_ne_nil hinner post) := by
    intro hpost
    cases post with
    | nil =>
      simp only [List.append_nil]
      rfl
    | cons next post =>
      rw [oneOf_append hinner (List.cons_ne_nil next post)]
      rfl
  cases pre with
  | nil => exact htail h
  | cons item pre =>
    rw [oneOf_append (List.cons_ne_nil item pre) (List.cons_ne_nil _ post),
      oneOf_append (List.cons_ne_nil item pre) (List.append_ne_nil_of_left_ne_nil hinner post),
      htail]

end

/-! ## 2. Runs under `one_of!` -/

/-- Under a `one_of!` block, a chain that is accepted meets one of the items, and
where the critical extensions of the leaf are handled, a chain that fails meets none
of them and is reported with all of their reasons, in order. A block inside a block
may be written out without changing the policy. -/
theorem one_of_block_failures (v : Validator) (items : List OneOfItem) (h : items ≠ [])
    (leaf : Certificate) (intermediates : CertificateStore) :
    (∀ chain, Validator.validate { v with policy := oneOf items h } leaf intermediates =
        .ok chain →
      ∃ item ∈ items, item.toPolicy.Accepts ⟨chain.certificates, chain.nonempty⟩) ∧
    (∀ failures, hasUnhandledCriticalExtensions leaf (oneOf items h) = false →
      Validator.validate { v with policy := oneOf items h } leaf intermediates =
        .error failures →
      ∀ failure ∈ failures, ∃ reasons : List PolicyFailureReason,
        List.Forall₂ (fun item reason =>
          item.toPolicy.chainMeetsPolicyRequirements failure.chain = .error reason)
          items reasons ∧
        failure.policyFailureReason.reason =
          " and ".intercalate (reasons.map PolicyFailureReason.reason)) ∧
    (∀ (pre inner post : List OneOfItem) (hinner : inner ≠ [])
      (hflat : pre ++ (inner ++ post) ≠ []),
      items = pre ++ .plain (oneOf inner hinner) :: post →
      oneOf (pre ++ (inner ++ post)) hflat = oneOf items h) := by
  refine ⟨?_, ?_, ?_⟩
  · intro chain hchain
    exact (oneOf_accepts h).mp (anchored_of_validate_eq_ok hchain).2.2
  · intro failures hleaf hfailures failure hfailure
    exact oneOf_error h (reason_of_validate_eq_error (v := { v with policy := oneOf items h })
      hleaf hfailures hfailure)
  · rintro pre inner post hinner hflat rfl
    exact (oneOf_nested hinner hflat h).symm

/-- Both alternatives ask for four certificates. -/
theorem one_of_block_failures_two_items :
    ∃ reasons : List PolicyFailureReason,
      List.Forall₂ (fun (item : OneOfItem) reason =>
        item.toPolicy.chainMeetsPolicyRequirements SamplePki.shortChain = .error reason)
        [.plain SamplePki.longChainPolicy, .plain SamplePki.renamedPolicy] reasons ∧
      "chain is too short and four certificates are needed" =
        " and ".intercalate (reasons.map PolicyFailureReason.reason) := by
  refine (one_of_block_failures SamplePki.validator
    [.plain SamplePki.longChainPolicy, .plain SamplePki.renamedPolicy] (List.cons_ne_nil _ _)
    SamplePki.endEntity (.fromIter [SamplePki.ca1Cross])).2.1
    [⟨SamplePki.shortChain, ⟨"chain is too short and four certificates are needed"⟩⟩]
    (by decide +kernel) (by decide +kernel) _ (List.mem_singleton_self _)

end X509Validator
