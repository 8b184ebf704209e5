import X509Validator.Enumeration
import Mathlib.Data.List.Chain

/-!
# Every chain that is built is a path to a trust anchor

The invariant of the search is that a partial chain starts at the leaf, goes
through certificates of the intermediate store, that each certificate is issued
by the next one, that no two have the same identity and that none has a critical
extension the policy does not handle (`PartialPath`). Extending a partial chain
by a usable candidate keeps it (`PartialPath.extend`), and completing it with a
root candidate gives a chain to the root store (`PartialPath.complete`).

Results:
1. `validate_sound`: the accepted chain, every chain handed to the policy and
   every chain reported as a failure is such a chain.
2. `critical_extensions_enforced`: on an accepted chain every critical extension
   is enforced by a leaf of the policy expression that accepted the chain.
-/

namespace X509Validator

open StackSearch

variable {σ : Type} {v : Validator} {leaf : Certificate} {intermediates : CertificateStore}

/-! ## Paths -/

/-- `subject` names `issuer` as its issuer, byte for byte, and the signature on
`subject` verifies under the key of `issuer`. -/
def Issued (crypto : SignatureVerifier) (subject issuer : Certificate) : Prop :=
  subject.issuerKey = issuer.subjectKey ∧
    crypto.verifySignature subject.signatureAlgorithm issuer.publicKey subject.tbs
      subject.signatureValue.data = .ok ()

instance (crypto : SignatureVerifier) (subject issuer : Certificate) :
    Decidable (Issued crypto subject issuer) :=
  inferInstanceAs (Decidable (_ ∧ _))

theorem signedBy_iff {crypto : SignatureVerifier} {subject issuer : Certificate} :
    signedBy crypto subject issuer = true ↔
      crypto.verifySignature subject.signatureAlgorithm issuer.publicKey subject.tbs
        subject.signatureValue.data = .ok () := by
  unfold signedBy
  cases crypto.verifySignature subject.signatureAlgorithm issuer.publicKey subject.tbs
    subject.signatureValue.data with
  | error e => simp [Except.isOk, Except.toBool]
  | ok _ => simp [Except.isOk, Except.toBool]

/-- Certificates each of which is issued by the next one, of pairwise distinct
identities and without unhandled critical extensions. -/
structure LinkedPath (v : Validator) (certs : List Certificate) : Prop where
  issued : certs.IsChain (Issued v.crypto)
  distinct : certs.Pairwise fun a b => a.hasSameIdentityAs b = false
  handled : ∀ c ∈ certs, ∀ ext ∈ c.extensions, ext.critical = true →
    ext.oid ∈ v.policy.verifyingCriticalExtensions

/-- A leaf that is itself a root, or a path from the leaf through the
intermediate store to the root store. -/
inductive Anchored (v : Validator) (leaf : Certificate) (intermediates : CertificateStore) :
    List Certificate → Prop
  | direct : leaf ∈ v.rootCertificates → Anchored v leaf intermediates [leaf]
  | through (middle : List Certificate) (root : Certificate) :
      (∀ c ∈ middle, c ∈ intermediates) → root ∈ v.rootCertificates →
      Anchored v leaf intermediates (leaf :: middle ++ [root])

/-- The invariant of the search: a linked path from the leaf through the
intermediate store. -/
structure PartialPath (v : Validator) (leaf : Certificate) (intermediates : CertificateStore)
    (partialChain : List Certificate) : Prop extends LinkedPath v partialChain where
  shape : ∃ middle, partialChain = leaf :: middle ∧ ∀ c ∈ middle, c ∈ intermediates

theorem linkedPath_singleton (h : hasUnhandledCriticalExtensions leaf v.policy = false) :
    LinkedPath v [leaf] where
  issued := List.isChain_singleton leaf
  distinct := List.pairwise_singleton _ leaf
  handled _ hc := by
    rw [List.mem_singleton.mp hc]
    exact hasUnhandledCriticalExtensions_eq_false.mp h

theorem partialPath_leaf (h : hasUnhandledCriticalExtensions leaf v.policy = false) :
    PartialPath v leaf intermediates [leaf] :=
  ⟨linkedPath_singleton h, [], rfl, fun _ hc => absurd hc List.not_mem_nil⟩

/-- A usable candidate prolongs a linked path. -/
theorem LinkedPath.snoc {partialChain : List Certificate} {store : CertificateStore}
    {c : Certificate} (h : LinkedPath v partialChain) (hc : c ∈ candidates store partialChain)
    (husable : usable v partialChain c = true) : LinkedPath v (partialChain ++ [c]) := by
  obtain ⟨_, tip, htip, hkey⟩ := mem_candidates.mp hc
  obtain ⟨hhandled, hdistinct, tip', htip', hsigned⟩ := usable_iff.mp husable
  obtain rfl : tip = tip' := Option.some.inj (htip.symm.trans htip')
  refine ⟨?_, ?_, ?_⟩
  · refine List.isChain_append.mpr ⟨h.issued, List.isChain_singleton c, ?_⟩
    intro x hx y hy
    obtain rfl : tip = x := Option.some.inj (htip.symm.trans hx)
    obtain rfl : c = y := Option.some.inj hy
    exact ⟨hkey, signedBy_iff.mp hsigned⟩
  · refine List.pairwise_append.mpr ⟨h.distinct, List.pairwise_singleton _ c, ?_⟩
    intro a ha b hb
    rw [List.mem_singleton.mp hb, ← Bool.not_eq_true, Certificate.hasSameIdentityAs_iff]
    exact hdistinct a ha
  · intro x hx
    rcases List.mem_append.mp hx with hx | hx
    · exact h.handled x hx
    · rw [List.mem_singleton.mp hx]
      exact hasUnhandledCriticalExtensions_eq_false.mp hhandled

theorem PartialPath.extend {partialChain : List Certificate} {c : Certificate}
    (h : PartialPath v leaf intermediates partialChain)
    (hc : c ∈ issuersByKeyId v intermediates partialChain) :
    PartialPath v leaf intermediates (partialChain ++ [c]) := by
  obtain ⟨hcandidate, husable⟩ := mem_issuersByKeyId.mp hc
  obtain ⟨middle, rfl, hmiddle⟩ := h.shape
  refine ⟨h.toLinkedPath.snoc hcandidate husable, middle ++ [c], rfl, ?_⟩
  intro x hx
  rcases List.mem_append.mp hx with hx | hx
  · exact hmiddle x hx
  · rw [List.mem_singleton.mp hx]
    exact (mem_candidates.mp hcandidate).1

theorem PartialPath.complete {partialChain : List Certificate} {c : Certificate}
    (h : PartialPath v leaf intermediates partialChain)
    (hc : c ∈ issuersByKeyId v v.rootCertificates partialChain) :
    Anchored v leaf intermediates (partialChain ++ [c]) ∧ LinkedPath v (partialChain ++ [c]) := by
  obtain ⟨hcandidate, husable⟩ := mem_issuersByKeyId.mp hc
  obtain ⟨middle, rfl, hmiddle⟩ := h.shape
  exact ⟨.through middle c hmiddle (mem_candidates.mp hcandidate).1,
    h.toLinkedPath.snoc hcandidate husable⟩

/-- Every chain of the enumeration leads from the leaf to the root store. -/
theorem anchored_of_mem_enumerateFrom
    (hleaf : hasUnhandledCriticalExtensions leaf v.policy = false)
    {chain : UnverifiedCertificateChain} (h : chain ∈ enumerateFrom v leaf intermediates) :
    Anchored v leaf intermediates chain.certificates ∧ LinkedPath v chain.certificates := by
  rcases List.mem_append.mp h with h | h
  · split at h
    · next hroot =>
      rw [List.mem_singleton.mp h]
      exact ⟨.direct hroot, linkedPath_singleton hleaf⟩
    · exact absurd h List.not_mem_nil
  · refine (completionTree v intermediates).forall_mem_preorder
      (P := PartialPath v leaf intermediates) (Q := fun chain =>
        Anchored v leaf intermediates chain.certificates ∧ LinkedPath v chain.certificates)
      ?_ ?_ (partialPath_leaf hleaf) chain h
    · intro partialChain hpartial next hnext
      obtain ⟨c, hc, rfl⟩ := List.mem_map.mp hnext
      exact hpartial.extend hc
    · intro partialChain hpartial chain hchain
      obtain ⟨c, hc, rfl⟩ := List.mem_map.mp hchain
      exact hpartial.complete hc

theorem anchored_of_validate_eq_ok {chain : ValidatedCertificateChain}
    (h : v.validate leaf intermediates = .ok chain) :
    Anchored v leaf intermediates chain.certificates ∧ LinkedPath v chain.certificates ∧
      v.policy.Accepts ⟨chain.certificates, chain.nonempty⟩ := by
  have hfind := find?_of_validate_eq_ok h
  obtain ⟨hanchored, hlinked⟩ := anchored_of_mem_enumerateFrom (handled_of_validate_eq_ok h)
    (List.mem_of_find?_eq_some hfind)
  exact ⟨hanchored, hlinked, by simpa using List.find?_some hfind⟩

theorem anchored_of_mem_handedToPolicy {chain : UnverifiedCertificateChain}
    (h : chain ∈ v.handedToPolicy leaf intermediates) :
    Anchored v leaf intermediates chain.certificates ∧ LinkedPath v chain.certificates := by
  obtain ⟨result, evaluated, events, hrun, _, hhanded, _⟩ := validate_run v leaf intermediates
  rw [hhanded] at h
  cases hrun with
  | unhandled _ => exact absurd h List.not_mem_nil
  | accepted pre accepted post hleaf hplan _ _ =>
    refine anchored_of_mem_enumerateFrom hleaf ?_
    rw [← chainsOf_plan, hplan, chainsOf_append]
    rcases List.mem_append.mp h with h | h
    · exact List.mem_append_left _ h
    · rw [List.mem_singleton.mp h]
      exact List.mem_append_right _ List.mem_cons_self
  | exhausted hleaf _ =>
    rw [chainsOf_plan] at h
    exact anchored_of_mem_enumerateFrom hleaf h

/-! ## 1. Soundness -/

/-- Soundness of chain building. An accepted chain leads from the leaf through
the intermediate store to the root store, or is the leaf itself where that is a
root; its certificates are linked, distinct and handled, and the policy accepts
it. All but the last holds of every chain handed to the policy and of every
chain reported as a failure, except for the one failure that is reported when
the leaf has a critical extension the policy does not handle. -/
theorem validate_sound (v : Validator) (leaf : Certificate) (intermediates : CertificateStore) :
    (∀ chain, v.validate leaf intermediates = .ok chain →
      Anchored v leaf intermediates chain.certificates ∧ LinkedPath v chain.certificates ∧
        v.policy.Accepts ⟨chain.certificates, chain.nonempty⟩) ∧
    (∀ chain ∈ v.handedToPolicy leaf intermediates,
      Anchored v leaf intermediates chain.certificates ∧ LinkedPath v chain.certificates) ∧
    (∀ failures, v.validate leaf intermediates = .error failures →
      (∀ failure ∈ failures, Anchored v leaf intermediates failure.chain.certificates ∧
        LinkedPath v failure.chain.certificates) ∨
      (hasUnhandledCriticalExtensions leaf v.policy = true ∧
        failures.map (fun failure => failure.chain.certificates) = [[leaf]])) := by
  refine ⟨fun chain h => anchored_of_validate_eq_ok h,
    fun chain h => anchored_of_mem_handedToPolicy h, fun failures h => ?_⟩
  obtain ⟨result, evaluated, events, hrun, hresult, _, _⟩ := validate_run v leaf intermediates
  rw [h] at hresult
  cases hrun with
  | unhandled hleaf =>
    cases hresult
    exact .inr ⟨hleaf, rfl⟩
  | accepted _ _ _ _ _ _ _ => cases hresult
  | exhausted hleaf _ =>
    rw [chainsOf_plan] at hresult
    cases hresult
    exact .inl fun failure hfailure =>
      anchored_of_mem_enumerateFrom hleaf (mem_failuresOf hfailure).1

/-- The chain through the short path is rejected, and the longer one is found. -/
theorem validate_sound_cross_signed :
    SamplePki.validator.validate SamplePki.endEntity SamplePki.caStore =
      .ok ⟨SamplePki.longChain.certificates, SamplePki.longChain.nonempty⟩ ∧
    LinkedPath SamplePki.validator SamplePki.longChain.certificates := by
  have hresult : SamplePki.validator.validate SamplePki.endEntity SamplePki.caStore =
      .ok ⟨SamplePki.longChain.certificates, SamplePki.longChain.nonempty⟩ := by
    decide +kernel
  exact ⟨hresult, ((validate_sound _ _ _).1 _ hresult).2.1⟩

/-! ## 2. Critical extensions -/

/-- Every critical extension on an accepted chain is enforced: whatever the
combinators of the expression, a leaf policy that lists the extension has
accepted the chain. -/
theorem critical_extensions_enforced (expr : PolicyExpr) :
    (∀ chain oid, expr.toPolicy.Accepts chain →
      oid ∈ expr.toPolicy.verifyingCriticalExtensions → expr.EnforcedBy oid chain) ∧
    (∀ rootCertificates crypto leaf intermediates chain,
      Validator.validate ⟨rootCertificates, crypto, expr.toPolicy⟩ leaf intermediates = .ok chain →
      ∀ c ∈ chain.certificates, ∀ ext ∈ c.extensions, ext.critical = true →
        expr.EnforcedBy ext.oid ⟨chain.certificates, chain.nonempty⟩) := by
  refine ⟨fun chain oid haccepts hoid => PolicyExpr.exists_leaf_of_accepts haccepts hoid, ?_⟩
  intro rootCertificates crypto leaf intermediates chain h c hc ext hext hcritical
  obtain ⟨_, hlinked, haccepts⟩ := anchored_of_validate_eq_ok h
  exact PolicyExpr.exists_leaf_of_accepts haccepts (hlinked.handled c hc ext hext hcritical)

/-- The critical extension of the cross-signed certificate, under an alternative
one side of which rejects the chain. -/
theorem critical_extensions_enforced_cross_signed :
    (PolicyExpr.oneOfTuple2 (.leaf SamplePki.longChainPolicy)
      (.leaf ⟨[oidX509ExtBasicConstraints], fun _ => .error ⟨"never"⟩⟩)).EnforcedBy
      oidX509ExtBasicConstraints SamplePki.longChain := by
  exact (critical_extensions_enforced _).2 (.fromIter [SamplePki.root]) SamplePki.crypto
    SamplePki.endEntity SamplePki.caStore ⟨_, SamplePki.longChain.nonempty⟩ (by decide +kernel)
    SamplePki.ca2Cross (by decide +kernel) SamplePki.critical (by decide +kernel) rfl

end X509Validator
