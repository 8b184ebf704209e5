import X509Validator.Soundness

/-!
# No chain is missed

Every linked path from the leaf through the intermediate store to the root store
is a chain of the enumeration: wherever the search stands on such a path, the
next certificate of the path is a candidate that is not skipped. So `validate`
accepts the leaf exactly if there is a path that the policy accepts, and whether
it does depends only on which certificates the stores hold.

Results:
1. `validate_complete`: an acceptable path is enough for `validate` to return
   `Ok`, in whatever order the stores hold it and whatever else they hold.
-/

namespace X509Validator

open StackSearch

variable {v : Validator} {leaf : Certificate} {intermediates : CertificateStore}

/-! ## Paths are enumerated -/

theorem LinkedPath.head_handled {rest : List Certificate} (h : LinkedPath v (leaf :: rest)) :
    hasUnhandledCriticalExtensions leaf v.policy = false :=
  hasUnhandledCriticalExtensions_eq_false.mpr (h.handled leaf List.mem_cons_self)

/-- The certificate after a non-empty part of a linked path is a usable
candidate for that part, in any store that holds it. -/
theorem LinkedPath.mem_issuersByKeyId {partialChain rest : List Certificate} {c : Certificate}
    {store : CertificateStore} (hne : partialChain ≠ [])
    (h : LinkedPath v (partialChain ++ c :: rest)) (hc : c ∈ store) :
    c ∈ issuersByKeyId v store partialChain := by
  have htip := List.getLast?_eq_some_getLast hne
  obtain ⟨hissued, hkey⟩ := (List.isChain_append.mp h.issued).2.2 _ htip c rfl
  refine X509Validator.mem_issuersByKeyId.mpr
    ⟨mem_candidates.mpr ⟨hc, _, htip, hissued⟩, usable_iff.mpr ⟨?_, ?_, _, htip, ?_⟩⟩
  · exact hasUnhandledCriticalExtensions_eq_false.mpr
      (h.handled c (List.mem_append_right _ List.mem_cons_self))
  · intro existing hexisting
    rw [Ne, ← Certificate.hasSameIdentityAs_iff, Bool.not_eq_true]
    exact (List.pairwise_append.mp h.distinct).2.2 existing hexisting c List.mem_cons_self
  · exact signedBy_iff.mpr hkey

/-- From any point of a linked path to a root, the enumeration reaches its end. -/
theorem complete_mem_enumerate {partialChain middle : List Certificate} {root : Certificate}
    (hne : partialChain ≠ []) (h : LinkedPath v (partialChain ++ middle ++ [root]))
    (hmiddle : ∀ c ∈ middle, c ∈ intermediates) (hroot : root ∈ v.rootCertificates) :
    complete (partialChain ++ middle) root ∈ enumerate v intermediates partialChain := by
  induction middle generalizing partialChain with
  | nil =>
    rw [List.append_nil] at h ⊢
    rw [enumerate_eq]
    exact List.mem_append_left _ (List.mem_map_of_mem (h.mem_issuersByKeyId hne hroot))
  | cons c middle ih =>
    have hnext : c ∈ issuersByKeyId v intermediates partialChain := by
      rw [List.append_assoc, List.cons_append] at h
      exact h.mem_issuersByKeyId hne (hmiddle c List.mem_cons_self)
    rw [List.append_cons partialChain c middle] at h ⊢
    have hbelow : complete (partialChain ++ [c] ++ middle) root ∈
        enumerate v intermediates (partialChain ++ [c]) :=
      ih (by simp) h fun c' hc' => hmiddle c' (List.mem_cons_of_mem c hc')
    rw [enumerate_eq]
    exact List.mem_append_right _ (List.mem_flatMap.mpr ⟨c, hnext, hbelow⟩)

theorem mem_enumerateFrom_of_anchored {chain : UnverifiedCertificateChain}
    (hanchored : Anchored v leaf intermediates chain.certificates)
    (hlinked : LinkedPath v chain.certificates) : chain ∈ enumerateFrom v leaf intermediates := by
  obtain ⟨certs, hne⟩ := chain
  cases hanchored with
  | direct hroot =>
    refine List.mem_append_left _ ?_
    rw [if_pos hroot]
    exact List.mem_cons_self
  | through middle root hmiddle hroot =>
    refine List.mem_append_right _ ?_
    exact complete_mem_enumerate (List.cons_ne_nil leaf []) hlinked hmiddle hroot

theorem Anchored.head_handled {certs : List Certificate}
    (hanchored : Anchored v leaf intermediates certs) (hlinked : LinkedPath v certs) :
    hasUnhandledCriticalExtensions leaf v.policy = false := by
  cases hanchored with
  | direct _ => exact hlinked.head_handled
  | through _ _ _ _ => exact hlinked.head_handled

theorem validate_ok_of_anchored (chain : UnverifiedCertificateChain)
    (hanchored : Anchored v leaf intermediates chain.certificates)
    (hlinked : LinkedPath v chain.certificates) (haccepts : v.policy.Accepts chain) :
    ∃ accepted, v.validate leaf intermediates = .ok accepted := by
  have hsome : ((enumerateFrom v leaf intermediates).find?
      fun chain => v.policy.Accepts chain).isSome := by
    rw [List.find?_isSome]
    exact ⟨chain, mem_enumerateFrom_of_anchored hanchored hlinked, by simpa using haccepts⟩
  obtain ⟨accepted, haccepted⟩ := Option.isSome_iff_exists.mp hsome
  exact ⟨_, (validate_eq intermediates (hanchored.head_handled hlinked)).trans
    (firstAccepted_of_find? haccepted)⟩

/-! ## Larger stores -/

theorem Anchored.mono {rootCertificates intermediates' : CertificateStore}
    {certs : List Certificate} (h : Anchored v leaf intermediates certs)
    (hroots : ∀ c ∈ v.rootCertificates, c ∈ rootCertificates)
    (hintermediates : ∀ c ∈ intermediates, c ∈ intermediates') :
    Anchored { v with rootCertificates } leaf intermediates' certs := by
  cases h with
  | direct hroot => exact .direct (hroots leaf hroot)
  | through middle root hmiddle hroot =>
    exact .through middle root (fun c hc => hintermediates c (hmiddle c hc)) (hroots root hroot)

theorem validate_ok_mono {rootCertificates intermediates' : CertificateStore}
    (hroots : ∀ c ∈ v.rootCertificates, c ∈ rootCertificates)
    (hintermediates : ∀ c ∈ intermediates, c ∈ intermediates')
    (h : ∃ chain, v.validate leaf intermediates = .ok chain) :
    ∃ chain, Validator.validate { v with rootCertificates } leaf intermediates' = .ok chain := by
  obtain ⟨chain, hchain⟩ := h
  obtain ⟨hanchored, hlinked, haccepts⟩ := anchored_of_validate_eq_ok hchain
  have hlinked' : LinkedPath { v with rootCertificates } chain.certificates :=
    ⟨hlinked.issued, hlinked.distinct, hlinked.handled⟩
  exact validate_ok_of_anchored (v := { v with rootCertificates })
    ⟨chain.certificates, chain.nonempty⟩ (hanchored.mono hroots hintermediates) hlinked' haccepts

/-! ## 1. Completeness -/

/-- Completeness of chain building. If a linked path leads from the leaf to the
root store and the policy accepts it, `validate` returns `Ok`. Hence acceptance
is kept when certificates are added to the stores, and does not depend on the
order in which they were inserted. -/
theorem validate_complete (v : Validator) (leaf : Certificate)
    (intermediates : CertificateStore) :
    (∀ chain : UnverifiedCertificateChain, Anchored v leaf intermediates chain.certificates →
      LinkedPath v chain.certificates → v.policy.Accepts chain →
      ∃ accepted, v.validate leaf intermediates = .ok accepted) ∧
    (∀ rootCertificates intermediates' : CertificateStore,
      (∀ c ∈ v.rootCertificates, c ∈ rootCertificates) →
      (∀ c ∈ intermediates, c ∈ intermediates') →
      (∃ chain, v.validate leaf intermediates = .ok chain) →
      ∃ chain, Validator.validate { v with rootCertificates } leaf intermediates' = .ok chain) ∧
    (∀ roots roots' certs certs' : List Certificate, roots.Perm roots' → certs.Perm certs' →
      ((∃ chain, Validator.validate { v with rootCertificates := .fromIter roots } leaf
          (.fromIter certs) = .ok chain) ↔
        ∃ chain, Validator.validate { v with rootCertificates := .fromIter roots' } leaf
          (.fromIter certs') = .ok chain)) := by
  refine ⟨validate_ok_of_anchored, fun _ _ => validate_ok_mono, ?_⟩
  have hreorder : ∀ {roots roots' certs certs' : List Certificate}, roots.Perm roots' →
      certs.Perm certs' →
      (∃ chain, Validator.validate { v with rootCertificates := .fromIter roots } leaf
        (.fromIter certs) = .ok chain) →
      ∃ chain, Validator.validate { v with rootCertificates := .fromIter roots' } leaf
        (.fromIter certs') = .ok chain := by
    intro roots roots' certs certs' hroots hcerts
    refine validate_ok_mono (v := { v with rootCertificates := .fromIter roots }) ?_ ?_
    · exact fun c hc => CertificateStore.mem_fromIter.mpr
        (hroots.mem_iff.mp (CertificateStore.mem_fromIter.mp hc))
    · exact fun c hc => CertificateStore.mem_fromIter.mpr
        (hcerts.mem_iff.mp (CertificateStore.mem_fromIter.mp hc))
  intro roots roots' certs certs' hroots hcerts
  exact ⟨hreorder hroots hcerts, hreorder hroots.symm hcerts.symm⟩

/-- The long path of the small PKI is found, also when the stores hold further
certificates and in another order. -/
theorem validate_complete_cross_signed :
    (∃ chain, SamplePki.validator.validate SamplePki.endEntity SamplePki.caStore = .ok chain) ∧
    ∃ chain, Validator.validate { SamplePki.validator with
        rootCertificates := .fromIter [SamplePki.certificate "other" "other" "key4" "key4",
          SamplePki.root] } SamplePki.endEntity
      (.fromIter [SamplePki.ca2Cross, SamplePki.ca1, SamplePki.ca2, SamplePki.ca1Cross]) =
        .ok chain := by
  have hlinked : LinkedPath SamplePki.validator SamplePki.longChain.certificates :=
    ⟨by decide +kernel, by decide +kernel, by decide +kernel⟩
  have hanchored : Anchored SamplePki.validator SamplePki.endEntity SamplePki.caStore
      SamplePki.longChain.certificates :=
    .through [SamplePki.ca1, SamplePki.ca2Cross] SamplePki.root (by decide +kernel)
      (by decide +kernel)
  have hok := (validate_complete SamplePki.validator SamplePki.endEntity SamplePki.caStore).1
    SamplePki.longChain hanchored hlinked (by decide)
  exact ⟨hok, (validate_complete _ _ _).2.1 _ _ (by decide +kernel) (by decide +kernel) hok⟩

end X509Validator
