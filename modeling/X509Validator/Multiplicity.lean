import X509Validator.Irrelevance
import X509Validator.Simulation

/-!
# How often a chain is tried

A store may hold a certificate several times, and the search then tries the
chains through it several times. This module counts them: a chain from the leaf
to a root occurs in the enumeration as often as its certificates can be picked
from the stores, which is the product of their multiplicities, and any other chain
does not occur at all. The count does not mention the order of the stores, so
reordering them only reorders the chains, and where no store holds a certificate
twice no chain is tried twice.

Results:
1. `failures_permute`: a failing run fails for any order of the stores, with the
   same failures up to their order.
2. `chains_tried_with_multiplicity`: how often a failing run reports a chain; with
   duplicate-free stores, no run hands a chain to the policy twice.
-/

namespace X509Validator

open StackSearch

variable {v : Validator} {leaf : Certificate} {intermediates : CertificateStore}

/-- How often a store holds a certificate. -/
def CertificateStore.multiplicity (store : CertificateStore) (c : Certificate) : Nat :=
  (store.findBySubject c.subjectKey).count c

theorem CertificateStore.multiplicity_pos {store : CertificateStore} {c : Certificate} :
    0 < store.multiplicity c ↔ c ∈ store := by
  rw [multiplicity, List.count_pos_iff, mem_iff_mem_findBySubject]

theorem CertificateStore.multiplicity_fromIter (certificates : List Certificate)
    (c : Certificate) : (fromIter certificates).multiplicity c = certificates.count c := by
  rw [multiplicity, findBySubject_fromIter, List.count_filter (by simp)]

/-! ## Counting chains -/

/-- Of a list of lists, only those of one element contain `x`. -/
theorem count_flatMap_of_unique {α β : Type*} [DecidableEq α] [DecidableEq β] {l : List α}
    {f : α → List β} {x : β} {a : α} (h : ∀ b ∈ l, x ∈ f b → b = a) :
    (l.flatMap f).count x = l.count a * (f a).count x := by
  induction l with
  | nil => simp
  | cons b l ih =>
    rw [List.flatMap_cons, List.count_append, ih fun c hc => h c (List.mem_cons_of_mem b hc),
      List.count_cons, Nat.add_mul, Nat.add_comm]
    congr 1
    by_cases hab : b = a
    · simp [hab]
    · have hzero : (f b).count x = 0 :=
        List.count_eq_zero.mpr fun hx => hab (h b List.mem_cons_self hx)
      simp [hab, hzero]

/-- A usable candidate is tried as often as the store holds it. -/
theorem count_issuersByKeyId {store : CertificateStore} {partialChain : List Certificate}
    {tip c : Certificate} (htip : partialChain.getLast? = some tip)
    (hkey : tip.issuerKey = c.subjectKey) (husable : usable v partialChain c = true) :
    (issuersByKeyId v store partialChain).count c = store.multiplicity c := by
  rw [← filter_candidates, List.count_filter husable, candidates, htip]
  show (List.insertionSort _ _).count c = _
  rw [(List.perm_insertionSort _ _).count_eq, hkey, CertificateStore.multiplicity]

theorem length_of_mem_enumerate {partialChain : List Certificate}
    {chain : UnverifiedCertificateChain} (h : chain ∈ enumerate v intermediates partialChain) :
    partialChain.length < chain.certificates.length := by
  refine (completionTree v intermediates).forall_mem_preorder
    (P := fun p => partialChain.length ≤ p.length)
    (Q := fun chain => partialChain.length < chain.certificates.length) ?_ ?_ (le_refl _) chain h
  · intro p hp next hnext
    obtain ⟨c, _, rfl⟩ := List.mem_map.mp hnext
    rw [List.length_append]
    exact Nat.le_add_right_of_le hp
  · intro p hp chain hchain
    obtain ⟨c, _, rfl⟩ := List.mem_map.mp hchain
    show partialChain.length < (p ++ [c]).length
    rw [List.length_append]
    exact Nat.lt_succ_of_le hp

/-- The next certificate of a linked path may follow the part before it. -/
theorem LinkedPath.usable {partialChain rest : List Certificate} {c : Certificate}
    (hne : partialChain ≠ []) (h : LinkedPath v (partialChain ++ c :: rest)) :
    usable v partialChain c = true := by
  have hc : c ∈ CertificateStore.fromIter [c] :=
    CertificateStore.mem_fromIter.mpr (List.mem_singleton_self c)
  exact (X509Validator.mem_issuersByKeyId.mp (h.mem_issuersByKeyId hne hc)).2

theorem LinkedPath.count_issuersByKeyId {partialChain rest : List Certificate} {c : Certificate}
    (hne : partialChain ≠ []) (h : LinkedPath v (partialChain ++ c :: rest))
    (store : CertificateStore) :
    (issuersByKeyId v store partialChain).count c = store.multiplicity c := by
  have htip := List.getLast?_eq_some_getLast hne
  obtain ⟨hkey, _⟩ := (List.isChain_append.mp h.issued).2.2 _ htip c rfl
  exact X509Validator.count_issuersByKeyId htip hkey (h.usable hne)

theorem complete_injective (partialChain : List Certificate) :
    Function.Injective (complete partialChain) := by
  intro c c' h
  have hcerts : partialChain ++ [c] = partialChain ++ [c'] :=
    congrArg UnverifiedCertificateChain.certificates h
  simpa using hcerts

/-- From any point of a linked path, the chain it leads to is tried as often as
the certificates still ahead can be picked from the stores. -/
theorem count_enumerate_complete {partialChain middle : List Certificate} {root : Certificate}
    (hne : partialChain ≠ []) (h : LinkedPath v (partialChain ++ middle ++ [root])) :
    (enumerate v intermediates partialChain).count (complete (partialChain ++ middle) root) =
      (middle.map intermediates.multiplicity).prod * v.rootCertificates.multiplicity root := by
  induction middle generalizing partialChain with
  | nil =>
    rw [List.append_nil] at h ⊢
    have hbelow : complete partialChain root ∉ (issuersByKeyId v intermediates partialChain).flatMap
        fun c => enumerate v intermediates (partialChain ++ [c]) := by
      intro hmem
      obtain ⟨c, _, hc⟩ := List.mem_flatMap.mp hmem
      have hlength := length_of_mem_enumerate hc
      simp [complete] at hlength
    rw [enumerate_eq, List.count_append, List.count_eq_zero.mpr hbelow,
      List.count_map_of_injective _ _ (complete_injective partialChain),
      h.count_issuersByKeyId hne, List.map_nil, List.prod_nil, Nat.add_zero, Nat.one_mul]
  | cons c middle ih =>
    have hdirect : complete (partialChain ++ c :: middle) root ∉
        (issuersByKeyId v v.rootCertificates partialChain).map (complete partialChain) := by
      intro hmem
      obtain ⟨c', _, hc'⟩ := List.mem_map.mp hmem
      have hlength := congrArg UnverifiedCertificateChain.len hc'
      simp [complete, UnverifiedCertificateChain.len] at hlength
    have hnext : LinkedPath v (partialChain ++ c :: (middle ++ [root])) := by
      rwa [List.append_assoc, List.cons_append] at h
    have hunique : ∀ b ∈ issuersByKeyId v intermediates partialChain,
        complete (partialChain ++ c :: middle) root ∈
          enumerate v intermediates (partialChain ++ [b]) → b = c := by
      intro b _ hb
      have hcontinues := prefix_of_mem_enumerate hb
      simpa [complete, List.cons_prefix_cons] using hcontinues
    rw [enumerate_eq, List.count_append, List.count_eq_zero.mpr hdirect, Nat.zero_add,
      count_flatMap_of_unique hunique, hnext.count_issuersByKeyId hne, List.map_cons,
      List.prod_cons, Nat.mul_assoc]
    congr 1
    rw [List.append_cons partialChain c middle] at h ⊢
    exact ih (by simp) h

theorem count_enumerateFrom_direct :
    (enumerateFrom v leaf intermediates).count ⟨[leaf], List.cons_ne_nil leaf []⟩ =
      if leaf ∈ v.rootCertificates then 1 else 0 := by
  have hbelow : ⟨[leaf], List.cons_ne_nil leaf []⟩ ∉ enumerate v intermediates [leaf] :=
    fun hmem => absurd (length_of_mem_enumerate hmem) (lt_irrefl _)
  rw [enumerateFrom, List.count_append, List.count_eq_zero.mpr hbelow, Nat.add_zero]
  split
  · exact List.count_singleton_self
  · exact List.count_nil

theorem count_enumerateFrom_through {middle : List Certificate} {root : Certificate}
    (intermediates : CertificateStore) (h : LinkedPath v (leaf :: middle ++ [root])) :
    (enumerateFrom v leaf intermediates).count (complete (leaf :: middle) root) =
      (middle.map intermediates.multiplicity).prod * v.rootCertificates.multiplicity root := by
  have hdirect : complete (leaf :: middle) root ≠ ⟨[leaf], List.cons_ne_nil leaf []⟩ := by
    intro heq
    have hlength := congrArg UnverifiedCertificateChain.len heq
    simp [complete, UnverifiedCertificateChain.len] at hlength
  have hhead : ∀ b : Prop, [Decidable b] →
      (if b then [⟨[leaf], List.cons_ne_nil leaf []⟩] else []).count
        (complete (leaf :: middle) root) = 0 := by
    intro b _
    rw [List.count_eq_zero]
    split
    · exact fun hmem => hdirect (List.mem_singleton.mp hmem)
    · exact List.not_mem_nil
  have hpath : LinkedPath v ([leaf] ++ middle ++ [root]) := h
  rw [enumerateFrom, List.count_append, hhead, Nat.zero_add]
  exact count_enumerate_complete (List.cons_ne_nil leaf []) hpath

/-! ## Stores with the same contents -/

section

variable {rootCertificates intermediates' : CertificateStore}
  (hroots : ∀ c, v.rootCertificates.multiplicity c = rootCertificates.multiplicity c)
  (hintermediates : ∀ c, intermediates.multiplicity c = intermediates'.multiplicity c)

include hroots hintermediates

theorem looser_of_multiplicity_eq (leaf : Certificate) :
    Looser v { v with rootCertificates } leaf intermediates intermediates' ∧
      Looser { v with rootCertificates } v leaf intermediates' intermediates := by
  have hmem : ∀ {store store' : CertificateStore},
      (∀ c, store.multiplicity c = store'.multiplicity c) → ∀ c, c ∈ store ↔ c ∈ store' := by
    intro store store' heq c
    rw [← CertificateStore.multiplicity_pos, heq, CertificateStore.multiplicity_pos]
  exact ⟨⟨fun c => (hmem hroots c).mp, fun c => (hmem hintermediates c).mp, fun _ _ _ h => h,
      fun _ h => h, fun _ h => h⟩,
    ⟨fun c => (hmem hroots c).mpr, fun c => (hmem hintermediates c).mpr, fun _ _ _ h => h,
      fun _ h => h, fun _ h => h⟩⟩

theorem enumerateFrom_perm (hleaf : hasUnhandledCriticalExtensions leaf v.policy = false) :
    (enumerateFrom v leaf intermediates).Perm
      (enumerateFrom { v with rootCertificates } leaf intermediates') := by
  obtain ⟨hlooser, hlooser'⟩ := looser_of_multiplicity_eq hroots hintermediates leaf
  rw [List.perm_iff_count]
  intro chain
  by_cases hmem : chain ∈ enumerateFrom v leaf intermediates
  · obtain ⟨hanchored, hlinked⟩ := anchored_of_mem_enumerateFrom hleaf hmem
    obtain ⟨certs, hne⟩ := chain
    cases hanchored with
    | direct hroot =>
      rw [count_enumerateFrom_direct, count_enumerateFrom_direct, if_pos hroot,
        if_pos (hlooser.roots leaf hroot)]
    | through middle root hmiddle hroot =>
      have hcount := count_enumerateFrom_through intermediates hlinked
      have hcount' := count_enumerateFrom_through intermediates'
        (hlooser.linkedPath (.through middle root hmiddle hroot) hlinked)
      rw [funext hintermediates, hroots] at hcount
      exact hcount.trans hcount'.symm
  · have hmem' : chain ∉ enumerateFrom { v with rootCertificates } leaf intermediates' :=
      fun h => hmem (hlooser'.mem_enumerateFrom (v := { v with rootCertificates }) hleaf h)
    rw [List.count_eq_zero.mpr hmem, List.count_eq_zero.mpr hmem']

theorem exists_perm_of_validate_eq_error {failures : List PolicyFailure}
    (h : v.validate leaf intermediates = .error failures) :
    ∃ failures', Validator.validate { v with rootCertificates } leaf intermediates' =
      .error failures' ∧ failures.Perm failures' := by
  cases hleaf : hasUnhandledCriticalExtensions leaf v.policy with
  | true =>
    have hrun : Run v leaf intermediates _ _ _ := .unhandled hleaf
    have hrun' : Run { v with rootCertificates } leaf intermediates' _ _ _ := .unhandled hleaf
    rw [hrun.observed.1] at h
    cases h
    exact ⟨_, hrun'.observed.1, List.Perm.refl _⟩
  | false =>
    have hperm := enumerateFrom_perm hroots hintermediates hleaf
    obtain ⟨hall, rfl⟩ := all_rejected_of_validate_eq_error hleaf h
    have hall' : ∀ chain ∈ enumerateFrom { v with rootCertificates } leaf intermediates',
        ¬ v.policy.Accepts chain := fun chain hchain => hall chain (hperm.mem_iff.mpr hchain)
    exact ⟨_, validate_of_all_rejected (v := { v with rootCertificates }) hleaf hall',
      hperm.filterMap _⟩

end

/-! ## 1. The order of the stores -/

/-- If a run fails, it fails for every order in which the stores were filled, with
the same failures in some order: the same chains, each as often and each with the
same reason. -/
theorem failures_permute (v : Validator) (leaf : Certificate)
    (roots roots' certs certs' : List Certificate) (hroots : roots.Perm roots')
    (hcerts : certs.Perm certs') (failures : List PolicyFailure)
    (h : Validator.validate { v with rootCertificates := .fromIter roots } leaf (.fromIter certs) =
      .error failures) :
    ∃ failures', Validator.validate { v with rootCertificates := .fromIter roots' } leaf
      (.fromIter certs') = .error failures' ∧ failures.Perm failures' := by
  refine exists_perm_of_validate_eq_error (v := { v with rootCertificates := .fromIter roots })
    ?_ ?_ h
  · intro c
    rw [CertificateStore.multiplicity_fromIter, CertificateStore.multiplicity_fromIter,
      hroots.count_eq]
  · intro c
    rw [CertificateStore.multiplicity_fromIter, CertificateStore.multiplicity_fromIter,
      hcerts.count_eq]

/-- The stores of the small PKI filled in reverse. -/
theorem failures_permute_reversed :
    ∃ failures', Validator.validate { SamplePki.validator with
        rootCertificates := .fromIter [SamplePki.root] } SamplePki.endEntity
        (.fromIter [SamplePki.ca1, SamplePki.ca1Cross, SamplePki.ca1Cross]) = .error failures' ∧
      [⟨SamplePki.shortChain, ⟨"chain is too short"⟩⟩,
        ⟨SamplePki.shortChain, ⟨"chain is too short"⟩⟩].Perm failures' :=
  failures_permute SamplePki.validator SamplePki.endEntity [SamplePki.root] [SamplePki.root]
    [SamplePki.ca1Cross, SamplePki.ca1, SamplePki.ca1Cross]
    [SamplePki.ca1, SamplePki.ca1Cross, SamplePki.ca1Cross] (List.Perm.refl _)
    (List.Perm.swap _ _ _) _ (by decide +kernel)

/-! ## 2. Repeated chains -/

theorem prod_le_one {l : List Nat} (h : ∀ n ∈ l, n ≤ 1) : l.prod ≤ 1 := by
  induction l with
  | nil => exact le_refl 1
  | cons n l ih =>
    rw [List.prod_cons]
    exact Nat.mul_le_mul (h n List.mem_cons_self) (ih fun m hm => h m (List.mem_cons_of_mem n hm))

theorem nodup_enumerateFrom (hleaf : hasUnhandledCriticalExtensions leaf v.policy = false)
    (hroots : ∀ c, v.rootCertificates.multiplicity c ≤ 1)
    (hintermediates : ∀ c, intermediates.multiplicity c ≤ 1) :
    (enumerateFrom v leaf intermediates).Nodup := by
  rw [List.nodup_iff_count_le_one]
  intro chain
  by_cases hmem : chain ∈ enumerateFrom v leaf intermediates
  · obtain ⟨hanchored, hlinked⟩ := anchored_of_mem_enumerateFrom hleaf hmem
    obtain ⟨certs, hne⟩ := chain
    cases hanchored with
    | direct hroot => rw [count_enumerateFrom_direct, if_pos hroot]
    | through middle root _ _ =>
      refine (count_enumerateFrom_through intermediates hlinked).trans_le ?_
      refine Nat.mul_le_mul (prod_le_one ?_) (hroots root)
      rw [List.forall_mem_map]
      exact fun c _ => hintermediates c
  · rw [List.count_eq_zero.mpr hmem]
    exact Nat.zero_le 1

/-- The chains handed to the policy are the first ones of the enumeration. -/
theorem handedToPolicy_prefix :
    v.handedToPolicy leaf intermediates <+: enumerateFrom v leaf intermediates := by
  obtain ⟨result, evaluated, events, hrun⟩ := exists_run v leaf intermediates
  rw [hrun.observed.2.1, ← chainsOf_plan]
  cases hrun with
  | unhandled _ => exact List.nil_prefix
  | accepted pre chain post _ hplan _ _ =>
    rw [hplan, chainsOf_append]
    exact ⟨chainsOf post, List.append_assoc _ _ _⟩
  | exhausted _ _ => exact List.prefix_rfl

/-- Where the critical extensions of the leaf are handled, a failing run reports a path
from the leaf to another certificate of the root store as often as its certificates
can be picked from the stores. The leaf alone is reported once if it is a root,
however often the store holds it. Where each store holds a certificate at most once,
no chain is handed to the policy twice, in any run. -/
theorem chains_tried_with_multiplicity (v : Validator) (leaf : Certificate)
    (intermediates : CertificateStore) :
    (∀ failures, hasUnhandledCriticalExtensions leaf v.policy = false →
      v.validate leaf intermediates = .error failures →
      ∀ middle root, LinkedPath v (leaf :: middle ++ [root]) →
        (failures.map PolicyFailure.chain).count (complete (leaf :: middle) root) =
          (middle.map intermediates.multiplicity).prod *
            v.rootCertificates.multiplicity root) ∧
    (∀ failures, hasUnhandledCriticalExtensions leaf v.policy = false →
      v.validate leaf intermediates = .error failures →
      (failures.map PolicyFailure.chain).count ⟨[leaf], List.cons_ne_nil leaf []⟩ =
        if leaf ∈ v.rootCertificates then 1 else 0) ∧
    ((∀ c, v.rootCertificates.multiplicity c ≤ 1) → (∀ c, intermediates.multiplicity c ≤ 1) →
      (v.handedToPolicy leaf intermediates).Nodup) := by
  refine ⟨?_, ?_, ?_⟩
  · intro failures hleaf hfailures middle root hlinked
    rw [map_chain_of_validate_eq_error hleaf hfailures]
    exact count_enumerateFrom_through intermediates hlinked
  · intro failures hleaf hfailures
    rw [map_chain_of_validate_eq_error hleaf hfailures]
    exact count_enumerateFrom_direct
  · intro hroots hintermediates
    cases hleaf : hasUnhandledCriticalExtensions leaf v.policy with
    | true =>
      rw [(Run.unhandled hleaf).observed.2.1]
      exact List.nodup_nil
    | false =>
      exact (nodup_enumerateFrom hleaf hroots hintermediates).sublist
        handedToPolicy_prefix.sublist

/-- An authority that is held twice gives its chain twice. -/
theorem chains_tried_with_multiplicity_repeated :
    ([SamplePki.shortChain, SamplePki.shortChain] : List UnverifiedCertificateChain).count
        SamplePki.shortChain =
      ([SamplePki.ca1Cross].map (CertificateStore.fromIter
        [SamplePki.ca1Cross, SamplePki.ca1, SamplePki.ca1Cross]).multiplicity).prod *
        SamplePki.validator.rootCertificates.multiplicity SamplePki.root :=
  (chains_tried_with_multiplicity SamplePki.validator SamplePki.endEntity
    (.fromIter [SamplePki.ca1Cross, SamplePki.ca1, SamplePki.ca1Cross])).1
    [⟨SamplePki.shortChain, ⟨"chain is too short"⟩⟩,
      ⟨SamplePki.shortChain, ⟨"chain is too short"⟩⟩] (by decide +kernel) (by decide +kernel)
    [SamplePki.ca1Cross] SamplePki.root
    ⟨by decide +kernel, by decide +kernel, by decide +kernel⟩

end X509Validator
