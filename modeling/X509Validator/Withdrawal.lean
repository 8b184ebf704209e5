import X509Validator.Simulation

/-!
# Withdrawing certificates

What a run does after an operator has stopped trusting some of the roots and has
withdrawn some of the intermediate certificates. The chains that remain are those
that end at a root that is still trusted and pass through certificates that are
still there. Ranking is stable and a candidate is skipped on account of the partial
chain alone, so withdrawing leaves out the other chains and neither adds a chain nor
changes the order of those that remain.

Results:
1. `withdrawn_certificates`: a failing run fails again, for the chains that remain;
   any run tries again the remaining ones of the chains it has tried, before it tries
   any other; and trust in the roots is additive.
-/

namespace X509Validator

open StackSearch

variable {v : Validator} {leaf : Certificate} {roots certs : List Certificate}
  {trusted kept : Certificate → Bool}

/-- The validator with other roots. -/
def Validator.withRoots (v : Validator) (roots : List Certificate) : Validator :=
  { v with rootCertificates := .fromIter roots }

/-- A chain remains where the root is still trusted and what is between the leaf
and the root is still kept. Nothing is said about the leaf, which is not taken
from a store, unless it is the root itself. -/
def Remains (trusted kept : Certificate → Bool) (chain : UnverifiedCertificateChain) : Bool :=
  trusted (chain.certificates.getLast chain.nonempty) &&
    chain.certificates.tail.dropLast.all kept

theorem remains_singleton (h : [leaf] ≠ []) : Remains trusted kept ⟨[leaf], h⟩ = trusted leaf :=
  Bool.and_true _

theorem remains_complete {partialChain : List Certificate} (hne : partialChain ≠ [])
    (root : Certificate) :
    Remains trusted kept (complete partialChain root) =
      (trusted root && partialChain.tail.all kept) := by
  show (trusted ((partialChain ++ [root]).getLast _) &&
    (partialChain ++ [root]).tail.dropLast.all kept) = _
  rw [List.getLast_concat, List.tail_append_of_ne_nil hne, List.dropLast_concat]

/-! ## The chains that remain -/

theorem issuersByKeyId_filter (v : Validator) (certs : List Certificate)
    (q : Certificate → Bool) (partialChain : List Certificate) :
    issuersByKeyId v (.fromIter (certs.filter q)) partialChain =
      (issuersByKeyId v (.fromIter certs) partialChain).filter q := by
  unfold issuersByKeyId
  split
  · rfl
  · next tip _ =>
    rw [CertificateStore.findBySubject_fromIter, CertificateStore.findBySubject_fromIter,
      filter_byKeyId]
    simp only [List.filter_filter, Bool.and_comm, Bool.and_left_comm]

/-- Below a partial chain that passes through a withdrawn certificate no chain
remains. -/
theorem filter_remains_enumerate_eq_nil {partialChain : List Certificate}
    (store : CertificateStore) (h : partialChain.tail.all kept = false) :
    (enumerate v store partialChain).filter (Remains trusted kept) = [] := by
  rw [List.filter_eq_nil_iff]
  intro chain hchain hremains
  have hne : partialChain ≠ [] := by
    rintro rfl
    cases h
  have hforall := (completionTree v store).forall_mem_preorder
    (P := fun p => p ≠ [] ∧ p.tail.all kept = false)
    (Q := fun chain => Remains trusted kept chain = false) ?_ ?_ ⟨hne, h⟩ chain hchain
  · rw [hforall] at hremains
    cases hremains
  · rintro p ⟨hne, hp⟩ next hnext
    obtain ⟨c, _, rfl⟩ := List.mem_map.mp hnext
    refine ⟨by simp, ?_⟩
    rw [List.tail_append_of_ne_nil hne, List.all_append, hp, Bool.false_and]
  · rintro p ⟨hne, hp⟩ chain hchain
    obtain ⟨c, _, rfl⟩ := List.mem_map.mp hchain
    rw [remains_complete hne, hp, Bool.and_false]

theorem filter_remains_enumerate (v : Validator) (roots certs : List Certificate)
    (trusted kept : Certificate → Bool) {partialChain : List Certificate} :
    (enumerate (v.withRoots (roots.filter trusted)) (.fromIter (certs.filter kept))
        partialChain).filter (Remains trusted kept) =
      (enumerate (v.withRoots roots) (.fromIter certs) partialChain).filter
        (Remains trusted kept) := by
  refine SearchTree.preorder_filter_eq (k := fun p => p.tail.all kept) (fun p => ?_) (fun p => ?_)
    (fun p => filter_remains_enumerate_eq_nil _) (fun p => filter_remains_enumerate_eq_nil _)
    partialChain
  · show ((issuersByKeyId (v.withRoots roots) (.fromIter (roots.filter trusted)) p).map
        _).filter _ =
      ((issuersByKeyId (v.withRoots roots) (.fromIter roots) p).map _).filter _
    rw [issuersByKeyId_filter, List.filter_map, List.filter_map, List.filter_filter]
    by_cases hne : p = []
    · rw [hne]
      rfl
    · refine congrArg (List.map _) (List.filter_congr fun c _ => ?_)
      show (Remains trusted kept (complete p c) && trusted c) =
        Remains trusted kept (complete p c)
      rw [remains_complete hne, Bool.and_right_comm, Bool.and_self]
  · show ((issuersByKeyId (v.withRoots roots) (.fromIter (certs.filter kept)) p).map _).filter _ =
      ((issuersByKeyId (v.withRoots roots) (.fromIter certs) p).map _).filter _
    rw [issuersByKeyId_filter, List.filter_map, List.filter_map, List.filter_filter]
    by_cases hne : p = []
    · rw [hne]
      rfl
    · refine congrArg (List.map _) (List.filter_congr fun c _ => ?_)
      show ((p ++ [c]).tail.all kept && kept c) = (p ++ [c]).tail.all kept
      have hlast : [c].all kept = kept c := Bool.and_true _
      rw [List.tail_append_of_ne_nil hne, List.all_append, hlast, Bool.and_assoc, Bool.and_self]

theorem remains_of_anchored {chain : UnverifiedCertificateChain}
    (h : Anchored (v.withRoots (roots.filter trusted)) leaf (.fromIter (certs.filter kept))
      chain.certificates) : Remains trusted kept chain = true := by
  obtain ⟨certificates, hne⟩ := chain
  cases h with
  | direct hroot =>
    rw [remains_singleton]
    exact (List.mem_filter.mp (CertificateStore.mem_fromIter.mp hroot)).2
  | through middle root hmiddle hroot =>
    refine (remains_complete (List.cons_ne_nil leaf middle) root).trans ?_
    rw [Bool.and_eq_true, List.all_eq_true]
    exact ⟨(List.mem_filter.mp (CertificateStore.mem_fromIter.mp hroot)).2, fun c hc =>
      (List.mem_filter.mp (CertificateStore.mem_fromIter.mp (hmiddle c hc))).2⟩

/-- Withdrawing leaves out of the enumeration what does not remain. -/
theorem enumerateFrom_filter (hleaf : hasUnhandledCriticalExtensions leaf v.policy = false)
    (roots certs : List Certificate) (trusted kept : Certificate → Bool) :
    enumerateFrom (v.withRoots (roots.filter trusted)) leaf (.fromIter (certs.filter kept)) =
      (enumerateFrom (v.withRoots roots) leaf (.fromIter certs)).filter
        (Remains trusted kept) := by
  have hself : (enumerateFrom (v.withRoots (roots.filter trusted)) leaf
      (.fromIter (certs.filter kept))).filter (Remains trusted kept) = _ :=
    List.filter_eq_self.mpr fun chain hchain =>
      remains_of_anchored (anchored_of_mem_enumerateFrom (v := v.withRoots _) hleaf hchain).1
  rw [← hself, enumerateFrom, enumerateFrom, List.filter_append, List.filter_append,
    filter_remains_enumerate]
  congr 1
  have hdirect : leaf ∈ (v.withRoots (roots.filter trusted)).rootCertificates ↔
      leaf ∈ (v.withRoots roots).rootCertificates ∧ trusted leaf = true := by
    show leaf ∈ CertificateStore.fromIter _ ↔ leaf ∈ CertificateStore.fromIter _ ∧ _
    rw [CertificateStore.mem_fromIter, CertificateStore.mem_fromIter, List.mem_filter]
  cases htrusted : trusted leaf with
  | true =>
    simp only [hdirect, htrusted, and_true]
  | false =>
    have hnot : leaf ∉ (v.withRoots (roots.filter trusted)).rootCertificates := by
      rw [hdirect, htrusted]
      exact fun h => Bool.false_ne_true h.2
    rw [if_neg hnot]
    split
    · rw [List.filter_cons_of_neg (by rw [remains_singleton, htrusted]; simp)]
    · rfl

/-! ## The chains that are tried -/

/-- The elements up to the first one that satisfies `q`, that one included. -/
def throughFirst {α : Type*} (q : α → Bool) : List α → List α
  | [] => []
  | a :: l => a :: if q a then [] else throughFirst q l

theorem throughFirst_append_cons {α : Type*} {q : α → Bool} {pre post : List α} {a : α}
    (hpre : ∀ b ∈ pre, q b = false) (ha : q a = true) :
    throughFirst q (pre ++ a :: post) = pre ++ [a] := by
  induction pre with
  | nil => rw [List.nil_append, throughFirst, if_pos ha, List.nil_append]
  | cons b pre ih =>
    rw [List.cons_append, throughFirst, if_neg (by simp [hpre b List.mem_cons_self]),
      ih fun c hc => hpre c (List.mem_cons_of_mem b hc), List.cons_append]

theorem throughFirst_eq_self {α : Type*} {q : α → Bool} {l : List α}
    (h : ∀ a ∈ l, q a = false) : throughFirst q l = l := by
  induction l with
  | nil => rfl
  | cons a l ih =>
    rw [throughFirst, if_neg (by simp [h a List.mem_cons_self]),
      ih fun b hb => h b (List.mem_cons_of_mem a hb)]

/-- Selecting first can only bring in more elements after the selected ones. -/
theorem filter_throughFirst_prefix {α : Type*} (q p : α → Bool) (l : List α) :
    (throughFirst q l).filter p <+: throughFirst q (l.filter p) := by
  induction l with
  | nil => exact List.nil_prefix
  | cons a l ih =>
    cases hp : p a with
    | true =>
      rw [throughFirst, List.filter_cons_of_pos hp, List.filter_cons_of_pos hp, throughFirst,
        List.cons_prefix_cons]
      refine ⟨rfl, ?_⟩
      split
      · exact List.prefix_rfl
      · exact ih
    | false =>
      rw [throughFirst, List.filter_cons_of_neg (by simp [hp]),
        List.filter_cons_of_neg (by simp [hp])]
      split
      · exact List.nil_prefix
      · exact ih

theorem handedToPolicy_eq {intermediates : CertificateStore}
    (hleaf : hasUnhandledCriticalExtensions leaf v.policy = false) :
    v.handedToPolicy leaf intermediates =
      throughFirst (fun chain => v.policy.Accepts chain) (enumerateFrom v leaf intermediates) := by
  obtain ⟨result, evaluated, events, hrun⟩ := exists_run v leaf intermediates
  rw [hrun.observed.2.1, ← chainsOf_plan]
  cases hrun with
  | unhandled h =>
    rw [hleaf] at h
    cases h
  | accepted pre chain post _ hplan hpre hchain =>
    rw [hplan, chainsOf_append]
    exact (throughFirst_append_cons (fun b hb => by simpa using hpre b hb)
      (by simpa using hchain)).symm
  | exhausted _ hall => exact (throughFirst_eq_self fun b hb => by simpa using hall b hb).symm

/-! ## Failing and succeeding runs -/

theorem failuresOf_filter (policy : ValidationPolicy) (q : UnverifiedCertificateChain → Bool)
    (chains : List UnverifiedCertificateChain) :
    failuresOf policy (chains.filter q) =
      (failuresOf policy chains).filter fun failure => q failure.chain := by
  unfold failuresOf
  rw [List.filterMap_filter, List.filter_filterMap]
  refine List.filterMap_congr fun chain _ => ?_
  cases policy.chainMeetsPolicyRequirements chain with
  | ok _ => cases q chain <;> rfl
  | error reason => cases hq : q chain <;> simp [Option.filter, hq]

theorem validate_withdrawn_eq_error
    (hleaf : hasUnhandledCriticalExtensions leaf v.policy = false) {failures : List PolicyFailure}
    (h : (v.withRoots roots).validate leaf (.fromIter certs) = .error failures) :
    (v.withRoots (roots.filter trusted)).validate leaf (.fromIter (certs.filter kept)) =
      .error (failures.filter fun failure => Remains trusted kept failure.chain) := by
  obtain ⟨hall, rfl⟩ := all_rejected_of_validate_eq_error (v := v.withRoots _) hleaf h
  have hfilter := enumerateFrom_filter hleaf roots certs trusted kept
  have hall' : ∀ chain ∈ enumerateFrom (v.withRoots (roots.filter trusted)) leaf
      (.fromIter (certs.filter kept)), ¬ v.policy.Accepts chain := by
    rw [hfilter]
    exact fun chain hchain => hall chain (List.mem_of_mem_filter hchain)
  rw [validate_of_all_rejected (v := v.withRoots _) hleaf hall', hfilter, ← failuresOf_filter]
  rfl

theorem exists_ok_iff {intermediates : CertificateStore} :
    (∃ chain, v.validate leaf intermediates = .ok chain) ↔
      hasUnhandledCriticalExtensions leaf v.policy = false ∧
        ∃ chain ∈ enumerateFrom v leaf intermediates, v.policy.Accepts chain := by
  constructor
  · rintro ⟨chain, h⟩
    obtain ⟨hanchored, hlinked, haccepts⟩ := anchored_of_validate_eq_ok h
    exact ⟨handled_of_validate_eq_ok h, ⟨chain.certificates, chain.nonempty⟩,
      mem_enumerateFrom_of_anchored hanchored hlinked, haccepts⟩
  · rintro ⟨hleaf, chain, hchain, haccepts⟩
    obtain ⟨hanchored, hlinked⟩ := anchored_of_mem_enumerateFrom hleaf hchain
    exact validate_ok_of_anchored chain hanchored hlinked haccepts

/-- A leaf is accepted with the roots that a test selects if it is accepted
through one of them. -/
theorem exists_ok_trusted_iff (roots certs : List Certificate) (trusted : Certificate → Bool) :
    (∃ chain, (v.withRoots (roots.filter trusted)).validate leaf (.fromIter certs) = .ok chain) ↔
      hasUnhandledCriticalExtensions leaf v.policy = false ∧
        ∃ chain ∈ enumerateFrom (v.withRoots roots) leaf (.fromIter certs),
          trusted (chain.certificates.getLast chain.nonempty) = true ∧ v.policy.Accepts chain := by
  rw [exists_ok_iff]
  refine and_congr_right fun hleaf => exists_congr fun chain => ?_
  have hfilter := enumerateFrom_filter (v := v) hleaf roots certs trusted fun _ => true
  have hremains : Remains trusted (fun _ => true) chain =
      trusted (chain.certificates.getLast chain.nonempty) := by
    rw [Remains, List.all_eq_true.mpr fun _ _ => rfl, Bool.and_true]
  rw [List.filter_true] at hfilter
  rw [hfilter, List.mem_filter, hremains, and_assoc]
  rfl

/-! ## 1. The effect of withdrawing certificates -/

/-- Where the critical extensions of the leaf are handled, a failing run fails again
after certificates have been withdrawn, and reports exactly the failures whose
chains remain, in the same order. A run of any kind tries again the remaining ones
of the chains it has tried, in the same order, before it tries another one. And a
leaf is accepted if and only if it is accepted with one part of the roots or with
the other. -/
theorem withdrawn_certificates (v : Validator) (leaf : Certificate)
    (roots certs : List Certificate) (trusted kept : Certificate → Bool) :
    (hasUnhandledCriticalExtensions leaf v.policy = false → ∀ failures,
      (v.withRoots roots).validate leaf (.fromIter certs) = .error failures →
      (v.withRoots (roots.filter trusted)).validate leaf (.fromIter (certs.filter kept)) =
        .error (failures.filter fun failure => Remains trusted kept failure.chain)) ∧
    (((v.withRoots roots).handedToPolicy leaf (.fromIter certs)).filter (Remains trusted kept) <+:
      (v.withRoots (roots.filter trusted)).handedToPolicy leaf (.fromIter (certs.filter kept))) ∧
    ((∃ chain, (v.withRoots roots).validate leaf (.fromIter certs) = .ok chain) ↔
      (∃ chain, (v.withRoots (roots.filter trusted)).validate leaf (.fromIter certs) =
        .ok chain) ∨
      ∃ chain, (v.withRoots (roots.filter fun c => !trusted c)).validate leaf (.fromIter certs) =
        .ok chain) := by
  refine ⟨fun hleaf failures h => validate_withdrawn_eq_error hleaf h, ?_, ?_⟩
  · cases hleaf : hasUnhandledCriticalExtensions leaf v.policy with
    | true =>
      have hrun : Run (v.withRoots roots) leaf (.fromIter certs) _ _ _ := .unhandled hleaf
      rw [hrun.observed.2.1]
      exact List.nil_prefix
    | false =>
      rw [handedToPolicy_eq (v := v.withRoots _) hleaf,
        handedToPolicy_eq (v := v.withRoots _) hleaf, enumerateFrom_filter hleaf]
      exact filter_throughFirst_prefix _ _ _
  · rw [exists_ok_iff, exists_ok_trusted_iff, exists_ok_trusted_iff, ← and_or_left]
    refine and_congr_right fun _ => ?_
    rw [← exists_or]
    refine exists_congr fun chain => ?_
    rw [← and_or_left]
    refine and_congr_right fun _ => ?_
    show v.policy.Accepts chain ↔ _
    cases trusted (chain.certificates.getLast chain.nonempty) with
    | true => simp
    | false => simp

namespace SamplePki

/-- Another certificate for the key of the root. -/
def renewedRoot : Certificate := { root with notAfter := 200 }

def renewedChain : UnverifiedCertificateChain := ⟨[endEntity, ca1Cross, renewedRoot], by simp⟩

end SamplePki

/-- Both roots end a chain that is too short, and one of them is distrusted. -/
theorem withdrawn_certificates_renewed :
    (SamplePki.validator.withRoots ([SamplePki.root, SamplePki.renewedRoot].filter
        (· == SamplePki.renewedRoot))).validate SamplePki.endEntity
          (.fromIter ([SamplePki.ca1Cross].filter fun _ => true)) =
      .error ([⟨SamplePki.shortChain, ⟨"chain is too short"⟩⟩,
        ⟨SamplePki.renewedChain, ⟨"chain is too short"⟩⟩].filter fun failure =>
          Remains (· == SamplePki.renewedRoot) (fun _ => true) failure.chain) :=
  (withdrawn_certificates SamplePki.validator SamplePki.endEntity
    [SamplePki.root, SamplePki.renewedRoot] [SamplePki.ca1Cross] (· == SamplePki.renewedRoot)
    fun _ => true).1 (by decide +kernel) _ (by decide +kernel)

end X509Validator
