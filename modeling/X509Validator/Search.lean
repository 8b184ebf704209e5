import X509Validator.Validator
import X509Validator.Lib.StackSearch
import X509Validator.Lib.RankSort

/-!
# The search loop and what it computes

A partial chain is a node of a search tree. Its children are the partial chain
extended by each intermediate candidate that is not skipped, best candidate
first; visiting it emits diagnostics and hands the chains completed by its root
candidates to the policy. A child uses up the identity of a certificate of the
intermediate store, so the tree is finite, and the loop, which is defined here
by recursion on the number of nodes still below the stack, terminates.

`validateInner_eq` says that a whole run is one pass over the preorder of this
tree, and `pass_all_rejected` and `pass_first_accepted` say how such a pass
ends. `Run` lists the runs that there are, and `validate_run` says that
`validate` takes one of them, whatever the callback. All results about the
search come from these.
-/

namespace X509Validator

open StackSearch

variable {σ : Type}

/-! ## Candidates, without the diagnostics -/

/-- The sorted candidate issuers of a partial chain in a store. -/
def candidates (store : CertificateStore) (partialChain : List Certificate) : List Certificate :=
  match partialChain.getLast? with
  | some tip => sortBySuitabilityForIssuing (store.findBySubject tip.issuerKey) tip
  | none => []

/-- `issuer` is the key that signed `subject`. -/
def signedBy (crypto : SignatureVerifier) (subject issuer : Certificate) : Bool :=
  (crypto.verifySignature subject.signatureAlgorithm issuer.publicKey subject.tbs
    subject.signatureValue.data).isOk

/-- The event with which a candidate is skipped, `none` if it is used. -/
def skipDiagnostic (v : Validator) (partialChain : List Certificate) (candidate : Certificate) :
    Option VerificationDiagnostic :=
  if hasUnhandledCriticalExtensions candidate v.policy then
    some (.issuerHasUnhandledCriticalExtension candidate partialChain
      v.policy.verifyingCriticalExtensions)
  else if partialChain.any fun existing => existing.hasSameIdentityAs candidate then
    some (.issuerIsAlreadyInTheChain partialChain candidate)
  else if partialChain.getLast?.any fun tip => signedBy v.crypto tip candidate then
    none
  else
    some (.issuerHasNotSignedCertificate candidate partialChain)

/-- The candidate is not skipped. -/
def usable (v : Validator) (partialChain : List Certificate) (candidate : Certificate) : Bool :=
  (skipDiagnostic v partialChain candidate).isNone

theorem shouldSkip_eq {v : Validator} {partialChain : List Certificate} (candidate : Certificate)
    (diagnostics : DiagnosticCallback σ) (sink : σ) (hne : partialChain ≠ []) :
    shouldSkipAddingCertificate candidate partialChain v.crypto v.policy diagnostics sink =
      .ok (!usable v partialChain candidate,
        (skipDiagnostic v partialChain candidate).elim sink (diagnose diagnostics sink)) := by
  have htip := List.getLast?_eq_some_getLast hne
  unfold shouldSkipAddingCertificate usable skipDiagnostic
  by_cases hcritical : hasUnhandledCriticalExtensions candidate v.policy = true
  · simp [hcritical]
  by_cases hidentity : (partialChain.any fun c => c.hasSameIdentityAs candidate) = true
  · simp [hcritical, hidentity]
  rw [if_neg hcritical, if_neg hidentity, if_neg hcritical, if_neg hidentity, htip,
    Option.any_some]
  cases hsigned : signedBy v.crypto (partialChain.getLast hne) candidate with
  | true =>
    rw [signedBy] at hsigned
    simp [unwrap, bind, Except.bind, pure, Except.pure, hsigned]
  | false =>
    rw [signedBy] at hsigned
    simp [unwrap, bind, Except.bind, pure, Except.pure, hsigned]

theorem usable_iff {v : Validator} {partialChain : List Certificate} {candidate : Certificate} :
    usable v partialChain candidate = true ↔
      hasUnhandledCriticalExtensions candidate v.policy = false ∧
      (∀ existing ∈ partialChain, existing.identity ≠ candidate.identity) ∧
      ∃ tip, partialChain.getLast? = some tip ∧ signedBy v.crypto tip candidate = true := by
  have hidentity : (partialChain.any fun c => c.hasSameIdentityAs candidate) = false ↔
      ∀ existing ∈ partialChain, existing.identity ≠ candidate.identity := by
    rw [List.any_eq_false]
    exact forall₂_congr fun existing _ => not_congr Certificate.hasSameIdentityAs_iff
  rw [← hidentity, usable, skipDiagnostic, ← Option.any_eq_true]
  cases hasUnhandledCriticalExtensions candidate v.policy with
  | true => simp
  | false =>
    cases partialChain.any fun c => c.hasSameIdentityAs candidate with
    | true => simp
    | false =>
      cases partialChain.getLast?.any fun tip => signedBy v.crypto tip candidate <;> simp

/-! ## The search tree -/

/-- The certificates of a store whose identity is not yet in the partial chain. -/
def unused (store : CertificateStore) (partialChain : List Certificate) : List Certificate :=
  store.certificates.filter fun c =>
    !(partialChain.any fun existing => existing.hasSameIdentityAs c)

theorem unused_snoc (store : CertificateStore) (partialChain : List Certificate)
    (c : Certificate) :
    unused store (partialChain ++ [c]) =
      (unused store partialChain).filter fun c' => !c.hasSameIdentityAs c' := by
  unfold unused
  rw [List.filter_filter]
  refine List.filter_congr fun c' _ => ?_
  simp [Bool.and_comm]

theorem rank_lt_three (subject candidate : Certificate) : rank subject candidate < 3 := by
  unfold rank
  split
  · split <;> omega
  · omega
  · omega

/-- The candidates of a partial chain, sorted by rank class. -/
theorem candidates_eq_byRank {store : CertificateStore} {partialChain : List Certificate}
    {tip : Certificate} (htip : partialChain.getLast? = some tip) :
    candidates store partialChain =
      RankSort.byRank (rank tip) 3 (store.findBySubject tip.issuerKey) := by
  rw [candidates, htip]
  exact RankSort.insertionSort_eq_byRank fun c _ => rank_lt_three tip c

theorem mem_candidates {store : CertificateStore} {partialChain : List Certificate}
    {c : Certificate} :
    c ∈ candidates store partialChain ↔
      c ∈ store ∧ ∃ tip, partialChain.getLast? = some tip ∧ tip.issuerKey = c.subjectKey := by
  cases htip : partialChain.getLast? with
  | none => simp [candidates, htip]
  | some tip =>
    rw [candidates_eq_byRank htip, RankSort.mem_byRank (rank_lt_three tip c),
      CertificateStore.mem_findBySubject_iff]
    simp [eq_comm]

/-- The partial chains that an iteration pushes, top of the stack first. -/
def extensions (v : Validator) (intermediates : CertificateStore)
    (partialChain : List Certificate) : List (List Certificate) :=
  ((candidates intermediates partialChain).filter (usable v partialChain)).map
    fun c => partialChain ++ [c]

theorem mem_extensions {v : Validator} {intermediates : CertificateStore}
    {partialChain next : List Certificate} :
    next ∈ extensions v intermediates partialChain ↔
      ∃ c ∈ candidates intermediates partialChain, usable v partialChain c = true ∧
        next = partialChain ++ [c] := by
  simp only [extensions, List.mem_map, List.mem_filter, and_assoc, eq_comm (a := next)]

/-- An extension uses up the identity of the certificate it adds. -/
theorem unused_extension_lt {v : Validator} {intermediates : CertificateStore}
    {partialChain next : List Certificate}
    (h : next ∈ extensions v intermediates partialChain) :
    (unused intermediates next).length < (unused intermediates partialChain).length := by
  obtain ⟨c, hc, husable, rfl⟩ := mem_extensions.mp h
  rw [unused_snoc, List.length_filter_lt_length_iff_exists]
  refine ⟨c, List.mem_filter.mpr ⟨(mem_candidates.mp hc).1, ?_⟩, ?_⟩
  · rw [Bool.not_eq_true', List.any_eq_false]
    intro existing hexisting
    rw [Certificate.hasSameIdentityAs_iff]
    exact (usable_iff.mp husable).2.1 existing hexisting
  · simp [Certificate.hasSameIdentityAs_iff.mpr rfl]

/-- What the search does one after the other: emit a diagnostic, or hand a chain
to the policy. -/
inductive SearchItem
  | emit (diagnostic : VerificationDiagnostic)
  | evaluate (chain : UnverifiedCertificateChain)

/-- The partial chain completed by a root candidate. -/
def complete (partialChain : List Certificate) (candidate : Certificate) :
    UnverifiedCertificateChain :=
  ⟨partialChain ++ [candidate], by simp⟩

/-- What is done for a root candidate. -/
def rootItem (v : Validator) (partialChain : List Certificate) (candidate : Certificate) :
    SearchItem :=
  match skipDiagnostic v partialChain candidate with
  | some diagnostic => .emit diagnostic
  | none => .evaluate (complete partialChain candidate)

/-- Candidates are announced if there are any. -/
def announce (found : List Certificate → VerificationDiagnostic) (candidates : List Certificate) :
    List SearchItem :=
  if candidates.isEmpty then [] else [.emit (found candidates)]

/-- What one iteration does for a partial chain. -/
def visit (v : Validator) (intermediates : CertificateStore) (partialChain : List Certificate) :
    List SearchItem :=
  let roots := candidates v.rootCertificates partialChain
  let issuers := candidates intermediates partialChain
  .emit (.searchingForIssuerOfPartialChain partialChain) ::
    (announce (.foundCandidateIssuersOfPartialChainInRootStore partialChain) roots ++
      roots.map (rootItem v partialChain) ++
      announce (.foundCandidateIssuersOfPartialChainInIntermediateStore partialChain) issuers ++
      (issuers.reverse.filterMap (skipDiagnostic v partialChain)).map .emit)

/-- The tree of partial chains. -/
def chainTree (v : Validator) (intermediates : CertificateStore) :
    SearchTree (List Certificate) SearchItem where
  visit := visit v intermediates
  children := extensions v intermediates
  rank partialChain := (unused intermediates partialChain).length
  rank_lt := unused_extension_lt

/-! ## One iteration visits one node -/

/-- The event for a rejected chain. A chain of one certificate is the leaf found
in the root store. -/
def failureDiagnostic (chain : UnverifiedCertificateChain) (reason : PolicyFailureReason) :
    VerificationDiagnostic :=
  match chain.certificates with
  | [leaf] => .leafCertificateIsInTheRootStoreButDoesNotMeetPolicy leaf reason
  | certs => .chainFailsToMeetPolicy certs reason

/-- One item of a pass, run with the diagnostic callback. -/
def act (v : Validator) (diagnostics : DiagnosticCallback σ) (g : Progress σ) :
    SearchItem → Except (Exit σ) (Progress σ)
  | .emit diagnostic => .ok { g with sink := diagnose diagnostics g.sink diagnostic }
  | .evaluate chain =>
    match v.policy.chainMeetsPolicyRequirements chain with
    | .ok () =>
      .error (.returned (.ok ⟨chain.certificates, chain.nonempty⟩) (g.evaluated ++ [chain])
        (diagnose diagnostics g.sink (.foundValidCertificateChain chain.certificates)))
    | .error reason =>
      .ok
        { policyFailures := g.policyFailures ++ [⟨chain, reason⟩]
          evaluated := g.evaluated ++ [chain]
          sink := diagnose diagnostics g.sink (failureDiagnostic chain reason) }

theorem failureDiagnostic_complete {partialChain : List Certificate} (hne : partialChain ≠ [])
    (candidate : Certificate) (reason : PolicyFailureReason) :
    failureDiagnostic (complete partialChain candidate) reason =
      .chainFailsToMeetPolicy (partialChain ++ [candidate]) reason := by
  unfold failureDiagnostic complete
  cases partialChain with
  | nil => exact absurd rfl hne
  | cons c rest => cases rest <;> rfl

theorem foldlM_emit (v : Validator) (diagnostics : DiagnosticCallback σ)
    (ds : List VerificationDiagnostic) (g : Progress σ) :
    (ds.map .emit).foldlM (act v diagnostics) g =
      .ok { g with sink := ds.foldl (diagnose diagnostics) g.sink } := by
  induction ds generalizing g with
  | nil => rfl
  | cons d ds ih =>
    rw [List.map_cons, List.foldlM_cons]
    exact ih _

theorem foldlM_announce (v : Validator) (diagnostics : DiagnosticCallback σ)
    (found : List Certificate → VerificationDiagnostic) (cs : List Certificate) (g : Progress σ) :
    (announce found cs).foldlM (act v diagnostics) g =
      .ok { g with
        sink := if cs.isEmpty then g.sink else diagnose diagnostics g.sink (found cs) } := by
  unfold announce
  split <;> rfl

theorem tryRootCandidates_eq {v : Validator} {partialChain : List Certificate}
    (diagnostics : DiagnosticCallback σ) (hne : partialChain ≠ []) (cs : List Certificate)
    (g : Progress σ) :
    tryRootCandidates v diagnostics partialChain cs g =
      (cs.map (rootItem v partialChain)).foldlM (act v diagnostics) g := by
  induction cs generalizing g with
  | nil => rfl
  | cons c rest ih =>
    rw [tryRootCandidates, shouldSkip_eq c diagnostics g.sink hne, List.map_cons,
      List.foldlM_cons, rootItem, usable]
    cases hskip : skipDiagnostic v partialChain c with
    | some diagnostic =>
      simp only [bind, Except.bind, Option.isNone_some, Bool.not_false, ↓reduceIte,
        Option.elim_some]
      exact ih _
    | none =>
      have hchain : partialChain ++ [c] ≠ [] := by simp
      simp only [bind, Except.bind, Option.isNone_none, Bool.not_true, Bool.false_eq_true,
        ↓reduceIte, Option.elim_none, UnverifiedCertificateChain.new_eq_some hchain,
        ValidatedCertificateChain.newUnchecked_eq_some hchain, unwrap, act]
      show (match v.policy.chainMeetsPolicyRequirements (complete partialChain c) with
        | .ok () => _
        | .error reason => _) = _
      cases hpolicy : v.policy.chainMeetsPolicyRequirements (complete partialChain c) with
      | ok _ => rfl
      | error reason =>
        simp only [failureDiagnostic_complete hne]
        exact ih _

theorem pushIntermediateCandidates_eq {v : Validator} {partialChain : List Certificate}
    (diagnostics : DiagnosticCallback σ) (hne : partialChain ≠ []) (cs : List Certificate)
    (stack : List (List Certificate)) (sink : σ) :
    pushIntermediateCandidates v diagnostics partialChain cs stack sink =
      .ok (((cs.filter (usable v partialChain)).map fun c => partialChain ++ [c]).reverse ++ stack,
        (cs.filterMap (skipDiagnostic v partialChain)).foldl (diagnose diagnostics) sink) := by
  induction cs generalizing stack sink with
  | nil => rfl
  | cons c rest ih =>
    rw [pushIntermediateCandidates, shouldSkip_eq c diagnostics sink hne]
    cases hskip : skipDiagnostic v partialChain c with
    | some diagnostic => simp [bind, Except.bind, usable, hskip, ih]
    | none => simp [bind, Except.bind, usable, hskip, ih]

/-- An iteration runs what visiting the partial chain contributes and then
replaces it on the stack by its extensions. -/
theorem searchIteration_eq {v : Validator} {intermediates : CertificateStore}
    {partialChain : List Certificate} (diagnostics : DiagnosticCallback σ)
    (hne : partialChain ≠ []) (stack : List (List Certificate)) (g : Progress σ) :
    searchIteration v intermediates diagnostics partialChain stack g = (do
      let g ← (visit v intermediates partialChain).foldlM (act v diagnostics) g
      return (extensions v intermediates partialChain ++ stack, g)) := by
  have htip := List.getLast?_eq_some_getLast hne
  have hcandidates : ∀ store, candidates store partialChain = sortBySuitabilityForIssuing
      (store.findBySubject (partialChain.getLast hne).issuerKey) (partialChain.getLast hne) := by
    intro store
    rw [candidates, htip]
  unfold searchIteration visit extensions
  simp only [htip, ← hcandidates, unwrap, List.foldlM_cons, List.foldlM_append, foldlM_announce,
    foldlM_emit, tryRootCandidates_eq diagnostics hne,
    pushIntermediateCandidates_eq diagnostics hne, act, List.filter_reverse, List.map_reverse,
    List.reverse_reverse, bind, Except.bind, pure, Except.pure]
  split <;> rfl

/-- The partial chain taken from the stack is not empty if the iteration ends
normally. -/
theorem ne_nil_of_searchIteration {v : Validator} {intermediates : CertificateStore}
    {partialChain : List Certificate} {diagnostics : DiagnosticCallback σ}
    {stack stack' : List (List Certificate)} {g g' : Progress σ}
    (h : searchIteration v intermediates diagnostics partialChain stack g = .ok (stack', g')) :
    partialChain ≠ [] := by
  rintro rfl
  simp [searchIteration, unwrap, bind, Except.bind] at h

theorem stack_of_searchIteration {v : Validator} {intermediates : CertificateStore}
    {partialChain : List Certificate} {diagnostics : DiagnosticCallback σ}
    {stack stack' : List (List Certificate)} {g g' : Progress σ}
    (h : searchIteration v intermediates diagnostics partialChain stack g = .ok (stack', g')) :
    stack' = extensions v intermediates partialChain ++ stack := by
  rw [searchIteration_eq diagnostics (ne_nil_of_searchIteration h)] at h
  cases hvisit : (visit v intermediates partialChain).foldlM (act v diagnostics) g with
  | error exit => simp [hvisit, bind, Except.bind] at h
  | ok g =>
    simp only [hvisit, bind, Except.bind, pure, Except.pure, Except.ok.injEq, Prod.mk.injEq] at h
    exact h.1.symm

/-! ## The loop -/

/-- The `while` loop of `validate_inner`. An iteration replaces a partial chain
by its children in the tree, so that one node fewer is left to be visited. -/
def searchLoop (v : Validator) (intermediates : CertificateStore)
    (diagnostics : DiagnosticCallback σ) (stack : List (List Certificate)) (g : Progress σ) :
    Except (Exit σ) (Progress σ) :=
  match stack with
  | [] => .ok g
  | partialChain :: stack =>
    match _h : searchIteration v intermediates diagnostics partialChain stack g with
    | .error exit => .error exit
    | .ok (stack', g') => searchLoop v intermediates diagnostics stack' g'
termination_by (chainTree v intermediates).stackSize stack
decreasing_by
  rw [stack_of_searchIteration _h, SearchTree.stackSize_cons]
  exact Nat.lt_add_of_pos_left Nat.one_pos

/-- The second check: a leaf that is itself in the root store. -/
def trustLeafDirectly (v : Validator) (leaf : Certificate) (diagnostics : DiagnosticCallback σ)
    (g : Progress σ) : Except (Exit σ) (Progress σ) :=
  if (v.rootCertificates.findBySubject leaf.subjectKey).any fun c => c == leaf then do
    let chain ← unwrap (UnverifiedCertificateChain.new [leaf])
    match v.policy.chainMeetsPolicyRequirements chain with
    | .ok () =>
      let valid ← unwrap (ValidatedCertificateChain.newUnchecked [leaf])
      .error (.returned (.ok valid) (g.evaluated ++ [chain])
        (diagnose diagnostics g.sink (.foundValidCertificateChain [leaf])))
    | .error reason =>
      return {
        policyFailures := g.policyFailures ++ [⟨chain, reason⟩]
        evaluated := g.evaluated ++ [chain]
        sink := diagnose diagnostics g.sink
          (.leafCertificateIsInTheRootStoreButDoesNotMeetPolicy leaf reason) }
  else
    return g

/-- `Validator::validate_inner`. -/
def validateInner (v : Validator) (leaf : Certificate) (intermediates : CertificateStore)
    (diagnostics : DiagnosticCallback σ) (sink : σ) : Exit σ :=
  if hasUnhandledCriticalExtensions leaf v.policy then
    let sink := diagnose diagnostics sink
      (.leafCertificateHasUnhandledCriticalExtension leaf v.policy.verifyingCriticalExtensions)
    match UnverifiedCertificateChain.new [leaf] with
    | none => .panicked
    | some chain =>
      .returned (.error [⟨chain, ⟨"leaf certificate has unhandled critical extension"⟩⟩]) [] sink
  else
    let search : Except (Exit σ) (Progress σ) := do
      let g ← trustLeafDirectly v leaf diagnostics ⟨[], [], sink⟩
      searchLoop v intermediates diagnostics [[leaf]] g
    match search with
    | .error exit => exit
    | .ok g =>
      .returned (.error g.policyFailures) g.evaluated
        (diagnose diagnostics g.sink (.couldNotValidateLeafCertificate leaf))

/-! ## A run is one pass over the tree -/

theorem searchLoop_nil (v : Validator) (intermediates : CertificateStore)
    (diagnostics : DiagnosticCallback σ) (g : Progress σ) :
    searchLoop v intermediates diagnostics [] g = .ok g := by
  rw [searchLoop]

theorem searchLoop_cons (v : Validator) (intermediates : CertificateStore)
    (diagnostics : DiagnosticCallback σ) (partialChain : List Certificate)
    (stack : List (List Certificate)) (g : Progress σ) :
    searchLoop v intermediates diagnostics (partialChain :: stack) g = (do
      let (stack', g') ← searchIteration v intermediates diagnostics partialChain stack g
      searchLoop v intermediates diagnostics stack' g') := by
  rw [searchLoop]
  cases searchIteration v intermediates diagnostics partialChain stack g <;> rfl

theorem extensions_ne_nil {v : Validator} {intermediates : CertificateStore}
    {partialChain next : List Certificate}
    (h : next ∈ extensions v intermediates partialChain) : next ≠ [] := by
  obtain ⟨c, _, _, rfl⟩ := mem_extensions.mp h
  simp

theorem searchLoop_eq (v : Validator) (intermediates : CertificateStore)
    (diagnostics : DiagnosticCallback σ) {stack : List (List Certificate)}
    (hstack : ∀ partialChain ∈ stack, partialChain ≠ []) (g : Progress σ) :
    searchLoop v intermediates diagnostics stack g =
      (stack.flatMap (chainTree v intermediates).preorder).foldlM (act v diagnostics) g := by
  refine (chainTree v intermediates).loop_eq_foldlM (P := fun p => p ≠ [])
    (fun _ _ _ hnext => extensions_ne_nil hnext) (searchLoop_nil v intermediates diagnostics)
    ?_ stack hstack g
  intro partialChain rest g hne
  rw [searchLoop_cons, searchIteration_eq diagnostics hne]
  exact bind_assoc ..

/-- What is done for the leaf before the search. -/
def leafItems (v : Validator) (leaf : Certificate) : List SearchItem :=
  if (v.rootCertificates.findBySubject leaf.subjectKey).any fun c => c == leaf then
    [.evaluate ⟨[leaf], by simp⟩]
  else
    []

theorem trustLeafDirectly_eq (v : Validator) (leaf : Certificate)
    (diagnostics : DiagnosticCallback σ) (g : Progress σ) :
    trustLeafDirectly v leaf diagnostics g =
      (leafItems v leaf).foldlM (act v diagnostics) g := by
  unfold trustLeafDirectly leafItems
  split
  · have hne : [leaf] ≠ [] := by simp
    rw [UnverifiedCertificateChain.new_eq_some hne,
      ValidatedCertificateChain.newUnchecked_eq_some hne, List.foldlM_cons]
    simp only [act, unwrap, bind, Except.bind]
    cases v.policy.chainMeetsPolicyRequirements ⟨[leaf], hne⟩ <;> rfl
  · rfl

/-- Everything a run does, in order, as long as no chain is accepted. -/
def plan (v : Validator) (leaf : Certificate) (intermediates : CertificateStore) :
    List SearchItem :=
  leafItems v leaf ++ (chainTree v intermediates).preorder [leaf]

/-- A run is one pass over the plan. -/
theorem validateInner_eq {v : Validator} {leaf : Certificate} (intermediates : CertificateStore)
    (diagnostics : DiagnosticCallback σ) (sink : σ)
    (hleaf : hasUnhandledCriticalExtensions leaf v.policy = false) :
    validateInner v leaf intermediates diagnostics sink =
      match (plan v leaf intermediates).foldlM (act v diagnostics) ⟨[], [], sink⟩ with
      | .error exit => exit
      | .ok g => .returned (.error g.policyFailures) g.evaluated
          (diagnose diagnostics g.sink (.couldNotValidateLeafCertificate leaf)) := by
  have hstack : ∀ g, searchLoop v intermediates diagnostics [[leaf]] g =
      ((chainTree v intermediates).preorder [leaf]).foldlM (act v diagnostics) g := by
    intro g
    rw [searchLoop_eq v intermediates diagnostics (by simp) g]
    simp
  rw [validateInner, if_neg (by simp [hleaf]), plan, List.foldlM_append, trustLeafDirectly_eq]
  simp only [hstack]

/-! ## How a pass ends -/

/-- The chains that a list of items hands to the policy. -/
def chainsOf (items : List SearchItem) : List UnverifiedCertificateChain :=
  items.filterMap fun
    | .emit _ => none
    | .evaluate chain => some chain

theorem chainsOf_append (items items' : List SearchItem) :
    chainsOf (items ++ items') = chainsOf items ++ chainsOf items' :=
  List.filterMap_append

/-- The failures that the policy reports for a list of chains. -/
def failuresOf (policy : ValidationPolicy) (chains : List UnverifiedCertificateChain) :
    List PolicyFailure :=
  chains.filterMap fun chain =>
    match policy.chainMeetsPolicyRequirements chain with
    | .ok () => none
    | .error reason => some ⟨chain, reason⟩

theorem mem_failuresOf {policy : ValidationPolicy} {chains : List UnverifiedCertificateChain}
    {failure : PolicyFailure} (h : failure ∈ failuresOf policy chains) :
    failure.chain ∈ chains ∧
      policy.chainMeetsPolicyRequirements failure.chain = .error failure.policyFailureReason := by
  obtain ⟨chain, hchain, heq⟩ := List.mem_filterMap.mp h
  split at heq
  · exact absurd heq (by simp)
  · next reason hreason =>
    obtain rfl := Option.some.inj heq
    exact ⟨hchain, hreason⟩

theorem failuresOf_all_rejected {policy : ValidationPolicy}
    {chains : List UnverifiedCertificateChain} (h : ∀ chain ∈ chains, ¬ policy.Accepts chain) :
    (failuresOf policy chains).map PolicyFailure.chain = chains := by
  induction chains with
  | nil => rfl
  | cons chain chains ih =>
    have hchain : ¬ policy.Accepts chain := h chain List.mem_cons_self
    have ih := ih fun c hc => h c (List.mem_cons_of_mem _ hc)
    unfold ValidationPolicy.Accepts at hchain
    cases hpolicy : policy.chainMeetsPolicyRequirements chain with
    | ok _ => exact absurd hpolicy hchain
    | error reason =>
      rw [failuresOf, List.filterMap_cons_some (b := ⟨chain, reason⟩) (by simp [hpolicy]),
        List.map_cons]
      exact congrArg _ ih

/-- The event of one item. -/
def eventOf (policy : ValidationPolicy) : SearchItem → VerificationDiagnostic
  | .emit diagnostic => diagnostic
  | .evaluate chain =>
    match policy.chainMeetsPolicyRequirements chain with
    | .ok () => .foundValidCertificateChain chain.certificates
    | .error reason => failureDiagnostic chain reason

/-- The events of a list of items. -/
def eventsOf (policy : ValidationPolicy) (items : List SearchItem) : List VerificationDiagnostic :=
  items.map (eventOf policy)

/-- The state of the callback after these events. -/
def report (diagnostics : DiagnosticCallback σ) (sink : σ)
    (events : List VerificationDiagnostic) : σ :=
  events.foldl (diagnose diagnostics) sink

/-- No chain of these items is accepted. -/
def AllRejected (policy : ValidationPolicy) (items : List SearchItem) : Prop :=
  ∀ chain ∈ chainsOf items, ¬ policy.Accepts chain

theorem allRejected_cons {policy : ValidationPolicy} {item : SearchItem} {items : List SearchItem}
    (h : AllRejected policy (item :: items)) : AllRejected policy items := by
  intro chain hchain
  cases item with
  | emit _ => exact h chain hchain
  | evaluate _ => exact h chain (List.mem_cons_of_mem _ hchain)

/-- A pass in which every chain is rejected collects all failures. -/
theorem pass_all_rejected {v : Validator} {items : List SearchItem}
    (diagnostics : DiagnosticCallback σ) (h : AllRejected v.policy items) (g : Progress σ) :
    items.foldlM (act v diagnostics) g =
      .ok
        { policyFailures := g.policyFailures ++ failuresOf v.policy (chainsOf items)
          evaluated := g.evaluated ++ chainsOf items
          sink := report diagnostics g.sink (eventsOf v.policy items) } := by
  induction items generalizing g with
  | nil => simp [chainsOf, failuresOf, eventsOf, report, pure, Except.pure]
  | cons item items ih =>
    have ih := ih (allRejected_cons h)
    rw [List.foldlM_cons]
    cases item with
    | emit diagnostic => exact ih _
    | evaluate chain =>
      have hrejected : ¬ v.policy.Accepts chain := h chain List.mem_cons_self
      unfold ValidationPolicy.Accepts at hrejected
      cases hpolicy : v.policy.chainMeetsPolicyRequirements chain with
      | ok _ => exact absurd hpolicy hrejected
      | error reason =>
        simp [act, hpolicy, bind, Except.bind, ih, chainsOf, failuresOf, eventsOf, eventOf, report]

/-- A pass returns the first chain that is accepted. -/
theorem pass_first_accepted {v : Validator} {pre post : List SearchItem}
    {chain : UnverifiedCertificateChain} (diagnostics : DiagnosticCallback σ)
    (hpre : AllRejected v.policy pre) (hchain : v.policy.Accepts chain) (g : Progress σ) :
    (pre ++ .evaluate chain :: post).foldlM (act v diagnostics) g =
      .error (.returned (.ok ⟨chain.certificates, chain.nonempty⟩)
        (g.evaluated ++ chainsOf pre ++ [chain])
        (report diagnostics g.sink
          (eventsOf v.policy pre ++ [.foundValidCertificateChain chain.certificates]))) := by
  rw [ValidationPolicy.Accepts] at hchain
  rw [List.foldlM_append, pass_all_rejected diagnostics hpre]
  simp [act, hchain, bind, Except.bind, report]

/-- A list of items has a first accepted chain, or all of its chains are rejected. -/
theorem exists_first_accepted_or_allRejected (policy : ValidationPolicy)
    (items : List SearchItem) :
    (∃ pre chain post, items = pre ++ .evaluate chain :: post ∧ AllRejected policy pre ∧
      policy.Accepts chain) ∨ AllRejected policy items := by
  induction items with
  | nil => exact .inr fun chain h => absurd h List.not_mem_nil
  | cons item items ih =>
    cases item with
    | emit diagnostic =>
      rcases ih with ⟨pre, chain, post, rfl, hpre, hchain⟩ | h
      · exact .inl ⟨.emit diagnostic :: pre, chain, post, rfl, hpre, hchain⟩
      · exact .inr h
    | evaluate first =>
      by_cases hfirst : policy.Accepts first
      · exact .inl ⟨[], first, items, rfl, fun chain h => absurd h List.not_mem_nil, hfirst⟩
      have hcons : ∀ {l}, AllRejected policy l → AllRejected policy (.evaluate first :: l) := by
        intro l hl chain hchain
        rcases List.mem_cons.mp hchain with rfl | hchain
        · exact hfirst
        · exact hl chain hchain
      rcases ih with ⟨pre, chain, post, rfl, hpre, hchain⟩ | h
      · exact .inl ⟨.evaluate first :: pre, chain, post, rfl, hcons hpre, hchain⟩
      · exact .inr (hcons h)

/-- The runs of `validate_inner`, by result, chains handed to the policy and
events. -/
inductive Run (v : Validator) (leaf : Certificate) (intermediates : CertificateStore) :
    ChainValidationResult → List UnverifiedCertificateChain → List VerificationDiagnostic → Prop
  /-- The leaf has an unhandled critical extension. -/
  | unhandled : hasUnhandledCriticalExtensions leaf v.policy = true →
      Run v leaf intermediates
        (.error [⟨⟨[leaf], by simp⟩, ⟨"leaf certificate has unhandled critical extension"⟩⟩]) []
        [.leafCertificateHasUnhandledCriticalExtension leaf v.policy.verifyingCriticalExtensions]
  /-- A chain is accepted, and every chain before it is rejected. -/
  | accepted (pre : List SearchItem) (chain : UnverifiedCertificateChain)
      (post : List SearchItem) : hasUnhandledCriticalExtensions leaf v.policy = false →
      plan v leaf intermediates = pre ++ .evaluate chain :: post → AllRejected v.policy pre →
      v.policy.Accepts chain →
      Run v leaf intermediates (.ok ⟨chain.certificates, chain.nonempty⟩) (chainsOf pre ++ [chain])
        (eventsOf v.policy pre ++ [.foundValidCertificateChain chain.certificates])
  /-- Every chain is rejected. -/
  | exhausted : hasUnhandledCriticalExtensions leaf v.policy = false →
      AllRejected v.policy (plan v leaf intermediates) →
      Run v leaf intermediates
        (.error (failuresOf v.policy (chainsOf (plan v leaf intermediates))))
        (chainsOf (plan v leaf intermediates))
        (eventsOf v.policy (plan v leaf intermediates) ++ [.couldNotValidateLeafCertificate leaf])

theorem exists_run (v : Validator) (leaf : Certificate) (intermediates : CertificateStore) :
    ∃ result evaluated events, Run v leaf intermediates result evaluated events := by
  cases hleaf : hasUnhandledCriticalExtensions leaf v.policy with
  | true => exact ⟨_, _, _, .unhandled hleaf⟩
  | false =>
    rcases exists_first_accepted_or_allRejected v.policy (plan v leaf intermediates) with
      ⟨pre, chain, post, hplan, hpre, hchain⟩ | hall
    · exact ⟨_, _, _, .accepted pre chain post hleaf hplan hpre hchain⟩
    · exact ⟨_, _, _, .exhausted hleaf hall⟩

/-- A run returns its result, and the callback sees its events and nothing else. -/
theorem Run.validateInner_eq {v : Validator} {leaf : Certificate}
    {intermediates : CertificateStore} {result : ChainValidationResult}
    {evaluated : List UnverifiedCertificateChain} {events : List VerificationDiagnostic}
    (h : Run v leaf intermediates result evaluated events) (diagnostics : DiagnosticCallback σ)
    (sink : σ) :
    validateInner v leaf intermediates diagnostics sink =
      .returned result evaluated (report diagnostics sink events) := by
  cases h with
  | unhandled hleaf =>
    rw [validateInner, if_pos hleaf, UnverifiedCertificateChain.new_eq_some (by simp)]
    rfl
  | accepted pre chain post hleaf hplan hpre hchain =>
    rw [X509Validator.validateInner_eq intermediates diagnostics sink hleaf, hplan,
      pass_first_accepted diagnostics hpre hchain]
    rfl
  | exhausted hleaf hall =>
    rw [X509Validator.validateInner_eq intermediates diagnostics sink hleaf,
      pass_all_rejected diagnostics hall]
    simp [report]

/-! ## The public entry points -/

theorem validateInner_ne_panicked (v : Validator) (leaf : Certificate)
    (intermediates : CertificateStore) (diagnostics : DiagnosticCallback σ) (sink : σ) :
    validateInner v leaf intermediates diagnostics sink ≠ .panicked := by
  obtain ⟨result, evaluated, events, hrun⟩ := exists_run v leaf intermediates
  rw [hrun.validateInner_eq]
  simp

/-- What a run that did not panic leaves behind. -/
def Exit.outcome : (exit : Exit σ) → exit ≠ .panicked →
    ChainValidationResult × List UnverifiedCertificateChain × σ
  | .returned result evaluated sink, _ => (result, evaluated, sink)
  | .panicked, h => absurd rfl h

theorem Exit.outcome_of_eq {exit : Exit σ} {result : ChainValidationResult}
    {evaluated : List UnverifiedCertificateChain} {sink : σ}
    (h : exit = .returned result evaluated sink) (hne : exit ≠ .panicked) :
    exit.outcome hne = (result, evaluated, sink) := by
  subst h
  rfl

namespace Validator

/-- `Validator::validate`. -/
def validate (v : Validator) (leaf : Certificate) (intermediates : CertificateStore) :
    ChainValidationResult :=
  ((validateInner v leaf intermediates none ()).outcome
    (validateInner_ne_panicked v leaf intermediates none ())).1

/-- `Validator::validate_with_diagnostics`, for a callback that has captured a
state; the second component is that state afterwards. -/
def validateWithDiagnostics (v : Validator) (leaf : Certificate) (intermediates : CertificateStore)
    (diagnosticCallback : σ → VerificationDiagnostic → σ) (sink : σ) : ChainValidationResult × σ :=
  let outcome := (validateInner v leaf intermediates (some diagnosticCallback) sink).outcome
    (validateInner_ne_panicked v leaf intermediates (some diagnosticCallback) sink)
  (outcome.1, outcome.2.2)

/-- The chains that `validate` hands to the policy, in order. -/
def handedToPolicy (v : Validator) (leaf : Certificate) (intermediates : CertificateStore) :
    List UnverifiedCertificateChain :=
  ((validateInner v leaf intermediates none ()).outcome
    (validateInner_ne_panicked v leaf intermediates none ())).2.1

end Validator

/-- The run of `validate`. -/
theorem validate_run (v : Validator) (leaf : Certificate) (intermediates : CertificateStore) :
    ∃ result evaluated events, Run v leaf intermediates result evaluated events ∧
      v.validate leaf intermediates = result ∧
      v.handedToPolicy leaf intermediates = evaluated ∧
      ∀ (σ : Type) (callback : σ → VerificationDiagnostic → σ) (sink : σ),
        v.validateWithDiagnostics leaf intermediates callback sink =
          (result, events.foldl callback sink) := by
  obtain ⟨result, evaluated, events, hrun⟩ := exists_run v leaf intermediates
  refine ⟨result, evaluated, events, hrun, ?_, ?_, fun σ callback sink => ?_⟩
  · rw [Validator.validate, Exit.outcome_of_eq (hrun.validateInner_eq none ())]
  · rw [Validator.handedToPolicy, Exit.outcome_of_eq (hrun.validateInner_eq none ())]
  · rw [Validator.validateWithDiagnostics,
      Exit.outcome_of_eq (hrun.validateInner_eq (some callback) sink)]
    rfl

/-- The first of these chains that the policy accepts, or all failures. -/
def firstAccepted (policy : ValidationPolicy) (chains : List UnverifiedCertificateChain) :
    ChainValidationResult :=
  match chains.find? fun chain => policy.Accepts chain with
  | some chain => .ok ⟨chain.certificates, chain.nonempty⟩
  | none => .error (failuresOf policy chains)

theorem firstAccepted_of_find? {policy : ValidationPolicy}
    {chains : List UnverifiedCertificateChain} {chain : UnverifiedCertificateChain}
    (h : (chains.find? fun chain => policy.Accepts chain) = some chain) :
    firstAccepted policy chains = .ok ⟨chain.certificates, chain.nonempty⟩ := by
  rw [firstAccepted, h]

theorem firstAccepted_append {policy : ValidationPolicy}
    {pre post : List UnverifiedCertificateChain} {chain : UnverifiedCertificateChain}
    (hpre : ∀ rejected ∈ pre, ¬ policy.Accepts rejected) (hchain : policy.Accepts chain) :
    firstAccepted policy (pre ++ chain :: post) = .ok ⟨chain.certificates, chain.nonempty⟩ := by
  have hnone : pre.find? (fun chain => policy.Accepts chain) = none := by
    simpa [List.find?_eq_none] using hpre
  refine firstAccepted_of_find? ?_
  rw [List.find?_append, hnone]
  simp [hchain]

theorem firstAccepted_all_rejected {policy : ValidationPolicy}
    {chains : List UnverifiedCertificateChain} (h : ∀ chain ∈ chains, ¬ policy.Accepts chain) :
    firstAccepted policy chains = .error (failuresOf policy chains) := by
  have hnone : chains.find? (fun chain => policy.Accepts chain) = none := by
    simpa [List.find?_eq_none] using h
  rw [firstAccepted, hnone]

theorem find?_of_firstAccepted {policy : ValidationPolicy}
    {chains : List UnverifiedCertificateChain} {chain : ValidatedCertificateChain}
    (h : firstAccepted policy chains = .ok chain) :
    (chains.find? fun chain => policy.Accepts chain) =
      some ⟨chain.certificates, chain.nonempty⟩ := by
  unfold firstAccepted at h
  split at h
  · next heq =>
    cases h
    exact heq
  · cases h

/-- The search returns the first chain of the plan that the policy accepts. -/
theorem validate_eq_firstAccepted {v : Validator} {leaf : Certificate}
    (intermediates : CertificateStore)
    (hleaf : hasUnhandledCriticalExtensions leaf v.policy = false) :
    v.validate leaf intermediates =
      firstAccepted v.policy (chainsOf (plan v leaf intermediates)) := by
  obtain ⟨result, evaluated, events, hrun, hresult, _, _⟩ := validate_run v leaf intermediates
  rw [hresult]
  cases hrun with
  | unhandled hunhandled => exact absurd hunhandled (by simp [hleaf])
  | accepted pre chain post _ hplan hpre hchain =>
    rw [hplan, chainsOf_append]
    exact (firstAccepted_append hpre hchain).symm
  | exhausted _ hall => rw [firstAccepted_all_rejected hall]

/-- A leaf that is rejected before the search is never accepted. -/
theorem handled_of_validate_eq_ok {v : Validator} {leaf : Certificate}
    {intermediates : CertificateStore} {chain : ValidatedCertificateChain}
    (h : v.validate leaf intermediates = .ok chain) :
    hasUnhandledCriticalExtensions leaf v.policy = false := by
  obtain ⟨result, evaluated, events, hrun, hresult, _, _⟩ := validate_run v leaf intermediates
  rw [h] at hresult
  cases hrun with
  | unhandled _ => cases hresult
  | accepted _ _ _ hleaf _ _ _ => exact hleaf
  | exhausted hleaf _ => exact hleaf

end X509Validator
