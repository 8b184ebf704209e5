import X509Validator.Completeness
import X509Validator.Diagnostics

/-!
# What a run depends on

A run asks its parameters four questions: which certificates a store holds for a
subject, whether a signature verifies, whether an extension is listed, and
whether the policy accepts a chain. `Agree` relates two validators that answer
them in the same way. Their search trees simulate each other node by node, so
their runs are the same, up to the texts that the policies supply: the reasons of
a rejection and the list of handled extensions in an event. How a store arranges
its buckets, the kind of a crypto error, the order in which a policy lists its
extensions and the way it arrives at its verdict are never observed.

Where the answers of one validator only imply those of another, runs differ, but
a leaf that the first accepts is accepted by the second.

Results:
1. `agreeing_validators_run_alike`: validators that agree return the same chain,
   fail for the same chains, hand the same chains to the policy and emit the same
   events up to the texts of the policies; with the same policy, the texts are
   the same too.
2. `looser_validator_accepts_more`: acceptance is kept when the stores grow, the
   verifier accepts more signatures, and the policy lists more and accepts more.
-/

namespace X509Validator

open StackSearch

variable {v v' : Validator} {leaf : Certificate} {intermediates intermediates' : CertificateStore}

/-! ## Agreement -/

/-- The signatures that a run for this leaf can check: on the leaf or on an
intermediate certificate, with the key of a certificate of the stores that has
the name of the issuer. -/
structure Asks (rootCertificates : CertificateStore) (leaf : Certificate)
    (intermediates : CertificateStore) (subject issuer : Certificate) : Prop where
  signed : subject = leaf ∨ subject ∈ intermediates
  stored : issuer ∈ rootCertificates ∨ issuer ∈ intermediates
  named : subject.issuerKey = issuer.subjectKey

/-- The two validators, each with its intermediate store, answer every question
that a run for this leaf can ask in the same way. -/
structure Agree (v v' : Validator) (leaf : Certificate)
    (intermediates intermediates' : CertificateStore) : Prop where
  roots : ∀ key, v.rootCertificates.findBySubject key = v'.rootCertificates.findBySubject key
  issuers : ∀ key, intermediates.findBySubject key = intermediates'.findBySubject key
  signed : ∀ subject issuer, Asks v.rootCertificates leaf intermediates subject issuer →
    signedBy v.crypto subject issuer = signedBy v'.crypto subject issuer
  listed : ∀ oid, oid ∈ v.policy.verifyingCriticalExtensions ↔
    oid ∈ v'.policy.verifyingCriticalExtensions
  accepts : ∀ chain, v.policy.Accepts chain ↔ v'.policy.Accepts chain

/-- The partial chains of a run consist of the leaf and intermediate certificates. -/
def Within (leaf : Certificate) (intermediates : CertificateStore)
    (partialChain : List Certificate) : Prop :=
  ∀ c ∈ partialChain, c = leaf ∨ c ∈ intermediates

theorem Within.extend {partialChain next : List Certificate}
    (h : Within leaf intermediates partialChain)
    (hnext : next ∈ extensions v intermediates partialChain) : Within leaf intermediates next := by
  obtain ⟨c, hc, _, rfl⟩ := mem_extensions.mp hnext
  intro c' hc'
  rcases List.mem_append.mp hc' with hc' | hc'
  · exact h c' hc'
  · rw [List.mem_singleton.mp hc']
    exact .inr (mem_candidates.mp hc).1

/-- The candidates of a partial chain, from both stores. -/
def IsCandidate (v : Validator) (intermediates : CertificateStore)
    (partialChain : List Certificate) (candidate : Certificate) : Prop :=
  candidate ∈ candidates v.rootCertificates partialChain ∨
    candidate ∈ candidates intermediates partialChain

theorem Within.asks {partialChain : List Certificate} {tip candidate : Certificate}
    (h : Within leaf intermediates partialChain) (htip : partialChain.getLast? = some tip)
    (hcandidate : IsCandidate v intermediates partialChain candidate) :
    Asks v.rootCertificates leaf intermediates tip candidate := by
  have hsubject := h tip (List.mem_of_getLast? htip)
  rcases hcandidate with hc | hc
  · obtain ⟨hmem, tip', htip', hnamed⟩ := mem_candidates.mp hc
    obtain rfl : tip = tip' := Option.some.inj (htip.symm.trans htip')
    exact ⟨hsubject, .inl hmem, hnamed⟩
  · obtain ⟨hmem, tip', htip', hnamed⟩ := mem_candidates.mp hc
    obtain rfl : tip = tip' := Option.some.inj (htip.symm.trans htip')
    exact ⟨hsubject, .inr hmem, hnamed⟩

/-- An event without what the policy supplies of its text. -/
def VerificationDiagnostic.shape : VerificationDiagnostic → VerificationDiagnostic
  | .leafCertificateHasUnhandledCriticalExtension leafCertificate _ =>
    .leafCertificateHasUnhandledCriticalExtension leafCertificate []
  | .leafCertificateIsInTheRootStoreButDoesNotMeetPolicy leafCertificate _ =>
    .leafCertificateIsInTheRootStoreButDoesNotMeetPolicy leafCertificate ⟨""⟩
  | .chainFailsToMeetPolicy chain _ => .chainFailsToMeetPolicy chain ⟨""⟩
  | .issuerHasUnhandledCriticalExtension issuer partialChain _ =>
    .issuerHasUnhandledCriticalExtension issuer partialChain []
  | event => event

/-- Two items of a search that do the same, up to the text of an event. -/
inductive SameItem : SearchItem → SearchItem → Prop
  | emit {event event' : VerificationDiagnostic} (h : event.shape = event'.shape) :
      SameItem (.emit event) (.emit event')
  | evaluate (chain : UnverifiedCertificateChain) : SameItem (.evaluate chain) (.evaluate chain)

theorem SameItem.refl (item : SearchItem) : SameItem item item := by
  cases item with
  | emit event => exact .emit rfl
  | evaluate chain => exact .evaluate chain

/-! ## The trees simulate each other -/

section

variable (h : Agree v v' leaf intermediates intermediates')

include h

theorem Agree.hasUnhandled_eq (cert : Certificate) :
    hasUnhandledCriticalExtensions cert v.policy =
      hasUnhandledCriticalExtensions cert v'.policy := by
  rw [Bool.eq_iff_iff, ← not_iff_not, Bool.not_eq_true, Bool.not_eq_true,
    hasUnhandledCriticalExtensions_eq_false, hasUnhandledCriticalExtensions_eq_false]
  simp only [h.listed]

theorem Agree.signed_eq {partialChain : List Certificate} {candidate : Certificate}
    (hwithin : Within leaf intermediates partialChain)
    (hcandidate : IsCandidate v intermediates partialChain candidate) :
    (partialChain.getLast?.any fun tip => signedBy v.crypto tip candidate) =
      partialChain.getLast?.any fun tip => signedBy v'.crypto tip candidate := by
  cases htip : partialChain.getLast? with
  | none => rfl
  | some tip => exact h.signed tip candidate (hwithin.asks htip hcandidate)

theorem Agree.candidates_eq (partialChain : List Certificate) :
    candidates v.rootCertificates partialChain = candidates v'.rootCertificates partialChain ∧
      candidates intermediates partialChain = candidates intermediates' partialChain := by
  unfold candidates
  simp only [h.roots, h.issuers, and_self]

section

variable {partialChain : List Certificate} (hwithin : Within leaf intermediates partialChain)

include hwithin

section

variable {candidate : Certificate}
  (hcandidate : IsCandidate v intermediates partialChain candidate)

include hcandidate

/-- A candidate is skipped by both validators or by none, for the same cause. -/
theorem Agree.skipDiagnostic_shape :
    (skipDiagnostic v partialChain candidate).map VerificationDiagnostic.shape =
      (skipDiagnostic v' partialChain candidate).map VerificationDiagnostic.shape := by
  unfold skipDiagnostic
  rw [h.hasUnhandled_eq, h.signed_eq hwithin hcandidate]
  split
  · rfl
  · split
    · rfl
    · split <;> rfl

/-- With the same policy, the event is the same. -/
theorem Agree.skipDiagnostic_eq (hpolicy : v.policy = v'.policy) :
    skipDiagnostic v partialChain candidate = skipDiagnostic v' partialChain candidate := by
  unfold skipDiagnostic
  rw [hpolicy, h.signed_eq hwithin hcandidate]

theorem Agree.usable_eq :
    usable v partialChain candidate = usable v' partialChain candidate := by
  have hshape := congrArg Option.isNone (h.skipDiagnostic_shape hwithin hcandidate)
  rwa [Option.isNone_map, Option.isNone_map] at hshape

theorem Agree.rootItem_same :
    SameItem (rootItem v partialChain candidate) (rootItem v' partialChain candidate) := by
  have hshape := h.skipDiagnostic_shape hwithin hcandidate
  unfold rootItem
  cases hskip : skipDiagnostic v partialChain candidate with
  | none =>
    rw [hskip] at hshape
    rw [Option.map_eq_none_iff.mp hshape.symm]
    exact .evaluate _
  | some event =>
    rw [hskip] at hshape
    obtain ⟨event', hskip', heq⟩ := Option.map_eq_some_iff.mp hshape.symm
    rw [hskip']
    exact .emit heq.symm

end

theorem Agree.extensions_eq :
    extensions v intermediates partialChain = extensions v' intermediates' partialChain := by
  rw [extensions, extensions, ← (h.candidates_eq partialChain).2]
  exact congrArg _ (List.filter_congr fun _ hc => h.usable_eq hwithin (.inr hc))

/-- The skips of the intermediate loop, in order. -/
theorem Agree.skips_same {cs : List Certificate}
    (hcs : ∀ c ∈ cs, IsCandidate v intermediates partialChain c) :
    List.Forall₂ SameItem ((cs.filterMap (skipDiagnostic v partialChain)).map .emit)
      ((cs.filterMap (skipDiagnostic v' partialChain)).map .emit) := by
  induction cs with
  | nil => exact .nil
  | cons candidate cs ih =>
    have hshape := h.skipDiagnostic_shape hwithin (hcs candidate List.mem_cons_self)
    have ih := ih fun c hc => hcs c (List.mem_cons_of_mem candidate hc)
    cases hskip : skipDiagnostic v partialChain candidate with
    | none =>
      rw [hskip] at hshape
      rw [List.filterMap_cons_none hskip,
        List.filterMap_cons_none (Option.map_eq_none_iff.mp hshape.symm)]
      exact ih
    | some event =>
      rw [hskip] at hshape
      obtain ⟨event', hskip', heq⟩ := Option.map_eq_some_iff.mp hshape.symm
      rw [List.filterMap_cons_some hskip, List.filterMap_cons_some hskip']
      exact .cons (.emit heq.symm) ih

theorem Agree.visit_same :
    List.Forall₂ SameItem (visit v intermediates partialChain)
      (visit v' intermediates' partialChain) := by
  have hrefl : ∀ items : List SearchItem, List.Forall₂ SameItem items items :=
    fun items => List.forall₂_same.mpr fun item _ => SameItem.refl item
  obtain ⟨hroots, hissuers⟩ := h.candidates_eq partialChain
  unfold visit
  rw [← hroots, ← hissuers]
  refine .cons (.emit rfl) (List.rel_append (List.rel_append (List.rel_append (hrefl _) ?_)
    (hrefl _)) (h.skips_same hwithin fun _ hc => .inr (List.mem_reverse.mp hc)))
  rw [List.forall₂_map_left_iff, List.forall₂_map_right_iff]
  exact List.forall₂_same.mpr fun _ hc => h.rootItem_same hwithin (.inl hc)

/-- With the same policy, a visit is the same. -/
theorem Agree.visit_eq (hpolicy : v.policy = v'.policy) :
    visit v intermediates partialChain = visit v' intermediates' partialChain := by
  have hskip : ∀ c, IsCandidate v intermediates partialChain c →
      skipDiagnostic v partialChain c = skipDiagnostic v' partialChain c :=
    fun _ hc => h.skipDiagnostic_eq hwithin hc hpolicy
  have hroot : (candidates v.rootCertificates partialChain).map (rootItem v partialChain) =
      (candidates v.rootCertificates partialChain).map (rootItem v' partialChain) := by
    refine List.map_congr_left fun c hc => ?_
    rw [rootItem, rootItem, hskip c (.inl hc)]
  have hissuer : (candidates intermediates partialChain).reverse.filterMap
      (skipDiagnostic v partialChain) = (candidates intermediates partialChain).reverse.filterMap
      (skipDiagnostic v' partialChain) :=
    List.filterMap_congr fun c hc => hskip c (.inr (List.mem_reverse.mp hc))
  obtain ⟨hroots, hissuers⟩ := h.candidates_eq partialChain
  unfold visit
  dsimp only
  rw [hroot, hissuer, hroots, hissuers]

end

/-- The two trees below the leaf, for any relation between their items that the
visits respect. -/
theorem Agree.preorder_simulation {S : SearchItem → SearchItem → Prop}
    (hvisit : ∀ partialChain, Within leaf intermediates partialChain →
      List.Forall₂ S (visit v intermediates partialChain) (visit v' intermediates' partialChain)) :
    List.Forall₂ S ((chainTree v intermediates).preorder [leaf])
      ((chainTree v' intermediates').preorder [leaf]) := by
  refine SearchTree.preorder_simulation
    (R := fun p p' => p = p' ∧ Within leaf intermediates p) ?_ ?_ ⟨rfl, ?_⟩
  · rintro partialChain _ ⟨rfl, hwithin⟩
    exact hvisit partialChain hwithin
  · rintro partialChain _ ⟨rfl, hwithin⟩
    show List.Forall₂ _ (extensions v intermediates partialChain)
      (extensions v' intermediates' partialChain)
    rw [← h.extensions_eq hwithin]
    exact List.forall₂_same.mpr fun next hnext => ⟨rfl, hwithin.extend hnext⟩
  · exact fun c hc => .inl (List.mem_singleton.mp hc)

theorem Agree.plan_same :
    List.Forall₂ SameItem (plan v leaf intermediates) (plan v' leaf intermediates') := by
  have hleaf : leafItems v leaf = leafItems v' leaf := by
    unfold leafItems
    rw [h.roots]
  rw [plan, plan, hleaf]
  exact List.rel_append (List.forall₂_same.mpr fun item _ => SameItem.refl item)
    (h.preorder_simulation fun _ hwithin => h.visit_same hwithin)

/-- With the same policy, the plans are equal. -/
theorem Agree.plan_eq (hpolicy : v.policy = v'.policy) :
    plan v leaf intermediates = plan v' leaf intermediates' := by
  have htree : List.Forall₂ Eq ((chainTree v intermediates).preorder [leaf])
      ((chainTree v' intermediates').preorder [leaf]) := by
    refine h.preorder_simulation fun partialChain hwithin => ?_
    rw [List.forall₂_eq_eq_eq]
    exact h.visit_eq hwithin hpolicy
  rw [List.forall₂_eq_eq_eq] at htree
  unfold plan leafItems
  rw [h.roots, htree]

end

/-! ## The runs are the same -/

theorem chainsOf_same {items items' : List SearchItem} (h : List.Forall₂ SameItem items items') :
    chainsOf items = chainsOf items' := by
  induction h with
  | nil => rfl
  | cons hitem _ ih =>
    cases hitem with
    | emit _ => exact ih
    | evaluate chain => exact congrArg (chain :: ·) ih

theorem allRejected_same {policy policy' : ValidationPolicy} {items items' : List SearchItem}
    (haccepts : ∀ chain, policy.Accepts chain ↔ policy'.Accepts chain)
    (h : List.Forall₂ SameItem items items') (hall : AllRejected policy items) :
    AllRejected policy' items' := by
  intro chain hchain
  rw [← chainsOf_same h] at hchain
  exact mt (haccepts chain).mpr (hall chain hchain)

theorem shape_failureDiagnostic (chain : UnverifiedCertificateChain)
    (reason reason' : PolicyFailureReason) :
    (failureDiagnostic chain reason).shape = (failureDiagnostic chain reason').shape := by
  unfold failureDiagnostic
  split <;> rfl

theorem eventOf_same {policy policy' : ValidationPolicy}
    (haccepts : ∀ chain, policy.Accepts chain ↔ policy'.Accepts chain) {item item' : SearchItem}
    (h : SameItem item item') : (eventOf policy item).shape = (eventOf policy' item').shape := by
  cases h with
  | emit heq => exact heq
  | evaluate chain =>
    have hchain := haccepts chain
    unfold ValidationPolicy.Accepts at hchain
    cases hpolicy : policy.chainMeetsPolicyRequirements chain with
    | ok _ => simp only [eventOf, hpolicy, hchain.mp hpolicy]
    | error reason =>
      cases hpolicy' : policy'.chainMeetsPolicyRequirements chain with
      | ok _ => simp [hpolicy, hpolicy'] at hchain
      | error reason' =>
        simp only [eventOf, hpolicy, hpolicy']
        exact shape_failureDiagnostic chain reason reason'

theorem eventsOf_same {policy policy' : ValidationPolicy}
    (haccepts : ∀ chain, policy.Accepts chain ↔ policy'.Accepts chain)
    {items items' : List SearchItem} (h : List.Forall₂ SameItem items items') :
    (eventsOf policy items).map VerificationDiagnostic.shape =
      (eventsOf policy' items').map VerificationDiagnostic.shape := by
  induction h with
  | nil => rfl
  | cons hitem _ ih => exact congrArg₂ List.cons (eventOf_same haccepts hitem) ih

/-- A result without the reasons for its failures. -/
def withoutReasons (result : ChainValidationResult) :
    Except (List UnverifiedCertificateChain) ValidatedCertificateChain :=
  result.mapError (List.map PolicyFailure.chain)

/-- What can be observed of a run. -/
theorem Run.observed {result : ChainValidationResult}
    {evaluated : List UnverifiedCertificateChain} {events : List VerificationDiagnostic}
    (h : Run v leaf intermediates result evaluated events) :
    v.validate leaf intermediates = result ∧ v.handedToPolicy leaf intermediates = evaluated ∧
      v.emitted leaf intermediates = events := by
  refine ⟨?_, ?_, ?_⟩
  · rw [Validator.validate, Exit.outcome_of_eq (h.validateInner_eq none ())]
  · rw [Validator.handedToPolicy, Exit.outcome_of_eq (h.validateInner_eq none ())]
  · rw [Validator.emitted, Validator.validateWithDiagnostics,
      Exit.outcome_of_eq (h.validateInner_eq (some fun log event => log ++ [event]) [])]
    exact foldl_record [] events

/-- A run of one validator is matched by a run of the other. -/
theorem Run.transfer (h : Agree v v' leaf intermediates intermediates')
    {result : ChainValidationResult} {evaluated : List UnverifiedCertificateChain}
    {events : List VerificationDiagnostic}
    (hrun : Run v leaf intermediates result evaluated events) :
    ∃ result' events', Run v' leaf intermediates' result' evaluated events' ∧
      withoutReasons result = withoutReasons result' ∧
      events.map VerificationDiagnostic.shape = events'.map VerificationDiagnostic.shape := by
  have hplan := h.plan_same
  cases hrun with
  | unhandled hleaf =>
    rw [h.hasUnhandled_eq] at hleaf
    exact ⟨_, _, .unhandled hleaf, rfl, rfl⟩
  | accepted pre chain post hleaf heq hpre hchain =>
    rw [h.hasUnhandled_eq] at hleaf
    rw [heq] at hplan
    obtain ⟨pre', item, post', heq', hsame, hitem⟩ := exists_of_forall₂_append_cons hplan
    cases hitem
    rw [chainsOf_same hsame]
    refine ⟨_, _, .accepted pre' chain post' hleaf heq' (allRejected_same h.accepts hsame hpre)
      ((h.accepts chain).mp hchain), rfl, ?_⟩
    rw [List.map_append, List.map_append, eventsOf_same h.accepts hsame]
  | exhausted hleaf hall =>
    rw [h.hasUnhandled_eq] at hleaf
    have hall' := allRejected_same h.accepts hplan hall
    have hfailures : (failuresOf v.policy (chainsOf (plan v leaf intermediates))).map
        PolicyFailure.chain = (failuresOf v'.policy (chainsOf (plan v' leaf intermediates'))).map
        PolicyFailure.chain := by
      rw [failuresOf_all_rejected hall, failuresOf_all_rejected hall', chainsOf_same hplan]
    rw [chainsOf_same hplan] at hfailures ⊢
    refine ⟨_, _, .exhausted hleaf hall', congrArg Except.error hfailures, ?_⟩
    rw [List.map_append, List.map_append, eventsOf_same h.accepts hplan]

/-- With the same policy, a run of one validator is a run of the other. -/
theorem Run.transfer_of_policy_eq (h : Agree v v' leaf intermediates intermediates')
    (hpolicy : v.policy = v'.policy) {result : ChainValidationResult}
    {evaluated : List UnverifiedCertificateChain} {events : List VerificationDiagnostic}
    (hrun : Run v leaf intermediates result evaluated events) :
    Run v' leaf intermediates' result evaluated events := by
  have hplan := h.plan_eq hpolicy
  cases hrun with
  | unhandled hleaf =>
    rw [hpolicy] at hleaf ⊢
    exact .unhandled hleaf
  | accepted pre chain post hleaf heq hpre hchain =>
    rw [hpolicy] at hleaf hpre hchain ⊢
    exact .accepted pre chain post hleaf (hplan.symm.trans heq) hpre hchain
  | exhausted hleaf hall =>
    rw [hpolicy] at hleaf hall ⊢
    rw [hplan] at hall ⊢
    exact .exhausted hleaf hall

theorem Agree.run_alike (h : Agree v v' leaf intermediates intermediates') :
    withoutReasons (v.validate leaf intermediates) =
      withoutReasons (v'.validate leaf intermediates') ∧
    v.handedToPolicy leaf intermediates = v'.handedToPolicy leaf intermediates' ∧
    (v.emitted leaf intermediates).map VerificationDiagnostic.shape =
      (v'.emitted leaf intermediates').map VerificationDiagnostic.shape := by
  obtain ⟨result, evaluated, events, hrun⟩ := exists_run v leaf intermediates
  obtain ⟨hresult, hevaluated, hevents⟩ := hrun.observed
  obtain ⟨result', events', hrun', hsame, hshape⟩ := hrun.transfer h
  obtain ⟨hresult', hevaluated', hevents'⟩ := hrun'.observed
  refine ⟨?_, ?_, ?_⟩
  · rw [hresult, hresult', hsame]
  · rw [hevaluated, hevaluated']
  · rw [hevents, hevents', hshape]

theorem Agree.run_identical (h : Agree v v' leaf intermediates intermediates')
    (hpolicy : v.policy = v'.policy) :
    v.validate leaf intermediates = v'.validate leaf intermediates' ∧
      v.emitted leaf intermediates = v'.emitted leaf intermediates' := by
  obtain ⟨result, evaluated, events, hrun⟩ := exists_run v leaf intermediates
  obtain ⟨hresult, _, hevents⟩ := hrun.observed
  obtain ⟨hresult', _, hevents'⟩ := (hrun.transfer_of_policy_eq h hpolicy).observed
  exact ⟨hresult.trans hresult'.symm, hevents.trans hevents'.symm⟩

/-! ## 1. Validators that agree -/

/-- Validators that look up the same certificates, verify the same signatures,
list the same extensions and accept the same chains run alike: the same chain is
accepted, or the same chains fail in the same order, the same chains are handed
to the policy, and the events are the same up to the texts of the policies. If
the policy is the same, so are the texts. -/
theorem agreeing_validators_run_alike (v v' : Validator) (leaf : Certificate)
    (intermediates intermediates' : CertificateStore)
    (h : Agree v v' leaf intermediates intermediates') :
    withoutReasons (v.validate leaf intermediates) =
      withoutReasons (v'.validate leaf intermediates') ∧
    v.handedToPolicy leaf intermediates = v'.handedToPolicy leaf intermediates' ∧
    (v.emitted leaf intermediates).map VerificationDiagnostic.shape =
      (v'.emitted leaf intermediates').map VerificationDiagnostic.shape ∧
    (v.policy = v'.policy →
      v.validate leaf intermediates = v'.validate leaf intermediates' ∧
      v.emitted leaf intermediates = v'.emitted leaf intermediates') := by
  obtain ⟨hresult, hhanded, hevents⟩ := h.run_alike
  exact ⟨hresult, hhanded, hevents, h.run_identical⟩

namespace SamplePki

def otherRoot : Certificate := certificate "other" "other" "key4" "key4"

/-- The same requirement as `longChainPolicy`, with other texts. -/
def renamedPolicy : ValidationPolicy where
  verifyingCriticalExtensions := [oidX509ExtBasicConstraints, oidX509ExtBasicConstraints]
  chainMeetsPolicyRequirements chain :=
    if chain.len < 4 then .error ⟨"four certificates are needed"⟩ else .ok ()

/-- `crypto` with another error. -/
def renamedCrypto : SignatureVerifier where
  verifySignature _ publicKey _ signature :=
    if publicKey.subjectPublicKey.data == signature then .ok ()
    else .error (.invalidKey "other key")

theorem agree_renamed :
    Agree ⟨.fromIter [root, otherRoot], crypto, longChainPolicy⟩
      ⟨.fromIter [otherRoot, root], renamedCrypto, renamedPolicy⟩ endEntity caStore caStore where
  roots key := by
    rw [CertificateStore.findBySubject_fromIter, CertificateStore.findBySubject_fromIter]
    by_cases hkey : root.subjectKey = key
    · have hother : otherRoot.subjectKey ≠ root.subjectKey := by decide +kernel
      rw [hkey] at hother
      simp [hkey, hother]
    · simp [List.filter_cons, hkey]
  issuers _ := rfl
  signed subject issuer _ := by
    rw [Bool.eq_iff_iff, signedBy_iff, signedBy_iff]
    simp [crypto, renamedCrypto]
  listed oid := by simp [longChainPolicy, renamedPolicy]
  accepts chain := by
    simp only [ValidationPolicy.Accepts, longChainPolicy, renamedPolicy]
    by_cases hlen : 4 ≤ chain.len
    · rw [if_pos hlen, if_neg (Nat.not_lt.mpr hlen)]
    · rw [if_neg hlen, if_pos (Nat.lt_of_not_ge hlen)]
      simp

end SamplePki

/-- Another bucket first in the root store, another error and another text. -/
theorem agreeing_validators_run_alike_renamed :
    withoutReasons (Validator.validate
        ⟨.fromIter [SamplePki.root, SamplePki.otherRoot], SamplePki.crypto,
          SamplePki.longChainPolicy⟩ SamplePki.endEntity SamplePki.caStore) =
      withoutReasons (Validator.validate
        ⟨.fromIter [SamplePki.otherRoot, SamplePki.root], SamplePki.renamedCrypto,
          SamplePki.renamedPolicy⟩ SamplePki.endEntity SamplePki.caStore) :=
  (agreeing_validators_run_alike _ _ SamplePki.endEntity _ _ SamplePki.agree_renamed).1

/-! ## 2. Looser validators -/

/-- Whatever the first validator affirms in a run for this leaf, the second one
affirms, too. -/
structure Looser (v v' : Validator) (leaf : Certificate)
    (intermediates intermediates' : CertificateStore) : Prop where
  roots : ∀ c ∈ v.rootCertificates, c ∈ v'.rootCertificates
  issuers : ∀ c ∈ intermediates, c ∈ intermediates'
  signed : ∀ subject issuer, Asks v.rootCertificates leaf intermediates subject issuer →
    signedBy v.crypto subject issuer = true → signedBy v'.crypto subject issuer = true
  listed : ∀ oid ∈ v.policy.verifyingCriticalExtensions,
    oid ∈ v'.policy.verifyingCriticalExtensions
  accepts : ∀ chain, v.policy.Accepts chain → v'.policy.Accepts chain

theorem Looser.anchored (h : Looser v v' leaf intermediates intermediates')
    {certs : List Certificate} (hanchored : Anchored v leaf intermediates certs) :
    Anchored v' leaf intermediates' certs := by
  cases hanchored with
  | direct hroot => exact .direct (h.roots leaf hroot)
  | through middle root hmiddle hroot =>
    exact .through middle root (fun c hc => h.issuers c (hmiddle c hc)) (h.roots root hroot)

/-- A run for the leaf can check the signatures of every path from it to a root. -/
theorem Anchored.asks {certs : List Certificate} (h : Anchored v leaf intermediates certs)
    (hissued : certs.IsChain (Issued v.crypto)) :
    certs.IsChain fun subject issuer =>
      Asks v.rootCertificates leaf intermediates subject issuer ∧
        Issued v.crypto subject issuer := by
  cases h with
  | direct _ => exact List.isChain_singleton leaf
  | through middle root hmiddle hroot =>
    have hbelow : ∀ subject, subject = leaf ∨ subject ∈ intermediates →
        (subject :: middle ++ [root]).IsChain (Issued v.crypto) →
        (subject :: middle ++ [root]).IsChain fun subject issuer =>
          Asks v.rootCertificates leaf intermediates subject issuer ∧
            Issued v.crypto subject issuer := by
      clear hissued
      induction middle with
      | nil =>
        intro subject hsubject hissued
        have hroot' := List.isChain_pair.mp hissued
        exact List.isChain_pair.mpr ⟨⟨hsubject, .inl hroot, hroot'.1⟩, hroot'⟩
      | cons c middle ih =>
        intro subject hsubject hissued
        obtain ⟨hc, hissued⟩ := List.isChain_cons_cons.mp hissued
        have hmem : c ∈ intermediates := hmiddle c List.mem_cons_self
        exact List.isChain_cons_cons.mpr ⟨⟨⟨hsubject, .inr hmem, hc.1⟩, hc⟩,
          ih (fun c' hc' => hmiddle c' (List.mem_cons_of_mem c hc')) c (.inr hmem) hissued⟩
    exact hbelow leaf (.inl rfl) hissued

theorem Looser.linkedPath (h : Looser v v' leaf intermediates intermediates')
    {certs : List Certificate} (hanchored : Anchored v leaf intermediates certs)
    (hlinked : LinkedPath v certs) : LinkedPath v' certs where
  issued := (hanchored.asks hlinked.issued).imp fun subject issuer hasked =>
    ⟨hasked.2.1,
      signedBy_iff.mp (h.signed subject issuer hasked.1 (signedBy_iff.mpr hasked.2.2))⟩
  distinct := hlinked.distinct
  handled c hc ext hext hcritical := h.listed ext.oid (hlinked.handled c hc ext hext hcritical)

theorem Looser.handled (h : Looser v v' leaf intermediates intermediates')
    (hleaf : hasUnhandledCriticalExtensions leaf v.policy = false) :
    hasUnhandledCriticalExtensions leaf v'.policy = false := by
  rw [hasUnhandledCriticalExtensions_eq_false] at hleaf ⊢
  exact fun ext hext hcritical => h.listed ext.oid (hleaf ext hext hcritical)

/-- A failing run has tried the whole enumeration. -/
theorem all_rejected_of_validate_eq_error {failures : List PolicyFailure}
    (hleaf : hasUnhandledCriticalExtensions leaf v.policy = false)
    (hresult : v.validate leaf intermediates = .error failures) :
    (∀ chain ∈ enumerateFrom v leaf intermediates, ¬ v.policy.Accepts chain) ∧
      failures = failuresOf v.policy (enumerateFrom v leaf intermediates) := by
  rw [validate_eq intermediates hleaf] at hresult
  unfold firstAccepted at hresult
  split at hresult
  · cases hresult
  · next hnone =>
    cases hresult
    exact ⟨by simpa [List.find?_eq_none] using hnone, rfl⟩

theorem validate_of_all_rejected
    (hleaf : hasUnhandledCriticalExtensions leaf v.policy = false)
    (hall : ∀ chain ∈ enumerateFrom v leaf intermediates, ¬ v.policy.Accepts chain) :
    v.validate leaf intermediates =
      .error (failuresOf v.policy (enumerateFrom v leaf intermediates)) :=
  (validate_eq intermediates hleaf).trans (firstAccepted_all_rejected hall)

/-- The failures of a run are the chains of the enumeration. -/
theorem map_chain_of_validate_eq_error {failures : List PolicyFailure}
    (hleaf : hasUnhandledCriticalExtensions leaf v.policy = false)
    (hresult : v.validate leaf intermediates = .error failures) :
    failures.map PolicyFailure.chain = enumerateFrom v leaf intermediates := by
  obtain ⟨hall, rfl⟩ := all_rejected_of_validate_eq_error hleaf hresult
  exact failuresOf_all_rejected hall

theorem Looser.mem_enumerateFrom (h : Looser v v' leaf intermediates intermediates')
    (hleaf : hasUnhandledCriticalExtensions leaf v.policy = false)
    {chain : UnverifiedCertificateChain} (hchain : chain ∈ enumerateFrom v leaf intermediates) :
    chain ∈ enumerateFrom v' leaf intermediates' := by
  obtain ⟨hanchored, hlinked⟩ := anchored_of_mem_enumerateFrom hleaf hchain
  exact mem_enumerateFrom_of_anchored (h.anchored hanchored) (h.linkedPath hanchored hlinked)

theorem Looser.exists_ok (h : Looser v v' leaf intermediates intermediates')
    {chain : ValidatedCertificateChain} (hchain : v.validate leaf intermediates = .ok chain) :
    ∃ chain', v'.validate leaf intermediates' = .ok chain' := by
  obtain ⟨hanchored, hlinked, haccepts⟩ := anchored_of_validate_eq_ok hchain
  exact validate_ok_of_anchored ⟨chain.certificates, chain.nonempty⟩ (h.anchored hanchored)
    (h.linkedPath hanchored hlinked) (h.accepts _ haccepts)

/-- A leaf that a validator accepts is accepted by every looser one. And if the
looser one fails, so does the other; where the latter handles the critical
extensions of the leaf, for chains that are among those the looser one reports. -/
theorem looser_validator_accepts_more (v v' : Validator) (leaf : Certificate)
    (intermediates intermediates' : CertificateStore)
    (h : Looser v v' leaf intermediates intermediates') :
    (∀ chain, v.validate leaf intermediates = .ok chain →
      ∃ chain', v'.validate leaf intermediates' = .ok chain') ∧
    (∀ failures', v'.validate leaf intermediates' = .error failures' →
      ∃ failures, v.validate leaf intermediates = .error failures ∧
        (hasUnhandledCriticalExtensions leaf v.policy = false →
          ∀ failure ∈ failures, ∃ failure' ∈ failures', failure'.chain = failure.chain)) := by
  refine ⟨fun _ hchain => h.exists_ok hchain, fun failures' hfailures' => ?_⟩
  cases hresult : v.validate leaf intermediates with
  | ok chain =>
    obtain ⟨chain', hchain'⟩ := h.exists_ok hresult
    rw [hfailures'] at hchain'
    cases hchain'
  | error failures =>
    refine ⟨failures, rfl, fun hleaf failure hfailure => ?_⟩
    have hmem : failure.chain ∈ enumerateFrom v' leaf intermediates' :=
      h.mem_enumerateFrom hleaf
        (map_chain_of_validate_eq_error hleaf hresult ▸ List.mem_map_of_mem hfailure)
    rw [← map_chain_of_validate_eq_error (h.handled hleaf) hfailures', List.mem_map] at hmem
    exact hmem

/-- `Provider` of the fuzzing crate: every signature verifies. -/
def fuzzingProvider : SignatureVerifier where
  verifySignature _ _ _ _ := .ok ()

/-- A fuzzed run accepts what a run with a real verifier accepts. -/
theorem looser_validator_accepts_more_fuzzed :
    ∃ chain, Validator.validate ⟨.fromIter [SamplePki.otherRoot, SamplePki.root], fuzzingProvider,
      SamplePki.longChainPolicy⟩ SamplePki.endEntity SamplePki.caStore = .ok chain := by
  have hlooser : Looser SamplePki.validator ⟨.fromIter [SamplePki.otherRoot, SamplePki.root],
      fuzzingProvider, SamplePki.longChainPolicy⟩ SamplePki.endEntity SamplePki.caStore
      SamplePki.caStore :=
    { roots := by decide +kernel
      issuers := fun _ hc => hc
      signed := fun _ _ _ _ => rfl
      listed := fun _ hoid => hoid
      accepts := fun _ haccepts => haccepts }
  have hok : SamplePki.validator.validate SamplePki.endEntity SamplePki.caStore =
      .ok ⟨SamplePki.longChain.certificates, SamplePki.longChain.nonempty⟩ := by
    decide +kernel
  exact (looser_validator_accepts_more _ _ SamplePki.endEntity _ _ hlooser).1 _ hok

end X509Validator
