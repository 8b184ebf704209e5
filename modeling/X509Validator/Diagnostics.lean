import X509Validator.Enumeration
import X509Validator.Lib.Obligations

/-!
# Diagnostics are faithful

The callback of `validate_with_diagnostics` sees the events of the run one after
the other and has no influence on it, so the events are a property of the run
alone (`emitted`). They agree with the result, and they account for every
candidate: a candidate that is announced for a partial chain is an obligation,
which the skip event, the policy outcome or the search of the extended chain
closes.

Results:
1. `diagnostics_faithful`: the callback is only an observer, the last event and
   the failure events give the result, and every announced candidate has exactly
   one outcome unless an accepted chain ends the run first.
-/

namespace X509Validator

open StackSearch Obligations

variable {v : Validator} {leaf : Certificate} {intermediates : CertificateStore}

/-! ## Events that give the result -/

/-- What a callback that records its events has recorded after a run. -/
def Validator.emitted (v : Validator) (leaf : Certificate) (intermediates : CertificateStore) :
    List VerificationDiagnostic :=
  (v.validateWithDiagnostics leaf intermediates (fun log event => log ++ [event]) []).2

theorem foldl_record (log events : List VerificationDiagnostic) :
    events.foldl (fun log event => log ++ [event]) log = log ++ events := by
  induction events generalizing log with
  | nil => simp
  | cons event events ih => simp [ih]

/-- The chain and the reason of an event that reports a policy failure. -/
def VerificationDiagnostic.policyFailure? :
    VerificationDiagnostic → Option (List Certificate × PolicyFailureReason)
  | .leafCertificateIsInTheRootStoreButDoesNotMeetPolicy leaf reason => some ([leaf], reason)
  | .chainFailsToMeetPolicy chain reason => some (chain, reason)
  | _ => none

/-- The event reports an accepted chain. -/
def VerificationDiagnostic.IsFoundValid : VerificationDiagnostic → Prop
  | .foundValidCertificateChain _ => True
  | _ => False

/-- Neither a policy failure nor an accepted chain: an event of the search. -/
def VerificationDiagnostic.IsProgress (event : VerificationDiagnostic) : Prop :=
  event.policyFailure? = none ∧ ¬ event.IsFoundValid

theorem policyFailure?_failureDiagnostic (chain : UnverifiedCertificateChain)
    (reason : PolicyFailureReason) :
    (failureDiagnostic chain reason).policyFailure? = some (chain.certificates, reason) := by
  unfold failureDiagnostic
  split
  · next h => simp [VerificationDiagnostic.policyFailure?, h]
  · rfl

theorem not_isFoundValid_failureDiagnostic (chain : UnverifiedCertificateChain)
    (reason : PolicyFailureReason) : ¬ (failureDiagnostic chain reason).IsFoundValid := by
  unfold failureDiagnostic
  split <;> exact not_false

theorem isProgress_skipDiagnostic {partialChain : List Certificate} {c : Certificate}
    {event : VerificationDiagnostic} (h : skipDiagnostic v partialChain c = some event) :
    event.IsProgress := by
  unfold skipDiagnostic at h
  split at h
  · cases h
    exact ⟨rfl, not_false⟩
  split at h
  · cases h
    exact ⟨rfl, not_false⟩
  split at h
  · cases h
  · cases h
    exact ⟨rfl, not_false⟩

theorem isProgress_of_mem_visit {partialChain : List Certificate} {event : VerificationDiagnostic}
    (h : SearchItem.emit event ∈ visit v intermediates partialChain) : event.IsProgress := by
  have hannounce : ∀ {found : List Certificate → VerificationDiagnostic} {cs},
      (∀ cs, (found cs).IsProgress) → SearchItem.emit event ∈ announce found cs →
      event.IsProgress := by
    intro found cs hfound hmem
    unfold announce at hmem
    split at hmem
    · exact absurd hmem List.not_mem_nil
    · cases List.mem_singleton.mp hmem
      exact hfound cs
  simp only [visit, List.mem_cons, List.mem_append, List.mem_map, List.mem_filterMap] at h
  rcases h with h | ((h | ⟨c, _, h⟩) | h) | ⟨event', ⟨c, _, hskip⟩, h⟩
  · cases h
    exact ⟨rfl, not_false⟩
  · refine hannounce ?_ h
    exact fun _ => ⟨rfl, not_false⟩
  · unfold rootItem at h
    split at h
    · next hskip =>
      cases h
      exact isProgress_skipDiagnostic hskip
    · cases h
  · refine hannounce ?_ h
    exact fun _ => ⟨rfl, not_false⟩
  · cases h
    exact isProgress_skipDiagnostic hskip

/-- A plan emits search events only; the rest comes from evaluating chains. -/
theorem isProgress_of_mem_plan {event : VerificationDiagnostic}
    (h : SearchItem.emit event ∈ plan v leaf intermediates) : event.IsProgress := by
  rcases List.mem_append.mp h with h | h
  · unfold leafItems at h
    split at h
    · cases List.mem_singleton.mp h
    · exact absurd h List.not_mem_nil
  · refine (chainTree v intermediates).forall_mem_preorder (P := fun _ => True)
      (Q := fun item => ∀ event, item = .emit event → event.IsProgress)
      (fun _ _ _ _ => trivial) ?_ trivial _ h event rfl
    rintro partialChain - _ hmem event rfl
    exact isProgress_of_mem_visit hmem

section Passes

variable {items : List SearchItem} (hitems : ∀ event, .emit event ∈ items → event.IsProgress)
  (hrejected : AllRejected v.policy items)

include hitems hrejected

/-- The failure events of a pass list its failures. -/
theorem filterMap_eventsOf :
    (eventsOf v.policy items).filterMap VerificationDiagnostic.policyFailure? =
      (failuresOf v.policy (chainsOf items)).map fun failure =>
        (failure.chain.certificates, failure.policyFailureReason) := by
  induction items with
  | nil => rfl
  | cons item items ih =>
    have ih := ih (fun event h => hitems event (List.mem_cons_of_mem _ h))
      (allRejected_cons hrejected)
    cases item with
    | emit event =>
      have hevent : (eventOf v.policy (.emit event)).policyFailure? = none :=
        (hitems event List.mem_cons_self).1
      rw [eventsOf, List.map_cons, List.filterMap_cons_none hevent]
      exact ih
    | evaluate chain =>
      have hchain : ¬ v.policy.Accepts chain := hrejected chain List.mem_cons_self
      unfold ValidationPolicy.Accepts at hchain
      cases hpolicy : v.policy.chainMeetsPolicyRequirements chain with
      | ok _ => exact absurd hpolicy hchain
      | error reason =>
        have hevent : (eventOf v.policy (.evaluate chain)).policyFailure? =
            some (chain.certificates, reason) := by
          simp only [eventOf, hpolicy]
          exact policyFailure?_failureDiagnostic chain reason
        have hfailures : failuresOf v.policy (chainsOf (.evaluate chain :: items)) =
            ⟨chain, reason⟩ :: failuresOf v.policy (chainsOf items) :=
          List.filterMap_cons_some (by simp [hpolicy])
        rw [eventsOf, List.map_cons, List.filterMap_cons_some hevent, hfailures, List.map_cons]
        exact congrArg _ ih

theorem not_isFoundValid_of_mem_eventsOf :
    ∀ event ∈ eventsOf v.policy items, ¬ event.IsFoundValid := by
  intro event hevent
  obtain ⟨item, hitem, rfl⟩ := List.mem_map.mp hevent
  cases item with
  | emit event => exact (hitems event hitem).2
  | evaluate chain =>
    have hchain : ¬ v.policy.Accepts chain :=
      hrejected chain (List.mem_filterMap.mpr ⟨_, hitem, rfl⟩)
    unfold ValidationPolicy.Accepts at hchain
    cases hpolicy : v.policy.chainMeetsPolicyRequirements chain with
    | ok _ => exact absurd hpolicy hchain
    | error reason =>
      simp only [eventOf, hpolicy]
      exact not_isFoundValid_failureDiagnostic chain reason

end Passes

/-! ## Announced candidates and their outcomes -/

inductive StoreKind
  | root
  | intermediate
deriving DecidableEq

/-- A candidate that was announced for a partial chain. -/
structure AnnouncedCandidate where
  store : StoreKind
  partialChain : List Certificate
  candidate : Certificate
deriving DecidableEq

/-- The candidates that an event announces, with repetitions. -/
def VerificationDiagnostic.announced : VerificationDiagnostic → Multiset AnnouncedCandidate
  | .foundCandidateIssuersOfPartialChainInRootStore partialChain issuers =>
    (issuers.map fun c => ⟨.root, partialChain, c⟩ : List AnnouncedCandidate)
  | .foundCandidateIssuersOfPartialChainInIntermediateStore partialChain issuers =>
    (issuers.map fun c => ⟨.intermediate, partialChain, c⟩ : List AnnouncedCandidate)
  | _ => 0

/-- The event is an outcome for the candidate. Either kind of candidate may be
skipped; a root candidate that is not skipped is judged by the policy, and an
intermediate candidate that is not skipped is searched. -/
inductive IsOutcome : VerificationDiagnostic → AnnouncedCandidate → Prop
  | unhandled {store : StoreKind} {p : List Certificate} {c : Certificate} {oids : List Oid} :
      IsOutcome (.issuerHasUnhandledCriticalExtension c p oids) ⟨store, p, c⟩
  | alreadyInTheChain {store : StoreKind} {p : List Certificate} {c : Certificate} :
      IsOutcome (.issuerIsAlreadyInTheChain p c) ⟨store, p, c⟩
  | hasNotSigned {store : StoreKind} {p : List Certificate} {c : Certificate} :
      IsOutcome (.issuerHasNotSignedCertificate c p) ⟨store, p, c⟩
  | rejected {p : List Certificate} {c : Certificate} {reason : PolicyFailureReason} : p ≠ [] →
      IsOutcome (.chainFailsToMeetPolicy (p ++ [c]) reason) ⟨.root, p, c⟩
  | accepted {p : List Certificate} {c : Certificate} : p ≠ [] →
      IsOutcome (.foundValidCertificateChain (p ++ [c])) ⟨.root, p, c⟩
  | searching {p : List Certificate} {c : Certificate} : p ≠ [] →
      IsOutcome (.searchingForIssuerOfPartialChain (p ++ [c])) ⟨.intermediate, p, c⟩

/-- The events take the candidates that wait for an outcome from the first
multiset to the second. -/
abbrev Accounts := Settles VerificationDiagnostic.announced IsOutcome

theorem isOutcome_skipDiagnostic {partialChain : List Certificate} {c : Certificate}
    {event : VerificationDiagnostic} (h : skipDiagnostic v partialChain c = some event)
    (store : StoreKind) : IsOutcome event ⟨store, partialChain, c⟩ := by
  unfold skipDiagnostic at h
  split at h
  · cases h
    exact .unhandled
  split at h
  · cases h
    exact .alreadyInTheChain
  split at h
  · cases h
  · cases h
    exact .hasNotSigned

theorem isOutcome_rootItem {partialChain : List Certificate} (hne : partialChain ≠ [])
    (c : Certificate) :
    IsOutcome (eventOf v.policy (rootItem v partialChain c)) ⟨.root, partialChain, c⟩ := by
  unfold rootItem
  cases hskip : skipDiagnostic v partialChain c with
  | some event => exact isOutcome_skipDiagnostic hskip .root
  | none =>
    simp only [eventOf]
    split
    · exact .accepted hne
    · rw [failureDiagnostic_complete hne]
      exact .rejected hne

theorem announced_of_isOutcome {event : VerificationDiagnostic} {o : AnnouncedCandidate}
    (h : IsOutcome event o) : event.announced = 0 := by
  cases h <;> rfl

/-- An outcome, where nothing else waits. -/
theorem accounts_outcome {event : VerificationDiagnostic} {o : AnnouncedCandidate}
    {events : List VerificationDiagnostic} {m m' : Multiset AnnouncedCandidate}
    (h : IsOutcome event o) (hrest : Accounts events m m') :
    Accounts (event :: events) (o ::ₘ m) m' := by
  refine .closing h ?_
  rwa [announced_of_isOutcome h, Multiset.zero_add]

theorem eventsOf_append (policy : ValidationPolicy) (items items' : List SearchItem) :
    eventsOf policy (items ++ items') = eventsOf policy items ++ eventsOf policy items' :=
  List.map_append

/-- The root candidates of a partial chain are announced and dealt with. -/
theorem accounts_roots {partialChain : List Certificate} (hne : partialChain ≠ [])
    (cs : List Certificate) :
    Accounts (eventsOf v.policy
      (announce (.foundCandidateIssuersOfPartialChainInRootStore partialChain) cs ++
        cs.map (rootItem v partialChain))) 0 0 := by
  have houtcomes : Accounts (cs.flatMap fun c => [eventOf v.policy (rootItem v partialChain c)])
      (cs.map fun c => ⟨.root, partialChain, c⟩ : List AnnouncedCandidate) 0 :=
    Settles.flatMap fun c _ => accounts_outcome (isOutcome_rootItem hne c) (.nil 0)
  rw [← List.map_eq_flatMap] at houtcomes
  unfold announce
  cases cs with
  | nil => exact .nil 0
  | cons c cs =>
    simp only [List.isEmpty_cons, Bool.false_eq_true, ↓reduceIte, List.singleton_append, eventsOf,
      List.map_cons, List.map_map]
    refine .opening (fun o h => by cases h) ?_
    rw [Multiset.add_zero]
    exact houtcomes

/-- Skipping takes the unusable ones from the candidates that wait. -/
theorem accounts_skips (partialChain cs : List Certificate) (store : StoreKind) :
    Accounts (cs.filterMap (skipDiagnostic v partialChain))
      (cs.map fun c => ⟨store, partialChain, c⟩ : List AnnouncedCandidate)
      ((cs.filter (usable v partialChain)).map fun c => ⟨store, partialChain, c⟩ :
        List AnnouncedCandidate) := by
  induction cs with
  | nil => exact .nil _
  | cons c cs ih =>
    cases hskip : skipDiagnostic v partialChain c with
    | some event =>
      rw [List.filterMap_cons_some hskip, List.filter_cons_of_neg (by simp [usable, hskip])]
      exact accounts_outcome (isOutcome_skipDiagnostic hskip store) ih
    | none =>
      rw [List.filterMap_cons_none hskip, List.filter_cons_of_pos (by simp [usable, hskip])]
      have hframe := ih.frame {⟨store, partialChain, c⟩}
      rw [Multiset.add_comm, Multiset.singleton_add, Multiset.add_comm, Multiset.singleton_add]
        at hframe
      exact hframe

/-- The intermediate candidates of a partial chain are announced, and those that
are skipped are dealt with. -/
theorem accounts_intermediates (partialChain cs : List Certificate) :
    Accounts (eventsOf v.policy
      (announce (.foundCandidateIssuersOfPartialChainInIntermediateStore partialChain) cs ++
        (cs.reverse.filterMap (skipDiagnostic v partialChain)).map .emit)) 0
      ((cs.filter (usable v partialChain)).map fun c => ⟨.intermediate, partialChain, c⟩ :
        List AnnouncedCandidate) := by
  have hskips : Accounts (cs.reverse.filterMap (skipDiagnostic v partialChain))
      (cs.map fun c => ⟨.intermediate, partialChain, c⟩ : List AnnouncedCandidate)
      ((cs.filter (usable v partialChain)).map fun c => ⟨.intermediate, partialChain, c⟩ :
        List AnnouncedCandidate) := by
    have h := accounts_skips (v := v) partialChain cs.reverse .intermediate
    rwa [List.map_reverse, List.filter_reverse, List.map_reverse, Multiset.coe_reverse,
      Multiset.coe_reverse] at h
  have hemit : ∀ ds : List VerificationDiagnostic,
      (ds.map SearchItem.emit).map (eventOf v.policy) = ds := by
    intro ds
    rw [List.map_map]
    exact List.map_id' ds
  unfold announce
  cases cs with
  | nil => exact .nil 0
  | cons c cs =>
    simp only [List.isEmpty_cons, Bool.false_eq_true, ↓reduceIte, List.singleton_append, eventsOf,
      List.map_cons, hemit]
    refine .opening (fun o h => by cases h) ?_
    rw [Multiset.add_zero]
    exact hskips

/-- Everything that is announced below a partial chain is dealt with there, after
the event that its search begins with. -/
theorem accounts_preorder (v : Validator) (intermediates : CertificateStore)
    (partialChain : List Certificate) (hne : partialChain ≠ []) :
    ∃ events, eventsOf v.policy ((chainTree v intermediates).preorder partialChain) =
      .searchingForIssuerOfPartialChain partialChain :: events ∧ Accounts events 0 0 := by
  induction partialChain using (chainTree v intermediates).induction with
  | step partialChain ih =>
    have hchildren : Accounts
        ((extensions v intermediates partialChain).flatMap fun next =>
          eventsOf v.policy ((chainTree v intermediates).preorder next))
        (((candidates intermediates partialChain).filter (usable v partialChain)).map
          fun c => ⟨.intermediate, partialChain, c⟩ : List AnnouncedCandidate) 0 := by
      rw [extensions, List.flatMap_map]
      refine Settles.flatMap fun c hc => ?_
      obtain ⟨events, heq, haccounts⟩ :=
        ih (partialChain ++ [c]) (List.mem_map_of_mem hc) (by simp)
      rw [heq]
      exact accounts_outcome (.searching hne) haccounts
    have heq : eventsOf v.policy ((chainTree v intermediates).preorder partialChain) =
        .searchingForIssuerOfPartialChain partialChain ::
          (eventsOf v.policy (announce
              (.foundCandidateIssuersOfPartialChainInRootStore partialChain)
              (candidates v.rootCertificates partialChain) ++
            (candidates v.rootCertificates partialChain).map (rootItem v partialChain)) ++
          (eventsOf v.policy (announce
              (.foundCandidateIssuersOfPartialChainInIntermediateStore partialChain)
              (candidates intermediates partialChain) ++
            ((candidates intermediates partialChain).reverse.filterMap
              (skipDiagnostic v partialChain)).map .emit) ++
          (extensions v intermediates partialChain).flatMap fun next =>
            eventsOf v.policy ((chainTree v intermediates).preorder next))) := by
      rw [SearchTree.preorder_eq]
      simp [chainTree, visit, eventsOf, eventOf, List.map_flatMap]
    exact ⟨_, heq, (accounts_roots hne _).append
      ((accounts_intermediates partialChain _).append hchildren)⟩

/-- The events of a whole plan leave no candidate without an outcome. -/
theorem accounts_plan (v : Validator) (leaf : Certificate) (intermediates : CertificateStore) :
    Accounts (eventsOf v.policy (plan v leaf intermediates)) 0 0 := by
  have hsingleton : ∀ {p : List Certificate} {c : Certificate}, p ≠ [] → p ++ [c] ≠ [leaf] := by
    intro p c hp heq
    cases p with
    | nil => exact hp rfl
    | cons c p => simp at heq
  have hleafItems : Accounts (eventsOf v.policy (leafItems v leaf)) 0 0 := by
    unfold leafItems
    split
    · refine .neutral (fun o h => ?_) ?_ (.nil 0)
      · simp only [eventOf] at h
        split at h
        · generalize hcerts : [leaf] = certs at h
          cases h with
          | accepted hp => exact hsingleton hp hcerts.symm
        · cases h
      · simp only [eventOf]
        split <;> rfl
    · exact .nil 0
  obtain ⟨events, heq, haccounts⟩ := accounts_preorder v intermediates [leaf] (by simp)
  rw [plan, eventsOf_append, heq]
  refine hleafItems.append (.neutral (fun o h => ?_) rfl haccounts)
  generalize hcerts : [leaf] = certs at h
  cases h with
  | searching hp => exact hsingleton hp hcerts.symm

/-! ## Events of a run that ends early -/

section

variable {pre post : List SearchItem} {chain : UnverifiedCertificateChain}

theorem not_isFoundValid_of_plan
    (hplan : plan v leaf intermediates = pre ++ .evaluate chain :: post)
    (hpre : AllRejected v.policy pre) : ∀ event ∈ eventsOf v.policy pre, ¬ event.IsFoundValid := by
  refine not_isFoundValid_of_mem_eventsOf (fun event hevent => ?_) hpre
  have hmem : SearchItem.emit event ∈ plan v leaf intermediates := by
    rw [hplan]
    exact List.mem_append_left _ hevent
  exact isProgress_of_mem_plan hmem

/-- The events up to an accepted chain are an initial part of those of the plan. -/
theorem accounts_accepted (hplan : plan v leaf intermediates = pre ++ .evaluate chain :: post)
    (hchain : v.policy.Accepts chain) :
    ∃ waiting, Accounts
      (eventsOf v.policy pre ++ [.foundValidCertificateChain chain.certificates]) 0 waiting := by
  have hall := accounts_plan v leaf intermediates
  have hvalid : eventOf v.policy (.evaluate chain) =
      .foundValidCertificateChain chain.certificates := by
    rw [ValidationPolicy.Accepts] at hchain
    simp only [eventOf, hchain]
  rw [hplan, List.append_cons, eventsOf_append, eventsOf_append] at hall
  rw [← hvalid]
  exact hall.of_append

end

/-! ## 1. Diagnostics are faithful -/

/-- Diagnostics are faithful and observational only. Under any callback the
result is that of `validate`, and the callback sees the emitted events in order.
If a chain is accepted, the last event reports it and no other event reports an
accepted chain. If the search is exhausted, the last event says so, and the
events about policy failures are the failures returned. Every candidate that is
announced has one outcome after it, and every outcome belongs to one candidate
announced before; only when an accepted chain ends the run may candidates be
left without one. -/
theorem diagnostics_faithful (v : Validator) (leaf : Certificate)
    (intermediates : CertificateStore) :
    (∀ (σ : Type) (callback : σ → VerificationDiagnostic → σ) (sink : σ),
      v.validateWithDiagnostics leaf intermediates callback sink =
        (v.validate leaf intermediates, (v.emitted leaf intermediates).foldl callback sink)) ∧
    (∀ chain, v.validate leaf intermediates = .ok chain →
      (∃ events, v.emitted leaf intermediates =
          events ++ [.foundValidCertificateChain chain.certificates] ∧
        ∀ event ∈ events, ¬ event.IsFoundValid) ∧
      ∃ waiting, Accounts (v.emitted leaf intermediates) 0 waiting) ∧
    (∀ failures, v.validate leaf intermediates = .error failures →
      hasUnhandledCriticalExtensions leaf v.policy = false →
      (∃ events, v.emitted leaf intermediates =
        events ++ [.couldNotValidateLeafCertificate leaf]) ∧
      (v.emitted leaf intermediates).filterMap VerificationDiagnostic.policyFailure? =
        failures.map (fun failure => (failure.chain.certificates, failure.policyFailureReason)) ∧
      Accounts (v.emitted leaf intermediates) 0 0) := by
  obtain ⟨result, evaluated, events, hrun, hresult, _, hobserved⟩ :=
    validate_run v leaf intermediates
  have hemitted : v.emitted leaf intermediates = events := by
    rw [Validator.emitted, hobserved]
    exact foldl_record [] events
  rw [hemitted, hresult]
  refine ⟨hobserved, fun chain h => ?_, fun failures h hleaf => ?_⟩
  · cases hrun with
    | unhandled _ => cases h
    | exhausted _ _ => cases h
    | accepted pre chain post _ hplan hpre hchain =>
      cases h
      exact ⟨⟨_, rfl, not_isFoundValid_of_plan hplan hpre⟩, accounts_accepted hplan hchain⟩
  · cases hrun with
    | unhandled hunhandled => exact absurd hunhandled (by simp [hleaf])
    | accepted _ _ _ _ _ _ _ => cases h
    | exhausted _ hall =>
      cases h
      refine ⟨⟨_, rfl⟩, ?_, ?_⟩
      · rw [List.filterMap_append, filterMap_eventsOf (fun event => isProgress_of_mem_plan) hall]
        simp [VerificationDiagnostic.policyFailure?]
      · refine (accounts_plan v leaf intermediates).append ?_
        exact .neutral (fun o h => by cases h) rfl (.nil 0)

/-- The small PKI with its root, and without it. -/
theorem diagnostics_faithful_cross_signed :
    (∃ events, SamplePki.validator.emitted SamplePki.endEntity SamplePki.caStore =
        events ++ [.foundValidCertificateChain SamplePki.longChain.certificates] ∧
      ∀ event ∈ events, ¬ event.IsFoundValid) ∧
    Accounts (Validator.emitted { SamplePki.validator with rootCertificates := .new }
      SamplePki.endEntity SamplePki.caStore) 0 0 := by
  refine ⟨((diagnostics_faithful _ _ _).2.1
    ⟨SamplePki.longChain.certificates, SamplePki.longChain.nonempty⟩ ?_).1,
    ((diagnostics_faithful _ _ _).2.2 [] ?_ ?_).2.2⟩
  · decide +kernel
  · decide +kernel
  · decide

end X509Validator
