import X509Validator.Multiplicity
import X509Validator.Lib.TreeSize
import X509Validator.Rfc5280.PathValidation

/-!
# How long a search may take

Nothing limits the search but the check that no identity is used twice. With `n`
certificates in the intermediate store there are at most as many partial chains as
there are ways to put some of the `n` one after the other, which is more than `n!`,
and each of them is completed by at most every root. The bound is no
overestimate: `n` certificates for one name and one key, which differ only in their
subject alternative name, reach it for every `n`, and with a leaf that has expired
already.

Results:
1. `search_cost`: the bound for all runs and the runs that reach it.
-/

namespace X509Validator

open StackSearch

variable {v : Validator} {leaf : Certificate} {intermediates : CertificateStore}

/-! ## The contents of a store -/

namespace CertificateStore

variable {store : CertificateStore}

theorem count_certificates (store : CertificateStore) (c : Certificate) :
    store.certificates.count c = store.multiplicity c := by
  rw [multiplicity, findBySubject]
  have hunique : ∀ certs, ∀ entry ∈ store.bySubject.entries, c ∈ entry.2 →
      store.bySubject.lookup c.subjectKey = some certs → entry = ⟨c.subjectKey, certs⟩ := by
    rintro certs ⟨key, certs'⟩ hentry hc hlookup
    have hlookup' : store.bySubject.lookup key = some certs' := AList.mem_lookup_iff.mpr hentry
    obtain rfl := store.keyed key certs' hlookup' c hc
    rw [Option.some.inj (hlookup.symm.trans hlookup')]
  cases hlookup : store.bySubject.lookup c.subjectKey with
  | none =>
    rw [Option.getD_none, List.count_nil, List.count_eq_zero]
    intro hmem
    have hfound := mem_iff_mem_findBySubject.mp hmem
    rw [findBySubject, hlookup] at hfound
    exact absurd hfound List.not_mem_nil
  | some certs =>
    have hentry : (⟨c.subjectKey, certs⟩ : Sigma fun _ : Bytes => List Certificate) ∈
        store.bySubject.entries := AList.mem_lookup_iff.mp hlookup
    rw [Option.getD_some, certificates, count_flatMap_of_unique
      fun entry hmem hc => hunique certs entry hmem hc hlookup,
      List.count_eq_one_of_mem store.bySubject.nodupKeys.nodup hentry, Nat.one_mul]

/-- A store holds what it was filled with. -/
theorem certificates_fromIter_perm (certs : List Certificate) :
    (fromIter certs).certificates.Perm certs := by
  rw [List.perm_iff_count]
  intro c
  rw [count_certificates, multiplicity_fromIter]

theorem findBySubject_sublist (store : CertificateStore) (key : Bytes) :
    (store.findBySubject key).Sublist store.certificates := by
  rw [findBySubject]
  cases hlookup : store.bySubject.lookup key with
  | none => exact List.nil_sublist _
  | some certs =>
    rw [certificates, List.flatMap_def]
    exact List.sublist_flatten_of_mem
      (List.mem_map_of_mem (f := fun entry => entry.2) (AList.mem_lookup_iff.mp hlookup))

end CertificateStore

/-! ## The width of the tree -/

/-- There are at most as many issuers to try as there are unused certificates. -/
theorem length_issuersByKeyId_le (v : Validator) (store : CertificateStore)
    (partialChain : List Certificate) :
    (issuersByKeyId v store partialChain).length ≤ (unused store partialChain).length := by
  cases htip : partialChain.getLast? with
  | none => simp [issuersByKeyId, htip]
  | some tip =>
    have hperm : (candidates store partialChain).Perm (store.findBySubject tip.issuerKey) := by
      rw [candidates, htip]
      exact List.perm_insertionSort _ _
    rw [← filter_candidates, (hperm.filter _).length_eq]
    suffices hsublist : ((store.findBySubject tip.issuerKey).filter
        (usable v partialChain)).Sublist (unused store partialChain) from hsublist.length_le
    refine (List.monotone_filter_right _ fun c husable => ?_).trans
      ((store.findBySubject_sublist tip.issuerKey).filter _)
    rw [Bool.not_eq_true', List.any_eq_false]
    intro existing hexisting
    rw [Certificate.hasSameIdentityAs_iff]
    exact (usable_iff.mp husable).2.1 existing hexisting

theorem length_unused_le (store : CertificateStore) (partialChain : List Certificate) :
    (unused store partialChain).length ≤ store.certificates.length :=
  List.length_filter_le _ _

/-! ## Counting iterations -/

/-- The event with which an iteration of the search begins. -/
def VerificationDiagnostic.isSearching : VerificationDiagnostic → Bool
  | .searchingForIssuerOfPartialChain _ => true
  | _ => false

/-- The number of partial chains that a run takes from its stack. -/
def Validator.iterations (v : Validator) (leaf : Certificate) (intermediates : CertificateStore) :
    Nat :=
  (v.emitted leaf intermediates).countP VerificationDiagnostic.isSearching

/-- The item begins an iteration. -/
def SearchItem.isSearching : SearchItem → Bool
  | .emit diagnostic => diagnostic.isSearching
  | .evaluate _ => false

theorem isSearching_eventOf (policy : ValidationPolicy) (item : SearchItem) :
    (eventOf policy item).isSearching = item.isSearching := by
  cases item with
  | emit _ => rfl
  | evaluate chain =>
    cases hpolicy : policy.chainMeetsPolicyRequirements chain with
    | ok _ =>
      simp only [eventOf, hpolicy]
      rfl
    | error reason =>
      simp only [eventOf, hpolicy, failureDiagnostic]
      split <;> rfl

theorem countP_eventsOf (policy : ValidationPolicy) (items : List SearchItem) :
    (eventsOf policy items).countP VerificationDiagnostic.isSearching =
      items.countP SearchItem.isSearching := by
  rw [eventsOf, List.countP_map]
  exact List.countP_congr fun item _ => by simp [isSearching_eventOf]

theorem isSearching_skipDiagnostic {partialChain : List Certificate} {c : Certificate}
    {diagnostic : VerificationDiagnostic}
    (h : skipDiagnostic v partialChain c = some diagnostic) : diagnostic.isSearching = false := by
  unfold skipDiagnostic at h
  split at h
  · cases h; rfl
  split at h
  · cases h; rfl
  split at h
  · cases h
  · cases h; rfl

/-- An iteration announces itself once. -/
theorem countP_visit (v : Validator) (intermediates : CertificateStore)
    (partialChain : List Certificate) :
    (visit v intermediates partialChain).countP SearchItem.isSearching = 1 := by
  have hannounce : ∀ found cs, (∀ cs, (found cs).isSearching = false) →
      (announce found cs).countP SearchItem.isSearching = 0 := by
    intro found cs hfound
    unfold announce
    split
    · rfl
    · simp [SearchItem.isSearching, hfound]
  have hroots : ∀ cs : List Certificate,
      (cs.map (rootItem v partialChain)).countP SearchItem.isSearching = 0 := by
    intro cs
    rw [List.countP_eq_zero, List.forall_mem_map]
    intro c _
    unfold rootItem
    split
    · next hskip => simp [SearchItem.isSearching, isSearching_skipDiagnostic hskip]
    · exact Bool.false_ne_true
  have hskips : ∀ cs : List Certificate,
      ((cs.filterMap (skipDiagnostic v partialChain)).map SearchItem.emit).countP
        SearchItem.isSearching = 0 := by
    intro cs
    rw [List.countP_eq_zero, List.forall_mem_map]
    intro diagnostic hdiagnostic
    obtain ⟨c, _, hskip⟩ := List.mem_filterMap.mp hdiagnostic
    simp [SearchItem.isSearching, isSearching_skipDiagnostic hskip]
  rw [visit, List.countP_cons_of_pos rfl, List.countP_append, List.countP_append,
    List.countP_append, hannounce _ _ fun _ => rfl, hroots, hannounce _ _ fun _ => rfl, hskips]

theorem countP_plan (v : Validator) (leaf : Certificate) (intermediates : CertificateStore) :
    (plan v leaf intermediates).countP SearchItem.isSearching =
      ((chainTree v intermediates).preorder [leaf]).countP SearchItem.isSearching := by
  have hleaf : (leafItems v leaf).countP SearchItem.isSearching = 0 := by
    unfold leafItems
    split <;> rfl
  rw [plan, List.countP_append, hleaf, Nat.zero_add]

theorem iterations_le (v : Validator) (leaf : Certificate) (intermediates : CertificateStore) :
    v.iterations leaf intermediates ≤
      (plan v leaf intermediates).countP SearchItem.isSearching := by
  obtain ⟨result, evaluated, events, hrun⟩ := exists_run v leaf intermediates
  rw [Validator.iterations, hrun.observed.2.2]
  cases hrun with
  | unhandled _ => exact Nat.zero_le _
  | accepted pre chain post _ hplan _ _ =>
    rw [hplan, List.countP_append, List.countP_append, countP_eventsOf]
    exact Nat.add_le_add_left (Nat.zero_le _) _
  | exhausted _ _ =>
    rw [List.countP_append, countP_eventsOf]
    exact le_refl _

/-- A run that exhausts the search does everything that is planned. -/
theorem cost_of_allRejected (v : Validator) (leaf : Certificate)
    (intermediates : CertificateStore)
    (hleaf : hasUnhandledCriticalExtensions leaf v.policy = false)
    (hall : ∀ chain ∈ enumerateFrom v leaf intermediates, ¬ v.policy.Accepts chain) :
    v.iterations leaf intermediates =
      ((chainTree v intermediates).preorder [leaf]).countP SearchItem.isSearching ∧
    v.handedToPolicy leaf intermediates = enumerateFrom v leaf intermediates := by
  rw [← chainsOf_plan] at hall
  have hrun : Run v leaf intermediates _ _ _ := .exhausted hleaf hall
  refine ⟨?_, ?_⟩
  · rw [Validator.iterations, hrun.observed.2.2, List.countP_append, countP_eventsOf, countP_plan]
    rfl
  · rw [hrun.observed.2.1, chainsOf_plan]

/-! ## Certificates for one name and one key -/

namespace SamplePki

/-- One of many certificates for the same authority and the same key. -/
def crossSigned (i : Nat) : Certificate :=
  { certificate "ca1" "ca1" "key1" "key1" with
    subjectAlternativeName := .ok (some [.registeredId ⟨[i]⟩]) }

/-- `m` of them are roots, apart from the `n` in the intermediate store, and
everything has expired. -/
def crossSignedValidator (n m : Nat) : Validator :=
  ⟨.fromIter ((List.range' n m).map crossSigned), crypto, Rfc5280Policy.new 200⟩

/-- A partial chain through these certificates. -/
def crossSignedPath (used : List Nat) : List Certificate := endEntity :: used.map crossSigned

theorem crossSigned_identity_inj {i j : Nat} :
    (crossSigned i).identity = (crossSigned j).identity ↔ i = j := by
  simp [Certificate.identity, crossSigned, Certificate.subjectAlternativeNames,
    Certificate.publicKey]

theorem signedBy_crossSigned {tip : Certificate} (h : tip.signatureValue.data = bytes "key1")
    (i : Nat) :
    signedBy crypto tip (crossSigned i) = true := by
  show (if bytes "key1" == tip.signatureValue.data then Except.ok ()
    else Except.error CryptoError.verificationFailed).isOk = true
  rw [h, if_pos (beq_self_eq_true _)]
  rfl

theorem crossSignedPath_tip (used : List Nat) :
    ∃ tip, (crossSignedPath used).getLast? = some tip ∧ tip.issuerKey = bytes "ca1" ∧
      ∀ i, signedBy crypto tip (crossSigned i) = true := by
  rcases List.eq_nil_or_concat used with rfl | ⟨init, last, rfl⟩
  · exact ⟨endEntity, rfl, rfl, signedBy_crossSigned rfl⟩
  · refine ⟨crossSigned last, ?_, rfl, signedBy_crossSigned rfl⟩
    rw [crossSignedPath, List.concat_eq_append, List.map_append, List.map_singleton,
      ← List.cons_append, List.getLast?_concat]

theorem fresh_crossSigned {used : List Nat} {i : Nat} :
    (∀ existing ∈ crossSignedPath used, existing.identity ≠ (crossSigned i).identity) ↔
      i ∉ used := by
  have hleaf : endEntity.identity ≠ (crossSigned i).identity := by
    intro h
    exact absurd (congrArg Prod.fst h) (show name "leaf" ≠ name "ca1" by decide +kernel)
  rw [crossSignedPath, List.forall_mem_cons, List.forall_mem_map, and_iff_right hleaf]
  refine ⟨fun h hi => h i hi rfl, fun h j hj hidentity => h ?_⟩
  rwa [← crossSigned_identity_inj.mp hidentity]

theorem usable_crossSigned {v : Validator} (hcrypto : v.crypto = crypto) {used : List Nat}
    {i : Nat} : usable v (crossSignedPath used) (crossSigned i) = true ↔ i ∉ used := by
  obtain ⟨tip, htip, _, hsigned⟩ := crossSignedPath_tip used
  rw [usable_iff, fresh_crossSigned]
  refine ⟨fun h => h.2.1, fun h => ⟨rfl, h, tip, htip, ?_⟩⟩
  rw [hcrypto]
  exact hsigned i

/-- Of a store of these certificates, those are tried that are not used yet. -/
theorem length_issuersByKeyId_crossSigned {v : Validator} (hcrypto : v.crypto = crypto)
    (used indices : List Nat) :
    (issuersByKeyId v (.fromIter (indices.map crossSigned)) (crossSignedPath used)).length =
      indices.countP fun i => i ∉ used := by
  obtain ⟨tip, htip, hissuer, _⟩ := crossSignedPath_tip used
  have hfound : (CertificateStore.fromIter (indices.map crossSigned)).findBySubject
      tip.issuerKey = indices.map crossSigned := by
    rw [CertificateStore.findBySubject_fromIter, List.filter_eq_self, List.forall_mem_map, hissuer]
    intro i _
    exact beq_self_eq_true _
  have hperm : (candidates (.fromIter (indices.map crossSigned)) (crossSignedPath used)).Perm
      (indices.map crossSigned) := by
    rw [candidates, htip]
    show (sortBySuitabilityForIssuing _ tip).Perm _
    rw [hfound]
    exact List.perm_insertionSort _ _
  rw [← filter_candidates, (hperm.filter _).length_eq, ← List.countP_eq_length_filter,
    List.countP_map]
  exact List.countP_congr fun i _ => by simp [usable_crossSigned hcrypto]

theorem length_unused_crossSigned (used indices : List Nat) :
    (unused (.fromIter (indices.map crossSigned)) (crossSignedPath used)).length =
      indices.countP fun i => i ∉ used := by
  rw [unused, ((CertificateStore.certificates_fromIter_perm _).filter _).length_eq,
    ← List.countP_eq_length_filter, List.countP_map]
  refine List.countP_congr fun i _ => ?_
  rw [decide_eq_true_iff, ← fresh_crossSigned, Function.comp_apply, Bool.not_eq_true',
    List.any_eq_false]
  exact forall₂_congr fun existing _ => not_congr Certificate.hasSameIdentityAs_iff

/-- Using one more leaves one fewer. -/
theorem countP_unused_succ {used : List Nat} {n i : Nat} (hi : i < n) (hfresh : i ∉ used) :
    ((List.range n).countP fun j => j ∉ used ++ [i]) + 1 =
      (List.range n).countP fun j => j ∉ used := by
  have hperm := List.perm_cons_erase (List.mem_range.mpr hi)
  rw [hperm.countP_eq, hperm.countP_eq, List.countP_cons_of_neg (by simp),
    List.countP_cons_of_pos (by simpa using hfresh)]
  congr 1
  refine List.countP_congr fun j hj => ?_
  have hne : j ≠ i := ((List.nodup_range.mem_erase_iff).mp hj).1
  simp [hne]

/-- The tree below such a path, and what it contributes. -/
theorem countP_preorder_crossSigned {Item : Type} {v : Validator} (hcrypto : v.crypto = crypto)
    {n w : Nat} {T : SearchTree (List Certificate) Item} {q : Item → Bool}
    (children : ∀ p, T.children p = (issuersByKeyId v
      (.fromIter ((List.range n).map crossSigned)) p).map fun c => p ++ [c])
    (rank : ∀ p, T.rank p =
      (unused (.fromIter ((List.range n).map crossSigned)) p).length)
    (visit : ∀ used, (∀ i ∈ used, i < n) → (T.visit (crossSignedPath used)).countP q = w) :
    (T.preorder [endEntity]).countP q = arrangements n * w := by
  have hchild : ∀ used, ∀ next ∈ T.children (crossSignedPath used),
      ∃ i, i < n ∧ i ∉ used ∧ next = crossSignedPath (used ++ [i]) := by
    intro used next hnext
    rw [children, List.mem_map] at hnext
    obtain ⟨c, hc, rfl⟩ := hnext
    obtain ⟨hcandidate, husable⟩ := mem_issuersByKeyId.mp hc
    have hc := CertificateStore.mem_fromIter.mp (mem_candidates.mp hcandidate).1
    obtain ⟨i, hi, rfl⟩ := List.mem_map.mp hc
    refine ⟨i, by simpa using hi, (usable_crossSigned hcrypto).mp husable, ?_⟩
    simp [crossSignedPath]
  have hrank : ∀ used, T.rank (crossSignedPath used) = (List.range n).countP fun i => i ∉ used := by
    intro used
    rw [rank, length_unused_crossSigned]
  have hcount := SearchTree.countP_preorder_eq (T := T) (q := q) (w := w)
    (P := fun p => ∃ used, (∀ i ∈ used, i < n) ∧ p = crossSignedPath used) ?_ ?_ ?_ ?_
    ⟨[], by simp, rfl⟩
  · show (T.preorder (crossSignedPath [])).countP q = _
    rw [hcount, hrank]
    simp
  · rintro _ ⟨used, hused, rfl⟩ next hnext
    obtain ⟨i, hi, _, rfl⟩ := hchild used next hnext
    refine ⟨used ++ [i], ?_, rfl⟩
    rw [List.forall_mem_append]
    exact ⟨hused, List.forall_mem_singleton.mpr hi⟩
  · rintro _ ⟨used, hused, rfl⟩
    exact visit used hused
  · rintro _ ⟨used, _, rfl⟩
    rw [children, List.length_map, hrank, length_issuersByKeyId_crossSigned hcrypto]
  · rintro _ ⟨used, _, rfl⟩ next hnext
    obtain ⟨i, hi, hfresh, rfl⟩ := hchild used next hnext
    rw [hrank, hrank]
    exact countP_unused_succ hi hfresh

theorem not_accepts_crossSigned {n m : Nat} {store : CertificateStore}
    {chain : UnverifiedCertificateChain}
    (h : chain ∈ enumerateFrom (crossSignedValidator n m) endEntity store) :
    ¬ (crossSignedValidator n m).policy.Accepts chain := by
  intro haccepts
  have hleaf : endEntity ∈ chain.certificates := by
    obtain ⟨certs, hne⟩ := chain
    cases (anchored_of_mem_enumerateFrom rfl h).1 with
    | direct _ => exact List.mem_singleton_self _
    | through _ _ _ _ => exact List.mem_cons_self
  have hall : (rfc5280Policy (some 200)).Accepts chain := haccepts
  have hvalid := expiryPolicy_accepts.mp ((rfc5280Policy_accepts.mp hall).2.1 200 rfl) _ hleaf
  exact absurd (PathValidation.checkValidity_eq_ok.mp hvalid).2 (by decide)

theorem length_enumerateFrom_crossSigned (n m : Nat) :
    (enumerateFrom (crossSignedValidator n m) endEntity
      (.fromIter ((List.range n).map crossSigned))).length = arrangements n * m := by
  have hleaf : endEntity ∉ (crossSignedValidator n m).rootCertificates := by
    intro hmem
    obtain ⟨i, _, heq⟩ := List.mem_map.mp (CertificateStore.mem_fromIter.mp hmem)
    exact fresh_crossSigned.mpr List.not_mem_nil endEntity List.mem_cons_self
      (congrArg Certificate.identity heq).symm
  have hroots : ∀ used : List Nat, (∀ i ∈ used, i < n) →
      ((List.range' n m).countP fun i => i ∉ used) = m := by
    intro used hused
    rw [List.countP_eq_length.mpr, List.length_range']
    intro i hi
    rw [decide_eq_true_iff]
    exact fun hmem => absurd (hused i hmem) (Nat.not_lt.mpr (List.mem_range'_1.mp hi).1)
  rw [enumerateFrom, if_neg hleaf, List.nil_append, enumerate, ← List.countP_true,
    countP_preorder_crossSigned rfl (w := m) (fun _ => rfl) (fun _ => rfl)]
  intro used hused
  show (completions _ _).countP _ = m
  rw [List.countP_true, completions, List.length_map, crossSignedValidator,
    length_issuersByKeyId_crossSigned rfl, hroots used hused]

end SamplePki

/-! ## 1. Bound and worst case -/

theorem iterations_le_arrangements (v : Validator) (leaf : Certificate)
    (intermediates : CertificateStore) :
    v.iterations leaf intermediates ≤ arrangements intermediates.certificates.length := by
  have hchildren : ∀ p, ((chainTree v intermediates).children p).length ≤
      (chainTree v intermediates).rank p := by
    intro p
    show (extensions v intermediates p).length ≤ (unused intermediates p).length
    rw [extensions, List.length_map, filter_candidates]
    exact length_issuersByKeyId_le v intermediates p
  have hbound := SearchTree.countP_preorder_le (T := chainTree v intermediates) (n := [leaf])
    (fun p => (countP_visit v intermediates p).le) hchildren
  rw [Nat.mul_one] at hbound
  calc v.iterations leaf intermediates
      ≤ (plan v leaf intermediates).countP SearchItem.isSearching :=
        iterations_le v leaf intermediates
    _ = ((chainTree v intermediates).preorder [leaf]).countP SearchItem.isSearching :=
        countP_plan v leaf intermediates
    _ ≤ arrangements (unused intermediates [leaf]).length := hbound
    _ ≤ arrangements intermediates.certificates.length :=
        arrangements_mono (length_unused_le intermediates [leaf])

theorem length_handedToPolicy_le (v : Validator) (leaf : Certificate)
    (intermediates : CertificateStore) :
    (v.handedToPolicy leaf intermediates).length ≤
      1 + arrangements intermediates.certificates.length *
        v.rootCertificates.certificates.length := by
  have hvisit : ∀ p, ((completionTree v intermediates).visit p).countP (fun _ => true) ≤
      v.rootCertificates.certificates.length := by
    intro p
    show (completions v p).countP _ ≤ _
    rw [List.countP_true, completions, List.length_map]
    exact (length_issuersByKeyId_le v _ p).trans (length_unused_le _ p)
  have hchildren : ∀ p, ((completionTree v intermediates).children p).length ≤
      (completionTree v intermediates).rank p := by
    intro p
    show ((issuersByKeyId v intermediates p).map _).length ≤ _
    rw [List.length_map]
    exact length_issuersByKeyId_le v intermediates p
  have hbound := SearchTree.countP_preorder_le (n := [leaf]) hvisit hchildren
  rw [List.countP_true] at hbound
  have hdirect : (if leaf ∈ v.rootCertificates then
      [(⟨[leaf], List.cons_ne_nil leaf []⟩ : UnverifiedCertificateChain)] else []).length ≤ 1 := by
    split
    · exact le_refl 1
    · exact Nat.zero_le 1
  calc (v.handedToPolicy leaf intermediates).length
      ≤ (enumerateFrom v leaf intermediates).length := handedToPolicy_prefix.length_le
    _ ≤ 1 + (enumerate v intermediates [leaf]).length := by
        rw [enumerateFrom, List.length_append]
        exact Nat.add_le_add_right hdirect _
    _ ≤ _ := Nat.add_le_add_left (hbound.trans (Nat.mul_le_mul_right _
        (arrangements_mono (length_unused_le intermediates [leaf])))) 1

/-- Every run with `n` intermediate certificates and `m` roots takes at most
`arrangements n` partial chains from its stack and hands at most `m` chains to the
policy for each of them, besides the leaf itself. For all `n` and `m` there are
stores with which `RFC5280Policy` does reach this, which is at least `n!`. -/
theorem search_cost :
    (∀ (v : Validator) (leaf : Certificate) (roots certs : List Certificate),
      Validator.iterations { v with rootCertificates := .fromIter roots } leaf
        (.fromIter certs) ≤ arrangements certs.length ∧
      (Validator.handedToPolicy { v with rootCertificates := .fromIter roots } leaf
        (.fromIter certs)).length ≤ 1 + arrangements certs.length * roots.length) ∧
    (∀ n m : Nat,
      (SamplePki.crossSignedValidator n m).iterations SamplePki.endEntity
        (.fromIter ((List.range n).map SamplePki.crossSigned)) = arrangements n ∧
      ((SamplePki.crossSignedValidator n m).handedToPolicy SamplePki.endEntity
        (.fromIter ((List.range n).map SamplePki.crossSigned))).length = arrangements n * m ∧
      n.factorial ≤ arrangements n) := by
  refine ⟨fun v leaf roots certs => ⟨?_, ?_⟩, fun n m => ?_⟩
  · have hbound := iterations_le_arrangements { v with rootCertificates := .fromIter roots } leaf
      (.fromIter certs)
    rwa [(CertificateStore.certificates_fromIter_perm certs).length_eq] at hbound
  · have hbound := length_handedToPolicy_le { v with rootCertificates := .fromIter roots } leaf
      (.fromIter certs)
    rwa [(CertificateStore.certificates_fromIter_perm certs).length_eq,
      (CertificateStore.certificates_fromIter_perm roots).length_eq] at hbound
  · obtain ⟨hiterations, hhanded⟩ := cost_of_allRejected (SamplePki.crossSignedValidator n m)
      SamplePki.endEntity (.fromIter ((List.range n).map SamplePki.crossSigned)) rfl
      fun _ h => SamplePki.not_accepts_crossSigned h
    refine ⟨?_, ?_, factorial_le_arrangements n⟩
    · rw [hiterations, SamplePki.countP_preorder_crossSigned rfl (w := 1)
        (fun p => congrArg (List.map _) (filter_candidates _ _ p)) (fun _ => rfl)
        fun _ _ => countP_visit _ _ _, Nat.mul_one]
    · rw [hhanded, SamplePki.length_enumerateFrom_crossSigned]

end X509Validator
