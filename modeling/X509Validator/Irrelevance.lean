import X509Validator.Enumeration
import Mathlib.Data.List.Perm.Basic

/-!
# Irrelevant certificates

Two runs are compared, the second one with stores from which certificates have
been deleted. The second enumeration is a subsequence of the first, because
ranking is stable and a candidate is skipped on account of the partial chain
alone, and it has all occurrences of any chain whose certificates were kept. So
if the first run returns such a chain, the second run returns it too.

Results:
1. `validate_irrelevant`: deleting certificates that are not on the returned
   chain does not change the result.
-/

namespace X509Validator

open StackSearch

variable {v : Validator} {leaf : Certificate} {intermediates : CertificateStore}

/-! ## Deletion from a store -/

/-- `store'` is `store` with certificates deleted, none of which is one of
`certs`, and the remaining ones in the same order. -/
structure CertificateStore.DeletedFrom (certs : List Certificate)
    (store' store : CertificateStore) : Prop where
  sublist : ∀ key, (store'.findBySubject key).Sublist (store.findBySubject key)
  kept : ∀ c ∈ certs, ∀ key,
    (store'.findBySubject key).count c = (store.findBySubject key).count c

theorem CertificateStore.deletedFrom_fromIter {kept certs' certs : List Certificate}
    (hsublist : certs'.Sublist certs) (hkept : ∀ c ∈ kept, certs'.count c = certs.count c) :
    DeletedFrom kept (fromIter certs') (fromIter certs) where
  sublist key := by
    rw [findBySubject_fromIter, findBySubject_fromIter]
    exact hsublist.filter _
  kept c hc key := by
    rw [findBySubject_fromIter, findBySubject_fromIter]
    by_cases hkey : c.subjectKey = key
    · rw [List.count_filter (by simpa using hkey), List.count_filter (by simpa using hkey),
        hkept c hc]
    · have hzero : ∀ l : List Certificate,
          (l.filter fun c => c.subjectKey == key).count c = 0 := by
        intro l
        exact List.count_eq_zero.mpr fun h => hkey (by simpa using (List.mem_filter.mp h).2)
      rw [hzero, hzero]

theorem CertificateStore.DeletedFrom.mem_iff {kept : List Certificate}
    {store' store : CertificateStore} (h : DeletedFrom kept store' store) {c : Certificate}
    (hc : c ∈ kept) : c ∈ store' ↔ c ∈ store := by
  rw [mem_iff_mem_findBySubject, mem_iff_mem_findBySubject, ← List.count_pos_iff,
    ← List.count_pos_iff, h.kept c hc]

/-- A sublist with the same number of each selected element has the same
selected elements. -/
theorem filter_eq_of_sublist {α : Type*} [DecidableEq α] {l' l : List α} {q : α → Bool}
    (hsublist : l'.Sublist l) (hcount : ∀ a, q a = true → l'.count a = l.count a) :
    l'.filter q = l.filter q := by
  have hperm : (l'.filter q).Perm (l.filter q) := by
    refine List.perm_iff_count.mpr fun a => ?_
    cases ha : q a with
    | true => rw [List.count_filter ha, List.count_filter ha, hcount a ha]
    | false =>
      rw [List.count_eq_zero.mpr (by simp [ha]), List.count_eq_zero.mpr (by simp [ha])]
  exact (hsublist.filter q).eq_of_length hperm.length_eq

section Issuers

variable {kept : List Certificate} {store' store : CertificateStore}

theorem issuersByKeyId_sublist (h : CertificateStore.DeletedFrom kept store' store)
    (partialChain : List Certificate) :
    (issuersByKeyId v store' partialChain).Sublist (issuersByKeyId v store partialChain) := by
  unfold issuersByKeyId
  split
  · exact List.Sublist.refl _
  · exact byKeyId_sublist ((h.sublist _).filter _)

theorem filter_issuersByKeyId (h : CertificateStore.DeletedFrom kept store' store)
    {q : Certificate → Bool} (hq : ∀ c, q c = true → c ∈ kept) (partialChain : List Certificate) :
    (issuersByKeyId v store' partialChain).filter q =
      (issuersByKeyId v store partialChain).filter q := by
  unfold issuersByKeyId
  split
  · rfl
  · next tip _ =>
    have hbucket : (store'.findBySubject tip.issuerKey).filter q =
        (store.findBySubject tip.issuerKey).filter q :=
      filter_eq_of_sublist (h.sublist _) fun c hc => h.kept c (hq c hc) _
    rw [filter_byKeyId, filter_byKeyId, List.filter_comm, hbucket, List.filter_comm]

end Issuers

/-! ## The two enumerations -/

/-- Chains below a partial chain continue it. -/
theorem prefix_of_mem_enumerate {partialChain : List Certificate}
    {chain : UnverifiedCertificateChain} (h : chain ∈ enumerate v intermediates partialChain) :
    partialChain <+: chain.certificates := by
  refine (completionTree v intermediates).forall_mem_preorder (P := fun p => partialChain <+: p)
    (Q := fun chain => partialChain <+: chain.certificates) ?_ ?_ List.prefix_rfl chain h
  · intro p hp next hnext
    obtain ⟨c, _, rfl⟩ := List.mem_map.mp hnext
    exact hp.trans (List.prefix_append p [c])
  · intro p hp chain hchain
    obtain ⟨c, _, rfl⟩ := List.mem_map.mp hchain
    exact hp.trans (List.prefix_append p [c])

section Deletion

variable {rootCertificates intermediates' : CertificateStore} {chain : UnverifiedCertificateChain}
  (hroots : CertificateStore.DeletedFrom chain.certificates rootCertificates v.rootCertificates)
  (hintermediates : CertificateStore.DeletedFrom chain.certificates intermediates' intermediates)

include hroots hintermediates

theorem enumerate_sublist (partialChain : List Certificate) :
    (enumerate { v with rootCertificates } intermediates' partialChain).Sublist
      (enumerate v intermediates partialChain) := by
  refine SearchTree.preorder_sublist (fun p => ?_) (fun p => ?_) partialChain
  · exact (issuersByKeyId_sublist hroots p).map _
  · exact (issuersByKeyId_sublist hintermediates p).map _

/-- Both enumerations have the chain equally often. -/
theorem count_enumerate (partialChain : List Certificate) :
    (enumerate { v with rootCertificates } intermediates' partialChain).count chain =
      (enumerate v intermediates partialChain).count chain := by
  have hbarren : ∀ (v : Validator) (intermediates : CertificateStore) (p : List Certificate),
      decide (p <+: chain.certificates) = false →
      (enumerate v intermediates p).filter (fun c => c == chain) = [] := by
    intro v intermediates p hp
    rw [List.filter_eq_nil_iff]
    intro c hc heq
    rw [eq_of_beq heq] at hc
    exact absurd (prefix_of_mem_enumerate hc) (by simpa using hp)
  have hfilter : (enumerate { v with rootCertificates } intermediates' partialChain).filter
      (fun c => c == chain) =
      (enumerate v intermediates partialChain).filter (fun c => c == chain) := by
    refine SearchTree.preorder_filter_eq (k := fun p => decide (p <+: chain.certificates))
      (fun p => ?_) (fun p => ?_) (hbarren _ _) (hbarren _ _) partialChain
    · show ((issuersByKeyId v rootCertificates p).map _).filter _ =
        ((issuersByKeyId v v.rootCertificates p).map _).filter _
      rw [List.filter_map, List.filter_map, filter_issuersByKeyId hroots]
      intro c hc
      rw [← eq_of_beq hc]
      exact List.mem_append_right _ List.mem_cons_self
    · show ((issuersByKeyId v intermediates' p).map _).filter _ =
        ((issuersByKeyId v intermediates p).map _).filter _
      rw [List.filter_map, List.filter_map, filter_issuersByKeyId hintermediates]
      intro c hc
      have hprefix : p ++ [c] <+: chain.certificates := by simpa using hc
      exact hprefix.subset (List.mem_append_right _ List.mem_cons_self)
  rw [List.count, List.countP_eq_length_filter, hfilter, ← List.countP_eq_length_filter]

theorem enumerateFrom_sublist :
    (enumerateFrom { v with rootCertificates } leaf intermediates').Sublist
      (enumerateFrom v leaf intermediates) := by
  refine List.Sublist.append ?_ (enumerate_sublist hroots hintermediates [leaf])
  by_cases hleaf : leaf ∈ rootCertificates
  · have hroot : leaf ∈ v.rootCertificates := by
      rw [CertificateStore.mem_iff_mem_findBySubject] at hleaf ⊢
      exact (hroots.sublist _).subset hleaf
    rw [if_pos hleaf, if_pos hroot]
  · rw [if_neg hleaf]
    exact List.nil_sublist _

theorem count_enumerateFrom :
    (enumerateFrom { v with rootCertificates } leaf intermediates').count chain =
      (enumerateFrom v leaf intermediates).count chain := by
  rw [enumerateFrom, enumerateFrom, List.count_append, List.count_append,
    count_enumerate hroots hintermediates]
  congr 1
  by_cases hchain : chain.certificates = [leaf]
  · have hleaf : leaf ∈ rootCertificates ↔ leaf ∈ v.rootCertificates :=
      hroots.mem_iff (by simp [hchain])
    simp only [hleaf]
  · have hzero : ∀ h : [leaf] ≠ [], ([⟨[leaf], h⟩] : List UnverifiedCertificateChain).count chain =
        0 := by
      intro h
      rw [List.count_eq_zero, List.mem_singleton]
      rintro rfl
      exact hchain rfl
    split <;> split <;> simp only [hzero, List.count_nil]

end Deletion

/-- A sublist that keeps all occurrences of the first match still has it first. -/
theorem find?_eq_some_of_sublist {α : Type*} [DecidableEq α] {l' l : List α} {q : α → Bool} {a : α}
    (hsublist : l'.Sublist l) (hcount : l'.count a = l.count a) (h : l.find? q = some a) :
    l'.find? q = some a := by
  have ha : q a = true := List.find?_some h
  induction hsublist with
  | slnil => exact h
  | cons x hrest ih =>
    by_cases hx : x = a
    · subst hx
      have hle := hrest.count_le x
      rw [List.count_cons_self] at hcount
      omega
    · rw [List.count_cons_of_ne hx] at hcount
      cases hqx : q x with
      | true =>
        rw [List.find?_cons_of_pos hqx] at h
        exact absurd (Option.some.inj h) hx
      | false =>
        rw [List.find?_cons_of_neg (by simp [hqx])] at h
        exact ih hcount h
  | cons_cons x _ ih =>
    cases hqx : q x with
    | true => rwa [List.find?_cons_of_pos hqx] at h ⊢
    | false =>
      rw [List.find?_cons_of_neg (by simp [hqx])] at h ⊢
      refine ih ?_ h
      have hx : x ≠ a := fun hx => by simp [hx, ha] at hqx
      rwa [List.count_cons_of_ne hx, List.count_cons_of_ne hx] at hcount

/-! ## 1. Irrelevant certificates do not influence the result -/

/-- If `validate` returns a chain, then it returns the same chain from stores
from which certificates have been deleted that are not on this chain. -/
theorem validate_irrelevant (v : Validator) (leaf : Certificate)
    (intermediates rootCertificates intermediates' : CertificateStore)
    (chain : ValidatedCertificateChain) (hresult : v.validate leaf intermediates = .ok chain)
    (hroots : rootCertificates.DeletedFrom chain.certificates v.rootCertificates)
    (hintermediates : intermediates'.DeletedFrom chain.certificates intermediates) :
    Validator.validate { v with rootCertificates } leaf intermediates' = .ok chain := by
  let unverified : UnverifiedCertificateChain := ⟨chain.certificates, chain.nonempty⟩
  have hroots : rootCertificates.DeletedFrom unverified.certificates v.rootCertificates := hroots
  have hfind := find?_eq_some_of_sublist (enumerateFrom_sublist hroots hintermediates)
    (count_enumerateFrom hroots hintermediates) (find?_of_validate_eq_ok hresult)
  have hleaf : hasUnhandledCriticalExtensions leaf v.policy = false :=
    handled_of_validate_eq_ok hresult
  exact (validate_eq (v := { v with rootCertificates }) intermediates' hleaf).trans
    (firstAccepted_of_find? hfind)

/-- Without the short path and the cycle, the long chain is still returned. -/
theorem validate_irrelevant_cross_signed :
    Validator.validate { SamplePki.validator with rootCertificates := .fromIter [SamplePki.root] }
      SamplePki.endEntity (.fromIter [SamplePki.ca1, SamplePki.ca2Cross]) =
        .ok ⟨SamplePki.longChain.certificates, SamplePki.longChain.nonempty⟩ := by
  refine validate_irrelevant { SamplePki.validator with
    rootCertificates := .fromIter
      [SamplePki.certificate "root" "root" "key4" "key4", SamplePki.root] }
    SamplePki.endEntity SamplePki.caStore _ _ _ ?_ ?_ ?_
  · decide +kernel
  · exact CertificateStore.deletedFrom_fromIter (List.sublist_cons_self _ _) (by decide +kernel)
  · refine CertificateStore.deletedFrom_fromIter ?_ (by decide +kernel)
    exact ((List.Sublist.refl _).cons _).cons_cons _ |>.cons _

end X509Validator
