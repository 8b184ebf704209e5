import X509Validator.Search
import Mathlib.Data.List.Basic

/-!
# The order in which chains are tried

The intended order of chain building, as a recursion over partial chains without
a stack: first the completions by root candidates, then everything below each
intermediate candidate in turn. Candidates whose key identifier is the one the
subject names come first, then those where one of the two identifiers is missing,
then those with another identifier, each in store order, and candidates that are
skipped are left out. `validate` tries chains in this order.

Results:
1. `validate_eq_enumeration`: `validate` returns the first chain of the
   enumeration that the policy accepts, or the whole enumeration with the
   reasons of the policy.
-/

namespace X509Validator

open StackSearch

variable {v : Validator} {leaf : Certificate} {intermediates : CertificateStore}

/-! ## The order by key identifier -/

/-- The subject names a key identifier for its issuer, and the candidate has it. -/
def KeyIdMatches (subject candidate : Certificate) : Prop :=
  subject.authorityKeyIdentifier.isSome ∧
    subject.authorityKeyIdentifier = candidate.subjectKeyIdentifier

/-- The subject names no key identifier, or the candidate has none. -/
def KeyIdMissing (subject candidate : Certificate) : Prop :=
  subject.authorityKeyIdentifier = none ∨ candidate.subjectKeyIdentifier = none

/-- The subject names a key identifier, and the candidate has another one. -/
def KeyIdDiffers (subject candidate : Certificate) : Prop :=
  ∃ aki ski, subject.authorityKeyIdentifier = some aki ∧
    candidate.subjectKeyIdentifier = some ski ∧ aki ≠ ski

theorem rank_eq_zero_iff {subject candidate : Certificate} :
    rank subject candidate = 0 ↔ KeyIdMatches subject candidate := by
  unfold rank KeyIdMatches
  cases subject.authorityKeyIdentifier <;> cases candidate.subjectKeyIdentifier <;> simp

theorem rank_eq_one_iff {subject candidate : Certificate} :
    rank subject candidate = 1 ↔ KeyIdMissing subject candidate := by
  unfold rank KeyIdMissing
  cases subject.authorityKeyIdentifier with
  | none => cases candidate.subjectKeyIdentifier <;> simp
  | some aki =>
    cases candidate.subjectKeyIdentifier with
    | none => simp
    | some ski => by_cases heq : aki = ski <;> simp [heq]

theorem rank_eq_two_iff {subject candidate : Certificate} :
    rank subject candidate = 2 ↔ KeyIdDiffers subject candidate := by
  unfold rank KeyIdDiffers
  cases subject.authorityKeyIdentifier <;> cases candidate.subjectKeyIdentifier <;> simp

instance (subject candidate : Certificate) : Decidable (KeyIdMatches subject candidate) :=
  inferInstanceAs (Decidable (_ ∧ _))

instance (subject candidate : Certificate) : Decidable (KeyIdMissing subject candidate) :=
  inferInstanceAs (Decidable (_ ∨ _))

instance (subject candidate : Certificate) : Decidable (KeyIdDiffers subject candidate) :=
  decidable_of_iff _ rank_eq_two_iff

/-- Best match of the key identifiers first, otherwise in the order given. -/
def byKeyId (subject : Certificate) (issuers : List Certificate) : List Certificate :=
  issuers.filter (fun c => KeyIdMatches subject c) ++
    issuers.filter (fun c => KeyIdMissing subject c) ++
    issuers.filter (fun c => KeyIdDiffers subject c)

/-- This is the order of the ranks. -/
theorem byRank_eq_byKeyId (subject : Certificate) (issuers : List Certificate) :
    RankSort.byRank (rank subject) 3 issuers = byKeyId subject issuers := by
  have hranks : RankSort.byRank (rank subject) 3 issuers =
      issuers.filter (fun c => rank subject c = 0) ++
        (issuers.filter (fun c => rank subject c = 1) ++
          issuers.filter (fun c => rank subject c = 2)) := by
    simp [RankSort.byRank, List.range_succ]
  simp only [hranks, rank_eq_zero_iff, rank_eq_one_iff, rank_eq_two_iff, byKeyId,
    List.append_assoc]

theorem filter_byKeyId {subject : Certificate} {issuers : List Certificate}
    {q : Certificate → Bool} :
    (byKeyId subject issuers).filter q = byKeyId subject (issuers.filter q) := by
  rw [← byRank_eq_byKeyId, ← byRank_eq_byKeyId, RankSort.filter_byRank]

theorem byKeyId_sublist {subject : Certificate} {issuers' issuers : List Certificate}
    (h : issuers'.Sublist issuers) :
    (byKeyId subject issuers').Sublist (byKeyId subject issuers) := by
  rw [← byRank_eq_byKeyId, ← byRank_eq_byKeyId]
  exact RankSort.byRank_sublist h

/-! ## The enumeration -/

/-- The issuers in a store that may follow a partial chain, in the order by key
identifier, without those that are skipped. -/
def issuersByKeyId (v : Validator) (store : CertificateStore) (partialChain : List Certificate) :
    List Certificate :=
  match partialChain.getLast? with
  | none => []
  | some tip => byKeyId tip ((store.findBySubject tip.issuerKey).filter (usable v partialChain))

theorem filter_candidates (v : Validator) (store : CertificateStore)
    (partialChain : List Certificate) :
    (candidates store partialChain).filter (usable v partialChain) =
      issuersByKeyId v store partialChain := by
  cases htip : partialChain.getLast? with
  | none => simp [candidates, issuersByKeyId, htip]
  | some tip =>
    simp only [issuersByKeyId, htip]
    rw [candidates_eq_byRank htip, byRank_eq_byKeyId, filter_byKeyId]

theorem mem_issuersByKeyId {store : CertificateStore} {partialChain : List Certificate}
    {c : Certificate} :
    c ∈ issuersByKeyId v store partialChain ↔
      c ∈ candidates store partialChain ∧ usable v partialChain c = true := by
  rw [← filter_candidates, List.mem_filter]

/-- The partial chain completed by each issuer in the root store. -/
def completions (v : Validator) (partialChain : List Certificate) :
    List UnverifiedCertificateChain :=
  (issuersByKeyId v v.rootCertificates partialChain).map (complete partialChain)

/-- The tree of partial chains, with the chains that complete them. -/
def completionTree (v : Validator) (intermediates : CertificateStore) :
    SearchTree (List Certificate) UnverifiedCertificateChain where
  visit := completions v
  children partialChain :=
    (issuersByKeyId v intermediates partialChain).map fun c => partialChain ++ [c]
  rank partialChain := (unused intermediates partialChain).length
  rank_lt {partialChain _} h := by
    rw [← filter_candidates v intermediates partialChain] at h
    exact unused_extension_lt h

/-- The chains below a partial chain, in the order of the recursion. -/
def enumerate (v : Validator) (intermediates : CertificateStore)
    (partialChain : List Certificate) : List UnverifiedCertificateChain :=
  (completionTree v intermediates).preorder partialChain

theorem enumerate_eq (v : Validator) (intermediates : CertificateStore)
    (partialChain : List Certificate) :
    enumerate v intermediates partialChain =
      (issuersByKeyId v v.rootCertificates partialChain).map (complete partialChain) ++
      (issuersByKeyId v intermediates partialChain).flatMap
        fun c => enumerate v intermediates (partialChain ++ [c]) := by
  rw [enumerate, SearchTree.preorder_eq]
  exact congrArg (_ ++ ·) (List.flatMap_map _ _ _)

/-- All chains for a leaf, which is a chain itself where it is a root. -/
def enumerateFrom (v : Validator) (leaf : Certificate) (intermediates : CertificateStore) :
    List UnverifiedCertificateChain :=
  (if leaf ∈ v.rootCertificates then [⟨[leaf], List.cons_ne_nil leaf []⟩] else []) ++
    enumerate v intermediates [leaf]

/-! ## The plan of a run hands over the enumeration -/

theorem chainsOf_announce (found : List Certificate → VerificationDiagnostic)
    (cs : List Certificate) : chainsOf (announce found cs) = [] := by
  unfold announce
  split <;> rfl

theorem chainsOf_emit (ds : List VerificationDiagnostic) : chainsOf (ds.map .emit) = [] := by
  simp [chainsOf, List.filterMap_map]

theorem chainsOf_rootItems (v : Validator) (partialChain cs : List Certificate) :
    chainsOf (cs.map (rootItem v partialChain)) =
      (cs.filter (usable v partialChain)).map (complete partialChain) := by
  unfold chainsOf
  rw [List.filterMap_map, ← List.filterMap_eq_map, List.filterMap_filter]
  refine List.filterMap_congr fun c _ => ?_
  cases hskip : skipDiagnostic v partialChain c with
  | none => simp [rootItem, usable, hskip]
  | some _ => simp [rootItem, usable, hskip]

theorem chainsOf_visit (v : Validator) (intermediates : CertificateStore)
    (partialChain : List Certificate) :
    chainsOf (visit v intermediates partialChain) = completions v partialChain := by
  show chainsOf (_ ++ _ ++ _ ++ _) = _
  rw [chainsOf_append, chainsOf_append, chainsOf_append, chainsOf_announce, chainsOf_rootItems,
    chainsOf_announce, chainsOf_emit, filter_candidates, completions]
  simp

theorem chainsOf_leafItems :
    chainsOf (leafItems v leaf) =
      if leaf ∈ v.rootCertificates then [⟨[leaf], List.cons_ne_nil leaf []⟩] else [] := by
  have hany : ((v.rootCertificates.findBySubject leaf.subjectKey).any fun c => c == leaf) = true ↔
      leaf ∈ v.rootCertificates := by
    rw [CertificateStore.mem_iff_mem_findBySubject]
    simp
  unfold leafItems
  by_cases h : leaf ∈ v.rootCertificates
  · rw [if_pos (hany.mpr h), if_pos h]
    rfl
  · rw [if_neg (mt hany.mp h), if_neg h]
    rfl

/-- The chains of the plan are the enumeration. -/
theorem chainsOf_plan (v : Validator) (leaf : Certificate) (intermediates : CertificateStore) :
    chainsOf (plan v leaf intermediates) = enumerateFrom v leaf intermediates := by
  rw [plan, chainsOf_append, chainsOf_leafItems, enumerateFrom]
  congr 1
  refine SearchTree.preorder_filterMap (fun partialChain => ?_)
    (chainsOf_visit v intermediates) [leaf]
  exact congrArg (List.map _) (filter_candidates v intermediates partialChain).symm

/-- `validate` in terms of the enumeration. -/
theorem validate_eq {v : Validator} {leaf : Certificate} (intermediates : CertificateStore)
    (hleaf : hasUnhandledCriticalExtensions leaf v.policy = false) :
    v.validate leaf intermediates =
      firstAccepted v.policy (enumerateFrom v leaf intermediates) := by
  rw [validate_eq_firstAccepted intermediates hleaf, chainsOf_plan]

/-- The chain returned is the first accepted one of the enumeration. -/
theorem find?_of_validate_eq_ok {chain : ValidatedCertificateChain}
    (h : v.validate leaf intermediates = .ok chain) :
    ((enumerateFrom v leaf intermediates).find? fun chain => v.policy.Accepts chain) =
      some ⟨chain.certificates, chain.nonempty⟩ := by
  rw [validate_eq intermediates (handled_of_validate_eq_ok h)] at h
  exact find?_of_firstAccepted h

/-! ## 1. The stack search is the recursive search -/

/-- The stack search tries chains in the order of the recursive preorder search.
The enumeration is the one defined by the recursion equation, over the usable
candidates of a store in their order: those with the key identifier that the
subject names, then those where one of the two is missing, then those with
another one, each as the store lists them. `validate` returns its first chain that
the policy accepts, and if there is none it returns the whole enumeration, in
order, each chain with the reason the policy gave for it. -/
theorem validate_eq_enumeration (v : Validator) (leaf : Certificate)
    (intermediates : CertificateStore)
    (hleaf : hasUnhandledCriticalExtensions leaf v.policy = false) :
    (∀ store partialChain tip, partialChain.getLast? = some tip →
      let issuers := (store.findBySubject tip.issuerKey).filter (usable v partialChain)
      issuersByKeyId v store partialChain =
        issuers.filter (fun c => KeyIdMatches tip c) ++
        issuers.filter (fun c => KeyIdMissing tip c) ++
        issuers.filter (fun c => KeyIdDiffers tip c)) ∧
    (∀ partialChain, enumerate v intermediates partialChain =
      (issuersByKeyId v v.rootCertificates partialChain).map (complete partialChain) ++
      (issuersByKeyId v intermediates partialChain).flatMap
        fun c => enumerate v intermediates (partialChain ++ [c])) ∧
    (∀ pre chain post, enumerateFrom v leaf intermediates = pre ++ chain :: post →
      (∀ rejected ∈ pre, ¬ v.policy.Accepts rejected) → v.policy.Accepts chain →
      v.validate leaf intermediates = .ok ⟨chain.certificates, chain.nonempty⟩) ∧
    ((∀ chain ∈ enumerateFrom v leaf intermediates, ¬ v.policy.Accepts chain) →
      ∃ failures, v.validate leaf intermediates = .error failures ∧
        failures.map PolicyFailure.chain = enumerateFrom v leaf intermediates ∧
        ∀ failure ∈ failures,
          v.policy.chainMeetsPolicyRequirements failure.chain =
            .error failure.policyFailureReason) := by
  refine ⟨?_, enumerate_eq v intermediates, ?_, ?_⟩
  · intro store partialChain tip htip
    rw [issuersByKeyId, htip]
    rfl
  · intro pre chain post heq hpre hchain
    rw [validate_eq intermediates hleaf, heq]
    exact firstAccepted_append hpre hchain
  · intro hall
    refine ⟨failuresOf v.policy (enumerateFrom v leaf intermediates), ?_,
      failuresOf_all_rejected hall, fun failure hfailure => (mem_failuresOf hfailure).2⟩
    rw [validate_eq intermediates hleaf, firstAccepted_all_rejected hall]

/-! ## A small PKI

Certificates without extensions, for runs on concrete stores. A signature is the
key it was made with, and the verifier compares the two. -/

namespace SamplePki

def name (s : String) : X509Name := ⟨[], bytes s⟩

def certificate (subject issuer key signer : String) : Certificate where
  tbs := bytes subject
  version := .v3
  issuer := name issuer
  subject := name subject
  notBefore := 0
  notAfter := 100
  subjectPki := ⟨⟨⟨[1]⟩, none⟩, ⟨0, bytes key⟩, bytes key⟩
  extensions := []
  signatureAlgorithm := ⟨⟨[1]⟩, none⟩
  signatureValue := ⟨0, bytes signer⟩
  basicConstraints := .ok none
  nameConstraints := .ok none
  subjectAlternativeName := .ok none
  extendedKeyUsage := .ok none
  debug := subject

def crypto : SignatureVerifier where
  verifySignature _ publicKey _ signature :=
    if publicKey.subjectPublicKey.data == signature then .ok () else .error .verificationFailed

/-- Accepts chains of at least four certificates. -/
def longChainPolicy : ValidationPolicy where
  verifyingCriticalExtensions := [oidX509ExtBasicConstraints]
  chainMeetsPolicyRequirements chain :=
    if 4 ≤ chain.len then .ok () else .error ⟨"chain is too short"⟩

def critical : X509Extension := ⟨oidX509ExtBasicConstraints, true, [], .other⟩

def endEntity : Certificate := certificate "leaf" "ca1" "key0" "key1"
/-- Two authorities that have signed each other. -/
def ca1 : Certificate := certificate "ca1" "ca2" "key1" "key2"
def ca2 : Certificate := certificate "ca2" "ca1" "key2" "key1"
/-- Cross-signed by the root, with a critical extension. -/
def ca2Cross : Certificate :=
  { certificate "ca2" "root" "key2" "key3" with extensions := [critical] }
def ca1Cross : Certificate := certificate "ca1" "root" "key1" "key3"
def root : Certificate := certificate "root" "root" "key3" "key3"

def validator : Validator := ⟨.fromIter [root], crypto, longChainPolicy⟩

def caStore : CertificateStore := .fromIter [ca1Cross, ca1, ca2, ca2Cross]

def shortChain : UnverifiedCertificateChain := ⟨[endEntity, ca1Cross, root], by simp⟩

def longChain : UnverifiedCertificateChain := ⟨[endEntity, ca1, ca2Cross, root], by simp⟩

end SamplePki

/-- The short chain is tried first, because its certificate comes first in the
store, and the cycle between the two authorities is not followed twice. -/
theorem validate_eq_enumeration_cross_signed :
    enumerateFrom SamplePki.validator SamplePki.endEntity SamplePki.caStore =
      [SamplePki.shortChain] ++ SamplePki.longChain :: [] ∧
    SamplePki.validator.validate SamplePki.endEntity SamplePki.caStore =
      .ok ⟨SamplePki.longChain.certificates, SamplePki.longChain.nonempty⟩ := by
  have horder : enumerateFrom SamplePki.validator SamplePki.endEntity SamplePki.caStore =
      [SamplePki.shortChain] ++ SamplePki.longChain :: [] := by
    decide +kernel
  refine ⟨horder, (validate_eq_enumeration _ _ _ ?_).2.2.1 _ _ _ horder ?_ ?_⟩
  · decide
  · decide
  · decide

end X509Validator
