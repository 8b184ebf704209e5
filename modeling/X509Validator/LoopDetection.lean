import X509Validator.Completeness
import X509Validator.ServerIdentity
import X509Validator.Rfc5280.ExtendedKeyUsage
import X509Validator.Rfc5280.Rfc5280Policy
import X509Validator.Lib.Shortcut

/-!
# Loop detection loses no acceptable chain

A partial chain is not extended by a certificate of an identity it already has,
so a sequence of certificates that repeats an identity is never built. But
whether a certificate is issued by another depends only on the identity of the
latter, so such a sequence has a shortcut without repetitions
(`Shortcut.exists_shortcut`). The shortcut keeps the leaf and the root and leaves
out certificates in between, and the policies of this crate keep accepting a
chain under this change (`Conjunction.accepts_of_sublist`).

There is one exception. The counter of `BasicConstraintsPolicy` is a `u32`, and
a chain long enough to make it wrap around may be accepted where its shortcut is
not.

Results:
1. `loop_detection_complete`: if there is an acceptable sequence, with or without
   repeated identities, `validate` returns `Ok`.
2. `loop_detection_rejects_wrapped`: a sequence of `2 ^ 32` certificates that is
   acceptable only because the counter wraps around.
-/

namespace X509Validator

open Shortcut

variable {v : Validator} {leaf root : Certificate} {intermediates : CertificateStore}
  {middle middle' : List Certificate}

/-! ## Policies and shorter chains -/

/-- The policies of this crate, and their conjunctions in any nesting. -/
inductive Conjunction : ValidationPolicy → Prop
  | rfc5280 (validationTime : Option Int) : Conjunction (rfc5280Policy validationTime)
  | eku (policy : EkuPolicy) : Conjunction (ekuPolicy policy)
  | serverIdentity (policy : ServerIdentityPolicy) : Conjunction (serverIdentityPolicy policy)
  | tuple2 {first second : ValidationPolicy} : Conjunction first → Conjunction second →
      Conjunction (.tuple2 first second)

theorem complete_len : (complete (leaf :: middle) root).len = middle.length + 2 := by
  simp [complete, UnverifiedCertificateChain.len]

theorem complete_sublist (h : middle'.Sublist middle) :
    (complete (leaf :: middle') root).certificates.Sublist
      (complete (leaf :: middle) root).certificates :=
  (h.cons_cons leaf).append_right [root]

theorem basicConstraintsPolicy_complete :
    basicConstraintsPolicy.Accepts (complete (leaf :: middle) root) ↔
      BasicConstraintsPolicy.checkIssuers (middle ++ [root]) 0 = .ok () := by
  simp only [ValidationPolicy.Accepts, basicConstraintsPolicy]
  rw [if_neg (by simp [complete_len])]
  rfl

/-- Which role a certificate plays depends on whether it is the first or the last. -/
theorem CertificateRole.covers_congr (role : CertificateRole) {i i' n n' : Nat}
    (hfirst : i = 0 ↔ i' = 0) (hlast : i + 1 = n ↔ i' + 1 = n') :
    role.covers i n = role.covers i' n' := by
  have hfirst : (i == 0) = (i' == 0) := by
    rw [Bool.eq_iff_iff, beq_iff_eq, beq_iff_eq, hfirst]
  have hlast : (i + 1 == n) = (i' + 1 == n') := by
    rw [Bool.eq_iff_iff, beq_iff_eq, beq_iff_eq, hlast]
  simp only [covers, hfirst, hlast]

/-- A certificate of the shorter chain is in the longer one, in the same role. -/
theorem exists_index_of_sublist (h : middle'.Sublist middle) {i : Nat} {cert : Certificate}
    (hcert : (complete (leaf :: middle') root).certificates[i]? = some cert) :
    ∃ j, (complete (leaf :: middle) root).certificates[j]? = some cert ∧ (i = 0 ↔ j = 0) ∧
      (i + 1 = middle'.length + 2 ↔ j + 1 = middle.length + 2) := by
  simp only [complete, List.cons_append] at hcert ⊢
  cases i with
  | zero => exact ⟨0, hcert, by simp, by simp⟩
  | succ i =>
    rw [List.getElem?_cons_succ] at hcert
    have hi : i < middle'.length + 1 := by
      simpa using (List.getElem?_eq_some_iff.mp hcert).1
    by_cases hlt : i < middle'.length
    · rw [List.getElem?_append_left hlt] at hcert
      obtain ⟨j, hj⟩ := List.mem_iff_getElem?.mp (h.subset (List.mem_of_getElem? hcert))
      have hjlt := (List.getElem?_eq_some_iff.mp hj).1
      refine ⟨j + 1, ?_, by simp, by omega⟩
      rw [List.getElem?_cons_succ, List.getElem?_append_left hjlt, hj]
    · obtain rfl : i = middle'.length := by omega
      refine ⟨middle.length + 1, ?_, by simp, by omega⟩
      rw [List.getElem?_cons_succ, List.getElem?_concat_length]
      rwa [List.getElem?_concat_length] at hcert

theorem rfc5280Policy_accepts_of_sublist {validationTime : Option Int}
    (h : middle'.Sublist middle) (hcount : subCas middle < 2 ^ 32)
    (haccepts : (rfc5280Policy validationTime).Accepts (complete (leaf :: middle) root)) :
    (rfc5280Policy validationTime).Accepts (complete (leaf :: middle') root) := by
  rw [rfc5280Policy_accepts] at haccepts ⊢
  obtain ⟨hversion, hexpiry, hbasic, hnames⟩ := haccepts
  have hsublist : (complete (leaf :: middle') root).certificates.Sublist
      (complete (leaf :: middle) root).certificates := complete_sublist h
  refine ⟨?_, fun now hnow => ?_, ?_, ?_⟩
  · rw [versionPolicy_accepts] at hversion ⊢
    exact fun cert hcert => hversion cert (hsublist.subset hcert)
  · have hexpiry := hexpiry now hnow
    rw [expiryPolicy_accepts] at hexpiry ⊢
    exact fun cert hcert => hexpiry cert (hsublist.subset hcert)
  · rw [basicConstraintsPolicy_complete] at hbasic ⊢
    refine BasicConstraintsPolicy.checkIssuers_sublist (h.append_right [root]) ?_ hbasic
    rwa [List.dropLast_concat]
  · rw [nameConstraintsPolicy_accepts_pairwise (by simp [complete_len])] at hnames ⊢
    exact hnames.sublist hsublist

theorem ekuPolicy_accepts_of_sublist {policy : EkuPolicy} (h : middle'.Sublist middle)
    (haccepts : (ekuPolicy policy).Accepts (complete (leaf :: middle) root)) :
    (ekuPolicy policy).Accepts (complete (leaf :: middle') root) := by
  rw [ekuPolicy_accepts] at haccepts ⊢
  intro i cert hcert hcovers
  obtain ⟨j, hj, hfirst, hlast⟩ := exists_index_of_sublist h hcert
  refine haccepts j cert hj ?_
  rw [complete_len] at hcovers ⊢
  rwa [← policy.role.covers_congr hfirst hlast]

theorem serverIdentityPolicy_accepts_of_sublist {policy : ServerIdentityPolicy}
    (haccepts : (serverIdentityPolicy policy).Accepts (complete (leaf :: middle) root)) :
    (serverIdentityPolicy policy).Accepts (complete (leaf :: middle') root) := by
  rw [serverIdentityPolicy_accepts] at haccepts ⊢
  exact haccepts

/-- The policies accept shorter chains from the same leaf to the same root. -/
theorem Conjunction.accepts_of_sublist {policy : ValidationPolicy} (hpolicy : Conjunction policy)
    (h : middle'.Sublist middle) (hcount : subCas middle < 2 ^ 32)
    (haccepts : policy.Accepts (complete (leaf :: middle) root)) :
    policy.Accepts (complete (leaf :: middle') root) := by
  induction hpolicy with
  | rfc5280 validationTime => exact rfc5280Policy_accepts_of_sublist h hcount haccepts
  | eku policy => exact ekuPolicy_accepts_of_sublist h haccepts
  | serverIdentity policy => exact serverIdentityPolicy_accepts_of_sublist haccepts
  | tuple2 _ _ ihFirst ihSecond =>
    obtain ⟨hfirst, hsecond⟩ := ValidationPolicy.tuple2_accepts.mp haccepts
    exact ValidationPolicy.tuple2_accepts.mpr ⟨ihFirst hfirst, ihSecond hsecond⟩

/-! ## Routes -/

/-- A sequence of certificates from the leaf through the intermediate store to the
root store, each issued by the next one and without unhandled critical
extensions. Identities may repeat, except that of the leaf. -/
structure Route (v : Validator) (leaf : Certificate) (intermediates : CertificateStore)
    (middle : List Certificate) (root : Certificate) : Prop where
  stored : ∀ c ∈ middle, c ∈ intermediates
  anchored : root ∈ v.rootCertificates
  issued : (leaf :: middle ++ [root]).IsChain (Issued v.crypto)
  handled : ∀ c ∈ leaf :: middle ++ [root], hasUnhandledCriticalExtensions c v.policy = false
  leafOnce : ∀ c ∈ middle ++ [root], leaf.hasSameIdentityAs c = false

/-- A certificate is issued by all certificates of one identity or by none. -/
theorem Issued.congr {crypto : SignatureVerifier} {subject issuer issuer' : Certificate}
    (hidentity : issuer.identity = issuer'.identity) (h : Issued crypto subject issuer) :
    Issued crypto subject issuer' := by
  rw [Issued, Certificate.subjectKey_eq_of_identity hidentity,
    Certificate.publicKey_eq_of_identity hidentity] at h
  exact h

/-- A route has a shortcut on which no identity repeats. -/
theorem Route.exists_linkedPath (h : Route v leaf intermediates middle root) :
    ∃ middle', middle'.Sublist middle ∧ LinkedPath v (leaf :: middle' ++ [root]) := by
  obtain ⟨middle', hsublist, hissued, hnodup⟩ :=
    exists_shortcut (R := Issued v.crypto) Certificate.identity (fun _ _ _ => Issued.congr) h.issued
  refine ⟨middle', hsublist, hissued, List.pairwise_cons.mpr ⟨fun c hc => ?_, ?_⟩, fun c hc => ?_⟩
  · exact h.leafOnce c ((hsublist.append_right [root]).subset hc)
  · refine (List.pairwise_map.mp hnodup).imp fun {a b} hne => ?_
    rwa [← Bool.not_eq_true, Certificate.hasSameIdentityAs_iff]
  · have hmem := ((hsublist.cons_cons leaf).append_right [root]).subset hc
    exact hasUnhandledCriticalExtensions_eq_false.mp (h.handled c hmem)

/-! ## 1. Acceptable sequences with repeated identities -/

/-- Loop detection loses no acceptable chain. Let the policy be a conjunction of
policies of this crate. If there is a route from the leaf to the root store that
the policy accepts, with fewer than `2 ^ 32` certificates that count against
path length constraints, then `validate` returns `Ok`. A route on which an
identity repeats is itself never handed to the policy. -/
theorem loop_detection_complete (v : Validator) (leaf : Certificate)
    (intermediates : CertificateStore) (hpolicy : Conjunction v.policy)
    (middle : List Certificate) (root : Certificate)
    (hroute : Route v leaf intermediates middle root) (hcount : subCas middle < 2 ^ 32)
    (haccepts : v.policy.Accepts (complete (leaf :: middle) root)) :
    (∃ accepted, v.validate leaf intermediates = .ok accepted) ∧
    (¬ ((middle ++ [root]).map Certificate.identity).Nodup →
      complete (leaf :: middle) root ∉ v.handedToPolicy leaf intermediates) := by
  constructor
  · obtain ⟨middle', hsublist, hlinked⟩ := hroute.exists_linkedPath
    have hanchored : Anchored v leaf intermediates (leaf :: middle' ++ [root]) :=
      .through middle' root (fun c hc => hroute.stored c (hsublist.subset hc)) hroute.anchored
    exact validate_ok_of_anchored (complete (leaf :: middle') root) hanchored hlinked
      (hpolicy.accepts_of_sublist hsublist hcount haccepts)
  · intro hrepeats hhanded
    have hdistinct := (anchored_of_mem_handedToPolicy hhanded).2.distinct
    refine hrepeats (List.pairwise_map.mpr ?_)
    refine (List.pairwise_cons.mp hdistinct).2.imp fun {a b} hne => ?_
    rwa [Ne, ← Certificate.hasSameIdentityAs_iff, Bool.not_eq_true]

/-! ## Two authorities that have signed each other -/

namespace SamplePki

def authority (subject issuer key signer : String) (pathLenConstraint : Option UInt32) :
    Certificate :=
  { certificate subject issuer key signer with
    basicConstraints := .ok (some ⟨true, pathLenConstraint⟩) }

def server : Certificate :=
  { certificate "leaf" "ca1" "key0" "key1" with
    subjectAlternativeName := .ok (some [.dnsName (bytes "foo.example.com")]) }

def authority1 : Certificate := authority "ca1" "ca2" "key1" "key2" none
def authority2 : Certificate := authority "ca2" "ca1" "key2" "key1" none
def authority2Cross : Certificate := authority "ca2" "root" "key2" "key3" none
def limitedRoot (maxPathLength : UInt32) : Certificate :=
  authority "root" "root" "key3" "key3" (some maxPathLength)

/-- So many times around before the root is reached. -/
def laps : Nat → List Certificate
  | 0 => [authority1, authority2Cross]
  | n + 1 => authority1 :: authority2 :: laps n

def authorityStore : CertificateStore := .fromIter [authority1, authority2, authority2Cross]

def lapValidator (maxPathLength : UInt32) (policy : ValidationPolicy) : Validator :=
  ⟨.fromIter [limitedRoot maxPathLength], crypto, policy⟩

/-- All policies of the crate together. -/
def serverPolicy : ValidationPolicy :=
  .tuple2 (Rfc5280Policy.new 50)
    (.tuple2 (ekuPolicy .serverAuth)
      (serverIdentityPolicy (.new (some (bytes "foo.example.com")) none)))

theorem forall_mem_laps {P : Certificate → Prop} (hone : P authority1) (htwo : P authority2)
    (hcross : P authority2Cross) (n : Nat) : ∀ c ∈ laps n, P c := by
  induction n with
  | zero => exact List.forall_mem_cons.mpr ⟨hone, List.forall_mem_singleton.mpr hcross⟩
  | succ n ih => exact List.forall_mem_cons.mpr ⟨hone, List.forall_mem_cons.mpr ⟨htwo, ih⟩⟩

/-- What holds of the leaf, the authorities and the root holds of the whole route. -/
theorem forall_mem_route {P : Certificate → Prop} {maxPathLength : UInt32} (hleaf : P server)
    (hone : P authority1) (htwo : P authority2) (hcross : P authority2Cross)
    (hroot : P (limitedRoot maxPathLength)) (n : Nat) :
    ∀ c ∈ server :: laps n ++ [limitedRoot maxPathLength], P c :=
  List.forall_mem_cons.mpr ⟨hleaf, List.forall_mem_append.mpr
    ⟨forall_mem_laps hone htwo hcross n, List.forall_mem_singleton.mpr hroot⟩⟩

theorem subCas_laps (n : Nat) : subCas (laps n) = 2 * n + 2 := by
  induction n with
  | zero => decide +kernel
  | succ n ih =>
    have hlap : subCas [authority1, authority2] = 2 := by decide +kernel
    have hcons : laps (n + 1) = [authority1, authority2] ++ laps n := rfl
    rw [hcons, subCas_append, hlap, ih]
    omega

theorem isChain_laps {maxPathLength : UInt32} {first : Certificate}
    (hfirst : Issued crypto first authority1) (n : Nat) :
    (first :: laps n ++ [limitedRoot maxPathLength]).IsChain (Issued crypto) := by
  induction n generalizing first with
  | zero =>
    have hroot : Issued crypto authority2Cross (limitedRoot 0) := by decide +kernel
    refine List.isChain_cons_cons.mpr ⟨hfirst, List.isChain_cons_cons.mpr ⟨by decide +kernel, ?_⟩⟩
    exact List.isChain_cons_cons.mpr ⟨Issued.congr rfl hroot, List.isChain_singleton _⟩
  | succ n ih =>
    refine List.isChain_cons_cons.mpr ⟨hfirst, List.isChain_cons_cons.mpr ⟨by decide +kernel, ?_⟩⟩
    exact ih (by decide +kernel)

theorem route_laps {maxPathLength : UInt32} {policy : ValidationPolicy} (n : Nat) :
    Route (lapValidator maxPathLength policy) server authorityStore (laps n)
      (limitedRoot maxPathLength) where
  stored := forall_mem_laps (by decide +kernel) (by decide +kernel) (by decide +kernel) n
  anchored := CertificateStore.mem_fromIter.mpr (List.mem_singleton.mpr rfl)
  issued := isChain_laps (by decide +kernel) n
  handled := forall_mem_route (P := fun c => hasUnhandledCriticalExtensions c policy = false)
    rfl rfl rfl rfl rfl n
  leafOnce := by
    have hroot : server.hasSameIdentityAs (limitedRoot 0) = false := by decide +kernel
    refine List.forall_mem_append.mpr ⟨?_, List.forall_mem_singleton.mpr hroot⟩
    exact forall_mem_laps (by decide +kernel) (by decide +kernel) (by decide +kernel) n

/-- A path length constraint of zero is met by `2 ^ 32` certificates, because the
counter is zero again. -/
theorem accepts_laps {n : Nat} (hn : 2 * n + 2 = 2 ^ 32) :
    Rfc5280Policy.withValidityCheckDisabled.Accepts
      (complete (server :: laps n) (limitedRoot 0)) := by
  refine rfc5280Policy_accepts.mpr ⟨?_, ?_, ?_, ?_⟩
  · rw [versionPolicy_accepts]
    exact forall_mem_route (by decide +kernel) (by decide +kernel) (by decide +kernel)
      (by decide +kernel) (by decide +kernel) n
  · exact fun _ hnow => nomatch hnow
  · rw [basicConstraintsPolicy_complete, BasicConstraintsPolicy.checkIssuers_eq_ok]
    intro below cert above heq
    rcases List.eq_nil_or_concat above with rfl | ⟨init, last, rfl⟩
    · obtain ⟨rfl, hlast⟩ := List.append_inj' heq rfl
      obtain rfl := List.singleton_injective hlast
      refine .limited rfl ?_
      rw [subCas_laps, hn]
      decide
    · rw [List.concat_eq_append, ← List.cons_append, ← List.append_assoc] at heq
      have hlaps : laps n = below ++ cert :: init := (List.append_inj' heq rfl).1
      have hmem : cert ∈ laps n := by
        rw [hlaps]
        simp
      have hunlimited : ∀ c ∈ laps n, c.basicConstraints = .ok (some ⟨true, none⟩) :=
        forall_mem_laps (P := fun c => c.basicConstraints = .ok (some ⟨true, none⟩)) rfl rfl rfl n
      exact .unlimited (hunlimited cert hmem)
  · rw [nameConstraintsPolicy_accepts_pairwise (by simp [complete_len])]
    have hnone : ∀ c ∈ server :: laps n ++ [limitedRoot 0], c.nameConstraints = .ok none :=
      forall_mem_route (P := fun c => c.nameConstraints = .ok none) rfl rfl rfl rfl rfl n
    refine List.pairwise_of_forall_mem_list fun subject _ issuer hissuer => ?_
    exact ⟨none, hnone issuer hissuer, fun _ hsome => nomatch hsome⟩

end SamplePki

/-- A route once around is acceptable, and the direct one is found. -/
theorem loop_detection_complete_one_lap :
    (∃ accepted, (SamplePki.lapValidator 4 SamplePki.serverPolicy).validate SamplePki.server
      SamplePki.authorityStore = .ok accepted) ∧
    complete (SamplePki.server :: SamplePki.laps 1) (SamplePki.limitedRoot 4) ∉
      (SamplePki.lapValidator 4 SamplePki.serverPolicy).handedToPolicy SamplePki.server
        SamplePki.authorityStore := by
  have hpolicy : Conjunction SamplePki.serverPolicy :=
    .tuple2 (.rfc5280 (some 50)) (.tuple2 (.eku _) (.serverIdentity _))
  obtain ⟨hok, hnever⟩ := loop_detection_complete (SamplePki.lapValidator 4 SamplePki.serverPolicy)
    SamplePki.server SamplePki.authorityStore hpolicy (SamplePki.laps 1) (SamplePki.limitedRoot 4)
    (SamplePki.route_laps 1) (by decide +kernel) (by decide +kernel)
  exact ⟨hok, hnever (by decide +kernel)⟩

/-! ## 2. Wrap-around -/

/-- Without a bound on the number of certificates there is an acceptable sequence
that is lost: the root allows no certificates between itself and the leaf, which
the direct route violates. -/
theorem loop_detection_rejects_wrapped :
    Conjunction (SamplePki.lapValidator 0 Rfc5280Policy.withValidityCheckDisabled).policy ∧
    Route (SamplePki.lapValidator 0 Rfc5280Policy.withValidityCheckDisabled) SamplePki.server
      SamplePki.authorityStore (SamplePki.laps (2 ^ 31 - 1)) (SamplePki.limitedRoot 0) ∧
    (SamplePki.lapValidator 0 Rfc5280Policy.withValidityCheckDisabled).policy.Accepts
      (complete (SamplePki.server :: SamplePki.laps (2 ^ 31 - 1)) (SamplePki.limitedRoot 0)) ∧
    ∀ accepted, (SamplePki.lapValidator 0 Rfc5280Policy.withValidityCheckDisabled).validate
      SamplePki.server SamplePki.authorityStore ≠ .ok accepted := by
  refine ⟨.rfc5280 none, SamplePki.route_laps _, SamplePki.accepts_laps (by decide), ?_⟩
  have herror : ((SamplePki.lapValidator 0 Rfc5280Policy.withValidityCheckDisabled).validate
      SamplePki.server SamplePki.authorityStore).isOk = false := by
    decide +kernel
  intro accepted hok
  rw [hok] at herror
  cases herror

end X509Validator
