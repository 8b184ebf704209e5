import X509Validator.Rfc5280.PathValidation
import X509Validator.Completeness
import Mathlib

/-!
# When a leaf is accepted

`RFC5280Policy::new(t)` reads the time only in its validity check, and the search
does not read it at all. So there are finitely many chains, the same at all times,
and each of them is acceptable during one interval: from the latest `notBefore`
to the earliest `notAfter` of its certificates. A leaf is accepted at the times
that one of these intervals covers. Between two of them there may be a gap, and
within one of them the chain that is returned may change, but never to a failure.

Results:
1. `accepted_times`: the times at which a leaf is accepted, with any further
   policy that does not depend on the time.
-/

namespace X509Validator

open PathValidation

/-! ## The interval of a chain -/

namespace UnverifiedCertificateChain

/-- The latest `notBefore` of a chain. -/
def validFrom (chain : UnverifiedCertificateChain) : Int :=
  chain.certificates.tail.foldl (fun time cert => max time cert.notBefore) chain.leaf.notBefore

/-- The earliest `notAfter` of a chain. -/
def validUntil (chain : UnverifiedCertificateChain) : Int :=
  chain.certificates.tail.foldl (fun time cert => min time cert.notAfter) chain.leaf.notAfter

variable {chain : UnverifiedCertificateChain} {now : Int}

theorem forall_mem_certificates {P : Certificate → Prop} :
    (∀ cert ∈ chain.certificates, P cert) ↔
      P chain.leaf ∧ ∀ cert ∈ chain.certificates.tail, P cert := by
  rw [← List.forall_mem_cons, leaf, List.cons_head_tail]

theorem foldl_max_le {certs : List Certificate} {time : Int} :
    certs.foldl (fun time cert => max time cert.notBefore) time ≤ now ↔
      time ≤ now ∧ ∀ cert ∈ certs, cert.notBefore ≤ now := by
  induction certs generalizing time with
  | nil => simp
  | cons cert certs ih => rw [List.foldl_cons, ih, Int.max_le, List.forall_mem_cons, and_assoc]

theorem le_foldl_min {certs : List Certificate} {time : Int} :
    now ≤ certs.foldl (fun time cert => min time cert.notAfter) time ↔
      now ≤ time ∧ ∀ cert ∈ certs, now ≤ cert.notAfter := by
  induction certs generalizing time with
  | nil => simp
  | cons cert certs ih => rw [List.foldl_cons, ih, Int.le_min, List.forall_mem_cons, and_assoc]

/-- All certificates of a chain are valid during its interval, and at no other
time. -/
theorem mem_window_iff :
    now ∈ Set.Icc chain.validFrom chain.validUntil ↔
      ∀ cert ∈ chain.certificates, cert.notBefore ≤ now ∧ now ≤ cert.notAfter := by
  rw [Set.mem_Icc, validFrom, validUntil, foldl_max_le, le_foldl_min, forall_mem_certificates,
    forall₂_and]
  exact and_and_and_comm

end UnverifiedCertificateChain

/-- The time is read in the validity check only. -/
theorem rfc5280Policy_new_accepts {now : Int} {chain : UnverifiedCertificateChain} :
    (Rfc5280Policy.new now).Accepts chain ↔
      Rfc5280Policy.withValidityCheckDisabled.Accepts chain ∧
        now ∈ Set.Icc chain.validFrom chain.validUntil := by
  rw [Rfc5280Policy.new, Rfc5280Policy.withValidityCheckDisabled, rfc5280Policy_accepts,
    rfc5280Policy_accepts, UnverifiedCertificateChain.mem_window_iff]
  simp only [Option.some.injEq, forall_eq', expiryPolicy_accepts, checkValidity_eq_ok,
    reduceCtorEq, false_implies, implies_true, true_and]
  tauto

/-! ## 1. Accepted times -/

/-- A validator whose policy is `RFC5280Policy` and a further one. -/
def timedValidator (rootCertificates : CertificateStore) (crypto : SignatureVerifier)
    (rfc5280 further : ValidationPolicy) : Validator :=
  ⟨rootCertificates, crypto, .tuple2 rfc5280 further⟩

section

variable {rootCertificates intermediates : CertificateStore} {crypto : SignatureVerifier}
  {further : ValidationPolicy} {leaf : Certificate} {now : Int}

/-- Time does not matter for which paths there are. -/
theorem linkedPath_timedValidator {certs : List Certificate} :
    LinkedPath (timedValidator rootCertificates crypto (Rfc5280Policy.new now) further) certs ↔
      LinkedPath (timedValidator rootCertificates crypto
        Rfc5280Policy.withValidityCheckDisabled further) certs :=
  ⟨fun h => ⟨h.issued, h.distinct, h.handled⟩, fun h => ⟨h.issued, h.distinct, h.handled⟩⟩

theorem Anchored.congr {v v' : Validator} {certs : List Certificate}
    (hroots : v.rootCertificates = v'.rootCertificates)
    (h : Anchored v leaf intermediates certs) : Anchored v' leaf intermediates certs := by
  cases h with
  | direct hroot => exact .direct (hroots ▸ hroot)
  | through middle root hmiddle hroot => exact .through middle root hmiddle (hroots ▸ hroot)

end

/-- The chains that are acceptable but for the time are found by a validator with
the validity check disabled. A leaf whose critical extensions are handled is
accepted at a time exactly if the interval of one of these chains contains it. So if
a chain is returned at some time, the leaf is accepted throughout the interval of
that chain. -/
theorem accepted_times (rootCertificates : CertificateStore) (crypto : SignatureVerifier)
    (further : ValidationPolicy) (leaf : Certificate) (intermediates : CertificateStore) :
    let timeless := timedValidator rootCertificates crypto
      Rfc5280Policy.withValidityCheckDisabled further
    let timed := fun now => timedValidator rootCertificates crypto (Rfc5280Policy.new now) further
    (hasUnhandledCriticalExtensions leaf timeless.policy = false →
      {now | ∃ chain, (timed now).validate leaf intermediates = .ok chain} =
        {now | ∃ chain ∈ (enumerateFrom timeless leaf intermediates).filter
          (fun chain => timeless.policy.Accepts chain),
          now ∈ Set.Icc chain.validFrom chain.validUntil}) ∧
    (∀ now chain, (timed now).validate leaf intermediates = .ok chain →
      ∀ now' ∈ Set.Icc (UnverifiedCertificateChain.validFrom ⟨chain.certificates, chain.nonempty⟩)
        (UnverifiedCertificateChain.validUntil ⟨chain.certificates, chain.nonempty⟩),
        ∃ chain', (timed now').validate leaf intermediates = .ok chain') := by
  intro timeless timed
  have hroots : ∀ now, timeless.rootCertificates = (timed now).rootCertificates := fun _ => rfl
  have haccepts : ∀ now chain, (timed now).policy.Accepts chain ↔
      timeless.policy.Accepts chain ∧ now ∈ Set.Icc chain.validFrom chain.validUntil := by
    intro now chain
    show (ValidationPolicy.tuple2 _ _).Accepts chain ↔
      (ValidationPolicy.tuple2 _ _).Accepts chain ∧ _
    rw [ValidationPolicy.tuple2_accepts, ValidationPolicy.tuple2_accepts,
      rfc5280Policy_new_accepts, and_right_comm]
  have hok : ∀ now chain, Anchored timeless leaf intermediates chain.certificates →
      LinkedPath timeless chain.certificates → timeless.policy.Accepts chain →
      now ∈ Set.Icc chain.validFrom chain.validUntil →
      ∃ chain', (timed now).validate leaf intermediates = .ok chain' := by
    intro now chain hanchored hlinked haccepted hwindow
    exact validate_ok_of_anchored chain (hanchored.congr (hroots now))
      (linkedPath_timedValidator.mpr hlinked) ((haccepts now chain).mpr ⟨haccepted, hwindow⟩)
  have hsound : ∀ now chain, (timed now).validate leaf intermediates = .ok chain →
      Anchored timeless leaf intermediates chain.certificates ∧
        LinkedPath timeless chain.certificates ∧
        timeless.policy.Accepts ⟨chain.certificates, chain.nonempty⟩ ∧
        now ∈ Set.Icc (UnverifiedCertificateChain.validFrom ⟨chain.certificates, chain.nonempty⟩)
          (UnverifiedCertificateChain.validUntil ⟨chain.certificates, chain.nonempty⟩) := by
    intro now chain hchain
    obtain ⟨hanchored, hlinked, haccepted⟩ := anchored_of_validate_eq_ok hchain
    exact ⟨hanchored.congr (hroots now).symm, linkedPath_timedValidator.mp hlinked,
      (haccepts now _).mp haccepted⟩
  refine ⟨fun hleaf => Set.ext fun now => ⟨?_, ?_⟩, ?_⟩
  · rintro ⟨chain, hchain⟩
    obtain ⟨hanchored, hlinked, haccepted, hwindow⟩ := hsound now chain hchain
    exact ⟨⟨chain.certificates, chain.nonempty⟩, List.mem_filter.mpr
      ⟨mem_enumerateFrom_of_anchored hanchored hlinked, decide_eq_true haccepted⟩, hwindow⟩
  · rintro ⟨chain, hchain, hwindow⟩
    obtain ⟨hmem, haccepted⟩ := List.mem_filter.mp hchain
    obtain ⟨hanchored, hlinked⟩ := anchored_of_mem_enumerateFrom hleaf hmem
    exact hok now chain hanchored hlinked (of_decide_eq_true haccepted) hwindow
  · intro now chain hchain now' hwindow
    obtain ⟨hanchored, hlinked, haccepted, _⟩ := hsound now chain hchain
    exact hok now' _ hanchored hlinked haccepted hwindow

namespace SamplePki

/-- The root with version 1, which needs no extensions. It is valid from 0 to 100. -/
def oldRoot : Certificate := { root with version := .v1 }

def oldRootChain : UnverifiedCertificateChain := ⟨[oldRoot], List.cons_ne_nil _ _⟩

end SamplePki

/-- The root validates itself while it is valid. -/
theorem accepted_times_root :
    {now | ∃ chain, (timedValidator (.fromIter [SamplePki.oldRoot]) SamplePki.crypto
        (Rfc5280Policy.new now) ⟨[], fun _ => .ok ()⟩).validate SamplePki.oldRoot .new =
          .ok chain} = Set.Icc 0 100 := by
  rw [(accepted_times (.fromIter [SamplePki.oldRoot]) SamplePki.crypto ⟨[], fun _ => .ok ()⟩
    SamplePki.oldRoot .new).1 rfl]
  have hchains : (enumerateFrom (timedValidator (.fromIter [SamplePki.oldRoot]) SamplePki.crypto
      Rfc5280Policy.withValidityCheckDisabled ⟨[], fun _ => .ok ()⟩) SamplePki.oldRoot .new).filter
      (fun chain => (ValidationPolicy.tuple2 Rfc5280Policy.withValidityCheckDisabled
        ⟨[], fun _ => .ok ()⟩).Accepts chain) = [SamplePki.oldRootChain] := by
    decide +kernel
  have hwindow : Set.Icc SamplePki.oldRootChain.validFrom SamplePki.oldRootChain.validUntil =
      Set.Icc 0 100 := rfl
  rw [← hwindow]
  refine Set.ext fun now => ⟨?_, fun hnow =>
    ⟨SamplePki.oldRootChain, hchains ▸ List.mem_singleton_self _, hnow⟩⟩
  rintro ⟨chain, hchain, hnow⟩
  obtain rfl : chain = SamplePki.oldRootChain := List.mem_singleton.mp (hchains ▸ hchain)
  exact hnow

end X509Validator
