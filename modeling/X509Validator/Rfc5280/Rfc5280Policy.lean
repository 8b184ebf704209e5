import X509Validator.Rfc5280.BasicConstraints
import X509Validator.Rfc5280.NameConstraints

/-!
# The policy of RFC 5280

`RFC5280Policy` runs four sub-policies one after the other: the version of the
certificates, their validity, basic constraints and name constraints. The check
of the validity can be switched off.

Results:
1. `rfc5280Policy_accepts`: the policy accepts a chain if and only if the
   sub-policies do.
-/

namespace X509Validator

open Checks

/-- The body of the loop of `VersionPolicy`. -/
def checkVersion (cert : Certificate) : PolicyEvaluationResult :=
  let isV1 := cert.version == .v1
  let hasExtensions := !cert.extensions.isEmpty
  if isV1 && hasExtensions then
    .error ⟨s!"version 1 certificate contains extensions but should not: {cert.debug}"⟩
  else
    .ok ()

def versionPolicy : ValidationPolicy where
  verifyingCriticalExtensions := []
  chainMeetsPolicyRequirements chain := forEach checkVersion chain.certificates

/-- The body of the loop of `ExpiryPolicy`. -/
def checkValidity (validationTime : Int) (cert : Certificate) : PolicyEvaluationResult :=
  if cert.notBefore > cert.notAfter then
    .error ⟨s!"certificate {cert.debug} has invalid expiry, not_after is earlier than not_before"⟩
  else if validationTime < cert.notBefore then
    .error ⟨s!"certificate {cert.debug} is not yet valid"⟩
  else if validationTime > cert.notAfter then
    .error ⟨"certificate has expired"⟩
  else
    .ok ()

def expiryPolicy (validationTime : Int) : ValidationPolicy where
  verifyingCriticalExtensions := []
  chainMeetsPolicyRequirements chain := forEach (checkValidity validationTime) chain.certificates

/-- `RFC5280Policy`, with the time of the `ExpiryPolicy` if there is one. -/
def rfc5280Policy (validationTime : Option Int) : ValidationPolicy where
  verifyingCriticalExtensions :=
    versionPolicy.verifyingCriticalExtensions ++
      basicConstraintsPolicy.verifyingCriticalExtensions ++
      nameConstraintsPolicy.verifyingCriticalExtensions ++ [oidX509ExtKeyUsage]
  chainMeetsPolicyRequirements chain := do
    versionPolicy.chainMeetsPolicyRequirements chain
    (match validationTime with
      | some now => (expiryPolicy now).chainMeetsPolicyRequirements chain
      | none => .ok ())
    basicConstraintsPolicy.chainMeetsPolicyRequirements chain
    nameConstraintsPolicy.chainMeetsPolicyRequirements chain

namespace Rfc5280Policy

def new (now : Int) : ValidationPolicy := rfc5280Policy (some now)

def withValidityCheckDisabled : ValidationPolicy := rfc5280Policy none

end Rfc5280Policy

theorem versionPolicy_accepts {chain : UnverifiedCertificateChain} :
    versionPolicy.Accepts chain ↔ ∀ cert ∈ chain.certificates, checkVersion cert = .ok () :=
  forEach_eq_ok

theorem expiryPolicy_accepts {now : Int} {chain : UnverifiedCertificateChain} :
    (expiryPolicy now).Accepts chain ↔
      ∀ cert ∈ chain.certificates, checkValidity now cert = .ok () :=
  forEach_eq_ok

/-! ## 1. All sub-policies -/

theorem rfc5280Policy_accepts {validationTime : Option Int} {chain : UnverifiedCertificateChain} :
    (rfc5280Policy validationTime).Accepts chain ↔
      versionPolicy.Accepts chain ∧
      (∀ now, validationTime = some now → (expiryPolicy now).Accepts chain) ∧
      basicConstraintsPolicy.Accepts chain ∧ nameConstraintsPolicy.Accepts chain := by
  unfold ValidationPolicy.Accepts
  simp only [rfc5280Policy, seq_eq_ok]
  cases validationTime with
  | none => simp
  | some now => simp

end X509Validator
