import X509Validator.Policy
import X509Validator.Lib.Checks

/-!
# Extended key usage

`EkuPolicy` requires one of a list of key purposes from the certificates that
play a role in the chain. Which role a certificate plays depends on its index
only, and of the index only on whether it is the first or the last.

Results:
1. `ekuPolicy_accepts`: every certificate that plays the role names an accepted
   purpose.
-/

namespace X509Validator

open Checks

/-! ## Key purposes -/

namespace EkuOids

def serverAuth : Oid := ⟨[1, 3, 6, 1, 5, 5, 7, 3, 1]⟩
def clientAuth : Oid := ⟨[1, 3, 6, 1, 5, 5, 7, 3, 2]⟩
def codeSigning : Oid := ⟨[1, 3, 6, 1, 5, 5, 7, 3, 3]⟩
def emailProtection : Oid := ⟨[1, 3, 6, 1, 5, 5, 7, 3, 4]⟩
def timeStamping : Oid := ⟨[1, 3, 6, 1, 5, 5, 7, 3, 8]⟩
def ocspSigning : Oid := ⟨[1, 3, 6, 1, 5, 5, 7, 3, 9]⟩
def anyExtendedKeyUsage : Oid := ⟨[2, 5, 29, 37, 0]⟩

end EkuOids

/-- The part a certificate plays in a chain. -/
inductive CertificateRole
  | endEntity
  | issuers
  | issuersExcludingAnchor
  | entireChain
deriving DecidableEq, Repr

/-- Whether the certificate at `index` of a chain of `length` plays this role. -/
def CertificateRole.covers (role : CertificateRole) (index length : Nat) : Bool :=
  let isEndEntity := index == 0
  let isAnchor := index + 1 == length
  match role with
  | .endEntity => isEndEntity
  | .issuers => !isEndEntity
  | .issuersExcludingAnchor => !isEndEntity && !isAnchor
  | .entireChain => true

/-! ## The policy -/

structure EkuPolicy where
  acceptedPurposes : List Oid
  role : CertificateRole
  extensionRequired : Bool
deriving DecidableEq, Repr

namespace EkuPolicy

/-- Requires any one of `purposes`. -/
def keyPurposes (purposes : List Oid) : EkuPolicy := ⟨purposes, .entireChain, false⟩

def new (purpose : Oid) : EkuPolicy := keyPurposes [purpose]

def serverAuth : EkuPolicy := new EkuOids.serverAuth

def clientAuth : EkuPolicy := new EkuOids.clientAuth

def appliesTo (policy : EkuPolicy) (role : CertificateRole) : EkuPolicy := { policy with role }

def requireExtension (policy : EkuPolicy) : EkuPolicy := { policy with extensionRequired := true }

/-- The purposes the parser recognises are flags, the rest is in `other`. -/
def accepts (policy : EkuPolicy) (usage : ExtendedKeyUsage) : Bool :=
  let named := [
    (usage.serverAuth, EkuOids.serverAuth),
    (usage.clientAuth, EkuOids.clientAuth),
    (usage.codeSigning, EkuOids.codeSigning),
    (usage.emailProtection, EkuOids.emailProtection),
    (usage.timeStamping, EkuOids.timeStamping),
    (usage.ocspSigning, EkuOids.ocspSigning),
    (usage.any, EkuOids.anyExtendedKeyUsage)]
  policy.acceptedPurposes.any fun accepted =>
    (named.any fun (present, oid) => present && oid == accepted) || usage.other.contains accepted

def acceptedPurposesDisplay (policy : EkuPolicy) : String :=
  ", ".intercalate (policy.acceptedPurposes.map Oid.toIdString)

/-- The DER of a sequence without contents. -/
def isEmptySequence (value : Bytes) : Bool := value == [0x30, 0x00]

def certificateMeetsRequirement (policy : EkuPolicy) (cert : Certificate) :
    PolicyEvaluationResult :=
  match cert.getExtensionUnique oidX509ExtExtendedKeyUsage with
  | .error error =>
    .error ⟨s!"error processing extended key usage for {cert.debug}: {error.display}"⟩
  | .ok none =>
    if policy.extensionRequired then
      .error ⟨s!"certificate {cert.debug} carries no extended key usage extension"⟩
    else
      .ok ()
  | .ok (some ext) =>
    -- parsing does not distinguish an empty sequence from unknown purposes
    if isEmptySequence ext.value then
      .error ⟨s!"certificate {cert.debug} has an empty extended key usage extension"⟩
    else
      match cert.extendedKeyUsage with
      | .error error =>
        .error ⟨s!"error processing extended key usage for {cert.debug}: {error.display}"⟩
      | .ok none => .error ⟨s!"error processing extended key usage for {cert.debug}"⟩
      | .ok (some usage) =>
        if policy.accepts usage then
          .ok ()
        else
          .error ⟨s!"certificate {cert.debug} names none of the accepted extended key usages " ++
            policy.acceptedPurposesDisplay⟩

end EkuPolicy

def ekuPolicy (policy : EkuPolicy) : ValidationPolicy where
  verifyingCriticalExtensions := [oidX509ExtExtendedKeyUsage]
  chainMeetsPolicyRequirements chain :=
    forEach (fun (cert, index) =>
      if policy.role.covers index chain.len then policy.certificateMeetsRequirement cert
      else .ok ()) chain.certificates.zipIdx

/-! ## 1. Which chains are accepted -/

theorem ekuPolicy_accepts {policy : EkuPolicy} {chain : UnverifiedCertificateChain} :
    (ekuPolicy policy).Accepts chain ↔
      ∀ (index : Nat) (cert : Certificate), chain.certificates[index]? = some cert →
        policy.role.covers index chain.len = true →
        policy.certificateMeetsRequirement cert = .ok () := by
  refine forEach_eq_ok.trans ⟨fun h index cert hcert hcovers => ?_, ?_⟩
  · have hok := h (cert, index) (List.mem_zipIdx_iff_getElem?.mpr hcert)
    simpa only [hcovers, ↓reduceIte] using hok
  · rintro h ⟨cert, index⟩ hmem
    simp only
    split
    · next hcovers => exact h index cert (List.mem_zipIdx_iff_getElem?.mp hmem) hcovers
    · rfl

end X509Validator
