import X509Validator.Store
import X509Validator.Policy
import Mathlib.Data.List.Sort

/-!
# One iteration of chain building

`Validator::validate_inner` builds chains with a stack of partial chains. This
module models what one iteration of its loop does: it takes the partial chain
from the top of the stack, looks for issuers of its last certificate, tries
every issuer in the root store against the policy, and pushes the partial chain
extended by each usable issuer in the intermediate store. The loop itself is in
`X509Validator.Search`.

* The diagnostic callback is an `FnMut`. It is modelled by a function on the
  state it has captured, the `sink`, of an arbitrary type.
* The search returns early when a chain is accepted, and it panics where
  `last()` is unwrapped on an empty vector or a chain is built from one. Both
  are an `Exit`, the error of the `Except` in which the code is written.
* `Progress.evaluated` is a ghost variable: the chains handed to the policy so
  far, in order. No code reads it.
-/

namespace X509Validator

/-! ## Diagnostics -/

/-- The events that chain building reports. -/
inductive VerificationDiagnostic
  | leafCertificateHasUnhandledCriticalExtension (leafCertificate : Certificate)
      (handledCriticalExtensions : List Oid)
  | leafCertificateIsInTheRootStoreButDoesNotMeetPolicy (leafCertificate : Certificate)
      (failureReason : PolicyFailureReason)
  | chainFailsToMeetPolicy (chain : List Certificate) (failureReason : PolicyFailureReason)
  | issuerHasUnhandledCriticalExtension (issuer : Certificate) (partialChain : List Certificate)
      (handledCriticalExtensions : List Oid)
  | issuerHasNotSignedCertificate (issuer : Certificate) (partialChain : List Certificate)
  | searchingForIssuerOfPartialChain (partialChain : List Certificate)
  | foundCandidateIssuersOfPartialChainInRootStore (partialChain : List Certificate)
      (issuersInRootStore : List Certificate)
  | foundCandidateIssuersOfPartialChainInIntermediateStore (partialChain : List Certificate)
      (issuersInIntermediateStore : List Certificate)
  | foundValidCertificateChain (validCertificateChain : List Certificate)
  | couldNotValidateLeafCertificate (leaf : Certificate)
  | issuerIsAlreadyInTheChain (partialChain : List Certificate) (issuer : Certificate)
deriving DecidableEq

/-- `Option<&mut dyn FnMut(VerificationDiagnostic)>`: how a call changes the
state the callback has captured. -/
abbrev DiagnosticCallback (σ : Type) := Option (σ → VerificationDiagnostic → σ)

/-- `diagnose!`. -/
def diagnose {σ : Type} (diagnostics : DiagnosticCallback σ) (sink : σ)
    (diagnostic : VerificationDiagnostic) : σ :=
  match diagnostics with
  | some callback => callback sink diagnostic
  | none => sink

/-! ## The validator -/

inductive CryptoError
  | invalidKey (message : String)
  | verificationFailed
deriving DecidableEq, Repr

/-- `verify_signature(algorithm, public_key, message, signature)`. -/
structure SignatureVerifier where
  verifySignature : AlgorithmIdentifier → SubjectPublicKeyInfo → Bytes → Bytes →
    Except CryptoError Unit

structure Validator where
  rootCertificates : CertificateStore
  crypto : SignatureVerifier
  policy : ValidationPolicy

/-- A chain that was built but rejected by policy, and why. -/
structure PolicyFailure where
  chain : UnverifiedCertificateChain
  policyFailureReason : PolicyFailureReason
deriving DecidableEq

abbrev ChainValidationResult := Except (List PolicyFailure) ValidatedCertificateChain

/-- The mutable variables of the search other than the stack. -/
structure Progress (σ : Type) where
  policyFailures : List PolicyFailure
  evaluated : List UnverifiedCertificateChain
  sink : σ

/-- How `validate_inner` ends. -/
inductive Exit (σ : Type)
  | panicked
  | returned (result : ChainValidationResult) (evaluated : List UnverifiedCertificateChain)
      (sink : σ)

/-- `unwrap()`, and the assertions of the chain constructors. -/
def unwrap {σ α : Type} : Option α → Except (Exit σ) α
  | some a => .ok a
  | none => .error .panicked

/-! ## Candidates -/

/-- The rank of a candidate issuer: its key identifier matches, it has none (or
the subject names none), or the two differ. -/
def rank (subject candidate : Certificate) : Nat :=
  match subject.authorityKeyIdentifier, candidate.subjectKeyIdentifier with
  | some aki, some ski => if aki == ski then 0 else 2
  | _, none => 1
  | none, some _ => 1

/-- `sort_by_key` is stable, and so is `List.insertionSort`. -/
def sortBySuitabilityForIssuing (candidates : List Certificate) (subject : Certificate) :
    List Certificate :=
  candidates.insertionSort fun a b => rank subject a ≤ rank subject b

variable {σ : Type}

def shouldSkipAddingCertificate (candidate : Certificate) (partialChain : List Certificate)
    (crypto : SignatureVerifier) (policy : ValidationPolicy) (diagnostics : DiagnosticCallback σ)
    (sink : σ) : Except (Exit σ) (Bool × σ) :=
  if hasUnhandledCriticalExtensions candidate policy then
    .ok (true, diagnose diagnostics sink (.issuerHasUnhandledCriticalExtension candidate
      partialChain policy.verifyingCriticalExtensions))
  else if partialChain.any fun existing => existing.hasSameIdentityAs candidate then
    .ok (true, diagnose diagnostics sink (.issuerIsAlreadyInTheChain partialChain candidate))
  else do
    let tip ← unwrap partialChain.getLast?
    let signatureVerifies := (crypto.verifySignature tip.signatureAlgorithm candidate.publicKey
      tip.tbs tip.signatureValue.data).isOk
    if !signatureVerifies then
      return (true, diagnose diagnostics sink
        (.issuerHasNotSignedCertificate candidate partialChain))
    else
      return (false, sink)

/-! ## One iteration -/

/-- The loop over the root candidates. Each one that is not skipped completes a
chain, which is handed to the policy; an accepted chain ends the search. -/
def tryRootCandidates (v : Validator) (diagnostics : DiagnosticCallback σ)
    (partialChain : List Certificate) :
    List Certificate → Progress σ → Except (Exit σ) (Progress σ)
  | [], g => .ok g
  | candidate :: rest, g => do
    let (skip, sink) ← shouldSkipAddingCertificate candidate partialChain v.crypto v.policy
      diagnostics g.sink
    if skip then
      tryRootCandidates v diagnostics partialChain rest { g with sink }
    else
      let chainCerts := partialChain ++ [candidate]
      let chain ← unwrap (UnverifiedCertificateChain.new chainCerts)
      match v.policy.chainMeetsPolicyRequirements chain with
      | .ok () =>
        let valid ← unwrap (ValidatedCertificateChain.newUnchecked chainCerts)
        .error (.returned (.ok valid) (g.evaluated ++ [chain])
          (diagnose diagnostics sink (.foundValidCertificateChain chainCerts)))
      | .error reason =>
        tryRootCandidates v diagnostics partialChain rest
          { policyFailures := g.policyFailures ++ [⟨chain, reason⟩]
            evaluated := g.evaluated ++ [chain]
            sink := diagnose diagnostics sink (.chainFailsToMeetPolicy chainCerts reason) }

/-- The loop over the intermediate candidates, in the order in which it runs.
The top of the stack is the head of the list. -/
def pushIntermediateCandidates (v : Validator) (diagnostics : DiagnosticCallback σ)
    (partialChain : List Certificate) :
    List Certificate → List (List Certificate) → σ →
      Except (Exit σ) (List (List Certificate) × σ)
  | [], stack, sink => .ok (stack, sink)
  | candidate :: rest, stack, sink => do
    let (skip, sink) ← shouldSkipAddingCertificate candidate partialChain v.crypto v.policy
      diagnostics sink
    if skip then
      pushIntermediateCandidates v diagnostics partialChain rest stack sink
    else
      pushIntermediateCandidates v diagnostics partialChain rest
        ((partialChain ++ [candidate]) :: stack) sink

/-- The body of the `while` loop, for the partial chain that was popped and the
rest of the stack. -/
def searchIteration (v : Validator) (intermediates : CertificateStore)
    (diagnostics : DiagnosticCallback σ) (partialChain : List Certificate)
    (stack : List (List Certificate)) (g : Progress σ) :
    Except (Exit σ) (List (List Certificate) × Progress σ) := do
  let sink := diagnose diagnostics g.sink (.searchingForIssuerOfPartialChain partialChain)
  let tip ← unwrap partialChain.getLast?
  let issuerKey := tip.issuerKey
  -- roots first, as these may give shorter chains
  let rootCandidates :=
    sortBySuitabilityForIssuing (v.rootCertificates.findBySubject issuerKey) tip
  let sink := if rootCandidates.isEmpty then sink else
    diagnose diagnostics sink
      (.foundCandidateIssuersOfPartialChainInRootStore partialChain rootCandidates)
  let g ← tryRootCandidates v diagnostics partialChain rootCandidates { g with sink }
  let intermediateCandidates :=
    sortBySuitabilityForIssuing (intermediates.findBySubject issuerKey) tip
  let sink := if intermediateCandidates.isEmpty then g.sink else
    diagnose diagnostics g.sink
      (.foundCandidateIssuersOfPartialChainInIntermediateStore partialChain intermediateCandidates)
  -- pushed in reverse, so that the best candidate is popped first
  let (stack, sink) ← pushIntermediateCandidates v diagnostics partialChain
    intermediateCandidates.reverse stack sink
  return (stack, { g with sink })

end X509Validator
