import X509Validator.Lib.Checks
import X509Validator.Simulation
import Mathlib.Data.Nat.Size

/-!
# The crypto backends

A `SignatureVerifier` turns the algorithm identifier of a signature and the key
of the signer into a verification algorithm and hands the bytes to a crypto
library. `verification_algorithm` is shared by the three backends, which differ
in what they do with the algorithm it selects: `AwsLc` knows all of them, `Ring`
has no ECDSA with SHA-512, and `RustCrypto` in addition refuses RSA keys whose
modulus is not of 256 to 1024 bytes. That is a count of bytes, rounded up: a
modulus of 2041 bits has 256 of them.

The libraries and the DER decoders are not part of this repository. They are the
parameters `Library`, `RustCryptoLibrary` and `Decoders`. Where `Ring` and `AwsLc`
are compared, each library is assumed to verify as standardised under the keys it
is documented for, and nothing is assumed of it for others, such as an RSA modulus
of 2041 bits.

Results:
1. `ring_and_aws_lc_runs`: where the keys are as documented, a leaf that is accepted
   with `Ring` is accepted with `AwsLc`, and where no certificate is signed with
   ECDSA and SHA-512 the runs are the same.
2. `rust_crypto_chain_signatures`: the signatures and keys of a chain that is
   accepted with `RustCrypto`.
-/

namespace X509Validator

/-! ## Object identifiers -/

def oidPkcs1RsaSsaPss : Oid := ⟨[1, 2, 840, 113549, 1, 1, 10]⟩
def oidPkcs1Sha1WithRsa : Oid := ⟨[1, 2, 840, 113549, 1, 1, 5]⟩
def oidSha1WithRsa : Oid := ⟨[1, 3, 14, 3, 2, 29]⟩
def oidPkcs1Sha256WithRsa : Oid := ⟨[1, 2, 840, 113549, 1, 1, 11]⟩
def oidPkcs1Sha384WithRsa : Oid := ⟨[1, 2, 840, 113549, 1, 1, 12]⟩
def oidPkcs1Sha512WithRsa : Oid := ⟨[1, 2, 840, 113549, 1, 1, 13]⟩
def oidSigEcdsaWithSha256 : Oid := ⟨[1, 2, 840, 10045, 4, 3, 2]⟩
def oidSigEcdsaWithSha384 : Oid := ⟨[1, 2, 840, 10045, 4, 3, 3]⟩
def oidSigEcdsaWithSha512 : Oid := ⟨[1, 2, 840, 10045, 4, 3, 4]⟩
def oidSigEd25519 : Oid := ⟨[1, 3, 101, 112]⟩
def oidEcP256 : Oid := ⟨[1, 2, 840, 10045, 3, 1, 7]⟩
def oidNistEcP384 : Oid := ⟨[1, 3, 132, 0, 34]⟩
def oidNistHashSha256 : Oid := ⟨[2, 16, 840, 1, 101, 3, 4, 2, 1]⟩
def oidNistHashSha384 : Oid := ⟨[2, 16, 840, 1, 101, 3, 4, 2, 2]⟩
def oidNistHashSha512 : Oid := ⟨[2, 16, 840, 1, 101, 3, 4, 2, 3]⟩

/-! ## The algorithm of a signature -/

/-- The decoders of algorithm parameters. -/
structure Decoders where
  /-- `RsaSsaPssParams::try_from(params)`, and of these `hash_algorithm_oid()`. -/
  pssHashAlgorithm : Bytes → Option Oid
  /-- `Any::as_oid()`. -/
  asOid : Bytes → Option Oid

inductive VerificationAlgorithm
  | rsaPkcs1Sha1
  | rsaPkcs1Sha256
  | rsaPkcs1Sha384
  | rsaPkcs1Sha512
  | rsaPssSha256
  | rsaPssSha384
  | rsaPssSha512
  | ecdsaP256Sha256
  | ecdsaP256Sha384
  | ecdsaP256Sha512
  | ecdsaP384Sha256
  | ecdsaP384Sha384
  | ecdsaP384Sha512
  | ed25519
deriving DecidableEq, Repr

def rsaPssDigestBits (decoders : Decoders) (params : Option Bytes) : Option Nat := do
  let params ← params
  let hashAlgorithm ← decoders.pssHashAlgorithm params
  if hashAlgorithm = oidNistHashSha256 then
    some 256
  else if hashAlgorithm = oidNistHashSha384 then
    some 384
  else if hashAlgorithm = oidNistHashSha512 then
    some 512
  else
    none

def rsaPssAlgorithm (decoders : Decoders) (params : Option Bytes) :
    Option VerificationAlgorithm := do
  match ← rsaPssDigestBits decoders params with
  | 256 => some .rsaPssSha256
  | 384 => some .rsaPssSha384
  | 512 => some .rsaPssSha512
  | _ => none

def ecdsaAlgorithm (decoders : Decoders) (publicKeyAlgorithm : AlgorithmIdentifier)
    (shaLen : Nat) : Option VerificationAlgorithm := do
  let parameters ← publicKeyAlgorithm.parameters
  let curveOid ← decoders.asOid parameters
  if curveOid = oidEcP256 then
    match shaLen with
    | 256 => some .ecdsaP256Sha256
    | 384 => some .ecdsaP256Sha384
    | 512 => some .ecdsaP256Sha512
    | _ => none
  else if curveOid = oidNistEcP384 then
    match shaLen with
    | 256 => some .ecdsaP384Sha256
    | 384 => some .ecdsaP384Sha384
    | 512 => some .ecdsaP384Sha512
    | _ => none
  else
    none

def verificationAlgorithm (decoders : Decoders) (signatureAlgorithm : AlgorithmIdentifier)
    (publicKey : SubjectPublicKeyInfo) : Option VerificationAlgorithm :=
  let oid := signatureAlgorithm.algorithm
  if oid = oidPkcs1Sha1WithRsa ∨ oid = oidSha1WithRsa then
    some .rsaPkcs1Sha1
  else if oid = oidPkcs1Sha256WithRsa then
    some .rsaPkcs1Sha256
  else if oid = oidPkcs1Sha384WithRsa then
    some .rsaPkcs1Sha384
  else if oid = oidPkcs1Sha512WithRsa then
    some .rsaPkcs1Sha512
  else if oid = oidPkcs1RsaSsaPss then
    rsaPssAlgorithm decoders signatureAlgorithm.parameters
  else if oid = oidSigEcdsaWithSha256 then
    ecdsaAlgorithm decoders publicKey.algorithm 256
  else if oid = oidSigEcdsaWithSha384 then
    ecdsaAlgorithm decoders publicKey.algorithm 384
  else if oid = oidSigEcdsaWithSha512 then
    ecdsaAlgorithm decoders publicKey.algorithm 512
  else if oid = oidSigEd25519 then
    some .ed25519
  else
    none

/-! ## `Ring` and `AwsLc` -/

/-- The algorithms of `ring::signature` and `aws_lc_rs::signature`. -/
inductive LibraryAlgorithm
  | rsaPkcs1From1024To8192Sha1ForLegacyUseOnly
  | rsaPkcs1From2048To8192Sha256
  | rsaPkcs1From2048To8192Sha384
  | rsaPkcs1From2048To8192Sha512
  | rsaPssFrom2048To8192Sha256
  | rsaPssFrom2048To8192Sha384
  | rsaPssFrom2048To8192Sha512
  | ecdsaP256Sha256Asn1
  | ecdsaP256Sha384Asn1
  | ecdsaP256Sha512Asn1
  | ecdsaP384Sha256Asn1
  | ecdsaP384Sha384Asn1
  | ecdsaP384Sha512Asn1
  | ed25519
deriving DecidableEq, Repr

inductive Curve
  | p256
  | p384
deriving DecidableEq, Repr

/-- `UnparsedPublicKey::new(algorithm, key).verify(message, signature)`. -/
structure Library where
  verify : LibraryAlgorithm → Bytes → Bytes → Bytes → Bool

/-- The arguments of `backend!`: the digest sizes and algorithms for each curve. -/
structure Backend where
  ecdsaP256 : List (Nat × LibraryAlgorithm)
  ecdsaP384 : List (Nat × LibraryAlgorithm)

/-- `ecdsa_p256`, where `none` is the panic. -/
def ecdsaP256 : Nat → Option VerificationAlgorithm
  | 256 => some .ecdsaP256Sha256
  | 384 => some .ecdsaP256Sha384
  | 512 => some .ecdsaP256Sha512
  | _ => none

/-- `ecdsa_p384`, where `none` is the panic. -/
def ecdsaP384 : Nat → Option VerificationAlgorithm
  | 256 => some .ecdsaP384Sha256
  | 384 => some .ecdsaP384Sha384
  | 512 => some .ecdsaP384Sha512
  | _ => none

namespace Backend

/-- The arms of the match that `backend!` generates from a table. -/
def ecdsaArms (table : List (Nat × LibraryAlgorithm)) (ecdsa : Nat → Option VerificationAlgorithm)
    (algorithm : VerificationAlgorithm) : Option LibraryAlgorithm :=
  (table.find? fun arm => some algorithm = ecdsa arm.1).map Prod.snd

def backendAlgorithm (backend : Backend) : VerificationAlgorithm → Option LibraryAlgorithm
  | .rsaPkcs1Sha1 => some .rsaPkcs1From1024To8192Sha1ForLegacyUseOnly
  | .rsaPkcs1Sha256 => some .rsaPkcs1From2048To8192Sha256
  | .rsaPkcs1Sha384 => some .rsaPkcs1From2048To8192Sha384
  | .rsaPkcs1Sha512 => some .rsaPkcs1From2048To8192Sha512
  | .rsaPssSha256 => some .rsaPssFrom2048To8192Sha256
  | .rsaPssSha384 => some .rsaPssFrom2048To8192Sha384
  | .rsaPssSha512 => some .rsaPssFrom2048To8192Sha512
  | .ed25519 => some .ed25519
  | algorithm =>
    (ecdsaArms backend.ecdsaP256 X509Validator.ecdsaP256 algorithm).or
      (ecdsaArms backend.ecdsaP384 X509Validator.ecdsaP384 algorithm)

def unsupported (algorithm : AlgorithmIdentifier) : CryptoError :=
  .invalidKey ("unsupported algorithm: " ++ algorithm.algorithm.toIdString)

/-- The implementation of `SignatureVerifier` that `backend!` generates. -/
def verifier (backend : Backend) (decoders : Decoders) (library : Library) :
    SignatureVerifier where
  verifySignature algorithm publicKey message signature :=
    match (verificationAlgorithm decoders algorithm publicKey).bind backend.backendAlgorithm with
    | none => .error (unsupported algorithm)
    | some libraryAlgorithm =>
      if library.verify libraryAlgorithm publicKey.subjectPublicKey.data message signature then
        .ok ()
      else .error .verificationFailed

/-- `backend!` in `ring.rs`. -/
def ring : Backend where
  ecdsaP256 := [(256, .ecdsaP256Sha256Asn1), (384, .ecdsaP256Sha384Asn1)]
  ecdsaP384 := [(256, .ecdsaP384Sha256Asn1), (384, .ecdsaP384Sha384Asn1)]

/-- `backend!` in `aws_lc.rs`. -/
def awsLc : Backend where
  ecdsaP256 := [(256, .ecdsaP256Sha256Asn1), (384, .ecdsaP256Sha384Asn1),
    (512, .ecdsaP256Sha512Asn1)]
  ecdsaP384 := [(256, .ecdsaP384Sha256Asn1), (384, .ecdsaP384Sha384Asn1),
    (512, .ecdsaP384Sha512Asn1)]

end Backend

/-! ## What is documented of the two libraries -/

/-- ECDSA with SHA-512, which `ring` does not have. -/
def VerificationAlgorithm.isEcdsaSha512 : VerificationAlgorithm → Bool
  | .ecdsaP256Sha512 => true
  | .ecdsaP384Sha512 => true
  | _ => false

def LibraryAlgorithm.isEcdsaSha512 : LibraryAlgorithm → Bool
  | .ecdsaP256Sha512Asn1 => true
  | .ecdsaP384Sha512Asn1 => true
  | _ => false

/-- The public keys and valid signatures of the standards. -/
structure SignatureStandard where
  /-- The bits of the modulus, where the bytes are an RSA public key. -/
  rsaModulusBits : Bytes → Option Nat
  isUncompressedPoint : Curve → Bytes → Bool
  isEd25519Key : Bytes → Bool
  valid : LibraryAlgorithm → Bytes → Bytes → Bytes → Bool

namespace SignatureStandard

variable (standard : SignatureStandard)

def IsRsaKey (minBits maxBits : Nat) (key : Bytes) : Prop :=
  ∃ bits, standard.rsaModulusBits key = some bits ∧ minBits ≤ bits ∧ bits ≤ maxBits

/-- The keys that an algorithm is documented for: a modulus of the bits in its name,
or an uncompressed point of its curve. -/
def Documents : LibraryAlgorithm → Bytes → Prop
  | .rsaPkcs1From1024To8192Sha1ForLegacyUseOnly => standard.IsRsaKey 1024 8192
  | .rsaPkcs1From2048To8192Sha256 => standard.IsRsaKey 2048 8192
  | .rsaPkcs1From2048To8192Sha384 => standard.IsRsaKey 2048 8192
  | .rsaPkcs1From2048To8192Sha512 => standard.IsRsaKey 2048 8192
  | .rsaPssFrom2048To8192Sha256 => standard.IsRsaKey 2048 8192
  | .rsaPssFrom2048To8192Sha384 => standard.IsRsaKey 2048 8192
  | .rsaPssFrom2048To8192Sha512 => standard.IsRsaKey 2048 8192
  | .ecdsaP256Sha256Asn1 => fun key => standard.isUncompressedPoint .p256 key
  | .ecdsaP256Sha384Asn1 => fun key => standard.isUncompressedPoint .p256 key
  | .ecdsaP256Sha512Asn1 => fun key => standard.isUncompressedPoint .p256 key
  | .ecdsaP384Sha256Asn1 => fun key => standard.isUncompressedPoint .p384 key
  | .ecdsaP384Sha384Asn1 => fun key => standard.isUncompressedPoint .p384 key
  | .ecdsaP384Sha512Asn1 => fun key => standard.isUncompressedPoint .p384 key
  | .ed25519 => fun key => standard.isEd25519Key key

/-- Under the keys that an algorithm is documented for, the library verifies what is
valid. Nothing is said of ECDSA with SHA-512. -/
def ImplementedBy (library : Library) : Prop :=
  ∀ algorithm key message signature, algorithm.isEcdsaSha512 = false →
    standard.Documents algorithm key →
    library.verify algorithm key message signature = standard.valid algorithm key message signature

/-- The key of the issuer is one that the algorithm selected for the signature is
documented for, if `ring` has that algorithm. -/
def DocumentsKey (decoders : Decoders) (subject issuer : Certificate) : Prop :=
  ∀ algorithm libraryAlgorithm,
    verificationAlgorithm decoders subject.signatureAlgorithm issuer.publicKey = some algorithm →
    Backend.ring.backendAlgorithm algorithm = some libraryAlgorithm →
    standard.Documents libraryAlgorithm issuer.publicKey.subjectPublicKey.data

end SignatureStandard

/-! ## What the two backends of `backend!` have in common -/

theorem ring_backendAlgorithm (algorithm : VerificationAlgorithm) :
    Backend.ring.backendAlgorithm algorithm =
      if algorithm.isEcdsaSha512 then none else Backend.awsLc.backendAlgorithm algorithm := by
  cases algorithm <;> rfl

theorem isEcdsaSha512_of_backendAlgorithm {algorithm : VerificationAlgorithm}
    {libraryAlgorithm : LibraryAlgorithm}
    (h : Backend.awsLc.backendAlgorithm algorithm = some libraryAlgorithm) :
    libraryAlgorithm.isEcdsaSha512 = algorithm.isEcdsaSha512 := by
  cases algorithm <;> cases h <;> rfl

section

variable {decoders : Decoders} {signatureAlgorithm : AlgorithmIdentifier}
  {publicKey : SubjectPublicKeyInfo} {algorithm : VerificationAlgorithm}

theorem rsaPssAlgorithm_not_ecdsa {params : Option Bytes}
    (h : rsaPssAlgorithm decoders params = some algorithm) :
    algorithm.isEcdsaSha512 = false := by
  unfold rsaPssAlgorithm at h
  obtain ⟨bits, _, hbits⟩ := Option.bind_eq_some_iff.mp h
  split at hbits <;> cases hbits <;> rfl

theorem ecdsaAlgorithm_isEcdsaSha512 {shaLen : Nat} (hlen : shaLen ≠ 512)
    (h : ecdsaAlgorithm decoders publicKey.algorithm shaLen = some algorithm) :
    algorithm.isEcdsaSha512 = false := by
  unfold ecdsaAlgorithm at h
  obtain ⟨parameters, _, h⟩ := Option.bind_eq_some_iff.mp h
  obtain ⟨curveOid, _, h⟩ := Option.bind_eq_some_iff.mp h
  split at h
  · split at h
    · cases h
      rfl
    · cases h
      rfl
    · exact absurd rfl hlen
    · cases h
  · split at h
    · split at h
      · cases h
        rfl
      · cases h
        rfl
      · exact absurd rfl hlen
      · cases h
    · cases h

/-- ECDSA with SHA-512 is selected for its own identifier only. -/
theorem algorithm_eq_of_isEcdsaSha512
    (h : verificationAlgorithm decoders signatureAlgorithm publicKey = some algorithm)
    (hsha : algorithm.isEcdsaSha512 = true) :
    signatureAlgorithm.algorithm = oidSigEcdsaWithSha512 := by
  by_contra hoid
  have hfalse : algorithm.isEcdsaSha512 = false := by
    simp only [verificationAlgorithm, if_neg hoid] at h
    split at h
    · cases h
      rfl
    split at h
    · cases h
      rfl
    split at h
    · cases h
      rfl
    split at h
    · cases h
      rfl
    split at h
    · exact rsaPssAlgorithm_not_ecdsa h
    split at h
    · exact ecdsaAlgorithm_isEcdsaSha512 (by decide) h
    split at h
    · exact ecdsaAlgorithm_isEcdsaSha512 (by decide) h
    split at h
    · cases h
      rfl
    · cases h
  rw [hsha] at hfalse
  cases hfalse

end

/-- A backend of `backend!` verifies a signature if it knows the algorithm and the
library verifies it. -/
theorem Backend.signedBy_verifier {backend : Backend} {decoders : Decoders} {library : Library}
    {subject issuer : Certificate} :
    signedBy (backend.verifier decoders library) subject issuer = true ↔
      ∃ algorithm libraryAlgorithm,
        verificationAlgorithm decoders subject.signatureAlgorithm issuer.publicKey =
          some algorithm ∧
        backend.backendAlgorithm algorithm = some libraryAlgorithm ∧
        library.verify libraryAlgorithm issuer.publicKey.subjectPublicKey.data subject.tbs
          subject.signatureValue.data = true := by
  rw [signedBy_iff]
  show (match (verificationAlgorithm decoders subject.signatureAlgorithm issuer.publicKey).bind
      backend.backendAlgorithm with
    | none => Except.error (unsupported subject.signatureAlgorithm)
    | some libraryAlgorithm =>
      if library.verify libraryAlgorithm issuer.publicKey.subjectPublicKey.data subject.tbs
        subject.signatureValue.data then Except.ok ()
      else Except.error CryptoError.verificationFailed) =
    Except.ok () ↔ _
  cases hselected : verificationAlgorithm decoders subject.signatureAlgorithm issuer.publicKey with
  | none => simp
  | some algorithm =>
    rw [Option.bind_some]
    cases hknown : backend.backendAlgorithm algorithm with
    | none => simp [hknown]
    | some libraryAlgorithm => simp [hknown]

section

variable {decoders : Decoders} {ringLibrary awsLcLibrary : Library}
  {standard : SignatureStandard} {subject issuer : Certificate}
  (hring : standard.ImplementedBy ringLibrary) (hawsLc : standard.ImplementedBy awsLcLibrary)
  (hkey : standard.DocumentsKey decoders subject issuer)

include hring hawsLc hkey

/-- Where both backends know the algorithm, both verify the signature or none. -/
theorem verify_eq_of_documented {algorithm : VerificationAlgorithm}
    {libraryAlgorithm : LibraryAlgorithm}
    (hselected : verificationAlgorithm decoders subject.signatureAlgorithm issuer.publicKey =
      some algorithm)
    (hsha : algorithm.isEcdsaSha512 = false)
    (hknown : Backend.awsLc.backendAlgorithm algorithm = some libraryAlgorithm)
    (message signature : Bytes) :
    ringLibrary.verify libraryAlgorithm issuer.publicKey.subjectPublicKey.data message signature =
      awsLcLibrary.verify libraryAlgorithm issuer.publicKey.subjectPublicKey.data message
        signature := by
  have hknown' : Backend.ring.backendAlgorithm algorithm = some libraryAlgorithm := by
    rw [ring_backendAlgorithm, hsha, if_neg Bool.false_ne_true, hknown]
  have hdocumented := hkey algorithm libraryAlgorithm hselected hknown'
  have hsha' : libraryAlgorithm.isEcdsaSha512 = false := by
    rw [isEcdsaSha512_of_backendAlgorithm hknown, hsha]
  rw [hring _ _ _ _ hsha' hdocumented, hawsLc _ _ _ _ hsha' hdocumented]

theorem signedBy_awsLc_of_ring
    (h : signedBy (Backend.ring.verifier decoders ringLibrary) subject issuer = true) :
    signedBy (Backend.awsLc.verifier decoders awsLcLibrary) subject issuer = true := by
  obtain ⟨algorithm, libraryAlgorithm, hselected, hknown, hverify⟩ :=
    Backend.signedBy_verifier.mp h
  rw [ring_backendAlgorithm] at hknown
  cases hsha : algorithm.isEcdsaSha512 with
  | true => simp [hsha] at hknown
  | false =>
    rw [hsha, if_neg Bool.false_ne_true] at hknown
    rw [verify_eq_of_documented hring hawsLc hkey hselected hsha hknown] at hverify
    exact Backend.signedBy_verifier.mpr ⟨algorithm, libraryAlgorithm, hselected, hknown, hverify⟩

theorem signedBy_ring_of_awsLc
    (hoid : subject.signatureAlgorithm.algorithm ≠ oidSigEcdsaWithSha512)
    (h : signedBy (Backend.awsLc.verifier decoders awsLcLibrary) subject issuer = true) :
    signedBy (Backend.ring.verifier decoders ringLibrary) subject issuer = true := by
  obtain ⟨algorithm, libraryAlgorithm, hselected, hknown, hverify⟩ :=
    Backend.signedBy_verifier.mp h
  have hsha : algorithm.isEcdsaSha512 = false := by
    rw [Bool.eq_false_iff]
    exact fun hsha => hoid (algorithm_eq_of_isEcdsaSha512 hselected hsha)
  rw [← verify_eq_of_documented hring hawsLc hkey hselected hsha hknown] at hverify
  refine Backend.signedBy_verifier.mpr ⟨algorithm, libraryAlgorithm, hselected, ?_, hverify⟩
  rw [ring_backendAlgorithm, hsha, if_neg Bool.false_ne_true, hknown]

end

/-! ## 1. `Ring` and `AwsLc` -/

/-- Provided that each of the two libraries verifies as standardised under the keys
it is documented for, and that the keys with which a run for this leaf can check a
signature are such keys: if the leaf is accepted with `Ring`, it is accepted with
`AwsLc`, and where neither the leaf nor an intermediate certificate is signed with
ECDSA and SHA-512, the two return the same result and emit the same events. -/
theorem ring_and_aws_lc_runs (decoders : Decoders) (ringLibrary awsLcLibrary : Library)
    (standard : SignatureStandard) (hring : standard.ImplementedBy ringLibrary)
    (hawsLc : standard.ImplementedBy awsLcLibrary)
    (rootCertificates : CertificateStore) (policy : ValidationPolicy) (leaf : Certificate)
    (intermediates : CertificateStore)
    (hkeys : ∀ subject issuer, Asks rootCertificates leaf intermediates subject issuer →
      standard.DocumentsKey decoders subject issuer) :
    let ring : Validator :=
      ⟨rootCertificates, Backend.ring.verifier decoders ringLibrary, policy⟩
    let awsLc : Validator :=
      ⟨rootCertificates, Backend.awsLc.verifier decoders awsLcLibrary, policy⟩
    (∀ chain, ring.validate leaf intermediates = .ok chain →
      ∃ chain', awsLc.validate leaf intermediates = .ok chain') ∧
    (leaf.signatureAlgorithm.algorithm ≠ oidSigEcdsaWithSha512 →
      (∀ c ∈ intermediates, c.signatureAlgorithm.algorithm ≠ oidSigEcdsaWithSha512) →
      ring.validate leaf intermediates = awsLc.validate leaf intermediates ∧
      ring.emitted leaf intermediates = awsLc.emitted leaf intermediates) := by
  intro ring awsLc
  have hlooser : Looser ring awsLc leaf intermediates intermediates :=
    { roots := fun _ hc => hc
      issuers := fun _ hc => hc
      signed := fun subject issuer hasks =>
        signedBy_awsLc_of_ring hring hawsLc (hkeys subject issuer hasks)
      listed := fun _ hoid => hoid
      accepts := fun _ haccepts => haccepts }
  refine ⟨fun chain hchain => hlooser.exists_ok hchain, fun hleaf hintermediates => ?_⟩
  have hagree : Agree ring awsLc leaf intermediates intermediates :=
    { roots := fun _ => rfl
      issuers := fun _ => rfl
      signed := fun subject issuer hasks => by
        have hkey := hkeys subject issuer hasks
        have hoid : subject.signatureAlgorithm.algorithm ≠ oidSigEcdsaWithSha512 := by
          rcases hasks.signed with rfl | hsubject
          · exact hleaf
          · exact hintermediates subject hsubject
        rw [Bool.eq_iff_iff]
        exact ⟨signedBy_awsLc_of_ring hring hawsLc hkey,
          signedBy_ring_of_awsLc hring hawsLc hkey hoid⟩
      listed := fun _ => Iff.rfl
      accepts := fun _ => Iff.rfl }
  exact hagree.run_identical rfl

namespace SamplePki

/-- A key of 32 bytes. -/
def edKey (key : String) : Bytes := (List.replicate 8 (bytes key)).flatten

/-- A certificate of the small PKI with an Ed25519 key and signature. -/
def edCertificate (subject issuer key signer : String) : Certificate :=
  { certificate subject issuer key signer with
    subjectPki := ⟨⟨oidSigEd25519, none⟩, ⟨0, edKey key⟩, edKey key⟩
    signatureAlgorithm := ⟨oidSigEd25519, none⟩
    signatureValue := ⟨0, edKey signer ++ edKey signer⟩ }

def edLeaf : Certificate := edCertificate "leaf" "root" "key0" "key3"
def edRoot : Certificate := edCertificate "root" "root" "key3" "key3"

/-- Parameters are not decoded. -/
def decoders : Decoders := ⟨fun _ => none, fun _ => none⟩

/-- Keys of 32 bytes, and signatures that repeat the key they were made with. -/
def edStandard : SignatureStandard where
  rsaModulusBits _ := none
  isUncompressedPoint _ _ := false
  isEd25519Key key := key.length == 32
  valid _ key _ signature := signature == key ++ key

def edLibrary : Library := ⟨edStandard.valid⟩

/-- Without ECDSA and SHA-512. -/
def smallLibrary : Library :=
  ⟨fun algorithm key message signature =>
    !algorithm.isEcdsaSha512 && edStandard.valid algorithm key message signature⟩

/-- The one key that can be asked for is that of the root. -/
theorem documentsKey_edRoot {subject issuer : Certificate}
    (h : Asks (.fromIter [edRoot]) edLeaf .new subject issuer) :
    edStandard.DocumentsKey decoders subject issuer := by
  have hsubject : subject = edLeaf := h.signed.resolve_right CertificateStore.not_mem_new
  have hissuer : issuer = edRoot := List.mem_singleton.mp
    (CertificateStore.mem_fromIter.mp (h.stored.resolve_right CertificateStore.not_mem_new))
  rw [hsubject, hissuer]
  rintro algorithm libraryAlgorithm hselected hknown
  obtain rfl : VerificationAlgorithm.ed25519 = algorithm := Option.some.inj hselected
  obtain rfl : LibraryAlgorithm.ed25519 = libraryAlgorithm := Option.some.inj hknown
  show (edKey "key3").length == 32
  decide +kernel

end SamplePki

/-- An Ed25519 signature by the root. -/
theorem ring_and_aws_lc_runs_ed25519 :
    ∃ chain, Validator.validate ⟨.fromIter [SamplePki.edRoot],
      Backend.awsLc.verifier SamplePki.decoders SamplePki.edLibrary, ⟨[], fun _ => .ok ()⟩⟩
      SamplePki.edLeaf .new = .ok chain := by
  refine (ring_and_aws_lc_runs SamplePki.decoders SamplePki.smallLibrary SamplePki.edLibrary
    SamplePki.edStandard ?_ (fun _ _ _ _ _ _ => rfl) (.fromIter [SamplePki.edRoot])
    ⟨[], fun _ => .ok ()⟩ SamplePki.edLeaf .new fun _ _ => SamplePki.documentsKey_edRoot).1
    ⟨[SamplePki.edLeaf, SamplePki.edRoot], List.cons_ne_nil _ _⟩ (by decide +kernel)
  intro algorithm key message signature hsha _
  simp [SamplePki.smallLibrary, hsha]

/-! ## `RustCrypto` -/

inductive Digest
  | sha1
  | sha256
  | sha384
  | sha512
deriving DecidableEq, Repr

/-- The crates that `RustCrypto` calls. A signature is decoded before it is
verified, and failing to do so is reported in the same way as a signature that
does not verify, so the two are one step here. -/
structure RustCryptoLibrary where
  RsaPublicKey : Type
  EcPublicKey : Type
  EdPublicKey : Type
  /-- `RsaPublicKey::from_public_key_der`. -/
  fromPublicKeyDer : Bytes → Except String RsaPublicKey
  modulus : RsaPublicKey → Nat
  verifyPkcs1v15 : Digest → RsaPublicKey → Bytes → Bytes → Bool
  verifyPss : Digest → RsaPublicKey → Bytes → Bytes → Bool
  fromSec1Bytes : Curve → Bytes → Except String EcPublicKey
  /-- `verify`, with the digest that belongs to the curve. -/
  verifyEcdsa : Curve → EcPublicKey → Bytes → Bytes → Bool
  verifyPrehash : Curve → EcPublicKey → Bytes → Bytes → Bool
  digest : Digest → Bytes → Bytes
  tryFrom : Bytes → Except String EdPublicKey
  verifyEd25519 : EdPublicKey → Bytes → Bytes → Bool

/-- `PublicKeyParts::size`: the bytes of the modulus, rounded up. -/
def RustCryptoLibrary.size (library : RustCryptoLibrary) (key : library.RsaPublicKey) : Nat :=
  (Nat.size (library.modulus key) + 7) / 8

namespace RustCrypto

def minRsaModulusBytes : Nat := 2048 / 8
def maxRsaModulusBytes : Nat := 8192 / 8

variable (library : RustCryptoLibrary)

/-- `map_err(|e| CryptoError::InvalidKey(e.to_string()))`. -/
def invalidKey {α : Type} (decoded : Except String α) : Except CryptoError α :=
  decoded.mapError .invalidKey

/-- `map_err(|_| CryptoError::VerificationFailed)`. -/
def verificationFailed (verified : Bool) : Except CryptoError Unit :=
  if verified then .ok () else .error .verificationFailed

def rsaPublicKey (spkiDer : Bytes) : Except CryptoError library.RsaPublicKey := do
  let key ← invalidKey (library.fromPublicKeyDer spkiDer)
  let modulusBytes := library.size key
  if minRsaModulusBytes ≤ modulusBytes ∧ modulusBytes ≤ maxRsaModulusBytes then
    .ok key
  else
    .error (.invalidKey ("RSA modulus of " ++ toString (modulusBytes * 8) ++
      " bits is outside the supported range of " ++ toString (minRsaModulusBytes * 8) ++ "-" ++
      toString (maxRsaModulusBytes * 8) ++ " bits"))

def verifyRsaPkcs1 (digest : Digest) (spkiDer signature message : Bytes) :
    Except CryptoError Unit := do
  let key ← rsaPublicKey library spkiDer
  verificationFailed (library.verifyPkcs1v15 digest key message signature)

def verifyRsaPss (digest : Digest) (spkiDer signature message : Bytes) :
    Except CryptoError Unit := do
  let key ← rsaPublicKey library spkiDer
  verificationFailed (library.verifyPss digest key message signature)

/-- With the digest that belongs to the curve. -/
def verifyEcdsaOwnDigest (curve : Curve) (keyBytes signature message : Bytes) :
    Except CryptoError Unit := do
  let key ← invalidKey (library.fromSec1Bytes curve keyBytes)
  verificationFailed (library.verifyEcdsa curve key message signature)

/-- With another digest. -/
def verifyEcdsaPrehash (curve : Curve) (digest : Digest) (keyBytes signature message : Bytes) :
    Except CryptoError Unit := do
  let key ← invalidKey (library.fromSec1Bytes curve keyBytes)
  verificationFailed (library.verifyPrehash curve key (library.digest digest message) signature)

def verifyEcdsaP256Sha256 : Bytes → Bytes → Bytes → Except CryptoError Unit :=
  verifyEcdsaOwnDigest library .p256

def verifyEcdsaP256Sha384 : Bytes → Bytes → Bytes → Except CryptoError Unit :=
  verifyEcdsaPrehash library .p256 .sha384

def verifyEcdsaP384Sha256 : Bytes → Bytes → Bytes → Except CryptoError Unit :=
  verifyEcdsaPrehash library .p384 .sha256

def verifyEcdsaP384Sha384 : Bytes → Bytes → Bytes → Except CryptoError Unit :=
  verifyEcdsaOwnDigest library .p384

def verifyEd25519 (keyBytes signature message : Bytes) : Except CryptoError Unit := do
  let key ← invalidKey (library.tryFrom keyBytes)
  verificationFailed (library.verifyEd25519 key message signature)

/-- What is done for the selected algorithm. -/
def verifyWith (unsupported : CryptoError) (publicKey : SubjectPublicKeyInfo)
    (message signature : Bytes) : VerificationAlgorithm → Except CryptoError Unit
  | .rsaPkcs1Sha1 => verifyRsaPkcs1 library .sha1 publicKey.raw signature message
  | .rsaPkcs1Sha256 => verifyRsaPkcs1 library .sha256 publicKey.raw signature message
  | .rsaPkcs1Sha384 => verifyRsaPkcs1 library .sha384 publicKey.raw signature message
  | .rsaPkcs1Sha512 => verifyRsaPkcs1 library .sha512 publicKey.raw signature message
  | .rsaPssSha256 => verifyRsaPss library .sha256 publicKey.raw signature message
  | .rsaPssSha384 => verifyRsaPss library .sha384 publicKey.raw signature message
  | .rsaPssSha512 => verifyRsaPss library .sha512 publicKey.raw signature message
  | .ecdsaP256Sha256 =>
    verifyEcdsaP256Sha256 library publicKey.subjectPublicKey.data signature message
  | .ecdsaP256Sha384 =>
    verifyEcdsaP256Sha384 library publicKey.subjectPublicKey.data signature message
  | .ecdsaP384Sha256 =>
    verifyEcdsaP384Sha256 library publicKey.subjectPublicKey.data signature message
  | .ecdsaP384Sha384 =>
    verifyEcdsaP384Sha384 library publicKey.subjectPublicKey.data signature message
  | .ed25519 => verifyEd25519 library publicKey.subjectPublicKey.data signature message
  | .ecdsaP256Sha512 => .error unsupported
  | .ecdsaP384Sha512 => .error unsupported

def verifier (decoders : Decoders) : SignatureVerifier where
  verifySignature algorithm publicKey message signature :=
    match verificationAlgorithm decoders algorithm publicKey with
    | none => .error (Backend.unsupported algorithm)
    | some selected =>
      verifyWith library (Backend.unsupported algorithm) publicKey message signature selected

variable {library}

/-- A key that is used has a modulus of 256 to 1024 bytes, counted in whole bytes. -/
theorem rsaPublicKey_eq_ok {spkiDer : Bytes} {key : library.RsaPublicKey}
    (h : rsaPublicKey library spkiDer = .ok key) :
    library.fromPublicKeyDer spkiDer = .ok key ∧ 2041 ≤ Nat.size (library.modulus key) ∧
      Nat.size (library.modulus key) ≤ 8192 := by
  obtain ⟨decoded, hdecoded, h⟩ := Checks.bind_eq_ok.mp h
  have hkey : library.fromPublicKeyDer spkiDer = .ok decoded := by
    cases hder : library.fromPublicKeyDer spkiDer with
    | error e => simp [invalidKey, hder, Except.mapError] at hdecoded
    | ok key' => simpa [invalidKey, hder, Except.mapError] using hdecoded
  dsimp only at h
  split at h
  · next hsize =>
    cases h
    have hbytes : 256 ≤ (Nat.size (library.modulus key) + 7) / 8 ∧
        (Nat.size (library.modulus key) + 7) / 8 ≤ 1024 := hsize
    exact ⟨hkey, by omega, by omega⟩
  · cases h

end RustCrypto

/-- RSA, with either padding. -/
def VerificationAlgorithm.isRsa : VerificationAlgorithm → Bool
  | .rsaPkcs1Sha1 => true
  | .rsaPkcs1Sha256 => true
  | .rsaPkcs1Sha384 => true
  | .rsaPkcs1Sha512 => true
  | .rsaPssSha256 => true
  | .rsaPssSha384 => true
  | .rsaPssSha512 => true
  | _ => false

namespace RustCrypto

variable {library : RustCryptoLibrary} {decoders : Decoders}

/-- What a signature that `RustCrypto` verifies was checked for. A modulus of 256
bytes has at least 2041 bits. -/
structure Checked (library : RustCryptoLibrary) (decoders : Decoders)
    (subject issuer : Certificate) (algorithm : VerificationAlgorithm) : Prop where
  selected : verificationAlgorithm decoders subject.signatureAlgorithm issuer.publicKey =
    some algorithm
  supported : algorithm.isEcdsaSha512 = false
  modulus : algorithm.isRsa = true →
    ∃ key, library.fromPublicKeyDer issuer.publicKey.raw = .ok key ∧
      2041 ≤ Nat.size (library.modulus key) ∧ Nat.size (library.modulus key) ≤ 8192

theorem verifyWith_eq_ok {unsupported : CryptoError} {publicKey : SubjectPublicKeyInfo}
    {message signature : Bytes} {algorithm : VerificationAlgorithm}
    (h : verifyWith library unsupported publicKey message signature algorithm = .ok ()) :
    algorithm.isEcdsaSha512 = false ∧
      (algorithm.isRsa = true → ∃ key, library.fromPublicKeyDer publicKey.raw = .ok key ∧
        2041 ≤ Nat.size (library.modulus key) ∧ Nat.size (library.modulus key) ≤ 8192) := by
  have hrsa : ∀ {f : library.RsaPublicKey → Except CryptoError Unit},
      rsaPublicKey library publicKey.raw >>= f = .ok () →
      ∃ key, library.fromPublicKeyDer publicKey.raw = .ok key ∧
        2041 ≤ Nat.size (library.modulus key) ∧ Nat.size (library.modulus key) ≤ 8192 := by
    intro f hf
    obtain ⟨key, hkey, _⟩ := Checks.bind_eq_ok.mp hf
    exact ⟨key, rsaPublicKey_eq_ok hkey⟩
  cases algorithm with
  | rsaPkcs1Sha1 => exact ⟨rfl, fun _ => hrsa h⟩
  | rsaPkcs1Sha256 => exact ⟨rfl, fun _ => hrsa h⟩
  | rsaPkcs1Sha384 => exact ⟨rfl, fun _ => hrsa h⟩
  | rsaPkcs1Sha512 => exact ⟨rfl, fun _ => hrsa h⟩
  | rsaPssSha256 => exact ⟨rfl, fun _ => hrsa h⟩
  | rsaPssSha384 => exact ⟨rfl, fun _ => hrsa h⟩
  | rsaPssSha512 => exact ⟨rfl, fun _ => hrsa h⟩
  | ecdsaP256Sha512 => cases h
  | ecdsaP384Sha512 => cases h
  | ecdsaP256Sha256 => exact ⟨rfl, fun hfalse => absurd hfalse Bool.false_ne_true⟩
  | ecdsaP256Sha384 => exact ⟨rfl, fun hfalse => absurd hfalse Bool.false_ne_true⟩
  | ecdsaP384Sha256 => exact ⟨rfl, fun hfalse => absurd hfalse Bool.false_ne_true⟩
  | ecdsaP384Sha384 => exact ⟨rfl, fun hfalse => absurd hfalse Bool.false_ne_true⟩
  | ed25519 => exact ⟨rfl, fun hfalse => absurd hfalse Bool.false_ne_true⟩

theorem exists_checked {subject issuer : Certificate}
    (h : Issued (verifier library decoders) subject issuer) :
    ∃ algorithm, Checked library decoders subject issuer algorithm := by
  have hverified : (match verificationAlgorithm decoders subject.signatureAlgorithm
      issuer.publicKey with
    | none => Except.error (Backend.unsupported subject.signatureAlgorithm)
    | some selected => verifyWith library (Backend.unsupported subject.signatureAlgorithm)
        issuer.publicKey subject.tbs subject.signatureValue.data selected) = .ok () := h.2
  cases hselected : verificationAlgorithm decoders subject.signatureAlgorithm issuer.publicKey with
  | none => simp [hselected] at hverified
  | some algorithm =>
    rw [hselected] at hverified
    obtain ⟨hsupported, hmodulus⟩ := verifyWith_eq_ok hverified
    exact ⟨algorithm, hselected, hsupported, hmodulus⟩

end RustCrypto

/-! ## 2. Chains accepted with `RustCrypto` -/

/-- In a chain that is accepted with `RustCrypto`, every signature that is made by
a certificate of the chain has a supported algorithm, other than ECDSA with
SHA-512, and if that is RSA, whatever the padding and the digest, the key that
made it has a modulus of 2041 to 8192 bits, which are the moduli of 256 to 1024
bytes. The libraries may be any. -/
theorem rust_crypto_chain_signatures (library : RustCryptoLibrary) (decoders : Decoders)
    (rootCertificates : CertificateStore) (policy : ValidationPolicy) (leaf : Certificate)
    (intermediates : CertificateStore) (chain : ValidatedCertificateChain)
    (h : Validator.validate ⟨rootCertificates, RustCrypto.verifier library decoders, policy⟩ leaf
      intermediates = .ok chain) :
    chain.certificates.IsChain fun subject issuer =>
      ∃ algorithm, RustCrypto.Checked library decoders subject issuer algorithm := by
  obtain ⟨_, hlinked, _⟩ := anchored_of_validate_eq_ok h
  exact hlinked.issued.imp fun _ _ hissued => RustCrypto.exists_checked hissued

namespace SamplePki

/-- A modulus of 2041 bits. -/
def rsaModulus : Bytes := 1 :: List.replicate 255 0xc5

/-- The key info of an RSA key with this modulus and the exponent 65537. -/
def rsaSpkiDer : Bytes :=
  [0x30, 0x82, 0x01, 0x21, 0x30, 0x0d, 0x06, 0x09, 0x2a, 0x86, 0x48, 0x86, 0xf7, 0x0d, 0x01, 0x01,
    0x01, 0x05, 0x00, 0x03, 0x82, 0x01, 0x0e, 0x00, 0x30, 0x82, 0x01, 0x09, 0x02, 0x82, 0x01,
    0x00] ++ rsaModulus ++ [0x02, 0x03, 0x01, 0x00, 0x01]

/-- Keys of the length of `rsaSpkiDer`, and signatures that are the modulus. -/
def rustCryptoLibrary : RustCryptoLibrary where
  RsaPublicKey := Bytes
  EcPublicKey := Bytes
  EdPublicKey := Bytes
  fromPublicKeyDer der := .ok ((der.drop 32).take 256)
  modulus key := key.foldl (fun n byte => n * 256 + byte.toNat) 0
  verifyPkcs1v15 _ key _ signature := key == signature
  verifyPss _ key _ signature := key == signature
  fromSec1Bytes _ keyBytes := .ok keyBytes
  verifyEcdsa _ key _ signature := key == signature
  verifyPrehash _ key _ signature := key == signature
  digest _ message := message
  tryFrom keyBytes := .ok keyBytes
  verifyEd25519 key _ signature := key == signature

def rsaLeaf : Certificate :=
  { certificate "leaf" "root" "key0" "key3" with
    signatureAlgorithm := ⟨oidPkcs1Sha256WithRsa, none⟩
    signatureValue := ⟨0, rsaModulus⟩ }

def rsaRoot : Certificate :=
  { certificate "root" "root" "key3" "key3" with
    subjectPki := ⟨⟨⟨[1, 2, 840, 113549, 1, 1, 1]⟩, none⟩, ⟨0, rsaSpkiDer.drop 24⟩, rsaSpkiDer⟩ }

end SamplePki

/-- A modulus of 2041 bits is large enough. -/
theorem rust_crypto_chain_signatures_rsa :
    [SamplePki.rsaLeaf, SamplePki.rsaRoot].IsChain fun subject issuer =>
      ∃ algorithm, RustCrypto.Checked SamplePki.rustCryptoLibrary SamplePki.decoders subject issuer
        algorithm :=
  rust_crypto_chain_signatures SamplePki.rustCryptoLibrary SamplePki.decoders
    (.fromIter [SamplePki.rsaRoot]) ⟨[], fun _ => .ok ()⟩ SamplePki.rsaLeaf .new
    ⟨[SamplePki.rsaLeaf, SamplePki.rsaRoot], List.cons_ne_nil _ _⟩ (by decide +kernel)

end X509Validator
