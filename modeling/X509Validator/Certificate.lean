import Mathlib.Data.List.Basic

/-!
# Certificates

The certificate type is `X509Certificate` of the `x509-parser` package, which is
not part of this repository. `Certificate` keeps what the validator reads of it:
the decoded fields, and the results of the decoding accessors
(`basic_constraints()`, `name_constraints()`, `subject_alternative_name()`,
`extended_key_usage()`) as fields of their own, so that every theorem holds for
whatever these accessors return. Names, keys and certificates are compared by
the derived `PartialEq` of that package. It compares raw DER and the unused-bit
counts of bit strings too, so `X509Name`, `SubjectPublicKeyInfo` and `BitString`
keep these.

The second half models `CertificateExt`: the key identifiers, the raw subject
and issuer names, and the identity of a certificate. Two certificates have the
same identity when they agree on subject, public key and subject alternative
names.
-/

namespace X509Validator

/-- `Vec<u8>`, `&[u8]`, and the bytes of a `&str`. -/
abbrev Bytes := List UInt8

/-- The bytes of a string literal. -/
def bytes (s : String) : Bytes := s.toUTF8.toList

/-- An object identifier, by its arcs. -/
structure Oid where
  arcs : List Nat
deriving DecidableEq, Repr

/-- `Oid::to_id_string`. -/
def Oid.toIdString (oid : Oid) : String := ".".intercalate (oid.arcs.map toString)

/-- `id-at-commonName`. -/
def oidX509CommonName : Oid := ⟨[2, 5, 4, 3]⟩
def oidX509ExtSubjectKeyIdentifier : Oid := ⟨[2, 5, 29, 14]⟩
def oidX509ExtKeyUsage : Oid := ⟨[2, 5, 29, 15]⟩
def oidX509ExtSubjectAltName : Oid := ⟨[2, 5, 29, 17]⟩
def oidX509ExtBasicConstraints : Oid := ⟨[2, 5, 29, 19]⟩
def oidX509ExtNameConstraints : Oid := ⟨[2, 5, 29, 30]⟩
def oidX509ExtAuthorityKeyIdentifier : Oid := ⟨[2, 5, 29, 35]⟩
def oidX509ExtExtendedKeyUsage : Oid := ⟨[2, 5, 29, 37]⟩

/-- An error of the parser, by its `Display` text. -/
structure X509Error where
  display : String
deriving DecidableEq, Repr

def X509Error.duplicateExtensions : X509Error := ⟨"duplicate extensions"⟩

/-- One attribute of a distinguished name: its type, the tag and the content of
its value, and `as_str().ok()`. -/
structure AttributeTypeAndValue where
  attrType : Oid
  tag : Nat
  data : Bytes
  asStr : Option Bytes
deriving DecidableEq, Repr

/-- A distinguished name: its attributes in order and its DER bytes. -/
structure X509Name where
  attributes : List AttributeTypeAndValue
  raw : Bytes
deriving DecidableEq, Repr

/-- `iter_common_name()`. -/
def X509Name.iterCommonName (name : X509Name) : List AttributeTypeAndValue :=
  name.attributes.filter fun attr => attr.attrType == oidX509CommonName

/-- The general names of RFC 5280. `invalid` is an entry whose content the
parser could not decode, by its tag and its bytes. -/
inductive GeneralName
  | otherName (oid : Oid) (value : Bytes)
  | rfc822Name (value : Bytes)
  | dnsName (value : Bytes)
  | x400Address (value : Bytes)
  | directoryName (value : X509Name)
  | ediPartyName (value : Bytes)
  | uri (value : Bytes)
  | ipAddress (value : Bytes)
  | registeredId (value : Oid)
  | invalid (tag : Nat) (value : Bytes)
deriving DecidableEq, Repr

structure GeneralSubtree where
  base : GeneralName
deriving DecidableEq, Repr

structure NameConstraints where
  permittedSubtrees : Option (List GeneralSubtree)
  excludedSubtrees : Option (List GeneralSubtree)
deriving DecidableEq, Repr

structure BasicConstraints where
  ca : Bool
  pathLenConstraint : Option UInt32
deriving DecidableEq, Repr

/-- The purposes the parser recognises as flags, the rest in `other`. -/
structure ExtendedKeyUsage where
  any : Bool
  serverAuth : Bool
  clientAuth : Bool
  codeSigning : Bool
  emailProtection : Bool
  timeStamping : Bool
  ocspSigning : Bool
  other : List Oid
deriving DecidableEq, Repr

/-- The parsed contents of an extension, as far as the key identifiers read it. -/
inductive ParsedExtension
  | subjectKeyIdentifier (keyId : Bytes)
  | authorityKeyIdentifier (keyIdentifier : Option Bytes)
  | other
deriving DecidableEq, Repr

structure X509Extension where
  oid : Oid
  critical : Bool
  value : Bytes
  parsedExtension : ParsedExtension
deriving DecidableEq, Repr

/-- The version number as it stands in the certificate. -/
structure X509Version where
  value : UInt32
deriving DecidableEq, Repr

def X509Version.v1 : X509Version := ⟨0⟩
def X509Version.v3 : X509Version := ⟨2⟩

structure AlgorithmIdentifier where
  algorithm : Oid
  parameters : Option Bytes
deriving DecidableEq, Repr

structure BitString where
  unusedBits : UInt8
  data : Bytes
deriving DecidableEq, Repr

/-- A public key: its fields and its DER bytes. -/
structure SubjectPublicKeyInfo where
  algorithm : AlgorithmIdentifier
  subjectPublicKey : BitString
  raw : Bytes
deriving DecidableEq, Repr

/-- A parsed certificate. -/
structure Certificate where
  /-- `tbs_certificate.as_ref()`, the signed bytes. -/
  tbs : Bytes
  version : X509Version
  issuer : X509Name
  subject : X509Name
  /-- `validity().not_before.timestamp()`. -/
  notBefore : Int
  /-- `validity().not_after.timestamp()`. -/
  notAfter : Int
  subjectPki : SubjectPublicKeyInfo
  /-- `iter_extensions()`. -/
  extensions : List X509Extension
  signatureAlgorithm : AlgorithmIdentifier
  signatureValue : BitString
  basicConstraints : Except X509Error (Option BasicConstraints)
  nameConstraints : Except X509Error (Option NameConstraints)
  /-- `subject_alternative_name()`, with the general names of the extension. -/
  subjectAlternativeName : Except X509Error (Option (List GeneralName))
  extendedKeyUsage : Except X509Error (Option ExtendedKeyUsage)
  /-- The `{:?}` rendering, which some policy failure reasons quote. -/
  debug : String
deriving DecidableEq

namespace Certificate

/-- `get_extension_unique`: the one extension with this identifier, `none` if
there is no such extension, an error if there are several. -/
def getExtensionUnique (cert : Certificate) (oid : Oid) : Except X509Error (Option X509Extension) :=
  match cert.extensions.filter fun ext => ext.oid == oid with
  | [] => .ok none
  | [ext] => .ok (some ext)
  | _ => .error X509Error.duplicateExtensions

/-- `public_key()`. -/
def publicKey (cert : Certificate) : SubjectPublicKeyInfo := cert.subjectPki

/-! ## `CertificateExt` -/

/-- The `subjectKeyIdentifier` bytes, if the extension is present and parses. -/
def subjectKeyIdentifier (cert : Certificate) : Option Bytes :=
  match cert.getExtensionUnique oidX509ExtSubjectKeyIdentifier with
  | .ok (some ext) =>
    match ext.parsedExtension with
    | .subjectKeyIdentifier keyId => some keyId
    | _ => none
  | _ => none

/-- The `keyIdentifier` bytes of the `authorityKeyIdentifier`, if present. -/
def authorityKeyIdentifier (cert : Certificate) : Option Bytes :=
  match cert.getExtensionUnique oidX509ExtAuthorityKeyIdentifier with
  | .ok (some ext) =>
    match ext.parsedExtension with
    | .authorityKeyIdentifier keyIdentifier => keyIdentifier
    | _ => none
  | _ => none

/-- The DER bytes of the subject name. -/
def subjectKey (cert : Certificate) : Bytes := cert.subject.raw

/-- The DER bytes of the issuer name. -/
def issuerKey (cert : Certificate) : Bytes := cert.issuer.raw

/-- The subject alternative names, `[]` where the extension is absent or does
not parse. -/
def subjectAlternativeNames (cert : Certificate) : List GeneralName :=
  match cert.subjectAlternativeName with
  | .ok (some generalNames) => generalNames
  | _ => []

theorem subjectAlternativeNames_eq_getD {cert : Certificate} {san : Option (List GeneralName)}
    (h : cert.subjectAlternativeName = .ok san) : cert.subjectAlternativeNames = san.getD [] := by
  rw [subjectAlternativeNames, h]
  cases san <;> rfl

def hasSameIdentityAs (cert other : Certificate) : Bool :=
  cert.subject == other.subject && cert.publicKey == other.publicKey &&
    cert.subjectAlternativeNames == other.subjectAlternativeNames

/-! ## Identity -/

/-- What a certificate identifies: its subject, its key and its names. -/
def identity (cert : Certificate) : X509Name × SubjectPublicKeyInfo × List GeneralName :=
  (cert.subject, cert.publicKey, cert.subjectAlternativeNames)

/-- `has_same_identity_as` is the kernel of `identity`, hence an equivalence. -/
theorem hasSameIdentityAs_iff {cert other : Certificate} :
    cert.hasSameIdentityAs other = true ↔ cert.identity = other.identity := by
  simp [hasSameIdentityAs, identity, and_assoc]

theorem subjectKey_eq_of_identity {cert other : Certificate} (h : cert.identity = other.identity) :
    cert.subjectKey = other.subjectKey := by
  have hsubject : cert.subject = other.subject := congrArg Prod.fst h
  rw [subjectKey, subjectKey, hsubject]

theorem publicKey_eq_of_identity {cert other : Certificate} (h : cert.identity = other.identity) :
    cert.publicKey = other.publicKey :=
  congrArg (fun i => i.2.1) h

end Certificate

end X509Validator
