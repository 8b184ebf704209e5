import X509Validator.Enumeration
import X509Validator.Lib.Lines

/-!
# Diagnostics on one line

`Display` of a `VerificationDiagnostic` is meant for logs with one diagnostic a
line: the content of a certificate must not break the line. All eleven variants
render their certificates through `format_certificate`, which asks the
`x509-parser` package for the texts of the single fields and joins them without
any escaping.

`ParserText` stands for the texts of that package. A rendered name is a list of
pieces, so that what is copied from the certificate can be told from what the
package writes itself. `ParserText.OneLine` says that the latter has no newline,
and `ParserText.CopiesStrings` that the former are the string values of the name.

Results:
1. `formatCertificate_singleLine_iff`: the summary of a certificate is on one line
   if and only if the strings it copies from its issuer and its subject are.
2. `diagnostic_single_line_iff`: a diagnostic is on one line if and only if no
   string value in a name of its certificates has a newline.
3. `common_name_breaks_diagnostic`: a line break in a common name reaches the log.
-/

namespace X509Validator

open Lines

/-! ## The texts of the parser -/

/-- A piece of a rendered name: text of the parser itself (types of attributes,
separators, the digits of values that are no strings), or the value of a string
attribute, copied as it stands in the certificate. -/
inductive NamePiece
  | own (text : String)
  | attributeString (value : String)
deriving DecidableEq, Repr

def NamePiece.text : NamePiece → String
  | own text => text
  | attributeString value => value

/-- `Display` of the parser's types, the serial number in hexadecimal, the
registered short names of object identifiers, and which tags of an attribute's
value are those of strings. -/
structure ParserText where
  versionDisplay : X509Version → String
  rawSerialAsString : Certificate → String
  isStringTag : Nat → Bool
  namePieces : X509Name → List NamePiece
  timeDisplay : Int → String
  oid2sn : Oid → Option String

namespace ParserText

variable (parser : ParserText)

/-- `Display` of a distinguished name. -/
def nameDisplay (name : X509Name) : String :=
  String.join ((parser.namePieces name).map NamePiece.text)

/-- The strings that `Display` of a name copies. -/
def attributeStrings (name : X509Name) : List String :=
  (parser.namePieces name).filterMap fun
    | .own _ => none
    | .attributeString value => some value

/-- The contents of the attributes of a name that are strings. -/
def stringValues (name : X509Name) : List Bytes :=
  (name.attributes.filter fun attr => parser.isStringTag attr.tag).map fun attr => attr.data

/-- The parser writes no newline on its own account. -/
structure OneLine : Prop where
  version : ∀ version, SingleLine (parser.versionDisplay version)
  serial : ∀ cert, SingleLine (parser.rawSerialAsString cert)
  name : ∀ name text, .own text ∈ parser.namePieces name → SingleLine text
  time : ∀ time, SingleLine (parser.timeDisplay time)
  shortName : ∀ oid, ∀ name ∈ parser.oid2sn oid, SingleLine name

/-- The parser copies the string values of a name verbatim. Where one of them is
not UTF-8, it writes an error of its own in place of the whole name. -/
structure CopiesStrings : Prop where
  copied : ∀ name, (∀ value ∈ parser.stringValues name, (fromUtf8 value).isSome) →
    parser.attributeStrings name = (parser.stringValues name).filterMap fromUtf8
  refused : ∀ name, ¬ (∀ value ∈ parser.stringValues name, (fromUtf8 value).isSome) →
    parser.attributeStrings name = []

end ParserText

/-! ## `format_certificate` -/

section Rendering

variable (parser : ParserText)

/-- The short name registered for `oid`, its arcs if there is none. -/
def algorithmName (oid : Oid) : String :=
  match parser.oid2sn oid with
  | some name => name
  | none => oid.toIdString

/-- The extensions present, as `[oid, oid (critical), ...]`. -/
def formatExtensions (cert : Certificate) : String :=
  let rendered := cert.extensions.map fun ext =>
    let name := algorithmName parser ext.oid
    if ext.critical then name ++ " (critical)" else name
  "[" ++ ", ".intercalate rendered ++ "]"

/-- The summary of a certificate. `Display` of a version is ASCII, so that
`to_lowercase` is the ASCII one. -/
def formatCertificate (cert : Certificate) : String :=
  "Certificate(version: " ++ (parser.versionDisplay cert.version).toLower ++
    ", serialNumber: " ++ parser.rawSerialAsString cert ++
    ", issuer: " ++ parser.nameDisplay cert.issuer ++
    ", subject: " ++ parser.nameDisplay cert.subject ++
    ", notValidBefore: " ++ parser.timeDisplay cert.notBefore ++
    ", notValidAfter: " ++ parser.timeDisplay cert.notAfter ++
    ", publicKey: " ++ algorithmName parser cert.subjectPki.algorithm.algorithm ++
    ", signature: " ++ algorithmName parser cert.signatureAlgorithm.algorithm ++
    ", extensions: " ++ formatExtensions parser cert ++ ")"

/-! ## `Display` of a diagnostic -/

def unhandledCriticalExtensions (cert : Certificate) (handledCriticalExtensions : List Oid) :
    List String :=
  (cert.extensions.filter fun ext =>
    ext.critical && !handledCriticalExtensions.contains ext.oid).map fun ext => ext.oid.toIdString

def joinCertificates (certificates : List Certificate) (separator : String) : String :=
  separator.intercalate (certificates.map (formatCertificate parser))

namespace VerificationDiagnostic

/-- The single-line description. -/
def display : VerificationDiagnostic → String
  | leafCertificateHasUnhandledCriticalExtension leafCertificate handledCriticalExtensions =>
    "The leaf certificate has critical extensions that the policy does not understand and " ++
      "therefore can't enforce. Unhandled extensions: [" ++
      ", ".intercalate (unhandledCriticalExtensions leafCertificate handledCriticalExtensions) ++
      "] Leaf certificate: " ++ formatCertificate parser leafCertificate
  | leafCertificateIsInTheRootStoreButDoesNotMeetPolicy leafCertificate failureReason =>
    "Leaf certificate is in the root store of the validator but it does by itself not meet " ++
      "the policy. Reason: " ++ failureReason.reason ++
      " Leaf Certificate: " ++ formatCertificate parser leafCertificate
  | chainFailsToMeetPolicy chain failureReason =>
    "A certificate chain to a certificate in the root store was found but it does not meet " ++
      "the policy. Reason: " ++ failureReason.reason ++
      " Chain (from leaf to root): [" ++ joinCertificates parser chain ", " ++ "]"
  | issuerHasUnhandledCriticalExtension issuer partialChain handledCriticalExtensions =>
    "A candidate issuer of a certificate in the (partial) chain has critical extensions that " ++
      "the policy does not understand and therefore can't enforce. Unhandled extensions: [" ++
      ", ".intercalate
        ((unhandledCriticalExtensions issuer handledCriticalExtensions).map fun oid =>
          "- " ++ oid) ++
      ("] Chain (from leaf to candidate issuer that has critical extensions the policy " ++
        "doesn't enforce): [") ++ joinCertificates parser partialChain ", " ++
      ", " ++ formatCertificate parser issuer ++ "]"
  | issuerHasNotSignedCertificate issuer partialChain =>
    "A candidate issuer of a certificate in the (partial) chain has not signed the previous " ++
      "certificate in the chain. Chain (from leaf to candidate issuer that has not signed the " ++
      "certificate before it): [" ++ joinCertificates parser partialChain ", " ++
      ", " ++ formatCertificate parser issuer ++ "]"
  | searchingForIssuerOfPartialChain partialChain =>
    "Searching for issuers of partial candidate chain. Chain (from leaf to tip): [" ++
      joinCertificates parser partialChain ", " ++ "]"
  | foundCandidateIssuersOfPartialChainInRootStore partialChain issuersInRootStore =>
    "Found candidate issuers in the root store of the partial chain. Chain (from leaf to tip): [" ++
      joinCertificates parser partialChain ", " ++
      "] Candidate issuers in the root store: [" ++
      joinCertificates parser issuersInRootStore ", " ++ "]"
  | foundCandidateIssuersOfPartialChainInIntermediateStore partialChain
      issuersInIntermediateStore =>
    "Found candidate issuers in the intermediate store of the partial chain. Chain (from leaf " ++
      "to tip): [" ++ joinCertificates parser partialChain ", " ++
      "] Candidate issuers in the intermediate store: [" ++
      joinCertificates parser issuersInIntermediateStore ", " ++ "]"
  | foundValidCertificateChain validCertificateChain =>
    "Validation completed successfully. Verified certificate chain (from leaf to root): [" ++
      joinCertificates parser validCertificateChain ", " ++ "]"
  | couldNotValidateLeafCertificate leaf =>
    "Could not validate leaf certificate: " ++ formatCertificate parser leaf
  | issuerIsAlreadyInTheChain partialChain issuer =>
    "Candidate issuer is already in partial chain and is therefore skipped because it would " ++
      "always produce a chain that could have been shorter. Partial chain (from leaf to " ++
      "tip): [" ++ joinCertificates parser partialChain ", " ++
      "] Candidate issuer which is already in the chain above: " ++
      formatCertificate parser issuer

end VerificationDiagnostic

end Rendering

/-! ## The content of a diagnostic -/

namespace VerificationDiagnostic

/-- The certificates in a diagnostic. -/
def certificates : VerificationDiagnostic → List Certificate
  | leafCertificateHasUnhandledCriticalExtension leafCertificate _ => [leafCertificate]
  | leafCertificateIsInTheRootStoreButDoesNotMeetPolicy leafCertificate _ => [leafCertificate]
  | chainFailsToMeetPolicy chain _ => chain
  | issuerHasUnhandledCriticalExtension issuer partialChain _ => partialChain ++ [issuer]
  | issuerHasNotSignedCertificate issuer partialChain => partialChain ++ [issuer]
  | searchingForIssuerOfPartialChain partialChain => partialChain
  | foundCandidateIssuersOfPartialChainInRootStore partialChain issuers => partialChain ++ issuers
  | foundCandidateIssuersOfPartialChainInIntermediateStore partialChain issuers =>
    partialChain ++ issuers
  | foundValidCertificateChain validCertificateChain => validCertificateChain
  | couldNotValidateLeafCertificate leaf => [leaf]
  | issuerIsAlreadyInTheChain partialChain issuer => partialChain ++ [issuer]

def failureReason? : VerificationDiagnostic → Option PolicyFailureReason
  | leafCertificateIsInTheRootStoreButDoesNotMeetPolicy _ failureReason => some failureReason
  | chainFailsToMeetPolicy _ failureReason => some failureReason
  | _ => none

end VerificationDiagnostic

/-! ## 1. Certificates -/

theorem Oid.singleLine_toIdString (oid : Oid) : SingleLine oid.toIdString := by
  rw [Oid.toIdString, singleLine_intercalate (by decide)]
  intro arc harc
  obtain ⟨n, -, rfl⟩ := List.mem_map.mp harc
  exact singleLine_toString n

/-- All strings that rendering a certificate copies are on one line. -/
def ParserText.NamesSingleLine (parser : ParserText) (cert : Certificate) : Prop :=
  ∀ value ∈ parser.attributeStrings cert.issuer ++ parser.attributeStrings cert.subject,
    SingleLine value

instance (parser : ParserText) (cert : Certificate) : Decidable (parser.NamesSingleLine cert) :=
  List.decidableBAll _ _

section OneLine

variable {parser : ParserText} (hparser : parser.OneLine)

include hparser

theorem nameDisplay_singleLine_iff (name : X509Name) :
    SingleLine (parser.nameDisplay name) ↔
      ∀ value ∈ parser.attributeStrings name, SingleLine value := by
  rw [ParserText.nameDisplay, singleLine_join, List.forall_mem_map]
  constructor
  · intro h value hvalue
    obtain ⟨piece, hpiece, hcopied⟩ := List.mem_filterMap.mp hvalue
    cases piece with
    | own text => contradiction
    | attributeString copied =>
      obtain rfl : copied = value := Option.some.inj hcopied
      exact h _ hpiece
  · intro h piece hpiece
    cases piece with
    | own text => exact hparser.name name text hpiece
    | attributeString value => exact h value (List.mem_filterMap.mpr ⟨_, hpiece, rfl⟩)

theorem singleLine_algorithmName (oid : Oid) : SingleLine (algorithmName parser oid) := by
  unfold algorithmName
  split
  · next name hname => exact hparser.shortName oid name hname
  · exact oid.singleLine_toIdString

theorem singleLine_formatExtensions (cert : Certificate) :
    SingleLine (formatExtensions parser cert) := by
  have hrendered : SingleLine (", ".intercalate (cert.extensions.map fun ext =>
      if ext.critical then algorithmName parser ext.oid ++ " (critical)"
      else algorithmName parser ext.oid)) := by
    rw [singleLine_intercalate (by decide), List.forall_mem_map]
    intro ext _
    have hname := singleLine_algorithmName hparser ext.oid
    split
    · exact singleLine_append.mpr ⟨hname, by decide⟩
    · exact hname
  rw [formatExtensions, singleLine_append, singleLine_append]
  exact ⟨⟨by decide, hrendered⟩, by decide⟩

/-- Only the names can break the line. -/
theorem formatCertificate_singleLine_iff (cert : Certificate) :
    SingleLine (formatCertificate parser cert) ↔ parser.NamesSingleLine cert := by
  rw [ParserText.NamesSingleLine, List.forall_mem_append,
    ← nameDisplay_singleLine_iff hparser, ← nameDisplay_singleLine_iff hparser]
  unfold formatCertificate
  simp only [singleLine_append, and_assoc]
  constructor
  · rintro ⟨-, -, -, -, -, hissuer, -, hsubject, -⟩
    exact ⟨hissuer, hsubject⟩
  · rintro ⟨hissuer, hsubject⟩
    exact ⟨singleLine_ofList (by decide), singleLine_toLower (hparser.version cert.version),
      singleLine_ofList (by decide), hparser.serial cert,
      singleLine_ofList (by decide), hissuer,
      singleLine_ofList (by decide), hsubject,
      singleLine_ofList (by decide), hparser.time cert.notBefore,
      singleLine_ofList (by decide), hparser.time cert.notAfter,
      singleLine_ofList (by decide), singleLine_algorithmName hparser _,
      singleLine_ofList (by decide), singleLine_algorithmName hparser _,
      singleLine_ofList (by decide), singleLine_formatExtensions hparser cert,
      singleLine_ofList (by decide)⟩

theorem joinCertificates_singleLine_iff (certificates : List Certificate) :
    SingleLine (joinCertificates parser certificates ", ") ↔
      ∀ cert ∈ certificates, parser.NamesSingleLine cert := by
  rw [joinCertificates, singleLine_intercalate (by decide), List.forall_mem_map]
  simp only [formatCertificate_singleLine_iff hparser]

end OneLine

/-! ## 2. Diagnostics -/

theorem singleLine_of_mem_unhandledCriticalExtensions {cert : Certificate}
    {handledCriticalExtensions : List Oid} {oid : String}
    (h : oid ∈ unhandledCriticalExtensions cert handledCriticalExtensions) :
    SingleLine oid := by
  obtain ⟨ext, -, rfl⟩ := List.mem_map.mp h
  exact ext.oid.singleLine_toIdString

namespace VerificationDiagnostic

/-- A diagnostic is on one line when its reason and all its certificates are. -/
theorem display_singleLine_iff {parser : ParserText} (hparser : parser.OneLine)
    (diagnostic : VerificationDiagnostic) :
    SingleLine (diagnostic.display parser) ↔
      (∀ reason ∈ diagnostic.failureReason?, SingleLine reason.reason) ∧
        ∀ cert ∈ diagnostic.certificates, parser.NamesSingleLine cert := by
  have hcert := formatCertificate_singleLine_iff hparser
  have hjoin := joinCertificates_singleLine_iff hparser
  have hnone :
      (∀ reason ∈ (none : Option PolicyFailureReason), SingleLine reason.reason) ↔ True := by
    simp
  have hsome (failureReason : PolicyFailureReason) :
      (∀ reason ∈ some failureReason, SingleLine reason.reason) ↔
        SingleLine failureReason.reason := by
    simp
  unfold display failureReason? certificates
  cases diagnostic with
  | leafCertificateHasUnhandledCriticalExtension leafCertificate handledCriticalExtensions =>
    have hoids : SingleLine (", ".intercalate
        (unhandledCriticalExtensions leafCertificate handledCriticalExtensions)) := by
      rw [singleLine_intercalate (by decide)]
      intro oid hoid
      exact singleLine_of_mem_unhandledCriticalExtensions hoid
    rw [singleLine_append, singleLine_between, hcert, hnone, iff_true_intro hoids,
      List.forall_mem_singleton]
    · exact singleLine_ofList_append (by decide) (by decide)
    · exact singleLine_ofList (by decide)
  | leafCertificateIsInTheRootStoreButDoesNotMeetPolicy leafCertificate failureReason =>
    rw [singleLine_append, singleLine_between, hcert, hsome, List.forall_mem_singleton]
    · exact singleLine_ofList_append (by decide) (by decide)
    · exact singleLine_ofList (by decide)
  | chainFailsToMeetPolicy chain failureReason =>
    rw [singleLine_append_text, singleLine_append, singleLine_between, hjoin, hsome]
    · exact singleLine_ofList_append (by decide) (by decide)
    · exact singleLine_ofList (by decide)
    · exact singleLine_ofList (by decide)
  | issuerHasUnhandledCriticalExtension issuer partialChain handledCriticalExtensions =>
    have hoids : SingleLine (", ".intercalate
        ((unhandledCriticalExtensions issuer handledCriticalExtensions).map fun oid =>
          "- " ++ oid)) := by
      rw [singleLine_intercalate (by decide), List.forall_mem_map]
      intro oid hoid
      rw [singleLine_text_append (by decide)]
      exact singleLine_of_mem_unhandledCriticalExtensions hoid
    rw [singleLine_append_text, singleLine_append, singleLine_append_text, singleLine_append,
      singleLine_between, hjoin, hcert, hnone, iff_true_intro hoids, true_and, true_and,
      List.forall_mem_append, List.forall_mem_singleton]
    · exact singleLine_ofList_append (by decide) (by decide)
    · exact singleLine_ofList_append (by decide) (by decide)
    · exact singleLine_ofList (by decide)
    · exact singleLine_ofList (by decide)
  | issuerHasNotSignedCertificate issuer partialChain =>
    rw [singleLine_append_text, singleLine_append, singleLine_between, hjoin, hcert, hnone,
      true_and, List.forall_mem_append, List.forall_mem_singleton]
    · exact singleLine_append.mpr ⟨singleLine_ofList_append (by decide) (by decide),
        singleLine_ofList (by decide)⟩
    · exact singleLine_ofList (by decide)
    · exact singleLine_ofList (by decide)
  | searchingForIssuerOfPartialChain partialChain =>
    rw [singleLine_between, hjoin, hnone, true_and]
    · exact singleLine_ofList (by decide)
    · exact singleLine_ofList (by decide)
  | foundCandidateIssuersOfPartialChainInRootStore partialChain issuersInRootStore =>
    rw [singleLine_append_text, singleLine_append, singleLine_between, hjoin, hjoin, hnone,
      true_and, List.forall_mem_append]
    · exact singleLine_ofList (by decide)
    · exact singleLine_ofList (by decide)
    · exact singleLine_ofList (by decide)
  | foundCandidateIssuersOfPartialChainInIntermediateStore partialChain
      issuersInIntermediateStore =>
    rw [singleLine_append_text, singleLine_append, singleLine_between, hjoin, hjoin, hnone,
      true_and, List.forall_mem_append]
    · exact singleLine_ofList_append (by decide) (by decide)
    · exact singleLine_ofList (by decide)
    · exact singleLine_ofList (by decide)
  | foundValidCertificateChain validCertificateChain =>
    rw [singleLine_between, hjoin, hnone, true_and]
    · exact singleLine_ofList (by decide)
    · exact singleLine_ofList (by decide)
  | couldNotValidateLeafCertificate leaf =>
    rw [singleLine_text_append, hcert, hnone, true_and, List.forall_mem_singleton]
    exact singleLine_ofList (by decide)
  | issuerIsAlreadyInTheChain partialChain issuer =>
    rw [singleLine_append, singleLine_between, hcert, hjoin, hnone, true_and,
      List.forall_mem_append, List.forall_mem_singleton]
    · exact singleLine_append.mpr ⟨singleLine_ofList_append (by decide) (by decide),
        singleLine_ofList (by decide)⟩
    · exact singleLine_ofList (by decide)

end VerificationDiagnostic

theorem attributeStrings_singleLine_iff {parser : ParserText} (hcopies : parser.CopiesStrings)
    (name : X509Name) :
    (∀ value ∈ parser.attributeStrings name, SingleLine value) ↔
      ((∀ value ∈ parser.stringValues name, (fromUtf8 value).isSome) →
        ∀ value ∈ parser.stringValues name, (10 : UInt8) ∉ value) := by
  by_cases hutf8 : ∀ value ∈ parser.stringValues name, (fromUtf8 value).isSome
  · rw [hcopies.copied name hutf8, singleLine_filterMap_fromUtf8_iff hutf8]
    exact ⟨fun h _ => h, fun h => h hutf8⟩
  · rw [hcopies.refused name hutf8]
    exact iff_of_true (List.forall_mem_nil _) fun h => absurd h hutf8

/-- A diagnostic stays on its line if and only if, in every issuer and subject of
its certificates that the parser can write, no string value has a newline,
whatever the variant. -/
theorem diagnostic_single_line_iff (parser : ParserText) (hparser : parser.OneLine)
    (hcopies : parser.CopiesStrings) (diagnostic : VerificationDiagnostic)
    (hreason : ∀ reason ∈ diagnostic.failureReason?, SingleLine reason.reason) :
    SingleLine (diagnostic.display parser) ↔
      ∀ cert ∈ diagnostic.certificates, ∀ name ∈ [cert.issuer, cert.subject],
        (∀ value ∈ parser.stringValues name, (fromUtf8 value).isSome) →
        ∀ value ∈ parser.stringValues name, (10 : UInt8) ∉ value := by
  rw [VerificationDiagnostic.display_singleLine_iff hparser, and_iff_right hreason]
  refine forall₂_congr fun cert _ => ?_
  rw [ParserText.NamesSingleLine, List.forall_mem_append, List.forall_mem_cons,
    List.forall_mem_singleton, attributeStrings_singleLine_iff hcopies,
    attributeStrings_singleLine_iff hcopies]

namespace SampleText

/-- The texts of the parser for names of UTF-8 strings, all written as common
names, and for validity periods of the sample certificates, which start and end
with the epoch. -/
def parser : ParserText where
  versionDisplay version := "V" ++ toString (version.value.toNat + 1)
  rawSerialAsString _ := "01"
  isStringTag tag := tag == 12
  namePieces name :=
    let values := (name.attributes.filter fun attr => attr.tag == 12).map fun attr => attr.data
    if values.all fun value => (fromUtf8 value).isSome then
      (values.filterMap fromUtf8).flatMap fun value => [.own "CN=", .attributeString value]
    else [.own "<X509Error: Invalid X.509 name>"]
  timeDisplay _ := "Jan  1 00:00:00 1970 +00:00"
  oid2sn _ := none

theorem parser_oneLine : parser.OneLine where
  version version := singleLine_append.mpr ⟨by decide, singleLine_toString _⟩
  serial _ := singleLine_ofList (by decide)
  name name text htext := by
    dsimp only [parser] at htext
    split at htext
    · obtain ⟨value, -, hmem⟩ := List.mem_flatMap.mp htext
      obtain rfl : text = "CN=" := by simpa using hmem
      decide
    · obtain rfl : text = "<X509Error: Invalid X.509 name>" := by simpa using htext
      decide
  time _ := singleLine_ofList (by decide)
  shortName _ _ hname := by contradiction

theorem parser_copiesStrings : parser.CopiesStrings where
  copied name hutf8 := by
    have hpieces : parser.namePieces name =
        ((parser.stringValues name).filterMap fromUtf8).flatMap fun value =>
          [.own "CN=", .attributeString value] := if_pos (List.all_eq_true.mpr hutf8)
    rw [ParserText.attributeStrings, hpieces, List.filterMap_flatMap]
    exact List.flatMap_singleton' _
  refused name hutf8 := by
    have hpieces : parser.namePieces name = [.own "<X509Error: Invalid X.509 name>"] :=
      if_neg fun hall => hutf8 (List.all_eq_true.mp hall)
    rw [ParserText.attributeStrings, hpieces]
    rfl

/-- A self-signed certificate with one common name. -/
def certificate (commonName : String) : Certificate :=
  let name : X509Name :=
    ⟨[⟨oidX509CommonName, 12, bytes commonName, some (bytes commonName)⟩], bytes commonName⟩
  { SamplePki.certificate commonName commonName "key0" "key0" with
    issuer := name
    subject := name
    notAfter := 0 }

end SampleText

theorem diagnostic_single_line_iff_harmless_name :
    SingleLine ((VerificationDiagnostic.chainFailsToMeetPolicy [SampleText.certificate "leaf"]
      ⟨"expired"⟩).display SampleText.parser) := by
  refine (diagnostic_single_line_iff SampleText.parser SampleText.parser_oneLine
    SampleText.parser_copiesStrings _ ?_).mpr ?_
  · intro reason hreason
    obtain rfl : ⟨"expired"⟩ = reason := Option.some.inj hreason
    decide
  · intro cert hcert name hname _
    obtain rfl : cert = SampleText.certificate "leaf" := List.mem_singleton.mp hcert
    have hvalues : ∀ value ∈ SampleText.parser.stringValues name, value = bytes "leaf" := by
      rcases List.mem_pair.mp hname with rfl | rfl <;> decide +kernel
    intro value hvalue
    rw [hvalues value hvalue]
    decide +kernel

/-- The common name of a leaf certificate starts a line of its own in the log. -/
theorem common_name_breaks_diagnostic :
    SampleText.parser.OneLine ∧ SampleText.parser.CopiesStrings ∧
      ¬ SingleLine ((VerificationDiagnostic.couldNotValidateLeafCertificate
        (SampleText.certificate "a\nb")).display SampleText.parser) := by
  refine ⟨SampleText.parser_oneLine, SampleText.parser_copiesStrings, ?_⟩
  rw [VerificationDiagnostic.display_singleLine_iff SampleText.parser_oneLine]
  rintro ⟨-, hcerts⟩
  have hnewline : ¬ SampleText.parser.NamesSingleLine (SampleText.certificate "a\nb") := by
    decide +kernel
  exact hnewline (hcerts _ (List.mem_singleton.mpr rfl))

end X509Validator
