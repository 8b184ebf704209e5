import X509Validator.Rendering
import X509Validator.Lib.LineFormat

/-!
# Diagnostics over several lines

`multiline_description` puts every certificate of a diagnostic on a line of its own
and is documented to include the same information as `Display`. Where no name and no
reason breaks a line, it includes more: `readDescription` reads it back, into the kind
of the diagnostic and the texts of its parts. `Display` separates certificates by
`", "`, which names may contain, and two chains of different length may look the same.

Results:
1. `multiline_description_readable`: what a description can be read back to.
-/

namespace X509Validator

open Lines

/-! ## `multiline_description` -/

namespace VerificationDiagnostic

variable (parser : ParserText)

def multilineDescription : VerificationDiagnostic → String
  | leafCertificateHasUnhandledCriticalExtension leafCertificate handledCriticalExtensions =>
    ("The leaf certificate has critical extensions that the policy does not understand and " ++
      "therefore can't enforce.") ++ "\n" ++ "\n" ++ "Unhandled extensions:" ++ "\n" ++
      "\n".intercalate (unhandledCriticalExtensions leafCertificate handledCriticalExtensions) ++
      "\n" ++ "\n" ++ "Leaf certificate:" ++ "\n" ++ formatCertificate parser leafCertificate
  | leafCertificateIsInTheRootStoreButDoesNotMeetPolicy leafCertificate failureReason =>
    ("Leaf certificate is in the root store of the validator but it does by itself not meet " ++
      "the policy.") ++ "\n" ++ "\n" ++ "Reason:" ++ "\n" ++ failureReason.reason ++
      "\n" ++ "\n" ++ "Leaf Certificate:" ++ "\n" ++ formatCertificate parser leafCertificate
  | chainFailsToMeetPolicy chain failureReason =>
    ("A certificate chain to a certificate in the root store was found but it does not meet " ++
      "the policy.") ++ "\n" ++ "\n" ++ "Reason:" ++ "\n" ++ failureReason.reason ++
      "\n" ++ "\n" ++ "Chain (from leaf to root):" ++ "\n" ++ joinCertificates parser chain "\n"
  | issuerHasUnhandledCriticalExtension issuer partialChain handledCriticalExtensions =>
    ("A candidate issuer of a certificate in the (partial) chain has critical extensions that " ++
      "the policy does not understand and therefore can't enforce.") ++ "\n" ++ "\n" ++
      "Unhandled extensions:" ++ "\n" ++
      "\n".intercalate
        ((unhandledCriticalExtensions issuer handledCriticalExtensions).map fun oid =>
          "- " ++ oid) ++ "\n" ++ "\n" ++
      ("Chain (from leaf to candidate issuer that has critical extensions the policy " ++
        "doesn't enforce):") ++ "\n" ++ joinCertificates parser partialChain "\n" ++
      "\n" ++ formatCertificate parser issuer
  | issuerHasNotSignedCertificate issuer partialChain =>
    ("A candidate issuer of a certificate in the (partial) chain has not signed the previous " ++
      "certificate in the chain.") ++ "\n" ++ "\n" ++
      ("Chain (from leaf to candidate issuer that has not signed the certificate before " ++
        "it):") ++ "\n" ++ joinCertificates parser partialChain "\n" ++
      "\n" ++ formatCertificate parser issuer
  | searchingForIssuerOfPartialChain partialChain =>
    "Searching for issuers of partial candidate chain." ++ "\n" ++ "Chain (from leaf to tip):" ++
      "\n" ++ joinCertificates parser partialChain "\n"
  | foundCandidateIssuersOfPartialChainInRootStore partialChain issuersInRootStore =>
    "Found candidate issuers in the root store of the partial chain." ++ "\n" ++
      "Chain (from leaf to tip):" ++ "\n" ++ joinCertificates parser partialChain "\n" ++ "\n" ++
      "Candidate issuers in the root store:" ++ "\n" ++
      joinCertificates parser issuersInRootStore "\n"
  | foundCandidateIssuersOfPartialChainInIntermediateStore partialChain
      issuersInIntermediateStore =>
    "Found candidate issuers in the intermediate store of the partial chain." ++ "\n" ++
      "Chain (from leaf to tip):" ++ "\n" ++ joinCertificates parser partialChain "\n" ++ "\n" ++
      "Candidate issuers in the intermediate store:" ++ "\n" ++
      joinCertificates parser issuersInIntermediateStore "\n"
  | foundValidCertificateChain validCertificateChain =>
    "Validation completed successfully." ++ "\n" ++
      "Verified certificate chain (from leaf to root):" ++ "\n" ++
      joinCertificates parser validCertificateChain "\n"
  | couldNotValidateLeafCertificate leaf =>
    "Could not validate leaf certificate:" ++ "\n" ++ formatCertificate parser leaf
  | issuerIsAlreadyInTheChain partialChain issuer =>
    ("Candidate issuer is already in partial chain and is therefore skipped because it would " ++
      "always produce a chain that could have been shorter.") ++ "\n" ++
      "Partial chain (from leaf to tip):" ++ "\n" ++ joinCertificates parser partialChain "\n" ++
      "\n" ++ "Candidate issuer which is already in the chain above:" ++ "\n" ++
      formatCertificate parser issuer

end VerificationDiagnostic

/-! ## Kinds of diagnostics and their formats -/

inductive DiagnosticKind
  | leafCertificateHasUnhandledCriticalExtension
  | leafCertificateIsInTheRootStoreButDoesNotMeetPolicy
  | chainFailsToMeetPolicy
  | issuerHasUnhandledCriticalExtension
  | issuerHasNotSignedCertificate
  | searchingForIssuerOfPartialChain
  | foundCandidateIssuersOfPartialChainInRootStore
  | foundCandidateIssuersOfPartialChainInIntermediateStore
  | foundValidCertificateChain
  | couldNotValidateLeafCertificate
  | issuerIsAlreadyInTheChain
deriving DecidableEq, Repr

namespace DiagnosticKind

def all : List DiagnosticKind :=
  [leafCertificateHasUnhandledCriticalExtension,
    leafCertificateIsInTheRootStoreButDoesNotMeetPolicy, chainFailsToMeetPolicy,
    issuerHasUnhandledCriticalExtension, issuerHasNotSignedCertificate,
    searchingForIssuerOfPartialChain, foundCandidateIssuersOfPartialChainInRootStore,
    foundCandidateIssuersOfPartialChainInIntermediateStore, foundValidCertificateChain,
    couldNotValidateLeafCertificate, issuerIsAlreadyInTheChain]

/-- The first line. -/
def heading : DiagnosticKind → String
  | leafCertificateHasUnhandledCriticalExtension =>
    "The leaf certificate has critical extensions that the policy does not understand and " ++
      "therefore can't enforce."
  | leafCertificateIsInTheRootStoreButDoesNotMeetPolicy =>
    "Leaf certificate is in the root store of the validator but it does by itself not meet " ++
      "the policy."
  | chainFailsToMeetPolicy =>
    "A certificate chain to a certificate in the root store was found but it does not meet " ++
      "the policy."
  | issuerHasUnhandledCriticalExtension =>
    "A candidate issuer of a certificate in the (partial) chain has critical extensions that " ++
      "the policy does not understand and therefore can't enforce."
  | issuerHasNotSignedCertificate =>
    "A candidate issuer of a certificate in the (partial) chain has not signed the previous " ++
      "certificate in the chain."
  | searchingForIssuerOfPartialChain => "Searching for issuers of partial candidate chain."
  | foundCandidateIssuersOfPartialChainInRootStore =>
    "Found candidate issuers in the root store of the partial chain."
  | foundCandidateIssuersOfPartialChainInIntermediateStore =>
    "Found candidate issuers in the intermediate store of the partial chain."
  | foundValidCertificateChain => "Validation completed successfully."
  | couldNotValidateLeafCertificate => "Could not validate leaf certificate:"
  | issuerIsAlreadyInTheChain =>
    "Candidate issuer is already in partial chain and is therefore skipped because it would " ++
      "always produce a chain that could have been shorter."

/-- The lines after the first. A block of object identifiers ends with an empty
line. -/
def format : DiagnosticKind → List Field
  | leafCertificateHasUnhandledCriticalExtension =>
    [.literal "", .literal "Unhandled extensions:", .before "Leaf certificate:", .line]
  | leafCertificateIsInTheRootStoreButDoesNotMeetPolicy =>
    [.literal "", .literal "Reason:", .line, .literal "", .literal "Leaf Certificate:", .line]
  | chainFailsToMeetPolicy =>
    [.literal "", .literal "Reason:", .line, .literal "",
      .literal "Chain (from leaf to root):", .rest]
  | issuerHasUnhandledCriticalExtension =>
    [.literal "", .literal "Unhandled extensions:",
      .before ("Chain (from leaf to candidate issuer that has critical extensions the policy " ++
        "doesn't enforce):"), .rest]
  | issuerHasNotSignedCertificate =>
    [.literal "",
      .literal ("Chain (from leaf to candidate issuer that has not signed the certificate before " ++
        "it):"), .rest]
  | searchingForIssuerOfPartialChain => [.literal "Chain (from leaf to tip):", .rest]
  | foundCandidateIssuersOfPartialChainInRootStore =>
    [.literal "Chain (from leaf to tip):", .before "Candidate issuers in the root store:", .rest]
  | foundCandidateIssuersOfPartialChainInIntermediateStore =>
    [.literal "Chain (from leaf to tip):",
      .before "Candidate issuers in the intermediate store:", .rest]
  | foundValidCertificateChain =>
    [.literal "Verified certificate chain (from leaf to root):", .rest]
  | couldNotValidateLeafCertificate => [.line]
  | issuerIsAlreadyInTheChain =>
    [.literal "Partial chain (from leaf to tip):",
      .before "Candidate issuer which is already in the chain above:", .line]

/-- The number of characters in the first line, and the first of them. -/
def headingMark : DiagnosticKind → Nat × Char
  | leafCertificateHasUnhandledCriticalExtension => (109, 'T')
  | leafCertificateIsInTheRootStoreButDoesNotMeetPolicy => (97, 'L')
  | chainFailsToMeetPolicy => (97, 'A')
  | issuerHasUnhandledCriticalExtension => (147, 'A')
  | issuerHasNotSignedCertificate => (112, 'A')
  | searchingForIssuerOfPartialChain => (49, 'S')
  | foundCandidateIssuersOfPartialChainInRootStore => (63, 'F')
  | foundCandidateIssuersOfPartialChainInIntermediateStore => (71, 'F')
  | foundValidCertificateChain => (34, 'V')
  | couldNotValidateLeafCertificate => (36, 'C')
  | issuerIsAlreadyInTheChain => (139, 'C')

theorem toList_heading (kind : DiagnosticKind) :
    kind.heading.toList.length = kind.headingMark.1 ∧
      kind.heading.toList.head? = some kind.headingMark.2 := by
  have hone {chars : List Char} {mark : Nat × Char}
      (h : chars.length = mark.1 ∧ chars.head? = some mark.2) :
      (String.ofList chars).toList.length = mark.1 ∧
        (String.ofList chars).toList.head? = some mark.2 := by
    rwa [String.toList_ofList]
  have htwo {chars more : List Char} {mark : Nat × Char}
      (h : (chars ++ more).length = mark.1 ∧ (chars ++ more).head? = some mark.2) :
      (String.ofList chars ++ String.ofList more).toList.length = mark.1 ∧
        (String.ofList chars ++ String.ofList more).toList.head? = some mark.2 := by
    rwa [String.toList_append, String.toList_ofList, String.toList_ofList]
  cases kind with
  | searchingForIssuerOfPartialChain => exact hone ⟨rfl, rfl⟩
  | foundCandidateIssuersOfPartialChainInRootStore => exact hone ⟨rfl, rfl⟩
  | foundCandidateIssuersOfPartialChainInIntermediateStore => exact hone ⟨rfl, rfl⟩
  | foundValidCertificateChain => exact hone ⟨rfl, rfl⟩
  | couldNotValidateLeafCertificate => exact hone ⟨rfl, rfl⟩
  | _ => exact htwo ⟨rfl, rfl⟩

/-- The first line tells the kind. -/
theorem heading_injective {kind other : DiagnosticKind} (h : other.heading = kind.heading) :
    other = kind := by
  obtain ⟨hlength, hhead⟩ := kind.toList_heading
  obtain ⟨hlength', hhead'⟩ := other.toList_heading
  rw [h] at hlength' hhead'
  have hmark : other.headingMark = kind.headingMark :=
    Prod.ext (hlength'.symm.trans hlength) (Option.some.inj (hhead'.symm.trans hhead))
  revert hmark
  cases other <;> cases kind <;> decide

theorem find?_heading (kind : DiagnosticKind) :
    (all.find? fun other => other.heading == kind.heading) = some kind := by
  have hmem : kind ∈ all := by cases kind <;> decide
  cases hfind : all.find? fun other => other.heading == kind.heading with
  | none => exact absurd (beq_self_eq_true _) (List.find?_eq_none.mp hfind kind hmem)
  | some other =>
    have hfound := List.find?_some hfind
    rw [heading_injective (eq_of_beq hfound)]
end DiagnosticKind

/-- Reads a description back: the kind of the diagnostic, and the texts of its
parts. -/
def readDescription (description : String) : Option (DiagnosticKind × List (List String)) :=
  match lines description with
  | [] => none
  | first :: rest =>
    match DiagnosticKind.all.find? fun kind => kind.heading == first with
    | none => none
    | some kind => (decode kind.format rest).map (kind, ·)

/-! ## The parts of a diagnostic -/

namespace VerificationDiagnostic

def kind : VerificationDiagnostic → DiagnosticKind
  | leafCertificateHasUnhandledCriticalExtension _ _ =>
    .leafCertificateHasUnhandledCriticalExtension
  | leafCertificateIsInTheRootStoreButDoesNotMeetPolicy _ _ =>
    .leafCertificateIsInTheRootStoreButDoesNotMeetPolicy
  | chainFailsToMeetPolicy _ _ => .chainFailsToMeetPolicy
  | issuerHasUnhandledCriticalExtension _ _ _ => .issuerHasUnhandledCriticalExtension
  | issuerHasNotSignedCertificate _ _ => .issuerHasNotSignedCertificate
  | searchingForIssuerOfPartialChain _ => .searchingForIssuerOfPartialChain
  | foundCandidateIssuersOfPartialChainInRootStore _ _ =>
    .foundCandidateIssuersOfPartialChainInRootStore
  | foundCandidateIssuersOfPartialChainInIntermediateStore _ _ =>
    .foundCandidateIssuersOfPartialChainInIntermediateStore
  | foundValidCertificateChain _ => .foundValidCertificateChain
  | couldNotValidateLeafCertificate _ => .couldNotValidateLeafCertificate
  | issuerIsAlreadyInTheChain _ _ => .issuerIsAlreadyInTheChain

/-- The texts of the certificates. -/
def certificateLines (parser : ParserText) (certificates : List Certificate) : List String :=
  orBlank (certificates.map (formatCertificate parser))

/-- The texts in a diagnostic, one list for each part of it. -/
def parts (parser : ParserText) : VerificationDiagnostic → List (List String)
  | leafCertificateHasUnhandledCriticalExtension leafCertificate handledCriticalExtensions =>
    [orBlank (unhandledCriticalExtensions leafCertificate handledCriticalExtensions) ++ [""],
      [formatCertificate parser leafCertificate]]
  | leafCertificateIsInTheRootStoreButDoesNotMeetPolicy leafCertificate failureReason =>
    [[failureReason.reason], [formatCertificate parser leafCertificate]]
  | chainFailsToMeetPolicy chain failureReason =>
    [[failureReason.reason], certificateLines parser chain]
  | issuerHasUnhandledCriticalExtension issuer partialChain handledCriticalExtensions =>
    [orBlank ((unhandledCriticalExtensions issuer handledCriticalExtensions).map fun oid =>
        "- " ++ oid) ++ [""],
      certificateLines parser partialChain ++ [formatCertificate parser issuer]]
  | issuerHasNotSignedCertificate issuer partialChain =>
    [certificateLines parser partialChain ++ [formatCertificate parser issuer]]
  | searchingForIssuerOfPartialChain partialChain => [certificateLines parser partialChain]
  | foundCandidateIssuersOfPartialChainInRootStore partialChain issuers =>
    [certificateLines parser partialChain, certificateLines parser issuers]
  | foundCandidateIssuersOfPartialChainInIntermediateStore partialChain issuers =>
    [certificateLines parser partialChain, certificateLines parser issuers]
  | foundValidCertificateChain validCertificateChain =>
    [certificateLines parser validCertificateChain]
  | couldNotValidateLeafCertificate leaf => [[formatCertificate parser leaf]]
  | issuerIsAlreadyInTheChain partialChain issuer =>
    [certificateLines parser partialChain, [formatCertificate parser issuer]]

/-- Nothing that a diagnostic copies breaks a line. -/
structure Unbroken (parser : ParserText) (diagnostic : VerificationDiagnostic) : Prop where
  reason : ∀ reason ∈ diagnostic.failureReason?, SingleLine reason.reason
  names : ∀ cert ∈ diagnostic.certificates, parser.NamesSingleLine cert

variable {parser : ParserText} (hparser : parser.OneLine)

theorem lines_oids {cert : Certificate} {handledCriticalExtensions : List Oid} :
    lines ("\n".intercalate (unhandledCriticalExtensions cert handledCriticalExtensions)) =
      orBlank (unhandledCriticalExtensions cert handledCriticalExtensions) :=
  lines_intercalate fun _ => singleLine_of_mem_unhandledCriticalExtensions

theorem lines_dashed_oids {cert : Certificate} {handledCriticalExtensions : List Oid} :
    lines ("\n".intercalate ((unhandledCriticalExtensions cert handledCriticalExtensions).map
      fun oid => "- " ++ oid)) =
      orBlank ((unhandledCriticalExtensions cert handledCriticalExtensions).map
        fun oid => "- " ++ oid) := by
  refine lines_intercalate ?_
  rw [List.forall_mem_map]
  intro oid hoid
  rw [singleLine_text_append (by decide)]
  exact singleLine_of_mem_unhandledCriticalExtensions hoid

include hparser

theorem lines_formatCertificate {cert : Certificate} (h : parser.NamesSingleLine cert) :
    lines (formatCertificate parser cert) = [formatCertificate parser cert] :=
  lines_of_singleLine ((formatCertificate_singleLine_iff hparser cert).mpr h)

theorem lines_joinCertificates {certificates : List Certificate}
    (h : ∀ cert ∈ certificates, parser.NamesSingleLine cert) :
    lines (joinCertificates parser certificates "\n") = certificateLines parser certificates := by
  refine lines_intercalate ?_
  rw [List.forall_mem_map]
  exact fun cert hcert => (formatCertificate_singleLine_iff hparser cert).mpr (h cert hcert)

/-- A description has the lines of its format. -/
theorem lines_multilineDescription {diagnostic : VerificationDiagnostic}
    (h : diagnostic.Unbroken parser) :
    lines (diagnostic.multilineDescription parser) =
      diagnostic.kind.heading :: encode diagnostic.kind.format (diagnostic.parts parser) := by
  obtain ⟨hreason, hnames⟩ := h
  have hcert : ∀ cert ∈ diagnostic.certificates,
      lines (formatCertificate parser cert) = [formatCertificate parser cert] :=
    fun cert h => lines_formatCertificate hparser (hnames cert h)
  unfold multilineDescription
  cases diagnostic with
  | leafCertificateHasUnhandledCriticalExtension leaf handled =>
    rw [lines_spaced_title, lines_spaced_heading, lines_oids, hcert leaf List.mem_cons_self]
    · show _ = _ :: _ :: _ :: ((orBlank _ ++ [""]) ++ _)
      rw [List.append_assoc]
      rfl
    · exact singleLine_ofList (by decide)
    · exact singleLine_ofList_append (by decide) (by decide)
    · exact singleLine_ofList (by decide)
  | leafCertificateIsInTheRootStoreButDoesNotMeetPolicy leaf failureReason =>
    rw [lines_spaced_title, lines_spaced_heading, lines_of_singleLine (hreason failureReason rfl),
      hcert leaf List.mem_cons_self]
    · rfl
    · exact singleLine_ofList (by decide)
    · exact singleLine_ofList_append (by decide) (by decide)
    · exact singleLine_ofList (by decide)
  | chainFailsToMeetPolicy chain failureReason =>
    have hchain : ∀ cert ∈ chain, parser.NamesSingleLine cert := hnames
    rw [lines_spaced_title, lines_spaced_heading, lines_of_singleLine (hreason failureReason rfl),
      lines_joinCertificates hparser hchain]
    · rfl
    · exact singleLine_ofList (by decide)
    · exact singleLine_ofList_append (by decide) (by decide)
    · exact singleLine_ofList (by decide)
  | issuerHasUnhandledCriticalExtension issuer partialChain handled =>
    obtain ⟨hchain, -⟩ := List.forall_mem_append.mp hnames
    rw [lines_newline, lines_spaced_title, lines_spaced_heading, lines_dashed_oids,
      lines_joinCertificates hparser hchain,
      hcert issuer (List.mem_append_right _ List.mem_cons_self)]
    · show _ = _ :: _ :: _ :: ((orBlank _ ++ [""]) ++ _)
      rw [List.append_assoc]
      simp only [List.cons_append, List.append_assoc]
      rfl
    · exact singleLine_ofList (by decide)
    · exact singleLine_ofList_append (by decide) (by decide)
    · exact singleLine_ofList_append (by decide) (by decide)
  | issuerHasNotSignedCertificate issuer partialChain =>
    obtain ⟨hchain, -⟩ := List.forall_mem_append.mp hnames
    rw [lines_newline, lines_spaced_heading, lines_joinCertificates hparser hchain,
      hcert issuer (List.mem_append_right _ List.mem_cons_self)]
    · rfl
    · exact singleLine_ofList_append (by decide) (by decide)
    · exact singleLine_ofList_append (by decide) (by decide)
  | searchingForIssuerOfPartialChain partialChain =>
    have hchain : ∀ cert ∈ partialChain, parser.NamesSingleLine cert := hnames
    rw [lines_heading, lines_joinCertificates hparser hchain]
    · rfl
    · exact singleLine_ofList (by decide)
    · exact singleLine_ofList (by decide)
  | foundCandidateIssuersOfPartialChainInRootStore partialChain issuers =>
    obtain ⟨hchain, hissuers⟩ := List.forall_mem_append.mp hnames
    rw [lines_title, lines_heading, lines_joinCertificates hparser hchain,
      lines_joinCertificates hparser hissuers]
    · rfl
    · exact singleLine_ofList (by decide)
    · exact singleLine_ofList (by decide)
    · exact singleLine_ofList (by decide)
  | foundCandidateIssuersOfPartialChainInIntermediateStore partialChain issuers =>
    obtain ⟨hchain, hissuers⟩ := List.forall_mem_append.mp hnames
    rw [lines_title, lines_heading, lines_joinCertificates hparser hchain,
      lines_joinCertificates hparser hissuers]
    · rfl
    · exact singleLine_ofList (by decide)
    · exact singleLine_ofList (by decide)
    · exact singleLine_ofList (by decide)
  | foundValidCertificateChain chain =>
    have hchain : ∀ cert ∈ chain, parser.NamesSingleLine cert := hnames
    rw [lines_heading, lines_joinCertificates hparser hchain]
    · rfl
    · exact singleLine_ofList (by decide)
    · exact singleLine_ofList (by decide)
  | couldNotValidateLeafCertificate leaf =>
    rw [lines_newline, hcert leaf List.mem_cons_self, lines_of_singleLine]
    · rfl
    · exact singleLine_ofList (by decide)
  | issuerIsAlreadyInTheChain partialChain issuer =>
    obtain ⟨hchain, -⟩ := List.forall_mem_append.mp hnames
    rw [lines_title, lines_heading, lines_joinCertificates hparser hchain,
      hcert issuer (List.mem_append_right _ List.mem_cons_self)]
    · rfl
    · exact singleLine_ofList (by decide)
    · exact singleLine_ofList_append (by decide) (by decide)
    · exact singleLine_ofList (by decide)

omit hparser

theorem not_mem_toIdString (oid : Oid) : 'L' ∉ oid.toIdString.toList := by
  rw [Oid.toIdString]
  refine not_mem_intercalate (by decide) ?_
  intro arc harc hmem
  obtain ⟨n, -, rfl⟩ := List.mem_map.mp harc
  rw [Nat.toString_eq_repr, Nat.toList_repr] at hmem
  exact absurd (Nat.isDigit_of_mem_toDigits (by decide) (by decide) hmem) (by decide)

theorem formatCertificate_take (cert : Certificate) :
    (formatCertificate parser cert).toList.take 2 = ['C', 'e'] := by
  unfold formatCertificate
  simp only [String.toList_append, List.append_assoc]
  rfl

theorem not_mem_certificateLines {title : List Char} (h : title.take 2 = ['C', 'a'])
    (certificates : List Certificate) :
    String.ofList title ∉ certificateLines parser certificates := by
  have htitle : (String.ofList title).toList.take 2 = ['C', 'a'] := by
    rwa [String.toList_ofList]
  intro hmem
  rcases mem_orBlank hmem with hblank | hmem
  · rw [hblank] at htitle
    exact absurd htitle (by decide)
  · obtain ⟨cert, -, heq⟩ := List.mem_map.mp hmem
    rw [← heq, formatCertificate_take] at htitle
    exact absurd htitle (by decide)

theorem mem_toList_ofList (c : Char) (chars : List Char) :
    c ∈ (String.ofList (c :: chars)).toList := by
  rw [String.toList_ofList]
  exact List.mem_cons_self

/-- Each identifier is written after a dash. -/
theorem not_mem_dashed_oids {chars : List Char} {more : String} (oids : List String) :
    String.ofList ('C' :: chars) ++ more ∉ orBlank (oids.map fun oid => "- " ++ oid) ++ [""] := by
  have hhead : (String.ofList ('C' :: chars) ++ more).toList.head? = some 'C' := by
    rw [String.toList_append, String.toList_ofList]
    rfl
  have hblank : String.ofList ('C' :: chars) ++ more ≠ "" := by
    intro h
    rw [h] at hhead
    exact absurd hhead (by decide)
  intro hmem
  rcases List.mem_append.mp hmem with hmem | hmem
  · rcases mem_orBlank hmem with h | hmem
    · exact hblank h
    · obtain ⟨oid, -, h⟩ := List.mem_map.mp hmem
      rw [← h, String.toList_append] at hhead
      exact absurd (show some '-' = some 'C' from hhead) (by decide)
  · exact hblank (List.mem_singleton.mp hmem)

/-- No part contains the line that ends it. -/
theorem fits_parts (parser : ParserText) (diagnostic : VerificationDiagnostic) :
    Fits diagnostic.kind.format (diagnostic.parts parser) := by
  cases diagnostic with
  | leafCertificateHasUnhandledCriticalExtension leaf handled =>
    refine ⟨?_, ⟨_, rfl⟩, trivial⟩
    intro hmem
    rcases List.mem_append.mp hmem with hmem | hmem
    · rcases mem_orBlank hmem with h | hmem
      · exact absurd h (by decide)
      · obtain ⟨ext, -, h⟩ := List.mem_map.mp hmem
        have hL : 'L' ∈ ext.oid.toIdString.toList := by
          rw [h]
          exact mem_toList_ofList 'L' _
        exact not_mem_toIdString _ hL
    · exact absurd (List.mem_singleton.mp hmem) (by decide)
  | leafCertificateIsInTheRootStoreButDoesNotMeetPolicy leaf failureReason =>
    exact ⟨⟨_, rfl⟩, ⟨_, rfl⟩, trivial⟩
  | chainFailsToMeetPolicy chain failureReason => exact ⟨⟨_, rfl⟩, trivial⟩
  | issuerHasUnhandledCriticalExtension issuer partialChain handled =>
    exact ⟨not_mem_dashed_oids _, trivial⟩
  | issuerHasNotSignedCertificate issuer partialChain => trivial
  | searchingForIssuerOfPartialChain partialChain => trivial
  | foundCandidateIssuersOfPartialChainInRootStore partialChain issuers =>
    exact ⟨not_mem_certificateLines rfl partialChain, trivial⟩
  | foundCandidateIssuersOfPartialChainInIntermediateStore partialChain issuers =>
    exact ⟨not_mem_certificateLines rfl partialChain, trivial⟩
  | foundValidCertificateChain chain => trivial
  | couldNotValidateLeafCertificate leaf => exact ⟨⟨_, rfl⟩, trivial⟩
  | issuerIsAlreadyInTheChain partialChain issuer =>
    exact ⟨not_mem_certificateLines rfl partialChain, ⟨_, rfl⟩, trivial⟩

/-- `Display` is made of the same parts. -/
theorem display_eq_of_parts_eq {diagnostic other : VerificationDiagnostic}
    (hkind : diagnostic.kind = other.kind) (hparts : diagnostic.parts parser = other.parts parser) :
    diagnostic.display parser = other.display parser := by
  have hjoin : ∀ {certs certs' : List Certificate},
      certificateLines parser certs = certificateLines parser certs' →
      joinCertificates parser certs ", " = joinCertificates parser certs' ", " := by
    intro certs certs' h
    rw [joinCertificates, joinCertificates, ← intercalate_orBlank ", " (certs.map _),
      ← intercalate_orBlank ", " (certs'.map _)]
    exact congrArg _ h
  have hoids : ∀ {oids oids' : List String}, orBlank oids ++ [""] = orBlank oids' ++ [""] →
      ", ".intercalate oids = ", ".intercalate oids' := by
    intro oids oids' h
    rw [← intercalate_orBlank ", " oids, ← intercalate_orBlank ", " oids',
      (List.append_inj' h rfl).1]
  cases diagnostic with
  | leafCertificateHasUnhandledCriticalExtension leaf handled =>
    cases other with
    | leafCertificateHasUnhandledCriticalExtension leaf' handled' =>
      simp only [parts, List.cons.injEq, and_true] at hparts
      obtain ⟨hexts, hleaf⟩ := hparts
      dsimp only [display]
      rw [hoids hexts, hleaf]
    | _ => cases hkind
  | leafCertificateIsInTheRootStoreButDoesNotMeetPolicy leaf failureReason =>
    cases other with
    | leafCertificateIsInTheRootStoreButDoesNotMeetPolicy leaf' failureReason' =>
      simp only [parts, List.cons.injEq, and_true] at hparts
      obtain ⟨hreason, hleaf⟩ := hparts
      dsimp only [display]
      rw [hreason, hleaf]
    | _ => cases hkind
  | chainFailsToMeetPolicy chain failureReason =>
    cases other with
    | chainFailsToMeetPolicy chain' failureReason' =>
      simp only [parts, List.cons.injEq, and_true] at hparts
      obtain ⟨hreason, hchain⟩ := hparts
      dsimp only [display]
      rw [hreason, hjoin hchain]
    | _ => cases hkind
  | issuerHasUnhandledCriticalExtension issuer partialChain handled =>
    cases other with
    | issuerHasUnhandledCriticalExtension issuer' partialChain' handled' =>
      simp only [parts, List.cons.injEq, and_true] at hparts
      obtain ⟨hexts, hchain⟩ := hparts
      obtain ⟨hchain, hissuer⟩ := List.append_inj' hchain (show 1 = 1 from rfl)
      dsimp only [display]
      rw [hoids hexts, hjoin hchain, List.singleton_injective hissuer]
    | _ => cases hkind
  | issuerHasNotSignedCertificate issuer partialChain =>
    cases other with
    | issuerHasNotSignedCertificate issuer' partialChain' =>
      simp only [parts, List.cons.injEq, and_true] at hparts
      obtain ⟨hchain, hissuer⟩ := List.append_inj' hparts (show 1 = 1 from rfl)
      dsimp only [display]
      rw [hjoin hchain, List.singleton_injective hissuer]
    | _ => cases hkind
  | searchingForIssuerOfPartialChain partialChain =>
    cases other with
    | searchingForIssuerOfPartialChain partialChain' =>
      simp only [parts, List.cons.injEq, and_true] at hparts
      dsimp only [display]
      rw [hjoin hparts]
    | _ => cases hkind
  | foundCandidateIssuersOfPartialChainInRootStore partialChain issuers =>
    cases other with
    | foundCandidateIssuersOfPartialChainInRootStore partialChain' issuers' =>
      simp only [parts, List.cons.injEq, and_true] at hparts
      obtain ⟨hchain, hissuers⟩ := hparts
      dsimp only [display]
      rw [hjoin hchain, hjoin hissuers]
    | _ => cases hkind
  | foundCandidateIssuersOfPartialChainInIntermediateStore partialChain issuers =>
    cases other with
    | foundCandidateIssuersOfPartialChainInIntermediateStore partialChain' issuers' =>
      simp only [parts, List.cons.injEq, and_true] at hparts
      obtain ⟨hchain, hissuers⟩ := hparts
      dsimp only [display]
      rw [hjoin hchain, hjoin hissuers]
    | _ => cases hkind
  | foundValidCertificateChain chain =>
    cases other with
    | foundValidCertificateChain chain' =>
      simp only [parts, List.cons.injEq, and_true] at hparts
      dsimp only [display]
      rw [hjoin hparts]
    | _ => cases hkind
  | couldNotValidateLeafCertificate leaf =>
    cases other with
    | couldNotValidateLeafCertificate leaf' =>
      simp only [parts, List.cons.injEq, and_true] at hparts
      dsimp only [display]
      rw [hparts]
    | _ => cases hkind
  | issuerIsAlreadyInTheChain partialChain issuer =>
    cases other with
    | issuerIsAlreadyInTheChain partialChain' issuer' =>
      simp only [parts, List.cons.injEq, and_true] at hparts
      obtain ⟨hchain, hissuer⟩ := hparts
      dsimp only [display]
      rw [hjoin hchain, hissuer]
    | _ => cases hkind

end VerificationDiagnostic

/-! ## Reading what was written -/

theorem readDescription_multilineDescription {parser : ParserText} (hparser : parser.OneLine)
    {diagnostic : VerificationDiagnostic} (h : diagnostic.Unbroken parser) :
    readDescription (diagnostic.multilineDescription parser) =
      some (diagnostic.kind, diagnostic.parts parser) := by
  rw [readDescription, VerificationDiagnostic.lines_multilineDescription hparser h]
  show (match DiagnosticKind.all.find? fun kind => kind.heading == diagnostic.kind.heading with
    | none => none
    | some kind => (decode kind.format _).map (kind, ·)) = _
  rw [DiagnosticKind.find?_heading]
  show (decode diagnostic.kind.format _).map _ = _
  rw [decode_encode (diagnostic.fits_parts parser), Option.map_some]

/-! ## Certificates that look like two -/

/-- The text between the subjects of two certificates of a chain on one line, and the
second subject. -/
def textBetweenSubjects (parser : ParserText) (first second : Certificate) : String :=
  ", notValidBefore: " ++ parser.timeDisplay first.notBefore ++
    ", notValidAfter: " ++ parser.timeDisplay first.notAfter ++
    ", publicKey: " ++ algorithmName parser first.subjectPki.algorithm.algorithm ++
    ", signature: " ++ algorithmName parser first.signatureAlgorithm.algorithm ++
    ", extensions: " ++ formatExtensions parser first ++ ")" ++ ", " ++
    "Certificate(version: " ++ (parser.versionDisplay second.version).toLower ++
    ", serialNumber: " ++ parser.rawSerialAsString second ++
    ", issuer: " ++ parser.nameDisplay second.issuer ++
    ", subject: " ++ parser.nameDisplay second.subject

/-- Up to its subject `forged` is like `first`, and after it like `second`. The
subject goes on with the text that is between the two. -/
structure Forges (parser : ParserText) (first second forged : Certificate) : Prop where
  version : forged.version = first.version
  serial : parser.rawSerialAsString forged = parser.rawSerialAsString first
  issuer : forged.issuer = first.issuer
  subject : parser.nameDisplay forged.subject =
    parser.nameDisplay first.subject ++ textBetweenSubjects parser first second
  notBefore : forged.notBefore = second.notBefore
  notAfter : forged.notAfter = second.notAfter
  publicKey : forged.subjectPki.algorithm = second.subjectPki.algorithm
  signature : forged.signatureAlgorithm = second.signatureAlgorithm
  extensions : forged.extensions = second.extensions

theorem formatCertificate_forged {parser : ParserText} {first second forged : Certificate}
    (h : Forges parser first second forged) :
    formatCertificate parser forged =
      formatCertificate parser first ++ ", " ++ formatCertificate parser second := by
  have hextensions : formatExtensions parser forged = formatExtensions parser second := by
    rw [formatExtensions, h.extensions]
    rfl
  unfold formatCertificate
  rw [h.version, h.serial, h.issuer, h.subject, h.notBefore, h.notAfter, h.publicKey,
    h.signature, hextensions]
  unfold textBetweenSubjects
  simp only [String.append_assoc]

theorem namesSingleLine_forged {parser : ParserText} (hparser : parser.OneLine)
    {first second forged : Certificate} (h : Forges parser first second forged)
    (hfirst : parser.NamesSingleLine first) (hsecond : parser.NamesSingleLine second) :
    parser.NamesSingleLine forged := by
  rw [← formatCertificate_singleLine_iff hparser] at hfirst hsecond ⊢
  rw [formatCertificate_forged h, singleLine_append, singleLine_append]
  exact ⟨⟨hfirst, by decide⟩, hsecond⟩

theorem display_forged {parser : ParserText} {first second forged : Certificate}
    (h : Forges parser first second forged) :
    (VerificationDiagnostic.foundValidCertificateChain [forged]).display parser =
      (VerificationDiagnostic.foundValidCertificateChain [first, second]).display parser := by
  dsimp only [VerificationDiagnostic.display, joinCertificates, List.map]
  rw [String.intercalate_singleton, String.intercalate_cons_cons, String.intercalate_singleton,
    formatCertificate_forged h]

/-! ## 1. Reading a description -/

/-- Where no name and no reason has a newline, the kind of a diagnostic and the texts
of its parts can be read back from its description over several lines, which
therefore determines the description on one line. The converse is wrong, because a
subject may go on like the text of another certificate. -/
theorem multiline_description_readable (parser : ParserText) (hparser : parser.OneLine) :
    (∀ diagnostic : VerificationDiagnostic, diagnostic.Unbroken parser →
      readDescription (diagnostic.multilineDescription parser) =
        some (diagnostic.kind, diagnostic.parts parser)) ∧
    (∀ diagnostic other : VerificationDiagnostic, diagnostic.Unbroken parser →
      other.Unbroken parser →
      diagnostic.multilineDescription parser = other.multilineDescription parser →
      diagnostic.display parser = other.display parser) ∧
    (∀ first second forged : Certificate, Forges parser first second forged →
      (VerificationDiagnostic.foundValidCertificateChain [forged]).display parser =
        (VerificationDiagnostic.foundValidCertificateChain [first, second]).display parser) := by
  refine ⟨fun diagnostic h => readDescription_multilineDescription hparser h, ?_,
    fun first second forged h => display_forged h⟩
  intro diagnostic other h hother heq
  have hread := readDescription_multilineDescription hparser h
  rw [heq, readDescription_multilineDescription hparser hother, Option.some.injEq,
    Prod.mk.injEq] at hread
  exact VerificationDiagnostic.display_eq_of_parts_eq hread.1.symm hread.2.symm

namespace SampleText

def forgedCommonName : String :=
  "a" ++ textBetweenSubjects parser (certificate "a") (certificate "b")

def forged : Certificate :=
  { certificate "a" with
    subject := ⟨[⟨oidX509CommonName, 12, bytes forgedCommonName, some (bytes forgedCommonName)⟩],
      bytes "forged"⟩ }

/-- The parser above, with the text of one further name. -/
def forgedParser : ParserText :=
  { parser with
    namePieces := fun name =>
      if name.raw = bytes "forged" then [.own "CN=", .attributeString forgedCommonName]
      else parser.namePieces name }

theorem forgedParser_oneLine : forgedParser.OneLine :=
  { parser_oneLine with
    name := by
      intro name text htext
      dsimp only [forgedParser] at htext
      split at htext
      · obtain rfl : text = "CN=" := by simpa using htext
        decide
      · exact parser_oneLine.name name text htext }

theorem nameDisplay_certificate (commonName : String) (h : bytes commonName ≠ bytes "forged") :
    forgedParser.nameDisplay (certificate commonName).subject =
      parser.nameDisplay (certificate commonName).subject := by
  have hpieces : forgedParser.namePieces (certificate commonName).subject =
      parser.namePieces (certificate commonName).subject := if_neg h
  rw [ParserText.nameDisplay, hpieces]
  rfl

theorem textBetweenSubjects_forgedParser :
    textBetweenSubjects forgedParser (certificate "a") (certificate "b") =
      textBetweenSubjects parser (certificate "a") (certificate "b") := by
  have hb := nameDisplay_certificate "b" (by decide +kernel)
  have hissuer : (certificate "b").issuer = (certificate "b").subject := rfl
  unfold textBetweenSubjects
  rw [hissuer, hb]
  rfl

theorem forges_forged :
    Forges forgedParser (certificate "a") (certificate "b") forged where
  version := rfl
  serial := rfl
  issuer := rfl
  subject := by
    have hforged : forgedParser.namePieces forged.subject =
        [.own "CN=", .attributeString forgedCommonName] := if_pos rfl
    have ha : parser.nameDisplay (certificate "a").subject = "CN=" ++ "a" := by decide +kernel
    rw [nameDisplay_certificate "a" (by decide +kernel), ha, textBetweenSubjects_forgedParser,
      ParserText.nameDisplay, hforged, String.append_assoc]
    show "" ++ "CN=" ++ forgedCommonName = "CN=" ++ forgedCommonName
    rw [String.empty_append]
  notBefore := rfl
  notAfter := rfl
  publicKey := rfl
  signature := rfl
  extensions := rfl

end SampleText

/-- One certificate and two look the same on one line, and are told apart over
several. -/
theorem multiline_description_readable_forged :
    (VerificationDiagnostic.foundValidCertificateChain [SampleText.forged]).display
        SampleText.forgedParser =
      (VerificationDiagnostic.foundValidCertificateChain
        [SampleText.certificate "a", SampleText.certificate "b"]).display
        SampleText.forgedParser ∧
    readDescription ((VerificationDiagnostic.foundValidCertificateChain
        [SampleText.forged]).multilineDescription SampleText.forgedParser) =
      some (.foundValidCertificateChain,
        [[formatCertificate SampleText.forgedParser SampleText.forged]]) ∧
    readDescription ((VerificationDiagnostic.foundValidCertificateChain
        [SampleText.certificate "a", SampleText.certificate "b"]).multilineDescription
        SampleText.forgedParser) =
      some (.foundValidCertificateChain,
        [[formatCertificate SampleText.forgedParser (SampleText.certificate "a"),
          formatCertificate SampleText.forgedParser (SampleText.certificate "b")]]) := by
  have ha : SampleText.forgedParser.NamesSingleLine (SampleText.certificate "a") := by
    decide +kernel
  have hb : SampleText.forgedParser.NamesSingleLine (SampleText.certificate "b") := by
    decide +kernel
  obtain ⟨hread, -, hforged⟩ := multiline_description_readable SampleText.forgedParser
    SampleText.forgedParser_oneLine
  refine ⟨hforged _ _ _ SampleText.forges_forged, hread _ ⟨fun _ h => (nomatch h), ?_⟩,
    hread _ ⟨fun _ h => (nomatch h), ?_⟩⟩
  · exact List.forall_mem_singleton.mpr
      (namesSingleLine_forged SampleText.forgedParser_oneLine SampleText.forges_forged ha hb)
  · exact List.forall_mem_cons.mpr ⟨ha, List.forall_mem_singleton.mpr hb⟩

end X509Validator
