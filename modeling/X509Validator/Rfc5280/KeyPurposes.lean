import X509Validator.Rfc5280.ExtendedKeyUsage
import X509Validator.Enumeration

/-!
# Key purposes and roles

The extendedKeyUsage extension is a list of key purposes. The parser turns it
into seven flags and a list of the remaining purposes, and `EkuPolicy` looks a
purpose up in both. Its roles are decided by index. This module reads the policy
on the list itself and on the certificates that play the role.

* `PurposeDecoder` stands for the DER decoding of the extension in the
  `x509-parser` package. `PurposeDecoder.Reads` is what the code relies on: flags
  and list together hold the decoded purposes, and an extension that does not
  decode is reported as an error.
* Whether an extension is empty is decided on its raw bytes. The decoder agrees
  on them by a field of its own.

Results:
1. `accepts_ofPurposes`: no purpose is lost between the flags and the list.
2. `eku_policy_accepts_iff`: which chains the policy accepts, and how the roles
   relate to each other.
-/

namespace X509Validator

/-! ## Decoding -/

/-- The purposes that the parser turns into flags. -/
def EkuOids.registered : List Oid :=
  [serverAuth, clientAuth, codeSigning, emailProtection, timeStamping, ocspSigning,
    anyExtendedKeyUsage]

/-- The parsed form of a list of purposes. -/
def ExtendedKeyUsage.ofPurposes (purposes : List Oid) : ExtendedKeyUsage where
  any := purposes.contains EkuOids.anyExtendedKeyUsage
  serverAuth := purposes.contains EkuOids.serverAuth
  clientAuth := purposes.contains EkuOids.clientAuth
  codeSigning := purposes.contains EkuOids.codeSigning
  emailProtection := purposes.contains EkuOids.emailProtection
  timeStamping := purposes.contains EkuOids.timeStamping
  ocspSigning := purposes.contains EkuOids.ocspSigning
  other := purposes.filter fun purpose => !EkuOids.registered.contains purpose

/-- The purposes in the DER bytes of an extension, `none` if they are malformed. -/
structure PurposeDecoder where
  decode : Bytes → Option (List Oid)
  decode_empty : decode [0x30, 0x00] = some []

/-- `extended_key_usage()` returns the parsed form of the one extension, and an
error if the extension is malformed. -/
structure PurposeDecoder.Reads (decoder : PurposeDecoder) (cert : Certificate) : Prop where
  decoded : ∀ ext purposes, cert.getExtensionUnique oidX509ExtExtendedKeyUsage = .ok (some ext) →
    decoder.decode ext.value = some purposes →
    cert.extendedKeyUsage = .ok (some (.ofPurposes purposes))
  malformed : ∀ ext, cert.getExtensionUnique oidX509ExtExtendedKeyUsage = .ok (some ext) →
    decoder.decode ext.value = none → ∃ error, cert.extendedKeyUsage = .error error

/-! ## 1. Purposes -/

namespace EkuPolicy

/-- The flags hold the registered purposes, and `other` the rest. -/
theorem accepts_ofPurposes {policy : EkuPolicy} {purposes : List Oid} :
    policy.accepts (.ofPurposes purposes) = true ↔
      ∃ purpose ∈ purposes, purpose ∈ policy.acceptedPurposes := by
  have hnamed (accepted : Oid) :
      (EkuOids.registered.map fun oid => (purposes.contains oid, oid)).any
          (fun named => named.1 && named.2 == accepted) = true ↔
        accepted ∈ purposes ∧ accepted ∈ EkuOids.registered := by
    simp only [List.any_map, List.any_eq_true, Function.comp_apply, Bool.and_eq_true,
      List.contains_iff_mem, beq_iff_eq]
    constructor
    · rintro ⟨oid, hregistered, hmem, rfl⟩
      exact ⟨hmem, hregistered⟩
    · rintro ⟨hmem, hregistered⟩
      exact ⟨accepted, hregistered, hmem, rfl⟩
  have hother (accepted : Oid) :
      (ExtendedKeyUsage.ofPurposes purposes).other.contains accepted = true ↔
        accepted ∈ purposes ∧ accepted ∉ EkuOids.registered := by
    simp [ExtendedKeyUsage.ofPurposes]
  have hfound (accepted : Oid) :
      (accepted ∈ purposes ∧ accepted ∈ EkuOids.registered ∨
        accepted ∈ purposes ∧ accepted ∉ EkuOids.registered) ↔ accepted ∈ purposes := by
    rw [← and_or_left, and_iff_left (em _)]
  unfold accepts
  rw [List.any_eq_true]
  constructor
  · rintro ⟨accepted, haccepted, h⟩
    rw [Bool.or_eq_true] at h
    exact ⟨accepted, (hfound accepted).mp (h.imp (hnamed accepted).mp (hother accepted).mp),
      haccepted⟩
  · rintro ⟨accepted, hpurpose, haccepted⟩
    refine ⟨accepted, haccepted, ?_⟩
    rw [Bool.or_eq_true]
    exact ((hfound accepted).mpr hpurpose).imp (hnamed accepted).mpr (hother accepted).mpr

end EkuPolicy

/-! ## Requirements -/

/-- What is asked of a certificate: no extension where none is required, or
exactly one, well-formed and not empty, with one of the accepted purposes. -/
def MeetsRequirement (decoder : PurposeDecoder) (acceptedPurposes : List Oid)
    (extensionRequired : Bool) (cert : Certificate) : Prop :=
  (cert.extensions.filter fun ext => ext.oid == oidX509ExtExtendedKeyUsage) = [] ∧
      extensionRequired = false ∨
    ∃ ext purposes,
      (cert.extensions.filter fun ext => ext.oid == oidX509ExtExtendedKeyUsage) = [ext] ∧
      decoder.decode ext.value = some purposes ∧ purposes ≠ [] ∧
      ∃ purpose ∈ purposes, purpose ∈ acceptedPurposes

/-- The three results of looking an extension up. -/
theorem getExtensionUnique_cases (cert : Certificate) (oid : Oid) :
    (cert.getExtensionUnique oid = .ok none ∧
        (cert.extensions.filter fun ext => ext.oid == oid) = []) ∨
      (∃ ext, cert.getExtensionUnique oid = .ok (some ext) ∧
        (cert.extensions.filter fun ext => ext.oid == oid) = [ext]) ∨
      ((∃ error, cert.getExtensionUnique oid = .error error) ∧
        2 ≤ (cert.extensions.filter fun ext => ext.oid == oid).length) := by
  unfold Certificate.getExtensionUnique
  split
  · next h => exact .inl ⟨rfl, h⟩
  · next ext h => exact .inr (.inl ⟨ext, rfl, h⟩)
  · next hnil hsingleton =>
    refine .inr (.inr ⟨⟨_, rfl⟩, ?_⟩)
    generalize (cert.extensions.filter fun ext => ext.oid == oid) = found at *
    match found with
    | [] => exact absurd rfl hnil
    | [ext] => exact absurd rfl (hsingleton ext)
    | _ :: _ :: _ => simp

namespace EkuPolicy

theorem certificateMeetsRequirement_iff {decoder : PurposeDecoder} {policy : EkuPolicy}
    {cert : Certificate} (hreads : decoder.Reads cert) :
    policy.certificateMeetsRequirement cert = .ok () ↔
      MeetsRequirement decoder policy.acceptedPurposes policy.extensionRequired cert := by
  unfold certificateMeetsRequirement MeetsRequirement
  rcases getExtensionUnique_cases cert oidX509ExtExtendedKeyUsage with
    ⟨hunique, hfilter⟩ | ⟨ext, hunique, hfilter⟩ | ⟨⟨error, hunique⟩, hfilter⟩
  · rw [hunique, hfilter]
    cases policy.extensionRequired with
    | false => simp
    | true => simp
  · rw [hunique, hfilter]
    simp only [List.cons_ne_nil, false_and, false_or, List.cons.injEq, and_true, ↓existsAndEq,
      true_and]
    split
    · next hempty =>
      have hvalue : ext.value = [0x30, 0x00] := by simpa [isEmptySequence] using hempty
      simp [hvalue, decoder.decode_empty]
    · cases hdecode : decoder.decode ext.value with
      | none =>
        obtain ⟨error, herror⟩ := hreads.malformed ext hunique hdecode
        simp [herror]
      | some purposes =>
        rw [hreads.decoded ext purposes hunique hdecode]
        simp only [Option.some.injEq, ↓existsAndEq, true_and]
        rw [← accepts_ofPurposes]
        cases haccepts : policy.accepts (.ofPurposes purposes) with
        | false => simp
        | true =>
          obtain ⟨purpose, hpurpose, -⟩ := accepts_ofPurposes.mp haccepts
          simp [List.ne_nil_of_mem hpurpose]
  · rw [hunique]
    refine iff_of_false (by simp) ?_
    rintro (⟨hnil, -⟩ | ⟨ext, purposes, hsingleton, -⟩)
    · rw [hnil] at hfilter
      simp at hfilter
    · rw [hsingleton] at hfilter
      simp at hfilter

end EkuPolicy

/-! ## Roles -/

/-- The certificates of a chain that play the role. -/
def CertificateRole.covered (role : CertificateRole) (certs : List Certificate) :
    List Certificate :=
  match role with
  | .endEntity => certs.take 1
  | .issuers => certs.drop 1
  | .issuersExcludingAnchor => (certs.drop 1).dropLast
  | .entireChain => certs

theorem CertificateRole.mem_covered {role : CertificateRole} {certs : List Certificate}
    {cert : Certificate} :
    cert ∈ role.covered certs ↔
      ∃ index, certs[index]? = some cert ∧ role.covers index certs.length = true := by
  cases role with
  | endEntity =>
    rw [covered, List.mem_iff_getElem?]
    constructor
    · rintro ⟨index, hcert⟩
      rw [List.getElem?_take] at hcert
      split at hcert
      · next hindex => exact ⟨index, hcert, by simpa [covers] using Nat.lt_one_iff.mp hindex⟩
      · cases hcert
    · rintro ⟨index, hcert, hcovers⟩
      have hindex : index = 0 := by simpa [covers] using hcovers
      exact ⟨index, by rwa [List.getElem?_take_of_lt (by omega)]⟩
  | issuers =>
    simp only [covered, covers, List.mem_iff_getElem?, List.getElem?_drop]
    constructor
    · rintro ⟨index, hcert⟩
      exact ⟨1 + index, hcert, by simp⟩
    · rintro ⟨index, hcert, hcovers⟩
      have hindex : index ≠ 0 := by simpa using hcovers
      exact ⟨index - 1, by rwa [Nat.add_sub_cancel' (by omega)]⟩
  | issuersExcludingAnchor =>
    simp only [covered, covers, List.mem_iff_getElem?, List.getElem?_dropLast, List.getElem?_drop,
      List.length_drop]
    constructor
    · rintro ⟨index, hcert⟩
      split at hcert
      · next hlt =>
        refine ⟨1 + index, hcert, ?_⟩
        simp
        omega
      · cases hcert
    · rintro ⟨index, hcert, hcovers⟩
      have hlt := (List.getElem?_eq_some_iff.mp hcert).1
      have hindex : index ≠ 0 ∧ index + 1 ≠ certs.length := by simpa using hcovers
      refine ⟨index - 1, ?_⟩
      rw [if_pos (by omega), Nat.add_sub_cancel' (by omega)]
      exact hcert
  | entireChain => simp [covered, covers, List.mem_iff_getElem?]

theorem CertificateRole.mem_of_mem_covered {role : CertificateRole} {certs : List Certificate}
    {cert : Certificate} (h : cert ∈ role.covered certs) : cert ∈ certs := by
  obtain ⟨index, hcert, -⟩ := mem_covered.mp h
  exact List.mem_of_getElem? hcert

/-- The anchor is the last of the issuers, if there are any. -/
theorem CertificateRole.forall_issuers {certs : List Certificate} (hne : certs ≠ [])
    {P : Certificate → Prop} :
    (∀ cert ∈ CertificateRole.issuers.covered certs, P cert) ↔
      (∀ cert ∈ CertificateRole.issuersExcludingAnchor.covered certs, P cert) ∧
        (1 < certs.length → P (certs.getLast hne)) := by
  obtain ⟨first, rest, rfl⟩ := List.exists_cons_of_ne_nil hne
  simp only [covered, List.drop_one, List.tail_cons]
  by_cases hrest : rest = []
  · simp [hrest]
  · have hlength : 1 < (first :: rest).length := by
      simpa using List.length_pos_of_ne_nil hrest
    have hsplit := List.dropLast_append_getLast hrest
    rw [List.getLast_cons hrest]
    conv_lhs => rw [← hsplit, List.forall_mem_append, List.forall_mem_singleton]
    exact and_congr_right fun _ => ⟨fun h _ => h, fun h => h hlength⟩

/-! ## 2. Which chains are accepted -/

theorem ekuPolicy_accepts_covered {decoder : PurposeDecoder} {policy : EkuPolicy}
    {chain : UnverifiedCertificateChain}
    (hreads : ∀ cert ∈ chain.certificates, decoder.Reads cert) :
    (ekuPolicy policy).Accepts chain ↔
      ∀ cert ∈ policy.role.covered chain.certificates,
        MeetsRequirement decoder policy.acceptedPurposes policy.extensionRequired cert := by
  rw [ekuPolicy_accepts]
  constructor
  · intro h cert hcert
    rw [← EkuPolicy.certificateMeetsRequirement_iff
      (hreads cert (CertificateRole.mem_of_mem_covered hcert))]
    obtain ⟨index, hindex, hcovers⟩ := CertificateRole.mem_covered.mp hcert
    exact h index cert hindex hcovers
  · intro h index cert hindex hcovers
    rw [EkuPolicy.certificateMeetsRequirement_iff (hreads cert (List.mem_of_getElem? hindex))]
    exact h cert (CertificateRole.mem_covered.mpr ⟨index, hindex, hcovers⟩)

/-- The policy accepts a chain if and only if every certificate that plays the
role meets the requirement. For the entire chain this is that of the end entity
and that of the issuers, and for the issuers that of all but the anchor and that
of the anchor, if it is not the end entity itself. -/
theorem eku_policy_accepts_iff (decoder : PurposeDecoder) (policy : EkuPolicy)
    (chain : UnverifiedCertificateChain)
    (hreads : ∀ cert ∈ chain.certificates, decoder.Reads cert) :
    ((ekuPolicy policy).Accepts chain ↔
      ∀ cert ∈ policy.role.covered chain.certificates,
        MeetsRequirement decoder policy.acceptedPurposes policy.extensionRequired cert) ∧
    ((ekuPolicy (policy.appliesTo .entireChain)).Accepts chain ↔
      (ekuPolicy (policy.appliesTo .endEntity)).Accepts chain ∧
        (ekuPolicy (policy.appliesTo .issuers)).Accepts chain) ∧
    ((ekuPolicy (policy.appliesTo .issuers)).Accepts chain ↔
      (ekuPolicy (policy.appliesTo .issuersExcludingAnchor)).Accepts chain ∧
        (1 < chain.len → MeetsRequirement decoder policy.acceptedPurposes
          policy.extensionRequired (chain.certificates.getLast chain.nonempty))) := by
  refine ⟨ekuPolicy_accepts_covered hreads, ?_, ?_⟩
  · simp only [ekuPolicy_accepts_covered hreads, EkuPolicy.appliesTo, CertificateRole.covered]
    conv_lhs => rw [← List.take_append_drop 1 chain.certificates]
    exact List.forall_mem_append
  · simp only [ekuPolicy_accepts_covered hreads, EkuPolicy.appliesTo]
    exact CertificateRole.forall_issuers chain.nonempty

namespace SamplePki

/-- `id-kp-ipsecIKE`, for which the parser has no flag. -/
def ipsecIke : Oid := ⟨[1, 3, 6, 1, 5, 5, 7, 3, 17]⟩

/-- The extension with the purposes `serverAuth` and `ipsecIKE`. -/
def keyUsage : X509Extension :=
  ⟨oidX509ExtExtendedKeyUsage, false,
    [0x30, 0x14, 0x06, 0x08, 0x2b, 6, 1, 5, 5, 7, 3, 1, 0x06, 0x08, 0x2b, 6, 1, 5, 5, 7, 3, 17],
    .other⟩

/-- What decoding gives for this extension and for an empty one. -/
def decoder : PurposeDecoder where
  decode value :=
    if value = keyUsage.value then some [EkuOids.serverAuth, ipsecIke]
    else if value = [0x30, 0x00] then some []
    else none
  decode_empty := rfl

def ikeServer : Certificate :=
  { endEntity with
    extensions := [keyUsage]
    extendedKeyUsage := .ok (some (.ofPurposes [EkuOids.serverAuth, ipsecIke])) }

def ikeChain : UnverifiedCertificateChain := ⟨[ikeServer, root], List.cons_ne_nil _ _⟩

end SamplePki

/-- The purpose is found among those without a flag; the root names no purpose,
which is enough as long as none is required of it. -/
theorem eku_policy_accepts_iff_ike :
    (ekuPolicy (.new SamplePki.ipsecIke)).Accepts SamplePki.ikeChain := by
  have hserver : SamplePki.decoder.Reads SamplePki.ikeServer := by
    refine ⟨fun ext purposes hext hdecode => ?_, fun ext hext hdecode => ?_⟩
    · cases hext
      cases hdecode
      rfl
    · cases hext
      cases hdecode
  have hroot : SamplePki.decoder.Reads SamplePki.root := by
    refine ⟨fun ext purposes hext _ => ?_, fun ext hext _ => ?_⟩
    · cases hext
    · cases hext
  refine (eku_policy_accepts_iff SamplePki.decoder _ SamplePki.ikeChain ?_).1.mpr ?_
  · exact List.forall_mem_cons.mpr ⟨hserver, List.forall_mem_singleton.mpr hroot⟩
  · refine List.forall_mem_cons.mpr ⟨.inr ?_, List.forall_mem_singleton.mpr (.inl ⟨rfl, rfl⟩)⟩
    exact ⟨SamplePki.keyUsage, [EkuOids.serverAuth, SamplePki.ipsecIke], rfl, rfl, by simp,
      SamplePki.ipsecIke, by simp, by decide⟩

end X509Validator
