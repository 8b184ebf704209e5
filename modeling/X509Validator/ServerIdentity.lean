import X509Validator.Policy
import X509Validator.Rfc5280.DnsNames
import X509Validator.Lib.IpText
import X509Validator.Lib.Checks

/-!
# Server identity

`ServerIdentityPolicy` checks that the leaf is valid for a host name or an IP
address. Host names and certificate names are scanned once, recording where the
first period and the asterisk stand, and the comparison slices both names at
these places. Slices out of range are panics, which are `none` here.

`PreparedServerHostname` carries the proof that its recorded index is that of
the first period. With it `validMatchForName_wildcard` gives the comparison
without the slices: the names agree after the first period, and the first label
of the host name fills the asterisk.

Results:
1. `matchHostname_isSome`: no slice of the comparison is out of range.
2. `serverIdentityPolicy_accepts`: the policy accepts a chain if and only if one
   of the names of the leaf is that of the server, where the common name counts
   only if the leaf has no alternative names.
-/

namespace X509Validator

open Ascii Checks IpText

/-- `is_valid_dns_character`: letters, digits, the hyphen and the period. -/
def isValidDnsCharacter (byte : UInt8) : Bool :=
  isAsciiAlphanumeric byte || byte == asciiHyphen || byte == asciiPeriod

/-- `case_insensitive_ascii_match` of `server_identity_policy`. -/
def caseInsensitiveAsciiMatch (a b : Bytes) : Bool :=
  if a.length != b.length then false else (a.zip b).all fun p => eqIgnoreAsciiCase p.1 p.2

theorem caseInsensitiveAsciiMatch_iff {a b : Bytes} :
    caseInsensitiveAsciiMatch a b = true ↔ lowercase a = lowercase b := by
  induction a generalizing b with
  | nil => cases b <;> simp [caseInsensitiveAsciiMatch, lowercase]
  | cons x a ih =>
    cases b with
    | nil => simp [caseInsensitiveAsciiMatch, lowercase]
    | cons y b =>
      have hcons : caseInsensitiveAsciiMatch (x :: a) (y :: b) =
          (eqIgnoreAsciiCase x y && caseInsensitiveAsciiMatch a b) := by
        unfold caseInsensitiveAsciiMatch
        by_cases hlength : a.length = b.length
        · simp [hlength]
        · simp [hlength]
      rw [hcons, Bool.and_eq_true, ih, eqIgnoreAsciiCase, beq_iff_eq]
      simp [lowercase]

/-! ## Host names -/

/-- A lower-case host name without trailing period, and where its first period
is. -/
structure PreparedServerHostname where
  bytes : Bytes
  firstPeriodIndex : Option Nat
  indexed : firstPeriodIndex = bytes.findIdx? (· == asciiPeriod)
deriving DecidableEq

/-- The loop of `PreparedServerHostname::new`. -/
def scanHostname : Bytes → Option Nat → Bytes → Option (Option Nat × Bytes)
  | [], firstPeriodIndex, value => some (firstPeriodIndex, value)
  | byte :: hostname, firstPeriodIndex, value =>
    if !isValidDnsCharacter byte then
      none
    else
      scanHostname hostname
        (if firstPeriodIndex.isNone && byte == asciiPeriod then some value.length
          else firstPeriodIndex)
        (value ++ [byte ||| 0x20])

/-- Setting the sixth bit keeps the period apart from other valid characters. -/
theorem or_eq_period_iff {byte : UInt8} (h : isValidDnsCharacter byte = true) :
    (byte ||| 0x20 == asciiPeriod) = (byte == asciiPeriod) := by
  revert h byte
  have hall : ∀ byte : UInt8, isValidDnsCharacter byte = true →
      (byte ||| 0x20 == asciiPeriod) = (byte == asciiPeriod) :=
    forall_uint8 (by decide +kernel)
  exact fun {byte} => hall byte

/-- The recorded index is that of the first period. -/
theorem scanHostname_indexed {hostname value value' : Bytes} {index index' : Option Nat}
    (h : scanHostname hostname index value = some (index', value'))
    (hindex : index = value.findIdx? (· == asciiPeriod)) :
    index' = value'.findIdx? (· == asciiPeriod) := by
  induction hostname generalizing index value with
  | nil =>
    cases h
    exact hindex
  | cons byte hostname ih =>
    rw [scanHostname] at h
    split at h
    · cases h
    next hvalid =>
    have hvalid : isValidDnsCharacter byte = true := by simpa using hvalid
    refine ih h ?_
    rw [List.findIdx?_append, ← hindex, List.findIdx?_singleton, or_eq_period_iff hvalid]
    cases index with
    | none => cases byte == asciiPeriod <;> simp
    | some i => simp

/-- Stripping the trailing period drops the index if it pointed there. -/
theorem indexed_stripTrailingPeriod {value : Bytes} {index : Option Nat}
    (h : index = value.findIdx? (· == asciiPeriod)) :
    (if index.any (· ≥ (stripTrailingPeriod value).length) then none else index) =
      (stripTrailingPeriod value).findIdx? (· == asciiPeriod) := by
  have hlt : ∀ {name : Bytes} {i : Nat}, name.findIdx? (· == asciiPeriod) = some i →
      i < name.length := by
    intro name i hi
    exact (List.findIdx?_eq_some_iff_getElem.mp hi).1
  rcases trailing_period_cases value with ⟨init, rfl⟩ | hlast
  · rw [stripTrailingPeriod_concat]
    rw [List.findIdx?_append, List.findIdx?_singleton] at h
    cases hinit : init.findIdx? (· == asciiPeriod) with
    | none =>
      rw [h, hinit]
      simp
    | some i =>
      have hi := hlt hinit
      rw [h, hinit]
      simp [hi]
  · rw [stripTrailingPeriod_eq_self hlast]
    cases hindex : index with
    | none => rw [← h, hindex]; rfl
    | some i =>
      have hi := hlt (h.symm.trans hindex)
      rw [← h, hindex]
      simp [hi]

namespace PreparedServerHostname

def new (hostname : Bytes) : Option PreparedServerHostname :=
  match h : scanHostname hostname none [] with
  | none => none
  | some (firstPeriodIndex, value) =>
    some {
      bytes := stripTrailingPeriod value
      firstPeriodIndex :=
        if firstPeriodIndex.any (· ≥ (stripTrailingPeriod value).length) then none
        else firstPeriodIndex
      indexed := indexed_stripTrailingPeriod (scanHostname_indexed h rfl) }

end PreparedServerHostname

theorem scanHostname_bytes {hostname value value' : Bytes} {index index' : Option Nat}
    (h : scanHostname hostname index value = some (index', value')) :
    ∀ b ∈ value', b ∈ value ∨ ∃ byte, isValidDnsCharacter byte = true ∧ b = byte ||| 0x20 := by
  induction hostname generalizing index value with
  | nil =>
    cases h
    exact fun b hb => .inl hb
  | cons byte hostname ih =>
    rw [scanHostname] at h
    split at h
    · cases h
    next hvalid =>
    intro b hb
    rcases ih h b hb with hb | hb
    · rcases List.mem_append.mp hb with hb | hb
      · exact .inl hb
      · exact .inr ⟨byte, by simpa using hvalid, List.mem_singleton.mp hb⟩
    · exact .inr hb

namespace PreparedServerHostname

variable {hostname : Bytes} {host : PreparedServerHostname}

theorem bytes_of_new (h : new hostname = some host) :
    ∀ b ∈ host.bytes, ∃ byte, isValidDnsCharacter byte = true ∧ b = byte ||| 0x20 := by
  unfold new at h
  split at h
  · cases h
  · next hscan =>
    obtain rfl := Option.some.inj h
    intro b hb
    exact (scanHostname_bytes hscan b (mem_of_mem_stripTrailingPeriod hb)).resolve_left
      List.not_mem_nil

/-- A prepared host name consists of labels and periods. -/
theorem isLabelByte_of_new (h : new hostname = some host) :
    ∀ b ∈ host.bytes, isLabelByte b = true ∨ b = asciiPeriod := by
  have hall : ∀ byte : UInt8, isValidDnsCharacter byte = true →
      isLabelByte (byte ||| 0x20) = true ∨ byte ||| 0x20 = asciiPeriod :=
    forall_uint8 (by decide +kernel)
  intro b hb
  obtain ⟨byte, hbyte, rfl⟩ := bytes_of_new h b hb
  exact hall byte hbyte

/-- A prepared host name is in lower case. -/
theorem lowercase_of_new (h : new hostname = some host) : lowercase host.bytes = host.bytes := by
  have hall : ∀ byte : UInt8, isValidDnsCharacter byte = true →
      toAsciiLowercase (byte ||| 0x20) = byte ||| 0x20 :=
    forall_uint8 (by decide +kernel)
  refine (List.map_congr_left fun b hb => ?_).trans (List.map_id host.bytes)
  obtain ⟨byte, hbyte, rfl⟩ := bytes_of_new h b hb
  exact hall byte hbyte

end PreparedServerHostname

/-! ## Certificate names -/

inductive AnalysedCertificateHostname
  | singleName (baseName : Bytes)
  | wildcard (baseName : Bytes) (asteriskIndex : Nat) (firstPeriodIndex : Option Nat)

def asciiIdnaIdentifier : Bytes := bytes "xn--"

/-- The loop of `AnalysedCertificateHostname::new`: the indices of the first
period and of the asterisk. -/
def scanCertificateHostname :
    Bytes → Nat → Option Nat → Option Nat → Option (Option Nat × Option Nat)
  | [], _, firstPeriodIndex, asteriskIndex => some (firstPeriodIndex, asteriskIndex)
  | byte :: rest, index, firstPeriodIndex, asteriskIndex =>
    if byte == asciiPeriod && firstPeriodIndex.isNone then
      scanCertificateHostname rest (index + 1) (some index) asteriskIndex
    else if isValidDnsCharacter byte then
      scanCertificateHostname rest (index + 1) firstPeriodIndex asteriskIndex
    else if byte == asciiAsterisk && asteriskIndex.isNone && firstPeriodIndex.isNone then
      scanCertificateHostname rest (index + 1) firstPeriodIndex (some index)
    else
      -- an extra asterisk, one after a period, or any other byte
      none

namespace AnalysedCertificateHostname

def new (name : Bytes) : Option AnalysedCertificateHostname := do
  let baseName := stripTrailingPeriod name
  let (firstPeriodIndex, asteriskIndex) ← scanCertificateHostname baseName 0 none none
  match asteriskIndex with
  | some asteriskIndex =>
    -- a first label with a wildcard must not be an IDNA A-label
    let prefixLen := min baseName.length 4
    if caseInsensitiveAsciiMatch (baseName.take prefixLen) (asciiIdnaIdentifier.take prefixLen) then
      none
    else
      some (.wildcard baseName asteriskIndex firstPeriodIndex)
  | none => some (.singleName baseName)

end AnalysedCertificateHostname

/-- `bytes[start..stop]`, `none` where it panics. -/
def slice (bytes : Bytes) (start stop : Nat) : Option Bytes :=
  if start ≤ stop ∧ stop ≤ bytes.length then some ((bytes.take stop).drop start) else none

/-- `a - b` on `usize`, `none` where it underflows. -/
def checkedSub (a b : Nat) : Option Nat := if b ≤ a then some (a - b) else none

def splitAroundIndex (bytes : Bytes) (index : Option Nat) : Option (Bytes × Bytes) :=
  match index with
  | none => some (bytes, [])
  | some index => do
    let before ← slice bytes 0 index
    let after ← slice bytes (index + 1) bytes.length
    return (before, after)

/-- `valid_match_for_name`, `none` where a slice panics. -/
def AnalysedCertificateHostname.validMatchForName (target : PreparedServerHostname) :
    AnalysedCertificateHostname → Option Bool
  | .singleName baseName => some (caseInsensitiveAsciiMatch baseName target.bytes)
  | .wildcard baseName asteriskIndex firstPeriodIndex => do
    let (wildcardLabel, remainingComponents) ← splitAroundIndex baseName firstPeriodIndex
    let (targetFirstLabel, targetRemainingComponents) ←
      splitAroundIndex target.bytes target.firstPeriodIndex
    if !caseInsensitiveAsciiMatch remainingComponents targetRemainingComponents then
      return false
    if targetFirstLabel.length < wildcardLabel.length then
      return false
    let (wildcardPrefix, wildcardSuffix) ← splitAroundIndex wildcardLabel (some asteriskIndex)
    let targetBeforeWildcard ← slice targetFirstLabel 0 wildcardPrefix.length
    let suffixStart ← checkedSub targetFirstLabel.length wildcardSuffix.length
    let targetAfterWildcard ← slice targetFirstLabel suffixStart targetFirstLabel.length
    return caseInsensitiveAsciiMatch targetBeforeWildcard wildcardPrefix &&
      caseInsensitiveAsciiMatch targetAfterWildcard wildcardSuffix

def matchHostname (serverHostname : Option PreparedServerHostname) (dnsName : Bytes) :
    Option Bool :=
  match serverHostname with
  | none => some false
  | some serverHostname =>
    match AnalysedCertificateHostname.new dnsName with
    | none => some false
    | some analysed => analysed.validMatchForName serverHostname

/-! ## Matching without slices -/

/-- What the scan of a certificate name has recorded for the part `name` of it:
the first period, and the asterisk in the first label, if there is one. -/
structure Scanned (name : Bytes) (firstPeriodIndex asteriskIndex : Option Nat) : Prop where
  firstPeriod : firstPeriodIndex = name.findIdx? (· == asciiPeriod)
  noAsterisk : asteriskIndex = none → asciiAsterisk ∉ name
  asterisk : ∀ i, asteriskIndex = some i →
    ∃ pre rest, name = pre ++ asciiAsterisk :: rest ∧ pre.length = i ∧ asciiPeriod ∉ pre

theorem Scanned.snoc_valid {name : Bytes} {index asteriskIndex : Option Nat} {byte : UInt8}
    (h : Scanned name index asteriskIndex) (hbyte : byte ≠ asciiAsterisk) :
    Scanned (name ++ [byte])
      (index.or (if byte == asciiPeriod then some name.length else none)) asteriskIndex where
  firstPeriod := by
    rw [List.findIdx?_append, ← h.firstPeriod, List.findIdx?_singleton]
    cases index <;> cases byte == asciiPeriod <;> simp
  noAsterisk hnone hmem := by
    rcases List.mem_append.mp hmem with hmem | hmem
    · exact h.noAsterisk hnone hmem
    · exact hbyte (List.mem_singleton.mp hmem).symm
  asterisk i hi := by
    obtain ⟨pre, rest, heq, hlength, hperiod⟩ := h.asterisk i hi
    refine ⟨pre, rest ++ [byte], ?_, hlength, hperiod⟩
    rw [← List.cons_append, ← List.append_assoc, ← heq]

theorem Scanned.snoc_asterisk {name : Bytes} (h : Scanned name none none) :
    Scanned (name ++ [asciiAsterisk]) none (some name.length) where
  firstPeriod := by
    rw [List.findIdx?_append, ← h.firstPeriod]
    rfl
  noAsterisk hnone := nomatch hnone
  asterisk i hi := by
    obtain rfl := Option.some.inj hi
    have hperiod : asciiPeriod ∉ name := by
      have hnone := List.findIdx?_eq_none_iff.mp h.firstPeriod.symm
      exact fun hmem => by simpa using hnone _ hmem
    exact ⟨name, [], rfl, rfl, hperiod⟩

theorem scanCertificateHostname_scanned {name rest : Bytes} {index asteriskIndex : Option Nat}
    {result : Option Nat × Option Nat} (h : Scanned name index asteriskIndex)
    (hscan : scanCertificateHostname rest name.length index asteriskIndex = some result) :
    Scanned (name ++ rest) result.1 result.2 := by
  induction rest generalizing name index asteriskIndex with
  | nil =>
    obtain rfl := Option.some.inj hscan
    rwa [List.append_nil]
  | cons byte rest ih =>
    have hlength : name.length + 1 = (name ++ [byte]).length := by simp
    rw [List.append_cons]
    rw [scanCertificateHostname, hlength] at hscan
    split at hscan
    · next hperiod =>
      rw [Bool.and_eq_true, beq_iff_eq, Option.isNone_iff_eq_none] at hperiod
      obtain ⟨rfl, rfl⟩ := hperiod
      exact ih (h.snoc_valid (by decide)) hscan
    next hperiod =>
    split at hscan
    · next hvalid =>
      have hasterisk : byte ≠ asciiAsterisk := by
        rintro rfl
        exact absurd hvalid (by decide)
      have hsnoc := h.snoc_valid hasterisk
      refine ih ?_ hscan
      cases index with
      | some i => exact hsnoc
      | none =>
        have hne : (byte == asciiPeriod) = false := by simpa using hperiod
        rw [hne] at hsnoc
        exact hsnoc
    split at hscan
    · next hasterisk =>
      simp only [Bool.and_eq_true, beq_iff_eq, Option.isNone_iff_eq_none] at hasterisk
      obtain ⟨⟨rfl, rfl⟩, rfl⟩ := hasterisk
      exact ih h.snoc_asterisk hscan
    · cases hscan

theorem scanned_nil : Scanned [] none none where
  firstPeriod := rfl
  noAsterisk _ := List.not_mem_nil
  asterisk _ hi := nomatch hi

/-- The two kinds of analysed names. -/
theorem AnalysedCertificateHostname.new_cases {name : Bytes}
    {analysed : AnalysedCertificateHostname} (h : new name = some analysed) :
    (asciiAsterisk ∉ stripTrailingPeriod name ∧ analysed = .singleName (stripTrailingPeriod name)) ∨
    ∃ asteriskIndex firstPeriodIndex,
      Scanned (stripTrailingPeriod name) firstPeriodIndex (some asteriskIndex) ∧
      analysed = .wildcard (stripTrailingPeriod name) asteriskIndex firstPeriodIndex := by
  unfold new at h
  obtain ⟨⟨firstPeriodIndex, asteriskIndex⟩, hscan, h⟩ := Option.bind_eq_some_iff.mp h
  have hscanned := scanCertificateHostname_scanned scanned_nil hscan
  rw [List.nil_append] at hscanned
  cases asteriskIndex with
  | none => exact .inl ⟨hscanned.noAsterisk rfl, (Option.some.inj h).symm⟩
  | some asteriskIndex =>
    simp only at h
    split at h
    · cases h
    · exact .inr ⟨_, _, hscanned, (Option.some.inj h).symm⟩

theorem findIdx?_eq_none_of_not_mem {label : Bytes} (h : asciiPeriod ∉ label) :
    label.findIdx? (· == asciiPeriod) = none := by
  rw [List.findIdx?_eq_none_iff]
  intro b hb
  rw [beq_eq_false_iff_ne]
  rintro rfl
  exact h hb

theorem slice_append_left (a b : Bytes) : slice (a ++ b) 0 a.length = some a := by
  rw [slice, if_pos ⟨Nat.zero_le _, by simp⟩]
  simp

theorem slice_append_right (a b : Bytes) : slice (a ++ b) a.length (a ++ b).length = some b := by
  rw [slice, if_pos ⟨by simp, le_refl _⟩, List.take_length, List.drop_left]

/-- Splitting around an index that is in the name. -/
theorem splitAroundIndex_some (a b : Bytes) (byte : UInt8) :
    splitAroundIndex (a ++ byte :: b) (some a.length) = some (a, b) := by
  have hright := slice_append_right (a ++ [byte]) b
  rw [List.append_assoc, List.singleton_append, List.length_append, List.length_singleton] at hright
  simp only [splitAroundIndex]
  rw [slice_append_left, hright]
  rfl

/-- Splitting around the first period gives the first label and the rest. -/
theorem splitAroundIndex_findIdx? (name : Bytes) :
    splitAroundIndex name (name.findIdx? (· == asciiPeriod)) = some (nextLabel name) := by
  obtain ⟨label, rest, hnext⟩ : ∃ label rest, nextLabel name = (label, rest) := ⟨_, _, rfl⟩
  have hspec := nextLabel_spec name
  rw [hnext] at hspec ⊢
  rcases hspec with ⟨hlabel, rfl | ⟨rfl, rfl⟩⟩
  · rw [List.findIdx?_append, findIdx?_eq_none_of_not_mem hlabel, List.findIdx?_cons]
    simp only [BEq.rfl, ↓reduceIte, Option.none_or, Option.map_some, Nat.zero_add]
    exact splitAroundIndex_some label rest asciiPeriod
  · rw [findIdx?_eq_none_of_not_mem hlabel]
    rfl

theorem nextLabel_append_left {a : Bytes} (h : asciiPeriod ∉ a) (b : Bytes) :
    nextLabel (a ++ b) = (a ++ (nextLabel b).1, (nextLabel b).2) := by
  rw [nextLabel, List.takeWhile_append_of_pos (Split.bne_of_not_mem h),
    List.dropWhile_append_of_pos (Split.bne_of_not_mem h)]
  rfl

/-- The asterisk is in the first label, at the recorded index. -/
theorem Scanned.exists_label {name : Bytes} {firstPeriodIndex : Option Nat} {asteriskIndex : Nat}
    (h : Scanned name firstPeriodIndex (some asteriskIndex)) :
    ∃ pre suf, (nextLabel name).1 = pre ++ asciiAsterisk :: suf ∧ pre.length = asteriskIndex := by
  obtain ⟨pre, rest, heq, hlength, hperiod⟩ := h.asterisk asteriskIndex rfl
  refine ⟨pre, (nextLabel rest).1, ?_, hlength⟩
  rw [heq, List.append_cons, nextLabel_append_left (by simpa using ⟨hperiod, by decide⟩)]
  simp

/-- A prefix and a suffix of the first label of the target, which is long enough
for both. -/
theorem slices_of_length_le {label pre suf : Bytes} (h : pre.length + suf.length ≤ label.length) :
    slice label 0 pre.length = some (label.take pre.length) ∧
    checkedSub label.length suf.length = some (label.length - suf.length) ∧
    slice label (label.length - suf.length) label.length =
      some (label.drop (label.length - suf.length)) := by
  refine ⟨?_, ?_, ?_⟩
  · rw [slice, if_pos ⟨Nat.zero_le _, by omega⟩, List.drop_zero]
  · rw [checkedSub, if_pos (by omega)]
  · rw [slice, if_pos ⟨Nat.sub_le _ _, le_refl _⟩, List.take_length]

/-- The wildcard comparison: the names agree after the first label, and the first
label of the target begins and ends as the wildcard label does. -/
theorem validMatchForName_wildcard {name : Bytes} {asteriskIndex : Nat}
    {firstPeriodIndex : Option Nat} (h : Scanned name firstPeriodIndex (some asteriskIndex))
    (target : PreparedServerHostname) :
    ∃ pre suf, (nextLabel name).1 = pre ++ asciiAsterisk :: suf ∧
      (AnalysedCertificateHostname.wildcard name asteriskIndex firstPeriodIndex).validMatchForName
          target =
        some (caseInsensitiveAsciiMatch (nextLabel name).2 (nextLabel target.bytes).2 &&
          decide ((nextLabel name).1.length ≤ (nextLabel target.bytes).1.length) &&
          (caseInsensitiveAsciiMatch ((nextLabel target.bytes).1.take pre.length) pre &&
            caseInsensitiveAsciiMatch ((nextLabel target.bytes).1.drop
              ((nextLabel target.bytes).1.length - suf.length)) suf)) := by
  obtain ⟨pre, suf, hlabel, hlength⟩ := h.exists_label
  refine ⟨pre, suf, hlabel, ?_⟩
  simp only [AnalysedCertificateHostname.validMatchForName]
  rw [h.firstPeriod, target.indexed, splitAroundIndex_findIdx?, splitAroundIndex_findIdx?]
  simp only [Option.bind_eq_bind, Option.bind_some]
  generalize (nextLabel target.bytes).1 = targetLabel
  cases hrest : caseInsensitiveAsciiMatch (nextLabel name).2 (nextLabel target.bytes).2 with
  | false => rfl
  | true =>
    by_cases hlen : (nextLabel name).1.length ≤ targetLabel.length
    · have hsplit : splitAroundIndex (nextLabel name).1 (some asteriskIndex) = some (pre, suf) := by
        rw [hlabel, ← hlength]
        exact splitAroundIndex_some pre suf asciiAsterisk
      have hlengths : pre.length + suf.length ≤ targetLabel.length := by
        rw [hlabel, List.length_append, List.length_cons] at hlen
        omega
      obtain ⟨hbefore, hsub, hafter⟩ := slices_of_length_le hlengths
      rw [hsplit]
      simp [hlen, hbefore, hafter, hsub, Nat.not_lt.mpr hlen]
    · simp [hlen, Nat.lt_of_not_le hlen]

theorem validMatchForName_isSome {name : Bytes} {analysed : AnalysedCertificateHostname}
    (h : AnalysedCertificateHostname.new name = some analysed) (target : PreparedServerHostname) :
    ∃ matched, analysed.validMatchForName target = some matched := by
  rcases AnalysedCertificateHostname.new_cases h with ⟨-, rfl⟩ | ⟨_, _, hscanned, rfl⟩
  · exact ⟨_, rfl⟩
  · obtain ⟨_, _, _, hmatch⟩ := validMatchForName_wildcard hscanned target
    exact ⟨_, hmatch⟩

/-! ## 1. Matching does not panic -/

/-- Matching a certificate name returns a result, whatever the name. -/
theorem matchHostname_isSome (serverHostname : Option PreparedServerHostname) (dnsName : Bytes) :
    ∃ matched, matchHostname serverHostname dnsName = some matched := by
  cases serverHostname with
  | none => exact ⟨_, rfl⟩
  | some serverHostname =>
    simp only [matchHostname]
    split
    · exact ⟨_, rfl⟩
    · next h => exact validMatchForName_isSome h serverHostname

/-! ## The policy -/

inductive IpAddress
  | v4 (address : Ipv4Addr)
  | v6 (address : Ipv6Addr)
deriving DecidableEq

namespace IpAddress

def parse (s : Bytes) : Option IpAddress :=
  match parseIpv4Addr s with
  | some address => some (.v4 address)
  | none =>
    match parseIpv6Addr s with
    | some address => some (.v6 address)
    | none => none

/-- The raw bytes of an iPAddress name. -/
def fromSanBytes (bytes : Bytes) : Option IpAddress :=
  match bytes.length with
  | 4 => some (.v4 ⟨bytes⟩)
  | 16 => some (.v6 ⟨bytes⟩)
  | _ => none

end IpAddress

def matchIpAddress (serverIp certificateIp : IpAddress) : Bool := serverIp == certificateIp

structure ServerIdentityPolicy where
  serverHostname : Option PreparedServerHostname
  serverIp : Option IpAddress

namespace ServerIdentityPolicy

def new (serverHostname serverIp : Option Bytes) : ServerIdentityPolicy where
  serverHostname := serverHostname.bind PreparedServerHostname.new
  serverIp := serverIp.bind IpAddress.parse

/-- The body of the loop over the alternative names: whether it returns `Ok(())`. -/
def matchName (policy : ServerIdentityPolicy) : GeneralName → Option Bool
  | .dnsName value => matchHostname policy.serverHostname value
  | .ipAddress value =>
    match policy.serverIp, IpAddress.fromSanBytes value with
    | some serverIp, some certificateIp => some (matchIpAddress serverIp certificateIp)
    | _, _ => some false
  | _ => some false

/-- The loop over the alternative names, up to the first match. -/
def matchNames (policy : ServerIdentityPolicy) : List GeneralName → Option Bool
  | [] => some false
  | name :: names => do
    let matched ← policy.matchName name
    if matched then return true else policy.matchNames names

/-- The common name to fall back to. -/
def commonName (leaf : Certificate) : Option Bytes :=
  leaf.subject.iterCommonName.getLast?.bind AttributeTypeAndValue.asStr

def hasValidIdentityForService (policy : ServerIdentityPolicy) (leaf : Certificate) :
    Except PolicyHalt Unit :=
  match leaf.subjectAlternativeName with
  | .error error => fail s!"error parsing SAN field, cert cannot be trusted: {error.display}"
  | .ok san =>
    let subjectAltNames := san.getD []
    match policy.matchNames subjectAltNames with
    | none => .error .panicked
    | some true => .ok ()
    | some false =>
      -- `checked_match` is set by every iteration
      if !subjectAltNames.isEmpty then
        fail "none of the names in the SAN extension matched"
      else
        match commonName leaf with
        | none => fail "no SAN extension and no common name"
        | some commonName =>
          match matchHostname policy.serverHostname commonName with
          | none => .error .panicked
          | some true => .ok ()
          | some false => fail "common name does not match expected hostname"

variable {policy : ServerIdentityPolicy}

theorem matchName_isSome (policy : ServerIdentityPolicy) (name : GeneralName) :
    ∃ matched, policy.matchName name = some matched := by
  unfold matchName
  split
  · exact matchHostname_isSome _ _
  · split
    · exact ⟨_, rfl⟩
    · exact ⟨_, rfl⟩
  · exact ⟨_, rfl⟩

theorem matchNames_eq (policy : ServerIdentityPolicy) (names : List GeneralName) :
    policy.matchNames names = some (names.any fun name => policy.matchName name == some true) := by
  induction names with
  | nil => rfl
  | cons name names ih =>
    obtain ⟨matched, hmatched⟩ := policy.matchName_isSome name
    rw [matchNames, hmatched, List.any_cons, hmatched, ih]
    cases matched <;> rfl

theorem hasValidIdentityForService_ne_panicked (leaf : Certificate) :
    policy.hasValidIdentityForService leaf ≠ .error .panicked := by
  unfold hasValidIdentityForService
  split
  · exact fail_ne_panicked
  simp only [matchNames_eq]
  split
  · next h => cases h
  · simp
  split
  · exact fail_ne_panicked
  split
  · exact fail_ne_panicked
  split
  · next name _ _ h =>
    obtain ⟨_, hmatched⟩ := matchHostname_isSome policy.serverHostname name
    rw [hmatched] at h
    cases h
  · simp
  · exact fail_ne_panicked

/-- The identity of the leaf is that of the server: by one of its alternative
names, or by its common name if it has no alternative names. -/
inductive Identifies (policy : ServerIdentityPolicy) (leaf : Certificate) : Prop
  | alternativeName {names : List GeneralName} {name : GeneralName} :
      leaf.subjectAlternativeName = .ok (some names) → name ∈ names →
      policy.matchName name = some true → Identifies policy leaf
  | commonName {san : Option (List GeneralName)} {name : Bytes} :
      leaf.subjectAlternativeName = .ok san → san.getD [] = [] →
      commonName leaf = some name → matchHostname policy.serverHostname name = some true →
      Identifies policy leaf

/-- The last of the common names in a subject is a string, and this is its value. -/
def LastCommonName (subject : X509Name) (value : Bytes) : Prop :=
  ∃ before attr after, subject.attributes = before ++ attr :: after ∧
    attr.attrType = oidX509CommonName ∧ (∀ later ∈ after, later.attrType ≠ oidX509CommonName) ∧
    attr.asStr = some value

theorem commonName_eq_some_iff {leaf : Certificate} {value : Bytes} :
    commonName leaf = some value ↔ LastCommonName leaf.subject value := by
  simp only [commonName, X509Name.iterCommonName, Option.bind_eq_some_iff, List.getLast?_filter,
    List.find?_eq_some_iff_append]
  constructor
  · rintro ⟨attr, ⟨hattr, later, earlier, heq, hlater⟩, hvalue⟩
    refine ⟨earlier.reverse, attr, later.reverse, ?_, by simpa using hattr, by simpa using hlater,
      hvalue⟩
    rw [← List.reverse_reverse leaf.subject.attributes, heq]
    simp
  · rintro ⟨before, attr, after, heq, hattr, hafter, hvalue⟩
    refine ⟨attr, ⟨by simpa using hattr, after.reverse, before.reverse, ?_, by simpa using hafter⟩,
      hvalue⟩
    rw [heq]
    simp

theorem hasValidIdentityForService_eq_ok {leaf : Certificate} :
    policy.hasValidIdentityForService leaf = .ok () ↔ policy.Identifies leaf := by
  constructor
  · intro h
    unfold hasValidIdentityForService at h
    split at h
    · exact absurd h fail_ne_ok
    next san hsan =>
    simp only [matchNames_eq] at h
    split at h
    · cases h
    · next hany =>
      obtain ⟨name, hname, hmatch⟩ := List.any_eq_true.mp (Option.some.inj hany)
      cases san with
      | none => cases hname
      | some names => exact .alternativeName hsan hname (eq_of_beq hmatch)
    split at h
    · exact absurd h fail_ne_ok
    next hempty =>
    split at h
    · exact absurd h fail_ne_ok
    next hcommon =>
    split at h
    · cases h
    · next hmatch => exact .commonName hsan (by simpa using hempty) hcommon hmatch
    · exact absurd h fail_ne_ok
  · intro h
    cases h with
    | @alternativeName names name hsan hname hmatch =>
      have hany : (names.any fun name => policy.matchName name == some true) = true :=
        List.any_eq_true.mpr ⟨name, hname, beq_iff_eq.mpr hmatch⟩
      rw [hasValidIdentityForService, hsan]
      simp only [Option.getD_some, matchNames_eq, hany]
    | commonName hsan hempty hcommon hmatch =>
      rw [hasValidIdentityForService, hsan]
      simp [hempty, matchNames_eq, hcommon, hmatch]

end ServerIdentityPolicy

def serverIdentityPolicy (policy : ServerIdentityPolicy) : ValidationPolicy where
  verifyingCriticalExtensions := [oidX509ExtSubjectAltName]
  chainMeetsPolicyRequirements chain :=
    verdict (policy.hasValidIdentityForService chain.leaf)
      (ServerIdentityPolicy.hasValidIdentityForService_ne_panicked chain.leaf)

/-! ## 2. Which leaves are accepted -/

/-- The policy looks at the leaf only. -/
theorem serverIdentityPolicy_accepts {policy : ServerIdentityPolicy}
    {chain : UnverifiedCertificateChain} :
    (serverIdentityPolicy policy).Accepts chain ↔ policy.Identifies chain.leaf :=
  verdict_eq_ok.trans ServerIdentityPolicy.hasValidIdentityForService_eq_ok

end X509Validator
