import X509Validator.Certificate
import X509Validator.Lib.Ascii
import X509Validator.Lib.Split
import Mathlib.Data.List.Forall2

/-!
# DNS names and DNS name constraints

`is_valid_dns_name` scans a name label by label from the left, and
`dns_name_matches_constraint` compares the labels of a name and of a constraint
from the right. The comparison is a loop over two `ReverseDnsLabels` iterators;
`matchLabels_eq` reads it as a recursion over the two lists of labels, which is
what all further results use.

Results:
1. `dnsNameMatchesConstraint_congr`: a name may be spelled in any ASCII case.
2. `matchReversed_snoc`: what replacing the leftmost label of a name can change.
3. `lowercase_eq_of_not_wildcardOf_matches` and `matches_of_wildcardOf_matches`:
   how a wildcard and the names under it satisfy the same constraint.
4. `stripTrailingPeriod_matches`: a name satisfies a constraint without its
   trailing period where it does with it.
-/

namespace X509Validator

open Ascii

def asciiPeriod : UInt8 := 46
def asciiAsterisk : UInt8 := 42
def asciiHyphen : UInt8 := 45
def asciiUnderscore : UInt8 := 95

def maximumLabelLength : Nat := 63
def maximumNameLength : Nat := 253

/-! ## Valid names -/

inductive LabelContents
  | allAscii (nonNumerics : Nat)
  | nonAscii
deriving DecidableEq

/-- The letters, `-` and `_`. -/
def isNonNumeric (byte : UInt8) : Bool :=
  isAsciiAlphabetic byte || byte == asciiHyphen || byte == asciiUnderscore

/-- The loop of `label_contents`, with the count so far. -/
def labelContentsFrom (nonNumerics : Nat) : Bytes → LabelContents
  | [] => .allAscii nonNumerics
  | byte :: label =>
    if isAsciiDigit byte then labelContentsFrom nonNumerics label
    else if isNonNumeric byte then labelContentsFrom (nonNumerics + 1) label
    else .nonAscii

def labelContents (label : Bytes) : LabelContents := labelContentsFrom 0 label

/-- The label up to the first period, and what comes after that period. -/
def nextLabel (bytes : Bytes) : Bytes × Bytes :=
  (bytes.takeWhile (· != asciiPeriod), (bytes.dropWhile (· != asciiPeriod)).drop 1)

theorem length_nextLabel_lt {bytes : Bytes} (h : bytes ≠ []) :
    (nextLabel bytes).2.length < bytes.length := by
  have hle := (List.dropWhile_suffix (l := bytes) (· != asciiPeriod)).length_le
  have hpos := List.length_pos_of_ne_nil h
  simp only [nextLabel, List.length_drop]
  omega

/-- The checks of one label; `bytes` is what is left of the name after it. -/
def labelIsValid (isConstraint : Bool) (labelCount : Nat) (label bytes : Bytes) : Bool :=
  if label.isEmpty && !(labelCount == 1 && isConstraint) then false
  else if label.head? == some asciiHyphen || label.getLast? == some asciiHyphen then false
  else if label.length > maximumLabelLength then false
  else
    match labelContents label with
    | .nonAscii => false
    | .allAscii nonNumerics => !(nonNumerics == 0 && bytes.isEmpty)

/-- The loop over the labels: the number of labels in the end, `none` if one of
them is not valid. -/
def scanLabels (isConstraint : Bool) (bytes : Bytes) (labelCount : Nat) : Option Nat :=
  if h : bytes = [] then
    some labelCount
  else
    if labelIsValid isConstraint (labelCount + 1) (nextLabel bytes).1 (nextLabel bytes).2 then
      scanLabels isConstraint (nextLabel bytes).2 (labelCount + 1)
    else
      none
termination_by bytes.length
decreasing_by exact length_nextLabel_lt h

def isValidDnsName (name : Bytes) (isConstraint : Bool) : Bool :=
  if name.length > maximumNameLength then false
  else if name.head? == some asciiAsterisk then
    -- a wildcard must be the whole first label, with at least two labels after it
    if (name.drop 1).head? == some asciiPeriod then
      match scanLabels isConstraint (name.drop 2) 1 with
      | some labelCount => !(labelCount < 3)
      | none => false
    else false
  else (scanLabels isConstraint name 0).isSome

/-! ## Comparison of labels -/

/-- Bytes are compared without the bit that distinguishes the cases of a letter. -/
def caseInsensitiveMask : UInt8 := ~~~((1 : UInt8) <<< 5)

/-- `case_insensitive_ascii_match` of `dns_names`. -/
def maskedAsciiMatch (a b : Bytes) : Bool :=
  if a.length != b.length then false
  else (a.zip b).all fun p => (p.1 &&& caseInsensitiveMask) == (p.2 &&& caseInsensitiveMask)

/-- The labels of a name from right to left. -/
structure ReverseDnsLabels where
  remaining : Option Bytes

namespace ReverseDnsLabels

def new (name : Bytes) : ReverseDnsLabels := ⟨some name⟩

def hasMoreLabels (labels : ReverseDnsLabels) : Bool := labels.remaining.isSome

/-- The next label, and the iterator afterwards. -/
def next (labels : ReverseDnsLabels) : Option (Bytes × ReverseDnsLabels) :=
  match labels.remaining with
  | none => none
  | some base =>
    if asciiPeriod ∈ base then
      some (base.rtakeWhile (· != asciiPeriod),
        ⟨some (base.rdropWhile (· != asciiPeriod)).dropLast⟩)
    else
      some (base, ⟨none⟩)

/-- An upper bound for the number of labels left. -/
def size (labels : ReverseDnsLabels) : Nat := labels.remaining.elim 0 fun base => base.length + 1

theorem size_next {labels labels' : ReverseDnsLabels} {label : Bytes}
    (h : labels.next = some (label, labels')) : labels'.size < labels.size := by
  obtain ⟨_ | base⟩ := labels
  · simp [next] at h
  simp only [next] at h
  split at h
  · next hperiod =>
    obtain ⟨-, rfl⟩ := Prod.mk.inj (Option.some.inj h)
    have hle := (List.rdropWhile_prefix (· != asciiPeriod) base).length_le
    have hpos : base.length ≠ 0 := by
      rintro hnil
      rw [List.length_eq_zero_iff.mp hnil] at hperiod
      exact absurd hperiod List.not_mem_nil
    simp only [size, Option.elim_some, List.length_dropLast]
    omega
  · obtain ⟨-, rfl⟩ := Prod.mk.inj (Option.some.inj h)
    simp [size]

end ReverseDnsLabels

/-- The loop of `dns_name_matches_constraint`. -/
def matchLabels (dnsLabels constraintLabels : ReverseDnsLabels) : Bool :=
  match dnsLabels.next, _h : constraintLabels.next with
  | _, none => true
  | none, some _ => false
  | some ([], _), some _ => false
  | some (_ :: _, _), some ([], constraintLabels) =>
    -- a leading period of the constraint stands for any further labels
    !constraintLabels.hasMoreLabels
  | some (dnsLabel, dnsLabels), some (constraintLabel, constraintLabels) =>
    if !maskedAsciiMatch dnsLabel constraintLabel then false
    else matchLabels dnsLabels constraintLabels
termination_by constraintLabels.size
decreasing_by exact ReverseDnsLabels.size_next _h

/-- A name without its trailing period, if it has one. -/
def stripTrailingPeriod (name : Bytes) : Bytes :=
  if name.getLast? == some asciiPeriod then name.dropLast else name

/-- `NameConstraintsPolicy::dns_name_matches_constraint`. -/
def dnsNameMatchesConstraint (dnsName constraint : Bytes) : Bool :=
  if !isValidDnsName dnsName false || !isValidDnsName constraint true then false
  else if constraint.isEmpty then true
  else matchLabels (.new dnsName) (.new (stripTrailingPeriod constraint))

/-! ## The loop as a recursion over labels -/

/-- The labels of a name, from left to right. -/
def labels (name : Bytes) : List Bytes := name.splitOn asciiPeriod

/-- The comparison, on the labels from right to left. -/
def matchReversed : List Bytes → List Bytes → Bool
  | _, [] => true
  | [], _ :: _ => false
  | [] :: _, _ :: _ => false
  | (_ :: _) :: _, [] :: constraintLabels => constraintLabels.isEmpty
  | dnsLabel :: dnsLabels, constraintLabel :: constraintLabels =>
    maskedAsciiMatch dnsLabel constraintLabel && matchReversed dnsLabels constraintLabels

theorem labels_ne_nil (name : Bytes) : labels name ≠ [] := List.splitOn_ne_nil _ _

theorem labels_append (pre label : Bytes) :
    labels (pre ++ asciiPeriod :: label) = labels pre ++ labels label :=
  List.splitOn_append_cons_self pre label

theorem labels_of_not_mem {label : Bytes} (h : asciiPeriod ∉ label) : labels label = [label] :=
  List.splitOn_eq_singleton h

theorem intercalate_labels (name : Bytes) : [asciiPeriod].intercalate (labels name) = name :=
  List.intercalate_splitOn _

namespace ReverseDnsLabels

/-- The labels still to come. -/
def toList (rest : ReverseDnsLabels) : List Bytes :=
  rest.remaining.elim [] fun base => (labels base).reverse

theorem hasMoreLabels_eq (rest : ReverseDnsLabels) :
    rest.hasMoreLabels = !rest.toList.isEmpty := by
  obtain ⟨_ | base⟩ := rest
  · rfl
  · simp [hasMoreLabels, toList, labels_ne_nil]

theorem next_of_period {pre label : Bytes} (h : asciiPeriod ∉ label) :
    next ⟨some (pre ++ asciiPeriod :: label)⟩ = some (label, ⟨some pre⟩) := by
  rw [next]
  simp only
  rw [if_pos (by simp), Split.rtakeWhile_bne h, Split.rdropWhile_bne h, List.dropLast_concat]

/-- An iterator has come to its end, or its next label comes first. -/
theorem next_cases (rest : ReverseDnsLabels) :
    (rest.next = none ∧ rest.toList = []) ∨
      ∃ label rest', rest.next = some (label, rest') ∧ rest.toList = label :: rest'.toList := by
  obtain ⟨_ | base⟩ := rest
  · exact .inl ⟨rfl, rfl⟩
  right
  by_cases h : asciiPeriod ∈ base
  · obtain ⟨pre, label, rfl, hlabel⟩ := Split.exists_last h
    refine ⟨_, _, next_of_period hlabel, ?_⟩
    simp [toList, labels_append, labels_of_not_mem hlabel]
  · refine ⟨base, ⟨none⟩, ?_, ?_⟩
    · rw [next]
      exact if_neg h
    · simp [toList, labels_of_not_mem h]

theorem toList_of_next_eq_none {rest : ReverseDnsLabels} (h : rest.next = none) :
    rest.toList = [] := by
  rcases rest.next_cases with ⟨_, hnil⟩ | ⟨_, _, hsome, _⟩
  · exact hnil
  · rw [h] at hsome
    cases hsome

theorem toList_of_next_eq_some {rest rest' : ReverseDnsLabels} {label : Bytes}
    (h : rest.next = some (label, rest')) : rest.toList = label :: rest'.toList := by
  rcases rest.next_cases with ⟨hnone, _⟩ | ⟨_, _, hsome, hcons⟩
  · rw [h] at hnone
    cases hnone
  · rw [h] at hsome
    cases hsome
    exact hcons

end ReverseDnsLabels

theorem matchReversed_nil_right (dnsLabels : List Bytes) : matchReversed dnsLabels [] = true := by
  cases dnsLabels <;> rfl

theorem matchReversed_cons {dnsLabel constraintLabel : Bytes}
    {dnsLabels constraintLabels : List Bytes} (hdns : dnsLabel ≠ [])
    (hconstraint : constraintLabel ≠ []) :
    matchReversed (dnsLabel :: dnsLabels) (constraintLabel :: constraintLabels) =
      (maskedAsciiMatch dnsLabel constraintLabel && matchReversed dnsLabels constraintLabels) := by
  obtain ⟨_, _, rfl⟩ := List.exists_cons_of_ne_nil hdns
  obtain ⟨_, _, rfl⟩ := List.exists_cons_of_ne_nil hconstraint
  rfl

/-- The last arm of the comparison is reached for labels that are not empty. -/
theorem ne_nil_of_last_arm {dnsLabel constraintLabel : Bytes} (hdns : dnsLabel ≠ [])
    (hconstraint : ∀ byte label, dnsLabel = byte :: label → constraintLabel ≠ []) :
    constraintLabel ≠ [] := by
  obtain ⟨byte, label, heq⟩ := List.exists_cons_of_ne_nil hdns
  exact hconstraint byte label heq

section

open ReverseDnsLabels

theorem matchLabels_eq (dnsLabels constraintLabels : ReverseDnsLabels) :
    matchLabels dnsLabels constraintLabels =
      matchReversed dnsLabels.toList constraintLabels.toList := by
  fun_induction matchLabels dnsLabels constraintLabels with
  | case1 dnsLabels constraintLabels hconstraint =>
    rw [toList_of_next_eq_none hconstraint, matchReversed_nil_right]
  | case2 dnsLabels constraintLabels next hconstraint hdns =>
    rw [toList_of_next_eq_none hdns, toList_of_next_eq_some hconstraint]
    rfl
  | case3 dnsLabels constraintLabels rest next hconstraint hdns =>
    rw [toList_of_next_eq_some hdns, toList_of_next_eq_some hconstraint]
    rfl
  | case4 dnsLabels constraintLabels byte label rest rest' hconstraint hdns =>
    rw [toList_of_next_eq_some hdns, toList_of_next_eq_some hconstraint, hasMoreLabels_eq,
      Bool.not_not]
    rfl
  | case5 dnsLabels constraintLabels dnsLabel rest constraintLabel rest' hne hne' hconstraint hdns
      hmatch =>
    rw [toList_of_next_eq_some hdns, toList_of_next_eq_some hconstraint,
      matchReversed_cons hne (ne_nil_of_last_arm hne hne')]
    have hmatch : maskedAsciiMatch dnsLabel constraintLabel = false := by simpa using hmatch
    rw [hmatch, Bool.false_and]
  | case6 dnsLabels constraintLabels dnsLabel rest constraintLabel rest' hne hne' hconstraint hdns
      hmatch ih =>
    rw [toList_of_next_eq_some hdns, toList_of_next_eq_some hconstraint,
      matchReversed_cons hne (ne_nil_of_last_arm hne hne'), ih]
    have hmatch : maskedAsciiMatch dnsLabel constraintLabel = true := by simpa using hmatch
    rw [hmatch, Bool.true_and]

end

/-- The comparison of valid names is one of their labels. -/
theorem dnsNameMatchesConstraint_iff {dnsName constraint : Bytes} :
    dnsNameMatchesConstraint dnsName constraint = true ↔
      isValidDnsName dnsName false = true ∧ isValidDnsName constraint true = true ∧
      (constraint = [] ∨ matchReversed (labels dnsName).reverse
        (labels (stripTrailingPeriod constraint)).reverse = true) := by
  unfold dnsNameMatchesConstraint
  rw [matchLabels_eq]
  simp only [ReverseDnsLabels.new, ReverseDnsLabels.toList, Option.elim_some]
  cases isValidDnsName dnsName false with
  | false => simp
  | true =>
    cases isValidDnsName constraint true with
    | false => simp
    | true => cases constraint <;> simp

/-! ## 1. Case -/

theorem toAsciiLowercase_bne_period (b : UInt8) :
    (toAsciiLowercase b != asciiPeriod) = (b != asciiPeriod) := by
  rw [Bool.eq_iff_iff, bne_iff_ne, bne_iff_ne, Ne, toAsciiLowercase_eq_iff (by decide)]

theorem nextLabel_lowercase (name : Bytes) :
    nextLabel (lowercase name) = (lowercase (nextLabel name).1, lowercase (nextLabel name).2) := by
  simp only [nextLabel, lowercase, List.takeWhile_map, List.dropWhile_map, List.map_drop,
    Function.comp_def, toAsciiLowercase_bne_period]

theorem isNonNumeric_toAsciiLowercase (b : UInt8) :
    isNonNumeric (toAsciiLowercase b) = isNonNumeric b := by
  revert b
  exact forall_uint8 (by decide +kernel)

theorem labelContentsFrom_lowercase (n : Nat) (label : Bytes) :
    labelContentsFrom n (lowercase label) = labelContentsFrom n label := by
  induction label generalizing n with
  | nil => rfl
  | cons b label ih =>
    rw [lowercase] at ih
    simp only [lowercase, List.map_cons, labelContentsFrom, isAsciiDigit_toAsciiLowercase,
      isNonNumeric_toAsciiLowercase, ih]

/-- The hyphen and other bytes that are no letters are found in the same place. -/
theorem beq_map_toAsciiLowercase {b : UInt8} (h : isAsciiAlphabetic b = false)
    (o : Option UInt8) : (o.map toAsciiLowercase == some b) = (o == some b) := by
  cases o with
  | none => rfl
  | some c =>
    rw [Bool.eq_iff_iff, beq_iff_eq, beq_iff_eq, Option.map_some, Option.some.injEq,
      Option.some.injEq, toAsciiLowercase_eq_iff h]

theorem labelIsValid_lowercase (isConstraint : Bool) (labelCount : Nat) (label rest : Bytes) :
    labelIsValid isConstraint labelCount (lowercase label) (lowercase rest) =
      labelIsValid isConstraint labelCount label rest := by
  have hcontents : labelContents (lowercase label) = labelContents label :=
    labelContentsFrom_lowercase 0 label
  unfold labelIsValid
  rw [hcontents]
  simp only [lowercase, List.isEmpty_map, List.head?_map, List.getLast?_map, List.length_map,
    beq_map_toAsciiLowercase (b := asciiHyphen) (by decide)]

theorem scanLabels_lowercase (isConstraint : Bool) (name : Bytes) (labelCount : Nat) :
    scanLabels isConstraint (lowercase name) labelCount =
      scanLabels isConstraint name labelCount := by
  fun_induction scanLabels isConstraint name labelCount with
  | case1 labelCount => rw [lowercase, List.map_nil, scanLabels, dif_pos rfl]
  | case2 name labelCount hne hvalid ih =>
    rw [scanLabels, dif_neg (by simpa [lowercase] using hne), nextLabel_lowercase,
      labelIsValid_lowercase, if_pos hvalid, ih]
  | case3 name labelCount hne hinvalid =>
    rw [scanLabels, dif_neg (by simpa [lowercase] using hne), nextLabel_lowercase,
      labelIsValid_lowercase, if_neg hinvalid]

theorem isValidDnsName_lowercase (name : Bytes) (isConstraint : Bool) :
    isValidDnsName (lowercase name) isConstraint = isValidDnsName name isConstraint := by
  have hscan : ∀ n labelCount, scanLabels isConstraint ((name.drop n).map toAsciiLowercase)
      labelCount = scanLabels isConstraint (name.drop n) labelCount :=
    fun n labelCount => scanLabels_lowercase isConstraint (name.drop n) labelCount
  have hscan0 := hscan 0 0
  rw [List.drop_zero] at hscan0
  unfold isValidDnsName
  simp only [lowercase, List.length_map, List.head?_map, ← List.map_drop, hscan, hscan0,
    beq_map_toAsciiLowercase (b := asciiAsterisk) (by decide),
    beq_map_toAsciiLowercase (b := asciiPeriod) (by decide)]

theorem isValidDnsName_congr {name name' : Bytes} (h : lowercase name = lowercase name')
    (isConstraint : Bool) :
    isValidDnsName name isConstraint = isValidDnsName name' isConstraint := by
  rw [← isValidDnsName_lowercase name, h, isValidDnsName_lowercase]

theorem labels_lowercase (name : Bytes) :
    labels (lowercase name) = (labels name).map lowercase := by
  induction name with
  | nil => rfl
  | cons b name ih =>
    rw [lowercase] at ih
    rw [lowercase, List.map_cons, labels, labels, List.splitOn_cons_eq_if_modifyHead,
      List.splitOn_cons_eq_if_modifyHead]
    rw [labels, labels] at ih
    have hperiod : (toAsciiLowercase b == asciiPeriod) = (b == asciiPeriod) := by
      rw [Bool.eq_iff_iff, beq_iff_eq, beq_iff_eq, toAsciiLowercase_eq_iff (by decide)]
    rw [hperiod, ih]
    split
    · rfl
    · cases name.splitOn asciiPeriod with
      | nil => rfl
      | cons label rest => rfl

theorem mask_toAsciiLowercase (b : UInt8) :
    toAsciiLowercase b &&& caseInsensitiveMask = b &&& caseInsensitiveMask := by
  revert b
  exact forall_uint8 (by decide +kernel)

theorem maskedAsciiMatch_lowercase (a b : Bytes) :
    maskedAsciiMatch (lowercase a) b = maskedAsciiMatch a b := by
  unfold maskedAsciiMatch
  simp only [lowercase, List.length_map, List.zip_map_left, List.all_map, Function.comp_def,
    Prod.map_fst, Prod.map_snd, id_eq, mask_toAsciiLowercase]

theorem matchReversed_lowercase (dnsLabels constraintLabels : List Bytes) :
    matchReversed (dnsLabels.map lowercase) constraintLabels =
      matchReversed dnsLabels constraintLabels := by
  fun_induction matchReversed dnsLabels constraintLabels with
  | case1 dnsLabels => rw [matchReversed_nil_right]
  | case2 label rest => rfl
  | case3 dnsLabels label rest => rfl
  | case4 byte label dnsLabels rest => rfl
  | case5 dnsLabel dnsLabels constraintLabel rest hne hne' ih =>
    have hlower : lowercase dnsLabel ≠ [] := fun h => hne (List.map_eq_nil_iff.mp h)
    rw [List.map_cons, matchReversed_cons hlower (ne_nil_of_last_arm hne hne'),
      maskedAsciiMatch_lowercase, ih]

/-- Names that differ in case only satisfy the same constraints. -/
theorem dnsNameMatchesConstraint_congr {dnsName dnsName' : Bytes}
    (h : lowercase dnsName = lowercase dnsName') (constraint : Bytes) :
    dnsNameMatchesConstraint dnsName constraint = dnsNameMatchesConstraint dnsName' constraint := by
  have hlower : ∀ name, dnsNameMatchesConstraint (lowercase name) constraint =
      dnsNameMatchesConstraint name constraint := by
    intro name
    rw [Bool.eq_iff_iff, dnsNameMatchesConstraint_iff, dnsNameMatchesConstraint_iff,
      isValidDnsName_lowercase, labels_lowercase, ← List.map_reverse, matchReversed_lowercase]
  rw [← hlower dnsName, h, hlower]

/-! ## 2. The leftmost label -/

/-- Replacing the leftmost label of a name keeps every match except with a
constraint that spells out all labels of the name. -/
theorem matchReversed_snoc {dnsLabels constraintLabels : List Bytes} {label label' : Bytes}
    (hne : label ≠ []) (hne' : label' ≠ [])
    (h : matchReversed (dnsLabels ++ [label]) constraintLabels = true) :
    matchReversed (dnsLabels ++ [label']) constraintLabels = true ∨
      List.Forall₂ (fun a b => maskedAsciiMatch a b = true) (dnsLabels ++ [label])
        constraintLabels := by
  induction dnsLabels generalizing constraintLabels with
  | nil =>
    obtain ⟨byte, bytes, rfl⟩ := List.exists_cons_of_ne_nil hne
    obtain ⟨byte', bytes', rfl⟩ := List.exists_cons_of_ne_nil hne'
    match constraintLabels, h with
    | [], _ => exact .inl rfl
    | [] :: rest, h => exact .inl h
    | (c :: constraintLabel) :: rest, h =>
      rw [List.nil_append, matchReversed_cons (by simp) (by simp), Bool.and_eq_true] at h
      cases rest with
      | nil => exact .inr (.cons h.1 .nil)
      | cons _ _ => exact absurd h.2 Bool.false_ne_true
  | cons dnsLabel dnsLabels ih =>
    match dnsLabel, constraintLabels, h with
    | _, [], _ => exact .inl (matchReversed_nil_right _)
    | [], _ :: _, h => exact absurd h Bool.false_ne_true
    | byte :: bytes, [] :: rest, h => exact .inl h
    | byte :: bytes, (c :: constraintLabel) :: rest, h =>
      rw [List.cons_append, matchReversed_cons (by simp) (by simp), Bool.and_eq_true] at h
      rcases ih h.2 with hmatch | hforall
      · left
        rw [List.cons_append, matchReversed_cons (by simp) (by simp), h.1, hmatch]
        rfl
      · exact .inr (.cons h.1 hforall)

/-! ## Bytes of valid names -/

/-- The bytes that a label may have. -/
def isLabelByte (byte : UInt8) : Bool := isAsciiDigit byte || isNonNumeric byte

/-- The digits are not among the bytes that are counted. -/
theorem isNonNumeric_iff {b : UInt8} :
    isNonNumeric b = true ↔ isLabelByte b = true ∧ isAsciiDigit b = false := by
  have hall : ∀ b : UInt8, isNonNumeric b = (isLabelByte b && !isAsciiDigit b) :=
    forall_uint8 (by decide +kernel)
  simp [hall b]

/-- The scan of a label counts its bytes that are no digits. -/
theorem labelContentsFrom_eq (n : Nat) (label : Bytes) :
    labelContentsFrom n label =
      if label.all isLabelByte then .allAscii (n + label.countP isNonNumeric) else .nonAscii := by
  induction label generalizing n with
  | nil => simp [labelContentsFrom]
  | cons b label ih =>
    rw [labelContentsFrom, List.all_cons, List.countP_cons]
    cases hdigit : isAsciiDigit b with
    | true =>
      have hbyte : isLabelByte b = true := by simp [isLabelByte, hdigit]
      have hnumeric : isNonNumeric b = false := by
        rw [← Bool.not_eq_true, isNonNumeric_iff]
        simp [hdigit]
      simp [ih, hbyte, hnumeric]
    | false =>
      have hbyte : isLabelByte b = isNonNumeric b := by simp [isLabelByte, hdigit]
      cases hnumeric : isNonNumeric b with
      | true => simp [ih, hbyte, hnumeric, Nat.add_assoc, Nat.add_comm 1]
      | false => simp [hbyte, hnumeric]

/-- What the checks of one label ask for. -/
theorem labelIsValid_eq_true {isConstraint : Bool} {labelCount : Nat} {label rest : Bytes} :
    labelIsValid isConstraint labelCount label rest = true ↔
      (label = [] → labelCount = 1 ∧ isConstraint = true) ∧
      label.head? ≠ some asciiHyphen ∧ label.getLast? ≠ some asciiHyphen ∧
      label.length ≤ maximumLabelLength ∧ (∀ b ∈ label, isLabelByte b = true) ∧
      (rest = [] → ∃ b ∈ label, isNonNumeric b = true) := by
  have hempty : (label.isEmpty && !(labelCount == 1 && isConstraint)) = false ↔
      (label = [] → labelCount = 1 ∧ isConstraint = true) := by
    cases label with
    | nil => simp
    | cons b label => simp
  have hlast : (!(label.countP isNonNumeric == 0 && rest.isEmpty)) = true ↔
      (rest = [] → ∃ b ∈ label, isNonNumeric b = true) := by
    rw [← List.countP_pos_iff, Nat.pos_iff_ne_zero]
    cases rest with
    | nil => simp
    | cons b rest => simp
  unfold labelIsValid
  rw [← hempty, ← hlast, ← List.all_eq_true, labelContents, labelContentsFrom_eq, Nat.zero_add]
  generalize (label.isEmpty && !(labelCount == 1 && isConstraint)) = isMissing
  cases label.all isLabelByte with
  | true => simp [and_assoc]
  | false => simp
/-- A name is its first label, a period and the rest, or its first label only. -/
theorem nextLabel_spec (name : Bytes) :
    asciiPeriod ∉ (nextLabel name).1 ∧
      (name = (nextLabel name).1 ++ asciiPeriod :: (nextLabel name).2 ∨
        name = (nextLabel name).1 ∧ (nextLabel name).2 = []) := by
  refine ⟨fun h => ?_, ?_⟩
  · have hbne := List.mem_takeWhile_imp h
    simp at hbne
  · have happend := List.takeWhile_append_dropWhile (p := (· != asciiPeriod)) (l := name)
    simp only [nextLabel]
    cases hdrop : name.dropWhile (· != asciiPeriod) with
    | nil =>
      right
      rw [hdrop, List.append_nil] at happend
      exact ⟨happend.symm, rfl⟩
    | cons b rest =>
      left
      have hb : b = asciiPeriod := by
        have hhead := List.head_dropWhile_not (· != asciiPeriod) (l := name) (by simp [hdrop])
        simpa [hdrop] using hhead
      rw [hdrop, hb] at happend
      exact happend.symm

theorem scanLabels_bytes {isConstraint : Bool} {name : Bytes} {labelCount m : Nat}
    (h : scanLabels isConstraint name labelCount = some m) :
    ∀ b ∈ name, isLabelByte b = true ∨ b = asciiPeriod := by
  fun_induction scanLabels isConstraint name labelCount with
  | case1 labelCount => simp
  | case2 name labelCount hne hvalid ih =>
    obtain ⟨-, -, -, -, hlabel, -⟩ := labelIsValid_eq_true.mp hvalid
    have hrest := ih h
    intro b hb
    rcases (nextLabel_spec name).2 with heq | ⟨heq, _⟩
    · rw [heq] at hb
      rcases List.mem_append.mp hb with hb | hb
      · exact .inl (hlabel b hb)
      · rcases List.mem_cons.mp hb with hb | hb
        · exact .inr hb
        · exact hrest b hb
    · rw [heq] at hb
      exact .inl (hlabel b hb)
  | case3 name labelCount hne hinvalid => cases h

/-- A valid name is an optional wildcard label and labels. -/
theorem isValidDnsName_iff_scanLabels {name : Bytes} {isConstraint : Bool} :
    isValidDnsName name isConstraint = true ↔
      name.length ≤ maximumNameLength ∧
        ((∃ rest m, name = asciiAsterisk :: asciiPeriod :: rest ∧
            scanLabels isConstraint rest 1 = some m ∧ 3 ≤ m) ∨
          (name.head? ≠ some asciiAsterisk ∧ ∃ m, scanLabels isConstraint name 0 = some m)) := by
  unfold isValidDnsName
  constructor
  · intro h
    split at h
    · cases h
    next hlength =>
    refine ⟨Nat.not_lt.mp hlength, ?_⟩
    split at h
    · next hasterisk =>
      split at h
      · next hperiod =>
        split at h
        · next m hscan =>
          left
          match name, hasterisk, hperiod with
          | a :: b :: rest, hasterisk, hperiod =>
            simp only [List.head?_cons, beq_iff_eq, Option.some.injEq, List.drop_succ_cons,
              List.drop_zero] at hasterisk hperiod
            exact ⟨rest, m, by rw [hasterisk, hperiod], hscan, by simpa using h⟩
        · cases h
      · cases h
    · next hasterisk =>
      exact .inr ⟨by simpa using hasterisk, Option.isSome_iff_exists.mp h⟩
  · rintro ⟨hlength, ⟨rest, m, rfl, hscan, hcount⟩ | ⟨hhead, m, hscan⟩⟩
    · rw [if_neg (Nat.not_lt.mpr hlength)]
      simpa [hscan] using hcount
    · rw [if_neg (Nat.not_lt.mpr hlength), if_neg (by simpa using hhead), hscan]
      rfl

theorem isValidDnsName_cases {name : Bytes} {isConstraint : Bool}
    (h : isValidDnsName name isConstraint = true) :
    (∃ rest m, name = asciiAsterisk :: asciiPeriod :: rest ∧
      scanLabels isConstraint rest 1 = some m) ∨
    (name.head? ≠ some asciiAsterisk ∧ ∃ m, scanLabels isConstraint name 0 = some m) := by
  obtain ⟨-, ⟨rest, m, hname, hscan, -⟩ | hscan⟩ := isValidDnsName_iff_scanLabels.mp h
  · exact .inl ⟨rest, m, hname, hscan⟩
  · exact .inr hscan

theorem isValidDnsName_bytes {name : Bytes} {isConstraint : Bool}
    (h : isValidDnsName name isConstraint = true) :
    ∀ b ∈ name, isLabelByte b = true ∨ b = asciiPeriod ∨ b = asciiAsterisk := by
  rcases isValidDnsName_cases h with ⟨rest, m, rfl, hscan⟩ | ⟨_, m, hscan⟩
  · intro b hb
    simp only [List.mem_cons] at hb
    rcases hb with hb | hb | hb
    · exact .inr (.inr hb)
    · exact .inr (.inl hb)
    · exact (scanLabels_bytes hscan b hb).imp_right .inl
  · exact fun b hb => (scanLabels_bytes hscan b hb).imp_right .inl

theorem not_mem_asterisk_of_valid {name : Bytes} {isConstraint : Bool}
    (h : isValidDnsName name isConstraint = true) (hhead : name.head? ≠ some asciiAsterisk) :
    asciiAsterisk ∉ name := by
  rcases isValidDnsName_cases h with ⟨rest, m, rfl, _⟩ | ⟨_, m, hscan⟩
  · exact absurd rfl hhead
  · intro hmem
    rcases scanLabels_bytes hscan _ hmem with hbyte | hperiod
    · exact absurd hbyte (by decide)
    · exact absurd hperiod (by decide)

/-- On bytes of labels the mask does not identify more than the case. -/
theorem toAsciiLowercase_eq_of_mask {a b : UInt8} (ha : isLabelByte a = true ∨ a = asciiAsterisk)
    (hb : isLabelByte b = true ∨ b = asciiAsterisk)
    (h : a &&& caseInsensitiveMask = b &&& caseInsensitiveMask) :
    toAsciiLowercase a = toAsciiLowercase b := by
  have hbit : ∀ b : UInt8, b = b &&& caseInsensitiveMask ∨ b = b &&& caseInsensitiveMask ||| 0x20 :=
    forall_uint8 (by decide +kernel)
  have hall : ∀ a : UInt8, isLabelByte a = true ∨ a = asciiAsterisk →
      ∀ b ∈ [a &&& caseInsensitiveMask, a &&& caseInsensitiveMask ||| 0x20],
        isLabelByte b = true ∨ b = asciiAsterisk → toAsciiLowercase a = toAsciiLowercase b :=
    forall_uint8 (by decide +kernel)
  refine hall a ha b ?_ hb
  rw [h]
  simpa using hbit b

/-- Labels of valid bytes that match under the mask are equal up to case. -/
theorem lowercase_eq_of_maskedAsciiMatch {a b : Bytes}
    (ha : ∀ x ∈ a, isLabelByte x = true ∨ x = asciiAsterisk)
    (hb : ∀ x ∈ b, isLabelByte x = true ∨ x = asciiAsterisk) (h : maskedAsciiMatch a b = true) :
    lowercase a = lowercase b := by
  unfold maskedAsciiMatch at h
  split at h
  · cases h
  next hlength =>
  have hlength : a.length = b.length := by simpa using hlength
  refine List.ext_getElem (by simpa [lowercase] using hlength) fun i hi hi' => ?_
  simp only [lowercase, List.length_map] at hi hi'
  simp only [lowercase, List.getElem_map]
  rw [List.all_eq_true] at h
  have hmask := h (a[i], b[i]) (List.mem_iff_getElem.mpr ⟨i, by simp; omega, by simp⟩)
  exact toAsciiLowercase_eq_of_mask (ha _ (List.getElem_mem hi)) (hb _ (List.getElem_mem hi'))
    (by simpa using hmask)

theorem mem_labels {name label : Bytes} (h : label ∈ labels name) :
    ∀ b ∈ label, b ∈ name ∧ b ≠ asciiPeriod := by
  induction name generalizing label with
  | nil =>
    rw [List.mem_singleton.mp h]
    simp
  | cons c name ih =>
    rw [labels, List.splitOn_cons_eq_if_modifyHead] at h
    split at h
    · rcases List.mem_cons.mp h with rfl | h
      · simp
      · exact fun b hb => (ih h b hb).imp_left (List.mem_cons_of_mem c)
    · next hc =>
      obtain ⟨first, rest, hlabels⟩ := List.exists_cons_of_ne_nil (labels_ne_nil name)
      rw [← labels, hlabels, List.modifyHead_cons] at h
      rw [hlabels] at ih
      rcases List.mem_cons.mp h with rfl | h
      · intro b hb
        rcases List.mem_cons.mp hb with rfl | hb
        · exact ⟨List.mem_cons_self, by simpa using hc⟩
        · exact (ih List.mem_cons_self b hb).imp_left (List.mem_cons_of_mem c)
      · exact fun b hb =>
          (ih (List.mem_cons_of_mem first h) b hb).imp_left (List.mem_cons_of_mem c)

theorem mem_of_mem_stripTrailingPeriod {name : Bytes} {b : UInt8}
    (h : b ∈ stripTrailingPeriod name) : b ∈ name := by
  unfold stripTrailingPeriod at h
  split at h
  · exact (List.dropLast_sublist name).subset h
  · exact h

theorem stripTrailingPeriod_eq_self {name : Bytes} (h : name.getLast? ≠ some asciiPeriod) :
    stripTrailingPeriod name = name := by
  rw [stripTrailingPeriod, if_neg (by simpa using h)]

theorem stripTrailingPeriod_concat (name : Bytes) :
    stripTrailingPeriod (name ++ [asciiPeriod]) = name := by
  simp [stripTrailingPeriod]

theorem trailing_period_cases (name : Bytes) :
    (∃ init, name = init ++ [asciiPeriod]) ∨ name.getLast? ≠ some asciiPeriod := by
  rw [← List.getLast?_eq_some_iff]
  exact em _

theorem mem_stripTrailingPeriod {name : Bytes} {b : UInt8} (hb : b ≠ asciiPeriod) :
    b ∈ stripTrailingPeriod name ↔ b ∈ name := by
  refine ⟨mem_of_mem_stripTrailingPeriod, fun h => ?_⟩
  rcases trailing_period_cases name with ⟨init, rfl⟩ | hlast
  · rw [stripTrailingPeriod_concat]
    exact (List.mem_append.mp h).resolve_right fun hmem => hb (List.mem_singleton.mp hmem)
  · rwa [stripTrailingPeriod_eq_self hlast]

/-- A name and a constraint all of whose labels match are equal up to case. -/
theorem lowercase_eq_of_forall₂_labels {name constraint : Bytes}
    (hname : ∀ b ∈ name, isLabelByte b = true ∨ b = asciiPeriod)
    (hconstraint : ∀ b ∈ constraint, isLabelByte b = true ∨ b = asciiPeriod ∨ b = asciiAsterisk)
    (h : List.Forall₂ (fun a b => maskedAsciiMatch a b = true) (labels name).reverse
      (labels constraint).reverse) : lowercase name = lowercase constraint := by
  rw [List.forall₂_reverse_iff] at h
  have hlabels : (labels name).map lowercase = (labels constraint).map lowercase := by
    refine List.ext_getElem (by simpa using h.length_eq) fun i hi hi' => ?_
    simp only [List.length_map] at hi hi'
    simp only [List.getElem_map]
    refine lowercase_eq_of_maskedAsciiMatch (fun b hb => ?_) (fun b hb => ?_) (h.get hi hi')
    · obtain ⟨hmem, hne⟩ := mem_labels (List.getElem_mem hi) b hb
      exact .inl ((hname b hmem).resolve_right hne)
    · obtain ⟨hmem, hne⟩ := mem_labels (List.getElem_mem hi') b hb
      exact (hconstraint b hmem).imp_right fun h => h.resolve_left hne
  rw [← labels_lowercase, ← labels_lowercase] at hlabels
  rw [← intercalate_labels (lowercase name), hlabels, intercalate_labels]

/-! ## 3. Wildcards -/

/-- The names `label.rest`. -/
def underDomain (label rest : Bytes) : Bytes := label ++ asciiPeriod :: rest

/-- The name `*.rest`. -/
def wildcardOf (rest : Bytes) : Bytes := underDomain [asciiAsterisk] rest

theorem labels_underDomain {label : Bytes} (h : asciiPeriod ∉ label) (rest : Bytes) :
    (labels (underDomain label rest)).reverse = (labels rest).reverse ++ [label] := by
  rw [underDomain, labels_append, labels_of_not_mem h]
  simp

theorem labels_wildcardOf (rest : Bytes) :
    (labels (wildcardOf rest)).reverse = (labels rest).reverse ++ [[asciiAsterisk]] :=
  labels_underDomain (by decide) rest

/-- A constraint that matches a name but not the wildcard above it spells out
that name. -/
theorem lowercase_eq_of_not_wildcardOf_matches {label rest constraint : Bytes}
    (hlabel : asciiPeriod ∉ label) (hne : label ≠ [])
    (hbytes : ∀ b ∈ underDomain label rest, isLabelByte b = true ∨ b = asciiPeriod)
    (hvalid : isValidDnsName (wildcardOf rest) false = true)
    (hmatch : dnsNameMatchesConstraint (underDomain label rest) constraint = true)
    (hwildcard : ¬ dnsNameMatchesConstraint (wildcardOf rest) constraint = true) :
    lowercase (stripTrailingPeriod constraint) = lowercase (underDomain label rest) := by
  rw [dnsNameMatchesConstraint_iff] at hmatch hwildcard
  obtain ⟨_, hconstraint, hmatch⟩ := hmatch
  have hwildcard : ¬ (constraint = [] ∨ matchReversed (labels (wildcardOf rest)).reverse
      (labels (stripTrailingPeriod constraint)).reverse = true) :=
    fun h => hwildcard ⟨hvalid, hconstraint, h⟩
  rw [not_or, labels_wildcardOf] at hwildcard
  have hmatch := hmatch.resolve_left hwildcard.1
  rw [labels_underDomain hlabel] at hmatch
  have hall := (matchReversed_snoc hne (by simp) hmatch).resolve_left hwildcard.2
  rw [← labels_underDomain hlabel] at hall
  refine (lowercase_eq_of_forall₂_labels hbytes (fun b hb => ?_) hall).symm
  exact isValidDnsName_bytes hconstraint b (mem_of_mem_stripTrailingPeriod hb)

/-- A constraint that matches a wildcard and is no wildcard itself matches the
valid names under it. -/
theorem matches_of_wildcardOf_matches {label rest constraint : Bytes}
    (hlabel : asciiPeriod ∉ label) (hne : label ≠ [])
    (hvalid : isValidDnsName (underDomain label rest) false = true)
    (hconstraint : constraint.head? ≠ some asciiAsterisk)
    (hmatch : dnsNameMatchesConstraint (wildcardOf rest) constraint = true) :
    dnsNameMatchesConstraint (underDomain label rest) constraint = true := by
  rw [dnsNameMatchesConstraint_iff] at hmatch ⊢
  obtain ⟨_, hvalidConstraint, hmatch⟩ := hmatch
  refine ⟨hvalid, hvalidConstraint, hmatch.imp_right fun hmatch => ?_⟩
  rw [labels_wildcardOf] at hmatch
  rw [labels_underDomain hlabel]
  rcases matchReversed_snoc (by simp) hne hmatch with hmatch | hall
  · exact hmatch
  have hlast : ∃ c ∈ labels (stripTrailingPeriod constraint),
      maskedAsciiMatch [asciiAsterisk] c = true := by
    rw [← labels_wildcardOf, List.forall₂_reverse_iff, wildcardOf, underDomain, labels_append,
      labels_of_not_mem (by decide), List.singleton_append] at hall
    generalize labels (stripTrailingPeriod constraint) = constraintLabels at hall
    cases hall with
    | cons hfirst _ => exact ⟨_, List.mem_cons_self, hfirst⟩
  obtain ⟨c, hc, hmask⟩ := hlast
  match c, hmask with
  | [], hmask => exact absurd hmask (by decide)
  | _ :: _ :: _, hmask => simp [maskedAsciiMatch] at hmask
  | [y], hmask =>
    obtain ⟨hy, hperiod⟩ := mem_labels hc y List.mem_cons_self
    have hmem := mem_of_mem_stripTrailingPeriod hy
    have hasterisk : y ≠ asciiAsterisk := by
      rintro rfl
      exact not_mem_asterisk_of_valid hvalidConstraint hconstraint hmem
    have hbyte : isLabelByte y = true := by
      rcases isValidDnsName_bytes hvalidConstraint y hmem with h | h | h
      · exact h
      · exact absurd h hperiod
      · exact absurd h hasterisk
    have hmask : asciiAsterisk &&& caseInsensitiveMask = y &&& caseInsensitiveMask := by
      simpa [maskedAsciiMatch] using hmask
    have hlower := toAsciiLowercase_eq_of_mask (.inl hbyte) (.inr rfl) hmask.symm
    exact absurd ((toAsciiLowercase_eq_iff (by decide)).mp hlower) hasterisk

/-! ## 4. Trailing periods -/

theorem nextLabel_append_of_head {label rest : Bytes} (hlabel : asciiPeriod ∉ label)
    (hrest : ∀ b ∈ rest.head?, b = asciiPeriod) :
    nextLabel (label ++ rest) = (label, rest.drop 1) := by
  have hhead : ∀ b ∈ rest.head?, (b != asciiPeriod) = false := by
    intro b hb
    rw [hrest b hb]
    rfl
  rw [nextLabel, Split.takeWhile_append (Split.bne_of_not_mem hlabel) hhead,
    Split.dropWhile_append (Split.bne_of_not_mem hlabel) hhead]

theorem nextLabel_append {label : Bytes} (h : asciiPeriod ∉ label) (rest : Bytes) :
    nextLabel (label ++ asciiPeriod :: rest) = (label, rest) :=
  nextLabel_append_of_head h (by simp)

theorem nextLabel_period (rest : Bytes) : nextLabel (asciiPeriod :: rest) = ([], rest) :=
  nextLabel_append List.not_mem_nil rest

/-- A name does not begin with an empty label. -/
theorem scanLabels_period (rest : Bytes) (labelCount : Nat) :
    scanLabels false (asciiPeriod :: rest) labelCount = none := by
  rw [scanLabels, dif_neg (by simp), nextLabel_period, labelIsValid]
  simp

/-- What scanning a name with a period after it does. -/
theorem scanLabels_append_period {name : Bytes} {labelCount m : Nat}
    (h : scanLabels false (name ++ [asciiPeriod]) labelCount = some m) :
    ((nextLabel name).2 = [] ∧ name = (nextLabel name).1 ∧ m = labelCount + 1 ∧
      labelIsValid false (labelCount + 1) (nextLabel name).1 [] = true) ∨
    ((nextLabel name).2 ≠ [] ∧
      labelIsValid false (labelCount + 1) (nextLabel name).1 (nextLabel name).2 = true ∧
      scanLabels false ((nextLabel name).2 ++ [asciiPeriod]) (labelCount + 1) = some m) := by
  obtain ⟨hlabel, hname⟩ := nextLabel_spec name
  generalize (nextLabel name).1 = label at hlabel hname ⊢
  generalize (nextLabel name).2 = rest at hname ⊢
  rw [scanLabels, dif_neg (by simp)] at h
  rcases hname with rfl | ⟨rfl, rfl⟩
  · right
    rw [List.append_assoc, List.cons_append, nextLabel_append hlabel] at h
    split at h
    · next hvalid =>
      have hrest : rest ≠ [] := by
        rintro rfl
        rw [List.nil_append, scanLabels_period] at h
        cases h
      refine ⟨hrest, ?_, h⟩
      have hempty : (rest ++ [asciiPeriod]).isEmpty = rest.isEmpty := by
        obtain ⟨_, _, rfl⟩ := List.exists_cons_of_ne_nil hrest
        rfl
      rwa [labelIsValid, hempty, ← labelIsValid] at hvalid
    · cases h
  · left
    rw [nextLabel_append hlabel] at h
    split at h
    · next hvalid =>
      rw [scanLabels, dif_pos rfl] at h
      exact ⟨rfl, rfl, (Option.some.inj h).symm, hvalid⟩
    · cases h

/-- Labels that are valid with a trailing period are valid without it. -/
theorem scanLabels_of_append_period {name : Bytes} {labelCount m : Nat}
    (h : scanLabels false (name ++ [asciiPeriod]) labelCount = some m) :
    scanLabels false name labelCount = some m := by
  fun_induction scanLabels false name labelCount with
  | case1 labelCount =>
    rw [List.nil_append, scanLabels_period] at h
    cases h
  | case2 name labelCount hne hvalid ih =>
    rcases scanLabels_append_period h with ⟨hrest, _, rfl, _⟩ | ⟨_, _, hscan⟩
    · rw [hrest, scanLabels, dif_pos rfl]
    · exact ih hscan
  | case3 name labelCount hne hinvalid =>
    rcases scanLabels_append_period h with ⟨hrest, _, _, hvalid⟩ | ⟨_, hvalid, _⟩
    · rw [hrest] at hinvalid
      exact absurd hvalid hinvalid
    · exact absurd hvalid hinvalid

/-- A name that ends in a period satisfies the empty constraint only. -/
theorem eq_nil_of_trailing_period_matches {name constraint : Bytes}
    (h : dnsNameMatchesConstraint (name ++ [asciiPeriod]) constraint = true) : constraint = [] := by
  rw [dnsNameMatchesConstraint_iff] at h
  obtain ⟨_, _, hnil | hmatch⟩ := h
  · exact hnil
  · have hlabels : (labels (name ++ [asciiPeriod])).reverse = [] :: (labels name).reverse := by
      have happend := labels_append name []
      rw [labels_of_not_mem List.not_mem_nil] at happend
      rw [happend]
      simp
    obtain ⟨label, rest, hcons⟩ :=
      List.exists_cons_of_ne_nil (List.reverse_ne_nil_iff.mpr
        (labels_ne_nil (stripTrailingPeriod constraint)))
    rw [hlabels, hcons] at hmatch
    exact absurd hmatch Bool.false_ne_true

/-- Where a name without wildcard satisfies a constraint, it does so without its
trailing period. -/
theorem stripTrailingPeriod_matches {name constraint : Bytes}
    (hname : name.head? ≠ some asciiAsterisk)
    (h : dnsNameMatchesConstraint name constraint = true) :
    dnsNameMatchesConstraint (stripTrailingPeriod name) constraint = true := by
  rcases trailing_period_cases name with ⟨init, rfl⟩ | hlast
  · rw [stripTrailingPeriod_concat]
    obtain rfl := eq_nil_of_trailing_period_matches h
    rw [dnsNameMatchesConstraint_iff] at h ⊢
    refine ⟨?_, h.2.1, .inl rfl⟩
    have hvalid := h.1
    unfold isValidDnsName at hvalid ⊢
    split at hvalid
    · cases hvalid
    next hlength =>
    rw [List.length_append] at hlength
    rw [if_neg (by omega)]
    rw [if_neg (by simpa using hname)] at hvalid
    obtain ⟨m, hscan⟩ := Option.isSome_iff_exists.mp hvalid
    have hscan := scanLabels_of_append_period hscan
    cases init with
    | nil => simp [hscan]
    | cons b init =>
      rw [if_neg (by simpa using hname), hscan]
      rfl
  · rwa [stripTrailingPeriod_eq_self hlast]

end X509Validator
