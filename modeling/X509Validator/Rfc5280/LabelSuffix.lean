import X509Validator.Rfc5280.DnsNames

/-!
# DNS constraints as suffixes of labels

RFC 5280 says that a name satisfies a constraint when it can be constructed by
adding labels to the left of it. The code walks two iterators of labels from the
right, with an arm for each way in which one of them can end or yield an empty
label.

Results:
1. `labels_cases_of_valid`: the labels of a valid name are not empty, except for
   the one before the leading period of a constraint.
2. `matchReversed_iff` and `matchReversed_leading_iff`: on such labels the walk is
   a comparison with a suffix, or with a proper one.
3. `dns_name_matches_constraint_iff`: the relation as a whole.
-/

namespace X509Validator

open Ascii

/-! ## 1. Labels of valid names -/

theorem ne_nil_of_labelIsValid {isConstraint : Bool} {labelCount : Nat} {label rest : Bytes}
    (h : labelIsValid isConstraint labelCount label rest = true)
    (hcount : labelCount ≠ 1 ∨ isConstraint = false ∨ rest = []) : label ≠ [] := by
  rintro rfl
  obtain ⟨hempty, -, -, -, -, hlast⟩ := labelIsValid_eq_true.mp h
  obtain ⟨hfirst, hconstraint⟩ := hempty rfl
  rcases hcount with hcount | hcount | rfl
  · exact hcount hfirst
  · exact Bool.false_ne_true (hcount.symm.trans hconstraint)
  · obtain ⟨b, hb, -⟩ := hlast rfl
    exact absurd hb List.not_mem_nil

theorem stripTrailingPeriod_append {label rest : Bytes} (h : rest ≠ []) :
    stripTrailingPeriod (label ++ asciiPeriod :: rest) =
      label ++ asciiPeriod :: stripTrailingPeriod rest := by
  have hlast : (label ++ asciiPeriod :: rest).getLast? = rest.getLast? := by
    rw [List.getLast?_append_of_ne_nil _ (List.cons_ne_nil _ _), List.getLast?_cons_of_ne_nil h]
  unfold stripTrailingPeriod
  rw [hlast]
  split
  · rw [List.dropLast_append_of_ne_nil (List.cons_ne_nil _ _), List.dropLast_cons_of_ne_nil h]
  · rfl

theorem getLast?_ne_period {label : Bytes} (h : asciiPeriod ∉ label) :
    label.getLast? ≠ some asciiPeriod := fun hlast => h (List.mem_of_getLast? hlast)

/-- What a scan accepts has no empty label, up to a trailing period and to a
leading one of a constraint. -/
theorem labels_of_scanLabels {isConstraint : Bool} {name : Bytes} {labelCount m : Nat}
    (hne : name ≠ []) (h : scanLabels isConstraint name labelCount = some m) :
    (∀ label ∈ labels (stripTrailingPeriod name), label ≠ []) ∨
      (labelCount = 0 ∧ isConstraint = true ∧ ∃ rest,
        stripTrailingPeriod name = asciiPeriod :: rest ∧ ∀ label ∈ labels rest, label ≠ []) := by
  fun_induction scanLabels isConstraint name labelCount with
  | case1 labelCount => exact absurd rfl hne
  | case3 name labelCount _ hinvalid => cases h
  | case2 name labelCount _ hvalid ih =>
    obtain ⟨hperiod, hname⟩ := nextLabel_spec name
    generalize (nextLabel name).1 = label at *
    generalize (nextLabel name).2 = rest at *
    by_cases hrest : rest = []
    · subst hrest
      have hlabel := ne_nil_of_labelIsValid hvalid (.inr (.inr rfl))
      have hstrip : stripTrailingPeriod name = label := by
        rcases hname with rfl | ⟨rfl, _⟩
        · exact stripTrailingPeriod_concat label
        · exact stripTrailingPeriod_eq_self (getLast?_ne_period hperiod)
      left
      rw [hstrip, labels_of_not_mem hperiod]
      simpa using hlabel
    · obtain rfl := hname.resolve_right fun h => hrest h.2
      have hlabels := (ih hrest h).resolve_right fun h => Nat.succ_ne_zero _ h.1
      rw [stripTrailingPeriod_append hrest]
      by_cases hlabel : label = []
      · right
        have hcount := mt (ne_nil_of_labelIsValid hvalid) (not_not.mpr hlabel)
        simp only [not_or, not_not, Bool.not_eq_false] at hcount
        exact ⟨Nat.succ.inj hcount.1, hcount.2.1, _, by rw [hlabel]; rfl, hlabels⟩
      · left
        rw [labels_append, labels_of_not_mem hperiod, List.singleton_append,
          List.forall_mem_cons]
        exact ⟨hlabel, hlabels⟩

theorem labels_cases_of_valid {name : Bytes} {isConstraint : Bool} (hne : name ≠ [])
    (h : isValidDnsName name isConstraint = true) :
    (∀ label ∈ labels (stripTrailingPeriod name), label ≠ []) ∨
      (isConstraint = true ∧ ∃ rest, stripTrailingPeriod name = asciiPeriod :: rest ∧
        ∀ label ∈ labels rest, label ≠ []) := by
  rcases isValidDnsName_cases h with ⟨rest, m, rfl, hscan⟩ | ⟨_, m, hscan⟩
  · left
    have hasterisk : asciiPeriod ∉ [asciiAsterisk] := by decide
    have hname : asciiAsterisk :: asciiPeriod :: rest =
        [asciiAsterisk] ++ asciiPeriod :: rest := rfl
    rw [hname]
    by_cases hrest : rest = []
    · subst hrest
      rw [stripTrailingPeriod_concat, labels_of_not_mem hasterisk]
      simp
    · have hlabels := (labels_of_scanLabels hrest hscan).resolve_right fun h =>
        Nat.succ_ne_zero _ h.1
      rw [stripTrailingPeriod_append hrest, labels_append, labels_of_not_mem hasterisk,
        List.singleton_append, List.forall_mem_cons]
      exact ⟨List.cons_ne_nil _ _, hlabels⟩
  · exact (labels_of_scanLabels hne hscan).imp_right fun h => h.2

/-! ## 2. The walk over labels -/

/-- The bytes of a label of a name or of a constraint. -/
def IsLabel (label : Bytes) : Prop :=
  label ≠ [] ∧ ∀ b ∈ label, isLabelByte b = true ∨ b = asciiAsterisk

theorem maskedAsciiMatch_eq_map (a b : Bytes) :
    maskedAsciiMatch a b = true ↔
      a.map (· &&& caseInsensitiveMask) = b.map (· &&& caseInsensitiveMask) := by
  induction a generalizing b with
  | nil => cases b <;> simp [maskedAsciiMatch]
  | cons x a ih =>
    cases b with
    | nil => simp [maskedAsciiMatch]
    | cons y b =>
      rw [List.map_cons, List.map_cons, List.cons.injEq, ← ih]
      unfold maskedAsciiMatch
      by_cases hlength : a.length = b.length
      · simp [hlength]
      · simp [hlength]

theorem maskedAsciiMatch_iff {a b : Bytes} (ha : IsLabel a) (hb : IsLabel b) :
    maskedAsciiMatch a b = true ↔ lowercase b = lowercase a := by
  refine ⟨fun h => (lowercase_eq_of_maskedAsciiMatch ha.2 hb.2 h).symm, fun h => ?_⟩
  have hmap (x : Bytes) : x.map (· &&& caseInsensitiveMask) =
      (lowercase x).map (· &&& caseInsensitiveMask) := by
    simp only [lowercase, List.map_map, Function.comp_def, mask_toAsciiLowercase]
  rw [maskedAsciiMatch_eq_map, hmap a, hmap b, h]

/-- On labels that are not empty the constraint must be a prefix, from the right. -/
theorem matchReversed_iff {dnsLabels constraintLabels : List Bytes}
    (hdns : ∀ label ∈ dnsLabels, IsLabel label)
    (hconstraint : ∀ label ∈ constraintLabels, IsLabel label) :
    matchReversed dnsLabels constraintLabels = true ↔
      constraintLabels.map lowercase <+: dnsLabels.map lowercase := by
  induction constraintLabels generalizing dnsLabels with
  | nil => simp [matchReversed_nil_right]
  | cons constraintLabel constraintLabels ih =>
    rw [List.forall_mem_cons] at hconstraint
    cases dnsLabels with
    | nil => simp [matchReversed]
    | cons dnsLabel dnsLabels =>
      rw [List.forall_mem_cons] at hdns
      rw [matchReversed_cons hdns.1.1 hconstraint.1.1, Bool.and_eq_true,
        maskedAsciiMatch_iff hdns.1 hconstraint.1, ih hdns.2 hconstraint.2, List.map_cons,
        List.map_cons, List.cons_prefix_cons]

/-- An empty label at the left end of the constraint asks for one more label. -/
theorem matchReversed_leading_iff {dnsLabels constraintLabels : List Bytes}
    (hdns : ∀ label ∈ dnsLabels, IsLabel label)
    (hconstraint : ∀ label ∈ constraintLabels, IsLabel label) :
    matchReversed dnsLabels (constraintLabels ++ [[]]) = true ↔
      constraintLabels.map lowercase <+: dnsLabels.map lowercase ∧
        constraintLabels.map lowercase ≠ dnsLabels.map lowercase := by
  induction constraintLabels generalizing dnsLabels with
  | nil =>
    cases dnsLabels with
    | nil => simp [matchReversed]
    | cons dnsLabel dnsLabels =>
      obtain ⟨_, _, rfl⟩ := List.exists_cons_of_ne_nil (hdns _ List.mem_cons_self).1
      simp [matchReversed]
  | cons constraintLabel constraintLabels ih =>
    rw [List.forall_mem_cons] at hconstraint
    cases dnsLabels with
    | nil => simp [matchReversed]
    | cons dnsLabel dnsLabels =>
      rw [List.forall_mem_cons] at hdns
      rw [List.cons_append, matchReversed_cons hdns.1.1 hconstraint.1.1, Bool.and_eq_true,
        maskedAsciiMatch_iff hdns.1 hconstraint.1, ih hdns.2 hconstraint.2, List.map_cons,
        List.map_cons, List.cons_prefix_cons, and_assoc]
      refine and_congr_right fun hlabel => and_congr_right fun _ => ?_
      rw [hlabel, Ne, Ne, List.cons.injEq, eq_self_iff_true, true_and]

/-! ## 3. The relation -/

/-- The labels of `suffix` are the last labels of `name`, up to ASCII case. -/
def LabelSuffix (suffix name : Bytes) : Prop :=
  (labels suffix).map lowercase <:+ (labels name).map lowercase

/-- The labels of `suffix` are the last labels of `name`, and not all of them. -/
def ProperLabelSuffix (suffix name : Bytes) : Prop :=
  LabelSuffix suffix name ∧ (labels suffix).map lowercase ≠ (labels name).map lowercase

theorem isLabel_of_mem_labels {name label : Bytes} {isConstraint : Bool}
    (hvalid : isValidDnsName name isConstraint = true) {part : Bytes}
    (hpart : ∀ b ∈ part, b ∈ name) (hlabel : label ∈ labels part) (hne : label ≠ []) :
    IsLabel label := by
  refine ⟨hne, fun b hb => ?_⟩
  obtain ⟨hmem, hperiod⟩ := mem_labels hlabel b hb
  exact (isValidDnsName_bytes hvalid b (hpart b hmem)).imp_right fun h => h.resolve_left hperiod

theorem suffix_iff_reverse_prefix {l l' : List Bytes} :
    l.map lowercase <:+ l'.map lowercase ↔
      l.reverse.map lowercase <+: l'.reverse.map lowercase := by
  rw [List.map_reverse, List.map_reverse, List.reverse_prefix]

theorem labels_leading (rest : Bytes) : labels (asciiPeriod :: rest) = [] :: labels rest := by
  have happend := labels_append [] rest
  rwa [List.nil_append, labels_of_not_mem List.not_mem_nil] at happend

section

variable {dnsName constraint : Bytes} (hdns : ∀ label ∈ labels dnsName, IsLabel label)
  (hconstraint : ∀ label ∈ labels constraint, IsLabel label)

include hdns hconstraint

theorem matchReversed_labels_iff :
    matchReversed (labels dnsName).reverse (labels constraint).reverse = true ↔
      LabelSuffix constraint dnsName := by
  rw [matchReversed_iff (fun label hlabel => hdns label (List.mem_reverse.mp hlabel))
    (fun label hlabel => hconstraint label (List.mem_reverse.mp hlabel)),
    ← suffix_iff_reverse_prefix]
  rfl

theorem matchReversed_labels_leading_iff :
    matchReversed (labels dnsName).reverse (labels (asciiPeriod :: constraint)).reverse = true ↔
      ProperLabelSuffix constraint dnsName := by
  rw [labels_leading, List.reverse_cons,
    matchReversed_leading_iff (fun label hlabel => hdns label (List.mem_reverse.mp hlabel))
      (fun label hlabel => hconstraint label (List.mem_reverse.mp hlabel)),
    ← suffix_iff_reverse_prefix]
  refine and_congr_right fun _ => not_congr ?_
  rw [List.map_reverse, List.map_reverse, List.reverse_inj]

end

/-- A name whose labels begin, from the right, with an empty one satisfies no
constraint but the empty one. -/
theorem relative_of_matchReversed {name : Bytes} {constraintLabels : List Bytes}
    (hne : constraintLabels ≠ [])
    (h : matchReversed (labels name).reverse constraintLabels = true) :
    name ≠ [] ∧ name.getLast? ≠ some asciiPeriod := by
  obtain ⟨label, rest, rfl⟩ := List.exists_cons_of_ne_nil hne
  refine ⟨?_, fun hlast => ?_⟩
  · rintro rfl
    exact Bool.false_ne_true h
  · obtain ⟨init, rfl⟩ := List.getLast?_eq_some_iff.mp hlast
    rw [labels_append, labels_of_not_mem List.not_mem_nil, List.reverse_append] at h
    exact Bool.false_ne_true h

/-- The comparison is the suffix relation on labels: a constraint matches the
names that end in its labels, a constraint with a leading period those that have
a label more, and the empty one every name. -/
theorem dns_name_matches_constraint_iff (dnsName constraint : Bytes) :
    dnsNameMatchesConstraint dnsName constraint = true ↔
      isValidDnsName dnsName false = true ∧ isValidDnsName constraint true = true ∧
      (constraint = [] ∨
        dnsName ≠ [] ∧ dnsName.getLast? ≠ some asciiPeriod ∧
        ((stripTrailingPeriod constraint).head? ≠ some asciiPeriod ∧
            LabelSuffix (stripTrailingPeriod constraint) dnsName ∨
          ∃ suffix, stripTrailingPeriod constraint = asciiPeriod :: suffix ∧
            ProperLabelSuffix suffix dnsName)) := by
  rw [dnsNameMatchesConstraint_iff]
  refine and_congr_right fun hname => and_congr_right fun hconstraint => ?_
  by_cases hempty : constraint = []
  · simp [hempty]
  simp only [hempty, false_or]
  by_cases hrelative : dnsName ≠ [] ∧ dnsName.getLast? ≠ some asciiPeriod
  swap
  · refine ⟨fun h => absurd (relative_of_matchReversed ?_ h) hrelative, fun h => ?_⟩
    · exact List.reverse_ne_nil_iff.mpr (labels_ne_nil _)
    · exact absurd ⟨h.1, h.2.1⟩ hrelative
  simp only [hrelative.1, hrelative.2, not_false_eq_true, true_and, ne_eq]
  have hdns : ∀ label ∈ labels dnsName, IsLabel label := by
    intro label hlabel
    have hlabels := labels_cases_of_valid hrelative.1 hname
    simp only [Bool.false_eq_true, false_and, or_false,
      stripTrailingPeriod_eq_self hrelative.2] at hlabels
    exact isLabel_of_mem_labels hname (fun b hb => hb) hlabel (hlabels label hlabel)
  have hbytes (b : UInt8) (hb : b ∈ stripTrailingPeriod constraint) : b ∈ constraint :=
    mem_of_mem_stripTrailingPeriod hb
  rcases labels_cases_of_valid hempty hconstraint with hlabels | ⟨-, rest, hrest, hlabels⟩
  · have hleading (suffix : Bytes) : stripTrailingPeriod constraint ≠ asciiPeriod :: suffix := by
      intro heq
      exact hlabels [] (by simp [heq, labels_leading]) rfl
    have hhead : (stripTrailingPeriod constraint).head? ≠ some asciiPeriod := by
      intro hhead
      obtain ⟨rest, heq⟩ := List.head?_eq_some_iff.mp hhead
      exact hleading rest heq
    rw [matchReversed_labels_iff hdns fun label hlabel =>
      isLabel_of_mem_labels hconstraint hbytes hlabel (hlabels label hlabel)]
    simp only [hleading, false_and, exists_false, or_false, hhead, not_false_eq_true, true_and]
  · have hmem (b : UInt8) (hb : b ∈ rest) : b ∈ constraint :=
      hbytes b (by rw [hrest]; exact List.mem_cons_of_mem _ hb)
    rw [hrest, matchReversed_labels_leading_iff hdns fun label hlabel =>
      isLabel_of_mem_labels hconstraint hmem hlabel (hlabels label hlabel)]
    simp only [List.head?_cons, not_true_eq_false, false_and, false_or, List.cons.injEq, true_and,
      exists_eq_left']

end X509Validator
