import X509Validator.Rfc5280.DnsNames

/-!
# The grammar of DNS names

`is_valid_dns_name` takes one label after the other from the left and decides
from what is left whether a label is the last one. The count of labels serves
two rules: an empty label may only be the first one of a constraint, and a
wildcard needs two labels after it. This module gives the names it accepts by a
grammar:

* a lead: nothing, `*.` before at least two labels, or the period of a
  constraint;
* one or more labels with periods between them, the last of them not a number;
* a trail: nothing or a period.

Results:
1. `labelIsValid_iff`: what one label has to meet.
2. `scanLabels_iff`: the loop accepts labels with periods between them and a
   trail, and counts them.
3. `is_valid_dns_name_iff`: the function as a whole.
-/

namespace X509Validator

open Ascii

/-! ## 1. Labels -/

/-- 1 to 63 letters, digits, `-` and `_`, without `-` at either end. -/
structure WellFormedLabel (label : Bytes) : Prop where
  length_pos : 1 ≤ label.length
  length_le : label.length ≤ 63
  byte : ∀ b ∈ label, isAsciiAlphabetic b = true ∨ isAsciiDigit b = true ∨ b = asciiHyphen ∨
    b = asciiUnderscore
  head : label.head? ≠ some asciiHyphen
  last : label.getLast? ≠ some asciiHyphen

/-- The label is not a number. -/
def HasNonDigit (label : Bytes) : Prop := ∃ b ∈ label, isAsciiDigit b = false

theorem isLabelByte_iff {b : UInt8} :
    isLabelByte b = true ↔ isAsciiAlphabetic b = true ∨ isAsciiDigit b = true ∨ b = asciiHyphen ∨
      b = asciiUnderscore := by
  simp only [isLabelByte, isNonNumeric, Bool.or_eq_true, beq_iff_eq]
  tauto

/-- The checks of one label, wherever an empty label is not allowed. -/
theorem labelIsValid_iff {isConstraint : Bool} {labelCount : Nat} {label rest : Bytes}
    (h : isConstraint = false ∨ labelCount ≠ 1 ∨ label ≠ []) :
    labelIsValid isConstraint labelCount label rest = true ↔
      WellFormedLabel label ∧ (rest = [] → HasNonDigit label) := by
  rw [labelIsValid_eq_true]
  constructor
  · rintro ⟨hempty, hhead, hlast, hlength, hbytes, hnumber⟩
    have hne : label ≠ [] := by
      intro hnil
      obtain ⟨hfirst, hconstraint⟩ := hempty hnil
      rcases h with h | h | h
      · exact Bool.false_ne_true (h.symm.trans hconstraint)
      · exact h hfirst
      · exact h hnil
    refine ⟨{
      length_pos := List.length_pos_of_ne_nil hne
      length_le := hlength
      byte := fun b hb => isLabelByte_iff.mp (hbytes b hb)
      head := hhead
      last := hlast }, ?_⟩
    intro hrest
    obtain ⟨b, hb, hnonNumeric⟩ := hnumber hrest
    exact ⟨b, hb, (isNonNumeric_iff.mp hnonNumeric).2⟩
  · rintro ⟨hlabel, hnumber⟩
    have hbytes : ∀ b ∈ label, isLabelByte b = true :=
      fun b hb => isLabelByte_iff.mpr (hlabel.byte b hb)
    refine ⟨?_, hlabel.head, hlabel.last, hlabel.length_le, hbytes, ?_⟩
    · intro hnil
      exact absurd hnil (List.ne_nil_of_length_pos hlabel.length_pos)
    · intro hrest
      obtain ⟨b, hb, hdigit⟩ := hnumber hrest
      exact ⟨b, hb, isNonNumeric_iff.mpr ⟨hbytes b hb, hdigit⟩⟩

/-! ## 2. The loop -/

/-- One or more labels, of which the last is not a number. -/
structure WellFormedLabels (labels : List Bytes) : Prop where
  label : ∀ label ∈ labels, WellFormedLabel label
  last : ∃ label, labels.getLast? = some label ∧ HasNonDigit label

theorem WellFormedLabel.not_mem_period {label : Bytes} (h : WellFormedLabel label) :
    asciiPeriod ∉ label :=
  fun hmem => absurd (h.byte _ hmem) (by decide)

theorem WellFormedLabel.ne_nil {label : Bytes} (h : WellFormedLabel label) : label ≠ [] :=
  List.ne_nil_of_length_pos h.length_pos

theorem wellFormedLabels_singleton {label : Bytes} :
    WellFormedLabels [label] ↔ WellFormedLabel label ∧ HasNonDigit label := by
  constructor
  · rintro ⟨hlabel, label', hlast, hdigit⟩
    cases hlast
    exact ⟨hlabel label List.mem_cons_self, hdigit⟩
  · rintro ⟨hlabel, hdigit⟩
    exact ⟨List.forall_mem_singleton.mpr hlabel, label, rfl, hdigit⟩

theorem wellFormedLabels_cons_cons {label next : Bytes} {labels : List Bytes} :
    WellFormedLabels (label :: next :: labels) ↔
      WellFormedLabel label ∧ WellFormedLabels (next :: labels) := by
  constructor
  · rintro ⟨hlabels, hlast⟩
    rw [List.forall_mem_cons] at hlabels
    exact ⟨hlabels.1, hlabels.2, hlast⟩
  · rintro ⟨hlabel, hlabels⟩
    exact ⟨List.forall_mem_cons.mpr ⟨hlabel, hlabels.label⟩, hlabels.last⟩

/-- The labels with periods between them, and the trail. -/
def joinLabels (labels : List Bytes) (trail : Bytes) : Bytes :=
  [asciiPeriod].intercalate labels ++ trail

theorem joinLabels_singleton (label trail : Bytes) : joinLabels [label] trail = label ++ trail := by
  rw [joinLabels, List.intercalate_singleton]

theorem joinLabels_cons_cons (label next : Bytes) (labels : List Bytes) (trail : Bytes) :
    joinLabels (label :: next :: labels) trail =
      label ++ asciiPeriod :: joinLabels (next :: labels) trail := by
  rw [joinLabels, List.intercalate_cons_cons, joinLabels]
  simp

theorem WellFormedLabels.joinLabels_ne_nil {labels : List Bytes} (h : WellFormedLabels labels)
    (trail : Bytes) : joinLabels labels trail ≠ [] := by
  match labels, h with
  | [], h =>
    obtain ⟨_, hlast, -⟩ := h.last
    cases hlast
  | [label], h =>
    rw [joinLabels_singleton]
    exact List.append_ne_nil_of_left_ne_nil (h.label label List.mem_cons_self).ne_nil _
  | label :: next :: labels, _ =>
    rw [joinLabels_cons_cons]
    simp

/-- A step of the loop on a name that is not empty. -/
theorem scanLabels_cons {isConstraint : Bool} {name : Bytes} {labelCount : Nat} (hne : name ≠ []) :
    scanLabels isConstraint name labelCount =
      if labelIsValid isConstraint (labelCount + 1) (nextLabel name).1 (nextLabel name).2 then
        scanLabels isConstraint (nextLabel name).2 (labelCount + 1)
      else none := by
  rw [scanLabels, dif_neg hne]

theorem scanLabels_nil (isConstraint : Bool) (labelCount : Nat) :
    scanLabels isConstraint [] labelCount = some labelCount := by
  rw [scanLabels, dif_pos rfl]

/-- The first label is not empty where the name does not begin with a period. -/
theorem nextLabel_ne_nil {name : Bytes} (hne : name ≠ []) (h : name.head? ≠ some asciiPeriod) :
    (nextLabel name).1 ≠ [] := by
  intro hlabel
  rcases (nextLabel_spec name).2 with hname | ⟨hname, -⟩
  · rw [hname, hlabel] at h
    exact h rfl
  · exact hne (hname.trans hlabel)

theorem exists_labels_of_scanLabels {isConstraint : Bool} {name : Bytes} {labelCount m : Nat}
    (hne : name ≠ [])
    (hfirst : isConstraint = false ∨ labelCount ≠ 0 ∨ name.head? ≠ some asciiPeriod)
    (h : scanLabels isConstraint name labelCount = some m) :
    ∃ labels trail, name = joinLabels labels trail ∧ WellFormedLabels labels ∧
      (trail = [] ∨ trail = [asciiPeriod]) ∧ m = labelCount + labels.length := by
  fun_induction scanLabels isConstraint name labelCount with
  | case1 labelCount => exact absurd rfl hne
  | case3 name labelCount _ hinvalid => cases h
  | case2 name labelCount _ hvalid ih =>
    have hname := (nextLabel_spec name).2
    have hlabel : isConstraint = false ∨ labelCount + 1 ≠ 1 ∨ (nextLabel name).1 ≠ [] :=
      hfirst.imp_right (.imp (by omega) (nextLabel_ne_nil hne))
    obtain ⟨hwellFormed, hlast⟩ := (labelIsValid_iff hlabel).mp hvalid
    generalize (nextLabel name).1 = label at *
    generalize (nextLabel name).2 = rest at *
    by_cases hrest : rest = []
    · subst hrest
      rw [scanLabels_nil, Option.some.injEq] at h
      have hlabels := wellFormedLabels_singleton.mpr ⟨hwellFormed, hlast rfl⟩
      rcases hname with rfl | ⟨rfl, -⟩
      · exact ⟨[label], [asciiPeriod], (joinLabels_singleton ..).symm, hlabels, .inr rfl, h.symm⟩
      · exact ⟨[name], [], by rw [joinLabels_singleton, List.append_nil], hlabels, .inl rfl, h.symm⟩
    · obtain rfl := hname.resolve_right fun h => hrest h.2
      obtain ⟨labels, trail, rfl, hlabels, htrail, rfl⟩ :=
        ih hrest (.inr (.inl (Nat.succ_ne_zero _))) h
      cases labels with
      | nil =>
        obtain ⟨_, hlast, -⟩ := hlabels.last
        cases hlast
      | cons next labels =>
        refine ⟨label :: next :: labels, trail, (joinLabels_cons_cons ..).symm,
          wellFormedLabels_cons_cons.mpr ⟨hwellFormed, hlabels⟩, htrail, ?_⟩
        simp only [List.length_cons]
        omega

theorem scanLabels_joinLabels {isConstraint : Bool} {labels : List Bytes} {trail : Bytes}
    (hlabels : WellFormedLabels labels) (htrail : trail = [] ∨ trail = [asciiPeriod])
    (labelCount : Nat) :
    scanLabels isConstraint (joinLabels labels trail) labelCount =
      some (labelCount + labels.length) := by
  induction labels generalizing labelCount with
  | nil =>
    obtain ⟨_, hlast, -⟩ := hlabels.last
    cases hlast
  | cons label labels ih =>
    have hlabel := hlabels.label label List.mem_cons_self
    rw [scanLabels_cons (hlabels.joinLabels_ne_nil trail)]
    cases labels with
    | nil =>
      have hnext : nextLabel (label ++ trail) = (label, []) := by
        rcases htrail with rfl | rfl
        · exact nextLabel_append_of_head hlabel.not_mem_period (by simp)
        · exact nextLabel_append hlabel.not_mem_period []
      rw [joinLabels_singleton, hnext, scanLabels_nil]
      refine if_pos ((labelIsValid_iff (.inr (.inr hlabel.ne_nil))).mpr ⟨hlabel, fun _ => ?_⟩)
      exact (wellFormedLabels_singleton.mp hlabels).2
    | cons next labels =>
      have hrest := (wellFormedLabels_cons_cons.mp hlabels).2
      have hne := hrest.joinLabels_ne_nil trail
      rw [joinLabels_cons_cons, nextLabel_append hlabel.not_mem_period, ih hrest]
      rw [if_pos ((labelIsValid_iff (.inr (.inr hlabel.ne_nil))).mpr
        ⟨hlabel, fun hnil => absurd hnil hne⟩)]
      simp only [List.length_cons]
      congr 1
      omega

/-- The loop accepts the well-formed labels with a trail and counts them,
wherever the first label must not be empty. -/
theorem scanLabels_iff {isConstraint : Bool} {name : Bytes} {labelCount m : Nat}
    (hne : name ≠ [])
    (hfirst : isConstraint = false ∨ labelCount ≠ 0 ∨ name.head? ≠ some asciiPeriod) :
    scanLabels isConstraint name labelCount = some m ↔
      ∃ labels trail, name = joinLabels labels trail ∧ WellFormedLabels labels ∧
        (trail = [] ∨ trail = [asciiPeriod]) ∧ m = labelCount + labels.length := by
  constructor
  · exact exists_labels_of_scanLabels hne hfirst
  · rintro ⟨labels, trail, rfl, hlabels, htrail, rfl⟩
    exact scanLabels_joinLabels hlabels htrail labelCount

/-! ## 3. Valid names -/

/-- What may stand before the labels. -/
inductive IsLead (isConstraint : Bool) (labels : List Bytes) : Bytes → Prop
  | none : IsLead isConstraint labels []
  | wildcard : 2 ≤ labels.length → IsLead isConstraint labels [asciiAsterisk, asciiPeriod]
  | period : isConstraint = true → IsLead isConstraint labels [asciiPeriod]

/-- A lead, labels and a trail. -/
def IsDnsName (isConstraint : Bool) (name : Bytes) : Prop :=
  ∃ lead labels trail, name = lead ++ ([asciiPeriod].intercalate labels ++ trail) ∧
    WellFormedLabels labels ∧ IsLead isConstraint labels lead ∧
    (trail = [] ∨ trail = [asciiPeriod])

/-- The labels do not begin with what leads other names. -/
theorem WellFormedLabels.head? {labels : List Bytes} (h : WellFormedLabels labels) (trail : Bytes) :
    (joinLabels labels trail).head? ≠ some asciiAsterisk ∧
      (joinLabels labels trail).head? ≠ some asciiPeriod := by
  match labels, h with
  | [], h =>
    obtain ⟨_, hlast, -⟩ := h.last
    cases hlast
  | label :: labels, h =>
    have hlabel := h.label label List.mem_cons_self
    obtain ⟨b, rest, rfl⟩ := List.exists_cons_of_ne_nil hlabel.ne_nil
    have hbyte := hlabel.byte b List.mem_cons_self
    have hhead : (joinLabels ((b :: rest) :: labels) trail).head? = some b := by
      cases labels with
      | nil => rw [joinLabels_singleton, List.cons_append, List.head?_cons]
      | cons next labels => rw [joinLabels_cons_cons, List.cons_append, List.head?_cons]
    rw [hhead]
    constructor
    · rintro heq
      cases heq
      exact absurd hbyte (by decide)
    · rintro heq
      cases heq
      exact absurd hbyte (by decide)

/-- The empty label before the period of a constraint. -/
theorem scanLabels_leading {rest : Bytes} {m : Nat} :
    scanLabels true (asciiPeriod :: rest) 0 = some m ↔
      rest ≠ [] ∧ scanLabels true rest 1 = some m := by
  have hvalid : labelIsValid true 1 [] rest = !rest.isEmpty := by
    simp [labelIsValid, labelContents, labelContentsFrom]
  rw [scanLabels_cons (List.cons_ne_nil _ _), nextLabel_period, hvalid]
  cases rest with
  | nil => simp
  | cons b rest => simp

/-- What the loop accepts from the start: the labels of a name, after a period if
it is a constraint. -/
theorem exists_scanLabels_iff {isConstraint : Bool} {name : Bytes} (hne : name ≠ []) :
    (∃ m, scanLabels isConstraint name 0 = some m) ↔
      ∃ lead labels trail, name = lead ++ joinLabels labels trail ∧ WellFormedLabels labels ∧
        (lead = [] ∨ isConstraint = true ∧ lead = [asciiPeriod]) ∧
        (trail = [] ∨ trail = [asciiPeriod]) := by
  constructor
  · rintro ⟨m, hscan⟩
    by_cases hlead : isConstraint = true ∧ name.head? = some asciiPeriod
    · obtain ⟨rfl, hhead⟩ := hlead
      obtain ⟨rest, rfl⟩ := List.head?_eq_some_iff.mp hhead
      obtain ⟨hrest, hscan⟩ := scanLabels_leading.mp hscan
      obtain ⟨labels, trail, rfl, hlabels, htrail, -⟩ :=
        (scanLabels_iff hrest (.inr (.inl Nat.one_ne_zero))).mp hscan
      exact ⟨[asciiPeriod], labels, trail, rfl, hlabels, .inr ⟨rfl, rfl⟩, htrail⟩
    · have hfirst : isConstraint = false ∨ 0 ≠ 0 ∨ name.head? ≠ some asciiPeriod := by
        rw [not_and_or, Bool.not_eq_true] at hlead
        exact hlead.imp_right .inr
      obtain ⟨labels, trail, rfl, hlabels, htrail, -⟩ := (scanLabels_iff hne hfirst).mp hscan
      exact ⟨[], labels, trail, rfl, hlabels, .inl rfl, htrail⟩
  · rintro ⟨lead, labels, trail, rfl, hlabels, rfl | ⟨rfl, rfl⟩, htrail⟩
    · exact ⟨_, scanLabels_joinLabels hlabels htrail 0⟩
    · exact ⟨_, scanLabels_leading.mpr
        ⟨hlabels.joinLabels_ne_nil trail, scanLabels_joinLabels hlabels htrail 1⟩⟩

/-- The names that are valid are the empty one and those of the grammar, up to
253 bytes. -/
theorem is_valid_dns_name_iff (name : Bytes) (isConstraint : Bool) :
    isValidDnsName name isConstraint = true ↔
      name.length ≤ 253 ∧ (name = [] ∨ IsDnsName isConstraint name) := by
  rw [isValidDnsName_iff_scanLabels]
  refine and_congr_right fun _ => ?_
  constructor
  · rintro (⟨rest, m, rfl, hscan, hcount⟩ | ⟨-, hscan⟩)
    · have hrest : rest ≠ [] := by
        rintro rfl
        rw [scanLabels_nil, Option.some.injEq] at hscan
        omega
      obtain ⟨labels, trail, rfl, hlabels, htrail, rfl⟩ :=
        (scanLabels_iff hrest (.inr (.inl Nat.one_ne_zero))).mp hscan
      exact .inr ⟨[asciiAsterisk, asciiPeriod], labels, trail, rfl, hlabels,
        .wildcard (by omega), htrail⟩
    · by_cases hne : name = []
      · exact .inl hne
      · obtain ⟨lead, labels, trail, hname, hlabels, hlead, htrail⟩ :=
          (exists_scanLabels_iff hne).mp hscan
        refine .inr ⟨lead, labels, trail, hname, hlabels, ?_, htrail⟩
        rcases hlead with rfl | ⟨hconstraint, rfl⟩
        · exact .none
        · exact .period hconstraint
  · rintro (rfl | ⟨lead, labels, trail, hname, hlabels, hlead, htrail⟩)
    · exact .inr ⟨by simp, 0, scanLabels_nil _ _⟩
    · have hne : name ≠ [] := by
        rw [hname]
        exact List.append_ne_nil_of_right_ne_nil _ (hlabels.joinLabels_ne_nil trail)
      cases hlead with
      | none =>
        refine .inr ⟨hname ▸ (hlabels.head? trail).1, (exists_scanLabels_iff hne).mpr ?_⟩
        exact ⟨[], labels, trail, hname, hlabels, .inl rfl, htrail⟩
      | wildcard hlength =>
        refine .inl ⟨_, _, hname, scanLabels_joinLabels hlabels htrail 1, ?_⟩
        omega
      | period hconstraint =>
        have hhead : name.head? ≠ some asciiAsterisk := by
          rw [hname, List.singleton_append, List.head?_cons]
          decide
        refine .inr ⟨hhead, (exists_scanLabels_iff hne).mpr ?_⟩
        exact ⟨[asciiPeriod], labels, trail, hname, hlabels, .inr ⟨hconstraint, rfl⟩, htrail⟩

end X509Validator
