import X509Validator.Lib.Laminar
import X509Validator.Rfc5280.LabelSuffix
import X509Validator.Rfc5280.NameConstraints

/-!
# Nested subtrees

The names that a subtree contains, as a set. A DNS subtree contains the names that
end in its labels, a URI subtree the URIs with such a host, and an address subtree
the addresses that begin with its prefix, so two subtrees of one kind are nested or
disjoint; this includes malformed subtrees, which contain nothing. Subtrees inside
other ones are redundant, and a list of subtrees can be reduced to some of its
elements that are pairwise disjoint.

Results:
1. `inside_or_apart`: two subtrees are nested or disjoint.
2. `redundant_subtrees`: the subtrees of every certificate can be reduced to disjoint
   ones without a change to any verdict of the policy.
-/

namespace X509Validator

open Ascii Laminar

/-! ## DNS subtrees -/

/-- The names that a DNS constraint matches. -/
def dnsSubtree (constraint : Bytes) : Set Bytes :=
  {name | dnsNameMatchesConstraint name constraint = true}

/-- The labels of a name from the right, without regard to case. -/
def reversedLabels (name : Bytes) : List Bytes := ((labels name).map lowercase).reverse

theorem labelSuffix_iff {suffix name : Bytes} :
    LabelSuffix suffix name ↔ reversedLabels suffix <+: reversedLabels name := by
  rw [reversedLabels, reversedLabels, List.reverse_prefix]
  rfl

theorem properLabelSuffix_iff {suffix name : Bytes} :
    ProperLabelSuffix suffix name ↔ reversedLabels name ∈ under true (reversedLabels suffix) := by
  rw [ProperLabelSuffix, labelSuffix_iff]
  refine and_congr_right fun _ => ?_
  rw [reversedLabels, reversedLabels, Ne, Ne, List.reverse_inj, eq_self_iff_true, forall_const]

/-- The names that can be below a constraint with labels. -/
def relativeNames : Set Bytes :=
  {name | isValidDnsName name false = true ∧ name ≠ [] ∧ name.getLast? ≠ some asciiPeriod}

theorem isLabel_of_relativeNames {name : Bytes} (h : name ∈ relativeNames) :
    ∀ label ∈ labels name, IsLabel label := by
  obtain ⟨hvalid, hne, hlast⟩ := h
  intro label hlabel
  have hlabels := labels_cases_of_valid hne hvalid
  simp only [Bool.false_eq_true, false_and, or_false, stripTrailingPeriod_eq_self hlast] at hlabels
  exact isLabel_of_mem_labels hvalid (fun b hb => hb) hlabel (hlabels label hlabel)

/-- A constraint with labels contains no other names than these. -/
theorem mem_dnsSubtree_iff {constraint name : Bytes} (hne : constraint ≠ [])
    (hvalid : isValidDnsName constraint true = true) :
    name ∈ dnsSubtree constraint ↔ name ∈ relativeNames ∧
      matchReversed (labels name).reverse (labels (stripTrailingPeriod constraint)).reverse =
        true := by
  show dnsNameMatchesConstraint name constraint = true ↔ _
  rw [dnsNameMatchesConstraint_iff]
  constructor
  · rintro ⟨hname, -, hmatch⟩
    have hmatch := hmatch.resolve_left hne
    have hlabels := List.reverse_ne_nil_iff.mpr (labels_ne_nil (stripTrailingPeriod constraint))
    exact ⟨⟨hname, relative_of_matchReversed hlabels hmatch⟩, hmatch⟩
  · rintro ⟨hname, hmatch⟩
    exact ⟨hname.1, hvalid, .inr hmatch⟩

/-- A DNS subtree contains nothing, all names, or the names below some labels. -/
theorem dnsSubtree_cases (constraint : Bytes) :
    dnsSubtree constraint = ∅ ∨ dnsSubtree constraint = {name | isValidDnsName name false = true} ∨
      ∃ strict below, dnsSubtree constraint =
        relativeNames ∩ Set.preimage reversedLabels (under strict below) := by
  cases hvalid : isValidDnsName constraint true with
  | false =>
    refine .inl (Set.eq_empty_iff_forall_notMem.mpr fun name hname => ?_)
    have hconstraint := (dnsNameMatchesConstraint_iff.mp hname).2.1
    rw [hvalid] at hconstraint
    cases hconstraint
  | true =>
    by_cases hempty : constraint = []
    · refine .inr (.inl (Set.ext fun name => ?_))
      show dnsNameMatchesConstraint name constraint = true ↔ _
      rw [dnsNameMatchesConstraint_iff]
      exact ⟨fun h => h.1, fun h => ⟨h, hvalid, .inl hempty⟩⟩
    · have hbytes (b : UInt8) (hb : b ∈ stripTrailingPeriod constraint) : b ∈ constraint :=
        mem_of_mem_stripTrailingPeriod hb
      refine .inr (.inr ?_)
      rcases labels_cases_of_valid hempty hvalid with hlabels | ⟨-, suffix, hsuffix, hlabels⟩
      · refine ⟨false, reversedLabels (stripTrailingPeriod constraint), Set.ext fun name => ?_⟩
        rw [mem_dnsSubtree_iff hempty hvalid]
        refine and_congr_right fun hname => ?_
        rw [matchReversed_labels_iff (isLabel_of_relativeNames hname) fun label hlabel =>
          isLabel_of_mem_labels hvalid hbytes hlabel (hlabels label hlabel), labelSuffix_iff]
        exact (and_iff_left fun hstrict => nomatch hstrict).symm
      · have hmem (b : UInt8) (hb : b ∈ suffix) : b ∈ constraint :=
          hbytes b (hsuffix ▸ List.mem_cons_of_mem _ hb)
        refine ⟨true, reversedLabels suffix, Set.ext fun name => ?_⟩
        rw [mem_dnsSubtree_iff hempty hvalid, hsuffix]
        refine and_congr_right fun hname => ?_
        rw [matchReversed_labels_leading_iff (isLabel_of_relativeNames hname) fun label hlabel =>
          isLabel_of_mem_labels hvalid hmem hlabel (hlabels label hlabel), properLabelSuffix_iff]
        rfl

theorem nestedOrDisjoint_dnsSubtree (constraint constraint' : Bytes) :
    NestedOrDisjoint (dnsSubtree constraint) (dnsSubtree constraint') := by
  have hvalid : ∀ c, dnsSubtree c ⊆ {name | isValidDnsName name false = true} :=
    fun c name hname => (dnsNameMatchesConstraint_iff.mp hname).1
  rcases dnsSubtree_cases constraint with h | h | ⟨strict, below, h⟩
  · rw [h]
    exact .inl (Set.empty_subset _)
  · rw [h]
    exact .inr (.inl (hvalid constraint'))
  · rcases dnsSubtree_cases constraint' with h' | h' | ⟨strict', below', h'⟩
    · rw [h']
      exact .inr (.inl (Set.empty_subset _))
    · rw [h']
      exact .inl (hvalid constraint)
    · rw [h, h']
      exact ((nestedOrDisjoint_under strict strict' below below').preimage _).inter _

/-! ## URI and address subtrees -/

/-- The names that a URI constraint matches. -/
def uriSubtree (constraint : Bytes) : Set Bytes :=
  {name | uriNameMatchesConstraint name constraint = true}

theorem uriSubtree_eq (constraint : Bytes) :
    uriSubtree constraint = bindPreimage extractHost (dnsSubtree constraint) :=
  Set.ext fun _ => uriNameMatchesConstraint_iff

theorem nestedOrDisjoint_uriSubtree (constraint constraint' : Bytes) :
    NestedOrDisjoint (uriSubtree constraint) (uriSubtree constraint') := by
  rw [uriSubtree_eq, uriSubtree_eq]
  exact (nestedOrDisjoint_dnsSubtree constraint constraint').bindPreimage extractHost

/-- The names that an address constraint matches. -/
def ipSubtree (constraint : Bytes) : Set Bytes :=
  {name | ipAddressMatchesConstraint name constraint = true}

theorem IsPrefixMask.unique {mask : Bytes} {k k' : Nat} (h : IsPrefixMask mask k)
    (h' : IsPrefixMask mask k') : k = k' := by
  have hones := congrArg (List.count true) (h.2.symm.trans h'.2)
  simpa [List.count_replicate] using hones

theorem sharesPrefix_iff {address base : Bytes} {k : Nat} (hk : k ≤ 8 * base.length) :
    SharesPrefix address base k ↔
      Bits.ofBytes address ∈ under false ((Bits.ofBytes base).take k) := by
  have hlength : ((Bits.ofBytes base).take k).length = k := by
    rw [List.length_take, Bits.length_ofBytes, Nat.min_eq_left hk]
  have hbegins : (Bits.ofBytes base).take k <+: Bits.ofBytes address ↔
      SharesPrefix address base k := by
    rw [List.prefix_iff_eq_take, hlength]
    exact eq_comm
  exact hbegins.symm.trans (and_iff_left fun hstrict => nomatch hstrict).symm

/-- An address subtree contains nothing, or the addresses of one family that begin
with some bits. -/
theorem ipSubtree_cases (constraint : Bytes) :
    ipSubtree constraint = ∅ ∨ ∃ length below, ipSubtree constraint =
      {address | address.length = length} ∩ Set.preimage Bits.ofBytes (under false below) := by
  by_cases hmask : ∃ length k, (constraint.length = 2 * length ∧ (length = 4 ∨ length = 16)) ∧
      IsPrefixMask (constraint.drop length) k
  · obtain ⟨length, k, ⟨hlength, hfamily⟩, hk⟩ := hmask
    refine .inr ⟨length, (Bits.ofBytes (constraint.take length)).take k, Set.ext fun address => ?_⟩
    have hbase : k ≤ 8 * (constraint.take length).length := by
      have hbound := hk.1
      rw [List.length_drop] at hbound
      rw [List.length_take]
      omega
    show ipAddressMatchesConstraint address constraint = true ↔ _
    rw [ipAddressMatchesConstraint_eq]
    constructor
    · rintro ⟨hsame, hsubnet⟩
      have haddress : address.length = length := by
        rcases hsame with ⟨h, h'⟩ | ⟨h, h'⟩ <;> omega
      obtain ⟨k', hk', hshares⟩ := (addressIsInSubnet_iff (by omega)).mp hsubnet
      rw [haddress] at hk' hshares
      rw [hk'.unique hk] at hshares
      exact ⟨haddress, (sharesPrefix_iff hbase).mp hshares⟩
    · rintro ⟨rfl, hshares⟩
      refine ⟨?_, (addressIsInSubnet_iff hlength).mpr
        ⟨k, hk, (sharesPrefix_iff hbase).mpr hshares⟩⟩
      unfold SameFamily
      omega
  · refine .inl (Set.eq_empty_iff_forall_notMem.mpr fun address haddress => hmask ?_)
    obtain ⟨hsame, hsubnet⟩ := (ipAddressMatchesConstraint_eq address constraint).mp haddress
    have hlength : constraint.length = 2 * address.length := by
      rcases hsame with ⟨h, h'⟩ | ⟨h, h'⟩ <;> omega
    obtain ⟨k, hk, -⟩ := (addressIsInSubnet_iff hlength).mp hsubnet
    exact ⟨address.length, k, ⟨hlength, hsame.imp And.left And.left⟩, hk⟩

theorem nestedOrDisjoint_ipSubtree (constraint constraint' : Bytes) :
    NestedOrDisjoint (ipSubtree constraint) (ipSubtree constraint') := by
  rcases ipSubtree_cases constraint with h | ⟨length, below, h⟩
  · rw [h]
    exact .inl (Set.empty_subset _)
  rcases ipSubtree_cases constraint' with h' | ⟨length', below', h'⟩
  · rw [h']
    exact .inr (.inl (Set.empty_subset _))
  rw [h, h']
  by_cases hlength : length = length'
  · subst hlength
    exact ((nestedOrDisjoint_under false false below below').preimage _).inter _
  · refine .inr (.inr (Set.disjoint_left.mpr ?_))
    rintro address ⟨haddress, -⟩ ⟨haddress', -⟩
    exact hlength (haddress.symm.trans haddress')

/-! ## 1. Subtrees -/

/-- A subtree that is inside another one of its kind. -/
def Inside (base base' : GeneralName) : Prop :=
  base = base' ∨ SameKind base base' ∧ ∀ name, NameMatches name base → NameMatches name base'

/-- No name is in both subtrees. -/
def Apart (base base' : GeneralName) : Prop :=
  ∀ name, NameMatches name base → ¬ NameMatches name base'

theorem SameKind.trans {name base base' : GeneralName} (h : SameKind name base)
    (h' : SameKind base base') : SameKind name base' := by
  cases h <;> cases h' <;> constructor

theorem Inside.trans {base base' base'' : GeneralName} (h : Inside base base')
    (h' : Inside base' base'') : Inside base base'' := by
  rcases h with rfl | ⟨hkind, hsub⟩
  · exact h'
  · rcases h' with rfl | ⟨hkind', hsub'⟩
    · exact .inr ⟨hkind, hsub⟩
    · exact .inr ⟨hkind.trans hkind', fun name hname => hsub' name (hsub name hname)⟩

theorem Inside.nameMatches {name base base' : GeneralName} (h : Inside base base')
    (hname : NameMatches name base) : NameMatches name base' := by
  rcases h with rfl | ⟨-, hsub⟩
  · exact hname
  · exact hsub name hname

theorem Inside.sameKind {name base base' : GeneralName} (h : Inside base base')
    (hname : SameKind name base) : SameKind name base' := by
  rcases h with rfl | ⟨hkind, -⟩
  · exact hname
  · exact hname.trans hkind

theorem Inside.evaluable {base base' : GeneralName} (h : Inside base base')
    (hevaluable : Evaluable base') : Evaluable base := by
  rcases h with rfl | ⟨hkind, -⟩
  · exact hevaluable
  · cases hkind <;> constructor

/-- Constraints of one kind are nested or disjoint where their subtrees are. -/
theorem inside_or_apart_of_kind {kind : Bytes → GeneralName} {subtree : Bytes → Set Bytes}
    (hkind : ∀ a b, SameKind (kind a) (kind b))
    (hmatches : ∀ name constraint, NameMatches name (kind constraint) ↔
      ∃ value ∈ subtree constraint, name = kind value)
    (hinjective : Function.Injective kind) {constraint constraint' : Bytes}
    (h : NestedOrDisjoint (subtree constraint) (subtree constraint')) :
    Inside (kind constraint) (kind constraint') ∨ Inside (kind constraint') (kind constraint) ∨
      Apart (kind constraint) (kind constraint') := by
  have hinside : ∀ {a b : Bytes}, subtree a ⊆ subtree b → Inside (kind a) (kind b) := by
    intro a b hsub
    refine .inr ⟨hkind a b, fun name hname => ?_⟩
    obtain ⟨value, hvalue, heq⟩ := (hmatches name a).mp hname
    exact (hmatches name b).mpr ⟨value, hsub hvalue, heq⟩
  rcases h with h | h | h
  · exact .inl (hinside h)
  · exact .inr (.inl (hinside h))
  · refine .inr (.inr fun name hname hname' => ?_)
    obtain ⟨value, hvalue, heq⟩ := (hmatches name constraint).mp hname
    obtain ⟨value', hvalue', heq'⟩ := (hmatches name constraint').mp hname'
    obtain rfl : value = value' := hinjective (heq.symm.trans heq')
    exact Set.disjoint_left.mp h hvalue hvalue'

theorem apart_of_not_sameKind {base base' : GeneralName} (h : ¬ SameKind base base') :
    Apart base base' := by
  intro name hname hname'
  refine h ?_
  cases hname <;> cases hname' <;> constructor

theorem inside_or_apart (base base' : GeneralName) :
    Inside base base' ∨ Inside base' base ∨ Apart base base' := by
  by_cases hkind : SameKind base base'
  · cases hkind with
    | dnsName =>
      refine inside_or_apart_of_kind (fun _ _ => .dnsName) (fun name constraint => ?_)
        (fun _ _ => GeneralName.dnsName.inj) (nestedOrDisjoint_dnsSubtree _ _)
      constructor
      · intro hname
        cases hname with
        | dnsName hmatch => exact ⟨_, hmatch, rfl⟩
      · rintro ⟨value, hmatch, rfl⟩
        exact .dnsName hmatch
    | ipAddress =>
      refine inside_or_apart_of_kind (fun _ _ => .ipAddress) (fun name constraint => ?_)
        (fun _ _ => GeneralName.ipAddress.inj) (nestedOrDisjoint_ipSubtree _ _)
      constructor
      · intro hname
        cases hname with
        | ipAddress hmatch => exact ⟨_, hmatch, rfl⟩
      · rintro ⟨value, hmatch, rfl⟩
        exact .ipAddress hmatch
    | uri =>
      refine inside_or_apart_of_kind (fun _ _ => .uri) (fun name constraint => ?_)
        (fun _ _ => GeneralName.uri.inj) (nestedOrDisjoint_uriSubtree _ _)
      constructor
      · intro hname
        cases hname with
        | uri hmatch => exact ⟨_, hmatch, rfl⟩
      · rintro ⟨value, hmatch, rfl⟩
        exact .uri hmatch
  · exact .inr (.inr (apart_of_not_sameKind hkind))

/-! ## 2. Redundant subtrees -/

/-- `reduced` keeps some of the subtrees, which are pairwise disjoint. -/
structure Reduces (reduced constraints : NameConstraints) : Prop where
  permitted : reduced.permitted.Sublist constraints.permitted
  excluded : reduced.excluded.Sublist constraints.excluded
  permittedApart : reduced.permitted.Pairwise Apart
  excludedApart : reduced.excluded.Pairwise Apart

/-- Every subtree is inside one that is kept. -/
structure Covers (reduced constraints : NameConstraints) : Prop where
  permitted : ∀ base ∈ constraints.permitted, ∃ base' ∈ reduced.permitted, Inside base base'
  excluded : ∀ base ∈ constraints.excluded, ∃ base' ∈ reduced.excluded, Inside base base'

theorem exists_reduced_subtrees (subtrees : Option (List GeneralSubtree)) :
    ∃ reduced : Option (List GeneralSubtree),
      ((reduced.getD []).map GeneralSubtree.base).Sublist
        ((subtrees.getD []).map GeneralSubtree.base) ∧
      ((reduced.getD []).map GeneralSubtree.base).Pairwise Apart ∧
      ∀ base ∈ (subtrees.getD []).map GeneralSubtree.base,
        ∃ base' ∈ (reduced.getD []).map GeneralSubtree.base, Inside base base' := by
  obtain ⟨reduced, hsublist, hapart, hcovers⟩ := exists_sublist_pairwise
    (fun a b : GeneralSubtree => Inside a.base b.base) (fun a b => Apart a.base b.base)
    (fun _ => .inl rfl) (fun _ _ _ => Inside.trans) (subtrees.getD [])
    fun a _ b _ => inside_or_apart a.base b.base
  refine ⟨some reduced, hsublist.map _, List.pairwise_map.mpr hapart, ?_⟩
  rw [List.forall_mem_map]
  intro subtree hsubtree
  obtain ⟨kept, hkept, hinside⟩ := hcovers subtree hsubtree
  exact ⟨kept.base, List.mem_map_of_mem hkept, hinside⟩

theorem exists_reduced (constraints : NameConstraints) :
    ∃ reduced, Reduces reduced constraints ∧ Covers reduced constraints := by
  obtain ⟨permitted, hpermitted, hpermittedApart, hpermittedCovers⟩ :=
    exists_reduced_subtrees constraints.permittedSubtrees
  obtain ⟨excluded, hexcluded, hexcludedApart, hexcludedCovers⟩ :=
    exists_reduced_subtrees constraints.excludedSubtrees
  exact ⟨⟨permitted, excluded⟩, ⟨hpermitted, hexcluded, hpermittedApart, hexcludedApart⟩,
    ⟨hpermittedCovers, hexcludedCovers⟩⟩

theorem conforms_iff_of_covers {reduced constraints : NameConstraints}
    (hreduces : Reduces reduced constraints) (hcovers : Covers reduced constraints)
    {names : List GeneralName} : Conforms reduced names ↔ Conforms constraints names := by
  constructor
  · intro h
    constructor
    · intro base hbase
      obtain ⟨base', hbase', hinside⟩ := hcovers.permitted base hbase
      exact hinside.evaluable (h.permittedEvaluable base' hbase')
    · intro base hbase
      obtain ⟨base', hbase', hinside⟩ := hcovers.excluded base hbase
      exact hinside.evaluable (h.excludedEvaluable base' hbase')
    · intro name hname base hbase hmatch
      obtain ⟨base', hbase', hinside⟩ := hcovers.excluded base hbase
      exact h.notExcluded name hname base' hbase' (hinside.nameMatches hmatch)
    · rintro name hname ⟨base, hbase, hkind⟩
      obtain ⟨base', hbase', hinside⟩ := hcovers.permitted base hbase
      obtain ⟨kept, hkept, hmatch⟩ := h.permitted name hname ⟨base', hbase', hinside.sameKind hkind⟩
      exact ⟨kept, hreduces.permitted.subset hkept, hmatch⟩
  · intro h
    constructor
    · exact fun base hbase => h.permittedEvaluable base (hreduces.permitted.subset hbase)
    · exact fun base hbase => h.excludedEvaluable base (hreduces.excluded.subset hbase)
    · intro name hname base hbase
      exact h.notExcluded name hname base (hreduces.excluded.subset hbase)
    · rintro name hname ⟨base, hbase, hkind⟩
      obtain ⟨base', hbase', hmatch⟩ :=
        h.permitted name hname ⟨base, hreduces.permitted.subset hbase, hkind⟩
      obtain ⟨kept, hkept, hinside⟩ := hcovers.permitted base' hbase'
      exact ⟨kept, hkept, hinside.nameMatches hmatch⟩

/-- The certificate with other subtrees. -/
def Certificate.mapConstraints (f : NameConstraints → NameConstraints) (cert : Certificate) :
    Certificate :=
  { cert with nameConstraints := cert.nameConstraints.map (Option.map f) }

/-- The chain with other subtrees in each of its certificates. -/
def UnverifiedCertificateChain.mapConstraints (f : NameConstraints → NameConstraints)
    (chain : UnverifiedCertificateChain) : UnverifiedCertificateChain :=
  ⟨chain.certificates.map (Certificate.mapConstraints f), by simpa using chain.nonempty⟩

section

variable {f : NameConstraints → NameConstraints}
  (hf : ∀ constraints names, Conforms (f constraints) names ↔ Conforms constraints names)

include hf

theorem pairConforms_mapConstraints (issuer subject : Certificate) :
    PairConforms (issuer.mapConstraints f) (subject.mapConstraints f) ↔
      PairConforms issuer subject := by
  show (∃ decoded, issuer.nameConstraints.map (Option.map f) = .ok decoded ∧
    ∀ constraints, decoded = some constraints → ∃ san, subject.subjectAlternativeName = .ok san ∧
      (∀ tag value, .invalid tag value ∉ san.getD []) ∧ Conforms constraints (san.getD [])) ↔ _
  unfold PairConforms
  cases issuer.nameConstraints with
  | error error => simp [Except.map]
  | ok decoded =>
    cases decoded with
    | none => simp [Except.map]
    | some constraints => simp [Except.map, hf]

theorem accepts_mapConstraints (chain : UnverifiedCertificateChain) :
    nameConstraintsPolicy.Accepts (chain.mapConstraints f) ↔
      nameConstraintsPolicy.Accepts chain := by
  have hlen : (chain.mapConstraints f).len = chain.len := List.length_map _
  have hgoverns (j i : Nat) : Governs (chain.mapConstraints f) j i ↔ Governs chain j i := by
    unfold Governs
    rw [hlen]
  have hget (i : Nat) : (chain.mapConstraints f).certificates[i]? =
      chain.certificates[i]?.map (Certificate.mapConstraints f) := List.getElem?_map ..
  rw [nameConstraintsPolicy_accepts, nameConstraintsPolicy_accepts]
  refine forall_congr' fun j => forall_congr' fun i => imp_congr (hgoverns j i) ?_
  rw [hget, hget]
  constructor
  · intro h issuer subject hissuer hsubject
    rw [← pairConforms_mapConstraints hf]
    exact h _ _ (by rw [hissuer]; rfl) (by rw [hsubject]; rfl)
  · intro h issuer' subject' hissuer' hsubject'
    obtain ⟨issuer, hissuer, rfl⟩ := Option.map_eq_some_iff.mp hissuer'
    obtain ⟨subject, hsubject, rfl⟩ := Option.map_eq_some_iff.mp hsubject'
    rw [pairConforms_mapConstraints hf]
    exact h issuer subject hissuer hsubject

end

/-- Any two subtrees are nested or disjoint, so that of all subtrees of a
certificate it is enough to keep some that are pairwise disjoint: there is one way
to choose them that changes no verdict of `NameConstraintsPolicy` on any chain. -/
theorem redundant_subtrees :
    (∀ base base' : GeneralName, Inside base base' ∨ Inside base' base ∨ Apart base base') ∧
    ∃ reduce : NameConstraints → NameConstraints,
      (∀ constraints, Reduces (reduce constraints) constraints) ∧
      ∀ chain, nameConstraintsPolicy.Accepts (chain.mapConstraints reduce) ↔
        nameConstraintsPolicy.Accepts chain := by
  refine ⟨inside_or_apart, ?_⟩
  choose reduce hreduces hcovers using exists_reduced
  exact ⟨reduce, hreduces, accepts_mapConstraints fun constraints names =>
    conforms_iff_of_covers (hreduces constraints) (hcovers constraints)⟩

end X509Validator
