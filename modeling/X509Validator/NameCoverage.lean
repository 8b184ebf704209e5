import X509Validator.WildcardLabels
import Mathlib.Data.Set.Basic

/-!
# What a name in a certificate covers

The host names that a name in a certificate covers are those for which the
comparison succeeds. A name is analysed to a pattern: one host name, or a first
label with a gap and the labels after it. Two names cover the same host names if and
only if they have the same pattern, so that neither case nor a trailing period
matters, while any other text before or after the gap does. A name that is not
analysed covers nothing, and every other name covers something.

Results:
1. `covered_eq_iff`: names that cover the same host names.
-/

namespace X509Validator

open Ascii

/-- The host names that a name in a certificate covers. -/
def covered (name : Bytes) : Set Bytes :=
  {hostname | matchHostname (PreparedServerHostname.new hostname) name = some true}

/-! ## Patterns -/

/-- One host name, or all host names with some text in a gap of their first
label. -/
inductive NamePattern
  | single (name : Bytes)
  | wildcard (before after rest : Bytes)
deriving DecidableEq

def IsHostname (hostname : Bytes) : Prop := ∀ b ∈ hostname, isValidDnsCharacter b = true

instance (hostname : Bytes) : Decidable (IsHostname hostname) := List.decidableBAll _ _

namespace NamePattern

/-- The host names that a pattern stands for. -/
def hosts : NamePattern → Set Bytes
  | single name => {hostname | IsHostname hostname ∧ canonical hostname = name}
  | wildcard before after rest =>
    {hostname | IsHostname hostname ∧ ∃ filling, filling ≠ [] ∧
      nextLabel (canonical hostname) = (before ++ (filling ++ after), rest)}

/-- Valid bytes in lower case. -/
def IsText (text : Bytes) : Prop :=
  ∀ b ∈ text, isValidDnsCharacter b = true ∧ toAsciiLowercase b = b

instance (text : Bytes) : Decidable (IsText text) := List.decidableBAll _ _

inductive WellFormed : NamePattern → Prop
  | single {name : Bytes} : IsText name → WellFormed (single name)
  | wildcard {before after rest : Bytes} : IsText before → IsText after → IsText rest →
      asciiPeriod ∉ before → asciiPeriod ∉ after → WellFormed (wildcard before after rest)

theorem IsText.hostname {text : Bytes} (h : IsText text) : IsHostname text :=
  fun b hb => (h b hb).1

theorem IsText.lower {text : Bytes} (h : IsText text) : lowercase text = text :=
  (List.map_congr_left fun b hb => (h b hb).2).trans (List.map_id text)

theorem IsText.append {text text' : Bytes} (h : IsText text) (h' : IsText text') :
    IsText (text ++ text') :=
  List.forall_mem_append.mpr ⟨h, h'⟩

theorem isText_lowercase {text : Bytes} (h : IsHostname text) : IsText (lowercase text) := by
  have hlower : ∀ b, toAsciiLowercase (toAsciiLowercase b) = toAsciiLowercase b :=
    forall_uint8 (by decide +kernel)
  rw [IsText, lowercase, List.forall_mem_map]
  intro b hb
  exact ⟨(isValidDnsCharacter_toAsciiLowercase b).trans (h b hb), hlower b⟩

theorem isText_period : IsText [asciiPeriod] := by decide

theorem canonical_snoc_period {text : Bytes} (h : IsText text) :
    canonical (text ++ [asciiPeriod]) = text := by
  rw [canonical, stripTrailingPeriod_concat, h.lower]

/-- A host name with this first label and these other labels. -/
theorem exists_hostname {label rest : Bytes} (hlabel : IsText label) (hrest : IsText rest)
    (hperiod : asciiPeriod ∉ label) :
    ∃ hostname, IsHostname hostname ∧ nextLabel (canonical hostname) = (label, rest) := by
  have htext := hlabel.append (isText_period.append hrest)
  refine ⟨label ++ ([asciiPeriod] ++ rest) ++ [asciiPeriod], ?_, ?_⟩
  · exact (htext.append isText_period).hostname
  · rw [canonical_snoc_period htext]
    exact nextLabel_append hperiod rest

/-- A wildcard stands for host names with any one byte in the gap. -/
theorem exists_mem_hosts {before after rest : Bytes} {b : UInt8}
    (h : (wildcard before after rest).WellFormed) (htext : IsText [b]) (hb : b ≠ asciiPeriod) :
    ∃ hostname ∈ (wildcard before after rest).hosts,
      nextLabel (canonical hostname) = (before ++ b :: after, rest) := by
  cases h with
  | wildcard hbefore hafter hrest hbefore' hafter' =>
    have hperiod : asciiPeriod ∉ before ++ b :: after := by
      simpa using ⟨hbefore', hb.symm, hafter'⟩
    obtain ⟨hostname, hhostname, hnext⟩ :=
      exists_hostname (hbefore.append (htext.append hafter)) hrest hperiod
    exact ⟨hostname, ⟨hhostname, [b], List.cons_ne_nil b [], hnext⟩, hnext⟩

theorem self_mem_hosts {name : Bytes} (h : IsText name) :
    name ++ [asciiPeriod] ∈ (single name).hosts :=
  ⟨(h.append isText_period).hostname, canonical_snoc_period h⟩

theorem isText_a : IsText [97] := by decide

theorem isText_b : IsText [98] := by decide

theorem hosts_nonempty {pattern : NamePattern} (h : pattern.WellFormed) :
    pattern.hosts.Nonempty := by
  cases id h with
  | single hname => exact ⟨_, self_mem_hosts hname⟩
  | wildcard _ _ _ _ _ =>
    obtain ⟨hostname, hmem, -⟩ := exists_mem_hosts h isText_a (by decide)
    exact ⟨hostname, hmem⟩

/-- A wildcard stands for more than one host name. -/
theorem hosts_wildcard_ne_single {before after rest name : Bytes}
    (h : (wildcard before after rest).WellFormed) :
    (wildcard before after rest).hosts ≠ (single name).hosts := by
  intro heq
  obtain ⟨hostname, hmem, hnext⟩ := exists_mem_hosts h isText_a (by decide)
  obtain ⟨hostname', hmem', hnext'⟩ := exists_mem_hosts h isText_b (by decide)
  rw [heq] at hmem hmem'
  rw [hmem.2] at hnext
  rw [hmem'.2, hnext, Prod.mk.injEq, List.append_cancel_left_eq] at hnext'
  exact absurd (List.cons.inj hnext'.1).1 (by decide)

/-- A filled gap is as long as the other wildcard needs. -/
theorem length_le_of_hosts_subset {before after rest before' after' rest' : Bytes}
    (h : (wildcard before after rest).WellFormed)
    (hsubset : (wildcard before after rest).hosts ⊆ (wildcard before' after' rest').hosts) :
    before'.length + after'.length ≤ before.length + after.length := by
  obtain ⟨hostname, hmem, hnext⟩ := exists_mem_hosts h isText_a (by decide)
  obtain ⟨-, filling, hfilling, hnext'⟩ := hsubset hmem
  rw [hnext, Prod.mk.injEq] at hnext'
  have hlength := congrArg List.length hnext'.1
  have hpos := List.length_pos_of_ne_nil hfilling
  simp only [List.length_append, List.length_cons] at hlength
  omega

/-- Patterns that stand for the same host names are the same. -/
theorem hosts_injective {pattern pattern' : NamePattern} (h : pattern.WellFormed)
    (h' : pattern'.WellFormed) (heq : pattern.hosts = pattern'.hosts) : pattern = pattern' := by
  cases id h with
  | @single name hname =>
    cases id h' with
    | @single name' _ =>
      have hmem := self_mem_hosts hname
      rw [heq] at hmem
      rw [← canonical_snoc_period hname, hmem.2]
    | wildcard _ _ _ _ _ => exact absurd heq.symm (hosts_wildcard_ne_single h')
  | @wildcard before after rest _ _ _ _ _ =>
    cases id h' with
    | single _ => exact absurd heq (hosts_wildcard_ne_single h)
    | @wildcard before' after' rest' _ _ _ _ _ =>
      have hle := length_le_of_hosts_subset h heq.subset
      have hge := length_le_of_hosts_subset h' heq.symm.subset
      have hfill : ∀ b : UInt8, IsText [b] → b ≠ asciiPeriod →
          (∃ b', before ++ b :: after = before' ++ b' :: after') ∧ rest = rest' := by
        intro b htext hb
        obtain ⟨hostname, hmem, hnext⟩ := exists_mem_hosts h htext hb
        rw [heq] at hmem
        obtain ⟨-, filling, hfilling, hnext'⟩ := hmem
        rw [hnext, Prod.mk.injEq] at hnext'
        have hlength := congrArg List.length hnext'.1
        simp only [List.length_append, List.length_cons] at hlength
        obtain ⟨b', rfl⟩ := List.length_eq_one_iff.mp (show filling.length = 1 by omega)
        exact ⟨⟨b', hnext'.1⟩, hnext'.2⟩
      obtain ⟨⟨_, ha⟩, rfl⟩ := hfill 97 isText_a (by decide)
      obtain ⟨⟨_, hb⟩, -⟩ := hfill 98 isText_b (by decide)
      obtain ⟨rfl, rfl⟩ := Split.gap_unique (by decide) ha hb
      rfl

end NamePattern

/-! ## The pattern of a name -/

/-- The pattern that an analysed name stands for. -/
def AnalysedCertificateHostname.pattern : AnalysedCertificateHostname → NamePattern
  | .singleName baseName => .single (lowercase baseName)
  | .wildcard baseName _ _ =>
    let label := (nextLabel (lowercase baseName)).1
    .wildcard (label.takeWhile (· != asciiAsterisk))
      ((label.dropWhile (· != asciiAsterisk)).drop 1) (nextLabel (lowercase baseName)).2

def patternOf (name : Bytes) : Option NamePattern :=
  (AnalysedCertificateHostname.new name).map AnalysedCertificateHostname.pattern

theorem mem_covered_iff {name hostname : Bytes} {analysed : AnalysedCertificateHostname}
    (hnew : AnalysedCertificateHostname.new name = some analysed) :
    hostname ∈ covered name ↔ ∃ host, PreparedServerHostname.new hostname = some host ∧
      analysed.validMatchForName host = some true := by
  show matchHostname (PreparedServerHostname.new hostname) name = some true ↔ _
  cases PreparedServerHostname.new hostname with
  | none => simp [matchHostname]
  | some host => simp [matchHostname, hnew]

theorem exists_prepared {hostname : Bytes} (h : IsHostname hostname) :
    ∃ host, PreparedServerHostname.new hostname = some host := by
  refine PreparedServerHostname.exists_new (isValidDnsCharacter_lowercase.mpr fun b hb => h b ?_)
  exact mem_of_mem_stripTrailingPeriod hb

/-- Matching compares the canonical form of the host name. -/
theorem mem_covered_iff_canonical {name hostname : Bytes}
    {analysed : AnalysedCertificateHostname} {P : Bytes → Prop}
    (hnew : AnalysedCertificateHostname.new name = some analysed)
    (hmatch : ∀ host : PreparedServerHostname, lowercase host.bytes = host.bytes →
      (analysed.validMatchForName host = some true ↔ P host.bytes)) :
    hostname ∈ covered name ↔ IsHostname hostname ∧ P (canonical hostname) := by
  rw [mem_covered_iff hnew]
  constructor
  · rintro ⟨host, hhost, h⟩
    obtain ⟨hvalid, hbytes⟩ := PreparedServerHostname.new_eq_some hhost
    refine ⟨hvalid, ?_⟩
    rw [← hbytes]
    exact (hmatch host (PreparedServerHostname.lowercase_of_new hhost)).mp h
  · rintro ⟨hvalid, h⟩
    obtain ⟨host, hhost⟩ := exists_prepared hvalid
    rw [← (PreparedServerHostname.new_eq_some hhost).2] at h
    exact ⟨host, hhost, (hmatch host (PreparedServerHostname.lowercase_of_new hhost)).mpr h⟩

/-- A name without asterisk covers itself. -/
theorem singleName_refines {name baseName : Bytes}
    (hnew : AnalysedCertificateHostname.new name = some (.singleName baseName)) :
    (NamePattern.single (lowercase baseName)).WellFormed ∧
      covered name = (NamePattern.single (lowercase baseName)).hosts := by
  obtain ⟨hasterisk, hbase⟩ : asciiAsterisk ∉ stripTrailingPeriod name ∧
      baseName = stripTrailingPeriod name := by
    rcases AnalysedCertificateHostname.new_cases hnew with ⟨hasterisk, heq⟩ | ⟨_, _, _, heq⟩
    · exact ⟨hasterisk, AnalysedCertificateHostname.singleName.inj heq⟩
    · cases heq
  have hvalid : IsHostname baseName := by
    rcases AnalysedCertificateHostname.valid_of_new hnew with hvalid | ⟨-, before, after, heq, -⟩
    · rwa [hbase]
    · rw [heq] at hasterisk
      exact absurd (by simp) hasterisk
  refine ⟨.single (NamePattern.isText_lowercase hvalid), Set.ext fun hostname => ?_⟩
  refine mem_covered_iff_canonical (P := fun host => host = lowercase baseName) hnew
    fun host hlower => ?_
  show some (caseInsensitiveAsciiMatch baseName host.bytes) = some true ↔ _
  rw [Option.some_inj, caseInsensitiveAsciiMatch_iff, hlower, eq_comm]

/-- The parts of a name with an asterisk, in lower case. -/
theorem wildcard_parts {name baseName : Bytes} {i : Nat} {period : Option Nat}
    (hnew : AnalysedCertificateHostname.new name = some (.wildcard baseName i period)) :
    Scanned baseName period (some i) ∧ ∀ before after,
      (nextLabel (lowercase baseName)).1 = before ++ asciiAsterisk :: after →
        asciiAsterisk ∉ before ∧
        (NamePattern.wildcard before after (nextLabel (lowercase baseName)).2).WellFormed := by
  have hscanned := AnalysedCertificateHostname.scanned_of_new hnew
  have hbase : baseName = stripTrailingPeriod name := by
    rcases AnalysedCertificateHostname.new_cases hnew with ⟨_, heq⟩ | ⟨_, _, _, heq⟩
    · cases heq
    · cases heq
      rfl
  obtain ⟨-, pre, suf, heq, -, hvalid⟩ := (AnalysedCertificateHostname.valid_of_new
    hnew).resolve_left fun hvalid => not_valid_asterisk hscanned.mem (hbase ▸ hvalid)
  rw [← hbase] at heq
  refine ⟨hscanned, fun before after hlabel => ?_⟩
  have htext := NamePattern.isText_lowercase hvalid
  rw [lowercase, List.map_append, ← lowercase, ← lowercase] at htext
  obtain ⟨hperiod, hspec⟩ := nextLabel_spec (lowercase baseName)
  obtain ⟨more, hmore, hrest⟩ : ∃ more, lowercase baseName =
      before ++ asciiAsterisk :: (after ++ more) ∧
      ∀ b ∈ (nextLabel (lowercase baseName)).2, b ∈ more := by
    rcases hspec with hname | ⟨hname, hnil⟩
    · refine ⟨asciiPeriod :: (nextLabel (lowercase baseName)).2, ?_, fun b hb => ?_⟩
      · rw [hname, nextLabel_append hperiod, hlabel, List.append_assoc, List.cons_append]
      · exact List.mem_cons_of_mem _ hb
    · refine ⟨[], ?_, fun b hb => ?_⟩
      · rw [List.append_nil, ← hlabel]
        exact hname
      · rw [hnil] at hb
        exact absurd hb List.not_mem_nil
  rw [heq, lowercase_around_asterisk] at hmore
  obtain ⟨rfl, hafter⟩ := valid_around_asterisk (fun b hb => (htext b hb).1) hmore
  rw [hafter] at htext
  rw [hlabel] at hperiod
  refine ⟨fun hmem => ?_, .wildcard (fun b hb => htext b (by simp [hb]))
    (fun b hb => htext b (by simp [hb])) (fun b hb => htext b (by simp [hrest b hb])) ?_ ?_⟩
  · exact absurd (htext _ (List.mem_append_left _ hmem)).1 (by decide)
  · exact fun hmem => hperiod (List.mem_append_left _ hmem)
  · exact fun hmem => hperiod (by simp [hmem])

/-- A name with an asterisk covers what fills the gap. -/
theorem wildcard_refines {name baseName : Bytes} {i : Nat} {period : Option Nat}
    (hnew : AnalysedCertificateHostname.new name = some (.wildcard baseName i period)) :
    (AnalysedCertificateHostname.wildcard baseName i period).pattern.WellFormed ∧
      covered name = (AnalysedCertificateHostname.wildcard baseName i period).pattern.hosts := by
  obtain ⟨hscanned, hparts⟩ := wildcard_parts hnew
  obtain ⟨before, after, hlabel⟩ : ∃ before after,
      (nextLabel (lowercase baseName)).1 = before ++ asciiAsterisk :: after := by
    obtain ⟨pre, suf, hlabel, -⟩ := hscanned.exists_label
    refine ⟨lowercase pre, lowercase suf, ?_⟩
    rw [nextLabel_lowercase, hlabel]
    exact lowercase_around_asterisk pre suf
  obtain ⟨hbefore, hwellFormed⟩ := hparts before after hlabel
  have hpattern : (AnalysedCertificateHostname.wildcard baseName i period).pattern =
      .wildcard before after (nextLabel (lowercase baseName)).2 := by
    show NamePattern.wildcard _ _ _ = _
    rw [hlabel, Split.takeWhile_bne hbefore, Split.dropWhile_bne hbefore]
    rfl
  rw [hpattern]
  refine ⟨hwellFormed, Set.ext fun hostname => ?_⟩
  refine mem_covered_iff_canonical (P := fun host => ∃ filling, filling ≠ [] ∧
    nextLabel host = (before ++ (filling ++ after), (nextLabel (lowercase baseName)).2)) hnew
    fun host hlower => ?_
  obtain ⟨pre, suf, hlabel', hiff⟩ := validMatchForName_wildcard_iff hscanned hlower
  obtain ⟨rfl, rfl⟩ : before = pre ∧ after = suf := by
    have hpre := (hparts pre suf hlabel').1
    rw [hlabel] at hlabel'
    have htake := congrArg (List.takeWhile (· != asciiAsterisk)) hlabel'
    have hdrop := congrArg (List.dropWhile (· != asciiAsterisk)) hlabel'
    rw [Split.takeWhile_bne hbefore, Split.takeWhile_bne hpre] at htake
    rw [Split.dropWhile_bne hbefore, Split.dropWhile_bne hpre] at hdrop
    exact ⟨htake, (List.cons.inj hdrop).2⟩
  rw [hiff]
  constructor
  · rintro ⟨hrest, filling, hfilling, hfirst⟩
    exact ⟨filling, hfilling, Prod.ext hfirst hrest.symm⟩
  · rintro ⟨filling, hfilling, hnext⟩
    rw [hnext]
    exact ⟨rfl, filling, hfilling, rfl⟩

/-- The comparison in the code is that with the pattern of the name. -/
theorem covered_eq_hosts (name : Bytes) :
    (patternOf name = none ∧ covered name = ∅) ∨
      ∃ pattern, patternOf name = some pattern ∧ pattern.WellFormed ∧
        covered name = pattern.hosts := by
  cases hnew : AnalysedCertificateHostname.new name with
  | none =>
    refine .inl ⟨by rw [patternOf, hnew]; rfl,
      Set.eq_empty_of_forall_notMem fun hostname hmem => ?_⟩
    have hmatch : matchHostname (PreparedServerHostname.new hostname) name = some true := hmem
    cases hhost : PreparedServerHostname.new hostname with
    | none => simp [matchHostname, hhost] at hmatch
    | some host => simp [matchHostname, hhost, hnew] at hmatch
  | some analysed =>
    refine .inr ⟨analysed.pattern, by rw [patternOf, hnew]; rfl, ?_⟩
    cases analysed with
    | singleName baseName => exact singleName_refines hnew
    | wildcard baseName i period => exact wildcard_refines hnew

/-! ## Case and trailing periods -/

theorem exists_new_of_canonical_eq {name name' : Bytes} (h : canonical name = canonical name')
    {analysed : AnalysedCertificateHostname}
    (hnew : AnalysedCertificateHostname.new name = some analysed) :
    ∃ analysed', AnalysedCertificateHostname.new name' = some analysed' ∧
      analysed'.pattern = analysed.pattern := by
  unfold canonical at h
  rcases AnalysedCertificateHostname.valid_of_new hnew with
    hvalid | ⟨hidna, before, after, heq, hperiod, hvalid⟩
  · have hvalid' : ∀ b ∈ stripTrailingPeriod name', isValidDnsCharacter b = true := by
      rw [← isValidDnsCharacter_lowercase, ← h, isValidDnsCharacter_lowercase]
      exact hvalid
    rw [AnalysedCertificateHostname.new_singleName hvalid, Option.some.injEq] at hnew
    refine ⟨_, AnalysedCertificateHostname.new_singleName hvalid', ?_⟩
    rw [← hnew]
    exact congrArg NamePattern.single h.symm
  · have hlower : lowercase (stripTrailingPeriod name') =
        lowercase before ++ asciiAsterisk :: lowercase after := by
      rw [← h, heq, lowercase_around_asterisk]
    obtain ⟨before', after', heq', hbefore, hafter⟩ := exists_asterisk_of_lowercase hlower
    have hvalid' : ∀ b ∈ before' ++ after', isValidDnsCharacter b = true := by
      rw [← isValidDnsCharacter_lowercase, lowercase, List.map_append, ← lowercase, ← lowercase,
        hbefore, hafter, lowercase, lowercase, ← List.map_append]
      exact isValidDnsCharacter_lowercase.mpr hvalid
    have hperiod' : asciiPeriod ∉ before' := by
      rwa [← mem_lowercase_iff (by decide), hbefore, mem_lowercase_iff (by decide)]
    have hidna' : ¬ asciiIdnaIdentifier <+: canonical name' := by
      rw [canonical, ← h]
      exact hidna
    obtain ⟨i, period, hwildcard⟩ := AnalysedCertificateHostname.new_wildcard heq hvalid hperiod
      hidna
    obtain ⟨i', period', hwildcard'⟩ := AnalysedCertificateHostname.new_wildcard heq' hvalid'
      hperiod' hidna'
    rw [hwildcard, Option.some.injEq] at hnew
    refine ⟨_, hwildcard', ?_⟩
    rw [← hnew]
    simp only [AnalysedCertificateHostname.pattern, h]

/-- A pattern depends on the canonical form of a name only. -/
theorem patternOf_eq_of_canonical_eq {name name' : Bytes} (h : canonical name = canonical name') :
    patternOf name = patternOf name' := by
  unfold patternOf
  cases hnew : AnalysedCertificateHostname.new name with
  | some analysed =>
    obtain ⟨analysed', hnew', hpattern⟩ := exists_new_of_canonical_eq h hnew
    rw [hnew', Option.map_some, Option.map_some, hpattern]
  | none =>
    cases hnew' : AnalysedCertificateHostname.new name' with
    | none => rfl
    | some analysed' =>
      obtain ⟨analysed, hsome, -⟩ := exists_new_of_canonical_eq h.symm hnew'
      rw [hnew] at hsome
      cases hsome

/-! ## The names of a leaf -/

/-- The names of a leaf that are compared with a host name: its DNS names, or its
last common name if it has no alternative names. -/
def Presents (leaf : Certificate) (name : Bytes) : Prop :=
  ∃ san, leaf.subjectAlternativeName = .ok san ∧
    (.dnsName name ∈ san.getD [] ∨
      san.getD [] = [] ∧ ServerIdentityPolicy.LastCommonName leaf.subject name)

/-- Without an IP address, only DNS names match. -/
theorem matchName_eq_some_true_iff {hostname : Bytes} {name : GeneralName} :
    (ServerIdentityPolicy.new (some hostname) none).matchName name = some true ↔
      ∃ value, name = .dnsName value ∧ hostname ∈ covered value := by
  cases name with
  | dnsName value =>
    constructor
    · exact fun h => ⟨value, rfl, h⟩
    · rintro ⟨_, hvalue, h⟩
      cases hvalue
      exact h
  | ipAddress value => simp [ServerIdentityPolicy.matchName, ServerIdentityPolicy.new]
  | _ => simp [ServerIdentityPolicy.matchName]

/-- A chain is accepted for the host names that the names of its leaf cover. -/
theorem accepts_iff_covered {chain : UnverifiedCertificateChain} {hostname : Bytes} :
    (serverIdentityPolicy (.new (some hostname) none)).Accepts chain ↔
      ∃ name, Presents chain.leaf name ∧ hostname ∈ covered name := by
  rw [serverIdentityPolicy_accepts]
  constructor
  · intro h
    cases h with
    | alternativeName hsan hname hmatch =>
      obtain ⟨value, rfl, hcovered⟩ := matchName_eq_some_true_iff.mp hmatch
      exact ⟨value, ⟨_, hsan, .inl hname⟩, hcovered⟩
    | commonName hsan hempty hcommon hmatch =>
      rw [ServerIdentityPolicy.commonName_eq_some_iff] at hcommon
      exact ⟨_, ⟨_, hsan, .inr ⟨hempty, hcommon⟩⟩, hmatch⟩
  · rintro ⟨name, ⟨san, hsan, hname | ⟨hempty, hcommon⟩⟩, hcovered⟩
    · cases san with
      | none => exact absurd hname List.not_mem_nil
      | some names =>
        exact .alternativeName hsan hname (matchName_eq_some_true_iff.mpr ⟨name, rfl, hcovered⟩)
    · exact .commonName hsan hempty (ServerIdentityPolicy.commonName_eq_some_iff.mpr hcommon)
        hcovered

/-! ## 1. Names that cover the same host names -/

/-- A name covers the host names of its pattern, and nothing if it has none. Two
names cover the same host names if and only if they have the same pattern, for which
neither case nor a trailing period matters. The names that cover nothing are those
that the code does not analyse. The host names for which the policy accepts a chain
are those that the names of its leaf cover. -/
theorem covered_eq_iff (name name' : Bytes) :
    ((patternOf name = none ∧ covered name = ∅) ∨
      ∃ pattern, patternOf name = some pattern ∧ pattern.WellFormed ∧
        covered name = pattern.hosts) ∧
    (covered name = covered name' ↔ patternOf name = patternOf name') ∧
    (canonical name = canonical name' → patternOf name = patternOf name') ∧
    (covered name = ∅ ↔ AnalysedCertificateHostname.new name = none) ∧
    (∀ chain hostname, (serverIdentityPolicy (.new (some hostname) none)).Accepts chain ↔
      ∃ presented, Presents chain.leaf presented ∧ hostname ∈ covered presented) := by
  refine ⟨covered_eq_hosts name, ?_, patternOf_eq_of_canonical_eq, ?_,
    fun chain hostname => accepts_iff_covered⟩
  · rcases covered_eq_hosts name with ⟨hnone, hempty⟩ | ⟨pattern, hsome, hwell, hhosts⟩
    · rcases covered_eq_hosts name' with ⟨hnone', hempty'⟩ | ⟨pattern', hsome', hwell', hhosts'⟩
      · rw [hnone, hempty, hnone', hempty']
        exact iff_of_true rfl rfl
      · rw [hnone, hempty, hsome', hhosts']
        exact iff_of_false (NamePattern.hosts_nonempty hwell').ne_empty.symm (by simp)
    · rcases covered_eq_hosts name' with ⟨hnone', hempty'⟩ | ⟨pattern', hsome', hwell', hhosts'⟩
      · rw [hsome, hhosts, hnone', hempty']
        exact iff_of_false (NamePattern.hosts_nonempty hwell).ne_empty (by simp)
      · rw [hsome, hhosts, hsome', hhosts', Option.some.injEq]
        exact ⟨NamePattern.hosts_injective hwell hwell', congrArg NamePattern.hosts⟩
  · rw [← Option.map_eq_none_iff (f := AnalysedCertificateHostname.pattern)]
    show _ ↔ patternOf name = none
    rcases covered_eq_hosts name with ⟨hnone, hempty⟩ | ⟨pattern, hsome, hwell, hhosts⟩
    · exact iff_of_true hempty hnone
    · rw [hsome, hhosts]
      exact iff_of_false (NamePattern.hosts_nonempty hwell).ne_empty (by simp)

end X509Validator
