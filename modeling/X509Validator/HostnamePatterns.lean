import X509Validator.ServerIdentity
import X509Validator.Enumeration
import X509Validator.Lib.IpGrammar

/-!
# Host names and patterns

RFC 6125 says which host names a name in a certificate stands for: itself, or,
if there is an asterisk in its first label, all names with some text in its
place. The code records indices in one pass over each name and compares slices.

Results:
1. `matchHostname_iff`: the comparison is that of a pattern with a host name.
2. `server_identity_policy_accepts_iff`: which leaves the policy accepts.
-/

namespace X509Validator

open Ascii IpText

/-! ## Patterns -/

/-- The form in which names are compared: without trailing period and in lower
case. -/
def canonical (name : Bytes) : Bytes := lowercase (stripTrailingPeriod name)

/-- The host name is the pattern with some text in place of the asterisk. The
asterisk is in the first label `before*after`, which is no A-label. -/
structure FillsAsterisk (before after rest filling pattern host : Bytes) : Prop where
  pattern_eq : pattern = before ++ asciiAsterisk :: (after ++ rest)
  host_eq : host = before ++ (filling ++ (after ++ rest))
  valid : ∀ b ∈ before ++ (after ++ rest), isValidDnsCharacter b = true
  before_label : asciiPeriod ∉ before
  after_label : asciiPeriod ∉ after
  rest_head : ∀ b ∈ rest.head?, b = asciiPeriod
  not_idna : ¬ asciiIdnaIdentifier <+: pattern
  filled : filling ≠ []
  filling_label : asciiPeriod ∉ filling

/-- The pattern stands for the host name. -/
def PatternMatches (pattern host : Bytes) : Prop :=
  (∀ b ∈ canonical host, isValidDnsCharacter b = true) ∧
    (asciiAsterisk ∉ canonical pattern ∧ canonical pattern = canonical host ∨
      ∃ before after rest filling,
        FillsAsterisk before after rest filling (canonical pattern) (canonical host))

/-- Every label of the name without its trailing period has a byte. -/
def NoEmptyLabel (name : Bytes) : Prop :=
  stripTrailingPeriod name = [] ∨ ∀ label ∈ labels (stripTrailingPeriod name), label ≠ []

instance (name : Bytes) : Decidable (NoEmptyLabel name) :=
  inferInstanceAs (Decidable (_ ∨ _))

theorem NoEmptyLabel.getLast? {name : Bytes} (h : NoEmptyLabel name) :
    (canonical name).getLast? ≠ some asciiPeriod := by
  intro hlast
  rw [canonical, lowercase, List.getLast?_map, ← beq_iff_eq,
    beq_map_toAsciiLowercase (by decide), beq_iff_eq] at hlast
  obtain ⟨init, hinit⟩ := List.getLast?_eq_some_iff.mp hlast
  rcases h with hnil | hlabels
  · rw [hnil] at hlast
    cases hlast
  · rw [hinit, labels_append, labels_of_not_mem List.not_mem_nil] at hlabels
    exact hlabels [] (by simp) rfl

/-! ## Prepared host names -/

theorem or_eq_toAsciiLowercase (b : UInt8) :
    isValidDnsCharacter b = true → b ||| 0x20 = toAsciiLowercase b := by
  revert b
  exact forall_uint8 (by decide +kernel)

theorem isValidDnsCharacter_toAsciiLowercase (b : UInt8) :
    isValidDnsCharacter (toAsciiLowercase b) = isValidDnsCharacter b := by
  revert b
  exact forall_uint8 (by decide +kernel)

theorem stripTrailingPeriod_lowercase (name : Bytes) :
    stripTrailingPeriod (lowercase name) = lowercase (stripTrailingPeriod name) := by
  unfold stripTrailingPeriod
  rw [lowercase, List.getLast?_map, beq_map_toAsciiLowercase (by decide)]
  split
  · exact (List.map_dropLast ..).symm
  · rfl

theorem scanHostname_eq {hostname : Bytes} (h : ∀ b ∈ hostname, isValidDnsCharacter b = true)
    (index : Option Nat) (value : Bytes) :
    ∃ index', scanHostname hostname index value = some (index', value ++ lowercase hostname) := by
  induction hostname generalizing index value with
  | nil => exact ⟨index, by simp [scanHostname, lowercase]⟩
  | cons byte hostname ih =>
    rw [List.forall_mem_cons] at h
    rw [scanHostname, h.1, Bool.not_true, if_neg Bool.false_ne_true,
      or_eq_toAsciiLowercase byte h.1]
    obtain ⟨index', hscan⟩ := ih h.2 _ (value ++ [toAsciiLowercase byte])
    refine ⟨index', hscan.trans ?_⟩
    simp [lowercase]

theorem isValidDnsCharacter_of_scanHostname {hostname value : Bytes} {index : Option Nat}
    {result : Option Nat × Bytes} (h : scanHostname hostname index value = some result) :
    ∀ b ∈ hostname, isValidDnsCharacter b = true := by
  induction hostname generalizing index value with
  | nil => simp
  | cons byte hostname ih =>
    rw [scanHostname] at h
    split at h
    · cases h
    · next hvalid => exact List.forall_mem_cons.mpr ⟨by simpa using hvalid, ih h⟩

/-- A host name is prepared if all its bytes are valid, as its canonical form. -/
theorem PreparedServerHostname.new_eq_some {hostname : Bytes} {host : PreparedServerHostname}
    (h : PreparedServerHostname.new hostname = some host) :
    (∀ b ∈ hostname, isValidDnsCharacter b = true) ∧ host.bytes = canonical hostname := by
  unfold PreparedServerHostname.new at h
  split at h
  · cases h
  · next index value hscan =>
    have hvalid := isValidDnsCharacter_of_scanHostname hscan
    obtain ⟨index', hscan'⟩ := scanHostname_eq hvalid none []
    rw [hscan', List.nil_append] at hscan
    obtain ⟨-, rfl⟩ := Prod.mk.inj (Option.some.inj hscan)
    obtain rfl := Option.some.inj h
    exact ⟨hvalid, stripTrailingPeriod_lowercase hostname⟩

theorem PreparedServerHostname.exists_new {hostname : Bytes}
    (h : ∀ b ∈ canonical hostname, isValidDnsCharacter b = true) :
    ∃ host, PreparedServerHostname.new hostname = some host := by
  have hvalid : ∀ b ∈ hostname, isValidDnsCharacter b = true := by
    intro b hb
    by_cases hperiod : b = asciiPeriod
    · subst hperiod
      decide
    · have hmem : toAsciiLowercase b ∈ canonical hostname :=
        List.mem_map_of_mem ((mem_stripTrailingPeriod hperiod).mpr hb)
      rw [← isValidDnsCharacter_toAsciiLowercase]
      exact h _ hmem
  obtain ⟨index, hscan⟩ := scanHostname_eq hvalid none []
  unfold PreparedServerHostname.new
  split
  · next hnone =>
    rw [hscan] at hnone
    cases hnone
  · exact ⟨_, rfl⟩

/-! ## Analysed certificate names -/

theorem scanCertificateHostname_valid {name : Bytes}
    (h : ∀ b ∈ name, isValidDnsCharacter b = true) (i : Nat) (period asterisk : Option Nat) :
    ∃ period', scanCertificateHostname name i period asterisk = some (period', asterisk) := by
  induction name generalizing i period with
  | nil => exact ⟨period, rfl⟩
  | cons byte name ih =>
    rw [List.forall_mem_cons] at h
    rw [scanCertificateHostname, if_pos h.1]
    split
    · exact ih h.2 (i + 1) (some i)
    · exact ih h.2 (i + 1) period

theorem scanCertificateHostname_asterisk {before after : Bytes}
    (hvalid : ∀ b ∈ before ++ after, isValidDnsCharacter b = true)
    (hperiod : asciiPeriod ∉ before) (i : Nat) :
    ∃ period, scanCertificateHostname (before ++ asciiAsterisk :: after) i none none =
      some (period, some (i + before.length)) := by
  induction before generalizing i with
  | nil =>
    obtain ⟨period, hscan⟩ := scanCertificateHostname_valid hvalid (i + 1) none (some i)
    exact ⟨period, hscan⟩
  | cons byte before ih =>
    rw [List.cons_append, List.forall_mem_cons] at hvalid
    have hne := List.ne_of_not_mem_cons hperiod
    obtain ⟨period, hscan⟩ := ih hvalid.2 (List.not_mem_of_not_mem_cons hperiod) (i + 1)
    refine ⟨period, ?_⟩
    rw [List.cons_append, scanCertificateHostname, if_neg (by simpa using hne.symm),
      if_pos hvalid.1, hscan, List.length_cons]
    congr 3
    omega

/-- The names that pass the scan: those of valid bytes only, and those with an
asterisk before the first period. -/
theorem scanCertificateHostname_cases {name : Bytes} {i : Nat} {period asterisk : Option Nat}
    {result : Option Nat × Option Nat}
    (h : scanCertificateHostname name i period asterisk = some result) :
    ((∀ b ∈ name, isValidDnsCharacter b = true) ∧ result.2 = asterisk) ∨
      (period = none ∧ asterisk = none ∧ ∃ before after,
        name = before ++ asciiAsterisk :: after ∧ asciiPeriod ∉ before ∧
          ∀ b ∈ before ++ after, isValidDnsCharacter b = true) := by
  induction name generalizing i period asterisk with
  | nil =>
    obtain rfl := Option.some.inj h
    exact .inl ⟨by simp, rfl⟩
  | cons byte name ih =>
    rw [scanCertificateHostname] at h
    split at h
    · next hperiod =>
      rw [Bool.and_eq_true, beq_iff_eq] at hperiod
      obtain ⟨hvalid, hasterisk⟩ := (ih h).resolve_right fun hright => by cases hright.1
      refine .inl ⟨List.forall_mem_cons.mpr ⟨?_, hvalid⟩, hasterisk⟩
      rw [hperiod.1]
      decide
    next hperiod =>
    split at h
    · next hvalid =>
      rcases ih h with ⟨hrest, hasterisk⟩ | ⟨rfl, rfl, before, after, rfl, hbefore, hrest⟩
      · exact .inl ⟨List.forall_mem_cons.mpr ⟨hvalid, hrest⟩, hasterisk⟩
      · have hne : byte ≠ asciiPeriod := by simpa using hperiod
        refine .inr ⟨rfl, rfl, byte :: before, after, rfl, ?_, ?_⟩
        · exact List.not_mem_cons_of_ne_of_not_mem hne.symm hbefore
        · exact List.forall_mem_cons.mpr ⟨hvalid, hrest⟩
    split at h
    · next hasterisk =>
      simp only [Bool.and_eq_true, beq_iff_eq, Option.isNone_iff_eq_none] at hasterisk
      obtain ⟨⟨rfl, rfl⟩, rfl⟩ := hasterisk
      obtain ⟨hvalid, -⟩ := (ih h).resolve_right fun hright => by cases hright.2.1
      exact .inr ⟨rfl, rfl, [], name, rfl, List.not_mem_nil, hvalid⟩
    · cases h

theorem asciiIdnaIdentifier_eq : asciiIdnaIdentifier = [120, 110, 45, 45] := by decide +kernel

theorem length_asciiIdnaIdentifier : asciiIdnaIdentifier.length = 4 := by
  rw [asciiIdnaIdentifier_eq]
  rfl

/-- Whether a name with an asterisk begins like an A-label. A name shorter than
the identifier is compared with a part of it, in which there is no asterisk. -/
theorem idna_match_iff {name : Bytes} (h : asciiAsterisk ∈ name) :
    caseInsensitiveAsciiMatch (name.take (min name.length 4))
        (asciiIdnaIdentifier.take (min name.length 4)) = true ↔
      asciiIdnaIdentifier <+: lowercase name := by
  rw [caseInsensitiveAsciiMatch_iff, List.prefix_iff_eq_take, length_asciiIdnaIdentifier]
  rcases Nat.lt_or_ge name.length 4 with hlt | hge
  · rw [Nat.min_eq_left hlt.le, List.take_length]
    constructor
    · intro heq
      have hmem := (mem_lowercase_iff (by decide)).mpr h
      rw [heq, mem_lowercase_iff (by decide), asciiIdnaIdentifier_eq] at hmem
      exact absurd (List.mem_of_mem_take hmem) (by decide)
    · intro heq
      have hshort := congrArg List.length heq
      rw [length_asciiIdnaIdentifier, List.length_take, lowercase, List.length_map] at hshort
      omega
  · have hidna : lowercase asciiIdnaIdentifier = asciiIdnaIdentifier := by
      rw [asciiIdnaIdentifier_eq]
      decide
    rw [Nat.min_eq_right hge, ← length_asciiIdnaIdentifier, List.take_length, hidna,
      length_asciiIdnaIdentifier]
    simp only [lowercase, List.map_take, eq_comm]

namespace AnalysedCertificateHostname

theorem new_singleName {name : Bytes}
    (h : ∀ b ∈ stripTrailingPeriod name, isValidDnsCharacter b = true) :
    new name = some (.singleName (stripTrailingPeriod name)) := by
  obtain ⟨period, hscan⟩ := scanCertificateHostname_valid h 0 none none
  simp [new, hscan]

theorem new_wildcard {name before after : Bytes}
    (hname : stripTrailingPeriod name = before ++ asciiAsterisk :: after)
    (hvalid : ∀ b ∈ before ++ after, isValidDnsCharacter b = true)
    (hperiod : asciiPeriod ∉ before) (hidna : ¬ asciiIdnaIdentifier <+: canonical name) :
    ∃ i period, new name = some (.wildcard (stripTrailingPeriod name) i period) := by
  obtain ⟨period, hscan⟩ := scanCertificateHostname_asterisk hvalid hperiod 0
  rw [← hname] at hscan
  have hmem : asciiAsterisk ∈ stripTrailingPeriod name := by
    rw [hname]
    simp
  refine ⟨0 + before.length, period, ?_⟩
  simp only [new, hscan, Option.bind_eq_bind, Option.bind_some]
  exact if_neg fun hmatch => hidna ((idna_match_iff hmem).mp hmatch)

/-- A name is analysed if it has valid bytes only, or one asterisk in a first
label that is no A-label. -/
theorem valid_of_new {name : Bytes} {analysed : AnalysedCertificateHostname}
    (h : new name = some analysed) :
    (∀ b ∈ stripTrailingPeriod name, isValidDnsCharacter b = true) ∨
      (¬ asciiIdnaIdentifier <+: canonical name ∧ ∃ before after,
        stripTrailingPeriod name = before ++ asciiAsterisk :: after ∧ asciiPeriod ∉ before ∧
          ∀ b ∈ before ++ after, isValidDnsCharacter b = true) := by
  unfold new at h
  obtain ⟨⟨period, asterisk⟩, hscan, h⟩ := Option.bind_eq_some_iff.mp h
  rcases scanCertificateHostname_cases hscan with ⟨hvalid, -⟩ | ⟨-, -, hasterisk⟩
  · exact .inl hvalid
  · obtain ⟨before, after, heq, hperiod, hvalid⟩ := hasterisk
    refine .inr ⟨fun hidna => ?_, before, after, heq, hperiod, hvalid⟩
    have hmem : asciiAsterisk ∈ stripTrailingPeriod name := by
      rw [heq]
      simp
    have hscanned := scanCertificateHostname_scanned scanned_nil hscan
    rw [List.nil_append] at hscanned
    cases asterisk with
    | none => exact hscanned.noAsterisk rfl hmem
    | some i =>
      simp only at h
      rw [if_pos ((idna_match_iff hmem).mpr hidna)] at h
      cases h

theorem scanned_of_new {name baseName : Bytes} {i : Nat} {period : Option Nat}
    (h : new name = some (.wildcard baseName i period)) : Scanned baseName period (some i) := by
  rcases new_cases h with ⟨-, hsingle⟩ | ⟨_, _, hscanned, hwildcard⟩
  · cases hsingle
  · cases hwildcard
    exact hscanned

end AnalysedCertificateHostname

/-! ## 1. Matching a host name with a pattern -/

/-- What follows the first label, with its period, is known from what follows
that period: a name that does not end with a period has no empty last label. -/
theorem exists_nextLabel_append {name : Bytes} (h : name.getLast? ≠ some asciiPeriod) :
    name = (nextLabel name).1 ++
      (if (nextLabel name).2 = [] then [] else asciiPeriod :: (nextLabel name).2) := by
  rcases (nextLabel_spec name).2 with hname | ⟨hname, hrest⟩
  · rw [if_neg, ← hname]
    intro hrest
    rw [hname, hrest, List.getLast?_concat] at h
    exact h rfl
  · rw [if_pos hrest, List.append_nil, ← hname]

/-- The bytes of a name around its only asterisk. -/
theorem valid_around_asterisk {before after before' after' : Bytes}
    (hvalid : ∀ b ∈ before ++ after, isValidDnsCharacter b = true)
    (h : before ++ asciiAsterisk :: after = before' ++ asciiAsterisk :: after') :
    before = before' ∧ after = after' := by
  have hasterisk : isValidDnsCharacter asciiAsterisk = false := by decide
  have hbefore : asciiAsterisk ∉ before := fun hmem =>
    absurd (hvalid _ (List.mem_append_left _ hmem)) (by simp [hasterisk])
  have hafter : asciiAsterisk ∉ after := fun hmem =>
    absurd (hvalid _ (List.mem_append_right _ hmem)) (by simp [hasterisk])
  obtain ⟨hbefore, -, hafter⟩ := (List.append_cons_inj_of_notMem hbefore hafter).mp h
  exact ⟨hbefore, hafter⟩

theorem lowercase_around_asterisk (before after : Bytes) :
    lowercase (before ++ asciiAsterisk :: after) =
      lowercase before ++ asciiAsterisk :: lowercase after := by
  simp only [lowercase, List.map_append, List.map_cons]
  rfl

/-- The comparison of the slices of a wildcard name, on names in lower case. -/
theorem validMatchForName_wildcard_iff {name : Bytes} {i : Nat} {period : Option Nat}
    (h : Scanned name period (some i)) {target : PreparedServerHostname}
    (hlower : lowercase target.bytes = target.bytes) :
    ∃ pre suf, (nextLabel (lowercase name)).1 = pre ++ asciiAsterisk :: suf ∧
      ((AnalysedCertificateHostname.wildcard name i period).validMatchForName target = some true ↔
        (nextLabel (lowercase name)).2 = (nextLabel target.bytes).2 ∧
          ∃ filling, filling ≠ [] ∧ (nextLabel target.bytes).1 = pre ++ (filling ++ suf)) := by
  obtain ⟨pre, suf, hlabel, hmatch⟩ := validMatchForName_wildcard h target
  have hlength : (nextLabel name).1.length = pre.length + suf.length + 1 := by
    rw [hlabel, List.length_append, List.length_cons]
    omega
  have hnext := nextLabel_lowercase target.bytes
  rw [hlower, Prod.ext_iff] at hnext
  obtain ⟨hfirst, hsecond⟩ := hnext
  simp only at hfirst hsecond
  have htake : ∀ n, lowercase ((nextLabel target.bytes).1.take n) =
      (nextLabel target.bytes).1.take n := by
    intro n
    rw [lowercase, List.map_take, ← lowercase, ← hfirst]
  have hdrop : ∀ n, lowercase ((nextLabel target.bytes).1.drop n) =
      (nextLabel target.bytes).1.drop n := by
    intro n
    rw [lowercase, List.map_drop, ← lowercase, ← hfirst]
  have hlengths : ∀ label : Bytes, (lowercase label).length = label.length :=
    fun _ => List.length_map _
  refine ⟨lowercase pre, lowercase suf, ?_, ?_⟩
  · rw [nextLabel_lowercase, hlabel]
    exact lowercase_around_asterisk pre suf
  · rw [hmatch, nextLabel_lowercase, Option.some_inj, ← Split.exists_between_iff]
    simp only [Bool.and_eq_true, caseInsensitiveAsciiMatch_iff, decide_eq_true_eq, hlength, htake,
      hdrop, hlengths, and_assoc, Nat.lt_iff_add_one_le, ← hsecond]

theorem isValidDnsCharacter_lowercase {name : Bytes} :
    (∀ b ∈ lowercase name, isValidDnsCharacter b = true) ↔
      ∀ b ∈ name, isValidDnsCharacter b = true := by
  rw [lowercase, List.forall_mem_map]
  simp only [isValidDnsCharacter_toAsciiLowercase]

namespace FillsAsterisk

variable {before after rest filling pattern host : Bytes}

theorem nextLabel_pattern (h : FillsAsterisk before after rest filling pattern host) :
    nextLabel pattern = (before ++ asciiAsterisk :: after, rest.drop 1) := by
  rw [h.pattern_eq, ← List.cons_append, ← List.append_assoc]
  refine nextLabel_append_of_head ?_ h.rest_head
  simpa using ⟨h.before_label, by decide, h.after_label⟩

theorem nextLabel_host (h : FillsAsterisk before after rest filling pattern host) :
    nextLabel host = (before ++ (filling ++ after), rest.drop 1) := by
  rw [h.host_eq, ← List.append_assoc filling, ← List.append_assoc]
  refine nextLabel_append_of_head ?_ h.rest_head
  simpa using ⟨h.before_label, h.filling_label, h.after_label⟩

theorem valid_label (h : FillsAsterisk before after rest filling pattern host) :
    ∀ b ∈ before ++ after, isValidDnsCharacter b = true := by
  intro b hb
  refine h.valid b ?_
  rw [← List.append_assoc]
  exact List.mem_append_left _ hb

/-- Conversely, names that agree after the first label, with a first label of the
host name that fills the asterisk. -/
theorem of_nextLabel {before' after' : Bytes} (hpattern : pattern.getLast? ≠ some asciiPeriod)
    (hhost : host.getLast? ≠ some asciiPeriod) (hidna : ¬ asciiIdnaIdentifier <+: pattern)
    (heq : pattern = before' ++ asciiAsterisk :: after')
    (hvalid : ∀ b ∈ before' ++ after', isValidDnsCharacter b = true)
    (hrest : (nextLabel pattern).2 = (nextLabel host).2)
    (hlabel : (nextLabel pattern).1 = before ++ asciiAsterisk :: after)
    (hfilling : (nextLabel host).1 = before ++ (filling ++ after)) (hfilled : filling ≠ []) :
    ∃ rest, FillsAsterisk before after rest filling pattern host := by
  have hpatternEq := exists_nextLabel_append hpattern
  have hhostEq := exists_nextLabel_append hhost
  rw [hrest, hlabel, List.append_assoc, List.cons_append] at hpatternEq
  rw [hfilling, List.append_assoc, List.append_assoc] at hhostEq
  have hpatternPeriod := (nextLabel_spec pattern).1
  have hhostPeriod := (nextLabel_spec host).1
  rw [hlabel] at hpatternPeriod
  rw [hfilling] at hhostPeriod
  obtain ⟨rfl, hafter⟩ := valid_around_asterisk hvalid (heq.symm.trans hpatternEq)
  refine ⟨_, {
    pattern_eq := hpatternEq
    host_eq := hhostEq
    valid := hafter ▸ hvalid
    before_label := fun hmem => hpatternPeriod (List.mem_append_left _ hmem)
    after_label := fun hmem => hpatternPeriod (by simp [hmem])
    rest_head := ?_
    not_idna := hidna
    filled := hfilled
    filling_label := fun hmem => hhostPeriod (by simp [hmem]) }⟩
  split
  · simp
  · simp

end FillsAsterisk

/-- A wildcard name in the certificate stands for the host names that fill its
asterisk. -/
theorem validMatchForName_fillsAsterisk {name before after : Bytes} {i : Nat}
    {period : Option Nat} {target : PreparedServerHostname}
    (h : Scanned name period (some i)) (heq : name = before ++ asciiAsterisk :: after)
    (hvalid : ∀ b ∈ before ++ after, isValidDnsCharacter b = true)
    (hidna : ¬ asciiIdnaIdentifier <+: lowercase name)
    (hname : (lowercase name).getLast? ≠ some asciiPeriod)
    (hlower : lowercase target.bytes = target.bytes)
    (htarget : target.bytes.getLast? ≠ some asciiPeriod) :
    (AnalysedCertificateHostname.wildcard name i period).validMatchForName target = some true ↔
      ∃ before after rest filling,
        FillsAsterisk before after rest filling (lowercase name) target.bytes := by
  obtain ⟨pre, suf, hlabel, hiff⟩ := validMatchForName_wildcard_iff h hlower
  rw [hiff]
  constructor
  · rintro ⟨hrest, filling, hfilled, hfilling⟩
    have hlowercase : lowercase name = lowercase before ++ asciiAsterisk :: lowercase after := by
      rw [heq, lowercase_around_asterisk]
    have hvalid' : ∀ b ∈ lowercase before ++ lowercase after, isValidDnsCharacter b = true := by
      rw [lowercase, lowercase, ← List.map_append]
      exact isValidDnsCharacter_lowercase.mpr hvalid
    obtain ⟨rest, hfills⟩ := FillsAsterisk.of_nextLabel hname htarget hidna hlowercase hvalid' hrest
      hlabel hfilling hfilled
    exact ⟨pre, suf, rest, filling, hfills⟩
  · rintro ⟨before, after, rest, filling, hfills⟩
    rw [hfills.nextLabel_pattern] at hlabel ⊢
    obtain ⟨rfl, rfl⟩ := valid_around_asterisk hfills.valid_label hlabel
    rw [hfills.nextLabel_host]
    exact ⟨rfl, filling, hfills.filled, rfl⟩

theorem exists_asterisk_of_lowercase {name before after : Bytes}
    (h : lowercase name = before ++ asciiAsterisk :: after) :
    ∃ before' after', name = before' ++ asciiAsterisk :: after' ∧ lowercase before' = before ∧
      lowercase after' = after := by
  obtain ⟨before', rest, rfl, hbefore, hrest⟩ := List.map_eq_append_iff.mp h
  obtain ⟨byte, after', rfl, hbyte, hafter⟩ := List.map_eq_cons_iff.mp hrest
  rw [toAsciiLowercase_eq_iff (by decide)] at hbyte
  exact ⟨before', after', by rw [hbyte], hbefore, hafter⟩

theorem Scanned.mem {name : Bytes} {period : Option Nat} {i : Nat}
    (h : Scanned name period (some i)) : asciiAsterisk ∈ name := by
  obtain ⟨before, after, rfl, -, -⟩ := h.asterisk i rfl
  simp

theorem not_valid_asterisk {name : Bytes} (h : asciiAsterisk ∈ name)
    (hvalid : ∀ b ∈ name, isValidDnsCharacter b = true) : False :=
  absurd (hvalid _ h) (by decide)

section

variable {hostname dnsName : Bytes} {host : PreparedServerHostname}

theorem patternMatches_of_matchHostname (hnew : PreparedServerHostname.new hostname = some host)
    (hhost : NoEmptyLabel hostname) (hname : NoEmptyLabel dnsName)
    (h : matchHostname (some host) dnsName = some true) : PatternMatches dnsName hostname := by
  obtain ⟨hvalid, hbytes⟩ := PreparedServerHostname.new_eq_some hnew
  have hlower := PreparedServerHostname.lowercase_of_new hnew
  refine ⟨?_, ?_⟩
  · refine isValidDnsCharacter_lowercase.mpr fun b hb => hvalid b ?_
    exact mem_of_mem_stripTrailingPeriod hb
  · simp only [matchHostname] at h
    split at h
    · cases h
    next analysed hanalysed =>
    rcases AnalysedCertificateHostname.new_cases hanalysed with
      ⟨hasterisk, rfl⟩ | ⟨i, period, hscanned, rfl⟩
    · simp only [AnalysedCertificateHostname.validMatchForName, Option.some_inj,
        caseInsensitiveAsciiMatch_iff, hlower] at h
      exact .inl ⟨mt (mem_lowercase_iff (by decide)).mp hasterisk, h.trans hbytes⟩
    · obtain ⟨hidna, before, after, heq, -, hvalid⟩ :=
        (AnalysedCertificateHostname.valid_of_new hanalysed).resolve_left
          (not_valid_asterisk hscanned.mem)
      rw [validMatchForName_fillsAsterisk hscanned heq hvalid hidna hname.getLast? hlower
        (hbytes ▸ hhost.getLast?), hbytes] at h
      exact .inr h

theorem matchHostname_of_patternMatches
    (hnew : PreparedServerHostname.new hostname = some host)
    (hhost : NoEmptyLabel hostname) (hname : NoEmptyLabel dnsName)
    (h : PatternMatches dnsName hostname) : matchHostname (some host) dnsName = some true := by
  obtain ⟨-, hbytes⟩ := PreparedServerHostname.new_eq_some hnew
  have hlower := PreparedServerHostname.lowercase_of_new hnew
  simp only [matchHostname]
  obtain ⟨hvalid, ⟨-, heq⟩ | hfills⟩ := h
  · rw [← heq] at hvalid
    rw [AnalysedCertificateHostname.new_singleName (isValidDnsCharacter_lowercase.mp hvalid)]
    simp only [AnalysedCertificateHostname.validMatchForName, Option.some_inj,
      caseInsensitiveAsciiMatch_iff, hlower]
    exact heq.trans hbytes.symm
  · obtain ⟨before, after, rest, filling, hfill⟩ := id hfills
    obtain ⟨before', after', heq, rfl, hafter⟩ := exists_asterisk_of_lowercase hfill.pattern_eq
    have hvalid' : ∀ b ∈ before' ++ after', isValidDnsCharacter b = true := by
      refine isValidDnsCharacter_lowercase.mp ?_
      rw [lowercase, List.map_append, ← lowercase, ← lowercase, hafter]
      exact hfill.valid
    obtain ⟨i, period, hanalysed⟩ := AnalysedCertificateHostname.new_wildcard heq hvalid'
      (mt (mem_lowercase_iff (by decide)).mpr hfill.before_label) hfill.not_idna
    have hscanned := AnalysedCertificateHostname.scanned_of_new hanalysed
    rw [hanalysed]
    simp only
    rw [validMatchForName_fillsAsterisk hscanned heq hvalid' hfill.not_idna hname.getLast? hlower
      (hbytes ▸ hhost.getLast?), hbytes]
    exact hfills

/-- The comparison with a name of the certificate is that with a pattern. -/
theorem matchHostname_iff (hhost : NoEmptyLabel hostname) (hname : NoEmptyLabel dnsName) :
    matchHostname (PreparedServerHostname.new hostname) dnsName = some true ↔
      PatternMatches dnsName hostname := by
  cases hnew : PreparedServerHostname.new hostname with
  | none =>
    constructor
    · intro h
      cases h
    · intro h
      obtain ⟨host, hsome⟩ := PreparedServerHostname.exists_new h.1
      rw [hnew] at hsome
      cases hsome
  | some host =>
    exact ⟨patternMatches_of_matchHostname hnew hhost hname,
      matchHostname_of_patternMatches hnew hhost hname⟩

end

/-! ## 2. Which leaves are accepted -/

/-- The text is an IPv4 or an IPv6 address, and the value of an iPAddress name is
that address in network order. -/
def SameAddress (text value : Bytes) : Prop :=
  IsIpv4Text text value ∨
  ∃ groups, IsIpv6Text text groups ∧
    value = groups.flatMap fun group => [UInt8.ofNat (group / 256), UInt8.ofNat (group % 256)]

namespace IpAddress

theorem parse_eq_v4 {text : Bytes} {address : Ipv4Addr} :
    parse text = some (.v4 address) ↔ parseIpv4Addr text = some address := by
  unfold parse
  cases parseIpv4Addr text with
  | some _ => simp
  | none => cases parseIpv6Addr text <;> simp

/-- No text is an address of both families. -/
theorem parse_eq_v6 {text : Bytes} {address : Ipv6Addr} :
    parse text = some (.v6 address) ↔ parseIpv6Addr text = some address := by
  unfold parse
  cases hipv4 : parseIpv4Addr text with
  | some _ =>
    have hcolon : 58 ∉ text := by
      intro hmem
      have hbyte := (parseIpv4Addr_eq_some hipv4).2 58 hmem
      revert hbyte
      decide
    simp [parseIpv6Addr_eq_none hcolon]
  | none => cases parseIpv6Addr text <;> simp

def HasBytes : IpAddress → Bytes → Prop
  | .v4 address, value => value.length = 4 ∧ value = address.octets
  | .v6 address, value => value.length = 16 ∧ value = address.octets

theorem exists_parse_iff {text value : Bytes} :
    (∃ ip, parse text = some ip ∧ ip.HasBytes value) ↔ SameAddress text value := by
  constructor
  · rintro ⟨ip, hip, hvalue⟩
    cases ip with
    | v4 address =>
      obtain ⟨-, rfl⟩ := hvalue
      exact .inl (parseIpv4Addr_eq_some_iff.mp (parse_eq_v4.mp hip))
    | v6 address =>
      obtain ⟨-, rfl⟩ := hvalue
      obtain ⟨groups, htext, rfl⟩ := parseIpv6Addr_eq_some_iff.mp (parse_eq_v6.mp hip)
      exact .inr ⟨groups, htext, rfl⟩
  · rintro (htext | ⟨groups, htext, rfl⟩)
    · exact ⟨.v4 ⟨value⟩, parse_eq_v4.mpr (parseIpv4Addr_eq_some_iff.mpr htext), htext.1, rfl⟩
    · exact ⟨.v6 (.ofGroups groups), parse_eq_v6.mpr (parseIpv6Addr_eq_some_iff.mpr
        ⟨groups, htext, rfl⟩), htext.length_octets, rfl⟩

theorem fromSanBytes_eq_some {value : Bytes} {ip : IpAddress} :
    fromSanBytes value = some ip ↔ ip.HasBytes value := by
  unfold fromSanBytes
  split
  · next hlength =>
    cases ip with
    | v4 address => simp [HasBytes, hlength, Ipv4Addr.ext_iff]
    | v6 address => simp [HasBytes, hlength]
  · next hlength =>
    cases ip with
    | v4 address => simp [HasBytes, hlength]
    | v6 address => simp [HasBytes, hlength, Ipv6Addr.ext_iff]
  · next hfour hsixteen =>
    cases ip with
    | v4 address => exact iff_of_false (Option.some_ne_none _).symm fun h => hfour h.1
    | v6 address => exact iff_of_false (Option.some_ne_none _).symm fun h => hsixteen h.1

end IpAddress

namespace ServerIdentityPolicy

section

variable {serverHostname serverIp : Option Bytes} {value : Bytes}

theorem matchHostname_new_iff (hhost : ∀ host ∈ serverHostname, NoEmptyLabel host)
    (hvalue : NoEmptyLabel value) :
    matchHostname (new serverHostname serverIp).serverHostname value = some true ↔
      ∃ host ∈ serverHostname, PatternMatches value host := by
  cases serverHostname with
  | none =>
    constructor
    · intro h
      cases h
    · rintro ⟨host, hhost, -⟩
      cases hhost
  | some host =>
    simp only [Option.mem_some_iff, exists_eq_left']
    exact matchHostname_iff (hhost host rfl) hvalue

theorem matchName_ipAddress_iff :
    (new serverHostname serverIp).matchName (.ipAddress value) = some true ↔
      ∃ text ∈ serverIp, SameAddress text value := by
  have hparsed : (∃ text ∈ serverIp, SameAddress text value) ↔
      ∃ ip, serverIp.bind IpAddress.parse = some ip ∧ IpAddress.fromSanBytes value = some ip := by
    simp only [IpAddress.fromSanBytes_eq_some, ← IpAddress.exists_parse_iff]
    cases serverIp <;> simp
  rw [hparsed]
  simp only [matchName, new]
  cases serverIp.bind IpAddress.parse with
  | none => simp
  | some ip =>
    cases IpAddress.fromSanBytes value with
    | none => simp
    | some certificateIp =>
      simp only [matchIpAddress, Option.some_inj, beq_iff_eq, exists_eq_left']
      exact eq_comm

end

/-- A leaf with alternative names is accepted for one of them, or else rejected
without regard to its subject. -/
theorem hasValidIdentityForService_of_ne_nil (policy : ServerIdentityPolicy) {leaf : Certificate}
    {san : Option (List GeneralName)} (hsan : leaf.subjectAlternativeName = .ok san)
    (hne : san.getD [] ≠ []) :
    policy.hasValidIdentityForService leaf =
      if (san.getD []).any fun name => policy.matchName name == some true then .ok ()
      else fail "none of the names in the SAN extension matched" := by
  have hempty : (!(san.getD []).isEmpty) = true := by simpa using hne
  rw [hasValidIdentityForService, hsan]
  simp only [matchNames_eq]
  split
  · next h => cases h
  · next h => rw [if_pos (Option.some.inj h)]
  · next h => rw [if_pos hempty, if_neg (by simp [Option.some.inj h])]

section

variable {serverHostname serverIp : Option Bytes} {leaf : Certificate}
variable {san : Option (List GeneralName)}

theorem identifies_iff (hsan : leaf.subjectAlternativeName = .ok san)
    (hhost : ∀ host ∈ serverHostname, NoEmptyLabel host)
    (hnames : ∀ value, .dnsName value ∈ san.getD [] → NoEmptyLabel value)
    (hcommon : ∀ name, LastCommonName leaf.subject name → NoEmptyLabel name) :
    (new serverHostname serverIp).Identifies leaf ↔
      (∃ host ∈ serverHostname, ∃ value, .dnsName value ∈ san.getD [] ∧
        PatternMatches value host) ∨
      (∃ text ∈ serverIp, ∃ value, .ipAddress value ∈ san.getD [] ∧ SameAddress text value) ∨
      (san.getD [] = [] ∧ ∃ host ∈ serverHostname, ∃ name, LastCommonName leaf.subject name ∧
        PatternMatches name host) := by
  have hsome : ∀ {name : GeneralName}, name ∈ san.getD [] →
      leaf.subjectAlternativeName = .ok (some (san.getD [])) := by
    intro name hname
    cases san with
    | none => cases hname
    | some names => exact hsan
  constructor
  · intro h
    cases h with
    | @alternativeName names name hsan' hname hmatch =>
      rw [hsan] at hsan'
      cases hsan'
      cases name with
      | dnsName value =>
        obtain ⟨host, hhost', hmatches⟩ :=
          (matchHostname_new_iff hhost (hnames value hname)).mp hmatch
        exact .inl ⟨host, hhost', value, hname, hmatches⟩
      | ipAddress value =>
        obtain ⟨text, htext, hsame⟩ := matchName_ipAddress_iff.mp hmatch
        exact .inr (.inl ⟨text, htext, value, hname, hsame⟩)
      | _ => cases hmatch
    | commonName hsan' hempty hname hmatch =>
      rw [hsan] at hsan'
      cases hsan'
      rw [commonName_eq_some_iff] at hname
      obtain ⟨host, hhost', hmatches⟩ := (matchHostname_new_iff hhost (hcommon _ hname)).mp hmatch
      exact .inr (.inr ⟨hempty, host, hhost', _, hname, hmatches⟩)
  · rintro (⟨host, hhost', value, hvalue, hmatches⟩ | ⟨text, htext, value, hvalue, hsame⟩ |
      ⟨hempty, host, hhost', name, hname, hmatches⟩)
    · exact .alternativeName (hsome hvalue) hvalue
        ((matchHostname_new_iff hhost (hnames value hvalue)).mpr ⟨host, hhost', hmatches⟩)
    · exact .alternativeName (hsome hvalue) hvalue
        (matchName_ipAddress_iff.mpr ⟨text, htext, hsame⟩)
    · exact .commonName hsan hempty (commonName_eq_some_iff.mpr hname)
        ((matchHostname_new_iff hhost (hcommon name hname)).mpr ⟨host, hhost', hmatches⟩)

end

end ServerIdentityPolicy

theorem verdict_congr {evaluation evaluation' : Except PolicyHalt Unit}
    {h : evaluation ≠ .error .panicked} {h' : evaluation' ≠ .error .panicked}
    (heq : evaluation = evaluation') : verdict evaluation h = verdict evaluation' h' := by
  subst heq
  rfl

/-- Which leaves the policy accepts: those with a dNSName that is a pattern for
the host name, those with an iPAddress that is the address, and, without any
alternative names, those whose last common name is a pattern for the host name.
With alternative names, neither the subject nor their order matters. -/
theorem server_identity_policy_accepts_iff (serverHostname serverIp : Option Bytes)
    (chain : UnverifiedCertificateChain) (san : Option (List GeneralName))
    (hsan : chain.leaf.subjectAlternativeName = .ok san)
    (hhost : ∀ host ∈ serverHostname, NoEmptyLabel host)
    (hnames : ∀ value, .dnsName value ∈ san.getD [] → NoEmptyLabel value)
    (hcommon : ∀ name, ServerIdentityPolicy.LastCommonName chain.leaf.subject name →
      NoEmptyLabel name) :
    ((serverIdentityPolicy (.new serverHostname serverIp)).Accepts chain ↔
      (∃ host ∈ serverHostname, ∃ value, .dnsName value ∈ san.getD [] ∧
        PatternMatches value host) ∨
      (∃ text ∈ serverIp, ∃ value, .ipAddress value ∈ san.getD [] ∧ SameAddress text value) ∨
      (san.getD [] = [] ∧ ∃ host ∈ serverHostname, ∃ name,
        ServerIdentityPolicy.LastCommonName chain.leaf.subject name ∧
          PatternMatches name host)) ∧
    (san.getD [] ≠ [] → ∀ (chain' : UnverifiedCertificateChain) (names : List GeneralName),
      chain'.leaf.subjectAlternativeName = .ok (some names) → names.Perm (san.getD []) →
      (serverIdentityPolicy (.new serverHostname serverIp)).chainMeetsPolicyRequirements chain' =
        (serverIdentityPolicy (.new serverHostname serverIp)).chainMeetsPolicyRequirements
          chain) := by
  refine ⟨?_, ?_⟩
  · rw [serverIdentityPolicy_accepts]
    exact ServerIdentityPolicy.identifies_iff hsan hhost hnames hcommon
  · intro hne chain' names hsan' hperm
    have hne' : (some names).getD [] ≠ [] := by
      rintro rfl
      exact hne hperm.nil_eq.symm
    refine verdict_congr ?_
    rw [ServerIdentityPolicy.hasValidIdentityForService_of_ne_nil _ hsan hne,
      ServerIdentityPolicy.hasValidIdentityForService_of_ne_nil _ hsan' hne', Option.getD_some,
      hperm.any_eq]

namespace SamplePki

/-- A leaf with an asterisk inside of a label, in mixed case and with a trailing
period. -/
def wildcardChain : UnverifiedCertificateChain :=
  ⟨[{ endEntity with
    subjectAlternativeName := .ok (some [.dnsName (bytes "w*W.Example.com.")]) }], by simp⟩

end SamplePki

theorem server_identity_policy_accepts_iff_wildcard :
    (serverIdentityPolicy (.new (some (bytes "wAAw.example.com")) none)).Accepts
      SamplePki.wildcardChain := by
  have hfills : FillsAsterisk (bytes "w") (bytes "w") (bytes ".example.com") (bytes "aa")
      (canonical (bytes "w*W.Example.com.")) (canonical (bytes "wAAw.example.com")) :=
    ⟨by decide +kernel, by decide +kernel, by decide +kernel, by decide +kernel,
      by decide +kernel, by decide +kernel, by decide +kernel, by decide +kernel,
      by decide +kernel⟩
  refine (server_identity_policy_accepts_iff _ none _ _ rfl ?_ ?_ ?_).1.mpr (.inl ?_)
  · decide +kernel
  · intro value hvalue
    obtain rfl : value = bytes "w*W.Example.com." := by simpa using hvalue
    decide +kernel
  · rintro name ⟨before, _, _, heq, -⟩
    cases before <;> cases heq
  · exact ⟨_, rfl, _, List.mem_singleton_self _, by decide +kernel, .inr ⟨_, _, _, _, hfills⟩⟩

end X509Validator
