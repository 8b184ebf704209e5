import X509Validator.HostnamePatterns

/-!
# Wildcard labels

The indices that the two scans record are used by other functions, after a
trailing period has been dropped and the names have been split at their first
period. The first part of this module follows them to the slices. All slices of
`AnalysedCertificateHostname::new` are part of `newSliced`, where those out of
range are `none`; those of `valid_match_for_name` are so in `ServerIdentity`
already.

The second part is about A-labels. A wildcard label must not be an A-label, and
the code looks at the first four bytes of the certificate name for that. The
text before the asterisk may still be shorter than the identifier, and the
asterisk can then stand for the rest of it.

Results:
1. `hostname_matching_in_bounds`: where the recorded indices point, and that no
   slice is out of range.
2. `partial_wildcard_a_label`: a wildcard label matches no A-label, unless the
   text before its asterisk is the beginning of the identifier.
-/

namespace X509Validator

open Ascii

/-! ## 1. Recorded indices -/

/-- An index that has been recorded is that of the first period. -/
def PointsAtFirstPeriod (name : Bytes) (index : Option Nat) : Prop :=
  ∀ i, index = some i →
    ∃ before after, name = before ++ asciiPeriod :: after ∧ before.length = i ∧
      asciiPeriod ∉ before

theorem pointsAtFirstPeriod_of_findIdx? {name : Bytes} {index : Option Nat}
    (h : index = name.findIdx? (· == asciiPeriod)) : PointsAtFirstPeriod name index := by
  intro i hi
  rw [h] at hi
  rcases nextLabel_spec name with ⟨hlabel, hname | ⟨hname, -⟩⟩
  · rw [hname, List.findIdx?_append, findIdx?_eq_none_of_not_mem hlabel, List.findIdx?_cons] at hi
    simp only [BEq.rfl, ↓reduceIte, Option.none_or, Option.map_some, Nat.zero_add,
      Option.some.injEq] at hi
    exact ⟨_, _, hname, hi, hlabel⟩
  · rw [hname, findIdx?_eq_none_of_not_mem hlabel] at hi
    cases hi

/-- The trailing period is dropped by a slice. -/
def sliceTrailingPeriod (name : Bytes) : Option Bytes :=
  if name.getLast? == some asciiPeriod then (checkedSub name.length 1).bind (slice name 0)
  else some name

/-- `AnalysedCertificateHostname::new` with its slices. The outer `none` is a
panic. -/
def AnalysedCertificateHostname.newSliced (name : Bytes) :
    Option (Option AnalysedCertificateHostname) := do
  let baseName ← sliceTrailingPeriod name
  match scanCertificateHostname baseName 0 none none with
  | none => return none
  | some (_, none) => return some (.singleName baseName)
  | some (firstPeriodIndex, some asteriskIndex) =>
    let prefixLen := min baseName.length 4
    let start ← slice baseName 0 prefixLen
    let identifier ← slice asciiIdnaIdentifier 0 prefixLen
    if caseInsensitiveAsciiMatch start identifier then
      return none
    else
      return some (.wildcard baseName asteriskIndex firstPeriodIndex)

theorem slice_zero {name : Bytes} {stop : Nat} (h : stop ≤ name.length) :
    slice name 0 stop = some (name.take stop) := by
  rw [slice, if_pos ⟨Nat.zero_le _, h⟩, List.drop_zero]

theorem sliceTrailingPeriod_eq (name : Bytes) :
    sliceTrailingPeriod name = some (stripTrailingPeriod name) := by
  rcases trailing_period_cases name with ⟨init, rfl⟩ | hlast
  · rw [sliceTrailingPeriod, if_pos (by simp), checkedSub, if_pos (by simp), Option.bind_some,
      slice_zero (Nat.sub_le _ _), stripTrailingPeriod_concat]
    simp
  · rw [sliceTrailingPeriod, if_neg (by simpa using hlast), stripTrailingPeriod_eq_self hlast]

/-- No slice of the analysis is out of range. -/
theorem AnalysedCertificateHostname.newSliced_eq (name : Bytes) :
    newSliced name = some (new name) := by
  unfold newSliced new
  rw [sliceTrailingPeriod_eq]
  simp only [Option.bind_eq_bind, Option.bind_some]
  split
  · next hscan => simp [hscan]
  · next hscan => simp [hscan]
  · next hscan =>
    have hidentifier : min (stripTrailingPeriod name).length 4 ≤ asciiIdnaIdentifier.length :=
      length_asciiIdnaIdentifier ▸ Nat.min_le_right _ _
    rw [slice_zero (Nat.min_le_left _ _), slice_zero hidentifier]
    simp only [hscan, Option.bind_some]
    split
    · rfl
    · rfl

/-- The asterisk lies inside of the first label. -/
theorem Scanned.getElem?_asterisk {name : Bytes} {period : Option Nat} {i : Nat}
    (h : Scanned name period (some i)) :
    i < (nextLabel name).1.length ∧ name[i]? = some asciiAsterisk := by
  obtain ⟨before, after, hlabel, rfl⟩ := h.exists_label
  obtain ⟨before', after', heq, hlength, -⟩ := h.asterisk _ rfl
  refine ⟨by simp [hlabel], ?_⟩
  rw [heq, ← hlength]
  simp

/-- The parts of the wildcard label, and the room for both of them in a label of
the target that is long enough. -/
theorem Scanned.slices {baseName : Bytes} {period : Option Nat} {i : Nat}
    (h : Scanned baseName period (some i)) (target : PreparedServerHostname) :
    ∃ label rest targetLabel targetRest before after,
      splitAroundIndex baseName period = some (label, rest) ∧
      splitAroundIndex target.bytes target.firstPeriodIndex = some (targetLabel, targetRest) ∧
      splitAroundIndex label (some i) = some (before, after) ∧
      (label.length ≤ targetLabel.length →
        before.length ≤ targetLabel.length ∧ after.length ≤ targetLabel.length ∧
          before.length ≤ targetLabel.length - after.length) := by
  obtain ⟨before, after, hlabel, rfl⟩ := h.exists_label
  refine ⟨(nextLabel baseName).1, (nextLabel baseName).2, (nextLabel target.bytes).1,
    (nextLabel target.bytes).2, before, after, ?_, ?_, ?_, ?_⟩
  · rw [h.firstPeriod, splitAroundIndex_findIdx?]
  · rw [target.indexed, splitAroundIndex_findIdx?]
  · rw [hlabel]
    exact splitAroundIndex_some before after asciiAsterisk
  · intro hlength
    rw [hlabel, List.length_append, List.length_cons] at hlength
    omega

/-- Matching a host name with a certificate name, whatever the two are: the
recorded indices point at the first period and into the first label, and every
slice is in range. -/
theorem hostname_matching_in_bounds (hostname name : Bytes) :
    (∀ host, PreparedServerHostname.new hostname = some host →
      PointsAtFirstPeriod host.bytes host.firstPeriodIndex) ∧
    AnalysedCertificateHostname.newSliced name = some (AnalysedCertificateHostname.new name) ∧
    (∀ baseName i period,
      AnalysedCertificateHostname.new name = some (.wildcard baseName i period) →
      PointsAtFirstPeriod baseName period ∧ i < (nextLabel baseName).1.length ∧
        baseName[i]? = some asciiAsterisk) ∧
    ∀ host analysed, PreparedServerHostname.new hostname = some host →
      AnalysedCertificateHostname.new name = some analysed →
      (∃ matched, analysed.validMatchForName host = some matched) ∧
      ∀ baseName i period, analysed = .wildcard baseName i period →
        ∃ label rest targetLabel targetRest before after,
          splitAroundIndex baseName period = some (label, rest) ∧
          splitAroundIndex host.bytes host.firstPeriodIndex = some (targetLabel, targetRest) ∧
          splitAroundIndex label (some i) = some (before, after) ∧
          (label.length ≤ targetLabel.length →
            before.length ≤ targetLabel.length ∧ after.length ≤ targetLabel.length ∧
              before.length ≤ targetLabel.length - after.length) := by
  refine ⟨?_, AnalysedCertificateHostname.newSliced_eq name, ?_, ?_⟩
  · intro host _
    exact pointsAtFirstPeriod_of_findIdx? host.indexed
  · intro baseName i period hnew
    have hscanned := AnalysedCertificateHostname.scanned_of_new hnew
    exact ⟨pointsAtFirstPeriod_of_findIdx? hscanned.firstPeriod, hscanned.getElem?_asterisk⟩
  · intro host analysed _ hnew
    refine ⟨validMatchForName_isSome hnew host, ?_⟩
    rintro baseName i period rfl
    exact (AnalysedCertificateHostname.scanned_of_new hnew).slices host

/-- A host name of one period and the name `*.`: nothing is left of the first, and
the second has no period any more. -/
theorem hostname_matching_in_bounds_period :
    ∃ host analysed, PreparedServerHostname.new [asciiPeriod] = some host ∧
      AnalysedCertificateHostname.new [asciiAsterisk, asciiPeriod] = some analysed ∧
      ∃ matched, analysed.validMatchForName host = some matched := by
  have hname : stripTrailingPeriod [asciiAsterisk, asciiPeriod] = [] ++ asciiAsterisk :: [] := by
    decide
  have hidna : ¬ asciiIdnaIdentifier <+: canonical [asciiAsterisk, asciiPeriod] := by
    rw [asciiIdnaIdentifier_eq]
    decide
  obtain ⟨i, period, hnew⟩ :=
    AnalysedCertificateHostname.new_wildcard hname (by simp) List.not_mem_nil hidna
  have hhost : PreparedServerHostname.new [asciiPeriod] = some ⟨[], none, rfl⟩ := rfl
  exact ⟨_, _, hhost, hnew, ((hostname_matching_in_bounds _ _).2.2.2 _ _ hhost hnew).1⟩

/-! ## 2. A-labels -/

/-- A trailing period is not part of the first label. -/
theorem nextLabel_stripTrailingPeriod (name : Bytes) :
    (nextLabel (stripTrailingPeriod name)).1 = (nextLabel name).1 := by
  rcases trailing_period_cases name with ⟨init, rfl⟩ | hlast
  · rw [stripTrailingPeriod_concat]
    rcases nextLabel_spec init with ⟨hlabel, hinit | ⟨hinit, -⟩⟩
    · rw [hinit, List.append_assoc, List.cons_append, nextLabel_append hlabel,
        nextLabel_append hlabel]
    · rw [hinit, nextLabel_append hlabel, ← hinit]
      exact hinit.symm
  · rw [stripTrailingPeriod_eq_self hlast]

/-- The first label of a prepared host name. -/
theorem PreparedServerHostname.nextLabel_of_new {hostname : Bytes} {host : PreparedServerHostname}
    (h : new hostname = some host) :
    (nextLabel host.bytes).1 = lowercase (nextLabel hostname).1 := by
  rw [(new_eq_some h).2, canonical, nextLabel_lowercase, nextLabel_stripTrailingPeriod]

theorem exists_nextLabel_suffix (name : Bytes) : ∃ rest, name = (nextLabel name).1 ++ rest := by
  rcases (nextLabel_spec name).2 with hname | ⟨hname, -⟩
  · exact ⟨_, hname⟩
  · exact ⟨[], by rwa [List.append_nil]⟩

/-- The text before the asterisk of a name that matches: it is the beginning of
the first label of the host name, and does not begin with the identifier itself. -/
theorem before_of_matchHostname {hostname dnsName before after : Bytes}
    (hlabel : (nextLabel dnsName).1 = before ++ asciiAsterisk :: after)
    (h : matchHostname (PreparedServerHostname.new hostname) dnsName = some true) :
    lowercase before <+: lowercase (nextLabel hostname).1 ∧
      ¬ asciiIdnaIdentifier <+: lowercase before := by
  cases hnew : PreparedServerHostname.new hostname with
  | none =>
    rw [hnew] at h
    cases h
  | some host =>
    rw [hnew] at h
    simp only [matchHostname] at h
    split at h
    · cases h
    next analysed hanalysed =>
    rw [← nextLabel_stripTrailingPeriod] at hlabel
    obtain ⟨rest, hrest⟩ := exists_nextLabel_suffix (stripTrailingPeriod dnsName)
    rw [hlabel, List.append_assoc, List.cons_append] at hrest
    have hmem : asciiAsterisk ∈ stripTrailingPeriod dnsName := by
      rw [hrest]
      simp
    obtain ⟨hidna, before', after', heq, -, hvalid⟩ :=
      (AnalysedCertificateHostname.valid_of_new hanalysed).resolve_left (not_valid_asterisk hmem)
    rcases AnalysedCertificateHostname.new_cases hanalysed with
      ⟨hasterisk, -⟩ | ⟨i, period, hscanned, rfl⟩
    · exact absurd hmem hasterisk
    obtain ⟨rfl, rfl⟩ := valid_around_asterisk hvalid (heq.symm.trans hrest)
    have hvalid' : ∀ b ∈ lowercase before' ++ lowercase after, isValidDnsCharacter b = true := by
      rw [lowercase, lowercase, ← List.map_append]
      refine isValidDnsCharacter_lowercase.mpr fun b hb => hvalid b ?_
      rw [← List.append_assoc]
      exact List.mem_append_left _ hb
    obtain ⟨pre, suf, hpre, hiff⟩ := validMatchForName_wildcard_iff hscanned
      (PreparedServerHostname.lowercase_of_new hnew)
    obtain ⟨-, filling, -, hfilling⟩ := hiff.mp h
    rw [nextLabel_lowercase, hlabel, lowercase_around_asterisk] at hpre
    obtain ⟨rfl, rfl⟩ := valid_around_asterisk hvalid' hpre
    refine ⟨?_, fun hstart => hidna (hstart.trans ?_)⟩
    · rw [← PreparedServerHostname.nextLabel_of_new hnew, hfilling]
      exact List.prefix_append _ _
    · rw [canonical, heq, lowercase_around_asterisk]
      exact List.prefix_append _ _

theorem inits_asciiIdnaIdentifier :
    asciiIdnaIdentifier.inits =
      [[], bytes "x", bytes "xn", bytes "xn-"] ++ [asciiIdnaIdentifier] := by
  decide +kernel

/-- A wildcard label matches no host name that begins with an A-label, except for
those wildcards whose asterisk stands for a part of the identifier `xn--`. -/
theorem partial_wildcard_a_label (hostname dnsName before after : Bytes)
    (hlabel : (nextLabel dnsName).1 = before ++ asciiAsterisk :: after)
    (hbefore : lowercase before ∉ [[], bytes "x", bytes "xn", bytes "xn-"])
    (hhost : asciiIdnaIdentifier <+: lowercase (nextLabel hostname).1) :
    matchHostname (PreparedServerHostname.new hostname) dnsName = some false := by
  obtain ⟨matched, hmatched⟩ :=
    matchHostname_isSome (PreparedServerHostname.new hostname) dnsName
  cases matched with
  | false => exact hmatched
  | true =>
    obtain ⟨hstart, hidna⟩ := before_of_matchHostname hlabel hmatched
    have hshort : lowercase before <+: asciiIdnaIdentifier :=
      (List.prefix_or_prefix_of_prefix hstart hhost).resolve_right hidna
    rw [← List.mem_inits, inits_asciiIdnaIdentifier, List.mem_append, List.mem_singleton] at hshort
    rcases hshort with hmem | heq
    · exact absurd hmem hbefore
    · exact absurd (heq ▸ List.prefix_rfl) hidna

/-- A wildcard label that begins with the identifier. -/
theorem partial_wildcard_a_label_identifier :
    matchHostname (PreparedServerHostname.new (bytes "xn--anything.example.com"))
      (bytes "xn--*.example.com") = some false := by
  refine partial_wildcard_a_label _ _ (bytes "xn--") [] ?_ ?_ ?_
  · decide +kernel
  · decide +kernel
  · decide +kernel

/-- Wildcard labels whose asterisk stands for a part of the identifier. -/
theorem partial_wildcard_matches_a_label :
    asciiIdnaIdentifier <+: lowercase (nextLabel (bytes "xn--abc.example.com")).1 ∧
    ∀ dnsName ∈ [bytes "*c.example.com", bytes "x*.example.com", bytes "Xn*.example.com",
        bytes "xn-*c.example.com"],
      (asciiAsterisk ∈ (nextLabel dnsName).1 ∧ 1 < (nextLabel dnsName).1.length) ∧
      matchHostname (PreparedServerHostname.new (bytes "xn--abc.example.com")) dnsName =
        some true := by
  decide +kernel

end X509Validator
