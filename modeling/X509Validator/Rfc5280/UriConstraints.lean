import X509Validator.Rfc5280.DnsNames
import X509Validator.Lib.IpText

/-!
# URI constraints

A constraint on URIs applies to the host part of the URI, which must be a host
name and not an IP address. The URI is read as bytes; all the characters that
the code looks for are ASCII, so that their positions in the bytes and in the
string are the same.

The host is found by a series of searches for the first or last occurrence of a
character. `extractHost_eq_some` says what they find.

Results:
1. `uri_name_matches_constraint_eq`: in a URI that is put together from its
   components, the components around the host do not matter.
2. `authority_of_match_iff`: conversely, when a URI that matches is put together
   in this way. The code does not look at the scheme and at the port.
-/

namespace X509Validator

open Ascii

/-- `split_once`: what stands before and after the first `separator`. -/
def splitOnce (separator : Bytes) : Bytes → Option (Bytes × Bytes)
  | [] => if separator.isEmpty then some ([], []) else none
  | byte :: rest =>
    if separator.isPrefixOf (byte :: rest) then
      some ([], (byte :: rest).drop separator.length)
    else
      (splitOnce separator rest).map fun (before, after) => (byte :: before, after)

/-- `str::from_utf8`. -/
def isUtf8 (value : Bytes) : Bool := (ByteArray.mk value.toArray).validateUTF8

def extractHost (uri : Bytes) : Option Bytes := do
  guard (isUtf8 uri)
  let (_, afterScheme) ← splitOnce (bytes "://") uri
  -- the authority runs up to the next '/', '?' or '#'
  let authority := afterScheme.takeWhile fun byte => !(bytes "/?#").contains byte
  guard (!authority.isEmpty)
  -- everything up to the last '@' is userinfo
  let hostAndPort := authority.rtakeWhile (· != 64)
  guard (!hostAndPort.isEmpty)
  let host ←
    if hostAndPort.head? == some 91 then
      -- a bracketed IPv6 literal
      if 93 ∈ hostAndPort then some ((hostAndPort.drop 1).takeWhile (· != 93)) else none
    else if 58 ∈ hostAndPort then
      -- the port follows the last ':'
      some (hostAndPort.rdropWhile (· != 58)).dropLast
    else
      some hostAndPort
  guard (!host.isEmpty)
  return lowercase host

def isIpAddress (host : Bytes) : Bool :=
  (IpText.parseIpv4Addr host).isSome || (IpText.parseIpv6Addr host).isSome

/-- `NameConstraintsPolicy::uri_name_matches_constraint`. -/
def uriNameMatchesConstraint (uriName constraint : Bytes) : Bool :=
  match extractHost uriName with
  | none => false
  | some host => if isIpAddress host then false else dnsNameMatchesConstraint host constraint

/-! ## Strings as bytes -/

theorem toList_loop_eq (array : ByteArray) (i : Nat) (read : List UInt8) :
    ByteArray.toList.loop array i read = read.reverse ++ array.data.toList.drop i := by
  fun_induction ByteArray.toList.loop array i read with
  | case1 i read hlt ih =>
    have hlt' : i < array.data.size := hlt
    have hget : array.get! i = array.data.toList[i] := by
      cases array with
      | mk data => simp [ByteArray.get!, hlt']
    rw [ih, List.reverse_cons, List.append_assoc, List.singleton_append, hget]
    exact congrArg _ (List.drop_eq_getElem_cons _).symm
  | case2 i read hge =>
    have hsize : array.data.size ≤ i := Nat.le_of_not_lt hge
    rw [List.drop_eq_nil_of_le (by simpa using hsize), List.append_nil]

theorem bytes_eq (s : String) : bytes s = s.toByteArray.data.toList := by
  rw [bytes, ByteArray.toList, toList_loop_eq]
  rfl

theorem bytes_append (s t : String) : bytes (s ++ t) = bytes s ++ bytes t := by
  simp only [bytes_eq, String.toByteArray_append, ByteArray.toList_data_append]

theorem bytes_eq_nil_iff {s : String} : bytes s = [] ↔ s = "" := by
  rw [bytes_eq, Array.toList_eq_nil_iff, ← String.toByteArray_inj]
  exact ⟨fun h => ByteArray.ext h, fun h => by rw [h]; rfl⟩

theorem isUtf8_bytes (s : String) : isUtf8 (bytes s) = true := by
  rw [isUtf8, bytes_eq, Array.toArray_toList, ByteArray.validateUTF8_eq_true_iff]
  exact s.isValidUTF8

/-- The strings that the code and its specification look for. -/
theorem bytes_literals :
    bytes "://" = 58 :: [47, 47] ∧ bytes "/?#" = [47, 63, 35] ∧
      bytes "/?#@:" = [47, 63, 35, 64, 58] ∧ bytes "@" = [64] ∧ bytes ":" = [58] ∧
      bytes "+-." = [43, 45, 46] := by
  decide +kernel

theorem bytes_separator : bytes "://" = 58 :: [47, 47] := bytes_literals.1

theorem bytes_ends : bytes "/?#" = [47, 63, 35] := bytes_literals.2.1

theorem bytes_delimiters : bytes "/?#@:" = [47, 63, 35, 64, 58] := bytes_literals.2.2.1

theorem bytes_at : bytes "@" = [64] := bytes_literals.2.2.2.1

theorem bytes_colon : bytes ":" = [58] := bytes_literals.2.2.2.2.1

theorem bytes_marks : bytes "+-." = [43, 45, 46] := bytes_literals.2.2.2.2.2

/-! ## The searches -/

theorem eq_of_splitOnce {separator uri before after : Bytes}
    (h : splitOnce separator uri = some (before, after)) : uri = before ++ separator ++ after := by
  induction uri generalizing before with
  | nil =>
    rw [splitOnce] at h
    split at h
    · next hempty =>
      cases h
      simpa using hempty
    · cases h
  | cons byte uri ih =>
    rw [splitOnce] at h
    split at h
    · next hbegins =>
      cases h
      exact (List.prefix_iff_eq_append.mp (List.isPrefixOf_iff_prefix.mp hbegins)).symm
    · obtain ⟨⟨before', after'⟩, hsplit, hresult⟩ := Option.map_eq_some_iff.mp h
      cases hresult
      rw [ih hsplit]
      rfl

/-- A separator whose first byte does not come again is found at its first
occurrence, also where what stands before it ends in a part of it. -/
theorem splitOnce_append {byte : UInt8} {separator before : Bytes} (hbyte : byte ∉ separator)
    (h : ¬ (byte :: separator) <:+: before) (after : Bytes) :
    splitOnce (byte :: separator) (before ++ (byte :: separator) ++ after) =
      some (before, after) := by
  induction before with
  | nil =>
    rw [List.nil_append, List.cons_append, splitOnce, if_pos, ← List.cons_append,
      List.drop_left]
    exact List.isPrefixOf_iff_prefix.mpr (List.prefix_append _ _)
  | cons first before ih =>
    have hnot : ¬ (byte :: separator) <+:
        first :: (before ++ (byte :: separator) ++ after) := by
      intro hbegins
      obtain ⟨rfl, hrest⟩ := List.cons_prefix_cons.mp hbegins
      have hconcat : before ++ [byte] <+: before ++ (byte :: separator) ++ after :=
        ⟨separator ++ after, by simp⟩
      rcases List.prefix_or_prefix_of_prefix hrest hconcat with hshort | hlong
      · rcases List.prefix_concat_iff.mp hshort with heq | hshort
        · exact hbyte (by simp [heq])
        · exact h (List.IsPrefix.isInfix (List.cons_prefix_cons.mpr ⟨rfl, hshort⟩))
      · exact hbyte (hlong.subset (by simp))
    rw [List.cons_append, List.cons_append, splitOnce,
      if_neg (mt List.isPrefixOf_iff_prefix.mp hnot),
      ih fun hinside => h (hinside.trans (List.suffix_cons first before).isInfix)]
    rfl

/-- The bytes that end an authority. -/
def endsAuthority (byte : UInt8) : Bool := (bytes "/?#").contains byte

/-- The part of the authority after the userinfo, as the code finds it in what
comes after the scheme. -/
def hostAndPortOf (afterScheme : Bytes) : Bytes :=
  (afterScheme.takeWhile fun byte => !endsAuthority byte).rtakeWhile (· != 64)

/-- The host in it, as the code finds it. -/
def hostOf (hostAndPort : Bytes) : Option Bytes :=
  if hostAndPort.head? == some 91 then
    if 93 ∈ hostAndPort then some ((hostAndPort.drop 1).takeWhile (· != 93)) else none
  else if 58 ∈ hostAndPort then
    some (hostAndPort.rdropWhile (· != 58)).dropLast
  else
    some hostAndPort

/-- The host after the scheme, as the code finds it. -/
def hostAfterScheme (afterScheme : Bytes) : Option Bytes :=
  (hostOf (hostAndPortOf afterScheme)).bind fun host =>
    if host = [] then none else some (lowercase host)

/-- The checks for an empty authority are covered by that for an empty host. -/
theorem extractHost_eq (uri : Bytes) :
    extractHost uri =
      if isUtf8 uri then (splitOnce (bytes "://") uri).bind fun r => hostAfterScheme r.2
      else none := by
  unfold extractHost
  by_cases hutf8 : isUtf8 uri = true
  · cases hsplit : splitOnce (bytes "://") uri with
    | none => simp [guard, hutf8]
    | some r =>
      simp only [guard, hutf8, ↓reduceIte, Option.pure_def, Option.bind_eq_bind,
        Option.bind_some]
      show _ = hostAfterScheme r.2
      unfold hostAfterScheme hostAndPortOf endsAuthority
      generalize (r.2.takeWhile fun byte => !(bytes "/?#").contains byte) = authority
      by_cases hauthority : authority = []
      · simp [hauthority, hostOf]
      · generalize hhostAndPort : authority.rtakeWhile (· != 64) = hostAndPort
        by_cases hempty : hostAndPort = []
        · simp [hauthority, hempty, hostOf]
        · unfold hostOf
          have hguard (l : Bytes) (hl : l ≠ []) : (!l.isEmpty) = true := by simpa using hl
          rw [if_pos (hguard _ hauthority), if_pos (hguard _ hempty)]
          simp only [Option.bind_some]
          have hlast (host : Bytes) :
              ((if (!host.isEmpty) = true then some () else failure).bind fun _ =>
                some (lowercase host)) = if host = [] then none else some (lowercase host) := by
            cases host <;> rfl
          simp only [hlast]
          split
          · split <;> rfl
          · split
            · rfl
            · simp [hempty]
  · simp only [guard, hutf8]
    rfl

theorem hostAfterScheme_eq_some {afterScheme host : Bytes} :
    hostAfterScheme afterScheme = some host ↔
      ∃ host', hostOf (hostAndPortOf afterScheme) = some host' ∧ host' ≠ [] ∧
        host = lowercase host' := by
  unfold hostAfterScheme
  rw [Option.bind_eq_some_iff]
  refine exists_congr fun host' => and_congr_right fun _ => ?_
  by_cases hempty : host' = []
  · simp [hempty]
  · simp [hempty, eq_comm]

/-! ## Hosts that are no addresses -/

/-- The last label has a byte that is no digit. -/
theorem exists_isNonNumeric_of_scanLabels {isConstraint : Bool} {name : Bytes}
    {labelCount m : Nat} (hne : name ≠ []) (h : scanLabels isConstraint name labelCount = some m) :
    ∃ b ∈ name, isNonNumeric b = true := by
  fun_induction scanLabels isConstraint name labelCount with
  | case1 labelCount => exact absurd rfl hne
  | case3 name labelCount _ hinvalid => cases h
  | case2 name labelCount _ hvalid ih =>
    have hname := (nextLabel_spec name).2
    generalize (nextLabel name).1 = label at *
    generalize (nextLabel name).2 = rest at *
    by_cases hrest : rest = []
    · subst hrest
      obtain ⟨-, -, -, -, -, hlast⟩ := labelIsValid_eq_true.mp hvalid
      obtain ⟨b, hb, hnonNumeric⟩ := hlast rfl
      refine ⟨b, ?_, hnonNumeric⟩
      rcases hname with rfl | ⟨rfl, -⟩
      · exact List.mem_append_left _ hb
      · exact hb
    · obtain ⟨b, hb, hnonNumeric⟩ := ih hrest h
      refine ⟨b, ?_, hnonNumeric⟩
      rw [hname.resolve_right fun h => hrest h.2]
      exact List.mem_append_right _ (List.mem_cons_of_mem _ hb)

/-- A valid name is no address in text form. -/
theorem isIpAddress_eq_false {name : Bytes} (h : isValidDnsName name false = true) :
    isIpAddress name = false := by
  have hcolon : (58 : UInt8) ∉ name := by
    intro hmem
    exact absurd (isValidDnsName_bytes h _ hmem) (by decide)
  have hipv4 : IpText.parseIpv4Addr name = none := by
    cases hparse : IpText.parseIpv4Addr name with
    | none => rfl
    | some addr =>
      have hbytes := (IpText.parseIpv4Addr_eq_some hparse).2
      have hnonNumeric : ∀ b : UInt8, isNonNumeric b = true → ¬ (isAsciiDigit b = true ∨ b = 46) :=
        forall_uint8 (by decide +kernel)
      rcases isValidDnsName_cases h with ⟨rest, m, rfl, -⟩ | ⟨-, m, hscan⟩
      · exact absurd (hbytes asciiAsterisk List.mem_cons_self) (by decide)
      · by_cases hne : name = []
        · subst hne
          cases hparse
        · obtain ⟨b, hb, hb'⟩ := exists_isNonNumeric_of_scanLabels hne hscan
          exact absurd (hbytes b hb) (hnonNumeric b hb')
  rw [isIpAddress, hipv4, IpText.parseIpv6Addr_eq_none hcolon]
  rfl

/-- Whether the host is an address makes no difference to the comparison. -/
theorem uriNameMatchesConstraint_iff {uriName constraint : Bytes} :
    uriNameMatchesConstraint uriName constraint = true ↔
      ∃ host, extractHost uriName = some host ∧ dnsNameMatchesConstraint host constraint = true := by
  unfold uriNameMatchesConstraint
  cases hhost : extractHost uriName with
  | none => simp
  | some host =>
    simp only [Option.some.injEq, exists_eq_left']
    split
    · next haddress =>
      simp only [Bool.false_eq_true, false_iff]
      intro hmatch
      rw [isIpAddress_eq_false (dnsNameMatchesConstraint_iff.mp hmatch).1] at haddress
      cases haddress
    · rfl

/-! ## 1. The components around the host -/

/-- The userinfo of an authority, with the character after it. -/
def userinfoPart (userinfo : Option Bytes) : Bytes := userinfo.elim [] (· ++ [64])

/-- The port of an authority, with the character before it. -/
def portPart (port : Option Bytes) : Bytes := port.elim [] (58 :: ·)

/-- `[userinfo "@"] host [":" port]`. -/
def authorityOf (userinfo : Option Bytes) (host : Bytes) (port : Option Bytes) : Bytes :=
  userinfoPart userinfo ++ (host ++ portPart port)

theorem forall_mem_userinfoPart {userinfo : Option Bytes} {P : UInt8 → Prop}
    (hat : P 64) (h : ∀ u ∈ userinfo, ∀ b ∈ u, P b) : ∀ b ∈ userinfoPart userinfo, P b := by
  cases userinfo with
  | none => simp [userinfoPart]
  | some userinfo => exact List.forall_mem_append.mpr ⟨h userinfo rfl, by simpa using hat⟩

theorem forall_mem_portPart {port : Option Bytes} {P : UInt8 → Prop}
    (hcolon : P 58) (h : ∀ p ∈ port, ∀ b ∈ p, P b) : ∀ b ∈ portPart port, P b := by
  cases port with
  | none => simp [portPart]
  | some port => exact List.forall_mem_cons.mpr ⟨hcolon, h port rfl⟩

section

variable {port : Option Bytes} {b : UInt8}

theorem not_mem_port (hport : ∀ p ∈ port, ∀ b ∈ p, isAsciiDigit b = true)
    (hb : isAsciiDigit b = false) : ∀ p ∈ port, b ∉ p := by
  intro p hp hmem
  rw [hport p hp b hmem] at hb
  cases hb

theorem not_mem_portPart (hport : ∀ p ∈ port, ∀ b ∈ p, isAsciiDigit b = true)
    (hb : isAsciiDigit b = false) (hcolon : b ≠ 58) : b ∉ portPart port := by
  have hne : ∀ c ∈ portPart port, b ≠ c := by
    refine forall_mem_portPart hcolon fun p hp c hc => ?_
    rintro rfl
    exact not_mem_port hport hb p hp hc
  exact fun hmem => hne b hmem rfl

end

theorem hostAndPortOf_authority {userinfo : Option Bytes} {hostAndPort rest : Bytes}
    (hauthority : ∀ b ∈ userinfoPart userinfo ++ hostAndPort, endsAuthority b = false)
    (hat : 64 ∉ hostAndPort) (hrest : ∀ b ∈ rest.head?, endsAuthority b = true) :
    hostAndPortOf (userinfoPart userinfo ++ hostAndPort ++ rest) = hostAndPort := by
  unfold hostAndPortOf
  rw [Split.takeWhile_append (fun b hb => by simp [hauthority b hb])
    (fun b hb => by simp [hrest b hb])]
  cases userinfo with
  | none => exact Split.rtakeWhile_of_not_mem hat
  | some userinfo =>
    rw [userinfoPart, Option.elim_some, List.append_assoc, List.singleton_append]
    exact Split.rtakeWhile_bne hat

theorem hostOf_portPart {host : Bytes} {port : Option Bytes} (hne : host ≠ [])
    (hbracket : host.head? ≠ some 91) (hcolon : 58 ∉ host) (hport : ∀ p ∈ port, 58 ∉ p) :
    hostOf (host ++ portPart port) = some host := by
  have hhead : ¬ ((host ++ portPart port).head? == some 91) = true := by
    obtain ⟨first, rest, rfl⟩ := List.exists_cons_of_ne_nil hne
    simpa using hbracket
  rw [hostOf, if_neg hhead]
  cases port with
  | none =>
    rw [portPart, Option.elim_none, List.append_nil, if_neg hcolon]
  | some port =>
    rw [portPart, Option.elim_some, if_pos (by simp), Split.rdropWhile_bne (hport port rfl),
      List.dropLast_concat]

theorem bytes_userinfo (userinfo : Option String) :
    bytes (userinfo.elim "" (· ++ "@")) = userinfoPart (userinfo.map bytes) := by
  cases userinfo with
  | none => exact bytes_eq_nil_iff.mpr rfl
  | some userinfo => simp [userinfoPart, bytes_append, bytes_at]

theorem bytes_port (port : Option String) :
    bytes (port.elim "" (":" ++ ·)) = portPart (port.map bytes) := by
  cases port with
  | none => exact bytes_eq_nil_iff.mpr rfl
  | some port => simp [portPart, bytes_append, bytes_colon]

/-- The host that the code finds in a URI put together from its components. -/
theorem extractHost_authority {uri : Bytes} (scheme host rest : Bytes)
    (userinfo port : Option Bytes) (hutf8 : isUtf8 uri = true)
    (huri : uri = scheme ++ bytes "://" ++ (authorityOf userinfo host port ++ rest))
    (hscheme : ¬ bytes "://" <:+: scheme)
    (hauthority : ∀ b ∈ authorityOf userinfo host port, endsAuthority b = false)
    (hne : host ≠ []) (hbracket : host.head? ≠ some 91) (hat : 64 ∉ host) (hcolon : 58 ∉ host)
    (hport : ∀ p ∈ port, ∀ b ∈ p, isAsciiDigit b = true)
    (hrest : ∀ b ∈ rest.head?, endsAuthority b = true) :
    extractHost uri = some (lowercase host) := by
  have hat' : 64 ∉ host ++ portPart port := by
    rw [List.mem_append, not_or]
    exact ⟨hat, not_mem_portPart hport (by decide) (by decide)⟩
  rw [extractHost_eq, if_pos hutf8, huri]
  rw [bytes_separator] at hscheme ⊢
  rw [splitOnce_append (by decide) hscheme, Option.bind_some, hostAfterScheme_eq_some]
  refine ⟨host, ?_, hne, rfl⟩
  show hostOf (hostAndPortOf (authorityOf userinfo host port ++ rest)) = some host
  rw [authorityOf, hostAndPortOf_authority hauthority hat' hrest]
  exact hostOf_portPart hne hbracket hcolon (not_mem_port hport (by decide))

/-- Whatever scheme, userinfo, port, path, query and fragment stand around the
host, the URI satisfies the constraints that the host satisfies. -/
theorem uri_name_matches_constraint_eq (scheme host rest : String)
    (userinfo port : Option String) (constraint : Bytes)
    (hscheme : ¬ bytes "://" <:+: bytes scheme)
    (huserinfo : ∀ u ∈ userinfo, ∀ b ∈ bytes u, b ∉ bytes "/?#")
    (hne : host ≠ "") (hhost : ∀ b ∈ bytes host, b ∉ bytes "/?#@:")
    (hbracket : (bytes host).head? ≠ some 91)
    (hport : ∀ p ∈ port, ∀ b ∈ bytes p, isAsciiDigit b = true)
    (hrest : rest = "" ∨ ∃ b ∈ bytes "/?#", (bytes rest).head? = some b) :
    uriNameMatchesConstraint
        (bytes (scheme ++ "://" ++ userinfo.elim "" (· ++ "@") ++ host ++
          port.elim "" (":" ++ ·) ++ rest)) constraint =
      dnsNameMatchesConstraint (bytes host) constraint := by
  have hends {b : UInt8} : endsAuthority b = true ↔ b ∈ bytes "/?#" := by simp [endsAuthority]
  rw [bytes_ends] at hends hrest huserinfo
  rw [bytes_delimiters] at hhost
  have hdigit (b : UInt8) (hb : isAsciiDigit b = true) : b ∉ [47, 63, 35] := by
    intro hmem
    simp only [List.mem_cons, List.not_mem_nil, or_false] at hmem
    rcases hmem with rfl | rfl | rfl <;> exact absurd hb (by decide)
  have hextract : extractHost (bytes (scheme ++ "://" ++ userinfo.elim "" (· ++ "@") ++ host ++
      port.elim "" (":" ++ ·) ++ rest)) = some (lowercase (bytes host)) := by
    refine extractHost_authority (bytes scheme) (bytes host) (bytes rest) (userinfo.map bytes)
      (port.map bytes) (isUtf8_bytes _) ?_ hscheme ?_ ?_ hbracket ?_ ?_ ?_ ?_
    · simp [bytes_append, bytes_userinfo, bytes_port, authorityOf]
    · have hnot {b : UInt8} (hb : b ∉ [47, 63, 35]) : endsAuthority b = false := by
        rwa [← Bool.not_eq_true, hends]
      rw [authorityOf, List.forall_mem_append, List.forall_mem_append]
      refine ⟨forall_mem_userinfoPart (hnot (by decide)) ?_, ?_,
        forall_mem_portPart (hnot (by decide)) ?_⟩
      · simpa using fun u hu b hb => hnot (huserinfo u hu b hb)
      · exact fun b hb => hnot fun hmem => hhost b hb (List.mem_append_left [64, 58] hmem)
      · simpa using fun p hp b hb => hnot (hdigit b (hport p hp b hb))
    · exact mt bytes_eq_nil_iff.mp hne
    · exact fun hmem => hhost 64 hmem (by decide)
    · exact fun hmem => hhost 58 hmem (by decide)
    · simpa using hport
    · intro b hb
      rcases hrest with rfl | ⟨b', hb', hhead⟩
      · rw [bytes_eq_nil_iff.mpr rfl] at hb
        cases hb
      · rw [Option.mem_def, hhead] at hb
        exact hends.mpr (Option.some.inj hb ▸ hb')
  have hcongr := dnsNameMatchesConstraint_congr (lowercase_lowercase (bytes host)) constraint
  rw [Bool.eq_iff_iff, uriNameMatchesConstraint_iff, hextract, ← hcongr]
  simp

/-- A userinfo with both separators in it, and another URI in the query. -/
theorem uri_name_matches_constraint_eq_example :
    (¬ bytes "://" <:+: bytes "http" ∧ "www.Example.com" ≠ "") ∧
    uriNameMatchesConstraint
      (bytes "http://a@b:c@www.Example.com:8080/?next=ftp://user@other.org") (bytes ".example.com") =
        dnsNameMatchesConstraint (bytes "www.Example.com") (bytes ".example.com") ∧
    dnsNameMatchesConstraint (bytes "www.Example.com") (bytes ".example.com") = true := by
  refine ⟨⟨by decide +kernel, by decide⟩, ?_, by decide +kernel⟩
  exact uri_name_matches_constraint_eq "http" "www.Example.com" "/?next=ftp://user@other.org"
    (some "a@b:c") (some "8080") (bytes ".example.com") (by decide +kernel)
    (by simpa using (by decide +kernel : ∀ b ∈ bytes "a@b:c", b ∉ bytes "/?#")) (by decide)
    (by decide +kernel) (by decide +kernel)
    (by simpa using (by decide +kernel : ∀ b ∈ bytes "8080", isAsciiDigit b = true))
    (.inr ⟨47, by decide +kernel, by decide +kernel⟩)

/-! ## 2. Matches and authorities -/

/-- A scheme: a letter, and then letters, digits, `+`, `-` and `.`. -/
def IsScheme (scheme : Bytes) : Prop :=
  ∃ first rest, scheme = first :: rest ∧ isAsciiAlphabetic first = true ∧
    ∀ b ∈ rest, isAsciiAlphanumeric b = true ∨ b ∈ bytes "+-."

/-- The URI has an authority component with this host. -/
def HasAuthority (uri host : Bytes) : Prop :=
  ∃ scheme userinfo port rest,
    uri = scheme ++ bytes "://" ++ (authorityOf userinfo host port ++ rest) ∧
    IsScheme scheme ∧
    (∀ b ∈ authorityOf userinfo host port, endsAuthority b = false) ∧
    (∀ p ∈ port, ∀ b ∈ p, isAsciiDigit b = true) ∧
    ∀ b ∈ rest.head?, endsAuthority b = true

/-- A host name that satisfies the constraint. -/
def IsMatchingHost (host constraint : Bytes) : Prop :=
  host ≠ [] ∧ isValidDnsName host false = true ∧ isIpAddress host = false ∧
    dnsNameMatchesConstraint host constraint = true

/-- What the code takes for granted about a URI: a scheme before the first
separator, no bracket before the host, and digits after the last colon. -/
def IsWellFormed (uri : Bytes) : Prop :=
  ∀ scheme afterScheme, splitOnce (bytes "://") uri = some (scheme, afterScheme) →
    IsScheme scheme ∧ (hostAndPortOf afterScheme).head? ≠ some 91 ∧
    (58 ∈ hostAndPortOf afterScheme →
      ∀ b ∈ (hostAndPortOf afterScheme).rtakeWhile (· != 58), isAsciiDigit b = true)

/-- The separator does not begin inside of a scheme. -/
theorem splitOnce_of_isScheme {scheme : Bytes} (h : IsScheme scheme) (after : Bytes) :
    splitOnce (bytes "://") (scheme ++ bytes "://" ++ after) = some (scheme, after) := by
  obtain ⟨first, rest, rfl, hfirst, hrest⟩ := h
  rw [bytes_separator]
  rw [bytes_marks] at hrest
  refine splitOnce_append (by decide) (fun hinside => ?_) after
  rcases List.mem_cons.mp (hinside.subset List.mem_cons_self) with rfl | hmem
  · exact absurd hfirst (by decide)
  · exact absurd (hrest _ hmem) (by decide)

theorem not_mem_of_isValidDnsName {host : Bytes} {b : UInt8}
    (h : isValidDnsName host false = true)
    (hb : ¬ (isLabelByte b = true ∨ b = asciiPeriod ∨ b = asciiAsterisk)) : b ∉ host :=
  fun hmem => hb (isValidDnsName_bytes h b hmem)

/-- An authority component with a valid host has what the code takes for granted. -/
theorem isWellFormed_of_hasAuthority {uri host : Bytes} (h : HasAuthority uri host)
    (hvalid : isValidDnsName host false = true) : IsWellFormed uri := by
  obtain ⟨scheme, userinfo, port, rest, rfl, hscheme, hauthority, hport, hrest⟩ := h
  have hcolon : 58 ∉ host := not_mem_of_isValidDnsName hvalid (by decide)
  have hbracket : 91 ∉ host := not_mem_of_isValidDnsName hvalid (by decide)
  have hat : 64 ∉ host ++ portPart port := by
    rw [List.mem_append, not_or]
    exact ⟨not_mem_of_isValidDnsName hvalid (by decide),
      not_mem_portPart hport (by decide) (by decide)⟩
  intro scheme' afterScheme hsplit
  rw [splitOnce_of_isScheme hscheme] at hsplit
  obtain ⟨rfl, rfl⟩ := Prod.mk.inj (Option.some.inj hsplit)
  rw [authorityOf, hostAndPortOf_authority hauthority hat hrest]
  refine ⟨hscheme, fun hhead => ?_, fun hmem => ?_⟩
  · rcases List.mem_append.mp (List.mem_of_head? hhead) with hmem | hmem
    · exact hbracket hmem
    · exact not_mem_portPart hport (by decide) (by decide) hmem
  · cases port with
    | none =>
      rw [portPart, Option.elim_none, List.append_nil] at hmem
      exact absurd hmem hcolon
    | some port =>
      rw [portPart, Option.elim_some, Split.rtakeWhile_bne (not_mem_port hport (by decide) port rfl)]
      exact hport port rfl

/-- The authority around what the code finds as host and port. -/
theorem exists_authority (afterScheme : Bytes) :
    ∃ userinfo rest, afterScheme = userinfoPart userinfo ++ hostAndPortOf afterScheme ++ rest ∧
      (∀ b ∈ userinfoPart userinfo ++ hostAndPortOf afterScheme, endsAuthority b = false) ∧
      ∀ b ∈ rest.head?, endsAuthority b = true := by
  obtain ⟨rest, hsplit, hrest⟩ :=
    Split.exists_takeWhile (p := fun byte => !endsAuthority byte) afterScheme
  have hauthority : ∀ b ∈ afterScheme.takeWhile fun byte => !endsAuthority byte,
      endsAuthority b = false := by
    intro b hb
    simpa using List.mem_takeWhile_imp hb
  have hrest : ∀ b ∈ rest.head?, endsAuthority b = true := fun b hb => by simpa using hrest b hb
  unfold hostAndPortOf
  generalize (afterScheme.takeWhile fun byte => !endsAuthority byte) = authority at *
  by_cases hat : 64 ∈ authority
  · obtain ⟨userinfo, hostAndPort, rfl, hhostAndPort⟩ := Split.exists_last hat
    refine ⟨some userinfo, rest, ?_⟩
    rw [Split.rtakeWhile_bne hhostAndPort]
    rw [List.append_cons] at hsplit hauthority
    exact ⟨hsplit, hauthority, hrest⟩
  · refine ⟨none, rest, ?_⟩
    rw [Split.rtakeWhile_of_not_mem hat]
    exact ⟨hsplit, hauthority, hrest⟩

/-- The port after what the code finds as host. -/
theorem exists_portPart {hostAndPort host : Bytes} (h : hostOf hostAndPort = some host)
    (hbracket : hostAndPort.head? ≠ some 91)
    (hport : 58 ∈ hostAndPort →
      ∀ b ∈ hostAndPort.rtakeWhile (· != 58), isAsciiDigit b = true) :
    ∃ port, hostAndPort = host ++ portPart port ∧
      ∀ p ∈ port, ∀ b ∈ p, isAsciiDigit b = true := by
  rw [hostOf, if_neg (by simpa using hbracket)] at h
  split at h
  · next hcolon =>
    obtain ⟨before, port, rfl, hlast⟩ := Split.exists_last hcolon
    rw [Split.rdropWhile_bne hlast, List.dropLast_concat] at h
    rw [Split.rtakeWhile_bne hlast] at hport
    obtain rfl := Option.some.inj h
    refine ⟨some port, rfl, fun p hp => ?_⟩
    obtain rfl := Option.some.inj hp
    exact hport (by simp)
  · obtain rfl := Option.some.inj h
    exact ⟨none, by simp [portPart], by simp⟩

/-- What a match is about: the host that the code finds. -/
theorem exists_host_of_match {uri constraint : Bytes}
    (h : uriNameMatchesConstraint uri constraint = true) :
    ∃ scheme afterScheme host, splitOnce (bytes "://") uri = some (scheme, afterScheme) ∧
      hostOf (hostAndPortOf afterScheme) = some host ∧ IsMatchingHost host constraint := by
  obtain ⟨host', hextract, hmatch⟩ := uriNameMatchesConstraint_iff.mp h
  rw [extractHost_eq] at hextract
  split at hextract
  · obtain ⟨⟨scheme, afterScheme⟩, hsplit, hhost⟩ := Option.bind_eq_some_iff.mp hextract
    obtain ⟨host, hfound, hne, rfl⟩ := hostAfterScheme_eq_some.mp hhost
    rw [dnsNameMatchesConstraint_congr (lowercase_lowercase host)] at hmatch
    have hvalid := (dnsNameMatchesConstraint_iff.mp hmatch).1
    exact ⟨scheme, afterScheme, host, hsplit, hfound, hne, hvalid, isIpAddress_eq_false hvalid,
      hmatch⟩
  · cases hextract

/-- A URI that matches has an authority component with a matching host exactly
when it has what the code takes for granted. -/
theorem authority_of_match_iff (uri constraint : Bytes)
    (h : uriNameMatchesConstraint uri constraint = true) :
    (∃ host, HasAuthority uri host ∧ IsMatchingHost host constraint) ↔ IsWellFormed uri := by
  constructor
  · rintro ⟨host, hauthority, hhost⟩
    exact isWellFormed_of_hasAuthority hauthority hhost.2.1
  · intro hwellFormed
    obtain ⟨scheme, afterScheme, host, hsplit, hhost, hmatching⟩ := exists_host_of_match h
    obtain ⟨hscheme, hbracket, hdigits⟩ := hwellFormed scheme afterScheme hsplit
    obtain ⟨userinfo, rest, hafter, hauthority, hrest⟩ := exists_authority afterScheme
    obtain ⟨port, hhostAndPort, hport⟩ := exists_portPart hhost hbracket hdigits
    rw [hhostAndPort] at hafter hauthority
    refine ⟨host, ⟨scheme, userinfo, port, rest, ?_, hscheme, hauthority, hport, hrest⟩, hmatching⟩
    rw [eq_of_splitOnce hsplit, authorityOf, ← hafter]

theorem authority_of_match_iff_example :
    uriNameMatchesConstraint (bytes "http://example.com:80/") (bytes "example.com") = true ∧
      ∃ host, HasAuthority (bytes "http://example.com:80/") host ∧
        IsMatchingHost host (bytes "example.com") := by
  have hmatch : uriNameMatchesConstraint (bytes "http://example.com:80/") (bytes "example.com") =
      true := by
    decide +kernel
  refine ⟨hmatch, (authority_of_match_iff _ _ hmatch).mpr fun scheme afterScheme hsplit => ?_⟩
  have heq : splitOnce (bytes "://") (bytes "http://example.com:80/") =
      some (bytes "http", bytes "example.com:80/") := by
    decide +kernel
  obtain ⟨rfl, rfl⟩ := Prod.mk.inj (Option.some.inj (heq.symm.trans hsplit))
  exact ⟨⟨104, bytes "ttp", by decide +kernel, by decide, by decide +kernel⟩, by decide +kernel,
    by decide +kernel⟩

/-- A relative reference has no authority component, but its query may hold the
separator. -/
theorem match_without_authority :
    uriNameMatchesConstraint (bytes "/redirect?to=http://example.com") (bytes "example.com") =
        true ∧
      ¬ ∃ host, HasAuthority (bytes "/redirect?to=http://example.com") host ∧
        IsMatchingHost host (bytes "example.com") := by
  refine ⟨by decide +kernel, ?_⟩
  rintro ⟨host, hauthority, hhost⟩
  have hsplit : splitOnce (bytes "://") (bytes "/redirect?to=http://example.com") =
      some (bytes "/redirect?to=http", bytes "example.com") := by
    decide +kernel
  obtain ⟨⟨first, rest, heq, hfirst, -⟩, -⟩ :=
    isWellFormed_of_hasAuthority hauthority hhost.2.1 _ _ hsplit
  have hslash : (bytes "/redirect?to=http").head? = some 47 := by decide +kernel
  rw [heq, List.head?_cons, Option.some.injEq] at hslash
  subst hslash
  exact absurd hfirst (by decide)

end X509Validator
