import X509Validator.Lib.Ascii
import Mathlib.Data.List.TakeWhile

/-!
# IP addresses in text form

The parser behind Rust's `Ipv4Addr::from_str` and `Ipv6Addr::from_str`. A reader
takes a prefix of the input and returns its value and the rest, or fails without
taking anything; parsing succeeds if nothing is left.

Results: an IPv4 address has four octets and its text is digits and periods
(`parseIpv4Addr_eq_some`), and the text of an IPv6 address has a colon
(`parseIpv6Addr_eq_none`).
-/

namespace IpText

open Ascii

/-- A reader of `core::net::parser`. -/
abbrev Reader (α : Type) := List UInt8 → Option (α × List UInt8)

@[ext]
structure Ipv4Addr where
  octets : List UInt8
deriving DecidableEq, Repr

/-- The address by its bytes in network order. -/
@[ext]
structure Ipv6Addr where
  octets : List UInt8
deriving DecidableEq, Repr

/-- `char::to_digit`, for radix 10 and 16. -/
def toDigit (radix : Nat) (byte : UInt8) : Option Nat :=
  let value :=
    if isAsciiDigit byte then some (byte.toNat - 48)
    else if 97 ≤ byte && byte ≤ 102 then some (byte.toNat - 87)
    else if 65 ≤ byte && byte ≤ 70 then some (byte.toNat - 55)
    else none
  value.filter (· < radix)

def readGivenChar (target : UInt8) : Reader Unit
  | byte :: rest => if byte == target then some ((), rest) else none
  | [] => none

/-- The separator stands before every item but the first. -/
def readSeparator {α : Type} (separator : UInt8) (index : Nat) (inner : Reader α) : Reader α :=
  fun input =>
    if index > 0 then (readGivenChar separator input).bind fun r => inner r.2 else inner input

/-- All digits that follow, at most `maxDigits` of them, as a number up to
`maximum`. -/
def readNumber (radix maxDigits maximum : Nat) (allowZeroPrefix : Bool) : Reader Nat :=
  fun input =>
    let digits := input.takeWhile fun byte => (toDigit radix byte).isSome
    let value := (digits.filterMap (toDigit radix)).foldl (fun n digit => n * radix + digit) 0
    if digits.length > maxDigits || digits.isEmpty then none
    else if !allowZeroPrefix && digits.head? == some 48 && digits.length > 1 then none
    else if value > maximum then none
    else some (value, input.drop digits.length)

/-- Reads the octets with the indices from `index` on, `count` of them. -/
def readOctets (index : Nat) : Nat → Reader (List UInt8)
  | 0, input => some ([], input)
  | count + 1, input => do
    let (octet, rest) ← readSeparator 46 index (readNumber 10 3 255 false) input
    let (octets, rest) ← readOctets (index + 1) count rest
    return (UInt8.ofNat octet :: octets, rest)

def readIpv4Addr : Reader Ipv4Addr :=
  fun input => (readOctets 0 4 input).map fun r => (⟨r.1⟩, r.2)

/-- Reads groups of an IPv6 address, at most `count` more, `index` of them being
read already. The result says whether an embedded IPv4 address was read, which
takes the place of two groups and ends the sequence. -/
def readGroups (index : Nat) : Nat → List UInt8 → List Nat × Bool × List UInt8
  | 0, input => ([], false, input)
  | count + 1, input =>
    let ipv4 := if count > 0 then readSeparator 58 index readIpv4Addr input else none
    match ipv4 with
    | some (⟨[one, two, three, four]⟩, rest) =>
      ([one.toNat * 256 + two.toNat, three.toNat * 256 + four.toNat], true, rest)
    | _ =>
      match readSeparator 58 index (readNumber 16 4 65535 true) input with
      | none => ([], false, input)
      | some (group, rest) =>
        let (groups, embedded, rest) := readGroups (index + 1) count rest
        (group :: groups, embedded, rest)

/-- The address with these eight groups. -/
def Ipv6Addr.ofGroups (groups : List Nat) : Ipv6Addr :=
  ⟨groups.flatMap fun group => [UInt8.ofNat (group / 256), UInt8.ofNat (group % 256)]⟩

def readIpv6Addr : Reader Ipv6Addr := fun input =>
  let (head, embedded, rest) := readGroups 0 8 input
  if head.length = 8 then
    some (.ofGroups head, rest)
  else if embedded then
    none
  else do
    let ((), rest) ← readGivenChar 58 rest
    let ((), rest) ← readGivenChar 58 rest
    let (tail, _, rest) := readGroups 0 (8 - (head.length + 1)) rest
    let zeros := List.replicate (8 - head.length - tail.length) 0
    return (.ofGroups (head ++ zeros ++ tail), rest)

/-- Nothing may be left after the address. -/
def parseWith {α : Type} (reader : Reader α) (input : List UInt8) : Option α :=
  match reader input with
  | some (value, []) => some value
  | _ => none

def parseIpv4Addr (input : List UInt8) : Option Ipv4Addr :=
  if input.length > 15 then none else parseWith readIpv4Addr input

def parseIpv6Addr (input : List UInt8) : Option Ipv6Addr := parseWith readIpv6Addr input

/-! ## IPv4 addresses -/

theorem isAsciiDigit_of_toDigit (b : UInt8) :
    (toDigit 10 b).isSome = true → isAsciiDigit b = true := by
  revert b
  exact forall_uint8 (by decide +kernel)

theorem readNumber_eq_some {radix maxDigits maximum value : Nat} {allowZeroPrefix : Bool}
    {input rest : List UInt8}
    (h : readNumber radix maxDigits maximum allowZeroPrefix input = some (value, rest)) :
    ∃ digits, input = digits ++ rest ∧ ∀ b ∈ digits, (toDigit radix b).isSome = true := by
  unfold readNumber at h
  simp only at h
  split at h
  · cases h
  split at h
  · cases h
  split at h
  · cases h
  obtain ⟨-, rfl⟩ := Prod.mk.inj (Option.some.inj h)
  refine ⟨input.takeWhile fun byte => (toDigit radix byte).isSome, ?_, fun b hb => ?_⟩
  · exact (List.prefix_iff_eq_append.mp (List.takeWhile_prefix _)).symm
  · exact List.mem_takeWhile_imp (p := fun byte => (toDigit radix byte).isSome) hb

/-- The separator is read where one is expected. -/
theorem readSeparator_eq_some {α : Type} {separator : UInt8} {index : Nat} {inner : Reader α}
    {input rest : List UInt8} {value : α}
    (h : readSeparator separator index inner input = some (value, rest)) :
    ∃ input', inner input' = some (value, rest) ∧
      (index = 0 ∧ input = input' ∨ 0 < index ∧ input = separator :: input') := by
  unfold readSeparator at h
  split at h
  · next hindex =>
    cases input with
    | nil => cases h
    | cons byte input =>
      by_cases hbyte : byte = separator
      · subst hbyte
        refine ⟨input, ?_, .inr ⟨hindex, rfl⟩⟩
        simpa [readGivenChar] using h
      · simp [readGivenChar, hbyte] at h
  · next hindex => exact ⟨input, h, .inl ⟨by omega, rfl⟩⟩

theorem readOctets_eq_some {index count : Nat} {input rest octets : List UInt8}
    (h : readOctets index count input = some (octets, rest)) :
    octets.length = count ∧
      ∃ text, input = text ++ rest ∧ ∀ b ∈ text, isAsciiDigit b = true ∨ b = 46 := by
  induction count generalizing index input octets with
  | zero =>
    obtain ⟨rfl, rfl⟩ := Prod.mk.inj (Option.some.inj h)
    exact ⟨rfl, [], rfl, by simp⟩
  | succ count ih =>
    simp only [readOctets, Option.bind_eq_bind, Option.bind_eq_some_iff] at h
    obtain ⟨⟨octet, rest₁⟩, hoctet, ⟨octets', rest₂⟩, hoctets, hresult⟩ := h
    obtain ⟨rfl, rfl⟩ := Prod.mk.inj (Option.some.inj hresult)
    obtain ⟨hlength, text, rfl, htext⟩ := ih hoctets
    obtain ⟨input', hnumber, hinput⟩ := readSeparator_eq_some hoctet
    obtain ⟨digits, rfl, hdigits⟩ := readNumber_eq_some hnumber
    have hdigits : ∀ b ∈ digits, isAsciiDigit b = true ∨ b = 46 :=
      fun b hb => .inl (isAsciiDigit_of_toDigit b (hdigits b hb))
    refine ⟨by rw [List.length_cons, hlength], ?_⟩
    rcases hinput with ⟨-, rfl⟩ | ⟨-, rfl⟩
    · exact ⟨digits ++ text, by simp, List.forall_mem_append.mpr ⟨hdigits, htext⟩⟩
    · refine ⟨46 :: (digits ++ text), by simp, List.forall_mem_cons.mpr ⟨.inr rfl, ?_⟩⟩
      exact List.forall_mem_append.mpr ⟨hdigits, htext⟩

theorem parseWith_eq_some {α : Type} {reader : Reader α} {input : List UInt8} {value : α} :
    parseWith reader input = some value ↔ reader input = some (value, []) := by
  unfold parseWith
  split
  · next hread => simp [hread]
  · next hread =>
    simp only [reduceCtorEq, false_iff]
    exact hread value

theorem parseIpv4Addr_eq_some {input : List UInt8} {addr : Ipv4Addr}
    (h : parseIpv4Addr input = some addr) :
    addr.octets.length = 4 ∧ ∀ b ∈ input, isAsciiDigit b = true ∨ b = 46 := by
  unfold parseIpv4Addr at h
  split at h
  · cases h
  rw [parseWith_eq_some, readIpv4Addr, Option.map_eq_some_iff] at h
  obtain ⟨⟨octets, rest⟩, hread, hresult⟩ := h
  obtain ⟨rfl, rfl⟩ := Prod.mk.inj hresult
  obtain ⟨hlength, text, htext, hbytes⟩ := readOctets_eq_some hread
  rw [List.append_nil] at htext
  exact ⟨hlength, fun b hb => hbytes b (htext ▸ hb)⟩

/-! ## IPv6 addresses -/

/-- Groups after the first one begin with a colon. -/
theorem readGroups_of_not_mem {input : List UInt8} (h : 58 ∉ input) (index count : Nat) :
    readGroups (index + 1) count input = ([], false, input) := by
  have hseparator {α : Type} (inner : Reader α) :
      readSeparator 58 (index + 1) inner input = none := by
    cases hread : readSeparator 58 (index + 1) inner input with
    | none => rfl
    | some r =>
      obtain ⟨input', -, ⟨hindex, -⟩ | ⟨-, rfl⟩⟩ := readSeparator_eq_some hread
      · omega
      · exact absurd List.mem_cons_self h
  cases count with
  | zero => rfl
  | succ count => simp [readGroups, hseparator]

/-- The text of an address has a colon. -/
theorem parseIpv6Addr_eq_none {input : List UInt8} (h : 58 ∉ input) :
    parseIpv6Addr input = none := by
  have hgiven {rest : List UInt8} (hrest : 58 ∉ rest) : readGivenChar 58 rest = none := by
    cases rest with
    | nil => rfl
    | cons byte rest =>
      have hbyte : byte ≠ 58 := fun heq => hrest (heq ▸ List.mem_cons_self)
      simp [readGivenChar, hbyte]
  have hread : readIpv6Addr input = none := by
    rw [readIpv6Addr, readGroups]
    simp only
    split
    · simp
    · split
      · simp [hgiven h]
      · next group rest hnumber =>
        obtain ⟨input', hnumber, ⟨-, rfl⟩ | ⟨hindex, -⟩⟩ := readSeparator_eq_some hnumber
        · obtain ⟨digits, rfl, -⟩ := readNumber_eq_some hnumber
          have hrest : 58 ∉ rest := fun hmem => h (List.mem_append_right _ hmem)
          simp [readGroups_of_not_mem hrest, hgiven hrest]
        · omega
  cases hparse : parseIpv6Addr input with
  | none => rfl
  | some addr =>
    rw [parseIpv6Addr, parseWith_eq_some, hread] at hparse
    cases hparse

end IpText
