import X509Validator.Lib.IpText
import Mathlib.Data.List.Forall2
import Mathlib.Data.List.Induction
import Mathlib.Data.Nat.Digits.Defs

/-!
# The texts of IP addresses

A grammar for IPv4 and IPv6 addresses, which names no reader: four octets in decimal,
and eight groups in hexadecimal, where `::` stands for missing groups and an IPv4
address for the last two. The readers of `IpText` take the longest number they can
and never go back; they read exactly the texts of the grammar.

Results:
1. `parseIpv4Addr_eq_some_iff`: the texts of IPv4 addresses.
2. `parseIpv6Addr_eq_some_iff`: the texts of IPv6 addresses.
-/

namespace IpText

open Ascii

/-! ## Numbers -/

/-- The byte is this digit, where letters may be in either case. -/
def IsDigit (radix : Nat) (byte : UInt8) (digit : Nat) : Prop :=
  digit < radix ∧ toAsciiLowercase byte = UInt8.ofNat (Nat.digitChar digit).toNat

/-- The digits of a number, the most significant one first. -/
def NumberText (radix : Nat) (text : List UInt8) (value : Nat) : Prop :=
  ∃ digits, List.Forall₂ (IsDigit radix) text digits ∧ Nat.ofDigits radix digits.reverse = value

/-- No digit follows, so that a number ends here. -/
def NoDigit (radix : Nat) (rest : List UInt8) : Prop :=
  ∀ byte ∈ rest.head?, (toDigit radix byte).isSome = false

/-- The value of a number, as it is computed digit by digit. -/
def valueOf (radix : Nat) (text : List UInt8) : Nat :=
  (text.filterMap (toDigit radix)).foldl (fun n digit => n * radix + digit) 0

section

variable {radix : Nat} (hradix : radix ≤ 16)

include hradix

/-- A digit is a hexadecimal digit that is small enough. -/
theorem toDigit_eq_some_iff_sixteen {byte : UInt8} {digit : Nat} :
    toDigit radix byte = some digit ↔ toDigit 16 byte = some digit ∧ digit < radix := by
  simp only [toDigit, Option.filter_eq_some_iff, decide_eq_true_eq]
  exact ⟨fun h => ⟨⟨h.1, by omega⟩, h.2⟩, fun h => ⟨h.1.1, h.2⟩⟩

theorem toDigit_eq_some_iff {byte : UInt8} {digit : Nat} :
    toDigit radix byte = some digit ↔ IsDigit radix byte digit := by
  have hlower : ∀ b : UInt8, toDigit 16 (toAsciiLowercase b) = toDigit 16 b ∧
      ∀ d ∈ toDigit 16 b, toAsciiLowercase b = UInt8.ofNat (Nat.digitChar d).toNat :=
    forall_uint8 (by decide +kernel)
  have hdigits : ∀ d : Fin 16, toDigit 16 (UInt8.ofNat (Nat.digitChar d.val).toNat) =
      some d.val := by
    decide +kernel
  have hvalue (hdigit : digit < 16) : toDigit 16 byte = some digit ↔
      toAsciiLowercase byte = UInt8.ofNat (Nat.digitChar digit).toNat := by
    refine ⟨(hlower byte).2 digit, fun h => ?_⟩
    rw [← (hlower byte).1, h, hdigits ⟨digit, hdigit⟩]
  rw [toDigit_eq_some_iff_sixteen hradix, IsDigit, and_comm]
  exact and_congr_right fun hdigit => hvalue (Nat.lt_of_lt_of_le hdigit hradix)

theorem forall₂_isDigit_iff {text : List UInt8} {digits : List Nat} :
    List.Forall₂ (IsDigit radix) text digits ↔
      (∀ b ∈ text, (toDigit radix b).isSome = true) ∧ text.filterMap (toDigit radix) = digits := by
  induction text generalizing digits with
  | nil =>
    rw [List.forall₂_nil_left_iff]
    exact ⟨fun h => ⟨List.forall_mem_nil _, h.symm⟩, fun h => h.2.symm⟩
  | cons byte text ih =>
    rw [List.forall_mem_cons]
    cases hdigit : toDigit radix byte with
    | none =>
      refine iff_of_false ?_ (by simp)
      rintro (_ | ⟨h, _⟩)
      rw [← toDigit_eq_some_iff hradix, hdigit] at h
      cases h
    | some digit =>
      rw [List.filterMap_cons_some hdigit]
      constructor
      · rintro (_ | ⟨h, hrest⟩)
        rw [← toDigit_eq_some_iff hradix, hdigit] at h
        obtain ⟨hall, rfl⟩ := ih.mp hrest
        exact ⟨⟨rfl, hall⟩, by rw [Option.some.inj h]⟩
      · rintro ⟨⟨-, hall⟩, rfl⟩
        exact .cons ((toDigit_eq_some_iff hradix).mp hdigit) (ih.mpr ⟨hall, rfl⟩)

theorem numberText_iff {text : List UInt8} {value : Nat} :
    NumberText radix text value ↔
      (∀ b ∈ text, (toDigit radix b).isSome = true) ∧ valueOf radix text = value := by
  have hfold (digits : List Nat) : Nat.ofDigits radix digits.reverse =
      digits.foldl (fun n digit => n * radix + digit) 0 := by
    rw [Nat.ofDigits_eq_foldr, List.foldr_reverse]
    simp only [Nat.cast_id, Nat.mul_comm radix, Nat.add_comm]
  simp only [NumberText, forall₂_isDigit_iff hradix, hfold]
  constructor
  · rintro ⟨_, ⟨hall, rfl⟩, hvalue⟩
    exact ⟨hall, hvalue⟩
  · rintro ⟨hall, hvalue⟩
    exact ⟨_, ⟨hall, rfl⟩, hvalue⟩

/-- The last digit comes off at the end. -/
theorem numberText_concat_iff {text : List UInt8} {byte : UInt8} {value : Nat} :
    NumberText radix (text ++ [byte]) value ↔
      ∃ front digit, NumberText radix text front ∧ IsDigit radix byte digit ∧
        value = front * radix + digit := by
  simp only [numberText_iff hradix, ← toDigit_eq_some_iff hradix, List.forall_mem_append,
    List.forall_mem_singleton, valueOf, List.filterMap_append, List.foldl_append]
  constructor
  · rintro ⟨⟨htext, hbyte⟩, rfl⟩
    obtain ⟨digit, hdigit⟩ := Option.isSome_iff_exists.mp hbyte
    exact ⟨_, digit, ⟨htext, rfl⟩, hdigit, by simp [hdigit]⟩
  · rintro ⟨_, digit, ⟨htext, rfl⟩, hdigit, rfl⟩
    exact ⟨⟨htext, by rw [hdigit]; rfl⟩, by simp [hdigit]⟩

omit hradix in
/-- Every input begins with the digits up to the first byte that is none. -/
theorem exists_digits_append (radix : Nat) (input : List UInt8) :
    ∃ text rest, input = text ++ rest ∧ (∀ b ∈ text, (toDigit radix b).isSome = true) ∧
      NoDigit radix rest := by
  refine ⟨_, _, (List.takeWhile_append_dropWhile
    (p := fun byte => (toDigit radix byte).isSome)).symm, fun b hb => ?_, fun b hb => ?_⟩
  · exact List.mem_takeWhile_imp (p := fun byte => (toDigit radix byte).isSome) hb
  · have hnot := List.head?_dropWhile_not (fun byte => (toDigit radix byte).isSome) input
    rwa [Option.mem_def.mp hb] at hnot

omit hradix in
theorem takeWhile_toDigit_append {text rest : List UInt8}
    (htext : ∀ b ∈ text, (toDigit radix b).isSome = true) (hrest : NoDigit radix rest) :
    (text ++ rest).takeWhile (fun byte => (toDigit radix byte).isSome) = text := by
  have hnone : rest.takeWhile (fun byte => (toDigit radix byte).isSome) = [] := by
    cases rest with
    | nil => rfl
    | cons byte rest => exact List.takeWhile_cons_of_neg (by simp [hrest byte rfl])
  rw [List.takeWhile_append_of_pos htext, hnone, List.append_nil]

omit hradix in
theorem readNumber_append {maxDigits maximum : Nat} {allowZeroPrefix : Bool}
    {text rest : List UInt8} (htext : ∀ b ∈ text, (toDigit radix b).isSome = true)
    (hrest : NoDigit radix rest) :
    readNumber radix maxDigits maximum allowZeroPrefix (text ++ rest) =
      if text.length > maxDigits || text.isEmpty then none
      else if !allowZeroPrefix && text.head? == some 48 && text.length > 1 then none
      else if valueOf radix text > maximum then none
      else some (valueOf radix text, rest) := by
  simp only [readNumber, valueOf, takeWhile_toDigit_append htext hrest, List.drop_left]
  rfl

/-- A number is read as far as its digits go. -/
theorem readNumber_eq_some_iff {maxDigits maximum value : Nat} {allowZeroPrefix : Bool}
    {input rest : List UInt8} :
    readNumber radix maxDigits maximum allowZeroPrefix input = some (value, rest) ↔
      ∃ text, input = text ++ rest ∧ NumberText radix text value ∧
        (text ≠ [] ∧ text.length ≤ maxDigits) ∧
        (allowZeroPrefix = true ∨ text.head? ≠ some 48 ∨ text.length ≤ 1) ∧
        value ≤ maximum ∧ NoDigit radix rest := by
  simp only [numberText_iff hradix]
  constructor
  · intro h
    obtain ⟨text, rest', rfl, htext, hrest⟩ := exists_digits_append radix input
    rw [readNumber_append htext hrest] at h
    split_ifs at h with hlength hzero hmaximum
    obtain ⟨hvalue, rfl⟩ := Prod.mk.inj (Option.some.inj h)
    simp only [Bool.or_eq_true, decide_eq_true_eq, List.isEmpty_iff, not_or] at hlength
    refine ⟨text, rfl, ⟨htext, hvalue⟩, ⟨hlength.2, by omega⟩, ?_, by omega, hrest⟩
    grind
  · rintro ⟨text, rfl, ⟨htext, rfl⟩, ⟨hne, hlength⟩, hzero, hmaximum, hrest⟩
    rw [readNumber_append htext hrest, if_neg (by simp [hne, hlength]), if_neg (by grind),
      if_neg (by omega)]

end

/-- A separator that is expected must be there. -/
theorem readSeparator_succ_iff {α : Type} {separator : UInt8} {index : Nat} {inner : Reader α}
    {input rest : List UInt8} {value : α} :
    readSeparator separator (index + 1) inner input = some (value, rest) ↔
      ∃ input', input = separator :: input' ∧ inner input' = some (value, rest) := by
  constructor
  · intro h
    obtain ⟨input', hinner, ⟨hindex, -⟩ | ⟨-, hinput⟩⟩ := readSeparator_eq_some h
    · omega
    · exact ⟨input', hinput, hinner⟩
  · rintro ⟨input', rfl, hinner⟩
    simpa [readSeparator, readGivenChar] using hinner

/-! ## 1. IPv4 addresses -/

/-- A number in decimal, without leading zeros. -/
def decimal (value : Nat) : List UInt8 :=
  (Nat.toDigits 10 value).map fun c => UInt8.ofNat c.toNat

/-- Four octets in decimal, with periods between them. -/
def IsIpv4Text (text octets : List UInt8) : Prop :=
  octets.length = 4 ∧ text = [46].intercalate (octets.map fun octet => decimal octet.toNat)

/-- The decimal digits and their bytes. -/
theorem digit_byte {digit : Nat} (h : digit < 10) :
    UInt8.ofNat (Nat.digitChar digit).toNat = UInt8.ofNat (48 + digit) ∧
      isAsciiAlphabetic (UInt8.ofNat (48 + digit)) = false ∧
      (UInt8.ofNat (48 + digit) = 48 → digit = 0) := by
  have hall : ∀ d : Fin 10, UInt8.ofNat (Nat.digitChar d.val).toNat = UInt8.ofNat (48 + d.val) ∧
      isAsciiAlphabetic (UInt8.ofNat (48 + d.val)) = false ∧
      (UInt8.ofNat (48 + d.val) = 48 → d.val = 0) := by
    decide
  exact hall ⟨digit, h⟩

theorem isDigit_ten_iff {byte : UInt8} {digit : Nat} :
    IsDigit 10 byte digit ↔ digit < 10 ∧ byte = UInt8.ofNat (48 + digit) := by
  refine and_congr_right fun h => ?_
  obtain ⟨hbyte, hletter, -⟩ := digit_byte h
  rw [hbyte]
  exact toAsciiLowercase_eq_iff hletter

/-- The last digit of a number and those before it. -/
theorem decimal_eq (value : Nat) :
    decimal value =
      (if value < 10 then [] else decimal (value / 10)) ++ [UInt8.ofNat (48 + value % 10)] := by
  rw [← (digit_byte (Nat.mod_lt value (by decide))).1, decimal, Nat.toDigits_eq_if (by decide)]
  split
  · next hlt =>
    rw [Nat.mod_eq_of_lt hlt]
    rfl
  · rw [List.map_append, List.map_singleton]
    rfl

theorem decimal_ne_nil (value : Nat) : decimal value ≠ [] := by
  simp [decimal, Nat.toDigits_ne_nil]

theorem length_decimal_le (octet : UInt8) : (decimal octet.toNat).length ≤ 3 := by
  rw [decimal, List.length_map, Nat.length_toDigits_le_iff (by decide) (by decide)]
  exact Nat.lt_of_lt_of_le octet.toNat_lt (by decide)

theorem head?_decimal {value : Nat} (h : value ≠ 0) : (decimal value).head? ≠ some 48 := by
  induction value using Nat.strong_induction_on with
  | _ value ih =>
    rw [decimal_eq]
    split
    · next hlt =>
      rw [Nat.mod_eq_of_lt hlt]
      exact fun hhead => h ((digit_byte hlt).2.2 (Option.some.inj hhead))
    · next hle =>
      rw [List.head?_append_of_ne_nil _ (decimal_ne_nil _)]
      exact ih (value / 10) (by omega) (by omega)

theorem numberText_decimal (value : Nat) : NumberText 10 (decimal value) value := by
  induction value using Nat.strong_induction_on with
  | _ value ih =>
    rw [decimal_eq, numberText_concat_iff (by decide)]
    refine ⟨value / 10, value % 10, ?_,
      isDigit_ten_iff.mpr ⟨Nat.mod_lt value (by decide), rfl⟩, by omega⟩
    split
    · next hlt =>
      rw [Nat.div_eq_of_lt hlt]
      exact ⟨[], .nil, rfl⟩
    · next hle => exact ih (value / 10) (by omega)

/-- There is only one text without leading zeros. -/
theorem eq_decimal {text : List UInt8} {value : Nat} (h : NumberText 10 text value)
    (hne : text ≠ []) (hzero : text.head? ≠ some 48 ∨ text.length ≤ 1) :
    text = decimal value := by
  induction text using List.reverseRecOn generalizing value with
  | nil => exact absurd rfl hne
  | append_singleton text byte ih =>
    obtain ⟨front, digit, hfront, hbyte, rfl⟩ := (numberText_concat_iff (by decide)).mp h
    obtain ⟨hdigit, rfl⟩ := isDigit_ten_iff.mp hbyte
    have hlast : (front * 10 + digit) % 10 = digit := by omega
    rw [decimal_eq, hlast]
    congr 1
    by_cases hnil : text = []
    · obtain rfl := hnil
      obtain ⟨_, hdigits, rfl⟩ := hfront
      cases hdigits
      rw [if_pos (by simpa using hdigit)]
    · rw [List.head?_append_of_ne_nil _ hnil] at hzero
      have hhead : text.head? ≠ some 48 := hzero.resolve_right (by simp [hnil])
      have htext := ih hfront hnil (.inl hhead)
      have hpos : front ≠ 0 := by
        rintro rfl
        exact hhead (by rw [htext]; rfl)
      rw [if_neg (by omega), htext]
      congr 1
      omega

theorem readOctet_eq_some_iff {value : Nat} {input rest : List UInt8} :
    readNumber 10 3 255 false input = some (value, rest) ↔
      ∃ octet : UInt8, value = octet.toNat ∧ input = decimal octet.toNat ++ rest ∧
        NoDigit 10 rest := by
  rw [readNumber_eq_some_iff (by decide)]
  constructor
  · rintro ⟨text, rfl, htext, ⟨hne, -⟩, hzero, hmaximum, hrest⟩
    have hoctet : (UInt8.ofNat value).toNat = value :=
      UInt8.toNat_ofNat_of_lt' (Nat.lt_succ_of_le hmaximum)
    refine ⟨UInt8.ofNat value, hoctet.symm, ?_, hrest⟩
    rw [hoctet, eq_decimal htext hne (hzero.resolve_left Bool.false_ne_true)]
  · rintro ⟨octet, rfl, rfl, hrest⟩
    refine ⟨_, rfl, numberText_decimal _, ⟨decimal_ne_nil _, length_decimal_le octet⟩, .inr ?_,
      Nat.le_of_lt_succ octet.toNat_lt, hrest⟩
    by_cases hzero : octet.toNat = 0
    · rw [hzero]
      exact .inr (by decide)
    · exact .inl (head?_decimal hzero)

/-- Octets that follow one another, each after a period. -/
theorem readOctets_succ_iff {index count : Nat} {input rest octets : List UInt8} :
    readOctets (index + 1) count input = some (octets, rest) ↔
      octets.length = count ∧
        input = octets.flatMap (fun octet => 46 :: decimal octet.toNat) ++ rest ∧
        (octets = [] ∨ NoDigit 10 rest) := by
  induction count generalizing index input octets with
  | zero =>
    constructor
    · intro h
      obtain ⟨rfl, rfl⟩ := Prod.mk.inj (Option.some.inj h)
      exact ⟨rfl, rfl, .inl rfl⟩
    · rintro ⟨hlength, rfl, -⟩
      obtain rfl := List.length_eq_zero_iff.mp hlength
      rfl
  | succ count ih =>
    have hperiod : ∀ (octet : UInt8) octets, NoDigit 10
        ((octet :: octets).flatMap (fun octet => 46 :: decimal octet.toNat) ++ rest) := by
      rintro octet octets byte hbyte
      obtain rfl : 46 = byte := Option.some.inj hbyte
      decide
    simp only [readOctets, Option.bind_eq_bind, Option.bind_eq_some_iff, Prod.exists,
      readSeparator_succ_iff, readOctet_eq_some_iff]
    constructor
    · rintro ⟨_, rest₁, ⟨_, rfl, octet, rfl, rfl, hoctet⟩, octets', rest₂, hoctets, hresult⟩
      obtain ⟨rfl, rfl⟩ := Prod.mk.inj (Option.some.inj hresult)
      obtain ⟨hlength, rfl, hrest⟩ := ih.mp hoctets
      refine ⟨by rw [List.length_cons, hlength], ?_, .inr ?_⟩
      · rw [UInt8.ofNat_toNat, List.flatMap_cons, List.cons_append, List.cons_append,
          List.append_assoc]
      · rcases hrest with rfl | hrest
        · exact hoctet
        · exact hrest
    · rintro ⟨hlength, rfl, hrest⟩
      cases octets with
      | nil => cases hlength
      | cons octet octets =>
        have hend := hrest.resolve_left (List.cons_ne_nil _ _)
        refine ⟨octet.toNat, octets.flatMap (fun octet => 46 :: decimal octet.toNat) ++ rest,
          ⟨_, ?_, octet, rfl, rfl, ?_⟩, octets, rest,
          ih.mpr ⟨Nat.succ.inj hlength, rfl, .inr hend⟩, ?_⟩
        · rw [List.flatMap_cons, List.cons_append, List.cons_append, List.append_assoc]
        · cases octets with
          | nil => exact hend
          | cons octet octets => exact hperiod octet octets
        · rw [UInt8.ofNat_toNat]
          rfl

theorem cons_intercalate_decimal {octets : List UInt8} (h : octets ≠ []) :
    46 :: [46].intercalate (octets.map fun octet => decimal octet.toNat) =
      octets.flatMap fun octet => 46 :: decimal octet.toNat := by
  induction octets with
  | nil => exact absurd rfl h
  | cons octet octets ih =>
    cases octets with
    | nil => simp [List.intercalate]
    | cons next octets =>
      rw [List.flatMap_cons, ← ih (List.cons_ne_nil _ _)]
      simp [List.intercalate]

theorem readIpv4Addr_eq_some_iff {input rest : List UInt8} {address : Ipv4Addr} :
    readIpv4Addr input = some (address, rest) ↔
      ∃ text, input = text ++ rest ∧ IsIpv4Text text address.octets ∧ NoDigit 10 rest := by
  have hfirst : readOctets 0 4 input = readOctets 1 4 (46 :: input) := by
    simp only [readOctets, readSeparator, readGivenChar]
    rfl
  obtain ⟨octets⟩ := address
  have hread : readIpv4Addr input = some (⟨octets⟩, rest) ↔
      readOctets 1 4 (46 :: input) = some (octets, rest) := by
    rw [readIpv4Addr, hfirst, Option.map_eq_some_iff]
    simp
  rw [hread, readOctets_succ_iff]
  constructor
  · rintro ⟨hlength, hinput, hrest⟩
    have hne : octets ≠ [] := List.ne_nil_of_length_eq_add_one hlength
    rw [← cons_intercalate_decimal hne, List.cons_append, List.cons.injEq] at hinput
    exact ⟨_, hinput.2, ⟨hlength, rfl⟩, hrest.resolve_left hne⟩
  · rintro ⟨_, rfl, ⟨hlength, rfl⟩, hrest⟩
    have hne : octets ≠ [] := List.ne_nil_of_length_eq_add_one hlength
    rw [← cons_intercalate_decimal hne]
    exact ⟨hlength, rfl, .inr hrest⟩

/-- The texts of IPv4 addresses. -/
theorem parseIpv4Addr_eq_some_iff {text : List UInt8} {address : Ipv4Addr} :
    parseIpv4Addr text = some address ↔ IsIpv4Text text address.octets := by
  have hread : parseWith readIpv4Addr text = some address ↔ IsIpv4Text text address.octets := by
    rw [parseWith_eq_some, readIpv4Addr_eq_some_iff]
    simp only [List.append_nil, exists_eq_left']
    exact and_iff_left fun _ h => by cases h
  have hlength (h : IsIpv4Text text address.octets) : text.length ≤ 15 := by
    obtain ⟨octets⟩ := address
    obtain ⟨hfour, rfl⟩ := h
    match octets, hfour with
    | [a, b, c, d], _ =>
      have ha := length_decimal_le a
      have hb := length_decimal_le b
      have hc := length_decimal_le c
      have hd := length_decimal_le d
      simp [List.intercalate, List.intersperse]
      omega
  unfold parseIpv4Addr
  split
  · next hlong => exact iff_of_false (by simp) fun h => absurd (hlength h) (by omega)
  · exact hread

/-! ## 2. IPv6 addresses -/

/-- A group is one to four hexadecimal digits. -/
def GroupText (text : List UInt8) (group : Nat) : Prop :=
  NumberText 16 text group ∧ text ≠ [] ∧ text.length ≤ 4

/-- Groups with a colon before each. An IPv4 address may stand for the last two,
and the flag says whether it does. -/
inductive ColonGroups : Bool → List UInt8 → List Nat → Prop
  | nil : ColonGroups false [] []
  | ipv4 {text : List UInt8} {a b c d : UInt8} : IsIpv4Text text [a, b, c, d] →
      ColonGroups true (58 :: text) [a.toNat * 256 + b.toNat, c.toNat * 256 + d.toNat]
  | cons {embedded : Bool} {text rest : List UInt8} {group : Nat} {groups : List Nat} :
      GroupText text group → ColonGroups embedded rest groups →
      ColonGroups embedded (58 :: (text ++ rest)) (group :: groups)

/-- Groups with colons between them, or no group at all. -/
inductive GroupsText : Bool → List UInt8 → List Nat → Prop
  | nil : GroupsText false [] []
  | groups {embedded : Bool} {text : List UInt8} {groups : List Nat} :
      ColonGroups embedded (58 :: text) groups → GroupsText embedded text groups

/-- Eight groups, of which `::` may stand for one or more that are zero. Before it
there is no IPv4 address. -/
inductive IsIpv6Text : List UInt8 → List Nat → Prop
  | full {embedded : Bool} {text : List UInt8} {groups : List Nat} :
      GroupsText embedded text groups → groups.length = 8 → IsIpv6Text text groups
  | compressed {embedded : Bool} {head tail : List UInt8} {before after : List Nat} :
      GroupsText false head before → GroupsText embedded tail after →
      before.length + after.length < 8 →
      IsIpv6Text (head ++ 58 :: 58 :: tail)
        (before ++ List.replicate (8 - before.length - after.length) 0 ++ after)

theorem readGroup_eq_some_iff {group : Nat} {input rest : List UInt8} :
    readNumber 16 4 65535 true input = some (group, rest) ↔
      ∃ text, input = text ++ rest ∧ GroupText text group ∧ NoDigit 16 rest := by
  rw [readNumber_eq_some_iff (by decide)]
  refine exists_congr fun text => and_congr_right fun _ => ?_
  constructor
  · rintro ⟨htext, hlength, -, -, hrest⟩
    exact ⟨⟨htext, hlength⟩, hrest⟩
  · rintro ⟨⟨htext, hlength⟩, hrest⟩
    refine ⟨htext, hlength, .inl rfl, ?_, hrest⟩
    obtain ⟨digits, hdigits, rfl⟩ := htext
    have hpow : Nat.ofDigits 16 digits.reverse < 16 ^ digits.reverse.length := by
      refine Nat.ofDigits_lt_base_pow_length (by decide) fun digit hdigit => ?_
      obtain ⟨-, rfl⟩ := (forall₂_isDigit_iff (by decide)).mp hdigits
      obtain ⟨byte, -, hbyte⟩ := List.mem_filterMap.mp (List.mem_reverse.mp hdigit)
      exact ((toDigit_eq_some_iff (by decide)).mp hbyte).1
    have hfour : 16 ^ digits.reverse.length ≤ 16 ^ 4 := by
      rw [List.length_reverse, ← hdigits.length_eq]
      exact Nat.pow_le_pow_right (by decide) hlength.2
    exact Nat.le_of_lt_succ (Nat.lt_of_lt_of_le hpow hfour)

theorem noDigit_colon (radix : Nat) (tail : List UInt8) : NoDigit radix (58 :: tail) := by
  intro byte hbyte
  obtain rfl : 58 = byte := Option.some.inj hbyte
  rfl

theorem readNumber_colon {radix maxDigits maximum : Nat} {allowZeroPrefix : Bool}
    {tail : List UInt8} :
    readNumber radix maxDigits maximum allowZeroPrefix (58 :: tail) = none := by
  rw [← List.nil_append (58 :: tail),
    readNumber_append (List.forall_mem_nil _) (noDigit_colon radix tail), if_pos (by simp)]

theorem readIpv4Addr_colon {tail : List UInt8} : readIpv4Addr (58 :: tail) = none := by
  simp [readIpv4Addr, readOctets, readSeparator, readNumber_colon]

/-- The digits of a group are not followed by a period. -/
theorem readIpv4Addr_group {text rest : List UInt8} {group : Nat} (h : GroupText text group)
    (hrest : ∀ byte ∈ rest.head?, byte = 58) : readIpv4Addr (text ++ rest) = none := by
  rw [Option.eq_none_iff_forall_ne_some]
  rintro ⟨⟨octets⟩, rest'⟩ hread
  obtain ⟨quad, heq, ⟨hlength, rfl⟩, -⟩ := readIpv4Addr_eq_some_iff.mp hread
  have htext := ((numberText_iff (by decide)).mp h.1).1
  have hnoDigit : NoDigit 16 rest := by
    intro byte hbyte
    rw [hrest byte hbyte]
    rfl
  match octets, hlength with
  | [a, b, c, d], _ =>
    have hdecimal : ∀ byte ∈ decimal a.toNat, (toDigit 16 byte).isSome = true := by
      intro byte hbyte
      obtain ⟨digit, hdigit⟩ := Option.isSome_iff_exists.mp
        (((numberText_iff (by decide)).mp (numberText_decimal _)).1 byte hbyte)
      rw [((toDigit_eq_some_iff_sixteen (by decide)).mp hdigit).1]
      rfl
    obtain ⟨more, hmore⟩ : ∃ more, text ++ rest = decimal a.toNat ++ 46 :: more := by
      rw [heq]
      exact ⟨_, by simp [List.intercalate]; rfl⟩
    have hperiod : NoDigit 16 (46 :: more) := by
      intro byte hbyte
      obtain rfl : 46 = byte := Option.some.inj hbyte
      rfl
    have hsame : text = decimal a.toNat := by
      rw [← takeWhile_toDigit_append htext hnoDigit, hmore,
        takeWhile_toDigit_append hdecimal hperiod]
    rw [hsame] at hmore
    rw [List.append_cancel_left hmore] at hrest
    exact absurd (hrest 46 rfl) (by decide)

/-- Only the first group needs no colon before it. -/
theorem readGroups_succ (index count : Nat) (input : List UInt8) :
    readGroups (index + 1) count input = readGroups 1 count input := by
  have hseparator {α : Type} (index : Nat) (inner : Reader α) (input : List UInt8) :
      readSeparator 58 (index + 1) inner input = readSeparator 58 1 inner input := by
    simp [readSeparator]
  induction count generalizing index input with
  | zero => rfl
  | succ count ih => simp only [readGroups, hseparator index, ih (index + 1), ih 1]

/-- What is read are groups. -/
theorem colonGroups_of_readGroups {count : Nat} {input rest : List UInt8} {embedded : Bool}
    {groups : List Nat} (h : readGroups 1 count input = (groups, embedded, rest)) :
    ∃ text, input = text ++ rest ∧ ColonGroups embedded text groups ∧ groups.length ≤ count := by
  induction count generalizing input groups with
  | zero =>
    obtain ⟨rfl, rfl, rfl⟩ := h
    exact ⟨[], rfl, .nil, le_rfl⟩
  | succ count ih =>
    rw [readGroups] at h
    simp only at h
    split at h
    · next one two three four rest' hipv4 =>
      obtain ⟨rfl, rfl, rfl⟩ := h
      split at hipv4
      · next hcount =>
        obtain ⟨input', rfl, hipv4⟩ := readSeparator_succ_iff.mp hipv4
        obtain ⟨text, rfl, htext, -⟩ := readIpv4Addr_eq_some_iff.mp hipv4
        exact ⟨58 :: text, rfl, .ipv4 htext, Nat.succ_le_succ hcount⟩
      · cases hipv4
    · split at h
      · obtain ⟨rfl, rfl, rfl⟩ := h
        exact ⟨[], rfl, .nil, Nat.zero_le _⟩
      · next group rest' hgroup =>
        rw [readGroups_succ] at h
        obtain ⟨input', rfl, hgroup⟩ := readSeparator_succ_iff.mp hgroup
        obtain ⟨text, rfl, htext, -⟩ := readGroup_eq_some_iff.mp hgroup
        obtain ⟨rfl, rfl, rfl⟩ := h
        obtain ⟨more, hmore, hgroups, hlength⟩ := ih rfl
        refine ⟨58 :: (text ++ more), ?_, .cons htext hgroups, Nat.succ_le_succ hlength⟩
        rw [List.cons_append, List.append_assoc, ← hmore]

/-- The input ends, or with two colons no group can follow. -/
def Stops (rest : List UInt8) : Prop := rest = [] ∨ ∃ tail, rest = 58 :: 58 :: tail

theorem readSeparator_of_stops {α : Type} {inner : Reader α} {rest : List UInt8}
    (h : Stops rest) (hinner : ∀ tail, inner (58 :: tail) = none) :
    readSeparator 58 1 inner rest = none := by
  rcases h with rfl | ⟨tail, rfl⟩
  · rfl
  · simp [readSeparator, readGivenChar, hinner]

theorem readGroups_of_stops {rest : List UInt8} (h : Stops rest) (count : Nat) :
    readGroups 1 count rest = ([], false, rest) := by
  cases count with
  | zero => rfl
  | succ count =>
    simp [readGroups, readSeparator_of_stops h fun _ => readIpv4Addr_colon,
      readSeparator_of_stops h fun _ => readNumber_colon]

/-- A colon or the end comes after a group. -/
theorem head?_after_group {embedded : Bool} {text rest : List UInt8} {groups : List Nat}
    (h : ColonGroups embedded text groups) (hrest : Stops rest) :
    ∀ byte ∈ (text ++ rest).head?, byte = 58 := by
  rintro byte hbyte
  cases h with
  | nil =>
    rcases hrest with rfl | ⟨tail, rfl⟩
    · cases hbyte
    · exact (Option.some.inj hbyte).symm
  | ipv4 _ => exact (Option.some.inj hbyte).symm
  | cons _ _ => exact (Option.some.inj hbyte).symm

theorem noDigit_of_head? {radix : Nat} {rest : List UInt8} (h : ∀ byte ∈ rest.head?, byte = 58) :
    NoDigit radix rest := by
  intro byte hbyte
  rw [h byte hbyte]
  rfl

/-- Groups are read up to where they stop. -/
theorem readGroups_of_colonGroups {count : Nat} {text rest : List UInt8} {embedded : Bool}
    {groups : List Nat} (h : ColonGroups embedded text groups) (hcount : groups.length ≤ count)
    (hrest : Stops rest) : readGroups 1 count (text ++ rest) = (groups, embedded, rest) := by
  induction h generalizing count with
  | nil => exact readGroups_of_stops hrest count
  | @ipv4 text a b c d htext =>
    obtain ⟨count, rfl⟩ : ∃ more, count = more + 2 := ⟨count - 2, (Nat.sub_add_cancel hcount).symm⟩
    have hread : readIpv4Addr (text ++ rest) = some (⟨[a, b, c, d]⟩, rest) :=
      readIpv4Addr_eq_some_iff.mpr
        ⟨text, rfl, htext, noDigit_of_head? (head?_after_group .nil hrest)⟩
    have hseparated : readSeparator 58 1 readIpv4Addr (58 :: text ++ rest) =
        some (⟨[a, b, c, d]⟩, rest) := readSeparator_succ_iff.mpr ⟨_, rfl, hread⟩
    simp only [readGroups, hseparated]
    rfl
  | @cons embedded text rest' group groups htext hgroups ih =>
    obtain ⟨count, rfl⟩ : ∃ more, count = more + 1 :=
      ⟨count - 1, (Nat.sub_add_cancel (Nat.one_le_of_lt hcount)).symm⟩
    have hafter := head?_after_group hgroups hrest
    have hipv4 : readSeparator 58 1 readIpv4Addr (58 :: (text ++ rest') ++ rest) = none := by
      rw [List.cons_append, List.append_assoc]
      simp [readSeparator, readGivenChar, readIpv4Addr_group htext hafter]
    have hgroup : readSeparator 58 1 (readNumber 16 4 65535 true) (58 :: (text ++ rest') ++ rest) =
        some (group, rest' ++ rest) := by
      rw [List.cons_append, List.append_assoc]
      exact readSeparator_succ_iff.mpr ⟨_, rfl,
        readGroup_eq_some_iff.mpr ⟨text, rfl, htext, noDigit_of_head? hafter⟩⟩
    simp only [readGroups, hipv4, hgroup, readGroups_succ, ite_self,
      ih (Nat.le_of_succ_le_succ hcount)]

/-- The first group is read as if there was a colon before it. -/
theorem readGroups_zero (count : Nat) (input : List UInt8) :
    readGroups 0 count input =
      match readGroups 1 count (58 :: input) with
      | ([], _, _) => ([], false, input)
      | r => r := by
  have hfirst {α : Type} (inner : Reader α) : readSeparator 58 0 inner input = inner input := rfl
  have hcolon {α : Type} (inner : Reader α) :
      readSeparator 58 1 inner (58 :: input) = inner input := by
    simp [readSeparator, readGivenChar]
  cases count with
  | zero => rfl
  | succ count =>
    simp only [readGroups, hfirst, hcolon, readGroups_succ]
    split
    · rfl
    · cases readNumber 16 4 65535 true input with
      | none => rfl
      | some r => rfl

theorem groupsText_of_readGroups {count : Nat} {input rest : List UInt8} {embedded : Bool}
    {groups : List Nat} (h : readGroups 0 count input = (groups, embedded, rest)) :
    ∃ text, input = text ++ rest ∧ GroupsText embedded text groups ∧ groups.length ≤ count := by
  rw [readGroups_zero] at h
  split at h
  · obtain ⟨rfl, rfl, rfl⟩ := h
    exact ⟨[], rfl, .nil, Nat.zero_le _⟩
  · next hne =>
    rw [h] at hne
    obtain ⟨text, hinput, hgroups, hlength⟩ := colonGroups_of_readGroups h
    cases hgroups with
    | nil => exact absurd rfl (hne _ _)
    | ipv4 htext =>
      obtain ⟨-, rfl⟩ := List.cons.inj hinput
      exact ⟨_, rfl, .groups (.ipv4 htext), hlength⟩
    | cons htext hgroups =>
      obtain ⟨-, rfl⟩ := List.cons.inj hinput
      exact ⟨_, rfl, .groups (.cons htext hgroups), hlength⟩

theorem readGroups_of_groupsText {count : Nat} {text rest : List UInt8} {embedded : Bool}
    {groups : List Nat} (h : GroupsText embedded text groups) (hcount : groups.length ≤ count)
    (hrest : Stops rest) : readGroups 0 count (text ++ rest) = (groups, embedded, rest) := by
  cases h with
  | nil =>
    cases count with
    | zero => rfl
    | succ count =>
      rcases hrest with rfl | ⟨tail, rfl⟩
      · have hipv4 : readIpv4Addr [] = none := rfl
        have hnumber : readNumber 16 4 65535 true [] = none := rfl
        simp [readGroups, readSeparator, hipv4, hnumber]
      · simp [readGroups, readSeparator, readIpv4Addr_colon, readNumber_colon]
  | groups hgroups =>
    have hread := readGroups_of_colonGroups hgroups hcount hrest
    rw [List.cons_append] at hread
    rw [readGroups_zero, hread]
    cases hgroups <;> rfl

theorem readGivenChar_eq_some_iff {target : UInt8} {input rest : List UInt8} :
    readGivenChar target input = some ((), rest) ↔ input = target :: rest := by
  cases input with
  | nil => exact iff_of_false (by simp [readGivenChar]) (by simp)
  | cons byte input => simp [readGivenChar]

/-- The texts of IPv6 addresses. -/
theorem parseIpv6Addr_eq_some_iff {text : List UInt8} {address : Ipv6Addr} :
    parseIpv6Addr text = some address ↔
      ∃ groups, IsIpv6Text text groups ∧ address = .ofGroups groups := by
  rw [parseIpv6Addr, parseWith_eq_some]
  constructor
  · intro h
    unfold readIpv6Addr at h
    rcases hhead : readGroups 0 8 text with ⟨before, embedded, rest⟩
    obtain ⟨head, rfl, hbefore, hlength⟩ := groupsText_of_readGroups hhead
    simp only [hhead] at h
    split at h
    · next height =>
      obtain ⟨rfl, rfl⟩ := Prod.mk.inj (Option.some.inj h)
      rw [List.append_nil]
      exact ⟨before, .full hbefore height, rfl⟩
    · next height =>
      split at h
      · cases h
      · next hembedded =>
        rw [Bool.not_eq_true] at hembedded
        subst hembedded
        simp only [Option.bind_eq_bind, Option.bind_eq_some_iff, Prod.exists] at h
        obtain ⟨⟨⟩, rest₁, hfirst, ⟨⟩, rest₂, hsecond, hresult⟩ := h
        rw [readGivenChar_eq_some_iff] at hfirst hsecond
        subst hfirst hsecond
        rcases htail : readGroups 0 (8 - (before.length + 1)) rest₂ with ⟨after, embedded, rest⟩
        obtain ⟨tail, rfl, hafter, hshort⟩ := groupsText_of_readGroups htail
        rw [htail] at hresult
        obtain ⟨rfl, rfl⟩ := Prod.mk.inj (Option.some.inj hresult)
        rw [List.append_nil]
        exact ⟨_, .compressed hbefore hafter (by omega), rfl⟩
  · rintro ⟨groups, htext, rfl⟩
    unfold readIpv6Addr
    cases htext with
    | @full embedded text groups hgroups height =>
      have hread : readGroups 0 8 (text ++ []) = (groups, embedded, []) :=
        readGroups_of_groupsText hgroups height.le (.inl rfl)
      rw [List.append_nil] at hread
      simp [hread, height]
    | @compressed embedded head tail before after hbefore hafter hshort =>
      have hhead : readGroups 0 8 (head ++ 58 :: 58 :: tail) =
          (before, false, 58 :: 58 :: tail) :=
        readGroups_of_groupsText hbefore (by omega) (.inr ⟨tail, rfl⟩)
      have htail : readGroups 0 (8 - (before.length + 1)) (tail ++ []) = (after, embedded, []) :=
        readGroups_of_groupsText hafter (by omega) (.inl rfl)
      rw [List.append_nil, Nat.add_sub_add_right 7 1] at htail
      have height : before.length ≠ 8 := by omega
      simp [hhead, htail, height, readGivenChar]

theorem IsIpv6Text.length_octets {text : List UInt8} {groups : List Nat}
    (h : IsIpv6Text text groups) : (Ipv6Addr.ofGroups groups).octets.length = 16 := by
  have height : groups.length = 8 := by
    cases h with
    | full _ hlength => exact hlength
    | compressed _ _ hshort =>
      rw [List.length_append, List.length_append, List.length_replicate]
      omega
  simp [Ipv6Addr.ofGroups, List.length_flatMap, height]

end IpText
