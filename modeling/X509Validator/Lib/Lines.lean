import X509Validator.Lib.Ascii
import Mathlib.Data.List.Basic

/-!
# Texts on one line

A text is on one line when it has no newline character, Rust's
`!s.contains('\n')`. How the string operations a formatter is made of treat
this: concatenation, joining with a separator, change of case, the decimal
digits of a number, and decoding from UTF-8.
-/

namespace Lines

def SingleLine (s : String) : Prop := '\n' ∉ s.toList

instance (s : String) : Decidable (SingleLine s) := inferInstanceAs (Decidable ('\n' ∉ s.toList))

theorem singleLine_append {s t : String} :
    SingleLine (s ++ t) ↔ SingleLine s ∧ SingleLine t := by
  simp [SingleLine, not_or]

/-- A literal, by its characters. -/
theorem singleLine_ofList {chars : List Char} (h : chars.all (· != '\n') = true) :
    SingleLine (String.ofList chars) := by
  rw [SingleLine, String.toList_ofList]
  intro hmem
  have hne := List.all_eq_true.mp h _ hmem
  exact absurd hne (by decide)

theorem singleLine_ofList_append {chars more : List Char} (h : chars.all (· != '\n') = true)
    (h' : more.all (· != '\n') = true) :
    SingleLine (String.ofList chars ++ String.ofList more) :=
  singleLine_append.mpr ⟨singleLine_ofList h, singleLine_ofList h'⟩

/-- A text in front changes nothing when it is on one line itself. -/
theorem singleLine_text_append {text s : String} (h : SingleLine text) :
    SingleLine (text ++ s) ↔ SingleLine s := by
  rw [singleLine_append, and_iff_right h]

theorem singleLine_append_text {text s : String} (h : SingleLine text) :
    SingleLine (s ++ text) ↔ SingleLine s := by
  rw [singleLine_append, and_iff_left h]

theorem singleLine_between {opening s closing : String} (hopening : SingleLine opening)
    (hclosing : SingleLine closing) :
    SingleLine (opening ++ s ++ closing) ↔ SingleLine s := by
  rw [singleLine_append_text hclosing, singleLine_text_append hopening]

theorem singleLine_join {pieces : List String} :
    SingleLine (String.join pieces) ↔ ∀ piece ∈ pieces, SingleLine piece := by
  simp [SingleLine, String.toList_join]

/-- Joining adds no newline of its own when the separator has none. -/
theorem singleLine_intercalate {separator : String} {pieces : List String}
    (h : SingleLine separator) :
    SingleLine (separator.intercalate pieces) ↔ ∀ piece ∈ pieces, SingleLine piece := by
  induction pieces with
  | nil => simp [SingleLine]
  | cons piece rest ih =>
    cases rest with
    | nil => simp only [String.intercalate_singleton, List.forall_mem_singleton]
    | cons next rest =>
      rw [String.intercalate_cons_cons, singleLine_append, singleLine_append, ih,
        List.forall_mem_cons (p := SingleLine) (a := piece), and_iff_left h]

/-- No letter becomes a newline. -/
theorem toLower_eq_newline {c : Char} (h : c.toLower = '\n') : c = '\n' := by
  by_cases hupper : c.val ≥ 'A'.val ∧ c.val ≤ 'Z'.val
  · have hlower : c.toLower = _ := dif_pos hupper
    have hval : c.val + 32 = 10 := congrArg Char.val (hlower.symm.trans h)
    have hle : c.val ≤ 90 := hupper.2
    rw [← UInt32.toNat_inj, UInt32.toNat_add] at hval
    rw [UInt32.le_iff_toNat_le] at hle
    simp only [UInt32.reduceToNat] at hval hle
    omega
  · have hlower : c.toLower = c := dif_neg hupper
    rwa [hlower] at h

theorem singleLine_toLower {s : String} (h : SingleLine s) : SingleLine s.toLower := by
  intro hmem
  have hlist : s.toLower.toList = s.toList.map Char.toLower := String.toList_map
  rw [hlist, List.mem_map] at hmem
  obtain ⟨c, hc, hlower⟩ := hmem
  rw [toLower_eq_newline hlower] at hc
  exact h hc

theorem singleLine_toString (n : Nat) : SingleLine (toString n) := by
  intro hmem
  rw [Nat.toString_eq_repr, Nat.toList_repr] at hmem
  have hdigit := Nat.isDigit_of_mem_toDigits (by decide) (by decide) hmem
  exact absurd hdigit (by decide)

/-! ## Texts from bytes -/

/-- Rust's `core::str::from_utf8`. -/
def fromUtf8 (value : List UInt8) : Option String := String.fromUTF8? ⟨value.toArray⟩

/-- No byte of a longer encoding is below 128. -/
theorem newline_mem_utf8EncodeChar {c : Char} :
    (10 : UInt8) ∈ String.utf8EncodeChar c ↔ c = '\n' := by
  have hlong : ∀ b : UInt8,
      10 ≠ b ||| 0xc0 ∧ 10 ≠ b ||| 0xe0 ∧ 10 ≠ b ||| 0xf0 ∧ 10 ≠ b ||| 0x80 :=
    Ascii.forall_uint8 (by decide +kernel)
  have hne (h : c.utf8Size ≠ 1) : c ≠ '\n' := by
    rintro rfl
    exact h rfl
  rcases c.utf8Size_eq with hsize | hsize | hsize | hsize
  · have hc : c.val.toNat ≤ 127 := Char.utf8Size_eq_one_iff.mp hsize
    rw [String.utf8EncodeChar_eq_singleton hsize, List.mem_singleton, ← UInt8.toNat_inj,
      ← Char.val_inj, ← UInt32.toNat_inj, UInt32.toNat_toUInt8, Nat.mod_eq_of_lt (by omega)]
    exact eq_comm
  · simp [String.utf8EncodeChar_eq_cons_cons hsize, hlong, hne (by omega)]
  · simp [String.utf8EncodeChar_eq_cons_cons_cons hsize, hlong, hne (by omega)]
  · simp [String.utf8EncodeChar_eq_cons_cons_cons_cons hsize, hlong, hne (by omega)]

theorem singleLine_iff_utf8 {s : String} :
    SingleLine s ↔ (10 : UInt8) ∉ s.toByteArray.data.toList := by
  obtain ⟨chars, rfl⟩ := s.exists_eq_ofList
  rw [SingleLine, String.toList_ofList, String.toByteArray_ofList, List.utf8Encode,
    List.toList_data_toByteArray, List.mem_flatMap]
  simp [newline_mem_utf8EncodeChar]

theorem singleLine_fromUtf8_iff {value : List UInt8} {s : String} (h : fromUtf8 value = some s) :
    SingleLine s ↔ (10 : UInt8) ∉ value := by
  rw [fromUtf8, String.fromUTF8?] at h
  split at h
  · next hvalid =>
    obtain rfl := Option.some.inj h
    exact singleLine_iff_utf8
  · contradiction

theorem singleLine_filterMap_fromUtf8_iff {values : List (List UInt8)}
    (h : ∀ value ∈ values, (fromUtf8 value).isSome) :
    (∀ s ∈ values.filterMap fromUtf8, SingleLine s) ↔ ∀ value ∈ values, (10 : UInt8) ∉ value := by
  constructor
  · intro hsingle value hvalue
    obtain ⟨s, hs⟩ := Option.isSome_iff_exists.mp (h value hvalue)
    exact (singleLine_fromUtf8_iff hs).mp (hsingle s (List.mem_filterMap.mpr ⟨value, hvalue, hs⟩))
  · intro hvalues s hmem
    obtain ⟨value, hvalue, hs⟩ := List.mem_filterMap.mp hmem
    exact (singleLine_fromUtf8_iff hs).mpr (hvalues value hvalue)

end Lines
