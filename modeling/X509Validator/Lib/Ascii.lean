import Mathlib.Data.List.Basic

/-!
# ASCII bytes

The classification and case functions of Rust's `u8`, and comparison of byte
strings up to ASCII case.
-/

namespace Ascii

/-- A property of bytes that holds for the 256 values. -/
theorem forall_uint8 {P : UInt8 → Prop} (h : ∀ n : Fin 256, P (UInt8.ofNat n)) (b : UInt8) :
    P b := by
  have hb := h ⟨b.toNat, b.toNat_lt⟩
  rwa [UInt8.ofNat_toNat] at hb

def isAsciiUppercase (b : UInt8) : Bool := 65 ≤ b && b ≤ 90

def isAsciiLowercase (b : UInt8) : Bool := 97 ≤ b && b ≤ 122

def isAsciiAlphabetic (b : UInt8) : Bool := isAsciiUppercase b || isAsciiLowercase b

def isAsciiDigit (b : UInt8) : Bool := 48 ≤ b && b ≤ 57

def isAsciiAlphanumeric (b : UInt8) : Bool := isAsciiAlphabetic b || isAsciiDigit b

def toAsciiLowercase (b : UInt8) : UInt8 := if isAsciiUppercase b then b ||| 0x20 else b

def eqIgnoreAsciiCase (a b : UInt8) : Bool := toAsciiLowercase a == toAsciiLowercase b

/-- `to_ascii_lowercase` of a byte string. -/
def lowercase (s : List UInt8) : List UInt8 := s.map toAsciiLowercase

/-- A byte that is not a letter has no other case. -/
theorem toAsciiLowercase_eq_iff {b c : UInt8} (h : isAsciiAlphabetic c = false) :
    toAsciiLowercase b = c ↔ b = c := by
  have hb : ∀ b, toAsciiLowercase b = b ∨
      isAsciiAlphabetic b = true ∧ isAsciiAlphabetic (toAsciiLowercase b) = true :=
    forall_uint8 (by decide +kernel)
  rcases hb b with hb | ⟨hb, hb'⟩
  · rw [hb]
  · constructor
    · rintro rfl
      simp [hb'] at h
    · rintro rfl
      simp [hb] at h

theorem isAsciiDigit_toAsciiLowercase (b : UInt8) :
    isAsciiDigit (toAsciiLowercase b) = isAsciiDigit b := by
  revert b
  exact forall_uint8 (by decide +kernel)

theorem lowercase_lowercase (s : List UInt8) : lowercase (lowercase s) = lowercase s := by
  have hbyte : ∀ b : UInt8, toAsciiLowercase (toAsciiLowercase b) = toAsciiLowercase b :=
    forall_uint8 (by decide +kernel)
  simp only [lowercase, List.map_map, Function.comp_def, hbyte]

theorem mem_lowercase_iff {s : List UInt8} {b : UInt8} (h : isAsciiAlphabetic b = false) :
    b ∈ lowercase s ↔ b ∈ s := by
  rw [lowercase, List.mem_map]
  constructor
  · rintro ⟨c, hc, heq⟩
    rw [toAsciiLowercase_eq_iff h] at heq
    rwa [heq] at hc
  · intro hb
    exact ⟨b, hb, (toAsciiLowercase_eq_iff h).mpr rfl⟩

end Ascii
