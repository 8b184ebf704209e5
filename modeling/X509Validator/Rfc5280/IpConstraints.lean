import X509Validator.Certificate
import X509Validator.Lib.Bits

/-!
# IP address constraints

A constraint is an address and a mask of the same length. It matches the
addresses that agree with it where the mask has a one, provided that the mask is
that of a CIDR prefix.

Results:
1. `isValidCidrMask_eq`: the bytewise test of a mask is that its bits are ones
   followed by zeros.
2. `ip_address_matches_constraint_iff`: a match is membership in the subnet of a
   prefix length.
-/

namespace X509Validator

/-- `u8::leading_zeros`. -/
def leadingZeros (byte : UInt8) : Nat := if byte = 0 then 8 else 7 - byte.toNat.log2

def isValidCidrMask (mask : Bytes) : Bool :=
  -- from the first byte that is not all ones
  match mask.dropWhile fun byte => byte == 0xff with
  | [] => true
  | byte :: rest =>
    let leadingOneCount := leadingZeros (~~~byte)
    if leadingOneCount < 8 && byte <<< UInt8.ofNat leadingOneCount != 0 then false
    else rest.all fun byte => byte == 0

def addressIsInSubnet (address subnet : Bytes) : Bool :=
  let (base, mask) := subnet.splitAt (subnet.length / 2)
  if !isValidCidrMask mask then false
  else (address.zip (base.zip mask)).all fun (a, b, m) => (a &&& m) == (b &&& m)

/-- `NameConstraintsPolicy::ip_address_matches_constraint`. -/
def ipAddressMatchesConstraint (ipAddress constraint : Bytes) : Bool :=
  match ipAddress.length, constraint.length with
  | 4, 8 => addressIsInSubnet ipAddress constraint
  | 16, 32 => addressIsInSubnet ipAddress constraint
  | _, _ => false

/-! ## 1. Masks -/

theorem all_zero_eq (mask : Bytes) :
    (mask.all fun byte => byte == 0) = (Bits.ofBytes mask).all (· == false) := by
  induction mask with
  | nil => rfl
  | cons byte mask ih =>
    have hbyte : ∀ byte : UInt8, (byte == 0) = (Bits.ofByte byte).all (· == false) :=
      Ascii.forall_uint8 (by decide +kernel)
    rw [List.all_cons, ih, hbyte, Bits.ofBytes_cons, List.all_append]

/-- The test of the first byte that is not all ones. -/
theorem straddling_byte (byte : UInt8) :
    byte ≠ 0xff → false ∈ Bits.ofByte byte ∧
      ((leadingZeros (~~~byte) < 8 && byte <<< UInt8.ofNat (leadingZeros (~~~byte)) != 0) = true ↔
        Bits.onesThenZeros (Bits.ofByte byte) = false) := by
  revert byte
  exact Ascii.forall_uint8 (by decide +kernel)

theorem isValidCidrMask_eq (mask : Bytes) :
    isValidCidrMask mask = Bits.onesThenZeros (Bits.ofBytes mask) := by
  induction mask with
  | nil => rfl
  | cons byte mask ih =>
    by_cases hones : byte = 0xff
    · subst hones
      have hbits : Bits.ofByte 0xff = List.replicate 8 true := by decide
      rw [Bits.ofBytes_cons, hbits, Bits.onesThenZeros_ones_append, ← ih]
      simp [isValidCidrMask]
    · obtain ⟨hzero, hshift⟩ := straddling_byte byte hones
      rw [Bits.ofBytes_cons, Bits.onesThenZeros_append hzero, ← all_zero_eq]
      unfold isValidCidrMask
      rw [List.dropWhile_cons_of_neg (by simpa using hones)]
      by_cases hones' : Bits.onesThenZeros (Bits.ofByte byte) = true
      · have hbits := mt hshift.mp (by simp [hones'])
        simp only [hones', Bool.true_and, if_neg hbits]
      · rw [Bool.not_eq_true] at hones'
        simp only [hones', Bool.false_and, if_pos (hshift.mpr hones')]

/-- The bytes of the mask are `k` one bits followed by zero bits. -/
def IsPrefixMask (mask : Bytes) (k : Nat) : Prop :=
  k ≤ 8 * mask.length ∧
    Bits.ofBytes mask =
      List.replicate k true ++ List.replicate (8 * mask.length - k) false

theorem isValidCidrMask_iff {mask : Bytes} :
    isValidCidrMask mask = true ↔ ∃ k, IsPrefixMask mask k := by
  rw [isValidCidrMask_eq, Bits.onesThenZeros_iff, Bits.length_ofBytes]
  rfl

/-! ## 2. Subnets -/

/-- The address begins with the first `k` bits of the base. -/
def SharesPrefix (address base : Bytes) (k : Nat) : Prop :=
  (Bits.ofBytes address).take k = (Bits.ofBytes base).take k

/-- Under the mask of a prefix length, the addresses that agree with the base are
those that share the prefix. -/
theorem agree_under_mask_iff {address base mask : Bytes} {k : Nat}
    (hbase : base.length = address.length) (hmask : mask.length = address.length)
    (hones : IsPrefixMask mask k) :
    ((address.zip (base.zip mask)).all fun (a, b, m) => (a &&& m) == (b &&& m)) = true ↔
      SharesPrefix address base k := by
  obtain ⟨hk, hbits⟩ := hones
  have hmasked (s : Bytes) (hs : s.length = mask.length) :
      List.zipWith and (Bits.ofBytes s) (Bits.ofBytes mask) =
        (Bits.ofBytes s).take k ++ List.replicate (8 * mask.length - k) false := by
    have hlen : (Bits.ofBytes s).length = 8 * mask.length := by rw [Bits.length_ofBytes, hs]
    rw [hbits, ← hlen, Bits.zipWith_and_onesThenZeros (by rwa [hlen])]
  rw [Bits.forall_and_eq_iff hbase hmask, hmasked address hmask.symm,
    hmasked base (hbase.trans hmask.symm)]
  exact List.append_left_inj _

theorem addressIsInSubnet_iff {address subnet : Bytes}
    (hlen : subnet.length = 2 * address.length) :
    addressIsInSubnet address subnet = true ↔
      ∃ k, IsPrefixMask (subnet.drop address.length) k ∧
        SharesPrefix address (subnet.take address.length) k := by
  have hhalf : subnet.length / 2 = address.length := by omega
  have hbase : (subnet.take address.length).length = address.length := by
    rw [List.length_take]
    omega
  have hmask : (subnet.drop address.length).length = address.length := by
    rw [List.length_drop]
    omega
  unfold addressIsInSubnet
  rw [List.splitAt_eq, hhalf]
  by_cases hvalid : isValidCidrMask (subnet.drop address.length) = true
  · simp only [hvalid, Bool.not_true, Bool.false_eq_true, ↓reduceIte]
    constructor
    · intro hagree
      obtain ⟨k, hones⟩ := isValidCidrMask_iff.mp hvalid
      exact ⟨k, hones, (agree_under_mask_iff hbase hmask hones).mp hagree⟩
    · rintro ⟨k, hones, hshares⟩
      exact (agree_under_mask_iff hbase hmask hones).mpr hshares
  · simp only [hvalid, Bool.not_false, ↓reduceIte, Bool.false_eq_true, false_iff]
    rintro ⟨k, hones, -⟩
    exact hvalid (isValidCidrMask_iff.mpr ⟨k, hones⟩)

/-- The lengths of an address and of a constraint of the same family. -/
def SameFamily (ipAddress constraint : Bytes) : Prop :=
  (ipAddress.length = 4 ∧ constraint.length = 8) ∨
    (ipAddress.length = 16 ∧ constraint.length = 32)

/-- Anything else is not compared. -/
theorem ipAddressMatchesConstraint_eq (ipAddress constraint : Bytes) :
    ipAddressMatchesConstraint ipAddress constraint = true ↔
      SameFamily ipAddress constraint ∧ addressIsInSubnet ipAddress constraint = true := by
  unfold ipAddressMatchesConstraint SameFamily
  split
  · next haddress hconstraint => simp [haddress, hconstraint]
  · next haddress hconstraint => simp [haddress, hconstraint]
  · next hv4 hv6 =>
    simp only [Bool.false_eq_true, false_iff]
    rintro ⟨⟨haddress, hconstraint⟩ | ⟨haddress, hconstraint⟩, -⟩
    · exact hv4 haddress hconstraint
    · exact hv6 haddress hconstraint

/-- A match is CIDR membership: for a prefix length `k`, the second half of the
constraint is the mask of `k` and the address has the first `k` bits of the first
half. The mask test alone is exact for masks of every length. -/
theorem ip_address_matches_constraint_iff (ipAddress constraint mask : Bytes) :
    (ipAddressMatchesConstraint ipAddress constraint = true ↔
      SameFamily ipAddress constraint ∧
        ∃ k ≤ 8 * ipAddress.length, IsPrefixMask (constraint.drop ipAddress.length) k ∧
          SharesPrefix ipAddress (constraint.take ipAddress.length) k) ∧
    (isValidCidrMask mask = true ↔ ∃ k, IsPrefixMask mask k) := by
  refine ⟨?_, isValidCidrMask_iff⟩
  rw [ipAddressMatchesConstraint_eq]
  refine and_congr_right fun hfamily => ?_
  have hlen : constraint.length = 2 * ipAddress.length := by
    rcases hfamily with ⟨haddress, hconstraint⟩ | ⟨haddress, hconstraint⟩ <;> omega
  rw [addressIsInSubnet_iff hlen]
  constructor
  · rintro ⟨k, hones, hshares⟩
    refine ⟨k, ?_, hones, hshares⟩
    have hk := hones.1
    rw [List.length_drop] at hk
    omega
  · rintro ⟨k, -, hones, hshares⟩
    exact ⟨k, hones, hshares⟩

/-- The /0 prefix matches every address of its family, and `255.0.255.0` is no
mask. -/
example : ipAddressMatchesConstraint [192, 0, 2, 1] [10, 0, 0, 0, 0, 0, 0, 0] = true ∧
    isValidCidrMask [255, 0, 255, 0] = false := by
  decide +kernel

end X509Validator
