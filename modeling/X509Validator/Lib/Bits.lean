import X509Validator.Lib.Ascii
import Mathlib.Data.Nat.Bitwise

/-!
# Bits of byte strings

A byte string read as a string of bits, the most significant bit of each byte
first, and the bit strings that are ones followed by zeros. Masking with such a
string keeps a prefix.
-/

namespace Bits

open Ascii

/-- The bits of a byte, the most significant one first. -/
def ofByte (b : UInt8) : List Bool := (List.range 8).map fun i => b.toNat.testBit (7 - i)

/-- The bits of a byte string, in order. -/
def ofBytes (s : List UInt8) : List Bool := s.flatMap ofByte

@[simp] theorem ofBytes_nil : ofBytes [] = [] := rfl

@[simp] theorem ofBytes_cons (b : UInt8) (s : List UInt8) :
    ofBytes (b :: s) = ofByte b ++ ofBytes s :=
  List.flatMap_cons

@[simp] theorem length_ofByte (b : UInt8) : (ofByte b).length = 8 := by simp [ofByte]

@[simp] theorem length_ofBytes (s : List UInt8) : (ofBytes s).length = 8 * s.length := by
  induction s with
  | nil => rfl
  | cons b s ih =>
    simp only [ofBytes_cons, List.length_append, length_ofByte, ih, List.length_cons]
    omega

theorem ofByte_inj {a b : UInt8} : ofByte a = ofByte b ↔ a = b := by
  refine ⟨fun h => UInt8.toNat_inj.mp (Nat.eq_of_testBit_eq fun i => ?_), congrArg ofByte⟩
  by_cases hi : i < 8
  · have hbit := List.map_inj_left.mp h (7 - i) (by simp; omega)
    rwa [show 7 - (7 - i) = i by omega] at hbit
  · have hlt (c : UInt8) : c.toNat < 2 ^ i :=
      Nat.lt_of_lt_of_le c.toNat_lt (Nat.pow_le_pow_right (by decide) (by omega))
    rw [Nat.testBit_lt_two_pow (hlt a), Nat.testBit_lt_two_pow (hlt b)]

theorem ofByte_and (a b : UInt8) : ofByte (a &&& b) = List.zipWith and (ofByte a) (ofByte b) := by
  simp [ofByte, List.zipWith_map, List.zipWith_self, UInt8.toNat_and, Nat.testBit_and]

/-- Two byte strings agree under a mask when their bits do. -/
theorem forall_and_eq_iff {a b m : List UInt8} (hb : b.length = a.length)
    (hm : m.length = a.length) :
    ((a.zip (b.zip m)).all fun (x, y, z) => (x &&& z) == (y &&& z)) = true ↔
      List.zipWith and (ofBytes a) (ofBytes m) = List.zipWith and (ofBytes b) (ofBytes m) := by
  induction a generalizing b m with
  | nil =>
    obtain rfl := List.eq_nil_of_length_eq_zero hb
    simp
  | cons x a ih =>
    match b, m, hb, hm with
    | y :: b, z :: m, hb, hm =>
      have hbyte : (x &&& z) = (y &&& z) ↔
          List.zipWith and (ofByte x) (ofByte z) = List.zipWith and (ofByte y) (ofByte z) := by
        rw [← ofByte_and, ← ofByte_and, ofByte_inj]
      simp only [List.zip_cons_cons, List.all_cons, Bool.and_eq_true, beq_iff_eq, ofBytes_cons]
      rw [ih (Nat.succ.inj hb) (Nat.succ.inj hm), hbyte,
        List.zipWith_append (by simp), List.zipWith_append (by simp)]
      constructor
      · rintro ⟨hfirst, hrest⟩
        rw [hfirst, hrest]
      · intro heq
        exact List.append_inj heq (by simp)

/-! ## Ones followed by zeros -/

/-- Some ones followed only by zeros. -/
def onesThenZeros : List Bool → Bool
  | [] => true
  | true :: l => onesThenZeros l
  | false :: l => l.all (· == false)

theorem onesThenZeros_iff {l : List Bool} :
    onesThenZeros l = true ↔
      ∃ k ≤ l.length, l = List.replicate k true ++ List.replicate (l.length - k) false := by
  induction l with
  | nil => simp [onesThenZeros]
  | cons bit l ih =>
    cases bit with
    | true =>
      rw [onesThenZeros, ih]
      constructor
      · rintro ⟨k, hk, heq⟩
        refine ⟨k + 1, by simpa using hk, ?_⟩
        rw [List.replicate_succ, List.cons_append, List.length_cons, Nat.add_sub_add_right, ← heq]
      · rintro ⟨k, hk, heq⟩
        cases k with
        | zero => simp [List.replicate_succ] at heq
        | succ k =>
          refine ⟨k, by simpa using hk, ?_⟩
          rw [List.replicate_succ, List.cons_append, List.length_cons,
            Nat.add_sub_add_right] at heq
          exact (List.cons.inj heq).2
    | false =>
      rw [onesThenZeros, List.all_eq_true]
      constructor
      · intro hzeros
        refine ⟨0, Nat.zero_le _, ?_⟩
        refine List.eq_replicate_of_mem fun bit hbit => ?_
        rcases List.mem_cons.mp hbit with rfl | hbit
        · rfl
        · exact eq_of_beq (hzeros bit hbit)
      · rintro ⟨k, hk, heq⟩ bit hbit
        cases k with
        | zero =>
          have hmem : bit ∈ List.replicate (l.length + 1) false := by
            rw [show List.replicate (l.length + 1) false = false :: l from heq.symm]
            exact List.mem_cons_of_mem _ hbit
          simp [List.eq_of_mem_replicate hmem]
        | succ k => simp [List.replicate_succ] at heq

theorem onesThenZeros_ones_append (k : Nat) (l : List Bool) :
    onesThenZeros (List.replicate k true ++ l) = onesThenZeros l := by
  induction k with
  | zero => rfl
  | succ k ih => rw [List.replicate_succ, List.cons_append, onesThenZeros, ih]

/-- After a zero only zeros may follow. -/
theorem onesThenZeros_append {l l' : List Bool} (h : false ∈ l) :
    onesThenZeros (l ++ l') = (onesThenZeros l && l'.all (· == false)) := by
  induction l with
  | nil => cases h
  | cons bit l ih =>
    cases bit with
    | true => exact ih (by simpa using h)
    | false => simp [onesThenZeros]

theorem zipWith_and_replicate_true (l : List Bool) :
    List.zipWith and l (List.replicate l.length true) = l := by
  induction l with
  | nil => rfl
  | cons bit l ih => simp [List.replicate_succ, ih]

theorem zipWith_and_replicate_false (l : List Bool) :
    List.zipWith and l (List.replicate l.length false) = List.replicate l.length false := by
  induction l with
  | nil => rfl
  | cons bit l ih => simp [List.replicate_succ, ih]

/-- Masking with ones followed by zeros keeps the prefix under the ones. -/
theorem zipWith_and_onesThenZeros {l : List Bool} {k : Nat} (hk : k ≤ l.length) :
    List.zipWith and l (List.replicate k true ++ List.replicate (l.length - k) false) =
      l.take k ++ List.replicate (l.length - k) false := by
  obtain ⟨l₁, l₂, rfl, rfl⟩ : ∃ l₁ l₂, l = l₁ ++ l₂ ∧ l₁.length = k :=
    ⟨l.take k, l.drop k, (List.take_append_drop k l).symm, by simp [hk]⟩
  rw [List.length_append, Nat.add_sub_cancel_left, List.zipWith_append (by simp),
    zipWith_and_replicate_true, zipWith_and_replicate_false, List.take_left]

end Bits
