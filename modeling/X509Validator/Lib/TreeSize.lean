import X509Validator.Lib.StackSearch
import Mathlib.Algebra.Order.BigOperators.Group.List
import Mathlib.Algebra.Order.Ring.Nat
import Mathlib.Data.Nat.Factorial.Basic

/-!
# How large a search tree is

A search that uses up one thing at every step, and may use any that is left, runs
through the arrangements of these things. Their number is the bound for every tree
whose nodes have no more children than their rank, and there are trees that reach
it.

* `arrangements`: the number of arrangements, which is at least the factorial.
* `SearchTree.countP_preorder_le`, `SearchTree.countP_preorder_eq`: how much the
  tree below a node contributes.
-/

namespace StackSearch

/-- The number of ways to pick some of `r` things one after the other, none of them
twice. -/
def arrangements : Nat → Nat
  | 0 => 1
  | r + 1 => 1 + (r + 1) * arrangements r

theorem arrangements_succ_mul (r w : Nat) :
    arrangements (r + 1) * w = w + (r + 1) * (arrangements r * w) := by
  show (1 + (r + 1) * arrangements r) * w = _
  rw [Nat.add_mul 1, Nat.one_mul, Nat.mul_assoc]

theorem factorial_le_arrangements (r : Nat) : r.factorial ≤ arrangements r := by
  induction r with
  | zero => exact le_refl 1
  | succ r ih =>
    rw [Nat.factorial_succ, arrangements]
    exact (Nat.mul_le_mul_left (r + 1) ih).trans (Nat.le_add_left _ 1)

theorem arrangements_mono : Monotone arrangements := by
  refine monotone_nat_of_le_succ fun r => ?_
  rw [arrangements, Nat.add_mul, Nat.one_mul]
  omega

namespace SearchTree

variable {Node Item : Type*}

theorem countP_preorder (T : SearchTree Node Item) (q : Item → Bool) (n : Node) :
    (T.preorder n).countP q =
      (T.visit n).countP q + ((T.children n).map fun c => (T.preorder c).countP q).sum := by
  rw [preorder_eq, List.countP_append, List.countP_flatMap]
  rfl

section

variable {T : SearchTree Node Item} {q : Item → Bool} {w : Nat}

/-- If a node contributes at most `w` items and has at most as many children as its
rank, then the tree below it contributes at most `w` for each arrangement. -/
theorem countP_preorder_le (visit : ∀ n, (T.visit n).countP q ≤ w)
    (children : ∀ n, (T.children n).length ≤ T.rank n) (n : Node) :
    (T.preorder n).countP q ≤ arrangements (T.rank n) * w := by
  induction n using T.induction with
  | step n ih =>
    rw [countP_preorder]
    cases hrank : T.rank n with
    | zero =>
      have hnone : T.children n = [] :=
        List.length_eq_zero_iff.mp (Nat.le_zero.mp (hrank ▸ children n))
      simpa [hnone, arrangements] using visit n
    | succ r =>
      have hbelow : ∀ x ∈ (T.children n).map (fun c => (T.preorder c).countP q),
          x ≤ arrangements r * w := by
        rw [List.forall_mem_map]
        intro c hc
        have hlt : T.rank c < r + 1 := hrank ▸ T.rank_lt hc
        exact (ih c hc).trans (Nat.mul_le_mul_right w (arrangements_mono (Nat.le_of_lt_succ hlt)))
      have hsum := List.sum_le_card_nsmul _ _ hbelow
      rw [List.length_map, Nat.nsmul_eq_mul] at hsum
      have hlength : (T.children n).length ≤ r + 1 := hrank ▸ children n
      calc (T.visit n).countP q + ((T.children n).map fun c => (T.preorder c).countP q).sum
          ≤ w + (r + 1) * (arrangements r * w) :=
            Nat.add_le_add (visit n) (hsum.trans (Nat.mul_le_mul_right _ hlength))
        _ = arrangements (r + 1) * w := (arrangements_succ_mul r w).symm

/-- The bound is reached below a node from which on every node contributes `w`
items and has as many children as its rank, each of the next smaller rank. -/
theorem countP_preorder_eq {P : Node → Prop} (pass : ∀ n, P n → ∀ c ∈ T.children n, P c)
    (visit : ∀ n, P n → (T.visit n).countP q = w)
    (children : ∀ n, P n → (T.children n).length = T.rank n)
    (rank : ∀ n, P n → ∀ c ∈ T.children n, T.rank c + 1 = T.rank n) {n : Node} (hn : P n) :
    (T.preorder n).countP q = arrangements (T.rank n) * w := by
  induction n using T.induction with
  | step n ih =>
    rw [countP_preorder, visit n hn]
    cases hrank : T.rank n with
    | zero =>
      have hnone : T.children n = [] :=
        List.length_eq_zero_iff.mp ((children n hn).trans hrank)
      simp [hnone, arrangements]
    | succ r =>
      have hbelow : ∀ x ∈ (T.children n).map (fun c => (T.preorder c).countP q),
          x = arrangements r * w := by
        rw [List.forall_mem_map]
        intro c hc
        have hr : T.rank c = r := Nat.succ_inj.mp ((rank n hn c hc).trans hrank)
        rw [ih c hc (pass n hn c hc), hr]
      rw [List.sum_eq_card_nsmul _ _ hbelow, List.length_map, children n hn, hrank,
        Nat.nsmul_eq_mul, arrangements_succ_mul]

end

end SearchTree

end StackSearch
