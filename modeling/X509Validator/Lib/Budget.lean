import Mathlib.Data.List.Basic
import Mathlib.Data.Nat.Init

/-!
# Budgets along a list

Every element of a list may limit how many elements after it have a cost. One
can go down the list with the smallest budget so far, or look at each element
with the number of elements after it that have a cost. `topDown_iff` says that
both accept the same lists. A budget of `none` is unlimited.
-/

namespace Budget

/-- The budget after an element that costs one unit, if there is one left. -/
def spend : Option Nat → Option (Option Nat)
  | none => some none
  | some 0 => none
  | some (budget + 1) => some (some budget)

/-- The smaller one of a budget and a limit. -/
def lower : Option Nat → Option Nat → Option Nat
  | budget, none => budget
  | none, some limit => some limit
  | some budget, some limit => some (min budget limit)

/-- A budget is enough for `n` units. -/
def Within : Option Nat → Nat → Prop
  | none, _ => True
  | some budget, n => n ≤ budget

theorem within_lower (budget limit : Option Nat) (n : Nat) :
    Within (lower budget limit) n ↔ Within budget n ∧ Within limit n := by
  cases limit with
  | none => simp [lower, Within]
  | some limit =>
    cases budget with
    | none => simp [lower, Within]
    | some budget => exact Nat.le_min

theorem within_succ_iff (budget : Option Nat) (n : Nat) :
    Within budget (n + 1) ↔ ∃ budget', spend budget = some budget' ∧ Within budget' n := by
  match budget with
  | none => simp [spend, Within]
  | some 0 => simp [spend, Within]
  | some (budget + 1) => simp [spend, Within]

section

variable {α : Type} (costs : α → Bool) (limit : α → Option (Option Nat))

/-- The budget below an element that has been paid for; `limit` refuses some
elements. -/
def enter (budget : Option Nat) (a : α) : Option (Option Nat) := (limit a).map (lower budget)

/-- Goes down the list. Every element is paid for first. -/
def descend : Option Nat → List α → Bool
  | _, [] => true
  | budget, a :: below =>
    match (if costs a then spend budget else some budget).bind (enter limit · a) with
    | none => false
    | some budget => descend budget below

/-- Starts with an unlimited budget; the first element is not paid for. -/
def topDown : List α → Bool
  | [] => true
  | a :: below =>
    match enter limit none a with
    | none => false
    | some budget => descend costs limit budget below

/-- The element is not refused, and its limit is enough for `n` units. -/
def Admits (a : α) (n : Nat) : Prop := ∃ bound, limit a = some bound ∧ Within bound n

theorem enter_iff (budget : Option Nat) (a : α) (n : Nat) :
    (∃ budget', enter limit budget a = some budget' ∧ Within budget' n) ↔
      Within budget n ∧ Admits limit a n := by
  unfold enter Admits
  cases hlimit : limit a with
  | none => simp
  | some bound => simp [within_lower]

theorem descend_cons_iff (budget : Option Nat) (a : α) (below : List α) :
    descend costs limit budget (a :: below) = true ↔
      ∃ paid, (if costs a then spend budget else some budget) = some paid ∧
        ∃ budget', enter limit paid a = some budget' ∧
          descend costs limit budget' below = true := by
  rw [descend]
  cases hpaid : (if costs a then spend budget else some budget) with
  | none => simp
  | some paid =>
    cases henter : enter limit paid a with
    | none => simp [henter]
    | some budget' => simp [henter]

/-- What one step down does to the units that the budget must be enough for. -/
theorem within_countP_cons_iff (budget : Option Nat) (a : α) (below : List α) :
    Within budget ((a :: below).countP costs) ↔
      ∃ paid, (if costs a then spend budget else some budget) = some paid ∧
        Within paid (below.countP costs) := by
  by_cases ha : costs a = true
  · rw [List.countP_cons_of_pos ha, within_succ_iff]
    simp [ha]
  · rw [List.countP_cons_of_neg ha]
    simp [ha]

theorem forall_split_cons {P : α → List α → Prop} {a : α} {l : List α} :
    (∀ above x below, a :: l = above ++ x :: below → P x below) ↔
      P a l ∧ ∀ above x below, l = above ++ x :: below → P x below := by
  constructor
  · intro h
    refine ⟨h [] a l rfl, fun above x below heq => h (a :: above) x below ?_⟩
    rw [heq]
    rfl
  · rintro ⟨hfirst, hrest⟩ above x below heq
    cases above with
    | nil =>
      cases heq
      exact hfirst
    | cons _ above =>
      cases heq
      exact hrest above x below rfl

theorem descend_iff (budget : Option Nat) (l : List α) :
    descend costs limit budget l = true ↔
      Within budget (l.countP costs) ∧
        ∀ above a below, l = above ++ a :: below → Admits limit a (below.countP costs) := by
  induction l generalizing budget with
  | nil =>
    have hnil : Within budget 0 := by cases budget <;> simp [Within]
    simp [descend, hnil]
  | cons a below ih =>
    rw [descend_cons_iff, forall_split_cons, within_countP_cons_iff]
    simp only [ih]
    constructor
    · rintro ⟨paid, hpaid, budget', henter, hwithin, hrest⟩
      obtain ⟨hpaid', hadmits⟩ := (enter_iff limit paid a _).mp ⟨budget', henter, hwithin⟩
      exact ⟨⟨paid, hpaid, hpaid'⟩, hadmits, hrest⟩
    · rintro ⟨⟨paid, hpaid, hpaid'⟩, hadmits, hrest⟩
      obtain ⟨budget', henter, hwithin⟩ := (enter_iff limit paid a _).mpr ⟨hpaid', hadmits⟩
      exact ⟨paid, hpaid, budget', henter, hwithin, hrest⟩

/-- The way down accepts when each limit is enough for what is below it. -/
theorem topDown_iff (l : List α) :
    topDown costs limit l = true ↔
      ∀ above a below, l = above ++ a :: below → Admits limit a (below.countP costs) := by
  cases l with
  | nil => simp [topDown]
  | cons a below =>
    rw [forall_split_cons, topDown]
    have henter := enter_iff limit none a (below.countP costs)
    cases hbudget : enter limit none a with
    | none =>
      rw [hbudget] at henter
      simp only [reduceCtorEq, false_and, exists_false, Within, true_and, false_iff] at henter
      simp [henter]
    | some budget =>
      rw [hbudget] at henter
      simp only [Option.some.injEq, exists_eq_left', Within, true_and] at henter
      rw [← henter]
      exact descend_iff costs limit budget below

end

end Budget
