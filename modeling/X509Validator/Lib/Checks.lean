import Mathlib.Data.List.Basic

/-!
# Sequences of checks

A check is a computation in `Except ε` without a result. This module says when a
sequence of checks succeeds, and where its error comes from, for the two shapes
in which checks are combined: one after the other, and over a list.
-/

namespace Checks

universe u v

variable {ε : Type v} {α β : Type u}

theorem bind_eq_ok {x : Except ε α} {f : α → Except ε β} {b : β} :
    (x >>= f) = .ok b ↔ ∃ a, x = .ok a ∧ f a = .ok b := by
  cases x with
  | error e => simp [bind, Except.bind]
  | ok a => simp [bind, Except.bind]

theorem bind_eq_error {x : Except ε α} {f : α → Except ε β} {e : ε} :
    (x >>= f) = .error e ↔ x = .error e ∨ ∃ a, x = .ok a ∧ f a = .error e := by
  cases x with
  | error e => simp [bind, Except.bind]
  | ok a => simp [bind, Except.bind]

/-- One check after the other. -/
theorem seq_eq_ok {x y : Except ε Unit} :
    (do x; y) = .ok () ↔ x = .ok () ∧ y = .ok () := by
  rw [bind_eq_ok]
  constructor
  · rintro ⟨_, hx, hy⟩
    exact ⟨hx, hy⟩
  · rintro ⟨hx, hy⟩
    exact ⟨(), hx, hy⟩

/-- A check of every element of a list. -/
def forEach (check : α → Except ε Unit) : List α → Except ε Unit
  | [] => .ok ()
  | a :: l => do
    check a
    forEach check l

theorem forEach_eq_ok {check : α → Except ε Unit} {l : List α} :
    forEach check l = .ok () ↔ ∀ a ∈ l, check a = .ok () := by
  induction l with
  | nil => simp [forEach]
  | cons a l ih => rw [forEach, seq_eq_ok, ih, List.forall_mem_cons]

/-- The error of a list of checks is the error of one of them. -/
theorem exists_of_forEach_eq_error {check : α → Except ε Unit} {l : List α} {e : ε}
    (h : forEach check l = .error e) : ∃ a ∈ l, check a = .error e := by
  induction l with
  | nil => simp [forEach] at h
  | cons a l ih =>
    rcases bind_eq_error.mp h with h | ⟨_, _, h⟩
    · exact ⟨a, List.mem_cons_self, h⟩
    · obtain ⟨b, hb, h⟩ := ih h
      exact ⟨b, List.mem_cons_of_mem a hb, h⟩

end Checks
