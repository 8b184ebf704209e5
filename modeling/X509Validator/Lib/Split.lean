import Mathlib.Data.List.DropRight
import Mathlib.Data.List.Infix

/-!
# Splitting lists at an element

What `takeWhile` and its counterparts from the right return on a list that is
given by its parts, and the parts of a list around the last occurrence of an
element.
-/

namespace Split

section

variable {α : Type} {p : α → Bool}

/-- The parts of a list around the first element that fails the test. -/
theorem takeWhile_append {l l' : List α} (hl : ∀ a ∈ l, p a = true)
    (hl' : ∀ a ∈ l'.head?, p a = false) : (l ++ l').takeWhile p = l := by
  rw [List.takeWhile_append_of_pos hl]
  cases l' with
  | nil => simp
  | cons a l' => rw [List.takeWhile_cons_of_neg (by simp [hl' a rfl]), List.append_nil]

theorem dropWhile_append {l l' : List α} (hl : ∀ a ∈ l, p a = true)
    (hl' : ∀ a ∈ l'.head?, p a = false) : (l ++ l').dropWhile p = l' := by
  rw [List.dropWhile_append_of_pos hl]
  cases l' with
  | nil => rfl
  | cons a l' => rw [List.dropWhile_cons_of_neg (by simp [hl' a rfl])]

theorem exists_takeWhile (l : List α) :
    ∃ rest, l = l.takeWhile p ++ rest ∧ ∀ a ∈ rest.head?, p a = false := by
  refine ⟨l.dropWhile p, List.takeWhile_append_dropWhile.symm, fun a ha => ?_⟩
  have hhead := List.head?_dropWhile_not p l
  rw [Option.mem_def] at ha
  rwa [ha] at hhead

/-- The parts of a list around the last occurrence of an element. -/
theorem exists_last {a : α} {l : List α} (h : a ∈ l) :
    ∃ before after, l = before ++ a :: after ∧ a ∉ after := by
  obtain ⟨after, before, hreverse, hafter⟩ :=
    List.eq_append_cons_of_mem (List.mem_reverse.mpr h)
  refine ⟨before.reverse, after.reverse, ?_, fun hmem => hafter (List.mem_reverse.mp hmem)⟩
  rw [← List.reverse_reverse l, hreverse]
  simp

/-- A list begins and ends with two others, and has something in between. -/
theorem exists_between_iff {l before after : List α} :
    (before.length + after.length < l.length ∧ l.take before.length = before ∧
        l.drop (l.length - after.length) = after) ↔
      ∃ middle, middle ≠ [] ∧ l = before ++ (middle ++ after) := by
  constructor
  · rintro ⟨hlt, hbefore, hafter⟩
    have hstart : before.length + (l.length - before.length - after.length) =
        l.length - after.length := by omega
    have hsplit := List.take_append_drop (l.length - before.length - after.length)
      (l.drop before.length)
    rw [List.drop_drop, hstart, hafter] at hsplit
    refine ⟨(l.drop before.length).take (l.length - before.length - after.length), ?_, ?_⟩
    · refine List.ne_nil_of_length_pos ?_
      rw [List.length_take, List.length_drop]
      omega
    · calc l = l.take before.length ++ l.drop before.length := (List.take_append_drop ..).symm
        _ = _ := by rw [hbefore, hsplit]
  · rintro ⟨middle, hmiddle, rfl⟩
    have hpos := List.length_pos_of_ne_nil hmiddle
    refine ⟨by simp only [List.length_append]; omega, List.take_left, ?_⟩
    rw [← List.append_assoc, List.length_append, Nat.add_sub_cancel, List.drop_left]

/-- A gap in a list that two different elements fill has its place. -/
theorem gap_unique {a b a' b' : α} {before after before' after' : List α} (hne : a ≠ b)
    (ha : before ++ a :: after = before' ++ a' :: after')
    (hb : before ++ b :: after = before' ++ b' :: after') : before = before' ∧ after = after' := by
  rcases List.append_eq_append_iff.mp ha with ⟨more, rfl, hmore⟩ | ⟨more, rfl, hmore⟩
  · cases more with
    | nil => exact ⟨(List.append_nil before).symm, (List.cons.inj hmore).2⟩
    | cons c more =>
      rw [List.append_assoc, List.append_cancel_left_eq, List.cons_append] at hb
      rw [List.cons_append] at hmore
      exact absurd ((List.cons.inj hmore).1.trans (List.cons.inj hb).1.symm) hne
  · cases more with
    | nil => exact ⟨List.append_nil before', (List.cons.inj hmore).2.symm⟩
    | cons c more =>
      rw [List.append_assoc, List.append_cancel_left_eq, List.cons_append] at hb
      rw [List.cons_append] at hmore
      have hafter : more ++ a :: after = more ++ b :: after :=
        (List.cons.inj hmore).2.symm.trans (List.cons.inj hb).2.symm
      exact absurd (List.cons.inj (List.append_cancel_left hafter)).1 hne

end

section

variable {α : Type} [BEq α] [LawfulBEq α] {a : α} {before after l : List α}

theorem bne_of_not_mem (h : a ∉ l) : ∀ b ∈ l, (b != a) = true := by
  intro b hb
  rw [bne_iff_ne]
  rintro rfl
  exact h hb

theorem takeWhile_bne (h : a ∉ before) :
    (before ++ a :: after).takeWhile (· != a) = before := by
  refine takeWhile_append (bne_of_not_mem h) ?_
  simp

theorem dropWhile_bne (h : a ∉ before) :
    (before ++ a :: after).dropWhile (· != a) = a :: after := by
  rw [List.dropWhile_append_of_pos (bne_of_not_mem h), List.dropWhile_cons_of_neg (by simp)]

theorem rtakeWhile_bne (h : a ∉ after) :
    (before ++ a :: after).rtakeWhile (· != a) = after := by
  have hreverse : a ∉ after.reverse := fun hmem => h (List.mem_reverse.mp hmem)
  rw [List.rtakeWhile, List.reverse_append, List.reverse_cons, List.append_assoc,
    List.singleton_append, takeWhile_bne hreverse, List.reverse_reverse]

theorem rdropWhile_bne (h : a ∉ after) :
    (before ++ a :: after).rdropWhile (· != a) = before ++ [a] := by
  have hreverse : a ∉ after.reverse := fun hmem => h (List.mem_reverse.mp hmem)
  rw [List.rdropWhile, List.reverse_append, List.reverse_cons, List.append_assoc,
    List.singleton_append, dropWhile_bne hreverse, List.reverse_cons, List.reverse_reverse]

theorem rtakeWhile_of_not_mem (h : a ∉ l) : l.rtakeWhile (· != a) = l :=
  List.rtakeWhile_eq_self_iff.mpr (bne_of_not_mem h)

end

end Split
