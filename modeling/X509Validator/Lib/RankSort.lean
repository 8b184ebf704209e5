import Mathlib.Data.List.Sort

/-!
# Stable sorting by a small rank

Sorting by a rank that takes the values `0, …, n - 1` only, and keeping the
order of elements of equal rank, lists the rank classes one after the other,
each in its original order. `List.insertionSort` does this, so facts about the
sorted list reduce to facts about `List.filter`.
-/

namespace RankSort

variable {α : Type*} (rank : α → Nat)

/-- The elements of `l` by rank class, each class in the order of `l`. -/
def byRank (n : Nat) (l : List α) : List α :=
  (List.range n).flatMap fun k => l.filter fun a => rank a = k

/-- Rank classes `lo, lo + 1, …, lo + n - 1` of `l`. -/
def classesFrom (lo n : Nat) (l : List α) : List α :=
  (List.range' lo n).flatMap fun k => l.filter fun a => rank a = k

theorem classesFrom_succ (lo n : Nat) (l : List α) :
    classesFrom rank lo (n + 1) l =
      (l.filter fun a => rank a = lo) ++ classesFrom rank (lo + 1) n l := by
  rw [classesFrom, List.range'_succ, List.flatMap_cons]
  rfl

theorem byRank_eq_classesFrom (n : Nat) (l : List α) :
    byRank rank n l = classesFrom rank 0 n l := by
  rw [byRank, classesFrom, List.range_eq_range']

variable {rank}

theorem rank_of_mem_classesFrom {lo n : Nat} {l : List α} {b : α}
    (h : b ∈ classesFrom rank lo n l) : lo ≤ rank b := by
  obtain ⟨k, hk, hb⟩ := List.mem_flatMap.mp h
  have hlo := (List.mem_range'_1.mp hk).1
  have hrank : rank b = k := by simpa using (List.mem_filter.mp hb).2
  omega

/-- Classes above the rank of `a` do not change when `a` is added. -/
theorem classesFrom_cons_of_lt {lo n : Nat} {l : List α} {a : α} (h : rank a < lo) :
    classesFrom rank lo n (a :: l) = classesFrom rank lo n l := by
  refine List.flatMap_congr fun k hk => ?_
  have hlo := (List.mem_range'_1.mp hk).1
  rw [List.filter_cons_of_neg (by simp; omega)]

/-- Elements of lower rank are passed over by an ordered insertion. -/
theorem orderedInsert_append_of_lt {a : α} {l₁ l₂ : List α} (h : ∀ b ∈ l₁, rank b < rank a) :
    List.orderedInsert (fun x y => rank x ≤ rank y) a (l₁ ++ l₂) =
      l₁ ++ List.orderedInsert (fun x y => rank x ≤ rank y) a l₂ := by
  induction l₁ with
  | nil => rfl
  | cons b l₁ ih =>
    have hb : ¬ rank a ≤ rank b := Nat.not_le.mpr (h b List.mem_cons_self)
    rw [List.cons_append, List.orderedInsert, if_neg hb,
      ih fun c hc => h c (List.mem_cons_of_mem b hc), List.cons_append]

/-- Elements of at least the same rank are passed in front of. -/
theorem orderedInsert_of_le {a : α} {l : List α} (h : ∀ b ∈ l, rank a ≤ rank b) :
    List.orderedInsert (fun x y => rank x ≤ rank y) a l = a :: l := by
  cases l with
  | nil => rfl
  | cons b l => rw [List.orderedInsert, if_pos (h b List.mem_cons_self)]

theorem orderedInsert_classesFrom {lo n : Nat} {l : List α} {a : α} (hlo : lo ≤ rank a)
    (hn : rank a < lo + n) :
    List.orderedInsert (fun x y => rank x ≤ rank y) a (classesFrom rank lo n l) =
      classesFrom rank lo n (a :: l) := by
  induction n generalizing lo with
  | zero => omega
  | succ n ih =>
    rw [classesFrom_succ, classesFrom_succ]
    rcases Nat.eq_or_lt_of_le hlo with heq | hlt
    · rw [List.filter_cons_of_pos (by simp [heq]), classesFrom_cons_of_lt (by omega),
        orderedInsert_of_le, List.cons_append]
      intro b hb
      rcases List.mem_append.mp hb with hb | hb
      · have hb : rank b = lo := by simpa using (List.mem_filter.mp hb).2
        omega
      · have := rank_of_mem_classesFrom hb
        omega
    · rw [List.filter_cons_of_neg (by simp; omega), orderedInsert_append_of_lt, ih hlt (by omega)]
      intro b hb
      have hb : rank b = lo := by simpa using (List.mem_filter.mp hb).2
      omega

/-- Sorting by rank lists the rank classes in order. -/
theorem insertionSort_eq_byRank {n : Nat} {l : List α} (h : ∀ a ∈ l, rank a < n) :
    l.insertionSort (fun x y => rank x ≤ rank y) = byRank rank n l := by
  rw [byRank_eq_classesFrom]
  induction l with
  | nil => simp [classesFrom]
  | cons a l ih =>
    rw [List.insertionSort_cons, ih fun b hb => h b (List.mem_cons_of_mem a hb)]
    exact orderedInsert_classesFrom (Nat.zero_le _) (by simpa using h a List.mem_cons_self)

theorem mem_byRank {n : Nat} {l : List α} {a : α} (h : rank a < n) :
    a ∈ byRank rank n l ↔ a ∈ l := by
  simp only [byRank, List.mem_flatMap, List.mem_range, List.mem_filter, decide_eq_true_eq]
  constructor
  · rintro ⟨_, _, ha, _⟩
    exact ha
  · intro ha
    exact ⟨rank a, h, ha, rfl⟩

theorem byRank_sublist {n : Nat} {l' l : List α} (h : l'.Sublist l) :
    (byRank rank n l').Sublist (byRank rank n l) := by
  rw [byRank, byRank]
  induction List.range n with
  | nil => exact List.Sublist.refl _
  | cons k ks ih =>
    rw [List.flatMap_cons, List.flatMap_cons]
    exact (h.filter _).append ih

/-- Selecting before or after the sort is the same. -/
theorem filter_byRank {n : Nat} {l : List α} {q : α → Bool} :
    (byRank rank n l).filter q = byRank rank n (l.filter q) := by
  rw [byRank, byRank, List.filter_flatMap]
  refine List.flatMap_congr fun k _ => ?_
  rw [List.filter_filter, List.filter_filter]
  exact List.filter_congr fun a _ => Bool.and_comm ..

end RankSort
