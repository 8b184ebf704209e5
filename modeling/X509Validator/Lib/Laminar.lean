import Mathlib

/-!
# Nested or disjoint

Families of sets in which any two are nested or have nothing in common, such as
the lists that begin with a given one. Such a family has no partial overlaps, so
of any finite number of its members those that are not inside another one are
pairwise disjoint and cover the rest.

* `NestedOrDisjoint`: the relation, and that it is kept by what is done to both
  sets alike (`inter`, `preimage`, `bindPreimage`).
* `nestedOrDisjoint_under`: the lists below a given one.
* `exists_sublist_pairwise`: the members that are not inside another one.
-/

namespace Laminar

variable {α β : Type*}

def NestedOrDisjoint (s t : Set α) : Prop := s ⊆ t ∨ t ⊆ s ∨ Disjoint s t

theorem NestedOrDisjoint.of_mem {s t : Set α} (h : ∀ x ∈ s, x ∈ t → s ⊆ t ∨ t ⊆ s) :
    NestedOrDisjoint s t := by
  by_cases hmeet : ∃ x ∈ s, x ∈ t
  · obtain ⟨x, hs, ht⟩ := hmeet
    exact (h x hs ht).imp_right .inl
  · exact .inr (.inr (Set.disjoint_left.mpr fun x hs ht => hmeet ⟨x, hs, ht⟩))

theorem NestedOrDisjoint.inter {s t : Set α} (h : NestedOrDisjoint s t) (u : Set α) :
    NestedOrDisjoint (u ∩ s) (u ∩ t) := by
  rcases h with h | h | h
  · exact .inl (Set.inter_subset_inter_right u h)
  · exact .inr (.inl (Set.inter_subset_inter_right u h))
  · exact .inr (.inr (h.mono Set.inter_subset_right Set.inter_subset_right))

theorem NestedOrDisjoint.preimage {s t : Set β} (h : NestedOrDisjoint s t)
    (f : α → β) : NestedOrDisjoint (Set.preimage f s) (Set.preimage f t) := by
  rcases h with h | h | h
  · exact .inl (Set.preimage_mono h)
  · exact .inr (.inl (Set.preimage_mono h))
  · exact .inr (.inr (h.preimage f))

/-- What a partial function takes into a set. -/
def bindPreimage (f : α → Option β) (s : Set β) : Set α := {x | ∃ y, f x = some y ∧ y ∈ s}

theorem bindPreimage_mono {f : α → Option β} {s t : Set β} (h : s ⊆ t) :
    bindPreimage f s ⊆ bindPreimage f t := by
  rintro x ⟨y, hy, hs⟩
  exact ⟨y, hy, h hs⟩

theorem NestedOrDisjoint.bindPreimage {s t : Set β} (h : NestedOrDisjoint s t)
    (f : α → Option β) :
    NestedOrDisjoint (Laminar.bindPreimage f s) (Laminar.bindPreimage f t) := by
  rcases h with h | h | h
  · exact .inl (bindPreimage_mono h)
  · exact .inr (.inl (bindPreimage_mono h))
  · refine .inr (.inr (Set.disjoint_left.mpr ?_))
    rintro x ⟨y, hy, hs⟩ ⟨y', hy', ht⟩
    obtain rfl : y = y' := Option.some.inj (hy.symm.trans hy')
    exact Set.disjoint_left.mp h hs ht

/-! ## Lists below a given one -/

/-- The lists that begin with `l`, without `l` itself where `strict` is set. -/
def under (strict : Bool) (l : List α) : Set (List α) :=
  {m | l <+: m ∧ (strict = true → l ≠ m)}

theorem under_subset_of_ne {strict strict' : Bool} {l l' : List α} (hbegins : l <+: l')
    (hne : l ≠ l') : under strict' l' ⊆ under strict l := by
  rintro m ⟨hm, -⟩
  refine ⟨hbegins.trans hm, fun _ heq => hne ?_⟩
  subst heq
  exact hbegins.eq_of_length_le hm.length_le

theorem under_subset_self (l : List α) : under true l ⊆ under false l :=
  fun _ hm => ⟨hm.1, fun hstrict => nomatch hstrict⟩

theorem nestedOrDisjoint_under (strict strict' : Bool) (l l' : List α) :
    NestedOrDisjoint (under strict l) (under strict' l') := by
  refine .of_mem fun m hm hm' => ?_
  by_cases heq : l = l'
  · subst heq
    cases strict with
    | true =>
      cases strict' with
      | true => exact .inl subset_rfl
      | false => exact .inl (under_subset_self l)
    | false =>
      cases strict' with
      | true => exact .inr (under_subset_self l)
      | false => exact .inl subset_rfl
  · rcases List.prefix_or_prefix_of_prefix hm.1 hm'.1 with hbegins | hbegins
    · exact .inr (under_subset_of_ne hbegins heq)
    · exact .inl (under_subset_of_ne hbegins fun h => heq h.symm)

/-! ## Members that are not inside another one -/

/-- If any two elements of a list are comparable or apart, then a sublist whose
elements are pairwise apart has an element above every element of the list. -/
theorem exists_sublist_pairwise (below apart : α → α → Prop) (refl : ∀ a, below a a)
    (trans : ∀ a b c, below a b → below b c → below a c) (l : List α)
    (h : ∀ a ∈ l, ∀ b ∈ l, below a b ∨ below b a ∨ apart a b) :
    ∃ l' : List α, l'.Sublist l ∧ l'.Pairwise apart ∧ ∀ a ∈ l, ∃ b ∈ l', below a b := by
  classical
  induction l with
  | nil => exact ⟨[], List.Sublist.refl _, List.Pairwise.nil, fun _ ha => nomatch ha⟩
  | cons a l ih =>
    obtain ⟨l', hsublist, hpairwise, hcover⟩ :=
      ih fun b hb c hc => h b (List.mem_cons_of_mem a hb) c (List.mem_cons_of_mem a hc)
    by_cases habove : ∃ b ∈ l', below a b
    · refine ⟨l', hsublist.cons a, hpairwise, fun c hc => ?_⟩
      rcases List.mem_cons.mp hc with rfl | hc
      · exact habove
      · exact hcover c hc
    · refine ⟨a :: l'.filter fun b => ¬ below b a,
        (List.filter_sublist.trans hsublist).cons_cons a, ?_, fun c hc => ?_⟩
      · refine List.pairwise_cons.mpr ⟨fun b hb => ?_, hpairwise.filter _⟩
        obtain ⟨hb, hnot⟩ := List.mem_filter.mp hb
        rcases h a List.mem_cons_self b (List.mem_cons_of_mem a (hsublist.subset hb)) with
          hab | hba | hapart
        · exact absurd ⟨b, hb, hab⟩ habove
        · simp [hba] at hnot
        · exact hapart
      · rcases List.mem_cons.mp hc with rfl | hc
        · exact ⟨c, List.mem_cons_self, refl c⟩
        · obtain ⟨b, hb, hcb⟩ := hcover c hc
          by_cases hba : below b a
          · exact ⟨a, List.mem_cons_self, trans c b a hcb hba⟩
          · exact ⟨b, List.mem_cons_of_mem a (List.mem_filter.mpr ⟨hb, by simpa using hba⟩), hcb⟩

end Laminar
