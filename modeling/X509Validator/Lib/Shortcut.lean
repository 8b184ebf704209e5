import Mathlib.Data.List.Chain
import Mathlib.Data.List.Nodup

/-!
# Shortcuts in paths

A path is a list in which each element is related to the next one. If the
relation depends on the key of its second element only, then between two
elements with the same key the path can be cut short: the element before the
first of them is also related to the second. Cutting from the end of the path
leaves at most one element for each key, and both ends in place.
-/

namespace Shortcut

variable {α κ : Type*} {R : α → α → Prop}

/-- A path from `first` to `last` has a shortcut without repeated keys after the
first element. -/
theorem exists_shortcut (key : α → κ) (hkey : ∀ a b b', key b = key b' → R a b → R a b')
    {first last : α} {middle : List α} (h : (first :: middle ++ [last]).IsChain R) :
    ∃ middle', middle'.Sublist middle ∧ (first :: middle' ++ [last]).IsChain R ∧
      ((middle' ++ [last]).map key).Nodup := by
  induction middle generalizing first with
  | nil => exact ⟨[], List.Sublist.refl [], h, List.nodup_singleton _⟩
  | cons second middle ih =>
    obtain ⟨hfirst, hrest⟩ := List.isChain_cons_cons.mp h
    obtain ⟨middle', hsublist, hchain, hnodup⟩ := ih hrest
    by_cases hsecond : key second ∈ (middle' ++ [last]).map key
    · obtain ⟨later, hmem, hlater⟩ := List.mem_map.mp hsecond
      have hfirst := hkey first second later hlater.symm hfirst
      rcases List.mem_append.mp hmem with hmem | hmem
      · obtain ⟨before, after, rfl⟩ := List.append_of_mem hmem
        have htail : ((later :: after) ++ [last]).Sublist
            ((before ++ later :: after) ++ [last]) := by
          rw [List.append_assoc]
          exact List.sublist_append_right before _
        refine ⟨later :: after, ?_, List.isChain_cons_cons.mpr ⟨hfirst, ?_⟩,
          hnodup.sublist (htail.map key)⟩
        · exact ((List.sublist_append_right before _).trans hsublist).trans
            (List.sublist_cons_self second middle)
        · have hsuffix : (second :: (before ++ later :: after) ++ [last]) =
              (second :: before) ++ (later :: after ++ [last]) := by
            simp
          rw [hsuffix] at hchain
          exact hchain.right_of_append
      · obtain rfl := List.mem_singleton.mp hmem
        refine ⟨[], List.nil_sublist _, ?_, List.nodup_singleton _⟩
        exact List.isChain_cons_cons.mpr ⟨hfirst, List.isChain_singleton _⟩
    · refine ⟨second :: middle', hsublist.cons_cons second, ?_, ?_⟩
      · exact List.isChain_cons_cons.mpr ⟨hfirst, hchain⟩
      · rw [List.cons_append, List.map_cons]
        exact List.nodup_cons.mpr ⟨hsecond, hnodup⟩

end Shortcut
