import Mathlib.Data.Multiset.AddSub
import Mathlib.Data.Multiset.MapFold

/-!
# Obligations of a trace

Events of a trace may open obligations and may close one. `Settles es m m'` says
that the events `es` take the open obligations `m` to `m'`: an event that closes
obligations takes exactly one of those that are open, and whatever an event
opens stays open until a later event closes it. So if `Settles es 0 0`, every
obligation that is opened is closed by exactly one later event, and every event
that can close an obligation does close one that was opened before it.
-/

namespace Obligations

variable {Event Obligation : Type*}

/-- The open obligations before and after some events. -/
inductive Settles (opens : Event → Multiset Obligation) (Closes : Event → Obligation → Prop) :
    List Event → Multiset Obligation → Multiset Obligation → Prop
  | nil (m : Multiset Obligation) : Settles opens Closes [] m m
  | opening {e : Event} {es : List Event} {m m' : Multiset Obligation} :
      (∀ o, ¬ Closes e o) → Settles opens Closes es (opens e + m) m' →
      Settles opens Closes (e :: es) m m'
  | closing {e : Event} {es : List Event} {o : Obligation} {m m' : Multiset Obligation} :
      Closes e o → Settles opens Closes es (opens e + m) m' →
      Settles opens Closes (e :: es) (o ::ₘ m) m'

namespace Settles

variable {opens : Event → Multiset Obligation} {Closes : Event → Obligation → Prop}
  {es es' : List Event} {m m' m'' : Multiset Obligation}

/-- Other open obligations are left alone. -/
theorem frame (h : Settles opens Closes es m m') (t : Multiset Obligation) :
    Settles opens Closes es (m + t) (m' + t) := by
  induction h with
  | nil m => exact .nil _
  | opening hcloses _ ih =>
    rw [Multiset.add_assoc] at ih
    exact .opening hcloses ih
  | closing hcloses _ ih =>
    rw [Multiset.add_assoc] at ih
    rw [Multiset.cons_add]
    exact .closing hcloses ih

theorem append (h : Settles opens Closes es m m') (h' : Settles opens Closes es' m' m'') :
    Settles opens Closes (es ++ es') m m'' := by
  induction h with
  | nil m => exact h'
  | opening hcloses _ ih => exact .opening hcloses (ih h')
  | closing hcloses _ ih => exact .closing hcloses (ih h')

/-- What happens up to some point of a trace. -/
theorem of_append (h : Settles opens Closes (es ++ es') m m'') :
    ∃ m', Settles opens Closes es m m' := by
  induction es generalizing m with
  | nil => exact ⟨m, .nil m⟩
  | cons e es ih =>
    cases h with
    | opening hcloses h =>
      obtain ⟨m', h'⟩ := ih h
      exact ⟨m', .opening hcloses h'⟩
    | closing hcloses h =>
      obtain ⟨m', h'⟩ := ih h
      exact ⟨m', .closing hcloses h'⟩

/-- An event that has nothing to do with obligations. -/
theorem neutral {e : Event} (hcloses : ∀ o, ¬ Closes e o) (hopens : opens e = 0)
    (h : Settles opens Closes es m m') : Settles opens Closes (e :: es) m m' := by
  refine .opening hcloses ?_
  rwa [hopens, Multiset.zero_add]

/-- Segments of a trace, each of which closes the obligation of its index and
whatever it opens, close the obligations of all indices. -/
theorem flatMap {ι : Type*} {segment : ι → List Event} {obligation : ι → Obligation}
    {is : List ι} (h : ∀ i ∈ is, Settles opens Closes (segment i) {obligation i} 0) :
    Settles opens Closes (is.flatMap segment) (is.map obligation : List Obligation) 0 := by
  induction is with
  | nil => exact .nil _
  | cons i is ih =>
    have hhead := (h i List.mem_cons_self).frame (is.map obligation : List Obligation)
    rw [Multiset.zero_add] at hhead
    exact hhead.append (ih fun j hj => h j (List.mem_cons_of_mem i hj))

end Settles

end Obligations
