import Mathlib.Data.List.Basic
import Mathlib.Data.List.Forall2
import Mathlib.Algebra.BigOperators.Group.List.Basic
import Mathlib.Algebra.GroupWithZero.Nat

/-!
# Depth-first search with an explicit stack

A finite search tree is given by what a node contributes when it is visited and
by its children, with a rank that drops from a node to each of its children.
This module defines the recursive preorder of such a tree and proves that any
loop that pops a node, runs its contribution and pushes its children in order
computes the same thing as running the preorder of the whole stack.

* `SearchTree.preorder`, `SearchTree.size`: the recursive reading and the
  number of nodes below a node.
* `SearchTree.loop_eq_foldlM`: the stack loop is a fold over the preorder. The
  fold is in an arbitrary lawful monad, so that the loop may stop early.
* `SearchTree.preorder_filterMap`: two trees with the same children.
* `SearchTree.preorder_sublist`, `SearchTree.preorder_filter_eq`: a tree and a
  pruned one.
* `SearchTree.preorder_simulation`: two trees that simulate each other node by
  node.
-/

namespace StackSearch

universe u v

section Lists

variable {α β : Type*} {f f' : α → List β} {k : α → Bool}

theorem flatMap_sublist_flatMap {l' l : List α} (hl : l'.Sublist l)
    (hf : ∀ x ∈ l', (f' x).Sublist (f x)) : (l'.flatMap f').Sublist (l.flatMap f) := by
  induction hl with
  | slnil => exact List.Sublist.refl _
  | cons a _ ih =>
    rw [List.flatMap_cons]
    exact (ih hf).trans (List.sublist_append_right _ _)
  | cons_cons a _ ih =>
    rw [List.flatMap_cons, List.flatMap_cons]
    exact (hf a List.mem_cons_self).append (ih fun x hx => hf x (List.mem_cons_of_mem a hx))

theorem flatMap_eq_flatMap_filter {l : List α} (hk : ∀ x, k x = false → f x = []) :
    l.flatMap f = (l.filter k).flatMap f := by
  induction l with
  | nil => rfl
  | cons a l ih =>
    cases ha : k a with
    | true => rw [List.filter_cons_of_pos ha, List.flatMap_cons, List.flatMap_cons, ih]
    | false =>
      rw [List.filter_cons_of_neg (by simp [ha]), List.flatMap_cons, hk a ha, List.nil_append, ih]

theorem forall₂_flatMap {α' β' : Type*} {R : α → α' → Prop} {S : β → β' → Prop}
    {g : α' → List β'} {l : List α} {l' : List α'} (hl : List.Forall₂ R l l')
    (h : ∀ x x', x ∈ l → R x x' → List.Forall₂ S (f x) (g x')) :
    List.Forall₂ S (l.flatMap f) (l'.flatMap g) := by
  induction hl with
  | nil => exact List.Forall₂.nil
  | @cons x x' l l' hx _ ih =>
    rw [List.flatMap_cons, List.flatMap_cons]
    exact List.rel_append (h x x' List.mem_cons_self hx)
      (ih fun y y' hy => h y y' (List.mem_cons_of_mem x hy))

/-- A list related to one with a distinguished element has one, too. -/
theorem exists_of_forall₂_append_cons {R : α → β → Prop} {pre post : List α} {x : α} {l : List β}
    (h : List.Forall₂ R (pre ++ x :: post) l) :
    ∃ pre' y post', l = pre' ++ y :: post' ∧ List.Forall₂ R pre pre' ∧ R x y := by
  induction pre generalizing l with
  | nil =>
    cases h with
    | cons hxy _ => exact ⟨[], _, _, rfl, .nil, hxy⟩
  | cons a pre ih =>
    cases h with
    | cons hab hrest =>
      obtain ⟨pre', y, post', rfl, hpre, hxy⟩ := ih hrest
      exact ⟨_ :: pre', y, post', rfl, .cons hab hpre, hxy⟩

end Lists

/-- A search tree: what a node contributes and what it is expanded to. The rank
bounds the depth below a node, so that the tree below every node is finite. -/
structure SearchTree (Node Item : Type*) where
  visit : Node → List Item
  children : Node → List Node
  rank : Node → Nat
  rank_lt : ∀ {n m : Node}, m ∈ children n → rank m < rank n

namespace SearchTree

variable {Node Item Item' : Type*} (T : SearchTree Node Item)

/-- The contributions below `n`, each node before its children. -/
def preorder (n : Node) : List Item :=
  T.visit n ++ (T.children n).attach.flatMap fun m => preorder m.1
termination_by T.rank n
decreasing_by exact T.rank_lt m.2

/-- The number of nodes below `n`, itself included. -/
def size (n : Node) : Nat :=
  1 + ((T.children n).attach.map fun m => size m.1).sum
termination_by T.rank n
decreasing_by exact T.rank_lt m.2

/-- The recursion equation of `preorder`. -/
theorem preorder_eq (n : Node) :
    T.preorder n = T.visit n ++ (T.children n).flatMap T.preorder := by
  rw [preorder]
  congr 1
  rw [List.flatMap_subtype (g := T.preorder) (fun _ _ => rfl), List.unattach_attach]

theorem size_eq (n : Node) : T.size n = 1 + ((T.children n).map T.size).sum := by
  rw [size]
  congr 2
  rw [List.map_subtype (g := T.size) (fun _ _ => rfl), List.unattach_attach]

/-- A property that passes from the children to their parent holds everywhere. -/
theorem induction {P : Node → Prop} (step : ∀ n, (∀ m ∈ T.children n, P m) → P n) (n : Node) :
    P n :=
  step n fun m _ => induction step m
termination_by T.rank n
decreasing_by exact T.rank_lt ‹_›

/-! ## The stack loop -/

/-- The nodes still to be visited from a stack. -/
def stackSize (stack : List Node) : Nat := (stack.map T.size).sum

/-- Popping a node and pushing its children visits exactly one node. -/
theorem stackSize_cons (n : Node) (stack : List Node) :
    T.stackSize (n :: stack) = 1 + T.stackSize (T.children n ++ stack) := by
  simp only [stackSize, List.map_cons, List.sum_cons, List.map_append, List.sum_append, size_eq T n]
  omega

/-- A loop that pops a node, runs its contribution with `act` and goes on with
its children on top of the stack is a fold of `act` over the preorder of the
stack. The loop equation is only needed for nodes that satisfy an invariant,
which the children inherit. -/
theorem loop_eq_foldlM {m : Type u → Type v} [Monad m] [LawfulMonad m] {S : Type u}
    {act : S → Item → m S} {loop : List Node → S → m S} {P : Node → Prop}
    (inv_children : ∀ n, P n → ∀ c ∈ T.children n, P c)
    (nil : ∀ s, loop [] s = pure s)
    (cons : ∀ n stack s, P n →
      loop (n :: stack) s = (T.visit n).foldlM act s >>= loop (T.children n ++ stack))
    (stack : List Node) (hinv : ∀ n ∈ stack, P n) (s : S) :
    loop stack s = (stack.flatMap T.preorder).foldlM act s := by
  match stack with
  | [] => rw [nil, List.flatMap_nil, List.foldlM_nil]
  | n :: rest =>
    have hn : P n := hinv n List.mem_cons_self
    have hnext : ∀ c ∈ T.children n ++ rest, P c := by
      intro c hc
      rcases List.mem_append.mp hc with hc | hc
      · exact inv_children n hn c hc
      · exact hinv c (List.mem_cons_of_mem n hc)
    have ih := loop_eq_foldlM inv_children nil cons (T.children n ++ rest) hnext
    rw [cons n rest s hn, List.flatMap_cons, preorder_eq, List.append_assoc, List.foldlM_append,
      ← List.flatMap_append]
    exact congrArg (_ >>= ·) (funext ih)
termination_by T.stackSize stack
decreasing_by
  rw [stackSize_cons]
  omega

/-! ## Two trees with related contributions -/

/-- Trees with the same children and with contributions related by `f` have
preorders related by `f`. -/
theorem preorder_filterMap {T : SearchTree Node Item} {T' : SearchTree Node Item'}
    {f : Item → Option Item'} (children : ∀ n, T'.children n = T.children n)
    (visit : ∀ n, (T.visit n).filterMap f = T'.visit n) (n : Node) :
    (T.preorder n).filterMap f = T'.preorder n := by
  induction n using T.induction with
  | step n ih =>
    rw [T.preorder_eq, T'.preorder_eq, List.filterMap_append, visit, List.filterMap_flatMap,
      children]
    congr 1
    exact List.flatMap_congr ih

/-- Pruning contributions and children of a tree prunes its preorder. -/
theorem preorder_sublist {T T' : SearchTree Node Item}
    (visit : ∀ n, (T'.visit n).Sublist (T.visit n))
    (children : ∀ n, (T'.children n).Sublist (T.children n)) (n : Node) :
    (T'.preorder n).Sublist (T.preorder n) := by
  induction n using T.induction with
  | step n ih =>
    rw [T.preorder_eq, T'.preorder_eq]
    exact (visit n).append
      (flatMap_sublist_flatMap (children n) fun c hc => ih c ((children n).subset hc))

/-- Pruning that keeps every contribution selected by `q`, and every child
below which there is one, keeps the selected part of the preorder. -/
theorem preorder_filter_eq {T T' : SearchTree Node Item} {q : Item → Bool} {k : Node → Bool}
    (visit : ∀ n, (T'.visit n).filter q = (T.visit n).filter q)
    (children : ∀ n, (T'.children n).filter k = (T.children n).filter k)
    (barren : ∀ n, k n = false → (T.preorder n).filter q = [])
    (barren' : ∀ n, k n = false → (T'.preorder n).filter q = []) (n : Node) :
    (T'.preorder n).filter q = (T.preorder n).filter q := by
  induction n using T.induction with
  | step n ih =>
    rw [T.preorder_eq, T'.preorder_eq, List.filter_append, List.filter_append, visit,
      List.filter_flatMap, List.filter_flatMap,
      flatMap_eq_flatMap_filter (k := k) fun c hc => barren' c hc,
      flatMap_eq_flatMap_filter (k := k) fun c hc => barren c hc, children]
    congr 1
    exact List.flatMap_congr fun c hc => ih c (List.mem_of_mem_filter hc)

/-- Every contribution of a preorder is made at a node that inherits any
property that parents pass on. -/
theorem forall_mem_preorder {P : Node → Prop} {Q : Item → Prop}
    (pass : ∀ n, P n → ∀ c ∈ T.children n, P c) (visit : ∀ n, P n → ∀ x ∈ T.visit n, Q x)
    {n : Node} (hn : P n) : ∀ x ∈ T.preorder n, Q x := by
  induction n using T.induction with
  | step n ih =>
    intro x hx
    rw [preorder_eq, List.mem_append, List.mem_flatMap] at hx
    rcases hx with hx | ⟨c, hc, hx⟩
    · exact visit n hn x hx
    · exact ih c hc (pass n hn c hc) x hx

/-! ## Simulation -/

/-- If related nodes contribute related items and have related children, in
order, then the preorders below related nodes are related. -/
theorem preorder_simulation {Node' : Type*} {T : SearchTree Node Item}
    {T' : SearchTree Node' Item'} {R : Node → Node' → Prop} {S : Item → Item' → Prop}
    (visit : ∀ n n', R n n' → List.Forall₂ S (T.visit n) (T'.visit n'))
    (children : ∀ n n', R n n' → List.Forall₂ R (T.children n) (T'.children n'))
    {n : Node} {n' : Node'} (h : R n n') : List.Forall₂ S (T.preorder n) (T'.preorder n') := by
  induction n using T.induction generalizing n' with
  | step n ih =>
    rw [T.preorder_eq, T'.preorder_eq]
    exact List.rel_append (visit n n' h)
      (forall₂_flatMap (children n n' h) fun c c' hc hrel => ih c hc hrel)

end SearchTree

end StackSearch
