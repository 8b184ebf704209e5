import X509Validator.Soundness
import Mathlib.Data.List.Dedup
import Mathlib.Logic.Relation
import Mathlib.Order.WellFounded

/-!
# Chain building terminates

The loop of `validate_inner` as a transition system: a configuration is the
stack and the other variables, and a step is one iteration that neither returns
nor panics. Every partial chain on the stack of a reachable configuration is
simple (`SimplePath`), so it is no longer than the intermediate store has
identities, plus one for the leaf. The number of nodes of the search tree below
the stack drops with each step, so there is no infinite run, whatever cycles the
certificates form.

Results:
1. `search_terminates`: the invariant of the stack, the absence of panics and
   the end of every run.
-/

namespace X509Validator

open StackSearch Relation

variable {σ : Type} {v : Validator} {leaf : Certificate} {intermediates : CertificateStore}

/-! ## Simple paths -/

/-- A partial chain from the leaf through the intermediate store that repeats no
identity. -/
structure SimplePath (leaf : Certificate) (intermediates : CertificateStore)
    (partialChain : List Certificate) : Prop where
  shape : ∃ middle, partialChain = leaf :: middle ∧ ∀ c ∈ middle, c ∈ intermediates
  distinct : (partialChain.map Certificate.identity).Nodup

/-- The number of identities in a store. -/
def identityClasses (store : CertificateStore) : Nat :=
  (store.certificates.map Certificate.identity).dedup.length

theorem simplePath_leaf : SimplePath leaf intermediates [leaf] where
  shape := ⟨[], rfl, fun _ h => absurd h List.not_mem_nil⟩
  distinct := List.nodup_singleton _

theorem SimplePath.ne_nil {partialChain : List Certificate}
    (h : SimplePath leaf intermediates partialChain) : partialChain ≠ [] := by
  obtain ⟨_, rfl, _⟩ := h.shape
  simp

theorem SimplePath.extend {partialChain next : List Certificate}
    (h : SimplePath leaf intermediates partialChain)
    (hnext : next ∈ extensions v intermediates partialChain) :
    SimplePath leaf intermediates next := by
  obtain ⟨c, hc, husable, rfl⟩ := mem_extensions.mp hnext
  obtain ⟨middle, rfl, hmiddle⟩ := h.shape
  refine ⟨⟨middle ++ [c], rfl, ?_⟩, ?_⟩
  · intro x hx
    rcases List.mem_append.mp hx with hx | hx
    · exact hmiddle x hx
    · rw [List.mem_singleton.mp hx]
      exact (mem_candidates.mp hc).1
  · rw [List.map_append]
    refine List.Nodup.append h.distinct (List.nodup_singleton _) ?_
    intro identity hmem hcandidate
    obtain ⟨existing, hexisting, rfl⟩ := List.mem_map.mp hmem
    exact (usable_iff.mp husable).2.1 existing hexisting (List.mem_singleton.mp hcandidate)

/-- The certificates after the leaf have different identities of the store. -/
theorem SimplePath.length_le {partialChain : List Certificate}
    (h : SimplePath leaf intermediates partialChain) :
    partialChain.length ≤ 1 + identityClasses intermediates := by
  obtain ⟨middle, rfl, hmiddle⟩ := h.shape
  have hnodup : (middle.map Certificate.identity).Nodup := (List.nodup_cons.mp h.distinct).2
  have hsubset : middle.map Certificate.identity ⊆
      (intermediates.certificates.map Certificate.identity).dedup := by
    intro identity hidentity
    obtain ⟨c, hc, rfl⟩ := List.mem_map.mp hidentity
    exact List.mem_dedup.mpr (List.mem_map_of_mem (hmiddle c hc))
  have hlength := (List.subperm_of_subset hnodup hsubset).length_le
  rw [List.length_map] at hlength
  rw [List.length_cons, identityClasses]
  omega

theorem SimplePath.pairwise {partialChain : List Certificate}
    (h : SimplePath leaf intermediates partialChain) :
    partialChain.Pairwise fun a b => a.hasSameIdentityAs b = false := by
  have hdistinct : partialChain.Pairwise fun a b => a.identity ≠ b.identity :=
    List.pairwise_map.mp h.distinct
  refine hdistinct.imp fun {a b} hab => ?_
  rw [← Bool.not_eq_true, Certificate.hasSameIdentityAs_iff]
  exact hab

/-! ## The transition system -/

/-- The variables of the loop: the stack of partial chains, and the rest. -/
abbrev Configuration (σ : Type) := List (List Certificate) × Progress σ

/-- One iteration, after which the loop goes on. -/
inductive Step (v : Validator) (intermediates : CertificateStore)
    (diagnostics : DiagnosticCallback σ) : Configuration σ → Configuration σ → Prop
  | iteration {partialChain : List Certificate} {stack : List (List Certificate)} {g : Progress σ}
      {next : Configuration σ} :
      searchIteration v intermediates diagnostics partialChain stack g = .ok next →
      Step v intermediates diagnostics (partialChain :: stack, g) next

/-- The loop is over: the stack is empty, or an iteration returns. -/
inductive Ended (v : Validator) (intermediates : CertificateStore)
    (diagnostics : DiagnosticCallback σ) : Configuration σ → Prop
  | exhausted {g : Progress σ} : Ended v intermediates diagnostics ([], g)
  | returned {partialChain : List Certificate} {stack : List (List Certificate)} {g : Progress σ}
      {result : ChainValidationResult} {evaluated : List UnverifiedCertificateChain} {sink : σ} :
      searchIteration v intermediates diagnostics partialChain stack g =
        .error (.returned result evaluated sink) →
      Ended v intermediates diagnostics (partialChain :: stack, g)

variable {diagnostics : DiagnosticCallback σ} {config config' : Configuration σ}

/-- A step pops a partial chain and pushes its extensions. -/
theorem step_stack (h : Step v intermediates diagnostics config config') :
    ∃ partialChain stack, config.1 = partialChain :: stack ∧ partialChain ≠ [] ∧
      config'.1 = extensions v intermediates partialChain ++ stack := by
  obtain ⟨hiteration⟩ := h
  exact ⟨_, _, rfl, ne_nil_of_searchIteration hiteration, stack_of_searchIteration hiteration⟩

theorem step_simplePath (hstep : Step v intermediates diagnostics config config')
    (h : ∀ p ∈ config.1, SimplePath leaf intermediates p) :
    ∀ p ∈ config'.1, SimplePath leaf intermediates p := by
  obtain ⟨partialChain, stack, hstack, _, hstack'⟩ := step_stack hstep
  rw [hstack] at h
  rw [hstack']
  intro p hp
  rcases List.mem_append.mp hp with hp | hp
  · exact (h partialChain List.mem_cons_self).extend hp
  · exact h p (List.mem_cons_of_mem _ hp)

theorem reachable_simplePath {g : Progress σ}
    (h : ReflTransGen (Step v intermediates diagnostics) ([[leaf]], g) config) :
    ∀ p ∈ config.1, SimplePath leaf intermediates p := by
  induction h with
  | refl =>
    intro p hp
    rw [List.mem_singleton.mp hp]
    exact simplePath_leaf
  | tail _ hstep ih => exact step_simplePath hstep ih

/-- Each step visits one node of the search tree. -/
theorem step_stackSize (h : Step v intermediates diagnostics config config') :
    (chainTree v intermediates).stackSize config'.1 <
      (chainTree v intermediates).stackSize config.1 := by
  obtain ⟨partialChain, stack, hstack, _, hstack'⟩ := step_stack h
  rw [hstack, hstack', SearchTree.stackSize_cons]
  exact Nat.lt_add_of_pos_left Nat.one_pos

theorem wellFounded_step (v : Validator) (intermediates : CertificateStore)
    (diagnostics : DiagnosticCallback σ) :
    WellFounded fun next config : Configuration σ => Step v intermediates diagnostics config next :=
  Subrelation.wf (fun h => step_stackSize h)
    (InvImage.wf (fun config : Configuration σ => (chainTree v intermediates).stackSize config.1)
      Nat.lt_wfRel.wf)

/-- An item of a pass is either done or ends the run with an accepted chain. -/
theorem foldlM_act_ne_panicked (v : Validator) (diagnostics : DiagnosticCallback σ)
    (items : List SearchItem) (g : Progress σ) :
    items.foldlM (act v diagnostics) g ≠ .error .panicked := by
  rcases exists_first_accepted_or_allRejected v.policy items with
    ⟨pre, chain, post, rfl, hpre, hchain⟩ | hall
  · rw [pass_first_accepted diagnostics hpre hchain]
    simp
  · rw [pass_all_rejected diagnostics hall]
    simp

theorem searchIteration_ne_panicked (v : Validator) (intermediates : CertificateStore)
    (diagnostics : DiagnosticCallback σ) {partialChain : List Certificate} (hne : partialChain ≠ [])
    (stack : List (List Certificate)) (g : Progress σ) :
    searchIteration v intermediates diagnostics partialChain stack g ≠ .error .panicked := by
  rw [searchIteration_eq diagnostics hne]
  have hvisit := foldlM_act_ne_panicked v diagnostics (visit v intermediates partialChain) g
  cases h : (visit v intermediates partialChain).foldlM (act v diagnostics) g with
  | error exit =>
    rw [h] at hvisit
    simpa [bind, Except.bind] using hvisit
  | ok g => simp [bind, Except.bind, pure, Except.pure]

/-- A configuration without empty partial chains has a step or is an end. -/
theorem step_or_ended (v : Validator) (intermediates : CertificateStore)
    (diagnostics : DiagnosticCallback σ) (h : ∀ p ∈ config.1, p ≠ []) :
    (∃ next, Step v intermediates diagnostics config next) ∨
      Ended v intermediates diagnostics config := by
  obtain ⟨stack, g⟩ := config
  cases stack with
  | nil => exact .inr .exhausted
  | cons partialChain stack =>
    have hpanicked := searchIteration_ne_panicked v intermediates diagnostics
      (h partialChain List.mem_cons_self) stack g
    cases hiteration : searchIteration v intermediates diagnostics partialChain stack g with
    | ok next => exact .inl ⟨next, .iteration hiteration⟩
    | error exit =>
      cases exit with
      | panicked => exact absurd hiteration hpanicked
      | returned result evaluated sink => exact .inr (.returned hiteration)

/-- From a configuration of simple paths the loop reaches an end. -/
theorem exists_ended (h : ∀ p ∈ config.1, SimplePath leaf intermediates p) :
    ∃ final, ReflTransGen (Step v intermediates diagnostics) config final ∧
      Ended v intermediates diagnostics final := by
  induction config using (wellFounded_step v intermediates diagnostics).induction with
  | h config ih =>
    rcases step_or_ended v intermediates diagnostics fun p hp => (h p hp).ne_nil with
      ⟨next, hstep⟩ | hended
    · obtain ⟨final, hrun, hended⟩ := ih next hstep (step_simplePath hstep h)
      exact ⟨final, .head hstep hrun, hended⟩
    · exact ⟨config, .refl, hended⟩

/-! ## 1. Termination -/

/-- The search loop terminates on every certificate graph. In every
configuration it reaches from the leaf, each partial chain on the stack is
non-empty, starts with the leaf, repeats no identity and is at most one longer
than the number of identities in the intermediate store, and the next iteration
does not panic. It reaches an end, there is no infinite run, and the whole of
`validate_inner` does not panic. -/
theorem search_terminates (v : Validator) (leaf : Certificate) (intermediates : CertificateStore)
    (diagnostics : DiagnosticCallback σ) (g : Progress σ) :
    (∀ config : Configuration σ,
      ReflTransGen (Step v intermediates diagnostics) ([[leaf]], g) config →
      (∀ p ∈ config.1, p ≠ [] ∧ p.head? = some leaf ∧
        p.Pairwise (fun a b => a.hasSameIdentityAs b = false) ∧
        p.length ≤ 1 + identityClasses intermediates) ∧
      ∀ p stack, config.1 = p :: stack →
        searchIteration v intermediates diagnostics p stack config.2 ≠ .error .panicked) ∧
    (∃ final, ReflTransGen (Step v intermediates diagnostics) ([[leaf]], g) final ∧
      Ended v intermediates diagnostics final) ∧
    (¬ ∃ run : ℕ → Configuration σ, run 0 = ([[leaf]], g) ∧
      ∀ n, Step v intermediates diagnostics (run n) (run (n + 1))) ∧
    validateInner v leaf intermediates diagnostics g.sink ≠ .panicked := by
  refine ⟨fun config hreachable => ?_, ?_, ?_, ?_⟩
  · have hsimple := reachable_simplePath hreachable
    refine ⟨fun p hp => ?_, fun p stack hstack => ?_⟩
    · obtain ⟨middle, rfl, _⟩ := (hsimple p hp).shape
      exact ⟨List.cons_ne_nil _ _, rfl, (hsimple _ hp).pairwise, (hsimple _ hp).length_le⟩
    · have hp : p ∈ config.1 := by
        rw [hstack]
        exact List.mem_cons_self
      exact searchIteration_ne_panicked v intermediates diagnostics (hsimple p hp).ne_nil stack
        config.2
  · have hstart : ∀ p ∈ [[leaf]], SimplePath leaf intermediates p := by
      intro p hp
      rw [List.mem_singleton.mp hp]
      exact simplePath_leaf
    exact exists_ended hstart
  · rintro ⟨run, _, hrun⟩
    obtain ⟨n, hn⟩ := @WellFounded.not_rel_apply_succ _ _
      ⟨wellFounded_step v intermediates diagnostics⟩ run
    exact hn (hrun n)
  · exact validateInner_ne_panicked v leaf intermediates diagnostics g.sink

end X509Validator
