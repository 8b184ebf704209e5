import X509Validator.Completeness

/-!
# Blocks of alternatives

`one_of!` builds a policy from a sequence of items: policies, policies under a
condition, and choices between two policies. A chain must meet one of them.
`validate_oneOf_iff` gives the leaves that such a block validates in terms of its
items: a path to a root, all of whose critical extensions are listed by every
item, and which one of the items accepts.

A policy whose condition is false is left out of an AND-chain, because it
accepts every chain and adds nothing to the union of the extensions. In a block
of alternatives it accepts no chain, but it also lists no extension, and nothing
is left of the intersection. A block with a disabled item thus handles no
critical extension at all, whatever its other items list.

Results:
1. `disabled_alternatives_absent_iff`: a disabled item is not the same as an
   absent one where every path that the other items accept has a critical
   extension.
-/

namespace X509Validator

/-! ## The items of a block -/

/-- An item of `one_of!`. A condition has been decided when the policy is built,
so it is not part of the item. -/
inductive OneOfItem
  | plain (policy : ValidationPolicy)
  | bareIf (wrapped : Option ValidationPolicy)
  | ifElse (chosen : ValidationPolicy ⊕ ValidationPolicy)

namespace OneOfItem

def toPolicy : OneOfItem → ValidationPolicy
  | plain policy => policy
  | bareIf wrapped => .oneOfWrappedOptional wrapped
  | ifElse chosen => .either chosen

/-- A bare `if` whose condition is false. -/
def isDisabled : OneOfItem → Bool
  | bareIf none => true
  | _ => false

end OneOfItem

/-- `one_of!`, for at least one item. -/
def oneOf : (items : List OneOfItem) → items ≠ [] → ValidationPolicy
  | [], h => absurd rfl h
  | [item], _ => item.toPolicy
  | item :: next :: rest, _ =>
    .oneOfTuple2 item.toPolicy (oneOf (next :: rest) (List.cons_ne_nil next rest))

/-- The block without its disabled items. -/
def enabledItems (items : List OneOfItem) : List OneOfItem :=
  items.filter fun item => !item.isDisabled

section

variable {items : List OneOfItem} {item : OneOfItem} {chain : UnverifiedCertificateChain}

theorem mem_enabledItems : item ∈ enabledItems items ↔ item ∈ items ∧ item.isDisabled = false := by
  simp [enabledItems]

theorem ne_nil_of_enabledItems (h : enabledItems items ≠ []) : items ≠ [] := by
  rintro rfl
  exact h rfl

theorem OneOfItem.isDisabled_eq_true (h : item.isDisabled = true) : item = .bareIf none := by
  obtain _ | (_ | _) | _ := item
  · cases h
  · rfl
  · cases h
  · cases h

/-! ## What a block accepts and lists -/

theorem oneOf_accepts (h : items ≠ []) :
    (oneOf items h).Accepts chain ↔ ∃ item ∈ items, item.toPolicy.Accepts chain := by
  induction items with
  | nil => exact absurd rfl h
  | cons item rest ih =>
    cases rest with
    | nil => simp [oneOf]
    | cons next rest =>
      rw [oneOf, ValidationPolicy.oneOfTuple2_accepts, ih (List.cons_ne_nil next rest)]
      simp only [List.mem_cons, exists_eq_or_imp]

theorem mem_oneOf (h : items ≠ []) {oid : Oid} :
    oid ∈ (oneOf items h).verifyingCriticalExtensions ↔
      ∀ item ∈ items, oid ∈ item.toPolicy.verifyingCriticalExtensions := by
  induction items with
  | nil => exact absurd rfl h
  | cons item rest ih =>
    cases rest with
    | nil => simp [oneOf]
    | cons next rest =>
      rw [List.forall_mem_cons, ← ih (List.cons_ne_nil next rest)]
      simp [oneOf, ValidationPolicy.oneOfTuple2]

end

/-! ## Validation under a block -/

section

variable {v : Validator} {leaf : Certificate} {intermediates : CertificateStore}

/-- A path from the leaf to a root that the items accept as alternatives. -/
structure AcceptablePath (v : Validator) (items : List OneOfItem) (leaf : Certificate)
    (intermediates : CertificateStore) (chain : UnverifiedCertificateChain) : Prop where
  anchored : Anchored v leaf intermediates chain.certificates
  issued : chain.certificates.IsChain (Issued v.crypto)
  distinct : chain.certificates.Pairwise fun a b => a.hasSameIdentityAs b = false
  listed : ∀ c ∈ chain.certificates, ∀ ext ∈ c.extensions, ext.critical = true →
    ∀ item ∈ items, ext.oid ∈ item.toPolicy.verifyingCriticalExtensions
  accepted : ∃ item ∈ items, item.toPolicy.Accepts chain

theorem Anchored.withPolicy {certs : List Certificate} {policy : ValidationPolicy} :
    Anchored { v with policy } leaf intermediates certs ↔ Anchored v leaf intermediates certs := by
  constructor
  · intro h
    cases h with
    | direct hroot => exact .direct hroot
    | through middle root hmiddle hroot => exact .through middle root hmiddle hroot
  · intro h
    cases h with
    | direct hroot => exact .direct hroot
    | through middle root hmiddle hroot => exact .through middle root hmiddle hroot

theorem validate_oneOf_iff {items : List OneOfItem} (h : items ≠ []) :
    (∃ chain, Validator.validate { v with policy := oneOf items h } leaf intermediates =
      .ok chain) ↔ ∃ chain, AcceptablePath v items leaf intermediates chain := by
  constructor
  · rintro ⟨chain, hchain⟩
    obtain ⟨hanchored, hlinked, haccepts⟩ := anchored_of_validate_eq_ok hchain
    exact ⟨⟨chain.certificates, chain.nonempty⟩, {
      anchored := Anchored.withPolicy.mp hanchored
      issued := hlinked.issued
      distinct := hlinked.distinct
      listed := fun c hc ext hext hcritical =>
        (mem_oneOf h).mp (hlinked.handled c hc ext hext hcritical)
      accepted := (oneOf_accepts h).mp haccepts }⟩
  · rintro ⟨chain, hpath⟩
    refine validate_ok_of_anchored chain (Anchored.withPolicy.mpr hpath.anchored)
      ⟨hpath.issued, hpath.distinct, ?_⟩ ((oneOf_accepts h).mpr hpath.accepted)
    intro c hc ext hext hcritical
    exact (mem_oneOf h).mpr (hpath.listed c hc ext hext hcritical)

/-- A disabled item takes all paths with a critical extension out of the block,
and no others. -/
theorem acceptablePath_disabled_iff {items : List OneOfItem} {item : OneOfItem}
    {chain : UnverifiedCertificateChain} (hitem : item ∈ items)
    (hdisabled : item.isDisabled = true) :
    AcceptablePath v items leaf intermediates chain ↔
      AcceptablePath v (enabledItems items) leaf intermediates chain ∧
        ∀ c ∈ chain.certificates, ∀ ext ∈ c.extensions, ext.critical = false := by
  constructor
  · intro h
    have hcritical : ∀ c ∈ chain.certificates, ∀ ext ∈ c.extensions, ext.critical = false := by
      intro c hc ext hext
      rw [Bool.eq_false_iff]
      intro hcritical
      have hlisted := h.listed c hc ext hext hcritical item hitem
      rw [OneOfItem.isDisabled_eq_true hdisabled] at hlisted
      cases hlisted
    obtain ⟨accepting, haccepting, haccepts⟩ := h.accepted
    have henabled : accepting.isDisabled = false := by
      rw [Bool.eq_false_iff]
      intro hdisabled
      rw [OneOfItem.isDisabled_eq_true hdisabled] at haccepts
      cases haccepts
    exact ⟨{ h with
      listed := fun c hc ext hext hext' item hitem =>
        h.listed c hc ext hext hext' item (mem_enabledItems.mp hitem).1
      accepted := ⟨accepting, mem_enabledItems.mpr ⟨haccepting, henabled⟩, haccepts⟩ },
      hcritical⟩
  · rintro ⟨h, hcritical⟩
    obtain ⟨accepting, haccepting, haccepts⟩ := h.accepted
    exact { h with
      listed := fun c hc ext hext hext' => by
        rw [hcritical c hc ext hext] at hext'
        cases hext'
      accepted := ⟨accepting, (mem_enabledItems.mp haccepting).1, haccepts⟩ }

theorem enabledItems_eq_self {items : List OneOfItem}
    (h : ∀ item ∈ items, item.isDisabled = false) : enabledItems items = items :=
  List.filter_eq_self.mpr fun item hitem => by rw [h item hitem]; rfl

/-! ## 1. Disabled alternatives -/

/-- A block and the block without its disabled items validate the same leaves
where no item is disabled, and where a path without critical extensions is
accepted if any path is. -/
theorem disabled_alternatives_absent_iff (v : Validator) (items : List OneOfItem)
    (henabled : enabledItems items ≠ []) (leaf : Certificate)
    (intermediates : CertificateStore) :
    ((∃ chain, Validator.validate
        { v with policy := oneOf items (ne_nil_of_enabledItems henabled) } leaf intermediates =
          .ok chain) ↔
      ∃ chain, Validator.validate { v with policy := oneOf (enabledItems items) henabled } leaf
        intermediates = .ok chain) ↔
    (∀ item ∈ items, item.isDisabled = false) ∨
      ((∃ chain, AcceptablePath v (enabledItems items) leaf intermediates chain) →
        ∃ chain, AcceptablePath v (enabledItems items) leaf intermediates chain ∧
          ∀ c ∈ chain.certificates, ∀ ext ∈ c.extensions, ext.critical = false) := by
  rw [validate_oneOf_iff, validate_oneOf_iff]
  by_cases hall : ∀ item ∈ items, item.isDisabled = false
  · rw [enabledItems_eq_self hall]
    exact iff_of_true Iff.rfl (.inl hall)
  · rw [or_iff_right hall]
    obtain ⟨item, hitem, hdisabled⟩ : ∃ item ∈ items, item.isDisabled = true := by
      simpa using hall
    simp only [acceptablePath_disabled_iff hitem hdisabled]
    constructor
    · exact fun h => h.mpr
    · exact fun h => ⟨fun ⟨chain, hpath, _⟩ => ⟨chain, hpath⟩, h⟩

end

namespace SamplePki

/-- A disabled item before a policy. -/
def disabledBlock (policy : ValidationPolicy) : List OneOfItem := [.bareIf none, .plain policy]

def anyChainPolicy : ValidationPolicy := ⟨[oidX509ExtBasicConstraints], fun _ => .ok ()⟩

end SamplePki

/-- There is a path without critical extensions. -/
theorem disabled_alternatives_absent_short :
    (∃ chain, Validator.validate { SamplePki.validator with
        policy := oneOf (SamplePki.disabledBlock SamplePki.anyChainPolicy)
          (List.cons_ne_nil _ _) } SamplePki.endEntity SamplePki.caStore = .ok chain) ↔
      ∃ chain, Validator.validate { SamplePki.validator with
        policy := oneOf [.plain SamplePki.anyChainPolicy] (List.cons_ne_nil _ _) }
        SamplePki.endEntity SamplePki.caStore = .ok chain := by
  refine (disabled_alternatives_absent_iff SamplePki.validator
    (SamplePki.disabledBlock SamplePki.anyChainPolicy) (List.cons_ne_nil _ _)
    SamplePki.endEntity SamplePki.caStore).mpr (.inr fun _ => ⟨SamplePki.shortChain, ?_, ?_⟩)
  · exact {
      anchored := .through [SamplePki.ca1Cross] SamplePki.root (by decide +kernel)
        (by decide +kernel)
      issued := by decide +kernel
      distinct := by decide +kernel
      listed := by decide +kernel
      accepted := ⟨.plain SamplePki.anyChainPolicy, List.mem_singleton_self _, rfl⟩ }
  · decide +kernel

/-- The only path of at least four certificates has a critical extension, which
the policy lists. -/
theorem disabled_alternative_not_absent :
    ¬ ((∃ chain, Validator.validate { SamplePki.validator with
        policy := oneOf (SamplePki.disabledBlock SamplePki.longChainPolicy)
          (List.cons_ne_nil _ _) } SamplePki.endEntity SamplePki.caStore = .ok chain) ↔
      ∃ chain, Validator.validate { SamplePki.validator with
        policy := oneOf [.plain SamplePki.longChainPolicy] (List.cons_ne_nil _ _) }
        SamplePki.endEntity SamplePki.caStore = .ok chain) := by
  intro h
  have hwithout : Validator.validate SamplePki.validator SamplePki.endEntity SamplePki.caStore =
      .ok ⟨SamplePki.longChain.certificates, SamplePki.longChain.nonempty⟩ := by
    decide +kernel
  have hwith : (Validator.validate { SamplePki.validator with
      policy := oneOf (SamplePki.disabledBlock SamplePki.longChainPolicy)
        (List.cons_ne_nil _ _) } SamplePki.endEntity SamplePki.caStore).isOk = false := by
    decide +kernel
  obtain ⟨chain, hchain⟩ := h.mpr ⟨_, hwithout⟩
  rw [hchain] at hwith
  cases hwith

end X509Validator
