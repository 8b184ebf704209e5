import X509Validator.Rfc5280.BasicConstraints
import X509Validator.Enumeration
import X509Validator.Lib.Budget

/-!
# Path lengths from the root to the leaf

RFC 5280 processes a path from the trust anchor down: it keeps the number of
certificates that may still follow, lowers it at each path length constraint and
takes one off for each certificate that is not self-issued. The policy counts
from the leaf up. `pathLengthBudget` is the procedure of the RFC.

Results:
1. `checkIssuers_iff_pathLengthBudget`: both directions accept the same issuers.
2. `basic_constraints_policy_accepts_iff`: the policy on whole chains.
-/

namespace X509Validator

namespace BasicConstraintsPolicy

/-- What an issuer says about the certificates below it. The outer `none` means
that it may not issue, the inner one that it has no path length constraint. -/
def pathLengthLimit (cert : Certificate) : Option (Option Nat) :=
  if cert.version = .v1 then
    some none
  else
    match cert.basicConstraints with
    | .ok (some ⟨true, pathLenConstraint⟩) => some (pathLenConstraint.map UInt32.toNat)
    | _ => none

/-- The procedure of the RFC on the issuers of a chain, the root first. The root
itself is not paid for, and neither are self-issued certificates. -/
def pathLengthBudget (issuers : List Certificate) : Bool :=
  Budget.topDown (fun cert => cert.issuer ≠ cert.subject) pathLengthLimit issuers

/-! ## 1. The two directions -/

theorem mayIssue_iff {cert : Certificate} {n : Nat} (hn : n < 2 ^ 32) :
    MayIssue cert (UInt32.ofNat n) ↔ Budget.Admits pathLengthLimit cert n := by
  have hcount : (UInt32.ofNat n).toNat = n := UInt32.toNat_ofNat_of_lt' hn
  unfold Budget.Admits pathLengthLimit
  constructor
  · intro h
    cases h with
    | version1 hversion => exact ⟨none, by rw [if_pos hversion], trivial⟩
    | unlimited hconstraints =>
      refine ⟨none, ?_, trivial⟩
      rw [hconstraints]
      split <;> rfl
    | @limited maxPathLength hconstraints hlimit =>
      by_cases hversion : cert.version = .v1
      · exact ⟨none, by rw [if_pos hversion], trivial⟩
      · refine ⟨some maxPathLength.toNat, by rw [if_neg hversion, hconstraints]; rfl, ?_⟩
        rwa [UInt32.le_iff_toNat_le, hcount] at hlimit
  · rintro ⟨bound, hlimit, hwithin⟩
    split at hlimit
    · next hversion => exact .version1 hversion
    · split at hlimit
      · next pathLenConstraint hconstraints =>
        cases Option.some.inj hlimit
        cases pathLenConstraint with
        | none => exact .unlimited hconstraints
        | some maxPathLength =>
          refine .limited hconstraints ?_
          rw [UInt32.le_iff_toNat_le, hcount]
          exact hwithin
      · cases hlimit

/-- The count from the leaf and the budget from the root accept the same issuers. -/
theorem checkIssuers_iff_pathLengthBudget {issuers : List Certificate}
    (hlen : issuers.length < 2 ^ 32) :
    checkIssuers issuers 0 = .ok () ↔ pathLengthBudget issuers.reverse = true := by
  have hadmits {below above : List Certificate} {cert : Certificate}
      (h : issuers = below ++ cert :: above) :
      MayIssue cert (UInt32.ofNat (subCas below)) ↔
        Budget.Admits pathLengthLimit cert
          (below.reverse.countP fun cert => cert.issuer ≠ cert.subject) := by
    rw [List.countP_reverse]
    refine mayIssue_iff (Nat.lt_of_le_of_lt List.countP_le_length ?_)
    rw [h, List.length_append] at hlen
    omega
  rw [checkIssuers_eq_ok, pathLengthBudget, Budget.topDown_iff]
  constructor
  · intro h above cert below heq
    have hissuers : issuers = below.reverse ++ cert :: above.reverse := by
      rw [← List.reverse_reverse issuers, heq]
      simp
    have hissuer := (hadmits hissuers).mp (h _ cert _ hissuers)
    rwa [List.reverse_reverse] at hissuer
  · intro h below cert above heq
    refine (hadmits heq).mpr (h above.reverse cert below.reverse ?_)
    rw [heq]
    simp

theorem checkSelfSigned_eq_ok {leaf : Certificate} :
    checkSelfSigned leaf = .ok () ↔
      ∃ pathLenConstraint, leaf.basicConstraints = .ok (some ⟨true, pathLenConstraint⟩) := by
  unfold checkSelfSigned
  rcases leaf.basicConstraints with error | (_ | ⟨_ | _, pathLenConstraint⟩)
  · simp
  · simp
  · simp
  · simp

end BasicConstraintsPolicy

/-! ## 2. Chains -/

/-- On chains of two or more certificates the policy is the procedure of the RFC.
A single certificate must be marked as a CA, or be of version 1. -/
theorem basic_constraints_policy_accepts_iff (chain : UnverifiedCertificateChain)
    (hlen : chain.len < 2 ^ 32) :
    (2 ≤ chain.len → (basicConstraintsPolicy.Accepts chain ↔
      BasicConstraintsPolicy.pathLengthBudget chain.certificates.tail.reverse = true)) ∧
    (chain.len = 1 → (basicConstraintsPolicy.Accepts chain ↔
      chain.leaf.version = .v1 ∨
        ∃ pathLenConstraint,
          chain.leaf.basicConstraints = .ok (some ⟨true, pathLenConstraint⟩))) := by
  simp only [ValidationPolicy.Accepts, basicConstraintsPolicy]
  constructor
  · intro hissuers
    have htail : chain.certificates.tail.length < 2 ^ 32 := by
      rw [List.length_tail]
      exact Nat.lt_of_le_of_lt (Nat.sub_le _ _) hlen
    have hlen' : decide (chain.len = 1) = false := decide_eq_false (by omega)
    rw [hlen', Bool.false_and, if_neg Bool.false_ne_true]
    exact BasicConstraintsPolicy.checkIssuers_iff_pathLengthBudget htail
  · intro hone
    have htail : chain.certificates.tail = [] :=
      List.eq_nil_of_length_eq_zero (by rw [List.length_tail]; exact Nat.sub_eq_zero_of_le hone.le)
    by_cases hversion : chain.leaf.version = .v1
    · simp [hversion, htail, BasicConstraintsPolicy.checkIssuers]
    · simp [hversion, hone, BasicConstraintsPolicy.checkSelfSigned_eq_ok]

namespace SamplePki

/-- A root with a path length constraint of one, above a self-issued certificate
and two authorities. -/
def limitedChain : UnverifiedCertificateChain :=
  ⟨[endEntity,
    { ca1 with basicConstraints := .ok (some ⟨true, some 0⟩) },
    { ca2Cross with basicConstraints := .ok (some ⟨true, none⟩) },
    { root with basicConstraints := .ok (some ⟨true, some 5⟩) },
    { root with basicConstraints := .ok (some ⟨true, some 1⟩) }], by simp⟩

end SamplePki

/-- The constraint of the root is used up by the second authority. -/
theorem basic_constraints_policy_accepts_iff_limited :
    SamplePki.limitedChain.len = 5 ∧ ¬ basicConstraintsPolicy.Accepts SamplePki.limitedChain := by
  have hbudget : ¬ BasicConstraintsPolicy.pathLengthBudget
      SamplePki.limitedChain.certificates.tail.reverse = true := by
    decide +kernel
  refine ⟨rfl, fun haccepts => hbudget ?_⟩
  exact ((basic_constraints_policy_accepts_iff SamplePki.limitedChain (by decide)).1
    (by decide)).mp haccepts

end X509Validator
