import X509Validator.Policy
import X509Validator.Lib.Checks
import Mathlib.Algebra.GroupWithZero.Nat

/-!
# Basic constraints

`BasicConstraintsPolicy` goes from the leaf to the root and counts the
certificates that are not self-issued. Every issuer must be marked as a CA, and
its path length constraint must not be smaller than the count so far. The count
is a `u32` and wraps around.

Results:
1. `checkIssuers_eq_ok`: which issuers are accepted, by the number of
   certificates between them and the leaf.
2. `checkIssuers_sublist`: leaving out issuers keeps the others acceptable, as
   long as the count has not wrapped around.
-/

namespace X509Validator

open Checks

namespace BasicConstraintsPolicy

/-- The checks of one issuer in the loop. -/
def checkIssuer (cert : Certificate) (subCaCount : UInt32) : PolicyEvaluationResult :=
  if cert.version == .v1 then
    .ok ()
  else
    match cert.basicConstraints with
    | .error error =>
      .error ⟨s!"error processing basic constraints for {cert.debug}: {error.display}"⟩
    | .ok basicConstraints =>
      match basicConstraints with
      | some ⟨true, some maxPathLength⟩ =>
        if maxPathLength < subCaCount then
          .error ⟨s!"CA {cert.debug} has maximum path length {maxPathLength}, " ++
            s!"but chain has {subCaCount} subCAs"⟩
        else
          .ok ()
      | some ⟨true, none⟩ => .ok ()
      | _ => .error ⟨s!"certificate {cert.debug} is not marked as a CA"⟩

/-- The loop over the issuers, from the one of the leaf to the root. Only
certificates that are not self-issued count. -/
def checkIssuers : List Certificate → UInt32 → PolicyEvaluationResult
  | [], _ => .ok ()
  | cert :: issuers, subCaCount => do
    checkIssuer cert subCaCount
    checkIssuers issuers (if cert.issuer ≠ cert.subject then subCaCount + 1 else subCaCount)

/-- A trust root presented as the leaf must be marked as a CA. -/
def checkSelfSigned (leaf : Certificate) : PolicyEvaluationResult :=
  match leaf.basicConstraints with
  | .error error =>
    .error ⟨s!"error processing basic constraints for {leaf.debug}: {error.display}"⟩
  | .ok basicConstraints =>
    match basicConstraints with
    | some ⟨true, _⟩ => .ok ()
    | _ => .error ⟨s!"self-signed cert {leaf.debug} is not marked as a CA"⟩

end BasicConstraintsPolicy

def basicConstraintsPolicy : ValidationPolicy where
  verifyingCriticalExtensions := [oidX509ExtBasicConstraints]
  chainMeetsPolicyRequirements chain :=
    -- the chain is never empty, so the first check of the source is left out
    if chain.len = 1 && chain.leaf.version != .v1 then
      BasicConstraintsPolicy.checkSelfSigned chain.leaf
    else
      BasicConstraintsPolicy.checkIssuers chain.certificates.tail 0

/-! ## Issuers -/

/-- The certificate may issue, with this many certificates below it that count. -/
inductive MayIssue (cert : Certificate) (subCaCount : UInt32) : Prop
  | version1 : cert.version = .v1 → MayIssue cert subCaCount
  | unlimited : cert.basicConstraints = .ok (some ⟨true, none⟩) → MayIssue cert subCaCount
  | limited {maxPathLength : UInt32} :
      cert.basicConstraints = .ok (some ⟨true, some maxPathLength⟩) →
      subCaCount ≤ maxPathLength → MayIssue cert subCaCount

theorem MayIssue.mono {cert : Certificate} {subCaCount subCaCount' : UInt32}
    (h : MayIssue cert subCaCount) (hle : subCaCount' ≤ subCaCount) :
    MayIssue cert subCaCount' := by
  cases h with
  | version1 hversion => exact .version1 hversion
  | unlimited hconstraints => exact .unlimited hconstraints
  | limited hconstraints hlimit => exact .limited hconstraints (UInt32.le_trans hle hlimit)

/-- The number of certificates that count against a path length constraint. -/
def subCas (certs : List Certificate) : Nat := certs.countP fun cert => cert.issuer ≠ cert.subject

theorem subCas_append (certs certs' : List Certificate) :
    subCas (certs ++ certs') = subCas certs + subCas certs' :=
  List.countP_append

theorem subCas_le_of_sublist {certs certs' : List Certificate} (h : certs'.Sublist certs) :
    subCas certs' ≤ subCas certs :=
  h.countP_le

namespace BasicConstraintsPolicy

theorem checkIssuer_eq_ok {cert : Certificate} {subCaCount : UInt32} :
    checkIssuer cert subCaCount = .ok () ↔ MayIssue cert subCaCount := by
  unfold checkIssuer
  constructor
  · intro h
    split at h
    · next hversion => exact .version1 (eq_of_beq hversion)
    cases hdecoded : cert.basicConstraints with
    | error error =>
      rw [hdecoded] at h
      cases h
    | ok basicConstraints =>
      rw [hdecoded] at h
      match basicConstraints, hdecoded, h with
      | some ⟨true, some maxPathLength⟩, hdecoded, h =>
        simp only at h
        split at h
        · cases h
        · next hlimit => exact .limited hdecoded (UInt32.not_lt.mp hlimit)
      | some ⟨true, none⟩, hdecoded, _ => exact .unlimited hdecoded
      | some ⟨false, _⟩, _, h => cases h
      | none, _, h => cases h
  · intro h
    cases h with
    | version1 hversion => rw [if_pos (by simp [hversion])]
    | unlimited hconstraints =>
      simp only [hconstraints]
      split <;> rfl
    | limited hconstraints hlimit =>
      simp only [hconstraints, UInt32.not_lt.mpr hlimit, ↓reduceIte]
      split <;> rfl

/-- The count after one more certificate. -/
theorem count_step (cert : Certificate) (n : Nat) :
    (if cert.issuer ≠ cert.subject then UInt32.ofNat n + 1 else UInt32.ofNat n) =
      UInt32.ofNat (n + subCas [cert]) := by
  by_cases h : cert.issuer ≠ cert.subject
  · simp [subCas, h]
  · simp [subCas, h]

theorem checkIssuers_cons {cert : Certificate} {issuers : List Certificate} {n : Nat} :
    checkIssuers (cert :: issuers) (UInt32.ofNat n) = .ok () ↔
      MayIssue cert (UInt32.ofNat n) ∧
        checkIssuers issuers (UInt32.ofNat (n + subCas [cert])) = .ok () := by
  rw [checkIssuers, seq_eq_ok, checkIssuer_eq_ok, count_step]

/-- The loop with `n` certificates already counted. -/
theorem checkIssuers_ofNat_eq_ok (issuers : List Certificate) (n : Nat) :
    checkIssuers issuers (UInt32.ofNat n) = .ok () ↔
      ∀ below cert above, issuers = below ++ cert :: above →
        MayIssue cert (UInt32.ofNat (n + subCas below)) := by
  induction issuers generalizing n with
  | nil => simp [checkIssuers]
  | cons first issuers ih =>
    rw [checkIssuers_cons, ih]
    constructor
    · rintro ⟨hfirst, hissuers⟩ below cert above heq
      cases below with
      | nil =>
        cases heq
        exact hfirst
      | cons _ below =>
        cases heq
        have hcount := hissuers below cert above rfl
        rwa [Nat.add_assoc, ← subCas_append, List.singleton_append] at hcount
    · intro hall
      refine ⟨hall [] first issuers rfl, fun below cert above heq => ?_⟩
      have hcount := hall (first :: below) cert above (by rw [heq]; rfl)
      rwa [Nat.add_assoc, ← subCas_append, List.singleton_append]

/-! ## 1. Which issuers are accepted -/

theorem checkIssuers_eq_ok {issuers : List Certificate} :
    checkIssuers issuers 0 = .ok () ↔
      ∀ below cert above, issuers = below ++ cert :: above →
        MayIssue cert (UInt32.ofNat (subCas below)) := by
  have h := checkIssuers_ofNat_eq_ok issuers 0
  simp only [Nat.zero_add] at h
  exact h

/-! ## 2. Fewer issuers -/

/-- An element of a sublist, with at least as much before it in the whole list. -/
theorem split_of_sublist {issuers below' above' : List Certificate} {cert : Certificate}
    (h : (below' ++ cert :: above').Sublist issuers) :
    ∃ below above, issuers = below ++ cert :: above ∧ below'.Sublist below := by
  obtain ⟨before, after, rfl, hbelow, hafter⟩ := List.append_sublist_iff.mp h
  obtain ⟨upTo, rest, rfl, hcert, -⟩ := List.cons_sublist_iff.mp hafter
  obtain ⟨init, tail, rfl⟩ := List.append_of_mem hcert
  refine ⟨before ++ init, tail ++ rest, by simp, hbelow.trans ?_⟩
  exact List.sublist_append_left before init

theorem checkIssuers_sublist {issuers issuers' : List Certificate}
    (h : issuers'.Sublist issuers) (hcount : subCas issuers.dropLast < 2 ^ 32)
    (hok : checkIssuers issuers 0 = .ok ()) : checkIssuers issuers' 0 = .ok () := by
  rw [checkIssuers_eq_ok] at hok ⊢
  intro below' cert above' heq
  subst heq
  obtain ⟨below, above, rfl, hbelow⟩ := split_of_sublist h
  have hle := subCas_le_of_sublist hbelow
  have hlt : subCas below < UInt32.size := by
    rw [List.dropLast_append_of_ne_nil (by simp), subCas_append] at hcount
    exact Nat.lt_of_le_of_lt (Nat.le_add_right _ _) hcount
  refine (hok below cert above rfl).mono ?_
  rw [UInt32.le_iff_toNat_le, UInt32.toNat_ofNat_of_lt' (by omega),
    UInt32.toNat_ofNat_of_lt' (by omega)]
  omega

end BasicConstraintsPolicy

end X509Validator
