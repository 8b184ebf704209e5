import X509Validator.Certificate
import Mathlib.Data.List.AList

/-!
# Certificate stores

`CertificateStore` keeps its certificates in buckets, one for each subject name,
keyed by the DER bytes of that name. The bucket of a name lists the certificates
of that subject in insertion order. A store carries the proof that every
certificate sits in the bucket of its own subject.
-/

namespace X509Validator

/-- The hash map from subject names to certificates, as an association list. -/
structure CertificateStore where
  bySubject : AList fun _ : Bytes => List Certificate
  keyed : ∀ key certs, bySubject.lookup key = some certs → ∀ c ∈ certs, c.subjectKey = key

namespace CertificateStore

def new : CertificateStore where
  bySubject := ∅
  keyed := by
    intro key certs h
    simp at h

/-- The certificates with this subject, in insertion order. -/
def findBySubject (store : CertificateStore) (subjectKey : Bytes) : List Certificate :=
  (store.bySubject.lookup subjectKey).getD []

theorem subjectKey_of_mem_findBySubject {store : CertificateStore} {key : Bytes} {c : Certificate}
    (h : c ∈ store.findBySubject key) : c.subjectKey = key := by
  unfold findBySubject at h
  cases hl : store.bySubject.lookup key with
  | none => simp [hl] at h
  | some certs => exact store.keyed key certs hl c (by simpa [hl] using h)

def append (store : CertificateStore) (certificate : Certificate) : CertificateStore where
  bySubject := store.bySubject.insert certificate.subjectKey
    (store.findBySubject certificate.subjectKey ++ [certificate])
  keyed := by
    intro key certs h c hc
    by_cases hkey : key = certificate.subjectKey
    · subst hkey
      rw [AList.lookup_insert, Option.some.injEq] at h
      subst h
      rcases List.mem_append.mp hc with hc | hc
      · exact subjectKey_of_mem_findBySubject hc
      · rw [List.mem_singleton.mp hc]
    · rw [AList.lookup_insert_ne hkey] at h
      exact store.keyed key certs h c hc

def fromIter (certificates : List Certificate) : CertificateStore :=
  certificates.foldl append new

/-- All certificates of a store, bucket by bucket. -/
def certificates (store : CertificateStore) : List Certificate :=
  store.bySubject.entries.flatMap fun entry => entry.2

instance : Membership Certificate CertificateStore where
  mem store c := c ∈ store.certificates

instance (store : CertificateStore) (c : Certificate) : Decidable (c ∈ store) :=
  inferInstanceAs (Decidable (c ∈ store.certificates))

theorem not_mem_new {c : Certificate} : c ∉ new :=
  List.not_mem_nil

theorem mem_iff_mem_findBySubject {store : CertificateStore} {c : Certificate} :
    c ∈ store ↔ c ∈ store.findBySubject c.subjectKey := by
  constructor
  · intro h
    obtain ⟨⟨key, certs⟩, hentry, hc⟩ := List.mem_flatMap.mp h
    have hl : store.bySubject.lookup key = some certs := AList.mem_lookup_iff.mpr hentry
    have hkey : c.subjectKey = key := store.keyed key certs hl c hc
    rw [hkey, findBySubject, hl]
    exact hc
  · intro h
    unfold findBySubject at h
    cases hl : store.bySubject.lookup c.subjectKey with
    | none => simp [hl] at h
    | some certs =>
      rw [hl, Option.getD_some] at h
      exact List.mem_flatMap.mpr ⟨⟨_, certs⟩, AList.mem_lookup_iff.mp hl, h⟩

/-- A lookup finds the certificates of the store with this subject. -/
theorem mem_findBySubject_iff {store : CertificateStore} {key : Bytes} {c : Certificate} :
    c ∈ store.findBySubject key ↔ c ∈ store ∧ c.subjectKey = key := by
  constructor
  · intro h
    have hkey := subjectKey_of_mem_findBySubject h
    subst hkey
    exact ⟨mem_iff_mem_findBySubject.mpr h, rfl⟩
  · rintro ⟨h, rfl⟩
    exact mem_iff_mem_findBySubject.mp h

theorem findBySubject_append (store : CertificateStore) (certificate : Certificate) (key : Bytes) :
    (store.append certificate).findBySubject key =
      store.findBySubject key ++ [certificate].filter fun c => c.subjectKey == key := by
  by_cases hkey : key = certificate.subjectKey
  · subst hkey
    rw [findBySubject, append, AList.lookup_insert, Option.getD_some,
      List.filter_cons_of_pos (by simp), List.filter_nil]
  · rw [List.filter_cons_of_neg (by simpa using Ne.symm hkey), List.filter_nil, List.append_nil,
      findBySubject, append, AList.lookup_insert_ne hkey, findBySubject]

/-- A store filled from a sequence keeps, for each subject, the certificates of
that subject in the order of the sequence. -/
theorem findBySubject_fromIter (certificates : List Certificate) (key : Bytes) :
    (fromIter certificates).findBySubject key =
      certificates.filter fun c => c.subjectKey == key := by
  have hfold : ∀ store : CertificateStore, (certificates.foldl append store).findBySubject key =
      store.findBySubject key ++ certificates.filter fun c => c.subjectKey == key := by
    induction certificates with
    | nil => simp
    | cons certificate rest ih =>
      intro store
      rw [List.foldl_cons, ih, findBySubject_append, List.append_assoc, ← List.filter_append,
        List.singleton_append]
  rw [fromIter, hfold]
  simp [findBySubject, new]

theorem mem_fromIter {certificates : List Certificate} {c : Certificate} :
    c ∈ fromIter certificates ↔ c ∈ certificates := by
  rw [mem_iff_mem_findBySubject, findBySubject_fromIter]
  simp

end CertificateStore

end X509Validator
