import KubeAtlas.Cluster.Index
import KubeAtlas.Cluster.Path
import KubeAtlas.Proofs.Text.Split
/-!
# Paths and places

A path leads back to the zone and the name that it was made of, provided that neither is empty and
neither holds a slash. Whatever else a path can be split into is malformed, so that splitting is
exactly the inverse of joining on such names.
-/

namespace KubeAtlas

namespace Cluster

def IsSegment (name : String) : Prop := name ≠ "" ∧ '/' ∉ name.toList

theorem isSegment_iff {name : String} :
    IsSegment name ↔ name.toList ≠ [] ∧ '/' ∉ name.toList := by
  simp [IsSegment]

/-- A path is well formed when it joins two names that can stand in one, and only then. -/
theorem splitPath_eq_ok_iff {path zone name : String} :
    splitPath path = .ok (zone, name) ↔
      path = zone ++ "/" ++ name ∧ IsSegment zone ∧ IsSegment name := by
  have hjoin : path = zone ++ "/" ++ name ↔ path.toList = zone.toList ++ '/' :: name.toList := by
    rw [← String.toList_inj]
    simp
  rw [hjoin, isSegment_iff, isSegment_iff, splitPath]
  cases hsplit : Text.splitFirst? '/' path.toList with
  | none =>
      constructor
      · simp [throw, throwThe, MonadExceptOf.throw]
      · rintro ⟨h, ⟨-, hzone⟩, -⟩
        rw [Text.splitFirst?_eq_some_iff.2 ⟨h, hzone⟩] at hsplit
        simp at hsplit
  | some parts =>
      obtain ⟨before, after⟩ := parts
      obtain ⟨hpath, hbefore⟩ := Text.splitFirst?_eq_some_iff.1 hsplit
      have hcond : (before.isEmpty || after.isEmpty || after.contains '/') = true ↔
          (before = [] ∨ after = []) ∨ '/' ∈ after := by
        simp
      simp only [hcond]
      constructor
      · intro h
        split at h
        · simp [throw, throwThe, MonadExceptOf.throw] at h
        · next hgood =>
            obtain ⟨rfl, rfl⟩ := Prod.mk.inj (Except.ok.inj h)
            simp only [not_or] at hgood
            simp [hpath, hbefore, hgood]
      · rintro ⟨h, ⟨hzone, hzoneSlash⟩, hname, hnameSlash⟩
        rw [Text.splitFirst?_eq_some_iff.2 ⟨h, hzoneSlash⟩, Option.some.injEq,
          Prod.mk.injEq] at hsplit
        obtain ⟨rfl, rfl⟩ := hsplit
        rw [if_neg (by simp [hzone, hname, hnameSlash]), String.ofList_toList, String.ofList_toList]
        rfl

theorem splitPath_eq_error {path : String} {f : Failure} (h : splitPath path = .error f) :
    f = .path .malformed path none none := by
  rw [splitPath] at h
  split at h
  · split at h
    · exact (Except.error.inj h).symm
    · cases h
  · exact (Except.error.inj h).symm

end Cluster
end KubeAtlas
