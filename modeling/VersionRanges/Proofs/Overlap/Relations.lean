/-
# The laws of relations between versions

A relation between two versions is asked of the decision between constraints, which has rules for
ranges that this question does not need. What is left of them is the direct comparison of the two
versions. Releases are in exactly one of three relations, and the other three are unions of those;
two branches are the same or in no relation, and a branch is in no relation to a release. Exchanging
the versions exchanges each operator with its mirror.
-/
import Mathlib.Logic.ExistsUnique
import VersionRanges.Proofs.Overlap.Decision
import VersionRanges.Relation

namespace VersionRanges

namespace Operator

/-- The operators that exclude each other, one for each way in which values can compare. -/
def exclusive : List Operator := [lt, eq, gt]

/-- The exclusive operator for a comparison. -/
def ofOrdering : Ordering → Operator
  | .lt => lt
  | .eq => eq
  | .gt => gt

theorem admits_iff_eq_ofOrdering {op : Operator} (listed : op ∈ exclusive) (ordering : Ordering) :
    op.admits ordering = true ↔ op = ofOrdering ordering := by
  simp only [exclusive, List.mem_cons, List.not_mem_nil, or_false] at listed
  rcases listed with rfl | rfl | rfl
  · cases ordering <;> decide
  · cases ordering <;> decide
  · cases ordering <;> decide

/-- Of the exclusive operators each comparison admits exactly one. -/
theorem existsUnique_admits (ordering : Ordering) :
    ∃! op, op ∈ exclusive ∧ op.admits ordering = true := by
  have listed : ofOrdering ordering ∈ exclusive := by cases ordering <;> decide
  refine ⟨ofOrdering ordering, ⟨listed, ?_⟩, ?_⟩
  · exact (admits_iff_eq_ofOrdering listed ordering).mpr rfl
  · rintro op ⟨listed', admitted⟩
    exact (admits_iff_eq_ofOrdering listed' ordering).mp admitted

/-- The other operators are unions of exclusive ones. -/
theorem admits_union (ordering : Ordering) :
    le.admits ordering = (lt.admits ordering || eq.admits ordering) ∧
      ge.admits ordering = (gt.admits ordering || eq.admits ordering) ∧
      ne.admits ordering = (lt.admits ordering || gt.admits ordering) := by
  cases ordering <;> decide

end Operator

namespace Relation

open Comparison (holds holdsBetween)

/-- The pin of the first version leaves nothing of the rules for ranges, so that the two versions
are compared directly. -/
theorem between_eq_holds (op : Operator) (first second : Text) :
    between op first second = holds first op second false :=
  Bound.overlaps_pin false ⟨op, second⟩ first

theorem compareBy_symbol (op : Operator) (first second : Text) :
    compareBy first op.symbol second = .ok (between op first second) := by
  rw [compareBy, Operator.ofToken_symbol]
  rfl

/-- Two releases are in the relations that their comparison admits. -/
theorem between_of_releases {first second : Text} (release : Branch.isBranch first = false)
    (release' : Branch.isBranch second = false) (op : Operator) :
    between op first second = op.admits (Version.compare first second) := by
  rw [between_eq_holds]
  apply Comparison.holds_of_comparable
  · simp [release]
  · exact .inr (release.trans release'.symm)

/-- A relation between two versions, by an operator, by its name or by a token, is the direct
comparison of the two, and turns into the mirrored one when they are exchanged; so does the
comparison of versions that may be absent, with or without a comparison of branches. Exactly one of
the exclusive operators holds between two releases, and the others are their unions. No operator
holds between a branch and a release, and between two branches only the equality of their texts. -/
theorem between_laws (first second : Text) :
    (∀ op, between op first second = holdsBetween (some first) (some second) op false) ∧
    ([isEqual, isBelow, isAtMost, isAbove, isAtLeast, isDifferent].map (· first second) =
      [.eq, .lt, .le, .gt, .ge, .ne].map (holdsBetween (some first) (some second) · false)) ∧
    (∀ token, compareBy first token second =
      (Operator.ofToken token).map (holdsBetween (some first) (some second) · false)) ∧
    (∀ op, between op.mirror second first = between op first second ∧
      compareBy second op.mirror.symbol first = compareBy first op.symbol second) ∧
    (Branch.isBranch first = false → Branch.isBranch second = false →
      (∃! op, op ∈ [.lt, .eq, .gt] ∧ between op first second = true) ∧
      between .le first second = (between .lt first second || between .eq first second) ∧
      between .ge first second = (between .gt first second || between .eq first second) ∧
      between .ne first second = (between .lt first second || between .gt first second)) ∧
    (Branch.isBranch first ≠ Branch.isBranch second → ∀ op, between op first second = false) ∧
    (Branch.isBranch first = true → Branch.isBranch second = true →
      ∀ op, between op first second = true ↔ op = .eq ∧ first = second) ∧
    ∀ (optional optional' : Option Text) (op : Operator) (withBranches : Bool),
      holdsBetween optional' optional op.mirror withBranches =
        holdsBetween optional optional' op withBranches := by
  have direct : ∀ op, between op first second = holdsBetween (some first) (some second) op false :=
    fun op => between_eq_holds op first second
  have mirrored : ∀ op, between op.mirror second first = between op first second := by
    intro op
    rw [between_eq_holds, between_eq_holds]
    exact Comparison.holds_mirror first second op false
  refine ⟨direct, ?_, ?_, ?_, ?_, ?_, ?_, Comparison.holdsBetween_mirror⟩
  · simp only [isEqual, isBelow, isAtMost, isAbove, isAtLeast, isDifferent, List.map_cons,
      List.map_nil, direct]
  · intro token
    simp only [compareBy, direct]
  · intro op
    refine ⟨mirrored op, ?_⟩
    rw [compareBy_symbol, compareBy_symbol, mirrored]
  · intro release release'
    simp only [between_of_releases release release']
    exact ⟨Operator.existsUnique_admits _, Operator.admits_union _⟩
  · intro apart op
    rw [between_eq_holds]
    exact Comparison.holds_of_isBranch_ne apart op
  · intro branch branch' op
    rw [between_eq_holds, Comparison.holds_of_isBranch branch branch', Bool.and_eq_true,
      beq_iff_eq, beq_iff_eq]

/-- A preview below its release, a release beside a branch, and two branches. -/
theorem between_laws_preview_and_branches :
    (∃! op, op ∈ [.lt, .eq, .gt] ∧ between op "1.0-RC1".toList "1".toList = true) ∧
      (∀ op, between op "1.0".toList "dev-main".toList = false) ∧
      ∀ op, between op "dev-main".toList "dev-next".toList = true ↔
        op = .eq ∧ "dev-main".toList = "dev-next".toList := by
  obtain ⟨-, -, -, -, releases, -⟩ := between_laws "1.0-RC1".toList "1".toList
  obtain ⟨-, -, -, -, -, mixed, -⟩ := between_laws "1.0".toList "dev-main".toList
  obtain ⟨-, -, -, -, -, -, branches, -⟩ := between_laws "dev-main".toList "dev-next".toList
  exact ⟨(releases (by decide) (by decide)).1, mixed (by decide),
    branches (by decide) (by decide)⟩

end Relation

end VersionRanges
