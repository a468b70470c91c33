/-
# Constraints that share a version overlap

A version that satisfies both of two constraints shows that their ranges meet, and the decision
never misses it, at whatever depth of the two trees the bounds stand. Pins are left aside: where one
is required and a half line is provided, the two are compared for equality alone.
-/
import VersionRanges.Proofs.Overlap.Exactness
import VersionRanges.Proofs.Overlap.Pin

namespace VersionRanges

open Version (standing)

namespace Comparison

/-- Only releases are in a relation other than equality. -/
theorem isBranch_eq_false_of_holds {first second : Text} {op : Operator} (unpinned : op ≠ .eq)
    (related : holds first op second false = true) :
    Branch.isBranch first = false ∧ Branch.isBranch second = false := by
  cases branch : Branch.isBranch first <;> cases branch' : Branch.isBranch second
  · exact ⟨rfl, rfl⟩
  · rw [holds_of_isBranch_ne (by simp [branch, branch'])] at related
    cases related
  · rw [holds_of_isBranch_ne (by simp [branch, branch'])] at related
    cases related
  · rw [holds_of_isBranch branch branch', beq_false_of_ne unpinned] at related
    cases related

end Comparison

namespace Bound

variable {required provided : Bound} {version : Text}

/-- Half lines that face each other and share a version overlap: their boundaries stand on the two
sides of it. -/
theorem overlaps_of_faces_of_admits (faces : required.operator.faces provided.operator = true)
    (unpinned : required.operator ≠ .eq) (unpinned' : provided.operator ≠ .eq)
    (unsigned : '#' ∉ required.version) (unsigned' : '#' ∉ provided.version)
    (plain : '#' ∉ version) (admitted : required.admits version = true)
    (admitted' : provided.admits version = true) : required.overlaps provided false = true := by
  obtain ⟨single, release⟩ := Comparison.isBranch_eq_false_of_holds unpinned admitted
  obtain ⟨-, release'⟩ := Comparison.isBranch_eq_false_of_holds unpinned' admitted'
  have related := (Comparison.holds_iff_relates _ plain unsigned single release).mp admitted
  have related' := (Comparison.holds_iff_relates _ plain unsigned' single release').mp admitted'
  obtain ⟨reaches, shared⟩ :=
    (Operator.exists_relates_of_faces faces (standing required.version)
      (standing provided.version)).mp ⟨standing version, related, related'⟩
  have told : (provided.version == required.version && provided.operator.isStrict &&
      !required.operator.isStrict) = false := by
    rw [Bool.eq_false_iff]
    intro excluded
    simp only [Bool.and_eq_true, beq_iff_eq, Bool.not_eq_true'] at excluded
    exact shared ⟨congrArg standing excluded.1.1, excluded.1.2, excluded.2⟩
  rw [overlaps_of_faces false faces, told,
    (Comparison.holds_iff_relates _ unsigned' unsigned release' release).mpr reaches]
  rfl

/-- Bounds that share a version overlap. -/
theorem overlaps_of_admits (unpinned : required.operator ≠ .eq)
    (unpinned' : provided.operator ≠ .eq) (unsigned : '#' ∉ required.version)
    (unsigned' : '#' ∉ provided.version) (plain : '#' ∉ version)
    (admitted : required.admits version = true) (admitted' : provided.admits version = true) :
    required.overlaps provided false = true := by
  rcases required.operator.pairing provided.operator with
    ⟨down, down'⟩ | ⟨up, up'⟩ | pinned | pinned | faces
  · exact overlaps_of_opensDown false down down'
  · exact overlaps_of_opensUp false up up'
  · exact absurd pinned unpinned
  · exact absurd pinned unpinned'
  · exact overlaps_of_faces_of_admits faces unpinned unpinned' unsigned unsigned' plain admitted
      admitted'

end Bound

namespace Constraint

/-- A constraint is met by a version exactly if it holds under the bounds that admit the version. -/
theorem isMetBy_eq_evaluate (required : Constraint) (version : Text) :
    required.isMetBy version = required.evaluate (Bound.admits · version) := by
  rw [isMetBy, overlaps_atom_pin, Bool.eq_iff_iff, decide_eq_true_eq, admits_iff_evaluate]

/-- A constraint that shares a version with a bound can meet it. -/
theorem meetsBound_of_admits {required : Bound} {provided : Constraint} {version : Text}
    (unpinned : required.operator ≠ .eq) (unsigned : '#' ∉ required.version)
    (unpinned' : ∀ bound ∈ provided.bounds, bound.operator ≠ .eq)
    (unsigned' : ∀ bound ∈ provided.bounds, '#' ∉ bound.version) (plain : '#' ∉ version)
    (admitted : required.admits version = true)
    (holds : provided.evaluate (Bound.admits · version) = true) :
    provided.meetsBound required = true := by
  cases provided with
  | anything label => rfl
  | atom bound label =>
      have leaf : bound ∈ (atom bound label).bounds := by simp [bounds]
      exact Bound.overlaps_of_admits unpinned (unpinned' bound leaf) unsigned (unsigned' bound leaf)
        plain admitted holds
  | group connective members label =>
      -- The members of the group take the required place, so that the two bounds change roles.
      refine evaluate_mono (fun bound leaf admitted' => ?_) holds
      exact Bound.overlaps_of_admits (unpinned' bound leaf) unpinned (unsigned' bound leaf) unsigned
        plain admitted' admitted

/-- Two constraints without pins that some version satisfies both overlap. -/
theorem overlaps_of_isMetBy {required provided : Constraint} {version : Text}
    (unpinned : ∀ bound ∈ required.bounds, bound.operator ≠ .eq)
    (unpinned' : ∀ bound ∈ provided.bounds, bound.operator ≠ .eq)
    (unsigned : ∀ bound ∈ required.bounds, '#' ∉ bound.version)
    (unsigned' : ∀ bound ∈ provided.bounds, '#' ∉ bound.version) (plain : '#' ∉ version)
    (met : required.isMetBy version = true) (met' : provided.isMetBy version = true) :
    required.overlaps provided = true := by
  rw [isMetBy_eq_evaluate] at met met'
  refine evaluate_mono (fun bound leaf admitted => ?_) met
  exact meetsBound_of_admits (unpinned bound leaf) (unsigned bound leaf) unpinned' unsigned' plain
    admitted met'

/-- Two nested constraints that `1.9.1` satisfies, neither of which is a part of the other. -/
theorem overlaps_of_isMetBy_nested :
    overlaps
      (group .and [atom ⟨.ge, "1.0".toList⟩ none,
        group .or [atom ⟨.lt, "2.0".toList⟩ none, atom ⟨.gt, "3.0".toList⟩ none] none] none)
      (group .or [atom ⟨.lt, "0.5".toList⟩ none,
        group .and [atom ⟨.gt, "1.9-beta".toList⟩ none, atom ⟨.ne, "1.9".toList⟩ none] none]
        none) = true := by
  have plain : '#' ∉ "1.9.1".toList := by decide
  exact overlaps_of_isMetBy (by decide) (by decide) (by decide) (by decide) plain (by decide)
    (by decide)

end Constraint

end VersionRanges
