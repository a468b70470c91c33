/-
# Overlap with a single version

The decision whether constraints overlap is made for two ranges. Where the provided constraint pins
one version, the rules for ranges fall away, and what is left is the meaning of the required
constraint.
-/
import VersionRanges.Proofs.Overlap.Decision
import VersionRanges.Proofs.Overlap.Tree
import VersionRanges.Selection

namespace VersionRanges

namespace Constraint

/-- A constraint overlaps the pin of a version exactly if the constraint stands for the version. -/
theorem overlaps_atom_pin (required : Constraint) (version : Text) (label : Option Text) :
    required.overlaps (atom (Bound.pin version) label) = decide (required.Admits version) := by
  have leaves : (fun leaf => (atom (Bound.pin version) label).meetsBound leaf) =
      (Bound.admits · version) := by
    funext leaf
    exact Bound.overlaps_pin false leaf version
  rw [overlaps, leaves, Bool.eq_iff_iff, decide_eq_true_eq, admits_iff_evaluate]

/-- The overlap decision with the pin of a version, which was made for ranges, is the meaning of the
constraint at every depth. A version text therefore satisfies a constraint text, once both are
read, exactly if the constraint stands for the normal form of the version. -/
theorem overlaps_pin_eq_admits :
    (∀ (required : Constraint) (version : Text) (label : Option Text),
      required.overlaps (atom (Bound.pin version) label) = decide (required.Admits version)) ∧
    ∀ (version text normal : Text) (required : Constraint),
      Version.normalize version = .ok normal → parse text = .ok required →
        Selection.trySatisfies version text = .ok (decide (required.Admits normal)) := by
  refine ⟨overlaps_atom_pin, ?_⟩
  intro version text normal required reads reads'
  rw [← overlaps_atom_pin required normal none]
  simp [Selection.trySatisfies, reads, reads', isMetBy, bind, Except.bind, pure, Except.pure]

/-- A preview inside the caret range of two alternatives, the other of which is a branch. -/
theorem overlaps_pin_eq_admits_alternatives :
    ∃ required, Version.normalize "v1.4b2".toList = .ok "1.4.0.0-beta2".toList ∧
      parse "^1.2 || dev-main".toList = .ok required ∧
      required.Admits "1.4.0.0-beta2".toList ∧
      Selection.trySatisfies "v1.4b2".toList "^1.2 || dev-main".toList =
        .ok (decide (required.Admits "1.4.0.0-beta2".toList)) := by
  have reads : Version.normalize "v1.4b2".toList = .ok "1.4.0.0-beta2".toList := rfl
  have reads' : parse "^1.2 || dev-main".toList =
      .ok (group .or
        [group .and
          [atom ⟨.ge, "1.2.0.0-dev".toList⟩ none, atom ⟨.lt, "2.0.0.0-dev".toList⟩ none] none,
          atom ⟨.eq, "dev-main".toList⟩ none]
        (some "^1.2 || dev-main".toList)) := rfl
  exact ⟨_, reads, reads', by decide, overlaps_pin_eq_admits.2 _ _ _ _ reads reads'⟩

end Constraint

end VersionRanges
