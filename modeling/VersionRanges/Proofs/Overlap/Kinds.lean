/-
# Overlap of constraints of different kinds

A constraint admits everything, or is a bound, or is a group. The constraint that admits everything
overlaps every constraint that can be built, in either place: a group asks its members, and each
group has one. Where a bound and a group are compared, the members of the group take the required
place on whichever side the group stands. So the two places are alike for constraints of different
kinds, as they are not for two bounds.
-/
import VersionRanges.Proofs.Overlap.Built

namespace VersionRanges.Constraint

/-- The kinds of constraints. -/
inductive Kind where
  | anything
  | atom
  | group
deriving DecidableEq, Repr

/-- The kind of a constraint. -/
def kind : Constraint → Kind
  | anything _ => .anything
  | atom _ _ => .atom
  | group _ _ _ => .group

/-! ## The universal constraint -/

/-- If every bound holds, then so does every constraint without empty groups: each group has a
member, and none that fails. -/
theorem IsPopulated.evaluate_eq_true {value : Bound → Bool} {constraint : Constraint}
    (populated : IsPopulated constraint) (holds : ∀ bound, value bound = true) :
    constraint.evaluate value = true := by
  induction populated with
  | anything label => rfl
  | atom bound label => exact holds bound
  | @group connective members label filled _ ih =>
      cases connective with
      | and =>
          rw [evaluate_and, List.all_eq_true]
          exact ih
      | or =>
          obtain ⟨first, further, rfl⟩ := List.exists_cons_of_ne_nil filled
          rw [evaluate_or, List.any_eq_true]
          exact ⟨first, List.mem_cons_self, ih first List.mem_cons_self⟩

theorem anything_overlaps (label : Option Text) (provided : Constraint) :
    (anything label).overlaps provided = true := rfl

theorem overlaps_anything {required : Constraint} (populated : IsPopulated required)
    (label : Option Text) : required.overlaps (anything label) = true :=
  populated.evaluate_eq_true fun _ => rfl

/-- An alternative without members would not be met by everything. -/
example : (group .or [] none).overlaps (anything none) = false := rfl

/-! ## Different kinds -/

/-- The members of a group are compared with a bound in one way, on whichever side the group
stands. -/
theorem atom_overlaps_group (bound : Bound) (label : Option Text) (connective : Connective)
    (members : List Constraint) (label' : Option Text) :
    (atom bound label).overlaps (group connective members label') =
      (group connective members label').overlaps (atom bound label) := rfl

/-- Constraints of different kinds overlap in either place or in none. -/
theorem overlaps_comm_of_isPopulated {first second : Constraint} (populated : IsPopulated first)
    (populated' : IsPopulated second) (differ : first.kind ≠ second.kind) :
    first.overlaps second = second.overlaps first := by
  cases first with
  | anything label => rw [anything_overlaps, overlaps_anything populated']
  | atom bound label =>
      cases second with
      | anything label' => rw [anything_overlaps, overlaps_anything populated]
      | atom bound' label' => exact absurd rfl differ
      | group connective members label' => exact atom_overlaps_group bound label _ _ _
  | group connective members label =>
      cases second with
      | anything label' => rw [anything_overlaps, overlaps_anything populated]
      | atom bound label' => exact (atom_overlaps_group bound label' _ _ _).symm
      | group connective' members' label' => exact absurd rfl differ

/-- Reading a text and the operations on constraints make trees in which every group has a member,
at every depth. Each of these trees overlaps the constraint that admits everything, in either place,
and two of different kinds overlap in either place or in none. -/
theorem overlaps_comm_of_kind_ne :
    (∀ text required, parse text = .ok required → IsBuilt required) ∧
    (∀ constraint, IsBuilt constraint → IsPopulated constraint ∧ ∀ label,
      constraint.overlaps (anything label) = true ∧
        (anything label).overlaps constraint = true) ∧
    ∀ first second, IsBuilt first → IsBuilt second → first.kind ≠ second.kind →
      first.overlaps second = second.overlaps first := by
  refine ⟨fun text required reads => .of_parse reads, ?_, ?_⟩
  · intro constraint built
    have populated := (isBuilt_iff_isPopulated constraint).mp built
    refine ⟨populated, fun label => ⟨overlaps_anything populated label, ?_⟩⟩
    exact anything_overlaps label constraint
  · intro first second built built' differ
    have populated := (isBuilt_iff_isPopulated first).mp built
    have populated' := (isBuilt_iff_isPopulated second).mp built'
    exact overlaps_comm_of_isPopulated populated populated' differ

/-- Two alternatives, one of which is a range, beside the pin of a version between them. -/
theorem overlaps_comm_of_kind_ne_alternatives :
    ∃ required, parse "^1.2 || dev-main".toList = .ok required ∧ IsPopulated required ∧
      required.overlaps (anything none) = true ∧
      required.overlaps (atom ⟨.eq, "1.4".toList⟩ none) =
        (atom ⟨.eq, "1.4".toList⟩ none).overlaps required := by
  obtain ⟨reading, universal, mixed⟩ := overlaps_comm_of_kind_ne
  have reads : parse "^1.2 || dev-main".toList =
      .ok (group .or
        [group .and
          [atom ⟨.ge, "1.2.0.0-dev".toList⟩ none, atom ⟨.lt, "2.0.0.0-dev".toList⟩ none] none,
          atom ⟨.eq, "dev-main".toList⟩ none]
        (some "^1.2 || dev-main".toList)) := rfl
  have built := reading _ _ reads
  obtain ⟨populated, met⟩ := universal _ built
  exact ⟨_, reads, populated, (met none).1, mixed _ _ built (.atom _) (by decide)⟩

end VersionRanges.Constraint
