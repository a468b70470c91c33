/-
# Trees of constraints

Induction over a constraint, with the members of a group taken one by one, and the value, the bounds
and the meaning of a group in terms of its members.
-/
import VersionRanges.Constraint.Meaning

namespace VersionRanges.Constraint

/-- A property of constraints holds if every group has it whose members have it. -/
@[elab_as_elim, induction_eliminator]
theorem induction {motive : Constraint → Prop} (anything : ∀ label, motive (anything label))
    (atom : ∀ bound label, motive (atom bound label))
    (group : ∀ connective members label, (∀ member ∈ members, motive member) →
      motive (group connective members label))
    (constraint : Constraint) : motive constraint := by
  refine @Constraint.rec motive (fun members => ∀ member ∈ members, motive member)
    anything atom group ?_ ?_ constraint
  · simp
  · intro member members first further
    exact List.forall_mem_cons.mpr ⟨first, further⟩

section

variable (members : List Constraint) (label : Option Text)

theorem evaluate_and (value : Bound → Bool) :
    (group .and members label).evaluate value = members.all (evaluate value) :=
  evaluateAll_eq value members

theorem evaluate_or (value : Bound → Bool) :
    (group .or members label).evaluate value = members.any (evaluate value) :=
  evaluateSome_eq value members

theorem admits_and (version : Text) :
    (group .and members label).Admits version ↔ ∀ member ∈ members, member.Admits version := by
  change AdmitsAll members version ↔ _
  induction members with
  | nil => simp [AdmitsAll]
  | cons member members ih => simp [AdmitsAll, ih]

theorem admits_or (version : Text) :
    (group .or members label).Admits version ↔ ∃ member ∈ members, member.Admits version := by
  change AdmitsSome members version ↔ _
  induction members with
  | nil => simp [AdmitsSome]
  | cons member members ih => simp [AdmitsSome, ih]

end

/-! ## Bounds -/

mutual

/-- The bounds at the leaves of a constraint, from the left to the right. -/
def bounds : Constraint → List Bound
  | anything _ => []
  | atom bound _ => [bound]
  | group _ members _ => boundsOfAll members

/-- The bounds at the leaves of several constraints. -/
def boundsOfAll : List Constraint → List Bound
  | [] => []
  | member :: members => bounds member ++ boundsOfAll members

end

theorem mem_bounds_group {connective : Connective} {members : List Constraint}
    {label : Option Text} {bound : Bound} :
    bound ∈ (group connective members label).bounds ↔
      ∃ member ∈ members, bound ∈ member.bounds := by
  change bound ∈ boundsOfAll members ↔ _
  induction members with
  | nil => simp [boundsOfAll]
  | cons member members ih => simp [boundsOfAll, ih]

/-- There is no negation in a constraint, so that it keeps its truth when further bounds become
true. -/
theorem evaluate_mono {value value' : Bound → Bool} {constraint : Constraint}
    (grows : ∀ bound ∈ constraint.bounds, value bound = true → value' bound = true)
    (holds : constraint.evaluate value = true) : constraint.evaluate value' = true := by
  induction constraint with
  | anything label => rfl
  | atom bound label => exact grows bound (by simp [bounds]) holds
  | group connective members label ih =>
      have inherits : ∀ member ∈ members, member.evaluate value = true →
          member.evaluate value' = true := fun member inside =>
        ih member inside fun bound leaf => grows bound (mem_bounds_group.mpr ⟨member, inside, leaf⟩)
      cases connective with
      | and =>
          rw [evaluate_and, List.all_eq_true] at holds ⊢
          exact fun member inside => inherits member inside (holds member inside)
      | or =>
          rw [evaluate_or, List.any_eq_true] at holds ⊢
          obtain ⟨member, inside, meets⟩ := holds
          exact ⟨member, inside, inherits member inside meets⟩

/-! ## Meaning -/

/-- The meaning of a constraint is its value under the versions that each bound admits. -/
theorem admits_iff_evaluate (constraint : Constraint) (version : Text) :
    constraint.Admits version ↔ constraint.evaluate (Bound.admits · version) = true := by
  induction constraint with
  | anything label => simp [Admits, evaluate]
  | atom bound label => simp [Admits, evaluate]
  | group connective members label ih =>
      cases connective with
      | and =>
          rw [admits_and, evaluate_and, List.all_eq_true]
          exact forall₂_congr ih
      | or =>
          rw [admits_or, evaluate_or, List.any_eq_true]
          exact exists_congr fun member => and_congr_right (ih member)

instance (constraint : Constraint) (version : Text) : Decidable (constraint.Admits version) :=
  decidable_of_iff _ (admits_iff_evaluate constraint version).symm

end VersionRanges.Constraint
