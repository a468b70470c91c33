/-
# Groupings of one meaning

How the members of a group are ordered, how often each is listed, and whether members that a group
of the same connective joins are listed in the outer group itself, makes no difference to what the
group says. One step changes one group, at any depth; the value of a tree is the same before and
after it, whatever the values of its bounds are. The overlap of two trees puts a group of either
side in the required place, and asks for such values only.
-/
import Mathlib.Logic.Relation
import VersionRanges.Constraint.Overlap
import VersionRanges.Proofs.Overlap.Tree

namespace VersionRanges.Constraint

/-! ## Steps -/

/-- One change to the grouping of a constraint: the members of a group are permuted, one of them is
repeated, or one of them is a group of the same connective and gives way to its own members. The
change may be made at any depth. -/
inductive Regroups : Constraint → Constraint → Prop
  | permute (connective : Connective) (label : Option Text) {members members' : List Constraint}
      (permuted : members.Perm members') :
      Regroups (group connective members label) (group connective members' label)
  | repeated (connective : Connective) (label : Option Text) {member : Constraint}
      {members : List Constraint} (listed : member ∈ members) :
      Regroups (group connective members label) (group connective (member :: members) label)
  | dissolve (connective : Connective) (label label' : Option Text)
      (before members after : List Constraint) :
      Regroups (group connective (before ++ group connective members label' :: after) label)
        (group connective (before ++ (members ++ after)) label)
  | inside (connective : Connective) (label : Option Text) (before after : List Constraint)
      {member member' : Constraint} (regroups : Regroups member member') :
      Regroups (group connective (before ++ member :: after) label)
        (group connective (before ++ member' :: after) label)

/-- A group is evaluated as the members of it are, by its connective. -/
theorem evaluate_group_congr {value : Bound → Bool} {connective : Connective}
    {members members' : List Constraint} (label label' : Option Text)
    (all : members.all (evaluate value) = members'.all (evaluate value))
    (any : members.any (evaluate value) = members'.any (evaluate value)) :
    (group connective members label).evaluate value =
      (group connective members' label').evaluate value := by
  cases connective with
  | and => rw [evaluate_and, evaluate_and, all]
  | or => rw [evaluate_or, evaluate_or, any]

/-- A step keeps the value of a constraint, whatever the values of its bounds. -/
theorem Regroups.evaluate_eq {constraint constraint' : Constraint}
    (regroups : Regroups constraint constraint') (value : Bound → Bool) :
    constraint.evaluate value = constraint'.evaluate value := by
  induction regroups with
  | permute connective label permuted =>
      apply evaluate_group_congr
      · exact permuted.all_eq
      · exact permuted.any_eq
  | @repeated connective label member members listed =>
      apply evaluate_group_congr
      · rw [List.all_cons, eq_comm, Bool.and_eq_right_iff_imp, List.all_eq_true]
        exact fun all => all member listed
      · rw [List.any_cons, eq_comm, Bool.or_eq_right_iff_imp, List.any_eq_true]
        exact fun holds => ⟨member, listed, holds⟩
  | dissolve connective label label' before members after =>
      -- the inner group has the connective of the outer one, which decides between the two cases
      cases connective with
      | and => simp only [evaluate_and, List.all_append, List.all_cons]
      | or => simp only [evaluate_or, List.any_append, List.any_cons]
  | inside connective label before after _ ih =>
      apply evaluate_group_congr
      · rw [List.all_append, List.all_cons, ih, List.all_append, List.all_cons]
      · rw [List.any_append, List.any_cons, ih, List.any_append, List.any_cons]

/-- A step makes a group of a group, and the two can meet the same bounds. -/
theorem Regroups.meetsBound_eq {constraint constraint' : Constraint}
    (regroups : Regroups constraint constraint') (required : Bound) :
    constraint.meetsBound required = constraint'.meetsBound required := by
  have same := regroups.evaluate_eq fun member => member.overlaps required false
  cases regroups with
  | permute => exact same
  | repeated => exact same
  | dissolve => exact same
  | inside => exact same

/-! ## Any number of steps -/

/-- Two constraints differ by any number of steps, forward or backward. -/
def Regrouped : Constraint → Constraint → Prop := Relation.EqvGen Regroups

/-- What no step changes is the same for constraints that differ by steps. -/
theorem Regrouped.eq_of_step {α : Type} {property : Constraint → α}
    (kept : ∀ constraint constraint', Regroups constraint constraint' →
      property constraint = property constraint')
    {constraint constraint' : Constraint} (regrouped : Regrouped constraint constraint') :
    property constraint = property constraint' := by
  induction regrouped with
  | rel first second step => exact kept first second step
  | refl constraint => rfl
  | symm first second _ ih => exact ih.symm
  | trans first second third _ _ ih ih' => exact ih.trans ih'

/-- The overlap of two constraints does not depend on their groupings. -/
theorem overlaps_regrouped {required required' provided provided' : Constraint}
    (regrouped : Regrouped required required') (regrouped' : Regrouped provided provided') :
    required.overlaps provided = required'.overlaps provided' := by
  have leaves : (fun leaf => provided.meetsBound leaf) = fun leaf => provided'.meetsBound leaf :=
    regrouped'.eq_of_step fun _ _ step => funext step.meetsBound_eq
  calc required.evaluate (fun leaf => provided.meetsBound leaf)
      = required'.evaluate (fun leaf => provided.meetsBound leaf) :=
        regrouped.eq_of_step fun _ _ step => step.evaluate_eq _
    _ = required'.evaluate (fun leaf => provided'.meetsBound leaf) := by rw [leaves]

/-- A required group whose inner group is dissolved and then permuted, and a provided one with a
member repeated inside of an alternative. -/
theorem overlaps_regrouped_dissolved :
    overlaps
        (group .and [atom ⟨.ge, "1.0".toList⟩ none,
          group .and [atom ⟨.lt, "2.0".toList⟩ none, atom ⟨.ne, "1.5".toList⟩ none] none] none)
        (group .or [group .and [atom ⟨.gt, "1.2".toList⟩ none] none,
          atom ⟨.eq, "dev-main".toList⟩ none] none) =
      overlaps
        (group .and [atom ⟨.ne, "1.5".toList⟩ none, atom ⟨.ge, "1.0".toList⟩ none,
          atom ⟨.lt, "2.0".toList⟩ none] none)
        (group .or [group .and [atom ⟨.gt, "1.2".toList⟩ none, atom ⟨.gt, "1.2".toList⟩ none] none,
          atom ⟨.eq, "dev-main".toList⟩ none] none) := by
  apply overlaps_regrouped
  · refine .trans _ _ _ (.rel _ _ (.dissolve .and none none [_] [_, _] [])) ?_
    exact .rel _ _ (.permute .and none (by decide))
  · exact .rel _ _ (.inside .or none [] [_] (.repeated .and none List.mem_cons_self))

end VersionRanges.Constraint
