/-
# Constraints that can be built

The operations on constraints make exactly the trees in which no group is empty, and reading a text
makes no other. If every leaf of such a tree is a bound that does not admit a version, then neither
does the tree: each group has a member that fails, and none that holds.
-/
import VersionRanges.Proofs.Reading.Shape

namespace VersionRanges.Constraint

/-! ## Operations -/

/-- The constraints that can be made with the operations on them, one after another. -/
inductive IsBuilt : Constraint → Prop
  | anything : IsBuilt (anything none)
  | atom (bound : Bound) : IsBuilt (atom bound none)
  | ofMembers {connective : Connective} {members : List Constraint} {group : Constraint}
      (built : ∀ member ∈ members, IsBuilt member)
      (makes : Constraint.ofMembers connective members = .ok group) : IsBuilt group
  | join (connective : Connective) {members : List Constraint}
      (built : ∀ member ∈ members, IsBuilt member) : IsBuilt (join connective members)
  | withLabel (text : Text) {constraint : Constraint} (built : IsBuilt constraint) :
      IsBuilt (constraint.withLabel text)

/-- Every group of a constraint has a member, at whatever depth it stands. -/
inductive IsPopulated : Constraint → Prop
  | anything (label : Option Text) : IsPopulated (anything label)
  | atom (bound : Bound) (label : Option Text) : IsPopulated (atom bound label)
  | group (connective : Connective) {members : List Constraint} (label : Option Text)
      (filled : members ≠ []) (populated : ∀ member ∈ members, IsPopulated member) :
      IsPopulated (group connective members label)

theorem IsPopulated.join (connective : Connective) {members : List Constraint}
    (populated : ∀ member ∈ members, IsPopulated member) :
    IsPopulated (join connective members) := by
  match members with
  | [] => exact .anything none
  | [member] => exact populated member List.mem_cons_self
  | first :: second :: members => exact .group connective none (List.cons_ne_nil _ _) populated

theorem IsPopulated.withLabel (text : Text) {constraint : Constraint}
    (populated : IsPopulated constraint) : IsPopulated (constraint.withLabel text) := by
  cases populated with
  | anything label => exact .anything (some text)
  | atom bound label => exact .atom bound (some text)
  | group connective label filled populated => exact .group connective (some text) filled populated

/-- A constraint can be built exactly if none of its groups is empty. -/
theorem isBuilt_iff_isPopulated (constraint : Constraint) :
    IsBuilt constraint ↔ IsPopulated constraint := by
  constructor
  · intro built
    induction built with
    | anything => exact .anything none
    | atom bound => exact .atom bound none
    | @ofMembers connective members group _ makes ih =>
        rw [Constraint.ofMembers] at makes
        split at makes
        · cases makes
        · next filled =>
          obtain rfl := Except.ok.inj makes
          exact .group connective none (by simpa using filled) ih
    | join connective _ ih => exact IsPopulated.join connective ih
    | withLabel text _ ih => exact ih.withLabel text
  · -- What is made has no label yet, and is given the one that stands in the tree.
    intro populated
    induction populated with
    | anything label =>
        cases label with
        | none => exact .anything
        | some text => exact .withLabel text .anything
    | atom bound label =>
        cases label with
        | none => exact .atom bound
        | some text => exact .withLabel text (.atom bound)
    | @group connective members label filled _ ih =>
        have made : IsBuilt (group connective members none) := by
          have makes : Constraint.ofMembers connective members =
              .ok (group connective members none) := if_neg (by simpa using filled)
          exact .ofMembers ih makes
        cases label with
        | none => exact made
        | some text => exact .withLabel text made

/-- Reading a text makes no constraint that cannot be built. -/
theorem IsBuilt.of_parse {text : Text} {required : Constraint} (reads : parse text = .ok required) :
    IsBuilt required := by
  obtain ⟨alternatives, read, rfl⟩ := parse_eq_ok_iff.mp reads
  refine .withLabel text (.join .or fun alternative listed => ?_)
  obtain ⟨spelled, -, -, terms, readTerms, rfl⟩ := exists_of_mem_right read listed
  refine .join .and fun member flattened => ?_
  obtain ⟨members, inside, inside'⟩ := List.mem_flatten.mp flattened
  obtain ⟨term, -, readTerm⟩ := exists_of_mem_right (mapM_eq_ok_iff.mp readTerms) inside
  rcases isLeaf_of_readTerm readTerm member inside' with _ | bound
  · exact .anything
  · exact .atom bound

/-! ## Leaves -/

/-- Every leaf of a constraint is a bound with a property, and none admits everything. -/
inductive LeavesAre (property : Bound → Prop) : Constraint → Prop
  | atom {bound : Bound} (label : Option Text) (has : property bound) :
      LeavesAre property (atom bound label)
  | group (connective : Connective) {members : List Constraint} (label : Option Text)
      (leaves : ∀ member ∈ members, LeavesAre property member) :
      LeavesAre property (group connective members label)

theorem LeavesAre.imp {property property' : Bound → Prop} {constraint : Constraint}
    (leaves : LeavesAre property constraint) (implies : ∀ bound, property bound → property' bound) :
    LeavesAre property' constraint := by
  induction leaves with
  | atom label has => exact .atom label (implies _ has)
  | group connective label _ ih => exact .group connective label ih

/-- If no leaf of a constraint that can be built holds, then the constraint does not. -/
theorem IsPopulated.evaluate_eq_false {value : Bound → Bool} {constraint : Constraint}
    (populated : IsPopulated constraint)
    (leaves : LeavesAre (fun bound => value bound = false) constraint) :
    constraint.evaluate value = false := by
  induction populated with
  | anything label => cases leaves
  | atom bound label =>
      cases leaves with
      | atom label fails => exact fails
  | @group connective members label filled _ ih =>
      cases leaves with
      | group _ _ leaves =>
          have fails : ∀ member ∈ members, member.evaluate value = false :=
            fun member listed => ih member listed (leaves member listed)
          obtain ⟨first, further, rfl⟩ := List.exists_cons_of_ne_nil filled
          cases connective with
          | and =>
              rw [evaluate_and, List.all_cons, fails first List.mem_cons_self, Bool.false_and]
          | or =>
              rw [evaluate_or, List.any_eq_false]
              exact fun member listed => Bool.eq_false_iff.mp (fails member listed)

end VersionRanges.Constraint
