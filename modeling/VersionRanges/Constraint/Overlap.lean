/-
# Overlap of constraints

Whether a provided constraint can meet a required one. A group is evaluated by its own connective,
the required group first. Where the required constraint has come down to a bound and the provided
one is a group, the members of that group take the place of the required side.
-/
import VersionRanges.Constraint.Basic

namespace VersionRanges.Constraint

/-- Whether a provided constraint can meet a required bound. -/
def meetsBound (required : Bound) : Constraint → Bool
  | anything _ => true
  | atom provided _ => required.overlaps provided false
  | group connective members label =>
    (group connective members label).evaluate fun member => member.overlaps required false

/-- Whether a provided constraint can meet a required one. -/
def overlaps (required provided : Constraint) : Bool :=
  required.evaluate fun leaf => provided.meetsBound leaf

/-- Whether a required constraint is met by one version. -/
def isMetBy (required : Constraint) (version : Text) : Bool :=
  required.overlaps (atom (Bound.pin version) none)

end VersionRanges.Constraint
