/-
# Relations between versions

Two versions, as they are given, stand in the relation of an operator or they do not. The question
is put to the decision between constraints: the bound at the second version is required, and the
first version alone is provided.
-/
import VersionRanges.Constraint.Overlap

namespace VersionRanges.Relation

/-- Whether the first version stands in the relation of an operator to the second. -/
def between (op : Operator) (first second : Text) : Bool :=
  (Constraint.atom ⟨op, second⟩ none).isMetBy first

/-- Whether the first version is above the second. -/
def isAbove : Text → Text → Bool := between .gt

/-- Whether the first version is above the second, or equal to it. -/
def isAtLeast : Text → Text → Bool := between .ge

/-- Whether the first version is below the second. -/
def isBelow : Text → Text → Bool := between .lt

/-- Whether the first version is below the second, or equal to it. -/
def isAtMost : Text → Text → Bool := between .le

/-- Whether the first version is equal to the second. -/
def isEqual : Text → Text → Bool := between .eq

/-- Whether the first version differs from the second. -/
def isDifferent : Text → Text → Bool := between .ne

/-- Whether two versions stand in the relation that a token spells. -/
def compareBy (first token second : Text) : Except Error Bool :=
  (Operator.ofToken token).map fun op => between op first second

end VersionRanges.Relation
