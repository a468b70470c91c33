/-
# Selecting and sorting versions

The questions that one asks about version texts: whether a version satisfies a constraint, which of
several versions do, and in which order they stand. Versions that cannot be read satisfy nothing and
are left out of a sorted list.
-/
import VersionRanges.Constraint.Overlap
import VersionRanges.Constraint.Parser

namespace VersionRanges.Selection

/-- Whether a version satisfies a constraint. A version that cannot be read is refused before the
constraint is read. -/
def trySatisfies (version constraint : Text) : Except Error Bool := do
  let normal ← Version.normalize version
  let required ← Constraint.parse constraint
  return required.isMetBy normal

/-- Whether a version and a constraint can be read and the version satisfies the constraint. -/
def satisfies (version constraint : Text) : Bool :=
  match trySatisfies version constraint with
  | .ok answer => answer
  | .error _ => false

/-- Whether a version can be read and meets a constraint. -/
def isMetByText (required : Constraint) (version : Text) : Bool :=
  match Version.normalize version with
  | .ok normal => required.isMetBy normal
  | .error _ => false

/-- The versions that satisfy a constraint, in the order given. -/
def satisfiedBy (versions : List Text) (constraint : Text) : List Text :=
  match Constraint.parse constraint with
  | .ok required => versions.filter (isMetByText required)
  | .error _ => []

/-- A version as it was written, with its normal form. -/
structure Entry where
  normal : Text
  written : Text

/-- The entry of a version, if it can be read. -/
def entry? (version : Text) : Option Entry :=
  match Version.normalize version with
  | .ok normal => some ⟨normal, version⟩
  | .error _ => none

/-- Whether the first entry may stand before the second in ascending order. -/
def Entry.le (first second : Entry) : Bool :=
  Version.compareNormal first.normal second.normal != .gt

/-- The versions that can be read, in ascending order. Versions that compare equal stay in the order
given. -/
def sort (versions : List Text) : List Text :=
  ((versions.filterMap entry?).mergeSort Entry.le).map Entry.written

/-- The versions that can be read, in descending order. Versions that compare equal stay in the
order given. -/
def sortDescending (versions : List Text) : List Text :=
  ((versions.filterMap entry?).mergeSort fun first second => second.le first).map Entry.written

end VersionRanges.Selection
