/-
# The meaning of constraints

The versions that a constraint stands for, defined by its structure and without the decision whether
two constraints overlap.
-/
import VersionRanges.Constraint.Basic

namespace VersionRanges.Constraint

mutual

/-- The relation between a constraint and the versions that it stands for: every version for the
constraint that admits everything, the versions in the relation of its operator for a bound, and the
versions of all members or of some member for a group. -/
def Admits : Constraint → Text → Prop
  | anything _, _ => True
  | atom bound _, version => bound.admits version = true
  | group .and members _, version => AdmitsAll members version
  | group .or members _, version => AdmitsSome members version

/-- Every one of the constraints stands for the version. -/
def AdmitsAll : List Constraint → Text → Prop
  | [], _ => True
  | member :: members, version => Admits member version ∧ AdmitsAll members version

/-- At least one of the constraints stands for the version. -/
def AdmitsSome : List Constraint → Text → Prop
  | [], _ => False
  | member :: members, version => Admits member version ∨ AdmitsSome members version

end

end VersionRanges.Constraint
