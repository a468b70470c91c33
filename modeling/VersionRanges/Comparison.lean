/-
# Comparisons with branches

An operator compares two versions by their order, but branches have no place in it: two branches are
either the same or not comparable, and a branch is not comparable with a release unless the caller
asks for it. A version may be absent, and then it stands below every version that is present.
-/
import VersionRanges.Operator
import VersionRanges.Version.Order

namespace VersionRanges.Comparison

/-- Whether an optional version is present and a branch. -/
def isBranch (version : Option Text) : Bool := (version.map Branch.isBranch).getD false

/-- The order of two optional versions. -/
def order : Option Text → Option Text → Ordering
  | some first, some second => Version.compare first second
  | some _, none => .gt
  | none, some _ => .lt
  | none, none => .eq

/-- Whether two optional versions stand in the relation of an operator. If `withBranches` is set, a
branch is compared with a release like any other version. -/
def holdsBetween (first second : Option Text) (op : Operator) (withBranches : Bool) : Bool :=
  if isBranch first && isBranch second then op == .eq && first == second
  else if !withBranches && (isBranch first || isBranch second) then false
  else op.admits (order first second)

/-- Whether two versions stand in the relation of an operator. -/
def holds (first : Text) (op : Operator) (second : Text) (withBranches : Bool) : Bool :=
  holdsBetween (some first) (some second) op withBranches

end VersionRanges.Comparison
