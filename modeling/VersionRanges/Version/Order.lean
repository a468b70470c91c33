/-
# The order of versions

Versions are compared part by part, and the first parts that differ decide. When all parts of one
version are used up, the next part of the other decides: a number or a patch makes it the greater
one, a name of a preview the lesser one.
-/
import VersionRanges.Version.Branch
import VersionRanges.Version.Part

namespace VersionRanges.Version

/-- Compares two versions by their parts. -/
def compareParts : List Text → List Text → Ordering
  | [], [] => .eq
  | first :: _, [] => Part.compareToEnd first
  | [], second :: _ => (Part.compareToEnd second).swap
  | first :: moreFirst, second :: moreSecond =>
    (Part.compare first second).then (compareParts moreFirst moreSecond)

/-- The order of two versions. -/
def compare (first second : Text) : Ordering := compareParts (parts first) (parts second)

/-- The order of two versions in normal form: branches stand before everything else, and no branch
before another. -/
def compareNormal (first second : Text) : Ordering :=
  match Branch.isBranch first, Branch.isBranch second with
  | true, true => .eq
  | true, false => .lt
  | false, true => .gt
  | false, false => compare first second

end VersionRanges.Version
